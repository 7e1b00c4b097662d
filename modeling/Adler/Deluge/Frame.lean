/-
  What the handlers the two files share leave alone: `summary_from`, which only `handle_summary`
  writes, and the variables of `deluge_disseminate` and `deluge_stop`.

  * `Rx.step_kept`, `Tx.step_kept`: no event but a summary changes them.
-/
import Adler.Deluge.Refinement

namespace Adler.Deluge

open Lib (Mem)
open Node

/-- `summary_from`, `cfs_fd` and `next_object_id`. -/
def Node.kept (s : Node) : RimeAddr × Int × Nat := (s.summaryFrom, s.cfsFd, s.nextObjectId)

section

variable (env : Env) (s : Node)

@[simp] theorem armRx_kept : (armRx s).kept = s.kept := rfl

@[simp] theorem armTx_kept : (armTx s).kept = s.kept := rfl

@[simp] theorem queuePackets_kept (m : DelugeMsgRequest) : (queuePackets m s).kept = s.kept := rfl

@[simp] theorem stampRequest_kept (i : Nat) (now : UInt32) :
    (stampRequest i now s).kept = s.kept := rfl

@[simp] theorem transition_kept (st : DelugeState) : (transition st s).kept = s.kept := by
  unfold transition
  split
  · rfl
  · split <;> rfl

theorem limitRequests_kept (lambda : Nat) : (limitRequests lambda s).kept = s.kept := by
  unfold limitRequests
  dsimp only
  split
  · exact transition_kept _ _
  · rfl

theorem advertiseSummary_kept : (advertiseSummary s).kept = s.kept := by
  unfold advertiseSummary
  split <;> rfl

theorem sendProfile_kept : (sendProfile s).kept = s.kept := by
  unfold sendProfile
  split <;> rfl

theorem sendPackets_kept (pagenum : Nat) (buf : Mem) : (sendPackets pagenum buf s).kept = s.kept := by
  unfold sendPackets
  exact foldl_frame Node.kept _ (fun s k => by split <;> rfl) _ s

theorem txCallback_kept : (txCallback env s).kept = s.kept := by
  have hsend : (sendPage env s.currentTxPage.toNat s).kept = s.kept := sendPackets_kept _ _ _
  unfold txCallback
  split
  · dsimp only
    split
    · exact hsend
    · exact (transition_kept _ _).trans hsend
  · rfl

theorem handleRequest_kept (m : DelugeMsgRequest) : (handleRequest env m s).kept = s.kept := by
  unfold handleRequest
  split
  · rfl
  · dsimp only
    split
    · rw [armTx_kept, transition_kept, queuePackets_kept, stampRequest_kept]
      rfl
    · rfl

theorem taken_kept (p : DelugeMsgPacket) : (taken env p s).kept = s.kept := by
  simp only [taken, markPacket, setPage, copyPayload]
  rfl

theorem stored_kept (p : DelugeMsgPacket) : (stored env p s).kept = s.kept :=
  taken_kept env s p

theorem nextPage_kept {announce : Node → Node} (ha : ∀ t, (announce t).kept = t.kept)
    (p : DelugeMsgPacket) : (nextPage announce p s).kept = s.kept := by
  unfold nextPage
  split
  · exact ha _
  · split <;> rfl

theorem PacketOutcome.kept {announce : Node → Node} {p : DelugeMsgPacket} {s s' : Node}
    (h : PacketOutcome announce env p s s') (ha : ∀ t, (announce t).kept = t.kept) :
    s'.kept = s.kept := by
  match h with
  | .otherPage _ => rfl
  | .unwanted _ _ => rfl
  | .corrupt _ _ _ => rfl
  | .taken _ _ _ _ => exact taken_kept env s p
  | .completes _ _ => rw [transition_kept, nextPage_kept _ ha, stored_kept]

theorem retabled_kept (m : DelugeMsgProfile) (block : Nat → Page) :
    (retabled env m block s).kept = s.kept := by
  simp only [kept, retabled, initPages_eq, reversionPages_eq, newTable, resized]

theorem handleProfile_kept (m : DelugeMsgProfile) : (handleProfile env m s).kept = s.kept := by
  have h := handleProfile_outcome env s m
  generalize handleProfile env m s = s' at h
  match h with
  | .old _ => rfl
  | .noMemory _ _ => rfl
  | .accepted block _ _ =>
    rw [armRx_kept, transition_kept]
    exact retabled_kept env s m block

end

/-- On the receiver no event but a summary changes any of them. -/
theorem Rx.step_kept {env : Env} {e : Event} {s s' : Node} (h : step env e s = some s')
    (hs : ∀ m, e.message ≠ some (.summary m)) : s'.kept = s.kept := by
  match e with
  | .receive sender b =>
    have h : commandDispatcherWith handleSummary handlePacket env sender b
      { s with effects := [] } = some s' := h
    rw [commandDispatcherWith_eq] at h
    split at h
    · rename_i m hm
      exact absurd hm (hs m)
    · exact (Option.some.inj h) ▸ handleRequest_kept env _ _
    · exact (handlePacketWith_outcome env _ h).kept env advertiseSummary_kept
    · exact (Option.some.inj h) ▸ handleProfile_kept env _ _
    · exact (Option.some.inj h) ▸ rfl
  | .rxExpires =>
    cases h
    rfl
  | .rxTimer =>
    cases h
    dsimp only
    split
    · exact limitRequests_kept _ _
    · rfl
  | .txTimer =>
    cases h
    dsimp only
    split
    · exact txCallback_kept _ _
    · rfl
  | .summaryTimer =>
    cases h
    dsimp only
    split
    · exact advertiseSummary_kept _
    · rfl
  | .profileTimer =>
    cases h
    dsimp only
    split
    · exact sendProfile_kept _
    · rfl
  | .round =>
    cases h
    rfl

/-- On the gateway no event but a summary changes any of them. -/
theorem Tx.step_kept {env : Env} {e : Event} {s s' : Node} (h : step env e s = some s')
    (hs : ∀ m, e.message ≠ some (.summary m)) : s'.kept = s.kept := by
  match e with
  | .receive sender b =>
    have h : commandDispatcherWith handleSummary handlePacket env sender b
      { s with effects := [] } = some s' := h
    rw [commandDispatcherWith_eq] at h
    split at h
    · rename_i m hm
      exact absurd hm (hs m)
    · exact (Option.some.inj h) ▸ handleRequest_kept env _ _
    · exact (handlePacketWith_outcome env _ h).kept env fun _ => rfl
    · exact (Option.some.inj h) ▸ handleProfile_kept env _ _
    · exact (Option.some.inj h) ▸ rfl
  | .rxExpires =>
    cases h
    rfl
  | .rxTimer =>
    cases h
    dsimp only
    split
    · exact limitRequests_kept _ _
    · rfl
  | .txTimer =>
    cases h
    dsimp only
    split
    · exact txCallback_kept _ _
    · rfl
  | .summaryTimer =>
    cases h
    dsimp only
    split
    · exact advertiseSummary_kept _
    · rfl
  | .profileTimer =>
    cases h
    dsimp only
    split
    · exact sendProfile_kept _
    · rfl
  | .round =>
    cases h
    rfl

end Adler.Deluge
