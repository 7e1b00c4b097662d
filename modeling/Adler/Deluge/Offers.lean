/-
  To whom `send_request` sends. `handle_summary` copies the sender of a summary that offers the data;
  `handle_profile`, which starts an update and its request timer, copies no sender.

  * `Event.offer`: the sender of a summary or profile and the version it carries.
  * `Sourced`: in an unfinished update `summary_from` was heard to offer its version.
  * `requests_to_offerer`: in runs in which this is so whenever a profile starts an update, every
    request goes to a node that offered the version; after any other profile the next one does not.
-/
import Adler.Deluge.Announce
import Adler.Deluge.Frame
import Adler.Deluge.Requests

namespace Adler.Deluge

open Lib (Mem Reach Always observed)

/-- The sender and the version of the summary or profile the event delivers. -/
def Event.offer : Event → Option (RimeAddr × Nat)
  | .receive sender b => match b.message with
    | some (.summary m) => some (sender, m.version)
    | some (.profile m) => some (sender, m.version)
    | _ => none
  | _ => none

/-- Who was heard to offer which version, latest first. -/
abbrev Heard := List (RimeAddr × Nat)

/-- The offers heard once the event has happened. -/
def Heard.after (e : Event) (g : Heard) : Heard := e.offer.toList ++ g

theorem Heard.mem_after {e : Event} {g : Heard} {x : RimeAddr × Nat} (h : x ∈ g) :
    x ∈ g.after e := List.mem_append_right _ h

namespace Rx

/-- `Heard.after` along a run. -/
def hearStep (a : Env × Event) (_s _s' : Node) (g : Heard) : Heard := g.after a.2

/-- The profile of a newer version, and there is memory for its page table. -/
def Accepts (a : Env × Event) (s : Node) (m : DelugeMsgProfile) : Prop :=
  a.2.message = some (.profile m) ∧ s.updateVersion < m.version ∧ a.1.heap.isSome = true

/-- The steps in which no payload leaves `current_page`, and in which `summary_from` is one of those
    heard to offer the version when a profile starts an update to it. -/
structure OfferOk (a : Env × Event) (x : Node × Heard) : Prop where
  inBuffer : x.1.object.InBuffer a.2
  profile : a.2.OnProfile fun m => x.1.updateVersion < m.version → a.1.heap.isSome = true →
    (x.1.summaryFrom, m.version) ∈ x.2.after a.2

instance (a : Env × Event) (x : Node × Heard) : Decidable (OfferOk a x) :=
  decidable_of_iff (x.1.object.InBuffer a.2 ∧ a.2.OnProfile fun m =>
      x.1.updateVersion < m.version → a.1.heap.isSome = true →
        (x.1.summaryFrom, m.version) ∈ x.2.after a.2)
    ⟨fun h => ⟨h.1, h.2⟩, fun h => ⟨h.1, h.2⟩⟩

/-- In an unfinished update `summary_from` was heard to offer the version. -/
structure Sourced (x : Node × Heard) : Prop where
  version_le : x.1.version ≤ x.1.updateVersion
  mem : x.1.version ≠ x.1.updateVersion → (x.1.summaryFrom, x.1.updateVersion) ∈ x.2

/-- A request sent in this step of an unfinished update goes to a node that offered the version. -/
def AsksOfferer (a : Env × Event) (x : Node × Heard) : Prop :=
  x.1.version ≠ x.1.updateVersion → ∀ s', Step a x.1 s' → ∀ dst bytes,
    Effect.unicast dst bytes ∈ s'.effects → (dst, x.1.updateVersion) ∈ x.2

variable {f : File} {v : Nat} {a : Env × Event} {s s' : Node} {x y : Node × Heard}

/-! ## `summary_from` -/

theorem offerRequest_summaryFrom (env : Env) (m : DelugeMsgSummary) (sender : RimeAddr) (s : Node) :
    (offerRequest env m sender s).summaryFrom = s.summaryFrom ∨
      (offerRequest env m sender s).summaryFrom = sender := by
  unfold offerRequest
  split
  · exact .inl rfl
  · dsimp only
    split
    · exact .inl rfl
    · have hkept := transition_kept (Node.copySender sender (s.touch s.currentRxPage)) .rx
      exact .inr (congrArg Prod.fst hkept)

/-- `handle_summary` leaves `summary_from`, or copies the sender of a summary about the version the
    node updates to or, when there is no update, about a newer one. -/
theorem handleSummary_summaryFrom (env : Env) (m : DelugeMsgSummary) (sender : RimeAddr) (s : Node) :
    (handleSummary env m sender s).summaryFrom = s.summaryFrom ∨
      (handleSummary env m sender s).summaryFrom = sender ∧
        (s.updateVersion = s.version ∨ m.version = s.updateVersion) := by
  have hask : (askProfile m sender
      (noteSummary m (highestAvailablePage s) (scanPages s))).summaryFrom =
        if s.updateVersion = s.version ∧ s.version < m.version then sender else s.summaryFrom := rfl
  have hversion : (askProfile m sender
      (noteSummary m (highestAvailablePage s) (scanPages s))).updateVersion = s.updateVersion := rfl
  unfold handleSummary
  dsimp only
  generalize askProfile m sender (noteSummary m (highestAvailablePage s) (scanPages s)) = t
    at hask hversion
  have hasked : t.summaryFrom = s.summaryFrom ∨
      t.summaryFrom = sender ∧ (s.updateVersion = s.version ∨ m.version = s.updateVersion) := by
    rw [hask]
    split
    · rename_i h
      exact .inr ⟨rfl, .inl h.1⟩
    · exact .inl rfl
  split
  · rename_i h
    rcases offerRequest_summaryFrom env m sender t with heq | heq
    · rw [heq]
      exact hasked
    · exact .inr ⟨heq, .inr (h.1.trans hversion)⟩
  · exact hasked

/-- Every change of `summary_from` is to the sender of a summary. -/
theorem step_summaryFrom (h : step a.1 a.2 s = some s') :
    s'.summaryFrom = s.summaryFrom ∨ ∃ m sender, a.2.message = some (.summary m) ∧
      a.2.offer = some (sender, m.version) ∧ s'.summaryFrom = sender ∧
      (s.updateVersion = s.version ∨ m.version = s.updateVersion) := by
  by_cases hs : ∃ m, a.2.message = some (.summary m)
  swap
  · exact .inl (congrArg Prod.fst (step_kept h fun m hm => hs ⟨m, hm⟩))
  obtain ⟨m, hm⟩ := hs
  obtain ⟨env, e⟩ := a
  match e with
  | .receive sender b =>
    have hb : b.message = some (.summary m) := hm
    have h : commandDispatcherWith handleSummary handlePacket env sender b
      { s with effects := [] } = some s' := h
    rw [commandDispatcherWith_eq, hb] at h
    have hoffer : (Event.receive sender b).offer = some (sender, m.version) := by
      simp only [Event.offer, hb]
    rcases handleSummary_summaryFrom env m sender { s with effects := [] } with heq | ⟨heq, hv⟩
    · exact .inl (Option.some.inj h ▸ heq)
    · exact .inr ⟨m, sender, hm, hoffer, Option.some.inj h ▸ heq, hv⟩

/-! ## The invariant -/

/-- Neither version changes. -/
theorem Sourced.same (h : Sourced x) (hversion : s'.version = x.1.version)
    (hupdate : s'.updateVersion = x.1.updateVersion) (hfrom : s'.summaryFrom = x.1.summaryFrom) :
    Sourced (s', x.2.after a.2) := by
  constructor
  · show s'.version ≤ s'.updateVersion
    rw [hversion, hupdate]
    exact h.version_le
  · show s'.version ≠ s'.updateVersion → (s'.summaryFrom, s'.updateVersion) ∈ _
    rw [hversion, hupdate, hfrom]
    exact fun hopen => Heard.mem_after (h.mem hopen)

theorem Sourced.step (h : Sourced x) (hok : OfferOk a x) (hst : observed Step hearStep a x y) :
    Sourced y := by
  obtain ⟨s', g⟩ := y
  obtain ⟨hst, hg⟩ := hst
  have hg : g = x.2.after a.2 := hg
  have hstep : Rx.step a.1 a.2 x.1 = some s' := Step.eq_some hst hok.inBuffer
  subst hg
  by_cases hs : ∃ m, a.2.message = some (.summary m)
  · obtain ⟨m, hm⟩ := hs
    have hobj : s'.object = x.1.object := (step_refines hstep).trans (Object.next_summary hm)
    have hversion : s'.version = x.1.version := congrArg Object.version hobj
    have hupdate : s'.updateVersion = x.1.updateVersion := congrArg Object.updateVersion hobj
    rcases step_summaryFrom hstep with hfrom | ⟨m, sender, -, hoffer, hfrom, hv⟩
    · exact h.same hversion hupdate hfrom
    · constructor
      · show s'.version ≤ s'.updateVersion
        rw [hversion, hupdate]
        exact h.version_le
      · show s'.version ≠ s'.updateVersion → (s'.summaryFrom, s'.updateVersion) ∈ _
        rw [hversion, hupdate, hfrom]
        intro hopen
        have hv : m.version = x.1.updateVersion := hv.resolve_left (Ne.symm hopen)
        simp only [Heard.after, hoffer, Option.toList_some, hv]
        exact List.mem_cons_self
  · have hfrom : s'.summaryFrom = x.1.summaryFrom :=
      congrArg Prod.fst (step_kept hstep fun m hm => hs ⟨m, hm⟩)
    have hchange := step_change hstep
    generalize hobj : s'.object = o at hchange
    have hversion : s'.version = o.version := congrArg Object.version hobj
    have hupdate : s'.updateVersion = o.updateVersion := congrArg Object.updateVersion hobj
    match hchange with
    | .same | .queue _ _ | .spoil _ _ _ | .collect _ _ _ _ | .store _ _ _ | .resize _ _ _
    | .serve _ _ _ => exact h.same hversion hupdate hfrom
    | .commit _ _ _ =>
      have hdone : s'.version = s'.updateVersion := hversion.trans hupdate.symm
      exact ⟨Nat.le_of_eq hdone, fun hopen => absurd hdone hopen⟩
    | .announce (m := m) hm hv hheap =>
      have hupdate : s'.updateVersion = m.version := hupdate
      have hversion : s'.version = x.1.version := hversion
      have hlt : x.1.updateVersion < m.version := hv
      have hle : x.1.version ≤ x.1.updateVersion := h.version_le
      constructor
      · show s'.version ≤ s'.updateVersion
        omega
      · show s'.version ≠ s'.updateVersion → (s'.summaryFrom, s'.updateVersion) ∈ _
        rw [hfrom, hupdate]
        exact fun _ => hok.profile m hm hv (hheap ▸ rfl)

theorem sourced_of_reach
    (h : Reach (fun x => Booted f v x.1 ∧ x.2 = []) (observed Step hearStep) OfferOk x) :
    Sourced x := by
  refine h.invariant (I := Sourced) ?_ fun a x y hx hok hst => hx.step hok hst
  intro x h0
  have hfresh := h0.1.fresh
  have hsame : x.1.version = x.1.updateVersion := hfresh.version.trans hfresh.updateVersion.symm
  exact ⟨Nat.le_of_eq hsame, fun hopen => absurd hsame hopen⟩

/-- A request goes to `summary_from`. -/
theorem Sourced.asksOfferer (h : Sourced x) (hin : x.1.object.InBuffer a.2) : AsksOfferer a x := by
  intro hopen s' hst dst bytes hx
  rw [(unicast_eq (hst.eq_some hin) hx).1]
  exact h.mem hopen

/-! ## A profile that starts an update -/

theorem step_profile {env : Env} {e : Event} {m : DelugeMsgProfile}
    (hm : e.message = some (.profile m)) :
    step env e s = some (handleProfile env m { s with effects := [] }) := by
  match e with
  | .receive sender b =>
    have hm : b.message = some (.profile m) := hm
    show commandDispatcherWith handleSummary handlePacket env sender b _ = _
    rw [commandDispatcherWith_eq, hm]

/-- An accepted profile takes `handle_profile` to its end. -/
theorem Accepts.eq_beginUpdate {m : DelugeMsgProfile} (h : Accepts a s m)
    (hst : step a.1 a.2 s = some s') : ∃ block, a.1.heap = some block ∧
      s' = (transition .rx (beginUpdate m.version
        (scanPages (retabled a.1 m block { s with effects := [] })))).armRx := by
  obtain ⟨hm, hv, hheap⟩ := h
  rw [step_profile hm, Option.some.injEq] at hst
  have hout := handleProfile_outcome a.1 { s with effects := [] } m
  rw [hst] at hout
  match hout with
  | .old hle => exact absurd hv (Nat.not_lt.mpr hle)
  | .noMemory _ hnone =>
    rw [hnone] at hheap
    cases hheap
  | .accepted block _ hblock => exact ⟨block, hblock, rfl⟩

/-- The node asks `summary_from` next, which the profile leaves alone. -/
theorem Accepts.next {m : DelugeMsgProfile} (h : Accepts a s m) (hst : step a.1 a.2 s = some s') :
    s'.rxTimer = true ∧ s'.summaryFrom = s.summaryFrom ∧ s'.version = s.version ∧
      s'.updateVersion = m.version := by
  obtain ⟨block, hblock, hend⟩ := h.eq_beginUpdate hst
  obtain ⟨hm, hv, -⟩ := h
  have hfrom : s'.kept = s.kept := step_kept hst fun m' hm' => by rw [hm] at hm'; cases hm'
  have hobj := (step_refines hst).trans (Object.next_announce hm hv hblock)
  refine ⟨?_, congrArg Prod.fst hfrom, congrArg Object.version hobj,
    congrArg Object.updateVersion hobj⟩
  rw [hend]
  rfl

end Rx

end Adler.Deluge
