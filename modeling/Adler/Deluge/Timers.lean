/-
  When the callback timers of a receiver are pending. Each lemma inverts one step: a timer that is
  pending after it was pending before, or the step did one of the things that arm it.

  * `Rx.RxArmed`, `Rx.SummaryArmed`: how `rx_timer` and `summary_timer` come to be pending.
  * `Rx.step_timers`: there is no other way, and nothing starts `profile_timer`.
-/
import Adler.Deluge.Refinement

namespace Adler.Deluge

open Lib (Mem)
open Node

section

variable (st : DelugeState) (s : Node)

theorem transition_rxTimer :
    (transition st s).rxTimer = if s.delugeState = .rx ∧ st ≠ .rx then false else s.rxTimer := by
  unfold transition
  cases st <;> cases hs : s.delugeState <;> simp [stopRx]

theorem transition_rxRunning :
    (transition st s).rxRunning =
      if s.delugeState = .rx ∧ st ≠ .rx then false else s.rxRunning := by
  unfold transition
  cases st <;> cases hs : s.delugeState <;> simp [stopRx]

theorem armExpiredRx_rxTimer :
    (armExpiredRx s).rxTimer = true ↔ s.rxRunning = false ∨ s.rxTimer = true := by
  simp [armExpiredRx, rxExpired]

/-- A request is scheduled on the way to RX: an event timer that runs is left alone. -/
theorem enterRx_rxTimer :
    (armExpiredRx (transition .rx s)).rxTimer = true ↔ s.rxRunning = false ∨ s.rxTimer = true := by
  rw [armExpiredRx_rxTimer, transition_rxRunning, transition_rxTimer]
  simp

theorem transition_summaryTimer :
    (transition st s).summaryTimer =
      if s.delugeState = .maintain ∧ st ≠ .maintain then false else s.summaryTimer := by
  unfold transition
  cases st <;> cases hs : s.delugeState <;> simp [stopRx]

theorem transition_profileTimer :
    (transition st s).profileTimer =
      if s.delugeState = .maintain ∧ st ≠ .maintain then false else s.profileTimer := by
  unfold transition
  cases st <;> cases hs : s.delugeState <;> simp [stopRx]

end

/-- The three callback timers a received message can start, seen together, and of the first whether its
    event timer runs and how many of its events wait. -/
structure Timers where
  rx : Bool
  running : Bool
  events : Nat
  summary : Bool
  profile : Bool

def Node.timers (s : Node) : Timers :=
  ⟨s.rxTimer, s.rxRunning, s.rxEvents, s.summaryTimer, s.profileTimer⟩

/-- No timer is pending in `t` that is not pending in `s`. -/
def Timers.le (t s : Timers) : Prop :=
  (t.rx = true → s.rx = true) ∧ (t.summary = true → s.summary = true) ∧
    (t.profile = true → s.profile = true)

theorem Timers.le_refl (t : Timers) : t.le t := ⟨id, id, id⟩

theorem Timers.le.trans {t u v : Timers} (h : t.le u) (h' : u.le v) : t.le v :=
  ⟨h'.1 ∘ h.1, h'.2.1 ∘ h.2.1, h'.2.2 ∘ h.2.2⟩

theorem Timers.le_of_eq {t u : Timers} (h : t = u) : t.le u := h ▸ t.le_refl

section

variable (env : Env) (s : Node)

@[simp] theorem touch_timers (i : Nat) : (s.touch i).timers = s.timers := rfl

@[simp] theorem touchBelow_timers (n : Nat) : (s.touchBelow n).timers = s.timers := rfl

@[simp] theorem scanPages_timers : (scanPages s).timers = s.timers := rfl

@[simp] theorem armTx_timers : s.armTx.timers = s.timers := rfl

@[simp] theorem copySender_timers (a : RimeAddr) : (s.copySender a).timers = s.timers := rfl

@[simp] theorem noteVersion_timers (v : Nat) : (s.noteVersion v).timers = s.timers := rfl

@[simp] theorem noteSummary_timers (m : DelugeMsgSummary) (h : Nat) :
    (noteSummary m h s).timers = s.timers := rfl

@[simp] theorem stampRequest_timers (i : Nat) (now : UInt32) :
    (stampRequest i now s).timers = s.timers := rfl

@[simp] theorem queuePackets_timers (m : DelugeMsgRequest) :
    (queuePackets m s).timers = s.timers := rfl

@[simp] theorem copyPayload_timers (p : DelugeMsgPacket) :
    (copyPayload p s).timers = s.timers := rfl

@[simp] theorem markPacket_timers (now : UInt32) (p : DelugeMsgPacket) :
    (markPacket now p s).timers = s.timers := rfl

@[simp] theorem finishPage_timers (p : DelugeMsgPacket) :
    (finishPage p s).timers = s.timers := rfl

@[simp] theorem writePage_timers (pagenum : Nat) (data : List UInt8) :
    (writePage env pagenum data s).2.timers = s.timers := rfl

theorem heard_timers (p : DelugeMsgPacket) : (heard p s).timers = s.timers := by
  simp only [heard, touch_timers, noteVersion_timers]

theorem taken_timers (p : DelugeMsgPacket) : (taken env p s).timers = s.timers := by
  simp only [taken, markPacket_timers, copyPayload_timers, heard_timers]

theorem stored_timers (p : DelugeMsgPacket) : (stored env p s).timers = s.timers := by
  simp only [stored, finishPage_timers, writePage_timers, taken_timers]

theorem transition_timers (st : DelugeState) : (transition st s).timers.le s.timers := by
  simp only [Timers.le, Node.timers, transition_rxTimer, transition_summaryTimer,
    transition_profileTimer]
  refine ⟨?_, ?_, ?_⟩ <;> split <;> simp

theorem takeRx_timers : (takeRx s).timers.le s.timers :=
  ⟨fun h => absurd h Bool.false_ne_true, id, id⟩

theorem advertiseSummary_timers : (advertiseSummary s).timers.le s.timers := by
  unfold advertiseSummary
  split
  · exact ⟨id, fun h => (Bool.false_ne_true h).elim, id⟩
  · exact ⟨id, id, id⟩

theorem sendProfile_timers : (sendProfile s).timers = s.timers := by
  unfold sendProfile
  split <;> rfl

theorem sendPackets_timers (pagenum : Nat) (buf : Mem) :
    (sendPackets pagenum buf s).timers = s.timers := by
  unfold sendPackets
  exact foldl_frame Node.timers _ (fun s k => by split <;> rfl) _ s

theorem txCallback_timers : (txCallback env s).timers.le s.timers := by
  have hsend : (sendPage env s.currentTxPage.toNat s).timers = s.timers :=
    sendPackets_timers _ _ _
  unfold txCallback
  split
  · dsimp only
    split
    · exact Timers.le_of_eq hsend
    · exact (transition_timers _ _).trans (Timers.le_of_eq hsend)
  · exact Timers.le_refl _

theorem handleRequest_timers (m : DelugeMsgRequest) :
    (handleRequest env m s).timers.le s.timers := by
  unfold handleRequest
  split
  · exact Timers.le_refl _
  · dsimp only
    split
    · rw [armTx_timers]
      refine (transition_timers _ _).trans (Timers.le_of_eq ?_)
      simp only [queuePackets_timers, stampRequest_timers, touch_timers, scanPages_timers,
        noteVersion_timers]
    · refine Timers.le_of_eq ?_
      simp only [scanPages_timers, noteVersion_timers]

theorem resized_timers (m : DelugeMsgProfile) : (resized m s).timers = s.timers := rfl

theorem retabled_timers (m : DelugeMsgProfile) (block : Nat → Page) :
    (retabled env m block s).timers = s.timers := by
  simp only [retabled, initPages_eq, reversionPages_eq, newTable, resized, Node.timers]

theorem retabled_state (m : DelugeMsgProfile) (block : Nat → Page) :
    (retabled env m block s).delugeState = s.delugeState := by
  simp only [retabled, initPages_eq, reversionPages_eq, newTable, resized]

theorem nextPage_state {announce : Node → Node}
    (ha : ∀ t, (announce t).delugeState = t.delugeState) (p : DelugeMsgPacket) :
    (nextPage announce p s).delugeState = s.delugeState := by
  unfold nextPage
  split
  · exact ha _
  · split <;> rfl

theorem advertiseSummary_state : (advertiseSummary s).delugeState = s.delugeState := by
  unfold advertiseSummary
  split <;> rfl

theorem stored_state (p : DelugeMsgPacket) : (stored env p s).delugeState = s.delugeState := by
  simp only [stored, finishPage, writePage, taken, markPacket, copyPayload, heard, noteVersion,
    touch, effect, setPage]

theorem limitRequests_timers (lambda : Nat) :
    ((limitRequests lambda s).summaryTimer = true → s.summaryTimer = true) ∧
      ((limitRequests lambda s).profileTimer = true → s.profileTimer = true) := by
  unfold limitRequests
  dsimp only
  split
  · exact ((transition_timers _ _).2 : _)
  · exact ⟨id, id⟩

end

namespace Rx

/-- How `rx_timer` can be pending after an event. -/
inductive RxArmed (env : Env) (e : Event) (s : Node) : Prop
  /-- It was, and no page was completed. -/
  | kept : s.rxTimer = true →
      (∀ p, e.message = some (.packet p) → ¬ s.object.Completes p) → RxArmed env e s
  /-- A page was completed in another state than RX: the timer was pending, or the next page
      follows. -/
  | stored {p : DelugeMsgPacket} : e.message = some (.packet p) → s.object.Completes p →
      s.delugeState ≠ .rx → (s.rxTimer = true ∨ (¬ s.object.AtLast ∧
        (s.object.store env p).currentRxPage < s.pageCount)) → RxArmed env e s
  /-- A summary offered more pages. -/
  | offered {m : DelugeMsgSummary} : e.message = some (.summary m) →
      m.version = s.updateVersion → s.object.available < m.highestAvailable →
      m.highestAvailable ≤ s.pageCount → RxArmed env e s
  /-- A profile was accepted. -/
  | accepted {m : DelugeMsgProfile} {block : Nat → Page} : e.message = some (.profile m) →
      s.updateVersion < m.version → env.heap = some block → RxArmed env e s

/-- How `summary_timer` can be pending after an event. -/
inductive SummaryArmed (env : Env) (e : Event) (s : Node) : Prop
  /-- It was, and the event did not leave the maintenance state for a profile. -/
  | kept : s.summaryTimer = true → (∀ m, e.message = some (.profile m) →
      s.updateVersion < m.version → env.heap.isSome = true → s.delugeState ≠ .maintain) →
      SummaryArmed env e s
  /-- A summary told of a newer version. -/
  | asked {m : DelugeMsgSummary} : e.message = some (.summary m) → s.updateVersion = s.version →
      s.version < m.version → SummaryArmed env e s

/-- What a step does to the timers. -/
structure TimersStep (env : Env) (e : Event) (s s' : Node) : Prop where
  rx : s'.rxTimer = true → RxArmed env e s
  summary : s'.summaryTimer = true → SummaryArmed env e s
  profile : s'.profileTimer = true → s.profileTimer = true

variable {env : Env} {e : Event} {s s' : Node}

theorem TimersStep.of_cleared (h : TimersStep env e { s with effects := [] } s') :
    TimersStep env e s s' where
  rx := fun ht => match h.rx ht with
    | .kept h hp => .kept h hp
    | .stored hm hc hs h => .stored hm hc hs h
    | .offered hm hv ha hc => .offered hm hv ha hc
    | .accepted hm hv hh => .accepted hm hv hh
  summary := fun ht => match h.summary ht with
    | .kept h hm => .kept h hm
    | .asked hm hs hv => .asked hm hs hv
  profile := h.profile

/-- Events that start no timer. -/
theorem TimersStep.of_le (h : s'.timers.le s.timers)
    (hp : ∀ p, e.message = some (.packet p) → ¬ s.object.Completes p)
    (hm : ∀ m, e.message = some (.profile m) → s.updateVersion < m.version →
      env.heap.isSome = true → s.delugeState ≠ .maintain) : TimersStep env e s s' where
  rx := fun ht => .kept (h.1 ht) hp
  summary := fun ht => .kept (h.2.1 ht) hm
  profile := h.2.2

theorem handleSummary_timers {m : DelugeMsgSummary} {sender : RimeAddr}
    (hm : e.message = some (.summary m)) :
    TimersStep env e s (handleSummary env m sender s) := by
  have hobj : (askProfile m sender
      (noteSummary m (highestAvailablePage s) (scanPages s))).object = s.object := by
    rw [askProfile_object, noteSummary_object, scanPages_object]
  have htimers : (askProfile m sender
      (noteSummary m (highestAvailablePage s) (scanPages s))).timers =
        ⟨s.rxTimer, s.rxRunning, s.rxEvents,
          decide (s.updateVersion = s.version ∧ s.version < m.version) || s.summaryTimer,
          s.profileTimer⟩ := by
    simp only [askProfile, noteSummary, Node.timers, scanPages, touchBelow]
    rfl
  have hkept : s.rxTimer = true → RxArmed env e s := fun h =>
    .kept h fun p hp => by rw [hm] at hp; cases hp
  unfold handleSummary
  dsimp only
  generalize askProfile m sender (noteSummary m (highestAvailablePage s) (scanPages s)) = t
    at hobj htimers
  have hversion : t.updateVersion = s.updateVersion := congrArg Object.updateVersion hobj
  have hcount : t.pageCount = s.pageCount := congrArg Object.pageCount hobj
  have hrx : t.rxTimer = s.rxTimer := congrArg Timers.rx htimers
  have hsummary : t.summaryTimer = true → SummaryArmed env e s := by
    rw [show t.summaryTimer = _ from congrArg Timers.summary htimers]
    simp only [Bool.or_eq_true, decide_eq_true_eq]
    rintro (⟨hsame, hnew⟩ | h)
    · exact .asked hm hsame hnew
    · exact .kept h fun m' hm' => by rw [hm] at hm'; cases hm'
  have hprofile : t.profileTimer = s.profileTimer := congrArg Timers.profile htimers
  split
  · rename_i h
    unfold offerRequest
    split
    · exact ⟨hkept ∘ (hrx ▸ ·), hsummary, (hprofile ▸ ·)⟩
    · rename_i hc
      have hoffer : RxArmed env e s :=
        .offered hm (hversion ▸ h.1) h.2 (hcount ▸ Nat.le_of_not_lt hc)
      dsimp only
      split
      · exact ⟨fun _ => hoffer, hsummary, (hprofile ▸ ·)⟩
      · obtain ⟨_, h2, h3⟩ := transition_timers (copySender sender (t.touch t.currentRxPage)) .rx
        exact ⟨fun _ => hoffer, fun h => hsummary (h2 h), fun h => hprofile ▸ h3 h⟩
  · exact ⟨hkept ∘ (hrx ▸ ·), hsummary, (hprofile ▸ ·)⟩

theorem handlePacket_timers {p : DelugeMsgPacket} (hm : e.message = some (.packet p))
    (h : handlePacket env p s = some s') : TimersStep env e s s' := by
  have hprofile : ∀ m, e.message = some (.profile m) → s.updateVersion < m.version →
      env.heap.isSome = true → s.delugeState ≠ .maintain := by
    intro m hm'
    rw [hm] at hm'
    cases hm'
  have hsame : s'.timers = s.timers → ¬ s.object.Completes p → TimersStep env e s s' :=
    fun ht hc => .of_le (Timers.le_of_eq ht)
      (fun q hq => by rw [hm] at hq; cases hq; exact hc) hprofile
  cases handlePacketWith_outcome env s h with
  | otherPage hp => exact hsame rfl fun hc => hp hc.1.1
  | unwanted hp hw => exact hsame (heard_timers s p) fun hc => hw hc.1
  | corrupt hw hn hcrc =>
    refine hsame ?_ fun hc => hcrc hc.2.1
    rw [copyPayload_timers, heard_timers]
  | taken hw hn hcrc hset => exact hsame (taken_timers env s p) fun hc => hset hc.2.2
  | completes hc hn =>
    have hstored := stored_timers env s p
    have hobj := stored_object env s hc.1.1
    have hstate := (nextPage_state (stored env p s) advertiseSummary_state p).trans
      (stored_state env s p)
    -- the timers after the last page, or after an earlier one
    have hnext : ((nextPage advertiseSummary p (stored env p s)).rxTimer = true →
          s.rxTimer = true ∨ (¬ s.object.AtLast ∧
            (s.object.store env p).currentRxPage < s.pageCount)) ∧
        ((nextPage advertiseSummary p (stored env p s)).summaryTimer = true →
          s.summaryTimer = true) ∧
        ((nextPage advertiseSummary p (stored env p s)).profileTimer = true →
          s.profileTimer = true) := by
      rw [← show (stored env p s).rxTimer = s.rxTimer from congrArg Timers.rx hstored,
        ← show (stored env p s).summaryTimer = s.summaryTimer from
          congrArg Timers.summary hstored,
        ← show (stored env p s).profileTimer = s.profileTimer from
          congrArg Timers.profile hstored, ← hobj]
      have hcount : (stored env p s).pageCount = s.pageCount := congrArg Object.pageCount hobj
      rw [show s.object.AtLast ↔ p.pagenum = ((stored env p s).pageCount + 65535) % 65536 by
        rw [hcount, hc.1.1]; rfl, ← hcount]
      generalize stored env p s = t
      unfold nextPage
      split
      · obtain ⟨h1, h2, h3⟩ := advertiseSummary_timers { t with version := t.updateVersion }
        exact ⟨fun h => .inl (h1 h), h2, h3⟩
      · rename_i hlast
        split
        · exact ⟨fun _ => .inr ⟨hlast, ‹_›⟩, id, id⟩
        · exact ⟨.inl, id, id⟩
    obtain ⟨_, h2, h3⟩ := transition_timers (nextPage advertiseSummary p (stored env p s)) .maintain
    refine ⟨?_, fun ht => .kept (hnext.2.1 (h2 ht)) hprofile, fun ht => hnext.2.2 (h3 ht)⟩
    intro ht
    rw [transition_rxTimer, hstate] at ht
    split at ht
    · cases ht
    · rename_i hrx
      exact .stored hm hc (fun h => hrx ⟨h, by decide⟩) (hnext.1 ht)

theorem handleProfile_timers {m : DelugeMsgProfile} (hm : e.message = some (.profile m)) :
    TimersStep env e s (handleProfile env m s) := by
  have hpacket : ∀ p, e.message = some (.packet p) → ¬ s.object.Completes p := by
    intro p hp
    rw [hm] at hp
    cases hp
  have hout := handleProfile_outcome env s m
  generalize handleProfile env m s = t at hout
  cases hout with
  | old hv =>
    refine .of_le (Timers.le_refl _) hpacket ?_
    intro m' hm' hv'
    rw [hm] at hm'
    cases hm'
    exact absurd hv' (Nat.not_lt.mpr hv)
  | noMemory hv hheap =>
    refine .of_le (Timers.le_of_eq (resized_timers s m)) hpacket ?_
    intro m' _ _ hsome
    rw [hheap] at hsome
    cases hsome
  | accepted block hv hheap =>
    have ht : (beginUpdate m.version (scanPages (retabled env m block s))).timers = s.timers :=
      (scanPages_timers _).trans (retabled_timers env s m block)
    have hst : (beginUpdate m.version (scanPages (retabled env m block s))).delugeState =
        s.delugeState := retabled_state env s m block
    obtain ⟨_, h2, h3⟩ := (transition_timers
      (beginUpdate m.version (scanPages (retabled env m block s))) .rx).trans (Timers.le_of_eq ht)
    refine ⟨fun _ => .accepted hm hv hheap, ?_, h3⟩
    intro h
    refine .kept (h2 h) ?_
    intro _ _ _ _ hmaintain
    have h : (transition .rx (beginUpdate m.version
      (scanPages (retabled env m block s)))).summaryTimer = true := h
    rw [transition_summaryTimer, hst, if_pos ⟨hmaintain, by decide⟩] at h
    cases h

theorem timer_timers {t : Node} (ht : t.timers.le s.timers) (hnone : e.message = none) :
    TimersStep env e s t :=
  .of_le ht (fun p hp => by rw [hnone] at hp; cases hp) (fun m hm => by rw [hnone] at hm; cases hm)

/-- **The timers of the receiver.** -/
theorem step_timers (h : step env e s = some s') : TimersStep env e s s' := by
  cases e with
  | receive sender b =>
    change commandDispatcherWith handleSummary (handlePacketWith advertiseSummary) env sender b
      { s with effects := [] } = some s' at h
    rw [commandDispatcherWith_eq] at h
    have hmsg : (Event.receive sender b).message = b.message := rfl
    generalize b.message = msg at h hmsg
    cases msg with
    | none =>
      cases h
      exact timer_timers (Timers.le_refl _) hmsg
    | some m =>
      refine TimersStep.of_cleared ?_
      cases m with
      | summary m =>
        cases h
        exact handleSummary_timers hmsg
      | request m =>
        cases h
        exact .of_le (handleRequest_timers env _ m) (fun p hp => by rw [hmsg] at hp; cases hp)
          (fun m hm => by rw [hmsg] at hm; cases hm)
      | packet p => exact handlePacket_timers hmsg h
      | profile m =>
        cases h
        exact handleProfile_timers hmsg
  | rxExpires =>
    cases h
    exact timer_timers (Timers.le_refl _) rfl
  | rxTimer =>
    cases h
    dsimp only
    split
    · rename_i hset
      have hlimit := limitRequests_timers (stampRequest s.currentRxPage env.now
        (unicastRequest (takeRx { s with effects := [] }))) constLambda
      exact timer_timers ⟨fun _ => hset, hlimit.1, hlimit.2⟩ rfl
    · exact timer_timers (takeRx_timers { s with effects := [] }) rfl
  | txTimer =>
    cases h
    dsimp only
    split
    · exact timer_timers (txCallback_timers env _) rfl
    · exact timer_timers (Timers.le_refl _) rfl
  | summaryTimer =>
    cases h
    dsimp only
    split
    · rename_i hset
      obtain ⟨h1, h2, h3⟩ := advertiseSummary_timers { s with summaryTimer := false, effects := [] }
      exact timer_timers ⟨h1, fun _ => hset, h3⟩ rfl
    · exact timer_timers (Timers.le_refl _) rfl
  | profileTimer =>
    cases h
    dsimp only
    split
    · rename_i hset
      have ht := sendProfile_timers { s with profileTimer := false, effects := [] }
      obtain ⟨h1, h2, h3⟩ := Timers.le_of_eq ht
      exact timer_timers ⟨h1, h2, fun _ => hset⟩ rfl
    · exact timer_timers (Timers.le_refl _) rfl
  | round =>
    cases h
    exact timer_timers (Timers.le_refl _) rfl

end Rx

end Adler.Deluge
