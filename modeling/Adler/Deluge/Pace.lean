/-
  What paces the requests of a receiver: `r_interval`, the counter `nrequests` and the `last_request` of
  each page.

  * `Rx.Paced`: what one event does to them.
  * `Rx.step_paced`: there is no other way.
  * `Rx.summary_armed`: a summary starts `rx_timer` only when the current page was last asked for more
    than `r_interval` seconds ago.
-/
import Adler.Deluge.Timers

namespace Adler.Deluge

open Lib (Mem)
open Node

/-- `r_interval`, `nrequests` and the `last_request` of the pages. -/
structure Pace where
  rInterval : Nat
  nrequests : Nat
  lastRequest : Nat → UInt32

def Node.pace (s : Node) : Pace := ⟨s.rInterval, s.nrequests, fun i => (s.pages i).lastRequest⟩

/-- `last_request` of page `i` is set. -/
def Pace.stamp (i : Nat) (now : UInt32) (p : Pace) : Pace :=
  { p with lastRequest := Function.update p.lastRequest i now }

section

variable (env : Env) (s : Node)

@[simp] theorem touch_pace (i : Nat) : (s.touch i).pace = s.pace := rfl

@[simp] theorem scanPages_pace : (scanPages s).pace = s.pace := rfl

@[simp] theorem armRx_pace : s.armRx.pace = s.pace := rfl

@[simp] theorem armExpiredRx_pace : s.armExpiredRx.pace = s.pace := rfl

@[simp] theorem armTx_pace : s.armTx.pace = s.pace := rfl

@[simp] theorem copySender_pace (a : RimeAddr) : (s.copySender a).pace = s.pace := rfl

@[simp] theorem noteVersion_pace (v : Nat) : (s.noteVersion v).pace = s.pace := rfl

@[simp] theorem noteSummary_pace (m : DelugeMsgSummary) (h : Nat) :
    (noteSummary m h s).pace = s.pace := rfl

@[simp] theorem queuePackets_pace (m : DelugeMsgRequest) : (queuePackets m s).pace = s.pace := rfl

@[simp] theorem copyPayload_pace (p : DelugeMsgPacket) : (copyPayload p s).pace = s.pace := rfl

@[simp] theorem writePage_pace (pagenum : Nat) (data : List UInt8) :
    (writePage env pagenum data s).2.pace = s.pace := rfl

@[simp] theorem transition_pace (st : DelugeState) : (transition st s).pace = s.pace := by
  unfold transition
  split
  · rfl
  · split <;> rfl

/-- The `last_request` of the pages after one record has changed. -/
theorem lastRequest_update (pages : Nat → Page) (i : Nat) (p : Page) :
    (fun j => (Function.update pages i p j).lastRequest) =
      Function.update (fun j => (pages j).lastRequest) i p.lastRequest := by
  funext j
  by_cases h : j = i
  · subst h; simp
  · simp [h]

/-- A record that keeps its `last_request`. -/
theorem lastRequest_update_same (pages : Nat → Page) (i : Nat) (p : Page)
    (h : p.lastRequest = (pages i).lastRequest) :
    (fun j => (Function.update pages i p j).lastRequest) = fun j => (pages j).lastRequest := by
  rw [lastRequest_update, h, Function.update_eq_self_iff]

@[simp] theorem stampRequest_pace (i : Nat) (now : UInt32) :
    (stampRequest i now s).pace = s.pace.stamp i now := by
  simp only [Node.pace, stampRequest, Node.setPage, lastRequest_update]
  rfl

@[simp] theorem markPacket_pace (now : UInt32) (p : DelugeMsgPacket) :
    (markPacket now p s).pace = s.pace := by
  simp only [Node.pace, markPacket, Node.setPage, lastRequest_update_same]

@[simp] theorem finishPage_pace (p : DelugeMsgPacket) : (finishPage p s).pace = s.pace := by
  simp only [Node.pace, finishPage, lastRequest_update_same]

theorem advertiseSummary_pace : (advertiseSummary s).pace = s.pace := by
  unfold advertiseSummary
  split <;> rfl

theorem sendProfile_pace : (sendProfile s).pace = s.pace := by
  unfold sendProfile
  split <;> rfl

theorem txCallback_pace : (txCallback env s).pace = s.pace := by
  have hsend : (sendPage env s.currentTxPage.toNat s).pace = s.pace :=
    foldl_frame Node.pace _ (fun s k => by split <;> rfl) _ _
  unfold txCallback
  split
  · dsimp only
    split
    · exact hsend
    · exact (transition_pace _ _).trans hsend
  · rfl

theorem taken_pace (p : DelugeMsgPacket) : (taken env p s).pace = s.pace := by
  rw [taken, markPacket_pace, copyPayload_pace]
  rfl

theorem stored_pace (p : DelugeMsgPacket) : (stored env p s).pace = s.pace := by
  rw [stored, finishPage_pace, writePage_pace, taken_pace]

theorem nextPage_pace (p : DelugeMsgPacket) :
    (nextPage advertiseSummary p s).pace = s.pace := by
  unfold nextPage
  split
  · exact advertiseSummary_pace _
  · split <;> rfl

theorem PacketOutcome.pace {p : DelugeMsgPacket} {s s' : Node}
    (h : PacketOutcome advertiseSummary env p s s') : s'.pace = s.pace := by
  match h with
  | .otherPage _ => rfl
  | .unwanted _ _ => rfl
  | .corrupt _ _ _ => rfl
  | .taken _ _ _ _ => exact taken_pace env s p
  | .completes _ _ => rw [transition_pace, nextPage_pace, stored_pace]

/-- `handle_request` stamps the page it is asked for, or none. -/
theorem handleRequest_pace (m : DelugeMsgRequest) :
    (handleRequest env m s).pace = s.pace ∨
      (handleRequest env m s).pace = s.pace.stamp m.pagenum env.now := by
  unfold handleRequest
  split
  · exact .inl rfl
  · dsimp only
    split
    · right
      rw [armTx_pace, transition_pace, queuePackets_pace, stampRequest_pace, touch_pace,
        scanPages_pace, noteVersion_pace]
    · exact .inl rfl

end

namespace Rx

theorem offerRequest_pace (env : Env) (m : DelugeMsgSummary) (sender : RimeAddr) (s : Node) :
    (offerRequest env m sender s).pace = s.pace := by
  unfold offerRequest
  split
  · rfl
  · dsimp only
    split
    · rfl
    · simp

@[simp] theorem askProfile_pace (m : DelugeMsgSummary) (sender : RimeAddr) (s : Node) :
    (askProfile m sender s).pace = s.pace := rfl

@[simp] theorem askProfile_rxTimer (m : DelugeMsgSummary) (sender : RimeAddr) (s : Node) :
    (askProfile m sender s).rxTimer = s.rxTimer := rfl

theorem handleSummary_pace (env : Env) (m : DelugeMsgSummary) (sender : RimeAddr) (s : Node) :
    (handleSummary env m sender s).pace = s.pace := by
  unfold handleSummary
  dsimp only
  split
  · rw [offerRequest_pace, askProfile_pace, noteSummary_pace, scanPages_pace]
  · rw [askProfile_pace, noteSummary_pace, scanPages_pace]

/-- `send_request` stamps the current page; it counts to one and starts over. -/
theorem sendRequest_pace (env : Env) (s : Node) (hn : s.nrequests = 0) :
    (sendRequest env s).pace = s.pace.stamp s.currentRxPage env.now := by
  have hstamp := stampRequest_pace (unicastRequest s) s.currentRxPage env.now
  have hcount : (stampRequest s.currentRxPage env.now (unicastRequest s)).nrequests = 0 := hn
  unfold sendRequest limitRequests
  rw [hcount]
  dsimp only
  rw [if_pos rfl, transition_pace]
  refine Eq.trans ?_ hstamp
  simp only [Node.pace, hcount]

/-- What an event does to the pace. -/
inductive Paced (env : Env) (e : Event) (s s' : Node) : Prop
  | same : s'.pace = s.pace → Paced env e s s'
  /-- A request was answered. -/
  | answered (i : Nat) : s'.pace = s.pace.stamp i env.now → Paced env e s s'
  /-- A request was sent. -/
  | requested : e = .rxTimer → s.rxTimer = true →
      s'.pace = s.pace.stamp s.currentRxPage env.now → Paced env e s s'
  /-- A profile was accepted. -/
  | accepted {m : DelugeMsgProfile} : e.message = some (.profile m) → s.updateVersion < m.version →
      s'.updateVersion = m.version → s'.rInterval = s.rInterval → s'.nrequests = s.nrequests →
      Paced env e s s'
  /-- A round began. -/
  | round : e = .round → s' = round { s with effects := [] } → Paced env e s s'

variable {env : Env} {e : Event} {s s' : Node}

theorem message_paced {m : Message} (hm : e.message = some m) (hst : step env e s = some s') :
    Paced env e s s' := by
  match e with
  | .receive sender b =>
    have hb : b.message = some m := hm
    have hst : commandDispatcherWith handleSummary handlePacket env sender b
      { s with effects := [] } = some s' := hst
    rw [commandDispatcherWith_eq, hb] at hst
    match m with
    | .summary m =>
      refine .same ?_
      rw [← Option.some.inj hst]
      exact handleSummary_pace env m sender { s with effects := [] }
    | .request m =>
      have hpace := handleRequest_pace env { s with effects := [] } m
      rw [Option.some.inj hst] at hpace
      rcases hpace with h | h
      · exact .same h
      · exact .answered m.pagenum h
    | .packet p => exact .same (handlePacketWith_outcome env { s with effects := [] } hst).pace
    | .profile m =>
      have hout := handleProfile_outcome env { s with effects := [] } m
      rw [Option.some.inj hst] at hout
      match hout with
      | .old _ => exact .same rfl
      | .noMemory _ _ => exact .same rfl
      | .accepted block hv _ =>
        have hkept := transition_pace (beginUpdate m.version
          (scanPages (retabled env m block { s with effects := [] }))) .rx
        have hupdate := transition_object (beginUpdate m.version
          (scanPages (retabled env m block { s with effects := [] }))) .rx
        have htable : (retabled env m block { s with effects := [] }).rInterval = s.rInterval ∧
            (retabled env m block { s with effects := [] }).nrequests = s.nrequests := by
          simp only [retabled, initPages_eq, reversionPages_eq, newTable, resized, and_self]
        exact .accepted hm hv (congrArg Object.updateVersion hupdate)
          ((congrArg Pace.rInterval hkept).trans htable.1)
          ((congrArg Pace.nrequests hkept).trans htable.2)

/-- **The pace.** Every event does one of these to it. -/
theorem step_paced (hn : s.nrequests = 0) (hst : step env e s = some s') : Paced env e s s' := by
  match e with
  | .receive sender b =>
    match hb : b.message with
    | some m => exact message_paced hb hst
    | none =>
      have hst : commandDispatcherWith handleSummary handlePacket env sender b
        { s with effects := [] } = some s' := hst
      rw [commandDispatcherWith_eq, hb] at hst
      exact .same (Option.some.inj hst ▸ rfl)
  | .rxExpires =>
    cases hst
    exact .same rfl
  | .rxTimer =>
    cases hst
    by_cases htimer : s.rxTimer = true
    · refine .requested rfl htimer ?_
      rw [if_pos htimer]
      exact sendRequest_pace env (takeRx { s with effects := [] }) hn
    · refine .same ?_
      rw [if_neg htimer]
      rfl
  | .txTimer =>
    cases hst
    refine .same ?_
    dsimp only
    split
    · exact txCallback_pace env _
    · rfl
  | .summaryTimer =>
    cases hst
    refine .same ?_
    dsimp only
    split
    · exact advertiseSummary_pace _
    · rfl
  | .profileTimer =>
    cases hst
    refine .same ?_
    dsimp only
    split
    · exact sendProfile_pace _
    · rfl
  | .round =>
    cases hst
    exact .round rfl rfl

/-- `handle_summary` starts `rx_timer` only when the current page was last asked for long ago. -/
theorem offerRequest_armed {m : DelugeMsgSummary} {sender : RimeAddr}
    (h : (offerRequest env m sender s).rxTimer = true) :
    s.rxTimer = true ∨
      s.rInterval < secondsSince env.now (s.pages s.currentRxPage).lastRequest := by
  unfold offerRequest at h
  split at h
  · exact .inl h
  · dsimp only at h
    split at h
    · exact .inl h
    · rename_i hrate
      exact .inr (Nat.lt_of_not_le fun hle => hrate (.inl hle))

/-- A summary that starts `rx_timer` found the last request long ago. -/
theorem summary_armed {m : DelugeMsgSummary} (hm : e.message = some (.summary m))
    (hst : step env e s = some s') (htimer : s'.rxTimer = true) :
    s.rxTimer = true ∨
      s.rInterval < secondsSince env.now (s.pages s.currentRxPage).lastRequest := by
  match e with
  | .receive sender b =>
    have hb : b.message = some (.summary m) := hm
    have hst : commandDispatcherWith handleSummary handlePacket env sender b
      { s with effects := [] } = some s' := hst
    rw [commandDispatcherWith_eq, hb, Option.some.injEq] at hst
    rw [← hst] at htimer
    generalize hnode : { s with effects := [] } = s₁ at htimer
    have hpace : (askProfile m sender
        (noteSummary m (highestAvailablePage s₁) (scanPages s₁))).pace = s.pace := by
      rw [askProfile_pace, noteSummary_pace, scanPages_pace, ← hnode]
      rfl
    have hobj : (askProfile m sender
        (noteSummary m (highestAvailablePage s₁) (scanPages s₁))).object = s.object := by
      rw [askProfile_object, noteSummary_object, scanPages_object, ← hnode]
      rfl
    have hrx : (askProfile m sender
        (noteSummary m (highestAvailablePage s₁) (scanPages s₁))).rxTimer = s.rxTimer := by
      have htimers : (noteSummary m (highestAvailablePage s₁) (scanPages s₁)).timers = s.timers := by
        rw [noteSummary_timers, scanPages_timers, ← hnode]
        rfl
      rw [askProfile_rxTimer]
      exact congrArg Timers.rx htimers
    unfold handleSummary at htimer
    dsimp only at htimer
    generalize askProfile m sender (noteSummary m (highestAvailablePage s₁) (scanPages s₁)) = t
      at hpace hobj hrx htimer
    have hinterval : t.rInterval = s.rInterval := congrArg Pace.rInterval hpace
    have hcurrent : t.currentRxPage = s.currentRxPage := congrArg Object.currentRxPage hobj
    have hlast : (t.pages t.currentRxPage).lastRequest = (s.pages s.currentRxPage).lastRequest := by
      rw [hcurrent]
      exact congrFun (congrArg Pace.lastRequest hpace) s.currentRxPage
    rw [← hrx, ← hinterval, ← hlast]
    split at htimer
    · exact offerRequest_armed htimer
    · exact .inl htimer

end Rx

end Adler.Deluge
