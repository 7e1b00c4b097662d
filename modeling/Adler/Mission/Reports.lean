/-
  The reports a gateway mote sends to the UAV. `handle_summary` copies the sender of a matching
  summary to `summary_from` and posts a `deluge_event` with a pointer to it; the process reads it
  when it comes to handle the event.

  * `Mote`, `Mote.next`: the Deluge module of the gateway and its process.
  * `Ledger`: a ghost with the senders whose summaries caused the events, those of them still
    waiting, the sender of the latest summary copied, and for each handled event both.
  * `Tx.step_sender`: what an event does to `summary_from` and what it posts.
  * `reports_match`: no event is lost, and the reports name the senders that caused them exactly
    when every event was handled before another sender was copied.
-/
import Adler.Deluge.Boot
import Adler.Deluge.Effects
import Adler.Deluge.Frame
import Adler.Mission.Gateway

namespace Adler.Deluge

open Node

/-! ## `summary_from` -/

/-- The senders passed to `process_post`, in order. -/
def Node.posts (s : Node) : List RimeAddr :=
  s.effects.reverse.filterMap fun
    | .post sender => some sender
    | _ => none

theorem effect_posts (s : Node) (sender : RimeAddr) :
    (s.effect (.post sender)).posts = s.posts ++ [sender] := by
  simp [Node.posts, effect]

/-- Accesses to page records are no events. -/
theorem touchBelow_posts (s : Node) (n : Nat) : (s.touchBelow n).posts = s.posts := by
  simp only [Node.posts, touchBelow, List.reverse_append, List.reverse_reverse,
    List.filterMap_append, List.filterMap_map]
  simp

namespace Tx

/-- The summary says that its sender has the gateway's version and all its pages. -/
def Matches (m : DelugeMsgSummary) (s : Node) : Prop :=
  m.version = s.version ∧ m.highestAvailable = s.object.available

/-- The summary offers pages the gateway misses, and `handle_summary` means to ask for them. -/
def Offers (env : Env) (m : DelugeMsgSummary) (s : Node) : Prop :=
  (m.version = s.updateVersion ∧ s.object.available < m.highestAvailable) ∧
    m.highestAvailable ≤ s.pageCount ∧
    let oldest := oldestStamps s.pages env.now m.highestAvailable
    ¬ (Rx.secondsSince env.now oldest.1 ≤ 2 * s.rInterval ∨
      Rx.secondsSince env.now oldest.2 ≤ s.rInterval)

instance (m : DelugeMsgSummary) (s : Node) : Decidable (Matches m s) :=
  inferInstanceAs (Decidable (_ ∧ _))

instance (env : Env) (m : DelugeMsgSummary) (s : Node) : Decidable (Offers env m s) :=
  inferInstanceAs (Decidable (_ ∧ _ ∧ ¬ _))

/-- The senders of the summaries that make `handle_summary` post an event. -/
def causes (e : Event) (s : Node) : List RimeAddr :=
  match e with
  | .receive sender b => match b.message with
    | some (.summary m) => if Matches m s then [sender] else []
    | _ => []
  | _ => []

/-- The sender of the latest summary `handle_summary` copied, `last` being that one so far. -/
def lastCopied (env : Env) (e : Event) (s : Node) (last : RimeAddr) : RimeAddr :=
  match e with
  | .receive sender b => match b.message with
    | some (.summary m) => if Matches m s ∨ Offers env m s then sender else last
    | _ => last
  | _ => last

variable {env : Env} {e : Event} {s s' : Node}

theorem offerRequest_summaryFrom (m : DelugeMsgSummary) (sender : RimeAddr)
    (hm : m.version = s.updateVersion ∧ s.object.available < m.highestAvailable) :
    (offerRequest env m sender s).summaryFrom =
      if Offers env m s then sender else s.summaryFrom := by
  unfold offerRequest
  by_cases hc : s.pageCount < m.highestAvailable
  · have hno : ¬ Offers env m s := fun h => absurd h.2.1 (Nat.not_le.mpr hc)
    rw [if_pos hc, if_neg hno]
  · rw [if_neg hc]
    dsimp only
    split
    · rename_i hrate
      have hno : ¬ Offers env m s := fun h => h.2.2 hrate
      rw [if_neg hno]
      rfl
    · rename_i hrate
      have hyes : Offers env m s := ⟨hm, Nat.le_of_not_lt hc, hrate⟩
      rw [if_pos hyes]
      have hkept := transition_kept (copySender sender (s.touchBelow m.highestAvailable)) .rx
      exact congrArg Prod.fst hkept

theorem offers_congr (env : Env) (m : DelugeMsgSummary) {t : Node} (hobj : t.object = s.object)
    (hpages : t.pages = s.pages) (hinterval : t.rInterval = s.rInterval) :
    Offers env m t ↔ Offers env m s := by
  have hversion : t.updateVersion = s.updateVersion := congrArg Object.updateVersion hobj
  have hcount : t.pageCount = s.pageCount := congrArg Object.pageCount hobj
  unfold Offers
  rw [hobj, hversion, hcount, hpages, hinterval]

theorem offerRequest_posts (m : DelugeMsgSummary) (sender : RimeAddr) :
    (offerRequest env m sender s).posts = s.posts := by
  have htouch := touchBelow_posts s m.highestAvailable
  unfold offerRequest
  split
  · rfl
  · dsimp only
    split
    · exact htouch
    · rw [← htouch]
      simp only [Node.posts, armExpiredRx, transition_effects, copySender]

theorem postReport_frame (m : DelugeMsgSummary) (sender : RimeAddr) (h : Nat) (s : Node) :
    (postReport m sender h s).pages = s.pages ∧ (postReport m sender h s).rInterval = s.rInterval := by
  unfold postReport
  split <;> exact ⟨rfl, rfl⟩

/-- `handle_summary` copies the sender of a summary that matches or offers, and posts an event for
    one that matches. -/
theorem handleSummary_sender (m : DelugeMsgSummary) (sender : RimeAddr) :
    (handleSummary env m sender s).summaryFrom =
        (if Matches m s ∨ Offers env m s then sender else s.summaryFrom) ∧
      (handleSummary env m sender s).posts =
        s.posts ++ if Matches m s then [sender] else [] := by
  have hobj : (postReport m sender (highestAvailablePage s)
      (noteSummary m (highestAvailablePage s) (scanPages s))).object = s.object := by
    rw [postReport_object, noteSummary_object, scanPages_object]
  have hfrom : (postReport m sender (highestAvailablePage s)
      (noteSummary m (highestAvailablePage s) (scanPages s))).summaryFrom =
        if Matches m s then sender else s.summaryFrom := by
    unfold postReport
    split
    · rename_i h
      have hm : Matches m s := h
      rw [if_pos hm]
      rfl
    · rename_i h
      have hm : ¬ Matches m s := h
      rw [if_neg hm]
      rfl
  have hposts : (postReport m sender (highestAvailablePage s)
      (noteSummary m (highestAvailablePage s) (scanPages s))).posts =
        s.posts ++ if Matches m s then [sender] else [] := by
    have hscan : (noteSummary m (highestAvailablePage s) (scanPages s)).posts = s.posts :=
      touchBelow_posts s _
    unfold postReport
    split
    · rename_i h
      have hm : Matches m s := h
      rw [if_pos hm, ← hscan, ← effect_posts]
      rfl
    · rename_i h
      have hm : ¬ Matches m s := h
      rw [if_neg hm, hscan, List.append_nil]
  obtain ⟨hpages, hinterval⟩ := postReport_frame m sender (highestAvailablePage s)
    (noteSummary m (highestAvailablePage s) (scanPages s))
  unfold handleSummary
  dsimp only
  generalize postReport m sender (highestAvailablePage s)
    (noteSummary m (highestAvailablePage s) (scanPages s)) = t
    at hobj hfrom hposts hpages hinterval
  have hversion : t.updateVersion = s.updateVersion := congrArg Object.updateVersion hobj
  have hoffers := offers_congr env m hobj hpages hinterval
  by_cases hmore : m.version = t.updateVersion ∧ highestAvailablePage s < m.highestAvailable
  · have hlt : s.object.available < m.highestAvailable := hmore.2
    have hno : ¬ Matches m s := fun h => Nat.ne_of_gt hlt h.2
    rw [if_pos hmore, offerRequest_posts, offerRequest_summaryFrom m sender
      ⟨hmore.1, hobj ▸ hlt⟩, hposts, hfrom, if_neg hno]
    simp only [hoffers, hno, false_or, and_self]
  · have hno : ¬ Offers env m s := fun h => hmore ⟨hversion ▸ h.1.1, h.1.2⟩
    rw [if_neg hmore, hposts, hfrom]
    simp only [hno, or_false, and_self]

/-- A step posts only for a summary. -/
theorem posts_eq_nil (h : step env e s = some s') (hs : ∀ m, e.message ≠ some (.summary m)) :
    s'.posts = [] := by
  rw [Node.posts, List.filterMap_eq_nil_iff]
  intro x hx
  have hemits := step_emits h (List.mem_reverse.mp hx)
  cases x with
  | post sender =>
    cases hemits with
    | shared hx =>
      cases hx with
      | scan hx =>
        obtain ⟨i, _, hx⟩ := hx
        cases hx
      | profile _ _ _ hx =>
        obtain ⟨i, _, hx⟩ := hx
        cases hx
    | post he hm _ _ =>
      subst he
      exact absurd hm (hs _)
  | _ => rfl

/-- An event copies the sender of a summary that matches or offers, and posts an event for one
    that matches. -/
theorem step_sender (h : step env e s = some s') :
    s'.summaryFrom = lastCopied env e s s.summaryFrom ∧ s'.posts = causes e s := by
  have hother (hs : ∀ m, e.message ≠ some (.summary m)) :
      s'.summaryFrom = s.summaryFrom ∧ s'.posts = [] :=
    ⟨congrArg Prod.fst (step_kept h hs), posts_eq_nil h hs⟩
  match e with
  | .receive sender b =>
    dsimp only [lastCopied, causes]
    match hm : b.message with
    | some (.summary m) =>
      have h : commandDispatcherWith handleSummary handlePacket env sender b
        { s with effects := [] } = some s' := h
      simp only [commandDispatcherWith_eq, hm, Option.some.injEq] at h
      rw [← h]
      exact handleSummary_sender (s := { s with effects := [] }) m sender
    | none | some (.request _) | some (.packet _) | some (.profile _) =>
      exact hother fun m hs => by cases hm.symm.trans hs
  | .rxExpires | .rxTimer | .txTimer | .summaryTimer | .profileTimer | .round =>
    exact hother fun m hs => by cases hs

end Tx

end Adler.Deluge

namespace Adler.Mission

open Deluge
open Lib (Reach observed Havoc)

/-! ## The mote -/

/-- The gateway mote: its Deluge module, its process, and the frames written to the serial line. -/
structure Mote where
  node : Node
  gateway : Gateway
  sent : List Frame

/-- What can happen on the mote. -/
inductive MoteEvent where
  /-- An event of the Deluge module. -/
  | deluge (env : Env) (e : Event)
  /-- A frame arrives on the serial line. -/
  | frame (f : Frame)
  /-- `mission_et` runs down. -/
  | expire
  /-- The process is given the next event of its queue. -/
  | handle

namespace Mote

/-- The addresses passed to `sent_report`. -/
def reports (x : Mote) : List RimeAddr := x.sent.filterMap Frame.nodeAddr?

/-- An event of the Deluge module has led to the node `s`. -/
def afterDeluge (s : Node) (x : Mote) : Mote :=
  { x with
    node := s
    gateway := { x.gateway with
      queue := x.gateway.queue ++ List.replicate s.posts.length .deluge } }

def afterHandle (x : Mote) : Mote :=
  let r := x.gateway.handle x.node.summaryFrom
  { x with gateway := r.1, sent := x.sent ++ r.2 }

/-- A step, undefined where that of the Deluge module is. -/
def next (a : MoteEvent) (x : Mote) : Option Mote :=
  match a with
  | .deluge env e => (Tx.step env e x.node).map x.afterDeluge
  | .frame f => some { x with gateway := x.gateway.receive f }
  | .expire => some { x with gateway := x.gateway.expire }
  | .handle => some x.afterHandle

def Step (a : MoteEvent) (x x' : Mote) : Prop := Havoc (next a x) x'

/-- The mote when `deluge_disseminate(file, version)` has returned 0 and the process waits. -/
def Booted (f : File) (version : Nat) (x : Mote) : Prop :=
  Tx.Booted f version x.node ∧ x.gateway = .start ∧ x.sent = []

/-- No payload leaves `current_page`. -/
def InBuffer (a : MoteEvent) (x : Mote) : Prop :=
  match a with
  | .deluge _ e => x.node.object.InBuffer e
  | _ => True

instance : ∀ a x, Decidable (InBuffer a x)
  | .deluge _ e, x => inferInstanceAs (Decidable (x.node.object.InBuffer e))
  | .frame _, _ | .expire, _ | .handle, _ => .isTrue trivial

end Mote

/-- The history of the mote's reports. -/
structure Ledger where
  /-- The senders of the summaries that caused an event, in order. -/
  posted : List RimeAddr
  /-- Those whose event is still in the queue. -/
  waiting : List RimeAddr
  /-- The sender of the latest summary copied to `summary_from`. -/
  last : RimeAddr
  /-- Of each event handled: the sender that caused it, and the latest one copied by then. -/
  log : List (RimeAddr × RimeAddr)

namespace Ledger

/-- Nothing posted, `summary_from` as in the static initialisation. -/
def empty : Ledger := ⟨[], [], 0, []⟩

/-- The process handles the oldest event. -/
def handled (queue : List GatewayEvent) (g : Ledger) : Ledger :=
  match queue, g.waiting with
  | .deluge :: _, cause :: rest => { g with waiting := rest, log := g.log ++ [(cause, g.last)] }
  | _, _ => g

def observe (a : MoteEvent) (x _x' : Mote) (g : Ledger) : Ledger :=
  match a with
  | .deluge env e => { g with
      posted := g.posted ++ Tx.causes e x.node
      waiting := g.waiting ++ Tx.causes e x.node
      last := Tx.lastCopied env e x.node g.last }
  | .handle => g.handled x.gateway.queue
  | .frame _ | .expire => g

/-- What the ledger says of the mote. -/
structure Inv (x : Mote) (g : Ledger) : Prop where
  last : x.node.summaryFrom = g.last
  pending : x.gateway.queue.count .deluge = g.waiting.length
  posted : g.posted = g.log.map Prod.fst ++ g.waiting
  reports : x.reports = g.log.map Prod.snd

variable {x x' : Mote} {g : Ledger}

theorem Inv.deluge (h : Inv x g) {env : Env} {e : Event} {s : Node}
    (hs : Tx.step env e x.node = some s) :
    Inv (x.afterDeluge s) (observe (.deluge env e) x (x.afterDeluge s) g) := by
  obtain ⟨hfrom, hposts⟩ := Tx.step_sender hs
  refine ⟨?_, ?_, ?_, h.reports⟩
  · rw [h.last] at hfrom
    exact hfrom
  · simp only [Mote.afterDeluge, observe, List.count_append, List.count_replicate_self,
      List.length_append, h.pending, hposts]
  · simp only [observe, h.posted, List.append_assoc]

/-- An event other than a `deluge_event` leaves the reports and the ledger alone. -/
theorem Inv.handle_other (h : Inv x g) {ev : GatewayEvent} {rest : List GatewayEvent}
    (hq : x.gateway.queue = ev :: rest) (hev : ev ≠ .deluge) :
    Inv x.afterHandle (g.handled x.gateway.queue) := by
  have hsame : g.handled x.gateway.queue = g := by
    rw [hq]
    cases ev with
    | deluge => exact absurd rfl hev
    | _ => rfl
  have hcount : rest.count .deluge = x.gateway.queue.count .deluge := by
    rw [hq, List.count_cons_of_ne hev]
  have hreports : (Gateway.process x.node.summaryFrom ev
      { x.gateway with queue := rest }).2.filterMap Frame.nodeAddr? = [] := by
    cases ev with
    | serial =>
      simp only [Gateway.process]
      split
      · split <;> rfl
      · rfl
    | deluge => exact absurd rfl hev
    | timer => rfl
  rw [hsame]
  refine ⟨h.last, ?_, h.posted, ?_⟩
  · simp only [Mote.afterHandle, Gateway.handle, hq, Gateway.process_queue]
    rw [hcount, h.pending]
  · simp only [Mote.reports, Mote.afterHandle, Gateway.handle, hq, List.filterMap_append, hreports,
      List.append_nil]
    exact h.reports

theorem Inv.handle (h : Inv x g) : Inv x.afterHandle (g.handled x.gateway.queue) := by
  cases hq : x.gateway.queue with
  | nil =>
    have hsame : x.afterHandle = x := by
      simp only [Mote.afterHandle, Gateway.handle, hq, List.append_nil]
    rw [hsame]
    exact h
  | cons ev rest =>
    by_cases hev : ev = .deluge
    · subst hev
      -- the event's cause is the oldest that waits
      have hpending := h.pending
      rw [hq, List.count_cons_self] at hpending
      cases hw : g.waiting with
      | nil => simp [hw] at hpending
      | cons cause waiting =>
        rw [hw, List.length_cons] at hpending
        have hrest : rest.count .deluge = waiting.length := by omega
        refine ⟨?_, ?_, ?_, ?_⟩
        · simpa only [Mote.afterHandle, handled, hw] using h.last
        · simpa only [Mote.afterHandle, Gateway.handle, hq, Gateway.process, handled, hw] using hrest
        · simp only [handled, hw, h.posted, List.map_append, List.map_cons, List.map_nil,
            List.append_assoc, List.cons_append, List.nil_append]
        · have hreports := h.reports
          simp only [Mote.reports] at hreports
          simp only [Mote.reports, Mote.afterHandle, Gateway.handle, hq, Gateway.process, handled, hw,
            List.filterMap_append, hreports, List.map_append, List.map_cons, List.map_nil, h.last]
          rfl
    · rw [← hq]
      exact h.handle_other hq hev

theorem Inv.step (h : Inv x g) {a : MoteEvent} (hok : Mote.InBuffer a x)
    (hst : Mote.Step a x x') : Inv x' (observe a x x' g) := by
  cases a with
  | deluge env e =>
    obtain ⟨s, hs⟩ : ∃ s, Tx.step env e x.node = some s := Tx.step_isSome hok
    have hx : x' = x.afterDeluge s := hst _ (by simp only [Mote.next, hs, Option.map_some])
    rw [hx]
    exact h.deluge hs
  | frame f =>
    have hx : x' = { x with gateway := x.gateway.receive f } := hst _ rfl
    have hcount : (x.gateway.receive f).queue.count .deluge = x.gateway.queue.count .deluge := by
      unfold Gateway.receive Gateway.dataDecode
      split <;> simp [Gateway.post]
    rw [hx]
    exact ⟨h.last, hcount.trans h.pending, h.posted, h.reports⟩
  | expire =>
    have hx : x' = { x with gateway := x.gateway.expire } := hst _ rfl
    have hcount : x.gateway.expire.queue.count .deluge = x.gateway.queue.count .deluge := by
      unfold Gateway.expire
      split <;> simp [Gateway.post]
    rw [hx]
    exact ⟨h.last, hcount.trans h.pending, h.posted, h.reports⟩
  | handle =>
    have hx : x' = x.afterHandle := hst _ rfl
    rw [hx]
    exact h.handle

end Ledger

variable {f : File} {v : Nat} {x : Mote × Ledger}

theorem ledger_inv (h : Reach (fun x => Mote.Booted f v x.1 ∧ x.2 = .empty)
    (observed Mote.Step Ledger.observe) (fun a x => Mote.InBuffer a x.1) x) :
    Ledger.Inv x.1 x.2 := by
  refine h.invariant (I := fun x => Ledger.Inv x.1 x.2) ?_ ?_
  · intro x h0
    obtain ⟨⟨hboot, hgateway, hsent⟩, hledger⟩ := h0
    have hfrom := hboot.fresh.summaryFrom
    rw [hledger]
    refine ⟨hfrom, ?_, rfl, ?_⟩
    · rw [hgateway]
      rfl
    · rw [Mote.reports, hsent]
      rfl
  · intro a x y hinv hok hst
    rw [hst.2]
    exact hinv.step hok hst.1

/-- **The reports of a gateway**, in every run in which no payload leaves `current_page`: every
    posted event is reported or still in the queue, and the addresses reported are, in order, the
    senders that caused the events exactly when each event was handled while its sender was
    still the latest one copied. -/
theorem reports_match (h : Reach (fun x => Mote.Booted f v x.1 ∧ x.2 = .empty)
    (observed Mote.Step Ledger.observe) (fun a x => Mote.InBuffer a x.1) x) :
    x.1.reports.length + x.1.gateway.queue.count .deluge = x.2.posted.length ∧
      (x.1.reports ++ x.2.waiting = x.2.posted ↔ ∀ c ∈ x.2.log, c.2 = c.1) := by
  obtain ⟨hlast, hpending, hposted, hreports⟩ := ledger_inv h
  constructor
  · rw [hreports, hposted, hpending, List.length_append, List.length_map, List.length_map]
  · rw [hreports, hposted, List.append_cancel_right_eq, List.map_inj_left]

/-- A gateway with a one-page image of version 1. -/
def oneGateway : Mote := ⟨Tx.boot 256 1, .start, []⟩

/-- A summary of a node that has that image. -/
def updatedSummary (sender : RimeAddr) : MoteEvent :=
  .deluge quietEnv (.receive sender (.ofBytes (DelugeMsgSummary.bytes ⟨1, 1, 0⟩) fun _ => 0))

theorem exists_of_mote_run (as : List MoteEvent) (p : Mote × Ledger → Bool)
    (hp : (Lib.runList (Lib.guarded (fun a (x : Mote × Ledger) => Mote.InBuffer a x.1)
      (Lib.observedNext Mote.next Ledger.observe)) as (oneGateway, .empty)).map p = some true) :
    ∃ x, Reach (fun x => Mote.Booted (zeroFile 256) 1 x.1 ∧ x.2 = .empty)
      (observed Mote.Step Ledger.observe) (fun a x => Mote.InBuffer a x.1) x ∧ p x = true :=
  Reach.exists_of_run _ (Lib.observedNext_step fun _ _ _ h => .of_eq h) as p
    ⟨⟨Tx.booted_boot 256 1, rfl, rfl⟩, rfl⟩ hp

/-- Two reports, the first handled before the second summary arrives. -/
theorem reports_match_in_turn :
    ∃ x : Mote × Ledger, x.1.reports ++ x.2.waiting = x.2.posted ∧ x.2.posted = [5, 6] := by
  obtain ⟨x, hx, hp⟩ := exists_of_mote_run
    [updatedSummary 5, .handle, updatedSummary 6, .handle]
    (fun x => decide (x.2.log = [(5, 5), (6, 6)] ∧ x.2.posted = [5, 6])) (by decide +kernel)
  obtain ⟨hlog, hposted⟩ := of_decide_eq_true hp
  refine ⟨x, (reports_match hx).2.mpr ?_, hposted⟩
  intro c hc
  rw [hlog] at hc
  rcases List.mem_pair.mp hc with rfl | rfl <;> rfl

/-- Summaries of nodes 5 and 6 arrive before the process runs: node 6 is reported twice, node 5
    never. -/
theorem reports_mismatch :
    ∃ x : Mote × Ledger, Reach (fun x => Mote.Booted (zeroFile 256) 1 x.1 ∧ x.2 = .empty)
        (observed Mote.Step Ledger.observe) (fun a x => Mote.InBuffer a x.1) x ∧
      x.1.gateway.queue = [] ∧ x.2.posted = [5, 6] ∧ x.1.reports = [6, 6] := by
  obtain ⟨x, hx, hp⟩ := exists_of_mote_run
    [updatedSummary 5, updatedSummary 6, .handle, .handle]
    (fun x => decide (x.1.gateway.queue = [] ∧ x.2.posted = [5, 6] ∧ x.1.reports = [6, 6]))
    (by decide +kernel)
  exact ⟨x, hx, of_decide_eq_true hp⟩

end Adler.Mission
