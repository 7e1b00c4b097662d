/-
  How often a receiver asks for a page. The check of `last_request` is made when `handle_summary` starts
  `rx_timer`; `send_request`, `handle_profile` and the completion of a page check nothing.

  * `Clock`: the time in ticks without the wrap of `clock_time`, and the requests sent.
  * `RateInv`: what links a pending `rx_timer` and the current page to the requests sent before.
  * `requests_spaced`: in runs in which `current_rx_page` does not wrap, two requests for one page in one
    update are `T_LOW` seconds apart.
-/
import Adler.Deluge.Announce
import Adler.Deluge.Pace
import Adler.Deluge.Requests

namespace Adler.Deluge

open Lib (Mem Reach)
open Node

/-- The page a request on the air asks for. -/
def Effect.requested : Effect → Option Nat
  | .unicast _ bytes => some (bytes.getD 2 0).toNat
  | _ => none

namespace Rx

/-- A request: when it was sent, for which page and in the update to which version. -/
structure Sent where
  time : Nat
  page : Nat
  update : Nat
deriving DecidableEq

/-- The time of the last event, and the requests sent so far, latest first. -/
structure Clock where
  time : Nat
  sent : List Sent
deriving DecidableEq

/-- The clock after an event at that time has left the node in the state `s`. -/
def Clock.after (time : Nat) (s : Node) (c : Clock) : Clock :=
  ⟨time, (s.effects.filterMap Effect.requested).map (fun i => ⟨time, i, s.updateVersion⟩) ++ c.sent⟩

/-- The event as it happens at that time: `clock_time` counts ticks in 32 bits. -/
def atTime (time : Nat) (a : Env × Event) : Env × Event := ({ a.1 with now := .ofNat time }, a.2)

/-- The events of the node, each at a time that is not before that of the last one. -/
def TimedStep (a : Nat × Env × Event) (x y : Node × Clock) : Prop :=
  x.2.time ≤ a.1 ∧ Step (atTime a.1 a.2) x.1 y.1 ∧ y.2 = x.2.after a.1 y.1

/-- The node has just booted, at any time, and no request was sent. -/
def TimedBoot (f : File) (v : Nat) (x : Node × Clock) : Prop := Booted f v x.1 ∧ x.2.sent = []

/-- The steps in which no payload leaves `current_page` and `current_rx_page` does not wrap: no packet
    completes "page" 255, which no page table has. -/
structure RateOk (a : Nat × Env × Event) (x : Node × Clock) : Prop where
  inBuffer : x.1.object.InBuffer a.2.2
  noWrap : a.2.2.OnPacket fun p => x.1.object.Completes p → x.1.currentRxPage ≠ 255

instance (a : Nat × Env × Event) (x : Node × Clock) : Decidable (RateOk a x) :=
  decidable_of_iff (x.1.object.InBuffer a.2.2 ∧ a.2.2.OnPacket fun p =>
      x.1.object.Completes p → x.1.currentRxPage ≠ 255)
    ⟨fun h => ⟨h.1, h.2⟩, fun h => ⟨h.1, h.2⟩⟩

/-- Requests for one page in one update, the later one first, are `T_LOW` seconds apart. -/
def Spaced (sent : List Sent) : Prop :=
  sent.Pairwise fun q p => q.page = p.page → q.update = p.update →
    p.time + tLow * clockSecond ≤ q.time

/-- The request was for the page that is the current one, in the update that is the current one. -/
def Sent.Current (q : Sent) (s : Node) : Prop := q.update = s.updateVersion ∧ q.page = s.currentRxPage

structure RateInv (x : Node × Clock) : Prop where
  low : tLow ≤ x.1.rInterval
  high : x.1.rInterval ≤ tHigh
  nrequests : x.1.nrequests = 0
  byte : x.1.currentRxPage < 256
  past : ∀ q ∈ x.2.sent, q.time ≤ x.2.time
  update : ∀ q ∈ x.2.sent, q.update ≤ x.1.updateVersion
  page : ∀ q ∈ x.2.sent, q.update = x.1.updateVersion → q.page ≤ x.1.currentRxPage
  /-- `last_request` of the current page is not before a request for it. -/
  stamped : ∀ q ∈ x.2.sent, q.Current x.1 → ∃ t, q.time ≤ t ∧ t ≤ x.2.time ∧
    (x.1.pages x.1.currentRxPage).lastRequest = .ofNat t
  /-- `rx_timer` is not pending too early. -/
  armed : x.1.rxTimer = true → ∀ q ∈ x.2.sent, q.Current x.1 →
    q.time + tLow * clockSecond ≤ x.2.time
  spaced : Spaced x.2.sent

variable {f : File} {v : Nat} {env : Env} {e : Event} {s s' : Node} {x y : Node × Clock}
  {a : Nat × Env × Event}

/-! ## One event -/

/-- What an event does to the update and the current page. -/
inductive Moves (s s' : Node) : Prop
  | stays : s'.updateVersion = s.updateVersion → s'.currentRxPage = s.currentRxPage → Moves s s'
  | advances : s'.updateVersion = s.updateVersion → s'.currentRxPage = s.currentRxPage + 1 → Moves s s'
  | restarts : s.updateVersion < s'.updateVersion → Moves s s'

/-- The current page only counts up within an update. -/
theorem step_moves (hbyte : s.currentRxPage < 256)
    (hwrap : e.OnPacket fun p => s.object.Completes p → s.currentRxPage ≠ 255)
    (hst : step env e s = some s') : Moves s s' ∧ s'.currentRxPage < 256 := by
  have hobj : s'.updateVersion = s'.object.updateVersion ∧ s'.currentRxPage = s'.object.currentRxPage :=
    ⟨rfl, rfl⟩
  have hchange := step_change hst
  generalize s'.object = o at hobj hchange
  obtain ⟨hupdate, hcur⟩ := hobj
  have hnext : ∀ p, e.message = some (.packet p) → s.object.Completes p →
      s'.currentRxPage = (s.currentRxPage + 1) % 256 →
      s'.currentRxPage = s.currentRxPage + 1 ∧ s'.currentRxPage < 256 := by
    intro p hm hc hmod
    have hne := hwrap p hm hc
    omega
  cases hchange with
  | store hm hc _ =>
    obtain ⟨hnext, hlt⟩ := hnext _ hm hc hcur
    exact ⟨.advances hupdate hnext, hlt⟩
  | commit hm hc _ =>
    obtain ⟨hnext, hlt⟩ := hnext _ hm hc hcur
    exact ⟨.advances hupdate hnext, hlt⟩
  | announce hm hv _ => exact ⟨.restarts (hupdate ▸ hv), hcur ▸ Nat.mod_lt _ (by decide)⟩
  | _ => exact ⟨.stays hupdate hcur, hcur ▸ hbyte⟩

/-- `rx_timer` runs down. -/
def Fires (e : Event) (s : Node) : Prop := e = .rxTimer ∧ s.rxTimer = true

/-- `send_request` runs on what `ctimer_process` leaves. -/
theorem fired (htimer : s.rxTimer = true) (hst : step env .rxTimer s = some s') :
    s' = sendRequest env (takeRx { s with effects := [] }) := by
  have hst : (if s.rxTimer then sendRequest env (takeRx { s with effects := [] })
    else takeRx { s with effects := [] }) = s' := Option.some.inj hst
  rw [← hst, if_pos htimer]

/-- `send_request` puts one request on the air, for the current page. -/
theorem requested_fire (hbyte : s.currentRxPage < 256) (htimer : s.rxTimer = true)
    (hst : step env .rxTimer s = some s') :
    s'.effects.filterMap Effect.requested = [s.currentRxPage] := by
  have hpage : (UInt8.ofNat s.currentRxPage).toNat = s.currentRxPage := by
    rw [UInt8.toNat_ofNat']
    exact Nat.mod_eq_of_lt hbyte
  rw [fired htimer hst, sendRequest, limitRequests_effects]
  show List.filterMap Effect.requested [.unicast s.summaryFrom (List.take _ (DelugeMsgRequest.bytes
    ⟨_, s.currentRxPage, _, _⟩)), _] = _
  simp [Effect.requested, DelugeMsgRequest.bytes, hpage]

/-- Nothing else does. -/
theorem requested_quiet (hst : step env e s = some s') (hquiet : ¬ Fires e s) :
    s'.effects.filterMap Effect.requested = [] := by
  rw [List.filterMap_eq_nil_iff]
  intro x hx
  cases x with
  | unicast dst bytes =>
    obtain ⟨-, -, he, htimer⟩ := unicast_eq (a := (env, e)) hst hx
    exact absurd ⟨he, htimer⟩ hquiet
  | _ => rfl

theorem Paced.interval (h : Paced env e s s') (hlow : tLow ≤ s.rInterval) (hhigh : s.rInterval ≤ tHigh) :
    tLow ≤ s'.rInterval ∧ s'.rInterval ≤ tHigh := by
  have hsame : s'.rInterval = s.rInterval → tLow ≤ s'.rInterval ∧ s'.rInterval ≤ tHigh := by
    intro heq
    rw [heq]
    exact ⟨hlow, hhigh⟩
  cases h with
  | same h => exact hsame (congrArg Pace.rInterval h)
  | answered i h => exact hsame (congrArg Pace.rInterval h)
  | requested _ _ h => exact hsame (congrArg Pace.rInterval h)
  | accepted _ _ _ h _ => exact hsame h
  | round _ h =>
    subst h
    simp only [Rx.round, tLow, tHigh] at hlow hhigh ⊢
    split
    · omega
    · split <;> omega

theorem Paced.nrequests (h : Paced env e s s') : s'.nrequests = s.nrequests := by
  cases h with
  | same h => exact congrArg Pace.nrequests h
  | answered i h => exact congrArg Pace.nrequests h
  | requested _ _ h => exact congrArg Pace.nrequests h
  | accepted _ _ _ _ h => exact h
  | round _ h => rw [h]; rfl

theorem stamp_lastRequest {p : Pace} {i : Nat} {now : UInt32} (h : s'.pace = p.stamp i now) (j : Nat) :
    (s'.pages j).lastRequest = p.lastRequest j ∨ (s'.pages j).lastRequest = now := by
  have hj : (s'.pages j).lastRequest = Function.update p.lastRequest i now j :=
    congrFun (congrArg Pace.lastRequest h) j
  rw [hj]
  by_cases hij : j = i
  · right
    rw [hij, Function.update_self]
  · left
    rw [Function.update_of_ne hij]

/-- Within an update `last_request` of a page stays or becomes the time of the event. -/
theorem Paced.lastRequest (h : Paced env e s s') (hupdate : s'.updateVersion = s.updateVersion)
    (j : Nat) : (s'.pages j).lastRequest = (s.pages j).lastRequest ∨
      (s'.pages j).lastRequest = env.now := by
  cases h with
  | same h => exact .inl (congrFun (congrArg Pace.lastRequest h) j)
  | answered i h => exact stamp_lastRequest h j
  | requested _ _ h => exact stamp_lastRequest h j
  | accepted _ hv hnew _ _ =>
    rw [hnew] at hupdate
    exact absurd hupdate (Nat.ne_of_gt hv)
  | round _ h => exact .inl (by rw [h]; rfl)

/-- The rate check against two moments. -/
theorem secondsSince_ofNat {t time : Nat} (h : t ≤ time) :
    secondsSince (.ofNat time) (.ofNat t) * clockSecond ≤ time - t := by
  have hsub : (UInt32.ofNat time - UInt32.ofNat t).toNat ≤ time - t := by
    rw [UInt32.toNat_sub, UInt32.toNat_ofNat', UInt32.toNat_ofNat']
    omega
  exact Nat.le_trans (Nat.div_mul_le_self _ _) hsub

/-! ## The invariant -/

/-- The timer is only pending when every request for the current page is long enough ago. -/
theorem RateInv.armed_step (h : RateInv x) (hok : RateOk a x) (htime : x.2.time ≤ a.1)
    (hst : step (atTime a.1 a.2).1 a.2.2 x.1 = some s') (htimer : s'.rxTimer = true) :
    ∀ q ∈ x.2.sent, q.Current s' → q.time + tLow * clockSecond ≤ a.1 := by
  intro q hq hcurrent
  have hmoves := (step_moves h.byte hok.noWrap hst).1
  have hkept : x.1.rxTimer = true → q.Current x.1 → q.time + tLow * clockSecond ≤ a.1 := by
    intro hrx hc
    exact Nat.le_trans (h.armed hrx q hq hc) htime
  obtain ⟨hupdate, hpage⟩ := hcurrent
  cases hmoves with
  | restarts hv =>
    have hle := h.update q hq
    omega
  | advances hu hp =>
    have hle := h.page q hq (hupdate.trans hu)
    omega
  | stays hu hp =>
    have hc : q.Current x.1 := ⟨hupdate.trans hu, hpage.trans hp⟩
    cases (step_timers hst).rx htimer with
    | kept hrx _ => exact hkept hrx hc
    | stored hm hcomplete _ _ =>
      have hobj := (step_refines hst).trans (Object.next_completes hm hcomplete)
      have hcur : s'.currentRxPage = (x.1.currentRxPage + 1) % 256 := by
        have hcur : s'.currentRxPage = s'.object.currentRxPage := rfl
        rw [hcur, hobj]
        split <;> rfl
      have hbyte := h.byte
      omega
    | offered hm _ _ _ =>
      rcases summary_armed hm hst htimer with hrx | hrate
      · exact hkept hrx hc
      · obtain ⟨t, hqt, ht, hlast⟩ := h.stamped q hq hc
        have hlow := h.low
        have hpassed := secondsSince_ofNat (Nat.le_trans ht htime)
        rw [hlast] at hrate
        change x.1.rInterval < secondsSince (.ofNat a.1) (.ofNat t) at hrate
        simp only [clockSecond, tLow] at hpassed hlow ⊢
        omega
    | accepted hm hv hheap =>
      have hobj := (step_refines hst).trans (Object.next_announce hm hv hheap)
      have hnew : s'.updateVersion = _ := congrArg Object.updateVersion hobj
      have hnew := hnew.symm.trans hu
      exact absurd hnew (Nat.ne_of_gt hv)

/-- `send_request` does not start the timer again. -/
theorem rxTimer_fire (hn : s.nrequests = 0) (htimer : s.rxTimer = true)
    (hst : step env .rxTimer s = some s') : s'.rxTimer = false := by
  have hn : (takeRx { s with effects := [] }).nrequests = 0 := hn
  have hidle : (takeRx { s with effects := [] }).rxTimer = false := rfl
  rw [fired htimer hst]
  generalize takeRx { s with effects := [] } = u at hn hidle ⊢
  have hcount : (stampRequest u.currentRxPage env.now (unicastRequest u)).nrequests = 0 := hn
  apply Bool.eq_false_iff.mpr
  intro hset
  rw [sendRequest, limitRequests, hcount] at hset
  dsimp only at hset
  rw [if_pos rfl] at hset
  have hkept := (transition_timers _ .maintain).1 hset
  exact Bool.false_ne_true (hidle.symm.trans hkept)

/-- What holds of the requests sent before, once an event has happened that does not fire the timer or
    before the new request is counted. -/
theorem RateInv.step_sent (h : RateInv x) (hok : RateOk a x) (htime : x.2.time ≤ a.1)
    (hst : step (atTime a.1 a.2).1 a.2.2 x.1 = some s')
    (hrx : s'.rxTimer = true → ∀ q ∈ x.2.sent, q.Current s' → q.time + tLow * clockSecond ≤ a.1) :
    RateInv (s', ⟨a.1, x.2.sent⟩) := by
  have hpaced := step_paced h.nrequests hst
  obtain ⟨hmoves, hbyte⟩ := step_moves h.byte hok.noWrap hst
  obtain ⟨hlow, hhigh⟩ := hpaced.interval h.low h.high
  refine ⟨hlow, hhigh, hpaced.nrequests.trans h.nrequests, hbyte, ?_, ?_, ?_, ?_, hrx, h.spaced⟩
  · intro q hq
    exact Nat.le_trans (h.past q hq) htime
  · intro q hq
    have hle := h.update q hq
    cases hmoves with
    | stays hu _ => exact hu ▸ hle
    | advances hu _ => exact hu ▸ hle
    | restarts hv => exact Nat.le_of_lt (Nat.lt_of_le_of_lt hle hv)
  · intro q hq hupdate
    cases hmoves with
    | stays hu hp => exact hp ▸ h.page q hq (hupdate.trans hu)
    | advances hu hp => exact hp ▸ Nat.le_succ_of_le (h.page q hq (hupdate.trans hu))
    | restarts hv =>
      have hle := h.update q hq
      have hupdate : q.update = s'.updateVersion := hupdate
      omega
  · rintro q hq ⟨hupdate, hpage⟩
    have hupdate : q.update = s'.updateVersion := hupdate
    have hpage : q.page = s'.currentRxPage := hpage
    cases hmoves with
    | restarts hv =>
      have hle := h.update q hq
      omega
    | advances hu hp =>
      have hle := h.page q hq (hupdate.trans hu)
      omega
    | stays hu hp =>
      obtain ⟨t, hqt, ht, hlast⟩ := h.stamped q hq ⟨hupdate.trans hu, hpage.trans hp⟩
      show ∃ t, q.time ≤ t ∧ t ≤ a.1 ∧ (s'.pages s'.currentRxPage).lastRequest = .ofNat t
      rw [hp]
      rcases hpaced.lastRequest hu x.1.currentRxPage with hsame | hnow
      · exact ⟨t, hqt, Nat.le_trans ht htime, hsame.trans hlast⟩
      · exact ⟨a.1, Nat.le_trans (h.past q hq) htime, Nat.le_refl _, hnow⟩

/-- The request that was just sent. -/
theorem RateInv.cons {time : Nat} {sent : List Sent} (h : RateInv (s, ⟨time, sent⟩))
    (hrx : s.rxTimer = false) (hstamp : (s.pages s.currentRxPage).lastRequest = .ofNat time)
    (hlast : ∀ p ∈ sent, p.Current s → p.time + tLow * clockSecond ≤ time) :
    RateInv (s, ⟨time, ⟨time, s.currentRxPage, s.updateVersion⟩ :: sent⟩) where
  low := h.low
  high := h.high
  nrequests := h.nrequests
  byte := h.byte
  past := List.forall_mem_cons.mpr ⟨Nat.le_refl _, h.past⟩
  update := List.forall_mem_cons.mpr ⟨Nat.le_refl _, h.update⟩
  page := List.forall_mem_cons.mpr ⟨fun _ => Nat.le_refl _, h.page⟩
  stamped := List.forall_mem_cons.mpr
    ⟨fun _ => ⟨time, Nat.le_refl _, Nat.le_refl _, hstamp⟩, h.stamped⟩
  armed := fun hset => absurd (hrx.symm.trans hset) Bool.false_ne_true
  spaced := List.pairwise_cons.mpr
    ⟨fun p hp hpage hupdate => hlast p hp ⟨hupdate.symm, hpage.symm⟩, h.spaced⟩

/-- A request for the current page. -/
theorem RateInv.fire (h : RateInv x) (hok : RateOk a x) (htime : x.2.time ≤ a.1)
    (hst : Rx.step (atTime a.1 a.2).1 a.2.2 x.1 = some s') (hfires : Fires a.2.2 x.1) :
    RateInv (s', x.2.after a.1 s') := by
  obtain ⟨t, env, e⟩ := a
  obtain ⟨he, htimer⟩ := hfires
  have he : e = .rxTimer := he
  subst he
  have hrx := rxTimer_fire h.nrequests htimer hst
  have hobj : s'.object = x.1.object := step_refines hst
  have hcur : s'.currentRxPage = x.1.currentRxPage := congrArg Object.currentRxPage hobj
  have hupdate : s'.updateVersion = x.1.updateVersion := congrArg Object.updateVersion hobj
  have hbase := h.step_sent hok htime hst fun hset => absurd (hrx.symm.trans hset) Bool.false_ne_true
  have hstamp : (s'.pages s'.currentRxPage).lastRequest = .ofNat t := by
    have hpace := sendRequest_pace (atTime t (env, .rxTimer)).1
      (takeRx { x.1 with effects := [] }) h.nrequests
    rw [← fired htimer hst] at hpace
    have hj := congrFun (congrArg Pace.lastRequest hpace) s'.currentRxPage
    rw [hcur] at hj ⊢
    exact hj.trans (Function.update_self _ _ _)
  have hlast : ∀ p ∈ x.2.sent, p.Current s' → p.time + tLow * clockSecond ≤ t := by
    rintro p hp ⟨hu, hpage⟩
    exact Nat.le_trans (h.armed htimer p hp ⟨hu.trans hupdate, hpage.trans hcur⟩) htime
  have hafter : x.2.after t s' = ⟨t, ⟨t, s'.currentRxPage, s'.updateVersion⟩ :: x.2.sent⟩ := by
    rw [Clock.after, requested_fire h.byte htimer hst, hcur]
    rfl
  rw [hafter]
  exact hbase.cons hrx hstamp hlast

theorem RateInv.step (h : RateInv x) (hok : RateOk a x) (hst : TimedStep a x y) : RateInv y := by
  obtain ⟨s', c⟩ := y
  obtain ⟨htime, hst, hc⟩ := hst
  have hst : Rx.step (atTime a.1 a.2).1 a.2.2 x.1 = some s' := Step.eq_some hst hok.inBuffer
  have hc : c = x.2.after a.1 s' := hc
  rw [hc]
  by_cases hfires : Fires a.2.2 x.1
  · exact h.fire hok htime hst hfires
  · have hafter : x.2.after a.1 s' = ⟨a.1, x.2.sent⟩ := by
      rw [Clock.after, requested_quiet hst hfires]
      rfl
    rw [hafter]
    exact h.step_sent hok htime hst (h.armed_step hok htime hst)

theorem rateInv_of_reach (h : Reach (TimedBoot f v) TimedStep RateOk x) : RateInv x := by
  refine h.invariant (I := RateInv) ?_ fun a x y hx hok hst => hx.step hok hst
  intro x h0
  obtain ⟨hnone, hlow, hhigh⟩ := h0.1.interval
  have hbyte : x.1.currentRxPage < 256 := by
    rw [h0.1.fresh.currentRxPage]
    decide
  have hempty : ∀ {P : Sent → Prop}, ∀ q ∈ x.2.sent, P q := by
    intro P q hq
    rw [h0.2] at hq
    cases hq
  have hspaced : Spaced x.2.sent := by
    rw [h0.2]
    exact List.Pairwise.nil
  exact ⟨hlow, Nat.le_trans hhigh (by decide), hnone, hbyte, hempty, hempty, hempty, hempty,
    fun _ => hempty, hspaced⟩

/-- The outcome of an event at a time. -/
def timedNext (a : Nat × Env × Event) (x : Node × Clock) : Option (Node × Clock) :=
  if x.2.time ≤ a.1 then
    (step (atTime a.1 a.2).1 a.2.2 x.1).map fun s => (s, x.2.after a.1 s)
  else none

theorem timedNext_step (a : Nat × Env × Event) (x y : Node × Clock) (h : timedNext a x = some y) :
    TimedStep a x y := by
  unfold timedNext at h
  split at h
  · rename_i htime
    obtain ⟨s', hs, rfl⟩ := Option.map_eq_some_iff.mp h
    exact ⟨htime, .of_eq hs, rfl⟩
  · cases h

theorem timedBoot_boot (n v : Nat) : TimedBoot (zeroFile n) v (boot n v, ⟨0, []⟩) :=
  ⟨booted_boot n v, rfl⟩

/-- The lower `n` bytes of a number, as they lie in memory. -/
def littleEndian : Nat → Nat → List UInt8
  | 0, _ => []
  | n + 1, k => .ofNat k :: littleEndian n (k / 256)

/-- The number with these bytes. -/
def ofLittleEndian (bytes : List UInt8) : Nat := bytes.foldr (fun b k => b.toNat + 256 * k) 0

/-- `sizeof(struct deluge_page)`. -/
def pageBytes : Nat := 16

/-- A record of the page table in memory. -/
def bytesOfPage (p : Page) : List UInt8 :=
  littleEndian 4 p.packetSet ++ littleEndian 2 p.crc.toNat ++ littleEndian 4 p.lastRequest.toNat ++
    littleEndian 4 p.lastData.toNat ++ littleEndian 1 p.flags ++ littleEndian 1 p.version

/-- The record that these bytes are. -/
def pageOfBytes (b : List UInt8) : Page where
  packetSet := ofLittleEndian (b.take 4)
  crc := .ofNat (ofLittleEndian ((b.drop 4).take 2))
  lastRequest := .ofNat (ofLittleEndian ((b.drop 6).take 4))
  lastData := .ofNat (ofLittleEndian ((b.drop 10).take 4))
  flags := ofLittleEndian ((b.drop 14).take 1)
  version := ofLittleEndian ((b.drop 15).take 1)

/-- Byte `k` behind the start of `current_page`, once the payload is copied, if it was `old`. -/
def overwritten (p : DelugeMsgPacket) (k : Nat) (old : UInt8) : UInt8 :=
  if sPkt * p.packetnum ≤ k ∧ k < sPkt * p.packetnum + sPkt then
    p.payload.getD (k - sPkt * p.packetnum) 0
  else old

/-- The page table after that, if it starts `table` bytes behind `current_page`. -/
def overrun (table : Nat) (p : DelugeMsgPacket) (pages : Nat → Page) (i : Nat) : Page :=
  pageOfBytes ((bytesOfPage (pages i)).mapIdx fun j b => overwritten p (table + pageBytes * i + j) b)

/-- The fields have their sizes. -/
structure Sized (p : Page) : Prop where
  packetSet : p.packetSet < 4294967296
  flags : p.flags < 256
  version : p.version < 256

theorem pageOfBytes_bytesOfPage {p : Page} (h : Sized p) : pageOfBytes (bytesOfPage p) = p := by
  obtain ⟨packetSet, crc, lastRequest, lastData, flags, version⟩ := p
  obtain ⟨hset, hflags, hversion⟩ := h
  change packetSet < 4294967296 at hset
  change flags < 256 at hflags
  change version < 256 at hversion
  have hcrc := crc.toNat_lt
  have hrequest := lastRequest.toNat_lt
  have hdata := lastData.toNat_lt
  simp only [bytesOfPage, littleEndian, pageOfBytes, ofLittleEndian, List.cons_append,
    List.nil_append, List.take_succ_cons, List.take_zero, List.drop_succ_cons, List.drop_zero,
    List.foldr_cons, List.foldr_nil, UInt8.toNat_ofNat', Page.mk.injEq, ← UInt16.toNat_inj,
    ← UInt32.toNat_inj, UInt16.toNat_ofNat', UInt32.toNat_ofNat']
  omega

/-- A record that the payload does not meet is as it was. -/
theorem overrun_eq {table : Nat} {p : DelugeMsgPacket} {pages : Nat → Page} {i : Nat}
    (h : Sized (pages i)) (hfar : table + pageBytes * (i + 1) ≤ sPkt * p.packetnum ∨
      sPkt * p.packetnum + sPkt ≤ table + pageBytes * i) : overrun table p pages i = pages i := by
  have hkept : ∀ j b, j < pageBytes → overwritten p (table + pageBytes * i + j) b = b := by
    intro j b hj
    refine if_neg ?_
    rw [Nat.mul_succ] at hfar
    omega
  have hlen : (bytesOfPage (pages i)).length = pageBytes := rfl
  have hbytes : (bytesOfPage (pages i)).mapIdx
      (fun j b => overwritten p (table + pageBytes * i + j) b) = bytesOfPage (pages i) := by
    refine List.ext_getElem (List.length_mapIdx ..) fun j hj hj' => ?_
    rw [List.getElem_mapIdx]
    exact hkept j _ (hlen ▸ hj')
  rw [overrun, hbytes, pageOfBytes_bytesOfPage h]

/-- An event of a node whose page table lies there. A payload that leaves `current_page` has a wrong CRC
    and meets nothing but the table. -/
def timedNextAt (table : Nat) (a : Nat × Env × Event) (x : Node × Clock) : Option (Node × Clock) :=
  if x.2.time ≤ a.1 then
    match step (atTime a.1 a.2).1 a.2.2 x.1, a.2.2.message with
    | some s, _ => some (s, x.2.after a.1 s)
    | none, some (.packet p) =>
      let s := { heard p { x.1 with effects := [] } with pages := overrun table p x.1.pages }
      some (s, x.2.after a.1 s)
    | none, _ => none
  else none

theorem timedNextAt_step (table : Nat) (a : Nat × Env × Event) (x y : Node × Clock)
    (h : timedNextAt table a x = some y) : TimedStep a x y := by
  unfold timedNextAt at h
  split at h
  · rename_i htime
    split at h
    · rename_i hs
      obtain rfl := Option.some.inj h
      exact ⟨htime, .of_eq hs, rfl⟩
    · rename_i hs _
      obtain rfl := Option.some.inj h
      exact ⟨htime, .of_none hs, rfl⟩
    · cases h
  · cases h

/-- Page 2 as it is before its first request. -/
def missingPage : Page := ⟨0, 0, 0, 0, 0, 1⟩

/-- A packet of page 2 whose payload is stored 4224 bytes behind the start of `current_page`. There, 27
    bytes behind the start of the table, it leaves pages 0 and 1 complete and pages 2 to 5 missing, and
    clears all stamps. -/
def tablePacket : DelugeMsgPacket :=
  ⟨1, 2, 66, 1, 0, ((bytesOfPage ⟨15, 0, 0, 0, 1, 0⟩).drop 11 ++
    (List.replicate 4 (bytesOfPage missingPage)).flatten).take sPkt⟩

end Rx

end Adler.Deluge
