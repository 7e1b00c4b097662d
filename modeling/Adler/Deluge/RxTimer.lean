/-
  `rx_timer` is a callback timer of `ctimer.c`. A node keeps of it whether it is pending, whether its
  event timer runs and how many of its events wait; here these are read off the callback timers, the
  event timers and the event queue of the kernel.

  * `Tracks`: the three are what the kernel has for the timer `c`.
  * `RxCall`: the four ways the handlers of Deluge call `ctimer.c`. `Tracks.call`: the kernel follows.
  * `Tracks.step`: whatever else the kernel does, a poll posts the event of the timer at most, and the
    delivery of one runs the callback of a pending timer, set again or not.
  * `joint_tracks`: in every run of the kernel and a node together, the node has what the kernel has, and
    runs the callback when the kernel does.
-/
import Adler.Deluge.Boot
import Adler.Deluge.Timers
import Adler.Kernel.Ctimer

namespace Adler.Deluge

open Kernel (Ctimers CtimerOp CtimersInv TimerOp ctimerEvent ctimerSet ctimerReset ctimerStop
  ctimerExpired)
open Lib (Reach Always)
open Node

/-- What is kept of `rx_timer`. -/
structure RxState where
  pending : Bool
  running : Bool
  events : Nat

/-- The ways `ctimer.c` is called: `ctimer_set`, `ctimer_reset`, `if(ctimer_expired(..))
    ctimer_set(..)`, `ctimer_stop`. -/
inductive RxCall where
  | set
  | reset
  | setExpired
  | stop

namespace RxState

def call (x : RxState) : RxCall → RxState
  | .set | .reset => { x with pending := true, running := true }
  | .setExpired => { x with pending := !x.running || x.pending, running := true }
  | .stop => { x with pending := false, running := false }

/-- The event timer has run down. -/
def expire (x : RxState) : RxState :=
  { x with running := false, events := x.events + x.running.toNat }

/-- An event is delivered. -/
def take (x : RxState) : RxState :=
  { pending := false, running := x.running && decide (x.events ≠ 0), events := x.events - 1 }

/-- By some calls. -/
def Calls (x y : RxState) : Prop := ∃ calls : List RxCall, calls.foldl call x = y

theorem Calls.refl (x : RxState) : Calls x x := ⟨[], rfl⟩

theorem Calls.one (x : RxState) (call : RxCall) : Calls x (x.call call) := ⟨[call], rfl⟩

theorem Calls.trans {x y z : RxState} (h : Calls x y) (h' : Calls y z) : Calls x z := by
  obtain ⟨calls, rfl⟩ := h
  obtain ⟨calls', rfl⟩ := h'
  exact ⟨calls ++ calls', List.foldl_append ..⟩

end RxState

def Node.rxState (s : Node) : RxState := ⟨s.rxTimer, s.rxRunning, s.rxEvents⟩

theorem rxState_of_timers {s t : Node} (h : t.timers = s.timers) : t.rxState = s.rxState :=
  congrArg (fun x : Timers => (⟨x.rx, x.running, x.events⟩ : RxState)) h

theorem armExpiredRx_rxState (s : Node) : s.armExpiredRx.rxState = s.rxState.call .setExpired := by
  simp [rxState, armExpiredRx, rxExpired, RxState.call]

/-- What the kernel has done to `rx_timer` before the handler runs. -/
def Event.onRx : Event → RxState → RxState
  | .rxExpires, x => x.expire
  | .rxTimer, x => x.take
  | _, x => x

/-! ## The kernel -/

section

variable {κ ε π φ : Type*} [DecidableEq κ] [DecidableEq ε] [DecidableEq π] {cp : π} {c d : κ}
  {k : Ctimers κ ε π φ} {x : RxState}

/-- The callback timer process has started, and has this for the timer `c`. -/
structure Tracks (cp : π) (c : κ) (k : Ctimers κ ε π φ) (x : RxState) : Prop where
  inv : CtimersInv cp k
  started : k.initialized = true
  listed : (k.timers.p (.inl c)).isSome → .inl c ∈ k.timers.list
  pending : x.pending = k.pending c
  running : x.running = (k.timers.p (.inl c)).isSome
  events : x.events = k.timers.queue.count (ctimerEvent ε cp c)

/-- When the callback timer process has just started, nothing was ever set. -/
theorem tracks_start (t : Kernel.Timing (κ ⊕ ε) π) (p : κ → Option π) (f : κ → Option φ)
    (hp : t.p (.inl c) = none) :
    Tracks cp c ((Ctimers.boot t p f).step cp .start).1 Node.zero.rxState where
  inv := (Kernel.boot_inv cp t p f).step trivial
  started := rfl
  listed := fun hsome => by
    have hsome : (t.p (.inl c)).isSome = true := hsome
    rw [hp] at hsome
    cases hsome
  pending := rfl
  running := by
    show false = (t.p (.inl c)).isSome
    rw [hp]
    rfl
  events := rfl

theorem Tracks.expired (h : Tracks cp c k x) : ctimerExpired k c = !x.running := by
  rw [ctimerExpired, if_pos h.started, h.running, Option.not_isSome]

/-- The call, in the context of a process, with an interval and a callback. -/
def RxCall.run (cp : π) (current : Option π) (f : Option φ) (c : κ) (call : RxCall)
    (interval : UInt32) (k : Ctimers κ ε π φ) : Ctimers κ ε π φ :=
  match call with
  | .set => ctimerSet cp current k c interval f
  | .reset => ctimerReset cp k c
  | .setExpired => if ctimerExpired k c then ctimerSet cp current k c interval f else k
  | .stop => ctimerStop k c

theorem timers_ctimerSet (cp : π) (hs : k.initialized = true) (current : Option π) (d : κ)
    (interval : UInt32) (f : Option φ) : (ctimerSet cp current k d interval f).timers =
      (k.timers.step (.set cp (.inl d) interval)).1 := by
  unfold ctimerSet
  dsimp only
  rw [if_pos hs]
  rfl

theorem timers_ctimerReset (cp : π) (hs : k.initialized = true) (d : κ) :
    (ctimerReset cp k d).timers = (k.timers.step (.reset cp (.inl d))).1 := by
  rw [ctimerReset, if_pos hs]
  rfl

/-- The timer has been put on both lists. -/
theorem Tracks.armed (h : Tracks cp c k x) {k' : Ctimers κ ε π φ} (hinv : CtimersInv cp k')
    (hstart : k'.initialized = true) (hpending : k'.pending c = true) {v : Kernel.Timer}
    (htimers : k'.timers = (k.timers.setTimer (.inl c) v).addTimer cp (.inl c)) :
    Tracks cp c k' { x with pending := true, running := true } := by
  have hp : k'.timers.p (.inl c) = some cp := by
    rw [htimers]
    exact Function.update_self ..
  constructor
  · exact hinv
  · exact hstart
  · intro _
    rw [htimers]
    exact Kernel.Timers.mem_addTimer.mpr (.inl rfl)
  · exact hpending.symm
  · rw [hp]
    rfl
  · rw [htimers]
    exact h.events

theorem Tracks.set (h : Tracks cp c k x) (current : Option π) (interval : UInt32) (f : Option φ) :
    Tracks cp c (ctimerSet cp current k c interval f) (x.call .set) := by
  have hinv : CtimersInv cp (k.step cp (.set current c interval f)).1 := h.inv.step trivial
  have hflag := Kernel.step_flag h.inv (.set current c interval f)
  have hpending := congrFun (Option.some.inj hflag) c
  refine h.armed hinv ?_
    (hpending.symm.trans (Function.update_self ..)) (timers_ctimerSet cp h.started current c interval f)
  unfold ctimerSet
  dsimp only
  rw [if_pos h.started]
  exact h.started

theorem Tracks.reset (h : Tracks cp c k x) :
    Tracks cp c (ctimerReset cp k c) (x.call .reset) := by
  have hinv : CtimersInv cp (k.step cp (.reset c)).1 := h.inv.step trivial
  have hflag := Kernel.step_flag h.inv (.reset c)
  have hpending := congrFun (Option.some.inj hflag) c
  refine h.armed hinv ?_
    (hpending.symm.trans (Function.update_self ..)) (timers_ctimerReset cp h.started c)
  rw [ctimerReset, if_pos h.started]
  exact h.started

theorem Tracks.stop (h : Tracks cp c k x) : Tracks cp c (ctimerStop k c) (x.call .stop) := by
  have hinv : CtimersInv cp (k.step cp (.stop c)).1 := h.inv.step trivial
  have htimers : (ctimerStop k c).timers = k.timers.etimerStop (.inl c) := by
    unfold ctimerStop
    dsimp only
    rw [if_pos h.started]
    rfl
  have hp : (ctimerStop k c).timers.p (.inl c) = none := by
    rw [htimers, Kernel.Timers.p_etimerStop]
    exact Function.update_self ..
  constructor
  · exact hinv
  · unfold ctimerStop
    dsimp only
    rw [if_pos h.started]
    exact h.started
  · intro hsome
    rw [hp] at hsome
    cases hsome
  · have hflag := Kernel.step_flag h.inv (.stop c)
    have hflag := congrFun (Option.some.inj hflag) c
    exact (Function.update_self ..).symm.trans hflag
  · rw [hp]
    rfl
  · rw [htimers, Kernel.Timers.queue_etimerStop]
    exact h.events

/-- A call of the handlers. -/
theorem Tracks.call (h : Tracks cp c k x) (current : Option π) (f : Option φ) (call : RxCall)
    (interval : UInt32) : Tracks cp c (call.run cp current f c interval k) (x.call call) := by
  cases call with
  | set => exact h.set current interval f
  | reset => exact h.reset
  | stop => exact h.stop
  | setExpired =>
    unfold RxCall.run
    dsimp only
    rw [h.expired]
    cases hrun : x.running with
    | false =>
      have hcall : x.call .setExpired = x.call .set := by simp [RxState.call, hrun]
      rw [if_pos (show (!false) = true from rfl), hcall]
      exact h.set current interval f
    | true =>
      have hcall : x.call .setExpired = x := by
        cases x
        simp_all [RxState.call]
      rw [if_neg (show ¬ (!true) = true by decide), hcall]
      exact h

/-- Calls one after the other. -/
theorem Tracks.calls (h : Tracks cp c k x) (current : Option π) (f : Option φ)
    (calls : List (RxCall × UInt32)) :
    Tracks cp c (calls.foldl (fun k a => a.1.run cp current f c a.2 k) k)
      ((calls.map (·.1)).foldl RxState.call x) := by
  induction calls generalizing k x with
  | nil => exact h
  | cons a calls ih => exact ih (h.call current f a.1 a.2)

/-- Steps of the kernel other than calls for the timer `c`, once the callback timer process runs. -/
def Spares (c : κ) : CtimerOp κ ε π φ → Prop
  | .start => False
  | .set _ d _ _ | .reset d | .restart d | .stop d => d ≠ c
  | .timers _ | .event => True

/-- What the node sees of a step of the kernel: the event timer of `c` has run down, or an event of it is
    delivered. -/
def seen (cp : π) (c : κ) (k : Ctimers κ ε π φ) : CtimerOp κ ε π φ → Option Event
  | .timers .poll =>
    if (k.timers.p (.inl c)).isSome && (k.timers.doPoll.p (.inl c)).isNone then some .rxExpires
    else none
  | .event => if k.timers.queue.head? = some (ctimerEvent ε cp c) then some .rxTimer else none
  | _ => none

/-- The kernel follows what the node sees, and runs the callback of `c` when the node runs it. -/
structure Steps (cp : π) (c : κ) (k : Ctimers κ ε π φ) (x : RxState) (op : CtimerOp κ ε π φ) :
    Prop where
  tracks : Tracks cp c (k.step cp op).1 ((seen cp c k op).elim x fun e => e.onRx x)
  called : (∃ r, (k.step cp op).2 = some r ∧ r.timer = c) ↔
    seen cp c k op = some .rxTimer ∧ x.pending = true

omit [DecidableEq κ] [DecidableEq π] in
theorem no_call (c : κ) : ∀ r, (none : Option (Kernel.Call κ π φ)) = some r → r.timer ≠ c := nofun

/-- A step that the node does not see. -/
theorem Steps.quiet {op : CtimerOp κ ε π φ} (hseen : seen cp c k op = none)
    (hcall : ∀ r, (k.step cp op).2 = some r → r.timer ≠ c)
    (htracks : Tracks cp c (k.step cp op).1 x) : Steps cp c k x op where
  tracks := by rw [hseen]; exact htracks
  called := by
    refine iff_of_false ?_ ?_
    · rintro ⟨r, hr, hrc⟩
      exact hcall r hr hrc
    · rintro ⟨hsome, -⟩
      rw [hseen] at hsome
      cases hsome

/-- The event timer inside `c` is left alone. -/
structure Aside (cp : π) (c : κ) (a b : Kernel.Timers (κ ⊕ ε) π) : Prop where
  p : b.p (.inl c) = a.p (.inl c)
  list : .inl c ∈ a.list → .inl c ∈ b.list
  queue : b.queue.count (ctimerEvent ε cp c) = a.queue.count (ctimerEvent ε cp c)

section

variable {a : Kernel.Timers (κ ⊕ ε) π} {t : κ ⊕ ε}

theorem aside_add (ht : .inl c ≠ t) (v : Kernel.Timer) (current : π) :
    Aside cp c a ((a.setTimer t v).addTimer current t) where
  p := Function.update_of_ne ht ..
  list := fun hc => Kernel.Timers.mem_addTimer.mpr (.inr hc)
  queue := rfl

theorem aside_stop (ht : .inl c ≠ t) : Aside cp c a (a.etimerStop t) where
  p := by rw [Kernel.Timers.p_etimerStop, Function.update_of_ne ht]
  list := (Kernel.Timers.mem_etimerStop ht).mpr
  queue := by rw [Kernel.Timers.queue_etimerStop]

omit [DecidableEq κ] [DecidableEq ε] in
theorem ne_of_isRight (ht : t.isRight = true) : (.inl c : κ ⊕ ε) ≠ t := by
  rintro rfl
  cases ht

/-- What happens beside this module but a poll. -/
theorem aside_step (hown : Kernel.Owned cp a) {op : TimerOp (κ ⊕ ε) π}
    (hok : CtimerOp.Ok cp (.timers op : CtimerOp κ ε π φ)) (hpoll : op ≠ .poll) :
    Aside cp c a (a.step op).1 := by
  cases op with
  | set current t interval => exact aside_add (ne_of_isRight hok) ..
  | reset current t => exact aside_add (ne_of_isRight hok) ..
  | restart current t => exact aside_add (ne_of_isRight hok) ..
  | adjust t timediff => exact ⟨rfl, id, rfl⟩
  | stop t => exact aside_stop (ne_of_isRight hok)
  | exited p =>
    refine ⟨rfl, fun hc => List.mem_filter.mpr ⟨hc, ?_⟩, rfl⟩
    rw [hown.2 c hc]
    exact decide_eq_true fun heq => hok (Option.some.inj heq).symm
  | poll => exact absurd rfl hpoll
  | tick =>
    obtain ⟨hl, hp, hq⟩ := Kernel.Timers.tick_eq a
    exact ⟨congrFun hp _, fun hc => hl.symm ▸ hc, congrArg _ hq⟩
  | queue op =>
    cases op with
    | take => exact absurd hok id
    | post e =>
      have hne : ¬ e = ctimerEvent ε cp c := by
        rintro rfl
        exact hok rfl
      refine ⟨rfl, id, ?_⟩
      simp only [Kernel.Timers.step, Kernel.fifoStep]
      split
      · rw [List.count_append, List.count_singleton, if_neg (by simpa using hne), Nat.add_zero]
      · rfl

end

theorem Tracks.aside (h : Tracks cp c k x) {k' : Ctimers κ ε π φ} (hinv : CtimersInv cp k')
    (hstart : k'.initialized = true) (hpending : k'.pending c = k.pending c)
    (htimers : Aside cp c k.timers k'.timers) : Tracks cp c k' x where
  inv := hinv
  started := hstart
  listed := fun hsome => htimers.list (h.listed (htimers.p ▸ hsome))
  pending := h.pending.trans hpending.symm
  running := by rw [h.running, htimers.p]
  events := h.events.trans htimers.queue.symm

/-- A call for another timer. -/
theorem Tracks.other (h : Tracks cp c k x) {k' : Ctimers κ ε π φ} (hinv : CtimersInv cp k')
    {b : Bool} (hd : d ≠ c) (hpending : k'.pending = Function.update k.pending d b)
    (hstart : k'.initialized = true) (htimers : Aside cp c k.timers k'.timers) :
    Tracks cp c k' x := by
  refine h.aside hinv hstart ?_ htimers
  rw [hpending, Function.update_of_ne hd.symm]

theorem Tracks.poll (h : Tracks cp c k x) : Steps cp c k x (.timers .poll) := by
  have hinv : CtimersInv cp (k.step cp (.timers .poll)).1 := h.inv.step trivial
  rcases Kernel.Timers.doPoll_cases h.inv.owned.1 (h.inv.owned.2 c) with
    ⟨hmem, hnone, hcount⟩ | ⟨hp, hl, hcount⟩
  · have hsome : (k.timers.p (.inl c)).isSome = true := by
      rw [h.inv.owned.2 c hmem]
      rfl
    have hseen : seen cp c k (.timers .poll) = some .rxExpires := by
      rw [seen, hsome, hnone]
      rfl
    have hrun : x.running = true := h.running.trans hsome
    constructor
    · rw [hseen]
      refine ⟨hinv, h.started, fun hsome => ?_, h.pending, ?_, ?_⟩
      · have hsome : (k.timers.doPoll.p (.inl c)).isSome = true := hsome
        rw [hnone] at hsome
        cases hsome
      · show false = (k.timers.doPoll.p (.inl c)).isSome
        rw [hnone]
        rfl
      · show x.events + x.running.toNat = k.timers.doPoll.queue.count (ctimerEvent ε cp c)
        rw [hcount, hrun, h.events]
        rfl
    · rw [hseen]
      exact iff_of_false nofun nofun
  · have hseen : seen cp c k (.timers .poll) = none := by
      rw [seen, hp]
      cases k.timers.p (.inl c) <;> rfl
    exact .quiet hseen (no_call c) (h.aside hinv h.started rfl ⟨hp, hl, hcount⟩)

omit [DecidableEq ε] in
/-- The delivery of an event touches the queue and the pending timers only. -/
theorem doEvent_frame (cp : π) (k : Ctimers κ ε π φ) :
    (Kernel.doEvent cp k).1.initialized = k.initialized ∧
      (Kernel.doEvent cp k).1.timers = { k.timers with queue := k.timers.queue.tail } := by
  unfold Kernel.doEvent
  cases hq : k.timers.queue with
  | nil =>
    dsimp only
    rw [List.tail_nil, ← hq]
    exact ⟨rfl, rfl⟩
  | cons e es =>
    dsimp only
    split
    · unfold Kernel.ctimerThread
      split
      · dsimp only
        split <;> exact ⟨rfl, rfl⟩
      · exact ⟨rfl, rfl⟩
    · exact ⟨rfl, rfl⟩

omit [DecidableEq ε] in
/-- An event that is not of `c` runs no callback of it. -/
theorem doEvent_other {e : Kernel.Event (κ ⊕ ε) π} {es : List (Kernel.Event (κ ⊕ ε) π)}
    (hq : k.timers.queue = e :: es) (he : e ≠ ctimerEvent ε cp c) :
    ∀ r, (Kernel.doEvent cp k).2 = some r → r.timer ≠ c := by
  intro r hr
  unfold Kernel.doEvent at hr
  rw [hq] at hr
  dsimp only at hr
  split at hr
  · rename_i hto
    unfold Kernel.ctimerThread at hr
    split at hr
    · rename_i d hdata
      dsimp only at hr
      split at hr
      · obtain rfl := Option.some.inj hr
        intro (hd : d = c)
        refine he ?_
        obtain ⟨ev, data, p⟩ := e
        obtain ⟨hp, hev⟩ := hto
        have hp : p = some cp := hp
        have hev : ev = Kernel.eventTimer := hev
        have hdata : data = .etimer (.inl d) := hdata
        rw [hp, hev, hdata, hd]
        rfl
      · cases hr
    · cases hr
  · cases hr

omit [DecidableEq ε] in
/-- An event of `c` runs the callback when `c` is pending, and leaves it not pending. -/
theorem doEvent_own {es : List (Kernel.Event (κ ⊕ ε) π)} (hnd : k.list.Nodup)
    (hq : k.timers.queue = ctimerEvent ε cp c :: es) : (Kernel.doEvent cp k).1.pending c = false ∧
      (k.pending c = true ↔ ∃ r, (Kernel.doEvent cp k).2 = some r ∧ r.timer = c) := by
  by_cases hc : c ∈ k.list
  · have hcall := Kernel.doEvent_ctimerEvent hq hc
    refine ⟨?_, iff_of_true (decide_eq_true hc) ⟨_, hcall, rfl⟩⟩
    rcases Kernel.doEvent_eq cp k with ⟨hnone, -⟩ | ⟨d, -, hd, hl⟩
    · rw [hnone] at hcall
      cases hcall
    · have hdc : d = c := congrArg Kernel.Call.timer (Option.some.inj (hd.symm.trans hcall))
      rw [Kernel.pending_erase hnd (hdc ▸ hl), Function.update_self]
  · have hidle : k.pending c = false := decide_eq_false hc
    rcases Kernel.doEvent_eq cp k with ⟨hnone, hl⟩ | ⟨d, hd, hcall, hl⟩
    · rw [Kernel.pending_congr hl, hnone, hidle]
      exact ⟨rfl, iff_of_false Bool.false_ne_true nofun⟩
    · have hdc : d ≠ c := fun hdc => hc (hdc ▸ hd)
      rw [Kernel.pending_erase hnd hl, Function.update_of_ne hdc.symm, hidle, hcall]
      refine ⟨rfl, iff_of_false Bool.false_ne_true ?_⟩
      rintro ⟨r, hr, hrc⟩
      exact hdc ((congrArg Kernel.Call.timer (Option.some.inj hr)).trans hrc)

/-- The delivery of the first event. -/
theorem Tracks.event (h : Tracks cp c k x) : Steps cp c k x .event := by
  have hinv : CtimersInv cp (Kernel.doEvent cp k).1 := h.inv.event
  have hflag := Kernel.step_flag h.inv .event
  obtain ⟨hinit, htimers⟩ := doEvent_frame cp k
  have hstart := hinit.trans h.started
  cases hq : k.timers.queue with
  | nil =>
    have hnone : Kernel.doEvent cp k = (k, none) := by
      unfold Kernel.doEvent
      rw [hq]
    refine .quiet (by rw [seen, hq]; rfl) ?_ ?_
    · show ∀ r, (Kernel.doEvent cp k).2 = some r → r.timer ≠ c
      rw [hnone]
      exact no_call c
    · show Tracks cp c (Kernel.doEvent cp k).1 x
      rw [hnone]
      exact h
  | cons e es =>
    rw [hq, List.tail_cons] at htimers
    by_cases he : e = ctimerEvent ε cp c
    · rw [he] at hq
      have hcount : x.events = es.count (ctimerEvent ε cp c) + 1 := by
        rw [h.events, hq, List.count_cons_self]
      have hseen : seen cp c k .event = some .rxTimer := by
        rw [seen, hq]
        exact if_pos rfl
      obtain ⟨hpending, hcall⟩ := doEvent_own h.inv.nodup hq
      constructor
      · rw [hseen]
        refine ⟨hinv, hstart, ?_, hpending.symm, ?_, ?_⟩
        · show ((Kernel.doEvent cp k).1.timers.p (.inl c)).isSome →
            .inl c ∈ (Kernel.doEvent cp k).1.timers.list
          rw [htimers]
          exact h.listed
        · show (x.running && decide (x.events ≠ 0)) =
            ((Kernel.doEvent cp k).1.timers.p (.inl c)).isSome
          rw [htimers, h.running, decide_eq_true (by omega), Bool.and_true]
        · show x.events - 1 = (Kernel.doEvent cp k).1.timers.queue.count (ctimerEvent ε cp c)
          rw [htimers, hcount]
          rfl
      · rw [hseen, h.pending]
        exact hcall.symm.trans ⟨fun hc => ⟨rfl, hc⟩, And.right⟩
    · have hcall := doEvent_other hq he
      have hseen : seen cp c k .event = none := by
        rw [seen, hq]
        exact if_neg fun heq => he (Option.some.inj heq)
      refine .quiet hseen hcall (h.aside hinv hstart ?_ ?_)
      · rcases Kernel.doEvent_eq cp k with ⟨-, hl⟩ | ⟨d, -, hd, hl⟩
        · exact congrFun (Kernel.pending_congr hl) c
        · refine (congrFun (Kernel.pending_erase h.inv.nodup hl) c).trans ?_
          exact Function.update_of_ne (hcall _ hd).symm ..
      · show Aside cp c k.timers (Kernel.doEvent cp k).1.timers
        rw [htimers]
        refine ⟨rfl, id, ?_⟩
        rw [hq, List.count_cons_of_ne he]

/-- **The kernel.** A step that is no call for `c`: its event timer may run down in a poll, and an event
    of it may be delivered, which runs the callback of a pending `c`, set again or not. -/
theorem Tracks.step (h : Tracks cp c k x) {op : CtimerOp κ ε π φ} (hok : op.Ok cp)
    (hop : Spares c op) : Steps cp c k x op := by
  have hinv := h.inv.step hok
  have hflag := Kernel.step_flag h.inv op
  have hne : ∀ d : κ, d ≠ c → (.inl c : κ ⊕ ε) ≠ .inl d := fun d hd heq =>
    hd (Sum.inl_injective heq).symm
  cases op with
  | start => exact absurd hop id
  | set current d t f =>
    refine .quiet rfl (no_call c) (h.other hinv hop (Option.some.inj hflag).symm ?_ ?_)
    · simp [Ctimers.step, ctimerSet, h.started, Ctimers.relist, Ctimers.etimer]
    · rw [Ctimers.step, timers_ctimerSet cp h.started]
      exact aside_add (hne d hop) ..
  | reset d =>
    refine .quiet rfl (no_call c) (h.other hinv hop (Option.some.inj hflag).symm ?_ ?_)
    · simp [Ctimers.step, ctimerReset, h.started, Ctimers.relist, Ctimers.etimer]
    · rw [Ctimers.step, timers_ctimerReset cp h.started]
      exact aside_add (hne d hop) ..
  | restart d =>
    refine .quiet rfl (no_call c) (h.other hinv hop (Option.some.inj hflag).symm ?_ ?_)
    · simp [Ctimers.step, Kernel.ctimerRestart, h.started, Ctimers.relist, Ctimers.etimer]
    · rw [Ctimers.step, Kernel.ctimerRestart, if_pos h.started]
      exact aside_add (hne d hop) ..
  | stop d =>
    refine .quiet rfl (no_call c) (h.other hinv hop (Option.some.inj hflag).symm ?_ ?_)
    · simp [Ctimers.step, ctimerStop, h.started, Ctimers.etimer]
    · rw [Ctimers.step, ctimerStop, if_pos h.started]
      exact aside_stop (hne d hop)
  | timers op =>
    by_cases hpoll : op = .poll
    · rw [hpoll]
      exact h.poll
    · refine .quiet ?_ (no_call c) (h.aside hinv h.started rfl (aside_step h.inv.owned hok hpoll))
      cases op with
      | poll => exact absurd rfl hpoll
      | _ => rfl
  | event => exact h.event

/-- A timer that was set again while an event of it waited is not pending after the delivery, nor
    expired. -/
example : let k := ((Ctimers.boot (κ := ℕ) (ε := Empty) (π := Bool) (φ := ℕ)
      ⟨fun _ => ⟨0, 0⟩, fun _ => none, 0, 0, false⟩ (fun _ => none) fun _ => none).run true
      [.start, .set (some false) 1 1 none, .timers .tick, .timers .poll, .set (some false) 1 9 none,
        .event]).1
    k.pending 1 = false ∧ ctimerExpired k 1 = false := by
  decide

/-- A pending timer has its event timer running or an event waiting. -/
theorem Tracks.waits (h : Tracks cp c k x) (hx : x.pending = true) :
    x.running = true ∨ x.events ≠ 0 := by
  have hc : c ∈ k.list := of_decide_eq_true (h.pending.symm.trans hx)
  rcases h.inv.waits h.started c hc with hl | hq
  · left
    rw [h.running, h.inv.owned.2 c hl]
    rfl
  · right
    rw [h.events]
    exact Nat.ne_of_gt (List.count_pos_iff.mpr hq)

end

/-! ## The events of a node -/

section

open RxState (Calls)

variable {env : Env} {e : Event} {s s' : Node}

theorem Calls.of_timers {t : Node} (h : t.timers = s.timers) : Calls s.rxState t.rxState := by
  rw [rxState_of_timers h]
  exact .refl _

theorem transition_calls (st : DelugeState) (s : Node) :
    Calls s.rxState (transition st s).rxState := by
  unfold transition
  split
  · exact .refl _
  · split
    · exact .refl _
    · exact .one s.rxState .stop
    · exact .refl _

theorem Calls.transition {t : Node} (h : t.timers = s.timers) (st : DelugeState) :
    Calls s.rxState (transition st t).rxState :=
  (Calls.of_timers h).trans (transition_calls st t)

theorem enterRx_calls (s : Node) : Calls s.rxState (armExpiredRx (transition .rx s)).rxState := by
  rw [armExpiredRx_rxState]
  exact (transition_calls .rx s).trans (.one _ _)

theorem limitRequests_calls (lambda : Nat) (s : Node) :
    Calls s.rxState (limitRequests lambda s).rxState := by
  unfold limitRequests
  dsimp only
  split
  · refine Calls.transition ?_ .maintain
    rfl
  · exact .one s.rxState .reset

theorem nextPage_calls {announce : Node → Node} (hann : ∀ t, (announce t).rxState = t.rxState)
    (p : DelugeMsgPacket) (s : Node) : Calls s.rxState (nextPage announce p s).rxState := by
  unfold nextPage
  split
  · have hsame : (announce { s with version := s.updateVersion }).rxState = s.rxState := hann _
    exact hsame ▸ .refl _
  · split
    · rw [armExpiredRx_rxState]
      exact .one _ _
    · exact .refl _

theorem handlePacketWith_calls {announce : Node → Node}
    (hann : ∀ t, (announce t).rxState = t.rxState) {p : DelugeMsgPacket}
    (hst : handlePacketWith announce env p s = some s') : Calls s.rxState s'.rxState := by
  have hout := handlePacketWith_outcome env s hst
  match hout with
  | .otherPage _ => exact .refl _
  | .unwanted _ _ => exact Calls.of_timers (heard_timers s p)
  | .corrupt _ _ _ =>
    exact Calls.of_timers ((copyPayload_timers (heard p s) p).trans (heard_timers s p))
  | .taken _ _ _ _ => exact Calls.of_timers (taken_timers env s p)
  | .completes _ _ =>
    exact ((Calls.of_timers (stored_timers env s p)).trans (nextPage_calls hann p _)).trans
      (transition_calls .maintain _)

theorem handleRequest_calls (m : DelugeMsgRequest) :
    Calls s.rxState (handleRequest env m s).rxState := by
  unfold handleRequest
  split
  · exact .refl _
  · dsimp only
    split
    · refine Calls.transition ?_ .tx
      simp only [queuePackets_timers, stampRequest_timers, touch_timers, scanPages_timers,
        noteVersion_timers]
    · refine Calls.of_timers ?_
      rw [scanPages_timers, noteVersion_timers]

theorem handleProfile_calls (m : DelugeMsgProfile) :
    Calls s.rxState (handleProfile env m s).rxState := by
  have hout := handleProfile_outcome env s m
  generalize handleProfile env m s = t at hout
  match hout with
  | .old _ => exact .refl _
  | .noMemory _ _ => exact Calls.of_timers (resized_timers s m)
  | .accepted block _ _ =>
    have htimers : (beginUpdate m.version (scanPages (retabled env m block s))).timers =
        s.timers := (scanPages_timers _).trans (retabled_timers env s m block)
    exact (Calls.transition htimers .rx).trans (.one _ .set)

theorem txCallback_calls (env : Env) (s : Node) : Calls s.rxState (txCallback env s).rxState := by
  have hsend : (sendPage env s.currentTxPage.toNat s).timers = s.timers := sendPackets_timers _ _ _
  unfold txCallback
  split
  · dsimp only
    split
    · exact Calls.of_timers hsend
    · refine Calls.transition ?_ .maintain
      exact hsend
  · exact .refl _

theorem sendRequest_calls (lambda : Nat) {t : Node} (h : t.timers = s.timers) :
    Calls s.rxState (limitRequests lambda t).rxState :=
  (Calls.of_timers h).trans (limitRequests_calls lambda t)

/-- A message is handled by calls of `ctimer.c`. -/
theorem commandDispatcherWith_calls {hs : Env → DelugeMsgSummary → RimeAddr → Node → Node}
    {announce : Node → Node} {sender : RimeAddr} {b : Packetbuf}
    (hsum : ∀ m, Calls s.rxState (hs env m sender s).rxState)
    (hann : ∀ t, (announce t).rxState = t.rxState)
    (hst : commandDispatcherWith hs (handlePacketWith announce) env sender b s = some s') :
    Calls s.rxState s'.rxState := by
  rw [commandDispatcherWith_eq] at hst
  match hm : b.message with
  | none =>
    simp only [hm, Option.some.injEq] at hst
    exact hst ▸ .refl _
  | some (.summary m) =>
    simp only [hm, Option.some.injEq] at hst
    exact hst ▸ hsum m
  | some (.request m) =>
    simp only [hm, Option.some.injEq] at hst
    exact hst ▸ handleRequest_calls m
  | some (.packet p) =>
    simp only [hm] at hst
    exact handlePacketWith_calls hann hst
  | some (.profile m) =>
    simp only [hm, Option.some.injEq] at hst
    exact hst ▸ handleProfile_calls m

theorem advertiseSummary_rxState (t : Node) : (advertiseSummary t).rxState = t.rxState := by
  unfold advertiseSummary
  split <;> rfl

theorem sendProfile_rxState (t : Node) : (sendProfile t).rxState = t.rxState :=
  rxState_of_timers (sendProfile_timers t)

theorem txTimer_calls (env : Env) (s : Node) : Calls s.rxState
    (if s.txTimer then txCallback env { s with txTimer := false } else s).rxState := by
  split
  · exact txCallback_calls env { s with txTimer := false }
  · exact .refl _

theorem summaryTimer_calls (s : Node) : Calls s.rxState
    (if s.summaryTimer then advertiseSummary { s with summaryTimer := false } else s).rxState := by
  split
  · rw [advertiseSummary_rxState]
    exact .refl _
  · exact .refl _

theorem profileTimer_calls (s : Node) : Calls s.rxState
    (if s.profileTimer then sendProfile { s with profileTimer := false } else s).rxState := by
  split
  · rw [sendProfile_rxState]
    exact .refl _
  · exact .refl _

theorem Rx.offerRequest_calls (m : DelugeMsgSummary) (sender : RimeAddr) (t : Node) :
    Calls t.rxState (Rx.offerRequest env m sender t).rxState := by
  unfold Rx.offerRequest
  split
  · exact .refl _
  · dsimp only
    split
    · exact .refl _
    · exact enterRx_calls (copySender sender (t.touch t.currentRxPage))

theorem Rx.handleSummary_calls (m : DelugeMsgSummary) (sender : RimeAddr) (s : Node) :
    Calls s.rxState (Rx.handleSummary env m sender s).rxState := by
  have hnoted : (noteSummary m (highestAvailablePage s) (scanPages s)).rxState = s.rxState :=
    rxState_of_timers ((noteSummary_timers _ m _).trans (scanPages_timers s))
  unfold Rx.handleSummary
  dsimp only
  generalize noteSummary m (highestAvailablePage s) (scanPages s) = t at hnoted ⊢
  have hasked : (Rx.askProfile m sender t).rxState = s.rxState := hnoted
  rw [← hasked]
  split
  · exact Rx.offerRequest_calls m sender _
  · exact .refl _

theorem Tx.offerRequest_calls (m : DelugeMsgSummary) (sender : RimeAddr) (t : Node) :
    Calls t.rxState (Tx.offerRequest env m sender t).rxState := by
  unfold Tx.offerRequest
  split
  · exact .refl _
  · dsimp only
    split
    · exact .refl _
    · exact enterRx_calls (copySender sender (t.touchBelow m.highestAvailable))

theorem Tx.handleSummary_calls (m : DelugeMsgSummary) (sender : RimeAddr) (s : Node) :
    Calls s.rxState (Tx.handleSummary env m sender s).rxState := by
  have hnoted : (noteSummary m (highestAvailablePage s) (scanPages s)).rxState = s.rxState :=
    rxState_of_timers ((noteSummary_timers _ m _).trans (scanPages_timers s))
  unfold Tx.handleSummary
  dsimp only
  generalize highestAvailablePage s = n at hnoted ⊢
  generalize noteSummary m n (scanPages s) = t at hnoted ⊢
  have hreport : (Tx.postReport m sender n t).rxState = s.rxState := by
    rw [← hnoted]
    unfold Tx.postReport
    split <;> rfl
  rw [← hreport]
  split
  · exact Tx.offerRequest_calls m sender _
  · exact .refl _

/-- The event of the receiver changes what is kept of `rx_timer` by calls, after the kernel. -/
theorem Rx.step_calls (hst : Rx.step env e s = some s') : Calls (e.onRx s.rxState) s'.rxState := by
  match e with
  | .receive sender b =>
    exact commandDispatcherWith_calls (s := { s with effects := [] })
      (fun m => Rx.handleSummary_calls m sender { s with effects := [] }) advertiseSummary_rxState hst
  | .rxExpires =>
    cases hst
    exact .refl _
  | .rxTimer =>
    cases hst
    dsimp only
    split
    · exact sendRequest_calls (s := takeRx s) Rx.constLambda rfl
    · exact .refl _
  | .txTimer =>
    cases hst
    exact txTimer_calls env { s with effects := [] }
  | .summaryTimer =>
    cases hst
    exact summaryTimer_calls { s with effects := [] }
  | .profileTimer =>
    cases hst
    exact profileTimer_calls { s with effects := [] }
  | .round =>
    cases hst
    exact .refl _

/-- And the event of the gateway. -/
theorem Tx.step_calls (hst : Tx.step env e s = some s') : Calls (e.onRx s.rxState) s'.rxState := by
  match e with
  | .receive sender b =>
    exact commandDispatcherWith_calls (s := { s with effects := [] })
      (fun m => Tx.handleSummary_calls m sender { s with effects := [] }) (fun _ => rfl) hst
  | .rxExpires =>
    cases hst
    exact .refl _
  | .rxTimer =>
    cases hst
    dsimp only
    split
    · exact sendRequest_calls (s := takeRx s) Tx.constLambda rfl
    · exact .refl _
  | .txTimer =>
    cases hst
    exact txTimer_calls env { s with effects := [] }
  | .summaryTimer =>
    cases hst
    exact summaryTimer_calls { s with effects := [] }
  | .profileTimer =>
    cases hst
    exact profileTimer_calls { s with effects := [] }
  | .round =>
    cases hst
    exact .refl _

/-- A freshly booted node has not set the timer. -/
theorem initObject_rxState {e : InitEnv} {f : File} {v : Nat} {t : Node}
    (h : initObject e f v Node.zero = (0, t)) : t.rxState = Node.zero.rxState := by
  obtain ⟨fd, block, l, size, pages, file, rfl, -⟩ := initObject_eq h
  rfl

theorem Rx.Booted.rxState {f : File} {v : Nat} (h : Rx.Booted f v s) :
    s.rxState = Node.zero.rxState := by
  obtain ⟨e, h⟩ := h
  obtain ⟨t, ht, rfl⟩ := delugeDisseminate_init h
  have hstart : (Rx.start t).rxState = t.rxState := rfl
  exact hstart.trans (initObject_rxState ht)

theorem Tx.Booted.rxState {f : File} {v : Nat} (h : Tx.Booted f v s) :
    s.rxState = Node.zero.rxState := by
  obtain ⟨e, h⟩ := h
  obtain ⟨t, ht, rfl⟩ := delugeDisseminate_init h
  have hstart : (Tx.start t).rxState = t.rxState := rfl
  exact hstart.trans (initObject_rxState ht)

end

/-! ## The kernel and a node together -/

section

variable {κ ε π φ : Type*} [DecidableEq κ] [DecidableEq ε] [DecidableEq π] {cp : π} {c : κ}
  {k : Ctimers κ ε π φ} {step : Env → Event → Node → Option Node} {x : Ctimers κ ε π φ × Node}

/-- The calls of a handler that change `x` to `x'` change the kernel to `k'`, whatever their
    intervals. -/
def Obeys (cp : π) (c : κ) (k : Ctimers κ ε π φ) (x : RxState) (k' : Ctimers κ ε π φ)
    (x' : RxState) : Prop :=
  ∃ (current : Option π) (f : Option φ) (calls : List (RxCall × UInt32)),
    (calls.map (·.1)).foldl RxState.call x = x' ∧
      calls.foldl (fun k a => a.1.run cp current f c a.2 k) k = k'

/-- The callback timer process has just started, and so has the node. -/
def JointInit (cp : π) (c : κ) (x : Ctimers κ ε π φ × Node) : Prop :=
  (∃ t p f, t.p (.inl c) = none ∧ x.1 = ((Ctimers.boot t p f).step cp .start).1) ∧
    ∃ f v, Rx.Booted f v x.2 ∨ Tx.Booted f v x.2

/-- A step of the kernel that is no call for `c`, and what the node does when it sees it; or another
    event of the node. The calls of the handler follow. -/
inductive JointStep (cp : π) (c : κ) (step : Env → Event → Node → Option Node) :
    CtimerOp κ ε π φ ⊕ Env × Event → Ctimers κ ε π φ × Node → Ctimers κ ε π φ × Node → Prop
  | kernel {op : CtimerOp κ ε π φ} {k : Ctimers κ ε π φ} {s : Node} : op.Ok cp → Spares c op →
      seen cp c k op = none → JointStep cp c step (.inl op) (k, s) ((k.step cp op).1, s)
  | timer {op : CtimerOp κ ε π φ} {k k' : Ctimers κ ε π φ} {env : Env} {e : Event} {s s' : Node} :
      op.Ok cp → Spares c op → seen cp c k op = some e → step env e s = some s' →
      Obeys cp c (k.step cp op).1 (e.onRx s.rxState) k' s'.rxState →
      JointStep cp c step (.inl op) (k, s) (k', s')
  | other {k k' : Ctimers κ ε π φ} {env : Env} {e : Event} {s s' : Node} :
      e ≠ .rxExpires → e ≠ .rxTimer → step env e s = some s' →
      Obeys cp c k s.rxState k' s'.rxState → JointStep cp c step (.inr (env, e)) (k, s) (k', s')

theorem Tracks.obeys {x x' : RxState} {k' : Ctimers κ ε π φ} (h : Tracks cp c k x)
    (hs : Obeys cp c k x k' x') : Tracks cp c k' x' := by
  obtain ⟨current, f, calls, rfl, rfl⟩ := hs
  exact h.calls current f calls

/-- The handlers only make such calls. -/
theorem obeys_step (cp : π) (c : κ) (k : Ctimers κ ε π φ) {env : Env} {e : Event} {s s' : Node}
    (hst : Rx.step env e s = some s' ∨ Tx.step env e s = some s') :
    ∃ k', Obeys cp c k (e.onRx s.rxState) k' s'.rxState := by
  obtain ⟨calls, hcalls⟩ := hst.elim Rx.step_calls Tx.step_calls
  refine ⟨_, none, none, calls.map fun call => (call, 0), ?_, rfl⟩
  rw [List.map_map]
  exact (congrArg (List.foldl RxState.call _) (List.map_id calls)).trans hcalls

theorem seen_cases {op : CtimerOp κ ε π φ} {e : Event}
    (h : seen cp c k op = some e) : e = .rxExpires ∨ e = .rxTimer := by
  unfold seen at h
  split at h
  · split at h
    · exact .inl (Option.some.inj h).symm
    · cases h
  · split at h
    · exact .inr (Option.some.inj h).symm
    · cases h
  · cases h

/-- Whatever the kernel does, both nodes can follow. -/
theorem jointStep_exists {op : CtimerOp κ ε π φ} (hok : op.Ok cp) (hop : Spares c op) (env : Env)
    (x : Ctimers κ ε π φ × Node) :
    (∃ y, JointStep cp c Rx.step (.inl op) x y) ∧ ∃ y, JointStep cp c Tx.step (.inl op) x y := by
  obtain ⟨k, s⟩ := x
  cases hseen : seen cp c k op with
  | none => exact ⟨⟨_, .kernel hok hop hseen⟩, _, .kernel hok hop hseen⟩
  | some e =>
    have hrx : ∃ s', Rx.step env e s = some s' := by
      rcases seen_cases hseen with rfl | rfl <;> exact ⟨_, rfl⟩
    have htx : ∃ s', Tx.step env e s = some s' := by
      rcases seen_cases hseen with rfl | rfl <;> exact ⟨_, rfl⟩
    obtain ⟨s₁, hrx⟩ := hrx
    obtain ⟨s₂, htx⟩ := htx
    obtain ⟨k₁, hobeys₁⟩ := obeys_step cp c (k.step cp op).1 (.inl hrx)
    obtain ⟨k₂, hobeys₂⟩ := obeys_step cp c (k.step cp op).1 (.inr htx)
    exact ⟨⟨_, .timer hok hop hseen hrx hobeys₁⟩, _, .timer hok hop hseen htx hobeys₂⟩

theorem tracks_jointStep {a : CtimerOp κ ε π φ ⊕ Env × Event} {x y : Ctimers κ ε π φ × Node}
    (h : Tracks cp c x.1 x.2.rxState) (hst : JointStep cp c step a x y) :
    Tracks cp c y.1 y.2.rxState := by
  cases hst with
  | kernel hok hop hseen =>
    have hsteps := (h.step hok hop).tracks
    rw [hseen] at hsteps
    exact hsteps
  | timer hok hop hseen _ hobeys =>
    have hsteps := (h.step hok hop).tracks
    rw [hseen] at hsteps
    exact hsteps.obeys hobeys
  | other _ _ _ hobeys => exact h.obeys hobeys

/-- **Runs.** Whatever the kernel does and the node hears, what the node has of `rx_timer` is what the
    kernel has: `ctimer_expired` says the same, an event makes the kernel run the callback when the node
    runs it, and a pending timer has its event timer running or an event that waits. -/
theorem joint_tracks (h : Reach (JointInit cp c) (JointStep cp c step) Always x) :
    ctimerExpired x.1 c = rxExpired x.2 ∧ x.1.pending c = x.2.rxTimer ∧
      (∀ op : CtimerOp κ ε π φ, op.Ok cp → Spares c op →
        ((∃ r, (x.1.step cp op).2 = some r ∧ r.timer = c) ↔
          seen cp c x.1 op = some .rxTimer ∧ x.2.rxTimer = true)) ∧
      (x.2.rxTimer = true → x.2.rxRunning = true ∨ x.2.rxEvents ≠ 0) := by
  have htracks : Tracks cp c x.1 x.2.rxState := by
    refine h.invariant ?_ fun _ _ _ htracks _ hst => tracks_jointStep htracks hst
    rintro ⟨k, s⟩ ⟨⟨t, p, f, hp, rfl⟩, file, v, hboot⟩
    have hzero : s.rxState = Node.zero.rxState :=
      hboot.elim Rx.Booted.rxState Tx.Booted.rxState
    rw [hzero]
    exact tracks_start t p f hp
  exact ⟨htracks.expired, htracks.pending.symm, fun op hok hop => (htracks.step hok hop).called,
    htracks.waits⟩

end

end Adler.Deluge
