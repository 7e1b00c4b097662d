/-
  Event timers (`core/sys/etimer.c`, `timer.c`) and the clock interrupt that wakes them
  (`cpu/msp430/f1xxx/clock.c`).

  A `Memory` holds the timers as the source keeps them: a singly linked list through their `next`
  words and the ring of events. A `Timers` holds the same timers as a plain list and a plain queue.

  * `pollLoop_eq`: one poll of the event timer process, with its restarts after every timer it
    takes off the list, posts the events of the expired timers in list order as far as the queue
    has room, and asks for another poll exactly when an expired timer had to stay.
  * `exited_refines`: the event of a process that exits takes exactly its timers off.
  * `memRun_refines`: over every run the memory and the plain lists agree, event by event.
-/
import Adler.Lib.Linked
import Adler.Kernel.Events

namespace Adler.Kernel

open Lib

variable {τ π : Type*}

/-! ## Timers -/

/-- `struct timer` -/
structure Timer where
  start : UInt32
  interval : UInt32
  deriving DecidableEq

/-- `timer_expired`: the difference is one more than the time passed, so it wraps to zero. -/
def timerExpired (now : UInt32) (t : Timer) : Bool :=
  let diff := (now - t.start) + 1
  decide (t.interval < diff)

/-- The distance to the expiration, as `update_time` computes it. -/
def Timer.dist (now : UInt32) (t : Timer) : UInt32 := t.start + t.interval - now

/-- What an event carries. -/
inductive EventData (τ : Type*)
  | etimer (t : τ)
  | raw (n : ℕ)
  deriving DecidableEq

/-- `struct event_data` -/
structure Event (τ π : Type*) where
  ev : UInt8
  data : EventData τ
  p : Option π
  deriving DecidableEq

/-- `PROCESS_EVENT_TIMER` -/
def eventTimer : UInt8 := 0x88

/-- The event of an expired timer of the process `p`. -/
def timerEvent (p : Option π) (t : τ) : Event τ π := ⟨eventTimer, .etimer t, p⟩

/-- What the memory and the plain lists have in common: the timers, the clock, and whether the
event timer process is to be polled. -/
structure Timing (τ π : Type*) where
  timer : τ → Timer
  p : τ → Option π
  nextExpiration : UInt32
  count : UInt32
  needspoll : Bool

structure Memory (τ π : Type*) extends Timing τ π where
  timerlist : Option τ
  next : τ → Option τ
  queue : Queue (Event τ π)

structure Timers (τ π : Type*) extends Timing τ π where
  list : List τ
  queue : List (Event τ π)

/-- `etimer_request_poll` -/
def Memory.requestPoll (s : Memory τ π) : Memory τ π := { s with needspoll := true }

/-! ## The functions of etimer.c -/

section

variable [DecidableEq τ] [DecidableEq π]

/-- The loop of `update_time`. -/
def distLoop (s : Memory τ π) : ℕ → Option τ → UInt32 → Option UInt32
  | 0, _, _ => none
  | _ + 1, none, tdist => some tdist
  | fuel + 1, some t, tdist =>
    distLoop s fuel (s.next t)
      (if (s.timer t).dist s.count < tdist then (s.timer t).dist s.count else tdist)

def updateTime (fuel : ℕ) (s : Memory τ π) : Option (Memory τ π) :=
  match s.timerlist with
  | none => some { s with nextExpiration := 0 }
  | some t =>
    (distLoop s fuel (s.next t) ((s.timer t).dist s.count)).map fun tdist =>
      { s with nextExpiration := s.count + tdist }

/-- The expired timer `t`, posted into `queue`, marked and taken off the list behind `u`. -/
def takeOff (s : Memory τ π) (u : Option τ) (t : τ) (queue : Queue (Event τ π)) : Memory τ π :=
  let s := { s with queue := queue, p := Function.update s.p t none }
  let s :=
    match u with
    | some u => { s with next := Function.update s.next u (s.next t) }
    | none => { s with timerlist := s.next t }
  { s with next := Function.update s.next t none }

/-- The poll handler of the event timer process from the item `t` on, `u` the item before it. -/
def pollLoop : ℕ → Memory τ π → Option τ → Option τ → Option (Memory τ π)
  | 0, _, _, _ => none
  | _ + 1, s, _, none => some s
  | fuel + 1, s, u, some t =>
    if timerExpired s.count (s.timer t) then
      match processPost s.queue (timerEvent (s.p t) t) with
      | some queue =>
        -- goto again
        (updateTime fuel (takeOff s u t queue)).bind fun s => pollLoop fuel s none s.timerlist
      | none => pollLoop fuel s.requestPoll (some t) (s.next t)
    else pollLoop fuel s (some t) (s.next t)

/-- `do_poll`, for the event timer process. -/
def doPoll (fuel : ℕ) (s : Memory τ π) : Option (Memory τ π) :=
  if s.needspoll then pollLoop fuel { s with needspoll := false } none s.timerlist else some s

/-- The first loop of the exit handler: the timers of `p` at the head. -/
def dropLoop (p : π) : ℕ → Memory τ π → Option (Memory τ π)
  | 0, _ => none
  | fuel + 1, s =>
    match s.timerlist with
    | none => some s
    | some t => if s.p t = some p then dropLoop p fuel { s with timerlist := s.next t } else some s

/-- The second loop: the timers of `p` behind `t`. -/
def exitedLoop (p : π) : ℕ → Memory τ π → τ → Option (Memory τ π)
  | 0, _, _ => none
  | fuel + 1, s, t =>
    match s.next t with
    | none => some s
    | some u =>
      if s.p u = some p then exitedLoop p fuel { s with next := Function.update s.next t (s.next u) } t
      else exitedLoop p fuel s u

/-- The event timer process told that `p` has exited. -/
def exited (fuel : ℕ) (s : Memory τ π) (p : π) : Option (Memory τ π) :=
  (dropLoop p fuel s).bind fun s =>
    match s.timerlist with
    | none => some s
    | some t => exitedLoop p fuel s t

/-- Whether `add_timer` meets the timer on the list. -/
def onList (s : Memory τ π) (timer : τ) : ℕ → Option τ → Option Bool
  | 0, _ => none
  | _ + 1, none => some false
  | fuel + 1, some t => if t = timer then some true else onList s timer fuel (s.next t)

/-- `add_timer`, called by the process `current`. -/
def addTimer (fuel : ℕ) (current : π) (s : Memory τ π) (timer : τ) : Option (Memory τ π) :=
  let s := s.requestPoll
  let s' := { s with p := Function.update s.p timer (some current) }
  let fresh :=
    updateTime fuel { s' with next := Function.update s.next timer s.timerlist, timerlist := some timer }
  match s.p timer with
  | none => fresh
  | some _ =>
    (onList s timer fuel s.timerlist).bind fun
      | true => updateTime fuel s'
      | false => fresh

/-- `timer_set` -/
def timerSet (now interval : UInt32) : Timer := ⟨now, interval⟩

/-- `timer_reset` -/
def timerReset (t : Timer) : Timer := ⟨t.start + t.interval, t.interval⟩

/-- `timer_restart` -/
def timerRestart (now : UInt32) (t : Timer) : Timer := ⟨now, t.interval⟩

def Timing.setTimer (s : Timing τ π) (t : τ) (v : Timer) : Timing τ π :=
  { s with timer := Function.update s.timer t v }

def etimerSet (fuel : ℕ) (current : π) (s : Memory τ π) (t : τ) (interval : UInt32) :
    Option (Memory τ π) :=
  addTimer fuel current { s with toTiming := s.setTimer t (timerSet s.count interval) } t

def etimerReset (fuel : ℕ) (current : π) (s : Memory τ π) (t : τ) : Option (Memory τ π) :=
  addTimer fuel current { s with toTiming := s.setTimer t (timerReset (s.timer t)) } t

def etimerRestart (fuel : ℕ) (current : π) (s : Memory τ π) (t : τ) : Option (Memory τ π) :=
  addTimer fuel current { s with toTiming := s.setTimer t (timerRestart s.count (s.timer t)) } t

def etimerAdjust (fuel : ℕ) (s : Memory τ π) (t : τ) (timediff : UInt32) : Option (Memory τ π) :=
  updateTime fuel { s with
    toTiming := s.setTimer t ⟨(s.timer t).start + timediff, (s.timer t).interval⟩ }

def etimerExpired (s : Memory τ π) (t : τ) : Bool := (s.p t).isNone

def etimerPending (s : Memory τ π) : Bool := s.timerlist.isSome

def etimerNextExpirationTime (s : Memory τ π) : UInt32 :=
  if etimerPending s then s.nextExpiration else 0

/-- The loop of `etimer_stop`: the item before `et`. -/
def stopLoop (s : Memory τ π) (et : τ) : ℕ → Option τ → Option (Option τ)
  | 0, _ => none
  | _ + 1, none => some none
  | fuel + 1, some t => if s.next t = some et then some (some t) else stopLoop s et fuel (s.next t)

def etimerStop (fuel : ℕ) (s : Memory τ π) (et : τ) : Option (Memory τ π) :=
  let unlinked :=
    if s.timerlist = some et then updateTime fuel { s with timerlist := s.next et }
    else
      (stopLoop s et fuel s.timerlist).bind fun
        | none => some s
        | some t => updateTime fuel { s with next := Function.update s.next t (s.next et) }
  unlinked.map fun s =>
    { s with next := Function.update s.next et none, p := Function.update s.p et none }

/-! ## The clock interrupt -/

/-- `MAX_TICKS` -/
def maxTicks : UInt32 := 0x7fffffff

/-- One clock tick of the timer interrupt. -/
def tick (s : Memory τ π) : Memory τ π :=
  let s := { s with count := s.count + 1 }
  if etimerPending s && decide (etimerNextExpirationTime s - s.count - 1 > maxTicks) then s.requestPoll
  else s

/-! ## The same on plain lists -/

/-- What `update_time` computes for the timers of a list. -/
def nextOf (c : Timing τ π) : List τ → UInt32
  | [] => 0
  | t :: ts => c.count + ts.foldl
      (fun d t => if (c.timer t).dist c.count < d then (c.timer t).dist c.count else d)
      ((c.timer t).dist c.count)

/-- The timer has expired by now. -/
def Timing.due (c : Timing τ π) (t : τ) : Bool := timerExpired c.count (c.timer t)

namespace Timers

def updateTime (a : Timers τ π) : Timers τ π := { a with nextExpiration := nextOf a.toTiming a.list }

def setTimer (a : Timers τ π) (t : τ) (v : Timer) : Timers τ π :=
  { a with toTiming := a.toTiming.setTimer t v }

def addTimer (current : π) (a : Timers τ π) (t : τ) : Timers τ π :=
  updateTime { a with
    needspoll := true
    p := Function.update a.p t (some current)
    list := if t ∈ a.list then a.list else t :: a.list }

def etimerStop (a : Timers τ π) (t : τ) : Timers τ π :=
  let a := if t ∈ a.list then updateTime { a with list := a.list.erase t } else a
  { a with p := Function.update a.p t none }

def exited (a : Timers τ π) (p : π) : Timers τ π :=
  { a with list := a.list.filter fun t => a.p t ≠ some p }

/-- The timers whose events a poll posts: the expired ones, as far as the queue has room. -/
def posted (a : Timers τ π) : List τ :=
  (a.list.filter a.due).take (numEvents - a.queue.length)

def handlePoll (a : Timers τ π) : Timers τ π where
  timer := a.timer
  p t := if t ∈ a.posted then none else a.p t
  count := a.count
  list := a.list.filter (· ∉ a.posted)
  queue := a.queue ++ a.posted.map fun t => timerEvent (a.p t) t
  needspoll := a.needspoll || (a.list.filter (· ∉ a.posted)).any a.due
  nextExpiration :=
    if a.posted = [] then a.nextExpiration else nextOf a.toTiming (a.list.filter (· ∉ a.posted))

def doPoll (a : Timers τ π) : Timers τ π :=
  if a.needspoll then handlePoll { a with needspoll := false } else a

def tick (a : Timers τ π) : Timers τ π :=
  let a := { a with count := a.count + 1 }
  if a.list ≠ [] ∧ a.nextExpiration - a.count - 1 > maxTicks then { a with needspoll := true } else a

end Timers

/-- The memory holds the timers of `a`: its list is a chain, its ring the queue, and no timer on
the list is marked as expired. -/
structure Rep (s : Memory τ π) (a : Timers τ π) : Prop where
  timing : s.toTiming = a.toTiming
  chain : Chain s.next s.timerlist a.list
  queue : s.queue.queued = a.queue
  owned : ∀ t ∈ a.list, a.p t ≠ none

end

/-! ## One lemma for each function -/

section

variable {s s' : Memory τ π} {a : Timers τ π} {t : τ} {xs ys : List τ} {fuel : ℕ}

theorem succ_of_lt {n : ℕ} (h : n < fuel) : ∃ k, fuel = k + 1 :=
  Nat.exists_eq_succ_of_ne_zero (Nat.ne_of_gt (Nat.zero_lt_of_lt h))

theorem distLoop_eq {p : Option τ} (hs : Chain s.next p xs) (hf : xs.length < fuel) (d : UInt32) :
    distLoop s fuel p d = some (xs.foldl (fun d t =>
      if (s.timer t).dist s.count < d then (s.timer t).dist s.count else d) d) := by
  induction xs generalizing p fuel d with
  | nil =>
    obtain ⟨fuel, rfl⟩ := succ_of_lt hf
    have hn : p = none := hs
    simp [distLoop, hn]
  | cons q xs ih =>
    obtain ⟨fuel, rfl⟩ := succ_of_lt hf
    obtain ⟨rfl, hs⟩ := hs
    simp only [distLoop, ih hs (Nat.lt_of_succ_lt_succ hf), List.foldl_cons]

theorem updateTime_eq (hs : Chain s.next s.timerlist xs) (hf : xs.length < fuel) :
    updateTime fuel s = some { s with nextExpiration := nextOf s.toTiming xs } := by
  unfold updateTime
  cases xs with
  | nil =>
    have hn : s.timerlist = none := hs
    simp [hn, nextOf]
  | cons q xs =>
    rw [hs.1]
    simp only [distLoop_eq hs.2 (Nat.lt_of_succ_lt hf), Option.map_some, nextOf]

theorem updateTime_refines (h : Rep s a) (hf : a.list.length < fuel) :
    ∃ s', updateTime fuel s = some s' ∧ Rep s' a.updateTime :=
  ⟨_, updateTime_eq h.chain hf, by rw [h.timing]; rfl, h.chain, h.queue, h.owned⟩

variable [DecidableEq τ]

theorem onList_eq {p : Option τ} (hs : Chain s.next p xs) (hf : xs.length < fuel) :
    onList s t fuel p = some (decide (t ∈ xs)) := by
  induction xs generalizing p fuel with
  | nil =>
    obtain ⟨fuel, rfl⟩ := succ_of_lt hf
    have hn : p = none := hs
    simp [onList, hn]
  | cons q xs ih =>
    obtain ⟨fuel, rfl⟩ := succ_of_lt hf
    obtain ⟨rfl, hs⟩ := hs
    by_cases hq : q = t
    · simp [onList, hq]
    · simp [onList, hq, ih hs (Nat.lt_of_succ_lt_succ hf), Ne.symm hq]

omit [DecidableEq τ] in
theorem Rep.p_eq (h : Rep s a) : s.p = a.p := by rw [h.timing]

theorem addTimer_refines (h : Rep s a) (hf : a.list.length + 1 < fuel) (current : π) (t : τ) :
    ∃ s', addTimer fuel current s t = some s' ∧ Rep s' (a.addTimer current t) := by
  -- with the owner set and the poll asked for, and the timer where it was or at the head
  have hold : t ∈ a.list → Rep { s.requestPoll with p := Function.update s.p t (some current) }
      { a with needspoll := true, p := Function.update a.p t (some current) } := fun _ =>
    { timing := by simp [Memory.requestPoll, h.timing]
      chain := h.chain
      queue := h.queue
      owned := fun u hu => by
        rcases eq_or_ne u t with rfl | hut
        · simp
        · simpa [hut] using h.owned u hu }
  have hnew : t ∉ a.list → Rep { s.requestPoll with
        p := Function.update s.p t (some current)
        next := Function.update s.next t s.timerlist
        timerlist := some t }
      { a with
        needspoll := true
        p := Function.update a.p t (some current)
        list := t :: a.list } := fun ht =>
    { timing := by simp [Memory.requestPoll, h.timing]
      chain := ⟨rfl, by simpa using Seg.update h.chain ht⟩
      queue := h.queue
      owned := fun u hu => by
        rcases eq_or_ne u t with rfl | hut
        · simp
        · simpa [hut] using h.owned u (List.mem_of_ne_of_mem hut hu) }
  have hmem := onList_eq (s := s.requestPoll) (t := t) h.chain (Nat.lt_of_succ_lt hf)
  rw [Memory.requestPoll] at hmem
  by_cases ht : t ∈ a.list
  · obtain ⟨s', hs', h'⟩ := updateTime_refines (hold ht) (Nat.lt_of_succ_lt hf)
    refine ⟨s', ?_, by simpa [Timers.addTimer, ht] using h'⟩
    obtain ⟨q, hq⟩ := Option.ne_none_iff_exists'.mp (h.p_eq ▸ h.owned t ht)
    simp only [ht, decide_true] at hmem
    simpa only [addTimer, Memory.requestPoll, hq, hmem, Option.bind_some] using hs'
  · obtain ⟨s', hs', h'⟩ := updateTime_refines (hnew ht) hf
    refine ⟨s', ?_, by simpa [Timers.addTimer, ht] using h'⟩
    simp only [ht, decide_false] at hmem
    cases hq : s.p t with
    | none => simpa only [addTimer, Memory.requestPoll, hq] using hs'
    | some q =>
      simpa only [addTimer, Memory.requestPoll, hq, hmem, Option.bind_some] using hs'

theorem stopLoop_of_notMem {p : Option τ} (hs : Chain s.next p xs) (ht : t ∉ xs.tail)
    (hf : xs.length < fuel) : stopLoop s t fuel p = some none := by
  induction xs generalizing p fuel with
  | nil =>
    obtain ⟨fuel, rfl⟩ := succ_of_lt hf
    have hn : p = none := hs
    simp [stopLoop, hn]
  | cons q xs ih =>
    obtain ⟨fuel, rfl⟩ := succ_of_lt hf
    obtain ⟨rfl, hs⟩ := hs
    have hne : s.next q ≠ some t := by
      rw [Chain.head_eq hs]
      exact fun h => ht (List.mem_of_head? h)
    simp only [stopLoop, hne, if_false]
    exact ih hs (fun h => ht (List.mem_of_mem_tail h)) (Nat.lt_of_succ_lt_succ hf)

theorem stopLoop_of_mem {p : Option τ} {u : τ} (hs : Chain s.next p (xs ++ u :: t :: ys))
    (hf : (xs ++ u :: t :: ys).length < fuel) : stopLoop s t fuel p = some (some u) := by
  induction xs generalizing p fuel with
  | nil =>
    obtain ⟨fuel, rfl⟩ := succ_of_lt hf
    obtain ⟨rfl, hu, -⟩ := hs
    simp [stopLoop, hu]
  | cons q xs ih =>
    obtain ⟨fuel, rfl⟩ := succ_of_lt hf
    obtain ⟨rfl, hs⟩ := hs
    have hne : s.next q ≠ some t := Chain.head_ne hs
    simp only [stopLoop, hne, if_false]
    exact ih hs (Nat.lt_of_succ_lt_succ hf)

/-- Clearing the words of a timer that is not on the list. -/
theorem Rep.clear (h : Rep s a) (ht : t ∉ a.list) :
    Rep { s with next := Function.update s.next t none, p := Function.update s.p t none }
      { a with p := Function.update a.p t none } where
  timing := by simp [h.timing]
  chain := Seg.update h.chain ht
  queue := h.queue
  owned u hu := by
    have hut : u ≠ t := ne_of_mem_of_not_mem hu ht
    simpa [hut] using h.owned u hu

/-- Pointing past a timer of the list, wherever it is. -/
theorem Rep.erase (h : Rep s a) (next : τ → Option τ) (timerlist : Option τ)
    (hch : Chain next timerlist (a.list.erase t)) :
    Rep { s with next := next, timerlist := timerlist } { a with list := a.list.erase t } where
  timing := h.timing
  chain := hch
  queue := h.queue
  owned u hu := h.owned u (List.mem_of_mem_erase hu)

theorem etimerStop_refines (h : Rep s a) (hf : a.list.length < fuel) (t : τ) :
    ∃ s', etimerStop fuel s t = some s' ∧ Rep s' (a.etimerStop t) := by
  have hnd := Chain.nodup h.chain
  -- the timer is off the list after the first part
  have hdone : ∀ s', Rep s' (Timers.updateTime { a with list := a.list.erase t }) →
      t ∈ a.list →
      Rep { s' with next := Function.update s'.next t none, p := Function.update s'.p t none }
        (a.etimerStop t) := by
    intro s' h' ht
    have := h'.clear (t := t) hnd.not_mem_erase
    simpa [Timers.etimerStop, ht] using this
  have hlen : (a.list.erase t).length < fuel := Nat.lt_of_le_of_lt List.length_erase_le hf
  by_cases ht : t ∈ a.list
  · obtain ⟨pre, post, hpre, hl, herase⟩ := List.exists_erase_eq ht
    rcases List.eq_nil_or_concat pre with rfl | ⟨pre, u, rfl⟩
    · have hch := h.chain
      rw [hl] at hch
      have hhead : s.timerlist = some t := hch.1
      have hr := h.erase (t := t) s.next (s.next t) (by
        rw [herase]
        exact hch.2)
      obtain ⟨s', hs', h'⟩ := updateTime_refines hr hlen
      exact ⟨_, by simp only [etimerStop, hhead, if_true, hs', Option.map_some],
        hdone s' h' ht⟩
    · rw [List.concat_eq_append] at hl herase
      have hch : Chain s.next s.timerlist (pre ++ u :: t :: post) := by
        have := h.chain
        rw [hl] at this
        simpa using this
      have hhead : s.timerlist ≠ some t := Chain.head_ne hch
      have hr := h.erase (t := t) (Function.update s.next u (s.next t)) s.timerlist (by
          rw [herase]
          simpa using hch.skip)
      obtain ⟨s', hs', h'⟩ := updateTime_refines hr hlen
      have hloop : stopLoop s t fuel s.timerlist = some (some u) := stopLoop_of_mem hch (by
        have := hf
        rw [hl] at this
        simpa using this)
      exact ⟨_, by simp only [etimerStop, hhead, if_false, hloop, Option.bind_some,
        hs', Option.map_some], hdone s' h' ht⟩
  · have hhead : s.timerlist ≠ some t := by
      rw [Chain.head_eq h.chain]
      exact fun hh => ht (List.mem_of_head? hh)
    have hloop := stopLoop_of_notMem h.chain (fun hh => ht (List.mem_of_mem_tail hh)) hf
    refine ⟨_, by simp only [etimerStop, hhead, if_false, hloop, Option.bind_some,
      Option.map_some]; rfl, ?_⟩
    simpa [Timers.etimerStop, ht] using h.clear ht

/-! ## The exit of a process -/

section

variable [DecidableEq π]

omit [DecidableEq τ] in
theorem dropLoop_eq (p : π) (hs : Chain s.next s.timerlist xs) (hf : xs.length < fuel) :
    ∃ h, dropLoop p fuel s = some { s with timerlist := h } ∧
      Chain s.next h (xs.dropWhile fun t => s.p t = some p) := by
  induction xs generalizing s fuel with
  | nil =>
    obtain ⟨fuel, rfl⟩ := succ_of_lt hf
    have hn : s.timerlist = none := hs
    exact ⟨none, by simp only [dropLoop, hn]; rw [← hn], rfl⟩
  | cons q xs ih =>
    obtain ⟨fuel, rfl⟩ := succ_of_lt hf
    obtain ⟨hh, hs'⟩ := id hs
    by_cases hq : s.p q = some p
    · obtain ⟨h, hdrop, hch⟩ := ih (s := { s with timerlist := s.next q }) hs'
        (Nat.lt_of_succ_lt_succ hf)
      exact ⟨h, by simp only [dropLoop, hh, hq, if_true, hdrop], by simpa [hq] using hch⟩
    · refine ⟨s.timerlist, by simp only [dropLoop, hh, hq, if_false]; rw [← hh], ?_⟩
      simpa [hq] using hs

theorem exitedLoop_eq (p : π) {t : τ} (hs : Chain s.next s.timerlist (xs ++ t :: ys))
    (hf : ys.length < fuel) :
    ∃ next, exitedLoop p fuel s t = some { s with next := next } ∧
      Chain next s.timerlist (xs ++ t :: ys.filter fun u => s.p u ≠ some p) := by
  induction ys generalizing s xs t fuel with
  | nil =>
    obtain ⟨fuel, rfl⟩ := succ_of_lt hf
    have hn : s.next t = none := Chain.next_eq hs
    exact ⟨s.next, by simp only [exitedLoop, hn], by simpa using hs⟩
  | cons u ys ih =>
    obtain ⟨fuel, rfl⟩ := succ_of_lt hf
    have hn : s.next t = some u := Chain.next_eq hs
    by_cases hu : s.p u = some p
    · -- taken off: `t` now points past it, and the loop stays at `t`
      obtain ⟨next, hloop, hch⟩ := ih (s := { s with next := Function.update s.next t (s.next u) })
        hs.skip (Nat.lt_of_succ_lt_succ hf)
      exact ⟨next, by simp only [exitedLoop, hn, hu, if_true, hloop], by simpa [hu] using hch⟩
    · have hs' : Chain s.next s.timerlist ((xs ++ [t]) ++ u :: ys) := by simpa using hs
      obtain ⟨next, hloop, hch⟩ := ih hs' (Nat.lt_of_succ_lt_succ hf)
      exact ⟨next, by simp only [exitedLoop, hn, hu, if_false, hloop], by simpa [hu] using hch⟩

omit [DecidableEq τ] in
/-- The first loop has seen everything up to the first timer that stays. -/
theorem filter_eq_dropWhile (q : τ → Bool) (xs : List τ) :
    xs.filter (fun u => !q u) =
      match xs.dropWhile q with
      | [] => []
      | t :: ys => t :: ys.filter fun u => !q u := by
  induction xs with
  | nil => rfl
  | cons x xs ih =>
    by_cases hx : q x
    · rw [List.dropWhile_cons_of_pos hx, ← ih, List.filter_cons_of_neg (by simp [hx])]
    · rw [List.dropWhile_cons_of_neg hx, List.filter_cons_of_pos (by simpa using hx)]

/-- A process that exits takes exactly its timers off the list. -/
theorem exited_refines (h : Rep s a) (hf : a.list.length < fuel) (p : π) :
    ∃ s', exited fuel s p = some s' ∧ Rep s' (a.exited p) := by
  obtain ⟨hd, hdrop, hch⟩ := dropLoop_eq p h.chain hf
  have hfil : ∀ t, (decide (a.p t ≠ some p)) = !decide (s.p t = some p) := fun t => by
    rw [h.p_eq]
    simp
  have howned : ∀ t ∈ (a.exited p).list, (a.exited p).p t ≠ none := fun t ht =>
    h.owned t (List.mem_of_mem_filter ht)
  cases hxs : a.list.dropWhile fun t => s.p t = some p with
  | nil =>
    rw [hxs] at hch
    have hnil : (a.exited p).list = [] := by
      simp only [Timers.exited, hfil]
      rw [filter_eq_dropWhile, hxs]
    refine ⟨{ s with timerlist := hd }, ?_, h.timing, ?_, h.queue, howned⟩
    · have hn : hd = none := hch
      simp only [exited, hdrop, Option.bind_some, hn]
    · rw [hnil]
      exact hch
  | cons t ys =>
    rw [hxs] at hch
    have hlen : ys.length < fuel := by
      have := (List.dropWhile_suffix (l := a.list) fun t => decide (s.p t = some p)).length_le
      rw [hxs, List.length_cons] at this
      omega
    obtain ⟨next, hloop, hch'⟩ := exitedLoop_eq p (s := { s with timerlist := hd })
      (show Chain _ _ ([] ++ t :: ys) from hch) hlen
    refine ⟨{ s with timerlist := hd, next := next }, ?_, h.timing, ?_, h.queue, howned⟩
    · simp only [exited, hdrop, Option.bind_some, hch.1]
      rw [← hch.1]
      exact hloop
    · have hl : (a.exited p).list = t :: ys.filter fun u => !decide (s.p u = some p) := by
        simp only [Timers.exited, hfil]
        rw [filter_eq_dropWhile, hxs]
      rw [hl]
      simpa using hch'

end

/-! ## One poll of the event timer process -/

omit [DecidableEq τ] in
theorem nextOf_congr {c d : Timing τ π} (ht : c.timer = d.timer) (hc : c.count = d.count)
    (l : List τ) : nextOf c l = nextOf d l := by
  cases l with
  | nil => rfl
  | cons t l => simp only [nextOf, ht, hc]

namespace Timers

/-- One expired timer taken off the list, with its event posted. -/
def deliver (a : Timers τ π) (t : τ) : Timers τ π :=
  updateTime { a with
    queue := a.queue ++ [timerEvent (a.p t) t]
    p := Function.update a.p t none
    list := a.list.erase t }

@[simp] theorem deliver_list (a : Timers τ π) (t : τ) : (a.deliver t).list = a.list.erase t := rfl

@[simp] theorem deliver_queue (a : Timers τ π) (t : τ) :
    (a.deliver t).queue = a.queue ++ [timerEvent (a.p t) t] := rfl

@[simp] theorem deliver_p (a : Timers τ π) (t : τ) :
    (a.deliver t).p = Function.update a.p t none := rfl

@[simp] theorem deliver_due (a : Timers τ π) (t u : τ) : (a.deliver t).due u = a.due u := rfl

omit [DecidableEq τ] in
theorem posted_of_full (h : a.queue.length = numEvents) : a.posted = [] := by
  simp [posted, h]

omit [DecidableEq τ] in
theorem posted_of_not_due (h : ∀ t ∈ a.list, a.due t = false) : a.posted = [] := by
  have hnil : a.list.filter a.due = [] := List.filter_eq_nil_iff.mpr fun t ht => by simp [h t ht]
  simp [posted, hnil]

/-- A poll that can post nothing changes nothing, once it has asked for the next one. -/
theorem handlePoll_of_posted_nil (hp : a.posted = [])
    (hn : ∀ t ∈ a.list, a.due t → a.needspoll) : a.handlePoll = a := by
  have hany : (a.needspoll || a.list.any a.due) = a.needspoll := by
    rw [Bool.or_eq_left_iff_imp, List.any_eq_true]
    rintro ⟨t, ht, hd⟩
    exact hn t ht hd
  simp only [handlePoll, hp, List.not_mem_nil, not_false_eq_true, decide_true, List.filter_true,
    if_false, if_true, hany, List.map_nil, List.append_nil]

/-- With a full queue the poll only asks for the next one. -/
theorem handlePoll_request (hq : a.queue.length = numEvents) (ht : t ∈ a.list) (hd : a.due t) :
    handlePoll { a with needspoll := true } = a.handlePoll := by
  have hp : a.posted = [] := posted_of_full hq
  have hp' : posted { a with needspoll := true } = [] := posted_of_full hq
  have hany : a.list.any a.due = true := List.any_eq_true.mpr ⟨t, ht, hd⟩
  simp only [handlePoll, hp, hp', List.not_mem_nil, not_false_eq_true, decide_true,
    List.filter_true, hany, Bool.or_true, Bool.true_or, if_true]

/-- The first expired timer of the list is the first to be posted. -/
theorem posted_eq_cons (hl : a.list = xs ++ t :: ys)
    (hxs : ∀ x ∈ xs, a.due x = false) (ht : a.due t) (hq : a.queue.length < numEvents) :
    a.posted = t :: (a.deliver t).posted := by
  have htx : t ∉ xs := fun hmem => by simp [hxs t hmem] at ht
  have hfx : xs.filter a.due = [] := List.filter_eq_nil_iff.mpr fun x hx => by simp [hxs x hx]
  have herase : a.list.erase t = xs ++ ys := by
    rw [hl, List.erase_append_right _ htx, List.erase_cons_head]
  have hbefore : a.list.filter a.due = t :: ys.filter a.due := by
    rw [hl, List.filter_append, hfx, List.filter_cons_of_pos ht, List.nil_append]
  have hafter : (a.deliver t).list.filter (a.deliver t).due = ys.filter a.due := by
    rw [deliver_list, herase, List.filter_append]
    exact (congrArg (· ++ _) hfx).trans (List.nil_append _)
  have hroom : numEvents - a.queue.length = numEvents - (a.deliver t).queue.length + 1 := by
    rw [deliver_queue, List.length_append, List.length_singleton]
    omega
  rw [posted, posted, hbefore, hafter, hroom, List.take_succ_cons]

omit [DecidableEq τ] in
theorem mem_of_mem_posted (h : t ∈ a.posted) : t ∈ a.list :=
  List.mem_of_mem_filter (List.mem_of_mem_take h)

/-- The poll goes on as if it had started after the first timer was taken off. -/
theorem handlePoll_deliver (hnd : a.list.Nodup) (hp : a.posted = t :: (a.deliver t).posted) :
    (a.deliver t).handlePoll = a.handlePoll := by
  have hne : ∀ u ∈ (a.deliver t).posted, u ≠ t := fun u hu =>
    ((hnd.mem_erase_iff).mp (mem_of_mem_posted hu)).1
  have hlist : a.list.filter (· ∉ t :: (a.deliver t).posted) =
      (a.list.erase t).filter (· ∉ (a.deliver t).posted) := by
    rw [hnd.erase_eq_filter, List.filter_filter]
    refine List.filter_congr fun u _ => ?_
    by_cases hu : u = t <;> simp [hu]
  have hp' : (fun u => if u ∈ (a.deliver t).posted then none else (a.deliver t).p u) =
      fun u => if u ∈ t :: (a.deliver t).posted then none else a.p u := by
    funext u
    by_cases hu : u = t <;> simp [hu]
  have hqueue : ((a.deliver t).posted.map fun u => timerEvent ((a.deliver t).p u) u) =
      (a.deliver t).posted.map fun u => timerEvent (a.p u) u :=
    List.map_congr_left fun u hu => by rw [deliver_p, Function.update_of_ne (hne u hu)]
  have hnext : ∀ l, nextOf (a.deliver t).toTiming l = nextOf a.toTiming l := nextOf_congr rfl rfl
  have hexp : (if (a.deliver t).posted = [] then (a.deliver t).nextExpiration
      else nextOf a.toTiming ((a.list.erase t).filter (· ∉ (a.deliver t).posted))) =
      nextOf a.toTiming ((a.list.erase t).filter (· ∉ (a.deliver t).posted)) := by
    split
    · rename_i hnil
      simp only [hnil, List.not_mem_nil, not_false_eq_true, decide_true, List.filter_true]
      exact nextOf_congr rfl rfl (a.list.erase t)
    · rfl
  simp only [handlePoll, hp, hlist, hp', hqueue, hnext, hexp, deliver_list, deliver_queue,
    List.map_cons, List.append_assoc, List.singleton_append, reduceCtorEq, if_false]
  rfl

end Timers

/-- The memory after one timer has been posted and unlinked. -/
theorem deliver_refines (h : Rep s a) (hl : a.list = xs ++ t :: ys)
    (hf : a.list.length < fuel) {queue : Queue (Event τ π)}
    (hq : queue.queued = a.queue ++ [timerEvent (a.p t) t]) :
    ∃ s', updateTime fuel (takeOff s xs.getLast? t queue) = some s' ∧ Rep s' (a.deliver t) := by
  have hnd := Chain.nodup h.chain
  have hch := h.chain
  rw [hl] at hch
  have htx : t ∉ xs := fun hmem =>
    (List.nodup_append.mp (hl ▸ hnd)).2.2 t hmem t List.mem_cons_self rfl
  have herase : a.list.erase t = xs ++ ys := by
    rw [hl, List.erase_append_right _ htx, List.erase_cons_head]
  have howned : ∀ u ∈ a.list.erase t, Function.update a.p t none u ≠ none := fun u hu => by
    rw [Function.update_of_ne (hnd.mem_erase_iff.mp hu).1]
    exact h.owned u (List.mem_of_mem_erase hu)
  have hlen : (a.list.erase t).length < fuel := Nat.lt_of_le_of_lt List.length_erase_le hf
  rcases List.eq_nil_or_concat xs with rfl | ⟨xs, u, rfl⟩
  · refine updateTime_refines (a := { a with
      queue := a.queue ++ [timerEvent (a.p t) t]
      p := Function.update a.p t none
      list := a.list.erase t }) ⟨?_, ?_, hq, howned⟩ hlen
    · simp [takeOff, h.timing]
    · rw [herase]
      exact hch.unlink_head
  · rw [List.concat_eq_append] at hch herase ⊢
    refine updateTime_refines (a := { a with
      queue := a.queue ++ [timerEvent (a.p t) t]
      p := Function.update a.p t none
      list := a.list.erase t }) ⟨?_, ?_, ?_, howned⟩ hlen
    · simp [takeOff, h.timing]
    · rw [herase]
      have hch' : Chain s.next s.timerlist (xs ++ u :: t :: ys) := by simpa using hch
      simpa [takeOff] using hch'.unlink
    · simpa [takeOff] using hq

/-- The loop of the poll handler, from any place of the list: `xs` has been passed, because its
timers had not expired or because the queue was full. Every restart finds the list one shorter,
and what it passes again it passes for the same reason. -/
theorem pollLoop_eq (fuel : ℕ) (h : Rep s a) (xs ys : List τ) (hl : a.list = xs ++ ys)
    (hxs : ∀ x ∈ xs, a.due x → a.queue.length = numEvents ∧ a.needspoll)
    (hf : ys.length + a.list.length * (a.list.length + 1) < fuel) :
    ∃ s', pollLoop fuel s xs.getLast? ys.head? = some s' ∧ Rep s' a.handlePoll := by
  induction fuel generalizing s a xs ys with
  | zero => exact absurd hf (Nat.not_lt_zero _)
  | succ fuel ih =>
    cases ys with
    | nil =>
      rw [List.append_nil] at hl
      have hnil : a.posted = [] := by
        by_cases hq : a.queue.length = numEvents
        · exact Timers.posted_of_full hq
        · refine Timers.posted_of_not_due fun t ht => ?_
          rw [hl] at ht
          exact Bool.eq_false_iff.mpr fun hd => hq (hxs t ht hd).1
      refine ⟨s, rfl, ?_⟩
      rw [Timers.handlePoll_of_posted_nil hnil fun t ht hd => (hxs t (hl ▸ ht) hd).2]
      exact h
    | cons t ys =>
      have hch := h.chain
      rw [hl] at hch
      have hl' : a.list = (xs ++ [t]) ++ ys := by rw [hl, List.append_assoc, List.singleton_append]
      have hnext : s.next t = ys.head? := Chain.next_eq hch
      have hdue : timerExpired s.count (s.timer t) = a.due t := by rw [h.timing]; rfl
      have hn : a.list.length = xs.length + ys.length + 1 := by rw [hl]; simp; omega
      have hf' : ys.length + a.list.length * (a.list.length + 1) < fuel := by
        rw [List.length_cons] at hf
        omega
      cases hd : a.due t with
      | false =>
        have hpass := ih h _ _ hl' (fun x hx hdx => by
          rcases List.mem_append.mp hx with hx | hx
          · exact hxs x hx hdx
          · rw [List.mem_singleton.mp hx, hd] at hdx
            exact absurd hdx Bool.false_ne_true) hf'
        simpa [pollLoop, hdue, hd, hnext] using hpass
      | true =>
        have hpost := processPost_queued s.queue (timerEvent (s.p t) t)
        rw [h.queue, h.p_eq] at hpost
        by_cases hroom : a.queue.length < numEvents
        · -- posted and unlinked: the walk starts again on the rest of the list
          rw [if_pos hroom] at hpost
          obtain ⟨queue, hsome, hq⟩ := Option.map_eq_some_iff.mp hpost
          have hlen : a.list.length < fuel :=
            Nat.lt_of_le_of_lt (Nat.le_mul_of_pos_right _ (Nat.succ_pos _))
              (Nat.lt_of_le_of_lt (Nat.le_add_left _ _) hf')
          obtain ⟨s', hs', h'⟩ := deliver_refines h hl hlen hq
          have hnone : ∀ x ∈ xs, a.due x = false := fun x hx =>
            Bool.eq_false_iff.mpr fun hdx => Nat.ne_of_lt hroom (hxs x hx hdx).1
          have hrest := ih h' [] (a.list.erase t) rfl (fun _ hx => absurd hx List.not_mem_nil)
            (by
              have herase := List.length_erase_of_mem (show t ∈ a.list by rw [hl]; simp)
              rw [Timers.deliver_list, herase, hn, Nat.add_sub_cancel]
              rw [hn] at hf'
              generalize xs.length + ys.length = m at hf' ⊢
              have hmul : (m + 1 + 1) * (m + 1) = m * (m + 1) + 2 * (m + 1) := Nat.add_mul m 2 (m + 1)
              rw [Nat.mul_comm] at hf'
              omega)
          rw [Timers.handlePoll_deliver (Chain.nodup h.chain)
            (Timers.posted_eq_cons hl hnone hd hroom)] at hrest
          obtain ⟨s'', hs'', h''⟩ := hrest
          refine ⟨s'', ?_, h''⟩
          have hhead : (a.list.erase t).head? = s'.timerlist := (Chain.head_eq h'.chain).symm
          rw [hhead, List.getLast?_nil] at hs''
          simp only [List.head?_cons, pollLoop, hdue, hd, if_true, h.p_eq, hsome, hs',
            Option.bind_some, hs'']
        · -- no room: the timer stays, and another poll is asked for
          have hfull : a.queue.length = numEvents := by
            have := h.queue ▸ s.queue.length_queued_le
            omega
          rw [if_neg hroom, Option.map_eq_none_iff] at hpost
          have hreq : Rep s.requestPoll { a with needspoll := true } :=
            ⟨by simp [Memory.requestPoll, h.timing], h.chain, h.queue, h.owned⟩
          have hpass := ih hreq _ _ hl' (fun x _ _ => ⟨hfull, rfl⟩) hf'
          rw [Timers.handlePoll_request hfull (show t ∈ a.list by rw [hl]; simp) hd] at hpass
          simpa [pollLoop, hdue, hd, h.p_eq, hpost, hnext] using hpass

theorem doPoll_refines (fuel : ℕ) (h : Rep s a)
    (hf : a.list.length + a.list.length * (a.list.length + 1) < fuel) :
    ∃ s', doPoll fuel s = some s' ∧ Rep s' a.doPoll := by
  have hn : s.needspoll = a.needspoll := by rw [h.timing]
  unfold doPoll Timers.doPoll
  rw [hn]
  split
  · have hreset : Rep { s with needspoll := false } { a with needspoll := false } :=
      ⟨by simp [h.timing], h.chain, h.queue, h.owned⟩
    have := pollLoop_eq fuel hreset [] a.list rfl
      (fun _ hx => absurd hx List.not_mem_nil) hf
    rwa [← Chain.head_eq hreset.chain] at this
  · exact ⟨s, rfl, h⟩

omit [DecidableEq τ] in
theorem etimerPending_eq (h : Rep s a) : etimerPending s = decide (a.list ≠ []) := by
  rw [etimerPending, Bool.eq_iff_iff, decide_eq_true_iff, Option.isSome_iff_ne_none, ne_eq,
    Chain.eq_nil_iff h.chain]

omit [DecidableEq τ] in
theorem tick_refines (h : Rep s a) : Rep (tick s) a.tick := by
  have hcount : Rep { s with count := s.count + 1 } { a with count := a.count + 1 } :=
    ⟨by simp [h.timing], h.chain, h.queue, h.owned⟩
  have hreq : Rep (Memory.requestPoll { s with count := s.count + 1 })
      { a with count := a.count + 1, needspoll := true } :=
    ⟨by simp [Memory.requestPoll, h.timing], h.chain, h.queue, h.owned⟩
  have hn : s.nextExpiration = a.nextExpiration := by rw [h.timing]
  have hc : s.count = a.count := by rw [h.timing]
  have hcond : (etimerPending { s with count := s.count + 1 } &&
      decide (etimerNextExpirationTime { s with count := s.count + 1 } - (s.count + 1) - 1 >
        maxTicks)) = true ↔
      a.list ≠ [] ∧ a.nextExpiration - (a.count + 1) - 1 > maxTicks := by
    have hpend := etimerPending_eq hcount
    by_cases hl : a.list = []
    · simp [hpend, hl]
    · simp only [hl, ne_eq, not_false_eq_true, decide_true] at hpend
      simp only [etimerNextExpirationTime, hpend]
      simp [hl, hn, hc]
  unfold tick Timers.tick
  simp only
  by_cases hc : a.list ≠ [] ∧ a.nextExpiration - (a.count + 1) - 1 > maxTicks
  · rw [if_pos (hcond.mpr hc), if_pos hc]
    exact hreq
  · rw [if_neg (fun h => hc (hcond.mp h)), if_neg hc]
    exact hcount

end

/-! ## Runs -/

/-- What the processes, the kernel and the clock do to the timers. -/
inductive TimerOp (τ π : Type*)
  | set (current : π) (t : τ) (interval : UInt32)
  | reset (current : π) (t : τ)
  | restart (current : π) (t : τ)
  | adjust (t : τ) (timediff : UInt32)
  | stop (t : τ)
  | exited (p : π)
  | poll
  | tick
  | queue (op : QueueOp (Event τ π))

section

variable [DecidableEq τ] [DecidableEq π] {s : Memory τ π} {a : Timers τ π} {fuel : ℕ}

/-- A step on the memory, with what the event queue returns. -/
def memStep (fuel : ℕ) (s : Memory τ π) :
    TimerOp τ π → Option (Memory τ π × Option (QueueRet (Event τ π)))
  | .set current t interval => (etimerSet fuel current s t interval).map (·, none)
  | .reset current t => (etimerReset fuel current s t).map (·, none)
  | .restart current t => (etimerRestart fuel current s t).map (·, none)
  | .adjust t timediff => (etimerAdjust fuel s t timediff).map (·, none)
  | .stop t => (etimerStop fuel s t).map (·, none)
  | .exited p => (exited fuel s p).map (·, none)
  | .poll => (doPoll fuel s).map (·, none)
  | .tick => some (tick s, none)
  | .queue op => some ({ s with queue := (queueStep s.queue op).1 }, some (queueStep s.queue op).2)

/-- The same step on plain lists. -/
def Timers.step (a : Timers τ π) : TimerOp τ π → Timers τ π × Option (QueueRet (Event τ π))
  | .set current t interval =>
    ((a.setTimer t (timerSet a.count interval)).addTimer current t, none)
  | .reset current t => ((a.setTimer t (timerReset (a.timer t))).addTimer current t, none)
  | .restart current t =>
    ((a.setTimer t (timerRestart a.count (a.timer t))).addTimer current t, none)
  | .adjust t timediff =>
    ((a.setTimer t ⟨(a.timer t).start + timediff, (a.timer t).interval⟩).updateTime, none)
  | .stop t => (a.etimerStop t, none)
  | .exited p => (a.exited p, none)
  | .poll => (a.doPoll, none)
  | .tick => (a.tick, none)
  | .queue op => ({ a with queue := (fifoStep a.queue op).1 }, some (fifoStep a.queue op).2)

def memRun (fuel : ℕ) : Memory τ π → List (TimerOp τ π) →
    Option (Memory τ π × List (Option (QueueRet (Event τ π))))
  | s, [] => some (s, [])
  | s, op :: ops => do
    let (s, r) ← memStep fuel s op
    let (s, rs) ← memRun fuel s ops
    some (s, r :: rs)

def Timers.run : Timers τ π → List (TimerOp τ π) →
    Timers τ π × List (Option (QueueRet (Event τ π)))
  | a, [] => (a, [])
  | a, op :: ops => ((run (a.step op).1 ops).1, (a.step op).2 :: (run (a.step op).1 ops).2)

omit [DecidableEq τ] [DecidableEq π] in
theorem Rep.setTimer [DecidableEq τ] (h : Rep s a) (t : τ) (v : Timer) :
    Rep { s with toTiming := s.setTimer t v } (a.setTimer t v) :=
  ⟨by simp [Timers.setTimer, h.timing], h.chain, h.queue, h.owned⟩

/-- One step keeps the memory and the lists together, and both return the same. -/
theorem memStep_refines (h : Rep s a) (op : TimerOp τ π)
    (hf : (a.list.length + 1) * (a.list.length + 1) < fuel) :
    ∃ s', memStep fuel s op = some (s', (a.step op).2) ∧ Rep s' (a.step op).1 := by
  have hpoll : a.list.length + a.list.length * (a.list.length + 1) < fuel := by
    rw [Nat.add_mul] at hf
    omega
  have hlen : a.list.length + 1 < fuel :=
    Nat.lt_of_le_of_lt (Nat.le_mul_of_pos_right _ (Nat.succ_pos _)) hf
  have hc : s.count = a.count := by rw [h.timing]
  have ht : s.timer = a.timer := by rw [h.timing]
  cases op with
  | set current t interval =>
    obtain ⟨s', hs', h'⟩ := addTimer_refines (h.setTimer t (timerSet a.count interval)) hlen current t
    exact ⟨s', by rw [memStep, etimerSet, hc, hs']; rfl, h'⟩
  | reset current t =>
    obtain ⟨s', hs', h'⟩ := addTimer_refines (h.setTimer t (timerReset (a.timer t))) hlen current t
    exact ⟨s', by rw [memStep, etimerReset, ht, hs']; rfl, h'⟩
  | restart current t =>
    obtain ⟨s', hs', h'⟩ :=
      addTimer_refines (h.setTimer t (timerRestart a.count (a.timer t))) hlen current t
    exact ⟨s', by rw [memStep, etimerRestart, hc, ht, hs']; rfl, h'⟩
  | adjust t timediff =>
    obtain ⟨s', hs', h'⟩ := updateTime_refines
      (h.setTimer t ⟨(a.timer t).start + timediff, (a.timer t).interval⟩) (Nat.lt_of_succ_lt hlen)
    exact ⟨s', by rw [memStep, etimerAdjust, ht, hs']; rfl, h'⟩
  | stop t =>
    obtain ⟨s', hs', h'⟩ := etimerStop_refines h (Nat.lt_of_succ_lt hlen) t
    exact ⟨s', by rw [memStep, hs']; rfl, h'⟩
  | exited p =>
    obtain ⟨s', hs', h'⟩ := exited_refines h (Nat.lt_of_succ_lt hlen) p
    exact ⟨s', by rw [memStep, hs']; rfl, h'⟩
  | poll =>
    obtain ⟨s', hs', h'⟩ := doPoll_refines fuel h hpoll
    exact ⟨s', by rw [memStep, hs']; rfl, h'⟩
  | tick => exact ⟨_, rfl, tick_refines h⟩
  | queue op =>
    have hq := queueStep_eq_fifo s.queue op
    rw [h.queue] at hq
    exact ⟨{ s with queue := (queueStep s.queue op).1 },
      congrArg (fun r => some (_, some r)) (congrArg Prod.snd hq),
      h.timing, h.chain, congrArg Prod.fst hq, h.owned⟩

/-- No step puts more than one timer on the list. -/
theorem length_step_le (a : Timers τ π) (op : TimerOp τ π) :
    (a.step op).1.list.length ≤ a.list.length + 1 := by
  have hadd : ∀ (b : Timers τ π) (current : π) (t : τ), b.list = a.list →
      (b.addTimer current t).list.length ≤ a.list.length + 1 := by
    intro b current t hb
    simp only [Timers.addTimer, Timers.updateTime, hb]
    split <;> simp
  have hfil : ∀ q : τ → Bool, (a.list.filter q).length ≤ a.list.length + 1 := fun q =>
    Nat.le_succ_of_le (List.length_filter_le q a.list)
  cases op with
  | set current t interval => exact hadd _ current t rfl
  | reset current t => exact hadd _ current t rfl
  | restart current t => exact hadd _ current t rfl
  | adjust t timediff | queue op => exact Nat.le_succ _
  | tick =>
    simp only [Timers.step, Timers.tick]
    split <;> exact Nat.le_succ _
  | stop t =>
    simp only [Timers.step, Timers.etimerStop]
    split
    · exact Nat.le_succ_of_le List.length_erase_le
    · exact Nat.le_succ _
  | exited p => exact hfil _
  | poll =>
    simp only [Timers.step, Timers.doPoll]
    split
    · exact hfil _
    · exact Nat.le_succ _

theorem length_run_le (a : Timers τ π) (ops : List (TimerOp τ π)) :
    (a.run ops).1.list.length ≤ a.list.length + ops.length := by
  induction ops generalizing a with
  | nil => exact Nat.le_refl _
  | cons op ops ih =>
    have h1 := ih (a.step op).1
    have h2 := length_step_le a op
    rw [List.length_cons]
    exact Nat.le_trans h1 (by omega)

theorem memRun_refines_from (fuel : ℕ) (h : Rep s a) (ops : List (TimerOp τ π))
    (hf : (a.list.length + ops.length) * (a.list.length + ops.length) < fuel) :
    ∃ s', memRun fuel s ops = some (s', (a.run ops).2) ∧ Rep s' (a.run ops).1 := by
  induction ops generalizing s a with
  | nil => exact ⟨s, rfl, h⟩
  | cons op ops ih =>
    rw [List.length_cons] at hf
    have hle := length_step_le a op
    obtain ⟨s₁, hs₁, h₁⟩ := memStep_refines h op
      (Nat.lt_of_le_of_lt (Nat.mul_le_mul (by omega) (by omega)) hf)
    obtain ⟨s₂, hs₂, h₂⟩ := ih h₁
      (Nat.lt_of_le_of_lt (Nat.mul_le_mul (by omega) (by omega)) hf)
    exact ⟨s₂, by rw [memRun, hs₁]; simp [hs₂, Timers.run], h₂⟩

/-- The timers as `etimer_process` leaves them when it starts. -/
def Timers.start (c : Timing τ π) : Timers τ π := { toTiming := c, list := [], queue := [] }

omit [DecidableEq τ] [DecidableEq π] in
theorem rep_start (c : Timing τ π) (next : τ → Option τ) (events : ℕ → Event τ π) :
    Rep ⟨c, none, next, .init events⟩ (Timers.start c) :=
  ⟨rfl, rfl, rfl, fun _ ht => absurd ht List.not_mem_nil⟩

/-- From the start of the event timer process, whatever the timers, the `next` words and the slots
of the ring hold, every sequence of steps of the processes, the kernel and the clock does to the
memory what it does to the plain lists: every loop ends, the queue returns the same, and the list
is a chain on which no timer stands twice or is marked as expired. -/
theorem memRun_refines (fuel : ℕ) (c : Timing τ π) (next : τ → Option τ) (events : ℕ → Event τ π)
    (ops : List (TimerOp τ π)) (hf : ops.length * ops.length < fuel) :
    ∃ s, memRun fuel ⟨c, none, next, .init events⟩ ops = some (s, ((Timers.start c).run ops).2) ∧
      Rep s ((Timers.start c).run ops).1 ∧ ((Timers.start c).run ops).1.list.Nodup := by
  obtain ⟨s, hs, h⟩ := memRun_refines_from fuel (rep_start c next events) ops
    (by simpa [Timers.start] using hf)
  exact ⟨s, hs, h, Chain.nodup h.chain⟩

/-- Two timers, the second set to run out first: after two ticks a poll posts its event, and after
two more ticks that of the other. -/
theorem memRun_refines_two_timers : ∃ s : Memory ℕ Bool,
    memRun 1000 ⟨⟨fun _ => ⟨0, 0⟩, fun _ => none, 0, 0, false⟩, none, fun _ => some 9,
        .init fun _ => ⟨0, .raw 0, none⟩⟩
      [.set true 1 4, .set false 2 2, .poll, .tick, .tick, .poll, .queue .take, .tick, .tick, .poll,
        .queue .take, .queue .take] =
      some (s, [none, none, none, none, none, none, some (.delivered (timerEvent (some false) 2)),
        none, none, none, some (.delivered (timerEvent (some true) 1)), some .idle]) := by
  obtain ⟨s, hs, -⟩ := memRun_refines (τ := ℕ) (π := Bool) 1000
    ⟨fun _ => ⟨0, 0⟩, fun _ => none, 0, 0, false⟩ (fun _ => some 9) (fun _ => ⟨0, .raw 0, none⟩)
    [.set true 1 4, .set false 2 2, .poll, .tick, .tick, .poll, .queue .take, .tick, .tick, .poll,
      .queue .take, .queue .take] (by decide)
  exact ⟨s, hs.trans (congrArg (fun r => some (s, r)) (by decide))⟩

end

end Adler.Kernel
