/-
  Callback timers (`core/sys/ctimer.c`): a list of pending timers, each with an event timer that
  belongs to the callback timer process.

  The event timers, the event queue and the clock are those of `Etimer`, on plain lists
  (`memRun_refines` carries them to the memory). The steps are everything the system does: calls
  of this module from any process or callback, the other event timers and processes, polls, clock
  ticks and deliveries of events, in any order.

  * `pending_waits`: a pending timer is a flag that arming raises and stopping or running lowers; a
    callback runs at most once for every call that armed its timer; and a pending timer is never
    lost: its event timer is on the list of event timers, or its event is in the queue.
  * `callback_runs`: once the event is in the queue, the callback runs no later than that event is
    delivered, whatever else happens, unless the timer is stopped.
-/
import Mathlib.Data.List.Count
import Adler.Kernel.Etimer

namespace Adler.Kernel

variable {τ κ ε π φ : Type*}

/-! ## What the event timer functions do to the list -/

namespace Timers

variable [DecidableEq τ] {a : Timers τ π} {t u : τ}

theorem mem_addTimer {current : π} : u ∈ (a.addTimer current t).list ↔ u = t ∨ u ∈ a.list := by
  by_cases ht : t ∈ a.list
  · have : u = t → u ∈ a.list := fun h => h ▸ ht
    simpa [addTimer, updateTime, ht] using this
  · simp [addTimer, updateTime, ht]

theorem nodup_addTimer {current : π} (h : a.list.Nodup) : (a.addTimer current t).list.Nodup := by
  by_cases ht : t ∈ a.list <;> simp [addTimer, updateTime, ht, h]

theorem list_etimerStop : (a.etimerStop t).list = a.list.erase t := by
  unfold etimerStop
  by_cases ht : t ∈ a.list
  · simp [updateTime, ht]
  · simp [ht, List.erase_of_not_mem]

theorem nodup_etimerStop (h : a.list.Nodup) : (a.etimerStop t).list.Nodup := by
  rw [list_etimerStop]
  exact h.erase t

theorem mem_etimerStop (hne : u ≠ t) : u ∈ (a.etimerStop t).list ↔ u ∈ a.list := by
  rw [list_etimerStop, List.mem_erase_of_ne hne]

theorem notMem_etimerStop (h : a.list.Nodup) : t ∉ (a.etimerStop t).list := by
  rw [list_etimerStop]
  exact h.not_mem_erase

theorem etimerStop_subset : (a.etimerStop t).list ⊆ a.list := by
  rw [list_etimerStop]
  exact List.erase_subset

theorem p_etimerStop : (a.etimerStop t).p = Function.update a.p t none := by
  unfold etimerStop
  by_cases ht : t ∈ a.list <;> simp [updateTime, ht]

theorem queue_etimerStop : (a.etimerStop t).queue = a.queue := by
  unfold etimerStop
  by_cases ht : t ∈ a.list <;> simp [updateTime, ht]

omit [DecidableEq τ] in
theorem tick_eq (a : Timers τ π) :
    a.tick.list = a.list ∧ a.tick.p = a.p ∧ a.tick.queue = a.queue := by
  unfold tick
  dsimp only
  split <;> exact ⟨rfl, rfl, rfl⟩

/-- A poll moves a timer from the list to the queue, or leaves it. -/
theorem mem_doPoll (h : u ∈ a.list) : u ∈ a.doPoll.list ∨ timerEvent (a.p u) u ∈ a.doPoll.queue := by
  unfold doPoll
  split
  · by_cases hp : u ∈ posted { a with needspoll := false }
    · exact .inr (List.mem_append_right _ (List.mem_map.mpr ⟨u, hp, rfl⟩))
    · exact .inl (List.mem_filter.mpr ⟨h, decide_eq_true hp⟩)
  · exact .inl h

theorem doPoll_subset : a.doPoll.list ⊆ a.list := by
  unfold doPoll
  split
  · exact List.filter_subset_self _
  · exact List.Subset.refl _

theorem p_doPoll (h : u ∈ a.doPoll.list) : a.doPoll.p u = a.p u := by
  unfold doPoll at h ⊢
  split
  · rw [if_pos ‹_›] at h
    exact if_neg (of_decide_eq_true (List.mem_filter.mp h).2)
  · rfl

theorem queue_doPoll : ∃ es, a.doPoll.queue = a.queue ++ es := by
  unfold doPoll
  split
  · exact ⟨_, rfl⟩
  · exact ⟨[], (List.append_nil _).symm⟩

/-- The events a poll posts for `t`: one if it posts that of `t`, else none. -/
theorem count_posted [DecidableEq π] {p : π} (hp : t ∈ a.list → a.p t = some p) :
    (a.posted.map fun u => timerEvent (a.p u) u).count (timerEvent (some p) t) =
      a.posted.count t := by
  have hinj : Function.Injective fun u => timerEvent (a.p u) u := fun u v huv =>
    EventData.etimer.inj (congrArg Event.data huv)
  by_cases ht : t ∈ a.posted
  · rw [← hp (List.mem_of_mem_filter (List.mem_of_mem_take ht))]
    exact List.count_map_of_injective a.posted _ hinj t
  · rw [List.count_eq_zero_of_not_mem ht]
    refine List.count_eq_zero.mpr fun hmem => ht ?_
    obtain ⟨u, hu, heq⟩ := List.mem_map.mp hmem
    have hut : u = t := EventData.etimer.inj (congrArg Event.data heq)
    exact hut ▸ hu

/-- A poll takes `t` off the list and posts its event, or does nothing to it. -/
theorem handlePoll_cases [DecidableEq π] {p : π} (hnd : a.list.Nodup)
    (hp : t ∈ a.list → a.p t = some p) :
    (t ∈ a.list ∧ a.handlePoll.p t = none ∧ a.handlePoll.queue.count (timerEvent (some p) t) =
        a.queue.count (timerEvent (some p) t) + 1) ∨
      (a.handlePoll.p t = a.p t ∧ (t ∈ a.list → t ∈ a.handlePoll.list) ∧
        a.handlePoll.queue.count (timerEvent (some p) t) =
          a.queue.count (timerEvent (some p) t)) := by
  have hcount : a.handlePoll.queue.count (timerEvent (some p) t) =
      a.queue.count (timerEvent (some p) t) + a.posted.count t := by
    rw [← count_posted hp]
    exact List.count_append ..
  by_cases ht : t ∈ a.posted
  · left
    have hposted : a.posted.Nodup := (hnd.filter _).sublist (List.take_sublist _ _)
    refine ⟨List.mem_of_mem_filter (List.mem_of_mem_take ht), if_pos ht, ?_⟩
    rw [hcount, List.count_eq_one_of_mem hposted ht]
  · right
    refine ⟨if_neg ht, fun hl => List.mem_filter.mpr ⟨hl, decide_eq_true ht⟩, ?_⟩
    rw [hcount, List.count_eq_zero_of_not_mem ht, Nat.add_zero]

theorem doPoll_cases [DecidableEq π] {p : π} (hnd : a.list.Nodup)
    (hp : t ∈ a.list → a.p t = some p) :
    (t ∈ a.list ∧ a.doPoll.p t = none ∧ a.doPoll.queue.count (timerEvent (some p) t) =
        a.queue.count (timerEvent (some p) t) + 1) ∨
      (a.doPoll.p t = a.p t ∧ (t ∈ a.list → t ∈ a.doPoll.list) ∧
        a.doPoll.queue.count (timerEvent (some p) t) =
          a.queue.count (timerEvent (some p) t)) := by
  unfold doPoll
  split
  · exact handlePoll_cases (a := { a with needspoll := false }) hnd hp
  · exact .inr ⟨rfl, id, rfl⟩

theorem nodup_doPoll (h : a.list.Nodup) : a.doPoll.list.Nodup := by
  unfold doPoll
  split
  · exact h.filter _
  · exact h

end Timers

/-! ## The functions of ctimer.c -/

/-- The callback timers, `ctimer_list` and `initialized`, over the event timers of the system:
`.inl c` is the event timer inside `c`. -/
structure Ctimers (κ ε π φ : Type*) where
  timers : Timers (κ ⊕ ε) π
  initialized : Bool
  list : List κ
  p : κ → Option π
  f : κ → Option φ

/-- A callback that runs: `f` with its argument, in the context of the process `p`. -/
structure Call (κ π φ : Type*) where
  timer : κ
  p : Option π
  f : Option φ
  deriving DecidableEq

section

variable [DecidableEq κ] [DecidableEq ε] [DecidableEq π]

/-- `list_remove`, then `list_add`. -/
def Ctimers.relist (s : Ctimers κ ε π φ) (c : κ) : Ctimers κ ε π φ :=
  { s with list := (s.list.erase c).erase c ++ [c] }

/-- An event timer function called in the context of the callback timer process. -/
def Ctimers.etimer (s : Ctimers κ ε π φ) (op : TimerOp (κ ⊕ ε) π) : Ctimers κ ε π φ :=
  { s with timers := (s.timers.step op).1 }

/-- The callback timer process when it starts: the timers set before are set now. -/
def ctimerStart (cp : π) (s : Ctimers κ ε π φ) : Ctimers κ ε π φ :=
  { s.list.foldl (fun s c => s.etimer (.set cp (.inl c) (s.timers.timer (.inl c)).interval)) s with
    initialized := true }

/-- The callback timer process woken by an event of an expired event timer. -/
def ctimerThread (s : Ctimers κ ε π φ) (data : EventData (κ ⊕ ε)) :
    Ctimers κ ε π φ × Option (Call κ π φ) :=
  match data with
  | .etimer (.inl c) =>
    if c ∈ s.list then ({ s with list := s.list.erase c }, some ⟨c, s.p c, s.f c⟩) else (s, none)
  | _ => (s, none)

def ctimerSet (cp : π) (current : Option π) (s : Ctimers κ ε π φ) (c : κ) (t : UInt32)
    (f : Option φ) : Ctimers κ ε π φ :=
  let s := { s with p := Function.update s.p c current, f := Function.update s.f c f }
  let s :=
    if s.initialized then s.etimer (.set cp (.inl c) t)
    else { s with timers := s.timers.setTimer (.inl c) ⟨(s.timers.timer (.inl c)).start, t⟩ }
  s.relist c

def ctimerReset (cp : π) (s : Ctimers κ ε π φ) (c : κ) : Ctimers κ ε π φ :=
  let s := if s.initialized then s.etimer (.reset cp (.inl c)) else s
  s.relist c

def ctimerRestart (cp : π) (s : Ctimers κ ε π φ) (c : κ) : Ctimers κ ε π φ :=
  let s := if s.initialized then s.etimer (.restart cp (.inl c)) else s
  s.relist c

def ctimerStop (s : Ctimers κ ε π φ) (c : κ) : Ctimers κ ε π φ :=
  let s :=
    if s.initialized then s.etimer (.stop (.inl c))
    else { s with timers := { s.timers with p := Function.update s.timers.p (.inl c) none } }
  { s with list := s.list.erase c }

def ctimerExpired (s : Ctimers κ ε π φ) (c : κ) : Bool :=
  if s.initialized then (s.timers.p (.inl c)).isNone else decide (c ∉ s.list)

end

/-! ## Steps -/

/-- What the system does: the start of the callback timer process, calls of this module, what
happens to the event timers and the queue beside it, and the delivery of the first event. -/
inductive CtimerOp (κ ε π φ : Type*)
  | start
  | set (current : Option π) (c : κ) (t : UInt32) (f : Option φ)
  | reset (c : κ)
  | restart (c : κ)
  | stop (c : κ)
  | timers (op : TimerOp (κ ⊕ ε) π)
  | event

section

variable [DecidableEq κ] [DecidableEq ε] [DecidableEq π]

/-- `do_event`: the callback timer process gets its timer events, the others theirs. -/
def doEvent (cp : π) (s : Ctimers κ ε π φ) : Ctimers κ ε π φ × Option (Call κ π φ) :=
  match s.timers.queue with
  | [] => (s, none)
  | e :: es =>
    let s := { s with timers := { s.timers with queue := es } }
    if e.p = some cp ∧ e.ev = eventTimer then ctimerThread s e.data else (s, none)

def Ctimers.step (cp : π) (s : Ctimers κ ε π φ) :
    CtimerOp κ ε π φ → Ctimers κ ε π φ × Option (Call κ π φ)
  | .start => (ctimerStart cp s, none)
  | .set current c t f => (ctimerSet cp current s c t f, none)
  | .reset c => (ctimerReset cp s c, none)
  | .restart c => (ctimerRestart cp s c, none)
  | .stop c => (ctimerStop s c, none)
  | .timers op => (s.etimer op, none)
  | .event => doEvent cp s

/-- The other processes keep to their own event timers, only the event timer process posts timer
events, events leave the queue by `do_event`, and the callback timer process never exits. -/
def CtimerOp.Ok (cp : π) : CtimerOp κ ε π φ → Prop
  | .timers (.set _ t _) | .timers (.reset _ t) | .timers (.restart _ t) | .timers (.adjust t _)
  | .timers (.stop t) => t.isRight
  | .timers (.exited p) => p ≠ cp
  | .timers (.queue (.post e)) => e.ev ≠ eventTimer
  | .timers (.queue .take) => False
  | _ => True

def Ctimers.run (cp : π) : Ctimers κ ε π φ → List (CtimerOp κ ε π φ) →
    Ctimers κ ε π φ × List (Option (Call κ π φ))
  | s, [] => (s, [])
  | s, op :: ops => ((run cp (s.step cp op).1 ops).1, (s.step cp op).2 :: (run cp (s.step cp op).1 ops).2)

end

/-! ## A pending timer is never lost -/

section

variable [DecidableEq κ] [DecidableEq ε] [DecidableEq π] {cp : π} {a b : Timers (κ ⊕ ε) π}
  {s : Ctimers κ ε π φ} {c d : κ}

/-- The event of the callback timer `c`. -/
abbrev ctimerEvent (ε : Type*) (cp : π) (c : κ) : Event (κ ⊕ ε) π := timerEvent (some cp) (.inl c)

/-- The event timers inside callback timers that are on the list belong to the callback timer
process. -/
def Owned (cp : π) (a : Timers (κ ⊕ ε) π) : Prop :=
  a.list.Nodup ∧ ∀ c, .inl c ∈ a.list → a.p (.inl c) = some cp

/-- The event timer inside `c` is on the list, or its event in the queue. -/
def Waits (cp : π) (a : Timers (κ ⊕ ε) π) (c : κ) : Prop :=
  .inl c ∈ a.list ∨ ctimerEvent ε cp c ∈ a.queue

/-- Steps that take no event timer off the list on behalf of a callback timer. -/
def Harmless (cp : π) : TimerOp (κ ⊕ ε) π → Prop
  | .set current t _ | .reset current t | .restart current t => t.isRight ∨ current = cp
  | .stop t => t.isRight
  | .exited p => p ≠ cp
  | .queue .take => False
  | _ => True

omit [DecidableEq κ] [DecidableEq ε] [DecidableEq π] in
theorem Waits.mono (hl : .inl c ∈ a.list → .inl c ∈ b.list) (hq : a.queue ⊆ b.queue)
    (h : Waits cp a c) : Waits cp b c := h.imp hl fun hmem => hq hmem

omit [DecidableEq π] in
theorem Owned.addTimer (h : Owned cp a) {t : κ ⊕ ε} {v : Timer} {current : π}
    (ht : t.isRight ∨ current = cp) : Owned cp ((a.setTimer t v).addTimer current t) := by
  refine ⟨Timers.nodup_addTimer h.1, fun c hc => ?_⟩
  show Function.update a.p t (some current) (.inl c) = some cp
  rcases eq_or_ne (.inl c) t with rfl | hne
  · rcases ht with ht | rfl
    · exact absurd ht Bool.false_ne_true
    · exact Function.update_self ..
  · rw [Function.update_of_ne hne]
    exact h.2 c ((Timers.mem_addTimer.mp hc).resolve_left hne)

theorem Owned.step (h : Owned cp a) {op : TimerOp (κ ⊕ ε) π} (hop : Harmless cp op) :
    Owned cp (a.step op).1 := by
  cases op with
  | set current t interval => exact h.addTimer hop
  | reset current t => exact h.addTimer hop
  | restart current t => exact h.addTimer hop
  | adjust t timediff | queue op => exact h
  | stop t =>
    refine ⟨Timers.nodup_etimerStop h.1, fun c hc => ?_⟩
    have hne : Sum.inl c ≠ t := by
      rintro rfl
      exact absurd hop Bool.false_ne_true
    rw [Timers.step, Timers.p_etimerStop, Function.update_of_ne hne]
    exact h.2 c ((Timers.mem_etimerStop hne).mp hc)
  | exited p => exact ⟨h.1.filter _, fun c hc => h.2 c (List.mem_of_mem_filter hc)⟩
  | poll =>
    exact ⟨Timers.nodup_doPoll h.1, fun c hc =>
      (Timers.p_doPoll hc).trans (h.2 c (Timers.doPoll_subset hc))⟩
  | tick =>
    obtain ⟨hl, hp, -⟩ := Timers.tick_eq a
    simpa only [Owned, Timers.step, hl, hp] using h

theorem Waits.step (hown : Owned cp a) (h : Waits cp a c) {op : TimerOp (κ ⊕ ε) π}
    (hop : Harmless cp op) : Waits cp (a.step op).1 c := by
  cases op with
  | set current t interval | reset current t | restart current t =>
    exact h.mono (fun hc => Timers.mem_addTimer.mpr (.inr hc)) (List.Subset.refl _)
  | adjust t timediff => exact h
  | stop t =>
    have hne : Sum.inl c ≠ t := by
      rintro rfl
      exact absurd hop Bool.false_ne_true
    refine h.mono (Timers.mem_etimerStop hne).mpr ?_
    rw [Timers.step, Timers.queue_etimerStop]
    exact List.Subset.refl _
  | exited p =>
    refine h.mono (fun hc => List.mem_filter.mpr ⟨hc, ?_⟩) (List.Subset.refl _)
    rw [hown.2 c hc]
    exact decide_eq_true fun heq => hop (Option.some.inj heq).symm
  | poll =>
    obtain ⟨es, hes⟩ := Timers.queue_doPoll (a := a)
    rcases h with hc | hq
    · have := Timers.mem_doPoll hc
      rwa [hown.2 c hc] at this
    · exact .inr (by rw [Timers.step, hes]; exact List.mem_append_left _ hq)
  | tick =>
    obtain ⟨hl, -, hq⟩ := Timers.tick_eq a
    simpa only [Waits, Timers.step, hl, hq] using h
  | queue op =>
    cases op with
    | take => exact absurd hop id
    | post e =>
      have hq : a.queue ⊆ (fifoStep a.queue (.post e)).1 := by
        unfold fifoStep
        by_cases hroom : a.queue.length < numEvents <;> simp [hroom]
      exact Or.imp id (fun hmem => hq hmem) h

/-- What holds in every state of a run. -/
structure CtimersInv (cp : π) (s : Ctimers κ ε π φ) : Prop where
  nodup : s.list.Nodup
  owned : Owned cp s.timers
  waits : s.initialized → ∀ c ∈ s.list, Waits cp s.timers c
  early : s.initialized = false → ∀ c, .inl c ∉ s.timers.list

omit [DecidableEq ε] [DecidableEq π] in
theorem mem_relist (h : s.list.Nodup) : d ∈ (s.relist c).list ↔ d = c ∨ d ∈ s.list := by
  rw [Ctimers.relist, List.mem_append, List.mem_singleton, (h.erase c).mem_erase_iff,
    h.mem_erase_iff]
  by_cases hd : d = c <;> simp [hd]

omit [DecidableEq ε] [DecidableEq π] in
theorem nodup_relist (h : s.list.Nodup) : (s.relist c).list.Nodup := by
  rw [Ctimers.relist, List.nodup_append]
  refine ⟨(h.erase c).erase c, List.nodup_singleton c, fun x hx y hy => ?_⟩
  rw [List.mem_singleton.mp hy]
  exact ((h.erase c).mem_erase_iff.mp hx).1

/-- The three ways to arm a timer: its event timer goes on the list, if the callback timer process
has started, and the timer goes to the end of the pending ones. -/
theorem CtimersInv.arm (h : CtimersInv cp s) (op : TimerOp (κ ⊕ ε) π) (hop : Harmless cp op)
    (hput : .inl c ∈ (s.timers.step op).1.list) {t : Ctimers κ ε π φ} (htl : t.list = s.list)
    (hti : t.initialized = s.initialized)
    (ht : s.initialized → t.timers = (s.timers.step op).1)
    (hearly : s.initialized = false → t.timers.list = s.timers.list) :
    CtimersInv cp (t.relist c) := by
  have hnd : t.list.Nodup := htl ▸ h.nodup
  have hnone : t.initialized = false → ∀ d, .inl d ∉ t.timers.list := fun hi d => by
    rw [hearly (hti ▸ hi)]
    exact h.early (hti ▸ hi) d
  refine ⟨nodup_relist hnd, ?_, fun hinit d hd => ?_, hnone⟩
  · cases hi : s.initialized with
    | false =>
      refine ⟨?_, fun d hd => absurd hd (hnone (hti.trans hi) d)⟩
      show t.timers.list.Nodup
      rw [hearly hi]
      exact h.owned.1
    | true =>
      show Owned cp t.timers
      rw [ht hi]
      exact h.owned.step hop
  · have hinit' : s.initialized := hti ▸ hinit
    show Waits cp t.timers d
    rw [ht hinit']
    rcases (mem_relist hnd).mp hd with rfl | hd
    · exact .inl hput
    · exact (h.waits hinit' d (htl ▸ hd)).step h.owned hop

omit [DecidableEq ε] [DecidableEq π] in
/-- A timer that is stopped or runs leaves the list; the others wait as before. -/
theorem CtimersInv.drop (h : CtimersInv cp s) {t : Ctimers κ ε π φ} (htl : t.list = s.list.erase c)
    (hti : t.initialized = s.initialized) (hown : Owned cp t.timers)
    (hl : t.timers.list ⊆ s.timers.list)
    (hw : ∀ d, d ≠ c → Waits cp s.timers d → Waits cp t.timers d) : CtimersInv cp t := by
  refine ⟨htl ▸ h.nodup.erase c, hown, fun hinit d hd => ?_,
    fun hi d hd => h.early (hti ▸ hi) d (hl hd)⟩
  rw [htl, h.nodup.mem_erase_iff] at hd
  exact hw d hd.1 (h.waits (hti ▸ hinit) d hd.2)

/-- The loop of the callback timer process when it starts. -/
theorem start_loop (cs : List κ) (s : Ctimers κ ε π φ) (hown : Owned cp s.timers) :
    let t := cs.foldl (fun s c => s.etimer (.set cp (.inl c) (s.timers.timer (.inl c)).interval)) s
    t.list = s.list ∧ Owned cp t.timers ∧ (∀ c, Waits cp s.timers c → Waits cp t.timers c) ∧
      ∀ c ∈ cs, Waits cp t.timers c := by
  induction cs generalizing s with
  | nil => exact ⟨rfl, hown, fun _ h => h, fun _ h => absurd h List.not_mem_nil⟩
  | cons c cs ih =>
    have hop : Harmless cp (.set cp (.inl c) (s.timers.timer (.inl c)).interval :
        TimerOp (κ ⊕ ε) π) := .inr rfl
    obtain ⟨hl, hown', hkeep, hall⟩ :=
      ih (s.etimer (.set cp (.inl c) (s.timers.timer (.inl c)).interval)) (hown.step hop)
    refine ⟨hl, hown', fun d hd => hkeep d (hd.step hown hop), fun d hd => ?_⟩
    rcases List.mem_cons.mp hd with rfl | hd
    · exact hkeep d (.inl (Timers.mem_addTimer.mpr (.inl rfl)))
    · exact hall d hd

omit [DecidableEq κ] [DecidableEq ε] [DecidableEq π] in
theorem Harmless.of_ok {op : TimerOp (κ ⊕ ε) π} (h : CtimerOp.Ok cp (.timers op : CtimerOp κ ε π φ)) :
    Harmless cp op := by
  cases op with
  | set current t interval | reset current t | restart current t => exact .inl h
  | stop t => exact h
  | exited p => exact h
  | adjust t timediff | poll | tick => trivial
  | queue op =>
    cases op with
    | post e => trivial
    | take => exact h

/-- What happens beside this module never puts an event timer of a callback timer on the list. -/
theorem mem_of_ok {op : TimerOp (κ ⊕ ε) π} (h : CtimerOp.Ok cp (.timers op : CtimerOp κ ε π φ))
    (hc : .inl c ∈ (a.step op).1.list) : .inl c ∈ a.list := by
  cases op with
  | set current t interval | reset current t | restart current t =>
    refine (Timers.mem_addTimer.mp hc).resolve_left ?_
    rintro rfl
    exact absurd h Bool.false_ne_true
  | adjust t timediff | queue op => exact hc
  | stop t =>
    have hne : Sum.inl c ≠ t := by
      rintro rfl
      exact absurd h Bool.false_ne_true
    exact (Timers.mem_etimerStop hne).mp hc
  | exited p => exact List.mem_of_mem_filter hc
  | poll => exact Timers.doPoll_subset hc
  | tick => rwa [Timers.step, (Timers.tick_eq a).1] at hc

omit [DecidableEq π] in
/-- The event timer inside `c` is stopped. -/
theorem Owned.stop (h : Owned cp a) : Owned cp (a.etimerStop (.inl c)) := by
  refine ⟨Timers.nodup_etimerStop h.1, fun d hd => ?_⟩
  have hne : (Sum.inl d : κ ⊕ ε) ≠ .inl c := by
    intro heq
    exact Timers.notMem_etimerStop h.1 (heq ▸ hd)
  rw [Timers.p_etimerStop, Function.update_of_ne hne]
  exact h.2 d ((Timers.mem_etimerStop hne).mp hd)

omit [DecidableEq ε] in
/-- The delivery of an event to the callback timer process. -/
theorem CtimersInv.event (h : CtimersInv cp s) : CtimersInv cp (doEvent cp s).1 := by
  unfold doEvent
  cases hq : s.timers.queue with
  | nil => exact h
  | cons e es =>
    have hskip : (∀ c ∈ s.list, e ≠ ctimerEvent ε cp c) →
        CtimersInv cp { s with timers := { s.timers with queue := es } } := fun hne =>
      ⟨h.nodup, h.owned, fun hi c hc => (h.waits hi c hc).imp id fun hmem => by
        rw [hq] at hmem
        exact (List.mem_cons.mp hmem).resolve_left (Ne.symm (hne c hc)), h.early⟩
    dsimp only
    split
    · rename_i hto
      unfold ctimerThread
      split
      · rename_i c hdata
        dsimp only
        split
        · refine h.drop (c := c) rfl rfl h.owned (List.Subset.refl _) fun d hd hw =>
            hw.imp id fun hmem => ?_
          rw [hq] at hmem
          refine (List.mem_cons.mp hmem).resolve_left ?_
          rintro rfl
          exact hd (Sum.inl_injective (EventData.etimer.inj hdata))
        · rename_i hc
          refine hskip fun d hd => ?_
          rintro rfl
          exact hc (Sum.inl_injective (EventData.etimer.inj hdata) ▸ hd)
      · rename_i hdata
        refine hskip fun d _ => ?_
        rintro rfl
        exact hdata d rfl
    · rename_i hto
      refine hskip fun d _ => ?_
      rintro rfl
      exact hto ⟨rfl, rfl⟩

theorem CtimersInv.step (h : CtimersInv cp s) {op : CtimerOp κ ε π φ} (hok : op.Ok cp) :
    CtimersInv cp (s.step cp op).1 := by
  cases op with
  | start =>
    obtain ⟨hl, hown, -, hall⟩ := start_loop s.list s h.owned
    exact ⟨hl.symm ▸ h.nodup, hown, fun _ c hc => hall c (hl ▸ hc),
      fun hi => absurd hi (by simp [Ctimers.step, ctimerStart])⟩
  | set current c t f =>
    refine h.arm (.set cp (.inl c) t) (.inr rfl) (Timers.mem_addTimer.mpr (.inl rfl)) ?_ ?_ ?_ ?_
    · dsimp only; split <;> rfl
    · dsimp only; split <;> rfl
    · intro hi; dsimp only; rw [if_pos hi]; rfl
    · intro hi; dsimp only; rw [if_neg (by simp [hi])]; rfl
  | reset c =>
    refine h.arm (.reset cp (.inl c)) (.inr rfl) (Timers.mem_addTimer.mpr (.inl rfl)) ?_ ?_ ?_ ?_
    · split <;> rfl
    · split <;> rfl
    · intro hi; rw [if_pos hi]; rfl
    · intro hi; rw [if_neg (by simp [hi])]
  | restart c =>
    refine h.arm (.restart cp (.inl c)) (.inr rfl) (Timers.mem_addTimer.mpr (.inl rfl)) ?_ ?_ ?_ ?_
    · split <;> rfl
    · split <;> rfl
    · intro hi; rw [if_pos hi]; rfl
    · intro hi; rw [if_neg (by simp [hi])]
  | stop c =>
    show CtimersInv cp (ctimerStop s c)
    unfold ctimerStop
    dsimp only
    split
    · refine h.drop (c := c) rfl rfl h.owned.stop Timers.etimerStop_subset fun d hd hw => ?_
      have hne : (Sum.inl d : κ ⊕ ε) ≠ .inl c := fun heq => hd (Sum.inl_injective heq)
      refine hw.mono (Timers.mem_etimerStop hne).mpr ?_
      exact (Timers.queue_etimerStop (a := s.timers)).symm ▸ List.Subset.refl _
    · rename_i hi
      exact h.drop (c := c) rfl rfl
        ⟨h.owned.1, fun d hd => absurd hd (h.early (Bool.eq_false_iff.mpr hi) d)⟩
        (List.Subset.refl _) fun _ _ hw => hw
  | timers op =>
    exact ⟨h.nodup, h.owned.step (.of_ok hok),
      fun hi c hc => (h.waits hi c hc).step h.owned (.of_ok hok),
      fun hi c hc => h.early hi c (mem_of_ok hok hc)⟩
  | event => exact h.event

theorem CtimersInv.run (h : CtimersInv cp s) (ops : List (CtimerOp κ ε π φ))
    (hok : ∀ op ∈ ops, op.Ok cp) : CtimersInv cp (s.run cp ops).1 := by
  induction ops generalizing s with
  | nil => exact h
  | cons op ops ih =>
    exact ih (h.step (hok op List.mem_cons_self)) fun o ho => hok o (List.mem_cons_of_mem _ ho)

end

/-! ## Pending as a flag -/

/-- A timer as a flag that is raised when it is armed, and lowered when it is stopped or runs. -/
inductive FlagOp (κ : Type*)
  | arm (c : κ)
  | stop (c : κ)
  | fire (c : κ)
  | skip
  deriving DecidableEq

section

variable [DecidableEq κ]

/-- A callback runs only while its flag is up. -/
def flagStep (b : κ → Bool) : FlagOp κ → Option (κ → Bool)
  | .arm c => some (Function.update b c true)
  | .stop c => some (Function.update b c false)
  | .fire c => if b c then some (Function.update b c false) else none
  | .skip => some b

def flagRun : (κ → Bool) → List (FlagOp κ) → Option (κ → Bool)
  | b, [] => some b
  | b, op :: ops => (flagStep b op).bind fun b => flagRun b ops

/-- A flag goes down no more often than it was raised. -/
theorem fires_le_arms (c : κ) (b b' : κ → Bool) (ops : List (FlagOp κ)) (h : flagRun b ops = some b') :
    ops.count (.fire c) + (b' c).toNat ≤ ops.count (.arm c) + (b c).toNat := by
  induction ops generalizing b with
  | nil =>
    obtain rfl : b = b' := Option.some.inj h
    exact Nat.le_refl _
  | cons op ops ih =>
    obtain ⟨m, hm, h⟩ := Option.bind_eq_some_iff.mp h
    have hrest := ih m h
    have hstep : (if op = .fire c then 1 else 0) + (m c).toNat ≤
        (if op = .arm c then 1 else 0) + (b c).toNat := by
      cases op with
      | arm d =>
        obtain rfl : Function.update b d true = m := Option.some.inj hm
        rcases eq_or_ne d c with rfl | hd
        · simp
        · simp [hd.symm]
      | stop d =>
        obtain rfl : Function.update b d false = m := Option.some.inj hm
        rcases eq_or_ne d c with rfl | hd
        · simp
        · simp [hd.symm]
      | fire d =>
        obtain ⟨hup, hm⟩ := Option.ite_none_right_eq_some.mp hm
        obtain rfl : Function.update b d false = m := Option.some.inj hm
        rcases eq_or_ne d c with rfl | hd
        · simp [hup]
        · simp [hd, hd.symm]
      | skip =>
        obtain rfl : b = m := Option.some.inj hm
        simp
    simp only [List.count_cons, beq_iff_eq]
    omega

end

section

variable [DecidableEq κ] [DecidableEq ε] [DecidableEq π] {cp : π} {s : Ctimers κ ε π φ} {c d : κ}

/-- What a step is to the flags. -/
def CtimerOp.flag : CtimerOp κ ε π φ → Option (Call κ π φ) → FlagOp κ
  | .set _ c _ _, _ => .arm c
  | .reset c, _ => .arm c
  | .restart c, _ => .arm c
  | .stop c, _ => .stop c
  | _, some call => .fire call.timer
  | _, none => .skip

def Ctimers.pending (s : Ctimers κ ε π φ) (c : κ) : Bool := decide (c ∈ s.list)

omit [DecidableEq ε] [DecidableEq π] in
theorem pending_relist (h : s.list.Nodup) :
    (s.relist c).pending = Function.update s.pending c true := by
  funext d
  rcases eq_or_ne d c with rfl | hd
  · simp [Ctimers.pending, mem_relist h]
  · simp [Ctimers.pending, mem_relist h, hd]

omit [DecidableEq ε] [DecidableEq π] in
theorem pending_erase (h : s.list.Nodup) {t : Ctimers κ ε π φ} (ht : t.list = s.list.erase c) :
    t.pending = Function.update s.pending c false := by
  funext d
  rcases eq_or_ne d c with rfl | hd
  · simp [Ctimers.pending, ht, h.not_mem_erase]
  · simp [Ctimers.pending, ht, h.mem_erase_iff, hd]

omit [DecidableEq ε] [DecidableEq π] in
theorem pending_congr {t : Ctimers κ ε π φ} (ht : t.list = s.list) : t.pending = s.pending := by
  unfold Ctimers.pending
  rw [ht]

omit [DecidableEq ε] [DecidableEq π] in
theorem flagStep_arm {t : Ctimers κ ε π φ} (h : s.list.Nodup) (ht : t.list = s.list) :
    flagStep s.pending (.arm c) = some (t.relist c).pending := by
  rw [pending_relist (ht ▸ h), pending_congr ht]
  rfl

omit [DecidableEq ε] in
/-- The callback timer process runs a callback only for a timer on its list, and takes it off. -/
theorem doEvent_eq (cp : π) (s : Ctimers κ ε π φ) :
    ((doEvent cp s).2 = none ∧ (doEvent cp s).1.list = s.list) ∨
      ∃ c ∈ s.list, (doEvent cp s).2 = some ⟨c, s.p c, s.f c⟩ ∧
        (doEvent cp s).1.list = s.list.erase c := by
  unfold doEvent
  split
  · exact .inl ⟨rfl, rfl⟩
  · dsimp only
    split
    · unfold ctimerThread
      split
      · rename_i c _
        dsimp only
        split
        · exact .inr ⟨c, ‹_›, rfl, rfl⟩
        · exact .inl ⟨rfl, rfl⟩
      · exact .inl ⟨rfl, rfl⟩
    · exact .inl ⟨rfl, rfl⟩

/-- Each step does to the flags what `CtimerOp.flag` says. -/
theorem step_flag (h : CtimersInv cp s) (op : CtimerOp κ ε π φ) :
    flagStep s.pending (op.flag (s.step cp op).2) = some (s.step cp op).1.pending := by
  cases op with
  | start =>
    refine congrArg some (pending_congr ?_).symm
    exact (start_loop s.list s h.owned).1
  | set current c t f =>
    refine flagStep_arm h.nodup ?_
    dsimp only
    split <;> rfl
  | reset c | restart c =>
    refine flagStep_arm h.nodup ?_
    split <;> rfl
  | stop c =>
    refine congrArg some (pending_erase h.nodup ?_).symm
    simp only [Ctimers.step, ctimerStop]
    split <;> rfl
  | timers op => rfl
  | event =>
    rcases doEvent_eq cp s with ⟨hnone, hl⟩ | ⟨c, hc, hcall, hl⟩
    · simp only [Ctimers.step, hnone, CtimerOp.flag, flagStep, pending_congr hl]
    · simp only [Ctimers.step, hcall, CtimerOp.flag, flagStep, pending_erase h.nodup hl]
      exact if_pos (decide_eq_true hc)

theorem run_flag (h : CtimersInv cp s) (ops : List (CtimerOp κ ε π φ)) (hok : ∀ op ∈ ops, op.Ok cp) :
    flagRun s.pending (List.zipWith CtimerOp.flag ops (s.run cp ops).2) =
      some (s.run cp ops).1.pending := by
  induction ops generalizing s with
  | nil => rfl
  | cons op ops ih =>
    have hop := hok op List.mem_cons_self
    simp only [Ctimers.run, List.zipWith_cons_cons, flagRun, step_flag h op, Option.bind_some]
    exact ih (h.step hop) fun o ho => hok o (List.mem_cons_of_mem _ ho)

/-! ## The callback runs -/

def CtimerOp.isEvent : CtimerOp κ ε π φ → Bool
  | .event => true
  | _ => false

theorem start_queue (cs : List κ) (s : Ctimers κ ε π φ) :
    (cs.foldl (fun s c => s.etimer (.set cp (.inl c) (s.timers.timer (.inl c)).interval))
      s).timers.queue = s.timers.queue := by
  induction cs generalizing s with
  | nil => rfl
  | cons c cs ih => exact ih _

/-- Other steps only add to the queue. -/
theorem queue_of_not_event {op : CtimerOp κ ε π φ} (hok : op.Ok cp) (hop : op.isEvent = false) :
    ∃ es, (s.step cp op).1.timers.queue = s.timers.queue ++ es := by
  have hsame : ∀ t : Ctimers κ ε π φ, t.timers.queue = s.timers.queue →
      ∃ es, t.timers.queue = s.timers.queue ++ es := fun t ht => ⟨[], by rw [ht, List.append_nil]⟩
  cases op with
  | start => exact hsame _ (start_queue s.list s)
  | set current c t f =>
    refine hsame _ ?_
    simp only [Ctimers.step, ctimerSet, Ctimers.relist]
    split <;> rfl
  | reset c =>
    refine hsame _ ?_
    simp only [Ctimers.step, ctimerReset, Ctimers.relist]
    split <;> rfl
  | restart c =>
    refine hsame _ ?_
    simp only [Ctimers.step, ctimerRestart, Ctimers.relist]
    split <;> rfl
  | stop c =>
    refine hsame _ ?_
    simp only [Ctimers.step, ctimerStop]
    split
    · exact Timers.queue_etimerStop
    · rfl
  | timers op =>
    cases op with
    | set current t interval | reset current t | restart current t | adjust t timediff | exited p =>
      exact hsame _ rfl
    | stop t => exact hsame _ Timers.queue_etimerStop
    | poll => exact Timers.queue_doPoll
    | tick => exact hsame _ (Timers.tick_eq s.timers).2.2
    | queue op =>
      cases op with
      | take => exact absurd hok id
      | post e =>
        by_cases hroom : s.timers.queue.length < numEvents
        · exact ⟨[e], by simp [Ctimers.step, Ctimers.etimer, Timers.step, fifoStep, hroom]⟩
        · exact hsame _ (by simp [Ctimers.step, Ctimers.etimer, Timers.step, fifoStep, hroom])
  | event => exact absurd hop (by simp [CtimerOp.isEvent])

omit [DecidableEq κ] in
theorem up_of_flagStep [DecidableEq κ] {b b' : κ → Bool} {op : FlagOp κ} (h : flagStep b op = some b')
    (hc : b c) (hstop : op ≠ .stop c) (hfire : op ≠ .fire c) : b' c := by
  cases op with
  | arm d =>
    obtain rfl := Option.some.inj h
    rcases eq_or_ne c d with rfl | hd
    · simp
    · simp [hd, hc]
  | stop d =>
    obtain rfl := Option.some.inj h
    have hd : c ≠ d := fun hd => hstop (hd ▸ rfl)
    simp [hd, hc]
  | fire d =>
    obtain rfl := Option.some.inj (Option.ite_none_right_eq_some.mp h).2
    have hd : c ≠ d := fun hd => hfire (hd ▸ rfl)
    simp [hd, hc]
  | skip =>
    obtain rfl := Option.some.inj h
    exact hc

/-- A pending timer stays pending over a step that neither stops it nor runs its callback. -/
theorem mem_step (h : CtimersInv cp s) (hc : c ∈ s.list) (op : CtimerOp κ ε π φ)
    (hstop : op ≠ .stop c) (hcall : ∀ call, (s.step cp op).2 = some call → call.timer ≠ c) :
    c ∈ (s.step cp op).1.list := by
  suffices hup : (s.step cp op).1.pending c = true from of_decide_eq_true hup
  refine up_of_flagStep (step_flag h op) (decide_eq_true hc) ?_ ?_
  · intro hflag
    cases op with
    | stop d => exact hstop (congrArg _ (FlagOp.stop.inj hflag))
    | set current d t f | reset d | restart d => exact absurd hflag (by simp [CtimerOp.flag])
    | start | timers op => exact absurd hflag (by simp [CtimerOp.flag, Ctimers.step])
    | event =>
      cases hs : (s.step cp .event).2 <;> rw [hs] at hflag <;>
        exact absurd hflag (by simp [CtimerOp.flag])
  · intro hflag
    cases hs : (s.step cp op).2 with
    | none =>
      rw [hs] at hflag
      cases op <;> exact absurd hflag (by simp [CtimerOp.flag])
    | some call =>
      rw [hs] at hflag
      refine hcall call hs ?_
      cases op with
      | set current d t f | reset d | restart d | stop d =>
        exact absurd hflag (by simp [CtimerOp.flag])
      | start | timers op | event => exact FlagOp.fire.inj hflag

omit [DecidableEq ε] in
theorem queue_doEvent {e : Event (κ ⊕ ε) π} {es : List (Event (κ ⊕ ε) π)}
    (hq : s.timers.queue = e :: es) : (doEvent cp s).1.timers.queue = es := by
  unfold doEvent
  rw [hq]
  dsimp only
  split
  · unfold ctimerThread
    split
    · dsimp only
      split <;> rfl
    · rfl
  · rfl

omit [DecidableEq ε] in
/-- The event of a pending timer runs its callback. -/
theorem doEvent_ctimerEvent {es : List (Event (κ ⊕ ε) π)}
    (hq : s.timers.queue = ctimerEvent ε cp c :: es) (hc : c ∈ s.list) :
    (doEvent cp s).2 = some ⟨c, s.p c, s.f c⟩ := by
  unfold doEvent
  rw [hq]
  simp only [timerEvent, and_self, if_true, ctimerThread, hc]

/-- A pending timer whose event is the `i`-th in the queue runs by the time `i + 1` events have been
delivered, unless it is stopped; an older event of the same timer makes it run earlier. -/
theorem runs_within (h : CtimersInv cp s) (hc : c ∈ s.list) {i : ℕ}
    (hev : s.timers.queue[i]? = some (ctimerEvent ε cp c)) (ops : List (CtimerOp κ ε π φ))
    (hok : ∀ op ∈ ops, op.Ok cp) (hstop : .stop c ∉ ops) (hcount : i < ops.countP (·.isEvent)) :
    ∃ call, some call ∈ (s.run cp ops).2 ∧ call.timer = c := by
  induction ops generalizing s i with
  | nil => exact absurd hcount (Nat.not_lt_zero _)
  | cons op ops ih =>
    have hopok := hok op List.mem_cons_self
    have hrest : ∀ o ∈ ops, CtimerOp.Ok cp o := fun o ho => hok o (List.mem_cons_of_mem _ ho)
    by_cases hrun : ∃ call, (s.step cp op).2 = some call ∧ call.timer = c
    · obtain ⟨call, hcall, htimer⟩ := hrun
      exact ⟨call, by simp [Ctimers.run, hcall], htimer⟩
    have hmem := mem_step h hc op (fun ho => hstop (ho ▸ List.mem_cons_self))
      fun call hcall htimer => hrun ⟨call, hcall, htimer⟩
    -- the place of the event after the step
    obtain ⟨j, hj, hlt⟩ : ∃ j, (s.step cp op).1.timers.queue[j]? = some (ctimerEvent ε cp c) ∧
        j < ops.countP (·.isEvent) := by
      cases hop : op.isEvent with
      | false =>
        obtain ⟨es, hes⟩ := queue_of_not_event (s := s) hopok hop
        rw [List.countP_cons_of_neg (by simp [hop])] at hcount
        exact ⟨i, by rw [hes, List.getElem?_append_left (List.getElem?_eq_some_iff.mp hev).1, hev],
          hcount⟩
      | true =>
        obtain rfl : op = .event := by cases op <;> first | rfl | exact absurd hop Bool.false_ne_true
        rw [List.countP_cons_of_pos hop] at hcount
        cases hq : s.timers.queue with
        | nil => simp [hq] at hev
        | cons e es =>
          rw [hq] at hev
          cases i with
          | zero =>
            obtain rfl : e = ctimerEvent ε cp c := by simpa using hev
            exact absurd ⟨_, doEvent_ctimerEvent hq hc, rfl⟩ hrun
          | succ j =>
            rw [List.getElem?_cons_succ] at hev
            exact ⟨j, by rw [Ctimers.step, queue_doEvent hq, hev], Nat.lt_of_succ_lt_succ hcount⟩
    obtain ⟨call, hcall, htimer⟩ := ih (h.step hopok) hmem hj hrest
      (fun ho => hstop (List.mem_cons_of_mem _ ho)) hlt
    exact ⟨call, List.mem_cons_of_mem _ hcall, htimer⟩

/-! ## Runs from the start -/

/-- `ctimer_init`, before the callback timer process has run; the event timer process has just
started. -/
def Ctimers.boot (c : Timing (κ ⊕ ε) π) (p : κ → Option π) (f : κ → Option φ) : Ctimers κ ε π φ where
  timers := Timers.start c
  initialized := false
  list := []
  p := p
  f := f

omit [DecidableEq κ] [DecidableEq ε] [DecidableEq π] in
theorem boot_inv (cp : π) (c : Timing (κ ⊕ ε) π) (p : κ → Option π) (f : κ → Option φ) :
    CtimersInv cp (Ctimers.boot c p f) :=
  ⟨List.nodup_nil, ⟨List.nodup_nil, fun _ h => absurd h List.not_mem_nil⟩,
    fun _ _ h => absurd h List.not_mem_nil, fun _ _ => List.not_mem_nil⟩

/-- In every allowed run, whatever the order of the steps: the pending timers are the flags that
arming raises and stopping or running lowers, where only a raised flag runs; so no callback runs
more often than its timer was armed; and once the callback timer process has started, every
pending timer still has its event timer on the list or its event in the queue. -/
theorem pending_waits (cp : π) (c : Timing (κ ⊕ ε) π) (p : κ → Option π) (f : κ → Option φ)
    (ops : List (CtimerOp κ ε π φ)) (hok : ∀ op ∈ ops, op.Ok cp) :
    let r := (Ctimers.boot c p f).run cp ops
    let flags := List.zipWith CtimerOp.flag ops r.2
    flagRun (fun _ => false) flags = some r.1.pending ∧
      (∀ d, flags.count (.fire d) ≤ flags.count (.arm d)) ∧
      (r.1.initialized → ∀ d ∈ r.1.list, Waits cp r.1.timers d) := by
  have hrun := run_flag (boot_inv cp c p f) ops hok
  refine ⟨hrun, fun d => ?_, ((boot_inv cp c p f).run ops hok).waits⟩
  exact Nat.le_of_add_right_le (fires_le_arms d _ _ _ hrun)

/-- A timer that is set, runs out and has its callback run, and one that is stopped in time. -/
theorem pending_waits_two_timers :
    let r := (Ctimers.boot (κ := ℕ) (ε := Empty) (π := Bool) (φ := ℕ)
      ⟨fun _ => ⟨0, 0⟩, fun _ => none, 0, 0, false⟩ (fun _ => none) fun _ => none).run true
      [.start, .set (some false) 1 1 (some 7), .set (some false) 2 1 (some 8), .timers .tick,
        .timers .poll, .stop 2, .event, .event]
    r.2 = [none, none, none, none, none, none, none, some ⟨1, some false, some 7⟩] ∧
      r.1.initialized ∧ ∀ d ∈ r.1.list, Waits true r.1.timers d := by
  intro r
  have h := pending_waits (κ := ℕ) (ε := Empty) (π := Bool) (φ := ℕ) true
    ⟨fun _ => ⟨0, 0⟩, fun _ => none, 0, 0, false⟩ (fun _ => none) (fun _ => none)
    [.start, .set (some false) 1 1 (some 7), .set (some false) 2 1 (some 8), .timers .tick,
      .timers .poll, .stop 2, .event, .event] (by simp [CtimerOp.Ok])
  have hinit : r.1.initialized = true := by decide
  exact ⟨by decide, hinit, h.2.2 hinit⟩

/-- In every state an allowed run reaches: a pending timer whose event is in the queue has its
callback run by the time as many events have been delivered as are queued, whatever happens in
between, unless it is stopped. The interval it was last armed with plays no part: an event left in
the queue by an earlier expiry is as good. -/
theorem callback_runs (cp : π) (t : Timing (κ ⊕ ε) π) (p : κ → Option π) (f : κ → Option φ)
    (before ops : List (CtimerOp κ ε π φ)) (hbefore : ∀ op ∈ before, op.Ok cp)
    (hok : ∀ op ∈ ops, op.Ok cp) (hstop : .stop c ∉ ops)
    (hc : c ∈ ((Ctimers.boot t p f).run cp before).1.list)
    (hev : ctimerEvent ε cp c ∈ ((Ctimers.boot t p f).run cp before).1.timers.queue)
    (hcount : ((Ctimers.boot t p f).run cp before).1.timers.queue.length ≤
      ops.countP (·.isEvent)) :
    ∃ call, some call ∈ (((Ctimers.boot t p f).run cp before).1.run cp ops).2 ∧ call.timer = c := by
  obtain ⟨i, hi, hget⟩ := List.mem_iff_getElem.mp hev
  exact runs_within ((boot_inv cp t p f).run before hbefore) hc
    (List.getElem?_eq_some_iff.mpr ⟨hi, hget⟩) ops hok hstop (Nat.lt_of_lt_of_le hi hcount)

/-- A timer set for a thousand ticks while the event of its last expiry is still queued: its
callback runs at the next delivery. -/
theorem callback_runs_stale : ∃ call : Call ℕ Bool ℕ,
    some call ∈ (((Ctimers.boot (ε := Empty)
      ⟨fun _ => ⟨0, 0⟩, fun _ => none, 0, 0, false⟩ (fun _ => none) fun _ => none).run true
      [.start, .set (some false) 1 1 (some 7), .timers .tick, .timers .poll,
        .set (some false) 1 1000 (some 8)]).1.run true [.event]).2 ∧ call.timer = 1 :=
  callback_runs true ⟨fun _ => ⟨0, 0⟩, fun _ => none, 0, 0, false⟩ (fun _ => none) (fun _ => none)
    [.start, .set (some false) 1 1 (some 7), .timers .tick, .timers .poll,
      .set (some false) 1 1000 (some 8)] [.event] (by simp [CtimerOp.Ok]) (by simp [CtimerOp.Ok])
    (by simp) (by decide) (by decide) (by decide)

end

end Adler.Kernel
