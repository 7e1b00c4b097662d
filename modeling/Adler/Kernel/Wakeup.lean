/-
  The event timer process is woken in time.

  The interrupt only compares the clock with `next_expiration`, one word that `update_time` keeps
  for the whole list with wrapping 32-bit arithmetic, and that is stale after a process has exited
  or when a poll finds nothing to do. `woken`: all the same, in every run in which intervals stay
  within half the clock range, a timer on the list whose time has come always has a poll of the
  event timer process asked for, until it is taken off the list or the clock has gone all the way
  round. `posted_or_asked`: that poll posts its event or, when the queue has filled up, asks for
  the next one.

  The runs carry the time on a clock that does not wrap: `now`, and for every timer the moment its
  interval counts from.
-/
import Adler.Kernel.Etimer

namespace Adler.Kernel

variable {τ π : Type*} [DecidableEq τ] [DecidableEq π]

/-- The time that does not wrap, and when each timer that was ever set counts from. -/
structure Wall (τ : Type*) where
  now : ℕ
  since : τ → Option ℕ

/-- The timer counts from `s`. -/
def Wall.set (w : Wall τ) (t : τ) (s : Option ℕ) : Wall τ :=
  { w with since := Function.update w.since t s }

omit [DecidableEq π] in
@[simp] theorem Wall.set_since_self (w : Wall τ) (t : τ) (s : Option ℕ) :
    (w.set t s).since t = s := Function.update_self ..

omit [DecidableEq π] in
@[simp] theorem Wall.set_since_of_ne (w : Wall τ) {t u : τ} (s : Option ℕ) (h : u ≠ t) :
    (w.set t s).since u = w.since u := Function.update_of_ne h ..

/-- What the steps do to the time that does not wrap. -/
def Wall.step (a : Timers τ π) (w : Wall τ) : TimerOp τ π → Wall τ
  | .set _ t _ => w.set t (some w.now)
  | .restart _ t => w.set t (some w.now)
  | .reset _ t => w.set t ((w.since t).map (· + (a.timer t).interval.toNat))
  | .tick => { w with now := w.now + 1 }
  | _ => w

/-- Intervals within half the range of the clock; `etimer_restart` and `etimer_reset` on timers
that were set before, the latter after they have run out; no `etimer_adjust`. -/
def TimerOp.Ok (a : Timers τ π) (w : Wall τ) : TimerOp τ π → Prop
  | .set _ _ interval => interval ≤ maxTicks
  | .restart _ t => (w.since t).isSome
  | .reset _ t => ∃ s, w.since t = some s ∧ s + (a.timer t).interval.toNat ≤ w.now
  | .adjust _ _ => False
  | _ => True

/-- All steps of the run are allowed when their turn comes. -/
def TimersOk : Timers τ π → Wall τ → List (TimerOp τ π) → Prop
  | _, _, [] => True
  | a, w, op :: ops => op.Ok a w ∧ TimersOk (a.step op).1 (w.step a op) ops

def Wall.run : Timers τ π → Wall τ → List (TimerOp τ π) → Wall τ
  | _, w, [] => w
  | a, w, op :: ops => run (a.step op).1 (w.step a op) ops

/-- The interval of a timer that counts from `s` has passed, but not yet the whole clock range. -/
def Passed (c : Timing τ π) (now : ℕ) (t : τ) (s : ℕ) : Prop :=
  s + (c.timer t).interval.toNat ≤ now ∧ now < s + (2 ^ 32 - 1)

/-- The clock, and what it says about a timer that counts from `s`. -/
structure Tells (c : Timing τ π) (w : Wall τ) : Prop where
  count : c.count.toNat = w.now % 2 ^ 32
  start : ∀ t s, w.since t = some s → (c.timer t).start.toNat = s % 2 ^ 32
  past : ∀ t s, w.since t = some s → s ≤ w.now
  interval : ∀ t s, w.since t = some s → (c.timer t).interval.toNat ≤ maxTicks.toNat

/-- The word the interrupt looks at comes no later than the first timer that has not run out, and
not before that timer was set. -/
def Ahead (c : Timing τ π) (w : Wall τ) (l : List τ) : Prop :=
  ∃ e, c.nextExpiration.toNat = e % 2 ^ 32 ∧ ∀ t ∈ l, ∀ s, w.since t = some s →
    w.now < s + (c.timer t).interval.toNat → s ≤ e ∧ e ≤ s + (c.timer t).interval.toNat

structure Inv (a : Timers τ π) (w : Wall τ) : Prop where
  tells : Tells a.toTiming w
  known : ∀ t ∈ a.list, (w.since t).isSome
  asked : ∀ t ∈ a.list, ∀ s, w.since t = some s → Passed a.toTiming w.now t s → a.needspoll
  ahead : Ahead a.toTiming w a.list

/-! ## The arithmetic of the clock -/

section

variable {c : Timing τ π} {w : Wall τ} {t : τ} {s : ℕ}

omit [DecidableEq τ] [DecidableEq π] in
/-- Within one turn of the clock `timer_expired` tells whether the interval has passed. -/
theorem due_iff (h : Tells c w) (hs : w.since t = some s) (hw : w.now < s + (2 ^ 32 - 1)) :
    c.due t ↔ s + (c.timer t).interval.toNat ≤ w.now := by
  have hc := h.count
  have hst := h.start t s hs
  have hp := h.past t s hs
  have helapsed : (c.count - (c.timer t).start + 1).toNat = w.now - s + 1 := by
    rw [UInt32.toNat_add, UInt32.toNat_sub, hc, hst, UInt32.toNat_one]
    omega
  rw [Timing.due, timerExpired, decide_eq_true_iff, UInt32.lt_iff_toNat_lt, helapsed]
  omega

omit [DecidableEq τ] [DecidableEq π] in
/-- The distance to a timer that has not run out is the time that is left. -/
theorem dist_eq (h : Tells c w) (hs : w.since t = some s)
    (hn : w.now < s + (c.timer t).interval.toNat) :
    ((c.timer t).dist c.count).toNat = s + (c.timer t).interval.toNat - w.now := by
  have hc := h.count
  have hst := h.start t s hs
  have hp := h.past t s hs
  have hi := h.interval t s hs
  have hm : maxTicks.toNat = 2 ^ 31 - 1 := rfl
  rw [Timer.dist, UInt32.toNat_sub, UInt32.toNat_add, hc, hst]
  omega

omit [DecidableEq τ] in
theorem foldl_le (f : τ → UInt32) (ts : List τ) (d : UInt32) :
    ts.foldl (fun d t => if f t < d then f t else d) d ≤ d ∧
      ∀ t ∈ ts, ts.foldl (fun d t => if f t < d then f t else d) d ≤ f t := by
  induction ts generalizing d with
  | nil => exact ⟨UInt32.le_refl d, fun _ h => absurd h List.not_mem_nil⟩
  | cons u ts ih =>
    rw [List.foldl_cons]
    obtain ⟨h1, h2⟩ := ih (if f u < d then f u else d)
    have hd : (if f u < d then f u else d) ≤ d := by
      split
      · exact UInt32.le_of_lt ‹_›
      · exact UInt32.le_refl d
    have hu : (if f u < d then f u else d) ≤ f u := by
      split
      · exact UInt32.le_refl _
      · exact UInt32.not_lt.mp ‹_›
    refine ⟨UInt32.le_trans h1 hd, fun t ht => ?_⟩
    rcases List.mem_cons.mp ht with rfl | ht
    · exact UInt32.le_trans h1 hu
    · exact h2 t ht

omit [DecidableEq τ] [DecidableEq π] in
/-- What `update_time` leaves is ahead, whatever expired timers the list still holds. -/
theorem ahead_nextOf (h : Tells c w) (l : List τ) :
    Ahead { c with nextExpiration := nextOf c l } w l := by
  cases l with
  | nil => exact ⟨0, rfl, fun _ ht => absurd ht List.not_mem_nil⟩
  | cons u ts =>
    obtain ⟨hu, hts⟩ := foldl_le (fun t => (c.timer t).dist c.count) ts ((c.timer u).dist c.count)
    set d := ts.foldl (fun d t =>
      if (c.timer t).dist c.count < d then (c.timer t).dist c.count else d)
      ((c.timer u).dist c.count) with hd
    refine ⟨w.now + d.toNat, ?_, fun t ht s hs hn => ?_⟩
    · show (c.count + d).toNat = _
      rw [UInt32.toNat_add, h.count]
      omega
    · have hp := h.past t s hs
      have hle : d.toNat ≤ ((c.timer t).dist c.count).toNat := by
        rcases List.mem_cons.mp ht with rfl | ht
        · exact UInt32.le_iff_toNat_le.mp hu
        · exact UInt32.le_iff_toNat_le.mp (hts t ht)
      rw [dist_eq h hs hn] at hle
      change w.now < s + (c.timer t).interval.toNat at hn
      constructor
      · omega
      · show w.now + d.toNat ≤ s + (c.timer t).interval.toNat
        omega

end

/-! ## One lemma for each step -/

section

variable {a : Timers τ π} {w : Wall τ} {t : τ} {s : ℕ}

omit [DecidableEq τ] [DecidableEq π] in
theorem Ahead.subset {c : Timing τ π} {l l' : List τ} (h : Ahead c w l) (hl : l' ⊆ l) :
    Ahead c w l' := by
  obtain ⟨e, he, hall⟩ := h
  exact ⟨e, he, fun t ht => hall t (hl ht)⟩

omit [DecidableEq π] in
theorem Tells.set {c : Timing τ π} (h : Tells c w) {v : Timer} (hstart : v.start.toNat = s % 2 ^ 32)
    (hpast : s ≤ w.now) (hinterval : v.interval.toNat ≤ maxTicks.toNat) :
    Tells (c.setTimer t v) (w.set t (some s)) where
  count := h.count
  start u r hr := by
    rcases eq_or_ne u t with rfl | hu
    · rw [Wall.set_since_self] at hr
      simpa [Timing.setTimer, ← Option.some.inj hr] using hstart
    · rw [Wall.set_since_of_ne _ _ hu] at hr
      simpa [Timing.setTimer, hu] using h.start u r hr
  past u r hr := by
    rcases eq_or_ne u t with rfl | hu
    · rw [Wall.set_since_self] at hr
      exact Option.some.inj hr ▸ hpast
    · rw [Wall.set_since_of_ne _ _ hu] at hr
      exact h.past u r hr
  interval u r hr := by
    rcases eq_or_ne u t with rfl | hu
    · simpa [Timing.setTimer] using hinterval
    · rw [Wall.set_since_of_ne _ _ hu] at hr
      simpa [Timing.setTimer, hu] using h.interval u r hr

omit [DecidableEq π] in
/-- The three ways to put a timer on the list: it counts from `s` on, and the poll asked for covers
every timer that has run out. -/
theorem Inv.addTimer (h : Inv a w) {v : Timer} (hstart : v.start.toNat = s % 2 ^ 32)
    (hpast : s ≤ w.now) (hinterval : v.interval.toNat ≤ maxTicks.toNat) (current : π) :
    Inv ((a.setTimer t v).addTimer current t) (w.set t (some s)) := by
  have htells := h.tells.set (t := t) hstart hpast hinterval
  refine ⟨⟨htells.count, htells.start, htells.past, htells.interval⟩, fun u hu => ?_,
    fun _ _ _ _ _ => rfl, ahead_nextOf ⟨htells.count, htells.start, htells.past, htells.interval⟩ _⟩
  rcases eq_or_ne u t with rfl | hut
  · simp
  · have hmem : u ∈ a.list := by
      by_cases ht : t ∈ a.list
      · simpa [Timers.addTimer, Timers.updateTime, Timers.setTimer, ht] using hu
      · simpa [Timers.addTimer, Timers.updateTime, Timers.setTimer, ht, hut] using hu
    simpa [hut] using h.known u hmem

omit [DecidableEq τ] [DecidableEq π] in
/-- Taking timers off the list, with or without a new look at the times. -/
theorem Inv.sublist (h : Inv a w) {b : Timers τ π} (hl : b.list ⊆ a.list) (ht : b.timer = a.timer)
    (hc : b.count = a.count) (hn : b.needspoll = a.needspoll)
    (hnext : b.nextExpiration = a.nextExpiration ∨ b.nextExpiration = nextOf b.toTiming b.list) :
    Inv b w := by
  have htells : Tells b.toTiming w := by
    refine ⟨?_, ?_, h.tells.past, ?_⟩
    · rw [hc]
      exact h.tells.count
    · rw [ht]
      exact h.tells.start
    · rw [ht]
      exact h.tells.interval
  refine ⟨htells, fun t hm => h.known t (hl hm), fun t hm s hs hp => ?_, ?_⟩
  · rw [hn]
    refine h.asked t (hl hm) s hs ?_
    rwa [Passed, ht] at hp
  · rcases hnext with hsame | hnew
    · obtain ⟨e, he, hall⟩ := h.ahead.subset hl
      exact ⟨e, by rw [hsame, he], by rwa [ht]⟩
    · have := ahead_nextOf htells b.list
      rwa [Ahead, ← hnew] at this

omit [DecidableEq π] in
/-- A poll: the timers that stay on the list although they have run out ask for the next one. -/
theorem handlePoll_inv (htells : Tells a.toTiming w) (hknown : ∀ t ∈ a.list, (w.since t).isSome)
    (hahead : Ahead a.toTiming w a.list) : Inv a.handlePoll w := by
  have hl : a.handlePoll.list ⊆ a.list := List.filter_subset_self _
  refine ⟨⟨htells.count, htells.start, htells.past, htells.interval⟩,
    fun t ht => hknown t (hl ht), fun t ht s hs hp => ?_, ?_⟩
  · have hdue : a.due t := (due_iff htells hs hp.2).mpr hp.1
    show (a.needspoll || a.handlePoll.list.any a.due) = true
    rw [Bool.or_eq_true, List.any_eq_true]
    exact .inr ⟨t, ht, hdue⟩
  · by_cases hnil : a.posted = []
    · obtain ⟨e, he, hall⟩ := hahead.subset hl
      exact ⟨e, by simpa [Timers.handlePoll, hnil] using he, hall⟩
    · obtain ⟨e, he, hall⟩ := ahead_nextOf htells a.handlePoll.list
      exact ⟨e, by simpa [Timers.handlePoll, hnil] using he, hall⟩

omit [DecidableEq τ] [DecidableEq π] in
/-- The interrupt asks for a poll when the word it looks at has been reached, by less than half the
clock range. -/
theorem tick_asks {c : Timing τ π} {e : ℕ} (hc : (c.count + 1).toNat = (w.now + 1) % 2 ^ 32)
    (he : c.nextExpiration.toNat = e % 2 ^ 32) (hle : e ≤ w.now + 1)
    (hnear : w.now + 1 ≤ e + maxTicks.toNat) :
    c.nextExpiration - (c.count + 1) - 1 > maxTicks := by
  have hm : maxTicks.toNat = 2 ^ 31 - 1 := rfl
  rw [gt_iff_lt, UInt32.lt_iff_toNat_lt, UInt32.toNat_sub, UInt32.toNat_sub, hc, he,
    UInt32.toNat_one]
  omega

omit [DecidableEq τ] [DecidableEq π] in
/-- A tick: what runs out now was ahead, so the interrupt sees it. -/
theorem Inv.tick (h : Inv a w) : Inv a.tick { w with now := w.now + 1 } := by
  have hcount : (a.count + 1).toNat = (w.now + 1) % 2 ^ 32 := by
    rw [UInt32.toNat_add, h.tells.count, UInt32.toNat_one]
    omega
  have hfields : a.tick.timer = a.timer ∧ a.tick.count = a.count + 1 ∧ a.tick.list = a.list ∧
      a.tick.nextExpiration = a.nextExpiration := by
    unfold Timers.tick
    dsimp only
    split <;> exact ⟨rfl, rfl, rfl, rfl⟩
  obtain ⟨htimer, hc, hl, hnext⟩ := hfields
  refine ⟨⟨by rw [hc, hcount], ?_, fun t s hs => Nat.le_succ_of_le (h.tells.past t s hs), ?_⟩,
    ?_, fun t ht s hs hp => ?_, ?_⟩
  · rw [htimer]
    exact h.tells.start
  · rw [htimer]
    exact h.tells.interval
  · rw [hl]
    exact h.known
  · rw [hl] at ht
    rw [Passed, htimer] at hp
    obtain ⟨hrun, hwrap⟩ : s + (a.timer t).interval.toNat ≤ w.now + 1 ∧
      w.now + 1 < s + (2 ^ 32 - 1) := hp
    have hpast := h.tells.past t s hs
    have hint := h.tells.interval t s hs
    have hm : maxTicks.toNat = 2 ^ 31 - 1 := rfl
    by_cases hold : s + (a.timer t).interval.toNat ≤ w.now
    · have hask := h.asked t ht s hs ⟨hold, by omega⟩
      unfold Timers.tick
      dsimp only
      split
      · rfl
      · exact hask
    · obtain ⟨e, he, hall⟩ := h.ahead
      obtain ⟨hse, hle⟩ := hall t ht s hs (by omega)
      have hcond : a.list ≠ [] ∧ a.nextExpiration - (a.count + 1) - 1 > maxTicks :=
        ⟨List.ne_nil_of_mem ht, tick_asks hcount he (by omega) (by omega)⟩
      unfold Timers.tick
      dsimp only
      rw [if_pos hcond]
  · obtain ⟨e, he, hall⟩ := h.ahead
    refine ⟨e, by rw [hnext, he], fun t ht s hs hn => ?_⟩
    rw [hl] at ht
    rw [htimer] at hn ⊢
    exact hall t ht s hs (Nat.lt_of_succ_lt hn)

/-- Every allowed step keeps the invariant. -/
theorem Inv.step (h : Inv a w) (op : TimerOp τ π) (hok : op.Ok a w) :
    Inv (a.step op).1 (w.step a op) := by
  cases op with
  | set current t interval =>
    exact h.addTimer h.tells.count (Nat.le_refl _)
      (UInt32.le_iff_toNat_le.mp (show interval ≤ maxTicks from hok)) current
  | restart current t =>
    obtain ⟨s, hs⟩ := Option.isSome_iff_exists.mp hok
    exact h.addTimer (v := timerRestart a.count (a.timer t)) h.tells.count (Nat.le_refl _)
      (h.tells.interval t s hs) current
  | reset current t =>
    obtain ⟨s, hs, hpast⟩ := hok
    have hstart : (timerReset (a.timer t)).start.toNat =
        (s + (a.timer t).interval.toNat) % 2 ^ 32 := by
      have := h.tells.start t s hs
      simp only [timerReset, UInt32.toNat_add, this]
      omega
    have := h.addTimer (t := t) hstart hpast (h.tells.interval t s hs) current
    rwa [Wall.step, hs]
  | adjust t timediff => exact absurd hok id
  | stop t =>
    refine h.sublist ?_ ?_ ?_ ?_ ?_ <;> unfold Timers.step Timers.etimerStop <;> dsimp only <;>
      split
    all_goals first
      | rfl
      | exact List.erase_subset
      | exact List.Subset.refl _
      | exact .inl rfl
      | exact .inr (nextOf_congr rfl rfl _)
  | exited p => exact h.sublist (List.filter_subset_self _) rfl rfl rfl (.inl rfl)
  | poll =>
    show Inv a.doPoll w
    unfold Timers.doPoll
    split
    · exact handlePoll_inv (a := { a with needspoll := false })
        ⟨h.tells.count, h.tells.start, h.tells.past, h.tells.interval⟩ h.known h.ahead
    · exact h
  | tick => exact h.tick
  | queue op => exact h.sublist (List.Subset.refl _) rfl rfl rfl (.inl rfl)

theorem Inv.run (h : Inv a w) (ops : List (TimerOp τ π)) (hok : TimersOk a w ops) :
    Inv (a.run ops).1 (w.run a ops) := by
  induction ops generalizing a w with
  | nil => exact h
  | cons op ops ih => exact ih (h.step op hok.1) hok.2

omit [DecidableEq π] in
/-- A poll posts the event of a timer that has run out, or finds the queue full and asks for the
next poll. -/
theorem posted_or_asked (ht : t ∈ a.list) (hd : a.due t) (hq : a.queue.length ≤ numEvents) :
    (t ∉ a.handlePoll.list ∧ timerEvent (a.p t) t ∈ a.handlePoll.queue ∧ a.handlePoll.p t = none) ∨
      (t ∈ a.handlePoll.list ∧ a.handlePoll.needspoll ∧
        a.handlePoll.queue.length = numEvents) := by
  by_cases hp : t ∈ a.posted
  · refine .inl ⟨fun h => ?_, ?_, if_pos hp⟩
    · exact of_decide_eq_true (List.mem_filter.mp h).2 hp
    · exact List.mem_append_right _ (List.mem_map.mpr ⟨t, hp, rfl⟩)
  · have hmem : t ∈ a.handlePoll.list := List.mem_filter.mpr ⟨ht, decide_eq_true hp⟩
    refine .inr ⟨hmem, ?_, ?_⟩
    · show (a.needspoll || a.handlePoll.list.any a.due) = true
      rw [Bool.or_eq_true, List.any_eq_true]
      exact .inr ⟨t, hmem, hd⟩
    · -- `t` was cut off, so the events that were posted fill the queue
      have hcut : numEvents - a.queue.length ≤ (a.list.filter a.due).length := by
        refine Nat.le_of_lt (Nat.lt_of_not_le fun hle => hp ?_)
        rw [Timers.posted, List.take_of_length_le hle]
        exact List.mem_filter.mpr ⟨ht, hd⟩
      have hlen : a.posted.length = numEvents - a.queue.length := by
        rw [Timers.posted, List.length_take]
        omega
      show (a.queue ++ a.posted.map _).length = numEvents
      rw [List.length_append, List.length_map, hlen]
      omega

/-- After every allowed run from the start of the event timer process: a timer on the list whose
interval has passed has a poll asked for, as long as the clock has not gone all the way round; and
that poll either posts its event and marks it expired, or leaves a full queue and asks for the
next one. -/
theorem woken (fuel : ℕ) (c : Timing τ π) (next : τ → Option τ) (events : ℕ → Event τ π)
    (ops : List (TimerOp τ π)) (hf : (ops.length + 1) * (ops.length + 1) < fuel)
    (hok : TimersOk (Timers.start c) ⟨c.count.toNat, fun _ => none⟩ ops) :
    ∃ s rs, memRun fuel ⟨c, none, next, .init events⟩ ops = some (s, rs) ∧
      ∀ t r, onList s t fuel s.timerlist = some true →
        (Wall.run (Timers.start c) ⟨c.count.toNat, fun _ => none⟩ ops).since t = some r →
        Passed s.toTiming (Wall.run (Timers.start c) ⟨c.count.toNat, fun _ => none⟩ ops).now t r →
        s.needspoll ∧ ∃ s', doPoll fuel s = some s' ∧
          ((onList s' t fuel s'.timerlist = some false ∧
              timerEvent (s.p t) t ∈ s'.queue.queued ∧ etimerExpired s' t) ∨
            (onList s' t fuel s'.timerlist = some true ∧ s'.needspoll ∧
              s'.queue.queued.length = numEvents)) := by
  have hinv : Inv (Timers.start c) ⟨c.count.toNat, fun _ => none⟩ :=
    ⟨⟨(Nat.mod_eq_of_lt (UInt32.toNat_lt _)).symm, by simp, by simp, by simp⟩, by simp [Timers.start],
      by simp [Timers.start], ⟨_, (Nat.mod_eq_of_lt (UInt32.toNat_lt _)).symm, by simp [Timers.start]⟩⟩
  have hi := hinv.run ops hok
  obtain ⟨s, hs, hrep⟩ := memRun_refines_from fuel (rep_start c next events) ops
    (Nat.lt_of_le_of_lt (Nat.mul_le_mul (by simp [Timers.start]) (by simp [Timers.start])) hf)
  refine ⟨s, _, hs, fun t r hon hr hp => ?_⟩
  have hle := length_run_le (Timers.start c) ops
  generalize ((Timers.start c).run ops).1 = a at hi hrep hle
  generalize Wall.run (Timers.start c) ⟨c.count.toNat, fun _ => none⟩ ops = w at hi hr hp
  have hlen : a.list.length ≤ ops.length := by simpa [Timers.start] using hle
  have hsq : (a.list.length + 1) * (a.list.length + 1) < fuel :=
    Nat.lt_of_le_of_lt (Nat.mul_le_mul (by omega) (by omega)) hf
  have hshort : a.list.length < fuel :=
    Nat.lt_of_lt_of_le (Nat.lt_succ_self _) (Nat.le_of_lt
      (Nat.lt_of_le_of_lt (Nat.le_mul_of_pos_right _ (Nat.succ_pos _)) hsq))
  have hmem : t ∈ a.list := by
    rw [onList_eq hrep.chain hshort] at hon
    simpa using hon
  rw [hrep.timing] at hp
  have hask := hi.asked t hmem r hr hp
  refine ⟨by rw [hrep.timing]; exact hask, ?_⟩
  obtain ⟨s', hs', h'⟩ := doPoll_refines fuel hrep (by rw [Nat.add_mul] at hsq; omega)
  refine ⟨s', hs', ?_⟩
  rw [Timers.doPoll, if_pos hask] at h'
  have hshort' : (Timers.handlePoll { a with needspoll := false }).list.length < fuel :=
    Nat.lt_of_le_of_lt (List.length_filter_le _ _) hshort
  rw [onList_eq h'.chain hshort', h'.queue, etimerExpired, h'.p_eq, hrep.p_eq]
  have hdue : a.due t := (due_iff hi.tells hr hp.2).mpr hp.1
  rcases posted_or_asked (a := { a with needspoll := false }) hmem hdue
    (hrep.queue ▸ s.queue.length_queued_le) with ⟨hoff, hev, hnone⟩ | ⟨hstay, hagain, hfull⟩
  · exact .inl ⟨by simp [hoff], hev, by rw [hnone]; rfl⟩
  · exact .inr ⟨by simp [hstay], by rw [h'.timing]; exact hagain, hfull⟩

/-- A timer set just before the clock wraps: two ticks later the poll is asked for. -/
theorem woken_across_wrap : ∃ (s : Memory ℕ Bool) (rs : _), memRun 26
    ⟨⟨fun _ => ⟨0, 0⟩, fun _ => none, 0, 0xffffffff, false⟩, none, fun _ => none,
      .init fun _ => ⟨0, .raw 0, none⟩⟩ [.set true 1 2, .poll, .tick, .tick] = some (s, rs) ∧
    s.needspoll := by
  obtain ⟨s, rs, hs, h⟩ := woken (τ := ℕ) (π := Bool) 26
    ⟨fun _ => ⟨0, 0⟩, fun _ => none, 0, 0xffffffff, false⟩ (fun _ => none)
    (fun _ => ⟨0, .raw 0, none⟩) [.set true 1 2, .poll, .tick, .tick] (by decide)
    ⟨show (2 : UInt32) ≤ maxTicks by decide, trivial, trivial, trivial, trivial⟩
  have hget : (memRun 26 (⟨⟨fun _ => ⟨0, 0⟩, fun _ => none, 0, 0xffffffff, false⟩, none,
      fun _ => none, .init fun _ => ⟨0, .raw 0, none⟩⟩ : Memory ℕ Bool)
      [.set true 1 2, .poll, .tick, .tick]).map (fun r =>
        ((r.1.timer 1).interval, onList r.1 1 26 r.1.timerlist)) = some (2, some true) := by decide
  rw [hs] at hget
  obtain ⟨hint, hon⟩ := Prod.ext_iff.mp (Option.some.inj hget)
  refine ⟨s, rs, hs, (h 1 0xffffffff hon rfl ?_).1⟩
  rw [Passed, show (s.timer 1).interval = 2 from hint]
  decide

end

end Adler.Kernel
