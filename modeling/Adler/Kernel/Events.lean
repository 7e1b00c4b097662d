/-
  The event queue of the process kernel (`core/sys/process.c`): `process_post` at one end,
  `do_event` at the other.

  * `queueRun_eq_fifo`: over any sequence of posts and deliveries the ring of eight slots returns what
    a bounded first-in first-out queue returns.
  * `events_in_order`: what was delivered, followed by what is still queued, is what was accepted,
    in order: no event is lost, doubled or overtaken. Only a post that finds eight events
    undelivered is refused.
-/
import Adler.Lib.Ring

namespace Adler.Kernel

open Lib

/-- `PROCESS_CONF_NUMEVENTS` -/
def numEvents : ℕ := 8

variable {β : Type*}

/-- `events`, `fevent` and `nevents`. -/
structure Queue (β : Type*) where
  events : ℕ → β
  fevent : UInt8
  nevents : UInt8
  fevent_lt : fevent.toNat < numEvents
  nevents_le : nevents.toNat ≤ numEvents

namespace Queue

/-- As `process_init` leaves it, whatever the slots hold. -/
def init (events : ℕ → β) : Queue β := ⟨events, 0, 0, by decide, by decide⟩

/-- The events waiting, first to be delivered first. -/
def queued (q : Queue β) : List β := window numEvents q.events q.fevent.toNat q.nevents.toNat

theorem length_queued (q : Queue β) : q.queued.length = q.nevents.toNat := length_window

theorem length_queued_le (q : Queue β) : q.queued.length ≤ numEvents :=
  q.length_queued ▸ q.nevents_le

theorem toNat_succ {n : UInt8} (h : n.toNat < numEvents) : (n + 1).toNat = n.toNat + 1 := by
  rw [UInt8.toNat_add]
  exact Nat.mod_eq_of_lt (Nat.lt_of_lt_of_le (Nat.succ_lt_succ h) (by decide))

theorem toNat_pred {n : UInt8} (h : 0 < n.toNat) : (n - 1).toNat = n.toNat - 1 :=
  UInt8.toNat_sub_of_le n 1 (UInt8.le_iff_toNat_le.mpr h)

theorem toNat_slot (i : ℕ) : (UInt8.ofNat (i % numEvents)).toNat = i % numEvents := by
  have := Nat.mod_lt i (show 0 < numEvents by decide)
  exact UInt8.toNat_ofNat_of_lt' (by simp only [UInt8.size, numEvents] at *; omega)

end Queue

open Queue

/-- `process_post`; nothing stands for `PROCESS_ERR_FULL`. -/
def processPost (q : Queue β) (e : β) : Option (Queue β) :=
  if h : q.nevents.toNat = numEvents then none
  else
    let snum := (q.fevent + q.nevents).toNat % numEvents
    some { q with
      events := Function.update q.events snum e
      nevents := q.nevents + 1
      nevents_le := by
        have := q.nevents_le
        rw [toNat_succ (by omega)]
        omega }

/-- The event that `do_event` takes off the queue. -/
def takeEvent (q : Queue β) : Option (β × Queue β) :=
  if h : 0 < q.nevents.toNat then
    some (q.events q.fevent.toNat, { q with
      fevent := UInt8.ofNat ((q.fevent.toNat + 1) % numEvents)
      nevents := q.nevents - 1
      fevent_lt := by
        rw [toNat_slot]
        exact Nat.mod_lt _ (by decide)
      nevents_le := by
        rw [toNat_pred h]
        exact Nat.le_trans (Nat.sub_le _ _) q.nevents_le })
  else none

/-- `process_post` appends, and refuses exactly when eight events are waiting. -/
theorem processPost_queued (q : Queue β) (e : β) :
    (processPost q e).map queued =
      if q.queued.length < numEvents then some (q.queued ++ [e]) else none := by
  have hle := q.nevents_le
  have hlt := q.fevent_lt
  rw [q.length_queued, processPost]
  by_cases h : q.nevents.toNat = numEvents
  · simp [h]
  · have hn : q.nevents.toNat < numEvents := by omega
    have hsum : (q.fevent + q.nevents).toNat = q.fevent.toNat + q.nevents.toNat := by
      rw [UInt8.toNat_add]
      exact Nat.mod_eq_of_lt (by simp only [numEvents] at *; omega)
    simp only [h, hn, dif_neg, not_false_eq_true, Option.map_some, if_true, queued, hsum,
      toNat_succ hn, window_push hn]

/-- `do_event` takes the event that was posted first. -/
theorem takeEvent_queued (q : Queue β) :
    (takeEvent q).map (fun r => (r.1, r.2.queued)) = q.queued.head?.map fun e => (e, q.queued.tail) := by
  rw [takeEvent]
  by_cases h : 0 < q.nevents.toNat
  · obtain ⟨n, hn⟩ := Nat.exists_eq_succ_of_ne_zero (Nat.ne_of_gt h)
    have hq : q.queued = q.events q.fevent.toNat ::
        window numEvents q.events ((q.fevent.toNat + 1) % numEvents) n := by
      rw [queued, hn, Nat.succ_eq_add_one, window_pop, Nat.mod_eq_of_lt q.fevent_lt]
    rw [dif_pos h, hq]
    simp only [Option.map_some, queued, toNat_slot, toNat_pred h, hn, List.head?_cons,
      List.tail_cons, Nat.succ_eq_add_one, Nat.add_sub_cancel]
  · have hn : q.nevents.toNat = 0 := by omega
    rw [dif_neg h]
    simp [queued, hn]

/-! ## Runs -/

/-- What happens at the queue: a post, or `do_event` taking an event. -/
inductive QueueOp (β : Type*)
  | post (e : β)
  | take

/-- What the two return. -/
inductive QueueRet (β : Type*)
  | accepted (e : β)
  | full (e : β)
  | delivered (e : β)
  | idle
  deriving DecidableEq

def queueStep (q : Queue β) : QueueOp β → Queue β × QueueRet β
  | .post e =>
    match processPost q e with
    | none => (q, .full e)
    | some q => (q, .accepted e)
  | .take =>
    match takeEvent q with
    | none => (q, .idle)
    | some r => (r.2, .delivered r.1)

def queueRun : Queue β → List (QueueOp β) → Queue β × List (QueueRet β)
  | q, [] => (q, [])
  | q, op :: ops =>
    ((queueRun (queueStep q op).1 ops).1, (queueStep q op).2 :: (queueRun (queueStep q op).1 ops).2)

/-- A first-in first-out queue with room for eight. -/
def fifoStep (es : List β) : QueueOp β → List β × QueueRet β
  | .post e => if es.length < numEvents then (es ++ [e], .accepted e) else (es, .full e)
  | .take =>
    match es with
    | [] => ([], .idle)
    | e :: es => (es, .delivered e)

def fifoRun : List β → List (QueueOp β) → List β × List (QueueRet β)
  | es, [] => (es, [])
  | es, op :: ops =>
    ((fifoRun (fifoStep es op).1 ops).1, (fifoStep es op).2 :: (fifoRun (fifoStep es op).1 ops).2)

theorem queueStep_eq_fifo (q : Queue β) (op : QueueOp β) :
    ((queueStep q op).1.queued, (queueStep q op).2) = fifoStep q.queued op := by
  cases op with
  | post e =>
    have h := processPost_queued q e
    simp only [queueStep, fifoStep]
    split at h <;> cases hp : processPost q e <;> simp_all
  | take =>
    have h := takeEvent_queued q
    simp only [queueStep, fifoStep]
    cases ht : takeEvent q <;> cases hq : q.queued <;> simp_all

/-- The ring returns what the first-in first-out queue returns, step by step. -/
theorem queueRun_eq_fifo (q : Queue β) (ops : List (QueueOp β)) :
    ((queueRun q ops).1.queued, (queueRun q ops).2) = fifoRun q.queued ops := by
  induction ops generalizing q with
  | nil => rfl
  | cons op ops ih =>
    have hstep := queueStep_eq_fifo q op
    have hrun := ih (queueStep q op).1
    simp only [queueRun, fifoRun, ← hstep, ← hrun]

/-- The events a run accepted, in order. -/
def acceptedEvents (rs : List (QueueRet β)) : List β :=
  rs.filterMap fun
    | .accepted e => some e
    | _ => none

/-- The events a run delivered, in order. -/
def deliveredEvents (rs : List (QueueRet β)) : List β :=
  rs.filterMap fun
    | .delivered e => some e
    | _ => none

theorem fifo_conserves (es : List β) (ops : List (QueueOp β)) :
    deliveredEvents (fifoRun es ops).2 ++ (fifoRun es ops).1 =
      es ++ acceptedEvents (fifoRun es ops).2 := by
  induction ops generalizing es with
  | nil => simp [fifoRun, acceptedEvents, deliveredEvents]
  | cons op ops ih =>
    cases op with
    | post e =>
      simp only [fifoRun, fifoStep]
      split
      · have := ih (es ++ [e])
        simpa [acceptedEvents, deliveredEvents] using this
      · simpa [acceptedEvents, deliveredEvents] using ih es
    | take =>
      cases es with
      | nil => simpa [fifoRun, fifoStep, acceptedEvents, deliveredEvents] using ih []
      | cons e es => simpa [fifoRun, fifoStep, acceptedEvents, deliveredEvents] using ih es

/-- After every run of posts and deliveries: what was delivered, then what is still queued, is
what was accepted, in the order of the posts; and the next post is refused exactly when eight
accepted events have not been delivered yet. -/
theorem events_in_order (events : ℕ → β) (ops : List (QueueOp β)) :
    deliveredEvents (queueRun (.init events) ops).2 ++ (queueRun (.init events) ops).1.queued =
        acceptedEvents (queueRun (.init events) ops).2 ∧
      ∀ e, (queueStep (queueRun (.init events) ops).1 (.post e)).2 = .full e ↔
        (acceptedEvents (queueRun (.init events) ops).2).length =
          (deliveredEvents (queueRun (.init events) ops).2).length + numEvents := by
  have hrun := queueRun_eq_fifo (.init events) ops
  have hcons : deliveredEvents (queueRun (.init events) ops).2 ++
      (queueRun (.init events) ops).1.queued = acceptedEvents (queueRun (.init events) ops).2 := by
    have h := fifo_conserves (Queue.init events).queued ops
    rw [← hrun] at h
    exact h
  refine ⟨hcons, fun e => ?_⟩
  have hlen := (queueRun (.init events) ops).1.length_queued_le
  have hstep := congrArg Prod.snd (queueStep_eq_fifo (queueRun (.init events) ops).1 (.post e))
  simp only at hstep
  rw [hstep, ← hcons, List.length_append, fifoStep]
  split
  · simp only [reduceCtorEq, false_iff]
    omega
  · simp only [true_iff]
    omega

end Adler.Kernel
