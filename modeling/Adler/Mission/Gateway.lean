/-
  The process of the gateway mote, `ota_gateway/gateway.c`, and its serial line to the computer on
  the UAV, `ota_gateway/serial_thread.c`.

  The process waits in its loop; a step of it handles the oldest event of its queue. Frames are
  whole here: the bytes of a frame and its check byte are not modelled, a frame that fails its
  check does not arrive.

  `queue` holds the events of this process among those in the ring of the kernel. `post` assumes
  that the ring is not full (`NotFull`); `post_held` and `handle_held` are what `process_post` and
  `do_event` then do to the ring.
-/
import Adler.Deluge.Node
import Adler.Kernel.Events

namespace Adler.Mission

open Deluge (RimeAddr)
open Kernel (Queue numEvents processPost processPost_queued takeEvent takeEvent_queued)

/-- `NET_CMD`. -/
inductive NetCmd where
  | startMission
  | stopMission
  | startFly
  | stopFly
deriving DecidableEq

/-- The byte that stands for a command. -/
@[simp] def NetCmd.code : NetCmd → Nat
  | .startMission => 1
  | .stopMission => 2
  | .startFly => 3
  | .stopFly => 4

/-- What `reset_UAV_cmd` and `reset_gateway_cmd` leave: no command. -/
@[simp] abbrev noCmd : Nat := 255

/-- A `port_frame`: `CMD_FRAME` with its byte, `REPORT_FRAME` with its `network_report`. -/
inductive Frame where
  | cmd (data : Nat)
  | report (nodeAddr : RimeAddr)
deriving DecidableEq

/-- The address of a report. -/
def Frame.nodeAddr? : Frame → Option RimeAddr
  | .cmd _ => none
  | .report a => some a

/-- `gateway_state`. -/
inductive GatewayState where
  | init
  | sleep
  | mission
deriving DecidableEq

/-- The events posted to `gateway_process`. -/
inductive GatewayEvent where
  /-- `serial_event`: a frame has been decoded. -/
  | serial
  /-- `deluge_event`, whose data is a pointer to `current_object.summary_from`. -/
  | deluge
  /-- `PROCESS_EVENT_TIMER` for `mission_et`. -/
  | timer
deriving DecidableEq

/-- The variables of `gateway.c` and `serial_thread.c`, and the events queued for the process. -/
structure Gateway where
  state : GatewayState
  uavCmd : Nat
  /-- `mission_et` is running. -/
  missionEt : Bool
  queue : List GatewayEvent
deriving DecidableEq

namespace Gateway

/-- The gateway when its process has come to its loop. -/
def start : Gateway := ⟨.sleep, noCmd, false, []⟩

/-- `process_post(&gateway_process, ev, ..)` when the ring of the kernel is not full. -/
def post (ev : GatewayEvent) (g : Gateway) : Gateway := { g with queue := g.queue ++ [ev] }

/-- `data_decode` of `serial_thread.c`. -/
def dataDecode (f : Frame) (g : Gateway) : Gateway :=
  match f with
  | .cmd data => { g with uavCmd := data }
  | .report _ => g

/-- A frame arrives whole: the end of `frame_decode`. -/
def receive (f : Frame) (g : Gateway) : Gateway := post .serial (dataDecode f g)

/-- `mission_et` runs down and `etimer_process` posts its event. -/
def expire (g : Gateway) : Gateway :=
  if g.missionEt then post .timer { g with missionEt := false } else g

/-- `reset_UAV_cmd`. -/
def resetUavCmd (g : Gateway) : Gateway := { g with uavCmd := noCmd }

/-- The body of the loop of `gateway_process` for one event, and the frames it sends.
    `summaryFrom` is what the pointer of a `deluge_event` points at when the event is handled. -/
def process (summaryFrom : RimeAddr) (ev : GatewayEvent) (g : Gateway) : Gateway × List Frame :=
  match ev with
  | .serial =>
    if g.state = .sleep then
      if g.uavCmd = NetCmd.startMission.code then
        ({ g with state := .mission, missionEt := true }, [])
      else (g, [])
    else (g, [])
  | .deluge => (g, [.report summaryFrom])
  | .timer => (resetUavCmd { g with state := .sleep }, [.cmd NetCmd.startFly.code])

/-- `do_event` of the Contiki core for this process: the oldest event is taken out and handled. -/
def handle (summaryFrom : RimeAddr) (g : Gateway) : Gateway × List Frame :=
  match g.queue with
  | [] => (g, [])
  | ev :: rest => process summaryFrom ev { g with queue := rest }

theorem process_queue (a : RimeAddr) (ev : GatewayEvent) (g : Gateway) :
    (process a ev g).1.queue = g.queue := by
  cases ev with
  | serial =>
    simp only [process]
    split
    · split <;> rfl
    · rfl
  | deluge => rfl
  | timer => rfl

/-! ## The ring of the kernel -/

section

variable {β : Type*} {own : β → Option GatewayEvent} {q : Queue β} {g : Gateway} {e : β}

/-- Fewer than `PROCESS_CONF_NUMEVENTS` events wait, those of all processes. -/
def NotFull (q : Queue β) : Prop := q.queued.length < numEvents

/-- The events of the process in the ring, which `own` tells from the others, are its queue. -/
def Held (own : β → Option GatewayEvent) (q : Queue β) (g : Gateway) : Prop :=
  q.queued.filterMap own = g.queue

/-- A post of an event to this process or to another. -/
theorem post_held (h : Held own q g) (hq : NotFull q) :
    ∃ q', processPost q e = some q' ∧ Held own q' (match own e with
      | some ev => g.post ev
      | none => g) := by
  have hpost := processPost_queued q e
  rw [if_pos (show q.queued.length < numEvents from hq)] at hpost
  obtain ⟨q', hq', hqueued⟩ := Option.map_eq_some_iff.mp hpost
  refine ⟨q', hq', ?_⟩
  unfold Held at h ⊢
  rw [hqueued, List.filterMap_append, h]
  cases hown : own e with
  | none => simp [hown]
  | some ev => simp [hown, post]

/-- The event that `do_event` takes is the one the process handles next, if it is one of its own. -/
theorem handle_held {q' : Queue β} (h : Held own q g) (htake : takeEvent q = some (e, q'))
    (a : RimeAddr) : match own e with
      | some ev => g.handle a = process a ev { g with queue := g.queue.tail } ∧
          Held own q' (g.handle a).1
      | none => Held own q' g := by
  have hqueued := takeEvent_queued q
  rw [htake, Option.map_some] at hqueued
  obtain ⟨e', hhead, heq⟩ := Option.map_eq_some_iff.mp hqueued.symm
  obtain ⟨rfl, htail⟩ := Prod.mk.inj heq
  have hcons : q.queued = e' :: q'.queued := by
    rw [← htail]
    exact (List.cons_head?_tail hhead).symm
  unfold Held at h ⊢
  rw [hcons, List.filterMap_cons] at h
  cases hown : own e' with
  | none =>
    rw [hown] at h
    exact h
  | some ev =>
    rw [hown] at h
    have hhandle : g.handle a = process a ev { g with queue := g.queue.tail } := by
      unfold handle
      rw [← h]
      rfl
    refine ⟨hhandle, ?_⟩
    rw [hhandle, process_queue, ← h]
    rfl

end

end Gateway

end Adler.Mission
