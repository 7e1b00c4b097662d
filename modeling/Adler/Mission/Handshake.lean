/-
  A mission: the UAV flies to a point and tells `network_control`, which has the gateway start a
  mission; when the mission time is over the gateway has the UAV fly on.

  * `Sys`, `Act`, `Sys.next`: the UAV's task, the loop and the reading thread of `network_control`, the
    gateway's process, and the four channels between them. Messages keep their order. Any of them may
    be lost, on the serial line as on a topic, whose queues of ten drop the oldest message.
  * `Tally`: a ghost that counts what has happened since the start.
  * `Inv`: the state of each party that stands for the right to pass the word on is a token of the
    link it is on (`Lib.Link`).
  * `handshake_safe`: the UAV leaves a point only after the mission started for it has ended.
-/
import Adler.Lib.Run
import Adler.Lib.Tokens
import Adler.Mission.Onboard

namespace Adler.Mission

open Deluge (RimeAddr)
open Lib (Reach observed Link)

/-- The parties and the channels between them. -/
structure Sys where
  uav : Uav
  nc : NetworkControl
  gateway : Gateway
  /-- `/uav_control/control`. -/
  uavTopic : List FlightState
  /-- `/network/control`. -/
  netTopic : List NetworkState
  /-- The serial line to the gateway. -/
  toGateway : List Frame
  /-- The serial line from the gateway. -/
  fromGateway : List Frame

inductive Channel where
  | uavTopic
  | netTopic
  | toGateway
  | fromGateway

/-- What can happen next. -/
inductive Act where
  /-- The operator starts the UAV. -/
  | takeOff
  /-- `gps_callback` runs `task_state_machine`. -/
  | task (finished landed : Bool)
  /-- The UAV is given the oldest message of `/network/control`. -/
  | networkState
  /-- `network_control` is given the oldest message of `/uav_control/control`. -/
  | uavState
  /-- Its main loop goes on. -/
  | main
  /-- Its reading thread receives the oldest frame. -/
  | read
  /-- The gateway receives the oldest frame. -/
  | receive
  /-- `mission_et` runs down. -/
  | expire
  /-- The Deluge module of the gateway posts a `deluge_event`. -/
  | report
  /-- The gateway's process is given its next event. -/
  | handle (summaryFrom : RimeAddr)
  /-- Message `k` of a channel is lost. -/
  | lose (c : Channel) (k : Nat)

namespace Sys

def start : Sys := ⟨.start, .start, .start, [], [], [], []⟩

def afterTask (finished landed : Bool) (x : Sys) : Sys :=
  let r := x.uav.taskStateMachine finished landed
  { x with uav := r.1, uavTopic := x.uavTopic ++ r.2 }

def afterMain (x : Sys) : Sys :=
  let r := x.nc.main
  { x with nc := r.1, toGateway := x.toGateway ++ r.2.1, netTopic := x.netTopic ++ r.2.2 }

def afterHandle (a : RimeAddr) (x : Sys) : Sys :=
  let r := x.gateway.handle a
  { x with gateway := r.1, fromGateway := x.fromGateway ++ r.2 }

/-- One step. A party that has nothing to do stays as it is; callbacks of `network_control` run while
    its main loop is in `ros::spinOnce`. -/
def next (a : Act) (x : Sys) : Sys :=
  match a with
  | .takeOff => { x with uav := x.uav.takeOff }
  | .task finished landed => x.afterTask finished landed
  | .networkState => match x.netTopic with
    | [] => x
    | msg :: rest => { x with uav := x.uav.networkStateCallback msg, netTopic := rest }
  | .uavState => match x.uavTopic with
    | [] => x
    | msg :: rest =>
      if x.nc.point = .spin then { x with nc := x.nc.uavStateCallback msg, uavTopic := rest }
      else x
  | .main => x.afterMain
  | .read => match x.fromGateway with
    | [] => x
    | f :: rest => { x with nc := x.nc.dataDecode f, fromGateway := rest }
  | .receive => match x.toGateway with
    | [] => x
    | f :: rest => { x with gateway := x.gateway.receive f, toGateway := rest }
  | .expire => { x with gateway := x.gateway.expire }
  | .report => { x with gateway := x.gateway.post .deluge }
  | .handle a => x.afterHandle a
  | .lose .uavTopic k => { x with uavTopic := x.uavTopic.eraseIdx k }
  | .lose .netTopic k => { x with netTopic := x.netTopic.eraseIdx k }
  | .lose .toGateway k => { x with toGateway := x.toGateway.eraseIdx k }
  | .lose .fromGateway k => { x with fromGateway := x.fromGateway.eraseIdx k }

def Step (a : Act) (x x' : Sys) : Prop := x' = next a x

end Sys

/-! ## What has happened so far -/

/-- The command frames. -/
@[simp] abbrev startMissionFrame : Frame := .cmd NetCmd.startMission.code

@[simp] abbrev startFlyFrame : Frame := .cmd NetCmd.startFly.code

/-- How often each of these has happened. -/
structure Tally where
  /-- The UAV left `DOING_MISSION`. -/
  departures : Nat
  /-- `NET_SLEEPING` was published. -/
  sleeping : Nat
  /-- The gateway sent `START_FLY`. -/
  fly : Nat
  /-- `START_MISSION` was sent. -/
  mission : Nat
  /-- `UAV_ARRIVE_POINT` was published. -/
  arrived : Nat
deriving DecidableEq

namespace Tally

def zero : Tally := ⟨0, 0, 0, 0, 0⟩

/-- The UAV was at a point, and no longer is. -/
def departs (u u' : Uav) : Bool :=
  decide (u.runningState = .doingMission ∧ u'.runningState ≠ .doingMission)

def observe (a : Act) (x x' : Sys) (t : Tally) : Tally :=
  match a with
  | .task finished landed => { t with
      departures := t.departures + (departs x.uav x'.uav).toNat
      arrived := t.arrived + (x.uav.taskStateMachine finished landed).2.count .arrivePoint }
  | .main => { t with
      mission := t.mission + x.nc.main.2.1.count startMissionFrame
      sleeping := t.sleeping + x.nc.main.2.2.count .sleeping }
  | .handle a => { t with fly := t.fly + (x.gateway.handle a).2.count startFlyFrame }
  | _ => t

end Tally

/-! ## Tokens -/

/-- `network_control` has heard that the UAV is at a point, and has not yet acted on it. -/
def NetworkControl.arrivalHeld (c : NetworkControl) : Bool :=
  decide (c.uavState = .arrivePoint ∧ c.netState = .sleeping ∧ c.point = .spin)

/-- The gateway has been told to start a mission, or runs one. -/
def Gateway.missionHeld (g : Gateway) : Bool :=
  decide (g.uavCmd = NetCmd.startMission.code ∨ g.state = .mission)

/-- `network_control` has been told to let the UAV fly on, since it last cleared the command. -/
def NetworkControl.flyHeld (c : NetworkControl) : Bool :=
  decide (c.netCmd = NetCmd.startFly.code ∧
    (c.point = .reset ∨ (c.point = .spin ∧ c.netState = .working)))

/-- The UAV is at a point and has been told that the network sleeps. -/
def Uav.sleepHeld (u : Uav) : Bool :=
  decide (u.runningState = .doingMission ∧ u.networkMsg = .sleeping)

/-- `mission_et` runs, or its event is queued, at most once and only during a mission. -/
def Gateway.OneTimer (g : Gateway) : Prop :=
  g.missionEt.toNat + g.queue.count .timer ≤ (decide (g.state = .mission)).toNat

/-- The four links from the UAV to the gateway and back. -/
structure Inv (x : Sys) (t : Tally) : Prop where
  arrive : Link .arrivePoint t.mission x.uavTopic x.nc.arrivalHeld t.arrived
  mission : Link startMissionFrame t.fly x.toGateway x.gateway.missionHeld t.mission
  fly : Link startFlyFrame t.sleeping x.fromGateway x.nc.flyHeld t.fly
  sleep : Link .sleeping t.departures x.netTopic x.uav.sleepHeld t.sleeping
  timer : x.gateway.OneTimer
  point : t.arrived = t.departures + (decide (x.uav.runningState = .doingMission)).toNat

/-! ## The steps -/

section

variable {x : Sys} {t : Tally}

theorem Inv.takeOff (h : Inv x t) : Inv { x with uav := x.uav.takeOff } t := by
  unfold Uav.takeOff
  split
  · rename_i hinit
    have hpoint := h.point
    refine { h with
      sleep := h.sleep.keep ?_
      point := ?_ }
    · intro hheld
      simp [Uav.sleepHeld] at hheld
    · simpa [hinit] using hpoint
  · exact h

theorem Inv.task (h : Inv x t) (finished landed : Bool) :
    Inv (x.afterTask finished landed)
      (t.observe (.task finished landed) x (x.afterTask finished landed)) := by
  have hout := Uav.task_outcome finished landed x.uav
  have harrive := h.arrive.put (x.uav.taskStateMachine finished landed).2
  have hpoint := h.point
  simp only [Sys.afterTask, Tally.observe]
  generalize x.uav.taskStateMachine finished landed = r at hout harrive
  cases hout with
  | stays =>
    have hstill : Tally.departs x.uav x.uav = false := by simp [Tally.departs]
    simp only [hstill, List.count_nil, Bool.toNat_false, Nat.add_zero, List.append_nil]
    exact h
  | @arrives u' hfly hdoing hworking =>
    have hstill : Tally.departs x.uav u' = false := by simp [Tally.departs, hfly]
    have hasleep : u'.sleepHeld = false := by simp [Uav.sleepHeld, hworking]
    refine { h with arrive := harrive, sleep := ?_, point := ?_ }
    · simp only [hstill, hasleep, Bool.toNat_false, Nat.add_zero]
      exact h.sleep.keep fun hheld => (Bool.false_ne_true hheld).elim
    · simp only [hstill, hfly, hdoing, Bool.toNat_false, Nat.add_zero] at hpoint ⊢
      simpa using hpoint
  | @departs u' hdoing hmsg hfly =>
    have hgone : Tally.departs x.uav u' = true := by simp [Tally.departs, hdoing, hfly]
    have hheld : x.uav.sleepHeld = true := by simp [Uav.sleepHeld, hdoing, hmsg]
    have hasleep : u'.sleepHeld = false := by simp [Uav.sleepHeld, hfly]
    have hsleep := h.sleep
    rw [hheld] at hsleep
    refine { h with arrive := harrive, sleep := ?_, point := ?_ }
    · simp only [hgone, hasleep, Bool.toNat_true]
      exact hsleep.spend
    · simp only [hgone, hfly, hdoing, Bool.toNat_true] at hpoint ⊢
      simpa using hpoint

theorem Inv.networkState (h : Inv x t) {msg : NetworkState} {rest : List NetworkState}
    (hq : x.netTopic = msg :: rest) :
    Inv { x with uav := x.uav.networkStateCallback msg, netTopic := rest } t := by
  have hsleep := h.sleep
  rw [hq] at hsleep
  refine { h with sleep := hsleep.take fun hheld => .inl ?_, point := h.point }
  have hheld := of_decide_eq_true hheld
  exact hheld.2

theorem Inv.uavState (h : Inv x t) {msg : FlightState} {rest : List FlightState}
    (hq : x.uavTopic = msg :: rest) :
    Inv { x with nc := x.nc.uavStateCallback msg, uavTopic := rest } t := by
  have harrive := h.arrive
  rw [hq] at harrive
  refine { h with arrive := harrive.take fun hheld => .inl ?_, fly := h.fly }
  have hheld := of_decide_eq_true hheld
  exact hheld.1

theorem Inv.main (h : Inv x t) : Inv x.afterMain (t.observe .main x x.afterMain) := by
  have hout := x.nc.main_outcome
  have hmission := h.mission.put x.nc.main.2.1
  have hsleep := h.sleep.put x.nc.main.2.2
  simp only [Sys.afterMain, Tally.observe]
  generalize x.nc.main = r at hout hmission hsleep
  cases hout with
  | stays =>
    exact { h with arrive := h.arrive, mission := hmission, fly := h.fly, sleep := hsleep }
  | @starts c' hspin hsleeping harrived hsent =>
    have hheld : x.nc.arrivalHeld = true := by
      simp [NetworkControl.arrivalHeld, hspin, hsleeping, harrived]
    have hdone : c'.arrivalHeld = false := by simp [NetworkControl.arrivalHeld, hsent]
    have harrive := h.arrive
    rw [hheld] at harrive
    refine { h with arrive := ?_, mission := hmission, fly := ?_, sleep := hsleep }
    · simp only [hdone, List.count_singleton_self]
      exact harrive.spend
    · exact h.fly.keep fun hheld => by simp [NetworkControl.flyHeld, hsent] at hheld
  | @clears c' hcmd hreset =>
    refine { h with arrive := ?_, mission := hmission, fly := ?_, sleep := hsleep }
    · exact h.arrive.keep fun hheld => by simp [NetworkControl.arrivalHeld, hreset] at hheld
    · exact h.fly.keep fun hheld => by simp [NetworkControl.flyHeld, hcmd] at hheld
  | @works c' hreset hspin hworking hcmd =>
    refine { h with arrive := ?_, mission := hmission, fly := ?_, sleep := hsleep }
    · exact h.arrive.keep fun hheld => by simp [NetworkControl.arrivalHeld, hworking] at hheld
    · refine h.fly.keep ?_
      intro hheld
      simp only [NetworkControl.flyHeld, hcmd, decide_eq_true_eq] at hheld ⊢
      exact ⟨hheld.1, .inl hreset⟩
  | @ends c' hspin hworking hcmd hspin' hsleeping hflying =>
    have hheld : x.nc.flyHeld = true := by simp [NetworkControl.flyHeld, hcmd, hspin, hworking]
    have hdone : c'.flyHeld = false := by simp [NetworkControl.flyHeld, hspin', hsleeping]
    have hfly := h.fly
    rw [hheld] at hfly
    refine { h with arrive := ?_, mission := hmission, fly := ?_, sleep := hsleep }
    · exact h.arrive.keep fun hheld => by simp [NetworkControl.arrivalHeld, hflying] at hheld
    · simp only [hdone, List.count_singleton_self]
      exact hfly.spend

theorem Inv.read (h : Inv x t) {f : Frame} {rest : List Frame} (hq : x.fromGateway = f :: rest) :
    Inv { x with nc := x.nc.dataDecode f, fromGateway := rest } t := by
  have hfly := h.fly
  rw [hq] at hfly
  cases f with
  | cmd data =>
    refine { h with arrive := h.arrive, fly := hfly.take fun hheld => .inl ?_ }
    have hheld := of_decide_eq_true hheld
    exact congrArg Frame.cmd hheld.1
  | report a => exact { h with arrive := h.arrive, fly := hfly.take fun hheld => .inr hheld }

/-- An event that is not the timer's is posted. -/
theorem Gateway.OneTimer.post {g : Gateway} (h : g.OneTimer) {ev : GatewayEvent}
    (hev : ev ≠ .timer) : (g.post ev).OneTimer := by
  unfold Gateway.OneTimer Gateway.post at *
  rw [List.count_append, List.count_singleton, if_neg (by simpa using hev)]
  exact h

theorem Inv.receive (h : Inv x t) {f : Frame} {rest : List Frame} (hq : x.toGateway = f :: rest) :
    Inv { x with gateway := x.gateway.receive f, toGateway := rest } t := by
  have hmission := h.mission
  rw [hq] at hmission
  cases f with
  | cmd data =>
    refine { h with
      mission := hmission.take ?_
      timer := Gateway.OneTimer.post (g := x.gateway.dataDecode (.cmd data)) h.timer (by decide) }
    intro hheld
    rcases of_decide_eq_true hheld with hcmd | hstate
    · exact .inl (congrArg Frame.cmd hcmd)
    · exact .inr (decide_eq_true (.inr hstate))
  | report a =>
    exact { h with
      mission := hmission.take fun hheld => .inr hheld
      timer := Gateway.OneTimer.post (g := x.gateway.dataDecode (.report a)) h.timer (by decide) }

theorem Inv.expire (h : Inv x t) : Inv { x with gateway := x.gateway.expire } t := by
  unfold Gateway.expire
  split
  · rename_i hset
    refine { h with mission := h.mission, timer := ?_ }
    have htimer := h.timer
    unfold Gateway.OneTimer Gateway.post at *
    simp only [hset, Bool.toNat_true] at htimer
    simp only [List.count_append, List.count_singleton_self, Bool.toNat_false]
    omega
  · exact h

theorem Inv.handle (h : Inv x t) (a : RimeAddr) :
    Inv (x.afterHandle a) (t.observe (.handle a) x (x.afterHandle a)) := by
  have hout := x.gateway.handle_outcome a
  have hfly := h.fly.put (x.gateway.handle a).2
  have htimer := h.timer
  unfold Gateway.OneTimer at htimer
  simp only [Sys.afterHandle, Tally.observe]
  generalize x.gateway.handle a = r at hout hfly
  cases hout with
  | idle hq => exact { h with fly := hfly, mission := h.mission }
  | @drops ev rest frames hq hev hframes =>
    rw [hframes, Nat.add_zero] at hfly
    simp only [hframes, Nat.add_zero]
    refine { h with fly := hfly, mission := h.mission, timer := ?_ }
    rw [hq, List.count_cons_of_ne hev] at htimer
    exact htimer
  | @starts rest hq hsleep hcmd =>
    refine { h with fly := hfly, mission := ?_, timer := ?_ }
    · exact h.mission.keep fun _ => decide_eq_true (.inl hcmd)
    · rw [hq, hsleep, List.count_cons_of_ne (by decide)] at htimer
      unfold Gateway.OneTimer
      simp at htimer ⊢
      omega
  | @ends rest hq =>
    -- the mission was running, since its timer has fired
    rw [hq, List.count_cons_self] at htimer
    have hstate : x.gateway.state = .mission := by
      by_contra hne
      simp [hne] at htimer
    have hheld : x.gateway.missionHeld = true := decide_eq_true (.inr hstate)
    have hmission := h.mission
    rw [hheld] at hmission
    refine { h with fly := hfly, mission := ?_, timer := ?_ }
    · simp only [List.count_singleton_self]
      exact hmission.spend.keep fun hheld => by simp [Gateway.missionHeld] at hheld
    · simp only [hstate, decide_true, Bool.toNat_true] at htimer
      show x.gateway.missionEt.toNat + rest.count .timer ≤ 0
      omega

theorem Inv.lose (h : Inv x t) (c : Channel) (k : Nat) : Inv (x.next (.lose c k)) t := by
  cases c with
  | uavTopic => exact { h with arrive := h.arrive.lose k }
  | netTopic => exact { h with sleep := h.sleep.lose k }
  | toGateway => exact { h with mission := h.mission.lose k }
  | fromGateway => exact { h with fly := h.fly.lose k }

/-- Every step keeps the invariant. -/
theorem Inv.next (h : Inv x t) (a : Act) : Inv (x.next a) (t.observe a x (x.next a)) := by
  cases a with
  | takeOff => exact h.takeOff
  | task finished landed => exact h.task finished landed
  | networkState =>
    dsimp only [Sys.next]
    split
    · exact h
    · exact h.networkState ‹_›
  | uavState =>
    dsimp only [Sys.next]
    split
    · exact h
    · split
      · exact h.uavState ‹_›
      · exact h
  | main => exact h.main
  | read =>
    dsimp only [Sys.next]
    split
    · exact h
    · exact h.read ‹_›
  | receive =>
    dsimp only [Sys.next]
    split
    · exact h
    · exact h.receive ‹_›
  | expire => exact h.expire
  | report => exact { h with mission := h.mission, timer := h.timer.post (by decide) }
  | handle a => exact h.handle a
  | lose c k => exact h.lose c k

theorem inv_start : Inv Sys.start Tally.zero where
  arrive := ⟨by decide⟩
  mission := ⟨by decide⟩
  fly := ⟨by decide⟩
  sleep := ⟨by decide⟩
  timer := by unfold Gateway.OneTimer; decide
  point := by decide

/-- The UAV goes on only where it has been told to. -/
theorem Uav.held_of_departs {u : Uav} {finished landed : Bool}
    (hd : Tally.departs u (u.taskStateMachine finished landed).1 = true) :
    u.runningState = .doingMission ∧ u.sleepHeld = true := by
  have hout := u.task_outcome finished landed
  have hd := of_decide_eq_true hd
  generalize u.taskStateMachine finished landed = r at hout hd
  cases hout with
  | stays => exact absurd hd.1 hd.2
  | arrives hfly =>
    rw [hfly] at hd
    cases hd.1
  | departs hdoing hmsg => exact ⟨hdoing, decide_eq_true ⟨hdoing, hmsg⟩⟩

end

/-! ## Runs -/

/-- The runs of a mission. -/
abbrev MissionRun : Sys × Tally → Prop :=
  Reach (fun x => x.1 = .start ∧ x.2 = .zero) (observed Sys.Step Tally.observe) Lib.Always

theorem mission_inv {x : Sys × Tally} (h : MissionRun x) : Inv x.1 x.2 := by
  refine Reach.invariant (I := fun x => Inv x.1 x.2) ?_ ?_ h
  · rintro ⟨_, _⟩ ⟨rfl, rfl⟩
    exact inv_start
  · intro a x y hinv _ hst
    rw [hst.2, show y.1 = x.1.next a from hst.1]
    exact hinv.next a

/-- **The handshake of a mission**: no departure without a `NET_SLEEPING`, none of these without a
    `START_FLY`, none of these without a `START_MISSION`, none of these without a point. When the UAV
    is about to leave a point, a mission has been started and ended for each point so far, this one
    included. -/
theorem handshake_safe {x : Sys × Tally} (h : MissionRun x) :
    x.2.departures ≤ x.2.sleeping ∧ x.2.sleeping ≤ x.2.fly ∧ x.2.fly ≤ x.2.mission ∧
      x.2.mission ≤ x.2.arrived ∧
      ∀ finished landed, Tally.departs x.1.uav (x.1.uav.taskStateMachine finished landed).1 = true →
        x.2.mission = x.2.arrived ∧ x.2.fly = x.2.mission := by
  have hinv := mission_inv h
  have hsleep := hinv.sleep.spent_le
  have hfly := hinv.fly.spent_le
  have hmission := hinv.mission.spent_le
  have harrive := hinv.arrive.spent_le
  refine ⟨hsleep, hfly, hmission, harrive, ?_⟩
  intro finished landed hd
  obtain ⟨hdoing, hheld⟩ := Uav.held_of_departs hd
  have hlink := hinv.sleep
  rw [hheld] at hlink
  have hlt := hlink.lt_of_held
  have hpoint := hinv.point
  simp only [hdoing, decide_true, Bool.toNat_true] at hpoint
  exact ⟨by omega, by omega⟩

/-- What happens at a point, from the arrival to the message that lets the UAV fly on. -/
def atPoint : List Act :=
  [.task true false, .uavState, .main, .main, .main, .receive, .handle 1, .expire, .handle 1, .read,
    .main, .networkState, .networkState]

/-- A step of a run, computed. -/
def missionNext (a : Act) (x : Sys × Tally) : Option (Sys × Tally) :=
  Lib.observedNext (fun a s => some (Sys.next a s)) Tally.observe a x

theorem exists_of_mission_run (as : List Act) (p : Sys × Tally → Bool)
    (hp : (Lib.runList (Lib.guarded Lib.Always missionNext) as (.start, .zero)).map p = some true) :
    ∃ x, MissionRun x ∧ p x = true :=
  Reach.exists_of_run Lib.Always
    (Lib.observedNext_step fun _ _ _ h => (Option.some.inj h).symm) as p ⟨rfl, rfl⟩ hp

/-- The UAV is about to leave its second point. -/
theorem handshake_second_point :
    ∃ x : Sys × Tally, x.2.departures = 1 ∧ x.2.arrived = 2 ∧ x.2.mission = x.2.arrived ∧
      x.2.fly = x.2.mission := by
  obtain ⟨x, hx, hp⟩ := exists_of_mission_run
    (.takeOff :: atPoint ++ [.task true false, .uavState] ++ atPoint)
    (fun x => decide (x.2.departures = 1 ∧ x.2.arrived = 2 ∧
      Tally.departs x.1.uav (x.1.uav.taskStateMachine true false).1 = true)) (by decide +kernel)
  obtain ⟨hone, htwo, hd⟩ := of_decide_eq_true hp
  obtain ⟨_, _, _, _, hleave⟩ := handshake_safe hx
  exact ⟨x, hone, htwo, hleave true false hd⟩

end Adler.Mission
