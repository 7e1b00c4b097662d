/-
  The two programs on the UAV's computer that take part in a mission: the task of the UAV,
  `uav_control/src/uav_task.cpp`, and `network_control/src/network_control.cpp` with its serial
  interface `net_interface.cpp`.

  The UAV's callbacks run one at a time, so that `task_state_machine` is one step. The main loop of
  `network_control` shares `NET_cmd` with the thread that reads the serial line: between two of its
  accesses to it any number of frames may arrive, and `NcPoint` says where the loop stands.
  Positions and the flight to a waypoint are not modelled; whether the flight is finished, and
  whether the UAV has landed, comes from outside.
-/
import Adler.Mission.Gateway

namespace Adler.Mission

/-- `Network_state`. -/
inductive NetworkState where
  | unstart
  | sleeping
  | working
deriving DecidableEq

/-- `Flight_state`. -/
inductive FlightState where
  | flying
  | arrivePoint
deriving DecidableEq

/-! ## The task of the UAV -/

/-- `System_state`. -/
inductive SystemState where
  | init
  | flyNextPoint
  | doingMission
  | landing
deriving DecidableEq

/-- `UAV_fly_mode`. -/
inductive FlyMode where
  | test
  | mission
deriving DecidableEq

/-- `WAYPOINT_NUM`. -/
@[simp] abbrev waypointNum : Nat := 5

/-- The global variables of `uav_task.cpp`. -/
structure Uav where
  waypointCount : Nat
  runningState : SystemState
  flyMode : FlyMode
  networkMsg : NetworkState
  uavStat : FlightState
deriving DecidableEq

namespace Uav

/-- The UAV when `set_mode` has read `m`. -/
def start : Uav := ⟨0, .init, .mission, .unstart, .flying⟩

/-- `test_menu` without an operator: it waits for input. -/
def testMenu (u : Uav) : Uav := u

/-- `test_menu` in `main`, where the operator starts the UAV. -/
def takeOff (u : Uav) : Uav :=
  if u.runningState = .init then { u with runningState := .flyNextPoint } else u

/-- `network_state_callback`. -/
def networkStateCallback (msg : NetworkState) (u : Uav) : Uav := { u with networkMsg := msg }

/-- `task_state_machine` and what it publishes. -/
def taskStateMachine (finished landed : Bool) (u : Uav) : Uav × List FlightState :=
  match u.runningState with
  | .flyNextPoint =>
    if finished = false then (u, [])
    else match u.flyMode with
      | .test => (testMenu u, [])
      | .mission =>
        ({ u with
            uavStat := .arrivePoint
            runningState := .doingMission
            networkMsg := .working }, [.arrivePoint])
  | .doingMission =>
    if u.networkMsg = .sleeping then
      if u.waypointCount < waypointNum then
        ({ u with
            waypointCount := u.waypointCount + 1
            runningState := .flyNextPoint
            uavStat := .flying }, [.flying])
      else (testMenu u, [])
    else (u, [])
  | .landing => if landed then (testMenu u, []) else (u, [])
  | .init => (u, [])

/-- What `task_state_machine` can do. -/
inductive TaskOutcome (u : Uav) : Uav × List FlightState → Prop
  | stays : TaskOutcome u (u, [])
  | arrives {u' : Uav} : u.runningState = .flyNextPoint → u'.runningState = .doingMission →
      u'.networkMsg = .working → TaskOutcome u (u', [.arrivePoint])
  | departs {u' : Uav} : u.runningState = .doingMission → u.networkMsg = .sleeping →
      u'.runningState = .flyNextPoint → TaskOutcome u (u', [.flying])

theorem task_outcome (finished landed : Bool) (u : Uav) :
    TaskOutcome u (u.taskStateMachine finished landed) := by
  unfold taskStateMachine
  cases hs : u.runningState with
  | init => exact .stays
  | flyNextPoint =>
    dsimp only
    split
    · exact .stays
    · cases u.flyMode with
      | test => exact .stays
      | mission => exact .arrives hs rfl rfl
  | doingMission =>
    dsimp only
    split
    · rename_i hmsg
      split
      · exact .departs hs hmsg rfl
      · exact .stays
    · exact .stays
  | landing =>
    dsimp only
    split <;> exact .stays

end Uav

/-! ## `network_control` -/

/-- Where the main loop stands. -/
inductive NcPoint where
  /-- In `ros::spinOnce`, or between it and the `switch`. -/
  | spin
  /-- `sent_cmd(START_MISSION)` has returned. -/
  | sent
  /-- `reset_gateway_cmd` has returned. -/
  | reset
deriving DecidableEq

/-- The global variables of `network_control.cpp` and `net_interface.cpp`. -/
structure NetworkControl where
  point : NcPoint
  uavState : FlightState
  netState : NetworkState
  netCmd : Nat
deriving DecidableEq

namespace NetworkControl

def start : NetworkControl := ⟨.spin, .flying, .sleeping, noCmd⟩

/-- `uav_state_callback`. -/
def uavStateCallback (msg : FlightState) (c : NetworkControl) : NetworkControl :=
  { c with uavState := msg }

/-- `data_decode` of `net_interface.cpp`; a report is only logged. -/
def dataDecode (f : Frame) (c : NetworkControl) : NetworkControl :=
  match f with
  | .cmd data => { c with netCmd := data }
  | .report _ => c

/-- The loop of `main` up to its next access to `NET_cmd`: the frames it sends and what it
    publishes. `GATE_STATE` is 0. -/
def main (c : NetworkControl) : NetworkControl × List Frame × List NetworkState :=
  match c.point with
  | .spin => match c.netState with
    | .sleeping =>
      if c.uavState = .arrivePoint then
        ({ c with point := .sent }, [.cmd NetCmd.startMission.code], [])
      else (c, [], [])
    | .working =>
      if c.netCmd = NetCmd.startFly.code then
        ({ c with netState := .sleeping, uavState := .flying }, [], [.sleeping])
      else (c, [], [])
    | .unstart => (c, [], [])
  | .sent => ({ c with netCmd := noCmd, point := .reset }, [], [])
  | .reset => ({ c with netState := .working, point := .spin }, [], [.working])

/-- What the main loop can do. -/
inductive MainOutcome (c : NetworkControl) :
    NetworkControl × List Frame × List NetworkState → Prop
  | stays : MainOutcome c (c, [], [])
  | starts {c' : NetworkControl} : c.point = .spin → c.netState = .sleeping →
      c.uavState = .arrivePoint → c'.point = .sent →
      MainOutcome c (c', [.cmd NetCmd.startMission.code], [])
  | clears {c' : NetworkControl} : c'.netCmd = noCmd → c'.point = .reset →
      MainOutcome c (c', [], [])
  | works {c' : NetworkControl} : c.point = .reset → c'.point = .spin → c'.netState = .working →
      c'.netCmd = c.netCmd → MainOutcome c (c', [], [.working])
  | ends {c' : NetworkControl} : c.point = .spin → c.netState = .working →
      c.netCmd = NetCmd.startFly.code → c'.point = .spin → c'.netState = .sleeping →
      c'.uavState = .flying → MainOutcome c (c', [], [.sleeping])

theorem main_outcome (c : NetworkControl) : MainOutcome c c.main := by
  unfold main
  cases hp : c.point with
  | spin =>
    dsimp only
    cases hs : c.netState with
    | unstart => exact .stays
    | sleeping =>
      dsimp only
      split
      · exact .starts hp hs ‹_› rfl
      · exact .stays
    | working =>
      dsimp only
      split
      · exact .ends hp hs ‹_› rfl rfl rfl
      · exact .stays
  | sent => exact .clears rfl rfl
  | reset => exact .works hp rfl rfl rfl

end NetworkControl

/-! ## The gateway's process -/

/-- What handling an event can do to the gateway. -/
inductive Gateway.HandleOutcome (g : Gateway) : Gateway × List Frame → Prop
  | idle : g.queue = [] → HandleOutcome g (g, [])
  | drops {ev : GatewayEvent} {rest : List GatewayEvent} {frames : List Frame} :
      g.queue = ev :: rest → ev ≠ .timer → frames.count (.cmd NetCmd.startFly.code) = 0 →
      HandleOutcome g ({ g with queue := rest }, frames)
  | starts {rest : List GatewayEvent} : g.queue = .serial :: rest → g.state = .sleep →
      g.uavCmd = NetCmd.startMission.code →
      HandleOutcome g ({ g with queue := rest, state := .mission, missionEt := true }, [])
  | ends {rest : List GatewayEvent} : g.queue = .timer :: rest →
      HandleOutcome g ({ g with queue := rest, state := .sleep, uavCmd := noCmd },
        [.cmd NetCmd.startFly.code])

theorem Gateway.handle_outcome (a : Deluge.RimeAddr) (g : Gateway) :
    g.HandleOutcome (g.handle a) := by
  unfold Gateway.handle
  cases hq : g.queue with
  | nil => exact .idle hq
  | cons ev rest =>
    cases ev with
    | serial =>
      dsimp only [Gateway.process]
      split
      · rename_i hs
        split
        · rename_i hc
          exact .starts hq hs hc
        · exact .drops hq (by decide) rfl
      · exact .drops hq (by decide) rfl
    | deluge => exact .drops hq (by decide) (by simp)
    | timer => exact .ends hq

end Adler.Mission
