/-
  The waypoints of a mission: `init_waypoint` and `uav_set_target` in
  `uav_control/src/uav_task.cpp`.

  Loading runs up to `max_point` of the configuration file, compared as an unsigned number, flying up
  to `WAYPOINT_NUM`. Coordinates are only copied; their type is a parameter.

  * `PosFile`: the position file. What `read_next_pos` leaves in `pos` behind the last position is
    a parameter.
  * `initWaypoint_isSome_iff`: when the loop stays inside `mission_point`.
  * `flies_iff`: the UAV flies the configured points, and those only, exactly when `max_point` is
    `WAYPOINT_NUM` and the file lists that many positions.
-/
import Adler.Lib.Run
import Adler.Mission.Onboard
import Mathlib.Algebra.Group.Int.Defs
import Mathlib.Data.List.Basic

namespace Adler.Mission

open Lib (Reach Always)

variable {R : Type}

/-- `Waypoint`. -/
structure Waypoint (R : Type) where
  x : R
  y : R
  z : R

/-- `FLY_HIGHT`. -/
abbrev flyHight [OfNat R 10] : R := 10

/-- A position file: whether it can be opened, its positions, and what `pos` holds after a read
    behind the last one. -/
structure PosFile (R : Type) where
  opens : Bool
  listed : List (R × R)
  past : Nat → R × R

namespace PosFile

/-- `read_next_pos`, the `i`-th time. -/
def readNextPos (f : PosFile R) (i : Nat) : R × R := f.listed.getD i (f.past i)

end PosFile

section

variable [OfNat R 10]

/-- A position as it is put into `mission_point`. -/
def waypoint (pos : R × R) : Waypoint R := ⟨pos.1, pos.2, flyHight⟩

/-! ## Loading -/

/-- `k` rounds of the loop of `init_waypoint` from round `i` on; `none` is a write behind
    `mission_point`. -/
def initWaypointLoop (f : PosFile R) : Nat → Nat → (Nat → Waypoint R) → Option (Nat → Waypoint R)
  | 0, _, missionPoint => some missionPoint
  | k + 1, i, missionPoint =>
    if i < waypointNum then
      initWaypointLoop f k (i + 1) (Function.update missionPoint i (waypoint (f.readNextPos i)))
    else none

/-- `init_waypoint`, which compares `max_point` with a `uint`. -/
def initWaypoint [OfNat R 0] (maxPoint : Int32) (f : PosFile R) : Option (Nat → Waypoint R) :=
  if f.opens then initWaypointLoop f maxPoint.toUInt32.toNat 0 fun _ => ⟨0, 0, 0⟩
  else some fun _ => ⟨0, 0, 0⟩

theorem initWaypointLoop_eq (f : PosFile R) (k i : Nat) (missionPoint : Nat → Waypoint R)
    (h : i + k ≤ waypointNum) : initWaypointLoop f k i missionPoint =
      some fun j => if i ≤ j ∧ j < i + k then waypoint (f.readNextPos j) else missionPoint j := by
  induction k generalizing i missionPoint with
  | zero =>
    rw [initWaypointLoop]
    congr 1
    funext j
    rw [if_neg (by omega)]
  | succ k ih =>
    have hi : i < waypointNum := Nat.lt_of_lt_of_le (by omega) h
    rw [initWaypointLoop, if_pos hi, ih (i + 1) _ (by omega)]
    congr 1
    funext j
    rcases Nat.lt_trichotomy j i with hj | rfl | hj
    · rw [if_neg (by omega), if_neg (by omega), Function.update_of_ne (by omega)]
    · rw [if_neg (by omega), if_pos (by omega), Function.update_self]
    · by_cases hk : j < i + (k + 1)
      · rw [if_pos (by omega), if_pos (by omega)]
      · rw [if_neg (by omega), if_neg (by omega), Function.update_of_ne (by omega)]

theorem initWaypointLoop_none (f : PosFile R) (k i : Nat) (missionPoint : Nat → Waypoint R)
    (hi : i ≤ waypointNum) (h : waypointNum < i + k) :
    initWaypointLoop f k i missionPoint = none := by
  induction k generalizing i missionPoint with
  | zero => omega
  | succ k ih =>
    rw [initWaypointLoop]
    split
    · rename_i hlt
      exact ih (i + 1) _ hlt (by omega)
    · rfl

theorem initWaypoint_isSome_iff [OfNat R 0] (maxPoint : Int32) (f : PosFile R) :
    (initWaypoint maxPoint f).isSome ↔ (f.opens = true → maxPoint.toUInt32.toNat ≤ waypointNum) := by
  unfold initWaypoint
  by_cases ho : f.opens = true
  · rw [if_pos ho]
    by_cases hle : maxPoint.toUInt32.toNat ≤ waypointNum
    · rw [initWaypointLoop_eq f _ 0 _ (by omega)]
      simp [hle]
    · rw [initWaypointLoop_none f _ 0 _ (Nat.zero_le _) (by omega)]
      simp only [waypointNum] at hle
      simp [ho, hle]
  · rw [if_neg ho]
    simp [ho]

end

/-! ## Flying -/

namespace Uav

/-- The index of `mission_point` that `task_state_machine` passes to `uav_set_target`. -/
def setsTarget (u : Uav) : Option Nat :=
  match u.runningState with
  | .doingMission =>
    if u.networkMsg = .sleeping then
      if u.waypointCount < waypointNum then some u.waypointCount else none
    else none
  | _ => none

/-- The targets are taken in order. -/
theorem task_waypointCount (finished landed : Bool) (u : Uav) :
    (u.setsTarget = none ∧ (u.taskStateMachine finished landed).1.waypointCount = u.waypointCount) ∨
      (u.setsTarget = some u.waypointCount ∧ u.waypointCount < waypointNum ∧
        (u.taskStateMachine finished landed).1.waypointCount = u.waypointCount + 1) := by
  unfold setsTarget taskStateMachine
  match u.runningState with
  | .init => exact .inl ⟨rfl, rfl⟩
  | .landing =>
    refine .inl ⟨rfl, ?_⟩
    dsimp only
    split <;> rfl
  | .flyNextPoint =>
    refine .inl ⟨rfl, ?_⟩
    dsimp only
    split
    · rfl
    · match u.flyMode with
      | .test | .mission => rfl
  | .doingMission =>
    dsimp only
    split
    · split
      · exact .inr ⟨rfl, ‹_›, rfl⟩
      · exact .inl ⟨rfl, rfl⟩
    · exact .inl ⟨rfl, rfl⟩

end Uav

/-- A mission: the UAV, `mission_point` and the targets set so far. -/
structure Flight (R : Type) where
  uav : Uav
  missionPoint : Nat → Waypoint R
  targets : List (Waypoint R)

inductive FlightStep where
  /-- The operator starts the UAV. -/
  | takeOff
  | task (finished landed : Bool)
  | network (msg : NetworkState)
deriving DecidableEq

namespace Flight

def next (a : FlightStep) (t : Flight R) : Option (Flight R) :=
  match a with
  | .takeOff => some { t with uav := t.uav.takeOff }
  | .task finished landed => some { t with
      uav := (t.uav.taskStateMachine finished landed).1
      targets := t.targets ++ (t.uav.setsTarget.map t.missionPoint).toList }
  | .network msg => some { t with uav := t.uav.networkStateCallback msg }

def Step (a : FlightStep) (t t' : Flight R) : Prop := t.next a = some t'

/-- The mission mode, after `task_init`. -/
def Started (missionPoint : Nat → Waypoint R) (t : Flight R) : Prop :=
  t = ⟨.start, missionPoint, []⟩

/-- The targets of a run are the first entries of `mission_point`, each once. -/
structure InOrder (points : Nat → Waypoint R) (t : Flight R) : Prop where
  missionPoint : t.missionPoint = points
  count : t.uav.waypointCount ≤ waypointNum
  targets : t.targets = (List.range t.uav.waypointCount).map points

theorem takeOff_waypointCount (u : Uav) : u.takeOff.waypointCount = u.waypointCount := by
  unfold Uav.takeOff
  split <;> rfl

theorem inOrder_step {points : Nat → Waypoint R} {a : FlightStep} {t t' : Flight R}
    (h : InOrder points t) (hstep : Step a t t') : InOrder points t' := by
  unfold Step at hstep
  match a with
  | .takeOff =>
    cases hstep
    have hsame := takeOff_waypointCount t.uav
    refine ⟨h.missionPoint, ?_, ?_⟩
    · rw [hsame]
      exact h.count
    · rw [hsame]
      exact h.targets
  | .network msg =>
    cases hstep
    exact ⟨h.missionPoint, h.count, h.targets⟩
  | .task finished landed =>
    cases hstep
    rcases Uav.task_waypointCount finished landed t.uav with ⟨hnone, hsame⟩ | ⟨hsome, hlt, hnext⟩
    · refine ⟨h.missionPoint, ?_, ?_⟩
      · rw [hsame]
        exact h.count
      · rw [hnone, hsame]
        exact (List.append_nil _).trans h.targets
    · refine ⟨h.missionPoint, ?_, ?_⟩
      · rw [hnext]
        exact hlt
      · rw [hsome, hnext, List.range_succ, List.map_append, ← h.targets, h.missionPoint]
        rfl

theorem inOrder_of_reach {points : Nat → Waypoint R} {t : Flight R}
    (h : Reach (Started points) Step Always t) : InOrder points t := by
  refine Reach.invariant (I := InOrder points) ?_ (fun a s s' hs _ => inOrder_step hs) h
  intro s hs
  rw [hs]
  exact ⟨rfl, Nat.zero_le _, rfl⟩

/-- The UAV arrives, the network sleeps, and the UAV flies on. -/
theorem next_leg {points : Nat → Waypoint R} {t : Flight R}
    (h : Reach (Started points) Step Always t) (hstate : t.uav.runningState = .flyNextPoint)
    (hmode : t.uav.flyMode = .mission) (hcount : t.uav.waypointCount < waypointNum) :
    ∃ t', Reach (Started points) Step Always t' ∧ t'.uav.runningState = .flyNextPoint ∧
      t'.uav.flyMode = .mission ∧ t'.uav.waypointCount = t.uav.waypointCount + 1 := by
  have hlt : t.uav.waypointCount < 5 := hcount
  obtain ⟨t₁, ht₁, hs₁, hm₁, hc₁⟩ : ∃ t₁, Step (.task true false) t t₁ ∧
      t₁.uav.runningState = .doingMission ∧ t₁.uav.flyMode = .mission ∧
      t₁.uav.waypointCount = t.uav.waypointCount := by
    refine ⟨_, rfl, ?_⟩
    simp [Uav.taskStateMachine, hstate, hmode]
  obtain ⟨t₂, ht₂, hs₂, hm₂, hc₂, hn₂⟩ : ∃ t₂, Step (.network .sleeping) t₁ t₂ ∧
      t₂.uav.runningState = .doingMission ∧ t₂.uav.flyMode = .mission ∧
      t₂.uav.waypointCount = t.uav.waypointCount ∧ t₂.uav.networkMsg = .sleeping :=
    ⟨_, rfl, hs₁, hm₁, hc₁, rfl⟩
  refine ⟨_, .step (.step (.step h trivial ht₁) trivial ht₂) trivial (a := .task false false) rfl, ?_⟩
  simp [Uav.taskStateMachine, hs₂, hm₂, hc₂, hn₂, hlt]

/-- Every mission can be flown to its end. -/
theorem exists_all_flown (points : Nat → Waypoint R) :
    ∃ t, Reach (Started points) Step Always t ∧ t.uav.waypointCount = waypointNum := by
  have hlegs : ∀ k, k ≤ waypointNum → ∃ t, Reach (Started points) Step Always t ∧
      t.uav.runningState = .flyNextPoint ∧ t.uav.flyMode = .mission ∧ t.uav.waypointCount = k := by
    intro k
    induction k with
    | zero =>
      intro _
      exact ⟨_, .step (.init rfl) trivial (a := .takeOff) rfl, rfl, rfl, rfl⟩
    | succ k ih =>
      intro hk
      obtain ⟨t, ht, hstate, hmode, hcount⟩ := ih (Nat.le_of_succ_le hk)
      obtain ⟨t', ht', hstate', hmode', hcount'⟩ :=
        next_leg ht hstate hmode (by rw [hcount]; exact hk)
      exact ⟨t', ht', hstate', hmode', by rw [hcount', hcount]⟩
  obtain ⟨t, ht, -, -, hcount⟩ := hlegs waypointNum (Nat.le_refl _)
  exact ⟨t, ht, hcount⟩

end Flight

/-! ## The configured points -/

section

variable [OfNat R 10]

/-- The points the configuration asks for. -/
def configured (maxPoint : Int32) (f : PosFile R) : List (Waypoint R) :=
  if f.opens then (f.listed.take maxPoint.toInt.toNat).map waypoint else []

/-- Loading stays inside `mission_point`; the targets of every run are the configured points in
    order, each once, and all of them when the mission is over. -/
def FliesConfigured [OfNat R 0] (maxPoint : Int32) (f : PosFile R) : Prop :=
  ∃ points, initWaypoint maxPoint f = some points ∧
    ∀ t, Reach (Flight.Started points) Flight.Step Always t →
      t.targets <+: configured maxPoint f ∧
        (t.uav.waypointCount = waypointNum → t.targets = configured maxPoint f)

theorem toNat_toUInt32 (m : Int32) : m.toUInt32.toNat = (m.toInt % 2 ^ 32).toNat := by
  have h : m.toInt = m.toBitVec.toInt := rfl
  rw [h, BitVec.toInt_eq_toNat_cond]
  show m.toBitVec.toNat = _
  have := m.toBitVec.isLt
  split <;> omega

theorem configured_eq (f : PosFile R) (ho : f.opens = true) (hlen : waypointNum ≤ f.listed.length)
    (points : Nat → Waypoint R)
    (hpoints : ∀ j, j < waypointNum → points j = waypoint (f.readNextPos j)) :
    configured 5 f = (List.range waypointNum).map points := by
  have h5 : 5 ≤ f.listed.length := hlen
  rw [configured, if_pos ho]
  apply List.ext_getElem
  · simp only [List.length_map, List.length_take, List.length_range]
    show min 5 _ = 5
    omega
  · intro j h1 h2
    have hj : j < 5 := by simpa using h2
    rw [List.getElem_map, List.getElem_map, List.getElem_take, List.getElem_range, hpoints j hj,
      PosFile.readNextPos, List.getD_eq_getElem?_getD, List.getElem?_eq_getElem, Option.getD_some]

/-- The UAV flies `WAYPOINT_NUM` points whatever the configuration. -/
theorem length_configured [OfNat R 0] {maxPoint : Int32} {f : PosFile R}
    (h : FliesConfigured maxPoint f) : (configured maxPoint f).length = 5 := by
  obtain ⟨points, -, hruns⟩ := h
  obtain ⟨t, ht, hcount⟩ := Flight.exists_all_flown points
  rw [← (hruns t ht).2 hcount, (Flight.inOrder_of_reach ht).targets, hcount]
  simp

/-- The configured points are flown exactly when there are `WAYPOINT_NUM` of them. -/
theorem flies_iff [OfNat R 0] (maxPoint : Int32) (f : PosFile R) :
    FliesConfigured maxPoint f ↔
      maxPoint = 5 ∧ f.opens = true ∧ waypointNum ≤ f.listed.length := by
  constructor
  · intro hflies
    have hlen := length_configured hflies
    obtain ⟨points, hinit, -⟩ := hflies
    have ho : f.opens = true := by
      by_contra ho
      rw [configured, if_neg ho] at hlen
      cases hlen
    have hload : maxPoint.toUInt32.toNat ≤ 5 :=
      (initWaypoint_isSome_iff maxPoint f).mp (by rw [hinit]; rfl) ho
    rw [configured, if_pos ho, List.length_map, List.length_take] at hlen
    rw [toNat_toUInt32] at hload
    have hlt := maxPoint.toInt_lt
    refine ⟨?_, ho, ?_⟩
    · apply Int32.toInt_inj.mp
      show maxPoint.toInt = 5
      omega
    · show 5 ≤ _
      omega
  · rintro ⟨rfl, ho, hlen⟩
    have hinit : initWaypoint 5 f = _ := (if_pos ho).trans
      (initWaypointLoop_eq f 5 0 (fun _ => ⟨0, 0, 0⟩) (Nat.le_refl 5))
    refine ⟨_, hinit, ?_⟩
    intro t ht
    have horder := Flight.inOrder_of_reach ht
    have hconf := configured_eq f ho hlen
      (fun j => if 0 ≤ j ∧ j < 0 + 5 then waypoint (f.readNextPos j) else ⟨0, 0, 0⟩) (by
        intro j hj
        exact if_pos ⟨Nat.zero_le j, by rw [Nat.zero_add]; exact hj⟩)
    rw [hconf, horder.targets]
    refine ⟨?_, ?_⟩
    · obtain ⟨k, hk⟩ := Nat.exists_eq_add_of_le horder.count
      rw [hk, List.range_add, List.map_append]
      exact List.prefix_append _ _
    · intro hcount
      rw [hcount]

end

/-- With three configured points two entries that were never read are flown too; with six the sixth
    is written behind `mission_point`. -/
theorem not_flies :
    ¬ FliesConfigured (R := Int) 3 ⟨true, [(1, 1), (2, 2), (3, 3)], fun _ => (0, 0)⟩ ∧
      (initWaypoint (R := Int) 6
        ⟨true, [(1, 1), (2, 2), (3, 3), (4, 4), (5, 5), (6, 6)], fun _ => (0, 0)⟩).isNone := by
  constructor
  · intro h
    have hlen := length_configured h
    revert hlen
    decide
  · decide

end Adler.Mission
