/-
  `NET_cmd` between the two threads of `network_control`: the reading thread writes the gateway's
  command into it, the main loop resets it after it has sent START_MISSION and tests it later.

  * `NcStep`: a callback, the main loop up to its next access to `NET_cmd`, or a frame of the gateway.
  * `answered`: a ghost that is set by a START_FLY and cleared by the next START_MISSION.
  * `start_fly_kept`: no START_FLY is lost in runs where none is decoded between the write of
    START_MISSION and `reset_gateway_cmd`; one that is decoded there is lost.
-/
import Adler.Mission.Handshake

namespace Adler.Mission

open Lib (Reach observed)

/-- The frames the gateway sends. -/
def Frame.FromGateway : Frame → Prop
  | .cmd data => data = NetCmd.startFly.code
  | .report _ => True

instance : DecidablePred Frame.FromGateway := fun f =>
  match f with
  | .cmd data => inferInstanceAs (Decidable (data = NetCmd.startFly.code))
  | .report _ => .isTrue trivial

theorem Gateway.handle_fromGateway (a : Deluge.RimeAddr) (g : Gateway) :
    ∀ f ∈ (g.handle a).2, f.FromGateway := by
  intro f hf
  unfold Gateway.handle at hf
  match hq : g.queue with
  | [] => simp [hq] at hf
  | .serial :: rest =>
    simp only [hq, Gateway.process] at hf
    split at hf
    · split at hf <;> exact absurd hf List.not_mem_nil
    · exact absurd hf List.not_mem_nil
  | .deluge :: rest =>
    simp only [hq, Gateway.process, List.mem_singleton] at hf
    rw [hf]
    trivial
  | .timer :: rest =>
    simp only [hq, Gateway.process, List.mem_singleton] at hf
    rw [hf]
    rfl

/-- What can happen next in `network_control`. -/
inductive NcStep where
  | uavState (msg : FlightState)
  | main
  | read (f : Frame)
deriving DecidableEq

namespace NetworkControl

/-- One step; callbacks run in `ros::spinOnce`. -/
def next (a : NcStep) (c : NetworkControl) : Option NetworkControl :=
  match a with
  | .uavState msg => if c.point = .spin then some (c.uavStateCallback msg) else none
  | .main => some c.main.1
  | .read f => if f.FromGateway then some (c.dataDecode f) else none

def Step (a : NcStep) (c c' : NetworkControl) : Prop := c.next a = some c'

/-- A START_FLY has been decoded since the last START_MISSION was written. -/
def answered (a : NcStep) (c c' : NetworkControl) (b : Bool) : Bool :=
  match a with
  | .uavState _ => b
  | .main => if c.point = .spin ∧ c'.point = .sent then false else b
  | .read f => if f = startFlyFrame then true else b

theorem answered_main {c c' : NetworkControl} {b : Bool} (h : c.point ≠ .spin) :
    answered .main c c' b = b := if_neg fun hp => h hp.1

/-- The START_FLY of the current mission is gone. -/
def Lost (x : NetworkControl × Bool) : Prop :=
  x.2 = true ∧ x.1.netState = .working ∧ x.1.netCmd ≠ NetCmd.startFly.code

/-- No START_FLY is decoded between the write of START_MISSION and `reset_gateway_cmd`. -/
def NotBeforeReset (a : NcStep) (x : NetworkControl × Bool) : Prop :=
  a = .read startFlyFrame → x.1.point ≠ .sent

instance (a : NcStep) (x : NetworkControl × Bool) : Decidable (NotBeforeReset a x) :=
  inferInstanceAs (Decidable (_ → _))

def Started (x : NetworkControl × Bool) : Prop := x = (start, false)

theorem observedNext_observed (a : NcStep) (x y : NetworkControl × Bool)
    (h : Lib.observedNext next answered a x = some y) : observed Step answered a x y :=
  Lib.observedNext_step (fun _ _ _ h => h) a x y h

/-- An answer is in `NET_cmd`, which is not about to be reset. -/
def AnswerKept (x : NetworkControl × Bool) : Prop :=
  x.2 = true → x.1.netCmd = NetCmd.startFly.code ∧ x.1.point ≠ .sent

/-- What the main loop does with `NET_cmd`. -/
theorem main_netCmd (c : NetworkControl) :
    (c.point = .spin ∧ c.main.1.point = .sent) ∨ c.point = .sent ∨
      (c.main.1.netCmd = c.netCmd ∧ c.main.1.point ≠ .sent) := by
  unfold main
  match hp : c.point with
  | .sent => exact .inr (.inl rfl)
  | .reset =>
    refine .inr (.inr ⟨rfl, ?_⟩)
    show NcPoint.spin ≠ .sent
    decide
  | .spin =>
    dsimp only
    match c.netState with
    | .unstart => exact .inr (.inr ⟨rfl, by rw [hp]; decide⟩)
    | .sleeping =>
      dsimp only
      split
      · exact .inl ⟨rfl, rfl⟩
      · exact .inr (.inr ⟨rfl, by rw [hp]; decide⟩)
    | .working =>
      dsimp only
      split <;> exact .inr (.inr ⟨rfl, by simp [hp]⟩)

theorem answerKept_step {a : NcStep} {x x' : NetworkControl × Bool} (h : AnswerKept x)
    (hok : NotBeforeReset a x) (hstep : observed Step answered a x x') : AnswerKept x' := by
  obtain ⟨hnext, hb⟩ := hstep
  unfold Step at hnext
  intro hans
  rw [hb] at hans
  match a with
  | .uavState msg =>
    simp only [next] at hnext
    split at hnext
    · rw [← Option.some.inj hnext]
      exact h hans
    · cases hnext
  | .main =>
    have hmain : x.1.main.1 = x'.1 := Option.some.inj hnext
    simp only [answered] at hans
    split at hans
    · cases hans
    · rename_i hnot
      obtain ⟨hcmd, hpoint⟩ := h hans
      rcases main_netCmd x.1 with hstart | hsent | ⟨hsame, hpoint'⟩
      · rw [hmain] at hstart
        exact absurd hstart hnot
      · exact absurd hsent hpoint
      · rw [hmain] at hsame hpoint'
        exact ⟨hsame.trans hcmd, hpoint'⟩
  | .read f =>
    simp only [next] at hnext
    split at hnext
    · rename_i hf
      rw [← Option.some.inj hnext]
      match f with
      | .cmd data =>
        have hdata : data = NetCmd.startFly.code := hf
        subst hdata
        exact ⟨rfl, hok rfl⟩
      | .report a =>
        have hx : x.2 = true := hans
        exact h hx
    · cases hnext

/-- A START_FLY that is decoded too early is lost two rounds of the loop later. -/
theorem lost_of_early {c : NetworkControl} (hc : c.point = .sent) :
    ((c.dataDecode startFlyFrame).main.1.main.1).netState = .working ∧
      ((c.dataDecode startFlyFrame).main.1.main.1).netCmd = noCmd := by
  have hsent : (c.dataDecode startFlyFrame).point = .sent := hc
  have hreset : (c.dataDecode startFlyFrame).main.1 =
      { c.dataDecode startFlyFrame with netCmd := noCmd, point := .reset } := by
    simp only [main, hsent]
  rw [hreset]
  exact ⟨rfl, rfl⟩

/-- As long as no START_FLY was decoded before the reset none is lost, and one that is decoded there
    then is. -/
theorem start_fly_kept {x : NetworkControl × Bool}
    (hx : Reach Started (observed Step answered) NotBeforeReset x) :
    ¬ Lost x ∧ (x.1.point = .sent →
      ∃ x₁ x₂ x₃, observed Step answered (.read startFlyFrame) x x₁ ∧
        observed Step answered .main x₁ x₂ ∧ observed Step answered .main x₂ x₃ ∧ Lost x₃) := by
  constructor
  · intro hlost
    have hkept : AnswerKept x := by
      refine Reach.invariant (I := AnswerKept) ?_ (fun a s s' => answerKept_step) hx
      intro s hs hans
      rw [hs] at hans
      cases hans
    exact hlost.2.2 (hkept hlost.1).1
  · intro hpoint
    obtain ⟨hwork, hcmd⟩ := lost_of_early hpoint
    have hsent : (x.1.dataDecode startFlyFrame).point = .sent := hpoint
    have hreset : (x.1.dataDecode startFlyFrame).main.1.point = .reset := by
      simp only [main, hsent]
    refine ⟨(x.1.dataDecode startFlyFrame, true), ((x.1.dataDecode startFlyFrame).main.1, true),
      ((x.1.dataDecode startFlyFrame).main.1.main.1, true), ⟨rfl, rfl⟩, ⟨rfl, ?_⟩, ⟨rfl, ?_⟩,
      rfl, hwork, ?_⟩
    · exact (answered_main (by rw [hsent]; decide)).symm
    · exact (answered_main (by rw [hreset]; decide)).symm
    · rw [hcmd]
      decide

/-- A run with the answer in `NET_cmd`, and one that has just written START_MISSION. -/
theorem start_fly_kept_arrived :
    (∃ x, x = (⟨.spin, .arrivePoint, .working, NetCmd.startFly.code⟩, true) ∧ ¬ Lost x) ∧
    ∃ x, x = (⟨.sent, .arrivePoint, .sleeping, noCmd⟩, false) ∧
      ∃ x₁ x₂ x₃, observed Step answered (.read startFlyFrame) x x₁ ∧
        observed Step answered .main x₁ x₂ ∧ observed Step answered .main x₂ x₃ ∧ Lost x₃ := by
  have hstart : Started (start, false) := rfl
  constructor
  · obtain ⟨x, hx, hp⟩ := Reach.exists_of_run NotBeforeReset observedNext_observed
      [.uavState .arrivePoint, .main, .main, .main, .read startFlyFrame]
      (fun x => decide (x = (⟨.spin, .arrivePoint, .working, NetCmd.startFly.code⟩, true)))
      hstart (by decide)
    exact ⟨x, of_decide_eq_true hp, (start_fly_kept hx).1⟩
  · obtain ⟨x, hx, hp⟩ := Reach.exists_of_run NotBeforeReset observedNext_observed
      [.uavState .arrivePoint, .main]
      (fun x => decide (x = (⟨.sent, .arrivePoint, .sleeping, noCmd⟩, false))) hstart (by decide)
    have hpoint : x.1.point = .sent := by rw [of_decide_eq_true hp]
    exact ⟨x, of_decide_eq_true hp, (start_fly_kept hx).2 hpoint⟩

/-- The gateway answers while the main loop is between `sent_cmd` and `reset_gateway_cmd`. -/
theorem start_fly_lost : ∃ x, Reach Started (observed Step answered) Lib.Always x ∧ Lost x := by
  have hstart : Started (start, false) := rfl
  obtain ⟨x, hx, hp⟩ := Reach.exists_of_run Lib.Always observedNext_observed
    [.uavState .arrivePoint, .main, .read startFlyFrame, .main, .main]
    (fun x => decide (x = (⟨.spin, .arrivePoint, .working, noCmd⟩, true))) hstart (by decide)
  refine ⟨x, hx, ?_⟩
  rw [of_decide_eq_true hp]
  exact ⟨rfl, rfl, by decide⟩

end NetworkControl

end Adler.Mission
