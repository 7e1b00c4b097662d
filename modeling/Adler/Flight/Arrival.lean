/-
  The arrival of the UAV at its target: the counters of `Mission::step` in
  `uav_control/src/my_flight_control.cpp`.

  The position and the yaw come in as a boolean: whether they are within bounds of the target. The
  position command computed from them is only passed on. The counters are `int` and stay below 52.

  * `Mission.step`: a call of `step` and what it publishes.
  * `Since`: the samples since the counters were last zero.
  * `phase_run`: after any calls the UAV flies to the target, brakes, or has finished, each with the
    samples that led there.
  * `arrival_detected`: the samples and commands behind every `finished`.
-/
import Mathlib.Data.List.Induction
import Mathlib.Tactic.Common

namespace Adler.Flight

variable {R : Type}

/-- What a call of `step` finds: whether the UAV is within bounds, and the position command. -/
structure Sample (R : Type) where
  inBounds : Bool
  setpoint : R

/-- What `step` publishes. -/
inductive Command (R : Type) where
  /-- On `ctrlPosYawPub`. -/
  | posYaw (setpoint : R)
  /-- On `ctrlBrakePub`: no velocity, no yaw rate. -/
  | brake

/-- The members of `Mission` that track the arrival. -/
structure Mission where
  inboundCounter : Nat
  outboundCounter : Nat
  breakCounter : Nat
  finished : Bool

namespace Mission

/-- `reset`. -/
def reset (_ : Mission) : Mission := ⟨0, 0, 0, false⟩

/-- The end of `step`, after a position command. -/
def detect (inBounds : Bool) (m : Mission) : Mission :=
  let m :=
    if inBounds then { m with inboundCounter := m.inboundCounter + 1 }
    else if m.inboundCounter ≠ 0 then { m with outboundCounter := m.outboundCounter + 1 }
    else m
  let m := if m.outboundCounter > 10 then { m with inboundCounter := 0, outboundCounter := 0 } else m
  if m.inboundCounter > 50 then { m with breakCounter := 1 } else m

/-- `step`. -/
def step (s : Sample R) (m : Mission) : Mission × Option (Command R) :=
  if m.breakCounter > 50 then ({ m with finished := true }, none)
  else if m.breakCounter > 0 then ({ m with breakCounter := m.breakCounter + 1 }, some .brake)
  else (m.detect s.inBounds, some (.posYaw s.setpoint))

/-- The calls of `step`, one for each sample. -/
def run (m : Mission) (ss : List (Sample R)) : Mission := ss.foldl (fun m s => (m.step s).1) m

/-- What each of these calls publishes. -/
def commands (m : Mission) : List (Sample R) → List (Option (Command R))
  | [] => []
  | s :: ss => (m.step s).2 :: (m.step s).1.commands ss

variable {m : Mission} {s : Sample R}

@[simp] theorem run_nil (m : Mission) : m.run ([] : List (Sample R)) = m := rfl

@[simp] theorem run_cons (m : Mission) (s : Sample R) (ss : List (Sample R)) :
    m.run (s :: ss) = (m.step s).1.run ss := rfl

theorem run_append (m : Mission) (xs ys : List (Sample R)) :
    m.run (xs ++ ys) = (m.run xs).run ys := List.foldl_append

theorem run_concat (m : Mission) (ss : List (Sample R)) (s : Sample R) :
    m.run (ss ++ [s]) = ((m.run ss).step s).1 := run_append m ss [s]

theorem commands_append (m : Mission) (xs ys : List (Sample R)) :
    m.commands (xs ++ ys) = m.commands xs ++ (m.run xs).commands ys := by
  induction xs generalizing m with
  | nil => rfl
  | cons s xs ih => rw [List.cons_append, commands, ih, commands, run_cons, List.cons_append]

/-! ## One call -/

theorem step_finished (h : 50 < m.breakCounter) : m.step s = ({ m with finished := true }, none) :=
  if_pos h

theorem step_brake (h0 : 0 < m.breakCounter) (h : m.breakCounter ≤ 50) :
    m.step s = ({ m with breakCounter := m.breakCounter + 1 }, some .brake) := by
  rw [step, if_neg (by omega), if_pos h0]

theorem step_fly (h : m.breakCounter = 0) :
    m.step s = (m.detect s.inBounds, some (.posYaw s.setpoint)) := by
  rw [step, if_neg (by omega), if_neg (by omega)]

theorem detect_in (hin : m.inboundCounter < 50) (hout : m.outboundCounter ≤ 10) :
    m.detect true = { m with inboundCounter := m.inboundCounter + 1 } := by
  have h1 : ¬ m.outboundCounter > 10 := by omega
  have h2 : ¬ m.inboundCounter + 1 > 50 := by omega
  simp only [detect, if_true, if_neg h1, if_neg h2]

/-- The sample that starts the brake. -/
theorem detect_arrive (hin : m.inboundCounter = 50) (hout : m.outboundCounter ≤ 10) :
    m.detect true = { m with inboundCounter := 51, breakCounter := 1 } := by
  have h1 : ¬ m.outboundCounter > 10 := by omega
  have h2 : m.inboundCounter + 1 > 50 := by omega
  simp only [detect, if_true, if_neg h1, if_pos h2]
  rw [hin]

/-- Samples out of bounds do not count before the first one within. -/
theorem detect_idle (hin : m.inboundCounter = 0) (hout : m.outboundCounter ≤ 10) :
    m.detect false = m := by
  have h1 : ¬ m.outboundCounter > 10 := by omega
  have h2 : ¬ m.inboundCounter ≠ 0 := by omega
  have h3 : ¬ m.inboundCounter > 50 := by omega
  simp only [detect, Bool.false_eq_true, if_false, if_neg h1, if_neg h2, if_neg h3]

theorem detect_out (hin : m.inboundCounter ≠ 0) (hle : m.inboundCounter ≤ 50)
    (hout : m.outboundCounter < 10) :
    m.detect false = { m with outboundCounter := m.outboundCounter + 1 } := by
  have h1 : ¬ m.outboundCounter + 1 > 10 := by omega
  have h2 : ¬ m.inboundCounter > 50 := by omega
  simp only [detect, Bool.false_eq_true, if_false, if_pos hin, if_neg h1, if_neg h2]

/-- The eleventh sample out of bounds. -/
theorem detect_lost (hin : m.inboundCounter ≠ 0) (hout : m.outboundCounter = 10) :
    m.detect false = { m with inboundCounter := 0, outboundCounter := 0 } := by
  have h1 : m.outboundCounter + 1 > 10 := by omega
  have h2 : ¬ 0 > 50 := by omega
  simp only [detect, Bool.false_eq_true, if_false, if_pos hin, if_pos h1, if_neg h2]

@[simp] theorem detect_finished (inBounds : Bool) (m : Mission) :
    (m.detect inBounds).finished = m.finished := by
  unfold detect
  dsimp only
  split_ifs <;> rfl

/-! ## Braking and finished -/

theorem finished_step (h : m.finished = true) : (m.step s).1.finished = true := by
  rcases Nat.lt_or_ge 50 m.breakCounter with hgt | hle
  · rw [step_finished hgt]
  · rcases Nat.eq_zero_or_pos m.breakCounter with h0 | hpos
    · rw [step_fly h0, detect_finished]
      exact h
    · rw [step_brake hpos hle]
      exact h

theorem finished_run (ss : List (Sample R)) (h : m.finished = true) :
    (m.run ss).finished = true := by
  induction ss generalizing m with
  | nil => exact h
  | cons s ss ih => exact ih (finished_step h)

theorem breakCounter_step (h : 0 < m.breakCounter) : 0 < (m.step s).1.breakCounter := by
  rcases Nat.lt_or_ge 50 m.breakCounter with hgt | hle
  · rw [step_finished hgt]
    exact h
  · rw [step_brake h hle]
    exact Nat.succ_pos _

theorem breakCounter_run (ss : List (Sample R)) (h : 0 < m.breakCounter) :
    0 < (m.run ss).breakCounter := by
  induction ss generalizing m with
  | nil => exact h
  | cons s ss ih => exact ih (breakCounter_step h)

/-- A brake command is behind every brake. -/
theorem breakCounter_of_brake (ss : List (Sample R)) (h : some .brake ∈ m.commands ss) :
    0 < (m.run ss).breakCounter := by
  induction ss generalizing m with
  | nil => exact absurd h List.not_mem_nil
  | cons s ss ih =>
    rcases Nat.eq_zero_or_pos m.breakCounter with h0 | hpos
    · rw [commands, step_fly h0] at h
      rw [run_cons, step_fly h0]
      rcases List.mem_cons.mp h with heq | hmem
      · cases heq
      · exact ih hmem
    · exact breakCounter_run (s :: ss) hpos

/-- The brake is never left for a position command. -/
theorem no_posYaw (ss : List (Sample R)) (h : 0 < m.breakCounter) (p : R) :
    some (.posYaw p) ∉ m.commands ss := by
  induction ss generalizing m with
  | nil => exact List.not_mem_nil
  | cons s ss ih =>
    intro hmem
    rcases List.mem_cons.mp hmem with heq | hrest
    · rcases Nat.lt_or_ge 50 m.breakCounter with hgt | hle
      · rw [step_finished hgt] at heq
        cases heq
      · rw [step_brake h hle] at heq
        cases heq
    · exact ih (breakCounter_step h) hrest

/-! ## The samples behind a state -/

/-- The inbound counter has not been zero since `before`. -/
structure Since (m : Mission) (before window : List (Sample R)) : Prop where
  inbound : (m.run before).inboundCounter = 0
  outbound : (m.run before).outboundCounter = 0
  nonzero : ∀ xs, xs ≠ [] → xs <+: window → (m.run (before ++ xs)).inboundCounter ≠ 0

theorem since_nil {before : List (Sample R)} (hin : (m.run before).inboundCounter = 0)
    (hout : (m.run before).outboundCounter = 0) : Since m before [] := by
  refine ⟨hin, hout, ?_⟩
  intro xs hne hpre
  exact absurd (List.prefix_nil.mp hpre) hne

theorem Since.concat {before window : List (Sample R)} (h : Since m before window)
    (hne : (m.run (before ++ (window ++ [s]))).inboundCounter ≠ 0) :
    Since m before (window ++ [s]) := by
  refine ⟨h.inbound, h.outbound, ?_⟩
  intro xs hxs hpre
  rcases List.prefix_concat_iff.mp hpre with rfl | hpre
  · exact hne
  · exact h.nonzero xs hxs hpre

/-- The position commands of the samples. -/
def positions (ss : List (Sample R)) : List (Option (Command R)) :=
  ss.map fun s => some (.posYaw s.setpoint)

/-- The UAV flies to the target. -/
structure Flying (m : Mission) (before window : List (Sample R)) : Prop
    extends Since m before window where
  state : m.run (before ++ window) =
    ⟨window.countP (·.inBounds), window.countP (!·.inBounds), 0, false⟩
  inside : window.countP (·.inBounds) ≤ 50
  outside : window.countP (!·.inBounds) ≤ 10
  commands : m.commands (before ++ window) = positions (before ++ window)

/-- The last sample of the window has started the brake. -/
structure Arrived (m : Mission) (before window : List (Sample R)) : Prop
    extends Since m before window where
  inside : 50 < window.countP (·.inBounds)
  outside : window.countP (!·.inBounds) ≤ 10

/-- The calls so far, by what the next one does. -/
inductive Phase (m : Mission) : List (Sample R) → Prop
  | flying {before window : List (Sample R)} : Flying m before window → Phase m (before ++ window)
  | braking {before window brakes : List (Sample R)} : Arrived m before window →
      brakes.length ≤ 50 →
      (m.run (before ++ window ++ brakes)).breakCounter = brakes.length + 1 →
      (m.run (before ++ window ++ brakes)).finished = false →
      m.commands (before ++ window ++ brakes) =
        positions (before ++ window) ++ List.replicate brakes.length (some .brake) →
      Phase m (before ++ window ++ brakes)
  | finished {before window brakes : List (Sample R)} {last : Sample R} {rest : List (Sample R)} :
      Arrived m before window → brakes.length = 50 →
      (m.run (before ++ window ++ brakes)).finished = false →
      (m.run (before ++ window ++ brakes ++ [last])).finished = true →
      50 < (m.run (before ++ window ++ brakes ++ last :: rest)).breakCounter →
      m.commands (before ++ window ++ brakes ++ last :: rest) =
        positions (before ++ window) ++ List.replicate 50 (some .brake) ++
          List.replicate (rest.length + 1) none →
      Phase m (before ++ window ++ brakes ++ last :: rest)

variable {before window brakes : List (Sample R)}

theorem positions_concat (ss : List (Sample R)) (s : Sample R) :
    positions (ss ++ [s]) = positions ss ++ [some (.posYaw s.setpoint)] := List.map_append

theorem commands_concat (m : Mission) (ss : List (Sample R)) (s : Sample R) :
    m.commands (ss ++ [s]) = m.commands ss ++ [((m.run ss).step s).2] := by
  rw [commands_append]
  rfl

theorem countP_concat (p : Sample R → Bool) (ss : List (Sample R)) (s : Sample R) :
    (ss ++ [s]).countP p = ss.countP p + if p s then 1 else 0 := by
  rw [List.countP_append, List.countP_singleton]

namespace Flying

/-- The state after another call. -/
theorem run_next (h : Flying m before window) (s : Sample R) :
    m.run (before ++ window ++ [s]) =
      detect s.inBounds ⟨window.countP (·.inBounds), window.countP (!·.inBounds), 0, false⟩ := by
  rw [run_concat, h.state, step_fly rfl]

theorem commands_next (h : Flying m before window) (s : Sample R) :
    m.commands (before ++ window ++ [s]) = positions (before ++ window ++ [s]) := by
  rw [commands_concat, h.commands, h.state, step_fly rfl, positions_concat]

/-- A call after which the counters are zero starts the window anew. -/
theorem restart (h : Flying m before window)
    (hrun : m.run (before ++ window ++ [s]) = ⟨0, 0, 0, false⟩) :
    Flying m (before ++ window ++ [s]) [] := by
  have hcmd := h.commands_next s
  have hsince : Since m (before ++ window ++ [s]) [] :=
    since_nil (by rw [hrun]) (by rw [hrun])
  refine ⟨hsince, ?_, Nat.zero_le _, Nat.zero_le _, ?_⟩
  · rw [List.append_nil]
    exact hrun
  · rw [List.append_nil]
    exact hcmd

/-- A call that counts a sample extends the window. -/
theorem extend (h : Flying m before window)
    (hrun : m.run (before ++ window ++ [s]) =
      ⟨(window ++ [s]).countP (·.inBounds), (window ++ [s]).countP (!·.inBounds), 0, false⟩)
    (hne : (window ++ [s]).countP (·.inBounds) ≠ 0)
    (hin : (window ++ [s]).countP (·.inBounds) ≤ 50)
    (hout : (window ++ [s]).countP (!·.inBounds) ≤ 10) : Flying m before (window ++ [s]) := by
  have hcmd := h.commands_next s
  rw [List.append_assoc] at hrun hcmd
  have hsince : Since m before (window ++ [s]) := by
    apply h.toSince.concat
    rw [hrun]
    exact hne
  exact ⟨hsince, hrun, hin, hout, hcmd⟩

/-- Before the first sample within bounds there is no window. -/
theorem window_eq_nil (h : Flying m before window) (h0 : window.countP (·.inBounds) = 0) :
    window = [] := by
  by_contra hne
  refine h.nonzero window hne (List.prefix_refl _) ?_
  rw [h.state]
  exact h0

theorem phase_nil (h : Flying m before []) : Phase m before := by
  have hphase : Phase m (before ++ []) := .flying h
  rw [List.append_nil] at hphase
  exact hphase

theorem phase_concat (h : Flying m before (window ++ [s])) : Phase m (before ++ window ++ [s]) := by
  rw [List.append_assoc]
  exact .flying h

/-- Another sample within bounds on the way to the target. -/
theorem phase_in (h : Flying m before window) (hs : s.inBounds = true) :
    Phase m (before ++ window ++ [s]) := by
  have hrun := h.run_next s
  have hin := h.inside
  have hout := h.outside
  have hcountIn := countP_concat (·.inBounds) window s
  have hcountOut := countP_concat (!·.inBounds) window s
  simp only [hs, if_true, Bool.not_true, Bool.false_eq_true, if_false, Nat.add_zero]
    at hrun hcountIn hcountOut
  rcases Nat.lt_or_ge (window.countP (·.inBounds)) 50 with hlt | hge
  · rw [detect_in hlt hout] at hrun
    apply phase_concat
    apply h.extend
    · rw [hcountIn, hcountOut]
      exact hrun
    all_goals omega
  · -- the sample that starts the brake
    rw [detect_arrive (by show List.countP _ _ = 50; omega) hout] at hrun
    have hcmd := h.commands_next s
    rw [List.append_assoc] at hrun hcmd ⊢
    have harrived : Arrived m before (window ++ [s]) := by
      refine ⟨h.toSince.concat ?_, by omega, by omega⟩
      rw [hrun]
      show 51 ≠ 0
      decide
    rw [← List.append_nil (before ++ (window ++ [s]))]
    apply Phase.braking harrived (Nat.zero_le _)
    · rw [List.append_nil, hrun]
      rfl
    · rw [List.append_nil, hrun]
    · rw [List.append_nil, hcmd]
      exact (List.append_nil _).symm

/-- Another sample out of bounds on the way to the target. -/
theorem phase_out (h : Flying m before window) (hs : s.inBounds = false) :
    Phase m (before ++ window ++ [s]) := by
  have hrun := h.run_next s
  have hin := h.inside
  have hout := h.outside
  have hcountIn := countP_concat (·.inBounds) window s
  have hcountOut := countP_concat (!·.inBounds) window s
  simp only [hs, if_true, Bool.not_false, Bool.false_eq_true, if_false, Nat.add_zero]
    at hrun hcountIn hcountOut
  by_cases h0 : window.countP (·.inBounds) = 0
  · -- no sample has been within bounds yet
    have hnil := h.window_eq_nil h0
    subst hnil
    rw [detect_idle rfl (Nat.zero_le _)] at hrun
    exact phase_nil (h.restart hrun)
  · rcases Nat.lt_or_ge (window.countP (!·.inBounds)) 10 with hlt | hge
    · rw [detect_out h0 hin hlt] at hrun
      apply phase_concat
      apply h.extend
      · rw [hcountIn, hcountOut]
        exact hrun
      all_goals omega
    · -- too many out of bounds
      rw [detect_lost h0 (by show List.countP _ _ = 10; omega)] at hrun
      exact phase_nil (h.restart hrun)

end Flying

/-- A call while the UAV brakes. -/
theorem phase_brake (h : Arrived m before window) (hlen : brakes.length ≤ 50)
    (hbreak : (m.run (before ++ window ++ brakes)).breakCounter = brakes.length + 1)
    (hrun : (m.run (before ++ window ++ brakes)).finished = false)
    (hcmd : m.commands (before ++ window ++ brakes) =
      positions (before ++ window) ++ List.replicate brakes.length (some .brake))
    (s : Sample R) : Phase m (before ++ window ++ brakes ++ [s]) := by
  have hnext := run_concat m (before ++ window ++ brakes) s
  have hcmdNext := commands_concat m (before ++ window ++ brakes) s
  rcases Nat.lt_or_ge brakes.length 50 with hlt | hge
  · rw [step_brake (by omega) (by omega)] at hnext hcmdNext
    rw [List.append_assoc] at hnext hcmdNext ⊢
    apply Phase.braking h
    · rw [List.length_append]
      exact hlt
    · rw [hnext, List.length_append]
      exact congrArg (· + 1) hbreak
    · rw [hnext]
      exact hrun
    · rw [hcmdNext, hcmd, List.append_assoc, List.length_append, List.length_singleton,
        List.replicate_succ']
  · -- fifty brake commands are out
    rw [step_finished (by omega)] at hnext hcmdNext
    apply Phase.finished h (by omega) hrun
    · rw [hnext]
    · rw [hnext]
      show 50 < (m.run (before ++ window ++ brakes)).breakCounter
      omega
    · rw [hcmdNext, hcmd, Nat.le_antisymm hlen hge]
      rfl

/-- After any calls. -/
theorem phase_run (m : Mission) (ss : List (Sample R)) : Phase m.reset ss := by
  induction ss using List.reverseRecOn with
  | nil =>
    have hflying : Flying m.reset ([] : List (Sample R)) [] :=
      ⟨since_nil rfl rfl, rfl, Nat.zero_le _, Nat.zero_le _, rfl⟩
    exact hflying.phase_nil
  | append_singleton ss s ih =>
    cases ih with
    | flying h =>
      cases hs : s.inBounds with
      | true => exact h.phase_in hs
      | false => exact h.phase_out hs
    | braking h hlen hbreak hrun hcmd => exact phase_brake h hlen hbreak hrun hcmd s
    | @finished before window brakes last rest h hlen hrun hfin hbreak hcmd =>
      have hnext := run_concat m.reset (before ++ window ++ brakes ++ last :: rest) s
      have hcmdNext := commands_concat m.reset (before ++ window ++ brakes ++ last :: rest) s
      rw [step_finished hbreak] at hnext hcmdNext
      rw [List.append_assoc, List.cons_append] at hnext hcmdNext ⊢
      apply Phase.finished h hlen hrun hfin
      · rw [hnext]
        exact hbreak
      · rw [hcmdNext, hcmd, List.append_assoc, List.length_append, List.length_singleton,
          ← List.replicate_succ']

/-- **The arrival at a target**, over any calls of `step` after `reset`. `finished` comes after more
    than 50 samples within bounds and at most 10 out of bounds since the counters were zero, and
    exactly 50 brake commands; a brake is never followed by a position command, and `finished`
    stays. -/
theorem arrival_detected (m : Mission) (ss : List (Sample R)) :
    ((m.reset.run ss).finished = true →
      ∃ before window brakes last rest, ss = before ++ window ++ brakes ++ last :: rest ∧
        Since m.reset before window ∧
        50 < window.countP (·.inBounds) ∧ window.countP (!·.inBounds) ≤ 10 ∧
        brakes.length = 50 ∧
        (m.reset.run (before ++ window ++ brakes)).finished = false ∧
        (m.reset.run (before ++ window ++ brakes ++ [last])).finished = true ∧
        m.reset.commands ss = positions (before ++ window) ++
          List.replicate 50 (some .brake) ++ List.replicate (rest.length + 1) none) ∧
    ∀ xs ys, ss = xs ++ ys →
      (some .brake ∈ m.reset.commands xs → ∀ p, some (.posYaw p) ∉ (m.reset.run xs).commands ys) ∧
      ((m.reset.run xs).finished = true → (m.reset.run ss).finished = true) := by
  constructor
  · intro hfin
    cases phase_run m ss with
    | flying h =>
      rw [h.state] at hfin
      cases hfin
    | braking _ _ _ hrun =>
      rw [hrun] at hfin
      cases hfin
    | @finished before window brakes last rest h hlen hrun hlast _ hcmd =>
      exact ⟨before, window, brakes, last, rest, rfl, h.toSince, h.inside, h.outside, hlen, hrun,
        hlast, hcmd⟩
  · rintro xs ys rfl
    constructor
    · intro hbrake p
      exact no_posYaw ys (breakCounter_of_brake xs hbrake) p
    · intro hfin
      rw [run_append]
      exact finished_run ys hfin

/-- The shortest way to `finished`: 51 samples within bounds, 50 calls that brake, and one more. -/
theorem arrival_detected_shortest :
    ((reset ⟨7, 7, 7, true⟩).run (.replicate 102 (⟨true, ()⟩ : Sample Unit))).finished = true ∧
      ∃ before window brakes last rest,
        List.replicate 102 (⟨true, ()⟩ : Sample Unit) = before ++ window ++ brakes ++ last :: rest ∧
          50 < window.countP (·.inBounds) ∧ brakes.length = 50 ∧
          (reset ⟨7, 7, 7, true⟩).commands (.replicate 102 (⟨true, ()⟩ : Sample Unit)) =
            positions (before ++ window) ++ List.replicate 50 (some .brake) ++
              List.replicate (rest.length + 1) none := by
  have hfin : ((reset ⟨7, 7, 7, true⟩).run
      (.replicate 102 (⟨true, ()⟩ : Sample Unit))).finished = true := by
    decide +kernel
  obtain ⟨before, window, brakes, last, rest, hsplit, -, hin, -, hlen, -, -, hcmd⟩ :=
    (arrival_detected ⟨7, 7, 7, true⟩ (.replicate 102 (⟨true, ()⟩ : Sample Unit))).1 hfin
  exact ⟨hfin, before, window, brakes, last, rest, hsplit, hin, hlen, hcmd⟩

end Mission

end Adler.Flight
