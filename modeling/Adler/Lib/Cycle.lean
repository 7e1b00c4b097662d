/-
  An index that a loop counts up in arithmetic modulo `m` until it is at a bound or beyond. Nothing here
  names a program.

  * `Reaches`: the index comes that far, so that the loop ends.
  * `reaches_iff`: it does so for exactly the bounds up to the highest index of its cycle, `d` below `m`
    for `d` the greatest common divisor of the step and `m`.
-/
import Mathlib.Data.Int.GCD
import Mathlib.Data.Nat.ModEq
import Mathlib.Tactic.Common

namespace Adler.Lib

/-- Counted from `a` on in steps of `step` modulo `m`, the index comes to `stop` or beyond. -/
def Reaches (m step stop a : Nat) : Prop := ∃ k, stop ≤ (a + k * step) % m

variable {m step stop a : Nat}

/-- The index after one more step, from the next one on. -/
theorem index_succ (m step a k : Nat) :
    (a + (k + 1) * step) % m = ((a + step) % m + k * step) % m := by
  rw [Nat.mod_add_mod, Nat.succ_mul, Nat.add_assoc, Nat.add_comm step]

/-- As long as the index is below the bound there is a step to go. -/
theorem exists_pred_of_lt {k : Nat} (hlt : a < stop) (hend : stop ≤ (a + k * step) % m) :
    ∃ j, k = j + 1 ∧ stop ≤ ((a + step) % m + j * step) % m := by
  cases k with
  | zero =>
    rw [Nat.zero_mul, Nat.add_zero] at hend
    exact absurd hlt (Nat.not_lt_of_le (Nat.le_trans hend (Nat.mod_le a m)))
  | succ j => exact ⟨j, rfl, by rwa [← index_succ]⟩

theorem reaches_of_le (h : stop ≤ a) (ha : a < m) : Reaches m step stop a :=
  ⟨0, by rwa [Nat.zero_mul, Nat.add_zero, Nat.mod_eq_of_lt ha]⟩

theorem reaches_of_next (h : Reaches m step stop ((a + step) % m)) : Reaches m step stop a := by
  obtain ⟨k, hk⟩ := h
  exact ⟨k + 1, by rwa [index_succ]⟩

/-- Every index that is congruent modulo the greatest common divisor comes up. -/
theorem exists_index (hm : 0 < m) (step : Nat) {target : Nat} (htarget : target < m)
    (hmod : target % Nat.gcd step m = a % Nat.gcd step m) : ∃ k, (a + k * step) % m = target := by
  have hdvd : Nat.gcd step m ∣ m := Nat.gcd_dvd_right step m
  obtain ⟨u, hu⟩ : ∃ u, step * u ≡ Nat.gcd step m [MOD m] := by
    rcases Nat.lt_or_ge (Nat.gcd step m) m with hlt | hge
    · obtain ⟨u, -, hu⟩ := Nat.exists_mul_mod_eq_gcd hlt
      exact ⟨u, hu.trans (Nat.mod_eq_of_lt hlt).symm⟩
    · have hgcd : Nat.gcd step m = m := Nat.le_antisymm (Nat.le_of_dvd hm hdvd) hge
      refine ⟨0, ?_⟩
      rw [Nat.mul_zero, hgcd]
      exact (Nat.mod_self m).symm
  -- the distance to the target, once around for each unit of `a` so that it is not negative
  have hle : a ≤ target + m * a := by
    have hone : a ≤ m * a := Nat.le_mul_of_pos_left a hm
    omega
  obtain ⟨w, hw⟩ : Nat.gcd step m ∣ target + m * a - a := by
    apply (Nat.modEq_iff_dvd' hle).mp
    have hround : target + m * a ≡ target [MOD Nat.gcd step m] := by
      have hzero : m * a ≡ 0 [MOD Nat.gcd step m] :=
        (Nat.modEq_zero_iff_dvd.mpr (Nat.dvd_mul_right_of_dvd hdvd a))
      exact (Nat.ModEq.refl target).add hzero
    exact (hround.trans hmod).symm
  refine ⟨u * w, ?_⟩
  have hsteps : a + u * w * step ≡ a + Nat.gcd step m * w [MOD m] := by
    have heq : u * w * step = step * u * w := by
      rw [Nat.mul_comm (u * w) step, Nat.mul_assoc]
    rw [heq]
    exact (Nat.ModEq.refl a).add (hu.mul_right w)
  have hsum : a + Nat.gcd step m * w = target + m * a := by omega
  have hend : (a + u * w * step) % m = (target + m * a) % m := hsum ▸ hsteps
  rw [hend, Nat.add_mul_mod_self_left, Nat.mod_eq_of_lt htarget]

/-- No index of the cycle is higher than the last one before `m`. -/
theorem index_le (hm : 0 < m) (k : Nat) :
    (a + k * step) % m ≤ m - Nat.gcd step m + a % Nat.gcd step m := by
  have hmod : (a + k * step) % m % Nat.gcd step m = a % Nat.gcd step m := by
    rw [Nat.mod_mod_of_dvd _ (Nat.gcd_dvd_right step m)]
    have hzero : k * step ≡ 0 [MOD Nat.gcd step m] :=
      Nat.modEq_zero_iff_dvd.mpr (Nat.dvd_mul_left_of_dvd (Nat.gcd_dvd_left step m) k)
    exact (Nat.ModEq.refl a).add hzero
  obtain ⟨q, hq⟩ := Nat.gcd_dvd_right step m
  have hpos : 0 < Nat.gcd step m := Nat.gcd_pos_of_pos_right step hm
  have hlt : (a + k * step) % m < m := Nat.mod_lt _ hm
  have hdiv := Nat.div_add_mod ((a + k * step) % m) (Nat.gcd step m)
  have hquot : (a + k * step) % m / Nat.gcd step m < q :=
    Nat.div_lt_of_lt_mul (Nat.lt_of_lt_of_eq hlt hq)
  have hle : Nat.gcd step m * ((a + k * step) % m / Nat.gcd step m) + Nat.gcd step m ≤ m := by
    have hmul := Nat.mul_le_mul_left (Nat.gcd step m) hquot
    rw [Nat.mul_succ, ← hq] at hmul
    exact hmul
  omega

/-- **The bounds that are reached.** -/
theorem reaches_iff (hm : 0 < m) :
    Reaches m step stop a ↔ stop ≤ m - Nat.gcd step m + a % Nat.gcd step m := by
  constructor
  · rintro ⟨k, hk⟩
    exact Nat.le_trans hk (index_le hm k)
  · intro hstop
    have hpos : 0 < Nat.gcd step m := Nat.gcd_pos_of_pos_right step hm
    have hle : Nat.gcd step m ≤ m := Nat.le_of_dvd hm (Nat.gcd_dvd_right step m)
    have hrest : a % Nat.gcd step m < Nat.gcd step m := Nat.mod_lt _ hpos
    obtain ⟨q, hq⟩ := Nat.dvd_sub (Nat.gcd_dvd_right step m) (Nat.dvd_refl (Nat.gcd step m))
    have hmod : (m - Nat.gcd step m + a % Nat.gcd step m) % Nat.gcd step m =
        a % Nat.gcd step m := by
      rw [hq, Nat.mul_add_mod, Nat.mod_mod]
    obtain ⟨k, hk⟩ := exists_index hm step (by omega) hmod
    exact ⟨k, hk ▸ hstop⟩

end Adler.Lib
