/-
  Integer code that rounds a quotient to the nearest integer. Nothing here names a program.

  * `round_div`: adding half the divisor before the division.
  * `round_half`: one bit more in the quotient, which the last step rounds away.
-/
import Mathlib.Data.Rat.Floor
import Mathlib.Algebra.Order.Round
import Mathlib.Tactic.FieldSimp
import Mathlib.Tactic.Ring

namespace Adler.Lib

/-- A quotient rounded to the nearest integer, halves up. -/
theorem round_div (n : Nat) {d : Nat} (hd : 0 < d) :
    round ((n : ℚ) / d) = ((2 * n + d) / (2 * d) : Nat) := by
  have hne : (d : ℚ) ≠ 0 := Nat.cast_ne_zero.mpr (Nat.pos_iff_ne_zero.mp hd)
  have hsum : (n : ℚ) / d + 1 / 2 = ((2 * n + d : Nat) : ℚ) / ((2 * d : Nat) : ℚ) := by
    push_cast
    field_simp
  rw [round_eq, hsum, Rat.floor_natCast_div_natCast]
  exact (Int.natCast_ediv _ _).symm

/-- Adding half of an even divisor. -/
theorem round_div_two_mul (n : Nat) {d : Nat} (hd : 0 < d) :
    round ((n : ℚ) / (2 * d : Nat)) = ((n + d) / (2 * d) : Nat) := by
  have hhalf : 2 * n + 2 * d = 2 * (n + d) := by ring
  rw [round_div n (Nat.mul_pos Nat.two_pos hd), hhalf, Nat.mul_div_mul_left _ _ Nat.two_pos]

/-- A quotient of twice the number, rounded by its last bit. -/
theorem round_half (n : Nat) {d : Nat} (hd : 0 < d) :
    round ((n : ℚ) / d) = ((2 * n / d + 1) / 2 : Nat) := by
  rw [round_div n hd, ← Nat.add_div_right (2 * n) hd, Nat.div_div_eq_div_mul, Nat.mul_comm d 2]

end Adler.Lib
