/-
  A memory as a string of bits, the highest bit of each byte first, and fields of bits in it. Nothing
  here names a program.

  `Field m pos len f`: the bits from `pos` on are `f 0, f 1, ..`. `testBit_window`: bits across the
  border of two bytes.
-/
import Adler.Lib.Memory
import Mathlib.Data.Nat.Bitwise

namespace Adler.Lib

namespace Mem

/-- Bit `k` of the memory. -/
def bit (m : Mem) (k : ℕ) : Bool := (m (k / 8)).toNat.testBit (7 - k % 8)

/-- The `len` bits from `pos` on. -/
def Field (m : Mem) (pos len : ℕ) (f : ℕ → Bool) : Prop := ∀ j < len, m.bit (pos + j) = f j

/-- Bytes with the same bits are the same. -/
theorem byte_ext {a b : UInt8} (h : ∀ i < 8, a.toNat.testBit i = b.toNat.testBit i) : a = b := by
  apply UInt8.toNat_inj.mp
  apply Nat.eq_of_testBit_eq
  intro i
  by_cases hi : i < 8
  · exact h i hi
  · have hle : 2 ^ 8 ≤ 2 ^ i := Nat.pow_le_pow_right (by decide) (by omega)
    rw [Nat.testBit_lt_two_pow (Nat.lt_of_lt_of_le a.toNat_lt hle),
      Nat.testBit_lt_two_pow (Nat.lt_of_lt_of_le b.toNat_lt hle)]

theorem bit_mul_add (m : Mem) (a : ℕ) {j : ℕ} (hj : j < 8) :
    m.bit (8 * a + j) = (m a).toNat.testBit (7 - j) := by
  rw [bit, show (8 * a + j) / 8 = a by omega, show (8 * a + j) % 8 = j by omega]

/-- Memories that agree on a byte agree on its bits. -/
theorem bit_congr {m m' : Mem} {k : ℕ} (h : m (k / 8) = m' (k / 8)) : m.bit k = m'.bit k := by
  rw [bit, bit, h]

/-- The bits of a byte that is zero. -/
theorem bit_of_zero {m : Mem} {k : ℕ} (h : m (k / 8) = 0) : m.bit k = false := by
  rw [bit, h]
  exact Nat.zero_testBit _

/-- The sixteen bits of a byte and the one behind it. -/
theorem testBit_window (m : Mem) (a : ℕ) {j : ℕ} (hj : j < 16) :
    (((m a).toNat <<< 8) ||| (m (a + 1)).toNat).testBit (15 - j) = m.bit (8 * a + j) := by
  rw [Nat.testBit_or, Nat.testBit_shiftLeft]
  by_cases h8 : j < 8
  · have hlow : (m (a + 1)).toNat.testBit (15 - j) = false :=
      Nat.testBit_lt_two_pow (Nat.lt_of_lt_of_le (m (a + 1)).toNat_lt
        (Nat.pow_le_pow_right (by decide) (by omega)))
    rw [hlow, bit_mul_add m a h8, Bool.or_false, show 15 - j - 8 = 7 - j by omega]
    simp only [show 15 - j ≥ 8 by omega, decide_true, Bool.true_and]
  · have hhigh : ¬ 15 - j ≥ 8 := by omega
    rw [show 8 * a + j = 8 * (a + 1) + (j - 8) by omega, bit_mul_add m (a + 1) (by omega),
      show 7 - (j - 8) = 15 - j by omega]
    simp only [hhigh, decide_false, Bool.false_and, Bool.false_or]

end Mem

end Adler.Lib
