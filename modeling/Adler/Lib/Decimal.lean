/-
  Decimal numbers in a line of text. Nothing here names a program.

  * `numbers`: the numbers in a text, its runs of digits.
  * `numbers_toDigits`: a number written in front of something else than a digit is read back.
  * `digits`, `length_toDigits`: how long a number is.
-/
import Mathlib.Algebra.GroupWithZero.Nat
import Mathlib.Data.Nat.Log

namespace Adler.Lib

/-- The numbers in a text behind the digits of `acc`. -/
def numbersFrom : Option Nat → List Char → List Nat
  | acc, [] => acc.toList
  | acc, c :: cs =>
    if c.isDigit then numbersFrom (some (10 * acc.getD 0 + (c.toNat - '0'.toNat))) cs
    else acc.toList ++ numbersFrom none cs

/-- The numbers in a text, its runs of digits. -/
def numbers (cs : List Char) : List Nat := numbersFrom none cs

/-- The decimal digits of a number. -/
def digits (n : Nat) : Nat := Nat.log 10 n + 1

@[simp] theorem numbers_nil : numbers [] = [] := rfl

theorem numbers_cons {c : Char} (hc : c.isDigit = false) (cs : List Char) :
    numbers (c :: cs) = numbers cs := by
  rw [numbers, numbersFrom, hc, if_neg Bool.false_ne_true]
  rfl

theorem numbersFrom_append {ds : List Char} (hds : ∀ c ∈ ds, c.isDigit = true) (cs : List Char)
    (v : Nat) :
    numbersFrom (some v) (ds ++ cs) = numbersFrom (some (Nat.ofDigitChars 10 ds v)) cs := by
  induction ds generalizing v with
  | nil => rw [List.nil_append, Nat.ofDigitChars_nil]
  | cons c ds ih =>
    obtain ⟨hc, hrest⟩ := List.forall_mem_cons.mp hds
    rw [List.cons_append, numbersFrom, if_pos hc, ih hrest, Nat.ofDigitChars_cons]
    rfl

/-- A number in front of a character that is no digit. -/
theorem numbers_toDigits (n : Nat) {c : Char} (hc : c.isDigit = false) (cs : List Char) :
    numbers (Nat.toDigits 10 n ++ c :: cs) = n :: numbers cs := by
  have hdigits : ∀ d ∈ Nat.toDigits 10 n, d.isDigit = true := fun d hd =>
    Nat.isDigit_of_mem_toDigits (by decide) (by decide) hd
  have hvalue : Nat.ofDigitChars 10 (Nat.toDigits 10 n) 0 = n := Nat.ofDigitChars_ten_toDigits
  match hcs : Nat.toDigits 10 n with
  | [] => exact absurd hcs Nat.toDigits_ne_nil
  | d :: ds =>
    rw [hcs] at hdigits hvalue
    obtain ⟨hd, hds⟩ := List.forall_mem_cons.mp hdigits
    rw [Nat.ofDigitChars_cons] at hvalue
    rw [numbers, List.cons_append, numbersFrom, if_pos hd, numbersFrom_append hds, Option.getD_none,
      hvalue, numbersFrom, hc, if_neg Bool.false_ne_true]
    rfl

theorem length_toDigits (n : Nat) : (Nat.toDigits 10 n).length = digits n := by
  apply Nat.le_antisymm
  · exact (Nat.length_toDigits_le_iff (by decide) (Nat.succ_pos _)).mpr
      (Nat.lt_pow_succ_log_self (by decide) n)
  · rcases Nat.eq_zero_or_pos (Nat.log 10 n) with h0 | hpos
    · rw [digits, h0]
      exact Nat.length_toDigits_pos
    · by_contra hlt
      have hle : (Nat.toDigits 10 n).length ≤ Nat.log 10 n := Nat.lt_succ_iff.mp (not_le.mp hlt)
      have hn : n ≠ 0 := by
        rintro rfl
        simp at hpos
      exact absurd ((Nat.length_toDigits_le_iff (by decide) hpos).mp hle)
        (Nat.not_lt.mpr (Nat.pow_log_le_self 10 hn))

/-- A number below a power of ten. -/
theorem digits_le {n k : Nat} (hk : 0 < k) (h : n < 10 ^ k) : digits n ≤ k := by
  rw [← length_toDigits]
  exact (Nat.length_toDigits_le_iff (by decide) hk).mpr h

theorem sum_digits_le {ns : List Nat} {k : Nat} (hk : 0 < k) (h : ∀ n ∈ ns, n < 10 ^ k) :
    (ns.map digits).sum ≤ ns.length * k := by
  induction ns with
  | nil => exact Nat.zero_le _
  | cons n ns ih =>
    obtain ⟨hn, hns⟩ := List.forall_mem_cons.mp h
    rw [List.map_cons, List.sum_cons, List.length_cons, Nat.succ_mul, Nat.add_comm]
    exact Nat.add_le_add (ih hns) (digits_le hk hn)

end Adler.Lib
