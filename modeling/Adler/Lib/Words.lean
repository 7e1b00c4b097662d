/-
  Numbers in a block of bytes, the low byte first, and rows of such numbers. Nothing here names a
  program.

  * `leBytes`, `leNat`: a number written to, and read from, a given number of bytes.
  * `words`: the numbers of one size that stand one behind the other.
  * `words_append`: what was written word by word is read back.
-/
import Mathlib.Data.Nat.Digits.Defs
import Mathlib.Tactic.Common

namespace Adler.Lib

/-- The low `size` bytes of a number. -/
def leBytes : Nat → Nat → List UInt8
  | 0, _ => []
  | size + 1, n => UInt8.ofNat n :: leBytes size (n / 256)

/-- The number in a block of bytes. -/
def leNat (bs : List UInt8) : Nat := Nat.ofDigits 256 (bs.map UInt8.toNat)

/-- The first `k` numbers of `size` bytes each. -/
def words (size : Nat) : Nat → List UInt8 → List Nat
  | 0, _ => []
  | k + 1, bs => leNat (bs.take size) :: words size k (bs.drop size)

@[simp] theorem length_leBytes (size n : Nat) : (leBytes size n).length = size := by
  induction size generalizing n with
  | zero => rfl
  | succ size ih => rw [leBytes, List.length_cons, ih]

theorem leNat_leBytes {size n : Nat} (h : n < 256 ^ size) : leNat (leBytes size n) = n := by
  induction size generalizing n with
  | zero =>
    rw [pow_zero] at h
    rw [Nat.lt_one_iff.mp h]
    rfl
  | succ size ih =>
    have hdiv : n / 256 < 256 ^ size := by
      apply Nat.div_lt_of_lt_mul
      rw [Nat.mul_comm, ← pow_succ]
      exact h
    have hrest := ih hdiv
    unfold leNat at hrest ⊢
    rw [leBytes, List.map_cons, Nat.ofDigits_cons, hrest, UInt8.toNat_ofNat']
    exact Nat.mod_add_div n 256

theorem length_words (size k : Nat) (bs : List UInt8) : (words size k bs).length = k := by
  induction k generalizing bs with
  | zero => rfl
  | succ k ih => rw [words, List.length_cons, ih]

/-- Words that fit their size, written one behind the other. -/
theorem words_append {size : Nat} {ns : List Nat} (h : ∀ n ∈ ns, n < 256 ^ size)
    (rest : List UInt8) : words size ns.length (ns.flatMap (leBytes size) ++ rest) = ns := by
  induction ns with
  | nil => rfl
  | cons n ns ih =>
    obtain ⟨hn, hns⟩ := List.forall_mem_cons.mp h
    have hlen : (leBytes size n).length = size := length_leBytes size n
    rw [List.length_cons, words, List.flatMap_cons, List.append_assoc, List.take_left' hlen,
      List.drop_left' hlen, leNat_leBytes hn, ih hns]

theorem length_flatMap_leBytes (size : Nat) (ns : List Nat) :
    (ns.flatMap (leBytes size)).length = ns.length * size := by
  induction ns with
  | nil => exact (Nat.zero_mul size).symm
  | cons n ns ih =>
    rw [List.flatMap_cons, List.length_append, ih, length_leBytes, List.length_cons, Nat.succ_mul,
      Nat.add_comm]

end Adler.Lib
