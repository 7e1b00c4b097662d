/-
  A loop that goes through keys and keeps a value: wherever the key is below the value kept so far, it
  keeps the value of that place instead. Nothing here names a program.

  * `keepBelow_self_iff`: where the values are the keys it keeps the lowest.
  * `keepBelow_iff`: where they are not, it keeps the value of the last place that counts. A place counts
    when its key is below the value of the place that counted before it.
-/
import Mathlib.Order.Lattice
import Mathlib.Order.Monotone.Defs
import Mathlib.Tactic.Common

namespace Adler.Lib

variable {α β : Type*}

section

variable [LT α] [DecidableLT α] (key value : Nat → α) (x : α)

/-- What the loop keeps after `n` places, having begun with `x`. -/
def keepBelow : Nat → α
  | 0 => x
  | n + 1 => if key n < keepBelow n then value n else keepBelow n

/-- None of the keys from `lo` up to, not including, `hi` is below `y`. -/
def NoneBelow (y : α) (lo hi : Nat) : Prop := ∀ i, lo ≤ i → i < hi → ¬ key i < y

/-- The places at which the loop changes the value it keeps. -/
inductive Counts : Nat → Prop
  | first {k : Nat} : NoneBelow key x 0 k → key k < x → Counts k
  | next {i k : Nat} : Counts i → i < k → NoneBelow key (value i) (i + 1) k → key k < value i →
      Counts k

/-- Place `k` is the last of the first `n` that counts. -/
structure LastCount (n k : Nat) : Prop where
  lt : k < n
  counts : Counts key value x k
  rest : NoneBelow key (value k) (k + 1) n

end

section

variable [LT α] {key value : Nat → α} {x y : α} {lo hi k n : Nat}

theorem NoneBelow.mono (h : NoneBelow key y lo hi) (hk : k ≤ hi) : NoneBelow key y lo k :=
  fun i hlo hi => h i hlo (Nat.lt_of_lt_of_le hi hk)

theorem NoneBelow.succ (h : NoneBelow key y lo hi) (hkey : ¬ key hi < y) :
    NoneBelow key y lo (hi + 1) := by
  intro i hlo hi'
  rcases Nat.lt_succ_iff_lt_or_eq.mp hi' with hlt | rfl
  · exact h i hlo hlt
  · exact hkey

variable [DecidableLT α]

/-- Places without a key below leave the value alone. -/
theorem keepBelow_of_noneBelow (hle : lo ≤ hi) (hkept : keepBelow key value x lo = y)
    (h : NoneBelow key y lo hi) : keepBelow key value x hi = y := by
  induction hi, hle using Nat.le_induction with
  | base => exact hkept
  | succ n hn ih =>
    have hsame := ih (h.mono (Nat.le_succ n))
    rw [keepBelow, hsame, if_neg (h n hn (Nat.lt_succ_self n))]

/-- A place that counts has just had its value taken. -/
theorem Counts.keepBelow (h : Counts key value x k) : keepBelow key value x (k + 1) = value k := by
  induction h with
  | first hnone hkey =>
    have hx : Lib.keepBelow key value x _ = x := keepBelow_of_noneBelow (Nat.zero_le _) rfl hnone
    rw [Lib.keepBelow, hx, if_pos hkey]
  | next _ hlt hnone hkey ih =>
    have hi := keepBelow_of_noneBelow hlt ih hnone
    rw [Lib.keepBelow, hi, if_pos hkey]

theorem LastCount.keepBelow (h : LastCount key value x n k) : keepBelow key value x n = value k :=
  keepBelow_of_noneBelow h.lt h.counts.keepBelow h.rest

/-- Either no place counts, or one is the last. -/
theorem noneBelow_or_lastCount (key value : Nat → α) (x : α) (n : Nat) :
    NoneBelow key x 0 n ∨ ∃ k, LastCount key value x n k := by
  induction n with
  | zero => exact .inl fun i _ hi => absurd hi (Nat.not_lt_zero i)
  | succ n ih =>
    rcases ih with hnone | ⟨k, hlast⟩
    · by_cases hkey : key n < x
      · exact .inr ⟨n, Nat.lt_succ_self n, .first hnone hkey,
          fun i hlo hi => absurd hlo (Nat.not_le_of_lt hi)⟩
      · exact .inl (hnone.succ hkey)
    · right
      by_cases hkey : key n < value k
      · exact ⟨n, Nat.lt_succ_self n, .next hlast.counts hlast.lt hlast.rest hkey,
          fun i hlo hi => absurd hlo (Nat.not_le_of_lt hi)⟩
      · exact ⟨k, Nat.lt_succ_of_lt hlast.lt, hlast.counts, hlast.rest.succ hkey⟩

/-- What the loop keeps in the end. -/
theorem keepBelow_iff (p : α → Prop) : p (keepBelow key value x n) ↔
    NoneBelow key x 0 n ∧ p x ∨ ∃ k, LastCount key value x n k ∧ p (value k) := by
  constructor
  · intro hp
    rcases noneBelow_or_lastCount key value x n with hnone | ⟨k, hlast⟩
    · rw [keepBelow_of_noneBelow (Nat.zero_le n) rfl hnone] at hp
      exact .inl ⟨hnone, hp⟩
    · rw [hlast.keepBelow] at hp
      exact .inr ⟨k, hlast, hp⟩
  · rintro (⟨hnone, hp⟩ | ⟨k, hlast, hp⟩)
    · rw [keepBelow_of_noneBelow (Nat.zero_le n) rfl hnone]
      exact hp
    · rw [hlast.keepBelow]
      exact hp

/-- The loop on the images of keys and values under a map that keeps the order. -/
theorem keepBelow_map [LT β] [DecidableLT β] (g : α → β) (hg : ∀ a b, g a < g b ↔ a < b)
    (key value : Nat → α) (x : α) (n : Nat) :
    keepBelow (fun i => g (key i)) (fun i => g (value i)) (g x) n =
      g (keepBelow key value x n) := by
  induction n with
  | zero => rfl
  | succ n ih => simp only [keepBelow, ih, hg, apply_ite g]

end

/-- Something that holds of a value when it holds of a higher one holds of the lowest if of any. -/
theorem keepBelow_self_iff [LinearOrder α] {key : Nat → α} {x : α} {p : α → Prop} (hp : Antitone p)
    (n : Nat) : p (keepBelow key key x n) ↔ p x ∨ ∃ i < n, p (key i) := by
  induction n with
  | zero => simp [keepBelow]
  | succ n ih =>
    have hnext : p (keepBelow key key x (n + 1)) ↔ p (keepBelow key key x n) ∨ p (key n) := by
      rw [keepBelow]
      split
      · rename_i hlt
        exact ⟨.inr, fun h => h.elim (hp hlt.le) id⟩
      · rename_i hle
        exact ⟨.inl, fun h => h.elim id (hp (not_lt.mp hle))⟩
    rw [hnext, ih, or_assoc, Nat.exists_lt_succ_right]

end Adler.Lib
