/-
  Byte memories and tables as functions of the index, with the copy and loop operations C code
  performs on them. Nothing here names a program.

  * `Mem.read`, `Mem.copy`: a block of bytes read from, and copied to, an address.
  * `foldl_update`: a loop that rewrites one entry of a table per iteration leaves entry `i`
    rewritten exactly when the loop visits `i`.
  * `firstFailing`: the index at which a bounded upward scan stops.
-/
import Mathlib.Logic.Function.Basic
import Mathlib.Data.List.Nodup
import Mathlib.Tactic.Common

namespace Adler.Lib

/-- A byte-addressed memory region. -/
abbrev Mem := Nat → UInt8

namespace Mem

/-- The `n` bytes from address `off` on. -/
def read (m : Mem) (off n : Nat) : List UInt8 := (List.range n).map fun i => m (off + i)

/-- `memcpy(m + off, src, n)` for the bytes of `src`. -/
def copy (m : Mem) (off : Nat) (src : List UInt8) : Mem := fun i =>
  if off ≤ i ∧ i < off + src.length then src.getD (i - off) 0 else m i

@[simp] theorem length_read (m : Mem) (off n : Nat) : (read m off n).length = n := by
  simp [read]

theorem getD_read (m : Mem) (off n i : Nat) (hi : i < n) : (read m off n).getD i 0 = m (off + i) := by
  simp [read, List.getD_eq_getElem?_getD, hi]

theorem read_congr {m m' : Mem} {off n : Nat} (h : ∀ i, i < n → m (off + i) = m' (off + i)) :
    read m off n = read m' off n := by
  apply List.map_congr_left
  intro i hi
  exact h i (List.mem_range.mp hi)

theorem read_eq_iff (m m' : Mem) (off off' n : Nat) :
    read m off n = read m' off' n ↔ ∀ i, i < n → m (off + i) = m' (off' + i) := by
  simp [read]

/-- A block within a block. -/
theorem slice_read (m : Mem) (off n i l : Nat) (h : i + l ≤ n) :
    ((read m off n).drop i).take l = read m (off + i) l := by
  apply List.ext_getElem
  · simp only [List.length_take, List.length_drop, length_read]
    omega
  · intro j h1 h2
    simp [read, Nat.add_assoc]

theorem copy_of_mem (m : Mem) (off : Nat) (src : List UInt8) {i : Nat} (h1 : off ≤ i)
    (h2 : i < off + src.length) : copy m off src i = src.getD (i - off) 0 := by
  simp [copy, h1, h2]

theorem copy_of_not_mem (m : Mem) (off : Nat) (src : List UInt8) {i : Nat}
    (h : i < off ∨ off + src.length ≤ i) : copy m off src i = m i := by
  have : ¬ (off ≤ i ∧ i < off + src.length) := by omega
  simp only [copy, if_neg this]

/-- Reading back what was copied. -/
theorem read_copy_self (m : Mem) (off : Nat) (src : List UInt8) :
    read (copy m off src) off src.length = src := by
  apply List.ext_getElem (by simp)
  intro i h1 h2
  have hi : off + i < off + src.length := by omega
  simp only [read, List.getElem_map, List.getElem_range]
  rw [copy_of_mem m off src (by omega) hi, Nat.add_sub_cancel_left, List.getD_eq_getElem?_getD,
    List.getElem?_eq_getElem h2, Option.getD_some]

theorem copy_nil (m : Mem) (off : Nat) : copy m off [] = m := by
  funext i
  exact copy_of_not_mem m off [] (by simp only [List.length_nil]; omega)

/-- A copy byte by byte. -/
theorem copy_cons (m : Mem) (off : Nat) (c : UInt8) (cs : List UInt8) :
    copy m off (c :: cs) = copy (Function.update m off c) (off + 1) cs := by
  funext i
  rcases Nat.lt_trichotomy i off with h | rfl | h
  · rw [copy_of_not_mem m off _ (.inl h), copy_of_not_mem _ _ _ (.inl (by omega)),
      Function.update_of_ne (by omega)]
  · rw [copy_of_mem m i _ (Nat.le_refl i) (by simp), copy_of_not_mem _ _ _ (.inl (by omega)),
      Function.update_self]
    simp
  · by_cases hi : i < off + 1 + cs.length
    · obtain ⟨k, rfl⟩ : ∃ k, i = off + (k + 1) := ⟨i - off - 1, by omega⟩
      have hk : off + (k + 1) - (off + 1) = k := by omega
      rw [copy_of_mem m off _ (by omega) (by rw [List.length_cons]; omega),
        copy_of_mem _ _ _ (by omega) hi, Nat.add_sub_cancel_left, List.getD_cons_succ, hk]
    · rw [copy_of_not_mem m off _ (.inr (by rw [List.length_cons]; omega)),
        copy_of_not_mem _ _ _ (.inr (by omega)), Function.update_of_ne (by omega)]

theorem read_succ (m : Mem) (off n : Nat) : read m off (n + 1) = read m off n ++ [m (off + n)] := by
  simp [read, List.range_succ]

theorem read_add (m : Mem) (off a b : Nat) :
    read m off (a + b) = read m off a ++ read m (off + a) b := by
  simp [read, List.range_add, Nat.add_assoc]

/-- A write behind a block does not touch it. -/
theorem read_update (m : Mem) (off n : Nat) {i : Nat} (c : UInt8) (h : off + n ≤ i) :
    read (Function.update m i c) off n = read m off n :=
  read_congr fun j hj => Function.update_of_ne (by omega) _ _

/-- A copy does not touch a block that ends before it or starts after it. -/
theorem read_copy_disjoint (m : Mem) (off : Nat) (src : List UInt8) (a n : Nat)
    (h : a + n ≤ off ∨ off + src.length ≤ a) : read (copy m off src) a n = read m a n :=
  read_congr fun i hi => copy_of_not_mem m off src (by omega)

/-- The memory has these bytes from `off` on. -/
def Holds (m : Mem) (off : Nat) (bytes : List UInt8) : Prop := read m off bytes.length = bytes

theorem holds_nil (m : Mem) (off : Nat) : m.Holds off [] := rfl

theorem holds_append {m : Mem} {off : Nat} {a b : List UInt8} :
    m.Holds off (a ++ b) ↔ m.Holds off a ∧ m.Holds (off + a.length) b := by
  rw [Holds, Holds, Holds, List.length_append, read_add]
  constructor
  · exact fun h => List.append_inj h (length_read ..)
  · rintro ⟨ha, hb⟩
    rw [ha, hb]

theorem holds_cons {m : Mem} {off : Nat} {b : UInt8} {bs : List UInt8} :
    m.Holds off (b :: bs) ↔ m off = b ∧ m.Holds (off + 1) bs := by
  rw [← List.singleton_append, holds_append]
  simp [Holds, read]

theorem Holds.get {m : Mem} {off : Nat} {bytes : List UInt8} (h : m.Holds off bytes) {i : Nat}
    (hi : i < bytes.length) : m (off + i) = bytes[i] := by
  have hget := getD_read m off bytes.length i hi
  rw [h] at hget
  simpa [List.getD_eq_getElem?_getD, hi] using hget.symm

/-- `for(i = i; i < i + n; i++) m[i] = m[d + i]`, which may overlap. -/
def shiftDown (d : Nat) : Nat → Nat → Mem → Mem
  | 0, _, m => m
  | n + 1, i, m => shiftDown d n (i + 1) (Function.update m i (m (d + i)))

/-- Going up, every byte is read before it is written over. -/
theorem shiftDown_apply (d n i : Nat) (m : Mem) (j : Nat) :
    shiftDown d n i m j = if i ≤ j ∧ j < i + n then m (d + j) else m j := by
  induction n generalizing i m with
  | zero => rw [shiftDown, if_neg (by omega)]
  | succ n ih =>
    rw [shiftDown, ih]
    by_cases hij : j = i
    · subst hij
      rw [if_neg (by omega), if_pos (by omega), Function.update_self]
    · rw [Function.update_of_ne hij]
      by_cases hin : i + 1 ≤ j ∧ j < i + 1 + n
      · rw [if_pos hin, if_pos (by omega), Function.update_of_ne (by omega)]
      · rw [if_neg hin, if_neg (by omega)]

theorem read_shiftDown (d n i : Nat) (m : Mem) : read (shiftDown d n i m) i n = read m (d + i) n := by
  rw [read_eq_iff]
  intro j hj
  rw [shiftDown_apply, if_pos (by omega), Nat.add_assoc]

/-- A block below the one that is moved stays. -/
theorem read_shiftDown_below (d n i : Nat) (m : Mem) {a l : Nat} (h : a + l ≤ i) :
    read (shiftDown d n i m) a l = read m a l :=
  read_congr fun j hj => by rw [shiftDown_apply, if_neg (by omega)]

theorem holds_copy (m : Mem) (off : Nat) (src : List UInt8) : (copy m off src).Holds off src :=
  read_copy_self m off src

end Mem

/-! ## Loops over a table -/

/-- A loop `for (i in l) t[i] = f(i, t[i])` over distinct indices. -/
theorem foldl_update {β : Type*} (f : Nat → β → β) :
    ∀ (l : List Nat) (t : Nat → β), l.Nodup →
      l.foldl (fun t i => Function.update t i (f i (t i))) t =
        fun i => if i ∈ l then f i (t i) else t i
  | [], t, _ => by simp
  | a :: l, t, hnd => by
    obtain ⟨ha, hl⟩ := List.nodup_cons.mp hnd
    rw [List.foldl_cons, foldl_update f l _ hl]
    funext i
    by_cases hia : i = a
    · subst hia
      simp [ha]
    · simp [hia]

/-- A loop `for (i = 0; i < n; i++) t[p + i] = f(i)`. -/
theorem foldl_range_update {β : Type*} (f : Nat → β) (p n : Nat) (t : Nat → β) :
    (List.range n).foldl (fun t i => Function.update t (p + i) (f i)) t =
      fun k => if p ≤ k ∧ k < p + n then f (k - p) else t k := by
  induction n with
  | zero =>
    funext k
    rw [if_neg (by omega)]
    rfl
  | succ n ih =>
    rw [List.range_succ, List.foldl_append, ih, List.foldl_cons, List.foldl_nil]
    funext k
    by_cases hk : k = p + n
    · subst hk
      rw [Function.update_self, if_pos (by omega), Nat.add_sub_cancel_left]
    · rw [Function.update_of_ne hk]
      by_cases hin : p ≤ k ∧ k < p + n
      · rw [if_pos hin, if_pos (by omega)]
      · rw [if_neg hin, if_neg (by omega)]

/-- Where `for (i = 0; i < n; i++) if (!p(i)) break;` stops. -/
def firstFailing (p : Nat → Bool) : Nat → Nat
  | 0 => 0
  | n + 1 => if p 0 then firstFailing (fun i => p (i + 1)) n + 1 else 0

theorem firstFailing_le : ∀ (p : Nat → Bool) (n : Nat), firstFailing p n ≤ n
  | _, 0 => Nat.le_refl 0
  | p, n + 1 => by
    unfold firstFailing
    split
    · exact Nat.succ_le_succ (firstFailing_le _ n)
    · exact Nat.zero_le _

theorem firstFailing_below : ∀ (p : Nat → Bool) (n i : Nat), i < firstFailing p n → p i = true
  | _, 0, i, h => absurd h (Nat.not_lt_zero i)
  | p, n + 1, i, h => by
    unfold firstFailing at h
    split at h
    · rename_i h0
      cases i with
      | zero => exact h0
      | succ i => exact firstFailing_below (fun i => p (i + 1)) n i (by omega)
    · omega

theorem firstFailing_at : ∀ (p : Nat → Bool) (n : Nat), firstFailing p n < n →
    p (firstFailing p n) = false
  | _, 0, h => absurd h (Nat.not_lt_zero _)
  | p, n + 1, h => by
    unfold firstFailing at h ⊢
    by_cases h0 : p 0 = true
    · rw [if_pos h0] at h ⊢
      exact firstFailing_at (fun i => p (i + 1)) n (by omega)
    · rw [if_neg h0]
      simpa using h0

/-- The scan stops at `k` when everything below `k` passes and `k` is the end or fails. -/
theorem firstFailing_eq {p : Nat → Bool} {n k : Nat} (hk : k ≤ n) (hb : ∀ i, i < k → p i = true)
    (hat : k < n → p k = false) : firstFailing p n = k := by
  rcases Nat.lt_trichotomy (firstFailing p n) k with h | h | h
  · have h1 := firstFailing_at p n (by omega)
    rw [hb _ h] at h1
    cases h1
  · exact h
  · have h1 := firstFailing_below p n k h
    rw [hat (by have := firstFailing_le p n; omega)] at h1
    cases h1

/-- The scan runs through exactly when every entry passes. -/
theorem firstFailing_eq_iff {p : Nat → Bool} {n : Nat} :
    firstFailing p n = n ↔ ∀ i, i < n → p i = true := by
  constructor
  · intro h i hi
    exact firstFailing_below p n i (by omega)
  · intro h
    exact firstFailing_eq (Nat.le_refl n) h (fun hn => absurd hn (Nat.lt_irrefl n))

end Adler.Lib
