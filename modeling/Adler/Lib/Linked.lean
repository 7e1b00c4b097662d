/-
  Singly linked lists in a heap of cells: the cells that a chain of `next` pointers visits, as a
  list. Nothing here names a program.

  * `Seg next h xs e`: from `h` the pointers visit exactly the cells `xs` and then reach `e`;
    `Chain` is the case where the end is the null pointer.
  * `Chain.nodup`: a chain that ends visits no cell twice.
  * `Seg.congr`: writes to other cells leave a segment alone.
  * `Seg.relink`, `Chain.unlink`, `Chain.splice`: what one pointer write makes of a chain.
-/
import Mathlib.Data.List.Nodup
import Mathlib.Logic.Function.Basic

namespace Adler.Lib

variable {α : Type*}

/-- From `h` the pointers `next` visit the cells of the list in order and then reach `e`. -/
def Seg (next : α → Option α) : Option α → List α → Option α → Prop
  | h, [], e => h = e
  | h, x :: xs, e => h = some x ∧ Seg next (next x) xs e

/-- The cells from `h` to the null pointer. -/
abbrev Chain (next : α → Option α) (h : Option α) (xs : List α) : Prop := Seg next h xs none

variable {next next' : α → Option α} {h e m : Option α} {xs ys : List α} {x y : α}

@[simp] theorem seg_nil : Seg next h [] e ↔ h = e := Iff.rfl

@[simp] theorem seg_cons : Seg next h (x :: xs) e ↔ h = some x ∧ Seg next (next x) xs e := Iff.rfl

theorem seg_append : Seg next h (xs ++ ys) e ↔ ∃ m, Seg next h xs m ∧ Seg next m ys e := by
  induction xs generalizing h with
  | nil => simp
  | cons x xs ih => simp [ih, and_assoc]

theorem seg_concat : Seg next h (xs ++ [x]) e ↔ Seg next h xs (some x) ∧ next x = e := by
  rw [seg_append]
  constructor
  · rintro ⟨m, hxs, rfl, hx⟩
    exact ⟨hxs, hx⟩
  · rintro ⟨hxs, hx⟩
    exact ⟨some x, hxs, rfl, hx⟩

/-- Writes outside the cells of a segment leave it alone. -/
theorem Seg.congr (hs : Seg next h xs e) (hag : ∀ x ∈ xs, next' x = next x) : Seg next' h xs e := by
  induction xs generalizing h with
  | nil => exact hs
  | cons x xs ih =>
    refine ⟨hs.1, ?_⟩
    rw [hag x List.mem_cons_self]
    exact ih hs.2 fun y hy => hag y (List.mem_cons_of_mem _ hy)

theorem Seg.update [DecidableEq α] (hs : Seg next h xs e) (hx : x ∉ xs) :
    Seg (Function.update next x m) h xs e :=
  hs.congr fun _ hy => Function.update_of_ne (ne_of_mem_of_not_mem hy hx) _ _

theorem Chain.head_eq (hs : Chain next h xs) : h = xs.head? := by
  cases xs with
  | nil => exact hs
  | cons x xs => exact hs.1

theorem Chain.eq_nil_iff (hs : Chain next h xs) : h = none ↔ xs = [] := by
  rw [hs.head_eq, List.head?_eq_none_iff]

/-- The pointers determine the cells. -/
theorem Chain.unique (hx : Chain next h xs) (hy : Chain next h ys) : xs = ys := by
  induction xs generalizing h ys with
  | nil =>
    cases ys with
    | nil => rfl
    | cons y ys => exact absurd (hx.symm.trans hy.1) (by simp)
  | cons x xs ih =>
    cases ys with
    | nil => exact absurd (hy.symm.trans hx.1) (by simp)
    | cons y ys =>
      obtain rfl : x = y := Option.some.inj (hx.1.symm.trans hy.1)
      rw [ih hx.2 hy.2]

/-- A chain that ends visits no cell twice: the rest of the chain after both visits would be the
same list. -/
theorem Chain.nodup (hs : Chain next h xs) : xs.Nodup := by
  induction xs generalizing h with
  | nil => exact List.nodup_nil
  | cons x xs ih =>
    refine List.nodup_cons.mpr ⟨fun hmem => ?_, ih hs.2⟩
    obtain ⟨pre, post, rfl⟩ := List.append_of_mem hmem
    obtain ⟨m, -, hm, hpost⟩ := seg_append.mp hs.2
    have hlen := congrArg List.length (Chain.unique hs.2 hpost)
    simp only [List.length_append, List.length_cons] at hlen
    omega

/-- A cell that stands behind another is not the first. -/
theorem Chain.head_ne (hs : Chain next h (xs ++ y :: x :: ys)) : h ≠ some x := by
  intro hx
  rw [hs.head_eq] at hx
  have hnd := hs.nodup
  cases xs with
  | nil =>
    obtain rfl : y = x := by simpa using hx
    simp at hnd
  | cons z xs =>
    obtain rfl : z = x := by simpa using hx
    simp at hnd

/-- The cell after a member of the chain. -/
theorem Chain.next_eq (hs : Chain next h (xs ++ x :: ys)) : next x = ys.head? := by
  obtain ⟨m, -, -, hys⟩ := seg_append.mp hs
  exact Chain.head_eq hys

section

variable [DecidableEq α]

/-- Overwriting the pointer of the last cell of a segment moves its end. -/
theorem Seg.relink (hs : Seg next h (xs ++ [x]) e) (hx : x ∉ xs) :
    Seg (Function.update next x m) h (xs ++ [x]) m :=
  seg_concat.mpr ⟨(seg_concat.mp hs).1.update hx, Function.update_self ..⟩

/-- Taking the first cell off a chain, and clearing its own pointer. -/
theorem Chain.unlink_head (hs : Chain next h (x :: xs)) :
    Chain (Function.update next x none) (next x) xs :=
  hs.2.update (List.nodup_cons.mp (Chain.nodup hs)).1

/-- Pointing `y` past the cell behind it. -/
theorem Chain.skip (hs : Chain next h (xs ++ y :: x :: ys)) :
    Chain (Function.update next y (next x)) h (xs ++ y :: ys) := by
  have hnd := List.nodup_append.mp (Chain.nodup hs)
  have hs' : Seg next h ((xs ++ [y]) ++ x :: ys) none := by simpa using hs
  obtain ⟨m, hpre, -, hys⟩ := seg_append.mp hs'
  have hy : y ∉ xs := fun hmem => hnd.2.2 y hmem y List.mem_cons_self rfl
  have hyys : y ∉ ys := fun hmem =>
    (List.nodup_cons.mp hnd.2.1).1 (List.mem_cons_of_mem _ hmem)
  simpa using seg_append.mpr ⟨next x, hpre.relink hy, Seg.update hys hyys⟩

/-- Taking `x` out behind `y`: `y` is pointed past it, and its own pointer is cleared. -/
theorem Chain.unlink (hs : Chain next h (xs ++ y :: x :: ys)) :
    Chain (Function.update (Function.update next y (next x)) x none) h (xs ++ y :: ys) := by
  have hnd := List.nodup_append.mp (Chain.nodup hs)
  have hyx := List.nodup_cons.mp hnd.2.1
  refine Seg.update hs.skip fun hmem => ?_
  rcases List.mem_append.mp hmem with hmem | hmem
  · exact hnd.2.2 x hmem x (by simp) rfl
  · rcases List.mem_cons.mp hmem with rfl | hmem
    · exact hyx.1 List.mem_cons_self
    · exact (List.nodup_cons.mp hyx.2).1 hmem

/-- Hanging a cell whose own pointer is null behind the last one. -/
theorem Chain.snoc (hs : Chain next h (xs ++ [y])) (hx : x ∉ xs ++ [y]) (hn : next x = none) :
    Chain (Function.update next y (some x)) h (xs ++ [y] ++ [x]) := by
  have hy : y ∉ xs := fun hmem =>
    (List.nodup_append.mp (Chain.nodup hs)).2.2 y hmem y List.mem_cons_self rfl
  have hxy : x ≠ y := fun h => hx (by simp [h])
  refine seg_append.mpr ⟨some x, Seg.relink hs hy, rfl, ?_⟩
  rw [seg_nil, Function.update_of_ne hxy, hn]

/-- Putting a fresh cell `x` in behind `y`. -/
theorem Chain.splice (hs : Chain next h (xs ++ y :: ys)) (hx : x ∉ xs ++ y :: ys) :
    Chain (Function.update (Function.update next x (next y)) y (some x)) h
      (xs ++ y :: x :: ys) := by
  have hnd := List.nodup_append.mp (Chain.nodup hs)
  have hy : y ∉ xs := fun hmem => hnd.2.2 y hmem y List.mem_cons_self rfl
  have hyys : y ∉ ys := (List.nodup_cons.mp hnd.2.1).1
  have hs' : Seg next h ((xs ++ [y]) ++ ys) none := by simpa using hs
  obtain ⟨m, hpre, hys⟩ := seg_append.mp hs'
  have hm : next y = m := (seg_concat.mp hpre).2
  have hxpre : x ∉ xs ++ [y] := fun hmem => hx (by
    rcases List.mem_append.mp hmem with hmem | hmem
    · exact List.mem_append_left _ hmem
    · exact List.mem_append_right _ (by simp [List.mem_singleton.mp hmem]))
  have hxys : x ∉ ys := fun hmem => hx (by simp [hmem])
  have hne : x ≠ y := fun hxy => hx (by simp [hxy])
  have hpre' : Seg (Function.update next x (next y)) h (xs ++ [y]) m := hpre.update hxpre
  have hlink : Seg (Function.update (Function.update next x (next y)) y (some x)) (some x)
      (x :: ys) none := by
    refine ⟨rfl, ?_⟩
    rw [Function.update_of_ne hne, Function.update_self, hm]
    exact (Seg.update hys hxys).update hyys
  have := seg_append.mpr ⟨some x, hpre'.relink hy, hlink⟩
  simpa using this

end

end Adler.Lib
