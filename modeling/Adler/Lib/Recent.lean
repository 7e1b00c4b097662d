/-
  A filter that remembers the last entries it has let through and drops what it remembers. Nothing
  here names a program.

  `table_passed`: what it remembers. `passed_window`: with room for `k` entries, none is let through
  again before `k` others were.
-/
import Mathlib.Tactic.Common

namespace Adler.Lib.Recent

variable {κ : Type*} [DecidableEq κ]

/-- The newest entry in front, the oldest one drops out. -/
def remember (seen : List κ) (x : κ) : List κ := x :: seen.dropLast

/-- The entries that are let through. -/
def passed : List κ → List κ → List κ
  | _, [] => []
  | seen, x :: xs => if x ∈ seen then passed seen xs else x :: passed (remember seen x) xs

/-- What is remembered in the end. -/
def table : List κ → List κ → List κ
  | seen, [] => seen
  | seen, x :: xs => if x ∈ seen then table seen xs else table (remember seen x) xs

omit [DecidableEq κ] in
theorem length_remember {seen : List κ} (h : seen ≠ []) (x : κ) :
    (remember seen x).length = seen.length := by
  have hpos := List.length_pos_iff.mpr h
  rw [remember, List.length_cons, List.length_dropLast]
  omega

omit [DecidableEq κ] in
theorem remember_eq_take {seen : List κ} (h : seen ≠ []) (x : κ) :
    remember seen x = (x :: seen).take seen.length := by
  have hpos := List.length_pos_iff.mpr h
  rw [remember, List.dropLast_eq_take]
  conv_rhs => rw [show seen.length = seen.length - 1 + 1 by omega, List.take_succ_cons]

omit [DecidableEq κ] in
theorem remember_ne_nil (seen : List κ) (x : κ) : remember seen x ≠ [] := List.cons_ne_nil x _

theorem table_passed {seen : List κ} (h : seen ≠ []) (xs : List κ) :
    table seen xs = ((passed seen xs).reverse ++ seen).take seen.length := by
  induction xs generalizing seen with
  | nil => simp [table, passed]
  | cons x xs ih =>
    rw [table, passed]
    split
    · exact ih h
    · rw [ih (remember_ne_nil seen x), length_remember h, remember_eq_take h, List.reverse_cons,
        List.append_assoc, List.singleton_append, List.take_append, List.take_append, List.take_take,
        Nat.min_eq_left (Nat.sub_le ..)]

/-- An entry `m` places down in the table is still there for the next `k - m` entries. -/
theorem not_mem_passed {seen : List κ} {m : ℕ} {x : κ} (hx : seen[m]? = some x) (xs : List κ) :
    x ∉ (passed seen xs).take (seen.length - m) := by
  induction xs generalizing seen m with
  | nil => simp [passed]
  | cons y ys ih =>
    rw [passed]
    split
    · exact ih hx
    · rename_i hy
      have hm : m < seen.length := (List.getElem?_eq_some_iff.mp hx).1
      have hxy : x ≠ y := fun h => hy (h ▸ List.mem_of_getElem? hx)
      have hne : seen ≠ [] := List.ne_nil_of_mem (List.mem_of_getElem? hx)
      rw [show seen.length - m = seen.length - (m + 1) + 1 by omega, List.take_succ_cons,
        List.mem_cons, not_or]
      refine ⟨hxy, ?_⟩
      by_cases hlast : m + 1 < seen.length
      · have hnext : (remember seen y)[m + 1]? = some x := by
          rw [remember, List.getElem?_cons_succ, List.getElem?_dropLast, if_pos (by omega), hx]
        have := ih hnext
        rwa [length_remember hne] at this
      · rw [show seen.length - (m + 1) = 0 by omega, List.take_zero]
        exact List.not_mem_nil

/-- What was let through is not let through again before as many others as there is room for. -/
theorem passed_window {seen : List κ} (h : seen ≠ []) (xs : List κ) {pre post : List κ} {x : κ}
    (hp : passed seen xs = pre ++ x :: post) : x ∉ post.take seen.length := by
  induction xs generalizing seen pre with
  | nil => simp [passed] at hp
  | cons y ys ih =>
    rw [passed] at hp
    split at hp
    · exact ih h hp
    · cases pre with
      | nil =>
        obtain ⟨rfl, rfl⟩ := List.cons.inj hp
        have := not_mem_passed (show (remember seen y)[0]? = some y from rfl) ys
        rwa [length_remember h, Nat.sub_zero] at this
      | cons z pre =>
        obtain ⟨-, hp⟩ := List.cons.inj hp
        have := ih (remember_ne_nil seen y) hp
        rwa [length_remember h] at this

end Adler.Lib.Recent
