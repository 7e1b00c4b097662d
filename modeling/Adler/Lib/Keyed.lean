/-
  Lists whose items have different keys, and are looked up, replaced and removed by their keys.

  `At` is where an item is; each of the operations is a rule about it.
-/
import Mathlib.Data.List.Nodup

namespace Adler.Lib.Keyed

variable {α κ : Type*} [DecidableEq κ]

/-- The item `x` is behind `pre` and before `post`, none of which has its key. -/
structure At (key : α → κ) (xs pre : List α) (x : α) (post : List α) : Prop where
  eq : xs = pre ++ x :: post
  pre : ∀ y ∈ pre, key y ≠ key x
  post : ∀ y ∈ post, key y ≠ key x

variable {key : α → κ} {xs pre post : List α} {x : α}

omit [DecidableEq κ] in
theorem at_of_mem (h : (xs.map key).Nodup) (hx : x ∈ xs) : ∃ pre post, At key xs pre x post := by
  obtain ⟨pre, post, rfl⟩ := List.append_of_mem hx
  rw [List.map_append, List.map_cons, List.nodup_append] at h
  obtain ⟨-, hpost, hdisj⟩ := h
  refine ⟨pre, post, rfl, fun y hy => ?_, fun y hy he => ?_⟩
  · exact hdisj _ (List.mem_map_of_mem hy) _ (List.mem_cons_self ..)
  · exact (List.nodup_cons.mp hpost).1 (he ▸ List.mem_map_of_mem hy)

omit [DecidableEq κ] in
theorem mem_middle {y : α} (x : α) (h : y ∈ pre ++ post) : y ∈ pre ++ x :: post := by
  rcases List.mem_append.mp h with h | h
  · exact List.mem_append_left _ h
  · exact List.mem_append_right _ (List.mem_cons_of_mem _ h)

omit [DecidableEq κ] in
theorem At.mem (h : At key xs pre x post) {y : α} (hy : y ∈ pre ++ post) : y ∈ xs :=
  h.eq ▸ mem_middle x hy

omit [DecidableEq κ] in
theorem At.ne (h : At key xs pre x post) {y : α} (hy : y ∈ pre ++ post) : key y ≠ key x := by
  rcases List.mem_append.mp hy with hy | hy
  · exact h.pre y hy
  · exact h.post y hy

omit [DecidableEq κ] in
/-- Every other item is around it. -/
theorem At.mem_of_ne (h : At key xs pre x post) {y : α} (hy : y ∈ xs) (hne : y ≠ x) :
    y ∈ pre ++ post := by
  rw [h.eq] at hy
  rcases List.mem_append.mp hy with hy | hy
  · exact List.mem_append_left _ hy
  · exact List.mem_append_right _ ((List.mem_cons.mp hy).resolve_left hne)

theorem find_eq_none (k : κ) (h : ∀ y ∈ xs, key y ≠ k) : (xs.find? fun y => key y = k) = none :=
  List.find?_eq_none.mpr fun y hy => by simpa using h y hy

/-- The item is found under its key. -/
theorem At.find (h : At key xs pre x post) : (xs.find? fun y => key y = key x) = some x := by
  rw [h.eq, List.find?_append, find_eq_none _ h.pre, Option.none_or, List.find?_cons_of_pos (by simp)]

theorem map_if_of_ne (g : α → α) {k : κ} (h : ∀ y ∈ xs, key y ≠ k) :
    (xs.map fun y => if key y = k then g y else y) = xs := by
  refine (List.map_congr_left fun y hy => ?_).trans (List.map_id xs)
  exact if_neg (h y hy)

omit [DecidableEq κ] in
/-- What a change leaves as it is. -/
theorem map_map_if {β : Type*} (g : α → β) (f : α → α) (hg : ∀ y, g (f y) = g y) (P : α → Prop)
    [DecidablePred P] (xs : List α) : (xs.map fun y => if P y then f y else y).map g = xs.map g := by
  rw [List.map_map]
  refine List.map_congr_left fun y _ => ?_
  show g (if P y then f y else y) = g y
  split
  · exact hg y
  · rfl

/-- The item is changed under its key. -/
theorem At.map (h : At key xs pre x post) (g : α → α) :
    (xs.map fun y => if key y = key x then g y else y) = pre ++ g x :: post := by
  rw [h.eq, List.map_append, List.map_cons, map_if_of_ne g h.pre, map_if_of_ne g h.post, if_pos rfl]

theorem filter_of_ne {k : κ} (h : ∀ y ∈ xs, key y ≠ k) : xs.filter (key · ≠ k) = xs :=
  List.filter_eq_self.mpr fun y hy => by simpa using h y hy

/-- The item is removed under its key. -/
theorem At.filter (h : At key xs pre x post) : xs.filter (key · ≠ key x) = pre ++ post := by
  rw [h.eq, List.filter_append, List.filter_cons_of_neg (by simp), filter_of_ne h.pre,
    filter_of_ne h.post]

end Adler.Lib.Keyed
