/-
  A circular buffer: the `count` cells from `first` on, taken modulo the size, as a list. Nothing
  here names a program.

  * `window_push`: writing the cell behind the window appends.
  * `window_pop`: moving `first` on drops the head.
-/
import Mathlib.Data.Nat.ModEq
import Mathlib.Logic.Function.Basic

namespace Adler.Lib

variable {β : Type*}

/-- The cells `first`, `first + 1`, .. of a buffer of `n`, `count` of them. -/
def window (n : ℕ) (cells : ℕ → β) (first count : ℕ) : List β :=
  (List.range count).map fun i => cells ((first + i) % n)

variable {n first count i : ℕ} {cells : ℕ → β}

@[simp] theorem length_window : (window n cells first count).length = count := by simp [window]

@[simp] theorem window_zero : window n cells first 0 = [] := rfl

/-- Cells of one window lie at different places. -/
theorem slot_ne (hi : i < count) (hc : count < n) : (first + i) % n ≠ (first + count) % n := by
  intro h
  have hmod : i % n = count % n := Nat.ModEq.add_left_cancel' first h
  rw [Nat.mod_eq_of_lt (hi.trans hc), Nat.mod_eq_of_lt hc] at hmod
  exact Nat.ne_of_lt hi hmod

theorem window_push (hc : count < n) (x : β) :
    window n (Function.update cells ((first + count) % n) x) first (count + 1) =
      window n cells first count ++ [x] := by
  simp only [window, List.range_succ, List.map_append, List.map_cons, List.map_nil,
    Function.update_self]
  congr 1
  refine List.map_congr_left fun i hi => ?_
  exact Function.update_of_ne (slot_ne (List.mem_range.mp hi) hc) _ _

theorem window_pop (cells : ℕ → β) (first count : ℕ) :
    window n cells first (count + 1) =
      cells (first % n) :: window n cells ((first + 1) % n) count := by
  simp only [window, List.range_succ_eq_map, List.map_cons, List.map_map, Nat.add_zero]
  congr 1
  refine List.map_congr_left fun i _ => ?_
  simp only [Function.comp, Nat.mod_add_mod]
  congr 2
  omega

end Adler.Lib
