/-
  One link of a chain of parties that pass a token on, over a channel that may lose messages. Nothing
  here names a program.

  The party before the link has issued a number of tokens, as messages `m` on the channel; the party
  behind it may hold one, and has spent a number of them. `Link` says that no token was spent, held
  or is on its way that was not issued. The lemmas say which moves keep it: a token may be issued,
  lost, taken from the channel in order, forgotten and spent, but never made up.
-/
import Mathlib.Data.List.Count
import Mathlib.Data.Bool.Basic

namespace Adler.Lib

variable {α : Type*} [DecidableEq α]

/-- What was spent, what is on the channel and what is held was issued. -/
structure Link (m : α) (spent : Nat) (chan : List α) (held : Bool) (issued : Nat) : Prop where
  le : spent + chan.count m + held.toNat ≤ issued

namespace Link

variable {m : α} {spent issued : Nat} {chan : List α} {held held' : Bool}

theorem spent_le (h : Link m spent chan held issued) : spent ≤ issued := by
  have := h.le
  omega

/-- A token that is held has not been spent. -/
theorem lt_of_held (h : Link m spent chan true issued) : spent < issued := by
  have := h.le
  simp only [Bool.toNat_true] at this
  omega

/-- A token may be forgotten. -/
theorem keep (h : Link m spent chan held issued) (hh : held' = true → held = true) :
    Link m spent chan held' issued := by
  have hle := h.le
  have hnat : held'.toNat ≤ held.toNat := by
    cases held' with
    | false => simp
    | true => simp [hh rfl]
  exact ⟨by omega⟩

/-- The channel takes messages that are no tokens, and as many tokens as are issued. -/
theorem put (h : Link m spent chan held issued) (msgs : List α) :
    Link m spent (chan ++ msgs) held (issued + msgs.count m) := by
  have hle := h.le
  exact ⟨by rw [List.count_append]; omega⟩

/-- The oldest message is taken; a token may be held then if it was one. -/
theorem take {x : α} {rest : List α} (h : Link m spent (x :: rest) held issued)
    (hh : held' = true → x = m ∨ held = true) : Link m spent rest held' issued := by
  have hle := h.le
  refine ⟨?_⟩
  cases held' with
  | false =>
    have hcount : rest.count m ≤ (x :: rest).count m := List.count_le_count_cons
    simp only [Bool.toNat_false]
    omega
  | true =>
    rcases hh rfl with rfl | rfl
    · rw [List.count_cons_self] at hle
      simp only [Bool.toNat_true]
      omega
    · have hcount : rest.count m ≤ (x :: rest).count m := List.count_le_count_cons
      omega

/-- A message is lost. -/
theorem lose (h : Link m spent chan held issued) (k : Nat) :
    Link m spent (chan.eraseIdx k) held issued := by
  have hle := h.le
  have hcount : (chan.eraseIdx k).count m ≤ chan.count m := (List.eraseIdx_sublist chan k).count_le m
  exact ⟨by omega⟩

/-- The token that is held is spent. -/
theorem spend (h : Link m spent chan true issued) : Link m (spent + 1) chan false issued := by
  have hle := h.le
  simp only [Bool.toNat_true] at hle
  exact ⟨by simp only [Bool.toNat_false]; omega⟩

end Link

end Adler.Lib
