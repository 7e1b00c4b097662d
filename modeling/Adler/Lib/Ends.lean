/-
  Programs over a state that may fail to return, and what holds when they do return: `Ends x s Q`
  says that `x` returns from `s`, with a result and a state that satisfy `Q`. The rules follow the
  construction of the program. Nothing here names a program.

  * `Ends.ret`, `Ends.seq`, `Ends.load`, `Ends.update`: a result, a sequence, a read and a change of
    the state.
  * `Ends.mono`: what holds may be weakened.
  * `Ends.seq_eq`: a first part whose outcome is known.
-/
import Mathlib.Tactic.Common

namespace Adler.Lib

variable {σ α β : Type}

/-- A program that may read and change the state, and may not return. -/
abbrev Prog (σ : Type) := StateT σ Option

/-- `x` returns from `s`, and `Q` holds then. -/
def Ends (x : Prog σ α) (s : σ) (Q : α → σ → Prop) : Prop :=
  ∃ a s', x s = some (a, s') ∧ Q a s'

namespace Ends

variable {x : Prog σ α} {f : α → Prog σ β} {s : σ} {Q R : α → σ → Prop} {T : β → σ → Prop}

theorem ret {a : α} (h : Q a s) : Ends (pure a : Prog σ α) s Q := ⟨a, s, rfl, h⟩

theorem mono (h : Ends x s Q) (hQ : ∀ a s', Q a s' → R a s') : Ends x s R := by
  obtain ⟨a, s', heq, hq⟩ := h
  exact ⟨a, s', heq, hQ a s' hq⟩

theorem seq (h : Ends x s Q) (hf : ∀ a s', Q a s' → Ends (f a) s' T) : Ends (x >>= f) s T := by
  obtain ⟨a, s', heq, hq⟩ := h
  obtain ⟨b, s'', heq', ht⟩ := hf a s' hq
  refine ⟨b, s'', ?_, ht⟩
  show (x s).bind (fun p => f p.1 p.2) = _
  rw [heq]
  exact heq'

theorem seq_eq {a : α} {s' : σ} (h : x s = some (a, s')) (hf : Ends (f a) s' T) :
    Ends (x >>= f) s T := by
  refine seq (Q := fun b t => b = a ∧ t = s') ⟨a, s', h, rfl, rfl⟩ ?_
  rintro _ _ ⟨rfl, rfl⟩
  exact hf

theorem load {f : σ → Prog σ β} (h : Ends (f s) s T) : Ends (get >>= f) s T := seq_eq rfl h

theorem update {g : σ → σ} {f : PUnit → Prog σ β} (h : Ends (f ⟨⟩) (g s) T) :
    Ends (modify g >>= f) s T := seq_eq rfl h

/-- A partial function that is defined. -/
theorem lift {o : Option α} {a : α} {f : α → Prog σ β} (h : o = some a) (hf : Ends (f a) s T) :
    Ends (liftM o >>= f) s T := by
  subst h
  exact seq_eq rfl hf

theorem update_last {g : σ → σ} {Q : PUnit → σ → Prop} (h : Q ⟨⟩ (g s)) :
    Ends (modify g : Prog σ PUnit) s Q := ⟨⟨⟩, g s, rfl, h⟩

end Ends

end Adler.Lib
