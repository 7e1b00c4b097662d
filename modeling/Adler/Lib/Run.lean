/-
  Runs of a labelled transition relation whose steps all meet a condition, with the induction
  rules the safety proofs use. Nothing here names a program.

  * `Reach init step ok`: the states reached by runs from `init` whose steps all satisfy `ok`.
    `ok = fun _ _ => True` (`Always`) is plain reachability.
  * `Reach.invariant`: an invariant of the initial states kept by every allowed step holds of
    every reached state.
  * `Later`: the states a given state can still get to.
  * `observed`: the same relation with a ghost component that a fixed function of the step
    updates, for properties that speak about the past of a run.
  * `Havoc`: the states after a step whose outcome is a partial function: any state at all where
    the function is not defined.
  * `runList`: a deterministic run along a list of labels, the executable way to a reached state
    (`Reach.exists_of_run`).
-/
import Mathlib.Logic.Relation

namespace Adler.Lib

variable {σ α γ : Type*}

/-- The condition that allows every step. -/
def Always (_ : α) (_ : σ) : Prop := True

instance (a : α) (s : σ) : Decidable (Always a s) := .isTrue trivial

/-- The states reached from `init` by steps that all meet `ok`. -/
inductive Reach (init : σ → Prop) (step : α → σ → σ → Prop) (ok : α → σ → Prop) : σ → Prop
  | init {s : σ} : init s → Reach init step ok s
  | step {s s' : σ} {a : α} : Reach init step ok s → ok a s → step a s s' →
      Reach init step ok s'

/-- `s'` comes after `s` in some run whose steps meet `ok`. -/
def Later (step : α → σ → σ → Prop) (ok : α → σ → Prop) : σ → σ → Prop :=
  Relation.ReflTransGen fun s s' => ∃ a, ok a s ∧ step a s s'

section

variable {init : σ → Prop} {step : α → σ → σ → Prop} {ok : α → σ → Prop}

theorem Reach.invariant {I : σ → Prop} (h0 : ∀ s, init s → I s)
    (hstep : ∀ a s s', I s → ok a s → step a s s' → I s') {s : σ}
    (h : Reach init step ok s) : I s := by
  induction h with
  | init hs => exact h0 _ hs
  | step _ hok hst ih => exact hstep _ _ _ ih hok hst

/-- A weaker condition allows more runs. -/
theorem Reach.mono {ok' : α → σ → Prop} (hok : ∀ a s, ok a s → ok' a s) {s : σ}
    (h : Reach init step ok s) : Reach init step ok' s := by
  induction h with
  | init hs => exact .init hs
  | step _ hs hst ih => exact .step ih (hok _ _ hs) hst

theorem Later.mono {ok' : α → σ → Prop} (hok : ∀ a s, ok a s → ok' a s) {s s' : σ}
    (h : Later step ok s s') : Later step ok' s s' := by
  induction h with
  | refl => exact .refl
  | tail _ hst ih =>
    obtain ⟨a, hs, hst⟩ := hst
    exact ih.tail ⟨a, hok _ _ hs, hst⟩

/-- What every allowed step keeps still holds later. -/
theorem Later.invariant {I : σ → Prop}
    (hstep : ∀ a s s', I s → ok a s → step a s s' → I s') {s s' : σ}
    (hl : Later step ok s s') (h : I s) : I s' := by
  induction hl with
  | refl => exact h
  | tail _ hst ih =>
    obtain ⟨a, hok, hs⟩ := hst
    exact hstep _ _ _ ih hok hs

end

/-! ## Ghost observers -/

/-- `step` with a ghost component that `obs` computes from the label and both states. -/
def observed (step : α → σ → σ → Prop) (obs : α → σ → σ → γ → γ) :
    α → σ × γ → σ × γ → Prop :=
  fun a x y => step a x.1 y.1 ∧ y.2 = obs a x.1 y.1 x.2

/-! ## Undefined outcomes -/

/-- The possible states after an operation with outcome `r`: the defined one, or any. -/
def Havoc (r : Option σ) (s' : σ) : Prop := ∀ t, r = some t → s' = t

theorem Havoc.of_eq {r : Option σ} {s : σ} (h : r = some s) : Havoc r s := by
  intro t ht
  rw [h] at ht
  exact Option.some.inj ht

theorem Havoc.of_none {r : Option σ} {s : σ} (h : r = none) : Havoc r s := by
  intro t ht
  rw [h] at ht
  cases ht

/-! ## Deterministic runs -/

/-- The state after the labels of a list, when every step is defined. -/
def runList (next : α → σ → Option σ) : List α → σ → Option σ
  | [], s => some s
  | a :: as, s => (next a s).bind (runList next as)

theorem Reach.runList {init : σ → Prop} {step : α → σ → σ → Prop} {ok : α → σ → Prop}
    {next : α → σ → Option σ} (hn : ∀ a s s', next a s = some s' → ok a s ∧ step a s s') :
    ∀ (as : List α) {s s' : σ}, Reach init step ok s → Lib.runList next as s = some s' →
      Reach init step ok s'
  | [], s, s', h, hr => by
    simp only [Lib.runList, Option.some.injEq] at hr
    exact hr ▸ h
  | a :: as, s, s', h, hr => by
    simp only [Lib.runList, Option.bind_eq_some_iff] at hr
    obtain ⟨t, ht, hrest⟩ := hr
    exact Reach.runList hn as (.step h (hn _ _ _ ht).1 (hn _ _ _ ht).2) hrest

/-- A step function stopped where `ok` fails. -/
def guarded (ok : α → σ → Prop) [∀ a s, Decidable (ok a s)] (next : α → σ → Option σ) (a : α)
    (s : σ) : Option σ :=
  if ok a s then next a s else none

theorem guarded_eq_some {ok : α → σ → Prop} [∀ a s, Decidable (ok a s)] {next : α → σ → Option σ}
    {a : α} {s s' : σ} (h : guarded ok next a s = some s') : ok a s ∧ next a s = some s' := by
  unfold guarded at h
  split at h
  · exact ⟨‹_›, h⟩
  · cases h

/-- A run along `as` that never leaves `ok` and ends in a state with the property `p`. -/
theorem Reach.exists_of_run {init : σ → Prop} {step : α → σ → σ → Prop} (ok : α → σ → Prop)
    [∀ a s, Decidable (ok a s)] {next : α → σ → Option σ}
    (hn : ∀ a s s', next a s = some s' → step a s s') (as : List α) {s₀ : σ} (p : σ → Bool)
    (h0 : init s₀) (hp : (Lib.runList (guarded ok next) as s₀).map p = some true) :
    ∃ s, Reach init step ok s ∧ p s = true := by
  obtain ⟨s, hs, hps⟩ := Option.map_eq_some_iff.mp hp
  refine ⟨s, Reach.runList ?_ as (.init h0) hs, hps⟩
  intro a s s' h
  obtain ⟨hok, hnext⟩ := guarded_eq_some h
  exact ⟨hok, hn a s s' hnext⟩

/-- A step function with a ghost component, for `observed`. -/
def observedNext (next : α → σ → Option σ) (obs : α → σ → σ → γ → γ) (a : α) (x : σ × γ) :
    Option (σ × γ) :=
  (next a x.1).map fun s' => (s', obs a x.1 s' x.2)

theorem observedNext_step {step : α → σ → σ → Prop} {next : α → σ → Option σ}
    {obs : α → σ → σ → γ → γ} (hn : ∀ a s s', next a s = some s' → step a s s') (a : α)
    (x y : σ × γ) (h : observedNext next obs a x = some y) : observed step obs a x y := by
  obtain ⟨s', hs', rfl⟩ := Option.map_eq_some_iff.mp h
  exact ⟨hn a x.1 s' hs', rfl⟩

end Adler.Lib
