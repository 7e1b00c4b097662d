/-
  Machines that read a list of inputs one after the other. A step may put out results, and it may be
  undefined. Nothing here names a program.

  * `Machine`, `Machine.feed`: a step, and the run over a list with what it puts out.
  * `Machine.All`: every step of a run meets a condition on its input and the state it starts from.
  * `Machine.feed_total`: where the allowed steps are defined and keep an invariant, so does the run.
  * `Machine.feed_invariant`, `Machine.feed_mem`: what every step keeps, and what a run puts out.
  * `Machine.feed_reaches`: a measure that every step lowers bounds the way to a goal.
  * `Machine.exists_of_not_all`: the first step of a run that breaks a condition.
-/
import Mathlib.Data.List.Basic

namespace Adler.Lib

variable {α σ β : Type*}

/-- A step: the input and the state, the new state and what is put out. -/
abbrev Machine (α σ β : Type*) := α → σ → Option (σ × List β)

namespace Machine

variable {m : Machine α σ β} {I : σ → Prop} {ok : α → σ → Prop}

/-- The run over a list of inputs. -/
def feed (m : Machine α σ β) : List α → σ → Option (σ × List β)
  | [], s => some (s, [])
  | a :: as, s => (m a s).bind fun r => (feed m as r.1).map fun r' => (r'.1, r.2 ++ r'.2)

/-- Every step of the run over the list meets `ok`. -/
def All (m : Machine α σ β) (ok : α → σ → Prop) : List α → σ → Prop
  | [], _ => True
  | a :: as, s => ok a s ∧ match m a s with
    | some r => All m ok as r.1
    | none => True

instance All.instDecidable [∀ a s, Decidable (ok a s)] :
    ∀ (as : List α) (s : σ), Decidable (All m ok as s)
  | [], _ => .isTrue trivial
  | a :: as, s =>
    have : Decidable (match m a s with | some r => All m ok as r.1 | none => True) :=
      match m a s with
      | some r => All.instDecidable as r.1
      | none => .isTrue trivial
    inferInstanceAs (Decidable (_ ∧ _))

theorem All.tail {a : α} {as : List α} {s s' : σ} {out : List β} (h : m.All ok (a :: as) s)
    (hstep : m a s = some (s', out)) : m.All ok as s' := by
  have hrest := h.2
  rw [hstep] at hrest
  exact hrest

@[simp] theorem feed_nil (s : σ) : m.feed [] s = some (s, []) := rfl

theorem feed_cons {a : α} {as : List α} {s s' : σ} {out : List β} (h : m a s = some (s', out)) :
    m.feed (a :: as) s = (m.feed as s').map fun r => (r.1, out ++ r.2) := by
  simp only [feed, h, Option.bind_some]

/-- A step that puts out nothing. -/
theorem feed_cons_nil {a : α} {as : List α} {s s' : σ} (h : m a s = some (s', [])) :
    m.feed (a :: as) s = m.feed as s' := by
  rw [feed_cons h]
  simp

/-- The first step of a defined run. -/
theorem exists_of_feed_cons {a : α} {as : List α} {s s' : σ} {out : List β}
    (h : m.feed (a :: as) s = some (s', out)) :
    ∃ t out₁ out₂, m a s = some (t, out₁) ∧ m.feed as t = some (s', out₂) ∧ out = out₁ ++ out₂ := by
  simp only [feed, Option.bind_eq_some_iff, Option.map_eq_some_iff] at h
  obtain ⟨⟨t, out₁⟩, ha, ⟨u, out₂⟩, has, heq⟩ := h
  cases heq
  exact ⟨t, out₁, out₂, ha, has, rfl⟩

theorem feed_append {as bs : List α} {s s' : σ} {out : List β} (h : m.feed as s = some (s', out)) :
    m.feed (as ++ bs) s = (m.feed bs s').map fun r => (r.1, out ++ r.2) := by
  induction as generalizing s out with
  | nil =>
    cases h
    simp
  | cons a as ih =>
    obtain ⟨t, out₁, out₂, ha, has, rfl⟩ := exists_of_feed_cons h
    rw [List.cons_append, feed_cons ha, ih has, Option.map_map]
    simp [Function.comp_def]

theorem exists_of_feed_append {as bs : List α} {s s' : σ} {out : List β}
    (h : m.feed (as ++ bs) s = some (s', out)) :
    ∃ t out₁ out₂, m.feed as s = some (t, out₁) ∧ m.feed bs t = some (s', out₂) ∧
      out = out₁ ++ out₂ := by
  induction as generalizing s out with
  | nil => exact ⟨s, [], out, rfl, h, rfl⟩
  | cons a as ih =>
    obtain ⟨t, out₁, out₂, ha, hrest, rfl⟩ := exists_of_feed_cons h
    obtain ⟨u, o₁, o₂, has, hbs, rfl⟩ := ih hrest
    refine ⟨u, out₁ ++ o₁, o₂, ?_, hbs, (List.append_assoc _ _ _).symm⟩
    rw [feed_cons ha, has]
    rfl

theorem feed_invariant
    (hstep : ∀ {a s s' out}, I s → m a s = some (s', out) → I s') {as : List α} {s s' : σ}
    {out : List β} (h : I s) (hfeed : m.feed as s = some (s', out)) : I s' := by
  induction as generalizing s out with
  | nil =>
    cases hfeed
    exact h
  | cons a as ih =>
    obtain ⟨t, out₁, out₂, ha, has, -⟩ := exists_of_feed_cons hfeed
    exact ih (hstep h ha) has

/-- What a run puts out was put out by one of its steps. -/
theorem feed_mem {as : List α} {s s' : σ} {out : List β} {b : β}
    (hfeed : m.feed as s = some (s', out)) (hb : b ∈ out) :
    ∃ as₁ a as₂ t out₁ u out₂, as = as₁ ++ a :: as₂ ∧ m.feed as₁ s = some (t, out₁) ∧
      m a t = some (u, out₂) ∧ b ∈ out₂ := by
  induction as generalizing s out with
  | nil =>
    cases hfeed
    exact absurd hb List.not_mem_nil
  | cons a as ih =>
    obtain ⟨t, out₁, out₂, ha, has, rfl⟩ := exists_of_feed_cons hfeed
    rcases List.mem_append.mp hb with hb | hb
    · exact ⟨[], a, as, s, [], t, out₁, rfl, rfl, ha, hb⟩
    · obtain ⟨as₁, c, as₂, u, o₁, v, o₂, rfl, hu, hv, hbv⟩ := ih has hb
      refine ⟨a :: as₁, c, as₂, u, out₁ ++ o₁, v, o₂, rfl, ?_, hv, hbv⟩
      rw [feed_cons ha, hu]
      rfl

theorem feed_total (hstep : ∀ a s, I s → ok a s → ∃ s' out, m a s = some (s', out) ∧ I s')
    {as : List α} {s : σ} (h : I s) (hok : m.All ok as s) :
    ∃ s' out, m.feed as s = some (s', out) ∧ I s' := by
  induction as generalizing s with
  | nil => exact ⟨s, [], rfl, h⟩
  | cons a as ih =>
    obtain ⟨t, out₁, ha, ht⟩ := hstep a s h hok.1
    obtain ⟨u, out₂, has, hu⟩ := ih ht (hok.tail ha)
    refine ⟨u, out₁ ++ out₂, ?_, hu⟩
    rw [feed_cons ha, has]
    rfl

/-- A run gets to `goal` within `left s` steps when each step from another state leaves fewer. -/
theorem feed_reaches (goal : σ → Prop) (left : σ → Nat) (hgoal : ∀ s, I s → left s = 0 → goal s)
    (hstep : ∀ a s, I s → ok a s → ¬ goal s →
      ∃ s' out, m a s = some (s', out) ∧ I s' ∧ left s' < left s)
    {as : List α} {s : σ} (h : I s) (hok : m.All ok as s) (hlen : left s ≤ as.length) :
    ∃ k, k ≤ left s ∧ ∃ s' out, m.feed (as.take k) s = some (s', out) ∧ goal s' := by
  induction as generalizing s with
  | nil =>
    have hz : left s = 0 := by simpa using hlen
    exact ⟨0, Nat.zero_le _, s, [], rfl, hgoal s h hz⟩
  | cons a as ih =>
    by_cases hg : goal s
    · exact ⟨0, Nat.zero_le _, s, [], rfl, hg⟩
    obtain ⟨t, out₁, ha, ht, hlt⟩ := hstep a s h hok.1 hg
    have hlen' : left t ≤ as.length := by
      rw [List.length_cons] at hlen
      omega
    obtain ⟨k, hk, u, out₂, hu, hgu⟩ := ih ht (hok.tail ha) hlen'
    refine ⟨k + 1, by omega, u, out₁ ++ out₂, ?_, hgu⟩
    rw [List.take_succ_cons, feed_cons ha, hu]
    rfl

/-- Where a run first breaks the condition. -/
theorem exists_of_not_all {as : List α} {s : σ} (h : ¬ m.All ok as s) :
    ∃ as₁ a as₂, as = as₁ ++ a :: as₂ ∧ m.All ok as₁ s ∧
      ∃ s' out, m.feed as₁ s = some (s', out) ∧ ¬ ok a s' := by
  induction as generalizing s with
  | nil => exact absurd trivial h
  | cons a as ih =>
    by_cases hok : ok a s
    · match ha : m a s with
      | none =>
        refine absurd ⟨hok, ?_⟩ h
        rw [ha]
        trivial
      | some (t, out₁) =>
        have ht : ¬ m.All ok as t := by
          intro hall
          refine h ⟨hok, ?_⟩
          rw [ha]
          exact hall
        obtain ⟨as₁, b, as₂, rfl, hall, u, out₂, hu, hbad⟩ := ih ht
        refine ⟨a :: as₁, b, as₂, rfl, ⟨hok, ?_⟩, u, out₁ ++ out₂, ?_, hbad⟩
        · rw [ha]
          exact hall
        · rw [feed_cons ha, hu]
          rfl
    · exact ⟨[], a, as, rfl, trivial, s, [], rfl, hok⟩

end Machine

end Adler.Lib
