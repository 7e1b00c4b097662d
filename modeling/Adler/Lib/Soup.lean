/-
  Networks of parties over a message soup: every message ever sent stays available, so a run may
  deliver it never, once or many times, in any order and at any later moment. Nothing here names
  a program.

  A party keeps the messages of its latest step in its own state (`sent`). The network appends
  them to the soup together with the sender and the sender's state at that moment (`Sent`), so
  that a property may relate a message in flight to what its sender was when it sent it.

  * `Protocol.Net`, `Protocol.Step`: the global state and its steps.
  * `Protocol.Inv`: a local invariant at every party and a message invariant over the soup.
  * `Protocol.inv_of_reach`: the assume/guarantee rule. When every local step that consumes only
    messages satisfying `M` keeps `I` and sends only messages satisfying `M`, both hold in every
    reached state.
  * `Protocol.Ascending`, `Protocol.count_key_le`: parties that send a message only with a key above
    all their earlier ones; one key is then sent at most once by each of them.
  * `Protocol.next`: the same step as a function of what is scheduled, for concrete runs.
-/
import Adler.Lib.Run
import Mathlib.Data.Fintype.EquivFin
import Mathlib.Logic.Function.Basic
import Mathlib.Data.List.Basic

namespace Adler.Lib

variable {ι σ μ α : Type*}

/-- The local behaviour of the parties `ι` of a network. -/
structure Protocol (ι σ μ α : Type*) where
  /-- The initial states of a party. -/
  init : ι → σ → Prop
  /-- The steps of a party. -/
  step : ι → α → σ → σ → Prop
  /-- The message an action consumes. -/
  input : α → Option μ
  /-- The messages sent by the step that led to a state. -/
  sent : ι → σ → List μ

/-- A message in the soup: who sent it, the state the sending step left, and the message. -/
structure Sent (ι σ μ : Type*) where
  src : ι
  snap : σ
  msg : μ

namespace Protocol

/-- The state of every party and the messages sent so far. -/
structure Net (ι σ μ : Type*) where
  node : ι → σ
  soup : List (Sent ι σ μ)

/-- What a step of party `i` to `s'` adds to the soup. -/
def emit (P : Protocol ι σ μ α) (i : ι) (s' : σ) : List (Sent ι σ μ) :=
  (P.sent i s').map fun m => ⟨i, s', m⟩

def Init (P : Protocol ι σ μ α) (n : Net ι σ μ) : Prop :=
  (∀ i, P.init i (n.node i)) ∧ n.soup = []

/-- A local invariant at every party, a message invariant over the soup. -/
structure Inv (I : ι → σ → Prop) (M : Sent ι σ μ → Prop) (n : Net ι σ μ) : Prop where
  node : ∀ i, I i (n.node i)
  soup : ∀ x ∈ n.soup, M x

variable {P : Protocol ι σ μ α} {I : ι → σ → Prop} {M : Sent ι σ μ → Prop}
  {ok : ι × α → Net ι σ μ → Prop} {okAt : ι → α → σ → Prop}

theorem inv_init (hI : ∀ i s, P.init i s → I i s) {n : Net ι σ μ} (h : P.Init n) : Inv I M n where
  node := fun i => hI i _ (h.1 i)
  soup := by
    intro x hx
    rw [h.2] at hx
    cases hx

/-- A message that is consumed satisfies the message invariant. -/
theorem Inv.consumed {n : Net ι σ μ} (h : Inv I M n) {a : α}
    (hin : ∀ m, P.input a = some m → ∃ x ∈ n.soup, x.msg = m) :
    ∀ m, P.input a = some m → ∃ x, M x ∧ x.msg = m := by
  intro m hm
  obtain ⟨x, hx, hxm⟩ := hin m hm
  exact ⟨x, h.soup x hx, hxm⟩

section

variable [DecidableEq ι]

/-- Party `i` performs `a`; a message it consumes is in the soup and stays there. -/
def Step (P : Protocol ι σ μ α) : ι × α → Net ι σ μ → Net ι σ μ → Prop :=
  fun (i, a) n n' => ∃ s', P.step i a (n.node i) s' ∧
    (∀ m, P.input a = some m → ∃ x ∈ n.soup, x.msg = m) ∧
    n' = ⟨Function.update n.node i s', n.soup ++ P.emit i s'⟩

theorem inv_step (hok : ∀ i a n, ok (i, a) n → okAt i a (n.node i))
    (hstep : ∀ i a s s', I i s → okAt i a s →
      (∀ m, P.input a = some m → ∃ x, M x ∧ x.msg = m) → P.step i a s s' →
      I i s' ∧ ∀ m ∈ P.sent i s', M ⟨i, s', m⟩)
    {n n' : Net ι σ μ} {ia : ι × α} (h : Inv I M n) (hg : ok ia n) (hs : P.Step ia n n') :
    Inv I M n' := by
  obtain ⟨i, a⟩ := ia
  obtain ⟨s', hlocal, hin, rfl⟩ := hs
  obtain ⟨hI', hM'⟩ := hstep i a _ s' (h.node i) (hok i a n hg) (h.consumed hin) hlocal
  refine ⟨?_, ?_⟩
  · intro j
    by_cases hj : j = i
    · subst hj
      simpa using hI'
    · simpa [hj] using h.node j
  · intro x hx
    rcases List.mem_append.mp hx with hx | hx
    · exact h.soup x hx
    · obtain ⟨m, hm, rfl⟩ := List.mem_map.mp hx
      exact hM' m hm

/-- **Assume/guarantee over a message soup.** -/
theorem inv_of_reach (hI : ∀ i s, P.init i s → I i s)
    (hok : ∀ i a n, ok (i, a) n → okAt i a (n.node i))
    (hstep : ∀ i a s s', I i s → okAt i a s →
      (∀ m, P.input a = some m → ∃ x, M x ∧ x.msg = m) → P.step i a s s' →
      I i s' ∧ ∀ m ∈ P.sent i s', M ⟨i, s', m⟩)
    {n : Net ι σ μ} (h : Reach P.Init P.Step ok n) : Inv I M n :=
  h.invariant (fun _ h0 => inv_init hI h0) (fun _ _ _ hinv hg hs => inv_step hok hstep hinv hg hs)

/-! ## Keys sent in increasing order -/

/-- A step sends nothing and keeps the party's `last`, or one message, whose key is above `last` and
    the new `last`. -/
def Ascending (P : Protocol ι σ μ α) (key : μ → Nat) (last : ι → σ → Nat) : Prop :=
  ∀ i a s s', P.step i a s s' → (P.sent i s' = [] ∧ last i s' = last i s) ∨
    ∃ m, P.sent i s' = [m] ∧ last i s < key m ∧ last i s' = key m

variable {key : μ → Nat} {last : ι → σ → Nat}

/-- No party's `last` ever falls. -/
theorem Ascending.last_le (hP : P.Ascending key last) {n n' : Net ι σ μ} {ia : ι × α}
    (hs : P.Step ia n n') (i : ι) : last i (n.node i) ≤ last i (n'.node i) := by
  obtain ⟨j, a⟩ := ia
  obtain ⟨s', hlocal, -, rfl⟩ := hs
  by_cases hij : i = j
  · subst hij
    simp only [Function.update_self]
    obtain ⟨-, hlast⟩ | ⟨m, -, hlt, hlast⟩ := hP i a _ s' hlocal <;> omega
  · simp only [Function.update_of_ne hij, le_refl]

/-- What a step adds to the soup: nothing, or one message above its sender's earlier `last`. -/
theorem Ascending.emits (hP : P.Ascending key last) {n n' : Net ι σ μ} {ia : ι × α}
    (hs : P.Step ia n n') : n'.soup = n.soup ∨
      ∃ x, n'.soup = n.soup ++ [x] ∧ last x.src (n.node x.src) < key x.msg ∧
        last x.src (n'.node x.src) = key x.msg := by
  obtain ⟨i, a⟩ := ia
  obtain ⟨s', hlocal, -, rfl⟩ := hs
  obtain ⟨hsent, -⟩ | ⟨m, hsent, hlt, hlast⟩ := hP i a _ s' hlocal
  · exact .inl (by simp only [emit, hsent, List.map_nil, List.append_nil])
  · refine .inr ⟨⟨i, s', m⟩, by simp only [emit, hsent, List.map_cons, List.map_nil], hlt, ?_⟩
    simp only [Function.update_self, hlast]

/-- No message in the soup is above its sender's `last`. -/
theorem Ascending.key_le (hP : P.Ascending key last) {n : Net ι σ μ}
    (h : Reach P.Init P.Step ok n) : ∀ x ∈ n.soup, key x.msg ≤ last x.src (n.node x.src) := by
  induction h with
  | init h0 =>
    intro x hx
    rw [h0.2] at hx
    cases hx
  | step _ _ hs ih =>
    intro x hx
    obtain hsame | ⟨y, hadd, -, hlast⟩ := hP.emits hs
    · exact (ih x (hsame ▸ hx)).trans (hP.last_le hs x.src)
    · rcases List.mem_append.mp (hadd ▸ hx) with hx | hx
      · exact (ih x hx).trans (hP.last_le hs x.src)
      · rw [List.mem_singleton.mp hx]
        exact hlast.ge

/-- The keys each party sends increase strictly. -/
theorem Ascending.pairwise (hP : P.Ascending key last) {n : Net ι σ μ}
    (h : Reach P.Init P.Step ok n) :
    n.soup.Pairwise fun x y => x.src = y.src → key x.msg < key y.msg := by
  induction h with
  | init h0 =>
    rw [h0.2]
    exact List.Pairwise.nil
  | step hr _ hs ih =>
    obtain hsame | ⟨y, hadd, hlt, -⟩ := hP.emits hs
    · rw [hsame]
      exact ih
    · rw [hadd]
      refine List.pairwise_append.mpr ⟨ih, List.pairwise_singleton _ _, ?_⟩
      intro x hx z hz heq
      rw [List.mem_singleton.mp hz] at heq ⊢
      have hkey := hP.key_le hr x hx
      rw [heq] at hkey
      omega

/-- **One key is sent at most once by each party.** -/
theorem Ascending.count_key_le [Fintype ι] (hP : P.Ascending key last) {n : Net ι σ μ}
    (h : Reach P.Init P.Step ok n) (k : Nat) :
    n.soup.countP (fun x => key x.msg = k) ≤ Fintype.card ι := by
  have hsrc : ((n.soup.filter fun x => key x.msg = k).map Sent.src).Nodup := by
    refine List.pairwise_map.mpr (((hP.pairwise h).filter _).imp_of_mem ?_)
    intro x y hx hy hlt heq
    have hkx := of_decide_eq_true (List.mem_filter.mp hx).2
    have hky := of_decide_eq_true (List.mem_filter.mp hy).2
    exact absurd (hlt heq) (by omega)
  rw [List.countP_eq_length_filter, ← List.length_map (f := Sent.src)]
  exact hsrc.length_le_card

/-! ## Scheduled runs -/

/-- One scheduled step: the local step as a partial function, and the consumed message looked up
    in the soup by `heard`. -/
def next (P : Protocol ι σ μ α) (local_ : ι → α → σ → Option σ)
    (heard : α → List (Sent ι σ μ) → Bool) (ia : ι × α) (n : Net ι σ μ) : Option (Net ι σ μ) :=
  if heard ia.2 n.soup then
    (local_ ia.1 ia.2 (n.node ia.1)).map fun s' =>
      ⟨Function.update n.node ia.1 s', n.soup ++ P.emit ia.1 s'⟩
  else none

theorem next_step {local_ : ι → α → σ → Option σ} {heard : α → List (Sent ι σ μ) → Bool}
    (hl : ∀ i a s s', local_ i a s = some s' → P.step i a s s')
    (hh : ∀ a soup, heard a soup = true → ∀ m, P.input a = some m → ∃ x ∈ soup, x.msg = m)
    {ia : ι × α} {n n' : Net ι σ μ} (h : P.next local_ heard ia n = some n') : P.Step ia n n' := by
  unfold next at h
  split at h
  · rename_i hheard
    obtain ⟨s', hs', rfl⟩ := Option.map_eq_some_iff.mp h
    exact ⟨s', hl _ _ _ _ hs', hh _ _ hheard, rfl⟩
  · cases h

end

end Protocol

end Adler.Lib
