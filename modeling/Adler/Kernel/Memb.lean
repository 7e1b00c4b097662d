/-
  The block allocator (`core/lib/memb.c`): a fixed number of blocks with a count for each.

  `memb_run`: over any run in which only blocks that were handed out are freed, no block is handed out
  while somebody has it, and there is no block only when all are handed out.
-/
import Mathlib.Data.List.GetD
import Mathlib.Data.List.Perm.Subperm
import Mathlib.Data.Int.Notation

namespace Adler.Kernel

/-- `struct memb`: the counts of its blocks. -/
abbrev Memb := List ℕ

/-- `memb_init` of `num` blocks. -/
def membInit (num : ℕ) : Memb := List.replicate num 0

/-- `memb_alloc`: the block, and the counts. -/
def membAlloc : Memb → Option (ℕ × Memb)
  | [] => none
  | c :: m =>
    if c = 0 then some (0, (c + 1) :: m)
    else
      match membAlloc m with
      | none => none
      | some (i, m) => some (i + 1, c :: m)

/-- `memb_free`: the count that is left, or -1 when `ptr` is none of the blocks. -/
def membFree : Memb → ℕ → ℤ × Memb
  | [], _ => (-1, [])
  | c :: m, 0 => if 0 < c then (((c - 1 : ℕ) : ℤ), (c - 1) :: m) else (c, c :: m)
  | c :: m, ptr + 1 => ((membFree m ptr).1, c :: (membFree m ptr).2)

theorem membAlloc_none {m : Memb} (h : membAlloc m = none) {i : ℕ} (hi : i < m.length) :
    m.getD i 0 ≠ 0 := by
  induction m generalizing i with
  | nil => exact absurd hi (Nat.not_lt_zero i)
  | cons c m ih =>
    unfold membAlloc at h
    split at h
    · cases h
    · rename_i hc
      split at h
      · rename_i hnone
        cases i with
        | zero => exact hc
        | succ i => exact ih hnone (Nat.lt_of_succ_lt_succ hi)
      · cases h

theorem membAlloc_some {m m' : Memb} {i : ℕ} (h : membAlloc m = some (i, m')) :
    i < m.length ∧ m.getD i 0 = 0 ∧ m' = m.set i 1 := by
  induction m generalizing i m' with
  | nil => cases h
  | cons c m ih =>
    unfold membAlloc at h
    split at h
    · rename_i hc
      obtain ⟨rfl, rfl⟩ := Prod.mk.inj (Option.some.inj h)
      exact ⟨Nat.succ_pos _, hc, by rw [hc]; rfl⟩
    · split at h
      · cases h
      · rename_i hsome
        obtain ⟨rfl, rfl⟩ := Prod.mk.inj (Option.some.inj h)
        obtain ⟨hlt, hzero, rfl⟩ := ih hsome
        exact ⟨Nat.succ_lt_succ hlt, hzero, rfl⟩

theorem membFree_eq (m : Memb) {ptr : ℕ} (h : ptr < m.length) :
    membFree m ptr = (((m.getD ptr 0 - 1 : ℕ) : ℤ), m.set ptr (m.getD ptr 0 - 1)) := by
  induction m generalizing ptr with
  | nil => exact absurd h (Nat.not_lt_zero ptr)
  | cons c m ih =>
    cases ptr with
    | zero =>
      unfold membFree
      split
      · rfl
      · rename_i hc
        obtain rfl : c = 0 := by omega
        rfl
    | succ ptr =>
      rw [membFree, ih (Nat.lt_of_succ_lt_succ h)]
      rfl

/-- The blocks that are handed out. -/
def Memb.Holds (m : Memb) (used : List ℕ) : Prop :=
  used.Nodup ∧ ∀ i, m.getD i 0 = if i ∈ used then 1 else 0

theorem Memb.Holds.lt {m : Memb} {used : List ℕ} (h : m.Holds used) {i : ℕ} (hi : i ∈ used) :
    i < m.length := by
  by_contra hge
  have := h.2 i
  rw [if_pos hi, List.getD_eq_default _ _ (Nat.not_lt.mp hge)] at this
  exact Nat.zero_ne_one this

theorem Memb.Holds.perm {m : Memb} {used used' : List ℕ} (h : m.Holds used) (hp : used.Perm used') :
    m.Holds used' :=
  ⟨hp.nodup_iff.mp h.1, fun i => by rw [h.2 i]; simp only [hp.mem_iff]⟩

theorem holds_init (num : ℕ) : (membInit num).Holds [] := by
  refine ⟨List.nodup_nil, fun i => ?_⟩
  rw [membInit, if_neg List.not_mem_nil]
  rcases Nat.lt_or_ge i num with h | h
  · rw [List.getD_replicate _ h]
  · exact List.getD_eq_default _ _ (by rwa [List.length_replicate])

theorem getD_set (m : Memb) {i : ℕ} (hi : i < m.length) (c j : ℕ) :
    (m.set i c).getD j 0 = if j = i then c else m.getD j 0 := by
  rw [List.getD_eq_getElem?_getD, List.getElem?_set]
  by_cases hj : j = i
  · rw [if_pos hj.symm, if_pos hj, if_pos hi]
    rfl
  · rw [if_neg fun h => hj h.symm, if_neg hj, List.getD_eq_getElem?_getD]

/-- A block that nobody has, unless all are handed out. -/
theorem alloc_holds {m : Memb} {used : List ℕ} (h : m.Holds used) :
    membAlloc m = none ∧ used.length = m.length ∨
      ∃ i m', membAlloc m = some (i, m') ∧ i ∉ used ∧ m'.length = m.length ∧ m'.Holds (i :: used) := by
  cases halloc : membAlloc m with
  | none =>
    refine .inl ⟨rfl, ?_⟩
    have hall : ∀ i ∈ List.range m.length, i ∈ used := fun i hi => by
      have hne := membAlloc_none halloc (List.mem_range.mp hi)
      rw [h.2 i] at hne
      by_contra hi
      exact hne (if_neg hi)
    have hsub : ∀ i ∈ used, i ∈ List.range m.length := fun i hi => List.mem_range.mpr (h.lt hi)
    have h1 := (List.subperm_of_subset List.nodup_range hall).length_le
    have h2 := (List.subperm_of_subset h.1 hsub).length_le
    rw [List.length_range] at h1 h2
    exact Nat.le_antisymm h2 h1
  | some x =>
    obtain ⟨i, m'⟩ := x
    obtain ⟨hlt, hzero, rfl⟩ := membAlloc_some halloc
    have hnew : i ∉ used := fun hi => by
      rw [h.2 i, if_pos hi] at hzero
      exact Nat.one_ne_zero hzero
    refine .inr ⟨i, _, rfl, hnew, List.length_set, List.nodup_cons.mpr ⟨hnew, h.1⟩, fun j => ?_⟩
    rw [getD_set m hlt, h.2 j]
    by_cases hj : j = i
    · rw [if_pos hj, if_pos (hj ▸ List.mem_cons_self ..)]
    · rw [if_neg hj]
      simp only [List.mem_cons, hj, false_or]

/-- A block that is given back. -/
theorem free_holds {m : Memb} {i : ℕ} {used : List ℕ} (h : m.Holds (i :: used)) :
    (membFree m i).1 = 0 ∧ (membFree m i).2.length = m.length ∧ (membFree m i).2.Holds used := by
  have hlt := h.lt (List.mem_cons_self ..)
  have hone : m.getD i 0 = 1 := by rw [h.2 i, if_pos (List.mem_cons_self ..)]
  obtain ⟨hnew, hnodup⟩ := List.nodup_cons.mp h.1
  rw [membFree_eq m hlt, hone]
  refine ⟨rfl, List.length_set, hnodup, fun j => ?_⟩
  rw [getD_set m hlt, h.2 j]
  by_cases hj : j = i
  · rw [if_pos hj, if_neg (hj ▸ hnew)]
  · rw [if_neg hj]
    simp only [List.mem_cons, hj, false_or]

/-! ## Runs -/

inductive MembOp
  | alloc
  | free (ptr : ℕ)

/-- A call, and what it returns. -/
def membStep (m : Memb) : MembOp → Option ℕ × Memb
  | .alloc =>
    match membAlloc m with
    | none => (none, m)
    | some (i, m) => (some i, m)
  | .free ptr => (none, (membFree m ptr).2)

/-- What the caller has afterwards. -/
def MembOp.owned (used : List ℕ) (ret : Option ℕ) : MembOp → List ℕ
  | .alloc => ret.toList ++ used
  | .free ptr => used.erase ptr

/-- The counts, and the blocks the caller has, after a run. -/
def membRun (m : Memb) (used : List ℕ) : List MembOp → Memb × List ℕ
  | [] => (m, used)
  | op :: ops => membRun (membStep m op).2 (op.owned used (membStep m op).1) ops

/-- Only blocks that the caller has are freed. -/
def MembAllowed (m : Memb) (used : List ℕ) : List MembOp → Prop
  | [] => True
  | op :: ops =>
    (∀ ptr, op = .free ptr → ptr ∈ used) ∧
      MembAllowed (membStep m op).2 (op.owned used (membStep m op).1) ops

theorem membStep_holds {m : Memb} {used : List ℕ} (h : m.Holds used) {op : MembOp}
    (hop : ∀ ptr, op = .free ptr → ptr ∈ used) :
    (membStep m op).2.Holds (op.owned used (membStep m op).1) ∧
      (membStep m op).2.length = m.length := by
  cases op with
  | alloc =>
    rcases alloc_holds h with ⟨hnone, -⟩ | ⟨i, m', hsome, -, hlen, hholds⟩
    · rw [membStep, hnone]
      exact ⟨h, rfl⟩
    · rw [membStep, hsome]
      exact ⟨hholds, hlen⟩
  | free ptr =>
    have hmem := hop ptr rfl
    obtain ⟨-, hlen, hholds⟩ := free_holds (h.perm (List.perm_cons_erase hmem))
    exact ⟨hholds, hlen⟩

/-- Over any run the blocks that are handed out are different and in the memory, the next call hands out
one that nobody has, and it fails exactly when all of them are handed out. -/
theorem memb_run (num : ℕ) {ops : List MembOp} (hops : MembAllowed (membInit num) [] ops) :
    (membRun (membInit num) [] ops).2.Nodup ∧
      (∀ i ∈ (membRun (membInit num) [] ops).2, i < num) ∧
      (∀ i m', membAlloc (membRun (membInit num) [] ops).1 = some (i, m') →
        i < num ∧ i ∉ (membRun (membInit num) [] ops).2) ∧
      (membAlloc (membRun (membInit num) [] ops).1 = none ↔
        (membRun (membInit num) [] ops).2.length = num) := by
  suffices hinv : ∀ m used, m.Holds used → m.length = num → MembAllowed m used ops →
      (membRun m used ops).1.Holds (membRun m used ops).2 ∧ (membRun m used ops).1.length = num by
    obtain ⟨hholds, hlen⟩ := hinv _ _ (holds_init num) (List.length_replicate ..) hops
    refine ⟨hholds.1, fun i hi => hlen ▸ hholds.lt hi, fun i m' hi => ?_, ?_⟩
    · obtain ⟨hlt, hzero, -⟩ := membAlloc_some hi
      refine ⟨hlen ▸ hlt, fun hmem => ?_⟩
      rw [hholds.2 i, if_pos hmem] at hzero
      exact Nat.one_ne_zero hzero
    · rcases alloc_holds hholds with ⟨hnone, hall⟩ | ⟨i, m', hsome, hnew, -, hholds'⟩
      · exact iff_of_true hnone (hall.trans hlen)
      · refine iff_of_false (by rw [hsome]; exact Option.some_ne_none _) fun hall => ?_
        have hsub : ∀ j ∈ i :: (membRun (membInit num) [] ops).2, j ∈ List.range num := fun j hj => by
          rcases List.mem_cons.mp hj with rfl | hj
          · exact List.mem_range.mpr (hlen ▸ (membAlloc_some hsome).1)
          · exact List.mem_range.mpr (hlen ▸ hholds.lt hj)
        have hle := (List.subperm_of_subset hholds'.1 hsub).length_le
        rw [List.length_range, List.length_cons, hall] at hle
        exact absurd hle (Nat.not_succ_le_self num)
  clear hops
  induction ops with
  | nil => exact fun _ _ h hlen _ => ⟨h, hlen⟩
  | cons op ops ih =>
    intro m used h hlen hops
    obtain ⟨hholds, hlen'⟩ := membStep_holds h hops.1
    exact ih _ _ hholds (hlen'.trans hlen) hops.2

theorem memb_run_reuse :
    MembAllowed (membInit 2) [] [.alloc, .alloc, .free 0, .alloc] ∧
      membAlloc (membRun (membInit 2) [] [.alloc, .alloc, .free 0, .alloc]).1 = none := by
  have hops : MembAllowed (membInit 2) [] [.alloc, .alloc, .free 0, .alloc] :=
    ⟨fun _ h => (by cases h), fun _ h => (by cases h), fun _ h => (by cases h; decide),
      fun _ h => (by cases h), trivial⟩
  exact ⟨hops, (memb_run 2 hops).2.2.2.mpr (by decide)⟩

end Adler.Kernel
