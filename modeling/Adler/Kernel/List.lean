/-
  The list library (`core/lib/list.c`): singly linked lists threaded through the first word of
  their items.

  A `Lists` is the memory the library works on: the list variables (`head`) and the `next` word
  of every item. The loops of the source walk that memory, so they take fuel.

  * `exec_refines`: on lists that are chains and share no item, each operation does to the memory
    what `Op.apply` does to plain lists, and returns the same.
  * `run_refines`: so does every sequence of operations that meets `Op.Ok`, from empty lists; no
    list ever holds an item twice, and no loop runs longer than there were operations.
-/
import Adler.Lib.Linked

namespace Adler.Kernel

open Lib

variable {ι α : Type*}

/-- The list variables and the `next` words of the items. -/
structure Lists (ι α : Type*) where
  head : ι → Option α
  next : α → Option α

namespace Lists

def setHead [DecidableEq ι] (s : Lists ι α) (l : ι) (p : Option α) : Lists ι α :=
  { s with head := Function.update s.head l p }

def setNext [DecidableEq α] (s : Lists ι α) (x : α) (p : Option α) : Lists ι α :=
  { s with next := Function.update s.next x p }

@[simp] theorem setHead_head [DecidableEq ι] (s : Lists ι α) (l : ι) (p : Option α) :
    (s.setHead l p).head = Function.update s.head l p := rfl

@[simp] theorem setHead_next [DecidableEq ι] (s : Lists ι α) (l : ι) (p : Option α) :
    (s.setHead l p).next = s.next := rfl

@[simp] theorem setNext_head [DecidableEq α] (s : Lists ι α) (x : α) (p : Option α) :
    (s.setNext x p).head = s.head := rfl

@[simp] theorem setNext_next [DecidableEq α] (s : Lists ι α) (x : α) (p : Option α) :
    (s.setNext x p).next = Function.update s.next x p := rfl

end Lists

/-! ## The functions of list.c -/

section

variable [DecidableEq ι] [DecidableEq α]

def listInit (s : Lists ι α) (list : ι) : Lists ι α := s.setHead list none

def listHead (s : Lists ι α) (list : ι) : Option α := s.head list

/-- `for(l = *list; l->next != NULL; l = l->next);` -/
def tailLoop (s : Lists ι α) : ℕ → α → Option α
  | 0, _ => none
  | fuel + 1, l =>
    match s.next l with
    | none => some l
    | some m => tailLoop s fuel m

def listTail (fuel : ℕ) (s : Lists ι α) (list : ι) : Option (Option α) :=
  match s.head list with
  | none => some none
  | some l => (tailLoop s fuel l).map some

/-- The loop of `listRemove`: `r` is the item before `l`. -/
def removeLoop (s : Lists ι α) (list : ι) (item : α) : ℕ → Option α → Option α → Option (Lists ι α)
  | 0, _, _ => none
  | _ + 1, _, none => some s
  | fuel + 1, r, some l =>
    if l = item then
      match r with
      | none => some ((s.setHead list (s.next l)).setNext l none)
      | some r => some ((s.setNext r (s.next l)).setNext l none)
    else removeLoop s list item fuel (some l) (s.next l)

def listRemove (fuel : ℕ) (s : Lists ι α) (list : ι) (item : α) : Option (Lists ι α) :=
  removeLoop s list item fuel none (s.head list)

def listAdd (fuel : ℕ) (s : Lists ι α) (list : ι) (item : α) : Option (Lists ι α) :=
  -- not the same element twice
  (listRemove fuel s list item).bind fun s =>
    let s := s.setNext item none
    (listTail fuel s list).map fun
      | none => s.setHead list (some item)
      | some l => s.setNext l (some item)

def listPush (fuel : ℕ) (s : Lists ι α) (list : ι) (item : α) : Option (Lists ι α) :=
  (listRemove fuel s list item).map fun s =>
    (s.setNext item (s.head list)).setHead list (some item)

/-- `for(l = *list; l->next->next != NULL; l = l->next);`: the last two items. -/
def chopLoop (s : Lists ι α) : ℕ → α → Option (α × α)
  | 0, _ => none
  | fuel + 1, l =>
    match s.next l with
    | none => none
    | some m =>
      match s.next m with
      | none => some (l, m)
      | some _ => chopLoop s fuel m

def listChop (fuel : ℕ) (s : Lists ι α) (list : ι) : Option (Lists ι α × Option α) :=
  match s.head list with
  | none => some (s, none)
  | some c =>
    match s.next c with
    | none => some (s.setHead list none, some c)
    | some _ => (chopLoop s fuel c).map fun lr => (s.setNext lr.1 none, some lr.2)

def listPop (s : Lists ι α) (list : ι) : Lists ι α × Option α :=
  match s.head list with
  | none => (s, none)
  | some l => (s.setHead list (s.next l), some l)

def lengthLoop (s : Lists ι α) : ℕ → Option α → Option ℕ
  | 0, _ => none
  | _ + 1, none => some 0
  | fuel + 1, some l => (lengthLoop s fuel (s.next l)).map (· + 1)

def listLength (fuel : ℕ) (s : Lists ι α) (list : ι) : Option ℕ :=
  lengthLoop s fuel (s.head list)

def listInsert (fuel : ℕ) (s : Lists ι α) (list : ι) (previtem : Option α) (newitem : α) :
    Option (Lists ι α) :=
  match previtem with
  | none => listPush fuel s list newitem
  | some previtem =>
    -- unlike the other two ways in, no check that `newitem` is on the list already
    let s := s.setNext newitem (s.next previtem)
    some (s.setNext previtem (some newitem))

def listItemNext (s : Lists ι α) (item : Option α) : Option α :=
  match item with
  | none => none
  | some item => s.next item

/-! ## Operations -/

inductive Op (ι α : Type*)
  | init (list : ι)
  | head (list : ι)
  | tail (list : ι)
  | add (list : ι) (item : α)
  | push (list : ι) (item : α)
  | chop (list : ι)
  | pop (list : ι)
  | remove (list : ι) (item : α)
  | length (list : ι)
  | insert (list : ι) (previtem : Option α) (newitem : α)
  | itemNext (list : ι) (item : α)

/-- What an operation returns. -/
inductive Ret (α : Type*)
  | void
  | item (p : Option α)
  | int (n : ℕ)
  deriving DecidableEq

/-- An operation on the memory; nothing when a loop runs out of fuel. -/
def exec (fuel : ℕ) (s : Lists ι α) : Op ι α → Option (Lists ι α × Ret α)
  | .init l => some (listInit s l, .void)
  | .head l => some (s, .item (listHead s l))
  | .tail l => (listTail fuel s l).map fun p => (s, .item p)
  | .add l x => (listAdd fuel s l x).map fun s => (s, .void)
  | .push l x => (listPush fuel s l x).map fun s => (s, .void)
  | .chop l => (listChop fuel s l).map fun r => (r.1, .item r.2)
  | .pop l => some ((listPop s l).1, .item (listPop s l).2)
  | .remove l x => (listRemove fuel s l x).map fun s => (s, .void)
  | .length l => (listLength fuel s l).map fun n => (s, .int n)
  | .insert l p x => (listInsert fuel s l p x).map fun s => (s, .void)
  | .itemNext _ x => some (s, .item (listItemNext s (some x)))

def run (fuel : ℕ) : Lists ι α → List (Op ι α) → Option (Lists ι α × List (Ret α))
  | s, [] => some (s, [])
  | s, op :: ops => do
    let (s, r) ← exec fuel s op
    let (s, rs) ← run fuel s ops
    some (s, r :: rs)

/-! ## The same on plain lists -/

/-- `xs` with `x` put in behind `p`. -/
def insertAfter (p x : α) : List α → List α
  | [] => []
  | y :: ys => if y = p then y :: x :: ys else y :: insertAfter p x ys

/-- The item behind `x`. -/
def itemAfter (x : α) : List α → Option α
  | [] => none
  | y :: ys => if y = x then ys.head? else itemAfter x ys

namespace Op

/-- The contents after an operation, and what it returns. -/
def apply (a : ι → List α) : Op ι α → (ι → List α) × Ret α
  | init l => (Function.update a l [], .void)
  | head l => (a, .item (a l).head?)
  | tail l => (a, .item (a l).getLast?)
  | add l x => (Function.update a l ((a l).erase x ++ [x]), .void)
  | push l x => (Function.update a l (x :: (a l).erase x), .void)
  | chop l => (Function.update a l (a l).dropLast, .item (a l).getLast?)
  | pop l => (Function.update a l (a l).tail, .item (a l).head?)
  | remove l x => (Function.update a l ((a l).erase x), .void)
  | length l => (a, .int (a l).length)
  | insert l none x => (Function.update a l (x :: (a l).erase x), .void)
  | insert l (some p) x => (Function.update a l (insertAfter p x (a l)), .void)
  | itemNext l x => (a, .item (itemAfter x (a l)))

/-- What the callers see to: an item goes on one list at a time, and the item to insert behind is
on the list while the new one is on none. -/
def Ok (a : ι → List α) : Op ι α → Prop
  | add l x | push l x | insert l none x => ∀ k, x ∈ a k → k = l
  | insert l (some p) x => p ∈ a l ∧ ∀ k, x ∉ a k
  | itemNext l x => x ∈ a l
  | _ => True

end Op

/-- Every operation of the list meets `Op.Ok` when its turn comes. -/
def RunOk : (ι → List α) → List (Op ι α) → Prop
  | _, [] => True
  | a, op :: ops => op.Ok a ∧ RunOk (op.apply a).1 ops

def specRun : (ι → List α) → List (Op ι α) → (ι → List α) × List (Ret α)
  | a, [] => (a, [])
  | a, op :: ops =>
    ((specRun (op.apply a).1 ops).1, (op.apply a).2 :: (specRun (op.apply a).1 ops).2)

end

/-- The memory holds the lists `a`: each is a chain, and no item is on two of them. -/
structure Holds (s : Lists ι α) (a : ι → List α) : Prop where
  chain : ∀ l, Chain s.next (s.head l) (a l)
  apart : ∀ l k x, x ∈ a l → x ∈ a k → l = k

theorem Holds.nodup {s : Lists ι α} {a : ι → List α} (h : Holds s a) (l : ι) : (a l).Nodup :=
  Chain.nodup (h.chain l)

/-! ## One lemma for each function -/

section

variable {s s' : Lists ι α} {a : ι → List α} {l : ι} {x : α} {xs ys : List α} {fuel : ℕ}

theorem tailLoop_eq {p : α} (hs : Chain s.next (some p) (p :: xs)) (hf : xs.length < fuel) :
    tailLoop s fuel p = (p :: xs).getLast? := by
  induction xs generalizing p fuel with
  | nil =>
    obtain ⟨fuel, rfl⟩ := Nat.exists_eq_succ_of_ne_zero (Nat.ne_of_gt (Nat.zero_lt_of_lt hf))
    have hn : s.next p = none := hs.2
    simp [tailLoop, hn]
  | cons q xs ih =>
    obtain ⟨fuel, rfl⟩ := Nat.exists_eq_succ_of_ne_zero (Nat.ne_of_gt (Nat.zero_lt_of_lt hf))
    have hn : s.next p = some q := hs.2.1
    have hq : Chain s.next (some q) (q :: xs) := ⟨rfl, hs.2.2⟩
    simp only [tailLoop, hn, ih hq (Nat.lt_of_succ_lt_succ hf), List.getLast?_cons_cons]

theorem listTail_eq (hs : Chain s.next (s.head l) xs) (hf : xs.length < fuel) :
    listTail fuel s l = some xs.getLast? := by
  unfold listTail
  cases xs with
  | nil =>
    have hn : s.head l = none := hs
    simp [hn]
  | cons p xs =>
    rw [hs.1]
    simp only [tailLoop_eq ⟨rfl, hs.2⟩ (Nat.lt_of_succ_lt hf)]
    simp [List.getLast?_cons]

theorem lengthLoop_eq {p : Option α} (hs : Chain s.next p xs) (hf : xs.length < fuel) :
    lengthLoop s fuel p = some xs.length := by
  induction xs generalizing p fuel with
  | nil =>
    obtain ⟨fuel, rfl⟩ := Nat.exists_eq_succ_of_ne_zero (Nat.ne_of_gt (Nat.zero_lt_of_lt hf))
    have hn : p = none := hs
    simp [lengthLoop, hn]
  | cons q xs ih =>
    obtain ⟨fuel, rfl⟩ := Nat.exists_eq_succ_of_ne_zero (Nat.ne_of_gt (Nat.zero_lt_of_lt hf))
    obtain ⟨rfl, hs⟩ := hs
    simp [lengthLoop, ih hs (Nat.lt_of_succ_lt_succ hf)]

theorem chopLoop_eq (fuel : ℕ) {p q r : α} (hs : Chain s.next (some p) (p :: (xs ++ [q])))
    (hr : (p :: xs).getLast? = some r) (hf : xs.length < fuel) :
    chopLoop s fuel p = some (r, q) := by
  induction xs generalizing p fuel with
  | nil =>
    obtain ⟨fuel, rfl⟩ := Nat.exists_eq_succ_of_ne_zero (Nat.ne_of_gt (Nat.zero_lt_of_lt hf))
    have hp : s.next p = some q := hs.2.1
    have hq : s.next q = none := hs.2.2
    obtain rfl : p = r := by simpa using hr
    simp [chopLoop, hp, hq]
  | cons m xs ih =>
    obtain ⟨fuel, rfl⟩ := Nat.exists_eq_succ_of_ne_zero (Nat.ne_of_gt (Nat.zero_lt_of_lt hf))
    have hp : s.next p = some m := hs.2.1
    have hm : Chain s.next (some m) (m :: (xs ++ [q])) := ⟨rfl, hs.2.2⟩
    have hne : ∃ k, s.next m = some k := by
      have := hs.2.2
      cases xs with
      | nil => exact ⟨q, this.1⟩
      | cons k xs => exact ⟨k, this.1⟩
    obtain ⟨k, hk⟩ := hne
    simp only [chopLoop, hp, hk]
    exact ih _ hm (by simpa [List.getLast?_cons_cons] using hr)
      (by simp only [List.length_cons] at hf; omega)

variable [DecidableEq ι] [DecidableEq α]

theorem removeLoop_of_notMem {r p : Option α} (hs : Chain s.next p xs) (hx : x ∉ xs)
    (hf : xs.length < fuel) : removeLoop s l x fuel r p = some s := by
  induction xs generalizing p r fuel with
  | nil =>
    obtain ⟨fuel, rfl⟩ := Nat.exists_eq_succ_of_ne_zero (Nat.ne_of_gt (Nat.zero_lt_of_lt hf))
    have hn : p = none := hs
    simp [removeLoop, hn]
  | cons q xs ih =>
    obtain ⟨fuel, rfl⟩ := Nat.exists_eq_succ_of_ne_zero (Nat.ne_of_gt (Nat.zero_lt_of_lt hf))
    obtain ⟨rfl, hs⟩ := hs
    have hq : q ≠ x := fun h => hx (h ▸ List.mem_cons_self)
    simp only [removeLoop, hq, if_false]
    exact ih hs (fun h => hx (List.mem_cons_of_mem _ h)) (Nat.lt_of_succ_lt_succ hf)

/-- The loop stops at `x` with the item before it in hand. -/
theorem removeLoop_of_mem {p r : Option α} (hs : Chain s.next p (xs ++ x :: ys)) (hx : x ∉ xs)
    (hf : (xs ++ x :: ys).length < fuel) :
    removeLoop s l x fuel r p =
      some (match xs.getLast?.or r with
        | none => (s.setHead l (s.next x)).setNext x none
        | some q => (s.setNext q (s.next x)).setNext x none) := by
  induction xs generalizing p r fuel with
  | nil =>
    obtain ⟨fuel, rfl⟩ := Nat.exists_eq_succ_of_ne_zero (Nat.ne_of_gt (Nat.zero_lt_of_lt hf))
    obtain ⟨rfl, -⟩ := hs
    cases r <;> simp [removeLoop]
  | cons q xs ih =>
    obtain ⟨fuel, rfl⟩ := Nat.exists_eq_succ_of_ne_zero (Nat.ne_of_gt (Nat.zero_lt_of_lt hf))
    obtain ⟨rfl, hs⟩ := hs
    have hq : q ≠ x := fun h => hx (h ▸ List.mem_cons_self)
    simp only [removeLoop, hq, if_false]
    rw [ih hs (fun h => hx (List.mem_cons_of_mem _ h)) (Nat.lt_of_succ_lt_succ hf)]
    cases xs <;> simp [List.getLast?_cons]

/-- `list_remove` leaves the list without the item, the other list variables alone, and the
`next` words of all items that were not on the list. -/
theorem listRemove_spec (hs : Chain s.next (s.head l) xs) (hf : xs.length < fuel) :
    ∃ s', listRemove fuel s l x = some s' ∧ Chain s'.next (s'.head l) (xs.erase x) ∧
      (∀ k, k ≠ l → s'.head k = s.head k) ∧ ∀ y, y ∉ xs → s'.next y = s.next y := by
  by_cases hx : x ∈ xs
  · obtain ⟨pre, post, hpre, rfl, herase⟩ := List.exists_erase_eq hx
    refine ⟨_, removeLoop_of_mem hs hpre hf, ?_⟩
    rw [herase]
    rcases List.eq_nil_or_concat pre with rfl | ⟨pre, q, rfl⟩
    · obtain ⟨-, hs'⟩ := id hs
      refine ⟨?_, fun k hk => by simp [hk], fun y hy => ?_⟩
      · simpa using Chain.unlink_head hs
      · have hyx : y ≠ x := fun h => hy (by simp [h])
        simp [hyx]
    · have hs' : Chain s.next (s.head l) (pre ++ q :: x :: post) := by simpa using hs
      refine ⟨?_, fun k hk => by simp, fun y hy => ?_⟩
      · simpa using Chain.unlink hs'
      · have hyx : y ≠ x := fun h => hy (by simp [h])
        have hyq : y ≠ q := fun h => hy (by simp [h])
        simp [hyx, hyq]
  · refine ⟨s, removeLoop_of_notMem hs hx hf, ?_, fun _ _ => rfl, fun _ _ => rfl⟩
    rwa [List.erase_of_not_mem hx]

theorem listPush_spec (hs : Chain s.next (s.head l) xs) (hf : xs.length < fuel) :
    ∃ s', listPush fuel s l x = some s' ∧ Chain s'.next (s'.head l) (x :: xs.erase x) ∧
      (∀ k, k ≠ l → s'.head k = s.head k) ∧ ∀ y, y ∉ xs → y ≠ x → s'.next y = s.next y := by
  obtain ⟨t, ht, hch, hhead, hnext⟩ := listRemove_spec (x := x) hs hf
  refine ⟨_, by rw [listPush, ht]; rfl, ?_, fun k hk => by simp [hk, hhead k hk],
    fun y hy hyx => by simp [hyx, hnext y hy]⟩
  have hx : x ∉ xs.erase x := (Chain.nodup hs).not_mem_erase
  simpa using Seg.update (m := t.head l) hch hx

/-- `list_add` clears the `next` word of the item before it looks for the tail, which is safe
because the item has just been taken off the list. -/
theorem listAdd_spec (hs : Chain s.next (s.head l) xs) (hf : xs.length < fuel) :
    ∃ s', listAdd fuel s l x = some s' ∧ Chain s'.next (s'.head l) (xs.erase x ++ [x]) ∧
      (∀ k, k ≠ l → s'.head k = s.head k) ∧ ∀ y, y ∉ xs → y ≠ x → s'.next y = s.next y := by
  obtain ⟨t, ht, hch, hhead, hnext⟩ := listRemove_spec (x := x) hs hf
  have hx : x ∉ xs.erase x := (Chain.nodup hs).not_mem_erase
  have hch' : Chain (t.setNext x none).next ((t.setNext x none).head l) (xs.erase x) :=
    Seg.update hch hx
  have hlen : (xs.erase x).length < fuel :=
    Nat.lt_of_le_of_lt (List.length_erase_le) hf
  simp only [listAdd, ht, Option.bind_some, listTail_eq hch' hlen, Option.map_some]
  rcases List.eq_nil_or_concat (xs.erase x) with hnil | ⟨pre, q, hcat⟩
  · rw [hnil]
    exact ⟨_, rfl, by simp, fun k hk => by simp [hk, hhead k hk],
      fun y hy hyx => by simp [hyx, hnext y hy]⟩
  · rw [List.concat_eq_append] at hcat
    rw [hcat] at hch' hx ⊢
    refine ⟨_, by simp; rfl, ?_, fun k hk => by simp [hhead k hk], fun y hy hyx => ?_⟩
    · exact Chain.snoc hch' hx (by simp)
    · have hyq : y ≠ q := fun h =>
        hy (List.mem_of_mem_erase (by rw [hcat, h]; simp : y ∈ xs.erase x))
      simp [hyx, hyq, hnext y hy]

theorem listChop_spec (hs : Chain s.next (s.head l) xs) (hf : xs.length < fuel) :
    ∃ s', listChop fuel s l = some (s', xs.getLast?) ∧ Chain s'.next (s'.head l) xs.dropLast ∧
      (∀ k, k ≠ l → s'.head k = s.head k) ∧ ∀ y, y ∉ xs → s'.next y = s.next y := by
  rcases List.eq_nil_or_concat xs with rfl | ⟨pre, q, rfl⟩
  · have hn : s.head l = none := hs
    exact ⟨s, by simp [listChop, hn], hs, fun _ _ => rfl, fun _ _ => rfl⟩
  rw [List.concat_eq_append] at hs hf ⊢
  rcases List.eq_nil_or_concat pre with rfl | ⟨pre, r, rfl⟩
  · obtain ⟨hh, hn⟩ := hs
    have hn : s.next q = none := hn
    exact ⟨s.setHead l none, by simp [listChop, hh, hn], by simp, fun k hk => by simp [hk],
      fun _ _ => rfl⟩
  · rw [List.concat_eq_append] at hs hf ⊢
    -- the first item, which is not the last
    obtain ⟨p, rest, hp⟩ : ∃ p rest, pre ++ [r] = p :: rest :=
      List.exists_cons_of_ne_nil (by simp)
    have hlast : (p :: rest).getLast? = some r := by rw [← hp]; simp
    have hr : r ∉ pre := fun hmem =>
      (List.nodup_append.mp (List.nodup_append.mp (Chain.nodup hs)).1).2.2 r hmem r
        List.mem_cons_self rfl
    have hs' : Chain s.next (some p) (p :: (rest ++ [q])) := by
      rw [hp] at hs
      exact ⟨rfl, hs.2⟩
    have hhead : s.head l = some p := by
      rw [hp] at hs
      exact hs.1
    have hne : ∃ m, s.next p = some m := by
      cases rest with
      | nil => exact ⟨q, hs'.2.1⟩
      | cons m rest => exact ⟨m, hs'.2.1⟩
    obtain ⟨m, hm⟩ := hne
    have hloop := chopLoop_eq fuel hs' hlast (by
      have := congrArg List.length hp
      simp only [List.length_append, List.length_cons, List.length_nil] at this hf
      omega)
    refine ⟨s.setNext r none, by simp [listChop, hhead, hm, hloop], ?_, fun _ _ => rfl,
      fun y hy => ?_⟩
    · obtain ⟨m, hpre, -⟩ := seg_append.mp hs
      simpa using Seg.relink hpre hr
    · have hyr : y ≠ r := fun h => hy (by simp [h])
      simp [hyr]

omit [DecidableEq α] in
theorem listPop_spec (hs : Chain s.next (s.head l) xs) :
    (listPop s l).2 = xs.head? ∧ Chain (listPop s l).1.next ((listPop s l).1.head l) xs.tail ∧
      (∀ k, k ≠ l → (listPop s l).1.head k = s.head k) ∧ (listPop s l).1.next = s.next := by
  cases xs with
  | nil =>
    have hn : s.head l = none := hs
    simp [listPop, hn]
  | cons x xs =>
    obtain ⟨hh, hs⟩ := hs
    refine ⟨by simp [listPop, hh], by simpa [listPop, hh] using hs, fun k hk => ?_,
      by simp [listPop, hh]⟩
    simp [listPop, hh, hk]

theorem insertAfter_eq {p : α} (hp : p ∉ xs) :
    insertAfter p x (xs ++ p :: ys) = xs ++ p :: x :: ys := by
  induction xs with
  | nil => simp [insertAfter]
  | cons y xs ih =>
    have hy : y ≠ p := fun h => hp (by simp [h])
    simp [insertAfter, hy, ih fun h => hp (List.mem_cons_of_mem _ h)]

theorem itemAfter_eq (hx : x ∉ xs) : itemAfter x (xs ++ x :: ys) = ys.head? := by
  induction xs with
  | nil => simp [itemAfter]
  | cons y xs ih =>
    have hy : y ≠ x := fun h => hx (by simp [h])
    simp [itemAfter, hy, ih fun h => hx (List.mem_cons_of_mem _ h)]

theorem listInsert_spec (fuel : ℕ) {p : α} (hs : Chain s.next (s.head l) xs) (hp : p ∈ xs) (hx : x ∉ xs) :
    ∃ s', listInsert fuel s l (some p) x = some s' ∧
      Chain s'.next (s'.head l) (insertAfter p x xs) ∧
      s'.head = s.head ∧ ∀ y, y ∉ xs → y ≠ x → s'.next y = s.next y := by
  obtain ⟨pre, post, rfl, hpre⟩ := List.eq_append_cons_of_mem hp
  refine ⟨_, rfl, ?_, rfl, fun y hy hyx => ?_⟩
  · rw [insertAfter_eq hpre]
    exact Chain.splice hs hx
  · have hyp : y ≠ p := fun h => hy (by simp [h])
    simp [hyx, hyp]

end

/-! ## Refinement -/

section

variable [DecidableEq ι] [DecidableEq α] {s s' : Lists ι α} {a : ι → List α} {l : ι} {x : α}
  {ys : List α} {fuel : ℕ}

omit [DecidableEq α] in
/-- A change to one list, by items that are on no other, keeps the rest. -/
theorem Holds.update (h : Holds s a) (hch : Chain s'.next (s'.head l) ys)
    (hys : ∀ y ∈ ys, ∀ k, y ∈ a k → k = l) (hhead : ∀ k, k ≠ l → s'.head k = s.head k)
    (hnext : ∀ k, k ≠ l → ∀ y ∈ a k, s'.next y = s.next y) : Holds s' (Function.update a l ys) where
  chain k := by
    rcases eq_or_ne k l with rfl | hk
    · rwa [Function.update_self]
    · rw [Function.update_of_ne hk, hhead k hk]
      exact Seg.congr (h.chain k) (hnext k hk)
  apart k m y hk hm := by
    rcases eq_or_ne k l with hkl | hkl <;> rcases eq_or_ne m l with hml | hml
    · rw [hkl, hml]
    · subst hkl
      rw [Function.update_self] at hk
      rw [Function.update_of_ne hml] at hm
      exact (hys y hk m hm).symm
    · subst hml
      rw [Function.update_self] at hm
      rw [Function.update_of_ne hkl] at hk
      exact hys y hm k hk
    · rw [Function.update_of_ne hkl] at hk
      rw [Function.update_of_ne hml] at hm
      exact h.apart k m y hk hm

omit [DecidableEq ι] [DecidableEq α] in
theorem Holds.notMem (h : Holds s a) {k : ι} (hk : k ≠ l) {y : α} (hy : y ∈ a k) : y ∉ a l :=
  fun hl => hk (h.apart k l y hy hl)

omit [DecidableEq α] in
/-- The operations that add `x` to the list `l`. -/
theorem Holds.put (h : Holds s a) (hx : ∀ k, x ∈ a k → k = l)
    (hch : Chain s'.next (s'.head l) ys) (hys : ∀ y ∈ ys, y ∈ a l ∨ y = x)
    (hhead : ∀ k, k ≠ l → s'.head k = s.head k)
    (hnext : ∀ y, y ∉ a l → y ≠ x → s'.next y = s.next y) : Holds s' (Function.update a l ys) := by
  refine h.update hch (fun y hy k hk => ?_) hhead fun k hk y hy => hnext y (h.notMem hk hy) ?_
  · rcases hys y hy with hl | rfl
    · exact h.apart k l y hk hl
    · exact hx k hk
  · rintro rfl
    exact hk (hx k hy)

omit [DecidableEq α] in
/-- The operations that only take items off the list `l`. -/
theorem Holds.take (h : Holds s a) (hch : Chain s'.next (s'.head l) ys) (hys : ys ⊆ a l)
    (hhead : ∀ k, k ≠ l → s'.head k = s.head k)
    (hnext : ∀ y, y ∉ a l → s'.next y = s.next y) : Holds s' (Function.update a l ys) :=
  h.update hch (fun y hy k hk => h.apart k l y hk (hys hy)) hhead
    fun _ hk y hy => hnext y (h.notMem hk hy)

theorem mem_insertAfter {p y : α} {xs : List α} (h : y ∈ insertAfter p x xs) : y ∈ xs ∨ y = x := by
  induction xs with
  | nil => simp [insertAfter] at h
  | cons z xs ih =>
    unfold insertAfter at h
    split at h
    · simp only [List.mem_cons] at h ⊢
      tauto
    · rcases List.mem_cons.mp h with rfl | h
      · simp
      · exact (ih h).imp_left (List.mem_cons_of_mem _)

/-- Each operation does to the memory what its counterpart does to plain lists. -/
theorem exec_refines (h : Holds s a) (op : Op ι α) (hok : op.Ok a)
    (hf : ∀ l, (a l).length < fuel) :
    ∃ s', exec fuel s op = some (s', (op.apply a).2) ∧ Holds s' (op.apply a).1 := by
  cases op with
  | init l =>
    exact ⟨_, rfl, h.take (by simp [listInit]) (by simp) (fun k hk => by simp [listInit, hk])
      fun _ _ => rfl⟩
  | head l => exact ⟨s, by rw [exec, listHead, Chain.head_eq (h.chain l)]; rfl, h⟩
  | tail l => exact ⟨s, by rw [exec, listTail_eq (h.chain l) (hf l)]; rfl, h⟩
  | add l x =>
    obtain ⟨s', hs', hch, hhead, hnext⟩ := listAdd_spec (x := x) (h.chain l) (hf l)
    refine ⟨s', by rw [exec, hs']; rfl, h.put hok hch (fun y hy => ?_) hhead hnext⟩
    rcases List.mem_append.mp hy with hy | hy
    · exact .inl (List.mem_of_mem_erase hy)
    · exact .inr (List.mem_singleton.mp hy)
  | push l x =>
    obtain ⟨s', hs', hch, hhead, hnext⟩ := listPush_spec (x := x) (h.chain l) (hf l)
    refine ⟨s', by rw [exec, hs']; rfl, h.put hok hch (fun y hy => ?_) hhead hnext⟩
    rcases List.mem_cons.mp hy with rfl | hy
    · exact .inr rfl
    · exact .inl (List.mem_of_mem_erase hy)
  | chop l =>
    obtain ⟨s', hs', hch, hhead, hnext⟩ := listChop_spec (h.chain l) (hf l)
    exact ⟨s', by rw [exec, hs']; rfl, h.take hch (List.dropLast_subset _) hhead hnext⟩
  | pop l =>
    obtain ⟨hr, hch, hhead, hnext⟩ := listPop_spec (h.chain l)
    exact ⟨_, by rw [exec, hr]; rfl,
      h.take hch (fun _ => List.mem_of_mem_tail) hhead fun y _ => by rw [hnext]⟩
  | remove l x =>
    obtain ⟨s', hs', hch, hhead, hnext⟩ := listRemove_spec (x := x) (h.chain l) (hf l)
    exact ⟨s', by rw [exec, hs']; rfl, h.take hch List.erase_subset hhead hnext⟩
  | length l => exact ⟨s, by rw [exec, listLength, lengthLoop_eq (h.chain l) (hf l)]; rfl, h⟩
  | insert l p x =>
    cases p with
    | none =>
      obtain ⟨s', hs', hch, hhead, hnext⟩ := listPush_spec (x := x) (h.chain l) (hf l)
      refine ⟨s', by rw [exec, listInsert, hs']; rfl, h.put hok hch (fun y hy => ?_) hhead hnext⟩
      rcases List.mem_cons.mp hy with rfl | hy
      · exact .inr rfl
      · exact .inl (List.mem_of_mem_erase hy)
    | some p =>
      obtain ⟨hp, hx⟩ := hok
      obtain ⟨s', hs', hch, hhead, hnext⟩ :=
        listInsert_spec fuel (h.chain l) hp (hx l)
      exact ⟨s', by rw [exec, hs']; rfl, h.put (fun k hk => absurd hk (hx k)) hch
        (fun y hy => mem_insertAfter hy) (fun k _ => by rw [hhead]) hnext⟩
  | itemNext l x =>
    obtain ⟨pre, post, hl, hpre⟩ := List.eq_append_cons_of_mem (show x ∈ a l from hok)
    have hch := h.chain l
    rw [hl] at hch
    exact ⟨s, by simp [exec, listItemNext, Op.apply, hl, itemAfter_eq hpre, Chain.next_eq hch], h⟩

theorem length_insertAfter_le (p : α) (xs : List α) :
    (insertAfter p x xs).length ≤ xs.length + 1 := by
  induction xs with
  | nil => simp [insertAfter]
  | cons z xs ih =>
    unfold insertAfter
    split <;> simp only [List.length_cons] <;> omega

/-- No operation makes a list longer by more than one. -/
theorem length_apply_le (op : Op ι α) (k : ι) : ((op.apply a).1 k).length ≤ (a k).length + 1 := by
  have hupd : ∀ (l : ι) (ys : List α), ys.length ≤ (a l).length + 1 →
      (Function.update a l ys k).length ≤ (a k).length + 1 := by
    intro l ys hys
    rcases eq_or_ne k l with rfl | hk
    · simpa using hys
    · simp [hk]
  have herase : ∀ (l : ι) (x : α), ((a l).erase x).length ≤ (a l).length :=
    fun l x => List.length_erase_le
  cases op with
  | head l | tail l | length l | itemNext l x => simp [Op.apply]
  | init l => exact hupd l _ (by simp)
  | add l x => exact hupd l _ (by simp [herase])
  | push l x => exact hupd l _ (by simp [herase])
  | chop l => exact hupd l _ (by simp; omega)
  | pop l => exact hupd l _ (by simp; omega)
  | remove l x => exact hupd l _ (Nat.le_succ_of_le (herase l x))
  | insert l p x =>
    cases p with
    | none => exact hupd l _ (by simp [herase])
    | some p => exact hupd l _ (length_insertAfter_le p _)

theorem run_refines_from (h : Holds s a) (ops : List (Op ι α)) (hok : RunOk a ops)
    (hf : ∀ l, (a l).length + ops.length < fuel) :
    ∃ s', run fuel s ops = some (s', (specRun a ops).2) ∧ Holds s' (specRun a ops).1 := by
  induction ops generalizing s a with
  | nil => exact ⟨s, rfl, h⟩
  | cons op ops ih =>
    obtain ⟨hop, hok⟩ := hok
    obtain ⟨s₁, hs₁, h₁⟩ := exec_refines h op hop fun l => Nat.lt_of_le_of_lt (by simp) (hf l)
    obtain ⟨s₂, hs₂, h₂⟩ := ih h₁ hok fun l => by
      have hl := hf l
      have hop := length_apply_le (a := a) op l
      rw [List.length_cons] at hl
      omega
    exact ⟨s₂, by rw [run, hs₁]; simp [hs₂, specRun], h₂⟩

/-- From empty list variables, whatever the `next` words hold, every sequence of operations on any
number of lists agrees with the same operations on plain lists: every loop ends, the values
returned are the same, and at the end each list is a chain without repeats that shares no item
with another. -/
theorem run_refines (fuel : ℕ) (next : α → Option α) (ops : List (Op ι α)) (hok : RunOk (fun _ => []) ops)
    (hf : ops.length < fuel) :
    ∃ s, run fuel ⟨fun _ => none, next⟩ ops = some (s, (specRun (fun _ => []) ops).2) ∧
      Holds s (specRun (fun _ => []) ops).1 ∧
      ∀ l, ((specRun (fun _ => []) ops).1 l).Nodup := by
  have h0 : Holds (⟨fun _ => none, next⟩ : Lists ι α) fun _ => [] :=
    ⟨fun _ => rfl, fun _ _ _ h => absurd h List.not_mem_nil⟩
  obtain ⟨s, hs, h⟩ := run_refines_from h0 ops hok fun _ => by simpa using hf
  exact ⟨s, hs, h, h.nodup⟩

/-- Two lists of four items: one is moved from the first to the second, and one is inserted. -/
theorem run_refines_two_lists : ∃ s : Lists Bool ℕ,
    run 10 ⟨fun _ => none, fun _ => some 7⟩
      [.add true 1, .add true 2, .push true 3, .remove true 1, .add false 1, .insert true (some 3) 4,
        .chop true, .length true, .itemNext true 3] =
      some (s, [.void, .void, .void, .void, .void, .void, .item (some 2), .int 2,
        .item (some 4)]) := by
  obtain ⟨s, hs, -⟩ := run_refines (ι := Bool) (α := ℕ) 10 (fun _ => some 7)
    [.add true 1, .add true 2, .push true 3, .remove true 1, .add false 1, .insert true (some 3) 4,
      .chop true, .length true, .itemNext true 3]
    (by simp [RunOk, Op.Ok, Op.apply, Function.update, insertAfter]) (by simp)
  exact ⟨s, hs.trans (by simp [specRun, Op.apply, Function.update, insertAfter, itemAfter])⟩

end

end Adler.Kernel
