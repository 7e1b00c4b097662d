/-
  Starting the gateway again after `deluge_disseminate` failed. The guard `next_object_id > 0` stands for
  "already running"; `init_object` raises the number once the file is open, before `malloc` can fail.

  * `openFds`: the descriptors a call has opened and not closed.
  * `StartOk`: the steps in which no call opens the file and then finds no memory.
  * `failed_start_retried`: in runs of such steps a stopped gateway can always be started; a call that
    fails leaves no descriptor open, and the next one can succeed exactly when it failed at `cfs_open`.
-/
import Adler.Deluge.Lifecycle

namespace Adler.Deluge.Tx

open Lib (Reach Always)
open Node

/-- The descriptors left open by what was done, latest first. -/
def openFds : List Effect → List Nat
  | [] => []
  | .openFd fd :: l => fd :: openFds l
  | .closeFd fd :: l => (openFds l).erase fd
  | _ :: l => openFds l

/-- The file can be opened and there is memory for its page table. -/
def InitOk (e : InitEnv) : Prop := e.opened.isSome = true ∧ e.env.heap.isSome = true

instance (e : InitEnv) : Decidable (InitOk e) := inferInstanceAs (Decidable (_ ∧ _))

namespace DelugeProcess

/-- What a call of `deluge_disseminate` returns. -/
def returned (e : InitEnv) (f : File) (version : Nat) (g : DelugeProcess) : Int :=
  (delugeDisseminate (processStart g.running) e f version g.node).1

/-- The call returns 0, and `deluge_process` starts on the object it initialised. -/
structure Starts (e : InitEnv) (f : File) (version : Nat) (g : DelugeProcess) : Prop where
  returned : returned e f version g = 0
  running : (disseminate e f version g).running = true
  node : (disseminate e f version g).node = start (initObject e f version g.node).2

/-- The call returns -1, and has closed what it opened. -/
structure FailsClean (e : InitEnv) (f : File) (version : Nat) (g : DelugeProcess) : Prop where
  returned : returned e f version g = -1
  running : (disseminate e f version g).running = g.running
  closed : ∃ l, (disseminate e f version g).node.effects = l ++ g.node.effects ∧ openFds l = []

/-- The steps in which no message payload leaves `current_page` and no call that is let in opens the file
    and then finds no memory. -/
def StartOk (a : Act) (g : DelugeProcess) : Prop :=
  KeepsBuffer a g ∧ match a with
    | .disseminate e _ _ => g.node.nextObjectId = 0 → e.opened.isSome = true → e.env.heap.isSome = true
    | .stop | .event _ _ => True

instance (a : Act) (g : DelugeProcess) : Decidable (StartOk a g) :=
  match a with
  | .disseminate _ _ _ => inferInstanceAs (Decidable (_ ∧ (_ → _ → _)))
  | .stop => inferInstanceAs (Decidable (_ ∧ True))
  | .event _ _ => inferInstanceAs (Decidable (_ ∧ True))

variable {e : InitEnv} {f : File} {v : Nat} {g g' : DelugeProcess}

/-! ## One call -/

theorem delugeDisseminate_free (start : Node → Node) (s : Node) (hfree : s.nextObjectId = 0) :
    delugeDisseminate start e f v s =
      if InitOk e then (0, start (initObject e f v s).2) else (-1, (initObject e f v s).2) := by
  have hguard : ¬ s.nextObjectId > 0 := by omega
  have hinit := initObject_ofProcess e f v s
  rw [delugeDisseminate, if_neg hguard]
  dsimp only
  split at hinit
  · rename_i hok
    have hok : InitOk e := hok
    rw [if_pos hok, if_neg (by omega)]
  · rename_i hbad
    have hbad : ¬ InitOk e := hbad
    rw [if_neg hbad, if_pos (by omega)]

/-- A stopped gateway with the number 0 starts when file and memory are there. -/
theorem starts_of_free (hstopped : g.running = false) (hfree : g.node.nextObjectId = 0)
    (hok : InitOk e) : Starts e f v g := by
  have hguard : ¬ g.node.nextObjectId > 0 := by omega
  have hcall := delugeDisseminate_free (e := e) (f := f) (v := v) (processStart g.running) g.node hfree
  rw [if_pos hok] at hcall
  have hprocess : processStart g.running = start := by
    rw [hstopped]
    rfl
  constructor
  · rw [DelugeProcess.returned, hcall]
  · rw [disseminate, if_neg hguard, hcall]
    simp
  · rw [disseminate, if_neg hguard, hcall, hprocess]

/-- With another number no call gets in. -/
theorem not_starts_of_busy (hbusy : 0 < g.node.nextObjectId) : ¬ Starts e f v g := by
  intro h
  have hret := h.returned
  rw [DelugeProcess.returned, delugeDisseminate, if_pos hbusy] at hret
  cases hret

/-- What a failing `init_object` leaves: the number is raised if the file could be opened. -/
theorem initObject_fails (s : Node) (hfail : ¬ InitOk e) :
    (initObject e f v s).2.nextObjectId =
        (if e.opened.isSome then (s.nextObjectId + 1) % 256 else s.nextObjectId) ∧
      ∃ l, (initObject e f v s).2.effects = l ++ s.effects ∧ openFds l = [] := by
  unfold initObject
  cases hopen : e.opened with
  | none => exact ⟨rfl, [], rfl, rfl⟩
  | some fd =>
    have hheap : e.env.heap = none := by
      cases hheap : e.env.heap with
      | none => rfl
      | some block => exact absurd ⟨by rw [hopen]; rfl, by rw [hheap]; rfl⟩ hfail
    simp only [hheap]
    unfold fileSize
    cases e.reopened with
    | none =>
      refine ⟨rfl, [.closeFd fd, .openFd fd], rfl, ?_⟩
      simp [openFds]
    | some fd' =>
      refine ⟨rfl, [.closeFd fd, .closeFd fd', .openFd fd', .openFd fd], rfl, ?_⟩
      simp [openFds]

theorem failsClean_of_free (hfree : g.node.nextObjectId = 0) (hfail : ¬ InitOk e) :
    FailsClean e f v g := by
  have hguard : ¬ g.node.nextObjectId > 0 := by omega
  have hcall := delugeDisseminate_free (e := e) (f := f) (v := v) (processStart g.running) g.node hfree
  rw [if_neg hfail] at hcall
  constructor
  · rw [DelugeProcess.returned, hcall]
  · rw [disseminate, if_neg hguard, hcall]
    exact Bool.or_false _
  · rw [disseminate, if_neg hguard, hcall]
    exact (initObject_fails g.node hfail).2

/-- After a failed call the next one can succeed exactly when the file could not be opened. -/
theorem retry_iff (hstopped : g.running = false) (hfree : g.node.nextObjectId = 0)
    (hfail : ¬ InitOk e) :
    (∀ e', InitOk e' → Starts e' f v (disseminate e f v g)) ↔ e.opened.isNone = true := by
  have hguard : ¬ g.node.nextObjectId > 0 := by omega
  have hcall := delugeDisseminate_free (e := e) (f := f) (v := v) (processStart g.running) g.node hfree
  rw [if_neg hfail] at hcall
  have hstill : (disseminate e f v g).running = false :=
    (failsClean_of_free hfree hfail).running.trans hstopped
  have hnumber : (disseminate e f v g).node.nextObjectId = if e.opened.isSome then 1 else 0 := by
    rw [disseminate, if_neg hguard, hcall]
    exact (initObject_fails g.node hfail).1.trans (by rw [hfree])
  constructor
  · intro hretry
    by_contra hopened
    have hsome : e.opened.isSome = true := by
      rw [← Option.not_isNone, Bool.eq_false_iff.mpr hopened]
      rfl
    rw [if_pos hsome] at hnumber
    exact not_starts_of_busy (by omega) (hretry quietInit ⟨rfl, rfl⟩)
  · intro hopened e' hok
    have hnone : ¬ e.opened.isSome = true := by
      rw [← Option.not_isNone, hopened]
      exact Bool.false_ne_true
    rw [if_neg hnone] at hnumber
    exact starts_of_free hstill hnumber hok

/-! ## Runs -/

/-- A stopped gateway has the number 0. -/
def Free (g : DelugeProcess) : Prop := g.running = false → g.node.nextObjectId = 0

theorem free_disseminate (h : g.Free) (hok : StartOk (.disseminate e f v) g) :
    (disseminate e f v g).Free := by
  intro hstill
  by_cases hfree : g.node.nextObjectId = 0
  swap
  · have hsame : disseminate e f v g = g := if_pos (Nat.pos_of_ne_zero hfree)
    rw [hsame] at hstill ⊢
    exact h hstill
  have hguard : ¬ g.node.nextObjectId > 0 := by omega
  have hcall := delugeDisseminate_free (e := e) (f := f) (v := v) (processStart g.running) g.node hfree
  rw [disseminate, if_neg hguard, hcall] at hstill ⊢
  by_cases hinit : InitOk e
  · rw [if_pos hinit] at hstill
    simp at hstill
  · have hclosed : ¬ e.opened.isSome = true := fun hopen => hinit ⟨hopen, hok.2 hfree hopen⟩
    have hnumber := (initObject_fails (f := f) (v := v) g.node hinit).1
    rw [if_neg hclosed] at hnumber
    rw [if_neg hinit]
    exact hnumber.trans hfree

theorem free_step {a : Act} (h : g.Free) (hok : StartOk a g) (hst : Step a g g') : g'.Free := by
  match a with
  | .disseminate e f v =>
    rw [hst _ rfl]
    exact free_disseminate h hok
  | .stop =>
    rw [hst _ rfl]
    intro _
    unfold stop
    dsimp only
    split <;> rfl
  | .event env e =>
    have hnext := next_event hok.1 hst
    split at hnext
    · obtain ⟨s, hs, rfl⟩ := hnext
      have hid : s.nextObjectId = g.node.nextObjectId := congrArg Prod.snd (step_ofProcess hs)
      exact fun hstopped => hid.trans (h hstopped)
    · rw [hnext]
      exact h

theorem free_of_reach (h : Reach (· = zero) Step StartOk g) : g.Free := by
  refine h.invariant (I := Free) ?_ fun a g g' hg hok hst => free_step hg hok hst
  rintro g rfl _
  rfl

/-- **Retrying a failed start.** In a run in which no call opens the file and then finds no memory, a
    stopped gateway starts with the next call for which file and memory are there. A call that fails
    closes what it opened, and the next one can succeed exactly when it failed at `cfs_open`. -/
theorem failed_start_retried (h : Reach (· = zero) Step StartOk g) (hstopped : g.running = false)
    (f : File) (v : Nat) :
    (∀ e, InitOk e → Starts e f v g) ∧
      ∀ e, ¬ InitOk e → FailsClean e f v g ∧
        ((∀ e', InitOk e' → Starts e' f v (disseminate e f v g)) ↔ e.opened.isNone = true) := by
  have hfree := free_of_reach h hstopped
  exact ⟨fun e hok => starts_of_free hstopped hfree hok, fun e hfail =>
    ⟨failsClean_of_free hfree hfail, retry_iff hstopped hfree hfail⟩⟩

/-- A boot that cannot open the file. -/
def absentInit : InitEnv := { quietInit with opened := none }

/-- A boot that opens the file and then finds no memory. -/
def starvedInit : InitEnv := { quietInit with env := { quietEnv with heap := none } }

/-- The first call does not find the file, the second starts. -/
theorem failed_start_retried_twice :
    FailsClean absentInit (zeroFile 256) 0 zero ∧
      Starts quietInit (zeroFile 256) 0 (disseminate absentInit (zeroFile 256) 0 zero) := by
  have hfail : ¬ InitOk absentInit := by decide
  obtain ⟨hclean, hretry⟩ := (failed_start_retried (.init rfl) rfl (zeroFile 256) 0).2 absentInit hfail
  exact ⟨hclean, hretry.mpr rfl quietInit ⟨rfl, rfl⟩⟩

/-- The first call finds no memory; nothing runs, and the second is refused. -/
theorem failed_start_refused :
    ∃ g : DelugeProcess, Reach (· = zero) Step Always g ∧
      g = disseminate starvedInit (zeroFile 256) 0 zero ∧ g.running = false ∧
      InitOk quietInit ∧ returned quietInit (zeroFile 256) 0 g = -1 :=
  ⟨_, .step (.init rfl) trivial (next_step (.disseminate starvedInit (zeroFile 256) 0) zero _ rfl), rfl,
    rfl, ⟨rfl, rfl⟩, rfl⟩

end DelugeProcess

end Adler.Deluge.Tx
