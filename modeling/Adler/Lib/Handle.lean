/-
  Resources that are acquired, used and given back, such as heap blocks and file descriptors. Nothing
  here names a program.

  * `Handle`: whether a pointer to a resource is null, live, or left over from a resource given back.
  * `Op`, `runOps`: a list of operations on the resources, with the operations that fault: the use
    or release of one that is not live.
  * `Settled`: the lists of operations that a holder of live resources performs without a fault and
    without losing one; they can be put together (`Settled.append`).
-/
import Mathlib.Logic.Function.Basic

namespace Adler.Lib

/-- What a pointer to a resource is worth. -/
inductive Handle where
  | null
  | live
  /-- The resource was given back and the pointer kept. -/
  | dead
  deriving DecidableEq

/-- An operation on the resources `ρ`. -/
inductive Op (ρ : Type*) where
  | use (r : ρ)
  | release (r : ρ)
  /-- The pointer is assigned; what it pointed to before is not given back. -/
  | assign (r : ρ) (h : Handle)
  deriving DecidableEq

variable {ρ : Type*} [DecidableEq ρ]

/-- What an operation does to the handles. -/
def Op.apply (op : Op ρ) (handles : ρ → Handle) : ρ → Handle :=
  match op with
  | .use _ => handles
  | .release r => Function.update handles r .dead
  | .assign r h => Function.update handles r h

/-- The resource must be live for this operation, and is not. -/
def Op.Faults (op : Op ρ) (handles : ρ → Handle) : Prop :=
  match op with
  | .use r => handles r ≠ .live
  | .release r => handles r ≠ .live
  | .assign _ _ => False

instance (op : Op ρ) (handles : ρ → Handle) : Decidable (op.Faults handles) :=
  match op with
  | .use _ => inferInstanceAs (Decidable (_ ≠ _))
  | .release _ => inferInstanceAs (Decidable (_ ≠ _))
  | .assign _ _ => .isFalse id

/-- The operations of a list, one after the other: the handles, and the operations that fault. -/
def runOps : List (Op ρ) → (ρ → Handle) → (ρ → Handle) × List (Op ρ)
  | [], handles => (handles, [])
  | op :: ops, handles =>
    let r := runOps ops (op.apply handles)
    (r.1, if op.Faults handles then op :: r.2 else r.2)

@[simp] theorem runOps_nil (handles : ρ → Handle) : runOps [] handles = (handles, []) := rfl

theorem runOps_append (ops ops' : List (Op ρ)) (handles : ρ → Handle) :
    runOps (ops ++ ops') handles =
      ((runOps ops' (runOps ops handles).1).1,
        (runOps ops handles).2 ++ (runOps ops' (runOps ops handles).1).2) := by
  induction ops generalizing handles with
  | nil => rfl
  | cons op ops ih =>
    rw [List.cons_append, runOps, ih, runOps]
    dsimp only
    split <;> rfl

/-- A list that begins with the use of a resource that is not live faults. -/
theorem faults_use_ne_nil {r : ρ} {handles : ρ → Handle} (h : handles r ≠ .live)
    (ops : List (Op ρ)) : (runOps (.use r :: ops) handles).2 ≠ [] := by
  have hfault : (Op.use r).Faults handles := h
  rw [runOps, if_pos hfault]
  exact List.cons_ne_nil _ _

/-- Uses change no handle. -/
theorem runOps_uses (l : List ρ) (handles : ρ → Handle) :
    (runOps (l.map .use) handles).1 = handles := by
  induction l with
  | nil => rfl
  | cons r l ih => exact ih

/-- Every resource is live. -/
def allLive : ρ → Handle := fun _ => .live

/-- With every resource live, the operations fault nowhere and leave every resource live. -/
def Settled (ops : List (Op ρ)) : Prop := runOps ops allLive = (allLive, [])

theorem settled_nil : Settled ([] : List (Op ρ)) := rfl

theorem settled_use (r : ρ) : Settled [Op.use r] := by
  have hlive : ¬ (Op.use r).Faults allLive := fun h => h rfl
  rw [Settled, runOps, if_neg hlive]
  rfl

/-- A resource is given back and another one taken in its place. -/
theorem settled_replace (r : ρ) : Settled [Op.release r, Op.assign r .live] := by
  have hlive : ¬ (Op.release r).Faults allLive := fun h => h rfl
  rw [Settled, runOps, if_neg hlive]
  have hset : Function.update (Function.update (allLive : ρ → Handle) r .dead) r .live = allLive := by
    rw [Function.update_idem]
    exact Function.update_eq_self r allLive
  exact Prod.ext hset rfl

theorem Settled.append {ops ops' : List (Op ρ)} (h : Settled ops) (h' : Settled ops') :
    Settled (ops ++ ops') := by
  rw [Settled, runOps_append, h, h']
  rfl

theorem Settled.ite {ops : List (Op ρ)} (h : Settled ops) (p : Prop) [Decidable p] :
    Settled (if p then ops else []) := by
  split
  · exact h
  · exact settled_nil

end Adler.Lib
