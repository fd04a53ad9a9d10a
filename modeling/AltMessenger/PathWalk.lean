import Mathlib.Data.List.Basic
import Mathlib.Data.List.Infix

/-!
Ways through a tree of directories. A step goes down to a name or up to the parent, and stays at
the root where there is no parent. A way comes to the same place as its route: some levels up, and
then down by names only.
-/
namespace PathWalk
variable {α : Type}

inductive Step (α : Type) where
  | name (a : α)
  | up
  deriving DecidableEq, Repr

/-- A directory is given by the names from the root down to it. -/
def walkStep (base : List α) : Step α → List α
  | .name a => base ++ [a]
  | .up => base.dropLast

def walk (base : List α) (steps : List (Step α)) : List α := steps.foldl walkStep base

structure Route (α : Type) where
  ups : Nat
  names : List α
  deriving DecidableEq, Repr

def Route.step (r : Route α) : Step α → Route α
  | .name a => { r with names := r.names ++ [a] }
  | .up => if r.names = [] then { r with ups := r.ups + 1 } else { r with names := r.names.dropLast }

def route (steps : List (Step α)) : Route α := steps.foldl Route.step ⟨0,[]⟩

namespace Route

/-- Where the route leads from a directory. -/
def goFrom (r : Route α) (base : List α) : List α :=
  base.take (base.length - r.ups) ++ r.names

/-- The names that a route leaves when it goes up. -/
def left (r : Route α) (base : List α) : List α := base.drop (base.length - r.ups)

/-- The route comes back into the directory that it starts from. -/
def Returns (r : Route α) (base : List α) : Prop := r.left base <+: r.names

/-- The route ends in the directory that it starts from, or above it. -/
def Meets (r : Route α) (base : List α) : Prop := r.left base <+: r.names ∨ r.names <+: r.left base

theorem goFrom_step (r : Route α) (base : List α) (s : Step α) :
    (r.step s).goFrom base = walkStep (r.goFrom base) s := by
  cases s with
  | name a => exact (List.append_assoc _ _ _).symm
  | up =>
    unfold goFrom step walkStep
    dsimp only
    split
    case isTrue empty =>
      dsimp only
      rw [empty, List.append_nil, List.append_nil, List.dropLast_eq_take, List.take_take,
        List.length_take]
      congr 1
      omega
    case isFalse more => exact (List.dropLast_append_of_ne_nil more).symm

theorem goFrom_steps (r : Route α) (base : List α) (steps : List (Step α)) :
    (steps.foldl step r).goFrom base = walk (r.goFrom base) steps := by
  induction steps generalizing r with
  | nil => rfl
  | cons s steps ih =>
    rw [List.foldl_cons, ih, goFrom_step]
    rfl

theorem parts (r : Route α) (base : List α) :
    base.take (base.length - r.ups) ++ r.left base = base := List.take_append_drop _ _

theorem inside_iff (r : Route α) (base : List α) : base <+: r.goFrom base ↔ r.Returns base := by
  have split : base <+: r.goFrom base ↔
      base.take (base.length - r.ups) ++ r.left base <+: r.goFrom base := by rw [r.parts base]
  exact split.trans (List.prefix_append_right_inj _)

theorem above_iff (r : Route α) (base : List α) :
    r.goFrom base <+: base ↔ r.names <+: r.left base := by
  have split : r.goFrom base <+: base ↔
      r.goFrom base <+: base.take (base.length - r.ups) ++ r.left base := by rw [r.parts base]
  exact split.trans (List.prefix_append_right_inj _)

end Route

theorem walk_route (base : List α) (steps : List (Step α)) :
    walk base steps = (route steps).goFrom base := by
  have start : (⟨0,[]⟩ : Route α).goFrom base = base := by simp [Route.goFrom]
  unfold route
  rw [Route.goFrom_steps, start]

/-- A way stays inside exactly if its route returns. -/
theorem walk_inside_iff {base : List α} {steps : List (Step α)} :
    base <+: walk base steps ↔ (route steps).Returns base := by
  rw [walk_route, Route.inside_iff]

/-- A way ends inside or above exactly if its route meets the directory that it starts from. -/
theorem walk_meets_iff {base : List α} {steps : List (Step α)} :
    base <+: walk base steps ∨ walk base steps <+: base ↔ (route steps).Meets base := by
  rw [walk_route, Route.inside_iff, Route.above_iff]
  rfl

theorem walk_append (base : List α) (first second : List (Step α)) :
    walk base (first ++ second) = walk (walk base first) second := List.foldl_append ..

instance [DecidableEq α] (r : Route α) (base : List α) : Decidable (r.Returns base) :=
  inferInstanceAs (Decidable (_ <+: _))

instance [DecidableEq α] (r : Route α) (base : List α) : Decidable (r.Meets base) :=
  inferInstanceAs (Decidable (_ ∨ _))

end PathWalk
