import Mathlib.Data.List.Basic

/-!
A chain whose members arrive in some order, each counted only when it is the next one. How far the
chain is counted depends on which parts of it arrive in its own order.
-/
namespace OrderedArrival
variable {α : Type} [DecidableEq α]

/-- The number of counted members of the chain after one more arrival. -/
def advance (chain : List α) (count : Nat) (a : α) : Nat :=
  if chain[count]? = some a then count + 1 else count

def placed (chain : List α) (count : Nat) (arrivals : List α) : Nat :=
  arrivals.foldl (advance chain) count

variable {chain : List α}

theorem advance_next {count : Nat} {a : α} (next : chain[count]? = some a) :
    advance chain count a = count + 1 := if_pos next

theorem advance_other {count : Nat} {a : α} (other : chain[count]? ≠ some a) :
    advance chain count a = count := if_neg other

theorem placed_cons (count : Nat) (a : α) (arrivals : List α) :
    placed chain count (a :: arrivals) = placed chain (advance chain count a) arrivals := rfl

theorem advance_ge (count : Nat) (a : α) : count ≤ advance chain count a := by
  unfold advance
  split <;> omega

theorem placed_ge (count : Nat) (arrivals : List α) : count ≤ placed chain count arrivals := by
  induction arrivals generalizing count with
  | nil => exact Nat.le_refl count
  | cons a arrivals ih => exact Nat.le_trans (advance_ge count a) (ih (advance chain count a))

theorem placed_le {count : Nat} (within : count ≤ chain.length) (arrivals : List α) :
    placed chain count arrivals ≤ chain.length := by
  induction arrivals generalizing count with
  | nil => exact within
  | cons a arrivals ih =>
    refine ih ?_
    unfold advance
    split
    case isTrue next => exact (List.getElem?_eq_some_iff.mp next).1
    case isFalse => exact within

/-- The next part of the chain is counted if it arrives in its order. -/
theorem placed_part {part arrivals : List α} (ordered : part.Sublist arrivals) {count : Nat}
    (next : part <+: chain.drop count) : count + part.length ≤ placed chain count arrivals := by
  induction arrivals generalizing part count with
  | nil =>
    rw [List.sublist_nil.mp ordered]
    exact Nat.le_refl count
  | cons a arrivals ih =>
    rw [placed_cons]
    cases part with
    | nil => exact Nat.le_trans (advance_ge count a) (placed_ge _ _)
    | cons c part =>
      obtain ⟨tail,parts⟩ := next
      have first : chain[count]? = some c := by
        have head := congrArg (·[0]?) parts
        simpa [List.getElem?_drop] using head.symm
      have later : part <+: chain.drop (count + 1) := by
        refine ⟨tail,?_⟩
        rw [← List.tail_drop, ← parts]
        rfl
      by_cases same : a = c
      · rw [same] at ordered ⊢
        rw [advance_next first, List.length_cons]
        have rest := ih (List.cons_sublist_cons.mp ordered) later
        omega
      · have other : chain[count]? ≠ some a := by
          rw [first]
          exact fun equal => same (Option.some_inj.mp equal).symm
        rw [advance_other other]
        refine ih ?_ ⟨tail,parts⟩
        cases ordered with
        | cons _ rest => exact rest
        | cons_cons => exact absurd rfl same

/-- The whole chain is counted if what is left of it arrives in its order. -/
theorem placed_rest {arrivals : List α} {count : Nat} (within : count ≤ chain.length)
    (ordered : (chain.drop count).Sublist arrivals) :
    placed chain count arrivals = chain.length := by
  have counted := placed_part ordered (List.prefix_refl _)
  rw [List.length_drop] at counted
  have bound := placed_le within arrivals
  omega

end OrderedArrival
