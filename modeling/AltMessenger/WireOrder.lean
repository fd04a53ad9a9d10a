import AltMessenger.TransitionRuns

/-!
A wire that items are put on in the order in which they were accepted. A system behaves as a wire
if each of its steps accepts some items and then puts some of those that wait on the wire; what is
on the wire is then always the first part of what was accepted.
-/
namespace WireOrder
open TransitionRuns

structure Backlog (α : Type) where
  wire : List α
  waiting : List α

namespace Backlog
variable {α : Type}

def accepted (b : Backlog α) : List α := b.wire ++ b.waiting

def push (b : Backlog α) (items : List α) : Backlog α := { b with waiting := b.waiting ++ items }

/-- The first items that wait go on the wire. -/
def advance (b : Backlog α) (count : Nat) : Backlog α where
  wire := b.wire ++ b.waiting.take count
  waiting := b.waiting.drop count

@[simp] theorem accepted_push (b : Backlog α) (items : List α) :
    (b.push items).accepted = b.accepted ++ items := by
  unfold push accepted
  rw [List.append_assoc]

@[simp] theorem accepted_advance (b : Backlog α) (count : Nat) :
    (b.advance count).accepted = b.accepted := by
  unfold advance accepted
  rw [List.append_assoc, List.take_append_drop]

@[simp] theorem push_nil (b : Backlog α) : b.push [] = b := by
  unfold push
  rw [List.append_nil]

@[simp] theorem advance_zero (b : Backlog α) : b.advance 0 = b := by
  unfold advance
  rw [List.take_zero, List.append_nil, List.drop_zero]

theorem wire_comes_first (b : Backlog α) : b.wire <+: b.accepted := List.prefix_append _ _

theorem wire_all {b : Backlog α} : b.wire = b.accepted ↔ b.waiting = [] := by
  unfold accepted
  exact List.self_eq_append_right

end Backlog

variable {σ ε α : Type} {step : σ → ε → Option σ} {backlog : σ → Backlog α} {adds : ε → List α}
  {invariant : σ → Prop}

/-- Each step accepts what its event adds, and puts some of what waits on the wire. -/
def Behaves (invariant : σ → Prop) (step : σ → ε → Option σ) (backlog : σ → Backlog α)
    (adds : ε → List α) : Prop :=
  ∀ s e t, invariant s → step s e = some t →
    invariant t ∧ ∃ count, backlog t = ((backlog s).push (adds e)).advance count

/-- Along a run exactly what its events add is accepted, in their order. -/
theorem Behaves.accepted (behaves : Behaves invariant step backlog adds) {s t : σ}
    {events : List ε} (start : invariant s) (run : exec step s events = some t) :
    (backlog t).accepted = (backlog s).accepted ++ events.flatMap adds := by
  induction events generalizing s with
  | nil =>
    cases run
    rw [List.flatMap_nil, List.append_nil]
  | cons e events ih =>
    obtain ⟨mid,first,rest⟩ := exec_cons.mp run
    obtain ⟨later,count,moved⟩ := behaves s e mid start first
    rw [ih later rest, moved, Backlog.accepted_advance, Backlog.accepted_push, List.flatMap_cons,
      List.append_assoc]

end WireOrder
