import Mathlib.Data.List.Infix
import Mathlib.Data.List.Flatten

/-!
Parsers that are handed a byte stream in pieces. A parser keeps what it cannot
use yet, and after each piece takes turns until it has to wait. If more input
changes neither a turn already taken nor what a wait leaves undone, then the way
the stream is cut does not matter. The search for a marker is such a parser's
usual first move.
-/
namespace StreamDrain

/-- One turn of the loop: wait for more, or go on after handing some results out. -/
inductive Pass (S Out : Type) where
  | wait : S → Pass S Out
  | turn : S → List Out → Pass S Out
  deriving DecidableEq

structure Machine (S Byte Out : Type) where
  step : S → Pass S Out
  push : S → List Byte → S
  size : S → Nat
  push_nil : ∀ s, push s [] = s
  push_push : ∀ s a b, push (push s a) b = push s (a ++ b)
  shrinks : ∀ s s' out, step s = .turn s' out → size s' < size s
  turn_push : ∀ s s' out x, step s = .turn s' out → step (push s x) = .turn (push s' x) out
  wait_push : ∀ s s' x, step s = .wait s' → step (push s' x) = step (push s x)

section Runs

variable {S Byte Out : Type}

/-- The loop, for at most this many turns. -/
def loop (step : S → Pass S Out) : Nat → S → List Out × S
  | 0, s => ([], s)
  | fuel + 1, s =>
    match step s with
    | .wait s' => ([], s')
    | .turn s' out => (out ++ (loop step fuel s').1, (loop step fuel s').2)

namespace Machine

variable (M : Machine S Byte Out)

def drain (s : S) : List Out × S := loop M.step (M.size s + 1) s

def feed (s : S) (piece : List Byte) : List Out × S := M.drain (M.push s piece)

def feedAll (s : S) : List (List Byte) → List Out × S
  | [] => ([], s)
  | piece :: pieces =>
    ((M.feed s piece).1 ++ (feedAll (M.feed s piece).2 pieces).1,
      (feedAll (M.feed s piece).2 pieces).2)

variable {M}

theorem loop_fuel {fuel fuel' : Nat} {s : S} (more : M.size s < fuel) (more' : M.size s < fuel') :
    loop M.step fuel s = loop M.step fuel' s := by
  induction fuel generalizing fuel' s with
  | zero => omega
  | succ k ih =>
    obtain ⟨k',rfl⟩ : ∃ k', fuel' = k' + 1 := ⟨fuel' - 1, by omega⟩
    rw [loop, loop]
    cases go : M.step s with
    | wait s' => rfl
    | turn s' out =>
      have less := M.shrinks s s' out go
      have same : loop M.step k s' = loop M.step k' s' := ih (by omega) (by omega)
      simp only [same]

theorem loop_enough {fuel : Nat} {s : S} (enough : M.size s < fuel) :
    loop M.step fuel s = M.drain s :=
  loop_fuel enough (Nat.lt_succ_self _)

/-- The loop ends by itself: no bound on the turns shows in what it does. -/
theorem drain_eq (s : S) :
    M.drain s = match M.step s with
      | .wait s' => ([], s')
      | .turn s' out => (out ++ (M.drain s').1, (M.drain s').2) := by
  rw [drain, loop]
  cases go : M.step s with
  | wait s' => rfl
  | turn s' out =>
    have same := loop_enough (M.shrinks s s' out go)
    simp only [same]

theorem drain_wait {s s' : S} (go : M.step s = .wait s') : M.drain s = ([], s') := by
  rw [drain_eq, go]

theorem drain_turn {s s' : S} {out : List Out} (go : M.step s = .turn s' out) :
    M.drain s = (out ++ (M.drain s').1, (M.drain s').2) := by
  rw [drain_eq, go]

theorem drain_congr {s t : S} (same : M.step s = M.step t) : M.drain s = M.drain t := by
  rw [drain_eq, drain_eq t, same]

/-- What is fed later can as well be there from the start. -/
theorem drain_push (s : S) (x : List Byte) :
    M.drain (M.push s x) = ((M.drain s).1 ++ (M.drain (M.push (M.drain s).2 x)).1,
      (M.drain (M.push (M.drain s).2 x)).2) := by
  induction n : M.size s using Nat.strongRecOn generalizing s with
  | ind n ih =>
    cases go : M.step s with
    | wait s' =>
      rw [drain_wait go, drain_congr (M.wait_push s s' x go)]
      rfl
    | turn s' out =>
      have less := M.shrinks s s' out go
      have later := ih (M.size s') (by omega) s' rfl
      rw [drain_turn go, drain_turn (M.turn_push s s' out x go), later, List.append_assoc]

/-- A state that has nothing to do before more comes. -/
def Settled (M : Machine S Byte Out) (s : S) : Prop := M.step s = .wait s

theorem drain_settled (s : S) : Settled M (M.drain s).2 := by
  induction n : M.size s using Nat.strongRecOn generalizing s with
  | ind n ih =>
    cases go : M.step s with
    | wait s' =>
      have again := M.wait_push s s' [] go
      rw [M.push_nil, M.push_nil, go] at again
      rw [drain_wait go]
      exact again
    | turn s' out =>
      have less := M.shrinks s s' out go
      rw [drain_turn go]
      exact ih (M.size s') (by omega) s' rfl

/-- Any pieces give what the whole stream gives at once. -/
theorem feedAll_flatten {s : S} (settled : Settled M s) (pieces : List (List Byte)) :
    M.feedAll s pieces = M.feed s pieces.flatten := by
  induction pieces generalizing s with
  | nil =>
    rw [feedAll, feed, List.flatten_nil, M.push_nil, drain_wait settled]
  | cons piece pieces ih =>
    have later := ih (drain_settled (M.push s piece))
    have whole := drain_push (M := M) (M.push s piece) pieces.flatten
    rw [M.push_push] at whole
    rw [feedAll, List.flatten_cons, feed, feed, later, feed, whole]

end Machine

end Runs

section Search

variable {α : Type} {marker : List α}

def At (marker bytes : List α) (i : Nat) : Prop := marker <+: bytes.drop i

theorem at_fits {bytes : List α} {i : Nat} (nonempty : marker ≠ []) (here : At marker bytes i) :
    i + marker.length ≤ bytes.length := by
  have le := here.length_le
  have positive := List.length_pos_iff.mpr nonempty
  rw [List.length_drop] at le
  omega

theorem at_append {bytes x : List α} {i : Nat} (room : i + marker.length ≤ bytes.length) :
    At marker (bytes ++ x) i ↔ At marker bytes i := by
  rw [At, At, List.drop_append_of_le_length (by omega)]
  constructor
  · intro here
    exact List.prefix_of_prefix_length_le here (List.prefix_append _ x)
      (by rw [List.length_drop]; omega)
  · intro here
    exact here.trans (List.prefix_append _ x)

theorem at_drop {bytes : List α} (i k : Nat) :
    At marker (bytes.drop k) i ↔ At marker bytes (k + i) := by
  rw [At, At, List.drop_drop]

variable [DecidableEq α]

/-- The first place where the marker starts. -/
def firstIndex (marker bytes : List α) : Option Nat :=
  if bytes.length < marker.length then none
  else (List.range (bytes.length - marker.length + 1)).find?
    (fun i => marker.isPrefixOf (bytes.drop i))

theorem firstIndex_some {bytes : List α} (nonempty : marker ≠ []) {i : Nat} :
    firstIndex marker bytes = some i ↔
      At marker bytes i ∧ ∀ j < i, ¬ At marker bytes j := by
  unfold firstIndex
  constructor
  · intro found
    split at found
    · cases found
    · obtain ⟨here,_,earlier⟩ := List.find?_range_eq_some.mp found
      refine ⟨List.isPrefixOf_iff_prefix.mp here,?_⟩
      intro j before start
      have missed := earlier j before
      rw [List.isPrefixOf_iff_prefix.mpr start] at missed
      cases missed
  · rintro ⟨here,earlier⟩
    have fits := at_fits nonempty here
    rw [if_neg (by omega), List.find?_range_eq_some]
    refine ⟨List.isPrefixOf_iff_prefix.mpr here,by rw [List.mem_range]; omega,?_⟩
    intro j before
    rw [Bool.not_eq_true', ← Bool.not_eq_true, List.isPrefixOf_iff_prefix]
    exact earlier j before

theorem firstIndex_none {bytes : List α} (nonempty : marker ≠ []) :
    firstIndex marker bytes = none ↔ ∀ i, ¬ At marker bytes i := by
  constructor
  · intro missing i here
    have fits := at_fits nonempty here
    rw [firstIndex, if_neg (by omega), List.find?_eq_none] at missing
    exact missing i (by rw [List.mem_range]; omega) (List.isPrefixOf_iff_prefix.mpr here)
  · intro nowhere
    cases found : firstIndex marker bytes with
    | none => rfl
    | some i => exact absurd ((firstIndex_some nonempty).mp found).1 (nowhere i)

/-- Bytes before which the marker does not start can be dropped first. -/
theorem firstIndex_drop {bytes : List α} (nonempty : marker ≠ []) {k : Nat}
    (clear : ∀ j < k, ¬ At marker bytes j) :
    firstIndex marker bytes = (firstIndex marker (bytes.drop k)).map (k + ·) := by
  cases found : firstIndex marker (bytes.drop k) with
  | none =>
    rw [firstIndex_none nonempty] at found
    rw [Option.map_none, firstIndex_none nonempty]
    intro i here
    by_cases before : i < k
    · exact clear i before here
    · have later := found (i - k)
      rw [at_drop, Nat.add_sub_cancel' (Nat.not_lt.mp before)] at later
      exact later here
  | some i =>
    obtain ⟨here,earlier⟩ := (firstIndex_some nonempty).mp found
    rw [Option.map_some, firstIndex_some nonempty]
    refine ⟨(at_drop i k).mp here,?_⟩
    intro j before
    by_cases start : j < k
    · exact clear j start
    · have later := earlier (j - k) (by omega)
      rw [at_drop, Nat.add_sub_cancel' (Nat.not_lt.mp start)] at later
      exact later

theorem firstIndex_append {bytes x : List α} (nonempty : marker ≠ []) {i : Nat}
    (found : firstIndex marker bytes = some i) : firstIndex marker (bytes ++ x) = some i := by
  obtain ⟨here,earlier⟩ := (firstIndex_some nonempty).mp found
  have fits := at_fits nonempty here
  rw [firstIndex_some nonempty]
  refine ⟨(at_append fits).mpr here,?_⟩
  intro j before
  rw [at_append (by omega)]
  exact earlier j before

end Search

end StreamDrain
