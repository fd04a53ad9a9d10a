import Mathlib.Data.List.Range
import AltMessenger.LittleEndian

/-!
Deltas between two byte strings, as bsdiff has them. A control value takes a piece
of the difference, which is added to the old bytes at a place that moves, and a
piece of what is new.
-/
namespace BinaryDelta
open LittleEndian

/-- Eight bytes, with the sign in the last bit. -/
def offset (bytes : List UInt8) : Int :=
  if ofBytes bytes < 2 ^ 63 then ofBytes bytes else -(ofBytes bytes - 2 ^ 63)

structure Control where
  diff : Int
  extra : Int
  seek : Int
  deriving DecidableEq, Repr

def control (bytes : List UInt8) : Control where
  diff := offset (bytes.take 8)
  extra := offset ((bytes.drop 8).take 8)
  seek := offset ((bytes.drop 16).take 8)

/-- So many controls from the front. -/
def controls : Nat → List UInt8 → List Control
  | 0, _ => []
  | count + 1, bytes => control bytes :: controls count (bytes.drop 24)

/-- What is made, where the old bytes are, and what is left of both pieces. -/
structure Position where
  made : List UInt8
  oldPos : Int
  diff : List UInt8
  extra : List UInt8
  deriving DecidableEq, Repr

variable (old : List UInt8)

/-- There is nothing to add outside of the old bytes. -/
def oldByte (place : Int) : UInt8 := if 0 ≤ place then old.getD place.toNat 0 else 0

def addOld (place : Int) (bytes : List UInt8) : List UInt8 :=
  bytes.mapIdx fun i byte => byte + oldByte old (place + i)

def Position.takeDiff (p : Position) (length : Int) : Position where
  made := p.made ++ addOld old p.oldPos (p.diff.take length.toNat)
  oldPos := p.oldPos + length
  diff := p.diff.drop length.toNat
  extra := p.extra

def Position.takeExtra (p : Position) (length seek : Int) : Position where
  made := p.made ++ p.extra.take length.toNat
  oldPos := p.oldPos + seek
  diff := p.diff
  extra := p.extra.drop length.toNat

def Position.apply (p : Position) (c : Control) : Position :=
  (p.takeDiff old c.diff).takeExtra c.extra c.seek

def start (diff extra : List UInt8) : Position where
  made := []
  oldPos := 0
  diff := diff
  extra := extra

def applyDelta (cs : List Control) (diff extra : List UInt8) : List UInt8 :=
  (cs.foldl (Position.apply old) (start diff extra)).made

/-- Both pieces are there, and end inside of what is to be made. -/
structure Applies (size : Nat) (p : Position) (c : Control) : Prop where
  diff_length : 0 ≤ c.diff
  diff_inside : p.made.length + c.diff ≤ size
  diff_there : c.diff ≤ p.diff.length
  extra_length : 0 ≤ c.extra
  extra_inside : p.made.length + c.diff + c.extra ≤ size
  extra_there : c.extra ≤ p.extra.length

def AppliesAll (size : Nat) : Position → List Control → Prop
  | _, [] => True
  | p, c :: cs => Applies size p c ∧ AppliesAll size (p.apply old c) cs

/-- Where the two pieces come to lie, by the first place and the length. -/
def segment (p : Position) (c : Control) : List (Nat × Nat) :=
  [(p.made.length,c.diff.toNat),(p.made.length + c.diff.toNat,c.extra.toNat)]

def segments : Position → List Control → List (Nat × Nat)
  | _, [] => []
  | p, c :: cs => segment p c ++ segments (p.apply old c) cs

def places (segments : List (Nat × Nat)) : List Nat :=
  segments.flatMap fun segment => List.range' segment.1 segment.2

variable {old}

@[simp] theorem addOld_length (place : Int) (bytes : List UInt8) :
    (addOld old place bytes).length = bytes.length := by
  simp [addOld]

theorem addOld_cons (place : Int) (byte : UInt8) (bytes : List UInt8) :
    addOld old place (byte :: bytes) =
      (byte + oldByte old place) :: addOld old (place + 1) bytes := by
  simp [addOld, List.mapIdx_cons, Int.add_comm, Int.add_left_comm]

theorem apply_length {size : Nat} {p : Position} {c : Control} (applies : Applies size p c) :
    (p.apply old c).made.length = p.made.length + c.diff.toNat + c.extra.toNat := by
  have diff := applies.diff_there
  have extra := applies.extra_there
  simp [Position.apply, Position.takeDiff, Position.takeExtra]
  omega

theorem places_append (first second : List (Nat × Nat)) :
    places (first ++ second) = places first ++ places second :=
  List.flatMap_append

theorem places_segment {size : Nat} {p : Position} {c : Control} (applies : Applies size p c) :
    places (segment p c) =
      List.range' p.made.length ((p.apply old c).made.length - p.made.length) := by
  have length : (p.apply old c).made.length = _ := apply_length applies
  have both : (p.apply old c).made.length - p.made.length = c.diff.toNat + c.extra.toNat := by
    omega
  rw [both, ← List.range'_append_1]
  simp [places, segment]

theorem made_grows {size : Nat} {p : Position} {cs : List Control}
    (all : AppliesAll old size p cs) :
    p.made.length ≤ (cs.foldl (Position.apply old) p).made.length := by
  induction cs generalizing p with
  | nil => exact Nat.le_refl _
  | cons c cs ih =>
    have first : (p.apply old c).made.length = _ := apply_length all.1
    have rest := ih all.2
    rw [List.foldl_cons]
    omega

/-- The segments lie one after another, without a gap. -/
theorem segments_cover {size : Nat} {p : Position} {cs : List Control}
    (all : AppliesAll old size p cs) :
    places (segments old p cs) = List.range' p.made.length
      ((cs.foldl (Position.apply old) p).made.length - p.made.length) := by
  induction cs generalizing p with
  | nil => simp [segments, places]
  | cons c cs ih =>
    have grows := made_grows all.2
    have first : (p.apply old c).made.length = _ := apply_length all.1
    have sum : ((c :: cs).foldl (Position.apply old) p).made.length - p.made.length =
        ((p.apply old c).made.length - p.made.length) +
          ((cs.foldl (Position.apply old) (p.apply old c)).made.length -
            (p.apply old c).made.length) := by
      rw [List.foldl_cons]
      omega
    have next : p.made.length + ((p.apply old c).made.length - p.made.length) =
        (p.apply old c).made.length := by omega
    rw [segments, places_append, places_segment all.1, ih all.2, sum, ← List.range'_append_1, next]

end BinaryDelta
