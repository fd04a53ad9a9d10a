import AltMessenger.BasePointDoublings
import AltMessenger.BitcoinKeys
import AltMessenger.FiniteFieldInteger

/-!
Points of secp256k1 and their multiples, as `ECPoint` and `ECurve` compute them: sums of
Jacobian points with points whose `Z` is one, doublings in affine coordinates, and for the base
point a table of its doublings. The curve is always secp256k1, whose `a` is zero.
-/
namespace ECurve
open SwiftRuntime FiniteFieldInteger
open BitcoinKeys (fieldPrime)

abbrev Coordinate := FiniteFieldInteger.FFInt fieldPrime

theorem zero_below : 0 < fieldPrime := by decide
theorem one_below : 1 < fieldPrime := by decide
theorem two_below : 2 < fieldPrime := by decide
theorem three_below : 3 < fieldPrime := by decide
theorem four_below : 4 < fieldPrime := by decide
theorem eight_below : 8 < fieldPrime := by decide

/-- A small number in the field. -/
def small (value : Nat) (below : value < fieldPrime := by
    first | exact zero_below | exact one_below | exact two_below | exact three_below
          | exact four_below | exact eight_below | decide) : Coordinate := ⟨value,below⟩

inductive ECPoint where
  | affine (x y : Option Coordinate)
  | jacobian (X Y Z : Coordinate)
  deriving DecidableEq

namespace ECPoint

def infinity : ECPoint := .affine none none

def convertToJacobian : ECPoint → Except Trap ECPoint
  | .affine (some x) y => do
    let y ← unwrap y
    pure (.jacobian x y (small 1))
  | .affine none _ => pure (.jacobian (small 1) (small 1) (small 0))
  | .jacobian _ _ _ => .error .assertion

def convertToAffine : ECPoint → Except Trap ECPoint
  | .jacobian X Y Z =>
    if Z = small 1 then pure (.affine (some X) (some Y))
    else
      let Z2 := Z * Z
      let Z3 := Z2 * Z
      pure (.affine (some (X / Z2)) (some (Y / Z3)))
  | .affine _ _ => .error .assertion

def isInfinity : ECPoint → Bool
  | .affine x y => x = none ∧ y = none
  | .jacobian X Y Z => X = small 1 ∧ Y = small 1 ∧ Z = small 0

/-- `==`, which is not there for two systems of coordinates. -/
def equal : ECPoint → ECPoint → Except Trap Bool
  | .affine x1 y1, .affine x2 y2 => pure (decide (x1 = x2 ∧ y1 = y2))
  | .jacobian X1 Y1 Z1, .jacobian X2 Y2 Z2 => pure (decide (X1 = X2 ∧ Y1 = Y2 ∧ Z1 = Z2))
  | _, _ => .error .assertion

/-- `assert` -/
def assert (condition : Bool) : Except Trap Unit :=
  if condition then pure () else .error .assertion

def double : ECPoint → Except Trap ECPoint
  | .affine x y => do
    assert x.isSome
    let X1 ← unwrap x
    assert y.isSome
    let Y1 ← unwrap y
    let common := (small 3 * X1 * X1 + small 0) / (small 2 * Y1)
    let X3 := common * common - small 2 * X1
    let Y3 := common * (X1 - X3) - Y1
    pure (.affine (some X3) (some Y3))
  | .jacobian X1 Y1 Z1 => do
    assert (Y1 ≠ -Y1)
    let X12 := X1 * X1
    let Y12 := Y1 * Y1
    let Y14 := Y12 * Y12
    -- `a` is zero
    let D := small 3 * X12
    let X3 := D * D - small 8 * X1 * Y12
    let Y3 := D * (small 4 * X1 * Y12 - X3) - small 8 * Y14
    let Z3 := small 2 * Y1 * Z1
    pure (.jacobian X3 Y3 Z3)

/-- `2 * point`, where the number is an `Int`. -/
def twice (rhs : ECPoint) : Except Trap ECPoint :=
  if rhs.isInfinity then pure rhs else rhs.double

/-- The formulas for `+`, once neither side is infinite. -/
def addFinite : ECPoint → ECPoint → Except Trap ECPoint
  | .affine lhsX lhsY, .affine rhsX rhsY => do
    assert lhsX.isSome
    let X1 ← unwrap lhsX
    assert lhsY.isSome
    let Y1 ← unwrap lhsY
    assert rhsX.isSome
    let X2 ← unwrap rhsX
    assert rhsY.isSome
    let Y2 ← unwrap rhsY
    if X1 = X2 ∧ Y1 = Y2 then twice (.affine lhsX lhsY)
    else if X1 = X2 ∧ Y1 + Y2 = small 0 then pure infinity
    else
      let common := (Y2 - Y1) / (X2 - X1)
      let X3 := common * common - X1 - X2
      let Y3 := common * (X1 - X3) - Y1
      pure (.affine (some X3) (some Y3))
  | .jacobian X1 Y1 Z1, .jacobian X2 Y2 Z2 => do
    assert (Z1 ≠ small 0)
    assert (Z2 = small 1)
    assert (¬ (X1 = X2 ∧ Y1 = Y2 ∧ Z1 = Z2))
    assert (¬ (X1 = X2 ∧ Y1 = -Y2 ∧ Z1 = Z2))
    let A := Z1 * Z1
    let B := Z1 * A
    let C := X2 * A
    let D := Y2 * B
    let E := C - X1
    let F := D - Y1
    let G := E * E
    let H := G * E
    let I := X1 * G
    let X3 := F * F - H - small 2 * I
    let Y3 := F * (I - X3) - Y1 * H
    let Z3 := Z1 * E
    pure (.jacobian X3 Y3 Z3)
  | _, _ => .error .assertion

/-- `lhs + rhs` -/
def add (lhs rhs : ECPoint) : Except Trap ECPoint :=
  if lhs.isInfinity then pure rhs
  else if rhs.isInfinity then pure lhs
  else addFinite lhs rhs

end ECPoint

theorem gX_below :
    0x79be667ef9dcbbac55a06295ce870b07029bfcdb2dce28d959f2815b16f81798 < fieldPrime := by decide

theorem gY_below :
    0x483ada7726a3c4655da4fbfc0e1108a8fd17b448a68554199c47d08ffb10d4b8 < fieldPrime := by decide

/-- The base point. -/
def G : ECPoint :=
  .affine
    (some ⟨0x79be667ef9dcbbac55a06295ce870b07029bfcdb2dce28d959f2815b16f81798,gX_below⟩)
    (some ⟨0x483ada7726a3c4655da4fbfc0e1108a8fd17b448a68554199c47d08ffb10d4b8,gY_below⟩)

def powDouble (n : Nat) : Nat := n * n

/-- The loop of `highestBitOfUInt256`, up to its `break`. -/
def highestBitLoop (e : Nat) : List Nat → Nat → Nat
  | [], bitLength => bitLength
  | i :: is, bitLength =>
    if powDouble (31 - i) &&& e ≠ 0 then bitLength else highestBitLoop e is (bitLength - 1)

/-- The words are of 64 bits; those that are not there read as zero. -/
def highestBitOfUInt256 (u : Nat) : Nat :=
  let e := u / 2 ^ 192 % 2 ^ 64 / 2 ^ 32
  if e = 0 then 256 - 32 else highestBitLoop e (List.range 31) 256

def rapseByPositivePower (radix power : Nat) : Nat :=
  (List.range power).foldl (fun res _ => res * radix) 1

/-- The number whose one bit this is, of 256, counted from the highest. -/
def singleBitAt (position : Nat) : Nat :=
  if position = 0 then 2147483648 <<< 32 <<< 192
  else if position = 255 then 1
  else
    let index := 7 - position / 32
    let bit := 31 - position % 32
    let res := rapseByPositivePower 2 bit
    (if index % 2 = 1 then res <<< 32 else res) <<< (64 * (index / 2))

/-- Eight words of 32 bits, the highest first. -/
def bigUIntFromUInt32Array (nums : List Nat) : Except Trap Nat := do
  ECPoint.assert (nums.length = 8)
  pure (nums.foldl (fun value num => value <<< 32 + num) 0)

def importLookupTable : Except Trap (List ECPoint) :=
  BasePointDoublings.plist.mapM fun coordinates => do
    let x ← bigUIntFromUInt32Array coordinates.1
    let X ← int fieldPrime x
    let y ← bigUIntFromUInt32Array coordinates.2
    let Y ← int fieldPrime y
    pure (.jacobian X Y (small 1))

/-- The increment is added where the number has its bit. -/
def addSelected (lhs i : Nat) (tally increment : ECPoint) : Except Trap ECPoint :=
  if singleBitAt (255 - i) &&& lhs ≠ 0 then tally.add increment else pure tally

/-- A turn of the loop over the table. -/
def lookupTurn (lhs : Nat) (state : ECPoint × Nat) (increment : ECPoint) :
    Except Trap (ECPoint × Nat) := do
  let tally ← addSelected lhs state.2 state.1 increment
  pure (tally, state.2 + 1)

def addLookup (lhs : Nat) (lookup : List ECPoint) (tally : ECPoint) : Except Trap ECPoint := do
  let state ← lookup.foldlM (lookupTurn lhs) (tally, 0)
  pure state.1

/-- A turn of the loop that doubles the increment as it goes. -/
def doublingTurn (lhs : Nat) (state : ECPoint × ECPoint) (i : Nat) :
    Except Trap (ECPoint × ECPoint) := do
  let tally ← addSelected lhs i state.1 state.2
  let increment ← state.2.convertToAffine
  let increment ← increment.twice
  let increment ← increment.convertToJacobian
  pure (tally, increment)

def addDoublings (lhs lhsBitLength : Nat) (tally increment : ECPoint) : Except Trap ECPoint := do
  let state ← (List.range lhsBitLength).foldlM (doublingTurn lhs) (tally, increment)
  pure state.1

/-- `lhs * rhs` -/
def mul (lhs : Nat) (rhs : ECPoint) : Except Trap ECPoint :=
  if rhs.isInfinity then pure rhs
  else if lhs = 0 then pure .infinity
  else if lhs = 2 then rhs.double
  else do
    let tally ← ECPoint.infinity.convertToJacobian
    let base ← rhs.equal G
    let tally ← if base then do
        let lookup ← importLookupTable
        addLookup lhs lookup tally
      else do
        let increment ← rhs.convertToJacobian
        addDoublings lhs (highestBitOfUInt256 lhs) tally increment
    tally.convertToAffine

end ECurve
