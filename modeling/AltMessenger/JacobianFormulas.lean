import AltMessenger.SignatureCheck

/-!
The sums and doublings of `ECPoint` over any prime field and for any `a`, each small number of
the formulas made by `field.int` with its assertion, and what they mean for the group.
-/
namespace JacobianFormulas
open SwiftRuntime FiniteFieldInteger ShortCurve
open ECurve (ECPoint Coordinate small)
open ECurve.ECPoint (assert)
variable {p : Nat}

inductive CurvePoint (p : Nat) where
  | affine (x y : Option (FFInt p))
  | jacobian (X Y Z : FFInt p)
  deriving DecidableEq

/-- `Int * FFInt` -/
def times (lhs : Nat) (rhs : FFInt p) : Except Trap (FFInt p) := do
  let lhs ← int p lhs
  pure (lhs * rhs)

namespace CurvePoint

def infinity : CurvePoint p := .affine none none

def isInfinity : CurvePoint p → Except Trap Bool
  | .affine x y => pure (decide (x = none ∧ y = none))
  | .jacobian X Y Z => do
    let one ← int p 1
    let zero ← int p 0
    pure (decide (X = one ∧ Y = one ∧ Z = zero))

def convertToAffine : CurvePoint p → Except Trap (CurvePoint p)
  | .jacobian X Y Z => do
    let one ← int p 1
    if Z = one then pure (.affine (some X) (some Y))
    else
      let Z2 := Z * Z
      let Z3 := Z2 * Z
      pure (.affine (some (X / Z2)) (some (Y / Z3)))
  | .affine _ _ => .error .assertion

/-- The factor of the tangent; without an `a` its product is left out. -/
def tangent (a X1 Z1 : FFInt p) : Except Trap (FFInt p) := do
  let X12 := X1 * X1
  let zero ← int p 0
  if a = zero then times 3 X12
  else do
    let Z12 := Z1 * Z1
    let Z14 := Z12 * Z12
    let triple ← times 3 X12
    pure (triple + a * Z14)

/-- `double`, on a curve with this `a`. -/
def double (a : Nat) (point : CurvePoint p) : Except Trap (CurvePoint p) := do
  let a ← int p a
  match point with
  | .affine x y => do
    assert x.isSome
    let X1 ← unwrap x
    assert y.isSome
    let Y1 ← unwrap y
    let triple ← times 3 X1
    let twice ← times 2 Y1
    let common := (triple * X1 + a) / twice
    let twice ← times 2 X1
    let X3 := common * common - twice
    let Y3 := common * (X1 - X3) - Y1
    pure (.affine (some X3) (some Y3))
  | .jacobian X1 Y1 Z1 => do
    assert (Y1 ≠ -Y1)
    let Y12 := Y1 * Y1
    let Y14 := Y12 * Y12
    let D ← tangent a X1 Z1
    let eightfold ← times 8 X1
    let X3 := D * D - eightfold * Y12
    let fourfold ← times 4 X1
    let rest ← times 8 Y14
    let Y3 := D * (fourfold * Y12 - X3) - rest
    let twice ← times 2 Y1
    let Z3 := twice * Z1
    pure (.jacobian X3 Y3 Z3)

/-- `2 * point` -/
def twice (a : Nat) (rhs : CurvePoint p) : Except Trap (CurvePoint p) := do
  let infinite ← rhs.isInfinity
  if infinite then pure rhs else double a rhs

/-- The formulas for `+`, once neither side is infinite. -/
def addFinite (a : Nat) : CurvePoint p → CurvePoint p → Except Trap (CurvePoint p)
  | .affine lhsX lhsY, .affine rhsX rhsY => do
    assert lhsX.isSome
    let X1 ← unwrap lhsX
    assert lhsY.isSome
    let Y1 ← unwrap lhsY
    assert rhsX.isSome
    let X2 ← unwrap rhsX
    assert rhsY.isSome
    let Y2 ← unwrap rhsY
    let zero ← int p 0
    if X1 = X2 ∧ Y1 = Y2 then twice a (.affine lhsX lhsY)
    else if X1 = X2 ∧ Y1 + Y2 = zero then pure infinity
    else
      let common := (Y2 - Y1) / (X2 - X1)
      let X3 := common * common - X1 - X2
      let Y3 := common * (X1 - X3) - Y1
      pure (.affine (some X3) (some Y3))
  | .jacobian X1 Y1 Z1, .jacobian X2 Y2 Z2 => do
    let zero ← int p 0
    assert (Z1 ≠ zero)
    let one ← int p 1
    assert (Z2 = one)
    assert (¬ (X1 = X2 ∧ Y1 = Y2 ∧ Z1 = Z2))
    assert (¬ (X1 = X2 ∧ Y1 = -Y2 ∧ Z1 = Z2))
    let A := Z1 * Z1
    let B := Z1 * A
    let C := X2 * A
    let D := Y2 * B
    let E := C - X1
    let F := D - Y1
    let G := E * E
    let H := G * E
    let I := X1 * G
    let twice ← times 2 I
    let X3 := F * F - H - twice
    let Y3 := F * (I - X3) - Y1 * H
    let Z3 := Z1 * E
    pure (.jacobian X3 Y3 Z3)
  | _, _ => .error .assertion

/-- `lhs + rhs` -/
def add (a : Nat) (lhs rhs : CurvePoint p) : Except Trap (CurvePoint p) := do
  let infinite ← lhs.isInfinity
  if infinite then pure rhs
  else do
    let infinite ← rhs.isInfinity
    if infinite then pure lhs else addFinite a lhs rhs

end CurvePoint

theorem assert_ran {condition : Bool} {u : Unit} : assert condition = .ok u ↔ condition = true := by
  rw [assert]
  split_ifs with passes
  · exact iff_of_true rfl passes
  · constructor
    · intro run
      cases run
    · intro holds
      exact absurd holds passes

theorem int_toZMod {number : Nat} {x : FFInt p} (run : int p number = .ok x) :
    x.toZMod = number := by
  rw [int_iff] at run
  rw [FFInt.toZMod, ← run]

theorem times_toZMod {number : Nat} {x y : FFInt p} (run : times number x = .ok y) :
    y.toZMod = number * x.toZMod := by
  obtain ⟨factor,made,run⟩ := bind_ran.mp run
  cases run
  rw [FFInt.toZMod_mul, int_toZMod made]

theorem toZMod_of_zero {x : FFInt p} (zero : x.value = 0) : x.toZMod = 0 := by
  rw [FFInt.toZMod, zero, Nat.cast_zero]

section Prime
variable [Fact p.Prime] {a : Nat} {b : ZMod p}

/-- What a `CurvePoint` stands for. -/
def Holds : CurvePoint p → (curve (a : ZMod p) b).Point → Prop
  | .affine none none, P => P = 0
  | .affine (some x) (some y), P => IsAt P x.toZMod y.toZMod
  | .affine _ _, _ => False
  | .jacobian X Y Z, P => (X.value = 1 ∧ Y.value = 1 ∧ Z.value = 0 ∧ P = 0) ∨
      IsJacobian P X.toZMod Y.toZMod Z.toZMod

/-- Converted to affine coordinates it stands for this point. -/
def Converts (result : CurvePoint p) (P : (curve (a : ZMod p) b).Point) : Prop :=
  ∃ x y, result.convertToAffine = .ok (.affine x y) ∧ Holds (.affine x y) P

variable {P Q : (curve (a : ZMod p) b).Point} {X Y Z X₁ Y₁ Z₁ X₂ Y₂ Z₂ : FFInt p}
  {result : CurvePoint p}

theorem int_one : int p 1 = .ok ⟨1,(Fact.out : p.Prime).one_lt⟩ := int_iff.mpr rfl

theorem int_zero : int p 0 = .ok ⟨0,(Fact.out : p.Prime).pos⟩ := int_iff.mpr rfl

/-- Also where `Z` is zero and the quotients come out as zero. -/
theorem converts_iff : Converts (.jacobian X Y Z) P ↔
    IsAt P (X.toZMod / Z.toZMod ^ 2) (Y.toZMod / Z.toZMod ^ 3) := by
  have converted : ∃ x y, (CurvePoint.jacobian X Y Z).convertToAffine =
      .ok (.affine (some x) (some y)) ∧ x.toZMod = X.toZMod / Z.toZMod ^ 2 ∧
        y.toZMod = Y.toZMod / Z.toZMod ^ 3 := by
    rw [CurvePoint.convertToAffine, bind_ready int_one]
    split_ifs with unit
    · have one : Z.toZMod = 1 := by
        rw [unit]
        exact Nat.cast_one
      refine ⟨X,Y,rfl,?_,?_⟩
      · rw [one, one_pow, div_one]
      · rw [one, one_pow, div_one]
    · refine ⟨_,_,rfl,?_,?_⟩
      · rw [FFInt.toZMod_div, FFInt.toZMod_mul, sq]
      · rw [FFInt.toZMod_div, FFInt.toZMod_mul, FFInt.toZMod_mul, pow_succ, sq]
  obtain ⟨x,y,run,x_same,y_same⟩ := converted
  rw [← x_same, ← y_same]
  constructor
  · rintro ⟨x',y',run',holds⟩
    cases run.symm.trans run'
    exact holds
  · intro at_xy
    exact ⟨some x,some y,run,at_xy⟩

theorem converts_finite (finite : IsJacobian Q X.toZMod Y.toZMod Z.toZMod) :
    Converts (.jacobian X Y Z) P ↔ P = Q := by
  rw [converts_iff]
  constructor
  · intro at_xy
    exact at_xy.point_unique finite.2
  · rintro rfl
    exact finite.2

/-- A triple with `Z = 0` is converted to the origin. -/
theorem converts_zero (zero : Z.toZMod = 0) :
    Converts (.jacobian X Y Z) P ↔ IsAt P 0 0 := by
  rw [converts_iff, zero, zero_pow two_ne_zero, zero_pow three_ne_zero, div_zero, div_zero]

theorem isInfinity_jacobian : (CurvePoint.jacobian X Y Z).isInfinity =
    .ok (decide (X.value = 1 ∧ Y.value = 1 ∧ Z.value = 0)) := by
  have same (x : FFInt p) {number : Nat} (small : number < p) :
      x = ⟨number,small⟩ ↔ x.value = number := by
    constructor
    · rintro rfl
      rfl
    · rintro rfl
      rfl
  rw [CurvePoint.isInfinity, bind_ready int_one, bind_ready int_zero]
  simp only [same]
  rfl

theorem isInfinity_finite (finite : IsJacobian P X.toZMod Y.toZMod Z.toZMod) :
    (CurvePoint.jacobian X Y Z).isInfinity = .ok false := by
  have nonzero : ¬ (X.value = 1 ∧ Y.value = 1 ∧ Z.value = 0) := by
    rintro ⟨_,_,zero⟩
    exact finite.1 (toZMod_of_zero zero)
  rw [isInfinity_jacobian, decide_eq_false nonzero]

theorem ne_zero_of_finite (finite : IsJacobian P X.toZMod Y.toZMod Z.toZMod) : P ≠ 0 :=
  finite.2.ne_zero

/-- What the formulas for the sum compute, once the assertions have passed. -/
theorem addFinite_coordinates {a : Nat}
    (run : CurvePoint.addFinite a (.jacobian X₁ Y₁ Z₁) (.jacobian X₂ Y₂ Z₂) = .ok result) :
    Z₂.toZMod = 1 ∧ ∃ E R X Y Z, E = X₂.toZMod * Z₁.toZMod ^ 2 - X₁.toZMod ∧
      R = Y₂.toZMod * Z₁.toZMod ^ 3 - Y₁.toZMod ∧ result = .jacobian X Y Z ∧
      X.toZMod = R ^ 2 - E ^ 3 - 2 * (X₁.toZMod * E ^ 2) ∧
      Y.toZMod = R * (X₁.toZMod * E ^ 2 - (R ^ 2 - E ^ 3 - 2 * (X₁.toZMod * E ^ 2))) -
        Y₁.toZMod * E ^ 3 ∧
      Z.toZMod = Z₁.toZMod * E := by
  obtain ⟨zero,_,run⟩ := bind_ran.mp run
  obtain ⟨_,_,run⟩ := bind_ran.mp run
  obtain ⟨one,one_made,run⟩ := bind_ran.mp run
  obtain ⟨_,unit,run⟩ := bind_ran.mp run
  obtain ⟨_,_,run⟩ := bind_ran.mp run
  obtain ⟨_,_,run⟩ := bind_ran.mp run
  obtain ⟨double,doubled,run⟩ := bind_ran.mp run
  cases run
  have unit := of_decide_eq_true (assert_ran.mp unit)
  refine ⟨?_,_,_,_,_,_,rfl,rfl,rfl,?_,?_,?_⟩
  · rw [unit, int_toZMod one_made, Nat.cast_one]
  · simp only [FFInt.toZMod_sub, FFInt.toZMod_mul, times_toZMod doubled]
    push_cast
    ring
  · simp only [FFInt.toZMod_sub, FFInt.toZMod_mul, times_toZMod doubled]
    push_cast
    ring
  · simp only [FFInt.toZMod_sub, FFInt.toZMod_mul]
    ring

theorem addFinite_converts {a : Nat} {P Q : (curve (a : ZMod p) b).Point}
    (first : IsJacobian P X₁.toZMod Y₁.toZMod Z₁.toZMod)
    (second : IsJacobian Q X₂.toZMod Y₂.toZMod Z₂.toZMod)
    (run : CurvePoint.addFinite a (.jacobian X₁ Y₁ Z₁) (.jacobian X₂ Y₂ Z₂) = .ok result) :
    Converts result (P + Q) ↔ (P ≠ Q ∧ P ≠ -Q) ∨ IsAt (P + Q) 0 0 := by
  obtain ⟨unit,E,R,X,Y,Z,run_eq,rise_eq,rfl,X_eq,Y_eq,Z_eq⟩ := addFinite_coordinates run
  have at_second : IsAt Q X₂.toZMod Y₂.toZMod := by
    have at_quotients := second.2
    rwa [unit, one_pow, one_pow, div_one, div_one] at at_quotients
  by_cases vertical : E = 0
  · have paired : ¬ (P ≠ Q ∧ P ≠ -Q) := by
      rintro ⟨different,unopposed⟩
      exact first.run_ne_zero at_second different unopposed (run_eq.symm.trans vertical)
    rw [converts_zero (by rw [Z_eq, vertical, mul_zero]), or_iff_right paired]
  · have sum := first.add_of_run at_second run_eq vertical rise_eq
    rw [← Y_eq, ← X_eq, ← Z_eq] at sum
    rw [run_eq] at vertical
    exact iff_of_true ((converts_finite sum).mpr rfl)
      (Or.inl (first.apart_of_run at_second vertical))

theorem tangent_toZMod {a' D : FFInt p} (run : CurvePoint.tangent a' X₁ Z₁ = .ok D) :
    D.toZMod = 3 * X₁.toZMod ^ 2 + a'.toZMod * Z₁.toZMod ^ 4 := by
  obtain ⟨zero,zero_made,run⟩ := bind_ran.mp run
  split_ifs at run with none
  · rw [times_toZMod run, FFInt.toZMod_mul, none, int_toZMod zero_made]
    push_cast
    ring
  · obtain ⟨triple,tripled,run⟩ := bind_ran.mp run
    cases run
    simp only [FFInt.toZMod_add, FFInt.toZMod_mul, times_toZMod tripled]
    push_cast
    ring

/-- What the formulas for the doubling compute, once the assertion has passed. -/
theorem double_coordinates {a : Nat}
    (run : CurvePoint.double a (.jacobian X₁ Y₁ Z₁) = .ok result) :
    2 * Y₁.toZMod ≠ 0 ∧ ∃ D X Y Z, D = 3 * X₁.toZMod ^ 2 + (a : ZMod p) * Z₁.toZMod ^ 4 ∧
      result = .jacobian X Y Z ∧ X.toZMod = D ^ 2 - 8 * X₁.toZMod * Y₁.toZMod ^ 2 ∧
      Y.toZMod = D * (4 * X₁.toZMod * Y₁.toZMod ^ 2 -
        (D ^ 2 - 8 * X₁.toZMod * Y₁.toZMod ^ 2)) - 8 * Y₁.toZMod ^ 4 ∧
      Z.toZMod = 2 * Y₁.toZMod * Z₁.toZMod := by
  obtain ⟨a',a_made,run⟩ := bind_ran.mp run
  obtain ⟨_,odd,run⟩ := bind_ran.mp run
  obtain ⟨D,tangent_made,run⟩ := bind_ran.mp run
  obtain ⟨eightfold,eightfold_made,run⟩ := bind_ran.mp run
  obtain ⟨fourfold,fourfold_made,run⟩ := bind_ran.mp run
  obtain ⟨rest,rest_made,run⟩ := bind_ran.mp run
  obtain ⟨twice,twice_made,run⟩ := bind_ran.mp run
  cases run
  have odd := of_decide_eq_true (assert_ran.mp odd)
  have slope := tangent_toZMod tangent_made
  rw [int_toZMod a_made] at slope
  refine ⟨?_,D.toZMod,_,_,_,slope,rfl,?_,?_,?_⟩
  · intro even
    apply odd
    rw [← FFInt.toZMod_inj, FFInt.toZMod_neg]
    linear_combination even
  · simp only [FFInt.toZMod_sub, FFInt.toZMod_mul, times_toZMod eightfold_made]
    push_cast
    ring
  · simp only [FFInt.toZMod_sub, FFInt.toZMod_mul, times_toZMod eightfold_made,
      times_toZMod fourfold_made, times_toZMod rest_made]
    push_cast
    ring
  · rw [FFInt.toZMod_mul, times_toZMod twice_made]
    push_cast
    rfl

/-- The doubling of a triple is that of its point, unless that is the one at infinity. -/
theorem double_converts {a : Nat} {P : (curve (a : ZMod p) b).Point}
    (holds : Holds (.jacobian X₁ Y₁ Z₁) P)
    (run : CurvePoint.double a (.jacobian X₁ Y₁ Z₁) = .ok result) :
    Converts result (P + P) ↔ P ≠ 0 := by
  obtain ⟨odd,D,X,Y,Z,slope,rfl,X_eq,Y_eq,Z_eq⟩ := double_coordinates run
  rcases holds with ⟨_,_,Z_zero,rfl⟩ | finite
  · have zero : Z.toZMod = 0 := by
      rw [Z_eq, toZMod_of_zero Z_zero, mul_zero]
    rw [converts_zero zero, add_zero]
    exact iff_of_false (fun at_origin => at_origin.ne_zero rfl) (not_not.mpr rfl)
  · have doubled := finite.double odd slope
    rw [← Y_eq, ← X_eq, ← Z_eq] at doubled
    exact iff_of_true ((converts_finite doubled).mpr rfl) (ne_zero_of_finite finite)

/-- A triple alone is converted to its point, unless that is the one at infinity. -/
theorem holds_converts (holds : Holds (.jacobian X Y Z) P) :
    Converts (.jacobian X Y Z) P ↔ P ≠ 0 := by
  rcases holds with ⟨_,_,zero,rfl⟩ | finite
  · rw [converts_zero (toZMod_of_zero zero)]
    exact iff_of_false (fun at_origin => at_origin.ne_zero rfl) (not_not.mpr rfl)
  · exact iff_of_true ((converts_finite finite).mpr rfl) (ne_zero_of_finite finite)

theorem with_zero_iff : (P ≠ 0 ∧ P ≠ -0) ∨ IsAt P 0 0 ↔ P ≠ 0 := by
  constructor
  · rintro (⟨finite,_⟩ | at_origin)
    · exact finite
    · exact at_origin.ne_zero
  · intro finite
    rw [neg_zero]
    exact Or.inl ⟨finite,finite⟩

theorem add_converts {a : Nat} {P Q : (curve (a : ZMod p) b).Point}
    (first : Holds (.jacobian X₁ Y₁ Z₁) P) (second : Holds (.jacobian X₂ Y₂ Z₂) Q)
    (run : CurvePoint.add a (.jacobian X₁ Y₁ Z₁) (.jacobian X₂ Y₂ Z₂) = .ok result) :
    Converts result (P + Q) ↔ (P ≠ Q ∧ P ≠ -Q) ∨ IsAt (P + Q) 0 0 := by
  rw [CurvePoint.add] at run
  rcases first with ⟨X_one,Y_one,Z_zero,rfl⟩ | first
  · rw [isInfinity_jacobian, decide_eq_true ⟨X_one,Y_one,Z_zero⟩, bind_ready rfl, if_pos rfl] at run
    cases run
    have mirrored : (0 ≠ Q ∧ 0 ≠ -Q) ↔ (Q ≠ 0 ∧ Q ≠ -0) := by
      rw [neg_zero, ne_comm, ne_comm (a := 0), neg_ne_zero]
    rw [zero_add, mirrored, with_zero_iff]
    exact holds_converts second
  · rw [bind_ready (isInfinity_finite first), if_neg Bool.false_ne_true] at run
    rcases second with ⟨X_one,Y_one,Z_zero,rfl⟩ | second
    · rw [isInfinity_jacobian, decide_eq_true ⟨X_one,Y_one,Z_zero⟩, bind_ready rfl,
        if_pos rfl] at run
      cases run
      rw [add_zero, with_zero_iff]
      exact holds_converts (Or.inr first)
    · rw [bind_ready (isInfinity_finite second), if_neg Bool.false_ne_true] at run
      exact addFinite_converts first second run

/-- The sums and the doublings that pass the assertions: where an operand is infinite in the
    doubling, or the two are the same point or opposite ones in the sum, what is computed has
    `Z = 0` and is converted to the origin. -/
theorem jacobian_refines_iff {a : Nat} {P Q : (curve (a : ZMod p) b).Point}
    (first : Holds (.jacobian X₁ Y₁ Z₁) P) (second : Holds (.jacobian X₂ Y₂ Z₂) Q) :
    (∀ result, CurvePoint.add a (.jacobian X₁ Y₁ Z₁) (.jacobian X₂ Y₂ Z₂) = .ok result →
      (Converts result (P + Q) ↔ (P ≠ Q ∧ P ≠ -Q) ∨ IsAt (P + Q) 0 0)) ∧
    ∀ result, CurvePoint.double a (.jacobian X₁ Y₁ Z₁) = .ok result →
      (Converts result (P + P) ↔ P ≠ 0) :=
  ⟨fun _ run => add_converts first second run,fun _ run => double_converts first run⟩

end Prime

section Secp256k1
open BitcoinKeys (fieldPrime)

/-- The points of secp256k1 among them. -/
def ofECPoint : ECPoint → CurvePoint fieldPrime
  | .affine x y => .affine x y
  | .jacobian X Y Z => .jacobian X Y Z

theorem int_small {number : Nat} (below : number < fieldPrime) :
    int fieldPrime number = .ok (small number below) := dif_pos below

theorem times_small {number : Nat} (below : number < fieldPrime) (x : Coordinate) :
    times number x = .ok (small number below * x) := by
  rw [times, bind_ready (int_small below)]
  rfl

theorem bind_maps {ε α β γ : Type} {f : β → γ} {x : Except ε α} {rest : α → Except ε β}
    {mapped : α → Except ε γ} (each : ∀ a, mapped a = (rest a).map f) :
    (x >>= mapped) = (x >>= rest).map f := by
  cases x with
  | error e => rfl
  | ok a => exact each a

theorem isInfinity_agrees (c : ECPoint) : (ofECPoint c).isInfinity = .ok c.isInfinity := by
  cases c with
  | affine x y => rfl
  | jacobian X Y Z =>
    rw [ofECPoint, CurvePoint.isInfinity, bind_ready (int_small ECurve.one_below),
      bind_ready (int_small ECurve.zero_below)]
    rfl

theorem double_agrees (c : ECPoint) :
    CurvePoint.double 0 (ofECPoint c) = c.double.map ofECPoint := by
  rw [CurvePoint.double, bind_ready (int_small ECurve.zero_below)]
  cases c with
  | affine x y =>
    cases x with
    | none => rfl
    | some x =>
      cases y with
      | none => rfl
      | some y =>
        simp only [ofECPoint, times_small ECurve.two_below, times_small ECurve.three_below]
        rfl
  | jacobian X Y Z =>
    simp only [ofECPoint, CurvePoint.tangent, int_small ECurve.zero_below,
      times_small ECurve.two_below, times_small ECurve.three_below,
      times_small ECurve.four_below, times_small ECurve.eight_below]
    refine bind_maps fun _ => ?_
    rfl

theorem twice_agrees (c : ECPoint) :
    CurvePoint.twice 0 (ofECPoint c) = c.twice.map ofECPoint := by
  rw [CurvePoint.twice, bind_ready (isInfinity_agrees c), ECPoint.twice]
  split_ifs
  · rfl
  · exact double_agrees c

theorem addFinite_agrees (lhs rhs : ECPoint) :
    CurvePoint.addFinite 0 (ofECPoint lhs) (ofECPoint rhs) =
      (lhs.addFinite rhs).map ofECPoint := by
  cases lhs with
  | affine x₁ y₁ =>
    cases rhs with
    | affine x₂ y₂ =>
      refine bind_maps fun _ => bind_maps fun X₁ => bind_maps fun _ => bind_maps fun Y₁ => ?_
      refine bind_maps fun _ => bind_maps fun X₂ => bind_maps fun _ => bind_maps fun Y₂ => ?_
      rw [bind_ready (int_small ECurve.zero_below)]
      split_ifs
      · exact twice_agrees (.affine x₁ y₁)
      · rfl
      · rfl
    | jacobian X₂ Y₂ Z₂ => rfl
  | jacobian X₁ Y₁ Z₁ =>
    cases rhs with
    | affine x₂ y₂ => rfl
    | jacobian X₂ Y₂ Z₂ =>
      rw [ofECPoint, ofECPoint, CurvePoint.addFinite, bind_ready (int_small ECurve.zero_below)]
      refine bind_maps fun _ => ?_
      rw [bind_ready (int_small ECurve.one_below)]
      refine bind_maps fun _ => bind_maps fun _ => bind_maps fun _ => ?_
      rw [bind_ready (times_small ECurve.two_below _)]
      rfl

theorem add_agrees (lhs rhs : ECPoint) :
    CurvePoint.add 0 (ofECPoint lhs) (ofECPoint rhs) = (lhs.add rhs).map ofECPoint := by
  rw [CurvePoint.add, bind_ready (isInfinity_agrees lhs), bind_ready (isInfinity_agrees rhs),
    ECPoint.add]
  split_ifs
  · rfl
  · rfl
  · exact addFinite_agrees lhs rhs

def scaledBase : CurvePoint fieldPrime :=
  .jacobian (small 4 ECurve.four_below * BasePointOrder.gX)
    (small 8 ECurve.eight_below * BasePointOrder.gY) (small 2 ECurve.two_below)

def baseTriple : CurvePoint fieldPrime :=
  .jacobian BasePointOrder.gX BasePointOrder.gY (small 1 ECurve.one_below)

theorem exists_base : ∃ P : (curve ((0 : ℕ) : ZMod fieldPrime) 7).Point,
    IsAt P BasePointOrder.gX.toZMod BasePointOrder.gY.toZMod := by
  rw [Nat.cast_zero]
  exact BasePointOrder.exists_base

theorem scaledBase_holds {b : ZMod fieldPrime} {P : (curve ((0 : ℕ) : ZMod fieldPrime) b).Point}
    (at_base : IsAt P BasePointOrder.gX.toZMod BasePointOrder.gY.toZMod) : Holds scaledBase P := by
  have two : (small 2).toZMod ≠ 0 :=
    DoubleAndAdd.natCast_ne_zero_of_lt (by decide) ECurve.two_below
  have four : (small 4).toZMod = (small 2).toZMod ^ 2 := by
    simp only [PointArithmetic.toZMod_small]
    norm_num
  have eight : (small 8).toZMod = (small 2).toZMod ^ 3 := by
    simp only [PointArithmetic.toZMod_small]
    norm_num
  refine Or.inr ⟨two,?_⟩
  rw [FFInt.toZMod_mul, FFInt.toZMod_mul, four, eight,
    mul_div_cancel_left₀ _ (pow_ne_zero 2 two), mul_div_cancel_left₀ _ (pow_ne_zero 3 two)]
  exact at_base

theorem triple_holds {b : ZMod fieldPrime} {P : (curve ((0 : ℕ) : ZMod fieldPrime) b).Point}
    {X Y : Coordinate} (at_xy : IsAt P X.toZMod Y.toZMod) :
    Holds (.jacobian X Y (small 1)) P := by
  refine Or.inr ⟨?_,?_⟩
  · exact DoubleAndAdd.natCast_ne_zero_of_lt (by decide) ECurve.one_below
  · rwa [PointArithmetic.toZMod_one, one_pow, one_pow, div_one, div_one]

theorem doubledX_below :
    0xc6047f9441ed7d6d3045406e95c07cd85c778e4b8cef3ca7abac09b95c709ee5 < fieldPrime := by decide

theorem doubledY_below :
    0x1ae168fea63dc339a3c58419466ceaeef7f632653266d0e1236431a950cfe52a < fieldPrime := by decide

def doubledX : Coordinate :=
  ⟨0xc6047f9441ed7d6d3045406e95c07cd85c778e4b8cef3ca7abac09b95c709ee5,doubledX_below⟩

def doubledY : Coordinate :=
  ⟨0x1ae168fea63dc339a3c58419466ceaeef7f632653266d0e1236431a950cfe52a,doubledY_below⟩

def doubledTriple : CurvePoint fieldPrime := .jacobian doubledX doubledY (small 1 ECurve.one_below)

theorem exists_doubled : ∃ Q : (curve ((0 : ℕ) : ZMod fieldPrime) 7).Point,
    Holds doubledTriple Q ∧ ∀ P, IsAt P BasePointOrder.gX.toZMod BasePointOrder.gY.toZMod →
      P ≠ Q ∧ P ≠ -Q := by
  have exists_at : ∃ Q : (curve ((0 : ℕ) : ZMod fieldPrime) 7).Point,
      IsAt Q doubledX.toZMod doubledY.toZMod := by
    rw [Nat.cast_zero]
    exact ⟨_,SignatureCheck.doubled_holds⟩
  obtain ⟨Q,at_xy⟩ := exists_at
  refine ⟨Q,triple_holds at_xy,fun P at_base => ⟨?_,?_⟩⟩
  · rintro rfl
    exact absurd (FFInt.toZMod_inj.mp (at_base.unique at_xy).1) (by decide)
  · intro opposite
    rw [opposite] at at_base
    exact absurd (FFInt.toZMod_inj.mp (at_base.unique at_xy.neg).1) (by decide)

theorem base_and_double :
    ∃ P Q : (curve ((0 : ℕ) : ZMod fieldPrime) 7).Point,
      Holds scaledBase P ∧ Holds doubledTriple Q ∧
      (∃ result, CurvePoint.add 0 scaledBase doubledTriple = .ok result ∧
        Converts result (P + Q)) ∧
      ∃ result, CurvePoint.double 0 scaledBase = .ok result ∧ Converts result (P + P) := by
  obtain ⟨P,at_base⟩ := exists_base
  obtain ⟨Q,doubled,apart⟩ := exists_doubled
  obtain ⟨sums,doublings⟩ := jacobian_refines_iff (scaledBase_holds at_base) doubled
  refine ⟨P,Q,scaledBase_holds at_base,doubled,⟨_,rfl,?_⟩,⟨_,rfl,?_⟩⟩
  · exact (sums _ rfl).mpr (Or.inl (apart P at_base))
  · exact (doublings _ rfl).mpr at_base.ne_zero

/-- The base point and the base point with another `Z`: the assertions see two points, and the
    origin comes out; so it does for the double of the point at infinity. -/
theorem same_point_lost :
    ∃ P : (curve ((0 : ℕ) : ZMod fieldPrime) 7).Point, Holds scaledBase P ∧ Holds baseTriple P ∧
      CurvePoint.add 0 scaledBase baseTriple =
        .ok (.jacobian (small 0) (small 0) (small 0)) ∧
      (CurvePoint.jacobian (small 0) (small 0) (small 0)).convertToAffine =
        .ok (.affine (some (small 0)) (some (small 0))) ∧
      ¬ Converts (.jacobian (small 0) (small 0) (small 0)) (P + P) := by
  obtain ⟨P,at_base⟩ := exists_base
  refine ⟨P,scaledBase_holds at_base,triple_holds at_base,by decide +kernel,by decide +kernel,?_⟩
  rw [converts_zero (toZMod_of_zero rfl)]
  exact PointArithmetic.origin_off

end Secp256k1

end JacobianFormulas
