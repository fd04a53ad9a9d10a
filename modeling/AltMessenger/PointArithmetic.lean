import AltMessenger.DoubleAndAdd
import AltMessenger.ECurve
import AltMessenger.Secp256k1Primes
import AltMessenger.ShortCurve

/-!
The sums and doublings of `ECurve` are those of the group of the curve `y² = x³ + 7`.
-/
namespace PointArithmetic
open SwiftRuntime FiniteFieldInteger ECurve ShortCurve
open BitcoinKeys (fieldPrime order)

instance : Fact (Nat.Prime fieldPrime) := ⟨Secp256k1Primes.fieldPrime_prime⟩

instance : Fact (Nat.Prime order) := ⟨Secp256k1Primes.order_prime⟩

abbrev Field := ZMod fieldPrime

abbrev Point := (curve (0 : Field) 7).Point

/-- What an `ECPoint` stands for. -/
def Holds : ECPoint → Point → Prop
  | .affine none none, P => P = 0
  | .affine (some x) (some y), P => IsAt P x.toZMod y.toZMod
  | .affine _ _, _ => False
  | .jacobian X Y Z, P => (X = small 1 ∧ Y = small 1 ∧ Z = small 0 ∧ P = 0) ∨
      IsJacobian P X.toZMod Y.toZMod Z.toZMod

theorem toZMod_small {value : Nat} (below : value < fieldPrime) :
    (small value below).toZMod = (value : Field) := rfl

theorem elliptic : (curve (0 : Field) 7).Δ ≠ 0 := by
  have value : (curve (0 : Field) 7).Δ = -((21168 : ℕ) : Field) := by
    simp only [WeierstrassCurve.Δ, WeierstrassCurve.b₂, WeierstrassCurve.b₄, WeierstrassCurve.b₆,
      WeierstrassCurve.b₈, curve]
    norm_num
  rw [value, neg_ne_zero]
  exact DoubleAndAdd.natCast_ne_zero_of_lt (by norm_num) (by decide)

/-- The origin is on no curve whose `b` is seven. -/
theorem origin_off {a : Field} {P : (curve a 7).Point} : ¬ IsAt P 0 0 := by
  intro at_origin
  have on_curve := at_origin.equation
  have seven : ((7 : ℕ) : Field) ≠ 0 :=
    DoubleAndAdd.natCast_ne_zero_of_lt (by decide) (by decide)
  apply seven
  push_cast
  linear_combination -on_curve

variable {c d : ECPoint} {P Q : Point} {x y X Y Z : Coordinate}

theorem toZMod_eq_zero_iff : x.toZMod = 0 ↔ x = small 0 := by
  rw [← FFInt.toZMod_inj, toZMod_small]
  simp

theorem toZMod_eq_one_iff : x.toZMod = 1 ↔ x = small 1 := by
  rw [← FFInt.toZMod_inj, toZMod_small]
  simp

/-- A point is infinite just when it stands for zero. -/
theorem Holds.isInfinity (holds : Holds c P) : c.isInfinity = true ↔ P = 0 := by
  cases c with
  | affine x y =>
    cases x with
    | none => cases y with
      | none =>
        have zero : P = 0 := holds
        simp [ECPoint.isInfinity, zero]
      | some y => exact holds.elim
    | some x => cases y with
      | none => exact holds.elim
      | some y => simpa [ECPoint.isInfinity] using holds.ne_zero
  | jacobian X Y Z =>
    rcases holds with ⟨rfl,rfl,rfl,rfl⟩ | ⟨finite,at_xy⟩
    · simp [ECPoint.isInfinity]
    · have nonzero : Z ≠ small 0 := fun zero => finite (toZMod_eq_zero_iff.mpr zero)
      simp [ECPoint.isInfinity, nonzero, at_xy.ne_zero]

/-- An affine point that is not zero has both coordinates. -/
theorem Holds.coordinates {x y : Option Coordinate} (holds : Holds (.affine x y) P)
    (finite : P ≠ 0) : ∃ x' y', x = some x' ∧ y = some y' ∧ IsAt P x'.toZMod y'.toZMod := by
  cases x with
  | none => cases y with
    | none => exact absurd holds finite
    | some y => exact holds.elim
  | some x => cases y with
    | none => exact holds.elim
    | some y => exact ⟨x,y,rfl,rfl,holds⟩

theorem Holds.none_of_zero {x y : Option Coordinate} (holds : Holds (.affine x y) 0) :
    x = none := by
  have infinite := holds.isInfinity.mpr rfl
  simp only [ECPoint.isInfinity, decide_eq_true_eq] at infinite
  exact infinite.1

theorem Holds.point_unique {x y : Option Coordinate} (first : Holds (.affine x y) P)
    (second : Holds (.affine x y) Q) : P = Q := by
  by_cases zero : P = 0
  · rw [zero, eq_comm, ← second.isInfinity]
    exact first.isInfinity.mpr zero
  · obtain ⟨x',y',rfl,rfl,at_xy⟩ := first.coordinates zero
    exact at_xy.point_unique second

theorem double_holds (at_xy : IsAt P x.toZMod y.toZMod) (odd : P + P ≠ 0) :
    ∃ x' y', (ECPoint.affine (some x) (some y)).double = .ok (.affine (some x') (some y')) ∧
      IsAt (P + P) x'.toZMod y'.toZMod := by
  refine ⟨_,_,rfl,?_⟩
  have odd_y : 2 * y.toZMod ≠ 0 := fun even => odd (at_xy.double_zero even)
  have slope : ((small 3 * x * x + small 0) / (small 2 * y)).toZMod =
      (3 * x.toZMod ^ 2 + 0) / (2 * y.toZMod) := by
    simp only [FFInt.toZMod_div, FFInt.toZMod_add, FFInt.toZMod_mul, toZMod_small]
    push_cast
    ring
  have doubled := at_xy.double odd_y slope
  simp only [FFInt.toZMod_sub, FFInt.toZMod_mul, toZMod_small, Nat.cast_ofNat, ← sq]
  exact doubled

/-- The doubling of a point that is its own opposite is not asked for. -/
theorem twice_holds (at_xy : IsAt P x.toZMod y.toZMod) (odd : P + P ≠ 0) :
    ∃ x' y', (ECPoint.affine (some x) (some y)).twice = .ok (.affine (some x') (some y')) ∧
      IsAt (P + P) x'.toZMod y'.toZMod := by
  obtain ⟨x',y',doubled,sum⟩ := double_holds at_xy odd
  refine ⟨x',y',?_,sum⟩
  rw [ECPoint.twice, if_neg (by simp [ECPoint.isInfinity]), doubled]

section Affine
variable {X1 Y1 X2 Y2 : Coordinate}

theorem addFinite_eq (X1 Y1 X2 Y2 : Coordinate) :
    ECPoint.addFinite (.affine (some X1) (some Y1)) (.affine (some X2) (some Y2)) =
      if X1 = X2 ∧ Y1 = Y2 then ECPoint.twice (.affine (some X1) (some Y1))
      else if X1 = X2 ∧ Y1 + Y2 = small 0 then pure .infinity
      else pure (.affine
        (some ((Y2 - Y1) / (X2 - X1) * ((Y2 - Y1) / (X2 - X1)) - X1 - X2))
        (some ((Y2 - Y1) / (X2 - X1) *
          (X1 - ((Y2 - Y1) / (X2 - X1) * ((Y2 - Y1) / (X2 - X1)) - X1 - X2)) - Y1))) := rfl

theorem addFinite_affine (first : IsAt P X1.toZMod Y1.toZMod) (second : IsAt Q X2.toZMod Y2.toZMod)
    (odd : P + P ≠ 0 ∨ P ≠ Q) :
    ∃ x y, ECPoint.addFinite (.affine (some X1) (some Y1)) (.affine (some X2) (some Y2)) =
      .ok (.affine x y) ∧ Holds (.affine x y) (P + Q) := by
  rw [addFinite_eq]
  split_ifs with same opposite
  · obtain ⟨rfl,rfl⟩ := same
    have equal : P = Q := first.point_unique second
    subst equal
    obtain ⟨x',y',doubled,sum⟩ := twice_holds first (odd.resolve_right (not_not.mpr rfl))
    exact ⟨some x',some y',doubled,sum⟩
  · obtain ⟨rfl,mirrored⟩ := opposite
    refine ⟨none,none,rfl,?_⟩
    have vanishes : Y1.toZMod + Y2.toZMod = 0 := by
      rw [← FFInt.toZMod_add, mirrored, toZMod_small, Nat.cast_zero]
    have first_neg := first.neg
    rw [neg_eq_of_add_eq_zero_right vanishes] at first_neg
    have equal : Q = -P := second.point_unique first_neg
    rw [equal]
    exact add_neg_cancel P
  · have apart : X1.toZMod ≠ X2.toZMod := by
      intro above
      have above' := FFInt.toZMod_inj.mp above
      rw [← above] at second
      rcases first.same_x second with equal | negated
      · rw [equal] at first
        exact same ⟨above',FFInt.toZMod_inj.mp (first.unique second).2⟩
      · have second_neg := second.neg
        rw [← negated] at second_neg
        apply opposite
        refine ⟨above',FFInt.toZMod_inj.mp ?_⟩
        rw [FFInt.toZMod_add, (first.unique second_neg).2, toZMod_small]
        simp
    refine ⟨_,_,rfl,?_⟩
    have sum := first.add second apart rfl
    simp only [Holds, FFInt.toZMod_sub, FFInt.toZMod_mul, FFInt.toZMod_div, ← sq]
    exact sum

/-- The sum of affine points is that of the group. -/
theorem add_affine {x₁ y₁ x₂ y₂ : Option Coordinate} (first : Holds (.affine x₁ y₁) P)
    (second : Holds (.affine x₂ y₂) Q) (odd : P + P ≠ 0 ∨ P ≠ Q) :
    ∃ x y, (ECPoint.affine x₁ y₁).add (.affine x₂ y₂) = .ok (.affine x y) ∧
      Holds (.affine x y) (P + Q) := by
  by_cases first_zero : P = 0
  · refine ⟨x₂,y₂,if_pos (first.isInfinity.mpr first_zero),?_⟩
    rwa [first_zero, zero_add]
  by_cases second_zero : Q = 0
  · refine ⟨x₁,y₁,?_,?_⟩
    · rw [ECPoint.add, if_neg (mt first.isInfinity.mp first_zero),
        if_pos (second.isInfinity.mpr second_zero)]
      rfl
    · rwa [second_zero, add_zero]
  rw [ECPoint.add, if_neg (mt first.isInfinity.mp first_zero),
    if_neg (mt second.isInfinity.mp second_zero)]
  obtain ⟨X1,Y1,rfl,rfl,first⟩ := first.coordinates first_zero
  obtain ⟨X2,Y2,rfl,rfl,second⟩ := second.coordinates second_zero
  exact addFinite_affine first second odd

/-- With a second point that is not its own opposite there is nothing to ask of the first. -/
theorem add_odd {x₁ y₁ x₂ y₂ : Option Coordinate} (first : Holds (.affine x₁ y₁) P)
    (second : Holds (.affine x₂ y₂) Q) (odd : Q + Q ≠ 0) :
    ∃ x y, (ECPoint.affine x₁ y₁).add (.affine x₂ y₂) = .ok (.affine x y) ∧
      Holds (.affine x y) (P + Q) := by
  refine add_affine first second ?_
  by_cases same : P = Q
  · rw [same]
    exact Or.inl odd
  · exact Or.inr same

end Affine

section Jacobian
variable {X2 Y2 : Coordinate}

theorem toZMod_one : (small 1).toZMod = (1 : Field) := toZMod_eq_one_iff.mpr rfl

theorem one_ne_zero' : small 1 ≠ small 0 := by decide

/-- With `Z = 1` the coordinates are the affine ones. -/
theorem isJacobian_one : IsJacobian P X.toZMod Y.toZMod (small 1).toZMod ↔
    IsAt P X.toZMod Y.toZMod := by
  simp [IsJacobian, toZMod_one]

theorem addFinite_jacobian (first : IsJacobian P X.toZMod Y.toZMod Z.toZMod)
    (second : IsAt Q X2.toZMod Y2.toZMod) (different : P ≠ Q) (unopposed : P ≠ -Q) :
    ∃ X' Y' Z', ECPoint.addFinite (.jacobian X Y Z) (.jacobian X2 Y2 (small 1)) =
      .ok (.jacobian X' Y' Z') ∧ IsJacobian (P + Q) X'.toZMod Y'.toZMod Z'.toZMod := by
  have finite : Z ≠ small 0 := fun zero => first.1 (toZMod_eq_zero_iff.mpr zero)
  have apart : ¬ (X = X2 ∧ Y = Y2 ∧ Z = small 1) := by
    rintro ⟨rfl,rfl,rfl⟩
    exact different ((isJacobian_one.mp first).point_unique second)
  have unmirrored : ¬ (X = X2 ∧ Y = -Y2 ∧ Z = small 1) := by
    rintro ⟨rfl,rfl,rfl⟩
    have mirrored := isJacobian_one.mp first
    rw [FFInt.toZMod_neg] at mirrored
    exact unopposed (mirrored.point_unique second.neg)
  let E := X2 * (Z * Z) - X
  let F := Y2 * (Z * (Z * Z)) - Y
  let X3 := F * F - E * E * E - small 2 * (X * (E * E))
  refine ⟨X3,F * (X * (E * E) - X3) - Y * (E * E * E),Z * E,?_,?_⟩
  · simp only [ECPoint.addFinite, ECPoint.assert, finite, apart, unmirrored, decide_true,
      not_false_eq_true, if_true, ne_eq]
    rfl
  · have sum := first.add_of_run second rfl (first.run_ne_zero second different unopposed) rfl
    simp only [E, F, X3, FFInt.toZMod_sub, FFInt.toZMod_mul, toZMod_small]
    push_cast
    ring_nf at sum ⊢
    exact sum

/-- The sum of a Jacobian point and one with `Z = 1`, where the formulas cover it. -/
theorem add_jacobian (first : Holds (.jacobian X Y Z) P)
    (second : IsAt Q X2.toZMod Y2.toZMod) (different : P ≠ Q) (unopposed : P ≠ -Q) :
    ∃ X' Y' Z', (ECPoint.jacobian X Y Z).add (.jacobian X2 Y2 (small 1)) =
      .ok (.jacobian X' Y' Z') ∧ Holds (.jacobian X' Y' Z') (P + Q) := by
  by_cases zero : P = 0
  · refine ⟨X2,Y2,small 1,if_pos (first.isInfinity.mpr zero),Or.inr ?_⟩
    rw [zero, zero_add]
    exact isJacobian_one.mpr second
  have finite : IsJacobian P X.toZMod Y.toZMod Z.toZMod :=
    first.resolve_left fun infinite => zero infinite.2.2.2
  rw [ECPoint.add, if_neg (mt first.isInfinity.mp zero),
    if_neg (by simp [ECPoint.isInfinity, one_ne_zero'])]
  obtain ⟨X',Y',Z',run,sum⟩ := addFinite_jacobian finite second different unopposed
  exact ⟨X',Y',Z',run,Or.inr sum⟩

theorem convertToAffine_holds (finite : IsJacobian P X.toZMod Y.toZMod Z.toZMod) :
    ∃ x y, (ECPoint.jacobian X Y Z).convertToAffine = .ok (.affine (some x) (some y)) ∧
      IsAt P x.toZMod y.toZMod := by
  rw [ECPoint.convertToAffine]
  split_ifs with unit
  · rw [unit] at finite
    exact ⟨X,Y,rfl,isJacobian_one.mp finite⟩
  · refine ⟨_,_,rfl,?_⟩
    have plain := finite.2
    simp only [FFInt.toZMod_div, FFInt.toZMod_mul]
    rwa [← sq, ← pow_succ]

/-- What comes of a point at infinity is not a point of the curve. -/
theorem convertToAffine_infinity : (ECPoint.jacobian (small 1) (small 1) (small 0)).convertToAffine =
    .ok (.affine (some (small 0)) (some (small 0))) := by
  decide

end Jacobian

end PointArithmetic
