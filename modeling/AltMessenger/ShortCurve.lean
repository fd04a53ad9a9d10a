import Mathlib.AlgebraicGeometry.EllipticCurve.Affine.Point
import Mathlib.Tactic.LinearCombination
import Mathlib.Tactic.FieldSimp

/-!
Points of a curve `y² = x³ + a x + b` by their coordinates, affine and Jacobian, and what the
usual formulas compute of them.
-/
namespace ShortCurve
open WeierstrassCurve.Affine
variable {F : Type} [Field F] {a b : F}

def curve (a b : F) : WeierstrassCurve.Affine F := ⟨0,0,0,a,b⟩

/-- The point has these coordinates. -/
def IsAt (P : (curve a b).Point) (x y : F) : Prop := ∃ h, P = .some x y h

section Coordinates
variable {P Q : (curve a b).Point} {x y x₁ y₁ x₂ y₂ : F}

theorem IsAt.ne_zero (at_xy : IsAt P x y) : P ≠ 0 := by
  obtain ⟨h,rfl⟩ := at_xy
  exact Point.some_ne_zero h

theorem IsAt.unique (first : IsAt P x₁ y₁) (second : IsAt P x₂ y₂) : x₁ = x₂ ∧ y₁ = y₂ := by
  obtain ⟨h₁,rfl⟩ := first
  obtain ⟨h₂,same⟩ := second
  exact (Point.some.injEq _ _ _ _ _ _).mp same

theorem IsAt.point_unique (first : IsAt P x y) (second : IsAt Q x y) : P = Q := by
  obtain ⟨h₁,rfl⟩ := first
  obtain ⟨h₂,rfl⟩ := second
  rfl

theorem exists_isAt (finite : P ≠ 0) : ∃ x y, IsAt P x y := by
  cases P with
  | zero => exact absurd rfl finite
  | some x y h => exact ⟨x,y,h,rfl⟩

theorem IsAt.equation (at_xy : IsAt P x y) : y ^ 2 = x ^ 3 + a * x + b := by
  obtain ⟨h,rfl⟩ := at_xy
  have on_curve := ((curve a b).equation_iff x y).mp h.1
  simp only [curve] at on_curve
  linear_combination on_curve

theorem exists_point (elliptic : (curve a b).Δ ≠ 0) (on_curve : y ^ 2 = x ^ 3 + a * x + b) :
    ∃ P : (curve a b).Point, IsAt P x y := by
  have equation : (curve a b).Equation x y := by
    rw [equation_iff]
    simp only [curve]
    linear_combination on_curve
  exact ⟨_,(equation_iff_nonsingular_of_Δ_ne_zero elliptic).mp equation,rfl⟩

theorem IsAt.neg (at_xy : IsAt P x y) : IsAt (-P) x (-y) := by
  obtain ⟨h,rfl⟩ := at_xy
  rw [Point.neg_some]
  have opposite : (curve a b).negY x y = -y := by simp [negY, curve]
  rw [← opposite]
  exact ⟨_,rfl⟩

/-- Points over one `x` are the same or opposite. -/
theorem IsAt.same_x (first : IsAt P x y₁) (second : IsAt Q x y₂) : P = Q ∨ P = -Q := by
  obtain ⟨h₁,rfl⟩ := first
  obtain ⟨h₂,rfl⟩ := second
  exact Point.X_eq_iff.mp rfl

end Coordinates

section Sums
variable [DecidableEq F] {P Q : (curve a b).Point} {x y x₁ y₁ x₂ y₂ X₁ Y₁ Z₁ : F}

/-- The chord through two points. -/
theorem IsAt.add (first : IsAt P x₁ y₁) (second : IsAt Q x₂ y₂) (apart : x₁ ≠ x₂) {l : F}
    (slope : l = (y₂ - y₁) / (x₂ - x₁)) :
    IsAt (P + Q) (l ^ 2 - x₁ - x₂) (l * (x₁ - (l ^ 2 - x₁ - x₂)) - y₁) := by
  obtain ⟨h₁,rfl⟩ := first
  obtain ⟨h₂,rfl⟩ := second
  have same : (curve a b).slope x₁ x₂ y₁ y₂ = l := by
    rw [slope, slope_of_X_ne apart, ← neg_sub y₂, ← neg_sub x₂, neg_div_neg_eq]
  have third : (curve a b).addX x₁ x₂ l = l ^ 2 - x₁ - x₂ := by simp [addX, curve]
  have mirrored : (curve a b).addY x₁ x₂ y₁ l = l * (x₁ - (l ^ 2 - x₁ - x₂)) - y₁ := by
    simp only [addY, negAddY, negY, third]
    simp only [curve]
    ring
  have sum : IsAt (Point.some _ _ h₁ + Point.some _ _ h₂) _ _ :=
    ⟨_,Point.add_of_X_ne apart⟩
  rwa [same, mirrored, third] at sum

/-- The tangent at a point. -/
theorem IsAt.double (at_xy : IsAt P x y) (odd : 2 * y ≠ 0) {l : F}
    (slope : l = (3 * x ^ 2 + a) / (2 * y)) :
    IsAt (P + P) (l ^ 2 - 2 * x) (l * (x - (l ^ 2 - 2 * x)) - y) := by
  obtain ⟨h,rfl⟩ := at_xy
  have apart : y ≠ (curve a b).negY x y := by
    simp only [negY, curve]
    intro same
    apply odd
    linear_combination same
  have same : (curve a b).slope x x y y = l := by
    rw [slope, slope_of_Y_ne rfl apart]
    congr 1
    · simp [curve]
    · simp only [negY, curve]
      ring
  have third : (curve a b).addX x x l = l ^ 2 - 2 * x := by
    simp only [addX, curve]
    ring
  have mirrored : (curve a b).addY x x y l = l * (x - (l ^ 2 - 2 * x)) - y := by
    simp only [addY, negAddY, negY, third]
    simp only [curve]
    ring
  have sum : IsAt (Point.some _ _ h + Point.some _ _ h) _ _ := ⟨_,Point.add_self_of_Y_ne apart⟩
  rwa [same, mirrored, third] at sum

/-- The tangent's formulas without their quotients. -/
theorem IsAt.double_of_eq (at_xy : IsAt P x y) (odd : 2 * y ≠ 0) {x' y' : F}
    (x_doubled : x' * (2 * y) ^ 2 = (3 * x ^ 2 + a) ^ 2 - 2 * x * (2 * y) ^ 2)
    (y_doubled : y' * (2 * y) = (3 * x ^ 2 + a) * (x - x') - y * (2 * y)) : IsAt (P + P) x' y' := by
  have sum := at_xy.double odd rfl
  have x_same : ((3 * x ^ 2 + a) / (2 * y)) ^ 2 - 2 * x = x' := by
    rw [div_pow, sub_eq_iff_eq_add, div_eq_iff (pow_ne_zero 2 odd)]
    linear_combination -x_doubled
  rw [x_same] at sum
  have y_same : (3 * x ^ 2 + a) / (2 * y) * (x - x') - y = y' := by
    rw [div_mul_eq_mul_div, sub_eq_iff_eq_add, div_eq_iff odd]
    linear_combination -y_doubled
  rwa [y_same] at sum

/-- A point with `y = 0` is its own opposite. -/
theorem IsAt.double_zero (at_xy : IsAt P x y) (even : 2 * y = 0) : P + P = 0 := by
  obtain ⟨h,rfl⟩ := at_xy
  refine Point.add_self_of_Y_eq ?_
  simp only [negY, curve]
  linear_combination even

/-- The point has these Jacobian coordinates. -/
def IsJacobian (P : (curve a b).Point) (X Y Z : F) : Prop :=
  Z ≠ 0 ∧ IsAt P (X / Z ^ 2) (Y / Z ^ 3)

/-- A point in Jacobian coordinates and one in affine ones, with another `x`. -/
theorem IsJacobian.add_of_run (first : IsJacobian P X₁ Y₁ Z₁) (second : IsAt Q x₂ y₂) {E R : F}
    (run : E = x₂ * Z₁ ^ 2 - X₁) (nonzero : E ≠ 0) (rise : R = y₂ * Z₁ ^ 3 - Y₁) :
    IsJacobian (P + Q) (R ^ 2 - E ^ 3 - 2 * (X₁ * E ^ 2))
      (R * (X₁ * E ^ 2 - (R ^ 2 - E ^ 3 - 2 * (X₁ * E ^ 2))) - Y₁ * E ^ 3) (Z₁ * E) := by
  obtain ⟨finite,first⟩ := first
  have apart : X₁ / Z₁ ^ 2 ≠ x₂ := by
    intro same
    rw [div_eq_iff (pow_ne_zero 2 finite)] at same
    exact nonzero (by rw [run, same, sub_self])
  have slope : R / (Z₁ * E) = (y₂ - Y₁ / Z₁ ^ 3) / (x₂ - X₁ / Z₁ ^ 2) := by
    have run' : x₂ - X₁ / Z₁ ^ 2 = E / Z₁ ^ 2 := by
      rw [run]
      field_simp
    have rise' : y₂ - Y₁ / Z₁ ^ 3 = R / Z₁ ^ 3 := by
      rw [rise]
      field_simp
    rw [run', rise']
    field_simp
  refine ⟨mul_ne_zero finite nonzero,?_⟩
  have sum := first.add second apart slope
  have x_same : (R / (Z₁ * E)) ^ 2 - X₁ / Z₁ ^ 2 - x₂ =
      (R ^ 2 - E ^ 3 - 2 * (X₁ * E ^ 2)) / (Z₁ * E) ^ 2 := by
    field_simp
    linear_combination E ^ 2 * run
  have y_same : R / (Z₁ * E) * (X₁ / Z₁ ^ 2 - ((R / (Z₁ * E)) ^ 2 - X₁ / Z₁ ^ 2 - x₂)) -
      Y₁ / Z₁ ^ 3 = (R * (X₁ * E ^ 2 - (R ^ 2 - E ^ 3 - 2 * (X₁ * E ^ 2))) - Y₁ * E ^ 3) /
        (Z₁ * E) ^ 3 := by
    rw [x_same]
    field_simp
  rwa [y_same, x_same] at sum

/-- The doubling of a point in Jacobian coordinates. -/
theorem IsJacobian.double (at_xyz : IsJacobian P X₁ Y₁ Z₁) (odd : 2 * Y₁ ≠ 0) {D : F}
    (tangent : D = 3 * X₁ ^ 2 + a * Z₁ ^ 4) :
    IsJacobian (P + P) (D ^ 2 - 8 * X₁ * Y₁ ^ 2)
      (D * (4 * X₁ * Y₁ ^ 2 - (D ^ 2 - 8 * X₁ * Y₁ ^ 2)) - 8 * Y₁ ^ 4) (2 * Y₁ * Z₁) := by
  obtain ⟨finite,at_xy⟩ := at_xyz
  have two : (2 : F) ≠ 0 := left_ne_zero_of_mul odd
  have upright : Y₁ ≠ 0 := right_ne_zero_of_mul odd
  have odd_y : 2 * (Y₁ / Z₁ ^ 3) ≠ 0 :=
    mul_ne_zero two (div_ne_zero upright (pow_ne_zero 3 finite))
  have slope : D / (2 * Y₁ * Z₁) = (3 * (X₁ / Z₁ ^ 2) ^ 2 + a) / (2 * (Y₁ / Z₁ ^ 3)) := by
    rw [tangent]
    field_simp
  have doubled := at_xy.double odd_y slope
  have x_same : (D / (2 * Y₁ * Z₁)) ^ 2 - 2 * (X₁ / Z₁ ^ 2) =
      (D ^ 2 - 8 * X₁ * Y₁ ^ 2) / (2 * Y₁ * Z₁) ^ 2 := by
    field_simp
    ring
  have y_same : D / (2 * Y₁ * Z₁) * (X₁ / Z₁ ^ 2 -
      ((D / (2 * Y₁ * Z₁)) ^ 2 - 2 * (X₁ / Z₁ ^ 2))) - Y₁ / Z₁ ^ 3 =
        (D * (4 * X₁ * Y₁ ^ 2 - (D ^ 2 - 8 * X₁ * Y₁ ^ 2)) - 8 * Y₁ ^ 4) /
          (2 * Y₁ * Z₁) ^ 3 := by
    rw [x_same]
    field_simp
    ring
  rw [y_same, x_same] at doubled
  exact ⟨mul_ne_zero odd finite,doubled⟩

omit [DecidableEq F] in
/-- Points that are neither the same nor opposite have another `x`. -/
theorem IsJacobian.run_ne_zero (first : IsJacobian P X₁ Y₁ Z₁) (second : IsAt Q x₂ y₂)
    (different : P ≠ Q) (unopposed : P ≠ -Q) : x₂ * Z₁ ^ 2 - X₁ ≠ 0 := by
  obtain ⟨finite,first⟩ := first
  intro zero
  have same : X₁ / Z₁ ^ 2 = x₂ := by
    rw [div_eq_iff (pow_ne_zero 2 finite)]
    linear_combination -zero
  rw [same] at first
  rcases first.same_x second with equal | opposite
  · exact different equal
  · exact unopposed opposite

omit [DecidableEq F] in
/-- And those that have another one are neither. -/
theorem IsJacobian.apart_of_run (first : IsJacobian P X₁ Y₁ Z₁) (second : IsAt Q x₂ y₂)
    (nonzero : x₂ * Z₁ ^ 2 - X₁ ≠ 0) : P ≠ Q ∧ P ≠ -Q := by
  obtain ⟨finite,first⟩ := first
  have apart : X₁ / Z₁ ^ 2 ≠ x₂ := by
    intro same
    rw [div_eq_iff (pow_ne_zero 2 finite)] at same
    exact nonzero (sub_eq_zero.mpr same.symm)
  constructor
  · rintro rfl
    exact apart (first.unique second).1
  · intro opposite
    rw [opposite] at first
    exact apart (first.unique second.neg).1

end Sums

end ShortCurve
