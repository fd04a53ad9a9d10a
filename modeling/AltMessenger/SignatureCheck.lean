import AltMessenger.ECKeySignature
import AltMessenger.ScalarMultiples

/-!
Signatures and their check, over the curve and its scalars. A nonce `k` gives `r`, the `x` of its
multiple of the base point, and `s = ±(e + r d) / k`. The check multiplies the base point by
`e / s` and the public point by `r / s`, and `mul` does not take every bit of that second number.
-/
namespace SignatureCheck
open SwiftRuntime FiniteFieldInteger ECurve ShortCurve PointArithmetic DoubleAndAdd BasePointOrder
open ScalarMultiples ECKeySignature LucasCertificates
open BitcoinKeys (fieldPrime order)

/-- The `x` of a finite point. -/
def abscissa : Point → Field
  | .zero => 0
  | .some x _ _ => x

section Abscissa
variable {P Q : Point} {x y : Field}

theorem abscissa_of (at_xy : IsAt P x y) : abscissa P = x := by
  obtain ⟨h,rfl⟩ := at_xy
  rfl

/-- Seven is no square, so no point has the `x` zero. -/
theorem abscissa_ne_zero (finite : P ≠ 0) : abscissa P ≠ 0 := by
  obtain ⟨x,y,at_xy⟩ := exists_isAt finite
  rw [abscissa_of at_xy]
  intro zero
  have on_curve := at_xy.equation
  rw [zero] at on_curve
  have seven : ((7 : ℕ) : Field) ≠ 0 := natCast_ne_zero_of_lt (by decide) (by decide)
  refine not_square (by decide) seven (by decide +kernel) ⟨y,?_⟩
  push_cast
  linear_combination -on_curve

theorem abscissa_eq_iff (finite : P ≠ 0) : abscissa P = abscissa Q ↔ P = Q ∨ P = -Q := by
  obtain ⟨x,y,at_xy⟩ := exists_isAt finite
  constructor
  · intro same
    have other : Q ≠ 0 := by
      intro zero
      apply abscissa_ne_zero finite
      rw [same, zero]
      rfl
    obtain ⟨x',y',at_xy'⟩ := exists_isAt other
    rw [abscissa_of at_xy, abscissa_of at_xy'] at same
    rw [← same] at at_xy'
    exact at_xy.same_x at_xy'
  · intro paired
    rcases paired with rfl | rfl
    · rfl
    · have at_neg := at_xy.neg
      rw [neg_neg] at at_neg
      rw [abscissa_of at_xy, abscissa_of at_neg]

end Abscissa

theorem toZMod_one : one.toZMod = 1 := by
  change ((1 : ℕ) : ZMod order) = 1
  exact Nat.cast_one

theorem quotient_toZMod (a s : Scalar) : (a * (one / s)).toZMod = a.toZMod / s.toZMod := by
  rw [FFInt.toZMod_mul, FFInt.toZMod_div, toZMod_one, mul_one_div]

theorem xScalar_affine (x : Coordinate) (y : Option Coordinate) :
    xScalar (.affine (some x) y) = int order x.value := rfl

theorem mul_base_finite {k : Nat} (positive : 0 < k) (below : k < order) :
    ∃ x y, mul k G = .ok (.affine (some x) (some y)) ∧ IsAt (k • base) x.toZMod y.toZMod := by
  obtain ⟨x,y,run,holds⟩ := mul_base below
  obtain ⟨x',y',rfl,rfl,at_xy⟩ := holds.coordinates (base_finite positive below)
  exact ⟨x',y',run,at_xy⟩

/-- The nonce that the draws come to. -/
def nonce (candidates : List Nat) : Option Nat :=
  candidates.find? fun k => 0 < k ∧ k < order - 1

theorem secureRandom_some {candidates rest : List Nat} {k : Nat}
    (drawn : secureRandom (order - 1) candidates = some (k, rest)) :
    k < order - 1 ∧ rest.length < candidates.length ∧
      nonce candidates = if k = 0 then nonce rest else some k := by
  induction candidates with
  | nil => cases drawn
  | cons candidate candidates ih =>
    rw [secureRandom] at drawn
    split at drawn
    case isTrue small =>
      cases drawn
      refine ⟨small,Nat.lt_succ_self _,?_⟩
      split_ifs with zero
      · rw [nonce, List.find?_cons_of_neg (by simp [zero])]
        rfl
      · rw [nonce, List.find?_cons_of_pos (by simp [small]; omega)]
    case isFalse large =>
      obtain ⟨small,shorter,chosen⟩ := ih drawn
      refine ⟨small,shorter.trans (Nat.lt_succ_self _),?_⟩
      rw [nonce, List.find?_cons_of_neg (by simp [large])]
      exact chosen

/-- What the draws end on, where they end. -/
theorem drawLoop_spec {fuel : Nat} {candidates : List Nat} {k : Nat} {r : Scalar}
    (run : drawLoop fuel candidates = .ok (some (k, r))) :
    nonce candidates = some k ∧ 0 < k ∧ k < order ∧ r.value = (abscissa (k • base)).val := by
  induction fuel generalizing candidates with
  | zero => cases run
  | succ fuel ih =>
    rw [drawLoop] at run
    cases drawn : secureRandom (order - 1) candidates with
    | none =>
      rw [drawn] at run
      cases run
    | some choice =>
      obtain ⟨k',rest⟩ := choice
      obtain ⟨small,_,chosen⟩ := secureRandom_some drawn
      rw [drawn] at run
      dsimp only at run
      split at run
      case isTrue zero =>
        rw [chosen, if_pos zero]
        exact ih run
      case isFalse positive =>
        obtain ⟨x,y,multiplied,at_xy⟩ := mul_base_finite (Nat.pos_of_ne_zero positive)
          (Nat.lt_of_lt_of_le small (Nat.sub_le _ _))
        rw [bind_ready multiplied] at run
        obtain ⟨r',taken,run⟩ := bind_ran.mp run
        have r_value : x.value = r'.value := int_iff.mp taken
        have nonzero : r' ≠ zero := by
          intro none
          apply abscissa_ne_zero at_xy.ne_zero
          rw [abscissa_of at_xy, ← ZMod.val_eq_zero, ← value_eq, r_value, none]
          rfl
        rw [if_neg nonzero] at run
        cases run
        refine ⟨by rw [chosen, if_neg positive],Nat.pos_of_ne_zero positive,?_,?_⟩
        · exact Nat.lt_of_lt_of_le small (Nat.sub_le _ _)
        · rw [← r_value, abscissa_of at_xy, value_eq]

section Scalars
variable (d e k : Nat)

noncomputable def rScalar : ZMod order := ((abscissa (k • base)).val : ZMod order)

noncomputable def anyScalar : ZMod order := (e + rScalar k * d) / k

/-- The one of the two possible `s` that is low. -/
noncomputable def lowScalar : ZMod order :=
  if (anyScalar d e k).val > maximum then -anyScalar d e k else anyScalar d e k

variable {d e k}

theorem lowScalar_signed (unit : (k : ZMod order) ≠ 0) :
    lowScalar d e k * k = e + rScalar k * d ∨ lowScalar d e k * k = -(e + rScalar k * d) := by
  have whole : anyScalar d e k * k = e + rScalar k * d := div_mul_cancel₀ _ unit
  rw [lowScalar]
  split_ifs
  · exact Or.inr (by rw [neg_mul, whole])
  · exact Or.inl whole

theorem lowScalar_val (nonzero : anyScalar d e k ≠ 0) :
    (lowScalar d e k).val = if (anyScalar d e k).val > maximum
      then order - (anyScalar d e k).val else (anyScalar d e k).val := by
  rw [lowScalar]
  split_ifs
  · rw [ZMod.neg_val, if_neg nonzero]
  · rfl

theorem lowScalar_range (nonzero : anyScalar d e k ≠ 0) :
    0 < (lowScalar d e k).val ∧ (lowScalar d e k).val ≤ (order - 1) / 2 := by
  have positive : 0 < (anyScalar d e k).val := ZMod.val_pos.mpr nonzero
  have below := ZMod.val_lt (anyScalar d e k)
  have half : maximum = (order - 1) / 2 := by decide
  have odd : order = 2 * maximum + 1 := by decide
  rw [lowScalar_val nonzero, ← half]
  split_ifs
  · omega
  · omega

end Scalars

theorem quotient_anyScalar {r : Scalar} (k d e : Scalar) (taken : r.toZMod = rScalar k.value) :
    (one / k * (e + r * d)).toZMod = anyScalar d.value e.value k.value := by
  rw [FFInt.toZMod_mul, FFInt.toZMod_div, FFInt.toZMod_add, FFInt.toZMod_mul, taken,
    toZMod_one, anyScalar, one_div_mul_eq_div]
  rfl

theorem eq_zero_iff {a : Scalar} : a = zero ↔ a.toZMod = 0 := by
  have none : zero.toZMod = 0 := Nat.cast_zero
  rw [← none, FFInt.toZMod_inj]

/-- A signature that is returned is the one of the nonce drawn. -/
theorem sign_spec {d e r s : Nat} {candidates : List Nat}
    (returned : sign d e candidates = .ok (some (r, s))) :
    ∃ k, nonce candidates = some k ∧ 0 < k ∧ k < order ∧ e < order ∧ r < order ∧
      r = (abscissa (k • base)).val ∧ anyScalar d e k ≠ 0 ∧ s = (lowScalar d e k).val := by
  obtain ⟨e',e_same,run⟩ := bind_ran.mp returned
  obtain ⟨drawn,draws,run⟩ := bind_ran.mp run
  cases drawn with
  | none => cases run
  | some choice =>
    obtain ⟨k,r'⟩ := choice
    obtain ⟨chosen,positive,below,r_value⟩ := drawLoop_spec draws
    obtain ⟨k',k_same,run⟩ := bind_ran.mp run
    obtain ⟨d',d_same,run⟩ := bind_ran.mp run
    rw [int_iff] at e_same k_same d_same
    dsimp only at run
    have taken : r'.toZMod = rScalar k'.value := by
      rw [← k_same]
      exact congrArg Nat.cast r_value
    have scalar := quotient_anyScalar k' d' e' taken
    rw [← d_same, ← e_same, ← k_same] at scalar
    split at run
    case isTrue => cases run
    case isFalse finite =>
      have nonzero : anyScalar d e k ≠ 0 := by
        rw [← scalar, Ne, ← eq_zero_iff]
        exact finite
      cases run
      refine ⟨k,chosen,positive,below,e_same ▸ e'.small,r'.small,r_value,nonzero,?_⟩
      rw [lowScalar_val nonzero, ← scalar, ← value_eq]

/-- The last comparison of `verifySignature`. -/
def compare (r : Scalar) (P : ECPoint) : Except Trap Bool := do
  let px ← xScalar P
  pure (decide (px = r))

theorem verifySignature_eq (e : Scalar) {r s : Scalar} (r_positive : 0 < r.value)
    (s_positive : 0 < s.value) (publicKey : ECPoint) :
    verifySignature e.value r.value s.value publicKey = (do
      let lhs ← mul (e * (one / s)).value G
      let rhs ← mul (r * (one / s)).value publicKey
      let P ← lhs.add rhs
      compare r P) := by
  have inside : ¬ (r.value = 0 ∨ order ≤ r.value ∨ s.value = 0 ∨ order ≤ s.value) := by
    have r_below := r.small
    have s_below := s.small
    omega
  rw [verifySignature, bind_ready (int_iff.mpr rfl), if_neg inside,
    bind_ready (int_iff.mpr rfl), bind_ready (int_iff.mpr rfl)]
  rfl

section Compared
variable {r : Scalar} {k : Nat} (positive : 0 < k) (below : k < order)
  (r_value : r.value = (abscissa (k • base)).val)
include positive below r_value

theorem r_positive : 0 < r.value := by
  rw [r_value]
  exact ZMod.val_pos.mpr (abscissa_ne_zero (base_finite positive below))

omit positive below in
theorem compare_iff (x : Coordinate) (y : Option Coordinate) :
    compare r (.affine (some x) y) = .ok true ↔ x.toZMod = abscissa (k • base) := by
  have same : x.toZMod = abscissa (k • base) ↔ x.value = r.value := by
    rw [r_value, value_eq, (ZMod.val_injective fieldPrime).eq_iff]
  rw [same, ← int_iff]
  constructor
  · intro accepted
    obtain ⟨px,taken,compared⟩ := bind_ran.mp accepted
    have equal : px = r := of_decide_eq_true (Except.ok.inj compared)
    rw [← equal]
    exact taken
  · intro taken
    rw [compare, xScalar_affine, bind_ready taken, decide_eq_true rfl]
    rfl

/-- Of a multiple of the base point the same `x` is found where it is that of the nonce or the
    opposite one. -/
theorem compare_multiple {x y : Option Coordinate} {j : Nat}
    (holds : Holds (.affine x y) (j • base)) :
    compare r (.affine x y) = .ok true ↔ (j : ZMod order) = k ∨ (j : ZMod order) = -k := by
  have finite := base_finite positive below
  rw [← base_order.nsmul_eq_iff, ← base_order.nsmul_eq_neg_iff]
  by_cases zero : j • base = 0
  · rw [zero] at holds ⊢
    rw [holds.none_of_zero]
    constructor
    · intro accepted
      cases accepted
    · rintro (same | opposite)
      · exact absurd same.symm finite
      · exact absurd (neg_eq_zero.mp opposite.symm) finite
  · obtain ⟨x',y',rfl,rfl,at_xy⟩ := holds.coordinates zero
    rw [compare_iff r_value, ← abscissa_eq_iff zero, abscissa_of at_xy]

end Compared

/-- The chord through a point of the curve and the origin, which is none. -/
theorem add_origin {P : Point} {X Y : Coordinate} (at_xy : IsAt P X.toZMod Y.toZMod) :
    ∃ x y, (ECPoint.affine (some X) (some Y)).add (.affine (some (small 0)) (some (small 0))) =
      .ok (.affine (some x) y) ∧ abscissa P ^ 2 * x.toZMod = 7 := by
  have nonzero : X.toZMod ≠ 0 := by
    rw [← abscissa_of at_xy]
    exact abscissa_ne_zero at_xy.ne_zero
  have apart : X ≠ small 0 := fun same => nonzero (toZMod_eq_zero_iff.mpr same)
  have run : (ECPoint.affine (some X) (some Y)).add (.affine (some (small 0)) (some (small 0))) =
      ECPoint.addFinite (.affine (some X) (some Y)) (.affine (some (small 0)) (some (small 0))) := by
    rw [ECPoint.add, if_neg (by simp [ECPoint.isInfinity]), if_neg (by simp [ECPoint.isInfinity])]
  rw [run, addFinite_eq, if_neg fun same => apart same.1, if_neg fun same => apart same.1]
  refine ⟨_,_,rfl,?_⟩
  have on_curve := at_xy.equation
  have origin : (small 0).toZMod = (0 : Field) := Nat.cast_zero
  rw [abscissa_of at_xy]
  simp only [FFInt.toZMod_sub, FFInt.toZMod_mul, FFInt.toZMod_div, origin]
  field_simp
  linear_combination X.toZMod ^ 2 * on_curve

section Sums
variable {r : Scalar} {k : Nat} (positive : 0 < k) (below : k < order)
  (r_value : r.value = (abscissa (k • base)).val)
include positive below r_value

/-- Two multiples of the base point are added, and the sum compared. -/
theorem sum_compared {x₁ y₁ x₂ y₂ : Option Coordinate} {j i : Nat}
    (first : Holds (.affine x₁ y₁) (j • base)) (second : Holds (.affine x₂ y₂) (i • base))
    (finite : (i : ZMod order) ≠ 0) :
    ((ECPoint.affine x₁ y₁).add (.affine x₂ y₂) >>= compare r) = .ok true ↔
      (j + i : ZMod order) = k ∨ (j + i : ZMod order) = -k := by
  have odd := (base_order.nsmul finite).add_self_ne_zero two_lt_order
  obtain ⟨x,y,run,sum⟩ := add_odd first second odd
  rw [← add_nsmul] at sum
  rw [bind_ready run, compare_multiple positive below r_value sum, Nat.cast_add]

/-- The same where the second product is the origin. -/
theorem origin_compared {x y : Option Coordinate} {j : Nat} (j_below : j < order)
    (holds : Holds (.affine x y) (j • base)) :
    ((ECPoint.affine x y).add (.affine (some (small 0)) (some (small 0))) >>= compare r) =
      .ok true ↔ j ≠ 0 ∧ abscissa (j • base) ^ 2 * abscissa (k • base) = 7 := by
  have k_finite := abscissa_ne_zero (base_finite positive below)
  by_cases zero : j = 0
  · have infinite : (ECPoint.affine x y).isInfinity = true :=
      holds.isInfinity.mpr (by rw [zero, zero_nsmul])
    have run : (ECPoint.affine x y).add (.affine (some (small 0)) (some (small 0))) =
        .ok (.affine (some (small 0)) (some (small 0))) := if_pos infinite
    rw [bind_ready run, compare_iff r_value, toZMod_small, Nat.cast_zero]
    constructor
    · intro same
      exact absurd same.symm k_finite
    · intro other
      exact absurd zero other.1
  · have finite := base_finite (Nat.pos_of_ne_zero zero) j_below
    obtain ⟨X,Y,rfl,rfl,at_xy⟩ := holds.coordinates finite
    obtain ⟨x',y',run,chord⟩ := add_origin at_xy
    have square : abscissa (j • base) ^ 2 ≠ 0 := pow_ne_zero 2 (abscissa_ne_zero finite)
    rw [bind_ready run, compare_iff r_value]
    constructor
    · intro same
      rw [← same]
      exact ⟨zero,chord⟩
    · intro other
      exact mul_left_cancel₀ square (chord.trans other.2.symm)

end Sums

/-- What the check comes to with these two multipliers: the public point is the base point, or
    no bit of its multiplier is missed, or bits are missed and the same `x` is met all the same. -/
def Lands (d k u1 u2 : Nat) : Prop :=
  d = 1 ∨ taken u2 = u2 ∨
    if taken u2 = 0 then u1 ≠ 0 ∧ abscissa (u1 • base) ^ 2 * abscissa (k • base) = (7 : Nat)
    else order ∣ 2 * u1 + (u2 + taken u2) * d

/-- With some bits of the multiplier in place of all of them. -/
theorem some_bits_iff {d k u1 u2 t : Nat} (unit : (d : ZMod order) ≠ 0) (t_below : t < order)
    (u2_below : u2 < order)
    (sound : (u1 + u2 * d : ZMod order) = k ∨ (u1 + u2 * d : ZMod order) = -k) :
    (u1 + t * d : ZMod order) = k ∨ (u1 + t * d : ZMod order) = -k ↔
      t = u2 ∨ order ∣ 2 * u1 + (u2 + t) * d := by
  have same : (u1 + t * d : ZMod order) = u1 + u2 * d ↔ t = u2 := by
    rw [add_right_inj, mul_left_inj' unit, natCast_eq_iff_of_lt t_below u2_below]
  have opposite : (u1 + t * d : ZMod order) = -(u1 + u2 * d) ↔
      order ∣ 2 * u1 + (u2 + t) * d := by
    have sum : ((2 * u1 + (u2 + t) * d : Nat) : ZMod order) = u1 + t * d + (u1 + u2 * d) := by
      push_cast
      ring
    rw [eq_neg_iff_add_eq_zero, ← sum, ZMod.natCast_eq_zero_iff]
  rw [← same, ← opposite]
  rcases sound with plain | negated
  · rw [plain]
  · rw [negated, neg_neg]
    exact Or.comm

theorem multiple_ne_base {d : Nat} (several : d ≠ 1) (below : d < order) : d • base ≠ base := by
  intro same
  have once : d • base = 1 • base := same.trans (one_nsmul base).symm
  exact natCast_ne_of_lt several below (by decide) (base_order.nsmul_eq_iff.mp once)

/-- The products of the check, their sum and the comparison. -/
theorem products_land {r : Scalar} {d k u1 u2 : Nat} {publicKey : ECPoint}
    (d_positive : 0 < d) (d_below : d < order) (k_positive : 0 < k) (k_below : k < order)
    (r_value : r.value = (abscissa (k • base)).val) (u1_below : u1 < order) (u2_below : u2 < order)
    (u2_positive : 0 < u2) (key : publicKeyPoint d = .ok publicKey)
    (sound : (u1 + u2 * d : ZMod order) = k ∨ (u1 + u2 * d : ZMod order) = -k) :
    (do
      let lhs ← mul u1 G
      let rhs ← mul u2 publicKey
      let P ← lhs.add rhs
      compare r P) = .ok true ↔ Lands d k u1 u2 := by
  obtain ⟨x₁,y₁,first_run,first⟩ := mul_base u1_below
  obtain ⟨X,Y,key_run,at_key⟩ := mul_base_finite d_positive d_below
  cases key_run.symm.trans key
  rw [bind_ready first_run]
  by_cases base_key : d = 1
  · subst base_key
    rw [one_nsmul] at at_key
    obtain ⟨same_x,same_y⟩ := at_key.unique base_isAt
    have public_base : ECPoint.affine (some X) (some Y) = G := by
      rw [G_eq, FFInt.toZMod_inj.mp same_x, FFInt.toZMod_inj.mp same_y]
    obtain ⟨x₂,y₂,second_run,second⟩ := mul_base u2_below
    have u2_unit : (u2 : ZMod order) ≠ 0 := natCast_ne_zero_of_lt u2_positive u2_below
    rw [public_base, bind_ready second_run,
      sum_compared k_positive k_below r_value first second u2_unit]
    rw [Nat.cast_one, mul_one] at sound
    exact iff_of_true sound (Or.inl rfl)
  have other := multiple_ne_base base_key d_below
  have unit : (d : ZMod order) ≠ 0 := natCast_ne_zero_of_lt d_positive d_below
  have has_order := base_order.nsmul unit
  by_cases missed : taken u2 = 0
  · have second_run := mul_missed u2_below at_key has_order other u2_positive.ne' missed
    rw [bind_ready second_run, origin_compared k_positive k_below r_value u1_below first, Lands,
      if_pos missed, missed]
    simp [base_key, u2_positive.ne]
  · obtain ⟨x₂,y₂,second_run,second⟩ := mul_other u2_below at_key has_order other (Or.inr missed)
    have some_bit : (taken u2 : ZMod order) ≠ 0 :=
      natCast_ne_zero_of_lt (Nat.pos_of_ne_zero missed) (taken_below u2_below)
    rw [← mul_nsmul'] at second
    have finite : ((taken u2 * d : Nat) : ZMod order) ≠ 0 := by
      rw [Nat.cast_mul]
      exact mul_ne_zero some_bit unit
    rw [bind_ready second_run, sum_compared k_positive k_below r_value first second finite,
      Nat.cast_mul, some_bits_iff unit (taken_below u2_below) u2_below sound, Lands, if_neg missed]
    simp [base_key]

/-- The check of a signature whose `s` is one of the two possible ones. -/
theorem verifySignature_iff {e r s : Scalar} {d k : Nat} {publicKey : ECPoint}
    (d_positive : 0 < d) (d_below : d < order) (k_positive : 0 < k) (k_below : k < order)
    (r_value : r.value = (abscissa (k • base)).val) (s_positive : 0 < s.value)
    (key : publicKeyPoint d = .ok publicKey)
    (signed : s.toZMod * k = e.toZMod + r.toZMod * d ∨
      s.toZMod * k = -(e.toZMod + r.toZMod * d)) :
    verifySignature e.value r.value s.value publicKey = .ok true ↔
      Lands d k (e * (one / s)).value (r * (one / s)).value := by
  have positive := r_positive k_positive k_below r_value
  have s_unit : s.toZMod ≠ 0 := natCast_ne_zero_of_lt s_positive s.small
  have r_unit : r.toZMod ≠ 0 := natCast_ne_zero_of_lt positive r.small
  have u1_cast : ((e * (one / s)).value : ZMod order) = e.toZMod / s.toZMod := quotient_toZMod e s
  have u2_cast : ((r * (one / s)).value : ZMod order) = r.toZMod / s.toZMod := quotient_toZMod r s
  have u2_positive : 0 < (r * (one / s)).value := by
    rw [Nat.pos_iff_ne_zero]
    intro zero
    rw [zero, Nat.cast_zero] at u2_cast
    exact div_ne_zero r_unit s_unit u2_cast.symm
  rw [verifySignature_eq e positive s_positive]
  refine products_land d_positive d_below k_positive k_below r_value (e * (one / s)).small
    (r * (one / s)).small u2_positive key ?_
  rw [u1_cast, u2_cast, div_mul_eq_mul_div, ← add_div, div_eq_iff s_unit, div_eq_iff s_unit]
  rcases signed with plain | negated
  · exact Or.inl (by rw [mul_comm (k : ZMod order), plain])
  · exact Or.inr (by rw [neg_mul, mul_comm (k : ZMod order), negated, neg_neg])

/-- The number `verifySignature` multiplies the base point by. -/
noncomputable def baseScalar (d e k : Nat) : Nat := ((e : ZMod order) / lowScalar d e k).val

/-- The number it multiplies the public point by. -/
noncomputable def keyScalar (d e k : Nat) : Nat := (rScalar k / lowScalar d e k).val

/-- A signature that `sign` returns is in range and is accepted exactly if the check lands: it
    misses no bit of the number that multiplies the public point, or none that matters. -/
theorem signature_verifies_iff {d e r s : Nat} {candidates : List Nat} (d_positive : 0 < d)
    (d_below : d < order) (returned : sign d e candidates = .ok (some (r, s))) :
    (0 < r ∧ r < order ∧ 0 < s ∧ s ≤ (order - 1) / 2 ∧ ∃ publicKey,
      publicKeyPoint d = .ok publicKey ∧ verifySignature e r s publicKey = .ok true) ↔
      ∃ k ∈ nonce candidates, Lands d k (baseScalar d e k) (keyScalar d e k) := by
  obtain ⟨k,chosen,k_positive,k_below,e_below,r_below,r_value,nonzero,s_value⟩ :=
    sign_spec returned
  obtain ⟨s_positive,s_low⟩ := lowScalar_range nonzero
  rw [← s_value] at s_positive s_low
  have s_below : s < order := by
    rw [s_value]
    exact ZMod.val_lt _
  obtain ⟨X,Y,key,_⟩ := mul_base_finite d_positive d_below
  have s_cast : (s : ZMod order) = lowScalar d e k := by
    rw [s_value, ZMod.natCast_val, ZMod.cast_id]
  have r_cast : (r : ZMod order) = rScalar k := congrArg Nat.cast r_value
  have unit : (k : ZMod order) ≠ 0 := natCast_ne_zero_of_lt k_positive k_below
  have signed : (s : ZMod order) * k = e + r * d ∨ (s : ZMod order) * k = -(e + r * d) := by
    rw [s_cast, r_cast]
    exact lowScalar_signed unit
  have accepted := verifySignature_iff (e := ⟨e,e_below⟩) (r := ⟨r,r_below⟩) (s := ⟨s,s_below⟩)
    d_positive d_below k_positive k_below r_value s_positive key signed
  have u1 : (⟨e,e_below⟩ * (one / ⟨s,s_below⟩) : Scalar).value = baseScalar d e k := by
    rw [value_eq, quotient_toZMod, baseScalar, ← s_cast]
    rfl
  have u2 : (⟨r,r_below⟩ * (one / ⟨s,s_below⟩) : Scalar).value = keyScalar d e k := by
    rw [value_eq, quotient_toZMod, keyScalar, ← s_cast, ← r_cast]
    rfl
  rw [u1, u2] at accepted
  have positive : 0 < r := r_positive (r := ⟨r,r_below⟩) k_positive k_below r_value
  constructor
  · rintro ⟨_,_,_,_,publicKey,public_key,verified⟩
    cases public_key.symm.trans key
    exact ⟨k,chosen,accepted.mp verified⟩
  · rintro ⟨k',chosen',lands⟩
    cases chosen'.symm.trans chosen
    exact ⟨positive,r_below,s_positive,s_low,_,key,accepted.mpr lands⟩

/-- The signature of 34 by the key one, with the nonce one. -/
def baseKeyS : Nat := 0x79be667ef9dcbbac55a06295ce870b07029bfcdb2dce28d959f2815b16f817ba

theorem base_key_verifies :
    0 < gX.value ∧ gX.value < order ∧ 0 < baseKeyS ∧ baseKeyS ≤ (order - 1) / 2 ∧
      ∃ publicKey, publicKeyPoint 1 = .ok publicKey ∧
        verifySignature 34 gX.value baseKeyS publicKey = .ok true := by
  have returned : sign 1 34 [1] = .ok (some (gX.value, baseKeyS)) := by decide +kernel
  exact (signature_verifies_iff (by decide) (by decide) returned).mpr
    ⟨1,by decide,Or.inl rfl⟩

/-- Twice the base point. -/
def doubledPoint : ECPoint :=
  .affine
    (some ⟨0xc6047f9441ed7d6d3045406e95c07cd85c778e4b8cef3ca7abac09b95c709ee5,by decide⟩)
    (some ⟨0x1ae168fea63dc339a3c58419466ceaeef7f632653266d0e1236431a950cfe52a,by decide⟩)

theorem doubled_computed : publicKeyPoint 2 = .ok doubledPoint := by decide +kernel

theorem doubled_holds : Holds doubledPoint (2 • base) := by
  obtain ⟨x,y,multiplied,at_xy⟩ := mul_base_finite (k := 2) (by decide) (by decide)
  cases doubled_computed.symm.trans multiplied
  exact at_xy

def doubledKeyS : Scalar :=
  ⟨0xc8333020c4688a754bf3ad462f1e9f0b576e33053ac4e890bed5bd6a24611ef,by decide⟩

def sampleDigest : Scalar := ⟨34,by decide⟩

def baseX : Scalar := ⟨gX.value,by decide⟩

theorem doubled_signed : doubledKeyS.toZMod * (1 : ℕ) =
    -(sampleDigest.toZMod + baseX.toZMod * (2 : ℕ)) := by
  have divides : order ∣ doubledKeyS.value * 1 + (sampleDigest.value + baseX.value * 2) := by
    decide
  have vanishes := (ZMod.natCast_eq_zero_iff _ order).mpr divides
  rw [eq_neg_iff_add_eq_zero, ← vanishes]
  push_cast
  rfl

theorem doubled_missed : ¬ Lands 2 1 (sampleDigest * (one / doubledKeyS)).value
    (baseX * (one / doubledKeyS)).value := by
  rw [Lands, not_or, not_or, if_neg (by decide +kernel)]
  exact ⟨by decide,by decide +kernel,by decide +kernel⟩

/-- By the key two the highest bit of the number that multiplies the public point is missed. -/
theorem doubled_key_refused :
    sign 2 34 [1] = .ok (some (gX.value, doubledKeyS.value)) ∧
      publicKeyPoint 2 = .ok doubledPoint ∧
      verifySignature 34 gX.value doubledKeyS.value doubledPoint ≠ .ok true := by
  refine ⟨by decide +kernel,doubled_computed,?_⟩
  have r_value : gX.value = (abscissa (1 • base)).val := by
    rw [one_nsmul, abscissa_of base_isAt, ← value_eq]
  have check := verifySignature_iff (e := sampleDigest) (r := baseX) (s := doubledKeyS)
    (k := 1) (by decide) (by decide) (by decide) (by decide) r_value (by decide) doubled_computed
    (Or.inr doubled_signed)
  exact mt check.mp doubled_missed

end SignatureCheck
