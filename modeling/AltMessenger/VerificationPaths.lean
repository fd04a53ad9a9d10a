import AltMessenger.MultiplicationPaths

/-!
`verifySignature` beside the equation it checks. The sum it compares is that of the equation where
no bit of the second multiplier is missed; it stops the program where the sum is at infinity and
where its `x` is no scalar.
-/
namespace VerificationPaths
open SwiftRuntime FiniteFieldInteger ECurve ShortCurve PointArithmetic DoubleAndAdd BasePointOrder
open ScalarMultiples ECKeySignature SignatureCheck MultiplicationPaths
open BitcoinKeys (fieldPrime order)

section Equation
variable (e r s : Nat) (Q : Point)

noncomputable def quotient (a s : Nat) : Nat := ((a : ZMod order) / (s : ZMod order)).val

/-- `(e/s) G + (r/s) Q` -/
noncomputable def combined : Point := quotient e s • base + quotient r s • Q

/-- The same with those bits of the second multiplier that the loop of doublings takes. -/
noncomputable def reduced : Point := quotient e s • base + taken (quotient r s) • Q

def InRange : Prop := 0 < r ∧ r < order ∧ 0 < s ∧ s < order

instance : Decidable (InRange r s) := by
  unfold InRange
  infer_instance

/-- The signature is one of the digest by the key of the point. -/
def Valid : Prop :=
  InRange r s ∧ combined e r s Q ≠ 0 ∧ (abscissa (combined e r s Q)).val ≡ r [MOD order]

/-- The program says of a signature what the equation says. -/
def Follows (publicKey : ECPoint) : Prop :=
  ∃ accepted, verifySignature e r s publicKey = .ok accepted ∧ (accepted = true ↔ Valid e r s Q)

/-- An `x` that is a scalar, and that is `r` just for a valid signature. -/
def Settles (x : Field) : Prop := x.val < order ∧ (x.val = r ↔ Valid e r s Q)

/-- The `x` of the chord through `(e/s) G` and the origin. -/
noncomputable def chordX : Field :=
  if quotient e s = 0 then 0 else (7 : Nat) / abscissa (quotient e s • base) ^ 2

/-- What becomes of the sum: no bit is missed and it has an `x` that is a scalar, or some bits or
    all are missed, and what is compared in its place settles the matter nevertheless. -/
structure Met : Prop where
  whole : Q = base ∨ Reached (quotient r s) →
    combined e r s Q ≠ 0 ∧ (abscissa (combined e r s Q)).val < order
  partly : ¬ (Q = base ∨ Reached (quotient r s)) → taken (quotient r s) ≠ 0 →
    reduced e r s Q ≠ 0 ∧ Settles e r s Q (abscissa (reduced e r s Q))
  missed : ¬ (Q = base ∨ Reached (quotient r s)) → taken (quotient r s) = 0 →
    Settles e r s Q (chordX e s)

end Equation

section Answers
variable {r : Scalar} {valid : Prop}

theorem compared_iff (x : Coordinate) (y : Option Coordinate) :
    (∃ accepted, SignatureCheck.compare r (.affine (some x) y) = .ok accepted ∧
        (accepted = true ↔ valid)) ↔
      x.toZMod.val < order ∧ (x.toZMod.val = r.value ↔ valid) := by
  rw [← value_eq]
  by_cases small : x.value < order
  · have taken : int order x.value = .ok ⟨x.value,small⟩ := int_iff.mpr rfl
    have answer : SignatureCheck.compare r (.affine (some x) y) =
        .ok (decide (x.value = r.value)) := by
      have same : (⟨x.value,small⟩ : Scalar) = r ↔ x.value = r.value := by
        rw [← FFInt.toZMod_inj, ← (ZMod.val_injective order).eq_iff, ← value_eq, ← value_eq]
      rw [SignatureCheck.compare, xScalar_affine, bind_ready taken, decide_eq_decide.mpr same]
      rfl
    rw [answer]
    simp [small]
  · have stopped : SignatureCheck.compare r (.affine (some x) y) = .error .assertion := by
      rw [SignatureCheck.compare, xScalar_affine, int, dif_neg small]
      rfl
    rw [stopped]
    simp [small]

/-- The sum of two points of the curve, the second of which is neither zero nor its own opposite. -/
theorem sum_answers {x₁ y₁ x₂ y₂ : Option Coordinate} {P S : Point}
    (first : Holds (.affine x₁ y₁) P) (second : Holds (.affine x₂ y₂) S) (odd : S + S ≠ 0) :
    (∃ accepted, ((ECPoint.affine x₁ y₁).add (.affine x₂ y₂) >>= SignatureCheck.compare r) =
        .ok accepted ∧ (accepted = true ↔ valid)) ↔
      P + S ≠ 0 ∧ (abscissa (P + S)).val < order ∧ ((abscissa (P + S)).val = r.value ↔ valid) := by
  obtain ⟨x,y,run,sum⟩ := add_odd first second odd
  rw [bind_ready run]
  by_cases zero : P + S = 0
  · have stopped : SignatureCheck.compare r (.affine x y) = .error .unwrap := by
      rw [zero] at sum
      rw [sum.none_of_zero]
      rfl
    rw [stopped]
    simp [zero]
  · obtain ⟨x',y',rfl,rfl,at_xy⟩ := sum.coordinates zero
    rw [compared_iff, abscissa_of at_xy]
    simp [zero]

/-- The sum with the origin in place of the second product. -/
theorem origin_answers {x y : Option Coordinate} {e s : Nat} (e_below : quotient e s < order)
    (first : Holds (.affine x y) (quotient e s • base)) :
    (∃ accepted, ((ECPoint.affine x y).add (.affine (some (small 0)) (some (small 0))) >>=
        SignatureCheck.compare r) = .ok accepted ∧ (accepted = true ↔ valid)) ↔
      (chordX e s).val < order ∧ ((chordX e s).val = r.value ↔ valid) := by
  by_cases zero : quotient e s = 0
  · have infinite : (ECPoint.affine x y).isInfinity = true :=
      first.isInfinity.mpr (by rw [zero, zero_nsmul])
    have run : (ECPoint.affine x y).add (.affine (some (small 0)) (some (small 0))) =
        .ok (.affine (some (small 0)) (some (small 0))) := if_pos infinite
    have none : (small 0).toZMod = (0 : Field) := Nat.cast_zero
    rw [bind_ready run, compared_iff, none, chordX, if_pos zero]
  · have finite := base_finite (Nat.pos_of_ne_zero zero) e_below
    obtain ⟨X,Y,rfl,rfl,at_xy⟩ := first.coordinates finite
    obtain ⟨x',y',run,chord⟩ := add_origin at_xy
    have square : abscissa (quotient e s • base) ^ 2 ≠ 0 :=
      pow_ne_zero 2 (abscissa_ne_zero finite)
    have met : x'.toZMod = chordX e s := by
      rw [chordX, if_neg zero, eq_div_iff square, mul_comm, Nat.cast_ofNat]
      exact chord
    rw [bind_ready run, compared_iff, met]

end Answers

section Paths
variable {e r s : Nat} {Q : Point} {X Y : Coordinate}

theorem quotient_below (a s : Nat) : quotient a s < order := ZMod.val_lt _

theorem quotient_positive (in_range : InRange r s) : quotient r s ≠ 0 := by
  obtain ⟨r_positive,r_below,s_positive,s_below⟩ := in_range
  rw [quotient, Ne, ZMod.val_eq_zero]
  exact div_ne_zero (natCast_ne_zero_of_lt r_positive r_below)
    (natCast_ne_zero_of_lt s_positive s_below)

/-- Where the two points are, the comparison is that of the equation. -/
theorem settles_whole (in_range : InRange r s) (finite : combined e r s Q ≠ 0)
    (small : (abscissa (combined e r s Q)).val < order) :
    (abscissa (combined e r s Q)).val = r ↔ Valid e r s Q := by
  have same : (abscissa (combined e r s Q)).val ≡ r [MOD order] ↔
      (abscissa (combined e r s Q)).val = r := by
    rw [Nat.ModEq, Nat.mod_eq_of_lt small, Nat.mod_eq_of_lt in_range.2.1]
  rw [Valid, same]
  exact ⟨fun equal => ⟨in_range,finite,equal⟩,fun valid => valid.2.2⟩

/-- Inside the range the program multiplies, adds and compares. -/
theorem follows_eq (e_below : e < order) (in_range : InRange r s) (publicKey : ECPoint) :
    verifySignature e r s publicKey = (do
      let lhs ← mul (quotient e s) G
      let rhs ← mul (quotient r s) publicKey
      let P ← lhs.add rhs
      SignatureCheck.compare ⟨r,in_range.2.1⟩ P) := by
  obtain ⟨r_positive,r_below,s_positive,s_below⟩ := in_range
  have computed := @verifySignature_eq ⟨e,e_below⟩ ⟨r,r_below⟩ ⟨s,s_below⟩ r_positive s_positive
    publicKey
  have u1 : (⟨e,e_below⟩ * (one / ⟨s,s_below⟩) : Scalar).value = quotient e s := by
    rw [value_eq, quotient_toZMod]
    rfl
  have u2 : (⟨r,r_below⟩ * (one / ⟨s,s_below⟩) : Scalar).value = quotient r s := by
    rw [value_eq, quotient_toZMod]
    rfl
  rwa [u1, u2] at computed

theorem follows_outside (e_below : e < order) (outside : ¬ InRange r s) (publicKey : ECPoint) :
    Follows e r s Q publicKey := by
  refine ⟨false,?_,by simp [Valid, outside]⟩
  have refused : r = 0 ∨ order ≤ r ∨ s = 0 ∨ order ≤ s := by
    rw [InRange] at outside
    omega
  have digest : int order e = .ok ⟨e,e_below⟩ := int_iff.mpr rfl
  rw [verifySignature, bind_ready digest, if_pos refused]
  rfl

/-- The public point is the base point. -/
theorem follows_base (e_below : e < order) (in_range : InRange r s) :
    Follows e r s base G ↔ combined e r s base ≠ 0 ∧
      (abscissa (combined e r s base)).val < order := by
  obtain ⟨x₁,y₁,first_run,first⟩ := mul_base (quotient_below e s)
  obtain ⟨x₂,y₂,second_run,second⟩ := mul_base (quotient_below r s)
  have unit : (quotient r s : ZMod order) ≠ 0 :=
    natCast_ne_zero_of_lt (Nat.pos_of_ne_zero (quotient_positive in_range)) (quotient_below r s)
  have odd := (base_order.nsmul unit).add_self_ne_zero two_lt_order
  rw [Follows, follows_eq e_below in_range, bind_ready first_run, bind_ready second_run,
    sum_answers first second odd]
  refine and_congr_right fun finite => and_iff_left_of_imp fun small => ?_
  exact settles_whole in_range finite small

variable (at_xy : IsAt Q X.toZMod Y.toZMod) (has_order : HasOrder order Q) (other : Q ≠ base)
include at_xy has_order other

/-- Some bits of the second multiplier are taken. -/
theorem follows_reduced (e_below : e < order) (in_range : InRange r s)
    (some_bit : taken (quotient r s) ≠ 0) :
    Follows e r s Q (.affine (some X) (some Y)) ↔
      reduced e r s Q ≠ 0 ∧ Settles e r s Q (abscissa (reduced e r s Q)) := by
  obtain ⟨x₁,y₁,first_run,first⟩ := mul_base (quotient_below e s)
  obtain ⟨x₂,y₂,second_run,second⟩ :=
    mul_other (quotient_below r s) at_xy has_order other (Or.inr some_bit)
  have unit : (taken (quotient r s) : ZMod order) ≠ 0 :=
    natCast_ne_zero_of_lt (Nat.pos_of_ne_zero some_bit) (taken_below (quotient_below r s))
  have odd := (has_order.nsmul unit).add_self_ne_zero two_lt_order
  rw [Follows, follows_eq e_below in_range, bind_ready first_run, bind_ready second_run,
    sum_answers first second odd]
  rfl

/-- No bit of it is taken. -/
theorem follows_missed (e_below : e < order) (in_range : InRange r s)
    (none : taken (quotient r s) = 0) :
    Follows e r s Q (.affine (some X) (some Y)) ↔ Settles e r s Q (chordX e s) := by
  obtain ⟨x₁,y₁,first_run,first⟩ := mul_base (quotient_below e s)
  have second_run := mul_missed (quotient_below r s) at_xy has_order other
    (quotient_positive in_range) none
  rw [Follows, follows_eq e_below in_range, bind_ready first_run, bind_ready second_run,
    origin_answers (quotient_below e s) first]
  rfl

end Paths

theorem doubledX_below :
    0xc6047f9441ed7d6d3045406e95c07cd85c778e4b8cef3ca7abac09b95c709ee5 < fieldPrime := by decide

/-- The `x` of twice the base point. -/
def doubledX : Coordinate :=
  ⟨0xc6047f9441ed7d6d3045406e95c07cd85c778e4b8cef3ca7abac09b95c709ee5,doubledX_below⟩

theorem doubled_range : InRange doubledX.value doubledX.value := by decide

/-- The signature of zero whose `r` and `s` are the `x` of the public point. -/
theorem doubled_met : Met 0 doubledX.value doubledX.value (2 • base) := by
  obtain ⟨positive,below,-⟩ := doubled_range
  have unit := natCast_ne_zero_of_lt positive below
  have once : quotient doubledX.value doubledX.value = 1 := by
    rw [quotient, div_self unit]
    decide
  have never : quotient 0 doubledX.value = 0 := by
    rw [quotient, Nat.cast_zero, zero_div, ZMod.val_zero]
  have point : combined 0 doubledX.value doubledX.value (2 • base) = 2 • base := by
    rw [combined, once, never, zero_nsmul, one_nsmul, zero_add]
  have reached : Reached (quotient doubledX.value doubledX.value) := by
    rw [once]
    exact Or.inl (by decide)
  refine ⟨fun _ => ?_,fun apart => absurd (Or.inr reached) apart,
    fun apart => absurd (Or.inr reached) apart⟩
  rw [point]
  refine ⟨base_finite (by decide) (by decide),?_⟩
  rw [abscissa_of doubled_holds, ← value_eq]
  decide

end VerificationPaths
