import AltMessenger.SignatureCheck

/-!
The two loops of `ECKey.sign`, one inside the other, over an endless sequence of nonces. The inner
one draws while there is no `r`; the outer one goes round while there is no `s`, but `r` is kept.
-/
namespace SigningLoop
open SwiftRuntime FiniteFieldInteger ECurve ShortCurve PointArithmetic DoubleAndAdd BasePointOrder
open ScalarMultiples ECKeySignature SignatureCheck
open BitcoinKeys (order)

/-- What `secureRandom(n - 1)` gives, time after time; the `x` of each multiple is a scalar. -/
structure Nonces where
  draw : Nat → Nat
  below : ∀ i, draw i < order - 1
  inside : ∀ i, (abscissa (draw i • base)).val < order

/-- The variables of `sign`, and how many nonces have been drawn. -/
structure Variables where
  k : Nat
  r : Scalar
  s : Scalar
  isLowS : Bool
  drawn : Nat

/-- At the test of the outer loop, at that of the inner loop, or past both. -/
inductive Place where
  | outer (v : Variables)
  | inner (v : Variables)
  | returned (r s : Nat)

/-- The body of the inner loop. -/
def draw (nonces : Nonces) (v : Variables) : Except Trap Variables :=
  let v := { v with k := nonces.draw v.drawn, drawn := v.drawn + 1 }
  if v.k = 0 then pure v
  else do
    let R ← mul v.k G
    let r ← xScalar R
    pure { v with r }

/-- The rest of the outer loop's body. -/
def compute (privateKey : Nat) (e : Scalar) (v : Variables) : Except Trap Variables := do
  let k ← int order v.k
  let d ← int order privateKey
  let s := one / k * (e + v.r * d)
  pure { v with s, isLowS := if s.value > maximum then false else v.isLowS }

section Source
variable (privateKey : Nat) (e : Scalar) (nonces : Nonces)

def step : Place → Except Trap Place
  | .outer v =>
    if v.s = zero then pure (.inner v)
    else pure (.returned v.r.value (if v.isLowS then v.s.value else order - v.s.value))
  | .inner v =>
    if v.r = zero then do
      let v ← draw nonces v
      pure (.inner v)
    else do
      let v ← compute privateKey e v
      pure (.outer v)
  | .returned r s => pure (.returned r s)

def run : Nat → Place → Except Trap Place
  | 0, place => pure place
  | steps + 1, place => do
    let place ← step privateKey e nonces place
    run steps place

/-- Where `sign` is after so many steps. -/
def sign (digest steps : Nat) : Except Trap Place := do
  let e ← int order digest
  run privateKey e nonces steps (.outer ⟨0,zero,zero,true,0⟩)

end Source

/-- The nonce gives an `r` and an `s`. -/
def Usable (d e k : Nat) : Prop := k ≠ 0 ∧ rScalar k ≠ 0 ∧ anyScalar d e k ≠ 0

/-- The loops are left with a signature of one of the nonces. -/
def Leaves (d e : Nat) (nonces : Nonces) : Prop :=
  ∃ steps r s, sign d nonces e steps = .ok (.returned r s) ∧ r ≠ 0 ∧ s ≠ 0 ∧
    ∃ i, r = (abscissa (nonces.draw i • base)).val ∧ s = (lowScalar d e (nonces.draw i)).val

variable {d : Nat} {e : Scalar} {nonces : Nonces} {place next : Place}

theorem run_then {first later : Nat} (there : run d e nonces first place = .ok next) :
    run d e nonces (first + later) place = run d e nonces later next := by
  induction first generalizing place with
  | zero =>
    cases there
    rw [Nat.zero_add]
  | succ first ih =>
    obtain ⟨middle,one,rest⟩ := bind_ran.mp there
    rw [Nat.add_right_comm, run, bind_ready one]
    exact ih rest

theorem run_returned (r s steps : Nat) :
    run d e nonces steps (.returned r s) = .ok (.returned r s) := by
  induction steps with
  | zero => rfl
  | succ steps ih => exact ih

/-- What is returned from one place is returned from every other on the way. -/
theorem run_returns {first later r s : Nat} (there : run d e nonces first place = .ok next)
    (left : run d e nonces later place = .ok (.returned r s)) :
    run d e nonces later next = .ok (.returned r s) := by
  have after : run d e nonces (later + first) place = run d e nonces first (.returned r s) :=
    run_then left
  rw [run_returned, Nat.add_comm later first, run_then there] at after
  exact after

noncomputable def Nonces.r (nonces : Nonces) (i : Nat) : Scalar :=
  ⟨(abscissa (nonces.draw i • base)).val,nonces.inside i⟩

theorem Nonces.r_toZMod (nonces : Nonces) (i : Nat) :
    (nonces.r i).toZMod = rScalar (nonces.draw i) := rfl

theorem Nonces.draw_lt (nonces : Nonces) (i : Nat) : nonces.draw i < order :=
  (nonces.below i).trans_le (Nat.sub_le order 1)

theorem Nonces.multiplied {i : Nat} (drawn : nonces.draw i ≠ 0) :
    ∃ R, mul (nonces.draw i) G = .ok R ∧ xScalar R = .ok (nonces.r i) := by
  obtain ⟨x,y,multiplied,at_xy⟩ :=
    mul_base_finite (Nat.pos_of_ne_zero drawn) (nonces.draw_lt i)
  refine ⟨_,multiplied,?_⟩
  rw [xScalar_affine, int_iff]
  exact (value_eq x).trans (congrArg ZMod.val (abscissa_of at_xy).symm)

theorem draw_zero {v : Variables} (skipped : nonces.draw v.drawn = 0) :
    draw nonces v = .ok { v with k := 0, drawn := v.drawn + 1 } := by
  rw [draw, skipped]
  rfl

theorem draw_nonce {v : Variables} (drawn : nonces.draw v.drawn ≠ 0) :
    draw nonces v = .ok
      { v with k := nonces.draw v.drawn, drawn := v.drawn + 1, r := nonces.r v.drawn } := by
  obtain ⟨R,multiplied,taken⟩ := nonces.multiplied drawn
  rw [draw]
  dsimp only
  rw [if_neg drawn, bind_ready multiplied, bind_ready taken]
  rfl

theorem compute_spec {v : Variables} (d_below : d < order) (below : v.k < order)
    (taken : v.r.toZMod = rScalar v.k) :
    ∃ s : Scalar, s.toZMod = anyScalar d e.value v.k ∧ compute d e v =
      .ok { v with s := s, isLowS := if s.value > maximum then false else v.isLowS } := by
  have nonce : int order v.k = .ok ⟨v.k,below⟩ := int_iff.mpr rfl
  have key : int order d = .ok ⟨d,d_below⟩ := int_iff.mpr rfl
  let k : Scalar := ⟨v.k,below⟩
  let d' : Scalar := ⟨d,d_below⟩
  refine ⟨_,quotient_anyScalar k d' e taken,?_⟩
  rw [compute, bind_ready nonce, bind_ready key]
  rfl

theorem Nonces.r_ne_zero {i : Nat} (drawn : nonces.draw i ≠ 0) : nonces.r i ≠ zero := by
  intro none
  have positive : 0 < (nonces.r i).value :=
    r_positive (Nat.pos_of_ne_zero drawn) (nonces.draw_lt i) rfl
  rw [none] at positive
  exact absurd positive (by decide)

theorem Nonces.rScalar_ne_zero {i : Nat} (drawn : nonces.draw i ≠ 0) :
    rScalar (nonces.draw i) ≠ 0 := by
  rw [← nonces.r_toZMod, Ne, ← eq_zero_iff]
  exact nonces.r_ne_zero drawn

theorem step_draws {v drawn : Variables} (none : v.r = zero)
    (draws : draw nonces v = .ok drawn) : step d e nonces (.inner v) = .ok (.inner drawn) := by
  rw [step, if_pos none, bind_ready draws]
  rfl

theorem step_computes {v computed : Variables} (chosen : v.r ≠ zero)
    (computes : compute d e v = .ok computed) :
    step d e nonces (.inner v) = .ok (.outer computed) := by
  rw [step, if_neg chosen, bind_ready computes]
  rfl

theorem step_returns {v : Variables} (finite : v.s ≠ zero) : step d e nonces (.outer v) =
    .ok (.returned v.r.value (if v.isLowS then v.s.value else order - v.s.value)) :=
  if_neg finite

theorem run_one (one : step d e nonces place = .ok next) : run d e nonces 1 place = .ok next := by
  rw [run, bind_ready one]
  rfl

/-- The variables before a nonce has been found; at first none has been drawn. -/
def searching (drawn : Nat) : Variables := ⟨0,zero,zero,true,drawn⟩

/-- While zeros are drawn nothing moves but the place in the draws. -/
theorem zeros_skipped {i : Nat} (zeros : ∀ j < i, nonces.draw j = 0) :
    run d e nonces i (.inner (searching 0)) = .ok (.inner (searching i)) := by
  induction i with
  | zero => rfl
  | succ i ih =>
    have before := ih fun j before => zeros j (before.trans (Nat.lt_succ_self i))
    have skipped : draw nonces (searching i) = .ok (searching (i + 1)) :=
      draw_zero (zeros i (Nat.lt_succ_self i))
    rw [run_then before]
    exact run_one (step_draws rfl skipped)

theorem drawLoop_zeros (i fuel : Nat) (rest : List Nat) :
    drawLoop (i + fuel) (List.replicate i 0 ++ rest) = drawLoop fuel rest := by
  induction i with
  | zero => rw [Nat.zero_add, List.replicate_zero, List.nil_append]
  | succ i ih =>
    have chosen : secureRandom (order - 1) (0 :: (List.replicate i 0 ++ rest)) =
        some (0, List.replicate i 0 ++ rest) := if_pos (by decide)
    rw [List.replicate_succ, List.cons_append, Nat.add_right_comm, drawLoop, chosen]
    exact ih

theorem drawLoop_nonce {i : Nat} (drawn : nonces.draw i ≠ 0) (fuel : Nat) :
    drawLoop (fuel + 1) [nonces.draw i] = .ok (some (nonces.draw i,nonces.r i)) := by
  obtain ⟨R,multiplied,taken⟩ := nonces.multiplied drawn
  have chosen : secureRandom (order - 1) [nonces.draw i] = some (nonces.draw i,[]) :=
    if_pos (nonces.below i)
  rw [drawLoop, chosen]
  dsimp only
  rw [if_neg drawn, bind_ready multiplied, bind_ready taken, if_neg (nonces.r_ne_zero drawn)]
  rfl

section FirstNonce
variable {i : Nat} (d_below : d < order) (zeros : ∀ j < i, nonces.draw j = 0)
  (drawn : nonces.draw i ≠ 0)
include d_below zeros drawn

/-- The first nonce that is drawn is the one of which `s` is computed. -/
theorem first_computed : ∃ s : Scalar, s.toZMod = anyScalar d e.value (nonces.draw i) ∧
    run d e nonces (1 + (i + (1 + 1))) (.outer (searching 0)) = .ok (.outer
      ⟨nonces.draw i,nonces.r i,s,if s.value > maximum then false else true,i + 1⟩) := by
  obtain ⟨s,s_value,computes⟩ := compute_spec (e := e)
    (v := ⟨nonces.draw i,nonces.r i,zero,true,i + 1⟩) d_below (nonces.draw_lt i) rfl
  have entered : run d e nonces 1 (.outer (searching 0)) = .ok (.inner (searching 0)) := rfl
  have draws : draw nonces (searching i) = .ok ⟨nonces.draw i,nonces.r i,zero,true,i + 1⟩ :=
    draw_nonce drawn
  refine ⟨s,s_value,?_⟩
  rw [run_then entered, run_then (zeros_skipped zeros), run_then (run_one (step_draws rfl draws))]
  exact run_one (step_computes (nonces.r_ne_zero drawn) computes)

theorem first_leaves (finite : anyScalar d e.value (nonces.draw i) ≠ 0) :
    run d e nonces (1 + (i + (1 + 1)) + 1) (.outer (searching 0)) = .ok (.returned
      (abscissa (nonces.draw i • base)).val (lowScalar d e.value (nonces.draw i)).val) := by
  obtain ⟨s,s_value,computed⟩ := first_computed (e := e) d_below zeros drawn
  have nonzero : s ≠ zero := by
    rw [Ne, eq_zero_iff, s_value]
    exact finite
  have low : (if (if s.value > maximum then false else true) = true then s.value
      else order - s.value) = (lowScalar d e.value (nonces.draw i)).val := by
    rw [lowScalar_val finite, ← s_value, ← value_eq]
    by_cases high : s.value > maximum
    · rw [if_pos high, if_pos high, if_neg Bool.false_ne_true]
    · rw [if_neg high, if_neg high, if_pos rfl]
  rw [run_then computed, run_one (step_returns nonzero), low]
  rfl

/-- `ECKeySignature.sign` returns the same of the candidates up to that nonce. -/
theorem first_signs (finite : anyScalar d e.value (nonces.draw i) ≠ 0) :
    ECKeySignature.sign d e.value ((List.range (i + 1)).map nonces.draw) =
      .ok (some ((abscissa (nonces.draw i • base)).val,
        (lowScalar d e.value (nonces.draw i)).val)) := by
  have candidates : (List.range (i + 1)).map nonces.draw =
      List.replicate i 0 ++ [nonces.draw i] := by
    have skipped : (List.range i).map nonces.draw = List.replicate i 0 := by
      refine List.eq_replicate_iff.mpr ⟨by rw [List.length_map, List.length_range],?_⟩
      intro k chosen
      obtain ⟨j,before,rfl⟩ := List.mem_map.mp chosen
      exact zeros j (List.mem_range.mp before)
    rw [List.range_succ, List.map_append, skipped, List.map_singleton]
  have digest : int order e.value = .ok e := int_iff.mpr rfl
  have drawing : drawLoop ((List.replicate i 0 ++ [nonces.draw i]).length + 1)
      (List.replicate i 0 ++ [nonces.draw i]) = .ok (some (nonces.draw i,nonces.r i)) := by
    rw [List.length_append, List.length_replicate, Nat.add_assoc, drawLoop_zeros]
    exact drawLoop_nonce drawn 1
  have nonce : int order (nonces.draw i) = .ok ⟨nonces.draw i,nonces.draw_lt i⟩ := int_iff.mpr rfl
  have key : int order d = .ok ⟨d,d_below⟩ := int_iff.mpr rfl
  have scalar := quotient_anyScalar ⟨nonces.draw i,nonces.draw_lt i⟩ ⟨d,d_below⟩ e
    (nonces.r_toZMod i)
  have nonzero :
      one / ⟨nonces.draw i,nonces.draw_lt i⟩ * (e + nonces.r i * ⟨d,d_below⟩) ≠ zero := by
    rw [Ne, eq_zero_iff, scalar]
    exact finite
  rw [candidates, ECKeySignature.sign, bind_ready digest, bind_ready drawing]
  dsimp only
  rw [bind_ready nonce, bind_ready key, if_neg nonzero, lowScalar_val finite, ← scalar, ← value_eq]
  rfl

end FirstNonce

/-- With an `r`, and with an `s` that is zero whenever it is computed. -/
structure Stuck (d : Nat) (e : Scalar) (v : Variables) : Prop where
  below : v.k < order
  chosen : v.r ≠ zero
  taken : v.r.toZMod = rScalar v.k
  vanishes : anyScalar d e.value v.k = 0
  none : v.s = zero

def AtStuck (d : Nat) (e : Scalar) (place : Place) : Prop :=
  ∃ v, Stuck d e v ∧ (place = .outer v ∨ place = .inner v)

theorem step_stuck (nonces : Nonces) (d_below : d < order) (stuck : AtStuck d e place) :
    ∃ next, step d e nonces place = .ok next ∧ AtStuck d e next := by
  obtain ⟨v,stuck,rfl | rfl⟩ := stuck
  · exact ⟨.inner v,if_pos stuck.none,v,stuck,Or.inr rfl⟩
  · obtain ⟨s,s_value,computes⟩ := compute_spec (e := e) d_below stuck.below stuck.taken
    have again : s = zero := by rw [eq_zero_iff, s_value, stuck.vanishes]
    refine ⟨_,step_computes stuck.chosen computes,_,?_,Or.inl rfl⟩
    exact ⟨stuck.below,stuck.chosen,stuck.taken,stuck.vanishes,again⟩

theorem run_stuck (nonces : Nonces) (d_below : d < order) (stuck : AtStuck d e place)
    (steps : Nat) :
    ∃ next, run d e nonces steps place = .ok next ∧ AtStuck d e next := by
  induction steps generalizing place with
  | zero => exact ⟨place,rfl,stuck⟩
  | succ steps ih =>
    obtain ⟨middle,one,stuck⟩ := step_stuck nonces d_below stuck
    obtain ⟨next,rest,stuck⟩ := ih stuck
    refine ⟨next,?_,stuck⟩
    rw [run, bind_ready one]
    exact rest

/-- If the first nonce gives no `s` nothing is ever returned. -/
theorem first_stuck {i r s steps : Nat} (d_below : d < order)
    (zeros : ∀ j < i, nonces.draw j = 0) (drawn : nonces.draw i ≠ 0)
    (vanishes : anyScalar d e.value (nonces.draw i) = 0) :
    run d e nonces steps (.outer (searching 0)) ≠ .ok (.returned r s) := by
  intro left
  obtain ⟨s',s_value,computed⟩ := first_computed (e := e) d_below zeros drawn
  have none : s' = zero := by rw [eq_zero_iff, s_value, vanishes]
  have stuck : Stuck d e ⟨nonces.draw i,nonces.r i,s',
      if s'.value > maximum then false else true,i + 1⟩ :=
    ⟨nonces.draw_lt i,nonces.r_ne_zero drawn,nonces.r_toZMod i,vanishes,none⟩
  obtain ⟨next,longer,at_test⟩ := run_stuck nonces d_below ⟨_,stuck,Or.inl rfl⟩ steps
  cases longer.symm.trans (run_returns computed left)
  obtain ⟨v,_,outer | inner⟩ := at_test
  · cases outer
  · cases inner

/-- The loops are left exactly if the first nonce drawn that is not zero gives an `s`; where
    others that come later would give one does not help. -/
theorem signing_ends_iff {d e : Nat} (d_below : d < order) (e_below : e < order) (nonces : Nonces)
    (often : ∀ i, ∃ j ≥ i, Usable d e (nonces.draw j)) :
    Leaves d e nonces ↔ ∃ i, (∀ j < i, nonces.draw j = 0) ∧ Usable d e (nonces.draw i) := by
  have digest : int order e = .ok ⟨e,e_below⟩ := int_iff.mpr rfl
  have signing (steps : Nat) :
      sign d nonces e steps = run d ⟨e,e_below⟩ nonces steps (.outer (searching 0)) := by
    rw [sign, bind_ready digest]
    rfl
  constructor
  · rintro ⟨steps,r,s,left,_⟩
    rw [signing] at left
    have some_drawn : ∃ i, nonces.draw i ≠ 0 := by
      obtain ⟨j,_,usable⟩ := often 0
      exact ⟨j,usable.1⟩
    classical
    have drawn := Nat.find_spec some_drawn
    have zeros (j : Nat) (before : j < Nat.find some_drawn) : nonces.draw j = 0 :=
      not_not.mp (Nat.find_min some_drawn before)
    refine ⟨Nat.find some_drawn,zeros,drawn,nonces.rScalar_ne_zero drawn,?_⟩
    intro vanishes
    exact first_stuck d_below zeros drawn vanishes left
  · rintro ⟨i,zeros,drawn,_,finite⟩
    have left := first_leaves (e := ⟨e,e_below⟩) d_below zeros drawn finite
    refine ⟨_,_,_,(signing _).trans left,?_,?_,i,rfl,rfl⟩
    · rw [Ne, ZMod.val_eq_zero]
      exact abscissa_ne_zero (base_finite (Nat.pos_of_ne_zero drawn) (nonces.draw_lt i))
    · exact (lowScalar_range finite).1.ne'

theorem anyScalar_eq_zero_iff {d e k : Nat} (unit : (k : ZMod order) ≠ 0) :
    anyScalar d e k = 0 ↔ order ∣ e + (abscissa (k • base)).val * d := by
  rw [anyScalar, div_eq_zero_iff, or_iff_left unit, rScalar, ← ZMod.natCast_eq_zero_iff]
  push_cast
  rfl

theorem base_x : (abscissa (1 • base)).val = gX.value := by
  rw [one_nsmul, abscissa_of base_isAt, ← value_eq]

theorem doubled_x : (abscissa (2 • base)).val =
    0xc6047f9441ed7d6d3045406e95c07cd85c778e4b8cef3ca7abac09b95c709ee5 := by
  have at_xy : IsAt (2 • base) _ _ := doubled_holds
  rw [abscissa_of at_xy, ← value_eq]

def oneThenTwos : Nonces where
  draw i := if i = 0 then 1 else 2
  below i := by split_ifs <;> decide
  inside i := by
    split_ifs
    · rw [base_x]
      decide
    · rw [doubled_x]
      decide

/-- Two is usable by the key one, but for one digest. -/
theorem two_usable {e : Nat} (finite : ¬ order ∣
    e + 0xc6047f9441ed7d6d3045406e95c07cd85c778e4b8cef3ca7abac09b95c709ee5 * 1) :
    ∀ i, ∃ j ≥ i, Usable 1 e (oneThenTwos.draw j) := by
  intro i
  have two : oneThenTwos.draw (i + 1) ≠ 0 := two_ne_zero
  refine ⟨i + 1,Nat.le_succ i,two,oneThenTwos.rScalar_ne_zero two,?_⟩
  change anyScalar 1 e 2 ≠ 0
  rw [Ne, anyScalar_eq_zero_iff (natCast_ne_zero_of_lt (by decide) (by decide)), doubled_x]
  exact finite

theorem small_digest_signed : Leaves 1 34 oneThenTwos := by
  have one : oneThenTwos.draw 0 ≠ 0 := one_ne_zero
  refine (signing_ends_iff (by decide) (by decide) oneThenTwos (two_usable (by decide))).mpr
    ⟨0,fun j before => absurd before (Nat.not_lt_zero j),one,oneThenTwos.rScalar_ne_zero one,?_⟩
  change anyScalar 1 34 1 ≠ 0
  rw [Ne, anyScalar_eq_zero_iff (natCast_ne_zero_of_lt (by decide) (by decide)), base_x]
  decide

/-- The digest that is opposite to the `x` of the base point: the first nonce gives no `s`, and
    the usable ones after it are never drawn. -/
theorem opposite_digest_hangs :
    1 < order ∧ order - gX.value < order ∧
      (∀ i, ∃ j ≥ i, Usable 1 (order - gX.value) (oneThenTwos.draw j)) ∧
      ¬ Leaves 1 (order - gX.value) oneThenTwos := by
  refine ⟨by decide,by decide,two_usable (by decide),?_⟩
  rintro ⟨steps,r,s,left,_⟩
  have digest : int order (order - gX.value) = .ok ⟨order - gX.value,by decide⟩ := by decide
  rw [sign, bind_ready digest] at left
  refine first_stuck (i := 0) (by decide) (fun j before => absurd before (Nat.not_lt_zero j))
    one_ne_zero ?_ left
  change anyScalar 1 (order - gX.value) 1 = 0
  rw [anyScalar_eq_zero_iff (natCast_ne_zero_of_lt (by decide) (by decide)), base_x]
  decide

end SigningLoop
