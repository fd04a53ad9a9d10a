import Mathlib.Data.Nat.Bitwise
import AltMessenger.BasePointOrder

/-!
What `mul` computes. Of the base point it is the multiple. Of another point it is the multiple by
those bits that are within the bit length `highestBitOfUInt256` gives, and where there are none
of them it is the pair of coordinates (0, 0), which is not a point.
-/
namespace ScalarMultiples
open SwiftRuntime FiniteFieldInteger ECurve ShortCurve PointArithmetic DoubleAndAdd BasePointOrder
open BitcoinKeys (fieldPrime order)

theorem two_lt_order : 2 < order := by decide

theorem order_lt : order < 2 ^ 256 := by decide

theorem singleBitAt_eq : ∀ i < 256, singleBitAt (255 - i) = 2 ^ i := by decide +kernel

theorem selected_iff {u i : Nat} (inside : i < 256) :
    singleBitAt (255 - i) &&& u ≠ 0 ↔ u.testBit i = true := by
  rw [singleBitAt_eq i inside, Nat.two_pow_and]
  cases u.testBit i <;> simp

section Loops
variable {Q P : Point} {u i : Nat} {tally increment : ECPoint}

/-- The tally once the lowest bits have been taken. -/
def Tally (Q : Point) (u i : Nat) (tally : ECPoint) : Prop :=
  ∃ X Y Z, tally = .jacobian X Y Z ∧ Holds (.jacobian X Y Z) ((u % 2 ^ i) • Q)

theorem tally_start : Tally Q u 0 (.jacobian (small 1) (small 1) (small 0)) := by
  refine ⟨_,_,_,rfl,Or.inl ⟨rfl,rfl,rfl,?_⟩⟩
  rw [pow_zero, Nat.mod_one, zero_nsmul]

theorem addSelected_spec (has_order : HasOrder order Q) (below : u < order) (inside : i < 256)
    (tallied : Tally Q u i tally) (entry : Entry increment (2 ^ i • Q)) :
    ∃ next, addSelected u i tally increment = .ok next ∧ Tally Q u (i + 1) next := by
  obtain ⟨X,Y,Z,rfl,holds⟩ := tallied
  simp only [addSelected, selected_iff inside]
  split_ifs with bit
  · obtain ⟨X',Y',rfl,at_entry⟩ := entry
    obtain ⟨X'',Y'',Z'',run,sum⟩ := add_jacobian holds at_entry
      (has_order.low_bits_ne below bit) (has_order.low_bits_ne_neg below bit)
    rw [← low_bits_set bit] at sum
    exact ⟨_,run,X'',Y'',Z'',rfl,sum⟩
  · refine ⟨_,rfl,X,Y,Z,rfl,?_⟩
    rwa [low_bits_clear (Bool.eq_false_of_not_eq_true bit)]

theorem doublingTurn_spec (has_order : HasOrder order Q) (below : u < order) (inside : i < 256)
    {state : ECPoint × ECPoint} (tallied : Tally Q u i state.1)
    (entry : Entry state.2 (2 ^ i • Q)) :
    ∃ next, doublingTurn u state i = .ok next ∧ Tally Q u (i + 1) next.1 ∧
      Entry next.2 (2 ^ (i + 1) • Q) := by
  obtain ⟨tally,increment⟩ := state
  obtain ⟨tally',added,tallied'⟩ := addSelected_spec has_order below inside tallied entry
  obtain ⟨X,Y,rfl,at_xy⟩ := entry
  obtain ⟨x,y,doubled,sum⟩ := twice_holds at_xy
    ((has_order.two_pow_nsmul two_lt_order i).add_self_ne_zero two_lt_order)
  have affine : (ECPoint.jacobian X Y (small 1)).convertToAffine =
      .ok (.affine (some X) (some Y)) := by
    rw [ECPoint.convertToAffine, if_pos rfl]
    rfl
  refine ⟨(tally',.jacobian x y (small 1)),?_,tallied',x,y,rfl,?_⟩
  · rw [doublingTurn, bind_ready added, bind_ready affine, bind_ready doubled]
    rfl
  · rwa [two_pow_succ_nsmul]

theorem addDoublings_spec (has_order : HasOrder order Q) (below : u < order) {bits : Nat}
    (inside : bits ≤ 256) (entry : Entry increment Q) :
    ∃ result, addDoublings u bits (.jacobian (small 1) (small 1) (small 0)) increment =
      .ok result ∧ Tally Q u bits result := by
  have start : Entry increment (2 ^ 0 • Q) := by rwa [pow_zero, one_nsmul]
  have turns : ∀ i (state : ECPoint × ECPoint) (range : i < (List.range bits).length),
      Tally Q u i state.1 ∧ Entry state.2 (2 ^ i • Q) →
      ∃ next, doublingTurn u state (List.range bits)[i] = .ok next ∧
        Tally Q u (i + 1) next.1 ∧ Entry next.2 (2 ^ (i + 1) • Q) := by
    intro i state range kept
    rw [List.length_range] at range
    rw [List.getElem_range]
    exact doublingTurn_spec has_order below (by omega) kept.1 kept.2
  obtain ⟨state,run,tallied,_⟩ := foldlM_spec
    (fun i (state : ECPoint × ECPoint) => Tally Q u i state.1 ∧ Entry state.2 (2 ^ i • Q))
    (s := (.jacobian (small 1) (small 1) (small 0), increment)) ⟨tally_start,start⟩ turns
  rw [List.length_range] at tallied
  refine ⟨state.1,?_,tallied⟩
  rw [addDoublings, bind_ready run]
  rfl

theorem lookupTurn_spec (below : u < order) {state : ECPoint × Nat} (inside : state.2 < 256)
    (tallied : Tally base u state.2 state.1) (entry : Entry increment (2 ^ state.2 • base)) :
    ∃ next, lookupTurn u state increment = .ok next ∧ next.2 = state.2 + 1 ∧
      Tally base u (state.2 + 1) next.1 := by
  obtain ⟨tally',added,tallied'⟩ := addSelected_spec base_order below inside tallied entry
  refine ⟨(tally',state.2 + 1),?_,rfl,tallied'⟩
  rw [lookupTurn, bind_ready added]
  rfl

/-- The sums over any table of the doublings. -/
theorem addTable_spec (below : u < order) {table : List ECPoint} (length : table.length = 256)
    (entries : ∀ i (inside : i < table.length), Entry table[i] (2 ^ i • base)) :
    ∃ result, addLookup u table (.jacobian (small 1) (small 1) (small 0)) = .ok result ∧
      Tally base u 256 result := by
  have turns : ∀ i (state : ECPoint × Nat) (inside : i < table.length),
      state.2 = i ∧ Tally base u i state.1 →
      ∃ next, lookupTurn u state table[i] = .ok next ∧ next.2 = i + 1 ∧
        Tally base u (i + 1) next.1 := by
    rintro i state inside ⟨rfl,tallied⟩
    have entry := entries state.2 inside
    rw [length] at inside
    exact lookupTurn_spec below inside tallied entry
  obtain ⟨state,run,_,tallied⟩ := foldlM_spec
    (fun i (state : ECPoint × Nat) => state.2 = i ∧ Tally base u i state.1)
    (s := (.jacobian (small 1) (small 1) (small 0), 0)) ⟨rfl,tally_start⟩ turns
  rw [length] at tallied
  refine ⟨state.1,?_,tallied⟩
  rw [addLookup, bind_ready run]
  rfl

theorem addLookup_spec (below : u < order) :
    ∃ result, addLookup u lookup (.jacobian (small 1) (small 1) (small 0)) = .ok result ∧
      Tally base u 256 result :=
  addTable_spec below lookup_length fun _ inside =>
    lookup_entry (List.getElem?_eq_getElem inside)

end Loops

/-- What the tally is in the end, in affine coordinates. -/
theorem tally_affine {Q : Point} {u i : Nat} {tally : ECPoint} (tallied : Tally Q u i tally) :
    ∃ x y, tally.convertToAffine = .ok (.affine (some x) (some y)) ∧
      if (u % 2 ^ i) • Q = 0 then x = small 0 ∧ y = small 0
      else IsAt ((u % 2 ^ i) • Q) x.toZMod y.toZMod := by
  obtain ⟨X,Y,Z,rfl,⟨rfl,rfl,rfl,zero⟩ | finite⟩ := tallied
  · refine ⟨_,_,convertToAffine_infinity,?_⟩
    rw [if_pos zero]
    exact ⟨rfl,rfl⟩
  · obtain ⟨x,y,run,at_xy⟩ := convertToAffine_holds finite
    refine ⟨x,y,run,?_⟩
    rw [if_neg at_xy.ne_zero]
    exact at_xy

/-- After all its bits the tally is the multiple of the base point. -/
theorem whole_tally_affine {u : Nat} {tally : ECPoint} (positive : 0 < u) (below : u < order)
    (tallied : Tally base u 256 tally) :
    ∃ x y, tally.convertToAffine = .ok (.affine (some x) (some y)) ∧
      IsAt (u • base) x.toZMod y.toZMod := by
  obtain ⟨x,y,affine,at_xy⟩ := tally_affine tallied
  have whole : u % 2 ^ 256 = u := Nat.mod_eq_of_lt (below.trans order_lt)
  rw [whole, if_neg (base_finite positive below)] at at_xy
  exact ⟨x,y,affine,at_xy⟩

theorem highestBitLoop_range (e bitLength : Nat) (is : List Nat) :
    bitLength - is.length ≤ highestBitLoop e is bitLength ∧
      highestBitLoop e is bitLength ≤ bitLength := by
  induction is generalizing bitLength with
  | nil => simp [highestBitLoop]
  | cons i is ih =>
    rw [highestBitLoop, List.length_cons]
    split_ifs with found
    · omega
    · have rest := ih (bitLength - 1)
      omega

theorem highestBit_range (u : Nat) :
    224 ≤ highestBitOfUInt256 u ∧ highestBitOfUInt256 u ≤ 256 := by
  rw [highestBitOfUInt256]
  split_ifs with low
  · omega
  · have range := highestBitLoop_range (u / 2 ^ 192 % 2 ^ 64 / 2 ^ 32) 256 (List.range 31)
    rw [List.length_range] at range
    omega

/-- The bits of the number that the loop of doublings takes. -/
def taken (u : Nat) : Nat := u % 2 ^ highestBitOfUInt256 u

theorem taken_two : taken 2 = 2 := by decide

section Products
variable {Q : Point} {u : Nat} {X Y : Coordinate} (below : u < order)
include below

theorem mul_base : ∃ x y, mul u G = .ok (.affine x y) ∧ Holds (.affine x y) (u • base) := by
  rw [mul, if_neg (by decide)]
  split_ifs with zero two
  · refine ⟨none,none,rfl,?_⟩
    rw [zero]
    exact zero_nsmul base
  · obtain ⟨x,y,run,sum⟩ := double_holds base_isAt (base_order.add_self_ne_zero two_lt_order)
    refine ⟨some x,some y,run,?_⟩
    rw [two, two_nsmul]
    exact sum
  · obtain ⟨tally,run,tallied⟩ := addLookup_spec below
    obtain ⟨x,y,affine,at_xy⟩ := whole_tally_affine (Nat.pos_of_ne_zero zero) below tallied
    refine ⟨some x,some y,?_,at_xy⟩
    have same : G.equal G = .ok true := by decide
    have start : ECPoint.infinity.convertToJacobian =
        .ok (.jacobian (small 1) (small 1) (small 0)) := rfl
    rw [bind_ready start, bind_ready same, if_pos rfl, bind_ready import_ok, bind_ready run]
    exact affine

theorem taken_below : taken u < order := lt_of_le_of_lt (Nat.mod_le _ _) below

theorem taken_nsmul (has_order : HasOrder order Q) : taken u • Q = 0 ↔ taken u = 0 := by
  constructor
  · intro zero
    by_contra positive
    rw [has_order.nsmul_eq_zero_iff] at zero
    exact natCast_ne_zero_of_lt (Nat.pos_of_ne_zero positive) (taken_below below) zero
  · intro none
    rw [none, zero_nsmul]

variable (at_xy : IsAt Q X.toZMod Y.toZMod) (has_order : HasOrder order Q) (other : Q ≠ base)
include at_xy has_order other

/-- The loop of doublings and what it leaves. -/
theorem mul_loop (positive : u ≠ 0) (large : u ≠ 2) :
    ∃ x y, mul u (.affine (some X) (some Y)) = .ok (.affine (some x) (some y)) ∧
      if taken u = 0 then x = small 0 ∧ y = small 0
      else IsAt (taken u • Q) x.toZMod y.toZMod := by
  have entry : Entry (.jacobian X Y (small 1)) Q := ⟨X,Y,rfl,at_xy⟩
  obtain ⟨tally,run,tallied⟩ := addDoublings_spec has_order below (highestBit_range u).2 entry
  obtain ⟨x,y,affine,result⟩ := tally_affine tallied
  refine ⟨x,y,?_,?_⟩
  · have apart : ¬ (some X = some gX ∧ some Y = some gY) := by
      rintro ⟨x_same,y_same⟩
      cases x_same
      cases y_same
      exact other (at_xy.point_unique base_isAt)
    have different : ECPoint.equal (.affine (some X) (some Y)) G = .ok false := by
      rw [G_eq, ECPoint.equal, decide_eq_false apart]
      rfl
    have start : ECPoint.infinity.convertToJacobian =
        .ok (.jacobian (small 1) (small 1) (small 0)) := rfl
    have increment : ECPoint.convertToJacobian (.affine (some X) (some Y)) =
        .ok (.jacobian X Y (small 1)) := rfl
    rw [mul, if_neg (by simp [ECPoint.isInfinity]), if_neg positive, if_neg large,
      bind_ready start, bind_ready different, if_neg Bool.false_ne_true, bind_ready increment,
      bind_ready run]
    exact affine
  · change if taken u • Q = 0 then _ else IsAt (taken u • Q) _ _ at result
    rwa [if_congr (taken_nsmul below has_order) rfl rfl] at result

/-- Where the loop takes a bit the product is that of the bits taken. -/
theorem mul_other (kept : u = 0 ∨ taken u ≠ 0) :
    ∃ x y, mul u (.affine (some X) (some Y)) = .ok (.affine x y) ∧
      Holds (.affine x y) (taken u • Q) := by
  by_cases zero : u = 0
  · refine ⟨none,none,?_,?_⟩
    · rw [mul, if_neg (by simp [ECPoint.isInfinity]), if_pos zero]
      rfl
    · rw [zero, taken, Nat.zero_mod]
      exact zero_nsmul Q
  by_cases two : u = 2
  · obtain ⟨x,y,run,sum⟩ := double_holds at_xy (has_order.add_self_ne_zero two_lt_order)
    refine ⟨some x,some y,?_,?_⟩
    · rw [mul, if_neg (by simp [ECPoint.isInfinity]), if_neg zero, if_pos two]
      exact run
    · rw [two, taken_two, two_nsmul]
      exact sum
  · obtain ⟨x,y,run,result⟩ := mul_loop below at_xy has_order other zero two
    rw [if_neg (kept.resolve_left zero)] at result
    exact ⟨some x,some y,run,result⟩

/-- Where it takes none of the bits that are set, the result is not a point. -/
theorem mul_missed (positive : u ≠ 0) (missed : taken u = 0) :
    mul u (.affine (some X) (some Y)) = .ok (.affine (some (small 0)) (some (small 0))) := by
  have large : u ≠ 2 := by
    rintro rfl
    rw [taken_two] at missed
    cases missed
  obtain ⟨x,y,run,result⟩ := mul_loop below at_xy has_order other positive large
  rw [if_pos missed] at result
  rw [run, result.1, result.2]

end Products

end ScalarMultiples
