import AltMessenger.SignatureCheck

/-!
The two ways `mul` takes: the loop of doublings, which stops at the bit length that
`highestBitOfUInt256` finds, and the sums over the table of the base point.
-/
namespace MultiplicationPaths
open SwiftRuntime FiniteFieldInteger ECurve ShortCurve PointArithmetic DoubleAndAdd BasePointOrder
open ScalarMultiples SignatureCheck
open BitcoinKeys (order)

/-- The loop looks at the squares from that of 31 down to that of one, where it should look at
    the powers of two; it stops high enough where one of the squares does. -/
theorem highestBitLoop_reaches {u e s n : Nat} (turns : s + n = 31) :
    u < 2 ^ highestBitLoop e (List.range' s n) (256 - s) ↔
      u < 2 ^ 225 ∨ ∃ j ≤ 31 - s, u < 2 ^ (225 + j) ∧ j * j &&& e ≠ 0 := by
  induction n generalizing s with
  | zero =>
    obtain rfl : s = 31 := turns
    rw [List.range'_zero, highestBitLoop]
    constructor
    · exact Or.inl
    · rintro (low | ⟨j,none,_,met⟩)
      · exact low
      · obtain rfl : j = 0 := Nat.le_zero.mp none
        exact absurd (Nat.zero_and e) met
  | succ n ih =>
    have found_at : 256 - s = 225 + (31 - s) := by omega
    rw [List.range'_succ, highestBitLoop]
    split_ifs with met
    · rw [found_at]
      constructor
      · intro below
        exact Or.inr ⟨31 - s,le_rfl,below,met⟩
      · rintro (low | ⟨j,upto,below,_⟩)
        · exact low.trans_le (Nat.pow_le_pow_right Nat.two_pos (by omega))
        · exact below.trans_le (Nat.pow_le_pow_right Nat.two_pos (by omega))
    · have later : 256 - s - 1 = 256 - (s + 1) := by omega
      rw [later, ih (by omega)]
      refine or_congr_right (exists_congr fun j => ?_)
      constructor
      · rintro ⟨upto,below,squares⟩
        exact ⟨by omega,below,squares⟩
      · rintro ⟨upto,below,squares⟩
        refine ⟨?_,below,squares⟩
        by_contra above
        obtain rfl : j = 31 - s := by omega
        exact met squares

/-- Among the bits of the highest word is one of a square, and with it the search for the highest
    bit stops no lower than that bit. -/
def Reached (k : Nat) : Prop :=
  k < 2 ^ 224 ∨ ∃ j ≤ 31, k < 2 ^ (225 + j) ∧ j * j &&& k / 2 ^ 224 ≠ 0

theorem reached_iff {k : Nat} (inside : k < 2 ^ 256) :
    k < 2 ^ highestBitOfUInt256 k ↔ Reached k := by
  have word : k / 2 ^ 192 % 2 ^ 64 / 2 ^ 32 = k / 2 ^ 224 := by omega
  rw [highestBitOfUInt256, word]
  split_ifs with none
  · have low : k < 2 ^ 224 := by omega
    exact iff_of_true low (Or.inl low)
  · rw [List.range_eq_range', highestBitLoop_reaches (s := 0) rfl]
    have high : ¬ k < 2 ^ 224 := by omega
    rw [Reached, or_iff_right high]
    constructor
    · rintro (one | found)
      · have bit : k / 2 ^ 224 = 1 := by omega
        refine ⟨1,by decide,one.trans (by decide),?_⟩
        rw [bit]
        decide
      · exact found
    · exact Or.inr

theorem taken_eq_iff {k : Nat} (inside : k < 2 ^ 256) : taken k = k ↔ Reached k := by
  rw [← reached_iff inside, taken]
  exact Nat.mod_eq_iff_lt (Nat.two_pow_pos _).ne'

/-- What is computed is the multiple of the point. -/
def Multiplies (k : Nat) (rhs : ECPoint) (P : Point) : Prop :=
  ∃ x y, mul k rhs = .ok (.affine x y) ∧ Holds (.affine x y) (k • P)

theorem origin_nowhere {P : Point} : ¬ Holds (.affine (some (small 0)) (some (small 0))) P := by
  have zero : (small 0).toZMod = (0 : Field) := Nat.cast_zero
  rw [Holds, zero]
  exact origin_off

/-- The multiples of a point are right of every number if it is the base point, and of those
    numbers whose highest bit is found or one above it. -/
theorem multiplies_iff {P : Point} {X Y : Coordinate} {k : Nat} (below : k < order)
    (at_xy : IsAt P X.toZMod Y.toZMod) (has_order : HasOrder order P) :
    Multiplies k (.affine (some X) (some Y)) P ↔ P = base ∨ Reached k := by
  have whole := taken_eq_iff (below.trans order_lt)
  by_cases at_base : P = base
  · subst at_base
    obtain ⟨same_x,same_y⟩ := at_xy.unique base_isAt
    obtain ⟨x,y,run,holds⟩ := mul_base below
    rw [G_eq, ← FFInt.toZMod_inj.mp same_x, ← FFInt.toZMod_inj.mp same_y] at run
    exact iff_of_true ⟨x,y,run,holds⟩ (Or.inl rfl)
  rw [or_iff_right at_base, ← whole]
  by_cases missed : k ≠ 0 ∧ taken k = 0
  · have run := mul_missed below at_xy has_order at_base missed.1 missed.2
    constructor
    · rintro ⟨x,y,computed,holds⟩
      cases run.symm.trans computed
      exact absurd holds origin_nowhere
    · intro all
      exact absurd (all.symm.trans missed.2) missed.1
  · have kept : k = 0 ∨ taken k ≠ 0 := by
      rwa [not_and_or, not_not] at missed
    obtain ⟨x,y,run,sum⟩ := mul_other below at_xy has_order at_base kept
    constructor
    · rintro ⟨x',y',computed,holds⟩
      cases run.symm.trans computed
      have same : taken k • P = k • P := Holds.point_unique sum holds
      rw [has_order.nsmul_eq_iff] at same
      exact (natCast_eq_iff_of_lt (taken_below below) below).mp same
    · intro all
      rw [all] at sum
      exact ⟨x,y,run,sum⟩

theorem doubled_order : HasOrder order (2 • base) :=
  base_order.nsmul (natCast_ne_zero_of_lt (by decide) (by decide))

theorem five_times_doubled : Multiplies 5 doubledPoint (2 • base) :=
  (multiplies_iff (by decide) doubled_holds doubled_order).mpr (Or.inr (Or.inl (by decide)))

/-- No square has the second bit, so nothing of this number is left. -/
theorem high_bit_missed :
    2 ^ 225 < order ∧ Holds doubledPoint (2 • base) ∧ HasOrder order (2 • base) ∧
      mul (2 ^ 225) doubledPoint = .ok (.affine (some (small 0)) (some (small 0))) ∧
      ¬ Multiplies (2 ^ 225) doubledPoint (2 • base) := by
  have run : mul (2 ^ 225) doubledPoint = .ok (.affine (some (small 0)) (some (small 0))) :=
    mul_missed (by decide) doubled_holds doubled_order
      (multiple_ne_base (by decide) (by decide)) (by decide) (by decide +kernel)
  refine ⟨by decide,doubled_holds,doubled_order,run,?_⟩
  rintro ⟨x,y,computed,holds⟩
  cases run.symm.trans computed
  exact absurd holds origin_nowhere

/-- The table's path for a number: the sums over the table, in affine coordinates. -/
def byTable (k : Nat) (table : List ECPoint) : Except Trap ECPoint := do
  let tally ← ECPoint.infinity.convertToJacobian
  let tally ← addLookup k table tally
  tally.convertToAffine

/-- The path of the doublings, over so many bits. -/
def byDoublings (k bits : Nat) (rhs : ECPoint) : Except Trap ECPoint := do
  let tally ← ECPoint.infinity.convertToJacobian
  let increment ← rhs.convertToJacobian
  let tally ← addDoublings k bits tally increment
  tally.convertToAffine

/-- Which of the two paths `mul` takes. -/
theorem mul_path {k : Nat} {rhs : ECPoint} (finite : rhs.isInfinity = false) (positive : k ≠ 0)
    (large : k ≠ 2) : mul k rhs = (do
      let base ← rhs.equal G
      if base then do
        let lookup ← importLookupTable
        byTable k lookup
      else byDoublings k (highestBitOfUInt256 k) rhs) := by
  have start : ECPoint.infinity.convertToJacobian =
      .ok (.jacobian (small 1) (small 1) (small 0)) := rfl
  rw [mul, if_neg (by simp [finite]), if_neg positive, if_neg large, bind_ready start]
  cases rhs.equal G with
  | error trap => rfl
  | ok base =>
    cases base with
    | false => rfl
    | true =>
      rw [bind_ready rfl, bind_ready rfl, if_pos rfl, if_pos rfl]
      refine congrArg (importLookupTable >>= ·) (funext fun lookup => ?_)
      rw [byTable, bind_ready start]

/-- The sums over any table of the doublings of the base point come to its multiples; none of
    the assertions of the sums fails. The doublings of all 256 bits come to the same. -/
theorem table_multiplies {k : Nat} {table : List ECPoint} (positive : 1 ≤ k) (below : k < order)
    (length : table.length = 256)
    (entries : ∀ i (inside : i < table.length), Entry table[i] (2 ^ i • base)) :
    ∃ x y, byTable k table = .ok (.affine (some x) (some y)) ∧
      byDoublings k 256 G = .ok (.affine (some x) (some y)) ∧
      IsAt (k • base) x.toZMod y.toZMod := by
  have start : ECPoint.infinity.convertToJacobian =
      .ok (.jacobian (small 1) (small 1) (small 0)) := rfl
  have increment : G.convertToJacobian = .ok (.jacobian gX gY (small 1)) := rfl
  obtain ⟨tally,added,tallied⟩ := addTable_spec below length entries
  obtain ⟨x,y,affine,at_xy⟩ := whole_tally_affine positive below tallied
  obtain ⟨tally',doubled,tallied'⟩ :=
    addDoublings_spec base_order below le_rfl ⟨gX,gY,rfl,base_isAt⟩
  obtain ⟨x',y',affine',at_xy'⟩ := whole_tally_affine positive below tallied'
  obtain ⟨same_x,same_y⟩ := at_xy.unique at_xy'
  refine ⟨x,y,?_,?_,at_xy⟩
  · rw [byTable, bind_ready start, bind_ready added]
    exact affine
  · rw [byDoublings, bind_ready start, bind_ready increment, bind_ready doubled,
      FFInt.toZMod_inj.mp same_x, FFInt.toZMod_inj.mp same_y]
    exact affine'

theorem imported_table_multiplies :
    ∃ x y, byTable 3 lookup = .ok (.affine (some x) (some y)) ∧
      byDoublings 3 256 G = .ok (.affine (some x) (some y)) ∧
      IsAt (3 • base) x.toZMod y.toZMod :=
  table_multiplies (by decide) (by decide) lookup_length fun _ inside =>
    lookup_entry (List.getElem?_eq_getElem inside)

end MultiplicationPaths
