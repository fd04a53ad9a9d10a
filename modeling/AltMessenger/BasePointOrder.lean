import AltMessenger.DoubleAndAdd
import AltMessenger.PointArithmetic

/-!
The entries of the lookup table are the doublings of the base point, and the base point has
the order of the curve. Both are checked on the table: each entry against the one before, and
the sum of the entries that make up the order less one against the base point.
-/
namespace BasePointOrder
open SwiftRuntime FiniteFieldInteger ECurve ShortCurve PointArithmetic DoubleAndAdd
open BitcoinKeys (fieldPrime order)

def lookup : List ECPoint :=
  match importLookupTable with
  | .ok lookup => lookup
  | .error _ => []

/-- One entry is twice the other: the tangent's formulas without their quotients. -/
def doubles : ECPoint → ECPoint → Bool
  | .jacobian X Y Z, .jacobian X' Y' Z' =>
    Z = small 1 ∧ Z' = small 1 ∧ small 2 * Y ≠ small 0 ∧
      X' * (small 2 * Y * (small 2 * Y)) =
        small 3 * X * X * (small 3 * X * X) - small 2 * X * (small 2 * Y * (small 2 * Y)) ∧
      Y' * (small 2 * Y) = small 3 * X * X * (X - X') - Y * (small 2 * Y)
  | _, _ => false

def chained : List ECPoint → Bool
  | [] => true
  | first :: rest =>
    match rest with
    | [] => true
    | second :: _ => doubles first second && chained rest

/-- The entries that the number selects, added to a sum. -/
def accumulate : Nat → List ECPoint → ECPoint → ECPoint
  | u, .jacobian x y _ :: entries, .jacobian X Y Z =>
    if u % 2 = 0 then accumulate (u / 2) entries (.jacobian X Y Z)
    else
      let E := x * (Z * Z) - X
      let R := y * (Z * (Z * Z)) - Y
      let X3 := R * R - E * E * E - small 2 * (X * (E * E))
      accumulate (u / 2) entries (.jacobian X3 (R * (X * (E * E) - X3) - Y * (E * E * E)) (Z * E))
  | _, _, sum => sum

/-- Opposite to a point with `Z = 1`. -/
def opposite : ECPoint → ECPoint → Bool
  | .jacobian x y _, .jacobian X Y Z => Z ≠ small 0 ∧ X = x * (Z * Z) ∧ Y = -(y * (Z * (Z * Z)))
  | _, _ => false

/-- The lowest bit of the order less one is that of entry 6. -/
def closes (entries : List ECPoint) : Bool :=
  match entries[0]?, entries[6]? with
  | some first, some start =>
    opposite first (accumulate ((order - 65) / 128) (entries.drop 7) start)
  | _, _ => false

theorem lookup_checked : importLookupTable = .ok lookup ∧ lookup.length = 256 ∧
    lookup[0]? = G.convertToJacobian.toOption ∧ chained lookup = true ∧ closes lookup = true := by
  decide +kernel

theorem import_ok : importLookupTable = .ok lookup := lookup_checked.1

theorem lookup_length : lookup.length = 256 := lookup_checked.2.1

/-- The base point's coordinates. -/
def gX : Coordinate :=
  ⟨0x79be667ef9dcbbac55a06295ce870b07029bfcdb2dce28d959f2815b16f81798,gX_below⟩

def gY : Coordinate :=
  ⟨0x483ada7726a3c4655da4fbfc0e1108a8fd17b448a68554199c47d08ffb10d4b8,gY_below⟩

theorem G_eq : G = .affine (some gX) (some gY) := rfl

theorem exists_base : ∃ P : Point, IsAt P gX.toZMod gY.toZMod := by
  refine exists_point elliptic ?_
  have on_curve : gY * gY = gX * gX * gX + small 7 := by decide +kernel
  have cast := congrArg FFInt.toZMod on_curve
  simp only [FFInt.toZMod_add, FFInt.toZMod_mul, toZMod_small] at cast
  push_cast at cast
  linear_combination cast

noncomputable def base : Point := Classical.choose exists_base

theorem base_isAt : IsAt base gX.toZMod gY.toZMod := Classical.choose_spec exists_base

section Table
variable {P : Point} {X Y Z X' Y' Z' : Coordinate}

/-- An entry with its place: the point has the entry's coordinates. -/
def Entry (entry : ECPoint) (P : Point) : Prop :=
  ∃ X Y, entry = .jacobian X Y (small 1) ∧ IsAt P X.toZMod Y.toZMod

theorem doubles_entry {first second : ECPoint} (entry : Entry first P)
    (doubled : doubles first second = true) : Entry second (P + P) := by
  obtain ⟨X,Y,rfl,at_xy⟩ := entry
  cases second with
  | affine x y => cases doubled
  | jacobian X' Y' Z' =>
    obtain ⟨_,rfl,odd,x_doubled,y_doubled⟩ := of_decide_eq_true doubled
    refine ⟨X',Y',rfl,?_⟩
    have odd' : 2 * Y.toZMod ≠ 0 := by
      intro even
      apply odd
      rw [← toZMod_eq_zero_iff, FFInt.toZMod_mul, toZMod_small]
      exact_mod_cast even
    have x_cast := congrArg FFInt.toZMod x_doubled
    have y_cast := congrArg FFInt.toZMod y_doubled
    simp only [FFInt.toZMod_sub, FFInt.toZMod_mul, toZMod_small] at x_cast y_cast
    push_cast at x_cast y_cast
    refine at_xy.double_of_eq odd' ?_ ?_
    · linear_combination x_cast
    · linear_combination y_cast

theorem chained_entries {entries : List ECPoint} (checked : chained entries = true) {i : Nat}
    (start : ∀ entry, entries[0]? = some entry → Entry entry P) {entry : ECPoint}
    (there : entries[i]? = some entry) : Entry entry (2 ^ i • P) := by
  induction entries generalizing i P with
  | nil => simp at there
  | cons first rest ih =>
    cases i with
    | zero =>
      rw [pow_zero, one_nsmul]
      exact start entry there
    | succ i =>
      rw [pow_succ', mul_nsmul, two_nsmul]
      cases rest with
      | nil => simp at there
      | cons second rest =>
        simp only [chained, Bool.and_eq_true] at checked
        refine ih checked.2 ?_ there
        intro entry next
        cases next
        exact doubles_entry (start first rfl) checked.1

end Table

theorem lookup_entry {i : Nat} {entry : ECPoint} (there : lookup[i]? = some entry) :
    Entry entry (2 ^ i • base) := by
  refine chained_entries lookup_checked.2.2.2.1 ?_ there
  intro entry first
  rw [lookup_checked.2.2.1] at first
  cases first
  exact ⟨gX,gY,rfl,base_isAt⟩

/-- The sum is that of the entries selected, if its `Z` is not zero: no formula divided by zero
    then. -/
theorem accumulate_sum {B : Point} {entries : List ECPoint} {u j : Nat}
    {X Y Z X' Y' Z' : Coordinate}
    (listed : ∀ i entry, entries[i]? = some entry → Entry entry (2 ^ (j + i) • B))
    (run : accumulate u entries (.jacobian X Y Z) = .jacobian X' Y' Z') (finite : Z'.toZMod ≠ 0) :
    Z.toZMod ≠ 0 ∧ ∀ P : Point, IsJacobian P X.toZMod Y.toZMod Z.toZMod →
      IsJacobian (P + (2 ^ j * (u % 2 ^ entries.length)) • B) X'.toZMod Y'.toZMod Z'.toZMod := by
  induction entries generalizing u j X Y Z with
  | nil =>
    cases run
    refine ⟨finite,fun P at_sum => ?_⟩
    rwa [List.length_nil, pow_zero, Nat.mod_one, mul_zero, zero_nsmul, add_zero]
  | cons entry entries ih =>
    obtain ⟨x,y,rfl,at_xy⟩ := listed 0 entry rfl
    rw [Nat.add_zero] at at_xy
    have listed' : ∀ i entry, entries[i]? = some entry → Entry entry (2 ^ (j + 1 + i) • B) := by
      intro i entry there
      rw [Nat.add_assoc, Nat.add_comm 1]
      exact listed (i + 1) entry there
    have digits : 2 ^ j * (u % 2 ^ (entries.length + 1)) =
        2 ^ j * (u % 2) + 2 ^ (j + 1) * (u / 2 % 2 ^ entries.length) := by
      rw [pow_succ', Nat.mod_mul, pow_succ]
      ring
    rw [List.length_cons, digits, add_nsmul]
    rw [accumulate] at run
    split_ifs at run with even
    · obtain ⟨finite',sum⟩ := ih listed' run
      refine ⟨finite',fun P at_sum => ?_⟩
      rw [even, mul_zero, zero_nsmul, zero_add]
      exact sum P at_sum
    · obtain ⟨finite',sum⟩ := ih listed' run
      rw [FFInt.toZMod_mul] at finite'
      have nonzero := right_ne_zero_of_mul finite'
      refine ⟨left_ne_zero_of_mul finite',fun P at_sum => ?_⟩
      rw [Nat.mod_two_ne_zero.mp even, mul_one, ← add_assoc]
      refine sum _ ?_
      have run_value : (x * (Z * Z) - X).toZMod = x.toZMod * Z.toZMod ^ 2 - X.toZMod := by
        simp [sq]
      have added := at_sum.add_of_run at_xy run_value nonzero rfl
      simp only [FFInt.toZMod_sub, FFInt.toZMod_mul, toZMod_small]
      push_cast
      simp only [FFInt.toZMod_sub, FFInt.toZMod_mul] at added
      ring_nf at added ⊢
      exact added

theorem closes_order {B : Point} {entries : List ECPoint}
    (listed : ∀ i entry, entries[i]? = some entry → Entry entry (2 ^ i • B))
    (whole : entries.length = 256) (checked : closes entries = true) : order • B = 0 := by
  rw [closes] at checked
  split at checked
  · rename_i first start first_there start_there
    obtain ⟨x,y,rfl,at_first⟩ := listed 0 _ first_there
    obtain ⟨X,Y,rfl,at_start⟩ := listed 6 _ start_there
    rw [pow_zero, one_nsmul] at at_first
    cases result : accumulate ((order - 65) / 128) (entries.drop 7) (.jacobian X Y (small 1)) with
    | affine x y => rw [result] at checked; cases checked
    | jacobian X' Y' Z' =>
      rw [result] at checked
      obtain ⟨finite,x_same,y_same⟩ := of_decide_eq_true checked
      have finite' : Z'.toZMod ≠ 0 := fun zero => finite (toZMod_eq_zero_iff.mp zero)
      have higher : ∀ i entry, (entries.drop 7)[i]? = some entry →
          Entry entry (2 ^ (7 + i) • B) := by
        intro i entry there
        rw [List.getElem?_drop] at there
        exact listed _ entry there
      have sum := (accumulate_sum higher result finite').2 _ (isJacobian_one.mpr at_start)
      have selected : 2 ^ 6 + 2 ^ 7 * ((order - 65) / 128 % 2 ^ (entries.drop 7).length) =
          order - 1 := by
        rw [List.length_drop, whole]
        decide +kernel
      rw [← add_nsmul, selected] at sum
      have mirrored : IsAt ((order - 1) • B) x.toZMod (-y.toZMod) := by
        have plain := sum.2
        rw [x_same, y_same] at plain
        simp only [FFInt.toZMod_mul, FFInt.toZMod_neg] at plain
        convert plain using 1
        · field_simp
        · field_simp
      have negated := mirrored.point_unique at_first.neg
      have successor : order = order - 1 + 1 := by decide
      rw [successor, succ_nsmul, negated, neg_add_cancel]
  · cases checked

/-- The base point has the curve's order. -/
theorem base_order : HasOrder order base where
  whole := closes_order (fun _ _ => lookup_entry) lookup_length lookup_checked.2.2.2.2
  nonzero := base_isAt.ne_zero

theorem base_finite {k : Nat} (positive : 0 < k) (below : k < order) : k • base ≠ 0 := by
  rw [Ne, base_order.nsmul_eq_zero_iff]
  exact natCast_ne_zero_of_lt positive below

end BasePointOrder
