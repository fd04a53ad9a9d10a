import Mathlib.Data.Int.Log
import Mathlib.Data.Rat.Floor
import Mathlib.Tactic.FieldSimp
import Mathlib.Tactic.Linarith

/-!
Rounding to binary formats of so many digits: to the nearest number, on a tie to the even one, and
to an infinity past the largest. Where a rounded number reaches a number of the format is a matter
of the midpoint below that number.
-/
namespace BinaryRounding

/-- The nearest whole number, on a tie the even one. -/
def nearestEven (x : Rat) : Int :=
  let n := ⌊x⌋
  if x - n < 1 / 2 ∨ x - n = 1 / 2 ∧ n % 2 = 0 then n else n + 1

/-- Numbers of a format have `fraction` digits after the first one and are multiples of a power of
    two; from another power on they are infinite. -/
structure Format where
  fraction : Nat
  least : Int
  top : Int

inductive Value where
  | finite (q : Rat)
  | infinity (negative : Bool)
  | nan
  deriving DecidableEq

namespace Format
variable (F : Format)

/-- The unit of the last digit of a number. -/
def unit (q : Rat) : Int := max (Int.log 2 q - F.fraction) F.least

def magnitude (q : Rat) : Rat := nearestEven (q / 2 ^ F.unit q) * 2 ^ F.unit q

def round (q : Rat) : Rat := if q < 0 then -F.magnitude (-q) else F.magnitude q

def value (q : Rat) : Value :=
  if 2 ^ F.top ≤ |F.round q| then .infinity (q < 0) else .finite (F.round q)

def mul : Value → Value → Value
  | .finite a, .finite b => F.value (a * b)
  | .infinity negative, .finite b =>
    if b = 0 then .nan else .infinity (negative ^^ decide (b < 0))
  | .finite a, .infinity negative =>
    if a = 0 then .nan else .infinity (decide (a < 0) ^^ negative)
  | .infinity negative, .infinity negative' => .infinity (negative ^^ negative')
  | .nan, _ => .nan
  | _, .nan => .nan

end Format

theorem le_nearestEven_iff {k : Int} {x : Rat} :
    k ≤ nearestEven x ↔ (k : Rat) - 1 / 2 < x ∨ x = (k : Rat) - 1 / 2 ∧ k % 2 = 0 := by
  have low := Int.floor_le x
  have high := Int.lt_floor_add_one x
  unfold nearestEven
  dsimp only
  generalize ⌊x⌋ = n at low high ⊢
  rcases lt_trichotomy k (n + 1) with before | same | after
  · have least : (k : Rat) ≤ n := by exact_mod_cast Int.lt_add_one_iff.mp before
    refine iff_of_true ?_ (Or.inl (by linarith))
    split
    · omega
    · omega
  · subst same
    push_cast
    split
    case isTrue near =>
      refine iff_of_false (by omega) ?_
      rintro (past | ⟨tie,even⟩)
      · rcases near with near | ⟨near,_⟩
        · linarith
        · linarith
      · rcases near with near | ⟨_,even'⟩
        · linarith
        · omega
    case isFalse far =>
      refine iff_of_true (Int.le_refl _) ?_
      rw [not_or, not_lt, not_and] at far
      obtain ⟨half,odd⟩ := far
      rcases lt_or_eq_of_le half with past | tie
      · exact Or.inl (by linarith)
      · have uneven := odd tie.symm
        exact Or.inr ⟨by linarith,by omega⟩
  · have least : (n : Rat) + 2 ≤ k := by
      have two : n + 2 ≤ k := by omega
      exact_mod_cast two
    refine iff_of_false ?_ ?_
    · split
      · omega
      · omega
    · rintro (past | ⟨tie,_⟩)
      · linarith
      · linarith

theorem le_nearestEven {k : Int} {x : Rat} (least : (k : Rat) ≤ x) : k ≤ nearestEven x :=
  le_nearestEven_iff.mpr (Or.inl (by linarith))

theorem nearestEven_le {k : Int} {x : Rat} (most : x ≤ k) : nearestEven x ≤ k := by
  by_contra more
  have past : k + 1 ≤ nearestEven x := by omega
  rw [le_nearestEven_iff] at past
  push_cast at past
  rcases past with past | ⟨tie,_⟩
  · linarith
  · linarith

namespace Format
variable {F : Format}

theorem power_pos (e : Int) : (0 : Rat) < 2 ^ e := zpow_pos (by norm_num) e

theorem power_add (e e' : Int) : (2 : Rat) ^ (e + e') = 2 ^ e * 2 ^ e' :=
  zpow_add₀ (by norm_num) e e'

/-- A power of two is a whole number of smaller ones. -/
theorem power_multiple {e u : Int} (below : u ≤ e) :
    (2 : Rat) ^ e = ((2 ^ (e - u).toNat : Int) : Rat) * 2 ^ u := by
  have shift : e = ((e - u).toNat : Int) + u := by omega
  calc (2 : Rat) ^ e = 2 ^ (((e - u).toNat : Int) + u) := by rw [← shift]
    _ = 2 ^ ((e - u).toNat : Int) * 2 ^ u := power_add _ _
    _ = ((2 ^ (e - u).toNat : Int) : Rat) * 2 ^ u := by rw [zpow_natCast]; push_cast; rfl

/-- What is no more than a power of two stays so, where that is a number of the unit. -/
theorem magnitude_le {q : Rat} {e : Int} (unit : F.unit q ≤ e) (most : q ≤ 2 ^ e) :
    F.magnitude q ≤ 2 ^ e := by
  have positive := power_pos (F.unit q)
  rw [power_multiple unit] at most ⊢
  exact mul_le_mul_of_nonneg_right
    (by exact_mod_cast nearestEven_le ((div_le_iff₀ positive).mpr most)) positive.le

theorem le_magnitude {q : Rat} {e : Int} (unit : F.unit q ≤ e) (least : 2 ^ e ≤ q) :
    2 ^ e ≤ F.magnitude q := by
  have positive := power_pos (F.unit q)
  rw [power_multiple unit] at least ⊢
  exact mul_le_mul_of_nonneg_right
    (by exact_mod_cast le_nearestEven ((le_div_iff₀ positive).mpr least)) positive.le

theorem magnitude_zero : F.magnitude 0 = 0 := by
  have nothing : nearestEven 0 = 0 := by simp [nearestEven]
  rw [magnitude, zero_div, nothing, Int.cast_zero, zero_mul]

/-- The numbers below those with a unit, with it, and above them. -/
theorem magnitude_cases (F : Format) {q : Rat} (nonneg : 0 ≤ q) {e : Int} (least : F.least ≤ e) :
    q < 2 ^ (e + F.fraction) ∧ F.magnitude q ≤ 2 ^ (e + F.fraction) ∨
      2 ^ (e + F.fraction) ≤ q ∧ q < 2 ^ (e + F.fraction + 1) ∧
        F.magnitude q = nearestEven (q / 2 ^ e) * 2 ^ e ∨
      2 ^ (e + F.fraction + 1) ≤ q ∧ 2 ^ (e + F.fraction + 1) ≤ F.magnitude q := by
  rcases nonneg.eq_or_lt with zero | positive
  · rw [← zero, magnitude_zero]
    exact Or.inl ⟨power_pos _,(power_pos _).le⟩
  have low : (2 : Rat) ^ Int.log 2 q ≤ q := Int.zpow_log_le_self (by decide) positive
  have high : q < (2 : Rat) ^ (Int.log 2 q + 1) := Int.lt_zpow_succ_log_self (by decide) q
  have grows {n m : Int} (le : n ≤ m) : (2 : Rat) ^ n ≤ 2 ^ m :=
    zpow_le_zpow_right₀ (by norm_num) le
  rcases lt_trichotomy (Int.log 2 q) (e + F.fraction) with less | same | more
  · have below : q < 2 ^ (e + F.fraction) := lt_of_lt_of_le high (grows less)
    have unit : F.unit q ≤ e + F.fraction := by unfold Format.unit; omega
    exact Or.inl ⟨below,magnitude_le unit below.le⟩
  · have unit : F.unit q = e := by unfold Format.unit; omega
    rw [same] at low high
    refine Or.inr (Or.inl ⟨low,high,?_⟩)
    rw [magnitude, unit]
  · have above : (2 : Rat) ^ (e + F.fraction + 1) ≤ 2 ^ Int.log 2 q := grows more
    have unit : F.unit q ≤ Int.log 2 q := by unfold Format.unit; omega
    exact Or.inr (Or.inr ⟨above.trans low,above.trans (le_magnitude unit low)⟩)

theorem magnitude_nonneg {q : Rat} (nonneg : 0 ≤ q) : 0 ≤ F.magnitude q := by
  have positive := power_pos (F.unit q)
  have least : ((0 : Int) : Rat) ≤ q / 2 ^ F.unit q := by
    rw [Int.cast_zero]
    exact div_nonneg nonneg positive.le
  exact mul_nonneg (by exact_mod_cast le_nearestEven least) positive.le

theorem round_nonneg {q : Rat} (nonneg : 0 ≤ q) : F.round q = F.magnitude q :=
  if_neg (not_lt.mpr nonneg)

theorem round_neg {q : Rat} (nonneg : 0 ≤ q) : F.round (-q) = -F.magnitude q := by
  rcases nonneg.eq_or_lt with zero | positive
  · rw [← zero, neg_zero, round_nonneg le_rfl, magnitude_zero, neg_zero]
  · rw [Format.round, if_pos (neg_neg_of_pos positive), neg_neg]

theorem abs_round (q : Rat) : |F.round q| = F.magnitude |q| := by
  rcases le_or_gt 0 q with nonneg | negative
  · rw [round_nonneg nonneg, abs_of_nonneg nonneg, abs_of_nonneg (magnitude_nonneg nonneg)]
  · have nonneg : 0 ≤ -q := by linarith
    have opposite : F.round q = -F.magnitude (-q) := if_pos negative
    rw [opposite, abs_of_neg negative, abs_neg, abs_of_nonneg (magnitude_nonneg nonneg)]

/-- What is as large as a power of two stays so. -/
theorem power_le_magnitude (F : Format) {q : Rat} {e : Int} (least : F.least ≤ e)
    (large : 2 ^ (e + F.fraction + 1) ≤ q) : 2 ^ (e + F.fraction + 1) ≤ F.magnitude q := by
  have base := power_pos (e + F.fraction)
  have twice : (2 : Rat) ^ (e + F.fraction + 1) = 2 ^ (e + F.fraction) * 2 := by
    rw [power_add, zpow_one]
  have nonneg : 0 ≤ q := by linarith
  rcases F.magnitude_cases nonneg least with ⟨below,_⟩ | ⟨_,below,_⟩ | ⟨_,made⟩
  · linarith
  · linarith
  · exact made

/-- A whole number of no more digits than the format has is not rounded. -/
theorem round_natCast {n : Nat} (few : n < 2 ^ (F.fraction + 1)) (least : F.least ≤ 0) :
    F.round n = n := by
  have digits : F.unit n ≤ 0 := by
    have log : Nat.log 2 n < F.fraction + 1 := Nat.log_lt_of_lt_pow' (Nat.succ_ne_zero _) few
    rw [unit, Int.log_natCast]
    omega
  have units := power_multiple digits
  rw [zpow_zero] at units
  have positive := power_pos (F.unit n)
  have multiple : (n : Rat) / 2 ^ F.unit n = ((n * 2 ^ (0 - F.unit n).toNat : Int) : Rat) := by
    rw [div_eq_iff positive.ne', Int.cast_mul, mul_assoc, ← units, mul_one, Int.cast_natCast]
  rw [round, if_neg (not_lt.mpr (Nat.cast_nonneg n)), magnitude, multiple,
    le_antisymm (nearestEven_le le_rfl) (le_nearestEven le_rfl), ← multiple,
    div_mul_cancel₀ _ positive.ne']

/-- The number of so many units is one of the format, and one unit above the number before it. -/
structure Normal (F : Format) (k e : Int) : Prop where
  least : F.least ≤ e
  low : 2 ^ F.fraction < k
  high : k ≤ 2 ^ (F.fraction + 1)

section Reaching
variable {q : Rat} {e k : Int}

/-- The numbers with a unit are between two powers of two. -/
theorem Normal.between (normal : F.Normal k e) :
    (2 : Rat) ^ (e + F.fraction) ≤ (k - 1) * 2 ^ e ∧
      k * 2 ^ e ≤ (2 : Rat) ^ (e + F.fraction + 1) := by
  have positive := power_pos e
  have first : ((2 ^ F.fraction : Int) : Rat) ≤ k - 1 := by
    exact_mod_cast Int.le_sub_one_of_lt normal.low
  have last : (k : Rat) ≤ ((2 ^ (F.fraction + 1) : Int) : Rat) := by exact_mod_cast normal.high
  push_cast at first last
  rw [show e + F.fraction + 1 = e + ((F.fraction + 1 : Nat) : Int) by push_cast; ring, power_add,
    power_add, zpow_natCast, zpow_natCast, mul_comm (2 ^ e), mul_comm (2 ^ e)]
  exact ⟨mul_le_mul_of_nonneg_right first positive.le,mul_le_mul_of_nonneg_right last positive.le⟩

/-- A rounded number reaches another one of the format exactly if it is past the midpoint below
    that, or at it where that is even. -/
theorem Normal.le_magnitude_iff (normal : F.Normal k e) (nonneg : 0 ≤ q) :
    k * 2 ^ e ≤ F.magnitude q ↔
      ((k : Rat) - 1 / 2) * 2 ^ e < q ∨ q = ((k : Rat) - 1 / 2) * 2 ^ e ∧ k % 2 = 0 := by
  have positive := power_pos e
  obtain ⟨first,last⟩ := normal.between
  have base := power_pos (e + F.fraction)
  rcases F.magnitude_cases nonneg normal.least with ⟨below,made⟩ | ⟨_,_,made⟩ | ⟨above,made⟩
  · refine iff_of_false (by linarith) ?_
    rintro (past | ⟨tie,_⟩)
    · linarith
    · linarith
  · rw [made, mul_le_mul_iff_left₀ positive, Int.cast_le, le_nearestEven_iff, lt_div_iff₀ positive,
      div_eq_iff positive.ne']
  · exact iff_of_true (last.trans made) (Or.inl (by linarith))

/-- Between two numbers of the format next to each other there is none. -/
theorem Normal.magnitude_gap (normal : F.Normal k e) (nonneg : 0 ≤ q) :
    F.magnitude q ≤ (k - 1) * 2 ^ e ∨ k * 2 ^ e ≤ F.magnitude q := by
  have positive := power_pos e
  obtain ⟨first,last⟩ := normal.between
  have base := power_pos (e + F.fraction)
  rcases F.magnitude_cases nonneg normal.least with ⟨_,made⟩ | ⟨_,_,made⟩ | ⟨_,made⟩
  · exact Or.inl (made.trans first)
  · rw [made, mul_le_mul_iff_left₀ positive, mul_le_mul_iff_left₀ positive]
    rcases Int.lt_or_le (nearestEven (q / 2 ^ e)) k with less | more
    · exact Or.inl (by exact_mod_cast Int.le_sub_one_of_lt less)
    · exact Or.inr (by exact_mod_cast more)
  · exact Or.inr (last.trans made)

end Reaching

end Format

end BinaryRounding
