import Mathlib.Data.ZMod.Basic
import Mathlib.Algebra.Field.ZMod
import Mathlib.Tactic.LinearCombination
import AltMessenger.SwiftRuntime

/-!
Integers modulo a number, as the elliptic curve code computes with them. Division is by the
extended Euclidean algorithm; by zero it gives zero, and so does a field.
-/
namespace FiniteFieldInteger
open SwiftRuntime

/-- The loop of `modInverse`: the remainders go down to zero. -/
def inverseLoop : Nat → Int → Int → Int → Int → Int
  | 0, t, _, _, _ => t
  | fuel + 1, t, nt, r, nr =>
    if nr = 0 then t else inverseLoop fuel nt (t - r / nr * nt) nr (r - r / nr * nr)

def modInverse (a m : Nat) : Nat :=
  let t := inverseLoop (m + 1) 0 1 m (a % m)
  (if t < 0 then t + m else t).natAbs

/-- What the loop keeps of the two remainders and their factors. -/
structure Bezout (a m t nt r nr : Int) : Prop where
  positive : 0 ≤ nr
  descends : nr < r
  first : m ∣ t * a - r
  second : m ∣ nt * a - nr
  whole : r * |nt| + nr * |t| = m
  opposed : t * nt ≤ 0
  small : |t| < m
  gcd : Int.gcd r nr = Int.gcd m a

variable {a m t nt r nr : Int}

theorem Bezout.step (kept : Bezout a m t nt r nr) (going : nr ≠ 0) :
    Bezout a m nt (t - r / nr * nt) nr (r - r / nr * nr) := by
  obtain ⟨positive,descends,first,second,whole,opposed,small,gcd⟩ := kept
  have nr_positive : 0 < nr := lt_of_le_of_ne positive going.symm
  have quotient : 0 ≤ r / nr := Int.ediv_nonneg (by omega) positive
  have remainder : r - r / nr * nr = r % nr := by rw [mul_comm, Int.emod_def]
  have absolute : |t - r / nr * nt| = |t| + r / nr * |nt| := by
    rcases le_total 0 t with t_positive | t_negative <;>
      rcases le_total 0 nt with nt_positive | nt_negative
    · rcases mul_eq_zero.mp (le_antisymm opposed (mul_nonneg t_positive nt_positive)) with
        zero | zero <;> subst zero <;> simp [abs_mul, abs_of_nonneg quotient]
    · rw [abs_of_nonneg t_positive, abs_of_nonpos nt_negative, abs_of_nonneg (by nlinarith)]
      ring
    · rw [abs_of_nonpos t_negative, abs_of_nonneg nt_positive, abs_of_nonpos (by nlinarith)]
      ring
    · rcases mul_eq_zero.mp (le_antisymm opposed (mul_nonneg_of_nonpos_of_nonpos t_negative
        nt_negative)) with zero | zero <;> subst zero <;> simp [abs_mul, abs_of_nonneg quotient]
  have m_positive : 0 < m := lt_of_le_of_lt (abs_nonneg t) small
  refine ⟨?_,?_,second,?_,?_,?_,?_,?_⟩
  · rw [remainder]
    exact Int.emod_nonneg r going
  · rw [remainder]
    exact Int.emod_lt_of_pos r nr_positive
  · have both := dvd_sub first (second.mul_left (r / nr))
    have same : (t - r / nr * nt) * a - (r - r / nr * nr) =
        t * a - r - r / nr * (nt * a - nr) := by ring
    rwa [same]
  · rw [absolute]
    linear_combination whole
  · nlinarith [mul_nonneg quotient (mul_self_nonneg nt)]
  · nlinarith [abs_nonneg nt, mul_nonneg positive (abs_nonneg t)]
  · rw [← gcd, Int.gcd_sub_mul_right_right, Int.gcd_comm]

/-- The loop ends in a factor of the greatest common divisor. -/
theorem inverseLoop_spec (fuel : Nat) (enough : nr < fuel) (kept : Bezout a m t nt r nr) :
    |inverseLoop fuel t nt r nr| < m ∧ m ∣ inverseLoop fuel t nt r nr * a - Int.gcd m a := by
  induction fuel generalizing t nt r nr with
  | zero =>
    have positive := kept.positive
    omega
  | succ fuel ih =>
    rw [inverseLoop]
    split_ifs with last
    · subst last
      have result : r = Int.gcd m a := by
        have r_positive := kept.descends
        rw [← kept.gcd, Int.gcd_zero_right]
        omega
      rw [← result]
      exact ⟨kept.small,kept.first⟩
    · have next := kept.step last
      refine ih ?_ next
      have descends := next.descends
      omega

section Inverse
variable {a m : Nat} (positive : 0 < m)
include positive

theorem bezout_start : Bezout a m 0 1 m ((a : Int) % m) where
  positive := Int.emod_nonneg _ (by omega)
  descends := Int.emod_lt_of_pos _ (by omega)
  first := by simp
  second := by
    rw [one_mul]
    exact Int.dvd_self_sub_emod
  whole := by simp
  opposed := by simp
  small := by simpa using positive
  gcd := by
    rw [Int.emod_def, mul_comm, Int.gcd_sub_mul_right_right]

theorem modInverse_spec :
    modInverse a m < m ∧ (m : Int) ∣ modInverse a m * a - Nat.gcd m a := by
  obtain ⟨small,divides⟩ := inverseLoop_spec (m + 1)
    (by have below := (bezout_start (a := a) positive).descends; push_cast; omega)
    (bezout_start (a := a) positive)
  obtain ⟨above,below⟩ := abs_lt.mp small
  rw [Int.gcd_natCast_natCast] at divides
  rw [modInverse]
  split_ifs with negative
  · have shifted : ((inverseLoop (m + 1) 0 1 m (a % m) + m).natAbs : Int) =
        inverseLoop (m + 1) 0 1 m (a % m) + m := Int.natAbs_of_nonneg (by omega)
    constructor
    · omega
    · rw [shifted]
      have more := dvd_add divides (dvd_mul_right (m : Int) a)
      have same : (inverseLoop (m + 1) 0 1 m (a % m) + m) * (a : Int) - Nat.gcd m a =
          inverseLoop (m + 1) 0 1 m (a % m) * a - Nat.gcd m a + m * a := by ring
      rwa [same]
  · have kept : ((inverseLoop (m + 1) 0 1 m (a % m)).natAbs : Int) =
        inverseLoop (m + 1) 0 1 m (a % m) := Int.natAbs_of_nonneg (by omega)
    constructor
    · omega
    · rwa [kept]

end Inverse

theorem modInverse_zero (m : Nat) : modInverse 0 m = 0 := by
  simp [modInverse, inverseLoop]

/-- `FFInt` of a prime field; its value is below the modulus, as each `init` asserts. -/
structure FFInt (p : Nat) where
  value : Nat
  small : value < p
  deriving DecidableEq, Repr

variable {p : Nat}

/-- `FiniteField.int` -/
def int (p value : Nat) : Except Trap (FFInt p) :=
  if small : value < p then .ok ⟨value,small⟩ else .error .assertion

theorem int_iff {value : Nat} {a : FFInt p} : int p value = .ok a ↔ value = a.value := by
  rw [int]
  split_ifs with small
  · constructor
    · intro run
      cases run
      rfl
    · rintro rfl
      rfl
  · constructor
    · intro run
      cases run
    · rintro rfl
      exact absurd a.small small

namespace FFInt

def add (lhs rhs : FFInt p) : FFInt p :=
  if rhs.value = 0 then lhs
  else
    have := lhs.small
    have := rhs.small
    let rhsMod := p - rhs.value
    if enough : lhs.value ≥ rhsMod then ⟨lhs.value - rhsMod,by omega⟩
    else ⟨p - rhsMod + lhs.value,by omega⟩

def sub (lhs rhs : FFInt p) : FFInt p :=
  have := lhs.small
  have := rhs.small
  if enough : lhs.value ≥ rhs.value then ⟨lhs.value - rhs.value,by omega⟩
  else ⟨p - rhs.value + lhs.value,by omega⟩

def neg (rhs : FFInt p) : FFInt p := sub ⟨0,Nat.zero_lt_of_lt rhs.small⟩ rhs

def mul (lhs rhs : FFInt p) : FFInt p :=
  ⟨lhs.value * rhs.value % p,Nat.mod_lt _ (Nat.zero_lt_of_lt lhs.small)⟩

def div (lhs rhs : FFInt p) : FFInt p :=
  mul lhs ⟨modInverse rhs.value p,(modInverse_spec (Nat.zero_lt_of_lt lhs.small)).1⟩

instance : Add (FFInt p) := ⟨add⟩
instance : Sub (FFInt p) := ⟨sub⟩
instance : Neg (FFInt p) := ⟨neg⟩
instance : Mul (FFInt p) := ⟨mul⟩
instance : Div (FFInt p) := ⟨div⟩

def toZMod (x : FFInt p) : ZMod p := x.value

theorem toZMod_injective : Function.Injective (toZMod (p := p)) := by
  intro x y same
  obtain ⟨x,x_small⟩ := x
  obtain ⟨y,y_small⟩ := y
  have congruent := (ZMod.natCast_eq_natCast_iff' x y p).mp same
  rw [Nat.mod_eq_of_lt x_small, Nat.mod_eq_of_lt y_small] at congruent
  subst congruent
  rfl

@[simp] theorem toZMod_inj {x y : FFInt p} : x.toZMod = y.toZMod ↔ x = y :=
  toZMod_injective.eq_iff

@[simp] theorem toZMod_add (x y : FFInt p) : (x + y).toZMod = x.toZMod + y.toZMod := by
  have below := y.small
  change ((add x y).value : ZMod p) = x.value + y.value
  by_cases zero : y.value = 0
  · simp [add, zero]
  by_cases large : x.value ≥ p - y.value
  · simp only [add, if_neg zero, dif_pos large]
    rw [Nat.cast_sub large, Nat.cast_sub below.le]
    simp
  · simp only [add, if_neg zero, dif_neg large]
    rw [Nat.cast_add, Nat.cast_sub (Nat.sub_le p _), Nat.cast_sub below.le]
    simp [add_comm]

@[simp] theorem toZMod_sub (x y : FFInt p) : (x - y).toZMod = x.toZMod - y.toZMod := by
  have below := y.small
  change ((sub x y).value : ZMod p) = x.value - y.value
  by_cases large : x.value ≥ y.value
  · simp only [sub, dif_pos large]
    rw [Nat.cast_sub large]
  · simp only [sub, dif_neg large]
    rw [Nat.cast_add, Nat.cast_sub below.le]
    simp [sub_eq_neg_add]

@[simp] theorem toZMod_neg (x : FFInt p) : (-x).toZMod = -x.toZMod := by
  have difference := toZMod_sub ⟨0,Nat.zero_lt_of_lt x.small⟩ x
  rw [← zero_sub x.toZMod]
  refine difference.trans ?_
  simp [toZMod]

@[simp] theorem toZMod_mul (x y : FFInt p) : (x * y).toZMod = x.toZMod * y.toZMod := by
  change ((mul x y).value : ZMod p) = x.value * y.value
  simp [mul]

@[simp] theorem toZMod_div [Fact p.Prime] (x y : FFInt p) :
    (x / y).toZMod = x.toZMod / y.toZMod := by
  have positive : 0 < p := Nat.zero_lt_of_lt x.small
  change ((mul x ⟨modInverse y.value p,_⟩).value : ZMod p) = x.value / y.value
  have inverse : (modInverse y.value p : ZMod p) = (y.value : ZMod p)⁻¹ := by
    by_cases zero : y.value = 0
    · rw [zero, modInverse_zero]
      simp
    · refine eq_inv_of_mul_eq_one_left ?_
      have prime : p.Coprime y.value := by
        rw [Nat.Prime.coprime_iff_not_dvd Fact.out]
        intro divides
        exact absurd (Nat.le_of_dvd (by omega) divides) (by have := y.small; omega)
      have divides := (modInverse_spec (a := y.value) positive).2
      rw [prime.gcd_eq_one] at divides
      have congruent := (ZMod.intCast_zmod_eq_zero_iff_dvd _ p).mpr divides
      push_cast at congruent
      linear_combination congruent
  rw [div_eq_mul_inv, ← inverse]
  simp [mul]

end FFInt

theorem value_eq (a : FFInt p) : a.value = a.toZMod.val :=
  (ZMod.val_natCast_of_lt a.small).symm

end FiniteFieldInteger
