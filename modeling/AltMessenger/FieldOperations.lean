import AltMessenger.ECurve

/-!
The operations of `FFInt` with every assertion they make and with subtractions that fault below
zero, and `modInverse` with a loop that may not have ended yet.
-/
namespace FieldOperations
open SwiftRuntime FiniteFieldInteger
open ECurve.ECPoint (assert)

/-- An `FFInt` as it is stored; nothing but the assertions keeps its value below the modulus. -/
structure Stored where
  field : Nat
  value : Nat
  deriving DecidableEq, Repr

/-- `-` of `BigUInt` -/
def subtract (lhs rhs : Nat) : Except Trap Nat :=
  if rhs ≤ lhs then pure (lhs - rhs) else .error .overflow

def int (p value : Nat) : Except Trap Stored := do
  assert (value < p)
  pure ⟨p,value⟩

def add (lhs rhs : Stored) : Except Trap Stored := do
  assert (lhs.field = rhs.field)
  if rhs.value = 0 then pure lhs
  else do
    let p := lhs.field
    assert (lhs.value < p)
    assert (rhs.value < p)
    let rhsMod ← subtract p rhs.value
    if lhs.value ≥ rhsMod then do
      let difference ← subtract lhs.value rhsMod
      int p difference
    else do
      let difference ← subtract p rhsMod
      int p (difference + lhs.value)

def sub (lhs rhs : Stored) : Except Trap Stored := do
  assert (lhs.field = rhs.field)
  let p := lhs.field
  assert (lhs.value < p)
  assert (rhs.value < p)
  if lhs.value ≥ rhs.value then do
    let difference ← subtract lhs.value rhs.value
    int p difference
  else do
    let difference ← subtract p rhs.value
    int p (difference + lhs.value)

def neg (rhs : Stored) : Except Trap Stored := do
  let p := rhs.field
  assert (rhs.value < p)
  let zero ← int p 0
  sub zero rhs

def mul (lhs rhs : Stored) : Except Trap Stored := do
  assert (lhs.field = rhs.field)
  let p := lhs.field
  assert (lhs.value < p)
  assert (rhs.value < p)
  int p (lhs.value * rhs.value % p)

/-- The loop of `modInverse`, with the truncating division of `BigInt`; there is nothing yet
    where it has not come to its end. -/
def inverseTurns : Nat → Int → Int → Int → Int → Option Int
  | 0, _, _, _, _ => none
  | fuel + 1, t, nt, r, nr =>
    if nr = 0 then some t
    else
      let q := r.tdiv nr
      inverseTurns fuel nt (t - q * nt) nr (r - q * nr)

def modInverse (fuel a m : Nat) : Except Trap (Option Nat) := do
  assert (m > 0)
  pure ((inverseTurns fuel 0 1 m ((a : Int).tmod m)).map fun t : Int =>
    (if t < 0 then t + m else t).natAbs)

def div (fuel : Nat) (lhs rhs : Stored) : Except Trap (Option Stored) := do
  assert (lhs.field = rhs.field)
  let p := lhs.field
  assert (lhs.value < p)
  assert (rhs.value < p)
  let inverse ← modInverse fuel rhs.value p
  inverse.mapM fun inverse => do
    let factor ← int p inverse
    mul lhs factor

theorem assert_passes {condition : Prop} [Decidable condition] (passes : condition) :
    assert condition = .ok () := if_pos (decide_eq_true passes)

theorem subtract_ready {lhs rhs : Nat} (enough : rhs ≤ lhs) :
    subtract lhs rhs = .ok (lhs - rhs) := if_pos enough

theorem int_ready {p value : Nat} (below : value < p) : int p value = .ok ⟨p,value⟩ := by
  rw [int, bind_ready (assert_passes below)]
  rfl

section Checked
variable {p : Nat} (x y : FFInt p)

def stored (x : FFInt p) : Stored := ⟨p,x.value⟩

theorem add_checked : add (stored x) (stored y) = .ok (stored (x + y)) := by
  have x_small := x.small
  have y_small := y.small
  change add ⟨p,x.value⟩ ⟨p,y.value⟩ = .ok ⟨p,(FFInt.add x y).value⟩
  rw [add, bind_ready (assert_passes rfl)]
  dsimp only
  by_cases zero : y.value = 0
  · rw [if_pos zero, FFInt.add, if_pos zero]
    rfl
  rw [if_neg zero, bind_ready (assert_passes x_small), bind_ready (assert_passes y_small),
    bind_ready (subtract_ready y_small.le)]
  by_cases large : x.value ≥ p - y.value
  · rw [if_pos large, bind_ready (subtract_ready large), int_ready (by omega), FFInt.add,
      if_neg zero]
    dsimp only
    rw [dif_pos large]
  · rw [if_neg large, bind_ready (subtract_ready (by omega)), int_ready (by omega), FFInt.add,
      if_neg zero]
    dsimp only
    rw [dif_neg large]

theorem sub_checked : sub (stored x) (stored y) = .ok (stored (x - y)) := by
  have x_small := x.small
  have y_small := y.small
  change sub ⟨p,x.value⟩ ⟨p,y.value⟩ = .ok ⟨p,(FFInt.sub x y).value⟩
  rw [sub, bind_ready (assert_passes rfl)]
  dsimp only
  rw [bind_ready (assert_passes x_small), bind_ready (assert_passes y_small), FFInt.sub]
  by_cases large : x.value ≥ y.value
  · rw [if_pos large, bind_ready (subtract_ready large), int_ready (by omega), dif_pos large]
  · rw [if_neg large, bind_ready (subtract_ready y_small.le), int_ready (by omega),
      dif_neg large]

theorem neg_checked : neg (stored x) = .ok (stored (-x)) := by
  have positive : 0 < p := Nat.zero_lt_of_lt x.small
  change neg ⟨p,x.value⟩ = _
  rw [neg]
  dsimp only
  rw [bind_ready (assert_passes x.small), bind_ready (int_ready positive)]
  exact sub_checked ⟨0,positive⟩ x

theorem mul_checked : mul (stored x) (stored y) = .ok (stored (x * y)) := by
  have positive : 0 < p := Nat.zero_lt_of_lt x.small
  change mul ⟨p,x.value⟩ ⟨p,y.value⟩ = _
  rw [mul, bind_ready (assert_passes rfl)]
  dsimp only
  rw [bind_ready (assert_passes x.small), bind_ready (assert_passes y.small)]
  exact int_ready (Nat.mod_lt _ positive)

end Checked

section Inverse
variable {fuel : Nat}

/-- With more turns than the remainder the loop comes to its end, and with any number of them to
    the same. -/
theorem inverseTurns_ends {a m t nt r nr : Int} {turns : Nat} (enough : nr < fuel)
    (more : nr < turns) (kept : Bezout a m t nt r nr) :
    inverseTurns fuel t nt r nr = some (inverseLoop turns t nt r nr) := by
  induction fuel generalizing t nt r nr turns with
  | zero =>
    have positive := kept.positive
    omega
  | succ fuel ih =>
    cases turns with
    | zero =>
      have positive := kept.positive
      omega
    | succ turns =>
      rw [inverseTurns, inverseLoop]
      by_cases last : nr = 0
      · rw [if_pos last, if_pos last]
      · have next := kept.step last
        have descends := next.descends
        have nonnegative : 0 ≤ r := kept.positive.trans kept.descends.le
        rw [if_neg last, if_neg last, Int.tdiv_eq_ediv_of_nonneg nonnegative]
        exact ih (by omega) (by omega) next

theorem modInverse_checked {a m : Nat} (positive : 0 < m) (enough : m ≤ fuel) :
    modInverse fuel a m = .ok (some (FiniteFieldInteger.modInverse a m)) := by
  have start := bezout_start (a := a) positive
  have below : (a : Int) % m < m := start.descends
  have ended : inverseTurns fuel 0 1 m (a % m) = some (inverseLoop (m + 1) 0 1 m (a % m)) :=
    inverseTurns_ends (by omega) (by omega) start
  have remainder : (a : Int).tmod m = a % m := Int.tmod_eq_emod_of_nonneg (Int.natCast_nonneg a)
  rw [modInverse, bind_ready (assert_passes positive), remainder, ended]
  rfl

/-- Of a number coprime to the modulus it is the inverse. -/
theorem modInverse_coprime {a m : Nat} (large : 1 < m) (coprime : a.Coprime m) :
    a * FiniteFieldInteger.modInverse a m % m = 1 := by
  have divides := (modInverse_spec (a := a) (m := m) (by omega)).2
  rw [coprime.symm.gcd_eq_one] at divides
  have congruent : a * FiniteFieldInteger.modInverse a m ≡ 1 [MOD m] := by
    rw [← Int.natCast_modEq_iff, Int.modEq_comm, Int.modEq_iff_dvd]
    push_cast at divides ⊢
    rwa [mul_comm (a : Int)]
  exact Eq.trans congruent (Nat.mod_eq_of_lt large)

theorem div_checked {p : Nat} (x y : FFInt p) (enough : p ≤ fuel) :
    div fuel (stored x) (stored y) = .ok (some (stored (x / y))) := by
  have positive : 0 < p := Nat.zero_lt_of_lt x.small
  let inverse : FFInt p :=
    ⟨FiniteFieldInteger.modInverse y.value p,(modInverse_spec positive).1⟩
  change div fuel ⟨p,x.value⟩ ⟨p,y.value⟩ = _
  rw [div, bind_ready (assert_passes rfl)]
  dsimp only
  rw [bind_ready (assert_passes x.small), bind_ready (assert_passes y.small),
    bind_ready (modInverse_checked positive enough)]
  change (int p inverse.value >>= fun factor => mul (stored x) factor) >>= _ = _
  rw [bind_ready (int_ready inverse.small)]
  exact bind_ready (mul_checked x inverse)

end Inverse

/-- The operation returns the value below the modulus that equals this one. -/
def Returns {p : Nat} (run : Except Trap Stored) (result : ZMod p) : Prop :=
  ∃ value < p, run = .ok ⟨p,value⟩ ∧ (value : ZMod p) = result

theorem returns_stored {p : Nat} {run : Except Trap Stored} {x : FFInt p} {result : ZMod p}
    (ran : run = .ok (stored x)) (same : x.toZMod = result) : Returns run result :=
  ⟨x.value,x.small,ran,same⟩

/-- The loop of `modInverse` ends in the inverse, below the modulus; and no operation on values
    below a prime underflows, fails an assertion or returns anything but its value. -/
theorem inverse_and_operations :
    (∀ m a, 1 < m → 0 < a → a < m → a.Coprime m → ∀ fuel ≥ m,
      ∃ x < m, modInverse fuel a m = .ok (some x) ∧ a * x % m = 1) ∧
    ∀ p [Fact p.Prime] x y, x < p → y < p →
      Returns (add ⟨p,x⟩ ⟨p,y⟩) (x + y : ZMod p) ∧
      Returns (sub ⟨p,x⟩ ⟨p,y⟩) (x - y : ZMod p) ∧
      Returns (mul ⟨p,x⟩ ⟨p,y⟩) (x * y : ZMod p) ∧
      Returns (neg ⟨p,x⟩) (-x : ZMod p) ∧
      (y ≠ 0 → ∀ fuel ≥ p, ∃ value < p, div fuel ⟨p,x⟩ ⟨p,y⟩ = .ok (some ⟨p,value⟩) ∧
        (value : ZMod p) = x / y) := by
  constructor
  · intro m a large _ _ coprime fuel enough
    have positive : 0 < m := Nat.zero_lt_of_lt large
    exact ⟨_,(modInverse_spec positive).1,modInverse_checked positive enough,
      modInverse_coprime large coprime⟩
  · intro p prime x y x_small y_small
    let x' : FFInt p := ⟨x,x_small⟩
    let y' : FFInt p := ⟨y,y_small⟩
    refine ⟨returns_stored (add_checked x' y') (FFInt.toZMod_add x' y'),
      returns_stored (sub_checked x' y') (FFInt.toZMod_sub x' y'),
      returns_stored (mul_checked x' y') (FFInt.toZMod_mul x' y'),
      returns_stored (neg_checked x') (FFInt.toZMod_neg x'),?_⟩
    intro _ fuel enough
    exact ⟨(x' / y').value,(x' / y').small,div_checked x' y' enough,FFInt.toZMod_div x' y'⟩

/-- Three has an inverse modulo ten, and modulo seven it is a value of the field. -/
theorem three_computed :
    (∃ x < 10, modInverse 10 3 10 = .ok (some x) ∧ 3 * x % 10 = 1) ∧
      Returns (add ⟨7,3⟩ ⟨7,5⟩) ((3 : ℕ) + (5 : ℕ) : ZMod 7) ∧
      Returns (sub ⟨7,3⟩ ⟨7,5⟩) ((3 : ℕ) - (5 : ℕ) : ZMod 7) ∧
      Returns (mul ⟨7,3⟩ ⟨7,5⟩) ((3 : ℕ) * (5 : ℕ) : ZMod 7) ∧
      Returns (neg ⟨7,3⟩) (-(3 : ℕ) : ZMod 7) ∧
      ∃ value < 7, div 7 ⟨7,3⟩ ⟨7,5⟩ = .ok (some ⟨7,value⟩) := by
  have seven : Fact (Nat.Prime 7) := ⟨by decide⟩
  obtain ⟨inverses,operations⟩ := inverse_and_operations
  obtain ⟨sum,difference,product,opposite,quotient⟩ :=
    operations 7 3 5 (by decide) (by decide)
  obtain ⟨value,below,divided,_⟩ := quotient (by decide) 7 le_rfl
  exact ⟨inverses 10 3 (by decide) (by decide) (by decide) (by decide) 10 le_rfl,sum,difference,
    product,opposite,value,below,divided⟩

end FieldOperations
