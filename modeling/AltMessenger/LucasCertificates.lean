import Mathlib.NumberTheory.LucasPrimality
import Mathlib.NumberTheory.LegendreSymbol.Basic
import Mathlib.Tactic.NormNum.Prime

/-!
Large primes by Lucas's test: a number and the primes that its predecessor is made of. Powers are
computed by repeated squaring, so that a test is a few hundred multiplications.
-/
namespace LucasCertificates

/-- `acc` times `base` to the `exponent`, which has at most `fuel` bits. -/
def powLoop (modulus : ℕ) : ℕ → ℕ → ℕ → ℕ → ℕ
  | 0, _, _, acc => acc
  | fuel + 1, base, exponent, acc =>
    bif exponent.beq 0 then acc
    else powLoop modulus fuel (base * base % modulus) (exponent / 2)
      (bif (exponent % 2).beq 1 then acc * base % modulus else acc)

def powMod (modulus base exponent : ℕ) : ℕ := powLoop modulus 256 base exponent 1

/-- The loop keeps `acc * base ^ exponent`. -/
theorem powLoop_spec (modulus fuel base exponent acc : ℕ) (short : exponent < 2 ^ fuel) :
    powLoop modulus fuel base exponent acc ≡ acc * base ^ exponent [MOD modulus] := by
  induction fuel generalizing base exponent acc with
  | zero =>
    have nothing : exponent = 0 := by omega
    subst nothing
    simp [powLoop, Nat.ModEq.rfl]
  | succ fuel ih =>
    rw [powLoop]
    by_cases nothing : exponent = 0
    · subst nothing
      simp [Nat.ModEq.rfl]
    have going : exponent.beq 0 = false := by
      rw [Bool.eq_false_iff, Ne, Nat.beq_eq]
      exact nothing
    rw [going, cond_false]
    refine (ih _ _ _ (by omega)).trans ?_
    have squares : (base * base % modulus) ^ (exponent / 2) ≡ base ^ (2 * (exponent / 2))
        [MOD modulus] := by
      rw [pow_mul, sq]
      exact (Nat.mod_modEq _ _).pow _
    by_cases odd : exponent % 2 = 1
    · rw [odd]
      have whole : acc * base ^ exponent = acc * base * base ^ (2 * (exponent / 2)) := by
        conv_lhs => rw [← Nat.div_add_mod exponent 2, odd, pow_succ]
        ring
      rw [whole]
      exact (Nat.mod_modEq _ _).mul squares
    · have even : exponent % 2 = 0 := by omega
      have whole : 2 * (exponent / 2) = exponent := by omega
      rw [whole] at squares
      rw [even]
      exact squares.mul_left acc

theorem powMod_spec {modulus base exponent : ℕ} (short : exponent < 2 ^ 256) :
    ((powMod modulus base exponent : ℕ) : ZMod modulus) = (base : ZMod modulus) ^ exponent := by
  have computed := powLoop_spec modulus 256 base exponent 1 short
  rw [one_mul] at computed
  have cast := (ZMod.natCast_eq_natCast_iff _ _ _).mpr computed
  rwa [Nat.cast_pow] at cast

/-- What is checked of a number: a power of `base` for each of the primes its predecessor is made
    of, each at most eight times. -/
def check (p base : ℕ) (primes : List ℕ) : Bool :=
  1 < p && p < 2 ^ 256 && primes.prod ^ 8 % (p - 1) == 0 && powMod p base (p - 1) % p == 1 &&
    primes.all fun q => powMod p base ((p - 1) / q) % p != 1

theorem pow_eq_one_iff {p base exponent : ℕ} (large : 1 < p) (short : exponent < 2 ^ 256) :
    (base : ZMod p) ^ exponent = 1 ↔ powMod p base exponent % p = 1 := by
  rw [← powMod_spec short, ← Nat.cast_one, ZMod.natCast_eq_natCast_iff', Nat.mod_eq_of_lt large]

theorem prime_of_check {p : ℕ} (base : ℕ) (primes : List ℕ) (certified : ∀ q ∈ primes, q.Prime)
    (checked : check p base primes = true) : p.Prime := by
  simp only [check, Bool.and_eq_true, decide_eq_true_eq, beq_iff_eq, List.all_eq_true,
    bne_iff_ne] at checked
  obtain ⟨⟨⟨⟨large,short⟩,product⟩,full⟩,parts⟩ := checked
  refine lucas_primality p base ((pow_eq_one_iff large (by omega)).mpr full) ?_
  intro q prime divides
  have divides : q ∣ primes.prod :=
    prime.dvd_of_dvd_pow (divides.trans (Nat.dvd_of_mod_eq_zero product))
  obtain ⟨r,listed,divides⟩ := (prime.prime.dvd_prod_iff).mp divides
  have same : q = r := (Nat.prime_dvd_prime_iff_eq prime (certified r listed)).mp divides
  subst same
  have below : (p - 1) / q ≤ p - 1 := Nat.div_le_self _ _
  rw [Ne, pow_eq_one_iff large (by omega)]
  exact parts q listed

/-- No number from `d` to the root of `q` divides it. -/
def trialLoop (q : ℕ) : ℕ → ℕ → Bool
  | 0, _ => false
  | fuel + 1, d => q.blt (d * d) || (!(q % d).beq 0 && trialLoop q fuel (d + 1))

/-- A small prime, by its possible divisors. -/
def trial (q : ℕ) : Bool := (1).blt q && trialLoop q 1000 2

theorem trialLoop_spec {q fuel d e : ℕ} (tried : trialLoop q fuel d = true) (from_d : d ≤ e)
    (short : e * e ≤ q) : ¬ e ∣ q := by
  induction fuel generalizing d with
  | zero => cases tried
  | succ fuel ih =>
    simp only [trialLoop, Bool.or_eq_true, Bool.and_eq_true, Nat.blt_eq, Bool.not_eq_true'] at tried
    rcases tried with beyond | ⟨left,rest⟩
    · nlinarith
    · rcases Nat.eq_or_lt_of_le from_d with same | later
      · subst same
        intro divides
        simp [Nat.mod_eq_zero_of_dvd divides] at left
      · exact ih rest later

theorem prime_of_trial {q : ℕ} (tried : trial q = true) : q.Prime := by
  simp only [trial, Bool.and_eq_true, Nat.blt_eq] at tried
  obtain ⟨large,undivided⟩ := tried
  by_contra composite
  have factor := Nat.minFac_prime (Nat.ne_of_gt large)
  have square : q.minFac * q.minFac ≤ q := by
    rw [← sq]
    exact Nat.minFac_sq_le_self (by omega) composite
  exact trialLoop_spec undivided factor.two_le square (Nat.minFac_dvd q)

structure Certificate where
  p : ℕ
  base : ℕ
  primes : List ℕ

/-- Each certificate rests on small primes and on those before it. -/
def checkAll : List ℕ → List Certificate → Bool
  | _, [] => true
  | known, c :: certificates =>
    check c.p c.base c.primes && (c.primes.all fun q => trial q || known.contains q) &&
      checkAll (c.p :: known) certificates

theorem primes_of_checkAll {known : List ℕ} {certificates : List Certificate}
    (certified : ∀ q ∈ known, q.Prime) (checked : checkAll known certificates = true) :
    ∀ c ∈ certificates, c.p.Prime := by
  induction certificates generalizing known with
  | nil => simp
  | cons c certificates ih =>
    simp only [checkAll, Bool.and_eq_true, List.all_eq_true, Bool.or_eq_true,
      List.contains_iff_mem] at checked
    obtain ⟨⟨first,parts⟩,rest⟩ := checked
    have prime : c.p.Prime := by
      refine prime_of_check c.base c.primes ?_ first
      intro q listed
      rcases parts q listed with tried | there
      · exact prime_of_trial tried
      · exact certified q there
    have later := ih (List.forall_mem_cons.mpr ⟨prime,certified⟩) rest
    exact List.forall_mem_cons.mpr ⟨prime,later⟩

theorem prime_of_checkAll {certificates : List Certificate} {p : ℕ}
    (checked : checkAll [] certificates = true) (listed : p ∈ certificates.map Certificate.p) :
    p.Prime := by
  obtain ⟨c,there,rfl⟩ := List.mem_map.mp listed
  exact primes_of_checkAll (by simp) checked c there

/-- A number whose power to half the predecessor of the prime is not 1 is no square. -/
theorem not_square {p a : ℕ} [Fact p.Prime] (short : p < 2 ^ 256) (unit : (a : ZMod p) ≠ 0)
    (computed : powMod p a (p / 2) % p ≠ 1) : ¬ IsSquare (a : ZMod p) := by
  have large : 1 < p := (Fact.out : p.Prime).one_lt
  rw [ZMod.euler_criterion p unit, pow_eq_one_iff large (by omega)]
  exact computed

end LucasCertificates
