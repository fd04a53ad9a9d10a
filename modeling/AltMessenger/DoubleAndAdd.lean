import Mathlib.GroupTheory.OrderOfElement
import Mathlib.Data.ZMod.Basic
import Mathlib.Algebra.Field.ZMod

/-!
Multiples of an element of prime order, and what a loop over the bits of a number meets that
adds up doublings: the sum so far and the next doubling are neither the same nor opposite.
-/
namespace DoubleAndAdd

theorem natCast_ne_of_lt {n j k : Nat} (different : j ≠ k) (j_below : j < n) (k_below : k < n) :
    (j : ZMod n) ≠ k := by
  rw [Ne, ZMod.natCast_eq_natCast_iff', Nat.mod_eq_of_lt j_below, Nat.mod_eq_of_lt k_below]
  exact different

theorem natCast_eq_iff_of_lt {n j k : Nat} (j_below : j < n) (k_below : k < n) :
    (j : ZMod n) = k ↔ j = k := by
  constructor
  · intro same
    by_contra different
    exact natCast_ne_of_lt different j_below k_below same
  · exact congrArg Nat.cast

theorem natCast_ne_zero_of_lt {n k : Nat} (positive : 0 < k) (below : k < n) :
    (k : ZMod n) ≠ 0 := by
  rw [← Nat.cast_zero]
  exact natCast_ne_of_lt positive.ne' below (positive.trans below)

section Order
variable {A : Type} [AddCommGroup A] {n : Nat} {P : A}

/-- The element has this order, where it is a prime. -/
structure HasOrder (n : Nat) (P : A) : Prop where
  whole : n • P = 0
  nonzero : P ≠ 0

variable [Fact n.Prime] (order : HasOrder n P) {j k u i : Nat}
include order

theorem HasOrder.addOrderOf_eq : addOrderOf P = n :=
  addOrderOf_eq_prime order.whole order.nonzero

theorem HasOrder.nsmul_eq_zero_iff : k • P = 0 ↔ (k : ZMod n) = 0 := by
  rw [← addOrderOf_dvd_iff_nsmul_eq_zero, order.addOrderOf_eq, ZMod.natCast_eq_zero_iff]

theorem HasOrder.nsmul_eq_neg_iff : j • P = -(k • P) ↔ (j : ZMod n) = -k := by
  rw [eq_neg_iff_add_eq_zero, ← add_nsmul, order.nsmul_eq_zero_iff, Nat.cast_add,
    eq_neg_iff_add_eq_zero]

theorem HasOrder.nsmul_eq_iff : j • P = k • P ↔ (j : ZMod n) = k := by
  rw [nsmul_eq_nsmul_iff_modEq, order.addOrderOf_eq, ZMod.natCast_eq_natCast_iff]

theorem HasOrder.nsmul (nonzero : (k : ZMod n) ≠ 0) : HasOrder n (k • P) where
  whole := by rw [← mul_nsmul', mul_nsmul, order.whole, nsmul_zero]
  nonzero := fun zero => nonzero (order.nsmul_eq_zero_iff.mp zero)

theorem HasOrder.add_self_ne_zero (odd : 2 < n) : P + P ≠ 0 := by
  intro zero
  rw [← two_nsmul, order.nsmul_eq_zero_iff, ZMod.natCast_eq_zero_iff] at zero
  exact absurd (Nat.le_of_dvd (by omega) zero) (by omega)

theorem HasOrder.two_pow_nsmul (odd : 2 < n) (i : Nat) : HasOrder n (2 ^ i • P) := by
  refine order.nsmul ?_
  rw [Ne, ZMod.natCast_eq_zero_iff]
  intro divides
  have two := (Fact.out : n.Prime).dvd_of_dvd_pow divides
  exact absurd (Nat.le_of_dvd (by omega) two) (by omega)

/-- The bits below one that is set make another multiple than that bit does. -/
theorem HasOrder.low_bits_ne (below : u < n) (bit : u.testBit i = true) :
    (u % 2 ^ i) • P ≠ 2 ^ i • P := by
  have low := Nat.mod_lt u (Nat.two_pow_pos i)
  have high := Nat.ge_two_pow_of_testBit bit
  rw [Ne, order.nsmul_eq_iff]
  exact natCast_ne_of_lt low.ne (by omega) (by omega)

theorem HasOrder.low_bits_ne_neg (below : u < n) (bit : u.testBit i = true) :
    (u % 2 ^ i) • P ≠ -(2 ^ i • P) := by
  have upto : u % 2 ^ i + 2 ^ i ≤ u := by
    have quotient : 0 < u / 2 ^ i :=
      Nat.div_pos (Nat.ge_two_pow_of_testBit bit) (Nat.two_pow_pos i)
    have split := Nat.mod_add_div u (2 ^ i)
    have once := Nat.mul_le_mul_left (2 ^ i) quotient
    omega
  have positive := Nat.two_pow_pos i
  rw [Ne, eq_neg_iff_add_eq_zero, ← add_nsmul, order.nsmul_eq_zero_iff, ZMod.natCast_eq_zero_iff]
  intro divides
  exact absurd (Nat.le_of_dvd (by omega) divides) (by omega)

end Order

section Bits
variable {A : Type} [AddCommMonoid A] {P : A} {u i : Nat}

theorem low_bits_succ : u % 2 ^ (i + 1) = u % 2 ^ i + (if u.testBit i then 2 ^ i else 0) := by
  rw [Nat.mod_pow_succ, Nat.testBit_eq_decide_div_mod_eq]
  rcases Nat.mod_two_eq_zero_or_one (u / 2 ^ i) with even | odd
  · simp [even]
  · simp [odd]

theorem low_bits_set (bit : u.testBit i = true) :
    (u % 2 ^ (i + 1)) • P = (u % 2 ^ i) • P + 2 ^ i • P := by
  rw [low_bits_succ, if_pos bit, add_nsmul]

theorem low_bits_clear (bit : u.testBit i = false) :
    (u % 2 ^ (i + 1)) • P = (u % 2 ^ i) • P := by
  rw [low_bits_succ, bit, if_neg Bool.false_ne_true, add_zero]

theorem two_pow_succ_nsmul : 2 ^ (i + 1) • P = 2 ^ i • P + 2 ^ i • P := by
  rw [pow_succ, mul_two, add_nsmul]

end Bits

/-- A loop over a list ends, and with its invariant, when each turn does. -/
theorem foldlM_spec {ε σ β : Type} {step : σ → β → Except ε σ} (invariant : Nat → σ → Prop)
    {xs : List β} {s : σ} (start : invariant 0 s)
    (keeps : ∀ i s (inside : i < xs.length), invariant i s →
      ∃ t, step s xs[i] = .ok t ∧ invariant (i + 1) t) :
    ∃ t, xs.foldlM step s = .ok t ∧ invariant xs.length t := by
  induction xs generalizing invariant s with
  | nil => exact ⟨s,rfl,start⟩
  | cons x xs ih =>
    obtain ⟨mid,first,kept⟩ := keeps 0 s (Nat.succ_pos _) start
    obtain ⟨t,rest,last⟩ := ih (fun i => invariant (i + 1)) kept fun i s inside holds =>
      keeps (i + 1) s (Nat.succ_lt_succ inside) holds
    rw [List.getElem_cons_zero] at first
    refine ⟨t,?_,last⟩
    rw [List.foldlM_cons, first]
    exact rest

end DoubleAndAdd
