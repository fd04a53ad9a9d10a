import Mathlib.Data.Nat.Log
import Mathlib.Tactic.Ring

/-!
Numbers that are written as a size in bytes and a mantissa, three bytes whose first bit is left
free for a sign. Most numbers lose their last bytes.
-/
namespace CompactTargets

/-- The mantissa is the first bytes of the number: as many as leave the first bit free. -/
structure Rounded (n size mantissa : Nat) : Prop where
  sized : 3 ≤ size
  least : 2 ^ 15 ≤ mantissa
  most : mantissa < 2 ^ 23
  first : n / 256 ^ (size - 3) = mantissa

theorem Rounded.le {n size mantissa : Nat} (rounded : Rounded n size mantissa) :
    mantissa * 256 ^ (size - 3) ≤ n := by
  rw [← rounded.first]
  exact Nat.div_mul_le_self _ _

theorem Rounded.lt {n size mantissa : Nat} (rounded : Rounded n size mantissa) :
    n < (mantissa + 1) * 256 ^ (size - 3) := by
  rw [← rounded.first, Nat.mul_comm]
  exact Nat.lt_mul_div_succ _ (Nat.pow_pos (by decide))

/-- A number with more bytes is larger. -/
theorem Rounded.size_le {n n' size size' mantissa mantissa' : Nat}
    (rounded : Rounded n size mantissa) (rounded' : Rounded n' size' mantissa') (le : n ≤ n') :
    size ≤ size' := by
  by_contra longer
  have split : size - 3 = size' - 3 + 1 + (size - size' - 1) := by
    have sized := rounded'.sized
    omega
  have below : n' < 2 ^ 23 * 256 ^ (size' - 3) :=
    Nat.lt_of_lt_of_le rounded'.lt (Nat.mul_le_mul_right _ rounded'.most)
  have above : 2 ^ 15 * 256 ^ (size - 3) ≤ n :=
    (Nat.mul_le_mul_right _ rounded.least).trans rounded.le
  have same : 2 ^ 15 * 256 ^ (size' - 3 + 1) = 2 ^ 23 * 256 ^ (size' - 3) := by
    rw [Nat.pow_succ]
    ring
  have step : 2 ^ 15 * 256 ^ (size' - 3 + 1) ≤ 2 ^ 15 * 256 ^ (size - 3) :=
    Nat.mul_le_mul_left _ (Nat.pow_le_pow_right (by decide) (by omega))
  omega

/-- There is one way to write a number. -/
theorem Rounded.unique {n size size' mantissa mantissa' : Nat}
    (rounded : Rounded n size mantissa) (rounded' : Rounded n size' mantissa') :
    size = size' ∧ mantissa = mantissa' := by
  have same : size = size' := Nat.le_antisymm (rounded.size_le rounded' (Nat.le_refl n))
    (rounded'.size_le rounded (Nat.le_refl n))
  subst same
  exact ⟨rfl,rounded.first.symm.trans rounded'.first⟩

/-- What a size and a mantissa stand for. -/
def value (size mantissa : Nat) : Nat := mantissa * 256 ^ size / 256 ^ 3

theorem value_large {size : Nat} (mantissa : Nat) (sized : 3 ≤ size) :
    value size mantissa = mantissa * 256 ^ (size - 3) := by
  have split : 256 ^ size = 256 ^ (size - 3) * 256 ^ 3 := by
    rw [← Nat.pow_add, Nat.sub_add_cancel sized]
  rw [value, split, ← Nat.mul_assoc, Nat.mul_div_cancel _ (by decide)]

theorem value_small {size : Nat} (mantissa : Nat) (sized : size ≤ 3) :
    value size mantissa = mantissa >>> ((3 - size) * 8) := by
  have split : 256 ^ 3 = 256 ^ (3 - size) * 256 ^ size := by
    rw [← Nat.pow_add, Nat.sub_add_cancel sized]
  have bits : 2 ^ ((3 - size) * 8) = 256 ^ (3 - size) := by
    rw [Nat.mul_comm, Nat.pow_mul]
  rw [value, split, Nat.mul_div_mul_right _ _ (Nat.pow_pos (by decide)), Nat.shiftRight_eq_div_pow,
    bits]

/-- What is written is rounded to itself. -/
theorem rounded_value {size mantissa : Nat} (sized : 3 ≤ size) (least : 2 ^ 15 ≤ mantissa)
    (most : mantissa < 2 ^ 23) : Rounded (value size mantissa) size mantissa where
  sized := sized
  least := least
  most := most
  first := by rw [value_large mantissa sized, Nat.mul_div_cancel _ (Nat.pow_pos (by decide))]

/-- A first part that is long enough is rounded as the whole is. -/
theorem rounded_of_first {n places shift mantissa : Nat} (least : 2 ^ 15 ≤ mantissa)
    (most : mantissa < 2 ^ 23) (first : n / 256 ^ places / 256 ^ shift = mantissa) :
    Rounded n (places + shift + 3) mantissa where
  sized := by omega
  least := least
  most := most
  first := by rw [← first, Nat.div_div_eq_div_mul, ← Nat.pow_add, Nat.add_sub_cancel]

/-- Where a number is no larger than a limit that can be written, so is what it is rounded to; and
    the limit is rounded to itself. -/
theorem Rounded.capped {n size mantissa size' limit : Nat} (rounded : Rounded n size mantissa)
    (sized : 3 ≤ size') (least : 2 ^ 15 ≤ limit) (most : limit < 2 ^ 23) :
    Rounded (min n (value size' limit))
      (if size' < size ∨ size = size' ∧ limit < mantissa then size' else size)
      (if size' < size ∨ size = size' ∧ limit < mantissa then limit else mantissa) := by
  have self := rounded_value sized least most
  split
  case isTrue above =>
    have le : value size' limit ≤ n := by
      rcases above with longer | ⟨rfl,more⟩
      · by_contra less
        have shorter := rounded.size_le self (Nat.le_of_lt (Nat.not_le.mp less))
        omega
      · rw [value_large limit sized]
        exact (Nat.mul_le_mul_right _ (Nat.le_of_lt more)).trans rounded.le
    rwa [Nat.min_eq_right le]
  case isFalse below =>
    obtain ⟨no_longer,no_more⟩ := not_or.mp below
    rcases Nat.lt_or_ge (value size' limit) n with beyond | le
    · -- the same bytes come first
      have sizes : size' ≤ size := self.size_le rounded (Nat.le_of_lt beyond)
      have same : size = size' := by omega
      subst same
      have mantissas : mantissa = limit := by
        refine Nat.le_antisymm (Nat.not_lt.mp fun more => no_more ⟨rfl,more⟩) ?_
        rw [← rounded.first, ← self.first]
        exact Nat.div_le_div_right (Nat.le_of_lt beyond)
      rw [Nat.min_eq_right (Nat.le_of_lt beyond), mantissas]
      exact self
    · rwa [Nat.min_eq_left le]

end CompactTargets
