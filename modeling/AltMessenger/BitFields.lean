import Mathlib.Data.Nat.Bitwise
import Mathlib.Data.List.Basic

/-!
Bits kept in bytes, the lowest first. Bits are only ever set, so what a field
holds is the set of the places that were set, in whatever order.
-/
namespace BitFields

def bit (bytes : List UInt8) (i : Nat) : Bool := (bytes.getD (i / 8) 0).toNat.testBit (i % 8)

def setBit (bytes : List UInt8) (i : Nat) : List UInt8 :=
  bytes.set (i / 8) (bytes.getD (i / 8) 0 ||| 1 <<< UInt8.ofNat (i % 8))

def setBits (bytes : List UInt8) (places : List Nat) : List UInt8 := places.foldl setBit bytes

@[simp] theorem setBit_length (bytes : List UInt8) (i : Nat) :
    (setBit bytes i).length = bytes.length := by simp [setBit]

@[simp] theorem setBits_length (bytes : List UInt8) (places : List Nat) :
    (setBits bytes places).length = bytes.length := by
  induction places generalizing bytes with
  | nil => rfl
  | cons i places ih => exact (ih (setBit bytes i)).trans (setBit_length bytes i)

theorem or_one_testBit (b : UInt8) {i j : Nat} (left : i < 8) (right : j < 8) :
    (b ||| 1 <<< UInt8.ofNat i).toNat.testBit j = (b.toNat.testBit j || decide (i = j)) := by
  have one : ∀ i j : Fin 8, (1 <<< UInt8.ofNat i.val : UInt8).toNat.testBit j.val =
      decide (i.val = j.val) := by decide
  rw [UInt8.toNat_or, Nat.testBit_or, one ⟨i,left⟩ ⟨j,right⟩]

theorem bit_setBit {bytes : List UInt8} {i : Nat} (inside : i < 8 * bytes.length) (j : Nat) :
    bit (setBit bytes i) j = (bit bytes j || decide (i = j)) := by
  unfold bit setBit
  rw [List.getD_eq_getElem?_getD, List.getElem?_set]
  by_cases byte : i / 8 = j / 8
  · rw [if_pos byte, if_pos (by omega), Option.getD_some, byte,
      or_one_testBit _ (by omega) (by omega)]
    congr 1
    rw [decide_eq_decide]
    omega
  · have apart : i ≠ j := fun same => byte (by rw [same])
    simp [byte, apart]

theorem bit_setBits {bytes : List UInt8} {places : List Nat}
    (inside : ∀ i ∈ places, i < 8 * bytes.length) (j : Nat) :
    bit (setBits bytes places) j = (bit bytes j || decide (j ∈ places)) := by
  induction places generalizing bytes with
  | nil => simp [setBits]
  | cons i places ih =>
    have first := bit_setBit (inside i (by simp)) j
    have later := @ih (setBit bytes i) fun k mem => by
      rw [setBit_length]
      exact inside k (by simp [mem])
    change bit (setBits (setBit bytes i) places) j = _
    rw [later, first, Bool.or_assoc]
    simp [eq_comm]

theorem ext_bits {first second : List UInt8} (length : first.length = second.length)
    (same : ∀ i, bit first i = bit second i) : first = second := by
  apply List.ext_getElem length
  intro k inside within
  apply UInt8.toNat_inj.mp
  apply Nat.eq_of_testBit_eq
  intro i
  by_cases low : i < 8
  · have at_bit := same (8 * k + i)
    have byte : (8 * k + i) / 8 = k := by omega
    have place : (8 * k + i) % 8 = i := by omega
    rw [bit, bit, byte, place] at at_bit
    simpa [inside, within] using at_bit
  · have beyond : ∀ b : UInt8, b.toNat.testBit i = false := fun b =>
      Nat.testBit_lt_two_pow (b.toNat_lt.trans_le (Nat.pow_le_pow_right (by decide) (by omega)))
    rw [beyond, beyond]

/-- The order in which bits are set makes no difference. -/
theorem setBits_congr {bytes : List UInt8} {first second : List Nat}
    (inside : ∀ i ∈ first, i < 8 * bytes.length) (same : ∀ i, i ∈ first ↔ i ∈ second) :
    setBits bytes first = setBits bytes second := by
  apply ext_bits (by simp)
  intro j
  have inside' : ∀ i ∈ second, i < 8 * bytes.length :=
    fun i mem => inside i ((same i).mpr mem)
  rw [bit_setBits inside, bit_setBits inside', decide_eq_decide.mpr (same j)]

end BitFields
