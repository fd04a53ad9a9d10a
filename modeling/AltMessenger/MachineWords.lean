import Mathlib.Data.Nat.Bitwise
import AltMessenger.LittleEndian

/-!
Words of 32 bits as machines handle them: rotations written with shifts, and
bytes put together by shifting them to their places.
-/
namespace MachineWords
open LittleEndian

def rol (x : UInt32) (s : Nat) : UInt32 := .ofBitVec (x.toBitVec.rotateLeft s)

theorem rol_eq (x : UInt32) {s : Nat} (below : s < 32) :
    rol x s = .ofBitVec (x.toBitVec <<< s ||| x.toBitVec >>> (32 - s)) := by
  rw [rol, BitVec.rotateLeft_def, Nat.mod_eq_of_lt below]

/-- Above the low bits there is nothing to carry into. -/
theorem add_eq_xor {k low : Nat} (high : Nat) (below : low < 2 ^ k) :
    low + 2 ^ k * high = low ^^^ 2 ^ k * high := by
  apply Nat.eq_of_testBit_eq
  intro i
  rw [Nat.add_comm, Nat.testBit_two_pow_mul_add high below, Nat.testBit_xor,
    Nat.testBit_two_pow_mul]
  by_cases inside : i < k
  · simp [inside, Nat.not_le.mpr inside]
  · have beyond : low.testBit i = false :=
      Nat.testBit_lt_two_pow (below.trans_le (Nat.pow_le_pow_right (by decide) (by omega)))
    simp [inside, beyond, Nat.le_of_not_lt inside]

theorem shifted_toNat (b : UInt8) {s : Nat} (below : s ≤ 24) :
    (b.toUInt32 <<< UInt32.ofNat s).toNat = 2 ^ s * b.toNat := by
  have small := b.toNat_lt
  have power : 2 ^ s ≤ 2 ^ 24 := Nat.pow_le_pow_right (by decide) below
  have bound : 2 ^ s * b.toNat < 2 ^ 32 := by
    have := Nat.mul_le_mul power (show b.toNat ≤ 255 by omega)
    omega
  have amount : s % 2 ^ 32 % 32 = s := by omega
  rw [UInt32.toNat_shiftLeft, UInt32.toNat_ofNat', amount, Nat.shiftLeft_eq,
    UInt8.toNat_toUInt32, Nat.mul_comm]
  exact Nat.mod_eq_of_lt bound

theorem word_of_bytes (a b c : UInt8) :
    UInt32.ofNat (ofBytes [a,b,c]) =
      c.toUInt32 <<< 16 ^^^ b.toUInt32 <<< 8 ^^^ a.toUInt32 := by
  have low := a.toNat_lt
  have middle := b.toNat_lt
  have high := c.toNat_lt
  have two := @add_eq_xor 8 a.toNat b.toNat low
  have three := @add_eq_xor 16 (a.toNat + 2 ^ 8 * b.toNat) c.toNat (by omega)
  have value : ofBytes [a,b,c] = a.toNat + 2 ^ 8 * b.toNat + 2 ^ 16 * c.toNat := by
    simp only [ofBytes]
    omega
  apply UInt32.toNat_inj.mp
  have eight := shifted_toNat b (show 8 ≤ 24 by decide)
  have sixteen := shifted_toNat c (show 16 ≤ 24 by decide)
  rw [UInt32.toNat_ofNat_of_lt' (by rw [value]; simp [UInt32.size]; omega), value, three, two,
    UInt32.toNat_xor, UInt32.toNat_xor, UInt8.toNat_toUInt32]
  rw [show (16 : UInt32) = UInt32.ofNat 16 from rfl, show (8 : UInt32) = UInt32.ofNat 8 from rfl,
    eight, sixteen, Nat.xor_comm, Nat.xor_comm a.toNat, Nat.xor_assoc]

end MachineWords
