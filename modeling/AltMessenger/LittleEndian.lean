import Mathlib.Tactic.Ring
import Mathlib.Tactic.Linarith

/-!
Fixed-width little-endian byte words over unbounded Nat. The two conversions
are inverse on numbers below the width's bound and on words of that width.
-/
namespace LittleEndian

def toBytes : Nat → Nat → List UInt8
  | 0, _ => []
  | width + 1, n => UInt8.ofNat n :: toBytes width (n / 256)

def ofBytes : List UInt8 → Nat
  | [] => 0
  | b :: bs => b.toNat + 256 * ofBytes bs

@[simp] theorem toBytes_length (width n : Nat) : (toBytes width n).length = width := by
  induction width generalizing n with
  | zero => rfl
  | succ width ih => simp [toBytes, ih]

theorem ofBytes_toBytes (width n : Nat) (bound : n < 256 ^ width) :
    ofBytes (toBytes width n) = n := by
  induction width generalizing n with
  | zero =>
    have : n = 0 := by simpa using bound
    simp [toBytes, ofBytes, this]
  | succ width ih =>
    have tail : n / 256 < 256 ^ width := by
      rw [Nat.div_lt_iff_lt_mul (by omega)]
      simpa [Nat.pow_succ] using bound
    have head : (UInt8.ofNat n).toNat = n % 256 := by simp
    rw [toBytes, ofBytes, ih _ tail, head]
    omega

theorem toBytes_ofBytes (bs : List UInt8) : toBytes bs.length (ofBytes bs) = bs := by
  induction bs with
  | nil => rfl
  | cons b bs ih =>
    have low : b.toNat < 256 := b.toNat_lt
    have quotient : (b.toNat + 256 * ofBytes bs) / 256 = ofBytes bs := by omega
    have remainder : UInt8.ofNat (b.toNat + 256 * ofBytes bs) = b := by
      apply UInt8.toNat_inj.mp
      simp
    simp only [List.length_cons, ofBytes, toBytes, quotient, ih, remainder]

theorem ofBytes_lt (bs : List UInt8) : ofBytes bs < 256 ^ bs.length := by
  induction bs with
  | nil => simp [ofBytes]
  | cons b bs ih =>
    have low : b.toNat < 256 := b.toNat_lt
    simp only [ofBytes, List.length_cons, Nat.pow_succ]
    omega

theorem ofBytes_append (low high : List UInt8) :
    ofBytes (low ++ high) = ofBytes low + 256 ^ low.length * ofBytes high := by
  induction low with
  | nil => simp [ofBytes]
  | cons b low ih =>
    rw [List.cons_append, ofBytes, ih, ofBytes, List.length_cons, Nat.pow_succ]
    ring

theorem toBytes_add (low high n : Nat) :
    toBytes (low + high) n = toBytes low n ++ toBytes high (n / 256 ^ low) := by
  induction low generalizing n with
  | zero => simp [toBytes]
  | succ low ih =>
    have quotient : n / 256 / 256 ^ low = n / 256 ^ (low + 1) := by
      rw [Nat.div_div_eq_div_mul, Nat.pow_succ, Nat.mul_comm]
    rw [Nat.succ_add, toBytes, ih, quotient, toBytes, List.cons_append]

/-- The words of this width, from the front. -/
def words (width count : Nat) (bytes : List UInt8) : List Nat :=
  (List.range count).map fun i => ofBytes ((bytes.drop (width * i)).take width)

theorem words_succ (width count : Nat) (bytes : List UInt8) :
    words width (count + 1) bytes =
      ofBytes (bytes.take width) :: words width count (bytes.drop width) := by
  simp [words, List.range_succ_eq_map, Function.comp_def, Nat.mul_add, Nat.add_comm]

/-- Written down again, they are the bytes. -/
theorem words_bytes {width count : Nat} {bytes : List UInt8}
    (whole : bytes.length = width * count) :
    (words width count bytes).flatMap (toBytes width) = bytes := by
  induction count generalizing bytes with
  | zero => simpa [words] using whole
  | succ count ih =>
    have front : (bytes.take width).length = width := by
      simp [whole, Nat.mul_add]
    have first := toBytes_ofBytes (bytes.take width)
    rw [front] at first
    rw [words_succ, List.flatMap_cons, first, ih (by simp [whole, Nat.mul_add]),
      List.take_append_drop]

end LittleEndian
