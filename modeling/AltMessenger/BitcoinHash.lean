import Mathlib.Tactic.IntervalCases
import AltMessenger.BitcoinStream

/-!
Hashes of fixed width, the digests taken from the crypto libraries, big integers
as bytes, and hexadecimal text. A hash keeps its bytes in display order; on the
wire they are reversed. The two digest functions are given, with their widths.
-/
namespace BitcoinHash
open ByteReader SwiftRuntime LittleEndian BitcoinStream

/-- `SHA256Hash` and `RIPEMD160HASH` differ in their width alone. -/
structure HashOf (width : Nat) where
  data : List UInt8
  length_eq : data.length = width
  deriving DecidableEq

abbrev SHA256Hash := HashOf 32

abbrev RIPEMD160HASH := HashOf 20

variable {width : Nat}

def HashOf.ofData (width : Nat) (data : List UInt8) : Except Trap (HashOf width) :=
  if length : data.length = width then .ok ⟨data,length⟩ else .error .assertion

def HashOf.bitcoinData (hash : HashOf width) : List UInt8 := hash.data.reverse

def HashOf.fromBitcoinStream (width : Nat) : Stream (HashOf width) := do
  let hashData ← readData width
  lift (HashOf.ofData width hashData.reverse)

structure Digests where
  sha256 : List UInt8 → List UInt8
  sha256_length : ∀ data, (sha256 data).length = 32
  ripemd160 : List UInt8 → List UInt8
  ripemd160_length : ∀ data, (ripemd160 data).length = 20

/-- `SHA256.digest`; the length goes to the C function as a `UInt32`. -/
def SHA256.digest (D : Digests) (input : List UInt8) : Except Trap (List UInt8) :=
  if input.length < 2 ^ 32 then .ok (D.sha256 input) else .error .conversion

def Hash256.digest (D : Digests) (input : List UInt8) : Except Trap (List UInt8) := do
  let once ← SHA256.digest D input
  SHA256.digest D once

def Hash160.digest (D : Digests) (input : List UInt8) : Except Trap (List UInt8) := do
  let sha256 ← SHA256.digest D input
  pure (D.ripemd160 sha256)

/-- `BigUInt(data)` -/
def bigUInt (data : List UInt8) : Nat := ofBytes data.reverse

def bitWidth (number : Nat) : Nat := if number = 0 then 0 else number.log2 + 1

/-- `number.serialize()`: big-endian, and no longer than the number needs. -/
def serialize (number : Nat) : List UInt8 := (toBytes ((bitWidth number + 7) / 8) number).reverse

def hexDigit (d : Nat) : Char := if d < 10 then Char.ofNat (48 + d) else Char.ofNat (87 + d)

def hexValue (c : Char) : Option Nat :=
  if '0' ≤ c ∧ c ≤ '9' then some (c.toNat - 48)
  else if 'a' ≤ c ∧ c ≤ 'f' then some (c.toNat - 87)
  else if 'A' ≤ c ∧ c ≤ 'F' then some (c.toNat - 55)
  else none

def byteHex (b : UInt8) : List Char := [hexDigit (b.toNat / 16), hexDigit (b.toNat % 16)]

def toHexString (data : List UInt8) : List Char := data.flatMap byteHex

def hexNumber (number : Nat) : List Char → Option Nat
  | [] => some number
  | c :: text => do
    let digit ← hexValue c
    hexNumber (16 * number + digit) text

/-- `BigUInt(text, radix: 16)` of a text of digits. -/
def bigUIntOfHex (text : List Char) : Option Nat := hexNumber 0 text

/-- The loop of `hexStringToNSData`: one byte for each leading pair of zeros.
    A pair that runs past the end of the text is a range fault. -/
def leadingZeros : List Char → Except Trap (List UInt8)
  | [] => .ok []
  | [_] => .error .index
  | a :: b :: text =>
    if a = '0' ∧ b = '0' then do
      let zeros ← leadingZeros text
      pure (0 :: zeros)
    else .ok []

def hexStringToNSData (text : List Char) : Except Trap (List UInt8) := do
  let zeros ← leadingZeros text
  let number ← unwrap (bigUIntOfHex text)
  pure (zeros ++ serialize number)

theorem ofData_ok {data : List UInt8} {hash : HashOf width} :
    HashOf.ofData width data = .ok hash ↔ data = hash.data := by
  unfold HashOf.ofData
  constructor
  · intro run
    split at run
    · cases run; rfl
    · cases run
  · intro same
    subst same
    rw [dif_pos hash.length_eq]

@[simp] theorem bitcoinData_length (hash : HashOf width) : hash.bitcoinData.length = width := by
  rw [HashOf.bitcoinData, List.length_reverse, hash.length_eq]

theorem reads_hash (positive : 0 < width) (hash : HashOf width) :
    Reads (HashOf.fromBitcoinStream width) hash.bitcoinData hash := by
  have some : hash.bitcoinData ≠ [] := by
    intro empty
    have := bitcoinData_length hash
    rw [empty, List.length_nil] at this
    omega
  have bytes := reads_data hash.bitcoinData some
  rw [bitcoinData_length] at bytes
  refine reads_last bytes ?_
  rw [ofData_ok.mpr (show hash.bitcoinData.reverse = hash.data from List.reverse_reverse _)]
  exact reads_pure hash

theorem spelled_hash (width : Nat) :
    Spelled (HashOf.fromBitcoinStream width) HashOf.bitcoinData (fun _ => true) := by
  intro bs hash rest parsed
  obtain ⟨data,mid,first,run⟩ := bind_eq_ok.mp parsed
  obtain ⟨rfl,_⟩ := readData_ok first
  cases made : HashOf.ofData width data.reverse with
  | error e => rw [made] at run; cases run
  | ok made_hash =>
    rw [made] at run
    cases run
    have same : hash.bitcoinData = data := by
      rw [HashOf.bitcoinData, ← ofData_ok.mp made, List.reverse_reverse]
    exact ⟨data, rfl, (congrArg List.length same).le, by simp [same]⟩

/-- Digests known at the listed inputs. -/
def Digests.known (sha256 ripemd160 : List (List UInt8 × List UInt8)) : Digests where
  sha256 data :=
    let found := (sha256.lookup data).getD []
    if found.length = 32 then found else List.replicate 32 0
  sha256_length data := by
    dsimp only
    split
    · assumption
    · simp
  ripemd160 data :=
    let found := (ripemd160.lookup data).getD []
    if found.length = 20 then found else List.replicate 20 0
  ripemd160_length data := by
    dsimp only
    split
    · assumption
    · simp

theorem digest_short (D : Digests) {input : List UInt8} (short : input.length < 2 ^ 32) :
    Hash256.digest D input = .ok (D.sha256 (D.sha256 input)) := by
  have again : (D.sha256 input).length < 2 ^ 32 := by rw [D.sha256_length]; decide
  simp only [Hash256.digest, SHA256.digest, short, if_true]
  exact if_pos again

theorem Hash256.digest_ok {D : Digests} {input digest : List UInt8} :
    Hash256.digest D input = .ok digest ↔
      input.length < 2 ^ 32 ∧ digest = D.sha256 (D.sha256 input) := by
  by_cases short : input.length < 2 ^ 32
  · rw [digest_short D short, Except.ok.injEq]
    exact ⟨fun same => ⟨short,same.symm⟩, fun same => same.2.symm⟩
  · simp only [Hash256.digest, SHA256.digest, short, if_false, false_and, iff_false]
    intro run
    cases run

theorem bitWidth_le {number bits : Nat} : bitWidth number ≤ bits ↔ number < 2 ^ bits := by
  unfold bitWidth
  split
  · rename_i zero
    rw [zero]
    simp
  · rename_i nonzero
    rw [← Nat.log2_lt nonzero]
    omega

theorem bytes_pow (bytes : Nat) : (256 : Nat) ^ bytes = 2 ^ (8 * bytes) := by
  rw [Nat.pow_mul]

theorem serialize_of_size {number bytes : Nat} (low : 256 ^ bytes ≤ number)
    (high : number < 256 ^ (bytes + 1)) :
    serialize number = (toBytes (bytes + 1) number).reverse := by
  rw [bytes_pow] at low high
  have least := bitWidth_le.not.mpr (Nat.not_lt.mpr low)
  have most := bitWidth_le.mpr high
  have count : (bitWidth number + 7) / 8 = bytes + 1 := by omega
  rw [serialize, count]

theorem bigUInt_cons (b : UInt8) (tail : List UInt8) :
    bigUInt (b :: tail) = b.toNat * 256 ^ tail.length + bigUInt tail := by
  rw [bigUInt, List.reverse_cons, ofBytes_append, List.length_reverse, ofBytes, ofBytes, bigUInt]
  ring

theorem bigUInt_append (high low : List UInt8) :
    bigUInt (high ++ low) = bigUInt high * 256 ^ low.length + bigUInt low := by
  rw [bigUInt, List.reverse_append, ofBytes_append, List.length_reverse, bigUInt, bigUInt]
  ring

theorem bigUInt_lt (data : List UInt8) : bigUInt data < 256 ^ data.length := by
  rw [bigUInt, ← List.length_reverse]
  exact ofBytes_lt data.reverse

/-- Bytes that do not start with zero are the shortest spelling of their number. -/
theorem serialize_bigUInt {b : UInt8} {tail : List UInt8} (nonzero : b ≠ 0) :
    serialize (bigUInt (b :: tail)) = b :: tail := by
  have positive : 0 < b.toNat := by
    rcases Nat.eq_zero_or_pos b.toNat with zero | positive
    · exact absurd (UInt8.toNat_inj.mp zero) nonzero
    · exact positive
  have low : 256 ^ tail.length ≤ bigUInt (b :: tail) := by
    rw [bigUInt_cons]
    exact le_add_right (Nat.le_mul_of_pos_left _ positive)
  have high := bigUInt_lt (b :: tail)
  have bytes := toBytes_ofBytes (b :: tail).reverse
  rw [List.length_reverse, List.length_cons] at bytes
  rw [serialize_of_size low high, bigUInt, bytes, List.reverse_reverse]

theorem serialize_length_le {number bytes : Nat} (high : number < 256 ^ bytes) :
    (serialize number).length ≤ bytes := by
  rw [bytes_pow] at high
  have most := bitWidth_le.mpr high
  rw [serialize, List.length_reverse, toBytes_length]
  omega

theorem serialize_cons {number : Nat} (positive : 0 < number) :
    ∃ b tail, serialize number = b :: tail := by
  have width : ¬ bitWidth number ≤ 0 := by
    rw [bitWidth_le]
    omega
  apply List.exists_cons_of_ne_nil
  intro empty
  have length := congrArg List.length empty
  rw [serialize, List.length_reverse, toBytes_length, List.length_nil] at length
  omega

theorem hexValue_hexDigit {d : Nat} (small : d < 16) : hexValue (hexDigit d) = some d := by
  interval_cases d <;> rfl

theorem hexNumber_toHexString (number : Nat) (data : List UInt8) :
    hexNumber number (toHexString data) = some (number * 256 ^ data.length + bigUInt data) := by
  induction data generalizing number with
  | nil => simp [toHexString, hexNumber, bigUInt, ofBytes]
  | cons b data ih =>
    have bound := b.toNat_lt
    have high : hexValue (hexDigit (b.toNat / 16)) = some (b.toNat / 16) :=
      hexValue_hexDigit (by omega)
    have low : hexValue (hexDigit (b.toNat % 16)) = some (b.toNat % 16) :=
      hexValue_hexDigit (by omega)
    have byte : 16 * (16 * number + b.toNat / 16) + b.toNat % 16 = number * 256 + b.toNat := by
      omega
    have text : toHexString (b :: data) =
        hexDigit (b.toNat / 16) :: hexDigit (b.toNat % 16) :: toHexString data := rfl
    rw [text, hexNumber, high, Option.bind_eq_bind, Option.bind_some, hexNumber, low,
      Option.bind_eq_bind, Option.bind_some, byte, ih, bigUInt_cons, List.length_cons, Nat.pow_succ]
    congr 1
    ring

theorem bigUIntOfHex_toHexString (data : List UInt8) :
    bigUIntOfHex (toHexString data) = some (bigUInt data) := by
  rw [bigUIntOfHex, hexNumber_toHexString, Nat.zero_mul, Nat.zero_add]

/-- The digits of a byte are both zero for the zero byte alone. -/
theorem pair_zero {b : UInt8} :
    hexDigit (b.toNat / 16) = '0' ∧ hexDigit (b.toNat % 16) = '0' ↔ b = 0 := by
  have bound := b.toNat_lt
  constructor
  · rintro ⟨high,low⟩
    have high' := congrArg hexValue high
    have low' := congrArg hexValue low
    rw [hexValue_hexDigit (by omega), show hexValue '0' = some 0 from rfl, Option.some_inj] at high'
    rw [hexValue_hexDigit (by omega), show hexValue '0' = some 0 from rfl, Option.some_inj] at low'
    exact UInt8.toNat_inj.mp (show b.toNat = 0 by omega)
  · intro zero
    rw [zero]
    exact ⟨rfl,rfl⟩

theorem leadingZeros_zero (data : List UInt8) :
    leadingZeros (toHexString (0 :: data)) = (leadingZeros (toHexString data)).map (0 :: ·) := by
  have text : toHexString (0 :: data) = '0' :: '0' :: toHexString data := rfl
  rw [text, leadingZeros, if_pos ⟨rfl,rfl⟩]
  cases leadingZeros (toHexString data) <;> rfl

theorem leadingZeros_nonzero {b : UInt8} (nonzero : b ≠ 0) (data : List UInt8) :
    leadingZeros (toHexString (b :: data)) = .ok [] := by
  have text : toHexString (b :: data) =
      hexDigit (b.toNat / 16) :: hexDigit (b.toNat % 16) :: toHexString data := rfl
  rw [text, leadingZeros, if_neg (pair_zero.not.mpr nonzero)]

theorem hexStringToNSData_toHexString (data : List UInt8) :
    hexStringToNSData (toHexString data) = .ok data := by
  induction data with
  | nil => rfl
  | cons b data ih =>
    by_cases zero : b = 0
    · subst zero
      have same : bigUInt (0 :: data) = bigUInt data := by simp [bigUInt_cons]
      rw [hexStringToNSData, bigUIntOfHex_toHexString] at ih ⊢
      rw [leadingZeros_zero, same]
      cases zeros : leadingZeros (toHexString data) with
      | error e => rw [zeros] at ih; cases ih
      | ok zs =>
        rw [zeros] at ih
        have tail : zs ++ serialize (bigUInt data) = data := Except.ok.inj ih
        exact congrArg Except.ok (congrArg (0 :: ·) tail)
    · rw [hexStringToNSData, bigUIntOfHex_toHexString, leadingZeros_nonzero zero]
      exact congrArg Except.ok (serialize_bigUInt zero)

theorem toHexString_injective {a b : List UInt8} (same : toHexString a = toHexString b) :
    a = b := by
  have left := hexStringToNSData_toHexString a
  rw [same, hexStringToNSData_toHexString b] at left
  exact (Except.ok.inj left).symm

theorem toHexString_length (data : List UInt8) : (toHexString data).length = 2 * data.length := by
  induction data with
  | nil => rfl
  | cons b data ih =>
    have text : toHexString (b :: data) = byteHex b ++ toHexString data := rfl
    rw [text, List.length_append, ih, List.length_cons, byteHex]
    simp only [List.length_cons, List.length_nil]
    omega

theorem bigUInt_serialize (number : Nat) : bigUInt (serialize number) = number := by
  have fits : number < 256 ^ ((bitWidth number + 7) / 8) := by
    rw [bytes_pow]
    exact bitWidth_le.mp (by omega)
  rw [serialize, bigUInt, List.reverse_reverse, ofBytes_toBytes _ number fits]

theorem toHexString_append (first second : List UInt8) :
    toHexString (first ++ second) = toHexString first ++ toHexString second :=
  List.flatMap_append

/-- A number is written without the zero bytes in front of it. -/
theorem serialize_bytes (data : List UInt8) :
    serialize (bigUInt data) = data.dropWhile (· = 0) := by
  induction data with
  | nil => rfl
  | cons b data ih =>
    by_cases zero : b = 0
    · subst zero
      have same : bigUInt (0 :: data) = bigUInt data := by simp [bigUInt_cons]
      rw [same, ih]
      simp
    · rw [serialize_bigUInt zero]
      simp [zero]

theorem serialize_head (number : Nat) : (serialize number).takeWhile (· = 0) = [] := by
  have shortest := serialize_bytes (serialize number)
  rw [bigUInt_serialize] at shortest
  have whole := List.takeWhile_append_dropWhile (p := (· = 0)) (l := serialize number)
  rw [← shortest] at whole
  simpa using whole

end BitcoinHash
