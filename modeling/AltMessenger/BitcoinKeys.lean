import AltMessenger.BitcoinHash

/-!
Wallet keys: the public point in affine form, its encodings as text, and the
signature bytes. A key read back from its stored texts faults where the source
faults: on text that is too short, is not a number, or is not below the field.
-/
namespace BitcoinKeys
open SwiftRuntime BitcoinHash

/-- The field of the secp256k1 domain. -/
def fieldPrime : Nat := 0xfffffffffffffffffffffffffffffffffffffffffffffffffffffffefffffc2f

/-- The order of its base point. -/
def order : Nat := 0xfffffffffffffffffffffffffffffffebaaedce6af48a03bbfd25e8cd0364141

structure FFInt where
  value : Nat
  small : value < fieldPrime
  deriving DecidableEq

def FFInt.ofHex (hex : List Char) : Except Trap FFInt := do
  let value ← unwrap (bigUIntOfHex hex)
  if small : value < fieldPrime then .ok ⟨value,small⟩ else .error .assertion

/-- A point in affine coordinates; the point at infinity has neither. -/
structure ECPoint where
  x : Option FFInt
  y : Option FFInt
  deriving DecidableEq

def ECPoint.toCompressedData (point : ECPoint) : Except Trap (List UInt8) := do
  let y ← unwrap point.y
  let lastDigit ← unwrap (serialize y.value).getLast?
  let parity : UInt8 := if lastDigit % 2 = 0 then 0x02 else 0x03
  let x ← unwrap point.x
  pure (parity :: serialize x.value)

/-- `text.substring(with: NSRange(location, length))` -/
def substring (text : List Char) (location length : Nat) : Except Trap (List Char) :=
  if location + length ≤ text.length then .ok ((text.drop location).take length)
  else .error .index

/-- `ECKey` and `CoinKey` in one; the curve is always secp256k1. -/
structure CoinKey where
  privateKey : Nat
  publicKeyPoint : ECPoint
  isCompressedPublicKeyAddress : Bool
  privateKeyPrefix : UInt8
  publicKeyPrefix : UInt8
  deriving DecidableEq

/-- A key that can sign: a private number below the order, and its point. -/
structure CoinKey.Valid (key : CoinKey) : Prop where
  private_positive : 0 < key.privateKey
  private_below : key.privateKey < order
  compressed : key.isCompressedPublicKeyAddress = true
  point : ∃ x y : FFInt, key.publicKeyPoint = { x := some x, y := some y } ∧ 0 < y.value

def CoinKey.uncompressedPublicKeyHexString (key : CoinKey) : Except Trap (List Char) := do
  let x ← unwrap key.publicKeyPoint.x
  let xStr ← substring (toHexString (serialize x.value)) 0 64
  let y ← unwrap key.publicKeyPoint.y
  let yStr ← substring (toHexString (serialize y.value)) 0 64
  pure (['0','4'] ++ xStr ++ yStr)

def CoinKey.compressedPublicKeyHexString (key : CoinKey) : Except Trap (List Char) := do
  let data ← key.publicKeyPoint.toCompressedData
  pure (toHexString data)

def CoinKey.publicKeyHexString (key : CoinKey) : Except Trap (List Char) :=
  if key.isCompressedPublicKeyAddress then key.compressedPublicKeyHexString
  else key.uncompressedPublicKeyHexString

def pointFromHex (hexString : List Char) : Except Trap ECPoint := do
  let x ← substring hexString 2 64
  let y ← substring hexString 66 64
  let x ← FFInt.ofHex x
  let y ← FFInt.ofHex y
  pure { x := some x, y := some y }

/-- `CoinKey(privateKeyHex:publicKeyHex:privateKeyPrefix:publicKeyPrefix:)` -/
def CoinKey.ofHex (privateKeyHex publicKeyHex : List Char)
    (privateKeyPrefix publicKeyPrefix : UInt8) : Except Trap CoinKey := do
  let point ← pointFromHex publicKeyHex
  let privateKey ← unwrap (bigUIntOfHex privateKeyHex)
  pure { privateKey, publicKeyPoint := point, isCompressedPublicKeyAddress := true,
         privateKeyPrefix, publicKeyPrefix }

/-- A big integer as the body of a DER integer: unsigned, so a leading bit that
    would read as a sign gets a zero byte in front. -/
def derBytes (number : Nat) : Except Trap (List UInt8) := do
  let bytes := serialize number
  let first ← subscript bytes 0
  pure (if first > 0x7f then 0x00 :: bytes else bytes)

/-- `ECKey.der(r, s)` -/
def der (r s : Nat) : Except Trap (List UInt8) := do
  let r_bytes ← derBytes r
  let s_bytes ← derBytes s
  let r_count ← uint8 r_bytes.length
  let s_count ← uint8 s_bytes.length
  let z := [0x02, r_count] ++ r_bytes ++ [0x02, s_count] ++ s_bytes
  let z_count ← uint8 z.length
  pure ([0x30, z_count] ++ z)

/-- A part of a text, by its place and its length. -/
theorem substring_between (before text behind : List Char) :
    substring (before ++ (text ++ behind)) before.length text.length = .ok text := by
  rw [substring, if_pos (by simp), List.drop_left, List.take_left]

theorem derBytes_ok {number : Nat} (positive : 0 < number) (fits : number < 256 ^ 32) :
    ∃ bytes, derBytes number = .ok bytes ∧ bytes.length ≤ 33 := by
  obtain ⟨b,tail,bytes⟩ := serialize_cons positive
  have short := serialize_length_le fits
  rw [bytes] at short
  refine ⟨if b > 0x7f then 0x00 :: b :: tail else b :: tail, ?_, ?_⟩
  · rw [derBytes, bytes]
    rfl
  · split <;> simp only [List.length_cons] at short ⊢ <;> omega

theorem uint8_ok {n : Nat} (fits : n < 256) : uint8 n = .ok (UInt8.ofNat n) := if_pos fits

/-- Two numbers of at most 32 bytes always make a signature of at most 72. -/
theorem der_ok {r s : Nat} (hr : 0 < r) (fits_r : r < 256 ^ 32) (hs : 0 < s)
    (fits_s : s < 256 ^ 32) : ∃ signature, der r s = .ok signature ∧ signature.length ≤ 72 := by
  obtain ⟨rb,run_r,len_r⟩ := derBytes_ok hr fits_r
  obtain ⟨sb,run_s,len_s⟩ := derBytes_ok hs fits_s
  have count_r := uint8_ok (show rb.length < 256 by omega)
  have count_s := uint8_ok (show sb.length < 256 by omega)
  let z := [0x02, UInt8.ofNat rb.length] ++ rb ++ [0x02, UInt8.ofNat sb.length] ++ sb
  have len_z : z.length ≤ 70 := by
    simp only [z, List.length_append, List.length_cons, List.length_nil]
    omega
  have count_z := uint8_ok (show z.length < 256 by omega)
  refine ⟨[0x30, UInt8.ofNat z.length] ++ z, ?_, ?_⟩
  · unfold der
    rw [bind_ready run_r, bind_ready run_s, bind_ready count_r, bind_ready count_s]
    exact bind_ready count_z
  · rw [List.length_append]
    simp only [List.length_cons, List.length_nil]
    omega

theorem toCompressedData_ok {x y : FFInt} (positive : 0 < y.value) :
    ∃ data, ECPoint.toCompressedData { x := some x, y := some y } = .ok data ∧
      data.length ≤ 33 := by
  obtain ⟨b,tail,bytes⟩ := serialize_cons positive
  have short := serialize_length_le (Nat.lt_trans x.small (show fieldPrime < 256 ^ 32 by decide))
  have last : ∃ digit, (serialize y.value).getLast? = some digit := by
    rw [bytes, List.getLast?_cons]
    exact ⟨_,rfl⟩
  obtain ⟨digit,last⟩ := last
  refine ⟨(if digit % 2 = 0 then 0x02 else 0x03) :: serialize x.value, ?_, ?_⟩
  · unfold ECPoint.toCompressedData
    rw [bind_ready (show unwrap (some y) = .ok y from rfl),
      bind_ready (show unwrap (serialize y.value).getLast? = .ok digit by rw [last]; rfl)]
    rfl
  · rw [List.length_cons]
    omega

/-- The text a valid key is written into a signature from is that of at most 33 bytes. -/
theorem publicKeyHexString_ok {key : CoinKey} (valid : key.Valid) :
    ∃ data, key.publicKeyHexString = .ok (toHexString data) ∧ data.length ≤ 33 := by
  obtain ⟨x,y,point,positive⟩ := valid.point
  obtain ⟨data,run,short⟩ := toCompressedData_ok (x := x) positive
  refine ⟨data,?_,short⟩
  rw [CoinKey.publicKeyHexString, if_pos valid.compressed, CoinKey.compressedPublicKeyHexString,
    point, run]
  rfl

end BitcoinKeys
