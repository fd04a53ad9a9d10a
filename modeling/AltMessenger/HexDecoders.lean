import AltMessenger.BitcoinHash
import AltMessenger.SwiftText

/-!
The two decoders of hexadecimal text. Both go through a big integer, and only
`hexStringToNSData` puts back the zero bytes in front that are lost on the way.
-/
namespace HexDecoders
open SwiftRuntime BitcoinHash SwiftText

/-- `NSData.fromHexString` -/
def fromHexString (text : List Char) : Except Trap (List UInt8) := do
  let num ← unwrap (bigUIntOfHex text)
  pure (serialize num)

/-- Both decoders give the bytes whose text it is, in lower case. -/
def Agree (text : List Char) : Prop :=
  ∃ bytes, hexStringToNSData text = .ok bytes ∧ fromHexString text = .ok bytes ∧
    toHexString bytes = lowercased text

/-- Both decoders give back the bytes that were written. -/
def Undone (data : List UInt8) : Prop :=
  hexStringToNSData (toHexString data) = .ok data ∧ fromHexString (toHexString data) = .ok data

/-- Pairs of digits. -/
structure Hex (text : List Char) : Prop where
  even : text.length % 2 = 0
  digits : ∀ c ∈ text, ∃ d, hexValue c = some d

section Digits
variable {c : Char} {d : Nat}

theorem char_eq {c : Char} {n : Nat} (number : c.toNat = n) : c = Char.ofNat n := by
  rw [← number, Char.ofNat_toNat]

theorem hexValue_range (value : hexValue c = some d) :
    (48 ≤ c.toNat ∧ c.toNat ≤ 57) ∨ (97 ≤ c.toNat ∧ c.toNat ≤ 102) ∨
      (65 ≤ c.toNat ∧ c.toNat ≤ 70) := by
  unfold hexValue at value
  split_ifs at value with digit lower upper
  · exact Or.inl digit
  · exact Or.inr (Or.inl lower)
  · exact Or.inr (Or.inr upper)

/-- The digit of its value is the same digit in lower case, and zero has only one case. -/
theorem hexDigit_hexValue (value : hexValue c = some d) :
    d < 16 ∧ hexDigit d = lowercase c ∧ (lowercase c = '0' ↔ c = '0') := by
  have range := hexValue_range value
  obtain ⟨n,number⟩ : ∃ n, c.toNat = n := ⟨_,rfl⟩
  have same := char_eq number
  rw [number] at range
  subst same
  rcases range with ⟨low,high⟩ | ⟨low,high⟩ | ⟨low,high⟩ <;> interval_cases n <;> cases value <;>
    decide

theorem hexValue_lowercase (value : hexValue c = some d) : hexValue (lowercase c) = some d := by
  obtain ⟨small,digit,_⟩ := hexDigit_hexValue value
  rw [← digit]
  exact hexValue_hexDigit small

theorem byteHex_pair {a b : Char} {high low : Nat} (first : hexValue a = some high)
    (second : hexValue b = some low) :
    byteHex (UInt8.ofNat (16 * high + low)) = [lowercase a,lowercase b] := by
  obtain ⟨high_small,high_digit,_⟩ := hexDigit_hexValue first
  obtain ⟨low_small,low_digit,_⟩ := hexDigit_hexValue second
  have number : (UInt8.ofNat (16 * high + low)).toNat = 16 * high + low :=
    UInt8.toNat_ofNat_of_lt' (show 16 * high + low < 256 by omega)
  have quotient : (16 * high + low) / 16 = high := by omega
  have remainder : (16 * high + low) % 16 = low := by omega
  rw [byteHex, number, quotient, remainder, high_digit, low_digit]

end Digits

section Texts
variable {text : List Char}

theorem Hex.tail {a b : Char} (hex : Hex (a :: b :: text)) : Hex text where
  even := by
    have even := hex.even
    simp only [List.length_cons] at even
    omega
  digits := fun c mem => hex.digits c (List.mem_cons_of_mem a (List.mem_cons_of_mem b mem))

theorem Hex.bytes (hex : Hex text) : ∃ bytes, toHexString bytes = lowercased text := by
  induction text using List.twoStepInduction with
  | nil => exact ⟨[],rfl⟩
  | singleton c => exact absurd hex.even Nat.one_ne_zero
  | cons_cons a b text ih _ =>
    obtain ⟨bytes,rest⟩ := ih hex.tail
    obtain ⟨high,first⟩ := hex.digits a List.mem_cons_self
    obtain ⟨low,second⟩ := hex.digits b (List.mem_cons_of_mem a List.mem_cons_self)
    refine ⟨UInt8.ofNat (16 * high + low) :: bytes,?_⟩
    have split : toHexString (UInt8.ofNat (16 * high + low) :: bytes) =
        byteHex (UInt8.ofNat (16 * high + low)) ++ toHexString bytes := List.flatMap_cons
    rw [split, byteHex_pair first second, rest]
    rfl

theorem hexNumber_lowercased (digits : ∀ c ∈ text, ∃ d, hexValue c = some d) (number : Nat) :
    hexNumber number (lowercased text) = hexNumber number text := by
  induction text generalizing number with
  | nil => rfl
  | cons c text ih =>
    obtain ⟨d,value⟩ := digits c List.mem_cons_self
    have lower : lowercased (c :: text) = lowercase c :: lowercased text := rfl
    rw [lower, hexNumber, hexNumber, hexValue_lowercase value, value]
    exact ih (fun c mem => digits c (List.mem_cons_of_mem _ mem)) _

theorem leadingZeros_lowercased (hex : Hex text) :
    leadingZeros (lowercased text) = leadingZeros text := by
  induction text using List.twoStepInduction with
  | nil => rfl
  | singleton c => rfl
  | cons_cons a b text ih _ =>
    obtain ⟨high,first⟩ := hex.digits a List.mem_cons_self
    obtain ⟨low,second⟩ := hex.digits b (List.mem_cons_of_mem a List.mem_cons_self)
    have lower : lowercased (a :: b :: text) = lowercase a :: lowercase b :: lowercased text := rfl
    have pair : lowercase a = '0' ∧ lowercase b = '0' ↔ a = '0' ∧ b = '0' :=
      and_congr (hexDigit_hexValue first).2.2 (hexDigit_hexValue second).2.2
    rw [lower, leadingZeros, leadingZeros, ih hex.tail, if_congr pair rfl rfl]

theorem hexStringToNSData_hex (hex : Hex text) {bytes : List UInt8}
    (written : toHexString bytes = lowercased text) : hexStringToNSData text = .ok bytes := by
  have lower : hexStringToNSData (lowercased text) = hexStringToNSData text := by
    rw [hexStringToNSData, hexStringToNSData, leadingZeros_lowercased hex, bigUIntOfHex, bigUIntOfHex,
      hexNumber_lowercased hex.digits]
  rw [← lower, ← written]
  exact hexStringToNSData_toHexString bytes

/-- `fromHexString` gives them without the zero bytes in front. -/
theorem fromHexString_hex (hex : Hex text) {bytes : List UInt8}
    (written : toHexString bytes = lowercased text) :
    fromHexString text = .ok (bytes.dropWhile (· = 0)) := by
  rw [fromHexString, bigUIntOfHex, ← hexNumber_lowercased hex.digits, ← written, ← bigUIntOfHex,
    bigUIntOfHex_toHexString, ← serialize_bytes]
  rfl

theorem dropWhile_zeros {bytes : List UInt8} :
    bytes.dropWhile (· = 0) = bytes ↔ bytes.head? ≠ some 0 := by
  rw [List.dropWhile_eq_self_iff]
  cases bytes <;> simp

/-- The first byte is zero where the first two digits are. -/
theorem head_zero (hex : Hex text) {bytes : List UInt8}
    (written : toHexString bytes = lowercased text) :
    bytes.head? = some 0 ↔ text.take 2 = ['0','0'] := by
  cases bytes with
  | nil =>
    have empty : text = [] := List.map_eq_nil_iff.mp written.symm
    rw [empty]
    simp
  | cons byte bytes =>
    have digits : toHexString (byte :: bytes) =
        hexDigit (byte.toNat / 16) :: hexDigit (byte.toNat % 16) :: toHexString bytes := rfl
    rw [digits] at written
    cases text with
    | nil => cases written
    | cons a text =>
      cases text with
      | nil => cases (List.cons.inj written).2
      | cons b text =>
        obtain ⟨high,written⟩ := List.cons.inj written
        obtain ⟨low,_⟩ := List.cons.inj written
        obtain ⟨_,first⟩ := hex.digits a List.mem_cons_self
        obtain ⟨_,second⟩ := hex.digits b (List.mem_cons_of_mem a List.mem_cons_self)
        have zero := pair_zero (b := byte)
        rw [high, low, (hexDigit_hexValue first).2.2, (hexDigit_hexValue second).2.2] at zero
        simp [← zero]

theorem agree_iff (hex : Hex text) : Agree text ↔ text.take 2 ≠ ['0','0'] := by
  obtain ⟨bytes,written⟩ := hex.bytes
  have first := hexStringToNSData_hex hex written
  have second := fromHexString_hex hex written
  rw [Ne, ← head_zero hex written, ← Ne, ← dropWhile_zeros]
  constructor
  · rintro ⟨bytes',first',second',_⟩
    cases first.symm.trans first'
    exact Except.ok.inj (second.symm.trans second')
  · intro kept
    rw [kept] at second
    exact ⟨bytes,first,second,written⟩

end Texts

theorem undone_iff {data : List UInt8} : Undone data ↔ data.head? ≠ some 0 := by
  have second : fromHexString (toHexString data) = .ok (data.dropWhile (· = 0)) := by
    rw [fromHexString, bigUIntOfHex_toHexString, ← serialize_bytes]
    rfl
  rw [Undone, second, Except.ok.injEq, dropWhile_zeros]
  exact and_iff_right (hexStringToNSData_toHexString data)

/-- The decoders agree on a text unless it starts with a pair of zeros, and give back bytes unless
    they start with zero. `hexStringToNSData` is right all the same. -/
theorem decoders_agree_iff {text : List Char} (hex : Hex text) (data : List UInt8) :
    ((Agree text ↔ text.take 2 ≠ ['0','0']) ∧
      ∃ bytes, hexStringToNSData text = .ok bytes ∧ toHexString bytes = lowercased text) ∧
      (Undone data ↔ data.head? ≠ some 0) ∧
      hexStringToNSData (toHexString data) = .ok data := by
  refine ⟨⟨agree_iff hex,?_⟩,undone_iff,hexStringToNSData_toHexString data⟩
  obtain ⟨bytes,written⟩ := hex.bytes
  exact ⟨bytes,hexStringToNSData_hex hex written,written⟩

theorem hex_mixed : Hex "0aFf".toList where
  even := rfl
  digits := by
    intro c mem
    have there : c ∈ ['0','a','F','f'] := mem
    simp only [List.mem_cons, List.not_mem_nil, or_false] at there
    rcases there with rfl | rfl | rfl | rfl
    · exact ⟨0,rfl⟩
    · exact ⟨10,rfl⟩
    · exact ⟨15,rfl⟩
    · exact ⟨15,rfl⟩

theorem mixed_agrees : Agree "0aFf".toList ∧ Undone [0x0a,0xff] := by
  obtain ⟨⟨agree,_⟩,undone,_⟩ := decoders_agree_iff hex_mixed [0x0a,0xff]
  exact ⟨agree.mpr (by decide),undone.mpr (by decide)⟩

/-- The text of a hash that starts with a zero byte. -/
theorem zero_pair_lost :
    hexStringToNSData "00ff".toList = .ok [0x00,0xff] ∧
      fromHexString "00ff".toList = .ok [0xff] ∧ ¬ Agree "00ff".toList ∧ ¬ Undone [0x00,0xff] := by
  have first : hexStringToNSData "00ff".toList = .ok [0x00,0xff] := by decide
  have second : fromHexString "00ff".toList = .ok [0xff] := by decide
  refine ⟨first,second,?_,?_⟩
  · rintro ⟨bytes,first',second',_⟩
    cases first.symm.trans first'
    cases second.symm.trans second'
  · rintro ⟨_,second'⟩
    cases second.symm.trans second'

end HexDecoders
