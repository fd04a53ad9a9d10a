import AltMessenger.SignBitID
import AltMessenger.VarIntForms

/-!
The other encoder of a variable-length integer, the `appendVarInt(i:)` that counts the bytes of a
message to be signed, beside `VarInt`. Its second test makes an `Int32` of the value.
-/
namespace MessageVarInt
open SwiftRuntime hiding uint32
open LittleEndian BitcoinStream VarIntForms
open SignBitID (int32 uint32 utf8 bitcoinSignedMessageHeader)

def varInt16Header : UInt64 := 0xfd

def varInt32Header : UInt64 := 0xfe

def varInt64Header : UInt64 := 0xff

/-- `UInt16(_:)` -/
def uint16 (n : Nat) : Except Trap UInt16 :=
  if n < 2 ^ 16 then .ok (UInt16.ofNat n) else .error .conversion

/-- `NSMutableData.appendVarInt(i:)`, as the bytes it appends. -/
def appendVarInt (i : UInt64) : Except Trap (List UInt8) :=
  if i < varInt16Header then do
    let payload ← uint8 i.toNat
    pure (toBytes 1 payload.toNat)
  else do
    let signed ← int32 i.toNat
    if signed ≤ 0xffff then do
      let header ← uint8 varInt16Header.toNat
      let payload ← uint16 i.toNat
      pure (header :: toBytes 2 payload.toNat)
    else do
      let unsigned ← uint32 i.toNat
      if unsigned ≤ 0xffffffff then do
        let header ← uint8 varInt32Header.toNat
        let payload ← uint32 i.toNat
        pure (header :: toBytes 4 payload.toNat)
      else do
        let header ← uint8 varInt64Header.toNat
        pure (header :: toBytes 8 i.toNat)

section Widths
variable {i : UInt64}

theorem header_of_width {value : UInt64} (byte : value.toNat < 256) :
    uint8 value.toNat = .ok (UInt8.ofNat value.toNat) := if_pos byte

theorem uint32_fits (below : i.toNat < 2 ^ 32) :
    uint32 i.toNat = .ok (UInt32.ofNat i.toNat) := by
  rw [uint32, if_pos (by omega)]
  simp

theorem appendVarInt_one (one : i.toNat < 0xfd) :
    appendVarInt i = .ok [UInt8.ofNat i.toNat] := by
  have small : i < varInt16Header := UInt64.lt_iff_toNat_lt.mpr one
  have byte : uint8 i.toNat = .ok (UInt8.ofNat i.toNat) := header_of_width (by omega)
  rw [appendVarInt, if_pos small, bind_ready byte,
    UInt8.toNat_ofNat_of_lt' (Nat.lt_trans one (by decide))]
  rfl

theorem appendVarInt_two (one : ¬ i.toNat < 0xfd) (two : i.toNat ≤ 0xffff) :
    appendVarInt i = .ok (0xfd :: toBytes 2 i.toNat) := by
  have large : ¬ i < varInt16Header := mt UInt64.lt_iff_toNat_lt.mp one
  have signed : int32 i.toNat = .ok (i.toNat : Int) := if_pos (by omega)
  have header : uint8 varInt16Header.toNat = .ok 0xfd := header_of_width (by decide)
  have payload : uint16 i.toNat = .ok (UInt16.ofNat i.toNat) := if_pos (by omega)
  rw [appendVarInt, if_neg large, bind_ready signed, if_pos (by omega), bind_ready header,
    bind_ready payload, UInt16.toNat_ofNat_of_lt' (Nat.lt_succ_of_le two)]
  rfl

theorem appendVarInt_four (two : ¬ i.toNat ≤ 0xffff) (four : i.toNat < 2 ^ 31) :
    appendVarInt i = .ok (0xfe :: toBytes 4 i.toNat) := by
  have large : ¬ i < varInt16Header := by
    rw [UInt64.lt_iff_toNat_lt]
    change ¬ i.toNat < 0xfd
    omega
  have signed : int32 i.toNat = .ok (i.toNat : Int) := if_pos four
  have unsigned := @uint32_fits i (by omega)
  have within : UInt32.ofNat i.toNat ≤ 0xffffffff := by
    rw [UInt32.le_iff_toNat_le]
    exact Nat.le_of_lt_succ (UInt32.toNat_lt _)
  have header : uint8 varInt32Header.toNat = .ok 0xfe := header_of_width (by decide)
  rw [appendVarInt, if_neg large, bind_ready signed, if_neg (by omega), bind_ready unsigned,
    if_pos within, bind_ready header, bind_ready unsigned,
    UInt32.toNat_ofNat_of_lt' (four.trans (by decide))]
  rfl

/-- The wider forms are not reached: what is no `Int32` stops the test before them. -/
theorem appendVarInt_stops (large : ¬ i.toNat < 2 ^ 31) :
    appendVarInt i = .error .conversion := by
  have past : ¬ i < varInt16Header := by
    rw [UInt64.lt_iff_toNat_lt]
    change ¬ i.toNat < 0xfd
    omega
  have signed : int32 i.toNat = .error .conversion := if_neg large
  rw [appendVarInt, if_neg past, bind_halted signed]

theorem appendVarInt_fits (fits : i.toNat < 2 ^ 31) :
    appendVarInt i = .ok (VarInt.ofValue i).bytes := by
  rw [bytes_eq, appendVarInt_eq]
  split_ifs with one two four
  · exact appendVarInt_one one
  · exact appendVarInt_two one two
  · exact appendVarInt_four two fits
  · omega

end Widths

theorem encoders_agree_iff (i : UInt64) :
    appendVarInt i = .ok (VarInt.ofValue i).bytes ↔ i.toNat < 2 ^ 31 := by
  constructor
  · intro agree
    by_contra large
    rw [appendVarInt_stops large] at agree
    cases agree
  · exact appendVarInt_fits

/-- The least value for which the encoder stops the program. -/
theorem wide_value_stops :
    appendVarInt 0x80000000 = .error .conversion ∧
      (VarInt.ofValue 0x80000000).bytes = [0xfe,0x00,0x00,0x00,0x80] ∧
      ¬ ∀ i : UInt64, appendVarInt i = .ok (VarInt.ofValue i).bytes := by
  have stops : appendVarInt 0x80000000 = .error .conversion := appendVarInt_stops (by decide)
  refine ⟨stops,by decide,?_⟩
  intro agree
  have made := agree 0x80000000
  rw [stops] at made
  cases made

/-- The encoder as the signing of messages has it, which leaves the last test out. -/
theorem signing_encoder (i : UInt64) : SignBitID.appendVarInt i.toNat = appendVarInt i := by
  by_cases fits : i.toNat < 2 ^ 31
  · have signed : int32 i.toNat = .ok (i.toNat : Int) := if_pos fits
    rw [appendVarInt_fits fits, bytes_eq, appendVarInt_eq, SignBitID.appendVarInt]
    split_ifs with one two four
    · rfl
    · rw [bind_ready signed, if_pos (by omega)]
    · rw [bind_ready signed, if_neg (by omega)]
    · omega
  · rw [SignBitID.appendVarInt_traps fits, appendVarInt_stops fits]

/-- The bytes that are hashed for a signature have the length as `VarInt` has it. -/
theorem message_counted {message : List Char} (short : (utf8 message).length < 2 ^ 31) :
    SignBitID.formatMessageForBitcoinSigning message = .ok (24 :: utf8 bitcoinSignedMessageHeader ++
      appendCount (utf8 message).length ++ utf8 message) := by
  let i := UInt64.ofNat (utf8 message).length
  have same : i.toNat = (utf8 message).length :=
    UInt64.toNat_ofNat_of_lt' (short.trans (by decide))
  have count : SignBitID.appendVarInt (utf8 message).length =
      .ok (appendCount (utf8 message).length) := by
    rw [← same, signing_encoder, appendVarInt_fits (by omega), same]
    rfl
  have header : uint8 bitcoinSignedMessageHeader.length = .ok 24 := by decide
  rw [SignBitID.formatMessageForBitcoinSigning, bind_ready header, bind_ready count]

end MessageVarInt
