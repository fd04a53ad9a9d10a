import AltMessenger.BitcoinStream

/-!
The other decoder of a variable-length integer, `VarInt(header:data:)`: it is given the first byte
and the bytes behind it apart, and adds them up one at a time.
-/
namespace VarIntForms
open ByteReader SwiftRuntime LittleEndian BitcoinStream

/-- `value += high`, where `high` is the byte of an index shifted to its place in the word. -/
def addHigh (width : Nat) (data : List UInt8) (value i : Nat) : Except Trap Nat := do
  let byte ← subscript data i
  let high := byte.toNat * 256 ^ i % 256 ^ width
  if value + high < 256 ^ width then pure (value + high) else .error .overflow

def addBytes (width : Nat) (data : List UInt8) : Except Trap Nat := do
  let first ← subscript data 0
  (List.range' 1 (width - 1)).foldlM (addHigh width data) first.toNat

/-- `[header, data[0], ...]` -/
def headed (header : UInt8) (data : List UInt8) (width : Nat) : Except Trap (List UInt8) := do
  let bytes ← (List.range width).mapM (subscript data)
  pure (header :: bytes)

/-- `VarInt(header:data:)`. Every header has its case, and the `default` is never taken. -/
def ofHeader (header : UInt8) (data : List UInt8) : Except Trap VarInt :=
  if header < 0xfd then
    pure { length := 1, type := .UInt8_t header, bytes := [header] }
  else if header = 0xfd then do
    let value ← addBytes 2 data
    let bytes ← headed header data 2
    pure { length := 3, type := .UInt16_t (UInt16.ofNat value), bytes }
  else if header = 0xfe then do
    let value ← addBytes 4 data
    let bytes ← headed header data 4
    pure { length := 5, type := .UInt32_t (UInt32.ofNat value), bytes }
  else do
    let value ← addBytes 8 data
    let bytes ← headed header data 8
    pure { length := 9, type := .UInt64_t (UInt64.ofNat value), bytes }

/-- The number of a decoded integer, whatever its width. -/
def number : VarIntType → Nat
  | .UInt8_t value => value.toNat
  | .UInt16_t value => value.toNat
  | .UInt32_t value => value.toNat
  | .UInt64_t value => value.toNat

section Words
variable {width : Nat} {data : List UInt8}

theorem subscript_inside {i : Nat} (inside : i < data.length) :
    subscript data i = .ok data[i] := subscript_ok.mpr (List.getElem?_eq_getElem inside)

theorem ofBytes_take_succ {i : Nat} (inside : i < data.length) :
    ofBytes (data.take (i + 1)) = ofBytes (data.take i) + data[i].toNat * 256 ^ i := by
  rw [List.take_succ_eq_append_getElem inside, ofBytes_append, List.length_take_of_le inside.le,
    ofBytes, ofBytes, Nat.mul_zero, Nat.add_zero, Nat.mul_comm]

theorem ofBytes_take_lt (count : Nat) : ofBytes (data.take count) < 256 ^ count :=
  (ofBytes_lt _).trans_le (Nat.pow_le_pow_right (by decide) (List.length_take_le count data))

theorem addHigh_ok {i : Nat} (inside : i < width) (whole : width ≤ data.length) :
    addHigh width data (ofBytes (data.take i)) i = .ok (ofBytes (data.take (i + 1))) := by
  have there : i < data.length := inside.trans_le whole
  have fits : ofBytes (data.take (i + 1)) < 256 ^ width :=
    (ofBytes_take_lt (i + 1)).trans_le (Nat.pow_le_pow_right (by decide) inside)
  have sum := ofBytes_take_succ there
  have shifted : data[i].toNat * 256 ^ i % 256 ^ width = data[i].toNat * 256 ^ i :=
    Nat.mod_eq_of_lt (by omega)
  rw [addHigh, bind_ready (subscript_inside there), shifted]
  dsimp only
  rw [← sum, if_pos fits]
  rfl

theorem addHighs_ok {count : Nat} (inside : count < width) (whole : width ≤ data.length) :
    (List.range' 1 count).foldlM (addHigh width data) (ofBytes (data.take 1)) =
      .ok (ofBytes (data.take (count + 1))) := by
  induction count with
  | zero => rfl
  | succ count ih =>
    rw [List.range'_1_concat, List.foldlM_append, bind_ready (ih (by omega)), Nat.add_comm 1 count]
    exact bind_ready (addHigh_ok (by omega) whole)

theorem addBytes_ok (positive : 0 < width) (whole : width ≤ data.length) :
    addBytes width data = .ok (ofBytes (data.take width)) := by
  have first : data[0].toNat = ofBytes (data.take 1) := by
    rw [ofBytes_take_succ (by omega)]
    simp [ofBytes]
  rw [addBytes, bind_ready (subscript_inside (by omega)), first, addHighs_ok (by omega) whole,
    Nat.sub_add_cancel positive]

theorem headed_ok (header : UInt8) (whole : width ≤ data.length) :
    headed header data width = .ok (header :: data.take width) := by
  have bytes : (List.range width).mapM (subscript data) = .ok (data.take width) := by
    rw [mapM_ran, List.forall₂_iff_get]
    refine ⟨by simp [whole],fun i inside _ => ?_⟩
    rw [List.length_range] at inside
    simp [subscript_inside (inside.trans_le whole)]
  rw [headed, bind_ready bytes]
  rfl

end Words

section Encoded
variable {value : UInt64}

theorem bytes_eq (value : UInt64) : (VarInt.ofValue value).bytes = appendVarInt value := rfl

/-- No form of a value is shorter than the encoder's. -/
theorem appendVarInt_shortest {bytes : List UInt8} (spells : Spells value bytes) :
    (appendVarInt value).length ≤ bytes.length := by
  obtain ⟨one,two,four⟩ := appendVarInt_length value
  have nine : (appendVarInt value).length ≤ 9 := by
    rw [appendVarInt_eq]
    split_ifs <;> simp
  rcases spells with ⟨small,rfl⟩ | ⟨small,rfl⟩ | ⟨small,rfl⟩ | rfl
  · rw [one small]
    rfl
  · exact two (by omega)
  · exact four (by omega)
  · exact nine

theorem take_word {width n : Nat} (rest : List UInt8) :
    (toBytes width n ++ rest).take width = toBytes width n :=
  List.take_left' (toBytes_length width n)

theorem word_length {width n : Nat} (rest : List UInt8) :
    width ≤ (toBytes width n ++ rest).length := by
  rw [List.length_append, toBytes_length]
  exact Nat.le_add_right _ _

theorem addBytes_word {width n : Nat} (positive : 0 < width) (bound : n < 256 ^ width)
    (rest : List UInt8) : addBytes width (toBytes width n ++ rest) = .ok n := by
  rw [addBytes_ok positive (word_length rest), word_in_front bound]

theorem headed_word {width n : Nat} (header : UInt8) (rest : List UInt8) :
    headed header (toBytes width n ++ rest) width = .ok (header :: toBytes width n) := by
  rw [headed_ok header (word_length rest), take_word]

theorem ofValue_eq (value : UInt64) :
    VarInt.ofValue value =
      if value.toNat < 0xfd then
        ⟨1,.UInt8_t (UInt8.ofNat value.toNat),[UInt8.ofNat value.toNat]⟩
      else if value.toNat ≤ 0xffff then
        ⟨3,.UInt16_t (UInt16.ofNat value.toNat),0xfd :: toBytes 2 value.toNat⟩
      else if value.toNat ≤ 0xffffffff then
        ⟨5,.UInt32_t (UInt32.ofNat value.toNat),0xfe :: toBytes 4 value.toNat⟩
      else ⟨9,.UInt64_t value,0xff :: toBytes 8 value.toNat⟩ := by
  unfold VarInt.ofValue
  dsimp only
  rw [toBytes_take 2 8 _ (by decide), toBytes_take 4 8 _ (by decide), toBytes_take 1 8 _ (by decide)]
  rfl

/-- What the encoder wrote is decoded as it was, type, length and bytes, whatever is behind. -/
theorem ofHeader_encoded {header : UInt8} {data rest : List UInt8}
    (encoded : header :: data = (VarInt.ofValue value).bytes ++ rest) :
    ofHeader header data = .ok (VarInt.ofValue value) := by
  rw [ofValue_eq] at encoded ⊢
  split_ifs at encoded ⊢ with one two four
  · cases encoded
    have small : UInt8.ofNat value.toNat < 0xfd := by
      rw [UInt8.lt_iff_toNat_lt, UInt8.toNat_ofNat_of_lt' (Nat.lt_trans one (by decide))]
      exact one
    rw [ofHeader, if_pos small]
    rfl
  · obtain ⟨rfl,behind⟩ := List.cons.inj encoded
    rw [show data = toBytes 2 value.toNat ++ rest from behind, ofHeader, if_neg (by decide),
      if_pos rfl,
      bind_ready (addBytes_word (by decide) (Nat.lt_succ_of_le two) rest),
      bind_ready (headed_word 0xfd rest)]
    rfl
  · obtain ⟨rfl,behind⟩ := List.cons.inj encoded
    rw [show data = toBytes 4 value.toNat ++ rest from behind, ofHeader, if_neg (by decide),
      if_neg (by decide), if_pos rfl,
      bind_ready (addBytes_word (by decide) (Nat.lt_succ_of_le four) rest),
      bind_ready (headed_word 0xfe rest)]
    rfl
  · obtain ⟨rfl,behind⟩ := List.cons.inj encoded
    rw [show data = toBytes 8 value.toNat ++ rest from behind, ofHeader, if_neg (by decide),
      if_neg (by decide), if_neg (by decide),
      bind_ready (addBytes_word (by decide) value.toNat_lt rest),
      bind_ready (headed_word 0xff rest), UInt64.ofNat_toNat]
    rfl

theorem number_ofValue (value : UInt64) : number (VarInt.ofValue value).type = value.toNat := by
  rw [ofValue_eq]
  split_ifs with one two four
  · exact UInt8.toNat_ofNat_of_lt' (Nat.lt_trans one (by decide))
  · exact UInt16.toNat_ofNat_of_lt' (Nat.lt_succ_of_le two)
  · exact UInt32.toNat_ofNat_of_lt' (Nat.lt_succ_of_le four)
  · rfl

theorem length_ofValue (value : UInt64) :
    (VarInt.ofValue value).length = (VarInt.ofValue value).bytes.length := by
  rw [ofValue_eq]
  split_ifs <;> simp

end Encoded

/-- The encoding is a form of the value and no other is shorter, and both decoders find the value
    and leave what is behind it. -/
theorem varint_round_trip (value : UInt64) (rest : List UInt8) :
    Spells value (VarInt.ofValue value).bytes ∧
      (∀ bytes, Spells value bytes → (VarInt.ofValue value).bytes.length ≤ bytes.length) ∧
      readVarInt ((VarInt.ofValue value).bytes ++ rest) = .ok value rest ∧
      ∃ header data decoded, header :: data = (VarInt.ofValue value).bytes ++ rest ∧
        ofHeader header data = .ok decoded ∧ number decoded.type = value.toNat ∧
        decoded.bytes = (VarInt.ofValue value).bytes ∧
        (header :: data).drop decoded.length = rest := by
  refine ⟨appendVarInt_spells value,fun _ => appendVarInt_shortest,reads_varint value rest,?_⟩
  have some : (VarInt.ofValue value).bytes ≠ [] := by
    rw [bytes_eq, appendVarInt_eq]
    split_ifs <;> exact List.cons_ne_nil _ _
  obtain ⟨header,front,encoded⟩ := List.exists_cons_of_ne_nil some
  have whole : header :: (front ++ rest) = (VarInt.ofValue value).bytes ++ rest := by
    rw [encoded, List.cons_append]
  refine ⟨header,front ++ rest,VarInt.ofValue value,whole,ofHeader_encoded whole,
    number_ofValue value,rfl,?_⟩
  rw [whole, length_ofValue, List.drop_left]

end VarIntForms
