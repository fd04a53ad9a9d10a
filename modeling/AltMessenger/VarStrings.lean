import Mathlib.Data.List.DropRight
import AltMessenger.PeerCodec
import AltMessenger.SignBitID
import AltMessenger.SwiftFloat

/-!
Text in messages: `VarString` writes a count of characters in front of bytes of UTF-8, and its
decoder takes as many bytes as were counted, without the zeros at their end, for ASCII.
-/
namespace VarStrings
open ByteReader SwiftRuntime BitcoinStream BitcoinHash BitcoinMessage PeerMessages PeerCodec
open SwiftFloat
open SignBitID (utf8)

/-- The characters of a text in ASCII: a carriage return and the line feed behind it are one. -/
def asciiCharacters : List Char → List (List Char)
  | [] => []
  | '\r' :: '\n' :: rest => ['\r','\n'] :: asciiCharacters rest
  | scalar :: rest => [scalar] :: asciiCharacters rest

/-- `String.characters`: how the scalars of a text are gathered into characters. -/
structure Segmentation where
  characters : List Char → List (List Char)
  joined : ∀ text, (characters text).flatten = text
  some_scalar : ∀ text, ∀ character ∈ characters text, character ≠ []
  ascii : ∀ text, (∀ scalar ∈ text, scalar.toNat < 0x80) → characters text = asciiCharacters text

section Writers
variable (S : Segmentation)

structure VarString where
  length : UInt64
  string : Option (List Char)
  bytes : List UInt8
  deriving DecidableEq

/-- `VarString(string)` -/
def VarString.create (string : Option (List Char)) : VarString :=
  match string with
  | none => { length := 0, string, bytes := [0x00] }
  | some text =>
    let length := UInt64.ofNat (S.characters text).length
    { length, string, bytes := appendVarInt length ++ utf8 text }

def appendVarString (text : List Char) : List UInt8 := (VarString.create S (some text)).bytes

def RejectMessage.bitcoinData (message : RejectMessage) : List UInt8 :=
  appendVarString S message.rejectedCommand.rawValue ++ (message.code.rawValue ::
    (appendVarString S message.reason ++
      match message.hash with
      | some hash => hash.bitcoinData
      | none => []))

def appendInt32 (value : Int32) (endianness : Endianness) : List UInt8 :=
  appendUInt32 value.toUInt32 endianness

def appendBool (value : Bool) : List UInt8 := if value then [1] else [0]

/-- The `timeIntervalSince1970` of a date that is made from whole seconds. -/
def timeIntervalSince1970 (date : UInt64) : Rat := double.round date.toNat

def appendDateAs64BitUnixTimestamp (date : UInt64) : Except Trap (List UInt8) := do
  let seconds ← uint64 (timeIntervalSince1970 date)
  pure (appendUInt64 seconds .LittleEndian)

def VersionMessage.bitcoinData (now : Rat) (message : VersionMessage) :
    Except Trap (List UInt8) := do
  let date ← appendDateAs64BitUnixTimestamp message.date
  let receiverAddress ← message.receiverAddress.bitcoinDataWithTimestamp now false
  let senderAddress ← message.senderAddress.bitcoinDataWithTimestamp now false
  pure (appendUInt32 message.protocolVersion .LittleEndian ++
    (appendUInt64 message.services.rawValue .LittleEndian ++ (date ++ (receiverAddress ++
      (senderAddress ++ (appendUInt64 message.nonce .LittleEndian ++
        (appendVarString S message.userAgent ++
          (appendInt32 message.blockStartHeight .LittleEndian ++
            appendBool message.announceRelayedTransactions))))))))

end Writers

/-- As many characters as bytes, and no zero at the end that would be taken for padding. -/
structure Framed (text : List Char) : Prop where
  ascii : ∀ scalar ∈ text, scalar.toNat < 0x80
  apart : ¬ ['\r','\n'] <:+: text
  ended : text.getLast? ≠ some (Char.ofNat 0)

section Characters

theorem asciiCharacters_length (text : List Char) :
    (asciiCharacters text).length ≤ text.length ∧
      ((asciiCharacters text).length = text.length ↔ ¬ ['\r','\n'] <:+: text) := by
  fun_induction asciiCharacters text with
  | case1 => simp
  | case2 rest ih =>
    have pair : ['\r','\n'] <:+: '\r' :: '\n' :: rest := ⟨[],rest,rfl⟩
    simp only [List.length_cons]
    exact ⟨by omega,iff_of_false (by omega) (not_not.mpr pair)⟩
  | case3 scalar rest single ih =>
    have front : ¬ ['\r','\n'] <+: scalar :: rest := by
      rintro ⟨tail,same⟩
      cases same
      exact single tail rfl rfl
    simp only [List.length_cons, List.infix_cons_iff, front, false_or, ← ih.2]
    omega

theorem Segmentation.count_le (S : Segmentation) (text : List Char) :
    (S.characters text).length ≤ text.length := by
  have each : ∀ n ∈ (S.characters text).map List.length, 1 ≤ n := by
    intro n mem
    obtain ⟨character,among,rfl⟩ := List.mem_map.mp mem
    exact List.length_pos_iff.mpr (S.some_scalar text character among)
  have total := List.length_le_sum_of_one_le _ each
  rwa [List.length_map, ← List.length_flatten, S.joined] at total

end Characters

section Ascii
variable {text : List Char} {bytes : List UInt8}

theorem utf8_ascii (ascii : ∀ scalar ∈ text, scalar.toNat < 0x80) :
    utf8 text = text.map fun scalar => UInt8.ofNat scalar.toNat := by
  induction text with
  | nil => rfl
  | cons scalar text ih =>
    have first : String.utf8EncodeChar scalar = [UInt8.ofNat scalar.toNat] :=
      if_pos (Nat.le_of_lt_succ (ascii scalar (by simp)))
    have later := ih fun other mem => ascii other (List.mem_cons_of_mem scalar mem)
    rw [utf8, List.flatMap_cons, first, List.map_cons, ← later]
    rfl

theorem char_toNat {n : Nat} (small : n < 0x80) : (Char.ofNat n).toNat = n := by
  have valid : n.isValidChar := Or.inl (by omega)
  rw [Char.ofNat, dif_pos valid]
  rfl

theorem asciiString_iff :
    asciiString bytes = some text ↔ (∀ scalar ∈ text, scalar.toNat < 0x80) ∧ utf8 text = bytes := by
  constructor
  · intro read
    unfold asciiString at read
    split at read
    · rename_i small
      cases read
      rw [List.all_eq_true] at small
      have value : ∀ byte ∈ bytes, (Char.ofNat byte.toNat).toNat = byte.toNat :=
        fun byte mem => char_toNat (of_decide_eq_true (small byte mem))
      have ascii : ∀ scalar ∈ bytes.map (fun byte => Char.ofNat byte.toNat),
          scalar.toNat < 0x80 := by
        intro scalar mem
        obtain ⟨byte,among,rfl⟩ := List.mem_map.mp mem
        rw [value byte among]
        exact of_decide_eq_true (small byte among)
      refine ⟨ascii,?_⟩
      rw [utf8_ascii ascii, List.map_map]
      refine (List.map_congr_left fun byte mem => ?_).trans (List.map_id bytes)
      rw [Function.comp_apply, value byte mem, UInt8.ofNat_toNat, id]
    · cases read
  · rintro ⟨ascii,rfl⟩
    have small : (utf8 text).all (· < 0x80) = true := by
      rw [utf8_ascii ascii, List.all_map, List.all_eq_true]
      intro scalar mem
      have bound := ascii scalar mem
      refine decide_eq_true ?_
      rw [UInt8.lt_iff_toNat_lt, UInt8.toNat_ofNat_of_lt' (bound.trans (by decide))]
      exact bound
    rw [asciiString, if_pos small, utf8_ascii ascii, List.map_map, Option.some_inj]
    refine (List.map_congr_left fun scalar mem => ?_).trans (List.map_id text)
    rw [Function.comp_apply, UInt8.toNat_ofNat_of_lt' ((ascii scalar mem).trans (by decide)),
      Char.ofNat_toNat, id]

theorem withoutPadding_prefix (buffer : List UInt8) : withoutPadding buffer <+: buffer :=
  List.rdropWhile_prefix _ buffer

theorem withoutPadding_whole {buffer : List UInt8} :
    withoutPadding buffer = buffer ↔ buffer.getLast? ≠ some 0 := by
  rw [withoutPadding, ← List.rdropWhile, List.rdropWhile_eq_self_iff]
  cases buffer with
  | nil => simp
  | cons byte buffer => simp [List.getLast?_eq_getLast_of_ne_nil]

/-- A text in ASCII ends in a zero if its bytes do. -/
theorem ended_iff (ascii : ∀ scalar ∈ text, scalar.toNat < 0x80) :
    (utf8 text).getLast? ≠ some 0 ↔ text.getLast? ≠ some (Char.ofNat 0) := by
  rw [utf8_ascii ascii, List.getLast?_map, not_iff_not]
  cases last : text.getLast? with
  | none => simp
  | some scalar =>
    have bound := ascii scalar (List.mem_of_getLast? last)
    rw [Option.map_some, Option.some_inj, Option.some_inj]
    constructor
    · intro zero
      have value := congrArg UInt8.toNat zero
      rw [UInt8.toNat_ofNat_of_lt' (bound.trans (by decide))] at value
      rw [← Char.ofNat_toNat scalar, value]
      rfl
    · rintro rfl
      rfl

end Ascii

section Texts
variable {S : Segmentation} {text : List Char}

theorem length_le_utf8 (text : List Char) : text.length ≤ (utf8 text).length := by
  induction text with
  | nil => exact Nat.zero_le _
  | cons scalar text ih =>
    have some := List.length_pos_iff.mpr (@String.utf8EncodeChar_ne_nil scalar)
    rw [utf8, List.flatMap_cons, List.length_append, List.length_cons, ← utf8]
    omega

/-- The decoder takes as many bytes as there are characters. -/
theorem counted_read (fits : (utf8 text).length < 2 ^ 63) (tail : List UInt8) :
    readVarString (appendVarString S text ++ tail) =
      readASCIIStringWithLength (S.characters text).length (utf8 text ++ tail) := by
  have count := ((S.count_le text).trans (length_le_utf8 text)).trans_lt fits
  have bytes : appendVarString S text =
      appendVarInt (UInt64.ofNat (S.characters text).length) ++ utf8 text := rfl
  have length := reads_varint (UInt64.ofNat (S.characters text).length) (utf8 text ++ tail)
  rw [readVarString, bytes, List.append_assoc, bind_ok length, reads_length _ count]
  rfl

/-- A text that is read back, whatever is left behind it, is framed by its count. -/
theorem framed_of_read (fits : (utf8 text).length < 2 ^ 63) {tail rest : List UInt8}
    (run : readVarString (appendVarString S text ++ tail) = .ok text rest) : Framed text := by
  rw [counted_read fits] at run
  obtain ⟨readBuffer,mid,first,second⟩ := bind_eq_ok.mp run
  obtain ⟨whole,count⟩ := readBuffer_ok.mp first
  have taken : asciiString (withoutPadding readBuffer) = some text := by
    cases string : asciiString (withoutPadding readBuffer) with
    | none =>
      rw [string] at second
      cases second
    | some string' =>
      rw [string] at second
      cases second
      rfl
  obtain ⟨ascii,bytes⟩ := asciiString_iff.mp taken
  have size : (utf8 text).length = text.length := by rw [utf8_ascii ascii, List.length_map]
  have unpadded := withoutPadding_prefix readBuffer
  have shorter := unpadded.length_le
  have fewer := S.count_le text
  rw [← bytes, size, count] at shorter
  -- as many characters as scalars, so the buffer has no padding
  have same : withoutPadding readBuffer = readBuffer :=
    unpadded.eq_of_length (by rw [← bytes, size, count]; omega)
  refine ⟨ascii,?_,?_⟩
  · rw [← (asciiCharacters_length text).2, ← S.ascii text ascii]
    omega
  · rw [← ended_iff ascii, bytes, ← withoutPadding_whole, same, same]

theorem reads_text (fits : (utf8 text).length < 2 ^ 63) (framed : Framed text) :
    Reads readVarString (appendVarString S text) text := by
  intro rest
  have size : (utf8 text).length = text.length := by rw [utf8_ascii framed.ascii, List.length_map]
  have count : (S.characters text).length = (utf8 text).length := by
    rw [S.ascii text framed.ascii, size, (asciiCharacters_length text).2]
    exact framed.apart
  have buffer : readBuffer (utf8 text).length (utf8 text ++ rest) =
      (.ok (utf8 text) rest : Parse Trap (List UInt8)) := readBuffer_ok.mpr ⟨rfl,rfl⟩
  have unpadded : withoutPadding (utf8 text) = utf8 text := by
    rw [withoutPadding_whole, ended_iff framed.ascii]
    exact framed.ended
  have string : asciiString (utf8 text) = some text := asciiString_iff.mpr ⟨framed.ascii,rfl⟩
  rw [counted_read fits, count, readASCIIStringWithLength, bind_ok buffer, unpadded, string]
  rfl

end Texts

section Messages
variable {S : Segmentation}

theorem ascii_of_all {text : List Char} (all : text.all (·.toNat < 0x80) = true) :
    ∀ scalar ∈ text, scalar.toNat < 0x80 :=
  fun scalar mem => of_decide_eq_true (List.all_eq_true.mp all scalar mem)

theorem command_framed (command : Command) :
    Framed command.rawValue ∧ (utf8 command.rawValue).length < 2 ^ 63 := by
  cases command <;> exact ⟨⟨ascii_of_all rfl,by decide,by decide⟩,by decide⟩

theorem code_ofRawValue (code : RejectCode) :
    RejectCode.ofRawValue code.rawValue = some code := by
  cases code <;> rfl

theorem reads_hash_or_end (make : Option SHA256Hash → RejectMessage) (hash : Option SHA256Hash) :
    (do
      let available ← hasBytesAvailable
      if available then do
        let hash ← HashOf.fromBitcoinStream 32
        pure (make (some hash))
      else pure (make none) : Stream RejectMessage)
      (match hash with
        | some hash => hash.bitcoinData
        | none => []) = .ok (make hash) [] := by
  cases hash with
  | none => rfl
  | some hash =>
    have some : hash.bitcoinData.isEmpty = false := by
      rw [List.isEmpty_eq_false_iff, ← List.length_pos_iff, bitcoinData_length]
      decide
    have read := reads_hash32 hash []
    rw [List.append_nil] at read
    rw [bind_ok (hasBytesAvailable_apply _), some]
    exact bind_ok read

/-- What is decoded of the message's own bytes is the message. -/
theorem reject_read_iff (message : RejectMessage) (fits : (utf8 message.reason).length < 2 ^ 63) :
    RejectMessage.fromBitcoinStream (RejectMessage.bitcoinData S message) = .ok message [] ↔
      Framed message.reason := by
  obtain ⟨rejectedCommand,code,reason,hash⟩ := message
  obtain ⟨framed,short⟩ := command_framed rejectedCommand
  have named : Command.ofRawValue rejectedCommand.rawValue = some rejectedCommand := by
    cases rejectedCommand <;> rfl
  have command := @reads_text S _ short framed
  rw [RejectMessage.bitcoinData, RejectMessage.fromBitcoinStream, bind_ok (command _), named,
    bind_ok (found_some rejectedCommand _), bind_ok (readUInt8_cons code.rawValue _),
    code_ofRawValue, bind_ok (found_some code _)]
  constructor
  · intro run
    obtain ⟨text,mid,first,run⟩ := bind_eq_ok.mp run
    obtain ⟨available,last,second,run⟩ := bind_eq_ok.mp run
    have same : text = reason := by
      split at run
      · obtain ⟨hash',final,-,run⟩ := bind_eq_ok.mp run
        cases run
        rfl
      · cases run
        rfl
    rw [same] at first
    exact framed_of_read fits first
  · intro framed
    rw [bind_ok (reads_text fits framed _)]
    exact reads_hash_or_end (fun hash => ⟨rejectedCommand,code,reason,hash⟩) hash

/-- The other fields are ones that are read as they were written: addresses in the spelling of
    their kind and without a time stamp, and seconds that a `Double` holds. -/
structure Ordinary (message : VersionMessage) : Prop where
  receiver : Native message.receiverAddress.IP ∧ message.receiverAddress.timestamp = none
  sender : Native message.senderAddress.IP ∧ message.senderAddress.timestamp = none
  dated : timeIntervalSince1970 message.date = message.date.toNat

theorem dated_small {date : UInt64} (small : date.toNat < 2 ^ 53) :
    timeIntervalSince1970 date = date.toNat :=
  BinaryRounding.Format.round_natCast small (by decide)

theorem date_appended {date : UInt64} (dated : timeIntervalSince1970 date = date.toNat) :
    appendDateAs64BitUnixTimestamp date = .ok (appendUInt64 date .LittleEndian) := by
  rw [appendDateAs64BitUnixTimestamp, dated, bind_ready (uint64_whole date)]
  rfl

/-- An address without its time stamp. -/
def bareBytes (address : PeerAddress) : List UInt8 :=
  appendUInt64 address.services.rawValue .LittleEndian ++
    (address.IP.bitcoinData ++ appendUInt16 address.port .BigEndian)

theorem bare_written (now : Rat) (address : PeerAddress) :
    address.bitcoinDataWithTimestamp now false = .ok (bareBytes address) := rfl

theorem reads_bare {address : PeerAddress}
    (plain : Native address.IP ∧ address.timestamp = none) :
    Reads (PeerAddress.fromBitcoinStream false) (bareBytes address) address := by
  obtain ⟨services,IP,port,timestamp⟩ := address
  obtain ⟨native,rfl⟩ : Native IP ∧ timestamp = none := plain
  exact reads_bind (reads_uint64 services.rawValue .LittleEndian)
    (reads_bind (reads_ip IP native) (reads_last (reads_uint16 port .BigEndian) (reads_pure _)))

theorem reads_int32 (value : Int32) (e : Endianness) :
    Reads (readInt32 e) (appendInt32 value e) value := by
  have word : Reads (readInt32 e) (appendInt32 value e) value.toUInt32.toInt32 :=
    reads_last (reads_uint32 value.toUInt32 e) (reads_pure _)
  rwa [Int32.toInt32_toUInt32] at word

theorem reads_bool (value : Bool) : Reads readBool (appendBool value) value := by
  cases value
  · exact reads_last (reads_uint8 0) (reads_pure _)
  · exact reads_last (reads_uint8 1) (reads_pure _)

/-- The message is decoded of its own bytes, and what follows them is left. -/
def VersionReads (S : Segmentation) (now : Rat) (message : VersionMessage) (rest : List UInt8) :
    Prop :=
  ∃ bytes, VersionMessage.bitcoinData S now message = .ok bytes ∧
    VersionMessage.fromBitcoinStream (bytes ++ rest) = .ok message rest

section Version
variable {message : VersionMessage}

/-- The fields in front of the text. -/
def frontBytes (message : VersionMessage) : List UInt8 :=
  appendUInt32 message.protocolVersion .LittleEndian ++
    (appendUInt64 message.services.rawValue .LittleEndian ++
      (appendUInt64 message.date .LittleEndian ++ (bareBytes message.receiverAddress ++
        (bareBytes message.senderAddress ++ appendUInt64 message.nonce .LittleEndian))))

/-- The fields behind it. -/
def backBytes (message : VersionMessage) : List UInt8 :=
  appendInt32 message.blockStartHeight .LittleEndian ++
    appendBool message.announceRelayedTransactions

/-- The decoder from the text on. -/
def readBack (message : VersionMessage) : Stream VersionMessage := do
  let userAgent ← readVarString
  let blockStartHeight ← readInt32 .LittleEndian
  let announceRelayedTransactions ← readBool
  pure { message with userAgent, blockStartHeight, announceRelayedTransactions }

theorem version_written (now : Rat) (ordinary : Ordinary message) :
    VersionMessage.bitcoinData S now message =
      .ok (frontBytes message ++ (appendVarString S message.userAgent ++ backBytes message)) := by
  rw [VersionMessage.bitcoinData, bind_ready (date_appended ordinary.dated),
    bind_ready (bare_written now message.receiverAddress),
    bind_ready (bare_written now message.senderAddress)]
  simp only [frontBytes, backBytes, List.append_assoc]
  rfl

theorem front_read (ordinary : Ordinary message) (tail : List UInt8) :
    VersionMessage.fromBitcoinStream (frontBytes message ++ tail) = readBack message tail := by
  simp only [frontBytes, List.append_assoc]
  rw [VersionMessage.fromBitcoinStream, bind_ok (reads_uint32 message.protocolVersion _ _),
    bind_ok (reads_uint64 message.services.rawValue _ _), bind_ok (reads_uint64 message.date _ _),
    bind_ok (reads_bare ordinary.receiver _), bind_ok (reads_bare ordinary.sender _),
    bind_ok (reads_uint64 message.nonce _ _)]
  rfl

theorem version_read_iff (now : Rat) (ordinary : Ordinary message)
    (fits : (utf8 message.userAgent).length < 2 ^ 63) (rest : List UInt8) :
    VersionReads S now message rest ↔ Framed message.userAgent := by
  have written := version_written (S := S) now ordinary
  have joined : frontBytes message ++ (appendVarString S message.userAgent ++ backBytes message) ++
      rest = frontBytes message ++
        (appendVarString S message.userAgent ++ (backBytes message ++ rest)) := by
    simp only [List.append_assoc]
  constructor
  · rintro ⟨bytes,made,run⟩
    cases written.symm.trans made
    rw [joined, front_read ordinary] at run
    obtain ⟨text,mid,first,run⟩ := bind_eq_ok.mp run
    obtain ⟨blockStartHeight,mid',-,run⟩ := bind_eq_ok.mp run
    obtain ⟨announceRelayedTransactions,last,-,run⟩ := bind_eq_ok.mp run
    have same : text = message.userAgent := by
      cases message
      cases run
      rfl
    rw [same] at first
    exact framed_of_read fits first
  · intro framed
    refine ⟨_,written,?_⟩
    have back : Reads (do
        let blockStartHeight ← readInt32 .LittleEndian
        let announceRelayedTransactions ← readBool
        pure { message with blockStartHeight, announceRelayedTransactions })
        (backBytes message) message :=
      reads_bind (reads_int32 message.blockStartHeight .LittleEndian)
        (reads_last (reads_bool message.announceRelayedTransactions) (reads_pure message))
    rw [joined, front_read ordinary, readBack, bind_ok (reads_text fits framed _)]
    exact back rest

end Version

end Messages

/-- Text in messages comes back if it is framed by its count, and only then: on its own, in a
    reject message and in a version message. -/
theorem texts_read_back_iff (S : Segmentation) (now : Rat) (text : List Char)
    (fits : (utf8 text).length < 2 ^ 63) :
    (∀ rest, readVarString (appendVarString S text ++ rest) = .ok text rest ↔ Framed text) ∧
      (∀ message, message.reason = text →
        (RejectMessage.fromBitcoinStream (RejectMessage.bitcoinData S message) =
          .ok message [] ↔ Framed text)) ∧
      ∀ message rest, message.userAgent = text → Ordinary message →
        (VersionReads S now message rest ↔ Framed text) := by
  refine ⟨?_,?_,?_⟩
  · intro rest
    exact ⟨framed_of_read fits,fun framed => reads_text fits framed rest⟩
  · rintro message rfl
    exact reject_read_iff message fits
  · rintro message rest rfl ordinary
    exact version_read_iff now ordinary fits rest

/-- The characters of a text whose scalars each are one, but for a line break of two. -/
def plainSegmentation : Segmentation where
  characters := asciiCharacters
  joined := by
    intro text
    fun_induction asciiCharacters text with
    | case1 => rfl
    | case2 rest ih => simp [ih]
    | case3 scalar rest single ih => simp [ih]
  some_scalar := by
    intro text
    fun_induction asciiCharacters text with
    | case1 => simp
    | case2 rest ih => simpa using ih
    | case3 scalar rest single ih => simpa using ih
  ascii := fun _ _ => rfl

def plainAddress : PeerAddress :=
  { services := ⟨0⟩, IP := .IPV4 0x7f000001, port := 8333, timestamp := none }

def plainVersion : VersionMessage where
  protocolVersion := 70001
  services := ⟨0⟩
  date := 0
  senderAddress := plainAddress
  receiverAddress := plainAddress
  nonce := 1
  userAgent := ['/','a','/']
  blockStartHeight := 0
  announceRelayedTransactions := true

def plainReject : RejectMessage where
  rejectedCommand := .Transaction
  code := .Dust
  reason := ['/','a','/']
  hash := some zeroHash

theorem plain_texts_read_back :
    readVarString (appendVarString plainSegmentation ['/','a','/'] ++ [0xff]) =
        .ok ['/','a','/'] [0xff] ∧
      RejectMessage.fromBitcoinStream (RejectMessage.bitcoinData plainSegmentation plainReject) =
        .ok plainReject [] ∧
      VersionReads plainSegmentation 0 plainVersion [0xff] := by
  have framed : Framed ['/','a','/'] := ⟨ascii_of_all rfl,by decide,by decide⟩
  have ordinary : Ordinary plainVersion :=
    ⟨⟨trivial,rfl⟩,⟨trivial,rfl⟩,dated_small (by decide)⟩
  obtain ⟨text,reject,version⟩ :=
    texts_read_back_iff plainSegmentation 0 ['/','a','/'] (by decide)
  exact ⟨(text [0xff]).mpr framed,(reject plainReject rfl).mpr framed,
    (version plainVersion [0xff] rfl ordinary).mpr framed⟩

/-- A letter of two bytes is counted once, a zero at the end is taken for padding, and a line break
    of two bytes is one character. -/
theorem texts_drift :
    readVarString (appendVarString plainSegmentation [Char.ofNat 0xe9] ++ [0x00]) = .fail ∧
      readVarString (appendVarString plainSegmentation ['a',Char.ofNat 0] ++ [0x00]) =
        .ok ['a'] [0x00] ∧
      readVarString (appendVarString plainSegmentation ['\r','\n'] ++ [0x00]) =
        .ok ['\r'] [0x0a,0x00] := by
  decide

end VarStrings
