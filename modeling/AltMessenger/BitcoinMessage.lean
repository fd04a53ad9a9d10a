import AltMessenger.BitcoinHash

/-!
Messages of the peer protocol: the supported commands, the header of 24 bytes,
and the checksum of a payload. A command is spelled in ASCII and filled up with
zeros; what the decoder makes of a name it does not know is `nil`.
-/
namespace BitcoinMessage
open ByteReader SwiftRuntime LittleEndian BitcoinStream BitcoinHash

inductive Command where
  | Version | VersionAck | Address | Ping | Pong | GetHeaders | Headers | FilterLoad
  | MemPool | Transaction | GetBlocks | Inventory | GetData | MerkleBlock | Reject | GetAddress
  deriving DecidableEq, Repr

namespace Command

def rawValue : Command → List Char
  | Version => ['v','e','r','s','i','o','n']
  | VersionAck => ['v','e','r','a','c','k']
  | Address => ['a','d','d','r']
  | Ping => ['p','i','n','g']
  | Pong => ['p','o','n','g']
  | GetHeaders => ['g','e','t','h','e','a','d','e','r','s']
  | Headers => ['h','e','a','d','e','r','s']
  | FilterLoad => ['f','i','l','t','e','r','l','o','a','d']
  | MemPool => ['m','e','m','p','o','o','l']
  | Transaction => ['t','x']
  | GetBlocks => ['g','e','t','b','l','o','c','k','s']
  | Inventory => ['i','n','v']
  | GetData => ['g','e','t','d','a','t','a']
  | MerkleBlock => ['m','e','r','k','l','e','b','l','o','c','k']
  | Reject => ['r','e','j','e','c','t']
  | GetAddress => ['g','e','t','a','d','d','r']

def all : List Command :=
  [Version,VersionAck,Address,Ping,Pong,GetHeaders,Headers,FilterLoad,MemPool,Transaction,GetBlocks,
    Inventory,GetData,MerkleBlock,Reject,GetAddress]

/-- `Command(rawValue: text)` -/
def ofRawValue (text : List Char) : Option Command :=
  all.find? (fun command => decide (command.rawValue = text))

def encodedLength : Nat := 12

def bytes (command : Command) : List UInt8 :=
  let commandBytes := command.rawValue.map (fun char => UInt8.ofNat char.toNat)
  commandBytes ++ List.replicate (12 - commandBytes.length) 0

end Command

/-- `NSString(bytes:length:encoding:)` in ASCII, which refuses other bytes. -/
def asciiString (bytes : List UInt8) : Option (List Char) :=
  if bytes.all (· < 0x80) then some (bytes.map (fun byte => Char.ofNat byte.toNat)) else none

/-- A buffer without the zeros at its end. -/
def withoutPadding (buffer : List UInt8) : List UInt8 := (buffer.reverse.dropWhile (· = 0)).reverse

/-- An optional value; `nil` is the reader's refusal. -/
def found {α : Type} : Option α → Stream α
  | some a => pure a
  | none => fail

def readASCIIStringWithLength (count : Nat) : Stream (List Char) := do
  let readBuffer ← readBuffer count
  found (asciiString (withoutPadding readBuffer))

def isBitcoinMainNet : Bool := false

/-- `NetworkMagicBytes.magicBytes()` -/
def magicBytes : List UInt8 :=
  if isBitcoinMainNet then [0xf9,0xbe,0xb4,0xd9] else [0x0b,0x11,0x09,0x07]

structure Header where
  network : List UInt8
  command : Command
  payloadLength : UInt32
  payloadChecksum : UInt32
  deriving DecidableEq, Repr

def Header.length : Nat := 24

/-- `toByteArray` of a word is its memory, lowest byte first. -/
def toByteArray (value : UInt32) : List UInt8 := toBytes 4 value.toNat

def Header.bitcoinData (header : Header) : List UInt8 :=
  header.network ++ (header.command.bytes ++
    (toByteArray header.payloadLength ++ toByteArray header.payloadChecksum))

def Header.fromBitcoinStream : Stream Header := do
  let networkRaw ← readUInt32 .LittleEndian
  let commandRaw ← readASCIIStringWithLength Command.encodedLength
  let command ← found (Command.ofRawValue commandRaw)
  let payloadLength ← readUInt32 .LittleEndian
  let payloadChecksum ← readUInt32 .LittleEndian
  pure { network := toByteArray networkRaw, command, payloadLength, payloadChecksum }

structure Message where
  header : Header
  payload : List UInt8
  deriving DecidableEq, Repr

/-- The first four bytes of the double hash, as they lie in memory. -/
def checksumForPayload (D : Digests) (payload : List UInt8) : Except Trap UInt32 := do
  let once ← SHA256.digest D payload
  let doubleSha ← SHA256.digest D once
  pure (UInt32.ofNat (ofBytes (doubleSha.take 4)))

/-- `UInt32(length)` of a length. -/
def lengthWord (length : Nat) : Except Trap UInt32 :=
  if length < 2 ^ 32 then .ok (UInt32.ofNat length) else .error .conversion

/-- `Message(network:command:payloadData:)` -/
def Message.create (D : Digests) (network : List UInt8) (command : Command)
    (payloadData : List UInt8) : Except Trap Message := do
  let payloadLength ← lengthWord payloadData.length
  let payloadChecksum ← checksumForPayload D payloadData
  pure { header := { network, command, payloadLength, payloadChecksum }, payload := payloadData }

def Message.isChecksumValid (D : Digests) (message : Message) : Except Trap Bool := do
  let checksum ← checksumForPayload D message.payload
  pure (decide (message.header.payloadChecksum = checksum))

def Message.bitcoinData (message : Message) : List UInt8 :=
  message.header.bitcoinData ++ message.payload

@[simp] theorem found_some {α : Type} (a : α) (bs : List UInt8) :
    found (some a) bs = .ok a bs := rfl

theorem magicBytes_length : magicBytes.length = 4 := rfl

theorem command_bytes_length (command : Command) : command.bytes.length = 12 := by
  cases command <;> rfl

/-- Every command is read back from its own bytes. -/
theorem command_of_bytes (command : Command) :
    (asciiString (withoutPadding command.bytes)).bind Command.ofRawValue = some command := by
  cases command <;> rfl

theorem checksum_short (D : Digests) {payload : List UInt8} (short : payload.length < 2 ^ 32) :
    checksumForPayload D payload =
      .ok (UInt32.ofNat (ofBytes ((D.sha256 (D.sha256 payload)).take 4))) := by
  have again : (D.sha256 payload).length < 2 ^ 32 := by rw [D.sha256_length]; decide
  rw [checksumForPayload, SHA256.digest, if_pos short, bind_ready rfl, SHA256.digest, if_pos again,
    bind_ready rfl]
  rfl

theorem create_ok {D : Digests} {network payloadData : List UInt8} {command : Command}
    {message : Message} (made : Message.create D network command payloadData = .ok message) :
    payloadData.length < 2 ^ 32 ∧ message.payload = payloadData ∧
      message.header.network = network ∧ message.header.command = command ∧
      message.header.payloadLength.toNat = payloadData.length ∧
      message.isChecksumValid D = .ok true := by
  obtain ⟨payloadLength,word,made⟩ := bind_ran.mp made
  obtain ⟨payloadChecksum,sum,made⟩ := bind_ran.mp made
  cases made
  unfold lengthWord at word
  split at word
  · rename_i short
    cases word
    refine ⟨short,rfl,rfl,rfl,UInt32.toNat_ofNat_of_lt' short,?_⟩
    rw [Message.isChecksumValid, bind_ready sum]
    simp
    rfl
  · cases word

theorem create_fits (D : Digests) (network : List UInt8) (command : Command)
    {payloadData : List UInt8} (short : payloadData.length < 2 ^ 32) :
    ∃ message, Message.create D network command payloadData = .ok message := by
  rw [Message.create, lengthWord, if_pos short, bind_ready rfl, checksum_short D short]
  exact ⟨_,rfl⟩

theorem toByteArray_ofBytes {word : List UInt8} (length : word.length = 4) :
    toByteArray (UInt32.ofNat (ofBytes word)) = word := by
  have bound := ofBytes_lt word
  have back := toBytes_ofBytes word
  rw [length] at bound back
  rw [toByteArray, UInt32.toNat_ofNat_of_lt' bound, back]

theorem readUInt32_word {word rest : List UInt8} (length : word.length = 4) :
    readUInt32 .LittleEndian (word ++ rest) = .ok (UInt32.ofNat (ofBytes word)) rest := by
  rw [readUInt32, bind_ok (readBuffer_ok.mpr ⟨rfl,length⟩)]
  rfl

/-- The header spelled by these four fields, if its name is a command's. -/
def headerOf (network name payloadLength payloadChecksum : List UInt8) : Option Header :=
  ((asciiString (withoutPadding name)).bind Command.ofRawValue).map fun command =>
    { network, command, payloadLength := UInt32.ofNat (ofBytes payloadLength),
      payloadChecksum := UInt32.ofNat (ofBytes payloadChecksum) }

theorem header_parse {network name payloadLength payloadChecksum : List UInt8}
    (lengths : network.length = 4 ∧ name.length = 12 ∧ payloadLength.length = 4 ∧
      payloadChecksum.length = 4) (rest : List UInt8) :
    Header.fromBitcoinStream
        (network ++ (name ++ (payloadLength ++ (payloadChecksum ++ rest)))) =
      match headerOf network name payloadLength payloadChecksum with
      | some header => .ok header rest
      | none => .fail := by
  obtain ⟨first,second,third,fourth⟩ := lengths
  have buffer : ∀ tail : List UInt8, readBuffer Command.encodedLength (name ++ tail) =
      (.ok name tail : Parse Trap (List UInt8)) := fun tail => readBuffer_ok.mpr ⟨rfl,second⟩
  rw [Header.fromBitcoinStream, bind_ok (readUInt32_word first), headerOf]
  cases ascii : asciiString (withoutPadding name) with
  | none =>
    have refused : readASCIIStringWithLength Command.encodedLength
        (name ++ (payloadLength ++ (payloadChecksum ++ rest))) = .fail := by
      rw [readASCIIStringWithLength, bind_ok (buffer _), ascii]
      rfl
    rw [bind_fail refused]
    rfl
  | some text =>
    have taken : readASCIIStringWithLength Command.encodedLength
        (name ++ (payloadLength ++ (payloadChecksum ++ rest))) =
          .ok text (payloadLength ++ (payloadChecksum ++ rest)) := by
      rw [readASCIIStringWithLength, bind_ok (buffer _), ascii]
      rfl
    rw [bind_ok taken, Option.bind_some]
    cases Command.ofRawValue text with
    | none => rfl
    | some command =>
      rw [bind_ok (found_some command _), bind_ok (readUInt32_word third),
        bind_ok (readUInt32_word fourth), toByteArray_ofBytes first]
      rfl

/-- A buffer long enough for a header, cut into the header's fields. -/
theorem header_fields {bytes : List UInt8} (enough : Header.length ≤ bytes.length) :
    ∃ network name payloadLength payloadChecksum rest,
      bytes = network ++ (name ++ (payloadLength ++ (payloadChecksum ++ rest))) ∧
        rest = bytes.drop Header.length ∧ (network.length = 4 ∧ name.length = 12 ∧
          payloadLength.length = 4 ∧ payloadChecksum.length = 4) := by
  rw [Header.length] at enough
  refine ⟨bytes.take 4,(bytes.drop 4).take 12,(bytes.drop 16).take 4,(bytes.drop 20).take 4,_,?_,rfl,
    by simp only [List.length_take, List.length_drop]; omega⟩
  have last := List.take_append_drop 4 (bytes.drop 20)
  have third := List.take_append_drop 4 (bytes.drop 16)
  have second := List.take_append_drop 12 (bytes.drop 4)
  rw [List.drop_drop] at last third second
  rw [Header.length, last, third, second, List.take_append_drop]

/-- Whether a buffer starts with a header does not depend on what follows it. -/
theorem header_append {bytes : List UInt8} (enough : Header.length ≤ bytes.length) :
    ∃ header : Option Header, ∀ x, Header.fromBitcoinStream (bytes ++ x) =
      match header with
      | some header => .ok header (bytes.drop Header.length ++ x)
      | none => .fail := by
  obtain ⟨network,name,payloadLength,payloadChecksum,rest,fields,same,lengths⟩ :=
    header_fields enough
  refine ⟨headerOf network name payloadLength payloadChecksum,?_⟩
  intro x
  have parsed := header_parse lengths (rest ++ x)
  have joined : bytes ++ x =
      network ++ (name ++ (payloadLength ++ (payloadChecksum ++ (rest ++ x)))) := by
    rw [fields]
    simp
  rw [joined, parsed, ← same]

theorem reads_header (header : Header) (network : header.network.length = 4) :
    Reads Header.fromBitcoinStream header.bitcoinData header := by
  intro rest
  have word : ∀ value : UInt32, UInt32.ofNat (ofBytes (toByteArray value)) = value := by
    intro value
    rw [toByteArray, ofBytes_toBytes 4 value.toNat value.toNat_lt, UInt32.ofNat_toNat]
  have parsed := @header_parse header.network header.command.bytes
    (toByteArray header.payloadLength) (toByteArray header.payloadChecksum)
    ⟨network,command_bytes_length _,toBytes_length _ _,toBytes_length _ _⟩ rest
  rw [headerOf, command_of_bytes, word, word] at parsed
  rw [Header.bitcoinData, List.append_assoc, List.append_assoc, List.append_assoc, parsed]
  rfl

theorem header_bitcoinData_length (header : Header) (network : header.network.length = 4) :
    header.bitcoinData.length = Header.length := by
  simp [Header.bitcoinData, network, command_bytes_length, toByteArray, Header.length]

end BitcoinMessage
