import AltMessenger.BitcoinTransaction
import AltMessenger.BitcoinMessage
import AltMessenger.MerkleProof

/-!
The payloads of the peer protocol and their codecs, as the connection reads them.
Each initialiser that asserts something keeps it as a field. A date is its
`timeIntervalSince1970`.
-/
namespace PeerMessages
open ByteReader SwiftRuntime BitcoinStream BitcoinHash BitcoinTransaction BitcoinMessage MerkleProof

/-- `SHA256Hash()` -/
def zeroHash : SHA256Hash := ⟨List.replicate 32 0,List.length_replicate⟩

def readInt32 (endianness : Endianness) : Stream Int32 := do
  let word ← readUInt32 endianness
  pure word.toInt32

def readBool : Stream Bool := do
  let uint8 ← readUInt8
  pure (decide (0 < uint8))

/-- `readVarString()`; the length is converted before a byte of the text is read. -/
def readVarString : Stream (List Char) := do
  let length ← readVarInt
  let count ← readLength length
  readASCIIStringWithLength count

def readDateFrom32BitUnixTimestamp : Stream Rat := do
  let rawTimestamp ← readUInt32 .LittleEndian
  pure (rawTimestamp.toNat : Rat)

def appendDateAs32BitUnixTimestamp (date : Rat) : Except Trap (List UInt8) := do
  let seconds ← uint32 date
  pure (appendUInt32 seconds .LittleEndian)

/-- One writer after another. -/
def appendAll : List (Except Trap (List UInt8)) → Except Trap (List UInt8)
  | [] => pure []
  | part :: parts => do
    let bytes ← part
    let tail ← appendAll parts
    pure (bytes ++ tail)

section Inventory

inductive VectorType where
  | Error | Transaction | Block | FilteredBlock | CmpctBlock
  deriving DecidableEq, Repr

def VectorType.rawValue : VectorType → UInt32
  | .Error => 0
  | .Transaction => 1
  | .Block => 2
  | .FilteredBlock => 3
  | .CmpctBlock => 4

/-- `VectorType(rawValue: raw)` -/
def VectorType.ofRawValue (raw : UInt32) : Option VectorType :=
  [Error,Transaction,Block,FilteredBlock,CmpctBlock].find? (fun type => type.rawValue == raw)

structure InventoryVector where
  type : VectorType
  hash : SHA256Hash
  deriving DecidableEq

def InventoryVector.bitcoinData (vector : InventoryVector) : List UInt8 :=
  appendUInt32 vector.type.rawValue .LittleEndian ++ vector.hash.bitcoinData

def InventoryVector.fromBitcoinStream : Stream InventoryVector := do
  let rawType ← readUInt32 .LittleEndian
  let type ← found (VectorType.ofRawValue rawType)
  let hash ← HashOf.fromBitcoinStream 32
  pure { type, hash }

/-- `InventoryMessage` and `GetDataMessage`, which differ in their command alone. -/
structure VectorsMessage where
  inventoryVectors : List InventoryVector
  counted : 0 < inventoryVectors.length ∧ inventoryVectors.length ≤ 50000
  deriving DecidableEq

abbrev InventoryMessage := VectorsMessage

abbrev GetDataMessage := VectorsMessage

def VectorsMessage.create (inventoryVectors : List InventoryVector) :
    Except Trap VectorsMessage :=
  if counted : 0 < inventoryVectors.length ∧ inventoryVectors.length ≤ 50000 then
    .ok { inventoryVectors, counted }
  else .error .assertion

def VectorsMessage.bitcoinData (message : VectorsMessage) : List UInt8 :=
  appendCount message.inventoryVectors.length ++
    message.inventoryVectors.flatMap InventoryVector.bitcoinData

def VectorsMessage.fromBitcoinStream : Stream VectorsMessage := do
  let inventoryCount ← readVarInt
  if inventoryCount = 0 then fail
  else if 50000 < inventoryCount then fail
  else do
    let inventoryVectors ← readMany InventoryVector.fromBitcoinStream inventoryCount.toNat
    lift (VectorsMessage.create inventoryVectors)

def InventoryMessage.fromBitcoinStream : Stream InventoryMessage := VectorsMessage.fromBitcoinStream

def GetDataMessage.fromBitcoinStream : Stream GetDataMessage := VectorsMessage.fromBitcoinStream

end Inventory

section Locators

/-- `GetBlocksMessage` and `GetHeadersMessage`, which differ in their command alone. -/
structure LocatorMessage where
  protocolVersion : UInt32
  blockLocatorHashes : List SHA256Hash
  blockHashStop : Option SHA256Hash
  located : 0 < blockLocatorHashes.length
  deriving DecidableEq

abbrev GetBlocksMessage := LocatorMessage

abbrev GetHeadersMessage := LocatorMessage

def LocatorMessage.create (protocolVersion : UInt32) (blockLocatorHashes : List SHA256Hash)
    (blockHashStop : Option SHA256Hash) : Except Trap LocatorMessage :=
  if located : 0 < blockLocatorHashes.length then
    .ok { protocolVersion, blockLocatorHashes, blockHashStop, located }
  else .error .assertion

def LocatorMessage.bitcoinData (message : LocatorMessage) : List UInt8 :=
  appendUInt32 message.protocolVersion .LittleEndian ++
    (appendCount message.blockLocatorHashes.length ++
      (message.blockLocatorHashes.flatMap HashOf.bitcoinData ++
        (message.blockHashStop.getD zeroHash).bitcoinData))

def LocatorMessage.fromBitcoinStream : Stream LocatorMessage := do
  let protocolVersion ← readUInt32 .LittleEndian
  let hashCount ← readVarInt
  let blockLocatorHashes ← readMany (HashOf.fromBitcoinStream 32) hashCount.toNat
  let blockHashStop ← HashOf.fromBitcoinStream 32
  lift (LocatorMessage.create protocolVersion blockLocatorHashes
    (if blockHashStop = zeroHash then none else some blockHashStop))

def GetBlocksMessage.fromBitcoinStream : Stream GetBlocksMessage := LocatorMessage.fromBitcoinStream

def GetHeadersMessage.fromBitcoinStream : Stream GetHeadersMessage :=
  LocatorMessage.fromBitcoinStream

end Locators

section Addresses

inductive IPAddress where
  | IPV4 : UInt32 → IPAddress
  | IPV6 : UInt32 → UInt32 → UInt32 → UInt32 → IPAddress
  deriving DecidableEq, Repr

def IPAddress.bitcoinData : IPAddress → List UInt8
  | .IPV4 word =>
    appendUInt32 0 .BigEndian ++ (appendUInt32 0 .BigEndian ++
      (appendUInt32 0xffff .BigEndian ++ appendUInt32 word .BigEndian))
  | .IPV6 word0 word1 word2 word3 =>
    appendUInt32 word0 .BigEndian ++ (appendUInt32 word1 .BigEndian ++
      (appendUInt32 word2 .BigEndian ++ appendUInt32 word3 .BigEndian))

def IPAddress.fromBitcoinStream : Stream IPAddress := do
  let word0 ← readUInt32 .BigEndian
  let word1 ← readUInt32 .BigEndian
  let word2 ← readUInt32 .BigEndian
  let word3 ← readUInt32 .BigEndian
  if word0 = 0 ∧ word1 = 0 ∧ word2 = 0xffff then pure (.IPV4 word3)
  else pure (.IPV6 word0 word1 word2 word3)

structure PeerServices where
  rawValue : UInt64
  deriving DecidableEq, Repr

structure PeerAddress where
  services : PeerServices
  IP : IPAddress
  port : UInt16
  timestamp : Option Rat
  deriving DecidableEq

/-- An address without a time stamp is written with the time it is written at. -/
def PeerAddress.bitcoinDataWithTimestamp (now : Rat) (includeTimestamp : Bool)
    (address : PeerAddress) : Except Trap (List UInt8) := do
  let date ←
    if includeTimestamp then appendDateAs32BitUnixTimestamp (address.timestamp.getD now)
    else pure []
  pure (date ++ (appendUInt64 address.services.rawValue .LittleEndian ++
    (address.IP.bitcoinData ++ appendUInt16 address.port .BigEndian)))

/-- The fields behind the time stamp. -/
def PeerAddress.readFields (timestamp : Option Rat) : Stream PeerAddress := do
  let serviceRaw ← readUInt64 .LittleEndian
  let IP ← IPAddress.fromBitcoinStream
  let port ← readUInt16 .BigEndian
  pure { services := ⟨serviceRaw⟩, IP, port, timestamp }

def PeerAddress.fromBitcoinStream (includeTimestamp : Bool) : Stream PeerAddress :=
  if includeTimestamp then do
    let timestamp ← readDateFrom32BitUnixTimestamp
    PeerAddress.readFields (some timestamp)
  else PeerAddress.readFields none

structure PeerAddressMessage where
  peerAddresses : List PeerAddress
  counted : 0 < peerAddresses.length ∧ peerAddresses.length ≤ 1000
  deriving DecidableEq

def PeerAddressMessage.create (peerAddresses : List PeerAddress) :
    Except Trap PeerAddressMessage :=
  if counted : 0 < peerAddresses.length ∧ peerAddresses.length ≤ 1000 then
    .ok { peerAddresses, counted }
  else .error .assertion

def PeerAddressMessage.bitcoinData (now : Rat) (message : PeerAddressMessage) :
    Except Trap (List UInt8) := do
  let addresses ←
    appendAll (message.peerAddresses.map (PeerAddress.bitcoinDataWithTimestamp now true))
  pure (appendCount message.peerAddresses.length ++ addresses)

def PeerAddressMessage.fromBitcoinStream : Stream PeerAddressMessage := do
  let count ← readVarInt
  if count = 0 then fail
  else if 1000 < count then fail
  else do
    let peerAddresses ← readMany (PeerAddress.fromBitcoinStream true) count.toNat
    lift (PeerAddressMessage.create peerAddresses)

end Addresses

section FilterLoad

structure FilterLoadMessage where
  filter : List UInt8
  numHashFunctions : UInt32
  tweak : UInt32
  flags : UInt8
  deriving DecidableEq, Repr

def maxFilterLength : UInt64 := 36000

def FilterLoadMessage.bitcoinData (message : FilterLoadMessage) : List UInt8 :=
  appendCount message.filter.length ++ (message.filter ++
    (appendUInt32 message.numHashFunctions .LittleEndian ++
      (appendUInt32 message.tweak .LittleEndian ++ [message.flags])))

def FilterLoadMessage.fromBitcoinStream : Stream FilterLoadMessage := do
  let filterLength ← readVarInt
  if filterLength ≤ 0 ∨ maxFilterLength < filterLength then fail
  else do
    let count ← readLength filterLength
    let filter ← readData count
    let numHashFunctions ← readUInt32 .LittleEndian
    let tweak ← readUInt32 .LittleEndian
    let flags ← readUInt8
    pure { filter, numHashFunctions, tweak, flags }

end FilterLoad

section Blocks

structure BlockHeader where
  version : UInt32
  previousBlockHash : SHA256Hash
  merkleRoot : SHA256Hash
  timestamp : Rat
  compactDifficulty : UInt32
  nonce : UInt32
  deriving DecidableEq

def BlockHeader.bitcoinData (header : BlockHeader) : Except Trap (List UInt8) := do
  let timestamp ← appendDateAs32BitUnixTimestamp header.timestamp
  pure (appendUInt32 header.version .LittleEndian ++ (header.previousBlockHash.bitcoinData ++
    (header.merkleRoot.bitcoinData ++ (timestamp ++
      (appendUInt32 header.compactDifficulty .LittleEndian ++
        appendUInt32 header.nonce .LittleEndian)))))

def BlockHeader.fromBitcoinStream : Stream BlockHeader := do
  let version ← readUInt32 .LittleEndian
  let previousBlockHash ← HashOf.fromBitcoinStream 32
  let merkleRoot ← HashOf.fromBitcoinStream 32
  let timestamp ← readDateFrom32BitUnixTimestamp
  let compactDifficulty ← readUInt32 .LittleEndian
  let nonce ← readUInt32 .LittleEndian
  pure { version, previousBlockHash, merkleRoot, timestamp, compactDifficulty, nonce }

structure HeadersMessage where
  headers : List BlockHeader
  deriving DecidableEq

def HeadersMessage.bitcoinData (message : HeadersMessage) : Except Trap (List UInt8) := do
  let headers ← appendAll (message.headers.map BlockHeader.bitcoinData)
  pure (appendCount message.headers.length ++ headers)

/-- One pass of the decoder's loop: a header and its number of transactions. -/
def HeadersMessage.readHeader : Stream BlockHeader := do
  let header ← BlockHeader.fromBitcoinStream
  let transactionCount ← readVarInt
  if transactionCount ≠ 0 then fail else pure header

def HeadersMessage.fromBitcoinStream : Stream HeadersMessage := do
  let count ← readVarInt
  if count = 0 then fail
  else do
    let headers ← readMany HeadersMessage.readHeader count.toNat
    pure { headers }

def bitcoinDataOfTree (tree : PartialMerkleTree) : List UInt8 :=
  appendUInt32 tree.totalLeafNodes .LittleEndian ++ (appendCount tree.hashes.length ++
    (tree.hashes.flatMap HashOf.bitcoinData ++ (appendCount tree.flags.length ++ tree.flags)))

/-- `PartialMerkleTree.fromBitcoinStream` -/
def readTree (D : Digests) : Stream PartialMerkleTree := do
  let totalLeafNodes ← readUInt32 .LittleEndian
  let hashesCount ← readVarInt
  let hashes ← readMany (HashOf.fromBitcoinStream 32) hashesCount.toNat
  let flagBytesCount ← readVarInt
  let flags ← readMany readUInt8 flagBytesCount.toNat
  let tree ← lift (PartialMerkleTree.create D totalLeafNodes hashes flags)
  found tree

structure MerkleBlockMessage where
  header : BlockHeader
  partialMerkleTree : PartialMerkleTree
  deriving DecidableEq

def MerkleBlockMessage.merkleProofIsValid (message : MerkleBlockMessage) : Bool :=
  decide (message.header.merkleRoot = message.partialMerkleTree.rootHash)

def MerkleBlockMessage.bitcoinData (message : MerkleBlockMessage) : Except Trap (List UInt8) := do
  let header ← message.header.bitcoinData
  pure (header ++ bitcoinDataOfTree message.partialMerkleTree)

def MerkleBlockMessage.fromBitcoinStream (D : Digests) : Stream MerkleBlockMessage := do
  let header ← BlockHeader.fromBitcoinStream
  let partialMerkleTree ← readTree D
  let merkleBlock : MerkleBlockMessage := { header, partialMerkleTree }
  if merkleBlock.merkleProofIsValid then pure merkleBlock else fail

end Blocks

section Connection

/-- `date` is kept as the seconds it is made from. -/
structure VersionMessage where
  protocolVersion : UInt32
  services : PeerServices
  date : UInt64
  senderAddress : PeerAddress
  receiverAddress : PeerAddress
  nonce : UInt64
  userAgent : List Char
  blockStartHeight : Int32
  announceRelayedTransactions : Bool
  deriving DecidableEq

def VersionMessage.fromBitcoinStream : Stream VersionMessage := do
  let protocolVersion ← readUInt32 .LittleEndian
  let servicesRaw ← readUInt64 .LittleEndian
  let timestamp ← readUInt64 .LittleEndian
  let receiverAddress ← PeerAddress.fromBitcoinStream false
  let senderAddress ← PeerAddress.fromBitcoinStream false
  let nonce ← readUInt64 .LittleEndian
  let userAgent ← readVarString
  let blockStartHeight ← readInt32 .LittleEndian
  let announceRelayedTransactions ← readBool
  pure { protocolVersion, services := ⟨servicesRaw⟩, date := timestamp, senderAddress,
         receiverAddress, nonce, userAgent, blockStartHeight, announceRelayedTransactions }

structure PingMessage where
  nonce : UInt64
  deriving DecidableEq, Repr

def PingMessage.fromBitcoinStream : Stream PingMessage := do
  let nonce ← readUInt64 .LittleEndian
  pure { nonce }

inductive RejectCode where
  | Malformed | Invalid | Obsolete | Duplicate | NonStandard | Dust | InsufficientFee | Checkpoint
  deriving DecidableEq, Repr

def RejectCode.rawValue : RejectCode → UInt8
  | .Malformed => 0x01
  | .Invalid => 0x10
  | .Obsolete => 0x11
  | .Duplicate => 0x12
  | .NonStandard => 0x40
  | .Dust => 0x41
  | .InsufficientFee => 0x42
  | .Checkpoint => 0x43

/-- `Code(rawValue: raw)` -/
def RejectCode.ofRawValue (raw : UInt8) : Option RejectCode :=
  [Malformed,Invalid,Obsolete,Duplicate,NonStandard,Dust,InsufficientFee,Checkpoint].find?
    (fun code => code.rawValue == raw)

structure RejectMessage where
  rejectedCommand : Command
  code : RejectCode
  reason : List Char
  hash : Option SHA256Hash
  deriving DecidableEq

def RejectMessage.fromBitcoinStream : Stream RejectMessage := do
  let rawCommand ← readVarString
  let rejectedCommand ← found (Command.ofRawValue rawCommand)
  let rawCode ← readUInt8
  let code ← found (RejectCode.ofRawValue rawCode)
  let reason ← readVarString
  let available ← hasBytesAvailable
  if available then do
    let hash ← HashOf.fromBitcoinStream 32
    pure { rejectedCommand, code, reason, hash := some hash }
  else pure { rejectedCommand, code, reason, hash := none }

end Connection

end PeerMessages
