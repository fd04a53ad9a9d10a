import AltMessenger.BitcoinKeys

/-!
Transactions as data and as bytes. Each `bitcoinData` is the writer of the
source and each `fromBitcoinStream` its reader, branch by branch; the two
length-prefixed script readers differ in what they do with a length of zero.
-/
namespace BitcoinTransaction
open ByteReader SwiftRuntime BitcoinStream BitcoinHash BitcoinKeys

structure OutPoint where
  transactionHash : SHA256Hash
  index : UInt32
  deriving DecidableEq

def OutPoint.bitcoinData (outPoint : OutPoint) : List UInt8 :=
  outPoint.transactionHash.bitcoinData ++ appendUInt32 outPoint.index .LittleEndian

def OutPoint.fromBitcoinStream : Stream OutPoint := do
  let transactionHash ← HashOf.fromBitcoinStream 32
  let index ← readUInt32 .LittleEndian
  pure { transactionHash, index }

structure Input where
  outPoint : OutPoint
  scriptSignature : List UInt8
  sequence : UInt32
  userKey : Option CoinKey
  deriving DecidableEq

/-- `left == right`, which does not look at the key. -/
def Input.beq (left right : Input) : Bool :=
  left.outPoint == right.outPoint && left.scriptSignature == right.scriptSignature &&
    left.sequence == right.sequence

def Input.bitcoinData (input : Input) : List UInt8 :=
  input.outPoint.bitcoinData ++ (appendCount input.scriptSignature.length ++
    (input.scriptSignature ++ appendUInt32 input.sequence .LittleEndian))

def Input.fromBitcoinStream : Stream Input := do
  let outPoint ← OutPoint.fromBitcoinStream
  let scriptSignatureLength ← readVarInt
  if scriptSignatureLength = 0 then do
    let sequence ← readUInt32 .LittleEndian
    pure { outPoint, scriptSignature := [], sequence, userKey := none }
  else do
    let count ← readLength scriptSignatureLength
    let scriptSignature ← readData count
    let sequence ← readUInt32 .LittleEndian
    pure { outPoint, scriptSignature, sequence, userKey := none }

structure Output where
  value : Int64
  script : List UInt8
  deriving DecidableEq

def Output.bitcoinData (output : Output) : List UInt8 :=
  appendInt64 output.value .LittleEndian ++ (appendCount output.script.length ++ output.script)

def Output.fromBitcoinStream : Stream Output := do
  let value ← readInt64 .LittleEndian
  let scriptLength ← readVarInt
  let count ← readLength scriptLength
  let script ← readData count
  pure { value, script }

/-- A date is its `timeIntervalSince1970`. -/
inductive LockTime where
  | AlwaysLocked
  | BlockHeight : UInt32 → LockTime
  | Date : Rat → LockTime
  deriving DecidableEq

def LockTime.fromRaw (raw : UInt32) : LockTime :=
  if raw = 0 then .AlwaysLocked
  else if raw < 500000000 then .BlockHeight raw
  else .Date raw.toNat

def LockTime.rawValue : LockTime → Except Trap UInt32
  | .AlwaysLocked => .ok 0
  | .BlockHeight blockHeight => .ok blockHeight
  | .Date date => uint32 date

/-- The lock times `fromRaw` yields, one for each raw word. -/
def LockTime.Canonical (lockTime : LockTime) : Prop := ∃ raw, LockTime.fromRaw raw = lockTime

structure Transaction where
  version : UInt32
  inputs : List Input
  outputs : List Output
  lockTime : LockTime
  hasOutput : 0 < outputs.length
  deriving DecidableEq

/-- `Transaction(version:inputs:outputs:lockTime:)` -/
def Transaction.create (version : UInt32) (inputs : List Input) (outputs : List Output)
    (lockTime : LockTime) : Except Trap Transaction :=
  if hasOutput : 0 < outputs.length then .ok { version, inputs, outputs, lockTime, hasOutput }
  else .error .assertion

/-- `left == right`, field by field and with the inputs' own equality. -/
def Transaction.beq (left right : Transaction) : Bool :=
  left.version == right.version && left.inputs.length == right.inputs.length &&
    (left.inputs.zip right.inputs).all (fun pair => pair.1.beq pair.2) &&
    left.outputs == right.outputs && decide (left.lockTime = right.lockTime)

/-- The five parts a transaction and the message signed for it share. -/
def encodeParts (version : UInt32) (inputs : List Input) (outputs : List Output)
    (lockTime : UInt32) : List UInt8 :=
  appendUInt32 version .LittleEndian ++ (appendCount inputs.length ++
    (inputs.flatMap Input.bitcoinData ++ (appendCount outputs.length ++
      (outputs.flatMap Output.bitcoinData ++ appendUInt32 lockTime .LittleEndian))))

def Transaction.bitcoinData (tx : Transaction) : Except Trap (List UInt8) := do
  let lockTime ← tx.lockTime.rawValue
  pure (encodeParts tx.version tx.inputs tx.outputs lockTime)

def Transaction.hash (D : Digests) (tx : Transaction) : Except Trap SHA256Hash := do
  let bytes ← tx.bitcoinData
  let data ← Hash256.digest D bytes
  HashOf.ofData 32 data.reverse

def Transaction.fromBitcoinStream : Stream Transaction := do
  let version ← readUInt32 .LittleEndian
  let inputCount ← readVarInt
  let inputs ← readMany Input.fromBitcoinStream inputCount.toNat
  if inputs.length = 0 then fail
  else do
    let outputCount ← readVarInt
    let outputs ← readMany Output.fromBitcoinStream outputCount.toNat
    if outputs.length = 0 then fail
    else do
      let lockTimeRaw ← readUInt32 .LittleEndian
      lift (Transaction.create version inputs outputs (LockTime.fromRaw lockTimeRaw))

end BitcoinTransaction
