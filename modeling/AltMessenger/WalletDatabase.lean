import AltMessenger.BRTransactions
import AltMessenger.KeyedTables

/-!
The database of the wallet: blocks, peers and transactions are written as the core hands them over,
one save after another, and read when the wallet is opened again. Times are stored from the
reference date on.
-/
namespace WalletDatabase
open SwiftRuntime LittleEndian BRTransactions KeyedTables

/-- `NSTimeIntervalSince1970`, a whole number -/
def NSTimeIntervalSince1970 : Nat := 978307200

structure BRMerkleBlock where
  blockHash : UInt256
  version : UInt32
  prevBlock : UInt256
  merkleRoot : UInt256
  timestamp : UInt32
  target : UInt32
  nonce : UInt32
  totalTx : UInt32
  /-- what the pointer `hashes` points to -/
  hashes : List UInt256
  hashesCount : Nat
  flags : List UInt8
  flagsLen : Nat
  height : UInt32
  deriving DecidableEq, Repr

/-- A block with the bytes that the memory has from where its pointers are put to be bound. -/
structure BRBlockRef where
  pointee : BRMerkleBlock
  flagsPointer : Nat → UInt8
  hashesPointer : Nat → UInt8

/-- The four words of an address, as they are in the memory. -/
structure UInt128 where
  u32_0 : UInt32
  u32_1 : UInt32
  u32_2 : UInt32
  u32_3 : UInt32
  deriving DecidableEq, Repr

structure BRPeer where
  address : UInt128
  port : UInt16
  services : UInt64
  timestamp : UInt64
  /-- scratch variable -/
  flags : UInt8
  deriving DecidableEq, Repr

structure BlockRow where
  ZHEIGHT : Int32
  ZNONCE : Int32
  ZTARGET : Int32
  ZTOTALTRANSACTIONS : Int32
  ZVERSION : Int32
  ZTIMESTAMP : Int32
  ZBLOCKHASH : UInt256
  ZFLAGS : List UInt8
  ZHASHES : List UInt8
  ZMERKLEROOT : UInt256
  ZPREVBLOCK : UInt256
  deriving DecidableEq, Repr

structure PeerRow where
  ZADDRESS : Int32
  ZPORT : Int32
  ZSERVICES : Int64
  ZTIMESTAMP : Int64
  deriving DecidableEq, Repr

structure TransactionRow where
  ZBLOB : List UInt8
  ZTXHASH : UInt256
  deriving DecidableEq, Repr

/-- A table and its greatest key, `Z_MAX` in the table of primary keys. -/
structure Entity (ρ : Type) where
  table : Table ρ
  Z_MAX : Nat

structure Database where
  blocks : Entity BlockRow
  peers : Entity PeerRow
  transactions : Entity TransactionRow

def Entity.empty {ρ : Type} : Entity ρ := ⟨.empty,0⟩

/-- The database that `init` creates. -/
def Database.created : Database := ⟨.empty,.empty,.empty⟩

/-- `Int32(_:)` of a length -/
def int32 (n : Nat) : Except Trap Nat := if n < 2 ^ 31 then .ok n else .error .conversion

/-- `pk + 1` -/
def nextKey (pk : Nat) : Except Trap Nat :=
  if pk + 1 < 2 ^ 31 then .ok (pk + 1) else .error .overflow

/-- `a + b` on `UInt32`. -/
def addUInt32 (a b : UInt32) : Except Trap UInt32 :=
  if a.toNat + b.toNat < 2 ^ 32 then .ok (a + b) else .error .overflow

/-- `bigEndian` -/
def bigEndian (word : UInt32) : UInt32 := UInt32.ofNat (ofBytes (toBytes 4 word.toNat).reverse)

/-- `Int32.subtractingReportingOverflow` -/
def subtractingReportingOverflow (a b : Int32) : Int32 × Bool :=
  (a - b, decide (a.toInt - b.toInt < -2 ^ 31 ∨ 2 ^ 31 ≤ a.toInt - b.toInt))

/-- `UInt64.addingReportingOverflow` -/
def addingReportingOverflow (a b : UInt64) : UInt64 × Bool :=
  (a + b, decide (2 ^ 64 ≤ a.toNat + b.toNat))

/-- The loop of `saveBlocks` and of `savePeers`: `nil` rolls everything back, and a row whose key is
    there does, too. -/
def insertAll {α ρ : Type} (skipped : α → Bool) (row : α → Except Trap ρ) :
    Entity ρ → List (Option α) → Except Trap (Option (Entity ρ))
  | entity, [] => pure (some entity)
  | _, none :: _ => pure none
  | entity, some item :: items =>
    if skipped item then insertAll skipped row entity items
    else do
      let pk ← nextKey entity.Z_MAX
      let bound ← row item
      match entity.table.insert pk bound with
      | some table => insertAll skipped row ⟨table,pk⟩ items
      | none => pure none

def save {α ρ : Type} (skipped : α → Bool) (row : α → Except Trap ρ) (entity : Entity ρ)
    (replace : Bool) (items : List (Option α)) : Except Trap (Entity ρ) := do
  let saved ← insertAll skipped row (if replace then .empty else entity) items
  pure (saved.getD entity)

def timestampResult (b : BRBlockRef) : Int32 × Bool :=
  subtractingReportingOverflow b.pointee.timestamp.toInt32 (Int32.ofNat NSTimeIntervalSince1970)

/-- What is bound for a block: for the flags and the hashes it is the pointer to them, and what is
    behind it in the memory. -/
def blockRow (b : BRBlockRef) : Except Trap BlockRow := do
  let flagsLen ← int32 b.pointee.flagsLen
  let hashesLen ← int32 (32 * b.pointee.hashesCount)
  pure { ZHEIGHT := b.pointee.height.toInt32,
         ZNONCE := b.pointee.nonce.toInt32,
         ZTARGET := b.pointee.target.toInt32,
         ZTOTALTRANSACTIONS := b.pointee.totalTx.toInt32,
         ZVERSION := b.pointee.version.toInt32,
         ZTIMESTAMP := (timestampResult b).1,
         ZBLOCKHASH := b.pointee.blockHash,
         ZFLAGS := (List.range flagsLen).map b.flagsPointer,
         ZHASHES := (List.range hashesLen).map b.hashesPointer,
         ZMERKLEROOT := b.pointee.merkleRoot,
         ZPREVBLOCK := b.pointee.prevBlock }

def saveBlocks (db : Database) (replace : Bool) (blocks : List (Option BRBlockRef)) :
    Except Trap Database := do
  let saved ← save (fun b => (timestampResult b).2) blockRow db.blocks replace blocks
  pure { db with blocks := saved }

def peerRow (p : BRPeer) : Except Trap PeerRow := do
  let timestamp ← subInt64 p.timestamp.toInt64 (Int64.ofNat NSTimeIntervalSince1970)
  pure { ZADDRESS := (bigEndian p.address.u32_3).toInt32,
         ZPORT := Int32.ofNat p.port.toNat,
         ZSERVICES := p.services.toInt64,
         ZTIMESTAMP := timestamp }

def savePeers (db : Database) (replace : Bool) (peers : List BRPeer) : Except Trap Database := do
  let saved ← save (fun _ => false) peerRow db.peers replace (peers.map some)
  pure { db with peers := saved }

/-- The time of a transaction from the reference date on, or 0. -/
def storedTime (timestamp : UInt32) : UInt32 :=
  if timestamp.toNat > NSTimeIntervalSince1970 then
    timestamp - UInt32.ofNat NSTimeIntervalSince1970
  else 0

/-- The two words behind a transaction. -/
def stamp (blockHeight timestamp : UInt32) : List UInt8 :=
  toBytes 4 blockHeight.toNat ++ toBytes 4 timestamp.toNat

def txAdded (db : Database) (tx : BRTransaction) : Except Trap Database := do
  let timestamp := storedTime tx.timestamp
  let buf := BRTransactionSerialize tx ++ stamp tx.blockHeight timestamp
  let pk ← nextKey db.transactions.Z_MAX
  let _ ← int32 buf.length
  match db.transactions.table.insert pk { ZBLOB := buf, ZTXHASH := tx.txHash } with
  | some table => pure { db with transactions := ⟨table,pk⟩ }
  | none => pure db

/-- The body of the loop of `txUpdated` for the row in this place, as it is by then: all rows of its
    hash get its blob with the new words at the end. -/
def updateRow (txHashes : List UInt256) (words : List UInt8) (table : Table TransactionRow)
    (place : Nat) : Table TransactionRow :=
  match table.values[place]? with
  | some row =>
    if txHashes.contains row.ZTXHASH && decide (row.ZBLOB.length > 8) then
      let blob := row.ZBLOB.take (row.ZBLOB.length - 8) ++ words
      table.modify fun other =>
        if other.ZTXHASH = row.ZTXHASH then { other with ZBLOB := blob } else other
    else table
  | none => table

/-- `txUpdated`. A statement of more variables than `variableNumber` is not prepared, and has no
    rows then. -/
def txUpdated (variableNumber : Nat) (db : Database) (txHashes : List UInt256)
    (blockHeight timestamp : UInt32) : Except Trap Database := do
  if txHashes = [] then pure db
  else do
    let _ ← int32 txHashes.length
    if txHashes.length > variableNumber then pure db
    else
      let words := stamp blockHeight (storedTime timestamp)
      let table := (List.range db.transactions.table.values.length).foldl
        (updateRow txHashes words) db.transactions.table
      pure { db with transactions := ⟨table,db.transactions.Z_MAX⟩ }

def txDeleted (db : Database) (txHash : UInt256) : Database :=
  { db with transactions := ⟨db.transactions.table.delete fun row => row.ZTXHASH = txHash,
      db.transactions.Z_MAX⟩ }

/-- The time of a transaction from one of the reference date on. -/
def loadedTime (timestamp : UInt32) : Except Trap UInt32 :=
  if timestamp = 0 then .ok timestamp
  else addUInt32 timestamp (UInt32.ofNat NSTimeIntervalSince1970)

/-- The loop of `loadTransactions`; a row that cannot be read ends it. -/
def loadRows (core : Core) : List TransactionRow → Except Trap (List BRTransaction)
  | [] => pure []
  | row :: rows =>
    if row.ZBLOB.length < 8 then pure []
    else
      let off := row.ZBLOB.length - 8
      match BRTransactionParse core (row.ZBLOB.take off) with
      | none => pure []
      | some tx => do
        let blockHeight := UInt32.ofNat (ofBytes ((row.ZBLOB.drop off).take 4))
        let timestamp ← loadedTime (UInt32.ofNat (ofBytes (row.ZBLOB.drop (off + 4))))
        let transactions ← loadRows core rows
        pure ({ tx with blockHeight, timestamp } :: transactions)

def loadTransactions (core : Core) (db : Database) : Except Trap (List BRTransaction) :=
  loadRows core db.transactions.table.values

/-- Copies of the hashes and the flags; the counts stay what they are. -/
def BRMerkleBlockSetTxHashes (block : BRMerkleBlock) (hashes : List UInt256)
    (flags : List UInt8) : BRMerkleBlock :=
  { block with hashes, flags }

/-- The body of the loop of `loadBlocks`. -/
def loadBlock (row : BlockRow) : Except Trap BRMerkleBlock := do
  let timestamp ← addUInt32 row.ZTIMESTAMP.toUInt32 (UInt32.ofNat NSTimeIntervalSince1970)
  let hashesCount := row.ZHASHES.length / 32
  let hashes := (words 32 hashesCount row.ZHASHES).map (BitVec.ofNat 256)
  let b : BRMerkleBlock :=
    { blockHash := row.ZBLOCKHASH,
      version := row.ZVERSION.toUInt32,
      prevBlock := row.ZPREVBLOCK,
      merkleRoot := row.ZMERKLEROOT,
      timestamp,
      target := row.ZTARGET.toUInt32,
      nonce := row.ZNONCE.toUInt32,
      totalTx := row.ZTOTALTRANSACTIONS.toUInt32,
      hashes := [],
      hashesCount := 0,
      flags := [],
      flagsLen := 0,
      height := row.ZHEIGHT.toUInt32 }
  pure (BRMerkleBlockSetTxHashes b hashes row.ZFLAGS)

def loadBlocks (db : Database) : Except Trap (List BRMerkleBlock) :=
  db.blocks.table.values.mapM loadBlock

/-- The body of the loop of `loadPeers`. -/
def loadPeer (row : PeerRow) : Option BRPeer :=
  let result := addingReportingOverflow row.ZTIMESTAMP.toUInt64
    (UInt64.ofNat NSTimeIntervalSince1970)
  if result.2 then none
  else
    some
      { address :=
          { u32_0 := 0,
            u32_1 := 0,
            u32_2 := bigEndian 0xffff,
            u32_3 := bigEndian row.ZADDRESS.toUInt32 },
        port := UInt16.ofNat (row.ZPORT.toUInt32.toNat % 2 ^ 16),
        services := row.ZSERVICES.toUInt64,
        timestamp := result.1,
        flags := 0 }

def loadPeers (db : Database) : List BRPeer := db.peers.table.values.filterMap loadPeer

end WalletDatabase
