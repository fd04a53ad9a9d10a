import AltMessenger.WalletDatabase

/-!
What the wallet reads back after any saves. A block whose save skips nothing comes back with its
time if that is not before the reference date, but without hashes and flags; a peer comes back if
its address is one of IPv4 and its time is not before that date; a transaction always does.
-/
namespace StoredWallet
open SwiftRuntime LittleEndian BRTransactions KeyedTables WalletDatabase

inductive Save where
  | saveBlocks (replace : Bool) (blocks : List (Option BRBlockRef))
  | savePeers (replace : Bool) (peers : List BRPeer)
  | txAdded (tx : BRTransaction)
  | txUpdated (txHashes : List UInt256) (blockHeight timestamp : UInt32)
  | txDeleted (txHash : UInt256)

def step (variableNumber : Nat) (db : Database) : Save → Except Trap Database
  | .saveBlocks replace blocks => saveBlocks db replace blocks
  | .savePeers replace peers => savePeers db replace peers
  | .txAdded tx => txAdded db tx
  | .txUpdated txHashes blockHeight timestamp =>
    txUpdated variableNumber db txHashes blockHeight timestamp
  | .txDeleted txHash => pure (txDeleted db txHash)

/-- The items that were handed over and not skipped, replaced or deleted. -/
structure Contents where
  blocks : List BRBlockRef
  peers : List BRPeer
  transactions : List BRTransaction
  /-- the number of transactions that were ever added -/
  added : Nat

def Contents.created : Contents := ⟨[],[],[],0⟩

/-- The blocks of a list that are not skipped. A list with `nil` is not saved. -/
def kept (blocks : List (Option BRBlockRef)) : List BRBlockRef :=
  blocks.filterMap fun b => b.filter fun b => !(timestampResult b).2

def Contents.after (contents : Contents) : Save → Contents
  | .saveBlocks replace blocks =>
    if blocks.all Option.isSome then
      { contents with blocks := (if replace then [] else contents.blocks) ++ kept blocks }
    else contents
  | .savePeers replace peers =>
    { contents with peers := (if replace then [] else contents.peers) ++ peers }
  | .txAdded tx =>
    { contents with
      transactions := contents.transactions ++ [tx],
      added := contents.added + 1 }
  | .txUpdated txHashes blockHeight timestamp =>
    { contents with
      transactions := contents.transactions.map fun tx =>
        if txHashes.contains tx.txHash then { tx with blockHeight, timestamp } else tx }
  | .txDeleted txHash =>
    { contents with transactions := contents.transactions.filter fun tx => tx.txHash ≠ txHash }

def contents (saves : List Save) : Contents := saves.foldl Contents.after .created

structure SameBlock (loaded handed : BRMerkleBlock) : Prop where
  header : loaded.blockHash = handed.blockHash ∧ loaded.version = handed.version ∧
    loaded.prevBlock = handed.prevBlock ∧ loaded.merkleRoot = handed.merkleRoot ∧
    loaded.target = handed.target ∧ loaded.nonce = handed.nonce ∧ loaded.totalTx = handed.totalTx
  timestamp : loaded.timestamp = handed.timestamp
  height : loaded.height = handed.height
  hashes : loaded.hashesCount = handed.hashesCount ∧
    loaded.hashes.take loaded.hashesCount = handed.hashes.take handed.hashesCount
  flags : loaded.flagsLen = handed.flagsLen ∧
    loaded.flags.take loaded.flagsLen = handed.flags.take handed.flagsLen

structure SamePeer (loaded handed : BRPeer) : Prop where
  address : loaded.address = handed.address
  port : loaded.port = handed.port
  services : loaded.services = handed.services
  timestamp : loaded.timestamp = handed.timestamp

/-- The inputs are the same but for scripts and amounts, which are not serialized when there are
    signatures, and the time is the same or 0. -/
structure SameTransaction (loaded handed : BRTransaction) : Prop where
  txHash : loaded.txHash = handed.txHash
  version : loaded.version = handed.version
  inputs : loaded.inputs.map withoutScript = handed.inputs.map withoutScript
  outputs : loaded.outputs = handed.outputs
  lockTime : loaded.lockTime = handed.lockTime
  blockHeight : loaded.blockHeight = handed.blockHeight
  timestamp : loaded.timestamp = 0 ∨ loaded.timestamp = handed.timestamp

/-- The three functions that read the database return the items that were handed over. -/
structure Loads (core : Core) (db : Database) (contents : Contents) : Prop where
  blocks : ∃ blocks, loadBlocks db = .ok blocks ∧
    List.Forall₂ SameBlock blocks (contents.blocks.map BRBlockRef.pointee)
  peers : List.Forall₂ SamePeer (loadPeers db) contents.peers
  transactions : ∃ transactions, loadTransactions core db = .ok transactions ∧
    List.Forall₂ SameTransaction transactions contents.transactions

/-- No save traps, and afterwards all is read as it was handed over. -/
def RoundTrips (core : Core) (variableNumber : Nat) (saves : List Save) : Prop :=
  ∃ db, saves.foldlM (step variableNumber) .created = .ok db ∧ Loads core db (contents saves)

/-- A transaction as the wallet registers it: signed, of a length that is an `Int32`, and with the
    hash of what is serialized. -/
structure Registered (core : Core) (tx : BRTransaction) : Prop where
  signed : Signed core tx
  short : (BRTransactionSerialize tx).length + 8 < 2 ^ 31
  hash : tx.txHash = core.BRSHA256_2 (BRTransactionSerialize tx)

/-- The arithmetic of a save does not trap, the keys do not run out, and the hashes of different
    transactions are different. -/
def Proceeds (core : Core) (variableNumber : Nat) (contents : Contents) : Save → Prop
  | .saveBlocks replace blocks =>
    (∀ b, some b ∈ blocks → (timestampResult b).2 = false →
      b.pointee.flagsLen < 2 ^ 31 ∧ 32 * b.pointee.hashesCount < 2 ^ 31) ∧
      (if replace then 0 else contents.blocks.length) + (kept blocks).length < 2 ^ 31
  | .savePeers replace peers =>
    (∀ p ∈ peers, ¬ (2 ^ 63 ≤ p.timestamp.toNat ∧
      p.timestamp.toNat < 2 ^ 63 + NSTimeIntervalSince1970)) ∧
      (if replace then 0 else contents.peers.length) + peers.length < 2 ^ 31
  | .txAdded tx =>
    Registered core tx ∧ contents.added + 1 < 2 ^ 31 ∧ ∀ other ∈ contents.transactions,
      other.txHash = tx.txHash → BRTransactionSerialize other = BRTransactionSerialize tx
  | .txUpdated txHashes _ _ => txHashes.length < 2 ^ 31 ∧ txHashes.length ≤ variableNumber
  | .txDeleted _ => True

def AllProceed (core : Core) (variableNumber : Nat) (contents : Contents) : List Save → Prop
  | [] => True
  | save :: saves => Proceeds core variableNumber contents save ∧
    AllProceed core variableNumber (contents.after save) saves

def BlockKept (b : BRMerkleBlock) : Prop :=
  NSTimeIntervalSince1970 ≤ b.timestamp.toNat ∧ b.hashesCount = 0 ∧ b.flagsLen = 0

/-- An address of IPv4 is mapped, with 0xffff before its four bytes. -/
def PeerKept (p : BRPeer) : Prop :=
  p.address.u32_0 = 0 ∧ p.address.u32_1 = 0 ∧ p.address.u32_2 = bigEndian 0xffff ∧
    NSTimeIntervalSince1970 ≤ p.timestamp.toNat

section Times

theorem bigEndian_twice (word : UInt32) : bigEndian (bigEndian word) = word := by
  have length : (toBytes 4 word.toNat).reverse.length = 4 := by
    rw [List.length_reverse, toBytes_length]
  have back := toBytes_ofBytes (toBytes 4 word.toNat).reverse
  have bound := ofBytes_lt (toBytes 4 word.toNat).reverse
  rw [length] at back bound
  unfold bigEndian
  rw [UInt32.toNat_ofNat_of_lt' bound, back, List.reverse_reverse,
    ofBytes_toBytes 4 word.toNat word.toNat_lt, UInt32.ofNat_toNat]

/-- A time that was made one from the reference date on comes back if it is not before it. -/
theorem addUInt32_stored (timestamp : UInt32) :
    addUInt32 (timestamp - UInt32.ofNat NSTimeIntervalSince1970)
        (UInt32.ofNat NSTimeIntervalSince1970) =
      if NSTimeIntervalSince1970 ≤ timestamp.toNat then .ok timestamp else .error .overflow := by
  have size := timestamp.toNat_lt
  have difference := UInt32.toNat_sub timestamp (UInt32.ofNat NSTimeIntervalSince1970)
  have offset : (UInt32.ofNat NSTimeIntervalSince1970).toNat = 978307200 := by decide
  have number : NSTimeIntervalSince1970 = 978307200 := rfl
  rw [offset] at difference
  unfold addUInt32
  rw [difference, offset, number, UInt32.sub_add_cancel]
  by_cases late : 978307200 ≤ timestamp.toNat
  · rw [if_pos late, if_pos (by omega)]
  · rw [if_neg late, if_neg (by omega)]

theorem adding_stored (timestamp : UInt64) :
    addingReportingOverflow (timestamp.toInt64 - Int64.ofNat NSTimeIntervalSince1970).toUInt64
        (UInt64.ofNat NSTimeIntervalSince1970) =
      (timestamp, decide (timestamp.toNat < NSTimeIntervalSince1970)) := by
  have same : (timestamp.toInt64 - Int64.ofNat NSTimeIntervalSince1970).toUInt64 =
      timestamp - UInt64.ofNat NSTimeIntervalSince1970 := by
    rw [Int64.toUInt64_sub, UInt64.toUInt64_toInt64]
    rfl
  have size := timestamp.toNat_lt
  have difference := UInt64.toNat_sub timestamp (UInt64.ofNat NSTimeIntervalSince1970)
  have offset : (UInt64.ofNat NSTimeIntervalSince1970).toNat = 978307200 := by decide
  have number : NSTimeIntervalSince1970 = 978307200 := rfl
  rw [offset] at difference
  unfold addingReportingOverflow
  have early : decide (2 ^ 64 ≤ (2 ^ 64 - 978307200 + timestamp.toNat) % 2 ^ 64 + 978307200) =
      decide (timestamp.toNat < 978307200) :=
    decide_eq_decide.mpr (by omega)
  rw [same, UInt64.sub_add_cancel, difference, offset, number, early]

theorem subInt64_stored {timestamp : UInt64}
    (outside : ¬ (2 ^ 63 ≤ timestamp.toNat ∧ timestamp.toNat < 2 ^ 63 + NSTimeIntervalSince1970)) :
    subInt64 timestamp.toInt64 (Int64.ofNat NSTimeIntervalSince1970) =
      .ok (timestamp.toInt64 - Int64.ofNat NSTimeIntervalSince1970) := by
  have size := timestamp.toNat_lt
  have offset : (Int64.ofNat NSTimeIntervalSince1970).toInt = 978307200 := by decide
  have number : NSTimeIntervalSince1970 = 978307200 := rfl
  have value : timestamp.toInt64.toInt =
      if 2 * timestamp.toNat < 2 ^ 64 then (timestamp.toNat : Int)
      else (timestamp.toNat : Int) - (2 ^ 64 : Nat) :=
    BitVec.toInt_eq_toNat_cond timestamp.toBitVec
  unfold subInt64 int64
  rw [if_pos]
  · rw [Int64.ofInt_sub, Int64.ofInt_toInt, Int64.ofInt_toInt]
  · rw [offset, value]
    split <;> omega

end Times

section Rows
variable {core : Core}

/-- The row of a block, where its lengths are in range. -/
def storedBlock (b : BRBlockRef) : BlockRow :=
  { ZHEIGHT := b.pointee.height.toInt32,
    ZNONCE := b.pointee.nonce.toInt32,
    ZTARGET := b.pointee.target.toInt32,
    ZTOTALTRANSACTIONS := b.pointee.totalTx.toInt32,
    ZVERSION := b.pointee.version.toInt32,
    ZTIMESTAMP := (timestampResult b).1,
    ZBLOCKHASH := b.pointee.blockHash,
    ZFLAGS := (List.range b.pointee.flagsLen).map b.flagsPointer,
    ZHASHES := (List.range (32 * b.pointee.hashesCount)).map b.hashesPointer,
    ZMERKLEROOT := b.pointee.merkleRoot,
    ZPREVBLOCK := b.pointee.prevBlock }

def storedPeer (p : BRPeer) : PeerRow :=
  { ZADDRESS := (bigEndian p.address.u32_3).toInt32,
    ZPORT := Int32.ofNat p.port.toNat,
    ZSERVICES := p.services.toInt64,
    ZTIMESTAMP := p.timestamp.toInt64 - Int64.ofNat NSTimeIntervalSince1970 }

def storedTransaction (tx : BRTransaction) : TransactionRow :=
  { ZBLOB := BRTransactionSerialize tx ++ stamp tx.blockHeight (storedTime tx.timestamp),
    ZTXHASH := tx.txHash }

theorem int32_short {n : Nat} (short : n < 2 ^ 31) : int32 n = .ok n := if_pos short

theorem blockRow_stored {b : BRBlockRef} (flags : b.pointee.flagsLen < 2 ^ 31)
    (hashes : 32 * b.pointee.hashesCount < 2 ^ 31) : blockRow b = .ok (storedBlock b) := by
  unfold blockRow
  rw [bind_ready (int32_short flags), bind_ready (int32_short hashes)]
  rfl

theorem peerRow_stored {p : BRPeer} (outside : ¬ (2 ^ 63 ≤ p.timestamp.toNat ∧
    p.timestamp.toNat < 2 ^ 63 + NSTimeIntervalSince1970)) :
    peerRow p = .ok (storedPeer p) := by
  unfold peerRow
  rw [bind_ready (subInt64_stored outside)]
  rfl

/-- A block is read as it was exactly if it is not before the reference date and has neither hashes
    nor flags, whose counts are not set again. -/
theorem block_loaded_iff (b : BRBlockRef) :
    (∃ loaded, loadBlock (storedBlock b) = .ok loaded ∧ SameBlock loaded b.pointee) ↔
      BlockKept b.pointee := by
  have time : (storedBlock b).ZTIMESTAMP.toUInt32 =
      b.pointee.timestamp - UInt32.ofNat NSTimeIntervalSince1970 := by
    change (b.pointee.timestamp.toInt32 - Int32.ofNat NSTimeIntervalSince1970).toUInt32 = _
    rw [Int32.toUInt32_sub, UInt32.toUInt32_toInt32]
    rfl
  unfold loadBlock
  rw [time, addUInt32_stored]
  split
  case isTrue late =>
    constructor
    · rintro ⟨loaded,read,same⟩
      cases read
      exact ⟨late,same.hashes.1.symm,same.flags.1.symm⟩
    · rintro ⟨-,no_hashes,no_flags⟩
      refine ⟨_,rfl,?_⟩
      refine ⟨⟨rfl,rfl,rfl,rfl,rfl,rfl,rfl⟩,rfl,rfl,⟨no_hashes.symm,?_⟩,⟨no_flags.symm,?_⟩⟩
      · rw [no_hashes]
        rfl
      · rw [no_flags]
        rfl
  case isFalse early =>
    refine iff_of_false ?_ fun kept => early kept.1
    rintro ⟨loaded,read,-⟩
    cases read

theorem peer_loaded_iff (p : BRPeer) :
    (∃ loaded, loadPeer (storedPeer p) = some loaded ∧ SamePeer loaded p) ↔ PeerKept p := by
  have word : bigEndian (storedPeer p).ZADDRESS.toUInt32 = p.address.u32_3 :=
    bigEndian_twice p.address.u32_3
  have port : UInt16.ofNat ((storedPeer p).ZPORT.toUInt32.toNat % 2 ^ 16) = p.port := by
    have size := p.port.toNat_lt
    have number : (storedPeer p).ZPORT.toUInt32.toNat = p.port.toNat := by
      change (UInt32.ofNat p.port.toNat).toNat = _
      exact UInt32.toNat_ofNat_of_lt' (Nat.lt_trans size (by decide))
    rw [number, Nat.mod_eq_of_lt size, UInt16.ofNat_toNat]
  have time : (storedPeer p).ZTIMESTAMP =
      p.timestamp.toInt64 - Int64.ofNat NSTimeIntervalSince1970 := rfl
  have services : (storedPeer p).ZSERVICES.toUInt64 = p.services := rfl
  unfold loadPeer
  rw [time, adding_stored, word, port, services]
  dsimp only
  split
  case isTrue early =>
    refine iff_of_false (fun ⟨loaded,read,_⟩ => nomatch read) fun kept => ?_
    exact absurd kept.2.2.2 (Nat.not_le_of_lt (of_decide_eq_true early))
  case isFalse late =>
    have late := Nat.le_of_not_lt (of_decide_eq_false (Bool.not_eq_true _ ▸ late))
    constructor
    · rintro ⟨loaded,read,same⟩
      cases read
      unfold PeerKept
      rw [← same.address]
      exact ⟨rfl,rfl,rfl,late⟩
    · rintro ⟨first,second,third,-⟩
      refine ⟨_,rfl,⟨?_,rfl,rfl,rfl⟩⟩
      change _ = UInt128.mk p.address.u32_0 p.address.u32_1 p.address.u32_2 p.address.u32_3
      rw [first, second, third]

/-- The time of a transaction comes back, or it is 0, as it is up to the reference date. -/
theorem storedTime_back (timestamp : UInt32) :
    ∃ back, loadedTime (storedTime timestamp) = .ok back ∧ (back = 0 ∨ back = timestamp) := by
  unfold storedTime
  split
  case isTrue late =>
    unfold loadedTime
    split
    case isTrue zero => exact ⟨_,rfl,Or.inl zero⟩
    case isFalse =>
      rw [addUInt32_stored, if_pos (Nat.le_of_lt late)]
      exact ⟨timestamp,rfl,Or.inr rfl⟩
  case isFalse => exact ⟨0,if_pos rfl,Or.inl rfl⟩

theorem stamp_length (blockHeight timestamp : UInt32) :
    (stamp blockHeight timestamp).length = 8 := by
  rw [stamp, List.length_append, toBytes_length, toBytes_length]

/-- What is in front of the stamp of a row, and the two words of it. -/
theorem blob_parts (tx : BRTransaction) :
    (storedTransaction tx).ZBLOB.length - 8 = (BRTransactionSerialize tx).length ∧
      8 ≤ (storedTransaction tx).ZBLOB.length ∧
      (storedTransaction tx).ZBLOB.take (BRTransactionSerialize tx).length =
        BRTransactionSerialize tx ∧
      UInt32.ofNat (ofBytes (((storedTransaction tx).ZBLOB.drop
        (BRTransactionSerialize tx).length).take 4)) = tx.blockHeight ∧
      UInt32.ofNat (ofBytes ((storedTransaction tx).ZBLOB.drop
        ((BRTransactionSerialize tx).length + 4))) = storedTime tx.timestamp := by
  have long : (storedTransaction tx).ZBLOB.length = (BRTransactionSerialize tx).length + 8 := by
    rw [storedTransaction, List.length_append, stamp_length]
  have words (word : UInt32) : UInt32.ofNat (ofBytes (toBytes 4 word.toNat)) = word := by
    rw [ofBytes_toBytes 4 word.toNat word.toNat_lt, UInt32.ofNat_toNat]
  refine ⟨by omega,by omega,List.take_left,?_,?_⟩
  · rw [storedTransaction, List.drop_left, stamp,
      List.take_left' (toBytes_length 4 tx.blockHeight.toNat), words]
  · rw [storedTransaction, ← List.drop_drop, List.drop_left, stamp,
      List.drop_left' (toBytes_length 4 tx.blockHeight.toNat), words]

/-- The transactions that are registered are read, each with its block height and its time or 0. -/
theorem loadRows_stored {transactions : List BRTransaction}
    (registered : ∀ tx ∈ transactions, Registered core tx) :
    ∃ loaded, loadRows core (transactions.map storedTransaction) = .ok loaded ∧
      List.Forall₂ SameTransaction loaded transactions := by
  induction transactions with
  | nil => exact ⟨[],rfl,List.Forall₂.nil⟩
  | cons tx transactions ih =>
    obtain ⟨later,read,same⟩ := ih fun other there =>
      registered other (List.mem_cons_of_mem _ there)
    have wallet := registered tx List.mem_cons_self
    have short : (BRTransactionSerialize tx).length < 2 ^ 64 := by
      have := wallet.short
      omega
    obtain ⟨off,long,front,height,time⟩ := blob_parts tx
    obtain ⟨back,added,zero_or_same⟩ := storedTime_back tx.timestamp
    rw [List.map_cons, loadRows, if_neg (Nat.not_lt_of_le long), off]
    dsimp only
    rw [front, parse_serialize wallet.signed short]
    dsimp only
    rw [height, time, bind_ready added, bind_ready read]
    refine ⟨_,rfl,List.Forall₂.cons ⟨wallet.hash.symm,rfl,?_,rfl,rfl,rfl,zero_or_same⟩ same⟩
    rw [List.map_map]
    rfl

end Rows

section Saves
variable {α ρ : Type} {skipped : α → Bool} {row : α → Except Trap ρ} {stored : α → ρ}
  {entity : Entity ρ} {old : List ρ} {count : Nat} {items : List (Option α)}

/-- The rows of a table, under keys that are not greater than the greatest one. -/
structure Filled (entity : Entity ρ) (rows : List ρ) (count : Nat) : Prop where
  values : entity.table.values = rows
  below : entity.table.Below entity.Z_MAX
  count : entity.Z_MAX = count

theorem filled_empty : Filled (.empty : Entity ρ) [] 0 := ⟨rfl,below_empty 0,rfl⟩

/-- The next key is a new one, and its row comes last. -/
theorem filled_insert (filled : Filled entity old count) (room : count + 1 < 2 ^ 31) (new : ρ) :
    nextKey entity.Z_MAX = .ok (count + 1) ∧ ∃ table,
      entity.table.insert (count + 1) new = some table ∧
        Filled ⟨table,count + 1⟩ (old ++ [new]) (count + 1) := by
  have key : nextKey entity.Z_MAX = .ok (count + 1) := by
    rw [filled.count]
    exact if_pos room
  have above : entity.Z_MAX < count + 1 := by
    rw [filled.count]
    exact Nat.lt_succ_self count
  obtain ⟨table,inserted,values,below⟩ := insert_above filled.below above new
  exact ⟨key,table,inserted,by rw [values, filled.values],below,rfl⟩

/-- Rows that were put behind the others or in their place belong to the items of both. -/
theorem filled_saved {replace : Bool} {earlier later : List α}
    (filled : Filled entity ((if replace then [] else earlier.map stored) ++ later.map stored)
      ((if replace then 0 else earlier.length) + later.length)) :
    Filled entity (((if replace then [] else earlier) ++ later).map stored)
      ((if replace then [] else earlier) ++ later).length := by
  rw [List.map_append, List.length_append]
  cases replace with
  | true => exact filled
  | false => exact filled

/-- The items of a list that are there and not skipped. -/
def taken (skipped : α → Bool) (items : List (Option α)) : List α :=
  items.filterMap fun item => item.filter fun a => !skipped a

/-- All that is not skipped is inserted behind the rows before it, unless there is a `nil`. -/
theorem insertAll_saves (filled : Filled entity old count)
    (rows : ∀ item, some item ∈ items → skipped item = false → row item = .ok (stored item))
    (room : count + (taken skipped items).length < 2 ^ 31) :
    ∃ saved, insertAll skipped row entity items = .ok saved ∧
      if items.all Option.isSome then
        ∃ after, saved = some after ∧ Filled after (old ++ (taken skipped items).map stored)
          (count + (taken skipped items).length)
      else saved = none := by
  induction items generalizing entity old count with
  | nil => exact ⟨some entity,rfl,entity,rfl,by rwa [taken, List.filterMap_nil, List.map_nil,
      List.append_nil, List.length_nil, Nat.add_zero]⟩
  | cons item items ih =>
    cases item with
    | none => exact ⟨none,rfl,rfl⟩
    | some item =>
      have later := fun other there => rows other (List.mem_cons_of_mem _ there)
      rw [insertAll]
      cases skips : skipped item with
      | true =>
        have gone : (some item).filter (fun a => !skipped a) = none := by
          rw [Option.filter_some, skips]
          rfl
        have same : taken skipped (some item :: items) = taken skipped items :=
          List.filterMap_cons_none gone
        rw [same] at room ⊢
        exact ih filled later room
      | false =>
        have there : (some item).filter (fun a => !skipped a) = some item := by
          rw [Option.filter_some, skips]
          rfl
        have more : taken skipped (some item :: items) = item :: taken skipped items :=
          List.filterMap_cons_some there
        rw [more, List.length_cons] at room
        obtain ⟨key,table,inserted,next⟩ := filled_insert filled (by omega) (stored item)
        rw [if_neg (by decide), bind_ready key, bind_ready (rows item List.mem_cons_self skips),
          inserted, more, List.map_cons, List.length_cons]
        dsimp only
        obtain ⟨saved,ran,result⟩ := ih next later (by omega)
        refine ⟨saved,ran,?_⟩
        rw [List.all_cons, Option.isSome_some, Bool.true_and]
        rwa [List.append_assoc, List.singleton_append, Nat.add_assoc, Nat.add_comm 1] at result

theorem save_saves {replace : Bool} (filled : Filled entity old count)
    (rows : ∀ item, some item ∈ items → skipped item = false → row item = .ok (stored item))
    (room : (if replace then 0 else count) + (taken skipped items).length < 2 ^ 31) :
    ∃ after, save skipped row entity replace items = .ok after ∧
      if items.all Option.isSome then
        Filled after ((if replace then [] else old) ++ (taken skipped items).map stored)
          ((if replace then 0 else count) + (taken skipped items).length)
      else after = entity := by
  have start : Filled (if replace then .empty else entity) (if replace then [] else old)
      (if replace then 0 else count) := by
    cases replace with
    | true => exact filled_empty
    | false => exact filled
  obtain ⟨saved,ran,result⟩ := insertAll_saves start rows room
  refine ⟨saved.getD entity,by rw [save, bind_ready ran]; rfl,?_⟩
  split at result
  case isTrue all =>
    obtain ⟨after,rfl,filled⟩ := result
    rwa [if_pos all]
  case isFalse some_nil =>
    rw [result, if_neg some_nil]
    rfl

end Saves

section Updates
variable {blockHeight timestamp : UInt32} {txHashes : List UInt256} {done : UInt256 → Bool}
  {table : Table TransactionRow} {transactions : List BRTransaction} {tx : BRTransaction}

/-- A transaction with the new height and time, if its hash is among those. -/
def marked (blockHeight timestamp : UInt32) (done : UInt256 → Bool) (tx : BRTransaction) :
    BRTransaction :=
  if done tx.txHash then { tx with blockHeight, timestamp } else tx

theorem marked_same (blockHeight timestamp : UInt32) (done : UInt256 → Bool)
    (tx : BRTransaction) :
    (marked blockHeight timestamp done tx).txHash = tx.txHash ∧
      BRTransactionSerialize (marked blockHeight timestamp done tx) =
        BRTransactionSerialize tx := by
  unfold marked
  split <;> exact ⟨rfl,rfl⟩

theorem registered_marked {core : Core} (registered : Registered core tx) :
    Registered core (marked blockHeight timestamp done tx) := by
  unfold marked
  split
  · exact ⟨⟨registered.signed.has_input,registered.signed.signed⟩,registered.short,registered.hash⟩
  · exact registered

theorem marked_congr {done' : UInt256 → Bool} (same : done tx.txHash = done' tx.txHash) :
    storedTransaction (marked blockHeight timestamp done tx) =
      storedTransaction (marked blockHeight timestamp done' tx) := by
  unfold marked
  rw [same]

theorem updateRow_below {bound : Nat} (below : table.Below bound) (words : List UInt8)
    (place : Nat) : (updateRow txHashes words table place).Below bound := by
  unfold updateRow
  split
  · split
    · exact below_modify below _
    · exact below
  · exact below

/-- The row of a transaction gives all rows of its hash the new words, which are its own row among
    them, since they are serialized to the same. -/
theorem updateRow_marked
    (distinct : ∀ other ∈ transactions, other.txHash = tx.txHash →
      BRTransactionSerialize other = BRTransactionSerialize tx)
    (values : table.values = transactions.map fun other =>
      storedTransaction (marked blockHeight timestamp done other))
    {place : Nat} (here : transactions[place]? = some tx) :
    (updateRow txHashes (stamp blockHeight (storedTime timestamp)) table place).values =
      transactions.map fun other => storedTransaction (marked blockHeight timestamp
        (fun hash => done hash || txHashes.contains hash && hash == tx.txHash) other) := by
  obtain ⟨sameHash,sameData⟩ := marked_same blockHeight timestamp done tx
  obtain ⟨off,long,front,-,-⟩ := blob_parts (marked blockHeight timestamp done tx)
  have hash : (storedTransaction (marked blockHeight timestamp done tx)).ZTXHASH = tx.txHash :=
    sameHash
  have some_data := serialize_some (marked blockHeight timestamp done tx)
  unfold updateRow
  rw [values, List.getElem?_map, here, Option.map_some]
  dsimp only
  rw [off, front, sameData, hash]
  by_cases among : txHashes.contains tx.txHash = true
  · have longer : (storedTransaction (marked blockHeight timestamp done tx)).ZBLOB.length > 8 := by
      omega
    rw [among, Bool.true_and, if_pos (decide_eq_true longer), values_modify, values, List.map_map]
    refine List.map_congr_left fun other there => ?_
    obtain ⟨otherHash,-⟩ := marked_same blockHeight timestamp done other
    have field : (storedTransaction (marked blockHeight timestamp done other)).ZTXHASH =
        other.txHash := otherHash
    dsimp only [Function.comp]
    rw [field]
    by_cases same : other.txHash = tx.txHash
    · have now : (done other.txHash ||
          txHashes.contains other.txHash && other.txHash == tx.txHash) = true := by
        rw [same, among, beq_self_eq_true, Bool.and_true, Bool.or_true]
      rw [if_pos same, ← distinct other there same, marked, if_pos now]
      rfl
    · rw [if_neg same]
      refine marked_congr ?_
      rw [beq_eq_false_iff_ne.mpr same, Bool.and_false, Bool.or_false]
  · rw [Bool.not_eq_true] at among
    rw [among, Bool.false_and, if_neg (by decide), values]
    refine List.map_congr_left fun other _ => marked_congr ?_
    by_cases same : other.txHash = tx.txHash
    · rw [same, among, Bool.false_and, Bool.or_false]
    · rw [beq_eq_false_iff_ne.mpr same, Bool.and_false, Bool.or_false]

/-- After some rows, the transactions whose hash was among theirs have the new words. -/
theorem updateRows_marked
    (distinct : ∀ tx ∈ transactions, ∀ other ∈ transactions, other.txHash = tx.txHash →
      BRTransactionSerialize other = BRTransactionSerialize tx)
    (values : table.values = transactions.map storedTransaction) {count : Nat}
    (inside : count ≤ transactions.length) :
    ((List.range count).foldl (updateRow txHashes (stamp blockHeight (storedTime timestamp)))
        table).values =
      transactions.map fun other => storedTransaction (marked blockHeight timestamp
        (fun hash => txHashes.contains hash &&
          (transactions.take count).any (hash == ·.txHash)) other) := by
  induction count with
  | zero =>
    rw [List.range_zero, List.foldl_nil, values]
    refine List.map_congr_left fun other _ => ?_
    rw [List.take_zero, marked, List.any_nil, Bool.and_false]
    rfl
  | succ count ih =>
    have here : transactions[count]? = some transactions[count] := List.getElem?_eq_getElem inside
    rw [List.range_succ, List.foldl_append, List.foldl_cons, List.foldl_nil,
      updateRow_marked (distinct _ (List.getElem_mem inside)) (ih (Nat.le_of_succ_le inside)) here]
    refine List.map_congr_left fun other _ => marked_congr ?_
    rw [List.take_succ_eq_append_getElem inside, List.any_append, Bool.and_or_distrib_left,
      List.any_cons, List.any_nil, Bool.or_false]

theorem updateRows_below {bound : Nat} (below : table.Below bound) (words : List UInt8)
    (places : List Nat) : (places.foldl (updateRow txHashes words) table).Below bound := by
  induction places generalizing table with
  | nil => exact below
  | cons place places ih => exact ih (updateRow_below below words place)

end Updates

section Steps
variable {core : Core} {variableNumber : Nat} {db : Database} {held : Contents}

/-- The database has a row for each item that was handed over. -/
structure Refines (core : Core) (held : Contents) (db : Database) : Prop where
  blocks : Filled db.blocks (held.blocks.map storedBlock) held.blocks.length
  peers : Filled db.peers (held.peers.map storedPeer) held.peers.length
  transactions : Filled db.transactions (held.transactions.map storedTransaction) held.added
  registered : ∀ tx ∈ held.transactions, Registered core tx
  distinct : ∀ tx ∈ held.transactions, ∀ other ∈ held.transactions,
    other.txHash = tx.txHash → BRTransactionSerialize other = BRTransactionSerialize tx

theorem saveBlocks_refines {replace : Bool} {blocks : List (Option BRBlockRef)}
    (refines : Refines core held db)
    (proceeds : Proceeds core variableNumber held (.saveBlocks replace blocks)) :
    ∃ after, saveBlocks db replace blocks = .ok after ∧
      Refines core (held.after (.saveBlocks replace blocks)) after := by
  have rows (b : BRBlockRef) (there : some b ∈ blocks) (saved : (timestampResult b).2 = false) :
      blockRow b = .ok (storedBlock b) := by
    obtain ⟨flags,hashes⟩ := proceeds.1 b there saved
    exact blockRow_stored flags hashes
  obtain ⟨entity,ran,filled⟩ := save_saves refines.blocks rows proceeds.2
  refine ⟨{ db with blocks := entity },by rw [saveBlocks, bind_ready ran]; rfl,?_⟩
  rw [Contents.after]
  split at filled
  case isTrue all =>
    rw [if_pos all]
    exact { refines with blocks := filled_saved filled }
  case isFalse some_nil =>
    rw [if_neg some_nil, filled]
    exact refines

theorem taken_all {α : Type} (items : List α) :
    taken (fun _ => false) (items.map some) = items := by
  rw [taken, List.filterMap_map]
  exact List.filterMap_some

theorem savePeers_refines {replace : Bool} {peers : List BRPeer}
    (refines : Refines core held db)
    (proceeds : Proceeds core variableNumber held (.savePeers replace peers)) :
    ∃ after, savePeers db replace peers = .ok after ∧
      Refines core (held.after (.savePeers replace peers)) after := by
  have rows (p : BRPeer) (there : some p ∈ peers.map some) (_ : (fun _ => false) p = false) :
      peerRow p = .ok (storedPeer p) := by
    obtain ⟨same,among,whole⟩ := List.mem_map.mp there
    exact peerRow_stored (proceeds.1 p (Option.some.inj whole ▸ among))
  have room := proceeds.2
  rw [← taken_all peers] at room
  have all : (peers.map some).all Option.isSome = true := by
    rw [List.all_map]
    exact List.all_eq_true.mpr fun _ _ => rfl
  obtain ⟨entity,ran,filled⟩ := save_saves refines.peers rows room
  rw [if_pos all, taken_all] at filled
  refine ⟨{ db with peers := entity },by rw [savePeers, bind_ready ran]; rfl,?_⟩
  exact { refines with peers := filled_saved filled }

theorem txAdded_refines {tx : BRTransaction} (refines : Refines core held db)
    (proceeds : Proceeds core variableNumber held (.txAdded tx)) :
    ∃ after, txAdded db tx = .ok after ∧ Refines core (held.after (.txAdded tx)) after := by
  obtain ⟨registered,room,other_hash⟩ := proceeds
  have short : (storedTransaction tx).ZBLOB.length < 2 ^ 31 := by
    have := registered.short
    obtain ⟨off,long,-⟩ := blob_parts tx
    omega
  obtain ⟨key,table,inserted,filled⟩ :=
    filled_insert refines.transactions room (storedTransaction tx)
  refine ⟨{ db with transactions := ⟨table,held.added + 1⟩ },?_,?_⟩
  · have length : int32 (BRTransactionSerialize tx ++
        stamp tx.blockHeight (storedTime tx.timestamp)).length = .ok _ := int32_short short
    unfold storedTransaction at inserted
    rw [txAdded, bind_ready key, bind_ready length, inserted]
    rfl
  · have transactions : Filled (Entity.mk table (held.added + 1))
        ((held.transactions ++ [tx]).map storedTransaction) (held.added + 1) := by
      rw [List.map_append]
      exact filled
    refine { refines with transactions, registered := ?_, distinct := ?_ }
    · intro other there
      rcases List.mem_append.mp there with before | last
      · exact refines.registered other before
      · exact List.mem_singleton.mp last ▸ registered
    · intro one there other among same
      rcases List.mem_append.mp there with before | last
      · rcases List.mem_append.mp among with earlier | new
        · exact refines.distinct one before other earlier same
        · rw [List.mem_singleton.mp new] at same ⊢
          exact (other_hash one before same.symm).symm
      · rw [List.mem_singleton.mp last] at same ⊢
        rcases List.mem_append.mp among with earlier | new
        · exact other_hash other earlier same
        · rw [List.mem_singleton.mp new]

theorem txDeleted_refines (txHash : UInt256) (refines : Refines core held db) :
    Refines core (held.after (.txDeleted txHash)) (txDeleted db txHash) := by
  have filled := refines.transactions
  have transactions : Filled (txDeleted db txHash).transactions
      ((held.transactions.filter fun tx => tx.txHash ≠ txHash).map storedTransaction)
      held.added := by
    refine ⟨?_,below_delete filled.below _,filled.count⟩
    refine (values_delete _).trans ?_
    have left : ((fun row => !decide (row.ZTXHASH = txHash)) ∘ storedTransaction) =
        fun tx => decide (tx.txHash ≠ txHash) :=
      funext fun _ => decide_not.symm
    rw [filled.values, List.filter_map, left]
  refine { refines with transactions, registered := ?_, distinct := ?_ }
  · exact fun tx there => refines.registered tx (List.mem_of_mem_filter there)
  · exact fun tx there other among => refines.distinct tx (List.mem_of_mem_filter there) other
      (List.mem_of_mem_filter among)

theorem txUpdated_refines {txHashes : List UInt256} {blockHeight timestamp : UInt32}
    (refines : Refines core held db)
    (proceeds : Proceeds core variableNumber held (.txUpdated txHashes blockHeight timestamp)) :
    ∃ after, txUpdated variableNumber db txHashes blockHeight timestamp = .ok after ∧
      Refines core (held.after (.txUpdated txHashes blockHeight timestamp)) after := by
  have filled := refines.transactions
  by_cases no_hash : txHashes = []
  · refine ⟨db,by rw [txUpdated, if_pos no_hash]; rfl,?_⟩
    have unchanged : held.after (.txUpdated txHashes blockHeight timestamp) = held := by
      rw [no_hash]
      exact congrArg (fun transactions => { held with transactions })
        (List.map_id held.transactions)
    rwa [unchanged]
  · obtain ⟨short,few⟩ := proceeds
    let words := stamp blockHeight (storedTime timestamp)
    let table := (List.range db.transactions.table.values.length).foldl
      (updateRow txHashes words) db.transactions.table
    have size : db.transactions.table.values.length = held.transactions.length := by
      rw [filled.values, List.length_map]
    have values : table.values =
        (held.transactions.map (marked blockHeight timestamp txHashes.contains)).map
          storedTransaction := by
      refine (updateRows_marked refines.distinct filled.values (le_of_eq size)).trans ?_
      rw [List.map_map, size]
      refine List.map_congr_left fun tx there => marked_congr ?_
      have found : held.transactions.any (tx.txHash == ·.txHash) = true :=
        List.any_eq_true.mpr ⟨tx,there,beq_self_eq_true tx.txHash⟩
      rw [List.take_length, found, Bool.and_true]
    refine ⟨{ db with transactions := ⟨table,db.transactions.Z_MAX⟩ },?_,?_⟩
    · rw [txUpdated, if_neg no_hash, bind_ready (int32_short short),
        if_neg (Nat.not_lt_of_le few)]
      rfl
    · refine { refines with transactions := ?_, registered := ?_, distinct := ?_ }
      · exact ⟨values,updateRows_below filled.below _ _,filled.count⟩
      · intro tx there
        obtain ⟨before,among,rfl⟩ := List.mem_map.mp there
        exact registered_marked (refines.registered before among)
      · intro tx there other also same
        obtain ⟨before,among,rfl⟩ := List.mem_map.mp there
        obtain ⟨earlier,amongst,rfl⟩ := List.mem_map.mp also
        have hash := marked_same blockHeight timestamp txHashes.contains before
        have otherHash := marked_same blockHeight timestamp txHashes.contains earlier
        refine otherHash.2.trans ((refines.distinct before among earlier amongst ?_).trans
          hash.2.symm)
        exact otherHash.1.symm.trans (same.trans hash.1)

theorem step_refines {save : Save} (refines : Refines core held db)
    (proceeds : Proceeds core variableNumber held save) :
    ∃ after, step variableNumber db save = .ok after ∧ Refines core (held.after save) after := by
  cases save with
  | saveBlocks replace blocks => exact saveBlocks_refines refines proceeds
  | savePeers replace peers => exact savePeers_refines refines proceeds
  | txAdded tx => exact txAdded_refines refines proceeds
  | txUpdated txHashes blockHeight timestamp => exact txUpdated_refines refines proceeds
  | txDeleted txHash => exact ⟨_,rfl,txDeleted_refines txHash refines⟩

theorem created_refines (core : Core) : Refines core .created .created :=
  ⟨filled_empty,filled_empty,filled_empty,fun _ there => absurd there List.not_mem_nil,
    fun _ there => absurd there List.not_mem_nil⟩

/-- Saves that proceed all return, and leave a row for each item. -/
theorem run_refines {saves : List Save} (refines : Refines core held db)
    (proceed : AllProceed core variableNumber held saves) :
    ∃ after, saves.foldlM (step variableNumber) db = .ok after ∧
      Refines core (saves.foldl Contents.after held) after := by
  induction saves generalizing held db with
  | nil => exact ⟨db,rfl,refines⟩
  | cons save saves ih =>
    obtain ⟨next,ran,refines⟩ := step_refines refines proceed.1
    obtain ⟨after,later,refines⟩ := ih refines proceed.2
    refine ⟨after,?_,refines⟩
    rw [List.foldlM_cons, bind_ready ran]
    exact later

end Steps

section RoundTrip
variable {core : Core} {variableNumber : Nat} {db : Database} {held : Contents}

/-- A list is read as it was exactly if each of its items is. -/
theorem mapM_same_iff {α β γ δ : Type} {read : β → Except Trap γ} {stored : α → β} {value : α → δ}
    {Same : γ → δ → Prop} (items : List α) :
    (∃ loaded, (items.map stored).mapM read = .ok loaded ∧
        List.Forall₂ Same loaded (items.map value)) ↔
      ∀ item ∈ items, ∃ loaded, read (stored item) = .ok loaded ∧ Same loaded (value item) := by
  induction items with
  | nil =>
    exact iff_of_true ⟨[],rfl,List.Forall₂.nil⟩ fun _ there => absurd there List.not_mem_nil
  | cons item items ih =>
    rw [List.forall_mem_cons, ← ih, List.map_cons, List.map_cons, List.mapM_cons]
    constructor
    · rintro ⟨loaded,ran,same⟩
      obtain ⟨first,read,ran⟩ := bind_ran.mp ran
      obtain ⟨later,reads,ran⟩ := bind_ran.mp ran
      cases ran
      obtain ⟨here,behind⟩ := List.forall₂_cons.mp same
      exact ⟨⟨first,read,here⟩,later,reads,behind⟩
    · rintro ⟨⟨first,read,here⟩,later,reads,behind⟩
      exact ⟨first :: later,by rw [bind_ready read, bind_ready reads]; rfl,
        List.Forall₂.cons here behind⟩

theorem filterMap_same_iff {α β : Type} {read : β → Option α} {stored : α → β}
    {Same : α → α → Prop} (items : List α) :
    List.Forall₂ Same ((items.map stored).filterMap read) items ↔
      ∀ item ∈ items, ∃ loaded, read (stored item) = some loaded ∧ Same loaded item := by
  induction items with
  | nil => exact iff_of_true List.Forall₂.nil fun _ there => absurd there List.not_mem_nil
  | cons item items ih =>
    rw [List.forall_mem_cons, List.map_cons]
    cases found : read (stored item) with
    | none =>
      rw [List.filterMap_cons_none found]
      refine iff_of_false (fun same => ?_) fun each => ?_
      · have fewer := List.length_filterMap_le read (items.map stored)
        have lengths := same.length_eq
        rw [List.length_map] at fewer
        rw [List.length_cons] at lengths
        omega
      · obtain ⟨loaded,there,-⟩ := each.1
        cases there
    | some loaded =>
      rw [List.filterMap_cons_some found, List.forall₂_cons, ih]
      refine and_congr_left fun _ => ?_
      constructor
      · exact fun same => ⟨loaded,rfl,same⟩
      · rintro ⟨other,there,same⟩
        exact Option.some.inj there ▸ same

/-- From a database that has a row for each item, all is read as it was handed over exactly if the
    blocks and the peers are such. -/
theorem loads_iff (refines : Refines core held db) :
    Loads core db held ↔
      (∀ b ∈ held.blocks, BlockKept b.pointee) ∧ ∀ p ∈ held.peers, PeerKept p := by
  have blocks : (∃ blocks, loadBlocks db = .ok blocks ∧
      List.Forall₂ SameBlock blocks (held.blocks.map BRBlockRef.pointee)) ↔
        ∀ b ∈ held.blocks, BlockKept b.pointee := by
    rw [loadBlocks, refines.blocks.values, mapM_same_iff]
    exact forall₂_congr fun b _ => block_loaded_iff b
  have peers : List.Forall₂ SamePeer (loadPeers db) held.peers ↔
      ∀ p ∈ held.peers, PeerKept p := by
    rw [loadPeers, refines.peers.values, filterMap_same_iff]
    exact forall₂_congr fun p _ => peer_loaded_iff p
  constructor
  · exact fun loads => ⟨blocks.mp loads.blocks,peers.mp loads.peers⟩
  · rintro ⟨blocksKept,peersKept⟩
    refine ⟨blocks.mpr blocksKept,peers.mpr peersKept,?_⟩
    rw [loadTransactions, refines.transactions.values]
    exact loadRows_stored refines.registered

/-- After saves that proceed, all is read as it was handed over exactly if no block that is still
    there has hashes or flags and no block or peer is before the reference date, and the peers have
    addresses of IPv4. -/
theorem round_trips_iff (core : Core) (variableNumber : Nat) (saves : List Save)
    (proceed : AllProceed core variableNumber .created saves) :
    RoundTrips core variableNumber saves ↔
      (∀ b ∈ (contents saves).blocks, BlockKept b.pointee) ∧
        ∀ p ∈ (contents saves).peers, PeerKept p := by
  obtain ⟨db,ran,refines⟩ := run_refines (created_refines core) proceed
  have loads_kept : Loads core db (contents saves) ↔ _ := loads_iff refines
  rw [← loads_kept]
  constructor
  · rintro ⟨other,same,loads⟩
    rw [ran] at same
    cases same
    exact loads
  · exact fun loads => ⟨db,ran,loads⟩

/-- A block without hashes and flags, and a peer of 127.0.0.1, both of the year 2017. -/
def headerOnly : BRMerkleBlock :=
  { blockHash := 1,
    version := 2,
    prevBlock := 3,
    merkleRoot := 4,
    timestamp := 1500000000,
    target := 5,
    nonce := 6,
    totalTx := 7,
    hashes := [],
    hashesCount := 0,
    flags := [],
    flagsLen := 0,
    height := 475000 }

def localPeer : BRPeer :=
  { address :=
      { u32_0 := 0,
        u32_1 := 0,
        u32_2 := bigEndian 0xffff,
        u32_3 := bigEndian 0x7f000001 },
    port := 8333,
    services := 1,
    timestamp := 1500000000,
    flags := 0 }

theorem header_and_peer_round_trip :
    RoundTrips ⟨fun _ => false,fun _ => 0⟩ 999
      [.saveBlocks false [some ⟨headerOnly,fun _ => 0,fun _ => 0⟩],.savePeers true [localPeer],
        .txUpdated [8] 475000 1500000000] := by
  have proceed : AllProceed ⟨fun _ => false,fun _ => 0⟩ 999 .created
      [.saveBlocks false [some ⟨headerOnly,fun _ => 0,fun _ => 0⟩],.savePeers true [localPeer],
        .txUpdated [8] 475000 1500000000] := by
    refine ⟨⟨?_,by decide⟩,⟨?_,by decide⟩,⟨by decide,by decide⟩,trivial⟩
    · rintro b there -
      obtain rfl := Option.some.inj (List.mem_singleton.mp there)
      decide
    · intro p there
      obtain rfl := List.mem_singleton.mp there
      decide
  refine (round_trips_iff _ _ _ proceed).mpr ⟨?_,?_⟩
  · intro b there
    obtain rfl := List.mem_singleton.mp there
    exact ⟨by decide,rfl,rfl⟩
  · intro p there
    obtain rfl := List.mem_singleton.mp there
    exact ⟨rfl,rfl,rfl,by decide⟩

/-- The one hash of a block is lost: the count of the hashes is not set again. -/
theorem one_hash_lost : ¬ ∀ (core : Core) (variableNumber : Nat) (saves : List Save),
    RoundTrips core variableNumber saves := by
  intro always
  let block : BRBlockRef :=
    ⟨{ headerOnly with hashes := [9], hashesCount := 1 },fun _ => 0,fun _ => 0⟩
  obtain ⟨db,ran,loads⟩ := always ⟨fun _ => false,fun _ => 0⟩ 999 [.saveBlocks true [some block]]
  have proceed : AllProceed ⟨fun _ => false,fun _ => 0⟩ 999 .created
      [.saveBlocks true [some block]] := by
    refine ⟨⟨?_,by decide⟩,trivial⟩
    rintro b there -
    obtain rfl := Option.some.inj (List.mem_singleton.mp there)
    decide
  obtain ⟨other,same,refines⟩ := run_refines (created_refines _) proceed
  rw [ran] at same
  cases same
  have not_skipped : (timestampResult block).2 = false := by decide
  have found : (some block).filter (fun b => !(timestampResult b).2) = some block := by
    rw [Option.filter_some, not_skipped]
    rfl
  have saved : kept [some block] = [block] := List.filterMap_cons_some found
  have there :
      block ∈ ([Save.saveBlocks true [some block]].foldl Contents.after .created).blocks := by
    change block ∈ [] ++ kept [some block]
    rw [saved]
    exact List.mem_singleton_self block
  have kept := ((loads_iff refines).mp loads).1 block there
  exact absurd kept.2.1 (by decide)

end RoundTrip

end StoredWallet
