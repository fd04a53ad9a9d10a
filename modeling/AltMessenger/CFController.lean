import AltMessenger.BlockStore
import AltMessenger.PeerMessages

/-!
The controller of a peer connection, as far as it synchronizes blocks. An inventory announces what
the peer has; the controller asks for what the store does not know, counts the vectors, and steps
the tip of the store back when the very first block is announced.
-/
namespace CFController
open SwiftRuntime BitcoinHash PeerMessages BlockStore

/-- Assertions are checked in a debug build only. -/
inductive Build where
  | debug
  | release
  deriving DecidableEq, Repr

/-- `SHA256Hash(data)`, with what it then holds. -/
def sha256Hash (build : Build) (data : List UInt8) : Except Trap (List UInt8) :=
  if build = .debug ∧ data.length ≠ 32 then .error .assertion else .ok data

inductive Sent where
  | getData (inventoryVectors : List InventoryVector)
  | getBlocks (blockLocatorHash : List UInt8)
  deriving DecidableEq

/-- `announced` keeps the hashes of the blocks that inventories named. -/
structure Controller where
  store : Store
  lastBlockHash : InventoryVector
  blockHashesCountDownloaded : Nat
  syncStartBlockHeight : Int
  blockStartHeight : Int32
  blockSyncCompleted : Bool
  sent : List Sent
  announced : List SHA256Hash
  deriving DecidableEq

inductive Event where
  | inventory (inventoryMessage : InventoryMessage)
  | merkleBlock (merkleBlockMessage : MerkleBlock)
  | connectOrphans
  deriving DecidableEq

/-- `startingBlockHash` and `startingBlockHeight` -/
def startingBlock : Start where
  hash := ⟨[0x00,0x00,0x00,0x00,0x00,0x00,0xf9,0x56,0x2f,0x3d,0xff,0x20,0x4a,0xba,0x80,0x2e,
    0xec,0xe8,0xd4,0xcb,0x38,0xd1,0x78,0x28,0xf3,0xe9,0x9b,0xee,0x0a,0x5b,0xb6,0xc4],rfl⟩
  height := 1249180
  positive := by decide

/-- The block of the test network, which is the one in use. -/
def firstCreatedBlock : SHA256Hash :=
  ⟨[0x00,0x00,0x00,0x00,0xb8,0x73,0xe7,0x97,0x84,0x64,0x7a,0x6c,0x82,0x96,0x2c,0x70,
    0xd2,0x28,0x55,0x7d,0x24,0xa7,0x47,0xea,0x4d,0x1b,0x8b,0xbe,0x87,0x8e,0x12,0x06],rfl⟩

/-- The controller when the peer's version is known. -/
def didConnectWithPeerVersion (store : Store) (blockStartHeight : Int32) : Controller where
  store
  lastBlockHash := ⟨.Error,zeroHash⟩
  blockHashesCountDownloaded := 0
  syncStartBlockHeight := store.latestBlockHeight
  blockStartHeight
  blockSyncCompleted := decide (blockStartHeight.toInt ≤ store.latestBlockHeight)
  sent := []
  announced := []

/-- The block is stored and has a height. -/
def Known (store : Store) (hash : SHA256Hash) : Prop :=
  ∃ blkInfo, store.fetch (toHexString hash.data) = some blkInfo ∧ blkInfo.height ≠ 0

instance (store : Store) (hash : SHA256Hash) : Decidable (Known store hash) :=
  decidable_of_iff
    ((store.fetch (toHexString hash.data)).any (fun blkInfo => blkInfo.height ≠ 0) = true) (by
      unfold Known
      simp [Option.any_eq_true])

section SendGetData
variable (first : SHA256Hash)

/-- The loop of `sendGetData`: the vectors to ask for, or nothing where it returns to step back. -/
def vecs (store : Store) : List InventoryVector → Option (List InventoryVector)
  | [] => some []
  | vec :: inventoryVecs =>
    if vec.type = .Block then
      if Known store vec.hash then vecs store inventoryVecs
      else if vec.hash = first ∧ store.latestBlockHeight ≠ 0 then none
      else (vecs store inventoryVecs).map (⟨.FilteredBlock,vec.hash⟩ :: ·)
    else (vecs store inventoryVecs).map (vec :: ·)

def stepBack (build : Build) (c : Controller) : Except Trap Controller :=
  match c.store.fetch c.store.latestBlockHash with
  | none => .ok c
  | some currentBlock => do
    let data ← hexStringToNSData currentBlock.previousBlockHash
    let blkHash ← sha256Hash build data
    .ok { c with
      store := { c.store with
        blockChainInfo := ⟨currentBlock.previousBlockHash,currentBlock.height - 1⟩ }
      sent := c.sent ++ [.getBlocks blkHash] }

def sendGetData (build : Build) (c : Controller) (inventoryVecs : List InventoryVector) :
    Except Trap Controller :=
  match vecs first c.store inventoryVecs with
  | none => stepBack build c
  | some vecs =>
    match vecs.getLast? with
    | none => .ok c
    | some last =>
      .ok { c with sent := c.sent ++ [.getData vecs,.getBlocks last.hash.data] }

def complete (c : Controller) : Controller :=
  if c.blockStartHeight.toInt ≤ c.blockHashesCountDownloaded + c.syncStartBlockHeight then
    { c with blockSyncCompleted := true }
  else c

def blockHashes (inventoryVectors : List InventoryVector) : List SHA256Hash :=
  (inventoryVectors.filter fun vec => vec.type = .Block).map InventoryVector.hash

/-- What comes after the two tests of the handler. -/
def countVectors (build : Build) (c : Controller) (inventoryVectors : List InventoryVector) :
    Except Trap Controller := do
  let counted := c.blockHashesCountDownloaded + inventoryVectors.length
  let c ← sendGetData first build { c with blockHashesCountDownloaded := counted } inventoryVectors
  .ok (complete c)

def receiveInventory (build : Build) (c : Controller) (inventoryVectors : List InventoryVector) :
    Except Trap Controller :=
  if inventoryVectors = [c.lastBlockHash] then .ok c
  else
    match inventoryVectors with
    | [vec] =>
      if vec.type ≠ .Block then .ok c
      else countVectors first build { c with lastBlockHash := vec } [vec]
    | inventoryVectors => countVectors first build c inventoryVectors

/-- The blocks that a message names are noted. -/
def announce (c : Controller) (inventoryVectors : List InventoryVector) : Controller :=
  { c with announced := c.announced ++ blockHashes inventoryVectors }

def handle (build : Build) (realm : Realm) (c : Controller) : Event → Except Trap Controller
  | .inventory inventoryMessage =>
    receiveInventory first build (announce c inventoryMessage.inventoryVectors)
      inventoryMessage.inventoryVectors
  | .merkleBlock merkleBlockMessage => .ok { c with store := c.store.add merkleBlockMessage }
  | .connectOrphans => .ok { c with store := c.store.connectOrphans realm }

/-- A trap ends the run. -/
def step (build : Build) (realm : Realm) (c : Controller) (e : Event) : Option Controller :=
  (handle first build realm c e).toOption

end SendGetData

variable {first : SHA256Hash} {build : Build} {realm : Realm}

theorem toOption_some {α : Type} {run : Except Trap α} {a : α} :
    run.toOption = some a ↔ run = .ok a := by
  cases run with
  | error => exact iff_of_false nofun nofun
  | ok b => exact Option.some_inj.trans (Except.ok.injEq b a ▸ Iff.rfl)

theorem step_inventory {c t : Controller} {inventoryMessage : InventoryMessage} :
    step first build realm c (.inventory inventoryMessage) = some t ↔
      receiveInventory first build (announce c inventoryMessage.inventoryVectors)
        inventoryMessage.inventoryVectors = .ok t := toOption_some

/-- The loop returns early exactly if the first block is announced and has no height in a store
    whose tip has one. -/
theorem vecs_none {store : Store} {inventoryVecs : List InventoryVector} :
    vecs first store inventoryVecs = none ↔
      ⟨.Block,first⟩ ∈ inventoryVecs ∧ ¬ Known store first ∧ store.latestBlockHeight ≠ 0 := by
  induction inventoryVecs with
  | nil => simp [vecs]
  | cons vec inventoryVecs ih =>
    obtain ⟨type,hash⟩ := vec
    unfold vecs
    rw [List.mem_cons, InventoryVector.mk.injEq]
    by_cases block : type = .Block
    · rw [if_pos block]
      by_cases known : Known store hash
      · rw [if_pos known, ih]
        constructor
        · exact fun ⟨there,rest⟩ => ⟨Or.inr there,rest⟩
        · rintro ⟨⟨_,same⟩ | there,unknown,rest⟩
          · exact absurd (same ▸ known) unknown
          · exact ⟨there,unknown,rest⟩
      · rw [if_neg known]
        by_cases returns : hash = first ∧ store.latestBlockHeight ≠ 0
        · rw [if_pos returns]
          obtain ⟨same,raised⟩ := returns
          exact iff_of_true rfl ⟨Or.inl ⟨block.symm,same.symm⟩,same ▸ known,raised⟩
        · rw [if_neg returns, Option.map_eq_none_iff, ih]
          constructor
          · exact fun ⟨there,rest⟩ => ⟨Or.inr there,rest⟩
          · rintro ⟨⟨_,same⟩ | there,unknown,raised⟩
            · exact absurd ⟨same.symm,raised⟩ returns
            · exact ⟨there,unknown,raised⟩
    · have other : ¬ (VectorType.Block = type ∧ first = hash) := fun same => block same.1.symm
      rw [if_neg block, Option.map_eq_none_iff, ih, or_iff_right other]

@[simp] theorem complete_store (c : Controller) : (complete c).store = c.store := by
  unfold complete
  split <;> rfl

/-- The one vector of the message came last time, or is not a block. -/
def Ignored (c : Controller) (inventoryVectors : List InventoryVector) : Prop :=
  inventoryVectors = [c.lastBlockHash] ∨
    ∃ vec, inventoryVectors = [vec] ∧ vec.type ≠ .Block

/-- The handler returns at once, or goes on with the vectors. -/
theorem receiveInventory_cases (first : SHA256Hash) (build : Build) (c : Controller)
    (inventoryVectors : List InventoryVector) :
    Ignored c inventoryVectors ∧ receiveInventory first build c inventoryVectors = .ok c ∨
      ¬ Ignored c inventoryVectors ∧ ∃ lastBlockHash,
        receiveInventory first build c inventoryVectors =
          countVectors first build { c with lastBlockHash } inventoryVectors := by
  unfold receiveInventory
  split
  case isTrue same => exact Or.inl ⟨Or.inl same,rfl⟩
  case isFalse new =>
    split
    · rename_i vec
      split
      case isTrue other => exact Or.inl ⟨Or.inr ⟨vec,rfl,other⟩,rfl⟩
      case isFalse block =>
        refine Or.inr ⟨?_,vec,rfl⟩
        rintro (same | ⟨vec',same,other⟩)
        · exact new same
        · cases same
          exact block other
    · rename_i several
      refine Or.inr ⟨?_,c.lastBlockHash,rfl⟩
      rintro (same | ⟨vec,same,_⟩)
      · exact new same
      · exact several vec same

end CFController
