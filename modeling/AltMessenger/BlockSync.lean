import AltMessenger.CFController
import AltMessenger.TransitionRuns

/-!
The point from which blocks are asked for. Blocks that arrive and orphans that are connected raise
the tip of the store to one of its rows; the step back lowers it to what the row of the tip names
as the block before it, and that is a row only if the tip is above the start.
-/
namespace BlockSync
open TransitionRuns SwiftRuntime BitcoinHash PeerMessages BlockStore CFController

/-- The tip names a stored block of its height, by a hash of 32 bytes. -/
def SyncPoint (s : Store) : Prop :=
  (∃ blockInfo ∈ s.blocks, blockInfo.blockHash = s.latestBlockHash ∧
    (blockInfo.height : Int) = s.latestBlockHeight) ∧
  ∃ blkHash, hexStringToNSData s.latestBlockHash = .ok blkHash ∧ blkHash.length = 32

/-- The message is not ignored, and announces the first block where that is not known. -/
def StepsBack (first : SHA256Hash) (c : Controller) (inventoryVectors : List InventoryVector) :
    Prop :=
  ¬ Ignored c inventoryVectors ∧ ⟨.Block,first⟩ ∈ inventoryVectors ∧
    ¬ Known c.store first ∧ c.store.latestBlockHeight ≠ 0

/-- A message that makes the tip step back finds a tip above the start, whose first row has a
    height. -/
def Grounded (start : Start) (first : SHA256Hash) (c : Controller) : Event → Prop
  | .inventory inventoryMessage => StepsBack first c inventoryMessage.inventoryVectors →
    ∀ currentBlock, c.store.fetch c.store.latestBlockHash = some currentBlock →
      currentBlock.height ≠ 0 ∧ currentBlock ≠ start.row
  | .merkleBlock _ => True
  | .connectOrphans => True

structure Tracked (start : Start) (s : Store) : Prop where
  rooted : Rooted start s
  hashed : ∀ blockInfo ∈ s.blocks, ∃ hash : SHA256Hash,
    blockInfo.blockHash = toHexString hash.data

variable {start : Start} {first : SHA256Hash} {build : Build} {realm : Realm}

theorem createGenesis_tracked (start : Start) : Tracked start (createGenesis start) where
  rooted := createGenesis_rooted start
  hashed blockInfo stored := ⟨start.hash,by rw [List.mem_singleton.mp stored]; rfl⟩

theorem Tracked.add {s : Store} (tracked : Tracked start s) (merkleBlock : MerkleBlock) :
    Tracked start (s.add merkleBlock) where
  rooted := add_rooted tracked.rooted merkleBlock
  hashed blockInfo stored := by
    rw [add_blocks] at stored
    rcases List.mem_append.mp stored with old | new
    · exact tracked.hashed blockInfo old
    · exact ⟨merkleBlock.hash,by rw [List.mem_singleton.mp new]; rfl⟩

theorem connectOrphan_hash {s : Store} {orphan : Nat} {blockInfo : BlockInfo}
    (stored : blockInfo ∈ (s.connectOrphan orphan).blocks) :
    ∃ old ∈ s.blocks, old.blockHash = blockInfo.blockHash := by
  rcases connectOrphan_cases s orphan with same | ⟨orphanBlk,_,found,_,_,step⟩
  · rw [same] at stored
    exact ⟨blockInfo,stored,rfl⟩
  · rw [step, update_blocks] at stored
    rcases List.mem_or_eq_of_mem_set stored with old | rfl
    · exact ⟨blockInfo,old,rfl⟩
    · exact ⟨orphanBlk,List.mem_of_getElem? found,rfl⟩

theorem connect_all_hash {orphans : List Nat} {s : Store} {blockInfo : BlockInfo}
    (stored : blockInfo ∈ (orphans.foldl Store.connectOrphan s).blocks) :
    ∃ old ∈ s.blocks, old.blockHash = blockInfo.blockHash := by
  induction orphans generalizing s with
  | nil => exact ⟨blockInfo,stored,rfl⟩
  | cons orphan orphans ih =>
    obtain ⟨mid,there,same⟩ := ih stored
    obtain ⟨old,before,hash⟩ := connectOrphan_hash there
    exact ⟨old,before,hash.trans same⟩

theorem Tracked.connectOrphans {s : Store} (tracked : Tracked start s) (realm : Realm) :
    Tracked start (s.connectOrphans realm) where
  rooted := connectOrphans_rooted realm tracked.rooted
  hashed blockInfo stored := by
    unfold Store.connectOrphans at stored
    dsimp only at stored
    split at stored
    case isTrue => exact tracked.hashed blockInfo (mem_deleteOrphans.mp stored).1
    case isFalse =>
      obtain ⟨old,there,same⟩ := connect_all_hash stored
      obtain ⟨hash,named⟩ := tracked.hashed old there
      exact ⟨hash,same.symm.trans named⟩

theorem Tracked.sync_point {s : Store} (tracked : Tracked start s) : SyncPoint s := by
  obtain ⟨tip,stored,_,hash,height⟩ := tracked.rooted.tip
  refine ⟨⟨tip,stored,hash,height⟩,?_⟩
  obtain ⟨blkHash,named⟩ := tracked.hashed tip stored
  rw [← hash, named]
  exact ⟨blkHash.data,hexStringToNSData_toHexString _,blkHash.length_eq⟩

theorem Tracked.tip_fetched {s : Store} (tracked : Tracked start s) :
    ∃ currentBlock, s.fetch s.latestBlockHash = some currentBlock := by
  obtain ⟨tip,stored,_,hash,_⟩ := tracked.rooted.tip
  exact Option.isSome_iff_exists.mp (List.find?_isSome.mpr ⟨tip,stored,decide_eq_true hash⟩)

/-- The store after a step back from this block. -/
def lowered (s : Store) (currentBlock : BlockInfo) : Store :=
  { s with blockChainInfo := ⟨currentBlock.previousBlockHash,currentBlock.height - 1⟩ }

theorem stepBack_lowers {c t : Controller} {currentBlock : BlockInfo}
    (fetched : c.store.fetch c.store.latestBlockHash = some currentBlock)
    (ran : stepBack build c = .ok t) : t.store = lowered c.store currentBlock := by
  unfold stepBack at ran
  rw [fetched] at ran
  obtain ⟨_,_,ran⟩ := bind_ran.mp ran
  obtain ⟨_,_,ran⟩ := bind_ran.mp ran
  cases ran
  rfl

theorem stepBack_runs (build : Build) {c : Controller} {currentBlock : BlockInfo}
    (fetched : c.store.fetch c.store.latestBlockHash = some currentBlock) {hash : SHA256Hash}
    (named : currentBlock.previousBlockHash = toHexString hash.data) :
    ∃ t, stepBack build c = .ok t := by
  have data : hexStringToNSData currentBlock.previousBlockHash = .ok hash.data := by
    rw [named, hexStringToNSData_toHexString]
  have whole : sha256Hash build hash.data = .ok hash.data :=
    if_neg fun broken => broken.2 hash.length_eq
  unfold stepBack
  rw [fetched]
  dsimp only
  rw [bind_ready data, bind_ready whole]
  exact ⟨_,rfl⟩

/-- Without a step back the handler comes to its end, and leaves the store as it is. -/
theorem inventory_quiet {c : Controller} {inventoryVectors : List InventoryVector}
    (stays : ¬ StepsBack first c inventoryVectors) (build : Build) :
    ∃ t, receiveInventory first build c inventoryVectors = .ok t ∧ t.store = c.store := by
  rcases receiveInventory_cases first build c inventoryVectors with
    ⟨_,same⟩ | ⟨new,lastBlockHash,counts⟩
  · exact ⟨c,same,rfl⟩
  · have goes_on : vecs first c.store inventoryVectors ≠ none :=
      fun none => stays ⟨new,vecs_none.mp none⟩
    rw [counts]
    unfold countVectors sendGetData
    dsimp only
    split
    · rename_i none
      exact absurd none goes_on
    · split
      · exact ⟨_,rfl,complete_store _⟩
      · exact ⟨_,rfl,complete_store _⟩

/-- With it, the handler does what the step back does. -/
theorem inventory_back {c : Controller} {inventoryVectors : List InventoryVector}
    (back : StepsBack first c inventoryVectors) (build : Build) :
    ∃ mid : Controller, mid.store = c.store ∧
      receiveInventory first build c inventoryVectors =
        stepBack build mid >>= fun c => .ok (complete c) := by
  obtain ⟨new,announced,unknown⟩ := back
  rcases receiveInventory_cases first build c inventoryVectors with
    ⟨ignored,_⟩ | ⟨_,lastBlockHash,counts⟩
  · exact absurd ignored new
  · rw [counts]
    unfold countVectors sendGetData
    dsimp only
    rw [vecs_none.mpr ⟨announced,unknown⟩]
    let counted := c.blockHashesCountDownloaded + inventoryVectors.length
    exact ⟨{ c with lastBlockHash, blockHashesCountDownloaded := counted },rfl,rfl⟩

theorem Tracked.lowered {s : Store} (tracked : Tracked start s) {currentBlock : BlockInfo}
    (stored : currentBlock ∈ s.blocks) (known : currentBlock.height ≠ 0)
    (above : currentBlock ≠ start.row) : Tracked start (lowered s currentBlock) where
  rooted := by
    refine ⟨tracked.rooted.connected,tracked.rooted.start_stored,?_⟩
    obtain ⟨previousBlk,there,parent,hash,height⟩ :=
      tracked.rooted.connected currentBlock stored known above
    refine ⟨previousBlk,there,parent,hash,?_⟩
    change (previousBlk.height : Int) = currentBlock.height - 1
    omega
  hashed := tracked.hashed

/-- After a step back the tip is a stored block only if it was above the start and has a height. -/
theorem lowered_sync_point {s : Store} (tracked : Tracked start s) {currentBlock : BlockInfo}
    (point : SyncPoint (lowered s currentBlock)) :
    currentBlock.height ≠ 0 ∧ currentBlock ≠ start.row := by
  obtain ⟨⟨blockInfo,stored,hash,height⟩,_⟩ := point
  constructor
  · intro none
    change (blockInfo.height : Int) = currentBlock.height - 1 at height
    omega
  · intro same
    obtain ⟨blkHash,named⟩ := tracked.hashed blockInfo stored
    change blockInfo.blockHash = currentBlock.previousBlockHash at hash
    rw [same, named] at hash
    have length := toHexString_length blkHash.data
    rw [hash, blkHash.length_eq] at length
    cases length

theorem step_keeps (c : Controller) (e : Event) (tracked : Tracked start c.store)
    (grounded : Grounded start first c e) :
    ∃ t, step first build realm c e = some t ∧ Tracked start t.store := by
  cases e with
  | merkleBlock merkleBlockMessage => exact ⟨_,rfl,tracked.add merkleBlockMessage⟩
  | connectOrphans => exact ⟨_,rfl,tracked.connectOrphans realm⟩
  | inventory inventoryMessage =>
    simp only [step_inventory]
    by_cases back : StepsBack first (announce c inventoryMessage.inventoryVectors)
        inventoryMessage.inventoryVectors
    case neg =>
      obtain ⟨t,ran,same⟩ := inventory_quiet back build
      exact ⟨t,ran,same ▸ tracked⟩
    case pos =>
      obtain ⟨currentBlock,fetched⟩ := tracked.tip_fetched
      obtain ⟨known,above⟩ := grounded back currentBlock fetched
      have stored := (mem_of_fetch fetched).1
      obtain ⟨previousBlk,there,_,parent,_⟩ :=
        tracked.rooted.connected currentBlock stored known above
      obtain ⟨hash,named⟩ := tracked.hashed previousBlk there
      obtain ⟨mid,same,ran⟩ := inventory_back back build
      have fetched : mid.store.fetch mid.store.latestBlockHash = some currentBlock := by
        rw [same]
        exact fetched
      obtain ⟨t,stepped⟩ := stepBack_runs build fetched (parent.symm.trans named)
      rw [ran, bind_ready stepped]
      refine ⟨complete t,rfl,?_⟩
      rw [complete_store, stepBack_lowers fetched stepped, same]
      exact tracked.lowered stored known above

theorem step_grounded (c : Controller) (e : Event) (t : Controller)
    (tracked : Tracked start c.store) (taken : step first build realm c e = some t)
    (point : SyncPoint t.store) : Grounded start first c e := by
  cases e with
  | merkleBlock => trivial
  | connectOrphans => trivial
  | inventory inventoryMessage =>
    intro back currentBlock fetched
    obtain ⟨mid,same,ran⟩ := inventory_back (c := announce c inventoryMessage.inventoryVectors)
      back build
    rw [step_inventory, ran] at taken
    obtain ⟨u,stepped,last⟩ := bind_ran.mp taken
    cases last
    have fetched : mid.store.fetch mid.store.latestBlockHash = some currentBlock := by
      rw [same]
      exact fetched
    rw [complete_store, stepBack_lowers fetched stepped, same] at point
    exact lowered_sync_point tracked point

/-- In each state of a run the tip names a stored block of its height, exactly if each step back
    is from a tip above the start whose first row has a height. -/
theorem sync_point_iff (build : Build) (realm : Realm) (start : Start) (first : SHA256Hash)
    (blockStartHeight : Int32) (events : List Event) :
    (∀ done, done <+: events → ∃ c,
      exec (step first build realm)
        (didConnectWithPeerVersion (createGenesis start) blockStartHeight) done = some c ∧
      SyncPoint c.store) ↔
    Along (step first build realm) (Grounded start first)
      (didConnectWithPeerVersion (createGenesis start) blockStartHeight) events := by
  have sound : ∀ c : Controller, Tracked start c.store → SyncPoint c.store :=
    fun _ tracked => tracked.sync_point
  exact exec_safe_iff sound step_keeps step_grounded (createGenesis_tracked start)

/-- The first block, announced to the initial store. -/
def firstAnnounced : List Event :=
  [.inventory ⟨[⟨.Block,firstCreatedBlock⟩],by decide⟩]

def afterFirst : Controller where
  store := ⟨[startingBlock.row],⟨[],1249179⟩⟩
  lastBlockHash := ⟨.Block,firstCreatedBlock⟩
  blockHashesCountDownloaded := 1
  syncStartBlockHeight := 1249180
  blockStartHeight := 1300000
  blockSyncCompleted := false
  sent := [.getBlocks []]
  announced := [firstCreatedBlock]

/-- The tip then has the empty hash, and the next locator no bytes. -/
theorem first_block_loses_tip :
    exec (step firstCreatedBlock .release .inPlace)
        (didConnectWithPeerVersion (createGenesis startingBlock) 1300000) firstAnnounced =
      some afterFirst ∧ ¬ SyncPoint afterFirst.store := by
  refine ⟨by decide,?_⟩
  rintro ⟨⟨blockInfo,stored,hash,_⟩,_⟩
  rw [List.mem_singleton.mp stored] at hash
  cases hash

end BlockSync
