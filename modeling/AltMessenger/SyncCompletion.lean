import Mathlib.Data.Finset.Card
import AltMessenger.CFController
import AltMessenger.TransitionRuns

/-!
When the controller reports that blocks are in sync. It compares a count of vectors with the
height of the peer; the count is one of announced blocks as long as the vectors counted name new
blocks only.
-/
namespace SyncCompletion
open TransitionRuns SwiftRuntime BitcoinHash PeerMessages BlockStore CFController

/-- The number of different blocks announced so far. -/
def distinctBlocks (c : Controller) : Nat := c.announced.toFinset.card

/-- Until the sync is complete, a message that is counted names blocks only, none of them twice,
    and none announced before. -/
def NewBlocks (c : Controller) : Event → Prop
  | .inventory inventoryMessage =>
    c.blockSyncCompleted = true ∨ Ignored c inventoryMessage.inventoryVectors ∨
    (∀ vec ∈ inventoryMessage.inventoryVectors, vec.type = .Block ∧ vec.hash ∉ c.announced) ∧
      (inventoryMessage.inventoryVectors.map InventoryVector.hash).Nodup
  | .merkleBlock _ => True
  | .connectOrphans => True

variable {first : SHA256Hash} {build : Build} {realm : Realm}

theorem sendGetData_frame {c t : Controller} {inventoryVecs : List InventoryVector}
    (ran : sendGetData first build c inventoryVecs = .ok t) :
    ∃ store sent, t = { c with store, sent } := by
  unfold sendGetData stepBack at ran
  split at ran
  · split at ran
    · cases ran
      exact ⟨c.store,c.sent,rfl⟩
    · obtain ⟨_,_,ran⟩ := bind_ran.mp ran
      obtain ⟨_,_,ran⟩ := bind_ran.mp ran
      cases ran
      exact ⟨_,_,rfl⟩
  · split at ran
    · cases ran
      exact ⟨c.store,c.sent,rfl⟩
    · cases ran
      exact ⟨c.store,_,rfl⟩

/-- A message that is not ignored is counted with all its vectors. -/
theorem receiveInventory_frame {c t : Controller} {inventoryVectors : List InventoryVector}
    (ran : receiveInventory first build c inventoryVectors = .ok t) :
    t = c ∨ ¬ Ignored c inventoryVectors ∧ ∃ lastBlockHash store sent, t = complete
      { c with
        lastBlockHash, store, sent
        blockHashesCountDownloaded := c.blockHashesCountDownloaded + inventoryVectors.length } := by
  rcases receiveInventory_cases first build c inventoryVectors with
    ⟨_,same⟩ | ⟨handled,lastBlockHash,counts⟩
  · rw [same] at ran
    cases ran
    exact Or.inl rfl
  · rw [counts] at ran
    obtain ⟨mid,sent,ran⟩ := bind_ran.mp ran
    obtain ⟨store,messages,rfl⟩ := sendGetData_frame sent
    cases ran
    exact Or.inr ⟨handled,lastBlockHash,store,messages,rfl⟩

/-- Until the sync is complete no more is counted than was announced, and then all was. -/
structure Honest (store : Store) (blockStartHeight : Int32) (c : Controller) : Prop where
  started : c.syncStartBlockHeight = store.latestBlockHeight
  peer : c.blockStartHeight = blockStartHeight
  counted : c.blockSyncCompleted = false → c.blockHashesCountDownloaded ≤ distinctBlocks c
  completed : c.blockSyncCompleted = true →
    blockStartHeight.toInt - store.latestBlockHeight ≤ distinctBlocks c

theorem didConnect_honest {store : Store} {blockStartHeight : Int32}
    (behind : store.latestBlockHeight < blockStartHeight.toInt) :
    Honest store blockStartHeight (didConnectWithPeerVersion store blockStartHeight) where
  started := rfl
  peer := rfl
  counted _ := Nat.zero_le _
  completed early := absurd (of_decide_eq_true early) (not_le.mpr behind)

theorem complete_honest {store : Store} {blockStartHeight : Int32} {c : Controller}
    (honest : Honest store blockStartHeight c) : Honest store blockStartHeight (complete c) := by
  unfold complete
  split
  case isFalse => exact honest
  case isTrue enough =>
    refine ⟨honest.started,honest.peer,nofun,fun _ => ?_⟩
    change _ ≤ (distinctBlocks c : Int)
    cases already : c.blockSyncCompleted with
    | true => exact honest.completed already
    | false =>
      have counted := honest.counted already
      rw [honest.started, honest.peer] at enough
      omega

theorem announced_more (c : Controller) (inventoryVectors : List InventoryVector) :
    distinctBlocks c ≤ distinctBlocks (announce c inventoryVectors) := by
  refine Finset.card_le_card ?_
  unfold announce
  rw [List.toFinset_append]
  exact Finset.subset_union_left

theorem announced_new {c : Controller} {inventoryVectors : List InventoryVector}
    (blocks : ∀ vec ∈ inventoryVectors, vec.type = .Block ∧ vec.hash ∉ c.announced)
    (distinct : (inventoryVectors.map InventoryVector.hash).Nodup) :
    distinctBlocks (announce c inventoryVectors) =
      distinctBlocks c + inventoryVectors.length := by
  have all : blockHashes inventoryVectors = inventoryVectors.map InventoryVector.hash := by
    unfold blockHashes
    rw [List.filter_eq_self.mpr fun vec there => decide_eq_true (blocks vec there).1]
  have apart : Disjoint c.announced.toFinset
      (inventoryVectors.map InventoryVector.hash).toFinset := by
    rw [List.disjoint_toFinset_iff_disjoint]
    intro hash old new
    obtain ⟨vec,there,rfl⟩ := List.mem_map.mp new
    exact (blocks vec there).2 old
  unfold distinctBlocks announce
  rw [all, List.toFinset_append, Finset.card_union_of_disjoint apart,
    List.toFinset_card_of_nodup distinct, List.length_map]

theorem step_honest {store : Store} {blockStartHeight : Int32} (c : Controller) (e : Event)
    (t : Controller) (honest : Honest store blockStartHeight c) (new : NewBlocks c e)
    (taken : step first build realm c e = some t) : Honest store blockStartHeight t := by
  cases e with
  | merkleBlock =>
    cases taken
    exact ⟨honest.started,honest.peer,honest.counted,honest.completed⟩
  | connectOrphans =>
    cases taken
    exact ⟨honest.started,honest.peer,honest.counted,honest.completed⟩
  | inventory inventoryMessage =>
    have more := announced_more c inventoryMessage.inventoryVectors
    have heard : Honest store blockStartHeight (announce c inventoryMessage.inventoryVectors) := by
      refine ⟨honest.started,honest.peer,fun early => (honest.counted early).trans more,?_⟩
      intro complete
      exact (honest.completed complete).trans (Int.ofNat_le.mpr more)
    rcases receiveInventory_frame (step_inventory.mp taken) with
      rfl | ⟨handled,lastBlockHash,_,_,rfl⟩
    · exact heard
    · rcases new with already | ignored | ⟨blocks,distinct⟩
      · refine complete_honest ⟨heard.started,heard.peer,?_,heard.completed⟩
        exact fun early => nomatch already.symm.trans early
      · exact absurd ignored handled
      · refine complete_honest ⟨heard.started,heard.peer,?_,heard.completed⟩
        intro early
        have counted := honest.counted early
        have all := announced_new blocks distinct
        change c.blockHashesCountDownloaded + _ ≤
          distinctBlocks (announce c inventoryMessage.inventoryVectors)
        omega

/-- If the messages counted until then name new blocks only, the sync is complete no sooner than
    as many blocks were announced as the peer is ahead. -/
theorem complete_after_announced (build : Build) (realm : Realm) (first : SHA256Hash)
    (store : Store) (blockStartHeight : Int32) (events : List Event) (c : Controller)
    (behind : store.latestBlockHeight < blockStartHeight.toInt)
    (new : Along (step first build realm) NewBlocks
      (didConnectWithPeerVersion store blockStartHeight) events)
    (run : exec (step first build realm) (didConnectWithPeerVersion store blockStartHeight) events =
      some c) (complete : c.blockSyncCompleted = true) :
    blockStartHeight.toInt - store.latestBlockHeight ≤ distinctBlocks c :=
  (exec_keeps step_honest (didConnect_honest behind) new run).completed complete

theorem block_counted : 0 < [InventoryVector.mk .Block zeroHash].length ∧
    [InventoryVector.mk .Block zeroHash].length ≤ 50000 := by decide

/-- The one block that the peer is ahead. -/
def blockAnnounced : List Event := [.inventory ⟨[⟨.Block,zeroHash⟩],block_counted⟩]

def afterBlock : Controller where
  store := createGenesis startingBlock
  lastBlockHash := ⟨.Block,zeroHash⟩
  blockHashesCountDownloaded := 1
  syncStartBlockHeight := 1249180
  blockStartHeight := 1249181
  blockSyncCompleted := true
  sent := [.getData [⟨.FilteredBlock,zeroHash⟩],.getBlocks zeroHash.data]
  announced := [zeroHash]

theorem complete_after_block :
    (1249181 : Int32).toInt - (createGenesis startingBlock).latestBlockHeight ≤
      distinctBlocks afterBlock :=
  complete_after_announced .release .inPlace firstCreatedBlock (createGenesis startingBlock) 1249181
    blockAnnounced afterBlock (by decide)
    ⟨Or.inr (Or.inr ⟨by decide,by decide⟩),fun _ _ => trivial⟩ (by decide) rfl

/-- Two transactions in one message. -/
def transactionsAnnounced : List Event :=
  [.inventory ⟨[⟨.Transaction,zeroHash⟩,⟨.Transaction,zeroHash⟩],by decide⟩]

def afterTransactions : Controller where
  store := createGenesis startingBlock
  lastBlockHash := ⟨.Error,zeroHash⟩
  blockHashesCountDownloaded := 2
  syncStartBlockHeight := 1249180
  blockStartHeight := 1249182
  blockSyncCompleted := true
  sent := [.getData [⟨.Transaction,zeroHash⟩,⟨.Transaction,zeroHash⟩],.getBlocks zeroHash.data]
  announced := []

/-- The sync with a peer two blocks ahead is then complete, and no block was announced. -/
theorem transactions_complete_sync :
    exec (step firstCreatedBlock .release .inPlace)
        (didConnectWithPeerVersion (createGenesis startingBlock) 1249182) transactionsAnnounced =
      some afterTransactions ∧
    afterTransactions.blockSyncCompleted = true ∧
    ¬ (1249182 : Int32).toInt - (createGenesis startingBlock).latestBlockHeight ≤
      distinctBlocks afterTransactions := by
  refine ⟨by decide,rfl,by decide⟩

end SyncCompletion
