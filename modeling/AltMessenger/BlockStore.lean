import Mathlib.Data.List.Perm.Basic
import AltMessenger.BitcoinHash

/-!
The block store of the Bitcoin wallet. A block gets its height when it arrives after its parent;
the height zero marks one that did not. Such orphans are connected later, in one pass over the
table, or deleted if they are too many.
-/
namespace BlockStore
open BitcoinHash

/-- A merkle block as far as the store reads it: the hashes of its header and of the one before. -/
structure MerkleBlock where
  hash : SHA256Hash
  previousBlockHash : SHA256Hash
  deriving DecidableEq

/-- A row of the table. The height zero means that it is not properly set yet. -/
structure BlockInfo where
  blockHash : List Char
  previousBlockHash : List Char
  height : Nat
  deriving DecidableEq, Repr

structure BlockChainInfo where
  lastBlockHash : List Char
  lastBlockHeight : Int
  deriving DecidableEq, Repr

/-- The rows are in the order of the table. -/
structure Store where
  blocks : List BlockInfo
  blockChainInfo : BlockChainInfo
  deriving DecidableEq, Repr

/-- The database may order its rows anew when some are deleted. -/
structure Realm where
  reorder : List BlockInfo → List BlockInfo
  reorder_perm : ∀ blocks, (reorder blocks).Perm blocks

/-- A database that keeps the order. -/
def Realm.inPlace : Realm := ⟨id,fun _ => List.Perm.refl _⟩

/-- The block that a store starts from. -/
structure Start where
  hash : SHA256Hash
  height : Nat
  positive : 0 < height
  deriving DecidableEq

def Start.row (start : Start) : BlockInfo := ⟨toHexString start.hash.data,[],start.height⟩

/-- `createGenesis`, saved. -/
def createGenesis (start : Start) : Store where
  blocks := [start.row]
  blockChainInfo := ⟨toHexString start.hash.data,start.height⟩

namespace Store

def latestBlockHash (s : Store) : List Char := s.blockChainInfo.lastBlockHash

def latestBlockHeight (s : Store) : Int := s.blockChainInfo.lastBlockHeight

/-- The first row with the hash. -/
def fetch (s : Store) (hash : List Char) : Option BlockInfo :=
  s.blocks.find? fun blockInfo => blockInfo.blockHash = hash

/-- The height that a child of this block gets. -/
def heightAfter (s : Store) (hash : List Char) : Nat :=
  match s.fetch hash with
  | none => 0
  | some previousBlk => if previousBlk.height = 0 then 0 else previousBlk.height + 1

def create (s : Store) (merkleBlock : MerkleBlock) : BlockInfo where
  blockHash := toHexString merkleBlock.hash.data
  previousBlockHash := toHexString merkleBlock.previousBlockHash.data
  height := s.heightAfter (toHexString merkleBlock.previousBlockHash.data)

/-- The tip moves to a block that is higher. -/
def raiseTip (s : Store) (blockInfo : BlockInfo) : Store :=
  if s.latestBlockHeight < blockInfo.height then
    { s with blockChainInfo := ⟨blockInfo.blockHash,blockInfo.height⟩ }
  else s

def add (s : Store) (merkleBlockMsg : MerkleBlock) : Store :=
  let blockInfo := s.create merkleBlockMsg
  raiseTip { s with blocks := s.blocks ++ [blockInfo] } blockInfo

/-- The places of the rows without a height. -/
def fetchOrphans (s : Store) : List Nat :=
  (s.blocks.zipIdx.filter fun (blockInfo,_) => blockInfo.height = 0).map Prod.snd

def deleteOrphans (realm : Realm) (s : Store) : Store :=
  { s with blocks := realm.reorder (s.blocks.filter fun blockInfo => blockInfo.height ≠ 0) }

/-- A row is written anew, and the tip with it if it is higher. -/
def update (s : Store) (place : Nat) (blockInfo : BlockInfo) : Store :=
  raiseTip { s with blocks := s.blocks.set place blockInfo } blockInfo

/-- One pass of the loop in `connectOrphans`. -/
def connectOrphan (s : Store) (orphan : Nat) : Store :=
  match s.blocks[orphan]? with
  | none => s
  | some orphanBlk =>
    match s.fetch orphanBlk.previousBlockHash with
    | none => s
    | some previousBlk =>
      if previousBlk.height = 0 then s
      else
        s.update orphan { orphanBlk with height := previousBlk.height + 1 }

def connectOrphans (realm : Realm) (s : Store) : Store :=
  let orphans := s.fetchOrphans
  if 10 < orphans.length then s.deleteOrphans realm else orphans.foldl connectOrphan s

end Store

inductive Operation where
  | add (merkleBlockMsg : MerkleBlock)
  | connectOrphans
  deriving DecidableEq

def Store.perform (realm : Realm) (s : Store) : Operation → Store
  | .add merkleBlockMsg => s.add merkleBlockMsg
  | .connectOrphans => s.connectOrphans realm

/-- A block with a height other than the start has a parent in the store, one lower. -/
def Connected (start : Start) (s : Store) : Prop :=
  ∀ blockInfo ∈ s.blocks, blockInfo.height ≠ 0 → blockInfo ≠ start.row →
    ∃ previousBlk ∈ s.blocks, previousBlk.blockHash = blockInfo.previousBlockHash ∧
      previousBlk.height + 1 = blockInfo.height

/-- The tip is a stored block of the greatest height. -/
def Highest (s : Store) : Prop :=
  (∀ blockInfo ∈ s.blocks, (blockInfo.height : Int) ≤ s.latestBlockHeight) ∧
    ∃ blockInfo ∈ s.blocks, blockInfo.blockHash = s.latestBlockHash ∧
      (blockInfo.height : Int) = s.latestBlockHeight

/-- The blocks with a height hang together from the start on, and the tip is one of them. -/
structure Rooted (start : Start) (s : Store) : Prop where
  connected : ∀ blockInfo ∈ s.blocks, blockInfo.height ≠ 0 → blockInfo ≠ start.row →
    ∃ previousBlk ∈ s.blocks, previousBlk.height ≠ 0 ∧
      previousBlk.blockHash = blockInfo.previousBlockHash ∧
      previousBlk.height + 1 = blockInfo.height
  start_stored : start.row ∈ s.blocks
  tip : ∃ blockInfo ∈ s.blocks, blockInfo.height ≠ 0 ∧ blockInfo.blockHash = s.latestBlockHash ∧
    (blockInfo.height : Int) = s.latestBlockHeight

def Bounded (s : Store) : Prop :=
  ∀ blockInfo ∈ s.blocks, (blockInfo.height : Int) ≤ s.latestBlockHeight

theorem createGenesis_rooted (start : Start) : Rooted start (createGenesis start) where
  connected _ stored _ other := absurd (List.mem_singleton.mp stored) other
  start_stored := List.mem_singleton_self _
  tip := ⟨start.row,List.mem_singleton_self _,start.positive.ne',rfl,rfl⟩

theorem createGenesis_bounded (start : Start) : Bounded (createGenesis start) := by
  intro blockInfo stored
  rw [List.mem_singleton.mp stored]
  exact le_refl _

theorem mem_of_fetch {s : Store} {hash : List Char} {blockInfo : BlockInfo}
    (fetched : s.fetch hash = some blockInfo) :
    blockInfo ∈ s.blocks ∧ blockInfo.blockHash = hash := by
  have found := List.find?_some fetched
  exact ⟨List.mem_of_find?_eq_some fetched,of_decide_eq_true found⟩

/-- A child has no height, or its parent is stored one lower. -/
theorem heightAfter_cases (s : Store) (hash : List Char) :
    s.heightAfter hash = 0 ∨ ∃ previousBlk, s.fetch hash = some previousBlk ∧
      previousBlk.height ≠ 0 ∧ s.heightAfter hash = previousBlk.height + 1 := by
  unfold Store.heightAfter
  split
  · exact Or.inl rfl
  · rename_i previousBlk fetched
    split
    case isTrue => exact Or.inl rfl
    case isFalse known => exact Or.inr ⟨previousBlk,fetched,known,rfl⟩

@[simp] theorem raiseTip_blocks (s : Store) (blockInfo : BlockInfo) :
    (s.raiseTip blockInfo).blocks = s.blocks := by
  unfold Store.raiseTip
  split <;> rfl

@[simp] theorem update_blocks (s : Store) (place : Nat) (blockInfo : BlockInfo) :
    (s.update place blockInfo).blocks = s.blocks.set place blockInfo := raiseTip_blocks _ _

@[simp] theorem raiseTip_height (s : Store) (blockInfo : BlockInfo) :
    (s.raiseTip blockInfo).latestBlockHeight = max s.latestBlockHeight blockInfo.height := by
  unfold Store.raiseTip
  split
  case isTrue higher => exact (max_eq_right higher.le).symm
  case isFalse lower => exact (max_eq_left (not_lt.mp lower)).symm

/-- A tip stays, or the row that is higher becomes it. -/
theorem raiseTip_tip {s : Store} {raised : BlockInfo} (stored : raised ∈ s.blocks)
    (tip : ∃ blockInfo ∈ s.blocks, blockInfo.height ≠ 0 ∧
      blockInfo.blockHash = s.latestBlockHash ∧ (blockInfo.height : Int) = s.latestBlockHeight) :
    ∃ blockInfo ∈ (s.raiseTip raised).blocks, blockInfo.height ≠ 0 ∧
      blockInfo.blockHash = (s.raiseTip raised).latestBlockHash ∧
      (blockInfo.height : Int) = (s.raiseTip raised).latestBlockHeight := by
  unfold Store.raiseTip
  split
  case isTrue higher =>
    obtain ⟨old,_,_,_,height⟩ := tip
    exact ⟨raised,stored,by omega,rfl,rfl⟩
  case isFalse => exact tip

theorem raiseTip_bounded {s : Store} {raised : BlockInfo}
    (others : ∀ blockInfo ∈ s.blocks, blockInfo = raised ∨
      (blockInfo.height : Int) ≤ s.latestBlockHeight) : Bounded (s.raiseTip raised) := by
  intro blockInfo there
  rw [raiseTip_blocks] at there
  rw [raiseTip_height]
  rcases others blockInfo there with rfl | below
  · exact le_max_right _ _
  · exact le_max_of_le_left below

theorem add_blocks (s : Store) (merkleBlockMsg : MerkleBlock) :
    (s.add merkleBlockMsg).blocks = s.blocks ++ [s.create merkleBlockMsg] := raiseTip_blocks _ _

theorem add_rooted {start : Start} {s : Store} (rooted : Rooted start s)
    (merkleBlockMsg : MerkleBlock) : Rooted start (s.add merkleBlockMsg) := by
  have kept : ∀ blockInfo ∈ s.blocks, blockInfo ∈ (s.add merkleBlockMsg).blocks := by
    rw [add_blocks]
    exact fun blockInfo stored => List.mem_append_left _ stored
  constructor
  · intro blockInfo stored known other
    rw [add_blocks] at stored
    rcases List.mem_append.mp stored with old | new
    · obtain ⟨previousBlk,there,parent⟩ := rooted.connected blockInfo old known other
      exact ⟨previousBlk,kept previousBlk there,parent⟩
    · cases List.mem_singleton.mp new
      rcases heightAfter_cases s (toHexString merkleBlockMsg.previousBlockHash.data) with
        none | ⟨previousBlk,fetched,parent,height⟩
      · exact absurd none known
      · obtain ⟨there,hash⟩ := mem_of_fetch fetched
        exact ⟨previousBlk,kept previousBlk there,parent,hash,height.symm⟩
  · exact kept _ rooted.start_stored
  · obtain ⟨tip,there,named⟩ := rooted.tip
    exact raiseTip_tip (List.mem_append_right _ (List.mem_singleton_self _))
      ⟨tip,List.mem_append_left _ there,named⟩

theorem add_bounded {s : Store} (bounded : Bounded s) (merkleBlockMsg : MerkleBlock) :
    Bounded (s.add merkleBlockMsg) := by
  refine raiseTip_bounded ?_
  intro blockInfo stored
  rcases List.mem_append.mp stored with old | new
  · exact Or.inr (bounded blockInfo old)
  · exact Or.inl (List.mem_singleton.mp new)

theorem mem_deleteOrphans {realm : Realm} {s : Store} {blockInfo : BlockInfo} :
    blockInfo ∈ (s.deleteOrphans realm).blocks ↔
      blockInfo ∈ s.blocks ∧ blockInfo.height ≠ 0 := by
  unfold Store.deleteOrphans
  rw [(realm.reorder_perm _).mem_iff, List.mem_filter, decide_eq_true_iff]

theorem deleteOrphans_rooted {start : Start} {s : Store} (realm : Realm)
    (rooted : Rooted start s) : Rooted start (s.deleteOrphans realm) := by
  constructor
  · intro blockInfo there known other
    obtain ⟨previousBlk,stored,parent,link⟩ :=
      rooted.connected blockInfo (mem_deleteOrphans.mp there).1 known other
    exact ⟨previousBlk,mem_deleteOrphans.mpr ⟨stored,parent⟩,parent,link⟩
  · exact mem_deleteOrphans.mpr ⟨rooted.start_stored,start.positive.ne'⟩
  · obtain ⟨tip,stored,known,named⟩ := rooted.tip
    exact ⟨tip,mem_deleteOrphans.mpr ⟨stored,known⟩,known,named⟩

theorem deleteOrphans_bounded {s : Store} (realm : Realm) (bounded : Bounded s) :
    Bounded (s.deleteOrphans realm) :=
  fun blockInfo there => bounded blockInfo (mem_deleteOrphans.mp there).1

/-- A connected orphan gets the height above its parent's; nothing else changes but the tip. -/
theorem connectOrphan_cases (s : Store) (orphan : Nat) :
    s.connectOrphan orphan = s ∨ ∃ orphanBlk previousBlk, s.blocks[orphan]? = some orphanBlk ∧
      s.fetch orphanBlk.previousBlockHash = some previousBlk ∧ previousBlk.height ≠ 0 ∧
      s.connectOrphan orphan =
        s.update orphan { orphanBlk with height := previousBlk.height + 1 } := by
  unfold Store.connectOrphan
  split
  · exact Or.inl rfl
  · rename_i orphanBlk found
    split
    · exact Or.inl rfl
    · rename_i previousBlk fetched
      split
      case isTrue => exact Or.inl rfl
      case isFalse known => exact Or.inr ⟨orphanBlk,previousBlk,found,fetched,known,rfl⟩

theorem connectOrphan_others (s : Store) {orphan i : Nat} (other : orphan ≠ i) :
    (s.connectOrphan orphan).blocks[i]? = s.blocks[i]? := by
  rcases connectOrphan_cases s orphan with same | ⟨_,_,_,_,_,connected⟩
  · rw [same]
  · rw [connected, update_blocks, List.getElem?_set_ne other]

theorem connectOrphan_rooted {start : Start} {s : Store} {orphan : Nat} (rooted : Rooted start s)
    (unknown : s.blocks[orphan]?.map BlockInfo.height = some 0) :
    Rooted start (s.connectOrphan orphan) := by
  rcases connectOrphan_cases s orphan with same | ⟨orphanBlk,previousBlk,found,fetched,parent,step⟩
  · rw [same]
    exact rooted
  · have no_height : orphanBlk.height = 0 := by
      rw [found] at unknown
      exact Option.some_inj.mp unknown
    rw [step]
    generalize row : ({ orphanBlk with height := previousBlk.height + 1 } : BlockInfo) = raised
    have same_parent : orphanBlk.previousBlockHash = raised.previousBlockHash := row ▸ rfl
    have one_more : previousBlk.height + 1 = raised.height := row ▸ rfl
    have kept : ∀ blockInfo ∈ s.blocks, blockInfo.height ≠ 0 →
        blockInfo ∈ s.blocks.set orphan raised := by
      intro blockInfo stored known
      obtain ⟨i,there⟩ := List.mem_iff_getElem?.mp stored
      have other : orphan ≠ i := by
        intro same
        rw [same, there] at found
        cases found
        exact known no_height
      exact List.mem_iff_getElem?.mpr ⟨i,(List.getElem?_set_ne other).trans there⟩
    constructor
    · rw [update_blocks]
      intro blockInfo there known other
      rcases List.mem_or_eq_of_mem_set there with old | rfl
      · obtain ⟨previousBlk,stored,parent,link⟩ := rooted.connected blockInfo old known other
        exact ⟨previousBlk,kept previousBlk stored parent,parent,link⟩
      · obtain ⟨stored,hash⟩ := mem_of_fetch fetched
        exact ⟨previousBlk,kept previousBlk stored parent,parent,hash.trans same_parent,one_more⟩
    · rw [update_blocks]
      exact kept _ rooted.start_stored start.positive.ne'
    · obtain ⟨tip,stored,known,named⟩ := rooted.tip
      have within := (List.getElem?_eq_some_iff.mp found).1
      exact raiseTip_tip (List.mem_set within raised) ⟨tip,kept tip stored known,known,named⟩

theorem connectOrphan_bounded {s : Store} (bounded : Bounded s) (orphan : Nat) :
    Bounded (s.connectOrphan orphan) := by
  rcases connectOrphan_cases s orphan with same | ⟨_,_,_,_,_,step⟩
  · rw [same]
    exact bounded
  · rw [step]
    refine raiseTip_bounded ?_
    intro blockInfo there
    rcases List.mem_or_eq_of_mem_set there with old | new
    · exact Or.inr (bounded blockInfo old)
    · exact Or.inl new

theorem connect_all_rooted {start : Start} {orphans : List Nat} {s : Store}
    (rooted : Rooted start s) (distinct : orphans.Nodup)
    (unknown : ∀ i ∈ orphans, s.blocks[i]?.map BlockInfo.height = some 0) :
    Rooted start (orphans.foldl Store.connectOrphan s) := by
  induction orphans generalizing s with
  | nil => exact rooted
  | cons orphan orphans ih =>
    obtain ⟨fresh,distinct⟩ := List.nodup_cons.mp distinct
    refine ih (connectOrphan_rooted rooted (unknown orphan List.mem_cons_self)) distinct ?_
    intro i later
    have other : orphan ≠ i := by
      intro same
      exact fresh (same ▸ later)
    rw [connectOrphan_others s other]
    exact unknown i (List.mem_cons_of_mem orphan later)

theorem connect_all_bounded {orphans : List Nat} {s : Store} (bounded : Bounded s) :
    Bounded (orphans.foldl Store.connectOrphan s) := by
  induction orphans generalizing s with
  | nil => exact bounded
  | cons orphan orphans ih => exact ih (connectOrphan_bounded bounded orphan)

theorem fetchOrphans_nodup (s : Store) : s.fetchOrphans.Nodup := by
  have among : s.fetchOrphans.Sublist (s.blocks.zipIdx.map Prod.snd) :=
    List.filter_sublist.map Prod.snd
  rw [List.zipIdx_map_snd] at among
  exact among.nodup (List.nodup_range' ..)

theorem fetchOrphans_unknown {s : Store} {i : Nat} (orphan : i ∈ s.fetchOrphans) :
    s.blocks[i]?.map BlockInfo.height = some 0 := by
  obtain ⟨⟨blockInfo,_⟩,found,rfl⟩ := List.mem_map.mp orphan
  obtain ⟨numbered,unknown⟩ := List.mem_filter.mp found
  rw [List.mem_zipIdx_iff_getElem?.mp numbered]
  exact congrArg some (of_decide_eq_true unknown)

theorem connectOrphans_rooted {start : Start} {s : Store} (realm : Realm)
    (rooted : Rooted start s) : Rooted start (s.connectOrphans realm) := by
  unfold Store.connectOrphans
  dsimp only
  split
  case isTrue => exact deleteOrphans_rooted realm rooted
  case isFalse =>
    exact connect_all_rooted rooted (fetchOrphans_nodup s) fun i => fetchOrphans_unknown

theorem connectOrphans_bounded {s : Store} (realm : Realm) (bounded : Bounded s) :
    Bounded (s.connectOrphans realm) := by
  unfold Store.connectOrphans
  dsimp only
  split
  case isTrue => exact deleteOrphans_bounded realm bounded
  case isFalse => exact connect_all_bounded bounded

theorem run_rooted {start : Start} (realm : Realm) {s : Store} (rooted : Rooted start s)
    (bounded : Bounded s) (operations : List Operation) :
    Rooted start (operations.foldl (Store.perform realm) s) ∧
      Bounded (operations.foldl (Store.perform realm) s) := by
  induction operations generalizing s with
  | nil => exact ⟨rooted,bounded⟩
  | cons operation operations ih =>
    cases operation with
    | add merkleBlockMsg =>
      exact ih (add_rooted rooted merkleBlockMsg) (add_bounded bounded merkleBlockMsg)
    | connectOrphans =>
      exact ih (connectOrphans_rooted realm rooted) (connectOrphans_bounded realm bounded)

/-- Whatever arrives in whatever order: heights count from the start, and the tip is the highest
    block. -/
theorem heights_counted (realm : Realm) (start : Start) (operations : List Operation) :
    Connected start (operations.foldl (Store.perform realm) (createGenesis start)) ∧
      Highest (operations.foldl (Store.perform realm) (createGenesis start)) := by
  obtain ⟨rooted,bounded⟩ :=
    run_rooted realm (createGenesis_rooted start) (createGenesis_bounded start) operations
  constructor
  · intro blockInfo stored known other
    obtain ⟨previousBlk,there,_,link⟩ := rooted.connected blockInfo stored known other
    exact ⟨previousBlk,there,link⟩
  · obtain ⟨tip,there,_,named⟩ := rooted.tip
    exact ⟨bounded,tip,there,named⟩

end BlockStore
