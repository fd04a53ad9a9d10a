import Mathlib.Data.List.Nodup
import AltMessenger.BlockStore
import AltMessenger.OrderedArrival

/-!
A chain that extends the start block and arrives in some order. A block gets its height on arrival
if all blocks before it have theirs; the pass over the orphans then goes through the others once
more, in the order of their arrival.
-/
namespace BlockHeights
open BitcoinHash BlockStore OrderedArrival

/-- Each block names the one before it. -/
def Linked : SHA256Hash → List MerkleBlock → Prop
  | _, [] => True
  | hash, b :: blocks => b.previousBlockHash = hash ∧ Linked b.hash blocks

/-- A chain from the start block on. No hash occurs twice in it. -/
structure Chain (start : Start) where
  blocks : List MerkleBlock
  linked : Linked start.hash blocks
  distinct : (start.hash :: blocks.map MerkleBlock.hash).Nodup

def passed (start : Start) (arrivals : List MerkleBlock) : Store :=
  arrivals.foldl Store.add (createGenesis start)

variable {start : Start}

/-- Every block of the chain has its height, and the tip is the last. -/
def Settled (chain : Chain start) (s : Store) : Prop :=
  (∀ (i : Nat) (b : MerkleBlock), chain.blocks[i]? = some b →
    (s.fetch (toHexString b.hash.data)).map BlockInfo.height = some (start.height + 1 + i)) ∧
    s.latestBlockHeight = start.height + chain.blocks.length

/-- Those blocks of the chain that are stored have their heights. -/
def Truthful (chain : Chain start) (s : Store) : Prop :=
  ∀ (i : Nat) (b : MerkleBlock), chain.blocks[i]? = some b → ∀ blockInfo ∈ s.blocks,
    blockInfo.blockHash = toHexString b.hash.data → blockInfo.height = start.height + 1 + i

theorem linked_first {hash : SHA256Hash} {blocks : List MerkleBlock} (linked : Linked hash blocks)
    {b : MerkleBlock} (first : blocks[0]? = some b) : b.previousBlockHash = hash := by
  cases blocks with
  | nil => cases first
  | cons c blocks =>
    cases first
    exact linked.1

theorem linked_next {hash : SHA256Hash} {blocks : List MerkleBlock} (linked : Linked hash blocks)
    {i : Nat} {a b : MerkleBlock} (at_a : blocks[i]? = some a) (at_b : blocks[i + 1]? = some b) :
    b.previousBlockHash = a.hash := by
  induction blocks generalizing hash i with
  | nil => cases at_a
  | cons c blocks ih =>
    cases i with
    | zero =>
      cases at_a
      exact linked_first linked.2 at_b
    | succ i => exact ih linked.2 at_a at_b

theorem hex_injective {a b : SHA256Hash} (same : toHexString a.data = toHexString b.data) :
    a = b := by
  cases a
  cases b
  cases toHexString_injective same
  rfl

namespace Chain
variable (chain : Chain start)

theorem hashes_nodup : (chain.blocks.map MerkleBlock.hash).Nodup :=
  (List.nodup_cons.mp chain.distinct).2

theorem nodup : chain.blocks.Nodup := chain.hashes_nodup.of_map _

theorem idxOf_eq {i : Nat} {b : MerkleBlock} (there : chain.blocks[i]? = some b) :
    chain.blocks.idxOf b = i := by
  obtain ⟨within,rfl⟩ := List.getElem?_eq_some_iff.mp there
  exact chain.nodup.idxOf_getElem i within

theorem same_hash {a b : MerkleBlock} (on_a : a ∈ chain.blocks) (on_b : b ∈ chain.blocks)
    (same : toHexString a.hash.data = toHexString b.hash.data) : a = b :=
  List.inj_on_of_nodup_map chain.hashes_nodup on_a on_b (hex_injective same)

theorem not_start {b : MerkleBlock} (on : b ∈ chain.blocks) :
    toHexString start.hash.data ≠ toHexString b.hash.data := by
  intro same
  have listed := List.mem_map_of_mem (f := MerkleBlock.hash) on
  rw [← hex_injective same] at listed
  exact (List.nodup_cons.mp chain.distinct).1 listed

end Chain

/-- The row of a block when so many blocks of the chain have a height. -/
def row (chain : Chain start) (count : Nat) (b : MerkleBlock) : BlockInfo where
  blockHash := toHexString b.hash.data
  previousBlockHash := toHexString b.previousBlockHash.data
  height := if chain.blocks.idxOf b < count then start.height + 1 + chain.blocks.idxOf b else 0

/-- The store when some blocks arrived and the first of the chain, so many, have a height. -/
structure Stage (chain : Chain start) (arrived : List MerkleBlock) (count : Nat) (s : Store) :
    Prop where
  rows : s.blocks = start.row :: arrived.map (row chain count)
  on_chain : ∀ b ∈ arrived, b ∈ chain.blocks
  distinct : arrived.Nodup
  counted : ∀ (i : Nat) (b : MerkleBlock), chain.blocks[i]? = some b → i < count → b ∈ arrived
  tip : s.latestBlockHeight = start.height + count

theorem createGenesis_stage (chain : Chain start) : Stage chain [] 0 (createGenesis start) where
  rows := rfl
  on_chain := nofun
  distinct := List.nodup_nil
  counted _ _ _ before := absurd before (Nat.not_lt_zero _)
  tip := (Int.add_zero _).symm

section Stages
variable {chain : Chain start} {arrived : List MerkleBlock} {count : Nat} {s : Store}

theorem Stage.row_of_hash (stage : Stage chain arrived count s) {b : MerkleBlock}
    (on : b ∈ chain.blocks) {blockInfo : BlockInfo} (stored : blockInfo ∈ s.blocks)
    (hash : blockInfo.blockHash = toHexString b.hash.data) :
    b ∈ arrived ∧ blockInfo = row chain count b := by
  rw [stage.rows] at stored
  rcases List.mem_cons.mp stored with rfl | listed
  · exact absurd hash (chain.not_start on)
  · obtain ⟨c,there,rfl⟩ := List.mem_map.mp listed
    have same := chain.same_hash (stage.on_chain c there) on hash
    rw [← same]
    exact ⟨there,rfl⟩

theorem Stage.fetch_arrived (stage : Stage chain arrived count s) {b : MerkleBlock}
    (there : b ∈ arrived) : s.fetch (toHexString b.hash.data) = some (row chain count b) := by
  have stored : row chain count b ∈ s.blocks := by
    rw [stage.rows]
    exact List.mem_cons_of_mem _ (List.mem_map_of_mem there)
  cases fetched : s.fetch (toHexString b.hash.data) with
  | none =>
    have missing := List.find?_eq_none.mp fetched _ stored
    exact absurd (decide_eq_true rfl) missing
  | some blockInfo =>
    obtain ⟨found,hash⟩ := mem_of_fetch fetched
    rw [(stage.row_of_hash (stage.on_chain b there) found hash).2]

/-- A block that is not more than one place after the counted ones has a parent with a height. -/
theorem Stage.heightAfter (stage : Stage chain arrived count s) {i : Nat} {b : MerkleBlock}
    (there : chain.blocks[i]? = some b) :
    s.heightAfter (toHexString b.previousBlockHash.data) =
      if i ≤ count then start.height + 1 + i else 0 := by
  cases i with
  | zero =>
    have fetched : s.fetch (toHexString start.hash.data) = some start.row := by
      unfold Store.fetch
      rw [stage.rows]
      exact List.find?_cons_of_pos (decide_eq_true rfl)
    have known : start.row.height ≠ 0 := start.positive.ne'
    rw [linked_first chain.linked there, if_pos (Nat.zero_le count)]
    unfold Store.heightAfter
    rw [fetched]
    exact if_neg known
  | succ j =>
    obtain ⟨a,at_a⟩ : ∃ a, chain.blocks[j]? = some a := by
      have within := (List.getElem?_eq_some_iff.mp there).1
      exact ⟨_,List.getElem?_eq_getElem (Nat.lt_of_succ_lt within)⟩
    have place := chain.idxOf_eq at_a
    rw [linked_next chain.linked at_a there]
    by_cases before : j < count
    · have height : (row chain count a).height = start.height + 1 + j := by
        dsimp only [row]
        rw [place, if_pos before]
      have known : (row chain count a).height ≠ 0 := by omega
      unfold Store.heightAfter
      rw [stage.fetch_arrived (stage.counted j a at_a before), if_pos (Nat.succ_le_of_lt before)]
      dsimp only
      rw [if_neg known, height]
      rfl
    · have unknown : (row chain count a).height = 0 := by
        dsimp only [row]
        rw [place, if_neg before]
      rw [if_neg (show ¬ j + 1 ≤ count by omega)]
      rcases heightAfter_cases s (toHexString a.hash.data) with none | ⟨parent,fetched,known,_⟩
      · exact none
      · obtain ⟨stored,hash⟩ := mem_of_fetch fetched
        rw [(stage.row_of_hash (List.mem_of_getElem? at_a) stored hash).2] at known
        exact absurd unknown known

theorem advance_at {i : Nat} {b : MerkleBlock} (there : chain.blocks[i]? = some b) (count : Nat) :
    advance chain.blocks count b = if i = count then count + 1 else count := by
  split
  case isTrue here =>
    rw [← here]
    exact advance_next there
  case isFalse other =>
    refine advance_other ?_
    intro same
    exact other ((chain.idxOf_eq there).symm.trans (chain.idxOf_eq same))

theorem row_other {b c : MerkleBlock} (on_b : b ∈ chain.blocks) (on_c : c ∈ chain.blocks)
    (other : c ≠ b) (count : Nat) :
    row chain (advance chain.blocks count b) c = row chain count c := by
  obtain ⟨i,at_b⟩ := List.mem_iff_getElem?.mp on_b
  obtain ⟨j,at_c⟩ := List.mem_iff_getElem?.mp on_c
  have different : j ≠ i := by
    intro same
    rw [same, at_b] at at_c
    exact other (Option.some_inj.mp at_c).symm
  have same : j < advance chain.blocks count b ↔ j < count := by
    rw [advance_at at_b]
    split <;> omega
  unfold row
  rw [chain.idxOf_eq at_c]
  simp only [same]

/-- The row that a block gets once its parent's height is looked at. -/
theorem row_visited {i : Nat} {b : MerkleBlock} (there : chain.blocks[i]? = some b)
    (next : i ≤ count) :
    (row chain (advance chain.blocks count b) b).height = start.height + 1 + i := by
  have within : i < advance chain.blocks count b := by
    rw [advance_at there]
    split <;> omega
  unfold row
  dsimp only
  rw [chain.idxOf_eq there, if_pos within]

/-- The blocks counted once a block has come are those counted before, and perhaps that one. -/
theorem Stage.counted_after (stage : Stage chain arrived count s) {arrived' : List MerkleBlock}
    {b : MerkleBlock} (on : b ∈ chain.blocks) (come : b ∈ arrived')
    (kept : ∀ c ∈ arrived, c ∈ arrived') {j : Nat} {c : MerkleBlock}
    (at_c : chain.blocks[j]? = some c) (before : j < advance chain.blocks count b) :
    c ∈ arrived' := by
  obtain ⟨i,there⟩ := List.mem_iff_getElem?.mp on
  rw [advance_at there] at before
  by_cases last : j = i
  · rw [last, there] at at_c
    cases at_c
    exact come
  · refine kept c (stage.counted j c at_c ?_)
    split at before <;> omega

/-- Where the row of one block is visited, the rows are those of the new count. -/
theorem Stage.rows_visited (stage : Stage chain arrived count s) {k : Nat} {b : MerkleBlock}
    (listed : arrived[k]? = some b) :
    (arrived.map (row chain count)).set k (row chain (advance chain.blocks count b) b) =
      arrived.map (row chain (advance chain.blocks count b)) := by
  have on := stage.on_chain b (List.mem_of_getElem? listed)
  have within := (List.getElem?_eq_some_iff.mp listed).1
  refine List.ext_getElem? ?_
  intro m
  by_cases here : k = m
  · rw [← here, List.getElem?_map, listed, List.getElem?_set_self]
    · rfl
    · rw [List.length_map]
      exact within
  · rw [List.getElem?_set_ne here, List.getElem?_map, List.getElem?_map]
    cases at_c : arrived[m]? with
    | none => rfl
    | some c =>
      have other : c ≠ b := by
        intro same
        rw [same] at at_c
        exact here ((List.getElem?_inj within stage.distinct).mp (listed.trans at_c.symm))
      have on_c := stage.on_chain c (List.mem_of_getElem? at_c)
      exact congrArg some (row_other on on_c other count).symm

theorem Stage.add (stage : Stage chain arrived count s) {b : MerkleBlock} (on : b ∈ chain.blocks)
    (new : b ∉ arrived) :
    Stage chain (arrived ++ [b]) (advance chain.blocks count b) (s.add b) := by
  obtain ⟨i,there⟩ := List.mem_iff_getElem?.mp on
  have late : ¬ i < count := fun before => new (stage.counted i b there before)
  have height := stage.heightAfter there
  have created : s.create b = row chain (advance chain.blocks count b) b := by
    unfold Store.create row
    rw [height, advance_at there, chain.idxOf_eq there]
    by_cases next : i = count
    · rw [if_pos next, if_pos next.le, if_pos (by omega)]
    · rw [if_neg next, if_neg (by omega), if_neg late]
  constructor
  · have others : arrived.map (row chain (advance chain.blocks count b)) =
        arrived.map (row chain count) := by
      refine List.map_congr_left ?_
      intro c listed
      have other : c ≠ b := fun same => new (same ▸ listed)
      exact row_other on (stage.on_chain c listed) other count
    unfold Store.add
    rw [raiseTip_blocks, created, List.map_append, others]
    dsimp only
    rw [stage.rows]
    rfl
  · intro c listed
    rcases List.mem_append.mp listed with old | last
    · exact stage.on_chain c old
    · rw [List.mem_singleton.mp last]
      exact on
  · rw [List.nodup_append]
    refine ⟨stage.distinct,List.nodup_singleton b,?_⟩
    intro c old d last same
    rw [same, List.mem_singleton.mp last] at old
    exact new old
  · intro j c
    exact stage.counted_after on (List.mem_append_right _ (List.mem_singleton_self b))
      fun c => List.mem_append_left [b]
  · unfold Store.add
    rw [raiseTip_height]
    have tip := stage.tip
    change max s.latestBlockHeight ((s.heightAfter (toHexString b.previousBlockHash.data) : Nat) :
      Int) = _
    rw [height, advance_at there, tip]
    split <;> split <;> omega

theorem connectOrphan_eq {s : Store} {place height : Nat} {orphanBlk : BlockInfo}
    (found : s.blocks[place]? = some orphanBlk)
    (next : s.heightAfter orphanBlk.previousBlockHash = height) :
    s.connectOrphan place =
      if height = 0 then s else s.update place { orphanBlk with height } := by
  rw [← next]
  unfold Store.connectOrphan Store.heightAfter
  rw [found]
  dsimp only
  split
  · rfl
  · split
    · rfl
    · rfl

theorem Stage.connect (stage : Stage chain arrived count s) {k : Nat} {b : MerkleBlock}
    (listed : arrived[k]? = some b) :
    Stage chain arrived (advance chain.blocks count b) (s.connectOrphan (k + 1)) := by
  have on := stage.on_chain b (List.mem_of_getElem? listed)
  obtain ⟨i,there⟩ := List.mem_iff_getElem?.mp on
  have found : s.blocks[k + 1]? = some (row chain count b) := by
    rw [stage.rows, List.getElem?_cons_succ, List.getElem?_map, listed]
    rfl
  have height := stage.heightAfter there
  have tip := stage.tip
  by_cases next : i ≤ count
  · rw [if_pos next] at height
    have visited := row_visited there next
    have changed : ({ row chain count b with height := start.height + 1 + i } : BlockInfo) =
        row chain (advance chain.blocks count b) b := by
      rw [← visited]
      rfl
    have step : s.connectOrphan (k + 1) =
        s.update (k + 1) (row chain (advance chain.blocks count b) b) := by
      rw [connectOrphan_eq found height, if_neg (by omega), ← changed]
    rw [step]
    constructor
    · rw [update_blocks, stage.rows, List.set_cons_succ, stage.rows_visited listed]
    · exact stage.on_chain
    · exact stage.distinct
    · intro j c
      exact stage.counted_after on (List.mem_of_getElem? listed) fun c there => there
    · unfold Store.update
      rw [raiseTip_height, visited, advance_at there]
      change max s.latestBlockHeight _ = _
      rw [tip]
      split <;> omega
  · have skipped : advance chain.blocks count b = count := by
      rw [advance_at there, if_neg (by omega)]
    rw [if_neg next] at height
    rw [skipped, connectOrphan_eq found height, if_pos rfl]
    exact stage

theorem Stage.add_all (stage : Stage chain arrived count s) {arrivals : List MerkleBlock}
    (on : ∀ b ∈ arrivals, b ∈ chain.blocks) (distinct : (arrived ++ arrivals).Nodup) :
    Stage chain (arrived ++ arrivals) (placed chain.blocks count arrivals)
      (arrivals.foldl Store.add s) := by
  induction arrivals generalizing arrived count s with
  | nil =>
    rw [List.append_nil]
    exact stage
  | cons b arrivals ih =>
    have new : b ∉ arrived := by
      intro old
      exact (List.nodup_append.mp distinct).2.2 b old b List.mem_cons_self rfl
    rw [List.append_cons] at distinct ⊢
    exact ih (stage.add (on b List.mem_cons_self) new)
      (fun c later => on c (List.mem_cons_of_mem b later)) distinct

theorem passed_stage (chain : Chain start) {arrivals : List MerkleBlock}
    (perm : arrivals.Perm chain.blocks) :
    Stage chain arrivals (placed chain.blocks 0 arrivals) (passed start arrivals) :=
  (createGenesis_stage chain).add_all (fun _ listed => perm.mem_iff.mp listed)
    (perm.nodup_iff.mpr chain.nodup)

/-- The orphans with their places in the table, in the order of their arrival. -/
def orphans (chain : Chain start) (arrived : List MerkleBlock) (count : Nat) :
    List (MerkleBlock × Nat) :=
  (arrived.zipIdx 1).filter fun (b,_) => count ≤ chain.blocks.idxOf b

theorem Stage.fetchOrphans (stage : Stage chain arrived count s) :
    s.fetchOrphans = (orphans chain arrived count).map Prod.snd := by
  have known : start.row.height ≠ 0 := start.positive.ne'
  have unknown : ∀ b, (row chain count b).height = 0 ↔ count ≤ chain.blocks.idxOf b := by
    intro b
    dsimp only [row]
    split <;> omega
  unfold Store.fetchOrphans orphans
  rw [stage.rows, List.zipIdx_cons, List.filter_cons_of_neg (by simpa using known),
    List.zipIdx_map, List.filter_map, List.map_map]
  have same : (fun pair : MerkleBlock × Nat => decide ((row chain count pair.1).height = 0)) =
      fun pair => decide (count ≤ chain.blocks.idxOf pair.1) := by
    funext pair
    exact decide_eq_decide.mpr (unknown pair.1)
  exact congrArg (fun test => ((arrived.zipIdx 1).filter test).map Prod.snd) same

theorem orphans_blocks (chain : Chain start) (arrived : List MerkleBlock) (count : Nat) :
    (orphans chain arrived count).map Prod.fst =
      arrived.filter fun b => count ≤ chain.blocks.idxOf b := by
  have blocks : (arrived.zipIdx 1).map Prod.fst = arrived := List.zipIdx_map_fst ..
  conv => rhs; rw [← blocks, List.filter_map]
  rfl

theorem Stage.connect_all (stage : Stage chain arrived count s)
    {pairs : List (MerkleBlock × Nat)} (listed : ∀ pair ∈ pairs, pair ∈ arrived.zipIdx 1) :
    Stage chain arrived (placed chain.blocks count (pairs.map Prod.fst))
      ((pairs.map Prod.snd).foldl Store.connectOrphan s) := by
  induction pairs generalizing count s with
  | nil => exact stage
  | cons pair pairs ih =>
    obtain ⟨b,place⟩ := pair
    obtain ⟨after,there⟩ := List.mk_mem_zipIdx_iff_le_and_getElem?_sub.mp
      (listed (b,place) List.mem_cons_self)
    have step := stage.connect there
    rw [Nat.sub_add_cancel after] at step
    exact ih step fun pair later => listed pair (List.mem_cons_of_mem _ later)

/-- The blocks of the chain that are not among the counted ones. -/
theorem filter_drop (chain : Chain start) (count : Nat) :
    (chain.blocks.filter fun b => count ≤ chain.blocks.idxOf b) = chain.blocks.drop count := by
  have front : (chain.blocks.take count).filter (fun b => count ≤ chain.blocks.idxOf b) = [] := by
    refine List.filter_eq_nil_iff.mpr ?_
    intro b listed
    obtain ⟨i,there⟩ := List.mem_iff_getElem?.mp listed
    rw [List.getElem?_take] at there
    split at there
    · rw [chain.idxOf_eq there, decide_eq_true_iff]
      omega
    · cases there
  have back : (chain.blocks.drop count).filter (fun b => count ≤ chain.blocks.idxOf b) =
      chain.blocks.drop count := by
    refine List.filter_eq_self.mpr ?_
    intro b listed
    obtain ⟨i,there⟩ := List.mem_iff_getElem?.mp listed
    rw [List.getElem?_drop] at there
    rw [chain.idxOf_eq there, decide_eq_true_iff]
    omega
  calc chain.blocks.filter (fun b => count ≤ chain.blocks.idxOf b)
      = (chain.blocks.take count ++ chain.blocks.drop count).filter
          (fun b => count ≤ chain.blocks.idxOf b) := by rw [List.take_append_drop]
    _ = chain.blocks.drop count := by rw [List.filter_append, front, back, List.nil_append]

theorem Stage.settled (stage : Stage chain arrived chain.blocks.length s) : Settled chain s := by
  refine ⟨?_,stage.tip⟩
  intro i b there
  have within := (List.getElem?_eq_some_iff.mp there).1
  rw [stage.fetch_arrived (stage.counted i b there within), Option.map_some]
  unfold row
  rw [chain.idxOf_eq there, if_pos within]

theorem Stage.truthful_of_delete (stage : Stage chain arrived count s) (realm : Realm) :
    Truthful chain (s.deleteOrphans realm) := by
  intro i b there blockInfo stored hash
  unfold Store.deleteOrphans at stored
  obtain ⟨old,known⟩ := List.mem_filter.mp ((realm.reorder_perm _).mem_iff.mp stored)
  have same := (stage.row_of_hash (List.mem_of_getElem? there) old hash).2
  have known := of_decide_eq_true known
  rw [same] at known ⊢
  unfold row at known ⊢
  rw [chain.idxOf_eq there] at known ⊢
  dsimp only at known ⊢
  split at known
  case isTrue counted => rw [if_pos counted]
  case isFalse => exact absurd rfl known

end Stages

section Passed
variable (chain : Chain start) {arrivals : List MerkleBlock}

theorem passed_orphans (perm : arrivals.Perm chain.blocks) :
    (passed start arrivals).fetchOrphans.length =
      chain.blocks.length - placed chain.blocks 0 arrivals := by
  have blocks := congrArg List.length
    (orphans_blocks chain arrivals (placed chain.blocks 0 arrivals))
  rw [List.length_map, (perm.filter _).length_eq, filter_drop, List.length_drop] at blocks
  rw [(passed_stage chain perm).fetchOrphans, List.length_map]
  exact blocks

/-- All blocks get their heights if the chain has two parts that arrive in its order, the second
    short enough. -/
theorem settled_of_parts (realm : Realm) (perm : arrivals.Perm chain.blocks)
    {first second : List MerkleBlock} (parts : chain.blocks = first ++ second)
    (first_ordered : first.Sublist arrivals) (second_ordered : second.Sublist arrivals)
    (short : second.length ≤ 10) :
    Settled chain ((passed start arrivals).connectOrphans realm) := by
  have counted : 0 + first.length ≤ placed chain.blocks 0 arrivals :=
    placed_part first_ordered ⟨second,parts.symm⟩
  have within : placed chain.blocks 0 arrivals ≤ chain.blocks.length :=
    placed_le (Nat.zero_le _) arrivals
  have count := passed_orphans chain perm
  have total : chain.blocks.length = first.length + second.length := by
    rw [parts, List.length_append]
  have stage := passed_stage chain perm
  generalize placed chain.blocks 0 arrivals = n at counted within count stage
  have rest : (chain.blocks.drop n).Sublist second := by
    rw [parts, List.drop_append]
    have past : first.drop n = [] := List.drop_eq_nil_iff.mpr (by omega)
    rw [past, List.nil_append]
    exact List.drop_sublist _ _
  have again : (chain.blocks.drop n).Sublist
      (arrivals.filter fun b => n ≤ chain.blocks.idxOf b) := by
    have kept := (rest.trans second_ordered).filter fun b => n ≤ chain.blocks.idxOf b
    rw [← filter_drop chain n, List.filter_filter] at kept
    simp only [Bool.and_self, filter_drop] at kept
    exact kept
  have listed : ∀ pair ∈ orphans chain arrivals n, pair ∈ arrivals.zipIdx 1 :=
    fun pair among => (List.mem_filter.mp among).1
  have finished := stage.connect_all listed
  rw [orphans_blocks, placed_rest within again, ← stage.fetchOrphans] at finished
  unfold Store.connectOrphans
  dsimp only
  rw [if_neg (by omega)]
  exact finished.settled

end Passed

def sampleHash (b : UInt8) : SHA256Hash := ⟨b :: List.replicate 31 0,by simp⟩

def sampleStart : Start := ⟨sampleHash 1,7,by decide⟩

def threeBlocks : Chain sampleStart where
  blocks := [⟨sampleHash 2,sampleHash 1⟩,⟨sampleHash 3,sampleHash 2⟩,⟨sampleHash 4,sampleHash 3⟩]
  linked := ⟨rfl,rfl,rfl,trivial⟩
  distinct := by decide

/-- The last two blocks arrive before the first. -/
def lastTwoFirst : List MerkleBlock :=
  [⟨sampleHash 3,sampleHash 2⟩,⟨sampleHash 4,sampleHash 3⟩,⟨sampleHash 2,sampleHash 1⟩]

end BlockHeights
