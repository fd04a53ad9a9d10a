import AltMessenger.BRPeerManagers
import AltMessenger.BRWalletRuns

/-!
The blocks that the core keeps. They are a part of the tree that their hashes name, each at its
height in it, and behind a checkpoint, or a block that was loaded, each was verified.
-/
namespace BRPeerManagerChains
open LinearProbing BRSets WalletDatabase BRMerkleBlocks BRTransactions BRWallets BRWalletOperations
open KeptForests BRPeerManagers

/-- What the hashes of blocks name: the header that is hashed, where it is in the tree, and the
    transactions of the block -/
structure BlockTree where
  prev : UInt256 → UInt256
  height : UInt256 → Nat
  time : UInt256 → UInt32
  target : UInt256 → UInt32
  holds : UInt256 → UInt256 → Prop

namespace BlockTree
variable (T : BlockTree)

def header (hash : UInt256) : BRMerkleBlock :=
  { named hash with
    prevBlock := T.prev hash
    timestamp := T.time hash
    target := T.target hash
    height := UInt32.ofNat (T.height hash) }

/-- The checkpoints are blocks of the tree. -/
def Checkpointed : Prop := ∀ c ∈ checkpoint_array,
  T.height c.hash = c.height.toNat ∧ T.time c.hash = c.timestamp ∧ T.target c.hash = c.target

/-- A block is the one that its hash names. -/
structure Genuine (block : BRMerkleBlock) : Prop where
  hashed : block.blockHash ≠ 0
  prev : T.prev block.blockHash = block.prevBlock
  time : T.time block.blockHash = block.timestamp
  target : T.target block.blockHash = block.target
  rises : T.height block.blockHash = T.height block.prevBlock + 1
  low : T.height block.blockHash < BLOCK_UNKNOWN_HEIGHT.toNat
  reports : ∃ txHashes, BRMerkleBlockTxHashes block = some txHashes ∧
    ∀ txHash ∈ txHashes, T.holds block.blockHash txHash

/-- A block may come behind the one before it: its work is what the rules ask for, and it is no
    other block than a checkpoint at the same height. -/
structure Rule (hash : UInt256) : Prop where
  work : BRMerkleBlockVerifyDifficulty (T.header hash) (T.header (T.prev hash))
    (T.time (T.prev^[BLOCK_DIFFICULTY_INTERVAL.toNat] hash)) = true
  checkpoint : ∀ c ∈ checkpoint_array, c.height.toNat = T.height hash → c.hash = hash

/-- A start, or a block behind blocks that all keep to the rules, from a start on -/
inductive Accepted (start : UInt256 → Prop) : UInt256 → Prop where
  | start {hash : UInt256} : start hash → Accepted start hash
  | next {hash : UInt256} : Accepted start (T.prev hash) → Rule T hash → Accepted start hash

/-- A checkpoint, or a block that its hash names -/
def Real (block : BRMerkleBlock) : Prop :=
  (∃ c ∈ checkpoint_array, block = checkpointBlock c) ∨ T.Genuine block

/-- Such a block at its height -/
structure Known (block : BRMerkleBlock) : Prop where
  real : T.Real block
  height : heightOf block = T.height block.blockHash

end BlockTree

theorem checkpoints_good : ∀ c ∈ checkpoint_array,
    c.hash ≠ 0 ∧ c.height % BLOCK_DIFFICULTY_INTERVAL = 0 ∧
      c.height.toNat < BLOCK_UNKNOWN_HEIGHT.toNat := by decide

theorem checkpoint_heights : checkpoint_array.Pairwise fun c d => c.height ≠ d.height := by decide

theorem checkpoint_hashes : checkpoint_array.Pairwise fun c d => c.hash ≠ d.hash := by decide

section Hashes
variable {block : BRMerkleBlock}

theorem txHashesR_congr {other : BRMerkleBlock} (hashes : other.hashes = block.hashes)
    (hashesCount : other.hashesCount = block.hashesCount) (flags : other.flags = block.flags)
    (flagsLen : other.flagsLen = block.flagsLen) (height : Nat) (txHashes : List UInt256)
    (progress : Progress) :
    txHashesR other height txHashes progress = txHashesR block height txHashes progress := by
  have flag : flagAt other = flagAt block := by
    funext flagIdx
    rw [flagAt, flagAt, flags]
  have more : ∀ progress, More other progress ↔ More block progress := fun progress => by
    rw [More, More, flagsLen, hashesCount]
  induction height generalizing txHashes progress with
  | zero =>
    rw [txHashesR, txHashesR, flag, hashes]
    simp only [more]
  | succ height ih =>
    rw [txHashesR, txHashesR, flag]
    simp only [more, ih]

/-- What a block reports is the same at all heights. -/
theorem txHashes_height (block : BRMerkleBlock) (height : UInt32) :
    BRMerkleBlockTxHashes { block with height } = BRMerkleBlockTxHashes block := by
  have same := @txHashesR_congr block { block with height } rfl rfl rfl rfl
  unfold BRMerkleBlockTxHashes
  simp only [same]
  rfl

/-- What is only the header of a block reports nothing. -/
theorem checkpoint_reports (c : Checkpoint) :
    BRMerkleBlockTxHashes (checkpointBlock c) = some [] := by
  have none_more : ¬ More (checkpointBlock c) ⟨0,0⟩ := fun more => Nat.not_lt_zero _ more.1
  rw [BRMerkleBlockTxHashes, rootHeight, if_neg fun more => none_more more.1]
  simp only [Option.bind_eq_bind, Option.bind_some]
  rw [txHashesR, if_neg none_more]
  rfl

end Hashes

section Finding
variable {T : BlockTree} {blocks : List BRMerkleBlock} {block b p : BRMerkleBlock}
  {hash : UInt256}

theorem found_iff (once : blocks.Pairwise fun x y => byHash.eq x y = false) :
    lookup byHash blocks (named hash) = some b ↔ b ∈ blocks ∧ b.blockHash = hash := by
  rw [lookup_some once]
  exact and_congr_right fun _ => beq_iff_eq

theorem found_mem (found : lookup byHash blocks (named hash) = some b) :
    b ∈ blocks ∧ b.blockHash = hash :=
  ⟨List.mem_of_find?_eq_some found,beq_iff_eq.mp (List.find?_eq_some_iff_append.mp found).1⟩

theorem eq_of_hash (once : blocks.Pairwise fun x y => byHash.eq x y = false) (one : b ∈ blocks)
    (other : p ∈ blocks) (same : b.blockHash = p.blockHash) : b = p :=
  Option.some.inj (((found_iff once).mpr ⟨one,same⟩).symm.trans
    ((found_iff once).mpr ⟨other,rfl⟩))

theorem previous_mem (found : previous blocks block = some p) :
    p ∈ blocks ∧ p.blockHash = block.prevBlock := found_mem found

theorem BlockTree.Real.hashed (real : T.Real block) : block.blockHash ≠ 0 := by
  rcases real with ⟨c,there,rfl⟩ | genuine
  · exact (checkpoints_good c there).1
  · exact genuine.hashed

/-- A block that is behind another is no checkpoint of the list. -/
theorem genuine_of_previous (known : ∀ b ∈ blocks, T.Known b) (real : T.Real block)
    (found : previous blocks block = some p) : T.Genuine block := by
  rcases real with ⟨c,there,rfl⟩ | genuine
  · obtain ⟨inside,hash⟩ := previous_mem found
    exact absurd hash (known p inside).real.hashed
  · exact genuine

/-- The blocks that are kept go down by one. -/
theorem forest_of_known (known : ∀ b ∈ blocks, T.Known b) :
    Forest (previous blocks) heightOf T.Known where
  closed _ next := known _ (previous_mem next).1
  falls here next := by
    obtain ⟨inside,hash⟩ := previous_mem next
    rw [here.height, (known _ inside).height, hash]
    exact (genuine_of_previous known here.real next).rises

/-- An ancestor that is kept is the one of the tree. -/
theorem ancestor_hash (known : ∀ b ∈ blocks, T.Known b) {n : Nat} (real : T.Real block)
    (found : ancestor (previous blocks) n block = some b) :
    b.blockHash = T.prev^[n] block.blockHash := by
  induction n generalizing block with
  | zero =>
    cases found
    rfl
  | succ n ih =>
    obtain ⟨p,next,found⟩ := Option.bind_eq_some_iff.mp found
    obtain ⟨inside,hash⟩ := previous_mem next
    rw [Function.iterate_succ_apply, (genuine_of_previous known real next).prev, ← hash]
    exact ih (known p inside).real found

theorem BlockTree.Known.header (known : T.Known block) (checkpointed : T.Checkpointed) :
    block.timestamp = T.time block.blockHash ∧ block.target = T.target block.blockHash := by
  rcases known.real with ⟨c,there,rfl⟩ | genuine
  · obtain ⟨-,time,target⟩ := checkpointed c there
    exact ⟨time.symm,target.symm⟩
  · exact ⟨genuine.time.symm,genuine.target.symm⟩

end Finding

section Verifying
variable {T : BlockTree} {manager : BRPeerManager} {blocks : List BRMerkleBlock}
  {block prev b : BRMerkleBlock}

/-- What is freed is below, and not at a transition. -/
theorem freeBehind_spec {fuel : Nat} {prevBlock : UInt256} (known : ∀ b ∈ blocks, T.Known b)
    (some_left : 0 < fuel)
    (enough : ∀ b, lookup byHash blocks (named prevBlock) = some b → heightOf b + 1 < fuel) :
    ∃ after, freeBehind fuel blocks prevBlock = some after ∧ after.Sublist blocks ∧
      ∀ x ∈ blocks, x ∉ after →
        x.height % BLOCK_DIFFICULTY_INTERVAL ≠ 0 ∧ heightOf x + 1 < fuel := by
  induction fuel generalizing blocks prevBlock with
  | zero => omega
  | succ fuel ih =>
    rw [freeBehind]
    cases found : lookup byHash blocks (named prevBlock) with
    | none => exact ⟨blocks,rfl,.refl _,fun x there gone => absurd there gone⟩
    | some b =>
      have less := enough b found
      obtain ⟨inside,-⟩ := found_mem found
      have forest := forest_of_known known
      dsimp only
      set left := if b.height % BLOCK_DIFFICULTY_INTERVAL ≠ 0 then remove byHash blocks b
        else blocks with of_left
      have fewer : left.Sublist blocks := by
        rw [of_left]
        split
        · exact List.filter_sublist
        · exact .refl _
      obtain ⟨after,freed,sub,gone⟩ := ih (fun x there => known x (fewer.subset there))
        (by omega) fun p next => by
          have here := known p (fewer.subset (found_mem next).1)
          have rises := genuine_of_previous (fun x there => known x (fewer.subset there))
            (known b inside).real next
          have step := rises.rises
          rw [← (known b inside).height, ← (found_mem next).2, ← here.height] at step
          omega
      refine ⟨after,freed,sub.trans fewer,fun x there missing => ?_⟩
      by_cases kept : x ∈ left
      · obtain ⟨odd,below⟩ := gone x kept missing
        exact ⟨odd,by omega⟩
      · rw [of_left] at kept
        split at kept
        case isTrue odd =>
          have same : x.blockHash = b.blockHash := by
            by_contra other
            exact kept (mem_remove.mpr ⟨there,beq_false_of_ne other⟩)
          have level : heightOf x = heightOf b := by
            rw [(known x there).height, (known b inside).height, same]
          rw [show x.height = b.height from UInt32.toNat_inj.mp level, level]
          exact ⟨odd,less⟩
        case isFalse => exact absurd there kept

theorem verifyDifficulty_congr {other otherPrev : BRMerkleBlock} {time otherTime : UInt32}
    (prevBlock : other.prevBlock = block.prevBlock) (height : other.height = block.height)
    (target : other.target = block.target) (hash : otherPrev.blockHash = prev.blockHash)
    (prevHeight : otherPrev.height = prev.height) (stamp : otherPrev.timestamp = prev.timestamp)
    (prevTarget : otherPrev.target = prev.target)
    (times : block.height % BLOCK_DIFFICULTY_INTERVAL = 0 → otherTime = time) :
    BRMerkleBlockVerifyDifficulty other otherPrev otherTime =
      BRMerkleBlockVerifyDifficulty block prev time := by
  unfold BRMerkleBlockVerifyDifficulty transitionTarget
  rw [prevBlock, height, target, hash, prevHeight, stamp, prevTarget]
  split
  case isTrue transition => rw [times transition]
  case isFalse => rfl

theorem checkpoints_apart : (checkpoint_array.map checkpointBlock).Pairwise
    fun x y => byHeight.eq x y = false :=
  List.pairwise_map.mpr (checkpoint_heights.imp fun other => beq_false_of_ne other)

theorem checkpoint_found {c : Checkpoint} (there : c ∈ checkpoint_array)
    (same : c.height = block.height) :
    lookup byHeight ((checkpoint_array.map checkpointBlock).foldl (insert byHeight) []) block =
      some (checkpointBlock c) := by
  rw [lookup_inserted checkpoints_apart, (lookup_some checkpoints_apart).mpr
    ⟨List.mem_map_of_mem there,beq_iff_eq.mpr same⟩]
  rfl

/-- What verified blocks are -/
theorem rule_of_verified (checkpointed : T.Checkpointed) (genuine : T.Genuine block)
    (height : heightOf block = T.height block.blockHash) (known : T.Known prev)
    (behind : prev.blockHash = block.prevBlock) {time : UInt32}
    (times : block.height % BLOCK_DIFFICULTY_INTERVAL = 0 →
      T.time (T.prev^[BLOCK_DIFFICULTY_INTERVAL.toNat] block.blockHash) = time)
    (work : BRMerkleBlockVerifyDifficulty block prev time = true)
    (agrees : ((lookup byHeight
      ((checkpoint_array.map checkpointBlock).foldl (insert byHeight) []) block).all
        fun checkpoint => block.blockHash == checkpoint.blockHash) = true) :
    T.Rule block.blockHash := by
  have at_height : ∀ x : BRMerkleBlock, heightOf x = T.height x.blockHash →
      (T.header x.blockHash).height = x.height := fun x same => by
    change UInt32.ofNat (T.height x.blockHash) = _
    rw [← same]
    exact UInt32.ofNat_toNat
  constructor
  · rw [genuine.prev, ← behind, ← work]
    refine verifyDifficulty_congr genuine.prev (at_height block height) genuine.target rfl
      (at_height prev known.height) (known.header checkpointed).1.symm
      (known.header checkpointed).2.symm times
  · intro c there same
    rw [← height] at same
    rw [checkpoint_found there (UInt32.toNat_inj.mp same)] at agrees
    exact (beq_iff_eq.mp agrees).symm

/-- A block is verified only if it keeps to the rules; and what is freed is far below it. -/
theorem verify_spec (checkpointed : T.Checkpointed) (known : ∀ b ∈ manager.blocks, T.Known b)
    (checkpoints : manager.checkpoints =
      (checkpoint_array.map checkpointBlock).foldl (insert byHeight) [])
    (genuine : T.Genuine block) (height : heightOf block = T.height block.blockHash)
    (found : previous manager.blocks block = some prev) :
    ∃ verified after, BRPeerManagerVerifyBlock manager block prev = some (verified,after) ∧
      after.Sublist manager.blocks ∧
      (∀ x ∈ manager.blocks, x ∉ after →
        x.height % BLOCK_DIFFICULTY_INTERVAL ≠ 0 ∧
          heightOf x + BLOCK_DIFFICULTY_INTERVAL.toNat < heightOf block ∧
            (previous manager.blocks prev).isSome) ∧
      (verified = true → T.Rule block.blockHash) := by
  obtain ⟨inside,behind⟩ := previous_mem found
  have forest := forest_of_known known
  unfold BRPeerManagerVerifyBlock
  dsimp only
  rw [checkpoints]
  split
  case isTrue transition =>
    cases back : ancestor (previous manager.blocks) BLOCK_DIFFICULTY_INTERVAL.toNat block with
    | none => exact ⟨false,manager.blocks,rfl,.refl _,fun x there gone => absurd there gone,nofun⟩
    | some b =>
      have real : T.Known block := ⟨.inr genuine,height⟩
      have hash := ancestor_hash known real.real back
      have level := forest.ancestor_height real back
      have known_b := (forest.reaches real (ancestor_reaches back)).1
      obtain ⟨after,freed,sub,gone⟩ := @freeBehind_spec T manager.blocks (heightOf b + 1)
        b.prevBlock known (by omega) fun p next => by
          have step := forest.falls known_b next
          omega
      simp only [freed, Option.bind_eq_bind, Option.bind_some]
      refine ⟨_,after,rfl,sub,fun x there missing => ?_,fun both => ?_⟩
      · obtain ⟨odd,below⟩ := gone x there missing
        refine ⟨odd,by omega,?_⟩
        obtain ⟨first,next,back⟩ := Option.bind_eq_some_iff.mp back
        cases found.symm.trans next
        obtain ⟨second,next,-⟩ := Option.bind_eq_some_iff.mp back
        rw [next]
        rfl
      · obtain ⟨work,agrees⟩ := Bool.and_eq_true_iff.mp both
        refine rule_of_verified checkpointed genuine height (known prev inside) behind
          (fun _ => ?_) work agrees
        rw [← hash]
        exact (known_b.header checkpointed).1.symm
  case isFalse other =>
    refine ⟨_,manager.blocks,rfl,.refl _,fun x there gone => absurd there gone,fun both => ?_⟩
    obtain ⟨work,agrees⟩ := Bool.and_eq_true_iff.mp both
    exact rule_of_verified checkpointed genuine height (known prev inside) behind
      (fun transition => absurd transition other) work agrees

end Verifying

/-- What stands for a block that is only known as a checkpoint -/
def Stub (block : BRMerkleBlock) : Prop := ∃ c ∈ checkpoint_array, block = checkpointBlock c

/-- The height of the last checkpoint -/
def lastCheckpoint : Nat := (checkpoint_array.getLast some_checkpoint).height.toNat

/-- What the manager keeps. There is a block for each checkpoint. The chain was followed from a
    height on, which its floor is; up to the last checkpoint there are no forks. -/
structure Chained (T : BlockTree) (start : UInt256 → Prop) (floor : Nat)
    (manager : BRPeerManager) : Prop where
  once : manager.blocks.Pairwise fun x y => byHash.eq x y = false
  known : ∀ b ∈ manager.blocks, T.Known b
  accepted : ∀ b ∈ manager.blocks, T.Accepted start b.blockHash
  stands : ∀ c ∈ checkpoint_array, ∃ b ∈ manager.blocks, b.blockHash = c.hash
  stubs : ∀ b ∈ manager.blocks, Stub b →
    heightOf b ≤ floor ∨ heightOf manager.lastBlock < heightOf b
  followed : ∀ b ∈ manager.blocks, ¬ Stub b →
    heightOf b ≤ heightOf manager.lastBlock ∧ (heightOf b ≤ lastCheckpoint → floor ≤ heightOf b)
  single : ∀ b ∈ manager.blocks, ∀ b' ∈ manager.blocks, ¬ Stub b → ¬ Stub b' →
    heightOf b = heightOf b' → heightOf b < lastCheckpoint → b = b'
  orphans : ∀ b ∈ manager.orphans, T.Genuine b ∨ b.prevBlock = 0
  last : manager.lastBlock ∈ manager.blocks
  above : floor ≤ heightOf manager.lastBlock
  checkpoints : manager.checkpoints =
    (checkpoint_array.map checkpointBlock).foldl (insert byHeight) []

theorem interval : BLOCK_DIFFICULTY_INTERVAL.toNat = 2016 := rfl

section Keeping
variable {T : BlockTree} {start : UInt256 → Prop} {floor : Nat} {manager : BRPeerManager}
  {blocks : List BRMerkleBlock} {block prev b x : BRMerkleBlock}

theorem mem_insert : x ∈ insert byHash blocks block ↔
    x = block ∨ x ∈ blocks ∧ x.blockHash ≠ block.blockHash := by
  rw [BRSets.insert, List.mem_cons, mem_remove]
  exact or_congr_right (and_congr_right fun _ => beq_eq_false_iff_ne)

theorem insert_known (known : ∀ b ∈ blocks, T.Known b) (here : T.Known block) :
    ∀ x ∈ insert byHash blocks block, T.Known x := fun x there => by
  rcases mem_insert.mp there with rfl | ⟨inside,-⟩
  · exact here
  · exact known x inside

theorem insert_stands {hash : UInt256} (stands : ∃ b ∈ blocks, b.blockHash = hash)
    (block : BRMerkleBlock) : ∃ b ∈ insert byHash blocks block, b.blockHash = hash := by
  obtain ⟨b,inside,same⟩ := stands
  by_cases replaced : b.blockHash = block.blockHash
  · exact ⟨block,mem_insert.mpr (.inl rfl),replaced.symm.trans same⟩
  · exact ⟨b,mem_insert.mpr (.inr ⟨inside,replaced⟩),same⟩

theorem Stub.height (stub : Stub b) : heightOf b % BLOCK_DIFFICULTY_INTERVAL.toNat = 0 ∧
    heightOf b ≤ lastCheckpoint ∧ b.prevBlock = 0 := by
  obtain ⟨c,there,rfl⟩ := stub
  have all : ∀ c ∈ checkpoint_array, c.height.toNat % BLOCK_DIFFICULTY_INTERVAL.toNat = 0 ∧
      c.height.toNat ≤ lastCheckpoint := by decide
  exact ⟨(all c there).1,(all c there).2,rfl⟩

/-- A block behind one that is kept is no stub. -/
theorem not_stub (known : ∀ b ∈ blocks, T.Known b) (found : previous blocks block = some prev) :
    ¬ Stub block := fun stub => by
  obtain ⟨inside,hash⟩ := previous_mem found
  rw [stub.height.2.2] at hash
  exact (known prev inside).real.hashed hash

/-- Where a block was verified, the last block is kept. -/
theorem Chained.pruned (chained : Chained T start floor manager) (checkpointed : T.Checkpointed)
    (found : previous manager.blocks block = some prev)
    (height : heightOf block = heightOf prev + 1) (fewer : blocks.Sublist manager.blocks)
    (gone : ∀ x ∈ manager.blocks, x ∉ blocks →
      x.height % BLOCK_DIFFICULTY_INTERVAL ≠ 0 ∧
        heightOf x + BLOCK_DIFFICULTY_INTERVAL.toNat < heightOf block ∧
          (previous manager.blocks prev).isSome) :
    Chained T start floor { manager with blocks } ∧ prev ∈ blocks := by
  obtain ⟨inside,-⟩ := previous_mem found
  have kept : ∀ x ∈ manager.blocks, heightOf prev ≤ heightOf x → x ∈ blocks := by
    intro x there high
    by_contra missing
    have below := (gone x there missing).2.1
    rw [interval] at below
    omega
  have last : manager.lastBlock ∈ blocks := by
    by_contra missing
    obtain ⟨-,below,some_previous⟩ := gone _ chained.last missing
    obtain ⟨p,next⟩ := Option.isSome_iff_exists.mp some_previous
    have level := (chained.followed prev inside (not_stub chained.known next)).1
    exact missing (kept _ chained.last level)
  have stands : ∀ c ∈ checkpoint_array, ∃ b ∈ blocks, b.blockHash = c.hash := fun c listed => by
    obtain ⟨b,there,same⟩ := chained.stands c listed
    refine ⟨b,?_,same⟩
    by_contra missing
    have height : b.height = c.height := UInt32.toNat_inj.mp (by
      rw [← (checkpointed c listed).1, ← same]
      exact (chained.known b there).height)
    exact (gone b there missing).1 (height ▸ (checkpoints_good c listed).2.1)
  exact
    ⟨{ once := chained.once.sublist fewer
       known := fun b there => chained.known b (fewer.subset there)
       accepted := fun b there => chained.accepted b (fewer.subset there)
       stands
       stubs := fun b there => chained.stubs b (fewer.subset there)
       followed := fun b there => chained.followed b (fewer.subset there)
       single := fun b there b' there' =>
         chained.single b (fewer.subset there) b' (fewer.subset there')
       orphans := chained.orphans
       last
       above := chained.above
       checkpoints := chained.checkpoints },kept prev inside (Nat.le_refl _)⟩

/-- A block is put to the others, in the place of one with its hash. -/
theorem Chained.put (chained : Chained T start floor manager) (genuine : T.Genuine block)
    (height : heightOf block = T.height block.blockHash)
    (accepted : T.Accepted start block.blockHash) (last : b ∈ insert byHash manager.blocks block)
    (later : heightOf manager.lastBlock ≤ heightOf b) (level : heightOf block ≤ heightOf b)
    (followed : heightOf block ≤ lastCheckpoint → floor ≤ heightOf block)
    (stubs : ∀ x ∈ manager.blocks, x.blockHash ≠ block.blockHash → Stub x →
      heightOf x ≤ floor ∨ heightOf b < heightOf x) (real : ¬ Stub block)
    (single : ∀ x ∈ manager.blocks, ¬ Stub x → heightOf x = heightOf block →
      heightOf x < lastCheckpoint → x.blockHash = block.blockHash) (wallet : BRWallet) :
    Chained T start floor { manager with
      blocks := insert byHash manager.blocks block
      lastBlock := b
      wallet } where
  once := insert_apart chained.once block
  known x there := by
    rcases mem_insert.mp there with rfl | ⟨inside,-⟩
    · exact ⟨.inr genuine,height⟩
    · exact chained.known x inside
  accepted x there := by
    rcases mem_insert.mp there with rfl | ⟨inside,-⟩
    · exact accepted
    · exact chained.accepted x inside
  stands c listed := insert_stands (chained.stands c listed) block
  stubs x there stub := by
    rcases mem_insert.mp there with rfl | ⟨inside,other⟩
    · exact absurd stub real
    · exact stubs x inside other stub
  followed x there whole := by
    rcases mem_insert.mp there with rfl | ⟨inside,-⟩
    · exact ⟨level,followed⟩
    · obtain ⟨below,above⟩ := chained.followed x inside whole
      exact ⟨Nat.le_trans below later,above⟩
  single x there x' there' whole whole' same low := by
    rcases mem_insert.mp there with rfl | ⟨inside,other⟩
    · rcases mem_insert.mp there' with rfl | ⟨inside',other'⟩
      · rfl
      · rw [same] at low
        exact absurd (single x' inside' whole' same.symm low) other'
    · rcases mem_insert.mp there' with rfl | ⟨inside',other'⟩
      · exact absurd (single x inside whole same low) other
      · exact chained.single x inside x' inside' whole whole' same low
  orphans := chained.orphans
  last := last
  above := Nat.le_trans chained.above later
  checkpoints := chained.checkpoints

end Keeping

end BRPeerManagerChains
