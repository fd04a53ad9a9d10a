import AltMessenger.BRPeerManagerChains

/-!
What becomes of a block that is relayed. The chain stays one that was verified, the last block is
never a lower one, and there is no result only where the way down from the last block, or from a
longer fork, comes to a block that is not kept.
-/
namespace BRPeerManagerSteps
open BRSets WalletDatabase BRMerkleBlocks BRTransactions BRWallets BRWalletOperations
open KeptForests BRPeerManagers BRPeerManagerChains

/-- A block of the tree, so far below another as their heights say -/
def Under (T : BlockTree) (hash below : UInt256) : Prop :=
  ∃ n, T.prev^[n] hash = below ∧ T.height hash = T.height below + n

/-- What is known of the wallet with each last block, and kept when the chain goes on, when the
    transactions of one of its blocks are confirmed, and when it turns to a fork. -/
structure Keeps (T : BlockTree) (address : BRTxOutput → Address) (P : UInt256 → BRWallet → Prop)
    (Fit : UInt256 → UInt256 → BRMerkleBlock → BRWallet → Prop) : Prop where
  extend : ∀ {last hash : UInt256} {w : BRWallet}, P last w → Under T hash last → P hash w
  confirm : ∀ (relay : Relay) {last : UInt256} {w : BRWallet} {b : BRMerkleBlock}
    {txHashes : List UInt256} (timestamp : UInt32), P last w → T.Known b →
      Under T last b.blockHash → BRMerkleBlockTxHashes b = some txHashes →
        ∃ s, updateTx address relay w txHashes b.height timestamp = some s ∧ P last s
  turn : ∀ (relay : Relay) {last hash : UInt256} {w : BRWallet} {b : BRMerkleBlock}, P last w →
    T.Known b → Fit last hash b w →
      ∃ s, BRWalletSetTxUnconfirmedAfter address relay.call w b.height = some s ∧ P hash s

section Trees
variable {T : BlockTree} {blocks : List BRMerkleBlock} {block b c : BRMerkleBlock}
  {hash middle below : UInt256}

theorem Under.refl (T : BlockTree) (hash : UInt256) : Under T hash hash := ⟨0,rfl,rfl⟩

theorem Under.trans (first : Under T hash middle) (second : Under T middle below) :
    Under T hash below := by
  obtain ⟨n,rfl,high⟩ := first
  obtain ⟨m,rfl,low⟩ := second
  exact ⟨m + n,Function.iterate_add_apply _ _ _ _,by omega⟩

/-- Of two blocks under one, the lower is under the higher. -/
theorem Under.between (first : Under T hash middle) (second : Under T hash below)
    (le : T.height below ≤ T.height middle) : Under T middle below := by
  obtain ⟨n,rfl,high⟩ := first
  obtain ⟨m,rfl,low⟩ := second
  have split : m = (m - n) + n := by omega
  refine ⟨m - n,?_,by omega⟩
  rw [← Function.iterate_add_apply, ← split]

theorem under_prev (genuine : T.Genuine block) : Under T block.blockHash block.prevBlock :=
  ⟨1,genuine.prev,genuine.rises⟩

theorem under_of_reaches (known : ∀ b ∈ blocks, T.Known b) (here : T.Known b)
    (reaches : Reaches (previous blocks) b c) : Under T b.blockHash c.blockHash := by
  induction reaches with
  | refl => exact .refl T _
  | tail down next ih =>
    have middle := ((forest_of_known known).reaches here down).1
    have genuine := genuine_of_previous known middle.real next
    have step := under_prev genuine
    rw [← (previous_mem next).2] at step
    exact ih.trans step

theorem known_reports (real : T.Real block) : ∃ txHashes,
    BRMerkleBlockTxHashes block = some txHashes ∧
      ∀ txHash ∈ txHashes, T.holds block.blockHash txHash := by
  rcases real with ⟨c,-,rfl⟩ | genuine
  · exact ⟨[],checkpoint_reports c,nofun⟩
  · exact genuine.reports

end Trees

/-- A block that was verified, as the manager has it -/
structure Comes (T : BlockTree) (start : UInt256 → Prop) (manager : BRPeerManager)
    (block prev : BRMerkleBlock) : Prop where
  genuine : T.Genuine block
  height : heightOf block = T.height block.blockHash
  rule : T.Rule block.blockHash
  behind : previous manager.blocks block = some prev

/-- What is left when a block was put somewhere -/
structure Good (T : BlockTree) (start : UInt256 → Prop) (floor : Nat)
    (P : UInt256 → BRWallet → Prop) (last : Nat) (hash : UInt256) (placed : Placed) : Prop where
  chained : Chained T start floor placed.manager
  holds : P placed.manager.lastBlock.blockHash placed.manager.wallet
  rises : last ≤ heightOf placed.manager.lastBlock
  saved : 0 < placed.saveCount → ∃ b, placed.block = some b ∧ T.Known b
  named : ∀ b ∈ placed.block, b.blockHash = hash

/-- The way down from the last block does not come to the height of this one. -/
def Cut (manager : BRPeerManager) (block : BRMerkleBlock) : Prop :=
  ∀ b, Reaches (previous manager.blocks) manager.lastBlock b → heightOf block < heightOf b

/-- A fork does not join the main chain, which is kept as far down as the fork is. -/
def Unjoined (manager : BRPeerManager) (block : BRMerkleBlock) : Prop :=
  let down := Reaches (previous (insert byHash manager.blocks block))
  (∀ b, down block b → ¬ down manager.lastBlock b) ∧
    ∃ e, down manager.lastBlock e ∧ ∀ b, down block b → heightOf e ≤ heightOf b

section Branches
variable {T : BlockTree} {address : BRTxOutput → Address} {P : UInt256 → BRWallet → Prop}
  {Fit : UInt256 → UInt256 → BRMerkleBlock → BRWallet → Prop} {start : UInt256 → Prop}
  {floor : Nat} {manager : BRPeerManager} {blocks : List BRMerkleBlock}
  {block prev b : BRMerkleBlock} {txHashes : List UInt256}

theorem none_saved {p : Prop} (some_saved : 0 < 0) : p := absurd some_saved (Nat.lt_irrefl 0)

theorem none_named {hash : UInt256} :
    ∀ b ∈ (none : Option BRMerkleBlock), b.blockHash = hash := fun b there =>
  absurd there (Option.not_mem_none b)

theorem self_named (block : BRMerkleBlock) : ∀ b ∈ some block, b.blockHash = block.blockHash := by
  rintro b ⟨⟩
  rfl

theorem Comes.known (comes : Comes T start manager block prev) : T.Known block :=
  ⟨.inr comes.genuine,comes.height⟩

theorem Comes.level (comes : Comes T start manager block prev)
    (chained : Chained T start floor manager) : heightOf block = heightOf prev + 1 :=
  (forest_of_known chained.known).falls comes.known comes.behind

theorem Comes.accepted (comes : Comes T start manager block prev)
    (chained : Chained T start floor manager) : T.Accepted start block.blockHash := by
  obtain ⟨inside,hash⟩ := previous_mem comes.behind
  refine .next ?_ comes.rule
  rw [comes.genuine.prev, ← hash]
  exact chained.accepted prev inside

/-- At the height of a checkpoint there is only this. -/
theorem Comes.stub_hash (comes : Comes T start manager block prev) {x : BRMerkleBlock}
    (stub : Stub x) (same : heightOf x = heightOf block) : x.blockHash = block.blockHash := by
  obtain ⟨c,there,rfl⟩ := stub
  exact comes.rule.checkpoint c there (same.trans comes.height)

theorem extend_spec (keeps : Keeps T address P Fit) (relay : Relay)
    (chained : Chained T start floor manager)
    (holds : P manager.lastBlock.blockHash manager.wallet)
    (comes : Comes T start manager block prev)
    (reported : BRMerkleBlockTxHashes block = some txHashes) (txTime : UInt32)
    (next : block.prevBlock = manager.lastBlock.blockHash) :
    ∃ placed, extendChain address relay manager block txHashes txTime = some placed ∧
      Good T start floor P (heightOf manager.lastBlock) block.blockHash placed := by
  have under := under_prev comes.genuine
  have level : heightOf block = heightOf manager.lastBlock + 1 := by
    rw [comes.height, comes.genuine.rises, next, (chained.known _ chained.last).height]
  rw [next] at under
  obtain ⟨wallet,told,holds⟩ :=
    keeps.confirm relay txTime (keeps.extend holds under) comes.known (.refl T _) reported
  have floor_le := chained.above
  rw [extendChain]
  simp only [told, Option.bind_eq_bind, Option.bind_some]
  refine ⟨_,rfl,chained.put comes.genuine comes.height (comes.accepted chained)
    (mem_insert.mpr (.inl rfl)) (by omega) (Nat.le_refl _) (fun _ => by omega)
    (fun x there other stub => ?_) (not_stub chained.known comes.behind)
    (fun x there real same _ => ?_) wallet,holds,by dsimp only; omega,
    fun _ => ⟨block,rfl,comes.known⟩,self_named _⟩
  · rcases chained.stubs x there stub with below | beyond
    · exact .inl below
    · refine .inr (Nat.lt_of_le_of_ne (by omega) fun same => ?_)
      exact other (comes.stub_hash stub same.symm)
  · have below := (chained.followed x there real).1
    omega

/-- What is kept of a block behind another is no stub. -/
theorem stored_followed (chained : Chained T start floor manager)
    (comes : Comes T start manager block prev)
    (other : block.prevBlock ≠ manager.lastBlock.blockHash) {x : BRMerkleBlock}
    (there : x ∈ manager.blocks) (same : x.blockHash = block.blockHash) : ¬ Stub x := fun stub => by
  have level := comes.level chained
  obtain ⟨inside,hash⟩ := previous_mem comes.behind
  have equal : heightOf x = heightOf block := by
    rw [(chained.known x there).height, same, comes.height]
  obtain ⟨even,low,-⟩ := stub.height
  rw [interval] at even
  have odd : ∀ y, heightOf y = heightOf prev → ¬ Stub y := fun y here stub' => by
    have even' := stub'.height.1
    rw [interval] at even'
    omega
  obtain ⟨below,above⟩ := chained.followed prev inside (odd prev rfl)
  rcases chained.stubs x there stub with under | beyond
  · have first := above (by omega)
    omega
  · have last := chained.single prev inside _ chained.last (odd prev rfl)
      (odd _ (by omega)) (by omega) (by omega)
    exact other (hash.symm.trans (congrArg _ last))

theorem replace_spec (keeps : Keeps T address P Fit) (relay : Relay)
    (chained : Chained T start floor manager)
    (holds : P manager.lastBlock.blockHash manager.wallet)
    (comes : Comes T start manager block prev)
    (reported : BRMerkleBlockTxHashes block = some txHashes) (txTime : UInt32)
    (other : block.prevBlock ≠ manager.lastBlock.blockHash) {x : BRMerkleBlock}
    (there : x ∈ manager.blocks) (same : x.blockHash = block.blockHash) :
    (Cut manager block ∧ replaceBlock address relay manager block txHashes txTime = none) ∨
      (¬ Cut manager block ∧
        ∃ placed, replaceBlock address relay manager block txHashes txTime = some placed ∧
          Good T start floor P (heightOf manager.lastBlock) block.blockHash placed) := by
  have real := stored_followed chained comes other there same
  have equal : heightOf x = heightOf block := by
    rw [(chained.known x there).height, same, comes.height]
  obtain ⟨below,above⟩ := chained.followed x there real
  have forest := forest_of_known chained.known
  have last_known := chained.known _ chained.last
  obtain ⟨e,ends⟩ := forest.exists_end last_known
  have at_last : manager.lastBlock.blockHash = block.blockHash ↔
      heightOf block = heightOf manager.lastBlock ∧
        manager.lastBlock.blockHash = block.blockHash := by
    refine ⟨fun hash => ⟨?_,hash⟩,And.right⟩
    rw [comes.height, last_known.height, hash]
  -- the last block is kept, or this one is put in its place
  have put : ∀ (last : BRMerkleBlock) (wallet : BRWallet),
      (last = block ∧ heightOf block = heightOf manager.lastBlock ∨
        last = manager.lastBlock ∧ manager.lastBlock.blockHash ≠ block.blockHash) →
      Chained T start floor { manager with
        blocks := insert byHash manager.blocks block
        lastBlock := last
        wallet } ∧ heightOf last = heightOf manager.lastBlock := by
    intro last wallet which
    have level : heightOf last = heightOf manager.lastBlock := by
      rcases which with ⟨rfl,level⟩ | ⟨rfl,-⟩
      · exact level
      · rfl
    refine ⟨chained.put comes.genuine comes.height (comes.accepted chained) ?_ (by omega)
      (by omega) (fun low => ?_) (fun y inside _ stub => ?_)
      (not_stub chained.known comes.behind) (fun y inside whole high low => ?_) wallet,level⟩
    · rcases which with ⟨rfl,-⟩ | ⟨rfl,differ⟩
      · exact mem_insert.mpr (.inl rfl)
      · exact mem_insert.mpr (.inr ⟨chained.last,differ⟩)
    · have bottom := above (by omega)
      omega
    · rw [level]
      exact chained.stubs y inside stub
    · rw [chained.single y inside x there whole real (by omega) low, same]
  rcases forest.descend_spec last_known (equal ▸ below) (Nat.lt_succ_self _) ends with
    ⟨-,a,found,down,level⟩ | ⟨short,missed⟩
  · refine .inr ⟨fun cut => ?_,?_⟩
    · have high := cut a down
      omega
    rw [replaceBlock]
    simp only [found, Option.bind_eq_bind, Option.bind_some]
    have under := under_of_reaches chained.known last_known down
    have a_last : heightOf block = heightOf manager.lastBlock → a = manager.lastBlock := by
      intro high
      by_contra differ
      have less := forest.reaches_lt last_known down differ
      omega
    split
    case isTrue hash =>
      rw [hash] at under
      obtain ⟨wallet,told,holds⟩ := keeps.confirm relay txTime holds comes.known under reported
      simp only [told, Option.bind_some]
      split
      case isTrue high =>
        have high : heightOf block = heightOf manager.lastBlock := congrArg UInt32.toNat high
        obtain ⟨chained,level⟩ := put block wallet (.inl ⟨rfl,high⟩)
        rw [a_last high] at hash
        rw [hash] at holds
        exact ⟨_,rfl,chained,holds,Nat.le_of_eq level.symm,none_saved,self_named _⟩
      case isFalse differ =>
        have other_hash : manager.lastBlock.blockHash ≠ block.blockHash := fun one =>
          differ (UInt32.toNat_inj.mp (at_last.mp one).1)
        obtain ⟨chained,level⟩ := put manager.lastBlock wallet (.inr ⟨rfl,other_hash⟩)
        exact ⟨_,rfl,chained,holds,Nat.le_of_eq level.symm,none_saved,self_named _⟩
    case isFalse hash =>
      have other_hash : manager.lastBlock.blockHash ≠ block.blockHash := fun one => by
        rw [a_last (at_last.mp one).1] at hash
        exact hash one
      obtain ⟨chained,level⟩ := put manager.lastBlock manager.wallet (.inr ⟨rfl,other_hash⟩)
      exact ⟨_,rfl,chained,holds,Nat.le_of_eq level.symm,none_saved,self_named _⟩
  · refine .inl ⟨fun b down => ?_,?_⟩
    · exact Nat.lt_of_lt_of_le short
        (forest.reaches (forest.reaches last_known down).1 (ends.reaches_end down)).2
    · rw [replaceBlock]
      simp only [missed, Option.bind_eq_bind, Option.bind_some]
      rfl

/-- The loop over a fork gets down to its limit, or to where a block is missing. -/
theorem confirmFork_spec (keeps : Keeps T address P Fit) (relay : Relay)
    (known : ∀ b ∈ blocks, T.Known b) {limit fuel : Nat} {wallet : BRWallet} {hash : UInt256}
    (here : T.Known b) (under : Under T hash b.blockHash) (holds : P hash wallet)
    (enough : heightOf b < fuel) :
    ∃ s, confirmFork address relay blocks limit fuel wallet b = some s ∧ P hash s := by
  induction fuel generalizing b wallet with
  | zero => omega
  | succ fuel ih =>
    rw [confirmFork]
    split
    case isFalse => exact ⟨wallet,rfl,holds⟩
    case isTrue above =>
      obtain ⟨txHashes,reported,-⟩ := known_reports here.real
      simp only [reported, Option.bind_eq_bind, Option.bind_some]
      cases next : previous blocks b with
      | none =>
        obtain ⟨s,told,holds⟩ := keeps.confirm relay b.timestamp holds here under reported
        simp only [told, Option.bind_some]
        exact ⟨s,rfl,holds⟩
      | some p =>
        obtain ⟨s,told,holds⟩ :=
          keeps.confirm relay (b.timestamp / 2 + p.timestamp / 2) holds here under reported
        simp only [told, Option.bind_some]
        have forest := forest_of_known known
        have step := forest.falls here next
        exact ih (forest.closed here next)
          (under.trans (under_of_reaches known here (.single next))) holds (by omega)

theorem previous_inserted (once : blocks.Pairwise fun x y => byHash.eq x y = false)
    (found : previous blocks block = some prev) (other : prev.blockHash ≠ block.blockHash) :
    previous (insert byHash blocks block) block = some prev := by
  obtain ⟨there,behind⟩ := previous_mem found
  exact (found_iff (insert_apart once block)).mpr ⟨mem_insert.mpr (.inr ⟨there,other⟩),behind⟩

/-- The way down ends where a checkpoint stands alone. -/
theorem reaches_stub (known : ∀ b ∈ blocks, T.Known b) (next : previous blocks block = some prev)
    (stub : Stub prev) (down : Reaches (previous blocks) block b) : b = block ∨ b = prev := by
  rcases reaches_next next down with same | later
  · exact .inl same
  · rcases later.cases_head with same | ⟨p,next',-⟩
    · exact .inr same.symm
    · exact absurd stub (not_stub known next')

/-- A late fork comes down to the main chain only if this is past the last checkpoint. -/
theorem Comes.passed (comes : Comes T start manager block prev)
    (chained : Chained T start floor manager)
    (new : ∀ x ∈ manager.blocks, x.blockHash ≠ block.blockHash)
    (late : lastCheckpoint < heightOf block)
    (down : Reaches (previous (insert byHash manager.blocks block)) block b)
    (low : heightOf b ≤ heightOf manager.lastBlock)
    (long : heightOf manager.lastBlock < heightOf block) :
    lastCheckpoint ≤ heightOf manager.lastBlock := by
  have level := comes.level chained
  have inside := (previous_mem comes.behind).1
  by_cases stub : Stub prev
  · have next := previous_inserted chained.once comes.behind (new prev inside)
    rcases reaches_stub (insert_known chained.known comes.known) next stub down with rfl | rfl
    · omega
    · omega
  · have below := (chained.followed prev inside stub).1
    omega

/-- The chain turns to a fork. -/
theorem Comes.turned (comes : Comes T start manager block prev)
    (chained : Chained T start floor manager) (late : lastCheckpoint < heightOf block)
    (long : heightOf manager.lastBlock < heightOf block)
    (passed : lastCheckpoint ≤ heightOf manager.lastBlock) (wallet : BRWallet) :
    Chained T start floor { manager with
      blocks := insert byHash manager.blocks block
      lastBlock := block
      wallet } := by
  have floor_le := chained.above
  refine chained.put comes.genuine comes.height (comes.accepted chained)
    (mem_insert.mpr (.inl rfl)) (Nat.le_of_lt long) (Nat.le_refl _) (fun low => by omega)
    (fun x there _ stub => ?_) (not_stub chained.known comes.behind)
    (fun x there _ same low => by omega) wallet
  rcases chained.stubs x there stub with below | beyond
  · exact .inl below
  · have low := stub.height.2.1
    omega

/-- A fork that is longer than the main chain is turned to, unless where it joins is read and not
    kept. -/
theorem fork_spec (keeps : Keeps T address P Fit) (relay : Relay)
    (chained : Chained T start floor manager)
    (holds : P manager.lastBlock.blockHash manager.wallet)
    (comes : Comes T start manager block prev)
    (new : ∀ x ∈ manager.blocks, x.blockHash ≠ block.blockHash)
    (late : lastCheckpoint < heightOf block)
    (fit : ∀ c, T.Known c → Under T block.blockHash c.blockHash →
      (∀ d, Reaches (previous (insert byHash manager.blocks block)) block d →
        Reaches (previous (insert byHash manager.blocks block)) manager.lastBlock d →
          Under T manager.lastBlock.blockHash c.blockHash) →
      heightOf manager.lastBlock < heightOf block →
        Fit manager.lastBlock.blockHash block.blockHash c manager.wallet) :
    (heightOf manager.lastBlock < heightOf block ∧ Unjoined manager block ∧
        extendFork address relay manager block = none) ∨
      (¬ (heightOf manager.lastBlock < heightOf block ∧ Unjoined manager block) ∧
        ∃ placed, extendFork address relay manager block = some placed ∧
          Good T start floor P (heightOf manager.lastBlock) block.blockHash placed) := by
  have last_there : manager.lastBlock ∈ insert byHash manager.blocks block :=
    mem_insert.mpr (.inr ⟨chained.last,new _ chained.last⟩)
  have real := not_stub chained.known comes.behind
  have level := comes.level chained
  unfold extendFork
  dsimp only
  split
  case isFalse short =>
    have short : ¬ heightOf manager.lastBlock < heightOf block := short
    refine .inr ⟨fun lost => short lost.1,_,rfl,?_,holds,Nat.le_refl _,none_saved,self_named _⟩
    exact chained.put comes.genuine comes.height (comes.accepted chained) last_there
      (Nat.le_refl _) (by omega) (fun low => by omega)
      (fun x there _ stub => chained.stubs x there stub) real
      (fun x there _ same low => by omega) manager.wallet
  case isTrue long =>
    have long : heightOf manager.lastBlock < heightOf block := long
    have once := insert_apart chained.once block
    have known := insert_known chained.known comes.known
    have forest := forest_of_known known
    have kept : Forest (previous (insert byHash manager.blocks block)) heightOf
        fun x => x ∈ insert byHash manager.blocks block :=
      { closed := fun _ next => (previous_mem next).1
        falls := fun here next => forest.falls (known _ here) next }
    have block_there : block ∈ insert byHash manager.blocks block := mem_insert.mpr (.inl rfl)
    obtain ⟨e,ends⟩ := kept.exists_end block_there
    obtain ⟨e2,ends2⟩ := kept.exists_end last_there
    rcases kept.meet_spec (fun one two same => eq_of_hash once one two same) block_there last_there
      (Nat.le_of_lt long) (Nat.lt_succ_self _) ends ends2 with
      ⟨c,found,down,down2,-⟩ | ⟨apart,⟨low,c,found⟩ | ⟨low,c,found,down,high⟩⟩
    · have passed := comes.passed chained new late down (kept.reaches last_there down2).2 long
      have under := under_of_reaches known comes.known down
      obtain ⟨mid,unconfirmed,turns⟩ := keeps.turn relay holds
        (known c (kept.reaches block_there down).1)
        (fit c (known c (kept.reaches block_there down).1) under (fun _ _ _ =>
          under_of_reaches known (known _ last_there) down2) long)
      obtain ⟨s,confirmed,holds⟩ := @confirmFork_spec T address P Fit
        (insert byHash manager.blocks block) block keeps relay known (heightOf c)
        (heightOf block + 1) mid block.blockHash comes.known (.refl T _) turns
        (Nat.lt_succ_self _)
      simp only [found, Option.bind_eq_bind, Option.bind_some, unconfirmed, confirmed]
      refine .inr ⟨fun lost => lost.2.1 c down down2,_,rfl,
        comes.turned chained late long passed s,holds,Nat.le_of_lt long,
        fun _ => ⟨block,rfl,comes.known⟩,self_named _⟩
    · refine .inl ⟨long,⟨apart,e2,ends2.1,fun b down => ?_⟩,?_⟩
      · exact Nat.le_trans low
          (kept.reaches (kept.reaches block_there down).1 (ends.reaches_end down)).2
      · simp only [found, Option.bind_eq_bind, Option.bind_some]
        rfl
    · have below := (kept.reaches last_there ends2.1).2
      have passed := comes.passed chained new late ends.1 (by omega) long
      have under := under_of_reaches known comes.known down
      obtain ⟨mid,unconfirmed,turns⟩ := keeps.turn relay holds
        (known c (kept.reaches block_there down).1)
        (fit c (known c (kept.reaches block_there down).1) under
          (fun d one other => absurd other (apart d one)) long)
      simp only [found, Option.bind_eq_bind, Option.bind_some, unconfirmed]
      refine .inr ⟨fun lost => ?_,_,rfl,comes.turned chained late long passed mid,turns,
        Nat.le_of_lt long,fun _ => ⟨block,rfl,comes.known⟩,self_named _⟩
      obtain ⟨-,-,x,down_x,lower⟩ := lost
      have above := lower e ends.1
      have bottom := (kept.reaches (kept.reaches last_there down_x).1
        (ends2.reaches_end down_x)).2
      omega

end Branches

/-- The block behind this one -/
def raised (block prev : BRMerkleBlock) : BRMerkleBlock := { block with height := prev.height + 1 }

/-- A block is a header near the first key, or comes while a bloom filter is pending. -/
def Ignored (relay : Relay) (manager : BRPeerManager) (block : BRMerkleBlock) : Prop :=
  block.totalTx = 0 ∧ manager.earliestKeyTime + 2 * 60 * 60 < block.timestamp + WEEK ∨
    relay.filtered = false

/-- A block is taken and verified, and does not come behind the last one. -/
structure Aside (relay : Relay) (manager : BRPeerManager) (block prev : BRMerkleBlock)
    (blocks : List BRMerkleBlock) : Prop where
  taken : ¬ Ignored relay manager block
  behind : previous manager.blocks block = some prev
  verified : BRPeerManagerVerifyBlock manager (raised block prev) prev = some (true,blocks)
  aside : block.prevBlock ≠ manager.lastBlock.blockHash

/-- It is a new one on a fork, not to be kept for later, which is longer than the main chain. -/
structure Turns (relay : Relay) (manager : BRPeerManager) (block prev : BRMerkleBlock)
    (blocks : List BRMerkleBlock) : Prop extends Aside relay manager block prev blocks where
  new : lookup byHash blocks block = none
  now : ¬ (manager.lastBlock.height < relay.peerLastBlock ∧
    manager.lastBlock.height + 1 < prev.height + 1)
  late : lastCheckpoint < heightOf (raised block prev)
  longer : heightOf manager.lastBlock < heightOf (raised block prev)

/-- It is one that is kept, but below where the main chain is, or on a fork that does not join. -/
def Lost (relay : Relay) (manager : BRPeerManager) (block : BRMerkleBlock) : Prop :=
  ∃ prev blocks,
    Aside relay manager block prev blocks ∧ lookup byHash blocks block ≠ none ∧
        Cut { manager with blocks } (raised block prev) ∨
      Turns relay manager block prev blocks ∧
        Unjoined { manager with blocks } (raised block prev)

section Placing
variable {T : BlockTree} {address : BRTxOutput → Address} {P : UInt256 → BRWallet → Prop}
  {Fit : UInt256 → UInt256 → BRMerkleBlock → BRWallet → Prop} {start : UInt256 → Prop}
  {floor : Nat} {manager : BRPeerManager} {blocks : List BRMerkleBlock}
  {block prev : BRMerkleBlock} {txHashes : List UInt256} {relay : Relay}

theorem raised_genuine (genuine : T.Genuine block) (prev : BRMerkleBlock) :
    T.Genuine (raised block prev) where
  hashed := genuine.hashed
  prev := genuine.prev
  time := genuine.time
  target := genuine.target
  rises := genuine.rises
  low := genuine.low
  reports := by
    rw [raised, txHashes_height]
    exact genuine.reports

theorem raised_height (known : ∀ b ∈ blocks, T.Known b) (genuine : T.Genuine block)
    (found : previous blocks block = some prev) :
    heightOf (raised block prev) = T.height block.blockHash ∧
      heightOf (raised block prev) = heightOf prev + 1 := by
  obtain ⟨inside,hash⟩ := previous_mem found
  have level : T.height block.blockHash = heightOf prev + 1 := by
    rw [genuine.rises, (known prev inside).height, hash]
  have low := genuine.low
  have small : BLOCK_UNKNOWN_HEIGHT.toNat = 2 ^ 31 - 1 := rfl
  have next : heightOf (raised block prev) = heightOf prev + 1 := by
    change (prev.height + 1).toNat = prev.height.toNat + 1
    rw [heightOf] at level
    rw [UInt32.toNat_add]
    change (prev.height.toNat + 1) % 2 ^ 32 = _
    omega
  exact ⟨next.trans level.symm,next⟩

/-- What fits where the chain turns to a fork, as its blocks are kept -/
def Fits (Fit : UInt256 → UInt256 → BRMerkleBlock → BRWallet → Prop) (T : BlockTree)
    (relay : Relay) (manager : BRPeerManager) (block : BRMerkleBlock) : Prop :=
  ∀ prev blocks, Turns relay manager block prev blocks → ∀ c, T.Known c →
    Under T block.blockHash c.blockHash →
    (∀ d, Reaches (previous (insert byHash blocks (raised block prev))) (raised block prev) d →
      Reaches (previous (insert byHash blocks (raised block prev))) manager.lastBlock d →
        Under T manager.lastBlock.blockHash c.blockHash) →
      Fit manager.lastBlock.blockHash block.blockHash c manager.wallet

theorem verified_spec (keeps : Keeps T address P Fit)
    (kept : Chained T start floor { manager with blocks })
    (holds : P manager.lastBlock.blockHash manager.wallet)
    (comes : Comes T start { manager with blocks } (raised block prev) prev)
    (taken : ¬ Ignored relay manager block)
    (behind : previous manager.blocks block = some prev)
    (verified : BRPeerManagerVerifyBlock manager (raised block prev) prev = some (true,blocks))
    (fit : Fits Fit T relay manager block)
    (reported : BRMerkleBlockTxHashes block = some txHashes) (txTime : UInt32) :
    (Lost relay manager block ∧ placeVerified address relay { manager with blocks }
        (raised block prev) txHashes txTime = none) ∨
      (¬ Lost relay manager block ∧ ∃ placed, placeVerified address relay { manager with blocks }
          (raised block prev) txHashes txTime = some placed ∧
        Good T start floor P (heightOf manager.lastBlock) block.blockHash placed) := by
  have reported : BRMerkleBlockTxHashes (raised block prev) = some txHashes :=
    (txHashes_height block _).trans reported
  have lost_cases : Lost relay manager block →
      block.prevBlock ≠ manager.lastBlock.blockHash ∧
        (lookup byHash blocks block ≠ none ∧ Cut { manager with blocks } (raised block prev) ∨
          Turns relay manager block prev blocks ∧
            Unjoined { manager with blocks } (raised block prev)) := by
    rintro ⟨prev',blocks',⟨aside,stored,cut⟩ | ⟨turns,apart⟩⟩
    · cases behind.symm.trans aside.behind
      cases verified.symm.trans aside.verified
      exact ⟨aside.aside,.inl ⟨stored,cut⟩⟩
    · cases behind.symm.trans turns.behind
      cases verified.symm.trans turns.verified
      exact ⟨turns.aside,.inr ⟨turns,apart⟩⟩
  rw [placeVerified, if_neg (not_not.mpr kept.last)]
  by_cases next : (raised block prev).prevBlock = manager.lastBlock.blockHash
  · rw [if_pos next]
    obtain ⟨placed,extended,good⟩ :=
      extend_spec keeps relay kept holds comes reported txTime next
    exact .inr ⟨fun lost => (lost_cases lost).1 next,placed,extended,good⟩
  rw [if_neg next]
  have aside : Aside relay manager block prev blocks := ⟨taken,behind,verified,next⟩
  cases stored : lookup byHash blocks (raised block prev) with
  | some x =>
    rw [Option.isSome_some, if_pos rfl]
    have there := (lookup_some kept.once).mp stored
    rcases replace_spec keeps relay kept holds comes reported txTime next there.1
      (beq_iff_eq.mp there.2) with ⟨cut,none_left⟩ | ⟨whole,placed,replaced,good⟩
    · refine .inl ⟨⟨prev,blocks,.inl ⟨aside,?_,cut⟩⟩,none_left⟩
      intro missing
      cases stored.symm.trans missing
    · refine .inr ⟨fun lost => ?_,placed,replaced,good⟩
      rcases (lost_cases lost).2 with ⟨-,cut⟩ | ⟨turns,-⟩
      · exact whole cut
      · cases stored.symm.trans turns.new
  | none =>
    rw [Option.isSome_none, if_neg Bool.false_ne_true]
    have new : ∀ x ∈ blocks, x.blockHash ≠ block.blockHash := fun x there same =>
      absurd (beq_iff_eq.mpr same) (List.find?_eq_none.mp stored x there)
    by_cases later : manager.lastBlock.height < relay.peerLastBlock ∧
        manager.lastBlock.height + 1 < (raised block prev).height
    · rw [if_pos later]
      refine .inr ⟨fun lost => ?_,_,rfl,?_,holds,Nat.le_refl _,none_saved,self_named _⟩
      · rcases (lost_cases lost).2 with ⟨there,-⟩ | ⟨turns,-⟩
        · exact there stored
        · exact turns.now later
      · exact { kept with
          orphans := fun b inside => by
            rcases List.mem_cons.mp inside with rfl | rest
            · exact .inl comes.genuine
            · exact kept.orphans b (mem_remove.mp rest).1 }
    rw [if_neg later]
    by_cases late : lastCheckpoint < heightOf (raised block prev)
    · rw [if_neg (fun early => by
        have early : heightOf (raised block prev) ≤ lastCheckpoint := early
        omega)]
      rcases fork_spec keeps relay kept holds comes new late
        (fun c known under joins longer => fit prev blocks
          { aside with new := stored, now := later, late, longer } c known under joins) with
        ⟨longer,apart,none_left⟩ | ⟨fine,placed,forked,good⟩
      · exact .inl ⟨⟨prev,blocks,.inr
          ⟨{ aside with new := stored, now := later, late, longer },apart⟩⟩,none_left⟩
      · refine .inr ⟨fun lost => ?_,placed,forked,good⟩
        rcases (lost_cases lost).2 with ⟨there,-⟩ | ⟨turns,apart⟩
        · exact there stored
        · exact fine ⟨turns.longer,apart⟩
    · have early : (raised block prev).height ≤ (checkpoint_array.getLast some_checkpoint).height :=
        Nat.not_lt.mp late
      rw [if_pos early]
      refine .inr ⟨fun lost => ?_,_,rfl,kept,holds,Nat.le_refl _,none_saved,none_named⟩
      rcases (lost_cases lost).2 with ⟨there,-⟩ | ⟨turns,-⟩
      · exact there stored
      · exact late turns.late

/-- A block is put somewhere, unless it is lost. -/
theorem place_spec (keeps : Keeps T address P Fit) (checkpointed : T.Checkpointed)
    (chained : Chained T start floor manager)
    (holds : P manager.lastBlock.blockHash manager.wallet) (genuine : T.Genuine block)
    (fit : Fits Fit T relay manager block) :
    (Lost relay manager block ∧ placeBlock address relay manager block = none) ∨
      (¬ Lost relay manager block ∧
        ∃ placed, placeBlock address relay manager block = some placed ∧
          Good T start floor P (heightOf manager.lastBlock) block.blockHash placed) := by
  obtain ⟨txHashes,reported,-⟩ := genuine.reports
  have same : Good T start floor P (heightOf manager.lastBlock) block.blockHash ⟨manager,none,0⟩ :=
    ⟨chained,holds,Nat.le_refl _,none_saved,none_named⟩
  rw [placeBlock]
  simp only [reported, Option.bind_eq_bind, Option.bind_some]
  cases behind : previous manager.blocks block with
  | none =>
    have fine : ¬ Lost relay manager block := by
      rintro ⟨prev,blocks,⟨aside,-,-⟩ | ⟨turns,-⟩⟩
      · cases behind.symm.trans aside.behind
      · cases behind.symm.trans turns.behind
    dsimp only
    split
    case isTrue => exact .inr ⟨fine,_,rfl,same⟩
    case isFalse =>
      rw [if_neg (not_not.mpr chained.last)]
      split
      case isTrue => exact .inr ⟨fine,_,rfl,same⟩
      case isFalse =>
        refine .inr ⟨fine,_,rfl,?_,holds,Nat.le_refl _,none_saved,self_named block⟩
        exact { chained with
          orphans := fun b inside => by
            rcases List.mem_cons.mp inside with rfl | rest
            · exact .inl genuine
            · exact chained.orphans b (mem_remove.mp rest).1 }
  | some prev =>
    obtain ⟨height,level⟩ := raised_height chained.known genuine behind
    have raised_good := raised_genuine genuine prev
    have there : previous manager.blocks (raised block prev) = some prev := behind
    obtain ⟨verified,blocks,checked,fewer,gone,rule⟩ :=
      verify_spec checkpointed chained.known chained.checkpoints raised_good height there
    obtain ⟨kept,prev_kept⟩ := chained.pruned checkpointed there level fewer gone
    dsimp only
    by_cases ignored : Ignored relay manager block
    · rw [if_pos (show _ ∨ _ from ignored)]
      refine .inr ⟨?_,_,rfl,same⟩
      rintro ⟨prev',blocks',⟨aside,-,-⟩ | ⟨turns,-⟩⟩
      · exact aside.taken ignored
      · exact turns.taken ignored
    rw [if_neg (show ¬ (_ ∨ _) from ignored)]
    change _ ∧ Option.bind (BRPeerManagerVerifyBlock manager (raised block prev) prev) _ = none ∨
      _ ∧ ∃ placed,
        Option.bind (BRPeerManagerVerifyBlock manager (raised block prev) prev) _ = some placed ∧ _
    rw [checked, Option.bind_some]
    cases verified with
    | true =>
      have comes : Comes T start { manager with blocks } (raised block prev) prev :=
        ⟨raised_good,height,rule rfl,
          (found_iff kept.once).mpr ⟨prev_kept,(previous_mem behind).2⟩⟩
      exact verified_spec keeps kept holds comes ignored behind checked fit reported _
    | false =>
      refine .inr ⟨?_,_,rfl,kept,holds,Nat.le_refl _,none_saved,none_named⟩
      rintro ⟨prev',blocks',⟨aside,-,-⟩ | ⟨turns,-⟩⟩
      · cases behind.symm.trans aside.behind
        cases checked.symm.trans aside.verified
      · cases behind.symm.trans turns.behind
        cases checked.symm.trans turns.verified

end Placing

section Finishing
variable {T : BlockTree} {P : UInt256 → BRWallet → Prop} {start : UInt256 → Prop} {floor last : Nat}
  {manager : BRPeerManager} {blocks chain : List BRMerkleBlock} {block b : BRMerkleBlock}

/-- The blocks below one, each one lower than that before it -/
theorem lineage_height (known : ∀ b ∈ blocks, T.Known b) (here : T.Known block) {n k : Nat}
    (there : (lineage (previous blocks) n (some block))[k]? = some b) :
    heightOf block = heightOf b + k := by
  rw [lineage_getElem] at there
  split at there
  case isTrue => exact (forest_of_known known).ancestor_height here there
  case isFalse => cases there

theorem savedCount_le (chain : List BRMerkleBlock) : savedCount chain ≤ chain.length := by
  unfold savedCount
  dsimp only
  split
  · exact Nat.sub_le _ _
  · exact Nat.le_refl _

/-- As many blocks are saved that the lowest is at a transition. -/
theorem saved_at_transition {high : Nat}
    (heights : ∀ k b, chain[k]? = some b → high = heightOf b + k) {x : BRMerkleBlock}
    (lowest : (chain.take (savedCount chain)).getLast? = some x) :
    x.height % BLOCK_DIFFICULTY_INTERVAL = 0 := by
  have bounded := savedCount_le chain
  rw [List.getLast?_take] at lowest
  split at lowest
  case isTrue => cases lowest
  case isFalse some_saved =>
    have inside : savedCount chain - 1 < chain.length := by omega
    obtain ⟨l,end_there⟩ : ∃ l, chain.getLast? = some l := by
      rw [List.getLast?_eq_getElem?, List.getElem?_eq_getElem (by omega)]
      exact ⟨_,rfl⟩
    rw [List.getElem?_eq_getElem inside, Option.some_or] at lowest
    cases lowest
    have at_end := heights (chain.length - 1) l (by rw [← List.getLast?_eq_getElem?, end_there])
    have at_x := heights _ _ (List.getElem?_eq_getElem inside)
    set x := chain[savedCount chain - 1] with of_x
    have count : savedCount chain =
        if 0 < heightOf l % 2016 then
          chain.length - (if 2016 - heightOf l % 2016 < chain.length then
            2016 - heightOf l % 2016 else chain.length)
        else chain.length := by
      rw [savedCount, end_there]
      change (if 0 < (l.height % 2016).toNat then _ else _) = _
      rw [Option.map_some, Option.getD_some, UInt32.toNat_mod]
      rfl
    refine UInt32.toNat_inj.mp ?_
    rw [UInt32.toNat_mod]
    change heightOf x % 2016 = 0
    rw [count] at at_x some_saved
    split at at_x
    case isTrue odd =>
      rw [if_pos odd] at some_saved
      split at at_x
      case isTrue enough =>
        rw [if_pos enough] at some_saved
        omega
      case isFalse few =>
        rw [if_neg few] at some_saved
        omega
    case isFalse even =>
      rw [if_neg even] at some_saved
      omega

/-- What follows always does, and the next block is one of the tree. -/
theorem finish_spec {placed : Placed} {hash : UInt256}
    (good : Good T start floor P last hash placed) (hashed : hash ≠ 0) :
    ∃ relayed, finish placed = some relayed ∧ Chained T start floor relayed.manager ∧
      P relayed.manager.lastBlock.blockHash relayed.manager.wallet ∧
      last ≤ heightOf relayed.manager.lastBlock ∧
      ∀ b ∈ relayed.next, T.Genuine b ∧ b.prevBlock = hash := by
  obtain ⟨chained,holds,rises,saved,named⟩ := good
  have assertion : ∀ (blocks : List BRMerkleBlock), (∀ b ∈ blocks, T.Known b) →
      ∀ b ∈ ((lineage (previous blocks) placed.saveCount placed.block).take
        (savedCount (lineage (previous blocks) placed.saveCount placed.block))).getLast?,
        b.height % BLOCK_DIFFICULTY_INTERVAL = 0 := by
    intro blocks known b lowest
    rcases Nat.eq_zero_or_pos placed.saveCount with none_saved | some_saved
    · have none_there : lineage (previous blocks) 0 placed.block = [] := by
        cases placed.block <;> rfl
      rw [none_saved, none_there] at lowest
      cases lowest
    · obtain ⟨block,there,here⟩ := saved some_saved
      rw [there] at lowest
      exact saved_at_transition (fun k b found => lineage_height known here found) lowest
  rw [finish]
  cases kept : placed.block.filter fun block => block.height ≠ BLOCK_UNKNOWN_HEIGHT with
  | none =>
    dsimp only
    rw [if_pos (assertion _ chained.known)]
    exact ⟨_,rfl,chained,holds,rises,nofun⟩
  | some block =>
    dsimp only
    rw [if_pos (assertion _ chained.known)]
    refine ⟨_,rfl,?_,holds,rises,fun b next => ?_⟩
    · exact { chained with
        orphans := fun b there => chained.orphans b (mem_remove.mp there).1 }
    · have behind : b.prevBlock = hash :=
        (beq_iff_eq.mp (List.find?_eq_some_iff_append.mp next).1).trans
          (named block (Option.filter_eq_some_iff.mp kept).1)
      refine ⟨(chained.orphans b (List.mem_of_find?_eq_some next)).resolve_right
        fun none_before => hashed (behind.symm.trans none_before),behind⟩

end Finishing

end BRPeerManagerSteps
