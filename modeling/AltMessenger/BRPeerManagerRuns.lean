import AltMessenger.BRPeerManagerSteps

/-!
The core over whole runs. Whatever blocks are relayed, in whatever order and by however many
threads, and whatever happens to the wallet between them, what it keeps is a chain that was
verified, until it is told to scan again.
-/
namespace BRPeerManagerRuns
open LinearProbing BRSets WalletDatabase BRMerkleBlocks BRTransactions BRWallets BRWalletOperations
open BRWalletAddresses KeptForests BRPeerManagers BRPeerManagerChains BRPeerManagerSteps
open TransitionRuns

/-- A block that was saved is at its height, where it is no other than a checkpoint. -/
structure Saved (T : BlockTree) (block : BRMerkleBlock) : Prop extends T.Known block where
  checkpoint : ∀ c ∈ checkpoint_array, c.height.toNat = T.height block.blockHash →
    c.hash = block.blockHash

/-- A checkpoint, or a block that was loaded -/
def Starts (loaded : List BRMerkleBlock) (hash : UInt256) : Prop :=
  (∃ c ∈ checkpoint_array, c.hash = hash) ∨ ∃ b ∈ loaded, b.blockHash = hash

section Loading
variable {T : BlockTree} {loaded orphans : List BRMerkleBlock} {manager : BRPeerManager}
  {floor : Nat} {block b : BRMerkleBlock} {wallet : BRWallet} {earliestKeyTime : UInt32}

theorem mem_fromCheckpoints (wallet : BRWallet) (earliestKeyTime : UInt32) :
    b ∈ (fromCheckpoints wallet earliestKeyTime).blocks ↔ Stub b := by
  have apart : (checkpoint_array.map checkpointBlock).Pairwise
      fun x y => byHash.eq x y = false :=
    List.pairwise_map.mpr (checkpoint_hashes.imp fun other => beq_false_of_ne other)
  rw [fromCheckpoints, foldl_insert apart fun _ _ => List.forall_mem_nil _, List.append_nil,
    List.mem_reverse, List.mem_map]
  exact exists_congr fun c => and_congr_right fun _ => eq_comm

theorem fromCheckpoints_once (wallet : BRWallet) (earliestKeyTime : UInt32) :
    (fromCheckpoints wallet earliestKeyTime).blocks.Pairwise fun x y => byHash.eq x y = false := by
  have all : ∀ (xs held : List BRMerkleBlock), (held.Pairwise fun x y => byHash.eq x y = false) →
      (xs.foldl (insert byHash) held).Pairwise fun x y => byHash.eq x y = false := by
    intro xs
    induction xs with
    | nil => exact fun held once => once
    | cons x xs ih => exact fun held once => ih _ (insert_apart once x)
  exact all _ [] .nil

/-- One starts from a checkpoint. -/
theorem fromCheckpoints_last (wallet : BRWallet) (earliestKeyTime : UInt32) :
    Stub (fromCheckpoints wallet earliestKeyTime).lastBlock := by
  have all : ∀ (cs : List Checkpoint) (last : BRMerkleBlock), (∀ c ∈ cs, c ∈ checkpoint_array) →
      Stub last → Stub (cs.foldl (fun lastBlock checkpoint =>
        if checkpoint.timestamp + WEEK < earliestKeyTime then checkpointBlock checkpoint
        else lastBlock) last) := by
    intro cs
    induction cs with
    | nil => exact fun last _ stub => stub
    | cons c cs ih =>
      intro last inside stub
      refine ih _ (fun d there => inside d (List.mem_cons_of_mem c there)) ?_
      dsimp only
      split
      · exact ⟨c,inside c List.mem_cons_self,rfl⟩
      · exact stub
  exact all _ _ (fun c there => List.mem_of_mem_tail there) ⟨_,List.head_mem _,rfl⟩

theorem stub_known (checkpointed : T.Checkpointed) (stub : Stub b) : T.Known b := by
  refine ⟨.inl stub,?_⟩
  obtain ⟨c,there,rfl⟩ := stub
  exact (checkpointed c there).1.symm

theorem stub_starts (stub : Stub b) : T.Accepted (Starts loaded) b.blockHash := by
  obtain ⟨c,there,rfl⟩ := stub
  exact .start (.inl ⟨c,there,rfl⟩)

theorem fromCheckpoints_chained (wallet : BRWallet) (earliestKeyTime : UInt32)
    (checkpointed : T.Checkpointed) (follows : ∀ b ∈ orphans, T.Genuine b ∨ b.prevBlock = 0) :
    Chained T (Starts loaded) (heightOf (fromCheckpoints wallet earliestKeyTime).lastBlock)
      { fromCheckpoints wallet earliestKeyTime with orphans } := by
  have member : ∀ {b}, b ∈ (fromCheckpoints wallet earliestKeyTime).blocks ↔ Stub b :=
    mem_fromCheckpoints wallet earliestKeyTime
  exact
    { once := fromCheckpoints_once wallet earliestKeyTime
      known := fun _ there => stub_known checkpointed (member.mp there)
      accepted := fun _ there => stub_starts (member.mp there)
      stands := fun c listed => ⟨checkpointBlock c,member.mpr ⟨c,listed,rfl⟩,rfl⟩
      stubs := fun _ _ _ => (Nat.lt_or_ge _ _).symm
      followed := fun _ there whole => absurd (member.mp there) whole
      single := fun _ there _ _ whole => absurd (member.mp there) whole
      orphans := follows
      last := member.mpr (fromCheckpoints_last wallet earliestKeyTime)
      above := Nat.le_refl _
      checkpoints := rfl }

theorem first_blocks
    (there : b ∈ insert byHash (fromCheckpoints wallet earliestKeyTime).blocks block) :
    b = block ∨ Stub b :=
  (mem_insert.mp there).imp_right fun inside =>
    (mem_fromCheckpoints wallet earliestKeyTime).mp inside.1

/-- The first block that was loaded is put to the checkpoints. -/
theorem first_chained (checkpointed : T.Checkpointed) (saved : Saved T block)
    (there : block ∈ loaded) (follows : ∀ b ∈ orphans, T.Genuine b ∨ b.prevBlock = 0) :
    Chained T (Starts loaded) (heightOf block)
      { fromCheckpoints wallet earliestKeyTime with
        blocks := insert byHash (fromCheckpoints wallet earliestKeyTime).blocks block
        lastBlock := block
        orphans } where
  once := insert_apart (fromCheckpoints_once wallet earliestKeyTime) block
  known b inside := by
    rcases first_blocks inside with rfl | stub
    · exact saved.toKnown
    · exact stub_known checkpointed stub
  accepted b inside := by
    rcases first_blocks inside with rfl | stub
    · exact .start (.inr ⟨b,there,rfl⟩)
    · exact stub_starts stub
  stubs _ _ _ := (Nat.lt_or_ge _ _).symm
  stands c listed := insert_stands
    ⟨checkpointBlock c,(mem_fromCheckpoints wallet earliestKeyTime).mpr ⟨c,listed,rfl⟩,rfl⟩ block
  followed b inside whole := by
    rcases first_blocks inside with rfl | stub
    · exact ⟨Nat.le_refl _,fun _ => Nat.le_refl _⟩
    · exact absurd stub whole
  single b inside b' inside' whole whole' _ _ :=
    ((first_blocks inside).resolve_right whole).trans
      ((first_blocks inside').resolve_right whole').symm
  orphans := follows
  last := mem_insert.mpr (.inl rfl)
  above := Nat.le_refl _
  checkpoints := rfl

/-- A block that was loaded is put behind the last one. -/
theorem next_chained (chained : Chained T (Starts loaded) floor manager) (saved : Saved T block)
    (there : block ∈ loaded) (genuine : T.Genuine block)
    (next : block.prevBlock = manager.lastBlock.blockHash)
    (follows : ∀ b ∈ orphans, T.Genuine b ∨ b.prevBlock = 0) :
    Chained T (Starts loaded) floor { manager with
      blocks := insert byHash manager.blocks block
      lastBlock := block
      orphans } := by
  have level : heightOf block = heightOf manager.lastBlock + 1 := by
    rw [saved.height, genuine.rises, next, (chained.known _ chained.last).height]
  have floor_le := chained.above
  have behind : previous manager.blocks block = some manager.lastBlock :=
    (found_iff chained.once).mpr ⟨chained.last,next.symm⟩
  have put := chained.put genuine saved.height (.start (.inr ⟨block,there,rfl⟩))
    (mem_insert.mpr (.inl rfl)) (by omega) (Nat.le_refl _) (fun _ => by omega)
    (fun x inside other stub => ?_) (not_stub chained.known behind)
    (fun x inside whole same _ => ?_) manager.wallet
  · exact { put with orphans := follows }
  · rcases chained.stubs x inside stub with below | beyond
    · exact .inl below
    · refine .inr (Nat.lt_of_le_of_ne (by omega) fun same => other ?_)
      obtain ⟨c,listed,rfl⟩ := stub
      exact saved.checkpoint c listed (same.symm.trans saved.height)
  · have below := (chained.followed x inside whole).1
    omega

theorem mem_insertAll {xs held : List BRMerkleBlock} {K : Keys BRMerkleBlock}
    (there : b ∈ xs.foldl (insert K) held) : b ∈ xs ∨ b ∈ held := by
  induction xs generalizing held with
  | nil => exact .inr there
  | cons x xs ih =>
    rcases ih there with later | before
    · exact .inl (List.mem_cons_of_mem x later)
    · rcases List.mem_cons.mp before with rfl | rest
      · exact .inl List.mem_cons_self
      · exact .inr (mem_remove.mp rest).1

theorem insertAll_length {K : Keys BRMerkleBlock} (xs held : List BRMerkleBlock) :
    (xs.foldl (insert K) held).length ≤ xs.length + held.length := by
  induction xs generalizing held with
  | nil => exact Nat.le_add_left _ _
  | cons x xs ih =>
    have one := insert_length (K := K) held x
    have rest := ih (insert K held x)
    rw [List.foldl_cons, List.length_cons]
    omega

theorem lastTransition_mem (found : lastTransition loaded = some b) : b ∈ loaded := by
  have all : ∀ (xs : List BRMerkleBlock) (best : Option BRMerkleBlock),
      (∀ t ∈ best, t ∈ loaded) → (∀ x ∈ xs, x ∈ loaded) →
        ∀ t ∈ xs.foldl (fun block b =>
          if b.height % BLOCK_DIFFICULTY_INTERVAL = 0 ∧ ∀ t ∈ block, t.height < b.height then some b
          else block) best, t ∈ loaded := by
    intro xs
    induction xs with
    | nil => exact fun best inside _ => inside
    | cons x xs ih =>
      intro best inside among
      obtain ⟨first,among⟩ := List.forall_mem_cons.mp among
      refine ih _ (fun t there => ?_) among
      dsimp only at there
      split at there
      · cases there
        exact first
      · exact inside t there
  exact all loaded none (fun t there => absurd there (Option.not_mem_none t))
    (fun x there => there) b found

/-- The loop takes an orphan each turn, and what it leaves is chained. -/
theorem follow_spec (fuel : Nat) (saved : ∀ b ∈ loaded, Saved T b)
    (chained : Chained T (Starts loaded) floor manager)
    (among : ∀ b ∈ manager.orphans, b ∈ loaded) {next : Option BRMerkleBlock}
    (found : next = lookup byPrevBlock manager.orphans (orphanOf manager.lastBlock.blockHash))
    (enough : manager.orphans.length < fuel) :
    ∃ m, follow fuel manager next = some m ∧ Chained T (Starts loaded) floor m ∧
      m.wallet = manager.wallet := by
  induction fuel generalizing manager next with
  | zero => omega
  | succ fuel ih =>
    cases next with
    | none => exact ⟨manager,rfl,chained,rfl⟩
    | some block =>
      have there : block ∈ manager.orphans := List.mem_of_find?_eq_some found.symm
      have behind : block.prevBlock = manager.lastBlock.blockHash :=
        beq_iff_eq.mp (List.find?_eq_some_iff_append.mp found.symm).1
      have genuine : T.Genuine block :=
        (chained.orphans block there).resolve_right fun none_before =>
          (chained.known _ chained.last).real.hashed (behind.symm.trans none_before)
      have self : byPrevBlock.eq block (orphanOf block.prevBlock) = true := beq_self_eq_true _
      have fewer : (remove byPrevBlock manager.orphans (orphanOf block.prevBlock)).length <
          manager.orphans.length :=
        List.length_filter_lt_length_iff_exists.mpr ⟨block,there,by rw [self]; decide⟩
      rw [follow]
      have left : ∀ b ∈ remove byPrevBlock manager.orphans (orphanOf block.prevBlock),
          T.Genuine b ∨ b.prevBlock = 0 := fun b inside =>
        chained.orphans b (mem_remove.mp inside).1
      have moved := next_chained chained (saved block (among block there)) (among block there)
        genuine behind left
      obtain ⟨m,ran,chained,same⟩ := ih moved (fun b inside => among b (mem_remove.mp inside).1)
        rfl (by dsimp only; omega)
      exact ⟨m,ran,chained,same⟩

/-- A manager is made of whatever was saved, and keeps a chain of it. -/
theorem new_spec (checkpointed : T.Checkpointed) (saved : ∀ b ∈ loaded, Saved T b)
    (wallet : BRWallet) (earliestKeyTime : UInt32) :
    ∃ m floor, BRPeerManagerNew wallet earliestKeyTime loaded = some m ∧
      Chained T (Starts loaded) floor m ∧ m.wallet = wallet := by
  have low : ∀ b ∈ loaded, b.height ≠ BLOCK_UNKNOWN_HEIGHT := fun b there same => by
    have height := (saved b there).height
    rw [heightOf, same] at height
    rcases (saved b there).real with ⟨c,listed,rfl⟩ | genuine
    · have small := (checkpoints_good c listed).2.2
      have high : c.height = BLOCK_UNKNOWN_HEIGHT := same
      rw [high] at small
      exact Nat.lt_irrefl _ small
    · have small := genuine.low
      omega
  have follows : ∀ b ∈ loaded.foldl (insert byPrevBlock) [],
      b ∈ loaded ∧ (T.Genuine b ∨ b.prevBlock = 0) := fun b there => by
    have inside := (mem_insertAll there).resolve_right List.not_mem_nil
    refine ⟨inside,?_⟩
    rcases (saved b inside).real with ⟨c,-,rfl⟩ | genuine
    · exact .inr rfl
    · exact .inl genuine
  have few := insertAll_length (K := byPrevBlock) loaded []
  rw [BRPeerManagerNew, if_pos low]
  cases first : lastTransition loaded with
  | none =>
    exact ⟨_,_,rfl,fromCheckpoints_chained wallet earliestKeyTime checkpointed
      fun b there => (follows b there).2,rfl⟩
  | some block =>
    have there := lastTransition_mem first
    rw [follow]
    have left : ∀ b ∈ remove byPrevBlock (loaded.foldl (insert byPrevBlock) [])
        (orphanOf block.prevBlock), T.Genuine b ∨ b.prevBlock = 0 := fun b inside =>
      (follows b (mem_remove.mp inside).1).2
    have begun := @first_chained T loaded _ block wallet earliestKeyTime checkpointed
      (saved block there) there left
    have fewer := List.length_filter_le (fun b => !byPrevBlock.eq b (orphanOf block.prevBlock))
      (loaded.foldl (insert byPrevBlock) [])
    obtain ⟨m,ran,chained,same⟩ := follow_spec (loaded.length + 1) saved begun
      (fun b inside => (follows b (mem_remove.mp inside).1).1) rfl (by
        change (List.filter _ _).length < _
        rw [List.length_nil] at few
        omega)
    exact ⟨m,_,ran,chained,same⟩

end Loading

/-- What happens to the manager: a block is relayed, or one that was an orphan comes next; something
    happens to the wallet; a peer tells of another height; or it gets another bloom filter. -/
inductive Event where
  | relayed (relay : Relay) (block : BRMerkleBlock)
  | wallet (call : Call) (event : BRWalletRuns.Event)
  | estimated (height : UInt32)
  | filtered

section Steps
variable (T : BlockTree) (address : BRTxOutput → Address) (derive : Bool → Nat → Option Address)
  (rank : UInt256 → Nat)

def step (manager : BRPeerManager) : Event → Option BRPeerManager
  | .relayed relay block =>
    (peerRelayedBlock address relay manager block).map Relayed.manager
  | .wallet call event =>
    (BRWalletRuns.step address derive manager.wallet (call,event)).map fun wallet =>
      { manager with wallet }
  | .estimated estimatedHeight => some { manager with estimatedHeight }
  | .filtered => some { manager with orphans := [] }

/-- Blocks are those that their hashes name, and the wallet is asked what it may be asked. -/
def Allowed (manager : BRPeerManager) : Event → Prop
  | .relayed _ block => T.Genuine block
  | .wallet call event => BRWalletRuns.Allowed rank manager.wallet (call,event)
  | _ => True

/-- The block is lost. -/
def Loses (manager : BRPeerManager) : Event → Prop
  | .relayed relay block => Lost relay manager block
  | _ => False

variable {T address derive rank} {P : UInt256 → BRWallet → Prop}
  {Fit : UInt256 → UInt256 → BRMerkleBlock → BRWallet → Prop} {start : UInt256 → Prop}
  {floor : Nat} {manager : BRPeerManager} {block : BRMerkleBlock} {relay : Relay}

/-- A block that is relayed leaves a chain that was verified, unless it is lost. -/
theorem relayed_spec (keeps : Keeps T address P Fit) (checkpointed : T.Checkpointed)
    (chained : Chained T start floor manager)
    (holds : P manager.lastBlock.blockHash manager.wallet) (genuine : T.Genuine block)
    (fit : Fits Fit T relay manager block) :
    (Lost relay manager block ∧ peerRelayedBlock address relay manager block = none) ∨
      (¬ Lost relay manager block ∧
        ∃ relayed, peerRelayedBlock address relay manager block = some relayed ∧
          Chained T start floor relayed.manager ∧
          P relayed.manager.lastBlock.blockHash relayed.manager.wallet ∧
          heightOf manager.lastBlock ≤ heightOf relayed.manager.lastBlock ∧
          ∀ b ∈ relayed.next, T.Genuine b ∧ b.prevBlock = block.blockHash) := by
  rw [peerRelayedBlock]
  rcases place_spec keeps checkpointed chained holds genuine fit with
    ⟨lost,none_left⟩ | ⟨fine,placed,put,good⟩
  · rw [none_left]
    exact .inl ⟨lost,rfl⟩
  · rw [put]
    exact .inr ⟨fine,finish_spec good genuine.hashed⟩

theorem sound_keeps : Keeps T address (fun _ w => BRWalletRuns.Sound address derive rank w)
    fun _ _ _ _ => True where
  extend sound _ := sound
  confirm relay last w b txHashes timestamp sound _ _ _ := by
    rw [BRPeerManagers.updateTx]
    split
    · exact ⟨w,rfl,sound⟩
    · exact BRWalletRuns.updateTransactions_sound sound relay.call txHashes b.height timestamp
  turn relay _ _ _ b sound _ _ := BRWalletRuns.unconfirmed_sound sound relay.call b.height

theorem last_checkpoint : ∀ c ∈ checkpoint_array, c.height.toNat = lastCheckpoint →
    (c.height + 1) % BLOCK_DIFFICULTY_INTERVAL ≠ 0 ∧
      ∀ d ∈ checkpoint_array, (d.height == c.height + 1) = false := by decide

theorem next_verified (checkpointed : T.Checkpointed) (chained : Chained T start floor manager)
    {c : Checkpoint} (listed : c ∈ checkpoint_array) (highest : c.height.toNat = lastCheckpoint)
    {prev : BRMerkleBlock} (known : T.Known prev) (same : prev.blockHash = c.hash)
    (height : prev.height = c.height) (behind : block.prevBlock = c.hash)
    (target : block.target = c.target) :
    BRPeerManagerVerifyBlock manager (raised block prev) prev = some (true,manager.blocks) := by
  obtain ⟨odd,unlisted⟩ := last_checkpoint c listed highest
  have at_height : (raised block prev).height = c.height + 1 := congrArg (· + 1) height
  have targets : (raised block prev).target = prev.target := by
    rw [(known.header checkpointed).2, same, (checkpointed c listed).2.2]
    exact target
  have none_there : lookup byHeight manager.checkpoints (raised block prev) = none := by
    rw [chained.checkpoints, lookup_inserted checkpoints_apart, Option.or_eq_none_iff]
    refine ⟨List.find?_eq_none.mpr fun x inside => ?_,rfl⟩
    obtain ⟨d,member,rfl⟩ := List.mem_map.mp inside
    exact Bool.eq_false_iff.mp ((congrArg (d.height == ·) at_height).trans (unlisted d member))
  unfold BRPeerManagerVerifyBlock BRMerkleBlockVerifyDifficulty
  dsimp only
  rw [at_height, if_neg odd, if_neg odd, none_there, targets, height]
  simp [raised, behind, same]

/-- While the last block is below the last checkpoint, the block behind that is one that stays
    unjoined, where it is not kept for later. -/
theorem next_lost (checkpointed : T.Checkpointed) (chained : Chained T start floor manager)
    (low : heightOf manager.lastBlock < lastCheckpoint) {c : Checkpoint}
    (listed : c ∈ checkpoint_array) (highest : c.height.toNat = lastCheckpoint)
    (genuine : T.Genuine block) (behind : block.prevBlock = c.hash)
    (target : block.target = c.target) (taken : ¬ Ignored relay manager block)
    (told : relay.peerLastBlock ≤ manager.lastBlock.height) : Lost relay manager block := by
  obtain ⟨prev,there,same⟩ := chained.stands c listed
  have known := chained.known prev there
  have level : heightOf prev = lastCheckpoint := by
    rw [known.height, same, (checkpointed c listed).1, highest]
  have height : prev.height = c.height := UInt32.toNat_inj.mp (level.trans highest.symm)
  have stub : Stub prev := by
    by_contra whole
    have below := (chained.followed prev there whole).1
    omega
  have found : previous manager.blocks block = some prev :=
    (found_iff chained.once).mpr ⟨there,same.trans behind.symm⟩
  obtain ⟨raised_level,next⟩ := raised_height chained.known genuine found
  have new : ∀ x ∈ manager.blocks, x.blockHash ≠ block.blockHash := fun x inside equal => by
    have above : heightOf x = lastCheckpoint + 1 := by
      rw [(chained.known x inside).height, equal, ← raised_level, next, level]
    by_cases whole : Stub x
    · have most := whole.height.2.1
      omega
    · have below := (chained.followed x inside whole).1
      omega
  have other : block.prevBlock ≠ manager.lastBlock.blockHash := fun one => by
    have equal := (chained.known _ chained.last).height
    rw [← one, behind, ← same, ← known.height] at equal
    omega
  have verified := next_verified checkpointed chained listed highest known same height behind target
  have aside : Aside relay manager block prev manager.blocks := ⟨taken,found,verified,other⟩
  have turns : Turns relay manager block prev manager.blocks :=
    { aside with
      new := List.find?_eq_none.mpr fun x inside equal => new x inside (beq_iff_eq.mp equal)
      now := fun later => Nat.not_lt.mpr told later.1
      late := by omega
      longer := by omega }
  have last_there : manager.lastBlock ∈ insert byHash manager.blocks (raised block prev) :=
    mem_insert.mpr (.inr ⟨chained.last,new _ chained.last⟩)
  have all_known := insert_known chained.known ⟨.inr (raised_genuine genuine prev),raised_level⟩
  have down_high : ∀ b, Reaches (previous (insert byHash manager.blocks (raised block prev)))
      (raised block prev) b → lastCheckpoint ≤ heightOf b := fun b down => by
    have step := @previous_inserted manager.blocks (raised block prev) prev chained.once found
      (new prev there)
    rcases reaches_stub all_known step stub down with rfl | rfl
    · omega
    · omega
  have down_low : ∀ b, Reaches (previous (insert byHash manager.blocks (raised block prev)))
      manager.lastBlock b → heightOf b ≤ heightOf manager.lastBlock := fun b down =>
    ((forest_of_known all_known).reaches (all_known _ last_there) down).2
  refine ⟨prev,manager.blocks,.inr ⟨turns,fun b one two => ?_,manager.lastBlock,.refl,?_⟩⟩
  · have high := down_high b one
    have less := down_low b two
    omega
  · intro b one
    have high := down_high b one
    change heightOf manager.lastBlock ≤ _
    omega

/-- What every step keeps -/
structure Followed (T : BlockTree) (address : BRTxOutput → Address)
    (derive : Bool → Nat → Option Address) (rank : UInt256 → Nat) (start : UInt256 → Prop)
    (floor low : Nat) (manager : BRPeerManager) : Prop where
  chained : Chained T start floor manager
  sound : BRWalletRuns.Sound address derive rank manager.wallet
  rises : low ≤ heightOf manager.lastBlock

theorem step_spec (apart : Apart derive) (checkpointed : T.Checkpointed) {low : Nat}
    (followed : Followed T address derive rank start floor low manager) {event : Event}
    (allowed : Allowed T rank manager event) :
    (Loses manager event ∧ step address derive manager event = none) ∨
      (¬ Loses manager event ∧ ∃ t, step address derive manager event = some t ∧
        Followed T address derive rank start floor low t) := by
  obtain ⟨chained,sound,rises⟩ := followed
  cases event with
  | relayed relay block =>
    rcases relayed_spec sound_keeps checkpointed chained sound allowed
      (fun _ _ _ _ _ _ _ => trivial) with
      ⟨lost,none_left⟩ | ⟨fine,relayed,took,chained,sound,higher,-⟩
    · exact .inl ⟨lost,congrArg (Option.map Relayed.manager) none_left⟩
    · exact .inr ⟨fine,relayed.manager,congrArg (Option.map Relayed.manager) took,
        ⟨chained,sound,Nat.le_trans rises higher⟩⟩
  | wallet call event =>
    obtain ⟨w,took,sound⟩ := BRWalletRuns.step_sound apart manager.wallet (call,event) sound allowed
    refine .inr ⟨id,{ manager with wallet := w },?_,⟨{ chained with },sound,rises⟩⟩
    rw [step, took]
    rfl
  | estimated height => exact .inr ⟨id,_,rfl,⟨{ chained with },sound,rises⟩⟩
  | filtered =>
    exact .inr ⟨id,_,rfl,⟨{ chained with orphans := List.forall_mem_nil _ },sound,rises⟩⟩

/-- A block that is relayed, and the orphans that follow it, are one of the runs. -/
theorem relayFrom_runs (checkpointed : T.Checkpointed) {fuel : Nat}
    (chained : Chained T start floor manager)
    (sound : BRWalletRuns.Sound address derive rank manager.wallet) (genuine : T.Genuine block)
    (enough : BLOCK_UNKNOWN_HEIGHT.toNat ≤ T.height block.blockHash + fuel) :
    ∃ events, Along (step address derive) (Allowed T rank) manager events ∧
      relayFrom address relay fuel manager block = exec (step address derive) manager events := by
  induction fuel generalizing manager block with
  | zero =>
    have low := genuine.low
    omega
  | succ fuel ih =>
    rw [relayFrom]
    rcases relayed_spec sound_keeps checkpointed chained sound genuine
      (fun _ _ _ _ _ _ _ => trivial) with
      ⟨-,none_left⟩ | ⟨-,relayed,took,chained,sound,-,later⟩
    · have stuck : step address derive manager (.relayed relay block) = none :=
        congrArg (Option.map Relayed.manager) none_left
      refine ⟨[.relayed relay block],⟨genuine,fun _ _ => trivial⟩,?_⟩
      rw [exec, stuck, none_left]
      rfl
    · have moved : step address derive manager (.relayed relay block) = some relayed.manager :=
        congrArg (Option.map Relayed.manager) took
      simp only [took, Option.bind_eq_bind, Option.bind_some]
      cases next : relayed.next with
      | none =>
        refine ⟨[.relayed relay block],⟨genuine,fun _ _ => trivial⟩,?_⟩
        rw [exec, moved]
        rfl
      | some b =>
        obtain ⟨genuine_b,behind⟩ := later b next
        have rises := genuine_b.rises
        rw [behind] at rises
        obtain ⟨events,allowed,ran⟩ := ih chained sound genuine_b (by omega)
        refine ⟨.relayed relay block :: events,along_cons genuine moved allowed,?_⟩
        rw [exec, moved]
        exact ran

end Steps

section Runs
variable {T : BlockTree} {address : BRTxOutput → Address} {derive : Bool → Nat → Option Address}
  {rank : UInt256 → Nat} {loaded : List BRMerkleBlock} {wallet : BRWallet}

theorem new_followed (checkpointed : T.Checkpointed) (saved : ∀ b ∈ loaded, Saved T b)
    (sound : BRWalletRuns.Sound address derive rank wallet) (earliestKeyTime : UInt32) :
    ∃ m floor, BRPeerManagerNew wallet earliestKeyTime loaded = some m ∧
      Followed T address derive rank (Starts loaded) floor (heightOf m.lastBlock) m := by
  obtain ⟨m,floor,made,chained,same⟩ := new_spec checkpointed saved wallet earliestKeyTime
  exact ⟨m,floor,made,chained,same ▸ sound,Nat.le_refl _⟩

theorem run_followed (apart : Apart derive) (checkpointed : T.Checkpointed)
    {start : UInt256 → Prop} {floor low : Nat} {m t : BRPeerManager} {events : List Event}
    (begun : Followed T address derive rank start floor low m)
    (allowed : Along (step address derive) (Allowed T rank) m events)
    (ran : exec (step address derive) m events = some t) :
    Followed T address derive rank start floor low t := by
  refine exec_keeps (fun s e t followed allowed took => ?_) begun allowed ran
  rcases step_spec apart checkpointed followed allowed with ⟨-,lost⟩ | ⟨-,u,took',next⟩
  · rw [took] at lost
    cases lost
  · cases took.symm.trans took'
    exact next

/-- As long as the last block is below the last checkpoint, a peer that told of no higher one puts
    an end to the run with the block behind that checkpoint. -/
theorem next_ends_run (apart : Apart derive) (checkpointed : T.Checkpointed)
    (saved : ∀ b ∈ loaded, Saved T b) (sound : BRWalletRuns.Sound address derive rank wallet)
    (earliestKeyTime : UInt32) :
    ∃ m, BRPeerManagerNew wallet earliestKeyTime loaded = some m ∧
      ∀ events, Along (step address derive) (Allowed T rank) m events →
        ∀ t, exec (step address derive) m events = some t →
          heightOf t.lastBlock < lastCheckpoint → ∀ c ∈ checkpoint_array,
            c.height.toNat = lastCheckpoint → ∀ relay block, T.Genuine block →
              block.prevBlock = c.hash → block.target = c.target → ¬ Ignored relay t block →
                relay.peerLastBlock ≤ t.lastBlock.height →
                  peerRelayedBlock address relay t block = none := by
  obtain ⟨m,floor,made,begun⟩ := new_followed checkpointed saved sound earliestKeyTime
  refine ⟨m,made,fun events allowed t ran low c listed highest relay block genuine behind target
    taken told => ?_⟩
  obtain ⟨chained,sound,-⟩ := run_followed apart checkpointed begun allowed ran
  have lost := next_lost checkpointed chained low listed highest genuine behind target taken told
  rcases relayed_spec sound_keeps checkpointed chained sound genuine
    (fun _ _ _ _ _ _ _ => trivial) with ⟨-,none_left⟩ | ⟨fine,-⟩
  · exact none_left
  · exact absurd lost fine

end Runs

/-- A block behind a checkpoint, and the tree of the checkpoints and it -/
def treeWith (block : BRMerkleBlock) (height : Nat) : BlockTree where
  prev hash := if hash = block.blockHash then block.prevBlock else 0
  height hash := if hash = block.blockHash then height else
    ((checkpoint_array.find? fun c => c.hash = hash).map fun c => c.height.toNat).getD 0
  time hash := if hash = block.blockHash then block.timestamp else
    ((checkpoint_array.find? fun c => c.hash = hash).map Checkpoint.timestamp).getD 0
  target hash := if hash = block.blockHash then block.target else
    ((checkpoint_array.find? fun c => c.hash = hash).map Checkpoint.target).getD 0
  holds _ _ := True

/-- The block behind the first one, a header -/
def second : BRMerkleBlock :=
  { BRMerkleBlockNew with
    blockHash := 0x839a8e6886ab5951d76f411475428afc90947ee320161bbf18eb6048
    version := 1
    prevBlock := 0x19d6689c085ae165831e934ff763ae46a2a6c172b3f1b60a8ce26f
    merkleRoot := 0x0e3e2357e806b6cdb1f70b54c3a3a17b6714ee1f0e68bebb44a74b1efd512098
    timestamp := 1231469665
    target := 0x1d00ffff
    nonce := 2573394689 }

/-- A block of one transaction behind the last checkpoint -/
def behindLast : BRMerkleBlock :=
  { BRMerkleBlockNew with
    blockHash := 6
    prevBlock := 0x431a2f4619afe62357cd16589b638bb638f2992058d88e
    merkleRoot := 7
    timestamp := 1493260000
    target := 0x18021b3e
    totalTx := 1
    hashes := [7]
    hashesCount := 1
    flags := [1]
    flagsLen := 1 }

theorem second_checkpointed : (treeWith second 1).Checkpointed := by
  unfold BlockTree.Checkpointed
  decide +kernel

theorem behindLast_checkpointed : (treeWith behindLast 463681).Checkpointed := by
  unfold BlockTree.Checkpointed
  decide +kernel

theorem second_genuine : (treeWith second 1).Genuine second where
  hashed := by decide
  prev := rfl
  time := rfl
  target := rfl
  rises := by decide +kernel
  low := by decide +kernel
  reports := ⟨[],by decide +kernel,List.forall_mem_nil _⟩

theorem behindLast_genuine : (treeWith behindLast 463681).Genuine behindLast where
  hashed := by decide
  prev := rfl
  time := rfl
  target := rfl
  rises := by decide +kernel
  low := by decide +kernel
  reports := ⟨[7],by decide +kernel,fun _ _ => trivial⟩

theorem empty_sound :
    BRWalletRuns.Sound BRWalletRuns.firstAddress longer BitVec.toNat emptyWallet where
  once := .nil
  listed := List.forall_mem_nil _
  distinct := .nil
  safe := List.forall_mem_nil _
  chains := empty_chains
  associated := List.forall_mem_nil _
  balance := rfl
  flow := rfl
  apart := .nil
  owned := List.forall_mem_nil _
  history := rfl

def secondRelayed : List Event := [.estimated 1, .relayed ⟨BRWalletRuns.aCall,1,true⟩ second]

theorem secondRelayed_allowed {manager : BRPeerManager} :
    Along (step BRWalletRuns.firstAddress longer) (Allowed (treeWith second 1) BitVec.toNat) manager
      secondRelayed :=
  ⟨trivial,fun _ _ => ⟨second_genuine,fun _ _ => trivial⟩⟩

theorem secondRelayed_taken : ((BRPeerManagerNew emptyWallet 1240000000 []).bind fun m =>
    exec (step BRWalletRuns.firstAddress longer) m secondRelayed).map
      (fun t => t.lastBlock.blockHash) = some second.blockHash := by decide +kernel

theorem behindLast_ends_run : ∃ m, BRPeerManagerNew emptyWallet 1240000000 [] = some m ∧
    peerRelayedBlock BRWalletRuns.firstAddress ⟨BRWalletRuns.aCall,0,true⟩ m behindLast = none := by
  obtain ⟨m,made,runs⟩ := @next_ends_run (treeWith behindLast 463681) BRWalletRuns.firstAddress
    longer BitVec.toNat [] emptyWallet longer_apart behindLast_checkpointed (List.forall_mem_nil _)
    empty_sound 1240000000
  have first : (BRPeerManagerNew emptyWallet 1240000000 []).map (fun m => m.lastBlock.height) =
      some 0 := by decide +kernel
  rw [made, Option.map_some] at first
  have height := Option.some.inj first
  refine ⟨m,made,runs [] trivial m rfl ?_ (checkpoint_array.getLast some_checkpoint)
    (List.getLast_mem _) rfl ⟨BRWalletRuns.aCall,0,true⟩ behindLast behindLast_genuine
    (by decide +kernel) (by decide +kernel) ?_ ?_⟩
  · rw [heightOf, height]
    decide
  · rintro (⟨none_counted,-⟩ | pending)
    · cases none_counted
    · cases pending
  · rw [height]
    decide

end BRPeerManagerRuns
