import AltMessenger.BRPeerManagerRuns

/-!
The confirmations that the wallet of the core shows. A transaction gets the height of a block that
holds it, and loses it where the chain turns to a fork, as long as the list of the wallet is in the
order of heights there and the fork joins the chain.
-/
namespace BRPeerManagerConfirmations
open LinearProbing BRSets WalletDatabase BRMerkleBlocks BRTransactions BRWallets BRWalletOperations
open BRWalletAddresses KeptForests BRPeerManagers BRPeerManagerChains BRPeerManagerSteps
open BRPeerManagerRuns TransitionRuns

/-- A transaction that is confirmed was so before, at its height, or is one of these, which are
    confirmed at this height. -/
def Confirms (w s : BRWallet) (txHashes : List UInt256) (blockHeight : UInt32) : Prop :=
  ∀ t ∈ s.transactions, t.blockHeight ≠ TX_UNCONFIRMED →
    (∃ u ∈ w.transactions, u.txHash = t.txHash ∧ u.blockHeight = t.blockHeight) ∨
      t.txHash ∈ txHashes ∧ t.blockHeight = blockHeight

section Listing
variable {address : BRTxOutput → Address} {derive : Bool → Nat → Option Address} {call : Call}
  {w m s : BRWallet} {tx : BRTransaction} {txHashes more : List UInt256} {txHash : UInt256}
  {blockHeight timestamp : UInt32} {now : Int}

theorem Confirms.of_eq (same : s.transactions = w.transactions) :
    Confirms w s txHashes blockHeight := fun t there _ => .inl ⟨t,same ▸ there,rfl,rfl⟩

theorem Confirms.trans (first : Confirms w m txHashes blockHeight)
    (second : Confirms m s more blockHeight) : Confirms w s (txHashes ++ more) blockHeight := by
  intro t there confirmed
  rcases second t there confirmed with ⟨u,inside,hash,height⟩ | ⟨named,height⟩
  · rcases first u inside (height ▸ confirmed) with ⟨v,before,hash',height'⟩ | ⟨named,height'⟩
    · exact .inl ⟨v,before,hash'.trans hash,height'.trans height⟩
    · exact .inr ⟨List.mem_append_left _ (hash ▸ named),height.symm.trans height'⟩
  · exact .inr ⟨List.mem_append_right _ named,height⟩

theorem sweep_txs (took : sweep w = some s) : s.transactions = w.transactions := by
  obtain ⟨swept,-,last⟩ := Option.bind_eq_some_iff.mp took
  cases last
  rfl

theorem addOutputs_txs (os : List (BRTxOutput × Nat)) :
    (os.foldl (addOutput address txHash) w).transactions = w.transactions := by
  induction os generalizing w with
  | nil => rfl
  | cons o os ih =>
    rw [List.foldl_cons, ih, addOutput]
    split
    · rfl
    · dsimp only
      split <;> rfl

theorem balanceTx_txs (took : BRWallets.updateTx address now w tx = some s) :
    s.transactions = w.transactions := by
  unfold BRWallets.updateTx at took
  split at took
  · cases took
    rfl
  · dsimp only at took
    split at took
    · cases took
      rfl
    · obtain ⟨mid,swept,last⟩ := Option.bind_eq_some_iff.mp took
      cases last
      exact (sweep_txs swept).trans (addOutputs_txs _)

theorem updateBalance_txs (took : BRWalletUpdateBalance address now w = some s) :
    s.transactions = w.transactions := by
  have all : ∀ (txs : List BRTransaction) (w : BRWallet),
      txs.foldlM (BRWallets.updateTx address now) w = some s →
        s.transactions = w.transactions := by
    intro txs
    induction txs with
    | nil =>
      intro w took
      cases took
      rfl
    | cons tx txs ih =>
      intro w took
      rw [List.foldlM_cons] at took
      obtain ⟨mid,first,rest⟩ := Option.bind_eq_some_iff.mp took
      exact (ih mid rest).trans (balanceTx_txs first)
  exact all w.transactions (cleared w) took

theorem updateOne_confirms {needsUpdate needs : Bool}
    (took : updateOne address blockHeight timestamp (w,needsUpdate) txHash = some (s,needs)) :
    Confirms w s [txHash] blockHeight := by
  have changed : Confirms w (changeTx (setBlock txHash blockHeight timestamp) w) [txHash]
      blockHeight := by
    intro t there _
    obtain ⟨u,listed,rfl⟩ := List.mem_map.mp there
    by_cases same : u.txHash = txHash
    · rw [setBlock, if_pos same]
      exact .inr ⟨List.mem_singleton.mpr same,rfl⟩
    · rw [setBlock, if_neg same]
      exact .inl ⟨u,listed,rfl,rfl⟩
  rw [updateOne] at took
  cases found : w.forHash txHash with
  | none =>
    rw [found] at took
    cases took
    exact .of_eq rfl
  | some tx =>
    rw [found] at took
    dsimp only at took
    split at took
    · cases took
      exact .of_eq rfl
    · split at took
      · cases took
        exact changed
      · split at took
        · cases took
          exact changed
        · split at took
          · cases took
          · cases took
            exact changed

/-- An update confirms only what it names, at its height. -/
theorem updateTransactions_confirms
    (took : BRWalletUpdateTransactions address call w txHashes blockHeight timestamp = some s) :
    Confirms w s txHashes blockHeight := by
  have all : ∀ (txHashes : List UInt256) (w s : BRWallet) (needsUpdate needs : Bool),
      txHashes.foldlM (updateOne address blockHeight timestamp) (w,needsUpdate) =
        some (s,needs) → Confirms w s txHashes blockHeight := by
    intro txHashes
    induction txHashes with
    | nil =>
      intro w s needsUpdate needs took
      cases took
      exact .of_eq rfl
    | cons txHash txHashes ih =>
      intro w s needsUpdate needs took
      rw [List.foldlM_cons] at took
      obtain ⟨⟨mid,needed⟩,first,rest⟩ := Option.bind_eq_some_iff.mp took
      exact (updateOne_confirms first).trans (ih mid s needed needs rest)
  rw [BRWalletUpdateTransactions] at took
  obtain ⟨⟨mid,needs⟩,folded,last⟩ := Option.bind_eq_some_iff.mp took
  have start : (if w.blockHeight < blockHeight then { w with blockHeight } else w).transactions =
      w.transactions := by
    split <;> rfl
  have none_more : Confirms w _ [] blockHeight := .of_eq start
  have confirmed := none_more.trans (all txHashes _ mid false needs folded)
  dsimp only at last
  split at last
  · exact fun t there => confirmed t (updateBalance_txs last ▸ there)
  · cases last
    exact confirmed

/-- The last transactions of the list lose their heights. -/
theorem unconfirmed_txs
    (took : BRWalletSetTxUnconfirmedAfter address call w blockHeight = some s) :
    s.transactions = w.transactions.map fun tx =>
      if tx.txHash ∈ (w.transactions.rtakeWhile fun t => blockHeight < t.blockHeight).map
        BRTransaction.txHash then { tx with blockHeight := TX_UNCONFIRMED } else tx := by
  unfold BRWalletSetTxUnconfirmedAfter at took
  dsimp only at took
  split at took
  · cases took
    rfl
  · exact updateBalance_txs took

theorem unconfirmed_mem
    (took : BRWalletSetTxUnconfirmedAfter address call w blockHeight = some s)
    (there : tx ∈ s.transactions) (confirmed : tx.blockHeight ≠ TX_UNCONFIRMED) :
    tx ∈ w.transactions ∧ tx ∉ w.transactions.rtakeWhile fun t => blockHeight < t.blockHeight := by
  rw [unconfirmed_txs took] at there
  obtain ⟨u,inside,changed⟩ := List.mem_map.mp there
  split at changed
  case isTrue =>
    rw [← changed] at confirmed
    exact absurd rfl confirmed
  case isFalse kept =>
    rw [← changed]
    exact ⟨inside,fun late => kept (List.mem_map_of_mem late)⟩

/-- What is not taken from the front of a list stands behind something that is not. -/
theorem not_mem_takeWhile {α : Type} {p : α → Bool} {x : α} {xs : List α} (distinct : xs.Nodup)
    (there : x ∈ xs) (holds : p x = true) : x ∉ xs.takeWhile p ↔
      ∃ front behind, xs = front ++ x :: behind ∧ ∃ u ∈ front, p u = false := by
  induction xs with
  | nil => cases there
  | cons y xs ih =>
    obtain ⟨fresh,distinct⟩ := List.nodup_cons.mp distinct
    cases holds_y : p y with
    | false =>
      rw [List.takeWhile_cons_of_neg (by simp [holds_y])]
      refine iff_of_true List.not_mem_nil ?_
      rcases List.mem_cons.mp there with rfl | inside
      · rw [holds] at holds_y
        cases holds_y
      · obtain ⟨front,behind,parts⟩ := List.append_of_mem inside
        exact ⟨y :: front,behind,congrArg (y :: ·) parts,y,List.mem_cons_self,holds_y⟩
    | true =>
      rw [List.takeWhile_cons_of_pos holds_y]
      rcases List.mem_cons.mp there with rfl | inside
      · refine iff_of_false (fun missing => missing List.mem_cons_self) ?_
        rintro ⟨front,behind,parts,u,before,-⟩
        cases front with
        | nil => cases before
        | cons z front =>
          obtain ⟨rfl,rest⟩ := List.cons.inj parts
          exact fresh (rest ▸ List.mem_append_right front List.mem_cons_self)
      · have other : x ≠ y := fun same => fresh (same ▸ inside)
        rw [List.mem_cons, or_iff_right other, ih distinct inside]
        constructor
        · rintro ⟨front,behind,parts,u,before,fails⟩
          exact ⟨y :: front,behind,congrArg (y :: ·) parts,u,List.mem_cons_of_mem y before,fails⟩
        · rintro ⟨front,behind,parts,u,before,fails⟩
          cases front with
          | nil => exact absurd (List.cons.inj parts).1.symm other
          | cons z front =>
            obtain ⟨rfl,rest⟩ := List.cons.inj parts
            refine ⟨front,behind,rest,u,?_,fails⟩
            rcases List.mem_cons.mp before with rfl | later
            · rw [holds_y] at fails
              cases fails
            · exact later

/-- Where the chain turns at a height, a transaction above it stays confirmed exactly if another one
    at or below it stands behind it in the list. -/
theorem stays_confirmed_iff (distinct : (w.transactions.map BRTransaction.txHash).Nodup)
    (took : BRWalletSetTxUnconfirmedAfter address call w blockHeight = some s)
    (there : tx ∈ w.transactions) (above : blockHeight < tx.blockHeight)
    (confirmed : tx.blockHeight ≠ TX_UNCONFIRMED) : tx ∈ s.transactions ↔
      ∃ front behind, w.transactions = front ++ tx :: behind ∧
        ∃ u ∈ behind, u.blockHeight ≤ blockHeight := by
  have early : tx ∈ s.transactions ↔
      tx ∉ w.transactions.reverse.takeWhile fun t => blockHeight < t.blockHeight := by
    refine ⟨fun inside late => (unconfirmed_mem took inside confirmed).2
      (List.mem_reverse.mpr late),fun missing => ?_⟩
    rw [unconfirmed_txs took]
    refine List.mem_map.mpr ⟨tx,there,if_neg fun late => missing ?_⟩
    obtain ⟨u,taken,same⟩ := List.mem_map.mp late
    have inside := (List.rtakeWhile_suffix _ _).subset taken
    rw [← List.inj_on_of_nodup_map distinct inside there same]
    exact List.mem_reverse.mp taken
  rw [early, not_mem_takeWhile (List.nodup_reverse.mpr (List.Nodup.of_map _ distinct))
    (List.mem_reverse.mpr there) (decide_eq_true above)]
  constructor
  · rintro ⟨front,behind,parts,u,before,low⟩
    refine ⟨behind.reverse,front.reverse,?_,u,List.mem_reverse.mpr before,?_⟩
    · rw [← List.reverse_reverse w.transactions, parts]
      simp
    · exact UInt32.not_lt.mp (of_decide_eq_false low)
  · rintro ⟨front,behind,parts,u,later,low⟩
    refine ⟨behind.reverse,front.reverse,by rw [parts]; simp,u,List.mem_reverse.mpr later,?_⟩
    exact decide_eq_false (UInt32.not_lt.mpr low)

/-- Two payments, of which the first is confirmed after the other -/
def confirmedLater : BRWallet :=
  { emptyWallet with
    transactions := [{ BRWalletRuns.payment with blockHeight := 6 },
      { BRWalletRuns.payment with txHash := 2, blockHeight := 5 }] }

theorem first_stays_confirmed : ∃ s,
    BRWalletSetTxUnconfirmedAfter BRWalletRuns.firstAddress BRWalletRuns.aCall confirmedLater 5 =
      some s ∧ { BRWalletRuns.payment with blockHeight := 6 } ∈ s.transactions := by
  have took : BRWalletSetTxUnconfirmedAfter BRWalletRuns.firstAddress BRWalletRuns.aCall
      confirmedLater 5 = some { confirmedLater with blockHeight := 5 } := by decide +kernel
  have stays := stays_confirmed_iff (by decide) took List.mem_cons_self (by decide) (by decide)
  exact ⟨_,took,stays.mpr ⟨[],_,rfl,_,List.mem_singleton_self _,by decide⟩⟩

/-- In a list in the order of heights, those are all above the height. -/
theorem late_mem {txs : List BRTransaction}
    (sorted : txs.Pairwise fun t u => t.blockHeight ≤ u.blockHeight) (there : tx ∈ txs)
    (high : blockHeight < tx.blockHeight) :
    tx ∈ txs.rtakeWhile fun t => blockHeight < t.blockHeight := by
  induction txs using List.reverseRecOn with
  | nil => exact there
  | append_singleton txs last ih =>
    obtain ⟨front,-,before⟩ := List.pairwise_append.mp sorted
    rcases List.mem_append.mp there with inside | only
    · have above := before tx inside last (List.mem_singleton_self last)
      rw [List.rtakeWhile_concat, if_pos (decide_eq_true (UInt32.lt_of_lt_of_le high above))]
      exact List.mem_append_left _ (ih front inside)
    · rw [← List.mem_singleton.mp only, List.rtakeWhile_concat, if_pos (decide_eq_true high)]
      exact List.mem_append_right _ (List.mem_singleton_self tx)

theorem insertBefore_mem {before txs : List BRTransaction} {t : BRTransaction}
    (took : insertBefore address w tx before = some txs) (there : t ∈ txs) :
    t = tx ∨ t ∈ before := by
  induction before generalizing txs with
  | nil =>
    cases took
    exact .inl (List.mem_singleton.mp there)
  | cons u before ih =>
    rw [insertBefore] at took
    obtain ⟨compared,-,took⟩ := Option.bind_eq_some_iff.mp took
    split at took
    · obtain ⟨rest,inserted,last⟩ := Option.bind_eq_some_iff.mp took
      cases last
      rcases List.mem_cons.mp there with rfl | later
      · exact .inr List.mem_cons_self
      · exact (ih inserted later).imp_right (List.mem_cons_of_mem u)
    · cases took
      exact List.mem_cons.mp there

theorem unused_txs {gapLimit : Nat} {internal : Bool} {addrs : List Address}
    (took : BRWalletUnusedAddrs derive call w gapLimit internal = some (addrs,s)) :
    s.transactions = w.transactions := by
  unfold BRWalletUnusedAddrs at took
  obtain ⟨extended,-,took⟩ := Option.bind_eq_some_iff.mp took
  dsimp only at took
  split at took
  · cases took
    dsimp only
    split <;> rfl
  · cases took
    split <;> rfl

theorem refill_txs (took : refill derive call w = some s) : s.transactions = w.transactions := by
  unfold refill at took
  obtain ⟨⟨addrs,mid⟩,first,took⟩ := Option.bind_eq_some_iff.mp took
  obtain ⟨⟨addrs',after⟩,second,took⟩ := Option.bind_eq_some_iff.mp took
  cases took
  exact (unused_txs second).trans (unused_txs first)

theorem register_mem {registered : Bool} {t : BRTransaction}
    (took : BRWalletRegisterTransaction address derive call w tx = some (registered,s))
    (there : t ∈ s.transactions) : t = tx ∨ t ∈ w.transactions := by
  unfold BRWalletRegisterTransaction at took
  split at took
  · split at took
    · cases took
      exact .inr there
    · split at took
      · obtain ⟨inserted,first,took⟩ := Option.bind_eq_some_iff.mp took
        obtain ⟨updated,second,took⟩ := Option.bind_eq_some_iff.mp took
        obtain ⟨refilled,third,took⟩ := Option.bind_eq_some_iff.mp took
        cases took
        obtain ⟨txs,before,last⟩ := Option.bind_eq_some_iff.mp first
        cases last
        rw [refill_txs third, updateBalance_txs second] at there
        exact (insertBefore_mem before (List.mem_reverse.mp there)).imp_right List.mem_reverse.mp
      · cases took
        split at there <;> exact .inr there
  · cases took
    exact .inr there

end Listing

/-- Each transaction with a height is in a block at this height, in the chain of the last block. -/
def Confirmed (T : BlockTree) (last : UInt256) (w : BRWallet) : Prop :=
  ∀ tx ∈ w.transactions, tx.blockHeight ≠ TX_UNCONFIRMED →
    ∃ hash, Under T last hash ∧ T.height hash = tx.blockHeight.toNat ∧ T.holds hash tx.txHash

def InOrder (w : BRWallet) : Prop :=
  w.transactions.Pairwise fun t u => t.blockHeight ≤ u.blockHeight

section Confirming
variable {T : BlockTree} {address : BRTxOutput → Address} {derive : Bool → Nat → Option Address}
  {rank : UInt256 → Nat} {start : UInt256 → Prop} {floor : Nat} {manager t : BRPeerManager}
  {w s : BRWallet} {last : UInt256} {call : Call}

theorem Confirmed.confirms {txHashes : List UInt256} {blockHeight : UInt32}
    (confirmed : Confirmed T last w) (confirms : Confirms w s txHashes blockHeight)
    (new : blockHeight ≠ TX_UNCONFIRMED → ∀ txHash ∈ txHashes, ∃ hash, Under T last hash ∧
      T.height hash = blockHeight.toNat ∧ T.holds hash txHash) : Confirmed T last s := by
  intro tx there some_height
  rcases confirms tx there some_height with ⟨u,inside,hash,height⟩ | ⟨named,height⟩
  · rw [← hash, ← height]
    exact confirmed u inside (height ▸ some_height)
  · rw [height] at some_height ⊢
    exact new some_height tx.txHash named

theorem confirmed_keeps : Keeps T address
    (fun last w => BRWalletRuns.Sound address derive rank w ∧ Confirmed T last w)
    fun last hash c w => Under T hash c.blockHash ∧ Under T last c.blockHash ∧ InOrder w where
  extend holds under := by
    refine ⟨holds.1,fun tx there some_height => ?_⟩
    obtain ⟨hash,down,held⟩ := holds.2 tx there some_height
    exact ⟨hash,under.trans down,held⟩
  confirm relay last w b txHashes timestamp holds known under reported := by
    obtain ⟨s,told,sound⟩ :=
      (@sound_keeps T address derive rank).confirm relay timestamp holds.1 known under reported
    refine ⟨s,told,sound,?_⟩
    rw [BRPeerManagers.updateTx] at told
    split at told
    · cases told
      exact holds.2
    · refine holds.2.confirms (updateTransactions_confirms told) fun _ txHash named => ?_
      obtain ⟨reports,reported',held⟩ := known_reports known.real
      cases reported.symm.trans reported'
      exact ⟨b.blockHash,under,known.height.symm,held txHash named⟩
  turn relay last hash w b holds known fit := by
    obtain ⟨s,turned,sound⟩ := BRWalletRuns.unconfirmed_sound holds.1 relay.call b.height
    obtain ⟨new_under,old_under,sorted⟩ := fit
    refine ⟨s,turned,sound,fun tx there some_height => ?_⟩
    obtain ⟨inside,early⟩ := unconfirmed_mem turned there some_height
    obtain ⟨x,down,height,held⟩ := holds.2 tx inside some_height
    have low : tx.blockHeight ≤ b.height := by
      by_contra high
      exact early (late_mem sorted inside (UInt32.not_le.mp high))
    -- what stays confirmed is at or below where the fork joins
    have level : T.height x ≤ T.height b.blockHash := by
      rw [height, ← known.height]
      exact UInt32.le_iff_toNat_le.mp low
    exact ⟨x,new_under.trans (old_under.between down level),height,held⟩

/-- Nothing is confirmed by other calls. -/
def Quiet : BRWalletRuns.Event → Prop
  | .register tx => tx.blockHeight = TX_UNCONFIRMED
  | .update _ blockHeight _ => blockHeight = TX_UNCONFIRMED
  | _ => True

theorem wallet_confirmed {event : BRWalletRuns.Event}
    (sound : BRWalletRuns.Sound address derive rank w)
    (allowed : BRWalletRuns.Allowed rank w (call,event)) (quiet : Quiet event)
    (took : BRWalletRuns.step address derive w (call,event) = some s)
    (confirmed : Confirmed T last w) : Confirmed T last s := by
  cases event with
  | register tx =>
    obtain ⟨⟨registered,after⟩,first,rfl⟩ := Option.map_eq_some_iff.mp took
    intro u there some_height
    rcases register_mem first there with rfl | inside
    · exact absurd quiet some_height
    · exact confirmed u inside some_height
  | remove txHash =>
    obtain ⟨after,removed,-,gone⟩ := BRWalletRuns.remove_sound sound allowed call txHash
    cases removed.symm.trans took
    exact fun u there => confirmed u (gone.txs.subset there)
  | update txHashes blockHeight timestamp =>
    exact confirmed.confirms (updateTransactions_confirms took) fun some_height =>
      absurd quiet some_height
  | unconfirm blockHeight =>
    exact fun u there some_height =>
      confirmed u (unconfirmed_mem took there some_height).1 some_height
  | addresses gapLimit internal =>
    obtain ⟨⟨addrs,after⟩,made,rfl⟩ := Option.map_eq_some_iff.mp took
    exact fun u there => confirmed u (unused_txs made ▸ there)
  | setFee feePerKb =>
    cases took
    exact confirmed

theorem wallet_step_last {event : BRWalletRuns.Event}
    (took : BRPeerManagerRuns.step address derive manager (.wallet call event) = some t) :
    t.lastBlock = manager.lastBlock := by
  obtain ⟨w,-,rfl⟩ := Option.map_eq_some_iff.mp took
  rfl

variable (T rank) in
/-- Blocks are those that their hashes name. Where the chain turns to a fork, the list of the wallet
    is in order and the fork joins the chain. -/
def Orderly (manager : BRPeerManager) : Event → Prop
  | .relayed relay block => T.Genuine block ∧ ∀ prev blocks,
      Turns relay manager block prev blocks → InOrder manager.wallet ∧
        ∃ d, Reaches (previous (insert byHash blocks (raised block prev))) (raised block prev) d ∧
          Reaches (previous (insert byHash blocks (raised block prev))) manager.lastBlock d
  | .wallet call event => BRWalletRuns.Allowed rank manager.wallet (call,event) ∧ Quiet event
  | _ => True

variable (T address derive rank) in
/-- What every step keeps -/
structure Shown (start : UInt256 → Prop) (floor : Nat) (manager : BRPeerManager) : Prop where
  chained : Chained T start floor manager
  sound : BRWalletRuns.Sound address derive rank manager.wallet
  confirmed : Confirmed T manager.lastBlock.blockHash manager.wallet

theorem step_confirmed (apart : Apart derive) (checkpointed : T.Checkpointed)
    (shown : Shown T address derive rank start floor manager) {event : Event}
    (orderly : Orderly T rank manager event) (took : step address derive manager event = some t) :
    Shown T address derive rank start floor t := by
  obtain ⟨chained,sound,confirmed⟩ := shown
  cases event with
  | relayed relay block =>
    obtain ⟨genuine,turned⟩ := orderly
    rw [BRPeerManagerRuns.step] at took
    rcases relayed_spec confirmed_keeps checkpointed chained ⟨sound,confirmed⟩ genuine
      (fun prev blocks turns c _ under joins => by
        obtain ⟨sorted,d,one,other⟩ := turned prev blocks turns
        exact ⟨under,joins d one other,sorted⟩) with
      ⟨-,none_left⟩ | ⟨-,relayed,moved,chained,holds,-⟩
    · rw [none_left] at took
      cases took
    · rw [moved] at took
      cases took
      exact ⟨chained,holds.1,holds.2⟩
  | wallet call event =>
    obtain ⟨w,moved,kept⟩ :=
      BRWalletRuns.step_sound apart manager.wallet (call,event) sound orderly.1
    have after := wallet_confirmed sound orderly.1 orderly.2 moved confirmed
    rw [BRPeerManagerRuns.step, moved] at took
    cases took
    exact ⟨{ chained with },kept,after⟩
  | estimated height =>
    cases took
    exact ⟨{ chained with },sound,confirmed⟩
  | filtered =>
    cases took
    exact ⟨{ chained with orphans := List.forall_mem_nil _ },sound,confirmed⟩

/-- In every run whose forks join, with a list in order, what the wallet shows as confirmed is in a
    block of the chain, at the height that it shows. -/
theorem confirmed_in_chain (apart : Apart derive) (checkpointed : T.Checkpointed)
    {loaded : List BRMerkleBlock} (saved : ∀ b ∈ loaded, Saved T b)
    (sound : BRWalletRuns.Sound address derive rank w) (earliestKeyTime : UInt32) :
    ∃ m, BRPeerManagerNew w earliestKeyTime loaded = some m ∧
      (Confirmed T m.lastBlock.blockHash w →
        ∀ events, Along (step address derive) (Orderly T rank) m events →
          ∀ t, exec (step address derive) m events = some t →
            Confirmed T t.lastBlock.blockHash t.wallet) := by
  obtain ⟨m,floor,made,chained,same⟩ := new_spec checkpointed saved w earliestKeyTime
  refine ⟨m,made,fun confirmed events orderly t ran => ?_⟩
  have begun : Shown T address derive rank (Starts loaded) floor m :=
    ⟨chained,same ▸ sound,same ▸ confirmed⟩
  have ended := exec_keeps
    (fun s e t shown orderly took => step_confirmed apart checkpointed shown orderly took)
    begun orderly ran
  exact ended.confirmed

end Confirming

/-- The second block with a payment in it -/
def paying : BRMerkleBlock :=
  { second with totalTx := 1, hashes := [1], hashesCount := 1, flags := [1], flagsLen := 1 }

def payingTree : BlockTree :=
  { treeWith paying 1 with holds := fun hash txHash => hash = paying.blockHash ∧ txHash = 1 }

theorem paying_genuine : payingTree.Genuine paying where
  hashed := by decide
  prev := rfl
  time := rfl
  target := rfl
  rises := by decide +kernel
  low := by decide +kernel
  reports := ⟨[1],by decide +kernel,fun _ there => ⟨rfl,List.mem_singleton.mp there⟩⟩

def paymentConfirmed : List Event :=
  [.wallet BRWalletRuns.aCall (.addresses 1 false),
    .wallet BRWalletRuns.aCall (.register BRWalletRuns.payment),
    .relayed ⟨BRWalletRuns.aCall,1,true⟩ paying]

theorem paying_checkpointed : payingTree.Checkpointed := by
  unfold BlockTree.Checkpointed
  decide +kernel

theorem paymentConfirmed_taken : ((BRPeerManagerNew emptyWallet 1240000000 []).bind fun m =>
    exec (step BRWalletRuns.firstAddress longer) m paymentConfirmed).map
      (fun t => t.wallet.transactions.map BRTransaction.blockHeight) = some [1] := by
  decide +kernel

theorem payment_in_chain : ∃ m t, BRPeerManagerNew emptyWallet 1240000000 [] = some m ∧
    exec (step BRWalletRuns.firstAddress longer) m paymentConfirmed = some t ∧
      t.wallet.transactions.map BRTransaction.blockHeight = [1] ∧
        Confirmed payingTree t.lastBlock.blockHash t.wallet := by
  obtain ⟨m,made,runs⟩ := @confirmed_in_chain payingTree BRWalletRuns.firstAddress longer
    BitVec.toNat emptyWallet longer_apart paying_checkpointed [] (List.forall_mem_nil _)
    empty_sound 1240000000
  have taken := paymentConfirmed_taken
  have first : (BRPeerManagerNew emptyWallet 1240000000 []).map (fun m => m.lastBlock.blockHash) =
      some paying.prevBlock := by decide +kernel
  rw [made, Option.bind_some] at taken
  rw [made, Option.map_some] at first
  obtain ⟨t,ran,heights⟩ := Option.map_eq_some_iff.mp taken
  refine ⟨m,t,made,ran,heights,runs (List.forall_mem_nil _) paymentConfirmed
    ⟨⟨trivial,trivial⟩,fun u one => ⟨⟨BRWalletRuns.payment_safe,rfl⟩,fun v two =>
      ⟨⟨paying_genuine,fun prev blocks turns => absurd ?_ turns.aside⟩,fun _ _ => trivial⟩⟩⟩ t ran⟩
  -- the block is behind the last one, which calls to the wallet leave as it is
  rw [wallet_step_last two, wallet_step_last one]
  exact (Option.some.inj first).symm

end BRPeerManagerConfirmations
