import AltMessenger.BRWalletAddresses
import AltMessenger.TransitionRuns

/-!
The wallet of the core over whole runs. Whatever arrives, is confirmed or removed, it lists only
transactions that it still has, and its balance is that of its unspent outputs.
-/
namespace BRWalletRuns
open BRTransactions JudgedLedger BRWallets BRWalletOperations BRWalletAddresses TransitionRuns

/-- What the hashes of transactions promise: nothing spends an output of its own descendants. There
    are places for all outputs. -/
structure Safe (rank : UInt256 → Nat) (tx : BRTransaction) : Prop where
  counted : tx.outputs.length ≤ 2 ^ 32
  backed : ∀ input ∈ tx.inputs, rank input.txHash < rank tx.txHash

section Invariants
variable (address : BRTxOutput → Address) (derive : Bool → Nat → Option Address)
  (rank : UInt256 → Nat)

/-- What the wallet lists is what it has. -/
structure Listed (w : BRWallet) : Prop where
  once : (w.allTx.map BRTransaction.txHash).Nodup
  listed : ∀ tx ∈ w.transactions, tx ∈ w.allTx
  distinct : (w.transactions.map BRTransaction.txHash).Nodup
  safe : ∀ tx ∈ w.allTx, Safe rank tx
  chains : Chains derive w

/-- What the wallet lists is associated with it. -/
structure Kept (w : BRWallet) : Prop extends Listed derive rank w where
  associated : ∀ tx ∈ w.transactions, containsTx address w tx = true

/-- The balance is that of the unspent outputs. -/
structure Balanced (w : BRWallet) : Prop where
  balance : w.balance = total w w.utxos
  flow : w.balance + w.totalSent = w.totalReceived
  apart : w.utxos.Nodup
  owned : ∀ o ∈ w.utxos, ∃ tx ∈ w.transactions, o ∈ gives address w tx
  history : w.balanceHist.length = w.transactions.length

structure Sound (w : BRWallet) : Prop extends Kept address derive rank w, Balanced address w

end Invariants

section Finding
variable {address : BRTxOutput → Address} {derive : Bool → Nat → Option Address}
  {rank : UInt256 → Nat} {w s : BRWallet} {tx : BRTransaction} {txHash : UInt256}

theorem forHash_mem (found : w.forHash txHash = some tx) :
    tx ∈ w.allTx ∧ tx.txHash = txHash := by
  have same := List.find?_some found
  exact ⟨List.mem_of_find?_eq_some found,by simpa using same⟩

theorem find_hash {txs : List BRTransaction} (once : (txs.map BRTransaction.txHash).Nodup)
    (there : tx ∈ txs) : txs.find? (fun t => t.txHash == tx.txHash) = some tx := by
  induction txs with
  | nil => cases there
  | cons t txs ih =>
    obtain ⟨fresh,once⟩ := List.nodup_cons.mp once
    rcases List.mem_cons.mp there with rfl | later
    · exact List.find?_cons_of_pos (beq_self_eq_true _)
    · have other : t.txHash ≠ tx.txHash := fun same =>
        fresh (same ▸ List.mem_map_of_mem later)
      exact (List.find?_cons_of_neg (by simpa using other)).trans (ih once later)

theorem forHash_of_mem (once : (w.allTx.map BRTransaction.txHash).Nodup) (there : tx ∈ w.allTx) :
    w.forHash tx.txHash = some tx := find_hash once there

theorem forHash_none (missing : w.forHash txHash = none) :
    txHash ∉ w.allTx.map BRTransaction.txHash := by
  rintro there
  obtain ⟨t,inside,rfl⟩ := List.mem_map.mp there
  exact List.find?_eq_none.mp missing t inside (beq_self_eq_true _)

theorem Listed.known (lists : Listed derive rank w) :
    ∀ tx ∈ w.transactions, Known w tx := fun tx there =>
  ⟨forHash_of_mem lists.once (lists.listed tx there),
    (lists.safe tx (lists.listed tx there)).counted⟩

theorem containsTx_congr (all : s.allTx = w.allTx) (addrs : s.allAddrs = w.allAddrs)
    (tx : BRTransaction) : containsTx address s tx = containsTx address w tx := by
  simp only [containsTx, outputOf_congr all, addrs]

theorem chains_congr (chains : Chains derive w) (internal : s.internalChain = w.internalChain)
    (external : s.externalChain = w.externalChain) (addrs : s.allAddrs = w.allAddrs) :
    Chains derive s := by
  have same : ∀ i, chainOf s i = chainOf w i := by
    intro i
    cases i
    · exact external
    · exact internal
  refine ⟨fun i => ?_,fun addr => ?_⟩
  · rw [same]
    exact chains.derived i
  · simp only [same, addrs]
    exact chains.known addr

/-- The lists, sets and chains that matter are the same. -/
theorem Listed.congr (lists : Listed derive rank w) (all : s.allTx = w.allTx)
    (txs : s.transactions = w.transactions) (internal : s.internalChain = w.internalChain)
    (external : s.externalChain = w.externalChain) (addrs : s.allAddrs = w.allAddrs) :
    Listed derive rank s where
  once := by rw [all]; exact lists.once
  listed := by rw [all, txs]; exact lists.listed
  distinct := by rw [txs]; exact lists.distinct
  safe := by rw [all]; exact lists.safe
  chains := chains_congr lists.chains internal external addrs

variable (address) in
/-- After an update the balance is that of the unspent outputs. -/
theorem update_balanced (lists : Listed derive rank w) (now : Int) :
    ∃ shown, BRWalletUpdateBalance address now w = some shown ∧ Listed derive rank shown ∧
      Balanced address shown ∧ shown.allTx = w.allTx ∧ shown.transactions = w.transactions ∧
      shown.allAddrs = w.allAddrs := by
  obtain ⟨shown,updated,shows⟩ := update_shows address now lists.known
  have listed : (fates now w).map Prod.fst = w.transactions := marks_map _ _
  have all : shown.allTx = w.allTx := shows.allTx
  have txs : shown.transactions = w.transactions := by
    have same := congrArg BRWallet.transactions shows.rest
    exact same
  have internal : shown.internalChain = w.internalChain := by
    have same := congrArg BRWallet.internalChain shows.rest
    exact same
  have external : shown.externalChain = w.externalChain := by
    have same := congrArg BRWallet.externalChain shows.rest
    exact same
  have addrs : shown.allAddrs = w.allAddrs := shows.allAddrs
  have inside : ∀ m ∈ fates now w, m.1 ∈ w.transactions := fun m there =>
    listed ▸ List.mem_map_of_mem there
  have same_gives : ∀ tx, gives address shown tx = gives address w tx := by
    intro tx
    rw [gives, gives, ownOutputs, ownOutputs, addrs]
  refine ⟨shown,updated,lists.congr all txs internal external addrs,⟨?_,shows.flow,?_,?_,?_⟩,all,
    txs,addrs⟩
  · rw [shows.balance, total_congr all]
  · rw [shows.utxos]
    refine (given_nodup ?_ fun m there => (lists.known m.1 (inside m there)).counted).filter _
    have distinct := lists.distinct
    rwa [← listed, List.map_map] at distinct
  · intro o there
    rw [shows.utxos] at there
    obtain ⟨m,marked,-,given⟩ := mem_given.mp (mem_unspent.mp there).1
    exact ⟨m.1,txs ▸ inside m marked,same_gives m.1 ▸ given⟩
  · rw [shows.history, historyOf, List.length_map, List.length_range, txs, ← listed,
      List.length_map]

/-- After an update the wallet is sound. -/
theorem update_sound (kept : Kept address derive rank w) (now : Int) :
    ∃ shown, BRWalletUpdateBalance address now w = some shown ∧ Sound address derive rank shown ∧
      shown.allTx = w.allTx ∧ shown.transactions = w.transactions ∧
      shown.allAddrs = w.allAddrs := by
  obtain ⟨shown,updated,lists,balanced,all,txs,addrs⟩ :=
    update_balanced address kept.toListed now
  refine ⟨shown,updated,⟨⟨lists,fun tx there => ?_⟩,balanced⟩,all,txs,addrs⟩
  rw [containsTx_congr all addrs]
  exact kept.associated tx (txs ▸ there)

end Finding

section Inserting
variable {address : BRTxOutput → Address} {derive : Bool → Nat → Option Address}
  {rank : UInt256 → Nat} {w : BRWallet} {tx tx1 tx2 : BRTransaction}

theorem anyM_some {α : Type} {xs : List α} {f : α → Option Bool}
    (each : ∀ x ∈ xs, ∃ found, f x = some found) : ∃ found, xs.anyM f = some found := by
  induction xs with
  | nil => exact ⟨false,rfl⟩
  | cons x xs ih =>
    obtain ⟨here,first⟩ := each x List.mem_cons_self
    rw [List.anyM, first]
    cases here with
    | true => exact ⟨true,rfl⟩
    | false => exact ih fun y there => each y (List.mem_cons_of_mem x there)

/-- The known transactions that come earlier -/
def earlier (rank : UInt256 → Nat) (w : BRWallet) (tx : BRTransaction) : Nat :=
  (w.allTx.filter fun t => rank t.txHash < rank tx.txHash).length

theorem earlier_lt (there : tx1 ∈ w.allTx) (less : rank tx1.txHash < rank tx2.txHash) :
    earlier rank w tx1 < earlier rank w tx2 := by
  refine filter_shorter (fun t before => ?_) there (decide_eq_true less)
    (decide_eq_false (Nat.lt_irrefl _))
  exact decide_eq_true ((of_decide_eq_true before).trans less)

/-- The search for an ancestor ends. -/
theorem isAscending_some (safe : ∀ tx ∈ w.allTx, Safe rank tx) (this : Safe rank tx1)
    {depth : Nat} (enough : earlier rank w tx1 < depth) (tx2 : BRTransaction) :
    ∃ found, isAscending w depth (some tx1) tx2 = some found := by
  induction depth generalizing tx1 with
  | zero => exact absurd enough (Nat.not_lt_zero _)
  | succ depth ih =>
    rw [isAscending]
    split
    · exact ⟨true,rfl⟩
    split
    · exact ⟨false,rfl⟩
    split
    · exact ⟨true,rfl⟩
    split
    · exact ⟨false,rfl⟩
    refine anyM_some fun input there => ?_
    cases found : w.forHash input.txHash with
    | none => exact ⟨false,by cases depth <;> rfl⟩
    | some parent =>
      obtain ⟨inside,same⟩ := forHash_mem found
      have less := this.backed input there
      rw [← same] at less
      have fewer := earlier_lt inside less
      exact ih (safe parent inside) (by omega)

variable (address) in
theorem compareTx_some (safe : ∀ tx ∈ w.allTx, Safe rank tx) (first : Safe rank tx1)
    (second : Safe rank tx2) : ∃ order, compareTx address w tx1 tx2 = some order := by
  have depth : ∀ tx, earlier rank w tx < w.allTx.length + 1 := fun tx =>
    Nat.lt_succ_of_le (List.length_filter_le _ _)
  obtain ⟨up,first_up⟩ := isAscending_some safe first (depth tx1) tx2
  obtain ⟨down,first_down⟩ := isAscending_some safe second (depth tx2) tx1
  rw [compareTx, first_up]
  cases up with
  | true => exact ⟨1,rfl⟩
  | false =>
    simp only [Option.bind_eq_bind, Option.bind_some, first_down]
    cases down with
    | true => exact ⟨-1,rfl⟩
    | false => exact ⟨_,rfl⟩

variable (address) in
/-- A transaction is inserted somewhere in the list. -/
theorem insertTx_perm (safe : ∀ tx ∈ w.allTx, Safe rank tx)
    (listed : ∀ t ∈ w.transactions, Safe rank t) (this : Safe rank tx) :
    ∃ txs, insertTx address w tx = some { w with transactions := txs } ∧
      txs.Perm (tx :: w.transactions) := by
  have somewhere : ∀ before : List BRTransaction, (∀ t ∈ before, Safe rank t) →
      ∃ txs, insertBefore address w tx before = some txs ∧ txs.Perm (tx :: before) := by
    intro before
    induction before with
    | nil => exact fun _ => ⟨[tx],rfl,List.Perm.refl _⟩
    | cons t before ih =>
      intro each
      obtain ⟨order,compared⟩ := compareTx_some address safe
        (each t List.mem_cons_self) this
      obtain ⟨txs,inserted,perm⟩ := ih fun u there => each u (List.mem_cons_of_mem t there)
      rw [insertBefore, compared]
      simp only [Option.bind_eq_bind, Option.bind_some, inserted]
      split
      · exact ⟨t :: txs,rfl,(perm.cons t).trans (List.Perm.swap tx t before)⟩
      · exact ⟨tx :: t :: before,rfl,List.Perm.refl _⟩
  obtain ⟨txs,inserted,perm⟩ := somewhere w.transactions.reverse fun t there =>
    listed t (List.mem_reverse.mp there)
  refine ⟨txs.reverse,?_,?_⟩
  · rw [insertTx, inserted]
    rfl
  · exact (List.reverse_perm _).trans (perm.trans ((List.reverse_perm _).cons tx))

end Inserting

section Keeping
variable {address : BRTxOutput → Address} {derive : Bool → Nat → Option Address}
  {rank : UInt256 → Nat} {w s : BRWallet} {tx : BRTransaction}

theorem containsTx_iff : containsTx address w tx = true ↔
    (∃ output ∈ tx.outputs, address output ∈ w.allAddrs) ∨
      ∃ input ∈ tx.inputs, ∃ output, w.outputOf (outpoint input) = some output ∧
        address output ∈ w.allAddrs := by
  simp only [containsTx, Bool.or_eq_true, List.any_eq_true, List.contains_iff_mem,
    Option.any_eq_true]

/-- What is found and known in one wallet is so in the other. -/
theorem containsTx_mono (found : ∀ input ∈ tx.inputs, ∀ output,
      w.outputOf (outpoint input) = some output → address output ∈ w.allAddrs →
        s.outputOf (outpoint input) = some output)
    (grown : ∀ addr ∈ w.allAddrs, addr ∈ s.allAddrs) (contained : containsTx address w tx = true) :
    containsTx address s tx = true := by
  rw [containsTx_iff] at contained ⊢
  rcases contained with ⟨output,there,own⟩ | ⟨input,there,output,here,own⟩
  · exact .inl ⟨output,there,grown _ own⟩
  · exact .inr ⟨input,there,output,found input there output here own,grown _ own⟩

theorem gives_mono {t : BRTransaction} (hash : t.txHash = tx.txHash)
    (outputs : t.outputs = tx.outputs) (grown : ∀ addr ∈ w.allAddrs, addr ∈ s.allAddrs)
    {o : BRUTXO} (given : o ∈ gives address w tx) : o ∈ gives address s t := by
  obtain ⟨own,there,rfl⟩ := List.mem_map.mp given
  obtain ⟨inside,owned⟩ := List.mem_filter.mp there
  rw [decide_eq_true_eq] at owned
  refine List.mem_map.mpr ⟨own,List.mem_filter.mpr ⟨outputs ▸ inside,?_⟩,by rw [hash]⟩
  exact decide_eq_true ⟨owned.1,grown _ owned.2⟩

theorem owned_found (sound : Sound address derive rank w) {o : BRUTXO} (there : o ∈ w.utxos) :
    ∃ tx ∈ w.transactions, tx.txHash = o.hash ∧ ∃ output, w.outputOf o = some output ∧
      output ∈ tx.outputs ∧ address output ∈ w.allAddrs := by
  obtain ⟨tx,listed,given⟩ := sound.owned o there
  obtain ⟨own,of_own,rfl⟩ := List.mem_map.mp given
  have inside := List.mem_filter.mp of_own
  exact ⟨tx,listed,rfl,own.1,own_found (sound.known tx listed) of_own,
    List.fst_mem_of_mem_zipIdx inside.1,(of_decide_eq_true inside.2).2⟩

/-- The books of a wallet are right for another that has the same, and finds its outputs. -/
theorem Sound.balanced_mono (sound : Sound address derive rank w) (balance : s.balance = w.balance)
    (sent : s.totalSent = w.totalSent) (received : s.totalReceived = w.totalReceived)
    (utxos : s.utxos = w.utxos) (history : s.balanceHist = w.balanceHist)
    (found : ∀ o ∈ w.utxos, s.outputOf o = w.outputOf o)
    (txs : s.transactions.length = w.transactions.length)
    (listed : ∀ tx ∈ w.transactions, ∃ t ∈ s.transactions,
      t.txHash = tx.txHash ∧ t.outputs = tx.outputs)
    (grown : ∀ addr ∈ w.allAddrs, addr ∈ s.allAddrs) : Balanced address s where
  balance := by
    rw [balance, utxos, sound.balance]
    refine congrArg List.sum (List.map_congr_left fun o there => ?_)
    rw [amountOf, amountOf, found o there]
  flow := by rw [balance, sent, received]; exact sound.flow
  apart := utxos ▸ sound.apart
  owned o there := by
    obtain ⟨tx,inside,given⟩ := sound.owned o (utxos ▸ there)
    obtain ⟨t,here,hash,outputs⟩ := listed tx inside
    exact ⟨t,here,gives_mono hash outputs grown given⟩
  history := by rw [history, txs]; exact sound.history

theorem height_sound (sound : Sound address derive rank w) (blockHeight : UInt32) :
    Sound address derive rank { w with blockHeight } where
  toListed := sound.toListed.congr rfl rfl rfl rfl rfl
  associated := sound.associated
  toBalanced := sound.balanced_mono rfl rfl rfl rfl rfl (fun _ _ => rfl) rfl
    (fun t listed => ⟨t,listed,rfl,rfl⟩) fun _ inside => inside

/-- More addresses are made. -/
theorem unused_sound (apart : Apart derive) (sound : Sound address derive rank w) (call : Call)
    (gapLimit : Nat) (internal : Bool) :
    ∃ addrs s, BRWalletUnusedAddrs derive call w gapLimit internal = some (addrs,s) ∧
      Sound address derive rank s := by
  obtain ⟨more,k,all,ran,chains,-,-⟩ := unusedAddrs_spec apart sound.chains call gapLimit internal
  have grown : ∀ addr ∈ w.allAddrs,
      addr ∈ (withChain w internal (chainOf w internal ++ more) all).allAddrs := by
    intro addr there
    obtain ⟨i,inside⟩ := (sound.chains.known addr).mp there
    refine (chains.known addr).mpr ⟨i,?_⟩
    by_cases this : i = internal
    · rw [this] at inside ⊢
      rw [chainOf_withChain]
      exact List.mem_append_left _ inside
    · rw [Bool.eq_not_of_ne this] at inside ⊢
      rwa [chainOf_other]
  refine ⟨_,_,ran,⟨⟨sound.once,sound.listed,sound.distinct,sound.safe,chains⟩,
    fun tx there => ?_⟩,?_⟩
  · exact containsTx_mono (w := w) (fun _ _ _ here _ => here) grown (sound.associated tx there)
  · exact sound.balanced_mono rfl rfl rfl rfl rfl (fun _ _ => rfl) rfl
      (fun tx there => ⟨tx,there,rfl,rfl⟩) grown

theorem refill_sound (apart : Apart derive) (sound : Sound address derive rank w) (call : Call) :
    ∃ s, refill derive call w = some s ∧ Sound address derive rank s := by
  obtain ⟨addrs,mid,first,sound⟩ :=
    unused_sound apart sound call SEQUENCE_GAP_LIMIT_EXTERNAL false
  obtain ⟨addrs',s,second,sound⟩ :=
    unused_sound apart sound call SEQUENCE_GAP_LIMIT_INTERNAL true
  refine ⟨s,?_,sound⟩
  rw [refill, first]
  simp only [Option.bind_eq_bind, Option.bind_some, second]

end Keeping

section Registering
variable {address : BRTxOutput → Address} {derive : Bool → Nat → Option Address}
  {rank : UInt256 → Nat} {w : BRWallet} {tx : BRTransaction}

theorem addTx_new (missing : w.forHash tx.txHash = none) :
    addTx w tx = { w with allTx := tx :: w.allTx } := by
  rw [addTx, List.filter_eq_self.mpr]
  intro t there
  exact decide_eq_true fun same => forHash_none missing (same ▸ List.mem_map_of_mem there)

theorem outputOf_add (missing : w.forHash tx.txHash = none) {o : BRUTXO} {output : BRTxOutput}
    (found : w.outputOf o = some output) : (addTx w tx).outputOf o = some output := by
  rw [addTx_new missing]
  obtain ⟨t,here,there⟩ := Option.bind_eq_some_iff.mp found
  have other : tx.txHash ≠ o.hash := by
    intro same
    rw [same, here] at missing
    cases missing
  have still : ({ w with allTx := tx :: w.allTx } : BRWallet).forHash o.hash = some t :=
    (List.find?_cons_of_neg (by simpa using other)).trans here
  exact Option.bind_eq_some_iff.mpr ⟨t,still,there⟩

/-- A transaction that is new is one more that the wallet has. -/
theorem addTx_listed (lists : Listed derive rank w) (missing : w.forHash tx.txHash = none)
    (safe : Safe rank tx) : Listed derive rank (addTx w tx) where
  once := by
    rw [addTx_new missing]
    exact List.nodup_cons.mpr ⟨forHash_none missing,lists.once⟩
  listed t there := by
    rw [addTx_new missing]
    exact List.mem_cons_of_mem tx (lists.listed t there)
  distinct := lists.distinct
  safe t there := by
    rw [addTx_new missing] at there
    rcases List.mem_cons.mp there with rfl | before
    · exact safe
    · exact lists.safe t before
  chains := chains_congr lists.chains rfl rfl rfl

theorem addTx_kept (kept : Kept address derive rank w) (missing : w.forHash tx.txHash = none)
    (safe : Safe rank tx) : Kept address derive rank (addTx w tx) where
  toListed := addTx_listed kept.toListed missing safe
  associated t there := containsTx_mono (fun _ _ _ here _ => outputOf_add missing here)
    (fun _ inside => inside) (kept.associated t there)

theorem addTx_sound (sound : Sound address derive rank w) (missing : w.forHash tx.txHash = none)
    (safe : Safe rank tx) : Sound address derive rank (addTx w tx) where
  toKept := addTx_kept sound.toKept missing safe
  toBalanced := by
    refine sound.balanced_mono rfl rfl rfl rfl rfl (fun o there => ?_) rfl
      (fun t there => ⟨t,there,rfl,rfl⟩) fun _ inside => inside
    obtain ⟨t,listed,same,output,found,-⟩ := owned_found sound there
    rw [found]
    exact outputOf_add missing found

variable (address) in
/-- The list has one more transaction, wherever it is inserted. -/
theorem insertTx_listed (lists : Listed derive rank w) (there : tx ∈ w.allTx)
    (fresh : tx.txHash ∉ w.transactions.map BRTransaction.txHash) :
    ∃ txs, insertTx address w tx = some { w with transactions := txs } ∧
      Listed derive rank { w with transactions := txs } ∧ txs.Perm (tx :: w.transactions) := by
  obtain ⟨txs,inserted,perm⟩ := insertTx_perm address lists.safe
    (fun t listed => lists.safe t (lists.listed t listed)) (lists.safe tx there)
  refine ⟨txs,inserted,⟨lists.once,fun t listed => ?_,?_,lists.safe,
    chains_congr lists.chains rfl rfl rfl⟩,perm⟩
  · rcases List.mem_cons.mp (perm.mem_iff.mp listed) with rfl | before
    · exact there
    · exact lists.listed t before
  · refine ((perm.map BRTransaction.txHash).nodup_iff).mpr ?_
    exact List.nodup_cons.mpr ⟨fresh,lists.distinct⟩

theorem insertTx_kept (kept : Kept address derive rank w) (there : tx ∈ w.allTx)
    (fresh : tx.txHash ∉ w.transactions.map BRTransaction.txHash)
    (contained : containsTx address w tx = true) :
    ∃ txs, insertTx address w tx = some { w with transactions := txs } ∧
      Kept address derive rank { w with transactions := txs } := by
  obtain ⟨txs,inserted,lists,perm⟩ := insertTx_listed address kept.toListed there fresh
  refine ⟨txs,inserted,lists,fun t listed => ?_⟩
  rcases List.mem_cons.mp (perm.mem_iff.mp listed) with rfl | before
  · exact contained
  · exact kept.associated t before

/-- A transaction that is not known is not listed. -/
theorem missing_unlisted (lists : Listed derive rank w) (missing : w.forHash tx.txHash = none) :
    tx.txHash ∉ w.transactions.map BRTransaction.txHash := by
  intro inside
  obtain ⟨t,listed,same⟩ := List.mem_map.mp inside
  exact forHash_none missing (same ▸ List.mem_map_of_mem (lists.listed t listed))

theorem register_sound (apart : Apart derive) (sound : Sound address derive rank w) (call : Call)
    (safe : Safe rank tx) :
    ∃ r s, BRWalletRegisterTransaction address derive call w tx = some (r,s) ∧
      Sound address derive rank s := by
  unfold BRWalletRegisterTransaction
  split
  case isFalse unsigned => exact ⟨false,w,rfl,sound⟩
  case isTrue signed =>
    split
    case isTrue there => exact ⟨true,w,rfl,sound⟩
    case isFalse missing =>
      have missing := Option.not_isSome_iff_eq_none.mp missing
      split
      case isFalse other =>
        refine ⟨false,_,rfl,?_⟩
        split
        · exact addTx_sound sound missing safe
        · exact sound
      case isTrue contained =>
        have kept := addTx_kept sound.toKept missing safe
        have there : tx ∈ (addTx w tx).allTx := List.mem_cons_self
        have fresh : tx.txHash ∉ (addTx w tx).transactions.map BRTransaction.txHash :=
          missing_unlisted (w := w) sound.toListed missing
        have still : containsTx address (addTx w tx) tx = true :=
          containsTx_mono (fun _ _ _ here _ => outputOf_add missing here) (fun _ inside => inside)
            contained
        obtain ⟨txs,inserted,kept⟩ := insertTx_kept kept there fresh still
        obtain ⟨shown,updated,sound,-⟩ := update_sound kept call.now
        obtain ⟨s,refilled,sound⟩ := refill_sound apart sound call
        refine ⟨true,s,?_,sound⟩
        simp only [inserted, Option.bind_eq_bind, Option.bind_some, updated, refilled]

end Registering

/-- Only the block and the time of a transaction are changed. -/
structure SameContent (change : BRTransaction → BRTransaction) : Prop where
  hash : ∀ tx, (change tx).txHash = tx.txHash
  inputs : ∀ tx, (change tx).inputs = tx.inputs
  outputs : ∀ tx, (change tx).outputs = tx.outputs

section Changing
variable {address : BRTxOutput → Address} {derive : Bool → Nat → Option Address}
  {rank : UInt256 → Nat} {w : BRWallet} {tx : BRTransaction}
  {change : BRTransaction → BRTransaction}

theorem map_hash (same : SameContent change) (txs : List BRTransaction) :
    (txs.map change).map BRTransaction.txHash = txs.map BRTransaction.txHash := by
  rw [List.map_map]
  exact List.map_congr_left fun tx _ => same.hash tx

theorem forHash_change (same : SameContent change) (txHash : UInt256) :
    (changeTx change w).forHash txHash = (w.forHash txHash).map change := by
  unfold BRWallet.forHash changeTx
  rw [List.find?_map]
  refine congrArg (fun p => (List.find? p w.allTx).map change) (funext fun tx => ?_)
  rw [Function.comp_apply, same.hash]

theorem outputOf_change (same : SameContent change) (o : BRUTXO) :
    (changeTx change w).outputOf o = w.outputOf o := by
  unfold BRWallet.outputOf
  rw [forHash_change same]
  cases w.forHash o.hash with
  | none => rfl
  | some t =>
    change (change t).outputs[o.n.toNat]? = t.outputs[o.n.toNat]?
    rw [same.outputs]

theorem containsTx_change (same : SameContent change) (tx : BRTransaction) :
    containsTx address (changeTx change w) tx = containsTx address w tx := by
  simp only [containsTx, outputOf_change same]
  rfl

theorem containsTx_changed (same : SameContent change) (tx : BRTransaction) :
    containsTx address w (change tx) = containsTx address w tx := by
  simp only [containsTx, same.inputs, same.outputs]

theorem changeTx_sound (sound : Sound address derive rank w) (same : SameContent change) :
    Sound address derive rank (changeTx change w) where
  once := by
    change ((w.allTx.map change).map BRTransaction.txHash).Nodup
    rw [map_hash same]
    exact sound.once
  listed t there := by
    obtain ⟨tx,listed,rfl⟩ := List.mem_map.mp there
    exact List.mem_map_of_mem (sound.listed tx listed)
  distinct := by
    change ((w.transactions.map change).map BRTransaction.txHash).Nodup
    rw [map_hash same]
    exact sound.distinct
  safe t there := by
    obtain ⟨tx,inside,rfl⟩ := List.mem_map.mp there
    have safe := sound.safe tx inside
    refine ⟨by rw [same.outputs]; exact safe.counted,fun input spends => ?_⟩
    rw [same.inputs] at spends
    rw [same.hash]
    exact safe.backed input spends
  associated t there := by
    obtain ⟨tx,listed,rfl⟩ := List.mem_map.mp there
    rw [containsTx_change same, containsTx_changed same]
    exact sound.associated tx listed
  chains := chains_congr sound.chains rfl rfl rfl
  toBalanced := by
    refine sound.balanced_mono rfl rfl rfl rfl rfl (fun o _ => outputOf_change same o)
      (List.length_map _) (fun tx listed => ?_) fun _ inside => inside
    exact ⟨change tx,List.mem_map_of_mem listed,same.hash tx,same.outputs tx⟩

theorem setBlock_same (txHash : UInt256) (blockHeight timestamp : UInt32) :
    SameContent (setBlock txHash blockHeight timestamp) where
  hash tx := by unfold setBlock; split <;> rfl
  inputs tx := by unfold setBlock; split <;> rfl
  outputs tx := by unfold setBlock; split <;> rfl

/-- A transaction that the wallet does not list, and that pays nothing to it, may be freed. -/
theorem freed_sound (sound : Sound address derive rank w) {txHash : UInt256}
    (unlisted : txHash ∉ w.transactions.map BRTransaction.txHash)
    (foreign : ∀ o output, w.outputOf o = some output → address output ∈ w.allAddrs →
      o.hash ≠ txHash) :
    Sound address derive rank
      { w with allTx := w.allTx.filter fun t => t.txHash ≠ txHash } := by
  have still : ∀ o output, w.outputOf o = some output → o.hash ≠ txHash →
      ({ w with allTx := w.allTx.filter fun t => t.txHash ≠ txHash } : BRWallet).outputOf o =
        some output := by
    intro o output found other
    obtain ⟨t,here,there⟩ := Option.bind_eq_some_iff.mp found
    obtain ⟨inside,same⟩ := forHash_mem here
    have kept : ({ w with allTx := w.allTx.filter fun t => t.txHash ≠ txHash } :
        BRWallet).forHash o.hash = some t := by
      rw [← same]
      refine find_hash ((List.filter_sublist.map _).nodup sound.once) ?_
      exact List.mem_filter.mpr ⟨inside,decide_eq_true (same ▸ other)⟩
    exact Option.bind_eq_some_iff.mpr ⟨t,kept,there⟩
  refine ⟨⟨⟨(List.filter_sublist.map _).nodup sound.once,fun t listed => ?_,sound.distinct,
    fun t there => sound.safe t (List.mem_filter.mp there).1,
    chains_congr sound.chains rfl rfl rfl⟩,fun t listed => ?_⟩,?_⟩
  · refine List.mem_filter.mpr ⟨sound.listed t listed,decide_eq_true fun same => ?_⟩
    exact unlisted (same ▸ List.mem_map_of_mem listed)
  · refine containsTx_mono (w := w) (fun input _ output found own => ?_) (fun _ inside => inside)
      (sound.associated t listed)
    exact still _ _ found (foreign _ _ found own)
  · refine sound.balanced_mono rfl rfl rfl rfl rfl (fun o there => ?_) rfl
      (fun t listed => ⟨t,listed,rfl,rfl⟩) fun _ inside => inside
    obtain ⟨t,listed,same,output,found,-,own⟩ := owned_found sound there
    rw [found]
    exact still o output found (foreign o output found own)

/-- A transaction that is not associated is not listed, and none of its outputs is the wallet's. -/
theorem other_unlisted (sound : Sound address derive rank w) {txHash : UInt256}
    (found : w.forHash txHash = some tx) (other : ¬ containsTx address w tx = true) :
    txHash ∉ w.transactions.map BRTransaction.txHash := by
  intro there
  obtain ⟨t,listed,same⟩ := List.mem_map.mp there
  have this := forHash_of_mem sound.once (sound.listed t listed)
  rw [same, found] at this
  cases this
  exact other (sound.associated tx listed)

theorem other_foreign {txHash : UInt256} (found : w.forHash txHash = some tx)
    (other : ¬ containsTx address w tx = true) {o : BRUTXO} {output : BRTxOutput}
    (here : w.outputOf o = some output) (own : address output ∈ w.allAddrs) : o.hash ≠ txHash := by
  intro same
  obtain ⟨t,there,inside⟩ := Option.bind_eq_some_iff.mp here
  rw [same, found] at there
  cases there
  exact other (containsTx_iff.mpr (.inl ⟨output,List.mem_of_getElem? inside,own⟩))

theorem updateOne_sound (sound : Sound address derive rank w) (blockHeight timestamp : UInt32)
    (needsUpdate : Bool) (txHash : UInt256) :
    ∃ s more, updateOne address blockHeight timestamp (w,needsUpdate) txHash = some (s,more) ∧
      Sound address derive rank s := by
  rw [updateOne]
  cases found : w.forHash txHash with
  | none => exact ⟨w,needsUpdate,rfl,sound⟩
  | some tx =>
    dsimp only
    split
    case isTrue => exact ⟨w,needsUpdate,rfl,sound⟩
    case isFalse =>
      have same := setBlock_same txHash blockHeight timestamp
      have changed := changeTx_sound sound same
      rw [containsTx_change same]
      split
      case isTrue => exact ⟨_,_,rfl,changed⟩
      case isFalse other =>
        split
        case isTrue => exact ⟨_,_,rfl,changed⟩
        case isFalse =>
          have unlisted : txHash ∉ (changeTx (setBlock txHash blockHeight timestamp)
              w).transactions.map BRTransaction.txHash := by
            change txHash ∉ (w.transactions.map _).map BRTransaction.txHash
            rw [map_hash same]
            exact other_unlisted sound found other
          rw [if_neg unlisted]
          refine ⟨_,_,rfl,freed_sound changed unlisted fun o output here own => ?_⟩
          rw [outputOf_change same] at here
          exact other_foreign found other here own

theorem updateTransactions_sound (sound : Sound address derive rank w) (call : Call)
    (txHashes : List UInt256) (blockHeight timestamp : UInt32) :
    ∃ s, BRWalletUpdateTransactions address call w txHashes blockHeight timestamp = some s ∧
      Sound address derive rank s := by
  have all : ∀ (txHashes : List UInt256) (w : BRWallet) (needsUpdate : Bool),
      Sound address derive rank w → ∃ s more,
        txHashes.foldlM (updateOne address blockHeight timestamp) (w,needsUpdate) =
          some (s,more) ∧ Sound address derive rank s := by
    intro txHashes
    induction txHashes with
    | nil => exact fun w needsUpdate sound => ⟨w,needsUpdate,rfl,sound⟩
    | cons txHash txHashes ih =>
      intro w needsUpdate sound
      obtain ⟨mid,some_more,first,sound⟩ :=
        updateOne_sound sound blockHeight timestamp needsUpdate txHash
      obtain ⟨s,more,rest,sound⟩ := ih mid some_more sound
      refine ⟨s,more,?_,sound⟩
      rw [List.foldlM_cons, first]
      exact rest
  have start : Sound address derive rank
      (if w.blockHeight < blockHeight then { w with blockHeight } else w) := by
    split
    · exact height_sound sound blockHeight
    · exact sound
  obtain ⟨s,needsUpdate,ran,sound⟩ := all txHashes _ false start
  rw [BRWalletUpdateTransactions]
  simp only [ran, Option.bind_eq_bind, Option.bind_some]
  cases needsUpdate with
  | false => exact ⟨s,rfl,sound⟩
  | true =>
    obtain ⟨shown,updated,sound,-⟩ := update_sound sound.toKept call.now
    exact ⟨shown,updated,sound⟩

theorem unconfirmed_sound (sound : Sound address derive rank w) (call : Call)
    (blockHeight : UInt32) :
    ∃ s, BRWalletSetTxUnconfirmedAfter address call w blockHeight = some s ∧
      Sound address derive rank s := by
  unfold BRWalletSetTxUnconfirmedAfter
  generalize (w.transactions.rtakeWhile _).map BRTransaction.txHash = late
  have same : SameContent fun tx : BRTransaction =>
      if tx.txHash ∈ late then { tx with blockHeight := TX_UNCONFIRMED } else tx :=
    { hash := fun tx => by split <;> rfl
      inputs := fun tx => by split <;> rfl
      outputs := fun tx => by split <;> rfl }
  have changed := changeTx_sound (height_sound sound blockHeight) same
  dsimp only
  split
  case isTrue => exact ⟨_,rfl,changed⟩
  case isFalse =>
    obtain ⟨shown,updated,sound,-⟩ := update_sound changed.toKept call.now
    exact ⟨shown,updated,sound⟩

end Changing

/-- A transaction with this hash, or one that spends outputs of a descendant -/
inductive Descends (txs : List BRTransaction) (h : UInt256) : UInt256 → Prop where
  | self : Descends txs h h
  | spends {t : BRTransaction} {input : BRTxInput} : t ∈ txs → input ∈ t.inputs →
      Descends txs h input.txHash → Descends txs h t.txHash

/-- No transaction is listed before one of a lower block than that of what it spends. -/
structure Ordered (w : BRWallet) : Prop where
  own : ∀ t ∈ w.transactions, ∀ p ∈ w.allTx, (∃ input ∈ t.inputs, input.txHash = p.txHash) →
    p.blockHeight ≤ t.blockHeight
  later : w.transactions.Pairwise fun t u => ∀ p ∈ w.allTx,
    (∃ input ∈ t.inputs, input.txHash = p.txHash) → p.blockHeight ≤ u.blockHeight

/-- What is left of a wallet from which these are removed, with what descends from them -/
structure Gone (w s : BRWallet) (hashes : List UInt256) : Prop where
  txs : s.transactions.Sublist w.transactions
  all : s.allTx.Sublist w.allTx
  mem_txs : ∀ t ∈ w.transactions, t ∈ s.transactions ↔
    ∀ h ∈ hashes, ¬ Descends w.transactions h t.txHash
  mem_all : ∀ p ∈ w.allTx, p ∈ s.allTx ↔ ∀ h ∈ hashes, ¬ Descends w.transactions h p.txHash

section Descending
variable {address : BRTxOutput → Address} {derive : Bool → Nat → Option Address}
  {rank : UInt256 → Nat} {w m s : BRWallet} {tx : BRTransaction}
  {txs : List BRTransaction} {h d x : UInt256} {hashes : List UInt256}

theorem Descends.trans (first : Descends txs h d) (second : Descends txs d x) :
    Descends txs h x := by
  induction second with
  | self => exact first
  | spends there spent _ ih => exact .spends there spent ih

theorem Descends.mono {more : List BRTransaction} (inside : ∀ t ∈ txs, t ∈ more)
    (descends : Descends txs h x) : Descends more h x := by
  induction descends with
  | self => exact .self
  | spends there spent _ ih => exact .spends (inside _ there) spent ih

theorem Descends.rank_le (safe : ∀ t ∈ txs, Safe rank t) (descends : Descends txs h x) :
    rank h ≤ rank x := by
  induction descends with
  | self => exact Nat.le_refl _
  | spends there spent _ ih => exact ih.trans (Nat.le_of_lt ((safe _ there).backed _ spent))

theorem Ordered.sublist (ordered : Ordered w) (txs : s.transactions.Sublist w.transactions)
    (all : s.allTx.Sublist w.allTx) : Ordered s where
  own t there p inside := ordered.own t (txs.subset there) p (all.subset inside)
  later := (ordered.later.sublist txs).imp fun {_ _} spends p inside =>
    spends p (all.subset inside)

/-- What descends from a transaction is itself, or descends from one that spends it. -/
theorem descends_iff (direct : ∀ d, d ∈ hashes ↔
    ∃ t ∈ txs, t.txHash = d ∧ ∃ input ∈ t.inputs, input.txHash = h) :
    Descends txs h x ↔ x = h ∨ ∃ d ∈ hashes, Descends txs d x := by
  constructor
  · intro descends
    induction descends with
    | self => exact .inl rfl
    | @spends t input there spent _ ih =>
      rcases ih with same | ⟨d,inside,below⟩
      · exact .inr ⟨t.txHash,(direct _).mpr ⟨t,there,rfl,input,spent,same⟩,.self⟩
      · exact .inr ⟨d,inside,.spends there spent below⟩
  · rintro (rfl | ⟨d,inside,below⟩)
    · exact .self
    · obtain ⟨t,there,rfl,input,spent,same⟩ := (direct d).mp inside
      exact Descends.trans (.spends there spent (same ▸ .self)) below

theorem Gone.start (w : BRWallet) : Gone w w [] where
  txs := List.Sublist.refl _
  all := List.Sublist.refl _
  mem_txs _ there := ⟨fun _ => nofun,fun _ => there⟩
  mem_all _ there := ⟨fun _ => nofun,fun _ => there⟩

/-- Of what is left, the same descends as before. -/
theorem Gone.descends (gone : Gone w m hashes)
    (alive : ∀ h ∈ hashes, ¬ Descends w.transactions h x) :
    Descends m.transactions d x ↔ Descends w.transactions d x := by
  refine ⟨Descends.mono fun t there => gone.txs.subset there,fun descends => ?_⟩
  induction descends with
  | self => exact .self
  | @spends t input there spent _ ih =>
    refine .spends ((gone.mem_txs t there).mpr alive) spent (ih fun h inside below => ?_)
    exact alive h inside (.spends there spent below)

theorem Gone.step (gone : Gone w m hashes) (next : Gone m s [d]) : Gone w s (hashes ++ [d]) where
  txs := next.txs.trans gone.txs
  all := next.all.trans gone.all
  mem_txs t there := by
    rw [List.forall_mem_append, List.forall_mem_singleton, ← gone.mem_txs t there]
    constructor
    · intro left
      have before := next.txs.subset left
      refine ⟨before,fun below => ?_⟩
      rw [← gone.descends ((gone.mem_txs t there).mp before)] at below
      exact (next.mem_txs t before).mp left d (List.mem_singleton_self d) below
    · rintro ⟨before,other⟩
      refine (next.mem_txs t before).mpr fun h inside => ?_
      rw [List.mem_singleton.mp inside, gone.descends ((gone.mem_txs t there).mp before)]
      exact other
  mem_all p there := by
    rw [List.forall_mem_append, List.forall_mem_singleton, ← gone.mem_all p there]
    constructor
    · intro left
      have before := next.all.subset left
      refine ⟨before,fun below => ?_⟩
      rw [← gone.descends ((gone.mem_all p there).mp before)] at below
      exact (next.mem_all p before).mp left d (List.mem_singleton_self d) below
    · rintro ⟨before,other⟩
      refine (next.mem_all p before).mpr fun h inside => ?_
      rw [List.mem_singleton.mp inside, gone.descends ((gone.mem_all p there).mp before)]
      exact other

/-- One that is gone already, with what descends from it, changes nothing. -/
theorem Gone.again (gone : Gone w m hashes) {p : BRTransaction} (there : p ∈ w.allTx)
    (missing : p ∉ m.allTx) : Gone w m (hashes ++ [p.txHash]) where
  txs := gone.txs
  all := gone.all
  mem_txs t listed := by
    rw [List.forall_mem_append, List.forall_mem_singleton, ← gone.mem_txs t listed]
    refine ⟨fun left => ⟨left,fun below => ?_⟩,And.left⟩
    obtain ⟨h,inside,above⟩ := not_forall₂.mp (mt (gone.mem_all p there).mpr missing)
    exact (gone.mem_txs t listed).mp left h inside ((not_not.mp above).trans below)
  mem_all q known := by
    rw [List.forall_mem_append, List.forall_mem_singleton, ← gone.mem_all q known]
    refine ⟨fun left => ⟨left,fun below => ?_⟩,And.left⟩
    obtain ⟨h,inside,above⟩ := not_forall₂.mp (mt (gone.mem_all p there).mpr missing)
    exact (gone.mem_all q known).mp left h inside ((not_not.mp above).trans below)

end Descending

section Removing
variable {address : BRTxOutput → Address} {derive : Bool → Nat → Option Address}
  {rank : UInt256 → Nat} {w m s : BRWallet} {tx : BRTransaction} {h : UInt256}

theorem mem_dependents (ordered : Ordered w) (safe : ∀ t ∈ w.transactions, Safe rank t)
    (there : tx ∈ w.allTx) (d : UInt256) : d ∈ dependents w tx ↔
      ∃ t ∈ w.transactions, t.txHash = d ∧ ∃ input ∈ t.inputs, input.txHash = tx.txHash := by
  unfold dependents
  simp only [List.mem_map, List.mem_filter, decide_eq_true_eq]
  constructor
  · rintro ⟨t,⟨inside,-,spends⟩,same⟩
    exact ⟨t,List.mem_reverse.mp ((List.takeWhile_prefix _).subset inside),same,spends⟩
  · rintro ⟨t,listed,same,input,spent,parent⟩
    refine ⟨t,⟨?_,?_,input,spent,parent⟩,same⟩
    · -- the scan does not stop before it has come to this one
      obtain ⟨front,behind,parts⟩ := List.append_of_mem listed
      have reached : ∀ u ∈ behind.reverse ++ [t], decide (tx.blockHeight ≤ u.blockHeight) := by
        intro u inside
        rw [decide_eq_true_eq]
        rcases List.mem_append.mp inside with after | here
        · have later := ordered.later
          rw [parts] at later
          exact (List.pairwise_cons.mp (List.pairwise_append.mp later).2.1).1 u
            (List.mem_reverse.mp after) tx there ⟨input,spent,parent⟩
        · rw [List.mem_singleton.mp here]
          exact ordered.own t listed tx there ⟨input,spent,parent⟩
      have turned : w.transactions.reverse = (behind.reverse ++ [t]) ++ front.reverse := by
        rw [parts, List.reverse_append, List.reverse_cons]
      rw [turned, List.takeWhile_append_of_pos reached]
      simp
    · intro same_hash
      have less := (safe t listed).backed input spent
      rw [parent, same_hash] at less
      exact Nat.lt_irrefl _ less

theorem eraseP_eq_filter {txs : List BRTransaction}
    (distinct : (txs.map BRTransaction.txHash).Nodup) (h : UInt256) :
    txs.eraseP (fun t => t.txHash = h) = txs.filter fun t => t.txHash ≠ h := by
  induction txs with
  | nil => rfl
  | cons t txs ih =>
    obtain ⟨fresh,distinct⟩ := List.nodup_cons.mp distinct
    by_cases same : t.txHash = h
    · rw [List.eraseP_cons_of_pos (by simpa using same),
        List.filter_cons_of_neg (by simpa using same), List.filter_eq_self.mpr]
      intro u inside
      exact decide_eq_true fun other => fresh (same.trans other.symm ▸ List.mem_map_of_mem inside)
    · rw [List.eraseP_cons_of_neg (by simpa using same),
        List.filter_cons_of_pos (by simpa using same), ih distinct]

/-- A transaction whose outputs no listed one spends is taken out, and nothing else. -/
theorem takeOut_sound (sound : Sound address derive rank w) (call : Call)
    (alone : ∀ t ∈ w.transactions, ∀ input ∈ t.inputs, input.txHash ≠ tx.txHash) :
    ∃ s, takeOut address call w tx = some s ∧ Sound address derive rank s ∧
      Gone w s [tx.txHash] := by
  have turned : (w.transactions.reverse.eraseP fun t => t.txHash = tx.txHash).reverse =
      w.transactions.filter fun t => t.txHash ≠ tx.txHash := by
    have distinct : (w.transactions.reverse.map BRTransaction.txHash).Nodup := by
      rw [List.map_reverse, List.nodup_reverse]
      exact sound.distinct
    rw [eraseP_eq_filter distinct, ← List.filter_reverse, List.reverse_reverse]
  set left : BRWallet := { w with
    allTx := w.allTx.filter fun t => t.txHash ≠ tx.txHash
    transactions := w.transactions.filter fun t => t.txHash ≠ tx.txHash } with of_left
  have still : ∀ o output, w.outputOf o = some output → o.hash ≠ tx.txHash →
      left.outputOf o = some output := by
    intro o output found other
    obtain ⟨t,here,inside⟩ := Option.bind_eq_some_iff.mp found
    obtain ⟨known,same⟩ := forHash_mem here
    have kept : left.forHash o.hash = some t := by
      rw [← same]
      refine find_hash ((List.filter_sublist.map _).nodup sound.once) ?_
      exact List.mem_filter.mpr ⟨known,decide_eq_true (same ▸ other)⟩
    exact Option.bind_eq_some_iff.mpr ⟨t,kept,inside⟩
  have kept : Kept address derive rank left :=
    { once := (List.filter_sublist.map _).nodup sound.once
      listed := fun t listed => by
        obtain ⟨before,other⟩ := List.mem_filter.mp listed
        exact List.mem_filter.mpr ⟨sound.listed t before,other⟩
      distinct := (List.filter_sublist.map _).nodup sound.distinct
      safe := fun t known => sound.safe t (List.mem_filter.mp known).1
      associated := fun t listed => by
        have before := (List.mem_filter.mp listed).1
        refine containsTx_mono (w := w) (fun input spent output found _ => ?_)
          (fun _ inside => inside) (sound.associated t before)
        exact still _ output found (alone t before input spent)
      chains := chains_congr sound.chains rfl rfl rfl }
  have nothing : ∀ x, Descends w.transactions tx.txHash x ↔ x = tx.txHash := by
    intro x
    have direct : ∀ d : UInt256, d ∈ ([] : List UInt256) ↔ ∃ t ∈ w.transactions, t.txHash = d ∧
        ∃ input ∈ t.inputs, input.txHash = tx.txHash := by
      refine fun d => ⟨nofun,fun ⟨t,listed,_,input,spent,same⟩ => ?_⟩
      exact absurd same (alone t listed input spent)
    rw [descends_iff direct]
    simp
  obtain ⟨shown,updated,sound',all,txs,-⟩ := update_sound kept call.now
  refine ⟨shown,?_,sound',?_,?_,fun t listed => ?_,fun p known => ?_⟩
  · rw [takeOut, turned]
    exact updated
  · rw [txs]
    exact List.filter_sublist
  · rw [all]
    exact List.filter_sublist
  · rw [txs, List.forall_mem_singleton, nothing]
    simp [of_left, listed]
  · rw [all, List.forall_mem_singleton, nothing]
    simp [of_left, known]

/-- The listed transactions that come later -/
def later (rank : UInt256 → Nat) (w : BRWallet) (h : UInt256) : Nat :=
  (w.transactions.filter fun t => rank h < rank t.txHash).length

variable (rank) in
theorem later_le (txs : s.transactions.Sublist w.transactions) (h : UInt256) :
    later rank s h ≤ later rank w h := (txs.filter _).length_le

theorem later_lt {t : BRTransaction} (safe : Safe rank t) (listed : t ∈ w.transactions)
    {input : BRTxInput} (spent : input ∈ t.inputs) :
    later rank w t.txHash < later rank w input.txHash := by
  have less := safe.backed input spent
  refine filter_shorter (fun u after => ?_) listed (decide_eq_true less)
    (decide_eq_false (Nat.lt_irrefl _))
  exact decide_eq_true (less.trans (of_decide_eq_true after))

/-- If a call removes one transaction as it should, the loop over several removes them all. -/
theorem removeAll_sound {call : Call} {depth : Nat}
    (each : ∀ (m : BRWallet) (p : BRTransaction), Sound address derive rank m → Ordered m →
      later rank m p.txHash + 2 ≤ depth → p ∈ m.allTx →
        ∃ s, removeWithin address call depth m p.txHash = some s ∧
          Sound address derive rank s ∧ Gone m s [p.txHash])
    (once : (w.allTx.map BRTransaction.txHash).Nodup) (ordered : Ordered w) {ds : List UInt256}
    (known : ∀ d ∈ ds, ∃ p ∈ w.allTx, p.txHash = d ∧ later rank w d + 2 ≤ depth)
    {hashes : List UInt256} (sound : Sound address derive rank m) (gone : Gone w m hashes) :
    ∃ s, ds.foldlM (removeWithin address call depth) m = some s ∧
      Sound address derive rank s ∧ Gone w s (hashes ++ ds) := by
  induction ds generalizing m hashes with
  | nil => exact ⟨m,rfl,sound,by rwa [List.append_nil]⟩
  | cons d ds ih =>
    obtain ⟨⟨p,there,rfl,enough⟩,others⟩ := List.forall_mem_cons.mp known
    have one : ∃ s, removeWithin address call depth m p.txHash = some s ∧
        Sound address derive rank s ∧ Gone w s (hashes ++ [p.txHash]) := by
      by_cases left : p ∈ m.allTx
      · have fewer := later_le rank gone.txs p.txHash
        obtain ⟨s,removed,sound,next⟩ := each m p sound (ordered.sublist gone.txs gone.all)
          (by omega) left
        exact ⟨s,removed,sound,gone.step next⟩
      · refine ⟨m,?_,sound,gone.again there left⟩
        have missing : m.forHash p.txHash = none := by
          cases found : m.forHash p.txHash with
          | none => rfl
          | some q =>
            obtain ⟨inside,same⟩ := forHash_mem found
            have this := List.inj_on_of_nodup_map once (gone.all.subset inside) there same
            exact absurd (this ▸ inside) left
        obtain ⟨k,rfl⟩ : ∃ k, depth = k + 1 := ⟨depth - 1,by omega⟩
        rw [removeWithin, missing]
    obtain ⟨mid,removed,sound,gone⟩ := one
    obtain ⟨s,rest,sound,gone⟩ := ih others sound gone
    refine ⟨s,?_,sound,?_⟩
    · rw [List.foldlM_cons, removed]
      exact rest
    · rwa [List.append_assoc] at gone

/-- A transaction is removed with all that descends from it, and nothing else. -/
theorem removeWithin_sound (call : Call) {depth : Nat} (sound : Sound address derive rank w)
    (ordered : Ordered w) (enough : later rank w tx.txHash + 2 ≤ depth) (there : tx ∈ w.allTx) :
    ∃ s, removeWithin address call depth w tx.txHash = some s ∧ Sound address derive rank s ∧
      Gone w s [tx.txHash] := by
  induction depth generalizing w tx with
  | zero => exact absurd enough (Nat.not_succ_le_zero _)
  | succ depth ih =>
    have safe : ∀ t ∈ w.transactions, Safe rank t := fun t listed =>
      sound.safe t (sound.listed t listed)
    have direct := mem_dependents ordered safe there
    rw [removeWithin, forHash_of_mem sound.once there]
    dsimp only
    split
    case isTrue none_there =>
      refine takeOut_sound sound call fun t listed input spent same => ?_
      have inside := (direct t.txHash).mpr ⟨t,listed,rfl,input,spent,same⟩
      rw [none_there] at inside
      cases inside
    case isFalse some_there =>
      have known : ∀ d ∈ (dependents w tx).reverse,
          ∃ p ∈ w.allTx, p.txHash = d ∧ later rank w d + 2 ≤ depth := by
        intro d inside
        obtain ⟨t,listed,rfl,input,spent,parent⟩ := (direct d).mp (List.mem_reverse.mp inside)
        have less := later_lt (safe t listed) listed spent
        rw [parent] at less
        exact ⟨t,sound.listed t listed,rfl,by omega⟩
      obtain ⟨m,removed,sound_m,gone⟩ := removeAll_sound
        (fun m p sound ordered enough inside => ih sound ordered enough inside) sound.once ordered
        known sound (Gone.start w)
      -- the transaction itself descends from none of those, and is still there
      have still : tx ∈ m.allTx := by
        refine (gone.mem_all tx there).mpr fun d inside below => ?_
        rw [List.nil_append, List.mem_reverse] at inside
        obtain ⟨t,listed,rfl,input,spent,parent⟩ := (direct d).mp inside
        have less := (safe t listed).backed input spent
        rw [parent] at less
        exact absurd (below.rank_le safe) (Nat.not_le_of_lt less)
      have alone : ∀ t ∈ m.transactions, ∀ input ∈ t.inputs, input.txHash ≠ tx.txHash := by
        intro t left input spent parent
        have listed := gone.txs.subset left
        refine (gone.mem_txs t listed).mp left t.txHash ?_ .self
        rw [List.nil_append, List.mem_reverse]
        exact (direct _).mpr ⟨t,listed,rfl,input,spent,parent⟩
      obtain ⟨s,taken,sound_s,next⟩ := takeOut_sound sound_m call alone
      have none_left : dependents m tx = [] := by
        refine List.eq_nil_iff_forall_not_mem.mpr fun d inside => ?_
        obtain ⟨t,listed,-,input,spent,parent⟩ := (mem_dependents
          (ordered.sublist gone.txs gone.all)
          (fun t listed => safe t (gone.txs.subset listed)) still d).mp inside
        exact alone t listed input spent parent
      obtain ⟨k,rfl⟩ : ∃ k, depth = k + 1 := ⟨depth - 1,by omega⟩
      refine ⟨s,?_,sound_s,?_⟩
      · rw [removed]
        simp only [Option.bind_eq_bind, Option.bind_some]
        rw [removeWithin, forHash_of_mem sound_m.once still]
        exact (if_pos none_left).trans taken
      · have whole := gone.step next
        have same : ∀ x, (∀ h ∈ [] ++ (dependents w tx).reverse ++ [tx.txHash],
            ¬ Descends w.transactions h x) ↔
              ∀ h ∈ [tx.txHash], ¬ Descends w.transactions h x := by
          intro x
          rw [List.forall_mem_singleton, descends_iff direct, not_or, not_exists]
          simp only [List.nil_append, List.forall_mem_append, List.mem_reverse,
            List.forall_mem_singleton, not_and]
          rw [descends_iff direct]
          tauto
        exact ⟨whole.txs,whole.all,fun t listed => (whole.mem_txs t listed).trans (same _),
          fun p known => (whole.mem_all p known).trans (same _)⟩

end Removing

section Loading
variable {address : BRTxOutput → Address} {derive : Bool → Nat → Option Address}
  {rank : UInt256 → Nat} {w : BRWallet} {tx : BRTransaction}

variable (address) in
theorem loadTx_listed (lists : Listed derive rank w) (safe : Safe rank tx) :
    ∃ s, loadTx address w tx = some s ∧ Listed derive rank s := by
  unfold loadTx
  split
  case isTrue => exact ⟨w,rfl,lists⟩
  case isFalse new =>
    have missing := Option.not_isSome_iff_eq_none.mp (not_or.mp new).2
    have lists' := addTx_listed lists missing safe
    have there : tx ∈ (addTx w tx).allTx := List.mem_cons_self
    obtain ⟨txs,inserted,lists',-⟩ :=
      insertTx_listed address lists' there
        (missing_unlisted (w := w) lists missing)
    simp only [inserted, Option.bind_eq_bind, Option.bind_some]
    exact ⟨_,rfl,lists'.congr rfl rfl rfl rfl rfl⟩

theorem unused_listed (apart : Apart derive) (lists : Listed derive rank w) (call : Call)
    (gapLimit : Nat) (internal : Bool) :
    ∃ addrs s, BRWalletUnusedAddrs derive call w gapLimit internal = some (addrs,s) ∧
      Listed derive rank s := by
  obtain ⟨more,k,all,ran,chains,-⟩ := unusedAddrs_spec apart lists.chains call gapLimit internal
  exact ⟨_,_,ran,lists.once,lists.listed,lists.distinct,lists.safe,chains⟩

variable (address) in
/-- A new wallet lists what it was given of transactions that are signed. It is sound if these are
    associated with it. -/
theorem new_sound (apart : Apart derive) (call : Call) {txs : List BRTransaction}
    (safe : ∀ tx ∈ txs, Safe rank tx) :
    ∃ result, BRWalletNew address derive call txs = some result ∧ ∀ w, result = some w →
      (∀ tx ∈ w.transactions, containsTx address w tx = true) → Sound address derive rank w := by
  have loaded : ∀ (txs : List BRTransaction) (w : BRWallet), Listed derive rank w →
      (∀ tx ∈ txs, Safe rank tx) →
        ∃ s, txs.foldlM (loadTx address) w = some s ∧ Listed derive rank s := by
    intro txs
    induction txs with
    | nil => exact fun w lists _ => ⟨w,rfl,lists⟩
    | cons tx txs ih =>
      intro w lists safe
      obtain ⟨first,others⟩ := List.forall_mem_cons.mp safe
      obtain ⟨mid,here,lists⟩ := loadTx_listed address lists first
      obtain ⟨s,rest,lists⟩ := ih mid lists others
      refine ⟨s,?_,lists⟩
      rw [List.foldlM_cons, here]
      exact rest
  have start : Listed derive rank emptyWallet :=
    { once := List.nodup_nil
      listed := nofun
      distinct := List.nodup_nil
      safe := nofun
      chains :=
        { derived := fun internal k addr here => by cases internal <;> cases here
          known := fun addr => ⟨nofun,fun ⟨internal,there⟩ => by cases internal <;> cases there⟩ } }
  obtain ⟨w,ran,lists⟩ := loaded txs emptyWallet start safe
  obtain ⟨addrs,mid,first,lists⟩ :=
    unused_listed apart lists call SEQUENCE_GAP_LIMIT_EXTERNAL false
  obtain ⟨addrs',filled,second,lists⟩ :=
    unused_listed apart lists call SEQUENCE_GAP_LIMIT_INTERNAL true
  obtain ⟨shown,updated,lists,balanced,-⟩ := update_balanced address lists call.now
  have refilled : refill derive call w = some filled := by
    rw [refill, first]
    simp only [Option.bind_eq_bind, Option.bind_some, second]
  refine ⟨if (txs.take 1).all (containsTx address shown) then some shown else none,?_,
    fun s same associated => ?_⟩
  · rw [BRWalletNew, ran]
    simp only [Option.bind_eq_bind, Option.bind_some, refilled, updated]
  · split at same
    · cases same
      exact ⟨⟨lists,associated⟩,balanced⟩
    · cases same

end Loading

/-- What happens to the wallet -/
inductive Event where
  | register (tx : BRTransaction)
  | remove (txHash : UInt256)
  | update (txHashes : List UInt256) (blockHeight timestamp : UInt32)
  | unconfirm (blockHeight : UInt32)
  | addresses (gapLimit : Nat) (internal : Bool)
  | setFee (feePerKb : UInt64)

section Runs
variable (address : BRTxOutput → Address) (derive : Bool → Nat → Option Address)
  (rank : UInt256 → Nat)

def step (w : BRWallet) (e : Call × Event) : Option BRWallet :=
  match e.2 with
  | .register tx => (BRWalletRegisterTransaction address derive e.1 w tx).map Prod.snd
  | .remove txHash => BRWalletRemoveTransaction address e.1 w txHash
  | .update txHashes blockHeight timestamp =>
    BRWalletUpdateTransactions address e.1 w txHashes blockHeight timestamp
  | .unconfirm blockHeight => BRWalletSetTxUnconfirmedAfter address e.1 w blockHeight
  | .addresses gapLimit internal =>
    (BRWalletUnusedAddrs derive e.1 w gapLimit internal).map Prod.snd
  | .setFee feePerKb => some { w with feePerKb }

/-- What an event has to find: a transaction that spends nothing of its descendants, and an order
    in which the scan of a removal meets all dependents -/
def Allowed (w : BRWallet) (e : Call × Event) : Prop :=
  match e.2 with
  | .register tx => Safe rank tx
  | .remove _ => Ordered w
  | _ => True

variable {address derive rank} {w : BRWallet}

theorem remove_sound (sound : Sound address derive rank w) (ordered : Ordered w) (call : Call)
    (txHash : UInt256) :
    ∃ s, BRWalletRemoveTransaction address call w txHash = some s ∧
      Sound address derive rank s ∧
      Gone w s (if (w.forHash txHash).isSome then [txHash] else []) := by
  unfold BRWalletRemoveTransaction
  cases found : w.forHash txHash with
  | none => exact ⟨w,by rw [removeWithin, found],sound,Gone.start w⟩
  | some tx =>
    obtain ⟨there,rfl⟩ := forHash_mem found
    have few : later rank w tx.txHash ≤ w.transactions.length := List.length_filter_le _ _
    exact removeWithin_sound call sound ordered (by omega) there

theorem step_sound (apart : Apart derive) (w : BRWallet) (e : Call × Event)
    (sound : Sound address derive rank w) (allowed : Allowed rank w e) :
    ∃ s, step address derive w e = some s ∧ Sound address derive rank s := by
  obtain ⟨call,event⟩ := e
  cases event with
  | register tx =>
    obtain ⟨r,s,registered,sound⟩ := register_sound apart sound call allowed
    exact ⟨s,congrArg (Option.map Prod.snd) registered,sound⟩
  | remove txHash =>
    obtain ⟨s,removed,sound,-⟩ := remove_sound sound allowed call txHash
    exact ⟨s,removed,sound⟩
  | update txHashes blockHeight timestamp =>
    exact updateTransactions_sound sound call txHashes blockHeight timestamp
  | unconfirm blockHeight => exact unconfirmed_sound sound call blockHeight
  | addresses gapLimit internal =>
    obtain ⟨addrs,s,made,sound⟩ := unused_sound apart sound call gapLimit internal
    exact ⟨s,congrArg (Option.map Prod.snd) made,sound⟩
  | setFee feePerKb =>
    refine ⟨_,rfl,⟨⟨sound.toListed.congr rfl rfl rfl rfl rfl,sound.associated⟩,?_⟩⟩
    exact sound.balanced_mono rfl rfl rfl rfl rfl (fun _ _ => rfl) rfl
      (fun t listed => ⟨t,listed,rfl,rfl⟩) fun _ inside => inside

end Runs

/-- A payment to the first address of a wallet, and another that spends it -/
def payment : BRTransaction where
  txHash := 1
  version := 1
  inputs := [⟨0,0,0,[],some [],UINT32_MAX⟩]
  outputs := [⟨5000,[1]⟩]
  lockTime := 0
  blockHeight := TX_UNCONFIRMED
  timestamp := 0

def spending : BRTransaction :=
  { payment with txHash := 2, inputs := [⟨1,0,0,[],some [],UINT32_MAX⟩], outputs := [⟨4000,[2]⟩] }

/-- The address of an output of these transactions -/
def firstAddress (output : BRTxOutput) : Address := if output.script = [1] then ['e'] else []

def aCall : Call := ⟨1500000000,fun _ => false⟩

theorem payment_safe : Safe BitVec.toNat payment := ⟨by decide,by decide⟩

/-- A wallet that lists both -/
def listing : BRWallet :=
  { emptyWallet with
    allTx := [spending, payment]
    transactions := [payment, spending]
    externalChain := [['e']]
    allAddrs := [['e']] }

theorem listing_kept : Kept firstAddress longer BitVec.toNat listing where
  once := by decide
  listed := by decide
  distinct := by decide
  safe tx there := by
    rcases List.mem_cons.mp there with rfl | there
    · exact ⟨by decide,by decide⟩
    · cases List.mem_singleton.mp there
      exact payment_safe
  chains :=
    { derived := fun internal k addr here => by
        cases internal with
        | true => cases here
        | false =>
          obtain ⟨inside,rfl⟩ := List.getElem?_eq_some_iff.mp here
          cases Nat.lt_one_iff.mp inside
          rfl
      known := fun addr => by
        rw [Bool.exists_bool]
        exact ⟨.inl,fun there => there.resolve_right List.not_mem_nil⟩ }
  associated := by decide

end BRWalletRuns
