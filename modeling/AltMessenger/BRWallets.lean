import AltMessenger.BRTransactions
import AltMessenger.JudgedLedger
import Mathlib.Data.UInt

/-!
The wallet of the core, `BRWallet.c`: what it makes of the transactions that it knows. A set is the
list of its items, or of their keys where only a key is ever asked for. A pointer to nothing, and an
index that is outside of its array, have no result.
-/
namespace BRWallets
open BRTransactions JudgedLedger

abbrev Address := List Char

scoped instance address_lawful : LawfulBEq Address := inferInstance

structure BRUTXO where
  hash : UInt256
  n : UInt32
deriving DecidableEq, Repr

/-- The first fields of an input, which are those of the output that it spends -/
def outpoint (input : BRTxInput) : BRUTXO := ⟨input.txHash,input.index⟩

structure BRWallet where
  balance : UInt64
  totalSent : UInt64
  totalReceived : UInt64
  feePerKb : UInt64
  balanceHist : List UInt64
  blockHeight : UInt32
  utxos : List BRUTXO
  transactions : List BRTransaction
  internalChain : List Address
  externalChain : List Address
  allTx : List BRTransaction
  invalidTx : List UInt256
  pendingTx : List UInt256
  spentOutputs : List BRUTXO
  usedAddrs : List Address
  allAddrs : List Address
deriving DecidableEq, Repr

def TX_FEE_PER_KB : UInt64 := 1000

def TX_OUTPUT_SIZE : Nat := 34

def TX_INPUT_SIZE : Nat := 148

def TX_MIN_OUTPUT_AMOUNT : UInt64 := TX_FEE_PER_KB * 3 * (34 + 148) / 1000

def TX_MAX_SIZE : Nat := 100000

def TX_MAX_LOCK_HEIGHT : UInt32 := 500000000

def UINT32_MAX : UInt32 := 0xffffffff

def BRVarIntSize (i : Nat) : Nat := (BRVarIntSet (UInt64.ofNat i)).length

def inputSize (input : BRTxInput) : Nat :=
  match input.signature with
  | some signature => 32 + 4 + BRVarIntSize signature.length + signature.length + 4
  | none => TX_INPUT_SIZE

def outputSize (output : BRTxOutput) : Nat :=
  8 + BRVarIntSize output.script.length + output.script.length

def BRTransactionSize (tx : BRTransaction) : Nat :=
  8 + BRVarIntSize tx.inputs.length + BRVarIntSize tx.outputs.length +
    (tx.inputs.map inputSize).sum + (tx.outputs.map outputSize).sum

def BRTransactionIsSigned (tx : BRTransaction) : Bool :=
  tx.inputs.all fun input => input.signature.isSome

/-- `BRSetGet` for the hash of a transaction -/
def BRWallet.forHash (wallet : BRWallet) (txHash : UInt256) : Option BRTransaction :=
  wallet.allTx.find? fun tx => tx.txHash == txHash

/-- The output that an outpoint is about -/
def BRWallet.outputOf (wallet : BRWallet) (o : BRUTXO) : Option BRTxOutput := do
  let t ← wallet.forHash o.hash
  t.outputs[o.n.toNat]?

section Update
-- the address of an output, which is set with its script and empty if it has none, and the time
variable (address : BRTxOutput → Address) (now : Int)

/-- Any inputs are invalid or already spent. -/
def isInvalid (wallet : BRWallet) (tx : BRTransaction) : Bool :=
  tx.inputs.any fun input =>
    wallet.spentOutputs.contains (outpoint input) || wallet.invalidTx.contains input.txHash

/-- The reasons for which a transaction is pending that lie in itself -/
def isPostponed (blockHeight : UInt32) (tx : BRTransaction) : Bool :=
  decide (TX_MAX_SIZE < BRTransactionSize tx) ||
    tx.outputs.any (fun output => output.amount < TX_MIN_OUTPUT_AMOUNT) ||
    tx.inputs.any fun input =>
      input.sequence < UINT32_MAX - 1 ||
      (input.sequence < UINT32_MAX && tx.lockTime < TX_MAX_LOCK_HEIGHT &&
        blockHeight + 1 < tx.lockTime) ||
      (input.sequence < UINT32_MAX && now < tx.lockTime.toNat)

def isPending (wallet : BRWallet) (tx : BRTransaction) : Bool :=
  isPostponed now wallet.blockHeight tx ||
    tx.inputs.any fun input => wallet.pendingTx.contains input.txHash

/-- An output with an address is used, and one with an address of the wallet is unspent. -/
def addOutput (txHash : UInt256) (wallet : BRWallet) (o : BRTxOutput × Nat) : BRWallet :=
  if address o.1 = [] then wallet
  else
    let wallet := { wallet with usedAddrs := wallet.usedAddrs.insert (address o.1) }
    if address o.1 ∈ wallet.allAddrs then
      { wallet with
        utxos := wallet.utxos ++ [⟨txHash,UInt32.ofNat o.2⟩]
        balance := wallet.balance + o.1.amount }
    else wallet

/-- The check of an unspent output against the spent ones; the last comes first. -/
def sweepOutput (wallet : BRWallet) (o : BRUTXO) (rest : UInt64 × List BRUTXO) :
    Option (UInt64 × List BRUTXO) :=
  if o ∈ wallet.spentOutputs then do
    let output ← wallet.outputOf o
    some (rest.1 - output.amount,rest.2)
  else some (rest.1,o :: rest.2)

def sweep (wallet : BRWallet) : Option BRWallet := do
  let (balance, utxos) ← wallet.utxos.foldrM (sweepOutput wallet) (wallet.balance,[])
  some { wallet with balance, utxos }

/-- The body of the loop in `_BRWalletUpdateBalance`. The balance of the wallet is the one that is
    being added up. -/
def updateTx (wallet : BRWallet) (tx : BRTransaction) : Option BRWallet :=
  if tx.blockHeight = TX_UNCONFIRMED ∧ isInvalid wallet tx then
    some { wallet with
      invalidTx := wallet.invalidTx.insert tx.txHash
      balanceHist := wallet.balanceHist ++ [wallet.balance] }
  else
    let wallet := { wallet with
      spentOutputs := tx.inputs.foldl (fun spent input => spent.insert (outpoint input))
        wallet.spentOutputs }
    if tx.blockHeight = TX_UNCONFIRMED ∧ isPending now wallet tx then
      some { wallet with
        pendingTx := wallet.pendingTx.insert tx.txHash
        balanceHist := wallet.balanceHist ++ [wallet.balance] }
    else do
      let prevBalance := wallet.balance
      let wallet ← sweep (tx.outputs.zipIdx.foldl (addOutput address tx.txHash) wallet)
      let balance := wallet.balance
      some { wallet with
        totalReceived :=
          if prevBalance < balance then wallet.totalReceived + (balance - prevBalance)
          else wallet.totalReceived
        totalSent :=
          if balance < prevBalance then wallet.totalSent + (prevBalance - balance)
          else wallet.totalSent
        balanceHist := wallet.balanceHist ++ [balance] }

def cleared (wallet : BRWallet) : BRWallet :=
  { wallet with
    balance := 0
    totalSent := 0
    totalReceived := 0
    balanceHist := []
    utxos := []
    invalidTx := []
    pendingTx := []
    spentOutputs := []
    usedAddrs := [] }

/-- `_BRWalletUpdateBalance` -/
def BRWalletUpdateBalance (wallet : BRWallet) : Option BRWallet :=
  wallet.transactions.foldlM (updateTx address now) (cleared wallet)

end Update

section Judging
variable (address : BRTxOutput → Address) (now : Int) (wallet : BRWallet)

def spends (tx : BRTransaction) : List BRUTXO := tx.inputs.map outpoint

/-- The outputs of a transaction that the wallet has the addresses of, with their places -/
def ownOutputs (tx : BRTransaction) : List (BRTxOutput × Nat) :=
  tx.outputs.zipIdx.filter fun o => address o.1 ≠ [] ∧ address o.1 ∈ wallet.allAddrs

def gives (tx : BRTransaction) : List BRUTXO :=
  (ownOutputs address wallet tx).map fun o => ⟨tx.txHash,UInt32.ofNat o.2⟩

/-- An input is from a transaction of this fate. -/
def IsFrom (before : List (BRTransaction × Fate)) (fate : Fate) (input : BRTxInput) : Prop :=
  WithFate before fate fun t => t.txHash = input.txHash

instance (before : List (BRTransaction × Fate)) (fate : Fate) (input : BRTxInput) :
    Decidable (IsFrom before fate input) :=
  inferInstanceAs (Decidable (WithFate before fate _))

/-- What a wallet is meant to think of a transaction. One that is confirmed is accepted. Another is
    invalid if it spends what is spent before, or comes from one that is invalid, and pending if it
    is postponed itself or comes from one that is pending. -/
def judge (before : List (BRTransaction × Fate)) (tx : BRTransaction) : Fate :=
  if tx.blockHeight ≠ TX_UNCONFIRMED then .accepted
  else if ∃ input ∈ tx.inputs, outpoint input ∈ spent spends before ∨
      IsFrom before .invalid input then .invalid
  else if isPostponed now wallet.blockHeight tx ∨
      ∃ input ∈ tx.inputs, IsFrom before .pending input then .pending
  else .accepted

/-- The fates of the transactions of the wallet -/
def fates : List (BRTransaction × Fate) := marks (judge now wallet) wallet.transactions

def amountOf (o : BRUTXO) : UInt64 := ((wallet.outputOf o).map BRTxOutput.amount).getD 0

def total (utxos : List BRUTXO) : UInt64 := (utxos.map (amountOf wallet)).sum

end Judging

/-- The balance after each of the transactions -/
def historyOf (address : BRTxOutput → Address) (wallet : BRWallet)
    (marked : List (BRTransaction × Fate)) : List UInt64 :=
  (List.range marked.length).map fun i =>
    total wallet (unspent spends (gives address wallet) (marked.take (i + 1)))

/-- The transaction is the one that the wallet finds by its hash, and its outputs can be counted. -/
structure Known (wallet : BRWallet) (tx : BRTransaction) : Prop where
  found : wallet.forHash tx.txHash = some tx
  counted : tx.outputs.length ≤ 2 ^ 32

/-- What the wallet holds of a judged list of transactions -/
structure Shows (address : BRTxOutput → Address) (wallet : BRWallet)
    (marked : List (BRTransaction × Fate)) (shown : BRWallet) : Prop where
  invalid : ∀ hash, hash ∈ shown.invalidTx ↔ WithFate marked .invalid fun t => t.txHash = hash
  pending : ∀ hash, hash ∈ shown.pendingTx ↔ WithFate marked .pending fun t => t.txHash = hash
  spent : ∀ o, o ∈ shown.spentOutputs ↔ o ∈ spent spends marked
  used : ∀ addr, addr ∈ shown.usedAddrs ↔ addr ≠ [] ∧
    WithFate marked .accepted fun t => ∃ output ∈ t.outputs, address output = addr
  utxos : shown.utxos = unspent spends (gives address wallet) marked
  balance : shown.balance = total wallet shown.utxos
  flow : shown.balance + shown.totalSent = shown.totalReceived
  history : shown.balanceHist = historyOf address wallet marked
  rest : { shown with
    balance := wallet.balance
    totalSent := wallet.totalSent
    totalReceived := wallet.totalReceived
    balanceHist := wallet.balanceHist
    utxos := wallet.utxos
    invalidTx := wallet.invalidTx
    pendingTx := wallet.pendingTx
    spentOutputs := wallet.spentOutputs
    usedAddrs := wallet.usedAddrs } = wallet

section Parts
variable {address : BRTxOutput → Address} {now : Int} {wallet w s : BRWallet} {tx : BRTransaction}
  {marked : List (BRTransaction × Fate)}

theorem outputOf_congr (same : s.allTx = w.allTx) (o : BRUTXO) : s.outputOf o = w.outputOf o := by
  unfold BRWallet.outputOf BRWallet.forHash
  rw [same]

/-- The inputs of a transaction are added to what is spent. -/
theorem mem_spends (inputs : List BRTxInput) (before : List BRUTXO) (o : BRUTXO) :
    o ∈ inputs.foldl (fun spent input => spent.insert (outpoint input)) before ↔
      o ∈ before ∨ o ∈ inputs.map outpoint := by
  induction inputs generalizing before with
  | nil => simp
  | cons input inputs ih =>
    rw [List.foldl_cons, ih, List.mem_insert_iff, List.map_cons, List.mem_cons]
    tauto

/-- An output of the transaction is used, and is unspent at first if it is the wallet's. -/
theorem addOutput_eq (txHash : UInt256) (w : BRWallet) (o : BRTxOutput × Nat) :
    addOutput address txHash w o =
      { w with
        usedAddrs := if address o.1 = [] then w.usedAddrs else w.usedAddrs.insert (address o.1)
        utxos := w.utxos ++
          if address o.1 ≠ [] ∧ address o.1 ∈ w.allAddrs then [⟨txHash,UInt32.ofNat o.2⟩] else []
        balance := w.balance +
          if address o.1 ≠ [] ∧ address o.1 ∈ w.allAddrs then o.1.amount else 0 } := by
  unfold addOutput
  by_cases none_there : address o.1 = []
  · simp [none_there]
  · by_cases own : address o.1 ∈ w.allAddrs
    · simp [none_there, own]
    · simp [none_there, own]

variable (address) in
/-- The outputs of a transaction are used, and those of the wallet are unspent at first. -/
theorem addOutputs_eq (txHash : UInt256) (os : List (BRTxOutput × Nat)) (w : BRWallet) :
    ∃ used, (∀ addr, addr ∈ used ↔ addr ∈ w.usedAddrs ∨ addr ≠ [] ∧ ∃ o ∈ os, address o.1 = addr) ∧
      os.foldl (addOutput address txHash) w =
        { w with
          usedAddrs := used
          utxos := w.utxos ++ (os.filter fun o =>
            address o.1 ≠ [] ∧ address o.1 ∈ w.allAddrs).map fun o => ⟨txHash,UInt32.ofNat o.2⟩
          balance := w.balance + ((os.filter fun o =>
            address o.1 ≠ [] ∧ address o.1 ∈ w.allAddrs).map fun o => o.1.amount).sum } := by
  induction os generalizing w with
  | nil => exact ⟨w.usedAddrs,by simp,by simp⟩
  | cons o os ih =>
    obtain ⟨used,of_used,same⟩ := ih (addOutput address txHash w o)
    rw [List.foldl_cons, same, addOutput_eq]
    refine ⟨used,fun addr => ?_,?_⟩
    · rw [of_used, addOutput_eq, List.exists_mem_cons_iff]
      dsimp only
      split
      case isTrue none_there =>
        have other : addr ≠ [] → address o.1 ≠ addr := fun some_there eq =>
          some_there (eq ▸ none_there)
        tauto
      case isFalse some_there =>
        rw [List.mem_insert_iff]
        have this_one : addr = address o.1 → addr ≠ [] := fun eq => eq ▸ some_there
        have turned : addr = address o.1 ↔ address o.1 = addr := eq_comm
        tauto
    · by_cases own : address o.1 ≠ [] ∧ address o.1 ∈ w.allAddrs
      · simp only [own, if_true, ne_eq, not_false_eq_true, and_self, decide_true,
          List.filter_cons_of_pos, List.map_cons, List.sum_cons, List.append_assoc,
          List.singleton_append, UInt64.add_assoc]
      · simp only [own, if_false, List.append_nil, UInt64.add_zero, decide_false,
          Bool.false_eq_true, not_false_eq_true, List.filter_cons_of_neg]

/-- What is spent is taken out, and its amount from the balance. -/
theorem sweepOutputs_eq (utxos : List BRUTXO) (balance : UInt64)
    (known : ∀ o ∈ utxos, (w.outputOf o).isSome) :
    ∃ left, utxos.foldrM (sweepOutput w) (balance,[]) =
        some (left,utxos.filter fun o => o ∉ w.spentOutputs) ∧
      left + total w utxos = balance + total w (utxos.filter fun o => o ∉ w.spentOutputs) := by
  induction utxos with
  | nil => exact ⟨balance,rfl,rfl⟩
  | cons o utxos ih =>
    obtain ⟨here,known⟩ := List.forall_mem_cons.mp known
    obtain ⟨left,swept,same⟩ := ih known
    obtain ⟨output,found⟩ := Option.isSome_iff_exists.mp here
    have amount : amountOf w o = output.amount := by
      rw [amountOf, found]
      rfl
    rw [List.foldrM_cons, swept]
    by_cases gone : o ∈ w.spentOutputs
    · refine ⟨left - output.amount,?_,?_⟩
      · rw [List.filter_cons_of_neg (by simpa using gone)]
        change sweepOutput w o _ = _
        rw [sweepOutput, if_pos gone, found]
        rfl
      · rw [List.filter_cons_of_neg (by simpa using gone)]
        simp only [total, List.map_cons, List.sum_cons] at same ⊢
        rw [amount]
        grind
    · refine ⟨left,?_,?_⟩
      · rw [List.filter_cons_of_pos (by simpa using gone)]
        change sweepOutput w o _ = _
        rw [sweepOutput, if_neg gone]
      · rw [List.filter_cons_of_pos (by simpa using gone)]
        simp only [total, List.map_cons, List.sum_cons] at same ⊢
        grind

/-- Where the balance is that of the unspent outputs, it is so again of those that are left. -/
theorem sweep_eq (credited : w.balance = total w w.utxos)
    (known : ∀ o ∈ w.utxos, (w.outputOf o).isSome) :
    sweep w = some { w with
      balance := total w (w.utxos.filter fun o => o ∉ w.spentOutputs)
      utxos := w.utxos.filter fun o => o ∉ w.spentOutputs } := by
  obtain ⟨left,swept,same⟩ := sweepOutputs_eq w.utxos w.balance known
  have balance : left = total w (w.utxos.filter fun o => o ∉ w.spentOutputs) := by
    rw [credited] at same
    grind
  rw [sweep, swept, balance]
  rfl

theorem own_found (known : Known w tx) {o : BRTxOutput × Nat} (own : o ∈ ownOutputs address w tx) :
    w.outputOf ⟨tx.txHash,UInt32.ofNat o.2⟩ = some o.1 := by
  have there := List.mem_zipIdx_iff_getElem?.mp (List.mem_filter.mp own).1
  have inside : o.2 < tx.outputs.length := (List.getElem?_eq_some_iff.mp there).1
  have index : (UInt32.ofNat o.2).toNat = o.2 :=
    UInt32.toNat_ofNat_of_lt' (Nat.lt_of_lt_of_le inside known.counted)
  rw [BRWallet.outputOf]
  simp only [known.found, index, Option.bind_eq_bind, Option.bind_some]
  exact there

theorem total_congr (same : s.allTx = w.allTx) (utxos : List BRUTXO) :
    total s utxos = total w utxos := by
  refine congrArg List.sum (List.map_congr_left fun o _ => ?_)
  rw [amountOf, outputOf_congr same]
  rfl

theorem total_append (front behind : List BRUTXO) :
    total w (front ++ behind) = total w front + total w behind := by
  rw [total, List.map_append, List.sum_append]
  rfl

theorem total_gives (known : Known w tx) :
    total w (gives address w tx) =
      ((ownOutputs address w tx).map fun o => o.1.amount).sum := by
  rw [total, gives, List.map_map]
  refine congrArg List.sum (List.map_congr_left fun o own => ?_)
  rw [Function.comp_apply, amountOf, own_found known own]
  rfl

theorem unspent_found (known : ∀ m ∈ marked, Known w m.1) {o : BRUTXO}
    (there : o ∈ unspent spends (gives address w) marked) : (w.outputOf o).isSome := by
  obtain ⟨m,inside,-,given⟩ := mem_given.mp (mem_unspent.mp there).1
  obtain ⟨own,of_own,rfl⟩ := List.mem_map.mp given
  rw [own_found (known m inside) of_own]
  rfl

theorem historyOf_snoc (m : BRTransaction × Fate) :
    historyOf address w (marked ++ [m]) = historyOf address w marked ++
      [total w (unspent spends (gives address w) (marked ++ [m]))] := by
  rw [historyOf, List.length_append, List.length_singleton, List.range_succ, List.map_append,
    List.map_singleton]
  congr 1
  · refine List.map_congr_left fun i inside => ?_
    rw [List.take_append_of_le_length (List.mem_range.mp inside)]
  · rw [List.take_of_length_le (by simp)]

end Parts

section Steps
variable {address : BRTxOutput → Address} {now : Int} {w s : BRWallet} {tx : BRTransaction}
  {marked : List (BRTransaction × Fate)}

theorem Shows.allTx (shows : Shows address w marked s) : s.allTx = w.allTx := by
  have same := congrArg BRWallet.allTx shows.rest
  exact same

theorem Shows.allAddrs (shows : Shows address w marked s) : s.allAddrs = w.allAddrs := by
  have same := congrArg BRWallet.allAddrs shows.rest
  exact same

theorem Shows.blockHeight (shows : Shows address w marked s) : s.blockHeight = w.blockHeight := by
  have same := congrArg BRWallet.blockHeight shows.rest
  exact same

theorem isInvalid_iff (shows : Shows address w marked s) (tx : BRTransaction) :
    isInvalid s tx = true ↔ ∃ input ∈ tx.inputs, outpoint input ∈ spent spends marked ∨
      IsFrom marked .invalid input := by
  simp only [isInvalid, List.any_eq_true, Bool.or_eq_true, List.contains_iff_mem, shows.spent,
    shows.invalid, IsFrom]

theorem isPending_iff (shows : Shows address w marked s) (tx : BRTransaction) :
    isPending now s tx = true ↔ isPostponed now w.blockHeight tx = true ∨
      ∃ input ∈ tx.inputs, IsFrom marked .pending input := by
  simp only [isPending, List.any_eq_true, Bool.or_eq_true, List.contains_iff_mem, shows.pending,
    shows.blockHeight, IsFrom]

/-- A transaction that is invalid is only noted. -/
theorem shows_invalid (shows : Shows address w marked s) :
    Shows address w (marked ++ [(tx,.invalid)]) { s with
      invalidTx := s.invalidTx.insert tx.txHash
      balanceHist := s.balanceHist ++ [s.balance] } where
  invalid hash := by
    rw [List.mem_insert_iff, shows.invalid, withFate_snoc, eq_comm, or_comm]
    simp only [true_and]
  pending hash := by
    rw [withFate_snoc]
    simpa using shows.pending hash
  spent o := by
    rw [spent_snoc]
    simpa using shows.spent o
  used addr := by
    rw [withFate_snoc]
    simpa using shows.used addr
  utxos := by
    rw [unspent_other (m := (tx,Fate.invalid)) nofun]
    exact shows.utxos
  balance := shows.balance
  flow := shows.flow
  history := by
    rw [historyOf_snoc, unspent_other (m := (tx,Fate.invalid)) nofun, shows.history, shows.balance,
      shows.utxos]
  rest := shows.rest

/-- A transaction that is pending spends its inputs. -/
theorem shows_pending (shows : Shows address w marked s) :
    Shows address w (marked ++ [(tx,.pending)]) { s with
      spentOutputs := tx.inputs.foldl (fun spent input => spent.insert (outpoint input))
        s.spentOutputs
      pendingTx := s.pendingTx.insert tx.txHash
      balanceHist := s.balanceHist ++ [s.balance] } where
  invalid hash := by
    rw [withFate_snoc]
    simpa using shows.invalid hash
  pending hash := by
    rw [List.mem_insert_iff, shows.pending, withFate_snoc, eq_comm, or_comm]
    simp only [true_and]
  spent o := by
    rw [mem_spends, shows.spent, spent_snoc, if_neg nofun, List.mem_append]
    rfl
  used addr := by
    rw [withFate_snoc]
    simpa using shows.used addr
  utxos := by
    rw [unspent_other (m := (tx,Fate.pending)) nofun]
    exact shows.utxos
  balance := shows.balance
  flow := shows.flow
  history := by
    rw [historyOf_snoc, unspent_other (m := (tx,Fate.pending)) nofun, shows.history, shows.balance,
      shows.utxos]
  rest := shows.rest

/-- The outputs of a transaction by their place -/
theorem exists_zipIdx (outputs : List BRTxOutput) (P : BRTxOutput → Prop) :
    (∃ o ∈ outputs.zipIdx, P o.1) ↔ ∃ output ∈ outputs, P output := by
  constructor
  · rintro ⟨o,there,same⟩
    exact ⟨o.1,List.fst_mem_of_mem_zipIdx there,same⟩
  · rintro ⟨output,there,same⟩
    obtain ⟨i,inside,rfl⟩ := List.mem_iff_getElem.mp there
    exact ⟨(outputs[i],i),List.mem_zipIdx_iff_getElem?.mpr (List.getElem?_eq_getElem inside),same⟩

/-- A transaction that is accepted spends its inputs and gives its outputs, and then what is spent
    is taken out. -/
theorem shows_accepted (shows : Shows address w marked s) (known : ∀ m ∈ marked, Known w m.1)
    (this : Known w tx) :
    ∃ swept, sweep (tx.outputs.zipIdx.foldl (addOutput address tx.txHash) { s with
        spentOutputs := tx.inputs.foldl (fun spent input => spent.insert (outpoint input))
          s.spentOutputs }) = some swept ∧
      swept.totalReceived = s.totalReceived ∧ swept.totalSent = s.totalSent ∧
      swept.balanceHist = s.balanceHist ∧
      ∀ received sent, swept.balance + sent = received →
        Shows address w (marked ++ [(tx,.accepted)]) { swept with
          totalReceived := received
          totalSent := sent
          balanceHist := swept.balanceHist ++ [swept.balance] } := by
  obtain ⟨used,of_used,added⟩ := addOutputs_eq address tx.txHash tx.outputs.zipIdx
    { s with
      spentOutputs := tx.inputs.foldl (fun spent input => spent.insert (outpoint input))
        s.spentOutputs }
  rw [added]
  dsimp only at of_used ⊢
  rw [shows.allAddrs]
  set mid : BRWallet := { s with
    spentOutputs := tx.inputs.foldl (fun spent input => spent.insert (outpoint input))
      s.spentOutputs
    usedAddrs := used
    utxos := s.utxos ++ gives address w tx
    balance := s.balance + ((ownOutputs address w tx).map fun o => o.1.amount).sum
    allAddrs := w.allAddrs } with of_mid
  have found : mid.allTx = w.allTx := shows.allTx
  have each : ∀ o ∈ mid.utxos, (mid.outputOf o).isSome := by
    intro o there
    rw [outputOf_congr found]
    rcases List.mem_append.mp there with before | now_given
    · rw [shows.utxos] at before
      exact unspent_found known before
    · obtain ⟨given,of_own,rfl⟩ := List.mem_map.mp now_given
      rw [own_found this of_own]
      rfl
  have credited : mid.balance = total mid mid.utxos := by
    rw [total_congr found, of_mid, total_append, total_gives this, ← shows.balance]
  have spent_here : ∀ o, o ∈ mid.spentOutputs ↔
      o ∈ spent spends (marked ++ [(tx,.accepted)]) := by
    intro o
    rw [spent_snoc, if_neg nofun, List.mem_append, ← shows.spent]
    exact mem_spends tx.inputs s.spentOutputs o
  have kept : (mid.utxos.filter fun o => o ∉ mid.spentOutputs) =
      unspent spends (gives address w) (marked ++ [(tx,.accepted)]) := by
    rw [unspent_accept, ← shows.utxos]
    exact List.filter_congr fun o _ => decide_eq_decide.mpr (not_congr (spent_here o))
  have swept := sweep_eq credited each
  rw [kept, total_congr found] at swept
  refine ⟨_,swept,rfl,rfl,rfl,fun received sent flow =>
    { invalid := fun hash => ?_,
      pending := fun hash => ?_,
      spent := spent_here,
      used := fun addr => ?_,
      utxos := rfl,
      balance := rfl,
      flow := flow,
      history := ?_,
      rest := ?_ }⟩
  · rw [withFate_snoc]
    simpa using shows.invalid hash
  · rw [withFate_snoc]
    simpa using shows.pending hash
  · rw [withFate_snoc]
    change addr ∈ used ↔ _
    rw [of_used, shows.used, exists_zipIdx tx.outputs fun output => address output = addr]
    tauto
  · rw [historyOf_snoc, ← shows.history]
  · rw [of_mid, ← shows.allAddrs]
    exact shows.rest

/-- What the balance gains is received, and what it loses is sent. -/
theorem flow_kept (flow : s.balance + s.totalSent = s.totalReceived)
    (received : w.totalReceived = s.totalReceived) (sent : w.totalSent = s.totalSent) :
    w.balance + (if w.balance < s.balance then w.totalSent + (s.balance - w.balance)
        else w.totalSent) =
      if s.balance < w.balance then w.totalReceived + (w.balance - s.balance)
      else w.totalReceived := by
  rw [← received, ← sent] at flow
  split
  case isTrue less =>
    rw [if_neg (UInt64.not_lt.mpr (UInt64.le_of_lt less))]
    grind
  case isFalse not_less =>
    split
    case isTrue more => grind
    case isFalse not_more =>
      rw [← UInt64.le_antisymm (UInt64.not_lt.mp not_more) (UInt64.not_lt.mp not_less)] at flow
      exact flow

variable (now) in
/-- One turn of the loop judges the next transaction. -/
theorem updateTx_shows (shows : Shows address w marked s) (known : ∀ m ∈ marked, Known w m.1)
    (this : Known w tx) :
    ∃ shown, updateTx address now s tx = some shown ∧
      Shows address w (marked ++ [(tx,judge now w marked tx)]) shown := by
  unfold updateTx
  by_cases bad : tx.blockHeight = TX_UNCONFIRMED ∧ isInvalid s tx = true
  · have fate : judge now w marked tx = .invalid := by
      rw [judge, if_neg (not_not.mpr bad.1), if_pos ((isInvalid_iff shows tx).mp bad.2)]
    rw [if_pos bad, fate]
    exact ⟨_,rfl,shows_invalid shows⟩
  · rw [if_neg bad]
    by_cases late : tx.blockHeight = TX_UNCONFIRMED ∧ isPending now s tx = true
    · have fate : judge now w marked tx = .pending := by
        rw [judge, if_neg (not_not.mpr late.1),
          if_neg (fun found => bad ⟨late.1,(isInvalid_iff shows tx).mpr found⟩),
          if_pos ((isPending_iff shows tx).mp late.2)]
      rw [fate]
      exact ⟨_,if_pos late,shows_pending shows⟩
    · have fate : judge now w marked tx = .accepted := by
        rw [judge]
        split
        case isTrue => rfl
        case isFalse unconfirmed =>
          have unconfirmed := not_not.mp unconfirmed
          rw [if_neg (fun found => bad ⟨unconfirmed,(isInvalid_iff shows tx).mpr found⟩),
            if_neg (fun found => late ⟨unconfirmed,(isPending_iff shows tx).mpr found⟩)]
      obtain ⟨swept,swept_eq,received,sent,history,after⟩ := shows_accepted shows known this
      rw [fate]
      refine ⟨_,?_,after _ _ (flow_kept shows.flow received sent)⟩
      refine (if_neg late).trans ?_
      simp only [swept_eq, Option.bind_eq_bind, Option.bind_some]

variable (address now) in
/-- The whole loop judges the transactions one after another. -/
theorem update_shows (known : ∀ tx ∈ w.transactions, Known w tx) :
    ∃ shown, BRWalletUpdateBalance address now w = some shown ∧
      Shows address w (fates now w) shown := by
  have from_start : ∀ txs : List BRTransaction, (∀ tx ∈ txs, Known w tx) →
      ∃ shown, txs.foldlM (updateTx address now) (cleared w) = some shown ∧
        Shows address w (marks (judge now w) txs) shown := by
    intro txs
    induction txs using List.reverseRecOn with
    | nil =>
      refine fun _ => ⟨cleared w,rfl,?_⟩
      refine
        { invalid := fun hash => ⟨nofun,?_⟩,
          pending := fun hash => ⟨nofun,?_⟩,
          spent := fun o => Iff.rfl,
          used := fun addr => ⟨nofun,?_⟩,
          utxos := rfl,
          balance := rfl,
          flow := rfl,
          history := rfl,
          rest := rfl }
      · rintro ⟨m,there,-⟩
        cases there
      · rintro ⟨m,there,-⟩
        cases there
      · rintro ⟨-,m,there,-⟩
        cases there
    | append_singleton txs tx ih =>
      intro known
      obtain ⟨s,ran,shows⟩ := ih fun t there => known t (List.mem_append_left _ there)
      have known_marks : ∀ m ∈ marks (judge now w) txs, Known w m.1 := by
        intro m there
        refine known m.1 (List.mem_append_left _ ?_)
        rw [← marks_map (judge now w) txs]
        exact List.mem_map_of_mem there
      obtain ⟨shown,turn,after⟩ := updateTx_shows now shows known_marks
        (known tx (List.mem_append_right _ (List.mem_singleton_self _)))
      refine ⟨shown,?_,?_⟩
      · rw [List.foldlM_append, ran]
        simpa using turn
      · rw [marks_snoc]
        exact after
  exact from_start w.transactions known

end Steps

section Outcome
variable {address : BRTxOutput → Address} {now : Int} {w : BRWallet} {tx : BRTransaction}
  {marked : List (BRTransaction × Fate)}

theorem gives_hash {o : BRUTXO} (given : o ∈ gives address w tx) : o.hash = tx.txHash := by
  obtain ⟨own,-,rfl⟩ := List.mem_map.mp given
  rfl

theorem gives_nodup (counted : tx.outputs.length ≤ 2 ^ 32) : (gives address w tx).Nodup := by
  have places : ((ownOutputs address w tx).map Prod.snd).Nodup := by
    refine (List.filter_sublist.map Prod.snd).nodup ?_
    rw [List.zipIdx_map_snd]
    exact List.nodup_range'
  have below : ∀ o ∈ ownOutputs address w tx, o.2 < 2 ^ 32 := by
    intro o own
    have inside := (List.mem_zipIdx (List.mem_filter.mp own).1).2.1
    omega
  refine List.Nodup.map_on ?_ (List.Nodup.of_map Prod.snd places)
  intro o own o' own' same
  refine List.inj_on_of_nodup_map places own own' ?_
  have index := congrArg (fun o : BRUTXO => o.n.toNat) same
  simpa only [UInt32.toNat_ofNat_of_lt' (below o own), UInt32.toNat_ofNat_of_lt' (below o' own')]
    using index

theorem given_nodup (distinct : (marked.map fun m => m.1.txHash).Nodup)
    (counted : ∀ m ∈ marked, m.1.outputs.length ≤ 2 ^ 32) :
    (given (gives address w) marked).Nodup := by
  rw [given, List.nodup_flatMap]
  refine ⟨fun m there => gives_nodup (counted m (List.mem_filter.mp there).1),?_⟩
  have apart : (marked.filter fun m => m.2 = .accepted).Pairwise fun m m' =>
      m.1.txHash ≠ m'.1.txHash :=
    (List.pairwise_map.mp distinct).sublist List.filter_sublist
  refine apart.imp fun {m m'} differ o given given' => differ ?_
  rw [← gives_hash given, ← gives_hash given']

/-- The unspent outputs are the wallet's outputs of accepted transactions that none before the last
    accepted spends, each once. The balance is their total, now and after each transaction, and what
    was received without what was sent. No unconfirmed transaction that has an effect spends what
    one before it spends. -/
theorem balance_is_unspent_total (address : BRTxOutput → Address) (now : Int) (w : BRWallet)
    (known : ∀ tx ∈ w.transactions, Known w tx)
    (distinct : (w.transactions.map BRTransaction.txHash).Nodup) :
    ∃ shown, BRWalletUpdateBalance address now w = some shown ∧
      Shows address w (fates now w) shown ∧ shown.utxos.Nodup ∧
      (∀ o, o ∈ shown.utxos ↔
        WithFate (fates now w) .accepted (fun t => o ∈ gives address w t) ∧
          ∀ front m behind, fates now w = front ++ m :: behind → m.2 ≠ .invalid →
            o ∈ spends m.1 → ∀ later ∈ m :: behind, later.2 ≠ .accepted) ∧
      ∀ front m behind, fates now w = front ++ m :: behind → m.2 ≠ .invalid →
        m.1.blockHeight = TX_UNCONFIRMED → ∀ o ∈ spends m.1, o ∉ spent spends front := by
  obtain ⟨shown,updated,shows⟩ := update_shows address now known
  have listed : (fates now w).map Prod.fst = w.transactions := marks_map _ _
  have counted : ∀ m ∈ fates now w, m.1.outputs.length ≤ 2 ^ 32 := by
    intro m there
    exact (known m.1 (listed ▸ List.mem_map_of_mem there)).counted
  refine ⟨shown,updated,shows,?_,fun o => ?_,fun front m behind parts counts unconfirmed o spent_by
    already => ?_⟩
  · rw [shows.utxos]
    refine (given_nodup ?_ counted).filter _
    rwa [← listed, List.map_map] at distinct
  · rw [shows.utxos, mem_unspent, mem_given]
    refine and_congr_right fun _ => ?_
    rw [mem_spent]
    constructor
    · intro free front m behind parts counts spent_by later there accepted
      exact free ⟨m,mem_swept.mpr ⟨front,behind,parts,later,there,accepted⟩,counts,spent_by⟩
    · rintro free ⟨m,swept,counts,spent_by⟩
      obtain ⟨front,behind,parts,later,there,accepted⟩ := mem_swept.mp swept
      exact free front m behind parts counts spent_by later there accepted
  · have fate := marks_judged parts
    obtain ⟨input,inside,rfl⟩ := List.mem_map.mp spent_by
    rw [judge, if_neg (not_not.mpr unconfirmed), if_pos ⟨input,inside,.inl already⟩] at fate
    exact counts fate

/-- A payment to the wallet, and the wallet's own payment of a part of it -/
def paidWallet : BRWallet :=
  let received : BRTransaction :=
    { txHash := 1
      version := 1
      inputs := [⟨7,0,0,[],some [],UINT32_MAX⟩]
      outputs := [⟨5000,[1]⟩, ⟨9000,[2]⟩]
      lockTime := 0
      blockHeight := 100
      timestamp := 0 }
  let sent : BRTransaction :=
    { txHash := 2
      version := 1
      inputs := [⟨1,0,0,[],some [],UINT32_MAX⟩]
      outputs := [⟨3000,[2]⟩, ⟨1500,[1]⟩]
      lockTime := 0
      blockHeight := TX_UNCONFIRMED
      timestamp := 0 }
  { balance := 0
    totalSent := 0
    totalReceived := 0
    feePerKb := 5000
    balanceHist := []
    blockHeight := 100
    utxos := []
    transactions := [received, sent]
    internalChain := []
    externalChain := []
    allTx := [sent, received]
    invalidTx := []
    pendingTx := []
    spentOutputs := []
    usedAddrs := []
    allAddrs := [['a']] }

/-- The address of an output of these transactions -/
def paidAddress (output : BRTxOutput) : Address := if output.script = [1] then ['a'] else ['b']

theorem paid_known : ∀ tx ∈ paidWallet.transactions, Known paidWallet tx := by
  intro tx there
  rcases List.mem_cons.mp there with rfl | there
  · exact ⟨rfl,by decide⟩
  · cases List.mem_singleton.mp there
    exact ⟨rfl,by decide⟩

theorem change_is_unspent : ∃ shown, BRWalletUpdateBalance paidAddress 1500000000 paidWallet =
    some shown ∧ shown.utxos.Nodup := by
  obtain ⟨shown,updated,-,nodup,-⟩ :=
    balance_is_unspent_total paidAddress 1500000000 paidWallet paid_known (by decide)
  exact ⟨shown,updated,nodup⟩

example : (BRWalletUpdateBalance paidAddress 1500000000 paidWallet).map BRWallet.balanceHist =
    some [5000, 1500] := by decide +kernel

end Outcome

end BRWallets
