import AltMessenger.BRWallets

/-!
What is done to the wallet of the core: transactions that arrive, that are confirmed or no longer
so, and that are removed again, and addresses that are made in advance. A recursion that does not
end, and memory that is freed while the wallet still lists it, have no result.
-/
namespace BRWalletOperations
open BRTransactions JudgedLedger BRWallets

def SEQUENCE_GAP_LIMIT_EXTERNAL : Nat := 10

def SEQUENCE_GAP_LIMIT_INTERNAL : Nat := 5

/-- What a call finds around it: the time, and whether the array of the internal chain, or of the
    other, is moved to a new place as it grows -/
structure Call where
  now : Int
  moved : Bool → Bool

section Order
variable (address : BRTxOutput → Address) (wallet : BRWallet)

/-- `_txChainIndex` -/
def txChainIndex (tx : BRTransaction) (addrChain : List Address) : Option Nat :=
  (addrChain.zipIdx.reverse.find? fun a =>
    tx.outputs.any fun output => address output == a.1).map Prod.snd

/-- `_BRWalletTxIsAscending` -/
def isAscending : Nat → Option BRTransaction → BRTransaction → Option Bool
  | _, none, _ => some false
  | 0, some _, _ => none
  | depth + 1, some tx1, tx2 =>
    if tx2.blockHeight < tx1.blockHeight then some true
    else if tx1.blockHeight < tx2.blockHeight then some false
    else if tx1.inputs.any fun input => input.txHash == tx2.txHash then some true
    else if tx2.inputs.any fun input => input.txHash == tx1.txHash then some false
    else tx1.inputs.anyM fun input => isAscending depth (wallet.forHash input.txHash) tx2

/-- The last comparison of `_BRWalletTxCompare`, by the places in the chains -/
def compareIndex (tx1 tx2 : BRTransaction) : Int :=
  let i := txChainIndex address tx1 wallet.internalChain
  let j := txChainIndex address tx2
    (if i.isNone then wallet.externalChain else wallet.internalChain)
  let i := if i.isNone ∧ j.isSome then txChainIndex address tx1 wallet.externalChain else i
  match i, j with
  | some i, some j => if i = j then 0 else if j < i then 1 else -1
  | _, _ => 0

/-- `_BRWalletTxCompare`. The search for an ancestor goes no deeper than there are transactions. -/
def compareTx (tx1 tx2 : BRTransaction) : Option Int := do
  let depth := wallet.allTx.length + 1
  if ← isAscending wallet depth (some tx1) tx2 then some 1
  else if ← isAscending wallet depth (some tx2) tx1 then some (-1)
  else some (compareIndex address wallet tx1 tx2)

/-- The loop of `_BRWalletInsertTx`, from the last transaction on -/
def insertBefore (tx : BRTransaction) : List BRTransaction → Option (List BRTransaction)
  | [] => some [tx]
  | t :: before => do
    if 0 < (← compareTx address wallet t tx) then
      let before ← insertBefore tx before
      some (t :: before)
    else some (tx :: t :: before)

/-- `_BRWalletInsertTx` -/
def insertTx (tx : BRTransaction) : Option BRWallet := do
  let transactions ← insertBefore address wallet tx wallet.transactions.reverse
  some { wallet with transactions := transactions.reverse }

/-- `_BRWalletContainsTx` -/
def containsTx (tx : BRTransaction) : Bool :=
  tx.outputs.any (fun output => wallet.allAddrs.contains (address output)) ||
    tx.inputs.any fun input =>
      (wallet.outputOf (outpoint input)).any fun output =>
        wallet.allAddrs.contains (address output)

end Order

section Addresses
-- the address at a place of the internal chain, or of the other, where there is one
variable (derive : Bool → Nat → Option Address)

def chainOf (wallet : BRWallet) (internal : Bool) : List Address :=
  if internal then wallet.internalChain else wallet.externalChain

/-- The loop that makes addresses, up to the gap limit behind the last that is used, which is before
    place `i` -/
def extend (usedAddrs : List Address) (internal : Bool) (gapLimit : Nat) :
    Nat → List Address → Nat → Option (List Address × Nat)
  | 0, _, _ => none
  | fuel + 1, addrChain, i =>
    if addrChain.length < i + gapLimit then
      match derive internal addrChain.length with
      | none => some (addrChain,i)
      | some addr =>
        extend usedAddrs internal gapLimit fuel (addrChain ++ [addr])
          (if addr ∈ usedAddrs then addrChain.length + 1 else i)
    else some (addrChain,i)

/-- `BRWalletUnusedAddrs`. Each address that is used already takes the loop at most a gap limit
    further. -/
def BRWalletUnusedAddrs (call : Call) (wallet : BRWallet) (gapLimit : Nat) (internal : Bool) :
    Option (List Address × BRWallet) := do
  let old := chainOf wallet internal
  let i := (old.rdropWhile fun addr => addr ∉ wallet.usedAddrs).length
  let (addrChain, i) ← extend derive wallet.usedAddrs internal gapLimit
    (gapLimit * (wallet.usedAddrs.length + 1) + 1) old i
  let addrs := if i + gapLimit ≤ addrChain.length then (addrChain.drop i).take gapLimit else []
  if call.moved internal then
    let wallet :=
      if internal then { wallet with internalChain := addrChain }
      else { wallet with externalChain := addrChain }
    let internals := wallet.internalChain.reverse.foldl (fun all addr => all.insert addr) []
    some (addrs,{ wallet with
      allAddrs := wallet.externalChain.reverse.foldl (fun all addr => all.insert addr) internals })
  else
    let wallet := { wallet with
      allAddrs := (addrChain.drop old.length).foldl (fun all addr => all.insert addr)
        wallet.allAddrs }
    some (addrs,
      if internal then { wallet with internalChain := addrChain }
      else { wallet with externalChain := addrChain })

end Addresses

section Operations
variable (address : BRTxOutput → Address) (derive : Bool → Nat → Option Address) (call : Call)

/-- The two calls that follow when the addresses of a transaction are used -/
def refill (wallet : BRWallet) : Option BRWallet := do
  let (_, wallet) ←
    BRWalletUnusedAddrs derive call wallet SEQUENCE_GAP_LIMIT_EXTERNAL false
  let (_, wallet) ←
    BRWalletUnusedAddrs derive call wallet SEQUENCE_GAP_LIMIT_INTERNAL true
  some wallet

/-- `BRSetAdd` for a transaction -/
def addTx (wallet : BRWallet) (tx : BRTransaction) : BRWallet :=
  { wallet with
    allTx := tx :: wallet.allTx.filter fun t => t.txHash ≠ tx.txHash }

/-- The body of the loop in `BRWalletNew` -/
def loadTx (wallet : BRWallet) (tx : BRTransaction) : Option BRWallet :=
  if ¬ BRTransactionIsSigned tx ∨ (wallet.forHash tx.txHash).isSome then some wallet
  else do
    let wallet ← insertTx address (addTx wallet tx) tx
    some { wallet with
      usedAddrs := tx.outputs.foldl (fun used output =>
        if address output = [] then used else used.insert (address output)) wallet.usedAddrs }

def emptyWallet : BRWallet where
  balance := 0
  totalSent := 0
  totalReceived := 0
  feePerKb := (5000 * 1000 + 99) / 100
  balanceHist := []
  blockHeight := 0
  utxos := []
  transactions := []
  internalChain := []
  externalChain := []
  allTx := []
  invalidTx := []
  pendingTx := []
  spentOutputs := []
  usedAddrs := []
  allAddrs := []

/-- `BRWalletNew`; it returns `NULL` where the first transaction is not of the wallet. -/
def BRWalletNew (transactions : List BRTransaction) : Option (Option BRWallet) := do
  let wallet ← transactions.foldlM (loadTx address) emptyWallet
  let wallet ← refill derive call wallet
  let wallet ← BRWalletUpdateBalance address call.now wallet
  some (if (transactions.take 1).all (containsTx address wallet) then some wallet else none)

def BRWalletRegisterTransaction (wallet : BRWallet) (tx : BRTransaction) :
    Option (Bool × BRWallet) :=
  if BRTransactionIsSigned tx then
    if (wallet.forHash tx.txHash).isSome then some (true,wallet)
    else if containsTx address wallet tx then do
      let wallet ← insertTx address (addTx wallet tx) tx
      let wallet ← BRWalletUpdateBalance address call.now wallet
      let wallet ← refill derive call wallet
      some (true,wallet)
    else some (false,if tx.blockHeight = TX_UNCONFIRMED then addTx wallet tx else wallet)
  else some (false,wallet)

/-- The transactions that depend on one, from the last on, up to one of a lower block -/
def dependents (wallet : BRWallet) (tx : BRTransaction) : List UInt256 :=
  ((wallet.transactions.reverse.takeWhile fun t => tx.blockHeight ≤ t.blockHeight).filter fun t =>
    t.txHash ≠ tx.txHash ∧ ∃ input ∈ t.inputs, input.txHash = tx.txHash).map BRTransaction.txHash

/-- A transaction on which none depends is taken out. -/
def takeOut (wallet : BRWallet) (tx : BRTransaction) : Option BRWallet :=
  BRWalletUpdateBalance address call.now { wallet with
    allTx := wallet.allTx.filter fun t => t.txHash ≠ tx.txHash
    transactions := (wallet.transactions.reverse.eraseP fun t => t.txHash = tx.txHash).reverse }

def removeWithin : Nat → BRWallet → UInt256 → Option BRWallet
  | 0, _, _ => none
  | depth + 1, wallet, txHash =>
    match wallet.forHash txHash with
    | none => some wallet
    | some tx =>
      if dependents wallet tx = [] then takeOut address call wallet tx
      else do
        let wallet ← (dependents wallet tx).reverse.foldlM (removeWithin depth) wallet
        removeWithin depth wallet txHash

/-- `BRWalletRemoveTransaction`. It is called again for the dependents, and once more; these calls
    go no deeper than there are transactions. -/
def BRWalletRemoveTransaction (wallet : BRWallet) (txHash : UInt256) : Option BRWallet :=
  removeWithin address call (wallet.transactions.length + 2) wallet txHash

/-- What is changed in a transaction is so in the set of all and in the list, which have pointers
    to it. -/
def changeTx (change : BRTransaction → BRTransaction) (wallet : BRWallet) : BRWallet :=
  { wallet with
    allTx := wallet.allTx.map change
    transactions := wallet.transactions.map change }

def setBlock (txHash : UInt256) (blockHeight timestamp : UInt32) (tx : BRTransaction) :
    BRTransaction :=
  if tx.txHash = txHash then { tx with blockHeight, timestamp } else tx

/-- The body of the loop in `BRWalletUpdateTransactions`, with whether an update is needed -/
def updateOne (blockHeight timestamp : UInt32) (state : BRWallet × Bool) (txHash : UInt256) :
    Option (BRWallet × Bool) :=
  match state.1.forHash txHash with
  | none => some state
  | some tx =>
    if tx.blockHeight = blockHeight ∧ tx.timestamp = timestamp then some state
    else
      let wallet := changeTx (setBlock txHash blockHeight timestamp) state.1
      if containsTx address wallet tx then
        some (wallet,state.2 || wallet.pendingTx.contains txHash ||
          wallet.invalidTx.contains txHash)
      else if blockHeight = TX_UNCONFIRMED then some (wallet,state.2)
      else if txHash ∈ wallet.transactions.map BRTransaction.txHash then none
      else
        some ({ wallet with allTx := wallet.allTx.filter fun t => t.txHash ≠ txHash },state.2)

def BRWalletUpdateTransactions (wallet : BRWallet) (txHashes : List UInt256)
    (blockHeight timestamp : UInt32) : Option BRWallet := do
  let wallet :=
    if wallet.blockHeight < blockHeight then { wallet with blockHeight } else wallet
  let (wallet, needsUpdate) ←
    txHashes.foldlM (updateOne address blockHeight timestamp) (wallet,false)
  if needsUpdate then BRWalletUpdateBalance address call.now wallet else some wallet

def BRWalletSetTxUnconfirmedAfter (wallet : BRWallet) (blockHeight : UInt32) : Option BRWallet :=
  let late := (wallet.transactions.rtakeWhile fun t => blockHeight < t.blockHeight).map
    BRTransaction.txHash
  let wallet := changeTx (fun tx =>
    if tx.txHash ∈ late then { tx with blockHeight := TX_UNCONFIRMED } else tx)
    { wallet with blockHeight }
  if late = [] then some wallet else BRWalletUpdateBalance address call.now wallet

end Operations

end BRWalletOperations
