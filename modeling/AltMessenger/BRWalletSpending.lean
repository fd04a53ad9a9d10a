import AltMessenger.BRWalletRuns

/-!
How the wallet of the core spends. A transaction takes unspent outputs in their order, until they
pay for what is sent and for a fee that goes with its size, and what is left over comes back to a
new address. Where that gets too large, the last output is changed or left out.
-/
namespace BRWalletSpending
open BRTransactions JudgedLedger BRWallets BRWalletOperations BRWalletAddresses BRWalletRuns

def MIN_FEE_PER_KB : UInt64 := (TX_FEE_PER_KB * 1000 + 190) / 191

/-- `_txFee` -/
def txFee (feePerKb : UInt64) (size : Nat) : UInt64 :=
  let standardFee := UInt64.ofNat ((size + 999) / 1000) * TX_FEE_PER_KB
  let fee := (UInt64.ofNat size * feePerKb / 1000 + 99) / 100 * 100
  if standardFee < fee then fee else standardFee

def BRWalletMinOutputAmount (wallet : BRWallet) : UInt64 :=
  let amount := (TX_MIN_OUTPUT_AMOUNT * wallet.feePerKb + MIN_FEE_PER_KB - 1) / MIN_FEE_PER_KB
  if TX_MIN_OUTPUT_AMOUNT < amount then amount else TX_MIN_OUTPUT_AMOUNT

def BRTransactionNew : BRTransaction where
  txHash := 0
  version := 1
  inputs := []
  outputs := []
  lockTime := 0
  blockHeight := TX_UNCONFIRMED
  timestamp := 0

/-- The input that spends an output of the wallet -/
def inputFor (o : BRUTXO) (output : BRTxOutput) : BRTxInput where
  txHash := o.hash
  index := o.n
  amount := output.amount
  script := output.script
  signature := none
  sequence := UINT32_MAX

/-- The turns of the loop in `BRTransactionShuffleOutputs`, each with its random number -/
def BRTransactionShuffleOutputs (rand : Nat → Nat) (outputs : List BRTxOutput) : List BRTxOutput :=
  ((List.range (outputs.length - 1)).foldl (fun shuffled i =>
    shuffled.swapIfInBounds i (i + rand i % (outputs.length - i))) outputs.toArray).toList

/-- What the loop over the unspent outputs has come to -/
structure Draft where
  transaction : BRTransaction
  balance : UInt64
  feeAmount : UInt64

/-- How that loop ends; where the transaction gets too large, before the input that is too much -/
inductive Picked where
  | built (draft : Draft)
  | tooLarge (draft : Draft)

section Creating
variable (wallet : BRWallet)

/-- The fee with a change output, which rounds what remains in the wallet off to hundreds -/
def feeFor (amount : UInt64) (transaction : BRTransaction) : UInt64 :=
  let feeAmount := txFee wallet.feePerKb (BRTransactionSize transaction + TX_OUTPUT_SIZE)
  if amount + feeAmount < wallet.balance then
    feeAmount + (wallet.balance - (amount + feeAmount)) % 100
  else feeAmount

def pick (amount minAmount : UInt64) : List BRUTXO → Draft → Picked
  | [], draft => .built draft
  | o :: utxos, draft =>
    match wallet.outputOf o with
    | none => pick amount minAmount utxos draft
    | some output =>
      let transaction := { draft.transaction with
        inputs := draft.transaction.inputs ++ [inputFor o output] }
      if TX_MAX_SIZE < BRTransactionSize transaction + TX_OUTPUT_SIZE then .tooLarge draft
      else
        let balance := draft.balance + output.amount
        let feeAmount := feeFor wallet amount transaction
        if balance = amount + feeAmount ∨ amount + feeAmount + minAmount ≤ balance then
          .built { transaction, balance, feeAmount }
        else pick amount minAmount utxos { transaction, balance, feeAmount }

/-- The transaction before any input, with the fee for a change output -/
def firstDraft (outputs : List BRTxOutput) : Draft where
  transaction := { BRTransactionNew with outputs }
  balance := 0
  feeAmount := txFee wallet.feePerKb
    (BRTransactionSize { BRTransactionNew with outputs } + TX_OUTPUT_SIZE)

end Creating

def sumOf (outputs : List BRTxOutput) : UInt64 := (outputs.map BRTxOutput.amount).sum

section Create
-- the script that pays to an address, and the numbers of the shuffle
variable (derive : Bool → Nat → Option Address) (scriptFor : Address → List UInt8)
  (rand : Nat → Nat) (call : Call)

/-- The end of `BRWalletCreateTxForOutputs`, where the transaction was not too large -/
def finish (wallet : BRWallet) (outputs : List BRTxOutput) (draft : Draft) :
    Option (BRWallet × Option BRTransaction) :=
  let rest := draft.balance - (sumOf outputs + draft.feeAmount)
  if outputs.length < 1 ∨ draft.balance < sumOf outputs + draft.feeAmount then some (wallet,none)
  else if BRWalletMinOutputAmount wallet ≤ rest then do
    let (addrs, wallet) ← BRWalletUnusedAddrs derive call wallet 1 true
    let change : BRTxOutput := { amount := rest, script := scriptFor (addrs.headD []) }
    some (wallet,some { draft.transaction with
      outputs := BRTransactionShuffleOutputs rand (draft.transaction.outputs ++ [change]) })
  else some (wallet,some draft.transaction)

/-- `BRWalletCreateTxForOutputs`, which is called again for a transaction that gets too large. There
    the last output is read, also if there is none. -/
def createWithin : Nat → BRWallet → List BRTxOutput → Option (BRWallet × Option BRTransaction)
  | 0, _, _ => none
  | depth + 1, wallet, outputs =>
    let amount := sumOf outputs
    let minAmount := BRWalletMinOutputAmount wallet
    match pick wallet amount minAmount wallet.utxos (firstDraft wallet outputs) with
    | .built draft => finish derive scriptFor rand call wallet outputs draft
    | .tooLarge draft =>
      if wallet.balance < amount + txFee wallet.feePerKb (10 +
          wallet.utxos.length * TX_INPUT_SIZE + (outputs.length + 1) * TX_OUTPUT_SIZE) then
        some (wallet,none)
      else do
        let last ← outputs.getLast?
        if amount + draft.feeAmount + minAmount - draft.balance < last.amount then
          createWithin depth wallet (outputs.dropLast ++
            [{ last with amount := last.amount - (amount + draft.feeAmount - draft.balance) }])
        else createWithin depth wallet outputs.dropLast

end Create

section Shuffling

theorem swapIfInBounds_perm (outputs : Array BRTxOutput) (i j : Nat) :
    (outputs.swapIfInBounds i j).toList.Perm outputs.toList := by
  rw [Array.swapIfInBounds_def]
  split
  · split
    · exact (Array.swap_perm _ _).toList
    · exact List.Perm.refl _
  · exact List.Perm.refl _

/-- A shuffle keeps all outputs, whatever the numbers are. -/
theorem shuffle_perm (rand : Nat → Nat) (outputs : List BRTxOutput) :
    (BRTransactionShuffleOutputs rand outputs).Perm outputs := by
  have all : ∀ (turns : List Nat) (n : Nat) (shuffled : Array BRTxOutput),
      (turns.foldl (fun shuffled i => shuffled.swapIfInBounds i (i + rand i % (n - i)))
        shuffled).toList.Perm shuffled.toList := by
    intro turns n
    induction turns with
    | nil => exact fun shuffled => List.Perm.refl _
    | cons i turns ih => exact fun shuffled => (ih _).trans (swapIfInBounds_perm _ _ _)
  exact all _ _ _

end Shuffling

section Picking
variable {w : BRWallet} {amount minAmount : UInt64} {outputs : List BRTxOutput}
  {used utxos : List BRUTXO} {draft : Draft}

def inputOf (w : BRWallet) (o : BRUTXO) : BRTxInput := inputFor o ((w.outputOf o).getD ⟨0,[]⟩)

/-- The transaction that spends these, unsigned -/
def spending (w : BRWallet) (outputs : List BRTxOutput) (used : List BRUTXO) : BRTransaction :=
  { BRTransactionNew with outputs, inputs := used.map (inputOf w) }

/-- What the draft is after these are used -/
structure Drafted (w : BRWallet) (amount : UInt64) (outputs : List BRTxOutput)
    (used : List BRUTXO) (draft : Draft) : Prop where
  transaction : draft.transaction = spending w outputs used
  balance : draft.balance = total w used
  feeAmount : draft.feeAmount =
    if used = [] then txFee w.feePerKb (BRTransactionSize (spending w outputs []) + TX_OUTPUT_SIZE)
    else feeFor w amount (spending w outputs used)
  small : used ≠ [] → BRTransactionSize (spending w outputs used) + TX_OUTPUT_SIZE ≤ TX_MAX_SIZE

/-- The loop stops where nothing is left over, or enough for a change output. -/
def Stops (amount minAmount : UInt64) (draft : Draft) : Prop :=
  draft.balance = amount + draft.feeAmount ∨ amount + draft.feeAmount + minAmount ≤ draft.balance

theorem firstDraft_drafted (w : BRWallet) (amount : UInt64) (outputs : List BRTxOutput) :
    Drafted w amount outputs [] (firstDraft w outputs) where
  transaction := rfl
  balance := rfl
  feeAmount := (if_pos rfl).symm
  small := nofun

variable (minAmount) in
/-- The loop uses a first part of the unspent outputs. It is built with all, or with those at which
    it stops, or too large with the next. -/
theorem pick_spec (found : ∀ o ∈ utxos, (w.outputOf o).isSome)
    (drafted : Drafted w amount outputs used draft)
    (going : used ≠ [] → ¬ Stops amount minAmount draft) :
    (∃ more rest draft', utxos = more ++ rest ∧
      pick w amount minAmount utxos draft = .built draft' ∧
      Drafted w amount outputs (used ++ more) draft' ∧
      (rest = [] ∨ Stops amount minAmount draft')) ∨
    ∃ more o rest draft', utxos = more ++ o :: rest ∧
      pick w amount minAmount utxos draft = .tooLarge draft' ∧
      Drafted w amount outputs (used ++ more) draft' ∧
      TX_MAX_SIZE < BRTransactionSize (spending w outputs (used ++ more ++ [o])) + TX_OUTPUT_SIZE ∧
      (used ++ more ≠ [] → ¬ Stops amount minAmount draft') := by
  induction utxos generalizing used draft with
  | nil => exact .inl ⟨[],[],draft,rfl,rfl,by rwa [List.append_nil],.inl rfl⟩
  | cons o utxos ih =>
    obtain ⟨here,found⟩ := List.forall_mem_cons.mp found
    obtain ⟨output,this⟩ := Option.isSome_iff_exists.mp here
    have input : inputOf w o = inputFor o output := by
      rw [inputOf, this]
      rfl
    have transaction : { draft.transaction with
        inputs := draft.transaction.inputs ++ [inputFor o output] } =
          spending w outputs (used ++ [o]) := by
      rw [drafted.transaction, ← input, spending, spending, List.map_append]
      rfl
    have balance : draft.balance + output.amount = total w (used ++ [o]) := by
      rw [drafted.balance, total_append, total, total, List.map_singleton, amountOf, this]
      simp
    rw [pick, this]
    dsimp only
    rw [transaction]
    split
    case isTrue large =>
      refine .inr ⟨[],o,utxos,draft,rfl,rfl,by rwa [List.append_nil],?_,?_⟩
      · rwa [List.append_nil]
      · rwa [List.append_nil]
    case isFalse small =>
      have next : Drafted w amount outputs (used ++ [o])
          ⟨spending w outputs (used ++ [o]),draft.balance + output.amount,
            feeFor w amount (spending w outputs (used ++ [o]))⟩ :=
        { transaction := rfl
          balance := balance
          feeAmount := (if_neg (by simp)).symm
          small := fun _ => Nat.not_lt.mp small }
      split
      case isTrue stops =>
        exact .inl ⟨[o],utxos,_,rfl,rfl,next,.inr stops⟩
      case isFalse goes_on =>
        rcases ih found next fun _ => goes_on with ⟨more,rest,draft',parts,picked,drafted',ends⟩ |
          ⟨more,last,rest,draft',parts,picked,drafted',large,ends⟩
        · refine .inl ⟨o :: more,rest,draft',by rw [parts]; rfl,picked,?_,ends⟩
          rwa [List.append_assoc] at drafted'
        · refine .inr ⟨o :: more,last,rest,draft',by rw [parts]; rfl,picked,?_,?_,?_⟩
          · rwa [List.append_assoc] at drafted'
          · rw [List.append_assoc used [o] more] at large
            exact large
          · rwa [List.append_assoc] at ends

end Picking

/-- The sum, without the wrap of the machine's words -/
def trueSum (amounts : List UInt64) : Nat := (amounts.map UInt64.toNat).sum

/-- The amounts that are possible: there is not so much money, the fee is one that the app sets, and
    the scripts fit in memory. -/
structure Modest (w : BRWallet) (outputs : List BRTxOutput) : Prop where
  coins : trueSum (w.utxos.map (amountOf w)) < 2 ^ 60
  sent : trueSum (outputs.map BRTxOutput.amount) < 2 ^ 60
  feePerKb : w.feePerKb.toNat < 2 ^ 30
  scripts : (outputs.map outputSize).sum < 2 ^ 27

section Numbers
variable {w : BRWallet} {outputs : List BRTxOutput} {amount : UInt64}

theorem trueSum_append (xs ys : List UInt64) : trueSum (xs ++ ys) = trueSum xs + trueSum ys := by
  rw [trueSum, List.map_append, List.sum_append]
  rfl

theorem sum_toNat {amounts : List UInt64} (small : trueSum amounts < 2 ^ 64) :
    amounts.sum.toNat = trueSum amounts := by
  induction amounts with
  | nil => rfl
  | cons x amounts ih =>
    have split : trueSum (x :: amounts) = x.toNat + trueSum amounts := rfl
    rw [split] at small ⊢
    rw [List.sum_cons, UInt64.toNat_add, ih (by omega), Nat.mod_eq_of_lt small]

theorem txFee_toNat {feePerKb : UInt64} {size : Nat} (cheap : feePerKb.toNat < 2 ^ 30)
    (small : size < 2 ^ 29) : (txFee feePerKb size).toNat =
      max ((size + 999) / 1000 * 1000) ((size * feePerKb.toNat / 1000 + 99) / 100 * 100) := by
  have product : size * feePerKb.toNat < 2 ^ 59 :=
    (Nat.mul_lt_mul'' small cheap).trans_eq (by decide)
  have standard : (UInt64.ofNat ((size + 999) / 1000) * TX_FEE_PER_KB).toNat =
      (size + 999) / 1000 * 1000 := by
    rw [UInt64.toNat_mul,
      UInt64.toNat_ofNat_of_lt' (show (size + 999) / 1000 < 2 ^ 64 by omega)]
    change (size + 999) / 1000 * 1000 % 2 ^ 64 = _
    omega
  have scaled : (UInt64.ofNat size * feePerKb / 1000 + 99).toNat =
      size * feePerKb.toNat / 1000 + 99 := by
    rw [UInt64.toNat_add, UInt64.toNat_div, UInt64.toNat_mul,
      UInt64.toNat_ofNat_of_lt' (show size < 2 ^ 64 by omega),
      Nat.mod_eq_of_lt (show size * feePerKb.toNat < 2 ^ 64 by omega)]
    change (size * feePerKb.toNat / 1000 + 99) % 2 ^ 64 = _
    omega
  have fee : ((UInt64.ofNat size * feePerKb / 1000 + 99) / 100 * 100).toNat =
      (size * feePerKb.toNat / 1000 + 99) / 100 * 100 := by
    rw [UInt64.toNat_mul, UInt64.toNat_div, scaled]
    change (size * feePerKb.toNat / 1000 + 99) / 100 * 100 % 2 ^ 64 = _
    omega
  unfold txFee
  by_cases more : UInt64.ofNat ((size + 999) / 1000) * TX_FEE_PER_KB <
      (UInt64.ofNat size * feePerKb / 1000 + 99) / 100 * 100
  · refine (congrArg UInt64.toNat (if_pos more)).trans ?_
    rw [UInt64.lt_iff_toNat_lt, standard, fee] at more
    rw [fee, Nat.max_eq_right (Nat.le_of_lt more)]
  · refine (congrArg UInt64.toNat (if_neg more)).trans ?_
    rw [UInt64.lt_iff_toNat_lt, standard, fee] at more
    rw [standard, Nat.max_eq_left (Nat.not_lt.mp more)]

theorem txFee_lt {feePerKb : UInt64} {size : Nat} (cheap : feePerKb.toNat < 2 ^ 30)
    (small : size < 2 ^ 29) : (txFee feePerKb size).toNat < 2 ^ 59 := by
  have product : size * feePerKb.toNat < 2 ^ 59 :=
    (Nat.mul_lt_mul'' small cheap).trans_eq (by decide)
  rw [txFee_toNat cheap small]
  omega

theorem minOutput_toNat (cheap : w.feePerKb.toNat < 2 ^ 30) :
    546 ≤ (BRWalletMinOutputAmount w).toNat ∧ (BRWalletMinOutputAmount w).toNat < 2 ^ 40 := by
  have least : TX_MIN_OUTPUT_AMOUNT.toNat = 546 := by decide
  have kilobyte : MIN_FEE_PER_KB.toNat = 5236 := by decide
  have amount : ((TX_MIN_OUTPUT_AMOUNT * w.feePerKb + MIN_FEE_PER_KB - 1) /
      MIN_FEE_PER_KB).toNat = (546 * w.feePerKb.toNat + 5235) / 5236 := by
    rw [UInt64.toNat_div, UInt64.toNat_sub_of_le, UInt64.toNat_add, UInt64.toNat_mul, least,
      kilobyte]
    · change ((546 * w.feePerKb.toNat % 2 ^ 64 + 5236) % 2 ^ 64 - 1) / 5236 = _
      omega
    · rw [UInt64.le_iff_toNat_le, UInt64.toNat_add, UInt64.toNat_mul, least, kilobyte]
      change 1 ≤ (546 * w.feePerKb.toNat % 2 ^ 64 + 5236) % 2 ^ 64
      omega
  unfold BRWalletMinOutputAmount
  by_cases more : TX_MIN_OUTPUT_AMOUNT <
      (TX_MIN_OUTPUT_AMOUNT * w.feePerKb + MIN_FEE_PER_KB - 1) / MIN_FEE_PER_KB
  · dsimp only
    rw [if_pos more]
    rw [UInt64.lt_iff_toNat_lt, least] at more
    omega
  · dsimp only
    rw [if_neg more, least]
    decide

theorem varIntSize_le (i : Nat) : BRVarIntSize i ≤ 9 := by
  unfold BRVarIntSize BRVarIntSet
  split
  · simp
  split
  · simp [LittleEndian.toBytes_length]
  split
  · simp [LittleEndian.toBytes_length]
  · simp [LittleEndian.toBytes_length]

theorem Modest.size_lt (modest : Modest w outputs) :
    BRTransactionSize (spending w outputs []) + TX_OUTPUT_SIZE < 2 ^ 29 := by
  have scripts := modest.scripts
  have counts := varIntSize_le outputs.length
  have none_counted := varIntSize_le 0
  change 8 + BRVarIntSize 0 + BRVarIntSize outputs.length + 0 + (outputs.map outputSize).sum + 34 <
    2 ^ 29
  omega

/-- The fee without the rounding -/
def baseFee (w : BRWallet) (outputs : List BRTxOutput) (used : List BRUTXO) : Nat :=
  (txFee w.feePerKb (BRTransactionSize (spending w outputs used) + TX_OUTPUT_SIZE)).toNat

theorem feeFor_toNat {tx : BRTransaction} (small : (txFee w.feePerKb
      (BRTransactionSize tx + TX_OUTPUT_SIZE)).toNat < 2 ^ 59) :
    (txFee w.feePerKb (BRTransactionSize tx + TX_OUTPUT_SIZE)).toNat ≤
        (feeFor w amount tx).toNat ∧
      (feeFor w amount tx).toNat <
        (txFee w.feePerKb (BRTransactionSize tx + TX_OUTPUT_SIZE)).toNat + 100 := by
  unfold feeFor
  dsimp only
  split
  · rw [UInt64.toNat_add, UInt64.toNat_mod]
    have below : (w.balance - (amount + txFee w.feePerKb
        (BRTransactionSize tx + TX_OUTPUT_SIZE))).toNat % 100 < 100 := Nat.mod_lt _ (by decide)
    change _ ≤ (_ + _ % 100) % 2 ^ 64 ∧ (_ + _ % 100) % 2 ^ 64 < _
    omega
  · omega

/-- The fee of a draft is one for its size. -/
theorem Drafted.fee_bounds {used : List BRUTXO} {draft : Draft} (modest : Modest w outputs)
    (drafted : Drafted w amount outputs used draft) :
    baseFee w outputs used < 2 ^ 59 ∧ baseFee w outputs used ≤ draft.feeAmount.toNat ∧
      draft.feeAmount.toNat < baseFee w outputs used + 100 := by
  rw [drafted.feeAmount]
  by_cases first : used = []
  · rw [if_pos first, first]
    refine ⟨txFee_lt modest.feePerKb modest.size_lt,Nat.le_refl _,?_⟩
    unfold baseFee
    omega
  · have size := drafted.small first
    have limit : TX_MAX_SIZE < 2 ^ 29 := by decide
    have small := txFee_lt modest.feePerKb (Nat.lt_of_le_of_lt size limit)
    rw [if_neg first]
    exact ⟨small,feeFor_toNat small⟩

theorem total_toNat {used rest : List BRUTXO} (modest : Modest w outputs)
    (parts : w.utxos = used ++ rest) :
    (total w used).toNat = trueSum (used.map (amountOf w)) ∧ (total w used).toNat < 2 ^ 60 := by
  have coins := modest.coins
  rw [parts, List.map_append, trueSum_append] at coins
  have same : (total w used).toNat = trueSum (used.map (amountOf w)) := sum_toNat (by omega)
  exact ⟨same,by omega⟩

theorem sumOf_toNat (modest : Modest w outputs) :
    (sumOf outputs).toNat = trueSum (outputs.map BRTxOutput.amount) ∧
      (sumOf outputs).toNat < 2 ^ 60 := by
  have sent := modest.sent
  have same : (sumOf outputs).toNat = trueSum (outputs.map BRTxOutput.amount) :=
    sum_toNat (by omega)
  exact ⟨same,by omega⟩

end Numbers

/-- What of the outputs is sent: the first of them, the last of these perhaps with another amount -/
def Reduced (outputs sent : List BRTxOutput) : Prop :=
  ∃ kept last more amount, outputs = kept ++ last :: more ∧ sent = kept ++ [{ last with amount }]

/-- A transaction that the wallet may make: it spends unspent outputs in their order, what it spends
    pays for what it sends, the change and a fee for its size, and no more than that. -/
structure Made (w : BRWallet) (outputs : List BRTxOutput) (tx : BRTransaction)
    (used : List BRUTXO) (sent change : List BRTxOutput) : Prop where
  in_order : ∃ rest, w.utxos = used ++ rest
  inputs : tx.inputs = used.map (inputOf w)
  reduced : Reduced outputs sent
  shuffled : tx.outputs.Perm (sent ++ change)
  change : change = [] ∨ ∃ c, change = [c] ∧ BRWalletMinOutputAmount w ≤ c.amount
  pays : trueSum (tx.outputs.map BRTxOutput.amount) + baseFee w sent used ≤
    trueSum (used.map (amountOf w))
  no_more : trueSum (used.map (amountOf w)) < trueSum (tx.outputs.map BRTxOutput.amount) +
    baseFee w sent used + 100 + (BRWalletMinOutputAmount w).toNat

section Finishing
variable {address : BRTxOutput → Address} {derive : Bool → Nat → Option Address}
  {scriptFor : Address → List UInt8} {rand : Nat → Nat} {call : Call} {rank : UInt256 → Nat}
  {w after : BRWallet} {tx : BRTransaction} {outputs : List BRTxOutput} {used rest : List BRUTXO}
  {draft : Draft}

theorem trueSum_perm {xs ys : List BRTxOutput} (perm : xs.Perm ys) :
    trueSum (xs.map BRTxOutput.amount) = trueSum (ys.map BRTxOutput.amount) :=
  ((perm.map _).map _).sum_eq

theorem reduced_self (some_output : outputs ≠ []) : Reduced outputs outputs := by
  refine ⟨outputs.dropLast,outputs.getLast some_output,[],(outputs.getLast some_output).amount,
    ?_,?_⟩
  · exact (List.dropLast_append_getLast some_output).symm
  · exact (List.dropLast_append_getLast some_output).symm

/-- The end of a draft that is not too large -/
theorem finish_made (apart : Apart derive) (sound : Sound address derive rank w)
    (modest : Modest w outputs) (parts : w.utxos = used ++ rest)
    (drafted : Drafted w (sumOf outputs) outputs used draft)
    (finished : finish derive scriptFor rand call w outputs draft = some (after,some tx)) :
    Sound address derive rank after ∧ ∃ change, Made w outputs tx used outputs change := by
  obtain ⟨coins,few_coins⟩ := total_toNat modest parts
  obtain ⟨sent,few_sent⟩ := sumOf_toNat modest
  obtain ⟨small,least,most⟩ := drafted.fee_bounds modest
  obtain ⟨min_least,min_most⟩ := minOutput_toNat (w := w) modest.feePerKb
  have asked : (sumOf outputs + draft.feeAmount).toNat =
      trueSum (outputs.map BRTxOutput.amount) + draft.feeAmount.toNat := by
    rw [UInt64.toNat_add, sent]
    omega
  unfold finish at finished
  dsimp only at finished
  split at finished
  case isTrue => cases finished
  case isFalse enough =>
    obtain ⟨some_output,pays⟩ := not_or.mp enough
    have some_output : outputs ≠ [] := by
      rintro rfl
      exact some_output (by decide)
    rw [UInt64.lt_iff_toNat_lt, asked, drafted.balance, coins] at pays
    have left : (draft.balance - (sumOf outputs + draft.feeAmount)).toNat =
        trueSum (used.map (amountOf w)) -
          (trueSum (outputs.map BRTxOutput.amount) + draft.feeAmount.toNat) := by
      rw [UInt64.toNat_sub_of_le, drafted.balance, coins, asked]
      rw [UInt64.le_iff_toNat_le, drafted.balance, coins, asked]
      exact Nat.not_lt.mp pays
    split at finished
    case isTrue change =>
      obtain ⟨addrs,s,made,sound⟩ := unused_sound apart sound call 1 true
      rw [made] at finished
      cases finished
      rw [drafted.transaction]
      set c : BRTxOutput := ⟨draft.balance - (sumOf outputs + draft.feeAmount),
        scriptFor (addrs.headD [])⟩ with of_c
      have shuffled := shuffle_perm rand (outputs ++ [c])
      have whole : trueSum (((BRTransactionShuffleOutputs rand (outputs ++ [c])).map
          BRTxOutput.amount)) = trueSum (outputs.map BRTxOutput.amount) + c.amount.toNat := by
        rw [trueSum_perm shuffled, List.map_append, trueSum_append]
        rfl
      refine ⟨sound,[c],⟨rest,parts⟩,rfl,reduced_self some_output,shuffled,.inr ⟨c,rfl,change⟩,
        ?_,?_⟩
      · change trueSum ((BRTransactionShuffleOutputs rand (outputs ++ [c])).map _) + _ ≤ _
        rw [whole, left]
        omega
      · change _ < trueSum ((BRTransactionShuffleOutputs rand (outputs ++ [c])).map _) + _ + _ + _
        rw [whole, left]
        omega
    case isFalse no_change =>
      cases finished
      rw [UInt64.le_iff_toNat_le, left] at no_change
      refine ⟨sound,[],⟨rest,parts⟩,?_,reduced_self some_output,?_,.inl rfl,?_,?_⟩
      · rw [drafted.transaction]
        rfl
      · rw [drafted.transaction, List.append_nil]
        exact List.Perm.refl _
      · rw [drafted.transaction]
        change trueSum (outputs.map BRTxOutput.amount) + _ ≤ _
        omega
      · rw [drafted.transaction]
        change _ < trueSum (outputs.map BRTxOutput.amount) + _ + _ + _
        omega

theorem Reduced.changed {front sent : List BRTxOutput} {last : BRTxOutput} {amount : UInt64}
    (reduced : Reduced (front ++ [{ last with amount }]) sent) :
    Reduced (front ++ [last]) sent := by
  obtain ⟨kept,l,more,a,parts,rfl⟩ := reduced
  rcases List.eq_nil_or_concat' more with rfl | ⟨more,final,rfl⟩
  · obtain ⟨rfl,same⟩ := List.append_inj' parts rfl
    cases same
    exact ⟨front,last,[],a,rfl,rfl⟩
  · rw [← List.cons_append, ← List.append_assoc] at parts
    obtain ⟨rfl,-⟩ := List.append_inj' parts rfl
    exact ⟨kept,l,more ++ [last],a,by simp,rfl⟩

theorem Reduced.dropped {front sent : List BRTxOutput} {last : BRTxOutput}
    (reduced : Reduced front sent) : Reduced (front ++ [last]) sent := by
  obtain ⟨kept,l,more,a,rfl,rfl⟩ := reduced
  exact ⟨kept,l,more ++ [last],a,by simp,rfl⟩

theorem Modest.dropped {front : List BRTxOutput} {last : BRTxOutput}
    (modest : Modest w (front ++ [last])) : Modest w front where
  coins := modest.coins
  sent := by
    have sent := modest.sent
    rw [List.map_append, trueSum_append] at sent
    omega
  feePerKb := modest.feePerKb
  scripts := by
    have scripts := modest.scripts
    rw [List.map_append, List.sum_append] at scripts
    omega

/-- With the last output changed, all outputs and the fee together are what is put in. -/
theorem changed_toNat {front : List BRTxOutput} {last : BRTxOutput}
    (modest : Modest w (front ++ [last])) (parts : w.utxos = used ++ rest)
    (drafted : Drafted w (sumOf (front ++ [last])) (front ++ [last]) used draft)
    (goes_on : used ≠ [] →
      ¬ Stops (sumOf (front ++ [last])) (BRWalletMinOutputAmount w) draft)
    (reducible : sumOf (front ++ [last]) + draft.feeAmount + BRWalletMinOutputAmount w -
      draft.balance < last.amount) :
    trueSum (front.map BRTxOutput.amount) +
        (last.amount - (sumOf (front ++ [last]) + draft.feeAmount - draft.balance)).toNat +
      draft.feeAmount.toNat = draft.balance.toNat ∧
    (BRWalletMinOutputAmount w).toNat <
      (last.amount - (sumOf (front ++ [last]) + draft.feeAmount - draft.balance)).toNat := by
  obtain ⟨coins,few_coins⟩ := total_toNat modest parts
  obtain ⟨sent,few_sent⟩ := sumOf_toNat modest
  obtain ⟨small,least,most⟩ := drafted.fee_bounds modest
  obtain ⟨min_least,min_most⟩ := minOutput_toNat (w := w) modest.feePerKb
  rw [← drafted.balance] at coins few_coins
  have split : trueSum ((front ++ [last]).map BRTxOutput.amount) =
      trueSum (front.map BRTxOutput.amount) + last.amount.toNat := by
    rw [List.map_append, trueSum_append]
    rfl
  have asked : (sumOf (front ++ [last]) + draft.feeAmount).toNat =
      (sumOf (front ++ [last])).toNat + draft.feeAmount.toNat := by
    rw [UInt64.toNat_add]
    omega
  have with_min : (sumOf (front ++ [last]) + draft.feeAmount +
      BRWalletMinOutputAmount w).toNat = (sumOf (front ++ [last])).toNat +
        draft.feeAmount.toNat + (BRWalletMinOutputAmount w).toNat := by
    rw [UInt64.toNat_add, asked]
    omega
  -- the balance is short of what a change output would need
  have short : draft.balance.toNat < (sumOf (front ++ [last])).toNat + draft.feeAmount.toNat +
      (BRWalletMinOutputAmount w).toNat := by
    by_cases first : used = []
    · have nothing : draft.balance = 0 := by
        rw [drafted.balance, first]
        rfl
      rw [nothing]
      change 0 < _
      omega
    · have ends := (not_or.mp (goes_on first)).2
      rw [UInt64.le_iff_toNat_le, with_min] at ends
      omega
  rw [UInt64.lt_iff_toNat_lt, UInt64.toNat_sub_of_le _ _ (by
    rw [UInt64.le_iff_toNat_le, with_min]
    omega), with_min] at reducible
  rw [UInt64.toNat_sub, UInt64.toNat_sub, asked]
  omega

/-- Whatever is created spends what it takes on what it sends, the change and the fee. -/
theorem createWithin_made (apart : Apart derive) (sound : Sound address derive rank w)
    {depth : Nat} (modest : Modest w outputs)
    (created : createWithin derive scriptFor rand call depth w outputs =
      some (after,some tx)) :
    Sound address derive rank after ∧ ∃ used sent change, Made w outputs tx used sent change := by
  induction depth generalizing outputs with
  | zero => cases created
  | succ depth ih =>
    have found : ∀ o ∈ w.utxos, (w.outputOf o).isSome := by
      intro o there
      obtain ⟨t,-,-,output,here,-⟩ := owned_found sound there
      rw [here]
      rfl
    rw [createWithin] at created
    rcases pick_spec (BRWalletMinOutputAmount w) found
        (firstDraft_drafted w (sumOf outputs) outputs) (fun none => absurd rfl none) with
      ⟨used,rest,draft,parts,picked,drafted,-⟩ |
      ⟨used,o,rest,draft,parts,picked,drafted,-,goes_on⟩
    · rw [picked] at created
      obtain ⟨sound',change,made⟩ := finish_made apart sound modest parts drafted created
      exact ⟨sound',used,outputs,change,made⟩
    · rw [picked] at created
      dsimp only at created
      split at created
      case isTrue => cases created
      case isFalse =>
        rcases List.eq_nil_or_concat' outputs with rfl | ⟨front,last,rfl⟩
        · cases created
        · rw [List.getLast?_concat, List.dropLast_concat] at created
          simp only [Option.bind_eq_bind, Option.bind_some] at created
          split at created
          case isFalse =>
            obtain ⟨sound',used,sent,change,made⟩ := ih modest.dropped created
            exact ⟨sound',used,sent,change,{ made with reduced := made.reduced.dropped }⟩
          case isTrue reducible =>
            obtain ⟨whole,-⟩ := changed_toNat modest parts drafted goes_on reducible
            have modest' : Modest w (front ++ [{ last with
                amount := last.amount - (sumOf (front ++ [last]) + draft.feeAmount -
                  draft.balance) }]) :=
              { coins := modest.coins
                sent := by
                  have few := (total_toNat modest parts).2
                  have balance : (total w used).toNat = draft.balance.toNat :=
                    congrArg UInt64.toNat drafted.balance.symm
                  rw [List.map_append, trueSum_append]
                  change _ + ((last.amount - (sumOf (front ++ [last]) + draft.feeAmount -
                    draft.balance)).toNat + 0) < _
                  omega
                feePerKb := modest.feePerKb
                scripts := by
                  have scripts := modest.scripts
                  rw [List.map_append] at scripts ⊢
                  exact scripts }
            obtain ⟨sound',used,sent,change,made⟩ := ih modest' created
            exact ⟨sound',used,sent,change,{ made with reduced := made.reduced.changed }⟩

theorem varIntSize_mono {m n : Nat} (le : m ≤ n) (small : n < 2 ^ 64) :
    BRVarIntSize m ≤ BRVarIntSize n := by
  have size : ∀ k < 2 ^ 64, BRVarIntSize k =
      if k < 0xfd then 1 else if k ≤ 0xffff then 3 else if k ≤ 0xffffffff then 5 else 9 := by
    intro k below
    unfold BRVarIntSize BRVarIntSet
    rw [UInt64.toNat_ofNat_of_lt' below]
    split
    · rfl
    split
    · rw [List.length_cons, LittleEndian.toBytes_length]
    split
    · rw [List.length_cons, LittleEndian.toBytes_length]
    · rw [List.length_cons, LittleEndian.toBytes_length]
  rw [size m (by omega), size n small]
  split_ifs <;> omega

theorem size_spending (w : BRWallet) (outputs : List BRTxOutput) (used : List BRUTXO) :
    BRTransactionSize (spending w outputs used) =
      8 + BRVarIntSize used.length + BRVarIntSize outputs.length + used.length * TX_INPUT_SIZE +
        (outputs.map outputSize).sum := by
  have inputs : ((used.map (inputOf w)).map inputSize).sum = used.length * TX_INPUT_SIZE := by
    rw [List.map_map]
    change (used.map fun _ => TX_INPUT_SIZE).sum = _
    rw [List.map_const', List.sum_replicate_nat]
  rw [BRTransactionSize]
  change 8 + BRVarIntSize (used.map (inputOf w)).length + _ + _ + _ = _
  rw [List.length_map, ← inputs]
  rfl

/-- With fewer inputs a transaction is no larger. -/
theorem size_front (all : BRTransactionSize (spending w outputs (used ++ rest)) < 2 ^ 64) :
    BRTransactionSize (spending w outputs used) ≤
      BRTransactionSize (spending w outputs (used ++ rest)) := by
  rw [size_spending, List.length_append, Nat.add_mul] at all
  rw [size_spending, size_spending, List.length_append, Nat.add_mul]
  have shorter := @varIntSize_mono used.length (used.length + rest.length) (by omega) (by
    have many : used.length + rest.length ≤ used.length * TX_INPUT_SIZE +
        rest.length * TX_INPUT_SIZE := by
      rw [← Nat.add_mul]
      exact Nat.le_mul_of_pos_right _ (by decide)
    omega)
  omega

/-- A draft that is not too large has its end, and fails only for want of coins. -/
theorem finish_ends (apart : Apart derive) (sound : Sound address derive rank w)
    (modest : Modest w outputs) (parts : w.utxos = used ++ rest)
    (drafted : Drafted w (sumOf outputs) outputs used draft)
    (ends : rest = [] ∨ Stops (sumOf outputs) (BRWalletMinOutputAmount w) draft) :
    ∃ after result, finish derive scriptFor rand call w outputs draft = some (after,result) ∧
      (result = none → outputs = [] ∨ trueSum (w.utxos.map (amountOf w)) <
        trueSum (outputs.map BRTxOutput.amount) + baseFee w outputs w.utxos + 100) := by
  unfold finish
  dsimp only
  split
  case isFalse =>
    split
    case isTrue =>
      obtain ⟨addrs,s,made,-⟩ := unused_sound apart sound call 1 true
      rw [made]
      exact ⟨s,_,rfl,nofun⟩
    case isFalse => exact ⟨w,_,rfl,nofun⟩
  case isTrue fails =>
    refine ⟨w,none,rfl,fun _ => ?_⟩
    rcases fails with none_there | short
    · exact .inl (List.length_eq_zero_iff.mp (Nat.lt_one_iff.mp none_there))
    · obtain ⟨coins,few_coins⟩ := total_toNat modest parts
      obtain ⟨sent,few_sent⟩ := sumOf_toNat modest
      obtain ⟨small,least,most⟩ := drafted.fee_bounds modest
      obtain ⟨min_least,min_most⟩ := minOutput_toNat (w := w) modest.feePerKb
      have asked : (sumOf outputs + draft.feeAmount).toNat =
          trueSum (outputs.map BRTxOutput.amount) + draft.feeAmount.toNat := by
        rw [UInt64.toNat_add, sent]
        omega
      rw [UInt64.lt_iff_toNat_lt, asked, drafted.balance, coins] at short
      rcases ends with rfl | exact_pay | enough
      · rw [List.append_nil] at parts
        rw [parts]
        exact .inr (by omega)
      · have same := congrArg UInt64.toNat exact_pay
        rw [drafted.balance, coins, asked] at same
        omega
      · rw [UInt64.le_iff_toNat_le, UInt64.toNat_add, asked, drafted.balance, coins] at enough
        omega

/-- A transaction that the wallet creates spends its unspent outputs, each at most once, and they
    pay for what it sends, the change and the fee. Where all of them fit into one transaction, the
    call returns, and fails only if they do not pay. -/
theorem created_transaction_pays (apart : Apart derive) (sound : Sound address derive rank w)
    (modest : Modest w outputs) :
    (∀ depth after tx, createWithin derive scriptFor rand call depth w outputs =
        some (after,some tx) →
      Sound address derive rank after ∧ ∃ used sent change, Made w outputs tx used sent change ∧
        used.Nodup) ∧
    (BRTransactionSize (spending w outputs w.utxos) + TX_OUTPUT_SIZE ≤ TX_MAX_SIZE →
      ∃ after result, createWithin derive scriptFor rand call 1 w outputs = some (after,result) ∧
        (result = none → outputs = [] ∨ trueSum (w.utxos.map (amountOf w)) <
          trueSum (outputs.map BRTxOutput.amount) + baseFee w outputs w.utxos + 100)) := by
  constructor
  · intro depth after tx created
    obtain ⟨sound',used,sent,change,made⟩ := createWithin_made apart sound modest created
    obtain ⟨rest,parts⟩ := made.in_order
    have once := sound.apart
    rw [parts] at once
    exact ⟨sound',used,sent,change,made,(List.nodup_append.mp once).1⟩
  · intro fits
    have limit : TX_MAX_SIZE < 2 ^ 64 := by decide
    have found : ∀ o ∈ w.utxos, (w.outputOf o).isSome := by
      intro o there
      obtain ⟨t,-,-,output,here,-⟩ := owned_found sound there
      rw [here]
      rfl
    rw [createWithin]
    rcases pick_spec (BRWalletMinOutputAmount w) found
        (firstDraft_drafted w (sumOf outputs) outputs) (fun none => absurd rfl none) with
      ⟨used,rest,draft,parts,picked,drafted,ends⟩ |
      ⟨used,o,rest,draft,parts,picked,drafted,large,-⟩
    · rw [picked]
      exact finish_ends apart sound modest parts drafted ends
    · have whole : w.utxos = [] ++ used ++ [o] ++ rest := by
        rw [parts]
        simp
      rw [whole] at fits
      have smaller := @size_front w outputs ([] ++ used ++ [o]) rest (by omega)
      omega

end Finishing

/-- A payment that is larger, and a wallet that was paid so -/
def deposit : BRTransaction := { payment with outputs := [⟨500000,[1]⟩] }

def paidOnce : BRWallet :=
  { emptyWallet with
    allTx := [deposit]
    transactions := [deposit]
    externalChain := [['e']]
    allAddrs := [['e']] }

theorem paidOnce_kept : Kept firstAddress longer BitVec.toNat paidOnce where
  once := by decide
  listed := by decide
  distinct := by decide
  safe tx there := by
    cases List.mem_singleton.mp there
    exact ⟨by decide,by decide⟩
  chains := chains_congr listing_kept.chains rfl rfl rfl
  associated := by decide

theorem deposit_spent : ∃ w after tx,
    createWithin longer (fun _ => [1]) (fun _ => 0) aCall 1 w [⟨1000,[2]⟩] =
      some (after,some tx) := by
  obtain ⟨w,updated,sound,-⟩ := update_sound paidOnce_kept 1500000000
  have books : (BRWalletUpdateBalance firstAddress 1500000000 paidOnce).map (fun s =>
      (s.utxos.length,trueSum (s.utxos.map (amountOf s)),s.feePerKb)) =
        some (1,500000,50000) := by
    decide +kernel
  rw [updated] at books
  obtain ⟨one,books⟩ := Prod.mk.inj (Option.some.inj books)
  obtain ⟨coins,fee⟩ := Prod.mk.inj books
  have modest : Modest w [⟨1000,[2]⟩] :=
    { coins := by rw [coins]; decide
      sent := by decide
      feePerKb := by rw [fee]; decide
      scripts := by decide }
  have fits : BRTransactionSize (spending w [⟨1000,[2]⟩] w.utxos) + TX_OUTPUT_SIZE ≤
      TX_MAX_SIZE := by
    rw [size_spending, one]
    decide
  obtain ⟨after,result,created,fails⟩ := (@created_transaction_pays firstAddress longer
    (fun _ => [1]) (fun _ => 0) aCall BitVec.toNat w _ longer_apart sound modest).2 fits
  cases result with
  | some tx => exact ⟨w,after,tx,created⟩
  | none =>
    rcases fails rfl with none_sent | short
    · cases none_sent
    · rw [coins, baseFee, size_spending, one, fee] at short
      exact absurd short (by decide)

end BRWalletSpending
