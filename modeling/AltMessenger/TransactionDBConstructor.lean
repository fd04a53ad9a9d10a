import Mathlib.Data.List.Nodup
import AltMessenger.TransactionBuilder
import AltMessenger.WalletStore

/-!
Choosing the coins of a payment and paying back the change. The balance is
compared with the amount alone, the choice stops at amount and fee, and the
index of a coin is looked up by comparing objects of the database.
-/
namespace TransactionDBConstructor
open SwiftRuntime BitcoinHash BitcoinKeys BitcoinTransaction BitcoinScript TransactionBuilder
open WalletStore

/-- How `==` compares two objects of the database. The database makes a new
    object for each element read from a list, and compares objects of a type
    without a primary key, as outputs are, by identity. -/
inductive ObjectEquality where
  | identity
  | sameRow
  deriving DecidableEq, Repr

/-- `output == self` for an output just read from a list. -/
def ObjectEquality.equal (equality : ObjectEquality) (output self : OutputLink) : Bool :=
  match equality with
  | .identity => false
  | .sameRow => output == self

inductive OutputScriptType where
  | P2PKH | P2SH
  deriving DecidableEq, Repr

/-- The fields of a `TransactionDBConstructor`. -/
structure Constructor where
  privateKeyPrefix : UInt8
  publicKeyPrefix : UInt8
  sendAmount : Int64
  addressHash160 : RIPEMD160HASH
  type : OutputScriptType
  fee : Int64

/-- A turn of the two nested loops over the keys and their unspent outputs. -/
structure Coin where
  userkey : UserKeyInfo
  utxo : OutputLink
  value : Int64
  deriving DecidableEq

def coins (store : Store) : List Coin :=
  store.userKeys.flatMap fun userkey => userkey.UTXOs.filterMap fun utxo =>
    (linked store utxo).map fun output => { userkey, utxo, value := output.value }

/-- `utxo.inverse_tx` -/
def inverse_tx (store : Store) (utxo : OutputLink) : Option TransactionInfo :=
  store.transactions[utxo.tx]?

section Source

variable (equality : ObjectEquality) (c : Constructor) (store : Store)

/-- `utxo.getIndex()` -/
def getIndex (utxo : OutputLink) : Int :=
  match inverse_tx store utxo with
  | none => -1
  | some parent_tx =>
    match (List.range parent_tx.outputs.length).find?
      fun i => equality.equal { tx := utxo.tx, output := i } utxo with
    | some i => i
    | none => -1

/-- `RIPEMD160HASH(userkey.publicKeyHash.hexStringToNSData().reversedData)` -/
def userHash160 (userkey : UserKeyInfo) : Except Trap RIPEMD160HASH := do
  let data ← hexStringToNSData userkey.publicKeyHash
  HashOf.ofData 20 data.reverse

/-- The body of the loop, up to the input it appends. -/
def inputOf (coin : Coin) : Except Trap (Option Input) :=
  match inverse_tx store coin.utxo with
  | none => .ok none
  | some tx => do
    let data ← hexStringToNSData tx.txHash
    let txHash ← HashOf.ofData 32 data
    if getIndex equality store coin.utxo = -1 then pure none
    else do
      let hash160 ← userHash160 coin.userkey
      let inputScript : P2PKH_OutputScript := { hash160 }
      let index ← uint32 (getIndex equality store coin.utxo)
      let userKeyForSig ← CoinKey.ofHex coin.userkey.privateKey coin.userkey.uncompressedPublicKey
        c.privateKeyPrefix c.publicKeyPrefix
      pure (some {
        outPoint := { transactionHash := txHash, index }
        scriptSignature := inputScript.bitcoinData
        sequence := 0xffffffff
        userKey := some userKeyForSig })

/-- The loop itself, which ends at the first sum that pays amount and fee. -/
def selectInputs : Int64 → List Coin → Except Trap (Option (List Input × Int64))
  | sum, [] => .ok (some ([],sum))
  | sum, coin :: rest => do
    let input ← inputOf equality c store coin
    match input with
    | none => pure none
    | some input => do
      let sum ← addInt64 sum coin.value
      let need ← addInt64 c.sendAmount c.fee
      if need ≤ sum then pure (some ([input],sum))
      else do
        let selected ← selectInputs sum rest
        pure (selected.map fun (inputs,sum) => (input :: inputs,sum))

def inputOfTransactionMessage : Except Trap (Option (List Input × Int64)) := do
  let selected ← selectInputs equality c store 0 (coins store)
  match selected with
  | none => pure none
  | some (inputs,sum) =>
    if inputs.length = 0 then .error .assertion else pure (some (inputs,sum))

def payeeScript : List UInt8 :=
  match c.type with
  | .P2PKH => P2PKH_OutputScript.bitcoinData { hash160 := c.addressHash160 }
  | .P2SH => P2SH_OutputScript.bitcoinData { hash160 := c.addressHash160 }

def outputOfTransactionMessage (change : Int64) : Except Trap (List Output) := do
  let output : Output := { value := c.sendAmount, script := payeeScript c }
  if 0 < change then
    match store.userKeys.head? with
    | none => pure [output]
    | some userKey => do
      let hash160 ← userHash160 userKey
      let changeOutputScript : P2PKH_OutputScript := { hash160 }
      pure [output, { value := change, script := changeOutputScript.bitcoinData }]
  else pure [output]

/-- The balance is added up by the loop of `calculateBalance`. -/
def generateTransactionMessage : Except Trap (Option TransactionMessage) := do
  let balance ← calculateBalance store
  if balance < c.sendAmount then pure none
  else do
    let selected ← inputOfTransactionMessage equality c store
    match selected with
    | none => pure none
    | some (inputs,sum) => do
      let change ← subInt64 sum c.sendAmount
      let change ← subInt64 change c.fee
      let outputs ← outputOfTransactionMessage c store change
      pure (some { version := 0x01, inputs, outputs, lockTime := .AlwaysLocked, sigHash := 0x01 })

variable (D : Digests) (sign : Sign)

def transaction : Except Trap (Option Transaction) := do
  let txMessage ← generateTransactionMessage equality c store
  match txMessage with
  | none => pure none
  | some message => do
    let tx ← TransactionBuilder.transaction D sign message
    pure (some tx)

end Source

def values (cs : List Coin) : List Int := cs.map (·.value.toInt)

/-- The total of the unspent outputs. -/
def total (store : Store) : Int := (values (coins store)).sum

/-- All sums are below `2 ^ 63`. -/
structure SumsFit (c : Constructor) (store : Store) : Prop where
  each : ∀ key ∈ store.userKeys,
    RunningSumsFit 0 (((utxos store key).map (·.value)).map Int64.toInt)
  balance : RunningSumsFit 0 (store.userKeys.map fun key =>
    (((utxos store key).map (·.value)).map Int64.toInt).sum)
  selected : RunningSumsFit 0 (values (coins store))
  need : c.sendAmount.toInt + c.fee.toInt < 2 ^ 63

/-- A wallet whose stored texts are those the wallet itself has written. -/
structure Spendable (c : Constructor) (store : Store) : Prop where
  hashes : (store.transactions.map (·.txHash)).Nodup
  links : ((coins store).map (·.utxo)).Nodup
  txHash : ∀ info ∈ store.transactions, ∃ hash : SHA256Hash, info.txHash = toHexString hash.data
  indices : ∀ info ∈ store.transactions, info.outputs.length ≤ 2 ^ 32
  keyHash : ∀ key ∈ store.userKeys, ∃ hash : RIPEMD160HASH,
    key.publicKeyHash = toHexString hash.data
  key : ∀ key ∈ store.userKeys, ∃ coinKey, CoinKey.ofHex key.privateKey key.uncompressedPublicKey
    c.privateKeyPrefix c.publicKeyPrefix = .ok coinKey ∧ coinKey.Valid

/-- The outpoint of a coin, as the database writes outpoints. -/
def outPointOf (store : Store) (coin : Coin) : Option TransactionOutPointInfo :=
  (inverse_tx store coin.utxo).map fun tx => { txHash := tx.txHash, index := coin.utxo.output }

structure Conserves (c : Constructor) (store : Store) (tx : Transaction) : Prop where
  once : (tx.inputs.map (·.outPoint)).Nodup
  positive : ∀ output ∈ tx.outputs, 0 < output.value
  payee : ∃ change, tx.outputs = { value := c.sendAmount, script := payeeScript c } :: change ∧
    ∀ output ∈ change, ∃ key hash160, store.userKeys.head? = some key ∧
      userHash160 key = .ok hash160 ∧ output.script = P2PKH_OutputScript.bitcoinData { hash160 }
  exact_fee : ∃ spent, spent.Sublist (coins store) ∧
    spent.map (outPointOf store) =
      tx.inputs.map (fun input => some (TransactionOutPointInfo.create input.outPoint)) ∧
    (values spent).sum = (tx.outputs.map (·.value.toInt)).sum + c.fee.toInt

/-- Nothing is sent exactly when the coins do not cover amount and fee, and what
    is sent adds up. -/
def ConservesValue (equality : ObjectEquality) (c : Constructor) (store : Store) (D : Digests)
    (sign : Sign) : Prop :=
  ∃ result, transaction equality c store D sign = .ok result ∧
    (result = none ↔ total store < c.sendAmount.toInt + c.fee.toInt) ∧
      ∀ tx, result = some tx → Conserves c store tx

/-- Where the code does so: compared by identity, no coin is ever found; by
    row, only a total between amount and amount with fee goes wrong. -/
def ComesOut : ObjectEquality → Constructor → Store → Prop
  | .identity, c, store => total store < c.sendAmount.toInt + c.fee.toInt
  | .sameRow, c, store => total store < c.sendAmount.toInt ∨
      c.sendAmount.toInt + c.fee.toInt ≤ total store

theorem coin_found {store : Store} {coin : Coin} (mem : coin ∈ coins store) :
    coin.userkey ∈ store.userKeys ∧ ∃ info, inverse_tx store coin.utxo = some info ∧
      coin.utxo.output < info.outputs.length := by
  obtain ⟨userkey,there,mem⟩ := List.mem_flatMap.mp mem
  obtain ⟨utxo,_,made⟩ := List.mem_filterMap.mp mem
  obtain ⟨output,found,rfl⟩ := Option.map_eq_some_iff.mp made
  obtain ⟨info,here,slot⟩ := Option.bind_eq_some_iff.mp found
  exact ⟨there,info,here,(List.getElem?_eq_some_iff.mp slot).1⟩

/-- Key by key, the values of the coins are those the balances are made of. -/
theorem values_coins (store : Store) :
    values (coins store) = store.userKeys.flatMap fun key =>
      ((utxos store key).map (·.value)).map Int64.toInt := by
  rw [values, coins, List.map_flatMap]
  apply List.flatMap_congr
  intro key _
  rw [utxos, List.map_filterMap, List.map_filterMap, List.map_filterMap]
  apply List.filterMap_congr
  intro utxo _
  cases linked store utxo <;> rfl

theorem total_by_key (store : Store) :
    total store = (store.userKeys.map fun key =>
      (((utxos store key).map (·.value)).map Int64.toInt).sum).sum := by
  rw [total, values_coins]
  induction store.userKeys with
  | nil => rfl
  | cons key keys ih => rw [List.flatMap_cons, List.sum_append, ih, List.map_cons, List.sum_cons]

theorem balance_ready {c : Constructor} {store : Store} (fit : SumsFit c store) :
    ∃ balance, calculateBalance store = .ok balance ∧ balance.toInt = total store := by
  have range := runningSums_total fit.balance (by decide) (by decide)
  rw [Int.zero_add, ← total_by_key] at range
  have exact_sum := Int64.toInt_ofInt_of_le range.1 range.2
  refine ⟨Int64.ofInt (total store),?_,exact_sum⟩
  exact sum_of_sums.mpr ⟨⟨fit.each,fit.balance⟩,by rw [exact_sum, total_by_key]⟩

theorem getIndex_identity (store : Store) (utxo : OutputLink) :
    getIndex .identity store utxo = -1 := by
  unfold getIndex
  cases inverse_tx store utxo with
  | none => rfl
  | some tx =>
    have missing : (List.range tx.outputs.length).find? (fun i =>
        ObjectEquality.equal .identity { tx := utxo.tx, output := i } utxo) = none :=
      List.find?_eq_none.mpr (by simp [ObjectEquality.equal])
    dsimp only
    rw [missing]

theorem getIndex_sameRow {store : Store} {utxo : OutputLink} {info : TransactionInfo}
    (found : inverse_tx store utxo = some info) (bound : utxo.output < info.outputs.length) :
    getIndex .sameRow store utxo = utxo.output := by
  have here : (List.range info.outputs.length).find? (fun i =>
      ObjectEquality.equal .sameRow { tx := utxo.tx, output := i } utxo) = some utxo.output := by
    rw [List.find?_range_eq_some]
    refine ⟨by simp [ObjectEquality.equal],by simpa using bound,?_⟩
    intro j before
    cases utxo
    simp only [ObjectEquality.equal] at before ⊢
    simp
    omega
  unfold getIndex
  rw [found]
  dsimp only
  rw [here]

theorem userHash160_ready {c : Constructor} {store : Store} (ready : Spendable c store)
    {key : UserKeyInfo} (mem : key ∈ store.userKeys) :
    ∃ hash160, userHash160 key = .ok hash160 := by
  obtain ⟨hash,text⟩ := ready.keyHash key mem
  refine ⟨⟨hash.data.reverse,by rw [List.length_reverse, hash.length_eq]⟩,?_⟩
  unfold userHash160
  rw [text, bind_ready (hexStringToNSData_toHexString hash.data)]
  exact ofData_ok.mpr rfl

/-- The input a coin is spent by. -/
def Spends (store : Store) (coin : Coin) (input : Input) : Prop :=
  outPointOf store coin = some (.create input.outPoint) ∧
    ∃ key : CoinKey, input.userKey = some key ∧ key.Valid

theorem spends_named {store : Store} {spent : List Coin} {inputs : List Input}
    (spends : List.Forall₂ (Spends store) spent inputs) :
    spent.map (outPointOf store) =
      inputs.map fun input => some (TransactionOutPointInfo.create input.outPoint) := by
  induction spends with
  | nil => rfl
  | cons first _ ih => rw [List.map_cons, List.map_cons, first.1, ih]

theorem spends_keyed {store : Store} {spent : List Coin} {inputs : List Input}
    (spends : List.Forall₂ (Spends store) spent inputs) :
    ∀ input ∈ inputs, ∃ key : CoinKey, input.userKey = some key ∧ key.Valid := by
  induction spends with
  | nil => simp
  | cons first _ ih => exact List.forall_mem_cons.mpr ⟨first.2,ih⟩

section Ready

variable {c : Constructor} {store : Store} (ready : Spendable c store)
include ready

theorem inputOf_identity {coin : Coin} (mem : coin ∈ coins store) :
    inputOf .identity c store coin = .ok none := by
  obtain ⟨_,info,found,_⟩ := coin_found mem
  obtain ⟨hash,text⟩ := ready.txHash info (List.mem_of_getElem? found)
  unfold inputOf
  rw [found]
  dsimp only
  rw [text, bind_ready (hexStringToNSData_toHexString hash.data),
    bind_ready (ofData_ok.mpr rfl : HashOf.ofData 32 hash.data = .ok hash),
    getIndex_identity]
  rfl

theorem inputOf_sameRow {coin : Coin} (mem : coin ∈ coins store) :
    ∃ input, inputOf .sameRow c store coin = .ok (some input) ∧ Spends store coin input := by
  obtain ⟨owner,info,found,bound⟩ := coin_found mem
  have there := List.mem_of_getElem? found
  obtain ⟨hash,text⟩ := ready.txHash info there
  obtain ⟨hash160,scripted⟩ := userHash160_ready ready owner
  obtain ⟨key,read,valid⟩ := ready.key coin.userkey owner
  have fits := ready.indices info there
  let index := UInt32.ofNat coin.utxo.output
  have back : index.toNat = coin.utxo.output := by
    apply UInt32.toNat_ofNat_of_lt'
    show coin.utxo.output < 2 ^ 32
    omega
  have word : uint32 ((getIndex .sameRow store coin.utxo : Int) : Rat) = .ok index := by
    rw [getIndex_sameRow found bound, ← back]
    exact_mod_cast uint32_whole index
  have known : ¬ getIndex .sameRow store coin.utxo = -1 := by
    rw [getIndex_sameRow found bound]
    omega
  refine ⟨{ outPoint := { transactionHash := hash, index }
            scriptSignature := P2PKH_OutputScript.bitcoinData { hash160 }
            sequence := 0xffffffff
            userKey := some key },?_,?_,key,rfl,valid⟩
  · unfold inputOf
    rw [found]
    dsimp only
    rw [text, bind_ready (hexStringToNSData_toHexString hash.data),
      bind_ready (ofData_ok.mpr rfl : HashOf.ofData 32 hash.data = .ok hash),
      if_neg known, bind_ready scripted, bind_ready word, bind_ready read]
    rfl
  · rw [outPointOf, found, Option.map_some, text]
    unfold TransactionOutPointInfo.create
    rw [back]

theorem selectInputs_identity {coin : Coin} (mem : coin ∈ coins store) (sum : Int64)
    (rest : List Coin) : selectInputs .identity c store sum (coin :: rest) = .ok none := by
  rw [selectInputs, bind_ready (inputOf_identity ready mem)]
  rfl

omit ready in
theorem selectInputs_step {coin : Coin} {input : Input} {sum added need : Int64}
    (made : inputOf .sameRow c store coin = .ok (some input))
    (sums : addInt64 sum coin.value = .ok added)
    (needs : addInt64 c.sendAmount c.fee = .ok need) (rest : List Coin) :
    selectInputs .sameRow c store sum (coin :: rest) =
      if need ≤ added then .ok (some ([input],added))
      else selectInputs .sameRow c store added rest >>= fun selected =>
        .ok (selected.map fun (inputs,sum) => (input :: inputs,sum)) := by
  rw [selectInputs, bind_ready made]
  dsimp only
  rw [bind_ready sums, bind_ready needs]
  rfl

/-- The loop takes coins from the front until they pay amount and fee. -/
theorem selectInputs_spends (need : c.sendAmount.toInt + c.fee.toInt < 2 ^ 63)
    (low : -2 ^ 63 ≤ c.sendAmount.toInt + c.fee.toInt) {cs : List Coin}
    (inside : ∀ coin ∈ cs, coin ∈ coins store) (sum : Int64)
    (fit : RunningSumsFit sum.toInt (values cs)) :
    ∃ spent rest inputs out, cs = spent ++ rest ∧
      selectInputs .sameRow c store sum cs = .ok (some (inputs,out)) ∧
      List.Forall₂ (Spends store) spent inputs ∧ (cs ≠ [] → spent ≠ []) ∧
      out.toInt = sum.toInt + (values spent).sum ∧
      (rest = [] ∨ c.sendAmount.toInt + c.fee.toInt ≤ out.toInt) := by
  induction cs generalizing sum with
  | nil => exact ⟨[],[],[],sum,rfl,rfl,List.Forall₂.nil,id,by simp [values],Or.inl rfl⟩
  | cons coin cs ih =>
    obtain ⟨input,made,spends⟩ := inputOf_sameRow ready (inside coin (by simp))
    have parts : RunningSumsFit sum.toInt (coin.value.toInt :: values cs) := fit
    obtain ⟨⟨lower,upper⟩,later⟩ := parts
    have added := addInt64_fits lower upper
    have exact_sum := addInt64_ok.mp added
    have needed := addInt64_fits low need
    have exact_need := addInt64_ok.mp needed
    have step := selectInputs_step made added needed cs
    by_cases enough : Int64.ofInt (c.sendAmount.toInt + c.fee.toInt) ≤
        Int64.ofInt (sum.toInt + coin.value.toInt)
    · refine ⟨[coin],cs,[input],_,rfl,step.trans (if_pos enough),
        List.Forall₂.cons spends List.Forall₂.nil,by simp,?_,Or.inr ?_⟩
      · rw [exact_sum]
        simp [values]
      · rw [← exact_need]
        exact Int64.le_iff_toInt_le.mp enough
    · rw [← exact_sum] at later
      obtain ⟨spent,rest,inputs,out,split,run,each,_,sums,paid⟩ :=
        ih (fun other mem => inside other (List.mem_cons_of_mem coin mem)) _ later
      refine ⟨coin :: spent,rest,input :: inputs,out,by rw [split]; rfl,step.trans ?_,
        List.Forall₂.cons spends each,by simp,?_,paid⟩
      · rw [if_neg enough, bind_ready run]
        exact congrArg Except.ok rfl
      · rw [sums, exact_sum]
        simp [values, Int.add_assoc]

theorem outPoints_apart {cs : List Coin} (part : cs.Sublist (coins store)) :
    (cs.map (outPointOf store)).Nodup := by
  have links : (cs.map (·.utxo)).Nodup := ready.links.sublist (part.map _)
  apply List.Nodup.map_on _ links.of_map
  intro a ha b hb same
  obtain ⟨_,left,found,_⟩ := coin_found (part.subset ha)
  obtain ⟨_,right,found',_⟩ := coin_found (part.subset hb)
  rw [outPointOf, outPointOf, found, found'] at same
  simp only [Option.map_some, Option.some.injEq, TransactionOutPointInfo.mk.injEq] at same
  have tx := same_place ready.hashes found found' same.1
  have utxo : a.utxo = b.utxo := by
    cases ha' : a.utxo
    cases hb' : b.utxo
    simp_all
  exact List.inj_on_of_nodup_map links ha hb utxo

/-- Outputs: the payment, and the change if there is any. -/
theorem outputs_ready (owner : store.userKeys ≠ []) (change : Int64) :
    ∃ back, outputOfTransactionMessage c store change =
        .ok ({ value := c.sendAmount, script := payeeScript c } :: back) ∧
      (∀ output ∈ back, 0 < output.value ∧ ∃ key hash160, store.userKeys.head? = some key ∧
        userHash160 key = .ok hash160 ∧
          output.script = P2PKH_OutputScript.bitcoinData { hash160 }) ∧
      (back.map (·.value.toInt)).sum = max 0 change.toInt := by
  unfold outputOfTransactionMessage
  by_cases some_change : 0 < change
  · have positive : 0 < change.toInt := Int64.lt_iff_toInt_lt.mp some_change
    obtain ⟨key,keys,same⟩ := List.exists_cons_of_ne_nil owner
    have first : store.userKeys.head? = some key := by rw [same]; rfl
    have mem : key ∈ store.userKeys := List.mem_of_head? first
    obtain ⟨hash160,scripted⟩ := userHash160_ready ready mem
    refine ⟨[{ value := change, script := P2PKH_OutputScript.bitcoinData { hash160 } }],?_,?_,?_⟩
    · dsimp only
      rw [if_pos some_change, first]
      dsimp only
      rw [bind_ready scripted]
      rfl
    · intro output mem
      rw [List.mem_singleton.mp mem]
      exact ⟨some_change,key,hash160,first,scripted,rfl⟩
    · simp only [List.map_cons, List.map_nil, List.sum_cons, List.sum_nil]
      omega
  · have spent : ¬ 0 < change.toInt :=
      fun positive => some_change (Int64.lt_iff_toInt_lt.mpr positive)
    refine ⟨[],if_neg some_change,by simp,?_⟩
    simp only [List.map_nil, List.sum_nil]
    omega

end Ready

/-- What the message of a payment is made of. -/
structure Chosen (c : Constructor) (store : Store) (message : TransactionMessage)
    (spent : List Coin) : Prop where
  part : spent.Sublist (coins store)
  inputs : List.Forall₂ (Spends store) spent message.inputs
  enough : spent = coins store ∨ c.sendAmount.toInt + c.fee.toInt ≤ (values spent).sum
  outputs : ∃ back, message.outputs = { value := c.sendAmount, script := payeeScript c } :: back ∧
    (∀ output ∈ back, 0 < output.value ∧ ∃ key hash160, store.userKeys.head? = some key ∧
      userHash160 key = .ok hash160 ∧
        output.script = P2PKH_OutputScript.bitcoinData { hash160 }) ∧
    (back.map (·.value.toInt)).sum =
      max 0 ((values spent).sum - c.sendAmount.toInt - c.fee.toInt)

section Payment

variable {c : Constructor} {store : Store} (positive : 0 < c.sendAmount.toInt)
  (nonneg : 0 ≤ c.fee.toInt) (fit : SumsFit c store) (ready : Spendable c store)

include fit in
theorem generate_poor (equality : ObjectEquality) (poor : total store < c.sendAmount.toInt) :
    generateTransactionMessage equality c store = .ok none := by
  obtain ⟨balance,run,exact_sum⟩ := balance_ready fit
  have less : balance < c.sendAmount := Int64.lt_iff_toInt_lt.mpr (by rw [exact_sum]; exact poor)
  unfold generateTransactionMessage
  rw [bind_ready run]
  exact if_pos less

include positive in
theorem some_coin (rich : c.sendAmount.toInt ≤ total store) :
    ∃ coin rest, coins store = coin :: rest := by
  apply List.exists_cons_of_ne_nil
  intro none
  rw [total, none] at rich
  simp [values] at rich
  omega

omit positive nonneg fit ready in
theorem change_ready {sum amount : Int64} (fee : Int64) (positive : 0 < amount.toInt)
    (nonneg : 0 ≤ fee.toInt) (covers : amount.toInt ≤ sum.toInt) :
    ∃ left change, subInt64 sum amount = .ok left ∧ subInt64 left fee = .ok change ∧
      change.toInt = sum.toInt - amount.toInt - fee.toInt := by
  have sum_high := sum.toInt_lt
  have fee_high := fee.toInt_lt
  have left : (Int64.ofInt (sum.toInt - amount.toInt)).toInt = sum.toInt - amount.toInt :=
    Int64.toInt_ofInt_of_le (by omega) (by omega)
  have change : (Int64.ofInt (sum.toInt - amount.toInt - fee.toInt)).toInt =
      sum.toInt - amount.toInt - fee.toInt := Int64.toInt_ofInt_of_le (by omega) (by omega)
  exact ⟨_,_,subInt64_ok.mpr left,subInt64_ok.mpr (change.trans (by rw [left])),change⟩

include positive fit ready in
theorem generate_identity (rich : c.sendAmount.toInt ≤ total store) :
    generateTransactionMessage .identity c store = .ok none := by
  obtain ⟨balance,run,exact_sum⟩ := balance_ready fit
  obtain ⟨coin,rest,first⟩ := some_coin positive rich
  have enough : ¬ balance < c.sendAmount := by
    intro less
    have := Int64.lt_iff_toInt_lt.mp less
    omega
  have chosen : inputOfTransactionMessage .identity c store = .ok none := by
    unfold inputOfTransactionMessage
    rw [first, bind_ready (selectInputs_identity ready (by rw [first]; simp) 0 rest)]
    rfl
  unfold generateTransactionMessage
  rw [bind_ready run, if_neg enough, bind_ready chosen]
  rfl

include positive nonneg fit ready in
theorem generate_sameRow (rich : c.sendAmount.toInt ≤ total store) :
    ∃ message spent, generateTransactionMessage .sameRow c store = .ok (some message) ∧
      Chosen c store message spent := by
  obtain ⟨balance,run,exact_sum⟩ := balance_ready fit
  obtain ⟨coin,others,first⟩ := some_coin positive rich
  have enough : ¬ balance < c.sendAmount := by
    intro less
    have := Int64.lt_iff_toInt_lt.mp less
    omega
  obtain ⟨spent,rest,inputs,out,split,select,each,taken,sums,paid⟩ :=
    selectInputs_spends ready fit.need (by omega) (fun _ mem => mem) 0 fit.selected
  have nonempty : inputs.length ≠ 0 := by
    rw [← each.length_eq]
    intro zero
    exact taken (by rw [first]; simp) (List.length_eq_zero_iff.mp zero)
  have chosen : inputOfTransactionMessage .sameRow c store = .ok (some (inputs,out)) := by
    unfold inputOfTransactionMessage
    rw [bind_ready select]
    exact if_neg nonempty
  rw [show (0 : Int64).toInt = 0 from rfl, Int.zero_add] at sums
  have all : rest = [] → spent = coins store := by
    intro nothing
    rw [split, nothing, List.append_nil]
  have covers : c.sendAmount.toInt ≤ out.toInt := by
    rcases paid with nothing | paid
    · rw [sums, all nothing]
      exact rich
    · omega
  obtain ⟨left,change,first_sub,second_sub,after_fee⟩ :=
    change_ready c.fee positive nonneg covers
  have owner : store.userKeys ≠ [] :=
    List.ne_nil_of_mem (coin_found (show coin ∈ coins store by rw [first]; simp)).1
  obtain ⟨back,outputs,changed,sum_back⟩ := outputs_ready ready owner change
  rw [after_fee, sums] at sum_back
  refine ⟨{ version := 0x01, inputs
            outputs := { value := c.sendAmount, script := payeeScript c } :: back
            lockTime := .AlwaysLocked, sigHash := 0x01 },spent,?_,?_⟩
  · unfold generateTransactionMessage
    rw [bind_ready run, if_neg enough, bind_ready chosen]
    dsimp only
    rw [bind_ready first_sub, bind_ready second_sub, bind_ready outputs]
    rfl
  · exact {
      part := by rw [split]; exact List.sublist_append_left spent rest
      inputs := each
      enough := paid.imp all (by rw [sums]; exact id)
      outputs := ⟨back,rfl,changed,sum_back⟩ }

end Payment

/-- A message built of such coins is sent as a transaction that adds up. -/
theorem conserves_of_chosen {c : Constructor} {store : Store} (positive : 0 < c.sendAmount.toInt)
    (ready : Spendable c store) (covered : c.sendAmount.toInt + c.fee.toInt ≤ total store)
    {message : TransactionMessage} {spent : List Coin} (chosen : Chosen c store message spent)
    {tx : Transaction} (inputs : List.Forall₂ SameSpend message.inputs tx.inputs)
    (outputs : tx.outputs = message.outputs) : Conserves c store tx := by
  have named : spent.map (outPointOf store) =
      tx.inputs.map (fun input => some (TransactionOutPointInfo.create input.outPoint)) := by
    have same := (same_spends inputs).1
    have through : ∀ ins : List Input,
        ins.map (fun input => some (TransactionOutPointInfo.create input.outPoint)) =
          (ins.map (·.outPoint)).map fun o => some (TransactionOutPointInfo.create o) := by
      intro ins
      rw [List.map_map]
      rfl
    rw [spends_named chosen.inputs, through, through, same]
  obtain ⟨back,made,changed,sum_back⟩ := chosen.outputs
  have sums : c.sendAmount.toInt + c.fee.toInt ≤ (values spent).sum := by
    rcases chosen.enough with all | enough
    · rw [all]
      exact covered
    · exact enough
  rw [made] at outputs
  constructor
  case once =>
    have apart := outPoints_apart ready chosen.part
    rw [named] at apart
    have apart' : ((tx.inputs.map (·.outPoint)).map fun o =>
        some (TransactionOutPointInfo.create o)).Nodup := by
      rw [List.map_map]
      exact apart
    exact apart'.of_map
  case positive =>
    intro output mem
    rw [outputs] at mem
    rcases List.mem_cons.mp mem with rfl | mem
    · exact Int64.lt_iff_toInt_lt.mpr positive
    · exact (changed output mem).1
  case payee => exact ⟨back,outputs,fun output mem => (changed output mem).2⟩
  case exact_fee =>
    refine ⟨spent,chosen.part,named,?_⟩
    rw [outputs, List.map_cons, List.sum_cons, sum_back]
    dsimp only
    omega

/-- Value is conserved exactly where the coins come out: none at all while
    objects are compared by identity, and with a comparison by row everywhere
    but between amount and amount with fee, which the balance check misses. -/
theorem conserves_value_iff (equality : ObjectEquality) (c : Constructor) (store : Store)
    (D : Digests) (sign : Sign) (positive : 0 < c.sendAmount.toInt) (nonneg : 0 ≤ c.fee.toInt)
    (fit : SumsFit c store) (ready : Spendable c store) (signs : SignsBelowOrder sign)
    (hashes : ∀ message, generateTransactionMessage equality c store = .ok (some message) →
      ∀ input ∈ message.inputs, ∃ hash, transactionMessageHash D message input = .ok hash ∧
        bigUInt hash.data < order) :
    ConservesValue equality c store D sign ↔ ComesOut equality c store := by
  have nothing : generateTransactionMessage equality c store = .ok none →
      (ConservesValue equality c store D sign ↔
        total store < c.sendAmount.toInt + c.fee.toInt) := by
    intro made
    have run : transaction equality c store D sign = .ok none := by
      unfold transaction
      rw [bind_ready made]
      rfl
    constructor
    · rintro ⟨result,ran,poor,_⟩
      rw [run] at ran
      cases ran
      exact poor.mp rfl
    · intro poor
      exact ⟨none,run,by simpa using poor,by simp⟩
  by_cases poor : total store < c.sendAmount.toInt
  · rw [nothing (generate_poor fit equality poor)]
    cases equality with
    | identity => rfl
    | sameRow =>
      unfold ComesOut
      constructor <;> intro _
      · exact Or.inl poor
      · omega
  · have rich : c.sendAmount.toInt ≤ total store := by omega
    cases equality with
    | identity => exact nothing (generate_identity positive fit ready rich)
    | sameRow =>
      obtain ⟨message,spent,made,chosen⟩ := generate_sameRow positive nonneg fit ready rich
      obtain ⟨back,outputs,_⟩ := chosen.outputs
      obtain ⟨tx,built⟩ := transaction_ready signs {
        hasOutput := by rw [outputs]; exact Nat.succ_pos _
        keys := spends_keyed chosen.inputs
        hashes := hashes message made }
      have run : transaction .sameRow c store D sign = .ok (some tx) := by
        unfold transaction
        rw [bind_ready made]
        dsimp only
        rw [bind_ready built]
        rfl
      obtain ⟨spends,_,kept,_⟩ := transaction_ran built
      unfold ComesOut
      constructor
      · rintro ⟨result,ran,never,_⟩
        rw [run] at ran
        cases ran
        right
        have : ¬ total store < c.sendAmount.toInt + c.fee.toInt := fun poor =>
          nomatch never.mpr poor
        omega
      · intro covered
        have covered : c.sendAmount.toInt + c.fee.toInt ≤ total store := by omega
        refine ⟨some tx,run,by simpa using covered,?_⟩
        intro tx' same
        cases same
        exact conserves_of_chosen positive ready covered chosen spends kept

/-- A wallet with the base key and one coin of 5000, and payments from it. -/
def walletKey : UserKeyInfo where
  privateKey := toHexString [0x01]
  uncompressedPublicKey := toHexString (0x04 ::
    (serialize 0x79be667ef9dcbbac55a06295ce870b07029bfcdb2dce28d959f2815b16f81798 ++
      serialize 0x483ada7726a3c4655da4fbfc0e1108a8fd17b448a68554199c47d08ffb10d4b8))
  publicKeyHash := toHexString (serialize 0x751e76e8199196d454941c45d1b3a323f1433bd6)
  UTXOs := [{ tx := 0, output := 0 }]

def coinHash : SHA256Hash :=
  ⟨serialize 0x6cd7023f173f332550d386d794dca76ed8285dd0c0131c67391637b151e023ad,by decide⟩

def wallet : Store where
  transactions := [{
    inputs := []
    outputs := [{
      pubKeyHash := walletKey.publicKeyHash, type := ['P','2','P','K','H'], value := 5000,
      isSpent := false }]
    txHash := toHexString coinHash.data }]
  userKeys := [walletKey]

def payment (amount fee : Int64) : Constructor where
  privateKeyPrefix := 0x80
  publicKeyPrefix := 0x00
  sendAmount := amount
  addressHash160 := ⟨serialize 0xcc7ea34412241fa12a12ac94ef22fdcd6bd4af06,by decide⟩
  type := .P2PKH
  fee := fee

def paymentMessage : TransactionMessage where
  version := 1
  inputs := [{
    outPoint := { transactionHash := coinHash, index := 0 }
    scriptSignature := baseScript, sequence := 0xffffffff, userKey := some baseKey }]
  outputs := [{ value := 1000, script := payeeScript (payment 1000 100) },
    { value := 3900, script := baseScript }]
  lockTime := .AlwaysLocked
  sigHash := 1

def paymentDigests : Digests :=
  Digests.known
    [(encodeParts 1 paymentMessage.inputs paymentMessage.outputs 0 ++
        BitcoinStream.appendUInt32 0x01 .LittleEndian,
        serialize 0x38a949bd1e40745a8843d7ee3544b7c9c6f52cee30f6588486b9ee5e01aa4bb0),
      (serialize 0x38a949bd1e40745a8843d7ee3544b7c9c6f52cee30f6588486b9ee5e01aa4bb0,
        serialize 0xf1ced8ab98132c9caab5bd3b74fc380217e40e8116c21ca7fe266bef40a6fca1)] []

/-- The signature of that one message, for one draw of the nonce. -/
def paymentSign : Sign := fun _ _ _ =>
  .ok (0x87dbc9d834194fae33a7196a92d15d8e5334baec3b48901019af76fd1ff30d90,
    0x0e168414749d82b63f6d76e3e9a77a46a38b5ea8ab38c75b8b6078fd34e694bf)

def paymentHash : SHA256Hash :=
  ⟨serialize 0xf1ced8ab98132c9caab5bd3b74fc380217e40e8116c21ca7fe266bef40a6fca1,by decide⟩

theorem paymentSign_signs : SignsBelowOrder paymentSign :=
  fun _ _ _ _ _ => ⟨_,_,rfl,by decide,by decide,by decide,by decide⟩

theorem wallet_fits (amount fee : Int64) (need : amount.toInt + fee.toInt < 2 ^ 63) :
    SumsFit (payment amount fee) wallet :=
  ⟨by decide,by decide,by decide,need⟩

set_option maxRecDepth 4000 in
theorem walletKey_read :
    CoinKey.ofHex walletKey.privateKey walletKey.uncompressedPublicKey 0x80 0x00 = .ok baseKey := by
  decide

theorem wallet_spendable (amount fee : Int64) : Spendable (payment amount fee) wallet where
  hashes := by decide
  links := by decide
  txHash := by
    intro info mem
    rw [List.mem_singleton.mp mem]
    exact ⟨coinHash,rfl⟩
  indices := by decide
  keyHash := by
    intro key mem
    rw [List.mem_singleton.mp mem]
    exact ⟨⟨_,by decide⟩,rfl⟩
  key := by
    intro key mem
    rw [List.mem_singleton.mp mem]
    exact ⟨baseKey,walletKey_read,baseKey_valid⟩

set_option maxRecDepth 4000 in
theorem payment_generated :
    generateTransactionMessage .sameRow (payment 1000 100) wallet = .ok (some paymentMessage) := by
  decide

set_option maxRecDepth 4000 in
theorem payment_hashed :
    transactionMessageHash paymentDigests paymentMessage paymentMessage.inputs[0] =
      .ok paymentHash := by
  decide

theorem payment_conserves_value :
    ConservesValue .sameRow (payment 1000 100) wallet paymentDigests paymentSign := by
  apply (conserves_value_iff .sameRow (payment 1000 100) wallet paymentDigests paymentSign
    (by decide) (by decide) (wallet_fits _ _ (by decide)) (wallet_spendable _ _)
    paymentSign_signs ?_).mpr
  · exact Or.inr (by decide)
  · intro message made input mem
    rw [payment_generated] at made
    cases made
    rw [List.mem_singleton.mp mem]
    exact ⟨paymentHash,payment_hashed,by decide⟩

set_option maxRecDepth 4000 in
/-- Compared by identity the coin of 5000 does not pay 1000; by row it pays
    4950 without the fee of 100. -/
theorem payment_not_conserved :
    (SumsFit (payment 1000 100) wallet ∧ Spendable (payment 1000 100) wallet ∧
        transaction .identity (payment 1000 100) wallet paymentDigests paymentSign = .ok none ∧
        ¬ ConservesValue .identity (payment 1000 100) wallet paymentDigests paymentSign) ∧
      SumsFit (payment 4950 100) wallet ∧ Spendable (payment 4950 100) wallet ∧
        ¬ ConservesValue .sameRow (payment 4950 100) wallet paymentDigests paymentSign := by
  have refused : transaction .identity (payment 1000 100) wallet paymentDigests paymentSign =
      .ok none := by decide
  refine ⟨⟨wallet_fits _ _ (by decide),wallet_spendable _ _,refused,?_⟩,
    wallet_fits _ _ (by decide),wallet_spendable _ _,?_⟩
  · rintro ⟨result,run,poor,_⟩
    rw [refused] at run
    cases run
    exact absurd (poor.mp rfl) (by decide)
  · rintro ⟨result,run,poor,_⟩
    obtain ⟨made,generated,run⟩ := bind_ran.mp run
    have poor := poor.mpr (by decide)
    subst poor
    cases made with
    | none =>
      have some_message : (generateTransactionMessage .sameRow (payment 4950 100) wallet).map
          Option.isSome = .ok true := by decide
      rw [generated] at some_message
      cases some_message
    | some message =>
      obtain ⟨tx,_,run⟩ := bind_ran.mp run
      cases run

end TransactionDBConstructor
