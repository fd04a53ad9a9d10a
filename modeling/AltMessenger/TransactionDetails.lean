import AltMessenger.WalletHistory
import AltMessenger.OrderIndependence
import AltMessenger.TransactionFee
import AltMessenger.PublicAddress

/-!
What the history shows of a stored transaction. Inputs and outputs are looked at
once for each key, so that with several keys an output is met several times.
-/
namespace TransactionDetails
open SwiftRuntime BitcoinHash BitcoinTransaction BitcoinScript WalletStore WalletOrder
open WalletHistory OrderIndependence TransactionFee PublicAddress

structure TransactionDetail where
  isSpentTransaction : Bool
  fromAddresses : List (List Char)
  toAddresses : List (List Char)
  amount : Int64
  fee : Int64
  txId : List Char
  timestamp : Option Rat
  confirmation : Int

def extractRelevantInputsAndOutputs (userKeys : List UserKeyInfo) (tx : TransactionInfo) :
    List TransactionInputInfo × List TransactionOutputInfo :=
  (userKeys.flatMap fun key => tx.inputs.filter fun input => key.publicKeyHash = input.hash160,
    userKeys.flatMap fun key => tx.outputs.filter fun output =>
      key.publicKeyHash = output.pubKeyHash)

def extractOutputs (userKeys : List UserKeyInfo) (tx : TransactionInfo) (isSpentTx : Bool) :
    List TransactionOutputInfo :=
  let myOutputs := userKeys.flatMap fun key => tx.outputs.filter fun output =>
    key.publicKeyHash = output.pubKeyHash
  let othersOutputs := userKeys.flatMap fun key => tx.outputs.filter fun output =>
    key.publicKeyHash ≠ output.pubKeyHash
  if isSpentTx then othersOutputs else myOutputs

/-- What the inputs spend; one whose transaction is not stored is passed over. -/
def relevantValue (transactions : List TransactionInfo) :
    Int64 → List TransactionInputInfo → Except Trap Int64
  | inputValue, [] => .ok inputValue
  | inputValue, input :: inputs =>
    match fetch transactions input.outPoint.txHash with
    | none => relevantValue transactions inputValue inputs
    | some place => do
      let outpointTx ← subscript transactions place
      let spentOutput ← subscript outpointTx.outputs input.outPoint.index
      let inputValue ← addInt64 inputValue spentOutput.value
      relevantValue transactions inputValue inputs

/-- `-a` on `Int64`. -/
def negInt64 (a : Int64) : Except Trap Int64 := int64 (-a.toInt) .overflow

/-- `isSpentTransaction` and `amount`, in three branches. -/
def effect (transactions : List TransactionInfo) (relevantInputs : List TransactionInputInfo)
    (relevantOutputs : List TransactionOutputInfo) : Except Trap (Bool × Int64) :=
  if relevantInputs.length ≠ 0 ∧ relevantOutputs.length = 0 then do
    let inputValue ← relevantValue transactions 0 relevantInputs
    pure (true,inputValue)
  else if relevantInputs.length = 0 ∧ relevantOutputs.length ≠ 0 then do
    let outputValue ← sumFrom 0 (relevantOutputs.map (·.value))
    pure (false,outputValue)
  else do
    let inputValue ← relevantValue transactions 0 relevantInputs
    let outputValue ← sumFrom 0 (relevantOutputs.map (·.value))
    let diff ← subInt64 inputValue outputValue
    if 0 < diff then pure (true,diff)
    else do
      let amount ← negInt64 diff
      pure (false,amount)

def address (D : Digests) (pubKeyPrefix scriptHashPrefix : UInt8) (type hash160 : List Char) :
    Except Trap (List Char) :=
  if type = ['P','2','P','K','H'] then publicKeyHashToPublicAddress D hash160 pubKeyPrefix
  else if type = ['P','2','S','H'] then publicKeyHashToPublicAddress D hash160 scriptHashPrefix
  else .ok []

def calculatedFee (transactions : List TransactionInfo) (tx : TransactionInfo)
    (isSpentTransaction : Bool) : Except Trap Int64 :=
  if isSpentTransaction then do
    let calculated ← TransactionFee.fee transactions tx
    match calculated with
    | some fee_ => addInt64 0 fee_
    | none => pure (-1)
  else .ok (-1)

/-- `TransactionDetail(tx:pubKeyPrefix:scriptHashPrefix:)`; the time is that of
    the block the transaction is in. -/
def TransactionDetail.create (D : Digests) (store : Store) (timestamp : List Char → Option Rat)
    (tx : TransactionInfo) (pubKeyPrefix scriptHashPrefix : UInt8) :
    Except Trap TransactionDetail := do
  let relevant := extractRelevantInputsAndOutputs store.userKeys tx
  let shown ← effect store.transactions relevant.1 relevant.2
  let fromAddresses ← tx.inputs.mapM fun input =>
    address D pubKeyPrefix scriptHashPrefix input.type input.hash160
  let toAddresses ← (extractOutputs store.userKeys tx shown.1).mapM fun output =>
    address D pubKeyPrefix scriptHashPrefix output.type output.pubKeyHash
  let fee ← calculatedFee store.transactions tx shown.1
  pure {
    isSpentTransaction := shown.1
    fromAddresses, toAddresses
    amount := shown.2
    fee
    txId := tx.txHash
    timestamp := timestamp tx.txHash
    confirmation := 0 }

/-- The hash is that of one of the keys. -/
def Own (keys : List UserKeyInfo) (hash160 : List Char) : Prop :=
  ∃ key ∈ keys, key.publicKeyHash = hash160

instance (keys : List UserKeyInfo) (hash160 : List Char) : Decidable (Own keys hash160) :=
  inferInstanceAs (Decidable (∃ key ∈ keys, _))

section Net

variable (store : Store) (tx : TransactionInfo)

def ownInputs : List TransactionInputInfo :=
  tx.inputs.filter fun input => Own store.userKeys input.hash160

def ownOutputs : List TransactionOutputInfo :=
  tx.outputs.filter fun output => Own store.userKeys output.pubKeyHash

def foreignOutputs : List TransactionOutputInfo :=
  tx.outputs.filter fun output => ¬ Own store.userKeys output.pubKeyHash

def spentAmount (infos : List TransactionInfo) (input : TransactionInputInfo) : Int :=
  (spentValue infos input).getD 0

/-- What these outputs pay less what these inputs spend. -/
def netOf (inputs : List TransactionInputInfo) (outputs : List TransactionOutputInfo) : Int :=
  (outputs.map (·.value.toInt)).sum - (inputs.map (spentAmount store.transactions)).sum

/-- The effect of the transaction on the wallet. -/
def netEffect : Int := netOf store (ownInputs store tx) (ownOutputs store tx)

/-- Every own input refers to a stored transaction. -/
def Funded : Prop :=
  ∀ input ∈ tx.inputs, Own store.userKeys input.hash160 →
    fetch store.transactions input.outPoint.txHash ≠ none

end Net

/-- The details are there and show the effect, and a spend its other payees once each. -/
def Correct (D : Digests) (store : Store) (timestamp : List Char → Option Rat)
    (tx : TransactionInfo) (pubKeyPrefix scriptHashPrefix : UInt8) : Prop :=
  ∃ detail, TransactionDetail.create D store timestamp tx pubKeyPrefix scriptHashPrefix =
      .ok detail ∧
    detail.amount.toInt = |netEffect store tx| ∧
    (detail.isSpentTransaction = true ↔ netEffect store tx < 0) ∧
    (detail.isSpentTransaction = true → ∃ addresses,
      (foreignOutputs store tx).mapM (fun output =>
          address D pubKeyPrefix scriptHashPrefix output.type output.pubKeyHash) = .ok addresses ∧
        detail.toAddresses.Perm addresses)

/-- When the effect is shown as it is. -/
structure EffectFits (store : Store) (inputs : List TransactionInputInfo)
    (outputs : List TransactionOutputInfo) (net : Int) : Prop where
  spent : InputsFit store.transactions 0 inputs
  paid : RunningSumsFit 0 (outputs.map (·.value.toInt))
  once : netOf store inputs outputs = net
  range : -2 ^ 63 < net ∧ net < 2 ^ 63
  spends : inputs ≠ [] → outputs = [] → net < 0
  receives : inputs = [] → outputs ≠ [] → 0 ≤ net

/-- One key, or no output that is not paid to each of them. -/
def OneKey (store : Store) (tx : TransactionInfo) : Prop :=
  store.userKeys.length = 1 ∨
    ∀ key ∈ store.userKeys, ∀ output ∈ tx.outputs, key.publicKeyHash = output.pubKeyHash

structure DetailFits (store : Store) (tx : TransactionInfo) : Prop where
  effect : EffectFits store (extractRelevantInputsAndOutputs store.userKeys tx).1
    (extractRelevantInputsAndOutputs store.userKeys tx).2 (netEffect store tx)
  fee : netEffect store tx < 0 → FeeFits store.transactions tx
  payees : netEffect store tx < 0 → OneKey store tx

instance (store : Store) (tx : TransactionInfo) : Decidable (Funded store tx) :=
  inferInstanceAs (Decidable (∀ input ∈ tx.inputs, _ → _))

instance (store : Store) (inputs : List TransactionInputInfo)
    (outputs : List TransactionOutputInfo) (net : Int) :
    Decidable (EffectFits store inputs outputs net) :=
  decidable_of_iff
    (InputsFit store.transactions 0 inputs ∧ RunningSumsFit 0 (outputs.map (·.value.toInt)) ∧
      netOf store inputs outputs = net ∧ (-2 ^ 63 < net ∧ net < 2 ^ 63) ∧
        (inputs ≠ [] → outputs = [] → net < 0) ∧ (inputs = [] → outputs ≠ [] → 0 ≤ net))
    ⟨fun ⟨spent,paid,once,range,spends,receives⟩ => ⟨spent,paid,once,range,spends,receives⟩,
      fun fits => ⟨fits.spent,fits.paid,fits.once,fits.range,fits.spends,fits.receives⟩⟩

instance (store : Store) (tx : TransactionInfo) : Decidable (OneKey store tx) :=
  inferInstanceAs (Decidable (_ ∨ ∀ key ∈ store.userKeys, ∀ output ∈ tx.outputs, _))

instance (store : Store) (tx : TransactionInfo) : Decidable (DetailFits store tx) :=
  decidable_of_iff
    (EffectFits store (extractRelevantInputsAndOutputs store.userKeys tx).1
        (extractRelevantInputsAndOutputs store.userKeys tx).2 (netEffect store tx) ∧
      (netEffect store tx < 0 → FeeFits store.transactions tx) ∧
        (netEffect store tx < 0 → OneKey store tx))
    ⟨fun ⟨effect,fee,payees⟩ => ⟨effect,fee,payees⟩,
      fun fits => ⟨fits.effect,fits.fee,fits.payees⟩⟩

section Sums

variable {infos : List TransactionInfo} {inputs : List TransactionInputInfo}

theorem relevantValue_funded
    (stored : ∀ input ∈ inputs, fetch infos input.outPoint.txHash ≠ none) (value : Int64) :
    inputValue infos value inputs = (do
      let total ← relevantValue infos value inputs
      pure (some total)) := by
  induction inputs generalizing value with
  | nil => rfl
  | cons input inputs ih =>
    have later : ∀ input ∈ inputs, fetch infos input.outPoint.txHash ≠ none :=
      fun other mem => stored other (List.mem_cons_of_mem input mem)
    rw [inputValue, relevantValue]
    cases look : fetch infos input.outPoint.txHash with
    | none => exact absurd look (stored input (by simp))
    | some place =>
      dsimp only
      simp only [bind_assoc, ih later]

theorem inputsFit_spent (stored : ∀ input ∈ inputs, fetch infos input.outPoint.txHash ≠ none)
    {total : Int} (fits : InputsFit infos total inputs) :
    inputs.mapM (spentValue infos) = some (inputs.map (spentAmount infos)) := by
  induction inputs generalizing total with
  | nil => rfl
  | cons input inputs ih =>
    cases look : fetch infos input.outPoint.txHash with
    | none => exact absurd look (stored input (by simp))
    | some place =>
      obtain ⟨source,_,funded⟩ := fetch_found look
      obtain ⟨output,slot,_,rest⟩ := fits source funded
      have here := spentValue_at funded slot
      have later := ih (fun other mem => stored other (List.mem_cons_of_mem input mem)) rest
      rw [List.mapM_cons, here, later, List.map_cons, spentAmount, here]
      rfl

theorem relevantValue_iff (stored : ∀ input ∈ inputs, fetch infos input.outPoint.txHash ≠ none)
    {value out : Int64} :
    relevantValue infos value inputs = .ok out ↔ InputsFit infos value.toInt inputs ∧
      out.toInt = value.toInt + (inputs.map (spentAmount infos)).sum := by
  have through : relevantValue infos value inputs = .ok out ↔
      inputValue infos value inputs = .ok (some out) := by
    rw [relevantValue_funded stored]
    constructor
    · intro run
      rw [bind_ready run]
      rfl
    · intro run
      obtain ⟨total,first,same⟩ := bind_ran.mp run
      cases same
      exact first
  rw [through, inputValue_iff]
  refine and_congr_right fun fits => ?_
  rw [inputsFit_spent stored fits]
  simp

end Sums

theorem outputs_iff {outputs : List TransactionOutputInfo} {out : Int64} :
    sumFrom 0 (outputs.map (·.value)) = .ok out ↔
      RunningSumsFit 0 (outputs.map (·.value.toInt)) ∧
        out.toInt = (outputs.map (·.value.toInt)).sum := by
  rw [sumFrom_ok, List.map_map, Int64.toInt_zero, Int.zero_add]
  rfl

theorem negInt64_ok {a c : Int64} : negInt64 a = .ok c ↔ c.toInt = -a.toInt := int64_ok

section Effect

variable {store : Store} {inputs : List TransactionInputInfo}
  {outputs : List TransactionOutputInfo} {net : Int}

/-- The effect comes out as it is. -/
def ShowsEffect (store : Store) (inputs : List TransactionInputInfo)
    (outputs : List TransactionOutputInfo) (net : Int) : Prop :=
  ∃ isSpent amount, effect store.transactions inputs outputs = .ok (isSpent,amount) ∧
    amount.toInt = |net| ∧ (isSpent = true ↔ net < 0)

theorem spent_returns (stored : ∀ input ∈ inputs,
      fetch store.transactions input.outPoint.txHash ≠ none)
    (fits : InputsFit store.transactions 0 inputs) :
    ∃ value, relevantValue store.transactions 0 inputs = .ok value ∧
      value.toInt = (inputs.map (spentAmount store.transactions)).sum := by
  have running := inputsFit_running fits (inputsFit_spent stored fits)
  have range := runningSums_total running (by decide) (by decide)
  rw [Int.zero_add] at range
  have whole := Int64.toInt_ofInt_of_le range.1 range.2
  refine ⟨_,(relevantValue_iff stored).mpr ⟨fits,?_⟩,whole⟩
  rw [whole, Int64.toInt_zero, Int.zero_add]

theorem paid_returns (fits : RunningSumsFit 0 (outputs.map (·.value.toInt))) :
    ∃ value, sumFrom 0 (outputs.map (·.value)) = .ok value ∧
      value.toInt = (outputs.map (·.value.toInt)).sum := by
  have range := runningSums_total fits (by decide) (by decide)
  rw [Int.zero_add] at range
  have whole := Int64.toInt_ofInt_of_le range.1 range.2
  exact ⟨_,outputs_iff.mpr ⟨fits,whole⟩,whole⟩

theorem effect_spends (stored : ∀ input ∈ inputs,
      fetch store.transactions input.outPoint.txHash ≠ none) (some_in : inputs ≠ []) :
    ShowsEffect store inputs [] net ↔ EffectFits store inputs [] net := by
  have branch : effect store.transactions inputs [] = (do
      let inputValue ← relevantValue store.transactions 0 inputs
      pure (true,inputValue)) := if_pos ⟨by simpa using some_in,rfl⟩
  have total : netOf store inputs [] =
      -(inputs.map (spentAmount store.transactions)).sum := by simp [netOf]
  rw [ShowsEffect, branch]
  constructor
  · rintro ⟨isSpent,amount,run,size,sign⟩
    obtain ⟨value,first,same⟩ := bind_ran.mp run
    cases same
    obtain ⟨fits,exactly⟩ := (relevantValue_iff stored).mp first
    rw [Int64.toInt_zero, Int.zero_add] at exactly
    have negative : net < 0 := sign.mp rfl
    rw [abs_of_neg negative] at size
    have high := amount.toInt_lt
    exact {
      spent := fits
      paid := trivial
      once := by omega
      range := by omega
      spends := fun _ _ => negative
      receives := fun none => absurd none some_in }
  · intro fits
    obtain ⟨value,first,exactly⟩ := spent_returns stored fits.spent
    have negative := fits.spends some_in rfl
    have once := fits.once
    refine ⟨true,value,by rw [bind_ready first]; rfl,?_,by simp [negative]⟩
    rw [abs_of_neg negative]
    omega

theorem effect_receives (some_out : outputs ≠ []) :
    ShowsEffect store [] outputs net ↔ EffectFits store [] outputs net := by
  have branch : effect store.transactions [] outputs = (do
      let outputValue ← sumFrom 0 (outputs.map (·.value))
      pure (false,outputValue)) := by
    rw [effect, if_neg (by simp), if_pos ⟨rfl,by simpa using some_out⟩]
  have total : netOf store [] outputs = (outputs.map (·.value.toInt)).sum := by simp [netOf]
  rw [ShowsEffect, branch]
  constructor
  · rintro ⟨isSpent,amount,run,size,sign⟩
    obtain ⟨value,first,same⟩ := bind_ran.mp run
    cases same
    obtain ⟨fits,exactly⟩ := outputs_iff.mp first
    have positive : 0 ≤ net := by simpa using sign
    rw [abs_of_nonneg positive] at size
    have high := amount.toInt_lt
    exact {
      spent := trivial
      paid := fits
      once := by omega
      range := by omega
      spends := fun none => absurd rfl none
      receives := fun _ _ => positive }
  · intro fits
    obtain ⟨value,first,exactly⟩ := paid_returns fits.paid
    have positive := fits.receives rfl some_out
    have once := fits.once
    refine ⟨false,value,by rw [bind_ready first]; rfl,?_,by simpa using positive⟩
    rw [abs_of_nonneg positive]
    omega

theorem effect_both (stored : ∀ input ∈ inputs,
      fetch store.transactions input.outPoint.txHash ≠ none)
    (both : inputs = [] ↔ outputs = []) :
    ShowsEffect store inputs outputs net ↔ EffectFits store inputs outputs net := by
  have branch : effect store.transactions inputs outputs = (do
      let inputValue ← relevantValue store.transactions 0 inputs
      let outputValue ← sumFrom 0 (outputs.map (·.value))
      let diff ← subInt64 inputValue outputValue
      if 0 < diff then pure (true,diff)
      else do
        let amount ← negInt64 diff
        pure (false,amount)) := by
    simp only [← List.length_eq_zero_iff] at both
    rw [effect, if_neg (by omega), if_neg (by omega)]
  rw [ShowsEffect, branch]
  constructor
  · rintro ⟨isSpent,amount,run,size,sign⟩
    obtain ⟨inputValue,first,run⟩ := bind_ran.mp run
    obtain ⟨outputValue,second,run⟩ := bind_ran.mp run
    obtain ⟨diff,third,run⟩ := bind_ran.mp run
    obtain ⟨spent,inExact⟩ := (relevantValue_iff stored).mp first
    obtain ⟨paid,outExact⟩ := outputs_iff.mp second
    have difference := subInt64_ok.mp third
    rw [Int64.toInt_zero, Int.zero_add] at inExact
    have total : netOf store inputs outputs = outputValue.toInt - inputValue.toInt := by
      rw [netOf, inExact, outExact]
    have shown : net = -diff.toInt ∧ -2 ^ 63 < net ∧ net < 2 ^ 63 := by
      have high := amount.toInt_lt
      split at run
      · cases run
        have negative : net < 0 := sign.mp rfl
        rw [abs_of_neg negative] at size
        omega
      · obtain ⟨negated,fourth,same⟩ := bind_ran.mp run
        cases same
        have opposite := negInt64_ok.mp fourth
        have positive : 0 ≤ net := by simpa using sign
        rw [abs_of_nonneg positive] at size
        omega
    exact {
      spent, paid
      once := by omega
      range := shown.2
      spends := fun some_in none => absurd (both.mpr none) some_in
      receives := fun none some_out => absurd (both.mp none) some_out }
  · intro fits
    obtain ⟨inputValue,first,inExact⟩ := spent_returns stored fits.spent
    obtain ⟨outputValue,second,outExact⟩ := paid_returns fits.paid
    have once := fits.once
    have range := fits.range
    rw [netOf, ← inExact, ← outExact] at once
    have whole : (Int64.ofInt (-net)).toInt = -net :=
      Int64.toInt_ofInt_of_le (by omega) (by omega)
    have third : subInt64 inputValue outputValue = .ok (Int64.ofInt (-net)) := by
      rw [subInt64_ok, whole]
      omega
    have positive : 0 < Int64.ofInt (-net) ↔ net < 0 := by
      rw [Int64.lt_iff_toInt_lt, whole, Int64.toInt_zero]
      omega
    rw [bind_ready first, bind_ready second, bind_ready third]
    by_cases negative : net < 0
    · refine ⟨true,_,if_pos (positive.mpr negative),?_,by simp [negative]⟩
      rw [whole, abs_of_neg negative]
    · have back : (Int64.ofInt net).toInt = net :=
        Int64.toInt_ofInt_of_le (by omega) (by omega)
      have fourth : negInt64 (Int64.ofInt (-net)) = .ok (Int64.ofInt net) := by
        rw [negInt64_ok, whole, back]
        omega
      refine ⟨false,Int64.ofInt net,?_,?_,by simpa using negative⟩
      · rw [if_neg (positive.not.mpr negative), bind_ready fourth]
        rfl
      · rw [back, abs_of_nonneg (by omega)]

theorem effect_iff (stored : ∀ input ∈ inputs,
      fetch store.transactions input.outPoint.txHash ≠ none) :
    ShowsEffect store inputs outputs net ↔ EffectFits store inputs outputs net := by
  by_cases no_in : inputs = []
  · by_cases no_out : outputs = []
    · exact effect_both stored (by simp [no_in, no_out])
    · subst no_in
      exact effect_receives no_out
  · by_cases no_out : outputs = []
    · subst no_out
      exact effect_spends stored no_in
    · exact effect_both stored (by simp [no_in, no_out])

end Effect

theorem mapM_returns {α β : Type} {f : α → Except Trap β} {xs : List α}
    (each : ∀ x ∈ xs, ∃ y, f x = .ok y) : ∃ ys, xs.mapM f = .ok ys := by
  induction xs with
  | nil => exact ⟨[],rfl⟩
  | cons x xs ih =>
    obtain ⟨y,first⟩ := each x (by simp)
    obtain ⟨ys,rest⟩ := ih fun x' mem => each x' (List.mem_cons_of_mem x mem)
    exact ⟨y :: ys,by rw [List.mapM_cons, bind_ready first, bind_ready rest]; rfl⟩

/-- Where the type says there is a hash, it is that of twenty bytes. -/
def Written (type hash160 : List Char) : Prop :=
  type = ['P','2','P','K','H'] ∨ type = ['P','2','S','H'] →
    ∃ bytes, hash160 = toHexString bytes ∧ bytes.length = 20

structure Readable (tx : TransactionInfo) : Prop where
  inputs : ∀ input ∈ tx.inputs, Written input.type input.hash160
  outputs : ∀ output ∈ tx.outputs, Written output.type output.pubKeyHash

theorem address_returns (D : Digests) (pubKeyPrefix scriptHashPrefix : UInt8)
    {type hash160 : List Char} (written : Written type hash160) :
    ∃ text, address D pubKeyPrefix scriptHashPrefix type hash160 = .ok text := by
  by_cases hashed : type = ['P','2','P','K','H'] ∨ type = ['P','2','S','H']
  · obtain ⟨bytes,rfl,length⟩ := written hashed
    have short : ∀ first : UInt8, (first :: bytes).length < 2 ^ 32 := by
      intro first
      rw [List.length_cons, length]
      decide
    rcases hashed with same | same
    · exact ⟨_,(if_pos same).trans (address_made D (short pubKeyPrefix))⟩
    · have branch : address D pubKeyPrefix scriptHashPrefix type (toHexString bytes) =
          publicKeyHashToPublicAddress D (toHexString bytes) scriptHashPrefix := by
        rw [address, if_neg (by rw [same]; decide), if_pos same]
      exact ⟨_,branch.trans (address_made D (short scriptHashPrefix))⟩
  · obtain ⟨first,second⟩ := not_or.mp hashed
    exact ⟨[],by rw [address, if_neg first, if_neg second]⟩

theorem input_written {D : Digests} {input : Input} {made : TransactionInputInfo}
    (create : TransactionInputInfo.create D input = .ok made) : Written made.type made.hash160 := by
  obtain ⟨parsed,_,create⟩ := bind_ran.mp create
  obtain ⟨hash160,hashed,create⟩ := bind_ran.mp create
  cases create
  intro typed
  cases parsed with
  | none => simp at typed
  | some script =>
    obtain ⟨ripemd,_,same⟩ := bind_ran.mp hashed
    cases same
    exact ⟨ripemd.data,rfl,ripemd.length_eq⟩

theorem output_written {output : Output} {made : TransactionOutputInfo}
    (create : TransactionOutputInfo.create output = .ok made) :
    Written made.type made.pubKeyHash := by
  obtain ⟨parsed,_,create⟩ := bind_ran.mp create
  cases create
  intro typed
  cases parsed with
  | none => simp at typed
  | some script =>
    refine ⟨script.hash160.bitcoinData,rfl,?_⟩
    rw [HashOf.bitcoinData, List.length_reverse]
    exact script.hash160.length_eq

theorem stored_readable {D : Digests} {keys : List UserKeyInfo} {txs : List Transaction} {s : Store}
    (run : addAll D (emptyStore keys) txs = .ok s) {tx : TransactionInfo}
    (mem : tx ∈ s.transactions) : Readable tx := by
  obtain ⟨rs,read,_,_,rfl⟩ := history run
  obtain ⟨original,inside,rfl⟩ := List.mem_map.mp mem
  obtain ⟨r,there,rfl⟩ := List.mem_map.mp inside
  obtain ⟨source,_,one⟩ := mapM_source (mapM_ran.mpr read) r there
  obtain ⟨_,eachIn,eachOut⟩ := create_parts (received_parts one).1
  constructor
  · intro input inside
    obtain ⟨_,_,create⟩ := mapM_source eachIn input inside
    exact input_written create
  · intro output inside
    obtain ⟨i,_,rfl⟩ := List.mem_mapIdx.mp inside
    obtain ⟨_,_,create⟩ := mapM_source eachOut r.info.outputs[i] (List.getElem_mem _)
    have written := output_written create
    exact written

section Payees

variable {store : Store} {tx : TransactionInfo}

theorem foreign_fewer (tx : TransactionInfo) {key : UserKeyInfo} (mem : key ∈ store.userKeys) :
    (foreignOutputs store tx).length ≤
      (tx.outputs.filter fun output => key.publicKeyHash ≠ output.pubKeyHash).length := by
  apply List.Sublist.length_le
  apply List.monotone_filter_right
  intro output foreign
  simp only [decide_eq_true_eq] at foreign ⊢
  exact fun same => foreign ⟨key,mem,same⟩

/-- With one key each foreign output is listed once; with more, some are listed
    again unless there are none at all. -/
theorem payees_once (some_key : store.userKeys ≠ [])
    (same : (extractOutputs store.userKeys tx true).length = (foreignOutputs store tx).length) :
    OneKey store tx := by
  have others : extractOutputs store.userKeys tx true = store.userKeys.flatMap fun key =>
    tx.outputs.filter fun output => key.publicKeyHash ≠ output.pubKeyHash := rfl
  rw [others] at same
  rcases keys : store.userKeys with _ | ⟨first,_ | ⟨second,rest⟩⟩
  · exact absurd keys some_key
  · exact Or.inl (by rw [keys]; rfl)
  · -- each of two keys has the foreign outputs on its list
    have one := foreign_fewer tx (show first ∈ store.userKeys by rw [keys]; simp)
    have two := foreign_fewer tx (show second ∈ store.userKeys by rw [keys]; simp)
    have empty : (store.userKeys.flatMap fun key =>
        tx.outputs.filter fun output => key.publicKeyHash ≠ output.pubKeyHash) = [] := by
      apply List.eq_nil_of_length_eq_zero
      rw [keys] at same ⊢
      rw [List.flatMap_cons, List.flatMap_cons, List.length_append, List.length_append] at same ⊢
      omega
    refine Or.inr fun key mem output inside => ?_
    have none := List.flatMap_eq_nil_iff.mp empty key mem
    simpa using List.filter_eq_nil_iff.mp none output inside

theorem payees_foreign (some_key : store.userKeys ≠ []) (one : OneKey store tx) :
    extractOutputs store.userKeys tx true = foreignOutputs store tx := by
  have others : extractOutputs store.userKeys tx true = store.userKeys.flatMap fun key =>
    tx.outputs.filter fun output => key.publicKeyHash ≠ output.pubKeyHash := rfl
  rw [others, foreignOutputs]
  rcases one with single | every
  · obtain ⟨key,keys⟩ := List.length_eq_one_iff.mp single
    rw [keys]
    simp [Own]
  · have left : (store.userKeys.flatMap fun key =>
        tx.outputs.filter fun output => key.publicKeyHash ≠ output.pubKeyHash) = [] := by
      refine List.flatMap_eq_nil_iff.mpr fun key mem => List.filter_eq_nil_iff.mpr ?_
      intro output inside
      simpa using every key mem output inside
    obtain ⟨key,mem⟩ := List.exists_mem_of_ne_nil _ some_key
    rw [left, eq_comm, List.filter_eq_nil_iff]
    intro output inside
    simpa using ⟨key,mem,every key mem output inside⟩

theorem net_needs_key (negative : netEffect store tx < 0) : store.userKeys ≠ [] := by
  intro none
  have alone : ∀ hash160, ¬ Own store.userKeys hash160 := by simp [Own, none]
  simp [netEffect, netOf, ownInputs, ownOutputs, alone] at negative

end Payees

theorem own_cons {key : UserKeyInfo} {keys : List UserKeyInfo} {hash160 : List Char} :
    Own (key :: keys) hash160 ↔ key.publicKeyHash = hash160 ∨ Own keys hash160 := by
  simp [Own]

/-- Of keys with distinct hashes each finds its own, and each thing is found once. -/
theorem found_once {α : Type} (hash160 : α → List Char) (xs : List α) {keys : List UserKeyInfo}
    (distinct : (keys.map (·.publicKeyHash)).Nodup) :
    (keys.flatMap fun key => xs.filter fun x => key.publicKeyHash = hash160 x).Perm
      (xs.filter fun x => Own keys (hash160 x)) := by
  induction keys with
  | nil => simp [Own]
  | cons key keys ih =>
    rw [List.map_cons, List.nodup_cons] at distinct
    rw [List.flatMap_cons]
    refine ((ih distinct.2).append_left _).trans ?_
    -- what the first key finds, no other does
    have rest : (xs.filter fun x => Own keys (hash160 x)) =
        ((xs.filter fun x => Own (key :: keys) (hash160 x)).filter fun x =>
          ¬ key.publicKeyHash = hash160 x) := by
      rw [List.filter_filter]
      apply List.filter_congr
      intro x _
      have apart : key.publicKeyHash = hash160 x → ¬ Own keys (hash160 x) := by
        rintro same ⟨other,mem,found⟩
        exact distinct.1 (List.mem_map.mpr ⟨other,mem,found.trans same.symm⟩)
      rw [Bool.eq_iff_iff]
      simp only [Bool.and_eq_true, decide_eq_true_eq, own_cons]
      tauto
    have first : (xs.filter fun x => key.publicKeyHash = hash160 x) =
        ((xs.filter fun x => Own (key :: keys) (hash160 x)).filter fun x =>
          key.publicKeyHash = hash160 x) := by
      rw [List.filter_filter]
      apply List.filter_congr
      intro x _
      rw [Bool.eq_iff_iff]
      simp only [Bool.and_eq_true, decide_eq_true_eq, own_cons]
      tauto
    rw [first, rest]
    have whole := List.filter_append_perm (fun x => decide (key.publicKeyHash = hash160 x))
      (xs.filter fun x => Own (key :: keys) (hash160 x))
    simpa using whole

/-- So the nested loops count the effect. -/
theorem counted_once {store : Store} (distinct : (store.userKeys.map (·.publicKeyHash)).Nodup)
    (tx : TransactionInfo) :
    netOf store (extractRelevantInputsAndOutputs store.userKeys tx).1
      (extractRelevantInputsAndOutputs store.userKeys tx).2 = netEffect store tx := by
  have ins := found_once (·.hash160) tx.inputs distinct
  have outs := found_once (·.pubKeyHash) tx.outputs distinct
  rw [netEffect, netOf, netOf, extractRelevantInputsAndOutputs]
  dsimp only
  rw [(ins.map _).sum_eq, (outs.map _).sum_eq]
  rfl

section Shown

variable {D : Digests} {store : Store} {tx : TransactionInfo} {timestamp : List Char → Option Rat}
  {pubKeyPrefix scriptHashPrefix : UInt8}

theorem calculatedFee_iff (isSpent : Bool) :
    (∃ fee, calculatedFee store.transactions tx isSpent = .ok fee) ↔
      (isSpent = true → FeeFits store.transactions tx) := by
  cases isSpent with
  | false => exact iff_of_true ⟨_,rfl⟩ (by simp)
  | true =>
    rw [← fee_fits]
    constructor
    · rintro ⟨fee,run⟩ _
      obtain ⟨calculated,first,_⟩ := bind_ran.mp run
      exact ⟨calculated,first⟩
    · intro fits
      obtain ⟨calculated,first⟩ := fits rfl
      have branch : calculatedFee store.transactions tx true =
          (TransactionFee.fee store.transactions tx >>= _) := rfl
      rw [branch, bind_ready first]
      cases calculated with
      | none => exact ⟨_,rfl⟩
      | some fee_ =>
        refine ⟨fee_,addInt64_ok.mpr ?_⟩
        rw [Int64.toInt_zero, Int.zero_add]

theorem relevant_stored (funded : Funded store tx) :
    ∀ input ∈ (extractRelevantInputsAndOutputs store.userKeys tx).1,
      fetch store.transactions input.outPoint.txHash ≠ none := by
  intro input mem
  obtain ⟨key,there,inside⟩ := List.mem_flatMap.mp mem
  obtain ⟨inside,own⟩ := List.mem_filter.mp inside
  exact funded input inside ⟨key,there,by simpa using own⟩

theorem extractOutputs_subset (userKeys : List UserKeyInfo) (tx : TransactionInfo)
    (isSpentTx : Bool) : extractOutputs userKeys tx isSpentTx ⊆ tx.outputs := by
  intro output mem
  rw [extractOutputs] at mem
  split at mem
  · obtain ⟨key,_,inside⟩ := List.mem_flatMap.mp mem
    exact List.mem_of_mem_filter inside
  · obtain ⟨key,_,inside⟩ := List.mem_flatMap.mp mem
    exact List.mem_of_mem_filter inside

/-- A transaction that can be shown is shown as it is exactly in these cases. -/
theorem correct_iff (funded : Funded store tx) (readable : Readable tx) :
    Correct D store timestamp tx pubKeyPrefix scriptHashPrefix ↔ DetailFits store tx := by
  have outputs : ∀ outs : List TransactionOutputInfo, outs ⊆ tx.outputs →
      ∃ addresses, outs.mapM (fun output =>
        address D pubKeyPrefix scriptHashPrefix output.type output.pubKeyHash) = .ok addresses :=
    fun outs among => mapM_returns fun output mem =>
      address_returns D _ _ (readable.outputs output (among mem))
  have shows : ShowsEffect store _ (extractRelevantInputsAndOutputs store.userKeys tx).2
      (netEffect store tx) ↔ _ := effect_iff (relevant_stored funded)
  constructor
  · rintro ⟨detail,run,size,sign,listed⟩
    obtain ⟨⟨isSpent,amount⟩,first,run⟩ := bind_ran.mp run
    obtain ⟨payers,_,run⟩ := bind_ran.mp run
    obtain ⟨shown,payees,run⟩ := bind_ran.mp run
    obtain ⟨fee,fees,run⟩ := bind_ran.mp run
    cases run
    dsimp only at size sign listed payees fees
    refine ⟨shows.mp ⟨isSpent,amount,first,size,sign⟩,?_,?_⟩
    · intro negative
      exact (calculatedFee_iff isSpent).mp ⟨fee,fees⟩ (sign.mpr negative)
    · intro negative
      have spends := sign.mpr negative
      subst spends
      obtain ⟨addresses,foreign,perm⟩ := listed rfl
      refine payees_once (net_needs_key negative) ?_
      rw [(mapM_ran.mp payees).length_eq, (mapM_ran.mp foreign).length_eq]
      exact perm.length_eq
  · rintro ⟨effects,fees,payees⟩
    obtain ⟨isSpent,amount,first,size,sign⟩ := shows.mpr effects
    obtain ⟨payers,second⟩ := mapM_returns fun input mem =>
      address_returns D pubKeyPrefix scriptHashPrefix (readable.inputs input mem)
    obtain ⟨shown,third⟩ := outputs _ (extractOutputs_subset store.userKeys tx isSpent)
    obtain ⟨fee,fourth⟩ := (calculatedFee_iff isSpent).mpr fun spends =>
      fees (sign.mp spends)
    let detail : TransactionDetail := {
      isSpentTransaction := isSpent
      fromAddresses := payers
      toAddresses := shown
      amount, fee
      txId := tx.txHash
      timestamp := timestamp tx.txHash
      confirmation := 0 }
    refine ⟨detail,?_,size,sign,?_⟩
    · rw [TransactionDetail.create, bind_ready first, bind_ready second, bind_ready third,
        bind_ready fourth]
      rfl
    · intro spends
      have negative := sign.mp spends
      have foreign := payees_foreign (net_needs_key negative) (payees negative)
      have isTrue : isSpent = true := spends
      rw [isTrue, foreign] at third
      exact ⟨shown,third,List.Perm.refl _⟩

end Shown

/-- The details of a stored transaction, in any wallet and after any run. -/
theorem details_correct_iff (D : Digests) (keys : List UserKeyInfo) (txs : List Transaction)
    (s : Store) (run : addAll D (emptyStore keys) txs = .ok s) (tx : TransactionInfo)
    (mem : tx ∈ s.transactions) (funded : Funded s tx) (timestamp : List Char → Option Rat)
    (pubKeyPrefix scriptHashPrefix : UInt8) :
    Correct D s timestamp tx pubKeyPrefix scriptHashPrefix ↔ DetailFits s tx :=
  correct_iff funded (stored_readable run mem)

def otherKey : UserKeyInfo where
  privateKey := toHexString [0x02]
  uncompressedPublicKey := []
  publicKeyHash := toHexString (List.replicate 20 0x22)
  UTXOs := []

/-- What is stored last by a coin and its spending. -/
def spendInfo (keys : List UserKeyInfo) : TransactionInfo :=
  (storeAfter fundDigests keys [fund, spendFund]).transactions.getLastD
    { inputs := [], outputs := [], txHash := [] }

set_option maxRecDepth 8000 in
theorem spend_of_one_key :
    ∃ s tx, addAll fundDigests (emptyStore [ownKey]) [fund, spendFund] = .ok s ∧
      tx ∈ s.transactions ∧ netEffect s tx = -5000 ∧
        Correct fundDigests s (fun _ => none) tx 0x00 0x05 := by
  have run : addAll fundDigests (emptyStore [ownKey]) [fund, spendFund] =
      .ok (storeAfter fundDigests [ownKey] [fund, spendFund]) := by decide
  have mem : spendInfo [ownKey] ∈
      (storeAfter fundDigests [ownKey] [fund, spendFund]).transactions := by decide
  exact ⟨_,_,run,mem,by decide,
    (details_correct_iff _ _ _ _ run _ mem (by decide) _ _ _).mpr (by decide)⟩

set_option maxRecDepth 8000 in
/-- With a second key the one payee of the same transaction is listed twice. -/
theorem spend_of_two_keys :
    ∃ s tx, addAll fundDigests (emptyStore [ownKey, otherKey]) [fund, spendFund] = .ok s ∧
      tx ∈ s.transactions ∧ Funded s tx ∧ netEffect s tx = -5000 ∧
        (foreignOutputs s tx).length = 1 ∧ (extractOutputs s.userKeys tx true).length = 2 ∧
          ¬ Correct fundDigests s (fun _ => none) tx 0x00 0x05 := by
  have run : addAll fundDigests (emptyStore [ownKey, otherKey]) [fund, spendFund] =
      .ok (storeAfter fundDigests [ownKey, otherKey] [fund, spendFund]) := by decide
  have mem : spendInfo [ownKey, otherKey] ∈
      (storeAfter fundDigests [ownKey, otherKey] [fund, spendFund]).transactions := by decide
  have funded : Funded (storeAfter fundDigests [ownKey, otherKey] [fund, spendFund])
      (spendInfo [ownKey, otherKey]) := by decide
  refine ⟨_,_,run,mem,funded,by decide,by decide,by decide,?_⟩
  intro shown
  exact absurd ((correct_iff funded (stored_readable run mem)).mp shown) (by decide)

end TransactionDetails
