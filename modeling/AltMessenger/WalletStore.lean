import AltMessenger.BitcoinTransaction
import AltMessenger.BitcoinScript

/-!
The wallet's database: the transactions in the order they were saved, and the
user's keys in the order of their ids, each with links to its unspent outputs.
A link names an object of the database by its place, as the linked object is
read again whenever the link is.
-/
namespace WalletStore
open SwiftRuntime BitcoinHash BitcoinTransaction BitcoinScript

structure TransactionOutPointInfo where
  txHash : List Char
  index : Nat
  deriving DecidableEq

def TransactionOutPointInfo.create (outPoint : OutPoint) : TransactionOutPointInfo where
  txHash := toHexString outPoint.transactionHash.data
  index := outPoint.index.toNat

structure TransactionInputInfo where
  outPoint : TransactionOutPointInfo
  hash160 : List Char
  type : List Char
  deriving DecidableEq

structure TransactionOutputInfo where
  pubKeyHash : List Char
  type : List Char
  value : Int64
  isSpent : Bool
  deriving DecidableEq

structure TransactionInfo where
  inputs : List TransactionInputInfo
  outputs : List TransactionOutputInfo
  txHash : List Char
  deriving DecidableEq

structure OutputLink where
  tx : Nat
  output : Nat
  deriving DecidableEq

structure UserKeyInfo where
  privateKey : List Char
  uncompressedPublicKey : List Char
  publicKeyHash : List Char
  UTXOs : List OutputLink
  deriving DecidableEq

structure Store where
  transactions : List TransactionInfo
  userKeys : List UserKeyInfo
  deriving DecidableEq

variable (D : Digests)

/-- `parsedScript?.hash160.data.toHexString()` -/
def keyHash : Option InputScriptSig → Except Trap (Option (List Char))
  | none => .ok none
  | some script => do
    let hash160 ← script.hash160 D
    pure (some (toHexString hash160.data))

def extractedKeyHash (input : Input) : Except Trap (Option (List Char)) := do
  let parsedScript ← InputScriptSig.ofData input.scriptSignature
  keyHash D parsedScript

def TransactionInputInfo.create (input : Input) : Except Trap TransactionInputInfo := do
  let parsedScript ← InputScriptSig.ofData input.scriptSignature
  let hash160 ← keyHash D parsedScript
  pure {
    outPoint := .create input.outPoint
    hash160 := hash160.getD []
    type := (parsedScript.map InputScriptSig.typeString).getD
      ['u','n','k','n','o','w','n'] }

def TransactionOutputInfo.create (output : Output) : Except Trap TransactionOutputInfo := do
  let parsedScript ← OutputScript.ofData output.script
  pure {
    pubKeyHash := (parsedScript.map fun script => toHexString script.hash160.bitcoinData).getD []
    type := (parsedScript.map OutputScript.typeString).getD []
    value := output.value
    isSpent := false }

/-- `tx.hash.data.toHexString()` -/
def hashString (tx : Transaction) : Except Trap (List Char) := do
  let hash ← tx.hash D
  pure (toHexString hash.data)

def TransactionInfo.create (tx : Transaction) : Except Trap TransactionInfo := do
  let txHash ← hashString D tx
  let inputs ← tx.inputs.mapM (TransactionInputInfo.create D)
  let outputs ← tx.outputs.mapM TransactionOutputInfo.create
  pure { inputs, outputs, txHash }

/-- `TransactionInfo.fetch(txHash:)`, as a place in the database. -/
def fetch (transactions : List TransactionInfo) (txHash : List Char) : Option Nat :=
  transactions.findIdx? (fun info => info.txHash == txHash)

/-- The object a link names. -/
def linked (store : Store) (link : OutputLink) : Option TransactionOutputInfo := do
  let info ← store.transactions[link.tx]?
  info.outputs[link.output]?

/-- Objects that are gone are gone from every list that linked to them. -/
def utxos (store : Store) (key : UserKeyInfo) : List TransactionOutputInfo :=
  key.UTXOs.filterMap (linked store)

def sumFrom (total : Int64) (values : List Int64) : Except Trap Int64 :=
  values.foldlM addInt64 total

/-- `userkey.balance` -/
def balance (store : Store) (key : UserKeyInfo) : Except Trap Int64 :=
  sumFrom 0 ((utxos store key).map (·.value))

def calculateBalance (store : Store) : Except Trap Int64 := do
  let balances ← store.userKeys.mapM (balance store)
  sumFrom 0 balances

/-- `targetOutput.isSpent = true` at `outputs[index]` of the transaction there. -/
def setSpent (transactions : List TransactionInfo) (place index : Nat) :
    Except Trap (List TransactionInfo) := do
  let info ← subscript transactions place
  let output ← subscript info.outputs index
  pure (transactions.set place
    { info with outputs := info.outputs.set index { output with isSpent := true } })

/-- An input whose transaction is not stored is passed over. -/
def incomingInputCheck (transactions : List TransactionInfo) :
    List OutPoint → Except Trap (List TransactionInfo)
  | [] => .ok transactions
  | outPoint :: inputs => do
    match fetch transactions (toHexString outPoint.transactionHash.data) with
    | none => incomingInputCheck transactions inputs
    | some place => do
      let marked ← setSpent transactions place outPoint.index.toNat
      incomingInputCheck marked inputs

/-- The outputs of all transactions that are paid to this hash and not spent. -/
def unspentLinks (transactions : List TransactionInfo) (publicKeyHash : List Char) :
    List OutputLink :=
  transactions.zipIdx.flatMap fun (info,tx) =>
    info.outputs.zipIdx.filterMap fun (output,index) =>
      if publicKeyHash = output.pubKeyHash ∧ output.isSpent = false then
        some { tx, output := index }
      else none

def updateUTXOInfo (store : Store) : Store :=
  { store with
    userKeys := store.userKeys.map fun key =>
      { key with UTXOs := unspentLinks store.transactions key.publicKeyHash } }

/-- The inputs that carry this key, in order. -/
def inputsOfKey (publicKeyHash : List Char) : List Input → Except Trap (List OutPoint)
  | [] => .ok []
  | input :: inputs => do
    let extracted ← extractedKeyHash D input
    let rest ← inputsOfKey publicKeyHash inputs
    pure (if extracted = some publicKeyHash then input.outPoint :: rest else rest)

def extractRelevantInputs (userKeys : List UserKeyInfo) (tx : Transaction) :
    Except Trap (List OutPoint) := do
  let perKey ← userKeys.mapM fun key => inputsOfKey D key.publicKeyHash tx.inputs
  pure perKey.flatten

/-- `TransactionDataStoreManager.add(tx:)` -/
def add (store : Store) (tx : Transaction) : Except Trap Store := do
  let hash ← hashString D tx
  match fetch store.transactions hash with
  | some _ => pure store
  | none => do
    let txInfo ← TransactionInfo.create D tx
    let saved := store.transactions ++ [txInfo]
    let extractedInputs ← extractRelevantInputs D store.userKeys tx
    let checked ← incomingInputCheck saved extractedInputs
    let updated := updateUTXOInfo { store with transactions := checked }
    let _ ← calculateBalance updated
    pure updated

/-- No two saved transactions have one hash. -/
theorem same_place {infos : List TransactionInfo} (distinct : (infos.map (·.txHash)).Nodup)
    {j k : Nat} {a b : TransactionInfo} (hj : infos[j]? = some a) (hk : infos[k]? = some b)
    (same : a.txHash = b.txHash) : j = k := by
  have left : (infos.map (·.txHash))[j]? = some a.txHash := by rw [List.getElem?_map, hj]; rfl
  have right : (infos.map (·.txHash))[k]? = some a.txHash := by
    rw [List.getElem?_map, hk, same]; rfl
  have bound : j < (infos.map (·.txHash)).length := (List.getElem?_eq_some_iff.mp left).1
  exact (List.getElem?_inj bound distinct).mp (left.trans right.symm)

/-- Every running total, from `start` on, is a value of `Int64`. -/
def RunningSumsFit : Int → List Int → Prop
  | _, [] => True
  | start, v :: values =>
    (-2 ^ 63 ≤ start + v ∧ start + v < 2 ^ 63) ∧ RunningSumsFit (start + v) values

def runningSumsFit : (start : Int) → (values : List Int) → Decidable (RunningSumsFit start values)
  | _, [] => .isTrue trivial
  | start, v :: values =>
    have := runningSumsFit (start + v) values
    inferInstanceAs (Decidable (_ ∧ _))

instance (start : Int) (values : List Int) : Decidable (RunningSumsFit start values) :=
  runningSumsFit start values

theorem sumFrom_ok {total : Int64} {values : List Int64} {out : Int64} :
    sumFrom total values = .ok out ↔
      RunningSumsFit total.toInt (values.map Int64.toInt) ∧
        out.toInt = total.toInt + (values.map Int64.toInt).sum := by
  induction values generalizing total with
  | nil =>
    change Except.ok total = Except.ok out ↔ _
    rw [Except.ok.injEq, ← Int64.toInt_inj, eq_comm]
    simp [RunningSumsFit]
  | cons v values ih =>
    have unfolded : sumFrom total (v :: values) =
        (addInt64 total v >>= fun total => sumFrom total values) := List.foldlM_cons
    rw [unfolded, List.map_cons, RunningSumsFit, List.sum_cons]
    constructor
    · intro run
      obtain ⟨mid,first,rest⟩ := bind_ran.mp run
      have exact_sum := addInt64_ok.mp first
      obtain ⟨fits,same⟩ := ih.mp rest
      have low := mid.le_toInt
      have high := mid.toInt_lt
      rw [exact_sum] at fits same low high
      exact ⟨⟨⟨low,high⟩,fits⟩,by omega⟩
    · rintro ⟨⟨⟨low,high⟩,fits⟩,same⟩
      have first := addInt64_fits low high
      have exact_sum := addInt64_ok.mp first
      rw [bind_ready first]
      refine ih.mpr ⟨?_,?_⟩
      · rw [exact_sum]; exact fits
      · rw [exact_sum]; omega

theorem runningSums_total {start : Int} {values : List Int} (fits : RunningSumsFit start values)
    (low : -2 ^ 63 ≤ start) (high : start < 2 ^ 63) :
    -2 ^ 63 ≤ start + values.sum ∧ start + values.sum < 2 ^ 63 := by
  induction values generalizing start with
  | nil => simpa using ⟨low,high⟩
  | cons v values ih =>
    obtain ⟨⟨low',high'⟩,rest⟩ := fits
    have tail := ih rest low' high'
    rw [List.sum_cons]
    omega

theorem mapM_sums {κ : Type} {f : κ → List Int64} {keys : List κ} {sums : List Int64} :
    keys.mapM (fun key => sumFrom 0 (f key)) = .ok sums ↔
      (∀ key ∈ keys, RunningSumsFit 0 ((f key).map Int64.toInt)) ∧
        sums.map Int64.toInt = keys.map fun key => ((f key).map Int64.toInt).sum := by
  rw [mapM_ran]
  constructor
  · intro each
    induction each with
    | nil => simp
    | @cons key sum keys sums first _ ih =>
      obtain ⟨fits,same⟩ := sumFrom_ok.mp first
      rw [show (0 : Int64).toInt = 0 from rfl] at fits same
      rw [Int.zero_add] at same
      simp only [List.forall_mem_cons, List.map_cons, same, ih.2]
      exact ⟨⟨fits,ih.1⟩,trivial⟩
  · rintro ⟨fits,same⟩
    induction keys generalizing sums with
    | nil =>
      have : sums = [] := by simpa using same
      subst this
      exact List.Forall₂.nil
    | cons key keys ih =>
      cases sums with
      | nil => simp at same
      | cons sum sums =>
        rw [List.map_cons, List.map_cons, List.cons.injEq] at same
        refine List.Forall₂.cons (sumFrom_ok.mpr ⟨fits key (by simp),?_⟩)
          (ih (fun other mem => fits other (List.mem_cons_of_mem key mem)) same.2)
        rw [same.1, show (0 : Int64).toInt = 0 from rfl, Int.zero_add]

/-- Balances key by key, and then their total. -/
theorem sum_of_sums {κ : Type} {f : κ → List Int64} {keys : List κ} {out : Int64} :
    (keys.mapM (fun key => sumFrom 0 (f key)) >>= sumFrom 0) = .ok out ↔
      ((∀ key ∈ keys, RunningSumsFit 0 ((f key).map Int64.toInt)) ∧
          RunningSumsFit 0 (keys.map fun key => ((f key).map Int64.toInt).sum)) ∧
        out.toInt = (keys.map fun key => ((f key).map Int64.toInt).sum).sum := by
  constructor
  · intro run
    obtain ⟨sums,each,total⟩ := bind_ran.mp run
    obtain ⟨fits,same⟩ := mapM_sums.mp each
    obtain ⟨all,total⟩ := sumFrom_ok.mp total
    rw [same, show (0 : Int64).toInt = 0 from rfl] at all total
    rw [Int.zero_add] at total
    exact ⟨⟨fits,all⟩,total⟩
  · rintro ⟨⟨fits,all⟩,total⟩
    let sums := keys.map fun key => Int64.ofInt ((f key).map Int64.toInt).sum
    have same : sums.map Int64.toInt = keys.map fun key => ((f key).map Int64.toInt).sum := by
      rw [List.map_map]
      apply List.map_congr_left
      intro key mem
      have range := runningSums_total (fits key mem) (by decide) (by decide)
      rw [Int.zero_add] at range
      exact Int64.toInt_ofInt_of_le range.1 range.2
    rw [bind_ready (mapM_sums.mpr ⟨fits,same⟩)]
    refine sumFrom_ok.mpr ⟨?_,?_⟩
    · rw [same]; exact all
    · rw [same, show (0 : Int64).toInt = 0 from rfl, Int.zero_add, total]

/-- What is read through the links of a hash is read off the unspent outputs
    paid to it, transaction by transaction. -/
theorem read_links {α : Type} (transactions : List TransactionInfo) (publicKeyHash : List Char)
    (value : TransactionInfo → Nat → TransactionOutputInfo → α) :
    (unspentLinks transactions publicKeyHash).filterMap (fun link =>
        (transactions[link.tx]?).bind fun info =>
          (info.outputs[link.output]?).map (value info link.output)) =
      transactions.flatMap fun info => info.outputs.zipIdx.filterMap fun (output,index) =>
        if publicKeyHash = output.pubKeyHash ∧ output.isSpent = false then
          some (value info index output)
        else none := by
  have each : ∀ place ∈ transactions.zipIdx,
      (place.1.outputs.zipIdx.filterMap fun (output,index) =>
        if publicKeyHash = output.pubKeyHash ∧ output.isSpent = false then
          some ({ tx := place.2, output := index } : OutputLink)
        else none).filterMap (fun link =>
          (transactions[link.tx]?).bind fun info =>
            (info.outputs[link.output]?).map (value info link.output)) =
      place.1.outputs.zipIdx.filterMap fun (output,index) =>
        if publicKeyHash = output.pubKeyHash ∧ output.isSpent = false then
          some (value place.1 index output)
        else none := by
    rintro ⟨info,tx⟩ mem
    have there := List.mk_mem_zipIdx_iff_getElem?.mp mem
    rw [List.filterMap_filterMap]
    apply List.filterMap_congr
    rintro ⟨output,index⟩ inside
    have slot := List.mk_mem_zipIdx_iff_getElem?.mp inside
    dsimp only
    split
    · simp [there, slot]
    · rfl
  rw [unspentLinks, List.filterMap_flatMap, List.flatMap_def, List.map_congr_left each]
  conv => rhs; rw [← List.zipIdx_map_fst 0 transactions, List.flatMap_map]
  rfl

end WalletStore
