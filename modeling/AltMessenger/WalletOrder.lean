import AltMessenger.WalletStore
import AltMessenger.SpendOrder

/-!
The database after a run of `add`, as a function of the order of arrival: the
saved transactions with the outputs marked that were seen to be spent. From it
follows when two orders of the same transactions leave the same database.
-/
namespace WalletOrder
open SwiftRuntime BitcoinHash BitcoinTransaction BitcoinScript WalletStore SpendOrder

/-- What `add` takes from a transaction: what it saves and which inputs it looks at. -/
structure Received where
  info : TransactionInfo
  inputs : List OutPoint
  deriving DecidableEq

def received (D : Digests) (keys : List UserKeyInfo) (tx : Transaction) : Except Trap Received := do
  let info ← TransactionInfo.create D tx
  let inputs ← extractRelevantInputs D keys tx
  pure { info, inputs }

def reference (outPoint : OutPoint) : List Char × Nat :=
  (toHexString outPoint.transactionHash.data, outPoint.index.toNat)

def arrivals (rs : List Received) : List (Arrival (List Char)) :=
  rs.map fun r => { id := r.info.txHash, refers := r.inputs.map reference }

/-- A saved transaction with its outputs marked as `spent` says. -/
def flagInfo (spent : List Char → Nat → Bool) (info : TransactionInfo) : TransactionInfo :=
  { info with outputs := info.outputs.mapIdx fun j output =>
      { output with isSpent := spent info.txHash j } }

def flagged (spent : List Char → Nat → Bool) (infos : List TransactionInfo) :
    List TransactionInfo :=
  infos.map (flagInfo spent)

def emptyStore (keys : List UserKeyInfo) : Store where
  transactions := []
  userKeys := keys.map fun key => { key with UTXOs := [] }

/-- The database once these transactions have arrived in this order. -/
def settled (keys : List UserKeyInfo) (rs : List Received) : Store :=
  updateUTXOInfo
    { transactions := flagged (seen (arrivals rs)) (rs.map (·.info)), userKeys := keys }

/-- An input that names a saved transaction names one of its outputs. -/
def InRange (infos : List TransactionInfo) (inputs : List OutPoint) : Prop :=
  ∀ input ∈ inputs, ∀ info ∈ infos, info.txHash = (reference input).1 →
    (reference input).2 < info.outputs.length

/-- Something read off each output paid to a hash and not seen to be spent. -/
def unspentOf {α : Type} (rs : List Received) (publicKeyHash : List Char)
    (value : List Char → Nat → Int64 → α) : List α :=
  rs.flatMap fun r => r.info.outputs.zipIdx.filterMap fun (output,index) =>
    if publicKeyHash = output.pubKeyHash ∧ seen (arrivals rs) r.info.txHash index = false then
      some (value r.info.txHash index output.value)
    else none

def unspentValues (rs : List Received) (publicKeyHash : List Char) : List Int64 :=
  unspentOf rs publicKeyHash fun _ _ value => value

/-- The balances of the keys can be counted, and so can their total. -/
def BalancesFit (keys : List UserKeyInfo) (rs : List Received) : Prop :=
  (∀ key ∈ keys, RunningSumsFit 0 ((unspentValues rs key.publicKeyHash).map Int64.toInt)) ∧
    RunningSumsFit 0 (keys.map fun key =>
      ((unspentValues rs key.publicKeyHash).map Int64.toInt).sum)

instance (keys : List UserKeyInfo) (rs : List Received) : Decidable (BalancesFit keys rs) :=
  inferInstanceAs (Decidable (_ ∧ _))

instance (infos : List TransactionInfo) (inputs : List OutPoint) :
    Decidable (InRange infos inputs) :=
  inferInstanceAs (Decidable (∀ input ∈ inputs, ∀ info ∈ infos, _ → _))

@[simp] theorem flagged_append (spent : List Char → Nat → Bool) (xs ys : List TransactionInfo) :
    flagged spent (xs ++ ys) = flagged spent xs ++ flagged spent ys := by
  simp [flagged]

theorem flagged_congr {spent spent' : List Char → Nat → Bool} {infos : List TransactionInfo}
    (same : ∀ info ∈ infos, ∀ j, spent info.txHash j = spent' info.txHash j) :
    flagged spent infos = flagged spent' infos := by
  unfold flagged
  apply List.map_congr_left
  intro info mem
  simp only [flagInfo, same info mem]

/-- Where a transaction is, if it is saved at all. -/
theorem fetch_flagged {spent : List Char → Nat → Bool} {infos : List TransactionInfo}
    {txHash : List Char} :
    fetch (flagged spent infos) txHash = fetch infos txHash := by
  induction infos with
  | nil => rfl
  | cons info infos ih =>
    unfold fetch at ih ⊢
    rw [flagged, List.map_cons, List.findIdx?_cons, List.findIdx?_cons]
    rw [flagged] at ih
    rw [ih]
    rfl

theorem fetch_none {infos : List TransactionInfo} {txHash : List Char} :
    fetch infos txHash = none ↔ ∀ info ∈ infos, info.txHash ≠ txHash := by
  simp [fetch, List.findIdx?_eq_none_iff]

theorem fetch_some {infos : List TransactionInfo} {txHash : List Char} {place : Nat}
    (found : fetch infos txHash = some place) :
    ∃ info, infos[place]? = some info ∧ info.txHash = txHash := by
  obtain ⟨bound,here,_⟩ := List.findIdx?_eq_some_iff_getElem.mp found
  exact ⟨infos[place],List.getElem?_eq_getElem bound,by simpa using here⟩

/-- One more output marked. -/
def marking (spent : List Char → Nat → Bool) (r : List Char × Nat) : List Char → Nat → Bool :=
  fun txHash j => spent txHash j || decide ((txHash,j) = r)

theorem flagged_at {spent : List Char → Nat → Bool} {infos : List TransactionInfo} {k : Nat} :
    (flagged spent infos)[k]? = (infos[k]?).map (flagInfo spent) := by
  rw [flagged, List.getElem?_map]

theorem flagInfo_slot {spent : List Char → Nat → Bool} {info : TransactionInfo} {index : Nat}
    (bound : index < info.outputs.length) :
    (flagInfo spent info).outputs[index]? =
      some { info.outputs[index] with isSpent := spent info.txHash index } := by
  rw [flagInfo, List.getElem?_mapIdx, List.getElem?_eq_getElem bound]
  rfl

theorem flagInfo_marked {spent : List Char → Nat → Bool} {info : TransactionInfo} {index : Nat}
    (bound : index < info.outputs.length) :
    ({ flagInfo spent info with
        outputs := ((flagInfo spent info).outputs.set index
          { info.outputs[index] with isSpent := true }) } : TransactionInfo) =
      flagInfo (marking spent (info.txHash,index)) info := by
  have outputs : (flagInfo spent info).outputs.set index
      { info.outputs[index] with isSpent := true } =
        (flagInfo (marking spent (info.txHash,index)) info).outputs := by
    apply List.ext_getElem?
    intro j
    rw [List.getElem?_set]
    simp only [flagInfo, List.getElem?_mapIdx, List.length_mapIdx]
    by_cases here : index = j
    · subst here
      rw [if_pos rfl, if_pos bound, List.getElem?_eq_getElem bound]
      simp [marking]
    · rw [if_neg here]
      have apart : ¬ j = index := fun same => here same.symm
      simp [marking, apart]
  rw [outputs]
  rfl

theorem marking_apart {spent : List Char → Nat → Bool} {r : List Char × Nat} {txHash : List Char}
    (apart : txHash ≠ r.1) (j : Nat) : marking spent r txHash j = spent txHash j := by
  have other : ¬ (txHash,j) = r := by
    intro same
    exact apart (congrArg Prod.fst same)
  simp [marking, other]

theorem setSpent_flagged {spent : List Char → Nat → Bool} {infos : List TransactionInfo}
    (distinct : (infos.map (·.txHash)).Nodup) {place index : Nat} {info : TransactionInfo}
    (found : infos[place]? = some info) (bound : index < info.outputs.length) :
    setSpent (flagged spent infos) place index =
      .ok (flagged (marking spent (info.txHash,index)) infos) := by
  have there : (flagged spent infos)[place]? = some (flagInfo spent info) := by
    rw [flagged_at, found]
    rfl
  unfold setSpent
  rw [bind_ready (subscript_ok.mpr there), bind_ready (subscript_ok.mpr (flagInfo_slot bound))]
  refine congrArg Except.ok (List.ext_getElem? fun k => ?_)
  rw [List.getElem?_set, flagged_at, flagged_at]
  by_cases here : place = k
  · subst here
    have inside : place < (flagged spent infos).length := (List.getElem?_eq_some_iff.mp there).1
    rw [if_pos rfl, if_pos inside, found, Option.map_some, ← flagInfo_marked bound]
  · rw [if_neg here]
    cases other : infos[k]? with
    | none => rfl
    | some info' =>
      have apart : info'.txHash ≠ info.txHash :=
        fun same => here (same_place distinct found other same.symm)
      have off : ∀ j, marking spent (info.txHash,index) info'.txHash j = spent info'.txHash j :=
        marking_apart apart
      have same : flagInfo (marking spent (info.txHash,index)) info' = flagInfo spent info' := by
        simp only [flagInfo, off]
      rw [Option.map_some, Option.map_some, same]

theorem setSpent_out {spent : List Char → Nat → Bool} {infos : List TransactionInfo}
    {place index : Nat} {info : TransactionInfo} {out : List TransactionInfo}
    (found : infos[place]? = some info)
    (run : setSpent (flagged spent infos) place index = .ok out) :
    index < info.outputs.length := by
  obtain ⟨info',first,run⟩ := bind_ran.mp run
  obtain ⟨output,second,_⟩ := bind_ran.mp run
  rw [subscript_ok, flagged_at, found] at first
  cases first
  rw [subscript_ok] at second
  simpa [flagInfo] using (List.getElem?_eq_some_iff.mp second).1

theorem inRange_cons {infos : List TransactionInfo} {input : OutPoint} {inputs : List OutPoint} :
    InRange infos (input :: inputs) ↔
      (∀ info ∈ infos, info.txHash = (reference input).1 →
        (reference input).2 < info.outputs.length) ∧ InRange infos inputs := by
  simp [InRange]

/-- The flags after one more input and then the rest. -/
theorem flagged_cons {spent : List Char → Nat → Bool} {infos : List TransactionInfo}
    {input : OutPoint} {inputs : List OutPoint} :
    flagged (fun txHash j => marking spent (reference input) txHash j ||
        decide ((txHash,j) ∈ inputs.map reference)) infos =
      flagged (fun txHash j => spent txHash j ||
        decide ((txHash,j) ∈ (input :: inputs).map reference)) infos := by
  apply flagged_congr
  intro info _ j
  simp only [marking, List.map_cons, List.mem_cons, Bool.decide_or, Bool.or_assoc]

/-- All inputs of one transaction: the check ends well exactly when each names
    an existing output, and then it has marked what they name. -/
theorem incomingInputCheck_flagged {spent : List Char → Nat → Bool}
    {infos : List TransactionInfo} (distinct : (infos.map (·.txHash)).Nodup)
    {inputs : List OutPoint} {out : List TransactionInfo} :
    incomingInputCheck (flagged spent infos) inputs = .ok out ↔
      InRange infos inputs ∧
        out = flagged (fun txHash j => spent txHash j ||
          decide ((txHash,j) ∈ inputs.map reference)) infos := by
  induction inputs generalizing spent with
  | nil =>
    have same : (fun txHash j => spent txHash j ||
        decide ((txHash,j) ∈ ([] : List OutPoint).map reference)) = spent := by
      funext txHash j
      simp
    rw [same, incomingInputCheck, Except.ok.injEq, eq_comm]
    simp [InRange]
  | cons input inputs ih =>
    rw [incomingInputCheck, fetch_flagged, inRange_cons, ← flagged_cons]
    cases look : fetch infos (toHexString input.transactionHash.data) with
    | none =>
      have missing := fetch_none.mp look
      have skipped : flagged (fun txHash j => marking spent (reference input) txHash j ||
            decide ((txHash,j) ∈ inputs.map reference)) infos =
          flagged (fun txHash j => spent txHash j ||
            decide ((txHash,j) ∈ inputs.map reference)) infos := by
        apply flagged_congr
        intro info mem j
        rw [marking_apart (missing info mem)]
      have named : ∀ info ∈ infos, info.txHash = (reference input).1 →
          (reference input).2 < info.outputs.length :=
        fun info mem same => absurd same (missing info mem)
      rw [skipped]
      simp only [ih, and_iff_right named]
    | some place =>
      obtain ⟨info,found,hash⟩ := fetch_some look
      have only : ∀ other ∈ infos, other.txHash = (reference input).1 → other = info := by
        intro other mem same
        obtain ⟨k,bound,rfl⟩ := List.getElem_of_mem mem
        have here := same_place distinct (List.getElem?_eq_getElem bound) found
          (same.trans hash.symm)
        subst here
        exact Option.some.inj ((List.getElem?_eq_getElem bound).symm.trans found)
      have named : (∀ other ∈ infos, other.txHash = (reference input).1 →
          (reference input).2 < other.outputs.length) ↔
          (reference input).2 < info.outputs.length := by
        constructor
        · intro all
          exact all info (List.mem_of_getElem? found) hash
        · intro bound other mem same
          rw [only other mem same]
          exact bound
      rw [named]
      constructor
      · intro run
        obtain ⟨marked,first,second⟩ := bind_ran.mp run
        have bound := setSpent_out found first
        rw [setSpent_flagged distinct found bound] at first
        cases first
        rw [hash] at second
        obtain ⟨rest,same⟩ := ih.mp second
        exact ⟨⟨bound,rest⟩,same⟩
      · rintro ⟨⟨bound,rest⟩,same⟩
        have first : setSpent (flagged spent infos) place _ = _ :=
          setSpent_flagged distinct found bound
        rw [hash] at first
        exact (bind_ready first).trans (ih.mpr ⟨rest,same⟩)

/-- The keys as they are kept: their hashes never change. -/
def SameKeys (keys userKeys : List UserKeyInfo) : Prop :=
  userKeys.map (fun key => { key with UTXOs := [] }) = keys.map fun key => { key with UTXOs := [] }

theorem sameKeys_hashes {keys userKeys : List UserKeyInfo} (same : SameKeys keys userKeys) :
    userKeys.map (·.publicKeyHash) = keys.map (·.publicKeyHash) := by
  have hashes := congrArg (List.map (·.publicKeyHash)) same
  simpa [Function.comp_def] using hashes

theorem extractRelevantInputs_hashes {D : Digests} {keys userKeys : List UserKeyInfo}
    (same : SameKeys keys userKeys) (tx : Transaction) :
    extractRelevantInputs D userKeys tx = extractRelevantInputs D keys tx := by
  have through : ∀ ks : List UserKeyInfo,
      (ks.mapM fun key => inputsOfKey D key.publicKeyHash tx.inputs) =
        (ks.map (·.publicKeyHash)).mapM fun hash => inputsOfKey D hash tx.inputs := by
    intro ks
    rw [List.mapM_map]
    rfl
  rw [extractRelevantInputs, extractRelevantInputs, through, through, sameKeys_hashes same]

theorem updateUTXOInfo_keys {keys userKeys : List UserKeyInfo} (same : SameKeys keys userKeys)
    (transactions : List TransactionInfo) :
    updateUTXOInfo { transactions, userKeys } =
      updateUTXOInfo { transactions, userKeys := keys } := by
  have through : ∀ ks : List UserKeyInfo,
      (ks.map fun key => { key with UTXOs := unspentLinks transactions key.publicKeyHash }) =
        (ks.map fun key => { key with UTXOs := [] }).map fun key =>
          { key with UTXOs := unspentLinks transactions key.publicKeyHash } := by
    intro ks
    rw [List.map_map]
    rfl
  rw [updateUTXOInfo, updateUTXOInfo]
  dsimp only
  rw [through userKeys, through keys, same]

theorem settled_keys (keys : List UserKeyInfo) (rs : List Received) :
    SameKeys keys (settled keys rs).userKeys := by
  simp [SameKeys, settled, updateUTXOInfo, Function.comp_def]

theorem emptyStore_settled (keys : List UserKeyInfo) : emptyStore keys = settled keys [] := by
  simp [emptyStore, settled, updateUTXOInfo, flagged, unspentLinks]

/-- What a saved transaction is made of. -/
theorem create_parts {D : Digests} {tx : Transaction} {info : TransactionInfo}
    (run : TransactionInfo.create D tx = .ok info) :
    hashString D tx = .ok info.txHash ∧
      tx.inputs.mapM (TransactionInputInfo.create D) = .ok info.inputs ∧
        tx.outputs.mapM TransactionOutputInfo.create = .ok info.outputs := by
  obtain ⟨hash,hashed,run⟩ := bind_ran.mp run
  obtain ⟨inputs,eachIn,run⟩ := bind_ran.mp run
  obtain ⟨outputs,eachOut,run⟩ := bind_ran.mp run
  cases run
  exact ⟨hashed,eachIn,eachOut⟩

theorem received_parts {D : Digests} {keys : List UserKeyInfo} {tx : Transaction} {r : Received}
    (read : received D keys tx = .ok r) :
    TransactionInfo.create D tx = .ok r.info ∧ extractRelevantInputs D keys tx = .ok r.inputs := by
  obtain ⟨info,made,read⟩ := bind_ran.mp read
  obtain ⟨inputs,extracted,read⟩ := bind_ran.mp read
  cases read
  exact ⟨made,extracted⟩

/-- A transaction is saved with no output marked. -/
theorem create_fresh {D : Digests} {tx : Transaction} {info : TransactionInfo}
    (run : TransactionInfo.create D tx = .ok info) :
    hashString D tx = .ok info.txHash ∧ ∀ output ∈ info.outputs, output.isSpent = false := by
  obtain ⟨hashed,_,each⟩ := create_parts run
  refine ⟨hashed,?_⟩
  intro output mem
  obtain ⟨source,_,made⟩ := mapM_source each output mem
  obtain ⟨script,_,made⟩ := bind_ran.mp made
  cases made
  rfl

theorem flagInfo_fresh {spent : List Char → Nat → Bool} {info : TransactionInfo}
    (fresh : ∀ output ∈ info.outputs, output.isSpent = false)
    (unseen : ∀ j, spent info.txHash j = false) : flagInfo spent info = info := by
  have outputs : (info.outputs.mapIdx fun j output =>
      { output with isSpent := spent info.txHash j }) = info.outputs := by
    apply List.ext_getElem?
    intro j
    rw [List.getElem?_mapIdx]
    cases slot : info.outputs[j]? with
    | none => rfl
    | some output =>
      have unspent := fresh output (List.mem_of_getElem? slot)
      rw [Option.map_some, unseen, ← unspent]
  rw [flagInfo, outputs]

/-- What `seen` says once a transaction more has arrived, of the saved ones. -/
theorem flagged_arrived {rs : List Received} {r : Received} :
    flagged (fun txHash j => seen (arrivals rs) txHash j ||
        decide ((txHash,j) ∈ r.inputs.map reference)) ((rs ++ [r]).map (·.info)) =
      flagged (seen (arrivals (rs ++ [r]))) ((rs ++ [r]).map (·.info)) := by
  apply flagged_congr
  intro info mem j
  have present : ∃ f ∈ arrivals (rs ++ [r]), f.id = info.txHash := by
    obtain ⟨source,inside,rfl⟩ := List.mem_map.mp mem
    exact ⟨_,List.mem_map.mpr ⟨source,inside,rfl⟩,rfl⟩
  rw [Bool.eq_iff_iff, Bool.or_eq_true, decide_eq_true_iff]
  have split : arrivals (rs ++ [r]) =
      arrivals rs ++ [{ id := r.info.txHash, refers := r.inputs.map reference }] := by
    simp [arrivals]
  rw [split] at present ⊢
  rw [seen_append]
  simp only [present, and_true]

section Step

variable {D : Digests} {keys : List UserKeyInfo} {rs : List Received} {tx : Transaction}
  {hash : List Char}

theorem saved_flagged {info : TransactionInfo} {r : Received} (made : r.info = info)
    (fresh : ∀ output ∈ info.outputs, output.isSpent = false)
    (new : info.txHash ∉ rs.map (·.info.txHash)) :
    (settled keys rs).transactions ++ [info] =
      flagged (seen (arrivals rs)) ((rs ++ [r]).map (·.info)) := by
  have unseen : ∀ j, seen (arrivals rs) info.txHash j = false := by
    intro j
    rw [Bool.eq_false_iff]
    intro spent
    obtain ⟨f,mem,here⟩ := seen_present spent
    obtain ⟨source,inside,rfl⟩ := List.mem_map.mp mem
    exact new (List.mem_map.mpr ⟨source,inside,here⟩)
  rw [List.map_append, flagged_append]
  change _ ++ [info] = _ ++ [flagInfo (seen (arrivals rs)) r.info]
  rw [made, flagInfo_fresh fresh unseen]
  rfl

theorem missing_settled (new : hash ∉ rs.map (·.info.txHash)) :
    fetch (settled keys rs).transactions hash = none := by
  change fetch (flagged _ _) hash = none
  rw [fetch_flagged, fetch_none]
  intro other mem clash
  obtain ⟨source,inside,rfl⟩ := List.mem_map.mp mem
  exact new (List.mem_map.mpr ⟨source,inside,clash⟩)

theorem received_hash {r : Received} (hashed : hashString D tx = .ok hash)
    (read : received D keys tx = .ok r) :
    r.info.txHash = hash ∧ ∀ output ∈ r.info.outputs, output.isSpent = false := by
  obtain ⟨same_hash,fresh⟩ := create_fresh (received_parts read).1
  exact ⟨Except.ok.inj (same_hash.symm.trans hashed),fresh⟩

theorem received_hashes {txs : List Transaction} {hashes : List (List Char)}
    (hashed : List.Forall₂ (fun tx hash => hashString D tx = .ok hash) txs hashes)
    (read : List.Forall₂ (fun tx r => received D keys tx = .ok r) txs rs) :
    rs.map (·.info.txHash) = hashes := by
  induction hashed generalizing rs with
  | nil =>
    cases read
    rfl
  | cons first _ ih =>
    cases read with
    | cons one rest => rw [List.map_cons, ih rest, (received_hash first one).1]

theorem distinct_arrived {r : Received} (distinct : (rs.map (·.info.txHash)).Nodup)
    (new : r.info.txHash ∉ rs.map (·.info.txHash)) :
    (((rs ++ [r]).map (·.info)).map (·.txHash)).Nodup := by
  rw [List.map_map, List.map_append, List.nodup_append]
  refine ⟨distinct,by simp,?_⟩
  intro a ha b hb same
  have here : a = r.info.txHash := same.trans (List.mem_singleton.mp hb)
  rw [here] at ha
  exact new ha

/-- The hashes once a transaction more has arrived. -/
theorem hashes_arrived (hashed : hashString D tx = .ok hash)
    (distinct : (rs.map (·.info.txHash)).Nodup) (new : hash ∉ rs.map (·.info.txHash))
    {r : Received} (read : received D keys tx = .ok r) :
    (rs ++ [r]).map (·.info.txHash) = rs.map (·.info.txHash) ++ [hash] ∧
      ((rs ++ [r]).map (·.info.txHash)).Nodup := by
  obtain ⟨same,_⟩ := received_hash hashed read
  have apart := distinct_arrived distinct (same ▸ new : r.info.txHash ∉ _)
  rw [List.map_map] at apart
  exact ⟨by rw [List.map_append, List.map_singleton, same],apart⟩

/-- A transaction that is not yet saved and can be read. -/
theorem add_received (hashed : hashString D tx = .ok hash)
    (new : hash ∉ rs.map (·.info.txHash)) {r : Received} (read : received D keys tx = .ok r) :
    add D (settled keys rs) tx = (do
      let checked ← incomingInputCheck
        (flagged (seen (arrivals rs)) ((rs ++ [r]).map (·.info))) r.inputs
      let _ ← calculateBalance (updateUTXOInfo { transactions := checked, userKeys := keys })
      pure (updateUTXOInfo { transactions := checked, userKeys := keys })) := by
  obtain ⟨made,extracted⟩ := received_parts read
  obtain ⟨same,fresh⟩ := received_hash hashed read
  have found : extractRelevantInputs D (settled keys rs).userKeys tx = .ok r.inputs := by
    rw [extractRelevantInputs_hashes (settled_keys keys rs), extracted]
  have updated : ∀ checked, updateUTXOInfo { settled keys rs with transactions := checked } =
      updateUTXOInfo { transactions := checked, userKeys := keys } :=
    updateUTXOInfo_keys (settled_keys keys rs)
  unfold add
  rw [bind_ready hashed, missing_settled new]
  dsimp only
  rw [bind_ready made, bind_ready found, saved_flagged rfl fresh (same ▸ new)]
  simp only [updated]

theorem received_of_add (hashed : hashString D tx = .ok hash)
    (new : hash ∉ rs.map (·.info.txHash)) {s : Store} (run : add D (settled keys rs) tx = .ok s) :
    ∃ r, received D keys tx = .ok r := by
  unfold add at run
  rw [bind_ready hashed, missing_settled new] at run
  obtain ⟨info,made,run⟩ := bind_ran.mp run
  obtain ⟨inputs,extracted,_⟩ := bind_ran.mp run
  rw [extractRelevantInputs_hashes (settled_keys keys rs)] at extracted
  exact ⟨{ info, inputs },by unfold received; rw [bind_ready made, bind_ready extracted]; rfl⟩

/-- One call of `add` on the database the earlier ones left. -/
theorem add_settled (hashed : hashString D tx = .ok hash)
    (distinct : (rs.map (·.info.txHash)).Nodup) (new : hash ∉ rs.map (·.info.txHash))
    {s : Store} :
    add D (settled keys rs) tx = .ok s ↔
      ∃ r, received D keys tx = .ok r ∧ InRange ((rs ++ [r]).map (·.info)) r.inputs ∧
        s = settled keys (rs ++ [r]) ∧ ∃ b, calculateBalance s = .ok b := by
  constructor
  · intro run
    obtain ⟨r,read⟩ := received_of_add hashed new run
    obtain ⟨same_hash,_⟩ := received_hash hashed read
    have apart := distinct_arrived distinct (same_hash ▸ new : r.info.txHash ∉ _)
    rw [add_received hashed new read] at run
    obtain ⟨checked,first,run⟩ := bind_ran.mp run
    obtain ⟨b,sum,run⟩ := bind_ran.mp run
    cases run
    obtain ⟨named,same⟩ := (incomingInputCheck_flagged apart).mp first
    rw [flagged_arrived] at same
    subst same
    exact ⟨r,read,named,rfl,b,sum⟩
  · rintro ⟨r,read,named,rfl,b,sum⟩
    obtain ⟨same_hash,_⟩ := received_hash hashed read
    have apart := distinct_arrived distinct (same_hash ▸ new : r.info.txHash ∉ _)
    have first := (@incomingInputCheck_flagged (seen (arrivals rs)) _ apart _ _).mpr ⟨named,rfl⟩
    rw [flagged_arrived] at first
    rw [add_received hashed new read, bind_ready first]
    exact bind_ready sum

end Step

theorem zipIdx_mapIdx {α β : Type} (f : Nat → α → β) (xs : List α) :
    (xs.mapIdx f).zipIdx = xs.zipIdx.map fun (x,i) => (f i x,i) := by
  apply List.ext_getElem?
  intro i
  rw [List.getElem?_zipIdx, List.getElem?_mapIdx, List.getElem?_map, List.getElem?_zipIdx]
  cases xs[i]? with
  | none => rfl
  | some x => simp

/-- Through the links of the settled database one reads the unspent outputs. -/
theorem read_settled {α : Type} (keys : List UserKeyInfo) (rs : List Received)
    (publicKeyHash : List Char) (value : List Char → Nat → Int64 → α) :
    (unspentLinks (settled keys rs).transactions publicKeyHash).filterMap (fun link =>
        ((settled keys rs).transactions[link.tx]?).bind fun info =>
          (info.outputs[link.output]?).map fun output =>
            value info.txHash link.output output.value) =
      unspentOf rs publicKeyHash value := by
  have read := read_links (settled keys rs).transactions publicKeyHash
    (fun info index output => value info.txHash index output.value)
  rw [read]
  change (flagged (seen (arrivals rs)) (rs.map (·.info))).flatMap _ = _
  rw [flagged, List.map_map, List.flatMap_map, unspentOf]
  apply List.flatMap_congr
  intro r _
  dsimp only [Function.comp_def]
  rw [show (flagInfo (seen (arrivals rs)) r.info).outputs = r.info.outputs.mapIdx fun j output =>
    { output with isSpent := seen (arrivals rs) r.info.txHash j } from rfl, zipIdx_mapIdx,
    List.filterMap_map]
  rfl

theorem calculateBalance_settled (keys : List UserKeyInfo) (rs : List Received) :
    calculateBalance (settled keys rs) =
      (keys.mapM (fun key => sumFrom 0 (unspentValues rs key.publicKeyHash)) >>= sumFrom 0) := by
  have each : ∀ key : UserKeyInfo, balance (settled keys rs)
      { key with UTXOs := unspentLinks (settled keys rs).transactions key.publicKeyHash } =
        sumFrom 0 (unspentValues rs key.publicKeyHash) := by
    intro key
    rw [balance, utxos, unspentValues, ← read_settled keys rs, List.map_filterMap]
    congr 1
    apply List.filterMap_congr
    intro link _
    rw [linked]
    cases (settled keys rs).transactions[link.tx]? <;> rfl
  have stored : (settled keys rs).userKeys = keys.map fun key =>
      { key with UTXOs := unspentLinks (settled keys rs).transactions key.publicKeyHash } := rfl
  have through : (settled keys rs).userKeys.mapM (balance (settled keys rs)) =
      keys.mapM (fun key => sumFrom 0 (unspentValues rs key.publicKeyHash)) := by
    rw [stored, List.mapM_map]
    congr 1
    funext key
    exact each key
  rw [calculateBalance, through]

theorem calculateBalance_ok {keys : List UserKeyInfo} {rs : List Received} {b : Int64} :
    calculateBalance (settled keys rs) = .ok b ↔
      BalancesFit keys rs ∧ b.toInt = (keys.map fun key =>
        ((unspentValues rs key.publicKeyHash).map Int64.toInt).sum).sum := by
  rw [calculateBalance_settled, sum_of_sums]
  rfl

theorem balancesFit_iff {keys : List UserKeyInfo} {rs : List Received} :
    (∃ b, calculateBalance (settled keys rs) = .ok b) ↔ BalancesFit keys rs := by
  constructor
  · rintro ⟨b,sum⟩
    exact (calculateBalance_ok.mp sum).1
  · intro fit
    have range := runningSums_total fit.2 (by decide) (by decide)
    rw [Int.zero_add] at range
    exact ⟨_,calculateBalance_ok.mpr ⟨fit,Int64.toInt_ofInt_of_le range.1 range.2⟩⟩

/-- Each arrival names outputs that exist and leaves balances that can be counted. -/
def Arrives (keys : List UserKeyInfo) : List Received → List Received → Prop
  | _, [] => True
  | rs, r :: more =>
    InRange ((rs ++ [r]).map (·.info)) r.inputs ∧ BalancesFit keys (rs ++ [r]) ∧
      Arrives keys (rs ++ [r]) more

def decidableArrives (keys : List UserKeyInfo) :
    (rs more : List Received) → Decidable (Arrives keys rs more)
  | _, [] => .isTrue trivial
  | rs, r :: more =>
    have := decidableArrives keys (rs ++ [r]) more
    inferInstanceAs (Decidable (_ ∧ _ ∧ _))

instance (keys : List UserKeyInfo) (rs more : List Received) :
    Decidable (Arrives keys rs more) := decidableArrives keys rs more

def addAll (D : Digests) (store : Store) (txs : List Transaction) : Except Trap Store :=
  txs.foldlM (add D) store

/-- A whole run of `add`, from any database such a run has left. -/
theorem addAll_settled {D : Digests} {keys : List UserKeyInfo} {txs : List Transaction}
    {hashes : List (List Char)}
    (hashed : List.Forall₂ (fun tx hash => hashString D tx = .ok hash) txs hashes)
    {rs : List Received} (distinct : (rs.map (·.info.txHash) ++ hashes).Nodup) {s : Store} :
    addAll D (settled keys rs) txs = .ok s ↔
      ∃ new, txs.mapM (received D keys) = .ok new ∧ Arrives keys rs new ∧
        s = settled keys (rs ++ new) := by
  induction hashed generalizing rs with
  | nil =>
    constructor
    · intro run
      cases run
      exact ⟨[],rfl,trivial,by rw [List.append_nil]⟩
    · rintro ⟨new,read,_,rfl⟩
      cases read
      change Except.ok (settled keys rs) = Except.ok (settled keys (rs ++ []))
      rw [List.append_nil]
  | @cons tx hash txs hashes first _ ih =>
    have before : (rs.map (·.info.txHash)).Nodup := (List.nodup_append.mp distinct).1
    have fresh : hash ∉ rs.map (·.info.txHash) :=
      fun mem => (List.nodup_append.mp distinct).2.2 hash mem hash (by simp) rfl
    have onward : ∀ r : Received, r.info.txHash = hash →
        ((rs ++ [r]).map (·.info.txHash) ++ hashes).Nodup := by
      intro r same
      rw [List.map_append, List.append_assoc]
      simpa [same] using distinct
    have unfolded : addAll D (settled keys rs) (tx :: txs) =
        (add D (settled keys rs) tx >>= fun s => addAll D s txs) := List.foldlM_cons
    rw [unfolded, List.mapM_cons]
    constructor
    · intro run
      obtain ⟨mid,one,rest⟩ := bind_ran.mp run
      obtain ⟨r,read,named,rfl,sum⟩ := (add_settled first before fresh).mp one
      have fit := balancesFit_iff.mp sum
      obtain ⟨new,reads,arrives,same⟩ := (ih (onward r (received_hash first read).1)).mp rest
      refine ⟨r :: new,?_,⟨named,fit,arrives⟩,?_⟩
      · rw [bind_ready read, bind_ready reads]
        rfl
      · rw [same, List.append_assoc]
        rfl
    · rintro ⟨all,reads,arrives,rfl⟩
      obtain ⟨r,read,reads⟩ := bind_ran.mp reads
      obtain ⟨new,later,reads⟩ := bind_ran.mp reads
      cases reads
      obtain ⟨named,fit,arrives⟩ := arrives
      have one := (add_settled first before fresh).mpr
        ⟨r,read,named,rfl,balancesFit_iff.mpr fit⟩
      rw [bind_ready one]
      exact (ih (onward r (received_hash first read).1)).mpr
        ⟨new,later,arrives,by rw [List.append_assoc]; rfl⟩

theorem arrives_fit {keys : List UserKeyInfo} {rs new : List Received}
    (arrives : Arrives keys rs new) (fit : BalancesFit keys rs) : BalancesFit keys (rs ++ new) := by
  induction new generalizing rs with
  | nil => rwa [List.append_nil]
  | cons r new ih =>
    obtain ⟨_,fit',rest⟩ := arrives
    have last := ih rest fit'
    rwa [List.append_assoc] at last

theorem nothing_fits (keys : List UserKeyInfo) : BalancesFit keys [] := by
  refine ⟨fun _ _ => trivial,?_⟩
  change RunningSumsFit 0 (keys.map fun _ => 0)
  induction keys with
  | nil => trivial
  | cons key keys ih =>
    rw [List.map_cons, RunningSumsFit, Int.zero_add]
    exact ⟨by decide,ih⟩

end WalletOrder
