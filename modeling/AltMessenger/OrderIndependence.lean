import Mathlib.Data.List.Nodup
import Mathlib.Algebra.BigOperators.Group.List.Basic
import AltMessenger.WalletOrder

/-!
Two orders of the same transactions: when the database, the unspent outputs of
the keys and the balance come out the same.
-/
namespace OrderIndependence
open SwiftRuntime BitcoinHash BitcoinTransaction BitcoinScript WalletStore SpendOrder WalletOrder

/-- An output paid to the hash of one of the user's keys. -/
def OwnOutput (keys : List UserKeyInfo) (output : TransactionOutputInfo) : Prop :=
  output.type = ['P','2','P','K','H'] ∧ ∃ key ∈ keys, key.publicKeyHash = output.pubKeyHash

instance (keys : List UserKeyInfo) (output : TransactionOutputInfo) :
    Decidable (OwnOutput keys output) := inferInstanceAs (Decidable (_ ∧ _))

/-- Some saved transaction has an input that refers to this output. -/
def RefersTo (infos : List TransactionInfo) (txHash : List Char) (index : Nat) : Prop :=
  ∃ info ∈ infos, ∃ input ∈ info.inputs, input.outPoint = { txHash, index }

instance (infos : List TransactionInfo) (txHash : List Char) (index : Nat) :
    Decidable (RefersTo infos txHash index) :=
  inferInstanceAs (Decidable (∃ info ∈ infos, ∃ input ∈ info.inputs, _))

def isSpent (transactions : List TransactionInfo) (txHash : List Char) (index : Nat) :
    Option Bool := do
  let place ← fetch transactions txHash
  let info ← transactions[place]?
  let output ← info.outputs[index]?
  pure output.isSpent

/-- The set of unspent outputs a key links to. -/
def unspentOutPoints (store : Store) (key : UserKeyInfo) : List (List Char × Nat) :=
  key.UTXOs.filterMap fun link =>
    (store.transactions[link.tx]?).bind fun info =>
      (info.outputs[link.output]?).map fun _ => (info.txHash,link.output)

structure SameOutcome (keys : List UserKeyInfo) (s₁ s₂ : Store) : Prop where
  flags : ∀ txHash index,
    isSpent s₁.transactions txHash index = isSpent s₂.transactions txHash index
  unspent : ∀ (k : Nat) (key₁ key₂ : UserKeyInfo),
    s₁.userKeys[k]? = some key₁ → s₂.userKeys[k]? = some key₂ →
    ∀ o, o ∈ unspentOutPoints s₁ key₁ ↔ o ∈ unspentOutPoints s₂ key₂
  balance : ∃ b, calculateBalance s₁ = .ok b ∧ calculateBalance s₂ = .ok b
  marked : ∀ s ∈ [s₁, s₂], ∀ info ∈ s.transactions, ∀ index output,
    info.outputs[index]? = some output → OwnOutput keys output →
      (output.isSpent = true ↔ RefersTo s.transactions info.txHash index)

/-- Both orders run to their end and leave the same wallet. -/
def OrderIndependent (D : Digests) (keys : List UserKeyInfo) (l₁ l₂ : List Transaction) : Prop :=
  ∃ s₁ s₂, addAll D (emptyStore keys) l₁ = .ok s₁ ∧ addAll D (emptyStore keys) l₂ = .ok s₂ ∧
    SameOutcome keys s₁ s₂

/-- Every own output that is referred to arrives before or with a transaction
    that spends it under its key, in both orders, and of no other output does
    this hold in one order alone. -/
structure SpendersFollow (keys : List UserKeyInfo) (rs₁ rs₂ : List Received) : Prop where
  own : ∀ r ∈ rs₁, ∀ index (h : index < r.info.outputs.length),
    OwnOutput keys r.info.outputs[index] → RefersTo (rs₁.map (·.info)) r.info.txHash index →
      seen (arrivals rs₁) r.info.txHash index = true
  same : ∀ r ∈ rs₁, ∀ index, index < r.info.outputs.length →
    seen (arrivals rs₁) r.info.txHash index = seen (arrivals rs₂) r.info.txHash index

instance (keys : List UserKeyInfo) (rs₁ rs₂ : List Received) :
    Decidable (SpendersFollow keys rs₁ rs₂) :=
  decidable_of_iff
    ((∀ r ∈ rs₁, ∀ index, ∀ h : index < r.info.outputs.length,
        OwnOutput keys r.info.outputs[index] →
          RefersTo (rs₁.map (·.info)) r.info.txHash index →
            seen (arrivals rs₁) r.info.txHash index = true) ∧
      ∀ r ∈ rs₁, ∀ index, index < r.info.outputs.length →
        seen (arrivals rs₁) r.info.txHash index = seen (arrivals rs₂) r.info.txHash index)
    ⟨fun ⟨own,same⟩ => ⟨own,same⟩,fun follow => ⟨follow.own,follow.same⟩⟩

/-- Every script can be read and both orders are in order. -/
def InOrder (D : Digests) (keys : List UserKeyInfo) (l₁ l₂ : List Transaction) : Prop :=
  ∃ rs₁ rs₂, l₁.mapM (received D keys) = .ok rs₁ ∧ l₂.mapM (received D keys) = .ok rs₂ ∧
    Arrives keys [] rs₁ ∧ Arrives keys [] rs₂ ∧ SpendersFollow keys rs₁ rs₂

def DistinctHashes (D : Digests) (txs : List Transaction) : Prop :=
  ∃ hashes, txs.mapM (Transaction.hash D) = .ok hashes ∧ hashes.Nodup

theorem hashed_strings {D : Digests} {txs : List Transaction} (distinct : DistinctHashes D txs) :
    ∃ hashes, List.Forall₂ (fun tx hash => hashString D tx = .ok hash) txs hashes ∧
      hashes.Nodup := by
  obtain ⟨hashes,run,nodup⟩ := distinct
  refine ⟨hashes.map fun hash => toHexString hash.data,?_,?_⟩
  · have each := mapM_ran.mp run
    rw [List.forall₂_map_right_iff]
    apply each.imp
    intro tx hash first
    rw [hashString, bind_ready first]
    rfl
  · have injective : Function.Injective fun hash : SHA256Hash => toHexString hash.data := by
      intro a b same
      cases a
      cases b
      simpa using toHexString_injective same
    exact List.Nodup.map injective nodup


theorem distinct_perm {D : Digests} {l₁ l₂ : List Transaction} (perm : l₁.Perm l₂)
    (distinct : DistinctHashes D l₁) : DistinctHashes D l₂ := by
  obtain ⟨hashes,run,nodup⟩ := distinct
  obtain ⟨hashes',run',perm'⟩ := mapM_perm perm run
  exact ⟨hashes',run',perm'.nodup_iff.mp nodup⟩

theorem received_perm {D : Digests} {keys : List UserKeyInfo} {l₁ l₂ : List Transaction}
    (perm : l₁.Perm l₂) {rs₁ rs₂ : List Received} (read₁ : l₁.mapM (received D keys) = .ok rs₁)
    (read₂ : l₂.mapM (received D keys) = .ok rs₂) : rs₁.Perm rs₂ := by
  obtain ⟨rs,read,perm'⟩ := mapM_perm perm read₁
  rw [read₂] at read
  cases read
  exact perm'

theorem inputsOfKey_inputs {D : Digests} {publicKeyHash : List Char} {inputs : List Input}
    {found : List OutPoint} (run : inputsOfKey D publicKeyHash inputs = .ok found) :
    ∀ o ∈ found, ∃ input ∈ inputs, input.outPoint = o := by
  induction inputs generalizing found with
  | nil =>
    cases run
    simp
  | cons input inputs ih =>
    obtain ⟨extracted,_,run⟩ := bind_ran.mp run
    obtain ⟨rest,later,run⟩ := bind_ran.mp run
    have onward : ∀ o ∈ rest, ∃ source ∈ input :: inputs, source.outPoint = o := by
      intro o mem
      obtain ⟨source,inside,same⟩ := ih later o mem
      exact ⟨source,List.mem_cons_of_mem input inside,same⟩
    cases run
    intro o mem
    split at mem
    · rcases List.mem_cons.mp mem with rfl | mem
      · exact ⟨input,by simp,rfl⟩
      · exact onward o mem
    · exact onward o mem

/-- What is looked at is an input that is saved. -/
theorem received_inputs {D : Digests} {keys : List UserKeyInfo} {tx : Transaction} {r : Received}
    (read : received D keys tx = .ok r) :
    ∀ o ∈ r.inputs, ∃ input ∈ r.info.inputs, input.outPoint = .create o := by
  obtain ⟨made,extracted⟩ := received_parts read
  obtain ⟨perKey,each,flat⟩ := bind_ran.mp extracted
  have flat := Except.ok.inj flat
  intro o mem
  rw [← flat] at mem
  obtain ⟨one,inside,mem⟩ := List.mem_flatten.mp mem
  obtain ⟨key,_,run⟩ := mapM_source each one inside
  obtain ⟨source,there,rfl⟩ := inputsOfKey_inputs run o mem
  obtain ⟨_,saved,_⟩ := create_parts made
  obtain ⟨input,stored,made⟩ := mapM_image saved source there
  obtain ⟨script,_,made⟩ := bind_ran.mp made
  obtain ⟨hash160,_,made⟩ := bind_ran.mp made
  cases made
  exact ⟨_,stored,rfl⟩

theorem seen_refersTo {D : Digests} {keys : List UserKeyInfo} {txs : List Transaction}
    {rs : List Received} (read : txs.mapM (received D keys) = .ok rs) {txHash : List Char}
    {index : Nat} (spent : seen (arrivals rs) txHash index = true) :
    RefersTo (rs.map (·.info)) txHash index := by
  obtain ⟨e,mem,refers⟩ := seen_referred spent
  obtain ⟨r,inside,rfl⟩ := List.mem_map.mp mem
  obtain ⟨tx,_,ran⟩ := mapM_source read r inside
  obtain ⟨o,looked,same⟩ := List.mem_map.mp refers
  obtain ⟨input,saved,there⟩ := received_inputs ran o looked
  cases same
  exact ⟨r.info,List.mem_map_of_mem inside,input,saved,there⟩

theorem refersTo_flagged {spent : List Char → Nat → Bool} {infos : List TransactionInfo}
    {txHash : List Char} {index : Nat} :
    RefersTo (flagged spent infos) txHash index ↔ RefersTo infos txHash index := by
  simp [RefersTo, flagged, flagInfo]

theorem refersTo_perm {infos infos' : List TransactionInfo} (perm : infos.Perm infos')
    {txHash : List Char} {index : Nat} :
    RefersTo infos txHash index ↔ RefersTo infos' txHash index := by
  simp [RefersTo, perm.mem_iff]

theorem isSpent_flagged {spent : List Char → Nat → Bool} {infos : List TransactionInfo}
    (distinct : (infos.map (·.txHash)).Nodup) {info : TransactionInfo} (mem : info ∈ infos)
    (index : Nat) :
    isSpent (flagged spent infos) info.txHash index =
      (info.outputs[index]?).map fun _ => spent info.txHash index := by
  have found : fetch infos info.txHash ≠ none := by
    intro missing
    exact fetch_none.mp missing info mem rfl
  obtain ⟨place,look⟩ := Option.ne_none_iff_exists'.mp found
  obtain ⟨other,there,same⟩ := fetch_some look
  obtain ⟨k,bound,rfl⟩ := List.getElem_of_mem mem
  have here := same_place distinct there (List.getElem?_eq_getElem bound) same
  subst here
  unfold isSpent
  rw [fetch_flagged, look, Option.bind_eq_bind, Option.bind_some, flagged_at,
    List.getElem?_eq_getElem bound, Option.map_some, Option.bind_eq_bind, Option.bind_some,
    flagInfo, List.getElem?_mapIdx]
  cases infos[place].outputs[index]? <;> rfl

theorem isSpent_missing {spent : List Char → Nat → Bool} {infos : List TransactionInfo}
    {txHash : List Char} (missing : ∀ info ∈ infos, info.txHash ≠ txHash) (index : Nat) :
    isSpent (flagged spent infos) txHash index = none := by
  unfold isSpent
  rw [fetch_flagged, fetch_none.mpr missing]
  rfl

section Orders

variable {rs₁ rs₂ : List Received} (perm : rs₁.Perm rs₂)
  (same : ∀ r ∈ rs₁, ∀ index, index < r.info.outputs.length →
    seen (arrivals rs₁) r.info.txHash index = seen (arrivals rs₂) r.info.txHash index)
include perm same

theorem unspentOf_perm {α : Type} (publicKeyHash : List Char)
    (value : List Char → Nat → Int64 → α) :
    (unspentOf rs₁ publicKeyHash value).Perm (unspentOf rs₂ publicKeyHash value) := by
  have each : unspentOf rs₁ publicKeyHash value = rs₁.flatMap fun r =>
      r.info.outputs.zipIdx.filterMap fun slot =>
        if publicKeyHash = slot.1.pubKeyHash ∧
            seen (arrivals rs₂) r.info.txHash slot.2 = false then
          some (value r.info.txHash slot.2 slot.1.value)
        else none := by
    apply List.flatMap_congr
    intro r mem
    apply List.filterMap_congr
    rintro ⟨output,index⟩ inside
    have slot := List.mk_mem_zipIdx_iff_getElem?.mp inside
    have bound := (List.getElem?_eq_some_iff.mp slot).1
    dsimp only
    rw [same r mem index bound]
  rw [each]
  exact perm.flatMap_right _

theorem flags_agree (distinct : (rs₁.map (·.info.txHash)).Nodup) (txHash : List Char)
    (index : Nat) :
    isSpent (flagged (seen (arrivals rs₁)) (rs₁.map (·.info))) txHash index =
      isSpent (flagged (seen (arrivals rs₂)) (rs₂.map (·.info))) txHash index := by
  have infos : (rs₁.map (·.info)).Perm (rs₂.map (·.info)) := perm.map _
  have distinct₁ : ((rs₁.map (·.info)).map (·.txHash)).Nodup := by rwa [List.map_map]
  have distinct₂ := (infos.map (·.txHash)).nodup_iff.mp distinct₁
  by_cases stored : ∃ r ∈ rs₁, r.info.txHash = txHash
  · obtain ⟨r,mem,rfl⟩ := stored
    have there : r.info ∈ rs₁.map (·.info) := List.mem_map_of_mem mem
    rw [isSpent_flagged distinct₁ there, isSpent_flagged distinct₂ (infos.mem_iff.mp there)]
    cases slot : r.info.outputs[index]? with
    | none => rfl
    | some output =>
      rw [Option.map_some, Option.map_some, same r mem index (List.getElem?_eq_some_iff.mp slot).1]
  · have missing : ∀ info ∈ rs₁.map (·.info), info.txHash ≠ txHash := by
      intro info mem clash
      obtain ⟨r,inside,rfl⟩ := List.mem_map.mp mem
      exact stored ⟨r,inside,clash⟩
    rw [isSpent_missing missing,
      isSpent_missing fun info mem => missing info (infos.mem_iff.mpr mem)]

end Orders

theorem settled_key {keys : List UserKeyInfo} {rs : List Received} {k : Nat} {key : UserKeyInfo}
    (there : (settled keys rs).userKeys[k]? = some key) :
    ∃ source, keys[k]? = some source ∧ unspentOutPoints (settled keys rs) key =
      unspentOf rs source.publicKeyHash fun txHash index _ => (txHash,index) := by
  have stored : (settled keys rs).userKeys = keys.map fun key =>
      { key with UTXOs := unspentLinks (settled keys rs).transactions key.publicKeyHash } := rfl
  rw [stored, List.getElem?_map] at there
  obtain ⟨source,found,rfl⟩ := Option.map_eq_some_iff.mp there
  exact ⟨source,found,read_settled keys rs source.publicKeyHash fun txHash index _ => (txHash,index)⟩

/-- A saved output of the settled database, and what its flag says. -/
theorem settled_output {keys : List UserKeyInfo} {rs : List Received} {info : TransactionInfo}
    (mem : info ∈ (settled keys rs).transactions) :
    ∃ r ∈ rs, info.txHash = r.info.txHash ∧
      ∀ (index : Nat) (output : TransactionOutputInfo), info.outputs[index]? = some output →
      ∃ source, r.info.outputs[index]? = some source ∧
        output = { source with isSpent := seen (arrivals rs) r.info.txHash index } := by
  obtain ⟨original,inside,rfl⟩ := List.mem_map.mp mem
  obtain ⟨r,there,rfl⟩ := List.mem_map.mp inside
  refine ⟨r,there,rfl,?_⟩
  intro index output slot
  rw [flagInfo, List.getElem?_mapIdx] at slot
  obtain ⟨source,found,rfl⟩ := Option.map_eq_some_iff.mp slot
  exact ⟨source,found,rfl⟩

section Outcome

variable {D : Digests} {keys : List UserKeyInfo} {rs₁ rs₂ : List Received}

theorem follow_of_same (same : SameOutcome keys (settled keys rs₁) (settled keys rs₂))
    (distinct : (rs₁.map (·.info.txHash)).Nodup) (perm : rs₁.Perm rs₂) :
    SpendersFollow keys rs₁ rs₂ := by
  have infos : (rs₁.map (·.info)).Perm (rs₂.map (·.info)) := perm.map _
  have distinct₁ : ((rs₁.map (·.info)).map (·.txHash)).Nodup := by rwa [List.map_map]
  have distinct₂ := (infos.map (·.txHash)).nodup_iff.mp distinct₁
  constructor
  · intro r mem index bound own refers
    have there : r.info ∈ rs₁.map (·.info) := List.mem_map_of_mem mem
    have stored : flagInfo (seen (arrivals rs₁)) r.info ∈ (settled keys rs₁).transactions :=
      List.mem_map_of_mem there
    exact (same.marked _ (by simp) _ stored index _ (flagInfo_slot bound) own).mpr
      (refersTo_flagged.mpr refers)
  · intro r mem index bound
    have there : r.info ∈ rs₁.map (·.info) := List.mem_map_of_mem mem
    have flags := same.flags r.info.txHash index
    change isSpent (flagged _ _) _ _ = isSpent (flagged _ _) _ _ at flags
    rw [isSpent_flagged distinct₁ there, isSpent_flagged distinct₂ (infos.mem_iff.mp there),
      List.getElem?_eq_getElem bound] at flags
    exact Option.some.inj flags

theorem same_of_follow {l₁ : List Transaction} (read₁ : l₁.mapM (received D keys) = .ok rs₁)
    (follow : SpendersFollow keys rs₁ rs₂) (distinct : (rs₁.map (·.info.txHash)).Nodup)
    (perm : rs₁.Perm rs₂) (fit₁ : BalancesFit keys rs₁) (fit₂ : BalancesFit keys rs₂) :
    SameOutcome keys (settled keys rs₁) (settled keys rs₂) := by
  have infos : (rs₁.map (·.info)).Perm (rs₂.map (·.info)) := perm.map _
  have spent : ∀ r ∈ rs₁, ∀ index source, r.info.outputs[index]? = some source →
      OwnOutput keys source → (seen (arrivals rs₁) r.info.txHash index = true ↔
        RefersTo (rs₁.map (·.info)) r.info.txHash index) := by
    intro r mem index source slot own
    obtain ⟨bound,here⟩ := List.getElem?_eq_some_iff.mp slot
    subst here
    exact ⟨seen_refersTo read₁,follow.own r mem index bound own⟩
  constructor
  case flags => exact flags_agree perm follow.same distinct
  case unspent =>
    intro k key₁ key₂ there₁ there₂ o
    obtain ⟨source,found,outs₁⟩ := settled_key there₁
    obtain ⟨source',found',outs₂⟩ := settled_key there₂
    rw [found] at found'
    cases found'
    rw [outs₁, outs₂]
    exact (unspentOf_perm perm follow.same _ _).mem_iff
  case balance =>
    obtain ⟨b,sum⟩ := balancesFit_iff.mpr fit₁
    refine ⟨b,sum,calculateBalance_ok.mpr ⟨fit₂,?_⟩⟩
    rw [(calculateBalance_ok.mp sum).2]
    congr 1
    apply List.map_congr_left
    intro key _
    exact ((unspentOf_perm perm follow.same key.publicKeyHash _).map Int64.toInt).sum_eq
  case marked =>
    intro s either info stored index output slot own
    have saved₁ : RefersTo (settled keys rs₁).transactions info.txHash index ↔
        RefersTo (rs₁.map (·.info)) info.txHash index := refersTo_flagged
    have saved₂ : RefersTo (settled keys rs₂).transactions info.txHash index ↔
        RefersTo (rs₁.map (·.info)) info.txHash index :=
      refersTo_flagged.trans (refersTo_perm infos).symm
    rcases List.mem_cons.mp either with rfl | either
    · obtain ⟨r,mem,hash,slots⟩ := settled_output stored
      obtain ⟨source,found,rfl⟩ := slots index output slot
      rw [saved₁, hash]
      exact spent r mem index source found own
    · cases List.mem_singleton.mp either
      obtain ⟨r,mem,hash,slots⟩ := settled_output stored
      obtain ⟨source,found,rfl⟩ := slots index output slot
      have mem₁ := perm.mem_iff.mpr mem
      rw [saved₂, hash, ← spent r mem₁ index source found own,
        follow.same r mem₁ index (List.getElem?_eq_some_iff.mp found).1]

end Outcome

theorem run_settled {D : Digests} {keys : List UserKeyInfo} {txs : List Transaction}
    (distinct : DistinctHashes D txs) {s : Store} :
    addAll D (emptyStore keys) txs = .ok s ↔
      ∃ rs, txs.mapM (received D keys) = .ok rs ∧ Arrives keys [] rs ∧ s = settled keys rs := by
  obtain ⟨hashes,hashed,nodup⟩ := hashed_strings distinct
  rw [emptyStore_settled, addAll_settled hashed (by simpa using nodup)]
  simp only [List.nil_append]

theorem received_distinct {D : Digests} {keys : List UserKeyInfo} {txs : List Transaction}
    (distinct : DistinctHashes D txs) {rs : List Received}
    (read : txs.mapM (received D keys) = .ok rs) : (rs.map (·.info.txHash)).Nodup := by
  obtain ⟨hashes,hashed,nodup⟩ := hashed_strings distinct
  rwa [received_hashes hashed (mapM_ran.mp read)]

/-- Two orders leave the same wallet exactly when both are in order. -/
theorem orders_agree_iff (D : Digests) (keys : List UserKeyInfo) (l₁ l₂ : List Transaction)
    (perm : l₁.Perm l₂) (distinct : DistinctHashes D l₁) :
    OrderIndependent D keys l₁ l₂ ↔ InOrder D keys l₁ l₂ := by
  have distinct₂ := distinct_perm perm distinct
  constructor
  · rintro ⟨s₁,s₂,run₁,run₂,same⟩
    obtain ⟨rs₁,read₁,arrives₁,rfl⟩ := (run_settled distinct).mp run₁
    obtain ⟨rs₂,read₂,arrives₂,rfl⟩ := (run_settled distinct₂).mp run₂
    exact ⟨rs₁,rs₂,read₁,read₂,arrives₁,arrives₂,
      follow_of_same same (received_distinct distinct read₁) (received_perm perm read₁ read₂)⟩
  · rintro ⟨rs₁,rs₂,read₁,read₂,arrives₁,arrives₂,follow⟩
    have fit₁ := arrives_fit arrives₁ (nothing_fits keys)
    have fit₂ := arrives_fit arrives₂ (nothing_fits keys)
    exact ⟨settled keys rs₁,settled keys rs₂,
      (run_settled distinct).mpr ⟨rs₁,read₁,arrives₁,rfl⟩,
      (run_settled distinct₂).mpr ⟨rs₂,read₂,arrives₂,rfl⟩,
      same_of_follow read₁ follow (received_distinct distinct read₁)
        (received_perm perm read₁ read₂) fit₁ fit₂⟩

/-- Each input that refers to a transaction of the list names an output it has
    and, if that is an own one, carries its owner's key. -/
def OwnersSign (keys : List UserKeyInfo) (infos : List TransactionInfo) : Prop :=
  ∀ info ∈ infos, ∀ input ∈ info.inputs, ∀ source ∈ infos,
    source.txHash = input.outPoint.txHash →
      input.outPoint.index < source.outputs.length ∧
        ∀ output ∈ source.outputs[input.outPoint.index]?,
          OwnOutput keys output → input.hash160 = output.pubKeyHash

instance (keys : List UserKeyInfo) (infos : List TransactionInfo) :
    Decidable (OwnersSign keys infos) :=
  inferInstanceAs (Decidable (∀ info ∈ infos, ∀ input ∈ info.inputs, ∀ source ∈ infos,
    source.txHash = input.outPoint.txHash →
      input.outPoint.index < source.outputs.length ∧
        ∀ output ∈ source.outputs[input.outPoint.index]?,
          OwnOutput keys output → input.hash160 = output.pubKeyHash))

/-- A wallet with one key, a transaction that pays it and one that spends this. -/
def ownKeyHash : List UInt8 := serialize 0x751e76e8199196d454941c45d1b3a323f1433bd6

def ownPublicKey : List UInt8 :=
  0x02 :: serialize 0x79be667ef9dcbbac55a06295ce870b07029bfcdb2dce28d959f2815b16f81798

def ownKey : UserKeyInfo where
  privateKey := toHexString [0x01]
  uncompressedPublicKey := toHexString (0x04 ::
    (serialize 0x79be667ef9dcbbac55a06295ce870b07029bfcdb2dce28d959f2815b16f81798 ++
      serialize 0x483ada7726a3c4655da4fbfc0e1108a8fd17b448a68554199c47d08ffb10d4b8))
  publicKeyHash := toHexString ownKeyHash
  UTXOs := []

def payToHash (hash : List UInt8) : List UInt8 := [0x76, 0xa9, 0x14] ++ hash ++ [0x88, 0xac]

def fund : Transaction where
  version := 1
  inputs := [{
    outPoint := { transactionHash := ⟨List.replicate 32 0x11,List.length_replicate⟩, index := 0 }
    scriptSignature := []
    sequence := 0xffffffff
    userKey := none }]
  outputs := [{ value := 5000, script := payToHash ownKeyHash }]
  lockTime := .AlwaysLocked
  hasOutput := Nat.one_pos

theorem fundHash_length : (serialize
    0x6cd7023f173f332550d386d794dca76ed8285dd0c0131c67391637b151e023ad).length = 32 := by decide

def fundHash : SHA256Hash :=
  ⟨serialize 0x6cd7023f173f332550d386d794dca76ed8285dd0c0131c67391637b151e023ad,fundHash_length⟩

/-- Another coin for the same key. -/
def secondFund : Transaction where
  version := 1
  inputs := [{
    outPoint := { transactionHash := ⟨List.replicate 32 0x22,List.length_replicate⟩, index := 0 }
    scriptSignature := []
    sequence := 0xffffffff
    userKey := none }]
  outputs := [{ value := 7000, script := payToHash ownKeyHash }]
  lockTime := .AlwaysLocked
  hasOutput := Nat.one_pos

def secondFundHash : SHA256Hash :=
  ⟨serialize 0xa62a649b6853a49c14dbde7aed14023843f136930933caf6b46b692d9d34b8df,by decide⟩

def spendSignature : List UInt8 :=
  serialize 0x30440220033af2b228a3ced1ffe6a28fd86cf7eb18e244e0b0c21dff688575d58ff323810220404a43ef4971071784d43fced61a8a7c2fe306e98116329167df7477455a6a9201

def spendFund : Transaction where
  version := 1
  inputs := [{
    outPoint := { transactionHash := fundHash, index := 0 }
    scriptSignature := [71] ++ spendSignature ++ [33] ++ ownPublicKey
    sequence := 0xffffffff
    userKey := none }]
  outputs := [{
    value := 4000
    script := payToHash (serialize 0x06afd46bcdfd22ef94ac122aa11f241244a37ecc) }]
  lockTime := .AlwaysLocked
  hasOutput := Nat.one_pos

def fundDigests : Digests :=
  Digests.known
    [(encodeParts 1 fund.inputs fund.outputs 0,
        serialize 0x1c6162fac18917000064d90e6040496a378c65385374d7a15f5b89366143ee81),
      (serialize 0x1c6162fac18917000064d90e6040496a378c65385374d7a15f5b89366143ee81,
        serialize 0xad23e051b1371639671c13c0d05d28d86ea7dc94d786d35025333f173f02d76c),
      (encodeParts 1 secondFund.inputs secondFund.outputs 0,
        serialize 0x985ff337a8d45970eae595844be4a27a4a86d2dfc910de39b9944833c7433dad),
      (serialize 0x985ff337a8d45970eae595844be4a27a4a86d2dfc910de39b9944833c7433dad,
        serialize 0xdfb8349d2d696bb4f6ca33099336f143380214ed7adedb149ca453689b642aa6),
      (encodeParts 1 spendFund.inputs spendFund.outputs 0,
        serialize 0x2c7b5a6c86bb9c6db094e3c994233f8bfc7f5d5e59f550c1bc30b51f2b0ced7f),
      (serialize 0x2c7b5a6c86bb9c6db094e3c994233f8bfc7f5d5e59f550c1bc30b51f2b0ced7f,
        serialize 0x5594aaafe1125cc1748decb1fa902a28602809fbad0b5cc40203dc4c69af7dcf),
      (ownPublicKey, serialize 0x0f715baf5d4c2ed329785cef29e562f73488c8a2bb9dbc5700b361d54b9b0554)]
    [(serialize 0x0f715baf5d4c2ed329785cef29e562f73488c8a2bb9dbc5700b361d54b9b0554, ownKeyHash)]

def spendFundHash : SHA256Hash :=
  ⟨serialize 0xcf7daf694cdc0302c45c0badfb092860282a90fab1ec8d74c15c12e1afaa9455,by decide⟩

def fundReceived (txs : List Transaction) : List Received :=
  match txs.mapM (received fundDigests [ownKey]) with
  | .ok rs => rs
  | .error _ => []

set_option maxRecDepth 8000 in
theorem coins_first_agree :
    OrderIndependent fundDigests [ownKey] [fund, secondFund, spendFund]
      [secondFund, fund, spendFund] :=
  (orders_agree_iff _ _ _ _ (List.Perm.swap _ _ _)
    ⟨[fundHash, secondFundHash, spendFundHash],by decide,by decide⟩).mpr
    ⟨fundReceived [fund, secondFund, spendFund],fundReceived [secondFund, fund, spendFund],
      by decide,by decide,by decide,by decide,by decide⟩

def fundInfos : List TransactionInfo :=
  match [fund, spendFund].mapM (TransactionInfo.create fundDigests) with
  | .ok infos => infos
  | .error _ => []

/-- Whether the coin is marked as spent once these have arrived. -/
def flagAfter (txs : List Transaction) : Except Trap (Option Bool) := do
  let store ← addAll fundDigests (emptyStore [ownKey]) txs
  pure (isSpent store.transactions (toHexString fundHash.data) 0)

set_option maxRecDepth 8000 in
theorem spend_first_not_order_independent :
    [fund, spendFund].Perm [spendFund, fund] ∧ DistinctHashes fundDigests [fund, spendFund] ∧
      [fund, spendFund].mapM (TransactionInfo.create fundDigests) = .ok fundInfos ∧
      OwnersSign [ownKey] fundInfos ∧
      ¬ OrderIndependent fundDigests [ownKey] [fund, spendFund] [spendFund, fund] := by
  refine ⟨List.Perm.swap _ _ _,⟨[fundHash, spendFundHash],by decide,by decide⟩,by decide,
    by decide,?_⟩
  rintro ⟨s₁,s₂,run₁,run₂,same⟩
  have flag₁ : flagAfter [fund, spendFund] = .ok (some true) := by decide
  have flag₂ : flagAfter [spendFund, fund] = .ok (some false) := by decide
  unfold flagAfter at flag₁ flag₂
  rw [bind_ready run₁] at flag₁
  rw [bind_ready run₂, ← same.flags] at flag₂
  have clash := flag₁.symm.trans flag₂
  cases clash

end OrderIndependence
