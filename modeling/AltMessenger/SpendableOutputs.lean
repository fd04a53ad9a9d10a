import Mathlib.Data.List.Nodup
import AltMessenger.WalletHistory
import AltMessenger.OrderIndependence
import AltMessenger.OutputScripts

/-!
Which outputs the keys count as theirs after a run of `add`. The database keeps
the hash of a script and not its form, so an output of another form that
carries the hash of a key is counted as if it paid to the key.
-/
namespace SpendableOutputs
open SwiftRuntime BitcoinHash BitcoinTransaction BitcoinScript WalletStore SpendOrder WalletOrder
open WalletHistory OutputScripts OrderIndependence

/-- The script pays to the hash of the key. -/
def PaysTo (publicKeyHash : List Char) (script : List UInt8) : Prop :=
  ∃ hash : RIPEMD160HASH, publicKeyHash = toHexString hash.bitcoinData ∧
    script = keyHashBytes hash

/-- The script does not pay to the hash of the key, and yet this hash is taken from it. -/
def Mistaken (publicKeyHash : List Char) (script : List UInt8) : Prop :=
  (∃ hash : RIPEMD160HASH, publicKeyHash = toHexString hash.bitcoinData ∧ ∃ extra,
      script = scriptHashBytes hash ++ extra ∨ extra ≠ [] ∧ script = keyHashBytes hash ++ extra) ∨
    publicKeyHash = [] ∧ ∀ found extra, script ≠ bitcoinData found ++ extra

/-- A stored output that is not marked spent and, by the script it came with, pays to the key. -/
def Spendable (D : Digests) (txs : List Transaction) (s : Store) (publicKeyHash : List Char)
    (link : OutputLink) : Prop :=
  ∃ tx output stored, (saved D txs)[link.tx]? = some tx ∧ tx.outputs[link.output]? = some output ∧
    linked s link = some stored ∧ stored.isSpent = false ∧ PaysTo publicKeyHash output.script

/-- The lists of the keys are those of their spendable outputs. -/
structure OnlySpendable (D : Digests) (txs : List Transaction) (s : Store) : Prop where
  once : ∀ key ∈ s.userKeys, key.UTXOs.Nodup
  listed : ∀ key ∈ s.userKeys, ∀ link,
    link ∈ key.UTXOs ↔ Spendable D txs s key.publicKeyHash link
  counted : ∀ key ∈ s.userKeys, ∀ stored ∈ utxos s key, ∃ link,
    linked s link = some stored ∧ Spendable D txs s key.publicKeyHash link

/-- An own input of the transaction names this output of its own. -/
def SpendsItself (D : Digests) (keys : List UserKeyInfo) (tx : Transaction) (index : Nat) : Prop :=
  ∃ hash inputs, hashString D tx = .ok hash ∧ extractRelevantInputs D keys tx = .ok inputs ∧
    (hash,index) ∈ inputs.map reference

/-- No output of the transaction is mistaken for one of an own key, or it is spent at once. -/
def Plain (D : Digests) (keys : List UserKeyInfo) (tx : Transaction) : Prop :=
  ∀ (index : Nat) (output : Output), tx.outputs[index]? = some output → ∀ key ∈ keys,
    Mistaken key.publicKeyHash output.script → SpendsItself D keys tx index

theorem keyHash_form (hash : RIPEMD160HASH) :
    keyHashBytes hash = bitcoinData (.P2PKH ⟨hash⟩) := by
  rw [bitcoinData, keyHash_written]

theorem scriptHash_form (hash : RIPEMD160HASH) :
    scriptHashBytes hash = bitcoinData (.P2SH ⟨hash⟩) := by
  rw [bitcoinData, scriptHash_written]

/-- An exact script of a key hash is mistaken for nothing. -/
theorem keyHashBytes_plain {hash : RIPEMD160HASH} {publicKeyHash : List Char} :
    ¬ Mistaken publicKeyHash (keyHashBytes hash) := by
  have written : keyHashBytes hash = bitcoinData (.P2PKH ⟨hash⟩) ++ [] := by
    rw [keyHash_form, List.append_nil]
  rintro (⟨other,_,extra,same | ⟨more,same⟩⟩ | ⟨_,unlike⟩)
  · rw [written, scriptHash_form] at same
    have forms := (bitcoinData_injective same).1
    cases forms
  · rw [written, keyHash_form] at same
    exact more (bitcoinData_injective same).2.symm
  · exact unlike _ _ written

theorem paysTo_not_mistaken {publicKeyHash : List Char} {script : List UInt8}
    (pays : PaysTo publicKeyHash script) : ¬ Mistaken publicKeyHash script := by
  obtain ⟨hash,_,rfl⟩ := pays
  exact keyHashBytes_plain

/-- A recognised script gives a key its hash as its own form or as another. -/
theorem recognised_hash (script : OutputScript) (extra : List UInt8) (publicKeyHash : List Char) :
    publicKeyHash = toHexString script.hash160.bitcoinData ↔
      PaysTo publicKeyHash (bitcoinData script ++ extra) ∨
        Mistaken publicKeyHash (bitcoinData script ++ extra) := by
  constructor
  · intro same
    cases script with
    | P2PKH script =>
      by_cases more : extra = []
      · subst more
        exact Or.inl ⟨script.hash160,same,by rw [keyHash_form, List.append_nil]⟩
      · exact Or.inr (Or.inl ⟨script.hash160,same,extra,Or.inr ⟨more,by rw [keyHash_form]⟩⟩)
    | P2SH script =>
      exact Or.inr (Or.inl ⟨script.hash160,same,extra,Or.inl (by rw [scriptHash_form])⟩)
  · rintro (⟨hash,same,form⟩ | ⟨hash,same,extra',form | ⟨_,form⟩⟩ | ⟨_,unlike⟩)
    · rw [keyHash_form, ← List.append_nil (bitcoinData (.P2PKH ⟨hash⟩))] at form
      rw [same, (bitcoinData_injective form).1]
      rfl
    · rw [scriptHash_form] at form
      rw [same, (bitcoinData_injective form).1]
      rfl
    · rw [keyHash_form] at form
      rw [same, (bitcoinData_injective form).1]
      rfl
    · exact absurd rfl (unlike script extra)

/-- The hash that is stored for an output is the key's in these two cases. -/
theorem stored_hash {output : Output} {stored : TransactionOutputInfo}
    (made : TransactionOutputInfo.create output = .ok stored) (publicKeyHash : List Char) :
    publicKeyHash = stored.pubKeyHash ↔
      PaysTo publicKeyHash output.script ∨ Mistaken publicKeyHash output.script := by
  obtain ⟨parsed,read,made⟩ := bind_ran.mp made
  cases made
  rcases ofData_cases output.script with ⟨script,extra,same,run⟩ | ⟨_,run⟩ | ⟨_,unlike,run⟩
  · cases run.symm.trans read
    rw [same]
    exact recognised_hash script extra publicKeyHash
  · cases run.symm.trans read
  · cases run.symm.trans read
    change publicKeyHash = [] ↔ _
    constructor
    · intro none
      exact Or.inr (Or.inr ⟨none,unlike⟩)
    · rintro (⟨hash,_,form⟩ | ⟨hash,_,extra,form | ⟨_,form⟩⟩ | ⟨none,_⟩)
      · rw [keyHash_form, ← List.append_nil (bitcoinData (.P2PKH ⟨hash⟩))] at form
        exact absurd form (unlike _ _)
      · rw [scriptHash_form] at form
        exact absurd form (unlike _ _)
      · rw [keyHash_form] at form
        exact absurd form (unlike _ _)
      · exact none

theorem mem_unspentLinks {s : Store} {publicKeyHash : List Char} {link : OutputLink} :
    link ∈ unspentLinks s.transactions publicKeyHash ↔ ∃ stored, linked s link = some stored ∧
      publicKeyHash = stored.pubKeyHash ∧ stored.isSpent = false := by
  rw [unspentLinks, List.mem_flatMap]
  constructor
  · rintro ⟨⟨info,tx⟩,here,inside⟩
    obtain ⟨⟨output,index⟩,slot,found⟩ := List.mem_filterMap.mp inside
    have here := List.mk_mem_zipIdx_iff_getElem?.mp here
    have slot := List.mk_mem_zipIdx_iff_getElem?.mp slot
    dsimp only at found
    split at found
    · rename_i counts
      cases found
      refine ⟨output,?_,counts⟩
      rw [linked, here]
      exact slot
    · cases found
  · rintro ⟨stored,there,counts⟩
    obtain ⟨info,here,slot⟩ := Option.bind_eq_some_iff.mp there
    refine ⟨(info,link.tx),List.mk_mem_zipIdx_iff_getElem?.mpr here,
      List.mem_filterMap.mpr ⟨(stored,link.output),List.mk_mem_zipIdx_iff_getElem?.mpr slot,?_⟩⟩
    exact if_pos counts

theorem zipIdx_apart {α : Type} (xs : List α) :
    xs.zipIdx.Pairwise fun a b => a.2 ≠ b.2 := by
  apply List.pairwise_map.mp
  rw [List.zipIdx_map_snd]
  exact List.nodup_range'

theorem unspentLinks_nodup (infos : List TransactionInfo) (publicKeyHash : List Char) :
    (unspentLinks infos publicKeyHash).Nodup := by
  rw [unspentLinks, List.nodup_flatMap]
  constructor
  · rintro ⟨info,tx⟩ _
    refine (zipIdx_apart info.outputs).filterMap _ ?_
    rintro ⟨output,index⟩ ⟨output',index'⟩ apart link found link' found' same
    dsimp only at found found'
    split at found
    · split at found'
      · cases found
        cases found'
        exact apart (congrArg OutputLink.output same)
      · cases found'
    · cases found
  · refine (zipIdx_apart infos).imp ?_
    rintro ⟨info,tx⟩ ⟨info',tx'⟩ apart link mem mem'
    obtain ⟨⟨output,index⟩,_,found⟩ := List.mem_filterMap.mp mem
    obtain ⟨⟨output',index'⟩,_,found'⟩ := List.mem_filterMap.mp mem'
    dsimp only at found found'
    split at found
    · split at found'
      · cases found
        exact apart (congrArg OutputLink.tx (Option.some.inj found').symm)
      · cases found'
    · cases found

theorem slot_left {α β : Type} {R : α → β → Prop} {xs : List α} {ys : List β}
    (each : List.Forall₂ R xs ys) {i : Nat} {y : β} (there : ys[i]? = some y) :
    ∃ x, xs[i]? = some x ∧ R x y := by
  induction each generalizing i with
  | nil => simp at there
  | cons first _ ih =>
    cases i with
    | zero =>
      cases there
      exact ⟨_,rfl,first⟩
    | succ i => exact ih there

theorem slot_right {α β : Type} {R : α → β → Prop} {xs : List α} {ys : List β}
    (each : List.Forall₂ R xs ys) {i : Nat} {x : α} (there : xs[i]? = some x) :
    ∃ y, ys[i]? = some y ∧ R x y :=
  slot_left each.flip there

theorem received_outputs {D : Digests} {keys : List UserKeyInfo} {tx : Transaction} {r : Received}
    (read : received D keys tx = .ok r) :
    List.Forall₂ (fun output made => TransactionOutputInfo.create output = .ok made) tx.outputs
      r.info.outputs := by
  obtain ⟨_,_,each⟩ := create_parts (received_parts read).1
  exact mapM_ran.mp each

section Settled

variable {D : Digests} {keys : List UserKeyInfo} {txs : List Transaction} {rs : List Received}

theorem linked_settled (read : List.Forall₂ (fun tx r => received D keys tx = .ok r) txs rs)
    {link : OutputLink} {stored : TransactionOutputInfo}
    (there : linked (settled keys rs) link = some stored) :
    ∃ tx output r made, txs[link.tx]? = some tx ∧ tx.outputs[link.output]? = some output ∧
      rs[link.tx]? = some r ∧ TransactionOutputInfo.create output = .ok made ∧
      stored = { made with isSpent := seen (arrivals rs) r.info.txHash link.output } := by
  obtain ⟨info,here,slot⟩ := Option.bind_eq_some_iff.mp there
  change (flagged _ _)[link.tx]? = some info at here
  rw [flagged_at, List.getElem?_map] at here
  obtain ⟨original,found,rfl⟩ := Option.map_eq_some_iff.mp here
  obtain ⟨r,place,rfl⟩ := Option.map_eq_some_iff.mp found
  rw [flagInfo, List.getElem?_mapIdx] at slot
  obtain ⟨made,inside,rfl⟩ := Option.map_eq_some_iff.mp slot
  obtain ⟨tx,source,one⟩ := slot_left read place
  obtain ⟨output,written,create⟩ := slot_left (received_outputs one) inside
  exact ⟨tx,output,r,made,source,written,place,create,rfl⟩

theorem linked_received (link : OutputLink)
    (read : List.Forall₂ (fun tx r => received D keys tx = .ok r) txs rs) {tx : Transaction}
    {output : Output} (source : txs[link.tx]? = some tx)
    (written : tx.outputs[link.output]? = some output) :
    ∃ r made, rs[link.tx]? = some r ∧ TransactionOutputInfo.create output = .ok made ∧
      linked (settled keys rs) link =
        some { made with isSpent := seen (arrivals rs) r.info.txHash link.output } := by
  obtain ⟨r,place,one⟩ := slot_right read source
  obtain ⟨made,inside,create⟩ := slot_right (received_outputs one) written
  refine ⟨r,made,place,create,?_⟩
  change ((flagged _ _)[link.tx]?).bind _ = _
  rw [flagged_at, List.getElem?_map, place]
  change (flagInfo _ r.info).outputs[link.output]? = _
  rw [flagInfo, List.getElem?_mapIdx, inside]
  rfl

/-- What is mistaken for an output of a key is marked as spent. -/
def MistakenSpent (keys : List UserKeyInfo) (txs : List Transaction) (rs : List Received) : Prop :=
  ∀ (i j : Nat) (tx : Transaction) (output : Output) (r : Received), txs[i]? = some tx →
    tx.outputs[j]? = some output → rs[i]? = some r →
      ∀ key ∈ keys, Mistaken key.publicKeyHash output.script →
        seen (arrivals rs) r.info.txHash j = true

theorem onlySpendable_settled
    (read : List.Forall₂ (fun tx r => received D keys tx = .ok r) (saved D txs) rs) :
    OnlySpendable D txs (settled keys rs) ↔ MistakenSpent keys (saved D txs) rs := by
  have listed : ∀ key ∈ (settled keys rs).userKeys, ∃ source ∈ keys,
      key = { source with
        UTXOs := unspentLinks (settled keys rs).transactions source.publicKeyHash } := by
    intro key mem
    obtain ⟨source,there,same⟩ := List.mem_map.mp mem
    exact ⟨source,there,same.symm⟩
  constructor
  · intro only i j tx output r source written place key mem mistaken
    obtain ⟨r',made,place',create,there⟩ := linked_received ⟨i,j⟩ read source written
    cases place.symm.trans place'
    by_contra unspent
    rw [Bool.not_eq_true] at unspent
    have inside : (⟨i,j⟩ : OutputLink) ∈
        unspentLinks (settled keys rs).transactions key.publicKeyHash :=
      mem_unspentLinks.mpr ⟨_,there,(stored_hash create _).mpr (Or.inr mistaken),unspent⟩
    obtain ⟨tx',output',_,source',written',_,_,pays⟩ :=
      (only.listed _ (List.mem_map_of_mem mem) _).mp inside
    cases source.symm.trans source'
    cases written.symm.trans written'
    exact paysTo_not_mistaken pays mistaken
  · intro spent
    have exact_links : ∀ source ∈ keys, ∀ link,
        link ∈ unspentLinks (settled keys rs).transactions source.publicKeyHash ↔
          Spendable D txs (settled keys rs) source.publicKeyHash link := by
      intro source mem link
      rw [mem_unspentLinks]
      constructor
      · rintro ⟨stored,there,hash,unspent⟩
        obtain ⟨tx,output,r,made,found,written,place,create,rfl⟩ := linked_settled read there
        refine ⟨tx,output,_,found,written,there,unspent,?_⟩
        refine ((stored_hash create _).mp hash).resolve_right fun mistaken => ?_
        have marked := spent _ _ _ _ _ found written place source mem mistaken
        exact Bool.noConfusion (marked.symm.trans unspent)
      · rintro ⟨tx,output,stored,found,written,there,unspent,pays⟩
        obtain ⟨r,made,place,create,there'⟩ := linked_received link read found written
        cases there.symm.trans there'
        exact ⟨_,there,(stored_hash create _).mpr (Or.inl pays),unspent⟩
    constructor
    case once =>
      intro key mem
      obtain ⟨source,_,rfl⟩ := listed key mem
      exact unspentLinks_nodup _ _
    case listed =>
      intro key mem
      obtain ⟨source,there,rfl⟩ := listed key mem
      exact exact_links source there
    case counted =>
      intro key mem stored counted
      obtain ⟨source,there,rfl⟩ := listed key mem
      obtain ⟨link,inside,found⟩ := List.mem_filterMap.mp counted
      exact ⟨link,found,(exact_links source there link).mp inside⟩

theorem spendsItself_iff {tx : Transaction} {r : Received} (read : received D keys tx = .ok r)
    (index : Nat) :
    SpendsItself D keys tx index ↔ (r.info.txHash,index) ∈ r.inputs.map reference := by
  obtain ⟨made,extracted⟩ := received_parts read
  obtain ⟨hashed,_⟩ := create_parts made
  constructor
  · rintro ⟨hash,inputs,hashed',extracted',named⟩
    cases hashed.symm.trans hashed'
    cases extracted.symm.trans extracted'
    exact named
  · intro named
    exact ⟨_,_,hashed,extracted,named⟩

/-- Only its own inputs can have spent what the last transaction brought. -/
theorem plain_last {earlier : List Transaction} {tx : Transaction}
    (read : List.Forall₂ (fun tx r => received D keys tx = .ok r) (earlier ++ [tx]) rs)
    (distinct : (rs.map (·.info.txHash)).Nodup)
    (spent : MistakenSpent keys (earlier ++ [tx]) rs) : Plain D keys tx := by
  intro index output written key mem mistaken
  have source : (earlier ++ [tx])[earlier.length]? = some tx := by simp
  obtain ⟨r,place,one⟩ := slot_right read source
  have last : rs.length = earlier.length + 1 := by simpa using read.length_eq.symm
  have split : rs = rs.take earlier.length ++ [r] := by
    have here := List.take_concat_get' rs earlier.length (by omega)
    rw [← last, List.take_length] at here
    rw [(List.getElem?_eq_some_iff.mp place).2] at here
    exact here.symm
  have marked := spent _ _ _ _ _ source written place key mem mistaken
  rw [spendsItself_iff one]
  rw [split] at marked distinct
  have arrived : arrivals (rs.take earlier.length ++ [r]) = arrivals (rs.take earlier.length) ++
      [{ id := r.info.txHash, refers := r.inputs.map reference }] := by
    simp [arrivals]
  rw [arrived, seen_append] at marked
  rcases marked with before | ⟨named,_⟩
  · -- nothing with this hash has arrived before
    obtain ⟨f,inside,same⟩ := seen_present before
    obtain ⟨r',there,rfl⟩ := List.mem_map.mp inside
    rw [List.map_append, List.nodup_append] at distinct
    exact absurd same (distinct.2.2 _ (List.mem_map_of_mem there) _ (by simp))
  · exact named

theorem spent_of_plain (read : List.Forall₂ (fun tx r => received D keys tx = .ok r) txs rs)
    (plain : ∀ tx ∈ txs, Plain D keys tx) : MistakenSpent keys txs rs := by
  intro i j tx output r source written place key mem mistaken
  obtain ⟨r',place',one⟩ := slot_right read source
  cases place.symm.trans place'
  have itself := plain tx (List.mem_of_getElem? source) j output written key mem mistaken
  rw [spendsItself_iff one] at itself
  obtain ⟨before,after,rfl⟩ := List.append_of_mem (List.mem_of_getElem? place)
  refine seen_iff.mpr ⟨arrivals before,{ id := r.info.txHash, refers := r.inputs.map reference },
    arrivals after,by simp [arrivals],rfl,?_⟩
  exact ⟨_,List.mem_cons_self,itself⟩

end Settled

/-- At every point of a run the lists are those of the spendable outputs exactly
    when nothing that was saved is mistaken for an output of a key. -/
theorem only_spendable_iff (D : Digests) (keys : List UserKeyInfo) (txs : List Transaction)
    (s : Store) (run : addAll D (emptyStore keys) txs = .ok s) :
    (∀ before t, before <+: txs → addAll D (emptyStore keys) before = .ok t →
        OnlySpendable D before t) ↔ ∀ tx ∈ saved D txs, Plain D keys tx := by
  constructor
  · intro only tx mem
    obtain ⟨before,earlier,front,last⟩ := savedFrom_last mem
    obtain ⟨after,rfl⟩ := front
    obtain ⟨t,reached,_⟩ := addAll_append.mp run
    obtain ⟨rs,read,distinct,_,rfl⟩ := history reached
    have spent := (onlySpendable_settled read).mp (only before _ (by simp) reached)
    rw [show saved D before = _ from last] at read spent
    exact plain_last read distinct spent
  · rintro plain before t ⟨after,rfl⟩ reached
    obtain ⟨rs,read,_,_,rfl⟩ := history reached
    refine (onlySpendable_settled read).mpr (spent_of_plain read ?_)
    intro tx mem
    exact plain tx ((savedFrom_append [] before after).subset mem)

theorem ownKeyHash_length : ownKeyHash.reverse.length = 20 := by decide

def ownHash160 : RIPEMD160HASH := ⟨ownKeyHash.reverse,ownKeyHash_length⟩

theorem payees_length :
    (serialize 0x06afd46bcdfd22ef94ac122aa11f241244a37ecc).reverse.length = 20 := by decide

theorem funds_plain : ∀ tx ∈ [fund, secondFund, spendFund], ∀ output ∈ tx.outputs,
    ∃ hash : RIPEMD160HASH, output.script = keyHashBytes hash := by
  have own : payToHash ownKeyHash = keyHashBytes ownHash160 := by decide
  have payee : payToHash (serialize 0x06afd46bcdfd22ef94ac122aa11f241244a37ecc) =
      keyHashBytes ⟨_,payees_length⟩ := by decide
  simp only [List.forall_mem_cons, fund, secondFund, spendFund, own, payee]
  simp

set_option maxRecDepth 8000 in
theorem funds_counted : ∃ s,
    addAll fundDigests (emptyStore [ownKey]) [fund, secondFund, spendFund] = .ok s ∧
      ∀ before t, before <+: [fund, secondFund, spendFund] →
        addAll fundDigests (emptyStore [ownKey]) before = .ok t →
          OnlySpendable fundDigests before t := by
  have run : addAll fundDigests (emptyStore [ownKey]) [fund, secondFund, spendFund] =
      .ok (storeAfter fundDigests [ownKey] [fund, secondFund, spendFund]) := by decide
  refine ⟨_,run,(only_spendable_iff _ _ _ _ run).mpr ?_⟩
  intro tx mem index output written key _ mistaken
  have inside := savedFrom_subset [] _ tx mem
  obtain ⟨hash,form⟩ := funds_plain tx inside output (List.mem_of_getElem? written)
  rw [form] at mistaken
  exact absurd mistaken keyHashBytes_plain

/-- A transaction that pays to a script with the hash of the own key. -/
def scriptFund : Transaction :=
  { fund with
    outputs := [{ value := 5000, script := scriptHashBytes ownHash160 }]
    hasOutput := Nat.one_pos }

def scriptDigests : Digests :=
  Digests.known
    [(encodeParts 1 scriptFund.inputs scriptFund.outputs 0,
        serialize 0xf26febbda65a04cff3645b1906dc3a6f639897df9a30765e0d07ec17a103ff25),
      (serialize 0xf26febbda65a04cff3645b1906dc3a6f639897df9a30765e0d07ec17a103ff25,
        serialize 0x7f9209c43cf19834bb46f2ec528b6766dfad20ce3020926b2566f163c91e7bc5)] []

set_option maxRecDepth 8000 in
/-- What is paid to that script is in the balance. -/
theorem scriptFund_counted : ∃ s,
    addAll scriptDigests (emptyStore [ownKey]) [scriptFund] = .ok s ∧
      calculateBalance s = .ok 5000 ∧ ¬ OnlySpendable scriptDigests [scriptFund] s := by
  refine ⟨storeAfter scriptDigests [ownKey] [scriptFund],by decide,by decide,?_⟩
  intro only
  have listed : (storeAfter scriptDigests [ownKey] [scriptFund]).userKeys =
      [{ ownKey with UTXOs := [⟨0,0⟩] }] := by decide
  have alone : saved scriptDigests [scriptFund] = [scriptFund] := by decide
  obtain ⟨tx,output,_,source,written,_,_,hash,_,form⟩ :=
    (only.listed _ (by rw [listed]; exact List.mem_cons_self) ⟨0,0⟩).mp List.mem_cons_self
  rw [alone] at source
  cases source
  cases written
  have first : (0xa9 : UInt8) = 0x76 := List.head_eq_of_cons_eq form
  exact absurd first (by decide)

end SpendableOutputs
