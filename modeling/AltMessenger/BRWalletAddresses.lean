import AltMessenger.BRWalletOperations

/-!
The chains of addresses of the wallet. They are made in their order, so far that a gap of addresses
that nobody has used is at the end of each.
-/
namespace BRWalletAddresses
open BRTransactions BRWallets BRWalletOperations

section Extending
variable {derive : Bool → Nat → Option Address} {used chain : List Address} {internal : Bool}
  {gapLimit fuel i : Nat}

/-- The addresses of the chain are those of its places. -/
def Derived (derive : Bool → Nat → Option Address) (internal : Bool) (chain : List Address) :
    Prop :=
  ∀ k addr, chain[k]? = some addr → derive internal k = some addr

/-- No two places of a chain have the same address. -/
def Apart (derive : Bool → Nat → Option Address) : Prop :=
  ∀ internal j k addr, derive internal j = some addr → derive internal k = some addr → j = k

theorem getElem?_snoc {addr last : Address} {k : Nat} (here : (chain ++ [last])[k]? = some addr) :
    chain[k]? = some addr ∨ k = chain.length ∧ addr = last := by
  rcases Nat.lt_trichotomy k chain.length with inside | rfl | past
  · rw [List.getElem?_append_left inside] at here
    exact .inl here
  · rw [List.getElem?_concat_length] at here
    cases here
    exact .inr ⟨rfl,rfl⟩
  · rw [List.getElem?_eq_none (by simpa using Nat.succ_le_of_lt past)] at here
    cases here

theorem derived_snoc {addr : Address} (derived : Derived derive internal chain)
    (made : derive internal chain.length = some addr) :
    Derived derive internal (chain ++ [addr]) := by
  intro k found here
  rcases getElem?_snoc here with before | ⟨rfl,rfl⟩
  · exact derived k found before
  · exact made

theorem fresh_address {addr : Address} (apart : Apart derive)
    (derived : Derived derive internal chain) (made : derive internal chain.length = some addr) :
    addr ∉ chain := by
  intro there
  obtain ⟨k,inside,rfl⟩ := List.mem_iff_getElem.mp there
  have same := apart internal _ _ _ made (derived k _ (List.getElem?_eq_getElem inside))
  omega

/-- The used addresses that are not in the chain yet -/
def ahead (used chain : List Address) : Nat := (used.filter fun addr => addr ∉ chain).length

theorem ahead_snoc_le (used chain : List Address) (addr : Address) :
    ahead used (chain ++ [addr]) ≤ ahead used chain := by
  refine (List.monotone_filter_right used fun a later => ?_).length_le
  simp only [List.mem_append, not_or, decide_eq_true_eq] at later ⊢
  exact later.1

/-- A filter that lets through less, and not this one, keeps fewer. -/
theorem filter_shorter {α : Type} {xs : List α} {p q : α → Bool} {x : α}
    (less : ∀ y, p y = true → q y = true) (there : x ∈ xs) (kept : q x = true) (out : p x = false) :
    (xs.filter p).length < (xs.filter q).length := by
  have twice : xs.filter p = (xs.filter q).filter p := by
    rw [List.filter_filter]
    refine List.filter_congr fun y _ => ?_
    cases here : p y with
    | false => rfl
    | true => exact (less y here).symm
  rw [twice, List.length_filter_lt_length_iff_exists]
  exact ⟨x,List.mem_filter.mpr ⟨there,kept⟩,by rw [out]; exact Bool.false_ne_true⟩

theorem ahead_snoc_lt {addr : Address} (there : addr ∈ used) (fresh : addr ∉ chain) :
    ahead used (chain ++ [addr]) < ahead used chain := by
  refine filter_shorter (fun a later => ?_) there (decide_eq_true fresh) (by simp)
  simp only [List.mem_append, not_or, decide_eq_true_eq] at later ⊢
  exact later.1

/-- Place `i` is behind the last address of the chain that is used. -/
structure Behind (used chain : List Address) (i : Nat) : Prop where
  inside : i ≤ chain.length
  free : ∀ k addr, i ≤ k → chain[k]? = some addr → addr ∉ used
  last : 0 < i → ∃ addr ∈ used, chain[i - 1]? = some addr

theorem behind_used {addr : Address} (there : addr ∈ used) :
    Behind used (chain ++ [addr]) (chain ++ [addr]).length := by
  refine ⟨Nat.le_refl _,fun k found past here => ?_,fun _ => ⟨addr,there,by simp⟩⟩
  rw [List.getElem?_eq_none past] at here
  cases here

theorem behind_unused {addr : Address} (behind : Behind used chain i) (free : addr ∉ used) :
    Behind used (chain ++ [addr]) i := by
  have short := behind.inside
  refine ⟨by rw [List.length_append]; omega,fun k found past here => ?_,fun some_before => ?_⟩
  · rcases getElem?_snoc here with before | ⟨-,rfl⟩
    · exact behind.free k found past before
    · exact free
  · obtain ⟨last,inside,here⟩ := behind.last some_before
    exact ⟨last,inside,by rw [List.getElem?_append_left (by omega)]; exact here⟩

/-- Where `BRWalletUnusedAddrs` starts -/
theorem behind_rdropWhile (used chain : List Address) :
    Behind used chain (chain.rdropWhile fun addr => addr ∉ used).length := by
  induction chain using List.reverseRecOn with
  | nil => exact ⟨Nat.le_refl _,nofun,nofun⟩
  | append_singleton chain addr ih =>
    by_cases there : addr ∈ used
    · rw [List.rdropWhile_concat_neg _ _ _ (by simpa using there)]
      exact behind_used there
    · rw [List.rdropWhile_concat_pos _ _ _ (by simpa using there)]
      exact behind_unused ih there

theorem behind_snoc {addr : Address} (behind : Behind used chain i) :
    Behind used (chain ++ [addr]) (if addr ∈ used then chain.length + 1 else i) := by
  split
  case isTrue there =>
    have longer : chain.length + 1 = (chain ++ [addr]).length := by simp
    rw [longer]
    exact behind_used there
  case isFalse other => exact behind_unused behind other

/-- The loop ends, with a chain that goes on from the one there was, and with a gap behind the last
    address that is used, unless there is no next address. -/
theorem extend_spec (apart : Apart derive) (derived : Derived derive internal chain)
    (behind : Behind used chain i)
    (enough : i + gapLimit - chain.length + gapLimit * ahead used chain < fuel) :
    ∃ more k, extend derive used internal gapLimit fuel chain i = some (chain ++ more,k) ∧
      Derived derive internal (chain ++ more) ∧ Behind used (chain ++ more) k ∧
      (k + gapLimit ≤ (chain ++ more).length ∨
        derive internal (chain ++ more).length = none) := by
  induction fuel generalizing chain i with
  | zero => exact absurd enough (Nat.not_lt_zero _)
  | succ fuel ih =>
    rw [extend]
    split
    case isFalse done =>
      exact ⟨[],i,by rw [List.append_nil],by rwa [List.append_nil],by rwa [List.append_nil],
        .inl (by rw [List.append_nil]; exact Nat.not_lt.mp done)⟩
    case isTrue short =>
      cases made : derive internal chain.length with
      | none =>
        exact ⟨[],i,by rw [List.append_nil],by rwa [List.append_nil],by rwa [List.append_nil],
          .inr (by rwa [List.append_nil])⟩
      | some addr =>
        have fewer : (if addr ∈ used then chain.length + 1 else i) + gapLimit -
            (chain ++ [addr]).length + gapLimit * ahead used (chain ++ [addr]) < fuel := by
          rw [List.length_append, List.length_singleton]
          split
          case isTrue there =>
            have less := ahead_snoc_lt there (fresh_address apart derived made)
            have turns : gapLimit * (ahead used (chain ++ [addr]) + 1) ≤
                gapLimit * ahead used chain := Nat.mul_le_mul_left gapLimit less
            rw [Nat.mul_succ] at turns
            omega
          case isFalse other =>
            have turns : gapLimit * ahead used (chain ++ [addr]) ≤ gapLimit * ahead used chain :=
              Nat.mul_le_mul_left gapLimit (ahead_snoc_le used chain addr)
            omega
        obtain ⟨more,k,ran,rest⟩ := ih (derived_snoc derived made) (behind_snoc behind) fewer
        refine ⟨addr :: more,k,?_,?_⟩
        · rw [List.append_cons]
          exact ran
        · rw [List.append_cons]
          exact rest

end Extending

/-- The chains of the wallet are made of their addresses, and all of these are known. -/
structure Chains (derive : Bool → Nat → Option Address) (w : BRWallet) : Prop where
  derived : ∀ internal, Derived derive internal (chainOf w internal)
  known : ∀ addr, addr ∈ w.allAddrs ↔ ∃ internal, addr ∈ chainOf w internal

section Wallet
variable {derive : Bool → Nat → Option Address} {w : BRWallet}

theorem mem_insertAll (xs all : List Address) (addr : Address) :
    addr ∈ xs.foldl (fun all addr => all.insert addr) all ↔ addr ∈ xs ∨ addr ∈ all := by
  induction xs generalizing all with
  | nil => simp
  | cons x xs ih =>
    rw [List.foldl_cons, ih, List.mem_insert_iff, List.mem_cons]
    tauto

/-- A chain of the wallet is replaced by a longer one, whose addresses are known. -/
def withChain (w : BRWallet) (internal : Bool) (chain all : List Address) : BRWallet :=
  { w with
    internalChain := if internal then chain else w.internalChain
    externalChain := if internal then w.externalChain else chain
    allAddrs := all }

theorem chainOf_withChain (w : BRWallet) (internal : Bool) (chain all : List Address) :
    chainOf (withChain w internal chain all) internal = chain := by
  cases internal <;> rfl

theorem chainOf_other (w : BRWallet) (internal : Bool) (chain all : List Address) :
    chainOf (withChain w internal chain all) (!internal) = chainOf w (!internal) := by
  cases internal <;> rfl

theorem exists_chain (w : BRWallet) (internal : Bool) (addr : Address) :
    (∃ i, addr ∈ chainOf w i) ↔ addr ∈ chainOf w internal ∨ addr ∈ chainOf w (!internal) := by
  cases internal with
  | false => exact Bool.exists_bool
  | true => exact Bool.exists_bool.trans or_comm

theorem withChain_chains {internal : Bool} {chain all : List Address} (chains : Chains derive w)
    (derived : Derived derive internal chain)
    (known : ∀ addr, addr ∈ all ↔ addr ∈ chain ∨ addr ∈ chainOf w (!internal)) :
    Chains derive (withChain w internal chain all) where
  derived i := by
    by_cases this : i = internal
    · rw [this, chainOf_withChain]
      exact derived
    · rw [Bool.eq_not_of_ne this, chainOf_other]
      exact chains.derived _
  known addr := by
    rw [exists_chain _ internal, chainOf_withChain, chainOf_other]
    exact known addr

/-- Whether the array of the chain is moved or not, its addresses are known afterwards. -/
theorem addresses_known {more : List Address} {k : Nat} (chains : Chains derive w) (call : Call)
    (gapLimit : Nat) (internal : Bool)
    (ran : extend derive w.usedAddrs internal gapLimit (gapLimit * (w.usedAddrs.length + 1) + 1)
      (chainOf w internal)
      ((chainOf w internal).rdropWhile fun addr => addr ∉ w.usedAddrs).length =
        some (chainOf w internal ++ more,k)) :
    ∃ all, BRWalletUnusedAddrs derive call w gapLimit internal =
        some (if k + gapLimit ≤ (chainOf w internal ++ more).length then
            ((chainOf w internal ++ more).drop k).take gapLimit else [],
          withChain w internal (chainOf w internal ++ more) all) ∧
      ∀ addr, addr ∈ all ↔
        addr ∈ chainOf w internal ++ more ∨ addr ∈ chainOf w (!internal) := by
  rw [BRWalletUnusedAddrs]
  simp only [ran, Option.bind_eq_bind, Option.bind_some]
  split
  case isTrue moved =>
    cases internal with
    | false =>
      refine ⟨_,rfl,fun addr => ?_⟩
      rw [mem_insertAll, mem_insertAll, List.mem_reverse, List.mem_reverse]
      simp [chainOf]
    | true =>
      refine ⟨_,rfl,fun addr => ?_⟩
      rw [mem_insertAll, mem_insertAll, List.mem_reverse, List.mem_reverse]
      simp [chainOf, or_comm]
  case isFalse stayed =>
    cases internal with
    | false =>
      refine ⟨_,rfl,fun addr => ?_⟩
      rw [mem_insertAll, List.drop_left, chains.known, exists_chain w false, List.mem_append]
      tauto
    | true =>
      refine ⟨_,rfl,fun addr => ?_⟩
      rw [mem_insertAll, List.drop_left, chains.known, exists_chain w true, List.mem_append]
      tauto

/-- The addresses that are missing at the end of a chain are made, and known. -/
theorem unusedAddrs_spec (apart : Apart derive) (chains : Chains derive w) (call : Call)
    (gapLimit : Nat) (internal : Bool) :
    ∃ more k all, BRWalletUnusedAddrs derive call w gapLimit internal =
        some (if k + gapLimit ≤ (chainOf w internal ++ more).length then
            ((chainOf w internal ++ more).drop k).take gapLimit else [],
          withChain w internal (chainOf w internal ++ more) all) ∧
      Chains derive (withChain w internal (chainOf w internal ++ more) all) ∧
      Behind w.usedAddrs (chainOf w internal ++ more) k ∧
      (k + gapLimit ≤ (chainOf w internal ++ more).length ∨
        derive internal (chainOf w internal ++ more).length = none) := by
  have behind := behind_rdropWhile w.usedAddrs (chainOf w internal)
  have few : ahead w.usedAddrs (chainOf w internal) ≤ w.usedAddrs.length :=
    List.length_filter_le _ _
  have enough : (List.rdropWhile (fun addr => decide (addr ∉ w.usedAddrs))
        (chainOf w internal)).length + gapLimit - (chainOf w internal).length +
      gapLimit * ahead w.usedAddrs (chainOf w internal) <
        gapLimit * (w.usedAddrs.length + 1) + 1 := by
    have short := behind.inside
    have turns : gapLimit * ahead w.usedAddrs (chainOf w internal) ≤
        gapLimit * w.usedAddrs.length := Nat.mul_le_mul_left gapLimit few
    rw [Nat.mul_succ]
    omega
  obtain ⟨more,k,ran,derived,behind',gap⟩ :=
    extend_spec apart (chains.derived internal) behind enough
  obtain ⟨all,made,known⟩ := addresses_known chains call gapLimit internal ran
  exact ⟨more,k,all,made,withChain_chains chains derived known,behind',gap⟩

/-- The addresses that are returned follow the last of the chain that is used, in the chain's order,
    and the wallet knows them. There are as many as the gap limit, or none where the chain ends. -/
theorem next_addresses (apart : Apart derive) (chains : Chains derive w) (call : Call)
    (gapLimit : Nat) (internal : Bool) :
    ∃ addrs after k, BRWalletUnusedAddrs derive call w gapLimit internal = some (addrs,after) ∧
      Chains derive after ∧ chainOf w internal <+: chainOf after internal ∧
      chainOf after (!internal) = chainOf w (!internal) ∧
      { after with
        internalChain := w.internalChain
        externalChain := w.externalChain
        allAddrs := w.allAddrs } = w ∧
      Behind w.usedAddrs (chainOf after internal) k ∧
      (addrs.length = gapLimit ∧ (∀ j < gapLimit, ∃ addr, addrs[j]? = some addr ∧
          derive internal (k + j) = some addr ∧ addr ∉ w.usedAddrs ∧ addr ∈ after.allAddrs) ∨
        addrs = [] ∧ derive internal (chainOf after internal).length = none) := by
  obtain ⟨more,k,all,ran,chains',behind,gap⟩ := unusedAddrs_spec apart chains call gapLimit internal
  refine ⟨_,_,k,ran,chains',?_,chainOf_other w internal _ all,rfl,?_,?_⟩
  · rw [chainOf_withChain]
    exact List.prefix_append _ _
  · rwa [chainOf_withChain]
  · rw [chainOf_withChain]
    by_cases full : k + gapLimit ≤ (chainOf w internal ++ more).length
    · rw [if_pos full]
      refine .inl ⟨?_,fun j below => ?_⟩
      · rw [List.length_take, List.length_drop]
        omega
      · have inside : k + j < (chainOf w internal ++ more).length := by omega
        have here : (chainOf w internal ++ more)[k + j]? =
            some (chainOf w internal ++ more)[k + j] := List.getElem?_eq_getElem inside
        have derived := chains'.derived internal
        rw [chainOf_withChain] at derived
        refine ⟨_,?_,derived _ _ here,behind.free _ _ (Nat.le_add_right k j) here,?_⟩
        · rw [List.getElem?_take_of_lt below, List.getElem?_drop, here]
        · refine (chains'.known _).mpr ⟨internal,?_⟩
          rw [chainOf_withChain]
          exact List.getElem_mem inside
    · rw [if_neg full]
      exact .inr ⟨rfl,gap.resolve_left full⟩

/-- Chains of addresses that are longer and longer -/
def longer (internal : Bool) (k : Nat) : Option Address :=
  some (List.replicate (k + 1) (if internal then 'i' else 'e'))

theorem longer_apart : Apart longer := by
  intro internal j k addr first second
  have same := congrArg (Option.map List.length) (first.trans second.symm)
  simpa [longer] using same

theorem empty_chains : Chains longer emptyWallet where
  derived internal k addr here := by
    cases internal <;> cases here
  known addr := by
    refine ⟨nofun,fun ⟨internal,there⟩ => ?_⟩
    cases internal <;> cases there

theorem first_addresses : ∃ addrs after k,
    BRWalletUnusedAddrs longer ⟨0,fun _ => false⟩ emptyWallet 3 true = some (addrs,after) ∧
      Behind [] (chainOf after true) k := by
  obtain ⟨addrs,after,k,ran,-,-,-,-,behind,-⟩ :=
    next_addresses longer_apart empty_chains ⟨0,fun _ => false⟩ 3 true
  exact ⟨addrs,after,k,ran,behind⟩

end Wallet

end BRWalletAddresses
