import Mathlib.Data.List.Nodup
import AltMessenger.CFController
import AltMessenger.OrderIndependence

/-!
The transactions that wait for a peer to ask for them. Each is sent and removed
in a loop over the places that the list had before, so a request for any but the
last of them runs past its end.
-/
namespace PendingTransactions
open SwiftRuntime BitcoinHash BitcoinTransaction PeerMessages OrderIndependence

/-- The controller's list, and what it has put on the connection. -/
structure Controller where
  pendingTransactions : List Transaction
  sent : List Transaction
  announced : List InventoryVector
  deriving DecidableEq

variable (D : Digests)

/-- `sendTransaction(transaction:)` with the block that it adds to the queue. -/
def sendTransaction (c : Controller) (transaction : Transaction) : Except Trap Controller := do
  let hash ← transaction.hash D
  pure { c with
    pendingTransactions := c.pendingTransactions ++ [transaction]
    announced := c.announced ++ [⟨.Transaction,hash⟩] }

/-- One turn of the inner loop. -/
def turn (inv : InventoryVector) (c : Controller) (i : Nat) : Except Trap Controller := do
  let transaction ← subscript c.pendingTransactions i
  let hash ← transaction.hash D
  if inv.hash = hash then
    pure { c with
      sent := c.sent ++ [transaction]
      pendingTransactions := c.pendingTransactions.eraseIdx i }
  else pure c

/-- The inner loop. Its range is the number of transactions at its start. -/
def serve (c : Controller) (inv : InventoryVector) : Except Trap Controller :=
  (List.range c.pendingTransactions.length).foldlM (turn D inv) c

/-- The handler of a `GetDataMessage`. -/
def receiveGetData (c : Controller) (inventoryVectors : List InventoryVector) :
    Except Trap Controller :=
  inventoryVectors.foldlM (serve D) c

/-- Every pending transaction has a hash, which was computed when it was announced. -/
def Hashed (c : Controller) : Prop :=
  ∀ transaction ∈ c.pendingTransactions, ∃ hash, transaction.hash D = .ok hash

def hashOf (transaction : Transaction) : Option SHA256Hash := (transaction.hash D).toOption

def asked (inventoryVectors : List InventoryVector) : List (Option SHA256Hash) :=
  inventoryVectors.map fun inv => some inv.hash

/-- The handler comes to its end, has sent every transaction asked for once and nothing else, and
    keeps the others in their order. -/
def ServedOnce (c : Controller) (inventoryVectors : List InventoryVector) : Prop :=
  ∃ t new, receiveGetData D c inventoryVectors = .ok t ∧ t.sent = c.sent ++ new ∧
    new.Perm (c.pendingTransactions.filter (hashOf D · ∈ asked inventoryVectors)) ∧
    t.pendingTransactions =
      c.pendingTransactions.filter (hashOf D · ∉ asked inventoryVectors)

/-- None is asked for while one behind it still waits. -/
def LastFirst {κ : Type} (waiting requests : List κ) : Prop :=
  ∀ before r after, requests = before ++ r :: after → r ∉ before →
    ∀ later, [r,later].Sublist waiting → later ∈ before

section LastFirst
variable {κ : Type}

theorem pair_after_last {front : List κ} {r later : κ} (distinct : (front ++ [r]).Nodup) :
    ¬ [r,later].Sublist (front ++ [r]) := by
  intro pair
  have fresh : r ∉ front := fun there =>
    (List.nodup_append.mp distinct).2.2 r there r (by simp) rfl
  obtain ⟨first,second,split,left,right⟩ := List.sublist_append_iff.mp pair
  cases first with
  | nil =>
    have short := right.length_le
    rw [List.nil_append] at split
    simp [← split] at short
  | cons a first =>
    rw [List.cons_append, List.cons.injEq] at split
    exact fresh (left.subset (by simp [split.1]))

/-- The first request is for the last that waits, or for none, and the rest are so among what is
    left. -/
theorem lastFirst_cons [DecidableEq κ] {waiting rest : List κ} {r : κ} (distinct : waiting.Nodup) :
    LastFirst waiting (r :: rest) ↔
      (r ∈ waiting → ∃ front, waiting = front ++ [r]) ∧
        LastFirst (waiting.filter (· ≠ r)) rest := by
  constructor
  · intro ordered
    constructor
    · intro there
      obtain ⟨front,later,rfl⟩ := List.append_of_mem there
      have none_behind : later = [] := by
        cases later with
        | nil => rfl
        | cons other later =>
          have pair : [r,other].Sublist (front ++ r :: other :: later) :=
            List.Sublist.trans (by simp) (List.sublist_append_right front _)
          exact nomatch ordered [] r rest rfl (by simp) other pair
      exact ⟨front,by rw [none_behind]⟩
    · rintro before q after rfl fresh later pair
      have mem := pair.subset
      have other := of_decide_eq_true (List.mem_filter.mp (mem (by simp : q ∈ [q,later]))).2
      have apart := of_decide_eq_true (List.mem_filter.mp (mem (by simp : later ∈ [q,later]))).2
      have behind := ordered (r :: before) q after rfl
        (List.not_mem_cons_of_ne_of_not_mem other fresh) later (pair.trans List.filter_sublist)
      exact (List.mem_cons.mp behind).resolve_left apart
  · rintro ⟨last,ordered⟩ before q after split fresh later pair
    cases before with
    | nil =>
      obtain ⟨rfl,rfl⟩ := List.cons.inj split
      obtain ⟨front,rfl⟩ := last (pair.subset (by simp))
      exact absurd pair (pair_after_last distinct)
    | cons p before =>
      obtain ⟨rfl,rfl⟩ := List.cons.inj split
      by_cases same : later = r
      · simp [same]
      · have other : q ≠ r := fun here => fresh (by simp [here])
        have kept : [q,later].Sublist (waiting.filter (· ≠ r)) := by
          have filtered := pair.filter (· ≠ r)
          simpa [other, same] using filtered
        exact List.mem_cons_of_mem r (ordered before q after rfl
          (fun mem => fresh (List.mem_cons_of_mem r mem)) later kept)

end LastFirst

variable {D}

theorem hashOf_known {transaction : Transaction} {hash : SHA256Hash}
    (known : transaction.hash D = .ok hash) : hashOf D transaction = some hash := by
  rw [hashOf, known]
  rfl

section Loop
variable {c t : Controller} {inv : InventoryVector}

/-- A turn leaves the transaction, or sends and removes it. -/
theorem turn_cases {i : Nat} (run : turn D inv c i = .ok t) :
    ∃ transaction, c.pendingTransactions[i]? = some transaction ∧
      (hashOf D transaction ≠ some inv.hash ∧ t = c ∨
        hashOf D transaction = some inv.hash ∧
          t = { c with
            sent := c.sent ++ [transaction]
            pendingTransactions := c.pendingTransactions.eraseIdx i }) := by
  obtain ⟨transaction,there,run⟩ := bind_ran.mp run
  obtain ⟨hash,known,run⟩ := bind_ran.mp run
  refine ⟨transaction,subscript_ok.mp there,?_⟩
  have hash_eq := hashOf_known known
  split at run
  case isTrue same =>
    cases run
    exact Or.inr ⟨by rw [hash_eq, same],rfl⟩
  case isFalse other =>
    cases run
    exact Or.inl ⟨fun same => other (Option.some.inj (hash_eq.symm.trans same)).symm,rfl⟩

theorem turn_ran {i : Nat} {transaction : Transaction} (hashed : Hashed D c)
    (there : c.pendingTransactions[i]? = some transaction) :
    turn D inv c i = .ok (if hashOf D transaction = some inv.hash then
      { c with
        sent := c.sent ++ [transaction]
        pendingTransactions := c.pendingTransactions.eraseIdx i }
      else c) := by
  obtain ⟨hash,known⟩ := hashed transaction (List.mem_of_getElem? there)
  unfold turn
  rw [bind_ready (subscript_ok.mpr there), bind_ready known, hashOf_known known]
  by_cases same : inv.hash = hash
  · rw [if_pos same, if_pos (congrArg some same.symm)]
    rfl
  · rw [if_neg same, if_neg fun clash => same (Option.some.inj clash).symm]
    rfl

/-- Turns that come to their end were all inside the list they found. -/
theorem turns_inside {first count : Nat} (some : 0 < count)
    (run : (List.range' first count).foldlM (turn D inv) c = .ok t) :
    first + count ≤ c.pendingTransactions.length ∧
      t.pendingTransactions.length ≤ c.pendingTransactions.length := by
  induction count generalizing t with
  | zero => omega
  | succ count ih =>
    rw [List.range'_concat, List.foldlM_append] at run
    obtain ⟨mid,before,run⟩ := bind_ran.mp run
    obtain ⟨last,step,run⟩ := bind_ran.mp run
    cases run
    have shorter : mid.pendingTransactions.length ≤ c.pendingTransactions.length := by
      cases count with
      | zero => cases before; exact Nat.le_refl _
      | succ count => exact (ih (by omega) before).2
    obtain ⟨transaction,there,taken⟩ := turn_cases step
    have inside := (List.getElem?_eq_some_iff.mp there).1
    refine ⟨by omega,?_⟩
    rcases taken with ⟨_,rfl⟩ | ⟨_,rfl⟩
    · exact shorter
    · exact (List.length_eraseIdx_le _ _).trans shorter

theorem turns_pass {first count : Nat} (hashed : Hashed D c)
    (inside : first + count ≤ c.pendingTransactions.length)
    (other : ∀ i transaction, i < first + count → c.pendingTransactions[i]? = some transaction →
      hashOf D transaction ≠ some inv.hash) :
    (List.range' first count).foldlM (turn D inv) c = .ok c := by
  induction count with
  | zero => rfl
  | succ count ih =>
    have bound : first + count < c.pendingTransactions.length := by omega
    have there := List.getElem?_eq_getElem bound
    have before := ih (by omega) fun i transaction below => other i transaction (by omega)
    have last : turn D inv c (first + count) = _ := turn_ran hashed there
    rw [if_neg (other _ _ (by omega) there)] at last
    rw [List.range'_concat, List.foldlM_append, bind_ready before, Nat.one_mul, List.foldlM_cons,
      bind_ready last]
    rfl

/-- Up to the transaction asked for and past it, the range is as long as the list was. -/
theorem serve_found (hashed : Hashed D c)
    (distinct : (c.pendingTransactions.map (hashOf D)).Nodup) {front behind : List Transaction}
    {transaction : Transaction} (split : c.pendingTransactions = front ++ transaction :: behind)
    (asked_for : hashOf D transaction = some inv.hash) :
    serve D c inv = (List.range' (front.length + 1) behind.length).foldlM (turn D inv) { c with
      sent := c.sent ++ [transaction], pendingTransactions := front ++ behind } := by
  have others : ∀ i other, i < 0 + front.length → c.pendingTransactions[i]? = some other →
      hashOf D other ≠ some inv.hash := by
    intro i other before found same
    rw [split, List.map_append, List.nodup_append] at distinct
    rw [split, List.getElem?_append_left (by omega)] at found
    exact distinct.2.2 _ (List.mem_map_of_mem (List.mem_of_getElem? found)) _ (by simp)
      (same.trans asked_for.symm)
  have before : (List.range' 0 front.length).foldlM (turn D inv) c = .ok c :=
    turns_pass hashed (by simp [split]) others
  have there : c.pendingTransactions[front.length]? = some transaction := by simp [split]
  have step : turn D inv c front.length = _ := turn_ran hashed there
  have erased : c.pendingTransactions.eraseIdx front.length = front ++ behind := by
    rw [split, List.eraseIdx_append_of_length_le (Nat.le_refl _)]
    simp
  have length : c.pendingTransactions.length = front.length + (behind.length + 1) := by
    simp [split]
  rw [if_pos asked_for, erased] at step
  rw [serve, List.range_eq_range', length, ← List.range'_append_1, List.foldlM_append,
    bind_ready before, Nat.zero_add, List.range'_succ, List.foldlM_cons, bind_ready step]

/-- A request comes to its end if it is for none of those that wait, or for the last of them. -/
theorem serve_iff (hashed : Hashed D c)
    (distinct : (c.pendingTransactions.map (hashOf D)).Nodup) :
    serve D c inv = .ok t ↔
      some inv.hash ∉ c.pendingTransactions.map (hashOf D) ∧ t = c ∨
        ∃ front last, c.pendingTransactions = front ++ [last] ∧
          hashOf D last = some inv.hash ∧
          t = { c with sent := c.sent ++ [last], pendingTransactions := front } := by
  by_cases there : some inv.hash ∈ c.pendingTransactions.map (hashOf D)
  · rw [or_iff_right fun none => none.1 there]
    constructor
    · intro run
      obtain ⟨transaction,mem,asked_for⟩ := List.mem_map.mp there
      obtain ⟨front,behind,split⟩ := List.append_of_mem mem
      rw [serve_found hashed distinct split asked_for] at run
      cases behind with
      | nil =>
        cases run
        exact ⟨front,transaction,split,asked_for,by rw [List.append_nil]⟩
      | cons other behind =>
        have inside := (turns_inside (by simp) run).1
        simp at inside
    · rintro ⟨front,last,split,asked_for,rfl⟩
      rw [serve_found hashed distinct split asked_for, List.append_nil]
      rfl
  · have others : ∀ i other, i < 0 + c.pendingTransactions.length →
        c.pendingTransactions[i]? = some other → hashOf D other ≠ some inv.hash :=
      fun i other _ found same =>
        there (List.mem_map.mpr ⟨other,List.mem_of_getElem? found,same⟩)
    rw [serve, List.range_eq_range', turns_pass hashed (by simp) others]
    constructor
    · intro run
      cases run
      exact Or.inl ⟨there,rfl⟩
    · rintro (⟨_,rfl⟩ | ⟨front,last,split,same,_⟩)
      · rfl
      · exact absurd (List.mem_map.mpr ⟨last,by simp [split],same⟩) there

/-- Whatever came to its end kept the ones that were not asked for. -/
theorem serve_keeps (hashed : Hashed D c)
    (distinct : (c.pendingTransactions.map (hashOf D)).Nodup) (run : serve D c inv = .ok t) :
    t.pendingTransactions = c.pendingTransactions.filter (hashOf D · ≠ some inv.hash) ∧
      t.sent = c.sent ++ c.pendingTransactions.filter (hashOf D · = some inv.hash) := by
  rcases (serve_iff hashed distinct).mp run with ⟨absent,rfl⟩ | ⟨front,last,split,asked_for,rfl⟩
  · have other : ∀ transaction ∈ t.pendingTransactions, hashOf D transaction ≠ some inv.hash :=
      fun transaction mem same => absent (List.mem_map.mpr ⟨transaction,mem,same⟩)
    constructor
    · exact (List.filter_eq_self.mpr fun transaction mem => by simp [other transaction mem]).symm
    · rw [List.filter_eq_nil_iff.mpr fun transaction mem => by simp [other transaction mem],
        List.append_nil]
  · have other : ∀ transaction ∈ front, hashOf D transaction ≠ some inv.hash := by
      intro transaction mem same
      rw [split, List.map_append, List.nodup_append] at distinct
      exact distinct.2.2 _ (List.mem_map_of_mem mem) _ (by simp) (same.trans asked_for.symm)
    have kept : front.filter (hashOf D · ≠ some inv.hash) = front :=
      List.filter_eq_self.mpr fun transaction mem => decide_eq_true (other transaction mem)
    have none_sent : front.filter (hashOf D · = some inv.hash) = [] :=
      List.filter_eq_nil_iff.mpr fun transaction mem => by simp [other transaction mem]
    rw [split, List.filter_append, List.filter_append, kept, none_sent]
    simp [asked_for]

end Loop

/-- What is left of a list, after what was asked for first and then the rest. -/
theorem filter_asked (waiting : List Transaction) (inv : InventoryVector)
    (rest : List InventoryVector) :
    (waiting.filter (hashOf D · ≠ some inv.hash)).filter (hashOf D · ∉ asked rest) =
        waiting.filter (hashOf D · ∉ asked (inv :: rest)) ∧
      (waiting.filter (hashOf D · = some inv.hash) ++
        (waiting.filter (hashOf D · ≠ some inv.hash)).filter (hashOf D · ∈ asked rest)).Perm
          (waiting.filter (hashOf D · ∈ asked (inv :: rest))) := by
  constructor
  · rw [List.filter_filter]
    apply List.filter_congr
    intro transaction _
    simp [asked, Bool.and_comm]
  · induction waiting with
    | nil => exact List.Perm.nil
    | cons transaction waiting ih =>
      by_cases first : hashOf D transaction = some inv.hash
      · have kept : some inv.hash ∈ asked (inv :: rest) := by simp [asked]
        simpa [List.filter_cons, first, kept] using ih.cons transaction
      · have same : hashOf D transaction ∈ asked (inv :: rest) ↔
            hashOf D transaction ∈ asked rest := by
          simp [asked, first]
        by_cases later : hashOf D transaction ∈ asked rest
        · have put := List.perm_middle.trans (ih.cons transaction)
          simpa [List.filter_cons, first, same, later] using put
        · simpa [List.filter_cons, first, same, later] using ih

section Receive
variable {c t : Controller} {inv : InventoryVector}

theorem serve_waits (hashed : Hashed D c)
    (distinct : (c.pendingTransactions.map (hashOf D)).Nodup) (run : serve D c inv = .ok t) :
    Hashed D t ∧ (t.pendingTransactions.map (hashOf D)).Nodup ∧
      t.pendingTransactions.map (hashOf D) =
        (c.pendingTransactions.map (hashOf D)).filter (· ≠ some inv.hash) := by
  have kept := (serve_keeps hashed distinct run).1
  rw [kept]
  refine ⟨?_,?_,?_⟩
  · intro transaction mem
    rw [kept] at mem
    exact hashed transaction (List.mem_filter.mp mem).1
  · exact distinct.sublist (List.filter_sublist.map (hashOf D))
  · rw [List.filter_map]
    rfl

theorem serve_ends_iff (hashed : Hashed D c)
    (distinct : (c.pendingTransactions.map (hashOf D)).Nodup) :
    (∃ t, serve D c inv = .ok t) ↔
      (some inv.hash ∈ c.pendingTransactions.map (hashOf D) →
        ∃ front, c.pendingTransactions.map (hashOf D) = front ++ [some inv.hash]) := by
  constructor
  · rintro ⟨t,run⟩ there
    rcases (serve_iff hashed distinct).mp run with ⟨absent,_⟩ | ⟨front,last,split,asked_for,_⟩
    · exact absurd there absent
    · exact ⟨front.map (hashOf D),by simp [split, asked_for]⟩
  · intro last_waits
    by_cases there : some inv.hash ∈ c.pendingTransactions.map (hashOf D)
    · obtain ⟨front,split⟩ := last_waits there
      obtain ⟨front,last,split,_,last_eq⟩ := List.map_eq_append_iff.mp split
      obtain ⟨transaction,rfl,asked_for⟩ := List.map_eq_singleton_iff.mp last_eq
      exact ⟨_,(serve_iff hashed distinct).mpr (Or.inr ⟨front,transaction,split,asked_for,rfl⟩)⟩
    · exact ⟨c,(serve_iff hashed distinct).mpr (Or.inl ⟨there,rfl⟩)⟩

theorem receive_ends_iff {inventoryVectors : List InventoryVector} (hashed : Hashed D c)
    (distinct : (c.pendingTransactions.map (hashOf D)).Nodup) :
    (∃ t, receiveGetData D c inventoryVectors = .ok t) ↔
      LastFirst (c.pendingTransactions.map (hashOf D)) (asked inventoryVectors) := by
  induction inventoryVectors generalizing c with
  | nil =>
    refine iff_of_true ⟨c,rfl⟩ ?_
    intro before r after split
    simp [asked] at split
  | cons inv rest ih =>
    rw [asked, List.map_cons, ← asked, lastFirst_cons distinct, ← serve_ends_iff hashed distinct]
    constructor
    · rintro ⟨t,run⟩
      obtain ⟨mid,first,run⟩ := bind_ran.mp run
      obtain ⟨hashed',distinct',waiting⟩ := serve_waits hashed distinct first
      exact ⟨⟨mid,first⟩,waiting ▸ (ih hashed' distinct').mp ⟨t,run⟩⟩
    · rintro ⟨⟨mid,first⟩,ordered⟩
      obtain ⟨hashed',distinct',waiting⟩ := serve_waits hashed distinct first
      obtain ⟨t,run⟩ := (ih hashed' distinct').mpr (waiting ▸ ordered)
      exact ⟨t,bind_ran.mpr ⟨mid,first,run⟩⟩

/-- Requests that come to their end have sent what they asked for, and left the rest. -/
theorem receive_keeps {inventoryVectors : List InventoryVector} (hashed : Hashed D c)
    (distinct : (c.pendingTransactions.map (hashOf D)).Nodup)
    (run : receiveGetData D c inventoryVectors = .ok t) :
    ∃ new, t.sent = c.sent ++ new ∧
      new.Perm (c.pendingTransactions.filter (hashOf D · ∈ asked inventoryVectors)) ∧
      t.pendingTransactions =
        c.pendingTransactions.filter (hashOf D · ∉ asked inventoryVectors) := by
  induction inventoryVectors generalizing c with
  | nil =>
    cases run
    exact ⟨[],by simp,by simp [asked],by simp [asked]⟩
  | cons inv rest ih =>
    obtain ⟨mid,first,run⟩ := bind_ran.mp run
    obtain ⟨hashed',distinct',_⟩ := serve_waits hashed distinct first
    obtain ⟨kept,sent⟩ := serve_keeps hashed distinct first
    obtain ⟨new,sent',all,left⟩ := ih hashed' distinct' run
    obtain ⟨left_eq,all_perm⟩ := filter_asked (D := D) c.pendingTransactions inv rest
    rw [kept] at all left
    exact ⟨_,by rw [sent', sent, List.append_assoc],(all.append_left _).trans all_perm,
      left.trans left_eq⟩

end Receive

/-- A request runs past the end of the list exactly if it is for a transaction that waits, with
    another behind it. -/
theorem served_once_iff {c : Controller} (hashed : Hashed D c)
    (distinct : (c.pendingTransactions.map (hashOf D)).Nodup)
    (inventoryVectors : List InventoryVector) :
    ServedOnce D c inventoryVectors ↔
      LastFirst (c.pendingTransactions.map (hashOf D)) (asked inventoryVectors) := by
  rw [← receive_ends_iff hashed distinct]
  constructor
  · rintro ⟨t,new,run,_⟩
    exact ⟨t,run⟩
  · rintro ⟨t,run⟩
    obtain ⟨new,sent,all,left⟩ := receive_keeps hashed distinct run
    exact ⟨t,new,run,sent,all,left⟩

/-- Two transactions wait. -/
def twoWait : Controller where
  pendingTransactions := [fund, secondFund]
  sent := []
  announced := []

theorem twoWait_hashes :
    twoWait.pendingTransactions.map (hashOf fundDigests) = [some fundHash,some secondFundHash] := by
  decide

theorem twoWait_distinct : (twoWait.pendingTransactions.map (hashOf fundDigests)).Nodup := by
  rw [twoWait_hashes]
  decide

theorem twoWait_hashed : Hashed fundDigests twoWait := by
  intro transaction mem
  rcases List.mem_cons.mp mem with rfl | mem
  · exact ⟨fundHash,by decide⟩
  · rw [List.mem_singleton.mp mem]
    exact ⟨secondFundHash,by decide⟩

def request (hash : SHA256Hash) : InventoryVector := ⟨.Transaction,hash⟩

theorem last_first_asked : LastFirst [some fundHash,some secondFundHash]
    (asked [request secondFundHash,request fundHash,request fundHash]) := by
  refine (lastFirst_cons (by decide)).mpr ⟨fun _ => ⟨[some fundHash],rfl⟩,?_⟩
  refine (lastFirst_cons (by decide)).mpr ⟨fun _ => ⟨[],rfl⟩,?_⟩
  refine (lastFirst_cons (by decide)).mpr ⟨fun there => absurd there (by decide),?_⟩
  intro before r after split
  simp at split

theorem last_then_first : ServedOnce fundDigests twoWait
    [request secondFundHash,request fundHash,request fundHash] :=
  (served_once_iff twoWait_hashed twoWait_distinct _).mpr (twoWait_hashes ▸ last_first_asked)

set_option maxRecDepth 8000 in
theorem first_stops : Hashed fundDigests twoWait ∧
    (twoWait.pendingTransactions.map (hashOf fundDigests)).Nodup ∧
      receiveGetData fundDigests twoWait [request fundHash] = .error .index ∧
        ¬ ServedOnce fundDigests twoWait [request fundHash] := by
  have stops : receiveGetData fundDigests twoWait [request fundHash] = .error .index := by decide
  refine ⟨twoWait_hashed,twoWait_distinct,stops,?_⟩
  rintro ⟨t,new,run,_⟩
  rw [stops] at run
  cases run

end PendingTransactions
