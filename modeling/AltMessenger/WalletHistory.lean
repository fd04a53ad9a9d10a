import AltMessenger.WalletOrder

/-!
The database after any run of `add`: a transaction that comes again changes
nothing, so the run is one of the first transaction of each hash.
-/
namespace WalletHistory
open SwiftRuntime BitcoinHash BitcoinTransaction WalletStore WalletOrder

variable (D : Digests)

/-- The transactions that are saved, when those of these hashes are. -/
def savedFrom : List (List Char) → List Transaction → List Transaction
  | _, [] => []
  | known, tx :: txs =>
    match hashString D tx with
    | .error _ => tx :: savedFrom known txs
    | .ok hash =>
      if known.contains hash then savedFrom known txs
      else tx :: savedFrom (known ++ [hash]) txs

def saved (txs : List Transaction) : List Transaction := savedFrom D [] txs

/-- Where a run comes to that completes. -/
def storeAfter (keys : List UserKeyInfo) (txs : List Transaction) : Store :=
  match addAll D (emptyStore keys) txs with
  | .ok s => s
  | .error _ => emptyStore keys

variable {D} {keys : List UserKeyInfo}

section First

variable {known : List (List Char)} {tx : Transaction} {txs : List Transaction} {hash : List Char}

theorem savedFrom_unhashed {trap : Trap} (hashed : hashString D tx = .error trap) :
    savedFrom D known (tx :: txs) = tx :: savedFrom D known txs := by
  rw [savedFrom, hashed]

theorem savedFrom_known (hashed : hashString D tx = .ok hash) (there : hash ∈ known) :
    savedFrom D known (tx :: txs) = savedFrom D known txs := by
  rw [savedFrom, hashed]
  exact if_pos (List.contains_iff_mem.mpr there)

theorem savedFrom_new (hashed : hashString D tx = .ok hash) (new : hash ∉ known) :
    savedFrom D known (tx :: txs) = tx :: savedFrom D (known ++ [hash]) txs := by
  rw [savedFrom, hashed]
  exact if_neg fun there => new (List.contains_iff_mem.mp there)

end First

/-- A transaction that is there is not looked at again. -/
theorem add_known {rs : List Received} {tx : Transaction} {hash : List Char}
    (hashed : hashString D tx = .ok hash) (known : hash ∈ rs.map (·.info.txHash)) :
    add D (settled keys rs) tx = .ok (settled keys rs) := by
  have there : fetch (settled keys rs).transactions hash ≠ none := by
    change fetch (flagged _ _) hash ≠ none
    rw [fetch_flagged, ne_eq, fetch_none]
    obtain ⟨r,mem,same⟩ := List.mem_map.mp known
    exact fun missing => missing r.info (List.mem_map_of_mem mem) same
  unfold add
  rw [bind_ready hashed]
  cases found : fetch (settled keys rs).transactions hash with
  | none => exact absurd found there
  | some place => rfl

theorem add_hashed {s t : Store} {tx : Transaction} (run : add D s tx = .ok t) :
    ∃ hash, hashString D tx = .ok hash := by
  obtain ⟨hash,hashed,_⟩ := bind_ran.mp run
  exact ⟨hash,hashed⟩

theorem addAll_cons (s : Store) (tx : Transaction) (txs : List Transaction) :
    addAll D s (tx :: txs) = (add D s tx >>= fun s => addAll D s txs) := List.foldlM_cons

theorem addAll_hashed {s t : Store} {txs : List Transaction} (run : addAll D s txs = .ok t) :
    ∀ tx ∈ txs, ∃ hash, hashString D tx = .ok hash := by
  induction txs generalizing s with
  | nil => simp
  | cons tx txs ih =>
    rw [addAll_cons] at run
    obtain ⟨mid,first,rest⟩ := bind_ran.mp run
    intro other mem
    rcases List.mem_cons.mp mem with rfl | mem
    · exact add_hashed first
    · exact ih rest other mem

/-- The run is that of the transactions that are saved. -/
theorem addAll_savedFrom {rs : List Received} (distinct : (rs.map (·.info.txHash)).Nodup)
    (txs : List Transaction) :
    addAll D (settled keys rs) txs =
      addAll D (settled keys rs) (savedFrom D (rs.map (·.info.txHash)) txs) := by
  induction txs generalizing rs with
  | nil => rfl
  | cons tx txs ih =>
    cases hashed : hashString D tx with
    | error trap =>
      have stops : add D (settled keys rs) tx = .error trap := bind_halted hashed
      rw [savedFrom_unhashed hashed, addAll_cons, addAll_cons, bind_halted stops,
        bind_halted stops]
    | ok hash =>
      by_cases known : hash ∈ rs.map (·.info.txHash)
      · rw [savedFrom_known hashed known, addAll_cons, bind_ready (add_known hashed known),
          ih distinct]
      · rw [savedFrom_new hashed known, addAll_cons, addAll_cons]
        cases run : add D (settled keys rs) tx with
        | error trap => rfl
        | ok s =>
          obtain ⟨r,read,_,rfl,_⟩ := (add_settled hashed distinct known).mp run
          obtain ⟨hashes,apart⟩ := hashes_arrived hashed distinct known read
          have next := ih apart
          rw [hashes] at next
          exact next

theorem savedFrom_subset (known : List (List Char)) (txs : List Transaction) :
    ∀ tx ∈ savedFrom D known txs, tx ∈ txs := by
  induction txs generalizing known with
  | nil => simp [savedFrom]
  | cons tx txs ih =>
    intro other mem
    cases hashed : hashString D tx with
    | error trap =>
      rw [savedFrom_unhashed hashed] at mem
      rcases List.mem_cons.mp mem with rfl | mem
      · simp
      · exact List.mem_cons_of_mem tx (ih known other mem)
    | ok hash =>
      by_cases there : hash ∈ known
      · rw [savedFrom_known hashed there] at mem
        exact List.mem_cons_of_mem tx (ih known other mem)
      · rw [savedFrom_new hashed there] at mem
        rcases List.mem_cons.mp mem with rfl | mem
        · simp
        · exact List.mem_cons_of_mem tx (ih _ other mem)

theorem savedFrom_distinct {known : List (List Char)} (distinct : known.Nodup)
    {txs : List Transaction} (hashed : ∀ tx ∈ txs, ∃ hash, hashString D tx = .ok hash) :
    ∃ hashes, List.Forall₂ (fun tx hash => hashString D tx = .ok hash) (savedFrom D known txs)
      hashes ∧ (known ++ hashes).Nodup := by
  induction txs generalizing known with
  | nil => exact ⟨[],List.Forall₂.nil,by simpa using distinct⟩
  | cons tx txs ih =>
    obtain ⟨hash,first⟩ := hashed tx (by simp)
    have later : ∀ tx ∈ txs, ∃ hash, hashString D tx = .ok hash :=
      fun other mem => hashed other (List.mem_cons_of_mem tx mem)
    by_cases there : hash ∈ known
    · rw [savedFrom_known first there]
      exact ih distinct later
    · rw [savedFrom_new first there]
      have longer : (known ++ [hash]).Nodup := by
        refine List.nodup_append.mpr ⟨distinct,by simp,?_⟩
        intro a ha b hb same
        rw [same, List.mem_singleton.mp hb] at ha
        exact there ha
      obtain ⟨hashes,each,apart⟩ := ih longer later
      exact ⟨hash :: hashes,List.Forall₂.cons first each,by simpa using apart⟩

/-- A whole run of `add` on an empty database, whatever comes again in it. -/
theorem history_iff {txs : List Transaction}
    (hashed : ∀ tx ∈ txs, ∃ hash, hashString D tx = .ok hash) {s : Store} :
    addAll D (emptyStore keys) txs = .ok s ↔
      ∃ rs, (saved D txs).mapM (received D keys) = .ok rs ∧ Arrives keys [] rs ∧
        s = settled keys rs := by
  obtain ⟨hashes,each,apart⟩ := savedFrom_distinct List.nodup_nil hashed
  have reduced : addAll D (settled keys []) txs = addAll D (settled keys []) (saved D txs) :=
    addAll_savedFrom (by simp) txs
  rw [emptyStore_settled, reduced]
  exact addAll_settled each (by simpa using apart)

theorem history {txs : List Transaction} {s : Store}
    (run : addAll D (emptyStore keys) txs = .ok s) :
    ∃ rs, List.Forall₂ (fun tx r => received D keys tx = .ok r) (saved D txs) rs ∧
      (rs.map (·.info.txHash)).Nodup ∧ Arrives keys [] rs ∧ s = settled keys rs := by
  have hashed := addAll_hashed run
  obtain ⟨rs,read,arrives,same⟩ := (history_iff hashed).mp run
  obtain ⟨hashes,each,apart⟩ := savedFrom_distinct List.nodup_nil hashed
  have read := mapM_ran.mp read
  exact ⟨rs,read,by rw [received_hashes each read]; exact apart,arrives,same⟩

theorem addAll_append {txs txs' : List Transaction} {s t : Store} :
    addAll D s (txs ++ txs') = .ok t ↔ ∃ mid, addAll D s txs = .ok mid ∧
      addAll D mid txs' = .ok t := by
  rw [addAll, List.foldlM_append]
  exact bind_ran

theorem savedFrom_append (known : List (List Char)) (txs txs' : List Transaction) :
    savedFrom D known txs <+: savedFrom D known (txs ++ txs') := by
  induction txs generalizing known with
  | nil => simp [savedFrom]
  | cons tx txs ih =>
    rw [List.cons_append]
    cases hashed : hashString D tx with
    | error trap =>
      rw [savedFrom_unhashed hashed, savedFrom_unhashed hashed]
      simpa using ih known
    | ok hash =>
      by_cases there : hash ∈ known
      · rw [savedFrom_known hashed there, savedFrom_known hashed there]
        exact ih known
      · rw [savedFrom_new hashed there, savedFrom_new hashed there]
        simpa using ih (known ++ [hash])

/-- Each transaction that is saved was the last one saved at some time. -/
theorem savedFrom_last {known : List (List Char)} {txs : List Transaction} {tx : Transaction}
    (mem : tx ∈ savedFrom D known txs) :
    ∃ before earlier, before <+: txs ∧ savedFrom D known before = earlier ++ [tx] := by
  induction txs generalizing known with
  | nil => simp [savedFrom] at mem
  | cons first txs ih =>
    cases hashed : hashString D first with
    | error trap =>
      rw [savedFrom_unhashed hashed] at mem
      rcases List.mem_cons.mp mem with rfl | mem
      · exact ⟨[tx],[],by simp,savedFrom_unhashed hashed⟩
      · obtain ⟨before,earlier,front,last⟩ := ih mem
        exact ⟨first :: before,first :: earlier,by simpa using front,by
          rw [savedFrom_unhashed hashed, last, List.cons_append]⟩
    | ok hash =>
      by_cases there : hash ∈ known
      · rw [savedFrom_known hashed there] at mem
        obtain ⟨before,earlier,front,last⟩ := ih mem
        exact ⟨first :: before,earlier,by simpa using front,by
          rw [savedFrom_known hashed there, last]⟩
      · rw [savedFrom_new hashed there] at mem
        rcases List.mem_cons.mp mem with rfl | mem
        · exact ⟨[tx],[],by simp,savedFrom_new hashed there⟩
        · obtain ⟨before,earlier,front,last⟩ := ih mem
          exact ⟨first :: before,first :: earlier,by simpa using front,by
            rw [savedFrom_new hashed there, last, List.cons_append]⟩

end WalletHistory
