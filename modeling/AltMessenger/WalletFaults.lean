import AltMessenger.WalletHistory
import AltMessenger.OrderIndependence
import AltMessenger.TransactionFee

/-!
When the sums and the subscripts of the wallet hold, whatever transactions come:
the values and the indexes in them are taken as they were sent.
-/
namespace WalletFaults
open ByteReader SwiftRuntime BitcoinHash BitcoinTransaction WalletStore WalletOrder WalletHistory
open OrderIndependence TransactionFee SpendOrder

/-- `add` returns, and so do `calculateBalance` and the fees on what it leaves. -/
def Booked (D : Digests) (s : Store) (tx : Transaction) : Prop :=
  ∃ t, add D s tx = .ok t ∧ (∃ b, calculateBalance t = .ok b) ∧
    ∀ info ∈ t.transactions, ∃ out, fee t.transactions info = .ok out

/-- Wherever a run comes to, the next transaction is booked if its scripts can be parsed. -/
def NeverTraps (D : Digests) (keys : List UserKeyInfo) (s : Store) (txs : List Transaction) :
    Prop :=
  ∀ before tx after, txs = before ++ tx :: after → ∀ t, addAll D s before = .ok t →
    (∃ r, received D keys tx = .ok r) → Booked D t tx

/-- After these have arrived: the own inputs of the last one name outputs that exist,
    and the sums of the balances and of the fees are values of `Int64`. -/
structure Bookable (keys : List UserKeyInfo) (rs : List Received) : Prop where
  named : ∀ earlier r, rs = earlier ++ [r] → InRange (rs.map (·.info)) r.inputs
  balances : BalancesFit keys rs
  fees : ∀ r ∈ rs, FeeFits (rs.map (·.info)) r.info

/-- Each time a transaction is new. -/
def BookkeepingFits (D : Digests) (keys : List UserKeyInfo) (txs : List Transaction) : Prop :=
  ∀ before rs, before <+: saved D txs → before.mapM (received D keys) = .ok rs →
    Bookable keys rs

section Run

variable {D : Digests} {keys : List UserKeyInfo} {rs : List Received}

theorem neverTraps_nil (s : Store) : NeverTraps D keys s [] := by
  intro before tx after split
  simp at split

theorem neverTraps_cons {s : Store} {tx : Transaction} {txs : List Transaction} :
    NeverTraps D keys s (tx :: txs) ↔ ((∃ r, received D keys tx = .ok r) → Booked D s tx) ∧
      ∀ t, add D s tx = .ok t → NeverTraps D keys t txs := by
  constructor
  · intro never
    refine ⟨fun read => never [] tx txs rfl s rfl read,?_⟩
    rintro t first before next after rfl u run read
    exact never (tx :: before) next after rfl u (by rw [addAll_cons, bind_ready first, run]) read
  · rintro ⟨first,later⟩ before next after split t run read
    cases before with
    | nil =>
      cases split
      cases run
      exact first read
    | cons other before =>
      cases split
      rw [addAll_cons] at run
      obtain ⟨mid,one,rest⟩ := bind_ran.mp run
      exact later mid one before next after rfl t rest read

theorem received_error {tx : Transaction} {trap : Trap} (hashed : hashString D tx = .error trap) :
    received D keys tx = .error trap := by
  have made : TransactionInfo.create D tx = .error trap := bind_halted hashed
  exact bind_halted made

theorem fees_settled :
    (∀ info ∈ (settled keys rs).transactions, ∃ out,
        fee (settled keys rs).transactions info = .ok out) ↔
      ∀ r ∈ rs, FeeFits (rs.map (·.info)) r.info := by
  have each : ∀ r ∈ rs, (∃ out, fee (settled keys rs).transactions
      (flagInfo (seen (arrivals rs)) r.info) = .ok out) ↔ FeeFits (rs.map (·.info)) r.info := by
    intro r _
    change (∃ out, fee (flagged _ _) _ = .ok out) ↔ _
    rw [fee_flagged, fee_fits]
  constructor
  · intro all r mem
    refine (each r mem).mp (all _ ?_)
    exact List.mem_map_of_mem (List.mem_map_of_mem mem)
  · intro all info mem
    obtain ⟨original,inside,rfl⟩ := List.mem_map.mp mem
    obtain ⟨r,there,rfl⟩ := List.mem_map.mp inside
    exact (each r there).mpr (all r there)

theorem booked_again (fits : Bookable keys rs) {tx : Transaction} {hash : List Char}
    (hashed : hashString D tx = .ok hash) (known : hash ∈ rs.map (·.info.txHash)) :
    Booked D (settled keys rs) tx :=
  ⟨settled keys rs,add_known hashed known,balancesFit_iff.mpr fits.balances,
    fees_settled.mpr fits.fees⟩

/-- A new transaction is booked exactly when all is in order after it. -/
theorem booked_iff {tx : Transaction} {hash : List Char} (hashed : hashString D tx = .ok hash)
    (distinct : (rs.map (·.info.txHash)).Nodup) (new : hash ∉ rs.map (·.info.txHash))
    {r : Received} (read : received D keys tx = .ok r) :
    Booked D (settled keys rs) tx ↔ Bookable keys (rs ++ [r]) := by
  constructor
  · rintro ⟨t,run,balances,fees⟩
    obtain ⟨r',read',named,rfl,_⟩ := (add_settled hashed distinct new).mp run
    cases read.symm.trans read'
    refine ⟨?_,balancesFit_iff.mp balances,fees_settled.mp fees⟩
    intro earlier last split
    obtain ⟨rfl,same⟩ := List.append_inj' split rfl
    cases same
    exact named
  · intro fits
    have balances := balancesFit_iff.mpr fits.balances
    exact ⟨_,(add_settled hashed distinct new).mpr ⟨r,read,fits.named rs r rfl,rfl,balances⟩,
      balances,fees_settled.mpr fits.fees⟩

section Fronts
variable {tx : Transaction} {rest : List Transaction}

theorem fronts_unread {trap : Trap} (unread : received D keys tx = .error trap)
    (fits : Bookable keys rs) {before : List Transaction} {new : List Received}
    (front : before <+: tx :: rest) (read : before.mapM (received D keys) = .ok new) :
    Bookable keys (rs ++ new) := by
  rcases List.prefix_cons_iff.mp front with rfl | ⟨later,rfl,_⟩
  · cases read
    simpa using fits
  · rw [List.mapM_cons, bind_halted unread] at read
    cases read

/-- The fronts of a list with one more transaction are this one with the fronts of the rest. -/
theorem fronts_read {r : Received} (read : received D keys tx = .ok r) (fits : Bookable keys rs) :
    (∀ before new, before <+: tx :: rest → before.mapM (received D keys) = .ok new →
      Bookable keys (rs ++ new)) ↔
      ∀ before new, before <+: rest → before.mapM (received D keys) = .ok new →
        Bookable keys (rs ++ [r] ++ new) := by
  constructor
  · intro all before new front more
    rw [List.append_assoc, List.singleton_append]
    refine all (tx :: before) (r :: new) ((List.prefix_cons_inj tx).mpr front) ?_
    rw [List.mapM_cons, bind_ready read, bind_ready more]
    rfl
  · intro all before new front more
    rcases List.prefix_cons_iff.mp front with rfl | ⟨later,rfl,onward⟩
    · cases more
      simpa using fits
    · rw [List.mapM_cons, bind_ready read] at more
      obtain ⟨rest_new,tail,more⟩ := bind_ran.mp more
      cases more
      have booked := all later rest_new onward tail
      rwa [List.append_assoc, List.singleton_append] at booked

end Fronts

theorem neverTraps_unread {s : Store} {tx : Transaction} {trap : Trap}
    (unread : received D keys tx = .error trap) (stops : ∀ t, add D s tx ≠ .ok t)
    (txs : List Transaction) : NeverTraps D keys s (tx :: txs) := by
  refine neverTraps_cons.mpr ⟨?_,fun t run => absurd run (stops t)⟩
  rintro ⟨r,read⟩
  cases unread.symm.trans read

theorem neverTraps_settled (distinct : (rs.map (·.info.txHash)).Nodup) (fits : Bookable keys rs)
    (txs : List Transaction) :
    NeverTraps D keys (settled keys rs) txs ↔
      ∀ before new, before <+: savedFrom D (rs.map (·.info.txHash)) txs →
        before.mapM (received D keys) = .ok new → Bookable keys (rs ++ new) := by
  induction txs generalizing rs with
  | nil =>
    refine iff_of_true (neverTraps_nil _) ?_
    intro before new front read
    cases List.prefix_nil.mp front
    cases read
    simpa using fits
  | cons tx txs ih =>
    cases hashed : hashString D tx with
    | error trap =>
      rw [savedFrom_unhashed hashed]
      have unread : received D keys tx = .error trap := received_error hashed
      refine iff_of_true (neverTraps_unread unread ?_ txs) fun _ _ => fronts_unread unread fits
      intro t run
      obtain ⟨hash,done⟩ := add_hashed run
      cases hashed.symm.trans done
    | ok hash =>
      by_cases known : hash ∈ rs.map (·.info.txHash)
      · rw [savedFrom_known hashed known, neverTraps_cons]
        have again : add D (settled keys rs) tx = _ := add_known hashed known
        refine Iff.trans ?_ (ih distinct fits)
        constructor
        · rintro ⟨_,later⟩
          exact later _ again
        · intro never
          refine ⟨fun _ => booked_again fits hashed known,?_⟩
          intro t run
          cases again.symm.trans run
          exact never
      · rw [savedFrom_new hashed known]
        cases read : received D keys tx with
        | error trap =>
          refine iff_of_true (neverTraps_unread read ?_ txs) fun _ _ => fronts_unread read fits
          intro t run
          obtain ⟨r,done⟩ := received_of_add hashed known run
          cases read.symm.trans done
        | ok r =>
          obtain ⟨hashes,apart⟩ := hashes_arrived hashed distinct known read
          rw [neverTraps_cons, booked_iff hashed distinct known read, fronts_read read fits,
            ← hashes]
          constructor
          · rintro ⟨here,later⟩
            have booked := here ⟨r,read⟩
            have first := (add_settled hashed distinct known).mpr
              ⟨r,read,booked.named rs r rfl,rfl,balancesFit_iff.mpr booked.balances⟩
            exact (ih apart booked).mp (later _ first)
          · intro all
            have booked : Bookable keys (rs ++ [r]) := by
              simpa using all [] [] List.nil_prefix rfl
            refine ⟨fun _ => booked,?_⟩
            intro t run
            obtain ⟨r',read',_,rfl,_⟩ := (add_settled hashed distinct known).mp run
            cases read.symm.trans read'
            exact (ih apart booked).mpr all

end Run

/-- The wallet never traps exactly when all sums fit and all own inputs name
    outputs that exist, each time a transaction is new. -/
theorem never_traps_iff (D : Digests) (keys : List UserKeyInfo) (txs : List Transaction) :
    NeverTraps D keys (emptyStore keys) txs ↔ BookkeepingFits D keys txs := by
  have start : Bookable keys [] := ⟨by simp,nothing_fits keys,by simp⟩
  rw [emptyStore_settled]
  exact neverTraps_settled (by simp) start txs

/-- Two coins of 2 ^ 62 for the own key. -/
def hugeFund : Transaction :=
  { fund with
    outputs := [{ value := 4611686018427387904, script := payToHash ownKeyHash },
      { value := 4611686018427387904, script := payToHash ownKeyHash }]
    hasOutput := Nat.two_pos }

def hugeDigests : Digests :=
  Digests.known
    [(encodeParts 1 hugeFund.inputs hugeFund.outputs 0,
        serialize 0xc7c3c49c9ab2b6e1a3e4c9d4c746913c4f7f689e0a0d4c632e369854434d7203),
      (serialize 0xc7c3c49c9ab2b6e1a3e4c9d4c746913c4f7f689e0a0d4c632e369854434d7203,
        serialize 0xba4b241c559267794f5117c2a332430cebcc5bb1b08a92cb3d76fb87d46e7673)] []

set_option maxRecDepth 8000 in
/-- It comes from the network as it is, and the balance overflows. -/
theorem hugeFund_traps :
    Transaction.fromBitcoinStream (encodeParts 1 hugeFund.inputs hugeFund.outputs 0) =
        .ok hugeFund [] ∧
      add hugeDigests (emptyStore [ownKey]) hugeFund = .error .overflow ∧
      ¬ NeverTraps hugeDigests [ownKey] (emptyStore [ownKey]) [hugeFund] := by
  have stops : add hugeDigests (emptyStore [ownKey]) hugeFund = .error .overflow := by decide
  refine ⟨by decide,stops,?_⟩
  intro never
  have parsed : ∃ r, received hugeDigests [ownKey] hugeFund = .ok r := ⟨_,rfl⟩
  obtain ⟨t,run,_⟩ := never [] hugeFund [] rfl _ rfl parsed
  cases stops.symm.trans run

end WalletFaults
