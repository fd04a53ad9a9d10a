import AltMessenger.BRWalletSpending

/-!
What becomes of a payment that needs more unspent outputs than fit into one transaction. The wallet
lowers the last amount to what those that fit pay for, and begins again. The fee then rounds off
another remainder, and so the inputs again do not pay exactly.
-/
namespace BRWalletTooLarge
open BRTransactions JudgedLedger BRWallets BRWalletOperations BRWalletAddresses BRWalletRuns
  BRWalletSpending

/-- The unspent outputs that fit do not pay for everything, while all that the wallet has would.
    They pay for the other outputs, a fee and a last output that is not too small. Each of them is
    worth more than its own fee. -/
structure Overfull (w : BRWallet) (front : List BRTxOutput) (last : BRTxOutput)
    (used : List BRUTXO) (o : BRUTXO) (rest : List BRUTXO) : Prop where
  parts : w.utxos = used ++ o :: rest
  some_used : used ≠ []
  modest : Modest w (front ++ [last])
  fits : BRTransactionSize (spending w (front ++ [last]) used) + TX_OUTPUT_SIZE ≤ TX_MAX_SIZE
  large : TX_MAX_SIZE <
    BRTransactionSize (spending w (front ++ [last]) (used ++ [o])) + TX_OUTPUT_SIZE
  short : trueSum (used.map (amountOf w)) < trueSum (front.map BRTxOutput.amount) +
    last.amount.toNat + baseFee w (front ++ [last]) used
  funds : trueSum (front.map BRTxOutput.amount) + last.amount.toNat +
    max (baseFee w (front ++ [last]) used) (txFee w.feePerKb (10 + w.utxos.length * TX_INPUT_SIZE +
      ((front ++ [last]).length + 1) * TX_OUTPUT_SIZE)).toNat <
        trueSum (w.utxos.map (amountOf w))
  enough : trueSum (front.map BRTxOutput.amount) + baseFee w (front ++ [last]) used + 100 +
    (BRWalletMinOutputAmount w).toNat ≤ trueSum (used.map (amountOf w))
  worth : ∀ p q, used = p ++ q → p ≠ [] → q ≠ [] →
    trueSum (p.map (amountOf w)) + baseFee w (front ++ [last]) used + 100 ≤
      trueSum (used.map (amountOf w)) + baseFee w (front ++ [last]) p

/-- The outputs with another last amount -/
def withLast (front : List BRTxOutput) (last : BRTxOutput) (amount : UInt64) : List BRTxOutput :=
  front ++ [{ last with amount }]

section Changing
variable {w : BRWallet} {front : List BRTxOutput} {last : BRTxOutput} {used rest : List BRUTXO}
  {o : BRUTXO} {amount : UInt64} {draft : Draft}

theorem withLast_same (front : List BRTxOutput) (last : BRTxOutput) :
    withLast front last last.amount = front ++ [last] := rfl

theorem withLast_size (w : BRWallet) (amount : UInt64) (p : List BRUTXO) :
    BRTransactionSize (spending w (withLast front last amount) p) =
      BRTransactionSize (spending w (front ++ [last]) p) := by
  rw [size_spending, size_spending, withLast]
  simp [outputSize]

theorem withLast_fee (w : BRWallet) (amount : UInt64) (p : List BRUTXO) :
    baseFee w (withLast front last amount) p = baseFee w (front ++ [last]) p := by
  rw [baseFee, withLast_size, baseFee]

theorem withLast_sum (front : List BRTxOutput) (last : BRTxOutput) (amount : UInt64) :
    trueSum ((withLast front last amount).map BRTxOutput.amount) =
      trueSum (front.map BRTxOutput.amount) + amount.toNat := by
  rw [withLast, List.map_append, trueSum_append]
  rfl

theorem Overfull.modest_with (full : Overfull w front last used o rest)
    (less : amount ≤ last.amount) : Modest w (withLast front last amount) where
  coins := full.modest.coins
  sent := by
    have sent := full.modest.sent
    rw [← withLast_same, withLast_sum] at sent
    rw [withLast_sum]
    have le := UInt64.le_iff_toNat_le.mp less
    omega
  feePerKb := full.modest.feePerKb
  scripts := by
    have scripts := full.modest.scripts
    rw [List.map_append] at scripts
    rw [withLast, List.map_append]
    exact scripts

/-- What is left in the wallet -/
theorem Overfull.balance (full : Overfull w front last used o rest) :
    trueSum (w.utxos.map (amountOf w)) = trueSum (used.map (amountOf w)) +
      trueSum ((o :: rest).map (amountOf w)) := by
  rw [full.parts, List.map_append, trueSum_append]

/-- The fee for some first inputs, at least for their size -/
theorem drafted_fee {outputs : List BRTxOutput} {p q : List BRUTXO} (modest : Modest w outputs)
    (parts : w.utxos = p ++ q) (drafted : Drafted w (sumOf outputs) outputs p draft) :
    (sumOf outputs + draft.feeAmount).toNat =
        trueSum (outputs.map BRTxOutput.amount) + draft.feeAmount.toNat ∧
      draft.balance.toNat = trueSum (p.map (amountOf w)) := by
  obtain ⟨coins,few_coins⟩ := total_toNat modest parts
  obtain ⟨sent,few_sent⟩ := sumOf_toNat modest
  obtain ⟨small,least,most⟩ := drafted.fee_bounds modest
  refine ⟨?_,by rw [drafted.balance, coins]⟩
  rw [UInt64.toNat_add, sent]
  omega

/-- The loop does not stop where too little is put in. -/
theorem not_stops {outputs : List BRTxOutput} {p q : List BRUTXO} (modest : Modest w outputs)
    (parts : w.utxos = p ++ q) (drafted : Drafted w (sumOf outputs) outputs p draft)
    (little : trueSum (p.map (amountOf w)) <
      trueSum (outputs.map BRTxOutput.amount) + baseFee w outputs p) :
    ¬ Stops (sumOf outputs) (BRWalletMinOutputAmount w) draft := by
  obtain ⟨asked,put_in⟩ := drafted_fee modest parts drafted
  obtain ⟨small,least,most⟩ := drafted.fee_bounds modest
  obtain ⟨-,few_sent⟩ := sumOf_toNat modest
  obtain ⟨-,min_most⟩ := minOutput_toNat (w := w) modest.feePerKb
  have sent := (sumOf_toNat modest).1
  rintro (exact_pay | more)
  · have same := congrArg UInt64.toNat exact_pay
    omega
  · rw [UInt64.le_iff_toNat_le, UInt64.toNat_add, asked] at more
    omega

/-- Two first parts of one list: one is the other, or shorter, or longer. -/
theorem first_parts {α : Type} {p q used rest : List α} {o : α}
    (same : p ++ q = used ++ o :: rest) :
    p = used ∨ (∃ next left, used = p ++ next :: left) ∨ ∃ more, p = used ++ o :: more := by
  rcases List.append_eq_append_iff.mp same with ⟨left,longer,-⟩ | ⟨more,longer,tail⟩
  · cases left with
    | nil => exact .inl (by rw [longer, List.append_nil])
    | cons next left => exact .inr (.inl ⟨next,left,longer⟩)
  · cases more with
    | nil => exact .inl (by rw [longer, List.append_nil])
    | cons first more =>
      cases List.head_eq_of_cons_eq tail
      exact .inr (.inr ⟨more,longer⟩)

theorem Overfull.too_large (full : Overfull w front last used o rest) (amount : UInt64)
    (more : List BRUTXO) : TX_MAX_SIZE <
      BRTransactionSize (spending w (withLast front last amount) (used ++ o :: more)) +
        TX_OUTPUT_SIZE := by
  rw [withLast_size]
  by_contra small
  have limit : TX_MAX_SIZE < 2 ^ 64 := by decide
  rw [List.append_cons used] at small
  have smaller := @size_front w (front ++ [last]) (used ++ [o]) more (by omega)
  have large := full.large
  omega

/-- Before the last of those inputs the loop goes on. -/
theorem Overfull.goes_on (full : Overfull w front last used o rest) (less : amount ≤ last.amount)
    (near : trueSum (used.map (amountOf w)) < trueSum (front.map BRTxOutput.amount) +
      amount.toNat + baseFee w (front ++ [last]) used + 100)
    {p q : List BRUTXO} {next : BRUTXO} {left : List BRUTXO} (shorter : used = p ++ next :: left)
    (parts : w.utxos = p ++ q)
    (drafted : Drafted w (sumOf (withLast front last amount)) (withLast front last amount) p
      draft) :
    ¬ Stops (sumOf (withLast front last amount)) (BRWalletMinOutputAmount w) draft := by
  refine not_stops (full.modest_with less) parts drafted ?_
  rw [withLast_sum, withLast_fee]
  by_cases none_yet : p = []
  · have fee := @txFee_toNat w.feePerKb (BRTransactionSize (spending w (front ++ [last]) []) +
      TX_OUTPUT_SIZE) full.modest.feePerKb full.modest.size_lt
    have size : 1 ≤ TX_OUTPUT_SIZE := by decide
    rw [none_yet, baseFee, fee]
    change 0 < _
    omega
  · have worth := full.worth p (next :: left) shorter none_yet (List.cons_ne_nil _ _)
    omega

/-- With any last amount that those inputs do not overpay, the loop uses just them. -/
theorem Overfull.picks (full : Overfull w front last used o rest)
    (found : ∀ o ∈ w.utxos, (w.outputOf o).isSome) (less : amount ≤ last.amount)
    (near : trueSum (used.map (amountOf w)) < trueSum (front.map BRTxOutput.amount) +
      amount.toNat + baseFee w (front ++ [last]) used + 100) :
    ∃ draft, Drafted w (sumOf (withLast front last amount)) (withLast front last amount) used
        draft ∧
      pick w (sumOf (withLast front last amount)) (BRWalletMinOutputAmount w) w.utxos
        (firstDraft w (withLast front last amount)) =
        if draft.balance = sumOf (withLast front last amount) + draft.feeAmount then .built draft
        else .tooLarge draft := by
  have modest := full.modest_with less
  rcases pick_spec (BRWalletMinOutputAmount w) found
      (firstDraft_drafted w (sumOf (withLast front last amount)) (withLast front last amount))
      (fun none => absurd rfl none) with
    ⟨p,q,draft,parts,picked,drafted,ends⟩ | ⟨p,o',q,draft,parts,picked,drafted,large,goes_on⟩
  · rw [List.nil_append] at drafted
    rcases first_parts (parts.symm.trans full.parts) with rfl | ⟨next,left,shorter⟩ |
      ⟨more,longer⟩
    · have stops := ends.resolve_left fun none_left => by
        have all := full.parts.symm.trans parts
        rw [none_left] at all
        exact List.cons_ne_nil _ _ (List.append_cancel_left all)
      refine ⟨draft,drafted,?_⟩
      rw [picked, if_pos]
      refine stops.resolve_right fun more => ?_
      obtain ⟨asked,put_in⟩ := drafted_fee modest parts drafted
      obtain ⟨small,least,most⟩ := drafted.fee_bounds modest
      obtain ⟨min_least,min_most⟩ := minOutput_toNat (w := w) modest.feePerKb
      obtain ⟨sent,few_sent⟩ := sumOf_toNat modest
      rw [UInt64.le_iff_toNat_le, UInt64.toNat_add, asked, put_in] at more
      rw [withLast_sum] at *
      rw [withLast_fee] at *
      omega
    · refine absurd (ends.resolve_left fun none_left => ?_)
        (full.goes_on less near shorter parts drafted)
      have all := full.parts.symm.trans parts
      rw [none_left, List.append_nil, shorter] at all
      simp at all
    · refine absurd (drafted.small ?_) (Nat.not_le.mpr ?_)
      · rw [longer]
        simp
      · rw [longer]
        exact full.too_large amount more
  · rw [List.nil_append] at drafted large goes_on
    rcases first_parts (parts.symm.trans full.parts) with rfl | ⟨next,left,shorter⟩ |
      ⟨more,longer⟩
    · refine ⟨draft,drafted,?_⟩
      rw [picked, if_neg]
      exact (not_or.mp (goes_on full.some_used)).1
    · have follows := parts.symm.trans full.parts
      rw [shorter, List.append_assoc] at follows
      cases List.head_eq_of_cons_eq (List.append_cancel_left follows)
      have fits := full.fits
      have limit : TX_MAX_SIZE < 2 ^ 64 := by decide
      rw [shorter, List.append_cons p] at fits
      have smaller := @size_front w (front ++ [last]) (p ++ [o']) left (by omega)
      rw [withLast_size] at large
      omega
    · refine absurd (drafted.small ?_) (Nat.not_le.mpr ?_)
      · rw [longer]
        simp
      · rw [longer]
        exact full.too_large amount more

/-- What such a call spends on the fee -/
theorem Overfull.fee (full : Overfull w front last used o rest)
    (total_of : w.balance.toNat = trueSum (w.utxos.map (amountOf w))) (less : amount ≤ last.amount)
    (drafted : Drafted w (sumOf (withLast front last amount)) (withLast front last amount) used
      draft) :
    draft.feeAmount.toNat = baseFee w (front ++ [last]) used +
      (trueSum (w.utxos.map (amountOf w)) - (trueSum (front.map BRTxOutput.amount) +
        amount.toNat + baseFee w (front ++ [last]) used)) % 100 := by
  have modest := full.modest_with less
  obtain ⟨small,-,-⟩ := drafted.fee_bounds modest
  obtain ⟨sent,few_sent⟩ := sumOf_toNat modest
  have funds := full.funds
  have coins := full.modest.coins
  have le := UInt64.le_iff_toNat_le.mp less
  have base : (txFee w.feePerKb (BRTransactionSize (spending w (withLast front last amount) used) +
      TX_OUTPUT_SIZE)).toNat = baseFee w (front ++ [last]) used :=
    withLast_fee w amount used
  rw [withLast_fee] at small
  rw [withLast_sum] at sent
  have asked : (sumOf (withLast front last amount) + txFee w.feePerKb (BRTransactionSize
      (spending w (withLast front last amount) used) + TX_OUTPUT_SIZE)).toNat =
        trueSum (front.map BRTxOutput.amount) + amount.toNat +
          baseFee w (front ++ [last]) used := by
    rw [UInt64.toNat_add, base, sent]
    omega
  rw [drafted.feeAmount, if_neg full.some_used, feeFor]
  rw [if_pos, UInt64.toNat_add, base, UInt64.toNat_mod, UInt64.toNat_sub_of_le, asked, total_of]
  · change (_ + _ % 100) % 2 ^ 64 = _
    omega
  · rw [UInt64.le_iff_toNat_le, asked, total_of]
    omega
  · rw [UInt64.lt_iff_toNat_lt, asked, total_of]
    omega

end Changing

section Rounds
variable {address : BRTxOutput → Address} {derive : Bool → Nat → Option Address}
  {scriptFor : Address → List UInt8} {rand : Nat → Nat} {call : Call} {rank : UInt256 → Nat}
  {w : BRWallet} {front : List BRTxOutput} {last : BRTxOutput} {used rest : List BRUTXO}
  {o : BRUTXO} {amount : UInt64}

/-- What the wallet has is the sum of its unspent outputs. -/
theorem balance_toNat (sound : Sound address derive rank w)
    (full : Overfull w front last used o rest) :
    w.balance.toNat = trueSum (w.utxos.map (amountOf w)) := by
  rw [sound.balance]
  exact (total_toNat full.modest (List.append_nil _).symm).1

/-- One call returns if those inputs pay exactly. Otherwise it is made again, with the last amount
    that they would have paid for. -/
theorem Overfull.round (full : Overfull w front last used o rest)
    (sound : Sound address derive rank w) (less : amount ≤ last.amount)
    (near : trueSum (used.map (amountOf w)) < trueSum (front.map BRTxOutput.amount) +
      amount.toNat + baseFee w (front ++ [last]) used + 100) (depth : Nat) :
    ∃ fee, fee = baseFee w (front ++ [last]) used + (trueSum (w.utxos.map (amountOf w)) -
        (trueSum (front.map BRTxOutput.amount) + amount.toNat +
          baseFee w (front ++ [last]) used)) % 100 ∧
      ((trueSum (used.map (amountOf w)) =
          trueSum (front.map BRTxOutput.amount) + amount.toNat + fee ∧
        ∃ result, createWithin derive scriptFor rand call (depth + 1) w
          (withLast front last amount) = some (w,result)) ∨
      trueSum (used.map (amountOf w)) ≠
          trueSum (front.map BRTxOutput.amount) + amount.toNat + fee ∧
        ∃ next ≤ last.amount, trueSum (front.map BRTxOutput.amount) + next.toNat + fee =
            trueSum (used.map (amountOf w)) ∧
          createWithin derive scriptFor rand call (depth + 1) w (withLast front last amount) =
            createWithin derive scriptFor rand call depth w (withLast front last next)) := by
  have found : ∀ o ∈ w.utxos, (w.outputOf o).isSome := by
    intro o there
    obtain ⟨t,-,-,output,here,-⟩ := owned_found sound there
    rw [here]
    rfl
  have modest := full.modest_with less
  obtain ⟨draft,drafted,picked⟩ := full.picks found less near
  have fee := full.fee (balance_toNat sound full) less drafted
  obtain ⟨asked,put_in⟩ := drafted_fee modest full.parts drafted
  rw [withLast_sum] at asked
  have pays : draft.balance = sumOf (withLast front last amount) + draft.feeAmount ↔
      trueSum (used.map (amountOf w)) =
        trueSum (front.map BRTxOutput.amount) + amount.toNat + draft.feeAmount.toNat := by
    rw [← UInt64.toNat_inj, asked, put_in]
  refine ⟨draft.feeAmount.toNat,fee,?_⟩
  rw [createWithin, picked]
  by_cases exactly : draft.balance = sumOf (withLast front last amount) + draft.feeAmount
  · refine .inl ⟨pays.mp exactly,some draft.transaction,?_⟩
    have some_output : ¬ (withLast front last amount).length < 1 := by simp [withLast]
    obtain ⟨min_least,-⟩ := minOutput_toNat (w := w) modest.feePerKb
    rw [if_pos exactly]
    change finish derive scriptFor rand call w (withLast front last amount) draft = _
    unfold finish
    rw [exactly, UInt64.sub_self, if_neg, if_neg]
    · rw [UInt64.le_iff_toNat_le]
      change ¬ _ ≤ 0
      omega
    · rintro (none_there | less_in)
      · exact some_output none_there
      · exact UInt64.lt_irrefl _ less_in
  · refine .inr ⟨fun same => exactly (pays.mpr same),?_⟩
    obtain ⟨min_least,min_most⟩ := minOutput_toNat (w := w) modest.feePerKb
    obtain ⟨coins,few_coins⟩ := total_toNat modest full.parts
    obtain ⟨sent,few_sent⟩ := sumOf_toNat modest
    have le := UInt64.le_iff_toNat_le.mp less
    have enough := full.enough
    have short := full.short
    rw [withLast_sum] at sent
    have below : draft.feeAmount.toNat < baseFee w (front ++ [last]) used + 100 := by omega
    have funds : ¬ w.balance < sumOf (withLast front last amount) + txFee w.feePerKb (10 +
        w.utxos.length * TX_INPUT_SIZE +
          ((withLast front last amount).length + 1) * TX_OUTPUT_SIZE) := by
      have funds := full.funds
      have same : (withLast front last amount).length = (front ++ [last]).length := by
        simp [withLast]
      rw [UInt64.lt_iff_toNat_lt, balance_toNat sound full, UInt64.toNat_add, sent, same]
      refine Nat.not_lt.mpr ((Nat.mod_le _ _).trans ?_)
      omega
    have with_min : (sumOf (withLast front last amount) + draft.feeAmount +
        BRWalletMinOutputAmount w).toNat = trueSum (front.map BRTxOutput.amount) +
          amount.toNat + draft.feeAmount.toNat + (BRWalletMinOutputAmount w).toNat := by
      rw [UInt64.toNat_add, asked]
      omega
    have reducible : sumOf (withLast front last amount) + draft.feeAmount +
        BRWalletMinOutputAmount w - draft.balance < amount := by
      rw [UInt64.lt_iff_toNat_lt, UInt64.toNat_sub_of_le, with_min]
      · omega
      · rw [UInt64.le_iff_toNat_le, with_min]
        omega
    have next : (amount - (sumOf (withLast front last amount) + draft.feeAmount -
        draft.balance)).toNat = trueSum (used.map (amountOf w)) -
          (trueSum (front.map BRTxOutput.amount) + draft.feeAmount.toNat) := by
      rw [UInt64.toNat_sub, UInt64.toNat_sub, asked, put_in]
      omega
    refine ⟨amount - (sumOf (withLast front last amount) + draft.feeAmount - draft.balance),
      ?_,?_,?_⟩
    · rw [UInt64.le_iff_toNat_le, next]
      omega
    · rw [next]
      omega
    · rw [if_neg exactly]
      dsimp only
      rw [if_neg funds]
      simp only [withLast, List.getLast?_concat, List.dropLast_concat, Option.bind_eq_bind,
        Option.bind_some]
      exact if_pos reducible

/-- Once the inputs pay with some remainder rounded off, the next call rounds off this remainder and
    what is left in the wallet. -/
theorem Overfull.next_round (full : Overfull w front last used o rest)
    (sound : Sound address derive rank w) (less : amount ≤ last.amount) {remainder : Nat}
    (below : remainder < 100)
    (paid : trueSum (front.map BRTxOutput.amount) + amount.toNat +
      (baseFee w (front ++ [last]) used + remainder) = trueSum (used.map (amountOf w)))
    (depth : Nat) :
    ((trueSum ((o :: rest).map (amountOf w)) + remainder) % 100 = remainder ∧
      ∃ result, createWithin derive scriptFor rand call (depth + 1) w
        (withLast front last amount) = some (w,result)) ∨
    (trueSum ((o :: rest).map (amountOf w)) + remainder) % 100 ≠ remainder ∧
      ∃ next ≤ last.amount, trueSum (front.map BRTxOutput.amount) + next.toNat +
          (baseFee w (front ++ [last]) used +
            (trueSum ((o :: rest).map (amountOf w)) + remainder) % 100) =
          trueSum (used.map (amountOf w)) ∧
        createWithin derive scriptFor rand call (depth + 1) w (withLast front last amount) =
          createWithin derive scriptFor rand call depth w (withLast front last next) := by
  have split := full.balance
  have rounded : (trueSum (w.utxos.map (amountOf w)) - (trueSum (front.map BRTxOutput.amount) +
      amount.toNat + baseFee w (front ++ [last]) used)) =
        trueSum ((o :: rest).map (amountOf w)) + remainder := by
    omega
  obtain ⟨fee,same,round⟩ := @Overfull.round address derive scriptFor rand call rank w front last
    used rest o amount full sound less (by omega) depth
  rw [rounded] at same
  rw [same] at round
  rcases round with ⟨pays,returns⟩ | ⟨differs,next,less',paid',again⟩
  · exact .inl ⟨by omega,returns⟩
  · exact .inr ⟨by omega,next,less',paid',again⟩

end Rounds

/-- A wallet with two unspent outputs, and a payment with a long script that leaves space for one -/
def twoDeposits : BRTransaction :=
  { payment with outputs := [⟨6000000,[1]⟩, ⟨6000050,[1]⟩] }

def paidTwice : BRWallet :=
  { emptyWallet with
    allTx := [twoDeposits]
    transactions := [twoDeposits]
    externalChain := [['e']]
    allAddrs := [['e']] }

theorem paidTwice_kept : Kept firstAddress longer BitVec.toNat paidTwice where
  once := by decide
  listed := by decide
  distinct := by decide
  safe tx there := by
    cases List.mem_singleton.mp there
    exact ⟨by decide,by decide⟩
  chains := chains_congr listing_kept.chains rfl rfl rfl
  associated := by decide

def longOutput : BRTxOutput := ⟨1000,List.replicate 99700 2⟩

theorem longOutput_size : outputSize longOutput = 99713 := by
  rw [outputSize, longOutput, List.length_replicate]
  decide

end BRWalletTooLarge
