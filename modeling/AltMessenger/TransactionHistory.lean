import AltMessenger.SwiftRuntime

/-!
A transaction as the history shows it: which way the money went, how much of it, and what the
balance was before. The wallet counts in 64 bits, modulo their number.
-/
namespace TransactionHistory
open SwiftRuntime

inductive TransactionDirection where
  | sent
  | received
  | moved
  deriving DecidableEq, Repr

/-- What the wallet and the peers tell of a transaction. -/
structure Wallet where
  amountReceivedFromTx : UInt64
  amountSentByTx : UInt64
  /-- `BRWalletFeeForTx`, the greatest number if some input is not known -/
  cFee : UInt64
  balanceBefore : UInt64
  timestamp : UInt32
  blockHeight : UInt32
  lastBlockHeight : UInt32
  deriving DecidableEq, Repr

namespace Wallet
variable (wallet : Wallet)

def feeForTx : Option UInt64 := if wallet.cFee = 0xffffffffffffffff then none else some wallet.cFee

def balanceAfterTx : UInt64 :=
  wallet.balanceBefore + wallet.amountReceivedFromTx - wallet.amountSentByTx

end Wallet

structure Transaction where
  direction : TransactionDirection
  satoshis : UInt64
  fee : UInt64
  timestamp : Int64
  confirms : Int64
  deriving DecidableEq, Repr

/-- `Int(blockHeight - transactionBlockHeight) + 1` -/
def confirmations (transactionBlockHeight blockHeight : UInt32) : Except Trap Int64 :=
  if transactionBlockHeight > blockHeight then .ok 0
  else
    if transactionBlockHeight ≤ blockHeight then
      addInt64 (Int64.ofNat (blockHeight - transactionBlockHeight).toNat) 1
    else .error .overflow

/-- `amountSent > 0 && (amountReceived + fee) == amountSent`, the sum only if something was sent -/
def isMoved (amountSent amountReceived fee : UInt64) : Except Trap Bool :=
  if amountSent > 0 then do
    let total ← addUInt64 amountReceived fee
    pure (decide (total = amountSent))
  else pure false

/-- The direction and the amount. -/
def classify (amountSent amountReceived fee : UInt64) :
    Except Trap (TransactionDirection × UInt64) := do
  let moved ← isMoved amountSent amountReceived fee
  if moved then pure (.moved, amountSent)
  else if amountSent > 0 then do
    let kept ← subUInt64 amountSent amountReceived
    let satoshis ← subUInt64 kept fee
    pure (.sent, satoshis)
  else pure (.received, amountReceived)

/-- `Transaction.init?`, with a wallet and a peer manager -/
def Transaction.create (wallet : Wallet) : Except Trap Transaction := do
  let fee := wallet.feeForTx.getD 0
  let (direction, satoshis) ←
    classify wallet.amountSentByTx wallet.amountReceivedFromTx fee
  let confirms ← confirmations wallet.blockHeight wallet.lastBlockHeight
  pure
    { direction
      satoshis
      fee
      timestamp := Int64.ofNat wallet.timestamp.toNat
      confirms }

/-- The overflow is dropped, whichever way it goes. -/
def Transaction.startingBalance (tx : Transaction) (wallet : Wallet) : UInt64 :=
  match tx.direction with
  | .received => wallet.balanceAfterTx - tx.satoshis - tx.fee
  | .sent => wallet.balanceAfterTx + tx.satoshis + tx.fee
  | .moved => wallet.balanceAfterTx + tx.fee

/-- The transaction is shown, with the balance that was there before it. -/
def AddsUp (wallet : Wallet) : Prop :=
  ∃ tx, Transaction.create wallet = .ok tx ∧ tx.startingBalance wallet = wallet.balanceBefore

/-- A payment that only came in has no known fee, and one from the wallet's own coins does not
    bring the wallet more, the fee included, than it takes. -/
def OneWay (wallet : Wallet) : Prop :=
  if wallet.amountSentByTx = 0 then wallet.feeForTx.getD 0 = 0
  else wallet.amountReceivedFromTx.toNat + (wallet.feeForTx.getD 0).toNat ≤
    wallet.amountSentByTx.toNat

theorem confirmations_ran (transactionBlockHeight blockHeight : UInt32) :
    ∃ confirms, confirmations transactionBlockHeight blockHeight = .ok confirms := by
  unfold confirmations
  split
  case isTrue => exact ⟨_,rfl⟩
  case isFalse later =>
    have below := (blockHeight - transactionBlockHeight).toNat_lt
    have count : (Int64.ofNat (blockHeight - transactionBlockHeight).toNat).toInt =
        (blockHeight - transactionBlockHeight).toNat :=
      Int64.toInt_ofNat_of_lt (by omega)
    have one : (1 : Int64).toInt = 1 := rfl
    rw [if_pos (UInt32.not_lt.mp later)]
    exact ⟨_,addInt64_fits (by omega) (by omega)⟩

section Classification
variable {amountSent amountReceived fee : UInt64}

theorem classify_received (none_sent : amountSent = 0) :
    classify amountSent amountReceived fee = .ok (.received, amountReceived) := by
  subst none_sent
  rfl

theorem isMoved_ok (some_sent : amountSent ≠ 0) {moved : Bool} :
    isMoved amountSent amountReceived fee = .ok moved ↔
      amountReceived.toNat + fee.toNat < 2 ^ 64 ∧
        moved = decide (amountReceived.toNat + fee.toNat = amountSent.toNat) := by
  unfold isMoved
  rw [if_pos (UInt64.pos_iff_ne_zero.mpr some_sent)]
  have same (fits : amountReceived.toNat + fee.toNat < 2 ^ 64) :
      amountReceived + fee = amountSent ↔ amountReceived.toNat + fee.toNat = amountSent.toNat := by
    rw [← UInt64.toNat_inj, UInt64.toNat_add, Nat.mod_eq_of_lt fits]
  constructor
  · intro run
    obtain ⟨total,added,run⟩ := bind_ran.mp run
    obtain ⟨fits,rfl⟩ := addUInt64_ok.mp added
    cases run
    exact ⟨fits,decide_eq_decide.mpr (same fits)⟩
  · rintro ⟨fits,rfl⟩
    rw [bind_ready (addUInt64_ok.mpr ⟨fits,rfl⟩), ← decide_eq_decide.mpr (same fits)]
    rfl

theorem classify_moved (some_sent : amountSent ≠ 0)
    (same : amountReceived.toNat + fee.toNat = amountSent.toNat) :
    classify amountSent amountReceived fee = .ok (.moved, amountSent) := by
  have moved : isMoved amountSent amountReceived fee = .ok true :=
    (isMoved_ok some_sent).mpr ⟨same ▸ amountSent.toNat_lt,(decide_eq_true same).symm⟩
  unfold classify
  rw [bind_ready moved]
  rfl

/-- What is neither received nor moved is sent, if the coins cover it. -/
theorem classify_sent (some_sent : amountSent ≠ 0)
    (other : amountReceived.toNat + fee.toNat ≠ amountSent.toNat)
    {result : TransactionDirection × UInt64} :
    classify amountSent amountReceived fee = .ok result ↔
      amountReceived.toNat + fee.toNat < amountSent.toNat ∧
        result = (.sent, amountSent - amountReceived - fee) := by
  have bound := amountSent.toNat_lt
  have difference (less : amountReceived.toNat ≤ amountSent.toNat) :
      (amountSent - amountReceived).toNat = amountSent.toNat - amountReceived.toNat :=
    UInt64.toNat_sub_of_le _ _ (UInt64.le_iff_toNat_le.mpr less)
  unfold classify
  constructor
  · intro run
    obtain ⟨moved,first,run⟩ := bind_ran.mp run
    obtain ⟨-,rfl⟩ := (isMoved_ok some_sent).mp first
    rw [decide_eq_false other, if_neg Bool.false_ne_true,
      if_pos (UInt64.pos_iff_ne_zero.mpr some_sent)] at run
    obtain ⟨kept,first,run⟩ := bind_ran.mp run
    obtain ⟨satoshis,second,run⟩ := bind_ran.mp run
    obtain ⟨less,rfl⟩ := subUInt64_ok.mp first
    obtain ⟨lesser,rfl⟩ := subUInt64_ok.mp second
    cases run
    rw [difference less] at lesser
    exact ⟨by omega,rfl⟩
  · rintro ⟨less,rfl⟩
    have moved : isMoved amountSent amountReceived fee = .ok false :=
      (isMoved_ok some_sent).mpr ⟨by omega,(decide_eq_false other).symm⟩
    have first : subUInt64 amountSent amountReceived = .ok (amountSent - amountReceived) :=
      subUInt64_ok.mpr ⟨by omega,rfl⟩
    have second : subUInt64 (amountSent - amountReceived) fee =
        .ok (amountSent - amountReceived - fee) := by
      refine subUInt64_ok.mpr ⟨?_,rfl⟩
      rw [difference (by omega)]
      omega
    rw [bind_ready moved, if_neg Bool.false_ne_true, if_pos (UInt64.pos_iff_ne_zero.mpr some_sent),
      bind_ready first, bind_ready second]
    rfl

end Classification

theorem create_ok {wallet : Wallet} {tx : Transaction} :
    Transaction.create wallet = .ok tx ↔
      classify wallet.amountSentByTx wallet.amountReceivedFromTx (wallet.feeForTx.getD 0) =
          .ok (tx.direction, tx.satoshis) ∧
        tx.fee = wallet.feeForTx.getD 0 ∧
        tx.timestamp = Int64.ofNat wallet.timestamp.toNat ∧
        confirmations wallet.blockHeight wallet.lastBlockHeight = .ok tx.confirms := by
  unfold Transaction.create
  constructor
  · intro run
    obtain ⟨⟨direction,satoshis⟩,classified,run⟩ := bind_ran.mp run
    obtain ⟨confirms,counted,run⟩ := bind_ran.mp run
    cases run
    exact ⟨classified,rfl,rfl,counted⟩
  · rintro ⟨classified,fee,timestamp,counted⟩
    rw [bind_ready classified]
    dsimp only
    rw [bind_ready counted, ← fee, ← timestamp]
    rfl

/-- The initialiser returns and the balances add up exactly for payments that go one way. -/
theorem adds_up_iff (wallet : Wallet) : AddsUp wallet ↔ OneWay wallet := by
  obtain ⟨confirms,counted⟩ := confirmations_ran wallet.blockHeight wallet.lastBlockHeight
  have made : AddsUp wallet ↔ ∃ direction satoshis,
      classify wallet.amountSentByTx wallet.amountReceivedFromTx (wallet.feeForTx.getD 0) =
          .ok (direction, satoshis) ∧
        Transaction.startingBalance
          ⟨direction,satoshis,wallet.feeForTx.getD 0,Int64.ofNat wallet.timestamp.toNat,confirms⟩
          wallet = wallet.balanceBefore := by
    constructor
    · rintro ⟨⟨direction,satoshis,fee,timestamp,confirms'⟩,run,balance⟩
      obtain ⟨classified,rfl,rfl,counted'⟩ := create_ok.mp run
      cases counted.symm.trans counted'
      exact ⟨direction,satoshis,classified,balance⟩
    · rintro ⟨direction,satoshis,classified,balance⟩
      exact ⟨_,create_ok.mpr ⟨classified,rfl,rfl,counted⟩,balance⟩
  rw [made, OneWay]
  unfold Transaction.startingBalance Wallet.balanceAfterTx
  generalize wallet.feeForTx.getD 0 = fee
  by_cases none_sent : wallet.amountSentByTx = 0
  case pos =>
    rw [if_pos none_sent, classify_received none_sent, none_sent]
    have back : wallet.balanceBefore + wallet.amountReceivedFromTx - 0 -
        wallet.amountReceivedFromTx - fee = wallet.balanceBefore ↔ fee = 0 := by grind
    constructor
    · rintro ⟨direction,satoshis,same,balance⟩
      cases same
      exact back.mp balance
    · intro no_fee
      exact ⟨_,_,rfl,back.mpr no_fee⟩
  case neg =>
    rw [if_neg none_sent]
    by_cases same : wallet.amountReceivedFromTx.toNat + fee.toNat = wallet.amountSentByTx.toNat
    case pos =>
      refine iff_of_true ⟨_,_,classify_moved none_sent same,?_⟩ same.le
      have total : wallet.amountSentByTx = wallet.amountReceivedFromTx + fee := by
        apply UInt64.toNat_inj.mp
        rw [UInt64.toNat_add, same, Nat.mod_eq_of_lt wallet.amountSentByTx.toNat_lt]
      dsimp only
      rw [total]
      grind
    case neg =>
      constructor
      · rintro ⟨direction,satoshis,classified,-⟩
        exact ((classify_sent none_sent same).mp classified).1.le
      · intro covered
        have less := lt_of_le_of_ne covered same
        refine ⟨_,_,(classify_sent none_sent same).mpr ⟨less,rfl⟩,?_⟩
        dsimp only
        grind

/-- One satoshi of the wallet's is spent together with a stranger's coins, and ten come back. -/
def mixedPayment : Wallet := ⟨10,1,0xffffffffffffffff,100,0,1,1⟩

/-- Ten satoshis come in, out of coins all of which are known, though none is the wallet's. -/
def knownFee : Wallet := ⟨10,0,3,100,0,1,1⟩

theorem mixed_payment_traps :
    Transaction.create mixedPayment = .error .overflow ∧ ¬ AddsUp mixedPayment ∧
      Transaction.create knownFee = .ok ⟨.received,10,3,0,1⟩ ∧ ¬ AddsUp knownFee := by
  have traps : Transaction.create mixedPayment = .error .overflow := by decide +kernel
  have shown : Transaction.create knownFee = .ok ⟨.received,10,3,0,1⟩ := by decide +kernel
  refine ⟨traps,?_,shown,?_⟩
  · rintro ⟨tx,run,_⟩
    cases traps.symm.trans run
  · rintro ⟨tx,run,balance⟩
    cases shown.symm.trans run
    exact absurd balance (by decide)

end TransactionHistory
