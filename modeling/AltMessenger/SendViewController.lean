import AltMessenger.TransitionRuns

/-!
The send screen: its two fields, the transaction its sender keeps, and the
screens put over it. The transaction is built on a tap that finds none; every
later tap shows the fields as they are then.
-/
namespace SendViewController
open TransitionRuns

/-- What is paid to whom, in satoshis. -/
structure Payment where
  address : List Char
  amount : UInt64
  deriving DecidableEq

/-- The wallet as a tap finds it. Its transactions pay what they are made for. -/
structure Wallet {Tx : Type} (pays : Tx → Payment) where
  minOutputAmount : UInt64
  maxOutputAmount : UInt64
  containsAddress : List Char → Bool
  createTransaction : UInt64 → List Char → Option Tx
  pays_exactly : ∀ amount toAddress tx, createTransaction amount toAddress = some tx →
    pays tx = { address := toAddress, amount }

inductive Alert where
  | noAddress | invalidAddress | noAmount | smallPayment | containsAddress | insufficientFunds
  | createTransactionError
  deriving DecidableEq, Repr

/-- The screen over the send screen, with what it showed when it came up. -/
inductive Screen where
  | confirmation : Payment → Screen
  | authorization : Payment → Screen
  deriving DecidableEq

structure State (Tx : Type) where
  address : Option (List Char)
  amount : Option UInt64
  transaction : Option Tx
  screen : Option Screen
  alert : Option Alert
  published : List (Payment × Tx)
  deriving DecidableEq

def State.initial {Tx : Type} : State Tx where
  address := none
  amount := none
  transaction := none
  screen := none
  alert := none
  published := []

/-- How an attempt to sign ends: a wrong PIN leaves the screen up. -/
inductive Authentication where
  | success | wrong | cancelled
  deriving DecidableEq, Repr

inductive Event {Tx : Type} (pays : Tx → Payment) where
  | addressEdited : Option (List Char) → Event pays
  | amountEdited : Option UInt64 → Event pays
  | localRequest : Option (List Char) → Option UInt64 → Event pays
  | sendTapped : Option (Wallet pays) → Event pays
  | confirmed : Bool → Event pays
  | cancelled : Event pays
  | authenticated : Authentication → Event pays

variable {Tx : Type} {pays : Tx → Payment} (isValidAddress : List Char → Bool)

def State.showAlert (s : State Tx) (alert : Alert) : State Tx := { s with alert := some alert }

/-- `sender.createTransaction(amount:to:)`, which keeps what it made. -/
def createTransaction (s : State Tx) (wallet : Option (Wallet pays)) (amount : UInt64)
    (toAddress : List Char) : Bool × State Tx :=
  let transaction := wallet.bind fun wallet => wallet.createTransaction amount toAddress
  (transaction.isSome,{ s with transaction })

/-- The part of `sendTapped` that is skipped while a transaction is kept. The
    guards come in the order of the source; `none` is a way past all of them. -/
def build (s : State Tx) (wallet : Option (Wallet pays)) : Option Alert × State Tx :=
  match s.address with
  | none => (some .noAddress,s)
  | some address =>
    if isValidAddress address = false then (some .invalidAddress,s)
    else match s.amount with
    | none => (some .noAmount,s)
    | some amount =>
      if wallet.any (fun wallet => decide (amount < wallet.minOutputAmount)) then
        (some .smallPayment,s)
      else if wallet.any (fun wallet => wallet.containsAddress address) then
        (some .containsAddress,s)
      else if (wallet.map (·.maxOutputAmount)).getD 0 < amount then (some .insufficientFunds,s)
      else match createTransaction s wallet amount address with
      | (true,s) => (none,s)
      | (false,s) => (some .createTransactionError,s)

/-- A screen comes up only where none is. -/
def State.present (s : State Tx) (screen : Screen) : State Tx :=
  match s.screen with
  | none => { s with screen := some screen }
  | some _ => s

/-- The confirmation is made from the fields, not from the transaction. -/
def confirm (s : State Tx) : State Tx :=
  match s.amount with
  | none => s
  | some amount => s.present (.confirmation { address := s.address.getD [], amount })

def sendTapped (s : State Tx) (wallet : Option (Wallet pays)) : State Tx :=
  match s.transaction with
  | some _ => confirm s
  | none =>
    match build isValidAddress s wallet with
    | (some alert,s) => s.showAlert alert
    | (none,s) => confirm s

def step (s : State Tx) : Event pays → Option (State Tx)
  | .addressEdited text => some { s with address := text }
  | .amountEdited amount => some { s with amount }
  | .localRequest toAddress amount =>
    some { s with address := toAddress, amount := amount.orElse fun _ => s.amount }
  | .sendTapped wallet => some (sendTapped isValidAddress s wallet)
  | .confirmed ready =>
    match s.screen with
    | some (.confirmation shown) =>
      -- without a rate or a wallet `send` gives up in silence
      some { s with screen := if ready then some (.authorization shown) else none }
    | _ => none
  | .cancelled =>
    match s.screen with
    | some (.confirmation _) => some { s with screen := none }
    | _ => none
  | .authenticated result =>
    match s.screen with
    | some (.authorization shown) =>
      match result with
      | .wrong => some s
      | .cancelled => some { s with screen := none }
      | .success =>
        some { s with
          screen := none
          published := s.published ++ (s.transaction.map fun tx => (shown,tx)).toList }
    | _ => none

/-- A tap that confirms a transaction kept from before finds the fields it was
    built from. -/
def Unedited (s : State Tx) : Event pays → Prop
  | .sendTapped _ => s.screen = none → ∀ tx ∈ s.transaction, ∀ amount ∈ s.amount,
      pays tx = { address := s.address.getD [], amount }
  | _ => True

instance (s : State Tx) : (e : Event pays) → Decidable (Unedited s e)
  | .sendTapped _ =>
    have (tx : Tx) : Decidable (∀ amount ∈ s.amount,
        pays tx = { address := s.address.getD [], amount }) := Option.decidableForallMem s.amount
    have : Decidable (∀ tx ∈ s.transaction, ∀ amount ∈ s.amount,
        pays tx = { address := s.address.getD [], amount }) :=
      Option.decidableForallMem s.transaction
    decidable_of_iff (s.screen = none → ∀ tx ∈ s.transaction, ∀ amount ∈ s.amount, _) Iff.rfl
  | .addressEdited _ => .isTrue trivial
  | .amountEdited _ => .isTrue trivial
  | .localRequest _ _ => .isTrue trivial
  | .confirmed _ => .isTrue trivial
  | .cancelled => .isTrue trivial
  | .authenticated _ => .isTrue trivial

def Screen.shown : Screen → Payment
  | .confirmation shown => shown
  | .authorization shown => shown

/-- What is on the screen is what the kept transaction pays, and so it was for
    everything published. -/
structure Honest (pays : Tx → Payment) (s : State Tx) : Prop where
  screen : ∀ screen, s.screen = some screen →
    ∃ tx, s.transaction = some tx ∧ pays tx = screen.shown
  published : ∀ shown tx, (shown,tx) ∈ s.published → pays tx = shown

variable {isValidAddress}

/-- A built transaction pays the fields; a refusal leaves everything as it is,
    except that a failed creation leaves no transaction. -/
theorem build_cases {s : State Tx} {wallet : Option (Wallet pays)} (empty : s.transaction = none) :
    (∃ alert, build isValidAddress s wallet = (some alert,s)) ∨
      ∃ address amount tx, s.address = some address ∧ s.amount = some amount ∧
        pays tx = { address, amount } ∧
        build isValidAddress s wallet = (none,{ s with transaction := some tx }) := by
  unfold build
  cases address : s.address with
  | none => exact Or.inl ⟨_,rfl⟩
  | some toAddress =>
    dsimp only
    split
    · exact Or.inl ⟨_,rfl⟩
    cases amount : s.amount with
    | none => exact Or.inl ⟨_,rfl⟩
    | some value =>
      dsimp only
      split
      · exact Or.inl ⟨_,rfl⟩
      split
      · exact Or.inl ⟨_,rfl⟩
      split
      · exact Or.inl ⟨_,rfl⟩
      unfold createTransaction
      cases made : wallet.bind fun wallet => wallet.createTransaction value toAddress with
      | none =>
        have same : { s with transaction := none } = s := by rw [← empty]
        exact Or.inl ⟨.createTransactionError,by simp only [Option.isSome_none, same]⟩
      | some tx =>
        obtain ⟨wallet,_,made⟩ := Option.bind_eq_some_iff.mp made
        exact Or.inr ⟨toAddress,value,tx,rfl,rfl,wallet.pays_exactly _ _ _ made,
          by simp [address, amount]⟩

theorem present_honest {s : State Tx} (honest : Honest pays s) {screen : Screen} {tx : Tx}
    (kept : s.transaction = some tx) (same : s.screen = none → pays tx = screen.shown) :
    Honest pays (s.present screen) := by
  unfold State.present
  cases up : s.screen with
  | some other => exact honest
  | none =>
    refine ⟨?_,honest.published⟩
    intro other shown
    cases shown
    exact ⟨tx,kept,same up⟩

theorem confirm_honest {s : State Tx} (honest : Honest pays s) {tx : Tx}
    (kept : s.transaction = some tx)
    (same : s.screen = none → ∀ amount, s.amount = some amount →
      pays tx = { address := s.address.getD [], amount }) : Honest pays (confirm s) := by
  unfold confirm
  cases amount : s.amount with
  | none => exact honest
  | some value => exact present_honest honest kept fun clear => same clear value amount

theorem tap_honest {s : State Tx} {wallet : Option (Wallet pays)} (honest : Honest pays s)
    (unedited : Unedited s (.sendTapped wallet)) :
    Honest pays (sendTapped isValidAddress s wallet) := by
  unfold sendTapped
  cases kept : s.transaction with
  | some tx => exact confirm_honest honest kept fun clear amount => unedited clear tx kept amount
  | none =>
    dsimp only
    rcases build_cases kept with ⟨alert,refused⟩ | ⟨address,amount,tx,payee,value,same,built⟩
    · rw [refused]
      exact ⟨honest.screen,honest.published⟩
    · rw [built]
      have later : Honest pays { s with transaction := some tx } := by
        refine ⟨?_,honest.published⟩
        intro screen up
        obtain ⟨other,there,_⟩ := honest.screen screen up
        rw [kept] at there
        cases there
      apply confirm_honest later rfl
      intro _ shown there
      dsimp only at there ⊢
      rw [value] at there
      cases there
      rw [same, payee]
      rfl

theorem step_honest (s : State Tx) (e : Event pays) (t : State Tx) (honest : Honest pays s)
    (unedited : Unedited s e) (taken : step isValidAddress s e = some t) : Honest pays t := by
  cases e with
  | addressEdited text =>
    cases taken
    exact ⟨honest.screen,honest.published⟩
  | amountEdited amount =>
    cases taken
    exact ⟨honest.screen,honest.published⟩
  | localRequest toAddress amount =>
    cases taken
    exact ⟨honest.screen,honest.published⟩
  | sendTapped wallet =>
    cases taken
    exact tap_honest honest unedited
  | confirmed ready =>
    rw [step] at taken
    split at taken
    case h_2 => cases taken
    case h_1 shown up =>
      cases taken
      refine ⟨?_,honest.published⟩
      intro screen there
      cases ready with
      | false => cases there
      | true =>
        cases there
        obtain ⟨tx,kept,same⟩ := honest.screen _ up
        exact ⟨tx,kept,same⟩
  | cancelled =>
    rw [step] at taken
    split at taken
    case h_2 => cases taken
    case h_1 =>
      cases taken
      exact ⟨fun _ there => (nomatch there),honest.published⟩
  | authenticated result =>
    rw [step] at taken
    split at taken
    case h_2 => cases taken
    case h_1 shown up =>
      cases result with
      | wrong =>
        cases taken
        exact honest
      | cancelled =>
        cases taken
        exact ⟨fun _ there => (nomatch there),honest.published⟩
      | success =>
        cases taken
        obtain ⟨tx,kept,same⟩ := honest.screen _ up
        refine ⟨fun _ there => (nomatch there),?_⟩
        intro other tx' mem
        rw [kept] at mem
        rcases List.mem_append.mp mem with before | now
        · exact honest.published other tx' before
        · cases List.mem_singleton.mp now
          exact same

/-- In every run whose taps find the fields unedited, what is published pays
    what the accepted confirmation showed. -/
theorem confirmed_is_paid (isValidAddress : List Char → Bool) (pays : Tx → Payment)
    (events : List (Event pays)) (s : State Tx)
    (met : Along (step isValidAddress) Unedited State.initial events)
    (run : exec (step isValidAddress) State.initial events = some s) :
    ∀ shown tx, (shown,tx) ∈ s.published → pays tx = shown := by
  have start : Honest pays (State.initial : State Tx) :=
    ⟨fun _ up => (nomatch up),fun _ _ mem => (nomatch mem)⟩
  exact (exec_keeps step_honest start met run).published

/-- And a tap that finds them edited is all it takes to pay something else. -/
theorem edited_tap_pays_other {s : State Tx} {wallet : Option (Wallet pays)}
    (edited : ¬ Unedited s (.sendTapped wallet)) :
    ∃ t shown tx, exec (step isValidAddress) s
        [.sendTapped wallet, .confirmed true, .authenticated .success] = some t ∧
      (shown,tx) ∈ t.published ∧ pays tx ≠ shown := by
  unfold Unedited at edited
  push Not at edited
  obtain ⟨clear,tx,kept,amount,there,other⟩ := edited
  rw [Option.mem_def] at kept there
  let shown : Payment := { address := s.address.getD [], amount }
  have tapped : sendTapped isValidAddress s wallet =
      { s with screen := some (.confirmation shown) } := by
    simp [sendTapped, confirm, State.present, kept, there, clear, shown]
  refine ⟨{ s with screen := none, published := s.published ++ [(shown,tx)] },shown,tx,?_,
    by simp,other⟩
  rw [exec, step, tapped, Option.bind_some, exec, step, Option.bind_some, exec, step]
  simp [exec, kept]

/-- A wallet that makes every transaction it is asked for, and two addresses. -/
def openWallet : Wallet (id : Payment → Payment) where
  minOutputAmount := 546
  maxOutputAmount := 100000000
  containsAddress := fun _ => false
  createTransaction := fun amount address => some { address, amount }
  pays_exactly := by
    intro amount toAddress tx made
    cases made
    rfl

def firstAddress : List Char :=
  ['1','B','g','G','Z','9','t','c','N','4','r','m','9','K','B','z','D',
    'n','7','K','p','r','Q','z','8','7','S','Z','2','6','S','A','M','H']

def secondAddress : List Char :=
  ['1','c','M','h','2','2','8','H','T','C','i','w','S','8','Z','s','a',
    'a','k','H','8','A','8','w','z','e','1','J','R','5','Z','s','P']

/-- Fill in, look, go back, look again, confirm, mistype the PIN, enter it. -/
def patientEvents : List (Event (id : Payment → Payment)) :=
  [.addressEdited (some firstAddress), .amountEdited (some 5000), .sendTapped (some openWallet),
    .cancelled, .sendTapped (some openWallet), .confirmed true, .authenticated .wrong,
    .authenticated .success]

theorem patient_payment : ∃ s, exec (step fun _ => true) State.initial patientEvents = some s ∧
    s.published ≠ [] ∧ ∀ shown tx, (shown,tx) ∈ s.published → tx = shown := by
  obtain ⟨s,run,sent⟩ : ∃ s, exec (step fun _ => true) State.initial patientEvents = some s ∧
      s.published ≠ [] := ⟨_,rfl,by decide⟩
  exact ⟨s,run,sent,confirmed_is_paid (fun _ => true) id patientEvents s (by decide) run⟩

/-- The same with another address filled in before the second look. -/
def editedEvents : List (Event (id : Payment → Payment)) :=
  [.addressEdited (some firstAddress), .amountEdited (some 5000), .sendTapped (some openWallet),
    .cancelled, .addressEdited (some secondAddress), .sendTapped (some openWallet),
    .confirmed true, .authenticated .success]

theorem edited_payment_goes_elsewhere :
    ∃ s, exec (step fun _ => true) State.initial editedEvents = some s ∧
      s.published = [({ address := secondAddress, amount := 5000 },
        { address := firstAddress, amount := 5000 })] ∧
      ¬ ∀ shown tx, (shown,tx) ∈ s.published → tx = shown := by
  refine ⟨_,rfl,rfl,?_⟩
  intro paid
  exact absurd (paid _ _ (List.mem_singleton.mpr rfl)) (by decide)

end SendViewController
