import AltMessenger.SwiftFloat
import AltMessenger.UTF8Text

/-!
Requests of the payment protocol: how one is validated, and what the send screen then does with it.
What the system says of certificates and signatures is given, and so is the C wallet, which may
have no transaction to return.
-/
namespace ProtocolRequests
open SwiftRuntime SwiftFloat UTF8Text

structure TxOutput where
  swiftAddress : List Char
  amount : UInt64
  script : List UInt8
  deriving DecidableEq, Repr

structure PaymentProtocolDetails where
  outputs : List TxOutput
  expires : UInt64 := 0
  deriving DecidableEq, Repr

structure PaymentProtocolRequest where
  pkiType : List Char := "none".toList
  certs : List (List UInt8) := []
  signature : Option (List UInt8) := none
  digest : List UInt8 := []
  details : PaymentProtocolDetails
  deriving DecidableEq, Repr

inductive TrustResult where
  | invalid | proceed | deny | unspecified | recoverableTrustFailure | fatalTrustFailure
  | otherError
  deriving DecidableEq, Repr

/-- A property of a trust: that of an error has its text. -/
inductive TrustProperty where
  | error : List Char → TrustProperty
  | other : TrustProperty
  deriving DecidableEq, Repr

/-- A chain of certificates, after it was evaluated. -/
structure Trust (Key : Type) where
  result : TrustResult
  properties : Option (List TrustProperty)
  publicKey : Option Key
  deriving DecidableEq

inductive Padding where
  | pkcs1SHA256 | pkcs1SHA1
  deriving DecidableEq, Repr

/-- What the system says of certificates, chains and signatures. -/
structure Security (Cert Key : Type) where
  certificate : List UInt8 → Option Cert
  subjectSummary : Cert → Option (List Char)
  trust : List Cert → Option (Trust Key)
  rawVerify : Key → Padding → List UInt8 → List UInt8 → Int32
  localizedDescription : Int32 → List Char

def errSecSuccess : Int32 := 0

def errSecUnimplemented : Int32 := -4

def untrustedCertificate : List Char := "untrusted certificate".toList

def missingCertificate : List Char := "missing certificate".toList

def unsupportedSignatureType : List Char := "unsupported signature type".toList

def requestExpired : List Char := "request expired".toList

/-- What a request remembers of its validation. -/
structure Validation where
  cName : Option (List Char) := none
  errMsg : Option (List Char) := none
  didValidate : Bool := false
  deriving DecidableEq, Repr

/-- The signature types that are known, by their name. -/
def padding (pkiType : List Char) : Option Padding :=
  if pkiType = "x509+sha256".toList then some .pkcs1SHA256
  else if pkiType = "x509+sha1".toList then some .pkcs1SHA1
  else none

def TrustResult.positive (result : TrustResult) : Bool := result = .unspecified ∨ result = .proceed

def TrustProperty.text : TrustProperty → Option (List Char)
  | .error text => some text
  | .other => none

section Validity
variable {Cert Key : Type} (security : Security Cert Key) (request : PaymentProtocolRequest)

/-- The certificates that are readable. -/
def certificates : List Cert := request.certs.filterMap security.certificate

/-- The chain, if it is one that the system trusts. -/
def trusted : Option (Trust Key) :=
  (security.trust (certificates security request)).filter (·.result.positive)

/-- The text for a chain that is not trusted, with that of the first error, if there is one. -/
def trustError : List Char :=
  let message := if 0 < (certificates security request).length then untrustedCertificate
    else missingCertificate
  match (security.trust (certificates security request)).bind (·.properties) with
  | some properties =>
    match properties.findSome? TrustProperty.text with
    | some text => message ++ " - ".toList ++ text
    | none => message
  | none => message

/-- The status of the signature: unimplemented where there is nothing to verify, or no way to. -/
def signatureStatus (trust : Trust Key) : Int32 :=
  match trust.publicKey, request.signature with
  | some pubKey, some signature =>
    match padding request.pkiType with
    | some padding => security.rawVerify pubKey padding request.digest signature
    | none => errSecUnimplemented
  | _, _ => errSecUnimplemented

def signatureError (status : Int32) : List Char :=
  if status = errSecUnimplemented then unsupportedSignatureType
  else security.localizedDescription status

/-- Why the chain or the signature of the request is not accepted. -/
def refusal : Option (List Char) :=
  if request.pkiType = "none".toList then none
  else
    match trusted security request with
    | none => some (trustError security request)
    | some trust =>
      let status := signatureStatus security request trust
      if status = errSecSuccess then none else some (signatureError security status)

/-- The name that validation finds: that of the first certificate, or what stands in its place where
    the request is not certified. The one it had stays where there is none to look at. -/
def named (cName : Option (List Char)) : Option (List Char) :=
  if request.pkiType = "none".toList then
    match request.certs with
    | [] => cName
    | cert :: _ => ofUTF8 cert
  else
    match certificates security request with
    | [] => cName
    | cert :: _ => security.subjectSummary cert

/-- The guard on the clock, which runs from the reference date. -/
def PaymentProtocolDetails.current (details : PaymentProtocolDetails) (clock : Rat) : Bool :=
  details.expires = 0 ∨ clock ≤ double.round details.expires.toNat

/-- `isValid`, and what the request remembers of it -/
def isValid (clock : Rat) (validation : Validation) : Bool × Validation :=
  let cName := named security request validation.cName
  match refusal security request with
  | some message => (false,{ cName, errMsg := some message, didValidate := true })
  | none =>
    if request.details.current clock then
      (true,{ cName, errMsg := validation.errMsg, didValidate := true })
    else (false,{ cName, errMsg := some requestExpired, didValidate := true })

/-- What the name and the error are read from. -/
def validated (clock : Rat) (validation : Validation) : Validation :=
  if validation.didValidate then validation else (isValid security request clock validation).2

def commonName (clock : Rat) (validation : Validation) : Option (List Char) :=
  (validated security request clock validation).cName

def errorMessage (clock : Rat) (validation : Validation) : Option (List Char) :=
  (validated security request clock validation).errMsg

end Validity

/-- No output can be below this amount. -/
def txMinOutputAmount : UInt64 := 1000 * 3 * (34 + 148) / 1000

def minFeePerKb : UInt64 := (1000 * 1000 + 190) / 191

structure Wallet (Tx : Type) where
  feePerKb : UInt64
  containsAddress : List Char → Bool
  addressIsUsed : List Char → Bool
  createTransaction : UInt64 → List Char → Except Trap (Option Tx)
  /-- The C function, which asserts that there is a script to each output. -/
  createTxForOutputs : List TxOutput → Except Trap (Option Tx)

/-- Outputs below this amount are uneconomical due to fees. -/
def Wallet.minOutputAmount {Tx : Type} (wallet : Wallet Tx) : UInt64 :=
  let amount := (txMinOutputAmount * wallet.feePerKb + minFeePerKb - 1) / minFeePerKb
  if amount > txMinOutputAmount then amount else txMinOutputAmount

/-- What the send screen brings: its amount, and the warnings that were ignored. -/
structure SendScreen where
  amount : Option UInt64 := none
  didIgnoreUsedAddressWarning : Bool := false
  didIgnoreIdentityNotCertified : Bool := false
  deriving DecidableEq, Repr

inductive Alert where
  | badPaymentRequest | containsAddress | smallPayment | smallTransaction | createTransactionError
  deriving DecidableEq, Repr

/-- A warning, which can be ignored. -/
inductive Warning where
  | usedAddress : Warning
  | identityNotCertified : List Char → Warning
  deriving DecidableEq, Repr

inductive Outcome (Tx : Type) where
  | ignored : Outcome Tx
  | alert : Alert → Outcome Tx
  | warning : Warning → Outcome Tx
  | noAmount : Outcome Tx
  | built : Tx → Outcome Tx
  deriving DecidableEq, Repr

/-- One round of the loop over the outputs: whether one is too small, and the sum. -/
def addOutput (minOutputAmount : UInt64) (loop : Bool × UInt64) (output : TxOutput) :
    Except Trap (Bool × UInt64) := do
  let isOutputTooSmall :=
    loop.1 || decide (output.amount > 0 ∧ output.amount < minOutputAmount)
  let requestAmount ← addUInt64 loop.2 output.amount
  pure (isOutputTooSmall,requestAmount)

/-- The condition of the warning about the identity. The name is unwrapped before it is asked
    whether the warning is ignored. -/
def identityWarning (screen : SendScreen) (errorMessage commonName : Option (List Char)) :
    Except Trap (Option (List Char)) :=
  match errorMessage with
  | none => pure none
  | some message =>
    if message = [] then pure none
    else do
      let name ← unwrap commonName
      pure (if name ≠ [] ∧ screen.didIgnoreIdentityNotCertified = false then some message else none)

section Confirming
variable {Cert Key Tx : Type} (security : Security Cert Key) (request : PaymentProtocolRequest)
variable (screen : SendScreen)

/-- The transaction, once nothing is left to warn of. The pointer that comes from C is taken to be
    there. -/
def build (wallet : Wallet Tx) (address : List Char) (requestAmount : UInt64) :
    Except Trap (Outcome Tx) :=
  if requestAmount = 0 then
    match screen.amount with
    | none => pure .noAmount
    | some amount => do
      let transaction ← wallet.createTransaction amount address
      match transaction with
      | none => pure (.alert .createTransactionError)
      | some transaction => pure (.built transaction)
  else do
    let pointer ← wallet.createTxForOutputs request.details.outputs
    let transaction ← unwrap pointer
    pure (.built transaction)

/-- The amounts are looked at after the warnings. -/
def checkAmounts (wallet : Wallet Tx) (address : List Char) (isOutputTooSmall : Bool)
    (requestAmount : UInt64) : Except Trap (Outcome Tx) :=
  if requestAmount < wallet.minOutputAmount then pure (.alert .smallPayment)
  else if isOutputTooSmall then pure (.alert .smallTransaction)
  else build request screen wallet address requestAmount

def checkAddress (wallet : Wallet Tx) (address : List Char)
    (errorMessage commonName : Option (List Char)) (isOutputTooSmall : Bool)
    (requestAmount : UInt64) : Except Trap (Outcome Tx) :=
  if wallet.containsAddress address then pure (.alert .containsAddress)
  else if wallet.addressIsUsed address ∧ screen.didIgnoreUsedAddressWarning = false then
    pure (.warning .usedAddress)
  else do
    let warning ← identityWarning screen errorMessage commonName
    match warning with
    | some message => pure (.warning (.identityNotCertified message))
    | none => checkAmounts request screen wallet address isOutputTooSmall requestAmount

/-- `confirmProtocolRequest`, with what the request remembers when it is confirmed -/
def confirmProtocolRequest (wallet : Option (Wallet Tx)) (clock : Rat) (validation : Validation) :
    Except Trap (Outcome Tx) :=
  match request.details.outputs.head?, wallet with
  | some firstOutput, some wallet =>
    let (valid,validation) := isValid security request clock validation
    let errorMessage := errorMessage security request clock validation
    let commonName := commonName security request clock validation
    if errorMessage = some requestExpired ∧ valid = false then pure (.alert .badPaymentRequest)
    else do
      let (isOutputTooSmall,requestAmount) ←
        request.details.outputs.foldlM (addOutput wallet.minOutputAmount) (false,0)
      checkAddress request screen wallet firstOutput.swiftAddress errorMessage commonName
        isOutputTooSmall requestAmount
  | _, _ => pure .ignored

end Confirming

section Requirements
variable {Cert Key Tx : Type} (security : Security Cert Key) (request : PaymentProtocolRequest)
variable (screen : SendScreen)

/-- The system trusts the chain, and the signature is that of its key. -/
def Accepted : Prop :=
  ∃ trust pubKey signature scheme,
    security.trust (certificates security request) = some trust ∧
    (trust.result = .unspecified ∨ trust.result = .proceed) ∧ trust.publicKey = some pubKey ∧
    request.signature = some signature ∧ padding request.pkiType = some scheme ∧
    security.rawVerify pubKey scheme request.digest signature = errSecSuccess

def total (outputs : List TxOutput) : Nat := (outputs.map fun output => output.amount.toNat).sum

/-- The clock in Unix time: the reference date is that many seconds after the epoch. -/
def unixTime (clock : Rat) : Rat := clock + 978307200

def Unexpired (clock : Rat) : Prop :=
  request.details.expires = 0 ∨ unixTime clock ≤ request.details.expires.toNat

/-- What a request must be to be paid. -/
structure Payable (clock : Rat) : Prop where
  unexpired : Unexpired request clock
  fits : total request.details.outputs < 2 ^ 64
  accepted : request.pkiType ≠ "none".toList → screen.didIgnoreIdentityNotCertified = false →
    Accepted security request

/-- A run that comes to its end, and builds a transaction only if something holds. -/
def BuildsOnlyIf (run : Except Trap (Outcome Tx)) (condition : Prop) : Prop :=
  ∃ outcome, run = .ok outcome ∧ ∀ tx, outcome = .built tx → condition

/-- A request is confirmed without a trap, and paid only if it is valid. -/
def PaidWhenValid (wallet : Option (Wallet Tx)) (clock : Rat) (validation : Validation) : Prop :=
  BuildsOnlyIf (confirmProtocolRequest security request screen wallet clock validation)
    (Payable security request screen clock)

/-- The request is refused as expired, by a clock that runs from the reference date. -/
def Expired (clock : Rat) : Prop :=
  refusal security request = some requestExpired ∨
    refusal security request = none ∧ request.details.current clock = false

/-- The address is none of the wallet, and new, or known to have been used. -/
def AddressPassed (wallet : Wallet Tx) (address : List Char) : Prop :=
  wallet.containsAddress address = false ∧
    (wallet.addressIsUsed address = true → screen.didIgnoreUsedAddressWarning = true)

/-- There is a name to go with an error. -/
def Named (errorMessage commonName : Option (List Char)) : Prop :=
  ∀ message, errorMessage = some message → message ≠ [] → commonName ≠ none

/-- An error and a name, none of them empty, and nothing ignored. -/
def Warned (errorMessage commonName : Option (List Char)) : Prop :=
  screen.didIgnoreIdentityNotCertified = false ∧ ∃ message name, errorMessage = some message ∧
    message ≠ [] ∧ commonName = some name ∧ name ≠ []

def TooSmall (wallet : Wallet Tx) : Prop :=
  total request.details.outputs < wallet.minOutputAmount.toNat ∨
    ∃ output ∈ request.details.outputs,
      output.amount > 0 ∧ output.amount < wallet.minOutputAmount

/-- The error that is remembered of a request that is not refused as expired. -/
def remembered (validation : Validation) : Option (List Char) :=
  (refusal security request).or validation.errMsg

/-- What has to be right of a request that is not refused as expired. -/
structure Sound (wallet : Wallet Tx) (address : List Char) (clock : Rat) (validation : Validation) :
    Prop where
  fits : total request.details.outputs < 2 ^ 64
  name_given : AddressPassed screen wallet address →
    Named (remembered security request validation) (named security request validation.cName)
  shown : AddressPassed screen wallet address → ¬ TooSmall request wallet →
    screen.didIgnoreIdentityNotCertified = false → ∀ message,
    refusal security request = some message →
    message ≠ [] ∧ named security request validation.cName ≠ some []
  unexpired : AddressPassed screen wallet address → ¬ TooSmall request wallet →
    ¬ Warned screen (remembered security request validation)
      (named security request validation.cName) → Unexpired request clock
  funded : AddressPassed screen wallet address → ¬ TooSmall request wallet →
    ¬ Warned screen (remembered security request validation)
      (named security request validation.cName) →
    ∃ tx, wallet.createTxForOutputs request.details.outputs = .ok (some tx)

end Requirements

section Validating
variable {Cert Key : Type} {security : Security Cert Key} {request : PaymentProtocolRequest}
variable {clock : Rat} {validation : Validation}

theorem trusted_iff {trust : Trust Key} :
    trusted security request = some trust ↔
      security.trust (certificates security request) = some trust ∧
        (trust.result = .unspecified ∨ trust.result = .proceed) := by
  rw [trusted, Option.filter_eq_some_iff, TrustResult.positive, decide_eq_true_iff]

theorem signatureStatus_success {trust : Trust Key} :
    signatureStatus security request trust = errSecSuccess ↔
      ∃ pubKey signature scheme, trust.publicKey = some pubKey ∧
        request.signature = some signature ∧ padding request.pkiType = some scheme ∧
        security.rawVerify pubKey scheme request.digest signature = errSecSuccess := by
  have unlike : ¬ errSecUnimplemented = errSecSuccess := by decide
  constructor
  · intro success
    rw [signatureStatus] at success
    split at success
    case h_1 pubKey signature key signed =>
      split at success
      case h_1 scheme known => exact ⟨pubKey,signature,scheme,key,signed,known,success⟩
      case h_2 => exact absurd success unlike
    case h_2 => exact absurd success unlike
  · rintro ⟨pubKey,signature,scheme,key,signed,known,verified⟩
    simp only [signatureStatus, key, signed, known]
    exact verified

/-- A request without a refusal is one that needs no certificate, or that is accepted. -/
theorem refusal_none :
    refusal security request = none ↔
      (request.pkiType ≠ "none".toList → Accepted security request) := by
  unfold refusal
  by_cases plain : request.pkiType = "none".toList
  case pos =>
    rw [if_pos plain]
    exact iff_of_true rfl fun certified => absurd plain certified
  case neg =>
    rw [if_neg plain]
    constructor
    · intro accepted _
      split at accepted
      case h_1 => cases accepted
      case h_2 trust chain =>
        obtain ⟨evaluated,positive⟩ := trusted_iff.mp chain
        by_cases success : signatureStatus security request trust = errSecSuccess
        case pos =>
          obtain ⟨pubKey,signature,scheme,key,signed,known,verified⟩ :=
            signatureStatus_success.mp success
          exact ⟨trust,pubKey,signature,scheme,evaluated,positive,key,signed,known,verified⟩
        case neg =>
          dsimp only at accepted
          rw [if_neg success] at accepted
          cases accepted
    · intro accepted
      obtain ⟨trust,pubKey,signature,scheme,evaluated,positive,verified⟩ := accepted plain
      have chain : trusted security request = some trust :=
        trusted_iff.mpr ⟨evaluated,positive⟩
      have success : signatureStatus security request trust = errSecSuccess :=
        signatureStatus_success.mpr ⟨pubKey,signature,scheme,verified⟩
      rw [chain]
      exact if_pos success

theorem isValid_refused {message : List Char} (refused : refusal security request = some message) :
    isValid security request clock validation =
      (false,⟨named security request validation.cName,some message,true⟩) := by
  rw [isValid, refused]

theorem isValid_late (passed : refusal security request = none)
    (late : request.details.current clock = false) :
    isValid security request clock validation =
      (false,⟨named security request validation.cName,some requestExpired,true⟩) := by
  rw [isValid, passed]
  dsimp only
  rw [late]
  exact if_neg Bool.false_ne_true

theorem isValid_current (passed : refusal security request = none)
    (current : request.details.current clock = true) :
    isValid security request clock validation =
      (true,⟨named security request validation.cName,validation.errMsg,true⟩) := by
  rw [isValid, passed]
  dsimp only
  rw [current]
  exact if_pos rfl

/-- Once validated, a request is not validated again for its name or its error. -/
theorem validated_done (done : validation.didValidate = true) :
    validated security request clock validation = validation := if_pos done

end Validating

section Confirmed
variable {Cert Key Tx : Type} {security : Security Cert Key} {request : PaymentProtocolRequest}
variable {screen : SendScreen} {clock : Rat} {validation : Validation} {wallet : Wallet Tx}
variable {address : List Char} {condition : Prop}

theorem minOutputAmount_pos : 0 < wallet.minOutputAmount := by
  unfold Wallet.minOutputAmount
  have least : 0 < txMinOutputAmount := by decide
  dsimp only
  split
  case isTrue more => exact UInt64.lt_trans least more
  case isFalse => exact least

/-- A run that ends without a transaction builds under any condition. -/
theorem builds_nothing {outcome : Outcome Tx} (nothing : ∀ tx, outcome ≠ .built tx) :
    BuildsOnlyIf (.ok outcome) condition :=
  ⟨outcome,rfl,fun tx built => absurd built (nothing tx)⟩

theorem builds_built {tx : Tx} : BuildsOnlyIf (.ok (.built tx)) condition ↔ condition := by
  constructor
  · rintro ⟨outcome,run,sound⟩
    cases run
    exact sound tx rfl
  · intro holds
    exact ⟨.built tx,rfl,fun _ _ => holds⟩

theorem builds_trap {trap : Trap} :
    ¬ BuildsOnlyIf (.error trap : Except Trap (Outcome Tx)) condition := by
  rintro ⟨outcome,run,_⟩
  cases run

theorem addOutput_added {least amount : UInt64} {small : Bool} {output : TxOutput}
    (fits : amount.toNat + output.amount.toNat < 2 ^ 64) :
    addOutput least (small,amount) output =
      .ok (small || decide (output.amount > 0 ∧ output.amount < least),amount + output.amount) :=
  bind_ready (addUInt64_ok.mpr ⟨fits,rfl⟩)

/-- The loop fails where the sum does not fit. -/
theorem addOutputs_ran {least : UInt64} {outputs : List TxOutput} {small : Bool} {amount : UInt64}
    {loop : Bool × UInt64} :
    outputs.foldlM (addOutput least) (small,amount) = .ok loop ↔
      amount.toNat + total outputs < 2 ^ 64 ∧ loop.2.toNat = amount.toNat + total outputs ∧
        loop.1 = (small || outputs.any fun output =>
          decide (output.amount > 0 ∧ output.amount < least)) := by
  induction outputs generalizing small amount with
  | nil =>
    have bound := amount.toNat_lt
    rw [List.foldlM_nil]
    constructor
    · intro run
      cases run
      exact ⟨bound,rfl,(Bool.or_false small).symm⟩
    · rintro ⟨_,sum,any⟩
      have same : loop = (small,amount) :=
        Prod.ext (any.trans (Bool.or_false small)) (UInt64.toNat_inj.mp sum)
      rw [same]
      rfl
  | cons output outputs ih =>
    have split : total (output :: outputs) = output.amount.toNat + total outputs := List.sum_cons
    rw [List.foldlM_cons, split, List.any_cons, ← Bool.or_assoc, ← Nat.add_assoc]
    constructor
    · intro run
      obtain ⟨next,round,rest⟩ := bind_ran.mp run
      obtain ⟨sum,added,round⟩ := bind_ran.mp round
      obtain ⟨fits,rfl⟩ := addUInt64_ok.mp added
      cases round
      rw [ih, UInt64.toNat_add, Nat.mod_eq_of_lt fits] at rest
      exact rest
    · rintro ⟨fits,sum,any⟩
      have first : amount.toNat + output.amount.toNat < 2 ^ 64 :=
        lt_of_le_of_lt (Nat.le_add_right _ _) fits
      rw [bind_ready (addOutput_added first), ih, UInt64.toNat_add, Nat.mod_eq_of_lt first]
      exact ⟨fits,sum,any⟩

/-- The transaction of a request that asks for an amount is the one that the wallet has for it. -/
theorem build_only_if {requestAmount : UInt64} (asked : requestAmount ≠ 0) :
    BuildsOnlyIf (build request screen wallet address requestAmount) condition ↔
      (∃ tx, wallet.createTxForOutputs request.details.outputs = .ok (some tx)) ∧ condition := by
  rw [build, if_neg asked]
  cases made : wallet.createTxForOutputs request.details.outputs with
  | error trap =>
    refine iff_of_false builds_trap ?_
    rintro ⟨⟨_,made⟩,_⟩
    cases made
  | ok pointer =>
    cases pointer with
    | none =>
      refine iff_of_false builds_trap ?_
      rintro ⟨⟨_,made⟩,_⟩
      cases made
    | some tx => exact builds_built.trans (and_iff_right ⟨tx,rfl⟩).symm

theorem checkAmounts_only_if {requestAmount : UInt64} {small : Bool} :
    BuildsOnlyIf (checkAmounts request screen wallet address small requestAmount) condition ↔
      (¬ (requestAmount < wallet.minOutputAmount ∨ small = true) →
        (∃ tx, wallet.createTxForOutputs request.details.outputs = .ok (some tx)) ∧ condition) := by
  unfold checkAmounts
  by_cases less : requestAmount < wallet.minOutputAmount
  case pos =>
    rw [if_pos less]
    exact iff_of_true (builds_nothing (by simp)) fun passed => absurd (Or.inl less) passed
  case neg =>
    rw [if_neg less]
    by_cases output : small = true
    case pos =>
      rw [if_pos output]
      exact iff_of_true (builds_nothing (by simp)) fun passed => absurd (Or.inr output) passed
    case neg =>
      have passed : ¬ (requestAmount < wallet.minOutputAmount ∨ small = true) :=
        not_or.mpr ⟨less,output⟩
      have asked : requestAmount ≠ 0 := by
        rintro rfl
        exact less minOutputAmount_pos
      rw [if_neg output, build_only_if asked]
      exact (imp_iff_right passed).symm

/-- The condition of the warning can be asked if there is a name, or nothing to warn of. -/
theorem identityWarning_ran (screen : SendScreen) {errorMessage commonName : Option (List Char)} :
    (∃ warning, identityWarning screen errorMessage commonName = .ok warning) ↔
      Named errorMessage commonName := by
  unfold identityWarning Named
  cases errorMessage with
  | none =>
    refine iff_of_true ⟨none,rfl⟩ fun message told => ?_
    cases told
  | some message =>
    dsimp only
    by_cases empty : message = []
    case pos =>
      rw [if_pos empty]
      refine iff_of_true ⟨none,rfl⟩ fun text told full => ?_
      cases told
      exact absurd empty full
    case neg =>
      rw [if_neg empty]
      cases commonName with
      | none =>
        refine iff_of_false ?_ fun given => given message rfl empty rfl
        rintro ⟨warning,run⟩
        cases run
      | some name => exact iff_of_true ⟨_,rfl⟩ fun _ _ _ => Option.some_ne_none name

theorem identityWarning_none {errorMessage commonName warning : Option (List Char)}
    (run : identityWarning screen errorMessage commonName = .ok warning) :
    warning = none ↔ ¬ Warned screen errorMessage commonName := by
  cases errorMessage with
  | none =>
    cases run
    refine iff_of_true rfl ?_
    rintro ⟨_,message,name,told,_⟩
    cases told
  | some message =>
    unfold identityWarning at run
    dsimp only at run
    by_cases empty : message = []
    case pos =>
      rw [if_pos empty] at run
      cases run
      refine iff_of_true rfl ?_
      rintro ⟨_,text,name,told,full,_⟩
      cases told
      exact full empty
    case neg =>
      rw [if_neg empty] at run
      obtain ⟨name,given,run⟩ := bind_ran.mp run
      obtain rfl := unwrap_ok.mp given
      cases run
      by_cases shown : name ≠ [] ∧ screen.didIgnoreIdentityNotCertified = false
      case pos =>
        rw [if_pos shown]
        refine iff_of_false (Option.some_ne_none message) (not_not.mpr ?_)
        exact ⟨shown.2,message,name,rfl,empty,rfl,shown.1⟩
      case neg =>
        rw [if_neg shown]
        refine iff_of_true rfl ?_
        rintro ⟨kept,text,other,_,_,same,full⟩
        cases same
        exact shown ⟨full,kept⟩

theorem checkAddress_only_if {errorMessage commonName : Option (List Char)} {small : Bool}
    {requestAmount : UInt64} :
    BuildsOnlyIf (checkAddress request screen wallet address errorMessage commonName small
        requestAmount) condition ↔
      (AddressPassed screen wallet address → Named errorMessage commonName ∧
        (¬ Warned screen errorMessage commonName →
          ¬ (requestAmount < wallet.minOutputAmount ∨ small = true) →
          (∃ tx, wallet.createTxForOutputs request.details.outputs = .ok (some tx)) ∧
            condition)) := by
  unfold checkAddress
  by_cases own : wallet.containsAddress address = true
  case pos =>
    rw [if_pos own]
    refine iff_of_true (builds_nothing (by simp)) fun passed => ?_
    exact absurd (passed.1.symm.trans own) Bool.false_ne_true
  case neg =>
    rw [if_neg own]
    by_cases used : wallet.addressIsUsed address = true ∧
      screen.didIgnoreUsedAddressWarning = false
    case pos =>
      rw [if_pos used]
      refine iff_of_true (builds_nothing (by simp)) fun passed => ?_
      exact absurd (used.2.symm.trans (passed.2 used.1)) Bool.false_ne_true
    case neg =>
      have passed : AddressPassed screen wallet address := by
        refine ⟨Bool.eq_false_of_not_eq_true own,fun known => ?_⟩
        exact Bool.eq_true_of_not_eq_false fun kept => used ⟨known,kept⟩
      rw [if_neg used, imp_iff_right passed]
      by_cases given : Named errorMessage commonName
      case pos =>
        obtain ⟨warning,run⟩ := (identityWarning_ran screen).mpr given
        rw [bind_ready run, and_iff_right given, ← identityWarning_none run]
        cases warning with
        | none => exact checkAmounts_only_if.trans (imp_iff_right rfl).symm
        | some message =>
          refine iff_of_true (builds_nothing (by simp)) fun nothing => ?_
          cases nothing
      case neg =>
        refine iff_of_false ?_ fun sound => given sound.1
        rintro ⟨outcome,run,_⟩
        obtain ⟨warning,run,_⟩ := bind_ran.mp run
        exact given ((identityWarning_ran screen).mp ⟨warning,run⟩)

theorem confirm_ignored {wallet : Option (Wallet Tx)}
    (nothing : request.details.outputs.head? = none ∨ wallet = none) :
    confirmProtocolRequest security request screen wallet clock validation = .ok .ignored := by
  unfold confirmProtocolRequest
  cases wallet with
  | none => cases request.details.outputs.head? <;> rfl
  | some wallet =>
    rcases nothing with missing | missing
    · rw [missing]
      rfl
    · cases missing

/-- A request that is refused as expired is an alert. -/
theorem confirm_expired {firstOutput : TxOutput}
    (first : request.details.outputs.head? = some firstOutput)
    (expired : Expired security request clock) :
    confirmProtocolRequest security request screen (some wallet) clock validation =
      .ok (.alert .badPaymentRequest) := by
  have refused : isValid security request clock validation =
      (false,⟨named security request validation.cName,some requestExpired,true⟩) := by
    rcases expired with refused | ⟨passed,late⟩
    · exact isValid_refused refused
    · exact isValid_late passed late
  unfold confirmProtocolRequest
  rw [first]
  dsimp only
  rw [refused]
  exact if_pos ⟨rfl,rfl⟩

/-- Any other is looked at further, with the name and the error that are remembered. -/
theorem confirm_further {firstOutput : TxOutput}
    (first : request.details.outputs.head? = some firstOutput)
    (other : ¬ Expired security request clock) :
    confirmProtocolRequest security request screen (some wallet) clock validation = (do
      let loop ← request.details.outputs.foldlM (addOutput wallet.minOutputAmount) (false,0)
      checkAddress request screen wallet firstOutput.swiftAddress
        (remembered security request validation) (named security request validation.cName)
        loop.1 loop.2) := by
  obtain ⟨refused,current⟩ := not_or.mp other
  unfold confirmProtocolRequest remembered
  rw [first]
  dsimp only
  cases answer : refusal security request with
  | some message =>
    have unlike : ¬ (some message = some requestExpired ∧ false = false) := fun same =>
      refused (answer.trans same.1)
    rw [isValid_refused answer]
    exact if_neg unlike
  | none =>
    have valid : request.details.current clock = true :=
      Bool.eq_true_of_not_eq_false fun late => current ⟨answer,late⟩
    have unlike : ¬ (validation.errMsg = some requestExpired ∧ true = false) := fun same =>
      absurd same.2.symm Bool.false_ne_true
    rw [isValid_current answer valid]
    exact if_neg unlike

theorem tooSmall_iff {requestAmount : UInt64} {small : Bool}
    (sum : requestAmount.toNat = total request.details.outputs)
    (any : small = request.details.outputs.any fun output =>
      decide (output.amount > 0 ∧ output.amount < wallet.minOutputAmount)) :
    requestAmount < wallet.minOutputAmount ∨ small = true ↔ TooSmall request wallet := by
  rw [TooSmall, UInt64.lt_iff_toNat_lt, sum, any, List.any_eq_true]
  simp only [decide_eq_true_iff]

/-- What a request that is looked at further needs, from the conditions that its code asks. -/
theorem further_iff :
    (total request.details.outputs < 2 ^ 64 ∧ (AddressPassed screen wallet address →
      Named (remembered security request validation) (named security request validation.cName) ∧
      (¬ Warned screen (remembered security request validation)
          (named security request validation.cName) → ¬ TooSmall request wallet →
        (∃ tx, wallet.createTxForOutputs request.details.outputs = .ok (some tx)) ∧
          Payable security request screen clock))) ↔
      Sound security request screen wallet address clock validation := by
  constructor
  · rintro ⟨fits,further⟩
    refine ⟨fits,fun passed => (further passed).1,?_,?_,?_⟩
    · intro passed large kept message refused
      have told : remembered security request validation = some message := by
        rw [remembered, refused]
        rfl
      have unwarned (silent : message = [] ∨ named security request validation.cName = some []) :
          False := by
        have quiet : ¬ Warned screen (remembered security request validation)
            (named security request validation.cName) := by
          rintro ⟨_,text,name,same,full,given,long⟩
          cases told.symm.trans same
          rcases silent with empty | empty
          · exact full empty
          · exact long (Option.some.inj (given.symm.trans empty))
        have accepted := ((further passed).2 quiet large).2.accepted
        have none := refusal_none.mpr fun certified => accepted certified kept
        exact absurd (none.symm.trans refused) (Option.some_ne_none message).symm
      exact ⟨fun empty => unwarned (Or.inl empty),fun empty => unwarned (Or.inr empty)⟩
    · intro passed large quiet
      exact ((further passed).2 quiet large).2.unexpired
    · intro passed large quiet
      exact ((further passed).2 quiet large).1
  · intro sound
    refine ⟨sound.fits,fun passed => ⟨sound.name_given passed,fun quiet large => ?_⟩⟩
    refine ⟨sound.funded passed large quiet,sound.unexpired passed large quiet,sound.fits,?_⟩
    intro certified kept
    refine refusal_none.mp ?_ certified
    cases refused : refusal security request with
    | none => rfl
    | some message =>
      have told : remembered security request validation = some message := by
        rw [remembered, refused]
        rfl
      obtain ⟨full,long⟩ := sound.shown passed large kept message refused
      cases given : named security request validation.cName with
      | none => exact absurd given (sound.name_given passed message told full)
      | some name =>
        refine absurd ⟨kept,message,name,told,full,given,?_⟩ quiet
        rintro rfl
        exact long given

/-- The loop over outputs whose sum fits. -/
theorem addOutputs_fit (least : UInt64) (fits : total request.details.outputs < 2 ^ 64) :
    request.details.outputs.foldlM (addOutput least) (false,0) =
      .ok (request.details.outputs.any fun output =>
          decide (output.amount > 0 ∧ output.amount < least),
        UInt64.ofNat (total request.details.outputs)) := by
  refine addOutputs_ran.mpr ?_
  rw [UInt64.toNat_zero, Nat.zero_add]
  exact ⟨fits,UInt64.toNat_ofNat_of_lt' fits,(Bool.false_or _).symm⟩

theorem addOutputs_fits {least : UInt64} {loop : Bool × UInt64}
    (run : request.details.outputs.foldlM (addOutput least) (false,0) = .ok loop) :
    total request.details.outputs < 2 ^ 64 := by
  have bound := (addOutputs_ran.mp run).1
  rw [UInt64.toNat_zero, Nat.zero_add] at bound
  exact bound

/-- The two places where nothing is asked of the request. -/
theorem ignored_paid {wallet : Option (Wallet Tx)}
    (nothing : request.details.outputs.head? = none ∨ wallet = none) :
    PaidWhenValid security request screen wallet clock validation :=
  ⟨.ignored,confirm_ignored nothing,fun tx built => by cases built⟩

theorem expired_paid {firstOutput : TxOutput}
    (first : request.details.outputs.head? = some firstOutput)
    (expired : Expired security request clock) :
    PaidWhenValid security request screen (some wallet) clock validation :=
  ⟨.alert .badPaymentRequest,confirm_expired first expired,fun tx built => by cases built⟩

theorem other_paid_iff {firstOutput : TxOutput}
    (first : request.details.outputs.head? = some firstOutput)
    (other : ¬ Expired security request clock) :
    PaidWhenValid security request screen (some wallet) clock validation ↔
      Sound security request screen wallet firstOutput.swiftAddress clock validation := by
  rw [PaidWhenValid, confirm_further first other, ← further_iff]
  by_cases fits : total request.details.outputs < 2 ^ 64
  case pos =>
    rw [bind_ready (addOutputs_fit _ fits), checkAddress_only_if, and_iff_right fits,
      tooSmall_iff (UInt64.toNat_ofNat_of_lt' fits) rfl]
  case neg =>
    refine iff_of_false ?_ fun sound => fits sound.1
    rintro ⟨outcome,run,_⟩
    obtain ⟨loop,summed,_⟩ := bind_ran.mp run
    exact fits (addOutputs_fits summed)

/-- A request is confirmed without a trap, and paid only if it is valid, exactly if it is sound or
    is refused as expired: the sum fits, an error comes with a name and is shown, the request has
    not expired in Unix time, and the wallet has a transaction for it. -/
theorem paid_when_valid_iff {wallet : Option (Wallet Tx)} :
    PaidWhenValid security request screen wallet clock validation ↔
      ∀ firstOutput, request.details.outputs.head? = some firstOutput →
        ∀ held, wallet = some held → ¬ Expired security request clock →
        Sound security request screen held firstOutput.swiftAddress clock validation := by
  cases first : request.details.outputs.head? with
  | none =>
    refine iff_of_true (ignored_paid (Or.inl first)) ?_
    intro firstOutput missing
    cases missing
  | some firstOutput =>
    cases wallet with
    | none =>
      refine iff_of_true (ignored_paid (Or.inr rfl)) ?_
      intro _ _ held missing
      cases missing
    | some wallet =>
      by_cases expired : Expired security request clock
      case pos =>
        exact iff_of_true (expired_paid first expired) fun _ _ _ _ other => absurd expired other
      case neg =>
        rw [other_paid_iff first expired]
        constructor
        · rintro sound output same held also _
          cases same
          cases also
          exact sound
        · intro sound
          exact sound firstOutput rfl wallet rfl expired

end Confirmed

def noSecurity : Security Unit Unit where
  certificate := fun _ => none
  subjectSummary := fun _ => none
  trust := fun _ => none
  rawVerify := fun _ _ _ _ => errSecUnimplemented
  localizedDescription := fun _ => []

/-- A request without certificates, which expires in May 2014. -/
def oldRequest : PaymentProtocolRequest where
  details := { outputs := [⟨"1".toList,1000,[]⟩], expires := 1400000000 }

def fundedWallet : Wallet Unit where
  feePerKb := 0
  containsAddress := fun _ => false
  addressIsUsed := fun _ => false
  createTransaction := fun _ _ => .ok (some ())
  createTxForOutputs := fun _ => .ok (some ())

/-- In March 2023 the clock is at less than half of what the request expires at, and it is paid. -/
theorem old_request_paid :
    confirmProtocolRequest noSecurity oldRequest {} (some fundedWallet) 700000000 {} =
        .ok (.built ()) ∧
      ¬ PaidWhenValid noSecurity oldRequest {} (some fundedWallet) 700000000 {} := by
  have exact_time : double.round ((1400000000 : UInt64).toNat : Rat) = 1400000000 :=
    BinaryRounding.Format.round_natCast (n := 1400000000) (by decide) (by decide)
  have current : oldRequest.details.current 700000000 = true := by
    refine decide_eq_true (Or.inr ?_)
    show (700000000 : Rat) ≤ double.round ((1400000000 : UInt64).toNat : Rat)
    rw [exact_time]
    norm_num
  have built : confirmProtocolRequest noSecurity oldRequest {} (some fundedWallet) 700000000 {} =
      .ok (.built ()) := by
    have other : ¬ Expired noSecurity oldRequest 700000000 := by
      rintro (refused | ⟨_,late⟩)
      · cases refused
      · exact absurd (late.symm.trans current) Bool.false_ne_true
    exact (confirm_further rfl other).trans rfl
  refine ⟨built,?_⟩
  rintro ⟨outcome,run,payable⟩
  cases built.symm.trans run
  rcases (payable () rfl).unexpired with never | unexpired
  · exact absurd never (by decide)
  · have past : ¬ (700000000 + 978307200 : Rat) ≤ ((1400000000 : Nat) : Rat) := by norm_num
    exact past unexpired

end ProtocolRequests
