import AltMessenger.BitcoinTransaction

/-!
Signing a message of the wallet and building the transaction that is sent. The
message and the transaction are encoded by two separate paths; the question is
whether the bytes that were signed are those of the transaction sent.
-/
namespace TransactionBuilder
open SwiftRuntime BitcoinStream BitcoinHash BitcoinKeys BitcoinTransaction

structure TransactionMessage where
  version : UInt32
  inputs : List Input
  outputs : List Output
  lockTime : LockTime
  sigHash : UInt32
  deriving DecidableEq

/-- The hash type written is the constant, not the field. -/
def TransactionMessage.bitcoinData (message : TransactionMessage) : Except Trap (List UInt8) := do
  let lockTime ← message.lockTime.rawValue
  pure (encodeParts message.version message.inputs message.outputs lockTime ++
    appendUInt32 0x01 .LittleEndian)

/-- The draw of a nonce makes each call of `sign` its own function of key and digest. -/
abbrev Sign := Nat → CoinKey → Nat → Except Trap (Nat × Nat)

/-- `txTmp`: every input that is not `input` loses its script. -/
def blankOthers (message : TransactionMessage) (input : Input) : TransactionMessage :=
  { message with
    inputs := message.inputs.map fun other =>
      if other.beq input then other else { other with scriptSignature := [] } }

def transactionMessageHash (D : Digests) (message : TransactionMessage) (input : Input) :
    Except Trap SHA256Hash := do
  let txTmp ← (blankOthers message input).bitcoinData
  let sha256Data ← Hash256.digest D txTmp
  HashOf.ofData 32 sha256Data

variable (D : Digests) (sign : Sign)

def produceDERSignature (message : TransactionMessage) (call : Nat) (input : Input) :
    Except Trap (List UInt8) := do
  let hash ← transactionMessageHash D message input
  let userKey ← unwrap input.userKey
  let (r,s) ← sign call userKey (bigUInt hash.data)
  der r s

def scriptSignature (message : TransactionMessage) (call : Nat) (input : Input) :
    Except Trap (List UInt8) := do
  let signature ← produceDERSignature D sign message call input
  let length ← uint8 (signature.length + 1)
  let userKey ← unwrap input.userKey
  let hex ← userKey.publicKeyHexString
  let publicKey ← hexStringToNSData hex
  let publicKeyLength ← uint8 publicKey.length
  pure (length :: signature ++ [0x01, publicKeyLength] ++ publicKey)

/-- The loop over the inputs, counting the calls of `sign`. -/
def signInputs (message : TransactionMessage) : Nat → List Input → Except Trap (List Input)
  | _, [] => .ok []
  | call, input :: inputs => do
    let script ← scriptSignature D sign message call input
    let signed ← signInputs message (call + 1) inputs
    pure ({ outPoint := input.outPoint, scriptSignature := script, sequence := input.sequence,
            userKey := none } :: signed)

/-- The transaction is made without the message's lock time. -/
def transaction (message : TransactionMessage) : Except Trap Transaction := do
  let inputs ← signInputs D sign message 0 message.inputs
  Transaction.create message.version inputs message.outputs .AlwaysLocked

/-- The bytes a SIGHASH_ALL signature of input `i` is over, once this
    transaction is the one that was sent. -/
def sighashAll (tx : Transaction) (i : Nat) (script : List UInt8) : Except Trap (List UInt8) := do
  let lockTime ← tx.lockTime.rawValue
  let inputs := tx.inputs.mapIdx fun j input =>
    { input with scriptSignature := if j = i then script else [] }
  pure (encodeParts tx.version inputs tx.outputs lockTime ++ appendUInt32 0x01 .LittleEndian)

structure SignedAsSent (message : TransactionMessage) (tx : Transaction) : Prop where
  version : tx.version = message.version
  outPoints : tx.inputs.map (·.outPoint) = message.inputs.map (·.outPoint)
  sequences : tx.inputs.map (·.sequence) = message.inputs.map (·.sequence)
  outputs : tx.outputs = message.outputs
  lockTime : tx.lockTime = message.lockTime
  signed : ∀ i input, message.inputs[i]? = some input →
    (blankOthers message input).bitcoinData = sighashAll tx i input.scriptSignature

/-- A signed input still spends what the message's input spends. -/
def SameSpend (input signed : Input) : Prop :=
  signed.outPoint = input.outPoint ∧ signed.sequence = input.sequence

variable {D sign}

theorem signInputs_ok {message : TransactionMessage} {call : Nat} {inputs signed : List Input}
    (run : signInputs D sign message call inputs = .ok signed) :
    List.Forall₂ SameSpend inputs signed := by
  induction inputs generalizing call signed with
  | nil =>
    cases run
    exact List.Forall₂.nil
  | cons input inputs ih =>
    obtain ⟨script,_,run⟩ := bind_ran.mp run
    obtain ⟨rest,later,run⟩ := bind_ran.mp run
    cases run
    exact List.Forall₂.cons ⟨rfl,rfl⟩ (ih later)

theorem same_spends {inputs signed : List Input} (spends : List.Forall₂ SameSpend inputs signed) :
    signed.map (·.outPoint) = inputs.map (·.outPoint) ∧
      signed.map (·.sequence) = inputs.map (·.sequence) := by
  induction spends with
  | nil => exact ⟨rfl,rfl⟩
  | cons same _ ih => simp only [List.map_cons, same.1, same.2, ih.1, ih.2, and_self]

theorem spend_at {inputs signed : List Input} (spends : List.Forall₂ SameSpend inputs signed)
    {j : Nat} {input : Input} (found : inputs[j]? = some input) :
    ∃ mine, signed[j]? = some mine ∧ SameSpend input mine := by
  induction spends generalizing j with
  | nil => cases found
  | @cons a b inputs signed same _ ih =>
    cases j with
    | zero =>
      cases found
      exact ⟨b,rfl,same⟩
    | succ j => exact ih found

/-- Every input but the one being signed differs from it in the output it spends. -/
theorem beq_position {inputs : List Input} (distinct : (inputs.map (·.outPoint)).Nodup)
    {i j : Nat} {input other : Input} (hi : inputs[i]? = some input)
    (hj : inputs[j]? = some other) : other.beq input = decide (j = i) := by
  by_cases same : j = i
  · subst same
    have : other = input := Option.some.inj (hj.symm.trans hi)
    subst this
    simp [Input.beq]
  · have apart : other.outPoint ≠ input.outPoint := by
      intro equal
      have left : (inputs.map (·.outPoint))[j]? = some other.outPoint := by
        rw [List.getElem?_map, hj]; rfl
      have right : (inputs.map (·.outPoint))[i]? = some other.outPoint := by
        rw [List.getElem?_map, hi, equal]; rfl
      have bound : j < (inputs.map (·.outPoint)).length := by
        rw [List.getElem?_eq_some_iff] at left
        exact left.1
      exact same ((List.getElem?_inj bound distinct).mp (left.trans right.symm))
    simp [Input.beq, apart, same]

/-- The inputs hashed for position `i` are written as those of the transaction
    with the script at `i` and none elsewhere. -/
theorem blanked_bytes {inputs signed : List Input} (spends : List.Forall₂ SameSpend inputs signed)
    (distinct : (inputs.map (·.outPoint)).Nodup) {i : Nat} {input : Input}
    (hi : inputs[i]? = some input) :
    (inputs.map fun other =>
        if other.beq input then other else { other with scriptSignature := [] }).map
          Input.bitcoinData =
      (signed.mapIdx fun j other =>
        { other with scriptSignature := if j = i then input.scriptSignature else [] }).map
          Input.bitcoinData := by
  apply List.ext_getElem?
  intro j
  rw [List.getElem?_map, List.getElem?_map, List.getElem?_map, List.getElem?_mapIdx]
  cases hj : inputs[j]? with
  | none =>
    have missing : signed[j]? = none := by
      rw [List.getElem?_eq_none_iff] at hj ⊢
      rwa [← spends.length_eq]
    rw [missing]
    rfl
  | some other =>
    obtain ⟨mine,hm,outPoint,sequence⟩ := spend_at spends hj
    have position := beq_position distinct hi hj
    rw [hm, Option.map_some, Option.map_some, Option.map_some, Option.map_some, position]
    by_cases same : j = i
    · subst same
      have : other = input := Option.some.inj (hj.symm.trans hi)
      subst this
      simp [Input.bitcoinData, outPoint, sequence]
    · simp [Input.bitcoinData, outPoint, sequence, same]

theorem encodeParts_of_bytes {version lockTime : UInt32} {inputs signed : List Input}
    {outputs : List Output}
    (bytes : inputs.map Input.bitcoinData = signed.map Input.bitcoinData) :
    encodeParts version inputs outputs lockTime = encodeParts version signed outputs lockTime := by
  have length : inputs.length = signed.length := by
    have := congrArg List.length bytes
    rwa [List.length_map, List.length_map] at this
  have flat : inputs.flatMap Input.bitcoinData = signed.flatMap Input.bitcoinData := by
    rw [List.flatMap_def, List.flatMap_def, bytes]
  rw [encodeParts, encodeParts, length, flat]

/-- The bytes signed for an input are those of the transaction with the
    message's lock time put back. -/
theorem signed_bytes {message : TransactionMessage} {tx : Transaction}
    (spends : List.Forall₂ SameSpend message.inputs tx.inputs)
    (distinct : (message.inputs.map (·.outPoint)).Nodup)
    (version : tx.version = message.version) (outputs : tx.outputs = message.outputs)
    {i : Nat} {input : Input} (hi : message.inputs[i]? = some input) :
    (blankOthers message input).bitcoinData =
      sighashAll { tx with lockTime := message.lockTime } i input.scriptSignature := by
  have written := blanked_bytes spends distinct hi
  unfold TransactionMessage.bitcoinData sighashAll
  rw [show (blankOthers message input).lockTime = message.lockTime from rfl]
  cases value : message.lockTime.rawValue with
  | error e => rfl
  | ok raw =>
    rw [bind_ready rfl, bind_ready rfl]
    dsimp only [blankOthers]
    rw [version, outputs]
    exact congrArg (fun bytes => Except.ok (bytes ++ appendUInt32 0x01 .LittleEndian))
      (encodeParts_of_bytes written)

theorem transaction_ran {message : TransactionMessage} {tx : Transaction}
    (run : transaction D sign message = .ok tx) :
    List.Forall₂ SameSpend message.inputs tx.inputs ∧ tx.version = message.version ∧
      tx.outputs = message.outputs ∧ tx.lockTime = .AlwaysLocked := by
  obtain ⟨inputs,signed,run⟩ := bind_ran.mp run
  unfold Transaction.create at run
  split at run
  · cases run
    exact ⟨signInputs_ok signed,rfl,rfl,rfl⟩
  · cases run

/-- What signing promises for a valid key and a digest below the order. -/
def SignsBelowOrder (sign : Sign) : Prop :=
  ∀ call (key : CoinKey) digest, key.Valid → digest < order →
    ∃ r s, sign call key digest = .ok (r,s) ∧ 0 < r ∧ r < order ∧ 0 < s ∧ s < order

/-- A message each of whose inputs can be hashed, signed and written. -/
structure Signable (D : Digests) (message : TransactionMessage) : Prop where
  hasOutput : 0 < message.outputs.length
  keys : ∀ input ∈ message.inputs, ∃ key : CoinKey, input.userKey = some key ∧ key.Valid
  hashes : ∀ input ∈ message.inputs, ∃ hash, transactionMessageHash D message input = .ok hash ∧
    bigUInt hash.data < order

theorem scriptSignature_ready {message : TransactionMessage} (signs : SignsBelowOrder sign)
    (call : Nat) {input : Input} {key : CoinKey} (userKey : input.userKey = some key)
    (valid : key.Valid) {hash : SHA256Hash}
    (hashed : transactionMessageHash D message input = .ok hash)
    (below : bigUInt hash.data < order) :
    ∃ script, scriptSignature D sign message call input = .ok script := by
  have fits : order < 256 ^ 32 := by decide
  have unwrapped : unwrap input.userKey = .ok key := by rw [userKey]; rfl
  obtain ⟨r,s,signed,hr,below_r,hs,below_s⟩ := signs call key _ valid below
  obtain ⟨signature,written,short⟩ :=
    der_ok hr (Nat.lt_trans below_r fits) hs (Nat.lt_trans below_s fits)
  obtain ⟨publicKey,hex,short_key⟩ := publicKeyHexString_ok valid
  have produced : produceDERSignature D sign message call input = .ok signature := by
    unfold produceDERSignature
    rw [bind_ready hashed, bind_ready unwrapped, bind_ready signed]
    exact written
  refine ⟨UInt8.ofNat (signature.length + 1) :: signature ++
    [0x01, UInt8.ofNat publicKey.length] ++ publicKey,?_⟩
  unfold scriptSignature
  rw [bind_ready produced, bind_ready (uint8_ok (by omega)), bind_ready unwrapped,
    bind_ready hex, bind_ready (hexStringToNSData_toHexString publicKey),
    bind_ready (uint8_ok (by omega))]
  rfl

theorem signInputs_ready {message : TransactionMessage} (signs : SignsBelowOrder sign)
    {inputs : List Input}
    (keys : ∀ input ∈ inputs, ∃ key : CoinKey, input.userKey = some key ∧ key.Valid)
    (hashes : ∀ input ∈ inputs, ∃ hash, transactionMessageHash D message input = .ok hash ∧
      bigUInt hash.data < order) (call : Nat) :
    ∃ signed, signInputs D sign message call inputs = .ok signed := by
  induction inputs generalizing call with
  | nil => exact ⟨[],rfl⟩
  | cons input inputs ih =>
    obtain ⟨key,userKey,valid⟩ := keys input (by simp)
    obtain ⟨hash,hashed,below⟩ := hashes input (by simp)
    obtain ⟨script,first⟩ := scriptSignature_ready signs call userKey valid hashed below
    obtain ⟨signed,later⟩ := ih (fun other mem => keys other (List.mem_cons_of_mem input mem))
      (fun other mem => hashes other (List.mem_cons_of_mem input mem)) (call + 1)
    refine ⟨{ outPoint := input.outPoint, scriptSignature := script, sequence := input.sequence,
              userKey := none } :: signed,?_⟩
    rw [signInputs, bind_ready first, bind_ready later]
    rfl

/-- A signable message always yields its transaction. -/
theorem transaction_ready {message : TransactionMessage} (signs : SignsBelowOrder sign)
    (ready : Signable D message) : ∃ tx, transaction D sign message = .ok tx := by
  obtain ⟨signed,run⟩ := signInputs_ready signs ready.keys ready.hashes 0
  unfold transaction
  rw [bind_ready run, Transaction.create, dif_pos ready.hasOutput]
  exact ⟨_,rfl⟩

/-- What is signed is what is sent exactly for messages without a lock time:
    the builder keeps every other part and drops this one. -/
theorem signed_as_sent_iff {message : TransactionMessage}
    (distinct : (message.inputs.map (·.outPoint)).Nodup) :
    (SignsBelowOrder sign → Signable D message →
        ∃ tx, transaction D sign message = .ok tx) ∧
      ∀ tx, transaction D sign message = .ok tx →
        (SignedAsSent message tx ↔ message.lockTime = .AlwaysLocked) := by
  refine ⟨transaction_ready,?_⟩
  intro tx run
  obtain ⟨spends,version,outputs,lockTime⟩ := transaction_ran run
  constructor
  · intro sent
    rw [← sent.lockTime, lockTime]
  · intro always
    obtain ⟨outPoints,sequences⟩ := same_spends spends
    have kept : { tx with lockTime := message.lockTime } = tx := by
      rw [always, ← lockTime]
    refine ⟨version,outPoints,sequences,outputs,by rw [lockTime, always],?_⟩
    intro i input hi
    rw [signed_bytes spends distinct version outputs hi, kept]

/-- The key of the base point, its output script, and one coin paid to it. -/
def baseKey : CoinKey where
  privateKey := 1
  publicKeyPoint := {
    x := some ⟨0x79be667ef9dcbbac55a06295ce870b07029bfcdb2dce28d959f2815b16f81798,by decide⟩
    y := some ⟨0x483ada7726a3c4655da4fbfc0e1108a8fd17b448a68554199c47d08ffb10d4b8,by decide⟩ }
  isCompressedPublicKeyAddress := true
  privateKeyPrefix := 0x80
  publicKeyPrefix := 0x00

def baseScript : List UInt8 :=
  [0x76, 0xa9, 0x14] ++ serialize 0x751e76e8199196d454941c45d1b3a323f1433bd6 ++ [0x88, 0xac]

def baseInput : Input where
  outPoint := { transactionHash := ⟨List.replicate 32 0x11,rfl⟩, index := 0 }
  scriptSignature := baseScript
  sequence := 0xffffffff
  userKey := some baseKey

def spend (lockTime : LockTime) : TransactionMessage where
  version := 1
  inputs := [baseInput]
  outputs := [{ value := 1000, script := baseScript }]
  lockTime := lockTime
  sigHash := 1

/-- The digests met when `spend` is signed at this lock time. -/
def spendDigests (lockTime : UInt32) (once twice : Nat) : Digests :=
  Digests.known
    [(encodeParts 1 [baseInput] [{ value := 1000, script := baseScript }] lockTime ++
        appendUInt32 0x01 .LittleEndian, serialize once),
      (serialize once, serialize twice)] []

def digestsAlways : Digests :=
  spendDigests 0 0xc6e5b24d901a76ca75eb433f695f5cc24ebf0bf75d147d255deed2d27812ce22
    0x29a4369ccd98c3bd23808e46948c054dfa0ae037ad85109f52e3195af790ccd4

def digestsHeight : Digests :=
  spendDigests 500000 0x73a537fc236a75f342b5f7df553e88c5b8aed204140e1793fb568561e7c0a01b
    0x1eaf24d88863814f51524d3b1fef43a645cd64057affb190b6892aa7b638c68a

/-- Signatures of those digests under the base key, for one draw of the nonce. -/
def baseSign : Sign := fun _ _ digest =>
  if digest = 0x29a4369ccd98c3bd23808e46948c054dfa0ae037ad85109f52e3195af790ccd4 then
    .ok (0x5cbdf0646e5db4eaa398f365f2ea7a0e3d419b7e0330e39ce92bddedcac4f9bc,
      0x5c572a24bf6c5a611c715baaeec7c90ccf8607a5022ebe62d1abf532a064e5de)
  else
    .ok (0x199e419d6288cd839f725a876a9226b82f1c06c06d71dd4d9ab8d98a32dd5fcc,
      0x3247c63de5650f24b3df6e77211cc58d9f0a878abb3aa9d9a35ee0508c7d7e15)

theorem baseKey_valid : baseKey.Valid :=
  ⟨by decide,by decide,rfl,_,_,rfl,by decide⟩

theorem baseSign_signs : SignsBelowOrder baseSign := by
  intro call key digest _ _
  unfold baseSign
  split
  · exact ⟨_,_,rfl,by decide,by decide,by decide,by decide⟩
  · exact ⟨_,_,rfl,by decide,by decide,by decide,by decide⟩

theorem spend_signable {D : Digests} {lockTime : LockTime} {hash : SHA256Hash}
    (hashed : transactionMessageHash D (spend lockTime) baseInput = .ok hash)
    (below : bigUInt hash.data < order) : Signable D (spend lockTime) where
  hasOutput := Nat.one_pos
  keys := by
    intro input mem
    rw [List.mem_singleton.mp mem]
    exact ⟨baseKey,rfl,baseKey_valid⟩
  hashes := by
    intro input mem
    rw [List.mem_singleton.mp mem]
    exact ⟨hash,hashed,below⟩

def hashAlways : SHA256Hash :=
  ⟨serialize 0x29a4369ccd98c3bd23808e46948c054dfa0ae037ad85109f52e3195af790ccd4,by decide⟩

def hashHeight : SHA256Hash :=
  ⟨serialize 0x1eaf24d88863814f51524d3b1fef43a645cd64057affb190b6892aa7b638c68a,by decide⟩

theorem spend_signed_as_sent :
    ∃ tx, transaction digestsAlways baseSign (spend .AlwaysLocked) = .ok tx ∧
      SignedAsSent (spend .AlwaysLocked) tx := by
  have both := @signed_as_sent_iff digestsAlways baseSign (spend .AlwaysLocked) (by decide)
  have hashed : transactionMessageHash digestsAlways (spend .AlwaysLocked) baseInput =
      .ok hashAlways := by decide
  obtain ⟨tx,run⟩ := both.1 baseSign_signs (spend_signable hashed (by decide))
  exact ⟨tx,run,(both.2 tx run).mpr rfl⟩

theorem spend_at_height_not_as_signed :
    ∃ tx, transaction digestsHeight baseSign (spend (.BlockHeight 500000)) = .ok tx ∧
      ¬ SignedAsSent (spend (.BlockHeight 500000)) tx := by
  have hashed : transactionMessageHash digestsHeight (spend (.BlockHeight 500000)) baseInput =
      .ok hashHeight := by decide
  obtain ⟨tx,run⟩ := transaction_ready baseSign_signs (spend_signable hashed (by decide))
  refine ⟨tx,run,?_⟩
  intro sent
  have kept := sent.lockTime
  rw [(transaction_ran run).2.2.2] at kept
  cases kept

end TransactionBuilder
