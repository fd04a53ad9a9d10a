import AltMessenger.BitcoinStream

/-!
The transactions of the wallet's core, as they are serialized and parsed again. Where a field that
is parsed would reach beyond the end, the result is `NULL`.
-/
namespace BRTransactions
open ByteReader BitcoinStream LittleEndian

abbrev UInt256 := BitVec 256

/-- A script without bytes is `NULL` or empty. -/
structure BRTxInput where
  txHash : UInt256
  index : UInt32
  amount : UInt64
  script : List UInt8
  signature : Option (List UInt8)
  sequence : UInt32
  deriving DecidableEq, Repr

structure BRTxOutput where
  amount : UInt64
  script : List UInt8
  deriving DecidableEq, Repr

structure BRTransaction where
  txHash : UInt256
  version : UInt32
  inputs : List BRTxInput
  outputs : List BRTxOutput
  lockTime : UInt32
  blockHeight : UInt32
  timestamp : UInt32
  deriving DecidableEq, Repr

/-- Block height indicating transaction is unconfirmed. -/
def TX_UNCONFIRMED : UInt32 := 0x7fffffff

def BRVarIntSet (i : UInt64) : List UInt8 :=
  if i.toNat < 0xfd then [UInt8.ofNat i.toNat]
  else if i.toNat ≤ 0xffff then 0xfd :: toBytes 2 i.toNat
  else if i.toNat ≤ 0xffffffff then 0xfe :: toBytes 4 i.toNat
  else 0xff :: toBytes 8 i.toNat

def BRVarInt : Stream UInt64 := do
  let h ← readUInt8
  if h = 0xfd then do
    let r ← readUInt16 .LittleEndian
    pure (UInt64.ofNat r.toNat)
  else if h = 0xfe then do
    let r ← readUInt32 .LittleEndian
    pure (UInt64.ofNat r.toNat)
  else if h = 0xff then readUInt64 .LittleEndian
  else pure (UInt64.ofNat h.toNat)

/-- `_BRTxInputData` -/
def txInputData (input : BRTxInput) : List UInt8 :=
  let signature := input.signature.getD []
  toBytes 32 input.txHash.toNat ++ (appendUInt32 input.index .LittleEndian ++
    (BRVarIntSet (UInt64.ofNat signature.length) ++ (signature ++
      ((if input.amount ≠ 0 then appendUInt64 input.amount .LittleEndian else []) ++
        appendUInt32 input.sequence .LittleEndian))))

/-- An element of the loop in `_BRTransactionOutputData`. -/
def txOutputData (output : BRTxOutput) : List UInt8 :=
  appendUInt64 output.amount .LittleEndian ++
    (BRVarIntSet (UInt64.ofNat output.script.length) ++ output.script)

/-- An input without a signature has its script there, and its amount; one with a signature has
    no amount. -/
def serializedInput (input : BRTxInput) : BRTxInput :=
  match input.signature with
  | none => { input with signature := some input.script }
  | some _ => { input with amount := 0 }

/-- `_BRTransactionData` for `SIZE_MAX` and `SIGHASH_ALL` -/
def BRTransactionSerialize (tx : BRTransaction) : List UInt8 :=
  appendUInt32 tx.version .LittleEndian ++ (BRVarIntSet (UInt64.ofNat tx.inputs.length) ++
    (tx.inputs.flatMap (fun input => txInputData (serializedInput input)) ++
      (BRVarIntSet (UInt64.ofNat tx.outputs.length) ++ (tx.outputs.flatMap txOutputData ++
        appendUInt32 tx.lockTime .LittleEndian))))

/-- The functions of the core that the parser calls. -/
structure Core where
  /-- whether `BRAddressFromScriptPubKey` finds an address -/
  isAddress : List UInt8 → Bool
  BRSHA256_2 : List UInt8 → UInt256

/-- `UInt256Get` -/
def readUInt256 : Stream UInt256 := do
  let buf ← readBuffer 32
  pure (BitVec.ofNat 256 (ofBytes buf))

/-- The body of the loop over the inputs, and whether the input is signed. -/
def parseInput (core : Core) : Stream (BRTxInput × Bool) := do
  let txHash ← readUInt256
  let index ← readUInt32 .LittleEndian
  let sLen ← BRVarInt
  let buf ← readBuffer sLen.toNat
  if core.isAddress buf then do
    let amount ← readUInt64 .LittleEndian
    let sequence ← readUInt32 .LittleEndian
    pure ({ txHash, index, amount, script := buf, signature := none, sequence }, false)
  else do
    let sequence ← readUInt32 .LittleEndian
    pure ({ txHash, index, amount := 0, script := [], signature := some buf, sequence }, true)

/-- The body of the loop over the outputs. -/
def parseOutput : Stream BRTxOutput := do
  let amount ← readUInt64 .LittleEndian
  let sLen ← BRVarInt
  let script ← readBuffer sLen.toNat
  pure { amount, script }

/-- The fields up to the lock time, and whether all inputs are signed. -/
def parseFields (core : Core) : Stream (BRTransaction × Bool) := do
  let version ← readUInt32 .LittleEndian
  let inCount ← BRVarInt
  let inputs ← readMany (parseInput core) inCount.toNat
  let outCount ← BRVarInt
  let outputs ← readMany parseOutput outCount.toNat
  let lockTime ← readUInt32 .LittleEndian
  pure ({ txHash := 0,
          version,
          inputs := inputs.map Prod.fst,
          outputs,
          lockTime,
          blockHeight := TX_UNCONFIRMED,
          timestamp := 0 }, inputs.all Prod.snd)

def BRTransactionParse (core : Core) (buf : List UInt8) : Option BRTransaction :=
  match parseFields core buf with
  | .ok (tx, isSigned) rest =>
    if tx.inputs = [] then none
    else if isSigned then
      some { tx with txHash := core.BRSHA256_2 (buf.take (buf.length - rest.length)) }
    else some tx
  | _ => none

/-- Every input is signed, and no signature would be taken for a script with an address. -/
structure Signed (core : Core) (tx : BRTransaction) : Prop where
  has_input : tx.inputs ≠ []
  signed : ∀ input ∈ tx.inputs, ∃ signature, input.signature = some signature ∧
    core.isAddress signature = false

/-- What is parsed of an input that is signed. -/
def withoutScript (input : BRTxInput) : BRTxInput := { input with amount := 0, script := [] }

section Words
variable {core : Core} {i : UInt64}

theorem varIntSet_eq (i : UInt64) : BRVarIntSet i = appendVarInt i := (appendVarInt_eq i).symm

theorem varInt_eq : BRVarInt = readVarInt := by
  unfold BRVarInt readVarInt
  congr 1
  funext h
  by_cases one : h < 0xfd
  · have other (marker : UInt8) (above : 0xfd ≤ marker.toNat) : h ≠ marker := by
      rintro rfl
      rw [UInt8.lt_iff_toNat_lt] at one
      exact absurd above (Nat.not_le_of_lt one)
    rw [if_pos one, if_neg (other 0xfd (by decide)), if_neg (other 0xfe (by decide)),
      if_neg (other 0xff (by decide))]
  · rw [if_neg one]
    by_cases two : h = 0xfd
    · rw [if_pos two, if_pos two]
    · rw [if_neg two, if_neg two]
      by_cases four : h = 0xfe
      · rw [if_pos four, if_pos four]
      · rw [if_neg four, if_neg four, if_pos (last_marker one two four)]

theorem reads_varInt (i : UInt64) : Reads BRVarInt (BRVarIntSet i) i := by
  rw [varInt_eq, varIntSet_eq]
  exact reads_varint i

theorem reads_uint256 (u : UInt256) : Reads readUInt256 (toBytes 32 u.toNat) u := by
  have word := reads_word (BitVec.ofNat 256) .LittleEndian 32 u.toNat u.isLt
  rwa [BitVec.ofNat_toNat, BitVec.setWidth_eq] at word

/-- The bytes that a length announces. -/
theorem reads_counted {α : Type} {data : List UInt8} (short : data.length < 2 ^ 64)
    {f : List UInt8 → Stream α} {rest : List UInt8} {a : α} (next : Reads (f data) rest a) :
    Reads (BRVarInt >>= fun sLen => readBuffer sLen.toNat >>= f)
      (BRVarIntSet (UInt64.ofNat data.length) ++ (data ++ rest)) a := by
  refine reads_bind (reads_varInt _) (reads_bind ?_ next)
  intro behind
  rw [UInt64.toNat_ofNat_of_lt' short]
  exact readBuffer_ok.mpr ⟨rfl,rfl⟩

end Words

section Lengths
variable {α : Type} {f : α → List UInt8} {xs : List α} {tx : BRTransaction}

theorem length_flatMap_of_mem {x : α} (there : x ∈ xs) :
    (f x).length ≤ (xs.flatMap f).length := by
  obtain ⟨front,behind,rfl⟩ := List.append_of_mem there
  rw [List.flatMap_append, List.flatMap_cons, List.length_append, List.length_append]
  omega

theorem length_le_flatMap (each : ∀ x, 0 < (f x).length) :
    xs.length ≤ (xs.flatMap f).length := by
  induction xs with
  | nil => exact Nat.zero_le _
  | cons x xs ih =>
    have first := each x
    rw [List.length_cons, List.flatMap_cons, List.length_append]
    omega

theorem serialize_some (tx : BRTransaction) : 0 < (BRTransactionSerialize tx).length := by
  rw [BRTransactionSerialize, List.length_append, appendUInt32, orderBytes_length, toBytes_length]
  omega

/-- What counts and lengths announce is part of what is written. -/
structure Sized (bound : Nat) (tx : BRTransaction) : Prop where
  inputs : tx.inputs.length < bound
  outputs : tx.outputs.length < bound
  signatures : ∀ input ∈ tx.inputs, ((serializedInput input).signature.getD []).length < bound
  scripts : ∀ output ∈ tx.outputs, output.script.length < bound

theorem serialize_sized {bound : Nat} (short : (BRTransactionSerialize tx).length < bound) :
    Sized bound tx := by
  simp only [BRTransactionSerialize, List.length_append] at short
  have inputs : tx.inputs.length ≤
      (tx.inputs.flatMap fun input => txInputData (serializedInput input)).length := by
    refine length_le_flatMap fun input => ?_
    rw [txInputData, List.length_append, toBytes_length]
    omega
  have outputs : tx.outputs.length ≤ (tx.outputs.flatMap txOutputData).length := by
    refine length_le_flatMap fun output => ?_
    rw [txOutputData, List.length_append, appendUInt64, orderBytes_length, toBytes_length]
    omega
  refine ⟨by omega,by omega,fun input there => ?_,fun output there => ?_⟩
  · have part := length_flatMap_of_mem (f := fun input => txInputData (serializedInput input)) there
    have inside : ((serializedInput input).signature.getD []).length ≤
        (txInputData (serializedInput input)).length := by
      simp only [txInputData, List.length_append]
      omega
    omega
  · have part := length_flatMap_of_mem (f := txOutputData) there
    have inside : output.script.length ≤ (txOutputData output).length := by
      simp only [txOutputData, List.length_append]
      omega
    omega

end Lengths

section RoundTrip
variable {core : Core} {tx : BRTransaction}

theorem reads_input {input : BRTxInput} {signature : List UInt8}
    (signed : input.signature = some signature) (other : core.isAddress signature = false)
    (short : signature.length < 2 ^ 64) :
    Reads (parseInput core) (txInputData (serializedInput input)) (withoutScript input, true) := by
  have sequence := reads_uint32 input.sequence .LittleEndian
  have whole : withoutScript input =
      { txHash := input.txHash,
        index := input.index,
        amount := 0,
        script := [],
        signature := some signature,
        sequence := input.sequence } := by
    rw [withoutScript, signed]
  rw [serializedInput, signed, whole]
  refine reads_bind (reads_uint256 input.txHash)
    (reads_bind (reads_uint32 input.index .LittleEndian) (reads_counted short ?_))
  dsimp only
  rw [other, if_neg (by decide)]
  exact reads_last sequence (reads_pure _)

theorem reads_output {output : BRTxOutput} (short : output.script.length < 2 ^ 64) :
    Reads parseOutput (txOutputData output) output := by
  refine reads_bind (reads_uint64 output.amount .LittleEndian) ?_
  let made (script : List UInt8) : Stream BRTxOutput := pure { amount := output.amount, script }
  have counted := reads_counted (f := made) short (reads_pure output)
  rwa [List.append_nil] at counted

/-- The fields of a transaction that is signed are parsed as they were serialized. -/
theorem reads_fields (signed : Signed core tx) (sized : Sized (2 ^ 64) tx) :
    Reads (parseFields core) (BRTransactionSerialize tx)
      ({ tx with
          txHash := 0,
          inputs := tx.inputs.map withoutScript,
          blockHeight := TX_UNCONFIRMED,
          timestamp := 0 }, true) := by
  have inputs : Reads (readMany (parseInput core) tx.inputs.length)
      (tx.inputs.flatMap fun input => txInputData (serializedInput input))
      (tx.inputs.map fun input => (withoutScript input, true)) := by
    refine reads_many _ _ tx.inputs fun input there => ?_
    obtain ⟨signature,same,other⟩ := signed.signed input there
    have short := sized.signatures input there
    rw [serializedInput, same] at short
    exact reads_input same other short
  have outputs := reads_many txOutputData id tx.outputs
    fun output there => reads_output (sized.scripts output there)
  rw [List.map_id] at outputs
  refine reads_bind (reads_uint32 tx.version .LittleEndian) (reads_bind (reads_varInt _) ?_)
  rw [UInt64.toNat_ofNat_of_lt' sized.inputs]
  refine reads_bind inputs (reads_bind (reads_varInt _) ?_)
  rw [UInt64.toNat_ofNat_of_lt' sized.outputs]
  refine reads_bind outputs (reads_last (reads_uint32 tx.lockTime .LittleEndian) ?_)
  have all_signed :
      (tx.inputs.map fun input => (withoutScript input, true)).all Prod.snd = true := by
    rw [List.all_map]
    exact List.all_eq_true.mpr fun _ _ => rfl
  rw [all_signed, List.map_map]
  exact reads_pure _

/-- A transaction that is signed is parsed from what it was serialized to, without the scripts and
    the amounts of its inputs, and as one that is not confirmed. -/
theorem parse_serialize (signed : Signed core tx)
    (short : (BRTransactionSerialize tx).length < 2 ^ 64) :
    BRTransactionParse core (BRTransactionSerialize tx) =
      some { tx with
        txHash := core.BRSHA256_2 (BRTransactionSerialize tx),
        inputs := tx.inputs.map withoutScript,
        blockHeight := TX_UNCONFIRMED,
        timestamp := 0 } := by
  have fields := reads_fields signed (serialize_sized short) []
  rw [List.append_nil] at fields
  have some_input : tx.inputs.map withoutScript ≠ [] := by
    rw [ne_eq, List.map_eq_nil_iff]
    exact signed.has_input
  rw [BRTransactionParse, fields]
  dsimp only
  rw [if_neg some_input, if_pos rfl, List.length_nil, Nat.sub_zero, List.take_length]

end RoundTrip

end BRTransactions
