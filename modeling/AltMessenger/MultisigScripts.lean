import AltMessenger.InputScripts
import AltMessenger.OutputScripts

/-!
The scripts of several signatures: the input script, which shows signatures and a redeem script,
and the redeem script, with its keys between two counts. A length is read as an operation where
the decoder of the input script expects one, and the decoder of the redeem script goes by the
count that stands in front of the keys.
-/
namespace MultisigScripts
open ByteReader SwiftRuntime BitcoinStream BitcoinScript OutputScripts InputScripts

/-- `appendUInt8(UInt8(data.length))` and `appendNSData(data)` -/
def appendPush (data : List UInt8) : Except Trap (List UInt8) := do
  let length ← uint8 data.length
  pure (length :: data)

/-- One push after another. -/
def appendPushes : List (List UInt8) → Except Trap (List UInt8)
  | [] => pure []
  | data :: rest => do
    let bytes ← appendPush data
    let more ← appendPushes rest
    pure (bytes ++ more)

section Inputs

structure P2SH_InputScriptSig where
  derSignatures : List (List UInt8)
  redeemScriptData : List UInt8
  deriving DecidableEq

def P2SH_InputScriptSig.bitcoinData (script : P2SH_InputScriptSig) :
    Except Trap (List UInt8) := do
  let signatures ← appendPushes script.derSignatures
  let redeemScript ← appendPush script.redeemScriptData
  pure (OPCode.OP_0.rawValue :: signatures ++ OPCode.OP_PUSHDATA1.rawValue :: redeemScript)

/-- `while true`, for at most this many turns; each takes a byte off the stream. -/
def readSignatures : Nat → Stream (List (List UInt8))
  | 0 => fail
  | turns + 1 => do
    let opcode ← readOPCode
    if opcode = .OP_PUSHDATA1 then pure []
    else do
      let derSignature ← readData opcode.rawValue.toNat
      let derSignatures ← readSignatures turns
      pure (derSignature :: derSignatures)

def P2SH_InputScriptSig.fromBitcoinStream : Stream P2SH_InputScriptSig := fun bs => (do
  expectOPCode .OP_0
  let derSignatures ← readSignatures bs.length
  let redeemScriptLength ← readUInt8
  let redeemScriptData ← readData redeemScriptLength.toNat
  pure { derSignatures, redeemScriptData } : Stream P2SH_InputScriptSig) bs

end Inputs

section Redeem

/-- `OP_N_to_UInt8()` -/
def OP_N_to_UInt8 (code : OPCode) : Except Trap UInt8 :=
  if 0x51 ≤ code.rawValue ∧ code.rawValue ≤ 0x60 then .ok (code.rawValue - 0x50)
  else .error .assertion

/-- `toOPCode()` -/
def toOPCode (n : UInt8) : Except Trap OPCode :=
  if 1 ≤ n ∧ n ≤ 16 then unwrap (OPCode.ofRaw (n + 0x50)) else .error .assertion

structure RedeemScript where
  publicKeys : List (List UInt8)
  OP_n : OPCode
  OP_M : OPCode
  deriving DecidableEq

def RedeemScript.bitcoinData (script : RedeemScript) : Except Trap (List UInt8) := do
  let publicKeys ← appendPushes script.publicKeys
  pure (script.OP_n.rawValue :: publicKeys ++
    [script.OP_M.rawValue, OPCode.OP_CHECKMULTISIG.rawValue])

/-- A turn of the loop over the keys. -/
def readPublicKey : Stream (List UInt8) := do
  let publicKeyLength ← readUInt8
  readData publicKeyLength.toNat

def RedeemScript.fromBitcoinStream : Stream RedeemScript := do
  let OP_n ← readOPCode
  let n ← lift (OP_N_to_UInt8 OP_n)
  let publicKeys ← readMany readPublicKey n.toNat
  let OP_M ← readOPCode
  expectOPCode .OP_CHECKMULTISIG
  pure { publicKeys, OP_n, OP_M }

/-- The script that asks for `n` signatures by these keys. -/
def redeemScript (n : Nat) (publicKeys : List (List UInt8)) : Except Trap RedeemScript := do
  let OP_n ← toOPCode (UInt8.ofNat n)
  let OP_M ← toOPCode (UInt8.ofNat publicKeys.length)
  pure { publicKeys, OP_n, OP_M }

end Redeem

section Turns

theorem readSignatures_dry (turns : Nat) : readSignatures turns [] = .fail := by
  cases turns <;> rfl

/-- As many turns as there are bytes are enough. -/
theorem readSignatures_enough {turns turns' : Nat} {bs : List UInt8} (enough : bs.length ≤ turns)
    (enough' : bs.length ≤ turns') : readSignatures turns bs = readSignatures turns' bs := by
  induction turns generalizing turns' bs with
  | zero =>
    rw [List.length_eq_zero_iff.mp (Nat.le_zero.mp enough), readSignatures_dry, readSignatures_dry]
  | succ turns ih =>
    cases bs with
    | nil => rw [readSignatures_dry, readSignatures_dry]
    | cons byte rest =>
      rw [List.length_cons] at enough enough'
      obtain ⟨turns',rfl⟩ : ∃ k, turns' = k + 1 := ⟨turns' - 1,by omega⟩
      rw [readSignatures, readSignatures]
      cases known : OPCode.ofRaw byte with
      | none =>
        rw [bind_fail (readOPCode_unknown known rest), bind_fail (readOPCode_unknown known rest)]
      | some code =>
        obtain rfl := ofRaw_iff.mp known
        rw [bind_ok (readOPCode_known code rest), bind_ok (readOPCode_known code rest)]
        split
        · rfl
        · cases read : readData code.rawValue.toNat rest with
          | trap e => rw [bind_trap read, bind_trap read]
          | fail => rw [bind_fail read, bind_fail read]
          | ok derSignature mid =>
            have taken := congrArg List.length (readData_ok read).1
            rw [List.length_append] at taken
            have later := @ih turns' mid (by omega) (by omega)
            rw [bind_ok read, bind_ok read]
            cases more : readSignatures turns mid with
            | trap e => rw [bind_trap more, bind_trap (later ▸ more)]
            | fail => rw [bind_fail more, bind_fail (later ▸ more)]
            | ok derSignatures last => rw [bind_ok more, bind_ok (later ▸ more)]

end Turns

section Pushes
variable {data : List UInt8} {list : List (List UInt8)}

theorem appendPush_short (short : data.length < 256) : appendPush data = .ok (push data) := by
  have length : uint8 data.length = .ok (UInt8.ofNat data.length) := if_pos short
  rw [appendPush, bind_ready length]
  rfl

theorem appendPushes_short (short : ∀ data ∈ list, data.length < 256) :
    appendPushes list = .ok (list.flatMap push) := by
  induction list with
  | nil => rfl
  | cons data list ih =>
    have later := ih fun other mem => short other (List.mem_cons_of_mem data mem)
    rw [appendPushes, bind_ready (appendPush_short (short data (by simp))), bind_ready later]
    rfl

end Pushes

theorem script_written {script : P2SH_InputScriptSig}
    (signatures : ∀ data ∈ script.derSignatures, data.length < 256)
    (redeem : script.redeemScriptData.length < 256) : script.bitcoinData =
      .ok (0x00 :: script.derSignatures.flatMap push ++ 0x4c :: push script.redeemScriptData) := by
  rw [P2SH_InputScriptSig.bitcoinData, bind_ready (appendPushes_short signatures),
    bind_ready (appendPush_short redeem)]
  rfl

theorem reads_push {data : List UInt8} (some : data ≠ []) (short : data.length < 256) :
    Reads readPublicKey (push data) data := by
  have bytes := reads_data data some
  rw [← UInt8.toNat_ofNat_of_lt' short] at bytes
  exact reads_bind (reads_uint8 (UInt8.ofNat data.length)) bytes

/-- A redeem script that no signature stands in front of is read back. -/
theorem unsigned_read_back {script : P2SH_InputScriptSig} (unsigned : script.derSignatures = [])
    (some : script.redeemScriptData ≠ []) (short : script.redeemScriptData.length < 256) :
    ∃ bytes, script.bitcoinData = .ok bytes ∧
      ∀ rest, P2SH_InputScriptSig.fromBitcoinStream (bytes ++ rest) = .ok script rest := by
  obtain ⟨signatures,redeem⟩ := script
  obtain rfl : signatures = [] := unsigned
  have written := @script_written ⟨[],redeem⟩ (by simp) short
  refine ⟨_,written,?_⟩
  intro rest
  have opened := (demands_opcode .OP_0).reads
  have none : ∀ turns tail, readSignatures (turns + 1) (0x4c :: tail) = .ok [] tail := by
    intro turns tail
    have marker : readOPCode (0x4c :: tail) = .ok .OP_PUSHDATA1 tail :=
      readOPCode_known .OP_PUSHDATA1 tail
    rw [readSignatures, bind_ok marker, if_pos rfl]
    rfl
  have shown := reads_push some short rest
  rw [readPublicKey] at shown
  obtain ⟨length,mid,first,second⟩ := bind_eq_ok.mp shown
  rw [P2SH_InputScriptSig.fromBitcoinStream]
  refine (bind_ok (opened _)).trans ((bind_ok (none _ _)).trans ?_)
  exact (bind_ok first).trans (bind_ok second)

/-- What is decoded of the script's own bytes is the script. -/
def RoundTrips (script : P2SH_InputScriptSig) : Prop :=
  ∃ bytes, script.bitcoinData = .ok bytes ∧
    P2SH_InputScriptSig.fromBitcoinStream bytes = .ok script []

theorem length_unknown : ∀ length < 76, 1 ≤ length →
    OPCode.ofRaw (UInt8.ofNat length) = none := by decide

/-- The length of the first signature is no operation, and the decoder stops there. -/
theorem signatures_refused {script : P2SH_InputScriptSig} (some : script.derSignatures ≠ [])
    (each : ∀ signature ∈ script.derSignatures, 1 ≤ signature.length ∧ signature.length ≤ 75)
    (short : script.redeemScriptData.length ≤ 255) :
    ∃ bytes, script.bitcoinData = .ok bytes ∧
      ∀ rest, P2SH_InputScriptSig.fromBitcoinStream (bytes ++ rest) = .fail := by
  obtain ⟨signatures,redeem⟩ := script
  obtain ⟨signature,more,rfl⟩ := List.exists_cons_of_ne_nil some
  have within : ∀ data ∈ signature :: more, data.length < 256 := by
    intro data mem
    have bounds := each data mem
    omega
  have written := @script_written ⟨signature :: more,redeem⟩ within (Nat.lt_succ_of_le short)
  refine ⟨_,written,?_⟩
  intro rest
  obtain ⟨positive,few⟩ := each signature (by simp)
  have unknown := length_unknown signature.length (by omega) positive
  have opened := (demands_opcode .OP_0).reads
  have refused : ∀ turns tail,
      readSignatures turns (UInt8.ofNat signature.length :: tail) = .fail := by
    intro turns tail
    cases turns with
    | zero => rfl
    | succ turns => exact bind_fail (readOPCode_unknown unknown tail)
  rw [P2SH_InputScriptSig.fromBitcoinStream]
  exact (bind_ok (opened _)).trans (bind_fail (refused _ _))

theorem signatures_never_read_back {script : P2SH_InputScriptSig} (some : script.derSignatures ≠ [])
    (each : ∀ signature ∈ script.derSignatures, 1 ≤ signature.length ∧ signature.length ≤ 75)
    (short : script.redeemScriptData.length ≤ 255) : ¬ RoundTrips script := by
  rintro ⟨bytes,written,decoded⟩
  obtain ⟨bytes',written',refused⟩ := signatures_refused some each short
  cases written.symm.trans written'
  have stops := refused []
  rw [List.append_nil, decoded] at stops
  cases stops

theorem one_signature_lost : ¬ RoundTrips ⟨[[0x30]],[0x51]⟩ :=
  signatures_never_read_back (by simp) (by simp) (by simp)

/-- A signature of one byte, and the decoder takes its length for an unknown operation. -/
theorem length_is_no_operation :
    P2SH_InputScriptSig.bitcoinData ⟨[[0x30]],[0x51]⟩ =
        .ok [0x00,0x01,0x30,0x4c,0x01,0x51] ∧
      P2SH_InputScriptSig.fromBitcoinStream [0x00,0x01,0x30,0x4c,0x01,0x51] = .fail := by
  decide

section Counts
variable {n : Nat} {publicKeys : List (List UInt8)}

/-- Public keys, each in one of its two spellings, and how many of them have to sign. -/
structure Multisig (n : Nat) (publicKeys : List (List UInt8)) : Prop where
  widths : ∀ publicKey ∈ publicKeys, publicKey.length = 33 ∨ publicKey.length = 65
  positive : 1 ≤ n
  enough : n ≤ publicKeys.length
  few : publicKeys.length ≤ 16

/-- The count and the keys are decoded again, and nothing of what follows is touched. -/
def ReadBack (n : Nat) (publicKeys : List (List UInt8)) (rest : List UInt8) : Prop :=
  ∃ script bytes decoded, redeemScript n publicKeys = .ok script ∧
    script.bitcoinData = .ok bytes ∧
      RedeemScript.fromBitcoinStream (bytes ++ rest) = .ok decoded rest ∧
        OP_N_to_UInt8 decoded.OP_n = .ok (UInt8.ofNat n) ∧ decoded.publicKeys = publicKeys

theorem counts_undone : ∀ n < 17, 1 ≤ n →
    (toOPCode (UInt8.ofNat n) >>= OP_N_to_UInt8) = .ok (UInt8.ofNat n) := by decide

theorem counted (positive : 1 ≤ n) (few : n ≤ 16) :
    ∃ code, toOPCode (UInt8.ofNat n) = .ok code ∧ OP_N_to_UInt8 code = .ok (UInt8.ofNat n) := by
  have undone := counts_undone n (Nat.lt_succ_of_le few) positive
  cases code : toOPCode (UInt8.ofNat n) with
  | error e => rw [code] at undone; cases undone
  | ok code' => rw [code] at undone; exact ⟨code',rfl,undone⟩

/-- What the decoder reads behind the keys it counted. -/
def closing (OP_n : OPCode) (publicKeys : List (List UInt8)) : Stream RedeemScript := do
  let OP_M ← readOPCode
  expectOPCode .OP_CHECKMULTISIG
  pure { publicKeys, OP_n, OP_M }

theorem Multisig.bounds (made : Multisig n publicKeys) {publicKey : List UInt8}
    (mem : publicKey ∈ publicKeys) : publicKey ≠ [] ∧ publicKey.length < 256 := by
  have width := made.widths publicKey mem
  refine ⟨?_,by omega⟩
  rintro rfl
  simp at width

theorem redeem_written (made : Multisig n publicKeys) :
    ∃ OP_n OP_M, redeemScript n publicKeys = .ok ⟨publicKeys,OP_n,OP_M⟩ ∧
      OP_N_to_UInt8 OP_n = .ok (UInt8.ofNat n) ∧
        RedeemScript.bitcoinData ⟨publicKeys,OP_n,OP_M⟩ =
          .ok (OP_n.rawValue :: publicKeys.flatMap push ++ [OP_M.rawValue,0xae]) := by
  obtain ⟨OP_n,asked,undone⟩ := counted made.positive (Nat.le_trans made.enough made.few)
  obtain ⟨OP_M,shown,-⟩ := counted (Nat.le_trans made.positive made.enough) made.few
  have pushes := appendPushes_short fun publicKey mem => (made.bounds mem).2
  refine ⟨OP_n,OP_M,?_,undone,?_⟩
  · rw [redeemScript, bind_ready asked, bind_ready shown]
    rfl
  · rw [RedeemScript.bitcoinData, bind_ready pushes]
    rfl

/-- The loop takes as many keys as have to sign, and the decoder goes on at the next one. -/
theorem keys_read (made : Multisig n publicKeys) {OP_n : OPCode}
    (undone : OP_N_to_UInt8 OP_n = .ok (UInt8.ofNat n)) (tail : List UInt8) :
    RedeemScript.fromBitcoinStream (OP_n.rawValue :: (publicKeys.flatMap push ++ tail)) =
      closing OP_n (publicKeys.take n) ((publicKeys.drop n).flatMap push ++ tail) := by
  have count : (UInt8.ofNat n).toNat = n :=
    UInt8.toNat_ofNat_of_lt' (Nat.lt_of_le_of_lt (Nat.le_trans made.enough made.few) (by decide))
  have each : ∀ publicKey ∈ publicKeys.take n, Reads readPublicKey (push publicKey) publicKey := by
    intro publicKey mem
    have bounds := made.bounds (List.mem_of_mem_take mem)
    exact reads_push bounds.1 bounds.2
  have loop := reads_many push id (publicKeys.take n) each
  rw [List.map_id, List.length_take_of_le made.enough] at loop
  have lifted : lift (OP_N_to_UInt8 OP_n) (publicKeys.flatMap push ++ tail) =
      .ok (UInt8.ofNat n) (publicKeys.flatMap push ++ tail) := by
    rw [undone]
    rfl
  rw [RedeemScript.fromBitcoinStream, bind_ok (readOPCode_known OP_n _), bind_ok lifted, count]
  conv_lhs => rw [← List.take_append_drop n publicKeys, List.flatMap_append, List.append_assoc]
  rw [bind_ok (loop _)]
  rfl

theorem width_unknown {publicKey : List UInt8}
    (width : publicKey.length = 33 ∨ publicKey.length = 65) :
    OPCode.ofRaw (UInt8.ofNat publicKey.length) = none := by
  rcases width with width | width <;> rw [width] <;> rfl

/-- Behind the first `n` keys an operation is expected: a script with more keys is refused. -/
theorem redeem_read_back_iff (made : Multisig n publicKeys) (rest : List UInt8) :
    ReadBack n publicKeys rest ↔ n = publicKeys.length := by
  obtain ⟨OP_n,OP_M,script,undone,written⟩ := redeem_written made
  have read := keys_read made undone ([OP_M.rawValue,0xae] ++ rest)
  constructor
  · rintro ⟨script',bytes,decoded,script_eq,bytes_eq,run,-,-⟩
    cases script.symm.trans script_eq
    cases written.symm.trans bytes_eq
    by_contra other
    have more : n < publicKeys.length := Nat.lt_of_le_of_ne made.enough other
    rw [List.cons_append, List.cons_append, List.append_assoc, read,
      List.drop_eq_getElem_cons more, List.flatMap_cons, List.append_assoc] at run
    have unknown := width_unknown (made.widths publicKeys[n] (List.getElem_mem more))
    have refused : closing OP_n (publicKeys.take n) (push publicKeys[n] ++
        ((publicKeys.drop (n + 1)).flatMap push ++ ([OP_M.rawValue,0xae] ++ rest))) = .fail :=
      bind_fail (readOPCode_unknown unknown _)
    cases refused.symm.trans run
  · intro all
    refine ⟨_,_,⟨publicKeys,OP_n,OP_M⟩,script,written,?_,undone,rfl⟩
    have last := (demands_opcode .OP_CHECKMULTISIG).reads rest
    rw [List.cons_append, List.cons_append, List.append_assoc, read, List.drop_of_length_le all.ge,
      List.take_of_length_le all.ge, closing]
    exact (bind_ok (readOPCode_known OP_M _)).trans (bind_ok last)

/-- A public key in its short spelling. -/
def shortKey : List UInt8 := 0x02 :: List.replicate 32 0x01

theorem two_of_two : Multisig 2 [shortKey,shortKey] := by
  constructor <;> simp [shortKey]

theorem two_of_two_read_back : ReadBack 2 [shortKey,shortKey] [0xff] :=
  (redeem_read_back_iff two_of_two [0xff]).mpr rfl

/-- One of two: behind the first key the decoder takes the length of the second for an operation. -/
theorem one_of_two_refused :
    Multisig 1 [shortKey,shortKey] ∧ ¬ ReadBack 1 [shortKey,shortKey] [] := by
  refine ⟨⟨two_of_two.widths,by decide,by decide,by decide⟩,?_⟩
  rintro ⟨script,bytes,decoded,made,written,run,-⟩
  have whole : redeemScript 1 [shortKey,shortKey] =
      .ok ⟨[shortKey,shortKey],.OP_1,.OP_2⟩ := rfl
  cases whole.symm.trans made
  have spelled : RedeemScript.bitcoinData ⟨[shortKey,shortKey],.OP_1,.OP_2⟩ =
      .ok (0x51 :: (0x21 :: shortKey ++ (0x21 :: shortKey)) ++ [0x52,0xae]) := rfl
  cases spelled.symm.trans written
  have refused : RedeemScript.fromBitcoinStream
      (0x51 :: (0x21 :: shortKey ++ (0x21 :: shortKey)) ++ [0x52,0xae] ++ []) = .fail := by
    decide
  cases refused.symm.trans run

end Counts

end MultisigScripts
