import AltMessenger.BitcoinScript
import AltMessenger.DataReads
import AltMessenger.ReaderFaults

/-!
The two output scripts, and what else their recogniser takes for one of them: it does not look
behind the script, and a script that ends where its hash is due stops the program.
-/
namespace OutputScripts
open ByteReader SwiftRuntime BitcoinStream BitcoinHash BitcoinScript DataReads ReaderFaults

theorem ofRaw_iff {raw : UInt8} {code : OPCode} :
    OPCode.ofRaw raw = some code ↔ raw = code.rawValue := by
  constructor
  · intro found
    have same := List.find?_some found
    exact (beq_iff_eq.mp same).symm
  · rintro rfl
    cases code <;> rfl

theorem readOPCode_known (code : OPCode) (rest : List UInt8) :
    readOPCode (code.rawValue :: rest) = .ok code rest := by
  rw [readOPCode, bind_ok (readUInt8_cons code.rawValue rest), ofRaw_iff.mpr rfl]
  rfl

/-- A byte that is no operation is refused, also where it is a length. -/
theorem readOPCode_unknown {byte : UInt8} (unknown : OPCode.ofRaw byte = none)
    (rest : List UInt8) : readOPCode (byte :: rest) = .fail := by
  rw [readOPCode, bind_ok (readUInt8_cons byte rest), unknown]
  rfl

theorem demands_opcode (code : OPCode) : Demands (expectOPCode code) [code.rawValue] := by
  intro bs
  cases bs with
  | nil => exact Or.inr ⟨by simp,rfl⟩
  | cons byte rest =>
    cases known : OPCode.ofRaw byte with
    | none =>
      refine Or.inr ⟨?_,bind_fail (readOPCode_unknown known rest)⟩
      intro rest' same
      rw [(List.cons.inj same).1, ofRaw_iff.mpr rfl] at known
      cases known
    | some other =>
      obtain rfl := ofRaw_iff.mp known
      have read := readOPCode_known other rest
      by_cases same : other = code
      · subst same
        refine Or.inl ⟨rest,rfl,?_⟩
        rw [expectOPCode, bind_ok read, if_pos rfl]
        rfl
      · refine Or.inr ⟨?_,?_⟩
        · intro rest' equal
          have first := ofRaw_iff.mpr (List.cons.inj equal).1
          exact same (Option.some.inj (known.symm.trans first))
        · rw [expectOPCode, bind_ok read, if_neg same]
          rfl

theorem demands_uint8 (byte : UInt8) : Demands (expectUInt8 byte) [byte] := by
  intro bs
  cases bs with
  | nil => exact Or.inr ⟨by simp,rfl⟩
  | cons first rest =>
    by_cases same : first = byte
    · subst same
      refine Or.inl ⟨rest,rfl,?_⟩
      rw [expectUInt8, bind_ok (readUInt8_cons first rest), if_pos rfl]
      rfl
    · refine Or.inr ⟨by simp [same],?_⟩
      rw [expectUInt8, bind_ok (readUInt8_cons first rest), if_neg same]
      rfl

section Templates
variable {α : Type} {opening closing : Stream Unit} {front back : List UInt8}

/-- A script around a hash. -/
def around (opening closing : Stream Unit) (make : RIPEMD160HASH → α) : Stream α := do
  opening
  let hash160 ← HashOf.fromBitcoinStream 20
  closing
  pure (make hash160)

/-- It is recognised with anything behind it, faults where it ends before the hash, and is refused
    otherwise. -/
theorem around_cases (opens : Demands opening front) (closes : Demands closing back)
    (make : RIPEMD160HASH → α) (data : List UInt8) :
    (∃ hash extra, data = front ++ (hash.bitcoinData ++ back) ++ extra ∧
        around opening closing make data = .ok (make hash) extra) ∨
      (data = front ∧ around opening closing make data = .trap .assertion) ∨
      data ≠ front ∧ (∀ hash : RIPEMD160HASH, ∀ extra,
          data ≠ front ++ (hash.bitcoinData ++ back) ++ extra) ∧
        around opening closing make data = .fail := by
  rcases opens data with ⟨tail,rfl,opened⟩ | ⟨other,stop⟩
  · rcases @hash_read 20 (by decide) (by decide) tail with
      ⟨hash,behind,rfl,read⟩ | ⟨short,read⟩
    · have run : around opening closing make (front ++ (hash.bitcoinData ++ behind)) =
          (do closing; pure (make hash)) behind := by
        rw [around, bind_ok opened, bind_ok read]
      rcases closes behind with ⟨extra,rfl,closed⟩ | ⟨other,stop⟩
      · refine Or.inl ⟨hash,extra,by simp,?_⟩
        rw [run, bind_ok closed]
        rfl
      · refine Or.inr (Or.inr ⟨?_,?_,by rw [run, bind_fail stop]⟩)
        · intro same
          have lengths := congrArg List.length same
          simp at lengths
        · intro hash' extra same
          rw [List.append_assoc, List.append_assoc] at same
          have parts := List.append_inj (List.append_cancel_left same) (by simp)
          exact other extra parts.2
    · by_cases dry : tail = []
      · rw [if_pos dry] at read
        refine Or.inr (Or.inl ⟨by rw [dry, List.append_nil],?_⟩)
        rw [around, bind_ok opened, bind_trap read]
      · rw [if_neg dry] at read
        refine Or.inr (Or.inr ⟨by simpa using dry,?_,?_⟩)
        · intro hash extra same
          rw [List.append_assoc] at same
          rw [List.append_cancel_left same] at short
          simp only [List.length_append, bitcoinData_length] at short
          omega
        · rw [around, bind_ok opened, bind_fail read]
  · refine Or.inr (Or.inr ⟨?_,?_,bind_fail stop⟩)
    · intro same
      exact other [] (by rw [same, List.append_nil])
    · intro hash extra same
      exact other _ (by rw [same, List.append_assoc])

end Templates

/-- `76 a9 14 h 88 ac` -/
def keyHashBytes (hash : RIPEMD160HASH) : List UInt8 :=
  [0x76,0xa9,0x14] ++ (hash.bitcoinData ++ [0x88,0xac])

/-- `a9 14 h 87` -/
def scriptHashBytes (hash : RIPEMD160HASH) : List UInt8 :=
  [0xa9,0x14] ++ (hash.bitcoinData ++ [0x87])

/-- The script written back. -/
def bitcoinData : OutputScript → List UInt8
  | .P2PKH script => script.bitcoinData
  | .P2SH script => script.bitcoinData

theorem keyHash_written (script : P2PKH_OutputScript) :
    script.bitcoinData = keyHashBytes script.hash160 := by
  simp [P2PKH_OutputScript.bitcoinData, keyHashBytes, OPCode.rawValue]

theorem scriptHash_written (script : P2SH_OutputScript) :
    script.bitcoinData = scriptHashBytes script.hash160 := by
  simp [P2SH_OutputScript.bitcoinData, scriptHashBytes, OPCode.rawValue]

theorem keyHash_around : P2PKH_OutputScript.fromBitcoinStream = around
    (do expectOPCode .OP_DUP; expectOPCode .OP_HASH160; expectUInt8 0x14)
    (do expectOPCode .OP_EQUALVERIFY; expectOPCode .OP_CHECKSIG) P2PKH_OutputScript.mk := by
  simp only [P2PKH_OutputScript.fromBitcoinStream, around, ← bind_bind]

theorem scriptHash_around : P2SH_OutputScript.fromBitcoinStream = around
    (do expectOPCode .OP_HASH160; expectUInt8 0x14) (expectOPCode .OP_EQUAL)
    P2SH_OutputScript.mk := by
  simp only [P2SH_OutputScript.fromBitcoinStream, around, ← bind_bind]

theorem demands_keyHash : Demands
    (do expectOPCode .OP_DUP; expectOPCode .OP_HASH160; expectUInt8 0x14 : Stream Unit)
    [0x76,0xa9,0x14] :=
  demands_bind (demands_opcode .OP_DUP)
    (demands_bind (demands_opcode .OP_HASH160) (demands_uint8 0x14))

theorem demands_checked : Demands
    (do expectOPCode .OP_EQUALVERIFY; expectOPCode .OP_CHECKSIG : Stream Unit) [0x88,0xac] :=
  demands_bind (demands_opcode .OP_EQUALVERIFY) (demands_opcode .OP_CHECKSIG)

theorem demands_scriptHash : Demands
    (do expectOPCode .OP_HASH160; expectUInt8 0x14 : Stream Unit) [0xa9,0x14] :=
  demands_bind (demands_opcode .OP_HASH160) (demands_uint8 0x14)

section Recogniser
variable {data extra : List UInt8} {script : OutputScript}

/-- Everything the recogniser can come to. -/
theorem ofData_cases (data : List UInt8) :
    (∃ script extra, data = bitcoinData script ++ extra ∧
        OutputScript.ofData data = .ok (some script)) ∨
      ((data = [0x76,0xa9,0x14] ∨ data = [0xa9,0x14]) ∧
        OutputScript.ofData data = .error .assertion) ∨
      ¬ (data = [0x76,0xa9,0x14] ∨ data = [0xa9,0x14]) ∧
        (∀ script extra, data ≠ bitcoinData script ++ extra) ∧
        OutputScript.ofData data = .ok none := by
  rw [OutputScript.ofData, readOnce, readOnce, keyHash_around, scriptHash_around]
  rcases around_cases demands_keyHash demands_checked P2PKH_OutputScript.mk data with
    ⟨hash,extra,same,run⟩ | ⟨same,run⟩ | ⟨other,unlike,run⟩
  · exact Or.inl ⟨.P2PKH ⟨hash⟩,extra,by rw [same, bitcoinData, keyHash_written]; rfl,by
      rw [run]; rfl⟩
  · exact Or.inr (Or.inl ⟨Or.inl same,by rw [run]; rfl⟩)
  rw [run]
  -- no key hash: the same bytes are read once more
  rcases around_cases demands_scriptHash (demands_opcode .OP_EQUAL) P2SH_OutputScript.mk data with
    ⟨hash,extra,same,again⟩ | ⟨same,again⟩ | ⟨other',unlike',again⟩
  · exact Or.inl ⟨.P2SH ⟨hash⟩,extra,by rw [same, bitcoinData, scriptHash_written]; rfl,by
      rw [again]; rfl⟩
  · exact Or.inr (Or.inl ⟨Or.inr same,by rw [again]; rfl⟩)
  · refine Or.inr (Or.inr ⟨not_or.mpr ⟨other,other'⟩,?_,by rw [again]; rfl⟩)
    intro script extra
    cases script with
    | P2PKH script =>
      rw [bitcoinData, keyHash_written]
      exact unlike script.hash160 extra
    | P2SH script =>
      rw [bitcoinData, scriptHash_written]
      exact unlike' script.hash160 extra

theorem around_injective {front back extra extra' : List UInt8} {hash hash' : RIPEMD160HASH}
    (same : front ++ (hash.bitcoinData ++ back) ++ extra =
      front ++ (hash'.bitcoinData ++ back) ++ extra') : hash = hash' ∧ extra = extra' := by
  simp only [List.append_assoc] at same
  obtain ⟨bytes,behind⟩ := List.append_inj (List.append_cancel_left same) (by simp)
  obtain ⟨data,length⟩ := hash
  obtain ⟨data',length'⟩ := hash'
  cases List.reverse_injective bytes
  exact ⟨rfl,List.append_cancel_left behind⟩

/-- Bytes start with one script at most. -/
theorem bitcoinData_injective {script' : OutputScript} {extra' : List UInt8}
    (same : bitcoinData script ++ extra = bitcoinData script' ++ extra') :
    script = script' ∧ extra = extra' := by
  cases script with
  | P2PKH script =>
    cases script' with
    | P2PKH script' =>
      rw [bitcoinData, bitcoinData, keyHash_written, keyHash_written] at same
      obtain ⟨hashes,behind⟩ := around_injective same
      exact ⟨congrArg (fun hash => OutputScript.P2PKH ⟨hash⟩) hashes,behind⟩
    | P2SH script' =>
      have first : (0x76 : UInt8) = 0xa9 := List.head_eq_of_cons_eq same
      exact absurd first (by decide)
  | P2SH script =>
    cases script' with
    | P2PKH script' =>
      have first : (0xa9 : UInt8) = 0x76 := List.head_eq_of_cons_eq same
      exact absurd first (by decide)
    | P2SH script' =>
      rw [bitcoinData, bitcoinData, scriptHash_written, scriptHash_written] at same
      obtain ⟨hashes,behind⟩ := around_injective same
      exact ⟨congrArg (fun hash => OutputScript.P2SH ⟨hash⟩) hashes,behind⟩

theorem bitcoinData_long (script : OutputScript) : 3 < (bitcoinData script).length := by
  cases script with
  | P2PKH script =>
    rw [bitcoinData, keyHash_written]
    simp [keyHashBytes]
  | P2SH script =>
    rw [bitcoinData, scriptHash_written]
    simp [scriptHashBytes]

end Recogniser

/-- Exactly the two forms are recognised, with their hashes, and no bytes stop the program. -/
structure Recognised (data : List UInt8) : Prop where
  keyHash : ∀ hash, OutputScript.ofData data = .ok (some (.P2PKH ⟨hash⟩)) ↔
    data = keyHashBytes hash
  scriptHash : ∀ hash, OutputScript.ofData data = .ok (some (.P2SH ⟨hash⟩)) ↔
    data = scriptHashBytes hash
  returns : ∃ script, OutputScript.ofData data = .ok script
  again : ∀ script, OutputScript.ofData data = .ok (some script) → bitcoinData script = data

/-- Not cut off where the hash is due, and with nothing behind a script. -/
def Clean (data : List UInt8) : Prop :=
  ¬ (data = [0x76,0xa9,0x14] ∨ data = [0xa9,0x14]) ∧
    ∀ script extra, data = bitcoinData script ++ extra → extra = []

section Exact
variable {data : List UInt8}

theorem recognised_of {found : Option OutputScript} (run : OutputScript.ofData data = .ok found)
    (exact_script : ∀ script, found = some script ↔ data = bitcoinData script) :
    Recognised data := by
  have each : ∀ script, OutputScript.ofData data = .ok (some script) ↔
      data = bitcoinData script := by
    intro script
    rw [run, Except.ok.injEq]
    exact exact_script script
  constructor
  · intro hash
    rw [each, bitcoinData, keyHash_written]
  · intro hash
    rw [each, bitcoinData, scriptHash_written]
  · exact ⟨found,run⟩
  · intro script given
    exact ((each script).mp given).symm

end Exact

theorem recognised_iff (data : List UInt8) : Recognised data ↔ Clean data := by
  rcases ofData_cases data with ⟨script,extra,rfl,run⟩ | ⟨cut,run⟩ | ⟨whole,unlike,run⟩
  · have alone : Clean (bitcoinData script ++ extra) ↔ extra = [] := by
      constructor
      · intro clean
        exact clean.2 script extra rfl
      · intro none
        refine ⟨?_,?_⟩
        · have long := bitcoinData_long script
          rintro (same | same)
          · have lengths := congrArg List.length same
            simp at lengths
            omega
          · have lengths := congrArg List.length same
            simp at lengths
            omega
        · intro script' extra' same
          rw [← (bitcoinData_injective same).2, none]
    rw [alone]
    constructor
    · intro recognised
      have same := recognised.again script run
      exact List.append_cancel_left (same.symm.trans (List.append_nil _).symm)
    · rintro rfl
      refine recognised_of run ?_
      intro other
      rw [List.append_nil, Option.some.injEq]
      constructor
      · rintro rfl
        rfl
      · intro same
        exact (bitcoinData_injective (congrArg (· ++ ([] : List UInt8)) same)).1
  · constructor
    · intro recognised
      obtain ⟨script,returned⟩ := recognised.returns
      cases run.symm.trans returned
    · intro clean
      exact absurd cut clean.1
  · have clean : Clean data := ⟨whole,fun script extra same => absurd same (unlike script extra)⟩
    refine iff_of_true (recognised_of run ?_) clean
    intro script
    have other := unlike script []
    rw [List.append_nil] at other
    exact iff_of_false (by simp) other

/-- A script with a byte behind it is taken for the script, and three bytes stop the program. -/
theorem extended_and_cut :
    OutputScript.ofData (keyHashBytes ⟨List.replicate 20 1,rfl⟩ ++ [0x6a]) =
        .ok (some (.P2PKH ⟨⟨List.replicate 20 1,rfl⟩⟩)) ∧
      OutputScript.ofData [0x76,0xa9,0x14] = .error .assertion ∧
      ¬ Recognised (keyHashBytes ⟨List.replicate 20 1,rfl⟩ ++ [0x6a]) ∧
      ¬ Recognised [0x76,0xa9,0x14] := by
  have taken : OutputScript.ofData (keyHashBytes ⟨List.replicate 20 1,rfl⟩ ++ [0x6a]) =
      .ok (some (.P2PKH ⟨⟨List.replicate 20 1,rfl⟩⟩)) := by decide
  have stops : OutputScript.ofData [0x76,0xa9,0x14] = .error .assertion := by decide
  refine ⟨taken,stops,?_,?_⟩
  · intro recognised
    have same := (recognised.keyHash _).mp taken
    have lengths := congrArg List.length same
    simp at lengths
  · intro recognised
    obtain ⟨script,returned⟩ := recognised.returns
    cases stops.symm.trans returned

end OutputScripts
