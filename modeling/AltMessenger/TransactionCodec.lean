import AltMessenger.BitcoinTransaction

/-!
The transaction decoder against the encoder, in both directions. Every reader
but one undoes its writer; the reader of an output with an empty script takes
the rest of the stream instead. In the other direction only the spelling of the
variable-length integers is free.
-/
namespace TransactionCodec
open ByteReader SwiftRuntime BitcoinStream BitcoinHash BitcoinTransaction

/-- Counts and lengths of a running program are of type `Int`. -/
structure Sized (tx : Transaction) : Prop where
  inputs : tx.inputs.length < 2 ^ 63
  outputs : tx.outputs.length < 2 ^ 63
  scriptSignatures : ∀ input ∈ tx.inputs, input.scriptSignature.length < 2 ^ 63
  scripts : ∀ output ∈ tx.outputs, output.script.length < 2 ^ 63

theorem reads_count (count : Nat) : Reads readVarInt (appendCount count) (UInt64.ofNat count) :=
  reads_varint _

theorem reads_outPoint (outPoint : OutPoint) :
    Reads OutPoint.fromBitcoinStream outPoint.bitcoinData outPoint :=
  reads_bind (reads_hash (by decide) outPoint.transactionHash)
    (reads_last (reads_uint32 outPoint.index .LittleEndian) (reads_pure outPoint))

theorem count_zero_iff {count : Nat} (fits : count < 2 ^ 63) :
    UInt64.ofNat count = 0 ↔ count = 0 := by
  rw [← UInt64.toNat_inj, UInt64.toNat_ofNat_of_lt' (Nat.lt_trans fits (by decide))]
  rfl

/-- Reading an input back forgets the key that was to sign it. -/
theorem reads_input (input : Input) (fits : input.scriptSignature.length < 2 ^ 63) :
    Reads Input.fromBitcoinStream input.bitcoinData { input with userKey := none } := by
  refine reads_bind (reads_outPoint input.outPoint) (reads_bind (reads_count _) ?_)
  have sequence := reads_uint32 input.sequence .LittleEndian
  by_cases empty : input.scriptSignature = []
  · rw [if_pos ((count_zero_iff fits).mpr (by rw [empty]; rfl)), empty, List.nil_append]
    exact reads_last sequence (reads_pure _)
  · have some : ¬ input.scriptSignature.length = 0 := by simpa using empty
    rw [if_neg (fun zero => some ((count_zero_iff fits).mp zero)), reads_length _ fits]
    refine reads_bind (u := []) (reads_pure _) (reads_bind (reads_data _ empty) ?_)
    exact reads_last sequence (reads_pure _)

theorem reads_output (output : Output) (fits : output.script.length < 2 ^ 63)
    (some : output.script ≠ []) :
    Reads Output.fromBitcoinStream output.bitcoinData output := by
  refine reads_bind (reads_int64 output.value .LittleEndian) (reads_bind (reads_count _) ?_)
  rw [reads_length _ fits]
  exact reads_bind (u := []) (reads_pure _) (reads_last (reads_data _ some) (reads_pure _))

/-- `readData(0)` hands the output all that follows it. -/
theorem output_swallows (output : Output) (empty : output.script = []) (rest : List UInt8) :
    Output.fromBitcoinStream (output.bitcoinData ++ rest) =
      .ok { value := output.value, script := rest } [] := by
  have count : appendCount output.script.length = [0] := by rw [empty]; rfl
  rw [Output.bitcoinData, count, empty, Output.fromBitcoinStream, List.append_assoc,
    bind_ok (reads_int64 output.value .LittleEndian _)]
  rfl

theorem output_dry : Output.fromBitcoinStream [] = .fail := rfl

theorem reads_inputs (tx : Transaction) (sized : Sized tx) :
    Reads (readMany Input.fromBitcoinStream tx.inputs.length)
      (tx.inputs.flatMap Input.bitcoinData)
      (tx.inputs.map ({ · with userKey := none })) :=
  reads_many Input.bitcoinData _ tx.inputs
    (fun input mem => reads_input input (sized.scriptSignatures input mem))

theorem reads_outputs (tx : Transaction) (sized : Sized tx)
    (scripts : ∀ output ∈ tx.outputs, output.script ≠ []) :
    Reads (readMany Output.fromBitcoinStream tx.outputs.length)
      (tx.outputs.flatMap Output.bitcoinData) tx.outputs := by
  have all := reads_many Output.bitcoinData id tx.outputs
    (fun output mem => reads_output output (sized.scripts output mem) (scripts output mem))
  rwa [List.map_id] at all

theorem fromRaw_rawValue (raw : UInt32) : (LockTime.fromRaw raw).rawValue = .ok raw := by
  unfold LockTime.fromRaw
  split
  · rename_i zero; subst zero; rfl
  · split
    · rfl
    · exact uint32_whole raw

theorem canonical_rawValue {lockTime : LockTime} (canonical : lockTime.Canonical) :
    ∃ raw, lockTime.rawValue = .ok raw ∧ LockTime.fromRaw raw = lockTime := by
  obtain ⟨raw,rfl⟩ := canonical
  exact ⟨raw,fromRaw_rawValue raw,rfl⟩

/-- The transaction the decoder makes of a written one: the same, without keys. -/
def withoutKeys (tx : Transaction) : Transaction :=
  { tx with inputs := tx.inputs.map ({ · with userKey := none }) }

theorem withoutKeys_beq (tx : Transaction) : (withoutKeys tx).beq tx = true := by
  have each : ∀ inputs : List Input,
      ((inputs.map ({ · with userKey := none })).zip inputs).all
        (fun pair => pair.1.beq pair.2) = true := by
    intro inputs
    induction inputs with
    | nil => rfl
    | cons input inputs ih =>
      rw [List.map_cons, List.zip_cons_cons, List.all_cons, ih, Bool.and_true]
      simp [Input.beq]
  simp only [Transaction.beq, withoutKeys, each]
  simp

/-- What the decoder reads before it comes to the outputs. -/
theorem decode_head (tx : Transaction) (sized : Sized tx) (hasInput : tx.inputs ≠ [])
    (rest : List UInt8) :
    Transaction.fromBitcoinStream (appendUInt32 tx.version .LittleEndian ++
        (appendCount tx.inputs.length ++ (tx.inputs.flatMap Input.bitcoinData ++
          (appendCount tx.outputs.length ++ rest)))) =
      (do
        let outputs ← readMany Output.fromBitcoinStream tx.outputs.length
        if outputs.length = 0 then fail
        else do
          let lockTimeRaw ← readUInt32 .LittleEndian
          lift (Transaction.create tx.version (tx.inputs.map ({ · with userKey := none })) outputs
            (LockTime.fromRaw lockTimeRaw)) : Stream Transaction) rest := by
  have count : ∀ n, n < 2 ^ 63 → (UInt64.ofNat n).toNat = n :=
    fun n fits => UInt64.toNat_ofNat_of_lt' (Nat.lt_trans fits (by decide))
  have some : ¬ (tx.inputs.map ({ · with userKey := none } : Input → Input)).length = 0 := by
    simpa using hasInput
  rw [Transaction.fromBitcoinStream, bind_ok (reads_uint32 tx.version .LittleEndian _),
    bind_ok (reads_count _ _), count _ sized.inputs, bind_ok (reads_inputs tx sized _),
    if_neg some, bind_ok (reads_count _ _), count _ sized.outputs]

theorem decode_whole (tx : Transaction) (sized : Sized tx) (hasInput : tx.inputs ≠ [])
    {raw : UInt32} (lockTime : LockTime.fromRaw raw = tx.lockTime)
    (scripts : ∀ output ∈ tx.outputs, output.script ≠ []) (rest : List UInt8) :
    Transaction.fromBitcoinStream
      (encodeParts tx.version tx.inputs tx.outputs raw ++ rest) = .ok (withoutKeys tx) rest := by
  have some : ¬ tx.outputs.length = 0 := Nat.ne_of_gt tx.hasOutput
  simp only [encodeParts, List.append_assoc]
  rw [decode_head tx sized hasInput, bind_ok (reads_outputs tx sized scripts _), if_neg some,
    bind_ok (reads_uint32 raw .LittleEndian _), lockTime, Transaction.create,
    dif_pos tx.hasOutput]
  rfl

/-- An empty output script leaves nothing for what must follow it. -/
theorem decode_starved (tx : Transaction) (sized : Sized tx) (hasInput : tx.inputs ≠ [])
    (raw : UInt32) (empty : ∃ output ∈ tx.outputs, ¬ output.script ≠ []) (rest : List UInt8) :
    Transaction.fromBitcoinStream
      (encodeParts tx.version tx.inputs tx.outputs raw ++ rest) = .fail := by
  simp only [encodeParts, List.append_assoc]
  rw [decode_head tx sized hasInput]
  have stops := many_stops Output.bitcoinData id (fun output => output.script ≠ []) output_dry
    tx.outputs
    (fun output mem good => reads_output output (sized.scripts output mem) good)
    (fun output _ bad rest =>
      Or.inr ⟨_,output_swallows output (not_not.mp bad) rest⟩) empty
    (appendUInt32 raw .LittleEndian ++ rest)
  rcases stops with stop | ⟨outputs,eaten⟩
  · rw [bind_fail stop]
  · rw [bind_ok eaten]
    split
    · rfl
    · rfl

/-- The decoder undoes the encoder on exactly the transactions without an empty
    output script; on the others it yields `nil`, whatever follows. -/
theorem decode_undoes_encode_iff (tx : Transaction) (sized : Sized tx) (hasInput : tx.inputs ≠ [])
    (canonical : tx.lockTime.Canonical) (rest : List UInt8) :
    (∃ bytes back, tx.bitcoinData = .ok bytes ∧
        Transaction.fromBitcoinStream (bytes ++ rest) = .ok back rest ∧ back.beq tx = true) ↔
      ∀ output ∈ tx.outputs, output.script ≠ [] := by
  obtain ⟨raw,value,lockTime⟩ := canonical_rawValue canonical
  have encoded : tx.bitcoinData = .ok (encodeParts tx.version tx.inputs tx.outputs raw) := by
    rw [Transaction.bitcoinData, value]
    rfl
  constructor
  · rintro ⟨bytes,back,written,read,_⟩
    rw [encoded] at written
    cases written
    by_contra some_empty
    simp only [not_forall, exists_prop] at some_empty
    rw [decode_starved tx sized hasInput raw some_empty rest] at read
    cases read
  · intro scripts
    exact ⟨_,_,encoded,decode_whole tx sized hasInput lockTime scripts rest,withoutKeys_beq tx⟩

def coinbaseOutPoint : OutPoint := { transactionHash := ⟨List.replicate 32 0,rfl⟩, index := 0 }

def plainInput : Input :=
  { outPoint := coinbaseOutPoint, scriptSignature := [], sequence := 0xffffffff, userKey := none }

def payTo (script : List UInt8) : Transaction :=
  { version := 1, inputs := [plainInput], outputs := [{ value := 1, script }],
    lockTime := .AlwaysLocked, hasOutput := Nat.one_pos }

theorem payTo_decodes :
    ∃ bytes back, (payTo [0x51]).bitcoinData = .ok bytes ∧
      Transaction.fromBitcoinStream (bytes ++ [7]) = .ok back [7] ∧ back.beq (payTo [0x51]) = true :=
  (decode_undoes_encode_iff (payTo [0x51]) ⟨by decide,by decide,by decide,by decide⟩ (by decide)
    ⟨0,rfl⟩ [7]).mpr (by decide)

theorem empty_script_not_decoded :
    (payTo []).inputs ≠ [] ∧ (payTo []).lockTime.Canonical ∧
      ∃ bytes, (payTo []).bitcoinData = .ok bytes ∧ Transaction.fromBitcoinStream bytes = .fail :=
  ⟨by decide,⟨0,rfl⟩,_,rfl,by decide⟩

/-- Running checks over the stream: are the lengths and counts in it shortest? -/
def shortInput (bs : List UInt8) : Bool :=
  match OutPoint.fromBitcoinStream bs with
  | .ok _ mid => shortVarInt mid
  | _ => true

def shortOutput (bs : List UInt8) : Bool :=
  match readInt64 .LittleEndian bs with
  | .ok _ mid => shortVarInt mid
  | _ => true

/-- A counted list: its count is shortest and so is each element. -/
def shortCounted {α : Type} (r : Stream α) (short : List UInt8 → Bool) (bs : List UInt8) : Bool :=
  shortVarInt bs && match readVarInt bs with
    | .ok count mid => shortMany r short count.toNat mid
    | _ => true

def shortTransaction (bs : List UInt8) : Bool :=
  match readUInt32 .LittleEndian bs with
  | .ok _ bs =>
    shortCounted Input.fromBitcoinStream shortInput bs &&
      match (do let count ← readVarInt; readMany Input.fromBitcoinStream count.toNat) bs with
      | .ok _ bs => shortCounted Output.fromBitcoinStream shortOutput bs
      | _ => true
  | _ => true

theorem exact_outPoint {bs rest : List UInt8} {outPoint : OutPoint}
    (parsed : OutPoint.fromBitcoinStream bs = .ok outPoint rest) :
    bs = outPoint.bitcoinData ++ rest := by
  obtain ⟨hash,mid,first,run⟩ := bind_eq_ok.mp parsed
  obtain ⟨index,last,second,run⟩ := bind_eq_ok.mp run
  cases run
  rw [(spelled_hash 32).exact first, (spelled_uint32 .LittleEndian).exact second,
    OutPoint.bitcoinData, List.append_assoc]

theorem length_of_count {length : UInt64} {data : List UInt8} (same : data.length = length.toNat) :
    appendCount data.length = appendVarInt length := by
  rw [appendCount, same, UInt64.ofNat_toNat]

/-- A length followed by the bytes it counts. -/
theorem spelled_sized {p data : List UInt8} {length : UInt64} {short : Bool}
    (hp : (appendVarInt length).length ≤ p.length) (sp : short = true ↔ p = appendVarInt length)
    (whole : data.length = length.toNat) (tail : List UInt8) :
    (appendCount data.length ++ (data ++ tail)).length ≤ (p ++ (data ++ tail)).length ∧
      (short = true ↔ p ++ (data ++ tail) = appendCount data.length ++ (data ++ tail)) := by
  rw [length_of_count whole, List.append_left_inj]
  refine ⟨?_,sp⟩
  simp only [List.length_append]
  omega

/-- After its length, an input is that many script bytes and a sequence. -/
theorem input_body {length : UInt64} {bs rest : List UInt8} {outPoint : OutPoint} {input : Input}
    (run : (if length = 0 then do
        let sequence ← readUInt32 .LittleEndian
        pure { outPoint, scriptSignature := [], sequence, userKey := none }
      else do
        let count ← readLength length
        let scriptSignature ← readData count
        let sequence ← readUInt32 .LittleEndian
        pure { outPoint, scriptSignature, sequence, userKey := none } : Stream Input) bs =
      .ok input rest) :
    ∃ script sequence last, bs = script ++ last ∧ script.length = length.toNat ∧
      readUInt32 .LittleEndian last = .ok sequence rest ∧
      input = { outPoint, scriptSignature := script, sequence, userKey := none } := by
  split at run
  · rename_i zero
    obtain ⟨sequence,last,third,run⟩ := bind_eq_ok.mp run
    cases run
    exact ⟨[],sequence,bs,rfl,by rw [zero]; rfl,third,rfl⟩
  · obtain ⟨count,mid,first,run⟩ := bind_eq_ok.mp run
    obtain ⟨script,last,second,run⟩ := bind_eq_ok.mp run
    obtain ⟨sequence,end_,third,run⟩ := bind_eq_ok.mp run
    cases run
    obtain ⟨rfl,rfl⟩ := readLength_ok first
    obtain ⟨rfl,whole⟩ := readData_ok second
    rcases whole with whole | dry
    · exact ⟨script,sequence,last,rfl,whole,third,rfl⟩
    · rw [dry] at third
      cases third

theorem spelled_input : Spelled Input.fromBitcoinStream Input.bitcoinData shortInput := by
  intro bs input rest parsed
  obtain ⟨outPoint,mid,first,run⟩ := bind_eq_ok.mp parsed
  obtain ⟨length,body,second,run⟩ := bind_eq_ok.mp run
  obtain ⟨script,sequence,last,rfl,whole,third,rfl⟩ := input_body run
  have check : shortInput bs = shortVarInt mid := by rw [shortInput, first]
  have start := exact_outPoint first
  obtain ⟨v,rfl,hv,sv⟩ := spelled_varint _ _ _ second
  have finish := (spelled_uint32 .LittleEndian).exact third
  obtain ⟨len,short⟩ := spelled_sized hv sv whole (appendUInt32 sequence .LittleEndian)
  refine ⟨outPoint.bitcoinData ++ (v ++ (script ++ appendUInt32 sequence .LittleEndian)),
    by rw [start, finish]; simp, ?_, ?_⟩
  · simp only [Input.bitcoinData, List.length_append] at len ⊢
    omega
  · rw [check, short, Input.bitcoinData, List.append_right_inj]

theorem spelled_output :
    SpelledInside Output.fromBitcoinStream Output.bitcoinData shortOutput := by
  intro bs output rest parsed more
  obtain ⟨value,mid,first,run⟩ := bind_eq_ok.mp parsed
  obtain ⟨length,body,second,run⟩ := bind_eq_ok.mp run
  obtain ⟨count,body',third,run⟩ := bind_eq_ok.mp run
  obtain ⟨script,last,fourth,run⟩ := bind_eq_ok.mp run
  cases run
  obtain ⟨rfl,rfl⟩ := readLength_ok third
  have check : shortOutput bs = shortVarInt mid := by rw [shortOutput, first]
  have start := (spelled_int64 .LittleEndian).exact first
  obtain ⟨v,rfl,hv,sv⟩ := spelled_varint _ _ _ second
  obtain ⟨rfl,whole⟩ := readData_ok fourth
  have whole : script.length = length.toNat := whole.resolve_right more
  obtain ⟨len,short⟩ := spelled_sized hv sv whole []
  rw [List.append_nil] at len short
  refine ⟨appendInt64 value .LittleEndian ++ (v ++ script), by rw [start]; simp, ?_, ?_⟩
  · simp only [Output.bitcoinData, List.length_append] at len ⊢
    omega
  · rw [check, short, Output.bitcoinData, List.append_right_inj]

/-- A count and the elements it announces. -/
theorem spelled_counted {α : Type} {r : Stream α} {enc : α → List UInt8}
    {short : List UInt8 → Bool} (one : SpelledInside r enc short) {bs mid rest : List UInt8}
    {count : UInt64} {as : List α} (first : readVarInt bs = .ok count mid)
    (second : readMany r count.toNat mid = .ok as rest) (more : rest ≠ []) :
    ∃ pre, bs = pre ++ rest ∧
      (appendCount as.length ++ as.flatMap enc).length ≤ pre.length ∧
      (shortCounted r short bs = true ↔ pre = appendCount as.length ++ as.flatMap enc) := by
  have check : shortCounted r short bs =
      (shortVarInt bs && shortMany r short count.toNat mid) := by rw [shortCounted, first]
  obtain ⟨q,rfl,hq,sq⟩ := spelled_many one _ _ _ _ second more
  obtain ⟨p,rfl,hp,sp⟩ := spelled_varint _ _ _ first
  rw [check]
  have length : appendVarInt count = appendCount as.length := by
    rw [appendCount, many_length second, UInt64.ofNat_toNat]
  rw [length] at hp sp
  obtain ⟨len,short_iff⟩ := spelled_append hp sp hq sq
  exact ⟨p ++ q, by simp, len, short_iff⟩

theorem starts_nonempty {α : Type} {r : Stream α} {bs rest : List UInt8} {a : α}
    (dry : r [] = .fail) (run : r bs = .ok a rest) : bs ≠ [] := by
  rintro rfl
  rw [dry] at run
  cases run

theorem fromRaw_of_create {version raw : UInt32} {inputs : List Input} {outputs : List Output}
    {tx : Transaction} {bs rest : List UInt8}
    (run : lift (Transaction.create version inputs outputs (LockTime.fromRaw raw)) bs =
      (.ok tx rest : Parse Trap Transaction)) :
    tx.bitcoinData = .ok (encodeParts version inputs outputs raw) ∧ bs = rest := by
  unfold Transaction.create at run
  split at run
  · cases run
    rw [Transaction.bitcoinData, fromRaw_rawValue]
    exact ⟨rfl,rfl⟩
  · cases run

/-- Re-encoding a decoded transaction gives at most the bytes consumed, and
    gives them back exactly when every count and length in them is shortest. -/
theorem spelled_transaction {bs rest : List UInt8} {tx : Transaction}
    (parsed : Transaction.fromBitcoinStream bs = .ok tx rest) :
    ∃ consumed bytes, bs = consumed ++ rest ∧ tx.bitcoinData = .ok bytes ∧
      (shortTransaction bs = true ↔ consumed = bytes) := by
  obtain ⟨version,b1,readVersion,run⟩ := bind_eq_ok.mp parsed
  obtain ⟨inputCount,b2,readInputCount,run⟩ := bind_eq_ok.mp run
  obtain ⟨inputs,b3,readInputs,run⟩ := bind_eq_ok.mp run
  split at run
  · cases run
  obtain ⟨outputCount,b4,readOutputCount,run⟩ := bind_eq_ok.mp run
  obtain ⟨outputs,b5,readOutputs,run⟩ := bind_eq_ok.mp run
  split at run
  · cases run
  obtain ⟨raw,b6,readLockTime,run⟩ := bind_eq_ok.mp run
  obtain ⟨encoded,rfl⟩ := fromRaw_of_create run
  have head := (spelled_uint32 .LittleEndian).exact readVersion
  have foot := (spelled_uint32 .LittleEndian).exact readLockTime
  have check : shortTransaction bs =
      (shortCounted Input.fromBitcoinStream shortInput b1 &&
        shortCounted Output.fromBitcoinStream shortOutput b3) := by
    rw [shortTransaction, readVersion]
    simp only [bind_ok readInputCount, readInputs]
  obtain ⟨p,startInputs,hp,sp⟩ := spelled_counted spelled_input.inside readInputCount readInputs
    (starts_nonempty rfl readOutputCount)
  obtain ⟨q,startOutputs,hq,sq⟩ := spelled_counted spelled_output readOutputCount readOutputs
    (starts_nonempty rfl readLockTime)
  obtain ⟨_,short_iff⟩ := spelled_append hp sp hq sq
  refine ⟨appendUInt32 version .LittleEndian ++ ((p ++ q) ++ appendUInt32 raw .LittleEndian),
    _, ?_, encoded, ?_⟩
  · rw [head, startInputs, startOutputs, foot]
    simp
  · have shape : encodeParts version inputs outputs raw = appendUInt32 version .LittleEndian ++
        (((appendCount inputs.length ++ inputs.flatMap Input.bitcoinData) ++
          (appendCount outputs.length ++ outputs.flatMap Output.bitcoinData)) ++
            appendUInt32 raw .LittleEndian) := by
      simp [encodeParts]
    rw [check, short_iff, shape, List.append_right_inj, List.append_left_inj]

theorem inputs_beq_bytes {left right : List Input} (length : left.length = right.length)
    (each : (left.zip right).all (fun pair => pair.1.beq pair.2) = true) :
    left.flatMap Input.bitcoinData = right.flatMap Input.bitcoinData := by
  induction left generalizing right with
  | nil =>
    cases right with
    | nil => rfl
    | cons b right => cases length
  | cons a left ih =>
    cases right with
    | nil => cases length
    | cons b right =>
      rw [List.zip_cons_cons, List.all_cons, Bool.and_eq_true] at each
      have tail := ih (by simpa using length) each.2
      have head : a.bitcoinData = b.bitcoinData := by
        have fields := each.1
        simp only [Input.beq, Bool.and_eq_true, beq_iff_eq] at fields
        simp only [Input.bitcoinData, fields]
      rw [List.flatMap_cons, List.flatMap_cons, head, tail]

/-- Equal transactions are written alike; the keys they carry are not written. -/
theorem beq_bitcoinData {left right : Transaction} (same : left.beq right = true) :
    left.bitcoinData = right.bitcoinData := by
  simp only [Transaction.beq, Bool.and_eq_true, beq_iff_eq, decide_eq_true_iff] at same
  obtain ⟨⟨⟨⟨version,length⟩,inputs⟩,outputs⟩,lockTime⟩ := same
  simp only [Transaction.bitcoinData, encodeParts, version, length, outputs, lockTime,
    inputs_beq_bytes length inputs]

theorem hash_ok {D : Digests} {tx : Transaction} {bytes : List UInt8}
    (encoded : tx.bitcoinData = .ok bytes) (hash : SHA256Hash) :
    tx.hash D = .ok hash ↔
      bytes.length < 2 ^ 32 ∧ hash.data = (D.sha256 (D.sha256 bytes)).reverse := by
  have unfolded : tx.hash D = (do
      let data ← Hash256.digest D bytes
      HashOf.ofData 32 data.reverse) := by rw [Transaction.hash, encoded]; rfl
  rw [unfolded]
  by_cases short : bytes.length < 2 ^ 32
  · rw [digest_short D short]
    have made : HashOf.ofData 32 (D.sha256 (D.sha256 bytes)).reverse = .ok hash ↔ _ := ofData_ok
    exact made.trans ⟨fun same => ⟨short,same.symm⟩, fun same => same.2.symm⟩
  · cases digest : Hash256.digest D bytes with
    | ok data => exact absurd (Hash256.digest_ok.mp digest).1 short
    | error e =>
      constructor
      · intro run; cases run
      · intro fits; exact absurd fits.1 short

/-- Over all accepted bytes: the id is that of the bytes received, and the bytes
    are the only ones for their transaction, as far as spellings are shortest. -/
theorem reencode_iff_shortest (D : Digests) :
    (∀ bs tx rest, Transaction.fromBitcoinStream bs = .ok tx rest →
      ∃ consumed, bs = consumed ++ rest ∧
        (tx.bitcoinData = .ok consumed ↔ shortTransaction bs = true) ∧
        (shortTransaction bs = true → ∀ hash, tx.hash D = .ok hash ↔
          consumed.length < 2 ^ 32 ∧ hash.data = (D.sha256 (D.sha256 consumed)).reverse)) ∧
      ∀ consumed other tx back rest rest',
        Transaction.fromBitcoinStream (consumed ++ rest) = .ok tx rest →
        Transaction.fromBitcoinStream (other ++ rest') = .ok back rest' → back.beq tx = true →
        shortTransaction (consumed ++ rest) = true → shortTransaction (other ++ rest') = true →
        consumed = other := by
  constructor
  · intro bs tx rest parsed
    obtain ⟨consumed,bytes,start,encoded,short⟩ := spelled_transaction parsed
    refine ⟨consumed,start,?_,?_⟩
    · rw [encoded, short, Except.ok.injEq, eq_comm]
    · intro shortest
      rw [short.mp shortest]
      exact hash_ok encoded
  · intro consumed other tx back rest rest' parsed parsed' same shortest shortest'
    obtain ⟨left,bytes,start,encoded,short⟩ := spelled_transaction parsed
    obtain ⟨right,bytes',start',encoded',short'⟩ := spelled_transaction parsed'
    have one : bytes' = bytes :=
      Except.ok.inj ((encoded'.symm.trans (beq_bitcoinData same)).trans encoded)
    calc consumed = left := List.append_cancel_right start
      _ = bytes := short.mp shortest
      _ = bytes' := one.symm
      _ = right := (short'.mp shortest').symm
      _ = other := (List.append_cancel_right start').symm

/-- One input behind a count written in three bytes. -/
def longCount : List UInt8 :=
  appendUInt32 1 .LittleEndian ++ ([0xfd, 1, 0] ++ (plainInput.bitcoinData ++
    ([1] ++ (Output.bitcoinData { value := 1, script := [0x51] } ++
      appendUInt32 0 .LittleEndian))))

theorem long_count_accepted :
    Transaction.fromBitcoinStream longCount = .ok (payTo [0x51]) [] ∧
      ∃ bytes, (payTo [0x51]).bitcoinData = .ok bytes ∧ bytes ≠ longCount ∧
        Transaction.fromBitcoinStream bytes = .ok (payTo [0x51]) [] :=
  ⟨by decide,_,rfl,by decide,by decide⟩

end TransactionCodec
