import AltMessenger.BRMerkleProofs

/-!
Blocks and headers in messages. What is serialized is parsed again; and the pointers of a block that
is parsed hold what it counts exactly if the message was long enough for that.
-/
namespace BRMerkleMessages
open LittleEndian Bip37 WalletDatabase BRMerkleBlocks BRBlockDifficulty BRMerkleProofs
open BRTransactions hiding BRVarInt

section Fields

/-- A field of some bytes in front of others -/
theorem field_there (before rest : List UInt8) {width n : Nat} (bound : n < 256 ^ width) :
    ofBytes (((before ++ (toBytes width n ++ rest)).drop before.length).take width) = n := by
  have field := ofBytes_toBytes width n bound
  rw [List.drop_left, List.take_left' (toBytes_length width n), field]

theorem word_there (before rest : List UInt8) (n : UInt32) {off : Nat}
    (there : before.length = off) :
    wordAt (before ++ (toBytes 4 n.toNat ++ rest)) off = n := by
  rw [wordAt, ← there, field_there before rest (n.toNat_lt.trans_eq (by decide)),
    UInt32.ofNat_toNat]

theorem hash_there (before rest : List UInt8) (hash : UInt256) {off : Nat}
    (there : before.length = off) :
    hashAt (before ++ (toBytes 32 hash.toNat ++ rest)) off = hash := by
  rw [hashAt, ← there, field_there before rest (hash.isLt.trans_eq (by decide)),
    BitVec.ofNat_toNat, BitVec.setWidth_eq]

/-- A number is read as it was written, with its length. -/
theorem varInt_there (n : UInt64) (rest : List UInt8) :
    BRVarInt (BRVarIntSet n ++ rest) = (n,UInt64.ofNat (BRVarIntSet n).length) := by
  have wide : ∀ (width : Nat) (marker : UInt8), n.toNat < 256 ^ width →
      (if 1 + width ≤ (marker :: (toBytes width n.toNat ++ rest)).length then
        UInt64.ofNat (ofBytes (((marker :: (toBytes width n.toNat ++ rest)).drop 1).take width))
      else 0) = n := by
    intro width marker bound
    rw [if_pos (by simp; omega), List.drop_one, List.tail_cons,
      List.take_left' (toBytes_length width n.toNat), ofBytes_toBytes width _ bound,
      UInt64.ofNat_toNat]
  unfold BRVarIntSet
  split
  case isTrue one =>
    have byte : (UInt8.ofNat n.toNat).toNat = n.toNat := UInt8.toNat_ofNat_of_lt' (by
      change _ < 256
      omega)
    have other : ∀ marker : UInt8, 0xfd ≤ marker.toNat → UInt8.ofNat n.toNat ≠ marker := by
      rintro marker above rfl
      omega
    rw [BRVarInt, List.singleton_append, List.headD_cons, if_neg (other 0xfd (by decide)),
      if_neg (other 0xfe (by decide)), if_neg (other 0xff (by decide)), byte, UInt64.ofNat_toNat]
    rfl
  case isFalse =>
    split
    case isTrue two =>
      have value := wide 2 0xfd (by omega)
      rw [List.length_cons, toBytes_length, List.cons_append]
      exact congrArg (·,3) value
    case isFalse =>
      split
      case isTrue four =>
        have value := wide 4 0xfe (by omega)
        rw [List.length_cons, toBytes_length, List.cons_append]
        exact congrArg (·,5) value
      case isFalse =>
        have value := wide 8 0xff (n.toNat_lt.trans_eq (by decide))
        rw [List.length_cons, toBytes_length, List.cons_append]
        exact congrArg (·,9) value

theorem words_there (hashes : List UInt256) :
    (words 32 hashes.length (hashes.flatMap fun hash => toBytes 32 hash.toNat)).map
      (BitVec.ofNat 256) = hashes := by
  induction hashes with
  | nil => rfl
  | cons hash hashes ih =>
    rw [List.length_cons, words_succ, List.flatMap_cons, List.take_left' (toBytes_length 32 _),
      List.drop_left' (toBytes_length 32 _), List.map_cons, ih,
      ofBytes_toBytes 32 _ (hash.isLt.trans_eq (by decide)), BitVec.ofNat_toNat,
      BitVec.setWidth_eq]

theorem flatMap_length (hashes : List UInt256) :
    (hashes.flatMap fun hash => toBytes 32 hash.toNat).length = 32 * hashes.length := by
  induction hashes with
  | nil => rfl
  | cons hash hashes ih =>
    rw [List.flatMap_cons, List.length_append, toBytes_length, ih, List.length_cons]
    omega

/-- What is copied is there, if the message reaches so far. -/
theorem copied_there (before data rest : List UInt8) {off len : UInt64}
    (short : (before ++ (data ++ rest)).length < 2 ^ 64) (there : off.toNat = before.length)
    (length : len.toNat = data.length) : copied (before ++ (data ++ rest)) off len = data := by
  have whole : (before ++ (data ++ rest)).length = before.length + data.length + rest.length := by
    simp only [List.length_append]
    omega
  have sum : (off + len).toNat = before.length + data.length := by
    rw [UInt64.toNat_add, there, length]
    omega
  rw [copied, if_pos, there, length, List.drop_left, List.take_left]
  rw [sum, length]
  omega

theorem announced_there (before rest : List UInt8) (n : UInt64) {off : Nat}
    (there : off = before.length) : BRVarInt ((before ++ (BRVarIntSet n ++ rest)).drop off) =
      (n,UInt64.ofNat (BRVarIntSet n).length) := by
  rw [there, List.drop_left]
  exact varInt_there n rest

theorem offset_toNat {a b : UInt64} {m n : Nat} (first : a.toNat = m) (second : b.toNat = n)
    (small : m + n < 2 ^ 64) : (a + b).toNat = m + n := by
  rw [UInt64.toNat_add, first, second]
  exact Nat.mod_eq_of_lt small

end Fields

section RoundTrip
variable (BRSHA256_2 : List UInt8 → UInt256)

/-- The first 80 bytes -/
def headerBytes (block : BRMerkleBlock) : List UInt8 :=
  toBytes 4 block.version.toNat ++ (toBytes 32 block.prevBlock.toNat ++
    (toBytes 32 block.merkleRoot.toNat ++ (toBytes 4 block.timestamp.toNat ++
      (toBytes 4 block.target.toNat ++ toBytes 4 block.nonce.toNat))))

theorem headerBytes_length (block : BRMerkleBlock) : (headerBytes block).length = 80 := by
  simp [headerBytes]

theorem header_there (block : BRMerkleBlock) (rest : List UInt8) :
    parsedHeader BRSHA256_2 (headerBytes block ++ rest) =
      { headerOf block with
        blockHash := BRSHA256_2 (headerBytes block)
        height := BLOCK_UNKNOWN_HEIGHT } := by
  have word : ∀ (before behind : List UInt8) (n : UInt32) (off : Nat),
      headerBytes block ++ rest = before ++ (toBytes 4 n.toNat ++ behind) → before.length = off →
        wordAt (headerBytes block ++ rest) off = n := by
    intro before behind n off parts there
    rw [parts]
    exact word_there before behind n there
  have hash : ∀ (before behind : List UInt8) (hash : UInt256) (off : Nat),
      headerBytes block ++ rest = before ++ (toBytes 32 hash.toNat ++ behind) →
        before.length = off → hashAt (headerBytes block ++ rest) off = hash := by
    intro before behind hash off parts there
    rw [parts]
    exact hash_there before behind hash there
  let version := toBytes 4 block.version.toNat
  let prevBlock := toBytes 32 block.prevBlock.toNat
  let merkleRoot := toBytes 32 block.merkleRoot.toNat
  let timestamp := toBytes 4 block.timestamp.toNat
  let target := toBytes 4 block.target.toNat
  have at_0 := word [] _ block.version 0 (by simp only [headerBytes, List.append_assoc]; rfl) rfl
  have at_4 := hash version _ block.prevBlock 4
    (by simp only [headerBytes, version, List.append_assoc]; rfl) (by simp [version])
  have at_36 := hash (version ++ prevBlock) _ block.merkleRoot 36
    (by simp only [headerBytes, version, prevBlock, List.append_assoc]; rfl)
    (by simp [version, prevBlock])
  have at_68 := word (version ++ (prevBlock ++ merkleRoot)) _ block.timestamp 68
    (by simp only [headerBytes, version, prevBlock, merkleRoot, List.append_assoc]; rfl)
    (by simp [version, prevBlock, merkleRoot])
  have at_72 := word (version ++ (prevBlock ++ (merkleRoot ++ timestamp))) _ block.target 72
    (by simp only [headerBytes, version, prevBlock, merkleRoot, timestamp, List.append_assoc]; rfl)
    (by simp [version, prevBlock, merkleRoot, timestamp])
  have at_76 := word (version ++ (prevBlock ++ (merkleRoot ++ (timestamp ++ target)))) _ block.nonce
    76 (by
      simp only [headerBytes, version, prevBlock, merkleRoot, timestamp, target, List.append_assoc]
      rfl)
    (by simp [version, prevBlock, merkleRoot, timestamp, target])
  rw [parsedHeader, at_0, at_4, at_36, at_68, at_72, at_76,
    List.take_left' (headerBytes_length block)]
  rfl

/-- What a header has behind it -/
def proofBytes (block : BRMerkleBlock) : List UInt8 :=
  toBytes 4 block.totalTx.toNat ++ (BRVarIntSet (UInt64.ofNat block.hashesCount) ++
    ((block.hashes.flatMap fun hash => toBytes 32 hash.toNat) ++
      (BRVarIntSet (UInt64.ofNat block.flagsLen) ++ block.flags)))

theorem serialize_eq (block : BRMerkleBlock) : BRMerkleBlockSerialize block =
    headerBytes block ++ if 0 < block.totalTx then proofBytes block else [] := by
  rw [BRMerkleBlockSerialize, headerBytes]
  simp only [List.append_assoc]
  rfl

theorem proofBytes_length {block : BRMerkleBlock}
    (hashes : block.hashes.length = block.hashesCount)
    (flags : block.flags.length = block.flagsLen) : (proofBytes block).length =
      4 + ((BRVarIntSet (UInt64.ofNat block.hashesCount)).length + (32 * block.hashesCount +
        ((BRVarIntSet (UInt64.ofNat block.flagsLen)).length + block.flagsLen))) := by
  simp only [proofBytes, List.length_append, toBytes_length, flatMap_length, hashes, flags]

theorem header_parsed (block : BRMerkleBlock) :
    BRMerkleBlockParse BRSHA256_2 (headerBytes block ++ []) =
      some { headerOf block with
        blockHash := BRSHA256_2 (headerBytes block)
        height := BLOCK_UNKNOWN_HEIGHT } := by
  have length := headerBytes_length block
  rw [BRMerkleBlockParse, if_neg (by rw [List.length_append, length]; omega),
    if_pos (by rw [List.length_append, length]; decide), header_there]

theorem proof_parsed {block : BRMerkleBlock} (hashes : block.hashes.length = block.hashesCount)
    (flags : block.flags.length = block.flagsLen)
    (short : (headerBytes block ++ proofBytes block).length < 2 ^ 64) :
    BRMerkleBlockParse BRSHA256_2 (headerBytes block ++ proofBytes block) =
      some { block with
        blockHash := BRSHA256_2 (headerBytes block)
        height := BLOCK_UNKNOWN_HEIGHT } := by
  have length := headerBytes_length block
  have whole := proofBytes_length hashes flags
  have data_length := flatMap_length block.hashes
  rw [List.length_append, length, whole] at short
  have small : ∀ n < 2 ^ 64, (UInt64.ofNat n).toNat = n := fun n => UInt64.toNat_ofNat_of_lt'
  set counts := BRVarIntSet (UInt64.ofNat block.hashesCount) with of_counts
  set lengths := BRVarIntSet (UInt64.ofNat block.flagsLen) with of_lengths
  set data := block.hashes.flatMap (fun hash => toBytes 32 hash.toNat) with of_data
  rw [hashes] at data_length
  -- the four places from which something is read
  have off : (84 + UInt64.ofNat counts.length).toNat = 84 + counts.length :=
    offset_toNat rfl (small _ (by omega)) (by omega)
  have len : (UInt64.ofNat block.hashesCount * 32).toNat = 32 * block.hashesCount := by
    rw [UInt64.toNat_mul, small _ (by omega)]
    change block.hashesCount * 32 % 2 ^ 64 = _
    omega
  have next := offset_toNat off len (by omega)
  have last := offset_toNat next (small lengths.length (by omega)) (by omega)
  have from_hashes : headerBytes block ++ proofBytes block =
      (headerBytes block ++ (toBytes 4 block.totalTx.toNat ++ counts)) ++ (data ++ (lengths ++
        block.flags)) := by
    simp only [List.append_assoc]
    rfl
  have from_flags : headerBytes block ++ proofBytes block =
      (headerBytes block ++ (toBytes 4 block.totalTx.toNat ++ (counts ++ (data ++ lengths)))) ++
        (block.flags ++ []) := by
    simp only [List.append_assoc, List.append_nil]
    rfl
  have short' : (headerBytes block ++ proofBytes block).length < 2 ^ 64 := by
    rw [List.length_append, length, whole]
    exact short
  have total : wordAt (headerBytes block ++ proofBytes block) 80 = block.totalTx :=
    word_there _ _ _ length
  have count : BRVarInt ((headerBytes block ++ proofBytes block).drop 84) =
      (UInt64.ofNat block.hashesCount,UInt64.ofNat counts.length) := by
    have there := announced_there (headerBytes block ++ toBytes 4 block.totalTx.toNat)
      (data ++ (lengths ++ block.flags)) (UInt64.ofNat block.hashesCount)
      (show 84 = _ by rw [List.length_append, length, toBytes_length])
    rwa [List.append_assoc] at there
  have flagsLen : BRVarInt ((headerBytes block ++ proofBytes block).drop
      (84 + counts.length + 32 * block.hashesCount)) =
        (UInt64.ofNat block.flagsLen,UInt64.ofNat lengths.length) := by
    have there := announced_there
      (headerBytes block ++ (toBytes 4 block.totalTx.toNat ++ (counts ++ data))) block.flags
      (UInt64.ofNat block.flagsLen) (show 84 + counts.length + 32 * block.hashesCount = _ by
        simp only [List.length_append, length, toBytes_length, data_length]
        omega)
    simp only [List.append_assoc] at there
    exact there
  have of_hashes : copied (headerBytes block ++ proofBytes block)
      (84 + UInt64.ofNat counts.length) (UInt64.ofNat block.hashesCount * 32) = data := by
    rw [from_hashes]
    refine copied_there _ _ _ (by rwa [← from_hashes]) ?_ (len.trans data_length.symm)
    rw [off, List.length_append, List.length_append, length, toBytes_length]
    omega
  have of_flags : copied (headerBytes block ++ proofBytes block)
      (84 + UInt64.ofNat counts.length + UInt64.ofNat block.hashesCount * 32 +
        UInt64.ofNat lengths.length) (UInt64.ofNat block.flagsLen) = block.flags := by
    rw [from_flags]
    refine copied_there _ _ _ (by rwa [← from_flags]) ?_ ((small _ (by omega)).trans flags.symm)
    simp only [last, List.length_append, length, toBytes_length, data_length]
    omega
  rw [BRMerkleBlockParse, if_neg (by rw [List.length_append, length]; omega),
    if_neg (by rw [List.length_append, length, whole]; omega)]
  dsimp only
  have start : (84 : UInt64).toNat = 84 := rfl
  rw [start, count]
  dsimp only
  rw [next, flagsLen]
  dsimp only
  rw [of_hashes, of_flags, total, header_there, data_length,
    Nat.mul_div_cancel_left _ (by decide), ← hashes, words_there, hashes, small _ (by omega),
    small _ (by omega)]
  rfl

/-- A block is parsed from what it was serialized to, with its own hash and at no height. -/
theorem parses_serialized {block : BRMerkleBlock} (hashes : block.hashes.length = block.hashesCount)
    (flags : block.flags.length = block.flagsLen)
    (short : (BRMerkleBlockSerialize block).length < 2 ^ 64) :
    BRMerkleBlockParse BRSHA256_2 (BRMerkleBlockSerialize block) =
      some { (if block.totalTx = 0 then headerOf block else block) with
        blockHash := BRSHA256_2 ((BRMerkleBlockSerialize block).take 80)
        height := BLOCK_UNKNOWN_HEIGHT } := by
  rw [serialize_eq] at short ⊢
  rw [List.take_left' (headerBytes_length block)]
  by_cases none_counted : block.totalTx = 0
  · rw [if_neg (by rw [none_counted]; exact UInt32.lt_irrefl 0), if_pos none_counted]
    exact header_parsed BRSHA256_2 block
  · have counted : 0 < block.totalTx := UInt32.pos_iff_ne_zero.mpr none_counted
    rw [if_pos counted] at short ⊢
    rw [if_neg none_counted]
    exact proof_parsed BRSHA256_2 hashes flags short

end RoundTrip

/-- A block with one transaction -/
def onlyBlock : BRMerkleBlock := withProof easyHeader 1 [7] [1]

theorem only_block_parsed : BRMerkleBlockParse firstBytes (BRMerkleBlockSerialize onlyBlock) =
    some { onlyBlock with
      blockHash := firstBytes ((BRMerkleBlockSerialize onlyBlock).take 80)
      height := BLOCK_UNKNOWN_HEIGHT } :=
  @parses_serialized firstBytes onlyBlock rfl rfl (by decide +kernel)

section Reading
variable {BRSHA256_2 : List UInt8 → UInt256} {buf : List UInt8} {block : BRMerkleBlock}

theorem copied_cases (buf : List UInt8) (off len : UInt64) :
    copied buf off len = [] ∨ (off + len).toNat ≤ buf.length ∧ len.toNat ≤ buf.length ∧
      copied buf off len = (buf.drop off.toNat).take len.toNat := by
  rw [copied]
  split
  case isTrue inside => exact .inr ⟨inside.1,inside.2,rfl⟩
  case isFalse => exact .inl rfl

theorem copied_length {off len : UInt64} (short : buf.length < 2 ^ 63) :
    copied buf off len = [] ∨ (copied buf off len).length = len.toNat := by
  rcases copied_cases buf off len with nothing | ⟨inside,small,same⟩
  · exact .inl nothing
  · by_cases some_left : off.toNat + len.toNat ≤ buf.length
    · refine .inr ?_
      rw [same, List.length_take, List.length_drop]
      omega
    · -- the sum is past the largest word, and so is the offset past the end
      rw [UInt64.toNat_add] at inside
      have far : buf.length ≤ off.toNat := by omega
      refine .inl ?_
      rw [same, List.drop_of_length_le far, List.take_nil]

/-- Where not all hashes are there, nothing is left behind them. -/
theorem copied_missing {off len : UInt64} (short : buf.length < 2 ^ 63) (near : off.toNat < 2 ^ 60)
    (few : len.toNat < 2 ^ 63) (missing : (copied buf off len).length ≠ len.toNat) :
    buf.drop (off + len).toNat = [] := by
  have nothing := (copied_length short).resolve_right missing
  have sum : (off + len).toNat = off.toNat + len.toNat := by
    rw [UInt64.toNat_add]
    omega
  refine List.drop_of_length_le ?_
  by_contra inside
  rw [sum] at inside
  rw [copied, sum, if_pos ⟨by omega,by omega⟩] at nothing missing
  rw [List.length_take, List.length_drop] at missing
  omega

theorem varInt_short (buf : List UInt8) : (BRVarInt buf).2.toNat ≤ 9 := by
  rw [BRVarInt]
  dsimp only
  split
  · exact Nat.le_of_ble_eq_true rfl
  split
  · exact Nat.le_of_ble_eq_true rfl
  split
  · exact Nat.le_of_ble_eq_true rfl
  · exact Nat.le_of_ble_eq_true rfl

/-- The flags of a block that is parsed are all there, or none of them; and its hashes are all
    there, or it has no flags. -/
theorem parsed_parts (short : buf.length < 2 ^ 63)
    (parsed : BRMerkleBlockParse BRSHA256_2 buf = some block) (few : block.hashesCount < 2 ^ 58) :
    (block.flags = [] ∨ block.flags.length = block.flagsLen) ∧
      (block.hashes.length = block.hashesCount ∨ block.flagsLen = 0) := by
  unfold BRMerkleBlockParse at parsed
  split at parsed
  · cases parsed
  split at parsed
  · cases parsed
    exact ⟨.inl rfl,.inl rfl⟩
  · simp only [Option.some_inj] at parsed
    have flags := congrArg BRMerkleBlock.flags parsed
    have flagsLen := congrArg BRMerkleBlock.flagsLen parsed
    have hashes := congrArg BRMerkleBlock.hashes parsed
    have hashesCount := congrArg BRMerkleBlock.hashesCount parsed
    dsimp only at flags flagsLen hashes hashesCount
    have size := varInt_short (buf.drop (UInt64.toNat 84))
    generalize BRVarInt (buf.drop (UInt64.toNat 84)) = counts
      at flags flagsLen hashes hashesCount size
    obtain ⟨count,size'⟩ := counts
    dsimp only at flags flagsLen hashes hashesCount size
    have off : (84 + size').toNat = 84 + size'.toNat := by
      rw [UInt64.toNat_add]
      change (84 + size'.toNat) % 2 ^ 64 = _
      omega
    have len : (count * 32).toNat = count.toNat * 32 := by
      rw [UInt64.toNat_mul]
      change count.toNat * 32 % 2 ^ 64 = _
      omega
    constructor
    · rw [← flags, ← flagsLen]
      exact copied_length short
    · by_cases there : (copied buf (84 + size') (count * 32)).length = (count * 32).toNat
      · refine .inl ?_
        rw [← hashes, ← hashesCount, List.length_map, words, List.length_map, List.length_range,
          there, len, Nat.mul_div_cancel _ (by decide)]
      · refine .inr ?_
        rw [← flagsLen, copied_missing short (by omega) (by omega) there]
        rfl

/-- The check of a block that is parsed does not return exactly if the size of its target is too
    large, or if it has a hash but the message ends before its flags. -/
theorem parsed_block_read (short : buf.length < 2 ^ 63)
    (parsed : BRMerkleBlockParse BRSHA256_2 buf = some block) (few : block.hashesCount < 2 ^ 58)
    (small : block.totalTx.toNat < 2 ^ 31) (currentTime : UInt32) :
    BRMerkleBlockIsValid BRSHA256_2 block currentTime = none ↔
      31 < targetSize block.target ∨
        0 < block.hashesCount ∧ block.flags.length < block.flagsLen := by
  have high := rootHeight_eq small
  obtain ⟨flags,hashes⟩ := parsed_parts short parsed few
  by_cases dry : More block ⟨0,0⟩
  · obtain ⟨some_flag,some_hash⟩ := dry
    by_cases whole_flags : block.flags.length = block.flagsLen
    · have fits : block.hashesCount < SIZE_MAX := few.trans (by decide)
      have whole_hashes := hashes.resolve_right fun none_there => by
        rw [none_there] at some_flag
        exact Nat.not_lt_zero _ some_flag
      obtain ⟨root,progress,read,-⟩ := @rootR_eq BRSHA256_2 block
        ⟨whole_flags,whole_hashes,fits⟩ (treeHeight block.totalTx.toNat) ⟨0,0⟩
      rw [lost_iff currentTime high read]
      omega
    · have no_flags := flags.resolve_right whole_flags
      have unread : flagAt block 0 = none := by
        rw [flagAt, no_flags]
        rfl
      have stopped : rootR BRSHA256_2 block (treeHeight block.totalTx.toNat) ⟨0,0⟩ = none := by
        rw [rootR, if_pos ⟨some_flag,some_hash⟩, unread]
        rfl
      refine iff_of_true ?_ (.inr ⟨some_hash,?_⟩)
      · rw [BRMerkleBlockIsValid, high]
        simp only [Option.bind_eq_bind, Option.bind_some]
        rw [stopped]
        rfl
      · rw [no_flags, List.length_nil] at whole_flags ⊢
        omega
  · have read : rootR BRSHA256_2 block (treeHeight block.totalTx.toNat) ⟨0,0⟩ =
        some (0,⟨0,0⟩) := by
      rw [rootR, if_neg dry]
    rw [lost_iff currentTime high read]
    have no_more : ¬ (0 < block.hashesCount ∧ block.flags.length < block.flagsLen) := by
      rintro ⟨some_hash,cut⟩
      refine dry ⟨?_,some_hash⟩
      change 0 / 8 < block.flagsLen
      omega
    exact (or_iff_left no_more).symm

end Reading

/-- The message of that block without its last byte, which has the flags -/
def cutMessage : List UInt8 := (BRMerkleBlockSerialize onlyBlock).dropLast

theorem cut_message_read : ∃ block, BRMerkleBlockParse firstBytes cutMessage = some block ∧
    BRMerkleBlockIsValid firstBytes block 0 = none := by
  obtain ⟨block,parsed⟩ : ∃ block, BRMerkleBlockParse firstBytes cutMessage = some block :=
    Option.isSome_iff_exists.mp (by decide +kernel)
  have counts : (BRMerkleBlockParse firstBytes cutMessage).map (fun block =>
      (block.hashesCount,block.totalTx,block.flags.length,block.flagsLen)) = some (1,1,0,1) := by
    decide +kernel
  rw [parsed] at counts
  obtain ⟨one,counts⟩ := Prod.mk.inj (Option.some.inj counts)
  obtain ⟨total,counts⟩ := Prod.mk.inj counts
  obtain ⟨no_flags,one_flag⟩ := Prod.mk.inj counts
  have few : block.hashesCount < 2 ^ 58 := by omega
  have small : block.totalTx.toNat < 2 ^ 31 := by
    rw [total]
    decide
  exact ⟨block,parsed,(parsed_block_read (by decide +kernel) parsed few small 0).mpr
    (.inr ⟨by omega,by omega⟩)⟩

end BRMerkleMessages
