import AltMessenger.BRBlockDifficulty
import AltMessenger.GuardedReader
import AltMessenger.MerkleProof

/-!
The partial merkle trees of blocks. What a block reports is hashed to its root, unless the reader
has come upon two children that are the same. It gives up there to keep such proofs out; but what
it then takes for a missing right child is taken for the left one, and so any transaction is
reported by most blocks.
-/
namespace BRMerkleProofs
open LittleEndian MerkleTree Bip37 GuardedReader WalletDatabase BRTransactions BRMerkleBlocks
  BRBlockDifficulty

/-- What `BRSHA256_2` makes of two hashes -/
def combine (BRSHA256_2 : List UInt8 → UInt256) (left right : UInt256) : UInt256 :=
  BRSHA256_2 (toBytes 32 left.toNat ++ toBytes 32 right.toNat)

/-- The pointers of a block hold as much as it counts. -/
structure Whole (block : BRMerkleBlock) : Prop where
  flags : block.flags.length = block.flagsLen
  hashes : block.hashes.length = block.hashesCount
  fits : block.hashesCount < SIZE_MAX

section Heights

theorem top_bit {m k : Nat} (low : 2 ^ k ≤ m) (high : m < 2 ^ (k + 1)) : m.testBit k = true := by
  have one : m / 2 ^ k = 1 := by
    rw [Nat.pow_succ] at high
    exact Nat.div_eq_of_lt_le (by omega) (by omega)
  rw [Nat.testBit_eq_decide_div_mod_eq, one]
  rfl

/-- Powers of two have no bit in common with the number before. -/
theorem and_pred_iff {n : Nat} (positive : 0 < n) : n &&& (n - 1) = 0 ↔ n = 2 ^ n.log2 := by
  have low := Nat.log2_self_le (Nat.ne_of_gt positive)
  have high := @Nat.lt_log2_self n
  constructor
  · intro none
    by_contra other
    have both : (n &&& (n - 1)).testBit n.log2 = true := by
      rw [Nat.testBit_and, top_bit low high, top_bit (by omega) (by omega)]
      rfl
    rw [none, Nat.zero_testBit] at both
    cases both
  · intro power
    rw [power, Nat.and_two_pow_sub_one_eq_mod]
    exact Nat.mod_self _

/-- `_ceil_log2` is the height of the tree. -/
theorem ceilLog2_eq {x : UInt32} (small : x.toNat < 2 ^ 31) :
    ceilLog2 x = some (treeHeight x.toNat) := by
  rw [ceilLog2, if_pos small, Option.some_inj]
  refine Height.unique ⟨?_,fun k below => ?_⟩ (treeHeight_height x.toNat)
  all_goals
    rcases Nat.eq_zero_or_pos x.toNat with zero | positive
  · rw [zero]
    decide
  · have high := @Nat.lt_log2_self x.toNat
    split
    case isTrue => exact Nat.le_of_lt high
    case isFalse power =>
      rw [not_not, and_pred_iff positive] at power
      exact Nat.le_of_eq power
  · rw [zero] at below
    cases below
  · have low := Nat.log2_self_le (Nat.ne_of_gt positive)
    split at below
    case isTrue power =>
      rw [ne_eq, and_pred_iff positive] at power
      have step : 2 ^ k ≤ 2 ^ x.toNat.log2 := Nat.pow_le_pow_right (by decide) (by omega)
      omega
    case isFalse =>
      have step : 2 ^ k < 2 ^ x.toNat.log2 := Nat.pow_lt_pow_right (by decide) below
      omega

end Heights

section Readers
variable {BRSHA256_2 : List UInt8 → UInt256} {block : BRMerkleBlock} {progress : Progress}

/-- The hashes that are left to read; none behind the index that ends all reading -/
def remaining (block : BRMerkleBlock) (hashIdx : Nat) : Option (List UInt256) :=
  if hashIdx = SIZE_MAX then none else some (block.hashes.drop hashIdx)

/-- Either nothing is left to read, or a flag and a hash. -/
theorem more_cases (whole : Whole block) (progress : Progress) :
    (¬ More block progress ∧ ((unpackBits block.flags).drop progress.flagIdx = [] ∨
      remaining block progress.hashIdx = none ∨ remaining block progress.hashIdx = some [])) ∨
    More block progress ∧ ∃ flag hash,
      flagAt block progress.flagIdx = some flag ∧ block.hashes[progress.hashIdx]? = some hash ∧
      (unpackBits block.flags).drop progress.flagIdx =
        flag :: (unpackBits block.flags).drop (progress.flagIdx + 1) ∧
      block.hashes.drop progress.hashIdx = hash :: block.hashes.drop (progress.hashIdx + 1) ∧
      progress.hashIdx < SIZE_MAX ∧ progress.hashIdx + 1 < SIZE_MAX := by
  by_cases more : More block progress
  · refine .inr ⟨more,?_⟩
    obtain ⟨flag_left,hash_left⟩ := more
    obtain ⟨byte,here,bit⟩ := MerkleProof.unpackBits_get block.flags progress.flagIdx (by
      rw [whole.flags]
      omega)
    have inside : progress.hashIdx < block.hashes.length := by
      rw [whole.hashes]
      exact hash_left
    obtain ⟨in_flags,bit⟩ := List.getElem?_eq_some_iff.mp bit
    have fits := whole.fits
    refine ⟨_,_,?_,List.getElem?_eq_getElem inside,List.drop_eq_getElem_cons in_flags,
      List.drop_eq_getElem_cons inside,by omega,by omega⟩
    rw [flagAt, here, Option.map_some, bit, Nat.one_shiftLeft, Nat.and_two_pow]
    cases byte.toNat.testBit (progress.flagIdx % 8) with
    | true =>
      rw [Bool.toNat_true, Nat.one_mul, decide_eq_true (Nat.ne_of_gt (Nat.two_pow_pos _))]
    | false => simp
  · refine .inl ⟨more,?_⟩
    rcases not_and_or.mp more with no_flag | no_hash
    · refine .inl (List.drop_of_length_le ?_)
      rw [unpackBits_length, whole.flags]
      omega
    · refine .inr ?_
      unfold remaining
      split
      · exact .inl rfl
      · refine .inr (congrArg some (List.drop_of_length_le ?_))
        rw [whole.hashes]
        exact Nat.not_lt.mp no_hash

theorem remaining_below {hashIdx : Nat} (below : hashIdx < SIZE_MAX) :
    remaining block hashIdx = some (block.hashes.drop hashIdx) :=
  if_neg (Nat.ne_of_lt below)

/-- The recursion over the tree reads it as the guarded reader does. -/
theorem rootR_eq (whole : Whole block) (height : Nat) (progress : Progress) :
    ∃ md progress', rootR BRSHA256_2 block height progress = some (md,progress') ∧
      crawl 0 (combine BRSHA256_2) height ((unpackBits block.flags).drop progress.flagIdx)
          (remaining block progress.hashIdx) =
        (md,(unpackBits block.flags).drop progress'.flagIdx,
          remaining block progress'.hashIdx) := by
  induction height generalizing progress with
  | zero =>
    rw [rootR]
    rcases more_cases whole progress with ⟨none_left,dry⟩ |
      ⟨more,flag,hash,bit,here,bits,hashes,below,next⟩
    · rw [if_neg none_left]
      exact ⟨_,_,rfl,crawl_dry _ dry⟩
    · rw [if_pos more, bit, remaining_below below, bits, hashes]
      simp only [Option.bind_eq_bind, Option.bind_some, givenHash, here]
      refine ⟨_,_,rfl,?_⟩
      rw [remaining_below next]
      rfl
  | succ height ih =>
    rw [rootR]
    rcases more_cases whole progress with ⟨none_left,dry⟩ |
      ⟨more,flag,hash,bit,here,bits,hashes,below,next⟩
    · rw [if_neg none_left]
      exact ⟨_,_,rfl,crawl_dry _ dry⟩
    · rw [if_pos more, bit, bits]
      cases flag with
      | false =>
        rw [remaining_below below, hashes]
        simp only [Option.bind_eq_bind, Option.bind_some, givenHash, here]
        refine ⟨_,_,rfl,?_⟩
        rw [remaining_below next]
        rfl
      | true =>
        simp only [Option.bind_eq_bind, Option.bind_some, if_true]
        obtain ⟨left,progress',read,crawled⟩ :=
          ih { progress with flagIdx := progress.flagIdx + 1 }
        obtain ⟨right,progress'',read',crawled'⟩ := ih progress'
        have some_hash : block.hashes.drop progress.hashIdx ≠ [] := by
          rw [hashes]
          exact List.cons_ne_nil _ _
        rw [remaining_below below] at crawled ⊢
        rw [read, crawl_open some_hash, crawled]
        simp only [Option.bind_some]
        rw [read', crawled']
        simp only [Option.bind_some]
        split
        case isTrue apart =>
          exact ⟨_,_,rfl,rfl⟩
        case isFalse alike =>
          refine ⟨_,_,rfl,?_⟩
          rw [remaining, if_pos rfl]

/-- What is found is added to what was found. -/
theorem txHashesR_eq (whole : Whole block) (height : Nat) (txHashes : List UInt256)
    (progress : Progress) (below : progress.hashIdx < SIZE_MAX) :
    ∃ found progress', txHashesR block height txHashes progress =
        some (txHashes ++ found,progress') ∧ progress'.hashIdx < SIZE_MAX ∧
      report height ((unpackBits block.flags).drop progress.flagIdx)
          (block.hashes.drop progress.hashIdx) =
        (found,(unpackBits block.flags).drop progress'.flagIdx,
          block.hashes.drop progress'.hashIdx) := by
  induction height generalizing txHashes progress with
  | zero =>
    rw [txHashesR]
    rcases more_cases whole progress with ⟨none_left,dry⟩ |
      ⟨more,flag,hash,bit,here,bits,hashes,-,next⟩
    · rw [remaining_below below] at dry
      rw [if_neg none_left]
      refine ⟨[],_,by rw [List.append_nil],below,report_dry ?_⟩
      exact dry.imp_right fun dry => Option.some.inj (dry.resolve_left nofun)
    · rw [if_pos more, bit, bits, hashes]
      simp only [Option.bind_eq_bind, Option.bind_some, here]
      cases flag with
      | false => exact ⟨[],_,rfl,next,rfl⟩
      | true => exact ⟨[hash],_,rfl,next,rfl⟩
  | succ height ih =>
    rw [txHashesR]
    rcases more_cases whole progress with ⟨none_left,dry⟩ |
      ⟨more,flag,hash,bit,here,bits,hashes,-,next⟩
    · rw [remaining_below below] at dry
      rw [if_neg none_left]
      refine ⟨[],_,by rw [List.append_nil],below,report_dry ?_⟩
      exact dry.imp_right fun dry => Option.some.inj (dry.resolve_left nofun)
    · rw [if_pos more, bit, bits]
      simp only [Option.bind_eq_bind, Option.bind_some]
      cases flag with
      | false =>
        rw [hashes]
        exact ⟨[],_,by rw [List.append_nil]; rfl,next,rfl⟩
      | true =>
        obtain ⟨found,progress',read,below',reported⟩ :=
          ih txHashes { progress with flagIdx := progress.flagIdx + 1 } below
        obtain ⟨found',progress'',read',below'',reported'⟩ :=
          ih (txHashes ++ found) progress' below'
        have some_hash : block.hashes.drop progress.hashIdx ≠ [] := by
          rw [hashes]
          exact List.cons_ne_nil _ _
        rw [if_pos rfl, read, report_open some_hash, reported]
        simp only [Option.bind_some]
        rw [read', reported']
        exact ⟨found ++ found',_,by rw [List.append_assoc],below'',rfl⟩

end Readers

section Blocks
variable {BRSHA256_2 : List UInt8 → UInt256} {block : BRMerkleBlock}

theorem rootHeight_eq (small : block.totalTx.toNat < 2 ^ 31) :
    rootHeight block = some (treeHeight block.totalTx.toNat) := by
  rw [rootHeight, ceilLog2_eq small, Option.getD_some, ite_self]

/-- Where the loop for the height does not end, it is not begun, and nothing is reported. -/
theorem report_tall (whole : Whole block) (large : ¬ block.totalTx.toNat < 2 ^ 31)
    (ends : rootHeight block ≠ none) : BRMerkleBlockTxHashes block = some [] := by
  have endless : ceilLog2 block.totalTx = none := if_neg large
  rw [rootHeight, endless] at ends
  have closed : ¬ (More block ⟨0,0⟩ ∧ flagAt block 0 = some true) := by
    intro opened
    rw [if_pos opened] at ends
    exact ends rfl
  have height : rootHeight block = some 0 := by
    rw [rootHeight, endless, if_neg closed]
    rfl
  rw [BRMerkleBlockTxHashes, height]
  simp only [Option.bind_eq_bind, Option.bind_some]
  rw [txHashesR]
  rcases more_cases whole ⟨0,0⟩ with ⟨none_left,-⟩ | ⟨more,flag,hash,bit,-⟩
  · rw [if_neg none_left]
    rfl
  · cases flag with
    | true => exact absurd ⟨more,bit⟩ closed
    | false =>
      rw [if_pos more, bit]
      rfl

/-- The reader comes upon two children that are the same, or a left one that is missing. -/
def GivesUp (BRSHA256_2 : List UInt8 → UInt256) (block : BRMerkleBlock) : Prop :=
  ∃ height root progress, rootHeight block = some height ∧
    rootR BRSHA256_2 block height ⟨0,0⟩ = some (root,progress) ∧ progress.hashIdx = SIZE_MAX

/-- The block with this proof -/
def withProof (block : BRMerkleBlock) (totalTx : UInt32) (hashes : List UInt256)
    (flags : List UInt8) : BRMerkleBlock :=
  { block with
    totalTx
    hashes
    hashesCount := hashes.length
    flags
    flagsLen := flags.length }

/-- The header of a block -/
def headerOf (block : BRMerkleBlock) : BRMerkleBlock := withProof block 0 [] []

theorem withProof_whole {totalTx : UInt32} {hashes : List UInt256} {flags : List UInt8}
    (few : hashes.length < SIZE_MAX) : Whole (withProof block totalTx hashes flags) :=
  ⟨rfl,rfl,few⟩

/-- A block whose proof is read as its root is as valid as its header, and what is reported of it is
    what is read of its leaves. -/
theorem proof_read {totalTx : UInt32} {hashes : List UInt256} {bits : List Bool}
    {found : List UInt256} {left : Option (List UInt256)} {left' : List UInt256}
    (small : totalTx.toNat < 2 ^ 31) (few : hashes.length < SIZE_MAX)
    (reads : ∀ rest, crawl 0 (combine BRSHA256_2) (treeHeight totalTx.toNat) (bits ++ rest)
        (some hashes) = (block.merkleRoot,rest,left) ∧
      report (treeHeight totalTx.toNat) (bits ++ rest) hashes = (found,rest,left')) :
    (∀ currentTime, BRMerkleBlockIsValid BRSHA256_2 (withProof block totalTx hashes (packBits bits))
        currentTime = BRMerkleBlockIsValid BRSHA256_2 (headerOf block) currentTime) ∧
      BRMerkleBlockTxHashes (withProof block totalTx hashes (packBits bits)) = some found := by
  have whole := @withProof_whole block totalTx hashes (packBits bits) few
  have high : rootHeight (withProof block totalTx hashes (packBits bits)) =
      some (treeHeight totalTx.toNat) :=
    @rootHeight_eq (withProof block totalTx hashes (packBits bits)) small
  obtain ⟨pad,-,packed⟩ := unpackBits_packBits bits
  obtain ⟨crawled,reported⟩ := reads (List.replicate pad false)
  rw [← packed] at crawled reported
  obtain ⟨root,progress,read,crawled'⟩ :=
    @rootR_eq BRSHA256_2 _ whole (treeHeight totalTx.toNat) ⟨0,0⟩
  obtain ⟨found',progress',collected,-,reported'⟩ :=
    txHashesR_eq whole (treeHeight totalTx.toNat) [] ⟨0,0⟩ (by decide)
  rw [remaining_below (by decide)] at crawled'
  change crawl 0 (combine BRSHA256_2) (treeHeight totalTx.toNat) (unpackBits (packBits bits))
    (some hashes) = _ at crawled'
  change report (treeHeight totalTx.toNat) (unpackBits (packBits bits)) hashes = _ at reported'
  rw [crawled] at crawled'
  rw [reported] at reported'
  obtain ⟨rfl,-⟩ := Prod.mk.inj crawled'
  obtain ⟨rfl,-⟩ := Prod.mk.inj reported'
  constructor
  · intro currentTime
    have header_high : rootHeight (headerOf block) = some (treeHeight 0) :=
      @rootHeight_eq (headerOf block) (by decide : (0 : UInt32).toNat < 2 ^ 31)
    have header_read : rootR BRSHA256_2 (headerOf block) (treeHeight 0) ⟨0,0⟩ =
        some (0,⟨0,0⟩) := by
      rw [rootR, if_neg (by rintro ⟨none_there,-⟩; exact absurd none_there (Nat.not_lt_zero _))]
    rw [isValid_eq currentTime high read, isValid_eq currentTime header_high header_read]
    change Option.map (fun t => decide ((totalTx = 0 ∨ block.merkleRoot = block.merkleRoot) ∧ _) &&
      _) _ = Option.map (fun t => decide (((0 : UInt32) = 0 ∨ _) ∧ _) && _) _
    simp only [or_true, true_or, true_and]
    rfl
  · rw [BRMerkleBlockTxHashes, high]
    simp only [Option.bind_eq_bind, Option.bind_some, collected]
    rfl

theorem height_small {n : Nat} (few : n < 2 ^ 31) : treeHeight n ≤ 31 := by
  by_contra tall
  have less := (treeHeight_height n).least 31 (by omega)
  omega

/-- The root is alone on its level. -/
theorem root_alone {leaves : List UInt256} {root : UInt256}
    (rooted : merkleRoot (combine BRSHA256_2) leaves = some root) :
    (level (combine BRSHA256_2) (treeHeight leaves.length) leaves)[0]? = some root ∧
      width leaves.length (treeHeight leaves.length) = 1 := by
  have high := treeHeight_height leaves.length
  rw [merkleRoot_eq leaves high] at rooted
  refine ⟨rooted,?_⟩
  have some_node : 0 < width leaves.length (treeHeight leaves.length) := by
    obtain ⟨inside,-⟩ := List.getElem?_eq_some_iff.mp rooted
    rwa [level_length] at inside
  have one : ¬ 1 < width leaves.length (treeHeight leaves.length) := by
    rw [lt_width, Nat.one_mul]
    exact Nat.not_lt.mpr high.enough
  omega

theorem count_toNat {n : Nat} (few : n < 2 ^ 31) : (UInt32.ofNat n).toNat = n :=
  UInt32.toNat_ofNat_of_lt' (by
    change _ < 2 ^ 32
    omega)

/-- Any transaction at all is reported by a block as valid as its header, if above its transactions
    there is some level with an odd number of hashes, other than the root. -/
theorem any_transaction_reported {leaves : List UInt256}
    (distinct : Distinct 0 (combine BRSHA256_2) leaves) (few : leaves.length < 2 ^ 31)
    (root : merkleRoot (combine BRSHA256_2) leaves = some block.merkleRoot) {k : Nat}
    (above : 1 ≤ k) (under : k < treeHeight leaves.length)
    (odd : width leaves.length k % 2 = 1) (x : UInt256) :
    ∃ hashes flags,
      (∀ currentTime, BRMerkleBlockIsValid BRSHA256_2
          (withProof block (UInt32.ofNat leaves.length) hashes flags) currentTime =
        BRMerkleBlockIsValid BRSHA256_2 (headerOf block) currentTime) ∧
      BRMerkleBlockTxHashes (withProof block (UInt32.ofNat leaves.length) hashes flags) =
        some [x, x] := by
  have total := count_toNat few
  have low := height_small few
  obtain ⟨top,one⟩ := root_alone root
  obtain ⟨node,bits,hashes,there,-,short,reads⟩ :=
    @forged_read _ _ 0 _ _ distinct x _ 0 k (Nat.le_refl _) one.symm above under odd
  cases top.symm.trans there
  rw [← total] at reads
  refine ⟨hashes,packBits bits,proof_read (by omega) ?_ reads⟩
  have limit : 33 < SIZE_MAX := by decide
  omega

/-- The proof that is built for a block makes it as valid as its header, and reports the
    transactions that are matched. -/
theorem built_proof_reported {txs : List (UInt256 × Bool)}
    (distinct : Distinct 0 (combine BRSHA256_2) (txs.map Prod.fst)) (few : txs.length < 2 ^ 31)
    (root : merkleRoot (combine BRSHA256_2) (txs.map Prod.fst) = some block.merkleRoot) :
    (∀ currentTime, BRMerkleBlockIsValid BRSHA256_2
        (withProof block (UInt32.ofNat txs.length) (build (combine BRSHA256_2) txs).2
          (packBits (build (combine BRSHA256_2) txs).1)) currentTime =
      BRMerkleBlockIsValid BRSHA256_2 (headerOf block) currentTime) ∧
    BRMerkleBlockTxHashes (withProof block (UInt32.ofNat txs.length)
      (build (combine BRSHA256_2) txs).2 (packBits (build (combine BRSHA256_2) txs).1)) =
        some (matchedIn txs) := by
  have total := count_toNat few
  have low := height_small few
  obtain ⟨top,one⟩ := root_alone root
  rw [List.length_map] at top one
  obtain ⟨node,found,-,reads⟩ := built_read txs distinct (Nat.le_refl _) (p := 0) (by omega)
  cases top.symm.trans found
  have whole : span txs (treeHeight txs.length) 0 = txs := by
    rw [span, Nat.zero_mul, List.drop_zero, List.take_of_length_le]
    exact (treeHeight_height txs.length).enough
  rw [whole] at reads
  refine @proof_read BRSHA256_2 block _ _ _ _ (some []) [] (by omega) ?_ fun rest => ?_
  · have built := built_few (combine BRSHA256_2) txs (treeHeight txs.length) 0
    have power : 2 ^ treeHeight txs.length ≤ 2 ^ 31 := Nat.pow_le_pow_right (by decide) low
    have limit : 2 ^ 31 < SIZE_MAX := by decide
    exact Nat.lt_of_le_of_lt (built.trans power) limit
  · have read := reads rest [] (.inr (.inr rfl))
    rw [List.append_nil] at read
    rw [total]
    exact read

end Blocks

/-- A header of which nothing but the target is asked -/
def easyHeader : BRMerkleBlock :=
  { parsedHeader (fun _ => 0) [] with
    merkleRoot := 7
    target := 0x1d00ffff }

/-- A function of the first bytes of two hashes, instead of the real one -/
def firstBytes (data : List UInt8) : UInt256 :=
  BitVec.ofNat 256 (7 + 5 * ofBytes (data.take 1) + 3 * ofBytes ((data.drop 32).take 1))

theorem five_distinct : Distinct 0 (combine firstBytes) [1, 2, 3, 4, 5] := by
  have low : treeHeight [1, 2, 3, 4, (5 : UInt256)].length = 3 := by decide
  have levels : ∀ h < 3, (level (combine firstBytes) h [1, 2, 3, 4, 5]).Nodup ∧
      0 ∉ level (combine firstBytes) h [1, 2, 3, 4, 5] := by
    decide +kernel
  intro h below
  exact levels h (low ▸ below)

/-- The root of five transactions -/
def rootOfFive : UInt256 := ((level (combine firstBytes) 3 [1, 2, 3, 4, 5])[0]?).getD 0

/-- Of a block with five transactions, a sixth is reported. -/
theorem sixth_reported : ∃ hashes flags,
    (∀ currentTime, BRMerkleBlockIsValid firstBytes
        (withProof { easyHeader with merkleRoot := rootOfFive } 5 hashes flags) currentTime =
      BRMerkleBlockIsValid firstBytes
        (headerOf { easyHeader with merkleRoot := rootOfFive }) currentTime) ∧
    BRMerkleBlockTxHashes
      (withProof { easyHeader with merkleRoot := rootOfFive } 5 hashes flags) = some [6, 6] :=
  @any_transaction_reported firstBytes { easyHeader with merkleRoot := rootOfFive }
    [1, 2, 3, 4, 5] five_distinct (by decide) (by decide +kernel) 1 (by decide) (by decide)
    (by decide) 6

/-- Of the same block, the second and the fifth are. -/
theorem second_and_fifth_reported :
    BRMerkleBlockTxHashes (withProof { easyHeader with merkleRoot := rootOfFive } 5
      (build (combine firstBytes) [(1,false), (2,true), (3,false), (4,false), (5,true)]).2
      (packBits (build (combine firstBytes)
        [(1,false), (2,true), (3,false), (4,false), (5,true)]).1)) = some [2, 5] :=
  (@built_proof_reported firstBytes { easyHeader with merkleRoot := rootOfFive }
    [(1,false), (2,true), (3,false), (4,false), (5,true)] five_distinct (by decide)
    (by decide +kernel)).2

end BRMerkleProofs
