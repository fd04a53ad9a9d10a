import AltMessenger.BRMerkleBlocks
import AltMessenger.CompactTargets

/-!
The work of a block. The target that a block must have is that of the block before it, or behind
every two weeks of blocks the one that these would have met in two weeks; and the hash of the block
must not be above it.
-/
namespace BRBlockDifficulty
open LittleEndian WalletDatabase BRMerkleBlocks CompactTargets

def targetSize (target : UInt32) : Nat := (target >>> 24).toNat

def targetMantissa (target : UInt32) : Nat := (target &&& 0x00ffffff).toNat

/-- The time that the last blocks took, at least a quarter of two weeks and at most eight weeks -/
def timespanOf (previous : BRMerkleBlock) (transitionTime : UInt32) : Nat :=
  max 302400 (min 4838400 (previous.timestamp.toNat - transitionTime.toNat))

/-- The target with which these blocks would have taken two weeks, or the highest that there is -/
def expectedTarget (previous : BRMerkleBlock) (transitionTime : UInt32) : Nat :=
  min (value (targetSize previous.target) (targetMantissa previous.target) *
    timespanOf previous transitionTime / 1209600) (value 0x1d 0xffff)

section Words
variable {target other : UInt32}

theorem target_toNat (target : UInt32) :
    target.toNat = targetMantissa target + targetSize target * 2 ^ 24 := by
  have low : targetMantissa target = target.toNat % 2 ^ 24 := by
    rw [targetMantissa, UInt32.toNat_and]
    exact Nat.and_two_pow_sub_one_eq_mod target.toNat 24
  have high : targetSize target = target.toNat / 2 ^ 24 := by
    rw [targetSize, UInt32.toNat_shiftRight]
    exact Nat.shiftRight_eq_div_pow target.toNat 24
  omega

theorem target_ext (sizes : targetSize target = targetSize other)
    (mantissas : targetMantissa target = targetMantissa other) : target = other := by
  rw [← UInt32.toNat_inj, target_toNat, target_toNat other, sizes, mantissas]

theorem target_parts {mantissa size : Nat} (small : mantissa < 2 ^ 24)
    (same : target.toNat = mantissa + size * 2 ^ 24) :
    targetSize target = size ∧ targetMantissa target = mantissa := by
  have low : targetMantissa target = target.toNat % 2 ^ 24 := by
    rw [targetMantissa, UInt32.toNat_and]
    exact Nat.and_two_pow_sub_one_eq_mod target.toNat 24
  have split := target_toNat target
  omega

end Words

section Normalizing
variable {target : UInt64} {size : Int}

/-- The loop takes last bytes off, as few as it can. -/
theorem normalize_spec (turns : Nat) (sized : 1 ≤ size) (least : 2 ^ 15 ≤ target.toNat)
    (most : target.toNat < 2 ^ 23 * 256 ^ turns) :
    ∃ k : Nat, (BRMerkleBlocks.normalize turns target size).1.toNat = target.toNat / 256 ^ k ∧
      (BRMerkleBlocks.normalize turns target size).2 = size + k ∧
      2 ^ 15 ≤ target.toNat / 256 ^ k ∧ target.toNat / 256 ^ k < 2 ^ 23 := by
  induction turns generalizing target size with
  | zero =>
    refine ⟨0,?_,?_,?_,?_⟩
    · rw [Nat.pow_zero, Nat.div_one]
      rfl
    · exact (Int.add_zero size).symm
    · rwa [Nat.pow_zero, Nat.div_one]
    · rwa [Nat.pow_zero, Nat.mul_one, ← Nat.div_one target.toNat] at most
  | succ turns ih =>
    have limit : (0x007fffff : UInt64) < target ↔ 2 ^ 23 ≤ target.toNat := UInt64.lt_iff_toNat_lt
    rw [BRMerkleBlocks.normalize]
    split
    case isTrue large =>
      have large := limit.mp (large.resolve_left (by omega))
      have shifted : (target >>> 8).toNat = target.toNat / 256 := by
        rw [UInt64.toNat_shiftRight]
        exact Nat.shiftRight_eq_div_pow target.toNat 8
      have least' : 2 ^ 15 ≤ (target >>> 8).toNat := by omega
      have most' : (target >>> 8).toNat < 2 ^ 23 * 256 ^ turns := by
        rw [Nat.pow_succ] at most
        omega
      obtain ⟨k,first,sized,least,most⟩ := ih (show 1 ≤ size + 1 by omega) least' most'
      rw [shifted, Nat.div_div_eq_div_mul, Nat.mul_comm, ← Nat.pow_succ] at first least most
      refine ⟨k + 1,first,?_,least,most⟩
      rw [sized]
      push_cast
      ring
    case isFalse small =>
      have small := (not_congr limit).mp (not_or.mp small).2
      refine ⟨0,?_,?_,?_,?_⟩
      · rw [Nat.pow_zero, Nat.div_one]
      · exact (Int.add_zero size).symm
      · rwa [Nat.pow_zero, Nat.div_one]
      · rw [Nat.pow_zero, Nat.div_one]
        exact Nat.not_le.mp small

end Normalizing

section Transitions
variable {block previous : BRMerkleBlock} {transitionTime : UInt32}

/-- The two times are less than 68 years apart. -/
structure Near (previous : BRMerkleBlock) (transitionTime : UInt32) : Prop where
  later : previous.timestamp.toNat < transitionTime.toNat + 2 ^ 31
  earlier : transitionTime.toNat ≤ previous.timestamp.toNat + 2 ^ 31

/-- A target as blocks have them, not of the least bytes -/
structure Usual (target : UInt32) : Prop where
  sized : 4 ≤ targetSize target
  least : 2 ^ 15 ≤ targetMantissa target
  most : targetMantissa target < 2 ^ 23

/-- What the code makes of the two times -/
theorem timespan_eq (near : Near previous transitionTime) :
    (let timespan := ((previous.timestamp.toNat : Int) - transitionTime.toNat).bmod (2 ^ 32)
     let timespan := if timespan < TARGET_TIMESPAN / 4 then TARGET_TIMESPAN / 4 else timespan
     if TARGET_TIMESPAN * 4 < timespan then TARGET_TIMESPAN * 4 else timespan) =
      timespanOf previous transitionTime := by
  obtain ⟨later,earlier⟩ := near
  have same : ((previous.timestamp.toNat : Int) - transitionTime.toNat).bmod (2 ^ 32) =
      (previous.timestamp.toNat : Int) - transitionTime.toNat :=
    Int.bmod_eq_of_le (by omega) (by omega)
  rw [same, timespanOf, TARGET_TIMESPAN]
  dsimp only
  split <;> split <;> omega

/-- The mantissa times the time, and without the last byte that the division by the time leaves -/
theorem first_bytes {size mantissa timespan : Nat} (sized : 4 ≤ size) :
    value size mantissa * timespan / 1209600 / 256 ^ (size - 4) = mantissa * timespan / 4725 := by
  have places : size - 3 = size - 4 + 1 := by omega
  have parts : mantissa * 256 ^ (size - 3) * timespan =
      mantissa * timespan * 256 ^ (size - 4) * 256 := by
    rw [places, Nat.pow_succ]
    ring
  have divisor : 1209600 = 4725 * 256 := rfl
  rw [value_large mantissa (by omega), parts, divisor, Nat.mul_div_mul_right _ _ (by decide),
    Nat.div_div_eq_div_mul, Nat.mul_div_mul_right _ _ (Nat.pow_pos (by decide))]

/-- The words in which a target is put together -/
theorem target_word {target : UInt64} {size : Nat} (small : target.toNat < 2 ^ 24)
    (short : size < 2 ^ 8) :
    targetSize (target.toUInt32 ||| UInt32.ofNat size <<< 24) = size ∧
      targetMantissa (target.toUInt32 ||| UInt32.ofNat size <<< 24) = target.toNat := by
  have low : target.toUInt32.toNat = target.toNat := by
    rw [UInt64.toNat_toUInt32, Nat.mod_eq_of_lt (by omega)]
  have high : (UInt32.ofNat size <<< 24).toNat = size * 2 ^ 24 := by
    rw [UInt32.toNat_shiftLeft, UInt32.toNat_ofNat_of_lt' (by
      change size < 2 ^ 32
      omega), Nat.shiftLeft_eq]
    change size * 2 ^ 24 % 2 ^ 32 = _
    omega
  refine target_parts small ?_
  rw [UInt32.toNat_or, low, high, Nat.or_comm, Nat.mul_comm size]
  have joined := Nat.two_pow_add_eq_or_of_lt small size
  omega

/-- The target behind a transition is the expected one, rounded. -/
theorem transitionTarget_rounded (usual : Usual previous.target)
    (near : Near previous transitionTime) :
    Rounded (expectedTarget previous transitionTime)
      (targetSize (transitionTarget previous transitionTime))
      (targetMantissa (transitionTarget previous transitionTime)) := by
  obtain ⟨sized,least,most⟩ := usual
  have span := timespan_eq near
  have short : timespanOf previous transitionTime ≤ 4838400 := by
    rw [timespanOf]
    omega
  have long : 302400 ≤ timespanOf previous transitionTime := by
    rw [timespanOf]
    omega
  set timespan := timespanOf previous transitionTime with of_timespan
  set target : UInt64 := (previous.target &&& 0x00ffffff).toUInt64 * UInt64.ofNat timespan /
    UInt64.ofNat (TARGET_TIMESPAN.toNat >>> 8) with of_target
  have product : targetMantissa previous.target * timespan < 2 ^ 23 * 2 ^ 23 :=
    Nat.mul_lt_mul'' most (by omega)
  have scaled : target.toNat = targetMantissa previous.target * timespan / 4725 := by
    rw [of_target, UInt64.toNat_div, UInt64.toNat_mul, UInt32.toNat_toUInt64,
      UInt64.toNat_ofNat_of_lt' (by change timespan < 2 ^ 64; omega)]
    change targetMantissa previous.target * timespan % 2 ^ 64 / 4725 = _
    rw [Nat.mod_eq_of_lt (by omega)]
  have enough : 2 ^ 15 ≤ target.toNat := by
    have more : 2 ^ 15 * 302400 ≤ targetMantissa previous.target * timespan :=
      Nat.mul_le_mul least long
    omega
  have few : target.toNat < 2 ^ 23 * 256 ^ 10 := by
    have less : target.toNat < 2 ^ 46 := by
      rw [scaled]
      exact Nat.lt_of_le_of_lt (Nat.div_le_self _ _) (by omega)
    omega
  obtain ⟨k,first,places,atLeast,below⟩ :=
    @normalize_spec target ((targetSize previous.target : Int) - 1) 10 (by omega) enough few
  have rounded : Rounded (value (targetSize previous.target) (targetMantissa previous.target) *
      timespan / 1209600) (targetSize previous.target - 4 + k + 3) (target.toNat / 256 ^ k) := by
    refine rounded_of_first atLeast below ?_
    rw [first_bytes sized, scaled]
  have capped := @Rounded.capped _ _ _ 0x1d 0xffff rounded (by decide) (by decide) (by decide)
  set shifted :=
    BRMerkleBlocks.normalize 10 target ((targetSize previous.target : Int) - 1) with of_shifted
  have capped_iff : ((0x1d : Int) < shifted.2 ∨
      shifted.2 = 0x1d ∧ (0xffff : UInt64) < shifted.1) ↔
      (0x1d < targetSize previous.target - 4 + k + 3 ∨
        targetSize previous.target - 4 + k + 3 = 0x1d ∧ 0xffff < target.toNat / 256 ^ k) := by
    have limit : (0xffff : UInt64).toNat = 0xffff := rfl
    rw [UInt64.lt_iff_toNat_lt, first, places, limit]
    omega
  have result : transitionTarget previous transitionTime =
      if (0x1d : Int) < shifted.2 ∨ shifted.2 = 0x1d ∧ (0xffff : UInt64) < shifted.1 then
        (0xffff : UInt64).toUInt32 ||| UInt32.ofNat 0x1d <<< 24
      else shifted.1.toUInt32 ||| UInt32.ofNat shifted.2.toNat <<< 24 := by
    unfold transitionTarget
    dsimp only at span ⊢
    have maxsize : ((MAX_PROOF_OF_WORK >>> 24).toNat : Int) = 0x1d := by decide
    have maxtarget : (MAX_PROOF_OF_WORK &&& 0x00ffffff).toUInt64 = 0xffff := by decide
    have of_size : (previous.target >>> 24).toNat = targetSize previous.target := rfl
    rw [span, Int.toNat_natCast, ← of_target, maxsize, maxtarget, of_size, ← of_shifted]
    generalize shifted = shifted
    split
    · rfl
    · rfl
  rw [result, expectedTarget]
  by_cases above : 0x1d < targetSize previous.target - 4 + k + 3 ∨
      targetSize previous.target - 4 + k + 3 = 0x1d ∧ 0xffff < target.toNat / 256 ^ k
  · rw [if_pos above, if_pos above] at capped
    rw [if_pos (capped_iff.mpr above)]
    obtain ⟨sizes,mantissas⟩ := @target_word 0xffff 0x1d (by decide) (by decide)
    rw [sizes, mantissas]
    exact capped
  · rw [if_neg above, if_neg above] at capped
    rw [if_neg ((not_congr capped_iff).mpr above)]
    have short : targetSize previous.target - 4 + k + 3 < 2 ^ 8 := by omega
    have same : shifted.2.toNat = targetSize previous.target - 4 + k + 3 := by omega
    rw [same]
    obtain ⟨sizes,mantissas⟩ := @target_word shifted.1 _ (by omega) short
    rw [sizes, mantissas, first]
    exact capped

/-- A block is accepted behind another if it names it, comes next, and has the target that it must
    have. -/
theorem difficulty_rule (block : BRMerkleBlock) (usual : Usual previous.target)
    (near : Near previous transitionTime) :
    BRMerkleBlockVerifyDifficulty block previous transitionTime = true ↔
      block.prevBlock = previous.blockHash ∧ block.height = previous.height + 1 ∧
      if block.height % 2016 = 0 then
        transitionTime ≠ 0 ∧ Rounded (expectedTarget previous transitionTime)
          (targetSize block.target) (targetMantissa block.target)
      else block.target = previous.target := by
  have rounded := transitionTarget_rounded usual near
  have same : block.target = transitionTarget previous transitionTime ↔
      Rounded (expectedTarget previous transitionTime) (targetSize block.target)
        (targetMantissa block.target) := by
    constructor
    · rintro same
      rw [same]
      exact rounded
    · intro fits
      obtain ⟨sizes,mantissas⟩ := fits.unique rounded
      exact target_ext sizes mantissas
  unfold BRMerkleBlockVerifyDifficulty BLOCK_DIFFICULTY_INTERVAL
  split
  · simp [same, and_assoc]
  · simp [and_assoc]

end Transitions

/-- The first change of the target: block 32255, and the time of block 30240 -/
def beforeChange : BRMerkleBlock :=
  { parsedHeader (fun _ => 5) [] with
    timestamp := 1262152739
    target := 0x1d00ffff
    height := 32255 }

theorem first_change : BRMerkleBlockVerifyDifficulty
    { beforeChange with prevBlock := 5, height := 32256, target := 0x1d00d86a } beforeChange
      1261130161 = true := by
  refine (@difficulty_rule beforeChange 1261130161 _
    ⟨by decide,by decide,by decide⟩ ⟨by decide,by decide⟩).mpr ⟨rfl,by decide,?_⟩
  rw [if_pos (by decide)]
  exact ⟨by decide,⟨by decide,by decide,by decide,by decide +kernel⟩⟩

section Work
variable {BRSHA256_2 : List UInt8 → BRTransactions.UInt256} {block : BRMerkleBlock}

/-- With as many bytes on both sides, the last bytes first, it is the order of the numbers. -/
theorem notAbove_iff {hash target : List UInt8} (lengths : hash.length = target.length) :
    notAbove hash target = true ↔ ofBytes hash.reverse ≤ ofBytes target.reverse := by
  induction hash generalizing target with
  | nil =>
    cases List.length_eq_zero_iff.mp lengths.symm
    exact iff_of_true rfl (Nat.le_refl _)
  | cons h hash ih =>
    cases target with
    | nil => cases lengths
    | cons t target =>
      have lengths := Nat.succ_inj.mp lengths
      have small := ofBytes_lt hash.reverse
      have small' := ofBytes_lt target.reverse
      have single : ∀ byte : UInt8, ofBytes [byte] = byte.toNat := fun byte => by
        rw [ofBytes]
        rfl
      rw [List.length_reverse] at small small'
      rw [List.reverse_cons, List.reverse_cons, ofBytes_append, ofBytes_append, single, single,
        List.length_reverse, List.length_reverse, ← lengths, notAbove]
      rw [← lengths] at small'
      split
      case isTrue less =>
        have step := Nat.mul_le_mul_left (256 ^ hash.length)
          (Nat.succ_le_of_lt (UInt8.lt_iff_toNat_lt.mp less))
        rw [Nat.mul_succ] at step
        exact iff_of_true rfl (by omega)
      case isFalse no_less =>
        split
        case isTrue more =>
          have step := Nat.mul_le_mul_left (256 ^ hash.length)
            (Nat.succ_le_of_lt (UInt8.lt_iff_toNat_lt.mp more))
          rw [Nat.mul_succ] at step
          exact iff_of_false Bool.false_ne_true (by omega)
        case isFalse no_more =>
          have same : h = t := UInt8.le_antisymm (UInt8.not_lt.mp no_more) (UInt8.not_lt.mp no_less)
          rw [ih lengths, same]
          omega

theorem ofBytes_zeros (count : Nat) : ofBytes (List.replicate count 0) = 0 := by
  induction count with
  | zero => rfl
  | succ count ih =>
    rw [List.replicate_succ, ofBytes, ih]
    rfl

/-- The bytes of the target are written where there is space for them. -/
theorem targetBytes_spec {size target : Nat} (small : target < 2 ^ 24) :
    (31 < size → targetBytes size target = none) ∧
      (size ≤ 31 → ∃ t, targetBytes size target = some t ∧ t.length = 32 ∧
        ofBytes t = value size target) := by
  constructor
  · intro long
    rw [targetBytes, if_pos (by omega), if_neg (by omega)]
  · intro short
    rw [targetBytes]
    by_cases large : 3 < size
    · rw [if_pos large, if_pos (by omega)]
      refine ⟨_,rfl,?_,?_⟩
      · rw [List.length_append, List.length_append, List.length_replicate, List.length_replicate,
          toBytes_length]
        omega
      · rw [ofBytes_append, ofBytes_append, ofBytes_zeros, ofBytes_zeros, List.length_replicate,
          ofBytes_toBytes 4 target (by omega), value_large target (by omega)]
        ring
    · rw [if_neg large]
      refine ⟨_,rfl,?_,?_⟩
      · rw [List.length_append, List.length_replicate, toBytes_length]
      · have shifted : target >>> ((3 - size) * 8) ≤ target := by
          rw [Nat.shiftRight_eq_div_pow]
          exact Nat.div_le_self _ _
        rw [ofBytes_append, ofBytes_zeros, ofBytes_toBytes 4 _ (by omega),
          value_small target (by omega), Nat.mul_zero, Nat.add_zero]

theorem inRange_iff {size target : Nat} (small : target < 2 ^ 24) : targetInRange size target ↔
    0 < target ∧ target < 2 ^ 23 ∧ (size < 29 ∨ size = 29 ∧ target ≤ 0xffff) := by
  have sign : target &&& 0x00800000 = 0 ↔ target < 2 ^ 23 := by
    have bit : target &&& 2 ^ 23 = (target.testBit 23).toNat * 2 ^ 23 := Nat.and_two_pow target 23
    rw [show (0x00800000 : Nat) = 2 ^ 23 from rfl, bit, Nat.testBit_eq_decide_div_mod_eq]
    constructor
    · intro unset
      by_contra large
      rw [decide_eq_true (by omega)] at unset
      cases unset
    · intro below
      rw [decide_eq_false (by omega)]
      rfl
  have maxsize : (MAX_PROOF_OF_WORK >>> 24).toNat = 29 := by decide
  have maxtarget : (MAX_PROOF_OF_WORK &&& 0x00ffffff).toNat = 0xffff := by decide
  unfold targetInRange
  dsimp only
  rw [maxsize, maxtarget, not_or, not_or, not_or, not_not, sign]
  omega

theorem mantissa_small (target : UInt32) : targetMantissa target < 2 ^ 24 := by
  rw [targetMantissa, UInt32.toNat_and]
  exact Nat.and_lt_two_pow _ (by decide)

/-- Once the root is read, the rest is the same for all blocks. -/
theorem isValid_eq {height : Nat} {root : BRTransactions.UInt256} {progress : Progress}
    (currentTime : UInt32) (high : rootHeight block = some height)
    (read : rootR BRSHA256_2 block height ⟨0,0⟩ = some (root,progress)) :
    BRMerkleBlockIsValid BRSHA256_2 block currentTime =
      (targetBytes (targetSize block.target) (targetMantissa block.target)).map fun t =>
        decide ((block.totalTx = 0 ∨ root = block.merkleRoot) ∧
          block.timestamp ≤ currentTime + BLOCK_MAX_TIME_DRIFT ∧
          targetInRange (targetSize block.target) (targetMantissa block.target)) &&
        notAbove (toBytes 32 block.blockHash.toNat).reverse t.reverse := by
  rw [BRMerkleBlockIsValid]
  simp only [high, read, Option.bind_eq_bind, Option.bind_some]
  change (targetBytes (targetSize block.target) (targetMantissa block.target)).bind _ = _
  cases targetBytes (targetSize block.target) (targetMantissa block.target) with
  | none => rfl
  | some t => rfl

/-- The target is written behind the end of the 32 bytes for it where its size is above 31, before
    anything is made of that size. -/
theorem lost_iff {height : Nat} {root : BRTransactions.UInt256} {progress : Progress}
    (currentTime : UInt32) (high : rootHeight block = some height)
    (read : rootR BRSHA256_2 block height ⟨0,0⟩ = some (root,progress)) :
    BRMerkleBlockIsValid BRSHA256_2 block currentTime = none ↔ 31 < targetSize block.target := by
  have written := @targetBytes_spec (targetSize block.target) _ (mantissa_small block.target)
  rw [isValid_eq currentTime high read, Option.map_eq_none_iff]
  constructor
  · intro lost
    by_contra short
    obtain ⟨t,there,-,-⟩ := written.2 (Nat.not_lt.mp short)
    rw [lost] at there
    cases there
  · exact written.1

theorem valid_root {height : Nat} {root : BRTransactions.UInt256} {progress : Progress}
    {currentTime : UInt32} (high : rootHeight block = some height)
    (read : rootR BRSHA256_2 block height ⟨0,0⟩ = some (root,progress))
    (valid : BRMerkleBlockIsValid BRSHA256_2 block currentTime = some true) :
    block.totalTx = 0 ∨ root = block.merkleRoot := by
  rw [isValid_eq currentTime high read, Option.map_eq_some_iff] at valid
  obtain ⟨t,-,checks⟩ := valid
  rw [Bool.and_eq_true, decide_eq_true_iff] at checks
  exact checks.1.1

/-- A block is valid if its root is the one it states, it is not from the future, its target is in
    the range, and its hash is not above the target. -/
theorem valid_iff {height : Nat} {root : BRTransactions.UInt256} {progress : Progress}
    (currentTime : UInt32) (high : rootHeight block = some height)
    (read : rootR BRSHA256_2 block height ⟨0,0⟩ = some (root,progress)) :
    (BRMerkleBlockIsValid BRSHA256_2 block currentTime = none ↔ 31 < targetSize block.target) ∧
      (BRMerkleBlockIsValid BRSHA256_2 block currentTime = some true ↔
        (block.totalTx = 0 ∨ root = block.merkleRoot) ∧
        block.timestamp ≤ currentTime + BLOCK_MAX_TIME_DRIFT ∧
        (0 < targetMantissa block.target ∧ targetMantissa block.target < 2 ^ 23 ∧
          (targetSize block.target < 29 ∨ targetSize block.target = 29 ∧
            targetMantissa block.target ≤ 0xffff)) ∧
        block.blockHash.toNat ≤ value (targetSize block.target) (targetMantissa block.target)) := by
  have small := mantissa_small block.target
  obtain ⟨behind,inside⟩ :=
    @targetBytes_spec (targetSize block.target) (targetMantissa block.target) small
  refine ⟨lost_iff currentTime high read,?_⟩
  rw [isValid_eq currentTime high read]
  rcases Nat.lt_or_ge 31 (targetSize block.target) with long | short
  · rw [behind long]
    refine iff_of_false nofun ?_
    rintro ⟨-,-,⟨-,-,range⟩,-⟩
    omega
  · obtain ⟨t,written,length,number⟩ := inside short
    rw [written]
    have above := @notAbove_iff (toBytes 32 block.blockHash.toNat).reverse t.reverse (by
      rw [List.length_reverse, List.length_reverse, toBytes_length, length])
    rw [List.reverse_reverse, List.reverse_reverse, number,
      ofBytes_toBytes 32 _ (block.blockHash.isLt.trans_eq (by decide))] at above
    rw [Option.map_some, Option.some_inj, Bool.and_eq_true, decide_eq_true_iff, above,
      inRange_iff small, and_assoc, and_assoc]

end Work

/-- A header with a size of 255 -/
def longTarget : BRMerkleBlock := { beforeChange with target := 0xff000001 }

/-- It is written far behind the 32 bytes. -/
theorem long_target_written : BRMerkleBlockIsValid (fun _ => 0) longTarget 1262152739 = none :=
  (@valid_iff (fun _ => 0) longTarget 0 0 ⟨0,0⟩ 1262152739 (by decide) (by decide)).1.mpr
    (by decide)

end BRBlockDifficulty
