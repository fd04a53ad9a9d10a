import AltMessenger.WalletDatabase
import AltMessenger.Bip37

/-!
Blocks and headers as the core takes them from its peers: how they are parsed, what their partial
merkle tree comes to, and whether their work is enough. There is no result where the code would
read or write outside of what it has, or where it does not end.
-/
namespace BRMerkleBlocks
open LittleEndian WalletDatabase
open BRTransactions hiding BRVarInt

def SIZE_MAX : Nat := 2 ^ 64 - 1
/-- `INT32_MAX` -/
def BLOCK_UNKNOWN_HEIGHT : UInt32 := 0x7fffffff
def BLOCK_DIFFICULTY_INTERVAL : UInt32 := 2016
def BLOCK_MAX_TIME_DRIFT : UInt32 := 2 * 60 * 60
def MAX_PROOF_OF_WORK : UInt32 := 0x1d00ffff
def TARGET_TIMESPAN : Int := 14 * 24 * 60 * 60

/-- The value and the length of what the first byte announces, also where the bytes end before. -/
def BRVarInt (buf : List UInt8) : UInt64 × UInt64 :=
  let h := buf.headD 0
  let value (width : Nat) : UInt64 :=
    if 1 + width ≤ buf.length then UInt64.ofNat (ofBytes ((buf.drop 1).take width)) else 0
  if h = 0xfd then (value 2,3)
  else if h = 0xfe then (value 4,5)
  else if h = 0xff then (value 8,9)
  else (UInt64.ofNat h.toNat,1)

/-- `UInt32GetLE` -/
def wordAt (buf : List UInt8) (off : Nat) : UInt32 := UInt32.ofNat (ofBytes ((buf.drop off).take 4))

/-- `UInt256Get` -/
def hashAt (buf : List UInt8) (off : Nat) : UInt256 :=
  BitVec.ofNat 256 (ofBytes ((buf.drop off).take 32))

/-- What is copied from there, or `NULL`, also where no memory is as large as that -/
def copied (buf : List UInt8) (off len : UInt64) : List UInt8 :=
  if (off + len).toNat ≤ buf.length ∧ len.toNat ≤ buf.length then
    (buf.drop off.toNat).take len.toNat
  else []

section Parsing
variable (BRSHA256_2 : List UInt8 → UInt256)

def parsedHeader (buf : List UInt8) : BRMerkleBlock where
  blockHash := BRSHA256_2 (buf.take 80)
  version := wordAt buf 0
  prevBlock := hashAt buf 4
  merkleRoot := hashAt buf 36
  timestamp := wordAt buf 68
  target := wordAt buf 72
  nonce := wordAt buf 76
  totalTx := 0
  hashes := []
  hashesCount := 0
  flags := []
  flagsLen := 0
  height := BLOCK_UNKNOWN_HEIGHT

def BRMerkleBlockParse (buf : List UInt8) : Option BRMerkleBlock :=
  if buf.length < 80 then none
  else if buf.length < 84 then some (parsedHeader BRSHA256_2 buf)
  else
    let announced (off : UInt64) := BRVarInt (buf.drop off.toNat)
    let (hashesCount,size) := announced 84
    let off := 84 + size
    let len := hashesCount * 32
    let hashes := copied buf off len
    let (flagsLen,size) := announced (off + len)
    let flags := copied buf (off + len + size) flagsLen
    some { parsedHeader BRSHA256_2 buf with
      totalTx := wordAt buf 80
      hashes := (words 32 (hashes.length / 32) hashes).map (BitVec.ofNat 256)
      hashesCount := hashesCount.toNat
      flags
      flagsLen := flagsLen.toNat }

end Parsing

/-- A block whose pointers hold as much as it counts -/
def BRMerkleBlockSerialize (block : BRMerkleBlock) : List UInt8 :=
  toBytes 4 block.version.toNat ++ (toBytes 32 block.prevBlock.toNat ++
    (toBytes 32 block.merkleRoot.toNat ++ (toBytes 4 block.timestamp.toNat ++
      (toBytes 4 block.target.toNat ++ (toBytes 4 block.nonce.toNat ++
        if 0 < block.totalTx then
          toBytes 4 block.totalTx.toNat ++ (BRVarIntSet (UInt64.ofNat block.hashesCount) ++
            (block.hashes.flatMap (fun hash => toBytes 32 hash.toNat) ++
              (BRVarIntSet (UInt64.ofNat block.flagsLen) ++ block.flags)))
        else [])))))

/-- `_ceil_log2`, whose loop does not end for what is negative as an `int` -/
def ceilLog2 (x : UInt32) : Option Nat :=
  if x.toNat < 2 ^ 31 then
    some (x.toNat.log2 + if x.toNat &&& (x.toNat - 1) ≠ 0 then 1 else 0)
  else none

/-- The two indices that the recursions share -/
structure Progress where
  hashIdx : Nat
  flagIdx : Nat
  deriving DecidableEq

section Trees
variable (BRSHA256_2 : List UInt8 → UInt256) (block : BRMerkleBlock)

def flagAt (flagIdx : Nat) : Option Bool :=
  block.flags[flagIdx / 8]?.map fun byte => decide (byte.toNat &&& 1 <<< (flagIdx % 8) ≠ 0)

/-- Whether there is a flag and a hash to read -/
def More (progress : Progress) : Prop :=
  progress.flagIdx / 8 < block.flagsLen ∧ progress.hashIdx < block.hashesCount

instance (progress : Progress) : Decidable (More block progress) :=
  inferInstanceAs (Decidable (_ ∧ _))

/-- `_BRMerkleBlockTxHashesR` so far above the leaves, with the hashes that it has found -/
def txHashesR : Nat → List UInt256 → Progress → Option (List UInt256 × Progress)
  | height, txHashes, progress =>
    if More block progress then do
      let flag ← flagAt block progress.flagIdx
      let progress := { progress with flagIdx := progress.flagIdx + 1 }
      match height with
      | height + 1 =>
        if flag then do
          let (txHashes,progress) ← txHashesR height txHashes progress
          txHashesR height txHashes progress
        else some (txHashes,{ progress with hashIdx := progress.hashIdx + 1 })
      | 0 => do
        let leaf ← if flag then (block.hashes[progress.hashIdx]?).map ([·]) else some []
        some (txHashes ++ leaf,{ progress with hashIdx := progress.hashIdx + 1 })
    else some (txHashes,progress)

/-- A hash that is taken as it is -/
def givenHash (progress : Progress) : Option (UInt256 × Progress) := do
  let md ← block.hashes[progress.hashIdx]?
  some (md,{ progress with hashIdx := progress.hashIdx + 1 })

/-- `_BRMerkleBlockRootR`, so far above the leaves -/
def rootR : Nat → Progress → Option (UInt256 × Progress)
  | height, progress =>
    if More block progress then do
      let flag ← flagAt block progress.flagIdx
      let progress := { progress with flagIdx := progress.flagIdx + 1 }
      match height with
      | height + 1 =>
        if flag then do
          let (left,progress) ← rootR height progress
          let (right,progress) ← rootR height progress
          if left ≠ 0 ∧ left ≠ right then
            let right := if right = 0 then left else right
            some (BRSHA256_2 (toBytes 32 left.toNat ++ toBytes 32 right.toNat),progress)
          else some (0,{ progress with hashIdx := SIZE_MAX })
        else givenHash block progress
      | 0 => givenHash block progress
    else some (0,progress)

/-- How far the root is above the leaves. It is not asked for before a first flag that is set. -/
def rootHeight : Option Nat :=
  if More block ⟨0,0⟩ ∧ flagAt block 0 = some true then ceilLog2 block.totalTx
  else some ((ceilLog2 block.totalTx).getD 0)

def BRMerkleBlockTxHashes : Option (List UInt256) := do
  let height ← rootHeight block
  let (txHashes,_) ← txHashesR block height [] ⟨0,0⟩
  some txHashes

/-- A byte of one that is less than that of the other decides, the last bytes first. -/
def notAbove : List UInt8 → List UInt8 → Bool
  | h :: hash, t :: target =>
    if h < t then true else if t < h then false else notAbove hash target
  | _, _ => true

/-- The bytes of `t`; `none` where the last of the four that are written are behind its end -/
def targetBytes (size target : Nat) : Option (List UInt8) :=
  if 3 < size then
    if size - 3 + 4 ≤ 32 then
      some (List.replicate (size - 3) 0 ++ toBytes 4 target ++ List.replicate (32 - (size + 1)) 0)
    else none
  else some (toBytes 4 (target >>> ((3 - size) * 8)) ++ List.replicate 28 0)

/-- Whether a target is one that a block may have -/
def targetInRange (size target : Nat) : Prop :=
  let maxsize := (MAX_PROOF_OF_WORK >>> 24).toNat
  let maxtarget := (MAX_PROOF_OF_WORK &&& 0x00ffffff).toNat
  ¬ (target = 0 ∨ target &&& 0x00800000 ≠ 0 ∨ maxsize < size ∨ size = maxsize ∧ maxtarget < target)

instance (size target : Nat) : Decidable (targetInRange size target) :=
  inferInstanceAs (Decidable (¬ _))

def BRMerkleBlockIsValid (currentTime : UInt32) : Option Bool := do
  let size := (block.target >>> 24).toNat
  let target := (block.target &&& 0x00ffffff).toNat
  let height ← rootHeight block
  let (merkleRoot,_) ← rootR BRSHA256_2 block height ⟨0,0⟩
  let t ← targetBytes size target
  some (decide ((block.totalTx = 0 ∨ merkleRoot = block.merkleRoot) ∧
    block.timestamp ≤ currentTime + BLOCK_MAX_TIME_DRIFT ∧ targetInRange size target) &&
      notAbove (toBytes 32 block.blockHash.toNat).reverse t.reverse)

end Trees

/-- The loop that makes a target fit the compact format; ten turns are more than it takes. -/
def normalize : Nat → UInt64 → Int → UInt64 × Int
  | 0, target, size => (target,size)
  | turns + 1, target, size =>
    if size < 1 ∨ 0x007fffff < target then normalize turns (target >>> 8) (size + 1)
    else (target,size)

/-- The target behind a difficulty transition -/
def transitionTarget (previous : BRMerkleBlock) (transitionTime : UInt32) : UInt32 :=
  let maxsize := (MAX_PROOF_OF_WORK >>> 24).toNat
  let maxtarget := (MAX_PROOF_OF_WORK &&& 0x00ffffff).toUInt64
  -- the conversion to an `int`
  let timespan := ((previous.timestamp.toNat : Int) - transitionTime.toNat).bmod (2 ^ 32)
  let timespan := if timespan < TARGET_TIMESPAN / 4 then TARGET_TIMESPAN / 4 else timespan
  let timespan := if TARGET_TIMESPAN * 4 < timespan then TARGET_TIMESPAN * 4 else timespan
  let target := (previous.target &&& 0x00ffffff).toUInt64 * UInt64.ofNat timespan.toNat /
    UInt64.ofNat (TARGET_TIMESPAN.toNat >>> 8)
  let (target,size) := normalize 10 target ((previous.target >>> 24).toNat - 1)
  let (target,size) := if (maxsize : Int) < size ∨ size = maxsize ∧ maxtarget < target then
      (maxtarget,(maxsize : Int))
    else (target,size)
  target.toUInt32 ||| UInt32.ofNat size.toNat <<< 24

/-- The rules of the main net -/
def BRMerkleBlockVerifyDifficulty (block previous : BRMerkleBlock) (transitionTime : UInt32) :
    Bool :=
  decide (block.prevBlock = previous.blockHash) && decide (block.height = previous.height + 1) &&
    if block.height % BLOCK_DIFFICULTY_INTERVAL = 0 then
      decide (transitionTime ≠ 0) &&
        decide (block.target = transitionTarget previous transitionTime)
    else decide (block.target = previous.target)

end BRMerkleBlocks
