import AltMessenger.RipemdDefinition
import AltMessenger.BitcoinHash

/-!
The wallet's RIPEMD-160, as it is written: both lines advance together in one
loop, and the words, the shifts and the constants of each step are read off
tables. Under 512 MiB it computes the hash function.
-/
namespace RIPEMD
open LittleEndian MachineWords SwiftRuntime BitcoinHash Ripemd160

/-- `lhs ~<< rhs` -/
def circularShift (lhs : UInt32) (rhs : Nat) : UInt32 :=
  .ofBitVec (lhs.toBitVec <<< rhs ||| lhs.toBitVec >>> (32 - rhs))

inductive Side where
  | Left | Right
  deriving DecidableEq, Repr

def f (j : Nat) : Except Trap (UInt32 → UInt32 → UInt32 → UInt32) :=
  if j ≤ 15 then .ok fun x y z => x ^^^ y ^^^ z
  else if j ≤ 31 then .ok fun x y z => (x &&& y) ||| (~~~x &&& z)
  else if j ≤ 47 then .ok fun x y z => (x ||| ~~~y) ^^^ z
  else if j ≤ 63 then .ok fun x y z => (x &&& z) ||| (y &&& ~~~z)
  else if j ≤ 79 then .ok fun x y z => x ^^^ (y ||| ~~~z)
  else .error .assertion

def K (side : Side) (j : Nat) : Except Trap UInt32 :=
  if j ≤ 15 then .ok (if side = .Left then 0x00000000 else 0x50A28BE6)
  else if j ≤ 31 then .ok (if side = .Left then 0x5A827999 else 0x5C4DD124)
  else if j ≤ 47 then .ok (if side = .Left then 0x6ED9EBA1 else 0x6D703EF3)
  else if j ≤ 63 then .ok (if side = .Left then 0x8F1BBCDC else 0x7A6D76E9)
  else if j ≤ 79 then .ok (if side = .Left then 0xA953FD4E else 0x00000000)
  else .error .assertion

def r (side : Side) (j : Nat) : Except Trap Nat :=
  if j ≤ 15 then
    if side = .Left then .ok j else subscript [5,14,7,0,9,2,11,4,13,6,15,8,1,10,3,12] j
  else if j ≤ 31 then
    if side = .Left then subscript [7,4,13,1,10,6,15,3,12,0,9,5,2,14,11,8] (j - 16)
    else subscript [6,11,3,7,0,13,5,10,14,15,8,12,4,9,1,2] (j - 16)
  else if j ≤ 47 then
    if side = .Left then subscript [3,10,14,4,9,15,8,1,2,7,0,6,13,11,5,12] (j - 32)
    else subscript [15,5,1,3,7,14,6,9,11,8,12,2,10,0,4,13] (j - 32)
  else if j ≤ 63 then
    if side = .Left then subscript [1,9,11,10,0,8,12,4,13,3,7,15,14,5,6,2] (j - 48)
    else subscript [8,6,4,1,3,11,15,0,5,12,2,13,9,7,10,14] (j - 48)
  else if j ≤ 79 then
    if side = .Left then subscript [4,0,5,9,7,12,2,10,14,1,3,8,11,6,15,13] (j - 64)
    else subscript [12,15,10,4,1,5,8,7,6,2,13,14,0,3,9,11] (j - 64)
  else .error .assertion

def s (side : Side) (j : Nat) : Except Trap Nat :=
  if j ≤ 15 then
    subscript (if side = .Left then [11,14,15,12,5,8,7,9,11,13,14,15,6,7,9,8]
      else [8,9,9,11,13,15,15,5,7,7,8,11,14,14,12,6]) j
  else if j ≤ 31 then
    subscript (if side = .Left then [7,6,8,13,11,9,7,15,7,12,15,9,11,7,13,12]
      else [9,13,15,7,12,8,9,11,7,7,12,7,6,15,13,11]) (j - 16)
  else if j ≤ 47 then
    subscript (if side = .Left then [11,13,6,7,14,9,13,15,14,8,13,6,5,12,7,5]
      else [9,7,15,11,8,6,6,14,12,13,5,14,13,13,7,5]) (j - 32)
  else if j ≤ 63 then
    subscript (if side = .Left then [11,12,14,15,14,15,9,8,9,14,5,6,8,6,5,12]
      else [15,5,8,11,14,14,6,14,6,9,12,9,12,5,15,8]) (j - 48)
  else if j ≤ 79 then
    subscript (if side = .Left then [9,15,5,11,6,8,13,12,5,12,13,14,11,8,5,6]
      else [8,5,12,9,12,5,14,6,8,13,6,5,15,13,11,11]) (j - 64)
  else .error .assertion

structure Block where
  h0 : UInt32
  h1 : UInt32
  h2 : UInt32
  h3 : UInt32
  h4 : UInt32
  deriving DecidableEq, Repr

def Block.initial : Block := ⟨0x67452301,0xEFCDAB89,0x98BADCFE,0x10325476,0xC3D2E1F0⟩

def Block.hash (block : Block) : List UInt32 := [block.h0,block.h1,block.h2,block.h3,block.h4]

/-- The registers of one side, with the function that the side uses in this turn. -/
def advance (side : Side) (message : List UInt32) (j functionIndex : Nat) (v : Words) :
    Except Trap Words := do
  let index ← r side j
  let word ← subscript message index
  let function ← f functionIndex
  let constant ← K side j
  let shift ← s side j
  let T := circularShift (v.A + function v.B v.C v.D + word + constant) shift + v.E
  pure { A := v.E, E := v.D, D := circularShift v.C 10, C := v.B, B := T }

/-- The body of the loop: the left side, and then the right side. -/
def turn (message : List UInt32) (sides : Words × Words) (j : Nat) :
    Except Trap (Words × Words) := do
  let left ← advance .Left message j j sides.1
  let right ← advance .Right message j (79 - j) sides.2
  pure (left,right)

def Block.compress (block : Block) (message : List UInt32) : Except Trap Block :=
  if message.length ≠ 16 then .error .assertion
  else do
    let start : Words := ⟨block.h0,block.h1,block.h2,block.h3,block.h4⟩
    let (l,r) ← (List.range 80).foldlM (turn message) (start,start)
    pure {
      h0 := block.h1 + l.C + r.D
      h1 := block.h2 + l.D + r.E
      h2 := block.h3 + l.E + r.A
      h3 := block.h4 + l.A + r.B
      h4 := block.h0 + l.B + r.C }

def numberOfZerosToPad (length : Nat) : Nat :=
  if length % 64 = 56 then 0
  else if length % 64 < 56 then 56 - length % 64
  else 56 + (64 - length % 64)

def pad (data : List UInt8) : Except Trap (List UInt8) :=
  let stopped := data ++ [0x80]
  let filled := stopped ++ List.replicate (numberOfZerosToPad stopped.length) 0
  if 2 ^ 32 ≤ data.length then .error .conversion
  else if 2 ^ 32 ≤ data.length * 8 then .error .overflow
  else .ok (filled ++ [data.length * 8,0].flatMap (toBytes 4))

def getWordsInSection (data : List UInt8) (sec : Nat) : Except Trap (List UInt32) :=
  if data.length < sec * 64 + 64 then .error .assertion
  else .ok ((List.range 16).map fun i =>
    .ofNat (ofBytes ((data.drop (sec * 64 + 4 * i)).take 4)))

def encodeWords (input : List UInt32) : List UInt8 :=
  (input.flatMap fun word => toBytes 4 word.toNat).take 20

/-- The sections that the loop of `digest` hands to `compress`. -/
def sections (padedData : List UInt8) : Except Trap (List (List UInt32)) :=
  (List.range (padedData.length / 64)).mapM (getWordsInSection padedData)

def digest (input : List UInt8) (bitlength : Nat) : Except Trap (List UInt8) :=
  if bitlength ≠ 160 then .error .assertion
  else do
    let padedData ← pad input
    let block ← (List.range (padedData.length / 64)).foldlM (fun block i => do
      let part ← getWordsInSection padedData i
      Block.compress block part) Block.initial
    pure (encodeWords block.hash)

/-- The definition's line for each side. -/
def Side.line : Side → Line
  | .Left => left
  | .Right => right

theorem f_round {j : Nat} (below : j < 80) : f j = .ok (boolean (j / 16)) := by
  unfold f
  by_cases first : j ≤ 15
  · rw [if_pos first, show j / 16 = 0 by omega]
    rfl
  by_cases second : j ≤ 31
  · rw [if_neg first, if_pos second, show j / 16 = 1 by omega]
    rfl
  by_cases third : j ≤ 47
  · rw [if_neg first, if_neg second, if_pos third, show j / 16 = 2 by omega]
    rfl
  by_cases fourth : j ≤ 63
  · rw [if_neg first, if_neg second, if_neg third, if_pos fourth, show j / 16 = 3 by omega]
    rfl
  · rw [if_neg first, if_neg second, if_neg third, if_neg fourth, if_pos (by omega),
      show j / 16 = 4 by omega]
    rfl

theorem tables (side : Side) {j : Nat} (below : j < 80) :
    r side j = .ok (side.line.word j) ∧ side.line.word j < 16 ∧
      K side j = .ok (side.line.constants.getD (j / 16) 0) ∧
      s side j = .ok (shift (j / 16) (side.line.word j)) ∧
      shift (j / 16) (side.line.word j) < 32 := by
  have all : ∀ j : Fin 80, r side j.val = .ok (side.line.word j.val) ∧ side.line.word j.val < 16 ∧
      K side j.val = .ok (side.line.constants.getD (j.val / 16) 0) ∧
      s side j.val = .ok (shift (j.val / 16) (side.line.word j.val)) ∧
      shift (j.val / 16) (side.line.word j.val) < 32 := by
    cases side <;> decide +kernel
  exact all ⟨j,below⟩

theorem function_round (side : Side) {j : Nat} (below : j < 80) :
    f (if side = .Left then j else 79 - j) = .ok (side.line.function (j / 16)) := by
  cases side with
  | Left => exact f_round below
  | Right =>
    have reversed : (79 - j) / 16 = 4 - j / 16 := by omega
    rw [if_neg (by decide), f_round (by omega), reversed]
    rfl

/-- The word at this place of a block. -/
def wordOf (message : List UInt32) (i : Nat) : UInt32 := message.getD i 0

theorem advance_step (side : Side) {message : List UInt32} (whole : message.length = 16) {j : Nat}
    (below : j < 80) (v : Words) :
    advance side message j (if side = .Left then j else 79 - j) v =
      .ok (side.line.step (wordOf message) v j) := by
  obtain ⟨order,inside,constant,amount,small⟩ := tables side below
  have word : subscript message (side.line.word j) = .ok (wordOf message (side.line.word j)) := by
    have slot : side.line.word j < message.length := by omega
    rw [subscript_ok, wordOf, List.getD_eq_getElem?_getD, List.getElem?_eq_getElem slot]
    rfl
  unfold advance
  rw [bind_ready order, bind_ready word, bind_ready (function_round side below),
    bind_ready constant, bind_ready amount]
  rw [Line.step, rol_eq _ small, rol_eq _ (by decide)]
  rfl

/-- Both sides advance together, as each of them would alone. -/
theorem turns_run {message : List UInt32} (whole : message.length = 16) {steps : List Nat}
    (below : ∀ j ∈ steps, j < 80) (l r : Words) :
    steps.foldlM (turn message) (l,r) =
      .ok (steps.foldl (left.step (wordOf message)) l,
        steps.foldl (right.step (wordOf message)) r) := by
  induction steps generalizing l r with
  | nil => rfl
  | cons j steps ih =>
    have first := advance_step .Left whole (below j (by simp)) l
    have second := advance_step .Right whole (below j (by simp)) r
    have taken : turn message (l,r) j =
        .ok (left.step (wordOf message) l j,right.step (wordOf message) r j) := by
      rw [if_pos rfl] at first
      rw [if_neg (by decide)] at second
      unfold turn
      rw [bind_ready first, bind_ready second]
      rfl
    rw [List.foldlM_cons, bind_ready taken, ih fun i mem => below i (by simp [mem])]
    rfl

/-- The chaining value that a block object holds. -/
def Block.words (block : Block) : Words := ⟨block.h0,block.h1,block.h2,block.h3,block.h4⟩

theorem compress_refines (block : Block) {message : List UInt32} (whole : message.length = 16) :
    ∃ next, block.compress message = .ok next ∧
      next.words = Ripemd160.compress (wordOf message) block.words := by
  have below : ∀ j ∈ List.range 80, j < 80 := by simp
  have turns := turns_run whole below block.words block.words
  unfold Block.compress
  rw [if_neg (by omega)]
  exact ⟨_,bind_ready turns,rfl⟩

/-- A section's words are those of the block at its place, and all its bytes. -/
theorem section_words {data : List UInt8} {i : Nat} (inside : i < data.length / 64) :
    ∃ part, getWordsInSection data i = .ok part ∧ part.length = 16 ∧
      wordOf part = messageWord ((data.drop (64 * i)).take 64) ∧
      part.flatMap (fun word => toBytes 4 word.toNat) = (data.drop (64 * i)).take 64 := by
  have length : ((data.drop (64 * i)).take 64).length = 64 := by
    simp
    omega
  have inner : ∀ k < 16, (data.drop (i * 64 + 4 * k)).take 4 =
      (((data.drop (64 * i)).take 64).drop (4 * k)).take 4 := by
    intro k below
    rw [List.drop_take, List.take_take, List.drop_drop, Nat.mul_comm i, Nat.min_eq_left (by omega)]
  have part : getWordsInSection data i =
      .ok ((words 4 16 ((data.drop (64 * i)).take 64)).map UInt32.ofNat) := by
    unfold getWordsInSection words
    rw [if_neg (by omega), List.map_map]
    refine congrArg Except.ok (List.map_congr_left fun k mem => ?_)
    rw [inner k (List.mem_range.mp mem)]
    rfl
  refine ⟨_,part,by simp [words],?_,?_⟩
  · funext k
    rw [wordOf, List.getD_eq_getElem?_getD, messageWord]
    by_cases below : k < 16
    · simp [words, below]
    · have beyond : ((data.drop (64 * i)).take 64).drop (4 * k) = [] :=
        List.drop_eq_nil_of_le (by omega)
      rw [beyond]
      simp [words, below, ofBytes]
  · rw [List.flatMap_map]
    refine Eq.trans (List.flatMap_congr fun word mem => ?_) (words_bytes length)
    obtain ⟨k,_,rfl⟩ := List.mem_map.mp mem
    have small := ofBytes_lt ((((data.drop (64 * i)).take 64).drop (4 * k)).take 4)
    have fits : 256 ^ ((((data.drop (64 * i)).take 64).drop (4 * k)).take 4).length ≤ 256 ^ 4 :=
      Nat.pow_le_pow_right (by decide) (List.length_take_le 4 _)
    rw [UInt32.toNat_ofNat_of_lt' (small.trans_le fits)]

/-- Each of the three branches pads as far as the definition does. -/
theorem pad_ready {message : List UInt8} (short : message.length < 2 ^ 29) :
    pad message = .ok (Ripemd160.pad message) := by
  have bits : toBytes 4 (message.length * 8) ++ toBytes 4 0 = toBytes 8 (8 * message.length) := by
    have high : message.length * 8 / 256 ^ 4 = 0 := Nat.div_eq_of_lt (by omega)
    rw [Nat.mul_comm 8, toBytes_add 4 4, high]
  have made : pad message = .ok (message ++ 0x80 ::
      (List.replicate (numberOfZerosToPad (message.length + 1)) 0 ++
        toBytes 8 (8 * message.length))) := by
    unfold pad
    dsimp only
    rw [if_neg (by omega), if_neg (by omega), ← bits]
    simp
  have padded : Padded message (message ++ 0x80 ::
      (List.replicate (numberOfZerosToPad (message.length + 1)) 0 ++
        toBytes 8 (8 * message.length))) := by
    refine ⟨_,rfl,?_,?_⟩
    · simp only [List.length_append, List.length_cons, List.length_replicate, toBytes_length]
      unfold numberOfZerosToPad
      split_ifs <;> omega
    · intro fewer whole
      unfold numberOfZerosToPad
      split_ifs <;> omega
  rw [made, padded_unique padded]

/-- Up to this count, the sections are the data in order, and compressing them is what the
    definition does with its blocks. -/
theorem sections_run {data : List UInt8} {count : Nat} (inside : count ≤ data.length / 64) :
    ∃ parts block, (List.range count).mapM (getWordsInSection data) = .ok parts ∧
      parts.flatMap (fun part => part.flatMap fun word => toBytes 4 word.toNat) =
        (blocks count data).flatten ∧
      parts.foldlM Block.compress Block.initial = .ok block ∧
      block.words = (blocks count data).foldl
        (fun h block => Ripemd160.compress (messageWord block) h) Ripemd160.initial := by
  induction count with
  | zero => exact ⟨[],Block.initial,rfl,rfl,rfl,rfl⟩
  | succ count ih =>
    obtain ⟨parts,block,read,all,run,same⟩ := ih (by omega)
    obtain ⟨part,last,whole,word,bytes⟩ := @section_words data count (by omega)
    obtain ⟨next,compressed,words⟩ := compress_refines block whole
    refine ⟨parts ++ [part],next,?_,?_,?_,?_⟩
    · rw [List.range_succ, List.mapM_append, bind_ready read, List.mapM_cons, bind_ready last]
      rfl
    · rw [blocks_succ_last, List.flatten_append, List.flatMap_append, all]
      simp [bytes]
    · rw [List.foldlM_append, bind_ready run, List.foldlM_cons, bind_ready compressed]
      rfl
    · rw [blocks_succ_last, List.foldl_append, ← same, words, word]
      rfl

/-- The data is padded as far as it takes to fill a block, and every block of it is compressed
    once, in order. -/
def Digested (message padedData : List UInt8) (parts : List (List UInt32)) (block : Block) : Prop :=
  pad message = .ok padedData ∧ Padded message padedData ∧ sections padedData = .ok parts ∧
    parts.flatMap (fun part => part.flatMap fun word => toBytes 4 word.toNat) = padedData ∧
    parts.foldlM Block.compress Block.initial = .ok block ∧
    digest message 160 = .ok (encodeWords block.hash)

theorem digested {message : List UInt8} (short : message.length < 2 ^ 29) :
    ∃ padedData parts block, Digested message padedData parts block ∧
      encodeWords block.hash = Ripemd160.digest message := by
  have padded := pad_padded message
  obtain ⟨_,_,whole,_⟩ := padded
  obtain ⟨parts,block,read,all,run,same⟩ :=
    @sections_run (Ripemd160.pad message) _ (Nat.le_refl _)
  rw [blocks_flatten (by omega)] at all
  have loop := foldlM_read (g := Block.compress) read Block.initial
  refine ⟨_,parts,block,⟨pad_ready short,pad_padded message,read,all,run,?_⟩,?_⟩
  · unfold digest
    rw [if_neg (by decide), bind_ready (pad_ready short), loop, bind_ready run]
    rfl
  · rw [Ripemd160.digest, ← same]
    rfl

/-- The hash of keys and scripts takes its digest here, and never stops at it. -/
theorem hash160_digest {D : Digests} (same : D.ripemd160 = Ripemd160.digest)
    (input : List UInt8) :
    Hash160.digest D input = (do
      let sha256 ← SHA256.digest D input
      digest sha256 160) := by
  unfold Hash160.digest SHA256.digest
  split_ifs
  · have short : (D.sha256 input).length < 2 ^ 29 := by rw [D.sha256_length]; decide
    obtain ⟨_,_,_,⟨_,_,_,_,_,run⟩,known⟩ := digested short
    rw [known, ← same] at run
    exact run.symm
  · rfl

/-- Under 512 MiB the wallet's digest is RIPEMD-160. -/
theorem digest_is_ripemd160 {message : List UInt8} (short : message.length < 2 ^ 29) :
    ∃ padedData parts block, Digested message padedData parts block ∧
      digest message 160 = .ok (Ripemd160.digest message) := by
  obtain ⟨padedData,parts,block,whole,same⟩ := digested short
  refine ⟨padedData,parts,block,whole,?_⟩
  obtain ⟨_,_,_,_,_,run⟩ := whole
  rw [run, same]

theorem empty_digest : ∃ padedData parts block, Digested [] padedData parts block ∧
    digest [] 160 = .ok (Ripemd160.digest []) :=
  digest_is_ripemd160 (by decide)

example : Ripemd160.digest [] = [0x9c,0x11,0x85,0xa5,0xc5,0xe9,0xfc,0x54,0x61,0x28,0x08,0x97,0x7e,
    0xe8,0xf5,0x48,0xb2,0x25,0x8d,0x31] := by
  decide +kernel

end RIPEMD
