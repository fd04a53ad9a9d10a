import AltMessenger.BitFields
import AltMessenger.MurmurDefinition
import AltMessenger.SwiftRuntime

/-!
The filter that tells a peer which transactions to relay. Every element sets one
bit for each hash function, and a peer tests the same bits. The hash takes its
length as 32 bits, and stops at an element that is longer.
-/
namespace BloomFilter
open LittleEndian MachineWords SwiftRuntime BitFields

/-- `(k << r) | (k >> (32 - r))` -/
def rotate (k r : UInt32) : UInt32 := k <<< r ||| k >>> (32 - r)

def mixChunk (hash chunk : UInt32) : UInt32 :=
  let k := chunk * 0xcc9e2d51
  let k := rotate k 15
  let k := k * 0x1b873593
  let hash := hash ^^^ k
  let hash := rotate hash 13
  hash * 5 + 0xe6546b64

/-- The switch on the last bytes, each of whose cases falls through to the next. -/
def mixTail (key : List UInt8) (l rest : Nat) (hash : UInt32) : Except Trap UInt32 := do
  let k : UInt32 := 0
  let k ← if rest = 3 then do
      let byte ← subscript key (l * 4 + 2)
      pure (k ^^^ byte.toUInt32 <<< 16)
    else pure k
  let k ← if 2 ≤ rest then do
      let byte ← subscript key (l * 4 + 1)
      pure (k ^^^ byte.toUInt32 <<< 8)
    else pure k
  if 1 ≤ rest then do
    let byte ← subscript key (l * 4)
    let k := k ^^^ byte.toUInt32
    let k := k * 0xcc9e2d51
    let k := rotate k 15
    let k := k * 0x1b873593
    pure (hash ^^^ k)
  else pure hash

/-- `Murmurhash3.doHash32`; the chunks are in the host's order, which is little-endian. -/
def doHash32 (key : List UInt8) (maxBytes : Nat) (seed : UInt32) : Except Trap UInt32 := do
  let l := maxBytes / 4
  let chunks := (words 4 l key).map UInt32.ofNat
  let hash ← mixTail key l (maxBytes &&& 3) (chunks.foldl mixChunk seed)
  if maxBytes < 2 ^ 32 then do
    let hash := hash ^^^ UInt32.ofNat maxBytes
    let hash := hash ^^^ hash >>> 16
    let hash := hash * 0x85ebca6b
    let hash := hash ^^^ hash >>> 13
    let hash := hash * 0xc2b2ae35
    pure (hash ^^^ hash >>> 16)
  else .error .conversion

/-- `Murmurhash3.hash32Bytes` -/
def hash32Bytes (key : List UInt8) (seed : UInt32) : Except Trap UInt32 :=
  doHash32 key key.length seed

structure Filter where
  byteArray : List UInt8
  length : UInt32
  hash_funcs : UInt32
  tweak : UInt32
  deriving DecidableEq, Repr

/-- `BloomFilter(length:hash_funcs:tweak:)` -/
def Filter.create (length hash_funcs tweak : UInt32) : Filter where
  byteArray := List.replicate length.toNat 0
  length
  hash_funcs
  tweak

namespace Filter

/-- Neither the product may overflow, nor the divisor be zero. -/
def hash (filter : Filter) (byteData : List UInt8) (hashNum : UInt32) : Except Trap UInt32 := do
  let murmur ← hash32Bytes byteData (hashNum * 0xfba4c795 + filter.tweak)
  if filter.length.toNat * 8 < 2 ^ 32 ∧ filter.length ≠ 0 then pure (murmur % (filter.length * 8))
  else .error .overflow

/-- `byteArray[Int(idx >> 3)] |= UInt8(1 << (7 & idx))` -/
def setIndex (filter : Filter) (idx : UInt32) : Except Trap Filter := do
  let byte ← subscript filter.byteArray (idx >>> 3).toNat
  let bit ← uint8 (1 <<< (7 &&& idx) : UInt32).toNat
  pure { filter with byteArray := filter.byteArray.set (idx >>> 3).toNat (byte ||| bit) }

/-- `add(data:)`, and `add(string:)` with the bytes of the string. -/
def filterAdd (filter : Filter) (bytes : List UInt8) : Except Trap Filter :=
  (List.range filter.hash_funcs.toNat).foldlM (fun f i => do
    let idx ← f.hash bytes (UInt32.ofNat i)
    f.setIndex idx) filter

def addAll (filter : Filter) (elements : List (List UInt8)) : Except Trap Filter :=
  elements.foldlM filterAdd filter

end Filter

/-- The bit that the peer looks at for the hash function of this number. -/
def index (length : Nat) (tweak : UInt32) (element : List UInt8) (i : Nat) : Nat :=
  (MurmurHash3.hash (UInt32.ofNat i * 0xfba4c795 + tweak) element).toNat % (length * 8)

/-- The peer's test: the bits of all hash functions are set. -/
def Passes (data : List UInt8) (hash_funcs tweak : UInt32) (element : List UInt8) : Prop :=
  ∀ i < hash_funcs.toNat, bit data (index data.length tweak element i) = true

/-- The additions run to the end in any order, with one result. No bit is lost on the way, and
    each of the elements passes. -/
def NeverMisses (length hash_funcs tweak : UInt32) (elements : List (List UInt8)) : Prop :=
  ∃ filter, (Filter.create length hash_funcs tweak).addAll elements = .ok filter ∧
    (∀ other, elements.Perm other →
      (Filter.create length hash_funcs tweak).addAll other = .ok filter) ∧
    (∀ before, before <+: elements → ∃ mid,
      (Filter.create length hash_funcs tweak).addAll before = .ok mid ∧
        ∀ i, bit mid.byteArray i = true → bit filter.byteArray i = true) ∧
    ∀ element ∈ elements, Passes filter.byteArray hash_funcs tweak element

section Hash
variable (key : List UInt8) (seed : UInt32)

theorem rotate_eq (k : UInt32) :
    rotate k 15 = rol k 15 ∧ rotate k 13 = rol k 13 := by
  rw [rol_eq k (by decide), rol_eq k (by decide)]
  exact ⟨rfl,rfl⟩

theorem mixChunk_eq : mixChunk = MurmurHash3.mix := by
  funext hash chunk
  rw [mixChunk, MurmurHash3.mix, MurmurHash3.scramble, (rotate_eq _).1, (rotate_eq _).2]

/-- The bytes behind the last whole word, put together as the switch does it. -/
theorem mixTail_eq {l : Nat} {tail : List UInt8} (behind : key.drop (4 * l) = tail)
    (few : tail.length < 4) (hash : UInt32) :
    mixTail key l tail.length hash =
      .ok (hash ^^^ MurmurHash3.scramble (UInt32.ofNat (ofBytes tail))) := by
  have byte : ∀ {i b}, tail[i]? = some b → subscript key (l * 4 + i) = .ok b := by
    intro i b there
    rw [subscript_ok, Nat.mul_comm, ← List.getElem?_drop, behind, there]
  have scrambled : ∀ k : UInt32, rotate (k * 0xcc9e2d51) 15 * 0x1b873593 = MurmurHash3.scramble k :=
    fun k => by rw [(rotate_eq _).1, MurmurHash3.scramble]
  have zero : (0 : UInt8).toUInt32 = 0 := rfl
  unfold mixTail
  match tail, few with
  | [], _ => simp [ofBytes, MurmurHash3.scramble_zero]; rfl
  | [a], _ =>
    have word : UInt32.ofNat (ofBytes [a]) = a.toUInt32 := by
      simp [ofBytes]
    have first := @byte 0 a rfl
    simp only [List.length_cons, List.length_nil, Nat.add_zero] at first ⊢
    simp [first, scrambled, word]
  | [a,b], _ =>
    have word : UInt32.ofNat (ofBytes [a,b]) = b.toUInt32 <<< 8 ^^^ a.toUInt32 := by
      simpa [ofBytes, zero] using word_of_bytes a b 0
    have first := @byte 0 a rfl
    have second := @byte 1 b rfl
    simp only [List.length_cons, List.length_nil, Nat.add_zero] at first ⊢
    simp [first, second, scrambled, word]
    rfl
  | [a,b,c], _ =>
    have first := @byte 0 a rfl
    have second := @byte 1 b rfl
    have third := @byte 2 c rfl
    simp only [List.length_cons, List.length_nil, Nat.add_zero] at first ⊢
    simp [first, second, third, scrambled, word_of_bytes]
    rfl

theorem hash32Bytes_eq (short : key.length < 2 ^ 32) :
    hash32Bytes key seed = .ok (MurmurHash3.hash seed key) := by
  have behind : (key.drop (4 * (key.length / 4))).length = key.length &&& 3 := by
    rw [List.length_drop, Nat.and_two_pow_sub_one_eq_mod key.length 2]
    omega
  have few : (key.drop (4 * (key.length / 4))).length < 4 := by
    simp
    omega
  have tail := mixTail_eq key rfl few
    (((words 4 (key.length / 4) key).map UInt32.ofNat).foldl mixChunk seed)
  unfold hash32Bytes doHash32
  rw [← behind]
  dsimp only
  rw [bind_ready tail, if_pos short, mixChunk_eq]
  rfl

theorem hash32Bytes_long (long : 2 ^ 32 ≤ key.length) :
    ∀ out, hash32Bytes key seed ≠ .ok out := by
  intro out run
  obtain ⟨mixed,_,run⟩ := bind_ran.mp run
  rw [if_neg (by omega)] at run
  cases run

end Hash

/-- The filter's bytes are as many as its length, and their bits can be counted in 32 bits. -/
structure Sized (filter : Filter) : Prop where
  length : filter.byteArray.length = filter.length.toNat
  positive : 0 < filter.length.toNat
  small : filter.length.toNat ≤ 36000

/-- The bits of an element, one for each hash function. -/
def indexes (filter : Filter) (element : List UInt8) : List Nat :=
  (List.range filter.hash_funcs.toNat).map (index filter.byteArray.length filter.tweak element)

theorem setIndex_eq {filter : Filter} {idx : UInt32}
    (inside : idx.toNat < 8 * filter.byteArray.length) :
    filter.setIndex idx =
      .ok { filter with byteArray := setBit filter.byteArray idx.toNat } := by
  have byte : (idx >>> 3).toNat = idx.toNat / 8 := by
    simp [Nat.shiftRight_eq_div_pow]
  have there : idx.toNat / 8 < filter.byteArray.length := by omega
  have bit : uint8 (1 <<< (7 &&& idx) : UInt32).toNat =
      .ok (1 <<< UInt8.ofNat (idx.toNat % 8)) := by
    have each : ∀ k : Fin 8, uint8 (1 <<< UInt32.ofNat k.val : UInt32).toNat =
        .ok (1 <<< UInt8.ofNat k.val) := by decide
    have low : 7 &&& idx = UInt32.ofNat (idx.toNat % 8) := by
      apply UInt32.toNat_inj.mp
      rw [UInt32.toNat_and, UInt32.toNat_ofNat_of_lt' (by simp [UInt32.size]; omega), Nat.and_comm]
      exact Nat.and_two_pow_sub_one_eq_mod idx.toNat 3
    rw [low]
    exact each ⟨idx.toNat % 8,by omega⟩
  unfold Filter.setIndex
  rw [byte, bind_ready (subscript_ok.mpr (List.getElem?_eq_getElem there)), bind_ready bit, setBit,
    List.getD_eq_getElem?_getD, List.getElem?_eq_getElem there]
  rfl

namespace Sized
variable {filter : Filter} (sized : Sized filter)
include sized

theorem setBits (places : List Nat) :
    Sized { filter with byteArray := BitFields.setBits filter.byteArray places } :=
  ⟨by simpa using sized.length,sized.positive,sized.small⟩

theorem index_inside (tweak : UInt32) (element : List UInt8) (i : Nat) :
    index filter.byteArray.length tweak element i < 8 * filter.byteArray.length := by
  have positive := sized.positive
  rw [← sized.length] at positive
  rw [Nat.mul_comm]
  exact Nat.mod_lt _ (by omega)

theorem hash_eq {element : List UInt8} (short : element.length < 2 ^ 32) (i : Nat) :
    ∃ idx, filter.hash element (UInt32.ofNat i) = .ok idx ∧
      idx.toNat = index filter.byteArray.length filter.tweak element i := by
  have positive := sized.positive
  have small := sized.small
  have nonzero : filter.length ≠ 0 := by
    intro zero
    rw [zero] at positive
    cases positive
  unfold Filter.hash
  rw [bind_ready (hash32Bytes_eq _ _ short), if_pos ⟨by omega,nonzero⟩]
  refine ⟨_,rfl,?_⟩
  have bits : (filter.length * 8).toNat = filter.length.toNat * 8 := by
    rw [UInt32.toNat_mul]
    exact Nat.mod_eq_of_lt (show filter.length.toNat * 8 < 2 ^ 32 by omega)
  rw [UInt32.toNat_mod, bits, index, sized.length]

theorem turns_eq {element : List UInt8} (short : element.length < 2 ^ 32) (turns : List Nat) :
    turns.foldlM (fun f i => do
        let idx ← Filter.hash f element (UInt32.ofNat i)
        f.setIndex idx) filter =
      .ok { filter with
        byteArray := BitFields.setBits filter.byteArray
          (turns.map (index filter.byteArray.length filter.tweak element)) } := by
  induction turns generalizing filter with
  | nil => rfl
  | cons i turns ih =>
    obtain ⟨idx,hashed,place⟩ := sized.hash_eq short i
    have inside := sized.index_inside filter.tweak element i
    have set := @setIndex_eq filter idx (by rw [place]; exact inside)
    have later := ih (sized.setBits [idx.toNat])
    rw [List.foldlM_cons, bind_ready hashed, bind_ready set]
    refine later.trans ?_
    simp [BitFields.setBits, place]

/-- Without a hash function nothing is looked at; with one, the element's length is. -/
theorem filterAdd_eq {element : List UInt8}
    (taken : filter.hash_funcs = 0 ∨ element.length < 2 ^ 32) :
    filter.filterAdd element = .ok { filter with
      byteArray := BitFields.setBits filter.byteArray (indexes filter element) } := by
  rcases taken with none | short
  · have turns : List.range filter.hash_funcs.toNat = [] := by rw [none]; rfl
    unfold Filter.filterAdd indexes
    rw [turns]
    rfl
  · exact sized.turns_eq short _

theorem addAll_eq {elements : List (List UInt8)}
    (taken : ∀ element ∈ elements, filter.hash_funcs = 0 ∨ element.length < 2 ^ 32) :
    filter.addAll elements = .ok { filter with
      byteArray := BitFields.setBits filter.byteArray (elements.flatMap (indexes filter)) } := by
  induction elements generalizing filter with
  | nil => rfl
  | cons element elements ih =>
    have first := sized.filterAdd_eq (taken element (by simp))
    have later := ih (sized.setBits (indexes filter element)) fun other mem =>
      taken other (by simp [mem])
    have same : indexes { filter with
        byteArray := BitFields.setBits filter.byteArray (indexes filter element) } =
        indexes filter := by
      funext other
      simp [indexes]
    change (do
      let f ← filter.filterAdd element
      Filter.addAll f elements) = _
    rw [bind_ready first, later, same]
    simp [BitFields.setBits]

theorem indexes_inside (elements : List (List UInt8)) :
    ∀ i ∈ elements.flatMap (indexes filter), i < 8 * filter.byteArray.length := by
  intro i mem
  obtain ⟨element,_,mem⟩ := List.mem_flatMap.mp mem
  obtain ⟨turn,_,rfl⟩ := List.mem_map.mp mem
  exact sized.index_inside _ _ _

end Sized

theorem create_sized {length hash_funcs tweak : UInt32} (positive : 1 ≤ length.toNat)
    (small : length.toNat ≤ 36000) : Sized (Filter.create length hash_funcs tweak) :=
  ⟨by simp [Filter.create],positive,small⟩

/-- An element that was added has been short enough for the hash. -/
theorem taken_of_filterAdd {filter out : Filter} {element : List UInt8}
    (run : filter.filterAdd element = .ok out) :
    filter.hash_funcs = 0 ∨ element.length < 2 ^ 32 := by
  by_contra untaken
  rw [not_or, Nat.not_lt] at untaken
  obtain ⟨count,turns⟩ : ∃ count, filter.hash_funcs.toNat = count + 1 :=
    Nat.exists_eq_succ_of_ne_zero fun zero => untaken.1 (UInt32.toNat_inj.mp zero)
  unfold Filter.filterAdd at run
  rw [turns, List.range_succ_eq_map, List.foldlM_cons] at run
  obtain ⟨_,first,_⟩ := bind_ran.mp run
  obtain ⟨idx,hashed,_⟩ := bind_ran.mp first
  obtain ⟨murmur,computed,_⟩ := bind_ran.mp hashed
  exact hash32Bytes_long _ _ untaken.2 murmur computed

theorem taken_of_addAll {filter out : Filter} (sized : Sized filter)
    {elements : List (List UInt8)} (run : filter.addAll elements = .ok out) :
    ∀ element ∈ elements, filter.hash_funcs = 0 ∨ element.length < 2 ^ 32 := by
  induction elements generalizing filter with
  | nil => exact fun _ mem => nomatch mem
  | cons element elements ih =>
    obtain ⟨mid,first,rest⟩ := bind_ran.mp run
    have taken := taken_of_filterAdd first
    rw [sized.filterAdd_eq taken, Except.ok.injEq] at first
    subst first
    have later := ih (sized.setBits _) rest
    intro other mem
    rcases List.mem_cons.mp mem with rfl | mem
    · exact taken
    · exact later other mem

/-- The additions run to the end in any order, set no bit out of range and lose none, and every
    added element passes the peer's test, exactly if each of them has fewer than 2 ^ 32 bytes or
    there is no hash function. -/
theorem never_misses_iff {length hash_funcs tweak : UInt32} (positive : 1 ≤ length.toNat)
    (small : length.toNat ≤ 36000) (elements : List (List UInt8)) :
    NeverMisses length hash_funcs tweak elements ↔
      ∀ element ∈ elements, hash_funcs = 0 ∨ element.length < 2 ^ 32 := by
  have sized := @create_sized length hash_funcs tweak positive small
  constructor
  · rintro ⟨filter,run,_⟩
    exact taken_of_addAll sized run
  · intro taken
    have inside := sized.indexes_inside
    refine ⟨_,sized.addAll_eq taken,?_,?_,?_⟩
    · intro other perm
      rw [sized.addAll_eq fun element mem => taken element (perm.mem_iff.mpr mem)]
      have members : ∀ i, i ∈ other.flatMap (indexes (Filter.create length hash_funcs tweak)) ↔
          i ∈ elements.flatMap (indexes (Filter.create length hash_funcs tweak)) := by
        intro i
        simp only [List.mem_flatMap, perm.mem_iff]
      have same := setBits_congr (inside other) members
      rw [same]
    · intro before front
      refine ⟨_,sized.addAll_eq fun element mem => taken element (front.subset mem),?_⟩
      intro i set
      rw [bit_setBits (inside _), Bool.or_eq_true, decide_eq_true_iff] at set ⊢
      refine set.imp_right fun mem => ?_
      obtain ⟨element,there,mem⟩ := List.mem_flatMap.mp mem
      exact List.mem_flatMap.mpr ⟨element,front.subset there,mem⟩
    · intro element mem i turn
      rw [setBits_length, bit_setBits (inside _), Bool.or_eq_true, decide_eq_true_iff]
      refine Or.inr (List.mem_flatMap.mpr ⟨element,mem,List.mem_map.mpr ⟨i,?_,rfl⟩⟩)
      exact List.mem_range.mpr turn

theorem two_elements_pass :
    NeverMisses 8 3 5 [[1,2,3,4,5],[6]] ↔
      ∀ element ∈ ([[1,2,3,4,5],[6]] : List (List UInt8)), (3 : UInt32) = 0 ∨
        element.length < 2 ^ 32 :=
  never_misses_iff (by decide) (by decide) _

theorem long_element_stops : ¬ NeverMisses 8 3 5 [List.replicate (2 ^ 32) 0] := by
  rintro ⟨filter,run,_⟩
  have taken := taken_of_addAll (create_sized (by decide) (by decide)) run _
    (List.mem_singleton_self _)
  rw [List.length_replicate] at taken
  rcases taken with none | short
  · cases none
  · omega

end BloomFilter
