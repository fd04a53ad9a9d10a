import AltMessenger.MerkleProof

/-!
How much padding the initialiser of a partial tree lets stand behind the flag bits it consumes:
up to eight bits, so that a spare byte gets through where the consumed bits end with a byte.
-/
namespace ProofPadding
open SwiftRuntime BitcoinHash MerkleTree Bip37 MerkleProof

/-- The recursion takes every hash, its flag bits reach into the last flag byte, and no bit behind
    them is set. -/
def PaddedExactly (D : Digests) (n : UInt32) (hashes : List SHA256Hash) (flags : List UInt8) :
    Prop :=
  ∃ height root progress, treeHeightWithtotalLeafNodes n = .ok height ∧
    merkleTreeNodeWithHeight D hashes flags height ⟨[],0,0⟩ = .ok (some root,progress) ∧
      progress.hashIndex = hashes.length ∧ flags.length = (progress.flagBitIndex + 7) / 8 ∧
        ∀ index, progress.flagBitIndex ≤ index → index < flags.length * 8 →
          flagBitAtIndex index flags = .ok 0

/-- Without a last byte of zeros, the flags are those of a partial tree over all the hashes. -/
def SpareByte (n : UInt32) (hashes : List SHA256Hash) (flags : List UInt8) : Prop :=
  n ≠ 0 ∧ ∃ front shape, flags = front ++ [0] ∧
    Spelling (treeHeight n.toNat) shape (unpackBits front) [] hashes []

section Padding
variable {D : Digests} {n : UInt32} {hashes : List SHA256Hash} {flags : List UInt8}
variable {shape : PartialTree SHA256Hash} {rest : List Bool}

/-- Where the recursion stands behind the tree it read. -/
theorem consumed (D : Digests)
    (spelled : Spelling (treeHeight n.toNat) shape (unpackBits flags) rest hashes []) :
    merkleTreeNodeWithHeight D hashes flags (treeHeight n.toNat) ⟨[],0,0⟩ =
        .ok (some (nodeOf D shape),⟨shape.matched,shape.bits.length,shape.hashes.length⟩) ∧
      shape.hashes.length = hashes.length ∧ 8 * flags.length = shape.bits.length + rest.length := by
  refine ⟨?_,?_,?_⟩
  · rw [node_walk, List.drop_zero, List.drop_zero, spelled.walk, returned, Progress.after,
      Nat.zero_add, Nat.zero_add, List.nil_append]
  · rw [spelled.hashes_eq, List.append_nil]
  · rw [← unpackBits_length, spelled.bits_eq, List.length_append]

theorem zero_behind
    (spelled : Spelling (treeHeight n.toNat) shape (unpackBits flags) rest hashes [])
    (zeros : true ∉ rest) {index : Nat} (behind : shape.bits.length ≤ index)
    (inside : index < flags.length * 8) : flagBitAtIndex index flags = .ok 0 := by
  have reach : index < (unpackBits flags).length := by
    rw [unpackBits_length]
    omega
  have next := List.drop_eq_getElem_cons reach
  have bit : (unpackBits flags)[index] = false := by
    rw [Bool.eq_false_iff]
    intro set
    have mem := List.getElem_mem reach
    have place : (unpackBits flags)[index]? = rest[index - shape.bits.length]? := by
      rw [spelled.bits_eq, List.getElem?_append_right behind]
    rw [List.getElem?_eq_getElem reach, set] at place
    exact zeros (List.mem_of_getElem? place.symm)
  rw [flagBitAtIndex_eq next, bit]
  rfl

theorem padded_of_few (counted : n ≠ 0)
    (spelled : Spelling (treeHeight n.toNat) shape (unpackBits flags) rest hashes [])
    (few : rest.length < 8) (zeros : true ∉ rest) : PaddedExactly D n hashes flags := by
  obtain ⟨run,taken,bits⟩ := consumed D spelled
  refine ⟨_,_,_,treeHeight_eq counted,run,taken,?_,fun _ => zero_behind spelled zeros⟩
  change flags.length = (shape.bits.length + 7) / 8
  omega

theorem few_of_padded (counted : n ≠ 0)
    (spelled : Spelling (treeHeight n.toNat) shape (unpackBits flags) rest hashes [])
    (padded : PaddedExactly D n hashes flags) : rest.length < 8 := by
  obtain ⟨height,root,progress,high,run,-,bytes,-⟩ := padded
  cases (treeHeight_eq counted).symm.trans high
  obtain ⟨run',-,bits⟩ := consumed D spelled
  cases run'.symm.trans run
  change flags.length = (shape.bits.length + 7) / 8 at bytes
  omega

theorem zero_byte {byte : UInt8} (bits : bitsOfByte byte = List.replicate 8 false) : byte = 0 := by
  refine UInt8.toNat_inj.mp (Nat.eq_of_testBit_eq fun i => ?_)
  rw [UInt8.toNat_zero, Nat.zero_testBit]
  by_cases inside : i < 8
  · have bit : (bitsOfByte byte)[i]? = some (byte.toNat.testBit i) := by
      rw [bitsOfByte, List.getElem?_map, List.getElem?_range inside]
      rfl
    rw [bits, List.getElem?_replicate_of_lt inside, Option.some_inj] at bit
    exact bit.symm
  · have wide := Nat.pow_le_pow_right (Nat.succ_pos 1) (Nat.le_of_not_lt inside)
    exact Nat.testBit_lt_two_pow (Nat.lt_of_lt_of_le byte.toNat_lt wide)

/-- Eight bits of padding are a last byte. -/
theorem last_byte (spelled : Spelling (treeHeight n.toNat) shape (unpackBits flags) rest hashes [])
    (eight : rest = List.replicate 8 false) :
    ∃ front, flags = front ++ [0] ∧
      Spelling (treeHeight n.toNat) shape (unpackBits front) [] hashes [] := by
  have bits := spelled.bits_eq
  rcases List.eq_nil_or_concat flags with rfl | ⟨front,last,rfl⟩
  · rw [eight] at bits
    have lengths := congrArg List.length bits
    rw [List.length_append, List.length_replicate] at lengths
    cases lengths
  · rw [List.concat_eq_append, unpackBits, List.flatMap_append, List.flatMap_singleton,
      ← unpackBits] at bits
    have parts := List.append_inj' bits (by simp [bitsOfByte, eight])
    have zero := zero_byte (parts.2.trans eight)
    subst zero
    refine ⟨front,List.concat_eq_append,spelled.fits,spelled.ragged,Or.inr (Or.inl rfl),?_,
      spelled.hashes_eq⟩
    rw [parts.1, List.append_nil]

/-- The initialiser takes no more padding than fills a byte, but for one byte of zeros behind a
    tree whose bits end with a byte. -/
theorem padding_exact_iff (D : Digests) (n : UInt32) (hashes : List SHA256Hash)
    (flags : List UInt8) :
    (∀ tree, PartialMerkleTree.create D n hashes flags = .ok (some tree) →
      PaddedExactly D n hashes flags) ↔ ¬ SpareByte n hashes flags := by
  constructor
  · rintro exact ⟨counted,front,shape,rfl,spelled⟩
    have bits : unpackBits (front ++ [0]) = shape.bits ++ List.replicate 8 false := by
      rw [unpackBits, List.flatMap_append, ← unpackBits, spelled.bits_eq, List.append_nil]
      rfl
    have longer : Spelling (treeHeight n.toNat) shape (unpackBits (front ++ [0]))
        (List.replicate 8 false) hashes [] :=
      ⟨spelled.fits,spelled.ragged,Or.inr (Or.inr rfl),bits,spelled.hashes_eq⟩
    have made : PartialMerkleTree.create D n hashes (front ++ [0]) =
        .ok (some (treeOf D n hashes (front ++ [0]) shape)) := by
      rw [create_eq D counted, longer.walk]
      exact if_pos ⟨rfl,by decide,by decide⟩
    have few := few_of_padded counted longer (exact _ made)
    rw [List.length_replicate] at few
    exact absurd few (Nat.lt_irrefl 8)
  · intro spare tree made
    obtain ⟨shape,rest,counted,run,-⟩ := accepted made
    have spelled := walk_read run
    rw [create_eq D counted, run] at made
    by_cases used : UsedUp rest []
    · obtain ⟨-,few,zeros⟩ := used
      refine padded_of_few counted spelled (Nat.lt_of_le_of_ne few fun eight => ?_) zeros
      have all : rest = List.replicate 8 false := by
        rw [← eight, List.eq_replicate_iff]
        exact ⟨rfl,fun bit mem => Bool.eq_false_iff.mpr fun set => zeros (set ▸ mem)⟩
      obtain ⟨front,cut,whole⟩ := last_byte spelled all
      exact spare ⟨counted,front,shape,cut,whole⟩
    · dsimp only at made
      rw [if_neg used] at made
      cases made

end Padding

/-- The last two of six transactions, whose right neighbours are missing. -/
def lastPair : PartialTree SHA256Hash :=
  .fork (.fork (.given false (plain 1)) (.given false (plain 2)))
    (.lone (.fork (.given true (plain 3)) (.given false (plain 4))))

theorem lastPair_walked : walk (treeHeight (6 : UInt32).toNat) (unpackBits [0x73,0x00])
    [plain 1,plain 2,plain 3,plain 4] = .read lastPair (List.replicate 8 false) [] := by
  rfl

/-- The eight flag bits are one byte, and two bytes are accepted. -/
theorem spare_byte_accepted :
    (∃ tree, PartialMerkleTree.create (Digests.known [] []) 6
        [plain 1,plain 2,plain 3,plain 4] [0x73,0x00] = .ok (some tree)) ∧
      ¬ PaddedExactly (Digests.known [] []) 6 [plain 1,plain 2,plain 3,plain 4] [0x73,0x00] := by
  constructor
  · refine ⟨treeOf (Digests.known [] []) 6 [plain 1,plain 2,plain 3,plain 4] [0x73,0x00]
      lastPair,?_⟩
    rw [create_eq _ (by decide), lastPair_walked]
    exact if_pos ⟨rfl,by decide,by decide⟩
  · intro padded
    have few := few_of_padded (by decide) (walk_read lastPair_walked) padded
    exact absurd few (by decide)

end ProofPadding
