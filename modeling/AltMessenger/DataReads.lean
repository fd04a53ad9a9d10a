import AltMessenger.BitcoinHash

/-!
What `readData` makes of a stream that is shorter than the count. It reads in blocks of 256 bytes
and refuses a block that is cut off, but a stream that ends with a block is handed over as it is.
-/
namespace DataReads
open ByteReader SwiftRuntime BitcoinStream BitcoinHash

section Blocks
variable {passes length : Nat} {bs : List UInt8}

theorem readPasses_short (fuel : length ≤ passes) (short : bs.length < length) :
    readPasses passes length bs = if 256 ∣ bs.length then .ok bs [] else .fail := by
  induction passes generalizing length bs with
  | zero => omega
  | succ passes ih =>
    by_cases dry : bs = []
    · subst dry
      rw [readPasses_stop (Or.inl rfl), if_pos (by simp)]
    have some : 0 < bs.length := List.length_pos_iff.mpr dry
    rw [readPasses_go (by simp [dry]; omega)]
    by_cases cut : bs.length < min length 256
    · rw [bind_fail (if_pos cut), if_neg (by omega)]
    · -- a whole block; the rest is as short of the rest of the count
      have block : min length 256 = 256 := by omega
      rw [block] at cut ⊢
      have later := @ih (length - 256) (bs.drop 256) (by omega) (by rw [List.length_drop]; omega)
      have whole : 256 ∣ (bs.drop 256).length ↔ 256 ∣ bs.length := by
        rw [List.length_drop]
        omega
      rw [bind_ok (if_neg cut)]
      by_cases ends : 256 ∣ bs.length
      · rw [if_pos (whole.mpr ends)] at later
        rw [bind_ok later, if_pos ends, pure_apply, List.take_append_drop]
      · rw [if_neg (mt whole.mp ends)] at later
        rw [bind_fail later, if_neg ends]

/-- All that `readData` does with a count. -/
theorem readData_eq (positive : 0 < length) (bs : List UInt8) :
    readData length bs =
      if length ≤ bs.length then .ok (bs.take length) (bs.drop length)
      else if 256 ∣ bs.length then .ok bs [] else .fail := by
  rw [readData, if_neg positive.ne']
  split
  · exact readPasses_enough length length bs le_rfl ‹_›
  · exact readPasses_short le_rfl (by omega)

end Blocks

/-- The next bytes and no others, or nothing. -/
def Exactly (count : Nat) (bs : List UInt8) (result : Parse Trap (List UInt8)) : Prop :=
  (count ≤ bs.length → result = .ok (bs.take count) (bs.drop count)) ∧
    (bs.length < count → result = .fail)

theorem readData_exact_iff {count : Nat} (positive : 0 < count) (bs : List UInt8) :
    Exactly count bs (readData count bs) ↔ count ≤ bs.length ∨ ¬ 256 ∣ bs.length := by
  rw [Exactly, readData_eq positive]
  by_cases enough : count ≤ bs.length
  · simp [enough, Nat.not_lt.mpr enough]
  · by_cases block : 256 ∣ bs.length
    · simp [enough, block]
    · simp [enough, block]

theorem two_of_three_exact : Exactly 2 [1,2,3] (readData 2 [1,2,3]) :=
  (readData_exact_iff (by decide) [1,2,3]).mpr (Or.inl (by decide))

/-- Of an empty stream no bytes are read, where 32 were asked for. -/
theorem nothing_for_a_hash :
    readData 32 [] = .ok [] [] ∧ ¬ Exactly 32 [] (readData 32 []) := by
  refine ⟨rfl,?_⟩
  intro exact
  have refused := exact.2 (by decide)
  cases refused

/-- A hash that fits a block: read whole, refused where it is cut off, and an assertion that fails
    where nothing is left. -/
theorem hash_read {width : Nat} (positive : 0 < width) (one_block : width ≤ 256)
    (bs : List UInt8) :
    (∃ hash : HashOf width, ∃ rest, bs = hash.bitcoinData ++ rest ∧
        HashOf.fromBitcoinStream width bs = .ok hash rest) ∨
      bs.length < width ∧ HashOf.fromBitcoinStream width bs =
        if bs = [] then .trap .assertion else .fail := by
  by_cases enough : width ≤ bs.length
  · have size : (bs.take width).reverse.length = width := by simp [enough]
    let hash : HashOf width := ⟨(bs.take width).reverse,size⟩
    have bytes : hash.bitcoinData = bs.take width := List.reverse_reverse _
    have spelled : bs = hash.bitcoinData ++ bs.drop width := by
      rw [bytes, List.take_append_drop]
    have read := reads_hash positive hash (bs.drop width)
    rw [← spelled] at read
    exact Or.inl ⟨hash,bs.drop width,spelled,read⟩
  · refine Or.inr ⟨by omega,?_⟩
    have read := readData_eq positive bs
    rw [if_neg enough] at read
    split
    · rename_i dry
      subst dry
      rw [if_pos (by simp)] at read
      have empty : HashOf.ofData width ([] : List UInt8).reverse = .error .assertion :=
        dif_neg (by simpa using positive.ne)
      rw [HashOf.fromBitcoinStream, bind_ok read, empty]
      rfl
    · rename_i some
      have more := List.length_pos_iff.mpr some
      rw [if_neg (by omega)] at read
      exact bind_fail read

end DataReads
