import AltMessenger.BloomFilter

/-!
The filter's own test. It looks at the whole byte in which a hash function's bit lies, and one byte
that is not zero is enough for it.
-/
namespace BloomMembership
open MachineWords SwiftRuntime BitFields BloomFilter

/-- The byte in which the bit of the hash function lies. Neither may the number of bits exceed 32
    bits, nor may it be zero. -/
def byteFor (filter : Filter) (bytes : List UInt8) (i : Nat) : Except Trap UInt8 := do
  let hash_value ← hash32Bytes bytes (UInt32.ofNat i * 0xfba4c795 + filter.tweak)
  if filter.byteArray.length * 8 < 2 ^ 32 then
    if filter.byteArray.length ≠ 0 then
      let adjust_hash_value := hash_value % UInt32.ofNat (filter.byteArray.length * 8)
      let idx := adjust_hash_value >>> 3
      subscript filter.byteArray idx.toNat
    else .error .overflow
  else .error .conversion

def containLoop (filter : Filter) (bytes : List UInt8) : List Nat → Except Trap Bool
  | [] => pure false
  | i :: later => do
    let byte ← byteFor filter bytes i
    if byte ≠ 0 then pure true else containLoop filter bytes later

/-- `BloomFilter.contain`, with the bytes of the string -/
def contain (filter : Filter) (bytes : List UInt8) : Except Trap Bool :=
  containLoop filter bytes (List.range filter.hash_funcs.toNat)

/-- Every bit is set that adding the string would set. -/
def AllSet (filter : Filter) (bytes : List UInt8) : Prop :=
  ∀ i < filter.hash_funcs.toNat, ∃ idx, filter.hash bytes (UInt32.ofNat i) = .ok idx ∧
    bit filter.byteArray idx.toNat = true

def Agrees (filter : Filter) (bytes : List UInt8) : Prop :=
  ∃ answer, contain filter bytes = .ok answer ∧ (answer = true ↔ AllSet filter bytes)

/-- None of the bytes has a bit set to which the hash functions of the element lead. -/
def Untouched (filter : Filter) (element : List UInt8) : Prop :=
  ∀ i < filter.hash_funcs.toNat,
    filter.byteArray.getD (index filter.byteArray.length filter.tweak element i / 8) 0 = 0

/-- There are bits to look at, and hash functions to find them; and near the bits of the element no
    other bit is set, if not all of its own are. -/
structure Apart (filter : Filter) (element : List UInt8) : Prop where
  some_function : 0 < filter.hash_funcs.toNat
  some_byte : 0 < filter.byteArray.length
  countable : filter.byteArray.length < 2 ^ 29
  short : element.length < 2 ^ 32
  clear : Passes filter.byteArray filter.hash_funcs filter.tweak element ∨ Untouched filter element

section Reached
variable {filter : Filter}

/-- An addition changes nothing but bits. -/
theorem filterAdd_length {next : Filter} {element : List UInt8}
    (whole : filter.byteArray.length = filter.length.toNat)
    (run : filter.filterAdd element = .ok next) :
    next.byteArray.length = next.length.toNat := by
  refine foldlM_keeps (fun f => f.byteArray.length = f.length.toNat) ?_ whole run
  intro f i next whole turn
  obtain ⟨idx,_,set⟩ := bind_ran.mp turn
  obtain ⟨byte,_,set⟩ := bind_ran.mp set
  obtain ⟨bit,_,set⟩ := bind_ran.mp set
  cases set
  rw [List.length_set]
  exact whole

theorem reached_length {length hash_funcs tweak : UInt32} {elements : List (List UInt8)}
    (reached : (Filter.create length hash_funcs tweak).addAll elements = .ok filter) :
    filter.byteArray.length = filter.length.toNat := by
  refine foldlM_keeps (fun f => f.byteArray.length = f.length.toNat)
    (fun f element next => filterAdd_length) ?_ reached
  simp [Filter.create]

end Reached

section Test
variable {filter : Filter} {element : List UInt8}

/-- The hash function leads to a bit, and to the byte around it. -/
theorem positions (whole : filter.byteArray.length = filter.length.toNat)
    (some_byte : 0 < filter.byteArray.length) (countable : filter.byteArray.length < 2 ^ 29)
    (short : element.length < 2 ^ 32) (i : Nat) :
    (∃ idx, filter.hash element (UInt32.ofNat i) = .ok idx ∧
        idx.toNat = index filter.byteArray.length filter.tweak element i) ∧
      byteFor filter element i =
        .ok (filter.byteArray.getD (index filter.byteArray.length filter.tweak element i / 8) 0) := by
  have hashed := hash32Bytes_eq element (UInt32.ofNat i * 0xfba4c795 + filter.tweak) short
  have bits : (filter.length * 8).toNat = filter.byteArray.length * 8 := by
    rw [UInt32.toNat_mul, ← whole]
    exact Nat.mod_eq_of_lt (show filter.byteArray.length * 8 < 2 ^ 32 by omega)
  have count : (UInt32.ofNat (filter.byteArray.length * 8)).toNat = filter.byteArray.length * 8 :=
    UInt32.toNat_ofNat_of_lt' (show filter.byteArray.length * 8 < 2 ^ 32 by omega)
  have inside : index filter.byteArray.length filter.tweak element i / 8 <
      filter.byteArray.length := by
    have below : index filter.byteArray.length filter.tweak element i <
        filter.byteArray.length * 8 := Nat.mod_lt _ (by omega)
    omega
  constructor
  · have nonzero : filter.length ≠ 0 := by
      intro zero
      rw [whole, zero] at some_byte
      cases some_byte
    unfold Filter.hash
    rw [bind_ready hashed, if_pos ⟨by rw [← whole]; omega,nonzero⟩]
    exact ⟨_,rfl,by rw [UInt32.toNat_mod, bits, index]⟩
  · have place : ((MurmurHash3.hash (UInt32.ofNat i * 0xfba4c795 + filter.tweak) element %
        UInt32.ofNat (filter.byteArray.length * 8)) >>> 3).toNat =
        index filter.byteArray.length filter.tweak element i / 8 := by
      rw [UInt32.toNat_shiftRight, UInt32.toNat_mod, count, index]
      exact Nat.shiftRight_eq_div_pow _ 3
    unfold byteFor
    rw [bind_ready hashed, if_pos (by omega), if_pos (by omega)]
    dsimp only
    rw [place, subscript_ok, List.getD_eq_getElem?_getD, List.getElem?_eq_getElem inside]
    rfl

/-- The loop finds whether one of the bytes is not zero. -/
theorem containLoop_eq {byte : Nat → UInt8} {turns : List Nat}
    (found : ∀ i ∈ turns, byteFor filter element i = .ok (byte i)) :
    containLoop filter element turns = .ok (turns.any fun i => byte i ≠ 0) := by
  induction turns with
  | nil => rfl
  | cons i turns ih =>
    rw [containLoop, bind_ready (found i List.mem_cons_self), List.any_cons]
    by_cases nonzero : byte i ≠ 0
    · rw [if_pos nonzero, decide_eq_true nonzero]
      rfl
    · rw [if_neg nonzero, decide_eq_false nonzero, Bool.false_or]
      exact ih fun j mem => found j (List.mem_cons_of_mem i mem)

/-- A bit that is set is set in a byte that is not zero. -/
theorem byte_of_bit {bytes : List UInt8} {i : Nat} (set : bit bytes i = true) :
    bytes.getD (i / 8) 0 ≠ 0 := by
  intro zero
  rw [bit, zero] at set
  simp at set

theorem contain_first {answer : Bool} (run : contain filter element = .ok answer)
    (some_function : 0 < filter.hash_funcs.toNat) :
    0 < filter.byteArray.length ∧ filter.byteArray.length < 2 ^ 29 ∧ element.length < 2 ^ 32 := by
  obtain ⟨count,functions⟩ := Nat.exists_eq_succ_of_ne_zero (Nat.ne_of_gt some_function)
  rw [contain, functions, List.range_succ_eq_map, containLoop] at run
  obtain ⟨byte,first,_⟩ := bind_ran.mp run
  obtain ⟨hash_value,hashed,first⟩ := bind_ran.mp first
  have short : element.length < 2 ^ 32 := by
    by_contra long
    exact hash32Bytes_long _ _ (Nat.not_lt.mp long) hash_value hashed
  split at first
  case isFalse => cases first
  case isTrue countable =>
    split at first
    case isFalse => cases first
    case isTrue some_byte => exact ⟨Nat.pos_of_ne_zero some_byte,by omega,short⟩

/-- The filter's test of an element agrees with its insertion if and only if the element stands
    apart from what was inserted. -/
theorem agrees_iff {length hash_funcs tweak : UInt32} {elements : List (List UInt8)}
    (reached : (Filter.create length hash_funcs tweak).addAll elements = .ok filter)
    (element : List UInt8) : Agrees filter element ↔ Apart filter element := by
  have whole := reached_length reached
  by_cases functions : 0 < filter.hash_funcs.toNat
  case neg =>
    refine iff_of_false ?_ fun apart => functions apart.some_function
    rintro ⟨answer,run,same⟩
    have none_there : List.range filter.hash_funcs.toNat = [] := by
      rw [Nat.eq_zero_of_not_pos functions]
      rfl
    rw [contain, none_there] at run
    cases run
    exact absurd (same.mpr fun i below => absurd below (by omega)) Bool.false_ne_true
  case pos =>
    by_cases sized : 0 < filter.byteArray.length ∧ filter.byteArray.length < 2 ^ 29 ∧
        element.length < 2 ^ 32
    case neg =>
      refine iff_of_false ?_ fun apart => sized ⟨apart.some_byte,apart.countable,apart.short⟩
      rintro ⟨answer,run,_⟩
      exact sized (contain_first run functions)
    case pos =>
      obtain ⟨some_byte,countable,short⟩ := sized
      have at_each := positions whole some_byte countable short
      have all_set : AllSet filter element ↔
          Passes filter.byteArray filter.hash_funcs filter.tweak element := by
        refine forall₂_congr fun i _ => ?_
        obtain ⟨idx,hashed,place⟩ := (at_each i).1
        rw [← place]
        constructor
        · rintro ⟨other,hashed',set⟩
          cases hashed.symm.trans hashed'
          exact set
        · exact fun set => ⟨idx,hashed,set⟩
      have untouched : Untouched filter element ↔
          ((List.range filter.hash_funcs.toNat).any fun i =>
            filter.byteArray.getD (index filter.byteArray.length filter.tweak element i / 8) 0 ≠ 0)
            = false := by
        simp [Untouched]
      rw [Agrees, contain, containLoop_eq fun i _ => (at_each i).2, all_set]
      constructor
      · rintro ⟨answer,same_answer,same⟩
        refine ⟨functions,some_byte,countable,short,?_⟩
        rw [untouched]
        cases answer with
        | true => exact Or.inl (same.mp rfl)
        | false => exact Or.inr (Except.ok.inj same_answer)
      · rintro ⟨-,-,-,-,passes | clear⟩
        · refine ⟨true,?_,iff_of_true rfl passes⟩
          refine congrArg _ (List.any_eq_true.mpr ⟨0,List.mem_range.mpr functions,?_⟩)
          exact decide_eq_true (byte_of_bit (passes 0 functions))
        · refine ⟨false,congrArg _ (untouched.mp clear),iff_of_false Bool.false_ne_true ?_⟩
          exact fun passes => byte_of_bit (passes 0 functions) (clear 0 functions)

end Test

/-- A filter that holds one letter, in its only byte. -/
def oneLetter : Filter := { Filter.create 1 1 0 with byteArray := [4] }

theorem inserted_letter_agrees : Agrees oneLetter [97] ↔ Apart oneLetter [97] :=
  agrees_iff (show (Filter.create 1 1 0).addAll [[97]] = .ok oneLetter by decide +kernel) [97]

/-- Another letter is found although the bit is not set that its insertion would set. -/
theorem other_letter_found :
    (Filter.create 1 1 0).addAll [[97]] = .ok oneLetter ∧
      contain oneLetter [98] = .ok true ∧ ¬ Agrees oneLetter [98] := by
  have found : contain oneLetter [98] = .ok true := by decide +kernel
  have place : oneLetter.hash [98] (UInt32.ofNat 0) = .ok 3 := by decide +kernel
  refine ⟨by decide +kernel,found,?_⟩
  rintro ⟨answer,run,same⟩
  cases found.symm.trans run
  obtain ⟨idx,hashed,set⟩ := same.mp rfl 0 (by decide)
  cases place.symm.trans hashed
  exact absurd set (by decide)

end BloomMembership
