import AltMessenger.ECurve

/-!
Signatures in DER. `der` writes each number with no more bytes than it needs; `importDer` takes
32 bytes from two fixed places, whatever the lengths in front of them say.
-/
namespace DerSignatures
open SwiftRuntime BitcoinHash BitcoinKeys
open ECurve (bigUIntFromUInt32Array)

/-- `data.getBytes(&words, range: NSMakeRange(location, length))`; a range past the end faults. -/
def getBytes (data : List UInt8) (location length : Nat) : Except Trap (List UInt8) :=
  if location + length ≤ data.length then .ok ((data.drop location).take length)
  else .error .index

/-- The words at these bytes, each with `.bigEndian`. -/
def bigEndianWords : List UInt8 → List Nat
  | a :: b :: c :: d :: rest => bigUInt [a,b,c,d] :: bigEndianWords rest
  | _ => []

def importDer (data : List UInt8) : Except Trap (Nat × Nat) := do
  let R ← getBytes data 4 0x20
  let S ← getBytes data 39 0x20
  let r ← bigUIntFromUInt32Array (bigEndianWords R)
  let s ← bigUIntFromUInt32Array (bigEndianWords S)
  pure (r, s)

/-- The bytes of an integer that is not negative: a zero is in front exactly if the byte behind it
    has its top bit set. -/
structure StrictInteger (number : Nat) (bytes : List UInt8) : Prop where
  value : bigUInt bytes = number
  unsigned : ∃ first rest, bytes = first :: rest ∧ first ≤ 0x7f
  minimal : ∀ rest, bytes = 0x00 :: rest → ∃ next more, rest = next :: more ∧ 0x7f < next

/-- A sequence of two integers, all lengths in one byte. -/
def StrictDer (r s : Nat) (data : List UInt8) : Prop :=
  ∃ R S, StrictInteger r R ∧ StrictInteger s S ∧ R.length + S.length + 4 < 0x80 ∧
    data = [0x30,UInt8.ofNat (R.length + S.length + 4)] ++ [0x02,UInt8.ofNat R.length] ++ R ++
      [0x02,UInt8.ofNat S.length] ++ S

/-- The encoding is strict, and gives the two numbers back. -/
def RoundTrips (r s : Nat) : Prop :=
  ∃ data, der r s = .ok data ∧ StrictDer r s data ∧ importDer data = .ok (r, s)

section Words
variable {data : List UInt8}

theorem getBytes_ok {location length : Nat} {bytes : List UInt8} :
    getBytes data location length = .ok bytes ↔
      location + length ≤ data.length ∧ bytes = (data.drop location).take length := by
  unfold getBytes
  split_ifs with inside
  · simp [inside, eq_comm]
  · simp [inside]

theorem getBytes_between (before bytes behind : List UInt8) :
    getBytes (before ++ (bytes ++ behind)) before.length bytes.length = .ok bytes := by
  rw [getBytes, if_pos (by simp), List.drop_left, List.take_left]

theorem four_bytes {count : Nat} {bytes : List UInt8} (length : bytes.length = 4 * (count + 1)) :
    ∃ a b c d rest, bytes = a :: b :: c :: d :: rest ∧ rest.length = 4 * count := by
  rcases bytes with _ | ⟨a,_ | ⟨b,_ | ⟨c,_ | ⟨d,rest⟩⟩⟩⟩
  case cons.cons.cons.cons =>
    simp only [List.length_cons] at length
    exact ⟨a,b,c,d,rest,rfl,by omega⟩
  all_goals
    simp only [List.length_cons, List.length_nil] at length
    omega

theorem foldl_words (count : Nat) {bytes : List UInt8} (length : bytes.length = 4 * count)
    (value : Nat) :
    (bigEndianWords bytes).foldl (fun value num => value <<< 32 + num) value =
      value * 256 ^ bytes.length + bigUInt bytes := by
  induction count generalizing bytes value with
  | zero =>
    rw [List.length_eq_zero_iff.mp length]
    simp [bigEndianWords, bigUInt, LittleEndian.ofBytes]
  | succ count ih =>
    obtain ⟨a,b,c,d,rest,rfl,shorter⟩ := four_bytes length
    have front : bigUInt (a :: b :: c :: d :: rest) =
        bigUInt [a,b,c,d] * 256 ^ rest.length + bigUInt rest :=
      bigUInt_append [a,b,c,d] rest
    rw [bigEndianWords, List.foldl_cons, ih shorter, front, Nat.shiftLeft_eq]
    simp only [List.length_cons, pow_succ]
    ring

theorem bigEndianWords_length (count : Nat) {bytes : List UInt8}
    (length : bytes.length = 4 * count) : (bigEndianWords bytes).length = count := by
  induction count generalizing bytes with
  | zero =>
    rw [List.length_eq_zero_iff.mp length]
    rfl
  | succ count ih =>
    obtain ⟨a,b,c,d,rest,rfl,shorter⟩ := four_bytes length
    rw [bigEndianWords, List.length_cons, ih shorter]

theorem words_value {bytes : List UInt8} (length : bytes.length = 32) :
    bigUIntFromUInt32Array (bigEndianWords bytes) = .ok (bigUInt bytes) := by
  have eight := bigEndianWords_length 8 length
  have value := foldl_words 8 length 0
  rw [Nat.zero_mul, Nat.zero_add] at value
  rw [bigUIntFromUInt32Array, ECurve.ECPoint.assert, decide_eq_true eight, value]
  rfl

end Words

section Integers
variable {number : Nat} {bytes : List UInt8}

theorem derBytes_strict (positive : 0 < number) :
    ∃ bytes, derBytes number = .ok bytes ∧ StrictInteger number bytes := by
  obtain ⟨b,tail,written⟩ := serialize_cons positive
  have value : bigUInt (b :: tail) = number := by
    rw [← written]
    exact bigUInt_serialize number
  have nonzero : b ≠ 0x00 := by
    intro zero
    have head := serialize_head number
    rw [written, zero] at head
    simp at head
  have run : derBytes number =
      .ok (if b > 0x7f then 0x00 :: b :: tail else b :: tail) := by
    rw [derBytes, written]
    rfl
  refine ⟨_,run,?_⟩
  split_ifs with top
  · refine ⟨?_,⟨0x00,b :: tail,rfl,by decide⟩,fun rest same => ?_⟩
    · rw [bigUInt_cons, value]
      simp
    · obtain ⟨_,rfl⟩ := List.cons.inj same
      exact ⟨b,tail,rfl,top⟩
  · refine ⟨value,⟨b,tail,rfl,UInt8.not_lt.mp top⟩,fun rest same => ?_⟩
    exact absurd (List.cons.inj same).1 nonzero

theorem StrictInteger.range (strict : StrictInteger number bytes) {width : Nat}
    (length : bytes.length = width + 1) :
    2 ^ (8 * width - 1) ≤ number ∧ number < 2 ^ (8 * width + 7) := by
  obtain ⟨first,rest,rfl,unsigned⟩ := strict.unsigned
  have size : rest.length = width := by
    rw [List.length_cons] at length
    omega
  have value := strict.value
  have below := bigUInt_lt rest
  rw [bigUInt_cons, size] at value
  rw [size] at below
  have top : first.toNat ≤ 127 := unsigned
  constructor
  · by_cases zero : first = 0x00
    · obtain ⟨next,more,rfl,high⟩ := strict.minimal rest (by rw [zero])
      have next_top : 128 ≤ next.toNat := high
      have shorter : 8 * width - 1 = 8 * more.length + 7 := by
        rw [← size, List.length_cons]
        omega
      have large := Nat.mul_le_mul_right (256 ^ more.length) next_top
      rw [zero, bigUInt_cons] at value
      rw [shorter, pow_add, ← bytes_pow]
      change 0 * _ + _ = _ at value
      omega
    · have positive : 1 ≤ first.toNat := by
        rw [Nat.one_le_iff_ne_zero]
        exact fun same => zero (UInt8.toNat_inj.mp same)
      have large := Nat.mul_le_mul_right (256 ^ width) positive
      have smaller : 2 ^ (8 * width - 1) ≤ 256 ^ width := by
        rw [bytes_pow]
        exact Nat.pow_le_pow_right (by decide) (Nat.sub_le _ _)
      omega
  · have most := Nat.mul_le_mul_right (256 ^ width) top
    rw [pow_add, ← bytes_pow]
    omega

theorem StrictInteger.length_iff (strict : StrictInteger number bytes) {width : Nat} :
    bytes.length = width + 1 ↔ 2 ^ (8 * width - 1) ≤ number ∧ number < 2 ^ (8 * width + 7) := by
  constructor
  · exact strict.range
  · rintro ⟨low,high⟩
    obtain ⟨first,rest,rfl,_⟩ := strict.unsigned
    have size : (first :: rest).length = rest.length + 1 := List.length_cons
    obtain ⟨low',high'⟩ := strict.range size
    have above := (Nat.pow_lt_pow_iff_right (by decide)).mp (low.trans_lt high')
    have below := (Nat.pow_lt_pow_iff_right (by decide)).mp (low'.trans_lt high)
    rw [List.length_cons]
    omega

/-- One byte more than the bits fill is there only for the top bit. -/
theorem StrictInteger.padded_iff (strict : StrictInteger number bytes) {width : Nat}
    (below : number < 2 ^ (8 * width)) : bytes.length = width + 1 ↔ 2 ^ (8 * width - 1) ≤ number := by
  rw [strict.length_iff]
  exact and_iff_left (below.trans_le (Nat.pow_le_pow_right (by decide) (Nat.le_add_right _ 7)))

end Integers

def sequence (R S : List UInt8) : List UInt8 :=
  [0x30,UInt8.ofNat (R.length + S.length + 4)] ++ [0x02,UInt8.ofNat R.length] ++ R ++
    [0x02,UInt8.ofNat S.length] ++ S

section Sequences
variable {r s : Nat} {R S : List UInt8}

theorem StrictInteger.short (strict : StrictInteger r R) (below : r < 2 ^ 256) :
    R.length ≤ 33 := by
  obtain ⟨first,rest,rfl,_⟩ := strict.unsigned
  have size : (first :: rest).length = rest.length + 1 := List.length_cons
  obtain ⟨low,_⟩ := strict.range size
  have bits := (Nat.pow_lt_pow_iff_right (by decide)).mp (low.trans_lt below)
  rw [List.length_cons]
  omega

/-- The encoding of any two numbers of 256 bits is strict. -/
theorem der_strict (r_positive : 0 < r) (r_below : r < 2 ^ 256) (s_positive : 0 < s)
    (s_below : s < 2 ^ 256) :
    ∃ R S, der r s = .ok (sequence R S) ∧ StrictInteger r R ∧ StrictInteger s S ∧
      R.length ≤ 33 ∧ S.length ≤ 33 := by
  obtain ⟨R,r_bytes,r_strict⟩ := derBytes_strict r_positive
  obtain ⟨S,s_bytes,s_strict⟩ := derBytes_strict s_positive
  have r_short := r_strict.short r_below
  have s_short := s_strict.short s_below
  refine ⟨R,S,?_,r_strict,s_strict,r_short,s_short⟩
  let z := [0x02,UInt8.ofNat R.length] ++ R ++ [0x02,UInt8.ofNat S.length] ++ S
  have size : z.length = R.length + S.length + 4 := by
    simp only [z, List.length_append, List.length_cons, List.length_nil]
    omega
  have count : uint8 z.length = .ok (UInt8.ofNat (R.length + S.length + 4)) := by
    rw [size]
    exact uint8_ok (by omega)
  rw [der, bind_ready r_bytes, bind_ready s_bytes, bind_ready (uint8_ok (by omega)),
    bind_ready (uint8_ok (by omega))]
  refine (bind_ready count).trans ?_
  simp only [sequence, List.append_assoc]
  rfl

/-- The two ranges lie inside the bytes where the numbers take 65 of them or more. -/
theorem importDer_short (short : R.length + S.length < 65) :
    importDer (sequence R S) = .error .index := by
  have size : (sequence R S).length = R.length + S.length + 6 := by
    simp only [sequence, List.length_append, List.length_cons, List.length_nil]
    omega
  have second : getBytes (sequence R S) 39 0x20 = .error .index := if_neg (by omega)
  rw [importDer]
  by_cases inside : 4 + 0x20 ≤ (sequence R S).length
  · have first : getBytes (sequence R S) 4 0x20 = .ok (((sequence R S).drop 4).take 0x20) :=
      if_pos inside
    rw [bind_ready first, bind_halted second]
  · have first : getBytes (sequence R S) 4 0x20 = .error .index := if_neg inside
    rw [bind_halted first]

theorem getBytes_first (long : 32 ≤ R.length) :
    getBytes (sequence R S) 4 0x20 = .ok (R.take 32) := by
  have between := getBytes_between
    ([0x30,UInt8.ofNat (R.length + S.length + 4)] ++ [0x02,UInt8.ofNat R.length]) (R.take 32)
    (R.drop 32 ++ ([0x02,UInt8.ofNat S.length] ++ S))
  rw [List.length_take_of_le long, ← List.append_assoc (R.take 32), List.take_append_drop] at between
  simp only [← List.append_assoc] at between
  exact between

/-- With an integer of 32 bytes in front the second range is all but the first byte of one of 33. -/
theorem getBytes_second {zero : UInt8} {tail : List UInt8} (first : R.length = 32)
    (second : tail.length = 32) :
    getBytes (sequence R (zero :: tail)) 39 0x20 = .ok tail := by
  have between := getBytes_between
    ([0x30,UInt8.ofNat (R.length + (zero :: tail).length + 4)] ++ [0x02,UInt8.ofNat R.length] ++ R ++
      [0x02,UInt8.ofNat (zero :: tail).length] ++ [zero]) tail []
  have place : ([0x30,UInt8.ofNat (R.length + (zero :: tail).length + 4)] ++
      [0x02,UInt8.ofNat R.length] ++ R ++ [0x02,UInt8.ofNat (zero :: tail).length] ++
      [zero]).length = 39 := by
    simp only [List.length_append, List.length_cons, List.length_nil, first]
  rw [place, second, List.append_nil, List.append_assoc _ [zero] tail] at between
  exact between

/-- Of an integer of 33 bytes the last is left behind. -/
theorem take_ne (strict : StrictInteger r R) (positive : 0 < r) (length : R.length = 33) :
    bigUInt (R.take 32) ≠ r := by
  have split := bigUInt_append (R.take 32) (R.drop 32)
  have one : (R.drop 32).length = 1 := by rw [List.length_drop, length]
  rw [List.take_append_drop, strict.value, one] at split
  omega

/-- The numbers are read back where the first takes 32 bytes and the second 33. -/
theorem importDer_iff (r_strict : StrictInteger r R) (s_strict : StrictInteger s S)
    (r_positive : 0 < r) (s_below : s < 2 ^ 256) (r_short : R.length ≤ 33)
    (s_short : S.length ≤ 33) :
    importDer (sequence R S) = .ok (r, s) ↔ R.length = 32 ∧ S.length = 33 := by
  constructor
  · intro run
    by_contra other
    by_cases short : R.length + S.length < 65
    · rw [importDer_short short] at run
      cases run
    · have length : R.length = 33 := by omega
      have first := getBytes_first (S := S) (show 32 ≤ R.length by omega)
      have front : (R.take 32).length = 32 := List.length_take_of_le (by omega)
      obtain ⟨_,_,run⟩ := bind_ran.mp ((bind_ready first).symm.trans run)
      rw [bind_ready (words_value front)] at run
      obtain ⟨_,_,run⟩ := bind_ran.mp run
      exact take_ne r_strict r_positive length (Prod.mk.inj (Except.ok.inj run)).1
  · rintro ⟨r_length,s_length⟩
    obtain ⟨zero,tail,rfl,_⟩ := s_strict.unsigned
    rw [List.length_cons] at s_length
    have tail_length : tail.length = 32 := by omega
    have first := getBytes_first (S := zero :: tail) r_length.ge
    rw [List.take_of_length_le r_length.le] at first
    -- 33 bytes of a number of 256 bits start with zero
    have value := s_strict.value
    rw [bigUInt_cons, tail_length] at value
    have padded : zero.toNat = 0 := by
      by_contra nonzero
      have large := Nat.mul_le_mul_right (256 ^ 32) (Nat.pos_of_ne_zero nonzero)
      omega
    rw [padded, Nat.zero_mul, Nat.zero_add] at value
    rw [importDer, bind_ready first, bind_ready (getBytes_second r_length tail_length),
      bind_ready (words_value r_length), bind_ready (words_value tail_length), r_strict.value, value]
    rfl

end Sequences

theorem order_below : order < 2 ^ 256 := by decide

/-- Every encoding is strict, and it is read back where the first number has 248 to 255 bits and
    the second 256. -/
theorem der_round_trip_iff {r s : Nat} (r_positive : 0 < r) (r_below : r < order)
    (s_positive : 0 < s) (s_below : s < order) :
    (∃ data, der r s = .ok data ∧ StrictDer r s data) ∧
      (RoundTrips r s ↔ 2 ^ 247 ≤ r ∧ r < 2 ^ 255 ∧ 2 ^ 255 ≤ s) := by
  have r_bits := r_below.trans order_below
  have s_bits := s_below.trans order_below
  obtain ⟨R,S,written,r_strict,s_strict,r_short,s_short⟩ :=
    der_strict r_positive r_bits s_positive s_bits
  have strict : StrictDer r s (sequence R S) := ⟨R,S,r_strict,s_strict,by omega,rfl⟩
  have read := importDer_iff r_strict s_strict r_positive s_bits r_short s_short
  have r_length := @StrictInteger.length_iff r R r_strict 31
  have s_length := @StrictInteger.padded_iff s S s_strict 32 s_bits
  refine ⟨⟨_,written,strict⟩,?_⟩
  constructor
  · rintro ⟨data,written',_,back⟩
    cases written.symm.trans written'
    obtain ⟨r_32,s_33⟩ := read.mp back
    obtain ⟨low,high⟩ := r_length.mp r_32
    exact ⟨low,high,s_length.mp s_33⟩
  · rintro ⟨low,high,top⟩
    exact ⟨_,written,strict,read.mpr ⟨r_length.mpr ⟨low,high⟩,s_length.mpr top⟩⟩

theorem high_pair_round_trips : RoundTrips (2 ^ 247) (2 ^ 255) :=
  (der_round_trip_iff (by decide) (by decide) (by decide) (by decide)).2.mpr
    ⟨le_rfl,by decide,le_rfl⟩

/-- The shortest signature ends before the ranges, and of two numbers of 256 bits another first
    one is read. -/
theorem short_pair_faults :
    der 1 1 = .ok [0x30,0x06,0x02,0x01,0x01,0x02,0x01,0x01] ∧
      importDer [0x30,0x06,0x02,0x01,0x01,0x02,0x01,0x01] = .error .index ∧
      ¬ RoundTrips 1 1 ∧ (der (2 ^ 255) (2 ^ 255) >>= importDer) = .ok (2 ^ 247, 2 ^ 247) ∧
      ¬ RoundTrips (2 ^ 255) (2 ^ 255) := by
  have written : der 1 1 = .ok [0x30,0x06,0x02,0x01,0x01,0x02,0x01,0x01] := by decide
  have faults : importDer [0x30,0x06,0x02,0x01,0x01,0x02,0x01,0x01] = .error .index := by decide
  have other : (der (2 ^ 255) (2 ^ 255) >>= importDer) = .ok (2 ^ 247, 2 ^ 247) := by
    decide +kernel
  refine ⟨written,faults,?_,other,?_⟩
  · rintro ⟨data,written',_,back⟩
    cases written.symm.trans written'
    cases faults.symm.trans back
  · rintro ⟨data,written',_,back⟩
    rw [bind_ready written', back] at other
    exact absurd (Prod.mk.inj (Except.ok.inj other)).1 (by decide)

end DerSignatures
