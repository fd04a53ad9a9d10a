import AltMessenger.LittleEndian
import AltMessenger.ByteReader
import AltMessenger.SwiftRuntime

/-!
`InputStream` over bytes held in memory, `NSMutableData` as the bytes appended
so far, and the variable-length integer. A stream is the list of unread bytes:
`hasBytesAvailable` is that list being nonempty, and `read` yields what is
there up to the length asked for. `nil` is `fail`, a fault is `trap`.
-/
namespace BitcoinStream
open ByteReader SwiftRuntime LittleEndian

abbrev Stream (α : Type) := Reader Trap α

inductive Endianness where
  | LittleEndian | BigEndian
  deriving DecidableEq, Repr

def orderBytes : Endianness → List UInt8 → List UInt8
  | .LittleEndian, bytes => bytes
  | .BigEndian, bytes => bytes.reverse

/-- `self.read(&readBuffer, maxLength: size)`, refused when it comes back short. -/
def readBuffer (size : Nat) : Stream (List UInt8) := fun bs =>
  if bs.length < size then .fail else .ok (bs.take size) (bs.drop size)

def readUInt8 : Stream UInt8 := fun bs =>
  match bs with
  | [] => .fail
  | b :: rest => .ok b rest

def readUInt16 (endianness : Endianness) : Stream UInt16 := do
  let buf ← readBuffer 2
  pure (UInt16.ofNat (ofBytes (orderBytes endianness buf)))

def readUInt32 (endianness : Endianness) : Stream UInt32 := do
  let buf ← readBuffer 4
  pure (UInt32.ofNat (ofBytes (orderBytes endianness buf)))

def readUInt64 (endianness : Endianness) : Stream UInt64 := do
  let buf ← readBuffer 8
  pure (UInt64.ofNat (ofBytes (orderBytes endianness buf)))

def readInt64 (endianness : Endianness) : Stream Int64 := do
  let buf ← readBuffer 8
  pure (UInt64.ofNat (ofBytes (orderBytes endianness buf))).toInt64

def hasBytesAvailable : Stream Bool := fun bs => .ok (!bs.isEmpty) bs

def readToEnd : Stream (List UInt8) := fun bs => .ok bs []

/-- The loop of `readData(length)`: at most 256 bytes a pass, and no further
    pass once the stream is dry, however many bytes are still owed. -/
def readPasses : Nat → Nat → Stream (List UInt8)
  | 0, _ => pure []
  | passes + 1, length => do
    let available ← hasBytesAvailable
    if available && 0 < length then do
      let subarray ← readBuffer (min length 256)
      let data ← readPasses passes (length - min length 256)
      pure (subarray ++ data)
    else pure []

/-- `readData(count)`; a count of zero means everything that is left. -/
def readData (count : Nat) : Stream (List UInt8) :=
  if count = 0 then readToEnd else readPasses count count

/-- `Int(length)` of a length read as `UInt64`. -/
def readLength (length : UInt64) : Stream Nat :=
  if length.toNat < 2 ^ 63 then pure length.toNat else raise .conversion

def readVarInt : Stream UInt64 := do
  let header ← readUInt8
  if header < 0xfd then pure (UInt64.ofNat header.toNat)
  else if header = 0xfd then do
    let uint16 ← readUInt16 .LittleEndian
    pure (UInt64.ofNat uint16.toNat)
  else if header = 0xfe then do
    let uint32 ← readUInt32 .LittleEndian
    pure (UInt64.ofNat uint32.toNat)
  else readUInt64 .LittleEndian

def appendUInt16 (value : UInt16) (endianness : Endianness) : List UInt8 :=
  orderBytes endianness (toBytes 2 value.toNat)

def appendUInt32 (value : UInt32) (endianness : Endianness) : List UInt8 :=
  orderBytes endianness (toBytes 4 value.toNat)

def appendUInt64 (value : UInt64) (endianness : Endianness) : List UInt8 :=
  orderBytes endianness (toBytes 8 value.toNat)

def appendInt64 (value : Int64) (endianness : Endianness) : List UInt8 :=
  orderBytes endianness (toBytes 8 value.toUInt64.toNat)

inductive VarIntType where
  | UInt8_t : UInt8 → VarIntType
  | UInt16_t : UInt16 → VarIntType
  | UInt32_t : UInt32 → VarIntType
  | UInt64_t : UInt64 → VarIntType
  deriving DecidableEq, Repr

structure VarInt where
  length : Nat
  type : VarIntType
  bytes : List UInt8
  deriving DecidableEq, Repr

/-- `VarInt(value)`. The four ranges cover every value, so the `default` of the
    source, with its `ReadError`, is never taken. -/
def VarInt.ofValue (value : UInt64) : VarInt :=
  let bin := toBytes 8 value.toNat
  if value.toNat < 0xfd then
    { length := 1, type := .UInt8_t (UInt8.ofNat value.toNat), bytes := bin.take 1 }
  else if value.toNat ≤ 0xffff then
    { length := 3, type := .UInt16_t (UInt16.ofNat value.toNat), bytes := 0xfd :: bin.take 2 }
  else if value.toNat ≤ 0xffffffff then
    { length := 5, type := .UInt32_t (UInt32.ofNat value.toNat), bytes := 0xfe :: bin.take 4 }
  else
    { length := 9, type := .UInt64_t value, bytes := 0xff :: bin }

def appendVarInt (value : UInt64) : List UInt8 := (VarInt.ofValue value).bytes

/-- `appendVarInt` of a count, an `Int` that is never negative. -/
def appendCount (count : Nat) : List UInt8 := appendVarInt (UInt64.ofNat count)

/-- The spellings of a variable-length integer, the shortest or not. -/
def Spells (value : UInt64) (bytes : List UInt8) : Prop :=
  (value.toNat < 0xfd ∧ bytes = [UInt8.ofNat value.toNat]) ∨
    (value.toNat < 2 ^ 16 ∧ bytes = 0xfd :: toBytes 2 value.toNat) ∨
    (value.toNat < 2 ^ 32 ∧ bytes = 0xfe :: toBytes 4 value.toNat) ∨
    bytes = 0xff :: toBytes 8 value.toNat

/-- The varint that starts this stream takes no more bytes than its value needs. -/
def shortVarInt : List UInt8 → Bool
  | [] => true
  | header :: bytes =>
    if header < 0xfd then true
    else if header = 0xfd then decide (0xfd ≤ ofBytes (bytes.take 2))
    else if header = 0xfe then decide (0xffff < ofBytes (bytes.take 4))
    else decide (0xffffffff < ofBytes (bytes.take 8))

@[simp] theorem orderBytes_length (e : Endianness) (bytes : List UInt8) :
    (orderBytes e bytes).length = bytes.length := by
  cases e <;> simp [orderBytes]

@[simp] theorem orderBytes_twice (e : Endianness) (bytes : List UInt8) :
    orderBytes e (orderBytes e bytes) = bytes := by
  cases e <;> simp [orderBytes]

theorem readBuffer_ok {size : Nat} {bs buf rest : List UInt8} :
    readBuffer size bs = .ok buf rest ↔ bs = buf ++ rest ∧ buf.length = size := by
  unfold readBuffer
  constructor
  · intro run
    split at run
    · cases run
    · cases run
      exact ⟨(List.take_append_drop size bs).symm, by simp; omega⟩
  · rintro ⟨rfl,rfl⟩
    simp

section Words

variable {α : Type}

/-- A word of fixed width, read in the order it was written in. -/
theorem reads_word (f : Nat → α) (e : Endianness) (width n : Nat) (bound : n < 256 ^ width) :
    Reads (do let buf ← readBuffer width; pure (f (ofBytes (orderBytes e buf))) : Stream α)
      (orderBytes e (toBytes width n)) (f n) := by
  intro rest
  rw [bind_ok (readBuffer_ok.mpr ⟨rfl,by simp⟩)]
  simp [ofBytes_toBytes width n bound]

theorem word_ok {f : Nat → α} {e : Endianness} {width : Nat} {bs rest : List UInt8} {a : α}
    (run : (do let buf ← readBuffer width; pure (f (ofBytes (orderBytes e buf))) : Stream α) bs =
      .ok a rest) :
    ∃ buf, bs = buf ++ rest ∧ buf.length = width ∧ a = f (ofBytes (orderBytes e buf)) := by
  obtain ⟨buf,mid,first,run⟩ := bind_eq_ok.mp run
  cases run
  obtain ⟨rfl,len⟩ := readBuffer_ok.mp first
  exact ⟨buf,rfl,len,rfl⟩

theorem spelled_word {f : Nat → α} {e : Endianness} (width : Nat) (g : α → Nat)
    (back : ∀ n, n < 256 ^ width → g (f n) = n) :
    Spelled (do let buf ← readBuffer width; pure (f (ofBytes (orderBytes e buf))) : Stream α)
      (fun a => orderBytes e (toBytes width (g a))) (fun _ => true) := by
  intro bs a rest run
  obtain ⟨buf,rfl,len,rfl⟩ := word_ok run
  have bound := ofBytes_lt (orderBytes e buf)
  have bytes := toBytes_ofBytes (orderBytes e buf)
  rw [orderBytes_length, len] at bound bytes
  have same : orderBytes e (toBytes width (g (f (ofBytes (orderBytes e buf))))) = buf := by
    rw [back _ bound, bytes, orderBytes_twice]
  exact ⟨buf, rfl, (congrArg List.length same).le, by simp [same]⟩

end Words

theorem readUInt8_cons (byte : UInt8) (rest : List UInt8) :
    readUInt8 (byte :: rest) = .ok byte rest := rfl

theorem reads_uint8 (value : UInt8) : Reads readUInt8 [value] value := fun _ => rfl

theorem reads_uint32 (value : UInt32) (e : Endianness) :
    Reads (readUInt32 e) (appendUInt32 value e) value := by
  have word := reads_word UInt32.ofNat e 4 value.toNat value.toNat_lt
  rwa [UInt32.ofNat_toNat] at word

theorem reads_uint64 (value : UInt64) (e : Endianness) :
    Reads (readUInt64 e) (appendUInt64 value e) value := by
  have word := reads_word UInt64.ofNat e 8 value.toNat value.toNat_lt
  rwa [UInt64.ofNat_toNat] at word

theorem reads_int64 (value : Int64) (e : Endianness) :
    Reads (readInt64 e) (appendInt64 value e) value := by
  have word := reads_word (fun n => (UInt64.ofNat n).toInt64) e 8 value.toUInt64.toNat
    value.toUInt64.toNat_lt
  rwa [UInt64.ofNat_toNat, Int64.toInt64_toUInt64] at word

theorem spelled_uint32 (e : Endianness) :
    Spelled (readUInt32 e) (appendUInt32 · e) (fun _ => true) :=
  spelled_word 4 UInt32.toNat (fun _ bound => UInt32.toNat_ofNat_of_lt bound)

theorem spelled_int64 (e : Endianness) :
    Spelled (readInt64 e) (appendInt64 · e) (fun _ => true) :=
  spelled_word (f := fun n => (UInt64.ofNat n).toInt64) 8
    (fun value : Int64 => value.toUInt64.toNat) (fun n bound => by
      rw [UInt64.toUInt64_toInt64, UInt64.toNat_ofNat_of_lt' bound])

theorem hasBytesAvailable_apply (bs : List UInt8) :
    hasBytesAvailable bs = .ok (!bs.isEmpty) bs := rfl

theorem readPasses_stop {passes length : Nat} {bs : List UInt8} (stop : bs = [] ∨ length = 0) :
    readPasses passes length bs = .ok [] bs := by
  cases passes with
  | zero => rfl
  | succ passes =>
    have check : (!bs.isEmpty && decide (0 < length)) = false := by
      rcases stop with rfl | rfl <;> simp
    rw [readPasses, bind_ok (hasBytesAvailable_apply bs), check]
    rfl

theorem readPasses_go {passes length : Nat} {bs : List UInt8} (go : ¬ (bs = [] ∨ length = 0)) :
    readPasses (passes + 1) length bs = (do
      let subarray ← readBuffer (min length 256)
      let data ← readPasses passes (length - min length 256)
      pure (subarray ++ data) : Stream (List UInt8)) bs := by
  have check : (!bs.isEmpty && decide (0 < length)) = true := by
    simp only [not_or] at go
    simp [go.1, Nat.pos_of_ne_zero go.2]
  rw [readPasses, bind_ok (hasBytesAvailable_apply bs), check]
  rfl

theorem readPasses_enough (passes length : Nat) (bs : List UInt8) (fuel : length ≤ passes)
    (enough : length ≤ bs.length) :
    readPasses passes length bs = .ok (bs.take length) (bs.drop length) := by
  induction passes generalizing length bs with
  | zero =>
    have : length = 0 := by omega
    subst this
    simp [readPasses]
  | succ passes ih =>
    by_cases done : length = 0
    · rw [readPasses_stop (Or.inr done)]
      simp [done]
    have some : bs ≠ [] := by
      intro empty
      rw [empty, List.length_nil] at enough
      omega
    have first : readBuffer (min length 256) bs =
        .ok (bs.take (min length 256)) (bs.drop (min length 256)) := by
      rw [readBuffer, if_neg (by omega)]
    have later := ih (length - min length 256) (bs.drop (min length 256)) (by omega)
      (by rw [List.length_drop]; omega)
    have whole : length = min length 256 + (length - min length 256) := by omega
    rw [readPasses_go (by simp [some, done]), bind_ok first, bind_ok later, pure_apply,
      ← List.take_add, List.drop_drop, ← whole]

/-- A read that succeeds is whole, or it has emptied the stream. -/
theorem readPasses_ok {passes length : Nat} {bs data rest : List UInt8} (fuel : length ≤ passes)
    (run : readPasses passes length bs = .ok data rest) :
    bs = data ++ rest ∧ (data.length = length ∨ rest = []) := by
  induction passes generalizing length bs data with
  | zero =>
    cases run
    exact ⟨rfl, Or.inl (by simp; omega)⟩
  | succ passes ih =>
    by_cases stop : bs = [] ∨ length = 0
    · rw [readPasses_stop stop] at run
      cases run
      rcases stop with empty | zero
      · exact ⟨rfl, Or.inr empty⟩
      · exact ⟨rfl, Or.inl (by simp [zero])⟩
    · rw [readPasses_go stop] at run
      obtain ⟨sub,mid,first,run⟩ := bind_eq_ok.mp run
      obtain ⟨tail,last,second,run⟩ := bind_eq_ok.mp run
      cases run
      obtain ⟨rfl,len⟩ := readBuffer_ok.mp first
      obtain ⟨rfl,whole⟩ := ih (by omega) second
      refine ⟨by simp, ?_⟩
      rcases whole with whole | dry
      · left
        rw [List.length_append, len, whole]
        omega
      · exact Or.inr dry

theorem reads_data (data : List UInt8) (some : data ≠ []) :
    Reads (readData data.length) data data := by
  intro rest
  have count : data.length ≠ 0 := by simpa using some
  rw [readData, if_neg count, readPasses_enough _ _ _ le_rfl (by simp)]
  simp

theorem readData_ok {count : Nat} {bs data rest : List UInt8}
    (run : readData count bs = .ok data rest) :
    bs = data ++ rest ∧ (data.length = count ∨ rest = []) := by
  rw [readData] at run
  split at run
  · cases run
    simp
  · exact readPasses_ok le_rfl run

theorem reads_length (length : Nat) (fits : length < 2 ^ 63) :
    readLength (UInt64.ofNat length) = pure length := by
  rw [readLength, UInt64.toNat_ofNat_of_lt' (Nat.lt_trans fits (by decide)), if_pos fits]

theorem readLength_ok {length : UInt64} {bs rest : List UInt8} {n : Nat}
    (run : readLength length bs = .ok n rest) : n = length.toNat ∧ rest = bs := by
  rw [readLength] at run
  split at run
  · cases run
    exact ⟨rfl,rfl⟩
  · cases run

theorem toBytes_take (k width n : Nat) (le : k ≤ width) :
    (toBytes width n).take k = toBytes k n := by
  induction k generalizing width n with
  | zero => rfl
  | succ k ih =>
    obtain ⟨w,rfl⟩ : ∃ w, width = w + 1 := ⟨width - 1, by omega⟩
    simp [toBytes, ih w (n / 256) (by omega)]

/-- The writer's four forms, one word each behind its marker. -/
theorem appendVarInt_eq (value : UInt64) :
    appendVarInt value =
      if value.toNat < 0xfd then [UInt8.ofNat value.toNat]
      else if value.toNat ≤ 0xffff then 0xfd :: toBytes 2 value.toNat
      else if value.toNat ≤ 0xffffffff then 0xfe :: toBytes 4 value.toNat
      else 0xff :: toBytes 8 value.toNat := by
  unfold appendVarInt VarInt.ofValue
  split
  · simp [toBytes]
  · split
    · simp [toBytes_take]
    · split
      · simp [toBytes_take]
      · rfl

theorem appendVarInt_spells (value : UInt64) : Spells value (appendVarInt value) := by
  rw [appendVarInt_eq]
  split
  · rename_i one
    exact Or.inl ⟨one,rfl⟩
  · split
    · rename_i two
      exact Or.inr (Or.inl ⟨Nat.lt_succ_of_le two,rfl⟩)
    · split
      · rename_i four
        exact Or.inr (Or.inr (Or.inl ⟨Nat.lt_succ_of_le four,rfl⟩))
      · exact Or.inr (Or.inr (Or.inr rfl))

/-- Every spelling is read back. -/
theorem reads_spelling {value : UInt64} {front : List UInt8} (spells : Spells value front) :
    Reads readVarInt front value := by
  have whole : UInt64.ofNat value.toNat = value := UInt64.ofNat_toNat
  rcases spells with ⟨small,rfl⟩ | ⟨small,rfl⟩ | ⟨small,rfl⟩ | rfl
  · have same : (UInt8.ofNat value.toNat).toNat = value.toNat :=
      UInt8.toNat_ofNat_of_lt' (Nat.lt_trans small (by decide))
    have marker : UInt8.ofNat value.toNat < 0xfd := by
      rw [UInt8.lt_iff_toNat_lt, same]
      exact small
    refine reads_last (reads_uint8 (UInt8.ofNat value.toNat)) ?_
    rw [if_pos marker, same, whole]
    exact reads_pure value
  · have word := reads_word UInt16.ofNat .LittleEndian 2 value.toNat small
    refine reads_bind (reads_uint8 0xfd) (reads_last word ?_)
    rw [UInt16.toNat_ofNat_of_lt' small, whole]
    exact reads_pure value
  · have word := reads_word UInt32.ofNat .LittleEndian 4 value.toNat small
    refine reads_bind (reads_uint8 0xfe) (reads_last word ?_)
    rw [UInt32.toNat_ofNat_of_lt' small, whole]
    exact reads_pure value
  · exact reads_bind (reads_uint8 0xff) (reads_uint64 value .LittleEndian)

theorem reads_varint (value : UInt64) : Reads readVarInt (appendVarInt value) value :=
  reads_spelling (appendVarInt_spells value)

/-- The word behind a marker, as the value it spells. -/
theorem wide_spelled {width : Nat} {buf : List UInt8} (size : buf.length = width)
    (wide : 256 ^ width ≤ 2 ^ 64) :
    (UInt64.ofNat (ofBytes buf)).toNat < 256 ^ width ∧
      buf = toBytes width (UInt64.ofNat (ofBytes buf)).toNat := by
  have bound := ofBytes_lt buf
  have back := toBytes_ofBytes buf
  rw [size] at bound back
  rw [UInt64.toNat_ofNat_of_lt' (Nat.lt_of_lt_of_le bound wide)]
  exact ⟨bound,back.symm⟩

theorem last_marker {header : UInt8} (small : ¬ header < 0xfd) (two : ¬ header = 0xfd)
    (four : ¬ header = 0xfe) : header = 0xff := by
  have bound := header.toNat_lt
  rw [UInt8.lt_iff_toNat_lt] at small
  rw [← UInt8.toNat_inj] at two four ⊢
  simp only [UInt8.reduceToNat] at small two four ⊢
  omega

/-- And nothing else is. -/
theorem varint_spelled {bs mid : List UInt8} {value : UInt64}
    (taken : readVarInt bs = .ok value mid) : ∃ front, Spells value front ∧ bs = front ++ mid := by
  rw [readVarInt] at taken
  obtain ⟨header,rest,first,run⟩ := bind_eq_ok.mp taken
  have same : bs = header :: rest := by
    cases bs with
    | nil => cases first
    | cons b bs => cases first; rfl
  subst same
  clear taken
  split at run
  · rename_i small
    cases run
    have same : (UInt64.ofNat header.toNat).toNat = header.toNat :=
      UInt64.toNat_ofNat_of_lt' (Nat.lt_trans header.toNat_lt (by decide))
    refine ⟨[header],Or.inl ⟨?_,?_⟩,rfl⟩
    · rw [same]
      exact UInt8.lt_iff_toNat_lt.mp small
    · rw [same, UInt8.ofNat_toNat]
  rename_i small
  split at run
  · rename_i marker
    obtain ⟨uint16,_,first,last⟩ := bind_eq_ok.mp run
    cases last
    obtain ⟨buf,rfl,size,rfl⟩ := word_ok first
    have bound := ofBytes_lt buf
    rw [size] at bound
    rw [orderBytes, UInt16.toNat_ofNat_of_lt' bound]
    obtain ⟨less,spelled⟩ := wide_spelled size (by decide)
    exact ⟨header :: buf,Or.inr (Or.inl ⟨less,by rw [marker, ← spelled]⟩),rfl⟩
  rename_i two
  split at run
  · rename_i marker
    obtain ⟨uint32,_,first,last⟩ := bind_eq_ok.mp run
    cases last
    obtain ⟨buf,rfl,size,rfl⟩ := word_ok first
    have bound := ofBytes_lt buf
    rw [size] at bound
    rw [orderBytes, UInt32.toNat_ofNat_of_lt' bound]
    obtain ⟨less,spelled⟩ := wide_spelled size (by decide)
    exact ⟨header :: buf,Or.inr (Or.inr (Or.inl ⟨less,by rw [marker, ← spelled]⟩)),rfl⟩
  · rename_i four
    obtain ⟨buf,rfl,size,rfl⟩ := word_ok run
    obtain ⟨_,spelled⟩ := wide_spelled size (by decide)
    exact ⟨header :: buf,
      Or.inr (Or.inr (Or.inr (by rw [last_marker small two four, orderBytes, ← spelled]))),rfl⟩

/-- A word behind its marker: never shorter than the writer's form of the same
    value, and equal to it from the least value that needs the word. -/
theorem spelled_form {value : UInt64} (marker : UInt8) (width least : Nat)
    (needed : least ≤ value.toNat → appendVarInt value = marker :: toBytes width value.toNat)
    (spare : value.toNat < least → (appendVarInt value).length < width + 1) :
    (appendVarInt value).length ≤ (marker :: toBytes width value.toNat).length ∧
      (least ≤ value.toNat ↔ marker :: toBytes width value.toNat = appendVarInt value) := by
  rw [List.length_cons, toBytes_length]
  by_cases reach : least ≤ value.toNat
  · rw [needed reach, List.length_cons, toBytes_length]
    simp [reach]
  · have less := spare (by omega)
    refine ⟨by omega, ?_⟩
    constructor
    · intro reach'; contradiction
    · intro same
      rw [← same, List.length_cons, toBytes_length] at less
      omega

theorem appendVarInt_length (value : UInt64) :
    (value.toNat < 0xfd → (appendVarInt value).length = 1) ∧
      (value.toNat ≤ 0xffff → (appendVarInt value).length ≤ 3) ∧
      (value.toNat ≤ 0xffffffff → (appendVarInt value).length ≤ 5) := by
  rw [appendVarInt_eq]
  split
  · simp
  · split
    · simp; omega
    · split
      · simp; omega
      · refine ⟨?_,?_,?_⟩ <;> omega

/-- The number that the check reads behind a marker. -/
theorem word_in_front {width n : Nat} (bound : n < 256 ^ width) (rest : List UInt8) :
    ofBytes ((toBytes width n ++ rest).take width) = n := by
  rw [List.take_left' (toBytes_length width n), ofBytes_toBytes width n bound]

theorem spelled_varint : Spelled readVarInt appendVarInt shortVarInt := by
  intro bs value rest parsed
  have top := value.toNat_lt
  obtain ⟨front,spells,rfl⟩ := varint_spelled parsed
  refine ⟨front,rfl,?_⟩
  rcases spells with ⟨one,rfl⟩ | ⟨two,rfl⟩ | ⟨four,rfl⟩ | rfl
  · have form : appendVarInt value = [UInt8.ofNat value.toNat] := by
      rw [appendVarInt_eq, if_pos one]
    have small : UInt8.ofNat value.toNat < 0xfd := by
      rw [UInt8.lt_iff_toNat_lt, UInt8.toNat_ofNat_of_lt' (Nat.lt_trans one (by decide))]
      exact one
    rw [form]
    refine ⟨le_rfl,?_⟩
    rw [List.cons_append, shortVarInt, if_pos small]
    simp
  · obtain ⟨le,short⟩ := @spelled_form value 0xfd 2 0xfd
      (fun low => by rw [appendVarInt_eq, if_neg (by omega), if_pos (by omega)])
      (fun low => by rw [(appendVarInt_length _).1 low]; omega)
    refine ⟨le,?_⟩
    rw [← short, List.cons_append, shortVarInt, if_neg (by decide), if_pos rfl,
      word_in_front two, decide_eq_true_iff]
  · obtain ⟨le,short⟩ := @spelled_form value 0xfe 4 0x10000
      (fun low => by rw [appendVarInt_eq, if_neg (by omega), if_neg (by omega), if_pos (by omega)])
      (fun low => by have := (appendVarInt_length _).2.1 (Nat.le_of_lt_succ low); omega)
    refine ⟨le,?_⟩
    rw [← short, List.cons_append, shortVarInt, if_neg (by decide), if_neg (by decide), if_pos rfl,
      word_in_front four, decide_eq_true_iff]
    omega
  · obtain ⟨le,short⟩ := @spelled_form value 0xff 8 0x100000000
      (fun low => by rw [appendVarInt_eq, if_neg (by omega), if_neg (by omega), if_neg (by omega)])
      (fun low => by have := (appendVarInt_length _).2.2 (Nat.le_of_lt_succ low); omega)
    refine ⟨le,?_⟩
    rw [← short, List.cons_append, shortVarInt, if_neg (by decide), if_neg (by decide),
      if_neg (by decide), word_in_front top, decide_eq_true_iff]
    omega

end BitcoinStream
