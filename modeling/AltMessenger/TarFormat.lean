import Mathlib.Data.List.Basic

/-!
Archives as tar writes them: for each entry a header of one block, with its name, its size
in octal and its type at their places, then the data filled up to whole blocks; at the end
empty blocks, two or more.
-/
namespace TarFormat

def blockSize : Nat := 512

/-- A number of octal digits, with blanks around it. -/
structure SizeField where
  spaces : Nat
  digits : List UInt8
  ending : List UInt8
  digits_some : digits ≠ []
  digits_octal : ∀ d ∈ digits, 48 ≤ d ∧ d < 56
  ending_blank : ∀ b ∈ ending, b = 0 ∨ b = 32
  length : spaces + digits.length + ending.length = 12

def SizeField.bytes (field : SizeField) : List UInt8 :=
  List.replicate field.spaces 32 ++ field.digits ++ field.ending

def SizeField.value (field : SizeField) : Nat :=
  field.digits.foldl (fun n d => 8 * n + (d.toNat - 48)) 0

/-- A file (also of the old type NUL), a directory, a link, a device, a pipe, or a header of the
    extended format. -/
def typeflags : List UInt8 := [0,48,49,50,51,52,53,54,55,103,120]

def blocks (size : Nat) : Nat := (size + 511) / blockSize

/-- The bytes between the fields are for the mode, the owner, the time and the like. -/
structure Entry where
  typeflag : UInt8
  name : List UInt8
  mode : List UInt8
  size : SizeField
  time : List UInt8
  rest : List UInt8
  data : List UInt8
  padding : List UInt8
  known : typeflag ∈ typeflags
  name_text : ∀ b ∈ name, b ≠ 0 ∧ b < 128
  name_length : name.length ≤ 100
  mode_length : mode.length = 24
  time_length : time.length = 20
  rest_length : rest.length = 355
  size_value : size.value = data.length
  filled : data.length + padding.length = blockSize * blocks data.length

namespace Entry
variable (e : Entry)

def nameField : List UInt8 := e.name ++ List.replicate (100 - e.name.length) 0

def header : List UInt8 :=
  e.nameField ++ e.mode ++ e.size.bytes ++ e.time ++ [e.typeflag] ++ e.rest

def bytes : List UInt8 := e.header ++ e.data ++ e.padding

def length : Nat := blockSize * (1 + blocks e.data.length)

end Entry

def trailer (empty : Nat) : List UInt8 := List.replicate (blockSize * empty) 0

/-- The entries and what follows them, so many empty blocks. -/
def archive (entries : List Entry) (empty : Nat) : List UInt8 :=
  entries.flatMap Entry.bytes ++ trailer empty

/-- Where the headers and the empty blocks begin, from the first place. -/
def places (empty : Nat) : Nat → List Entry → List Nat
  | loc, [] => (List.range empty).map fun i => loc + blockSize * i
  | loc, e :: entries => loc :: places empty (loc + e.length) entries

variable (e : Entry)

@[simp] theorem nameField_length : e.nameField.length = 100 := by
  have := e.name_length
  simp [Entry.nameField]
  omega

@[simp] theorem size_length (field : SizeField) : field.bytes.length = 12 := by
  have := field.length
  simp [SizeField.bytes]
  omega

@[simp] theorem header_length : e.header.length = blockSize := by
  simp [Entry.header, e.mode_length, e.time_length, e.rest_length, blockSize]

@[simp] theorem bytes_length : e.bytes.length = e.length := by
  have := e.filled
  simp only [Entry.bytes, Entry.length, List.length_append, header_length, Nat.mul_add]
  omega

theorem places_nil (empty loc : Nat) :
    places empty loc [] = (List.range empty).map fun i => loc + blockSize * i := rfl

theorem slice_eq {before piece after : List UInt8} {start count : Nat}
    (first : before.length = start) (size : piece.length = count) :
    ((before ++ (piece ++ after)).drop start).take count = piece := by
  rw [← first, ← size, List.drop_left, List.take_left]

section Slices
variable (before after : List UInt8)

theorem name_slice :
    ((before ++ (e.bytes ++ after)).drop (before.length + 0)).take 100 = e.nameField := by
  have parts : before ++ (e.bytes ++ after) = before ++ (e.nameField ++
      (e.mode ++ e.size.bytes ++ e.time ++ [e.typeflag] ++ e.rest ++ e.data ++ e.padding ++
        after)) := by
    simp [Entry.bytes, Entry.header]
  rw [parts]
  exact slice_eq rfl (nameField_length e)

theorem size_slice :
    ((before ++ (e.bytes ++ after)).drop (before.length + 124)).take 12 = e.size.bytes := by
  have parts : before ++ (e.bytes ++ after) = (before ++ (e.nameField ++ e.mode)) ++
      (e.size.bytes ++ (e.time ++ [e.typeflag] ++ e.rest ++ e.data ++ e.padding ++ after)) := by
    simp [Entry.bytes, Entry.header]
  rw [parts]
  exact slice_eq (by simp [e.mode_length]) (size_length e.size)

theorem type_slice :
    ((before ++ (e.bytes ++ after)).drop (before.length + 156)).take 1 = [e.typeflag] := by
  have parts : before ++ (e.bytes ++ after) =
      (before ++ (e.nameField ++ e.mode ++ e.size.bytes ++ e.time)) ++
        ([e.typeflag] ++ (e.rest ++ e.data ++ e.padding ++ after)) := by
    simp [Entry.bytes, Entry.header]
  rw [parts]
  exact slice_eq (by simp [e.mode_length, e.time_length]) rfl

theorem data_slice :
    ((before ++ (e.bytes ++ after)).drop (before.length + blockSize)).take e.data.length =
      e.data := by
  have parts : before ++ (e.bytes ++ after) =
      (before ++ e.header) ++ (e.data ++ (e.padding ++ after)) := by
    simp [Entry.bytes]
  rw [parts]
  exact slice_eq (by simp) rfl

end Slices

end TarFormat
