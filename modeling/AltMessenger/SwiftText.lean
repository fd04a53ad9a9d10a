import Mathlib.Data.List.DropRight
import AltMessenger.Numerals

/-!
Text as Swift's strings have it, by their characters: parts between separators, lower case and
trimming for the characters of one byte, and whole numbers.
-/
namespace SwiftText
open Numerals

/-- What is checked of each character of a text holds of all of them. -/
theorem each_of_all {text : List Char} {p : Char → Prop} [DecidablePred p]
    (all : (text.all fun c => p c) = true) : ∀ c ∈ text, p c :=
  fun c there => of_decide_eq_true (List.all_eq_true.mp all c there)

theorem alphanum_iff (c : Char) : c.isAlphanum = true ↔
    65 ≤ c.toNat ∧ c.toNat ≤ 90 ∨ 97 ≤ c.toNat ∧ c.toNat ≤ 122 ∨
      48 ≤ c.toNat ∧ c.toNat ≤ 57 := by
  have whole : c.isAlphanum = (decide (c.val ≥ 'A'.val ∧ c.val ≤ 'Z'.val) ||
      (c.val ≥ 'a'.val && c.val ≤ 'z'.val) || (c.val ≥ '0'.val && c.val ≤ '9'.val)) := rfl
  rw [whole]
  simp only [Bool.or_eq_true, Bool.and_eq_true, decide_eq_true_eq, ge_iff_le,
    UInt32.le_iff_toNat_le]
  exact or_assoc

/-- `components(separatedBy:)` -/
def components (text : List Char) (separator : Char) : List (List Char) := text.splitOn separator

/-- `joined(separator:)` -/
def joined (parts : List (List Char)) (separator : Char) : List Char :=
  List.intercalate [separator] parts

theorem components_single {text : List Char} {separator : Char} (none_there : separator ∉ text) :
    components text separator = [text] := List.splitOn_eq_singleton none_there

theorem components_first {first : List Char} {separator : Char} (none_there : separator ∉ first)
    (rest : List Char) :
    components (first ++ separator :: rest) separator = first :: components rest separator :=
  List.splitOn_append_cons_self_of_not_mem none_there rest

theorem first_unique {first first' rest rest' : List Char} {separator : Char}
    (before : separator ∉ first) (before' : separator ∉ first')
    (same : first ++ separator :: rest = first' ++ separator :: rest') :
    first = first' ∧ rest = rest' := by
  have parts := components_first before rest
  rw [same, components_first before'] at parts
  have front := (List.cons_eq_cons.mp parts).1.symm
  rw [front] at same
  exact ⟨front,(List.cons_eq_cons.mp (List.append_cancel_left same)).2⟩

/-- A text has the separator or not, and in the first case there is a first one. -/
theorem separator_first (text : List Char) (separator : Char) :
    separator ∉ text ∨
      ∃ first rest, text = first ++ separator :: rest ∧ separator ∉ first := by
  by_cases there : separator ∈ text
  · obtain ⟨first,rest,parts,before⟩ := List.eq_append_cons_of_mem there
    exact Or.inr ⟨first,rest,parts,before⟩
  · exact Or.inl there

theorem mem_joined_iff {parts : List (List Char)} {separator c : Char} (other : c ≠ separator) :
    c ∈ joined parts separator ↔ ∃ part ∈ parts, c ∈ part := by
  unfold joined
  induction parts with
  | nil => exact iff_of_false List.not_mem_nil fun ⟨_,there,_⟩ => absurd there List.not_mem_nil
  | cons first parts ih =>
    rw [List.exists_mem_cons_iff]
    by_cases last : parts = []
    · rw [last, List.intercalate_singleton]
      exact (or_iff_left fun ⟨_,there,_⟩ => absurd there List.not_mem_nil).symm
    · rw [List.intercalate_cons_of_ne_nil last, List.mem_append, List.mem_append,
        List.mem_singleton, ih, or_assoc, or_iff_right other]

/-- A character that separates nothing is in the text if it is in a component. -/
theorem mem_components_iff {text : List Char} {separator c : Char} (other : c ≠ separator) :
    c ∈ text ↔ ∃ part ∈ components text separator, c ∈ part := by
  have whole : joined (components text separator) separator = text :=
    List.intercalate_splitOn separator
  rw [← mem_joined_iff other, whole]

theorem mem_joined {parts : List (List Char)} {part : List Char} {separator c : Char}
    (there : part ∈ parts) (mem : c ∈ part) : c ∈ joined parts separator := by
  unfold joined
  induction parts with
  | nil => cases there
  | cons first rest ih =>
    by_cases last : rest = []
    · rw [last, List.intercalate_singleton]
      rw [last] at there
      exact List.mem_singleton.mp there ▸ mem
    · rw [List.intercalate_cons_of_ne_nil last]
      rcases List.mem_cons.mp there with same | later
      · exact List.mem_append_left _ (List.mem_append_left _ (same ▸ mem))
      · exact List.mem_append_right _ (ih later)

theorem component_mem {text part : List Char} {separator c : Char}
    (there : part ∈ components text separator) (mem : c ∈ part) : c ∈ text := by
  have whole : joined (components text separator) separator = text :=
    List.intercalate_splitOn separator
  rw [← whole]
  exact mem_joined there mem

theorem component_no_separator {text part : List Char} {separator : Char}
    (there : part ∈ components text separator) : separator ∉ part := by
  induction size : text.length using Nat.strong_induction_on generalizing text with
  | _ n ih =>
    subst size
    rcases separator_first text separator with none_there | ⟨first,rest,rfl,before⟩
    · rw [components_single none_there, List.mem_singleton] at there
      exact there ▸ none_there
    · rw [components_first before, List.mem_cons] at there
      rcases there with rfl | later
      · exact before
      · refine ih rest.length ?_ later rfl
        rw [List.length_append, List.length_cons]
        omega

/-- `lowercased`, of the characters up to U+00FF -/
def lowercase (c : Char) : Char :=
  if 'A' ≤ c ∧ c ≤ 'Z' ∨ 0xC0 ≤ c.toNat ∧ c.toNat ≤ 0xDE ∧ c.toNat ≠ 0xD7 then
    Char.ofNat (c.toNat + 32)
  else c

def lowercased (text : List Char) : List Char := text.map lowercase

theorem toNat_ofNat {n : Nat} (small : n < 0xD800) : (Char.ofNat n).toNat = n := by
  unfold Char.ofNat
  rw [dif_pos (Or.inl small)]
  rfl

/-- No letter stays in upper case. -/
theorem lowercase_ne (c : Char) : lowercase c ≠ 'A' := by
  intro same
  unfold lowercase at same
  split at same
  case isTrue upper =>
    have range : 65 ≤ c.toNat ∧ c.toNat ≤ 0xDE := by
      rcases upper with ⟨low,high⟩ | ⟨low,high,_⟩
      · have first : 'A'.toNat ≤ c.toNat := low
        have last : c.toNat ≤ 'Z'.toNat := high
        change 65 ≤ c.toNat at first
        change c.toNat ≤ 90 at last
        omega
      · omega
    have number : (Char.ofNat (c.toNat + 32)).toNat = 'A'.toNat := by rw [same]
    rw [toNat_ofNat (by omega)] at number
    change c.toNat + 32 = 65 at number
    omega
  case isFalse lower =>
    rw [same] at lower
    exact lower (by decide)

theorem lowercased_ne (text rest : List Char) : lowercased text ≠ 'A' :: rest := by
  intro same
  cases text with
  | nil => cases same
  | cons c text => exact lowercase_ne c (List.cons.inj same).1

/-- `CharacterSet.whitespaces`, of the characters up to U+00FF -/
def isWhitespace (c : Char) : Bool := c = ' ' || c = '\t' || c.toNat = 0xA0

def trimmingWhitespace (text : List Char) : List Char := (text.dropWhile isWhitespace).rdropWhile isWhitespace

theorem digits_distinct : ['0','1','2','3','4','5','6','7','8','9'].Nodup := by decide

theorem digits_several : 2 ≤ ['0','1','2','3','4','5','6','7','8','9'].length := by decide

def decimal : Alphabet Char :=
  ⟨['0','1','2','3','4','5','6','7','8','9'],digits_distinct,digits_several⟩

/-- Decimal digits, one at least. -/
def digits (text : List Char) : Option Nat := if text = [] then none else decimal.read text

/-- A whole number with its sign, if there is one. -/
def signed : List Char → Option Int
  | '-' :: text => (digits text).map fun n => -(n : Int)
  | '+' :: text => (digits text).map Int.ofNat
  | text => (digits text).map Int.ofNat

/-- `Int(_:)` and `Int64(_:)` of a string: nothing where the number does not fit. -/
def int (text : List Char) : Option Int :=
  (signed text).filter fun i => -2 ^ 63 ≤ i && i < 2 ^ 63

end SwiftText
