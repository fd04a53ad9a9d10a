import Mathlib.Data.List.Induction
import Mathlib.Data.List.Nodup
import Mathlib.Data.Nat.Digits.Defs
import Mathlib.Tactic.Ring

/-!
Numbers written over an alphabet, most significant letter first. Reading is left
to right; writing divides until nothing is left, so it never writes a zero in front.
-/
namespace Numerals

structure Alphabet (α : Type) [DecidableEq α] where
  letters : List α
  distinct : letters.Nodup
  several : 2 ≤ letters.length

variable {α : Type} [DecidableEq α] (A : Alphabet α)

def Alphabet.base : Nat := A.letters.length

theorem Alphabet.base_positive : 0 < A.base := Nat.lt_of_lt_of_le (by decide) A.several

def Alphabet.letter (d : Nat) : α := A.letters.get ⟨d % A.base,Nat.mod_lt d A.base_positive⟩

def Alphabet.zero : α := A.letter 0

def Alphabet.readFrom (A : Alphabet α) (number : Nat) : List α → Option Nat
  | [] => some number
  | c :: text =>
    if c ∈ A.letters then A.readFrom (number * A.base + A.letters.idxOf c) text else none

def Alphabet.read (text : List α) : Option Nat := A.readFrom 0 text

/-- The letters of a number, least significant first. -/
def Alphabet.writeLoop (A : Alphabet α) : Nat → Nat → List α
  | 0, _ => []
  | fuel + 1, number =>
    if number = 0 then [] else A.letter (number % A.base) :: A.writeLoop fuel (number / A.base)

def Alphabet.write (number : Nat) : List α := (A.writeLoop (number.log2 + 1) number).reverse

variable {A}

theorem letter_mem (d : Nat) : A.letter d ∈ A.letters := List.get_mem _ _

theorem idxOf_letter {d : Nat} (small : d < A.base) : A.letters.idxOf (A.letter d) = d := by
  rw [Alphabet.letter, List.get_idxOf A.distinct]
  exact Nat.mod_eq_of_lt small

theorem letter_idxOf {c : α} (mem : c ∈ A.letters) : A.letter (A.letters.idxOf c) = c := by
  have small := List.idxOf_lt_length_of_mem mem
  simp only [Alphabet.letter, Alphabet.base, Nat.mod_eq_of_lt small]
  exact List.idxOf_get small

theorem letter_zero {d : Nat} (small : d < A.base) : A.letter d = A.zero ↔ d = 0 := by
  constructor
  · intro same
    rw [← idxOf_letter small, same]
    exact idxOf_letter A.base_positive
  · intro same
    rw [same, Alphabet.zero]

theorem readFrom_append (number : Nat) (first second : List α) :
    A.readFrom number (first ++ second) =
      (A.readFrom number first).bind fun middle => A.readFrom middle second := by
  induction first generalizing number with
  | nil => rfl
  | cons c first ih =>
    rw [List.cons_append, Alphabet.readFrom, Alphabet.readFrom]
    split
    · exact ih _
    · rfl

/-- Letters of value zero in front add nothing. -/
theorem read_zeros (count : Nat) (text : List α) :
    A.read (List.replicate count A.zero ++ text) = A.read text := by
  induction count with
  | zero => rfl
  | succ count ih =>
    rw [List.replicate_succ, List.cons_append, Alphabet.read, Alphabet.readFrom, Alphabet.zero,
      if_pos (letter_mem 0), idxOf_letter A.base_positive]
    rw [Nat.zero_mul, Nat.zero_add]
    exact ih

theorem readFrom_zeros (count number : Nat) :
    A.readFrom number (List.replicate count A.zero) = some (number * A.base ^ count) := by
  induction count generalizing number with
  | zero => rw [Nat.pow_zero, Nat.mul_one]; rfl
  | succ count ih =>
    rw [List.replicate_succ, Alphabet.readFrom, Alphabet.zero, if_pos (letter_mem 0),
      idxOf_letter A.base_positive, Nat.add_zero]
    rw [← Alphabet.zero, ih, Nat.mul_assoc, Nat.pow_succ']

/-- Each letter of value zero behind a text multiplies by the base. -/
theorem read_zeros_behind {text : List α} {number : Nat} (read : A.read text = some number)
    (count : Nat) :
    A.read (text ++ List.replicate count A.zero) = some (number * A.base ^ count) := by
  rw [Alphabet.read, readFrom_append, ← Alphabet.read, read, Option.bind_some, readFrom_zeros]

theorem div_base_lt {number fuel : Nat} (enough : number < 2 ^ (fuel + 1)) :
    number / A.base < 2 ^ fuel := by
  have halved : number / A.base ≤ number / 2 := Nat.div_le_div_left A.several (by decide)
  rw [Nat.pow_succ] at enough
  omega

/-- Any fuel that is enough gives the same letters. -/
theorem writeLoop_enough {number fuel fuel' : Nat} (enough : number < 2 ^ fuel)
    (enough' : number < 2 ^ fuel') : A.writeLoop fuel number = A.writeLoop fuel' number := by
  induction fuel generalizing number fuel' with
  | zero =>
    have zero : number = 0 := by simpa using enough
    cases fuel' <;> simp [Alphabet.writeLoop, zero]
  | succ fuel ih =>
    cases fuel' with
    | zero =>
      have zero : number = 0 := by simpa using enough'
      simp [Alphabet.writeLoop, zero]
    | succ fuel' =>
      rw [Alphabet.writeLoop, Alphabet.writeLoop, ih (div_base_lt enough) (div_base_lt enough')]

theorem write_zero : A.write 0 = [] := rfl

theorem write_step {number : Nat} (positive : 0 < number) :
    A.write number = A.write (number / A.base) ++ [A.letter (number % A.base)] := by
  have less : number / A.base < 2 ^ number.log2 := div_base_lt Nat.lt_log2_self
  rw [Alphabet.write, Alphabet.write, Alphabet.writeLoop, if_neg (Nat.ne_of_gt positive),
    writeLoop_enough less Nat.lt_log2_self, List.reverse_cons]

theorem div_base_less (A : Alphabet α) {number : Nat} (positive : 0 < number) :
    number / A.base < number :=
  Nat.div_lt_self positive A.several

theorem read_write (number : Nat) : A.read (A.write number) = some number := by
  induction number using Nat.strongRecOn with
  | ind number ih =>
    rcases Nat.eq_zero_or_pos number with zero | positive
    · rw [zero]; rfl
    · have before := ih _ (div_base_less A positive)
      rw [Alphabet.read] at before
      rw [write_step positive, Alphabet.read, readFrom_append, before, Option.bind_some,
        Alphabet.readFrom, if_pos (letter_mem _), idxOf_letter (Nat.mod_lt _ A.base_positive),
        Alphabet.readFrom, Nat.div_add_mod']

/-- What is written has no zero in front. -/
theorem write_head (number : Nat) : (A.write number).head? ≠ some A.zero := by
  induction number using Nat.strongRecOn with
  | ind number ih =>
    rcases Nat.eq_zero_or_pos number with zero | positive
    · simp [zero, write_zero]
    · have before := ih _ (div_base_less A positive)
      rw [write_step positive]
      cases front : A.write (number / A.base) with
      | nil =>
        have small : number / A.base = 0 := by
          have value := read_write (A := A) (number / A.base)
          rw [front] at value
          exact (Option.some.inj value).symm
        have below : number < A.base := (Nat.div_eq_zero_iff_lt A.base_positive).mp small
        rw [Nat.mod_eq_of_lt below, List.nil_append, List.head?_cons]
        intro same
        have zero := (letter_zero below).mp (Option.some.inj same)
        omega
      | cons c front' =>
        rw [front] at before
        exact before

/-- A text with no zero in front is the one its number is written as. -/
theorem write_read {text : List α} {number : Nat} (value : A.read text = some number)
    (head : text.head? ≠ some A.zero) : A.write number = text := by
  induction text using List.reverseRecOn generalizing number with
  | nil => cases value; rfl
  | append_singleton text c ih =>
    rw [Alphabet.read, readFrom_append, Option.bind_eq_some_iff] at value
    obtain ⟨front,value,last⟩ := value
    rw [Alphabet.readFrom] at last
    split at last
    · rename_i mem
      have small : A.letters.idxOf c < A.base := List.idxOf_lt_length_of_mem mem
      have made : front * A.base + A.letters.idxOf c = number := Option.some.inj last
      have same : A.write front = text := by
        apply ih value
        intro first
        exact head (by rw [List.head?_append, first]; rfl)
      have positive : 0 < number := by
        by_contra none
        have digit : A.letters.idxOf c = 0 := by omega
        have nothing : front = 0 := by
          rcases Nat.eq_zero_or_pos front with zero | some
          · exact zero
          · have := Nat.mul_pos some A.base_positive
            omega
        rw [nothing, write_zero] at same
        rw [← same, ← letter_idxOf mem, digit] at head
        exact head rfl
      have quotient : number / A.base = front := by
        rw [← made, Nat.mul_comm, Nat.mul_add_div A.base_positive, Nat.div_eq_of_lt small,
          Nat.add_zero]
      have remainder : number % A.base = A.letters.idxOf c := by
        rw [← made, Nat.mul_comm, Nat.mul_add_mod, Nat.mod_eq_of_lt small]
      rw [write_step positive, quotient, remainder, same, letter_idxOf mem]
    · cases last

theorem write_read_iff {text : List α} {number : Nat} (value : A.read text = some number) :
    A.write number = text ↔ text.head? ≠ some A.zero := by
  constructor
  · intro same
    rw [← same]
    exact write_head number
  · exact write_read value

/-- The letters stand for the digits of the number in the base, the first for the highest. -/
theorem write_digits (number : Nat) :
    (A.write number).map A.letters.idxOf = (Nat.digits A.base number).reverse := by
  induction number using Nat.strongRecOn with
  | ind number ih =>
    rcases Nat.eq_zero_or_pos number with zero | positive
    · rw [zero, write_zero, Nat.digits_zero]
      rfl
    · rw [write_step positive, List.map_append, ih _ (div_base_less A positive),
        Nat.digits_def' (show 1 < A.base from A.several) positive, List.reverse_cons, List.map_singleton,
        idxOf_letter (Nat.mod_lt _ A.base_positive)]

theorem readFrom_digits {text : List α} (spelled : ∀ c ∈ text, c ∈ A.letters) (number : Nat) :
    A.readFrom number text = some (number * A.base ^ text.length +
      Nat.ofDigits A.base (text.map A.letters.idxOf).reverse) := by
  induction text generalizing number with
  | nil => simp [Alphabet.readFrom]
  | cons c text ih =>
    rw [Alphabet.readFrom, if_pos (spelled c List.mem_cons_self),
      ih fun d mem => spelled d (List.mem_cons_of_mem c mem), List.map_cons, List.reverse_cons,
      Nat.ofDigits_append, Nat.ofDigits_singleton, List.length_reverse, List.length_map,
      List.length_cons]
    congr 1
    ring

theorem readFrom_letters {text : List α} {number value : Nat}
    (read : A.readFrom number text = some value) : ∀ c ∈ text, c ∈ A.letters := by
  induction text generalizing number with
  | nil => simp
  | cons c text ih =>
    rw [Alphabet.readFrom] at read
    split at read
    case isTrue letter => exact List.forall_mem_cons.mpr ⟨letter,ih read⟩
    case isFalse => cases read

/-- Nothing but letters is read. -/
theorem read_letters {text : List α} {number : Nat} (read : A.read text = some number) :
    ∀ c ∈ text, c ∈ A.letters := readFrom_letters read

/-- A text over the alphabet is read as the number of its digits. -/
theorem read_digits {text : List α} (spelled : ∀ c ∈ text, c ∈ A.letters) :
    A.read text = some (Nat.ofDigits A.base (text.map A.letters.idxOf).reverse) := by
  rw [Alphabet.read, readFrom_digits spelled, Nat.zero_mul, Nat.zero_add]

end Numerals
