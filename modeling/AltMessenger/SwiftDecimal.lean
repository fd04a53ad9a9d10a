import AltMessenger.SwiftText
import Mathlib.Algebra.Order.Field.Rat
import Mathlib.Data.Rat.Floor
import Mathlib.Tactic.FieldSimp

/-!
`Decimal` of Foundation, as an exact number: how one is written as text, and how a scanner reads
one from a text.
-/
namespace SwiftDecimal
open Numerals SwiftText

structure Decimal where
  negative : Bool := false
  mantissa : Nat
  exponent : Int
  deriving DecidableEq, Repr

/-- The number that a decimal stands for. -/
def Decimal.value (d : Decimal) : Rat :=
  (if d.negative then -1 else 1) * (d.mantissa * 10 ^ d.exponent)

/-- Zeros at the end of the mantissa are taken into the exponent. -/
def Decimal.compact : Nat → Decimal → Decimal
  | 0, d => d
  | steps + 1, d =>
    if d.mantissa ≠ 0 ∧ d.mantissa % 10 = 0 then
      Decimal.compact steps { d with mantissa := d.mantissa / 10, exponent := d.exponent + 1 }
    else d

/-- `Decimal(_:)` of a whole number -/
def Decimal.ofNat (n : Nat) : Decimal :=
  Decimal.compact (n.log2 + 1) { mantissa := n, exponent := 0 }

/-- `NSDecimalMultiplyByPowerOf10` -/
def Decimal.multiplyByPowerOf10 (d : Decimal) (power : Int) : Decimal :=
  { d with exponent := d.exponent + power }

/-- The digits of a mantissa, with zeros behind them for a positive exponent, and as many in front
    of them as there have to be for a digit before the point. -/
def Decimal.padded (d : Decimal) : List Char :=
  let digits := decimal.write d.mantissa ++ List.replicate d.exponent.toNat '0'
  List.replicate ((-d.exponent).toNat + 1 - digits.length) '0' ++ digits

/-- `NSDecimalNumber.stringValue` -/
def Decimal.stringValue (d : Decimal) : List Char :=
  let places := (-d.exponent).toNat
  let whole := d.padded.take (d.padded.length - places)
  let part := d.padded.drop (d.padded.length - places)
  let number := if places = 0 then whole else whole ++ '.' :: part
  if d.mantissa = 0 then ['0'] else if d.negative then '-' :: number else number

/-- `NSDecimalNumber.uint64Value`: a fraction is dropped, and the rest wraps. -/
def Decimal.uint64Value (d : Decimal) : UInt64 :=
  let whole := ⌊(d.mantissa : Rat) * 10 ^ d.exponent⌋
  UInt64.ofInt (if d.negative then -whole else whole)

def isDigit (c : Char) : Bool := c ∈ decimal.letters

/-- The number of a text of digits, zero if there are none. -/
def number (text : List Char) : Nat := (decimal.read text).getD 0

/-- Whether there is a sign, and whether it is that of a negative number. -/
def scanSign : List Char → Option Bool × List Char
  | '-' :: text => (some true,text)
  | '+' :: text => (some false,text)
  | text => (none,text)

def scanDigits (text : List Char) : List Char × List Char :=
  (text.takeWhile isDigit,text.dropWhile isDigit)

/-- The digits behind a point. -/
def scanPart : List Char → List Char × List Char
  | '.' :: text => scanDigits text
  | text => ([],text)

def scanExponent : List Char → Int
  | c :: text =>
    if c = 'e' ∨ c = 'E' then
      let (sign,text) := scanSign text
      let exponent := number (scanDigits text).1
      if sign = some true then -exponent else exponent
    else 0
  | [] => 0

/-- `Scanner.scanDecimal`, behind the characters that the scanner skips. A number has a digit at
    least, and what is behind it is not looked at. -/
def scanDecimal (skipped : Char → Bool) (text : List Char) : Option Decimal :=
  let (sign,text) := scanSign (text.dropWhile skipped)
  let (whole,text) := scanDigits text
  let (part,text) := scanPart text
  if whole ++ part = [] then none
  else
    some
      { negative := sign = some true
        mantissa := number (whole ++ part)
        exponent := scanExponent text - part.length }

section Values
variable {d : Decimal}

theorem compact_value (steps : Nat) (d : Decimal) : (d.compact steps).value = d.value := by
  induction steps generalizing d with
  | zero => rfl
  | succ steps ih =>
    rw [Decimal.compact]
    split
    case isTrue zeros =>
      rw [ih]
      have whole : d.mantissa = d.mantissa / 10 * 10 := by omega
      have nonzero : (10 : Rat) ≠ 0 := by norm_num
      simp only [Decimal.value]
      rw [zpow_add_one₀ nonzero]
      conv_rhs => rw [whole]
      push_cast
      ring
    case isFalse => rfl

theorem compact_negative (steps : Nat) (d : Decimal) : (d.compact steps).negative = d.negative := by
  induction steps generalizing d with
  | zero => rfl
  | succ steps ih =>
    rw [Decimal.compact]
    split
    case isTrue => exact ih _
    case isFalse => rfl

theorem ofNat_value (n : Nat) : (Decimal.ofNat n).value = n := by
  rw [Decimal.ofNat, compact_value, Decimal.value]
  simp

theorem multiplyByPowerOf10_value (d : Decimal) (power : Int) :
    (d.multiplyByPowerOf10 power).value = d.value * 10 ^ power := by
  have nonzero : (10 : Rat) ≠ 0 := by norm_num
  rw [Decimal.multiplyByPowerOf10, Decimal.value, Decimal.value]
  dsimp only
  rw [zpow_add₀ nonzero]
  ring

/-- A whole number of 64 bits is its own value. -/
theorem uint64Value_ofNat {n : Nat} (positive : d.negative = false) (same : d.value = n) :
    d.uint64Value = UInt64.ofNat n := by
  rw [Decimal.value, positive, if_neg Bool.false_ne_true, one_mul] at same
  have whole : ⌊((n : Nat) : Rat)⌋ = (n : Int) := Int.floor_natCast n
  have wrapped : ((n : Int) % 2 ^ 64).toNat = n % 2 ^ 64 := by omega
  rw [Decimal.uint64Value, positive, same, whole, if_neg Bool.false_ne_true, UInt64.ofInt, wrapped]
  exact UInt64.ofNat_mod_size

end Values

section Texts
variable {d : Decimal}

theorem zero_letter : decimal.zero = '0' := rfl

theorem stringValue_zero (zero : d.mantissa = 0) : d.stringValue = ['0'] := if_pos zero

theorem stringValue_nonzero (nonzero : d.mantissa ≠ 0) (positive : d.negative = false) :
    d.stringValue =
      if (-d.exponent).toNat = 0 then d.padded.take (d.padded.length - (-d.exponent).toNat)
      else d.padded.take (d.padded.length - (-d.exponent).toNat) ++
        '.' :: d.padded.drop (d.padded.length - (-d.exponent).toNat) := by
  rw [Decimal.stringValue, if_neg nonzero, positive]
  rfl

theorem padded_digits (d : Decimal) : ∀ c ∈ d.padded, c ∈ decimal.letters := by
  have zero : '0' ∈ decimal.letters := by decide
  have zeros (count : Nat) : ∀ c ∈ List.replicate count '0', c ∈ decimal.letters := by
    intro c there
    rw [(List.mem_replicate.mp there).2]
    exact zero
  have written : ∀ c ∈ decimal.write d.mantissa, c ∈ decimal.letters :=
    read_letters (read_write d.mantissa)
  intro c there
  rcases List.mem_append.mp there with there | there
  · exact zeros _ c there
  · rcases List.mem_append.mp there with there | there
    · exact written c there
    · exact zeros _ c there

theorem padded_number (d : Decimal) : number d.padded = d.mantissa * 10 ^ d.exponent.toNat := by
  have behind := read_zeros_behind (read_write (A := decimal) d.mantissa) d.exponent.toNat
  have front := read_zeros (A := decimal) ((-d.exponent).toNat + 1 -
    (decimal.write d.mantissa ++ List.replicate d.exponent.toNat '0').length)
    (decimal.write d.mantissa ++ List.replicate d.exponent.toNat '0')
  rw [zero_letter] at behind front
  rw [number, Decimal.padded, front, behind]
  rfl

theorem padded_length (d : Decimal) : (-d.exponent).toNat < d.padded.length := by
  rw [Decimal.padded, List.length_append, List.length_replicate]
  omega

/-- Digits in front of something else. -/
theorem scanDigits_append {digits : List Char} (all : ∀ c ∈ digits, c ∈ decimal.letters)
    {rest : List Char} (ends : rest.head?.all fun c => !isDigit c) :
    scanDigits (digits ++ rest) = (digits,rest) := by
  have inside : ∀ c ∈ digits, isDigit c = true := fun c there => decide_eq_true (all c there)
  rw [scanDigits, List.takeWhile_append_of_pos inside, List.dropWhile_append_of_pos inside]
  cases rest with
  | nil => rw [List.takeWhile_nil, List.dropWhile_nil, List.append_nil]
  | cons c rest =>
    have outside : ¬ isDigit c = true := by simpa using ends
    rw [List.takeWhile_cons_of_neg outside, List.dropWhile_cons_of_neg outside, List.append_nil]

theorem scanSign_digit {c : Char} (digit : c ∈ decimal.letters) (text : List Char) :
    scanSign (c :: text) = (none,c :: text) := by
  unfold scanSign
  split
  case h_1 same =>
    cases same
    exact absurd digit (by decide)
  case h_2 same =>
    cases same
    exact absurd digit (by decide)
  case h_3 => rfl

/-- Digits, with a point and digits behind them or nothing. -/
theorem scanDecimal_digits {skipped : Char → Bool} {whole part tail : List Char}
    (kept : ∀ c ∈ decimal.letters, skipped c = false) (some_digit : whole ≠ [])
    (all : ∀ c ∈ whole, c ∈ decimal.letters) (all' : ∀ c ∈ part, c ∈ decimal.letters)
    (shape : tail = [] ∧ part = [] ∨ tail = '.' :: part) :
    scanDecimal skipped (whole ++ tail) =
      some { mantissa := number (whole ++ part), exponent := -part.length } := by
  obtain ⟨c,digits,rfl⟩ := List.exists_cons_of_ne_nil some_digit
  have digit := all c List.mem_cons_self
  have ends : tail.head?.all fun c => !isDigit c := by
    have point : (!isDigit '.') = true := by decide
    rcases shape with ⟨rfl,_⟩ | rfl
    · rfl
    · exact point
  have read_part : scanPart tail = (part,[]) := by
    rcases shape with ⟨rfl,rfl⟩ | rfl
    · rfl
    · have alone : scanDigits (part ++ []) = (part,[]) := scanDigits_append all' rfl
      rw [List.append_nil] at alone
      exact alone
  have start : (c :: digits ++ tail).dropWhile skipped = c :: digits ++ tail := by
    rw [List.cons_append, List.dropWhile_cons_of_neg]
    rw [kept c digit]
    exact Bool.false_ne_true
  have sign : scanSign (c :: digits ++ tail) = (none,c :: digits ++ tail) :=
    scanSign_digit digit (digits ++ tail)
  rw [scanDecimal, start, sign]
  dsimp only
  rw [scanDigits_append all ends]
  dsimp only
  rw [read_part]
  dsimp only
  rw [if_neg (List.append_ne_nil_of_left_ne_nil some_digit _)]
  simp [scanExponent]

/-- What is written of a decimal is scanned as the same number. -/
theorem scan_stringValue {skipped : Char → Bool} (kept : ∀ c ∈ decimal.letters, skipped c = false)
    (positive : d.negative = false) :
    ∃ read, scanDecimal skipped d.stringValue = some read ∧ read.negative = false ∧
      read.value = d.value := by
  by_cases zero : d.mantissa = 0
  case pos =>
    refine ⟨{ mantissa := 0, exponent := 0 },?_,rfl,?_⟩
    · have alone := @scanDecimal_digits skipped ['0'] [] [] kept (List.cons_ne_nil _ _)
        (each_of_all (by decide)) (each_of_all rfl) (Or.inl ⟨rfl,rfl⟩)
      rw [stringValue_zero zero]
      exact alone
    · rw [Decimal.value, Decimal.value, zero]
      simp
  have long := padded_length d
  have all := padded_digits d
  have whole_all : ∀ c ∈ d.padded.take (d.padded.length - (-d.exponent).toNat),
      c ∈ decimal.letters := fun c there => all c (List.mem_of_mem_take there)
  have part_all : ∀ c ∈ d.padded.drop (d.padded.length - (-d.exponent).toNat),
      c ∈ decimal.letters := fun c there => all c (List.mem_of_mem_drop there)
  have some_digit : d.padded.take (d.padded.length - (-d.exponent).toNat) ≠ [] := by
    rw [← List.length_pos_iff, List.length_take]
    omega
  have places : (d.padded.drop (d.padded.length - (-d.exponent).toNat)).length =
      (-d.exponent).toNat := by
    rw [List.length_drop]
    omega
  obtain ⟨tail,shape,text⟩ : ∃ tail,
      (tail = [] ∧ d.padded.drop (d.padded.length - (-d.exponent).toNat) = [] ∨
        tail = '.' :: d.padded.drop (d.padded.length - (-d.exponent).toNat)) ∧
      d.stringValue = d.padded.take (d.padded.length - (-d.exponent).toNat) ++ tail := by
    rw [stringValue_nonzero zero positive]
    by_cases none_there : (-d.exponent).toNat = 0
    case pos =>
      refine ⟨[],Or.inl ⟨rfl,?_⟩,?_⟩
      · rw [← List.length_eq_zero_iff, places, none_there]
      · rw [if_pos none_there, List.append_nil]
    case neg => exact ⟨_,Or.inr rfl,if_neg none_there⟩
  have scanned := scanDecimal_digits kept some_digit whole_all part_all shape
  rw [List.take_append_drop, padded_number, places] at scanned
  refine ⟨_,by rw [text, scanned],rfl,?_⟩
  have nonzero : (10 : Rat) ≠ 0 := by norm_num
  have split : d.exponent = d.exponent.toNat + -((-d.exponent).toNat : Int) := by omega
  rw [Decimal.value, Decimal.value, positive]
  conv_rhs => rw [split, zpow_add₀ nonzero, zpow_natCast]
  push_cast
  ring

/-- A number that is not negative is written in digits and a point. -/
theorem stringValue_mem (positive : d.negative = false) :
    ∀ c ∈ d.stringValue, c ∈ decimal.letters ∨ c = '.' := by
  intro c there
  have all := padded_digits d
  by_cases zero : d.mantissa = 0
  case pos =>
    rw [stringValue_zero zero] at there
    rw [List.mem_singleton.mp there]
    exact Or.inl (by decide)
  rw [stringValue_nonzero zero positive] at there
  split at there
  case isTrue => exact Or.inl (all c (List.mem_of_mem_take there))
  case isFalse =>
    rcases List.mem_append.mp there with whole | part
    · exact Or.inl (all c (List.mem_of_mem_take whole))
    · rcases List.mem_cons.mp part with point | part
      · exact Or.inr point
      · exact Or.inl (all c (List.mem_of_mem_drop part))

end Texts

end SwiftDecimal
