import AltMessenger.BinaryRounding
import AltMessenger.SwiftRuntime
import AltMessenger.SwiftText

/-!
`Float` of Swift: what it reads from a text of digits, its product, and its conversion to a whole
number, which stops where the number does not fit.
-/
namespace SwiftFloat
open BinaryRounding Numerals SwiftRuntime SwiftText

def single : Format := ⟨23,-149,128⟩

def double : Format := ⟨52,-1074,1024⟩

theorem hexDigits_distinct : "0123456789abcdef".toList.Nodup := by decide

theorem hexDigits_several : 2 ≤ "0123456789abcdef".toList.length := by decide

def hexadecimal : Alphabet Char := ⟨"0123456789abcdef".toList,hexDigits_distinct,hexDigits_several⟩

/-- Digits, one at least, with a point among them or none: the number without the point, and how
    many digits are after it. -/
def significand (A : Alphabet Char) (text : List Char) : Option (Nat × Nat) :=
  match components text '.' with
  | [whole] => if whole = [] then none else (A.read whole).map fun n => (n, 0)
  | [whole, part] =>
    if whole ++ part = [] then none
    else (A.read (whole ++ part)).map fun n => (n, part.length)
  | _ => none

/-- A significand, and after a letter the power of a base, if there is one. -/
def scaled (A : Alphabet Char) (letter : Char) (base : Rat) (text : List Char) : Option Rat :=
  match components text letter with
  | [digits] => (significand A digits).map fun (n, places) => (n : Rat) / (A.base : Rat) ^ places
  | [digits, power] => do
    let (n, places) ← significand A digits
    let e ← signed power
    some ((n : Rat) / (A.base : Rat) ^ places * base ^ e)
  | _ => none

def unsignedNumber : List Char → Option Rat
  | '0' :: 'x' :: text => scaled hexadecimal 'p' 2 text
  | text => scaled decimal 'e' 10 text

/-- The number that a text writes, in decimal or hexadecimal digits. -/
def number (text : List Char) : Option Rat :=
  match lowercased text with
  | '-' :: text => (unsignedNumber text).map fun q => -q
  | '+' :: text => unsignedNumber text
  | text => unsignedNumber text

/-- `Float(_:)` of a text that has a point: the names of infinity and NaN have none. -/
def float (text : List Char) : Option Value := (number text).map single.value

/-- `Int64(_:)` of a `Float`: a fraction is dropped, and what is left must fit. -/
def int64 : Value → Except Trap Int
  | .finite q =>
    if -2 ^ 63 - 1 < q ∧ q < 2 ^ 63 then .ok (if q < 0 then ⌈q⌉ else ⌊q⌋) else .error .conversion
  | _ => .error .conversion

section Products
variable {q : Rat} {e e' k k' : Int} {factor : Rat}

/-- A number without its sign, multiplied as a `Float`. -/
def product (q factor : Rat) : Rat := single.magnitude (single.magnitude q * factor)

theorem product_nonneg (nonneg : 0 ≤ q) (positive : 0 ≤ factor) : 0 ≤ product q factor :=
  Format.magnitude_nonneg (mul_nonneg (Format.magnitude_nonneg nonneg) positive)

/-- A product reaches a number of the format exactly if its first factor is at the first one whose
    product is past the midpoint below that number. -/
theorem le_product_iff (normal : single.Normal k e) (normal' : single.Normal k' e')
    (nonneg : 0 ≤ q) (positive : 0 ≤ factor)
    (before : ((k : Rat) - 1) * 2 ^ e * factor < ((k' : Rat) - 1 / 2) * 2 ^ e')
    (after : ((k' : Rat) - 1 / 2) * 2 ^ e' < k * 2 ^ e * factor) :
    k' * 2 ^ e' ≤ product q factor ↔ k * 2 ^ e ≤ single.magnitude q := by
  have made : 0 ≤ single.magnitude q := Format.magnitude_nonneg nonneg
  unfold product
  rw [normal'.le_magnitude_iff (mul_nonneg made positive)]
  constructor
  · intro past
    rcases normal.magnitude_gap nonneg with less | more
    · have product := mul_le_mul_of_nonneg_right less positive
      rcases past with past | ⟨tie,_⟩
      · linarith
      · linarith
    · exact more
  · intro reaches
    have product := mul_le_mul_of_nonneg_right reaches positive
    exact Or.inl (by linarith)

/-- What is infinite is as far from an `Int64` as the number it was rounded from. -/
theorem int64_large {q : Rat} (large : 2 ^ 128 ≤ |q|) : int64 (.finite q) = .error .conversion := by
  refine if_neg ?_
  rintro ⟨low,high⟩
  rcases abs_cases q with ⟨same,_⟩ | ⟨same,_⟩
  · linarith
  · linarith

theorem int64_value (q : Rat) : int64 (single.value q) = int64 (.finite (single.round q)) := by
  unfold Format.value
  split
  case isTrue large =>
    rw [int64_large large]
    rfl
  case isFalse => rfl

theorem int64_mul (q : Rat) (large : 1 ≤ factor) :
    int64 (single.mul (single.value q) (.finite factor)) =
      int64 (.finite (single.round (single.round q * factor))) := by
  by_cases infinite : 2 ^ single.top ≤ |single.round q|
  · have first : single.value q = .infinity (q < 0) := if_pos infinite
    have least : single.least ≤ 104 := by decide
    have grows : (2 : Rat) ^ ((104 : Int) + (23 : Nat) + 1) ≤ |single.round q * factor| := by
      rw [abs_mul, abs_of_pos (by linarith : 0 < factor)]
      exact infinite.trans (le_mul_of_one_le_right (abs_nonneg _) large)
    have far : 2 ^ 128 ≤ |single.round (single.round q * factor)| := by
      rw [Format.abs_round]
      exact single.power_le_magnitude least grows
    rw [first, int64_large far, Format.mul, if_neg (by linarith)]
    rfl
  · have first : single.value q = .finite (single.round q) := if_neg infinite
    rw [first, Format.mul, int64_value]

/-- The product of a number that is not negative, without its fraction. -/
theorem converted_nonneg (nonneg : 0 ≤ q) (large : 1 ≤ factor) :
    int64 (single.mul (single.value q) (.finite factor)) =
      if product q factor < 2 ^ 63 then .ok ⌊product q factor⌋ else .error .conversion := by
  have made := product_nonneg nonneg (by linarith : 0 ≤ factor)
  have rounded : single.round (single.round q * factor) = product q factor := by
    rw [Format.round_nonneg nonneg]
    exact Format.round_nonneg (mul_nonneg (Format.magnitude_nonneg nonneg) (by linarith))
  have low : -2 ^ 63 - 1 < product q factor := by linarith
  rw [int64_mul q large, rounded]
  simp only [int64, low, true_and, not_lt.mpr made, if_false]

theorem converted_neg (nonneg : 0 ≤ q) (large : 1 ≤ factor) :
    int64 (single.mul (single.value (-q)) (.finite factor)) =
      if product q factor < 2 ^ 63 + 1 then .ok (-⌊product q factor⌋) else .error .conversion := by
  have made := product_nonneg nonneg (by linarith : 0 ≤ factor)
  have rounded : single.round (single.round (-q) * factor) = -product q factor := by
    rw [Format.round_neg nonneg, neg_mul]
    exact Format.round_neg (mul_nonneg (Format.magnitude_nonneg nonneg) (by linarith))
  have range : (-2 ^ 63 - 1 < -product q factor ∧ -product q factor < 2 ^ 63) ↔
      product q factor < 2 ^ 63 + 1 := by
    constructor
    · intro both
      linarith [both.1]
    · intro below
      exact ⟨by linarith,by linarith⟩
  rw [int64_mul (-q) large, rounded]
  simp only [int64, range]
  rcases made.eq_or_lt with zero | positive
  · simp [← zero]
  · rw [if_pos (neg_neg_of_pos positive), Int.ceil_neg]

end Products

end SwiftFloat
