import AltMessenger.SwiftRuntime

/-!
The keys on which an amount is typed. What may be appended is decided on the text typed so far,
and the decision may put a zero in front of a separator, or another digit in place of a zero.
-/
namespace PinPad
open SwiftRuntime

inductive KeyboardType where
  | decimalPad
  | pinPad
  deriving DecidableEq, Repr

structure Pad where
  keyboardType : KeyboardType
  maxDigits : Nat
  currencyDecimalSeparator : Char
  separates : currencyDecimalSeparator.isDigit = false

structure State where
  currentOutput : List Char
  isAppendingDisabled : Bool
  deriving DecidableEq, Repr

def deleteKeyIdentifier : List Char := "del".toList

section Keys
variable (pad : Pad)

def items : List (List Char) :=
  match pad.keyboardType with
  | .decimalPad => [['1'],['2'],['3'],['4'],['5'],['6'],['7'],['8'],['9'],
      [pad.currencyDecimalSeparator],['0'],deleteKeyIdentifier]
  | .pinPad => [['1'],['2'],['3'],['4'],['5'],['6'],['7'],['8'],['9'],[],['0'],deleteKeyIdentifier]

/-- `currentOutput.range(of: currencyDecimalSeparator)?.lowerBound` -/
def decimalLocation (currentOutput : List Char) : Option Nat :=
  currentOutput.findIdx? fun c => c = pad.currencyDecimalSeparator

/-- The distance from the end to the separator is less than `-maxDigits`. -/
def isFull (currentOutput : List Char) : Bool :=
  match decimalLocation pad currentOutput with
  | some location => decide ((location : Int) - currentOutput.length < -pad.maxDigits)
  | none => false

/-- Whether the character may be appended, and the output, which may be changed on the way. -/
def shouldAppendChar (currentOutput char : List Char) : Bool × List Char :=
  let separator := pad.currencyDecimalSeparator
  if isFull pad currentOutput then (false, currentOutput)
  else if separator ∈ currentOutput ∧ char = [separator] then (false, currentOutput)
  else if pad.keyboardType = .decimalPad ∧ currentOutput = ['0'] then
    if char = [separator] then (true, currentOutput)
    else if char = ['0'] then (false, currentOutput)
    else (false, char)
  else if char = [separator] then
    if decimalLocation pad currentOutput = none then
      (true, if currentOutput = [] then ['0'] else currentOutput)
    else (false, currentOutput)
  else (true, currentOutput)

/-- The output after the key. -/
def typed (isAppendingDisabled : Bool) (currentOutput item : List Char) : List Char :=
  if item = deleteKeyIdentifier then
    if currentOutput = ['0',pad.currencyDecimalSeparator] then [] else currentOutput.dropLast
  else
    let (append, currentOutput) := shouldAppendChar pad currentOutput item
    if append && !isAppendingDisabled then currentOutput ++ item else currentOutput

/-- `collectionView(_:didSelectItemAt:)` -/
def didSelectItemAt (state : State) (row : Nat) : Except Trap State := do
  let item ← subscript (items pad) row
  pure { state with currentOutput := typed pad state.isAppendingDisabled state.currentOutput item }

/-- A digit, or digits that do not begin with zero. -/
structure Whole (digits : List Char) : Prop where
  nonempty : digits ≠ []
  each_digit : ∀ c ∈ digits, c.isDigit = true
  no_zero : digits.head? = some '0' → digits = ['0']

/-- No output, a whole number, or one with a separator and a fraction that is short enough. -/
inductive Decimal : List Char → Prop where
  | empty : Decimal []
  | whole {digits : List Char} (front : Whole digits) : Decimal digits
  | fraction {digits behind : List Char} (front : Whole digits)
      (decimals : ∀ c ∈ behind, c.isDigit = true) (short : behind.length ≤ pad.maxDigits) :
      Decimal (digits ++ pad.currencyDecimalSeparator :: behind)

end Keys

section Outputs
variable {pad : Pad} {digits behind : List Char}

theorem digit_other {c : Char} (digit : c.isDigit = true) : c ≠ pad.currencyDecimalSeparator := by
  intro same
  rw [same, pad.separates] at digit
  cases digit

theorem separator_absent (all : ∀ c ∈ digits, c.isDigit = true) :
    pad.currencyDecimalSeparator ∉ digits :=
  fun mem => digit_other (all _ mem) rfl

theorem location_absent (all : ∀ c ∈ digits, c.isDigit = true) :
    decimalLocation pad digits = none := by
  refine List.findIdx?_eq_none_iff.mpr fun c mem => decide_eq_false ?_
  exact digit_other (all c mem)

theorem location_behind (all : ∀ c ∈ digits, c.isDigit = true) :
    decimalLocation pad (digits ++ pad.currencyDecimalSeparator :: behind) =
      some digits.length := by
  have absent : decimalLocation pad digits = none := location_absent all
  unfold decimalLocation at absent ⊢
  rw [List.findIdx?_append, absent, Option.none_or, List.findIdx?_cons]
  simp

theorem isFull_whole (all : ∀ c ∈ digits, c.isDigit = true) : isFull pad digits = false := by
  rw [isFull, location_absent all]

/-- A fraction is full when it has as many digits as it may have. -/
theorem isFull_fraction (all : ∀ c ∈ digits, c.isDigit = true) :
    isFull pad (digits ++ pad.currencyDecimalSeparator :: behind) =
      decide (pad.maxDigits ≤ behind.length) := by
  rw [isFull, location_behind all]
  dsimp only
  rw [decide_eq_decide, List.length_append, List.length_cons]
  omega

theorem whole_digit {c : Char} (digit : c.isDigit = true) : Whole [c] where
  nonempty := List.cons_ne_nil c []
  each_digit := by
    intro d mem
    rw [List.mem_singleton.mp mem]
    exact digit
  no_zero := fun zero => congrArg (fun d => [d]) (Option.some.inj zero)

theorem Whole.append (front : Whole digits) (other : digits ≠ ['0']) {c : Char}
    (digit : c.isDigit = true) : Whole (digits ++ [c]) where
  nonempty := List.append_ne_nil_of_left_ne_nil front.nonempty [c]
  each_digit := by
    intro d mem
    rcases List.mem_append.mp mem with inside | last
    · exact front.each_digit d inside
    · rw [List.mem_singleton.mp last]
      exact digit
  no_zero := by
    rw [List.head?_append_of_ne_nil _ front.nonempty]
    exact fun zero => absurd (front.no_zero zero) other

theorem Whole.fraction_apart (front : Whole digits) :
    digits ++ pad.currencyDecimalSeparator :: behind ≠ ['0'] := by
  intro same
  have length := congrArg List.length same
  have some_digit := List.length_pos_iff.mpr front.nonempty
  rw [List.length_append, List.length_cons, List.length_singleton] at length
  omega

theorem Whole.dropLast (front : Whole digits) : Decimal pad digits.dropLast := by
  cases digits with
  | nil => exact Decimal.empty
  | cons a rest =>
    cases rest with
    | nil => exact Decimal.empty
    | cons b rest =>
      rw [List.dropLast_cons_cons]
      refine Decimal.whole ⟨List.cons_ne_nil _ _,?_,?_⟩
      · intro c mem
        refine front.each_digit c (List.dropLast_subset (a :: b :: rest) ?_)
        rwa [List.dropLast_cons_cons]
      · exact fun zero => absurd (front.no_zero zero) (by simp)

end Outputs

section Steps
variable {pad : Pad} {output : List Char} (disabled : Bool)

/-- A deleted character leaves a number, or nothing. -/
theorem typed_delete (decimal : Decimal pad output) :
    Decimal pad (typed pad disabled output deleteKeyIdentifier) := by
  unfold typed
  rw [if_pos rfl]
  split
  case isTrue => exact Decimal.empty
  case isFalse other =>
    cases decimal with
    | empty => exact Decimal.empty
    | whole front => exact front.dropLast
    | @fraction digits behind front decimals short =>
      rcases List.eq_nil_or_concat behind with rfl | ⟨before,last,rfl⟩
      · rw [List.dropLast_concat]
        exact Decimal.whole front
      · rw [List.concat_eq_append, ← List.cons_append, ← List.append_assoc, List.dropLast_concat]
        refine Decimal.fraction front (fun c mem => decimals c ?_) ?_
        · rw [List.concat_eq_append]
          exact List.mem_append_left _ mem
        · rw [List.length_concat] at short
          omega

theorem typed_appended {item result : List Char} {append : Bool}
    (key : item ≠ deleteKeyIdentifier)
    (decided : shouldAppendChar pad output item = (append, result)) :
    typed pad disabled output item = if append && !disabled then result ++ item else result := by
  unfold typed
  rw [if_neg key, decided]

/-- What the decision allows to append, and what it leaves, are numbers. -/
theorem typed_decided {item result : List Char} {append : Bool}
    (key : item ≠ deleteKeyIdentifier)
    (decided : shouldAppendChar pad output item = (append, result))
    (left : Decimal pad result) (appended : append = true → Decimal pad (result ++ item)) :
    Decimal pad (typed pad disabled output item) := by
  rw [typed_appended disabled key decided]
  split
  case isTrue both => exact appended (Bool.and_eq_true_iff.mp both).1
  case isFalse => exact left

theorem typed_separator (decimal : Decimal pad output) :
    Decimal pad (typed pad disabled output [pad.currencyDecimalSeparator]) := by
  have key : [pad.currencyDecimalSeparator] ≠ deleteKeyIdentifier := by simp [deleteKeyIdentifier]
  have zero : Whole ['0'] := whole_digit (by decide)
  have dotted {digits : List Char} (front : Whole digits) :
      Decimal pad (digits ++ [pad.currencyDecimalSeparator]) :=
    Decimal.fraction front (fun c mem => absurd mem List.not_mem_nil) (Nat.zero_le _)
  cases decimal with
  | empty =>
    have decided : shouldAppendChar pad [] [pad.currencyDecimalSeparator] = (true, ['0']) := by
      simp [shouldAppendChar, isFull, decimalLocation]
    exact typed_decided disabled key decided (Decimal.whole zero) fun _ => dotted zero
  | whole front =>
    have decided : shouldAppendChar pad output [pad.currencyDecimalSeparator] = (true, output) := by
      simp [shouldAppendChar, isFull_whole front.each_digit, separator_absent front.each_digit,
        location_absent front.each_digit, front.nonempty]
    exact typed_decided disabled key decided (Decimal.whole front) fun _ => dotted front
  | @fraction digits behind front decimals short =>
    have decided : shouldAppendChar pad (digits ++ pad.currencyDecimalSeparator :: behind)
        [pad.currencyDecimalSeparator] =
          (false, digits ++ pad.currencyDecimalSeparator :: behind) := by
      simp [shouldAppendChar]
    exact typed_decided disabled key decided (Decimal.fraction front decimals short)
      fun allowed => nomatch allowed

theorem typed_digit (decimalPad : pad.keyboardType = .decimalPad) (decimal : Decimal pad output)
    {c : Char} (digit : c.isDigit = true) : Decimal pad (typed pad disabled output [c]) := by
  have key : [c] ≠ deleteKeyIdentifier := by simp [deleteKeyIdentifier]
  have other : c ≠ pad.currencyDecimalSeparator := digit_other digit
  cases decimal with
  | empty =>
    have decided : shouldAppendChar pad [] [c] = (true, []) := by
      simp [shouldAppendChar, isFull, decimalLocation, other]
    exact typed_decided disabled key decided Decimal.empty
      fun _ => Decimal.whole (whole_digit digit)
  | whole front =>
    have open_end : isFull pad output = false := isFull_whole front.each_digit
    have absent : pad.currencyDecimalSeparator ∉ output := separator_absent front.each_digit
    by_cases zero : output = ['0']
    · -- The zero stays alone, or gives way to the digit.
      subst zero
      have decided : shouldAppendChar pad ['0'] [c] = (false, [c]) := by
        by_cases again : c = '0'
        · subst again
          simp [shouldAppendChar, open_end, decimalPad, other]
        · simp [shouldAppendChar, open_end, decimalPad, other, again]
      exact typed_decided disabled key decided (Decimal.whole (whole_digit digit))
        fun allowed => nomatch allowed
    · have decided : shouldAppendChar pad output [c] = (true, output) := by
        simp [shouldAppendChar, open_end, zero, other]
      exact typed_decided disabled key decided (Decimal.whole front)
        fun _ => Decimal.whole (front.append zero digit)
  | @fraction digits behind front decimals short =>
    by_cases full : pad.maxDigits ≤ behind.length
    · have decided : shouldAppendChar pad (digits ++ pad.currencyDecimalSeparator :: behind) [c] =
          (false, digits ++ pad.currencyDecimalSeparator :: behind) := by
        simp [shouldAppendChar, isFull_fraction front.each_digit, full]
      exact typed_decided disabled key decided (Decimal.fraction front decimals short)
        fun allowed => nomatch allowed
    · have decided : shouldAppendChar pad (digits ++ pad.currencyDecimalSeparator :: behind) [c] =
          (true, digits ++ pad.currencyDecimalSeparator :: behind) := by
        simp [shouldAppendChar, isFull_fraction front.each_digit, full, other, front.fraction_apart]
      refine typed_decided disabled key decided (Decimal.fraction front decimals short) fun _ => ?_
      rw [List.append_assoc, List.cons_append]
      refine Decimal.fraction front (fun d mem => ?_) ?_
      · rcases List.mem_append.mp mem with inside | last
        · exact decimals d inside
        · rw [List.mem_singleton.mp last]
          exact digit
      · rw [List.length_append, List.length_singleton]
        omega

end Steps

/-- The keys of the pad are digits, the separator and the one that deletes. -/
theorem items_cases {pad : Pad} (decimalPad : pad.keyboardType = .decimalPad) :
    ∀ item ∈ items pad, item = deleteKeyIdentifier ∨ item = [pad.currencyDecimalSeparator] ∨
      ∃ c, item = [c] ∧ c.isDigit = true := by
  rw [items, decimalPad]
  simp

theorem items_row {pad : Pad} (decimalPad : pad.keyboardType = .decimalPad) (row : Fin 12) :
    ∃ item ∈ items pad, subscript (items pad) row = .ok item := by
  have count : (items pad).length = 12 := by
    rw [items, decimalPad]
    rfl
  have inside : row.val < (items pad).length := by
    rw [count]
    exact row.isLt
  exact ⟨(items pad)[row.val],List.getElem_mem inside,
    subscript_ok.mpr (List.getElem?_eq_getElem inside)⟩

/-- Every key leaves a number, if there was one. -/
theorem didSelectItemAt_decimal {pad : Pad} (decimalPad : pad.keyboardType = .decimalPad)
    {state : State} (decimal : Decimal pad state.currentOutput) (row : Fin 12) :
    ∃ next, didSelectItemAt pad state row = .ok next ∧ Decimal pad next.currentOutput := by
  obtain ⟨item,mem,found⟩ := items_row decimalPad row
  refine ⟨_,bind_ready found,?_⟩
  rcases items_cases decimalPad item mem with rfl | rfl | ⟨c,rfl,digit⟩
  · exact typed_delete state.isAppendingDisabled decimal
  · exact typed_separator state.isAppendingDisabled decimal
  · exact typed_digit state.isAppendingDisabled decimalPad decimal digit

/-- A pad for amounts, on which nothing has been typed yet. -/
def amountPad (maxDigits : Nat) (separator : { c : Char // c.isDigit = false }) : Pad where
  keyboardType := .decimalPad
  maxDigits
  currencyDecimalSeparator := separator
  separates := separator.property

/-- Whatever keys are pressed, the output is empty or a number. -/
theorem output_decimal (maxDigits : Nat) (separator : { c : Char // c.isDigit = false })
    (disabled : Bool) (rows : List (Fin 12)) :
    ∃ state : State, rows.foldlM (fun state row =>
        didSelectItemAt (amountPad maxDigits separator) state row.val)
          { currentOutput := [], isAppendingDisabled := disabled } = .ok state ∧
      Decimal (amountPad maxDigits separator) state.currentOutput := by
  have run (state : State) (decimal : Decimal (amountPad maxDigits separator) state.currentOutput) :
      ∃ last : State, rows.foldlM (fun state row =>
          didSelectItemAt (amountPad maxDigits separator) state row.val) state = .ok last ∧
        Decimal (amountPad maxDigits separator) last.currentOutput := by
    induction rows generalizing state with
    | nil => exact ⟨state,rfl,decimal⟩
    | cons row rows ih =>
      obtain ⟨next,pressed,kept⟩ := didSelectItemAt_decimal rfl decimal row
      obtain ⟨last,later,holds⟩ := ih next kept
      exact ⟨last,by rw [List.foldlM_cons, bind_ready pressed]; exact later,holds⟩
  exact run _ Decimal.empty

end PinPad
