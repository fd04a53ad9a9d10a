import AltMessenger.PublicAddress
import AltMessenger.SwiftText

/-!
Base 58 as a way to write numbers: what the two conversions of an address make of the number that
the hexadecimal digits, or the letters, stand for.
-/
namespace Base58Numbers
open SwiftRuntime BitcoinHash PublicAddress Numerals

/-- The zero bytes in front, two digits each. -/
def leadingZeroBytes : List Char → Nat
  | '0' :: '0' :: text => leadingZeroBytes text + 1
  | _ => 0

/-- The text in base 58 has a one for each zero byte in front of the hexadecimal text. What is behind
    them are the digits of the same number, the highest first, and none for zero. -/
def Encodes (hex encoded : List Char) : Prop :=
  (encoded.takeWhile (· = '1')).length = leadingZeroBytes hex ∧
    ∃ digits, List.Forall₂ (fun c d => hexValue c = some d) hex digits ∧
      (encoded.dropWhile (· = '1')).map ALPHABET.idxOf =
        (Nat.digits 58 (Nat.ofDigits 16 digits.reverse)).reverse

/-- The bytes, the highest first, and the letters are the same number. -/
def Decodes (text : List Char) (data : List UInt8) : Prop :=
  Nat.ofDigits 256 (data.map UInt8.toNat).reverse = Nat.ofDigits 58 (text.map ALPHABET.idxOf).reverse

section Hexadecimal
variable {text : List Char}

/-- A text that is read as a number consists of digits. -/
theorem hexNumber_digits {number value : Nat} (read : hexNumber number text = some value) :
    ∃ digits, List.Forall₂ (fun c d => hexValue c = some d) text digits ∧
      value = number * 16 ^ digits.length + Nat.ofDigits 16 digits.reverse := by
  induction text generalizing number with
  | nil =>
    cases read
    exact ⟨[],List.Forall₂.nil,by simp⟩
  | cons c text ih =>
    rw [hexNumber, Option.bind_eq_bind, Option.bind_eq_some_iff] at read
    obtain ⟨d,first,later⟩ := read
    obtain ⟨digits,each,rfl⟩ := ih later
    refine ⟨d :: digits,List.Forall₂.cons first each,?_⟩
    rw [List.reverse_cons, Nat.ofDigits_append, Nat.ofDigits_singleton, List.length_reverse,
      List.length_cons]
    ring

theorem leadingOnes_even (even : text.length % 2 = 0) :
    leadingOnes text = .ok (List.replicate (leadingZeroBytes text) '1') := by
  induction text using List.twoStepInduction with
  | nil => rfl
  | singleton c => exact absurd even Nat.one_ne_zero
  | cons_cons a b text ih _ =>
    have rest : text.length % 2 = 0 := by
      simp only [List.length_cons] at even
      omega
    rw [leadingOnes]
    split
    case isTrue zeros =>
      rw [bind_ready (ih rest), zeros.1, zeros.2, leadingZeroBytes, List.replicate_succ]
      rfl
    case isFalse other =>
      have none_there : leadingZeroBytes (a :: b :: text) = 0 := by
        unfold leadingZeroBytes
        split
        case h_1 same =>
          obtain ⟨first,same⟩ := List.cons.inj same
          exact absurd ⟨first,(List.cons.inj same).1⟩ other
        case h_2 => rfl
      rw [none_there]
      rfl

end Hexadecimal

/-- A number written in base 58 does not begin with a one. -/
theorem ones_split (count number : Nat) :
    (List.replicate count '1' ++ base58.write number).takeWhile (· = '1') =
        List.replicate count '1' ∧
      (List.replicate count '1' ++ base58.write number).dropWhile (· = '1') =
        base58.write number := by
  have all : ∀ c ∈ List.replicate count '1', decide (c = '1') = true := by
    intro c mem
    exact decide_eq_true (List.eq_of_mem_replicate mem)
  rw [List.takeWhile_append_of_pos all, List.dropWhile_append_of_pos all]
  have head := write_head (A := base58) number
  cases written : base58.write number with
  | nil => exact ⟨List.append_nil _,rfl⟩
  | cons c letters =>
    rw [written] at head
    have other : c ≠ '1' := fun same => head (congrArg some same)
    simp [other]

theorem hexStringToBase58Encoding_encodes {hex encoded : List Char} (even : hex.length % 2 = 0)
    (accepted : hexStringToBase58Encoding hex = .ok encoded) : Encodes hex encoded := by
  obtain ⟨number,read,written⟩ := bind_ran.mp accepted
  rw [bind_ready (leadingOnes_even even)] at written
  cases written
  obtain ⟨digits,each,value⟩ := hexNumber_digits (unwrap_ok.mp read)
  obtain ⟨ones,behind⟩ := ones_split (leadingZeroBytes hex) number
  rw [Nat.zero_mul, Nat.zero_add] at value
  refine ⟨by rw [ones, List.length_replicate],digits,each,?_⟩
  rw [behind, ← value]
  exact write_digits (A := base58) number

theorem ofBytes_digits (data : List UInt8) :
    LittleEndian.ofBytes data = Nat.ofDigits 256 (data.map UInt8.toNat) := by
  induction data with
  | nil => rfl
  | cons b data ih => rw [LittleEndian.ofBytes, ih, List.map_cons, Nat.ofDigits_cons]

theorem base58StringToNSData_decodes {text : List Char} (spelled : ∀ c ∈ text, c ∈ ALPHABET) :
    ∃ data, base58StringToNSData text = some data ∧ Decodes text data := by
  have read := read_digits (A := base58) spelled
  refine ⟨_,by rw [base58StringToNSData, read]; rfl,?_⟩
  rw [Decodes, ← List.map_reverse, ← ofBytes_digits, ← bigUInt, bigUInt_serialize]
  rfl

/-- Both conversions keep the number: the encoding of every text of whole bytes that is accepted, and
    the decoding of every text over the alphabet. -/
theorem number_kept {hex encoded text : List Char} (even : hex.length % 2 = 0)
    (accepted : hexStringToBase58Encoding hex = .ok encoded) (spelled : ∀ c ∈ text, c ∈ ALPHABET) :
    Encodes hex encoded ∧ ∃ data, base58StringToNSData text = some data ∧ Decodes text data :=
  ⟨hexStringToBase58Encoding_encodes even accepted,base58StringToNSData_decodes spelled⟩

theorem zero_byte_and_letters_kept :
    Encodes "0000Ff01".toList "11LQY".toList ∧
      ∃ data, base58StringToNSData "1Az".toList = some data ∧ Decodes "1Az".toList data :=
  number_kept (by decide) (by decide +kernel) (SwiftText.each_of_all (by decide))

end Base58Numbers
