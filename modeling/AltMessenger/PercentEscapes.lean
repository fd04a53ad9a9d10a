import AltMessenger.UTF8Text

/-!
Percent escapes: a character is itself or the bytes of its UTF-8, each written as a percent sign
and two hexadecimal digits.
-/
namespace PercentEscapes
open UTF8Text

def hexDigit (n : Nat) : Char := Char.ofNat (if n < 10 then 48 + n else 55 + n)

def hexValue (c : Char) : Option Nat :=
  if 48 ≤ c.toNat ∧ c.toNat < 58 then some (c.toNat - 48)
  else if 65 ≤ c.toNat ∧ c.toNat < 71 then some (c.toNat - 55)
  else if 97 ≤ c.toNat ∧ c.toNat < 103 then some (c.toNat - 87)
  else none

def escapeByte (b : UInt8) : List Char :=
  ['%',hexDigit (b.toNat / 16),hexDigit (b.toNat % 16)]

/-- What is allowed stays, and of the rest each byte is escaped. -/
def escape (allowed : Char → Bool) (text : List Char) : List Char :=
  text.flatMap fun c =>
    if allowed c then [c] else (String.utf8EncodeChar c).flatMap escapeByte

/-- The bytes of a text whose percent signs all begin an escape. -/
def unescape : List Char → Option (List UInt8)
  | [] => some []
  | '%' :: high :: low :: text => do
    let bytes ← unescape text
    some (UInt8.ofNat (16 * (← hexValue high) + (← hexValue low)) :: bytes)
  | '%' :: _ => none
  | c :: text => (unescape text).map (String.utf8EncodeChar c ++ ·)

def decode (text : List Char) : Option (List Char) := (unescape text).bind ofUTF8

theorem hexValue_hexDigit : ∀ n < 16, hexValue (hexDigit n) = some n := by decide

theorem hexDigit_ascii : ∀ n < 16, (hexDigit n).toNat < 128 := by decide

section Escape
variable {text rest : List Char}

theorem unescape_escapeByte (b : UInt8) (text : List Char) :
    unescape (escapeByte b ++ text) = (unescape text).map (b :: ·) := by
  have small := b.toNat_lt
  have high := hexValue_hexDigit (b.toNat / 16) (by omega)
  have low := hexValue_hexDigit (b.toNat % 16) (by omega)
  have whole : UInt8.ofNat (16 * (b.toNat / 16) + b.toNat % 16) = b := by
    rw [Nat.div_add_mod, UInt8.ofNat_toNat]
  change unescape ('%' :: hexDigit (b.toNat / 16) :: hexDigit (b.toNat % 16) :: text) = _
  rw [unescape]
  cases unescape text with
  | none => rfl
  | some bytes =>
    simp only [high, low, Option.bind_eq_bind, Option.bind_some, Option.map_some, whole]

theorem unescape_bytes (bytes : List UInt8) (text : List Char) :
    unescape (bytes.flatMap escapeByte ++ text) = (unescape text).map (bytes ++ ·) := by
  induction bytes with
  | nil => exact Option.map_id'.symm
  | cons b bytes ih =>
    rw [List.flatMap_cons, List.append_assoc, unescape_escapeByte, ih, Option.map_map]
    rfl

theorem unescape_cons {c : Char} (plain : c ≠ '%') (text : List Char) :
    unescape (c :: text) = (unescape text).map (String.utf8EncodeChar c ++ ·) := by
  rw [unescape]
  · exact fun _ _ _ percent => absurd percent plain
  · exact fun percent => absurd percent plain

/-- What was escaped is read back, also where some of the allowed characters were exchanged. -/
theorem unescape_exchanged {allowed : Char → Bool} {f : Char → Char}
    (escapes : ∀ b : UInt8, (escapeByte b).map f = escapeByte b)
    (plain : ∀ c, allowed c = true → f c ≠ '%') (others : ∀ c, allowed c = false → f c = c)
    (text rest : List Char) :
    unescape ((escape allowed text).map f ++ rest) =
      (unescape rest).map (utf8 (text.map f) ++ ·) := by
  have bytes_kept (bytes : List UInt8) :
      (bytes.flatMap escapeByte).map f = bytes.flatMap escapeByte := by
    rw [List.map_flatMap]
    exact congrArg (bytes.flatMap ·) (funext escapes)
  induction text with
  | nil => exact Option.map_id'.symm
  | cons c text ih =>
    rw [escape, List.flatMap_cons, ← escape, List.map_append, List.append_assoc, List.map_cons,
      utf8_cons]
    split
    case isTrue inside =>
      rw [List.map_singleton, List.singleton_append, unescape_cons (plain c inside), ih,
        Option.map_map]
      congr 1
      funext more
      exact (List.append_assoc _ _ _).symm
    case isFalse outside =>
      rw [bytes_kept, unescape_bytes, ih, Option.map_map, others c (Bool.eq_false_iff.mpr outside)]
      congr 1
      funext more
      exact (List.append_assoc _ _ _).symm

/-- Each character is one that is allowed, or of an escape. -/
theorem escape_mem {allowed : Char → Bool} {c : Char} (there : c ∈ escape allowed text) :
    allowed c = true ∨ c = '%' ∨ ∃ n < 16, c = hexDigit n := by
  obtain ⟨d,-,inside⟩ := List.mem_flatMap.mp there
  split at inside
  case isTrue kept =>
    rw [List.mem_singleton.mp inside]
    exact Or.inl kept
  case isFalse =>
    obtain ⟨b,-,escaped⟩ := List.mem_flatMap.mp inside
    have small := b.toNat_lt
    rcases List.mem_cons.mp escaped with percent | digit
    · exact Or.inr (Or.inl percent)
    · rcases List.mem_cons.mp digit with high | low
      · exact Or.inr (Or.inr ⟨_,by omega,high⟩)
      · exact Or.inr (Or.inr ⟨_,by omega,List.mem_singleton.mp low⟩)

theorem escape_ascii {allowed : Char → Bool} (ascii : ∀ c, allowed c = true → c.toNat < 128)
    (text : List Char) : ∀ c ∈ escape allowed text, c.toNat < 128 := by
  intro c there
  rcases escape_mem there with kept | percent | ⟨n,small,digit⟩
  · exact ascii c kept
  · rw [percent]
    decide
  · rw [digit]
    exact hexDigit_ascii n small

end Escape

section Cut
variable {c : Char} {front rest : List Char}

/-- An escape does not reach over a character that is no part of one. -/
theorem unescape_cut (plain : c ≠ '%') (no_digit : hexValue c = none) (front rest : List Char) :
    unescape (front ++ c :: rest) = (unescape front).bind fun before =>
      (unescape rest).map fun after => before ++ (String.utf8EncodeChar c ++ after) := by
  fun_induction unescape front with
  | case1 => exact unescape_cons plain rest
  | case2 high low text ih =>
    rw [List.cons_append, List.cons_append, List.cons_append, unescape, ih]
    cases unescape text <;> cases unescape rest <;> cases hexValue high <;> cases hexValue low <;>
      rfl
  | case3 text short =>
    rw [Option.bind_none]
    match text, rest with
    | [], [] => rfl
    | [], d :: rest =>
      change unescape ('%' :: c :: d :: rest) = none
      rw [unescape, no_digit]
      cases unescape rest <;> rfl
    | [high], rest =>
      change unescape ('%' :: high :: c :: rest) = none
      rw [unescape, no_digit]
      cases unescape rest <;> cases hexValue high <;> rfl
    | high :: low :: text, rest => exact absurd rfl (short high low text)
  | case4 d text first second ih =>
    have other : d ≠ '%' := second
    rw [List.cons_append, unescape_cons other, ih]
    cases unescape text with
    | none => rfl
    | some before =>
      cases unescape rest with
      | none => rfl
      | some after => exact congrArg some (List.append_assoc _ _ _).symm

theorem decodes_iff : (∃ plain, decode front = some plain) ↔
    ∃ bytes, unescape front = some bytes ∧ ∃ plain, utf8 plain = bytes := by
  constructor
  · rintro ⟨plain,decoded⟩
    obtain ⟨bytes,escaped,whole⟩ := Option.bind_eq_some_iff.mp decoded
    exact ⟨bytes,escaped,plain,ofUTF8_iff.mp whole⟩
  · rintro ⟨bytes,escaped,plain,whole⟩
    exact ⟨plain,Option.bind_eq_some_iff.mpr ⟨bytes,escaped,ofUTF8_iff.mpr whole⟩⟩

/-- Around such a character the two sides are decoded each for itself. -/
theorem decodes_cut (ascii : c.toNat < 128) (plain : c ≠ '%') (no_digit : hexValue c = none)
    (front rest : List Char) : (∃ text, decode (front ++ c :: rest) = some text) ↔
      (∃ text, decode front = some text) ∧ ∃ text, decode rest = some text := by
  rw [decodes_iff, decodes_iff, decodes_iff, unescape_cut plain no_digit]
  constructor
  · rintro ⟨bytes,escaped,whole⟩
    obtain ⟨before,front_bytes,escaped⟩ := Option.bind_eq_some_iff.mp escaped
    obtain ⟨after,rest_bytes,rfl⟩ := Option.map_eq_some_iff.mp escaped
    obtain ⟨front_text,rest_text⟩ := (utf8_cut ascii before after).mp whole
    exact ⟨⟨before,front_bytes,front_text⟩,after,rest_bytes,rest_text⟩
  · rintro ⟨⟨before,front_bytes,front_text⟩,after,rest_bytes,rest_text⟩
    refine ⟨_,?_,(utf8_cut ascii before after).mpr ⟨front_text,rest_text⟩⟩
    rw [front_bytes, rest_bytes]
    rfl

/-- No part of an escape, and one byte. -/
def Cuts (c : Char) : Prop := c.toNat < 128 ∧ c ≠ '%' ∧ hexValue c = none

/-- Texts that differ in such characters are both decoded or neither. -/
theorem decodes_exchanged {text other : List Char}
    (alike : List.Forall₂ (fun c d => c = d ∨ Cuts c ∧ Cuts d) text other) (front : List Char) :
    (∃ plain, decode (front ++ text) = some plain) ↔
      ∃ plain, decode (front ++ other) = some plain := by
  induction alike generalizing front with
  | nil => exact Iff.rfl
  | @cons c d text other first later ih =>
    rcases first with same | ⟨⟨ascii,plain,no_digit⟩,⟨ascii',plain',no_digit'⟩⟩
    · rw [same]
      have next := ih (front ++ [d])
      rwa [List.append_assoc, List.append_assoc] at next
    · rw [decodes_cut ascii plain no_digit, decodes_cut ascii' plain' no_digit']
      exact and_congr_right fun _ => ih []

end Cut

end PercentEscapes
