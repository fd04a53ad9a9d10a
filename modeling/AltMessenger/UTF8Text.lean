import Mathlib.Data.List.Basic

/-!
UTF-8 on lists of characters and of bytes: what is decoded is what was encoded, and nothing else.
-/
namespace UTF8Text

def utf8 (text : List Char) : List UInt8 := text.flatMap String.utf8EncodeChar

def ofUTF8 (bytes : List UInt8) : Option (List Char) :=
  (ByteArray.utf8Decode? ⟨bytes.toArray⟩).map Array.toList

theorem utf8_append (text rest : List Char) : utf8 (text ++ rest) = utf8 text ++ utf8 rest :=
  List.flatMap_append

theorem utf8_cons (c : Char) (text : List Char) :
    utf8 (c :: text) = String.utf8EncodeChar c ++ utf8 text := rfl

theorem utf8Encode_eq (text : List Char) : text.utf8Encode = ⟨(utf8 text).toArray⟩ := by
  apply ByteArray.ext
  simp [List.utf8Encode, utf8]

theorem ofUTF8_iff {bytes : List UInt8} {text : List Char} :
    ofUTF8 bytes = some text ↔ utf8 text = bytes := by
  unfold ofUTF8
  constructor
  · intro decoded
    obtain ⟨chars,found,same⟩ := Option.map_eq_some_iff.mp decoded
    have valid : (ByteArray.utf8Decode? ⟨bytes.toArray⟩).isSome := by rw [found]; rfl
    obtain ⟨letters,whole⟩ := ByteArray.isSome_utf8Decode?_iff.mp valid
    rw [whole, List.utf8Decode?_utf8Encode] at found
    cases found
    cases same
    rw [utf8Encode_eq] at whole
    exact (congrArg (fun array : ByteArray => array.data.toList) whole).symm
  · intro encoded
    subst encoded
    rw [← utf8Encode_eq, List.utf8Decode?_utf8Encode]
    rfl

theorem ofUTF8_utf8 (text : List Char) : ofUTF8 (utf8 text) = some text := ofUTF8_iff.mpr rfl

/-- Bytes begin with one character at most. -/
theorem encodeChar_unique {c d : Char} {bytes other : List UInt8}
    (same : String.utf8EncodeChar c ++ bytes = String.utf8EncodeChar d ++ other) : c = d := by
  have decoded : ∀ (c : Char) (bytes : List UInt8),
      ByteArray.utf8DecodeChar? ⟨(String.utf8EncodeChar c ++ bytes).toArray⟩ 0 = some c := by
    intro c bytes
    have whole : (⟨(String.utf8EncodeChar c ++ bytes).toArray⟩ : ByteArray) =
        (String.utf8EncodeChar c).toByteArray ++ bytes.toByteArray := by
      apply ByteArray.ext
      simp
    rw [whole]
    exact ByteArray.utf8DecodeChar?_utf8EncodeChar_append
  have first := decoded c bytes
  rw [same, decoded d other] at first
  exact (Option.some.inj first).symm

theorem marked_large {n width mark : Nat} (large : 128 ≤ mark) (fits : width + mark ≤ 256)
    (some_width : 0 < width) : 128 ≤ (UInt8.ofNat (n % width + mark)).toNat := by
  have below := Nat.mod_lt n some_width
  have inside : n % width + mark < UInt8.size := Nat.lt_of_lt_of_le (by omega) fits
  rw [UInt8.toNat_ofNat_of_lt' inside]
  omega

/-- A byte below 128 is a character of its own. -/
theorem encodeChar_ascii {c : Char} {b : UInt8} (ascii : b.toNat < 128)
    (there : b ∈ String.utf8EncodeChar c) : String.utf8EncodeChar c = [b] := by
  have not_marked {n width mark : Nat} (large : 128 ≤ mark) (fits : width + mark ≤ 256)
      (some_width : 0 < width) : b ≠ UInt8.ofNat (n % width + mark) := by
    intro same
    have marked := marked_large (n := n) large fits some_width
    rw [← same] at marked
    omega
  have lead2 := @not_marked (c.val.toNat / 64) 0x20 0xc0 (by omega) (by omega) (by omega)
  have lead3 := @not_marked (c.val.toNat / 4096) 0x10 0xe0 (by omega) (by omega) (by omega)
  have lead4 := @not_marked (c.val.toNat / 262144) 0x08 0xf0 (by omega) (by omega) (by omega)
  have later (n : Nat) := @not_marked n 0x40 0x80 (by omega) (by omega) (by omega)
  unfold String.utf8EncodeChar at there ⊢
  dsimp only at there ⊢
  split at there
  case isTrue small =>
    rw [if_pos small, List.mem_singleton.mp there]
  case isFalse =>
    exfalso
    split at there
    · simp only [List.mem_cons, List.not_mem_nil, or_false, lead2, later] at there
    · split at there
      · simp only [List.mem_cons, List.not_mem_nil, or_false, lead3, later] at there
      · simp only [List.mem_cons, List.not_mem_nil, or_false, lead4, later] at there

theorem encodeChar_single {c : Char} (ascii : c.toNat < 128) :
    String.utf8EncodeChar c = [UInt8.ofNat c.toNat] :=
  if_pos (Nat.lt_succ_iff.mp ascii)

/-- Around a character below 128 the text is cut in two. -/
theorem utf8_cut {c : Char} (ascii : c.toNat < 128) (front rest : List UInt8) :
    (∃ text, utf8 text = front ++ (String.utf8EncodeChar c ++ rest)) ↔
      (∃ text, utf8 text = front) ∧ ∃ text, utf8 text = rest := by
  constructor
  · rintro ⟨text,whole⟩
    induction text generalizing front with
    | nil =>
      rw [encodeChar_single ascii] at whole
      exact absurd whole.symm (List.append_ne_nil_of_right_ne_nil front (List.cons_ne_nil _ rest))
    | cons d text ih =>
      rw [utf8_cons] at whole
      rcases List.append_eq_append_iff.mp whole with ⟨more,before,after⟩ | ⟨more,before,after⟩
      · -- the character is behind the first one
        obtain ⟨⟨front_text,decoded⟩,rest_text⟩ := ih more after
        refine ⟨⟨d :: front_text,?_⟩,rest_text⟩
        rw [utf8_cons, decoded, before]
      · -- or it is the second one, or the first
        cases more with
        | nil =>
          rw [List.append_nil] at before
          rw [List.nil_append] at after
          refine ⟨⟨[d],by rw [← before, utf8_cons]; exact List.append_nil _⟩,?_⟩
          cases text with
          | nil =>
            rw [encodeChar_single ascii] at after
            cases after
          | cons e text =>
            rw [utf8_cons] at after
            have same := encodeChar_unique after
            rw [same] at after
            exact ⟨text,(List.append_cancel_left after).symm⟩
        | cons b more =>
          rw [encodeChar_single ascii, List.singleton_append, List.cons_append] at after
          obtain ⟨same,after⟩ := List.cons_eq_cons.mp after
          have low : b.toNat < 128 := by
            rw [← same, UInt8.toNat_ofNat_of_lt' (Nat.lt_trans ascii (by decide))]
            exact ascii
          have single := encodeChar_ascii low (c := d) (by
            rw [before]
            exact List.mem_append_right _ List.mem_cons_self)
          rw [before] at single
          have lengths := congrArg List.length single
          rw [List.length_append, List.length_cons, List.length_singleton] at lengths
          have none_before : front = [] := List.length_eq_zero_iff.mp (by omega)
          have none_behind : more = [] := List.length_eq_zero_iff.mp (by omega)
          rw [none_behind, List.nil_append] at after
          exact ⟨⟨[],none_before.symm⟩,⟨text,after.symm⟩⟩
  · rintro ⟨⟨front_text,front_decoded⟩,⟨rest_text,rest_decoded⟩⟩
    refine ⟨front_text ++ c :: rest_text,?_⟩
    rw [utf8_append, utf8_cons, front_decoded, rest_decoded]

end UTF8Text
