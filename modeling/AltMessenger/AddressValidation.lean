import AltMessenger.PublicAddress
import AltMessenger.TransactionDBConstructor

/-!
What a text that is entered or scanned as an address meets: `determinOutputScriptTypeWithAddress`
looks at its first byte, and `publicAddressToPubKeyHash` cuts it at fixed places from both ends.
-/
namespace AddressValidation
open SwiftRuntime BitcoinHash PublicAddress Numerals
open TransactionDBConstructor (OutputScriptType)

section Prefixes
variable (isBitcoinMainNet : Bool)

def pubKeyPrefix : UInt8 := if isBitcoinMainNet then 0x00 else 0x6f

def scriptHashPrefix : UInt8 := if isBitcoinMainNet then 0x05 else 0xc4

def determinOutputScriptTypeWithAddress (text : List Char) :
    Except Trap (Option OutputScriptType) :=
  match base58StringToNSData text with
  | none => pure none
  | some data => do
    let prefixText ← subrange (toHexString data) 0 2
    match uint8OfHex prefixText with
    | none => pure none
    | some decodedPrefix =>
      if decodedPrefix = pubKeyPrefix isBitcoinMainNet then pure (some .P2PKH)
      else if decodedPrefix = scriptHashPrefix isBitcoinMainNet then pure (some .P2SH)
      else pure none

end Prefixes

/-- The text is that of the version byte, twenty bytes and their check. -/
def Spelled (D : Digests) (version : UInt8) (text hash : List Char) : Prop :=
  ∃ body : List UInt8, body.length = 20 ∧ hash = toHexString body ∧
    text = base58Text (version :: body ++ checkBytes D (version :: body))

/-- Both functions return, and a hash is only returned of a text that spells it. -/
def Validated (D : Digests) (isBitcoinMainNet : Bool) (version : UInt8) (text : List Char) : Prop :=
  (∃ type, determinOutputScriptTypeWithAddress isBitcoinMainNet text = .ok type) ∧
    ∃ result, publicAddressToPubKeyHash D text version = .ok result ∧
      ∀ hash, result = some hash → Spelled D version text hash

/-- The number of the text is not zero; and if its first byte is the version there are four bytes
    or more behind it, which are the check of the others only where these are twenty and no one
    is put in front. -/
def Sound (D : Digests) (version : UInt8) (text : List Char) : Prop :=
  ∀ number, base58.read text = some number → 0 < number ∧
    ∀ rest, serialize number = version :: rest → 4 ≤ rest.length ∧ rest.length < 2 ^ 32 + 3 ∧
      ∀ body, rest = body ++ checkBytes D (version :: body) →
        body.length = 20 ∧ text.head? ≠ some '1'

variable {D : Digests} {version : UInt8} {text : List Char}

theorem serialize_eq_nil {number : Nat} : serialize number = [] ↔ number = 0 := by
  constructor
  · intro empty
    by_contra nonzero
    obtain ⟨b,tail,bytes⟩ := serialize_cons (Nat.pos_of_ne_zero nonzero)
    rw [empty] at bytes
    cases bytes
  · rintro rfl
    rfl

theorem determin_ok {isBitcoinMainNet : Bool} {data : List UInt8}
    (read : base58StringToNSData text = some data) :
    (∃ type, determinOutputScriptTypeWithAddress isBitcoinMainNet text = .ok type) ↔ data ≠ [] := by
  rw [determinOutputScriptTypeWithAddress, read]
  dsimp only
  cases data with
  | nil => exact iff_of_false (fun ⟨type,run⟩ => by cases run) (not_not.mpr rfl)
  | cons b rest =>
    refine iff_of_true ?_ (List.cons_ne_nil b rest)
    rw [bind_ready (first_pair b rest), uint8OfHex_byte]
    dsimp only
    split_ifs
    · exact ⟨_,rfl⟩
    · exact ⟨_,rfl⟩
    · exact ⟨_,rfl⟩

/-- Four bytes behind the version are enough for the cuts, and only they. -/
theorem hash_returns_iff {b : UInt8} {rest : List UInt8}
    (read : base58StringToNSData text = some (b :: rest)) :
    (∃ result, publicAddressToPubKeyHash D text version = .ok result) ↔
      (b = version → 4 ≤ rest.length ∧ rest.length < 2 ^ 32 + 3) := by
  by_cases same : b = version
  case neg =>
    refine iff_of_true ⟨none,?_⟩ fun other => absurd other same
    rw [publicAddressToPubKeyHash, read]
    dsimp only
    rw [bind_ready (first_pair b rest), uint8OfHex_byte]
    dsimp only
    rw [if_pos same]
    rfl
  case pos =>
    subst same
    simp only [true_implies]
    constructor
    · rintro ⟨result,run⟩
      obtain ⟨body,check,rfl,four,short⟩ := returned_parts read run
      rw [List.length_cons] at short
      rw [List.length_append, four]
      omega
    · rintro ⟨room,short⟩
      have split := (List.take_append_drop (rest.length - 4) rest).symm
      have four : (rest.drop (rest.length - 4)).length = 4 := by
        rw [List.length_drop]
        omega
      rw [split] at read
      refine ⟨_,read_parts D read four ?_⟩
      rw [List.length_cons, List.length_take]
      omega

/-- A hash that is returned is spelled by the text where it has twenty bytes and nothing is put
    in front of its number. -/
theorem spelled_iff {body : List UInt8}
    (read : base58StringToNSData text = some (version :: body ++ checkBytes D (version :: body))) :
    Spelled D version text (toHexString body) ↔ body.length = 20 ∧ text.head? ≠ some '1' := by
  constructor
  · rintro ⟨body',length,same,spelled⟩
    cases toHexString_injective same
    exact ⟨length,(base58Text_data read).mp spelled.symm⟩
  · rintro ⟨length,head⟩
    exact ⟨body,length,rfl,((base58Text_data read).mpr head).symm⟩

/-- The validation is safe and exact for a text if and only if the text is sound. -/
theorem validated_iff (D : Digests) (isBitcoinMainNet : Bool) (version : UInt8)
    (text : List Char) : Validated D isBitcoinMainNet version text ↔ Sound D version text := by
  cases value : base58.read text with
  | none =>
    have read : base58StringToNSData text = none := by rw [base58StringToNSData, value]; rfl
    refine iff_of_true ⟨⟨none,?_⟩,none,?_,fun hash other => by cases other⟩ fun number other => ?_
    · rw [determinOutputScriptTypeWithAddress, read]
      rfl
    · rw [publicAddressToPubKeyHash, read]
      rfl
    · rw [value] at other
      cases other
  | some number =>
    have read : base58StringToNSData text = some (serialize number) := by
      rw [base58StringToNSData, value]
      rfl
    have sound : Sound D version text ↔ 0 < number ∧ ∀ rest, serialize number = version :: rest →
        4 ≤ rest.length ∧ rest.length < 2 ^ 32 + 3 ∧
          ∀ body, rest = body ++ checkBytes D (version :: body) →
            body.length = 20 ∧ text.head? ≠ some '1' := by
      rw [Sound, value]
      simp only [Option.some.injEq, forall_eq']
    rw [sound, Validated, determin_ok read, Ne, serialize_eq_nil, ← Ne, ← Nat.pos_iff_ne_zero]
    refine and_congr_right fun positive => ?_
    obtain ⟨b,rest,bytes⟩ := serialize_cons positive
    rw [bytes] at read ⊢
    constructor
    · rintro ⟨result,run,spells⟩ rest' same
      cases same
      obtain ⟨room,short⟩ := (hash_returns_iff read).mp ⟨result,run⟩ rfl
      refine ⟨room,short,fun body check => ?_⟩
      subst check
      have returned := (address_read D).mpr ⟨body,?_,read,rfl⟩
      · cases run.symm.trans returned
        exact (spelled_iff read).mp (spells _ rfl)
      · rw [List.length_append, checkBytes_length] at short
        rw [List.length_cons]
        omega
    · intro sound
      have fits : b = version → 4 ≤ rest.length ∧ rest.length < 2 ^ 32 + 3 := by
        intro same
        obtain ⟨room,short,_⟩ := sound rest (by rw [same])
        exact ⟨room,short⟩
      obtain ⟨result,run⟩ : ∃ result, publicAddressToPubKeyHash D text version = .ok result :=
        (hash_returns_iff read).mpr fits
      refine ⟨result,run,fun hash returned => ?_⟩
      subst returned
      obtain ⟨body,_,read',rfl⟩ := (address_read D).mp run
      have same := Option.some.inj (read.symm.trans read')
      obtain ⟨rfl,behind⟩ := List.cons.inj same
      obtain ⟨_,_,checked⟩ := sound rest rfl
      exact (spelled_iff read').mpr (checked body behind)

/-- The digests of the version 0x6f alone. -/
def versionDigests : Digests := Digests.known
  [([0x6f],
     [101,199,76,21,166,134,24,123,182,187,249,149,143,73,79,198,184,0,104,3,74,101,154,154,
      212,73,145,176,140,88,242,210]),
   ([101,199,76,21,166,134,24,123,182,187,249,149,143,73,79,198,184,0,104,3,74,101,154,154,
      212,73,145,176,140,88,242,210],
     [198,225,48,43,18,22,91,73,67,68,144,63,154,234,159,76,63,19,229,67,216,85,62,109,144,
      55,190,54,200,147,155,190])] []

/-- A version and its check, with no hash between them. -/
def hashless : List Char := "DcRrKez".toList

/-- Nothing entered is a fault in both functions, and an address of no bytes is accepted. -/
theorem empty_text_faults :
    determinOutputScriptTypeWithAddress false [] = .error .index ∧
      publicAddressToPubKeyHash versionDigests [] 0x6f = .error .index ∧
      ¬ Validated versionDigests false 0x6f [] ∧
      publicAddressToPubKeyHash versionDigests hashless 0x6f = .ok (some []) ∧
      ¬ Validated versionDigests false 0x6f hashless := by
  have faults : determinOutputScriptTypeWithAddress false [] = .error .index := rfl
  have accepted : publicAddressToPubKeyHash versionDigests hashless 0x6f = .ok (some []) := by
    decide +kernel
  refine ⟨faults,rfl,?_,accepted,?_⟩
  · rintro ⟨⟨type,run⟩,_⟩
    cases run
  · rintro ⟨_,result,run,spells⟩
    cases accepted.symm.trans run
    obtain ⟨body,length,same,_⟩ := spells [] rfl
    cases body with
    | nil => cases length
    | cons b body => cases same

end AddressValidation
