import AltMessenger.AddressValidation
import AltMessenger.LineExpressions
import AltMessenger.PercentEscapes
import AltMessenger.SwiftURL

/-!
What `BIQRCodeParser` reads in a code: the address of a payment URI, found by two regular
expressions that are tried in turn, and the parameters of its query.
-/
namespace QRCodes
open SwiftRuntime SwiftText SwiftURL BitcoinHash PublicAddress AddressValidation LineExpressions
open Numerals PercentEscapes

section Parser
variable (D : Digests) (isBitcoinMainNet : Bool)

def validAddressString (addressStr : List Char) : Except Trap Bool := do
  let type ← determinOutputScriptTypeWithAddress isBitcoinMainNet addressStr
  match type with
  | none => pure false
  | some type => do
    let hash ← publicAddressToPubKeyHash D addressStr
      (if type = .P2SH then scriptHashPrefix isBitcoinMainNet else pubKeyPrefix isBitcoinMainNet)
    pure hash.isSome

def scheme : List Char := "bitcoin".toList

/-- `bitcoin:*`, which has no group -/
def firstExpression : List Piece := scheme.map .one ++ [.many fun c => c = ':']

/-- `bitcoin:(.*)\?.*` -/
def secondExpression : List Piece :=
  scheme.map .one ++ [.one ':',.captured fun c => !isTerminator c,.one '?',
    .many fun c => !isTerminator c]

/-- Every match replaced by the first group, and nothing where that leaves the text as it was. -/
def extractWithRegx (string : List Char) (regx : List Piece) : Option (List Char) :=
  let result := replacing regx string
  if result = string then none else some result

/-- A text that is returned if it is a valid address. -/
def whenValid (text : List Char) : Except Trap (Option (List Char)) := do
  let valid ← validAddressString D isBitcoinMainNet text
  pure (if valid then some text else none)

def address (qrcodeString : List Char) : Except Trap (Option (List Char)) := do
  let valid ← validAddressString D isBitcoinMainNet qrcodeString
  if valid then pure (some qrcodeString)
  else
    match extractWithRegx qrcodeString firstExpression with
    | some dir_address => whenValid D isBitcoinMainNet dir_address
    | none =>
      match extractWithRegx qrcodeString secondExpression with
      | some address => whenValid D isBitcoinMainNet address
      | none => pure none

end Parser

/-- `queryItems`: a name, and a value where there is an equals sign. -/
def queryItem (component : List Char) : List Char × Option (List Char) :=
  match components component '=' with
  | name :: _ :: _ => ((decode name).getD [],decode (component.drop (name.length + 1)))
  | _ => ((decode component).getD [],none)

def queryItems (url : URL) : Option (List (List Char × Option (List Char))) :=
  url.query.map fun query => (components query '&').map queryItem

def getParameterValue (uriString param : List Char) : Except Trap (Option (List Char)) := do
  let uri ← unwrap (URL.ofString uriString)
  let paramValue := (queryItems uri).bind fun items => items.find? fun item => item.1 = param
  pure (paramValue.bind fun item => item.2)

def amount (qrcodeString : List Char) : Except Trap (Option (List Char)) :=
  getParameterValue qrcodeString "amount".toList

def label (qrcodeString : List Char) : Except Trap (Option (List Char)) :=
  getParameterValue qrcodeString "label".toList

def message (qrcodeString : List Char) : Except Trap (Option (List Char)) :=
  getParameterValue qrcodeString "message".toList

section Requirements
variable (D : Digests) (isBitcoinMainNet : Bool)

def Version (version : UInt8) : Prop :=
  version = pubKeyPrefix isBitcoinMainNet ∨ version = scriptHashPrefix isBitcoinMainNet

/-- The text spells a hash under one of the two versions of the network. -/
def ValidAddress (text : List Char) : Prop :=
  ∃ version, Version isBitcoinMainNet version ∧ ∃ hash, Spelled D version text hash

/-- The code is the address, or its URI, with a query or without. -/
def Carries (qrcodeString address : List Char) : Prop :=
  qrcodeString = address ∨ qrcodeString = scheme ++ ':' :: address ∨
    ∃ query, qrcodeString = scheme ++ ':' :: address ++ '?' :: query

/-- A code is read without a trap, and its address is the valid one that it carries. -/
structure ReadAsURI (qrcodeString : List Char) : Prop where
  address : ∃ result, QRCodes.address D isBitcoinMainNet qrcodeString = .ok result ∧
    ∀ address, result = some address ↔
      ValidAddress D isBitcoinMainNet address ∧ Carries qrcodeString address
  amount : ∃ result, QRCodes.amount qrcodeString = .ok result
  label : ∃ result, QRCodes.label qrcodeString = .ok result
  message : ∃ result, QRCodes.message qrcodeString = .ok result

/-- What passes for an address: its number is a version, some bytes and their check. -/
def Passes (text : List Char) : Prop :=
  ∃ version, Version isBitcoinMainNet version ∧ Checked D version text

/-- A number that can be cut: it is not zero, and behind a version there is room for the check. -/
def Cuttable (text : List Char) : Prop :=
  ∀ number, base58.read text = some number → 0 < number ∧
    ∀ version, Version isBitcoinMainNet version → ∀ rest, serialize number = version :: rest →
      4 ≤ rest.length ∧ rest.length < 2 ^ 32 + 3

/-- The text without any `bitcoin`, and without the colons that follow one. -/
def stripped (text : List Char) : List Char := replacing firstExpression text

/-- A code that is read right. It is a URL, and what passes for an address is one, of the code
    itself and of what is left of it without the scheme. The address of a URI passes for one and
    has no scheme in it, and there is no query behind it. -/
structure Readable (qrcodeString : List Char) : Prop where
  url : URL.ofString qrcodeString ≠ none
  cuttable : Cuttable isBitcoinMainNet qrcodeString
  entered : Passes D isBitcoinMainNet qrcodeString ↔ ValidAddress D isBitcoinMainNet qrcodeString
  left : scheme <:+: qrcodeString → ¬ Passes D isBitcoinMainNet qrcodeString →
    Cuttable isBitcoinMainNet (stripped qrcodeString) ∧
      (Passes D isBitcoinMainNet (stripped qrcodeString) →
        ValidAddress D isBitcoinMainNet (stripped qrcodeString) ∧
          qrcodeString = scheme ++ ':' :: stripped qrcodeString)
  uri : ∀ address, qrcodeString = scheme ++ ':' :: address →
    ValidAddress D isBitcoinMainNet address →
    Passes D isBitcoinMainNet address ∧ ¬ scheme <:+: address
  no_query : ∀ address query, qrcodeString = scheme ++ ':' :: address ++ '?' :: query →
    ¬ ValidAddress D isBitcoinMainNet address

end Requirements

section Validation
variable {D : Digests} {isBitcoinMainNet : Bool} {text : List Char}

theorem passes_letters (passes : Passes D isBitcoinMainNet text) : ∀ c ∈ text, c ∈ ALPHABET := by
  obtain ⟨version,_,body,_,read⟩ := passes
  obtain ⟨number,value,_⟩ := Option.map_eq_some_iff.mp read
  exact read_letters value

theorem valid_letters (valid : ValidAddress D isBitcoinMainNet text) :
    ∀ c ∈ text, c ∈ ALPHABET := by
  obtain ⟨version,_,hash,body,_,_,rfl⟩ := valid
  exact read_letters (read_base58Text _)

variable {b : UInt8} {rest : List UInt8}

theorem prefixes_apart : pubKeyPrefix isBitcoinMainNet ≠ scriptHashPrefix isBitcoinMainNet := by
  cases isBitcoinMainNet <;> decide

theorem determin_read (read : base58StringToNSData text = some (b :: rest)) :
    determinOutputScriptTypeWithAddress isBitcoinMainNet text =
      .ok (if b = pubKeyPrefix isBitcoinMainNet then some .P2PKH
        else if b = scriptHashPrefix isBitcoinMainNet then some .P2SH
        else none) := by
  rw [determinOutputScriptTypeWithAddress, read]
  dsimp only
  rw [bind_ready (first_pair b rest), uint8OfHex_byte]
  dsimp only
  split_ifs <;> rfl

/-- The first byte decides which prefix is looked for, so that it is the one that is there. -/
theorem validAddressString_version (read : base58StringToNSData text = some (b :: rest))
    (version : Version isBitcoinMainNet b) :
    validAddressString D isBitcoinMainNet text = (do
      let hash ← publicAddressToPubKeyHash D text b
      pure hash.isSome) := by
  rw [validAddressString, bind_ready (determin_read read)]
  by_cases key : b = pubKeyPrefix isBitcoinMainNet
  case pos =>
    rw [if_pos key, key]
    rfl
  case neg =>
    have script : b = scriptHashPrefix isBitcoinMainNet := version.resolve_left key
    rw [if_neg key, if_pos script, script]
    rfl

theorem validAddressString_other (read : base58StringToNSData text = some (b :: rest))
    (other : ¬ Version isBitcoinMainNet b) :
    validAddressString D isBitcoinMainNet text = .ok false := by
  obtain ⟨no_key,no_script⟩ := not_or.mp other
  rw [validAddressString, bind_ready (determin_read read), if_neg no_key, if_neg no_script]
  rfl

theorem passes_first (read : base58StringToNSData text = some (b :: rest))
    (passes : Passes D isBitcoinMainNet text) :
    Version isBitcoinMainNet b ∧ Checked D b text := by
  obtain ⟨version,known,body,short,read'⟩ := passes
  obtain ⟨rfl,_⟩ := List.cons.inj (Option.some.inj (read.symm.trans read'))
  exact ⟨known,body,short,read'⟩

theorem returned_iff {result : Option (List Char)}
    (read : base58StringToNSData text = some (b :: rest)) (version : Version isBitcoinMainNet b)
    (run : publicAddressToPubKeyHash D text b = .ok result) :
    result.isSome = true ↔ Passes D isBitcoinMainNet text := by
  constructor
  · intro found
    obtain ⟨hash,rfl⟩ := Option.isSome_iff_exists.mp found
    obtain ⟨body,short,read',_⟩ := (address_read D).mp run
    exact ⟨b,version,body,short,read'⟩
  · intro passes
    obtain ⟨_,body,short,read'⟩ := passes_first read passes
    cases run.symm.trans ((address_read D).mpr ⟨body,short,read',rfl⟩)
    rfl

theorem read_number (read : base58StringToNSData text = some (b :: rest)) :
    ∃ number, base58.read text = some number ∧ 0 < number ∧ serialize number = b :: rest := by
  obtain ⟨number,value,bytes⟩ := Option.map_eq_some_iff.mp read
  refine ⟨number,value,Nat.pos_of_ne_zero ?_,bytes⟩
  rintro rfl
  cases bytes

/-- Only the first byte says what room there has to be. -/
theorem cuttable_iff (read : base58StringToNSData text = some (b :: rest)) :
    Cuttable isBitcoinMainNet text ↔
      (Version isBitcoinMainNet b → 4 ≤ rest.length ∧ rest.length < 2 ^ 32 + 3) := by
  obtain ⟨number,value,positive,bytes⟩ := read_number read
  constructor
  · intro all version
    exact (all number value).2 b version rest bytes
  · intro room number' value'
    cases value.symm.trans value'
    refine ⟨positive,fun version known rest' same => ?_⟩
    obtain ⟨rfl,rfl⟩ := List.cons.inj (bytes.symm.trans same)
    exact room known

theorem cuttable_none (unread : base58StringToNSData text = none) :
    Cuttable isBitcoinMainNet text := by
  intro number value
  rw [base58StringToNSData, value] at unread
  cases unread

theorem not_cuttable (read : base58StringToNSData text = some []) :
    ¬ Cuttable isBitcoinMainNet text := by
  intro all
  obtain ⟨number,value,bytes⟩ := Option.map_eq_some_iff.mp read
  exact Nat.ne_of_gt (all number value).1 (serialize_eq_nil.mp bytes)

theorem passes_read (passes : Passes D isBitcoinMainNet text) :
    ∃ b rest, base58StringToNSData text = some (b :: rest) ∧ Version isBitcoinMainNet b := by
  obtain ⟨version,known,body,_,read⟩ := passes
  exact ⟨version,_,read,known⟩

/-- Where the first byte is a version, all depends on the room and on the check. -/
theorem validAddressString_known {valid : Bool}
    (read : base58StringToNSData text = some (b :: rest)) (version : Version isBitcoinMainNet b) :
    validAddressString D isBitcoinMainNet text = .ok valid ↔
      Cuttable isBitcoinMainNet text ∧ (valid = true ↔ Passes D isBitcoinMainNet text) := by
  have returns : (∃ result, publicAddressToPubKeyHash D text b = .ok result) ↔
      4 ≤ rest.length ∧ rest.length < 2 ^ 32 + 3 :=
    (hash_returns_iff read).trans (imp_iff_right rfl)
  rw [validAddressString_version read version, cuttable_iff read, imp_iff_right version, ← returns]
  constructor
  · intro run
    obtain ⟨result,returned,last⟩ := bind_ran.mp run
    cases last
    exact ⟨⟨result,returned⟩,returned_iff read version returned⟩
  · rintro ⟨⟨result,run⟩,passes⟩
    rw [bind_ready run]
    exact congrArg Except.ok (Bool.eq_iff_iff.mpr
      ((returned_iff read version run).trans passes.symm))

/-- What comes to its end without a look at the check does not pass. -/
theorem refused_iff {valid : Bool}
    (refused : validAddressString D isBitcoinMainNet text = .ok false)
    (cuttable : Cuttable isBitcoinMainNet text) (fails : ¬ Passes D isBitcoinMainNet text) :
    validAddressString D isBitcoinMainNet text = .ok valid ↔
      Cuttable isBitcoinMainNet text ∧ (valid = true ↔ Passes D isBitcoinMainNet text) := by
  rw [refused, and_iff_right cuttable, iff_false_right fails, Except.ok.injEq, eq_comm,
    Bool.not_eq_true]

/-- The validation comes to its end where the number can be cut, and accepts what passes. -/
theorem validAddressString_ok {valid : Bool} :
    validAddressString D isBitcoinMainNet text = .ok valid ↔
      Cuttable isBitcoinMainNet text ∧ (valid = true ↔ Passes D isBitcoinMainNet text) := by
  cases read : base58StringToNSData text with
  | none =>
    refine refused_iff ?_ (cuttable_none read) fun passes => ?_
    · rw [validAddressString, determinOutputScriptTypeWithAddress, read]
      rfl
    · obtain ⟨b,rest,read',_⟩ := passes_read passes
      cases read.symm.trans read'
  | some data =>
    cases data with
    | nil =>
      refine iff_of_false (fun run => ?_) fun all => not_cuttable read all.1
      obtain ⟨type,first,_⟩ := bind_ran.mp run
      exact (determin_ok read).mp ⟨type,first⟩ rfl
    | cons b rest =>
      by_cases version : Version isBitcoinMainNet b
      case pos => exact validAddressString_known read version
      case neg =>
        refine refused_iff (validAddressString_other read version) ?_ fun passes => ?_
        · exact (cuttable_iff read).mpr fun known => absurd known version
        · exact version (passes_first read passes).1

end Validation

section Schemes
variable {text rest : List Char}

theorem first_found (rest : List Char) :
    matchFront firstExpression (scheme ++ rest) = some ([],rest.dropWhile fun c => c = ':') := by
  rw [firstExpression, matchFront_literal, if_pos (List.prefix_append _ _), List.drop_left,
    matchFront_many]

theorem first_kept (other : ¬ scheme <+: text) : matchFront firstExpression text = none := by
  rw [firstExpression, matchFront_literal, if_neg other]

theorem stripped_scheme (rest : List Char) :
    stripped (scheme ++ rest) = stripped (rest.dropWhile fun c => c = ':') :=
  replacing_found (first_found rest)

theorem stripped_kept {c : Char} (other : ¬ scheme <+: c :: text) :
    stripped (c :: text) = c :: stripped text := replacing_kept (first_kept other)

/-- A property of texts, by the matches of the expression. -/
theorem scheme_induction {property : List Char → Prop} (empty : property [])
    (found : ∀ rest, property (rest.dropWhile fun c => c = ':') → property (scheme ++ rest))
    (kept : ∀ c text, ¬ scheme <+: c :: text → property text → property (c :: text)) :
    ∀ text, property text := by
  intro text
  induction length : text.length using Nat.strongRecOn generalizing text with
  | ind n ih =>
    subst length
    cases text with
    | nil => exact empty
    | cons c text =>
      by_cases front : scheme <+: c :: text
      case pos =>
        obtain ⟨rest,same⟩ := front
        rw [← same] at ih ⊢
        refine found rest (ih _ ?_ _ rfl)
        have fewer := (List.dropWhile_suffix (fun c => c = ':') (l := rest)).length_le
        rw [List.length_append]
        exact Nat.lt_of_le_of_lt fewer (Nat.lt_add_of_pos_left (by decide))
      case neg => exact kept c text front (ih _ (Nat.lt_succ_self _) _ rfl)

theorem stripped_length (text : List Char) : (stripped text).length ≤ text.length := by
  induction text using scheme_induction with
  | empty => exact Nat.le_refl 0
  | found rest ih =>
    have fewer := (List.dropWhile_suffix (fun c => c = ':') (l := rest)).length_le
    rw [stripped_scheme, List.length_append]
    exact le_trans ih (le_trans fewer (Nat.le_add_left _ _))
  | kept c text other ih =>
    rw [stripped_kept other]
    exact Nat.succ_le_succ ih

/-- A text stays what it is exactly if the scheme is nowhere in it. -/
theorem stripped_eq_iff (text : List Char) : stripped text = text ↔ ¬ scheme <:+: text := by
  induction text using scheme_induction with
  | empty => exact iff_of_true rfl (by decide)
  | found rest _ =>
    refine iff_of_false (fun same => ?_) (not_not.mpr (List.prefix_append _ _).isInfix)
    have fewer := (List.dropWhile_suffix (fun c => c = ':') (l := rest)).length_le
    have most := le_trans (stripped_length (rest.dropWhile fun c => c = ':')) fewer
    rw [← stripped_scheme, same, List.length_append] at most
    exact absurd most (Nat.not_le_of_lt (Nat.lt_add_of_pos_left (by decide)))
  | kept c text other ih =>
    rw [stripped_kept other, List.cons_inj_right, ih, List.infix_cons_iff, not_or,
      and_iff_right other]

/-- What is neither in the scheme nor a colon is not taken away. -/
theorem stripped_mem {c : Char} (other : c ∉ scheme) (plain : c ≠ ':') {text : List Char}
    (there : c ∈ text) : c ∈ stripped text := by
  induction text using scheme_induction with
  | empty => cases there
  | found rest ih =>
    rw [stripped_scheme]
    refine ih ?_
    have behind := (List.mem_append.mp there).resolve_left other
    rw [← List.takeWhile_append_dropWhile (p := fun c => c = ':') (l := rest)] at behind
    refine (List.mem_append.mp behind).resolve_left fun colons => plain ?_
    have colon := List.mem_takeWhile_imp (p := fun c => c = ':') colons
    exact of_decide_eq_true colon
  | kept d text outside ih =>
    rw [stripped_kept outside]
    rcases List.mem_cons.mp there with same | there
    · exact List.mem_cons.mpr (Or.inl same)
    · exact List.mem_cons_of_mem d (ih there)

/-- A text without the scheme has no match of the second expression either. -/
theorem second_never (never : ¬ scheme <:+: text) : replacing secondExpression text = text := by
  refine replacing_never fun behind suffix => ?_
  rw [secondExpression, matchFront_literal, if_neg]
  intro front
  exact never (front.isInfix.trans suffix.isInfix)

end Schemes

section Addresses
variable {D : Digests} {isBitcoinMainNet : Bool} {qrcodeString text : List Char}

theorem validAddressString_returns :
    (∃ valid, validAddressString D isBitcoinMainNet text = .ok valid) ↔
      Cuttable isBitcoinMainNet text := by
  constructor
  · rintro ⟨valid,run⟩
    exact (validAddressString_ok.mp run).1
  · intro cuttable
    by_cases passes : Passes D isBitcoinMainNet text
    · exact ⟨true,validAddressString_ok.mpr ⟨cuttable,iff_of_true rfl passes⟩⟩
    · exact ⟨false,validAddressString_ok.mpr ⟨cuttable,iff_of_false Bool.false_ne_true passes⟩⟩

theorem whenValid_returns :
    (∃ result, whenValid D isBitcoinMainNet text = .ok result) ↔
      Cuttable isBitcoinMainNet text := by
  rw [← validAddressString_returns (D := D)]
  constructor
  · rintro ⟨result,run⟩
    obtain ⟨valid,run,_⟩ := bind_ran.mp run
    exact ⟨valid,run⟩
  · rintro ⟨valid,run⟩
    exact ⟨_,bind_ready run⟩

theorem whenValid_some {result : Option (List Char)}
    (run : whenValid D isBitcoinMainNet text = .ok result) (found : List Char) :
    result = some found ↔ found = text ∧ Passes D isBitcoinMainNet text := by
  obtain ⟨valid,run,last⟩ := bind_ran.mp run
  obtain ⟨_,passes⟩ := validAddressString_ok.mp run
  cases last
  rw [← passes]
  cases valid with
  | true => exact Option.some_inj.trans (eq_comm.trans (and_iff_left rfl).symm)
  | false => exact iff_of_false (by simp) (by simp)

/-- What the address is of a code that is none itself. -/
theorem address_rest (run : validAddressString D isBitcoinMainNet qrcodeString = .ok false) :
    (scheme <:+: qrcodeString →
      address D isBitcoinMainNet qrcodeString =
        whenValid D isBitcoinMainNet (stripped qrcodeString)) ∧
    (¬ scheme <:+: qrcodeString → address D isBitcoinMainNet qrcodeString = .ok none) := by
  rw [address, bind_ready run, if_neg Bool.false_ne_true]
  constructor
  · intro there
    have changed : ¬ stripped qrcodeString = qrcodeString := fun same =>
      (stripped_eq_iff qrcodeString).mp same there
    have first : extractWithRegx qrcodeString firstExpression = some (stripped qrcodeString) :=
      if_neg changed
    rw [first]
  · intro never
    have first : extractWithRegx qrcodeString firstExpression = none :=
      if_pos ((stripped_eq_iff qrcodeString).mpr never)
    have second : extractWithRegx qrcodeString secondExpression = none :=
      if_pos (second_never never)
    rw [first]
    dsimp only
    rw [second]
    rfl

/-- The address that is found: the code itself, or what is left of it without the scheme. -/
def Found (D : Digests) (isBitcoinMainNet : Bool) (qrcodeString found : List Char) : Prop :=
  found = qrcodeString ∧ Passes D isBitcoinMainNet qrcodeString ∨
    (scheme <:+: qrcodeString ∧ ¬ Passes D isBitcoinMainNet qrcodeString) ∧
      found = stripped qrcodeString ∧ Passes D isBitcoinMainNet (stripped qrcodeString)

theorem address_cuttable {result : Option (List Char)}
    (run : address D isBitcoinMainNet qrcodeString = .ok result) :
    Cuttable isBitcoinMainNet qrcodeString := by
  obtain ⟨valid,run,_⟩ := bind_ran.mp run
  exact validAddressString_returns.mp ⟨valid,run⟩

theorem address_passes (cuttable : Cuttable isBitcoinMainNet qrcodeString)
    (passes : Passes D isBitcoinMainNet qrcodeString) :
    address D isBitcoinMainNet qrcodeString = .ok (some qrcodeString) := by
  have run : validAddressString D isBitcoinMainNet qrcodeString = .ok true :=
    validAddressString_ok.mpr ⟨cuttable,iff_of_true rfl passes⟩
  exact bind_ready run

theorem found_passes (passes : Passes D isBitcoinMainNet qrcodeString) (found : List Char) :
    Found D isBitcoinMainNet qrcodeString found ↔ qrcodeString = found := by
  constructor
  · rintro (⟨same,_⟩ | ⟨⟨_,other⟩,_⟩)
    · exact same.symm
    · exact absurd passes other
  · rintro rfl
    exact Or.inl ⟨rfl,passes⟩

theorem found_fails (fails : ¬ Passes D isBitcoinMainNet qrcodeString) (found : List Char) :
    Found D isBitcoinMainNet qrcodeString found ↔ scheme <:+: qrcodeString ∧
      found = stripped qrcodeString ∧ Passes D isBitcoinMainNet (stripped qrcodeString) := by
  constructor
  · rintro (⟨_,passes⟩ | ⟨⟨there,_⟩,left⟩)
    · exact absurd passes fails
    · exact ⟨there,left⟩
  · rintro ⟨there,left⟩
    exact Or.inr ⟨⟨there,fails⟩,left⟩

/-- When an address comes back, and which. -/
theorem address_spec (D : Digests) (isBitcoinMainNet : Bool) (qrcodeString : List Char) :
    ((∃ result, address D isBitcoinMainNet qrcodeString = .ok result) ↔
      Cuttable isBitcoinMainNet qrcodeString ∧
        (scheme <:+: qrcodeString → ¬ Passes D isBitcoinMainNet qrcodeString →
          Cuttable isBitcoinMainNet (stripped qrcodeString))) ∧
    ∀ result, address D isBitcoinMainNet qrcodeString = .ok result →
      ∀ found, result = some found ↔ Found D isBitcoinMainNet qrcodeString found := by
  by_cases cuttable : Cuttable isBitcoinMainNet qrcodeString
  case neg =>
    refine ⟨iff_of_false ?_ fun all => cuttable all.1,fun result run => ?_⟩
    · rintro ⟨result,run⟩
      exact cuttable (address_cuttable run)
    · exact absurd (address_cuttable run) cuttable
  case pos =>
    rw [and_iff_right cuttable]
    by_cases passes : Passes D isBitcoinMainNet qrcodeString
    case pos =>
      have returned := address_passes cuttable passes
      refine ⟨iff_of_true ⟨_,returned⟩ fun _ other => absurd passes other,?_⟩
      intro result run found
      cases returned.symm.trans run
      rw [Option.some_inj, found_passes passes]
    case neg =>
      have run : validAddressString D isBitcoinMainNet qrcodeString = .ok false :=
        validAddressString_ok.mpr ⟨cuttable,iff_of_false Bool.false_ne_true passes⟩
      obtain ⟨with_scheme,without⟩ := address_rest run
      by_cases there : scheme <:+: qrcodeString
      case pos =>
        rw [with_scheme there, whenValid_returns, imp_iff_right there, imp_iff_right passes]
        refine ⟨Iff.rfl,fun result run found => ?_⟩
        rw [whenValid_some run, found_fails passes, and_iff_right there]
      case neg =>
        rw [without there]
        refine ⟨iff_of_true ⟨none,rfl⟩ fun other => absurd other there,fun result run found => ?_⟩
        cases run
        rw [found_fails passes]
        exact iff_of_false (by simp) fun other => there other.1

theorem parameter_returns {param : List Char} :
    (∃ result, getParameterValue qrcodeString param = .ok result) ↔
      URL.ofString qrcodeString ≠ none := by
  unfold getParameterValue
  cases URL.ofString qrcodeString with
  | none =>
    refine iff_of_false ?_ (not_not.mpr rfl)
    rintro ⟨result,run⟩
    cases run
  | some url => exact iff_of_true ⟨_,rfl⟩ (Option.some_ne_none url)

/-- A valid address is left of its URI, if the scheme is not in it. -/
theorem stripped_uri {found : List Char} (letters : ∀ c ∈ found, c ∈ ALPHABET) :
    stripped (scheme ++ ':' :: found) = stripped found := by
  rw [stripped_scheme, List.dropWhile_cons_of_pos (by decide)]
  cases found with
  | nil => rfl
  | cons c found =>
    have plain : c ≠ ':' := by
      rintro rfl
      exact absurd (letters _ List.mem_cons_self) (by decide)
    rw [List.dropWhile_cons_of_neg (by simpa using plain)]

theorem no_letter {c : Char} (other : c ∉ ALPHABET) (there : c ∈ text) :
    ¬ Passes D isBitcoinMainNet text := fun passes => other (passes_letters passes c there)

theorem colon_mem (address : List Char) : ':' ∈ scheme ++ ':' :: address :=
  List.mem_append_right _ List.mem_cons_self

theorem question_mem (address query : List Char) :
    '?' ∈ scheme ++ ':' :: address ++ '?' :: query :=
  List.mem_append_right _ List.mem_cons_self

/-- What is found is what is carried under four conditions. -/
theorem found_iff :
    (∀ found, Found D isBitcoinMainNet qrcodeString found ↔
      ValidAddress D isBitcoinMainNet found ∧ Carries qrcodeString found) ↔
    (Passes D isBitcoinMainNet qrcodeString ↔ ValidAddress D isBitcoinMainNet qrcodeString) ∧
    (scheme <:+: qrcodeString → ¬ Passes D isBitcoinMainNet qrcodeString →
      Passes D isBitcoinMainNet (stripped qrcodeString) →
      ValidAddress D isBitcoinMainNet (stripped qrcodeString) ∧
        qrcodeString = scheme ++ ':' :: stripped qrcodeString) ∧
    (∀ address, qrcodeString = scheme ++ ':' :: address →
      ValidAddress D isBitcoinMainNet address →
      Passes D isBitcoinMainNet address ∧ ¬ scheme <:+: address) ∧
    ∀ address query, qrcodeString = scheme ++ ':' :: address ++ '?' :: query →
      ¬ ValidAddress D isBitcoinMainNet address := by
  have query_stays : '?' ∈ qrcodeString → '?' ∈ stripped qrcodeString :=
    stripped_mem (by decide) (by decide)
  constructor
  · intro all
    refine ⟨⟨fun passes => ((all _).mp (Or.inl ⟨rfl,passes⟩)).1,fun valid => ?_⟩,?_,?_,?_⟩
    · rcases (all _).mpr ⟨valid,Or.inl rfl⟩ with ⟨_,passes⟩ | ⟨⟨there,_⟩,same,_⟩
      · exact passes
      · exact absurd there ((stripped_eq_iff _).mp same.symm)
    · intro there other passes
      obtain ⟨valid,carried⟩ := (all _).mp (Or.inr ⟨⟨there,other⟩,rfl,passes⟩)
      refine ⟨valid,?_⟩
      rcases carried with same | uri | ⟨query,uri⟩
      · exact absurd there ((stripped_eq_iff _).mp same.symm)
      · exact uri
      · have question : '?' ∈ qrcodeString := uri ▸ question_mem _ query
        exact absurd passes (no_letter (by decide) (query_stays question))
    · rintro address rfl valid
      rcases (all address).mpr ⟨valid,Or.inr (Or.inl rfl)⟩ with ⟨_,passes⟩ | ⟨_,same,passes⟩
      · exact absurd passes (no_letter (by decide) (colon_mem address))
      · rw [stripped_uri (valid_letters valid)] at same passes
        rw [← same] at passes
        exact ⟨passes,(stripped_eq_iff address).mp same.symm⟩
    · intro address query uri valid
      have question : '?' ∈ qrcodeString := uri ▸ question_mem address query
      have carried : Carries qrcodeString address := Or.inr (Or.inr ⟨query,uri⟩)
      rcases (all address).mpr ⟨valid,carried⟩ with ⟨_,passes⟩ | ⟨_,_,passes⟩
      · exact no_letter (c := '?') (by decide) question passes
      · exact no_letter (c := '?') (by decide) (query_stays question) passes
  · rintro ⟨entered,left,uri,no_query⟩ found
    constructor
    · rintro (⟨rfl,passes⟩ | ⟨⟨there,other⟩,rfl,passes⟩)
      · exact ⟨entered.mp passes,Or.inl rfl⟩
      · obtain ⟨valid,same⟩ := left there other passes
        exact ⟨valid,Or.inr (Or.inl same)⟩
    · rintro ⟨valid,rfl | same | ⟨query,same⟩⟩
      · exact Or.inl ⟨rfl,entered.mpr valid⟩
      · obtain ⟨passes,never⟩ := uri found same valid
        have colon : ':' ∈ qrcodeString := same ▸ colon_mem found
        have there : scheme <:+: qrcodeString := by
          rw [same]
          exact (List.prefix_append _ _).isInfix
        have whole : stripped qrcodeString = found := by
          rw [same, stripped_uri (valid_letters valid)]
          exact (stripped_eq_iff found).mpr never
        refine Or.inr ⟨⟨there,no_letter (by decide) colon⟩,whole.symm,?_⟩
        rw [whole]
        exact passes
      · exact absurd valid (no_query found query same)

/-- A code is read as the payment URI it is exactly if it is readable. -/
theorem read_as_uri_iff (D : Digests) (isBitcoinMainNet : Bool) (qrcodeString : List Char) :
    ReadAsURI D isBitcoinMainNet qrcodeString ↔ Readable D isBitcoinMainNet qrcodeString := by
  obtain ⟨returns,spec⟩ := address_spec D isBitcoinMainNet qrcodeString
  constructor
  · rintro ⟨⟨result,run,right⟩,amount,_,_⟩
    obtain ⟨cuttable,cuttable_left⟩ := returns.mp ⟨result,run⟩
    obtain ⟨entered,left,uri,no_query⟩ := found_iff.mp fun found =>
      (spec result run found).symm.trans (right found)
    refine ⟨parameter_returns.mp amount,cuttable,entered,?_,uri,no_query⟩
    intro there other
    exact ⟨cuttable_left there other,left there other⟩
  · rintro ⟨url,cuttable,entered,left,uri,no_query⟩
    obtain ⟨result,run⟩ := returns.mpr ⟨cuttable,fun there other => (left there other).1⟩
    have right := found_iff.mpr
      ⟨entered,fun there other => (left there other).2,uri,no_query⟩
    exact ⟨⟨result,run,fun found => (spec result run found).trans (right found)⟩,
      parameter_returns.mpr url,parameter_returns.mpr url,parameter_returns.mpr url⟩

end Addresses

/-- A code of the kind that shops show. -/
def shopCode : List Char := scheme ++ ':' :: testAddress ++ '?' :: "amount=0.01".toList

/-- The scheme is taken off first, and then the second expression is not tried any more. -/
theorem shop_code_not_read :
    address zeroHashDigests false shopCode = .ok none ∧
      ¬ ReadAsURI zeroHashDigests false shopCode := by
  have nothing : address zeroHashDigests false shopCode = .ok none := by decide +kernel
  refine ⟨nothing,?_⟩
  rintro ⟨⟨result,run,right⟩,_⟩
  cases nothing.symm.trans run
  have valid : ValidAddress zeroHashDigests false testAddress := by
    refine ⟨0x6f,Or.inl rfl,_,List.replicate 20 0,rfl,rfl,?_⟩
    decide +kernel
  have found := (right testAddress).mpr ⟨valid,Or.inr (Or.inr ⟨_,rfl⟩)⟩
  cases found

end QRCodes
