import AltMessenger.PublicAddress
import AltMessenger.StoredKeys

/-!
Private keys as text for other wallets, and the texts taken from them. The writer puts
the mark of a compressed key behind the check bytes, and so does the reader expect it.
-/
namespace WalletImport
open SwiftRuntime BitcoinHash BitcoinKeys Numerals PublicAddress StoredKeys

def upperHexDigit (d : Nat) : Char := if d < 10 then Char.ofNat (48 + d) else Char.ofNat (55 + d)

/-- `String(format: "%2X", b)`: two places, a missing digit is a blank. -/
def format2X (b : UInt8) : List Char :=
  if b.toNat < 16 then [' ', upperHexDigit b.toNat]
  else [upperHexDigit (b.toNat / 16), upperHexDigit (b.toNat % 16)]

def privateKeyPrefixString (privateKeyPrefix : UInt8) : Except Trap (List Char) :=
  let prefixHexString := format2X privateKeyPrefix
  match prefixHexString.length with
  | 0 => .ok ['0','0']
  | 1 => .ok ('0' :: prefixHexString)
  | 2 => .ok prefixHexString
  | _ => .error .assertion

/-- The two forms of the text differ in what stands behind the check sum. -/
def wifWith (D : Digests) (key : CoinKey) (behind : List Char) : Except Trap (List Char) := do
  let prefixString ← privateKeyPrefixString key.privateKeyPrefix
  let privateKeyHex ← privateKeyHexString key
  let extendedKey := prefixString ++ privateKeyHex
  let data ← hexStringToNSData extendedKey
  let hash ← Hash256.digest D data
  let checkSum := (toHexString hash).take 8
  hexStringToBase58Encoding (extendedKey ++ checkSum ++ behind)

def compressedPubkeyWif (D : Digests) (key : CoinKey) : Except Trap (List Char) :=
  wifWith D key ['0','1']

def wif (D : Digests) (key : CoinKey) : Except Trap (List Char) :=
  if key.isCompressedPublicKeyAddress then compressedPubkeyWif D key else wifWith D key []

structure Wif where
  privateKeyPrefix : UInt8
  privateKeyHexString : Option (List Char)
  isCompressedPubKey : Option Bool
  deriving DecidableEq

def base58AlphabetContain (text : List Char) : Bool := text.all fun c => ALPHABET.contains c

/-- The loop that moves the last bytes, one by one, in front of the check sum. -/
def takeCheckSum : Nat → List UInt8 → List UInt8 → Except Trap (List UInt8 × List UInt8)
  | 0, checkSumBytes, wifBytes => .ok (checkSumBytes, wifBytes)
  | count + 1, checkSumBytes, wifBytes => do
    let last ← unwrap wifBytes.getLast?
    takeCheckSum count (last :: checkSumBytes) wifBytes.dropLast

/-- The loop that takes the first bytes off a digest. -/
def takeFirst : Nat → List UInt8 → List UInt8 → Except Trap (List UInt8)
  | 0, candidate, _ => .ok candidate
  | count + 1, candidate, hash256 => do
    let first ← unwrap hash256.head?
    takeFirst count (candidate ++ [first]) hash256.tail

/-- The end of `importWif`, once the mark of a compressed key is off. -/
def importChecked (D : Digests) (self : Wif) (wifBytes : List UInt8) :
    Except Trap (Bool × Wif) := do
  let (checkSumBytes, privKeyData) ← takeCheckSum 4 [] wifBytes
  let hash256 ← Hash256.digest D privKeyData
  let checkSumCandidate ← takeFirst 4 [] hash256
  if checkSumBytes ≠ checkSumCandidate then pure (false, self)
  else pure (true, { self with privateKeyHexString := some (toHexString privKeyData.tail) })

def importWif (D : Digests) (self : Wif) (wif : List Char) : Except Trap (Bool × Wif) :=
  if ¬ base58AlphabetContain wif then pure (false, self)
  else
    match base58StringToNSData wif with
    | none => pure (false, self)
    | some wifBytes => do
      let first ← subscript wifBytes 0
      if self.privateKeyPrefix ≠ first then pure (false, self)
      else if wifBytes.length = 38 then do
        let last ← unwrap wifBytes.getLast?
        if last ≠ 0x01 then pure (false, self)
        else importChecked D { self with isCompressedPubKey := some true } wifBytes.dropLast
      else if wifBytes.length = 37 then
        importChecked D { self with isCompressedPubKey := some false } wifBytes
      else pure (false, self)

/-- A number as 32 bytes, with the zeros in front. -/
def bytes32 (number : Nat) : List UInt8 := (LittleEndian.toBytes 32 number).reverse

def mark (compressed : Bool) : List UInt8 := if compressed then [0x01] else []

/-- What other wallets write: the check covers all that stands before it. -/
def standardBytes (D : Digests) (privateKeyPrefix : UInt8) (body : List UInt8)
    (compressed : Bool) : List UInt8 :=
  let payload := privateKeyPrefix :: body ++ mark compressed
  payload ++ checkBytes D payload

/-- The export is read back by a reader of the same version, whatever it held before. -/
def ImportsBack (D : Digests) (self : Wif) (key : CoinKey) : Prop :=
  ∃ text after, wif D key = .ok text ∧
    importWif D { self with privateKeyPrefix := key.privateKeyPrefix } text = .ok (true, after) ∧
    after.privateKeyHexString = some (toHexString (bytes32 key.privateKey)) ∧
    after.isCompressedPubKey = some key.isCompressedPublicKeyAddress

def ValidExport (D : Digests) (key : CoinKey) : Prop :=
  ∃ text, wif D key = .ok text ∧
    base58Bytes text = some (standardBytes D key.privateKeyPrefix (bytes32 key.privateKey)
      key.isCompressedPublicKeyAddress)

/-- The text is one that other wallets write, in this form. -/
def Standard (D : Digests) (privateKeyPrefix : UInt8) (compressed : Bool) (text : List Char) :
    Prop :=
  ∃ body : List UInt8, body.length = 32 ∧
    base58Bytes text = some (standardBytes D privateKeyPrefix body compressed)

/-- The number of the text is laid out as this reader wants it, in this form. -/
def LaidOut (D : Digests) (privateKeyPrefix : UInt8) (compressed : Bool) (text : List Char) :
    Prop :=
  ∃ body : List UInt8, body.length = 32 ∧
    base58StringToNSData text = some (privateKeyPrefix :: body ++
      checkBytes D (privateKeyPrefix :: body) ++ mark compressed)

/-- The reader comes to an end, and accepts the standard texts of its version alone. -/
def ImportExact (D : Digests) (self : Wif) (text : List Char) : Prop :=
  (∃ result, importWif D self text = .ok result) ∧
    ((∃ after, importWif D self text = .ok (true, after)) ↔
      ∃ compressed, Standard D self.privateKeyPrefix compressed text)

theorem takeCheckSum_ok {check body done : List UInt8} :
    takeCheckSum check.length done (body ++ check) = .ok (check ++ done, body) := by
  induction check using List.reverseRecOn generalizing done with
  | nil => simp [takeCheckSum]
  | append_singleton check b ih =>
    rw [List.length_append, List.length_singleton, takeCheckSum, ← List.append_assoc,
      List.getLast?_concat, bind_ready (unwrap_ok.mpr rfl), List.dropLast_concat, ih]
    simp

theorem takeFirst_ok {count : Nat} {done hash256 : List UInt8} (enough : count ≤ hash256.length) :
    takeFirst count done hash256 = .ok (done ++ hash256.take count) := by
  induction count generalizing done hash256 with
  | zero => simp [takeFirst]
  | succ count ih =>
    cases hash256 with
    | nil => simp at enough
    | cons b hash256 =>
      rw [takeFirst, List.head?_cons, bind_ready (unwrap_ok.mpr rfl), List.tail_cons,
        ih (by simpa using enough)]
      simp

theorem importChecked_ok (D : Digests) (self : Wif) {b : UInt8} {body check : List UInt8}
    (four : check.length = 4) (short : (b :: body).length < 2 ^ 32) :
    importChecked D self (b :: body ++ check) =
      .ok (if check = checkBytes D (b :: body) then
        (true, { self with privateKeyHexString := some (toHexString body) })
        else (false, self)) := by
  have taken : takeCheckSum 4 [] (b :: body ++ check) = .ok (check, b :: body) := by
    have moved := @takeCheckSum_ok check (b :: body) []
    rwa [four, List.append_nil] at moved
  have enough : 4 ≤ (D.sha256 (D.sha256 (b :: body))).length := by
    rw [D.sha256_length]
    decide
  rw [importChecked, bind_ready taken]
  dsimp only
  rw [bind_ready (digest_short D short), bind_ready (takeFirst_ok enough), List.nil_append]
  change (if check ≠ checkBytes D (b :: body) then _ else _) = _
  by_cases good : check = checkBytes D (b :: body)
  · rw [if_neg (not_not.mpr good), if_pos good]
    rfl
  · rw [if_pos good, if_neg good]
    rfl

theorem contains_of_read {text : List Char} {number before : Nat}
    (value : base58.readFrom before text = some number) : base58AlphabetContain text := by
  induction text generalizing before with
  | nil => rfl
  | cons c text ih =>
    rw [Alphabet.readFrom] at value
    split at value
    · rename_i mem
      have rest := ih value
      rw [base58AlphabetContain] at rest ⊢
      rw [List.all_cons, rest, Bool.and_true, List.contains_iff_mem]
      exact mem
    · cases value

theorem read_of_contains {text : List Char} (known : base58AlphabetContain text) (before : Nat) :
    ∃ number, base58.readFrom before text = some number := by
  induction text generalizing before with
  | nil => exact ⟨before,rfl⟩
  | cons c text ih =>
    rw [base58AlphabetContain, List.all_cons, Bool.and_eq_true] at known
    obtain ⟨number,value⟩ := ih known.2 (before * base58.base + base58.letters.idxOf c)
    have mem : c ∈ base58.letters := List.contains_iff_mem.mp known.1
    refine ⟨number,?_⟩
    rw [Alphabet.readFrom, if_pos mem]
    exact value

theorem contains_iff {text : List Char} :
    base58AlphabetContain text = true ↔ ∃ data, base58StringToNSData text = some data := by
  constructor
  · intro known
    obtain ⟨number,value⟩ := read_of_contains known 0
    exact ⟨serialize number,by rw [base58StringToNSData, Alphabet.read, value]; rfl⟩
  · rintro ⟨data,read⟩
    obtain ⟨number,value,_⟩ := Option.map_eq_some_iff.mp read
    exact contains_of_read value

/-- A first byte, a body and four check bytes. -/
theorem parts {b : UInt8} {rest : List UInt8} (length : (b :: rest).length = 37) :
    ∃ body check : List UInt8, rest = body ++ check ∧ body.length = 32 ∧ check.length = 4 := by
  rw [List.length_cons] at length
  refine ⟨rest.take 32,rest.drop 32,(List.take_append_drop 32 rest).symm,?_,?_⟩
  · rw [List.length_take]
    omega
  · rw [List.length_drop]
    omega

/-- Bytes of either form reach the check, with the form noted. -/
theorem import_form (D : Digests) (self : Wif) {text : List Char} {body check : List UInt8}
    (compressed : Bool) (length : body.length = 32) (four : check.length = 4)
    (read : base58StringToNSData text =
      some (self.privateKeyPrefix :: body ++ check ++ mark compressed)) :
    importWif D self text =
      .ok (if check = checkBytes D (self.privateKeyPrefix :: body) then
        (true, { self with
          privateKeyHexString := some (toHexString body), isCompressedPubKey := some compressed })
        else (false, { self with isCompressedPubKey := some compressed })) := by
  have short : (self.privateKeyPrefix :: body).length < 2 ^ 32 := by
    rw [List.length_cons, length]
    decide
  have known := contains_iff.mpr ⟨_,read⟩
  rw [importWif, if_neg (not_not.mpr known), read]
  dsimp only
  have first : subscript (self.privateKeyPrefix :: body ++ check ++ mark compressed) 0 =
      .ok self.privateKeyPrefix := rfl
  rw [bind_ready first, if_neg (not_not.mpr rfl)]
  have total : (self.privateKeyPrefix :: body ++ check ++ mark compressed).length =
      37 + (mark compressed).length := by
    simp only [List.length_append, List.length_cons, length, four]
  cases compressed with
  | true =>
    have long : (self.privateKeyPrefix :: body ++ check ++ mark true).length = 38 := total
    rw [if_pos long, mark, if_pos rfl, List.getLast?_concat, bind_ready (unwrap_ok.mpr rfl),
      if_neg (not_not.mpr rfl), List.dropLast_concat, importChecked_ok D _ four short]
  | false =>
    have fits : (self.privateKeyPrefix :: body ++ check ++ mark false).length = 37 := total
    rw [if_neg (by rw [fits]; decide), if_pos fits, mark, if_neg (by decide),
      List.append_nil,
      importChecked_ok D _ four short]

/-- Bytes of neither form, or of another version, are refused. -/
theorem import_other (D : Digests) (self : Wif) {text : List Char} {b : UInt8}
    {rest : List UInt8} (read : base58StringToNSData text = some (b :: rest))
    (other : ∀ compressed, ∀ body check : List UInt8, body.length = 32 → check.length = 4 →
      b :: rest ≠ self.privateKeyPrefix :: body ++ check ++ mark compressed) :
    importWif D self text = .ok (false, self) := by
  have known := contains_iff.mpr ⟨_,read⟩
  have first : subscript (b :: rest) 0 = .ok b := rfl
  rw [importWif, if_neg (not_not.mpr known), read]
  dsimp only
  rw [bind_ready first]
  by_cases version : self.privateKeyPrefix ≠ b
  · rw [if_pos version]
    rfl
  · rw [if_neg version]
    obtain rfl := not_not.mp version
    by_cases long : (self.privateKeyPrefix :: rest).length = 38
    · obtain ⟨front,last,whole⟩ := (List.eq_nil_or_concat' rest).resolve_left (by
        rintro rfl
        cases long)
      subst whole
      rw [if_pos long, ← List.cons_append, List.getLast?_concat, bind_ready (unwrap_ok.mpr rfl),
        if_pos]
      · rfl
      · intro one
        have fewer : (self.privateKeyPrefix :: front).length = 37 := by
          simpa using long
        obtain ⟨body,check,rfl,length,four⟩ := parts fewer
        exact other true body check length four (by rw [one]; simp [mark])
    · rw [if_neg long, if_neg]
      · rfl
      · intro fits
        obtain ⟨body,check,rfl,length,four⟩ := parts fits
        exact other false body check length four (by simp [mark])

theorem import_read (D : Digests) (self : Wif) {text : List Char} {b : UInt8}
    {rest : List UInt8} (read : base58StringToNSData text = some (b :: rest)) :
    (∃ compressed, ∃ body check : List UInt8, body.length = 32 ∧ check.length = 4 ∧
      base58StringToNSData text =
        some (self.privateKeyPrefix :: body ++ check ++ mark compressed)) ∨
      importWif D self text = .ok (false, self) := by
  by_cases form : ∃ compressed, ∃ body check : List UInt8, body.length = 32 ∧
      check.length = 4 ∧ b :: rest = self.privateKeyPrefix :: body ++ check ++ mark compressed
  · obtain ⟨compressed,body,check,length,four,whole⟩ := form
    exact Or.inl ⟨compressed,body,check,length,four,read.trans (congrArg some whole)⟩
  · exact Or.inr (import_other D self read fun compressed body check length four whole =>
      form ⟨compressed,body,check,length,four,whole⟩)

/-- Only texts laid out in one of the two forms are accepted. -/
theorem import_accepted (D : Digests) {self after : Wif} {text : List Char} :
    importWif D self text = .ok (true, after) ↔
      ∃ compressed, ∃ body : List UInt8, body.length = 32 ∧
        base58StringToNSData text = some (self.privateKeyPrefix :: body ++
          checkBytes D (self.privateKeyPrefix :: body) ++ mark compressed) ∧
        after = { self with
          privateKeyHexString := some (toHexString body)
          isCompressedPubKey := some compressed } := by
  constructor
  · intro run
    cases read : base58StringToNSData text with
    | none =>
      rw [importWif, read] at run
      split at run <;> cases run
    | some data =>
      cases data with
      | nil =>
        rw [importWif, if_neg (not_not.mpr (contains_iff.mpr ⟨_,read⟩)), read] at run
        cases run
      | cons b rest =>
        rcases import_read D self read with ⟨compressed,body,check,length,four,form⟩ | other
        · rw [import_form D self compressed length four form, Except.ok.injEq] at run
          split at run
          · rename_i good
            cases run
            exact ⟨compressed,body,length,by rw [← read, form, good],rfl⟩
          · cases run
        · cases other.symm.trans run
  · rintro ⟨compressed,body,length,read,rfl⟩
    rw [import_form D self compressed length (checkBytes_length D _) read, if_pos rfl]

/-- The reader faults on texts whose number is zero, and on no others. -/
theorem import_ends (D : Digests) (self : Wif) (text : List Char) :
    (∃ result, importWif D self text = .ok result) ↔ base58StringToNSData text ≠ some [] := by
  constructor
  · rintro ⟨result,run⟩ read
    rw [importWif, if_neg (not_not.mpr (contains_iff.mpr ⟨_,read⟩)), read] at run
    cases run
  · intro some_bytes
    cases read : base58StringToNSData text with
    | none =>
      refine ⟨(false,self),?_⟩
      rw [importWif, read]
      split <;> rfl
    | some data =>
      cases data with
      | nil => exact absurd read some_bytes
      | cons b rest =>
        rcases import_read D self read with ⟨compressed,body,check,length,four,form⟩ | other
        · exact ⟨_,import_form D self compressed length four form⟩
        · exact ⟨_,other⟩

theorem hexValue_upper {d : Nat} (small : d < 16) : hexValue (upperHexDigit d) = some d := by
  interval_cases d <;> rfl

theorem prefix_text (privateKeyPrefix : UInt8) :
    privateKeyPrefixString privateKeyPrefix = .ok (format2X privateKeyPrefix) := by
  by_cases one : privateKeyPrefix.toNat < 16 <;> simp [privateKeyPrefixString, format2X, one]

/-- A version of two digits reads as its byte. -/
theorem versioned_text {b : UInt8} (two : 16 ≤ b.toNat) (data : List UInt8) :
    bigUIntOfHex (format2X b ++ toHexString data) = some (bigUInt (b :: data)) ∧
      leadingZeros (format2X b ++ toHexString data) = .ok [] ∧
      leadingOnes (format2X b ++ toHexString data) = .ok [] := by
  have bound := b.toNat_lt
  have high : hexValue (upperHexDigit (b.toNat / 16)) = some (b.toNat / 16) :=
    hexValue_upper (by omega)
  have low : hexValue (upperHexDigit (b.toNat % 16)) = some (b.toNat % 16) :=
    hexValue_upper (by omega)
  have text : format2X b ++ toHexString data =
      upperHexDigit (b.toNat / 16) :: upperHexDigit (b.toNat % 16) :: toHexString data := by
    rw [format2X, if_neg (by omega)]
    rfl
  have first : ¬ (upperHexDigit (b.toNat / 16) = '0' ∧ upperHexDigit (b.toNat % 16) = '0') := by
    rintro ⟨zero,_⟩
    rw [zero, show hexValue '0' = some 0 from rfl, Option.some_inj] at high
    omega
  rw [text]
  refine ⟨?_,by rw [leadingZeros, if_neg first],by rw [leadingOnes, if_neg first]⟩
  have byte : 16 * (16 * 0 + b.toNat / 16) + b.toNat % 16 = b.toNat := by omega
  rw [bigUIntOfHex, hexNumber, high, Option.bind_eq_bind, Option.bind_some, hexNumber, low,
    Option.bind_eq_bind, Option.bind_some, byte, hexNumber_toHexString, bigUInt_cons]

theorem two_digits {b : UInt8} (two : 16 ≤ b.toNat) : b ≠ 0 := by
  intro zero
  rw [zero] at two
  exact absurd two (by decide)

theorem versioned_bytes {b : UInt8} (two : 16 ≤ b.toNat) (data : List UInt8) :
    hexStringToNSData (format2X b ++ toHexString data) = .ok (b :: data) := by
  obtain ⟨number,zeros,_⟩ := versioned_text two data
  rw [hexStringToNSData, bind_ready zeros, number, bind_ready (unwrap_ok.mpr rfl),
    serialize_bigUInt (two_digits two)]
  rfl

theorem versioned_encoding {b : UInt8} (two : 16 ≤ b.toNat) (data : List UInt8) :
    hexStringToBase58Encoding (format2X b ++ toHexString data) = .ok (base58Text (b :: data)) := by
  obtain ⟨number,_,ones⟩ := versioned_text two data
  rw [hexStringToBase58Encoding, number, bind_ready (unwrap_ok.mpr rfl), bind_ready ones,
    base58Text]
  simp [two_digits two]
  rfl

/-- A blank is not a digit. -/
theorem blank_text {b : UInt8} (one : b.toNat < 16) (text : List Char) :
    hexStringToNSData (format2X b ++ text) = .error .unwrap := by
  rw [format2X, if_pos one]
  rfl

theorem first_eight (D : Digests) (data : List UInt8) :
    (toHexString (D.sha256 (D.sha256 data))).take 8 = toHexString (checkBytes D data) := by
  have cut := (check_text D data).1
  rw [substring, toHexString_length, D.sha256_length, if_pos (by decide)] at cut
  exact Except.ok.inj cut

/-- What is exported of a key, if anything is. -/
theorem export_ready (D : Digests) {key : CoinKey} (two : 16 ≤ key.privateKeyPrefix.toNat)
    (full : FullWidth key.privateKey) :
    wif D key = .ok (base58Text (key.privateKeyPrefix :: bytes32 key.privateKey ++
      checkBytes D (key.privateKeyPrefix :: bytes32 key.privateKey) ++
      mark key.isCompressedPublicKeyAddress)) := by
  have bytes : serialize key.privateKey = bytes32 key.privateKey :=
    serialize_of_size full.1 full.2
  have short : (key.privateKeyPrefix :: bytes32 key.privateKey).length < 2 ^ 32 := by
    rw [List.length_cons, ← bytes, StoredKeys.serialize_length full]
    decide
  have written : ∀ behind : List UInt8, wifWith D key (toHexString behind) =
      .ok (base58Text (key.privateKeyPrefix :: bytes32 key.privateKey ++
        checkBytes D (key.privateKeyPrefix :: bytes32 key.privateKey) ++ behind)) := by
    intro behind
    rw [wifWith, bind_ready (prefix_text _), privateKeyHexString, bind_ready (cut_full full), bytes,
      bind_ready (versioned_bytes two _), bind_ready (digest_short D short)]
    dsimp only
    rw [first_eight, List.append_assoc, List.append_assoc, ← toHexString_append,
      ← toHexString_append, versioned_encoding two, List.cons_append, List.cons_append,
      List.append_assoc]
  rw [wif]
  cases key.isCompressedPublicKeyAddress with
  | true => exact written [0x01]
  | false => exact written []

theorem export_ran {D : Digests} {key : CoinKey} {text : List Char}
    (below : key.privateKey < order) (run : wif D key = .ok text) :
    16 ≤ key.privateKeyPrefix.toNat ∧ FullWidth key.privateKey := by
  have either : ∃ behind, wifWith D key behind = .ok text := by
    rw [wif] at run
    split at run
    · exact ⟨_,run⟩
    · exact ⟨_,run⟩
  obtain ⟨behind,run⟩ := either
  rw [wifWith, bind_ready (prefix_text _)] at run
  obtain ⟨privateKeyHex,cut,run⟩ := bind_ran.mp run
  obtain ⟨data,made,_⟩ := bind_ran.mp run
  refine ⟨?_,cut_ok (Nat.lt_trans below (by decide)) cut⟩
  by_contra one
  rw [blank_text (by omega)] at made
  cases made

theorem bytes32_length (number : Nat) : (bytes32 number).length = 32 := by
  rw [bytes32, List.length_reverse, LittleEndian.toBytes_length]

theorem read_export {key : CoinKey} (two : 16 ≤ key.privateKeyPrefix.toNat)
    (data : List UInt8) :
    base58StringToNSData (base58Text (key.privateKeyPrefix :: data)) =
      some (key.privateKeyPrefix :: data) := by
  rw [base58StringToNSData_text]
  simp [two_digits two]

/-- A reader of the test network's keys. -/
def testReader : Wif where
  privateKeyPrefix := 0xef
  privateKeyHexString := none
  isCompressedPubKey := none

/-- The export of a key below the order is read back exactly when its version has two
    digits and its number has 32 bytes. -/
theorem wif_imports_iff (D : Digests) (self : Wif) (key : CoinKey)
    (below : key.privateKey < order) :
    ImportsBack D self key ↔ 16 ≤ key.privateKeyPrefix.toNat ∧ 256 ^ 31 ≤ key.privateKey := by
  constructor
  · rintro ⟨text,after,run,_⟩
    obtain ⟨two,full⟩ := export_ran below run
    exact ⟨two,full.1⟩
  · rintro ⟨two,long⟩
    have full : FullWidth key.privateKey := ⟨long,Nat.lt_trans below (by decide)⟩
    refine ⟨_,_,export_ready D two full,import_accepted D |>.mpr
      ⟨key.isCompressedPublicKeyAddress,bytes32 key.privateKey,bytes32_length _,?_,rfl⟩,rfl,rfl⟩
    rw [List.cons_append, List.cons_append, read_export two]

theorem highestKey_imports : ImportsBack (Digests.known [] []) testReader highestKey :=
  (wif_imports_iff (Digests.known [] []) testReader highestKey (by decide)).mpr
    ⟨by decide,by decide⟩

/-- The lowest key has no text, and no key has one under a version of one digit. -/
theorem short_keys_not_exported :
    wif (Digests.known [] []) TransactionBuilder.baseKey = .error .index ∧
      ¬ ImportsBack (Digests.known [] []) testReader TransactionBuilder.baseKey ∧
      wif (Digests.known [] []) { highestKey with privateKeyPrefix := 0x05 } = .error .unwrap ∧
      ¬ ImportsBack (Digests.known [] []) testReader { highestKey with privateKeyPrefix := 0x05 } := by
  have lowest : wif (Digests.known [] []) TransactionBuilder.baseKey = .error .index := by
    decide +kernel
  have blank : wif (Digests.known [] []) { highestKey with privateKeyPrefix := 0x05 } =
      .error .unwrap := by
    decide +kernel
  refine ⟨lowest,?_,blank,?_⟩
  · rintro ⟨text,after,run,_⟩
    rw [lowest] at run
    cases run
  · rintro ⟨text,after,run,_⟩
    rw [blank] at run
    cases run

theorem mark_length (compressed : Bool) : (mark compressed).length = compressed.toNat := by
  cases compressed <;> rfl

/-- A text laid out in either form is of a version other than zero. -/
theorem LaidOut.nonzero {D : Digests} {b : UInt8} {compressed : Bool} {text : List Char}
    (laid : LaidOut D b compressed text) : b ≠ 0 := by
  obtain ⟨body,_,read⟩ := laid
  exact head_of_read read

theorem LaidOut.length {D : Digests} {b : UInt8} {compressed : Bool} {text : List Char}
    (laid : LaidOut D b compressed text) :
    ∃ data, base58StringToNSData text = some data ∧ data.length = 37 + compressed.toNat := by
  obtain ⟨body,length,read⟩ := laid
  refine ⟨_,read,?_⟩
  simp only [List.length_append, List.length_cons, length, checkBytes_length, mark_length]

theorem standard_iff {D : Digests} {b : UInt8} {compressed : Bool} {text : List Char}
    (nonzero : b ≠ 0) :
    Standard D b compressed text ↔ text.head? ≠ some '1' ∧
      ∃ body : List UInt8, body.length = 32 ∧
        base58StringToNSData text = some (standardBytes D b body compressed) := by
  have each : ∀ body : List UInt8, base58Bytes text = some (standardBytes D b body compressed) ↔
      text.head? ≠ some '1' ∧
        base58StringToNSData text = some (standardBytes D b body compressed) :=
    fun body => base58Bytes_nonzero nonzero
  constructor
  · rintro ⟨body,length,bytes⟩
    obtain ⟨head,read⟩ := (each body).mp bytes
    exact ⟨head,body,length,read⟩
  · rintro ⟨head,body,length,read⟩
    exact ⟨body,length,(each body).mpr ⟨head,read⟩⟩

theorem Standard.length {D : Digests} {b : UInt8} {compressed : Bool} {text : List Char}
    (nonzero : b ≠ 0) (standard : Standard D b compressed text) :
    ∃ data, base58StringToNSData text = some data ∧ data.length = 37 + compressed.toNat := by
  obtain ⟨_,body,length,read⟩ := (standard_iff nonzero).mp standard
  refine ⟨_,read,?_⟩
  simp only [standardBytes, List.length_append, List.length_cons, length, checkBytes_length,
    mark_length]
  omega

/-- The two ways to lay a text out agree on which form it is of. -/
theorem same_form {D : Digests} {b : UInt8} {laid_form form : Bool} {text : List Char}
    (laid : LaidOut D b laid_form text) (standard : Standard D b form text) :
    laid_form = form := by
  obtain ⟨data,read,length⟩ := laid.length
  obtain ⟨data',read',length'⟩ := standard.length laid.nonzero
  rw [read, Option.some_inj] at read'
  rw [read', length'] at length
  cases laid_form <;> cases form <;> first | rfl | simp at length

/-- Without a mark there is one way to lay a text out, but for letters in front. -/
theorem unmarked_iff {D : Digests} {b : UInt8} {text : List Char} (nonzero : b ≠ 0) :
    Standard D b false text ↔ text.head? ≠ some '1' ∧ LaidOut D b false text := by
  rw [standard_iff nonzero]
  simp only [LaidOut, standardBytes, mark, Bool.false_eq_true, if_false, List.append_nil]

theorem accepted_iff {D : Digests} {self : Wif} {text : List Char} :
    (∃ after, importWif D self text = .ok (true, after)) ↔
      ∃ compressed, LaidOut D self.privateKeyPrefix compressed text := by
  constructor
  · rintro ⟨after,run⟩
    obtain ⟨compressed,body,length,read,_⟩ := (import_accepted D).mp run
    exact ⟨compressed,body,length,read⟩
  · rintro ⟨compressed,body,length,read⟩
    exact ⟨_,(import_accepted D).mpr ⟨compressed,body,length,read,rfl⟩⟩

theorem import_exact_iff (D : Digests) (self : Wif) (text : List Char) :
    ImportExact D self text ↔
      base58StringToNSData text ≠ some [] ∧
      (LaidOut D self.privateKeyPrefix false text → text.head? ≠ some '1') ∧
      (Standard D self.privateKeyPrefix false text → self.privateKeyPrefix ≠ 0) ∧
      (LaidOut D self.privateKeyPrefix true text ↔
        Standard D self.privateKeyPrefix true text) := by
  rw [ImportExact, import_ends, accepted_iff]
  constructor
  · rintro ⟨ends,exact⟩
    refine ⟨ends,?_,?_,?_,?_⟩
    · intro laid
      obtain ⟨form,standard⟩ := exact.mp ⟨false,laid⟩
      exact ((standard_iff laid.nonzero).mp standard).1
    · intro standard
      obtain ⟨form,laid⟩ := exact.mpr ⟨false,standard⟩
      exact laid.nonzero
    · intro laid
      obtain ⟨form,standard⟩ := exact.mp ⟨true,laid⟩
      rwa [same_form laid standard]
    · intro standard
      obtain ⟨form,laid⟩ := exact.mpr ⟨true,standard⟩
      rwa [← same_form laid standard]
  · rintro ⟨ends,head,version,marked⟩
    refine ⟨ends,?_,?_⟩
    · rintro ⟨form,laid⟩
      cases form with
      | false => exact ⟨false,(unmarked_iff laid.nonzero).mpr ⟨head laid,laid⟩⟩
      | true => exact ⟨true,marked.mp laid⟩
    · rintro ⟨form,standard⟩
      cases form with
      | false => exact ⟨false,((unmarked_iff (version standard)).mp standard).2⟩
      | true => exact ⟨true,marked.mpr standard⟩

/-- The check in front of the mark is the check behind it. -/
def MarkShifts (D : Digests) (payload : List UInt8) : Prop :=
  checkBytes D payload ++ [0x01] = 0x01 :: checkBytes D (payload ++ [0x01])

theorem valid_export_iff (D : Digests) (key : CoinKey) (below : key.privateKey < order) :
    ValidExport D key ↔ 16 ≤ key.privateKeyPrefix.toNat ∧ 256 ^ 31 ≤ key.privateKey ∧
      (key.isCompressedPublicKeyAddress = true →
        MarkShifts D (key.privateKeyPrefix :: bytes32 key.privateKey)) := by
  have bytes : 16 ≤ key.privateKeyPrefix.toNat → FullWidth key.privateKey →
      (ValidExport D key ↔ (key.isCompressedPublicKeyAddress = true →
        MarkShifts D (key.privateKeyPrefix :: bytes32 key.privateKey))) := by
    intro two full
    have run := export_ready D two full
    have same : ValidExport D key ↔ key.privateKeyPrefix :: bytes32 key.privateKey ++
        checkBytes D (key.privateKeyPrefix :: bytes32 key.privateKey) ++
        mark key.isCompressedPublicKeyAddress =
          standardBytes D key.privateKeyPrefix (bytes32 key.privateKey)
            key.isCompressedPublicKeyAddress := by
      rw [ValidExport, run]
      constructor
      · rintro ⟨text,made,valid⟩
        cases made
        rw [base58Bytes_text, Option.some_inj] at valid
        exact valid
      · intro valid
        exact ⟨_,rfl,by rw [base58Bytes_text, valid]⟩
    rw [same, standardBytes]
    cases key.isCompressedPublicKeyAddress with
    | true =>
      simp only [mark, if_true, MarkShifts, List.append_assoc, List.append_cancel_left_eq,
        true_implies]
      rfl
    | false => simp [mark]
  constructor
  · intro valid
    have whole := valid
    obtain ⟨text,run,_⟩ := whole
    obtain ⟨two,full⟩ := export_ran below run
    exact ⟨two,full.1,(bytes two full).mp valid⟩
  · rintro ⟨two,long,shifts⟩
    exact (bytes two ⟨long,Nat.lt_trans below (by decide)⟩).mpr shifts

/-- What is exported is standard under these conditions, and what is accepted is so under
    those. -/
theorem wif_standard_iff (D : Digests) (self : Wif) (key : CoinKey) (text : List Char)
    (below : key.privateKey < order) :
    (ValidExport D key ↔ 16 ≤ key.privateKeyPrefix.toNat ∧ 256 ^ 31 ≤ key.privateKey ∧
      (key.isCompressedPublicKeyAddress = true →
        MarkShifts D (key.privateKeyPrefix :: bytes32 key.privateKey))) ∧
    (ImportExact D self text ↔
      base58StringToNSData text ≠ some [] ∧
      (LaidOut D self.privateKeyPrefix false text → text.head? ≠ some '1') ∧
      (Standard D self.privateKeyPrefix false text → self.privateKeyPrefix ≠ 0) ∧
      (LaidOut D self.privateKeyPrefix true text ↔
        Standard D self.privateKeyPrefix true text)) :=
  ⟨valid_export_iff D key below,import_exact_iff D self text⟩

theorem unmarked_highestKey_standard :
    ValidExport (Digests.known [] []) { highestKey with isCompressedPublicKeyAddress := false } :=
  (wif_standard_iff (Digests.known [] []) testReader
    { highestKey with isCompressedPublicKeyAddress := false } [] (by decide)).1.mpr
      ⟨by decide,by decide,fun marked => absurd marked (by decide)⟩

/-- The digests of the highest key, without its mark and with it. -/
def highestKeyDigests : Digests := Digests.known
  [(0xef :: bytes32 (order - 1),
     [18,39,215,222,51,11,48,126,246,88,42,12,78,196,103,48,236,180,4,163,69,193,66,45,31,
      67,45,94,93,208,141,193]),
   ([18,39,215,222,51,11,48,126,246,88,42,12,78,196,103,48,236,180,4,163,69,193,66,45,31,
      67,45,94,93,208,141,193],
     [182,226,215,53,16,64,3,2,12,130,179,42,43,59,134,45,157,227,200,101,194,67,223,231,
      114,20,27,128,60,168,84,23]),
   (0xef :: bytes32 (order - 1) ++ [0x01],
     [228,239,202,34,196,199,125,97,219,72,174,245,223,14,29,27,135,160,206,254,15,42,246,
      116,77,117,17,122,151,218,183,252]),
   ([228,239,202,34,196,199,125,97,219,72,174,245,223,14,29,27,135,160,206,254,15,42,246,
      116,77,117,17,122,151,218,183,252],
     [67,239,75,242,92,57,84,93,63,73,254,44,6,95,246,81,236,229,100,246,246,52,151,131,
      103,135,233,136,146,132,232,217])] []

/-- The text of a compressed key is not standard, and the empty text is a fault. -/
theorem compressed_key_not_standard :
    ¬ ValidExport highestKeyDigests highestKey ∧
      importWif highestKeyDigests testReader [] = .error .index ∧
      ¬ ImportExact highestKeyDigests testReader [] := by
  refine ⟨?_,rfl,?_⟩
  · rw [valid_export_iff highestKeyDigests highestKey (by decide)]
    rintro ⟨_,_,shifts⟩
    have shifted := shifts rfl
    revert shifted
    rw [MarkShifts]
    decide +kernel
  · rintro ⟨⟨result,run⟩,_⟩
    cases run

end WalletImport
