import Mathlib.Data.List.TakeWhile
import AltMessenger.BitcoinKeys
import AltMessenger.Numerals

/-!
Addresses: a version byte, a key hash and four check bytes, written in base 58. Two
Swift characters are equal if they are canonically the same; one letter stands for both.
-/
namespace PublicAddress
open SwiftRuntime BitcoinHash BitcoinKeys Numerals

def ALPHABET : List Char := "123456789ABCDEFGHJKLMNPQRSTUVWXYZabcdefghijkmnopqrstuvwxyz".toList

def base58 : Alphabet Char where
  letters := ALPHABET
  distinct := by decide
  several := by decide

/-- The loop of `hexStringToBase58Encoding`, over pairs of digits. -/
def leadingOnes : List Char → Except Trap (List Char)
  | [] => .ok []
  | [_] => .error .index
  | a :: b :: text =>
    if a = '0' ∧ b = '0' then do
      let ones ← leadingOnes text
      pure ('1' :: ones)
    else .ok []

def hexStringToBase58Encoding (text : List Char) : Except Trap (List Char) := do
  let bigNum ← unwrap (bigUIntOfHex text)
  let ones ← leadingOnes text
  pure (ones ++ base58.write bigNum)

def base58StringToNSData (text : List Char) : Option (List UInt8) :=
  (base58.read text).map serialize

/-- `text.substring(with: lower ..< upper)` -/
def subrange (text : List Char) (lower upper : Nat) : Except Trap (List Char) :=
  if lower ≤ upper ∧ upper ≤ text.length then .ok ((text.drop lower).take (upper - lower))
  else .error .index

/-- `text.index(text.endIndex, offsetBy: -count)` -/
def indexFromEnd (text : List Char) (count : Nat) : Except Trap Nat :=
  if count ≤ text.length then .ok (text.length - count) else .error .index

/-- `UInt8(text, radix: 16)` of a text of digits. -/
def uint8OfHex (text : List Char) : Option UInt8 := do
  let number ← bigUIntOfHex text
  if number < 256 then some (UInt8.ofNat number) else none

def publicKeyHashToPublicAddress (D : Digests) (text : List Char) (pubKeyPrefix : UInt8) :
    Except Trap (List Char) := do
  let ripemd ← hexStringToNSData text
  let extendedRipemd := pubKeyPrefix :: ripemd
  let doubleSHA ← Hash256.digest D extendedRipemd
  let checkSum ← substring (toHexString doubleSHA) 0 8
  hexStringToBase58Encoding (toHexString extendedRipemd ++ checkSum)

def publicAddressToPubKeyHash (D : Digests) (text : List Char) (pubKeyPrefix : UInt8) :
    Except Trap (Option (List Char)) :=
  match base58StringToNSData text with
  | none => pure none
  | some data => do
    let decodedStr := toHexString data
    let prefixText ← subrange decodedStr 0 2
    match uint8OfHex prefixText with
    | none => pure none
    | some decodedPrefix =>
      if decodedPrefix ≠ pubKeyPrefix then pure none
      else do
        let checksumStart ← indexFromEnd decodedStr 8
        let checksumStr ← subrange decodedStr checksumStart decodedStr.length
        let extractedPubKeyHash ← subrange decodedStr 2 checksumStart
        let extendedPubKeyHash ← subrange decodedStr 0 checksumStart
        let extended ← hexStringToNSData extendedPubKeyHash
        let hash256 ← Hash256.digest D extended
        let checksumCandidate ← subrange (toHexString hash256) 0 8
        if checksumStr ≠ checksumCandidate then pure none
        else pure (some extractedPubKeyHash)

/-- The four bytes that check the bytes before them. -/
def checkBytes (D : Digests) (data : List UInt8) : List UInt8 :=
  (D.sha256 (D.sha256 data)).take 4

/-- Bytes in base 58: one letter of value zero for each zero byte in front. -/
def base58Text (data : List UInt8) : List Char :=
  List.replicate (data.takeWhile (· = 0)).length '1' ++ base58.write (bigUInt data)

def base58Bytes (text : List Char) : Option (List UInt8) :=
  (base58.read text).map fun number =>
    List.replicate (text.takeWhile (· = '1')).length 0 ++ serialize number

/-- The hash comes back from the address made of it. -/
def RoundTrips (D : Digests) (pubKeyPrefix : UInt8) (hash : List UInt8) : Prop :=
  ∃ address, publicKeyHashToPublicAddress D (toHexString hash) pubKeyPrefix = .ok address ∧
    publicAddressToPubKeyHash D address pubKeyPrefix = .ok (some (toHexString hash))

/-- Whatever the text is read as makes the text again. -/
def Reencodes (D : Digests) (pubKeyPrefix : UInt8) (text : List Char) : Prop :=
  ∀ hash, publicAddressToPubKeyHash D text pubKeyPrefix = .ok (some hash) →
    publicKeyHashToPublicAddress D hash pubKeyPrefix = .ok text

/-- The number of the text is a version byte, some bytes and their check. -/
def Checked (D : Digests) (pubKeyPrefix : UInt8) (text : List Char) : Prop :=
  ∃ body : List UInt8, (pubKeyPrefix :: body).length < 2 ^ 32 ∧
    base58StringToNSData text =
      some (pubKeyPrefix :: body ++ checkBytes D (pubKeyPrefix :: body))

@[simp] theorem checkBytes_length (D : Digests) (data : List UInt8) :
    (checkBytes D data).length = 4 := by
  simp [checkBytes, D.sha256_length]

theorem leadingOnes_bytes (data : List UInt8) :
    leadingOnes (toHexString data) =
      .ok (List.replicate (data.takeWhile (· = 0)).length '1') := by
  induction data with
  | nil => rfl
  | cons b data ih =>
    have text : toHexString (b :: data) =
        hexDigit (b.toNat / 16) :: hexDigit (b.toNat % 16) :: toHexString data := rfl
    rw [text, leadingOnes]
    by_cases zero : b = 0
    · rw [if_pos (pair_zero.mpr zero), bind_ready ih]
      simp [zero, List.replicate_succ]
      rfl
    · rw [if_neg (pair_zero.not.mpr zero)]
      simp [zero]

theorem hexStringToBase58Encoding_bytes (data : List UInt8) :
    hexStringToBase58Encoding (toHexString data) = .ok (base58Text data) := by
  rw [hexStringToBase58Encoding, bigUIntOfHex_toHexString, bind_ready (unwrap_ok.mpr rfl),
    bind_ready (leadingOnes_bytes data)]
  rfl

theorem read_base58Text (data : List UInt8) :
    base58.read (base58Text data) = some (bigUInt data) := by
  rw [base58Text, show '1' = base58.zero from rfl, read_zeros, read_write]

/-- The zero bytes in front are not read back. -/
theorem base58StringToNSData_text (data : List UInt8) :
    base58StringToNSData (base58Text data) = some (data.dropWhile (· = 0)) := by
  rw [base58StringToNSData, read_base58Text, Option.map_some, serialize_bytes]

theorem base58Text_serialize (number : Nat) :
    base58Text (serialize number) = base58.write number := by
  rw [base58Text, serialize_head, bigUInt_serialize]
  rfl

theorem base58Text_data {text : List Char} {data : List UInt8}
    (read : base58StringToNSData text = some data) :
    base58Text data = text ↔ text.head? ≠ some '1' := by
  obtain ⟨number,value,rfl⟩ := Option.map_eq_some_iff.mp read
  rw [base58Text_serialize, write_read_iff value]
  rfl

/-- In base 58 the zero bytes in front do come back. -/
theorem base58Bytes_text (data : List UInt8) : base58Bytes (base58Text data) = some data := by
  have ones : (base58Text data).takeWhile (· = '1') =
      List.replicate (data.takeWhile (· = 0)).length '1' := by
    have head := write_head (A := base58) (bigUInt data)
    rw [base58Text, List.takeWhile_append_of_pos (by simp)]
    cases letters : base58.write (bigUInt data) with
    | nil => simp
    | cons c text =>
      rw [letters] at head
      have other : c ≠ '1' := fun same => head (congrArg some same)
      simp [other]
  have zeros : List.replicate (data.takeWhile (· = 0)).length 0 = data.takeWhile (· = 0) := by
    refine (List.eq_replicate_iff.mpr ⟨rfl,?_⟩).symm
    intro b mem
    have zero := List.mem_takeWhile_imp mem
    exact of_decide_eq_true zero
  rw [base58Bytes, read_base58Text, Option.map_some, serialize_bytes, ones,
    List.length_replicate, zeros, List.takeWhile_append_dropWhile]

/-- Bytes that do not start with zero are those of the number, if no one is in front. -/
theorem base58Bytes_nonzero {text : List Char} {b : UInt8} {data : List UInt8}
    (nonzero : b ≠ 0) :
    base58Bytes text = some (b :: data) ↔
      text.head? ≠ some '1' ∧ base58StringToNSData text = some (b :: data) := by
  rw [base58Bytes, base58StringToNSData]
  cases text with
  | nil => simp [Alphabet.read, Alphabet.readFrom]
  | cons c text =>
    by_cases one : c = '1'
    · simp [one, List.replicate_succ, nonzero.symm]
    · simp [one]

theorem head_of_read {text : List Char} {b : UInt8} {data : List UInt8}
    (read : base58StringToNSData text = some (b :: data)) : b ≠ 0 := by
  obtain ⟨number,_,bytes⟩ := Option.map_eq_some_iff.mp read
  have head := serialize_head number
  rw [bytes] at head
  intro zero
  simp [zero] at head

theorem subrange_bytes (before data behind : List UInt8) {lower upper : Nat}
    (start : lower = 2 * before.length) (stop : upper = lower + 2 * data.length) :
    subrange (toHexString (before ++ data ++ behind)) lower upper = .ok (toHexString data) := by
  have text : toHexString (before ++ data ++ behind) =
      toHexString before ++ (toHexString data ++ toHexString behind) := by
    rw [List.append_assoc, toHexString_append, toHexString_append]
  have first : lower = (toHexString before).length := by rw [toHexString_length, start]
  have second : upper - lower = (toHexString data).length := by rw [toHexString_length]; omega
  rw [subrange, if_pos, text, second, first, List.drop_left, List.take_left]
  simp only [text, List.length_append, toHexString_length]
  omega

/-- The first eight digits of a digest are those of its first four bytes. -/
theorem check_text (D : Digests) (data : List UInt8) :
    substring (toHexString (D.sha256 (D.sha256 data))) 0 8 = .ok (toHexString (checkBytes D data)) ∧
      subrange (toHexString (D.sha256 (D.sha256 data))) 0 8 =
        .ok (toHexString (checkBytes D data)) := by
  have split := (List.take_append_drop 4 (D.sha256 (D.sha256 data))).symm
  have length := checkBytes_length D data
  rw [checkBytes] at length ⊢
  generalize (D.sha256 (D.sha256 data)).take 4 = front at split length ⊢
  rw [split]
  constructor
  · have cut := substring_between [] (toHexString front)
      (toHexString ((D.sha256 (D.sha256 data)).drop 4))
    rw [toHexString_length, length, ← toHexString_append] at cut
    exact cut
  · exact subrange_bytes [] front _ rfl (by rw [length])

theorem address_made (D : Digests) {pubKeyPrefix : UInt8} {hash : List UInt8}
    (short : (pubKeyPrefix :: hash).length < 2 ^ 32) :
    publicKeyHashToPublicAddress D (toHexString hash) pubKeyPrefix =
      .ok (base58Text (pubKeyPrefix :: hash ++ checkBytes D (pubKeyPrefix :: hash))) := by
  rw [publicKeyHashToPublicAddress, bind_ready (hexStringToNSData_toHexString hash),
    bind_ready (digest_short D short), bind_ready (check_text D _).1, ← toHexString_append]
  exact hexStringToBase58Encoding_bytes _

theorem uint8OfHex_byte (b : UInt8) : uint8OfHex (toHexString [b]) = some b := by
  have value : bigUInt [b] = b.toNat := by simp [bigUInt, LittleEndian.ofBytes]
  rw [uint8OfHex, bigUIntOfHex_toHexString, value]
  simp [b.toNat_lt]

theorem first_pair (b : UInt8) (rest : List UInt8) :
    subrange (toHexString (b :: rest)) 0 2 = .ok (toHexString [b]) :=
  subrange_bytes [] [b] rest rfl rfl

theorem front_text (b : UInt8) (body check : List UInt8) :
    subrange (toHexString (b :: body ++ check)) 0 (2 * (b :: body).length) =
      .ok (toHexString (b :: body)) :=
  subrange_bytes [] (b :: body) check rfl (by omega)

/-- Where the body and the check lie, and that there is room for them. -/
theorem layout {b : UInt8} {rest : List UInt8} {start : Nat} {extracted : List Char}
    (back : indexFromEnd (toHexString (b :: rest)) 8 = .ok start)
    (cut : subrange (toHexString (b :: rest)) 2 start = .ok extracted) :
    ∃ body check : List UInt8, rest = body ++ check ∧ check.length = 4 ∧
      start = 2 * (b :: body).length := by
  rw [indexFromEnd, toHexString_length, List.length_cons] at back
  rw [subrange, toHexString_length, List.length_cons] at cut
  split at back
  · cases back
    split at cut
    · rename_i room fits
      refine ⟨rest.take (rest.length - 4),rest.drop (rest.length - 4),
        (List.take_append_drop _ rest).symm,?_,?_⟩
      · rw [List.length_drop]
        omega
      · rw [List.length_cons, List.length_take]
        omega
    · cases cut
  · cases back

/-- What the end of the function makes of its parts. -/
theorem read_parts (D : Digests) {text : List Char} {b : UInt8} {body check : List UInt8}
    (read : base58StringToNSData text = some (b :: body ++ check)) (four : check.length = 4)
    (short : (b :: body).length < 2 ^ 32) :
    publicAddressToPubKeyHash D text b =
      .ok (if check = checkBytes D (b :: body) then some (toHexString body) else none) := by
  have length : (toHexString (b :: body ++ check)).length = 2 * (b :: body).length + 8 := by
    rw [toHexString_length, List.length_append, four]
    omega
  have back : indexFromEnd (toHexString (b :: body ++ check)) 8 =
      .ok (2 * (b :: body).length) := by
    rw [indexFromEnd, length, if_pos (by omega), Nat.add_sub_cancel]
  have last := @subrange_bytes (b :: body) check [] (2 * (b :: body).length)
    (toHexString (b :: body ++ check)).length rfl (by rw [length, four])
  rw [List.append_nil] at last
  have pair : subrange (toHexString (b :: body ++ check)) 0 2 = .ok (toHexString [b]) :=
    first_pair b (body ++ check)
  have middle : subrange (toHexString (b :: body ++ check)) 2 (2 * (b :: body).length) =
      .ok (toHexString body) :=
    subrange_bytes [b] body check rfl (by rw [List.length_cons]; omega)
  have front := front_text b body check
  rw [publicAddressToPubKeyHash, read]
  dsimp only
  rw [bind_ready pair, uint8OfHex_byte]
  dsimp only
  rw [if_neg (not_not.mpr rfl), bind_ready back, bind_ready last, bind_ready middle,
    bind_ready front, bind_ready (hexStringToNSData_toHexString (b :: body)),
    bind_ready (digest_short D short), bind_ready (check_text D (b :: body)).2]
  by_cases good : check = checkBytes D (b :: body)
  · rw [if_neg (not_not.mpr (congrArg toHexString good)), if_pos good]
    rfl
  · rw [if_pos (fun same => good (toHexString_injective same)), if_neg good]
    rfl

/-- Where the function returns, there was room for a body and a check behind the version. -/
theorem returned_parts {D : Digests} {text : List Char} {b : UInt8} {rest : List UInt8}
    {result : Option (List Char)} (read : base58StringToNSData text = some (b :: rest))
    (run : publicAddressToPubKeyHash D text b = .ok result) :
    ∃ body check : List UInt8, rest = body ++ check ∧ check.length = 4 ∧
      (b :: body).length < 2 ^ 32 := by
  rw [publicAddressToPubKeyHash, read] at run
  obtain ⟨prefixText,cut,later⟩ := bind_ran.mp run
  rw [first_pair] at cut
  cases cut
  rw [uint8OfHex_byte] at later
  dsimp only at later
  rw [if_neg (not_not.mpr rfl)] at later
  obtain ⟨start,back,later⟩ := bind_ran.mp later
  obtain ⟨_,_,later⟩ := bind_ran.mp later
  obtain ⟨_,cut,later⟩ := bind_ran.mp later
  obtain ⟨_,whole_cut,later⟩ := bind_ran.mp later
  obtain ⟨body,check,rfl,four,rfl⟩ := layout back cut
  have front := front_text b body check
  rw [List.cons_append, whole_cut] at front
  cases front
  obtain ⟨_,bytes,later⟩ := bind_ran.mp later
  rw [hexStringToNSData_toHexString] at bytes
  cases bytes
  obtain ⟨_,digest,_⟩ := bind_ran.mp later
  exact ⟨body,check,rfl,four,(Hash256.digest_ok.mp digest).1⟩

/-- A first byte other than the version is refused, and that there is none is a fault. -/
theorem returned_first {D : Digests} {text hash : List Char} {pubKeyPrefix : UInt8}
    (run : publicAddressToPubKeyHash D text pubKeyPrefix = .ok (some hash)) :
    ∃ rest, base58StringToNSData text = some (pubKeyPrefix :: rest) := by
  rw [publicAddressToPubKeyHash] at run
  cases read : base58StringToNSData text with
  | none => rw [read] at run; cases run
  | some data =>
    rw [read] at run
    obtain ⟨prefixText,cut,later⟩ := bind_ran.mp run
    cases data with
    | nil => cases cut
    | cons b rest =>
      rw [first_pair] at cut
      cases cut
      rw [uint8OfHex_byte] at later
      dsimp only at later
      by_cases other : b ≠ pubKeyPrefix
      · rw [if_pos other] at later
        cases later
      · rw [not_not.mp other]
        exact ⟨rest,rfl⟩

/-- An address is read exactly if its number is the version, a body and its check. -/
theorem address_read (D : Digests) {text hash : List Char} {pubKeyPrefix : UInt8} :
    publicAddressToPubKeyHash D text pubKeyPrefix = .ok (some hash) ↔
      ∃ body : List UInt8, (pubKeyPrefix :: body).length < 2 ^ 32 ∧
        base58StringToNSData text =
          some (pubKeyPrefix :: body ++ checkBytes D (pubKeyPrefix :: body)) ∧
        hash = toHexString body := by
  constructor
  · intro run
    obtain ⟨rest,read⟩ := returned_first run
    obtain ⟨body,check,rfl,four,short⟩ := returned_parts read run
    rw [read_parts D read four short, Except.ok.injEq] at run
    split at run
    · rename_i good
      refine ⟨body,short,?_,(Option.some.inj run).symm⟩
      rw [← good]
      exact read
    · cases run
  · rintro ⟨body,short,read,rfl⟩
    rw [read_parts D read (checkBytes_length D _) short, if_pos rfl]

theorem round_trip_iff (D : Digests) (pubKeyPrefix : UInt8) (hash : RIPEMD160HASH) :
    RoundTrips D pubKeyPrefix hash.data ↔ pubKeyPrefix ≠ 0 := by
  have short : (pubKeyPrefix :: hash.data).length < 2 ^ 32 := by
    rw [List.length_cons, hash.length_eq]
    decide
  constructor
  · rintro ⟨address,_,back⟩
    obtain ⟨body,_,read,_⟩ := (address_read D).mp back
    exact head_of_read read
  · intro nonzero
    refine ⟨_,address_made D short,(address_read D).mpr ⟨hash.data,short,?_,rfl⟩⟩
    rw [base58StringToNSData_text]
    simp [nonzero]

theorem reencodes_iff (D : Digests) (pubKeyPrefix : UInt8) (text : List Char) :
    Reencodes D pubKeyPrefix text ↔
      (text.head? = some '1' → ¬ Checked D pubKeyPrefix text) := by
  constructor
  · rintro again one ⟨body,short,read⟩
    have made := again _ ((address_read D).mpr ⟨body,short,read,rfl⟩)
    rw [address_made D short, Except.ok.injEq, base58Text_data read] at made
    exact made one
  · intro none hash back
    obtain ⟨body,short,read,rfl⟩ := (address_read D).mp back
    rw [address_made D short, Except.ok.injEq, base58Text_data read]
    exact fun one => none one ⟨body,short,read⟩

/-- A hash comes back under every version but zero, and a text is made again unless it
    is a checked one with a letter of value zero put in front. -/
theorem address_round_trip_iff (D : Digests) (pubKeyPrefix : UInt8) (hash : RIPEMD160HASH)
    (text : List Char) :
    (RoundTrips D pubKeyPrefix hash.data ↔ pubKeyPrefix ≠ 0) ∧
      (Reencodes D pubKeyPrefix text ↔
        (text.head? = some '1' → ¬ Checked D pubKeyPrefix text)) :=
  ⟨round_trip_iff D pubKeyPrefix hash,reencodes_iff D pubKeyPrefix text⟩

/-- The digests of the zero hash under the versions 0x00 and 0x6f. -/
def zeroHashDigests : Digests := Digests.known
  [(0x00 :: List.replicate 20 0,
     [201,2,50,88,107,128,31,149,88,167,111,47,150,62,204,216,49,217,254,103,117,228,200,
      241,68,107,35,49,170,33,50,242]),
   ([201,2,50,88,107,128,31,149,88,167,111,47,150,62,204,216,49,217,254,103,117,228,200,
      241,68,107,35,49,170,33,50,242],
     [148,160,9,17,196,218,39,249,39,23,39,255,167,161,77,141,85,136,252,15,255,153,100,
      52,14,196,6,95,56,126,98,43]),
   (0x6f :: List.replicate 20 0,
     [66,31,85,38,140,245,174,103,83,82,150,131,188,157,196,44,27,236,185,254,8,171,158,
      23,114,215,46,119,156,27,217,255]),
   ([66,31,85,38,140,245,174,103,83,82,150,131,188,157,196,44,27,236,185,254,8,171,158,
      23,114,215,46,119,156,27,217,255],
     [143,98,183,33,95,188,41,172,240,170,146,187,246,126,36,53,115,7,171,100,203,182,133,
      238,180,82,49,197,74,204,188,235])] []

def mainAddress : List Char := "1111111111111111111114oLvT2".toList

def testAddress : List Char := "mfWxJ45yp2SFn7UciZyNpvDKrzbhyfKrY8".toList

/-- The main network's address is refused, and a test address is read with any number
    of ones in front. -/
theorem main_address_not_read :
    publicKeyHashToPublicAddress zeroHashDigests (toHexString (List.replicate 20 0)) 0x00 =
        .ok mainAddress ∧
      ¬ RoundTrips zeroHashDigests 0x00 (List.replicate 20 0) ∧
      publicAddressToPubKeyHash zeroHashDigests ('1' :: testAddress) 0x6f =
        .ok (some (toHexString (List.replicate 20 0))) ∧
      ¬ Reencodes zeroHashDigests 0x6f ('1' :: testAddress) := by
  have made : publicKeyHashToPublicAddress zeroHashDigests (toHexString (List.replicate 20 0)) 0x00 =
      .ok mainAddress := by decide +kernel
  have refused : publicAddressToPubKeyHash zeroHashDigests mainAddress 0x00 = .ok none := by
    decide +kernel
  have back : publicAddressToPubKeyHash zeroHashDigests ('1' :: testAddress) 0x6f =
      .ok (some (toHexString (List.replicate 20 0))) := by decide +kernel
  have again : publicKeyHashToPublicAddress zeroHashDigests (toHexString (List.replicate 20 0)) 0x6f =
      .ok testAddress := by decide +kernel
  refine ⟨made,?_,back,?_⟩
  · rintro ⟨address,made',back'⟩
    rw [made] at made'
    cases made'
    rw [refused] at back'
    cases back'
  · intro all
    have same := all _ back
    rw [again, Except.ok.injEq] at same
    exact absurd same (by decide)

end PublicAddress
