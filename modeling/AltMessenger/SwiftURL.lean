import AltMessenger.SwiftText

/-!
URLs as Foundation takes them from text: which texts are URLs at all, and where the scheme, the
host, the port and what follows them begin and end.
-/
namespace SwiftURL
open SwiftText

structure URL where
  absoluteString : List Char
  scheme : Option (List Char)
  host : Option (List Char)
  port : Option Nat
  /-- with its percent escapes -/
  path : List Char
  query : Option (List Char)
  deriving DecidableEq, Repr

/-- The unreserved and the reserved characters, and the brackets of an address. -/
def isURLChar (c : Char) : Bool :=
  c.isAlphanum || "-_.!~*'();/?:@&=+$,[]".toList.contains c

def isHexDigit (c : Char) : Bool :=
  c.isDigit || 'a' ≤ c && c ≤ 'f' || 'A' ≤ c && c ≤ 'F'

/-- A percent sign begins an escape, and there is one hash sign at most. -/
def isLegal (sawHash : Bool) : List Char → Bool
  | [] => true
  | '%' :: high :: low :: text => isHexDigit high && isHexDigit low && isLegal sawHash text
  | '#' :: text => !sawHash && isLegal true text
  | c :: text => isURLChar c && isLegal sawHash text

def isSchemeChar (c : Char) : Bool := c.isAlphanum || c = '+' || c = '-' || c = '.'

/-- The scheme before a colon, and what is after it. -/
def splitScheme (text : List Char) : Option (List Char) × List Char :=
  match text.dropWhile isSchemeChar with
  | ':' :: rest => (some (text.takeWhile isSchemeChar), rest)
  | _ => (none, text)

/-- What ends an authority. -/
def endsAuthority (c : Char) : Bool := c = '/' || c = '?' || c = '#'

/-- Host and port, after the user information that an at sign ends. -/
def hostAndPort (authority : List Char) : List Char :=
  match authority.dropWhile fun c => c ≠ '@' with
  | [] => authority
  | _ :: rest => rest

def hostOf (hostport : List Char) : List Char := hostport.takeWhile fun c => c ≠ ':'

def portOf (hostport : List Char) : Option Nat :=
  match hostport.dropWhile fun c => c ≠ ':' with
  | [] => none
  | _ :: port => digits port

/-- The authority after two slashes, and what follows it. -/
def splitAuthority : List Char → Option (List Char) × List Char
  | '/' :: '/' :: text =>
    (some (text.takeWhile fun c => !endsAuthority c), text.dropWhile fun c => !endsAuthority c)
  | text => (none, text)

theorem splitAuthority_slashes (text : List Char) : splitAuthority ('/' :: '/' :: text) =
    (some (text.takeWhile fun c => !endsAuthority c), text.dropWhile fun c => !endsAuthority c) :=
  rfl

def queryOf (text : List Char) : Option (List Char) :=
  match text.dropWhile fun c => c ≠ '?' && c ≠ '#' with
  | '?' :: query => some (query.takeWhile fun c => c ≠ '#')
  | _ => none

/-- `URL(string:)` -/
def URL.ofString (text : List Char) : Option URL :=
  if text ≠ [] && isLegal false text then
    let (scheme, rest) := splitScheme text
    let (authority, rest) := splitAuthority rest
    some
      { absoluteString := text
        scheme
        host := authority.map fun authority => hostOf (hostAndPort authority)
        port := authority.bind fun authority => portOf (hostAndPort authority)
        path := rest.takeWhile fun c => c ≠ '?' && c ≠ '#'
        query := queryOf rest }
  else none

/-- A character of names: no other character of a URL ends one, but not the name's own. -/
def isNameChar (c : Char) : Bool := c.isAlphanum || c = '-' || c = '.'

theorem isNameChar_url {c : Char} (name : isNameChar c = true) : isURLChar c = true := by
  unfold isNameChar at name
  unfold isURLChar
  simp only [Bool.or_eq_true, decide_eq_true_eq] at name ⊢
  rcases name with (letter | dash) | dot
  · exact Or.inl letter
  · rw [dash]
    exact Or.inr (by decide)
  · rw [dot]
    exact Or.inr (by decide)

theorem isNameChar_scheme {c : Char} (name : isNameChar c = true) : isSchemeChar c = true := by
  unfold isNameChar at name
  unfold isSchemeChar
  simp only [Bool.or_eq_true, decide_eq_true_eq] at name ⊢
  tauto

theorem isNameChar_ne {c d : Char} (name : isNameChar c = true) (other : isNameChar d = false) :
    c ≠ d := by
  intro same
  rw [same, other] at name
  cases name

theorem isLegal_cons {c : Char} (plain : isURLChar c = true) (sawHash : Bool) (text : List Char) :
    isLegal sawHash (c :: text) = isLegal sawHash text := by
  have not_percent : c ≠ '%' := fun same => absurd (same ▸ plain) (by decide)
  have not_hash : c ≠ '#' := fun same => absurd (same ▸ plain) (by decide)
  rw [isLegal]
  · rw [plain, Bool.true_and]
  · exact fun _ _ _ percent _ => not_percent percent
  · exact not_hash

theorem isLegal_append {first : List Char} (plain : ∀ c ∈ first, isURLChar c = true)
    (sawHash : Bool) (text : List Char) : isLegal sawHash (first ++ text) = isLegal sawHash text := by
  induction first with
  | nil => rfl
  | cons c first ih =>
    rw [List.cons_append, isLegal_cons (plain c List.mem_cons_self)]
    exact ih fun d there => plain d (List.mem_cons_of_mem c there)

end SwiftURL
