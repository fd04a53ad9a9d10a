import Mathlib.Tactic.IntervalCases
import AltMessenger.FileMiddleware

/-!
What is answered to a request for a range of bytes. The header names the first and the last byte;
the middleware takes the first number for the last byte.
-/
namespace ByteRanges
open SwiftRuntime SwiftText HTTPRequest FileMiddleware Numerals

/-- No digit comes first. -/
def Ends (rest : List Char) : Prop := ∀ c ∈ rest.head?, c.isDigit = false

/-- The text begins with `bytes=a-b`, and what is after that is the rest. -/
def Begins (text : List Char) (a b : Nat) (rest : List Char) : Prop :=
  ∃ first last, dropLowercased "bytes=".toList text = some (first ++ '-' :: (last ++ rest)) ∧
    digits first = some a ∧ digits last = some b ∧ Ends rest

/-- A range that data of the length has. -/
def Satisfiable (text : List Char) (length a b : Nat) : Prop :=
  Begins text a b [] ∧ a ≤ b ∧ b < length

def contentRange (a b length : Nat) : List Char :=
  "bytes ".toList ++ (toString (a : Int)).toList ++ '-' :: (toString (b : Int)).toList ++
    '/' :: (toString length).toList

/-- A satisfiable range is answered with its bytes, and any other text with an error status. -/
def RangeServed (text : List Char) (body : Data) (answer : Except Stop Response) : Prop :=
  (∀ a b, Satisfiable text body.length a b → ∃ response, answer = .ok response ∧
    response.body = some ((body.take (b + 1)).drop a) ∧
    response.headers.lookup "Content-Range".toList = some [contentRange a b body.length]) ∧
  ((¬ ∃ a b, Satisfiable text body.length a b) → ∃ response, answer = .ok response ∧
    400 ≤ response.statusCode)

section Digits

theorem isDigit_iff {c : Char} : c.isDigit = true ↔ c ∈ decimal.letters := by
  constructor
  · intro digit
    unfold Char.isDigit at digit
    simp only [ge_iff_le, Bool.and_eq_true, decide_eq_true_eq, UInt32.le_iff_toNat_le] at digit
    obtain ⟨low,high⟩ := digit
    change 48 ≤ c.toNat at low
    change c.toNat ≤ 57 at high
    have number : c = Char.ofNat c.toNat := (Char.ofNat_toNat c).symm
    generalize c.toNat = n at low high number
    subst number
    interval_cases n <;> decide
  · intro letter
    have every : decimal.letters.all Char.isDigit = true := by decide
    exact List.all_eq_true.mp every c letter

theorem readFrom_some {text : List Char} {number n : Nat}
    (read : decimal.readFrom number text = some n) : ∀ c ∈ text, c.isDigit = true := by
  induction text generalizing number with
  | nil => exact fun c there => nomatch there
  | cons d text ih =>
    unfold Alphabet.readFrom at read
    split at read
    case isTrue letter =>
      intro c there
      rcases List.mem_cons.mp there with same | later
      · rw [same]
        exact isDigit_iff.mpr letter
      · exact ih read c later
    case isFalse => cases read

theorem digits_some {text : List Char} {n : Nat} (read : digits text = some n) :
    text ≠ [] ∧ ∀ c ∈ text, c.isDigit = true := by
  unfold digits at read
  split at read
  case isTrue => cases read
  case isFalse something => exact ⟨something,readFrom_some read⟩

/-- A number without a sign is read if there is one and it fits. -/
theorem int_digits_iff {text : List Char} {i : Int} (all : ∀ c ∈ text, c.isDigit = true) :
    int text = some i ↔ ∃ n, digits text = some n ∧ n < 2 ^ 63 ∧ i = n := by
  have unsigned : signed text = (digits text).map Int.ofNat := by
    unfold signed
    split
    · exact absurd (all '-' List.mem_cons_self) (by decide)
    · exact absurd (all '+' List.mem_cons_self) (by decide)
    · rfl
  rw [int, unsigned, Option.filter_eq_some_iff, Option.map_eq_some_iff]
  constructor
  · rintro ⟨⟨n,read,same⟩,fits⟩
    subst same
    have high := of_decide_eq_true (Bool.and_eq_true_iff.mp fits).2
    change (n : Int) < 2 ^ 63 at high
    exact ⟨n,read,by omega,rfl⟩
  · rintro ⟨n,read,below,same⟩
    subst same
    refine ⟨⟨n,read,rfl⟩,Bool.and_eq_true_iff.mpr ⟨decide_eq_true ?_,decide_eq_true ?_⟩⟩
    · omega
    · omega

/-- Digits end where no digit comes. -/
theorem takeWhile_digits {first rest : List Char} (all : ∀ c ∈ first, c.isDigit = true)
    (ends : Ends rest) : (first ++ rest).takeWhile Char.isDigit = first ∧
      (first ++ rest).dropWhile Char.isDigit = rest := by
  rw [List.takeWhile_append_of_pos all, List.dropWhile_append_of_pos all]
  cases rest with
  | nil => exact ⟨List.append_nil first,rfl⟩
  | cons c rest =>
    have stops : ¬ c.isDigit = true := by rw [ends c rfl]; exact Bool.false_ne_true
    rw [List.takeWhile_cons_of_neg stops, List.dropWhile_cons_of_neg stops, List.append_nil]
    exact ⟨rfl,rfl⟩

theorem dropWhile_ends (text : List Char) : Ends (text.dropWhile Char.isDigit) := by
  induction text with
  | nil => exact fun c there => nomatch there
  | cons d text ih =>
    by_cases digit : d.isDigit = true
    · rw [List.dropWhile_cons_of_pos digit]
      exact ih
    · rw [List.dropWhile_cons_of_neg digit]
      intro c there
      cases there
      exact eq_false_of_ne_true digit

theorem dash_ends (rest : List Char) : Ends ('-' :: rest) := by
  intro c there
  cases there
  decide

end Digits

section Header
variable {text rest rest' : List Char} {a b a' b' : Nat}

theorem matchRange_begins {first last : List Char}
    (whole : dropLowercased "bytes=".toList text = some (first ++ '-' :: (last ++ rest)))
    (first_digits : ∀ c ∈ first, c.isDigit = true) (last_digits : ∀ c ∈ last, c.isDigit = true)
    (ends : Ends rest) : matchRange text = some (first, last) := by
  obtain ⟨front,behind⟩ := takeWhile_digits first_digits (dash_ends (last ++ rest))
  rw [matchRange, whole, Option.bind_eq_bind, Option.bind_some, behind, front]
  exact congrArg (fun part => some (first, part)) (takeWhile_digits last_digits ends).1

theorem matchRange_some {first last : List Char} (found : matchRange text = some (first, last)) :
    ∃ rest, dropLowercased "bytes=".toList text = some (first ++ '-' :: (last ++ rest)) ∧
      Ends rest := by
  unfold matchRange at found
  obtain ⟨after,start,found⟩ := Option.bind_eq_some_iff.mp found
  split at found
  case h_1 rest behind =>
    cases found
    refine ⟨rest.dropWhile Char.isDigit,?_,dropWhile_ends rest⟩
    rw [start, List.takeWhile_append_dropWhile, ← behind, List.takeWhile_append_dropWhile]
  case h_2 => cases found

theorem begins_unique (begins : Begins text a b rest) (begins' : Begins text a' b' rest') :
    a = a' ∧ b = b' ∧ rest = rest' := by
  obtain ⟨first,last,whole,read_first,read_last,ends⟩ := begins
  obtain ⟨first',last',whole',read_first',read_last',ends'⟩ := begins'
  have found := matchRange_begins whole (digits_some read_first).2 (digits_some read_last).2 ends
  have found' := matchRange_begins whole' (digits_some read_first').2 (digits_some read_last').2
    ends'
  rw [found] at found'
  cases found'
  rw [whole] at whole'
  have same := List.append_cancel_left (Option.some.inj whole')
  have same_rest := List.append_cancel_left (List.cons.inj same).2
  rw [read_first] at read_first'
  rw [read_last] at read_last'
  exact ⟨Option.some.inj read_first',Option.some.inj read_last',same_rest⟩

variable {request : Request} {others : List (List Char)}

/-- The header's numbers, where they are there and fit. -/
theorem rangeHeader_begins (header : request.headers.lookup "range".toList = some (text :: others))
    (begins : Begins text a b rest) (fits : a < 2 ^ 63) (fits' : b < 2 ^ 63) :
    rangeHeader request = .ok (some ((a : Int), (b : Int))) := by
  obtain ⟨first,last,whole,read_first,read_last,ends⟩ := begins
  have first_digits := (digits_some read_first).2
  have last_digits := (digits_some read_last).2
  have found := matchRange_begins whole first_digits last_digits ends
  have start := (int_digits_iff first_digits).mpr ⟨a,read_first,fits,rfl⟩
  have stop := (int_digits_iff last_digits).mpr ⟨b,read_last,fits',rfl⟩
  rw [rangeHeader, header]
  dsimp only
  rw [found]
  dsimp only
  rw [start, stop]

/-- Without such numbers the header is refused. -/
theorem rangeHeader_refused
    (header : request.headers.lookup "range".toList = some (text :: others))
    (none_fit : ∀ a b rest, Begins text a b rest → ¬ (a < 2 ^ 63 ∧ b < 2 ^ 63)) :
    rangeHeader request = .error (.throws .invalidRangeHeader) := by
  rw [rangeHeader, header]
  dsimp only
  split
  case h_1 => rfl
  case h_2 first last found =>
    split
    case h_1 i j start stop =>
      obtain ⟨first_digits,last_digits⟩ := matchRange_digits found
      obtain ⟨rest,whole,ends⟩ := matchRange_some found
      obtain ⟨a,read_first,fits,_⟩ := (int_digits_iff first_digits).mp start
      obtain ⟨b,read_last,fits',_⟩ := (int_digits_iff last_digits).mp stop
      exact absurd ⟨fits,fits'⟩ (none_fit a b rest ⟨first,last,whole,read_first,read_last,ends⟩)
    case h_2 => rfl

end Header

section Answer
variable {body : Data} {path : List Char} {file : Option (List Char)} {a b : Nat}

/-- The bytes from the second number to the first. -/
theorem partialResponse_eq (fits : a + 1 < 2 ^ 63) (fits' : b < 2 ^ 63) :
    partialResponse body path file ((a : Int), (b : Int)) =
      if a + 1 ≤ body.length then
        if b ≤ a + 1 then
          .ok ⟨200,[("Content-Range".toList,[contentRange b a body.length]),
            ("Content-Type".toList,[contentType path])],some ((body.take (a + 1)).drop b),file⟩
        else .error (.trap .index)
      else .ok ⟨418,[],none,none⟩ := by
  have length : checked ((a : Int) - b) = .ok ((a : Int) - b) := checked_fits (by omega) (by omega)
  have count : checked ((a : Int) - b + 1) = .ok ((a : Int) - b + 1) :=
    checked_fits (by omega) (by omega)
  have sum : (b : Int) + ((a : Int) - b + 1) = ((a + 1 : Nat) : Int) := by omega
  have upTo : checked ((a + 1 : Nat) : Int) = .ok ((a + 1 : Nat) : Int) :=
    checked_fits (by omega) (by omega)
  unfold partialResponse
  dsimp only
  rw [bind_ready length, bind_ready count, sum, bind_ready upTo]
  by_cases inside : a + 1 ≤ body.length
  · rw [if_pos (by exact_mod_cast inside), if_pos inside, subdata]
    by_cases order : b ≤ a + 1
    · rw [if_pos (by exact_mod_cast order), if_pos order]
      rfl
    · rw [if_neg (by exact_mod_cast order), if_neg order]
      rfl
  · rw [if_neg (by exact_mod_cast inside), if_neg inside]

/-- The first number is the greatest of all: one more than it does not fit. -/
theorem partialResponse_overflow (largest : a + 1 = 2 ^ 63) (fits' : b < 2 ^ 63) :
    partialResponse body path file ((a : Int), (b : Int)) = .error (.trap .overflow) := by
  have length : checked ((a : Int) - b) = .ok ((a : Int) - b) := checked_fits (by omega) (by omega)
  have overflows : ∀ i : Int, 2 ^ 63 ≤ i → checked i = .error (.trap .overflow) :=
    fun i large => if_neg fun met => absurd met.2 (by omega)
  unfold partialResponse
  dsimp only
  rw [bind_ready length]
  by_cases zero : b = 0
  · exact bind_halted (overflows _ (by omega))
  · have count : checked ((a : Int) - b + 1) = .ok ((a : Int) - b + 1) :=
      checked_fits (by omega) (by omega)
    rw [bind_ready count]
    exact bind_halted (overflows _ (by omega))

variable {text rest : List Char}

theorem satisfiable_begins (begins : Begins text a b rest) {length a' b' : Nat} :
    Satisfiable text length a' b' ↔ a' = a ∧ b' = b ∧ rest = [] ∧ a ≤ b ∧ b < length := by
  constructor
  · rintro ⟨other,order,inside⟩
    obtain ⟨rfl,rfl,rfl⟩ := begins_unique other begins
    exact ⟨rfl,rfl,rfl,order,inside⟩
  · rintro ⟨rfl,rfl,rfl,order,inside⟩
    exact ⟨begins,order,inside⟩

/-- Where the numbers are those of a range that is there, its bytes are owed, else an error. -/
theorem served_begins (begins : Begins text a b rest) (answer : Except Stop Response) :
    RangeServed text body answer ↔
      if rest = [] ∧ a ≤ b ∧ b < body.length then
        ∃ response, answer = .ok response ∧ response.body = some ((body.take (b + 1)).drop a) ∧
          response.headers.lookup "Content-Range".toList = some [contentRange a b body.length]
      else ∃ response, answer = .ok response ∧ 400 ≤ response.statusCode := by
  simp only [RangeServed, satisfiable_begins begins]
  split
  case isTrue there =>
    constructor
    · exact fun served => served.1 a b ⟨rfl,rfl,there⟩
    · intro served
      refine ⟨fun a' b' same => ?_,fun missing => absurd ⟨a,b,rfl,rfl,there⟩ missing⟩
      rw [same.1, same.2.1]
      exact served
  case isFalse missing =>
    constructor
    · exact fun served => served.2 fun ⟨_,_,there⟩ => missing there.2.2
    · exact fun served => ⟨fun _ _ there => absurd there.2.2 missing,fun _ => served⟩

/-- The swapped numbers give the range only where it is one byte. -/
theorem partialResponse_served (size : body.length < 2 ^ 63) (fits : a < 2 ^ 63)
    (fits' : b < 2 ^ 63) (begins : Begins text a b rest) :
    RangeServed text body (partialResponse body path file ((a : Int), (b : Int))) ↔
      body.length ≤ a ∧ a + 1 < 2 ^ 63 ∨ a = b ∧ a < body.length ∧ rest = [] := by
  rw [served_begins begins]
  by_cases largest : a + 1 = 2 ^ 63
  · rw [partialResponse_overflow largest fits']
    refine iff_of_false ?_ (by omega)
    split
    · rintro ⟨response,answered,_⟩
      cases answered
    · rintro ⟨response,answered,_⟩
      cases answered
  · rw [partialResponse_eq (by omega) fits']
    by_cases inside : a + 1 ≤ body.length
    · rw [if_pos inside]
      by_cases order : b ≤ a + 1
      · rw [if_pos order]
        split
        case isTrue range =>
          constructor
          · rintro ⟨response,answered,bytes,_⟩
            cases answered
            refine Or.inr ⟨?_,by omega,range.1⟩
            have lengths := congrArg List.length (Option.some.inj bytes)
            rw [List.length_drop, List.length_take, List.length_drop, List.length_take] at lengths
            omega
          · rintro (beyond | ⟨rfl,_,_⟩)
            · omega
            · exact ⟨_,rfl,rfl,rfl⟩
        case isFalse other =>
          refine iff_of_false ?_ fun met => other ?_
          · rintro ⟨response,answered,error⟩
            cases answered
            change (400 : Int) ≤ 200 at error
            omega
          · rcases met with beyond | ⟨rfl,below,ended⟩
            · omega
            · exact ⟨ended,le_rfl,below⟩
      · rw [if_neg order]
        refine iff_of_false ?_ (by omega)
        split
        · rintro ⟨response,answered,_⟩
          cases answered
        · rintro ⟨response,answered,_⟩
          cases answered
    · rw [if_neg inside, if_neg (by omega)]
      exact iff_of_true ⟨_,rfl,by decide⟩ (Or.inl (by omega))

end Answer

/-- A range header is answered right exactly if it has no two numbers that fit at its start, or the
    first of them is beyond the data, or the text is a range of one byte. -/
theorem range_served_iff {request : Request} {text : List Char} {others : List (List Char)}
    {body : Data} (header : request.headers.lookup "range".toList = some (text :: others))
    (size : body.length < 2 ^ 63) (headers : Fields) (path : List Char)
    (hint file : Option (List Char)) :
    RangeServed text body (respond request headers path hint body file) ↔
      ∀ a b rest, Begins text a b rest → a < 2 ^ 63 → b < 2 ^ 63 →
        body.length ≤ a ∧ a + 1 < 2 ^ 63 ∨ a = b ∧ a < body.length ∧ rest = [] := by
  by_cases numbers : ∃ a b rest, Begins text a b rest ∧ a < 2 ^ 63 ∧ b < 2 ^ 63
  · obtain ⟨a,b,rest,begins,fits,fits'⟩ := numbers
    have only : (∀ a b rest, Begins text a b rest → a < 2 ^ 63 → b < 2 ^ 63 →
        body.length ≤ a ∧ a + 1 < 2 ^ 63 ∨ a = b ∧ a < body.length ∧ rest = []) ↔
          body.length ≤ a ∧ a + 1 < 2 ^ 63 ∨ a = b ∧ a < body.length ∧ rest = [] := by
      refine ⟨fun all => all a b rest begins fits fits',fun met a' b' rest' begins' _ _ => ?_⟩
      obtain ⟨rfl,rfl,rfl⟩ := begins_unique begins begins'
      exact met
    have answer : respond request headers path hint body file =
        partialResponse body path file ((a : Int), (b : Int)) := by
      rw [respond, rangeHeader_begins header begins fits fits']
    rw [only, answer]
    exact partialResponse_served size fits fits' begins
  · have none_fit : ∀ a b rest, Begins text a b rest → ¬ (a < 2 ^ 63 ∧ b < 2 ^ 63) :=
      fun a b rest begins fit => numbers ⟨a,b,rest,begins,fit⟩
    have answer : respond request headers path hint body file =
        .ok ⟨400,[],some "Invalid Range Header".toUTF8.data.toList,none⟩ := by
      rw [respond, rangeHeader_refused header none_fit]
    rw [answer]
    refine iff_of_true ⟨?_,fun _ => ⟨_,rfl,le_rfl⟩⟩ fun a b rest begins fits fits' => ?_
    · rintro a b ⟨begins,order,inside⟩
      exact absurd ⟨by omega,by omega⟩ (none_fit a b [] begins)
    · exact absurd ⟨fits,fits'⟩ (none_fit a b rest begins)

/-- A request for a range, and nothing else. -/
def rangeRequest (text : List Char) : Request :=
  ⟨"GET".toList,"/a".toList,[],[],[("range".toList,[text])]⟩

theorem one_byte_served : RangeServed "bytes=1-1".toList [7,8,9]
      (respond (rangeRequest "bytes=1-1".toList) [] "/a".toList none [7,8,9] none) ↔
    ∀ a b rest, Begins "bytes=1-1".toList a b rest → a < 2 ^ 63 → b < 2 ^ 63 →
      3 ≤ a ∧ a + 1 < 2 ^ 63 ∨ a = b ∧ a < 3 ∧ rest = [] := by
  have header : (rangeRequest "bytes=1-1".toList).headers.lookup "range".toList =
      some ["bytes=1-1".toList] := rfl
  exact range_served_iff header (by decide) [] "/a".toList none none

/-- The first two of three bytes: none are sent. -/
theorem two_bytes_not_served : ¬ ∀ text body,
    RangeServed text body (respond (rangeRequest text) [] "/a".toList none body none) := by
  intro all
  have begins : Begins "bytes=0-1".toList 0 1 [] :=
    ⟨['0'],['1'],by decide,by decide,by decide,fun _ there => nomatch there⟩
  obtain ⟨response,answered,bytes,_⟩ :=
    (all "bytes=0-1".toList [7,8,9]).1 0 1 ⟨begins,by decide,by decide⟩
  have empty : respond (rangeRequest "bytes=0-1".toList) [] "/a".toList none [7,8,9] none =
      .ok ⟨200,[("Content-Range".toList,[contentRange 1 0 3]),
        ("Content-Type".toList,[contentType "/a".toList])],some [],none⟩ := by decide
  rw [empty] at answered
  cases answered
  cases bytes

end ByteRanges
