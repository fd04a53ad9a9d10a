import AltMessenger.HTTPRequest
import AltMessenger.LineExpressions

/-!
The routes of the local HTTP server. The pattern of a route is rewritten, segment by segment, into a
regular expression for the path, in which a literal stands as it is.
-/
namespace RouteMatching
open HTTPRequest SwiftText SwiftRuntime LineExpressions

structure NSRegularExpression where
  numberOfGroups : Nat
  /-- the texts of the groups, for a match that begins where the text does -/
  firstMatch : List Char → Option (List (List Char))

/-- The characters that are quoted in an expression where they stand for themselves. -/
def isMeta (c : Char) : Bool := "*?+[()\x7b\x7d^$|\\.".toList.contains c

/-- An expression behind its circumflex, of characters, dots and the two groups of a route. -/
def parse : List Char → Option (List Atom)
  | ['$'] => some []
  | '(' :: '[' :: '^' :: '/' :: ']' :: '+' :: ')' :: text =>
    (parse text).map (.group (fun c => c ≠ '/') 1 :: ·)
  | '(' :: '.' :: '*' :: ')' :: text =>
    (parse text).map (.group (fun c => !isTerminator c) 0 :: ·)
  | '.' :: text => (parse text).map (.any :: ·)
  | c :: text => if isMeta c then none else (parse text).map (.char c :: ·)
  | [] => none

def isGroup : Atom → Bool
  | .group _ _ => true
  | _ => false

/-- `NSRegularExpression(pattern:)`; what it makes of other expressions is a parameter. -/
def compile (other : List Char → Option NSRegularExpression) (pattern : List Char) :
    Option NSRegularExpression :=
  match pattern with
  | '^' :: text =>
    match parse text with
    | some atoms => some ⟨atoms.countP isGroup,run atoms⟩
    | none => other pattern
  | _ => other pattern

structure BRHTTPRoutePair where
  method : List Char
  path : List Char
  regex : NSRegularExpression
  captureGroups : List (List Char)

/-- The body of the loop over the parts of a pattern. -/
def readPart (state : List (List Char) × List (List Char)) (part : List Char) :
    List (List Char) × List (List Char) :=
  let (reParts, captureGroups) := state
  if part.head? = some '(' && part.getLast? = some ')' then
    if part.dropLast.getLast? = some '*' then
      (reParts ++ ["(.*)".toList], captureGroups ++ [(part.drop 1).dropLast.dropLast])
    else (reParts ++ ["([^/]+)".toList], captureGroups ++ [(part.drop 1).dropLast])
  else (reParts ++ [part], captureGroups)

def withoutSlash (path : List Char) : List Char :=
  if path.getLast? = some '/' then path.dropLast else path

def routePath (p : List Char) : List Char :=
  withoutSlash (if p.head? = some '/' then p else '/' :: p)

/-- `BRHTTPRoutePair.init(method:path:)` -/
def BRHTTPRoutePair.make (other : List Char → Option NSRegularExpression) (m p : List Char) :
    Except Trap BRHTTPRoutePair :=
  let path := routePath p
  let (reParts, captureGroups) := (components path '/').foldl readPart ([], [])
  let re := '^' :: (joined reParts '/' ++ ['$'])
  match compile other re with
  | some regex => .ok { method := m.map Char.toUpper, path, regex, captureGroups }
  -- `fatalError`
  | none => .error .assertion

/-- Each name with its text, a value more for a name that was there. -/
def bindAll (found : Fields) (keys captured : List (List Char)) : Fields :=
  (keys.zip captured).foldl (fun found (key, captured) => Fields.append key captured found) found

/-- `BRHTTPRoutePair.match` -/
def BRHTTPRoutePair.matching (pair : BRHTTPRoutePair) (request : Request) : Option Fields :=
  if request.method.map Char.toUpper ≠ pair.method then none
  else
    match pair.regex.firstMatch (withoutSlash request.path) with
    | some captured =>
      if pair.regex.numberOfGroups = pair.captureGroups.length then
        some (bindAll [] pair.captureGroups captured)
      else none
    | none => none

/-- A request as it is received: the characters of its path are bytes above the return, each of
    them one for Swift and for the expression. -/
structure Received where
  request : Request
  bytes : ∀ c ∈ request.path, 13 < c.toNat ∧ c.toNat < 256

inductive Segment where
  | literal (text : List Char)
  | capture (name : List Char)
  | wildcard (name : List Char)
  deriving DecidableEq, Repr

/-- What a part of a pattern stands for. -/
def segmentOf (part : List Char) : Segment :=
  if part.head? = some '(' && part.getLast? = some ')' then
    if part.dropLast.getLast? = some '*' then .wildcard (part.drop 1).dropLast.dropLast
    else .capture (part.drop 1).dropLast
  else .literal part

def segments (pattern : List Char) : List Segment :=
  (components (routePath pattern) '/').map segmentOf

/-- The names of a pattern with what they cover of a path, part by part: a literal is the same, a
    capture is not empty, and a wildcard is the rest. -/
def covers : List Segment → List (List Char) → Option (List (List Char × List Char))
  | [], [] => some []
  | .literal text :: segments, part :: parts =>
    if part = text then covers segments parts else none
  | .capture name :: segments, part :: parts =>
    if part ≠ [] then (covers segments parts).map ((name, part) :: ·) else none
  | [.wildcard name], part :: parts => some [(name, joined (part :: parts) '/')]
  | _, _ => none

def bound (found : Fields) (covered : List (List Char × List Char)) : Fields :=
  covered.foldl (fun found (name, text) => Fields.append name text found) found

/-- The route is made, and matches exactly the paths that its pattern covers, with the texts that
    the names cover. -/
def MatchesExactly (other : List Char → Option NSRegularExpression) (m pattern : List Char)
    (received : Received) : Prop :=
  ∃ pair, BRHTTPRoutePair.make other m pattern = .ok pair ∧
    pair.matching received.request =
      if received.request.method.map Char.toUpper = m.map Char.toUpper then
        (covers (segments pattern)
          (components (withoutSlash received.request.path) '/')).map (bound [])
      else none

/-- No literal has a character that an expression gives a meaning. -/
def PlainLiterals (segments : List Segment) : Prop :=
  ∀ text, .literal text ∈ segments → ∀ c ∈ text, isMeta c = false

/-- What a segment covers in an expression. -/
def Segment.Piece : Segment → List Char → Prop
  | .literal text, piece => piece = text
  | .capture _, piece => (∀ c ∈ piece, c ≠ '/') ∧ piece ≠ []
  | .wildcard _, piece => ∀ c ∈ piece, isTerminator c = false

/-- The paths that the expression of a pattern matches. -/
def Fits : List Segment → List Char → Prop
  | [], _ => False
  | [segment], path => ∃ piece rest, path = piece ++ rest ∧ segment.Piece piece ∧ atEnd rest = true
  | segment :: segments, path =>
    ∃ piece rest, path = piece ++ '/' :: rest ∧ segment.Piece piece ∧ Fits segments rest

/-- The path does not end in a line terminator behind the last literal and has none where a wildcard
    covers the rest; and behind a wildcard no segment is found again. -/
def Separate : List Segment → List Char → Prop
  | [], _ => True
  | [.literal text], path => ∀ c, isTerminator c = true → path ≠ text ++ [c]
  | [.capture _], _ => True
  | [.wildcard _], path => ∀ c ∈ path, isTerminator c = false
  | .wildcard name :: segments, path => ¬ Fits (.wildcard name :: segments) path
  | segment :: segments, path =>
    ∀ piece rest, path = piece ++ '/' :: rest → segment.Piece piece → Separate segments rest

def Segment.atoms : Segment → List Atom
  | .literal text => text.map .char
  | .capture _ => [.group (fun c => c ≠ '/') 1]
  | .wildcard _ => [.group (fun c => !isTerminator c) 0]

/-- The expression of a pattern: slashes between the expressions of its segments. -/
def atoms : List Segment → List Atom
  | [] => []
  | [segment] => segment.atoms
  | segment :: segments => segment.atoms ++ .char '/' :: atoms segments

/-- What a segment is in the text of an expression. -/
def Segment.spelled : Segment → List Char
  | .literal text => text
  | .capture _ => "([^/]+)".toList
  | .wildcard _ => "(.*)".toList

def Segment.name : Segment → Option (List Char)
  | .literal _ => none
  | .capture name => some name
  | .wildcard name => some name

section Languages
variable {segment next : Segment} {segments : List Segment} {path : List Char}

theorem piece_isSome_iff (segment : Segment) (rest : List Atom) (path : List Char) :
    (run (segment.atoms ++ rest) path).isSome ↔
      ∃ piece behind, path = piece ++ behind ∧ segment.Piece piece ∧ (run rest behind).isSome := by
  cases segment with
  | literal text =>
    rw [Segment.atoms, literal_isSome_iff]
    constructor
    · rintro ⟨behind,same,found⟩
      exact ⟨text,behind,same,rfl,found⟩
    · rintro ⟨piece,behind,same,rfl,found⟩
      exact ⟨behind,same,found⟩
  | capture name =>
    rw [Segment.atoms, List.singleton_append, group_isSome_iff]
    simp only [Segment.Piece, decide_eq_true_eq, Nat.one_le_iff_ne_zero, ne_eq,
      List.length_eq_zero_iff, and_assoc]
  | wildcard name =>
    rw [Segment.atoms, List.singleton_append, group_isSome_iff]
    simp only [Segment.Piece, Bool.not_eq_true', Nat.zero_le, true_and]

theorem slash_isSome_iff (rest : List Atom) (path : List Char) :
    (run (.char '/' :: rest) path).isSome ↔
      ∃ behind, path = '/' :: behind ∧ (run rest behind).isSome :=
  @literal_isSome_iff rest ['/'] path

/-- The expression of a pattern matches the paths that fit it. -/
theorem fits_iff (some_segment : segments ≠ []) (path : List Char) :
    (run (atoms segments) path).isSome ↔ Fits segments path := by
  induction segments generalizing path with
  | nil => exact absurd rfl some_segment
  | cons segment segments ih =>
    cases segments with
    | nil =>
      rw [atoms, ← List.append_nil segment.atoms, piece_isSome_iff]
      have ends (behind : List Char) : (run [] behind).isSome ↔ atEnd behind = true := by
        rw [run]
        cases atEnd behind <;> decide
      simp only [ends]
      exact Iff.rfl
    | cons next segments =>
      rw [atoms, piece_isSome_iff]
      · constructor
        · rintro ⟨piece,behind,same,covered,found⟩
          obtain ⟨rest,slash,found⟩ := (slash_isSome_iff _ behind).mp found
          exact ⟨piece,rest,same.trans (congrArg (piece ++ ·) slash),covered,
            (ih (List.cons_ne_nil _ _) rest).mp found⟩
        · rintro ⟨piece,rest,same,covered,fits⟩
          exact ⟨piece,'/' :: rest,same,covered,(slash_isSome_iff _ _).mpr
            ⟨rest,rfl,(ih (List.cons_ne_nil _ _) rest).mpr fits⟩⟩
      · exact List.cons_ne_nil _ _

end Languages

section Coverings
variable {found : Fields} {segment next : Segment} {segments : List Segment}
  {path name text first rest : List Char}

theorem append_value {name value value' : List Char} {found : Fields}
    (same : Fields.append name value found = Fields.append name value' found) : value = value' := by
  induction found with
  | nil =>
    have lists := (Prod.mk.inj (List.cons_eq_cons.mp same).1).2
    exact (List.cons_eq_cons.mp lists).1
  | cons field found ih =>
    obtain ⟨other,values⟩ := field
    unfold Fields.append at same
    split at same
    case isTrue =>
      have lists := (Prod.mk.inj (List.cons_eq_cons.mp same).1).2
      exact (List.cons_eq_cons.mp (List.append_cancel_left lists)).1
    case isFalse => exact ih (List.cons_eq_cons.mp same).2

theorem covers_nil (segment : Segment) (segments : List Segment) :
    covers (segment :: segments) [] = none := by
  cases segment <;> cases segments <;> rfl

theorem covers_empty (parts : List (List Char)) (some_part : parts ≠ []) :
    covers [] parts = none := by
  cases parts with
  | nil => exact absurd rfl some_part
  | cons part parts => rfl

theorem components_some (path : List Char) : components path '/' ≠ [] :=
  List.splitOn_ne_nil '/' path

theorem run_slash (expression : List Atom) (path : List Char) :
    run (.char '/' :: expression) ('/' :: path) = run expression path := by
  rw [run]
  exact if_pos rfl

/-- The end is not before a front that is no terminator. -/
theorem run_end_none {last : List Char} (some_left : last ≠ [])
    (plain : ∀ c ∈ last, isTerminator c = false) (rest : List Char) :
    run [] (last ++ rest) = none := by
  cases last with
  | nil => exact absurd rfl some_left
  | cons c last =>
    have outside := plain c List.mem_cons_self
    rw [run, List.cons_append]
    cases both : last ++ rest with
    | nil =>
      have ends : atEnd [c] = false := outside
      rw [ends]
      rfl
    | cons d more => rfl

theorem literal_last (no_slash : '/' ∉ text) (path : List Char) :
    (run (atoms [.literal text]) path).map (bindAll found []) =
        (covers [.literal text] (components path '/')).map (bound found) ↔
      Separate [.literal text] path := by
  have covered : covers [.literal text] (components path '/') =
      if path = text then some [] else none := by
    rcases separator_first path '/' with none_there | ⟨first,rest,parts,before⟩
    · rw [components_single none_there]
      rfl
    · have other : path ≠ text := by
        rintro rfl
        rw [parts] at no_slash
        exact no_slash (List.mem_append_right _ List.mem_cons_self)
      rw [if_neg other, parts, components_first before, covers,
        covers_empty _ (components_some rest), ite_self]
  rw [covered]
  by_cases same : path = text
  · subst same
    refine iff_of_true ?_ fun c _ longer => ?_
    · rw [if_pos rfl, atoms, Segment.atoms, ← List.append_nil (path.map Atom.char), literal_run,
        if_pos List.prefix_rfl, List.drop_length]
      rfl
    · have lengths := congrArg List.length longer
      rw [List.length_append, List.length_singleton] at lengths
      omega
  · rw [if_neg same, Option.map_none, Option.map_eq_none_iff, ← Option.not_isSome_iff_eq_none,
      fits_iff (List.cons_ne_nil _ _)]
    constructor
    · intro unfit c ends longer
      exact unfit ⟨text,[c],longer,rfl,ends⟩
    · rintro separate ⟨piece,behind,parts,rfl,ends⟩
      match behind, ends with
      | [], _ => exact same (by rw [parts, List.append_nil])
      | [c], ends => exact separate c ends parts

/-- A capture covers all up to the next slash, where a slash or the end has to follow. -/
theorem capture_run {expression : List Atom} (before : '/' ∉ first)
    (follows : rest = [] ∨ ∃ behind, rest = '/' :: behind)
    (asked : expression = [] ∨ ∃ further, expression = .char '/' :: further) :
    run (.group (fun c => c ≠ '/') 1 :: expression) (first ++ rest) =
      if 1 ≤ first.length then (run expression rest).map (first :: ·) else none := by
  have plain : ∀ c ∈ first, c ≠ '/' := fun c there slash => before (slash ▸ there)
  refine group_all (fun c there => decide_eq_true (plain c there)) ?_ ?_
  · rcases follows with rfl | ⟨behind,rfl⟩ <;> rfl
  · intro never front last parts some_left
    obtain ⟨c,more,rfl⟩ := List.exists_cons_of_ne_nil some_left
    rcases asked with rfl | ⟨further,rfl⟩
    · rcases follows with rfl | ⟨behind,rfl⟩
      · cases never
      · rw [run, List.cons_append]
        cases both : more ++ '/' :: behind with
        | nil => exact absurd both (List.append_ne_nil_of_right_ne_nil _ (List.cons_ne_nil _ _))
        | cons d others => rfl
    · rw [List.cons_append, run]
      refine if_neg (plain c ?_)
      rw [parts]
      exact List.mem_append_right _ List.mem_cons_self

theorem capture_last (path : List Char) :
    (run (atoms [.capture name]) path).map (bindAll found [name]) =
      (covers [.capture name] (components path '/')).map (bound found) := by
  rcases separator_first path '/' with none_there | ⟨first,rest,parts,before⟩
  · have matched := capture_run none_there (Or.inl rfl) (Or.inl rfl)
    rw [List.append_nil] at matched
    rw [components_single none_there, atoms, Segment.atoms, matched, covers]
    by_cases empty : path = []
    · rw [empty]
      rfl
    · have long : 1 ≤ path.length := List.length_pos_iff.mpr empty
      rw [if_pos long, if_pos empty]
      rfl
  · have matched := capture_run before (Or.inr ⟨rest,rfl⟩) (Or.inl rfl)
    have never : run [] ('/' :: rest) = none := by
      cases rest <;> rfl
    rw [never, Option.map_none, ite_self] at matched
    rw [parts, components_first before, atoms, Segment.atoms, matched, covers,
      covers_empty _ (components_some rest)]
    split <;> rfl

/-- A path up to its first line terminator. -/
theorem first_terminator (path : List Char) : ∃ front behind, path = front ++ behind ∧
    (∀ c ∈ front, isTerminator c = false) ∧
      (behind = [] ∨ ∃ c rest, behind = c :: rest ∧ isTerminator c = true) := by
  induction path with
  | nil => exact ⟨[],[],rfl,fun _ there => absurd there List.not_mem_nil,Or.inl rfl⟩
  | cons c path ih =>
    cases ends : isTerminator c with
    | true => exact ⟨[],c :: path,rfl,fun _ there => absurd there List.not_mem_nil,
        Or.inr ⟨c,path,rfl,ends⟩⟩
    | false =>
      obtain ⟨front,behind,parts,plain,follows⟩ := ih
      refine ⟨c :: front,behind,by rw [parts, List.cons_append],?_,follows⟩
      intro d there
      rcases List.mem_cons.mp there with same | later
      · exact same ▸ ends
      · exact plain d later

theorem wildcard_last (path : List Char) :
    (run (atoms [.wildcard name]) path).map (bindAll found [name]) =
        (covers [.wildcard name] (components path '/')).map (bound found) ↔
      Separate [.wildcard name] path := by
  have covered : covers [.wildcard name] (components path '/') = some [(name,path)] := by
    obtain ⟨part,parts,cut⟩ := List.exists_cons_of_ne_nil (components_some path)
    have whole : joined (components path '/') '/' = path := List.intercalate_splitOn '/'
    rw [cut] at whole ⊢
    rw [covers, whole]
  obtain ⟨front,behind,parts,plain,follows⟩ := first_terminator path
  have matched : run [.group (fun c => !isTerminator c) 0] path =
      (run [] behind).map (front :: ·) := by
    rw [parts, group_all (fun c there => by rw [plain c there]; rfl), if_pos (Nat.zero_le _)]
    · rcases follows with rfl | ⟨c,rest,rfl,ends⟩
      · rfl
      · rw [List.head?_cons, Option.all_some, ends]
        rfl
    · rintro - first last same some_left
      refine run_end_none some_left (fun c there => plain c ?_) behind
      rw [same]
      exact List.mem_append_right _ there
  rw [covered, atoms, Segment.atoms, matched]
  rcases follows with rfl | ⟨c,rest,rfl,ends⟩
  · refine iff_of_true ?_ fun c there => plain c ?_
    · rw [parts, List.append_nil]
      rfl
    · rwa [parts, List.append_nil] at there
  · refine iff_of_false ?_ fun separate => ?_
    · intro same
      cases rest with
      | nil =>
        have single : run [] [c] = some [] := by
          rw [run]
          exact if_pos ends
        rw [single] at same
        have values := append_value (Option.some.inj same)
        rw [parts] at values
        have lengths := congrArg List.length values
        rw [List.length_append, List.length_singleton] at lengths
        omega
      | cons d rest => cases same
    · have there : c ∈ path := by
        rw [parts]
        exact List.mem_append_right _ List.mem_cons_self
      rw [separate c there] at ends
      cases ends

theorem literal_further (no_slash : '/' ∉ text) (next : Segment) (segments : List Segment)
    (first rest : List Char) (before : '/' ∉ first) :
    run (atoms (.literal text :: next :: segments)) (first ++ '/' :: rest) =
      if first = text then run (atoms (next :: segments)) rest else none := by
  rw [atoms, Segment.atoms]
  · by_cases same : first = text
    · subst same
      rw [if_pos rfl, literal_run, if_pos ⟨_,rfl⟩, List.drop_left, run_slash]
    · rw [if_neg same, ← Option.not_isSome_iff_eq_none, literal_isSome_iff]
      rintro ⟨behind,parts,found⟩
      obtain ⟨more,slash,-⟩ := (slash_isSome_iff _ behind).mp found
      rw [slash] at parts
      exact same (first_unique before no_slash parts).1
  · exact List.cons_ne_nil _ _

theorem capture_further (next : Segment) (segments : List Segment) (first rest : List Char)
    (before : '/' ∉ first) :
    run (atoms (.capture name :: next :: segments)) (first ++ '/' :: rest) =
      if first ≠ [] then (run (atoms (next :: segments)) rest).map (first :: ·) else none := by
  rw [atoms, Segment.atoms, List.singleton_append,
    capture_run before (Or.inr ⟨rest,rfl⟩) (Or.inr ⟨_,rfl⟩), run_slash]
  · by_cases empty : first = []
    · rw [empty]
      rfl
    · have long : 1 ≤ first.length := List.length_pos_iff.mpr empty
      rw [if_pos empty, if_pos long]
  · exact List.cons_ne_nil _ _

/-- Further segments need a slash. -/
theorem run_further_none (segment next : Segment) (segments : List Segment)
    (none_there : '/' ∉ path) : run (atoms (segment :: next :: segments)) path = none := by
  rw [atoms, ← Option.not_isSome_iff_eq_none, piece_isSome_iff]
  · rintro ⟨piece,behind,parts,-,found⟩
    obtain ⟨more,slash,-⟩ := (slash_isSome_iff _ behind).mp found
    rw [parts, slash] at none_there
    exact none_there (List.mem_append_right _ List.mem_cons_self)
  · exact List.cons_ne_nil _ _

theorem covers_further_none (segment next : Segment) (segments : List Segment) (part : List Char) :
    covers (segment :: next :: segments) [part] = none := by
  cases segment with
  | literal text =>
    rw [covers, covers_nil, ite_self]
  | capture name =>
    rw [covers, covers_nil]
    split <;> rfl
  | wildcard name => rfl

theorem covers_wildcard_none (next : Segment) (segments : List Segment)
    (parts : List (List Char)) : covers (.wildcard name :: next :: segments) parts = none := by
  cases parts <;> rfl

/-- Where there is no slash, neither the expression nor the pattern has further segments. -/
theorem further_none {α : Type} (segment next : Segment) (segments : List Segment)
    (none_there : '/' ∉ path) (f : List (List Char) → α) (g : List (List Char × List Char) → α) :
    (run (atoms (segment :: next :: segments)) path).map f =
      (covers (segment :: next :: segments) (components path '/')).map g := by
  rw [run_further_none _ _ _ none_there, components_single none_there, covers_further_none]
  rfl

/-- Segment by segment, the expression gives each name what it covers exactly where the path is one
    that the pattern tells apart. -/
theorem separate_iff (some_segment : segments ≠ [])
    (no_slash : ∀ text, .literal text ∈ segments → '/' ∉ text) (found : Fields)
    (path : List Char) :
    (run (atoms segments) path).map (bindAll found (segments.filterMap Segment.name)) =
        (covers segments (components path '/')).map (bound found) ↔ Separate segments path := by
  induction segments generalizing found path with
  | nil => exact absurd rfl some_segment
  | cons segment segments ih =>
    cases segments with
    | nil =>
      cases segment with
      | literal text => exact literal_last (no_slash text List.mem_cons_self) path
      | capture name => exact iff_of_true (capture_last path) trivial
      | wildcard name => exact wildcard_last path
    | cons next segments =>
      have later := ih (List.cons_ne_nil _ _)
        fun text there => no_slash text (List.mem_cons_of_mem _ there)
      cases segment with
      | wildcard name =>
        rw [covers_wildcard_none, Option.map_none, Option.map_eq_none_iff,
          ← Option.not_isSome_iff_eq_none, fits_iff (List.cons_ne_nil _ _)]
        exact Iff.rfl
      | literal text =>
        have plain := no_slash text List.mem_cons_self
        rcases separator_first path '/' with none_there | ⟨first,rest,rfl,before⟩
        · refine iff_of_true (further_none _ _ _ none_there _ _) fun piece rest parts _ => ?_
          rw [parts] at none_there
          exact absurd (List.mem_append_right _ List.mem_cons_self) none_there
        · rw [literal_further plain _ _ _ _ before, components_first before, covers]
          by_cases same : first = text
          · rw [if_pos same, if_pos same]
            refine (later found rest).trans ⟨fun separate piece rest' parts covered => ?_,
              fun separate => separate first rest rfl same⟩
            have piece_plain : '/' ∉ piece := by
              rw [show piece = text from covered]
              exact plain
            rwa [← (first_unique before piece_plain parts).2]
          · rw [if_neg same, if_neg same]
            refine iff_of_true rfl fun piece rest' parts covered => ?_
            have covered : piece = text := covered
            subst covered
            exact absurd (first_unique before plain parts).1 same
      | capture name =>
        rcases separator_first path '/' with none_there | ⟨first,rest,rfl,before⟩
        · refine iff_of_true (further_none _ _ _ none_there _ _) fun piece rest parts _ => ?_
          rw [parts] at none_there
          exact absurd (List.mem_append_right _ List.mem_cons_self) none_there
        · rw [capture_further _ _ _ _ before, components_first before, covers]
          have unique (piece rest' : List Char)
              (parts : first ++ '/' :: rest = piece ++ '/' :: rest')
              (covered : (Segment.capture name).Piece piece) : first = piece ∧ rest = rest' :=
            first_unique before (fun slash => covered.1 '/' slash rfl) parts
          by_cases empty : first = []
          · rw [if_neg (not_not.mpr empty), if_neg (not_not.mpr empty)]
            refine iff_of_true rfl fun piece rest' parts covered => ?_
            obtain ⟨same,-⟩ := unique piece rest' parts covered
            exact absurd (same.symm.trans empty) covered.2
          · rw [if_pos empty, if_pos empty, Option.map_map, Option.map_map]
            refine (later (Fields.append name first found) rest).trans
              ⟨fun separate piece rest' parts covered => ?_,fun separate => ?_⟩
            · rwa [← (unique piece rest' parts covered).2]
            · refine separate first rest rfl ⟨fun c there slash => before ?_,empty⟩
              rwa [← slash]

end Coverings

section Expressions
variable {segments : List Segment}

theorem parse_plain {c : Char} (plain : isMeta c = false) (text : List Char) :
    parse (c :: text) = (parse text).map (.char c :: ·) := by
  have other (d : Char) (quoted : isMeta d = true) : c ≠ d := by
    rintro rfl
    rw [quoted] at plain
    cases plain
  rw [parse, if_neg (by rw [plain]; decide)]
  · exact fun same => absurd same (other '$' (by decide))
  · exact fun _ same => absurd same (other '(' (by decide))
  · exact fun _ same => absurd same (other '(' (by decide))
  · exact other '.' (by decide)

theorem parse_literal {literal : List Char} (plain : ∀ c ∈ literal, isMeta c = false)
    (text : List Char) :
    parse (literal ++ text) = (parse text).map (literal.map .char ++ ·) := by
  induction literal with
  | nil => exact Option.map_id'.symm
  | cons c literal ih =>
    rw [List.cons_append, parse_plain (plain c List.mem_cons_self),
      ih fun d there => plain d (List.mem_cons_of_mem _ there), Option.map_map]
    rfl

theorem parse_segment {segment : Segment}
    (plain : ∀ literal, segment = .literal literal → ∀ c ∈ literal, isMeta c = false)
    (text : List Char) :
    parse (segment.spelled ++ text) = (parse text).map (segment.atoms ++ ·) := by
  cases segment with
  | literal literal => exact parse_literal (plain literal rfl) text
  | capture name => rfl
  | wildcard name => rfl

/-- The text of an expression is read as the expression it was written for. -/
theorem parse_segments (some_segment : segments ≠ []) (plain : PlainLiterals segments) :
    parse (joined (segments.map Segment.spelled) '/' ++ ['$']) = some (atoms segments) := by
  induction segments with
  | nil => exact absurd rfl some_segment
  | cons segment segments ih =>
    have here (literal : List Char) (same : segment = .literal literal) :
        ∀ c ∈ literal, isMeta c = false :=
      plain literal (same ▸ List.mem_cons_self)
    cases segments with
    | nil =>
      have single : joined ([segment].map Segment.spelled) '/' = segment.spelled :=
        List.intercalate_singleton
      rw [single, parse_segment here]
      exact congrArg some (List.append_nil segment.atoms)
    | cons next segments =>
      have further : joined ((segment :: next :: segments).map Segment.spelled) '/' =
          segment.spelled ++ '/' :: joined ((next :: segments).map Segment.spelled) '/' := by
        unfold joined
        rw [List.map_cons, List.intercalate_cons_of_ne_nil (by simp), List.append_assoc]
        rfl
      have later := ih (List.cons_ne_nil _ _)
        fun text there => plain text (List.mem_cons_of_mem _ there)
      rw [further, List.append_assoc, List.cons_append, parse_segment here,
        parse_plain (by decide), later]
      rfl

theorem groups_count (segments : List Segment) :
    (atoms segments).countP isGroup = (segments.filterMap Segment.name).length := by
  have literal_none (text : List Char) : (text.map Atom.char).countP isGroup = 0 := by
    rw [List.countP_map, List.countP_eq_zero]
    exact fun c _ group => Bool.noConfusion group
  have single (segment : Segment) :
      segment.atoms.countP isGroup = ([segment].filterMap Segment.name).length := by
    cases segment with
    | literal text => exact literal_none text
    | capture name => rfl
    | wildcard name => rfl
  induction segments with
  | nil => rfl
  | cons segment segments ih =>
    cases segments with
    | nil => exact single segment
    | cons next segments =>
      rw [atoms, List.countP_append, List.countP_cons_of_neg (by decide), ih, single,
        ← List.length_append, ← List.filterMap_append, List.singleton_append]
      · exact List.cons_ne_nil _ _

end Expressions

section Routes

theorem readPart_eq (reParts captureGroups : List (List Char)) (part : List Char) :
    readPart (reParts, captureGroups) part =
      (reParts ++ [(segmentOf part).spelled], captureGroups ++ (segmentOf part).name.toList) := by
  unfold segmentOf
  dsimp only [readPart]
  split
  · split <;> rfl
  · rw [Segment.name, Option.toList_none, List.append_nil]
    rfl

/-- The loop over the parts spells their segments and keeps their names. -/
theorem readParts_eq (reParts captureGroups parts : List (List Char)) :
    parts.foldl readPart (reParts, captureGroups) =
      (reParts ++ (parts.map segmentOf).map Segment.spelled,
        captureGroups ++ (parts.map segmentOf).filterMap Segment.name) := by
  induction parts generalizing reParts captureGroups with
  | nil => simp
  | cons part parts ih =>
    rw [List.foldl_cons, readPart_eq, ih]
    cases named : (segmentOf part).name with
    | none => simp [named]
    | some name => simp [named]

theorem segments_some (pattern : List Char) : segments pattern ≠ [] := by
  unfold segments
  rw [ne_eq, List.map_eq_nil_iff]
  exact components_some _

theorem segmentOf_literal {part text : List Char} (same : segmentOf part = .literal text) :
    part = text := by
  unfold segmentOf at same
  split at same
  · split at same <;> cases same
  · exact Segment.literal.inj same

/-- A literal is a part between two slashes. -/
theorem literal_no_slash {pattern text : List Char} (there : .literal text ∈ segments pattern) :
    '/' ∉ text := by
  obtain ⟨part,among,same⟩ := List.mem_map.mp there
  rw [← segmentOf_literal same]
  exact component_no_separator among

theorem compile_parsed (other : List Char → Option NSRegularExpression) {text : List Char}
    {atoms : List Atom} (parsed : parse text = some atoms) :
    compile other ('^' :: text) = some ⟨atoms.countP isGroup,run atoms⟩ := by
  simp only [compile, parsed]

/-- A pattern of plain literals, captures and wildcards has a route. -/
theorem make_returns (other : List Char → Option NSRegularExpression) (m pattern : List Char)
    (plain : PlainLiterals (segments pattern)) :
    BRHTTPRoutePair.make other m pattern = .ok
      { method := m.map Char.toUpper,
        path := routePath pattern,
        regex := ⟨(atoms (segments pattern)).countP isGroup,run (atoms (segments pattern))⟩,
        captureGroups := (segments pattern).filterMap Segment.name } := by
  have compiled := compile_parsed other (parse_segments (segments_some pattern) plain)
  unfold segments at compiled
  unfold BRHTTPRoutePair.make
  dsimp only
  rw [readParts_eq, List.nil_append, List.nil_append]
  dsimp only
  rw [compiled]
  rfl

/-- A route that was made asks for the method, and then its expression decides. -/
theorem matching_made {other : List Char → Option NSRegularExpression} {m pattern : List Char}
    (plain : PlainLiterals (segments pattern)) {pair : BRHTTPRoutePair}
    (made : BRHTTPRoutePair.make other m pattern = .ok pair) (request : Request) :
    pair.matching request =
      if request.method.map Char.toUpper = m.map Char.toUpper then
        (run (atoms (segments pattern)) (withoutSlash request.path)).map
          (bindAll [] ((segments pattern).filterMap Segment.name))
      else none := by
  rw [make_returns other m pattern plain] at made
  obtain rfl := (Except.ok.inj made).symm
  unfold BRHTTPRoutePair.matching
  dsimp only
  by_cases same : request.method.map Char.toUpper = m.map Char.toUpper
  · rw [if_neg (not_not.mpr same), if_pos same]
    cases found : run (atoms (segments pattern)) (withoutSlash request.path) with
    | none => rfl
    | some captured =>
      dsimp only
      rw [if_pos (groups_count (segments pattern))]
      rfl
  · rw [if_pos same, if_neg same]

/-- A route matches the paths that its pattern covers exactly where the path has no line terminator
    at the end or in a wildcard, and nothing is found again behind a wildcard. -/
theorem match_exact_iff (other : List Char → Option NSRegularExpression) (m pattern : List Char)
    (plain : PlainLiterals (segments pattern)) (received : Received) :
    MatchesExactly other m pattern received ↔
      (received.request.method.map Char.toUpper = m.map Char.toUpper →
        Separate (segments pattern) (withoutSlash received.request.path)) := by
  have exact_iff := separate_iff (segments_some pattern) (fun _ => literal_no_slash) []
    (withoutSlash received.request.path)
  have made := make_returns other m pattern plain
  constructor
  · rintro ⟨pair,here,matched⟩ same
    rw [matching_made plain here, if_pos same, if_pos same] at matched
    exact exact_iff.mp matched
  · intro separate
    refine ⟨_,made,?_⟩
    rw [matching_made plain made]
    split
    case isTrue same => exact exact_iff.mpr (separate same)
    case isFalse => rfl

def get (path : List Char) : Request :=
  { method := "GET".toList,
    path,
    queryString := [],
    query := [],
    headers := [] }

theorem bytes_of_all {path : List Char}
    (all : (path.all fun c => decide (13 < c.toNat ∧ c.toNat < 256)) = true) :
    ∀ c ∈ path, 13 < c.toNat ∧ c.toNat < 256 :=
  fun c there => of_decide_eq_true (List.all_eq_true.mp all c there)

theorem one_capture_matched : MatchesExactly (fun _ => none) "GET".toList "/tx/(id)".toList
    ⟨get "/tx/7".toList,bytes_of_all (by decide)⟩ := by
  have parts : segments "/tx/(id)".toList =
      [.literal [],.literal ['t','x'],.capture ['i','d']] := by
    decide +kernel
  have plain : PlainLiterals (segments "/tx/(id)".toList) := by
    rw [parts]
    intro text there
    simp only [List.mem_cons, Segment.literal.injEq, reduceCtorEq, List.not_mem_nil,
      or_false] at there
    have all : (text.all fun c => decide (isMeta c = false)) = true := by
      rcases there with rfl | rfl <;> decide
    exact fun c among => of_decide_eq_true (List.all_eq_true.mp all c among)
  refine (match_exact_iff (fun _ => none) _ _ plain _).mpr fun _ => ?_
  rw [parts]
  exact fun _ _ _ _ _ _ _ _ => trivial

/-- The dot of a literal is every character in the expression. -/
theorem dot_matches_other : ¬ ∀ (other : List Char → Option NSRegularExpression)
    (m pattern : List Char) (received : Received), MatchesExactly other m pattern received := by
  intro exact_always
  obtain ⟨pair,made,matched⟩ := exact_always (fun _ => none) "GET".toList "/a.b".toList
    ⟨get "/axb".toList,bytes_of_all (by decide)⟩
  have found : (BRHTTPRoutePair.make (fun _ => none) "GET".toList "/a.b".toList).toOption.bind
      (·.matching (get "/axb".toList)) = some [] := by
    decide +kernel
  have covered : covers (segments "/a.b".toList)
      (components (withoutSlash "/axb".toList) '/') = none := by
    decide +kernel
  rw [made] at found
  have same : (get "/axb".toList).method.map Char.toUpper = "GET".toList.map Char.toUpper := rfl
  have none_covered : pair.matching (get "/axb".toList) = none := by
    refine matched.trans ((if_pos same).trans ?_)
    exact congrArg (Option.map (bound [])) covered
  exact absurd (none_covered.symm.trans found) (by decide)

end Routes

end RouteMatching
