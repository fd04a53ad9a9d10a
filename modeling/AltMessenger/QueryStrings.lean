import AltMessenger.PercentEscapes
import AltMessenger.SwiftRuntime
import AltMessenger.SwiftText

/-!
Query strings, built from a dictionary and parsed to one. The escapes are taken out of the whole
text before it is cut into pairs, and a dictionary's list is copied before it is appended to.
-/
namespace QueryStrings
open SwiftRuntime PercentEscapes UTF8Text

/-- Which characters are parts of the one before them: in a search of Foundation's, which does not
    find that one alone then, and in a Swift string. -/
structure Marks where
  combines : Char → Bool
  continues : Char → Bool
  ascii : ∀ c, c.toNat < 128 → combines c = false ∧ continues c = false

/-- A text begins with such a character. -/
def begins (mark : Char → Bool) (text : List Char) : Bool := text.head?.any mark

/-- `components(separatedBy:)` -/
def components (M : Marks) (separator : Char) : List Char → List (List Char)
  | [] => [[]]
  | c :: text =>
    if c = separator && !begins M.combines text then [] :: components M separator text
    else
      match components M separator text with
      | [] => [[c]]
      | part :: parts => (c :: part) :: parts

/-- `replacingOccurrences(of:with:)` -/
def replacingOccurrences (M : Marks) (old new : Char) : List Char → List Char
  | [] => []
  | c :: text =>
    (if c = old && !begins M.combines text then new else c) :: replacingOccurrences M old new text

/-- `CharacterSet.urlQueryAllowed` -/
def urlQueryAllowed (c : Char) : Bool :=
  c.isAlphanum || "!$&'()*+,-./:;=?@_~".toList.contains c

def urlQuoteCharacterSet (c : Char) : Bool := urlQueryAllowed c && !"?=&".toList.contains c

/-- `addingPercentEncoding(withAllowedCharacters:)` has a value for each text. -/
def addingPercentEncoding (allowed : Char → Bool) (text : List Char) : Option (List Char) :=
  some (escape allowed text)

def urlEscapedString (text : List Char) : List Char :=
  (addingPercentEncoding urlQuoteCharacterSet text).getD []

abbrev Fields := List (List Char × List (List Char))

/-- The body of the inner loop, with the text so far and the number of pairs in it. -/
def addPair (k : List Char) (state : List Char × Nat) (v : List Char) : List Char × Nat :=
  let (s, i) := state
  let s := if i ≠ 0 then s ++ ['&'] else s
  (s ++ (urlEscapedString k ++ '=' :: urlEscapedString v), i + 1)

/-- `buildQueryString`, with the entries in the order in which the dictionary gives them. -/
def buildQueryString (options : Option Fields) (includeQ : Bool) : List Char :=
  match options with
  | some options =>
    if options.length > 0 then
      let s := if includeQ then ['?'] else []
      (options.foldl (fun state (k, vals) => vals.foldl (addPair k) state) (s, 0)).1
    else []
  | none => []

/-- The body of the loop: what is appended to the list that was found is appended to a copy. -/
def addComponent (M : Marks) (ret : Fields) (s : List Char) : Fields :=
  match components M '=' s with
  | [key, value] =>
    match ret.lookup key with
    | some _ => ret
    | none => ret ++ [(key,[value])]
  | _ => ret

def parseQueryString (M : Marks) (text : List Char) : Except Trap Fields := do
  let strippedString ←
    match text with
    -- there is no index behind the first character
    | [] => .error .index
    | c :: rest => .ok (if c = '?' && !begins M.continues rest then rest else text)
  let strippedString := replacingOccurrences M '+' ' ' strippedString
  let strippedString ← unwrap (decode strippedString)
  .ok ((components M '&' strippedString).foldl (addComponent M) [])

/-- A dictionary with lists that are not empty, in the order in which it gives its entries. -/
structure Options where
  entries : Fields
  distinct : (entries.map Prod.fst).Nodup
  nonempty : ∀ entry ∈ entries, entry.2 ≠ []

/-- What is built from the dictionary is parsed to the same one. -/
def RoundTrips (M : Marks) (options : Options) (includeQ : Bool) : Prop :=
  ∃ ret, parseQueryString M (buildQueryString (some options.entries) includeQ) = .ok ret ∧
    ∀ key, ret.lookup key = options.entries.lookup key

/-- The separator is found in a text. -/
def separates (M : Marks) (separator : Char) : List Char → Bool
  | [] => false
  | c :: text => c = separator && !begins M.combines text || separates M separator text

/-- No plus sign, and neither an ampersand nor an equals sign that is found. -/
def Plain (M : Marks) (text : List Char) : Prop :=
  '+' ∉ text ∧ separates M '&' text = false ∧ separates M '=' text = false

/-- One value for a key, both plain, and no mark behind the equals sign. -/
def PlainEntry (M : Marks) (entry : List Char × List (List Char)) : Prop :=
  ∃ value, entry.2 = [value] ∧ Plain M entry.1 ∧ Plain M value ∧
    begins M.combines value = false

/-- The escapes of a text are escapes, and of UTF-8. -/
def Escaped (text : List Char) : Prop := ∃ plain, decode text = some plain

section Components
variable {M : Marks} {separator : Char} {text rest part : List Char}
  {parts : List (List Char)}

theorem begins_append (some_text : text ≠ []) (rest : List Char) (mark : Char → Bool) :
    begins mark (text ++ rest) = begins mark text := by
  unfold begins
  rw [List.head?_append_of_ne_nil text some_text]

theorem begins_ascii {c : Char} (ascii : c.toNat < 128) (text : List Char) :
    begins M.combines (c :: text) = false := (M.ascii c ascii).1

theorem components_some (M : Marks) (separator : Char) (text : List Char) :
    ∃ part parts, components M separator text = part :: parts := by
  cases text with
  | nil => exact ⟨_,_,rfl⟩
  | cons c text =>
    unfold components
    split
    · exact ⟨_,_,rfl⟩
    · split <;> exact ⟨_,_,rfl⟩

theorem components_found {c : Char} (found : (c = separator && !begins M.combines text) = true) :
    components M separator (c :: text) = [] :: components M separator text := by
  rw [components, if_pos found]

theorem components_kept {c : Char} (kept : (c = separator && !begins M.combines text) = false)
    {parts : List (List Char)} (cut : components M separator text = part :: parts) :
    components M separator (c :: text) = (c :: part) :: parts := by
  rw [components, if_neg (Bool.eq_false_iff.mp kept), cut]

/-- Where the separator is not found there is one component. -/
theorem components_whole (never : separates M separator text = false) :
    components M separator text = [text] := by
  induction text with
  | nil => rfl
  | cons c text ih =>
    obtain ⟨here,later⟩ := Bool.or_eq_false_iff.mp never
    exact components_kept here (ih later)

/-- A text without the separator in front of one that is cut. -/
theorem components_prepend (never : separates M separator text = false)
    (cut : components M separator rest = part :: parts) :
    components M separator (text ++ rest) = (text ++ part) :: parts := by
  induction text with
  | nil => exact cut
  | cons c text ih =>
    obtain ⟨here,later⟩ := Bool.or_eq_false_iff.mp never
    refine components_kept ?_ (ih later)
    change (decide (c = separator) && !begins M.combines (text ++ rest)) = false
    by_cases last : text = []
    · subst last
      have unlike : decide (c = separator) = false := by
        simpa [begins] using here
      rw [List.nil_append, unlike, Bool.false_and]
    · rwa [begins_append last]

/-- A component has no character that the text has not. -/
theorem components_mem {c : Char} (there : part ∈ components M separator text)
    (mem : c ∈ part) : c ∈ text := by
  induction text generalizing part with
  | nil =>
    rw [List.mem_singleton.mp there] at mem
    exact mem
  | cons d text ih =>
    obtain ⟨first,parts,cut⟩ := components_some M separator text
    cases here : (d = separator && !begins M.combines text) with
    | true =>
      rw [components_found here] at there
      rcases List.mem_cons.mp there with empty | later
      · rw [empty] at mem
        cases mem
      · exact List.mem_cons_of_mem _ (ih later mem)
    | false =>
      rw [components_kept here cut] at there
      rcases List.mem_cons.mp there with now | later
      · rw [now] at mem
        rcases List.mem_cons.mp mem with same | inside
        · exact same ▸ List.mem_cons_self
        · exact List.mem_cons_of_mem _ (ih (by rw [cut]; exact List.mem_cons_self) inside)
      · exact List.mem_cons_of_mem _ (ih (by rw [cut]; exact List.mem_cons_of_mem _ later) mem)

/-- The first component is a front of the text, up to its end or to a separator. -/
theorem components_front (cut : components M separator text = part :: parts)
    (ascii : separator.toNat < 128) : begins M.combines part = begins M.combines text := by
  cases text with
  | nil =>
    cases cut
    rfl
  | cons c text =>
    obtain ⟨first,rest,later⟩ := components_some M separator text
    cases here : (c = separator && !begins M.combines text) with
    | true =>
      rw [components_found here] at cut
      cases cut
      have same := of_decide_eq_true (Bool.and_eq_true_iff.mp here).1
      rw [same, begins_ascii ascii]
      rfl
    | false =>
      rw [components_kept here later] at cut
      cases cut
      rfl

/-- What is found in a component is found in the text, but the separator is found in none. -/
theorem components_separates {other : Char} (ascii : separator.toNat < 128)
    (there : part ∈ components M separator text) (found : separates M other part = true) :
    separates M other text = true ∧ other ≠ separator := by
  induction text generalizing part with
  | nil =>
    rw [List.mem_singleton.mp there] at found
    cases found
  | cons c text ih =>
    obtain ⟨first,parts,cut⟩ := components_some M separator text
    have behind (inside : part ∈ components M separator text) :
        separates M other (c :: text) = true ∧ other ≠ separator := by
      obtain ⟨later,unlike⟩ := ih inside found
      exact ⟨Bool.or_eq_true_iff.mpr (Or.inr later),unlike⟩
    cases here : (c = separator && !begins M.combines text) with
    | true =>
      rw [components_found here] at there
      rcases List.mem_cons.mp there with empty | inside
      · rw [empty] at found
        cases found
      · exact behind inside
    | false =>
      rw [components_kept here cut] at there
      rcases List.mem_cons.mp there with now | inside
      · rw [now] at found
        rcases Bool.or_eq_true_iff.mp found with first_found | later_found
        · rw [components_front cut ascii] at first_found
          refine ⟨Bool.or_eq_true_iff.mpr (Or.inl first_found),fun same => ?_⟩
          rw [← same, first_found] at here
          cases here
        · obtain ⟨later,unlike⟩ := ih (by rw [cut]; exact List.mem_cons_self) later_found
          exact ⟨Bool.or_eq_true_iff.mpr (Or.inr later),unlike⟩
      · exact behind (by rw [cut]; exact List.mem_cons_of_mem _ inside)

theorem separates_append (never : begins M.combines rest = false) (text : List Char) :
    separates M separator (text ++ rest) =
      (separates M separator text || separates M separator rest) := by
  induction text with
  | nil => rfl
  | cons c text ih =>
    have next : begins M.combines (text ++ rest) = begins M.combines text := by
      by_cases last : text = []
      · rw [last, List.nil_append, never]
        rfl
      · exact begins_append last rest _
    rw [List.cons_append, separates, separates, next, ih, Bool.or_assoc]

theorem components_cut (never : separates M separator text = false)
    (unmarked : begins M.combines rest = false) :
    components M separator (text ++ separator :: rest) =
      text :: components M separator rest := by
  have found : (decide (separator = separator) && !begins M.combines rest) = true := by
    rw [unmarked, decide_eq_true rfl]
    rfl
  rw [components_prepend never (components_found found), List.append_nil]

theorem components_uncut (never : separates M separator text = false)
    (marked : begins M.combines rest = true) :
    (components M separator (text ++ separator :: rest)).length =
      (components M separator rest).length := by
  have kept : (decide (separator = separator) && !begins M.combines rest) = false := by
    rw [marked, Bool.not_true, Bool.and_false]
  obtain ⟨first,parts,cut⟩ := components_some M separator rest
  rw [components_prepend never (components_kept kept cut), cut, List.length_cons, List.length_cons]

theorem begins_intercalate (ascii : separator.toNat < 128) (part : List Char)
    (parts : List (List Char)) :
    begins M.combines ([separator].intercalate (part :: parts)) = begins M.combines part := by
  by_cases last : parts = []
  · rw [last, List.intercalate_singleton]
  · rw [List.intercalate_cons_of_ne_nil last, List.append_assoc]
    by_cases empty : part = []
    · rw [empty, List.nil_append, List.singleton_append, begins_ascii ascii]
      rfl
    · exact begins_append empty _ _

/-- Parts that were joined come apart again if none begins with a mark behind a separator. -/
theorem components_intercalate (ascii : separator.toNat < 128) (some_part : parts ≠ [])
    (never : ∀ part ∈ parts, separates M separator part = false)
    (unmarked : ∀ part ∈ parts.tail, begins M.combines part = false) :
    components M separator ([separator].intercalate parts) = parts := by
  induction parts with
  | nil => exact absurd rfl some_part
  | cons part parts ih =>
    have here := never part List.mem_cons_self
    cases parts with
    | nil =>
      rw [List.intercalate_singleton]
      exact components_whole here
    | cons next parts =>
      have front : begins M.combines ([separator].intercalate (next :: parts)) = false := by
        rw [begins_intercalate ascii]
        exact unmarked next List.mem_cons_self
      rw [List.intercalate_cons_of_ne_nil (List.cons_ne_nil next parts), List.append_assoc,
        List.singleton_append, components_cut here front,
        ih (List.cons_ne_nil _ _) (fun part there => never part (List.mem_cons_of_mem _ there))
          fun part there => unmarked part (List.mem_cons_of_mem _ there)]

/-- And otherwise there are fewer. -/
theorem components_fewer (ascii : separator.toNat < 128)
    (never : ∀ part ∈ parts, separates M separator part = false) (some_part : parts ≠ []) :
    (components M separator ([separator].intercalate parts)).length ≤ parts.length ∧
      ((∃ part ∈ parts.tail, begins M.combines part = true) →
        (components M separator ([separator].intercalate parts)).length < parts.length) := by
  induction parts with
  | nil => exact absurd rfl some_part
  | cons part parts ih =>
    have here := never part List.mem_cons_self
    cases parts with
    | nil =>
      rw [List.intercalate_singleton, components_whole here]
      exact ⟨le_refl _,fun ⟨_,there,_⟩ => absurd there List.not_mem_nil⟩
    | cons next parts =>
      obtain ⟨atmost,fewer⟩ :=
        ih (fun part there => never part (List.mem_cons_of_mem _ there)) (List.cons_ne_nil _ _)
      rw [List.intercalate_cons_of_ne_nil (List.cons_ne_nil next parts), List.append_assoc,
        List.singleton_append]
      have front := begins_intercalate (M := M) ascii next parts
      cases marked : begins M.combines next with
      | false =>
        rw [components_cut here (front.trans marked), List.length_cons, List.length_cons]
        refine ⟨by omega,fun ⟨part,there,mark⟩ => ?_⟩
        rcases List.mem_cons.mp there with now | later
        · rw [now, marked] at mark
          cases mark
        · have := fewer ⟨part,later,mark⟩
          omega
      | true =>
        rw [components_uncut here (front.trans marked), List.length_cons]
        exact ⟨by omega,fun _ => by omega⟩

end Components

section Building

/-- The pairs that are written: one for each value. -/
def pairs (options : Fields) : List (List Char × List Char) :=
  options.flatMap fun (k, vals) => vals.map fun v => (k, v)

/-- Pairs with ampersands between them, and equals signs in them. -/
def spelled (f : List Char → List Char) (pairs : List (List Char × List Char)) : List Char :=
  ['&'].intercalate (pairs.map fun (k, v) => f k ++ '=' :: f v)

/-- What becomes of a character where each plus sign is replaced. -/
def spaced (c : Char) : Char := if c = '+' then ' ' else c

theorem addPair_all (options : Fields) (state : List Char × Nat) :
    options.foldl (fun state (k, vals) => vals.foldl (addPair k) state) state =
      (pairs options).foldl (fun state (k, v) => addPair k state v) state := by
  induction options generalizing state with
  | nil => rfl
  | cons entry options ih =>
    obtain ⟨k,vals⟩ := entry
    have first : pairs ((k, vals) :: options) = vals.map (fun v => (k, v)) ++ pairs options :=
      List.flatMap_cons
    rw [List.foldl_cons, ih, first, List.foldl_append, List.foldl_map]

theorem addPair_next (k s v : List Char) (i : Nat) : addPair k (s, i + 1) v =
    (s ++ ['&'] ++ (urlEscapedString k ++ '=' :: urlEscapedString v), i + 1 + 1) := by
  unfold addPair
  dsimp only
  rw [if_pos (Nat.succ_ne_zero i)]

theorem addPair_later (written : List (List Char × List Char)) (s : List Char) (i : Nat) :
    (written.foldl (fun state (k, v) => addPair k state v) (s, i + 1)).1 =
      s ++ written.flatMap fun (k, v) =>
        '&' :: (urlEscapedString k ++ '=' :: urlEscapedString v) := by
  induction written generalizing s i with
  | nil => exact (List.append_nil s).symm
  | cons pair written ih =>
    obtain ⟨k,v⟩ := pair
    rw [List.foldl_cons]
    dsimp only
    rw [addPair_next, ih, List.flatMap_cons]
    simp only [List.append_assoc, List.nil_append, List.cons_append]

theorem intercalate_cons (part : List Char) (parts : List (List Char)) (separator : Char) :
    [separator].intercalate (part :: parts) = part ++ parts.flatMap (separator :: ·) := by
  induction parts generalizing part with
  | nil => rw [List.intercalate_singleton, List.flatMap_nil, List.append_nil]
  | cons next parts ih =>
    rw [List.intercalate_cons_of_ne_nil (List.cons_ne_nil next parts), ih, List.flatMap_cons,
      List.append_assoc, List.singleton_append, List.cons_append]

theorem build_spelled {options : Fields} (some_pair : pairs options ≠ []) (includeQ : Bool) :
    buildQueryString (some options) includeQ =
      (if includeQ then ['?'] else []) ++ spelled urlEscapedString (pairs options) := by
  have some_entry : options.length > 0 := by
    refine List.length_pos_iff.mpr fun none_there => some_pair ?_
    rw [none_there]
    rfl
  unfold buildQueryString spelled
  dsimp only
  rw [if_pos some_entry, addPair_all]
  cases written : pairs options with
  | nil => exact absurd written some_pair
  | cons pair rest =>
    obtain ⟨k,v⟩ := pair
    have first (s : List Char) :
        addPair k (s, 0) v = (s ++ (urlEscapedString k ++ '=' :: urlEscapedString v), 0 + 1) := rfl
    rw [List.foldl_cons]
    dsimp only
    rw [first, addPair_later, List.map_cons, intercalate_cons, List.flatMap_map, List.append_assoc]

theorem allowed_ascii (c : Char) (allowed : urlQuoteCharacterSet c = true) : c.toNat < 128 := by
  have inside := (Bool.and_eq_true_iff.mp allowed).1
  rcases Bool.or_eq_true_iff.mp inside with letter | sign
  · have range := (SwiftText.alphanum_iff c).mp letter
    omega
  · have each : ("!$&'()*+,-./:;=?@_~".toList.all fun d => decide (d.toNat < 128)) = true := by
      decide
    exact of_decide_eq_true (List.all_eq_true.mp each c (List.contains_iff_mem.mp sign))

theorem escaped_ascii (text : List Char) : ∀ c ∈ urlEscapedString text, c.toNat < 128 :=
  escape_ascii allowed_ascii text

theorem hexDigit_quote : ∀ n < 16, hexDigit n ≠ '?' := by decide

theorem escaped_quote (text : List Char) : ∀ c ∈ urlEscapedString text, c ≠ '?' := by
  intro c there quote
  subst quote
  rcases escape_mem there with allowed | percent | ⟨n,small,digit⟩
  · exact absurd allowed (by decide)
  · exact absurd percent (by decide)
  · exact hexDigit_quote n small digit.symm

/-- What holds of all keys and values and of the two signs holds of all that is written. -/
theorem spelled_all {f : List Char → List Char} {property : Char → Prop} (equals : property '=')
    (ampersand : property '&') (escaped : ∀ text, ∀ c ∈ f text, property c)
    (written : List (List Char × List Char)) : ∀ c ∈ spelled f written, property c := by
  have pair_all (k v : List Char) : ∀ c ∈ f k ++ '=' :: f v, property c := by
    intro c there
    rcases List.mem_append.mp there with key | value
    · exact escaped k c key
    · rcases List.mem_cons.mp value with sign | value
      · exact sign ▸ equals
      · exact escaped v c value
  intro c there
  cases written with
  | nil => exact absurd there List.not_mem_nil
  | cons pair written =>
    rw [spelled, List.map_cons, intercalate_cons, List.flatMap_map] at there
    rcases List.mem_append.mp there with first | later
    · exact pair_all _ _ c first
    · obtain ⟨other,-,inside⟩ := List.mem_flatMap.mp later
      rcases List.mem_cons.mp inside with sign | inside
      · exact sign ▸ ampersand
      · exact pair_all _ _ c inside

theorem spaced_digit : ∀ n < 16, spaced (hexDigit n) = hexDigit n := by decide

/-- Only plus signs are replaced in what was escaped, and the rest is read back. -/
theorem unescape_spaced (text rest : List Char) :
    unescape ((urlEscapedString text).map spaced ++ rest) =
      (unescape rest).map (utf8 (text.map spaced) ++ ·) := by
  refine unescape_exchanged ?_ ?_ ?_ text rest
  · intro b
    have small := b.toNat_lt
    have high := spaced_digit (b.toNat / 16) (by omega)
    have low := spaced_digit (b.toNat % 16) (by omega)
    change [spaced '%',spaced (hexDigit (b.toNat / 16)),spaced (hexDigit (b.toNat % 16))] = _
    rw [high, low]
    rfl
  · intro c allowed
    unfold spaced
    split
    · decide
    · intro percent
      rw [percent] at allowed
      exact absurd allowed (by decide)
  · intro c other
    refine if_neg fun plus => ?_
    rw [plus] at other
    exact absurd other (by decide)

/-- The escapes are taken out of all pairs at once. -/
theorem decode_spelled (written : List (List Char × List Char)) :
    decode ((spelled urlEscapedString written).map spaced) =
      some (spelled (List.map spaced) written) := by
  have pair_read (k v rest : List Char) :
      unescape ((urlEscapedString k ++ '=' :: urlEscapedString v).map spaced ++ rest) =
        (unescape rest).map (utf8 (k.map spaced ++ '=' :: v.map spaced) ++ ·) := by
    have sign : spaced '=' = '=' := rfl
    rw [List.map_append, List.map_cons, List.append_assoc, unescape_spaced, sign, List.cons_append,
      unescape_cons (by decide), unescape_spaced, Option.map_map, Option.map_map]
    congr 1
    funext more
    simp only [Function.comp_apply, utf8_append, utf8_cons, List.append_assoc]
  have later (written : List (List Char × List Char)) :
      unescape ((written.flatMap fun (k, v) =>
        '&' :: (urlEscapedString k ++ '=' :: urlEscapedString v)).map spaced) =
        some (utf8 (written.flatMap fun (k, v) =>
          '&' :: (k.map spaced ++ '=' :: v.map spaced))) := by
    induction written with
    | nil => rfl
    | cons pair written ih =>
      obtain ⟨k,v⟩ := pair
      have sign : spaced '&' = '&' := rfl
      rw [List.flatMap_cons, List.map_append, List.map_cons, sign, List.cons_append,
        unescape_cons (by decide), pair_read, ih, List.flatMap_cons]
      simp only [Option.map_some, utf8_append, utf8_cons, List.append_assoc, List.cons_append]
  have whole : unescape ((spelled urlEscapedString written).map spaced) =
      some (utf8 (spelled (List.map spaced) written)) := by
    cases written with
    | nil => rfl
    | cons pair written =>
      obtain ⟨k,v⟩ := pair
      rw [spelled, spelled, List.map_cons, List.map_cons, intercalate_cons, intercalate_cons,
        List.flatMap_map, List.flatMap_map, List.map_append, pair_read, later]
      simp only [Option.map_some, utf8_append]
  rw [decode, whole, Option.bind_some, ofUTF8_utf8]

theorem replacing_ascii (M : Marks) (old new : Char) {text : List Char}
    (ascii : ∀ c ∈ text, c.toNat < 128) :
    replacingOccurrences M old new text = text.map fun c => if c = old then new else c := by
  induction text with
  | nil => rfl
  | cons c text ih =>
    have unmarked : begins M.combines text = false := by
      cases text with
      | nil => rfl
      | cons d text => exact begins_ascii (ascii d (by simp)) text
    rw [replacingOccurrences, unmarked, ih fun d there => ascii d (List.mem_cons_of_mem _ there),
      Bool.not_false, Bool.and_true, List.map_cons]
    simp only [decide_eq_true_eq]

theorem parse_cons (M : Marks) (c : Char) (rest : List Char) :
    parseQueryString M (c :: rest) =
      (unwrap (decode (replacingOccurrences M '+' ' '
        (if c = '?' && !begins M.continues rest then rest else c :: rest)))) >>=
          fun plain => .ok ((components M '&' plain).foldl (addComponent M) []) := rfl

/-- The text behind a question mark that was taken off. -/
theorem parse_stripped (M : Marks) {text : List Char} (some_text : text ≠ [])
    (ascii : ∀ c ∈ text, c.toNat < 128) (quote : ∀ c ∈ text, c ≠ '?') (includeQ : Bool) :
    parseQueryString M ((if includeQ then ['?'] else []) ++ text) =
      unwrap (decode (text.map spaced)) >>= fun plain =>
        .ok ((components M '&' plain).foldl (addComponent M) []) := by
  have replaced : replacingOccurrences M '+' ' ' text = text.map spaced :=
    replacing_ascii M '+' ' ' ascii
  cases text with
  | nil => exact absurd rfl some_text
  | cons c rest =>
    cases includeQ with
    | true =>
      have unmarked : (decide ('?' = '?') && !begins M.continues (c :: rest)) = true := by
        rw [begins, List.head?_cons, Option.any_some, (M.ascii c (ascii c List.mem_cons_self)).2]
        rfl
      rw [if_pos rfl, List.singleton_append, parse_cons, if_pos unmarked, replaced]
    | false =>
      have other : (decide (c = '?') && !begins M.continues rest) = false := by
        rw [decide_eq_false (quote c List.mem_cons_self), Bool.false_and]
      rw [if_neg Bool.false_ne_true, List.nil_append, parse_cons,
        if_neg (Bool.eq_false_iff.mp other), replaced]

/-- What is parsed is what was built, except for plus signs. -/
theorem parse_built (M : Marks) {options : Fields} (some_pair : pairs options ≠ [])
    (includeQ : Bool) : parseQueryString M (buildQueryString (some options) includeQ) =
      .ok ((components M '&' (spelled (List.map spaced) (pairs options))).foldl
        (addComponent M) []) := by
  have some_text : spelled urlEscapedString (pairs options) ≠ [] := by
    cases written : pairs options with
    | nil => exact absurd written some_pair
    | cons pair rest =>
      rw [spelled, List.map_cons, intercalate_cons]
      simp
  rw [build_spelled some_pair, parse_stripped M some_text
    (spelled_all (by decide) (by decide) escaped_ascii _)
    (spelled_all (by decide) (by decide) escaped_quote _), decode_spelled]
  rfl

/-- Of an empty dictionary nothing is written, and that cannot be parsed. -/
theorem parse_none (M : Marks) (includeQ : Bool) :
    parseQueryString M (buildQueryString (some []) includeQ) = .error .index := rfl

end Building

section Parsing
variable {M : Marks} {entries ret : Fields} {parts : List (List Char)}

theorem spaced_plain (text : List Char) : ∀ c ∈ text.map spaced, c ≠ '+' := by
  intro c there
  obtain ⟨d,-,same⟩ := List.mem_map.mp there
  rw [← same, spaced]
  split
  · decide
  case isFalse other => exact other

theorem spaced_id {text : List Char} (plain : '+' ∉ text) : text.map spaced = text := by
  have each : ∀ c ∈ text, spaced c = c := by
    intro c there
    refine if_neg fun plus => plain ?_
    rw [← plus]
    exact there
  rw [List.map_congr_left each, List.map_id']

theorem addComponent_kept (M : Marks) (ret : Fields) (s : List Char) :
    addComponent M ret s = ret ∨ ∃ key value, components M '=' s = [key,value] ∧
      addComponent M ret s = ret ++ [(key,[value])] := by
  unfold addComponent
  split
  case h_1 key value cut =>
    split
    · exact Or.inl rfl
    · exact Or.inr ⟨key,value,cut,rfl⟩
  case h_2 => exact Or.inl rfl

/-- Each entry of what is parsed comes from a component that has a key and a value. -/
theorem parsed_entries {entry : List Char × List (List Char)}
    (there : entry ∈ parts.foldl (addComponent M) ret) :
    entry ∈ ret ∨ ∃ s ∈ parts, ∃ value, components M '=' s = [entry.1,value] ∧
      entry.2 = [value] := by
  induction parts generalizing ret with
  | nil => exact Or.inl there
  | cons s parts ih =>
    rcases ih there with now | ⟨part,inside,found⟩
    · rcases addComponent_kept M ret s with kept | ⟨key,value,cut,added⟩
      · rw [kept] at now
        exact Or.inl now
      · rw [added] at now
        rcases List.mem_append.mp now with before | last
        · exact Or.inl before
        · cases List.mem_singleton.mp last
          exact Or.inr ⟨s,List.mem_cons_self,value,cut,rfl⟩
    · exact Or.inr ⟨part,List.mem_cons_of_mem _ inside,found⟩

theorem parsed_length (M : Marks) (parts : List (List Char)) (ret : Fields) :
    (parts.foldl (addComponent M) ret).length ≤ ret.length + parts.length := by
  induction parts generalizing ret with
  | nil => exact le_refl _
  | cons s parts ih =>
    have later := ih (addComponent M ret s)
    have one : (addComponent M ret s).length ≤ ret.length + 1 := by
      rcases addComponent_kept M ret s with kept | ⟨key,value,-,added⟩
      · rw [kept]
        exact Nat.le_succ _
      · rw [added, List.length_append, List.length_singleton]
    rw [List.foldl_cons, List.length_cons]
    omega

/-- An entry as it is written, with the first of its values. -/
def entryText (entry : List Char × List (List Char)) : List Char :=
  entry.1 ++ '=' :: entry.2.headD []

theorem spelled_entries
    (single : ∀ entry ∈ entries, ∃ value, entry.2 = [value] ∧ '+' ∉ entry.1 ∧ '+' ∉ value) :
    spelled (List.map spaced) (pairs entries) = ['&'].intercalate (entries.map entryText) := by
  have each : (pairs entries).map (fun (k, v) => k.map spaced ++ '=' :: v.map spaced) =
      entries.map entryText := by
    induction entries with
    | nil => rfl
    | cons entry entries ih =>
      obtain ⟨value,one,key_plain,value_plain⟩ := single entry List.mem_cons_self
      obtain ⟨key,vals⟩ := entry
      dsimp only at one key_plain
      subst one
      have later := ih fun entry there => single entry (List.mem_cons_of_mem _ there)
      have first : pairs ((key, [value]) :: entries) = (key, value) :: pairs entries := rfl
      rw [first, List.map_cons, later]
      dsimp only
      rw [spaced_id key_plain, spaced_id value_plain]
      rfl
  rw [spelled, each]

theorem begins_entry (entry : List Char × List (List Char)) :
    begins M.combines (entryText entry) = begins M.combines entry.1 := by
  by_cases empty : entry.1 = []
  · rw [entryText, empty, List.nil_append, begins_ascii (by decide)]
    rfl
  · exact begins_append empty _ _

theorem entry_whole {key value : List Char} {c : Char} (other : c ≠ '=')
    (key_plain : separates M c key = false) (value_plain : separates M c value = false) :
    separates M c (key ++ '=' :: value) = false := by
  rw [separates_append (begins_ascii (by decide) value), key_plain, Bool.false_or, separates,
    value_plain, decide_eq_false other.symm]
  rfl

/-- A component gives its key and its value exactly if no mark is behind the equals sign. -/
theorem entry_read {key value : List Char} (key_plain : separates M '=' key = false)
    (value_plain : separates M '=' value = false) :
    components M '=' (key ++ '=' :: value) =
      if begins M.combines value then [key ++ '=' :: value] else [key,value] := by
  cases marked : begins M.combines value with
  | false => rw [components_cut key_plain marked, components_whole value_plain]; rfl
  | true =>
    refine components_whole ?_
    rw [separates_append (begins_ascii (by decide) value), key_plain, Bool.false_or, separates,
      value_plain, marked]
    rfl

/-- Entries with distinct keys are all taken. -/
theorem parsed_all (read : ∀ entry ∈ entries, ∃ value, entry.2 = [value] ∧
      components M '=' (entryText entry) = [entry.1,value])
    (distinct : ((ret ++ entries).map Prod.fst).Nodup) :
    (entries.map entryText).foldl (addComponent M) ret = ret ++ entries := by
  induction entries generalizing ret with
  | nil => exact (List.append_nil ret).symm
  | cons entry entries ih =>
    obtain ⟨value,one,cut⟩ := read entry List.mem_cons_self
    obtain ⟨key,vals⟩ := entry
    dsimp only at one cut
    subst one
    have fresh : ret.lookup key = none := by
      refine List.lookup_eq_none_iff.mpr fun other there => ?_
      rw [List.map_append, List.map_cons] at distinct
      have apart := List.nodup_append.mp distinct
      exact bne_iff_ne.mpr
        (apart.2.2 other.1 (List.mem_map_of_mem there) key List.mem_cons_self).symm
    have added : addComponent M ret (entryText (key, [value])) = ret ++ [(key,[value])] := by
      rw [addComponent, cut]
      dsimp only
      rw [fresh]
    have again : ret ++ (key, [value]) :: entries = ret ++ [(key,[value])] ++ entries := by
      rw [List.append_assoc, List.singleton_append]
    rw [again] at distinct ⊢
    rw [List.map_cons, List.foldl_cons, added]
    exact ih (fun entry there => read entry (List.mem_cons_of_mem _ there)) distinct

/-- A dictionary that can be read back: not empty, with plain entries, and no key but the first
    begins with a mark. -/
def Readable (M : Marks) (entries : Fields) : Prop :=
  entries ≠ [] ∧ (∀ entry ∈ entries, PlainEntry M entry) ∧
    ∀ entry ∈ entries.tail, begins M.combines entry.1 = false

/-- What was read of a component is plain. -/
theorem read_plain {s key value text : List Char} (no_plus : '+' ∉ text)
    (there : s ∈ components M '&' text) (cut : components M '=' s = [key,value]) :
    Plain M key ∧ Plain M value := by
  have each : ∀ part ∈ components M '=' s, Plain M part := by
    intro part inside
    refine ⟨fun plus => no_plus (components_mem there (components_mem inside plus)),?_,?_⟩
    · cases found : separates M '&' part with
      | false => rfl
      | true =>
        have above := (components_separates (by decide) inside found).1
        exact absurd rfl (components_separates (by decide) there above).2
    · cases found : separates M '=' part with
      | false => rfl
      | true => exact absurd rfl (components_separates (by decide) inside found).2
  rw [cut] at each
  exact ⟨each key List.mem_cons_self,each value (List.mem_cons_of_mem _ List.mem_cons_self)⟩

/-- One value for a key, and both plain. -/
def OneValue (M : Marks) (entry : List Char × List (List Char)) : Prop :=
  ∃ value, entry.2 = [value] ∧ Plain M entry.1 ∧ Plain M value

theorem entries_whole (plain : ∀ entry ∈ entries, OneValue M entry) :
    ∀ part ∈ entries.map entryText, separates M '&' part = false := by
  intro part there
  obtain ⟨entry,inside,rfl⟩ := List.mem_map.mp there
  obtain ⟨value,one,key_plain,value_plain⟩ := plain entry inside
  rw [entryText, one]
  exact entry_whole (by decide) key_plain.2.1 value_plain.2.1

theorem entries_spelled (plain : ∀ entry ∈ entries, OneValue M entry) :
    spelled (List.map spaced) (pairs entries) = ['&'].intercalate (entries.map entryText) := by
  refine spelled_entries fun entry there => ?_
  obtain ⟨value,one,key_plain,value_plain⟩ := plain entry there
  exact ⟨value,one,key_plain.1,value_plain.1⟩

theorem readable_returns {entries : Fields} (readable : Readable M entries)
    (distinct : (entries.map Prod.fst).Nodup) :
    (components M '&' (spelled (List.map spaced) (pairs entries))).foldl (addComponent M) [] =
      entries := by
  obtain ⟨some_entry,plain,unmarked⟩ := readable
  have single : ∀ entry ∈ entries, OneValue M entry := by
    intro entry there
    obtain ⟨value,one,key_plain,value_plain,-⟩ := plain entry there
    exact ⟨value,one,key_plain,value_plain⟩
  have later : ∀ part ∈ (entries.map entryText).tail, begins M.combines part = false := by
    intro part there
    rw [← List.map_tail] at there
    obtain ⟨entry,inside,rfl⟩ := List.mem_map.mp there
    rw [begins_entry]
    exact unmarked entry inside
  have some_part : entries.map entryText ≠ [] := mt List.map_eq_nil_iff.mp some_entry
  rw [entries_spelled single,
    components_intercalate (by decide) some_part (entries_whole single) later]
  refine parsed_all (fun entry there => ?_) distinct
  obtain ⟨value,one,key_plain,value_plain,front⟩ := plain entry there
  refine ⟨value,one,?_⟩
  rw [entryText, one]
  have read := entry_read key_plain.2.2 value_plain.2.2
  rw [front] at read
  exact read

theorem lookup_entry {entry : List Char × List (List Char)}
    (distinct : (entries.map Prod.fst).Nodup) (there : entry ∈ entries) :
    entries.lookup entry.1 = some entry.2 := by
  obtain ⟨before,after,split⟩ := List.append_of_mem there
  refine List.lookup_eq_some_iff.mpr ⟨before,after,split,fun other inside => ?_⟩
  rw [split, List.map_append, List.map_cons] at distinct
  have apart := List.nodup_append.mp distinct
  exact bne_iff_ne.mpr
    (apart.2.2 other.1 (List.mem_map_of_mem inside) entry.1 List.mem_cons_self).symm

/-- A dictionary that answers as another does holds its entries. -/
theorem entries_returned (distinct : (entries.map Prod.fst).Nodup)
    (returned : ∀ key, ret.lookup key = entries.lookup key) : entries ⊆ ret := by
  intro entry there
  have found := (returned entry.1).trans (lookup_entry distinct there)
  obtain ⟨before,after,split,-⟩ := List.lookup_eq_some_iff.mp found
  rw [split]
  exact List.mem_append_right _ List.mem_cons_self

/-- There are as many components as entries that are read of them. -/
theorem components_enough (distinct : (entries.map Prod.fst).Nodup)
    (read : entries ⊆ parts.foldl (addComponent M) []) : entries.length ≤ parts.length := by
  have fewer := (List.subperm_of_subset distinct (List.map_subset Prod.fst read)).length_le
  rw [List.length_map, List.length_map] at fewer
  have most := parsed_length M parts []
  rw [List.length_nil, Nat.zero_add] at most
  exact fewer.trans most

/-- A value that is read of the text of an entry has no mark in front. -/
theorem read_unmarked {entry : List Char × List (List Char)} {key value : List Char}
    (plain : OneValue M entry) (cut : components M '=' (entryText entry) = [key,value]) :
    begins M.combines value = false := by
  obtain ⟨written,one,key_plain,value_plain⟩ := plain
  rw [entryText, one] at cut
  have read := entry_read key_plain.2.2 value_plain.2.2
  cases marked : begins M.combines written with
  | true =>
    rw [marked] at read
    have lengths := congrArg List.length (cut.symm.trans read)
    exact absurd lengths (by simp)
  | false =>
    rw [marked] at read
    have same := (List.cons_eq_cons.mp (cut.symm.trans read)).2
    rw [(List.cons_eq_cons.mp same).1]
    exact marked

/-- Where all entries are read of as many texts, none of these but the first begins with a mark. -/
theorem later_unmarked (some_part : entries.map entryText ≠ [])
    (single : ∀ entry ∈ entries, OneValue M entry)
    (enough : entries.length ≤
      (components M '&' (['&'].intercalate (entries.map entryText))).length) :
    ∀ part ∈ (entries.map entryText).tail, begins M.combines part = false := by
  intro part there
  by_contra marked
  have fewer := (components_fewer (by decide) (entries_whole single) some_part).2
    ⟨part,there,Bool.eq_true_of_not_eq_false marked⟩
  rw [List.length_map] at fewer
  omega

/-- What is read back comes from an entry for each component, and none is missing. -/
theorem returned_readable {entries : Fields} (some_entry : entries ≠ [])
    (distinct : (entries.map Prod.fst).Nodup)
    (returned : ∀ key, ((components M '&' (spelled (List.map spaced) (pairs entries))).foldl
      (addComponent M) []).lookup key = entries.lookup key) : Readable M entries := by
  have no_plus : '+' ∉ spelled (List.map spaced) (pairs entries) := by
    intro plus
    have other : ∀ c ∈ spelled (List.map spaced) (pairs entries), c ≠ '+' :=
      spelled_all (by decide) (by decide) spaced_plain _
    exact other '+' plus rfl
  have read := entries_returned distinct returned
  have each : ∀ entry ∈ entries, ∃ value, entry.2 = [value] ∧ Plain M entry.1 ∧ Plain M value ∧
      ∃ s ∈ components M '&' (spelled (List.map spaced) (pairs entries)),
        components M '=' s = [entry.1,value] := by
    intro entry there
    rcases parsed_entries (read there) with none_before | ⟨s,inside,value,cut,one⟩
    · exact absurd none_before List.not_mem_nil
    · obtain ⟨key_plain,value_plain⟩ := read_plain no_plus inside cut
      exact ⟨value,one,key_plain,value_plain,s,inside,cut⟩
  have single : ∀ entry ∈ entries, OneValue M entry := by
    intro entry there
    obtain ⟨value,one,key_plain,value_plain,-⟩ := each entry there
    exact ⟨value,one,key_plain,value_plain⟩
  have some_part : entries.map entryText ≠ [] := mt List.map_eq_nil_iff.mp some_entry
  rw [entries_spelled single] at read each
  have later := later_unmarked some_part single (components_enough distinct read)
  rw [components_intercalate (by decide) some_part (entries_whole single) later] at each
  refine ⟨some_entry,fun entry there => ?_,fun entry there => ?_⟩
  · obtain ⟨value,one,key_plain,value_plain,s,inside,cut⟩ := each entry there
    -- the component is the text of an entry, whose value has no mark in front
    obtain ⟨other,among,rfl⟩ := List.mem_map.mp inside
    exact ⟨value,one,key_plain,value_plain,read_unmarked (single other among) cut⟩
  · have unmarked := later (entryText entry) (by
      rw [← List.map_tail]
      exact List.mem_map_of_mem there)
    rwa [begins_entry] at unmarked

theorem roundTrips_iff (M : Marks) (options : Options) (includeQ : Bool) :
    RoundTrips M options includeQ ↔ Readable M options.entries := by
  unfold RoundTrips
  by_cases some_entry : options.entries = []
  · rw [some_entry]
    refine iff_of_false ?_ fun readable => readable.1 rfl
    rintro ⟨ret,parsed,-⟩
    rw [parse_none] at parsed
    cases parsed
  · have some_pair : pairs options.entries ≠ [] := by
      obtain ⟨entry,rest,first⟩ := List.exists_cons_of_ne_nil some_entry
      have vals := options.nonempty entry (by rw [first]; exact List.mem_cons_self)
      intro none_written
      rw [first, pairs, List.flatMap_cons] at none_written
      exact vals (List.map_eq_nil_iff.mp (List.append_eq_nil_iff.mp none_written).1)
    rw [parse_built M some_pair]
    constructor
    · rintro ⟨ret,parsed,returned⟩
      cases parsed
      exact returned_readable some_entry options.distinct returned
    · intro readable
      refine ⟨_,rfl,fun key => ?_⟩
      rw [readable_returns readable options.distinct]

end Parsing

section Traps
variable {M : Marks}

theorem escaped_cut {c : Char} (ascii : c.toNat < 128) (plain : c ≠ '%')
    (no_digit : hexValue c = none) (front rest : List Char) :
    Escaped (front ++ c :: rest) ↔ Escaped front ∧ Escaped rest :=
  decodes_cut ascii plain no_digit front rest

theorem replaced_alike (M : Marks) (text : List Char) :
    List.Forall₂ (fun c d => c = d ∨ Cuts c ∧ Cuts d)
      (replacingOccurrences M '+' ' ' text) text := by
  induction text with
  | nil => exact List.Forall₂.nil
  | cons c text ih =>
    refine List.Forall₂.cons ?_ ih
    split
    case isTrue found =>
      rw [of_decide_eq_true (Bool.and_eq_true_iff.mp found).1]
      exact Or.inr ⟨by unfold Cuts; decide,by unfold Cuts; decide⟩
    case isFalse => exact Or.inl rfl

/-- Escapes stay escapes where plus signs are replaced. -/
theorem escaped_replacing (M : Marks) (text : List Char) :
    Escaped (replacingOccurrences M '+' ' ' text) ↔ Escaped text :=
  decodes_exchanged (replaced_alike M text) []

/-- Parsing ends exactly for what is not empty and has escapes of UTF-8. -/
theorem parse_returns_iff (M : Marks) (text : List Char) :
    (∃ ret, parseQueryString M text = .ok ret) ↔ text ≠ [] ∧ Escaped text := by
  cases text with
  | nil => exact iff_of_false (fun ⟨_,parsed⟩ => nomatch parsed) fun both => both.1 rfl
  | cons c rest =>
    rw [parse_cons, and_iff_right (List.cons_ne_nil c rest)]
    have stripped : Escaped (if c = '?' && !begins M.continues rest then rest else c :: rest) ↔
        Escaped (c :: rest) := by
      split
      case isTrue quote =>
        have same := of_decide_eq_true (Bool.and_eq_true_iff.mp quote).1
        have cut := escaped_cut (c := '?') (by decide) (by decide) (by decide) [] rest
        rw [List.nil_append] at cut
        rw [same, cut]
        exact (and_iff_right ⟨[],rfl⟩).symm
      case isFalse => exact Iff.rfl
    rw [← stripped]
    rw [← escaped_replacing M]
    constructor
    · rintro ⟨ret,parsed⟩
      obtain ⟨plain,decoded,-⟩ := SwiftRuntime.bind_ran.mp parsed
      exact ⟨plain,unwrap_ok.mp decoded⟩
    · rintro ⟨plain,decoded⟩
      exact ⟨_,bind_ready (unwrap_ok.mpr decoded)⟩

end Traps

/-- A dictionary is read back exactly if it is not empty, its keys have one value each, and neither
    has a sign of its own or a mark behind one; and a text is parsed exactly if it is not empty and
    has escapes of UTF-8. -/
theorem query_strings_iff (M : Marks) :
    (∀ options includeQ, RoundTrips M options includeQ ↔ Readable M options.entries) ∧
      ∀ text, (∃ ret, parseQueryString M text = .ok ret) ↔ text ≠ [] ∧ Escaped text :=
  ⟨roundTrips_iff M,parse_returns_iff M⟩

/-- A key with two values. -/
def twoValues : Options where
  entries := [(['a'],[['1'],['2']])]
  distinct := by decide
  nonempty := by decide

/-- The second value is lost, and an empty text traps. -/
theorem second_value_lost : (∀ M, ¬ RoundTrips M twoValues false) ∧
    ∀ M, parseQueryString M [] = .error .index := by
  refine ⟨fun M trips => ?_,fun _ => rfl⟩
  obtain ⟨-,plain,-⟩ := (roundTrips_iff M twoValues false).mp trips
  obtain ⟨value,one,-⟩ := plain _ List.mem_cons_self
  exact absurd (congrArg List.length one) (by simp)

end QueryStrings
