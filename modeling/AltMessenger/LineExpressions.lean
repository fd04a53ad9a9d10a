import Mathlib.Data.List.TakeWhile
import Mathlib.Data.List.Basic

/-!
Regular expressions for a whole line: characters and greedy groups of characters, one after another,
matched with backtracking from the longest group to the shortest. And expressions that are searched
for in a text, where each match is replaced by its group.
-/
namespace LineExpressions

inductive Atom where
  | char (c : Char)
  | any
  /-- as many characters as there are with a property, and at least so many -/
  | group (inside : Char → Bool) (least : Nat)

/-- The characters that end a line, one alone. -/
def isTerminator (c : Char) : Bool :=
  10 ≤ c.toNat && c.toNat ≤ 13 || c.toNat = 0x85 || c.toNat = 0x2028 || c.toNat = 0x2029

/-- Where `$` matches: at the end, and before a terminator there. -/
def atEnd : List Char → Bool
  | [] => true
  | [c] => isTerminator c
  | _ => false

/-- The first result from the greatest number down to the least one. -/
def longest {α : Type} (f : Nat → Option α) (least : Nat) : Nat → Option α
  | 0 => if least = 0 then f 0 else none
  | n + 1 => if least ≤ n + 1 then (f (n + 1)).or (longest f least n) else none

/-- The texts of the groups, where the expression matches from the start to the end. -/
def run : List Atom → List Char → Option (List (List Char))
  | [], text => if atEnd text then some [] else none
  | .char c :: atoms, text =>
    match text with
    | d :: text => if d = c then run atoms text else none
    | [] => none
  | .any :: atoms, text =>
    match text with
    | d :: text => if isTerminator d then none else run atoms text
    | [] => none
  | .group inside least :: atoms, text =>
    longest (fun count => (run atoms (text.drop count)).map (text.take count :: ·)) least
      (text.takeWhile inside).length

section Longest
variable {α : Type} {f : Nat → Option α} {least : Nat}

theorem longest_isSome_iff (f : Nat → Option α) (least n : Nat) :
    (longest f least n).isSome ↔ ∃ count, least ≤ count ∧ count ≤ n ∧ (f count).isSome := by
  induction n with
  | zero =>
    unfold longest
    split
    case isTrue zero =>
      constructor
      · exact fun found => ⟨0,by omega,le_refl _,found⟩
      · rintro ⟨count,-,above,found⟩
        rwa [Nat.le_zero.mp above] at found
    case isFalse =>
      refine iff_of_false (fun found => nomatch found) ?_
      rintro ⟨count,below,above,-⟩
      omega
  | succ n ih =>
    unfold longest
    split
    case isTrue =>
      rw [Option.isSome_or, Bool.or_eq_true, ih]
      constructor
      · rintro (found | ⟨count,below,above,found⟩)
        · exact ⟨n + 1,by assumption,le_refl _,found⟩
        · exact ⟨count,below,by omega,found⟩
      · rintro ⟨count,below,above,found⟩
        rcases Nat.lt_or_eq_of_le above with less | same
        · exact Or.inr ⟨count,below,by omega,found⟩
        · exact Or.inl (same ▸ found)
    case isFalse =>
      refine iff_of_false (fun found => nomatch found) ?_
      rintro ⟨count,below,above,-⟩
      omega

/-- The greatest number decides where no smaller one has a result unless it has. -/
theorem longest_greatest {n : Nat}
    (smaller : f n = none → ∀ count, least ≤ count → count < n → f count = none) :
    longest f least n = if least ≤ n then f n else none := by
  cases n with
  | zero =>
    unfold longest
    simp only [Nat.le_zero]
  | succ n =>
    unfold longest
    split
    case isTrue inside =>
      cases greatest : f (n + 1) with
      | some a => rfl
      | none =>
        rw [Option.none_or, ← Option.not_isSome_iff_eq_none, longest_isSome_iff]
        rintro ⟨count,below,above,found⟩
        rw [smaller greatest count below (by omega)] at found
        cases found
    case isFalse => rfl

end Longest

section Groups
variable {inside : Char → Bool} {least : Nat} {atoms : List Atom} {text : List Char}

/-- A group covers a front of the text, of characters inside, and the rest is matched behind it. -/
theorem group_isSome_iff : (run (.group inside least :: atoms) text).isSome ↔
    ∃ front rest, text = front ++ rest ∧ (∀ c ∈ front, inside c = true) ∧ least ≤ front.length ∧
      (run atoms rest).isSome := by
  rw [run, longest_isSome_iff]
  simp only [Option.isSome_map]
  constructor
  · rintro ⟨count,below,above,found⟩
    have fits := (List.takeWhile_prefix inside (l := text)).length_le
    refine ⟨text.take count,text.drop count,(List.take_append_drop count text).symm,?_,?_,found⟩
    · intro c there
      have front : text.take count <+: text.takeWhile inside := by
        have whole := List.takeWhile_prefix inside (l := text)
        exact List.prefix_of_prefix_length_le (List.take_prefix count text) whole
          (le_trans (List.length_take_le count text) above)
      exact List.mem_takeWhile_imp (front.subset there)
    · rw [List.length_take]
      omega
  · rintro ⟨front,rest,rfl,all,long,found⟩
    refine ⟨front.length,long,?_,by rwa [List.drop_left]⟩
    rw [List.takeWhile_append_of_pos all, List.length_append]
    exact Nat.le_add_right _ _

/-- Where a shorter group never helps, a group covers all that is inside. -/
theorem group_all {front rest : List Char} (all : ∀ c ∈ front, inside c = true)
    (ends : rest.head?.all fun c => !inside c)
    (shorter : run atoms rest = none → ∀ first last, front = first ++ last → last ≠ [] →
      run atoms (last ++ rest) = none) :
    run (.group inside least :: atoms) (front ++ rest) =
      if least ≤ front.length then (run atoms rest).map (front :: ·) else none := by
  have whole : (front ++ rest).takeWhile inside = front := by
    rw [List.takeWhile_append_of_pos all]
    cases rest with
    | nil => exact List.append_nil front
    | cons c rest =>
      have outside : inside c = false := by simpa using ends
      rw [List.takeWhile_cons_of_neg (by rw [outside]; decide), List.append_nil]
  rw [run, whole, longest_greatest]
  · rw [List.take_left, List.drop_left]
  · intro none_there count _ less
    rw [List.drop_left, Option.map_eq_none_iff] at none_there
    rw [Option.map_eq_none_iff, List.drop_append_of_le_length (le_of_lt less)]
    refine shorter none_there (front.take count) (front.drop count)
      (List.take_append_drop count front).symm ?_
    rw [← List.length_pos_iff, List.length_drop]
    omega

end Groups

section Literals
variable {atoms : List Atom}

/-- A literal covers a front that is the same. -/
theorem literal_run (literal text : List Char) : run (literal.map .char ++ atoms) text =
    if literal <+: text then run atoms (text.drop literal.length) else none := by
  induction literal generalizing text with
  | nil => rfl
  | cons c literal ih =>
    cases text with
    | nil => rfl
    | cons d text =>
      rw [List.map_cons, List.cons_append, run]
      by_cases same : d = c
      · rw [if_pos same, ih, same, List.length_cons, List.drop_succ_cons]
        simp only [List.cons_prefix_cons, true_and]
      · rw [if_neg same, if_neg fun front => same (List.cons_prefix_cons.mp front).1.symm]

theorem literal_isSome_iff (literal text : List Char) :
    (run (literal.map .char ++ atoms) text).isSome ↔
      ∃ rest, text = literal ++ rest ∧ (run atoms rest).isSome := by
  rw [literal_run]
  split
  case isTrue front =>
    obtain ⟨rest,rfl⟩ := front
    rw [List.drop_left]
    constructor
    · exact fun found => ⟨rest,rfl,found⟩
    · rintro ⟨other,same,found⟩
      rwa [List.append_cancel_left same]
  case isFalse no_front =>
    refine iff_of_false (fun found => nomatch found) ?_
    rintro ⟨rest,same,-⟩
    exact no_front ⟨rest,same.symm⟩

end Literals

/-- A piece of an expression that is searched for. -/
inductive Piece where
  | one (c : Char)
  /-- as many characters as there are with a property, which may be none -/
  | many (inside : Char → Bool)
  /-- the same, and what they are is the group of the expression -/
  | captured (inside : Char → Bool)

/-- Where the pieces match a front of a text: the group, which is empty if there is none, and what
    is behind. -/
def matchFront : List Piece → List Char → Option (List Char × List Char)
  | [], text => some ([],text)
  | .one c :: pieces, text =>
    match text with
    | d :: text => if d = c then matchFront pieces text else none
    | [] => none
  | .many inside :: pieces, text =>
    longest (fun count => matchFront pieces (text.drop count)) 0 (text.takeWhile inside).length
  | .captured inside :: pieces, text =>
    longest (fun count =>
        (matchFront pieces (text.drop count)).map fun found => (text.take count,found.2)) 0
      (text.takeWhile inside).length

/-- The matches from left to right, each replaced by its group, in a number of steps. -/
def replaceMatches (pieces : List Piece) : Nat → List Char → List Char
  | 0, text => text
  | steps + 1, text =>
    match matchFront pieces text with
    | some (group,rest) => group ++ replaceMatches pieces steps rest
    | none =>
      match text with
      | c :: text => c :: replaceMatches pieces steps text
      | [] => []

/-- Every match replaced. No match is empty, so that there are no more steps than characters. -/
def replacing (pieces : List Piece) (text : List Char) : List Char :=
  replaceMatches pieces text.length text

section Fronts
variable {pieces : List Piece} {text group rest : List Char}

theorem longest_some {α : Type} {f : Nat → Option α} {least n : Nat} {a : α}
    (found : longest f least n = some a) : ∃ count, f count = some a := by
  induction n with
  | zero =>
    unfold longest at found
    split at found
    case isTrue => exact ⟨0,found⟩
    case isFalse => cases found
  | succ n ih =>
    unfold longest at found
    split at found
    case isTrue =>
      rcases Option.or_eq_some_iff.mp found with first | ⟨_,later⟩
      · exact ⟨n + 1,first⟩
      · exact ih later
    case isFalse => cases found

/-- What is behind a match is the end of the text. -/
theorem matchFront_suffix (found : matchFront pieces text = some (group,rest)) : rest <:+ text := by
  induction pieces generalizing text group with
  | nil =>
    cases found
    exact List.suffix_refl rest
  | cons piece pieces ih =>
    cases piece with
    | one c =>
      cases text with
      | nil => cases found
      | cons d text =>
        rw [matchFront] at found
        split at found
        case isTrue => exact (ih found).trans (List.suffix_cons d text)
        case isFalse => cases found
    | many inside =>
      obtain ⟨count,found⟩ := longest_some found
      exact (ih found).trans (List.drop_suffix count text)
    | captured inside =>
      obtain ⟨count,found⟩ := longest_some found
      obtain ⟨⟨inner,behind⟩,matched,same⟩ := Option.map_eq_some_iff.mp found
      cases same
      exact (ih matched).trans (List.drop_suffix count text)

/-- An expression that begins with a character matches no empty text. -/
theorem matchFront_shorter {c : Char}
    (found : matchFront (.one c :: pieces) text = some (group,rest)) :
    rest.length < text.length := by
  cases text with
  | nil => cases found
  | cons d text =>
    rw [matchFront] at found
    split at found
    case isTrue => exact Nat.lt_succ_of_le (matchFront_suffix found).length_le
    case isFalse => cases found

theorem matchFront_literal (literal text : List Char) :
    matchFront (literal.map .one ++ pieces) text =
      if literal <+: text then matchFront pieces (text.drop literal.length) else none := by
  induction literal generalizing text with
  | nil => rfl
  | cons c literal ih =>
    cases text with
    | nil => rfl
    | cons d text =>
      rw [List.map_cons, List.cons_append, matchFront]
      by_cases same : d = c
      · rw [if_pos same, ih, same, List.length_cons, List.drop_succ_cons]
        simp only [List.cons_prefix_cons, true_and]
      · rw [if_neg same, if_neg fun front => same (List.cons_prefix_cons.mp front).1.symm]

/-- At the end of an expression a piece takes all it can. -/
theorem matchFront_many (inside : Char → Bool) (text : List Char) :
    matchFront [.many inside] text = some ([],text.dropWhile inside) := by
  have rest : (text.takeWhile inside ++ text.dropWhile inside).drop
      (text.takeWhile inside).length = text.dropWhile inside := List.drop_left
  rw [List.takeWhile_append_dropWhile] at rest
  rw [matchFront, longest_greatest]
  · rw [if_pos (Nat.zero_le _), matchFront, rest]
  · intro never
    cases never

theorem replaceMatches_found {steps : Nat} (found : matchFront pieces text = some (group,rest)) :
    replaceMatches pieces (steps + 1) text = group ++ replaceMatches pieces steps rest := by
  conv_lhs => unfold replaceMatches
  rw [found]

theorem replaceMatches_kept {steps : Nat} {d : Char}
    (kept : matchFront pieces (d :: text) = none) :
    replaceMatches pieces (steps + 1) (d :: text) = d :: replaceMatches pieces steps text := by
  conv_lhs => unfold replaceMatches
  rw [kept]

/-- The number of steps does not matter if there are as many as characters. -/
theorem replaceMatches_enough {c : Char} {steps steps' : Nat} (enough : text.length ≤ steps)
    (enough' : text.length ≤ steps') :
    replaceMatches (.one c :: pieces) steps text =
      replaceMatches (.one c :: pieces) steps' text := by
  induction steps generalizing steps' text with
  | zero =>
    cases List.length_eq_zero_iff.mp (Nat.le_zero.mp enough)
    cases steps' with
    | zero => rfl
    | succ steps' => rfl
  | succ steps ih =>
    cases steps' with
    | zero =>
      cases List.length_eq_zero_iff.mp (Nat.le_zero.mp enough')
      rfl
    | succ steps' =>
      cases text with
      | nil => rfl
      | cons d text =>
        cases found : matchFront (.one c :: pieces) (d :: text) with
        | some result =>
          obtain ⟨group,rest⟩ := result
          have shorter := matchFront_shorter found
          rw [replaceMatches_found found, replaceMatches_found found,
            ih (Nat.le_of_lt_succ (lt_of_lt_of_le shorter enough))
              (Nat.le_of_lt_succ (lt_of_lt_of_le shorter enough'))]
        | none =>
          rw [replaceMatches_kept found, replaceMatches_kept found,
            ih (Nat.le_of_succ_le_succ enough) (Nat.le_of_succ_le_succ enough')]

theorem replacing_found {c : Char}
    (found : matchFront (.one c :: pieces) text = some (group,rest)) :
    replacing (.one c :: pieces) text = group ++ replacing (.one c :: pieces) rest := by
  have shorter := matchFront_shorter found
  cases text with
  | nil => cases found
  | cons d text =>
    rw [replacing, List.length_cons, replaceMatches_found found,
      replaceMatches_enough (Nat.le_of_lt_succ shorter) (le_refl _)]
    rfl

theorem replacing_kept {d : Char} (kept : matchFront pieces (d :: text) = none) :
    replacing pieces (d :: text) = d :: replacing pieces text := by
  rw [replacing, List.length_cons, replaceMatches_kept kept]
  rfl

/-- A text without a match stays what it is. -/
theorem replacing_never (never : ∀ behind, behind <:+ text → matchFront pieces behind = none) :
    replacing pieces text = text := by
  induction text with
  | nil => rfl
  | cons d text ih =>
    rw [replacing_kept (never _ (List.suffix_refl _)), ih fun behind suffix =>
      never behind (suffix.trans (List.suffix_cons d text))]

end Fronts

end LineExpressions
