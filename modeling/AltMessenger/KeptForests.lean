import Mathlib.Logic.Relation

/-!
Nodes that name a parent one below them, of which only some are kept, so that the way down from a
node ends where its parent is missing. The loops that go down to a height, and from two nodes to
where they join, turn at most as often as the first node is high.
-/
namespace KeptForests
variable {β κ : Type}

section Loops
variable (parent : β → Option β) (height : β → Nat)

/-- The ancestor so many generations back -/
def ancestor : Nat → β → Option β
  | 0, b => some b
  | n + 1, b => (parent b).bind (ancestor n)

/-- The node and its ancestors, at most so many -/
def lineage : Nat → Option β → List β
  | n + 1, some b => b :: lineage n (parent b)
  | _, _ => []

/-- `while (b && b->height > limit) b = parent(b)` -/
def descend (limit : Nat) : Nat → β → Option (Option β)
  | 0, _ => none
  | fuel + 1, b =>
    if limit < height b then
      match parent b with
      | none => some none
      | some b => descend limit fuel b
    else some (some b)

variable [DecidableEq κ] (key : β → κ)

/-- `while (b && b2 && b != b2) { b = parent(b); if (b && b->height < b2->height) b2 =
    parent(b2); }` -/
def meet : Nat → β → β → Option (Option β × Option β)
  | 0, _, _ => none
  | fuel + 1, b, b2 =>
    if key b = key b2 then some (some b,some b2)
    else
      match parent b with
      | none => some (none,some b2)
      | some b =>
        if height b < height b2 then
          match parent b2 with
          | none => some (some b,none)
          | some b2 => meet fuel b b2
        else meet fuel b b2

end Loops

/-- One comes from a node to another by going down. -/
def Reaches (parent : β → Option β) : β → β → Prop :=
  Relation.ReflTransGen fun b p => parent b = some p

/-- The way down ends there. -/
def Ends (parent : β → Option β) (b e : β) : Prop := Reaches parent b e ∧ parent e = none

/-- The parent of a node is one below, and as good as it. -/
structure Forest (parent : β → Option β) (height : β → Nat) (kept : β → Prop) : Prop where
  closed : ∀ {b p}, kept b → parent b = some p → kept p
  falls : ∀ {b p}, kept b → parent b = some p → height b = height p + 1

section Ways
variable {parent : β → Option β} {b c d e p : β}

theorem reaches_next (next : parent b = some p) (reaches : Reaches parent b c) :
    c = b ∨ Reaches parent p c := by
  rcases reaches.cases_head with same | ⟨p',next',later⟩
  · exact .inl same.symm
  · cases next.symm.trans next'
    exact .inr later

theorem ancestor_reaches {n : Nat} (found : ancestor parent n b = some c) :
    Reaches parent b c := by
  induction n generalizing b with
  | zero =>
    cases found
    exact .refl
  | succ n ih =>
    obtain ⟨p,next,found⟩ := Option.bind_eq_some_iff.mp found
    exact (ih found).head next

theorem lineage_getElem (n k : Nat) (b : β) :
    (lineage parent n (some b))[k]? = if k < n then ancestor parent k b else none := by
  induction n generalizing b k with
  | zero => rfl
  | succ n ih =>
    rw [lineage]
    cases k with
    | zero => rfl
    | succ k =>
      simp only [List.getElem?_cons_succ, ancestor, Nat.succ_lt_succ_iff]
      cases parent b with
      | none => cases n <;> simp [lineage]
      | some p => rw [ih, Option.bind_some]

theorem Ends.reaches_end (ends : Ends parent b e) (reaches : Reaches parent b c) :
    Reaches parent c e := by
  obtain ⟨down,last⟩ := ends
  induction down using Relation.ReflTransGen.head_induction_on with
  | refl =>
    rcases reaches.cases_head with same | ⟨p,next,-⟩
    · rw [same]
      exact .refl
    · rw [last] at next
      cases next
  | head next down ih =>
    rcases reaches_next next reaches with same | later
    · rw [same]
      exact down.head next
    · exact ih later

theorem Ends.next (ends : Ends parent b e) (next : parent b = some p) : Ends parent p e :=
  ⟨ends.reaches_end (.single next),ends.2⟩

theorem Ends.self (ends : Ends parent b e) (none_below : parent b = none) : e = b := by
  rcases ends.1.cases_head with same | ⟨p,next,-⟩
  · exact same.symm
  · rw [none_below] at next
    cases next

theorem Reaches.mono {parent' : β → Option β}
    (fewer : ∀ b p, parent' b = some p → parent b = some p) (reaches : Reaches parent' b c) :
    Reaches parent b c :=
  Relation.ReflTransGen.mono fewer _ _ reaches

end Ways

section Heights
variable {parent : β → Option β} {height : β → Nat} {kept : β → Prop} {b c d e : β}

theorem Forest.reaches (forest : Forest parent height kept) (inside : kept b)
    (reaches : Reaches parent b c) : kept c ∧ height c ≤ height b := by
  induction reaches with
  | refl => exact ⟨inside,Nat.le_refl _⟩
  | tail _ next ih =>
    have step := forest.falls ih.1 next
    exact ⟨forest.closed ih.1 next,by omega⟩

/-- A node that is reached is this one, or it is below. -/
theorem Forest.reaches_lt (forest : Forest parent height kept) (inside : kept b)
    (reaches : Reaches parent b c) (other : c ≠ b) : height c < height b := by
  rcases reaches.cases_head with same | ⟨p,next,later⟩
  · exact absurd same.symm other
  · have step := forest.falls inside next
    have below := (forest.reaches (forest.closed inside next) later).2
    omega

theorem Forest.ancestor_height (forest : Forest parent height kept) {n : Nat} (inside : kept b)
    (found : ancestor parent n b = some c) : height b = height c + n := by
  induction n generalizing b with
  | zero =>
    cases found
    rfl
  | succ n ih =>
    obtain ⟨p,next,found⟩ := Option.bind_eq_some_iff.mp found
    have step := forest.falls inside next
    have rest := ih (forest.closed inside next) found
    omega

/-- Every way down ends. -/
theorem Forest.exists_end (forest : Forest parent height kept) (inside : kept b) :
    ∃ e, Ends parent b e := by
  induction high : height b using Nat.strongRecOn generalizing b with
  | ind h ih =>
    cases next : parent b with
    | none => exact ⟨b,.refl,next⟩
    | some p =>
      have step := forest.falls inside next
      obtain ⟨e,reaches,last⟩ := ih (height p) (by omega) (forest.closed inside next) rfl
      exact ⟨e,reaches.head next,last⟩

/-- One comes down to a height, unless the way ends above it. -/
theorem Forest.descend_spec (forest : Forest parent height kept) {limit fuel : Nat}
    (inside : kept b) (le : limit ≤ height b) (enough : height b < fuel)
    (ends : Ends parent b e) :
    (height e ≤ limit ∧ ∃ a, descend parent height limit fuel b = some (some a) ∧
        Reaches parent b a ∧ height a = limit) ∨
      (limit < height e ∧ descend parent height limit fuel b = some none) := by
  induction fuel generalizing b with
  | zero => omega
  | succ fuel ih =>
    rw [descend]
    split
    case isTrue above =>
      cases next : parent b with
      | none =>
        rw [ends.self next]
        exact .inr ⟨above,rfl⟩
      | some p =>
        have step := forest.falls inside next
        rcases ih (forest.closed inside next) (by omega) (by omega) (ends.next next) with
          ⟨below,a,found,reaches,high⟩ | short
        · exact .inl ⟨below,a,found,reaches.head next,high⟩
        · exact .inr short
    case isFalse there =>
      have below := (forest.reaches inside ends.1).2
      exact .inl ⟨by omega,b,rfl,.refl,by omega⟩

/-- From two nodes one comes to the highest that both reach. Where there is none, the first to be
    missed is on the side whose way ends no lower, or else, one further down, on the other. -/
theorem Forest.meet_spec [DecidableEq κ] (forest : Forest parent height kept) {key : β → κ}
    (same : ∀ {b c}, kept b → kept c → key b = key c → b = c) {b2 e2 : β} {fuel : Nat}
    (inside : kept b) (inside2 : kept b2) (le : height b2 ≤ height b) (enough : height b < fuel)
    (ends : Ends parent b e) (ends2 : Ends parent b2 e2) :
    (∃ c, meet parent height key fuel b b2 = some (some c,some c) ∧ Reaches parent b c ∧
        Reaches parent b2 c ∧ ∀ d, Reaches parent b d → Reaches parent b2 d → Reaches parent c d) ∨
      (∀ d, Reaches parent b d → ¬ Reaches parent b2 d) ∧
        ((height e2 ≤ height e ∧ ∃ c, meet parent height key fuel b b2 = some (none,some c)) ∨
          (height e < height e2 ∧ ∃ c, meet parent height key fuel b b2 = some (some c,none) ∧
            Reaches parent b c ∧ height c + 1 = height e2)) := by
  induction fuel generalizing b b2 with
  | zero => omega
  | succ fuel ih =>
    rw [meet]
    split
    case isTrue equal =>
      cases same inside inside2 equal
      exact .inl ⟨b,rfl,.refl,.refl,fun d down _ => down⟩
    case isFalse differ =>
      have distinct : b ≠ b2 := fun one => differ (congrArg key one)
      have apart : ¬ Reaches parent b2 b := fun down => by
        have less := forest.reaches_lt inside2 down distinct
        omega
      cases next : parent b with
      | none =>
        cases ends.self next
        refine .inr ⟨fun d down down2 => ?_,
          .inl ⟨Nat.le_trans (forest.reaches inside2 ends2.1).2 le,b2,rfl⟩⟩
        rcases down.cases_head with rfl | ⟨p,next',-⟩
        · exact apart down2
        · rw [next] at next'
          cases next'
      | some p =>
        have step := forest.falls inside next
        have inside_p := forest.closed inside next
        have ends' := ends.next next
        have from_p : ∀ d, Reaches parent b d → Reaches parent b2 d → Reaches parent p d := by
          intro d down down2
          rcases reaches_next next down with rfl | later
          · exact absurd down2 apart
          · exact later
        dsimp only
        split
        case isTrue below =>
          have level : height b = height b2 := by omega
          have past_b2 : ∀ d, Reaches parent b d → Reaches parent b2 d → d ≠ b2 := by
            intro d down down2 one
            subst one
            have less := forest.reaches_lt inside down distinct.symm
            omega
          cases next2 : parent b2 with
          | none =>
            cases ends2.self next2
            have low := (forest.reaches inside_p ends'.1).2
            refine .inr ⟨fun d down down2 => ?_,.inr ⟨by omega,p,rfl,.single next,by omega⟩⟩
            rcases down2.cases_head with one | ⟨p2,next2',-⟩
            · exact past_b2 d down down2 one.symm
            · rw [next2] at next2'
              cases next2'
          | some p2 =>
            have step2 := forest.falls inside2 next2
            have from_p2 : ∀ d, Reaches parent b d → Reaches parent b2 d → Reaches parent p2 d :=
              fun d down down2 => (reaches_next next2 down2).resolve_left (past_b2 d down down2)
            rcases ih inside_p (forest.closed inside2 next2) (by omega) (by omega) ends'
              (ends2.next next2) with ⟨c,found,down,down2,top⟩ | ⟨none_common,rest⟩
            · exact .inl ⟨c,found,down.head next,down2.head next2,fun d one other =>
                top d (from_p d one other) (from_p2 d one other)⟩
            · refine .inr ⟨fun d one other =>
                none_common d (from_p d one other) (from_p2 d one other),?_⟩
              rcases rest with missing | ⟨lower,c,found,down,high⟩
              · exact .inl missing
              · exact .inr ⟨lower,c,found,down.head next,high⟩
        case isFalse above =>
          rcases ih inside_p inside2 (by omega) (by omega) ends' ends2 with
            ⟨c,found,down,down2,top⟩ | ⟨none_common,rest⟩
          · exact .inl ⟨c,found,down.head next,down2,fun d one other =>
              top d (from_p d one other) other⟩
          · refine .inr ⟨fun d one other => none_common d (from_p d one other) other,?_⟩
            rcases rest with missing | ⟨lower,c,found,down,high⟩
            · exact .inl missing
            · exact .inr ⟨lower,c,found,down.head next,high⟩

end Heights

end KeptForests
