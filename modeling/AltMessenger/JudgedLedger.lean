import Mathlib.Data.List.DropRight
import Mathlib.Data.List.Nodup

/-!
A ledger of entries that spend some coins and give others. Each entry is judged when its turn comes,
by what became of those before it. One that is invalid does nothing; one that is pending spends, but
gives nothing, and what it spends is not missing until the next entry is accepted.
-/
namespace JudgedLedger

inductive Fate where
  | accepted
  | pending
  | invalid
deriving DecidableEq, Repr

/-- There is an entry of this fate, and of this kind. -/
def WithFate {τ : Type} (before : List (τ × Fate)) (fate : Fate) (P : τ → Prop) : Prop :=
  ∃ m ∈ before, m.2 = fate ∧ P m.1

instance {τ : Type} (before : List (τ × Fate)) (fate : Fate) (P : τ → Prop) [DecidablePred P] :
    Decidable (WithFate before fate P) :=
  inferInstanceAs (Decidable (∃ m ∈ before, m.2 = fate ∧ P m.1))

section Judged
variable {τ κ : Type} (judge : List (τ × Fate) → τ → Fate) (spends gives : τ → List κ)

/-- The entries in their order, with what became of each -/
def marks (entries : List τ) : List (τ × Fate) :=
  entries.foldl (fun before entry => before ++ [(entry,judge before entry)]) []

def spent (before : List (τ × Fate)) : List κ :=
  (before.filter fun m => m.2 ≠ .invalid).flatMap fun m => spends m.1

def given (before : List (τ × Fate)) : List κ :=
  (before.filter fun m => m.2 = .accepted).flatMap fun m => gives m.1

/-- The entries up to the last that is accepted -/
def swept (before : List (τ × Fate)) : List (τ × Fate) :=
  before.rdropWhile fun m => m.2 ≠ .accepted

variable [DecidableEq κ]

def unspent (before : List (τ × Fate)) : List κ :=
  (given gives before).filter fun coin => coin ∉ spent spends (swept before)

end Judged

section Lemmas
variable {τ κ : Type} {judge : List (τ × Fate) → τ → Fate} {spends gives : τ → List κ}
  {before front behind : List (τ × Fate)} {entry : τ} {entries : List τ} {coin : κ}

theorem marks_snoc (judge : List (τ × Fate) → τ → Fate) (entries : List τ) (entry : τ) :
    marks judge (entries ++ [entry]) =
      marks judge entries ++ [(entry,judge (marks judge entries) entry)] :=
  List.foldl_concat _ _ _ _

theorem marks_map (judge : List (τ × Fate) → τ → Fate) (entries : List τ) :
    (marks judge entries).map Prod.fst = entries := by
  induction entries using List.reverseRecOn with
  | nil => rfl
  | append_singleton entries entry ih => rw [marks_snoc, List.map_append, ih]; rfl

/-- Each entry is judged by those before it. -/
theorem marks_judged {m : τ × Fate} (parts : marks judge entries = front ++ m :: behind) :
    m.2 = judge front m.1 := by
  induction entries using List.reverseRecOn generalizing behind with
  | nil => cases front <;> cases parts
  | append_singleton entries entry ih =>
    rw [marks_snoc] at parts
    rcases List.eq_nil_or_concat' behind with rfl | ⟨inner,last,rfl⟩
    · obtain ⟨same,one⟩ := List.append_inj' parts rfl
      cases one
      rw [same]
    · rw [← List.cons_append, ← List.append_assoc] at parts
      exact ih (List.append_inj' parts rfl).1

theorem withFate_snoc {fate sought : Fate} {P : τ → Prop} :
    WithFate (before ++ [(entry,fate)]) sought P ↔
      WithFate before sought P ∨ fate = sought ∧ P entry := by
  constructor
  · rintro ⟨m,there,same⟩
    rcases List.mem_append.mp there with inside | last
    · exact .inl ⟨m,inside,same⟩
    · cases List.mem_singleton.mp last
      exact .inr same
  · rintro (⟨m,there,same⟩ | same)
    · exact ⟨m,List.mem_append_left _ there,same⟩
    · exact ⟨_,List.mem_append_right _ (List.mem_singleton_self _),same⟩

theorem mem_spent :
    coin ∈ spent spends before ↔ ∃ m ∈ before, m.2 ≠ .invalid ∧ coin ∈ spends m.1 := by
  simp only [spent, List.mem_flatMap, List.mem_filter, decide_eq_true_eq, and_assoc]

theorem mem_given :
    coin ∈ given gives before ↔ ∃ m ∈ before, m.2 = .accepted ∧ coin ∈ gives m.1 := by
  simp only [given, List.mem_flatMap, List.mem_filter, decide_eq_true_eq, and_assoc]

theorem given_append :
    given gives (front ++ behind) = given gives front ++ given gives behind := by
  rw [given, List.filter_append, List.flatMap_append]
  rfl

theorem spent_append :
    spent spends (front ++ behind) = spent spends front ++ spent spends behind := by
  rw [spent, List.filter_append, List.flatMap_append]
  rfl

theorem spent_snoc (fate : Fate) : spent spends (before ++ [(entry,fate)]) =
    spent spends before ++ if fate = .invalid then [] else spends entry := by
  rw [spent_append]
  congr 1
  cases fate <;> simp [spent]

theorem swept_accept (before : List (τ × Fate)) (entry : τ) :
    swept (before ++ [(entry,Fate.accepted)]) = before ++ [(entry,Fate.accepted)] :=
  List.rdropWhile_concat_neg _ _ _ (by simp)

theorem swept_other {m : τ × Fate} (other : m.2 ≠ .accepted) :
    swept (before ++ [m]) = swept before :=
  List.rdropWhile_concat_pos _ _ _ (decide_eq_true other)

theorem swept_prefix (before : List (τ × Fate)) : swept before <+: before :=
  List.rdropWhile_prefix _ _

theorem spent_swept (there : coin ∈ spent spends (swept before)) : coin ∈ spent spends before := by
  obtain ⟨rest,parts⟩ := swept_prefix before
  rw [← parts, spent_append]
  exact List.mem_append_left _ there

theorem swept_reaches {m : τ × Fate} (accepted : m.2 = .accepted) (rest : List (τ × Fate)) :
    before ++ [m] <+: swept (before ++ [m] ++ rest) := by
  induction rest using List.reverseRecOn with
  | nil =>
    have kept : swept (before ++ [m]) = before ++ [m] :=
      List.rdropWhile_concat_neg _ _ _ (by simpa using accepted)
    simp only [List.append_nil, kept, List.prefix_rfl]
  | append_singleton rest last ih =>
    rw [← List.append_assoc]
    by_cases last_one : last.2 = .accepted
    · rw [swept, List.rdropWhile_concat_neg _ _ _ (by simpa using last_one), List.append_assoc]
      exact List.prefix_append _ _
    · rw [swept_other last_one]
      exact ih

/-- Who spends something takes it away, once an entry is accepted with it or behind it. -/
theorem mem_swept {m : τ × Fate} : m ∈ swept before ↔
    ∃ front behind, before = front ++ m :: behind ∧ ∃ later ∈ m :: behind, later.2 = .accepted := by
  constructor
  · intro there
    obtain ⟨rest,whole⟩ := swept_prefix before
    have last := List.rdropWhile_last_not (fun m : τ × Fate => decide (m.2 ≠ .accepted)) before
      (List.ne_nil_of_mem there)
    obtain ⟨front,behind,parts⟩ := List.append_of_mem there
    refine ⟨front,behind ++ rest,?_,(m :: behind).getLast (List.cons_ne_nil _ _),?_,?_⟩
    · rw [← whole, parts]
      simp
    · exact List.mem_append_left rest (List.getLast_mem _)
    · have ends : (swept before).getLast (List.ne_nil_of_mem there) =
          (m :: behind).getLast (List.cons_ne_nil _ _) := by
        simp only [parts]
        exact List.getLast_append_of_ne_nil _ _
      rw [← ends]
      exact not_not.mp fun other => last (decide_eq_true other)
  · rintro ⟨front,behind,rfl,later,there,accepted⟩
    obtain ⟨inner,outer,parts⟩ := List.append_of_mem there
    have covered : front ++ inner ++ [later] <+: swept (front ++ m :: behind) := by
      have same : front ++ m :: behind = front ++ inner ++ [later] ++ outer := by
        rw [parts]
        simp
      rw [same]
      exact swept_reaches accepted outer
    refine covered.subset ?_
    cases inner with
    | nil =>
      cases parts
      simp
    | cons first inner =>
      cases parts
      simp

variable [DecidableEq κ]

/-- What is left when an entry is accepted: what there was and what it gives, without what anyone
    has spent. -/
theorem unspent_accept (before : List (τ × Fate)) (entry : τ) :
    unspent spends gives (before ++ [(entry,Fate.accepted)]) =
      (unspent spends gives before ++ gives entry).filter fun coin =>
        coin ∉ spent spends (before ++ [(entry,Fate.accepted)]) := by
  have gives : given gives [(entry,Fate.accepted)] = gives entry := List.append_nil _
  rw [unspent, swept_accept, given_append, gives, List.filter_append, List.filter_append, unspent,
    List.filter_filter]
  congr 1
  refine List.filter_congr fun coin _ => ?_
  by_cases there : coin ∈ spent spends (swept before)
  · have later : coin ∈ spent spends (before ++ [(entry,Fate.accepted)]) := by
      rw [spent_append]
      exact List.mem_append_left _ (spent_swept there)
    simp only [there, later, not_true_eq_false, decide_false, Bool.and_false]
  · simp only [there, not_false_eq_true, decide_true, Bool.and_true]

theorem unspent_other {m : τ × Fate} (other : m.2 ≠ .accepted) :
    unspent spends gives (before ++ [m]) = unspent spends gives before := by
  have nothing : given gives [m] = [] := by
    rw [given, List.filter_cons_of_neg (by simpa using other)]
    rfl
  rw [unspent, given_append, nothing, List.append_nil, swept_other other]
  rfl

theorem mem_unspent : coin ∈ unspent spends gives before ↔
    coin ∈ given gives before ∧ coin ∉ spent spends (swept before) := by
  rw [unspent, List.mem_filter, decide_eq_true_eq]

end Lemmas

end JudgedLedger
