import AltMessenger.TransitionRuns
import AltMessenger.MessageModel

/-!
Calls of `uploadMessage` by two users to each other, step by step. Each call
reads its own pointer once and then writes; two first messages may both find no
pointer and open a conversation each.
-/
namespace Conversations
open TransitionRuns MessageModel

/-- The database step a call takes next. -/
inductive Phase where
  | reading
  | storing : (location : Nat) → Phase
  | opening
  | pointingOwn
  | pointingOther
  | finished
  deriving DecidableEq, Repr

/-- A call; `opened` once it has found no pointer. -/
structure Call where
  values : Values
  phase : Phase
  opened : Bool
  deriving DecidableEq

structure State where
  db : Database Nat
  calls : List Call
  reported : List Nat

inductive Event where
  | begin : Values → Event
  | advance : Nat → Event
  deriving DecidableEq

def State.initial : State where
  db := { location := fun _ _ => none, conversations := [] }
  calls := []
  reported := []

/-- One database step of call `i`. A new location, and the key of its message,
    is a key no other call makes. `completion(true)` comes with the answer to
    the message; for a new conversation the two pointers are still to be written. -/
def advance (s : State) (i : Nat) (call : Call) : Option State :=
  let fromID := call.values.fromID
  let toID := call.values.toID
  match call.phase with
  | .reading =>
    match s.db.location fromID toID with
    | some location =>
      some { s with calls := s.calls.set i { call with phase := .storing location } }
    | none => some { s with calls := s.calls.set i { call with phase := .opening, opened := true } }
  | .storing location =>
    some { db := s.db.setValue location i call.values
           calls := s.calls.set i { call with phase := .finished }
           reported := s.reported ++ [i] }
  | .opening =>
    some { db := s.db.setValue i i call.values
           calls := s.calls.set i { call with phase := .pointingOwn }
           reported := s.reported ++ [i] }
  | .pointingOwn =>
    some { s with
      db := s.db.updateLocation fromID toID i
      calls := s.calls.set i { call with phase := .pointingOther } }
  | .pointingOther =>
    some { s with
      db := s.db.updateLocation toID fromID i
      calls := s.calls.set i { call with phase := .finished } }
  | .finished => none

/-- The calls are made by the two users to each other. -/
def step (a b : UID) (s : State) : Event → Option State
  | .begin values =>
    if values.fromID = a ∧ values.toID = b ∨ values.fromID = b ∧ values.toID = a then
      some { s with calls := s.calls ++ [{ values, phase := .reading, opened := false }] }
    else none
  | .advance i =>
    match s.calls[i]? with
    | none => none
    | some call => advance s i call

/-- Every call has finished. -/
def Complete (s : State) : Prop := ∀ call ∈ s.calls, call.phase = .finished

/-- Both users are pointed to one location, and all that was reported is there. -/
structure Shared (a b : UID) (s : State) : Prop where
  pointers : s.db.location a b = s.db.location b a
  stored : ∀ i ∈ s.reported, ∃ location values, s.db.location a b = some location ∧
    (location,i,values) ∈ s.db.conversations

/-- No call finds its pointer missing when another has done so before. -/
def FirstAlone (s : State) : Event → Prop
  | .advance i =>
    ∀ call ∈ s.calls[i]?, call.phase = .reading →
      s.db.location call.values.fromID call.values.toID = none →
        ∀ other ∈ s.calls, other.opened = false
  | .begin _ => True

instance (s : State) : (e : Event) → Decidable (FirstAlone s e)
  | .advance i => inferInstanceAs (Decidable (∀ call ∈ s.calls[i]?, _ → _ → _))
  | .begin _ => .isTrue trivial

/-- What one step of a call does, phase by phase. -/
theorem advance_cases {s t : State} {i : Nat} {call : Call} (taken : advance s i call = some t) :
    (∃ location, call.phase = .reading ∧
      s.db.location call.values.fromID call.values.toID = some location ∧
      t = { s with calls := s.calls.set i { call with phase := .storing location } }) ∨
    (call.phase = .reading ∧ s.db.location call.values.fromID call.values.toID = none ∧
      t = { s with calls := s.calls.set i { call with phase := .opening, opened := true } }) ∨
    (∃ location, call.phase = .storing location ∧
      t = { db := s.db.setValue location i call.values
            calls := s.calls.set i { call with phase := .finished }
            reported := s.reported ++ [i] }) ∨
    (call.phase = .opening ∧
      t = { db := s.db.setValue i i call.values
            calls := s.calls.set i { call with phase := .pointingOwn }
            reported := s.reported ++ [i] }) ∨
    (call.phase = .pointingOwn ∧
      t = { s with
        db := s.db.updateLocation call.values.fromID call.values.toID i
        calls := s.calls.set i { call with phase := .pointingOther } }) ∨
    (call.phase = .pointingOther ∧
      t = { s with
        db := s.db.updateLocation call.values.toID call.values.fromID i
        calls := s.calls.set i { call with phase := .finished } }) := by
  unfold advance at taken
  cases phase : call.phase with
  | reading =>
    rw [phase] at taken
    dsimp only at taken
    cases look : s.db.location call.values.fromID call.values.toID with
    | some location =>
      rw [look] at taken
      cases taken
      exact Or.inl ⟨location,rfl,rfl,rfl⟩
    | none =>
      rw [look] at taken
      cases taken
      exact Or.inr (Or.inl ⟨rfl,rfl,rfl⟩)
  | storing location =>
    rw [phase] at taken
    cases taken
    exact Or.inr (Or.inr (Or.inl ⟨location,rfl,rfl⟩))
  | opening =>
    rw [phase] at taken
    cases taken
    exact Or.inr (Or.inr (Or.inr (Or.inl ⟨rfl,rfl⟩)))
  | pointingOwn =>
    rw [phase] at taken
    cases taken
    exact Or.inr (Or.inr (Or.inr (Or.inr (Or.inl ⟨rfl,rfl⟩))))
  | pointingOther =>
    rw [phase] at taken
    cases taken
    exact Or.inr (Or.inr (Or.inr (Or.inr (Or.inr ⟨rfl,rfl⟩))))
  | finished =>
    rw [phase] at taken
    cases taken

/-- Call `k` has found no pointer. -/
def Opened (calls : List Call) (k : Nat) : Prop :=
  ∃ call, calls[k]? = some call ∧ call.opened = true

section Calls

variable {calls : List Call} {i : Nat} {call next : Call} (here : calls[i]? = some call)
include here

theorem call_set {j : Nat} {other : Call} (there : (calls.set i next)[j]? = some other) :
    j = i ∧ other = next ∨ j ≠ i ∧ calls[j]? = some other := by
  have bound := (List.getElem?_eq_some_iff.mp here).1
  by_cases same : i = j
  · rw [← same, List.getElem?_set_self bound] at there
    cases there
    exact Or.inl ⟨same.symm,rfl⟩
  · rw [List.getElem?_set_ne same] at there
    exact Or.inr ⟨fun back => same back.symm,there⟩

theorem opened_set (kept : next.opened = call.opened) {k : Nat} :
    Opened (calls.set i next) k ↔ Opened calls k := by
  have bound := (List.getElem?_eq_some_iff.mp here).1
  unfold Opened
  by_cases same : i = k
  · rw [← same, List.getElem?_set_self bound, here]
    simp [kept]
  · rw [List.getElem?_set_ne same]

theorem opened_more (now : next.opened = true) {k : Nat} :
    Opened (calls.set i next) k ↔ k = i ∨ Opened calls k := by
  have bound := (List.getElem?_eq_some_iff.mp here).1
  unfold Opened
  by_cases same : i = k
  · rw [← same, List.getElem?_set_self bound]
    simp [now]
  · have apart : ¬ k = i := fun back => same back.symm
    rw [List.getElem?_set_ne same]
    simp [apart]

theorem not_opened (unopened : call.opened = false) : ¬ Opened calls i := by
  rintro ⟨other,there,opened⟩
  rw [here] at there
  cases there
  rw [unopened] at opened
  cases opened

end Calls

theorem opened_begin {calls : List Call} {call : Call} (new : call.opened = false) {k : Nat} :
    Opened (calls ++ [call]) k ↔ Opened calls k := by
  unfold Opened
  rcases Nat.lt_trichotomy k calls.length with before | here | after
  · rw [List.getElem?_append_left before]
  · subst here
    simp [new]
  · have none₁ : (calls ++ [call])[k]? = none := List.getElem?_eq_none (by simp; omega)
    have none₂ : calls[k]? = none := List.getElem?_eq_none (by omega)
    rw [none₁, none₂]

/-- No message of call `i` is stored. -/
def Unsent (s : State) (i : Nat) : Prop := ∀ entry ∈ s.db.conversations, entry.2.1 ≠ i

/-- Where call `i` stands, and what has happened to its message. -/
def CallOk (s : State) (i : Nat) (call : Call) : Prop :=
  match call.phase with
  | .reading => call.opened = false ∧ Unsent s i
  | .storing location => call.opened = false ∧ Unsent s i ∧ Opened s.calls location
  | .opening => call.opened = true ∧ Unsent s i
  | .pointingOwn => call.opened = true ∧ i ∈ s.reported
  | .pointingOther => call.opened = true ∧ i ∈ s.reported
  | .finished => call.opened = true → i ∈ s.reported

/-- What holds in every run: locations are those of calls that found no pointer,
    and such a call stores its own message there. -/
structure Base (a b : UID) (s : State) : Prop where
  users : ∀ call ∈ s.calls, call.values.fromID = a ∧ call.values.toID = b ∨
    call.values.fromID = b ∧ call.values.toID = a
  calls : ∀ i call, s.calls[i]? = some call → CallOk s i call
  pointer : ∀ x y k, s.db.location x y = some k → Opened s.calls k
  stored : ∀ entry ∈ s.db.conversations, Opened s.calls entry.1
  old : ∀ entry ∈ s.db.conversations, entry.2.1 < s.calls.length
  own : ∀ entry ∈ s.db.conversations, Opened s.calls entry.2.1 → entry.1 = entry.2.1
  reported : ∀ i ∈ s.reported, ∃ k values, (k,i,values) ∈ s.db.conversations

theorem callOk_frame {s t : State} {j : Nat} {call : Call} (ok : CallOk s j call)
    (opened : ∀ k, Opened s.calls k → Opened t.calls k)
    (reported : j ∈ s.reported → j ∈ t.reported) (unsent : Unsent s j → Unsent t j) :
    CallOk t j call := by
  unfold CallOk at *
  split at ok <;> grind

theorem Base.initial (a b : UID) : Base a b State.initial := by
  constructor <;> simp [State.initial]

section Steps

variable {a b : UID} {s : State} (base : Base a b s)
include base

theorem Base.begin {values : Values} (users : values.fromID = a ∧ values.toID = b ∨
      values.fromID = b ∧ values.toID = a) :
    Base a b { s with calls := s.calls ++ [{ values, phase := .reading, opened := false }] } := by
  have same : ∀ k, Opened (s.calls ++ [{ values, phase := .reading, opened := false }]) k ↔
      Opened s.calls k := fun k => opened_begin rfl
  constructor
  case users =>
    intro call mem
    rcases List.mem_append.mp mem with old | new
    · exact base.users call old
    · rw [List.mem_singleton.mp new]
      exact users
  case calls =>
    intro i call there
    have there : (s.calls ++ [_])[i]? = some call := there
    by_cases old : i < s.calls.length
    · rw [List.getElem?_append_left old] at there
      exact callOk_frame (base.calls i call there) (fun k => (same k).mpr) id id
    · rw [List.getElem?_append_right (by omega)] at there
      obtain ⟨_,rfl⟩ : i - s.calls.length = 0 ∧ _ = call := by
        simpa [List.getElem?_singleton] using there
      refine ⟨rfl,?_⟩
      intro entry mem mine
      exact old (mine ▸ base.old entry mem)
  case pointer => exact fun x y k there => (same k).mpr (base.pointer x y k there)
  case stored => exact fun entry mem => (same _).mpr (base.stored entry mem)
  case old =>
    intro entry mem
    have := base.old entry mem
    simp only [List.length_append, List.length_singleton]
    omega
  case own => exact fun entry mem opened => base.own entry mem ((same _).mp opened)
  case reported => exact base.reported

/-- One call moves on; the others see at most one more message and pointer. -/
theorem Base.move {i : Nat} {call next : Call} {t : State} (here : s.calls[i]? = some call)
    (calls : t.calls = s.calls.set i next) (values : next.values = call.values)
    (opened : ∀ k, Opened s.calls k → Opened t.calls k) (ok : CallOk t i next)
    (kept : ∀ j ∈ s.reported, j ∈ t.reported)
    (mine : ∀ entry ∈ t.db.conversations, entry.2.1 ≠ i → entry ∈ s.db.conversations)
    (pointer : ∀ x y k, t.db.location x y = some k → Opened t.calls k)
    (stored : ∀ entry ∈ t.db.conversations, Opened t.calls entry.1)
    (own : ∀ entry ∈ t.db.conversations, Opened t.calls entry.2.1 → entry.1 = entry.2.1)
    (reported : ∀ j ∈ t.reported, ∃ k values, (k,j,values) ∈ t.db.conversations) : Base a b t where
  users := by
    intro other mem
    rw [calls] at mem
    rcases List.mem_or_eq_of_mem_set mem with old | rfl
    · exact base.users other old
    · rw [values]
      exact base.users call (List.mem_of_getElem? here)
  calls := by
    intro j other there
    rw [calls] at there
    rcases call_set here there with ⟨rfl,rfl⟩ | ⟨apart,before⟩
    · exact ok
    · apply callOk_frame (base.calls j other before) opened (kept j)
      intro unsent entry mem same
      exact unsent entry (mine entry mem fun clash => apart (same.symm.trans clash)) same
  pointer := pointer
  stored := stored
  old := by
    intro entry mem
    rw [calls, List.length_set]
    by_cases same : entry.2.1 = i
    · rw [same]
      exact (List.getElem?_eq_some_iff.mp here).1
    · exact base.old entry (mine entry mem same)
  own := own
  reported := reported

/-- A pointer is written to the call's own location. -/
theorem Base.point {i : Nat} {call next : Call} {x y : UID} (here : s.calls[i]? = some call)
    (opened : call.opened = true) (values : next.values = call.values)
    (kept : next.opened = call.opened)
    (ok : CallOk { s with db := s.db.updateLocation x y i, calls := s.calls.set i next } i next) :
    Base a b { s with db := s.db.updateLocation x y i, calls := s.calls.set i next } := by
  have same : ∀ k, Opened (s.calls.set i next) k ↔ Opened s.calls k :=
    fun k => opened_set here kept
  apply base.move here rfl values (fun k => (same k).mpr) ok
  · exact fun _ mem => mem
  · exact fun _ mem _ => mem
  · intro x' y' k there
    apply (same k).mpr
    dsimp only [Database.updateLocation] at there
    split at there
    · cases there
      exact ⟨call,here,opened⟩
    · exact base.pointer x' y' k there
  · exact fun entry mem => (same _).mpr (base.stored entry mem)
  · exact fun entry mem there => base.own entry mem ((same _).mp there)
  · exact base.reported

/-- The message of the call is stored and reported. -/
theorem Base.store {i place : Nat} {call next : Call} (here : s.calls[i]? = some call)
    (values : next.values = call.values) (kept : next.opened = call.opened)
    (target : Opened s.calls place) (own : Opened s.calls i → place = i)
    (ok : CallOk { db := s.db.setValue place i call.values, calls := s.calls.set i next,
                   reported := s.reported ++ [i] } i next) :
    Base a b { db := s.db.setValue place i call.values, calls := s.calls.set i next,
               reported := s.reported ++ [i] } := by
  have same : ∀ k, Opened (s.calls.set i next) k ↔ Opened s.calls k :=
    fun k => opened_set here kept
  apply base.move here rfl values (fun k => (same k).mpr) ok
  · exact fun _ mem => List.mem_append_left _ mem
  · intro entry mem apart
    rcases List.mem_append.mp mem with old | new
    · exact old
    · rw [List.mem_singleton.mp new] at apart
      exact absurd rfl apart
  · exact fun x y k there => (same k).mpr (base.pointer x y k there)
  · intro entry mem
    apply (same _).mpr
    rcases List.mem_append.mp mem with old | new
    · exact base.stored entry old
    · rw [List.mem_singleton.mp new]
      exact target
  · intro entry mem there
    have there := (same _).mp there
    rcases List.mem_append.mp mem with old | new
    · exact base.own entry old there
    · rw [List.mem_singleton.mp new] at there ⊢
      exact own there
  · intro j mem
    rcases List.mem_append.mp mem with old | new
    · obtain ⟨k,values,stored⟩ := base.reported j old
      exact ⟨k,values,List.mem_append_left _ stored⟩
    · rw [List.mem_singleton.mp new]
      exact ⟨place,call.values,List.mem_append_right _ (List.mem_singleton.mpr rfl)⟩

/-- The call has read its pointer; with none there it is opened now. -/
theorem Base.read {i : Nat} {call next : Call} (here : s.calls[i]? = some call)
    (values : next.values = call.values) (unsent : Unsent s i)
    (opened : ∀ k, Opened (s.calls.set i next) k → k = i ∨ Opened s.calls k)
    (kept : ∀ k, Opened s.calls k → Opened (s.calls.set i next) k)
    (ok : CallOk { s with calls := s.calls.set i next } i next) :
    Base a b { s with calls := s.calls.set i next } := by
  apply base.move here rfl values kept ok
  · exact fun _ mem => mem
  · exact fun _ mem _ => mem
  · exact fun x y k there => kept k (base.pointer x y k there)
  · exact fun entry mem => kept _ (base.stored entry mem)
  · intro entry mem there
    rcases opened _ there with mine | before
    · exact absurd mine (unsent entry mem)
    · exact base.own entry mem before
  · exact base.reported

theorem Base.advance {i : Nat} {call : Call} (here : s.calls[i]? = some call) {t : State}
    (taken : advance s i call = some t) : Base a b t := by
  have ok := base.calls i call here
  unfold CallOk at ok
  rcases advance_cases taken with ⟨location,phase,look,rfl⟩ | ⟨phase,_,rfl⟩ | ⟨location,phase,rfl⟩ |
    ⟨phase,rfl⟩ | ⟨phase,rfl⟩ | ⟨phase,rfl⟩
  all_goals rw [phase] at ok
  · obtain ⟨unopened,unsent⟩ := ok
    have same : ∀ k, Opened (s.calls.set i { call with phase := .storing location }) k ↔
        Opened s.calls k := fun k => opened_set here (by rfl)
    apply base.read here (by rfl) unsent
    · exact fun k there => Or.inr ((same k).mp there)
    · exact fun k => (same k).mpr
    · exact ⟨unopened,unsent,(same location).mpr (base.pointer _ _ _ look)⟩
  · have more : ∀ k, Opened (s.calls.set i { call with phase := .opening, opened := true }) k ↔
        k = i ∨ Opened s.calls k := fun k => opened_more here (by rfl)
    apply base.read here (by rfl) ok.2
    · exact fun k => (more k).mp
    · exact fun k there => (more k).mpr (Or.inr there)
    · exact ⟨rfl,ok.2⟩
  · obtain ⟨unopened,_,target⟩ := ok
    apply base.store here (by rfl) (by rfl) target
    · exact fun opened => absurd opened (not_opened here unopened)
    · exact fun _ => List.mem_append_right _ (List.mem_singleton.mpr rfl)
  · apply base.store here (by rfl) (by rfl) ⟨call,here,ok.1⟩ fun _ => rfl
    exact ⟨ok.1,List.mem_append_right _ (List.mem_singleton.mpr rfl)⟩
  · exact base.point here ok.1 rfl rfl ⟨ok.1,ok.2⟩
  · exact base.point here ok.1 rfl rfl fun _ => ok.2

end Steps

/-- What a step can do: a call between the two users begins, or one goes on. -/
theorem step_cases {a b : UID} {s t : State} {e : Event} (taken : step a b s e = some t) :
    (∃ values : Values, (values.fromID = a ∧ values.toID = b ∨ values.fromID = b ∧ values.toID = a) ∧
      e = .begin values ∧
      t = { s with calls := s.calls ++ [{ values, phase := .reading, opened := false }] }) ∨
    (∃ i call, s.calls[i]? = some call ∧ e = .advance i ∧ advance s i call = some t) := by
  cases e with
  | begin values =>
    rw [step] at taken
    split at taken
    case isTrue users =>
      cases taken
      exact Or.inl ⟨values,users,rfl,rfl⟩
    case isFalse => cases taken
  | advance i =>
    rw [step] at taken
    split at taken
    case h_1 => cases taken
    case h_2 call here => exact Or.inr ⟨i,call,here,rfl,taken⟩

theorem step_base (a b : UID) (s : State) (e : Event) (t : State) (base : Base a b s)
    (taken : step a b s e = some t) : Base a b t := by
  obtain ⟨values,users,rfl,rfl⟩ | ⟨i,call,here,rfl,advanced⟩ := step_cases taken
  · exact base.begin users
  · exact base.advance here advanced

/-- One call alone has opened a conversation, and its pointers are where it has
    come to write them. -/
structure Alone (a b : UID) (s : State) : Prop where
  base : Base a b s
  one : ∀ i j, Opened s.calls i → Opened s.calls j → i = j
  own : ∀ i call, s.calls[i]? = some call → call.opened = true →
    call.phase = .pointingOther ∨ call.phase = .finished →
      s.db.location call.values.fromID call.values.toID = some i
  other : ∀ i call, s.calls[i]? = some call → call.opened = true → call.phase = .finished →
    s.db.location call.values.toID call.values.fromID = some i

theorem Alone.initial (a b : UID) : Alone a b State.initial := by
  constructor
  · exact Base.initial a b
  all_goals simp [State.initial, Opened]

/-- A step of a call that was and is the only one to open a conversation. -/
theorem Alone.move {a b : UID} {s t : State} (alone : Alone a b s) (base : Base a b t) {i : Nat}
    {call next : Call} (here : s.calls[i]? = some call) (calls : t.calls = s.calls.set i next)
    (one : ∀ i j, Opened t.calls i → Opened t.calls j → i = j)
    (before : ∀ k, k ≠ i → Opened t.calls k → t.db.location = s.db.location)
    (own : next.opened = true → next.phase = .pointingOther ∨ next.phase = .finished →
      t.db.location next.values.fromID next.values.toID = some i)
    (other : next.opened = true → next.phase = .finished →
      t.db.location next.values.toID next.values.fromID = some i) : Alone a b t where
  base := base
  one := one
  own := by
    intro j found there opened phase
    have mine : Opened t.calls j := ⟨found,there,opened⟩
    rw [calls] at there
    rcases call_set here there with ⟨rfl,rfl⟩ | ⟨apart,old⟩
    · exact own opened phase
    · rw [before j apart mine]
      exact alone.own j found old opened phase
  other := by
    intro j found there opened phase
    have mine : Opened t.calls j := ⟨found,there,opened⟩
    rw [calls] at there
    rcases call_set here there with ⟨rfl,rfl⟩ | ⟨apart,old⟩
    · exact other opened phase
    · rw [before j apart mine]
      exact alone.other j found old opened phase

/-- A step that opens nothing and writes no pointer. -/
theorem Alone.still {a b : UID} {s t : State} (alone : Alone a b s) (base : Base a b t) {i : Nat}
    {call next : Call} (here : s.calls[i]? = some call) (calls : t.calls = s.calls.set i next)
    (kept : next.opened = call.opened) (location : t.db.location = s.db.location)
    (early : next.opened = true → next.phase = .pointingOwn) : Alone a b t := by
  have same : ∀ k, Opened t.calls k ↔ Opened s.calls k := by
    intro k
    rw [calls]
    exact opened_set here kept
  apply alone.move base here calls
  · exact fun x y left right => alone.one x y ((same x).mp left) ((same y).mp right)
  · exact fun _ _ _ => location
  · intro opened phase
    rw [early opened] at phase
    rcases phase with phase | phase <;> cases phase
  · intro opened phase
    rw [early opened] at phase
    cases phase

/-- The one call that has opened a conversation writes a pointer. -/
theorem Alone.point {a b : UID} {s : State} (alone : Alone a b s) {i : Nat} {call next : Call}
    {x y : UID} (here : s.calls[i]? = some call) (opened : call.opened = true)
    (kept : next.opened = call.opened)
    (base : Base a b { s with db := s.db.updateLocation x y i, calls := s.calls.set i next })
    (own : next.phase = .pointingOther ∨ next.phase = .finished →
      (s.db.updateLocation x y i).location next.values.fromID next.values.toID = some i)
    (other : next.phase = .finished →
      (s.db.updateLocation x y i).location next.values.toID next.values.fromID = some i) :
    Alone a b { s with db := s.db.updateLocation x y i, calls := s.calls.set i next } := by
  have same : ∀ k, Opened (s.calls.set i next) k ↔ Opened s.calls k :=
    fun k => opened_set here kept
  have only : ∀ k, Opened (s.calls.set i next) k → k = i :=
    fun k there => alone.one k i ((same k).mp there) ⟨call,here,opened⟩
  apply alone.move base here rfl
  · exact fun x y left right => (only x left).trans (only y right).symm
  · exact fun k apart there => absurd (only k there) apart
  · exact fun _ => own
  · exact fun _ => other

theorem Alone.advance {a b : UID} {s t : State} (alone : Alone a b s) {i : Nat} {call : Call}
    (here : s.calls[i]? = some call) (first : FirstAlone s (.advance i))
    (taken : advance s i call = some t) : Alone a b t := by
  have base := alone.base.advance here taken
  have ok := alone.base.calls i call here
  unfold CallOk at ok
  rcases advance_cases taken with ⟨location,phase,look,rfl⟩ | ⟨phase,look,rfl⟩ |
    ⟨location,phase,rfl⟩ | ⟨phase,rfl⟩ | ⟨phase,rfl⟩ | ⟨phase,rfl⟩
  all_goals rw [phase] at ok
  · apply alone.still base here (by rfl) (by rfl) rfl
    intro opened
    exact absurd opened (by simp [ok.1])
  · have nobody : ∀ k, ¬ Opened s.calls k := by
      rintro k ⟨other,there,opened⟩
      rw [first call here phase look other (List.mem_of_getElem? there)] at opened
      cases opened
    have only : ∀ k, Opened (s.calls.set i { call with phase := .opening, opened := true }) k →
        k = i := fun k there => ((opened_more here (by rfl)).mp there).resolve_right (nobody k)
    apply alone.move base here (by rfl)
    · exact fun x y left right => (only x left).trans (only y right).symm
    · exact fun _ _ _ => rfl
    · rintro _ (phase | phase) <;> cases phase
    · intro _ phase
      cases phase
  · apply alone.still base here (by rfl) (by rfl) rfl
    intro opened
    exact absurd opened (by simp [ok.1])
  · exact alone.still base here (by rfl) (by rfl) rfl fun _ => rfl
  · apply alone.point here ok.1 (by rfl) base
    · intro _
      simp [Database.updateLocation]
    · intro phase
      cases phase
  · apply alone.point here ok.1 (by rfl) base
    · intro _
      have before := alone.own i call here ok.1 (Or.inl phase)
      simp [Database.updateLocation, before]
    · intro _
      simp [Database.updateLocation]

theorem step_alone (a b : UID) (s : State) (e : Event) (t : State) (alone : Alone a b s)
    (first : FirstAlone s e) (taken : step a b s e = some t) : Alone a b t := by
  have base := step_base a b s e t alone.base taken
  obtain ⟨values,_,rfl,rfl⟩ | ⟨i,call,here,rfl,advanced⟩ := step_cases taken
  · have same : ∀ k, Opened (s.calls ++ [{ values, phase := .reading, opened := false }]) k ↔
        Opened s.calls k := fun k => opened_begin rfl
    have before : ∀ (i : Nat) (call : Call),
        (s.calls ++ [{ values, phase := .reading, opened := false }])[i]? = some call →
          call.opened = true → s.calls[i]? = some call := by
      intro i call there opened
      obtain ⟨other,found,_⟩ := (same i).mp ⟨call,there,opened⟩
      rw [List.getElem?_append_left (List.getElem?_eq_some_iff.mp found).1] at there
      exact there
    constructor
    · exact base
    · exact fun x y left right => alone.one x y ((same x).mp left) ((same y).mp right)
    · exact fun i call there opened => alone.own i call (before i call there opened) opened
    · exact fun i call there opened => alone.other i call (before i call there opened) opened
  · exact alone.advance here first advanced

/-- Two calls have opened a conversation. -/
def Split (s : State) : Prop := ∃ i j, i ≠ j ∧ Opened s.calls i ∧ Opened s.calls j

theorem advance_calls {s t : State} {i : Nat} {call : Call} (taken : advance s i call = some t) :
    ∃ next, t.calls = s.calls.set i next ∧ (call.opened = true → next.opened = true) := by
  rcases advance_cases taken with ⟨_,_,_,rfl⟩ | ⟨_,_,rfl⟩ | ⟨_,_,rfl⟩ | ⟨_,rfl⟩ | ⟨_,rfl⟩ | ⟨_,rfl⟩
  case inr.inl => exact ⟨_,rfl,fun _ => rfl⟩
  all_goals exact ⟨_,rfl,id⟩

theorem opened_stays {a b : UID} {s t : State} {e : Event} (taken : step a b s e = some t) {k : Nat}
    (opened : Opened s.calls k) : Opened t.calls k := by
  obtain ⟨values,_,rfl,rfl⟩ | ⟨i,call,here,rfl,advanced⟩ := step_cases taken
  · exact (opened_begin rfl).mpr opened
  · obtain ⟨next,calls,kept⟩ := advance_calls advanced
    rw [calls]
    cases now : next.opened with
    | true => exact (opened_more here now).mpr (Or.inr opened)
    | false =>
      have before : call.opened = false := by
        by_contra other
        rw [kept (by simpa using other)] at now
        cases now
      exact (opened_set here (now.trans before.symm)).mpr opened

theorem split_stays {a b : UID} (s : State) (e : Event) (t : State) (split : Split s)
    (taken : step a b s e = some t) : Split t := by
  obtain ⟨i,j,apart,left,right⟩ := split
  exact ⟨i,j,apart,opened_stays taken left,opened_stays taken right⟩

/-- A second call that finds no pointer splits the conversation. -/
theorem split_of_second {a b : UID} {s : State} (base : Base a b s) {e : Event} {t : State}
    (second : ¬ FirstAlone s e) (taken : step a b s e = some t) : Split t := by
  cases e with
  | begin values => exact absurd trivial second
  | advance i =>
    unfold FirstAlone at second
    push Not at second
    obtain ⟨call,here,phase,missing,other,mem,opened⟩ := second
    rw [Option.mem_def] at here
    obtain ⟨j,bound,rfl⟩ := List.getElem_of_mem mem
    have there := List.getElem?_eq_getElem bound
    have ok := base.calls i call here
    unfold CallOk at ok
    rw [phase] at ok
    have before : Opened s.calls j := ⟨_,there,by simpa using opened⟩
    have apart : i ≠ j := by
      rintro rfl
      rw [there] at here
      cases here
      exact opened ok.1
    refine ⟨i,j,apart,?_,opened_stays taken before⟩
    rw [step, here] at taken
    dsimp only at taken
    unfold advance at taken
    rw [phase] at taken
    dsimp only at taken
    rw [missing] at taken
    cases taken
    exact (opened_more here (by rfl)).mpr (Or.inl rfl)

theorem finished_of_opened {s : State} (complete : Complete s) {k : Nat}
    (opened : Opened s.calls k) :
    ∃ call, s.calls[k]? = some call ∧ call.opened = true ∧ call.phase = .finished := by
  obtain ⟨call,there,opened⟩ := opened
  exact ⟨call,there,opened,complete call (List.mem_of_getElem? there)⟩

/-- One opened conversation, with all its writes done, is shared. -/
theorem Alone.shared {a b : UID} {s : State} (alone : Alone a b s) (complete : Complete s) :
    Shared a b s := by
  have both : ∀ k, Opened s.calls k →
      s.db.location a b = some k ∧ s.db.location b a = some k := by
    intro k opened
    obtain ⟨call,there,opened,finished⟩ := finished_of_opened complete opened
    have own := alone.own k call there opened (Or.inr finished)
    have other := alone.other k call there opened finished
    rcases alone.base.users call (List.mem_of_getElem? there) with ⟨left,right⟩ | ⟨left,right⟩
    · rw [left, right] at own other
      exact ⟨own,other⟩
    · rw [left, right] at own other
      exact ⟨other,own⟩
  constructor
  case pointers =>
    cases left : s.db.location a b with
    | some k => exact (both k (alone.base.pointer a b k left)).2.symm
    | none =>
      cases right : s.db.location b a with
      | none => rfl
      | some k =>
        rw [(both k (alone.base.pointer b a k right)).1] at left
        cases left
  case stored =>
    intro i mem
    obtain ⟨k,values,stored⟩ := alone.base.reported i mem
    exact ⟨k,values,(both k (alone.base.stored _ stored)).1,stored⟩

/-- Two opened conversations are not. -/
theorem split_not_shared {a b : UID} {s : State} (base : Base a b s) (complete : Complete s)
    (split : Split s) : ¬ Shared a b s := by
  intro shared
  obtain ⟨i,j,apart,left,right⟩ := split
  have mine : ∀ k, Opened s.calls k → s.db.location a b = some k := by
    intro k opened
    obtain ⟨call,there,now,finished⟩ := finished_of_opened complete opened
    have ok := base.calls k call there
    unfold CallOk at ok
    rw [finished] at ok
    obtain ⟨location,values,pointer,stored⟩ := shared.stored k (ok now)
    rw [pointer, show location = k from base.own _ stored opened]
  rw [mine i left] at mine
  exact apart (Option.some.inj (mine j right))

/-- A complete run ends in one shared conversation exactly if no call found its
    pointer missing when another had done so before. -/
theorem shared_iff_first_alone (a b : UID) (events : List Event) (s : State)
    (run : exec (step a b) State.initial events = some s) (complete : Complete s) :
    Shared a b s ↔ Along (step a b) FirstAlone State.initial events := by
  have base := exec_always (step_base a b) (Base.initial a b) run
  constructor
  · intro shared
    have either := exec_breaks (step_base a b)
      (fun s e t base second taken => split_of_second base second taken) split_stays
      (Base.initial a b) run
    rcases either with first | split
    · exact first
    · exact absurd shared (split_not_shared base complete split)
  · intro first
    exact (exec_keeps (step_alone a b) (Alone.initial a b) first run).shared complete

instance (s : State) : Decidable (Complete s) :=
  inferInstanceAs (Decidable (∀ call ∈ s.calls, call.phase = .finished))

def ann : UID := ['a','n','n']

def bob : UID := ['b','o','b']

def note (fromID toID : UID) : Values where
  type := .text
  content := ['h','i']
  fromID := fromID
  toID := toID
  timestamp := 1516200000
  isRead := false

/-- Bob reads his pointer once Ann has written it. -/
def oneAfterTheOther : List Event :=
  [.begin (note ann bob), .begin (note bob ann), .advance 0, .advance 0, .advance 0, .advance 0,
    .advance 1, .advance 1]

theorem replied_is_shared : ∃ s, exec (step ann bob) State.initial oneAfterTheOther = some s ∧
    s.reported = [0, 1] ∧ Shared ann bob s := by
  obtain ⟨s,run,reported,complete⟩ :
      ∃ s, exec (step ann bob) State.initial oneAfterTheOther = some s ∧ s.reported = [0, 1] ∧
        Complete s := ⟨_,rfl,rfl,by decide⟩
  exact ⟨s,run,reported,(shared_iff_first_alone ann bob oneAfterTheOther s run complete).mpr
    (by decide)⟩

/-- Both read before either has written. -/
def bothAtOnce : List Event :=
  [.begin (note ann bob), .begin (note bob ann), .advance 0, .advance 1, .advance 0, .advance 1,
    .advance 0, .advance 0, .advance 1, .advance 1]

theorem crossed_is_not_shared : ∃ s, exec (step ann bob) State.initial bothAtOnce = some s ∧
    Complete s ∧ s.reported = [0, 1] ∧ s.db.location ann bob = some 1 ∧
      s.db.location bob ann = some 1 ∧
      s.db.conversations = [(0,0,note ann bob), (1,1,note bob ann)] ∧ ¬ Shared ann bob s := by
  refine ⟨_,rfl,by decide,rfl,by decide,by decide,rfl,?_⟩
  intro shared
  obtain ⟨location,values,pointer,stored⟩ := shared.stored 0 (List.mem_cons_self)
  have here : location = 1 := Option.some.inj (pointer.symm.trans (by decide))
  subst here
  have entry : (1,0,values) ∈ [(0,0,note ann bob), (1,1,note bob ann)] := stored
  simp at entry

end Conversations
