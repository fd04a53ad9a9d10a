import Mathlib.Data.List.Perm.Basic
import AltMessenger.TransitionRuns

/-!
The store of the application's state, and those who are told of its changes. A callback may
perform actions and subscribe others before it returns; what is still to be called when it does is
on a stack, with the innermost notification first.
-/
namespace SimpleRedux
open TransitionRuns
variable {S : Type}

structure Subscription (S : Type) where
  /-- the callback's name -/
  id : Nat
  selector : S → S → Bool

abbrev Subscriptions (S : Type) := List (Int × List (Subscription S))

structure Store (S : Type) where
  state : S
  /-- a dictionary by the hash values of the subscribers -/
  subscriptions : Subscriptions S
  /-- the receivers that each notification under way has still to call -/
  frames : List (List (Subscription S))
  /-- the calls of callbacks, with the states passed, the last one first -/
  calls : List (Nat × S)
  /-- the names of callbacks given so far -/
  subscribed : Nat

inductive Event (S : Type) where
  /-- an action's reducer, and the order in which the dictionary gives its entries -/
  | perform (reduce : S → S) (order : List Nat)
  | subscribe (subscriber : Int) (selector : S → S → Bool)
  /-- the callback that runs comes to its end -/
  | returns

def initial (state : S) : Store S := ⟨state,[],[],[],0⟩

namespace Subscriptions

/-- `subscriptions[key]?.append(subscription)`, or a new entry for the key -/
def append (key : Int) (subscription : Subscription S) : Subscriptions S → Subscriptions S
  | [] => [(key,[subscription])]
  | (other, held) :: rest =>
    if other = key then (other, held ++ [subscription]) :: rest
    else (other, held) :: append key subscription rest

/-- `flatMap { $0.value }`, with the entries in the order of their positions -/
def values (subscriptions : Subscriptions S) (order : List Nat) : List (Subscription S) :=
  order.flatMap fun i => (subscriptions[i]?.map Prod.snd).getD []

/-- All that are held, for any key. -/
def all (subscriptions : Subscriptions S) : List (Subscription S) :=
  subscriptions.flatMap Prod.snd

end Subscriptions

namespace Store

/-- `forEach { $0.callback(state) }`, up to the next callback that it calls. -/
def notify (s : Store S) : List (Subscription S) → Store S
  | [] => s
  | receiver :: rest =>
    { s with frames := rest :: s.frames, calls := (receiver.id, s.state) :: s.calls }

/-- The setter of `state` with its `didSet`. -/
def setState (s : Store S) (state : S) (order : List Nat) : Store S :=
  notify { s with state }
    ((s.subscriptions.values order).filter fun held => held.selector s.state state)

def perform (s : Store S) (reduce : S → S) (order : List Nat) : Store S :=
  s.setState (reduce s.state) order

def lazySubscribe (s : Store S) (key : Int) (subscription : Subscription S) : Store S :=
  { s with
    subscriptions := s.subscriptions.append key subscription
    subscribed := s.subscribed + 1 }

def subscribe (s : Store S) (key : Int) (selector : S → S → Bool) : Store S :=
  let subscription := ⟨s.subscribed,selector⟩
  (s.lazySubscribe key subscription).notify [subscription]

/-- The state last passed to a subscription's callback. -/
def lastPassed (s : Store S) (id : Nat) : Option S := s.calls.lookup id

end Store

def step (s : Store S) : Event S → Option (Store S)
  | .perform reduce order =>
    if order.isPerm (List.range s.subscriptions.length) then some (s.perform reduce order)
    else none
  | .subscribe subscriber selector => some (s.subscribe subscriber selector)
  | .returns =>
    match s.frames with
    | [] => none
    | rest :: frames => some ({ s with frames }.notify rest)

/-- The selector compares a projection of the state for inequality. -/
def Compares {α : Type} (selector : S → S → Bool) (projection : S → α) : Prop :=
  ∀ old new, selector old new = true ↔ projection old ≠ projection new

theorem mem_append {key : Int} {new held : Subscription S} {subscriptions : Subscriptions S} :
    held ∈ (subscriptions.append key new).all ↔ held ∈ subscriptions.all ∨ held = new := by
  induction subscriptions with
  | nil => simp [Subscriptions.append, Subscriptions.all]
  | cons entry rest ih =>
    obtain ⟨other,values⟩ := entry
    unfold Subscriptions.append
    unfold Subscriptions.all at ih ⊢
    split
    case isTrue same =>
      simp only [List.flatMap_cons, List.mem_append, List.mem_singleton]
      tauto
    case isFalse differ =>
      simp only [List.flatMap_cons, List.mem_append, ih]
      tauto

/-- Whatever the order of the dictionary, each that is held is among its values. -/
theorem mem_values {subscriptions : Subscriptions S} {order : List Nat}
    (whole : order.isPerm (List.range subscriptions.length) = true) {held : Subscription S}
    (there : held ∈ subscriptions.all) : held ∈ subscriptions.values order := by
  obtain ⟨entry,inside,here⟩ := List.mem_flatMap.mp there
  obtain ⟨i,below,found⟩ := List.getElem_of_mem inside
  have visited : i ∈ order :=
    (List.isPerm_iff.mp whole).mem_iff.mpr (List.mem_range.mpr below)
  apply List.mem_flatMap.mpr
  refine ⟨i,visited,?_⟩
  rw [List.getElem?_eq_getElem below, found]
  exact here

/-- The subscription was last passed a state that agrees with the present one. -/
def UpToDate {α : Type} (projection : S → α) (s : Store S) (id : Nat) : Prop :=
  ∃ passed, s.lastPassed id = some passed ∧ projection passed = projection s.state

/-- A notification under way has still to call the subscription. -/
def Awaited (s : Store S) (held : Subscription S) : Prop := ∃ rest ∈ s.frames, held ∈ rest

/-- Each subscription is up to date, or will be called. -/
def Informed (s : Store S) : Prop :=
  ∀ held ∈ s.subscriptions.all, ∀ (α : Type) (projection : S → α),
    Compares held.selector projection → UpToDate projection s held.id ∨ Awaited s held

section Notify
variable {s : Store S} {receivers : List (Subscription S)}

@[simp] theorem notify_state : (s.notify receivers).state = s.state := by
  cases receivers <;> rfl

@[simp] theorem notify_subscriptions : (s.notify receivers).subscriptions = s.subscriptions := by
  cases receivers <;> rfl

theorem notify_awaited {held : Subscription S} (awaited : Awaited s held) :
    Awaited (s.notify receivers) held := by
  obtain ⟨rest,inside,here⟩ := awaited
  cases receivers with
  | nil => exact ⟨rest,inside,here⟩
  | cons receiver more => exact ⟨rest,List.mem_cons_of_mem _ inside,here⟩

/-- A call passes the present state, so it leaves up to date what was. -/
theorem notify_upToDate {α : Type} {projection : S → α} {id : Nat}
    (current : UpToDate projection s id) : UpToDate projection (s.notify receivers) id := by
  cases receivers with
  | nil => exact current
  | cons receiver rest =>
    obtain ⟨passed,last,agrees⟩ := current
    by_cases same : id = receiver.id
    · exact ⟨s.state,by simp [Store.lastPassed, Store.notify, same],rfl⟩
    · refine ⟨passed,?_,agrees⟩
      unfold Store.lastPassed at last ⊢
      rw [Store.notify, List.lookup_cons, beq_false_of_ne same]
      exact last

/-- A receiver is called at once, or is left for later. -/
theorem notify_receiver {α : Type} (projection : S → α) {held : Subscription S}
    (receives : held ∈ receivers) :
    UpToDate projection (s.notify receivers) held.id ∨ Awaited (s.notify receivers) held := by
  cases receivers with
  | nil => cases receives
  | cons receiver rest =>
    rcases List.mem_cons.mp receives with now | later
    · rw [now]
      exact Or.inl ⟨s.state,by simp [Store.lastPassed, Store.notify],rfl⟩
    · exact Or.inr ⟨rest,List.mem_cons_self,later⟩

end Notify

/-- A change of the state puts out of date only those whose selectors see it, and these are
    called. -/
theorem perform_informed {s : Store S} {reduce : S → S} {order : List Nat}
    (whole : order.isPerm (List.range s.subscriptions.length) = true) (informed : Informed s) :
    Informed (s.perform reduce order) := by
  intro held there α projection compares
  unfold Store.perform Store.setState at there ⊢
  rw [notify_subscriptions] at there
  by_cases sees : held.selector s.state (reduce s.state) = true
  · exact notify_receiver projection (List.mem_filter.mpr ⟨mem_values whole there,sees⟩)
  · have unchanged : projection s.state = projection (reduce s.state) := by
      by_contra differ
      exact sees ((compares _ _).mpr differ)
    rcases informed held there α projection compares with ⟨passed,last,agrees⟩ | awaited
    · exact Or.inl (notify_upToDate ⟨passed,last,agrees.trans unchanged⟩)
    · exact Or.inr (notify_awaited awaited)

theorem subscribe_informed {s : Store S} {key : Int} {selector : S → S → Bool}
    (informed : Informed s) : Informed (s.subscribe key selector) := by
  intro held there α projection compares
  unfold Store.subscribe at there ⊢
  rw [notify_subscriptions] at there
  rcases mem_append.mp there with before | new
  · rcases informed held before α projection compares with current | awaited
    · exact Or.inl (notify_upToDate (s := s.lazySubscribe key _) current)
    · exact Or.inr (notify_awaited (s := s.lazySubscribe key _) awaited)
  · rw [new]
    exact notify_receiver projection List.mem_cons_self

/-- The notification that goes on calls its next receiver, and the others are as before. -/
theorem returns_informed {s : Store S} {rest : List (Subscription S)}
    {frames : List (List (Subscription S))} (top : s.frames = rest :: frames)
    (informed : Informed s) : Informed ({ s with frames }.notify rest) := by
  intro held there α projection compares
  rw [notify_subscriptions] at there
  rcases informed held there α projection compares with current | ⟨waiting,inside,here⟩
  · exact Or.inl (notify_upToDate (s := { s with frames }) current)
  · rw [top] at inside
    rcases List.mem_cons.mp inside with first | deeper
    · rw [first] at here
      exact notify_receiver projection here
    · exact Or.inr (notify_awaited ⟨waiting,deeper,here⟩)

theorem step_informed (s : Store S) (e : Event S) (t : Store S) (informed : Informed s)
    (taken : step s e = some t) : Informed t := by
  cases e with
  | perform reduce order =>
    simp only [step] at taken
    split at taken
    case isTrue whole =>
      cases taken
      exact perform_informed whole informed
    case isFalse => cases taken
  | subscribe subscriber selector =>
    cases taken
    exact subscribe_informed informed
  | returns =>
    simp only [step] at taken
    split at taken
    case h_1 => cases taken
    case h_2 rest frames top =>
      cases taken
      exact returns_informed top informed

/-- When the outermost call has returned, no subscription is left with a stale view. -/
theorem run_up_to_date {α : Type} {state : S} {events : List (Event S)} {s : Store S}
    (run : exec step (initial state) events = some s) (returned : s.frames = [])
    {held : Subscription S} (there : held ∈ s.subscriptions.all) {projection : S → α}
    (compares : Compares held.selector projection) :
    ∃ passed, s.lastPassed held.id = some passed ∧ projection passed = projection s.state := by
  have start : Informed (initial state) := fun held there => nomatch there
  rcases exec_always step_informed start run held there α projection compares with
    current | ⟨rest,inside,_⟩
  · exact current
  · rw [returned] at inside
    cases inside

/-- Two subscribers of a counter, the first of which counts on when it hears of the first change. -/
def countsOn : List (Event Nat) :=
  [.subscribe 7 (· != ·),.returns,.subscribe 8 (· != ·),.returns,.perform (· + 1) [0,1],
    .perform (· + 1) [1,0],.returns,.returns,.returns,.returns]

/-- What is left of it: the second hears of the last change first, and of no older state after. -/
def countedOn : Store Nat :=
  ⟨2,[(7,[⟨0,(· != ·)⟩]),(8,[⟨1,(· != ·)⟩])],[],[(1,2),(0,2),(1,2),(0,1),(1,0),(0,0)],2⟩

theorem counts_on_up_to_date :
    ∃ passed, countedOn.lastPassed 1 = some passed ∧ id passed = id countedOn.state := by
  have run : exec step (initial 0) countsOn = some countedOn := rfl
  have there : ⟨1,(· != ·)⟩ ∈ countedOn.subscriptions.all :=
    List.mem_cons_of_mem _ List.mem_cons_self
  exact run_up_to_date run rfl there fun old new => by simp

end SimpleRedux
