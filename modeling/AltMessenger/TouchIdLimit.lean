import Mathlib.Algebra.BigOperators.Group.List.Basic
import Mathlib.Algebra.Ring.Nat
import Mathlib.Data.List.Perm.Basic
import AltMessenger.TransitionRuns

/-!
The spending limit of Touch ID. The keychain holds a threshold on the wallet's
running total, set anew by a PIN and by a change of the limit. A signing is
checked against it before the prompt; the total moves only when a transaction
is registered.
-/
namespace TouchIdLimit
open TransitionRuns

/-- A whole number after a trip through a `Double`: 53 bits, to the nearest and
    on a tie to the even one. -/
def double (n : Nat) : Nat :=
  let unit := 2 ^ (n.log2 - 52)
  let low := n / unit
  let rest := n % unit
  if 2 * rest < unit ∨ 2 * rest = unit ∧ low % 2 = 0 then low * unit else (low + 1) * unit

/-- A signed transaction the wallet does not know yet; `counted` while it is one
    signed by Touch ID since the limit was last set. -/
structure Unregistered where
  net : Nat
  counted : Bool
  deriving DecidableEq, Repr

/-- `spendLimit` is the keychain item, `spendLimitAmount` the stored default,
    `prompts` the net amounts checked and waiting for the user. The last two
    fields are what the limit is about: the limit in force since it was last set,
    and what Touch ID has signed since. -/
structure State where
  totalSent : Nat
  spendLimit : Nat
  spendLimitAmount : Nat
  prompts : List Nat
  unregistered : List Unregistered
  limitInForce : Nat
  spent : Nat
  deriving DecidableEq, Repr

/-- No limit has been set. -/
def State.initial (totalSent : Nat) : State where
  totalSent
  spendLimit := 0
  spendLimitAmount := 0
  prompts := []
  unregistered := []
  limitInForce := 0
  spent := 0

inductive Event where
  | pinSucceeded
  | limitChanged : (newValue : Nat) → Event
  | touchIDPrompted : (amountSent amountReceived : Nat) → Event
  | touchIDAnswered : (prompt : Nat) → (signed : Bool) → Event
  | pinSigned : (amountSent amountReceived : Nat) → Event
  | registered : Nat → Event
  deriving DecidableEq, Repr

/-- What was signed before is no longer counted. -/
def State.setLimit (s : State) (limit spendLimit : Nat) : State :=
  { s with
    spendLimit
    unregistered := s.unregistered.map fun tx => { tx with counted := false }
    limitInForce := limit
    spent := 0 }

/-- A conversion or a sum that does not fit its type is a fault. -/
def fits (bound value : Nat) (next : Option State) : Option State :=
  if value < bound then next else none

/-- `authenticationSuccess()` -/
def authenticationSuccess (s : State) : Option State :=
  let limit := double s.spendLimitAmount
  fits (2 ^ 63) limit
    (if 0 < limit then
      fits (2 ^ 63) (s.totalSent + limit) (some (s.setLimit limit (s.totalSent + limit)))
    else some (s.setLimit limit s.spendLimit))

def step (s : State) : Event → Option State
  | .pinSucceeded => authenticationSuccess s
  | .limitChanged newValue =>
    fits (2 ^ 63) (s.totalSent + newValue)
      (some { s.setLimit newValue (s.totalSent + newValue) with spendLimitAmount := newValue })
  | .touchIDPrompted amountSent amountReceived =>
    if amountReceived ≤ amountSent then
      let net := amountSent - amountReceived
      fits (2 ^ 64) (net + s.totalSent)
        (if net + s.totalSent ≤ s.spendLimit then some { s with prompts := s.prompts ++ [net] }
        else some s)
    else none
  | .touchIDAnswered i signed =>
    match s.prompts[i]? with
    | none => none
    | some net =>
      let s := { s with prompts := s.prompts.eraseIdx i }
      if signed then
        some { s with
          unregistered := s.unregistered ++ [{ net, counted := true }], spent := s.spent + net }
      else some s
  | .pinSigned amountSent amountReceived =>
    if amountReceived ≤ amountSent then
      (authenticationSuccess s).map fun s =>
        { s with unregistered :=
            s.unregistered ++ [{ net := amountSent - amountReceived, counted := false }] }
    else none
  | .registered i =>
    match s.unregistered[i]? with
    | none => none
    | some tx => fits (2 ^ 64) (s.totalSent + tx.net)
        (some { s with
          totalSent := s.totalSent + tx.net, unregistered := s.unregistered.eraseIdx i })

def countedNets (txs : List Unregistered) : Nat :=
  ((txs.filter (·.counted)).map (·.net)).sum

/-- When Touch ID signs, the check passes with all it has signed that the wallet
    does not know yet. -/
def Covered (s : State) : Event → Prop
  | .touchIDAnswered i true =>
    countedNets s.unregistered + s.prompts[i]?.getD 0 + s.totalSent ≤ s.spendLimit
  | _ => True

instance (s : State) : (e : Event) → Decidable (Covered s e)
  | .touchIDAnswered _ true => inferInstanceAs (Decidable (_ ≤ _))
  | .touchIDAnswered _ false => .isTrue trivial
  | .pinSucceeded => .isTrue trivial
  | .limitChanged _ => .isTrue trivial
  | .touchIDPrompted _ _ => .isTrue trivial
  | .pinSigned _ _ => .isTrue trivial
  | .registered _ => .isTrue trivial

theorem double_zero {n : Nat} (zero : double n = 0) : n = 0 := by
  by_contra positive
  let unit := 2 ^ (n.log2 - 52)
  have small : unit ≤ n := by
    calc unit ≤ 2 ^ n.log2 := Nat.pow_le_pow_right (by decide) (Nat.sub_le _ _)
      _ ≤ n := Nat.log2_self_le positive
  have unit_pos : 0 < unit := Nat.pow_pos (by decide)
  have low : 0 < n / unit := Nat.div_pos small unit_pos
  unfold double at zero
  dsimp only at zero
  split at zero
  · exact absurd zero (Nat.ne_of_gt (Nat.mul_pos low unit_pos))
  · exact absurd zero (Nat.ne_of_gt (Nat.mul_pos (Nat.succ_pos _) unit_pos))

theorem countedNets_append (txs : List Unregistered) (tx : Unregistered) :
    countedNets (txs ++ [tx]) = countedNets txs + if tx.counted then tx.net else 0 := by
  unfold countedNets
  rw [List.filter_append, List.map_append, List.sum_append]
  cases counted : tx.counted <;> simp [counted]

/-- A transaction that is registered stops being counted. -/
theorem countedNets_erase {txs : List Unregistered} {i : Nat} {tx : Unregistered}
    (there : txs[i]? = some tx) :
    countedNets txs = countedNets (txs.eraseIdx i) + if tx.counted then tx.net else 0 := by
  obtain ⟨bound,rfl⟩ := List.getElem?_eq_some_iff.mp there
  have same := (((List.getElem_cons_eraseIdx_perm bound).filter (·.counted)).map (·.net)).sum_eq
  unfold countedNets
  rw [← same, List.filter_cons]
  split
  · rw [List.map_cons, List.sum_cons, Nat.add_comm]
  · rfl

/-- The threshold lies at most the limit above the total when it was set, and
    what Touch ID signed since has been registered or is counted. -/
structure Bounded (s : State) : Prop where
  threshold : ∃ base, base ≤ s.totalSent ∧ s.spendLimit ≤ base + s.limitInForce ∧
    s.spent ≤ (s.totalSent - base) + countedNets s.unregistered
  within : s.spent ≤ s.limitInForce
  off : double s.spendLimitAmount = 0 → s.spendLimit ≤ s.totalSent

theorem Bounded.setLimit {s : State} {limit spendLimit : Nat}
    (above : spendLimit ≤ s.totalSent + limit)
    (off : double s.spendLimitAmount = 0 → spendLimit ≤ s.totalSent) :
    Bounded (s.setLimit limit spendLimit) where
  threshold := ⟨s.totalSent,Nat.le_refl _,above,Nat.zero_le _⟩
  within := Nat.zero_le _
  off := off

theorem fits_some {bound value : Nat} {next : Option State} {t : State} :
    fits bound value next = some t ↔ value < bound ∧ next = some t := by
  unfold fits
  split
  case isTrue below =>
    exact ⟨fun taken => ⟨below,taken⟩,fun taken => taken.2⟩
  case isFalse above =>
    constructor
    · intro taken
      cases taken
    · intro taken
      exact absurd taken.1 above

theorem Bounded.authenticationSuccess {s t : State} (bounded : Bounded s)
    (taken : authenticationSuccess s = some t) : Bounded t := by
  obtain ⟨_,taken⟩ := fits_some.mp taken
  split at taken
  case isTrue positive =>
    obtain ⟨_,taken⟩ := fits_some.mp taken
    cases taken
    apply Bounded.setLimit (Nat.le_refl _)
    intro zero
    omega
  case isFalse none =>
    cases taken
    have zero : double s.spendLimitAmount = 0 := by omega
    exact Bounded.setLimit (Nat.le_add_right_of_le (bounded.off zero)) fun _ => bounded.off zero

theorem Bounded.limitChanged {s : State} (newValue : Nat) :
    Bounded { s.setLimit newValue (s.totalSent + newValue) with spendLimitAmount := newValue } := by
  refine ⟨⟨s.totalSent,Nat.le_refl _,Nat.le_refl _,Nat.zero_le _⟩,Nat.zero_le _,?_⟩
  intro zero
  have : newValue = 0 := double_zero zero
  simp [State.setLimit, this]

/-- Touch ID signs: what it has signed since the limit was set lies between the
    total of then and the threshold. -/
theorem Bounded.sign {s : State} {net : Nat} {prompts : List Nat} (bounded : Bounded s)
    (enough : countedNets s.unregistered + net + s.totalSent ≤ s.spendLimit) :
    Bounded { s with
      prompts
      unregistered := s.unregistered ++ [{ net, counted := true }]
      spent := s.spent + net } := by
  obtain ⟨base,below,threshold,accounted⟩ := bounded.threshold
  refine ⟨⟨base,below,threshold,?_⟩,?_,bounded.off⟩
  · rw [countedNets_append, if_pos rfl]
    dsimp only
    omega
  · dsimp only
    omega

theorem Bounded.signByPin {s : State} (net : Nat) (bounded : Bounded s) :
    Bounded { s with unregistered := s.unregistered ++ [{ net, counted := false }] } := by
  obtain ⟨base,below,threshold,accounted⟩ := bounded.threshold
  refine ⟨⟨base,below,threshold,?_⟩,bounded.within,bounded.off⟩
  rw [countedNets_append]
  simpa using accounted

theorem Bounded.register {s : State} {i : Nat} {tx : Unregistered} (bounded : Bounded s)
    (there : s.unregistered[i]? = some tx) :
    Bounded { s with
      totalSent := s.totalSent + tx.net, unregistered := s.unregistered.eraseIdx i } := by
  have moved := countedNets_erase there
  obtain ⟨base,below,threshold,accounted⟩ := bounded.threshold
  refine ⟨⟨base,Nat.le_add_right_of_le below,threshold,?_⟩,bounded.within,?_⟩
  · dsimp only
    split at moved <;> omega
  · exact fun zero => Nat.le_add_right_of_le (bounded.off zero)

theorem step_bounded (s : State) (e : Event) (t : State) (bounded : Bounded s)
    (covered : Covered s e) (taken : step s e = some t) : Bounded t := by
  cases e with
  | pinSucceeded => exact bounded.authenticationSuccess taken
  | limitChanged newValue =>
    obtain ⟨_,taken⟩ := fits_some.mp taken
    cases taken
    exact Bounded.limitChanged newValue
  | touchIDPrompted amountSent amountReceived =>
    rw [step] at taken
    split at taken
    case isFalse => cases taken
    case isTrue =>
      obtain ⟨_,taken⟩ := fits_some.mp taken
      split at taken
      all_goals
        cases taken
        exact ⟨bounded.threshold,bounded.within,bounded.off⟩
  | touchIDAnswered i signed =>
    rw [step] at taken
    split at taken
    case h_1 => cases taken
    case h_2 net asked =>
      cases signed with
      | false =>
        cases taken
        exact ⟨bounded.threshold,bounded.within,bounded.off⟩
      | true =>
        cases taken
        rw [Covered, asked] at covered
        exact bounded.sign covered
  | pinSigned amountSent amountReceived =>
    rw [step] at taken
    split at taken
    case isFalse => cases taken
    case isTrue =>
      obtain ⟨mid,authenticated,rfl⟩ := Option.map_eq_some_iff.mp taken
      exact (bounded.authenticationSuccess authenticated).signByPin _
  | registered i =>
    rw [step] at taken
    split at taken
    case h_1 => cases taken
    case h_2 tx there =>
      obtain ⟨_,taken⟩ := fits_some.mp taken
      cases taken
      exact bounded.register there

/-- In every run in which each signing by Touch ID is covered, it has signed no
    more than the limit in force. -/
theorem limit_bounds_spending (totalSent : Nat) (events : List Event) (s : State)
    (covered : Along step Covered (State.initial totalSent) events)
    (run : exec step (State.initial totalSent) events = some s) : s.spent ≤ s.limitInForce := by
  have start : Bounded (State.initial totalSent) :=
    ⟨⟨totalSent,Nat.le_refl _,Nat.zero_le _,Nat.zero_le _⟩,Nat.zero_le _,fun _ => Nat.zero_le _⟩
  exact (exec_keeps step_bounded start covered run).within

def registeredEvents : List Event :=
  [.limitChanged 1000, .touchIDPrompted 800 200, .touchIDAnswered 0 true, .registered 0,
    .pinSigned 300 0, .touchIDPrompted 400 0, .touchIDAnswered 0 true]

def State.withinLimit : State :=
  { State.initial 600 with
    spendLimit := 1600
    spendLimitAmount := 1000
    unregistered := [{ net := 300, counted := false }, { net := 400, counted := true }]
    limitInForce := 1000
    spent := 400 }

theorem registered_payments_within : State.withinLimit.spent ≤ State.withinLimit.limitInForce :=
  limit_bounds_spending 0 registeredEvents State.withinLimit (by decide) (by decide)

def unregisteredEvents : List Event :=
  [.limitChanged 1000, .touchIDPrompted 700 0, .touchIDAnswered 0 true,
    .touchIDPrompted 700 0, .touchIDAnswered 0 true]

def State.overLimit : State :=
  { State.initial 0 with
    spendLimit := 1000
    spendLimitAmount := 1000
    unregistered := [{ net := 700, counted := true }, { net := 700, counted := true }]
    limitInForce := 1000
    spent := 1400 }

/-- Two payments of 700 under a limit of 1000, the first not yet registered. -/
theorem unregistered_payments_exceed : ¬ ∀ (totalSent : Nat) (events : List Event) (s : State),
    exec step (State.initial totalSent) events = some s → s.spent ≤ s.limitInForce := by
  intro bounds
  have within := bounds 0 unregisteredEvents State.overLimit (by decide)
  exact absurd within (by decide)

end TouchIdLimit
