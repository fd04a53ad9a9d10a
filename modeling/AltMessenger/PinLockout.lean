import Mathlib.Algebra.Order.Floor.Ring
import Mathlib.Data.Finset.Card
import Mathlib.Data.Rat.Floor
import Mathlib.Tactic.Linarith
import Mathlib.Tactic.NormNum
import AltMessenger.TransitionRuns

/-!
The lockout of the wallet's PIN. The keychain holds the PIN, how many attempts failed and when the
last of them did; what PINs failed is only in memory, and a restart of the app forgets it. From the
third failure on each further attempt has to wait, and the eighth wipes the wallet.
-/
namespace PinLockout
open TransitionRuns

/-- An attempt that came as far as the comparison with the stored PIN, with the stored count that it
    found, and whether it was counted. -/
structure Comparison (Pin : Type) where
  secureTime : ℚ
  pin : Pin
  failCount : Int
  counted : Bool
  deriving DecidableEq

/-- `compared` keeps what was compared with a stored PIN. Times are seconds, the exact values of
    the `Double`s, whose sums here are exact. -/
structure State (Pin : Type) where
  pin : Option Pin
  pinFailCount : Option Int
  pinFailTime : Option Int
  failedPins : List Pin
  compared : List (Comparison Pin)
  deriving DecidableEq

inductive Event (Pin : Type) where
  | authenticate (secureTime : ℚ) (pin : Pin)
  | restarted

/-- A time without its fraction. -/
def truncated (secureTime : ℚ) : Int := if 0 ≤ secureTime then ⌊secureTime⌋ else ⌈secureTime⌉

/-- A conversion to `Int64` drops the fraction, and traps outside the range. -/
def int64 (secureTime : ℚ) : Option Int :=
  if -2 ^ 63 ≤ truncated secureTime ∧ truncated secureTime < 2 ^ 63 then
    some (truncated secureTime)
  else none

variable {Pin : Type}

namespace State

def failCount (s : State Pin) : Int := s.pinFailCount.getD 0

def failTime (s : State Pin) : Int := s.pinFailTime.getD 0

def LockedOut (s : State Pin) (secureTime : ℚ) : Prop :=
  3 ≤ s.failCount ∧ secureTime < s.failTime + 6 ^ (s.failCount - 3).toNat * 60

instance (s : State Pin) (secureTime : ℚ) : Decidable (s.LockedOut secureTime) :=
  inferInstanceAs (Decidable (_ ∧ _))

def log (s : State Pin) (comparison : Comparison Pin) : State Pin :=
  if s.pin.isSome then { s with compared := s.compared ++ [comparison] } else s

end State

def authenticationSuccess (s : State Pin) : State Pin :=
  { s with failedPins := [], pinFailTime := some 0, pinFailCount := some 0 }

/-- The failed PINs in memory are not forgotten. -/
def wipeWallet (s : State Pin) : State Pin :=
  { s with pinFailTime := none, pinFailCount := none, pin := none }

/-- A unique failed attempt, after it was counted. -/
def failAttempt (s : State Pin) (secureTime : ℚ) (pin : Pin) : Option (State Pin) :=
  let s := { s with failedPins := s.failedPins ++ [pin] }
  if 8 ≤ s.failCount then some (wipeWallet s)
  else if s.failTime < secureTime then
    (int64 secureTime).map fun failTime => { s with pinFailTime := some failTime }
  else some s

section Authenticate
variable [DecidableEq Pin]

def authenticate (s : State Pin) (secureTime : ℚ) (pin : Pin) : Option (State Pin × Bool) :=
  if s.LockedOut secureTime then some (s,false)
  else
    let unique := decide (pin ∉ s.failedPins)
    let failCount := s.failCount
    -- unique attempts are counted before success is checked
    let s := if unique then { s with pinFailCount := some (failCount + 1) } else s
    let s := s.log ⟨secureTime,pin,failCount,unique⟩
    if some pin = s.pin then some (authenticationSuccess s,true)
    else if unique then (failAttempt s secureTime pin).map fun s => (s,false)
    else some (s,false)

def step (s : State Pin) : Event Pin → Option (State Pin)
  | .authenticate secureTime pin => (authenticate s secureTime pin).map Prod.fst
  | .restarted => some { s with failedPins := [] }

/-- The attempt does not succeed. -/
def Unsuccessful (s : State Pin) : Event Pin → Prop
  | .authenticate secureTime pin => ∀ t, authenticate s secureTime pin ≠ some (t,true)
  | .restarted => True

instance (s : State Pin) : (e : Event Pin) → Decidable (Unsuccessful s e)
  | .authenticate secureTime pin =>
    decidable_of_iff ((authenticate s secureTime pin).map Prod.snd ≠ some true) (by
      unfold Unsuccessful
      simp)
  | .restarted => .isTrue trivial

end Authenticate

/-- No attempt failed yet. -/
structure Fresh (s : State Pin) : Prop where
  failCount : s.failCount = 0
  failTime : s.failTime = 0
  failedPins : s.failedPins = []
  compared : s.compared = []

def State.counted (s : State Pin) : List (Comparison Pin) := s.compared.filter Comparison.counted

/-- The later comparison keeps its distance to the earlier one, if that was counted. -/
def Spaced (earlier later : Comparison Pin) : Prop :=
  earlier.counted = true → 3 ≤ later.failCount →
    earlier.secureTime + 60 * 6 ^ (later.failCount - 3).toNat - 1 ≤ later.secureTime

/-- What holds of the attempts so far; while a PIN is stored the keychain's items are about
    them. -/
structure Guarded (s : State Pin) : Prop where
  few : s.counted.length ≤ 8
  numbered : ∀ (i : Nat) (c : Comparison Pin), s.counted[i]? = some c → c.failCount = i
  covered : ∀ c ∈ s.compared, ∃ d ∈ s.counted, d.pin = c.pin
  spaced : s.compared.Pairwise Spaced
  stored : s.pin.isSome = true → s.failCount = s.counted.length ∧ s.counted.length < 8 ∧
    (∀ pin ∈ s.failedPins, ∃ d ∈ s.counted, d.pin = pin) ∧
    ∀ d ∈ s.counted, d.secureTime < s.failTime + 1

theorem Fresh.guarded {s : State Pin} (fresh : Fresh s) : Guarded s where
  few := by simp [State.counted, fresh.compared]
  numbered := by simp [State.counted, fresh.compared]
  covered := by simp [fresh.compared]
  spaced := by simp [fresh.compared]
  stored := by simp [State.counted, fresh.compared, fresh.failCount, fresh.failedPins]

/-- The stored time is never more than a second before the attempt, and never goes back. -/
theorem int64_bounds {secureTime : ℚ} {before time : Int} (later : before < secureTime)
    (stored : int64 secureTime = some time) : before ≤ time ∧ secureTime < time + 1 := by
  unfold int64 at stored
  split at stored
  case isFalse => cases stored
  case isTrue =>
    cases stored
    unfold truncated
    split
    case isTrue =>
      exact ⟨Int.le_floor.mpr later.le,Int.lt_floor_add_one secureTime⟩
    case isFalse =>
      have up := Int.le_ceil secureTime
      have above : (before : ℚ) < ⌈secureTime⌉ := lt_of_lt_of_le later up
      exact ⟨by exact_mod_cast above.le,by linarith⟩

theorem failAttempt_cases {s t : State Pin} {secureTime : ℚ} {pin : Pin}
    (taken : failAttempt s secureTime pin = some t) :
    (8 ≤ s.failCount ∧ t.pin = none ∧ t.compared = s.compared) ∨
      (s.failCount < 8 ∧ t.pin = s.pin ∧ t.compared = s.compared ∧ t.failCount = s.failCount ∧
        t.failedPins = s.failedPins ++ [pin] ∧ s.failTime ≤ t.failTime ∧
        secureTime < t.failTime + 1) := by
  unfold failAttempt at taken
  dsimp only at taken
  split at taken
  case isTrue many =>
    cases taken
    exact Or.inl ⟨many,rfl,rfl⟩
  case isFalse more =>
    have below : s.failCount < 8 := Int.not_le.mp more
    split at taken
    case isTrue later =>
      obtain ⟨time,stored,rfl⟩ := Option.map_eq_some_iff.mp taken
      obtain ⟨forward,close⟩ := int64_bounds later stored
      exact Or.inr ⟨below,rfl,rfl,rfl,rfl,forward,close⟩
    case isFalse early =>
      cases taken
      have close : secureTime ≤ s.failTime := not_lt.mp early
      exact Or.inr ⟨below,rfl,rfl,rfl,rfl,le_refl _,lt_of_le_of_lt close (lt_add_one _)⟩

theorem log_none {s : State Pin} {c : Comparison Pin} (empty : s.pin = none) : s.log c = s := by
  unfold State.log
  rw [empty]
  rfl

theorem log_some {s : State Pin} {c : Comparison Pin} (stored : s.pin.isSome = true) :
    s.log c = { s with compared := s.compared ++ [c] } := by
  unfold State.log
  rw [if_pos stored]

theorem counted_append {s t : State Pin} {c : Comparison Pin}
    (appended : t.compared = s.compared ++ [c]) :
    t.counted = s.counted ++ if c.counted then [c] else [] := by
  unfold State.counted
  rw [appended, List.filter_append, List.filter_singleton, cond_eq_ite]

/-- An attempt that is not locked out keeps its distance to the counted ones. -/
theorem Guarded.keeps_distance {s : State Pin} {c : Comparison Pin} (guarded : Guarded s)
    (stored : s.pin.isSome = true) (unlocked : ¬ s.LockedOut c.secureTime)
    (found : c.failCount = s.failCount) : (s.compared ++ [c]).Pairwise Spaced := by
  refine List.pairwise_append.mpr ⟨guarded.spaced,List.pairwise_singleton _ _,?_⟩
  intro d earlier c' last
  cases List.mem_singleton.mp last
  intro counted third
  have recent := (guarded.stored stored).2.2.2 d (List.mem_filter.mpr ⟨earlier,counted⟩)
  have waited : s.failTime + 6 ^ (s.failCount - 3).toNat * 60 ≤ c.secureTime := by
    rw [found] at third
    exact not_lt.mp fun early => unlocked ⟨third,early⟩
  rw [found]
  linarith

/-- Without a stored PIN nothing is compared. -/
theorem Guarded.unstored {s t : State Pin} (guarded : Guarded s) (empty : t.pin = none)
    (same : t.compared = s.compared) : Guarded t := by
  have counted : t.counted = s.counted := by
    unfold State.counted
    rw [same]
  constructor
  · rw [counted]
    exact guarded.few
  · rw [counted]
    exact guarded.numbered
  · rw [counted, same]
    exact guarded.covered
  · rw [same]
    exact guarded.spaced
  · rw [empty]
    exact nofun

theorem Guarded.restarted {s : State Pin} (guarded : Guarded s) :
    Guarded { s with failedPins := [] } where
  few := guarded.few
  numbered := guarded.numbered
  covered := guarded.covered
  spaced := guarded.spaced
  stored stored := by
    obtain ⟨count,few,_,recent⟩ := guarded.stored stored
    exact ⟨count,few,nofun,recent⟩

/-- An attempt with a PIN that failed before is not counted. -/
theorem Guarded.repeated {s : State Pin} {c : Comparison Pin} (guarded : Guarded s)
    (stored : s.pin.isSome = true) (unlocked : ¬ s.LockedOut c.secureTime)
    (found : c.failCount = s.failCount) (uncounted : c.counted = false)
    (failed : c.pin ∈ s.failedPins) : Guarded { s with compared := s.compared ++ [c] } := by
  have counted : State.counted { s with compared := s.compared ++ [c] } = s.counted := by
    rw [counted_append rfl, uncounted]
    exact List.append_nil _
  obtain ⟨count,few,remembered,recent⟩ := guarded.stored stored
  constructor
  · rw [counted]
    exact guarded.few
  · rw [counted]
    exact guarded.numbered
  · rw [counted]
    intro d there
    rcases List.mem_append.mp there with earlier | last
    · exact guarded.covered d earlier
    · rw [List.mem_singleton.mp last]
      exact remembered c.pin failed
  · exact guarded.keeps_distance stored unlocked found
  · rw [counted]
    exact fun _ => ⟨count,few,remembered,recent⟩

/-- A counted attempt is the next one; what the keychain holds is then either about it, or wiped. -/
theorem Guarded.attempted {s t : State Pin} {c : Comparison Pin} (guarded : Guarded s)
    (stored : s.pin.isSome = true) (unlocked : ¬ s.LockedOut c.secureTime)
    (found : c.failCount = s.failCount) (unique : c.counted = true)
    (appended : t.compared = s.compared ++ [c])
    (after : t.pin = none ∨ s.failCount + 1 < 8 ∧ t.failCount = s.failCount + 1 ∧
      t.failedPins = s.failedPins ++ [c.pin] ∧ s.failTime ≤ t.failTime ∧
      c.secureTime < t.failTime + 1) : Guarded t := by
  have counted : t.counted = s.counted ++ [c] := by
    rw [counted_append appended, unique]
    rfl
  obtain ⟨count,few,remembered,recent⟩ := guarded.stored stored
  have next : t.counted.length = s.counted.length + 1 := by
    rw [counted, List.length_append, List.length_singleton]
  have kept : ∀ d ∈ s.counted, d ∈ t.counted := by
    rw [counted]
    exact fun d there => List.mem_append_left [c] there
  have new : c ∈ t.counted := by
    rw [counted]
    exact List.mem_append_right _ (List.mem_singleton_self c)
  constructor
  · omega
  · intro i d there
    rw [counted] at there
    rcases Nat.lt_or_ge i s.counted.length with earlier | last
    · rw [List.getElem?_append_left earlier] at there
      exact guarded.numbered i d there
    · rw [List.getElem?_append_right last, List.getElem?_singleton] at there
      split at there
      · cases there
        omega
      · cases there
  · rw [appended]
    intro d there
    rcases List.mem_append.mp there with earlier | last
    · obtain ⟨e,among,same⟩ := guarded.covered d earlier
      exact ⟨e,kept e among,same⟩
    · exact ⟨c,new,by rw [List.mem_singleton.mp last]⟩
  · rw [appended]
    exact guarded.keeps_distance stored unlocked found
  · intro still
    rcases after with wiped | ⟨more,counts,pins,forward,close⟩
    · rw [wiped] at still
      cases still
    · refine ⟨by omega,by omega,?_,?_⟩
      · rw [pins]
        intro pin there
        rcases List.mem_append.mp there with earlier | last
        · obtain ⟨d,among,same⟩ := remembered pin earlier
          exact ⟨d,kept d among,same⟩
        · exact ⟨c,new,(List.mem_singleton.mp last).symm⟩
      · rw [counted]
        intro d there
        rcases List.mem_append.mp there with earlier | last
        · have before := recent d earlier
          have forward : (s.failTime : ℚ) ≤ t.failTime := by exact_mod_cast forward
          linarith
        · rw [List.mem_singleton.mp last]
          exact close

section Authenticate
variable [DecidableEq Pin]

/-- What an attempt that does not succeed can do. -/
theorem authenticate_cases {s t : State Pin} {secureTime : ℚ} {pin : Pin}
    (taken : authenticate s secureTime pin = some (t,false)) :
    t = s ∨ ¬ s.LockedOut secureTime ∧
      ((pin ∈ s.failedPins ∧ t = s.log ⟨secureTime,pin,s.failCount,false⟩) ∨
        (pin ∉ s.failedPins ∧
          failAttempt (State.log { s with pinFailCount := some (s.failCount + 1) }
            ⟨secureTime,pin,s.failCount,true⟩) secureTime pin = some t)) := by
  unfold authenticate at taken
  split at taken
  case isTrue =>
    cases taken
    exact Or.inl rfl
  case isFalse unlocked =>
    refine Or.inr ⟨unlocked,?_⟩
    by_cases failed : pin ∈ s.failedPins
    · have repeated : decide (pin ∉ s.failedPins) = false := decide_eq_false (not_not.mpr failed)
      simp only [repeated, Bool.false_eq_true, if_false] at taken
      split at taken
      · cases taken
      · cases taken
        exact Or.inl ⟨failed,rfl⟩
    · have unique : decide (pin ∉ s.failedPins) = true := decide_eq_true failed
      simp only [unique, if_true] at taken
      split at taken
      · cases taken
      · obtain ⟨u,attempt,same⟩ := Option.map_eq_some_iff.mp taken
        cases same
        exact Or.inr ⟨failed,attempt⟩

theorem authenticate_guarded {s t : State Pin} {secureTime : ℚ} {pin : Pin} (guarded : Guarded s)
    (taken : authenticate s secureTime pin = some (t,false)) : Guarded t := by
  rcases authenticate_cases taken with rfl | ⟨unlocked,⟨failed,rfl⟩ | ⟨_,attempt⟩⟩
  · exact guarded
  · cases stored : s.pin with
    | none =>
      rw [log_none stored]
      exact guarded
    | some _ =>
      have stored := Option.isSome_of_eq_some stored
      rw [log_some stored]
      exact guarded.repeated stored unlocked rfl rfl failed
  · cases stored : s.pin with
    | none =>
      rw [log_none (by exact stored)] at attempt
      rcases failAttempt_cases attempt with ⟨_,empty,same⟩ | ⟨_,empty,same,_⟩
      · exact guarded.unstored empty same
      · exact guarded.unstored (empty.trans stored) same
    | some _ =>
      have stored := Option.isSome_of_eq_some stored
      rw [log_some (by exact stored)] at attempt
      rcases failAttempt_cases attempt with ⟨_,wiped,appended⟩ | ⟨more,_,appended,after⟩
      · exact guarded.attempted stored unlocked rfl rfl appended (Or.inl wiped)
      · exact guarded.attempted stored unlocked rfl rfl appended (Or.inr ⟨more,after⟩)

theorem step_guarded (s : State Pin) (e : Event Pin) (t : State Pin) (guarded : Guarded s)
    (failed : Unsuccessful s e) (taken : step s e = some t) : Guarded t := by
  cases e with
  | restarted =>
    cases taken
    exact guarded.restarted
  | authenticate secureTime pin =>
    obtain ⟨⟨u,success⟩,ran,rfl⟩ := Option.map_eq_some_iff.mp taken
    cases success with
    | true => exact absurd ran (failed u)
    | false => exact authenticate_guarded guarded ran

end Authenticate

/-- The wait before a counted attempt, after two that were counted before the last. -/
theorem Guarded.next_waits {s : State Pin} (guarded : Guarded s) {i : Nat} {c d : Comparison Pin}
    (at_c : s.counted[i + 2]? = some c) (at_d : s.counted[i + 3]? = some d) :
    c.secureTime + 60 * 6 ^ i - 1 ≤ d.secureTime := by
  have pairs : s.counted.Pairwise Spaced := guarded.spaced.filter _
  obtain ⟨_,rfl⟩ := List.getElem?_eq_some_iff.mp at_c
  obtain ⟨_,rfl⟩ := List.getElem?_eq_some_iff.mp at_d
  have number := guarded.numbered _ _ at_d
  have counted := (List.mem_filter.mp (List.mem_of_getElem? at_c)).2
  have wait := List.pairwise_iff_getElem.mp pairs (i + 2) (i + 3) (by assumption) (by assumption)
    (by omega) counted (by omega)
  have power : (s.counted[i + 3].failCount - 3).toNat = i := by omega
  rwa [power] at wait

/-- The eighth counted attempt comes after all the waits since the third. -/
theorem Guarded.eighth_waits {s : State Pin} (guarded : Guarded s) {third eighth : Comparison Pin}
    (at_third : s.counted[2]? = some third) (at_eighth : s.counted[7]? = some eighth) :
    third.secureTime + (60 + 360 + 2160 + 12960 + 77760 - 5) ≤ eighth.secureTime := by
  obtain ⟨within,_⟩ := List.getElem?_eq_some_iff.mp at_eighth
  have at_fourth := List.getElem?_eq_getElem (show 3 < s.counted.length by omega)
  have at_fifth := List.getElem?_eq_getElem (show 4 < s.counted.length by omega)
  have at_sixth := List.getElem?_eq_getElem (show 5 < s.counted.length by omega)
  have at_seventh := List.getElem?_eq_getElem (show 6 < s.counted.length by omega)
  have fourth := guarded.next_waits at_third at_fourth
  have fifth := guarded.next_waits at_fourth at_fifth
  have sixth := guarded.next_waits at_fifth at_sixth
  have seventh := guarded.next_waits at_sixth at_seventh
  have eighth := guarded.next_waits at_seventh at_eighth
  linarith

section Authenticate
variable [DecidableEq Pin]

theorem Guarded.few_distinct {s : State Pin} (guarded : Guarded s) :
    (s.compared.map Comparison.pin).toFinset.card ≤ 8 := by
  have covered : (s.compared.map Comparison.pin).toFinset ⊆
      (s.counted.map Comparison.pin).toFinset := by
    intro pin there
    obtain ⟨c,among,rfl⟩ := List.mem_map.mp (List.mem_toFinset.mp there)
    obtain ⟨d,counted,same⟩ := guarded.covered c among
    exact List.mem_toFinset.mpr (List.mem_map.mpr ⟨d,counted,same⟩)
  calc (s.compared.map Comparison.pin).toFinset.card
      ≤ (s.counted.map Comparison.pin).toFinset.card := Finset.card_le_card covered
    _ ≤ (s.counted.map Comparison.pin).length := List.toFinset_card_le _
    _ = s.counted.length := List.length_map _
    _ ≤ 8 := guarded.few

/-- In every run without a successful attempt, restarts and all and whatever the clock does, no
    more than eight PINs are compared with the stored one, and from the third failure on each
    comparison waits. -/
theorem guessing_bounded (start s : State Pin) (events : List (Event Pin)) (fresh : Fresh start)
    (failed : Along step Unsuccessful start events) (run : exec step start events = some s) :
    (s.compared.map Comparison.pin).toFinset.card ≤ 8 ∧
      s.compared.Pairwise Spaced ∧
      ∀ third eighth, s.counted[2]? = some third → s.counted[7]? = some eighth →
        third.secureTime + (60 + 360 + 2160 + 12960 + 77760 - 5) ≤ eighth.secureTime := by
  have guarded := exec_keeps step_guarded fresh.guarded failed run
  exact ⟨guarded.few_distinct,guarded.spaced,fun _ _ => guarded.eighth_waits⟩

end Authenticate

/-- Three wrong PINs, one more a second too early, and again after a restart and the wait. -/
def guesses : List (Event Nat) :=
  [.authenticate 10 1, .authenticate 20 2, .authenticate 30 3, .authenticate 89 4, .restarted,
    .authenticate 90 3]

def PinSet : State Nat := ⟨some 0,none,none,[],[]⟩

def afterGuesses : State Nat where
  pin := some 0
  pinFailCount := some 4
  pinFailTime := some 90
  failedPins := [3]
  compared := [⟨10,1,0,true⟩,⟨20,2,1,true⟩,⟨30,3,2,true⟩,⟨90,3,3,true⟩]

theorem four_guesses_bounded :
    (afterGuesses.compared.map Comparison.pin).toFinset.card ≤ 8 ∧
      afterGuesses.compared.Pairwise Spaced ∧
      ∀ third eighth, afterGuesses.counted[2]? = some third →
        afterGuesses.counted[7]? = some eighth →
        third.secureTime + (60 + 360 + 2160 + 12960 + 77760 - 5) ≤ eighth.secureTime :=
  guessing_bounded PinSet afterGuesses guesses ⟨rfl,rfl,rfl,rfl⟩ (by decide +kernel)
    (by decide +kernel)

end PinLockout
