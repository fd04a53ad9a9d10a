import Mathlib.Data.List.Basic

/-!
Runs of a machine that takes one event after another. An event that cannot
happen in a state has no step there. A condition is met along a run when it
holds of each event in the state it finds.
-/
namespace TransitionRuns
variable {σ ε : Type}

def exec (step : σ → ε → Option σ) : σ → List ε → Option σ
  | s, [] => some s
  | s, e :: events => (step s e).bind fun s => exec step s events

def Along (step : σ → ε → Option σ) (condition : σ → ε → Prop) : σ → List ε → Prop
  | _, [] => True
  | s, e :: events => condition s e ∧ ∀ t, step s e = some t → Along step condition t events

def decidableAlong (step : σ → ε → Option σ) (condition : σ → ε → Prop)
    [∀ s e, Decidable (condition s e)] :
    (s : σ) → (events : List ε) → Decidable (Along step condition s events)
  | _, [] => .isTrue trivial
  | s, e :: events =>
    match taken : step s e with
    | none => decidable_of_iff (condition s e)
        ⟨fun met => ⟨met,fun t there => nomatch taken.symm.trans there⟩,And.left⟩
    | some t =>
      have := decidableAlong step condition t events
      decidable_of_iff (condition s e ∧ Along step condition t events)
        ⟨fun ⟨met,rest⟩ => ⟨met,fun u there => by cases taken.symm.trans there; exact rest⟩,
          fun ⟨met,rest⟩ => ⟨met,rest t taken⟩⟩

instance (step : σ → ε → Option σ) (condition : σ → ε → Prop) [∀ s e, Decidable (condition s e)]
    (s : σ) (events : List ε) : Decidable (Along step condition s events) :=
  decidableAlong step condition s events

variable {step : σ → ε → Option σ} {condition : σ → ε → Prop}

theorem exec_cons {s t : σ} {e : ε} {events : List ε} :
    exec step s (e :: events) = some t ↔
      ∃ mid, step s e = some mid ∧ exec step mid events = some t := by
  rw [exec, Option.bind_eq_some_iff]

theorem along_cons {s t : σ} {e : ε} {events : List ε} (met : condition s e)
    (taken : step s e = some t) (rest : Along step condition t events) :
    Along step condition s (e :: events) := by
  refine ⟨met,fun u there => ?_⟩
  cases taken.symm.trans there
  exact rest

theorem along_prefix {s : σ} {done events : List ε} (met : Along step condition s events)
    (front : done <+: events) : Along step condition s done := by
  induction done generalizing s events with
  | nil => exact trivial
  | cons e done ih =>
    cases events with
    | nil => cases List.prefix_nil.mp front
    | cons e' events =>
      obtain ⟨rfl,shorter⟩ := List.cons_prefix_cons.mp front
      exact ⟨met.1,fun t taken => ih (met.2 t taken) shorter⟩

/-- What holds at the start, of the state and the events so far, and is kept by each step that
    meets the condition holds at the end of each run along which the condition is met. -/
theorem exec_logged (invariant : List ε → σ → Prop)
    (keeps : ∀ log s e t, invariant log s → condition s e → step s e = some t →
      invariant (log ++ [e]) t)
    (log : List ε) {s t : σ} {events : List ε} (start : invariant log s)
    (met : Along step condition s events) (run : exec step s events = some t) :
    invariant (log ++ events) t := by
  induction events generalizing log s with
  | nil =>
    cases run
    rw [List.append_nil]
    exact start
  | cons e events ih =>
    obtain ⟨mid,first,rest⟩ := exec_cons.mp run
    have later := ih (log ++ [e]) (keeps log s e mid start met.1 first) (met.2 mid first) rest
    rwa [List.append_assoc] at later

/-- What holds at the start and is kept by each step that meets the condition
    holds at the end of each run along which the condition is met. -/
theorem exec_keeps {invariant : σ → Prop}
    (keeps : ∀ s e t, invariant s → condition s e → step s e = some t → invariant t)
    {s t : σ} {events : List ε} (start : invariant s) (met : Along step condition s events)
    (run : exec step s events = some t) : invariant t :=
  exec_logged (fun _ s => invariant s) (fun _ => keeps) [] start met run

/-- Where each event that meets the condition has its step, and the step keeps something, no run
    along which the condition is met gets stuck. -/
theorem exec_moves {invariant : σ → Prop}
    (moves : ∀ s e, invariant s → condition s e → ∃ t, step s e = some t ∧ invariant t)
    {s : σ} {events : List ε} (start : invariant s) (met : Along step condition s events) :
    ∃ t, exec step s events = some t ∧ invariant t := by
  induction events generalizing s with
  | nil => exact ⟨s,rfl,start⟩
  | cons e events ih =>
    obtain ⟨mid,taken,holds⟩ := moves s e start met.1
    obtain ⟨t,ran,ends⟩ := ih holds (met.2 mid taken)
    exact ⟨t,exec_cons.mpr ⟨mid,taken,ran⟩,ends⟩

/-- What each step keeps, whatever the event, holds at the end of each run. -/
theorem exec_always {invariant : σ → Prop}
    (keeps : ∀ s e t, invariant s → step s e = some t → invariant t)
    {s t : σ} {events : List ε} (start : invariant s) (run : exec step s events = some t) :
    invariant t := by
  have free : ∀ events s, Along step (fun _ _ => True) s events := by
    intro events
    induction events with
    | nil => exact fun _ => trivial
    | cons e events ih => exact fun s => ⟨trivial,fun t _ => ih t⟩
  exact exec_keeps (fun s e t holds _ => keeps s e t holds) start (free events s) run

/-- Along a run the condition is met, or the first event that fails it breaks
    something for good. -/
theorem exec_breaks {invariant broken : σ → Prop}
    (keeps : ∀ s e t, invariant s → step s e = some t → invariant t)
    (breaks : ∀ s e t, invariant s → ¬ condition s e → step s e = some t → broken t)
    (stays : ∀ s e t, broken s → step s e = some t → broken t)
    {s t : σ} {events : List ε} (start : invariant s) (run : exec step s events = some t) :
    Along step condition s events ∨ broken t := by
  induction events generalizing s with
  | nil => exact Or.inl trivial
  | cons e events ih =>
    obtain ⟨mid,first,rest⟩ := exec_cons.mp run
    by_cases met : condition s e
    · rcases ih (keeps s e mid start first) rest with later | now
      · refine Or.inl ⟨met,?_⟩
        intro t' there
        rw [first] at there
        cases there
        exact later
      · exact Or.inr now
    · exact Or.inr (exec_always stays (breaks s e mid start met first) rest)

/-- Where a step leads from a good state to a good one exactly if it meets the condition, the
    states of a run are all good exactly if the condition is met along it. -/
theorem exec_good_iff {invariant good : σ → Prop}
    (keeps : ∀ s e t, invariant s → step s e = some t → invariant t)
    (exact : ∀ s e t, invariant s → good s → step s e = some t → (good t ↔ condition s e))
    {s u : σ} {events : List ε} (start : invariant s) (first : good s)
    (run : exec step s events = some u) :
    (∀ done t, done <+: events → exec step s done = some t → good t) ↔
      Along step condition s events := by
  induction events generalizing s with
  | nil =>
    constructor
    · exact fun _ => trivial
    · intro _ done t front taken
      cases List.prefix_nil.mp front
      cases taken
      exact first
  | cons e events ih =>
    obtain ⟨mid,taken,rest⟩ := exec_cons.mp run
    have later := keeps s e mid start taken
    constructor
    · intro each
      have next : good mid :=
        each [e] mid ⟨events,rfl⟩ (exec_cons.mpr ⟨mid,taken,rfl⟩)
      refine ⟨(exact s e mid start first taken).mp next,?_⟩
      intro t there
      cases taken.symm.trans there
      refine (ih later next rest).mp fun done t front ran => ?_
      exact each (e :: done) t (List.cons_prefix_cons.mpr ⟨rfl,front⟩)
        (exec_cons.mpr ⟨mid,taken,ran⟩)
    · rintro ⟨met,along⟩ done t front ran
      cases done with
      | nil =>
        cases ran
        exact first
      | cons e' done =>
        obtain ⟨rfl,shorter⟩ := List.cons_prefix_cons.mp front
        obtain ⟨mid',taken',ran⟩ := exec_cons.mp ran
        cases taken.symm.trans taken'
        have next := (exact s e' mid start first taken).mpr met
        exact (ih later next rest).mpr (along mid taken) done t shorter ran

/-- Where a step that meets the condition goes on and keeps the invariant, and one that leads to a
    good state meets it, a run goes on from good state to good state exactly if the condition is
    met along it. -/
theorem exec_safe_iff {invariant good : σ → Prop} (sound : ∀ s, invariant s → good s)
    (keeps : ∀ s e, invariant s → condition s e → ∃ t, step s e = some t ∧ invariant t)
    (exact : ∀ s e t, invariant s → step s e = some t → good t → condition s e)
    {s : σ} {events : List ε} (start : invariant s) :
    (∀ done, done <+: events → ∃ t, exec step s done = some t ∧ good t) ↔
      Along step condition s events := by
  induction events generalizing s with
  | nil =>
    constructor
    · exact fun _ => trivial
    · intro _ done front
      cases List.prefix_nil.mp front
      exact ⟨s,rfl,sound s start⟩
  | cons e events ih =>
    constructor
    · intro each
      obtain ⟨t,ran,next⟩ := each [e] ⟨events,rfl⟩
      obtain ⟨mid,taken,same⟩ := exec_cons.mp ran
      cases same
      have met := exact s e t start taken next
      obtain ⟨u,taken',kept⟩ := keeps s e start met
      cases taken.symm.trans taken'
      refine ⟨met,fun u there => ?_⟩
      cases taken.symm.trans there
      refine (ih kept).mp fun done front => ?_
      obtain ⟨u,ran,later⟩ := each (e :: done) (List.cons_prefix_cons.mpr ⟨rfl,front⟩)
      obtain ⟨mid,first,rest⟩ := exec_cons.mp ran
      cases taken.symm.trans first
      exact ⟨u,rest,later⟩
    · rintro ⟨met,along⟩ done front
      obtain ⟨mid,taken,kept⟩ := keeps s e start met
      cases done with
      | nil => exact ⟨s,rfl,sound s start⟩
      | cons e' done =>
        obtain ⟨rfl,shorter⟩ := List.cons_prefix_cons.mp front
        obtain ⟨t,ran,next⟩ := (ih kept).mpr (along mid taken) done shorter
        exact ⟨t,exec_cons.mpr ⟨mid,taken,ran⟩,next⟩

/-- Where a step that is allowed is stuck exactly if it loses something, and keeps the invariant
    otherwise, a run goes on exactly as long as nothing is lost. -/
theorem exec_some_iff {invariant : σ → Prop} {loses : σ → ε → Prop}
    (moves : ∀ s e, invariant s → condition s e → (loses s e ∧ step s e = none) ∨
      (¬ loses s e ∧ ∃ t, step s e = some t ∧ invariant t))
    {s : σ} {events : List ε} (start : invariant s) (met : Along step condition s events) :
    (∃ t, exec step s events = some t) ↔ Along step (fun s e => ¬ loses s e) s events := by
  induction events generalizing s with
  | nil => exact iff_of_true ⟨s,rfl⟩ trivial
  | cons e events ih =>
    rcases moves s e start met.1 with ⟨lost,stuck⟩ | ⟨fine,mid,taken,kept⟩
    · refine iff_of_false ?_ fun along => along.1 lost
      rintro ⟨t,ran⟩
      obtain ⟨mid,taken,-⟩ := exec_cons.mp ran
      rw [stuck] at taken
      cases taken
    · have later := ih kept (met.2 mid taken)
      constructor
      · rintro ⟨t,ran⟩
        obtain ⟨mid',taken',rest⟩ := exec_cons.mp ran
        cases taken.symm.trans taken'
        exact along_cons fine taken (later.mp ⟨t,rest⟩)
      · rintro ⟨-,along⟩
        obtain ⟨t,rest⟩ := later.mpr (along mid taken)
        exact ⟨t,exec_cons.mpr ⟨mid,taken,rest⟩⟩

end TransitionRuns
