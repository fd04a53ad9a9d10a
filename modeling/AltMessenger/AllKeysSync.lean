import AltMessenger.SyncEnds
import AltMessenger.TransitionRuns

/-!
The fan-out of `syncAllKeys`: a loop that submits a block for each key, at most ten syncs at a
time, the blocks on a concurrent queue, and a thread that waits for all of them. Each takes its
steps in any order with those of the others.
-/
namespace AllKeysSync
open FaultyState ReplicatedStore KeySync SyncEnds TransitionRuns

/-- The block submitted for a key: its `_syncKey` with a completion handler that signals, and
    the same for an error that it throws. -/
def block {σ : Type} (steps : Steps σ) (key : List Char) (answer : Answer) : Op σ Unit :=
  tryCatch (_syncKey steps key complete answer.version answer.date answer.error)
    (caught fun e => complete (some e))

/-- What a block's `_syncKey` came to. -/
inductive Outcome where
  | completed (e : Option BRReplicatedKVStoreError)
  | threw (e : BRReplicatedKVStoreError)
  deriving DecidableEq

def Outcome.failed : Outcome → Bool
  | .completed e => e.isSome
  | .threw _ => true

/-- Where the loop over the keys stands: in front of `grp.enter()`, of `seph.wait`, of
    `q.async(group: grp)`, or behind its own `grp.leave()`. -/
inductive Loop where
  | enter
  | wait
  | submit
  | left
  deriving DecidableEq

structure FanOut where
  todo : List (List Char)
  loop : Loop
  seph : Nat
  grp : Nat
  /-- blocks submitted that have not come to their end -/
  blocks : Nat
  /-- syncs of submitted blocks that have neither completed nor thrown -/
  syncs : List (List Char)
  failures : Nat
  deriving DecidableEq

inductive Phase where
  | asking
  | fanning (fan : FanOut)
  | woken (failures : Nat)
  | ended
  deriving DecidableEq

structure State where
  phase : Phase
  syncRunning : Bool
  completions : List (Option BRReplicatedKVStoreError)
  deriving DecidableEq

inductive Event where
  /-- the answer of `remote.keys`, and what `localKeys()` gives then -/
  | answered (keyData : Except BRRemoteKVStoreError (List (List Char)))
      (localKeyData : Except BRReplicatedKVStoreError (List (List Char)))
  | enters
  | waits
  | submits
  | leaves
  | blockEnds
  | syncEnds (key : List Char) (outcome : Outcome)
  | wakes
  | main

/-- The remote keys, and the local ones that are not among them. -/
def allKeyData (keyData localKeyData : List (List Char)) : List (List Char) :=
  keyData ++ localKeyData.filter (· ∉ keyData)

def fanStep (f : FanOut) : Event → Option FanOut
  | .enters =>
    if f.loop = .enter ∧ f.todo ≠ [] then some { f with loop := .wait, grp := f.grp + 1 } else none
  | .waits =>
    if f.loop = .wait ∧ 0 < f.seph then some { f with loop := .submit, seph := f.seph - 1 }
    else none
  | .submits =>
    match f.loop, f.todo with
    | .submit, key :: todo =>
      some { f with
        todo, loop := .enter, grp := f.grp + 1, blocks := f.blocks + 1, syncs := key :: f.syncs }
    | _, _ => none
  | .leaves =>
    if f.loop = .enter ∧ f.todo = [] then some { f with loop := .left, grp := f.grp - 1 } else none
  | .blockEnds =>
    if 0 < f.blocks then some { f with blocks := f.blocks - 1, grp := f.grp - 1 } else none
  | .syncEnds key outcome =>
    if key ∈ f.syncs then
      some { f with
        syncs := f.syncs.erase key
        failures := if outcome.failed then f.failures + 1 else f.failures
        seph := f.seph + 1
        grp := f.grp - 1 }
    else none
  | _ => none

def step (s : State) (event : Event) : Option State :=
  match s.phase with
  | .asking =>
    match event with
    | .answered (.ok keyData) (.ok localKeyData) =>
      some { s with phase := .fanning {
        todo := allKeyData keyData localKeyData, loop := .enter, seph := 10, grp := 1, blocks := 0,
        syncs := [], failures := 0 } }
    | .answered _ _ =>
      some { phase := .ended, syncRunning := false
             completions := s.completions ++ [some .replicationError] }
    | _ => none
  | .fanning f =>
    match event with
    | .wakes => if f.grp = 0 then some { s with phase := .woken f.failures } else none
    | event => (fanStep f event).map fun f => { s with phase := .fanning f }
  | .woken failures =>
    match event with
    | .main =>
      some { phase := .ended, syncRunning := false
             completions :=
              s.completions ++ [if 0 < failures then some .replicationError else none] }
    | _ => none
  | .ended => none

/-- `syncAllKeys` where no sync runs. Where one does it answers `alreadyReplicating`. -/
def syncAllKeys (completions : List (Option BRReplicatedKVStoreError)) : State where
  phase := .asking
  syncRunning := true
  completions

/-- The group counts the loop, the key it holds, the blocks and the syncs; a sync that has its
    turn has taken one of ten. -/
structure Counted (f : FanOut) : Prop where
  grp : f.grp = (if f.loop = .left then 0 else 1) +
    (if f.loop = .wait ∨ f.loop = .submit then 1 else 0) + f.blocks + f.syncs.length
  seph : f.seph + (if f.loop = .submit then 1 else 0) + f.syncs.length = 10
  holds : f.loop = .wait ∨ f.loop = .submit → f.todo ≠ []
  left : f.loop = .left → f.todo = []

/-- The steps to come. -/
def FanOut.ahead (f : FanOut) : Nat :=
  5 * f.todo.length + f.blocks + f.syncs.length +
    match f.loop with
    | .enter => 3
    | .wait => 2
    | .submit => 1
    | .left => 2

/-- Each step keeps the counts and brings the fan-out one step nearer to its end. -/
theorem fanStep_counted {f f' : FanOut} {event : Event} (counted : Counted f)
    (taken : fanStep f event = some f') : Counted f' ∧ f'.ahead + 1 = f.ahead := by
  obtain ⟨todo,loop,seph,grp,blocks,syncs,failures⟩ := f
  obtain ⟨grp_eq,seph_eq,holds,left⟩ := counted
  simp only at grp_eq seph_eq holds left
  cases event with
  | answered keyData localKeyData => cases taken
  | wakes => cases taken
  | main => cases taken
  | enters =>
    simp only [fanStep, Option.ite_none_right_eq_some, Option.some.injEq] at taken
    obtain ⟨⟨rfl,more⟩,rfl⟩ := taken
    simp only [reduceCtorEq, if_false, or_self] at grp_eq seph_eq
    refine ⟨⟨?_,?_,fun _ => more,nofun⟩,rfl⟩
    · simp; omega
    · simpa using seph_eq
  | waits =>
    simp only [fanStep, Option.ite_none_right_eq_some, Option.some.injEq] at taken
    obtain ⟨⟨rfl,free⟩,rfl⟩ := taken
    refine ⟨⟨?_,?_,fun _ => holds (by simp),nofun⟩,rfl⟩
    · simpa using grp_eq
    · simp at seph_eq ⊢
      omega
  | submits =>
    cases loop <;> cases todo <;> simp only [fanStep, reduceCtorEq, Option.some.injEq] at taken
    subst taken
    refine ⟨⟨?_,?_,by simp,nofun⟩,?_⟩
    · simp at grp_eq ⊢
      omega
    · simp at seph_eq ⊢
      omega
    · simp [FanOut.ahead]
      omega
  | leaves =>
    simp only [fanStep, Option.ite_none_right_eq_some, Option.some.injEq] at taken
    obtain ⟨⟨rfl,none_left⟩,rfl⟩ := taken
    refine ⟨⟨?_,?_,by simp,fun _ => none_left⟩,rfl⟩
    · simp at grp_eq ⊢
      omega
    · simpa using seph_eq
  | blockEnds =>
    simp only [fanStep, Option.ite_none_right_eq_some, Option.some.injEq] at taken
    obtain ⟨some_block,rfl⟩ := taken
    refine ⟨⟨?_,seph_eq,holds,left⟩,?_⟩
    · simp only
      omega
    · simp only [FanOut.ahead]
      omega
  | syncEnds key outcome =>
    simp only [fanStep, Option.ite_none_right_eq_some, Option.some.injEq] at taken
    obtain ⟨mem,rfl⟩ := taken
    have length := List.length_erase_of_mem mem
    have positive := List.length_pos_of_mem mem
    refine ⟨⟨?_,?_,holds,left⟩,?_⟩
    · simp only
      omega
    · simp only
      omega
    · simp only [FanOut.ahead]
      omega

/-- The fan-out is never stuck: some thread can take a step. -/
theorem fan_moves {f : FanOut} (counted : Counted f) :
    f.grp = 0 ∨ ∃ event f', fanStep f event = some f' := by
  by_cases block : 0 < f.blocks
  · exact Or.inr ⟨.blockEnds,_,if_pos block⟩
  cases syncs : f.syncs with
  | cons key syncs => exact Or.inr ⟨.syncEnds key (.completed none),_,if_pos (by simp [syncs])⟩
  | nil =>
    have seph := counted.seph
    have grp := counted.grp
    rw [syncs] at seph grp
    cases loop : f.loop with
    | enter =>
      by_cases more : f.todo = []
      · exact Or.inr ⟨.leaves,_,if_pos ⟨loop,more⟩⟩
      · exact Or.inr ⟨.enters,_,if_pos ⟨loop,more⟩⟩
    | wait =>
      simp [loop] at seph
      exact Or.inr ⟨.waits,_,if_pos ⟨loop,by omega⟩⟩
    | submit =>
      cases todo : f.todo with
      | nil => exact absurd todo (counted.holds (Or.inr loop))
      | cons key todo =>
        have submits : (fanStep f .submits).isSome := by simp [fanStep, loop, todo]
        exact Or.inr ⟨.submits,Option.isSome_iff_exists.mp submits⟩
    | left =>
      simp [loop] at grp
      omega

/-- While a sync runs nothing was completed yet; when it has ended its handler was called once
    and the flag is down. -/
def Sound (completions : List (Option BRReplicatedKVStoreError)) (s : State) : Prop :=
  match s.phase with
  | .fanning f => Counted f ∧ s.syncRunning = true ∧ s.completions = completions
  | .ended => s.syncRunning = false ∧ ∃ e, s.completions = completions ++ [e]
  | _ => s.syncRunning = true ∧ s.completions = completions

def Phase.ahead : Phase → Nat
  | .asking => 0
  | .fanning f => f.ahead
  | .woken _ => 1
  | .ended => 0

theorem counted_start (todo : List (List Char)) : Counted
    { todo, loop := .enter, seph := 10, grp := 1, blocks := 0, syncs := [], failures := 0 } :=
  ⟨rfl,rfl,by simp,nofun⟩

variable {completions : List (Option BRReplicatedKVStoreError)}

theorem fanning_step {s t : State} {f : FanOut} {event : Event} (phase : s.phase = .fanning f)
    (taken : step s event = some t) :
    (event = .wakes ∧ f.grp = 0 ∧ t = { s with phase := .woken f.failures }) ∨
      ∃ f', fanStep f event = some f' ∧ t = { s with phase := .fanning f' } := by
  cases event with
  | wakes =>
    simp only [step, phase, Option.ite_none_right_eq_some, Option.some.injEq] at taken
    exact Or.inl ⟨rfl,taken.1,taken.2.symm⟩
  | answered keyData localKeyData => simp [step, phase, fanStep] at taken
  | main => simp [step, phase, fanStep] at taken
  | enters | waits | submits | leaves | blockEnds | syncEnds =>
    simp only [step, phase, Option.map_eq_some_iff] at taken
    obtain ⟨f',moved,rfl⟩ := taken
    exact Or.inr ⟨f',moved,rfl⟩

theorem asking_step {s t : State} {event : Event} (phase : s.phase = .asking)
    (taken : step s event = some t) :
    ∃ keyData localKeyData, event = .answered keyData localKeyData ∧
      ((∃ remote own, keyData = .ok remote ∧ localKeyData = .ok own ∧
          t = { s with phase := .fanning {
            todo := allKeyData remote own, loop := .enter, seph := 10, grp := 1, blocks := 0,
            syncs := [], failures := 0 } }) ∨
        t = { phase := .ended, syncRunning := false
              completions := s.completions ++ [some .replicationError] }) := by
  cases event with
  | answered keyData localKeyData =>
    refine ⟨keyData,localKeyData,rfl,?_⟩
    cases keyData <;> cases localKeyData <;>
      simp only [step, phase, Option.some.injEq] at taken
    case ok.ok remote own => exact Or.inl ⟨remote,own,rfl,rfl,taken.symm⟩
    all_goals exact Or.inr taken.symm
  | enters | waits | submits | leaves | blockEnds | syncEnds | wakes | main =>
    simp [step, phase] at taken

theorem woken_step {s t : State} {event : Event} {failures : Nat}
    (phase : s.phase = .woken failures) (taken : step s event = some t) :
    t = { phase := .ended, syncRunning := false
          completions :=
            s.completions ++ [if 0 < failures then some .replicationError else none] } := by
  cases event with
  | main =>
    simp only [step, phase, Option.some.injEq] at taken
    exact taken.symm
  | answered | enters | waits | submits | leaves | blockEnds | syncEnds | wakes =>
    simp [step, phase] at taken

theorem sound_step (s : State) (event : Event) (t : State) (sound : Sound completions s)
    (taken : step s event = some t) : Sound completions t := by
  cases phase : s.phase with
  | asking =>
    simp only [Sound, phase] at sound
    obtain ⟨_,_,_,⟨remote,own,_,_,rfl⟩ | rfl⟩ := asking_step phase taken
    · exact ⟨counted_start _,sound⟩
    · exact ⟨rfl,_,by rw [sound.2]⟩
  | fanning f =>
    simp only [Sound, phase] at sound
    rcases fanning_step phase taken with ⟨_,_,rfl⟩ | ⟨f',moved,rfl⟩
    · exact sound.2
    · exact ⟨(fanStep_counted sound.1 moved).1,sound.2⟩
  | woken failures =>
    simp only [Sound, phase] at sound
    rw [woken_step phase taken]
    exact ⟨rfl,_,by rw [sound.2]⟩
  | ended => simp [step, phase] at taken

theorem sound_run {events : List Event} {t : State}
    (run : exec step (syncAllKeys completions) events = some t) : Sound completions t := by
  have start : Sound completions (syncAllKeys completions) := ⟨rfl,rfl⟩
  exact exec_always sound_step start run

/-- Until a sync has ended it can go on. -/
theorem moves {s : State} (sound : Sound completions s) (running : s.phase ≠ .ended) :
    ∃ event t, step s event = some t := by
  cases phase : s.phase with
  | asking => exact ⟨.answered (.ok []) (.ok []),_,by simp only [step, phase]; rfl⟩
  | fanning f =>
    simp only [Sound, phase] at sound
    rcases fan_moves sound.1 with woken | ⟨event,f',moved⟩
    · exact ⟨.wakes,_,by simp only [step, phase]; exact if_pos woken⟩
    · refine ⟨event,{ s with phase := .fanning f' },?_⟩
      cases event <;> simp only [step, phase, moved, Option.map_some]
      cases moved
  | woken failures => exact ⟨.main,_,by simp only [step, phase]; rfl⟩
  | ended => exact absurd phase running

/-- Behind the answer each step counts. -/
theorem ahead_step {s : State} {event : Event} {t : State} (sound : Sound completions s)
    (answered : s.phase ≠ .asking) (taken : step s event = some t) :
    t.phase ≠ .asking ∧ t.phase.ahead + 1 ≤ s.phase.ahead := by
  cases phase : s.phase with
  | asking => exact absurd phase answered
  | fanning f =>
    simp only [Sound, phase] at sound
    rcases fanning_step phase taken with ⟨_,idle,rfl⟩ | ⟨f',moved,rfl⟩
    · refine ⟨nofun,?_⟩
      have grp := sound.1.grp
      by_cases left : f.loop = .left
      · simp only [Phase.ahead, FanOut.ahead, left]
        omega
      · rw [if_neg left] at grp
        omega
    · have nearer := (fanStep_counted sound.1 moved).2
      exact ⟨nofun,by simp only [Phase.ahead]; omega⟩
  | woken failures =>
    rw [woken_step phase taken]
    exact ⟨nofun,Nat.le_refl _⟩
  | ended => simp [step, phase] at taken

theorem ahead_run {s t : State} {events : List Event} (sound : Sound completions s)
    (answered : s.phase ≠ .asking) (run : exec step s events = some t) :
    events.length + t.phase.ahead ≤ s.phase.ahead := by
  induction events generalizing s with
  | nil =>
    cases run
    simp
  | cons event events ih =>
    obtain ⟨mid,first,rest⟩ := exec_cons.mp run
    obtain ⟨later,nearer⟩ := ahead_step sound answered first
    have bound := ih (sound_step s event mid sound first) later rest
    rw [List.length_cons]
    omega

/-- The number of steps a sync takes behind the answer. -/
def stepsBehind : Except BRRemoteKVStoreError (List (List Char)) →
    Except BRReplicatedKVStoreError (List (List Char)) → Nat
  | .ok keyData, .ok localKeyData => 5 * (allKeyData keyData localKeyData).length + 3
  | _, _ => 0

theorem run_bounded {first : Event} {rest : List Event} {t : State}
    (run : exec step (syncAllKeys completions) (first :: rest) = some t) :
    ∃ keyData localKeyData, first = .answered keyData localKeyData ∧
      rest.length ≤ stepsBehind keyData localKeyData := by
  obtain ⟨mid,answered,rest_run⟩ := exec_cons.mp run
  have start : Sound completions (syncAllKeys completions) := ⟨rfl,rfl⟩
  have sound := sound_step _ _ _ start answered
  obtain ⟨keyData,localKeyData,same,fans | failed⟩ := asking_step rfl answered
  · obtain ⟨remote,own,rfl,rfl,rfl⟩ := fans
    have bound := ahead_run sound nofun rest_run
    simp only [Phase.ahead, FanOut.ahead, List.length_nil] at bound
    refine ⟨_,_,same,?_⟩
    simp only [stepsBehind]
    omega
  · rw [failed] at sound rest_run
    have bound := ahead_run sound nofun rest_run
    simp only [Phase.ahead] at bound
    exact ⟨keyData,localKeyData,same,by omega⟩

/-- A block finishes once, whether its `_syncKey` completes or throws. -/
theorem block_finishes {σ : Type} {steps : Steps σ} {key : List Char} {answer : Answer}
    (calm : Calm steps) (s : Sync σ) :
    ∃ e, exec (block steps key answer) s = (.ok (), (exec (block steps key answer) s).2) ∧
      (exec (block steps key answer) s).2.completions = s.completions ++ [e] := by
  have kept := keeps_kernel steps key answer.version answer.date answer.error s
  have survived := survives_kernel calm key answer.version answer.date answer.error s
  rw [block, _syncKey_completes, exec_tryCatch, exec_bind]
  rcases ran : exec (_syncKey steps key (pure : _ → Op σ _) answer.version answer.date
      answer.error) s with ⟨stop | e,t⟩
  · rw [ran] at kept survived
    cases stop with
    | throws e =>
      refine ⟨some e,rfl,?_⟩
      rw [← kept.2]
      rfl
    | trap trap => exact absurd rfl (survived trap)
  · rw [ran] at kept
    refine ⟨e,rfl,?_⟩
    rw [← kept.2]
    rfl

/-- Every sync that starts ends: a `syncKey` just when its kernel can read both sides, and a
    `syncAllKeys` always, after at most five steps a key; each of its blocks finishes once. -/
theorem sync_ends_iff (σ : Type) (steps : Steps σ) (key : List Char) (s : Sync σ) :
    (∀ (remote : Option (Nat × Nat)) (remoteErr : Option BRRemoteKVStoreError), Calm steps →
      steps.checkKey key = .ok () → s.syncRunning = false →
      (Ended s (exec (syncKey steps key remote remoteErr) s).2 ↔
        KernelReads steps key (known steps key remote remoteErr s.world).1
          (known steps key remote remoteErr s.world).2)) ∧
    (∀ answer : Answer, Calm steps →
      ∃ e, exec (block steps key answer) s = (.ok (), (exec (block steps key answer) s).2) ∧
        (exec (block steps key answer) s).2.completions = s.completions ++ [e]) ∧
    ∀ completions events t, exec step (syncAllKeys completions) events = some t →
      (t.phase = .ended → t.syncRunning = false ∧ ∃ e, t.completions = completions ++ [e]) ∧
      (t.phase ≠ .ended → t.completions = completions ∧ ∃ event u, step t event = some u) ∧
      ∀ first rest, events = first :: rest → ∃ keyData localKeyData,
        first = .answered keyData localKeyData ∧ rest.length ≤ stepsBehind keyData localKeyData := by
  refine ⟨fun remote remoteErr calm valid idle => syncKey_ends_iff calm valid idle,?_,?_⟩
  · exact fun answer calm => block_finishes calm s
  · intro completions events t run
    have sound := sound_run run
    refine ⟨?_,fun running => ⟨?_,moves sound running⟩,?_⟩
    · intro ended
      simp only [Sound, ended] at sound
      exact sound
    · cases phase : t.phase with
      | asking => simp only [Sound, phase] at sound; exact sound.2
      | fanning f => simp only [Sound, phase] at sound; exact sound.2.2
      | woken failures => simp only [Sound, phase] at sound; exact sound.2
      | ended => exact absurd phase running
    · rintro first rest rfl
      exact run_bounded run

/-- A store without the key, whose query for the recorded version comes to this. -/
def emptySteps (recorded : Except BRReplicatedKVStoreError Nat) : Steps Unit where
  encryptedReplication := false
  checkKey _ := .ok ()
  remoteVersion _ := lift (recorded.mapError .throws)
  get _ := throw (.throws .notFound)
  encrypt := pure
  decrypt := pure
  setRemoteVersion _ localVer _ := pure (localVer + 1, 0)
  _set _ _ localVer := pure (localVer + 1, 0)
  _del _ localVer := pure (localVer + 1, 0)
  del _ localVer := pure (localVer + 1, 0)
  ver _ w := (⟨0,0,some .notFound⟩, w)
  remotePut _ _ _ w := (⟨1,0,none⟩, w)
  remoteDel _ _ w := (⟨0,0,some .notFound⟩, w)
  remoteGet _ _ w := ((⟨0,0,some .notFound⟩, []), w)

theorem emptySteps_calm (recorded : Except BRReplicatedKVStoreError Nat) :
    Calm (emptySteps recorded) where
  remoteVersion key w trap := by
    cases recorded <;> simp [emptySteps, Except.mapError]
  get key w trap := by simp [emptySteps]
  encrypt value := survives_pure value
  decrypt value := survives_pure value
  setRemoteVersion key localVer remoteVer := survives_pure (localVer + 1, 0)
  _set key value localVer := survives_pure (localVer + 1, 0)
  _del key localVer := survives_pure (localVer + 1, 0)
  del key localVer := survives_pure (localVer + 1, 0)

def idle : Sync Unit := ⟨(),false,[]⟩

theorem empty_sync_ends :
    Ended idle (exec (syncKey (emptySteps (.ok 0)) ['a', 'b'] none none) idle).2 :=
  ((sync_ends_iff Unit (emptySteps (.ok 0)) ['a', 'b'] idle).1 none none (emptySteps_calm _) rfl
    rfl).mpr ⟨0,(),rfl,Or.inr rfl⟩

/-- Where the query for the recorded version throws, the sync is lost: its completion handler
    is not called, and the flag stays up. -/
theorem failed_query_never_ends :
    ¬ ∀ (σ : Type) (steps : Steps σ) (key : List Char) (s : Sync σ) (remote : Option (Nat × Nat))
      (remoteErr : Option BRRemoteKVStoreError), Calm steps → steps.checkKey key = .ok () →
      s.syncRunning = false → Ended s (exec (syncKey steps key remote remoteErr) s).2 := by
  intro claim
  have ended := (claim Unit (emptySteps (.error .sqLiteError)) ['a', 'b'] idle none none
    (emptySteps_calm _) rfl rfl).2
  have running : (exec (syncKey (emptySteps (.error .sqLiteError)) ['a', 'b'] none none)
      idle).2.syncRunning = true := rfl
  rw [running] at ended
  cases ended

end AllKeysSync
