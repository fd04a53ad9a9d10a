import AltMessenger.KeySync
import AltMessenger.TransitionRuns

/-!
How a sync ends: what `syncKey` leaves behind when a step throws, and the fan-out of
`syncAllKeys`, whose threads take their steps in any order.
-/
namespace SyncEnds
open FaultyState ReplicatedStore KeySync

variable {σ α β : Type}

/-- The step leaves alone whether a sync runs and what was completed. -/
def Keeps (x : Op σ α) : Prop := ∀ s, (exec x s).2.syncRunning = s.syncRunning ∧
  (exec x s).2.completions = s.completions

/-- The step comes to its end in each state. -/
def Returns (x : Op σ α) : Prop := ∀ s, ∃ a, (exec x s).1 = .ok a

/-- The step succeeds or throws: it does not end the process. -/
def Survives {τ : Type} (x : Act Stop τ α) : Prop :=
  ∀ s trap, (exec x s).1 ≠ .error (.trap trap)

theorem keeps_pure (a : α) : Keeps (pure a : Op σ α) := fun _ => ⟨rfl,rfl⟩

theorem keeps_throw (stop : Stop) : Keeps (throw stop : Op σ α) := fun _ => ⟨rfl,rfl⟩

theorem keeps_here (step : Act Stop σ α) : Keeps (here step) := fun _ => ⟨rfl,rfl⟩

theorem keeps_asked (step : σ → α × σ) : Keeps (asked step) := fun _ => ⟨rfl,rfl⟩

theorem keeps_bind {x : Op σ α} {f : α → Op σ β} (first : Keeps x) (rest : ∀ a, Keeps (f a)) :
    Keeps (x >>= f) := by
  intro s
  have kept := first s
  rw [exec_bind]
  rcases ran : exec x s with ⟨stop | a,t⟩
  · rw [ran] at kept
    exact kept
  · rw [ran] at kept
    have later := rest a t
    exact ⟨later.1.trans kept.1,later.2.trans kept.2⟩

theorem keeps_tryCatch {x : Op σ α} {handle : Stop → Op σ α} (first : Keeps x)
    (rest : ∀ stop, Keeps (handle stop)) : Keeps (tryCatch x handle) := by
  intro s
  have kept := first s
  rw [exec_tryCatch]
  rcases ran : exec x s with ⟨stop | a,t⟩
  · rw [ran] at kept
    have later := rest stop t
    exact ⟨later.1.trans kept.1,later.2.trans kept.2⟩
  · rw [ran] at kept
    exact kept

theorem keeps_ite {p : Prop} [Decidable p] {x y : Op σ α} (yes : Keeps x) (no : Keeps y) :
    Keeps (if p then x else y) := by
  split_ifs
  · exact yes
  · exact no

theorem keeps_caught {handle : BRReplicatedKVStoreError → Op σ α} (handles : ∀ e, Keeps (handle e))
    (stop : Stop) : Keeps (caught handle stop) := by
  cases stop with
  | throws e => exact handles e
  | trap trap => exact keeps_throw _

theorem keeps_attempt {writes : Op σ α}
    {handle : BRReplicatedKVStoreError → Op σ (Option BRReplicatedKVStoreError)}
    (first : Keeps writes) (handles : ∀ e, Keeps (handle e)) : Keeps (attempt writes handle) :=
  keeps_tryCatch (keeps_bind first fun _ => keeps_pure none) (keeps_caught handles)

theorem keeps_ignored {x : Op σ α} (first : Keeps x) : Keeps (ignored x) :=
  keeps_tryCatch (keeps_bind first fun _ => keeps_pure ()) (keeps_caught fun _ => keeps_pure ())

section Kernel
variable (steps : Steps σ) (key : List Char)

theorem keeps_replicated (value : List UInt8) : Keeps (replicated steps value) :=
  keeps_ite (keeps_here _) (keeps_pure _)

theorem keeps_unreplicated (remoteData : List UInt8) : Keeps (unreplicated steps remoteData) :=
  keeps_ite (keeps_here _) (keeps_pure _)

theorem keeps_localState : Keeps (localState steps key) := by
  refine keeps_tryCatch (keeps_bind (keeps_here _) fun row => ?_) (keeps_caught fun e => ?_)
  · exact keeps_bind (keeps_replicated steps _) fun _ => keeps_pure _
  · cases e <;> first | exact keeps_pure _ | exact keeps_throw _

theorem keeps_settle (remoteVer rt : Nat) (remoteErr : Option BRRemoteKVStoreError)
    (recorded : Nat) (localRow : Nat × Nat × Bool × List UInt8) :
    Keeps (settle steps key (pure : _ → Op σ _) remoteVer rt remoteErr recorded localRow) := by
  obtain ⟨localVer,lt,localDeleted,localValue⟩ := localRow
  have report : ∀ e : BRReplicatedKVStoreError,
      Keeps (pure (some e) : Op σ (Option BRReplicatedKVStoreError)) := fun e => keeps_pure _
  have write : ∀ localVer remoteVer, Keeps (attempt
      (here (steps.setRemoteVersion key localVer remoteVer)) fun e => pure (some e)) :=
    fun _ _ => keeps_attempt (keeps_here _) report
  simp only [settle]
  refine keeps_ite (keeps_ite ?_ (keeps_ite (keeps_ite ?_ ?_) (keeps_ite ?_ ?_))) (keeps_pure _)
  · exact keeps_bind (write _ _) fun _ => keeps_pure _
  · refine keeps_bind (keeps_asked _) fun answer => ?_
    exact keeps_ite (keeps_pure _) (keeps_ite (keeps_pure _)
      (keeps_bind (write _ _) fun _ => keeps_pure _))
  · refine keeps_bind (keeps_asked _) fun answer => ?_
    exact keeps_ite (keeps_pure _) (keeps_bind (write _ _) fun _ => keeps_pure _)
  · refine keeps_bind (keeps_attempt (keeps_bind (keeps_here _) fun _ => keeps_here _) ?_)
      fun _ => keeps_pure _
    intro e
    cases e <;> exact keeps_pure _
  · refine keeps_bind (keeps_asked _) fun answer => ?_
    refine keeps_ite (keeps_pure _) (keeps_bind (keeps_attempt ?_ ?_) fun _ => keeps_pure _)
    · exact keeps_bind (keeps_unreplicated steps _) fun _ =>
        keeps_bind (keeps_here _) fun _ => keeps_here _
    · intro e
      cases e <;> first
        | exact keeps_pure _
        | exact keeps_bind (keeps_ignored (keeps_here _)) fun _ => keeps_pure _

theorem keeps_kernel (remoteVer remoteTime : Nat) (remoteErr : Option BRRemoteKVStoreError) :
    Keeps (_syncKey steps key (pure : _ → Op σ _) remoteVer remoteTime remoteErr) := by
  refine keeps_bind (fun _ => ⟨rfl,rfl⟩) fun s => ?_
  refine keeps_ite (keeps_throw _) (keeps_bind (keeps_here _) fun recorded => ?_)
  exact keeps_ite (keeps_pure _)
    (keeps_bind (keeps_localState steps key) fun _ => keeps_settle steps key _ _ _ _ _)

end Kernel

/-- Each local step succeeds or throws. -/
structure Calm (steps : Steps σ) : Prop where
  remoteVersion : ∀ key, Survives (steps.remoteVersion key)
  get : ∀ key, Survives (steps.get key)
  encrypt : ∀ value, Survives (steps.encrypt value)
  decrypt : ∀ value, Survives (steps.decrypt value)
  setRemoteVersion : ∀ key localVer remoteVer,
    Survives (steps.setRemoteVersion key localVer remoteVer)
  _set : ∀ key value localVer, Survives (steps._set key value localVer)
  _del : ∀ key localVer, Survives (steps._del key localVer)
  del : ∀ key localVer, Survives (steps.del key localVer)

theorem survives_bind {τ : Type} {x : Act Stop τ α} {f : α → Act Stop τ β} (first : Survives x)
    (rest : ∀ a, Survives (f a)) : Survives (x >>= f) := by
  intro s trap
  have survived := first s trap
  rw [exec_bind]
  rcases ran : exec x s with ⟨stop | a,t⟩
  · rw [ran] at survived
    intro same
    cases same
    exact survived rfl
  · exact rest a t trap

theorem survives_pure {τ : Type} (a : α) : Survives (pure a : Act Stop τ α) := by
  intro s trap
  simp

theorem survives_here {step : Act Stop σ α} (survives : Survives step) : Survives (here step) :=
  fun s => survives s.world

theorem survives_tryCatch {x : Op σ α} {handle : BRReplicatedKVStoreError → Op σ α}
    (survives : Survives x) (handles : ∀ e, Survives (handle e)) :
    Survives (tryCatch x (caught handle)) := by
  intro s trap
  have survived := survives s trap
  rw [exec_tryCatch]
  rcases ran : exec x s with ⟨stop | a,t⟩
  · cases stop with
    | throws e => exact handles e t trap
    | trap other =>
      rw [ran] at survived
      exact survived
  · simp

theorem survives_throws (e : BRReplicatedKVStoreError) :
    Survives (throw (.throws e) : Op σ α) := by
  intro s trap
  simp

theorem survives_ite {τ : Type} {p : Prop} [Decidable p] {x y : Act Stop τ α} (yes : Survives x)
    (no : Survives y) : Survives (if p then x else y) := by
  split_ifs
  · exact yes
  · exact no

theorem survives_of_returns {x : Op σ α} (returns : Returns x) : Survives x := by
  intro s trap
  obtain ⟨a,ran⟩ := returns s
  rw [ran]
  simp

theorem returns_pure (a : α) : Returns (pure a : Op σ α) := fun _ => ⟨a,rfl⟩

theorem returns_asked (step : σ → α × σ) : Returns (asked step) := fun s => ⟨(step s.world).1,rfl⟩

theorem returns_bind {x : Op σ α} {f : α → Op σ β} (first : Returns x)
    (rest : ∀ a, Returns (f a)) : Returns (x >>= f) := by
  intro s
  obtain ⟨a,ran⟩ := first s
  rw [bind_ran (Prod.ext ran rfl)]
  exact rest a _

theorem returns_ite {p : Prop} [Decidable p] {x y : Op σ α} (yes : Returns x) (no : Returns y) :
    Returns (if p then x else y) := by
  split_ifs
  · exact yes
  · exact no

theorem returns_caught {x : Op σ α} {handle : BRReplicatedKVStoreError → Op σ α}
    (survives : Survives x) (handles : ∀ e, Returns (handle e)) :
    Returns (tryCatch x (caught handle)) := by
  intro s
  have survived := survives s
  rw [exec_tryCatch]
  rcases ran : exec x s with ⟨stop | a,t⟩
  · cases stop with
    | throws e => exact handles e t
    | trap trap =>
      refine absurd ?_ (survived trap)
      rw [ran]
  · exact ⟨a,rfl⟩

theorem returns_attempt {writes : Op σ α}
    {handle : BRReplicatedKVStoreError → Op σ (Option BRReplicatedKVStoreError)}
    (survives : Survives writes) (handles : ∀ e, Returns (handle e)) :
    Returns (attempt writes handle) :=
  returns_caught (survives_bind survives fun _ => survives_pure none) handles

theorem returns_ignored {x : Op σ α} (survives : Survives x) : Returns (ignored x) :=
  returns_caught (survives_bind survives fun _ => survives_pure ()) fun _ => returns_pure ()

section Calm
variable {steps : Steps σ} (calm : Calm steps) (key : List Char)
include calm

theorem survives_unreplicated (remoteData : List UInt8) :
    Survives (unreplicated steps remoteData) := by
  rw [unreplicated]
  exact survives_ite (survives_here (calm.decrypt _)) (survives_pure _)

/-- Once both sides are known the sync comes to a completion. -/
theorem returns_settle (remoteVer rt : Nat) (remoteErr : Option BRRemoteKVStoreError)
    (recorded : Nat) (localRow : Nat × Nat × Bool × List UInt8) :
    Returns (settle steps key (pure : _ → Op σ _) remoteVer rt remoteErr recorded localRow) := by
  obtain ⟨localVer,lt,localDeleted,localValue⟩ := localRow
  have write : ∀ localVer remoteVer, Returns (attempt
      (here (steps.setRemoteVersion key localVer remoteVer)) fun e => pure (some e)) :=
    fun _ _ => returns_attempt (survives_here (calm.setRemoteVersion _ _ _)) fun _ =>
      returns_pure _
  simp only [settle]
  refine returns_ite (returns_ite ?_ (returns_ite (returns_ite ?_ ?_) (returns_ite ?_ ?_)))
    (returns_pure _)
  · exact returns_bind (write _ _) fun _ => returns_pure _
  · refine returns_bind (returns_asked _) fun answer => ?_
    exact returns_ite (returns_pure _) (returns_ite (returns_pure _)
      (returns_bind (write _ _) fun _ => returns_pure _))
  · refine returns_bind (returns_asked _) fun answer => ?_
    exact returns_ite (returns_pure _) (returns_bind (write _ _) fun _ => returns_pure _)
  · refine returns_bind (returns_attempt (survives_bind (survives_here (calm._del _ _)) fun _ =>
      survives_here (calm.setRemoteVersion _ _ _)) ?_) fun _ => returns_pure _
    intro e
    cases e <;> exact returns_pure _
  · refine returns_bind (returns_asked _) fun answer => ?_
    refine returns_ite (returns_pure _)
      (returns_bind (returns_attempt ?_ ?_) fun _ => returns_pure _)
    · exact survives_bind (survives_unreplicated calm _) fun _ =>
        survives_bind (survives_here (calm._set _ _ _)) fun _ =>
          survives_here (calm.setRemoteVersion _ _ _)
    · intro e
      cases e <;> first
        | exact returns_pure _
        | exact returns_bind (returns_ignored (survives_here (calm.del _ _))) fun _ =>
            returns_pure _

theorem survives_replicated (value : List UInt8) : Survives (replicated steps value) :=
  survives_ite (survives_here (calm.encrypt _)) (survives_pure _)

theorem survives_localState : Survives (localState steps key) := by
  refine survives_tryCatch (survives_bind (survives_here (calm.get key)) fun row => ?_) fun e => ?_
  · exact survives_bind (survives_replicated calm _) fun _ => survives_pure _
  · cases e <;> first | exact survives_pure _ | exact survives_throws _

theorem survives_kernel (remoteVer remoteTime : Nat) (remoteErr : Option BRRemoteKVStoreError) :
    Survives (_syncKey steps key (pure : _ → Op σ _) remoteVer remoteTime remoteErr) := by
  refine survives_bind (fun s trap => by simp) fun s => ?_
  refine survives_ite (survives_throws _) (survives_bind
    (survives_here (calm.remoteVersion key)) fun recorded => ?_)
  exact survives_ite (survives_pure _) (survives_bind (survives_localState calm key) fun _ =>
    survives_of_returns (returns_settle calm key _ _ _ _ _))

end Calm

/-- The local row was read, or there is none. -/
def LocalRead (steps : Steps σ) (key : List Char) (w : σ) : Prop :=
  match exec (steps.get key) w with
  | (.ok (_, _, _, value), w) => steps.encryptedReplication →
    (∃ out, (exec (steps.encrypt value) w).1 = .ok out) ∨
      (exec (steps.encrypt value) w).1 = throwing .notFound
  | (.error stop, _) => stop = .throws .notFound

/-- The kernel gets as far as what it has to settle, or finds that there is nothing. -/
def KernelReads (steps : Steps σ) (key : List Char) (answer : Answer) (w : σ) : Prop :=
  ∃ recorded w', exec (steps.remoteVersion key) w = (.ok recorded, w') ∧
    (answer.error ≠ some .notFound ∧ answer.version > 0 ∧ recorded = answer.version ∨
      LocalRead steps key w')

section Reads
variable {steps : Steps σ} {key : List Char}

theorem localState_ran {s : Sync σ} :
    (∃ row, (exec (localState steps key) s).1 = .ok row) ↔ LocalRead steps key s.world := by
  rw [localState, exec_tryCatch, exec_bind, LocalRead]
  rcases ran : exec (steps.get key) s.world with ⟨stop | ⟨localVer,lt,localDeleted,value⟩,w⟩
  · have first : exec (here (steps.get key)) s = (.error stop, { s with world := w }) := by
      rw [here, exec_act, ran]
    rw [first]
    cases stop with
    | throws e => cases e <;> simp [caught]
    | trap trap => simp [caught]
  · have first : exec (here (steps.get key)) s =
        (.ok (localVer, lt, localDeleted, value), { s with world := w }) := by
      rw [here, exec_act, ran]
    rw [first]
    simp only [exec_bind, replicated]
    by_cases encrypted : steps.encryptedReplication
    · rw [if_pos encrypted, here, exec_act]
      simp only [encrypted, true_implies]
      rcases exec (steps.encrypt value) w with ⟨stop | out,w'⟩
      · cases stop with
        | throws e => cases e <;> simp [caught, throwing]
        | trap trap => simp [caught, throwing]
      · simp
    · rw [if_neg encrypted]
      simp [encrypted]

/-- The kernel comes to a completion just when it can read both sides. -/
theorem kernel_ran {s : Sync σ} (running : s.syncRunning) (calm : Calm steps) {answer : Answer} :
    (∃ e, (exec (_syncKey steps key (pure : _ → Op σ _) answer.version answer.date answer.error)
      s).1 = .ok e) ↔ KernelReads steps key answer s.world := by
  rw [_syncKey, exec_bind, exec_get]
  simp only [KernelReads]
  rw [if_neg (not_not.mpr running), exec_bind, here, exec_act]
  rcases ran : exec (steps.remoteVersion key) s.world with ⟨stop | recorded,w⟩
  · simp
  simp only [Prod.mk.injEq, Except.ok.injEq, ↓existsAndEq, and_true, exists_eq_left']
  by_cases early : answer.error ≠ some .notFound ∧ answer.version > 0 ∧ recorded = answer.version
  · rw [if_pos early]
    simp [early]
  rw [if_neg early, or_iff_right early]
  refine Iff.trans ?_ (localState_ran (s := { s with world := w }))
  rw [exec_bind]
  rcases exec (localState steps key) { s with world := w } with ⟨stop | row,t⟩
  · simp
  · have completes := returns_settle calm key answer.version answer.date answer.error recorded row t
    exact iff_of_true completes ⟨row,rfl⟩

end Reads

/-- What the sync goes by: what its caller knows, or what the remote store answers. -/
def known (steps : Steps σ) (key : List Char) (remote : Option (Nat × Nat))
    (remoteErr : Option BRRemoteKVStoreError) (w : σ) : Answer × σ :=
  match remote with
  | some (remoteVersion, remoteTime) => (⟨remoteVersion,remoteTime,remoteErr⟩, w)
  | none => steps.ver key w

/-- The completion handler was called once, and no sync runs. -/
def Ended (before after : Sync σ) : Prop :=
  (∃ e, after.completions = before.completions ++ [e]) ∧ after.syncRunning = false

theorem not_ended {before after : Sync σ} (same : after.completions = before.completions) :
    ¬ Ended before after := by
  rintro ⟨⟨e,more⟩,_⟩
  have length := congrArg List.length (same.symm.trans more)
  simp at length

/-- The state the kernel is called in. -/
def begun (s : Sync σ) (w : σ) : Sync σ := { s with world := w, syncRunning := true }

theorem kernel_completes (steps : Steps σ) (key : List Char) (s : Sync σ) (answer : Answer)
    (w : σ) :
    (∃ e t, exec (_syncKey steps key myCompletionHandler answer.version answer.date answer.error)
        (begun s w) = (.ok (), t) ∧ t.completions = s.completions ++ [e] ∧
        t.syncRunning = false ∧
        (exec (_syncKey steps key (pure : _ → Op σ _) answer.version answer.date answer.error)
          (begun s w)).1 = .ok e) ∨
    ∃ stop t, exec (_syncKey steps key myCompletionHandler answer.version answer.date
        answer.error) (begun s w) = (.error stop, t) ∧ t.completions = s.completions ∧
        (exec (_syncKey steps key (pure : _ → Op σ _) answer.version answer.date answer.error)
          (begun s w)).1 = .error stop := by
  have kept := keeps_kernel steps key answer.version answer.date answer.error (begun s w)
  rw [_syncKey_completes]
  rcases ran : exec (_syncKey steps key (pure : _ → Op σ _) answer.version answer.date
      answer.error) (begun s w) with ⟨stop | e,t⟩
  · rw [ran] at kept
    exact Or.inr ⟨stop,t,bind_stopped ran,kept.2,rfl⟩
  · rw [ran] at kept
    refine Or.inl ⟨e,{ t with completions := t.completions ++ [e], syncRunning := false },
      bind_ran ran,?_,rfl,rfl⟩
    rw [kept.2]
    rfl

section SyncKey
variable {steps : Steps σ} {key : List Char} {s : Sync σ} {remote : Option (Nat × Nat)}
  {remoteErr : Option BRRemoteKVStoreError}

/-- A `syncKey` that starts ends just when its kernel comes to a completion. -/
theorem syncKey_ended (valid : steps.checkKey key = .ok ()) (idle : s.syncRunning = false) :
    Ended s (exec (syncKey steps key remote remoteErr) s).2 ↔
      ∃ e, (exec (_syncKey steps key (pure : _ → Op σ _)
        (known steps key remote remoteErr s.world).1.version
        (known steps key remote remoteErr s.world).1.date
        (known steps key remote remoteErr s.world).1.error)
        (begun s (known steps key remote remoteErr s.world).2)).1 = .ok e := by
  have start : exec (syncKey steps key remote remoteErr) s = exec (match remote with
      | some (remoteVersion, remoteTime) =>
        _syncKey steps key myCompletionHandler remoteVersion remoteTime remoteErr
      | none => do
        let answer ← asked (steps.ver key)
        ignored (_syncKey steps key myCompletionHandler answer.version answer.date answer.error))
      (begun s s.world) := by
    unfold syncKey
    rw [exec_bind, exec_lift, valid]
    simp only [exec_bind, exec_get, idle]
    rfl
  rw [start]
  cases remote with
  | some given =>
    obtain ⟨remoteVersion,remoteTime⟩ := given
    rcases kernel_completes steps key s ⟨remoteVersion,remoteTime,remoteErr⟩ s.world with
      ⟨e,t,ran,completed,idle',result⟩ | ⟨stop,t,ran,same,result⟩
    · simp only [known]
      rw [result, ran]
      exact iff_of_true ⟨⟨e,completed⟩,idle'⟩ ⟨e,rfl⟩
    · simp only [known]
      rw [result, ran]
      exact iff_of_false (not_ended same) (by simp)
  | none =>
    have answered : exec (asked (steps.ver key)) (begun s s.world) =
        (.ok (steps.ver key s.world).1, begun s (steps.ver key s.world).2) := rfl
    simp only [known]
    rw [bind_ran answered, ignored, exec_tryCatch, exec_bind]
    rcases kernel_completes steps key s (steps.ver key s.world).1 (steps.ver key s.world).2 with
      ⟨e,t,ran,completed,idle',result⟩ | ⟨stop,t,ran,same,result⟩
    · rw [result, ran]
      exact iff_of_true ⟨⟨e,completed⟩,idle'⟩ ⟨e,rfl⟩
    · rw [result, ran]
      refine iff_of_false ?_ (by simp)
      cases stop with
      | throws e => exact not_ended same
      | trap trap => exact not_ended same

theorem syncKey_world (valid : steps.checkKey key = .ok ()) (idle : s.syncRunning = false) :
    (exec (syncKey steps key none remoteErr) s).2.world =
      (exec (_syncKey steps key (pure : _ → Op σ _) (steps.ver key s.world).1.version
        (steps.ver key s.world).1.date (steps.ver key s.world).1.error)
        (begun s (steps.ver key s.world).2)).2.world := by
  have start : exec (syncKey steps key none remoteErr) s = exec (ignored (_syncKey steps key
      myCompletionHandler (steps.ver key s.world).1.version (steps.ver key s.world).1.date
      (steps.ver key s.world).1.error)) (begun s (steps.ver key s.world).2) := by
    unfold syncKey
    rw [exec_bind, exec_lift, valid]
    simp only [exec_bind, exec_get, idle]
    rfl
  rw [start, ignored, exec_tryCatch, exec_bind, _syncKey_completes, exec_bind]
  rcases exec (_syncKey steps key (pure : _ → Op σ _) (steps.ver key s.world).1.version
    (steps.ver key s.world).1.date (steps.ver key s.world).1.error)
    (begun s (steps.ver key s.world).2) with ⟨stop | e,t⟩
  · cases stop <;> rfl
  · rfl

theorem syncKey_refused {e : BRReplicatedKVStoreError} (invalid : steps.checkKey key = throwing e) :
    (exec (syncKey steps key remote remoteErr) s).2 = s := by
  unfold syncKey
  rw [exec_bind, exec_lift, invalid]
  rfl

/-- A `syncKey` that starts ends just when its kernel can read both sides. -/
theorem syncKey_ends_iff (calm : Calm steps) (valid : steps.checkKey key = .ok ())
    (idle : s.syncRunning = false) :
    Ended s (exec (syncKey steps key remote remoteErr) s).2 ↔
      KernelReads steps key (known steps key remote remoteErr s.world).1
        (known steps key remote remoteErr s.world).2 :=
  (syncKey_ended valid idle).trans (kernel_ran rfl calm)

end SyncKey

end SyncEnds
