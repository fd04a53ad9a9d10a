import AltMessenger.FaultyState
import AltMessenger.ReplicatedStore

/-!
One write to the key value store over a database that may fail at each call. The result codes
are given for every prepare and step the write can make, each of which it makes at most once;
what it did is the list of codes it was given and the version it read.
-/
namespace StoreFaults
open FaultyState ReplicatedStore SwiftRuntime

abbrev Code := Int

def SQLITE_OK : Code := 0
def SQLITE_BUSY : Code := 5
def SQLITE_ROW : Code := 100
def SQLITE_DONE : Code := 101

/-- The type code of a null column, taken for "no code expected". -/
def SQLITE_NULL : Code := 5

inductive Site where
  | beginPrepare
  | beginStep
  | versionPrepare
  | versionStep
  | insertPrepare
  | insertStep
  | commitPrepare
  | commitStep
  | rollbackPrepare
  | rollbackStep
  deriving DecidableEq

inductive Event where
  | reported (site : Site) (code : Code)
  | read (version : Nat)
  deriving DecidableEq

abbrev Db := Act Stop (List Event)

def log (event : Event) : Db Unit := modify (· ++ [event])

def checkErr (e : Code) (r : Code := SQLITE_NULL) : Except Stop Unit :=
  if (r = SQLITE_NULL ∧ (e ≠ SQLITE_OK ∧ e ≠ SQLITE_DONE ∧ e ≠ SQLITE_ROW)) ∧
      (e ≠ SQLITE_NULL ∧ e ≠ r) then
    throwing .sqLiteError
  else .ok ()

section Database
variable (codes : Site → Code)

/-- A call to the database behind `checkErr`. -/
def check (site : Site) (r : Code := SQLITE_NULL) : Db Unit := do
  log (.reported site (codes site))
  lift (checkErr (codes site) r)

/-- A fault that ends the process is not caught. -/
def rollback {α : Type} : Stop → Db α
  | .throws e => do
    check codes .rollbackPrepare
    check codes .rollbackStep
    throw (.throws e)
  | .trap trap => throw (.trap trap)

def txn {α : Type} (fn : Db α) : Db α := do
  check codes .beginPrepare
  check codes .beginStep
  let a ← tryCatch fn (rollback codes)
  check codes .commitPrepare
  check codes .commitStep
  pure a

/-- The version column reads as zero unless the step came to a row. -/
def readVersion (table : Table) (key : List Char) : Nat :=
  if codes .versionStep = SQLITE_ROW then currentVersion table key else 0

def _localVersion (table : Table) (key : List Char) : Db Nat := do
  check codes .versionPrepare
  check codes .versionStep SQLITE_ROW
  log (.read (readVersion codes table key))
  pure (readVersion codes table key)

/-- What the three writes do inside their transaction; `bindings` are the values bound to the
    statement. -/
def update (table : Table) (key : List Char) (localVer : Nat) (bindings : Nat → Except Stop Unit)
    (time : Nat) : Db (Nat × Nat) := do
  let curVer ← _localVersion codes table key
  if curVer ≠ localVer then throw (.throws .conflict)
  else
    let newVer := curVer + 1
    check codes .insertPrepare
    lift (bindings newVer)
    check codes .insertStep
    pure (newVer, time)

def _set (S : Settings) (table : Table) (key : List Char) (value : List UInt8) (localVer : Nat)
    (now : Moment) : Db (Nat × Nat) :=
  txn codes (update codes table key localVer (fun newVer => do
    let _ ← int64 newVer
    let encryptedData := if S.encrypted then S.cipher.encrypt now.nonce value else value
    let _ ← int32 encryptedData.length
    let _ ← int64 now.time) now.time)

def _del (table : Table) (key : List Char) (localVer : Nat) (now : Moment) : Db (Nat × Nat) :=
  if localVer = 0 then throw (.throws .notFound)
  else
    txn codes (update codes table key localVer (fun newVer => do
      let _ ← int64 newVer
      let _ ← int64 now.time) now.time)

def _setRemoteVersion (table : Table) (key : List Char) (localVer remoteVer : Nat)
    (now : Moment) : Db (Nat × Nat) :=
  if localVer < 1 then throw (.throws .conflict)
  else
    txn codes (update codes table key localVer (fun newVer => do
      let _ ← int64 newVer
      let _ ← int64 now.time
      let _ ← int64 remoteVer) now.time)

def attempt (S : Settings) (table : Table) (call : Call) : Db (Nat × Nat) := do
  lift (checkKey S call.key)
  match call with
  | .set key value localVer now => _set codes S table key value localVer now
  | .del key localVer now => _del codes table key localVer now
  | .setRemoteVersion key localVer remoteVer now =>
    _setRemoteVersion codes table key localVer remoteVer now

end Database

def isError (code : Code) : Prop := code ≠ SQLITE_OK ∧ code ≠ SQLITE_ROW ∧ code ≠ SQLITE_DONE

def Event.failed : Event → Prop
  | .reported _ code => isError code
  | .read _ => False

def Event.queryFailed : Event → Prop
  | .reported .versionPrepare code => isError code
  | .reported .versionStep code => isError code
  | _ => False

/-- What a write promises: it returns a version only if the insert and the commit were reported
    as done, it throws if a call reported an error, and it does not take a query that failed for
    version zero. -/
structure AllOrNothing {α : Type} (outcome : Except Stop α × List Event) : Prop where
  done : ∀ a, outcome.1 = .ok a → .reported .insertStep SQLITE_DONE ∈ outcome.2 ∧
    .reported .commitStep SQLITE_DONE ∈ outcome.2
  throws : (∃ event ∈ outcome.2, event.failed) → ∃ e, outcome.1 = throwing e
  query : (∃ event ∈ outcome.2, event.queryFailed) → .read 0 ∉ outcome.2

/-- The codes `checkErr` lets pass where no other is expected. -/
def passes (code : Code) : Prop := isError code → code = SQLITE_BUSY

section Condition
variable (codes : Site → Code) (table : Table) (key : List Char) (localVer : Nat)
  (fits : Prop)

/-- The write came to the step of its query. -/
def Queried : Prop :=
  passes (codes .beginPrepare) ∧ passes (codes .beginStep) ∧ passes (codes .versionPrepare)

/-- The write came to its bindings. -/
def Prepared : Prop :=
  Queried codes ∧ readVersion codes table key = localVer ∧ passes (codes .insertPrepare)

/-- The write came to its end. -/
def Finished : Prop :=
  Prepared codes table key localVer ∧ fits ∧
    passes (codes .insertStep) ∧ passes (codes .commitPrepare) ∧ passes (codes .commitStep)

/-- No fault is passed over: a query that failed reads another version than zero, a write that
    came to its end was given no error, and one that faults in its bindings neither. -/
structure NoFaultPassed : Prop where
  query : Queried codes → isError (codes .versionPrepare) ∨ isError (codes .versionStep) →
    readVersion codes table key ≠ 0
  finished : Finished codes table key localVer fits →
    codes .insertStep = SQLITE_DONE ∧ codes .commitStep = SQLITE_DONE ∧
      ∀ site ∈ [Site.beginPrepare, .beginStep, .versionPrepare, .versionStep, .insertPrepare,
        .commitPrepare], ¬ isError (codes site)
  faulted : Prepared codes table key localVer → ¬ fits →
    ∀ site ∈ [Site.beginPrepare, .beginStep, .versionPrepare, .versionStep, .insertPrepare],
      ¬ isError (codes site)

end Condition

section Checks
variable {codes : Site → Code} {trace : List Event}

theorem checkErr_passes {code : Code} (pass : passes code) : checkErr code = .ok () := by
  rw [checkErr, if_neg]
  rintro ⟨⟨_,ok,done,row⟩,null,_⟩
  exact null (pass ⟨ok,row,done⟩)

theorem checkErr_throws {code : Code} (refused : ¬ passes code) :
    checkErr code = throwing .sqLiteError := by
  simp only [passes, isError, Classical.not_imp] at refused
  obtain ⟨⟨ok,row,done⟩,busy⟩ := refused
  rw [checkErr, if_pos]
  exact ⟨⟨rfl,ok,done,row⟩,busy,busy⟩

/-- A code that is expected turns the check off. -/
theorem checkErr_expected (code : Code) : checkErr code SQLITE_ROW = .ok () := by
  rw [checkErr, if_neg]
  rintro ⟨⟨same,_⟩,_⟩
  exact absurd same (by decide)

theorem check_passes {site : Site} (pass : passes (codes site)) :
    exec (check codes site) trace = (.ok (), trace ++ [.reported site (codes site)]) := by
  rw [check, checkErr_passes pass]
  rfl

theorem check_throws {site : Site} (refused : ¬ passes (codes site)) :
    exec (check codes site) trace =
      (throwing .sqLiteError, trace ++ [.reported site (codes site)]) := by
  rw [check, checkErr_throws refused]
  rfl

theorem check_expected {site : Site} :
    exec (check codes site SQLITE_ROW) trace =
      (.ok (), trace ++ [.reported site (codes site)]) := by
  rw [check, checkErr_expected]
  rfl

def opened (codes : Site → Code) : List Event :=
  [.reported .beginPrepare (codes .beginPrepare), .reported .beginStep (codes .beginStep)]

def queried (codes : Site → Code) (version : Nat) : List Event :=
  opened codes ++ [.reported .versionPrepare (codes .versionPrepare),
    .reported .versionStep (codes .versionStep), .read version]

theorem txn_begun {α : Type} {fn : Db α} (first : passes (codes .beginPrepare))
    (second : passes (codes .beginStep)) :
    exec (txn codes fn) [] = exec (do
      let a ← tryCatch fn (rollback codes)
      check codes .commitPrepare
      check codes .commitStep
      pure a) (opened codes) := by
  rw [txn, bind_ran (check_passes first), bind_ran (check_passes second)]
  rfl

/-- No query that failed was taken for version zero. -/
def Fair (trace : List Event) : Prop :=
  (∃ event ∈ trace, event.queryFailed) → .read 0 ∉ trace

theorem thrown_iff {α : Type} {e : BRReplicatedKVStoreError} :
    AllOrNothing (throwing e (α := α), trace) ↔ Fair trace := by
  constructor
  · intro holds
    exact holds.query
  · intro fair
    exact ⟨fun _ returned => (nomatch returned),fun _ => ⟨e,rfl⟩,fair⟩

theorem fair_reported {site : Site} {code : Code} (other : site ≠ .versionPrepare)
    (other' : site ≠ .versionStep) : Fair (trace ++ [.reported site code]) ↔ Fair trace := by
  have quiet : ¬ (Event.reported site code).queryFailed := by
    cases site <;> simp_all [Event.queryFailed]
  simp [Fair, or_and_right, exists_or, quiet]

theorem fair_queried {version : Nat} : Fair (queried codes version) ↔
    (isError (codes .versionPrepare) ∨ isError (codes .versionStep) → version ≠ 0) := by
  simp [Fair, queried, opened, Event.queryFailed, eq_comm]

theorem rollback_throws {α : Type} (codes : Site → Code) (trace : List Event)
    (e : BRReplicatedKVStoreError) :
    ∃ e' rest, exec (rollback codes (.throws e) : Db α) trace = (throwing e', trace ++ rest) ∧
      (Fair (trace ++ rest) ↔ Fair trace) := by
  rw [rollback]
  by_cases first : passes (codes .rollbackPrepare)
  · rw [bind_ran (check_passes first)]
    by_cases second : passes (codes .rollbackStep)
    · rw [bind_ran (check_passes second), exec_throw, List.append_assoc]
      refine ⟨e,_,rfl,?_⟩
      rw [← List.append_assoc, fair_reported (by decide) (by decide),
        fair_reported (by decide) (by decide)]
    · rw [bind_stopped (check_throws second), List.append_assoc]
      refine ⟨.sqLiteError,_,rfl,?_⟩
      rw [← List.append_assoc, fair_reported (by decide) (by decide),
        fair_reported (by decide) (by decide)]
  · rw [bind_stopped (check_throws first)]
    exact ⟨.sqLiteError,_,rfl,fair_reported (by decide) (by decide)⟩

/-- A transaction whose body throws throws, whatever becomes of its rollback. -/
theorem txn_thrown {α : Type} {fn : Db α} (first : passes (codes .beginPrepare))
    (second : passes (codes .beginStep)) {e : BRReplicatedKVStoreError}
    (thrown : exec fn (opened codes) = (throwing e, trace)) :
    AllOrNothing (exec (txn codes fn) []) ↔ Fair trace := by
  obtain ⟨e',rest,rolled,fair⟩ := rollback_throws codes trace e
  rw [txn_begun first second, bind_stopped ((catch_stopped thrown).trans rolled), ← fair]
  exact thrown_iff

/-- What a write asked before it bound its values. -/
def prepared (codes : Site → Code) (version : Nat) : List Event :=
  queried codes version ++ [.reported .insertPrepare (codes .insertPrepare)]

variable {table : Table} {key : List Char} {localVer time : Nat}
  {bindings : Nat → Except Stop Unit} {fits : Prop}

theorem update_refused (refused : ¬ passes (codes .versionPrepare)) :
    exec (update codes table key localVer bindings time) (opened codes) =
      (throwing .sqLiteError,
        opened codes ++ [.reported .versionPrepare (codes .versionPrepare)]) := by
  have query : exec (_localVersion codes table key) (opened codes) = (throwing .sqLiteError,
      opened codes ++ [.reported .versionPrepare (codes .versionPrepare)]) := by
    rw [_localVersion, bind_stopped (check_throws refused)]
    rfl
  rw [update, bind_stopped query]
  rfl

theorem _localVersion_reads (pass : passes (codes .versionPrepare)) :
    exec (_localVersion codes table key) (opened codes) =
      (.ok (readVersion codes table key), queried codes (readVersion codes table key)) := by
  rw [_localVersion, bind_ran (check_passes pass), bind_ran check_expected, log, exec_bind]
  simp [queried]

theorem update_conflict (pass : passes (codes .versionPrepare))
    (stale : readVersion codes table key ≠ localVer) :
    exec (update codes table key localVer bindings time) (opened codes) =
      (throwing .conflict, queried codes (readVersion codes table key)) := by
  rw [update, bind_ran (_localVersion_reads pass), if_pos stale]
  rfl

section Current
variable (pass : passes (codes .versionPrepare)) (current : readVersion codes table key = localVer)
include pass current

theorem update_not_prepared (refused : ¬ passes (codes .insertPrepare)) :
    exec (update codes table key localVer bindings time) (opened codes) =
      (throwing .sqLiteError, prepared codes localVer) := by
  rw [update, bind_ran (_localVersion_reads pass), if_neg (not_not.mpr current),
    bind_stopped (check_throws refused), current]
  rfl

theorem update_faults (pass' : passes (codes .insertPrepare)) {trap : Trap}
    (faults : bindings (localVer + 1) = .error (.trap trap)) :
    exec (update codes table key localVer bindings time) (opened codes) =
      (.error (.trap trap), prepared codes localVer) := by
  rw [update, bind_ran (_localVersion_reads pass), if_neg (not_not.mpr current), current,
    bind_ran (check_passes pass'), exec_bind, exec_lift, faults]
  rfl

theorem update_bound (pass' : passes (codes .insertPrepare))
    (bound : bindings (localVer + 1) = .ok ()) :
    exec (update codes table key localVer bindings time) (opened codes) =
      exec (do check codes .insertStep
               pure (localVer + 1, time)) (prepared codes localVer) := by
  rw [update, bind_ran (_localVersion_reads pass), if_neg (not_not.mpr current), current,
    bind_ran (check_passes pass'), exec_bind, exec_lift, bound]
  rfl

end Current

theorem silent_of_refused (refused : ¬ Queried codes) :
    NoFaultPassed codes table key localVer fits where
  query reached := absurd reached refused
  finished reached := absurd reached.1.1 refused
  faulted reached := absurd reached.1 refused

/-- Where a write that read the version throws in the end, only its query is in question. -/
theorem silent_of_thrown {α : Type} {outcome : Except Stop α × List Event}
    (reached : Queried codes) (unfinished : ¬ Finished codes table key localVer fits)
    (bound : Prepared codes table key localVer → fits)
    (thrown : AllOrNothing outcome ↔ Fair (queried codes (readVersion codes table key))) :
    AllOrNothing outcome ↔ NoFaultPassed codes table key localVer fits := by
  rw [thrown, fair_queried]
  constructor
  · intro fair
    exact ⟨fun _ => fair,fun done => absurd done unfinished,
      fun prepared faulted => absurd (bound prepared) faulted⟩
  · intro silent
    exact silent.query reached

theorem failed_of_queryFailed {event : Event} (failed : event.queryFailed) : event.failed := by
  cases event with
  | read version => exact failed
  | reported site code => cases site <;> first | exact failed | exact failed.elim

theorem trapped_iff {α : Type} {trap : Trap} :
    AllOrNothing ((.error (.trap trap), trace) : Except Stop α × List Event) ↔
      ∀ event ∈ trace, ¬ event.failed := by
  constructor
  · intro holds event mem failed
    obtain ⟨e,same⟩ := holds.throws ⟨event,mem,failed⟩
    cases same
  · intro sound
    exact ⟨fun _ returned => (nomatch returned),
      fun ⟨event,mem,failed⟩ => absurd failed (sound event mem),
      fun ⟨event,mem,failed⟩ => absurd (failed_of_queryFailed failed) (sound event mem)⟩

theorem returned_iff {α : Type} {a : α} :
    AllOrNothing ((.ok a, trace) : Except Stop α × List Event) ↔
      .reported .insertStep SQLITE_DONE ∈ trace ∧ .reported .commitStep SQLITE_DONE ∈ trace ∧
        ∀ event ∈ trace, ¬ event.failed := by
  constructor
  · intro holds
    obtain ⟨insert,commit⟩ := holds.done a rfl
    refine ⟨insert,commit,?_⟩
    intro event mem failed
    obtain ⟨e,same⟩ := holds.throws ⟨event,mem,failed⟩
    cases same
  · rintro ⟨insert,commit,sound⟩
    exact ⟨fun _ _ => ⟨insert,commit⟩,
      fun ⟨event,mem,failed⟩ => absurd failed (sound event mem),
      fun ⟨event,mem,failed⟩ => absurd (failed_of_queryFailed failed) (sound event mem)⟩

theorem prepared_sound {version : Nat} : (∀ event ∈ prepared codes version, ¬ event.failed) ↔
    ∀ site ∈ [Site.beginPrepare, .beginStep, .versionPrepare, .versionStep, .insertPrepare],
      ¬ isError (codes site) := by
  simp [prepared, queried, opened, Event.failed]

theorem not_isError_done : ¬ isError SQLITE_DONE := fun wrong => wrong.2.2 rfl

def finishedTrace (codes : Site → Code) (version : Nat) : List Event :=
  prepared codes version ++ [.reported .insertStep (codes .insertStep)] ++
    [.reported .commitPrepare (codes .commitPrepare)] ++
    [.reported .commitStep (codes .commitStep)]

theorem insert_done {version : Nat} :
    .reported .insertStep SQLITE_DONE ∈ finishedTrace codes version ↔
      codes .insertStep = SQLITE_DONE := by
  simp [finishedTrace, prepared, queried, opened, eq_comm]

theorem commit_done {version : Nat} :
    .reported .commitStep SQLITE_DONE ∈ finishedTrace codes version ↔
      codes .commitStep = SQLITE_DONE := by
  simp [finishedTrace, prepared, queried, opened, eq_comm]

theorem finishedTrace_sound {version : Nat} (insert : codes .insertStep = SQLITE_DONE)
    (commit : codes .commitStep = SQLITE_DONE) :
    (∀ event ∈ finishedTrace codes version, ¬ event.failed) ↔
      ∀ site ∈ [Site.beginPrepare, .beginStep, .versionPrepare, .versionStep, .insertPrepare,
        .commitPrepare], ¬ isError (codes site) := by
  simp [finishedTrace, prepared, queried, opened, Event.failed, insert, commit,
    not_isError_done]

/-- A write that comes to its end returns, and must have been told that all was done. -/
theorem finished_iff (done : Finished codes table key localVer fits) {a : Nat × Nat} :
    AllOrNothing ((.ok a, finishedTrace codes localVer) :
        Except Stop (Nat × Nat) × List Event) ↔
      NoFaultPassed codes table key localVer fits := by
  rw [returned_iff, insert_done, commit_done]
  constructor
  · rintro ⟨insert,commit,sound⟩
    rw [finishedTrace_sound insert commit] at sound
    refine ⟨?_,fun _ => ⟨insert,commit,sound⟩,fun _ faulted => absurd done.2.1 faulted⟩
    rintro _ (failed | failed)
    · exact absurd failed (sound _ (by simp))
    · exact absurd failed (sound _ (by simp))
  · intro silent
    obtain ⟨insert,commit,sound⟩ := silent.finished done
    exact ⟨insert,commit,(finishedTrace_sound insert commit).mpr sound⟩

/-- A write that faults must not have been given an error before. -/
theorem faulted_iff (ready : Prepared codes table key localVer)
    (faulted : ¬ fits) {trap : Trap} :
    AllOrNothing ((.error (.trap trap), prepared codes localVer) :
        Except Stop (Nat × Nat) × List Event) ↔
      NoFaultPassed codes table key localVer fits := by
  rw [trapped_iff, prepared_sound]
  constructor
  · intro sound
    refine ⟨?_,fun done => absurd done.2.1 faulted,fun _ _ => sound⟩
    rintro _ (failed | failed)
    · exact absurd failed (sound _ (by simp))
    · exact absurd failed (sound _ (by simp))
  · intro silent
    exact silent.faulted ready faulted

/-- The commit of a write that made its insert. -/
theorem commit_iff (ready : Prepared codes table key localVer) (bound : fits)
    (insert : passes (codes .insertStep)) {a : Nat × Nat} :
    AllOrNothing (exec (do check codes .commitPrepare
                           check codes .commitStep
                           pure a : Db (Nat × Nat))
        (prepared codes localVer ++ [.reported .insertStep (codes .insertStep)])) ↔
      NoFaultPassed codes table key localVer fits := by
  have current := ready.2.1
  by_cases commit : passes (codes .commitPrepare)
  case neg =>
    rw [bind_stopped (check_throws commit)]
    refine silent_of_thrown ready.1 (fun done => commit done.2.2.2.1) (fun _ => bound)
      (thrown_iff.trans ?_)
    rw [fair_reported (by decide) (by decide), fair_reported (by decide) (by decide), prepared,
      fair_reported (by decide) (by decide), current]
  rw [bind_ran (check_passes commit)]
  by_cases commit' : passes (codes .commitStep)
  case neg =>
    rw [bind_stopped (check_throws commit')]
    refine silent_of_thrown ready.1 (fun done => commit' done.2.2.2.2) (fun _ => bound)
      (thrown_iff.trans ?_)
    rw [fair_reported (by decide) (by decide), fair_reported (by decide) (by decide),
      fair_reported (by decide) (by decide), prepared, fair_reported (by decide) (by decide),
      current]
  rw [bind_ran (check_passes commit')]
  exact finished_iff ⟨ready,bound,insert,commit,commit'⟩

/-- A write keeps its promise just when the codes it was given hold no fault that it passes
    over. -/
theorem write_iff (binds : fits → bindings (localVer + 1) = .ok ())
    (faults : ¬ fits → ∃ trap, bindings (localVer + 1) = .error (.trap trap)) :
    AllOrNothing (exec (txn codes (update codes table key localVer bindings time)) []) ↔
      NoFaultPassed codes table key localVer fits := by
  by_cases first : passes (codes .beginPrepare)
  case neg =>
    rw [txn, bind_stopped (check_throws first)]
    refine iff_of_true (thrown_iff.mpr ?_) (silent_of_refused fun reached => first reached.1)
    simp [Fair]
  by_cases second : passes (codes .beginStep)
  case neg =>
    rw [txn, bind_ran (check_passes first), bind_stopped (check_throws second)]
    refine iff_of_true (thrown_iff.mpr ?_) (silent_of_refused fun reached => second reached.2.1)
    simp [Fair]
  by_cases pass : passes (codes .versionPrepare)
  case neg =>
    refine iff_of_true ((txn_thrown first second (update_refused pass)).mpr ?_)
      (silent_of_refused fun reached => pass reached.2.2)
    simp [Fair, opened]
  have reached : Queried codes := ⟨first,second,pass⟩
  by_cases current : readVersion codes table key = localVer
  case neg =>
    have unprepared : ¬ Prepared codes table key localVer := fun prepared => current prepared.2.1
    exact silent_of_thrown reached (fun done => unprepared done.1)
      (fun prepared => absurd prepared unprepared)
      (txn_thrown first second (update_conflict pass current))
  by_cases pass' : passes (codes .insertPrepare)
  case neg =>
    have unprepared : ¬ Prepared codes table key localVer := fun prepared => pass' prepared.2.2
    refine silent_of_thrown reached (fun done => unprepared done.1)
      (fun prepared => absurd prepared unprepared)
      ((txn_thrown first second (update_not_prepared pass current pass')).trans ?_)
    rw [prepared, fair_reported (by decide) (by decide), current]
  have ready : Prepared codes table key localVer := ⟨reached,current,pass'⟩
  by_cases bound : fits
  case neg =>
    obtain ⟨trap,faulted⟩ := faults bound
    have caught : exec (tryCatch (update codes table key localVer bindings time)
        (rollback codes)) (opened codes) = (.error (.trap trap), prepared codes localVer) :=
      (catch_stopped (update_faults pass current pass' faulted)).trans rfl
    rw [txn_begun first second, bind_stopped caught]
    exact faulted_iff ready bound
  have body : exec (update codes table key localVer bindings time) (opened codes) = _ :=
    update_bound pass current pass' (binds bound)
  by_cases insert : passes (codes .insertStep)
  case neg =>
    rw [bind_stopped (check_throws insert)] at body
    refine silent_of_thrown reached (fun done => insert done.2.2.1) (fun _ => bound)
      ((txn_thrown first second body).trans ?_)
    rw [fair_reported (by decide) (by decide), prepared, fair_reported (by decide) (by decide),
      current]
  rw [bind_ran (check_passes insert), exec_pure] at body
  rw [txn_begun first second, bind_ran (catch_ran body)]
  exact commit_iff ready bound insert

end Checks

/-- The write opens its transaction. -/
def Opens (S : Settings) : Call → Prop
  | .set key _ _ _ => S.keyRegex key
  | .del key localVer _ => S.keyRegex key ∧ localVer ≠ 0
  | .setRemoteVersion key localVer _ _ => S.keyRegex key ∧ localVer ≠ 0

/-- What the write binds for a version fits the integers it is bound as. -/
def Fits (S : Settings) (newVer : Nat) : Call → Prop
  | .set _ value _ now =>
    newVer < 2 ^ 63 ∧ (sealedValue S value now).length < 2 ^ 31 ∧ now.time < 2 ^ 63
  | .del _ _ now => newVer < 2 ^ 63 ∧ now.time < 2 ^ 63
  | .setRemoteVersion _ _ remoteVer now =>
    newVer < 2 ^ 63 ∧ now.time < 2 ^ 63 ∧ remoteVer < 2 ^ 63

variable {codes : Site → Code} {S : Settings} {table : Table}

theorem attempt_invalid {call : Call} (invalid_key : ¬ S.keyRegex call.key) :
    exec (attempt codes S table call) [] = (throwing .invalidKey, []) := by
  unfold attempt
  rw [exec_bind, exec_lift, checkKey, if_neg invalid_key]
  rfl

theorem set_iff {key : List Char} {value : List UInt8} {localVer : Nat} {now : Moment} :
    AllOrNothing (exec (_set codes S table key value localVer now) []) ↔
      NoFaultPassed codes table key localVer
        (Fits S (localVer + 1) (.set key value localVer now)) := by
  refine write_iff ?_ ?_
  · rintro ⟨version,size,time⟩
    rw [bind_ready (int64_fits version)]
    simp only []
    rw [← sealedValue, bind_ready (int32_fits size), int64_fits time]
    rfl
  · intro large
    refine ⟨.conversion,?_⟩
    refine int64_unless ?_ large
    intro large
    simp only []
    rw [← sealedValue]
    refine int32_unless ?_ large
    intro time
    exact bind_halted (int64_traps time)

theorem del_iff {key : List Char} {localVer : Nat} {now : Moment} :
    AllOrNothing (exec (_del codes table key localVer now) []) ↔
      (localVer ≠ 0 → NoFaultPassed codes table key localVer
        (Fits S (localVer + 1) (.del key localVer now))) := by
  by_cases create : localVer = 0
  · rw [_del, if_pos create]
    refine iff_of_true (thrown_iff.mpr ?_) (fun known => absurd create known)
    simp [Fair]
  rw [_del, if_neg create]
  refine Iff.trans (write_iff ?_ ?_) ⟨fun silent _ => silent,fun silent => silent create⟩
  · rintro ⟨version,time⟩
    rw [bind_ready (int64_fits version), int64_fits time]
    rfl
  · intro large
    refine ⟨.conversion,?_⟩
    refine int64_unless ?_ large
    intro time
    exact bind_halted (int64_traps time)

theorem setRemoteVersion_iff {key : List Char} {localVer remoteVer : Nat} {now : Moment} :
    AllOrNothing (exec (_setRemoteVersion codes table key localVer remoteVer now) []) ↔
      (localVer ≠ 0 → NoFaultPassed codes table key localVer
        (Fits S (localVer + 1) (.setRemoteVersion key localVer remoteVer now))) := by
  by_cases create : localVer < 1
  · rw [_setRemoteVersion, if_pos create]
    refine iff_of_true (thrown_iff.mpr ?_) (fun known => by omega)
    simp [Fair]
  rw [_setRemoteVersion, if_neg create]
  refine Iff.trans (write_iff ?_ ?_)
    ⟨fun silent _ => silent,fun silent => silent (by omega)⟩
  · rintro ⟨version,time,remote⟩
    rw [bind_ready (int64_fits version), bind_ready (int64_fits time), int64_fits remote]
    rfl
  · intro large
    refine ⟨.conversion,?_⟩
    refine int64_unless ?_ large
    intro large
    refine int64_unless ?_ large
    intro remote
    exact bind_halted (int64_traps remote)

theorem attempt_valid {call : Call} (valid_key : S.keyRegex call.key) :
    exec (attempt codes S table call) [] = exec (match call with
      | .set key value localVer now => _set codes S table key value localVer now
      | .del key localVer now => _del codes table key localVer now
      | .setRemoteVersion key localVer remoteVer now =>
        _setRemoteVersion codes table key localVer remoteVer now) [] := by
  unfold attempt
  rw [exec_bind, exec_lift, checkKey, if_pos valid_key]

/-- Whatever the codes, a write that does not open its transaction throws at once, and one that
    does keeps its promise just when no fault is passed over. -/
theorem all_or_nothing_iff (codes : Site → Code) (S : Settings) (table : Table) (call : Call) :
    AllOrNothing (exec (attempt codes S table call) []) ↔
      (Opens S call → NoFaultPassed codes table call.key call.localVer
        (Fits S (call.localVer + 1) call)) := by
  by_cases valid_key : S.keyRegex call.key
  case neg =>
    rw [attempt_invalid valid_key]
    refine iff_of_true (thrown_iff.mpr (by simp [Fair])) ?_
    intro opens
    cases call with
    | set key value localVer now => exact absurd opens valid_key
    | del key localVer now => exact absurd opens.1 valid_key
    | setRemoteVersion key localVer remoteVer now => exact absurd opens.1 valid_key
  rw [attempt_valid valid_key]
  cases call with
  | set key value localVer now =>
    exact set_iff.trans ⟨fun silent _ => silent,fun silent => silent valid_key⟩
  | del key localVer now =>
    exact del_iff.trans ⟨fun silent opens => silent opens.2,
      fun silent known => silent ⟨valid_key,known⟩⟩
  | setRemoteVersion key localVer remoteVer now =>
    exact setRemoteVersion_iff.trans ⟨fun silent opens => silent opens.2,
      fun silent known => silent ⟨valid_key,known⟩⟩

/-- Every step is done and every statement prepared, but the commit finds the database busy. -/
def busyCommit : Site → Code
  | .beginStep => SQLITE_DONE
  | .versionStep => SQLITE_DONE
  | .insertStep => SQLITE_DONE
  | .commitStep => SQLITE_BUSY
  | _ => SQLITE_OK

theorem busy_commit_returns : ¬ ∀ codes S table call,
    AllOrNothing (exec (attempt codes S table call) []) := by
  intro claim
  have write := claim busyCommit plainSettings [] (.set ['a', 'b'] [] 0 ⟨0,[]⟩)
  have returned : (exec (attempt busyCommit plainSettings [] (.set ['a', 'b'] [] 0 ⟨0,[]⟩)) []).1 =
      .ok (1, 0) := by rfl
  have commit := (write.done (1, 0) returned).2
  revert commit
  decide

end StoreFaults
