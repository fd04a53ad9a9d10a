import AltMessenger.RemoteStore
import AltMessenger.SyncEnds

/-!
What a sync of one key leaves on the two sides, branch by branch of the kernel.
-/
namespace SyncOutcome
open FaultyState ReplicatedStore KeySync RemoteStore

/-- The remote row and the latest local one are the same, and the local one records the remote
    version. -/
def Agree (E : Env) (key : List Char) (w : World) : Prop :=
  match w.remote with
  | .absent => False
  | .present version _ data => ∃ row plain, latest w.table key = some row ∧ row.deleted = false ∧
      row.remote_version = version ∧
      opened E.settings.encrypted E.settings row.value = .ok plain ∧
      opened E.settings.encryptedReplication E.settings data = .ok plain
  | .deleted version _ => ∃ row, latest w.table key = some row ∧ row.deleted = true ∧
      row.remote_version = version

/-- A pull that did not come through has asked the remote store for no change, and has locally
    at most put a row behind the others that records no remote version. -/
structure Stalled (key : List Char) (before after : World) : Prop where
  remote : after.remote = before.remote
  requests : after.requests = before.requests
  table : after.table = before.table ∨ ∃ row, after.table = before.table ++ [row] ∧
    row.key = boundText key ∧ row.version = currentVersion before.table key + 1 ∧
    row.remote_version = 0

section Branches
variable {E : Env} {key : List Char} {w : World} {s : Sync World} {old : Row}

/-- The kernel, up to what it completes with. -/
abbrev Result := Except Stop (Option BRReplicatedKVStoreError)

abbrev finish : Option BRReplicatedKVStoreError → Op World (Option BRReplicatedKVStoreError) := pure

theorem stalled_ticked : Stalled key w w.ticked := ⟨rfl,rfl,Or.inl rfl⟩

section Found
variable (valid_key : E.settings.keyRegex key) (valid : Valid w.table)
  (found : latest w.table key = some old)
include valid_key valid found

/-- Recording a remote version on the latest row. -/
theorem recorded_cases (remoteVer : Nat) :
    (RecordFits E w old.version remoteVer ∧
      exec (attempt (here ((steps E).setRemoteVersion key old.version remoteVer))
        fun e => pure (some e)) (placed s w) =
        (.ok none, placed s (w.wrote (remoteRow old remoteVer (E.moments w.tick))))) ∨
    (¬ RecordFits E w old.version remoteVer ∧
      exec (attempt (here ((steps E).setRemoteVersion key old.version remoteVer))
        fun e => pure (some e)) (placed s w) = (.error (.trap .conversion), placed s w.ticked)) := by
  by_cases fits : RecordFits E w old.version remoteVer
  · exact Or.inl ⟨fits,attempt_ran (record_fits valid_key valid found fits)⟩
  · exact Or.inr ⟨fits,attempt_trapped (record_faults valid_key valid found fits)⟩

theorem bothDeleted_cases (remoteVer : Nat) :
    (RecordFits E w old.version remoteVer ∧
      exec (bothDeleted (steps E) key finish old.version remoteVer) (placed s w) =
        (.ok none, placed s (w.wrote (remoteRow old remoteVer (E.moments w.tick))))) ∨
    (¬ RecordFits E w old.version remoteVer ∧
      exec (bothDeleted (steps E) key finish old.version remoteVer) (placed s w) =
        (.error (.trap .conversion), placed s w.ticked)) := by
  rcases recorded_cases (s := s) valid_key valid found remoteVer with ⟨fits,ran⟩ | ⟨large,stopped⟩
  · exact Or.inl ⟨fits,by rw [bothDeleted, bind_ran ran]; rfl⟩
  · exact Or.inr ⟨large,by rw [bothDeleted, bind_stopped stopped]⟩

/-- The deletion and the version recorded on it fit their integers. -/
def PullDeletionFits (E : Env) (w : World) (version remoteVer : Nat) : Prop :=
  DelFits E w version ∧ RecordFits E w.ticked (version + 1) remoteVer

theorem pullDeletion_cases (remoteVer : Nat) :
    (PullDeletionFits E w old.version remoteVer ∧
      exec (pullDeletion (steps E) key finish old.version remoteVer) (placed s w) =
        (.ok none, placed s ((w.wrote (delRow old (E.moments w.tick))).wrote
          (remoteRow (delRow old (E.moments w.tick)) remoteVer (E.moments (w.tick + 1)))))) ∨
    (¬ PullDeletionFits E w old.version remoteVer ∧ ∃ w',
      exec (pullDeletion (steps E) key finish old.version remoteVer) (placed s w) =
        (.error (.trap .conversion), placed s w') ∧ Stalled key w w') := by
  have same : old.key = boundText key := latest_key valid found
  have next : old.version + 1 = currentVersion w.table key + 1 := by
    rw [currentVersion_found found]
  by_cases fits : DelFits E w old.version
  case neg =>
    refine Or.inr ⟨fun both => fits both.1,w.ticked,?_,stalled_ticked⟩
    rw [pullDeletion,
      bind_stopped (attempt_trapped (bind_stopped (del_faults valid found fits)))]
  obtain ⟨valid',found'⟩ := written valid (delRow old (E.moments w.tick)) same next
  have deleted := del_fits (s := s) valid found fits
  by_cases fits' : RecordFits E w.ticked (old.version + 1) remoteVer
  · refine Or.inl ⟨⟨fits,fits'⟩,?_⟩
    have recorded := record_fits (s := s) (w := w.wrote (delRow old (E.moments w.tick)))
      valid_key valid' found' fits'
    rw [pullDeletion, bind_ran (attempt_ran ((bind_ran deleted).trans recorded))]
    rfl
  · have stopped := record_faults (s := s) (w := w.wrote (delRow old (E.moments w.tick)))
      valid_key valid' found' fits'
    refine Or.inr ⟨fun both => fits' both.2,
      (w.wrote (delRow old (E.moments w.tick))).ticked,?_,
      ⟨rfl,rfl,Or.inr ⟨delRow old (E.moments w.tick),rfl,same,next,rfl⟩⟩⟩
    rw [pullDeletion, bind_stopped (attempt_trapped ((bind_ran deleted).trans stopped))]

end Found

/-- A deletion of what is not there is no error. -/
theorem pullDeletion_missing {remoteVer : Nat} :
    exec (pullDeletion (steps E) key finish 0 remoteVer) (placed s w) =
      (.ok none, placed s w.ticked) := by
  rw [pullDeletion, bind_ran ((attempt_thrown (bind_stopped del_missing)).trans rfl)]
  rfl

/-- What is done with a value that was fetched. -/
def adopted (E : Env) (w : World) (key : List Char) (plain : List UInt8) (remoteVer : Nat) :
    World :=
  let row := setRow E.settings w.table key plain (E.moments w.tick)
  (w.wrote row).wrote (remoteRow row remoteVer (E.moments (w.tick + 1)))

theorem unreplicated_spec (data : List UInt8) :
    exec (unreplicated (steps E) data) (placed s w) =
      (opened E.settings.encryptedReplication E.settings data, placed s w) := by
  have asks : (steps E).encryptedReplication = E.settings.encryptedReplication := rfl
  rw [unreplicated, asks]
  cases E.settings.encryptedReplication <;> rfl

/-- The deletion of a value that did not decrypt, whatever comes of it. -/
theorem del_stalls (valid_key : E.settings.keyRegex key) (valid : Valid w.table) :
    ∃ (r : Except Stop (Nat × Nat)) (w' : World),
      exec (here ((steps E).del key (currentVersion w.table key))) (placed s w) =
        (r, placed s w') ∧ Stalled key w w' := by
  have ran : exec (here ((steps E).del key (currentVersion w.table key))) (placed s w) =
      exec (here ((steps E)._del key (currentVersion w.table key))) (placed s w) := by
    rw [here, here, exec_act, exec_act]
    simp only [placed, steps, writing, exec_act, ReplicatedStore.del, checked_ok valid_key]
  rw [ran]
  cases found : latest w.table key with
  | none =>
    rw [currentVersion_missing found]
    exact ⟨_,_,del_missing,stalled_ticked⟩
  | some old =>
    rw [currentVersion_found found]
    by_cases fits : DelFits E w old.version
    · have next : old.version + 1 = currentVersion w.table key + 1 := by
        rw [currentVersion_found found]
      have same : old.key = boundText key := latest_key valid found
      exact ⟨_,_,del_fits valid found fits,⟨rfl,rfl,
        Or.inr ⟨delRow old (E.moments w.tick),rfl,same,next,rfl⟩⟩⟩
    · exact ⟨_,_,del_faults valid found fits,stalled_ticked⟩

theorem malformed_stalls (valid_key : E.settings.keyRegex key) (valid : Valid w.table) :
    ∃ (r : Result) (w' : World),
      exec (pullCaught (steps E) key (currentVersion w.table key) .malformedData) (placed s w) =
        (r, placed s w') ∧ r ≠ .ok none ∧ Stalled key w w' := by
  obtain ⟨r,w',ran,stalled⟩ := del_stalls (s := s) valid_key valid
  rw [pullCaught, exec_bind, ignored, exec_tryCatch, exec_bind, ran]
  cases r with
  | ok a => exact ⟨.ok (some .malformedData),w',rfl,by simp,stalled⟩
  | error stop =>
    cases stop with
    | throws e => exact ⟨.ok (some .malformedData),w',rfl,by simp,stalled⟩
    | trap trap => exact ⟨.error (.trap trap),w',rfl,by simp,stalled⟩

/-- The value opens, and what is written for it fits. -/
def PullValueFits (E : Env) (w : World) (key : List Char) (data : List UInt8) (remoteVer : Nat) :
    Prop :=
  ∃ plain, opened E.settings.encryptedReplication E.settings data = .ok plain ∧
    SetFits E.settings w.table key plain (E.moments w.tick) ∧
    RecordFits E w.ticked (currentVersion w.table key + 1) remoteVer

theorem takeValue_cases (valid_key : E.settings.keyRegex key) (valid : Valid w.table)
    (data : List UInt8) (remoteVer : Nat) :
    (PullValueFits E w key data remoteVer ∧ ∃ plain ran,
      opened E.settings.encryptedReplication E.settings data = .ok plain ∧
      exec (takeValue (steps E) key (currentVersion w.table key) data remoteVer) (placed s w) =
        (.ok ran, placed s (adopted E w key plain remoteVer))) ∨
    (¬ PullValueFits E w key data remoteVer ∧
      (exec (takeValue (steps E) key (currentVersion w.table key) data remoteVer) (placed s w) =
        (throwing .malformedData, placed s w) ∨
      ∃ w', exec (takeValue (steps E) key (currentVersion w.table key) data remoteVer)
        (placed s w) = (.error (.trap .conversion), placed s w') ∧ Stalled key w w')) := by
  have unsealed := unreplicated_spec (E := E) (s := s) (w := w) data
  rcases opened_cases E.settings.encryptedReplication E.settings data with ⟨plain,opens⟩ | malformed
  case inr =>
    rw [malformed] at unsealed
    have thrown : exec (takeValue (steps E) key (currentVersion w.table key) data remoteVer)
        (placed s w) = (throwing .malformedData, placed s w) := by
      rw [takeValue, bind_stopped unsealed]
      rfl
    have unfit : ¬ PullValueFits E w key data remoteVer := by
      rintro ⟨plain,opens,_⟩
      rw [malformed] at opens
      cases opens
    exact Or.inr ⟨unfit,Or.inl thrown⟩
  rw [opens] at unsealed
  have only : PullValueFits E w key data remoteVer →
      SetFits E.settings w.table key plain (E.moments w.tick) ∧
        RecordFits E w.ticked (currentVersion w.table key + 1) remoteVer := by
    rintro ⟨other,same,fits⟩
    rw [opens] at same
    cases same
    exact fits
  by_cases fits : SetFits E.settings w.table key plain (E.moments w.tick)
  case neg =>
    have faulted : exec (takeValue (steps E) key (currentVersion w.table key) data remoteVer)
        (placed s w) = (.error (.trap .conversion), placed s w.ticked) := by
      rw [takeValue, bind_ran unsealed, bind_stopped (set_faults fits)]
    exact Or.inr ⟨fun both => fits (only both).1,Or.inr ⟨w.ticked,faulted,stalled_ticked⟩⟩
  have set := set_fits (s := s) valid fits
  obtain ⟨valid',found'⟩ := written valid
    (setRow E.settings w.table key plain (E.moments w.tick)) rfl rfl
  have next : exec (takeValue (steps E) key (currentVersion w.table key) data remoteVer)
      (placed s w) =
      exec (here ((steps E).setRemoteVersion key (currentVersion w.table key + 1) remoteVer))
        (placed s (w.wrote (setRow E.settings w.table key plain (E.moments w.tick)))) := by
    rw [takeValue, bind_ran unsealed, bind_ran set]
  by_cases fits' : RecordFits E w.ticked (currentVersion w.table key + 1) remoteVer
  · have recorded := record_fits (s := s)
      (w := w.wrote (setRow E.settings w.table key plain (E.moments w.tick))) valid_key valid'
      found' fits'
    exact Or.inl ⟨⟨plain,opens,fits,fits'⟩,plain,_,opens,next.trans recorded⟩
  · have faulted := record_faults (s := s)
      (w := w.wrote (setRow E.settings w.table key plain (E.moments w.tick))) valid_key valid'
      found' fits'
    exact Or.inr ⟨fun both => fits' (only both).2,Or.inr ⟨_,next.trans faulted,
      ⟨rfl,rfl,Or.inr ⟨setRow E.settings w.table key plain (E.moments w.tick),rfl,rfl,rfl,rfl⟩⟩⟩⟩

theorem pullValue_cases (valid_key : E.settings.keyRegex key) (valid : Valid w.table)
    {version : ℕ+} {date : Nat} {data : List UInt8} (remote : w.remote = .present version date data) :
    (PullValueFits E w key data version ∧ ∃ plain,
      opened E.settings.encryptedReplication E.settings data = .ok plain ∧
      exec (pullValue (steps E) key finish (currentVersion w.table key) version) (placed s w) =
        (.ok none, placed s (adopted E w key plain version))) ∨
    (¬ PullValueFits E w key data version ∧ ∃ (r : Result) (w' : World),
      exec (pullValue (steps E) key finish (currentVersion w.table key) version) (placed s w) =
        (r, placed s w') ∧ r ≠ .ok none ∧ Stalled key w w') := by
  have fetched : exec (asked ((steps E).remoteGet key version)) (placed s w) =
      (.ok (⟨version,date,none⟩, data), placed s w) := by
    rw [asked, exec_act]
    simp only [placed, steps, remote, Remote.get, or_true, if_true]
  have whole : exec (pullValue (steps E) key finish (currentVersion w.table key) version)
      (placed s w) = exec (attempt (takeValue (steps E) key (currentVersion w.table key) data
        version) (pullCaught (steps E) key (currentVersion w.table key))) (placed s w) := by
    rw [pullValue, bind_ran fetched]
    simp
  rw [whole]
  rcases takeValue_cases (s := s) valid_key valid data version with
    ⟨fits,plain,_,opens,took⟩ | ⟨large,malformed | ⟨w',faulted,stalled⟩⟩
  · exact Or.inl ⟨fits,plain,opens,attempt_ran took⟩
  · obtain ⟨r,w',ran,failed,stalled⟩ := malformed_stalls (s := s) valid_key valid
    exact Or.inr ⟨large,r,w',(attempt_thrown malformed).trans ran,failed,stalled⟩
  · exact Or.inr ⟨large,_,w',attempt_trapped faulted,by simp,stalled⟩

/-- A write on the table keeps the remote store and what was asked of it. -/
theorem recording_keeps (E : Env) (key : List Char) (s : Sync World) (w : World)
    (localVer remoteVer : Nat) :
    ∃ (r : Result) (w' : World), exec (attempt (here ((steps E).setRemoteVersion key localVer
      remoteVer)) fun e => pure (some e)) (placed s w) = (r, placed s w') ∧
      w'.requests = w.requests := by
  rw [attempt, exec_tryCatch, exec_bind, here, exec_act]
  simp only [placed, steps, writing, exec_act]
  rcases setRemoteVersion E.settings key localVer remoteVer (E.moments w.tick) w.table with
    ⟨stop | row,table⟩
  · cases stop <;> exact ⟨_,{ w with table, tick := w.tick + 1 },rfl,rfl⟩
  · exact ⟨_,{ w with table, tick := w.tick + 1 },rfl,rfl⟩

theorem asking_requests (request : Request) (remote : Remote) :
    (w.asking request remote).requests ≠ w.requests := by
  intro same
  have length := congrArg List.length same
  simp [World.asking] at length

theorem pushDeletion_asks (key : List Char) (localVer remoteVer : Nat) :
    ∃ (r : Result) (w' : World), exec (pushDeletion (steps E) key finish localVer remoteVer)
      (placed s w) = (r, placed s w') ∧ w'.requests ≠ w.requests := by
  let remote := w.remote.del E.server (E.dates w.tick) remoteVer
  have asks : exec (asked ((steps E).remoteDel key remoteVer)) (placed s w) =
      (.ok remote.1, placed s (w.asking (.del remoteVer) remote.2)) := rfl
  have more := asking_requests (w := w) (.del remoteVer) remote.2
  rw [pushDeletion, bind_ran asks]
  split_ifs
  · exact ⟨_,_,rfl,more⟩
  · exact ⟨_,_,rfl,more⟩
  · obtain ⟨r,w',ran,kept⟩ := recording_keeps E key s (w.asking (.del remoteVer) remote.2)
      localVer remote.1.version
    refine ⟨r,w',?_,by rw [kept]; exact more⟩
    rw [exec_bind, ran]
    cases r <;> rfl

theorem pushValue_asks (key : List Char) (localVer : Nat) (value : List UInt8)
    (remoteVer recorded : Nat) :
    ∃ (r : Result) (w' : World), exec (pushValue (steps E) key finish localVer value remoteVer
      recorded) (placed s w) = (r, placed s w') ∧ w'.requests ≠ w.requests := by
  let useRemoteVer := if remoteVer = 0 ∨ remoteVer < recorded then 1 else remoteVer
  let remote := w.remote.put E.server (E.dates w.tick) value useRemoteVer
  have asks : exec (asked ((steps E).remotePut key value useRemoteVer)) (placed s w) =
      (.ok remote.1, placed s (w.asking (.put value useRemoteVer) remote.2)) := rfl
  have more := asking_requests (w := w) (.put value useRemoteVer) remote.2
  rw [pushValue, bind_ran asks]
  split_ifs
  · exact ⟨_,_,rfl,more⟩
  · obtain ⟨r,w',ran,kept⟩ := recording_keeps E key s
      (w.asking (.put value useRemoteVer) remote.2) localVer remote.1.version
    refine ⟨r,w',?_,by rw [kept]; exact more⟩
    rw [exec_bind, ran]
    cases r <;> rfl

theorem read_table : (w.read E).table = w.table := by
  rw [World.read]
  split_ifs <;> rfl

theorem read_remote : (w.read E).remote = w.remote := by
  rw [World.read]
  split_ifs <;> rfl

theorem read_requests : (w.read E).requests = w.requests := by
  rw [World.read]
  split_ifs <;> rfl

theorem sealedValue_opens (S : Settings) (plain : List UInt8) (now : Moment) :
    opened S.encrypted S (sealedValue S plain now) = .ok plain := by
  rw [opened, sealedValue]
  by_cases encrypted : S.encrypted
  · rw [if_pos encrypted, if_pos encrypted, S.cipher.decrypt_encrypt]
  · rw [if_neg encrypted, if_neg encrypted]

/-- Where the value was fetched and written the two sides agree. -/
theorem adopted_agrees (valid : Valid w.table) {version : ℕ+} {date : Nat} {data plain : List UInt8}
    (remote : w.remote = .present version date data)
    (opens : opened E.settings.encryptedReplication E.settings data = .ok plain) :
    Agree E key (adopted E w key plain version) := by
  have remote' : (adopted E w key plain version).remote = .present version date data := remote
  rw [Agree, remote']
  let row := setRow E.settings w.table key plain (E.moments w.tick)
  obtain ⟨valid',found'⟩ := written valid row rfl rfl
  have next : row.version + 1 = currentVersion (w.table ++ [row]) key + 1 := by
    rw [currentVersion_found found']
  have latest' := (written valid' (remoteRow row version (E.moments (w.tick + 1))) rfl next).2
  exact ⟨_,plain,latest',rfl,rfl,sealedValue_opens E.settings plain _,opens⟩

/-- Where the deletion was written and recorded the two sides agree. -/
theorem deleted_agrees (valid : Valid w.table) (found : latest w.table key = some old)
    {version : ℕ+} {date : Nat} (remote : w.remote = .deleted version date) :
    Agree E key ((w.wrote (delRow old (E.moments w.tick))).wrote
      (remoteRow (delRow old (E.moments w.tick)) version (E.moments (w.tick + 1)))) := by
  have remote' : ((w.wrote (delRow old (E.moments w.tick))).wrote
    (remoteRow (delRow old (E.moments w.tick)) version (E.moments (w.tick + 1)))).remote =
      .deleted version date := remote
  rw [Agree, remote']
  have same : old.key = boundText key := latest_key valid found
  have next : old.version + 1 = currentVersion w.table key + 1 := by
    rw [currentVersion_found found]
  obtain ⟨valid',found'⟩ := written valid (delRow old (E.moments w.tick)) same next
  have next' : (delRow old (E.moments w.tick)).version + 1 =
      currentVersion (w.table ++ [delRow old (E.moments w.tick)]) key + 1 := by
    rw [currentVersion_found found']
  have latest' := (written valid' (remoteRow (delRow old (E.moments w.tick)) version
    (E.moments (w.tick + 1))) same next').2
  exact ⟨_,latest',rfl,rfl⟩

theorem recorded_latest (valid : Valid w.table) (found : latest w.table key = some old)
    (remoteVer : Nat) (now : Moment) :
    latest (w.wrote (remoteRow old remoteVer now)).table key = some (remoteRow old remoteVer now) := by
  have same : old.key = boundText key := latest_key valid found
  have next : old.version + 1 = currentVersion w.table key + 1 := by
    rw [currentVersion_found found]
  exact (written valid (remoteRow old remoteVer now) same next).2

/-- Where the remote version was recorded on a deleted row the two sides agree. -/
theorem recorded_agrees (valid : Valid w.table) (found : latest w.table key = some old)
    (deleted : old.deleted = true) {version : ℕ+} {date : Nat}
    (remote : w.remote = .deleted version date) (now : Moment) :
    Agree E key (w.wrote (remoteRow old version now)) := by
  have remote' : (w.wrote (remoteRow old version now)).remote = .deleted version date := remote
  rw [Agree, remote']
  exact ⟨_,recorded_latest valid found version now,deleted,rfl⟩

/-- The kernel on what the remote store answers. -/
abbrev kernel (E : Env) (key : List Char) (answer : Answer) :
    Op World (Option BRReplicatedKVStoreError) :=
  _syncKey (steps E) key finish answer.version answer.date answer.error

/-- The local row records the remote version. -/
abbrev UpToDate (answer : Answer) (recorded : Nat) : Prop :=
  answer.error ≠ some .notFound ∧ answer.version > 0 ∧ recorded = answer.version

section Kernel
variable (running : s.syncRunning) (valid_key : E.settings.keyRegex key) {answer : Answer}
include running

theorem kernel_invalid (invalid_key : ¬ E.settings.keyRegex key) :
    exec (kernel E key answer) (placed s w) = (throwing .invalidKey, placed s w) := by
  have goes : ¬ ¬ (placed s w).syncRunning = true := not_not.mpr running
  have reads : exec (here ((steps E).remoteVersion key)) (placed s w) =
      (throwing .invalidKey, placed s w) := by
    rw [here, exec_act]
    simp only [placed, steps, exec_act, remoteVersion, checkKey, if_neg invalid_key]
    rfl
  rw [kernel, _syncKey, exec_bind, exec_get]
  simp only []
  rw [if_neg goes, bind_stopped reads]
  rfl

include valid_key

theorem kernel_recorded :
    exec (kernel E key answer) (placed s w) = exec (
      if answer.error ≠ some .notFound ∧ answer.version > 0 ∧
          recordedVersion w.table key = answer.version then finish none
      else do
        let localRow ← localState (steps E) key
        settle (steps E) key finish answer.version answer.date answer.error
          (recordedVersion w.table key) localRow) (placed s w) := by
  have goes : ¬ ¬ (placed s w).syncRunning = true := not_not.mpr running
  have reads : exec (here ((steps E).remoteVersion key)) (placed s w) =
      (.ok (recordedVersion w.table key), placed s w) := by
    rw [here, exec_act]
    simp only [placed, steps, exec_act, remoteVersion, checkKey, if_pos valid_key]
    rfl
  rw [kernel, _syncKey, exec_bind, exec_get]
  simp only []
  rw [if_neg goes, bind_ran reads]

/-- Where the local row records the remote version nothing is done. -/
theorem kernel_current (current : UpToDate answer (recordedVersion w.table key)) :
    exec (kernel E key answer) (placed s w) = (.ok none, placed s w) := by
  rw [kernel_recorded running valid_key]
  rw [if_pos current]
  rfl

theorem kernel_missing (missing : latest w.table key = none) :
    exec (kernel E key answer) (placed s w) =
      exec (settle (steps E) key finish answer.version answer.date answer.error 0
        (0, 0, false, [])) (placed s w) := by
  have recorded : recordedVersion w.table key = 0 := by rw [recordedVersion, missing]
  rw [kernel_recorded running valid_key, recorded, if_neg,
    bind_ran (localState_missing valid_key missing)]
  rintro ⟨_,positive,same⟩
  omega

variable (valid : Valid w.table) (found : latest w.table key = some old)
  (stale : ¬ UpToDate answer old.remote_version)
include valid found stale

theorem kernel_found {plain : List UInt8}
    (opens : opened E.settings.encrypted E.settings old.value = .ok plain) :
    exec (kernel E key answer) (placed s w) =
      exec (settle (steps E) key finish answer.version answer.date answer.error
        old.remote_version (old.version, E.readTime old.thetime, old.deleted,
          outgoing E w.tick plain)) (placed s (w.read E)) := by
  have recorded : recordedVersion w.table key = old.remote_version := by
    rw [recordedVersion, found]
  rw [kernel_recorded running valid_key, recorded]
  rw [if_neg stale, bind_ran (localState_found valid_key valid found opens)]

theorem kernel_malformed
    (malformed : opened E.settings.encrypted E.settings old.value = throwing .malformedData) :
    exec (kernel E key answer) (placed s w) = (throwing .malformedData, placed s w) := by
  have recorded : recordedVersion w.table key = old.remote_version := by
    rw [recordedVersion, found]
  rw [kernel_recorded running valid_key, recorded]
  rw [if_neg stale, bind_stopped (localState_malformed valid_key valid found malformed)]
  rfl

end Kernel

end Branches

end SyncOutcome
