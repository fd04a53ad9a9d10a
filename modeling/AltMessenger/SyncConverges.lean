import AltMessenger.SyncOutcome

/-!
After a sync that completes without an error the two sides agree, or both are as they were; a
second sync leaves them so.
-/
namespace SyncConverges
open FaultyState ReplicatedStore KeySync RemoteStore SyncOutcome SyncEnds

/-- The answer is what the remote store holds; a missing key may be known from its list of keys,
    which is no error, or from its own answer, with any date. -/
def Describes (remote : Remote) (answer : Answer) : Prop :=
  match remote with
  | .absent => answer.version = 0 ∧ (answer.error = none ∨ answer.error = some .notFound)
  | .present version date _ => answer = ⟨version,date,none⟩
  | .deleted version date => answer = ⟨version,date,some .tombstone⟩

/-- A call of the kernel while its sync runs. -/
def sync (E : Env) (key : List Char) (answer : Answer) (w : World) : Sync World :=
  (exec (_syncKey (steps E) key complete answer.version answer.date answer.error) ⟨w,true,[]⟩).2

def Unchanged (before after : World) : Prop :=
  after.table = before.table ∧ after.remote = before.remote

/-- The ways for a sync to leave both sides as they are: the local row records the remote version,
    there is a deletion on one side and nothing on the other. -/
def Settled (key : List Char) (answer : Answer) (w : World) : Prop :=
  UpToDate answer (recordedVersion w.table key) ∨
    (latest w.table key = none ∧ ∃ version date, w.remote = .deleted version date ∧ 0 < date) ∨
    ((∃ row, latest w.table key = some row ∧ row.deleted = true) ∧ w.remote = .absent)

section Kernel
variable {E : Env} {key : List Char} {w w' : World} {s t : Sync World} {old : Row} {answer : Answer}

theorem read_unchanged : Unchanged w (w.read E) := ⟨read_table,read_remote⟩

/-- A put that was answered without an error has left its value, under a new version. -/
theorem put_answered {remote : Remote} {server : Server} {date : Nat} {value : List UInt8}
    {version : Nat} (taken : (remote.put server date value version).1.error = none) :
    ∃ new : ℕ+, remote.put server date value version =
      (⟨new,date,none⟩, .present new date value) := by
  revert taken
  cases remote <;> simp only [Remote.put] <;> split_ifs <;> simp

/-- A deletion that was answered without an error has left its mark, under a new version. -/
theorem del_answered {remote : Remote} {server : Server} {date version : Nat}
    (taken : (remote.del server date version).1.error = none) :
    ∃ new : ℕ+, remote.del server date version = (⟨new,date,none⟩, .deleted new date) := by
  revert taken
  cases remote with
  | absent => simp [Remote.del]
  | present old was data => simp only [Remote.del]; split_ifs <;> simp
  | deleted old was => simp only [Remote.del]; split_ifs <;> simp

theorem del_notFound {remote : Remote} {server : Server} {date version : Nat}
    (missing : (remote.del server date version).1.error = some .notFound) :
    remote = .absent ∧ (remote.del server date version).2 = .absent := by
  revert missing
  cases remote with
  | absent => simp [Remote.del]
  | present old was data => simp only [Remote.del]; split_ifs <;> simp
  | deleted old was => simp only [Remote.del]; split_ifs <;> simp

/-- The version a value is put on top of. -/
def useRemoteVer (remoteVer recorded : Nat) : Nat :=
  if remoteVer = 0 ∨ remoteVer < recorded then 1 else remoteVer

/-- The world once a value was put on the remote store. -/
def put (E : Env) (w : World) (value : List UInt8) (version : Nat) : World :=
  w.asking (.put value version) (w.remote.put E.server (E.dates w.tick) value version).2

/-- The world once the remote row was deleted. -/
def del (E : Env) (w : World) (version : Nat) : World :=
  w.asking (.del version) (w.remote.del E.server (E.dates w.tick) version).2

/-- Where the value was put and its remote version recorded the two sides agree. -/
theorem pushed_agrees (valid : Valid w.table) (found : latest w.table key = some old)
    (kept : old.deleted = false) {plain : List UInt8}
    (opens : opened E.settings.encrypted E.settings old.value = .ok plain) {version : ℕ+}
    {date tick : Nat} (remote : w.remote = .present version date (outgoing E tick plain))
    (now : Moment) : Agree E key (w.wrote (remoteRow old version now)) := by
  have remote' : (w.wrote (remoteRow old version now)).remote =
      .present version date (outgoing E tick plain) := remote
  have opens' : opened E.settings.encryptedReplication E.settings (outgoing E tick plain) =
      .ok plain := by
    rw [opened, outgoing]
    by_cases encrypted : E.settings.encryptedReplication
    · rw [if_pos encrypted, if_pos encrypted, E.settings.cipher.decrypt_encrypt]
    · rw [if_neg encrypted, if_neg encrypted]
  rw [Agree, remote']
  exact ⟨_,plain,recorded_latest valid found version now,kept,rfl,opens,opens'⟩

/-- What a push does: it asks for its change, and records the new version as for a key that is
    deleted on both sides. -/
theorem pushValue_spec (localVer : Nat) (value : List UInt8) (remoteVer recorded : Nat) :
    exec (pushValue (steps E) key finish localVer value remoteVer recorded) (placed s w) =
      exec (if (w.remote.put E.server (E.dates w.tick) value
            (useRemoteVer remoteVer recorded)).1.error ≠ none then
          finish (some .replicationError)
        else bothDeleted (steps E) key finish localVer (w.remote.put E.server (E.dates w.tick) value
          (useRemoteVer remoteVer recorded)).1.version)
        (placed s (put E w value (useRemoteVer remoteVer recorded))) := rfl

theorem pushDeletion_spec (localVer remoteVer : Nat) :
    exec (pushDeletion (steps E) key finish localVer remoteVer) (placed s w) =
      exec (if (w.remote.del E.server (E.dates w.tick) remoteVer).1.error = some .notFound then
          finish none
        else if (w.remote.del E.server (E.dates w.tick) remoteVer).1.error ≠ none then
          finish (some .replicationError)
        else bothDeleted (steps E) key finish localVer
          (w.remote.del E.server (E.dates w.tick) remoteVer).1.version)
        (placed s (del E w remoteVer)) := rfl

/-- There is nothing to delete of a key that is missing. -/
theorem pushDeletion_absent (remote : w.remote = .absent) (key : List Char) (localVer remoteVer : Nat) :
    Unchanged w (exec (pushDeletion (steps E) key finish localVer remoteVer)
      (placed s w)).2.world := by
  have answered : w.remote.del E.server (E.dates w.tick) remoteVer =
      (⟨0,E.dates w.tick,some .notFound⟩, .absent) := by rw [remote, Remote.del]
  have still : (del E w remoteVer).remote = w.remote := by
    rw [remote]
    exact congrArg Prod.snd answered
  rw [pushDeletion_spec, answered, if_pos rfl]
  exact ⟨rfl,still⟩

/-- A push on top of no local row does not come to an end without an error. -/
theorem pushValue_missing (valid_key : E.settings.keyRegex key)
    (missing : latest w.table key = none) (value : List UInt8) (remoteVer recorded : Nat) :
    (exec (pushValue (steps E) key finish 0 value remoteVer recorded) (placed s w)).1 ≠
      .ok none := by
  rw [pushValue_spec]
  split_ifs
  · simp
  · have missing' : latest (put E w value (useRemoteVer remoteVer recorded)).table key = none :=
      missing
    rw [bothDeleted, bind_ran ((attempt_thrown (record_missing valid_key missing')).trans rfl)]
    simp

/-- A push that comes to an end without an error leaves the two sides in agreement. -/
theorem pushValue_agrees (valid_key : E.settings.keyRegex key) (valid : Valid w.table)
    (found : latest w.table key = some old) (kept : old.deleted = false) {plain : List UInt8}
    (opens : opened E.settings.encrypted E.settings old.value = .ok plain) (tick : Nat)
    (remoteVer recorded : Nat)
    (ended : exec (pushValue (steps E) key finish old.version (outgoing E tick plain) remoteVer
      recorded) (placed s w) = (.ok none, t)) : Agree E key t.world := by
  rw [pushValue_spec] at ended
  split_ifs at ended with failed
  · simp at ended
  obtain ⟨new,answered⟩ := put_answered (not_not.mp failed)
  rw [answered] at ended
  have remote : (put E w (outgoing E tick plain) (useRemoteVer remoteVer recorded)).remote =
      .present new (E.dates w.tick) (outgoing E tick plain) := congrArg Prod.snd answered
  rcases bothDeleted_cases (s := s)
    (w := put E w (outgoing E tick plain) (useRemoteVer remoteVer recorded)) valid_key valid found
    new with ⟨_,ran⟩ | ⟨_,ran⟩
  · cases ran.symm.trans ended
    exact pushed_agrees (w := put E w _ _) valid found kept opens remote _
  · cases ran.symm.trans ended

theorem pushDeletion_agrees (valid_key : E.settings.keyRegex key) (valid : Valid w.table)
    (found : latest w.table key = some old) (deleted : old.deleted = true) (remoteVer : Nat)
    (ended : exec (pushDeletion (steps E) key finish old.version remoteVer) (placed s w) =
      (.ok none, t)) : Agree E key t.world ∨ w.remote = .absent ∧ Unchanged w t.world := by
  rw [pushDeletion_spec] at ended
  split_ifs at ended with missing failed
  · obtain ⟨absent,still⟩ := del_notFound missing
    cases ended
    exact Or.inr ⟨absent,rfl,still.trans absent.symm⟩
  · simp at ended
  · obtain ⟨new,answered⟩ := del_answered (not_not.mp failed)
    rw [answered] at ended
    have remote : (del E w remoteVer).remote = .deleted new (E.dates w.tick) :=
      congrArg Prod.snd answered
    rcases bothDeleted_cases (s := s) (w := del E w remoteVer) valid_key valid found new with
      ⟨_,ran⟩ | ⟨_,ran⟩
    · cases ran.symm.trans ended
      exact Or.inl (recorded_agrees (w := del E w remoteVer) valid found deleted remote _)
    · cases ran.symm.trans ended

/-- Nothing is fetched of a key that is missing. -/
theorem pullValue_absent (remote : w.remote = .absent) (localVer remoteVer : Nat) :
    exec (pullValue (steps E) key finish localVer remoteVer) (placed s w) =
      (.ok (some .replicationError), placed s w) := by
  have fetched : exec (asked ((steps E).remoteGet key remoteVer)) (placed s w) =
      (.ok (⟨0,E.dates w.tick,some .notFound⟩, []), placed s w) := by
    rw [asked, exec_act]
    simp only [placed, steps, remote, Remote.get]
  rw [pullValue, bind_ran fetched]
  rfl

/-- The remote store holds no deletion: the later side is taken, the local one on a tie. -/
theorem settle_live {remoteErr : Option BRRemoteKVStoreError}
    (live : remoteErr = none ∨ remoteErr = some .notFound) (remoteVer rt recorded localVer lt : Nat)
    (localDeleted : Bool) (value : List UInt8) :
    settle (steps E) key finish remoteVer rt remoteErr recorded (localVer, lt, localDeleted, value) =
      if rt ≤ lt then
        if localDeleted then pushDeletion (steps E) key finish localVer remoteVer
        else pushValue (steps E) key finish localVer value remoteVer recorded
      else pullValue (steps E) key finish localVer remoteVer := by
  have late : (lt > rt ∨ lt = rt) ↔ rt ≤ lt := by omega
  rcases live with known | known <;> simp [settle, known, late]

theorem settle_tombstone (remoteVer rt recorded localVer lt : Nat) (localDeleted : Bool)
    (value : List UInt8) :
    settle (steps E) key finish remoteVer rt (some .tombstone) recorded
        (localVer, lt, localDeleted, value) =
      if localDeleted then bothDeleted (steps E) key finish localVer remoteVer
      else if rt ≤ lt then pushValue (steps E) key finish localVer value remoteVer recorded
      else pullDeletion (steps E) key finish localVer remoteVer := by
  have late : (lt > rt ∨ lt = rt) ↔ rt ≤ lt := by omega
  cases localDeleted <;> simp [settle, late]

/-- A fetch that ends without an error leaves the two sides in agreement. -/
theorem pullValue_agrees (valid_key : E.settings.keyRegex key) (valid : Valid w.table)
    {version : ℕ+} {date : Nat} {data : List UInt8} (remote : w.remote = .present version date data)
    {localVer : Nat} (current : currentVersion w.table key = localVer)
    (ended : exec (pullValue (steps E) key finish localVer version) (placed s w) = (.ok none, t)) :
    Agree E key t.world := by
  subst current
  rcases pullValue_cases (s := s) valid_key valid remote with
    ⟨_,plain,opens,ran⟩ | ⟨_,r,w',ran,failed,_⟩
  · cases ran.symm.trans ended
    exact adopted_agrees valid remote opens
  · cases ran.symm.trans ended
    exact absurd rfl failed

/-- With no local row, a sync that ends without an error has fetched the value, or has found a
    deletion. -/
theorem missing_ended (valid_key : E.settings.keyRegex key) (valid : Valid w.table)
    (describes : Describes w.remote answer) (missing : latest w.table key = none)
    (ended : exec (settle (steps E) key finish answer.version answer.date answer.error 0
      (0, 0, false, [])) (placed s w) = (.ok none, t)) :
    Agree E key t.world ∨ Unchanged w t.world ∧
      ∃ version date, w.remote = .deleted version date ∧ 0 < date := by
  have pushes : ∀ remoteVer, exec (pushValue (steps E) key finish 0 [] remoteVer 0) (placed s w) ≠
      (.ok none, t) := by
    intro remoteVer pushed
    exact pushValue_missing valid_key missing [] remoteVer 0 (congrArg Prod.fst pushed)
  cases remote : w.remote with
  | absent =>
    rw [remote] at describes
    rw [settle_live describes.2] at ended
    simp only [Bool.false_eq_true, if_false] at ended
    split_ifs at ended with late
    · exact absurd ended (pushes _)
    · rw [pullValue_absent remote] at ended
      cases ended
  | present version date data =>
    rw [remote] at describes
    cases describes
    rw [settle_live (Or.inl rfl)] at ended
    simp only [Bool.false_eq_true, if_false] at ended
    split_ifs at ended with late
    · exact absurd ended (pushes _)
    · exact Or.inl (pullValue_agrees valid_key valid remote (currentVersion_missing missing) ended)
  | deleted version date =>
    rw [remote] at describes
    cases describes
    rw [settle_tombstone] at ended
    simp only [Bool.false_eq_true, if_false] at ended
    split_ifs at ended with late
    · exact absurd ended (pushes _)
    · rw [pullDeletion_missing] at ended
      cases ended
      exact Or.inr ⟨⟨rfl,rfl⟩,version,date,rfl,by omega⟩

/-- With a local row, a sync that ends without an error has settled the key, or has found that
    the remote store has nothing to delete. -/
theorem found_ended (valid_key : E.settings.keyRegex key) (valid : Valid w.table)
    (describes : Describes w.remote answer) (found : latest w.table key = some old)
    {plain : List UInt8} (opens : opened E.settings.encrypted E.settings old.value = .ok plain)
    (tick : Nat)
    (ended : exec (settle (steps E) key finish answer.version answer.date answer.error
      old.remote_version (old.version, E.readTime old.thetime, old.deleted,
        outgoing E tick plain)) (placed s w) = (.ok none, t)) :
    Agree E key t.world ∨ Unchanged w t.world ∧ old.deleted = true ∧ w.remote = .absent := by
  have pushes : old.deleted = false → ∀ remoteVer, exec (pushValue (steps E) key finish old.version
      (outgoing E tick plain) remoteVer old.remote_version) (placed s w) = (.ok none, t) →
      Agree E key t.world := by
    intro kept remoteVer pushed
    exact pushValue_agrees valid_key valid found kept opens tick remoteVer _ pushed
  cases remote : w.remote with
  | absent =>
    rw [remote] at describes
    rw [settle_live describes.2] at ended
    split_ifs at ended with late deleted
    · rcases pushDeletion_agrees valid_key valid found deleted _ ended with agree | ⟨_,same⟩
      · exact Or.inl agree
      · exact Or.inr ⟨same,deleted,rfl⟩
    · exact Or.inl (pushes (by simpa using deleted) _ ended)
    · rw [pullValue_absent remote] at ended
      cases ended
  | present version date data =>
    rw [remote] at describes
    cases describes
    rw [settle_live (Or.inl rfl)] at ended
    split_ifs at ended with late deleted
    · rcases pushDeletion_agrees valid_key valid found deleted _ ended with agree | ⟨absent,_⟩
      · exact Or.inl agree
      · rw [remote] at absent
        cases absent
    · exact Or.inl (pushes (by simpa using deleted) _ ended)
    · exact Or.inl (pullValue_agrees valid_key valid remote (currentVersion_found found) ended)
  | deleted version date =>
    rw [remote] at describes
    cases describes
    rw [settle_tombstone] at ended
    split_ifs at ended with deleted late
    · rcases bothDeleted_cases (s := s) valid_key valid found version with ⟨_,ran⟩ | ⟨_,ran⟩
      · cases ran.symm.trans ended
        exact Or.inl (recorded_agrees valid found deleted remote _)
      · cases ran.symm.trans ended
    · exact Or.inl (pushes (by simpa using deleted) _ ended)
    · rcases pullDeletion_cases (s := s) valid_key valid found version with
        ⟨_,ran⟩ | ⟨_,w',ran,_⟩
      · cases ran.symm.trans ended
        exact Or.inl (deleted_agrees valid found remote)
      · cases ran.symm.trans ended

/-- A kernel that completes without an error leaves the two sides in agreement, or as they were
    where the key is settled. -/
theorem kernel_ended (running : s.syncRunning) (valid : Valid w.table)
    (describes : Describes w.remote answer)
    (ended : exec (kernel E key answer) (placed s w) = (.ok none, t)) :
    Agree E key t.world ∨ Settled key answer w ∧ Unchanged w t.world := by
  by_cases valid_key : E.settings.keyRegex key
  case neg =>
    rw [kernel_invalid running valid_key] at ended
    cases ended
  by_cases current : UpToDate answer (recordedVersion w.table key)
  · rw [kernel_current running valid_key current] at ended
    cases ended
    exact Or.inr ⟨Or.inl current,rfl,rfl⟩
  cases found : latest w.table key with
  | none =>
    rw [kernel_missing running valid_key found] at ended
    rcases missing_ended valid_key valid describes found ended with agree | ⟨same,deleted⟩
    · exact Or.inl agree
    · exact Or.inr ⟨Or.inr (Or.inl ⟨found,deleted⟩),same⟩
  | some old =>
    rw [recordedVersion, found] at current
    rcases opened_cases E.settings.encrypted E.settings old.value with ⟨plain,opens⟩ | malformed
    · rw [kernel_found running valid_key valid found current opens] at ended
      have valid' : Valid (w.read E).table := by rw [read_table]; exact valid
      have found' : latest (w.read E).table key = some old := by rw [read_table]; exact found
      have describes' : Describes (w.read E).remote answer := by rw [read_remote]; exact describes
      rcases found_ended valid_key valid' describes' found' opens w.tick ended with
        agree | ⟨⟨table,remote⟩,deleted,absent⟩
      · exact Or.inl agree
      · rw [read_table] at table
        rw [read_remote] at remote absent
        exact Or.inr ⟨Or.inr (Or.inr ⟨⟨old,found,deleted⟩,absent⟩),table,remote⟩
    · rw [kernel_malformed running valid_key valid found current malformed] at ended
      cases ended

/-- What agrees is recorded as up to date. -/
theorem agree_upToDate (agree : Agree E key w) (describes : Describes w.remote answer) :
    UpToDate answer (recordedVersion w.table key) := by
  rw [Agree] at agree
  cases remote : w.remote with
  | absent => rw [remote] at agree; exact agree.elim
  | present version date data =>
    rw [remote] at agree describes
    obtain ⟨row,plain,found,_,recorded,_⟩ := agree
    cases describes
    rw [recordedVersion, found]
    exact ⟨by simp,version.pos,recorded⟩
  | deleted version date =>
    rw [remote] at agree describes
    obtain ⟨row,found,_,recorded⟩ := agree
    cases describes
    rw [recordedVersion, found]
    exact ⟨by simp,version.pos,recorded⟩

/-- With a key that is not valid the kernel writes nothing. -/
theorem unchanged_of_valid (running : s.syncRunning)
    (valid : E.settings.keyRegex key →
      Unchanged w (exec (kernel E key answer) (placed s w)).2.world) :
    Unchanged w (exec (kernel E key answer) (placed s w)).2.world := by
  by_cases valid_key : E.settings.keyRegex key
  · exact valid valid_key
  · rw [kernel_invalid running valid_key]
    exact ⟨rfl,rfl⟩

/-- Where the local row records the remote version the kernel writes nothing. -/
theorem upToDate_unchanged (running : s.syncRunning)
    (current : UpToDate answer (recordedVersion w.table key)) :
    Unchanged w (exec (kernel E key answer) (placed s w)).2.world := by
  refine unchanged_of_valid running ?_
  intro valid_key
  rw [kernel_current running valid_key current]
  exact ⟨rfl,rfl⟩

/-- A local deletion of what the remote store does not have writes nothing. -/
theorem absent_unchanged (running : s.syncRunning) (valid : Valid w.table)
    (found : latest w.table key = some old) (deleted : old.deleted = true)
    (remote : w.remote = .absent) (describes : Describes w.remote answer) :
    Unchanged w (exec (kernel E key answer) (placed s w)).2.world := by
  refine unchanged_of_valid running ?_
  intro valid_key
  rw [remote] at describes
  have current : ¬ UpToDate answer old.remote_version := by
    rintro ⟨_,positive,_⟩
    rw [describes.1] at positive
    omega
  rcases opened_cases E.settings.encrypted E.settings old.value with ⟨plain,opens⟩ | malformed
  case inr =>
    rw [kernel_malformed running valid_key valid found current malformed]
    exact ⟨rfl,rfl⟩
  have remote' : (w.read E).remote = .absent := by rw [read_remote, remote]
  rw [kernel_found running valid_key valid found current opens, settle_live describes.2,
    if_pos deleted]
  split_ifs
  · obtain ⟨table,remote⟩ := pushDeletion_absent (s := s) remote' key old.version
      answer.version
    exact ⟨table.trans read_table,remote.trans read_remote⟩
  · rw [pullValue_absent remote']
    exact read_unchanged

/-- A remote deletion of what is not there locally writes nothing. -/
theorem deleted_unchanged (running : s.syncRunning) (missing : latest w.table key = none)
    {version : ℕ+} {date : Nat} (remote : w.remote = .deleted version date) (later : 0 < date)
    (describes : Describes w.remote answer) :
    Unchanged w (exec (kernel E key answer) (placed s w)).2.world := by
  refine unchanged_of_valid running ?_
  intro valid_key
  rw [remote] at describes
  cases describes
  rw [kernel_missing running valid_key missing, settle_tombstone, if_neg (by simp),
    if_neg (Nat.not_le.mpr later), pullDeletion_missing]
  exact ⟨rfl,rfl⟩

/-- A key that is missing on both sides is not written, at any date but zero. -/
theorem missing_unchanged (running : s.syncRunning) (missing : latest w.table key = none)
    (remote : w.remote = .absent) (describes : Describes w.remote answer) (later : 0 < answer.date) :
    Unchanged w (exec (kernel E key answer) (placed s w)).2.world := by
  refine unchanged_of_valid running ?_
  intro valid_key
  rw [remote] at describes
  rw [kernel_missing running valid_key missing, settle_live describes.2, if_neg (by omega),
    pullValue_absent remote]
  exact ⟨rfl,rfl⟩

/-- The answer of a remote store that holds the key, or its deletion, is determined. -/
theorem described_once {remote : Remote} {again : Answer} (describes : Describes remote answer)
    (describes' : Describes remote again) (held : 0 < answer.version) : again = answer := by
  cases remote with
  | absent =>
    rw [describes.1] at held
    omega
  | present version date data => exact describes'.trans describes.symm
  | deleted version date => exact describes'.trans describes.symm

/-- A settled key stays as it is. -/
theorem settled_unchanged (running : s.syncRunning) (valid : Valid w.table)
    (describes : Describes w.remote answer) (settled : Settled key answer w)
    (same : Unchanged w w') {again : Answer} (describes' : Describes w'.remote again) :
    Unchanged w' (exec (kernel E key again) (placed s w')).2.world := by
  rw [Settled] at settled
  rw [← same.1] at valid settled
  rw [← same.2] at describes settled
  rcases settled with current | ⟨missing,version,date,remote,later⟩ | ⟨⟨row,found,deleted⟩,remote⟩
  · rw [← described_once describes describes' current.2.1] at current
    exact upToDate_unchanged running current
  · exact deleted_unchanged running missing remote later describes'
  · exact absent_unchanged running valid found deleted remote describes'

theorem sync_kernel (E : Env) (key : List Char) (answer : Answer) (w : World) :
    sync E key answer w =
      (exec (kernel E key answer >>= complete) (placed ⟨w,true,[]⟩ w)).2 := by
  rw [sync, _syncKey_completes]
  rfl

theorem sync_world (E : Env) (key : List Char) (answer : Answer) (w : World) :
    (sync E key answer w).world =
      (exec (kernel E key answer) (placed ⟨w,true,[]⟩ w)).2.world := by
  rw [sync_kernel, exec_bind]
  rcases exec (kernel E key answer) (placed ⟨w,true,[]⟩ w) with ⟨stop | e,t⟩
  · rfl
  · rfl

/-- A call that completes without an error comes from a kernel that does. -/
theorem sync_completed (completed : (sync E key answer w).completions = [none]) :
    ∃ t, exec (kernel E key answer) (placed ⟨w,true,[]⟩ w) = (.ok none, t) := by
  have kept := keeps_kernel (steps E) key answer.version answer.date answer.error
    (placed ⟨w,true,[]⟩ w)
  rw [sync_kernel, exec_bind] at completed
  rcases ran : exec (kernel E key answer) (placed ⟨w,true,[]⟩ w) with ⟨stop | e,t⟩
  · rw [ran] at completed kept
    rw [completed] at kept
    simp [placed] at kept
  · rw [ran] at completed kept
    have last : t.completions ++ [e] = [none] := completed
    rw [kept.2] at last
    cases last
    exact ⟨t,rfl⟩

end Kernel

/-- A sync that completes without an error leaves the two sides in agreement, or as they were
    where the key was settled, and a second sync leaves them so; a key missing on both sides
    stays so. -/
theorem sync_converges (E : Env) (key : List Char) (answer : Answer) (w : World)
    (valid : Valid w.table) (describes : Describes w.remote answer) :
    ((sync E key answer w).completions = [none] →
      (Agree E key (sync E key answer w).world ∨
        Settled key answer w ∧ Unchanged w (sync E key answer w).world) ∧
      ∀ again, Describes (sync E key answer w).world.remote again →
        Unchanged (sync E key answer w).world
          (sync E key again (sync E key answer w).world).world) ∧
    (latest w.table key = none → w.remote = .absent → 0 < answer.date →
      Unchanged w (sync E key answer w).world) := by
  constructor
  · intro completed
    obtain ⟨t,ended⟩ := sync_completed completed
    have outcome := kernel_ended rfl valid describes ended
    have world : (sync E key answer w).world = t.world := by rw [sync_world, ended]
    rw [world]
    refine ⟨outcome,?_⟩
    intro again describes'
    rw [sync_world]
    rcases outcome with agree | ⟨settled,same⟩
    · exact upToDate_unchanged rfl (agree_upToDate agree describes')
    · exact settled_unchanged rfl valid describes settled same describes'
  · intro missing absent later
    rw [sync_world]
    exact missing_unchanged rfl missing absent describes later

/-- A value that was never uploaded. -/
def written : World :=
  ⟨runAll plainSettings [.set ['a', 'b'] [1] 0 ⟨1000,[]⟩],.absent,0,[]⟩

def notThere : Answer := ⟨0,500,some .notFound⟩

theorem upload_converges :
    (Agree plainEnv ['a', 'b'] (sync plainEnv ['a', 'b'] notThere written).world ∨
      Settled ['a', 'b'] notThere written ∧
        Unchanged written (sync plainEnv ['a', 'b'] notThere written).world) ∧
    Unchanged ⟨[],.absent,0,[]⟩ (sync plainEnv ['a', 'b'] notThere ⟨[],.absent,0,[]⟩).world :=
  ⟨((sync_converges plainEnv ['a', 'b'] notThere written (runAll_valid _ _)
      ⟨rfl,Or.inr rfl⟩).1 (by decide +kernel)).1,
    (sync_converges plainEnv ['a', 'b'] notThere ⟨[],.absent,0,[]⟩ (runAll_valid plainSettings [])
      ⟨rfl,Or.inr rfl⟩).2 rfl rfl (by decide)⟩

/-- A deletion elsewhere of a key that was never here is not recorded. -/
theorem foreign_deletion_not_recorded : ¬ ∀ E key answer w, Valid w.table →
    Describes w.remote answer → (sync E key answer w).completions = [none] →
    Agree E key (sync E key answer w).world := by
  intro claim
  have agree := claim plainEnv ['a', 'b'] ⟨1,1000,some .tombstone⟩ ⟨[],.deleted 1 1000,0,[]⟩
    (runAll_valid plainSettings []) rfl (by decide +kernel)
  have world : (sync plainEnv ['a', 'b'] ⟨1,1000,some .tombstone⟩
      ⟨[],.deleted 1 1000,0,[]⟩).world = ⟨[],.deleted 1 1000,1,[]⟩ := rfl
  rw [world] at agree
  obtain ⟨row,found,_⟩ := agree
  cases found

end SyncConverges
