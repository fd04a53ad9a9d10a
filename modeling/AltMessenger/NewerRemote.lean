import AltMessenger.SyncOutcome

/-!
A key whose latest row was synced and not changed since, while the remote store has a newer
version of it.
-/
namespace NewerRemote
open FaultyState ReplicatedStore KeySync RemoteStore SyncOutcome SyncEnds

/-- The version of what is there, or was. -/
def version : Remote → Nat
  | .absent => 0
  | .present version _ _ => version
  | .deleted version _ => version

/-- The sync took over the remote value or deletion, and asked for no change of it. -/
def Adopted (E : Env) (key : List Char) (before after : World) : Prop :=
  after.requests = before.requests ∧ after.remote = before.remote ∧ Agree E key after

/-- What the sync compares, and what it writes, once it has read the local row. -/
def Takes (E : Env) (key : List Char) (w : World) (old : Row) : Prop :=
  match w.remote with
  | .absent => False
  | .present version date data =>
    E.readTime old.thetime < date ∧ PullValueFits E (w.read E) key data version
  | .deleted version date =>
    if old.deleted then RecordFits E (w.read E) old.version version
    else E.readTime old.thetime < date ∧ PullDeletionFits E (w.read E) old.version version

section Newer
variable {E : Env} {key : List Char} {w w' : World} {s : Sync World} {old : Row}

/-- What was recorded for an older version is not an agreement. -/
theorem disagrees {row : Row} (found : latest w.table key = some row)
    (older : row.remote_version < version w.remote) : ¬ Agree E key w := by
  intro agree
  rw [Agree] at agree
  cases remote : w.remote with
  | absent => rw [remote] at agree; exact agree
  | present version date data =>
    rw [remote] at agree older
    obtain ⟨other,plain,found',_,same,_⟩ := agree
    rw [found] at found'
    cases found'
    exact absurd same (Nat.ne_of_lt older)
  | deleted version date =>
    rw [remote] at agree older
    obtain ⟨other,found',_,same⟩ := agree
    rw [found] at found'
    cases found'
    exact absurd same (Nat.ne_of_lt older)

/-- A pull that did not come through leaves the two sides in disagreement. -/
theorem stalled_disagrees (valid : Valid w.table) (found : latest w.table key = some old)
    (older : old.remote_version < version w.remote) (stalled : Stalled key w w') :
    ¬ Agree E key w' := by
  rw [← stalled.remote] at older
  rcases stalled.table with same | ⟨row,table,same_key,next,fresh⟩
  · exact disagrees (by rw [same]; exact found) older
  · have found' := (written valid row same_key next).2
    rw [← table] at found'
    exact disagrees found' (by omega)

theorem asks_not_adopted {r : Result} {x : Op World (Option BRReplicatedKVStoreError)}
    (ran : exec x s = (r, placed s w')) (more : w'.requests ≠ w.requests) :
    ¬ Adopted E key w (exec x s).2.world := by
  rintro ⟨requests,_⟩
  rw [ran] at requests
  exact more requests

theorem stalls_not_adopted (valid : Valid w.table) (found : latest w.table key = some old)
    (older : old.remote_version < version w.remote) (stalled : Stalled key w w') :
    ¬ Adopted E key w w' := by
  rintro ⟨_,_,agree⟩
  exact stalled_disagrees valid found older stalled agree

section Settle
variable (valid_key : E.settings.keyRegex key) (valid : Valid w.table)
  (found : latest w.table key = some old) (older : old.remote_version < version w.remote)
include valid_key valid found older

/-- The remote store holds a value: it is fetched where it is later than the local row. -/
theorem settle_present {version : ℕ+} {date : Nat} {data : List UInt8} (value : List UInt8)
    (remote : w.remote = .present version date data) :
    Adopted E key w (exec (settle (steps E) key finish version date none old.remote_version
        (old.version, E.readTime old.thetime, old.deleted, value)) (placed s w)).2.world ↔
      E.readTime old.thetime < date ∧ PullValueFits E w key data version := by
  simp only [settle, true_or, if_true, reduceCtorEq, and_false, if_false]
  by_cases late : E.readTime old.thetime > date ∨ E.readTime old.thetime = date
  · rw [if_pos late]
    refine iff_of_false ?_ (fun both => by omega)
    split_ifs
    · obtain ⟨r,w',ran,more⟩ := pushDeletion_asks (E := E) (s := s) (w := w) key
        old.version version
      exact asks_not_adopted ran more
    · obtain ⟨r,w',ran,more⟩ := pushValue_asks (E := E) (s := s) (w := w) key
        old.version value version old.remote_version
      exact asks_not_adopted ran more
  · rw [if_neg late, ← currentVersion_found found]
    rcases pullValue_cases (s := s) valid_key valid remote with
      ⟨fits,plain,opens,ran⟩ | ⟨large,r,w',ran,_,stalled⟩
    · rw [ran]
      exact iff_of_true ⟨rfl,rfl,adopted_agrees valid remote opens⟩ ⟨by omega,fits⟩
    · rw [ran]
      exact iff_of_false (stalls_not_adopted valid found older stalled)
        (fun both => large both.2)

/-- The remote store holds a deletion: it is recorded on a deleted row, and taken over where it is
    later than the local row. -/
theorem settle_deleted {version : ℕ+} {date : Nat} (value : List UInt8)
    (remote : w.remote = .deleted version date) :
    Adopted E key w (exec (settle (steps E) key finish version date (some .tombstone)
        old.remote_version (old.version, E.readTime old.thetime, old.deleted, value))
        (placed s w)).2.world ↔
      if old.deleted then RecordFits E w old.version version
      else E.readTime old.thetime < date ∧ PullDeletionFits E w old.version version := by
  simp only [settle, true_or, or_true, if_true, and_true]
  by_cases deleted : old.deleted = true
  · rw [if_pos deleted, if_pos deleted]
    rcases bothDeleted_cases (s := s) valid_key valid found version with
      ⟨fits,ran⟩ | ⟨large,ran⟩
    · rw [ran]
      exact iff_of_true ⟨rfl,rfl,recorded_agrees valid found deleted remote _⟩ fits
    · rw [ran]
      exact iff_of_false (stalls_not_adopted valid found older stalled_ticked) large
  simp only [if_neg deleted]
  by_cases late : E.readTime old.thetime > date ∨ E.readTime old.thetime = date
  · rw [if_pos late]
    obtain ⟨r,w',ran,more⟩ := pushValue_asks (E := E) (s := s) (w := w) key
      old.version value version old.remote_version
    exact iff_of_false (asks_not_adopted ran more) (fun both => by omega)
  · rw [if_neg late]
    rcases pullDeletion_cases (s := s) valid_key valid found version with
      ⟨fits,ran⟩ | ⟨large,w',ran,stalled⟩
    · rw [ran]
      exact iff_of_true ⟨rfl,rfl,deleted_agrees valid found remote⟩ ⟨by omega,fits⟩
    · rw [ran]
      exact iff_of_false (stalls_not_adopted valid found older stalled)
        (fun both => large both.2)

end Settle

theorem not_upToDate (older : old.remote_version < version w.remote) :
    ¬ UpToDate (w.remote.ver (E.dates w.tick)) old.remote_version := by
  rintro ⟨_,_,same⟩
  cases remote : w.remote <;> rw [remote] at same older <;>
    exact absurd same (Nat.ne_of_lt older)

/-- The kernel on the answer of the remote store adopts what is there just when it takes it. -/
theorem kernel_adopts_iff (running : s.syncRunning) (valid_key : E.settings.keyRegex key)
    (valid : Valid w.table) (found : latest w.table key = some old)
    (older : old.remote_version < version w.remote)
    {plain : List UInt8} (opens : opened E.settings.encrypted E.settings old.value = .ok plain) :
    Adopted E key w (exec (kernel E key (w.remote.ver (E.dates w.tick))) (placed s w)).2.world ↔
      Takes E key w old := by
  have stale := not_upToDate (E := E) older
  have valid' : Valid (w.read E).table := by rw [read_table]; exact valid
  have found' : latest (w.read E).table key = some old := by rw [read_table]; exact found
  have older' : old.remote_version < version (w.read E).remote := by
    rw [read_remote]
    exact older
  have same : ∀ after, Adopted E key w after ↔ Adopted E key (w.read E) after := by
    intro after
    rw [Adopted, Adopted, read_requests, read_remote]
  rw [kernel_found running valid_key valid found stale opens, same, Takes]
  cases remote : w.remote with
  | absent =>
    rw [remote] at older
    exact absurd older (Nat.not_lt_zero _)
  | present version date data =>
    have remote' : (w.read E).remote = .present version date data := by rw [read_remote, remote]
    exact settle_present valid_key valid' found' older' _ remote'
  | deleted version date =>
    have remote' : (w.read E).remote = .deleted version date := by rw [read_remote, remote]
    exact settle_deleted valid_key valid' found' older' _ remote'

/-- A sync of a key whose remote version is newer than the one its latest row records adopts it
    just when the local row can be read and its time is earlier than that of the remote change
    (or both sides are deleted), the fetched value opens, and the numbers written fit. -/
theorem newer_remote_adopted_iff (E : Env) (key : List Char) (w : World) (old : Row)
    (valid : Valid w.table) (found : latest w.table key = some old)
    (older : old.remote_version < version w.remote) :
    Adopted E key w (exec (syncKey (steps E) key none none) ⟨w,false,[]⟩).2.world ↔
      E.settings.keyRegex key ∧
        (∃ plain, opened E.settings.encrypted E.settings old.value = .ok plain) ∧
        Takes E key w old := by
  by_cases valid_key : E.settings.keyRegex key
  case neg =>
    have invalid : (steps E).checkKey key = throwing .invalidKey := if_neg valid_key
    rw [syncKey_refused invalid]
    refine iff_of_false ?_ (fun both => valid_key both.1)
    rintro ⟨_,_,agree⟩
    exact disagrees found older agree
  have checks : (steps E).checkKey key = .ok () := if_pos valid_key
  rw [syncKey_world checks rfl]
  change Adopted E key w (exec (kernel E key (w.remote.ver (E.dates w.tick)))
    (placed ⟨w,true,[]⟩ w)).2.world ↔ _
  rcases opened_cases E.settings.encrypted E.settings old.value with ⟨plain,opens⟩ | malformed
  · rw [kernel_adopts_iff rfl valid_key valid found older opens]
    exact ⟨fun takes => ⟨valid_key,⟨plain,opens⟩,takes⟩,fun both => both.2.2⟩
  · have stale := not_upToDate (E := E) older
    rw [kernel_malformed rfl valid_key valid found stale malformed]
    refine iff_of_false ?_ ?_
    · rintro ⟨_,_,agree⟩
      exact disagrees found older agree
    · rintro ⟨_,⟨plain,opens⟩,_⟩
      rw [malformed] at opens
      cases opens

end Newer

/-- A value that was uploaded, as version 1, and not changed since. -/
def uploaded : Table := runAll plainSettings
  [.set ['a', 'b'] [1] 0 ⟨1000,[]⟩, .setRemoteVersion ['a', 'b'] 1 1 ⟨2000,[]⟩]

def uploadedRow : Row := ⟨2,1,['a', 'b'],[1],2000,false⟩

/-- Somebody else has written version 2 since, at this date. -/
def changed (date : Nat) : World := ⟨uploaded,.present 2 date [2],0,[]⟩

theorem later_change_adopted : Adopted plainEnv ['a', 'b'] (changed 2500)
    (exec (syncKey (steps plainEnv) ['a', 'b'] none none) ⟨changed 2500,false,[]⟩).2.world :=
  (newer_remote_adopted_iff plainEnv ['a', 'b'] (changed 2500) uploadedRow (runAll_valid _ _)
    (by decide +kernel) (by decide)).mpr
      ⟨by decide,⟨[1],rfl⟩,by decide,[2],rfl,⟨by decide +kernel,by decide,by decide⟩,
        by decide +kernel,by decide,by decide⟩

/-- By the clock of the client that recorded version 1 the change to version 2 was earlier. -/
theorem unchanged_value_pushed : ¬ ∀ E key w old, Valid w.table → latest w.table key = some old →
    old.remote_version ≠ 0 → old.remote_version < version w.remote →
    Adopted E key w (exec (syncKey (steps E) key none none) ⟨w,false,[]⟩).2.world := by
  intro claim
  obtain ⟨requests,_⟩ := claim plainEnv ['a', 'b'] (changed 1500) uploadedRow (runAll_valid _ _)
    (by decide +kernel) (by decide) (by decide)
  have length := congrArg List.length requests
  revert length
  decide +kernel

end NewerRemote
