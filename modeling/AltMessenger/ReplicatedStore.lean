import AltMessenger.SwiftRuntime
import AltMessenger.VersionLog

/-!
The local side of the replicated key value store: a table of versions, written inside
transactions one at a time. A call names the version it writes on top of. Versions and
milliseconds are whole numbers; where the code makes an `Int64` of one it faults if it is
too large.
-/
namespace ReplicatedStore
open SwiftRuntime

inductive BRReplicatedKVStoreError where
  | sqLiteError
  | replicationError
  | alreadyReplicating
  | conflict
  | notFound
  | invalidKey
  | unknown
  | malformedData
  deriving DecidableEq, Repr

/-- Why a call did not return: it threw, or the process ended. -/
inductive Stop where
  | throws (error : BRReplicatedKVStoreError)
  | trap (trap : Trap)
  deriving DecidableEq, Repr

def throwing {α : Type} (error : BRReplicatedKVStoreError) : Except Stop α := .error (.throws error)

/-- ChaCha20-Poly1305 under the store's key; what it seals it opens again. Opening fails with
    `malformedData`. -/
structure Cipher where
  encrypt : List UInt8 → List UInt8 → List UInt8
  decrypt : List UInt8 → Option (List UInt8)
  decrypt_encrypt : ∀ nonce data, decrypt (encrypt nonce data) = some data

structure Settings where
  /-- `keyRegex` has exactly one match in the key -/
  keyRegex : List Char → Bool
  encrypted : Bool
  encryptedReplication : Bool
  cipher : Cipher

/-- A store that does not encrypt, for one key. -/
def plainSettings : Settings where
  keyRegex key := key = ['a', 'b']
  encrypted := false
  encryptedReplication := false
  cipher := ⟨fun _ data => data,some,fun _ _ => rfl⟩

/-- The clock and the nonce a call finds. -/
structure Moment where
  time : Nat
  nonce : List UInt8

structure Row where
  version : Nat
  remote_version : Nat
  key : List Char
  value : List UInt8
  thetime : Nat
  deleted : Bool
  deriving DecidableEq

abbrev Table := List Row

/-- A text bound without its length ends at its first zero character. -/
def boundText (key : List Char) : List Char := key.takeWhile (· ≠ '\x00')

def int64 (n : Nat) : Except Stop Nat :=
  if n < 2 ^ 63 then .ok n else .error (.trap .conversion)

def int32 (n : Nat) : Except Stop Nat :=
  if n < 2 ^ 31 then .ok n else .error (.trap .conversion)

def checkKey (S : Settings) (key : List Char) : Except Stop Unit :=
  if S.keyRegex key then .ok () else throwing .invalidKey

/-- `SELECT … WHERE key = ? ORDER BY version DESC LIMIT 1` -/
def latest (table : Table) (key : List Char) : Option Row :=
  VersionLog.latest Row.key Row.version table (boundText key)

/-- The columns of a row that is not there read as zero. -/
def _localVersion (table : Table) (key : List Char) : Nat × Nat :=
  match latest table key with
  | some row => (row.version, row.thetime)
  | none => (0, 0)

/-- One row into the table, unless its primary key is taken. -/
def insertRow (table : Table) (row : Row) : Except Stop Table :=
  if table.any fun old => old.key = row.key ∧ old.version = row.version then throwing .sqLiteError
  else .ok (table ++ [row])

/-- `INSERT … SELECT … WHERE key=? AND version=?` -/
def insertSelect (table : Table) (key : List Char) (version : Nat) (row : Row → Row) :
    Except Stop Table :=
  ((table.filter fun old => old.key = boundText key ∧ old.version = version).map row).foldlM
    insertRow table

/-- A transaction that throws is rolled back. -/
def txn {α : Type} (fn : Table → Except Stop (α × Table)) (table : Table) :
    Except Stop α × Table :=
  match fn table with
  | .ok (a, after) => (.ok a, after)
  | .error stop => (.error stop, table)

def _set (S : Settings) (key : List Char) (value : List UInt8) (localVer : Nat) (now : Moment) :
    Table → Except Stop (Nat × Nat) × Table :=
  txn fun table => do
    let (curVer, _) := _localVersion table key
    if curVer ≠ localVer then throwing .conflict
    else
      let newVer := curVer + 1
      let encryptedData := if S.encrypted then S.cipher.encrypt now.nonce value else value
      let version ← int64 newVer
      let _ ← int32 encryptedData.length
      let thetime ← int64 now.time
      let after ← insertRow table
        { version, remote_version := 0, key := boundText key, value := encryptedData, thetime,
          deleted := false }
      pure ((newVer, now.time), after)

def _del (key : List Char) (localVer : Nat) (now : Moment) (table : Table) :
    Except Stop (Nat × Nat) × Table :=
  if localVer = 0 then (throwing .notFound, table)
  else
    txn (fun table => do
      let (curVer, _) := _localVersion table key
      if curVer ≠ localVer then throwing .conflict
      else
        let newVer := curVer + 1
        let version ← int64 newVer
        let thetime ← int64 now.time
        let after ← insertSelect table key curVer fun old =>
          { old with version, remote_version := 0, thetime, deleted := true }
        pure ((newVer, now.time), after)) table

/-- A call behind the check of its key. -/
def checked {α : Type} (S : Settings) (key : List Char)
    (call : Table → Except Stop α × Table) (table : Table) : Except Stop α × Table :=
  match checkKey S key with
  | .ok _ => call table
  | .error stop => (.error stop, table)

/-- `set`, with `syncImmediately` off as it is unless somebody turns it on. A sync that follows
    a write makes further calls of these three. -/
def set (S : Settings) (key : List Char) (value : List UInt8) (localVer : Nat) (now : Moment) :
    Table → Except Stop (Nat × Nat) × Table :=
  checked S key (_set S key value localVer now)

def del (S : Settings) (key : List Char) (localVer : Nat) (now : Moment) :
    Table → Except Stop (Nat × Nat) × Table :=
  checked S key (_del key localVer now)

/-- `setRemoteVersion` behind its check of the key. -/
def _setRemoteVersion (key : List Char) (localVer remoteVer : Nat) (now : Moment)
    (table : Table) : Except Stop (Nat × Nat) × Table :=
  if localVer < 1 then (throwing .conflict, table)
  else
    txn (fun table => do
      let (curVer, _) := _localVersion table key
      if curVer ≠ localVer then throwing .conflict
      else
        let newVer := curVer + 1
        let version ← int64 newVer
        let thetime ← int64 now.time
        let remote_version ← int64 remoteVer
        let after ← insertSelect table key curVer fun old =>
          { old with version, remote_version, thetime }
        pure ((newVer, now.time), after)) table

def setRemoteVersion (S : Settings) (key : List Char) (localVer remoteVer : Nat) (now : Moment) :
    Table → Except Stop (Nat × Nat) × Table :=
  checked S key (_setRemoteVersion key localVer remoteVer now)

/-- The join of `localKeys`: the rows whose version is the greatest of their key. -/
def localKeys (table : Table) : List (List Char × Nat × Nat × Nat × Bool) :=
  (VersionLog.latestRows Row.key Row.version table).map fun row =>
    (row.key, row.version, row.thetime, row.remote_version, row.deleted)

inductive Call where
  | set (key : List Char) (value : List UInt8) (localVer : Nat) (now : Moment)
  | del (key : List Char) (localVer : Nat) (now : Moment)
  | setRemoteVersion (key : List Char) (localVer remoteVer : Nat) (now : Moment)

def Call.key : Call → List Char
  | .set key _ _ _ => key
  | .del key _ _ => key
  | .setRemoteVersion key _ _ _ => key

def Call.localVer : Call → Nat
  | .set _ _ localVer _ => localVer
  | .del _ localVer _ => localVer
  | .setRemoteVersion _ localVer _ _ => localVer

def Call.run (S : Settings) : Call → Table → Except Stop (Nat × Nat) × Table
  | .set key value localVer now => ReplicatedStore.set S key value localVer now
  | .del key localVer now => ReplicatedStore.del S key localVer now
  | .setRemoteVersion key localVer remoteVer now =>
    ReplicatedStore.setRemoteVersion S key localVer remoteVer now

/-- Calls of any number of threads, in the order of their transactions. -/
def runAll (S : Settings) (calls : List Call) : Table :=
  calls.foldl (fun table call => (call.run S table).2) []

def versionsOf (table : Table) (key : List Char) : List Nat :=
  (VersionLog.rowsOf Row.key table (boundText key)).map Row.version

def currentVersion (table : Table) (key : List Char) : Nat := (_localVersion table key).1

/-- Each key has the versions 1 to m, in the order they were written. -/
abbrev Valid (table : Table) : Prop := VersionLog.Numbered Row.key Row.version table

def sealedValue (S : Settings) (value : List UInt8) (now : Moment) : List UInt8 :=
  if S.encrypted then S.cipher.encrypt now.nonce value else value

/-- What `_set` binds fits the integers it is bound as. -/
def SetFits (S : Settings) (table : Table) (key : List Char) (value : List UInt8) (now : Moment) :
    Prop :=
  currentVersion table key + 1 < 2 ^ 63 ∧ (sealedValue S value now).length < 2 ^ 31 ∧
    now.time < 2 ^ 63

/-- The row `_set` writes. -/
def setRow (S : Settings) (table : Table) (key : List Char) (value : List UInt8) (now : Moment) :
    Row where
  version := currentVersion table key + 1
  remote_version := 0
  key := boundText key
  value := sealedValue S value now
  thetime := now.time
  deleted := false

/-- The row `_del` writes over an old one. -/
def delRow (old : Row) (now : Moment) : Row :=
  { old with version := old.version + 1, remote_version := 0, thetime := now.time, deleted := true }

/-- The row `setRemoteVersion` writes over an old one. -/
def remoteRow (old : Row) (remoteVer : Nat) (now : Moment) : Row :=
  { old with version := old.version + 1, remote_version := remoteVer, thetime := now.time }

section Valid
variable {table : Table} {key : List Char} {localVer : Nat} {now : Moment}

theorem currentVersion_eq : currentVersion table key =
    VersionLog.current Row.key Row.version table (boundText key) := by
  rw [currentVersion, _localVersion, latest, VersionLog.current]
  cases VersionLog.latest Row.key Row.version table (boundText key) <;> rfl

theorem currentVersion_found {old : Row} (found : latest table key = some old) :
    currentVersion table key = old.version := by
  rw [currentVersion, _localVersion, found]

theorem currentVersion_missing (missing : latest table key = none) :
    currentVersion table key = 0 := by
  rw [currentVersion, _localVersion, missing]

theorem insertRow_next (valid : Valid table) {row : Row}
    (next : row.version = VersionLog.current Row.key Row.version table row.key + 1) :
    insertRow table row = .ok (table ++ [row]) := by
  rw [insertRow, if_neg]
  intro taken
  obtain ⟨old,mem,same⟩ := List.any_eq_true.mp taken
  obtain ⟨same_key,same_version⟩ := of_decide_eq_true same
  have inside : old ∈ VersionLog.rowsOf Row.key table row.key :=
    List.mem_filter.mpr ⟨mem,decide_eq_true same_key⟩
  have bound := VersionLog.inOrder_bound (valid row.key) inside
  rw [valid.current] at next
  omega

/-- The next version of a key behind the other rows is its latest row. -/
theorem written (valid : Valid table) (row : Row) (same : row.key = boundText key)
    (next : row.version = currentVersion table key + 1) :
    Valid (table ++ [row]) ∧ latest (table ++ [row]) key = some row := by
  rw [currentVersion_eq, ← same] at next
  rw [latest, ← same]
  exact ⟨valid.append next,valid.latest_append next⟩

theorem latest_mem (valid : Valid table) {old : Row} (found : latest table key = some old) :
    old ∈ VersionLog.rowsOf Row.key table (boundText key) := by
  rw [latest, valid.latest] at found
  exact List.mem_of_getLast? found

theorem latest_key (valid : Valid table) {old : Row} (found : latest table key = some old) :
    old.key = boundText key :=
  of_decide_eq_true (List.mem_filter.mp (latest_mem valid found)).2

theorem latest_positive (valid : Valid table) {old : Row} (found : latest table key = some old) :
    0 < old.version :=
  (VersionLog.inOrder_bound (valid _) (latest_mem valid found)).1

/-- The latest row of a key is the only one with its version. -/
theorem latest_selected (valid : Valid table) {old : Row} (found : latest table key = some old) :
    table.filter (fun row => row.key = boundText key ∧ row.version = old.version) = [old] := by
  have version : VersionLog.current Row.key Row.version table (boundText key) = old.version := by
    rw [← currentVersion_eq, currentVersion_found found]
  have rows := valid.at_current (boundText key)
  rw [version, ← latest, found, VersionLog.rowsOf, List.filter_filter] at rows
  rw [← Option.toList_some, ← rows]
  apply List.filter_congr
  intro row _
  simp [and_comm]

/-- The statement that copies the current version of a key copies its latest row. -/
theorem insertSelect_latest (valid : Valid table) {old : Row} (found : latest table key = some old)
    (row : Row → Row) (same_key : (row old).key = old.key)
    (next : (row old).version = old.version + 1) :
    insertSelect table key old.version row = .ok (table ++ [row old]) := by
  have version : VersionLog.current Row.key Row.version table (boundText key) = old.version := by
    rw [← currentVersion_eq, currentVersion_found found]
  rw [insertSelect, latest_selected valid found, List.map_singleton, List.foldlM_cons,
    insertRow_next valid (by rw [next, same_key, latest_key valid found, version])]
  rfl

theorem txn_ok {α : Type} {fn : Table → Except Stop (α × Table)} {a : α} {after : Table}
    (ran : fn table = .ok (a, after)) : txn fn table = (.ok a, after) := by
  rw [txn, ran]

theorem txn_error {α : Type} {fn : Table → Except Stop (α × Table)} {stop : Stop}
    (stopped : fn table = .error stop) : txn fn table = (.error stop, table) := by
  rw [txn, stopped]

theorem int64_fits {n : Nat} (fits : n < 2 ^ 63) : int64 n = .ok n := if_pos fits

theorem int64_traps {n : Nat} (large : ¬ n < 2 ^ 63) : int64 n = .error (.trap .conversion) :=
  if_neg large

theorem int32_fits {n : Nat} (fits : n < 2 ^ 31) : int32 n = .ok n := if_pos fits

theorem int32_traps {n : Nat} (large : ¬ n < 2 ^ 31) : int32 n = .error (.trap .conversion) :=
  if_neg large

/-- A conversion with what follows it traps, unless both are about numbers that fit. -/
theorem int64_unless {α : Type} {n : Nat} {fits : Prop} {f : Nat → Except Stop α}
    (rest : ¬ fits → f n = .error (.trap .conversion)) (large : ¬ (n < 2 ^ 63 ∧ fits)) :
    (int64 n >>= f) = .error (.trap .conversion) := by
  by_cases small : n < 2 ^ 63
  · rw [bind_ready (int64_fits small)]
    exact rest fun fit => large ⟨small,fit⟩
  · exact bind_halted (int64_traps small)

theorem int32_unless {α : Type} {n : Nat} {fits : Prop} {f : Nat → Except Stop α}
    (rest : ¬ fits → f n = .error (.trap .conversion)) (large : ¬ (n < 2 ^ 31 ∧ fits)) :
    (int32 n >>= f) = .error (.trap .conversion) := by
  by_cases small : n < 2 ^ 31
  · rw [bind_ready (int32_fits small)]
    exact rest fun fit => large ⟨small,fit⟩
  · exact bind_halted (int32_traps small)

theorem _set_stale {S : Settings} {value : List UInt8}
    (stale : currentVersion table key ≠ localVer) :
    _set S key value localVer now table = (throwing .conflict, table) := by
  rw [_set]
  exact txn_error (if_pos stale)

theorem matches_current : ¬ (_localVersion table key).1 ≠ currentVersion table key :=
  not_not.mpr rfl

/-- What is left of `_set` where its checks pass. -/
theorem _set_inserts {S : Settings} {value : List UInt8} (fits : SetFits S table key value now) :
    _set S key value (currentVersion table key) now table =
      txn (fun table' => do
        let after ← insertRow table' (setRow S table key value now)
        pure ((currentVersion table key + 1, now.time), after)) table := by
  obtain ⟨version,size,time⟩ := fits
  rw [_set, txn, txn]
  simp only []
  rw [if_neg matches_current, ← currentVersion, ← sealedValue, bind_ready (int64_fits version),
    bind_ready (int32_fits size), bind_ready (int64_fits time)]
  rfl

theorem _set_writes {S : Settings} {value : List UInt8} (valid : Valid table)
    (fits : SetFits S table key value now) :
    _set S key value (currentVersion table key) now table =
      (.ok (currentVersion table key + 1, now.time), table ++ [setRow S table key value now]) := by
  have row : insertRow table (setRow S table key value now) =
      .ok (table ++ [setRow S table key value now]) :=
    insertRow_next valid (by rw [setRow, currentVersion_eq])
  rw [_set_inserts fits]
  exact txn_ok (bind_ready row)

theorem _set_traps {S : Settings} {value : List UInt8}
    (large : ¬ SetFits S table key value now) :
    _set S key value (currentVersion table key) now table = (.error (.trap .conversion), table) := by
  apply txn_error
  simp only []
  rw [if_neg matches_current, ← currentVersion, ← sealedValue]
  refine int64_unless ?_ large
  intro large
  refine int32_unless ?_ large
  intro time
  exact bind_halted (int64_traps time)

theorem _del_stale (now : Moment) (stale : currentVersion table key ≠ localVer) :
    ∃ e, _del key localVer now table = (throwing e, table) := by
  by_cases create : localVer = 0
  · exact ⟨.notFound,by rw [_del, if_pos create]⟩
  · refine ⟨.conflict,?_⟩
    rw [_del, if_neg create]
    exact txn_error (if_pos stale)

theorem _del_missing (missing : latest table key = none) :
    _del key (currentVersion table key) now table = (throwing .notFound, table) := by
  rw [_del, if_pos (currentVersion_missing missing)]

theorem _del_writes {old : Row} (valid : Valid table) (found : latest table key = some old)
    (version : old.version + 1 < 2 ^ 63) (time : now.time < 2 ^ 63) :
    _del key (currentVersion table key) now table =
      (.ok (old.version + 1, now.time), table ++ [delRow old now]) := by
  have current := currentVersion_found found
  have positive := latest_positive valid found
  have row := insertSelect_latest valid found (fun row =>
    { row with version := old.version + 1, remote_version := 0, thetime := now.time,
               deleted := true }) rfl rfl
  rw [_del, if_neg (by omega)]
  apply txn_ok
  simp only []
  rw [if_neg matches_current, ← currentVersion, current, bind_ready (int64_fits version),
    bind_ready (int64_fits time)]
  exact bind_ready row

theorem _del_traps {old : Row} (valid : Valid table) (found : latest table key = some old)
    (large : ¬ (old.version + 1 < 2 ^ 63 ∧ now.time < 2 ^ 63)) :
    _del key (currentVersion table key) now table = (.error (.trap .conversion), table) := by
  have current := currentVersion_found found
  have positive := latest_positive valid found
  rw [_del, if_neg (by omega)]
  apply txn_error
  simp only []
  rw [if_neg matches_current, ← currentVersion, current]
  refine int64_unless ?_ large
  intro time
  exact bind_halted (int64_traps time)

theorem checked_ok {α : Type} {S : Settings} {call : Table → Except Stop α × Table}
    (valid_key : S.keyRegex key) : checked S key call table = call table := by
  rw [checked, checkKey, if_pos valid_key]

theorem checked_invalid {α : Type} {S : Settings} {call : Table → Except Stop α × Table}
    (invalid_key : ¬ S.keyRegex key) :
    checked S key call table = (throwing .invalidKey, table) := by
  rw [checked, checkKey, if_neg invalid_key]
  rfl

variable {remoteVer : Nat}

theorem _setRemoteVersion_stale (remoteVer : Nat) (now : Moment)
    (stale : currentVersion table key ≠ localVer) :
    ∃ e, _setRemoteVersion key localVer remoteVer now table = (throwing e, table) := by
  refine ⟨.conflict,?_⟩
  by_cases create : localVer < 1
  · rw [_setRemoteVersion, if_pos create]
  · rw [_setRemoteVersion, if_neg create]
    exact txn_error (if_pos stale)

theorem _setRemoteVersion_missing (missing : latest table key = none) :
    _setRemoteVersion key (currentVersion table key) remoteVer now table =
      (throwing .conflict, table) := by
  have none_current := currentVersion_missing missing
  rw [_setRemoteVersion, if_pos (by omega)]

theorem _setRemoteVersion_writes {old : Row} (valid : Valid table)
    (found : latest table key = some old) (version : old.version + 1 < 2 ^ 63)
    (time : now.time < 2 ^ 63) (remote : remoteVer < 2 ^ 63) :
    _setRemoteVersion key (currentVersion table key) remoteVer now table =
      (.ok (old.version + 1, now.time), table ++ [remoteRow old remoteVer now]) := by
  have current := currentVersion_found found
  have positive := latest_positive valid found
  have row := insertSelect_latest valid found (fun row =>
    { row with version := old.version + 1, remote_version := remoteVer, thetime := now.time })
    rfl rfl
  rw [_setRemoteVersion, if_neg (by omega)]
  apply txn_ok
  simp only []
  rw [if_neg matches_current, ← currentVersion, current, bind_ready (int64_fits version),
    bind_ready (int64_fits time), bind_ready (int64_fits remote)]
  exact bind_ready row

theorem _setRemoteVersion_traps {old : Row} (valid : Valid table)
    (found : latest table key = some old)
    (large : ¬ (old.version + 1 < 2 ^ 63 ∧ now.time < 2 ^ 63 ∧ remoteVer < 2 ^ 63)) :
    _setRemoteVersion key (currentVersion table key) remoteVer now table =
      (.error (.trap .conversion), table) := by
  have current := currentVersion_found found
  have positive := latest_positive valid found
  rw [_setRemoteVersion, if_neg (by omega)]
  apply txn_error
  simp only []
  rw [if_neg matches_current, ← currentVersion, current]
  refine int64_unless ?_ large
  intro large
  refine int64_unless ?_ large
  intro remote
  exact bind_halted (int64_traps remote)

variable {S : Settings}

theorem checked_cases {α : Type} (S : Settings) (key : List Char)
    (call : Table → Except Stop α × Table) (table : Table) :
    checked S key call table = (throwing .invalidKey, table) ∨
      checked S key call table = call table := by
  by_cases valid_key : S.keyRegex key
  · exact Or.inr (checked_ok valid_key)
  · exact Or.inl (checked_invalid valid_key)

/-- A call on top of a version that is not the current one throws. -/
theorem run_stale (call : Call) (stale : currentVersion table call.key ≠ call.localVer) :
    ∃ e, call.run S table = (throwing e, table) := by
  cases call with
  | set key value localVer now =>
    rcases checked_cases S key (_set S key value localVer now) table with invalid | checks
    · exact ⟨.invalidKey,invalid⟩
    · exact ⟨.conflict,checks.trans (_set_stale stale)⟩
  | del key localVer now =>
    rcases checked_cases S key (_del key localVer now) table with invalid | checks
    · exact ⟨.invalidKey,invalid⟩
    · obtain ⟨e,throws⟩ := _del_stale now stale
      exact ⟨e,checks.trans throws⟩
  | setRemoteVersion key localVer remoteVer now =>
    rcases checked_cases S key (_setRemoteVersion key localVer remoteVer now) table with
      invalid | checks
    · exact ⟨.invalidKey,invalid⟩
    · obtain ⟨e,throws⟩ := _setRemoteVersion_stale remoteVer now stale
      exact ⟨e,checks.trans throws⟩

/-- What one call can do: nothing, or put one row with the next version of its key behind the
    others. -/
theorem run_cases (valid : Valid table) (call : Call) :
    (∃ stop, call.run S table = (.error stop, table)) ∨
      ∃ row, row.key = boundText call.key ∧ row.version = currentVersion table call.key + 1 ∧
        call.run S table = (.ok (row.version, row.thetime), table ++ [row]) := by
  by_cases stale : currentVersion table call.key ≠ call.localVer
  · obtain ⟨e,throws⟩ := run_stale (S := S) call stale
    exact Or.inl ⟨_,throws⟩
  have current : call.localVer = currentVersion table call.key := (not_not.mp stale).symm
  cases call with
  | set key value localVer now =>
    rcases checked_cases S key (_set S key value localVer now) table with invalid | checks
    · exact Or.inl ⟨_,invalid⟩
    · change localVer = currentVersion table key at current
      subst current
      by_cases fits : SetFits S table key value now
      · exact Or.inr ⟨setRow S table key value now,rfl,rfl,checks.trans (_set_writes valid fits)⟩
      · exact Or.inl ⟨_,checks.trans (_set_traps fits)⟩
  | del key localVer now =>
    rcases checked_cases S key (_del key localVer now) table with invalid | checks
    · exact Or.inl ⟨_,invalid⟩
    · change localVer = currentVersion table key at current
      subst current
      cases found : latest table key with
      | none => exact Or.inl ⟨_,checks.trans (_del_missing found)⟩
      | some old =>
        by_cases fits : old.version + 1 < 2 ^ 63 ∧ now.time < 2 ^ 63
        · have same : old.key = boundText key := latest_key valid found
          refine Or.inr ⟨delRow old now,same,?_,
            checks.trans (_del_writes valid found fits.1 fits.2)⟩
          rw [delRow, Call.key, currentVersion_found found]
        · exact Or.inl ⟨_,checks.trans (_del_traps valid found fits)⟩
  | setRemoteVersion key localVer remoteVer now =>
    rcases checked_cases S key (_setRemoteVersion key localVer remoteVer now) table with
      invalid | checks
    · exact Or.inl ⟨_,invalid⟩
    · change localVer = currentVersion table key at current
      subst current
      cases found : latest table key with
      | none => exact Or.inl ⟨_,checks.trans (_setRemoteVersion_missing found)⟩
      | some old =>
        by_cases fits : old.version + 1 < 2 ^ 63 ∧ now.time < 2 ^ 63 ∧ remoteVer < 2 ^ 63
        · have same : old.key = boundText key := latest_key valid found
          refine Or.inr ⟨remoteRow old remoteVer now,same,?_,
            checks.trans (_setRemoteVersion_writes valid found fits.1 fits.2.1 fits.2.2)⟩
          rw [remoteRow, Call.key, currentVersion_found found]
        · exact Or.inl ⟨_,checks.trans (_setRemoteVersion_traps valid found fits)⟩

theorem run_valid (valid : Valid table) (call : Call) : Valid (call.run S table).2 := by
  rcases run_cases (S := S) valid call with ⟨stop,stopped⟩ | ⟨row,same,next,wrote⟩
  · rw [stopped]
    exact valid
  · rw [wrote]
    apply valid.append
    rw [next, same, currentVersion_eq]

end Valid

theorem runAll_valid (S : Settings) (calls : List Call) : Valid (runAll S calls) := by
  have kept : ∀ table, Valid table →
      Valid (calls.foldl (fun table call => (call.run S table).2) table) := by
    induction calls with
    | nil => exact fun _ valid => valid
    | cons call calls ih => exact fun table valid => ih _ (run_valid valid call)
  exact kept [] VersionLog.numbered_nil

theorem versionsOf_valid {table : Table} (valid : Valid table) (key : List Char) :
    versionsOf table key = List.range' 1 (currentVersion table key) := by
  rw [versionsOf, currentVersion_eq, valid.current]
  exact valid (boundText key)

theorem localKeys_once {table : Table} (valid : Valid table) :
    ((localKeys table).map Prod.fst).Nodup := by
  rw [localKeys, List.map_map]
  exact valid.latestRows_nodup

theorem key_mem_localKeys {table : Table} (valid : Valid table) {key : List Char} :
    key ∈ (localKeys table).map Prod.fst ↔ key ∈ table.map Row.key := by
  rw [localKeys, List.map_map]
  exact valid.key_mem_latestRows

theorem mem_localKeys {table : Table} (valid : Valid table) {key : List Char}
    {version thetime remote_version : Nat} {deleted : Bool} :
    (key, version, thetime, remote_version, deleted) ∈ localKeys table ↔
      ∃ value, VersionLog.latest Row.key Row.version table key =
        some { version, remote_version, key, value, thetime, deleted } := by
  rw [localKeys, List.mem_map]
  constructor
  · rintro ⟨row,mem,same⟩
    cases same
    exact ⟨row.value,valid.mem_latestRows.mp mem⟩
  · rintro ⟨value,found⟩
    let row : Row := { version, remote_version, key, value, thetime, deleted }
    exact ⟨row,valid.mem_latestRows.mpr found,rfl⟩

end ReplicatedStore
