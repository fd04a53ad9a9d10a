import Mathlib.Data.PNat.Basic
import AltMessenger.KeySync

/-!
A sync between the table of `ReplicatedStore` and a remote store that keeps its promises: it
gives a key versions from 1 on, takes a change only on top of the version it has, and answers
with the version it has then. Nobody else writes meanwhile.
-/
namespace RemoteStore
open FaultyState ReplicatedStore KeySync

inductive Remote where
  | absent
  | present (version : ℕ+) (date : Nat) (data : List UInt8)
  | deleted (version : ℕ+) (date : Nat)

/-- What the server is free in: which versions create a key, and how it counts. -/
structure Server where
  creates : Nat → Bool
  first : ℕ+
  next : ℕ+ → ℕ+

/-- The clocks, read anew at each step. A stored time comes back through a `Date`, a fraction of
    seconds, as another number of milliseconds. -/
structure Env where
  settings : Settings
  server : Server
  moments : Nat → Moment
  dates : Nat → Nat
  readTime : Nat → Nat

inductive Request where
  | put (value : List UInt8) (version : Nat)
  | del (version : Nat)

def plainEnv : Env where
  settings := plainSettings
  server := ⟨fun version => version = 1,1,fun version => version + 1⟩
  moments tick := ⟨3000 + tick,[]⟩
  dates tick := 3000 + tick
  readTime := id

structure World where
  table : Table
  remote : Remote
  tick : Nat
  /-- the changes asked of the remote store -/
  requests : List Request

def Remote.put (server : Server) (date : Nat) (value : List UInt8) (version : Nat) :
    Remote → Answer × Remote
  | .absent =>
    if server.creates version then
      (⟨server.first,date,none⟩, .present server.first date value)
    else (⟨0,date,some .conflict⟩, .absent)
  | .present old was data =>
    if version = old then
      (⟨server.next old,date,none⟩, .present (server.next old) date value)
    else (⟨old,was,some .conflict⟩, .present old was data)
  | .deleted old was =>
    if version = old then
      (⟨server.next old,date,none⟩, .present (server.next old) date value)
    else (⟨old,was,some .conflict⟩, .deleted old was)

def Remote.del (server : Server) (date : Nat) (version : Nat) : Remote → Answer × Remote
  | .absent => (⟨0,date,some .notFound⟩, .absent)
  | .present old was data =>
    if version = old then (⟨server.next old,date,none⟩, .deleted (server.next old) date)
    else (⟨old,was,some .conflict⟩, .present old was data)
  | .deleted old was =>
    if version = old then (⟨server.next old,date,none⟩, .deleted (server.next old) date)
    else (⟨old,was,some .conflict⟩, .deleted old was)

def Remote.ver (date : Nat) : Remote → Answer
  | .absent => ⟨0,date,some .notFound⟩
  | .present version was _ => ⟨version,was,none⟩
  | .deleted version was => ⟨version,was,some .tombstone⟩

def Remote.get (date : Nat) (version : Nat) : Remote → Answer × List UInt8
  | .absent => (⟨0,date,some .notFound⟩, [])
  | .present old was data =>
    if version = 0 ∨ version = old then (⟨old,was,none⟩, data) else (⟨old,was,some .conflict⟩, [])
  | .deleted old was => (⟨old,was,some .tombstone⟩, [])

/-- `encrypted ? try decrypt(value) : value` -/
def opened (encrypted : Bool) (S : Settings) (value : List UInt8) : Except Stop (List UInt8) :=
  if encrypted then
    match S.cipher.decrypt value with
    | some plain => .ok plain
    | none => throwing .malformedData
  else .ok value

/-- `SELECT value, length(value), thetime, deleted … WHERE key=? AND version=? LIMIT 1`; the
    columns of a row that is not there read as zero. -/
def rowAt (table : Table) (key : List Char) (version : Nat) : List UInt8 × Nat × Bool :=
  match table.find? fun row => row.key = boundText key ∧ row.version = version with
  | some row => (row.value, row.thetime, row.deleted)
  | none => ([], 0, false)

/-- `get`, for the newest version. -/
def get (E : Env) (key : List Char) (table : Table) :
    Except Stop (Nat × Nat × Bool × List UInt8) := do
  checkKey E.settings key
  let (curVer, _) := _localVersion table key
  if curVer = 0 then throwing .notFound
  else
    let (value, thetime, deleted) := rowAt table key curVer
    let value ← opened E.settings.encrypted E.settings value
    pure (curVer, E.readTime thetime, deleted, value)

def recordedVersion (table : Table) (key : List Char) : Nat :=
  match latest table key with
  | some row => row.remote_version
  | none => 0

def remoteVersion (S : Settings) (key : List Char) (table : Table) : Except Stop Nat := do
  checkKey S key
  pure (recordedVersion table key)

/-- A write on the table, at the time it is. -/
def writing {α : Type} (E : Env) (call : Moment → Table → Except Stop α × Table) :
    Act Stop World α := act fun w =>
  ((call (E.moments w.tick) w.table).1,
    { w with table := (call (E.moments w.tick) w.table).2, tick := w.tick + 1 })

/-- A change was asked of the remote store, which is then this. -/
def World.asking (w : World) (request : Request) (remote : Remote) : World :=
  { w with remote, tick := w.tick + 1, requests := w.requests ++ [request] }

def steps (E : Env) : Steps World where
  encryptedReplication := E.settings.encryptedReplication
  checkKey := checkKey E.settings
  remoteVersion key := act fun w => (remoteVersion E.settings key w.table, w)
  get key := act fun w => (get E key w.table, w)
  encrypt value := act fun w =>
    (.ok (E.settings.cipher.encrypt (E.moments w.tick).nonce value), { w with tick := w.tick + 1 })
  decrypt value := lift (opened true E.settings value)
  setRemoteVersion key localVer remoteVer := writing E fun now =>
    setRemoteVersion E.settings key localVer remoteVer now
  _set key value localVer := writing E fun now => ReplicatedStore._set E.settings key value localVer now
  _del key localVer := writing E fun now => ReplicatedStore._del key localVer now
  del key localVer := writing E fun now => ReplicatedStore.del E.settings key localVer now
  ver _ w := (w.remote.ver (E.dates w.tick), w)
  remotePut _ value version w :=
    ((w.remote.put E.server (E.dates w.tick) value version).1,
      w.asking (.put value version) (w.remote.put E.server (E.dates w.tick) value version).2)
  remoteDel _ version w :=
    ((w.remote.del E.server (E.dates w.tick) version).1,
      w.asking (.del version) (w.remote.del E.server (E.dates w.tick) version).2)
  remoteGet _ version w := (w.remote.get (E.dates w.tick) version, w)

def World.ticked (w : World) : World := { w with tick := w.tick + 1 }

/-- A write took its time and put a row behind the others. -/
def World.wrote (w : World) (row : Row) : World :=
  { w with table := w.table ++ [row], tick := w.tick + 1 }

def placed (s : Sync World) (w : World) : Sync World := { s with world := w }

section Local
variable {E : Env} {key : List Char} {w : World} {s : Sync World} {old : Row}

theorem rowAt_latest {table : Table} (valid : Valid table) (found : latest table key = some old) :
    rowAt table key old.version = (old.value, old.thetime, old.deleted) := by
  have first : table.find? (fun row => row.key = boundText key ∧ row.version = old.version) =
      some old := by
    rw [← List.head?_filter, latest_selected valid found]
    rfl
  rw [rowAt, first]

theorem get_missing {table : Table} (valid_key : E.settings.keyRegex key)
    (missing : latest table key = none) : get E key table = throwing .notFound := by
  have none_current : (_localVersion table key).1 = 0 := currentVersion_missing missing
  simp only [get, checkKey, if_pos valid_key, none_current]
  rfl

theorem get_found {table : Table} (valid_key : E.settings.keyRegex key) (valid : Valid table)
    (found : latest table key = some old) :
    get E key table = (do
      let value ← opened E.settings.encrypted E.settings old.value
      pure (old.version, E.readTime old.thetime, old.deleted, value)) := by
  have current : (_localVersion table key).1 = old.version := currentVersion_found found
  have positive := latest_positive valid found
  simp only [get, checkKey, if_pos valid_key, current]
  rw [if_neg (by omega), rowAt_latest valid found]
  rfl

/-- What goes to the remote store for a value. -/
def outgoing (E : Env) (tick : Nat) (value : List UInt8) : List UInt8 :=
  if E.settings.encryptedReplication then
    E.settings.cipher.encrypt (E.moments tick).nonce value
  else value

/-- The world once the local row was read for a sync: an encryption takes its time. -/
def World.read (E : Env) (w : World) : World :=
  if E.settings.encryptedReplication then w.ticked else w

theorem replicated_spec {value : List UInt8} :
    exec (replicated (steps E) value) (placed s w) =
      (.ok (outgoing E w.tick value), placed s (w.read E)) := by
  rw [replicated, outgoing, World.read]
  by_cases encrypted : E.settings.encryptedReplication
  · rw [if_pos encrypted, if_pos encrypted, if_pos]
    · rfl
    · exact encrypted
  · rw [if_neg encrypted, if_neg encrypted, if_neg]
    · rfl
    · exact encrypted

theorem localState_missing (valid_key : E.settings.keyRegex key)
    (missing : latest w.table key = none) :
    exec (localState (steps E) key) (placed s w) = (.ok (0, 0, false, []), placed s w) := by
  have read : exec (here ((steps E).get key)) (placed s w) = (throwing .notFound, placed s w) := by
    rw [here, exec_act]
    simp only [placed, steps, exec_act, get_missing valid_key missing]
  rw [localState, exec_tryCatch, bind_stopped read]
  rfl

theorem localState_found (valid_key : E.settings.keyRegex key) (valid : Valid w.table)
    (found : latest w.table key = some old) {plain : List UInt8}
    (opens : opened E.settings.encrypted E.settings old.value = .ok plain) :
    exec (localState (steps E) key) (placed s w) =
      (.ok (old.version, E.readTime old.thetime, old.deleted, outgoing E w.tick plain),
        placed s (w.read E)) := by
  have read : exec (here ((steps E).get key)) (placed s w) =
      (.ok (old.version, E.readTime old.thetime, old.deleted, plain), placed s w) := by
    rw [here, exec_act]
    simp only [placed, steps, exec_act, get_found valid_key valid found, opens]
    rfl
  rw [localState, exec_tryCatch, bind_ran read, bind_ran replicated_spec]
  rfl

theorem localState_malformed (valid_key : E.settings.keyRegex key) (valid : Valid w.table)
    (found : latest w.table key = some old)
    (malformed : opened E.settings.encrypted E.settings old.value = throwing .malformedData) :
    exec (localState (steps E) key) (placed s w) = (throwing .malformedData, placed s w) := by
  have read : exec (here ((steps E).get key)) (placed s w) =
      (throwing .malformedData, placed s w) := by
    rw [here, exec_act]
    simp only [placed, steps, exec_act, get_found valid_key valid found, malformed]
    rfl
  rw [localState, exec_tryCatch, bind_stopped read]
  rfl

theorem opened_cases (encrypted : Bool) (S : Settings) (value : List UInt8) :
    (∃ plain, opened encrypted S value = .ok plain) ∨
      opened encrypted S value = throwing .malformedData := by
  rw [opened]
  cases encrypted with
  | false => exact Or.inl ⟨value,rfl⟩
  | true =>
    cases S.cipher.decrypt value with
    | none => exact Or.inr rfl
    | some plain => exact Or.inl ⟨plain,rfl⟩

/-- The version of the remote store and what goes with it fit their integers. -/
def RecordFits (E : Env) (w : World) (version remoteVer : Nat) : Prop :=
  version + 1 < 2 ^ 63 ∧ (E.moments w.tick).time < 2 ^ 63 ∧ remoteVer < 2 ^ 63

section Record
variable (valid_key : E.settings.keyRegex key) (valid : Valid w.table)
  (found : latest w.table key = some old) {remoteVer : Nat}
include valid_key valid found

theorem record_fits (fits : RecordFits E w old.version remoteVer) :
    exec (here ((steps E).setRemoteVersion key old.version remoteVer)) (placed s w) =
      (.ok (old.version + 1, (E.moments w.tick).time),
        placed s (w.wrote (remoteRow old remoteVer (E.moments w.tick)))) := by
  have wrote : _setRemoteVersion key (currentVersion w.table key) remoteVer (E.moments w.tick)
      w.table = _ := _setRemoteVersion_writes valid found fits.1 fits.2.1 fits.2.2
  rw [currentVersion_found found] at wrote
  rw [here, exec_act]
  simp only [placed, steps, writing, exec_act, setRemoteVersion, checked_ok valid_key, wrote]
  rfl

theorem record_faults (large : ¬ RecordFits E w old.version remoteVer) :
    exec (here ((steps E).setRemoteVersion key old.version remoteVer)) (placed s w) =
      (.error (.trap .conversion), placed s w.ticked) := by
  have traps := _setRemoteVersion_traps valid found large
  rw [currentVersion_found found] at traps
  rw [here, exec_act]
  simp only [placed, steps, writing, exec_act, setRemoteVersion, checked_ok valid_key, traps]
  rfl

end Record

theorem record_missing (valid_key : E.settings.keyRegex key)
    (missing : latest w.table key = none) {remoteVer : Nat} :
    exec (here ((steps E).setRemoteVersion key 0 remoteVer)) (placed s w) =
      (throwing .conflict, placed s w.ticked) := by
  have throws : _setRemoteVersion key (currentVersion w.table key) remoteVer (E.moments w.tick)
      w.table = _ := _setRemoteVersion_missing missing
  rw [currentVersion_missing missing] at throws
  rw [here, exec_act]
  simp only [placed, steps, writing, exec_act, setRemoteVersion, checked_ok valid_key, throws]
  rfl

/-- A deletion and its time fit their integers. -/
def DelFits (E : Env) (w : World) (version : Nat) : Prop :=
  version + 1 < 2 ^ 63 ∧ (E.moments w.tick).time < 2 ^ 63

theorem del_fits (valid : Valid w.table) (found : latest w.table key = some old)
    (fits : DelFits E w old.version) :
    exec (here ((steps E)._del key old.version)) (placed s w) =
      (.ok (old.version + 1, (E.moments w.tick).time),
        placed s (w.wrote (delRow old (E.moments w.tick)))) := by
  have wrote : _del key (currentVersion w.table key) (E.moments w.tick) w.table = _ :=
    _del_writes valid found fits.1 fits.2
  rw [currentVersion_found found] at wrote
  rw [here, exec_act]
  simp only [placed, steps, writing, exec_act, wrote]
  rfl

theorem del_faults (valid : Valid w.table) (found : latest w.table key = some old)
    (large : ¬ DelFits E w old.version) :
    exec (here ((steps E)._del key old.version)) (placed s w) =
      (.error (.trap .conversion), placed s w.ticked) := by
  have traps := _del_traps valid found large
  rw [currentVersion_found found] at traps
  rw [here, exec_act]
  simp only [placed, steps, writing, exec_act, traps]
  rfl

theorem del_missing :
    exec (here ((steps E)._del key 0)) (placed s w) = (throwing .notFound, placed s w.ticked) :=
  rfl

theorem set_fits (valid : Valid w.table) {value : List UInt8}
    (fits : SetFits E.settings w.table key value (E.moments w.tick)) :
    exec (here ((steps E)._set key value (currentVersion w.table key))) (placed s w) =
      (.ok (currentVersion w.table key + 1, (E.moments w.tick).time),
        placed s (w.wrote (setRow E.settings w.table key value (E.moments w.tick)))) := by
  have wrote := _set_writes valid fits
  rw [here, exec_act]
  simp only [placed, steps, writing, exec_act, wrote]
  rfl

theorem set_faults {value : List UInt8}
    (large : ¬ SetFits E.settings w.table key value (E.moments w.tick)) :
    exec (here ((steps E)._set key value (currentVersion w.table key))) (placed s w) =
      (.error (.trap .conversion), placed s w.ticked) := by
  have traps := _set_traps large
  rw [here, exec_act]
  simp only [placed, steps, writing, exec_act, traps]
  rfl

end Local

end RemoteStore
