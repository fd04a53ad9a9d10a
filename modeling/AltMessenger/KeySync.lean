import AltMessenger.FaultyState
import AltMessenger.ReplicatedStore

/-!
The sync of one key: `syncKey`, and the kernel `_syncKey` it shares with `syncAllKeys`. What the
local store and the remote one do at each step is given; a sync keeps beside them whether one is
running and what its completion handler was called with. Times are in milliseconds.
-/
namespace KeySync
open FaultyState ReplicatedStore

inductive BRRemoteKVStoreError where
  | notFound
  | conflict
  | tombstone
  | unknown
  deriving DecidableEq, Repr

/-- (remoteVersion, remoteDate, remoteErr?) -/
structure Answer where
  version : Nat
  date : Nat
  error : Option BRRemoteKVStoreError

structure Steps (σ : Type) where
  encryptedReplication : Bool
  checkKey : List Char → Except Stop Unit
  remoteVersion : List Char → Act Stop σ Nat
  get : List Char → Act Stop σ (Nat × Nat × Bool × List UInt8)
  encrypt : List UInt8 → Act Stop σ (List UInt8)
  decrypt : List UInt8 → Act Stop σ (List UInt8)
  setRemoteVersion : List Char → Nat → Nat → Act Stop σ (Nat × Nat)
  _set : List Char → List UInt8 → Nat → Act Stop σ (Nat × Nat)
  _del : List Char → Nat → Act Stop σ (Nat × Nat)
  del : List Char → Nat → Act Stop σ (Nat × Nat)
  ver : List Char → σ → Answer × σ
  remotePut : List Char → List UInt8 → Nat → σ → Answer × σ
  remoteDel : List Char → Nat → σ → Answer × σ
  remoteGet : List Char → Nat → σ → (Answer × List UInt8) × σ

structure Sync (σ : Type) where
  world : σ
  syncRunning : Bool
  completions : List (Option BRReplicatedKVStoreError)

abbrev Op (σ : Type) := Act Stop (Sync σ)

variable {σ α β : Type}

/-- A step on the local store. -/
def here (step : Act Stop σ α) : Op σ α := act fun s =>
  ((exec step s.world).1, { s with world := (exec step s.world).2 })

/-- A call of the remote store, up to its answer. -/
def asked (step : σ → α × σ) : Op σ α := act fun s =>
  (.ok (step s.world).1, { s with world := (step s.world).2 })

/-- A fault that ends the process is not caught. -/
def caught (handle : BRReplicatedKVStoreError → Op σ α) : Stop → Op σ α
  | .throws e => handle e
  | .trap trap => throw (.trap trap)

/-- `do … catch` around local writes: what goes to the completion handler. -/
def attempt (writes : Op σ α)
    (handle : BRReplicatedKVStoreError → Op σ (Option BRReplicatedKVStoreError)) :
    Op σ (Option BRReplicatedKVStoreError) :=
  tryCatch (do let _ ← writes
               pure none) (caught handle)

section Attempt
variable {writes : Op σ α} {s t : Sync σ}
  {handle : BRReplicatedKVStoreError → Op σ (Option BRReplicatedKVStoreError)}

theorem attempt_ran {a : α} (ran : exec writes s = (.ok a, t)) :
    exec (attempt writes handle) s = (.ok none, t) := by
  rw [attempt, exec_tryCatch, bind_ran ran]
  rfl

theorem attempt_thrown {e : BRReplicatedKVStoreError} (thrown : exec writes s = (throwing e, t)) :
    exec (attempt writes handle) s = exec (handle e) t := by
  rw [attempt, exec_tryCatch, bind_stopped thrown]
  rfl

theorem attempt_trapped {trap : SwiftRuntime.Trap}
    (trapped : exec writes s = (.error (.trap trap), t)) :
    exec (attempt writes handle) s = (.error (.trap trap), t) := by
  rw [attempt, exec_tryCatch, bind_stopped trapped]
  rfl

end Attempt

/-- `try?` -/
def ignored (x : Op σ α) : Op σ Unit :=
  tryCatch (do let _ ← x
               pure ()) (caught fun _ => pure ())

section Kernel
variable (steps : Steps σ) (key : List Char)

/-- `encryptedReplication ? try encrypt(value) : value` -/
def replicated (value : List UInt8) : Op σ (List UInt8) :=
  if steps.encryptedReplication then here (steps.encrypt value) else pure value

/-- `encryptedReplication ? try decrypt(remoteData) : remoteData` -/
def unreplicated (remoteData : List UInt8) : Op σ (List UInt8) :=
  if steps.encryptedReplication then here (steps.decrypt remoteData) else pure remoteData

def localState : Op σ (Nat × Nat × Bool × List UInt8) :=
  tryCatch (do
    let (localVer, localTime, localDeleted, localValue) ← here (steps.get key)
    let localValue ← replicated steps localValue
    pure (localVer, localTime, localDeleted, localValue)) (caught fun
      | .notFound => pure (0, 0, false, [])
      | e => throw (.throws e))

/-- The writes for a value that was fetched. -/
def takeValue (localVer : Nat) (remoteData : List UInt8) (newRemoteVer : Nat) :
    Op σ (Nat × Nat) := do
  let decryptedValue ← unreplicated steps remoteData
  let (newLocalVer, _) ← here (steps._set key decryptedValue localVer)
  here (steps.setRemoteVersion key newLocalVer newRemoteVer)

/-- A fetched value that does not decrypt is deleted locally. -/
def pullCaught (localVer : Nat) :
    BRReplicatedKVStoreError → Op σ (Option BRReplicatedKVStoreError)
  | .malformedData => do
    ignored (here (steps.del key localVer))
    pure (some .malformedData)
  | e => pure (some e)

variable (completionHandler : Option BRReplicatedKVStoreError → Op σ β)

/-- It was removed on both the server and locally. -/
def bothDeleted (localVer remoteVer : Nat) : Op σ β := do
  let failed ← attempt (here (steps.setRemoteVersion key localVer remoteVer)) fun e => pure (some e)
  completionHandler failed

def pushDeletion (localVer remoteVer : Nat) : Op σ β := do
  let answer ← asked (steps.remoteDel key remoteVer)
  if answer.error = some .notFound then completionHandler none
  else if answer.error ≠ none then completionHandler (some .replicationError)
  else
    let failed ← attempt (here (steps.setRemoteVersion key localVer answer.version)) fun e =>
      pure (some e)
    completionHandler failed

def pushValue (localVer : Nat) (localValue : List UInt8) (remoteVer recordedRemoteVersion : Nat) :
    Op σ β := do
  let useRemoteVer := if remoteVer = 0 ∨ remoteVer < recordedRemoteVersion then 1 else remoteVer
  let answer ← asked (steps.remotePut key localValue useRemoteVer)
  if answer.error ≠ none then completionHandler (some .replicationError)
  else
    let failed ← attempt (here (steps.setRemoteVersion key localVer answer.version)) fun e =>
      pure (some e)
    completionHandler failed

def pullDeletion (localVer remoteVer : Nat) : Op σ β := do
  let failed ← attempt (do
    let (newLocalVer, _) ← here (steps._del key localVer)
    here (steps.setRemoteVersion key newLocalVer remoteVer)) fun
      | .notFound => pure none
      | e => pure (some e)
  completionHandler failed

def pullValue (localVer remoteVer : Nat) : Op σ β := do
  let (answer, remoteData) ← asked (steps.remoteGet key remoteVer)
  if answer.error ≠ none then completionHandler (some .replicationError)
  else
    let failed ← attempt (takeValue steps key localVer remoteData answer.version)
      (pullCaught steps key localVer)
    completionHandler failed

/-- Both sides known: the newer one wins, the local one on a tie. -/
def settle (remoteVer rt : Nat) (remoteErr : Option BRRemoteKVStoreError)
    (recordedRemoteVersion : Nat) (localRow : Nat × Nat × Bool × List UInt8) : Op σ β :=
  let (localVer, lt, localDeleted, localValue) := localRow
  if remoteErr = none ∨ remoteErr = some .tombstone ∨ remoteErr = some .notFound then
    if localDeleted ∧ remoteErr = some .tombstone then
      bothDeleted steps key completionHandler localVer remoteVer
    else if lt > rt ∨ lt = rt then
      if localDeleted then pushDeletion steps key completionHandler localVer remoteVer
      else pushValue steps key completionHandler localVer localValue remoteVer recordedRemoteVersion
    else if remoteErr = some .tombstone then
      pullDeletion steps key completionHandler localVer remoteVer
    else pullValue steps key completionHandler localVer remoteVer
  else completionHandler (some .replicationError)

/-- The sync kernel, given what the remote store says of the key. -/
def _syncKey (remoteVer remoteTime : Nat) (remoteErr : Option BRRemoteKVStoreError) :
    Op σ β := do
  let running := (← get).syncRunning
  if ¬ running then throw (.throws .unknown)
  else
    let recordedRemoteVersion ← here (steps.remoteVersion key)
    if remoteErr ≠ some .notFound ∧ remoteVer > 0 ∧ recordedRemoteVersion = remoteVer then
      completionHandler none
    else
      let localRow ← localState steps key
      settle steps key completionHandler remoteVer remoteTime remoteErr recordedRemoteVersion
        localRow

end Kernel

def complete (e : Option BRReplicatedKVStoreError) : Op σ Unit :=
  modify fun s => { s with completions := s.completions ++ [e] }

def setRunning (running : Bool) : Op σ Unit := modify fun s => { s with syncRunning := running }

def myCompletionHandler (e : Option BRReplicatedKVStoreError) : Op σ Unit := do
  complete e
  setRunning false

/-- `remote` is what the caller knows of the remote version and its date; where it knows
    nothing the remote store is asked, and what `_syncKey` throws then is dropped. -/
def syncKey (steps : Steps σ) (key : List Char) (remote : Option (Nat × Nat))
    (remoteErr : Option BRRemoteKVStoreError) : Op σ Unit := do
  lift (steps.checkKey key)
  let running := (← get).syncRunning
  if running then throw (.throws .alreadyReplicating)
  else
    setRunning true
    match remote with
    | some (remoteVersion, remoteTime) =>
      _syncKey steps key myCompletionHandler remoteVersion remoteTime remoteErr
    | none =>
      let answer ← asked (steps.ver key)
      ignored (_syncKey steps key myCompletionHandler answer.version answer.date answer.error)

section Completion
variable (steps : Steps σ) (key : List Char)
  (completionHandler : Option BRReplicatedKVStoreError → Op σ β)

theorem bothDeleted_completes (localVer remoteVer : Nat) :
    bothDeleted steps key completionHandler localVer remoteVer =
      bothDeleted steps key pure localVer remoteVer >>= completionHandler := by
  simp [bothDeleted]

theorem pushDeletion_completes (localVer remoteVer : Nat) :
    pushDeletion steps key completionHandler localVer remoteVer =
      pushDeletion steps key pure localVer remoteVer >>= completionHandler := by
  simp only [pushDeletion, bind_assoc]
  congr 1
  funext answer
  split_ifs <;> simp

theorem pushValue_completes (localVer : Nat) (localValue : List UInt8)
    (remoteVer recordedRemoteVersion : Nat) :
    pushValue steps key completionHandler localVer localValue remoteVer recordedRemoteVersion =
      pushValue steps key pure localVer localValue remoteVer recordedRemoteVersion >>=
        completionHandler := by
  simp only [pushValue, bind_assoc]
  congr 1
  funext answer
  split_ifs <;> simp

theorem pullDeletion_completes (localVer remoteVer : Nat) :
    pullDeletion steps key completionHandler localVer remoteVer =
      pullDeletion steps key pure localVer remoteVer >>= completionHandler := by
  simp [pullDeletion]

theorem pullValue_completes (localVer remoteVer : Nat) :
    pullValue steps key completionHandler localVer remoteVer =
      pullValue steps key pure localVer remoteVer >>= completionHandler := by
  simp only [pullValue, bind_assoc]
  congr 1
  funext answer
  split_ifs <;> simp

theorem settle_completes (remoteVer rt : Nat) (remoteErr : Option BRRemoteKVStoreError)
    (recordedRemoteVersion : Nat) (localRow : Nat × Nat × Bool × List UInt8) :
    settle steps key completionHandler remoteVer rt remoteErr recordedRemoteVersion localRow =
      settle steps key pure remoteVer rt remoteErr recordedRemoteVersion localRow >>=
        completionHandler := by
  obtain ⟨localVer,lt,localDeleted,localValue⟩ := localRow
  simp only [settle]
  split_ifs
  · exact bothDeleted_completes steps key completionHandler localVer remoteVer
  · exact pushDeletion_completes steps key completionHandler localVer remoteVer
  · exact pushValue_completes steps key completionHandler localVer localValue remoteVer
      recordedRemoteVersion
  · exact pullDeletion_completes steps key completionHandler localVer remoteVer
  · exact pullValue_completes steps key completionHandler localVer remoteVer
  · simp

/-- The kernel calls its completion handler once, as the last thing it does, or it throws
    and does not call it. -/
theorem _syncKey_completes (remoteVer remoteTime : Nat)
    (remoteErr : Option BRRemoteKVStoreError) :
    _syncKey steps key completionHandler remoteVer remoteTime remoteErr =
      _syncKey steps key pure remoteVer remoteTime remoteErr >>= completionHandler := by
  simp only [_syncKey, bind_assoc]
  congr 1
  funext s
  by_cases running : s.syncRunning
  case neg =>
    rw [if_pos running, if_pos running]
    rfl
  rw [if_neg (not_not.mpr running), if_neg (not_not.mpr running), bind_assoc]
  congr 1
  funext recorded
  split_ifs
  · simp
  · rw [bind_assoc]
    congr 1
    funext localRow
    exact settle_completes steps key completionHandler remoteVer remoteTime remoteErr recorded
      localRow

end Completion

end KeySync
