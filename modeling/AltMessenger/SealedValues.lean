import AltMessenger.RemoteStore
import AltMessenger.SealedData

/-!
The key value store over values that are sealed in fact: what a read gives back of a row, and what
a sync writes of a value that it fetched. The remote store answers as it likes.
-/
namespace SealedValues
open FaultyState SwiftRuntime ReplicatedStore KeySync SealedData

structure Store (Key : Type) where
  primitives : Primitives Key
  secret : Key
  keyRegex : List Char → Bool
  encrypted : Bool
  encryptedReplication : Bool
  /-- the clock at each step -/
  clock : Nat → Timeval
  ver : Nat → Answer
  put : Nat → Answer
  removed : Nat → Answer
  fetched : Nat → Answer × List UInt8

structure World where
  table : Table
  tick : Nat
  /-- the values that were stored -/
  stored : List (List UInt8)

variable {Key : Type} (S : Store Key)

namespace Store

/-- The table takes values as they are sealed before. -/
def rows : Settings := { plainSettings with keyRegex := S.keyRegex }

def encrypt (now : Timeval) (data : List UInt8) : List UInt8 :=
  chacha20Poly1305AEADEncrypt S.primitives S.secret now data

def decrypt (data : List UInt8) : Except Stop (List UInt8) :=
  chacha20Poly1305AEADDecrypt S.primitives S.secret data

/-- `encrypted ? try encrypt(value) : value` -/
def sealing (now : Timeval) (value : List UInt8) : List UInt8 :=
  if S.encrypted then S.encrypt now value else value

/-- `encrypted ? try decrypt(ret) : ret` -/
def opening (value : List UInt8) : Except Stop (List UInt8) :=
  if S.encrypted then S.decrypt value else .ok value

end Store

/-- The time of a row, and no nonce, as its value is sealed. -/
def moment (now : Timeval) : Moment := ⟨(now.tv_sec * 1000 + now.tv_usec / 1000).toNat,[]⟩

/-- The version that is there of a key: the newest, or the one that is asked for. -/
def currentVer (table : Table) (key : List Char) (version : Nat) : Except Stop Nat :=
  if version = 0 then .ok (_localVersion table key).1
  else do
    let version ← int64 version
    if table.any fun row => row.key = boundText key ∧ row.version = version then .ok version
    else .ok 0

def Store.get (key : List Char) (version : Nat) (table : Table) :
    Except Stop (Nat × Nat × Bool × List UInt8) := do
  checkKey S.rows key
  let curVer ← currentVer table key version
  if curVer = 0 then throwing .notFound
  else
    let (ret, time, deleted) := RemoteStore.rowAt table key curVer
    let value ← S.opening ret
    pure (curVer, time, deleted, value)

def Store._set (key : List Char) (value : List UInt8) (localVer : Nat) (now : Timeval) :
    Table → Except Stop (Nat × Nat) × Table :=
  ReplicatedStore._set S.rows key (S.sealing now value) localVer (moment now)

/-- A write on the table, and the values that it stores. -/
def writing (values : List (List UInt8))
    (call : Timeval → Table → Except Stop (Nat × Nat) × Table) : Act Stop World (Nat × Nat) :=
  act fun w =>
    match call (S.clock w.tick) w.table with
    | (.ok written, table) => (.ok written, ⟨table,w.tick + 1,w.stored ++ values⟩)
    | (.error stop, table) => (.error stop, { w with table, tick := w.tick + 1 })

def steps : Steps World where
  encryptedReplication := S.encryptedReplication
  checkKey := checkKey S.rows
  remoteVersion key := act fun w => (RemoteStore.remoteVersion S.rows key w.table, w)
  get key := act fun w => (S.get key 0 w.table, w)
  encrypt value := act fun w =>
    (.ok (S.encrypt (S.clock w.tick) value), { w with tick := w.tick + 1 })
  decrypt value := lift (S.decrypt value)
  setRemoteVersion key localVer remoteVer := writing S [] fun now =>
    ReplicatedStore.setRemoteVersion S.rows key localVer remoteVer (moment now)
  _set key value localVer := writing S [value] (S._set key value localVer)
  _del key localVer := writing S [] fun now => ReplicatedStore._del key localVer (moment now)
  del key localVer := writing S [] fun now => ReplicatedStore.del S.rows key localVer (moment now)
  ver _ w := (S.ver w.tick, w)
  remotePut _ _ _ w := (S.put w.tick, { w with tick := w.tick + 1 })
  remoteDel _ _ w := (S.removed w.tick, { w with tick := w.tick + 1 })
  remoteGet _ _ w := (S.fetched w.tick, w)

/-- What the adoption of a newer remote value stores, from a table on. -/
def storedBy (key : List Char) (localVer remoteVer : Nat) (table : Table) (tick : Nat) :
    List (List UInt8) :=
  (exec (pullValue (steps S) key pure localVer remoteVer) ⟨⟨table,tick,[]⟩,true,[]⟩).2.world.stored

/-- The table takes a value of the length as the next version of the key. -/
def Takes (key : List Char) (localVer : Nat) (now : Timeval) (table : Table) (length : Nat) :
    Prop :=
  currentVersion table key = localVer ∧ localVer + 1 < 2 ^ 63 ∧
    length + (if S.encrypted then 28 else 0) < 2 ^ 31 ∧ (moment now).time < 2 ^ 63 ∧
    ∀ old ∈ table, ¬ (old.key = boundText key ∧ old.version = localVer + 1)

section Local
variable {S} {key : List Char} {localVer : Nat} {now : Timeval} {table : Table}
  {value : List UInt8}

theorem sealing_length : (S.sealing now value).length =
    value.length + if S.encrypted then 28 else 0 := by
  rw [Store.sealing]
  by_cases encrypted : S.encrypted = true
  · rw [if_pos encrypted, if_pos encrypted, Store.encrypt]
    by_cases short : Short value
    · rw [encrypt_short short, sealed_length (nonce_length now)]
    · rw [encrypt_long short, List.length_append, nonce_length, List.length_replicate]
      omega
  · rw [if_neg encrypted, if_neg encrypted]
    rfl

theorem insertRow_ran {row : Row} {after : Table} : insertRow table row = .ok after ↔
    (∀ old ∈ table, ¬ (old.key = row.key ∧ old.version = row.version)) ∧
      after = table ++ [row] := by
  have taken : (table.any fun old => old.key = row.key ∧ old.version = row.version) = true ↔
      ∃ old ∈ table, old.key = row.key ∧ old.version = row.version := by
    rw [List.any_eq_true]
    simp only [decide_eq_true_eq]
  rw [insertRow]
  split
  case isTrue there =>
    refine iff_of_false ?_ fun met => ?_
    · intro same
      cases same
    · obtain ⟨old,mem,same⟩ := taken.mp there
      exact met.1 old mem same
  case isFalse free =>
    have others : ∀ old ∈ table, ¬ (old.key = row.key ∧ old.version = row.version) :=
      fun old mem same => free (taken.mpr ⟨old,mem,same⟩)
    rw [and_iff_right others]
    exact ⟨fun same => (Except.ok.inj same).symm,fun same => congrArg _ same.symm⟩

/-- `_set` returns exactly if the table takes the value. -/
theorem _set_returns_iff : (∃ written after, S._set key value localVer now table =
    (.ok written, after)) ↔ Takes S key localVer now table value.length := by
  have binds : SetFits S.rows table key (S.sealing now value) (moment now) ↔
      currentVersion table key + 1 < 2 ^ 63 ∧
        value.length + (if S.encrypted then 28 else 0) < 2 ^ 31 ∧ (moment now).time < 2 ^ 63 := by
    rw [← sealing_length]
    rfl
  rw [Store._set, Takes]
  by_cases current : currentVersion table key = localVer
  · subst current
    by_cases fits : SetFits S.rows table key (S.sealing now value) (moment now)
    · obtain ⟨version,size,time⟩ := binds.mp fits
      rw [_set_inserts fits, and_iff_right rfl, and_iff_right version, and_iff_right size,
        and_iff_right time]
      constructor
      · rintro ⟨written,after,ran⟩
        let added := setRow S.rows table key (S.sealing now value) (moment now)
        cases row : insertRow table added with
        | error stop =>
          rw [txn_error (bind_halted row)] at ran
          cases ran
        | ok after => exact (insertRow_ran.mp row).1
      · intro free
        exact ⟨_,_,txn_ok (bind_ready (insertRow_ran.mpr ⟨free,rfl⟩))⟩
    · rw [_set_traps fits]
      refine iff_of_false (fun ⟨_,_,ran⟩ => nomatch ran) fun met => fits (binds.mpr ?_)
      exact ⟨met.2.1,met.2.2.1,met.2.2.2.1⟩
  · rw [_set_stale current]
    exact iff_of_false (fun ⟨_,_,ran⟩ => nomatch ran) fun met => current met.1

/-- A read gives nothing back but what the key sealed, exactly if the value that it finds is
    acceptable, or there is nothing to be opened. -/
theorem get_sound_iff (version : Nat) :
    (∀ curVer time deleted data, S.get key version table = .ok (curVer, time, deleted, data) →
        S.encrypted = true →
        Authentic S.primitives S.secret (RemoteStore.rowAt table key curVer).1 data) ↔
      S.encrypted = false ∨ S.keyRegex key = false ∨
        ∀ curVer, currentVer table key version = .ok curVer → 0 < curVer →
          Acceptable S.primitives S.secret (RemoteStore.rowAt table key curVer).1 := by
  have opens : S.keyRegex key = true → ∀ curVer,
      currentVer table key version = .ok curVer → 0 < curVer → S.get key version table = (do
        let data ← S.opening (RemoteStore.rowAt table key curVer).1
        pure (curVer, (RemoteStore.rowAt table key curVer).2.1,
          (RemoteStore.rowAt table key curVer).2.2, data)) := by
    intro valid_key curVer current positive
    have passes : checkKey S.rows key = .ok () := if_pos valid_key
    rw [Store.get, bind_ready passes, bind_ready current, if_neg (by omega)]
  constructor
  · intro sound
    by_contra none_of_them
    obtain ⟨encrypted,valid_key,refused⟩ := by
      simpa only [not_or, Bool.not_eq_false, not_forall] using none_of_them
    obtain ⟨curVer,current,positive,unacceptable⟩ := refused
    refine unacceptable ((decrypt_sound_iff _).mp fun data opened => ?_)
    have read := opens valid_key curVer current positive
    have opening : S.opening (RemoteStore.rowAt table key curVer).1 = .ok data := by
      rw [Store.opening, if_pos encrypted]
      exact opened
    rw [bind_ready opening] at read
    exact sound curVer _ _ data read encrypted
  · intro reason curVer time deleted data read encrypted
    rw [Store.get] at read
    obtain ⟨_,passes,read⟩ := bind_ran.mp read
    obtain ⟨current,found,read⟩ := bind_ran.mp read
    have valid_key : S.keyRegex key = true := by
      by_contra invalid
      have refused : checkKey S.rows key = throwing .invalidKey := if_neg invalid
      rw [refused] at passes
      cases passes
    split at read
    case isTrue => cases read
    case isFalse positive =>
      obtain ⟨opened,ran,read⟩ := bind_ran.mp read
      cases read
      rw [Store.opening, if_pos encrypted] at ran
      rcases reason with plain | invalid | acceptable
      · rw [plain] at encrypted
        cases encrypted
      · rw [invalid] at valid_key
        cases valid_key
      · exact (decrypt_sound_iff _).mpr (acceptable _ found (by omega)) _ ran

end Local

section Pull
variable {S} {key : List Char} {localVer remoteVer tick : Nat} {table : Table} {α β : Type}

/-- The computation stores no value. -/
def StoresNothing (x : Op World α) : Prop :=
  ∀ s, (exec x s).2.world.stored = s.world.stored

theorem writing_nothing (call : Timeval → Table → Except Stop (Nat × Nat) × Table) :
    StoresNothing (here (writing S [] call)) := by
  intro s
  rw [here, exec_act, writing, exec_act]
  rcases call (S.clock s.world.tick) s.world.table with ⟨stop | written,after⟩
  · rfl
  · exact List.append_nil _

theorem bind_nothing {x : Op World α} {f : α → Op World β} (first : StoresNothing x)
    (later : ∀ a, StoresNothing (f a)) : StoresNothing (x >>= f) := by
  intro s
  have kept := first s
  rcases ran : exec x s with ⟨stop | a,t⟩
  · rw [ran] at kept
    rw [FaultyState.bind_stopped ran]
    exact kept
  · rw [ran] at kept
    rw [FaultyState.bind_ran ran, later a t]
    exact kept

theorem ignored_nothing {x : Op World α} (nothing : StoresNothing x) :
    StoresNothing (ignored x) := by
  intro s
  have kept := bind_nothing nothing (fun _ _ => rfl : ∀ _, StoresNothing (pure ())) s
  rw [ignored, exec_tryCatch]
  rcases ran : exec (do let _ ← x
                        pure ()) s with ⟨(error | trap) | a,t⟩
  · rw [ran] at kept
    exact kept
  · rw [ran] at kept
    exact kept
  · rw [ran] at kept
    exact kept

theorem pullCaught_nothing (error : BRReplicatedKVStoreError) :
    StoresNothing (pullCaught (steps S) key localVer error) := by
  cases error with
  | malformedData =>
    have deleted := writing_nothing (S := S) fun now =>
      ReplicatedStore.del S.rows key localVer (moment now)
    exact bind_nothing (ignored_nothing deleted) fun _ _ => rfl
  | _ => exact fun s => rfl

/-- What is stored by writes that are caught is what they store. -/
theorem attempt_stored {writes : Op World α}
    {handle : BRReplicatedKVStoreError → Op World (Option BRReplicatedKVStoreError)}
    (nothing : ∀ error, StoresNothing (handle error)) (s : Sync World) :
    (exec (attempt writes handle) s).2.world.stored = (exec writes s).2.world.stored := by
  rcases ran : exec writes s with ⟨(error | trap) | a,t⟩
  · rw [attempt_thrown ran]
    exact nothing error t
  · rw [attempt_trapped ran]
  · rw [attempt_ran ran]

/-- A fetched value is stored if it opens and the table takes it. -/
theorem storedBy_eq : storedBy S key localVer remoteVer table tick =
    if (S.fetched tick).1.error ≠ none then []
    else match (if S.encryptedReplication then S.decrypt (S.fetched tick).2
        else .ok (S.fetched tick).2) with
      | .error _ => []
      | .ok value =>
        match S._set key value localVer (S.clock tick) table with
        | (.ok _, _) => [value]
        | (.error _, _) => [] := by
  let start : Sync World := ⟨⟨table,tick,[]⟩,true,[]⟩
  have answered : exec (asked ((steps S).remoteGet key remoteVer)) start =
      (.ok (S.fetched tick), start) := rfl
  rw [storedBy, pullValue, FaultyState.bind_ran answered]
  dsimp only
  split
  case isTrue => rfl
  case isFalse =>
    rw [bind_pure, attempt_stored pullCaught_nothing, takeValue]
    have opened : exec (unreplicated (steps S) (S.fetched tick).2) start =
        (if S.encryptedReplication then S.decrypt (S.fetched tick).2
          else .ok (S.fetched tick).2, start) := by
      rw [unreplicated]
      change exec (if S.encryptedReplication = true then _ else _) start = _
      split
      · rfl
      · rfl
    generalize (if S.encryptedReplication then S.decrypt (S.fetched tick).2
      else .ok (S.fetched tick).2) = result at opened ⊢
    cases result with
    | error stop => rw [FaultyState.bind_stopped opened]
    | ok value =>
      rw [FaultyState.bind_ran opened]
      dsimp only
      rcases ran : S._set key value localVer (S.clock tick) table with ⟨stop | written,after⟩
      · have stopped : exec (here ((steps S)._set key value localVer)) start =
            (.error stop, { start with world := ⟨after,tick + 1,[]⟩ }) := by
          simp only [here, steps, writing, exec_act, start, ran]
        rw [FaultyState.bind_stopped stopped]
      · have wrote : exec (here ((steps S)._set key value localVer)) start =
            (.ok written, { start with world := ⟨after,tick + 1,[value]⟩ }) := by
          simp only [here, steps, writing, exec_act, start, ran, List.nil_append]
        rw [FaultyState.bind_ran wrote]
        exact writing_nothing _ _

/-- What a pull stores is what the key sealed, exactly if the fetched data is acceptable, or nothing
    is stored at all. -/
theorem stored_sound_iff :
    (S.encryptedReplication = true → ∀ data ∈ storedBy S key localVer remoteVer table tick,
        Authentic S.primitives S.secret (S.fetched tick).2 data) ↔
      S.encryptedReplication = false ∨ (S.fetched tick).1.error ≠ none ∨
        Acceptable S.primitives S.secret (S.fetched tick).2 ∨
        ¬ Takes S key localVer (S.clock tick) table ((S.fetched tick).2.length - 28) := by
  rw [storedBy_eq]
  cases encrypted : S.encryptedReplication with
  | false => exact iff_of_true (fun same => nomatch same) (Or.inl rfl)
  | true =>
    by_cases failed : (S.fetched tick).1.error ≠ none
    · rw [if_pos failed]
      exact iff_of_true (fun _ _ there => nomatch there) (Or.inr (Or.inl failed))
    · rw [if_neg failed, if_pos rfl, or_iff_right Bool.noConfusion, or_iff_right failed]
      have sound_iff : (∀ data, chacha20Poly1305AEADDecrypt S.primitives S.secret
          (S.fetched tick).2 = .ok data →
            Authentic S.primitives S.secret (S.fetched tick).2 data) ↔
          Acceptable S.primitives S.secret (S.fetched tick).2 :=
        decrypt_sound_iff (S.fetched tick).2
      cases opened : S.decrypt (S.fetched tick).2 with
      | error stop =>
        refine iff_of_true (fun _ _ there => nomatch there) (Or.inl (sound_iff.mp ?_))
        intro data ran
        cases opened.symm.trans ran
      | ok value =>
        by_cases acceptable : Acceptable S.primitives S.secret (S.fetched tick).2
        · refine iff_of_true (fun _ data there => ?_) (Or.inl acceptable)
          have authentic := sound_iff.mpr acceptable value opened
          dsimp only at there
          split at there
          · exact List.mem_singleton.mp there ▸ authentic
          · cases there
        · obtain ⟨long,forged⟩ := not_or.mp acceptable
          have zeros := decrypt_forged (not_le.mp long) forged
          cases opened.symm.trans zeros
          let value : List UInt8 := List.replicate ((S.fetched tick).2.length - 28) 0
          have returns : (∃ written after, S._set key value localVer (S.clock tick) table =
              (.ok written, after)) ↔ Takes S key localVer (S.clock tick) table value.length :=
            _set_returns_iff
          rw [List.length_replicate] at returns
          rw [or_iff_right acceptable, ← returns]
          dsimp only
          split
          case h_1 written after ran =>
            refine iff_of_false (fun sound => ?_) fun refused => refused ⟨_,_,ran⟩
            exact forged ⟨_,sound rfl _ List.mem_cons_self⟩
          case h_2 ran =>
            refine iff_of_true (fun _ _ there => nomatch there) ?_
            rintro ⟨written,after,returned⟩
            cases ran.symm.trans returned

end Pull

/-- When bytes are opened to what the key sealed and to nothing else, when what is sealed opens
    again, and when the store gives back and stores nothing else. -/
theorem authentic_only_iff (now : Timeval) (bytes data : List UInt8) (key : List Char)
    (version localVer remoteVer tick : Nat) (table : Table) :
    ((∀ opened, S.decrypt bytes = .ok opened → Authentic S.primitives S.secret bytes opened) ↔
      Acceptable S.primitives S.secret bytes) ∧
    (S.decrypt (S.encrypt now data) = .ok data ↔
      Short data ∨ data = List.replicate data.length 0) ∧
    ((∀ curVer time deleted value, S.get key version table = .ok (curVer, time, deleted, value) →
        S.encrypted = true →
        Authentic S.primitives S.secret (RemoteStore.rowAt table key curVer).1 value) ↔
      S.encrypted = false ∨ S.keyRegex key = false ∨
        ∀ curVer, currentVer table key version = .ok curVer → 0 < curVer →
          Acceptable S.primitives S.secret (RemoteStore.rowAt table key curVer).1) ∧
    ((S.encryptedReplication = true → ∀ value ∈ storedBy S key localVer remoteVer table tick,
        Authentic S.primitives S.secret (S.fetched tick).2 value) ↔
      S.encryptedReplication = false ∨ (S.fetched tick).1.error ≠ none ∨
        Acceptable S.primitives S.secret (S.fetched tick).2 ∨
        ¬ Takes S key localVer (S.clock tick) table ((S.fetched tick).2.length - 28)) :=
  ⟨decrypt_sound_iff bytes,decrypt_encrypt_iff now data,get_sound_iff version,stored_sound_iff⟩

/-- Thirty-two ones are not sealed, and open to four zeros. -/
theorem forged_opens_to_zeros : ¬ ∀ bytes opened,
    chacha20Poly1305AEADDecrypt nullPrimitives () bytes = .ok opened →
      Authentic nullPrimitives () bytes opened := by
  intro all
  have zeros : chacha20Poly1305AEADDecrypt nullPrimitives () (List.replicate 32 1) =
      .ok [0,0,0,0] := by decide
  obtain ⟨_,nonce,_,same⟩ := all (List.replicate 32 1) _ zeros
  have in_tag : (0 : UInt8) ∈ sealedWith nullPrimitives () nonce [0,0,0,0] := by
    refine List.mem_append_right _ (List.mem_append_right _ ?_)
    exact List.mem_replicate.mpr ⟨by decide,rfl⟩
  rw [← same] at in_tag
  exact absurd (List.mem_replicate.mp in_tag).2 (by decide)

end SealedValues
