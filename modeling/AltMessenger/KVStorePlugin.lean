import AltMessenger.HTTPResponse
import AltMessenger.RemoteStore
import AltMessenger.TransitionRuns

/-!
The routes under `/_kv/` of the local HTTP server: JSON under a key of the replicated store, and
the version a change is made on top of in a header.
-/
namespace KVStorePlugin
open SwiftRuntime ReplicatedStore RemoteStore HTTPResponse TransitionRuns
open HTTPRequest (Fields)

/-- bzip2 and `JSONSerialization`, which read what they wrote, and the text of a date. -/
structure Libraries where
  Json : Type
  compress : List UInt8 → List UInt8
  decompress : List UInt8 → Option (List UInt8)
  jsonObject : List UInt8 → Option Json
  jsonData : Json → List UInt8
  RFC1123String : Nat → Option (List Char)
  compress_ne : ∀ data, data ≠ [] → compress data ≠ []
  decompress_compress : ∀ data, data ≠ [] → decompress (compress data) = some data
  jsonObject_jsonData : ∀ data json, jsonObject data = some json →
    jsonObject (jsonData json) = some json

inductive Method where
  | get
  | put
  | delete
  deriving DecidableEq, Repr

/-- A request for a route: the groups of its path, which was read without control characters, the
    headers, the body if there is one, the date when it is taken up, and the moment when it gets
    to the store. -/
structure Incoming where
  method : Method
  groups : Fields
  headers : Fields
  body : Option (List UInt8)
  date : Nat
  now : Moment
  groups_plain : ∀ group ∈ groups, ∀ text ∈ group.2, '\x00' ∉ text

/-- What a route catches. -/
inductive Thrown where
  | store (error : BRReplicatedKVStoreError)
  | json

abbrev Outcome := Except Trap Response × Table

def transformErrorToResponse : Option Thrown → Option Response
  | none => none
  | some (.store .notFound) => some (.ofCode 404)
  | some (.store .conflict) => some (.ofCode 409)
  | some (.store .invalidKey) => some (.ofCode 400)
  | some _ => some (.ofCode 500)

def getKey (s : List Char) : List Char := "plat-".toList ++ s

def versionHeaders (L : Libraries) (version date : Nat) : Fields :=
  [("Cache-Control".toList, ["max-age=0, must-revalidate".toList]),
   ("ETag".toList, [Nat.toDigits 10 version]),
   ("Last-Modified".toList, [(L.RFC1123String date).getD []])]

def decorateResponse (L : Libraries) (version date : Nat) (response : Response) : Response :=
  { response with headers := some (versionHeaders L version date) }

/-- `bzCompressedData` -/
def bzCompressedData (L : Libraries) (data : List UInt8) : Except Trap (List UInt8) :=
  if data = [] then .ok data
  else if data.length < 2 ^ 32 then .ok (L.compress data)
  else .error .conversion

/-- `Data(bzCompressedData:)` -/
def ofBzCompressedData (L : Libraries) (data : List UInt8) : Option (List UInt8) :=
  if data = [] then none else L.decompress data

/-- `UInt64(_:)` of an `Int` -/
def uint64 (i : Int) : Except Trap Nat := if 0 ≤ i then .ok i.toNat else .error .conversion

def Incoming.key (call : Incoming) : Option (List Char) :=
  match call.groups.lookup "key".toList with
  | some [key] => some key
  | _ => none

/-- The one content type that is taken. -/
def Incoming.isJson (call : Incoming) : Bool :=
  call.headers.lookup "content-type".toList = some ["application/json".toList]

/-- The number in the one `If-None-Match` header. -/
def Incoming.ifNoneMatch (call : Incoming) : Option Int :=
  match call.headers.lookup "if-none-match".toList with
  | some [vs] => SwiftText.int vs
  | _ => none

/-- What all routes ask first: a key, and a store. -/
def guarded (call : Incoming) (route : List Char → Table → Outcome) (kv : Option Table) :
    Except Trap Response × Option Table :=
  match call.key, kv with
  | none, kv => (.ok (.ofCode 400), kv)
  | some _, none => (.ok (.ofCode 500), none)
  | some key, some table => ((route key table).1, some (route key table).2)

/-- The answer to what was thrown; data that is not what it should be is deleted. -/
def getFailed (E : Env) (L : Libraries) (call : Incoming) (key : List Char) (ver date : Nat)
    (thrown : Thrown) (table : Table) : Outcome :=
  match transformErrorToResponse (some thrown) with
  | none => (.ok (.ofCode 500), table)
  | some resp =>
    if resp.statusCode = 500 then
      match ReplicatedStore.del E.settings (getKey key) ver call.now table with
      | (.ok (newVer, newDate), after) =>
        (.ok (decorateResponse L newVer newDate (.ofCode 404)), after)
      | (.error (.throws _), after) =>
        (.ok (decorateResponse L 0 call.now.time (.ofCode 404)), after)
      | (.error (.trap trap), after) => (.error trap, after)
    else (.ok (decorateResponse L ver date resp), table)

def get (E : Env) (L : Libraries) (call : Incoming) (key : List Char) (table : Table) : Outcome :=
  match RemoteStore.get E (getKey key) table with
  | .error (.trap trap) => (.error trap, table)
  | .error (.throws error) => getFailed E L call key 0 call.date (.store error) table
  | .ok (ver, date, del, bytes) =>
    if del then (.ok (decorateResponse L ver date (.ofCode 404)), table)
    else
      match L.jsonObject ((ofBzCompressedData L bytes).getD []) with
      | none => getFailed E L call key ver date .json table
      | some json =>
        -- a tombstone has been answered already
        if del then (.ok ⟨410,some "Gone".toList,some (versionHeaders L ver date),none⟩, table)
        else
          (.ok ⟨200,some "OK".toList,
            some (versionHeaders L ver date ++
              [("Content-Type".toList, ["application/json".toList])]),
            some (L.jsonData json)⟩, table)

/-- The answer to a change that the store took, or did not. -/
def changed (L : Libraries) (call : Incoming) : Except Stop (Nat × Nat) × Table → Outcome
  | (.ok (ver, date), after) =>
    (.ok ⟨204,some "No Content".toList,some (versionHeaders L ver date),none⟩, after)
  | (.error (.trap trap), after) => (.error trap, after)
  | (.error (.throws error), after) =>
    match transformErrorToResponse (some (.store error)) with
    | some resp => (.ok (decorateResponse L 0 call.date resp), after)
    | none => (.ok (.ofCode 500), after)

def put (E : Env) (L : Libraries) (call : Incoming) (key : List Char) (table : Table) : Outcome :=
  if call.isJson then
    match call.ifNoneMatch with
    | none => (.ok (.ofCode 400), table)
    | some vs =>
      match call.body with
      | none => (.ok (.ofCode 400), table)
      | some body =>
        match (do pure (← bzCompressedData L body, ← uint64 vs)) with
        | .error trap => (.error trap, table)
        | .ok (bodyBytes, localVer) =>
          changed L call (ReplicatedStore.set E.settings (getKey key) bodyBytes localVer call.now table)
  else (.ok (.ofCode 400), table)

def delete (E : Env) (L : Libraries) (call : Incoming) (key : List Char) (table : Table) :
    Outcome :=
  match call.ifNoneMatch with
  | none => (.ok (.ofCode 400), table)
  | some vs =>
    match uint64 vs with
    | .error trap => (.error trap, table)
    | .ok localVer =>
      changed L call (ReplicatedStore.del E.settings (getKey key) localVer call.now table)

def route (E : Env) (L : Libraries) (call : Incoming) : List Char → Table → Outcome :=
  match call.method with
  | .get => get E L call
  | .put => put E L call
  | .delete => delete E L call

/-- The routes of the plugin. -/
def handle (E : Env) (L : Libraries) (call : Incoming) :
    Option Table → Except Trap Response × Option Table :=
  guarded call (route E L call)

/-- A request that was answered, with the store before and after. -/
structure Exchange where
  call : Incoming
  response : Response
  before : Table
  after : Table

structure State where
  kv : Table
  log : List Exchange

/-- A client that has a store takes one request; a trap ends it. -/
def step (E : Env) (L : Libraries) (s : State) (call : Incoming) : Option State :=
  match handle E L call (some s.kv) with
  | (.ok response, some kv) => some ⟨kv,s.log ++ [⟨call,response,s.kv,kv⟩]⟩
  | _ => none

/-- The version a response names. -/
def etag (response : Response) : Option (List (List Char)) :=
  response.headers.bind fun headers => headers.lookup "ETag".toList

/-- A change of a key that was acknowledged. -/
def Exchange.acknowledges (e : Exchange) (key : List Char) : Bool :=
  e.response.statusCode = 204 && e.call.method ≠ .get && e.call.key = some key

def lastChange (log : List Exchange) (key : List Char) : Option Exchange :=
  (log.filter fun e => e.acknowledges key).getLast?

def Refused (e : Exchange) : Prop :=
  400 ≤ e.response.statusCode ∧ e.response.statusCode < 500 ∧ e.after = e.before

/-- The change was made: one row with the next version, which the response names. -/
def Applied (key : List Char) (e : Exchange) (holds : Row → Prop) : Prop :=
  e.response.statusCode = 204 ∧
    etag e.response = some [Nat.toDigits 10 (currentVersion e.before (getKey key) + 1)] ∧
    ∃ row, row.version = currentVersion e.before (getKey key) + 1 ∧
      row.key = boundText (getKey key) ∧ holds row ∧ e.after = e.before ++ [row]

/-- The header is the number of the current version. -/
def Matches (call : Incoming) (key : List Char) (table : Table) : Prop :=
  call.ifNoneMatch = some (currentVersion table (getKey key) : Int)

/-- JSON on top of the current version. -/
def PutDemanded (call : Incoming) (key : List Char) (table : Table) : Prop :=
  call.isJson ∧ (∃ body, call.body = some body) ∧ Matches call key table

/-- The end of a key that is there, on top of its current version. -/
def DeleteDemanded (call : Incoming) (key : List Char) (table : Table) : Prop :=
  0 < currentVersion table (getKey key) ∧ Matches call key table

/-- The answer is what the last change of the key left. -/
def Reads (L : Libraries) (change e : Exchange) : Prop :=
  etag e.response = etag change.response ∧
    (change.call.method = .put → e.response.statusCode = 200 ∧ e.after = e.before ∧
      ∃ body bytes json, change.call.body = some body ∧ L.jsonObject body = some json ∧
        e.response.body = some bytes ∧ L.jsonObject bytes = some json) ∧
    (change.call.method = .delete → e.response.statusCode = 410)

/-- What is stored for a body. -/
def compressed (L : Libraries) (body : List UInt8) : List UInt8 :=
  if body = [] then [] else L.compress body

/-- The row has the body of the request. -/
def Stores (E : Env) (L : Libraries) (call : Incoming) (row : Row) : Prop :=
  row.deleted = false ∧ ∀ body, call.body = some body →
    opened E.settings.encrypted E.settings row.value = .ok (compressed L body)

/-- The versioning contract, for one exchange after others. -/
def Follows (E : Env) (L : Libraries) (earlier : List Exchange) (e : Exchange) : Prop :=
  ∀ key, e.call.key = some key →
    match e.call.method with
    | .get => ∀ change, lastChange earlier key = some change → Reads L change e
    | .put =>
      (PutDemanded e.call key e.before → Applied key e (Stores E L e.call)) ∧
        (¬ PutDemanded e.call key e.before → Refused e)
    | .delete =>
      (DeleteDemanded e.call key e.before → Applied key e fun row => row.deleted = true) ∧
        (¬ DeleteDemanded e.call key e.before → Refused e)

def EachFollows (E : Env) (L : Libraries) (log : List Exchange) : Prop :=
  ∀ earlier e later, log = earlier ++ e :: later → Follows E L earlier e

/-- The data of a row, if it can be opened, is not JSON. -/
def Corrupted (E : Env) (L : Libraries) (row : Row) : Prop :=
  row.deleted = false ∧ ∃ plain, opened E.settings.encrypted E.settings row.value = .ok plain ∧
    L.jsonObject ((ofBzCompressedData L plain).getD []) = none

/-- The version after a row and the time fit the integers they are bound as. -/
def RowFits (call : Incoming) (row : Row) : Prop :=
  row.version + 1 < 2 ^ 63 ∧ call.now.time < 2 ^ 63

/-- A key is not read after it was deleted, nor after it was given what is not JSON; and where
    what is there otherwise is not JSON, it can be deleted. -/
def GetMeets (E : Env) (L : Libraries) (s : State) (call : Incoming) (key : List Char) : Prop :=
  match lastChange s.log key with
  | some change => change.call.method = .put ∧
      ∃ body json, change.call.body = some body ∧ L.jsonObject body = some json
  | none => E.settings.keyRegex (getKey key) →
      ∀ old, latest s.kv (getKey key) = some old → Corrupted E L old → RowFits call old

/-- The number in the header is not negative, and where it is the current version, the store takes
    the key and the numbers. -/
def PutMeets (E : Env) (L : Libraries) (s : State) (call : Incoming) (key : List Char) : Prop :=
  call.isJson → ∀ version, call.ifNoneMatch = some version → ∀ body, call.body = some body →
    body.length < 2 ^ 32 ∧ 0 ≤ version ∧
      (version = currentVersion s.kv (getKey key) → E.settings.keyRegex (getKey key) ∧
        SetFits E.settings s.kv (getKey key) (compressed L body) call.now)

def DeleteMeets (E : Env) (s : State) (call : Incoming) (key : List Char) : Prop :=
  ∀ version, call.ifNoneMatch = some version → 0 ≤ version ∧
    ∀ old, latest s.kv (getKey key) = some old → version = old.version →
      E.settings.keyRegex (getKey key) ∧ RowFits call old

def Meets (E : Env) (L : Libraries) (s : State) (call : Incoming) : Prop :=
  ∀ key, call.key = some key →
    match call.method with
    | .get => GetMeets E L s call key
    | .put => PutMeets E L s call key
    | .delete => DeleteMeets E s call key

section Routes
variable {E : Env} {L : Libraries} {call : Incoming} {key : List Char} {table after : Table}
  {response : Response}

theorem bzCompressedData_short {body : List UInt8} (short : body.length < 2 ^ 32) :
    bzCompressedData L body = .ok (compressed L body) := by
  unfold bzCompressedData compressed
  by_cases empty : body = []
  · rw [if_pos empty, if_pos empty, empty]
  · rw [if_neg empty, if_neg empty, if_pos short]

theorem bzCompressedData_long {body : List UInt8} (long : ¬ body.length < 2 ^ 32) :
    bzCompressedData L body = .error .conversion := by
  have filled : body ≠ [] := by
    intro empty
    rw [empty] at long
    exact long (by decide)
  rw [bzCompressedData, if_neg filled, if_neg long]

/-- What is stored for a body is the body again. -/
theorem ofBzCompressedData_compressed (body : List UInt8) :
    (ofBzCompressedData L (compressed L body)).getD [] = body := by
  unfold ofBzCompressedData compressed
  by_cases empty : body = []
  · rw [if_pos empty, if_pos rfl, empty]
    rfl
  · rw [if_neg empty, if_neg (L.compress_ne body empty), L.decompress_compress body empty]
    rfl

theorem uint64_positive {i : Int} (positive : 0 ≤ i) : uint64 i = .ok i.toNat := if_pos positive

theorem uint64_negative {i : Int} (negative : ¬ 0 ≤ i) : uint64 i = .error .conversion :=
  if_neg negative

/-- The name of a key goes to the store whole. -/
theorem key_plain (there : call.key = some key) : boundText (getKey key) = getKey key := by
  have inside : '\x00' ∉ key := by
    unfold Incoming.key at there
    split at there
    case h_1 found =>
      cases there
      obtain ⟨front,back,whole,_⟩ := List.lookup_eq_some_iff.mp found
      have mem : ("key".toList, [key]) ∈ call.groups := by
        rw [whole]
        exact List.mem_append_right front List.mem_cons_self
      exact call.groups_plain _ mem key List.mem_cons_self
    case h_2 => cases there
  unfold boundText
  rw [List.takeWhile_eq_self_iff]
  intro c mem
  rcases List.mem_append.mp mem with front | back
  · have no_zero : ∀ c ∈ "plat-".toList, c ≠ '\x00' := by
      intro c front same
      rw [same] at front
      revert front
      decide
    exact decide_eq_true (no_zero c front)
  · exact decide_eq_true fun same => inside (same ▸ back)

/-- The errors of a client have answers of their own. -/
theorem changed_refused (L : Libraries) (call : Incoming) (after : Table)
    {error : BRReplicatedKVStoreError}
    (known : error = .notFound ∨ error = .conflict ∨ error = .invalidKey) :
    ∃ response, changed L call (throwing error, after) = (.ok response, after) ∧
      400 ≤ response.statusCode ∧ response.statusCode < 500 := by
  rcases known with same | same | same
  · subst same
    exact ⟨_,rfl,(by decide : 400 ≤ 404),(by decide : 404 < 500)⟩
  · subst same
    exact ⟨_,rfl,(by decide : 400 ≤ 409),(by decide : 409 < 500)⟩
  · subst same
    exact ⟨_,rfl,(by decide : 400 ≤ 400),(by decide : 400 < 500)⟩

/-- Without JSON, a number or a body there is nothing to store. -/
theorem put_unready (unready : ¬ call.isJson ∨ call.ifNoneMatch = none ∨ call.body = none) :
    put E L call key table = (.ok (.ofCode 400), table) := by
  unfold put
  split
  case isFalse => rfl
  case isTrue json =>
    split
    case h_1 => rfl
    case h_2 vs number =>
      split
      case h_1 => rfl
      case h_2 body there =>
        rw [number, there] at unready
        rcases unready with other | missing | missing
        · exact absurd json other
        · cases missing
        · cases missing

variable {vs : Int} {body : List UInt8}

theorem put_stores (json : call.isJson) (number : call.ifNoneMatch = some vs)
    (there : call.body = some body) (short : body.length < 2 ^ 32) (positive : 0 ≤ vs) :
    put E L call key table =
      changed L call (ReplicatedStore.set E.settings (getKey key) (compressed L body) vs.toNat
        call.now table) := by
  have both : (do pure (← bzCompressedData L body, ← uint64 vs) : Except Trap _) =
      .ok (compressed L body, vs.toNat) := by
    rw [bind_ready (bzCompressedData_short short), bind_ready (uint64_positive positive)]
    rfl
  unfold put
  rw [if_pos json]
  simp only [number, there, both]

theorem put_stops (json : call.isJson) (number : call.ifNoneMatch = some vs)
    (there : call.body = some body) (wrong : ¬ (body.length < 2 ^ 32 ∧ 0 ≤ vs)) :
    put E L call key table = (.error .conversion, table) := by
  have neither : (do pure (← bzCompressedData L body, ← uint64 vs) : Except Trap _) =
      .error .conversion := by
    by_cases short : body.length < 2 ^ 32
    · have negative : ¬ 0 ≤ vs := fun positive => wrong ⟨short,positive⟩
      rw [bind_ready (bzCompressedData_short short)]
      exact bind_halted (uint64_negative negative)
    · exact bind_halted (bzCompressedData_long short)
  unfold put
  rw [if_pos json]
  simp only [number, there, neither]

theorem delete_unready (missing : call.ifNoneMatch = none) :
    delete E L call key table = (.ok (.ofCode 400), table) := by
  rw [delete, missing]

theorem delete_stores (number : call.ifNoneMatch = some vs) (positive : 0 ≤ vs) :
    delete E L call key table =
      changed L call (ReplicatedStore.del E.settings (getKey key) vs.toNat call.now table) := by
  rw [delete, number]
  simp only [uint64_positive positive]

theorem delete_stops (number : call.ifNoneMatch = some vs) (negative : ¬ 0 ≤ vs) :
    delete E L call key table = (.error .conversion, table) := by
  rw [delete, number]
  simp only [uint64_negative negative]

theorem stored_writes {value : List UInt8} (valid : Valid table)
    (valid_key : E.settings.keyRegex (getKey key))
    (fits : SetFits E.settings table (getKey key) value call.now)
    (current : vs = currentVersion table (getKey key)) :
    ReplicatedStore.set E.settings (getKey key) value vs.toNat call.now table =
      (.ok (currentVersion table (getKey key) + 1, call.now.time),
        table ++ [setRow E.settings table (getKey key) value call.now]) := by
  rw [current, Int.toNat_natCast, ReplicatedStore.set, checked_ok valid_key]
  exact _set_writes valid fits

/-- What the store does not take of a put. -/
theorem stored_refuses (call : Incoming) (value : List UInt8) (positive : 0 ≤ vs)
    (wrong : ¬ E.settings.keyRegex (getKey key) ∨ vs ≠ currentVersion table (getKey key)) :
    ∃ error, (error = .notFound ∨ error = .conflict ∨ error = .invalidKey) ∧
      ReplicatedStore.set E.settings (getKey key) value vs.toNat call.now table =
        (throwing error, table) := by
  by_cases valid_key : E.settings.keyRegex (getKey key)
  · have stale : currentVersion table (getKey key) ≠ vs.toNat := by
      rcases wrong with other | other
      · exact absurd valid_key other
      · omega
    refine ⟨.conflict,Or.inr (Or.inl rfl),?_⟩
    rw [ReplicatedStore.set, checked_ok valid_key]
    exact _set_stale stale
  · exact ⟨.invalidKey,Or.inr (Or.inr rfl),checked_invalid valid_key⟩

theorem stored_traps {value : List UInt8} (valid_key : E.settings.keyRegex (getKey key))
    (large : ¬ SetFits E.settings table (getKey key) value call.now)
    (current : vs = currentVersion table (getKey key)) :
    ReplicatedStore.set E.settings (getKey key) value vs.toNat call.now table =
      (.error (.trap .conversion), table) := by
  rw [current, Int.toNat_natCast, ReplicatedStore.set, checked_ok valid_key]
  exact _set_traps large

theorem opened_setRow (value : List UInt8) :
    opened E.settings.encrypted E.settings
      (setRow E.settings table (getKey key) value call.now).value = .ok value := by
  have sealing : (setRow E.settings table (getKey key) value call.now).value =
      if E.settings.encrypted then E.settings.cipher.encrypt call.now.nonce value else value := rfl
  rw [sealing, opened]
  by_cases encrypted : E.settings.encrypted
  · rw [if_pos encrypted, if_pos encrypted, E.settings.cipher.decrypt_encrypt]
  · rw [if_neg encrypted, if_neg encrypted]

/-- A put that the store does not take is an error of the client, and changes nothing. -/
theorem put_refuses (json : call.isJson) (number : call.ifNoneMatch = some vs)
    (there : call.body = some body) (short : body.length < 2 ^ 32) (positive : 0 ≤ vs)
    (wrong : ¬ E.settings.keyRegex (getKey key) ∨ vs ≠ currentVersion table (getKey key)) :
    ∃ response, put E L call key table = (.ok response, table) ∧
      400 ≤ response.statusCode ∧ response.statusCode < 500 := by
  obtain ⟨error,known,refuses⟩ := stored_refuses call (compressed L body) positive wrong
  obtain ⟨response,answer,range⟩ := changed_refused L call table known
  refine ⟨response,?_,range⟩
  rw [put_stores json number there short positive, refuses, answer]

/-- A put that meets its condition is answered, and as the contract has it. -/
theorem put_follows {s : State} (valid : Valid s.kv) (meets : PutMeets E L s call key) :
    ∃ response after, put E L call key s.kv = (.ok response, after) ∧
      (PutDemanded call key s.kv → Applied key ⟨call,response,s.kv,after⟩ (Stores E L call)) ∧
      (¬ PutDemanded call key s.kv → Refused ⟨call,response,s.kv,after⟩) := by
  by_cases ready : ¬ call.isJson ∨ call.ifNoneMatch = none ∨ call.body = none
  · refine ⟨_,_,put_unready ready,?_,fun _ => ⟨(by decide : 400 ≤ 400),(by decide : 400 < 500),rfl⟩⟩
    intro ⟨json,⟨body,there⟩,number⟩
    rw [Matches] at number
    rw [number, there] at ready
    rcases ready with other | missing | missing
    · exact absurd json other
    · cases missing
    · cases missing
  obtain ⟨json,numbered,filled⟩ := not_or.mp ready |>.imp not_not.mp not_or.mp
  obtain ⟨vs,number⟩ := Option.ne_none_iff_exists'.mp numbered
  obtain ⟨body,there⟩ := Option.ne_none_iff_exists'.mp filled
  obtain ⟨short,positive,rest⟩ := meets json vs number body there
  by_cases current : vs = currentVersion s.kv (getKey key)
  · obtain ⟨valid_key,fits⟩ := rest current
    have stores : put E L call key s.kv = _ := put_stores json number there short positive
    have demanded : PutDemanded call key s.kv := ⟨json,⟨body,there⟩,by rw [Matches, number, current]⟩
    rw [stored_writes valid valid_key fits current] at stores
    refine ⟨_,_,stores,?_,fun other => absurd demanded other⟩
    intro _
    refine ⟨rfl,rfl,_,rfl,rfl,⟨rfl,?_⟩,rfl⟩
    intro other same
    cases there.symm.trans same
    exact opened_setRow _
  · have refusal : ¬ E.settings.keyRegex (getKey key) ∨ vs ≠ currentVersion s.kv (getKey key) :=
      Or.inr current
    obtain ⟨response,refuses,low,high⟩ := put_refuses json number there short positive refusal
    refine ⟨response,s.kv,refuses,?_,fun _ => ⟨low,high,rfl⟩⟩
    intro ⟨_,_,same⟩
    rw [Matches, number] at same
    exact absurd (Option.some.inj same) current

/-- A put that was answered as the contract has it met its condition. -/
theorem put_exact {s : State} (ran : put E L call key s.kv = (.ok response, after))
    (demands : PutDemanded call key s.kv →
      Applied key ⟨call,response,s.kv,after⟩ (Stores E L call)) : PutMeets E L s call key := by
  intro json vs number body there
  have fine : body.length < 2 ^ 32 ∧ 0 ≤ vs := by
    by_contra wrong
    rw [put_stops json number there wrong] at ran
    cases ran
  refine ⟨fine.1,fine.2,?_⟩
  intro current
  have acknowledged : response.statusCode = 204 :=
    (demands ⟨json,⟨body,there⟩,by rw [Matches, number, current]⟩).1
  have valid_key : E.settings.keyRegex (getKey key) := by
    by_contra invalid
    have refusal : ¬ E.settings.keyRegex (getKey key) ∨ vs ≠ currentVersion s.kv (getKey key) :=
      Or.inl invalid
    obtain ⟨other,refuses,low,high⟩ := put_refuses json number there fine.1 fine.2 refusal
    rw [refuses] at ran
    cases ran
    omega
  refine ⟨valid_key,?_⟩
  by_contra large
  rw [put_stores json number there fine.1 fine.2, stored_traps valid_key large current] at ran
  cases ran

theorem deleted_refuses (call : Incoming) (positive : 0 ≤ vs)
    (wrong : ¬ E.settings.keyRegex (getKey key) ∨ vs ≠ currentVersion table (getKey key) ∨
      latest table (getKey key) = none) :
    ∃ error, (error = .notFound ∨ error = .conflict ∨ error = .invalidKey) ∧
      ReplicatedStore.del E.settings (getKey key) vs.toNat call.now table =
        (throwing error, table) := by
  by_cases valid_key : E.settings.keyRegex (getKey key)
  · rw [ReplicatedStore.del, checked_ok valid_key]
    by_cases create : vs.toNat = 0
    · exact ⟨.notFound,Or.inl rfl,by rw [_del, if_pos create]⟩
    have stale : currentVersion table (getKey key) ≠ vs.toNat := by
      rcases wrong with other | other | missing
      · exact absurd valid_key other
      · omega
      · rw [currentVersion_missing missing]
        omega
    refine ⟨.conflict,Or.inr (Or.inl rfl),?_⟩
    rw [_del, if_neg create]
    exact txn_error (if_pos stale)
  · exact ⟨.invalidKey,Or.inr (Or.inr rfl),checked_invalid valid_key⟩

theorem delete_refuses (number : call.ifNoneMatch = some vs) (positive : 0 ≤ vs)
    (wrong : ¬ E.settings.keyRegex (getKey key) ∨ vs ≠ currentVersion table (getKey key) ∨
      latest table (getKey key) = none) :
    ∃ response, delete E L call key table = (.ok response, table) ∧
      400 ≤ response.statusCode ∧ response.statusCode < 500 := by
  obtain ⟨error,known,refuses⟩ := deleted_refuses call positive wrong
  obtain ⟨response,answer,range⟩ := changed_refused L call table known
  refine ⟨response,?_,range⟩
  rw [delete_stores number positive, refuses, answer]

theorem deleted_writes {old : Row} (valid : Valid table)
    (valid_key : E.settings.keyRegex (getKey key))
    (found : latest table (getKey key) = some old) (fits : RowFits call old) :
    ReplicatedStore.del E.settings (getKey key) old.version call.now table =
      (.ok (old.version + 1, call.now.time), table ++ [delRow old call.now]) := by
  have writes := _del_writes valid found fits.1 fits.2
  rw [currentVersion_found found] at writes
  rw [ReplicatedStore.del, checked_ok valid_key, writes]

theorem deleted_traps {old : Row} (valid : Valid table)
    (valid_key : E.settings.keyRegex (getKey key))
    (found : latest table (getKey key) = some old) (large : ¬ RowFits call old) :
    ReplicatedStore.del E.settings (getKey key) old.version call.now table =
      (.error (.trap .conversion), table) := by
  have traps := _del_traps valid found large
  rw [currentVersion_found found] at traps
  rw [ReplicatedStore.del, checked_ok valid_key, traps]

/-- A key is there if it has a version. -/
theorem existing (valid : Valid table) :
    0 < currentVersion table key ↔ ∃ old, latest table key = some old := by
  cases found : latest table key with
  | none =>
    rw [currentVersion_missing found]
    constructor
    · intro positive
      omega
    · intro ⟨_,there⟩
      cases there
  | some old =>
    rw [currentVersion_found found]
    exact ⟨fun _ => ⟨old,rfl⟩,fun _ => latest_positive valid found⟩

/-- A delete that meets its condition is answered, and as the contract has it. -/
theorem delete_follows {s : State} (valid : Valid s.kv) (meets : DeleteMeets E s call key) :
    ∃ response after, delete E L call key s.kv = (.ok response, after) ∧
      (DeleteDemanded call key s.kv →
        Applied key ⟨call,response,s.kv,after⟩ fun row => row.deleted = true) ∧
      (¬ DeleteDemanded call key s.kv → Refused ⟨call,response,s.kv,after⟩) := by
  cases number : call.ifNoneMatch with
  | none =>
    refine ⟨_,_,delete_unready number,?_,fun _ => ⟨(by decide : 400 ≤ 400),(by decide : 400 < 500),rfl⟩⟩
    intro ⟨_,same⟩
    rw [Matches, number] at same
    cases same
  | some vs =>
    obtain ⟨positive,rest⟩ := meets vs number
    by_cases demanded : DeleteDemanded call key s.kv
    · have stores : delete E L call key s.kv = _ := delete_stores number positive
      obtain ⟨old,found⟩ := (existing valid).mp demanded.1
      have same : vs = old.version := by
        have current := demanded.2
        rw [Matches, number, currentVersion_found found] at current
        exact Option.some.inj current
      obtain ⟨valid_key,fits⟩ := rest old found same
      rw [same, Int.toNat_natCast, deleted_writes valid valid_key found fits] at stores
      refine ⟨_,_,stores,?_,fun other => absurd demanded other⟩
      intro _
      have same_key : old.key = boundText (getKey key) := latest_key valid found
      rw [Applied, currentVersion_found found]
      exact ⟨rfl,rfl,delRow old call.now,rfl,same_key,rfl,rfl⟩
    · have wrong : ¬ E.settings.keyRegex (getKey key) ∨ vs ≠ currentVersion s.kv (getKey key) ∨
          latest s.kv (getKey key) = none := by
        cases found : latest s.kv (getKey key) with
        | none => exact Or.inr (Or.inr rfl)
        | some old =>
          refine Or.inr (Or.inl fun current => demanded ⟨(existing valid).mpr ⟨old,found⟩,?_⟩)
          rw [Matches, number, current]
      obtain ⟨response,refuses,low,high⟩ := delete_refuses number positive wrong
      exact ⟨response,s.kv,refuses,fun other => absurd other demanded,fun _ => ⟨low,high,rfl⟩⟩

/-- A delete that was answered as the contract has it met its condition. -/
theorem delete_exact {s : State} (valid : Valid s.kv)
    (ran : delete E L call key s.kv = (.ok response, after))
    (demands : DeleteDemanded call key s.kv →
      Applied key ⟨call,response,s.kv,after⟩ fun row => row.deleted = true) :
    DeleteMeets E s call key := by
  intro vs number
  have positive : 0 ≤ vs := by
    by_contra negative
    rw [delete_stops number negative] at ran
    cases ran
  refine ⟨positive,?_⟩
  intro old found current
  have acknowledged : response.statusCode = 204 := by
    refine (demands ⟨(existing valid).mpr ⟨old,found⟩,?_⟩).1
    rw [Matches, number, currentVersion_found found, current]
  have valid_key : E.settings.keyRegex (getKey key) := by
    by_contra invalid
    have refusal : ¬ E.settings.keyRegex (getKey key) ∨ vs ≠ currentVersion s.kv (getKey key) ∨
        latest s.kv (getKey key) = none := Or.inl invalid
    obtain ⟨other,refuses,low,high⟩ := delete_refuses number positive refusal
    rw [refuses] at ran
    cases ran
    omega
  refine ⟨valid_key,?_⟩
  by_contra large
  rw [delete_stores number positive, current, Int.toNat_natCast,
    deleted_traps valid valid_key found large] at ran
  cases ran

theorem transform_code (thrown : Thrown) :
    ∃ code, transformErrorToResponse (some thrown) = some (.ofCode code) ∧ code ≠ 410 := by
  cases thrown with
  | json => exact ⟨500,rfl,by decide⟩
  | store error =>
    cases error with
    | notFound => exact ⟨404,rfl,by decide⟩
    | conflict => exact ⟨409,rfl,by decide⟩
    | invalidKey => exact ⟨400,rfl,by decide⟩
    | _ => exact ⟨500,rfl,by decide⟩

/-- What the store throws leaves it as it is, for no version is known then. -/
theorem getFailed_store (L : Libraries) (call : Incoming) (error : BRReplicatedKVStoreError)
    (valid : Valid table) :
    ∃ response, getFailed E L call key 0 call.date (.store error) table = (.ok response, table) ∧
      response.statusCode ≠ 410 := by
  obtain ⟨code,transforms,other⟩ := transform_code (.store error)
  unfold getFailed
  simp only [transforms]
  split
  case isFalse => exact ⟨_,rfl,other⟩
  case isTrue =>
    have wrong : ¬ E.settings.keyRegex (getKey key) ∨ 0 ≠ (currentVersion table (getKey key) : Int) ∨
        latest table (getKey key) = none := by
      cases found : latest table (getKey key) with
      | none => exact Or.inr (Or.inr rfl)
      | some old =>
        have positive := (existing valid).mpr ⟨old,found⟩
        exact Or.inr (Or.inl (by omega))
    obtain ⟨thrown,_,refuses⟩ := deleted_refuses call (Int.le_refl 0) wrong
    change ReplicatedStore.del E.settings (getKey key) 0 call.now table = _ at refuses
    rw [refuses]
    exact ⟨_,rfl,(by decide : 404 ≠ 410)⟩

theorem kv_get_invalid (invalid : ¬ E.settings.keyRegex key) :
    RemoteStore.get E key table = throwing .invalidKey := by
  rw [RemoteStore.get, checkKey, if_neg invalid]
  rfl

theorem kv_get_opened {old : Row} {plain : List UInt8} (valid : Valid table)
    (valid_key : E.settings.keyRegex key) (found : latest table key = some old)
    (opens : opened E.settings.encrypted E.settings old.value = .ok plain) :
    RemoteStore.get E key table =
      .ok (old.version, E.readTime old.thetime, old.deleted, plain) := by
  rw [get_found valid_key valid found, opens]
  rfl

variable {old : Row} {plain : List UInt8}

/-- A value that is JSON is given as JSON, with its version. -/
theorem get_reads {json : L.Json} (valid : Valid table)
    (valid_key : E.settings.keyRegex (getKey key)) (found : latest table (getKey key) = some old)
    (kept : old.deleted = false)
    (opens : opened E.settings.encrypted E.settings old.value = .ok plain)
    (reads : L.jsonObject ((ofBzCompressedData L plain).getD []) = some json) :
    get E L call key table = (.ok ⟨200,some "OK".toList,
      some (versionHeaders L old.version (E.readTime old.thetime) ++
        [("Content-Type".toList, ["application/json".toList])]),
      some (L.jsonData json)⟩, table) := by
  have fetched := kv_get_opened (E := E) valid valid_key found opens
  rw [kept] at fetched
  unfold get
  simp only [fetched, reads, Bool.false_eq_true, if_false]

theorem code_500 : (Response.ofCode 500).statusCode = 500 := rfl

theorem get_corrupted (valid : Valid table) (valid_key : E.settings.keyRegex (getKey key))
    (found : latest table (getKey key) = some old) (corrupted : Corrupted E L old) :
    get E L call key table = getFailed E L call key old.version (E.readTime old.thetime) .json table := by
  obtain ⟨kept,plain,opens,unreadable⟩ := corrupted
  have fetched := kv_get_opened (E := E) valid valid_key found opens
  rw [kept] at fetched
  unfold get
  simp only [fetched, unreadable, Bool.false_eq_true, if_false]

/-- Data that is not JSON is deleted by the request that finds it. -/
theorem get_deletes (valid : Valid table) (valid_key : E.settings.keyRegex (getKey key))
    (found : latest table (getKey key) = some old) (corrupted : Corrupted E L old)
    (fits : RowFits call old) :
    ∃ response, get E L call key table = (.ok response, table ++ [delRow old call.now]) ∧
      response.statusCode ≠ 410 := by
  rw [get_corrupted valid valid_key found corrupted, getFailed]
  simp only [transformErrorToResponse]
  rw [if_pos code_500, deleted_writes valid valid_key found fits]
  exact ⟨_,rfl,(by decide : 404 ≠ 410)⟩

theorem get_stops (valid : Valid table) (valid_key : E.settings.keyRegex (getKey key))
    (found : latest table (getKey key) = some old) (corrupted : Corrupted E L old)
    (large : ¬ RowFits call old) : get E L call key table = (.error .conversion, table) := by
  rw [get_corrupted valid valid_key found corrupted, getFailed]
  simp only [transformErrorToResponse]
  rw [if_pos code_500, deleted_traps valid valid_key found large]

/-- Where there is nothing that is not JSON a request changes nothing, and is never told that a
    key is gone. -/
theorem get_intact (L : Libraries) (call : Incoming) (valid : Valid table)
    (intact : E.settings.keyRegex (getKey key) →
      ∀ old, latest table (getKey key) = some old → ¬ Corrupted E L old) :
    ∃ response, get E L call key table = (.ok response, table) ∧ response.statusCode ≠ 410 := by
  by_cases valid_key : E.settings.keyRegex (getKey key)
  case neg =>
    rw [get, kv_get_invalid valid_key]
    exact getFailed_store L call .invalidKey valid
  cases found : latest table (getKey key) with
  | none =>
    rw [get, get_missing valid_key found]
    exact getFailed_store L call .notFound valid
  | some old =>
    rcases opened_cases E.settings.encrypted E.settings old.value with ⟨plain,opens⟩ | malformed
    · cases kept : old.deleted with
      | true =>
        have fetched := kv_get_opened (E := E) valid valid_key found opens
        rw [kept] at fetched
        rw [get, fetched]
        exact ⟨_,rfl,(by decide : 404 ≠ 410)⟩
      | false =>
        cases reads : L.jsonObject ((ofBzCompressedData L plain).getD []) with
        | none => exact absurd ⟨kept,plain,opens,reads⟩ (intact valid_key old found)
        | some json =>
          exact ⟨_,get_reads valid valid_key found kept opens reads,(by decide : 200 ≠ 410)⟩
    · rw [get, get_found valid_key valid found, malformed]
      exact getFailed_store L call .malformedData valid

/-- No answer to a get is that the key is gone. -/
theorem get_never_gone (valid : Valid table) (ran : get E L call key table = (.ok response, after)) :
    response.statusCode ≠ 410 := by
  by_cases intact : E.settings.keyRegex (getKey key) →
      ∀ old, latest table (getKey key) = some old → ¬ Corrupted E L old
  · obtain ⟨other,answer,code⟩ := get_intact L call valid intact
    cases answer.symm.trans ran
    exact code
  · push Not at intact
    obtain ⟨valid_key,old,found,corrupted⟩ := intact
    by_cases fits : RowFits call old
    · obtain ⟨other,answer,code⟩ := get_deletes valid valid_key found corrupted fits
      cases answer.symm.trans ran
      exact code
    · cases (get_stops valid valid_key found corrupted fits).symm.trans ran

end Routes

end KVStorePlugin
