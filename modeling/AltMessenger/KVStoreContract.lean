import AltMessenger.KVStorePlugin

/-!
Runs of requests against the routes of the key value store, and the versioning contract they
have with a client: when a change is made, what a key reads as after one, and when it does not.
-/
namespace KVStoreContract
open SwiftRuntime ReplicatedStore RemoteStore HTTPResponse TransitionRuns KVStorePlugin

/-- The row of a key is the one that its last change wrote. -/
def Recorded (E : Env) (L : Libraries) (table : Table) (key : List Char) (change : Exchange) :
    Prop :=
  E.settings.keyRegex (getKey key) ∧ ∃ row, latest table (getKey key) = some row ∧
    Stores E L change.call row ∧ etag change.response = some [Nat.toDigits 10 row.version]

structure Sound (E : Env) (L : Libraries) (s : State) : Prop where
  valid : Valid s.kv
  follows : EachFollows E L s.log
  recorded : ∀ key change, lastChange s.log key = some change → change.call.method = .put →
    Recorded E L s.kv key change

section Log
variable {E : Env} {L : Libraries} {log : List Exchange} {e : Exchange} {key : List Char}

theorem lastChange_append : lastChange (log ++ [e]) key =
    if e.acknowledges key then some e else lastChange log key := by
  unfold lastChange
  rw [List.filter_append]
  by_cases acknowledged : e.acknowledges key
  · have kept : [e].filter (fun e => e.acknowledges key) = [e] := List.filter_cons_of_pos acknowledged
    rw [if_pos acknowledged, kept, List.getLast?_concat]
  · have dropped : [e].filter (fun e => e.acknowledges key) = [] :=
      List.filter_cons_of_neg acknowledged
    rw [if_neg acknowledged, dropped, List.append_nil]

theorem lastChange_method {change : Exchange} (last : lastChange log key = some change) :
    change.call.method = .put ∨ change.call.method = .delete := by
  have kept := (List.mem_filter.mp (List.mem_of_getLast? last)).2
  unfold Exchange.acknowledges at kept
  cases way : change.call.method with
  | get => simp [way] at kept
  | put => exact Or.inl rfl
  | delete => exact Or.inr rfl

theorem lastChange_key {change : Exchange} (last : lastChange log key = some change) :
    change.call.key = some key := by
  have kept := (List.mem_filter.mp (List.mem_of_getLast? last)).2
  simp only [Exchange.acknowledges, Bool.and_eq_true, decide_eq_true_eq] at kept
  exact kept.2

theorem eachFollows_append :
    EachFollows E L (log ++ [e]) ↔ EachFollows E L log ∧ Follows E L log e := by
  constructor
  · intro each
    refine ⟨fun earlier other later whole => ?_,each log e [] rfl⟩
    apply each earlier other (later ++ [e])
    rw [whole, List.append_assoc]
    rfl
  · intro ⟨each,last⟩ earlier other later whole
    rcases List.eq_nil_or_concat later with none_left | ⟨front,final,same⟩
    · rw [none_left] at whole
      obtain ⟨same_log,same_last⟩ := List.append_inj' whole rfl
      cases same_log
      cases same_last
      exact last
    · rw [same, List.concat_eq_append, ← List.cons_append, ← List.append_assoc] at whole
      exact each earlier other front (List.append_inj' whole rfl).1

theorem not_acknowledged (other : e.response.statusCode ≠ 204) (key : List Char) :
    ¬ e.acknowledges key := by
  simp [Exchange.acknowledges, other]

theorem get_not_acknowledged (way : e.call.method = .get) (key : List Char) :
    ¬ e.acknowledges key := by
  simp [Exchange.acknowledges, way]

theorem key_acknowledged (there : e.call.key = some key) {k : List Char} (other : k ≠ key) :
    ¬ e.acknowledges k := by
  simp [Exchange.acknowledges, there, Ne.symm other]

end Log

section Step
variable {E : Env} {L : Libraries} {s t : State} {call : Incoming} {key : List Char}
  {e : Exchange} {row : Row}

theorem step_keyless (missing : call.key = none) : step E L s call =
    some ⟨s.kv,s.log ++ [⟨call,.ofCode 400,s.kv,s.kv⟩]⟩ := by
  simp only [step, handle, guarded, missing]

theorem step_answered {response : Response} {after : Table} (there : call.key = some key)
    (ran : route E L call key s.kv = (.ok response, after)) :
    step E L s call = some ⟨after,s.log ++ [⟨call,response,s.kv,after⟩]⟩ := by
  simp only [step, handle, guarded, there, ran]

/-- A request with a key is answered by its route. -/
theorem step_ran (there : call.key = some key) (taken : step E L s call = some t) :
    ∃ response after, route E L call key s.kv = (.ok response, after) ∧
      t = ⟨after,s.log ++ [⟨call,response,s.kv,after⟩]⟩ := by
  cases ran : route E L call key s.kv with
  | mk result after =>
    cases result with
    | error trap =>
      simp only [step, handle, guarded, there, ran] at taken
      cases taken
    | ok response =>
      rw [step_answered there ran] at taken
      cases taken
      exact ⟨response,after,rfl,rfl⟩

theorem getKey_injective {k : List Char} (same : getKey key = getKey k) : key = k :=
  List.append_cancel_left same

/-- An exchange that changes nothing. -/
theorem sound_same (sound : Sound E L s) (follows : Follows E L s.log e) (same : e.after = s.kv)
    (unchanged : ∀ key, ¬ e.acknowledges key) : Sound E L ⟨e.after,s.log ++ [e]⟩ := by
  rw [same]
  refine ⟨sound.valid,eachFollows_append.mpr ⟨sound.follows,follows⟩,?_⟩
  intro key change last way
  rw [lastChange_append, if_neg (unchanged key)] at last
  exact sound.recorded key change last way

/-- An exchange that puts a row of its key behind the others. -/
theorem sound_written (sound : Sound E L s) (follows : Follows E L s.log e)
    (there : e.call.key = some key) (valid_key : E.settings.keyRegex (getKey key))
    (same_key : row.key = boundText (getKey key))
    (next : row.version = currentVersion s.kv (getKey key) + 1)
    (recorded : ∀ change, lastChange (s.log ++ [e]) key = some change →
      change.call.method = .put →
      Stores E L change.call row ∧ etag change.response = some [Nat.toDigits 10 row.version])
    (wrote : e.after = s.kv ++ [row]) : Sound E L ⟨e.after,s.log ++ [e]⟩ := by
  rw [wrote]
  obtain ⟨valid,found⟩ := written sound.valid row same_key next
  refine ⟨valid,eachFollows_append.mpr ⟨sound.follows,follows⟩,?_⟩
  intro k change last way
  by_cases same : k = key
  · subst same
    exact ⟨valid_key,row,found,recorded change last way⟩
  · rw [lastChange_append, if_neg (key_acknowledged there same)] at last
    obtain ⟨valid_k,old,found_old,rest⟩ := sound.recorded k change last way
    have other : row.key ≠ boundText (getKey k) := by
      rw [same_key, key_plain there, key_plain (lastChange_key last)]
      exact fun names => same (getKey_injective names).symm
    refine ⟨valid_k,old,?_,rest⟩
    rw [latest, VersionLog.latest_other _ other]
    exact found_old

/-- A put has its say on the contract where its key is. -/
theorem follows_put (way : e.call.method = .put) (there : e.call.key = some key)
    {log : List Exchange} : Follows E L log e ↔
      (PutDemanded e.call key e.before → Applied key e (Stores E L e.call)) ∧
        (¬ PutDemanded e.call key e.before → Refused e) := by
  unfold Follows
  simp only [way, there, Option.some.injEq, forall_eq']

theorem follows_delete (way : e.call.method = .delete) (there : e.call.key = some key)
    {log : List Exchange} : Follows E L log e ↔
      (DeleteDemanded e.call key e.before → Applied key e fun row => row.deleted = true) ∧
        (¬ DeleteDemanded e.call key e.before → Refused e) := by
  unfold Follows
  simp only [way, there, Option.some.injEq, forall_eq']

theorem follows_get (way : e.call.method = .get) (there : e.call.key = some key)
    {log : List Exchange} : Follows E L log e ↔
      ∀ change, lastChange log key = some change → Reads L change e := by
  unfold Follows
  simp only [way, there, Option.some.injEq, forall_eq']

theorem refused_unacknowledged (refused : Refused e) (key : List Char) : ¬ e.acknowledges key := by
  apply not_acknowledged
  have high := refused.2.1
  have low := refused.1
  omega

theorem acknowledged_last (there : e.call.key = some key) (done : e.response.statusCode = 204)
    (way : e.call.method ≠ .get) {log : List Exchange} {change : Exchange}
    (last : lastChange (log ++ [e]) key = some change) : change = e := by
  have acknowledged : e.acknowledges key := by
    simp [Exchange.acknowledges, done, way, there]
  rw [lastChange_append, if_pos acknowledged] at last
  exact (Option.some.inj last).symm

theorem put_keeps (sound : Sound E L s) (there : call.key = some key)
    (way : call.method = .put) (meets : PutMeets E L s call key) :
    ∃ t, step E L s call = some t ∧ Sound E L t := by
  obtain ⟨response,after,ran,applies,refuses⟩ := put_follows sound.valid meets
  have routed : route E L call key s.kv = (.ok response, after) := by
    simp only [route, way]
    exact ran
  have follows : Follows E L s.log ⟨call,response,s.kv,after⟩ :=
    (follows_put way there).mpr ⟨applies,refuses⟩
  refine ⟨_,step_answered there routed,?_⟩
  by_cases demanded : PutDemanded call key s.kv
  · obtain ⟨done,names,row,next,same_key,stores,wrote⟩ := applies demanded
    obtain ⟨json,⟨body,filled⟩,number⟩ := demanded
    have valid_key := ((meets json _ number body filled).2.2 rfl).1
    refine sound_written sound follows there valid_key same_key next ?_ wrote
    intro change last _
    have writing : call.method ≠ .get := by
      rw [way]
      exact fun other => nomatch other
    cases acknowledged_last there done writing last
    exact ⟨stores,by rw [next]; exact names⟩
  · have refused := refuses demanded
    exact sound_same sound follows refused.2.2 (refused_unacknowledged refused)

theorem delete_keeps (sound : Sound E L s) (there : call.key = some key)
    (way : call.method = .delete) (meets : DeleteMeets E s call key) :
    ∃ t, step E L s call = some t ∧ Sound E L t := by
  obtain ⟨response,after,ran,applies,refuses⟩ := delete_follows (L := L) sound.valid meets
  have routed : route E L call key s.kv = (.ok response, after) := by
    simp only [route, way]
    exact ran
  have follows : Follows E L s.log ⟨call,response,s.kv,after⟩ :=
    (follows_delete way there).mpr ⟨applies,refuses⟩
  refine ⟨_,step_answered there routed,?_⟩
  by_cases demanded : DeleteDemanded call key s.kv
  · obtain ⟨done,_,row,next,same_key,_,wrote⟩ := applies demanded
    obtain ⟨old,found⟩ := (existing sound.valid).mp demanded.1
    have current := currentVersion_found found
    have valid_key := ((meets _ demanded.2).2 old found (by rw [current])).1
    refine sound_written sound follows there valid_key same_key next ?_ wrote
    intro change last putting
    have writing : call.method ≠ .get := by
      rw [way]
      exact fun other => nomatch other
    cases acknowledged_last there done writing last
    cases way.symm.trans putting
  · have refused := refuses demanded
    exact sound_same sound follows refused.2.2 (refused_unacknowledged refused)

/-- A key whose last change was JSON reads as it. -/
theorem get_follows {change : Exchange} (sound : Sound E L s)
    (last : lastChange s.log key = some change) (meets : GetMeets E L s call key) :
    ∃ response, get E L call key s.kv = (.ok response, s.kv) ∧
      Reads L change ⟨call,response,s.kv,s.kv⟩ := by
  unfold GetMeets at meets
  rw [last] at meets
  obtain ⟨putting,body,json,filled,reads⟩ := meets
  obtain ⟨valid_key,row,found,⟨kept,opens⟩,names⟩ := sound.recorded key change last putting
  have decoded : L.jsonObject ((ofBzCompressedData L (compressed L body)).getD []) = some json := by
    rw [ofBzCompressedData_compressed, reads]
  refine ⟨_,get_reads sound.valid valid_key found kept (opens body filled) decoded,?_,?_,?_⟩
  · rw [names]
    rfl
  · exact fun _ => ⟨rfl,rfl,body,_,json,filled,reads,rfl,L.jsonObject_jsonData body json reads⟩
  · intro deleting
    cases putting.symm.trans deleting

theorem get_keeps (sound : Sound E L s) (there : call.key = some key)
    (way : call.method = .get) (meets : GetMeets E L s call key) :
    ∃ t, step E L s call = some t ∧ Sound E L t := by
  have routed : route E L call key s.kv = get E L call key s.kv := by simp only [route, way]
  cases last : lastChange s.log key with
  | some change =>
    obtain ⟨response,ran,reads⟩ := get_follows sound last meets
    refine ⟨_,step_answered there (routed.trans ran),?_⟩
    have follows : Follows E L s.log ⟨call,response,s.kv,s.kv⟩ := by
      refine (follows_get way there).mpr ?_
      intro other same
      cases last.symm.trans same
      exact reads
    exact sound_same sound follows rfl (get_not_acknowledged way)
  | none =>
    have follows : ∀ response after, Follows E L s.log ⟨call,response,s.kv,after⟩ := by
      intro response after
      refine (follows_get way there).mpr ?_
      intro other same
      cases last.symm.trans same
    by_cases intact : E.settings.keyRegex (getKey key) →
        ∀ old, latest s.kv (getKey key) = some old → ¬ Corrupted E L old
    · obtain ⟨response,ran,_⟩ := get_intact L call sound.valid intact
      refine ⟨_,step_answered there (routed.trans ran),?_⟩
      exact sound_same sound (follows _ _) rfl (get_not_acknowledged way)
    · push Not at intact
      obtain ⟨valid_key,old,found,corrupted⟩ := intact
      unfold GetMeets at meets
      rw [last] at meets
      obtain ⟨response,ran,_⟩ :=
        get_deletes sound.valid valid_key found corrupted (meets valid_key old found corrupted)
      have next : (delRow old call.now).version = currentVersion s.kv (getKey key) + 1 := by
        rw [currentVersion_found found]
        rfl
      have key_found : old.key = boundText (getKey key) := latest_key sound.valid found
      have same_key : (delRow old call.now).key = boundText (getKey key) := key_found
      refine ⟨_,step_answered there (routed.trans ran),?_⟩
      refine sound_written sound (follows _ _) there valid_key same_key next ?_ rfl
      intro change none_yet
      rw [lastChange_append, if_neg (get_not_acknowledged way key), last] at none_yet
      cases none_yet

/-- A request that meets its condition is answered as the contract has it. -/
theorem step_keeps (sound : Sound E L s) (meets : Meets E L s call) :
    ∃ t, step E L s call = some t ∧ Sound E L t := by
  cases there : call.key with
  | none =>
    have follows : Follows E L s.log ⟨call,.ofCode 400,s.kv,s.kv⟩ := by
      intro key same
      cases there.symm.trans same
    exact ⟨_,step_keyless there,
      sound_same sound follows rfl (not_acknowledged (by decide : 400 ≠ 204))⟩
  | some key =>
    have condition := meets key there
    cases way : call.method with
    | get =>
      simp only [way] at condition
      exact get_keeps sound there way condition
    | put =>
      simp only [way] at condition
      exact put_keeps sound there way condition
    | delete =>
      simp only [way] at condition
      exact delete_keeps sound there way condition

/-- A request that was answered as the contract has it met its condition. -/
theorem step_exact (sound : Sound E L s) (taken : step E L s call = some t)
    (each : EachFollows E L t.log) : Meets E L s call := by
  intro key there
  obtain ⟨response,after,ran,same⟩ := step_ran there taken
  subst same
  have follows := (eachFollows_append.mp each).2
  cases way : call.method with
  | put =>
    simp only [route, way] at ran
    exact put_exact ran ((follows_put way there).mp follows).1
  | delete =>
    simp only [route, way] at ran
    exact delete_exact sound.valid ran ((follows_delete way there).mp follows).1
  | get =>
    simp only [route, way] at ran
    have reads := (follows_get way there).mp follows
    change GetMeets E L s call key
    unfold GetMeets
    cases last : lastChange s.log key with
    | some change =>
      obtain ⟨_,putting,deleting⟩ := reads change last
      rcases lastChange_method last with way' | way'
      · obtain ⟨_,_,body,_,json,filled,parsed,_⟩ := putting way'
        exact ⟨way',body,json,filled,parsed⟩
      · have gone : response.statusCode = 410 := deleting way'
        exact absurd gone (get_never_gone sound.valid ran)
    | none =>
      intro valid_key old found corrupted
      by_contra large
      rw [get_stops sound.valid valid_key found corrupted large] at ran
      cases ran

end Step

/-- A run of requests follows the versioning contract, each answered, exactly when each request
    meets its condition in the state it finds. -/
theorem versioning_contract_iff (E : Env) (L : Libraries) (kv : Table)
    (valid : Valid kv) (calls : List Incoming) :
    (∀ done, done <+: calls →
      ∃ t, exec (step E L) ⟨kv,[]⟩ done = some t ∧ EachFollows E L t.log) ↔
    Along (step E L) (Meets E L) ⟨kv,[]⟩ calls := by
  have start : Sound E L ⟨kv,[]⟩ := by
    refine ⟨valid,?_,?_⟩
    · intro earlier e later whole
      cases earlier with
      | nil => cases whole
      | cons _ _ => cases whole
    · intro key change none_yet
      cases none_yet
  exact exec_safe_iff (fun s sound => sound.follows)
    (fun s call sound meets => step_keeps sound meets)
    (fun s call t sound taken each => step_exact sound taken each) start

/-- Libraries whose compression does nothing, and whose JSON is any data that is not empty. -/
def plainLibraries : Libraries where
  Json := List UInt8
  compress := id
  decompress := some
  jsonObject data := if data = [] then none else some data
  jsonData := id
  RFC1123String _ := none
  compress_ne _ filled := filled
  decompress_compress _ _ := rfl
  jsonObject_jsonData data json reads := by
    by_cases empty : data = []
    · rw [if_pos empty] at reads
      cases reads
    · rw [if_neg empty] at reads
      cases reads
      exact if_neg empty

/-- A store that does not encrypt, for one key. -/
def oneKey : Env :=
  { plainEnv with settings := { plainSettings with keyRegex := fun key => key = getKey ['a'] } }

theorem request_plain : ∀ group ∈ [("key".toList, [['a']])], ∀ text ∈ group.2, '\x00' ∉ text := by
  decide

def request (method : Method) (version : List Char) : Incoming where
  method := method
  groups := [("key".toList, [['a']])]
  headers := [("content-type".toList, ["application/json".toList]),
    ("if-none-match".toList, [version])]
  body := some [123,125]
  date := 5000
  now := ⟨5000,[]⟩
  groups_plain := request_plain

/-- A key that is put and deleted reads as never there. -/
theorem deleted_not_gone : ¬ ∀ done,
    done <+: [request .put ['0'],request .delete ['1'],request .get []] →
      ∃ t, exec (step oneKey plainLibraries) ⟨[],[]⟩ done = some t ∧
        EachFollows oneKey plainLibraries t.log := by
  intro answers
  obtain ⟨t,ran,each⟩ := answers _ (List.prefix_refl _)
  have ends : exec (step oneKey plainLibraries) ⟨[],[]⟩
      [request .put ['0'],request .delete ['1'],request .get []] = some ⟨_,[_,_,_]⟩ := rfl
  cases ends.symm.trans ran
  have reads := each [_,_] _ [] rfl ['a'] rfl _ rfl
  exact absurd (reads.2.2 rfl) (by decide)

theorem put_number : (request .put ['0']).ifNoneMatch = some 0 := by decide

theorem put_meets : Meets oneKey plainLibraries ⟨[],[]⟩ (request .put ['0']) := by
  intro key there
  cases there
  intro _ version number body filled
  cases put_number.symm.trans number
  cases filled
  exact ⟨by decide,by decide,fun _ => ⟨by decide,by decide,by decide,by decide⟩⟩

/-- A key that is put reads as what was put. -/
theorem put_then_read : ∃ t, exec (step oneKey plainLibraries) ⟨[],[]⟩
    [request .put ['0'],request .get []] = some t ∧ EachFollows oneKey plainLibraries t.log := by
  refine (versioning_contract_iff oneKey plainLibraries [] VersionLog.numbered_nil _).mpr ?_ _
    (List.prefix_refl _)
  refine ⟨put_meets,fun t taken => ?_⟩
  have stored : step oneKey plainLibraries ⟨[],[]⟩ (request .put ['0']) = some ⟨_,[_]⟩ := rfl
  cases stored.symm.trans taken
  refine ⟨?_,fun _ _ => trivial⟩
  intro key there
  cases there
  exact ⟨rfl,_,_,rfl,rfl⟩

end KVStoreContract
