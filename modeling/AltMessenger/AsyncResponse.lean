import AltMessenger.TransitionRuns

/-!
An HTTP response whose content is provided later, by a call from another thread. What is done
once it is there is given to `done`; a call that comes after the response is complete is refused.
The threads take their steps in any order: a critical section is one step, and so is each of the
assignments a `provide` makes outside of its two sections.
-/
namespace AsyncResponse
open TransitionRuns

abbrev Thread := Nat

def reasonMap : List (Int × String) :=
  [(100, "Continue"), (101, "Switching Protocols"), (200, "OK"), (201, "Created"),
      (202, "Accepted"), (203, "Non-Authoritative Information"), (204, "No Content"),
      (205, "Reset Content"), (206, "Partial Content"), (207, "Multi Status"),
      (208, "Already Reported"), (226, "IM Used"), (300, "Multiple Choices"),
      (301, "Moved Permanently"), (302, "Found"), (303, "See Other"), (304, "Not Modified"),
      (305, "Use Proxy"), (306, "Switch Proxy"), (307, "Temporary Redirect"),
      (308, "Permanent Redirect"), (400, "Bad Request"), (401, "Unauthorized"),
      (402, "Payment Required"), (403, "Forbidden"), (404, "Not Found"),
      (405, "Method Not Allowed"), (406, "Not Acceptable"),
      (407, "Proxy Authentication Required"), (408, "Request Timeout"), (409, "Conflict"),
      (410, "Gone"), (411, "Length Required"), (412, "Precondition Failed"),
      (413, "Request Entity Too Large"), (414, "Request-URI Too Long"),
      (415, "Unsupported Media Type"), (416, "Request Range Not Satisfiable"),
      (417, "Expectation Failed"), (418, "I'm a teapot"), (421, "Misdirected Request"),
      (422, "Unprocessable Entity"), (423, "Locked"), (424, "Failed Dependency"),
      (426, "Upgrade Required"), (428, "Precondition Required"), (429, "Too Many Requests"),
      (431, "Request Header Fields Too Large"), (451, "Unavailable For Leagal Reasons"),
      (500, "Internal Server Error"), (501, "Not Implemented"), (502, "Bad Gateway"),
      (503, "Service Unavailable"), (504, "Gateway Timeout"), (505, "HTTP Version Not Supported"),
      (506, "Variant Also Negotiates"), (507, "Insufficient Storage"), (508, "Loop Detected"),
      (510, "Not Extended"), (511, "Network Authentication Required")]

def reason (status : Int) : Option String := reasonMap.lookup status

/-- The lock of an object: the thread that has it may enter again, and leaves as often. -/
structure Lock where
  owner : Thread
  depth : Nat

/-- `objc_sync_enter`, which waits where it gives nothing. -/
def Lock.enter (lock : Lock) (thread : Thread) : Option Lock :=
  if lock.depth = 0 ∨ lock.owner = thread then some ⟨thread,lock.depth + 1⟩ else none

/-- `objc_sync_exit` -/
def Lock.exit (lock : Lock) : Lock := { lock with depth := lock.depth - 1 }

structure Content where
  statusCode : Option Int
  statusReason : Option String
  headers : Option (List (String × List String))
  body : Option (List UInt8)
  deriving DecidableEq

inductive Assignment where
  | statusCode (status : Int)
  | statusReason (reason : Option String)
  | headers (headers : List (String × List String))
  | body (body : List UInt8)

def Content.assign (content : Content) : Assignment → Content
  | .statusCode status => { content with statusCode := some status }
  | .statusReason reason => { content with statusReason := reason }
  | .headers headers => { content with headers := some headers }
  | .body body => { content with body := some body }

/-- What a `provide` was called with. -/
inductive Provision (Json : Type) where
  | status (status : Int)
  | json (status : Int) (json : Option Json)
  | data (status : Int) (data : List UInt8) (contentType : String)

/-- A callback that ran, and the response it found. -/
structure Sent where
  callback : Nat
  content : Content
  isKilled : Bool
  deriving DecidableEq

structure State where
  content : Content
  onDone : Option Nat
  isDone : Bool
  isKilled : Bool
  lock : Lock
  /-- what a thread between the two sections of a `provide` has left to assign -/
  pending : Thread → Option (List Assignment)
  sent : List Sent

inductive Event (Json : Type) where
  | provide (thread : Thread) (provision : Provision Json)
  | assign (thread : Thread)
  | finish (thread : Thread)
  | kill (thread : Thread)
  | done (thread : Thread) (callback : Nat)

def blank : Content := ⟨none,none,none,none⟩

/-- `init(async:)` -/
def initial : State := ⟨blank,none,false,false,⟨0,0⟩,fun _ => none,[]⟩

def State.exited (s : State) : State := { s with lock := s.lock.exit }

/-- `if self.onDone != nil { self.onDone!() }` -/
def State.runOnDone (s : State) : State :=
  match s.onDone with
  | some callback => { s with sent := s.sent ++ [⟨callback,s.content,s.isKilled⟩] }
  | none => s

def State.setPending (s : State) (thread : Thread) (rest : Option (List Assignment)) : State :=
  { s with pending := fun other => if other = thread then rest else s.pending other }

/-- A critical section, up to its exit. -/
def State.critical (s : State) (thread : Thread) (body : State → State) : Option State :=
  (s.lock.enter thread).map fun lock => body { s with lock }

section Fields
variable (s : State) (thread : Thread) (rest : Option (List Assignment))

@[simp] theorem exited_depth : s.exited.lock.depth = s.lock.depth - 1 := rfl
@[simp] theorem exited_content : s.exited.content = s.content := rfl
@[simp] theorem exited_onDone : s.exited.onDone = s.onDone := rfl
@[simp] theorem exited_isDone : s.exited.isDone = s.isDone := rfl
@[simp] theorem exited_isKilled : s.exited.isKilled = s.isKilled := rfl
@[simp] theorem exited_pending : s.exited.pending = s.pending := rfl
@[simp] theorem exited_sent : s.exited.sent = s.sent := rfl

@[simp] theorem setPending_lock : (s.setPending thread rest).lock = s.lock := rfl
@[simp] theorem setPending_content : (s.setPending thread rest).content = s.content := rfl
@[simp] theorem setPending_onDone : (s.setPending thread rest).onDone = s.onDone := rfl
@[simp] theorem setPending_isDone : (s.setPending thread rest).isDone = s.isDone := rfl
@[simp] theorem setPending_isKilled : (s.setPending thread rest).isKilled = s.isKilled := rfl
@[simp] theorem setPending_sent : (s.setPending thread rest).sent = s.sent := rfl
@[simp] theorem setPending_pending (other : Thread) : (s.setPending thread rest).pending other =
    if other = thread then rest else s.pending other := rfl

@[simp] theorem runOnDone_sent : s.runOnDone.sent = s.sent ++ s.onDone.toList.map fun callback =>
    ⟨callback,s.content,s.isKilled⟩ := by
  rw [State.runOnDone]
  cases s.onDone <;> simp

@[simp] theorem runOnDone_lock : s.runOnDone.lock = s.lock := by
  rw [State.runOnDone]
  cases s.onDone <;> rfl

@[simp] theorem runOnDone_content : s.runOnDone.content = s.content := by
  rw [State.runOnDone]
  cases s.onDone <;> rfl

@[simp] theorem runOnDone_onDone : s.runOnDone.onDone = s.onDone := by
  rw [State.runOnDone]
  split <;> simp [*]

@[simp] theorem runOnDone_isDone : s.runOnDone.isDone = s.isDone := by
  rw [State.runOnDone]
  cases s.onDone <;> rfl

@[simp] theorem runOnDone_isKilled : s.runOnDone.isKilled = s.isKilled := by
  rw [State.runOnDone]
  cases s.onDone <;> rfl

@[simp] theorem runOnDone_pending : s.runOnDone.pending = s.pending := by
  rw [State.runOnDone]
  cases s.onDone <;> rfl

end Fields

section Steps
variable {Json : Type} (serialize : Json → Option (List UInt8))

/-- What a `provide` assigns, in its order. A value that does not serialize is an error 500. -/
def assignments : Provision Json → List Assignment
  | .status status => [.statusCode status, .statusReason (reason status)]
  | .json status none => [.statusCode status, .statusReason (reason status)]
  | .json status (some json) =>
    match serialize json with
    | some jsonData => [.headers [("Content-Type", ["application/json"])], .body jsonData,
        .statusCode status, .statusReason (reason status)]
    | none => [.statusCode 500, .statusReason (reason 500)]
  | .data status data contentType => [.headers [("Content-Type", [contentType])], .body data,
      .statusCode status, .statusReason (reason status)]

/-- The first section of a `provide`; one that comes too late leaves without its exit. -/
def beginProvide (thread : Thread) (provision : Provision Json) (s : State) : State :=
  if s.isDone then s
  else ({ s with isDone := true }.setPending thread (some (assignments serialize provision))).exited

/-- The second section. -/
def endProvide (thread : Thread) (s : State) : State :=
  (({ s with isDone := true }.runOnDone).setPending thread none).exited

def kill (s : State) : State :=
  if s.isDone then s
  else ({ s with isDone := true, isKilled := true }.runOnDone).exited

def done (onDone : Nat) (s : State) : State :=
  if s.isDone then ({ s with onDone := some onDone }.runOnDone).exited
  else { s with onDone := some onDone }.exited

/-- A thread that is in a `provide` goes on with it before it calls anything else. -/
def step (s : State) : Event Json → Option State
  | .provide thread provision =>
    match s.pending thread with
    | none => s.critical thread (beginProvide serialize thread provision)
    | some _ => none
  | .assign thread =>
    match s.pending thread with
    | some (assignment :: rest) =>
      some ({ s with content := s.content.assign assignment }.setPending thread (some rest))
    | _ => none
  | .finish thread =>
    match s.pending thread with
    | some [] => s.critical thread (endProvide thread)
    | _ => none
  | .kill thread =>
    match s.pending thread with
    | none => s.critical thread kill
    | some _ => none
  | .done thread callback =>
    match s.pending thread with
    | none => s.critical thread (done callback)
    | some _ => none

/-- The response a `provide` is called for. -/
def provided (provision : Provision Json) : Content :=
  (assignments serialize provision).foldl Content.assign blank

/-- A call comes in order: a `provide` or a `kill` while the response is not complete, and a `done`
    then too, or else after the `provide`, and first. -/
def Orderly (s : State) : Event Json → Prop
  | .provide _ _ => s.isDone = false
  | .kill _ => s.isDone = false
  | .done _ _ => s.isDone = true → s.onDone = none ∧ ∀ thread, s.pending thread = none
  | .assign _ => True
  | .finish _ => True

/-- The response was killed, or holds all that one `provide` was called for. -/
def Whole (log : List (Event Json)) (content : Content) (isKilled : Bool) : Prop :=
  (isKilled = true ∧ ∃ thread, .kill thread ∈ log) ∨
    ∃ thread provision, .provide thread provision ∈ log ∧ content = provided serialize provision

/-- What holds after these steps: each lock is released, and the callback ran at most once, on a
    whole response and not while a `provide` was under way, and did so once the response and the
    callback were there. -/
structure SentOnce (log : List (Event Json)) (s : State) : Prop where
  released : s.lock.depth = 0
  once : s.sent.length ≤ 1
  whole : ∀ sent ∈ s.sent, (∃ thread, .done thread sent.callback ∈ log) ∧
    Whole serialize log sent.content sent.isKilled
  settled : s.sent ≠ [] → ∀ thread, s.pending thread = none
  delivered : (∃ thread callback, .done thread callback ∈ log) →
    (∃ thread, .finish thread ∈ log ∨ .kill thread ∈ log) → s.sent.length = 1

/-- Where a response is on its way: nothing was called for, one `provide` is between its two
    sections, or the response is complete. -/
inductive Phase (log : List (Event Json)) (s : State) : Prop
  | waiting (incomplete : s.isDone = false) (idle : ∀ thread, s.pending thread = none)
      (unsent : s.sent = []) (empty : s.content = blank)
      (early : ∀ thread, .finish thread ∉ log ∧ .kill thread ∉ log)
  | filling (thread : Thread) (provision : Provision Json) (rest : List Assignment)
      (called : .provide thread provision ∈ log) (complete : s.isDone = true)
      (busy : ∀ other, s.pending other = if other = thread then some rest else none)
      (unsent : s.sent = [])
      (filled : rest.foldl Content.assign s.content = provided serialize provision)
      (early : ∀ thread, .finish thread ∉ log ∧ .kill thread ∉ log)
  | closed (complete : s.isDone = true) (idle : ∀ thread, s.pending thread = none)
      (sent : s.sent = s.onDone.toList.map fun callback => ⟨callback,s.content,s.isKilled⟩)
      (whole : Whole serialize log s.content s.isKilled)

structure Sound (log : List (Event Json)) (s : State) : Prop where
  free : s.lock.depth = 0
  known : ∀ callback, s.onDone = some callback → ∃ thread, .done thread callback ∈ log
  registered : ∀ thread callback, .done thread callback ∈ log → s.onDone ≠ none
  phase : Phase serialize log s

variable {serialize} {log : List (Event Json)} {s t : State} {e : Event Json}

theorem Whole.later {content : Content} {isKilled : Bool} (whole : Whole serialize log content isKilled) :
    Whole serialize (log ++ [e]) content isKilled := by
  rcases whole with ⟨killed,thread,called⟩ | ⟨thread,provision,called,same⟩
  · exact Or.inl ⟨killed,thread,List.mem_append_left _ called⟩
  · exact Or.inr ⟨thread,provision,List.mem_append_left _ called,same⟩

theorem initial_sound : Sound serialize [] initial where
  free := rfl
  known _ same := by cases same
  registered _ _ called := by cases called
  phase := .waiting rfl (fun _ => rfl) rfl rfl fun _ => by simp

/-- What a step does. A section adds one to the depth of the lock when it enters. -/
def Took (serialize : Json → Option (List UInt8)) (s t : State) : Event Json → Prop
  | .provide thread provision => s.pending thread = none ∧
      ∃ lock : Lock, lock.depth = s.lock.depth + 1 ∧
        t = beginProvide serialize thread provision { s with lock }
  | .assign thread => ∃ assignment rest, s.pending thread = some (assignment :: rest) ∧
      t = { s with content := s.content.assign assignment }.setPending thread (some rest)
  | .finish thread => s.pending thread = some [] ∧
      ∃ lock : Lock, lock.depth = s.lock.depth + 1 ∧ t = endProvide thread { s with lock }
  | .kill thread => s.pending thread = none ∧
      ∃ lock : Lock, lock.depth = s.lock.depth + 1 ∧ t = kill { s with lock }
  | .done thread callback => s.pending thread = none ∧
      ∃ lock : Lock, lock.depth = s.lock.depth + 1 ∧ t = done callback { s with lock }

theorem critical_took {thread : Thread} {body : State → State}
    (took : s.critical thread body = some t) :
    ∃ lock : Lock, lock.depth = s.lock.depth + 1 ∧ t = body { s with lock } := by
  rw [State.critical, Lock.enter] at took
  split_ifs at took
  · cases took
    exact ⟨_,rfl,rfl⟩
  · cases took

theorem step_took (took : step serialize s e = some t) : Took serialize s t e := by
  cases e with
  | assign thread =>
    simp only [step] at took
    split at took
    case h_1 assignment rest pending =>
      cases took
      exact ⟨assignment,rest,pending,rfl⟩
    case h_2 => cases took
  | finish thread =>
    simp only [step] at took
    split at took
    case h_1 pending => exact ⟨pending,critical_took took⟩
    case h_2 => cases took
  | provide thread provision =>
    simp only [step] at took
    split at took
    case h_1 idle => exact ⟨idle,critical_took took⟩
    case h_2 => cases took
  | kill thread =>
    simp only [step] at took
    split at took
    case h_1 idle => exact ⟨idle,critical_took took⟩
    case h_2 => cases took
  | done thread callback =>
    simp only [step] at took
    split at took
    case h_1 idle => exact ⟨idle,critical_took took⟩
    case h_2 => cases took

/-- What is sound sends once. -/
theorem Sound.sends (sound : Sound serialize log s) : SentOnce serialize log s := by
  obtain ⟨free,known,registered,phase⟩ := sound
  cases phase with
  | waiting incomplete idle unsent empty early =>
    refine ⟨free,by simp [unsent],by simp [unsent],fun _ => idle,?_⟩
    rintro _ ⟨thread,finished | killed⟩
    · exact absurd finished (early thread).1
    · exact absurd killed (early thread).2
  | filling thread provision rest called complete busy unsent filled early =>
    refine ⟨free,by simp [unsent],by simp [unsent],fun sent => absurd unsent sent,?_⟩
    rintro _ ⟨thread,finished | killed⟩
    · exact absurd finished (early thread).1
    · exact absurd killed (early thread).2
  | closed complete idle sent whole =>
    cases given : s.onDone with
    | none =>
      rw [given] at sent
      refine ⟨free,by simp [sent],by simp [sent],fun _ => idle,?_⟩
      rintro ⟨thread,callback,called⟩
      exact absurd given (registered thread callback called)
    | some callback =>
      rw [given] at sent
      refine ⟨free,by simp [sent],?_,fun _ => idle,fun _ _ => by simp [sent]⟩
      intro one there
      simp only [sent, Option.toList_some, List.map_cons, List.map_nil, List.mem_singleton] at there
      subst there
      exact ⟨known callback given,whole⟩

theorem sound_provide {thread : Thread} {provision : Provision Json}
    (sound : Sound serialize log s) (incomplete : s.isDone = false)
    (took : step serialize s (.provide thread provision) = some t) :
    Sound serialize (log ++ [.provide thread provision]) t := by
  obtain ⟨free,known,registered,phase⟩ := sound
  obtain ⟨_,lock,depth,rfl⟩ := step_took took
  simp only [beginProvide, incomplete, Bool.false_eq_true, if_false]
  cases phase with
  | waiting incomplete idle unsent empty early =>
    refine ⟨by simp [depth, free],by simpa using known,by simpa using registered,?_⟩
    refine .filling thread provision (assignments serialize provision) (by simp) rfl ?_ unsent ?_
      (by simpa using early)
    · intro other
      simp [idle]
    · simp [empty, provided]
  | filling thread provision rest called complete => simp [incomplete] at complete
  | closed complete => simp [incomplete] at complete

theorem sound_assign {thread : Thread} (sound : Sound serialize log s)
    (took : step serialize s (.assign thread : Event Json) = some t) :
    Sound serialize (log ++ [.assign thread]) t := by
  obtain ⟨free,known,registered,phase⟩ := sound
  obtain ⟨assignment,rest,pending,rfl⟩ := step_took took
  cases phase with
  | waiting incomplete idle => simp [idle] at pending
  | closed complete idle => simp [idle] at pending
  | filling caller provision left called complete busy unsent filled early =>
    rw [busy] at pending
    split_ifs at pending with same
    cases pending
    refine ⟨free,by simpa using known,by simpa using registered,?_⟩
    refine .filling caller provision rest (by simp [called]) complete ?_ unsent filled
      (by simpa using early)
    intro other
    by_cases mine : other = caller <;> simp [busy, same, mine]

theorem sound_finish {thread : Thread} (sound : Sound serialize log s)
    (took : step serialize s (.finish thread : Event Json) = some t) :
    Sound serialize (log ++ [.finish thread]) t := by
  obtain ⟨free,known,registered,phase⟩ := sound
  obtain ⟨pending,lock,depth,rfl⟩ := step_took took
  simp only [endProvide]
  cases phase with
  | waiting incomplete idle => simp [idle] at pending
  | closed complete idle => simp [idle] at pending
  | filling caller provision left called complete busy unsent filled early =>
    rw [busy] at pending
    split_ifs at pending with same
    cases pending
    refine ⟨by simp [depth, free],by simpa using known,by simpa using registered,?_⟩
    refine .closed (by simp) ?_ (by simp [unsent]) ?_
    · intro other
      by_cases mine : other = caller <;> simp [busy, same, mine]
    · exact Or.inr ⟨caller,provision,by simp [called],by simpa using filled⟩

theorem sound_kill {thread : Thread} (sound : Sound serialize log s) (incomplete : s.isDone = false)
    (took : step serialize s (.kill thread : Event Json) = some t) :
    Sound serialize (log ++ [.kill thread]) t := by
  obtain ⟨free,known,registered,phase⟩ := sound
  obtain ⟨_,lock,depth,rfl⟩ := step_took took
  simp only [kill, incomplete, Bool.false_eq_true, if_false]
  cases phase with
  | filling thread provision rest called complete => simp [incomplete] at complete
  | closed complete => simp [incomplete] at complete
  | waiting _ idle unsent empty early =>
    refine ⟨by simp [depth, free],by simpa using known,by simpa using registered,?_⟩
    refine .closed (by simp) (by simpa using idle) (by simp [unsent]) ?_
    exact Or.inl ⟨by simp,thread,by simp⟩

theorem sound_done {thread : Thread} {callback : Nat} (sound : Sound serialize log s)
    (orderly : s.isDone = true → s.onDone = none ∧ ∀ thread, s.pending thread = none)
    (took : step serialize s (.done thread callback : Event Json) = some t) :
    Sound serialize (log ++ [.done thread callback]) t := by
  obtain ⟨free,known,registered,phase⟩ := sound
  obtain ⟨_,lock,depth,rfl⟩ := step_took took
  cases phase with
  | waiting incomplete idle unsent empty early =>
    simp only [done, incomplete, Bool.false_eq_true, if_false]
    refine ⟨by simp [depth, free],by simp,by simp,?_⟩
    exact .waiting (by simp) (by simpa using idle) unsent empty
      (by simpa using early)
  | filling caller provision left called complete busy unsent filled early =>
    have none_pending := (orderly complete).2 caller
    simp [busy] at none_pending
  | closed complete idle sent whole =>
    have unset := (orderly complete).1
    simp only [done, complete, if_true]
    refine ⟨by simp [depth, free],by simp,by simp,?_⟩
    refine .closed (by simp) (by simpa using idle) (by simp [sent, unset]) ?_
    simpa using whole.later

theorem sound_step (sound : Sound serialize log s) (orderly : Orderly s e)
    (took : step serialize s e = some t) : Sound serialize (log ++ [e]) t := by
  cases e with
  | provide thread provision => exact sound_provide sound orderly took
  | assign thread => exact sound_assign sound took
  | finish thread => exact sound_finish sound took
  | kill thread => exact sound_kill sound orderly took
  | done thread callback => exact sound_done sound orderly took

/-- Once the response is complete and nobody is at it, a callback that was given has run. -/
def Delivered (s : State) : Prop :=
  s.isDone = true → s.onDone ≠ none → (∀ thread, s.pending thread = none) → s.sent ≠ []

/-- The marks a call out of order leaves: a lock that is not released, a callback that ran twice,
    or one that ran while a `provide` was under way. -/
inductive Disorder (s : State) : Prop
  | kept (locked : 0 < s.lock.depth)
  | twice (again : 2 ≤ s.sent.length)
  | early (complete : s.isDone = true) (given : s.onDone ≠ none) (ran : s.sent ≠ [])
      (thread : Thread) (busy : s.pending thread ≠ none)

theorem delivered_step (delivered : Delivered s) (took : step serialize s e = some t) :
    Delivered t := by
  have took := step_took took
  cases e with
  | provide thread provision =>
    obtain ⟨_,lock,_,rfl⟩ := took
    by_cases complete : s.isDone = true
    · simpa [beginProvide, complete, Delivered] using delivered
    · intro _ _ idle
      have pending := idle thread
      simp [beginProvide, complete] at pending
  | assign thread =>
    obtain ⟨assignment,rest,_,rfl⟩ := took
    intro _ _ idle
    have pending := idle thread
    simp at pending
  | finish thread =>
    obtain ⟨_,lock,_,rfl⟩ := took
    intro _ given _
    simp only [endProvide, exited_onDone, setPending_onDone, runOnDone_onDone] at given
    obtain ⟨callback,given⟩ := Option.ne_none_iff_exists'.mp given
    simp [endProvide, given]
  | kill thread =>
    obtain ⟨_,lock,_,rfl⟩ := took
    by_cases complete : s.isDone = true
    · simpa [kill, complete, Delivered] using delivered
    · intro _ given _
      have given : s.onDone ≠ none := by simpa [kill, complete] using given
      obtain ⟨callback,given⟩ := Option.ne_none_iff_exists'.mp given
      simp [kill, complete, given]
  | done thread callback =>
    obtain ⟨_,lock,_,rfl⟩ := took
    by_cases complete : s.isDone = true
    · intro _ _ _
      simp [done, complete]
    · intro done_complete
      simp [done, complete] at done_complete

theorem disorder_breaks (delivered : Delivered s) (disorderly : ¬ Orderly s e)
    (took : step serialize s e = some t) : Disorder t := by
  have took := step_took took
  cases e with
  | provide thread provision =>
    obtain ⟨_,lock,depth,rfl⟩ := took
    have complete : s.isDone = true := by simpa [Orderly] using disorderly
    exact .kept (by simp [beginProvide, complete, depth])
  | kill thread =>
    obtain ⟨_,lock,depth,rfl⟩ := took
    have complete : s.isDone = true := by simpa [Orderly] using disorderly
    exact .kept (by simp [kill, complete, depth])
  | assign thread => exact absurd trivial disorderly
  | finish thread => exact absurd trivial disorderly
  | done thread callback =>
    obtain ⟨_,lock,_,rfl⟩ := took
    obtain ⟨complete,disorderly⟩ := Classical.not_imp.mp disorderly
    by_cases idle : ∀ thread, s.pending thread = none
    · have given : s.onDone ≠ none := fun unset => disorderly ⟨unset,idle⟩
      have ran := List.length_pos_of_ne_nil (delivered complete given idle)
      refine .twice ?_
      simp only [done, complete, if_true, exited_sent, runOnDone_sent, List.length_append]
      simp
      omega
    · obtain ⟨other,busy⟩ := not_forall.mp idle
      exact .early (by simp [done, complete]) (by simp [done, complete])
        (by simp [done, complete]) other (by simpa [done, complete] using busy)

theorem depth_grows (took : step serialize s e = some t) : s.lock.depth ≤ t.lock.depth := by
  have took := step_took took
  cases e with
  | assign thread =>
    obtain ⟨assignment,rest,_,rfl⟩ := took
    exact Nat.le_refl _
  | finish thread =>
    obtain ⟨_,lock,depth,rfl⟩ := took
    simp [endProvide, depth]
  | provide thread provision =>
    obtain ⟨_,lock,depth,rfl⟩ := took
    by_cases complete : s.isDone = true <;> simp [beginProvide, complete, depth]
  | kill thread =>
    obtain ⟨_,lock,depth,rfl⟩ := took
    by_cases complete : s.isDone = true <;> simp [kill, complete, depth]
  | done thread callback =>
    obtain ⟨_,lock,depth,rfl⟩ := took
    by_cases complete : s.isDone = true <;> simp [done, complete, depth]

theorem sent_grows (took : step serialize s e = some t) : s.sent.length ≤ t.sent.length := by
  have took := step_took took
  cases e with
  | assign thread =>
    obtain ⟨assignment,rest,_,rfl⟩ := took
    exact Nat.le_refl _
  | finish thread =>
    obtain ⟨_,lock,_,rfl⟩ := took
    simp [endProvide]
  | provide thread provision =>
    obtain ⟨_,lock,_,rfl⟩ := took
    by_cases complete : s.isDone = true <;> simp [beginProvide, complete]
  | kill thread =>
    obtain ⟨_,lock,_,rfl⟩ := took
    by_cases complete : s.isDone = true <;> simp [kill, complete]
  | done thread callback =>
    obtain ⟨_,lock,_,rfl⟩ := took
    by_cases complete : s.isDone = true <;> simp [done, complete]

theorem disorder_stays (disorder : Disorder s) (took : step serialize s e = some t) :
    Disorder t := by
  cases disorder with
  | kept locked => exact .kept (Nat.lt_of_lt_of_le locked (depth_grows took))
  | twice again => exact .twice (Nat.le_trans again (sent_grows took))
  | early complete given ran other busy =>
    have ran_once := List.length_pos_of_ne_nil ran
    obtain ⟨callback,given⟩ := Option.ne_none_iff_exists'.mp given
    have took := step_took took
    cases e with
    | provide thread provision =>
      obtain ⟨_,lock,depth,rfl⟩ := took
      exact .kept (by simp [beginProvide, complete, depth])
    | assign thread =>
      obtain ⟨assignment,rest,_,rfl⟩ := took
      refine .early (by simpa using complete) (by simp [given]) (by simpa using ran) other ?_
      by_cases mine : other = thread <;> simp [mine, busy]
    | finish thread =>
      obtain ⟨_,lock,_,rfl⟩ := took
      exact .twice (by simp [endProvide, given]; omega)
    | kill thread =>
      obtain ⟨_,lock,depth,rfl⟩ := took
      exact .kept (by simp [kill, complete, depth])
    | done thread callback =>
      obtain ⟨_,lock,_,rfl⟩ := took
      exact .twice (by simp [done, complete]; omega)

theorem disorder_not_sentOnce (disorder : Disorder s) : ¬ SentOnce serialize log s := by
  rintro ⟨released,once,_,settled,_⟩
  cases disorder with
  | kept locked => omega
  | twice again => omega
  | early _ _ ran thread busy => exact busy (settled ran thread)

/-- In a run the response is sent once and whole, and each lock is released, just when its calls
    come in order. -/
theorem sent_once_iff {Json : Type} (serialize : Json → Option (List UInt8))
    (events : List (Event Json)) (t : State)
    (run : exec (step serialize) initial events = some t) :
    SentOnce serialize events t ↔ Along (step serialize) Orderly initial events := by
  constructor
  · intro sent
    have start : Delivered initial := by simp [Delivered, initial]
    rcases exec_breaks (fun _ _ _ => delivered_step) (fun _ _ _ => disorder_breaks)
      (fun _ _ _ => disorder_stays) start run with orderly | disorder
    · exact orderly
    · exact absurd sent (disorder_not_sentOnce disorder)
  · intro orderly
    exact (exec_logged (Sound serialize) (fun _ _ _ _ => sound_step) [] initial_sound orderly
      run).sends

end Steps

/-- A value provided after its callback was given. -/
def servedEvents : List (Event Unit) :=
  [.done 1 7, .provide 2 (.data 200 [1, 2] "image/jpeg"), .assign 2, .assign 2, .assign 2,
    .assign 2, .finish 2]

theorem served_is_some : (exec (step fun _ => none) initial servedEvents).isSome := by decide

theorem response_served : SentOnce (fun _ => none) servedEvents
    ((exec (step fun _ => none) initial servedEvents).get served_is_some) :=
  (sent_once_iff (fun _ => none) servedEvents _ (Option.some_get served_is_some).symm).mpr (by
    simp [servedEvents, Along, Orderly, step, initial, State.critical, Lock.enter, done])

/-- A `done` between the two sections of a `provide`. -/
def interruptedEvents : List (Event Unit) := [.provide 1 (.status 200), .done 2 7]

theorem interrupted_is_some : (exec (step fun _ => none) initial interruptedEvents).isSome := by
  decide

/-- The `done` finds the response complete, and runs its callback on one that is still empty. -/
theorem empty_response_sent : ¬ ∀ (Json : Type) (serialize : Json → Option (List UInt8))
    (events : List (Event Json)) (t : State), exec (step serialize) initial events = some t →
    SentOnce serialize events t := by
  intro claim
  have sent := claim Unit (fun _ => none) interruptedEvents _
    (Option.some_get interrupted_is_some).symm
  have empty : ⟨7,blank,false⟩ ∈
    ((exec (step fun _ => none) initial interruptedEvents).get interrupted_is_some).sent := by decide
  rcases (sent.whole _ empty).2 with ⟨killed,_⟩ | ⟨thread,provision,called,same⟩
  · cases killed
  · simp only [interruptedEvents, List.mem_cons, reduceCtorEq, or_false,
      Event.provide.injEq, List.not_mem_nil] at called
    rw [called.2] at same
    cases same

end AsyncResponse
