import AltMessenger.SwiftText
import AltMessenger.TransitionRuns

/-!
The requests of the API client. A request that the server challenges waits for a token and is sent
again; those that are challenged while a token is being fetched wait for this fetch, in a group.
What is decided is decided on the main queue, one block at a time; answers come in any order.
-/
namespace APIRequests
open SwiftText TransitionRuns

abbrev Data := List UInt8

structure NSError where
  domain : String
  code : Int
  deriving DecidableEq, Repr

def errorDomain : String := "BRApiClientErrorDomain"

structure HTTPResponse where
  statusCode : Int
  headers : List (List Char × List Char)
  deriving DecidableEq, Repr

/-- `get(lowercasedKey:)` -/
def getLowercased (headers : List (List Char × List Char)) (key : List Char) :
    Option (List Char) :=
  match headers.lookup (lowercased key) with
  | some value => some value
  | none => (headers.find? fun header => lowercased header.1 == lowercased key).map Prod.snd

def HTTPResponse.isBreadChallenge (response : HTTPResponse) : Bool :=
  match getLowercased response.headers "www-authenticate".toList with
  | some challenge => "bread".toList.isPrefixOf (lowercased challenge)
  | none => false

/-- What a data task gives; the response is there if it is one of HTTP. -/
structure Answer where
  data : Option Data
  resp : Option HTTPResponse
  err : Option NSError
  deriving DecidableEq, Repr

/-- A data task of a call, which is named by its number. -/
structure Task where
  call : Nat
  authenticated : Bool
  retryCount : Nat
  deriving DecidableEq, Repr

/-- A request that was challenged, and the challenge: what a token's handler has in hand. -/
structure Challenged where
  task : Task
  data : Option Data
  resp : HTTPResponse
  deriving DecidableEq, Repr

structure Client where
  isFetchingAuth : Bool
  /-- the enters of `authFetchGroup` less the leaves -/
  group : Int
  /-- the requests in flight -/
  tasks : List Task
  /-- the token fetches in flight, with their handlers -/
  fetches : List Challenged
  /-- the handlers to be notified by the group -/
  waiting : List Challenged
  /-- the notified handlers, on the main queue -/
  queued : List Challenged
  /-- the retries put off by `asyncAfter` -/
  delayed : List Task
  /-- the calls of handlers, with what they are given -/
  handled : List (Nat × Answer)
  /-- the calls whose requests were sent, once for each time -/
  sent : List Nat
  /-- the calls of `dataTaskWithRequest` from outside -/
  calls : Nat
  deriving DecidableEq

def initial : Client := ⟨false,0,[],[],[],[],[],[],[],0⟩

inductive Event where
  | call (authenticated : Bool) (retryCount : Nat)
  /-- a request's answer; whether there is a key then, and the token's request can be written -/
  | answer (task : Nat) (answer : Answer) (hasAuthKey serialized : Bool)
  | tokenAnswer (fetch : Nat) (answer : Answer)
  | notified (queued : Nat)
  | retry (delayed : Nat)

namespace Client

/-- `dataTaskWithRequest` and the `resume` of its task -/
def send (s : Client) (task : Task) : Client :=
  { s with tasks := s.tasks ++ [task], sent := s.sent ++ [task.call] }

def handler (s : Client) (task : Task) (answer : Answer) : Client :=
  { s with handled := s.handled ++ [(task.call, answer)] }

def enter (s : Client) : Client := { s with group := s.group + 1 }

/-- The blocks of the group go to the main queue when it is empty. -/
def leave (s : Client) : Client :=
  if s.group = 1 then { s with group := 0, waiting := [], queued := s.queued ++ s.waiting }
  else { s with group := s.group - 1 }

def notify (s : Client) (challenged : Challenged) : Client :=
  if s.group = 0 then { s with queued := s.queued ++ [challenged] }
  else { s with waiting := s.waiting ++ [challenged] }

def setFetchingAuth (s : Client) (isFetchingAuth : Bool) : Client := { s with isFetchingAuth }

/-- The handler that a challenged request gives to `getToken`. -/
def retrieved (s : Client) (challenged : Challenged) (err : Option NSError) : Client :=
  let task := challenged.task
  let again := { task with retryCount := task.retryCount + 1 }
  if err ≠ none ∧ task.retryCount < 1 then { s with delayed := s.delayed ++ [again] }
  else if err ≠ none ∧ task.retryCount > 0 then s.handler task ⟨none,none,err⟩
  else if task.retryCount < 1 then s.send again
  else s.handler task ⟨challenged.data,some challenged.resp,err⟩

def getToken (s : Client) (challenged : Challenged) (hasAuthKey serialized : Bool) : Client :=
  if s.isFetchingAuth then s.notify challenged
  else if hasAuthKey = false then s.retrieved challenged (some ⟨errorDomain,500⟩)
  else
    let s := (s.setFetchingAuth true).enter
    if serialized then { s with fetches := s.fetches ++ [challenged] }
    else (s.setFetchingAuth false).leave.retrieved challenged (some ⟨errorDomain,500⟩)

def answered (s : Client) (task : Task) (answer : Answer) (hasAuthKey serialized : Bool) :
    Client :=
  match answer.resp with
  | some resp =>
    if task.authenticated && resp.isBreadChallenge then
      s.getToken ⟨task,answer.data,resp⟩ hasAuthKey serialized
    else s.handler task answer
  | none => s.handler task answer

/-- What a fetch's handler is called with. -/
def tokenError (answer : Answer) : Option NSError :=
  match answer.resp with
  | some resp => if resp.statusCode ≠ 200 then some ⟨errorDomain,resp.statusCode⟩ else answer.err
  | none => answer.err

def tokenAnswered (s : Client) (challenged : Challenged) (answer : Answer) : Client :=
  (s.setFetchingAuth false).leave.retrieved challenged (tokenError answer)

end Client

def step (s : Client) : Event → Option Client
  | .call authenticated retryCount =>
    some ({ s with calls := s.calls + 1 }.send ⟨s.calls,authenticated,retryCount⟩)
  | .answer i answer hasAuthKey serialized =>
    s.tasks[i]?.map fun task =>
      { s with tasks := s.tasks.eraseIdx i }.answered task answer hasAuthKey serialized
  | .tokenAnswer i answer =>
    s.fetches[i]?.map fun challenged =>
      { s with fetches := s.fetches.eraseIdx i }.tokenAnswered challenged answer
  | .notified i =>
    s.queued[i]?.map fun challenged =>
      { s with queued := s.queued.eraseIdx i }.retrieved challenged none
  | .retry i => s.delayed[i]?.map fun task => { s with delayed := s.delayed.eraseIdx i }.send task

/-- The tasks that are somewhere, each weighed by where it is: in flight, in the hands of a
    token's handler, or put off. -/
def total (inFlight inHand putOff : Task → Nat) (s : Client) : Nat :=
  (s.tasks.map inFlight).sum
    + ((s.fetches ++ s.waiting ++ s.queued).map fun challenged => inHand challenged.task).sum
    + (s.delayed.map putOff).sum

/-- The token's handler is done with a task: the call is answered, or will be sent once more. -/
inductive Done (s : Client) (task : Task) (t : Client) : Prop
  | answered (answer : Answer) (calls : t.calls = s.calls)
      (handled : t.handled = s.handled ++ [(task.call, answer)]) (sent : t.sent = s.sent)
      (weighs : ∀ V H D, total V H D t = total V H D s)
  | resent (first : task.retryCount = 0) (calls : t.calls = s.calls)
      (handled : t.handled = s.handled) (sent : t.sent = s.sent ++ [task.call])
      (weighs : ∀ V H D, total V H D t = total V H D s + V { task with retryCount := 1 })
  | putOff (first : task.retryCount = 0) (calls : t.calls = s.calls)
      (handled : t.handled = s.handled) (sent : t.sent = s.sent)
      (weighs : ∀ V H D, total V H D t = total V H D s + D { task with retryCount := 1 })

/-- The task is in the hands of a token's handler, which has not been called yet. -/
structure Waits (s : Client) (task : Task) (t : Client) : Prop where
  calls : t.calls = s.calls
  handled : t.handled = s.handled
  sent : t.sent = s.sent
  weighs : ∀ V H D, total V H D t = total V H D s + H task

/-- At most one fetch, known by the flag and by the group, and nobody waits without one. -/
structure Fetching (s : Client) : Prop where
  one : s.fetches.length ≤ 1
  flag : s.isFetchingAuth = true ↔ s.fetches ≠ []
  group : s.group = s.fetches.length
  waiting : s.fetches = [] → s.waiting = []

theorem sum_eraseIdx {α : Type} {l : List α} {i : Nat} {a : α} (weight : α → Nat)
    (there : l[i]? = some a) : (l.map weight).sum = ((l.eraseIdx i).map weight).sum + weight a := by
  induction l generalizing i with
  | nil => cases there
  | cons b l ih =>
    cases i with
    | zero =>
      cases there
      exact Nat.add_comm _ _
    | succ i =>
      have rest := ih there
      simp only [List.eraseIdx_cons_succ, List.map_cons, List.sum_cons]
      omega

section Passing
variable {s : Client} {task : Task} {challenged : Challenged}

theorem send_total (V H D : Task → Nat) (task : Task) :
    total V H D (s.send task) = total V H D s + V task := by
  simp only [total, Client.send, List.map_append, List.sum_append, List.map_cons, List.map_nil,
    List.sum_cons, List.sum_nil]
  omega

theorem handler_done (answer : Answer) : Done s task (s.handler task answer) :=
  .answered answer rfl rfl rfl fun _ _ _ => rfl

theorem retrieved_done (err : Option NSError) :
    Done s challenged.task (s.retrieved challenged err) := by
  unfold Client.retrieved
  dsimp only
  split
  case isTrue again =>
    have first : challenged.task.retryCount = 0 := Nat.lt_one_iff.mp again.2
    refine .putOff first rfl rfl rfl fun V H D => ?_
    simp only [total, first, Nat.zero_add, List.map_append, List.sum_append, List.map_cons,
      List.map_nil, List.sum_cons, List.sum_nil]
    omega
  case isFalse =>
    split
    case isTrue => exact handler_done _
    case isFalse =>
      split
      case isTrue again =>
        have first : challenged.task.retryCount = 0 := Nat.lt_one_iff.mp again
        refine .resent first rfl rfl rfl fun V H D => ?_
        rw [send_total, first]
      case isFalse => exact handler_done _

theorem notify_waits : Waits s challenged.task (s.notify challenged) := by
  unfold Client.notify
  split
  · refine ⟨rfl,rfl,rfl,fun V H D => ?_⟩
    simp only [total, List.map_append, List.sum_append, List.map_cons, List.map_nil,
      List.sum_cons, List.sum_nil]
    omega
  · refine ⟨rfl,rfl,rfl,fun V H D => ?_⟩
    simp only [total, List.map_append, List.sum_append, List.map_cons, List.map_nil,
      List.sum_cons, List.sum_nil]
    omega

/-- The same calls, answers and requests sent, and the same tasks somewhere. -/
def SameBooks (r s : Client) : Prop :=
  r.calls = s.calls ∧ r.handled = s.handled ∧ r.sent = s.sent ∧
    ∀ V H D, total V H D r = total V H D s

theorem leave_same : SameBooks s.leave s := by
  unfold Client.leave
  split
  · refine ⟨rfl,rfl,rfl,fun V H D => ?_⟩
    simp only [total, List.map_append, List.sum_append, List.map_nil, List.sum_nil]
    omega
  · exact ⟨rfl,rfl,rfl,fun _ _ _ => rfl⟩

theorem Done.of_same {r t : Client} (done : Done r task t) (same : SameBooks r s) :
    Done s task t := by
  obtain ⟨calls,handled,sent,weighs⟩ := same
  cases done with
  | answered answer calls' handled' sent' weighs' =>
    exact .answered answer (calls'.trans calls) (handled ▸ handled') (sent'.trans sent)
      fun V H D => (weighs' V H D).trans (weighs V H D)
  | resent first calls' handled' sent' weighs' =>
    exact .resent first (calls'.trans calls) (handled'.trans handled) (sent ▸ sent')
      fun V H D => (weighs' V H D).trans (by rw [weighs V H D])
  | putOff first calls' handled' sent' weighs' =>
    exact .putOff first (calls'.trans calls) (handled'.trans handled) (sent'.trans sent)
      fun V H D => (weighs' V H D).trans (by rw [weighs V H D])

/-- The group is left before the handler is called. -/
theorem left_retrieved_done {r : Client} (same : SameBooks r s) (isFetchingAuth : Bool)
    (err : Option NSError) :
    Done s challenged.task
      ((r.setFetchingAuth isFetchingAuth).leave.retrieved challenged err) := by
  have left : SameBooks (r.setFetchingAuth isFetchingAuth).leave r := leave_same
  exact ((retrieved_done err).of_same left).of_same same

theorem getToken_passes (challenged : Challenged) (hasAuthKey serialized : Bool) :
    Done s challenged.task (s.getToken challenged hasAuthKey serialized) ∨
      Waits s challenged.task (s.getToken challenged hasAuthKey serialized) := by
  unfold Client.getToken
  split
  case isTrue => exact Or.inr notify_waits
  case isFalse =>
    split
    case isTrue => exact Or.inl (retrieved_done _)
    case isFalse =>
      dsimp only
      split
      case isTrue =>
        refine Or.inr ⟨rfl,rfl,rfl,fun V H D => ?_⟩
        simp only [total, Client.setFetchingAuth, Client.enter, List.map_append, List.sum_append,
          List.map_cons, List.map_nil, List.sum_cons, List.sum_nil]
        omega
      case isFalse =>
        have entered : SameBooks (s.setFetchingAuth true).enter s :=
          ⟨rfl,rfl,rfl,fun _ _ _ => rfl⟩
        exact Or.inl (left_retrieved_done entered false _)

theorem answered_passes (answer : Answer) (hasAuthKey serialized : Bool) :
    Done s task (s.answered task answer hasAuthKey serialized) ∨
      Waits s task (s.answered task answer hasAuthKey serialized) := by
  unfold Client.answered
  split
  · split
    · exact getToken_passes ⟨task,_,_⟩ hasAuthKey serialized
    · exact Or.inl (handler_done answer)
  · exact Or.inl (handler_done answer)

end Passing

section Steps
variable {s t : Client} {i : Nat}

theorem answer_cases {answer : Answer} {hasAuthKey serialized : Bool}
    (taken : step s (.answer i answer hasAuthKey serialized) = some t) :
    ∃ task r, (∀ V H D, total V H D s = total V H D r + V task) ∧ r.calls = s.calls ∧
      r.handled = s.handled ∧ r.sent = s.sent ∧ (Done r task t ∨ Waits r task t) := by
  obtain ⟨task,there,made⟩ := Option.map_eq_some_iff.mp taken
  refine ⟨task,{ s with tasks := s.tasks.eraseIdx i },fun V H D => ?_,rfl,rfl,rfl,
    made ▸ answered_passes answer hasAuthKey serialized⟩
  have out := sum_eraseIdx V there
  simp only [total]
  omega

theorem tokenAnswer_cases {answer : Answer} (taken : step s (.tokenAnswer i answer) = some t) :
    ∃ task r, (∀ V H D, total V H D s = total V H D r + H task) ∧ r.calls = s.calls ∧
      r.handled = s.handled ∧ r.sent = s.sent ∧ Done r task t := by
  obtain ⟨challenged,there,made⟩ := Option.map_eq_some_iff.mp taken
  refine ⟨challenged.task,{ s with fetches := s.fetches.eraseIdx i },fun V H D => ?_,rfl,rfl,rfl,
    made ▸ left_retrieved_done ⟨rfl,rfl,rfl,fun _ _ _ => rfl⟩ false _⟩
  have out := sum_eraseIdx (fun challenged : Challenged => H challenged.task) there
  simp only [total, List.map_append, List.sum_append]
  omega

theorem notified_cases (taken : step s (.notified i) = some t) :
    ∃ task r, (∀ V H D, total V H D s = total V H D r + H task) ∧ r.calls = s.calls ∧
      r.handled = s.handled ∧ r.sent = s.sent ∧ Done r task t := by
  obtain ⟨challenged,there,made⟩ := Option.map_eq_some_iff.mp taken
  refine ⟨challenged.task,{ s with queued := s.queued.eraseIdx i },fun V H D => ?_,rfl,rfl,rfl,
    made ▸ retrieved_done none⟩
  have out := sum_eraseIdx (fun challenged : Challenged => H challenged.task) there
  simp only [total, List.map_append, List.sum_append]
  omega

theorem retry_cases (taken : step s (.retry i) = some t) :
    ∃ task, t.calls = s.calls ∧ t.handled = s.handled ∧ t.sent = s.sent ++ [task.call] ∧
      ∀ V H D, total V H D t + D task = total V H D s + V task := by
  obtain ⟨task,there,made⟩ := Option.map_eq_some_iff.mp taken
  refine ⟨task,?_⟩
  rw [← made]
  refine ⟨rfl,rfl,rfl,fun V H D => ?_⟩
  have out := sum_eraseIdx D there
  rw [send_total]
  simp only [total]
  omega

end Steps

/-- A task of a call weighs one. -/
def ofCall (call : Nat) (task : Task) : Nat := if task.call = call then 1 else 0

/-- A task that may be sent again weighs one. -/
def mayRetry (call : Nat) (task : Task) : Nat :=
  if task.call = call ∧ task.retryCount = 0 then 1 else 0

/-- The requests that a call may still send: those put off are sent, and others may be again. -/
def mayBeSent (call : Nat) (s : Client) : Nat :=
  total (mayRetry call) (mayRetry call) (fun task => ofCall call task + mayRetry call task) s

/-- The tasks of a call. -/
def underWay (call : Nat) (s : Client) : Nat :=
  total (ofCall call) (ofCall call) (ofCall call) s

def timesHandled (call : Nat) (s : Client) : Nat :=
  s.handled.countP fun handled => handled.1 == call

structure Books (s : Client) : Prop where
  once : ∀ call, underWay call s + timesHandled call s = if call < s.calls then 1 else 0
  twice : ∀ call, mayBeSent call s + s.sent.count call ≤ if call < s.calls then 2 else 0

theorem mayRetry_le (call : Nat) (task : Task) : mayRetry call task ≤ ofCall call task := by
  unfold mayRetry ofCall
  split
  case isTrue both => exact Nat.le_of_eq (if_pos both.1).symm
  case isFalse => exact Nat.zero_le _

theorem mayRetry_spent (call : Nat) (task : Task) :
    mayRetry call { task with retryCount := 1 } = 0 := if_neg fun both => Nat.one_ne_zero both.2

theorem mayRetry_first {task : Task} (first : task.retryCount = 0) (call : Nat) :
    mayRetry call task = ofCall call task := by
  unfold mayRetry ofCall
  simp only [first, and_true]

theorem count_snoc (l : List Nat) (a call : Nat) :
    (l ++ [a]).count call = l.count call + if a = call then 1 else 0 := by
  rw [List.count_append, List.count_singleton]
  simp only [beq_iff_eq]

theorem timesHandled_snoc {s t : Client} {task : Task} {answer : Answer}
    (handled : t.handled = s.handled ++ [(task.call, answer)]) (call : Nat) :
    timesHandled call t = timesHandled call s + ofCall call task := by
  simp only [timesHandled, handled, List.countP_append, List.countP_singleton, ofCall, beq_iff_eq]

theorem timesHandled_same {s t : Client} (handled : t.handled = s.handled) (call : Nat) :
    timesHandled call t = timesHandled call s := by
  rw [timesHandled, handled]
  rfl

theorem sent_snoc {s t : Client} {task : Task} (sent : t.sent = s.sent ++ [task.call])
    (call : Nat) : t.sent.count call = s.sent.count call + ofCall call task := by
  rw [sent, count_snoc]
  rfl

section BooksKept
variable {r s t : Client} {task : Task}

/-- A state from which a task was taken in hand, its books being in order with the task. -/
structure InHand (r : Client) (task : Task) : Prop where
  once : ∀ call, underWay call r + ofCall call task + timesHandled call r =
    if call < r.calls then 1 else 0
  twice : ∀ call, mayBeSent call r + mayRetry call task + r.sent.count call ≤
    if call < r.calls then 2 else 0

/-- While the task only goes from one hand to another each call is still accounted for once. -/
theorem InHand.kept (held : InHand r task) (calls : t.calls = r.calls)
    (handled : t.handled = r.handled)
    (weighs : ∀ call, underWay call t = underWay call r + ofCall call task) (call : Nat) :
    underWay call t + timesHandled call t = if call < t.calls then 1 else 0 := by
  rw [timesHandled_same handled, calls, weighs, held.once]

theorem Done.books (done : Done r task t) (held : InHand r task) : Books t := by
  cases done with
  | answered answer calls handled sent weighs =>
    constructor
    · intro call
      have before := held.once call
      have now : underWay call t = underWay call r := weighs _ _ _
      rw [timesHandled_snoc handled, calls, now, ← before]
      omega
    · intro call
      have before := held.twice call
      have now : mayBeSent call t = mayBeSent call r := weighs _ _ _
      rw [sent, calls, now]
      omega
  | resent first calls handled sent weighs =>
    constructor
    · exact held.kept calls handled fun call => weighs _ _ _
    · intro call
      have before := held.twice call
      have now : mayBeSent call t = mayBeSent call r := (weighs _ _ _).trans (by
        rw [mayRetry_spent]; rfl)
      rw [mayRetry_first first] at before
      rw [calls, now, sent_snoc sent]
      omega
  | putOff first calls handled sent weighs =>
    constructor
    · exact held.kept calls handled fun call => weighs _ _ _
    · intro call
      have before := held.twice call
      have now : mayBeSent call t = mayBeSent call r + ofCall call task :=
        (weighs _ _ _).trans (by rw [mayRetry_spent]; rfl)
      rw [mayRetry_first first] at before
      rw [calls, now, sent]
      exact before

theorem Waits.books (waits : Waits r task t) (held : InHand r task) : Books t := by
  obtain ⟨calls,handled,sent,weighs⟩ := waits
  constructor
  · exact held.kept calls handled fun call => weighs _ _ _
  · intro call
    have before := held.twice call
    have now : mayBeSent call t = mayBeSent call r + mayRetry call task := weighs _ _ _
    rw [calls, now, sent]
    exact before

theorem Books.inHand (books : Books s) (calls : r.calls = s.calls)
    (handled : r.handled = s.handled) (sent : r.sent = s.sent)
    (weighs : ∀ V D, total V V D s = total V V D r + V task) : InHand r task := by
  constructor
  · intro call
    have before := books.once call
    have now : underWay call s = underWay call r + ofCall call task := weighs _ _
    rw [timesHandled_same handled, calls, ← now, before]
  · intro call
    have before := books.twice call
    have now : mayBeSent call s = mayBeSent call r + mayRetry call task := weighs _ _
    rw [calls, ← now, sent]
    exact before

theorem call_books (books : Books s) (authenticated : Bool) (retryCount : Nat) :
    Books ({ s with calls := s.calls + 1 }.send ⟨s.calls,authenticated,retryCount⟩) := by
  generalize made : (⟨s.calls,authenticated,retryCount⟩ : Task) = task
  have named : task.call = s.calls := by rw [← made]
  have weighs : ∀ V D, total V V D ({ s with calls := s.calls + 1 }.send task) =
      total V V D s + V task := fun V D => send_total V V D task
  constructor
  · intro call
    have before := books.once call
    have now : underWay call _ = underWay call s + ofCall call task := weighs _ _
    rw [now]
    change _ + timesHandled call s = if call < s.calls + 1 then 1 else 0
    rcases Nat.lt_trichotomy call s.calls with old | new | later
    · rw [if_pos old] at before
      rw [if_pos (by omega), ofCall, if_neg (by omega)]
      omega
    · rw [if_neg (by omega)] at before
      rw [if_pos (by omega), ofCall, if_pos (by omega)]
      omega
    · rw [if_neg (by omega)] at before
      rw [if_neg (by omega), ofCall, if_neg (by omega)]
      omega
  · intro call
    have before := books.twice call
    have now : mayBeSent call _ = mayBeSent call s + mayRetry call task := weighs _ _
    have atMost := mayRetry_le call task
    rw [now]
    change _ + (s.sent ++ [task.call]).count call ≤ if call < s.calls + 1 then 2 else 0
    rw [count_snoc]
    change _ + (_ + ofCall call task) ≤ _
    rcases Nat.lt_trichotomy call s.calls with old | new | later
    · rw [if_pos old] at before
      rw [ofCall, if_neg (by omega)] at atMost ⊢
      rw [if_pos (by omega)]
      omega
    · rw [if_neg (by omega)] at before
      rw [ofCall, if_pos (by omega)] at atMost ⊢
      rw [if_pos (by omega)]
      omega
    · rw [if_neg (by omega)] at before
      rw [ofCall, if_neg (by omega)] at atMost ⊢
      rw [if_neg (by omega)]
      omega

theorem step_books (s : Client) (e : Event) (t : Client) (books : Books s)
    (taken : step s e = some t) : Books t := by
  cases e with
  | call authenticated retryCount =>
    cases taken
    exact call_books books authenticated retryCount
  | answer i answer hasAuthKey serialized =>
    obtain ⟨task,r,weighs,calls,handled,sent,done | waits⟩ := answer_cases taken
    · exact done.books (books.inHand calls handled sent fun V D => weighs V V D)
    · exact waits.books (books.inHand calls handled sent fun V D => weighs V V D)
  | tokenAnswer i answer =>
    obtain ⟨task,r,weighs,calls,handled,sent,done⟩ := tokenAnswer_cases taken
    exact done.books (books.inHand calls handled sent fun V D => weighs V V D)
  | notified i =>
    obtain ⟨task,r,weighs,calls,handled,sent,done⟩ := notified_cases taken
    exact done.books (books.inHand calls handled sent fun V D => weighs V V D)
  | retry i =>
    obtain ⟨task,calls,handled,sent,weighs⟩ := retry_cases taken
    constructor
    · intro call
      have before := books.once call
      have now : underWay call t + ofCall call task = underWay call s + ofCall call task :=
        weighs _ _ _
      rw [timesHandled_same handled, calls, ← before]
      omega
    · intro call
      have before := books.twice call
      have now : mayBeSent call t + (ofCall call task + mayRetry call task) =
        mayBeSent call s + mayRetry call task := weighs _ _ _
      rw [calls, sent_snoc sent]
      omega

end BooksKept

section FetchingKept
variable {s : Client} {challenged : Challenged}

/-- A block that leaves these fields alone leaves the fetch as it was. -/
theorem Fetching.of_eq {t : Client} (fetching : Fetching s)
    (flag : t.isFetchingAuth = s.isFetchingAuth) (group : t.group = s.group)
    (fetches : t.fetches = s.fetches) (waiting : t.waiting = s.waiting) : Fetching t := by
  obtain ⟨one,flag',group',waiting'⟩ := fetching
  constructor
  · rw [fetches]
    exact one
  · rw [flag, fetches]
    exact flag'
  · rw [group, fetches]
    exact group'
  · rw [fetches, waiting]
    exact waiting'

theorem retrieved_fetching (fetching : Fetching s) (err : Option NSError) :
    Fetching (s.retrieved challenged err) := by
  unfold Client.retrieved
  dsimp only
  split
  · exact fetching.of_eq rfl rfl rfl rfl
  · split
    · exact fetching.of_eq rfl rfl rfl rfl
    · split
      · exact fetching.of_eq rfl rfl rfl rfl
      · exact fetching.of_eq rfl rfl rfl rfl

theorem notify_fetching (fetching : Fetching s) (there : s.isFetchingAuth = true) :
    Fetching (s.notify challenged) := by
  have some_fetch := fetching.flag.mp there
  have counted : s.group ≠ 0 := by
    have positive := List.length_pos_of_ne_nil some_fetch
    have group := fetching.group
    omega
  unfold Client.notify
  rw [if_neg counted]
  exact ⟨fetching.one,fetching.flag,fetching.group,fun none => absurd none some_fetch⟩

/-- After the only fetch has left the group, nobody waits. -/
theorem left_fetching (fetches : s.fetches = []) (group : s.group = 1) :
    Fetching (s.setFetchingAuth false).leave := by
  unfold Client.leave Client.setFetchingAuth
  rw [if_pos group]
  constructor
  · rw [fetches]
    exact Nat.zero_le 1
  · rw [fetches]
    simp
  · rw [fetches]
    rfl
  · exact fun _ => rfl

theorem getToken_fetching (fetching : Fetching s) (hasAuthKey serialized : Bool) :
    Fetching (s.getToken challenged hasAuthKey serialized) := by
  unfold Client.getToken
  split
  case isTrue there => exact notify_fetching fetching there
  case isFalse idle =>
    have none : s.fetches = [] := by
      by_contra some_fetch
      exact idle (fetching.flag.mpr some_fetch)
    have empty : s.group = 0 := by
      have group := fetching.group
      rw [none] at group
      exact group
    split
    case isTrue => exact retrieved_fetching fetching _
    case isFalse =>
      have entered : (s.setFetchingAuth true).enter.group = 1 := by
        change s.group + 1 = 1
        rw [empty]
        rfl
      dsimp only
      split
      case isTrue =>
        constructor
        · change (s.fetches ++ [challenged]).length ≤ 1
          rw [none]
          exact Nat.le_refl 1
        · simp [Client.setFetchingAuth, Client.enter]
        · change s.group + 1 = ((s.fetches ++ [challenged]).length : Int)
          rw [none, empty]
          rfl
        · intro gone
          cases List.append_eq_nil_iff.mp gone with
          | intro _ gone => cases gone
      case isFalse =>
        apply retrieved_fetching
        exact left_fetching (s := (s.setFetchingAuth true).enter) none entered

theorem tokenAnswered_fetching {i : Nat} (fetching : Fetching s)
    (there : s.fetches[i]? = some challenged) (answer : Answer) :
    Fetching ({ s with fetches := s.fetches.eraseIdx i }.tokenAnswered challenged answer) := by
  have one := fetching.one
  have group := fetching.group
  have below : i < s.fetches.length := (List.getElem?_eq_some_iff.mp there).1
  have rest : (s.fetches.eraseIdx i).length = s.fetches.length - 1 := by
    rw [List.length_eraseIdx, if_pos below]
  apply retrieved_fetching
  apply left_fetching
  · change s.fetches.eraseIdx i = []
    exact List.length_eq_zero_iff.mp (by omega)
  · change s.group = 1
    omega

theorem step_fetching (s : Client) (e : Event) (t : Client) (fetching : Fetching s)
    (taken : step s e = some t) : Fetching t := by
  cases e with
  | call authenticated retryCount =>
    cases taken
    exact fetching.of_eq rfl rfl rfl rfl
  | answer i answer hasAuthKey serialized =>
    obtain ⟨task,_,made⟩ := Option.map_eq_some_iff.mp taken
    rw [← made]
    have before : Fetching { s with tasks := s.tasks.eraseIdx i } := fetching.of_eq rfl rfl rfl rfl
    unfold Client.answered
    split
    · split
      · exact getToken_fetching before _ _
      · exact before.of_eq rfl rfl rfl rfl
    · exact before.of_eq rfl rfl rfl rfl
  | tokenAnswer i answer =>
    obtain ⟨challenged,there,made⟩ := Option.map_eq_some_iff.mp taken
    rw [← made]
    exact tokenAnswered_fetching fetching there answer
  | notified i =>
    obtain ⟨challenged,_,made⟩ := Option.map_eq_some_iff.mp taken
    rw [← made]
    have before : Fetching { s with queued := s.queued.eraseIdx i } :=
      fetching.of_eq rfl rfl rfl rfl
    exact retrieved_fetching before none
  | retry i =>
    obtain ⟨task,_,made⟩ := Option.map_eq_some_iff.mp taken
    rw [← made]
    exact fetching.of_eq rfl rfl rfl rfl

end FetchingKept

/-- An answer, a token's answer or a block of the main queue is still to come for the call. -/
def Outstanding (s : Client) (call : Nat) : Prop :=
  (∃ task ∈ s.tasks ++ s.delayed, task.call = call) ∨
    (∃ challenged ∈ s.fetches ++ s.queued, challenged.task.call = call) ∨
    s.fetches ≠ [] ∧ ∃ challenged ∈ s.waiting, challenged.task.call = call

theorem sum_pos_iff {α : Type} {l : List α} {weight : α → Nat} :
    0 < (l.map weight).sum ↔ ∃ a ∈ l, 0 < weight a := by
  induction l with
  | nil => simp
  | cons a l ih =>
    simp only [List.map_cons, List.sum_cons, Nat.add_pos_iff_pos_or_pos, ih, List.mem_cons,
      exists_eq_or_imp]

theorem ofCall_pos_iff {call : Nat} {task : Task} : 0 < ofCall call task ↔ task.call = call := by
  unfold ofCall
  split
  case isTrue same => exact iff_of_true Nat.one_pos same
  case isFalse differ => exact iff_of_false (Nat.lt_irrefl 0) differ

theorem underWay_pos_iff {s : Client} (fetching : Fetching s) {call : Nat} :
    0 < underWay call s ↔ Outstanding s call := by
  have waits : (∃ challenged ∈ s.waiting, challenged.task.call = call) ↔
      s.fetches ≠ [] ∧ ∃ challenged ∈ s.waiting, challenged.task.call = call := by
    constructor
    · intro ⟨challenged,waiting,named⟩
      refine ⟨fun none => ?_,challenged,waiting,named⟩
      rw [fetching.waiting none] at waiting
      cases waiting
    · exact And.right
  unfold Outstanding underWay total
  rw [← waits]
  simp only [Nat.add_pos_iff_pos_or_pos, sum_pos_iff, ofCall_pos_iff, List.mem_append, or_and_right,
    exists_or, or_assoc, or_comm, or_left_comm]

/-- What the requests keep to, in every state of the client. -/
structure Answered (s : Client) : Prop where
  /-- a handler is called once, when nothing is outstanding for its call, and not before -/
  once : ∀ call < s.calls, timesHandled call s = 1 ∧ ¬ Outstanding s call ∨
    timesHandled call s = 0 ∧ Outstanding s call
  /-- no handler is called but for a call -/
  none_else : ∀ call, s.calls ≤ call → timesHandled call s = 0
  twice : ∀ call, s.sent.count call ≤ 2
  one_fetch : s.fetches.length ≤ 1
  flag : s.isFetchingAuth = true ↔ s.fetches ≠ []
  balanced : s.group = s.fetches.length

theorem initial_books : Books initial := ⟨fun _ => rfl,fun _ => Nat.zero_le _⟩

theorem initial_fetching : Fetching initial := ⟨Nat.zero_le 1,by simp [initial],rfl,fun _ => rfl⟩

/-- In every run each request is answered once, and each of its promises is kept. -/
theorem requests_answered {events : List Event} {s : Client}
    (run : exec step initial events = some s) : Answered s := by
  have books := exec_always step_books initial_books run
  have fetching := exec_always step_fetching initial_fetching run
  constructor
  · intro call made
    have tally := books.once call
    rw [if_pos made] at tally
    by_cases more : Outstanding s call
    · have positive := (underWay_pos_iff fetching).mpr more
      exact Or.inr ⟨by omega,more⟩
    · have gone : ¬ 0 < underWay call s :=
        fun positive => more ((underWay_pos_iff fetching).mp positive)
      exact Or.inl ⟨by omega,more⟩
  · intro call never
    have tally := books.once call
    rw [if_neg (by omega)] at tally
    omega
  · intro call
    have bound := books.twice call
    split at bound <;> omega
  · exact fetching.one
  · exact fetching.flag
  · exact fetching.group

def Event.isCall : Event → Bool
  | .call _ _ => true
  | _ => false

/-- The answers and the blocks of the main queue that the calls made may still take. -/
def blocksLeft (s : Client) : Nat :=
  total (fun task => if task.retryCount = 0 then 5 else 2)
    (fun task => if task.retryCount = 0 then 4 else 1)
    (fun task => if task.retryCount = 0 then 6 else 3) s

/-- A token's handler that is called takes one, whatever it does. -/
theorem Done.blocks {r t : Client} {task : Task} (done : Done r task t) :
    blocksLeft t + 1 ≤ blocksLeft r + (if task.retryCount = 0 then 4 else 1) ∧
      t.calls = r.calls := by
  cases done with
  | answered answer calls handled sent weighs =>
    have same : blocksLeft t = blocksLeft r := weighs _ _ _
    refine ⟨?_,calls⟩
    split
    · omega
    · omega
  | resent first calls handled sent weighs =>
    have more : blocksLeft t = blocksLeft r + 2 := weighs _ _ _
    rw [if_pos first]
    exact ⟨by omega,calls⟩
  | putOff first calls handled sent weighs =>
    have more : blocksLeft t = blocksLeft r + 3 := weighs _ _ _
    rw [if_pos first]
    exact ⟨by omega,calls⟩

theorem step_blocks {s t : Client} {e : Event} (taken : step s e = some t) :
    (if e.isCall then 0 else 1) + blocksLeft t + 5 * s.calls ≤ blocksLeft s + 5 * t.calls := by
  cases e with
  | call authenticated retryCount =>
    cases taken
    have more : blocksLeft ({ s with calls := s.calls + 1 }.send
        ⟨s.calls,authenticated,retryCount⟩) =
        blocksLeft s + if retryCount = 0 then 5 else 2 := send_total _ _ _ _
    rw [more]
    change 0 + _ + _ ≤ _ + 5 * (s.calls + 1)
    split
    · omega
    · omega
  | answer i answer hasAuthKey serialized =>
    obtain ⟨task,r,weighs,calls,_,_,done | waits⟩ := answer_cases taken
    · have before : blocksLeft s = blocksLeft r + if task.retryCount = 0 then 5 else 2 :=
        weighs _ _ _
      obtain ⟨after,kept⟩ := done.blocks
      change 1 + _ + _ ≤ _
      by_cases first : task.retryCount = 0
      · rw [if_pos first] at before after
        omega
      · rw [if_neg first] at before after
        omega
    · have before : blocksLeft s = blocksLeft r + if task.retryCount = 0 then 5 else 2 :=
        weighs _ _ _
      have after : blocksLeft t = blocksLeft r + if task.retryCount = 0 then 4 else 1 :=
        waits.weighs _ _ _
      have kept := waits.calls
      change 1 + _ + _ ≤ _
      by_cases first : task.retryCount = 0
      · rw [if_pos first] at before after
        omega
      · rw [if_neg first] at before after
        omega
  | tokenAnswer i answer =>
    obtain ⟨task,r,weighs,calls,_,_,done⟩ := tokenAnswer_cases taken
    have before : blocksLeft s = blocksLeft r + if task.retryCount = 0 then 4 else 1 :=
      weighs _ _ _
    have after := done.blocks
    change 1 + _ + _ ≤ _
    omega
  | notified i =>
    obtain ⟨task,r,weighs,calls,_,_,done⟩ := notified_cases taken
    have before : blocksLeft s = blocksLeft r + if task.retryCount = 0 then 4 else 1 :=
      weighs _ _ _
    have after := done.blocks
    change 1 + _ + _ ≤ _
    omega
  | retry i =>
    obtain ⟨task,calls,_,_,weighs⟩ := retry_cases taken
    have after : blocksLeft t + (if task.retryCount = 0 then 6 else 3) =
        blocksLeft s + if task.retryCount = 0 then 5 else 2 := weighs _ _ _
    change 1 + _ + _ ≤ _
    by_cases first : task.retryCount = 0
    · rw [if_pos first, if_pos first] at after
      omega
    · rw [if_neg first, if_neg first] at after
      omega

/-- Each call comes to its end after five answers and blocks at most. -/
theorem requests_settle {events : List Event} {s : Client}
    (run : exec step initial events = some s) :
    (events.countP fun e => !e.isCall) + blocksLeft s ≤ 5 * s.calls := by
  have counted : ∀ {events : List Event} {r s : Client}, exec step r events = some s →
      (events.countP fun e => !e.isCall) + blocksLeft s + 5 * r.calls ≤
        blocksLeft r + 5 * s.calls := by
    intro events
    induction events with
    | nil =>
      intro r s run
      cases run
      exact Nat.le_of_eq (by rw [List.countP_nil]; omega)
    | cons e events ih =>
      intro r s run
      obtain ⟨mid,first,rest⟩ := exec_cons.mp run
      have now := step_blocks first
      have later := ih rest
      rw [List.countP_cons]
      cases called : e.isCall with
      | true =>
        rw [called, if_pos rfl] at now
        rw [Bool.not_true, if_neg Bool.false_ne_true]
        omega
      | false =>
        rw [called, if_neg Bool.false_ne_true] at now
        rw [Bool.not_false, if_pos rfl]
        omega
  have whole := counted run
  change _ + _ + 5 * 0 ≤ 0 + _ at whole
  omega

/-- Two challenged requests, of which the second waits for the token of the first. -/
def twoChallenged : List Event :=
  let challenge : Answer := ⟨some [],some ⟨401,[("WWW-Authenticate".toList,"bread".toList)]⟩,none⟩
  let accepted : Answer := ⟨some [],some ⟨200,[]⟩,none⟩
  [.call true 0,.call true 0,.answer 0 challenge true true,.answer 0 challenge true true,
    .tokenAnswer 0 accepted,.notified 0,.answer 0 accepted true true]

def twoRetried : Client :=
  ⟨false,0,[⟨1,true,1⟩],[],[],[],[],[(0,⟨some [],some ⟨200,[]⟩,none⟩)],[0,1,0,1],2⟩

theorem two_challenged_answered : Answered twoRetried := by
  have run : exec step initial twoChallenged = some twoRetried := by decide
  exact requests_answered run

end APIRequests
