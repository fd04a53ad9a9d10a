import Mathlib.Logic.Function.Basic
import AltMessenger.HTTPRequest
import AltMessenger.TransitionRuns

/-!
The connections of the local HTTP server. Each has a loop that reads requests, byte by byte, and
hands them to the middleware; the callbacks of responses, from any thread, write the answer and
close the descriptor. The threads take their steps in any order.
-/
namespace HTTPServer
open HTTPRequest TransitionRuns

/-- The loop is about to call `recv`, is in a call, or has ended. -/
inductive Reader where
  | ready
  | waiting
  | ended
  deriving DecidableEq, Repr

/-- A request that was dispatched: a middleware has it, with so many left to ask, or a response was
    found that is not done. -/
inductive Pending where
  | handling (left : Nat)
  | responding
  deriving DecidableEq, Repr

structure Connection where
  fd : Nat
  reader : Reader
  /-- what was received of the request that is being read -/
  received : List UInt8
  pending : List Pending
  /-- the calls of `close` -/
  closes : Nat
  /-- the closes that no `rmClient` has followed, and those that one has -/
  removing : Nat
  removed : Nat
  deriving DecidableEq

inductive Use where
  | recv
  | write
  | close
  deriving DecidableEq, Repr

structure Server where
  connections : Nat → Option Connection
  accepted : Nat
  clients : List Nat
  /-- the numbers that stand for a connection -/
  opened : List Nat
  /-- the uses that code made of a connection's number after the connection was closed -/
  strays : List (Nat × Use)

def initial : Server := ⟨fun _ => none,0,[],[],[]⟩

inductive Event where
  | accept (fd : Nat)
  | recv (c : Nat)
  /-- a call of `recv` returns: a byte, or a failure; the end of the stream is read like a NUL -/
  | returns (c : Nat) (byte : Option UInt8)
  /-- a handler reads from the body -/
  | body (c : Nat)
  /-- the middleware of a request calls `next`, with a response or without one -/
  | next (c i : Nat) (responds : Bool)
  /-- a response is done -/
  | done (c i : Nat) (isKilled : Bool)
  | rmClient (c : Nat)

/-- What a byte makes of the request that is being read. -/
inductive Read where
  | more
  | nothing
  | request (req : Request)
  deriving DecidableEq

def readByte (received : List UInt8) : Option UInt8 → Read
  | none => .nothing
  | some byte =>
    match readFrom ⟨received ++ [byte],true⟩ with
    | .ok (req, _) => .request req
    -- the socket has no more yet
    | .error (.throws .socketRecvFailed) => .more
    | .error _ => .nothing

namespace Connection

/-- `send`, which writes nothing of a killed response, and `finish` up to its `rmClient`. -/
def finish (conn : Connection) (isKilled : Bool) : Connection × List Use :=
  ({ conn with closes := conn.closes + 1, removing := conn.removing + 1 },
    if isKilled then [.close] else [.write,.close])

/-- `dispatch(middleware:req:finish:)`: where no middleware is left, the answer is 404. -/
def dispatch (conn : Connection) : Nat → Connection × List Use
  | 0 => conn.finish false
  | left + 1 => ({ conn with pending := conn.pending ++ [.handling left] }, [])

def recv (conn : Connection) : Option (Connection × List Use) :=
  if conn.reader = .ready then some ({ conn with reader := .waiting }, [.recv]) else none

/-- What the loop does with a byte: another `recv`, the end, or a request; after one it goes on
    if the request asks to keep the connection. -/
def returns (middleware : Nat) (byte : Option UInt8) (conn : Connection) :
    Option (Connection × List Use) :=
  if conn.reader = .waiting then
    match readByte conn.received byte with
    | .more =>
      some ({ conn with reader := .ready, received := conn.received ++ byte.toList }, [])
    | .nothing => some ({ conn with reader := .ended }, [])
    | .request req =>
      let conn :=
        { conn with reader := if req.isKeepAlive then .ready else .ended, received := [] }
      some (conn.dispatch middleware)
  else none

def body (conn : Connection) : Option (Connection × List Use) :=
  if conn.pending = [] then none else some (conn, [.recv])

def next (i : Nat) (responds : Bool) (conn : Connection) : Option (Connection × List Use) :=
  match conn.pending[i]? with
  | some (.handling left) =>
    if responds then some ({ conn with pending := conn.pending.set i .responding }, [])
    else
      let conn := { conn with pending := conn.pending.eraseIdx i }
      some (conn.dispatch left)
  | _ => none

def done (i : Nat) (isKilled : Bool) (conn : Connection) : Option (Connection × List Use) :=
  if conn.pending[i]? = some .responding then
    let conn := { conn with pending := conn.pending.eraseIdx i }
    some (conn.finish isKilled)
  else none

def remove (conn : Connection) : Option (Connection × List Use) :=
  if conn.removing = 0 then none
  else some ({ conn with removing := conn.removing - 1, removed := conn.removed + 1 }, [])

end Connection

namespace Server

def addClient (s : Server) (fd : Nat) : Server :=
  { s with clients := if fd ∈ s.clients then s.clients else s.clients ++ [fd] }

def rmClient (s : Server) (fd : Nat) : Server :=
  { s with clients := s.clients.filter fun other => other ≠ fd }

/-- A new connection gets a number that none has. -/
def accept (s : Server) (fd : Nat) : Option Server :=
  if fd ∈ s.opened then none
  else
    let s := s.addClient fd
    some
      { s with
        connections := Function.update s.connections s.accepted (some ⟨fd,.ready,[],[],0,0,0⟩)
        accepted := s.accepted + 1
        opened := fd :: s.opened }

/-- A connection changes, and its number is used. -/
def changed (s : Server) (c : Nat) (conn after : Connection) (uses : List Use) : Server :=
  { s with
    connections := Function.update s.connections c (some after)
    opened := if .close ∈ uses then s.opened.filter fun fd => fd ≠ conn.fd else s.opened
    strays := s.strays ++ if conn.closes = 0 then [] else uses.map fun use => (c, use) }

/-- One of the threads takes a step for a connection. -/
def turn (s : Server) (c : Nat) (change : Connection → Option (Connection × List Use)) :
    Option Server :=
  (s.connections c).bind fun conn =>
    (change conn).map fun (after, uses) => s.changed c conn after uses

end Server

/-- A server with so many middlewares takes a step. -/
def step (middleware : Nat) (s : Server) : Event → Option Server
  | .accept fd => s.accept fd
  | .recv c => s.turn c Connection.recv
  | .returns c byte => s.turn c (Connection.returns middleware byte)
  | .body c => s.turn c Connection.body
  | .next c i responds => s.turn c (Connection.next i responds)
  | .done c i isKilled => s.turn c (Connection.done i isKilled)
  | .rmClient c => (s.connections c).bind fun conn => (s.rmClient conn.fd).turn c Connection.remove

/-- Nothing is left to do for a connection. -/
def Idle (conn : Connection) : Prop :=
  conn.reader = .ended ∧ conn.pending = [] ∧ conn.removing = 0

/-- No connection's number is used after its close; a connection for which nothing is left to do
    was closed once and removed then; and the clients are connections that were not removed. -/
structure Good (s : Server) : Prop where
  strays : s.strays = []
  once : ∀ c conn, s.connections c = some conn → Idle conn → conn.closes = 1 ∧ conn.removed = 1
  clients : ∀ fd ∈ s.clients, ∃ c conn, s.connections c = some conn ∧ conn.fd = fd ∧
    conn.removed = 0

/-- A response is finished after the loop has ended or while it waits in a `recv`, and no other
    request of the connection is pending. -/
def Finishes (conn : Connection) : Prop := conn.reader ≠ .ready ∧ conn.pending = []

/-- What a `recv` returns ends no loop for which nothing is pending, and after the close brings
    neither bytes to go on with nor a request. -/
def ReadMeets (middleware : Nat) (byte : Option UInt8) (conn : Connection) : Prop :=
  conn.reader = .waiting →
    match readByte conn.received byte with
    | .more => conn.closes = 0
    | .nothing => conn.closes = 0 → conn.pending ≠ []
    | .request req => conn.closes = 0 ∧
      (middleware = 0 → req.isKeepAlive = false ∧ conn.pending = [])

/-- The condition of a step, for its connection. -/
def ConnectionMeets (middleware : Nat) (conn : Connection) : Event → Prop
  | .returns _ byte => ReadMeets middleware byte conn
  | .next _ i false => conn.pending[i]? = some (.handling 0) →
    Finishes { conn with pending := conn.pending.eraseIdx i }
  | .done _ i _ => conn.pending[i]? = some .responding →
    Finishes { conn with pending := conn.pending.eraseIdx i }
  | _ => True

def Event.connection : Event → Option Nat
  | .accept _ => none
  | .recv c => some c
  | .returns c _ => some c
  | .body c => some c
  | .next c _ _ => some c
  | .done c _ _ => some c
  | .rmClient c => some c

def Meets (middleware : Nat) (s : Server) (event : Event) : Prop :=
  ∀ c conn, event.connection = some c → s.connections c = some conn →
    ConnectionMeets middleware conn event

/-- What an event does to its connection, and the uses it makes of the number. -/
def change (middleware : Nat) : Event → Connection → Option (Connection × List Use)
  | .accept _ => fun _ => none
  | .recv _ => Connection.recv
  | .returns _ byte => Connection.returns middleware byte
  | .body _ => Connection.body
  | .next _ i responds => Connection.next i responds
  | .done _ i isKilled => Connection.done i isKilled
  | .rmClient _ => Connection.remove

/-- A connection that was not closed is read or answered; one that was closed is neither any more. -/
def Whole (conn : Connection) : Prop :=
  (conn.closes = 0 ∧ conn.removing = 0 ∧ conn.removed = 0 ∧
    (conn.reader = .ended → conn.pending ≠ [])) ∨
  (conn.closes = 1 ∧ conn.pending = [] ∧ conn.reader ≠ .ready ∧
    conn.removing + conn.removed = 1)

/-- The connection was closed while it is still to be read or answered, or was left open. -/
def Doomed (conn : Connection) : Prop :=
  (conn.closes ≠ 0 ∧ (conn.reader = .ready ∨ conn.pending ≠ [])) ∨
  (conn.closes = 0 ∧ conn.reader = .ended ∧ conn.pending = [])

/-- Whatever is asked for: numbers of connections to come are free, and the clients are connections
    that were not removed. -/
structure Listed (s : Server) : Prop where
  fresh : ∀ c, s.accepted ≤ c → s.connections c = none
  clients : ∀ fd ∈ s.clients, ∃ c conn, s.connections c = some conn ∧ conn.fd = fd ∧
    conn.removed = 0

/-- All that an event can do to its connection. -/
inductive Changes (middleware : Nat) (conn : Connection) :
    Event → Connection → List Use → Prop where
  | recv (c : Nat) (ready : conn.reader = .ready) :
    Changes middleware conn (.recv c) { conn with reader := .waiting } [.recv]
  | more (c : Nat) (byte : Option UInt8) (waits : conn.reader = .waiting)
    (read : readByte conn.received byte = .more) :
    Changes middleware conn (.returns c byte)
      { conn with reader := .ready, received := conn.received ++ byte.toList } []
  | nothing (c : Nat) (byte : Option UInt8) (waits : conn.reader = .waiting)
    (read : readByte conn.received byte = .nothing) :
    Changes middleware conn (.returns c byte) { conn with reader := .ended } []
  | asks (c : Nat) (byte : Option UInt8) (req : Request) (left : Nat)
    (waits : conn.reader = .waiting) (read : readByte conn.received byte = .request req)
    (some_left : middleware = left + 1) :
    Changes middleware conn (.returns c byte)
      { conn with
        reader := if req.isKeepAlive then .ready else .ended
        received := []
        pending := conn.pending ++ [.handling left] } []
  | unhandled (c : Nat) (byte : Option UInt8) (req : Request) (waits : conn.reader = .waiting)
    (read : readByte conn.received byte = .request req) (none_left : middleware = 0) :
    Changes middleware conn (.returns c byte)
      { conn with
        reader := if req.isKeepAlive then .ready else .ended
        received := []
        closes := conn.closes + 1
        removing := conn.removing + 1 } [.write,.close]
  | body (c : Nat) (asked : conn.pending ≠ []) : Changes middleware conn (.body c) conn [.recv]
  | responds (c i left : Nat) (there : conn.pending[i]? = some (.handling left)) :
    Changes middleware conn (.next c i true)
      { conn with pending := conn.pending.set i .responding } []
  | passes (c i left : Nat) (there : conn.pending[i]? = some (.handling (left + 1))) :
    Changes middleware conn (.next c i false)
      { conn with pending := conn.pending.eraseIdx i ++ [.handling left] } []
  | exhausts (c i : Nat) (there : conn.pending[i]? = some (.handling 0)) :
    Changes middleware conn (.next c i false)
      { conn with
        pending := conn.pending.eraseIdx i
        closes := conn.closes + 1
        removing := conn.removing + 1 } [.write,.close]
  | done (c i : Nat) (isKilled : Bool) (there : conn.pending[i]? = some .responding) :
    Changes middleware conn (.done c i isKilled)
      { conn with
        pending := conn.pending.eraseIdx i
        closes := conn.closes + 1
        removing := conn.removing + 1 } (if isKilled then [.close] else [.write,.close])
  | remove (c : Nat) (some_left : conn.removing ≠ 0) :
    Changes middleware conn (.rmClient c)
      { conn with removing := conn.removing - 1, removed := conn.removed + 1 } []

section Connections
variable {middleware : Nat} {conn after : Connection} {uses : List Use} {event : Event}

theorem change_cases (changes : change middleware event conn = some (after, uses)) :
    Changes middleware conn event after uses := by
  cases event with
  | accept fd => cases changes
  | recv c =>
    simp only [change, Connection.recv] at changes
    split at changes
    case isTrue ready =>
      cases changes
      exact .recv c ready
    case isFalse => cases changes
  | returns c byte =>
    simp only [change, Connection.returns] at changes
    split at changes
    case isTrue waits =>
      split at changes
      case h_1 read =>
        cases changes
        exact .more c byte waits read
      case h_2 read =>
        cases changes
        exact .nothing c byte waits read
      case h_3 req read =>
        cases left : middleware with
        | zero =>
          rw [left] at changes
          cases changes
          exact .unhandled c byte req waits read rfl
        | succ more =>
          rw [left] at changes
          cases changes
          exact .asks c byte req more waits read rfl
    case isFalse => cases changes
  | body c =>
    simp only [change, Connection.body] at changes
    split at changes
    case isTrue => cases changes
    case isFalse asked =>
      cases changes
      exact .body c asked
  | next c i responds =>
    simp only [change, Connection.next] at changes
    split at changes
    case h_1 left there =>
      cases responds with
      | true =>
        cases changes
        exact .responds c i left there
      | false =>
        cases left with
        | zero =>
          cases changes
          exact .exhausts c i there
        | succ left =>
          cases changes
          exact .passes c i left there
    case h_2 => cases changes
  | done c i isKilled =>
    simp only [change, Connection.done] at changes
    split at changes
    case isTrue there =>
      cases changes
      exact .done c i isKilled there
    case isFalse => cases changes
  | rmClient c =>
    simp only [change, Connection.remove] at changes
    split at changes
    case isTrue => cases changes
    case isFalse some_left =>
      cases changes
      exact .remove c some_left

/-- The number of a connection stays. -/
theorem changes_fd (changes : Changes middleware conn event after uses) : after.fd = conn.fd := by
  cases changes <;> rfl

/-- A connection stays in the clients but for `rmClient`. -/
theorem changes_removed (changes : Changes middleware conn event after uses)
    (other : ∀ c, event ≠ .rmClient c) : after.removed = conn.removed := by
  cases changes with
  | remove c _ => exact absurd rfl (other c)
  | _ => rfl

theorem not_empty {i : Nat} {pending : Pending} (there : conn.pending[i]? = some pending) :
    conn.pending ≠ [] := by
  intro empty
  rw [empty] at there
  cases there

/-- A request that changes is still pending, and one that is handed on. -/
theorem set_not_empty {i : Nat} {pending : Pending} (there : conn.pending[i]? = some pending)
    (next : Pending) : conn.pending.set i next ≠ [] := by
  have some_pending := not_empty there
  rwa [ne_eq, List.set_eq_nil_iff]

theorem snoc_not_empty (before : List Pending) (pending : Pending) : before ++ [pending] ≠ [] :=
  List.append_ne_nil_of_right_ne_nil before (List.cons_ne_nil pending [])

/-- A connection with a request that is pending was not closed. -/
theorem Whole.pending (whole : Whole conn) (asked : conn.pending ≠ []) :
    conn.closes = 0 ∧ conn.removing = 0 ∧ conn.removed = 0 := by
  rcases whole with ⟨opened,none_left,none_yet,_⟩ | ⟨_,answered,_⟩
  · exact ⟨opened,none_left,none_yet⟩
  · exact absurd answered asked

/-- The close of a connection that was not closed, when nothing is left to do. -/
theorem whole_finish {pending : List Pending} (opened : conn.closes = 0)
    (none_left : conn.removing = 0) (none_yet : conn.removed = 0)
    (finishes : Finishes { conn with pending }) :
    Whole { conn with pending, closes := conn.closes + 1, removing := conn.removing + 1 } := by
  refine Or.inr ⟨?_,finishes.2,finishes.1,?_⟩
  · change conn.closes + 1 = 1
    omega
  · change conn.removing + 1 + conn.removed = 1
    omega

/-- A step that meets its condition keeps a connection whole, and uses its number only while it is
    not closed. -/
theorem whole_keeps (whole : Whole conn) (meets : ConnectionMeets middleware conn event)
    (changes : Changes middleware conn event after uses) :
    Whole after ∧ (uses ≠ [] → conn.closes = 0) := by
  cases changes with
  | recv c ready =>
    rcases whole with ⟨opened,none_left,none_yet,_⟩ | ⟨_,_,not_ready,_⟩
    · exact ⟨Or.inl ⟨opened,none_left,none_yet,fun ended => nomatch ended⟩,fun _ => opened⟩
    · exact absurd ready not_ready
  | more c byte waits read =>
    have opened := meets waits
    rw [read] at opened
    rcases whole with ⟨_,none_left,none_yet,_⟩ | ⟨closed,_⟩
    · exact ⟨Or.inl ⟨opened,none_left,none_yet,fun ended => nomatch ended⟩,
        fun none_used => absurd rfl none_used⟩
    · change conn.closes = 0 at opened
      omega
  | nothing c byte waits read =>
    have asked := meets waits
    rw [read] at asked
    refine ⟨?_,fun none_used => absurd rfl none_used⟩
    rcases whole with ⟨opened,none_left,none_yet,_⟩ | ⟨closed,answered,_,rest⟩
    · exact Or.inl ⟨opened,none_left,none_yet,fun _ => asked opened⟩
    · exact Or.inr ⟨closed,answered,fun other => (nomatch other),rest⟩
  | asks c byte req left waits read _ =>
    have condition := meets waits
    rw [read] at condition
    refine ⟨?_,fun none_used => absurd rfl none_used⟩
    rcases whole with ⟨opened,none_left,none_yet,_⟩ | ⟨closed,_⟩
    · exact Or.inl ⟨opened,none_left,none_yet,fun _ => snoc_not_empty _ _⟩
    · have opened : conn.closes = 0 := condition.1
      omega
  | unhandled c byte req waits read none_left =>
    have condition := meets waits
    rw [read] at condition
    obtain ⟨opened,rest⟩ := condition
    obtain ⟨closing,answered⟩ := rest none_left
    refine ⟨?_,fun _ => opened⟩
    rcases whole with ⟨_,no_removal,none_yet,_⟩ | ⟨closed,_⟩
    · refine Or.inr ⟨?_,answered,?_,?_⟩
      · change conn.closes + 1 = 1
        omega
      · change (if req.isKeepAlive then Reader.ready else .ended) ≠ .ready
        rw [closing]
        exact fun other => nomatch other
      · change conn.removing + 1 + conn.removed = 1
        omega
    · omega
  | body c asked => exact ⟨whole,fun _ => (whole.pending asked).1⟩
  | responds c i left there =>
    obtain ⟨opened,none_left,none_yet⟩ := whole.pending (not_empty there)
    have asked := set_not_empty there .responding
    exact ⟨Or.inl ⟨opened,none_left,none_yet,fun _ => asked⟩,fun none_used => absurd rfl none_used⟩
  | passes c i left there =>
    obtain ⟨opened,none_left,none_yet⟩ := whole.pending (not_empty there)
    have asked := snoc_not_empty (conn.pending.eraseIdx i) (.handling left)
    exact ⟨Or.inl ⟨opened,none_left,none_yet,fun _ => asked⟩,fun none_used => absurd rfl none_used⟩
  | exhausts c i there =>
    obtain ⟨opened,none_left,none_yet⟩ := whole.pending (not_empty there)
    have finishes : Finishes { conn with pending := conn.pending.eraseIdx i } := meets there
    exact ⟨whole_finish opened none_left none_yet finishes,fun _ => opened⟩
  | done c i isKilled there =>
    obtain ⟨opened,none_left,none_yet⟩ := whole.pending (not_empty there)
    have finishes : Finishes { conn with pending := conn.pending.eraseIdx i } := meets there
    exact ⟨whole_finish opened none_left none_yet finishes,fun _ => opened⟩
  | remove c some_left =>
    refine ⟨?_,fun none_used => absurd rfl none_used⟩
    rcases whole with ⟨_,none_left,_⟩ | ⟨closed,answered,not_ready,rest⟩
    · exact absurd none_left some_left
    · refine Or.inr ⟨closed,answered,not_ready,?_⟩
      change conn.removing - 1 + (conn.removed + 1) = 1
      omega

/-- A doomed connection stays doomed, or its number is used after its close. -/
theorem doomed_stays (doomed : Doomed conn) (changes : Changes middleware conn event after uses) :
    Doomed after ∨ conn.closes ≠ 0 ∧ uses ≠ [] := by
  rcases doomed with ⟨closed,busy⟩ | ⟨opened,ended,answered⟩
  · cases changes with
    | recv c ready => exact Or.inr ⟨closed,List.cons_ne_nil _ _⟩
    | more c byte waits read => exact Or.inl (Or.inl ⟨closed,Or.inl rfl⟩)
    | nothing c byte waits read =>
      rcases busy with ready | asked
      · cases waits.symm.trans ready
      · exact Or.inl (Or.inl ⟨closed,Or.inr asked⟩)
    | asks c byte req left waits read some_left =>
      exact Or.inl (Or.inl ⟨closed,Or.inr (snoc_not_empty _ _)⟩)
    | unhandled c byte req waits read none_left => exact Or.inr ⟨closed,List.cons_ne_nil _ _⟩
    | body c asked => exact Or.inr ⟨closed,List.cons_ne_nil _ _⟩
    | responds c i left there =>
      exact Or.inl (Or.inl ⟨closed,Or.inr (set_not_empty there .responding)⟩)
    | passes c i left there =>
      exact Or.inl (Or.inl ⟨closed,Or.inr (snoc_not_empty _ _)⟩)
    | exhausts c i there => exact Or.inr ⟨closed,List.cons_ne_nil _ _⟩
    | done c i isKilled there =>
      refine Or.inr ⟨closed,?_⟩
      cases isKilled <;> exact List.cons_ne_nil _ _
    | remove c some_left => exact Or.inl (Or.inl ⟨closed,busy⟩)
  · cases changes with
    | recv c ready => cases ended.symm.trans ready
    | more c byte waits read => cases ended.symm.trans waits
    | nothing c byte waits read => cases ended.symm.trans waits
    | asks c byte req left waits read some_left => cases ended.symm.trans waits
    | unhandled c byte req waits read none_left => cases ended.symm.trans waits
    | body c asked => exact absurd answered asked
    | responds c i left there => exact absurd answered (not_empty there)
    | passes c i left there => exact absurd answered (not_empty there)
    | exhausts c i there => exact absurd answered (not_empty there)
    | done c i isKilled there => exact absurd answered (not_empty there)
    | remove c some_left => exact Or.inl (Or.inr ⟨opened,ended,answered⟩)

/-- A finish that comes too early, or beside another request, dooms the connection. -/
theorem finish_dooms {pending : List Pending} (early : ¬ Finishes { conn with pending }) :
    Doomed { conn with pending, closes := conn.closes + 1, removing := conn.removing + 1 } := by
  refine Or.inl ⟨Nat.succ_ne_zero conn.closes,?_⟩
  by_cases ready : conn.reader = .ready
  · exact Or.inl ready
  · exact Or.inr fun answered => early ⟨ready,answered⟩

/-- A step that does not meet its condition dooms its connection, or uses the number after the
    close. -/
theorem unmet_dooms (unmet : ¬ ConnectionMeets middleware conn event)
    (changes : Changes middleware conn event after uses) :
    Doomed after ∨ conn.closes ≠ 0 ∧ uses ≠ [] := by
  cases changes with
  | recv c ready => exact absurd trivial unmet
  | more c byte waits read =>
    refine Or.inl (Or.inl ⟨fun opened => unmet fun _ => ?_,Or.inl rfl⟩)
    rw [read]
    exact opened
  | nothing c byte waits read =>
    have left_open : conn.closes = 0 ∧ conn.pending = [] := by
      by_contra other
      refine unmet fun _ => ?_
      rw [read]
      exact fun opened answered => other ⟨opened,answered⟩
    exact Or.inl (Or.inr ⟨left_open.1,rfl,left_open.2⟩)
  | asks c byte req left waits read some_left =>
    refine Or.inl (Or.inl ⟨fun opened => unmet fun _ => ?_,Or.inr (snoc_not_empty _ _)⟩)
    rw [read]
    exact ⟨opened,fun none_left => by omega⟩
  | unhandled c byte req waits read none_left =>
    by_cases opened : conn.closes = 0
    · refine Or.inl (Or.inl ⟨Nat.succ_ne_zero conn.closes,?_⟩)
      by_contra quiet
      obtain ⟨not_ready,answered⟩ := not_or.mp quiet
      refine unmet fun _ => ?_
      rw [read]
      refine ⟨opened,fun _ => ⟨?_,not_not.mp answered⟩⟩
      by_contra keeps
      rw [Bool.not_eq_false] at keeps
      exact not_ready (if_pos keeps)
    · exact Or.inr ⟨opened,List.cons_ne_nil _ _⟩
  | body c asked => exact absurd trivial unmet
  | responds c i left there => exact absurd trivial unmet
  | passes c i left there =>
    refine absurd (fun same => ?_) unmet
    rw [there] at same
    cases same
  | exhausts c i there => exact Or.inl (finish_dooms fun finishes => unmet fun _ => finishes)
  | done c i isKilled there => exact Or.inl (finish_dooms fun finishes => unmet fun _ => finishes)
  | remove c some_left => exact absurd trivial unmet

end Connections

section Servers
variable {middleware : Nat} {s t : Server} {event : Event}

/-- What a step does to a connection, and to what the server has of all of them. -/
structure Turns (middleware : Nat) (s t : Server) (event : Event) (c : Nat)
    (conn after : Connection) (uses : List Use) : Prop where
  concerns : event.connection = some c
  there : s.connections c = some conn
  changes : Changes middleware conn event after uses
  connections : t.connections = Function.update s.connections c (some after)
  accepted : t.accepted = s.accepted
  strays : t.strays = s.strays ++ if conn.closes = 0 then [] else uses.map fun use => (c, use)
  clients : t.clients = s.clients ∧ (∀ c, event ≠ .rmClient c) ∨
    t.clients = s.clients.filter fun fd => fd ≠ conn.fd

theorem turn_ran {c : Nat} {change : Connection → Option (Connection × List Use)}
    (taken : s.turn c change = some t) : ∃ conn after uses, s.connections c = some conn ∧
      change conn = some (after, uses) ∧ t = s.changed c conn after uses := by
  obtain ⟨conn,there,taken⟩ := Option.bind_eq_some_iff.mp taken
  obtain ⟨⟨after,uses⟩,changes,same⟩ := Option.map_eq_some_iff.mp taken
  exact ⟨conn,after,uses,there,changes,same.symm⟩

/-- A step that is no `accept` is one of a connection. -/
theorem step_cases (taken : step middleware s event = some t) :
    (∃ fd, event = .accept fd ∧ s.accept fd = some t) ∨
      ∃ c conn after uses, Turns middleware s t event c conn after uses := by
  have turned : ∀ c, event.connection = some c → (∀ c, event ≠ .rmClient c) →
      s.turn c (change middleware event) = some t →
      ∃ c conn after uses, Turns middleware s t event c conn after uses := by
    intro c concerns other taken
    obtain ⟨conn,after,uses,there,changes,same⟩ := turn_ran taken
    subst same
    exact ⟨c,conn,after,uses,concerns,there,change_cases changes,rfl,rfl,rfl,Or.inl ⟨rfl,other⟩⟩
  cases event with
  | accept fd => exact Or.inl ⟨fd,rfl,taken⟩
  | recv c => exact Or.inr (turned c rfl (fun _ other => nomatch other) taken)
  | returns c byte => exact Or.inr (turned c rfl (fun _ other => nomatch other) taken)
  | body c => exact Or.inr (turned c rfl (fun _ other => nomatch other) taken)
  | next c i responds => exact Or.inr (turned c rfl (fun _ other => nomatch other) taken)
  | done c i isKilled => exact Or.inr (turned c rfl (fun _ other => nomatch other) taken)
  | rmClient c =>
    obtain ⟨conn,there,taken⟩ := Option.bind_eq_some_iff.mp taken
    obtain ⟨conn',after,uses,there',changes,same⟩ := turn_ran taken
    cases there.symm.trans there'
    subst same
    have cases_of : change middleware (.rmClient c) conn = some (after, uses) := changes
    exact Or.inr ⟨c,conn,after,uses,rfl,there,change_cases cases_of,rfl,rfl,rfl,Or.inr rfl⟩

variable {c : Nat} {conn after : Connection} {uses : List Use}

/-- The connections after a step: the one that changed, and the others as they were. -/
theorem Turns.found (turns : Turns middleware s t event c conn after uses) {c' : Nat}
    {conn' : Connection} (there : t.connections c' = some conn') :
    c' = c ∧ conn' = after ∨ c' ≠ c ∧ s.connections c' = some conn' := by
  rw [turns.connections] at there
  by_cases same : c' = c
  · rw [same, Function.update_self] at there
    exact Or.inl ⟨same,(Option.some.inj there).symm⟩
  · rw [Function.update_of_ne same] at there
    exact Or.inr ⟨same,there⟩

theorem Turns.changed (turns : Turns middleware s t event c conn after uses) :
    t.connections c = some after := by
  rw [turns.connections, Function.update_self]

theorem Turns.other (turns : Turns middleware s t event c conn after uses) {c' : Nat}
    (other : c' ≠ c) : t.connections c' = s.connections c' := by
  rw [turns.connections, Function.update_of_ne other]

theorem accept_ran {fd : Nat} (taken : s.accept fd = some t) :
    t.connections = Function.update s.connections s.accepted (some ⟨fd,.ready,[],[],0,0,0⟩) ∧
      t.accepted = s.accepted + 1 ∧ t.strays = s.strays ∧
      ∀ other ∈ t.clients, other = fd ∨ other ∈ s.clients := by
  unfold Server.accept at taken
  split at taken
  · cases taken
  · cases taken
    refine ⟨rfl,rfl,rfl,?_⟩
    intro other mem
    change other ∈ (if fd ∈ s.clients then s.clients else s.clients ++ [fd]) at mem
    split at mem
    · exact Or.inr mem
    · rcases List.mem_append.mp mem with old | new
      · exact Or.inr old
      · exact Or.inl (List.mem_singleton.mp new)

theorem listed_initial : Listed initial := by
  refine ⟨fun _ _ => rfl,?_⟩
  intro fd none_yet
  cases none_yet

/-- A step keeps what holds whatever is asked for. -/
theorem step_listed (listed : Listed s) (taken : step middleware s event = some t) : Listed t := by
  rcases step_cases taken with ⟨fd,_,accepted⟩ | ⟨c,conn,after,uses,turns⟩
  · obtain ⟨connections,count,_,clients⟩ := accept_ran accepted
    refine ⟨?_,?_⟩
    · intro c later
      have other : c ≠ s.accepted := by omega
      rw [connections, Function.update_of_ne other]
      exact listed.fresh c (by omega)
    · intro number mem
      rw [connections]
      rcases clients number mem with new | old
      · rw [new]
        exact ⟨s.accepted,_,Function.update_self _ _ _,rfl,rfl⟩
      · obtain ⟨c,conn,there,rest⟩ := listed.clients number old
        have other : c ≠ s.accepted := by
          intro same
          rw [same, listed.fresh s.accepted (Nat.le_refl _)] at there
          cases there
        exact ⟨c,conn,by rw [Function.update_of_ne other]; exact there,rest⟩
  · refine ⟨?_,?_⟩
    · intro c' later
      rw [turns.accepted] at later
      have other : c' ≠ c := by
        intro same
        rw [same] at later
        have there := turns.there
        rw [listed.fresh c later] at there
        cases there
      rw [turns.other other]
      exact listed.fresh c' later
    · intro number mem
      have kept : number ∈ s.clients ∧ (number = conn.fd → after.removed = conn.removed) := by
        rcases turns.clients with ⟨same,other⟩ | fewer
        · rw [same] at mem
          exact ⟨mem,fun _ => changes_removed turns.changes other⟩
        · rw [fewer] at mem
          obtain ⟨mem,apart⟩ := List.mem_filter.mp mem
          exact ⟨mem,fun same => absurd same (of_decide_eq_true apart)⟩
      obtain ⟨c',conn',there,fd,removed⟩ := listed.clients number kept.1
      by_cases same : c' = c
      · rw [same] at there
        cases turns.there.symm.trans there
        refine ⟨c,after,turns.changed,?_,?_⟩
        · rw [changes_fd turns.changes, fd]
        · rw [kept.2 fd.symm, removed]
      · exact ⟨c',conn',by rw [turns.other same]; exact there,fd,removed⟩

/-- No number was used after a close, and each connection is whole. -/
structure Sound (s : Server) : Prop where
  listed : Listed s
  strays : s.strays = []
  whole : ∀ c conn, s.connections c = some conn → Whole conn

theorem Sound.good (sound : Sound s) : Good s := by
  refine ⟨sound.strays,?_,sound.listed.clients⟩
  intro c conn there ⟨ended,answered,none_left⟩
  rcases sound.whole c conn there with ⟨_,_,_,asked⟩ | ⟨closed,_,_,rest⟩
  · exact absurd answered (asked ended)
  · exact ⟨closed,by omega⟩

/-- A step that meets its condition leads from a sound state to a sound one. -/
theorem step_sound (sound : Sound s) (meets : Meets middleware s event)
    (taken : step middleware s event = some t) : Sound t := by
  have listed := step_listed sound.listed taken
  rcases step_cases taken with ⟨fd,_,accepted⟩ | ⟨c,conn,after,uses,turns⟩
  · obtain ⟨connections,_,strays,_⟩ := accept_ran accepted
    refine ⟨listed,strays.trans sound.strays,?_⟩
    intro c conn there
    rw [connections] at there
    by_cases same : c = s.accepted
    · rw [same, Function.update_self] at there
      cases there
      exact Or.inl ⟨rfl,rfl,rfl,fun ended => nomatch ended⟩
    · rw [Function.update_of_ne same] at there
      exact sound.whole c conn there
  · obtain ⟨whole,used⟩ := whole_keeps (sound.whole c conn turns.there)
      (meets c conn turns.concerns turns.there) turns.changes
    refine ⟨listed,?_,?_⟩
    · rw [turns.strays, sound.strays, List.nil_append]
      split
      case isTrue => rfl
      case isFalse closed =>
        have unused : uses = [] := by
          by_contra some_used
          exact closed (used some_used)
        rw [unused]
        rfl
    · intro c' conn' there
      rcases turns.found there with ⟨_,same⟩ | ⟨_,before⟩
      · rw [same]
        exact whole
      · exact sound.whole c' conn' before

/-- A number was used after a close, or a connection is doomed. -/
def Broken (s : Server) : Prop :=
  Listed s ∧ (s.strays ≠ [] ∨ ∃ c conn, s.connections c = some conn ∧ Doomed conn)

theorem Turns.broken (turns : Turns middleware s t event c conn after uses) (listed : Listed t)
    (dooms : Doomed after ∨ conn.closes ≠ 0 ∧ uses ≠ []) : Broken t := by
  refine ⟨listed,?_⟩
  rcases dooms with doomed | ⟨closed,used⟩
  · exact Or.inr ⟨c,after,turns.changed,doomed⟩
  · refine Or.inl ?_
    rw [turns.strays, if_neg closed]
    refine List.append_ne_nil_of_right_ne_nil _ ?_
    exact fun none_used => used (List.map_eq_nil_iff.mp none_used)

/-- What is broken stays broken. -/
theorem step_stays (broken : Broken s) (taken : step middleware s event = some t) : Broken t := by
  obtain ⟨listed,broken⟩ := broken
  have listed' := step_listed listed taken
  rcases step_cases taken with ⟨fd,_,accepted⟩ | ⟨c,conn,after,uses,turns⟩
  · obtain ⟨connections,_,strays,_⟩ := accept_ran accepted
    refine ⟨listed',?_⟩
    rw [strays]
    rcases broken with strayed | ⟨c,conn,there,doomed⟩
    · exact Or.inl strayed
    · have other : c ≠ s.accepted := by
        intro same
        rw [same, listed.fresh s.accepted (Nat.le_refl _)] at there
        cases there
      exact Or.inr ⟨c,conn,by rw [connections, Function.update_of_ne other]; exact there,doomed⟩
  · rcases broken with strayed | ⟨c',conn',there,doomed⟩
    · refine ⟨listed',Or.inl ?_⟩
      rw [turns.strays]
      exact List.append_ne_nil_of_left_ne_nil strayed _
    · by_cases same : c' = c
      · rw [same] at there
        cases turns.there.symm.trans there
        exact turns.broken listed' (doomed_stays doomed turns.changes)
      · exact ⟨listed',Or.inr ⟨c',conn',by rw [turns.other same]; exact there,doomed⟩⟩

/-- A step that does not meet its condition breaks something. -/
theorem step_breaks (listed : Listed s) (unmet : ¬ Meets middleware s event)
    (taken : step middleware s event = some t) : Broken t := by
  have listed' := step_listed listed taken
  rcases step_cases taken with ⟨fd,same,_⟩ | ⟨c,conn,after,uses,turns⟩
  · subst same
    exact absurd (fun _ _ other => nomatch other) unmet
  · refine turns.broken listed' (unmet_dooms (fun met => unmet ?_) turns.changes)
    intro c' conn' concerns there
    cases turns.concerns.symm.trans concerns
    cases turns.there.symm.trans there
    exact met

end Servers

/-- Nothing is left to do for any connection. -/
def Settled (s : Server) : Prop := ∀ c conn, s.connections c = some conn → Idle conn

/-- Where nothing is left to do, what is broken shows. -/
theorem Broken.not_good {s : Server} (broken : Broken s) (settled : Settled s) : ¬ Good s := by
  intro good
  rcases broken.2 with strayed | ⟨c,conn,there,doomed⟩
  · exact strayed good.strays
  · have idle := settled c conn there
    have once := (good.once c conn there idle).1
    rcases doomed with ⟨_,ready | asked⟩ | ⟨opened,_⟩
    · cases idle.1.symm.trans ready
    · exact asked idle.2.1
    · omega

/-- Requests are well-formed and do not keep the connection. -/
def Plain (s : Server) (event : Event) : Prop :=
  ∀ c conn, event.connection = some c → s.connections c = some conn → conn.reader = .waiting →
    ∀ byte, event = .returns c byte →
      match readByte conn.received byte with
      | .more => True
      | .nothing => False
      | .request req => req.isKeepAlive = false

/-- The request is being read, is pending, or was answered. -/
def Single (conn : Connection) : Prop :=
  (conn.reader ≠ .ended ∧ conn.pending = [] ∧ conn.closes = 0) ∨
  (conn.reader = .ended ∧ conn.pending.length + conn.closes = 1)

/-- The one request is answered after the loop has ended. -/
theorem single_finish {conn : Connection} {pending : Pending} {i : Nat} (single : Single conn)
    (at_i : conn.pending[i]? = some pending) :
    Single { conn with
      pending := conn.pending.eraseIdx i
      closes := conn.closes + 1
      removing := conn.removing + 1 } ∧
    (conn.pending[i]? = some pending → Finishes { conn with pending := conn.pending.eraseIdx i }) := by
  rcases single with ⟨_,answered,_⟩ | ⟨ended,one⟩
  · exact absurd answered (not_empty at_i)
  · have inside := (List.getElem?_eq_some_iff.mp at_i).1
    have fewer : (conn.pending.eraseIdx i).length = conn.pending.length - 1 := by
      rw [List.length_eraseIdx, if_pos inside]
    refine ⟨Or.inr ⟨ended,?_⟩,fun _ => ⟨?_,?_⟩⟩
    · change (conn.pending.eraseIdx i).length + (conn.closes + 1) = 1
      omega
    · intro ready
      cases ended.symm.trans ready
    · exact List.length_eq_zero_iff.mp (by change (conn.pending.eraseIdx i).length = 0; omega)

theorem single_changes {middleware : Nat} {s : Server} {event : Event} {c : Nat}
    {conn after : Connection} {uses : List Use} (single : Single conn) (plain : Plain s event)
    (concerns : event.connection = some c) (there : s.connections c = some conn)
    (changes : Changes middleware conn event after uses) :
    Single after ∧ ConnectionMeets middleware conn event := by
  cases changes with
  | recv c ready =>
    refine ⟨?_,trivial⟩
    rcases single with ⟨_,rest⟩ | ⟨ended,_⟩
    · exact Or.inl ⟨fun other => (nomatch other),rest⟩
    · cases ended.symm.trans ready
  | more c byte waits read =>
    rcases single with ⟨_,answered,opened⟩ | ⟨ended,_⟩
    · refine ⟨Or.inl ⟨fun other => (nomatch other),answered,opened⟩,fun _ => ?_⟩
      rw [read]
      exact opened
    · cases ended.symm.trans waits
  | nothing c byte waits read =>
    cases concerns
    have fine := plain c conn rfl there waits byte rfl
    rw [read] at fine
    cases fine
  | asks c byte req left waits read some_left =>
    cases concerns
    have closing := plain c conn rfl there waits byte rfl
    rw [read] at closing
    rcases single with ⟨_,answered,opened⟩ | ⟨ended,_⟩
    · refine ⟨Or.inr ⟨if_neg (by rw [closing]; exact Bool.false_ne_true),?_⟩,fun _ => ?_⟩
      · change (conn.pending ++ [Pending.handling left]).length + conn.closes = 1
        rw [answered, opened]
        rfl
      · rw [read]
        exact ⟨opened,fun _ => ⟨closing,answered⟩⟩
    · cases ended.symm.trans waits
  | unhandled c byte req waits read none_left =>
    cases concerns
    have closing := plain c conn rfl there waits byte rfl
    rw [read] at closing
    rcases single with ⟨_,answered,opened⟩ | ⟨ended,_⟩
    · refine ⟨Or.inr ⟨if_neg (by rw [closing]; exact Bool.false_ne_true),?_⟩,fun _ => ?_⟩
      · change conn.pending.length + (conn.closes + 1) = 1
        rw [answered, opened]
        rfl
      · rw [read]
        exact ⟨opened,fun _ => ⟨closing,answered⟩⟩
    · cases ended.symm.trans waits
  | body c asked => exact ⟨single,trivial⟩
  | responds c i left there =>
    refine ⟨?_,trivial⟩
    rcases single with ⟨_,answered,_⟩ | ⟨ended,one⟩
    · exact absurd answered (not_empty there)
    · refine Or.inr ⟨ended,?_⟩
      change (conn.pending.set i Pending.responding).length + conn.closes = 1
      rw [List.length_set, one]
  | passes c i left at_i =>
    refine ⟨?_,fun same => ?_⟩
    · rcases single with ⟨_,answered,_⟩ | ⟨ended,one⟩
      · exact absurd answered (not_empty at_i)
      · refine Or.inr ⟨ended,?_⟩
        have inside := (List.getElem?_eq_some_iff.mp at_i).1
        change (conn.pending.eraseIdx i ++ [Pending.handling left]).length + conn.closes = 1
        rw [List.length_append, List.length_eraseIdx, if_pos inside, List.length_singleton]
        omega
    · rw [at_i] at same
      cases same
  | exhausts c i at_i => exact single_finish single at_i
  | done c i isKilled at_i => exact single_finish single at_i
  | remove c some_left => exact ⟨single,trivial⟩

theorem step_single {middleware : Nat} {s t : Server} {event : Event}
    (single : ∀ c conn, s.connections c = some conn → Single conn) (plain : Plain s event)
    (taken : step middleware s event = some t) :
    Meets middleware s event ∧ ∀ c conn, t.connections c = some conn → Single conn := by
  rcases step_cases taken with ⟨fd,same,accepted⟩ | ⟨c,conn,after,uses,turns⟩
  · subst same
    refine ⟨fun _ _ other => (nomatch other),?_⟩
    intro c conn there
    rw [(accept_ran accepted).1] at there
    by_cases same : c = s.accepted
    · rw [same, Function.update_self] at there
      cases there
      exact Or.inl ⟨fun other => (nomatch other),rfl,rfl⟩
    · rw [Function.update_of_ne same] at there
      exact single c conn there
  · obtain ⟨kept,meets⟩ :=
      single_changes (single c conn turns.there) plain turns.concerns turns.there turns.changes
    refine ⟨?_,?_⟩
    · intro c' conn' concerns there
      cases turns.concerns.symm.trans concerns
      cases turns.there.symm.trans there
      exact meets
    · intro c' conn' there
      rcases turns.found there with ⟨_,same⟩ | ⟨_,before⟩
      · rw [same]
        exact kept
      · exact single c' conn' before

/-- Where all requests are well-formed and none keeps its connection, each step of a run meets its
    condition. -/
theorem plain_meets (middleware : Nat) {events : List Event} {last : Server}
    (run : exec (step middleware) initial events = some last)
    (plain : Along (step middleware) Plain initial events) :
    Along (step middleware) (Meets middleware) initial events := by
  have start : ∀ c conn, initial.connections c = some conn → Single conn :=
    fun _ _ there => nomatch there
  generalize initial = s at run plain start
  induction events generalizing s with
  | nil => exact trivial
  | cons event events ih =>
    obtain ⟨mid,taken,rest⟩ := exec_cons.mp run
    obtain ⟨meets,single⟩ := step_single start plain.1 taken
    exact along_cons meets taken (ih mid rest (plain.2 mid taken) single)

/-- In a run whose steps meet their condition each connection has one life; and in a run at whose
    end nothing is left to do it is only then that each has. -/
theorem one_life_iff (middleware : Nat) {events : List Event} {last : Server}
    (run : exec (step middleware) initial events = some last) :
    (Along (step middleware) (Meets middleware) initial events →
      ∀ done t, done <+: events → exec (step middleware) initial done = some t → Good t) ∧
    (Settled last →
      (∀ done t, done <+: events → exec (step middleware) initial done = some t → Good t) →
      Along (step middleware) (Meets middleware) initial events) := by
  constructor
  · intro along done t front taken
    have start : Sound initial := ⟨listed_initial,rfl,fun _ _ there => nomatch there⟩
    have met := along_prefix along front
    exact (exec_keeps (fun s event t sound meets taken => step_sound sound meets taken) start met
      taken).good
  · intro settled each
    rcases exec_breaks (fun s event t listed taken => step_listed listed taken)
      (fun s event t listed unmet taken => step_breaks listed unmet taken)
      (fun s event t broken taken => step_stays broken taken) listed_initial run with along | broken
    · exact along
    · exact absurd (each events last (List.prefix_refl _) run) (broken.not_good settled)

/-- The bytes of a request come in one by one. -/
def arrives (c : Nat) (bytes : List UInt8) : List Event :=
  bytes.flatMap fun byte => [.recv c,.returns c (some byte)]

def keepAliveBytes : List UInt8 :=
  "GET / HTTP/1.1\r\nConnection: keep-alive\r\n\r\n".toUTF8.data.toList

/-- A request that keeps the connection is answered, the number goes to another connection, and
    the loop reads from it. -/
theorem keepAlive_reads_another : ¬ ∀ done t,
    done <+: .accept 5 :: (arrives 0 keepAliveBytes ++
      [.next 0 0 true,.done 0 0 false,.accept 5,.recv 0]) →
      exec (step 1) initial done = some t → Good t := by
  intro each
  have runs : exec (step 1) initial (.accept 5 :: (arrives 0 keepAliveBytes ++
      [.next 0 0 true,.done 0 0 false,.accept 5,.recv 0])) = some _ := rfl
  have good := each _ _ (List.prefix_refl _) runs
  exact absurd good.strays (List.cons_ne_nil _ _)

theorem accept_meets {middleware : Nat} {s : Server} (fd : Nat) :
    Meets middleware s (.accept fd) := fun _ _ other => nomatch other

theorem recv_meets {middleware : Nat} {s : Server} (c : Nat) : Meets middleware s (.recv c) :=
  fun _ _ _ _ => trivial

theorem rmClient_meets {middleware : Nat} {s : Server} (c : Nat) :
    Meets middleware s (.rmClient c) := fun _ _ _ _ => trivial

theorem responds_meets {middleware : Nat} {s : Server} (c i : Nat) :
    Meets middleware s (.next c i true) := fun _ _ _ _ => trivial

theorem returns_more {middleware : Nat} {s : Server} {c : Nat} {conn : Connection}
    {byte : Option UInt8} (there : s.connections c = some conn)
    (read : readByte conn.received byte = .more) (opened : conn.closes = 0) :
    Meets middleware s (.returns c byte) := by
  intro c' conn' concerns there'
  cases concerns
  cases there.symm.trans there'
  intro _
  rw [read]
  exact opened

theorem returns_request {middleware : Nat} {s : Server} {c : Nat} {conn : Connection}
    {byte : Option UInt8} {req : Request} (there : s.connections c = some conn)
    (read : readByte conn.received byte = .request req) (opened : conn.closes = 0)
    (some_left : middleware ≠ 0) : Meets middleware s (.returns c byte) := by
  intro c' conn' concerns there'
  cases concerns
  cases there.symm.trans there'
  intro _
  rw [read]
  exact ⟨opened,fun none_left => absurd none_left some_left⟩

theorem done_meets {middleware : Nat} {s : Server} {c i : Nat} {conn : Connection}
    {isKilled : Bool} (there : s.connections c = some conn)
    (finishes : Finishes { conn with pending := conn.pending.eraseIdx i }) :
    Meets middleware s (.done c i isKilled) := by
  intro c' conn' concerns there'
  cases concerns
  cases there.symm.trans there'
  exact fun _ => finishes

def shortBytes : List UInt8 := "G / H\n\n".toUTF8.data.toList

theorem short_meets : Along (step 1) (Meets 1) initial (.accept 5 :: (arrives 0 shortBytes ++
    [.next 0 0 true,.done 0 0 false,.rmClient 0])) := by
  refine along_cons (accept_meets 5) rfl ?_
  iterate 6
    refine along_cons (recv_meets 0) rfl (along_cons (returns_more rfl rfl rfl) rfl ?_)
  refine along_cons (recv_meets 0) rfl (along_cons (returns_request rfl rfl rfl (by decide)) rfl ?_)
  refine along_cons (responds_meets 0 0) rfl (along_cons (done_meets rfl ?_) rfl
    (along_cons (rmClient_meets 0) rfl trivial))
  exact ⟨fun other => (nomatch other),rfl⟩

theorem short_good : ∃ last, exec (step 1) initial (.accept 5 :: (arrives 0 shortBytes ++
    [.next 0 0 true,.done 0 0 false,.rmClient 0])) = some last ∧ Good last ∧ last.clients = [] :=
  ⟨_,rfl,(one_life_iff 1 rfl).1 short_meets _ _ (List.prefix_refl _) rfl,rfl⟩

end HTTPServer
