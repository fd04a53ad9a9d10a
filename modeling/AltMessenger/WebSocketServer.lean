import AltMessenger.WebSocket
import AltMessenger.WireOrder

/-!
The write side of the web socket server, for one socket. When the socket can be written, the first
frame of its queue is taken out and sent, call by call. A call that takes nothing is an error,
whatever it was that kept it from taking any; the socket is then given up, with what is left of
the frame.
-/
namespace WebSocketServer
open TransitionRuns WireOrder WebSocket

/-- How a call of `send` ends. -/
inductive SendResult where
  | took (count : Nat)
  | wouldBlock
  deriving DecidableEq, Repr

/-- What the call returns. -/
def SendResult.value : SendResult → Int
  | took count => count
  | wouldBlock => -1

def EWOULDBLOCK : Int := 35

def EAGAIN : Int := 35

/-- The loop of `sendBuffer`, with what its calls answer: the bytes that were sent, and whether it
    throws. Calls that cannot be answered so are no run of the loop. -/
def sendLoop (count : Nat) : Nat → List SendResult → Option (Nat × Bool)
  | sent, [] => if sent < count then none else some (sent,false)
  | sent, result :: results =>
    if sent < count then
      let s := result.value
      if s ≤ 0 then
        if results = [] then
          -- the returned value is taken for the error's number
          if s = EWOULDBLOCK ∨ s = EAGAIN then some (sent,false) else some (sent,true)
        else none
      else if sent + s.toNat ≤ count then sendLoop count (sent + s.toNat) results
      else none
    else none

def sendBuffer (buffer : List UInt8) (results : List SendResult) : Option (Nat × Bool) :=
  sendLoop buffer.length 0 results

/-- `dropped` is what was left of a frame when the socket was given up. -/
structure State where
  sendq : List (SocketOpcode × List UInt8)
  isOpen : Bool
  wire : List UInt8
  dropped : List UInt8
  deriving DecidableEq, Repr

def State.initial : State := ⟨[],true,[],[]⟩

inductive Event where
  | message (fin : Bool) (opcode : SocketOpcode) (data : List UInt8)
  | writable (results : List SendResult)
  deriving DecidableEq, Repr

/-- The part of `_serveForever` for a socket that can be written. -/
def serveWrite (s : State) (results : List SendResult) : Option State :=
  match s.sendq with
  -- only a socket with a queue is asked about
  | [] => none
  | (opcode,payload) :: sendq =>
    match sendBuffer payload results with
    | none => none
    | some (sentBytes,true) =>
      some { s with
        sendq, isOpen := false, wire := s.wire ++ payload.take sentBytes,
        dropped := payload.drop sentBytes }
    | some (sentBytes,false) =>
      let s := { s with sendq, wire := s.wire ++ payload.take sentBytes }
      if sentBytes ≠ payload.length then
        -- there is no suffix from -1
        if sentBytes = 0 then none
        else some { s with sendq := (opcode,payload.drop (sentBytes - 1)) :: sendq }
      else if opcode = .close then some { s with isOpen := false }
      else some s

def step (s : State) : Event → Option State
  | .message fin opcode data =>
    some { s with sendq := s.sendq ++ [(opcode,frameBytes fin opcode data)] }
  | .writable results => if s.isOpen then serveWrite s results else none

/-- The bytes of the frame that an event queues. -/
def queued : Event → List UInt8
  | .message fin opcode data => frameBytes fin opcode data
  | .writable _ => []

/-- What is on the wire after these events is a first part of the frames queued by them, and all
    of it if the queue is empty. -/
def Lossless (events : List Event) (s : State) : Prop :=
  s.wire <+: events.flatMap queued ∧ (s.sendq = [] → s.wire = events.flatMap queued)

/-- While the last frame of the queue is sent every call takes something. -/
def Unblocked (s : State) : Event → Prop
  | .writable results => s.sendq.length = 1 → ∀ result ∈ results, 0 < result.value
  | .message _ _ _ => True

instance (s : State) : (e : Event) → Decidable (Unblocked s e)
  | .writable results =>
    inferInstanceAs (Decidable (s.sendq.length = 1 → ∀ result ∈ results, 0 < result.value))
  | .message _ _ _ => .isTrue trivial

def backlog (s : State) : Backlog UInt8 where
  wire := s.wire
  waiting := s.dropped ++ s.sendq.flatMap Prod.snd

/-- As long as the socket is open nothing was dropped. -/
def Kept (s : State) : Prop := s.isOpen = true → s.dropped = []

/-- A buffer is sent whole, or a call took nothing and the loop throws before its end. -/
theorem sendLoop_ends {count : Nat} {results : List SendResult} :
    ∀ {sent sentBytes : Nat} {thrown : Bool}, sent ≤ count →
      sendLoop count sent results = some (sentBytes,thrown) →
      sentBytes ≤ count ∧ (thrown = false → sentBytes = count) ∧
        (thrown = true → sentBytes < count) ∧
        (thrown = false ↔ ∀ result ∈ results, 0 < result.value) := by
  induction results with
  | nil =>
    intro sent sentBytes thrown within ran
    rw [sendLoop] at ran
    split at ran
    · cases ran
    · cases ran
      have whole : sent = count := by omega
      simp [whole]
  | cons result results ih =>
    intro sent sentBytes thrown within ran
    rw [sendLoop] at ran
    split at ran
    case isFalse => cases ran
    case isTrue more =>
      dsimp only at ran
      split at ran
      case isTrue nothing =>
        have other : ¬ (result.value = EWOULDBLOCK ∨ result.value = EAGAIN) := by
          unfold EWOULDBLOCK EAGAIN
          omega
        rw [if_neg other] at ran
        split at ran
        case isFalse => cases ran
        case isTrue last =>
          cases ran
          have blocked : ¬ 0 < result.value := by omega
          simp [last, blocked, more, within]
      case isFalse some =>
        split at ran
        case isFalse => cases ran
        case isTrue fits =>
          obtain ⟨le,full,short,all⟩ := ih fits ran
          refine ⟨le,full,short,?_⟩
          rw [all, List.forall_mem_cons]
          exact ⟨fun rest => ⟨by omega,rest⟩,fun both => both.2⟩

/-- What a write does: the first frame goes out whole, or a part of it does and the socket is given
    up. -/
theorem serveWrite_cases {s t : State} {results : List SendResult}
    (taken : serveWrite s results = some t) :
    ∃ opcode payload sendq, s.sendq = (opcode,payload) :: sendq ∧ t.sendq = sendq ∧
      ((t.wire = s.wire ++ payload ∧ t.dropped = s.dropped ∧
          (t.isOpen = true → s.isOpen = true) ∧ ∀ result ∈ results, 0 < result.value) ∨
        ∃ sentBytes, sentBytes < payload.length ∧ t.wire = s.wire ++ payload.take sentBytes ∧
          t.dropped = payload.drop sentBytes ∧ t.isOpen = false ∧
          ¬ ∀ result ∈ results, 0 < result.value) := by
  unfold serveWrite at taken
  split at taken
  · cases taken
  · rename_i opcode payload sendq queue
    refine ⟨opcode,payload,sendq,queue,?_⟩
    split at taken
    · cases taken
    · rename_i sentBytes ran
      obtain ⟨_,_,short,all⟩ := sendLoop_ends (Nat.zero_le _) ran
      cases taken
      refine ⟨rfl,Or.inr ⟨sentBytes,short rfl,rfl,rfl,rfl,?_⟩⟩
      rw [← all]
      decide
    · rename_i sentBytes ran
      obtain ⟨_,full,_,all⟩ := sendLoop_ends (Nat.zero_le _) ran
      have whole := full rfl
      dsimp only at taken
      rw [if_neg (not_not.mpr whole), whole, List.take_length] at taken
      split at taken
      · cases taken
        exact ⟨rfl,Or.inl ⟨rfl,rfl,fun closed => (nomatch closed),all.mp rfl⟩⟩
      · cases taken
        exact ⟨rfl,Or.inl ⟨rfl,rfl,id,all.mp rfl⟩⟩

theorem step_writable {s t : State} {results : List SendResult} :
    step s (.writable results) = some t ↔ s.isOpen = true ∧ serveWrite s results = some t :=
  Option.ite_none_right_eq_some

theorem behaves : Behaves Kept step backlog queued := by
  intro s e t kept taken
  cases e with
  | message fin opcode data =>
    cases taken
    exact ⟨kept,0,by simp [queued, backlog, Backlog.push]⟩
  | writable results =>
    obtain ⟨isOpen,served⟩ := step_writable.mp taken
    have nothing := kept isOpen
    obtain ⟨opcode,payload,sendq,queue,rest,sent | lost⟩ := serveWrite_cases served
    · obtain ⟨wire,dropped,_,_⟩ := sent
      refine ⟨fun _ => dropped.trans nothing,payload.length,?_⟩
      simp [queued, backlog, Backlog.advance, queue, rest, wire, dropped, nothing]
    · obtain ⟨sentBytes,short,wire,dropped,closed,_⟩ := lost
      have within : sentBytes ≤ payload.length := by omega
      refine ⟨?_,sentBytes,?_⟩
      · intro opened
        rw [closed] at opened
        cases opened
      · simp [queued, backlog, Backlog.advance, queue, rest, wire, dropped, nothing,
          List.take_append_of_le_length within, List.drop_append_of_le_length within]

/-- Nothing is lost exactly if an empty queue means that nothing was dropped. -/
theorem lossless_iff {events : List Event} {s : State}
    (run : exec step State.initial events = some s) :
    Lossless events s ↔ (s.sendq = [] → s.dropped = []) := by
  have all := behaves.accepted (fun _ => rfl) run
  have from_start : (backlog State.initial).accepted = [] := rfl
  rw [from_start, List.nil_append] at all
  unfold Lossless
  rw [← all]
  constructor
  · intro lossless empty
    have waiting : (backlog s).waiting = [] := Backlog.wire_all.mp (lossless.2 empty)
    exact (List.append_eq_nil_iff.mp waiting).1
  · intro kept
    refine ⟨(backlog s).wire_comes_first,?_⟩
    intro empty
    have waiting : (backlog s).waiting = [] := by
      unfold backlog
      rw [kept empty, empty, List.flatMap_nil, List.append_nil]
    exact Backlog.wire_all.mpr waiting

theorem step_kept (s : State) (e : Event) (t : State) (kept : Kept s)
    (taken : step s e = some t) : Kept t := (behaves s e t kept taken).1

/-- A step leaves something dropped behind an empty queue exactly if a call blocks on the last
    frame. -/
theorem step_exact (s : State) (e : Event) (t : State) (kept : Kept s)
    (taken : step s e = some t) :
    (t.sendq = [] → t.dropped = []) ↔ Unblocked s e := by
  cases e with
  | message fin opcode data =>
    cases taken
    simp [Unblocked]
  | writable results =>
    obtain ⟨isOpen,served⟩ := step_writable.mp taken
    obtain ⟨opcode,payload,sendq,queue,rest,sent | lost⟩ := serveWrite_cases served
    · obtain ⟨_,dropped,_,all⟩ := sent
      exact ⟨fun _ _ => all,fun _ _ => dropped.trans (kept isOpen)⟩
    · obtain ⟨sentBytes,short,_,dropped,_,blocked⟩ := lost
      have some : t.dropped ≠ [] := by
        rw [dropped]
        exact fun none => absurd (List.drop_eq_nil_iff.mp none) (by omega)
      rw [Unblocked, queue, List.length_cons, rest]
      constructor
      · intro nonempty last
        exact absurd (nonempty (List.length_eq_zero_iff.mp (by omega))) some
      · intro unblocked empty
        exact absurd (unblocked (by rw [empty]; rfl)) blocked

/-- In each state of a run the wire has a first part of the frames, and all of them if the queue is
    empty, exactly if no call blocks while the last frame of the queue is sent. -/
theorem nothing_lost_iff (events : List Event) (s : State)
    (run : exec step State.initial events = some s) :
    (∀ done t, done <+: events → exec step State.initial done = some t → Lossless done t) ↔
      Along step Unblocked State.initial events := by
  have exact : ∀ s e t, Kept s → (s.sendq = [] → s.dropped = []) → step s e = some t →
      ((t.sendq = [] → t.dropped = []) ↔ Unblocked s e) :=
    fun s e t kept _ => step_exact s e t kept
  rw [← exec_good_iff step_kept exact (fun _ => rfl) (fun _ => rfl) run]
  constructor
  · exact fun each done t front ran => (lossless_iff ran).mp (each done t front ran)
  · exact fun each done t front ran => (lossless_iff ran).mpr (each done t front ran)

def helloFrame : List UInt8 := frameBytes false .text [104,105]

/-- A frame of four bytes that goes out in two calls. -/
def partedEvents : List Event :=
  [.message false .text [104,105], .writable [.took 1, .took 3]]

theorem parted_frame_not_lost : Lossless partedEvents ⟨[],true,helloFrame,[]⟩ :=
  (nothing_lost_iff partedEvents ⟨[],true,helloFrame,[]⟩ (by decide)).mpr (by decide)
    partedEvents _ (List.prefix_refl partedEvents) (by decide)

def blockedEvents : List Event :=
  [.message false .text [104,105], .writable [.took 1, .wouldBlock]]

/-- After one byte the next call would block: the queue is empty, and three bytes are gone. -/
theorem blocked_frame_lost :
    exec step State.initial blockedEvents =
        some ⟨[],false,helloFrame.take 1,helloFrame.drop 1⟩ ∧
      ¬ Lossless blockedEvents ⟨[],false,helloFrame.take 1,helloFrame.drop 1⟩ := by
  refine ⟨by decide,?_⟩
  rintro ⟨_,whole⟩
  exact absurd (whole rfl) (by decide)

end WebSocketServer
