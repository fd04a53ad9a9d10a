import AltMessenger.BitcoinMessage
import AltMessenger.WireOrder

/-!
The sending side of a peer connection. Messages are handed to the network thread in blocks, which
its run loop performs in order; they wait in a queue, and one at a time its bytes are written as
far as the stream takes them. All of this is a wire for the bytes of the messages.
-/
namespace PeerSender
open TransitionRuns WireOrder BitcoinMessage

/-- A block for the network thread. -/
inductive Operation where
  | enqueue (message : Message)
  | send
  deriving DecidableEq, Repr

structure State where
  operations : List Operation
  outputStream : Bool
  messageSendQueue : List Message
  pendingSendBytes : List UInt8
  wire : List UInt8
  deriving DecidableEq, Repr

def State.initial : State := ⟨[],false,[],[],[]⟩

/-- What the output stream answers: a write takes some bytes, none, or fails with -1. -/
structure Answer where
  hasSpaceAvailable : Bool
  bytesWritten : Int
  deriving DecidableEq, Repr

inductive Event where
  | opened
  | sendMessageWithPayload (message : Message)
  | performed (answer : Answer)
  | hasSpaceAvailable (answer : Answer)
  deriving DecidableEq, Repr

/-- The next message is encoded when nothing of the one before it is left. -/
def takeMessage (s : State) : State :=
  match s.messageSendQueue with
  | message :: queue =>
    if s.pendingSendBytes.length = 0 then
      { s with
        messageSendQueue := queue
        pendingSendBytes := s.pendingSendBytes ++ message.bitcoinData }
    else s
  | [] => s

/-- `outputStream.write` of all that is pending, which takes no more than it is offered. -/
def write (s : State) (bytesWritten : Int) : Option State :=
  if s.pendingSendBytes.length < bytesWritten then none
  else if 0 < bytesWritten then
    some { s with
      wire := s.wire ++ s.pendingSendBytes.take bytesWritten.toNat
      pendingSendBytes := s.pendingSendBytes.drop bytesWritten.toNat }
  else some s

def sendWithStream (s : State) (answer : Answer) : Option State :=
  if answer.hasSpaceAvailable = false then some s
  else
    let s := takeMessage s
    if 0 < s.pendingSendBytes.length then
      (write s answer.bytesWritten).map fun s =>
        if 0 < s.messageSendQueue.length ∨ 0 < s.pendingSendBytes.length then
          { s with operations := s.operations ++ [.send] }
        else s
    else some s

def send (s : State) (answer : Answer) : Option State :=
  if s.outputStream then sendWithStream s answer else some s

def step (s : State) : Event → Option State
  | .opened => some { s with outputStream := true }
  | .sendMessageWithPayload message =>
    some { s with operations := s.operations ++ [.enqueue message] }
  | .performed answer =>
    match s.operations with
    | [] => none
    | .enqueue message :: operations =>
      send { s with operations, messageSendQueue := s.messageSendQueue ++ [message] } answer
    | .send :: operations => send { s with operations } answer
  | .hasSpaceAvailable answer => send s answer

/-- The bytes of the message that an event hands over. -/
def encoded : Event → List UInt8
  | .sendMessageWithPayload message => message.bitcoinData
  | .opened | .performed _ | .hasSpaceAvailable _ => []

def Operation.bytes : Operation → List UInt8
  | .enqueue message => message.bitcoinData
  | .send => []

def backlog (s : State) : Backlog UInt8 where
  wire := s.wire
  waiting := s.pendingSendBytes ++ (s.messageSendQueue.flatMap Message.bitcoinData ++
    s.operations.flatMap Operation.bytes)

theorem backlog_takeMessage (s : State) : backlog (takeMessage s) = backlog s := by
  unfold takeMessage
  split
  · rename_i message queue waiting
    split
    · simp [backlog, waiting]
    · rfl
  · rfl

theorem write_advances {s t : State} {bytesWritten : Int}
    (taken : write s bytesWritten = some t) :
    ∃ count, backlog t = (backlog s).advance count := by
  unfold write at taken
  split at taken
  case isTrue => cases taken
  case isFalse offered =>
    split at taken
    case isTrue =>
      cases taken
      have within : bytesWritten.toNat ≤ s.pendingSendBytes.length := by omega
      refine ⟨bytesWritten.toNat,?_⟩
      unfold backlog Backlog.advance
      rw [List.take_append_of_le_length within, List.drop_append_of_le_length within]
    case isFalse =>
      cases taken
      exact ⟨0,(Backlog.advance_zero _).symm⟩

theorem send_advances {s t : State} {answer : Answer} (taken : send s answer = some t) :
    ∃ count, backlog t = (backlog s).advance count := by
  unfold send sendWithStream at taken
  have still : backlog s = (backlog s).advance 0 := (Backlog.advance_zero _).symm
  split at taken
  case isFalse =>
    cases taken
    exact ⟨0,still⟩
  split at taken
  case isTrue =>
    cases taken
    exact ⟨0,still⟩
  dsimp only at taken
  split at taken
  case isFalse =>
    cases taken
    exact ⟨0,(backlog_takeMessage s).trans still⟩
  obtain ⟨written,wrote,rfl⟩ := Option.map_eq_some_iff.mp taken
  obtain ⟨count,moved⟩ := write_advances wrote
  rw [backlog_takeMessage] at moved
  refine ⟨count,?_⟩
  rw [← moved]
  split
  · unfold backlog
    simp [Operation.bytes]
  · rfl

/-- A block that is performed moves its message on, and what is sent comes from the front. -/
theorem behaves : Behaves (fun _ => True) step backlog encoded := by
  intro s e t _ taken
  refine ⟨trivial,?_⟩
  cases e with
  | opened =>
    cases taken
    exact ⟨0,by simp [encoded, backlog]⟩
  | sendMessageWithPayload message =>
    cases taken
    exact ⟨0,by simp [encoded, backlog, Backlog.push, Operation.bytes]⟩
  | hasSpaceAvailable answer =>
    obtain ⟨count,moved⟩ := send_advances taken
    exact ⟨count,by rw [moved, encoded, Backlog.push_nil]⟩
  | performed answer =>
    rw [step] at taken
    rw [encoded, Backlog.push_nil]
    split at taken
    · cases taken
    · rename_i message operations next
      obtain ⟨count,moved⟩ := send_advances taken
      exact ⟨count,by rw [moved]; simp [backlog, next, Operation.bytes]⟩
    · rename_i operations next
      obtain ⟨count,moved⟩ := send_advances taken
      exact ⟨count,by rw [moved]; simp [backlog, next, Operation.bytes]⟩

/-- Nothing waits to be sent. -/
def Idle (s : State) : Prop :=
  s.operations = [] ∧ s.messageSendQueue = [] ∧ s.pendingSendBytes = []

/-- In every run the bytes written are a first part of the messages' bytes in the order in which
    they were handed over, and all of them once nothing waits. -/
theorem bytes_in_order (events : List Event) (s : State)
    (run : exec step State.initial events = some s) :
    s.wire <+: events.flatMap encoded ∧ (Idle s → s.wire = events.flatMap encoded) := by
  have all := behaves.accepted trivial run
  have from_start : (backlog State.initial).accepted = [] := rfl
  rw [from_start, List.nil_append] at all
  rw [← all]
  refine ⟨(backlog s).wire_comes_first,?_⟩
  intro idle
  have waiting : (backlog s).waiting = [] := by
    unfold backlog
    rw [idle.1, idle.2.1, idle.2.2]
    simp only [List.flatMap_nil, List.append_nil]
  exact Backlog.wire_all.mpr waiting

def verack : Message where
  header := ⟨magicBytes,.VersionAck,0,0x5df6e0e2⟩
  payload := []

/-- A message of 24 bytes, written in two parts with a refusal between them. -/
def partedEvents : List Event :=
  [.opened, .sendMessageWithPayload verack, .performed ⟨true,10⟩, .performed ⟨true,0⟩,
    .hasSpaceAvailable ⟨true,14⟩]

theorem parted_message_in_order :
    (State.mk [.send] true [] [] verack.bitcoinData).wire <+: partedEvents.flatMap encoded ∧
      (Idle (State.mk [.send] true [] [] verack.bitcoinData) →
        (State.mk [.send] true [] [] verack.bitcoinData).wire = partedEvents.flatMap encoded) :=
  bytes_in_order partedEvents _ rfl

end PeerSender
