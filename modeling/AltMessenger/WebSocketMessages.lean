import Mathlib.Data.List.Basic
import AltMessenger.WebSocket

/-!
Messages in fragments. A fragmented message is a first frame, any number of continuations and a
last one, with pings and pongs anywhere between them. What the socket hands to its client is made
of the last frame alone, whatever the frames before it said.
-/
namespace WebSocketMessages
open WebSocket BRWebSocketImpl

/-- The opcode of a message's first frame. -/
def opcodeOf : Received → SocketOpcode
  | .text _ => .text
  | .data _ => .binary

def bytesOf : Received → List UInt8
  | .text text => utf8 text
  | .data data => data

/-- A ping or a pong. -/
structure Control where
  isPing : Bool
  fin : Bool
  data : List UInt8
  deriving DecidableEq, Repr

def Control.packet (control : Control) : Packet where
  opcode := if control.isPing then .ping else .pong
  fin := control.fin
  data := control.data

/-- The fragments after the first one, each with the control frames that come before it. -/
structure Fragments where
  first : List UInt8
  rest : List (List Control × List UInt8)
  deriving DecidableEq, Repr

def continuations : List (List Control × List UInt8) → List Packet
  | [] => []
  | (controls,data) :: rest =>
    controls.map Control.packet ++ ⟨.stream,rest.isEmpty,data⟩ :: continuations rest

namespace Fragments

def pieces (fragments : Fragments) : List (List UInt8) :=
  fragments.first :: fragments.rest.map Prod.snd

def packets (opcode : SocketOpcode) (fragments : Fragments) : List Packet :=
  ⟨opcode,fragments.rest.isEmpty,fragments.first⟩ :: continuations fragments.rest

end Fragments

/-- The parser's fields, set from the packet. -/
def load (s : BRWebSocketImpl) (packet : Packet) : BRWebSocketImpl :=
  { s with
    opcode := packet.opcode, fin := if packet.fin then 0x80 else 0, data := packet.data,
    dataWritten := packet.data.length }

def deliver (s : BRWebSocketImpl) (packet : Packet) : BRWebSocketImpl :=
  (load s packet).handlePacket

/-- No fragment is kept. -/
structure Idle (s : BRWebSocketImpl) : Prop where
  fragStart : s.fragStart = false
  fragType : s.fragType = .binary
  fragBuffer : s.fragBuffer = []

/-- The client is called once, with the message, and no fragment is left. -/
def Reassembled (s : BRWebSocketImpl) (message : Received) (fragments : Fragments) : Prop :=
  let t := (fragments.packets (opcodeOf message)).foldl deliver s
  t.received = s.received ++ [message] ∧ Idle t

/-- A text in one frame, or fragments of which the last one says everything. -/
def SaidAtLast (message : Received) (fragments : Fragments) : Prop :=
  fragments.rest = [] ∧ opcodeOf message = .text ∨
    fragments.rest ≠ [] ∧ ∀ piece ∈ fragments.pieces.dropLast, piece = []

theorem ofUTF8_iff {bytes : List UInt8} {text : String} :
    ofUTF8 bytes = some text ↔ utf8 text = bytes := by
  unfold ofUTF8 utf8 String.fromUTF8?
  constructor
  · intro decoded
    split at decoded
    · cases decoded
      rfl
    · cases decoded
  · rintro rfl
    have valid : (⟨text.toUTF8.data.toList.toArray⟩ : ByteArray).IsValidUTF8 := by
      simpa using text.isValidUTF8
    rw [dif_pos valid]
    apply congrArg some
    apply String.toByteArray_inj.mp
    simp [String.fromUTF8]

section Steps
variable {s : BRWebSocketImpl}

/-- In the middle of a message of this type, the client called with these so far. -/
structure Collecting (type : SocketOpcode) (received : List Received) (s : BRWebSocketImpl) :
    Prop where
  fragStart : s.fragStart = true
  fragType : s.fragType = type
  received : s.received = received

/-- What the client is called with at the end of a message. -/
def called (type : SocketOpcode) (bytes : List UInt8) : List Received :=
  if type = .text then ((ofUTF8 bytes).map Received.text).toList else [.data bytes]

theorem receiveText_received (bytes : List UInt8) :
    (s.receiveText bytes).received = s.received ++ called .text bytes := by
  unfold receiveText called
  cases ofUTF8 bytes with
  | none => simp
  | some text => rfl

theorem receiveText_fragments (bytes : List UInt8) :
    (s.receiveText bytes).fragStart = s.fragStart ∧ (s.receiveText bytes).fragType = s.fragType ∧
      (s.receiveText bytes).fragBuffer = s.fragBuffer := by
  unfold receiveText
  cases ofUTF8 bytes <;> exact ⟨rfl,rfl,rfl⟩

/-- What a frame with content finds. -/
def arrived (s : BRWebSocketImpl) (packet : Packet) : BRWebSocketImpl := (load s packet).record

theorem deliver_content {opcode : SocketOpcode}
    (content : opcode = .stream ∨ opcode = .text ∨ opcode = .binary) (fin : Bool)
    (data : List UInt8) :
    deliver s ⟨opcode,fin,data⟩ =
      if fin then (arrived s ⟨opcode,fin,data⟩).handleFinal
      else (arrived s ⟨opcode,fin,data⟩).handleFragment := by
  cases fin <;> rcases content with rfl | rfl | rfl <;> rfl

/-- A control frame changes nothing of the reassembly. -/
theorem deliver_control (control : Control) :
    (deliver s control.packet).fragStart = s.fragStart ∧
      (deliver s control.packet).fragType = s.fragType ∧
      (deliver s control.packet).fragBuffer = s.fragBuffer ∧
      (deliver s control.packet).received = s.received := by
  obtain ⟨isPing,fin,data⟩ := control
  unfold deliver handlePacket
  by_cases long : 125 < data.length
  · rw [if_pos ⟨by cases isPing <;> simp [load, record, Control.packet],long⟩]
    exact ⟨rfl,rfl,rfl,rfl⟩
  · rw [if_neg (fun both => long both.2)]
    cases isPing <;> cases fin <;> exact ⟨rfl,rfl,rfl,rfl⟩

theorem controls_collecting {type : SocketOpcode} {received : List Received}
    (controls : List Control) :
    ∀ {s}, Collecting type received s →
      Collecting type received ((controls.map Control.packet).foldl deliver s) := by
  induction controls with
  | nil => exact fun collecting => collecting
  | cons control controls ih =>
    intro s collecting
    obtain ⟨fragStart,fragType,_,same⟩ := @deliver_control s control
    exact ih ⟨fragStart.trans collecting.fragStart,fragType.trans collecting.fragType,
      same.trans collecting.received⟩

theorem deliver_first {opcode : SocketOpcode} (content : opcode = .text ∨ opcode = .binary)
    (data : List UInt8) : Collecting opcode s.received (deliver s ⟨opcode,false,data⟩) := by
  rw [deliver_content (Or.inr content)]
  rcases content with rfl | rfl <;> exact ⟨rfl,rfl,rfl⟩

theorem handleFragment_stream {t : BRWebSocketImpl} (stream : t.opcode = .stream)
    (start : t.fragStart = true) :
    t.handleFragment = { t with fragBuffer := t.fragBuffer ++ t.data } := by
  unfold handleFragment
  simp [stream, start]

theorem deliver_middle {type : SocketOpcode} {received : List Received}
    (collecting : Collecting type received s) (data : List UInt8) :
    Collecting type received (deliver s ⟨.stream,false,data⟩) := by
  have start : (arrived s ⟨.stream,false,data⟩).fragStart = true := collecting.fragStart
  rw [deliver_content (Or.inl rfl), if_neg (by decide), handleFragment_stream rfl start]
  exact ⟨collecting.fragStart,collecting.fragType,collecting.received⟩

theorem handleFinal_stream {t : BRWebSocketImpl} (stream : t.opcode = .stream)
    (start : t.fragStart = true) :
    t.handleFinal.received = t.received ++ called t.fragType t.data ∧ Idle t.handleFinal := by
  unfold handleFinal
  simp only [stream, start, if_true]
  refine ⟨?_,rfl,rfl,rfl⟩
  by_cases text : t.fragType = .text
  · rw [text]
    exact receiveText_received t.data
  · unfold called
    simp [text, receive]

theorem deliver_last {type : SocketOpcode} {received : List Received}
    (collecting : Collecting type received s) (data : List UInt8) :
    (deliver s ⟨.stream,true,data⟩).received = received ++ called type data ∧
      Idle (deliver s ⟨.stream,true,data⟩) := by
  have start : (arrived s ⟨.stream,true,data⟩).fragStart = true := collecting.fragStart
  obtain ⟨last,idle⟩ := handleFinal_stream (rfl : (arrived s ⟨.stream,true,data⟩).opcode = _) start
  rw [deliver_content (Or.inl rfl), if_pos rfl]
  refine ⟨?_,idle⟩
  rw [last, ← collecting.fragType, ← collecting.received]
  rfl

end Steps

/-- The continuations end the message, with what the last of them says. -/
theorem continuations_run {type : SocketOpcode} {received : List Received}
    {rest : List (List Control × List UInt8)} :
    ∀ {s}, Collecting type received s → (some : rest ≠ []) →
      ((continuations rest).foldl deliver s).received =
          received ++ called type (rest.getLast some).2 ∧
        Idle ((continuations rest).foldl deliver s) := by
  induction rest with
  | nil => exact fun _ some => absurd rfl some
  | cons next rest ih =>
    obtain ⟨controls,data⟩ := next
    intro s collecting _
    have there := controls_collecting controls collecting
    unfold continuations
    rw [List.foldl_append, List.foldl_cons]
    cases rest with
    | nil => exact deliver_last there data
    | cons second rest =>
      have more : second :: rest ≠ [] := List.cons_ne_nil _ _
      rw [List.getLast_cons more]
      exact ih (deliver_middle there data) more

theorem opcodeOf_content (message : Received) :
    opcodeOf message = .text ∨ opcodeOf message = .binary := by
  cases message
  · exact Or.inl rfl
  · exact Or.inr rfl

/-- The client is called with a message exactly if the bytes it is made of are the message's. -/
theorem called_iff {message : Received} {bytes : List UInt8} :
    called (opcodeOf message) bytes = [message] ↔ bytes = bytesOf message := by
  cases message with
  | data data => simp [called, opcodeOf, bytesOf]
  | text text =>
    unfold called opcodeOf bytesOf
    rw [if_pos rfl]
    constructor
    · intro same
      cases decoded : ofUTF8 bytes with
      | none =>
        rw [decoded] at same
        cases same
      | some other =>
        rw [decoded] at same
        cases same
        exact (ofUTF8_iff.mp decoded).symm
    · intro same
      rw [ofUTF8_iff.mpr same.symm]
      rfl

theorem handleFinal_single {t : BRWebSocketImpl} (start : t.fragStart = false)
    (content : t.opcode = .text ∨ t.opcode = .binary) :
    t.handleFinal = if t.opcode = .text then t.receiveText t.data else t := by
  unfold handleFinal
  rcases content with same | same <;> simp [same, start]

theorem single_run {s : BRWebSocketImpl} (idle : Idle s) (message : Received) :
    (deliver s ⟨opcodeOf message,true,bytesOf message⟩).received =
        s.received ++ (if opcodeOf message = .text then [message] else []) ∧
      Idle (deliver s ⟨opcodeOf message,true,bytesOf message⟩) := by
  have content := opcodeOf_content message
  have start : (arrived s ⟨opcodeOf message,true,bytesOf message⟩).fragStart = false :=
    idle.fragStart
  rw [deliver_content (Or.inr content), if_pos rfl, handleFinal_single start content]
  cases message with
  | data data => exact ⟨(List.append_nil _).symm,idle.fragStart,idle.fragType,idle.fragBuffer⟩
  | text text =>
    have said : called .text (utf8 text) = [Received.text text] :=
      (@called_iff (.text text) (utf8 text)).mpr rfl
    have received := @receiveText_received (arrived s ⟨.text,true,utf8 text⟩) (utf8 text)
    obtain ⟨fragStart,fragType,fragBuffer⟩ :=
      @receiveText_fragments (arrived s ⟨.text,true,utf8 text⟩) (utf8 text)
    rw [said] at received
    exact ⟨received,fragStart.trans idle.fragStart,fragType.trans idle.fragType,
      fragBuffer.trans idle.fragBuffer⟩

/-- What is said in the end is all that is said exactly if nothing was said before. -/
theorem last_says_all {pieces : List (List UInt8)} (some : pieces ≠ []) :
    pieces.getLast some = pieces.flatten ↔ ∀ piece ∈ pieces.dropLast, piece = [] := by
  have parts := congrArg List.flatten (List.dropLast_append_getLast some)
  rw [List.flatten_append, List.flatten_singleton] at parts
  rw [← parts, ← List.flatten_eq_nil_iff]
  constructor
  · intro same
    exact List.append_left_eq_self.mp same.symm
  · intro none
    rw [none]
    rfl

theorem single_iff {s : BRWebSocketImpl} (idle : Idle s) (message : Received) :
    Reassembled s message ⟨bytesOf message,[]⟩ ↔ opcodeOf message = .text := by
  obtain ⟨received,still⟩ := single_run idle message
  change (deliver s ⟨opcodeOf message,true,bytesOf message⟩).received = _ ∧ Idle _ ↔ _
  rw [received]
  constructor
  · rintro ⟨same,_⟩
    by_contra other
    rw [if_neg other] at same
    exact absurd (List.append_cancel_left same) (by simp)
  · intro text
    rw [if_pos text]
    exact ⟨rfl,still⟩

theorem fragmented_iff {s : BRWebSocketImpl} (message : Received) (first : List UInt8)
    {rest : List (List Control × List UInt8)} (some : rest ≠ []) :
    Reassembled s message ⟨first,rest⟩ ↔ (rest.getLast some).2 = bytesOf message := by
  obtain ⟨received,idle⟩ := continuations_run
    (@deliver_first s _ (opcodeOf_content message) first) some
  have more : rest.isEmpty = false := by simpa using some
  unfold Reassembled Fragments.packets
  dsimp only
  rw [more, List.foldl_cons, received, ← called_iff]
  constructor
  · rintro ⟨same,_⟩
    exact List.append_cancel_left same
  · intro same
    exact ⟨congrArg _ same,idle⟩

theorem pieces_ne_nil (fragments : Fragments) : fragments.pieces ≠ [] := List.cons_ne_nil _ _

theorem pieces_getLast {fragments : Fragments} (some : fragments.rest ≠ []) :
    fragments.pieces.getLast (pieces_ne_nil fragments) = (fragments.rest.getLast some).2 := by
  unfold Fragments.pieces
  rw [List.getLast_cons (by simpa using some), List.getLast_map]

/-- A message in any fragments comes out whole, once, exactly if it is a text in one frame or is
    said in its last fragment. -/
theorem reassembled_iff (s : BRWebSocketImpl) (idle : Idle s) (message : Received)
    (fragments : Fragments) (whole : fragments.pieces.flatten = bytesOf message) :
    Reassembled s message fragments ↔ SaidAtLast message fragments := by
  unfold SaidAtLast
  by_cases single : fragments.rest = []
  · obtain ⟨first,rest⟩ := fragments
    cases single
    have said : first = bytesOf message := by simpa [Fragments.pieces] using whole
    rw [said, single_iff idle message]
    simp
  · rw [fragmented_iff message fragments.first single, ← pieces_getLast single, ← whole,
      last_says_all]
    simp [single]

theorem initial_idle : Idle initial := ⟨rfl,rfl,rfl⟩

/-- A binary message whose first fragment is empty, with a ping before its last one. -/
def emptyFirst : Fragments where
  first := []
  rest := [([⟨true,true,[7]⟩],[1,2])]

theorem empty_first_reassembled : Reassembled initial (.data [1,2]) emptyFirst :=
  (reassembled_iff initial initial_idle (.data [1,2]) emptyFirst rfl).mpr
    (Or.inr ⟨by decide,by decide⟩)

def twoPieces : Fragments where
  first := [1]
  rest := [([],[2])]

/-- Of two fragments the first is lost, and a binary message in one frame is lost. -/
theorem two_pieces_not_reassembled :
    ((twoPieces.packets .binary).foldl deliver initial).received = [.data [2]] ∧
      ((Fragments.packets .binary ⟨[1],[]⟩).foldl deliver initial).received = [] ∧
      ¬ ∀ (s : BRWebSocketImpl), Idle s → ∀ (message : Received) (fragments : Fragments),
        fragments.pieces.flatten = bytesOf message → Reassembled s message fragments := by
  refine ⟨rfl,rfl,?_⟩
  intro all
  obtain ⟨received,_⟩ := all initial ⟨rfl,rfl,rfl⟩ (.data [1,2]) twoPieces rfl
  have run : ((twoPieces.packets .binary).foldl deliver initial).received = [.data [2]] := rfl
  exact absurd (run.symm.trans received) (by decide)

end WebSocketMessages
