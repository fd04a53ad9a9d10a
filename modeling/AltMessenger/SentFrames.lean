import Mathlib.Data.List.Induction
import AltMessenger.WebSocketFrames

/-!
The frames that the socket queues, and what its own parser makes of them. They
have no mask, so the counter that the parser compares by mistake is not looked
at, and a frame of any length that is sent is taken whole.
-/
namespace SentFrames
open LittleEndian SwiftRuntime WebSocket BRWebSocketImpl WebSocketFrames

/-- The arguments of a call of `sendMessage`. -/
structure Outgoing where
  fin : Bool
  opcode : SocketOpcode
  data : List UInt8
  deriving DecidableEq, Repr

def Outgoing.bytes (message : Outgoing) : List UInt8 :=
  frameBytes message.fin message.opcode message.data

/-- What `handlePacket` is to find. -/
def Outgoing.packet (message : Outgoing) : Packet where
  opcode := message.opcode
  fin := !message.fin
  data := message.data

def sendAll (s : BRWebSocketImpl) (messages : List Outgoing) : BRWebSocketImpl :=
  messages.foldl (fun s message => s.sendMessage message.fin message.opcode message.data) s

/-- The bytes of the frames that are queued behind those of `s`. -/
def queued (s : BRWebSocketImpl) (messages : List Outgoing) : List UInt8 :=
  ((sendAll s messages).sendq.drop s.sendq.length).flatMap Prod.snd

theorem sendAll_sendq (s : BRWebSocketImpl) (messages : List Outgoing) :
    (sendAll s messages).sendq =
      s.sendq ++ messages.map fun message => (message.opcode,message.bytes) := by
  induction messages generalizing s with
  | nil => simp [sendAll]
  | cons message messages ih =>
    change (sendAll (s.sendMessage _ _ _) messages).sendq = _
    simp [ih, sendMessage, Outgoing.bytes]

theorem queued_eq (s : BRWebSocketImpl) (messages : List Outgoing) :
    queued s messages = messages.flatMap Outgoing.bytes := by
  rw [queued, sendAll_sendq, List.drop_left, List.flatMap_map]

/-- Between two frames, whatever the counters of the last one were. -/
structure Between (s : BRWebSocketImpl) : Prop where
  state : s.state = .headerb1
  data : s.data = []
  dataWritten : s.dataWritten = 0

theorem initial_between : Between initial := ⟨rfl,rfl,rfl⟩

theorem finishPacket_between (s : BRWebSocketImpl) : Between s.finishPacket := ⟨rfl,rfl,rfl⟩

/-- The header of this message's frame has been taken, and there was no mask. -/
structure Announced (message : Outgoing) (packets : List Packet) (s : BRWebSocketImpl) : Prop where
  opcode : s.opcode = message.opcode
  fin : decide (s.fin ≠ 0) = !message.fin
  index : s.index = 0
  hasMask : s.hasMask = false
  length : s.length = message.data.length
  data : s.data = []
  packets : s.packets = packets

section Header
variable {message : Outgoing} {s : BRWebSocketImpl}

theorem header1_byte (state : s.state = .headerb1) (fin : Bool) (opcode : SocketOpcode) :
    s.parseMessage ((if fin then 0 else 0x80) ||| opcode.rawValue) =
      .ok { s with
        fin := if fin then 0 else 0x80, opcode, state := .headerb2, index := 0, length := 0 } := by
  have bits : ((if fin then 0 else 0x80) ||| opcode.rawValue) &&& 0x80 =
        (if fin then (0 : UInt8) else 0x80) ∧
      SocketOpcode.ofRawValue (((if fin then 0 else 0x80) ||| opcode.rawValue) &&& 0x0F) =
        some opcode := by
    cases fin <;> cases opcode <;> decide
  unfold parseMessage parseHeader1
  rw [state]
  dsimp only
  rw [bits.1, bits.2]

theorem header2_plain (state : s.state = .headerb2) (other : s.opcode ≠ .ping) {length : Nat}
    (length_lt : length < 128) :
    s.parseMessage (UInt8.ofNat length) =
      .ok (let s := { s with hasMask := false }
        if UInt8.ofNat length ≤ 125 then
          { s with length := (UInt8.ofNat length).toNat }.afterLength
        else if UInt8.ofNat length = 126 then
          { s with lengtharray := List.replicate 2 0, lengtharrayWritten := 0,
                   state := .lengthshort }
        else if UInt8.ofNat length = 127 then
          { s with lengtharray := List.replicate 8 0, lengtharrayWritten := 0,
                   state := .lengthlong }
        else s) := by
  have bits : ∀ length : Fin 128, UInt8.ofNat length.val &&& 0x80 = 0 ∧
      UInt8.ofNat length.val &&& 0x7F = UInt8.ofNat length.val := by decide
  obtain ⟨high,low⟩ := bits ⟨length,length_lt⟩
  dsimp only at high low
  unfold parseMessage parseHeader2
  rw [state]
  dsimp only
  rw [high, low, if_neg other]
  rfl

theorem afterLength_plain (hasMask : s.hasMask = false) : s.afterLength = s.startPayload := by
  simp [afterLength, hasMask]

theorem length_bytes {width : Nat} (known : width = 2 ∨ width = 8)
    (state : s.state = lengthState width) (written : s.lengtharrayWritten = 0)
    (array : s.lengtharray = List.replicate width 0) {count : Nat} (fits : count < 256 ^ width)
    (small : count < 2 ^ 63) :
    s.parseBytes (toNetwork width count) = .ok { s with
      lengtharray := toNetwork width count, lengtharrayWritten := width,
      length := count }.afterLength := by
  have some : toNetwork width count ≠ [] := by
    intro none
    have length := toNetwork_length width count
    rw [none, List.length_nil] at length
    omega
  have number := ofNetwork_toNetwork fits
  have parsed := @parse_length width known (toNetwork width count) [] s some
    (by simp [toNetwork_length]) state written (by simp [toNetwork_length, array])
    (by rw [List.nil_append, number]; exact small)
  rwa [List.nil_append, number] at parsed

/-- From the second byte to the payload, in each of the three forms of the length. -/
theorem parse_lengthField (state : s.state = .headerb2) (other : s.opcode ≠ .ping)
    (data : s.data = []) (index : s.index = 0) (opcode : s.opcode = message.opcode)
    (fin : decide (s.fin ≠ 0) = !message.fin) (below : message.data.length < MAXPAYLOAD) :
    ∃ t, s.parseBytes ((lengthField message.data.length).1 ::
        (lengthField message.data.length).2) = .ok t.startPayload ∧
      Announced message s.packets t := by
  have small : message.data.length < 2 ^ 63 := below.trans (by decide)
  unfold lengthField
  by_cases short : message.data.length ≤ 125
  · have plain : (UInt8.ofNat message.data.length).toNat = message.data.length := by
      simp
      omega
    have low : UInt8.ofNat message.data.length ≤ 125 := by
      rw [UInt8.le_iff_toNat_le, plain]
      exact short
    have byte := header2_plain state other (show message.data.length < 128 by omega)
    simp only [if_pos low, plain, if_pos short] at byte ⊢
    rw [afterLength_plain rfl] at byte
    exact ⟨_,parseBytes_cons byte,opcode,fin,index,rfl,rfl,data,rfl⟩
  by_cases medium : message.data.length ≤ 65535
  · have byte := header2_plain state other (show 126 < 128 by decide)
    have bytes := @length_bytes
      { s with
        hasMask := false, lengtharray := List.replicate 2 0, lengtharrayWritten := 0,
        state := .lengthshort }
      2 (Or.inl rfl) rfl rfl rfl
      message.data.length (by omega) small
    rw [afterLength_plain rfl] at bytes
    simp only [if_neg short, if_pos medium]
    refine ⟨_,(parseBytes_cons byte).trans bytes,?_⟩
    exact ⟨opcode,fin,index,rfl,rfl,data,rfl⟩
  · have byte := header2_plain state other (show 127 < 128 by decide)
    have bytes := @length_bytes
      { s with
        hasMask := false, lengtharray := List.replicate 8 0, lengtharrayWritten := 0,
        state := .lengthlong }
      8 (Or.inr rfl) rfl rfl rfl
      message.data.length (below.trans (by decide)) small
    rw [afterLength_plain rfl] at bytes
    simp only [if_neg short, if_neg medium]
    refine ⟨_,(parseBytes_cons byte).trans bytes,?_⟩
    exact ⟨opcode,fin,index,rfl,rfl,data,rfl⟩

end Header

/-- The payload of an announced frame, empty or not, ends in one packet. -/
theorem parse_data {message : Outgoing} {packets : List Packet} {s : BRWebSocketImpl}
    (announced : Announced message packets s) (below : message.data.length < MAXPAYLOAD) :
    ∃ t, s.startPayload.parseBytes message.data = .ok t ∧ Between t ∧
      t.packets = packets ++ [message.packet] := by
  unfold startPayload
  by_cases empty : message.data = []
  · have zero : s.length = 0 := by simp [announced.length, empty]
    rw [if_pos zero, empty]
    refine ⟨_,rfl,finishPacket_between s,?_⟩
    rw [finishPacket_packets, announced.packets, announced.opcode, announced.fin, announced.data]
    rw [Outgoing.packet, empty]
  · have positive : s.length ≠ 0 := by simp [announced.length, empty]
    rw [if_neg positive]
    have parsed := @parse_encoded (fun _ byte => byte) message.data []
      { s with data := List.replicate s.length 0, dataWritten := 0, state := .payload }
      empty (by simp [announced.length]) (by rw [announced.length]; exact below) rfl
      (fun index byte => by simp [unmask, announced.hasMask]; rfl) announced.index rfl
      (by rw [announced.length]; rfl)
    have unchanged : (message.data.mapIdx fun _ byte => byte) = message.data := by
      simp [List.mapIdx_eq_iff]
    rw [List.nil_append, unchanged] at parsed
    refine ⟨_,parsed,finishPacket_between _,?_⟩
    rw [finishPacket_packets]
    dsimp only
    rw [announced.packets, announced.opcode, announced.fin]
    rfl

theorem parse_sent {s : BRWebSocketImpl} (between : Between s) {message : Outgoing}
    (other : message.opcode ≠ .ping) (below : message.data.length < MAXPAYLOAD) :
    ∃ t, s.parseBytes message.bytes = .ok t ∧ Between t ∧
      t.packets = s.packets ++ [message.packet] := by
  have first := header1_byte between.state message.fin message.opcode
  obtain ⟨t,second,announced⟩ := @parse_lengthField message
    { s with
      fin := if message.fin then 0 else 0x80, opcode := message.opcode, state := .headerb2,
      index := 0, length := 0 }
    rfl other between.data rfl rfl (by cases message.fin <;> rfl) below
  obtain ⟨u,third,ready,packets⟩ := parse_data announced below
  refine ⟨u,?_,ready,packets⟩
  unfold Outgoing.bytes frameBytes
  dsimp only
  rw [parseBytes_cons first, ← List.cons_append, parseBytes_append second, third]

/-- Every frame that `sendMessage` queues, of any opcode but a ping's, comes to `handlePacket` once
    and in order, with its opcode, its last bit and exactly its data. -/
theorem sent_frames_parsed {messages : List Outgoing}
    (admissible : ∀ message ∈ messages,
      message.opcode ≠ .ping ∧ message.data.length < MAXPAYLOAD) (sender : BRWebSocketImpl) :
    ∀ done, done <+: messages →
      ∃ parser, initial.parseBytes (queued sender done) = .ok parser ∧ Between parser ∧
        parser.packets = done.map Outgoing.packet := by
  intro done
  induction done using List.reverseRecOn with
  | nil =>
    intro _
    exact ⟨initial,by rw [queued_eq]; rfl,initial_between,rfl⟩
  | append_singleton done message ih =>
    intro front
    obtain ⟨other,below⟩ := admissible message (front.subset (by simp))
    obtain ⟨s,run,between,packets⟩ := ih ((List.prefix_append done [message]).trans front)
    obtain ⟨t,last,ready,more⟩ := parse_sent between other below
    refine ⟨t,?_,ready,?_⟩
    · rw [queued_eq] at run ⊢
      rw [List.flatMap_append, parseBytes_append run, List.flatMap_singleton, last]
    · rw [more, packets, List.map_append]
      rfl

theorem text_and_pong_parsed :
    ∃ parser, initial.parseBytes (queued initial [⟨false,.text,[104,105]⟩,⟨false,.pong,[]⟩]) =
        .ok parser ∧ Between parser ∧
      parser.packets = [⟨.text,true,[104,105]⟩,⟨.pong,true,[]⟩] :=
  sent_frames_parsed (by decide) initial _ (List.prefix_refl _)

end SentFrames
