import Mathlib.Data.List.Induction
import AltMessenger.WebSocket

/-!
Frames as a client sends them, masked, and what the parser makes of their bytes. From a state
between two frames it takes a whole frame to one call of `handlePacket` and is between two frames
again, with two exceptions that it does not leave: a ping, and a length of eight bytes.
-/
namespace WebSocketFrames
open LittleEndian SwiftRuntime WebSocket BRWebSocketImpl

/-- The opcode is what four bits can say. -/
structure Frame where
  opcode : Fin 16
  fin : Bool
  maskKey : List UInt8
  payload : List UInt8
  key_length : maskKey.length = 4
  below : payload.length < MAXPAYLOAD

def masked (key : List UInt8) : Nat → List UInt8 → List UInt8
  | _, [] => []
  | i, byte :: bytes => (byte ^^^ key.getD (i % 4) 0) :: masked key (i + 1) bytes

namespace Frame

def rawOpcode (frame : Frame) : UInt8 := UInt8.ofNat frame.opcode.val

def bytes (frame : Frame) : List UInt8 :=
  ((if frame.fin then 0x80 else 0) ||| frame.rawOpcode) ::
    (0x80 ||| (lengthField frame.payload.length).1) ::
      ((lengthField frame.payload.length).2 ++
        (frame.maskKey ++ masked frame.maskKey 0 frame.payload))

/-- What `handlePacket` is to be called with. -/
def contents (frame : Frame) : UInt8 × Bool × List UInt8 :=
  (frame.rawOpcode,frame.fin,frame.payload)

/-- The opcode is one the socket knows, and not that of a ping, and the length fits two bytes. -/
def Handled (frame : Frame) : Prop :=
  (∃ opcode, SocketOpcode.ofRawValue frame.rawOpcode = some opcode ∧ opcode ≠ .ping) ∧
    frame.payload.length ≤ 65535

end Frame

def contentsOf (packet : Packet) : UInt8 × Bool × List UInt8 :=
  (packet.opcode.rawValue,packet.fin,packet.data)

/-- After each of the frames the parser is between two frames, and `handlePacket` was called once
    for each of them, in order. -/
def Parsed (frames : List Frame) : Prop :=
  ∀ done, done <+: frames →
    ∃ s, initial.parseBytes (done.flatMap Frame.bytes) = .ok s ∧ s.state = .headerb1 ∧
      s.packets.map contentsOf = done.map Frame.contents

/-- Between two frames. -/
structure Ready (s : BRWebSocketImpl) : Prop where
  state : s.state = .headerb1
  data : s.data = []
  dataWritten : s.dataWritten = 0
  lengtharrayWritten : s.lengtharrayWritten ≤ 4

theorem initial_ready : Ready initial := ⟨rfl,rfl,rfl,Nat.zero_le 4⟩

section Packets
variable (s : BRWebSocketImpl)

theorem close_fields (status : SocketCloseEventCode) (reason : String) :
    (s.close status reason).packets = s.packets ∧
      (s.close status reason).lengtharrayWritten = s.lengtharrayWritten := by
  unfold BRWebSocketImpl.close
  cases s.closed <;> exact ⟨rfl,rfl⟩

theorem receiveText_fields (bytes : List UInt8) :
    (s.receiveText bytes).packets = s.packets ∧
      (s.receiveText bytes).lengtharrayWritten = s.lengtharrayWritten := by
  unfold receiveText
  cases ofUTF8 bytes <;> exact ⟨rfl,rfl⟩

theorem handleFragment_fields : s.handleFragment.packets = s.packets ∧
    s.handleFragment.lengtharrayWritten = s.lengtharrayWritten := by
  unfold handleFragment
  repeat' split
  all_goals exact ⟨rfl,rfl⟩

theorem handleFinal_fields : s.handleFinal.packets = s.packets ∧
    s.handleFinal.lengtharrayWritten = s.lengtharrayWritten := by
  unfold handleFinal
  repeat' split
  all_goals first | exact ⟨rfl,rfl⟩ | exact receiveText_fields s s.data

/-- A packet is recorded once, whatever is done with it, and the parser's counter is let be. -/
theorem handlePacket_fields :
    s.handlePacket.packets = s.packets ++ [⟨s.opcode,decide (s.fin ≠ 0),s.data⟩] ∧
      s.handlePacket.lengtharrayWritten = s.lengtharrayWritten := by
  unfold handlePacket
  dsimp only
  repeat' split
  · exact ⟨rfl,rfl⟩
  · exact close_fields _ _ _
  · exact handleFragment_fields _
  · exact handleFinal_fields _

theorem finishPacket_packets :
    s.finishPacket.packets = s.packets ++ [⟨s.opcode,decide (s.fin ≠ 0),s.data⟩] :=
  (handlePacket_fields s).1

theorem finishPacket_ready (short : s.lengtharrayWritten ≤ 4) : Ready s.finishPacket :=
  ⟨rfl,rfl,rfl,(handlePacket_fields s).2.trans_le short⟩

end Packets

section Bytes
variable {s : BRWebSocketImpl}

theorem parseBytes_cons {t : BRWebSocketImpl} {byte : UInt8} {bytes : List UInt8}
    (first : s.parseMessage byte = .ok t) :
    s.parseBytes (byte :: bytes) = t.parseBytes bytes := by
  unfold parseBytes
  rw [List.foldlM_cons, bind_ready first]

theorem parseBytes_append {t : BRWebSocketImpl} {front back : List UInt8}
    (first : s.parseBytes front = .ok t) :
    s.parseBytes (front ++ back) = t.parseBytes back := by
  unfold parseBytes at *
  rw [List.foldlM_append, bind_ready first]

/-- The next free place of an array that is filled from the front. -/
theorem store_next (done : List UInt8) (left : Nat) (byte : UInt8) :
    store (done ++ List.replicate (left + 1) 0) done.length byte =
      .ok (done ++ [byte] ++ List.replicate left 0) := by
  unfold store
  rw [if_pos (by simp), List.set_append_right _ _ (Nat.le_refl _), Nat.sub_self,
    List.replicate_succ, List.set_cons_zero, List.append_assoc]
  rfl

theorem first_byte (fin : Bool) (opcode : Fin 16) :
    let byte : UInt8 := (if fin then 0x80 else 0) ||| UInt8.ofNat opcode.val
    decide (byte &&& 0x80 ≠ 0) = fin ∧ byte &&& 0x0F = UInt8.ofNat opcode.val := by
  revert fin opcode
  decide

theorem second_byte (length : Fin 128) :
    let byte : UInt8 := 0x80 ||| UInt8.ofNat length.val
    byte &&& 0x80 = 128 ∧ byte &&& 0x7F = UInt8.ofNat length.val := by
  revert length
  decide

theorem rawValue_ofRawValue {raw : UInt8} {opcode : SocketOpcode}
    (known : SocketOpcode.ofRawValue raw = some opcode) : opcode.rawValue = raw := by
  have found := List.find?_some known
  exact eq_of_beq found

end Bytes

/-- The parser has taken the first byte of this frame. -/
structure Opened (frame : Frame) (s : BRWebSocketImpl) : Prop where
  opcode : SocketOpcode.ofRawValue frame.rawOpcode = some s.opcode
  fin : decide (s.fin ≠ 0) = frame.fin
  index : s.index = 0
  data : s.data = []
  dataWritten : s.dataWritten = 0

theorem open_frame {s : BRWebSocketImpl} (ready : Ready s) (frame : Frame)
    {opcode : SocketOpcode} (known : SocketOpcode.ofRawValue frame.rawOpcode = some opcode) :
    ∃ t, s.parseMessage ((if frame.fin then 0x80 else 0) ||| frame.rawOpcode) = .ok t ∧
      t.state = .headerb2 ∧ Opened frame t ∧ t.opcode = opcode ∧ t.length = 0 ∧
        t.packets = s.packets ∧ t.lengtharrayWritten ≤ 4 := by
  obtain ⟨fin,low⟩ := first_byte frame.fin frame.opcode
  unfold parseMessage
  rw [ready.state]
  dsimp only
  unfold parseHeader1
  change SocketOpcode.ofRawValue (UInt8.ofNat frame.opcode.val) = some opcode at known
  unfold Frame.rawOpcode
  dsimp only at fin low ⊢
  rw [low, known]
  exact ⟨_,rfl,rfl,⟨known,fin,rfl,ready.data,ready.dataWritten⟩,rfl,rfl,rfl,
    ready.lengtharrayWritten⟩

/-- The length is known and the mask is next. -/
structure AtMask (frame : Frame) (s : BRWebSocketImpl) : Prop extends Opened frame s where
  state : s.state = .mask
  hasMask : s.hasMask = true
  length : s.length = frame.payload.length
  maskarray : s.maskarray = List.replicate 4 0
  maskarrayWritten : s.maskarrayWritten = 0

theorem afterLength_atMask {frame : Frame} {s : BRWebSocketImpl} (opened : Opened frame s)
    (hasMask : s.hasMask = true) (length : s.length = frame.payload.length) :
    AtMask frame s.afterLength ∧ s.afterLength.packets = s.packets ∧
      s.afterLength.lengtharrayWritten = s.lengtharrayWritten := by
  unfold afterLength
  rw [if_pos hasMask]
  exact ⟨⟨⟨opened.opcode,opened.fin,opened.index,opened.data,opened.dataWritten⟩,rfl,hasMask,length,
    rfl,rfl⟩,rfl,rfl⟩

/-- The state that reads a length of so many bytes. -/
def lengthState (width : Nat) : SocketState := if width = 2 then .lengthshort else .lengthlong

theorem parseMessage_length {width : Nat} (known : width = 2 ∨ width = 8) {s : BRWebSocketImpl}
    (state : s.state = lengthState width) (byte : UInt8) :
    s.parseMessage byte = s.parseLength width byte := by
  unfold parseMessage
  rw [state]
  rcases known with rfl | rfl <;> rfl

/-- The bytes of a length, after those that are there already. -/
theorem parse_length {width : Nat} (known : width = 2 ∨ width = 8) {rest : List UInt8} :
    ∀ {done : List UInt8} {s : BRWebSocketImpl}, rest ≠ [] → done.length + rest.length = width →
      s.state = lengthState width → s.lengtharrayWritten = done.length →
      s.lengtharray = done ++ List.replicate rest.length 0 →
      ofNetwork (done ++ rest) < 2 ^ 63 →
      s.parseBytes rest = .ok { s with
        lengtharray := done ++ rest, lengtharrayWritten := width,
        length := ofNetwork (done ++ rest) }.afterLength := by
  induction rest with
  | nil => exact fun some => absurd rfl some
  | cons byte rest ih =>
    intro done s _ whole state written array small
    rw [List.length_cons] at whole array
    have within : ¬ done.length + 1 > width := by omega
    have next := store_next done rest.length byte
    have step : s.parseMessage byte = s.parseLength width byte :=
      parseMessage_length known state byte
    unfold parseLength at step
    simp only [written, array, if_neg within, Nat.add_sub_cancel, bind_ready next] at step
    cases rest with
    | nil =>
      have last : done.length + 1 = width := by simpa using whole
      rw [if_pos last] at step
      have plain : done ++ [byte] ++ List.replicate 0 0 = done ++ [byte] := by simp
      simp only [List.length_nil, plain, if_pos small] at step
      rw [parseBytes_cons step, last]
      rfl
    | cons second rest =>
      rw [List.length_cons] at whole step
      have more : done.length + 1 ≠ width := by omega
      rw [if_neg more] at step
      rw [parseBytes_cons step]
      have later := @ih (done ++ [byte])
        { s with
          lengtharray := done ++ [byte] ++ List.replicate (rest.length + 1) 0,
          lengtharrayWritten := done.length + 1 }
        (List.cons_ne_nil second rest) (by simp; omega) state (by simp) (by simp)
        (by simpa using small)
      rw [later]
      simp

theorem ofNetwork_toNetwork {width n : Nat} (bound : n < 256 ^ width) :
    ofNetwork (toNetwork width n) = n := by
  unfold ofNetwork toNetwork
  rw [List.reverse_reverse, ofBytes_toBytes width n bound]

theorem toNetwork_length (width n : Nat) : (toNetwork width n).length = width := by
  unfold toNetwork
  rw [List.length_reverse, toBytes_length]

/-- From the second byte to the mask, where a length of two or of eight bytes is announced. -/
theorem parse_announced {width : Nat} (known : width = 2 ∨ width = 8) {frame : Frame}
    {s : BRWebSocketImpl} (opened : Opened frame s) (hasMask : s.hasMask = true)
    (state : s.state = lengthState width) (written : s.lengtharrayWritten = 0)
    (array : s.lengtharray = List.replicate width 0)
    (fits : frame.payload.length < 256 ^ width) :
    ∃ t, s.parseBytes (toNetwork width frame.payload.length) = .ok t ∧ AtMask frame t ∧
      t.packets = s.packets ∧ t.lengtharrayWritten = width := by
  have some : toNetwork width frame.payload.length ≠ [] := by
    intro none
    have length := toNetwork_length width frame.payload.length
    rw [none, List.length_nil] at length
    omega
  have number := ofNetwork_toNetwork fits
  have small : frame.payload.length < 2 ^ 63 := frame.below.trans (by decide)
  have parsed := @parse_length width known (toNetwork width frame.payload.length) [] s some
    (by simp [toNetwork_length]) state written (by simp [toNetwork_length, array])
    (by rw [List.nil_append, number]; exact small)
  rw [List.nil_append, number] at parsed
  obtain ⟨at_mask,packets,counter⟩ := @afterLength_atMask frame { s with
    lengtharray := toNetwork width frame.payload.length, lengtharrayWritten := width,
    length := frame.payload.length }
    ⟨opened.opcode,opened.fin,opened.index,opened.data,opened.dataWritten⟩ hasMask rfl
  exact ⟨_,parsed,at_mask,packets,counter⟩

/-- The second byte, with the mask bit and seven bits of length. -/
theorem header2_byte {s : BRWebSocketImpl} (state : s.state = .headerb2) (other : s.opcode ≠ .ping)
    {length : Nat} (length_lt : length < 128) :
    s.parseMessage (0x80 ||| UInt8.ofNat length) =
      .ok (let s := { s with hasMask := true }
        if UInt8.ofNat length ≤ 125 then
          { s with length := (UInt8.ofNat length).toNat }.afterLength
        else if UInt8.ofNat length = 126 then
          { s with lengtharray := List.replicate 2 0, lengtharrayWritten := 0,
                   state := .lengthshort }
        else if UInt8.ofNat length = 127 then
          { s with lengtharray := List.replicate 8 0, lengtharrayWritten := 0,
                   state := .lengthlong }
        else s) := by
  obtain ⟨high,low⟩ := second_byte ⟨length,length_lt⟩
  dsimp only at high low
  have step : s.parseMessage (0x80 ||| UInt8.ofNat length) =
      .ok (s.parseHeader2 (0x80 ||| UInt8.ofNat length)) := by
    unfold parseMessage
    rw [state]
  rw [step]
  unfold parseHeader2
  rw [high, low, if_neg other]
  rfl

/-- From the second byte to the mask. -/
theorem parse_header {frame : Frame} {s : BRWebSocketImpl} (opened : Opened frame s)
    (state : s.state = .headerb2) (other : s.opcode ≠ .ping) (few : s.lengtharrayWritten ≤ 4) :
    ∃ t, s.parseBytes ((0x80 ||| (lengthField frame.payload.length).1) ::
        (lengthField frame.payload.length).2) = .ok t ∧ AtMask frame t ∧
      t.packets = s.packets ∧
      (frame.payload.length ≤ 65535 → t.lengtharrayWritten ≤ 4) ∧
      (65535 < frame.payload.length → t.lengtharrayWritten = 8) := by
  unfold lengthField
  by_cases short : frame.payload.length ≤ 125
  · simp only [if_pos short]
    have plain : (UInt8.ofNat frame.payload.length).toNat = frame.payload.length := by
      simp
      omega
    have low : UInt8.ofNat frame.payload.length ≤ 125 := by
      rw [UInt8.le_iff_toNat_le, plain]
      exact short
    have byte := header2_byte state other (show frame.payload.length < 128 by omega)
    simp only [if_pos low, plain] at byte
    obtain ⟨at_mask,packets,counter⟩ := @afterLength_atMask frame
      { s with hasMask := true, length := frame.payload.length }
      ⟨opened.opcode,opened.fin,opened.index,opened.data,opened.dataWritten⟩ rfl rfl
    refine ⟨_,parseBytes_cons byte,at_mask,packets,?_,?_⟩
    · intro _
      rw [counter]
      exact few
    · intro long
      omega
  by_cases medium : frame.payload.length ≤ 65535
  · simp only [if_neg short, if_pos medium]
    have byte := header2_byte state other (show 126 < 128 by decide)
    obtain ⟨t,run,at_mask,packets,counter⟩ := @parse_announced 2 (Or.inl rfl) frame
      { s with hasMask := true, lengtharray := List.replicate 2 0, lengtharrayWritten := 0,
               state := .lengthshort }
      ⟨opened.opcode,opened.fin,opened.index,opened.data,opened.dataWritten⟩ rfl rfl rfl rfl
      (by omega)
    refine ⟨t,?_,at_mask,packets,?_,?_⟩
    · rw [← run]
      exact parseBytes_cons byte
    · omega
    · omega
  · simp only [if_neg short, if_neg medium]
    have byte := header2_byte state other (show 127 < 128 by decide)
    have below : frame.payload.length < 256 ^ 8 := frame.below.trans (by decide)
    obtain ⟨t,run,at_mask,packets,counter⟩ := @parse_announced 8 (Or.inr rfl) frame
      { s with hasMask := true, lengtharray := List.replicate 8 0, lengtharrayWritten := 0,
               state := .lengthlong }
      ⟨opened.opcode,opened.fin,opened.index,opened.data,opened.dataWritten⟩ rfl rfl rfl rfl below
    refine ⟨t,?_,at_mask,packets,?_,?_⟩
    · rw [← run]
      exact parseBytes_cons byte
    · omega
    · omega

/-- The bytes of the mask, after those that are there already. -/
theorem parse_mask {rest : List UInt8} :
    ∀ {done : List UInt8} {s : BRWebSocketImpl}, rest ≠ [] → done.length + rest.length = 4 →
      s.state = .mask → s.lengtharrayWritten ≤ 4 → s.maskarrayWritten = done.length →
      s.maskarray = done ++ List.replicate rest.length 0 →
      s.parseBytes rest =
        .ok { s with maskarray := done ++ rest, maskarrayWritten := 4 }.startPayload := by
  induction rest with
  | nil => exact fun some => absurd rfl some
  | cons byte rest ih =>
    intro done s _ whole state few written array
    rw [List.length_cons] at whole array
    have within : ¬ s.lengtharrayWritten > 4 := by omega
    have next := store_next done rest.length byte
    have step : s.parseMessage byte = s.parseMask byte := by
      unfold parseMessage
      rw [state]
    unfold parseMask at step
    simp only [written, array, if_neg within, Nat.add_sub_cancel, bind_ready next] at step
    cases rest with
    | nil =>
      have last : done.length + 1 = 4 := by simpa using whole
      have plain : done ++ [byte] ++ List.replicate 0 0 = done ++ [byte] := by simp
      rw [if_pos last] at step
      simp only [List.length_nil, plain] at step
      rw [parseBytes_cons step, last]
      rfl
    | cons second rest =>
      rw [List.length_cons] at whole step
      have more : done.length + 1 ≠ 4 := by omega
      rw [if_neg more] at step
      rw [parseBytes_cons step]
      have later := @ih (done ++ [byte])
        { s with
          maskarray := done ++ [byte] ++ List.replicate (rest.length + 1) 0,
          maskarrayWritten := done.length + 1 }
        (List.cons_ne_nil second rest) (by simp; omega) state few (by simp) (by simp)
      rw [later]
      simp

/-- A byte of the payload, where it can be taken. -/
theorem parsePayload_byte {s : BRWebSocketImpl} {byte plain : UInt8} {data : List UInt8}
    (state : s.state = .payload) (within : s.dataWritten + 1 < MAXPAYLOAD)
    (unmasked : s.unmask byte = .ok plain) (stored : store s.data s.dataWritten plain = .ok data) :
    s.parseMessage byte = .ok
      (if s.index + 1 = s.length then
        { s with data := data, dataWritten := s.dataWritten + 1 }.finishPacket
      else { s with data := data, dataWritten := s.dataWritten + 1, index := s.index + 1 }) := by
  have again : { s with dataWritten := s.dataWritten + 1 }.unmask byte = .ok plain := unmasked
  have step : s.parseMessage byte = s.parsePayload byte := by
    unfold parseMessage
    rw [state]
  rw [step]
  unfold parsePayload
  dsimp only
  rw [if_neg (by omega), bind_ready again, Nat.add_sub_cancel, bind_ready stored]
  split
  · rfl
  · rfl

/-- The bytes of a payload, after those that are there already, as they were put on the wire. -/
theorem parse_encoded {encode : Nat → UInt8 → UInt8} {rest : List UInt8} :
    ∀ {done : List UInt8} {s : BRWebSocketImpl}, rest ≠ [] →
      done.length + rest.length = s.length → s.length < MAXPAYLOAD → s.state = .payload →
      (∀ index byte, { s with index }.unmask (encode index byte) = .ok byte) →
      s.index = done.length → s.dataWritten = done.length →
      s.data = done ++ List.replicate rest.length 0 →
      s.parseBytes (rest.mapIdx fun i => encode (done.length + i)) =
        .ok { s with
          data := done ++ rest, dataWritten := s.length, index := s.length - 1 }.finishPacket := by
  induction rest with
  | nil => exact fun some => absurd rfl some
  | cons byte rest ih =>
    intro done s _ whole below state decoded index written data
    rw [List.length_cons] at whole data
    have next := store_next done rest.length byte
    have front : ((byte :: rest).mapIdx fun i => encode (done.length + i)) =
        encode done.length byte :: rest.mapIdx fun i => encode ((done ++ [byte]).length + i) := by
      simp [List.mapIdx_cons, Nat.add_assoc, Nat.add_comm 1]
    have unmasked : s.unmask (encode done.length byte) = .ok byte := by
      rw [← index]
      exact decoded s.index byte
    rw [← written, ← data] at next
    have step := parsePayload_byte state (by omega) unmasked next
    rw [index, written] at step
    rw [front]
    cases rest with
    | nil =>
      have last : done.length + 1 = s.length := by simpa using whole
      have all : done ++ [byte] ++ List.replicate 0 0 = done ++ [byte] := by simp
      have at_end : s.length - 1 = done.length := by omega
      rw [if_pos last, List.length_nil, all, last] at step
      rw [parseBytes_cons step, at_end]
      rfl
    | cons second rest =>
      rw [List.length_cons] at whole step
      have more : done.length + 1 ≠ s.length := by omega
      rw [if_neg more] at step
      rw [parseBytes_cons step]
      have later := @ih (done ++ [byte])
        { s with
          data := done ++ [byte] ++ List.replicate (rest.length + 1) 0,
          dataWritten := done.length + 1, index := done.length + 1 }
        (List.cons_ne_nil second rest) (by simp; omega) below state decoded (by simp) (by simp)
        (by simp)
      rw [later]
      simp

theorem masked_eq (key bytes : List UInt8) (first : Nat) :
    masked key first bytes =
      bytes.mapIdx fun i byte => byte ^^^ key.getD ((first + i) % 4) 0 := by
  induction bytes generalizing first with
  | nil => rfl
  | cons byte bytes ih =>
    rw [masked, ih, List.mapIdx_cons]
    simp [Nat.add_assoc, Nat.add_comm 1]

theorem unmask_masked {key : List UInt8} (key_length : key.length = 4) {s : BRWebSocketImpl}
    (hasMask : s.hasMask = true) (maskarray : s.maskarray = key) (byte : UInt8) :
    s.unmask (byte ^^^ key.getD (s.index % 4) 0) = .ok byte := by
  obtain ⟨k,at_key⟩ : ∃ k, key[s.index % 4]? = some k :=
    ⟨_,List.getElem?_eq_getElem (by rw [key_length]; omega)⟩
  have plain : (byte ^^^ k) ^^^ k = byte := by
    rw [UInt8.xor_assoc, UInt8.xor_self, UInt8.xor_zero]
  unfold unmask
  rw [if_pos hasMask, maskarray, List.getD_eq_getElem?_getD, at_key,
    bind_ready (subscript_ok.mpr at_key), Option.getD_some, plain]
  rfl

/-- The bytes of a masked payload. -/
theorem parse_payload {key payload : List UInt8} (key_length : key.length = 4)
    {s : BRWebSocketImpl} (some : payload ≠ []) (whole : payload.length = s.length)
    (below : s.length < MAXPAYLOAD) (state : s.state = .payload) (hasMask : s.hasMask = true)
    (maskarray : s.maskarray = key) (index : s.index = 0) (written : s.dataWritten = 0)
    (data : s.data = List.replicate payload.length 0) :
    s.parseBytes (masked key 0 payload) =
      .ok { s with
        data := payload, dataWritten := s.length, index := s.length - 1 }.finishPacket := by
  have decoded : ∀ index byte,
      { s with index }.unmask (byte ^^^ key.getD (index % 4) 0) = .ok byte :=
    fun index => @unmask_masked key key_length { s with index } hasMask maskarray
  have parsed := @parse_encoded (fun index byte => byte ^^^ key.getD (index % 4) 0) payload [] s
    some (by simpa using whole) below state decoded index written data
  rwa [List.nil_append, List.length_nil, ← masked_eq] at parsed

/-- From the mask to the end of the frame. -/
theorem parse_body {frame : Frame} {s : BRWebSocketImpl} (at_mask : AtMask frame s)
    (few : s.lengtharrayWritten ≤ 4) :
    ∃ t, s.parseBytes (frame.maskKey ++ masked frame.maskKey 0 frame.payload) = .ok t ∧
      Ready t ∧
      t.packets = s.packets ++ [⟨s.opcode,frame.fin,frame.payload⟩] := by
  have key_some : frame.maskKey ≠ [] := by
    intro none
    have length := frame.key_length
    rw [none] at length
    cases length
  have key := @parse_mask frame.maskKey [] s key_some (by rw [frame.key_length]; rfl)
    at_mask.state few at_mask.maskarrayWritten
    (by rw [at_mask.maskarray, frame.key_length]; rfl)
  rw [parseBytes_append key]
  unfold startPayload
  dsimp only [List.nil_append]
  by_cases empty : frame.payload = []
  · have zero : s.length = 0 := by rw [at_mask.length, empty]; rfl
    rw [if_pos zero, empty]
    refine ⟨_,rfl,finishPacket_ready _ few,?_⟩
    rw [finishPacket_packets]
    dsimp only
    rw [at_mask.fin, at_mask.data]
  · have positive : s.length ≠ 0 := by
      rw [at_mask.length]
      exact fun zero => empty (List.length_eq_zero_iff.mp zero)
    rw [if_neg positive]
    have payload := @parse_payload frame.maskKey frame.payload frame.key_length
      { s with
        maskarray := frame.maskKey, maskarrayWritten := 4, data := List.replicate s.length 0,
        dataWritten := 0, state := .payload }
      empty at_mask.length.symm (by rw [at_mask.length]; exact frame.below)
      rfl at_mask.hasMask rfl at_mask.index rfl (by rw [at_mask.length])
    refine ⟨_,payload,finishPacket_ready _ few,?_⟩
    rw [finishPacket_packets]
    dsimp only
    rw [at_mask.fin]

/-- A frame the parser can handle is taken whole. -/
theorem parse_frame {s : BRWebSocketImpl} (ready : Ready s) {frame : Frame}
    (handled : frame.Handled) :
    ∃ t, s.parseBytes frame.bytes = .ok t ∧ Ready t ∧
      t.packets.map contentsOf = s.packets.map contentsOf ++ [frame.contents] := by
  obtain ⟨⟨opcode,known,other⟩,short⟩ := handled
  obtain ⟨t₁,first,state,opened,opcode_same,_,packets₁,few₁⟩ := open_frame ready frame known
  obtain ⟨t₂,second,at_mask,packets₂,few₂,_⟩ :=
    parse_header opened state (by rw [opcode_same]; exact other) few₁
  obtain ⟨t₃,third,ready₃,packets₃⟩ := parse_body at_mask (few₂ short)
  refine ⟨t₃,?_,ready₃,?_⟩
  · unfold Frame.bytes
    rw [parseBytes_cons first, ← List.cons_append, parseBytes_append second, third]
  · rw [packets₃, packets₂, packets₁, List.map_append]
    unfold contentsOf Frame.contents
    simp [rawValue_ofRawValue at_mask.opcode]

/-- In the middle of a ping no byte changes anything. -/
theorem ping_stays {s : BRWebSocketImpl} (state : s.state = .headerb2) (ping : s.opcode = .ping)
    (bytes : List UInt8) : s.parseBytes bytes = .ok s := by
  induction bytes with
  | nil => rfl
  | cons byte bytes ih =>
    have step : s.parseMessage byte = .ok s := by
      unfold parseMessage parseHeader2
      rw [state]
      dsimp only
      rw [if_pos ping]
    rw [parseBytes_cons step, ih]

/-- The mask after a length of eight bytes has no end. -/
theorem mask_stays {bytes : List UInt8} : ∀ {s : BRWebSocketImpl}, s.state = .mask →
    s.lengtharrayWritten = 8 → ∃ t, s.parseBytes bytes = .ok t ∧ t.state = .mask := by
  induction bytes with
  | nil => exact fun state _ => ⟨_,rfl,state⟩
  | cons byte bytes ih =>
    intro s state counter
    have step : s.parseMessage byte = .ok { s with maskarrayWritten := s.maskarrayWritten + 1 } := by
      unfold parseMessage parseMask
      rw [state]
      dsimp only
      rw [if_pos (by rw [counter]; decide)]
      rfl
    rw [parseBytes_cons step]
    exact ih state counter

/-- A frame that the parser cannot handle, although it knows the opcode, has no end for it. -/
theorem parse_stuck {s : BRWebSocketImpl} (ready : Ready s) {frame : Frame}
    {opcode : SocketOpcode} (known : SocketOpcode.ofRawValue frame.rawOpcode = some opcode)
    (unhandled : ¬ frame.Handled) :
    ∃ t, s.parseBytes frame.bytes = .ok t ∧ t.state ≠ .headerb1 := by
  obtain ⟨t₁,first,state,opened,opcode_same,_,_,few₁⟩ := open_frame ready frame known
  unfold Frame.bytes
  rw [parseBytes_cons first]
  by_cases ping : opcode = .ping
  · refine ⟨t₁,ping_stays state (opcode_same.trans ping) _,?_⟩
    rw [state]
    decide
  · have long : 65535 < frame.payload.length := by
      by_contra short
      exact unhandled ⟨⟨opcode,known,ping⟩,by omega⟩
    obtain ⟨t₂,second,at_mask,_,_,counter⟩ :=
      parse_header opened state (by rw [opcode_same]; exact ping) few₁
    obtain ⟨t₃,third,still⟩ := @mask_stays (frame.maskKey ++ masked frame.maskKey 0 frame.payload)
      t₂ at_mask.state (counter long)
    refine ⟨t₃,?_,?_⟩
    · rw [← List.cons_append, parseBytes_append second, third]
    · rw [still]
      decide

theorem parse_frames {frames : List Frame} (handled : ∀ frame ∈ frames, frame.Handled) :
    ∃ s, initial.parseBytes (frames.flatMap Frame.bytes) = .ok s ∧ Ready s ∧
      s.packets.map contentsOf = frames.map Frame.contents := by
  induction frames using List.reverseRecOn with
  | nil => exact ⟨initial,rfl,initial_ready,rfl⟩
  | append_singleton frames frame ih =>
    obtain ⟨s,run,ready,packets⟩ := ih fun other mem => handled other (by simp [mem])
    obtain ⟨t,last,ready',packets'⟩ := parse_frame ready (handled frame (by simp))
    refine ⟨t,?_,ready',?_⟩
    · rw [List.flatMap_append, parseBytes_append run, List.flatMap_singleton, last]
    · rw [packets', packets, List.map_append]
      rfl

/-- The parser hands on every frame and is ready for the next one after each, exactly if no frame
    is a ping, has an unknown opcode or has a length that takes eight bytes. -/
theorem parses_frames_iff (frames : List Frame) :
    Parsed frames ↔ ∀ frame ∈ frames, frame.Handled := by
  constructor
  · intro parsed
    have each : ∀ done, done <+: frames → ∀ frame ∈ done, frame.Handled := by
      intro done
      induction done using List.reverseRecOn with
      | nil => exact fun _ _ mem => nomatch mem
      | append_singleton done frame ih =>
        intro front other mem
        have shorter : done <+: frames := (List.prefix_append done [frame]).trans front
        rcases List.mem_append.mp mem with mem | mem
        · exact ih shorter other mem
        obtain rfl := List.mem_singleton.mp mem
        by_contra unhandled
        obtain ⟨t,run,state,packets⟩ := parsed _ front
        -- its opcode is known, as it was handed on
        obtain ⟨opcode,known⟩ : ∃ opcode,
            SocketOpcode.ofRawValue other.rawOpcode = some opcode := by
          have last : other.contents ∈ t.packets.map contentsOf := by
            rw [packets]
            simp
          obtain ⟨packet,_,same⟩ := List.mem_map.mp last
          refine ⟨packet.opcode,?_⟩
          have raw : packet.opcode.rawValue = other.rawOpcode := congrArg Prod.fst same
          rw [← raw]
          cases packet.opcode <;> rfl
        obtain ⟨s,before,ready,_⟩ := parse_frames (ih shorter)
        obtain ⟨t',stuck,still⟩ := parse_stuck ready known unhandled
        rw [List.flatMap_append, parseBytes_append before, List.flatMap_singleton, stuck] at run
        cases run
        exact still state
    exact each frames (List.prefix_refl frames)
  · intro handled done front
    obtain ⟨s,run,ready,packets⟩ :=
      parse_frames fun frame mem => handled frame (front.subset mem)
    exact ⟨s,run,ready.state,packets⟩

def emptyPing : Frame where
  opcode := 9
  fin := true
  maskKey := [1,2,3,4]
  payload := []
  key_length := rfl
  below := by decide

/-- The bytes of an empty ping are taken, and nothing is handed on. -/
theorem empty_ping_not_parsed : ¬ ∀ frames, Parsed frames := by
  intro all
  obtain ⟨s,run,state,_⟩ := all [emptyPing] [emptyPing] (List.prefix_refl _)
  have stopped : initial.parseBytes ([emptyPing].flatMap Frame.bytes) =
      .ok { initial with fin := 0x80, opcode := .ping, state := .headerb2 } := rfl
  rw [stopped] at run
  cases run
  cases state

end WebSocketFrames
