import AltMessenger.LittleEndian
import AltMessenger.SwiftRuntime

/-!
A client's web socket on the server's side: the parser, which is handed one byte at a time, the
reassembly of fragments, and the queue of frames to be sent. Two fields keep a record of what the
parser handed on and of what the client was called with.
-/
namespace WebSocket
open LittleEndian SwiftRuntime

inductive SocketState where
  | headerb1 | headerb2 | lengthshort | lengthlong | mask | payload
  deriving DecidableEq, Repr

inductive SocketOpcode where
  | stream | text | binary | close | ping | pong
  deriving DecidableEq, Repr

def SocketOpcode.rawValue : SocketOpcode → UInt8
  | stream => 0x0
  | text => 0x1
  | binary => 0x2
  | close => 0x8
  | ping => 0x9
  | pong => 0xA

/-- `SocketOpcode(rawValue: raw)` -/
def SocketOpcode.ofRawValue (raw : UInt8) : Option SocketOpcode :=
  [stream,text,binary,close,ping,pong].find? (fun opcode => opcode.rawValue == raw)

def MAXPAYLOAD : Nat := 33554432

inductive SocketCloseEventCode where
  | close_NORMAL | close_GOING_AWAY | close_PROTOCOL_ERROR | close_UNSUPPORTED | close_NO_STATUS
  | close_ABNORMAL | unsupportedData | policyViolation | close_TOO_LARGE | missingExtension
  | internalError | serviceRestart | tryAgainLater | tlsHandshake
  deriving DecidableEq, Repr

namespace SocketCloseEventCode

def rawValue : SocketCloseEventCode → Nat
  | close_NORMAL => 1000
  | close_GOING_AWAY => 1001
  | close_PROTOCOL_ERROR => 1002
  | close_UNSUPPORTED => 1003
  | close_NO_STATUS => 1005
  | close_ABNORMAL => 1004
  | unsupportedData => 1006
  | policyViolation => 1007
  | close_TOO_LARGE => 1008
  | missingExtension => 1009
  | internalError => 1010
  | serviceRestart => 1011
  | tryAgainLater => 1012
  | tlsHandshake => 1015

/-- `SocketCloseEventCode(rawValue: raw)` -/
def ofRawValue (raw : Nat) : Option SocketCloseEventCode :=
  [close_NORMAL,close_GOING_AWAY,close_PROTOCOL_ERROR,close_UNSUPPORTED,close_NO_STATUS,
    close_ABNORMAL,unsupportedData,policyViolation,close_TOO_LARGE,missingExtension,
    internalError,serviceRestart,tryAgainLater,tlsHandshake].find?
      (fun code => code.rawValue == raw)

end SocketCloseEventCode

/-- A word in network order. -/
def toNetwork (width n : Nat) : List UInt8 := (toBytes width n).reverse

def ofNetwork (bytes : List UInt8) : Nat := ofBytes bytes.reverse

/-- `[UInt8](text.utf8)` -/
def utf8 (text : String) : List UInt8 := text.toUTF8.data.toList

/-- `String(bytes:encoding:)` in UTF-8. -/
def ofUTF8 (bytes : List UInt8) : Option String := String.fromUTF8? ⟨bytes.toArray⟩

/-- What `handlePacket` finds when it is called. -/
structure Packet where
  opcode : SocketOpcode
  fin : Bool
  data : List UInt8
  deriving DecidableEq, Repr

/-- What the client is called with. -/
inductive Received where
  | text (text : String)
  | data (data : List UInt8)
  deriving DecidableEq

structure BRWebSocketImpl where
  state : SocketState := .headerb1
  fin : UInt8 := 0
  hasMask : Bool := false
  opcode : SocketOpcode := .stream
  closed : Bool := false
  index : Nat := 0
  length : Nat := 0
  lengtharray : List UInt8 := []
  lengtharrayWritten : Nat := 0
  data : List UInt8 := []
  dataWritten : Nat := 0
  maskarray : List UInt8 := []
  maskarrayWritten : Nat := 0
  fragStart : Bool := false
  fragType : SocketOpcode := .binary
  fragBuffer : List UInt8 := []
  sendq : List (SocketOpcode × List UInt8) := []
  packets : List Packet := []
  received : List Received := []

def BRWebSocketImpl.initial : BRWebSocketImpl := {}

/-- The seven bits of the second byte that tell the length, and the bytes after it. -/
def lengthField (count : Nat) : UInt8 × List UInt8 :=
  if count ≤ 125 then (UInt8.ofNat count,[])
  else if count ≤ 65535 then (126,toNetwork 2 count)
  else (127,toNetwork 8 count)

/-- The frame `sendMessage` makes; its argument `fin` is true for a fragment that is not the
    last one. -/
def frameBytes (fin : Bool) (opcode : SocketOpcode) (data : List UInt8) : List UInt8 :=
  let b1 : UInt8 := (if fin then 0 else 0x80) ||| opcode.rawValue
  b1 :: (lengthField data.length).1 :: ((lengthField data.length).2 ++ data)

namespace BRWebSocketImpl

def sendMessage (s : BRWebSocketImpl) (fin : Bool) (opcode : SocketOpcode) (data : List UInt8) :
    BRWebSocketImpl :=
  { s with sendq := s.sendq ++ [(opcode,frameBytes fin opcode data)] }

def close (s : BRWebSocketImpl) (status : SocketCloseEventCode) (reason : String) :
    BRWebSocketImpl :=
  let s :=
    if s.closed then s
    else s.sendMessage false .close (toNetwork 2 status.rawValue ++ utf8 reason)
  { s with closed := true }

/-- The status and the reason that a close frame gives. -/
def closeReason (s : BRWebSocketImpl) : SocketCloseEventCode × String :=
  if 2 ≤ s.dataWritten then
    let status := (SocketCloseEventCode.ofRawValue (ofNetwork (s.data.take 2))).getD
      .close_PROTOCOL_ERROR
    let lr := s.data.drop 2
    if 0 < lr.length then
      match ofUTF8 lr with
      | some rr => (status,rr)
      | none => (.close_PROTOCOL_ERROR,"bad UTF8 data")
    else (status,"")
  else (.close_PROTOCOL_ERROR,"")

/-- `client?.socket(self, …)` -/
def receive (s : BRWebSocketImpl) (received : Received) : BRWebSocketImpl :=
  { s with received := s.received ++ [received] }

/-- A text that is not UTF-8 is dropped. -/
def receiveText (s : BRWebSocketImpl) (bytes : List UInt8) : BRWebSocketImpl :=
  match ofUTF8 bytes with
  | some str => s.receive (.text str)
  | none => s

/-- A frame that is not the last one of its message. -/
def handleFragment (s : BRWebSocketImpl) : BRWebSocketImpl :=
  if s.opcode ≠ .stream then
    if s.opcode = .ping ∨ s.opcode = .pong then s
    else { s with
      fragType := s.opcode, fragStart := true, fragBuffer := s.fragBuffer ++ s.data }
  else if s.fragStart = false then s
  else { s with fragBuffer := s.fragBuffer ++ s.data }

/-- The last frame of its message. -/
def handleFinal (s : BRWebSocketImpl) : BRWebSocketImpl :=
  if s.opcode = .stream then
    if s.fragStart = false then s
    else
      -- the buffer is not looked at
      let s := if s.fragType = .text then s.receiveText s.data else s.receive (.data s.data)
      { s with fragType := .binary, fragStart := false, fragBuffer := [] }
  else if s.opcode = .ping then s.sendMessage false .pong s.data
  else if s.opcode = .pong then s
  else if s.fragStart then s
  else if s.opcode = .text then s.receiveText s.data
  else s

def record (s : BRWebSocketImpl) : BRWebSocketImpl :=
  { s with packets := s.packets ++ [⟨s.opcode,decide (s.fin ≠ 0),s.data⟩] }

def handlePacket (s : BRWebSocketImpl) : BRWebSocketImpl :=
  let s := s.record
  if (s.opcode = .pong ∨ s.opcode = .ping) ∧ 125 < s.dataWritten then s
  else if s.opcode = .close then s.close s.closeReason.1 s.closeReason.2
  else if s.fin = 0 then s.handleFragment
  else s.handleFinal

/-- What is done after each `handlePacket`. -/
def finishPacket (s : BRWebSocketImpl) : BRWebSocketImpl :=
  { s.handlePacket with data := [], dataWritten := 0, state := .headerb1 }

def startPayload (s : BRWebSocketImpl) : BRWebSocketImpl :=
  if s.length = 0 then s.finishPacket
  else { s with data := List.replicate s.length 0, dataWritten := 0, state := .payload }

def afterLength (s : BRWebSocketImpl) : BRWebSocketImpl :=
  if s.hasMask then
    { s with maskarray := List.replicate 4 0, maskarrayWritten := 0, state := .mask }
  else s.startPayload

/-- `array[i] = byte` -/
def store (array : List UInt8) (i : Nat) (byte : UInt8) : Except Trap (List UInt8) :=
  if i < array.length then .ok (array.set i byte) else .error .index

def parseHeader1 (s : BRWebSocketImpl) (byte : UInt8) : BRWebSocketImpl :=
  let s := { s with fin := byte &&& 0x80 }
  match SocketOpcode.ofRawValue (byte &&& 0x0F) with
  | none => s
  -- reserved bits are only logged
  | some opc => { s with opcode := opc, state := .headerb2, index := 0, length := 0 }

def parseHeader2 (s : BRWebSocketImpl) (byte : UInt8) : BRWebSocketImpl :=
  let mask := byte &&& 0x80
  let length := byte &&& 0x7F
  -- every ping is logged as too large, and the state stays as it is
  if s.opcode = .ping then s
  else
    let s := { s with hasMask := decide (mask = 128) }
    if length ≤ 125 then { s with length := length.toNat }.afterLength
    else if length = 126 then
      { s with
        lengtharray := List.replicate 2 0, lengtharrayWritten := 0, state := .lengthshort }
    else if length = 127 then
      { s with lengtharray := List.replicate 8 0, lengtharrayWritten := 0, state := .lengthlong }
    else s

/-- A byte of a length of two or of eight bytes. -/
def parseLength (width : Nat) (s : BRWebSocketImpl) (byte : UInt8) :
    Except Trap BRWebSocketImpl := do
  let s := { s with lengtharrayWritten := s.lengtharrayWritten + 1 }
  if s.lengtharrayWritten > width then pure s
  else do
    let lengtharray ← store s.lengtharray (s.lengtharrayWritten - 1) byte
    let s := { s with lengtharray }
    if s.lengtharrayWritten = width then
      if ofNetwork lengtharray < 2 ^ 63 then
        pure { s with length := ofNetwork lengtharray }.afterLength
      else .error .conversion
    else pure s

def parseMask (s : BRWebSocketImpl) (byte : UInt8) : Except Trap BRWebSocketImpl := do
  let s := { s with maskarrayWritten := s.maskarrayWritten + 1 }
  -- it is the counter of the length's bytes that is compared
  if s.lengtharrayWritten > 4 then pure s
  else do
    let maskarray ← store s.maskarray (s.maskarrayWritten - 1) byte
    let s := { s with maskarray }
    if s.maskarrayWritten = 4 then pure s.startPayload else pure s

def unmask (s : BRWebSocketImpl) (byte : UInt8) : Except Trap UInt8 :=
  if s.hasMask then do
    let key ← subscript s.maskarray (s.index % 4)
    pure (byte ^^^ key)
  else pure byte

def parsePayload (s : BRWebSocketImpl) (byte : UInt8) : Except Trap BRWebSocketImpl := do
  let s := { s with dataWritten := s.dataWritten + 1 }
  if s.dataWritten ≥ MAXPAYLOAD then pure s
  else do
    let plain ← s.unmask byte
    let data ← store s.data (s.dataWritten - 1) plain
    let s := { s with data }
    if s.index + 1 = s.length then pure s.finishPacket else pure { s with index := s.index + 1 }

def parseMessage (s : BRWebSocketImpl) (byte : UInt8) : Except Trap BRWebSocketImpl :=
  match s.state with
  | .headerb1 => .ok (s.parseHeader1 byte)
  | .headerb2 => .ok (s.parseHeader2 byte)
  | .lengthshort => s.parseLength 2 byte
  | .lengthlong => s.parseLength 8 byte
  | .mask => s.parseMask byte
  | .payload => s.parsePayload byte

/-- The bytes that `handleRead` takes from the connection, one by one. -/
def parseBytes (s : BRWebSocketImpl) (bytes : List UInt8) : Except Trap BRWebSocketImpl :=
  bytes.foldlM parseMessage s

end BRWebSocketImpl

end WebSocket
