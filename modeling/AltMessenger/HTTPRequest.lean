import AltMessenger.SwiftRuntime
import AltMessenger.SwiftText

/-!
A request of the local HTTP server, read byte by byte from its socket: the request line up to the
path and the query, the headers, and the body.
-/
namespace HTTPRequest
open SwiftRuntime SwiftText

inductive BRHTTPServerError where
  | socketCreationFailed
  | socketBindFailed
  | socketListenFailed
  | socketRecvFailed
  | socketWriteFailed
  | invalidHttpRequest
  | invalidRangeHeader
  deriving DecidableEq, Repr

/-- What keeps a computation from its end: an error that is thrown, a trap, or a read of memory
    that was never filled. -/
inductive Stop where
  | throws (error : BRHTTPServerError)
  | trap (trap : Trap)
  | pastTheEnd
  deriving DecidableEq, Repr

def trapping {α : Type} : Except Trap α → Except Stop α
  | .ok a => .ok a
  | .error trap => .error (.trap trap)

/-- What is still to be received, and whether the socket fails after it. -/
structure Socket where
  bytes : List UInt8
  failed : Bool
  deriving DecidableEq, Repr

/-- `recv`, which gives what has arrived, up to a size: the number it returns, and the bytes. -/
def recv (socket : Socket) (size arrived : Nat) : Int × List UInt8 × Socket :=
  match socket.bytes with
  | [] => (if socket.failed then -1 else 0, [], socket)
  | bytes =>
    let count := min size (max 1 arrived)
    ((bytes.take count).length, bytes.take count, { socket with bytes := bytes.drop count })

/-- `UnicodeScalar(_:)` -/
def unicodeScalar (n : Nat) : Option Char := if n.isValidChar then some (Char.ofNat n) else none

/-- `readLine`: control characters up to the return are dropped, a line feed ends the line, and so
    does a NUL, like the end of the stream. -/
def readLine (failed : Bool) (chars : List Char) : List UInt8 → Except Stop (List Char × List UInt8)
  | [] => if failed then .error (.throws .socketRecvFailed) else .ok (chars, [])
  | n :: bytes => do
    let chars ←
      if n > 13 then do .ok (chars ++ [← trapping (unwrap (unicodeScalar n.toNat))]) else .ok chars
    if n > 0 && n != 10 then readLine failed chars bytes else .ok (chars, bytes)

abbrev Fields := List (List Char × List (List Char))

/-- A value more for a name, or a new name. -/
def Fields.append (name value : List Char) : Fields → Fields
  | [] => [(name,[value])]
  | (other, values) :: rest =>
    if other = name then (other, values ++ [value]) :: rest
    else (other, values) :: Fields.append name value rest

structure Request where
  method : List Char
  path : List Char
  queryString : List Char
  query : Fields
  headers : Fields
  deriving DecidableEq, Repr

def parseQuery (queryString : List Char) : Fields :=
  (components queryString '&').foldl
    (fun query pair =>
      match components pair '=' with
      | [name, value] => query.append name value
      | _ => query)
    []

/-- The path of a request line, with the query it ends in. -/
def parsePath (path : List Char) : List Char × List Char × Fields :=
  if '?' ∈ path then
    match components path '?' with
    | [] => (path, [], [])
    | path :: parts =>
      let queryString := joined parts '?'
      (path, queryString, parseQuery queryString)
  else (path, [], [])

def parseHeader (headers : Fields) (hdr : List Char) : Fields :=
  match components hdr ':' with
  | name :: part :: parts =>
    headers.append (lowercased name) (trimmingWhitespace (joined (part :: parts) ':'))
  | _ => headers

/-- The headers up to an empty line, for no more than so many of them. -/
def readHeaders (failed : Bool) :
    Nat → Fields → List UInt8 → Except Stop (Fields × List UInt8)
  | 0, headers, bytes => .ok (headers, bytes)
  | count + 1, headers, bytes => do
    let (hdr, bytes) ← readLine failed [] bytes
    if hdr = [] then .ok (headers, bytes)
    else readHeaders failed count (parseHeader headers hdr) bytes

/-- `init(readFromFd:)`: each header takes a byte at least. -/
def readFrom (socket : Socket) : Except Stop (Request × Socket) := do
  let (status, bytes) ← readLine socket.failed [] socket.bytes
  match components status ' ' with
  | method :: path :: _ :: _ =>
    let (path, queryString, query) := parsePath path
    let (headers, bytes) ← readHeaders socket.failed (bytes.length + 1) [] bytes
    .ok (⟨method,path,queryString,query,headers⟩, { socket with bytes })
  | _ => .error (.throws .invalidHttpRequest)

namespace Request

def isKeepAlive (r : Request) : Bool :=
  match r.headers.lookup "connection".toList with
  | some (value :: _) => value = "keep-alive".toList
  | _ => false

def hasBody (r : Request) : Bool :=
  r.method = "POST".toList || r.method = "PATCH".toList || r.method = "PUT".toList

def contentLength (r : Request) : Int :=
  match r.headers.lookup "content-length".toList with
  | some (value :: _) => if r.hasBody then (int value).getD 0 else 0
  | _ => 0

def contentType (r : Request) : List Char :=
  match r.headers.lookup "content-type".toList with
  | some (value :: _) => value
  | _ => "application/octet-stream".toList

/-- Pieces of 4096 bytes, up to one that is shorter, or until there are enough. -/
def receiveBody (arrived : Nat → Nat) (contentLength : Int) :
    Nat → List UInt8 → Socket → Except Stop (List UInt8 × Socket)
  | 0, body, socket => .ok (body, socket)
  | count + 1, body, socket =>
    let (n, buf, socket) := recv socket 4096 (arrived count)
    -- the slice up to a negative number
    if n < 0 then .error (.trap .index)
    else
      let body := body ++ buf
      if n < 4096 || body.length ≥ contentLength then .ok (body, socket)
      else receiveBody arrived contentLength count body socket

/-- `body`, at its first call: the data has the length that was announced, whatever came. -/
def body (r : Request) (arrived : Nat → Nat) (socket : Socket) :
    Except Stop (Option (List UInt8) × Socket) :=
  if r.contentLength > 0 then do
    let (bytes, socket) ←
      receiveBody arrived r.contentLength (socket.bytes.length + 1) [] socket
    if r.contentLength ≤ bytes.length then
      .ok (some (bytes.take r.contentLength.toNat), socket)
    else .error .pastTheEnd
  else .ok (none, socket)

end Request

/-- What is after a text at the start of another one, in upper or lower case. -/
def dropLowercased : List Char → List Char → Option (List Char)
  | [], text => some text
  | c :: start, d :: text => if lowercase d = c then dropLowercased start text else none
  | _ :: _, [] => none

/-- The groups of `bytes=(\d*)-(\d*)` where it matches at the start. -/
def matchRange (header : List Char) : Option (List Char × List Char) := do
  let text ← dropLowercased "bytes=".toList header
  match text.dropWhile Char.isDigit with
  | '-' :: rest => some (text.takeWhile Char.isDigit, rest.takeWhile Char.isDigit)
  | _ => none

def rangeHeader (r : Request) : Except Stop (Option (Int × Int)) :=
  match r.headers.lookup "range".toList with
  | none => .ok none
  | some [] => .error (.trap .index)
  | some (header :: _) =>
    match matchRange header with
    | none => .error (.throws .invalidRangeHeader)
    | some (startStr, endStr) =>
      match int startStr, int endStr with
      | some start, some last => .ok (some (start, last))
      | _, _ => .error (.throws .invalidRangeHeader)

/-- Each name of the fields is one in lower case. -/
def Lowercased (fields : Fields) : Prop := ∀ field ∈ fields, ∃ name, field.1 = lowercased name

theorem append_lowercased {fields : Fields} (lower : Lowercased fields) (name value : List Char) :
    Lowercased (Fields.append (lowercased name) value fields) := by
  induction fields with
  | nil =>
    intro field there
    rw [List.mem_singleton.mp there]
    exact ⟨name,rfl⟩
  | cons first rest ih =>
    have later := ih fun field there => lower field (List.mem_cons_of_mem first there)
    obtain ⟨other,values⟩ := first
    unfold Fields.append
    split
    case isTrue same =>
      intro field there
      rcases List.mem_cons.mp there with now | after
      · exact ⟨name,by rw [now, same]⟩
      · exact lower field (List.mem_cons_of_mem _ after)
    case isFalse =>
      intro field there
      rcases List.mem_cons.mp there with now | after
      · rw [now]
        exact lower (other, values) List.mem_cons_self
      · exact later field after

theorem parseHeader_lowercased {headers : Fields} (lower : Lowercased headers) (hdr : List Char) :
    Lowercased (parseHeader headers hdr) := by
  unfold parseHeader
  split
  · exact append_lowercased lower _ _
  · exact lower

theorem readHeaders_lowercased {failed : Bool} {count : Nat} {headers after : Fields}
    {bytes rest : List UInt8} (lower : Lowercased headers)
    (read : readHeaders failed count headers bytes = .ok (after, rest)) : Lowercased after := by
  induction count generalizing headers bytes with
  | zero =>
    cases read
    exact lower
  | succ count ih =>
    unfold readHeaders at read
    obtain ⟨⟨hdr,more⟩,_,read⟩ := bind_ran.mp read
    dsimp only at read
    split at read
    case isTrue =>
      cases read
      exact lower
    case isFalse => exact ih (parseHeader_lowercased lower hdr) read

/-- The headers of a request that was read have their names in lower case. -/
theorem readFrom_lowercased {socket rest : Socket} {request : Request}
    (read : readFrom socket = .ok (request, rest)) : Lowercased request.headers := by
  unfold readFrom at read
  obtain ⟨⟨status,bytes⟩,_,read⟩ := bind_ran.mp read
  dsimp only at read
  split at read
  case h_1 method path _ _ _ =>
    obtain ⟨⟨headers,more⟩,some_headers,read⟩ := bind_ran.mp read
    cases read
    have none_yet : Lowercased [] := fun _ there => nomatch there
    exact readHeaders_lowercased none_yet some_headers
  case h_2 => cases read

section Lines
variable {property : Char → Prop}

/-- What holds of each character above the return holds of all characters of a line. -/
theorem readLine_all (each : ∀ n : UInt8, n > 13 → property (Char.ofNat n.toNat))
    {failed : Bool} {chars line : List Char} {bytes rest : List UInt8}
    (all : ∀ c ∈ chars, property c) (read : readLine failed chars bytes = .ok (line, rest)) :
    ∀ c ∈ line, property c := by
  induction bytes generalizing chars with
  | nil =>
    unfold readLine at read
    split at read
    case isTrue => cases read
    case isFalse =>
      cases read
      exact all
  | cons n bytes ih =>
    have next : ∀ more, (∀ c ∈ more, property c) →
        (if n > 0 && n != 10 then readLine failed more bytes else .ok (more, bytes)) =
          .ok (line, rest) → ∀ c ∈ line, property c := by
      intro more all_more read
      split at read
      · exact ih all_more read
      · cases read
        exact all_more
    unfold readLine at read
    by_cases printable : n > 13
    · rw [if_pos printable] at read
      obtain ⟨c,scalar,read⟩ := bind_ran.mp read
      have same : c = Char.ofNat n.toNat := by
        rw [unicodeScalar] at scalar
        split at scalar
        · exact (Except.ok.inj scalar).symm
        · cases scalar
      refine next _ (fun d mem => ?_) read
      rcases List.mem_append.mp mem with before | now
      · exact all d before
      · rw [List.mem_singleton.mp now, same]
        exact each n printable
    · rw [if_neg printable] at read
      exact next chars all read

theorem components_all {text part : List Char} {separator : Char}
    (all : ∀ c ∈ text, property c) (there : part ∈ components text separator) :
    ∀ c ∈ part, property c :=
  fun c mem => all c (component_mem there mem)

theorem parsePath_all {path : List Char} (all : ∀ c ∈ path, property c) :
    ∀ c ∈ (parsePath path).1, property c := by
  unfold parsePath
  split
  · split
    · exact all
    case h_2 first _ parts =>
      exact components_all all (by rw [parts]; exact List.mem_cons_self)
  · exact all

/-- What holds of each character above the return holds of the path of a request. -/
theorem readFrom_path_all (each : ∀ n : UInt8, n > 13 → property (Char.ofNat n.toNat))
    {socket rest : Socket} {request : Request}
    (read : readFrom socket = .ok (request, rest)) : ∀ c ∈ request.path, property c := by
  unfold readFrom at read
  obtain ⟨⟨status,bytes⟩,line,read⟩ := bind_ran.mp read
  have all : ∀ c ∈ status, property c :=
    readLine_all each (fun _ there => absurd there List.not_mem_nil) line
  dsimp only at read
  split at read
  case h_1 method path _ _ parts =>
    obtain ⟨⟨headers,more⟩,_,read⟩ := bind_ran.mp read
    cases read
    have inside : path ∈ components status ' ' := by
      rw [parts]
      exact List.mem_cons_of_mem _ List.mem_cons_self
    exact parsePath_all (components_all all inside)
  case h_2 => cases read

end Lines

theorem number_above {n : UInt8} (above : n > 13) :
    13 < (Char.ofNat n.toNat).toNat ∧ (Char.ofNat n.toNat).toNat < 256 := by
  have small := n.toNat_lt
  have large : 13 < n.toNat := above
  rw [toNat_ofNat (by omega)]
  omega

/-- The characters of a path are bytes above the return. -/
theorem readFrom_path_bytes {socket rest : Socket} {request : Request}
    (read : readFrom socket = .ok (request, rest)) :
    ∀ c ∈ request.path, 13 < c.toNat ∧ c.toNat < 256 :=
  readFrom_path_all (fun _ => number_above) read

/-- The path of a request that was read has no zero character. -/
theorem readFrom_path_plain {socket rest : Socket} {request : Request}
    (read : readFrom socket = .ok (request, rest)) : '\x00' ∉ request.path :=
  fun zero => absurd (readFrom_path_bytes read '\x00' zero).1 (by decide)

section Answers
variable {α β : Type}

/-- The computation returns or throws: it does not trap, and reads no memory that was not filled. -/
def Answers (x : Except Stop α) : Prop := ∀ stop, x = .error stop → ∃ error, stop = .throws error

theorem answers_ok (a : α) : Answers (.ok a) := fun _ stopped => nomatch stopped

theorem answers_throws (error : BRHTTPServerError) :
    Answers (.error (.throws error) : Except Stop α) := by
  intro stop stopped
  cases stopped
  exact ⟨error,rfl⟩

theorem answers_bind {x : Except Stop α} {f : α → Except Stop β} :
    Answers (x >>= f) ↔ Answers x ∧ ∀ a, x = .ok a → Answers (f a) := by
  cases x with
  | ok a =>
    constructor
    · intro answers
      refine ⟨answers_ok a,fun b same => ?_⟩
      cases same
      exact answers
    · exact fun both => both.2 a rfl
  | error stop =>
    constructor
    · intro answers
      refine ⟨fun other same => ?_,fun a same => nomatch same⟩
      cases same
      exact answers stop rfl
    · intro both other same
      cases same
      exact both.1 stop rfl

/-- What may only trap answers if it returns. -/
theorem answers_trapping {x : Except Trap α} : Answers (trapping x) ↔ ∃ a, x = .ok a := by
  cases x with
  | ok a => exact iff_of_true (answers_ok a) ⟨a,rfl⟩
  | error trap =>
    refine iff_of_false ?_ fun ⟨a,same⟩ => nomatch same
    intro answers
    obtain ⟨error,same⟩ := answers _ rfl
    cases same

/-- Each byte is the number of a character. -/
theorem unicodeScalar_byte (n : UInt8) : unicodeScalar n.toNat = some (Char.ofNat n.toNat) := by
  have small := n.toNat_lt
  exact if_pos (Or.inl (by omega))

theorem readLine_answers (failed : Bool) (chars : List Char) (bytes : List UInt8) :
    Answers (readLine failed chars bytes) := by
  induction bytes generalizing chars with
  | nil =>
    unfold readLine
    split
    · exact answers_throws _
    · exact answers_ok _
  | cons n bytes ih =>
    have next : ∀ more, Answers
        (if n > 0 && n != 10 then readLine failed more bytes else .ok (more, bytes)) := by
      intro more
      split
      · exact ih more
      · exact answers_ok _
    have scalar : trapping (unwrap (unicodeScalar n.toNat)) = .ok (Char.ofNat n.toNat) := by
      rw [unicodeScalar_byte]
      rfl
    unfold readLine
    by_cases printable : n > 13
    · rw [if_pos printable, bind_ready scalar]
      exact next _
    · rw [if_neg printable]
      exact next chars

theorem readHeaders_answers (failed : Bool) (count : Nat) (headers : Fields) (bytes : List UInt8) :
    Answers (readHeaders failed count headers bytes) := by
  induction count generalizing headers bytes with
  | zero => exact answers_ok _
  | succ count ih =>
    unfold readHeaders
    refine answers_bind.mpr ⟨readLine_answers failed [] bytes,fun line _ => ?_⟩
    dsimp only
    split
    · exact answers_ok _
    · exact ih _ _

/-- Whatever bytes there are, a request is read from them or an error thrown. -/
theorem readFrom_answers (socket : Socket) : Answers (readFrom socket) := by
  unfold readFrom
  refine answers_bind.mpr ⟨readLine_answers _ _ _,fun line _ => ?_⟩
  dsimp only
  split
  · exact answers_bind.mpr ⟨readHeaders_answers _ _ _ _,fun _ _ => answers_ok _⟩
  · exact answers_throws _

end Answers

namespace Request

/-- Of so many bytes each piece has arrived when it is asked for, so that only the last is shorter
    than 4096 bytes. -/
def Pieces (arrived : Nat → Nat) (count : Nat) (length : Int) : Prop :=
  ∀ piece : Nat, 4096 * (piece : Int) < length →
    min 4096 (length - 4096 * piece) ≤ max 1 (arrived (count - piece))

/-- The whole body is sent, and arrives in time. -/
def WholeBody (r : Request) (arrived : Nat → Nat) (socket : Socket) : Prop :=
  r.contentLength ≤ socket.bytes.length ∧ Pieces arrived socket.bytes.length r.contentLength

/-- The body as it was announced and sent. -/
def sentBody (r : Request) (socket : Socket) : Option (List UInt8) :=
  if r.contentLength > 0 then some (socket.bytes.take r.contentLength.toNat) else none

section Body
variable {arrived : Nat → Nat} {length : Int} {count : Nat} {body whole : List UInt8}
  {socket rest : Socket}

/-- What is received of the body is what was sent, in order. -/
theorem receiveBody_kept
    (ran : receiveBody arrived length count body socket = .ok (whole, rest)) :
    whole ++ rest.bytes = body ++ socket.bytes := by
  induction count generalizing body socket with
  | zero =>
    cases ran
    rfl
  | succ count ih =>
    obtain ⟨bytes,failed⟩ := socket
    unfold receiveBody recv at ran
    cases bytes with
    | nil =>
      cases failed with
      | true => cases ran
      | false =>
        cases ran
        rw [List.append_nil]
    | cons b bytes =>
      dsimp only at ran
      split at ran
      · cases ran
      · split at ran
        · cases ran
          rw [List.append_assoc, List.take_append_drop]
        · rw [ih ran, List.append_assoc, List.take_append_drop]

theorem pieces_last (some_left : 0 < length) (last : length ≤ 4096) :
    Pieces arrived count length ↔ length ≤ max 1 (arrived count) := by
  constructor
  · intro pieces
    have first := pieces 0 (by omega)
    rw [Nat.sub_zero] at first
    omega
  · intro there piece before
    have first : piece = 0 := by omega
    rw [first, Nat.sub_zero]
    omega

theorem pieces_step (more : 4096 < length) : Pieces arrived count length ↔
    (4096 : Int) ≤ max 1 (arrived count) ∧ Pieces arrived (count - 1) (length - 4096) := by
  have shift (piece : Nat) : count - (piece + 1) = count - 1 - piece := by omega
  constructor
  · intro pieces
    have first := pieces 0 (by omega)
    rw [Nat.sub_zero] at first
    refine ⟨by omega,fun piece before => ?_⟩
    have next := pieces (piece + 1) (by omega)
    rw [shift] at next
    omega
  · intro both piece before
    obtain ⟨first,later⟩ := both
    cases piece with
    | zero =>
      rw [Nat.sub_zero]
      omega
    | succ piece =>
      have next := later piece (by omega)
      rw [shift]
      omega

/-- One call of `recv` where something is left. -/
theorem receiveBody_cons (b : UInt8) (bytes : List UInt8) (failed : Bool) :
    receiveBody arrived length (count + 1) body ⟨b :: bytes,failed⟩ =
      let piece := (b :: bytes).take (min 4096 (max 1 (arrived count)))
      let rest : Socket := ⟨(b :: bytes).drop (min 4096 (max 1 (arrived count))),failed⟩
      if piece.length < 4096 ∨ length ≤ body.length + piece.length then .ok (body ++ piece, rest)
      else receiveBody arrived length count (body ++ piece) rest := by
  rw [receiveBody, recv]
  dsimp only
  rw [if_neg (by omega)]
  simp only [Bool.or_eq_true, decide_eq_true_eq, ge_iff_le, List.length_append, Nat.cast_add,
    Nat.cast_lt_ofNat]

/-- The body is received whole exactly if it was sent and its pieces arrive in time. -/
theorem receiveBody_iff (enough : socket.bytes.length < count) (short : body.length < length) :
    (∃ whole rest, receiveBody arrived length count body socket = .ok (whole, rest) ∧
        length ≤ whole.length) ↔
      length - body.length ≤ socket.bytes.length ∧
        Pieces arrived (count - 1) (length - body.length) := by
  induction count generalizing body socket with
  | zero => exact absurd enough (Nat.not_lt_zero _)
  | succ count ih =>
    rw [Nat.add_sub_cancel]
    obtain ⟨bytes,failed⟩ := socket
    cases bytes with
    | nil =>
      have none_left : ¬ length - body.length ≤ (([] : List UInt8).length : Int) := by
        rw [List.length_nil]
        omega
      refine iff_of_false ?_ fun met => none_left met.1
      rintro ⟨whole,rest,ran,long⟩
      cases failed with
      | true => cases ran
      | false =>
        cases ran
        rw [List.append_nil] at long
        omega
    | cons b bytes =>
      rw [receiveBody_cons]
      dsimp only at enough ⊢
      generalize size : min 4096 (max 1 (arrived count)) = most
      generalize (b :: bytes) = sent at enough ⊢
      have taken : (sent.take most).length = min most sent.length := List.length_take
      rw [taken]
      by_cases last : length - body.length ≤ 4096
      · rw [pieces_last (by omega) last]
        split
        case isTrue =>
          constructor
          · rintro ⟨whole,rest,ran,long⟩
            cases ran
            rw [List.length_append, taken] at long
            omega
          · intro met
            refine ⟨_,_,rfl,?_⟩
            rw [List.length_append, taken]
            omega
        case isFalse not_yet => omega
      · rw [pieces_step (by omega)]
        split
        case isTrue ended =>
          refine iff_of_false ?_ (by omega)
          rintro ⟨whole,rest,ran,long⟩
          cases ran
          rw [List.length_append, taken] at long
          omega
        case isFalse =>
          have full : most = 4096 := by omega
          rw [ih (by rw [List.length_drop]; omega) (by rw [List.length_append, taken]; omega),
            List.length_append, taken, List.length_drop]
          have left : length - ((body.length + min most sent.length : Nat) : Int) =
              length - body.length - 4096 := by omega
          rw [left]
          refine ⟨fun met => ⟨by omega,by omega,met.2⟩,fun met => ⟨by omega,met.2.2⟩⟩

/-- A body that comes whole is the one that was sent. -/
theorem body_whole (r : Request) (met : r.WholeBody arrived socket) :
    ∃ rest, r.body arrived socket = .ok (r.sentBody socket, rest) := by
  unfold body sentBody
  split
  case isTrue some_body =>
    have short : (([] : List UInt8).length : Int) < r.contentLength := some_body
    have sent : r.contentLength - ([] : List UInt8).length ≤ socket.bytes.length ∧
        Pieces arrived socket.bytes.length (r.contentLength - ([] : List UInt8).length) := by
      simpa [WholeBody] using met
    obtain ⟨whole,rest,ran,long⟩ := (receiveBody_iff (Nat.lt_succ_self _) short).mpr sent
    have kept := receiveBody_kept ran
    rw [List.nil_append] at kept
    have fits : r.contentLength.toNat ≤ whole.length := by omega
    rw [bind_ready ran]
    dsimp only
    rw [if_pos long, ← kept, List.take_append_of_le_length fits]
    exact ⟨rest,rfl⟩
  case isFalse => exact ⟨socket,rfl⟩

theorem receiveBody_stops {stop : Stop}
    (stopped : receiveBody arrived length count body socket = .error stop) :
    stop = .trap .index := by
  induction count generalizing body socket with
  | zero => cases stopped
  | succ count ih =>
    unfold receiveBody at stopped
    dsimp only at stopped
    split at stopped
    · cases stopped
      rfl
    · split at stopped
      · cases stopped
      · exact ih stopped

/-- The body is answered with exactly if it comes whole. -/
theorem body_answers_iff (r : Request) :
    Answers (r.body arrived socket) ↔ r.WholeBody arrived socket := by
  constructor
  · intro answers
    unfold body at answers
    split at answers
    case isTrue some_body =>
      have short : (([] : List UInt8).length : Int) < r.contentLength := by simpa using some_body
      obtain ⟨received,then_whole⟩ := answers_bind.mp answers
      have whole : ∃ whole rest, receiveBody arrived r.contentLength (socket.bytes.length + 1) []
          socket = .ok (whole, rest) ∧ r.contentLength ≤ whole.length := by
        cases ran : receiveBody arrived r.contentLength (socket.bytes.length + 1) [] socket with
        | error stop =>
          obtain ⟨error,thrown⟩ := received stop ran
          rw [receiveBody_stops ran] at thrown
          cases thrown
        | ok result =>
          refine ⟨result.1,result.2,rfl,?_⟩
          by_contra long
          have last := then_whole result ran
          dsimp only at last
          rw [if_neg long] at last
          obtain ⟨error,thrown⟩ := last _ rfl
          cases thrown
      simpa [WholeBody] using (receiveBody_iff (Nat.lt_succ_self _) short).mp whole
    case isFalse none_sent =>
      exact ⟨by omega,fun piece there => by omega⟩
  · intro met
    obtain ⟨rest,ran⟩ := body_whole r met
    rw [ran]
    exact answers_ok _

end Body

end Request

end HTTPRequest
