import AltMessenger.StreamDrain
import AltMessenger.BitcoinMessage

/-!
`MessageParser.parseBytes`: resynchronise on the network's magic, read a header,
wait for its payload, hand the message to the delegate if its checksum holds.
-/
namespace PeerStream
open ByteReader SwiftRuntime BitcoinStream BitcoinHash BitcoinMessage StreamDrain

structure MessageParser where
  receivedBytes : List UInt8
  receivedHeader : Option Header
  deriving DecidableEq

def fresh : MessageParser := { receivedBytes := [], receivedHeader := none }

/-- The place of the magic; -1 is `none`. -/
def headerStartIndexInBytes (bytes : List UInt8) : Option Nat := firstIndex magicBytes bytes

section Parser

variable (D : Digests)

/-- The messages the delegate gets of one that is complete. -/
def deliver (message : Message) : Except Trap (List Message) :=
  if message.header.network = magicBytes then do
    let valid ← message.isChecksumValid D
    pure (if valid then [message] else [])
  else pure []

/-- The rest of a turn once there is a header. -/
def withHeader (header : Header) (receivedBytes : List UInt8) :
    Except Trap (Pass MessageParser Message) :=
  let payloadLength := header.payloadLength.toNat
  if receivedBytes.length < payloadLength then
    pure (.wait { receivedBytes, receivedHeader := some header })
  else do
    let delivered ← deliver D { header, payload := receivedBytes.take payloadLength }
    pure (.turn { receivedBytes := receivedBytes.drop payloadLength, receivedHeader := none }
      delivered)

/-- The rest of a turn once the bytes start with the magic. -/
def atMagic (receivedBytes : List UInt8) : Except Trap (Pass MessageParser Message) :=
  if receivedBytes.length < Header.length then
    pure (.wait { receivedBytes, receivedHeader := none })
  else
    match Header.fromBitcoinStream receivedBytes with
    | .ok header _ => withHeader D header (receivedBytes.drop Header.length)
    | .fail => pure (.turn
        { receivedBytes := receivedBytes.drop magicBytes.length, receivedHeader := none } [])
    | .trap e => .error e

/-- One turn of `while true`. Without the magic, all but the last three bytes go. -/
def pass (parser : MessageParser) : Except Trap (Pass MessageParser Message) :=
  match parser.receivedHeader with
  | some header => withHeader D header parser.receivedBytes
  | none =>
    match headerStartIndexInBytes parser.receivedBytes with
    | some headerStartIndex => atMagic D (parser.receivedBytes.drop headerStartIndex)
    | none =>
      let count := parser.receivedBytes.length + 1 - magicBytes.length
      pure (.wait { parser with receivedBytes := parser.receivedBytes.drop count })

/-- `while true`, for at most this many turns. -/
def turns : Nat → MessageParser → Except Trap (List Message × MessageParser)
  | 0, parser => pure ([], parser)
  | fuel + 1, parser => do
    let step ← pass D parser
    match step with
    | .wait parser => pure ([], parser)
    | .turn parser delivered => do
      let (later, parser) ← turns fuel parser
      pure (delivered ++ later, parser)

/-- A turn shortens the bytes or does away with a pending header. -/
def size (parser : MessageParser) : Nat :=
  2 * parser.receivedBytes.length + (if parser.receivedHeader.isSome then 1 else 0)

def push (parser : MessageParser) (bytes : List UInt8) : MessageParser :=
  { parser with receivedBytes := parser.receivedBytes ++ bytes }

/-- What the delegate got, and the parser afterwards. -/
def parseBytes (parser : MessageParser) (bytes : List UInt8) :
    Except Trap (List Message × MessageParser) :=
  turns D (size (push parser bytes) + 1) (push parser bytes)

/-- Successive calls, one for each piece. -/
def parsePieces : MessageParser → List (List UInt8) →
    Except Trap (List Message × MessageParser)
  | parser, [] => pure ([], parser)
  | parser, piece :: pieces => do
    let (delivered, parser) ← parseBytes D parser piece
    let (later, parser) ← parsePieces parser pieces
    pure (delivered ++ later, parser)

end Parser

theorem size_none (bytes : List UInt8) : size ⟨bytes,none⟩ = 2 * bytes.length := rfl

theorem size_pending (bytes : List UInt8) (header : Header) :
    size ⟨bytes,some header⟩ = 2 * bytes.length + 1 := rfl

theorem magic_some : magicBytes ≠ [] := by decide

section Turns

variable {D : Digests}

theorem deliver_ran {message : Message} (short : message.payload.length < 2 ^ 32) :
    ∃ delivered, deliver D message = .ok delivered := by
  unfold deliver
  split
  · rw [Message.isChecksumValid, checksum_short D short]
    exact ⟨_,rfl⟩
  · exact ⟨_,rfl⟩

/-- A pending header waits for its payload, or the message is taken off. -/
theorem withHeader_cases (D : Digests) (header : Header) (bytes : List UInt8) :
    (bytes.length < header.payloadLength.toNat ∧
        withHeader D header bytes = .ok (.wait ⟨bytes,some header⟩)) ∨
      header.payloadLength.toNat ≤ bytes.length ∧ ∃ delivered, ∀ x,
        withHeader D header (bytes ++ x) =
          .ok (.turn ⟨bytes.drop header.payloadLength.toNat ++ x,none⟩ delivered) := by
  by_cases short : bytes.length < header.payloadLength.toNat
  · exact Or.inl ⟨short,if_pos short⟩
  · have enough : header.payloadLength.toNat ≤ bytes.length := Nat.not_lt.mp short
    have bound := header.payloadLength.toNat_lt
    have taken : (bytes.take header.payloadLength.toNat).length < 2 ^ 32 := by
      rw [List.length_take]
      omega
    obtain ⟨delivered,ran⟩ := @deliver_ran D ⟨header,_⟩ taken
    refine Or.inr ⟨enough,delivered,?_⟩
    intro x
    rw [withHeader, if_neg (by rw [List.length_append]; omega),
      List.take_append_of_le_length enough, List.drop_append_of_le_length enough, bind_ready ran]
    rfl

/-- Bytes that start with the magic wait for the header to be whole, drop the
    magic of a header that is none, or go on with the header they spell. -/
theorem atMagic_cases (D : Digests) (bytes : List UInt8) :
    (bytes.length < Header.length ∧ atMagic D bytes = .ok (.wait ⟨bytes,none⟩)) ∨
      Header.length ≤ bytes.length ∧
        ((∀ x, atMagic D (bytes ++ x) = .ok (.turn ⟨bytes.drop magicBytes.length ++ x,none⟩ [])) ∨
          ∃ header, ∀ x, atMagic D (bytes ++ x) =
            withHeader D header (bytes.drop Header.length ++ x)) := by
  by_cases short : bytes.length < Header.length
  · exact Or.inl ⟨short,if_pos short⟩
  · have enough : Header.length ≤ bytes.length := Nat.not_lt.mp short
    have four : magicBytes.length ≤ bytes.length := Nat.le_trans (by decide) enough
    have long : ∀ x, ¬ (bytes ++ x).length < Header.length := by
      intro x
      rw [List.length_append]
      omega
    obtain ⟨header,parsed⟩ := header_append enough
    refine Or.inr ⟨enough,?_⟩
    cases header with
    | none =>
      refine Or.inl fun x => ?_
      rw [atMagic, if_neg (long x), parsed x, List.drop_append_of_le_length four]
      rfl
    | some header =>
      refine Or.inr ⟨header,fun x => ?_⟩
      rw [atMagic, if_neg (long x), parsed x, List.drop_append_of_le_length enough]

theorem pass_found {bytes : List UInt8} {i : Nat} (start : headerStartIndexInBytes bytes = some i) :
    pass D ⟨bytes,none⟩ = atMagic D (bytes.drop i) := by
  simp only [pass, start]

theorem pass_missing {bytes : List UInt8} (missing : headerStartIndexInBytes bytes = none) :
    pass D ⟨bytes,none⟩ =
      .ok (.wait ⟨bytes.drop (bytes.length + 1 - magicBytes.length),none⟩) := by
  simp only [pass, missing]
  rfl

/-- Leading bytes in which the magic does not start are of no account. -/
theorem pass_drop {bytes : List UInt8} {k : Nat} (clear : ∀ j < k, ¬ At magicBytes bytes j)
    (few : k ≤ bytes.length + 1 - magicBytes.length) :
    pass D ⟨bytes.drop k,none⟩ = pass D ⟨bytes,none⟩ := by
  have shifted : headerStartIndexInBytes bytes =
      (headerStartIndexInBytes (bytes.drop k)).map (k + ·) := firstIndex_drop magic_some clear
  cases start : headerStartIndexInBytes (bytes.drop k) with
  | none =>
    rw [start, Option.map_none] at shifted
    have count : k + ((bytes.drop k).length + 1 - magicBytes.length) =
        bytes.length + 1 - magicBytes.length := by
      rw [List.length_drop]
      rw [magicBytes_length] at few ⊢
      omega
    rw [pass_missing start, pass_missing shifted, List.drop_drop, count]
  | some i =>
    rw [start, Option.map_some] at shifted
    rw [pass_found start, pass_found shifted, List.drop_drop]

/-- A turn that waits: more input finds what it left as it would have found
    everything. -/
def Waits (D : Digests) (parser parser' : MessageParser) : Prop :=
  ∀ x, pass D (push parser' x) = pass D (push parser x)

/-- A turn that goes on does the same with more input behind it. -/
def Turns (D : Digests) (parser parser' : MessageParser) (delivered : List Message) : Prop :=
  size parser' < size parser ∧ ∀ x, pass D (push parser x) = .ok (.turn (push parser' x) delivered)

theorem pass_pending (D : Digests) (bytes : List UInt8) (header : Header) :
    (∃ parser', pass D ⟨bytes,some header⟩ = .ok (.wait parser') ∧
        Waits D ⟨bytes,some header⟩ parser') ∨
      ∃ parser' delivered, Turns D ⟨bytes,some header⟩ parser' delivered := by
  rcases withHeader_cases D header bytes with ⟨_,wait⟩ | ⟨enough,delivered,turn⟩
  · exact Or.inl ⟨_,wait,fun _ => rfl⟩
  · refine Or.inr ⟨⟨bytes.drop header.payloadLength.toNat,none⟩,delivered,?_,turn⟩
    rw [size_none, size_pending, List.length_drop]
    omega

theorem atMagic_turn (D : Digests) {bytes : List UInt8} (here : At magicBytes bytes 0) :
    (∃ parser', atMagic D bytes = .ok (.wait parser') ∧
        ∀ x, pass D (push parser' x) = atMagic D (bytes ++ x)) ∨
      ∃ parser' delivered, size parser' < 2 * bytes.length ∧
        ∀ x, atMagic D (bytes ++ x) = .ok (.turn (push parser' x) delivered) := by
  rcases atMagic_cases D bytes with ⟨_,wait⟩ | ⟨enough,skip | ⟨header,go⟩⟩
  · refine Or.inl ⟨_,wait,?_⟩
    intro x
    have four := at_fits magic_some here
    have start : headerStartIndexInBytes (bytes ++ x) = some 0 :=
      (firstIndex_some magic_some).mpr
        ⟨(at_append four).mpr here,fun j before => absurd before (Nat.not_lt_zero j)⟩
    exact pass_found start
  · refine Or.inr ⟨⟨bytes.drop magicBytes.length,none⟩,[],?_,skip⟩
    rw [Header.length] at enough
    rw [size_none, List.length_drop, magicBytes_length]
    omega
  · have whole := go []
    rw [List.append_nil, List.append_nil] at whole
    rcases withHeader_cases D header (bytes.drop Header.length) with
      ⟨_,wait⟩ | ⟨fits,delivered,turn⟩
    · exact Or.inl ⟨_,whole.trans wait,fun x => (go x).symm⟩
    · refine Or.inr ⟨⟨(bytes.drop Header.length).drop header.payloadLength.toNat,none⟩,delivered,?_,
        fun x => (go x).trans (turn x)⟩
      rw [Header.length] at enough ⊢
      rw [size_none, List.length_drop, List.length_drop]
      omega

/-- Everything a turn can do. -/
theorem pass_cases (D : Digests) (parser : MessageParser) :
    (∃ parser', pass D parser = .ok (.wait parser') ∧ Waits D parser parser') ∨
      ∃ parser' delivered, Turns D parser parser' delivered := by
  obtain ⟨bytes,header⟩ := parser
  cases header with
  | some header => exact pass_pending D bytes header
  | none =>
    cases start : headerStartIndexInBytes bytes with
    | none =>
      refine Or.inl ⟨_,pass_missing start,?_⟩
      intro x
      have nowhere := (firstIndex_none magic_some).mp start
      have few : bytes.length + 1 - magicBytes.length ≤ bytes.length := by
        rw [magicBytes_length]
        omega
      have clear : ∀ j < bytes.length + 1 - magicBytes.length,
          ¬ At magicBytes (bytes ++ x) j := by
        intro j before
        rw [at_append (by omega)]
        exact nowhere j
      have dropped := pass_drop (D := D) clear (by rw [List.length_append]; omega)
      rw [List.drop_append_of_le_length few] at dropped
      exact dropped
    | some i =>
      obtain ⟨here,_⟩ := (firstIndex_some magic_some).mp start
      have room := at_fits magic_some here
      have first : At magicBytes (bytes.drop i) 0 := (at_drop 0 i).mpr here
      have longer : ∀ x, pass D (push ⟨bytes,none⟩ x) = atMagic D (bytes.drop i ++ x) := by
        intro x
        have found : headerStartIndexInBytes (bytes ++ x) = some i :=
          firstIndex_append magic_some start
        have found := pass_found (D := D) found
        rwa [List.drop_append_of_le_length (by omega)] at found
      rcases atMagic_turn D first with ⟨parser',wait,same⟩ | ⟨parser',delivered,less,turn⟩
      · exact Or.inl ⟨parser',(pass_found start).trans wait,
          fun x => (same x).trans (longer x).symm⟩
      · refine Or.inr ⟨parser',delivered,?_,fun x => (longer x).trans (turn x)⟩
        rw [List.length_drop] at less
        rw [size_none]
        omega

end Turns

/-- A turn that never stops the process, as a plain step. -/
def step (D : Digests) (parser : MessageParser) : Pass MessageParser Message :=
  match pass D parser with
  | .ok step => step
  | .error _ => .wait parser

theorem pass_step (D : Digests) (parser : MessageParser) :
    pass D parser = .ok (step D parser) := by
  have ran : ∃ step, pass D parser = .ok step := by
    rcases pass_cases D parser with ⟨parser',wait,_⟩ | ⟨parser',delivered,_,turn⟩
    · exact ⟨_,wait⟩
    · have here := turn []
      rw [push, List.append_nil] at here
      exact ⟨_,here⟩
  obtain ⟨result,ran⟩ := ran
  rw [step, ran]

theorem step_iff {D : Digests} {parser : MessageParser} {result : Pass MessageParser Message} :
    step D parser = result ↔ pass D parser = .ok result := by
  rw [pass_step, Except.ok.injEq]

theorem push_empty (parser : MessageParser) : push parser [] = parser := by
  rw [push, List.append_nil]

theorem step_turn {D : Digests} {parser parser' : MessageParser} {delivered : List Message}
    (turn : step D parser = .turn parser' delivered) : Turns D parser parser' delivered := by
  rw [step_iff] at turn
  rcases pass_cases D parser with ⟨other,wait,_⟩ | ⟨other,handed,turns⟩
  · rw [turn] at wait
    cases wait
  · have here := turns.2 []
    rw [push_empty, push_empty, turn] at here
    cases here
    exact turns

theorem step_wait {D : Digests} {parser parser' : MessageParser}
    (wait : step D parser = .wait parser') : Waits D parser parser' := by
  rw [step_iff] at wait
  rcases pass_cases D parser with ⟨other,here,waits⟩ | ⟨other,handed,turns⟩
  · rw [wait] at here
    cases here
    exact waits
  · have here := turns.2 []
    rw [push_empty, push_empty, wait] at here
    cases here

/-- The parser is a machine that drains its stream. -/
def machine (D : Digests) : Machine MessageParser UInt8 Message where
  step := step D
  push := push
  size := size
  push_nil := push_empty
  push_push := by
    intro parser a b
    simp only [push, List.append_assoc]
  shrinks := fun _ _ _ turn => (step_turn turn).1
  turn_push := fun _ _ _ x turn => step_iff.mpr ((step_turn turn).2 x)
  wait_push := fun _ _ x wait => by
    rw [step_iff, ← pass_step]
    exact step_wait wait x

theorem turns_loop (D : Digests) (fuel : Nat) (parser : MessageParser) :
    turns D fuel parser = .ok (loop (step D) fuel parser) := by
  induction fuel generalizing parser with
  | zero => rfl
  | succ fuel ih =>
    rw [turns, bind_ready (pass_step D parser), loop]
    cases step D parser with
    | wait parser' => rfl
    | turn parser' delivered =>
      dsimp only
      rw [bind_ready (ih parser')]
      rfl

theorem parseBytes_feed (D : Digests) (parser : MessageParser) (bytes : List UInt8) :
    parseBytes D parser bytes = .ok ((machine D).feed parser bytes) :=
  turns_loop D _ _

theorem parsePieces_feedAll (D : Digests) (parser : MessageParser) (pieces : List (List UInt8)) :
    parsePieces D parser pieces = .ok ((machine D).feedAll parser pieces) := by
  induction pieces generalizing parser with
  | nil => rfl
  | cons piece pieces ih =>
    rw [parsePieces, bind_ready (parseBytes_feed D parser piece)]
    dsimp only
    rw [bind_ready (ih _)]
    rfl

theorem fresh_settled (D : Digests) : Machine.Settled (machine D) fresh := by
  have waits : pass D fresh = .ok (.wait fresh) := rfl
  exact step_iff.mpr waits

theorem parsePieces_flatten (D : Digests) (pieces : List (List UInt8)) :
    parsePieces D fresh pieces = .ok ((machine D).drain ⟨pieces.flatten,none⟩) := by
  rw [parsePieces_feedAll, Machine.feedAll_flatten (fresh_settled D)]
  rfl

/-- Two ways of cutting a stream deliver the same messages and leave the parser
    in the same state. -/
theorem pieces_do_not_matter (D : Digests) (pieces others : List (List UInt8))
    (same : pieces.flatten = others.flatten) :
    ∃ delivered parser, parsePieces D fresh pieces = .ok (delivered, parser) ∧
      parsePieces D fresh others = .ok (delivered, parser) := by
  have left := parsePieces_flatten D pieces
  have right := parsePieces_flatten D others
  rw [same] at left
  exact ⟨_,_,left,right⟩

theorem magic_in_two_pieces :
    ∃ delivered parser,
      parsePieces (Digests.known [] []) fresh [[0x0b,0x11],[],[0x09,0x07,0x76]] =
        .ok (delivered, parser) ∧
      parsePieces (Digests.known [] []) fresh [[0x0b],[0x11,0x09,0x07],[0x76]] =
        .ok (delivered, parser) :=
  pieces_do_not_matter (Digests.known [] []) [[0x0b,0x11],[],[0x09,0x07,0x76]]
    [[0x0b],[0x11,0x09,0x07],[0x76]] rfl

/-- The turns of the loop, up to the one that returns. -/
inductive Ends (D : Digests) : MessageParser → List Message → MessageParser → Prop where
  | wait {parser rest : MessageParser} (last : pass D parser = .ok (.wait rest)) :
      Ends D parser [] rest
  | turn {parser next rest : MessageParser} {delivered later : List Message}
      (first : pass D parser = .ok (.turn next delivered)) (tail : Ends D next later rest) :
      Ends D parser (delivered ++ later) rest

/-- Nothing is left that a turn could use: no header is whole, and no payload. -/
def Tight (parser : MessageParser) : Prop :=
  match parser.receivedHeader with
  | none =>
    parser.receivedBytes.length ≤ 3 ∧ headerStartIndexInBytes parser.receivedBytes = none ∨
      magicBytes <+: parser.receivedBytes ∧ parser.receivedBytes.length < Header.length
  | some header => parser.receivedBytes.length < header.payloadLength.toNat

/-- A turn that goes on leaves less behind, so there is a last one. -/
theorem loop_ends (D : Digests) (parser : MessageParser) :
    Ends D parser ((machine D).drain parser).1 ((machine D).drain parser).2 := by
  induction n : size parser using Nat.strongRecOn generalizing parser with
  | ind n ih =>
    cases go : step D parser with
    | wait rest =>
      rw [Machine.drain_wait (M := machine D) go]
      exact Ends.wait (step_iff.mp go)
    | turn next delivered =>
      have less := (step_turn go).1
      rw [Machine.drain_turn (M := machine D) go]
      exact Ends.turn (step_iff.mp go) (ih (size next) (by omega) next rfl)

theorem waits_tight {D : Digests} {parser : MessageParser}
    (waits : pass D parser = .ok (.wait parser)) : Tight parser := by
  obtain ⟨bytes,header⟩ := parser
  cases header with
  | some header =>
    rcases withHeader_cases D header bytes with ⟨short,_⟩ | ⟨_,delivered,turn⟩
    · exact short
    · have here := turn []
      rw [List.append_nil] at here
      cases here.symm.trans waits
  | none =>
    cases start : headerStartIndexInBytes bytes with
    | none =>
      rw [pass_missing start] at waits
      have same := congrArg List.length (congrArg MessageParser.receivedBytes
        (Pass.wait.inj (Except.ok.inj waits)))
      rw [List.length_drop, magicBytes_length] at same
      exact Or.inl ⟨by omega,start⟩
    | some i =>
      obtain ⟨here,_⟩ := (firstIndex_some magic_some).mp start
      rw [pass_found start] at waits
      rcases atMagic_cases D (bytes.drop i) with ⟨short,wait⟩ | ⟨_,skip | ⟨header,go⟩⟩
      · have same : bytes.drop i = bytes := congrArg MessageParser.receivedBytes
          (Pass.wait.inj (Except.ok.inj (wait.symm.trans waits)))
        rw [At, same] at here
        rw [same] at short
        exact Or.inr ⟨here,short⟩
      · have next := skip []
        rw [List.append_nil] at next
        cases next.symm.trans waits
      · have whole := go []
        rw [List.append_nil, List.append_nil] at whole
        rcases withHeader_cases D header ((bytes.drop i).drop Header.length) with
          ⟨_,wait⟩ | ⟨_,delivered,turn⟩
        · -- A header was read, so one is pending.
          have left := Pass.wait.inj (Except.ok.inj ((whole.trans wait).symm.trans waits))
          cases congrArg MessageParser.receivedHeader left
        · have next := turn []
          rw [List.append_nil] at next
          cases (whole.trans next).symm.trans waits

/-- From any state and on any bytes the loop comes to its end, and leaves nothing it could have
    used. -/
theorem loop_ends_tight (D : Digests) (parser : MessageParser) (bytes : List UInt8) :
    ∃ delivered rest, Ends D (push parser bytes) delivered rest ∧
      parseBytes D parser bytes = .ok (delivered, rest) ∧ Tight rest := by
  have settled := Machine.drain_settled (M := machine D) (push parser bytes)
  exact ⟨_,_,loop_ends D (push parser bytes),parseBytes_feed D parser bytes,
    waits_tight (step_iff.mp settled)⟩

/-- A message the wallet can send on the parser's network. -/
def WellFormed (D : Digests) (message : Message) : Prop :=
  ∃ command payload, Message.create D magicBytes command payload = .ok message

/-- Bytes in front of the first message, which starts at the first magic. With
    no message there is nothing to be in front of. -/
def JunkBefore (junk : List UInt8) : List Message → Prop
  | [] => junk = []
  | message :: _ => ∀ i < junk.length, ¬ At magicBytes (junk ++ message.bitcoinData) i

theorem bitcoinData_long {D : Digests} {message : Message} (wellFormed : WellFormed D message) :
    Header.length ≤ message.bitcoinData.length := by
  obtain ⟨command,payload,made⟩ := wellFormed
  obtain ⟨_,_,network,_⟩ := create_ok made
  have header := header_bitcoinData_length message.header (by rw [network]; rfl)
  rw [Message.bitcoinData, List.length_append, header]
  omega

/-- A whole message is taken off the front of the stream. -/
theorem pass_message {D : Digests} {message : Message} (wellFormed : WellFormed D message)
    (rest : List UInt8) :
    pass D ⟨message.bitcoinData ++ rest,none⟩ = .ok (.turn ⟨rest,none⟩ [message]) := by
  have long := bitcoinData_long wellFormed
  obtain ⟨command,payload,made⟩ := wellFormed
  obtain ⟨short,rfl,network,_,length,valid⟩ := create_ok made
  have four : message.header.network.length = 4 := by rw [network]; rfl
  have start : headerStartIndexInBytes (message.bitcoinData ++ rest) = some 0 := by
    refine (firstIndex_some magic_some).mpr ⟨?_,fun j before => absurd before (Nat.not_lt_zero j)⟩
    rw [At, List.drop_zero, Message.bitcoinData, Header.bitcoinData, network]
    simp only [List.append_assoc]
    exact List.prefix_append _ _
  have header := header_bitcoinData_length message.header four
  have parsed := reads_header message.header four (message.payload ++ rest)
  have tail : (message.bitcoinData ++ rest).drop Header.length = message.payload ++ rest := by
    rw [Message.bitcoinData, List.append_assoc, List.drop_left' header]
  have handed : deliver D message = .ok [message] := by
    rw [deliver, if_pos network, bind_ready valid]
    rfl
  rw [pass_found start, List.drop_zero, atMagic, if_neg (by rw [List.length_append]; omega), tail,
    Message.bitcoinData, List.append_assoc, parsed]
  dsimp only
  rw [withHeader, length, if_neg (by rw [List.length_append]; omega), List.take_left,
    List.drop_left, bind_ready handed]
  rfl

theorem drain_messages {D : Digests} {messages : List Message}
    (wellFormed : ∀ message ∈ messages, WellFormed D message) :
    (machine D).drain ⟨messages.flatMap Message.bitcoinData,none⟩ = (messages, fresh) := by
  induction messages with
  | nil => exact Machine.drain_wait (fresh_settled D)
  | cons message messages ih =>
    have first := pass_message (wellFormed message (by simp))
      (messages.flatMap Message.bitcoinData)
    have later := ih (fun other mem => wellFormed other (List.mem_cons_of_mem message mem))
    rw [List.flatMap_cons, Machine.drain_turn (M := machine D) (step_iff.mpr first), later]
    rfl

/-- A stream of messages behind some junk: each is delivered once, in order, and
    the parser is as fresh as before. -/
theorem messages_delivered (D : Digests) (junk : List UInt8) (messages : List Message)
    (pieces : List (List UInt8)) (wellFormed : ∀ message ∈ messages, WellFormed D message)
    (clear : JunkBefore junk messages)
    (stream : pieces.flatten = junk ++ messages.flatMap Message.bitcoinData) :
    parsePieces D fresh pieces = .ok (messages, fresh) := by
  rw [parsePieces_flatten, stream, Except.ok.injEq]
  cases messages with
  | nil =>
    rw [show junk = [] from clear]
    exact drain_messages wellFormed
  | cons message messages =>
    have long := bitcoinData_long (wellFormed message (by simp))
    rw [Header.length] at long
    have ahead : ∀ i < junk.length,
        ¬ At magicBytes (junk ++ (message :: messages).flatMap Message.bitcoinData) i := by
      intro i before
      rw [List.flatMap_cons, ← List.append_assoc,
        at_append (by rw [List.length_append, magicBytes_length]; omega)]
      exact clear i before
    have dropped := pass_drop (D := D) ahead (by
      rw [List.flatMap_cons, List.length_append, List.length_append, magicBytes_length]
      omega)
    rw [List.drop_left, pass_step, pass_step, Except.ok.injEq] at dropped
    rw [← Machine.drain_congr (M := machine D) dropped]
    exact drain_messages wellFormed

/-- A ping whose payload is the magic itself, and a message without payload. -/
def magicPing : Message :=
  { header := { network := magicBytes, command := .Ping, payloadLength := 4, payloadChecksum := 0 },
    payload := magicBytes }

def emptyVersionAck : Message :=
  { header := { network := magicBytes, command := .VersionAck, payloadLength := 0,
                payloadChecksum := 0 },
    payload := [] }

theorem ping_delivered :
    parsePieces (Digests.known [] []) fresh
        [[0x0b,0x11], magicPing.bitcoinData ++ emptyVersionAck.bitcoinData] =
      .ok ([magicPing,emptyVersionAck], fresh) := by
  refine messages_delivered (Digests.known [] []) [0x0b,0x11] [magicPing,emptyVersionAck]
    [[0x0b,0x11], magicPing.bitcoinData ++ emptyVersionAck.bitcoinData] ?_ ?_ rfl
  · intro message mem
    have known : message = magicPing ∨ message = emptyVersionAck := by simpa using mem
    rcases known with rfl | rfl
    · exact ⟨.Ping,magicBytes,rfl⟩
    · exact ⟨.VersionAck,[],rfl⟩
  · unfold JunkBefore At
    decide

end PeerStream
