import AltMessenger.PeerStream

/-!
Two decoders of one message: the whole message out of a stream, whose payload is all that is left
behind the header, and the parser, which goes by the length in the header and hands on what is on
its own network.
-/
namespace MessageStreams
open ByteReader SwiftRuntime BitcoinStream BitcoinHash BitcoinMessage PeerStream

/-- `read(_:maxLength:)`: what there is, up to that many bytes. -/
def read (maxLength : Nat) : Stream (List UInt8) := fun bs =>
  .ok (bs.take maxLength) (bs.drop maxLength)

/-- `while hasBytesAvailable`, for at most this many turns. -/
def readBlocks : Nat → Stream (List UInt8)
  | 0 => pure []
  | turns + 1 => do
    let available ← hasBytesAvailable
    if available then do
      let subArray ← read 256
      if subArray.length = 0 then fail
      else do
        let data ← readBlocks turns
        pure (subArray ++ data)
    else pure []

/-- `readData()` -/
def readAll : Stream (List UInt8) := fun bs => readBlocks bs.length bs

/-- `Message.fromBitcoinStream`; a message without a payload is refused. -/
def Message.fromBitcoinStream : Stream Message := do
  let header ← Header.fromBitcoinStream
  let payloadData ← readAll
  if payloadData.length = 0 then fail else pure { header, payload := payloadData }

/-- Both decoders make the same of a message's bytes: that message. -/
def Agree (D : Digests) (message : Message) : Prop :=
  (∃ rest, Message.fromBitcoinStream message.bitcoinData = .ok message rest) ∧
    ∃ parser, parseBytes D fresh message.bitcoinData = .ok ([message],parser)

/-- A turn for each byte is enough, and the blocks together are all there was. -/
theorem readBlocks_enough {turns : Nat} {bs : List UInt8} (enough : bs.length ≤ turns) :
    readBlocks turns bs = .ok bs [] := by
  induction turns generalizing bs with
  | zero =>
    rw [List.length_eq_zero_iff.mp (Nat.le_zero.mp enough)]
    rfl
  | succ turns ih =>
    cases bs with
    | nil => rfl
    | cons byte bs =>
      have block : read 256 (byte :: bs) =
          .ok ((byte :: bs).take 256) ((byte :: bs).drop 256) := rfl
      have some : ¬ ((byte :: bs).take 256).length = 0 := by simp
      have later := @ih ((byte :: bs).drop 256) (by
        rw [List.length_drop]
        rw [List.length_cons] at enough ⊢
        omega)
      rw [readBlocks, bind_ok (hasBytesAvailable_apply (byte :: bs)), if_pos (by rfl),
        bind_ok block, if_neg some, bind_ok later, pure_apply, List.take_append_drop]

theorem readAll_eq (bs : List UInt8) : readAll bs = readData 0 bs := readBlocks_enough (le_refl _)

theorem stream_read {message : Message} (network : message.header.network.length = 4)
    (some : message.payload ≠ []) :
    Message.fromBitcoinStream message.bitcoinData = .ok message [] := by
  have header := reads_header message.header network message.payload
  have all : readAll message.payload = .ok message.payload [] := readAll_eq message.payload
  have positive : ¬ message.payload.length = 0 := by simpa using some
  rw [Message.fromBitcoinStream, Message.bitcoinData, bind_ok header, bind_ok all, if_neg positive]
  rfl

/-- What comes out of a stream has a payload. -/
theorem payload_read {message : Message} {bytes rest : List UInt8}
    (run : Message.fromBitcoinStream bytes = .ok message rest) : message.payload ≠ [] := by
  obtain ⟨header,mid,-,run⟩ := bind_eq_ok.mp run
  obtain ⟨payloadData,last,-,run⟩ := bind_eq_ok.mp run
  split at run
  · cases run
  · rename_i positive
    cases run
    simpa using positive

section Network
variable {D : Digests} {message : Message} {delivered : List Message}

theorem deliver_network (ran : deliver D message = .ok delivered) :
    ∀ other ∈ delivered, other.header.network = magicBytes := by
  unfold deliver at ran
  split at ran
  · rename_i network
    obtain ⟨valid,-,ran⟩ := bind_ran.mp ran
    cases ran
    intro other mem
    split at mem
    · rw [List.mem_singleton.mp mem, network]
    · cases mem
  · cases ran
    simp

theorem withHeader_network {header : Header} {bytes : List UInt8} {parser : MessageParser}
    (ran : withHeader D header bytes = .ok (.turn parser delivered)) :
    ∀ other ∈ delivered, other.header.network = magicBytes := by
  rw [withHeader] at ran
  split at ran
  · cases ran
  · obtain ⟨handed,first,ran⟩ := bind_ran.mp ran
    cases ran
    exact deliver_network first

/-- A turn hands on nothing of another network. -/
theorem pass_network {parser parser' : MessageParser}
    (ran : PeerStream.pass D parser = .ok (.turn parser' delivered)) :
    ∀ other ∈ delivered, other.header.network = magicBytes := by
  unfold PeerStream.pass at ran
  split at ran
  · exact withHeader_network ran
  · split at ran
    · unfold atMagic at ran
      split at ran
      · cases ran
      · split at ran
        · exact withHeader_network ran
        · cases ran
          simp
        · cases ran
    · cases ran

/-- Nor does any number of turns. -/
theorem turns_network (fuel : Nat) {parser parser' : MessageParser}
    (ran : turns D fuel parser = .ok (delivered,parser')) :
    ∀ other ∈ delivered, other.header.network = magicBytes := by
  induction fuel generalizing parser delivered with
  | zero =>
    cases ran
    simp
  | succ fuel ih =>
    obtain ⟨step,first,ran⟩ := bind_ran.mp ran
    cases step with
    | wait parser =>
      cases ran
      simp
    | turn mid handed =>
      obtain ⟨⟨later,last⟩,second,ran⟩ := bind_ran.mp ran
      cases ran
      intro other mem
      rcases List.mem_append.mp mem with now | afterwards
      · exact pass_network first other now
      · exact ih second other afterwards

end Network

/-- The decoders agree on the messages of the parser's network that have a payload. -/
theorem stream_and_parser_agree_iff {D : Digests} {network payload : List UInt8} {command : Command}
    {message : Message} (made : Message.create D network command payload = .ok message) :
    Agree D message ↔ network = magicBytes ∧ payload ≠ [] := by
  obtain ⟨-,same,header,-⟩ := create_ok made
  subst same
  subst header
  constructor
  · rintro ⟨⟨rest,run⟩,parser,delivered⟩
    exact ⟨turns_network _ delivered message (by simp),payload_read run⟩
  · rintro ⟨network,some⟩
    have wellFormed : WellFormed D message := ⟨command,message.payload,network ▸ made⟩
    refine ⟨⟨[],stream_read (by rw [network]; rfl) some⟩,fresh,?_⟩
    have drained := @drain_messages D [message] (by simpa using wellFormed)
    rw [List.flatMap_singleton] at drained
    rw [parseBytes_feed, Except.ok.injEq]
    exact drained

theorem ping_agreed : Agree (Digests.known [] []) magicPing :=
  (@stream_and_parser_agree_iff (Digests.known [] []) magicBytes magicBytes .Ping magicPing rfl).mpr
    ⟨rfl,by decide⟩

/-- The parser delivers a message without payload, and the stream refuses it. -/
theorem empty_payload_refused :
    Message.create (Digests.known [] []) magicBytes .VersionAck [] = .ok emptyVersionAck ∧
      Message.fromBitcoinStream emptyVersionAck.bitcoinData = .fail ∧
        parseBytes (Digests.known [] []) fresh emptyVersionAck.bitcoinData =
          .ok ([emptyVersionAck],fresh) := by
  refine ⟨rfl,by decide,?_⟩
  rfl

end MessageStreams
