import AltMessenger.ReaderFaults
import AltMessenger.PeerMessages

/-!
What a peer can do with a payload. The connection hands each payload to the
decoder of its command; the layouts below are the payloads that stop the wallet.
Most of them end where a hash is due, for a hash is read from however many bytes
are left, and none at all are refused by an assertion and not by the reader.
-/
namespace PayloadSafety
open ByteReader ReaderFaults SwiftRuntime LittleEndian BitcoinStream BitcoinHash BitcoinTransaction
open BitcoinMessage MerkleTree Bip37 MerkleProof PeerMessages

inductive PeerConnectionMessage where
  | GetHeadersMessage : LocatorMessage → PeerConnectionMessage
  | HeadersMessage : PeerMessages.HeadersMessage → PeerConnectionMessage
  | InventoryMessage : VectorsMessage → PeerConnectionMessage
  | MerkleBlockMessage : PeerMessages.MerkleBlockMessage → PeerConnectionMessage
  | TransactionMessage : Transaction → PeerConnectionMessage
  | GetDataMessage : VectorsMessage → PeerConnectionMessage
  | RejectMessage : PeerMessages.RejectMessage → PeerConnectionMessage
  | AddressMessage : PeerAddressMessage → PeerConnectionMessage
  | PingMessage : PeerMessages.PingMessage → PeerConnectionMessage

/-- What comes of a payload: the version is kept, other messages are passed on,
    and a command that is only printed leaves its payload unread. -/
inductive Parsed where
  | peerVersion : VersionMessage → Parsed
  | delivered : PeerConnectionMessage → Parsed
  | unread : Parsed

/-- The decoding in `didParseMessage`. -/
def didParseMessage (D : Digests) : Command → Stream Parsed
  | .Version => do
    let versionMessage ← VersionMessage.fromBitcoinStream
    pure (.peerVersion versionMessage)
  | .Ping => do
    let pingMsg ← PingMessage.fromBitcoinStream
    pure (.delivered (.PingMessage pingMsg))
  | .Address => do
    let addressMsg ← PeerAddressMessage.fromBitcoinStream
    pure (.delivered (.AddressMessage addressMsg))
  | .GetHeaders => do
    let getHeadersMessage ← GetHeadersMessage.fromBitcoinStream
    pure (.delivered (.GetHeadersMessage getHeadersMessage))
  | .Headers => do
    let headersMessage ← HeadersMessage.fromBitcoinStream
    pure (.delivered (.HeadersMessage headersMessage))
  | .Transaction => do
    let transactionMessage ← Transaction.fromBitcoinStream
    pure (.delivered (.TransactionMessage transactionMessage))
  | .Inventory => do
    let inventoryMessage ← InventoryMessage.fromBitcoinStream
    pure (.delivered (.InventoryMessage inventoryMessage))
  | .GetData => do
    let getDataMessage ← GetDataMessage.fromBitcoinStream
    pure (.delivered (.GetDataMessage getDataMessage))
  | .MerkleBlock => do
    let merkleBlockMessage ← MerkleBlockMessage.fromBitcoinStream D
    pure (.delivered (.MerkleBlockMessage merkleBlockMessage))
  | .Reject => do
    let rejectMessage ← RejectMessage.fromBitcoinStream
    pure (.delivered (.RejectMessage rejectMessage))
  | .VersionAck | .Pong | .FilterLoad | .MemPool | .GetBlocks | .GetAddress => pure .unread

section Layouts

def Empty : Layout := fun bytes => bytes = []

/-- An integer, and what that many of something look like. -/
def Counted (Body : UInt64 → Layout) : Layout := fun bytes =>
  ∃ count, Joined (Spells count) (Body count) bytes

/-- A length that no `Int` holds. -/
def Long : Layout := Counted fun length _ => 2 ^ 63 ≤ length.toNat

def KnownType : Layout := fun bytes =>
  ∃ type : VectorType, bytes = appendUInt32 type.rawValue .LittleEndian

def WholeVector : Layout := Joined KnownType (Sized 32)

def WholeHeader : Layout := Joined (Sized 80) (Spells 0)

/-- A header that ends where one of its two hashes is due. -/
def BrokenHeader : Layout := fun bytes => bytes.length = 4 ∨ bytes.length = 36

def WholeInput : Layout := Joined (Sized 36)
  (Counted fun length bytes => length.toNat < 2 ^ 63 ∧ Sized (length.toNat + 4) bytes)

def BrokenInput : Layout := fun bytes => Empty bytes ∨ Joined (Sized 36) Long bytes

/-- An output whose script is empty takes everything behind it, and is left out. -/
def WholeOutput : Layout := Joined (Sized 8)
  (Counted fun length bytes => length.toNat < 2 ^ 63 ∧ length ≠ 0 ∧ Sized length.toNat bytes)

def BrokenOutput : Layout := Joined (Sized 8) Long

def KnownCommand : Layout := Counted fun length name =>
  length.toNat < 2 ^ 63 ∧ Sized length.toNat name ∧
    ∃ command, (asciiString (withoutPadding name)).bind Command.ofRawValue = some command

def KnownCode : Layout := fun bytes => ∃ code : RejectCode, bytes = [code.rawValue]

/-- Flag bytes from which the tree cannot be rebuilt: there are no leaves, or the
    bits end on one that opens a node while a hash is left. -/
def BrokenFlags (totalLeafNodes : UInt32) (hashesCount : UInt64) : Layout := fun flags =>
  totalLeafNodes = 0 ∨
    opensAtEnd [treeHeight totalLeafNodes.toNat] false (unpackBits flags) hashesCount.toNat = true

def BrokenTree : Layout := fun bytes => ∃ totalLeafNodes : UInt32,
  Joined (fun front => front = appendUInt32 totalLeafNodes .LittleEndian)
    (Counted fun hashesCount body => Within (Sized 32) Empty hashesCount.toNat body ∨
      Joined (Repeated (Sized 32) hashesCount.toNat)
        (Counted fun flagBytesCount => Joined
          (fun flags => Sized flagBytesCount.toNat flags ∧
            BrokenFlags totalLeafNodes hashesCount flags) Anything) body) bytes

/-- The payloads that stop the wallet. -/
def Harmful : Command → Layout
  | .Version => Joined (Sized 80) Long
  | .GetHeaders => Joined (Sized 4) (Counted fun hashCount hashes =>
      Within (Sized 32) Empty (hashCount.toNat + 1) hashes ∨
        (hashCount = 0 ∧ 32 ≤ hashes.length))
  | .Headers => Counted fun count => Within WholeHeader BrokenHeader count.toNat
  | .Transaction => Joined (Sized 4) (Counted fun inputCount body =>
      Within WholeInput BrokenInput inputCount.toNat body ∨
        (inputCount ≠ 0 ∧ Joined (Repeated WholeInput inputCount.toNat)
          (Counted fun outputCount => Within WholeOutput BrokenOutput outputCount.toNat) body))
  | .Inventory | .GetData => Counted fun inventoryCount vectors =>
      inventoryCount ≤ 50000 ∧ Within WholeVector KnownType inventoryCount.toNat vectors
  | .MerkleBlock => fun payload => BrokenHeader payload ∨ Joined (Sized 80) BrokenTree payload
  | .Reject => fun payload => Long payload ∨ Joined KnownCommand (Joined KnownCode Long) payload
  | .Ping | .Address | .VersionAck | .Pong | .FilterLoad | .MemPool | .GetBlocks | .GetAddress =>
      fun _ => False

end Layouts

section Fields

variable {α β : Type}

theorem safe_buffer (size : Nat) : Safe (readBuffer size) := by
  rintro bs ⟨trap,run⟩
  rw [readBuffer] at run
  split at run <;> cases run

theorem fixed_word (width : Nat) (f : List UInt8 → α) :
    Fixed (do let buf ← readBuffer width; pure (f buf) : Stream α) width := by
  constructor
  · exact safe_bind (safe_buffer width) (fun _ => safe_pure _)
  · refine cuts_map ?_
    intro bs mid _
    constructor
    · rintro ⟨buf,run⟩
      obtain ⟨rfl,size⟩ := readBuffer_ok.mp run
      exact ⟨buf,size,rfl⟩
    · rintro ⟨buf,size,rfl⟩
      exact ⟨buf,readBuffer_ok.mpr ⟨rfl,size⟩⟩

theorem fixed_uint8 : Fixed readUInt8 1 := by
  constructor
  · rintro bs ⟨trap,run⟩
    cases bs <;> cases run
  · intro bs mid _
    constructor
    · rintro ⟨byte,run⟩
      cases bs with
      | nil => cases run
      | cons b rest =>
        cases run
        exact ⟨[byte],rfl,rfl⟩
    · rintro ⟨chunk,size,rfl⟩
      obtain ⟨byte,rfl⟩ := List.length_eq_one_iff.mp size
      exact ⟨byte,rfl⟩

theorem fixed_uint16 (e : Endianness) : Fixed (readUInt16 e) 2 := fixed_word 2 _

theorem fixed_uint32 (e : Endianness) : Fixed (readUInt32 e) 4 := fixed_word 4 _

theorem fixed_uint64 (e : Endianness) : Fixed (readUInt64 e) 8 := fixed_word 8 _

theorem fixed_int64 (e : Endianness) : Fixed (readInt64 e) 8 := fixed_word 8 _

theorem fixed_date : Fixed readDateFrom32BitUnixTimestamp 4 :=
  fixed_bind (fixed_uint32 .LittleEndian) (fun _ => fixed_pure _)

theorem takes_uint32 : Takes (readUInt32 .LittleEndian)
    (fun raw bytes => bytes = appendUInt32 raw .LittleEndian) :=
  takes_exact (fun raw => reads_uint32 raw .LittleEndian) (spelled_uint32 .LittleEndian)

theorem toNat_ne_zero {count : UInt64} (some : count ≠ 0) : count.toNat ≠ 0 := by
  intro zero
  exact some (UInt64.toNat_inj.mp zero)

theorem safe_found (a : Option α) : Safe (found a) := by
  cases a with
  | none => exact safe_fail
  | some a => exact safe_pure a

theorem takes_found (known : Option α) :
    Takes (found known) (fun a bytes => known = some a ∧ bytes = []) := by
  intro bs a mid
  constructor
  · intro run
    cases known with
    | none => cases run
    | some b =>
      cases run
      exact ⟨[],⟨rfl,rfl⟩,rfl⟩
  · rintro ⟨_,⟨rfl,rfl⟩,rfl⟩
    rfl

theorem takes_varint : Takes readVarInt Spells := by
  intro bs value mid
  constructor
  · exact varint_spelled
  · rintro ⟨front,spells,rfl⟩
    exact reads_spelling spells mid

theorem safe_varint : Safe readVarInt := by
  refine safe_bind fixed_uint8.safe ?_
  intro header
  split
  · exact safe_pure _
  · split
    · exact safe_bind (fixed_uint16 _).safe (fun _ => safe_pure _)
    · split
      · exact safe_bind (fixed_uint32 _).safe (fun _ => safe_pure _)
      · exact (fixed_uint64 _).safe

theorem faults_counted {f : UInt64 → Stream α} {Bad : UInt64 → Layout}
    (later : ∀ count bs, Faults (f count) bs ↔ Bad count bs) (bs : List UInt8) :
    Faults (readVarInt >>= f) bs ↔ Counted Bad bs := takes_varint.faults safe_varint later bs

theorem faults_length {length : UInt64} {f : Nat → Stream α} (safe : ∀ count, Safe (f count))
    (bs : List UInt8) : Faults (readLength length >>= f) bs ↔ 2 ^ 63 ≤ length.toNat := by
  rw [faults_then (fun count _ _ => safe count), readLength]
  split
  · rename_i fits
    exact iff_of_false (safe_pure _ bs) (Nat.not_le.mpr fits)
  · rename_i long
    exact iff_of_true ⟨_,rfl⟩ (Nat.not_lt.mp long)

theorem cuts_length {Left Whole : Layout} {length : UInt64} {f : Nat → Stream α}
    (cuts : Cuts Left (f length.toNat) Whole) :
    Cuts Left (readLength length >>= f) (fun bytes => length.toNat < 2 ^ 63 ∧ Whole bytes) := by
  intro bs mid left
  by_cases fits : length.toNat < 2 ^ 63
  · rw [readLength, if_pos fits, bind_ok (pure_apply length.toNat bs), cuts bs mid left]
    simp only [fits, true_and]
  · have trapped : ∀ a, ¬ (readLength length >>= f) bs = .ok a mid := by
      intro a run
      obtain ⟨count,rest,first,_⟩ := bind_eq_ok.mp run
      rw [readLength, if_neg fits] at first
      cases first
    constructor
    · rintro ⟨a,run⟩
      exact absurd run (trapped a)
    · rintro ⟨_,⟨short,_⟩,_⟩
      exact absurd short fits

theorem safe_available : Safe hasBytesAvailable := by
  rintro bs ⟨trap,run⟩
  cases run

theorem safe_passes (passes length : Nat) : Safe (readPasses passes length) := by
  induction passes generalizing length with
  | zero => exact safe_pure []
  | succ passes ih =>
    refine safe_bind safe_available ?_
    intro available
    split
    · exact safe_bind (safe_buffer _) (fun _ => safe_bind (ih _) (fun _ => safe_pure _))
    · exact safe_pure []

theorem safe_data (count : Nat) : Safe (readData count) := by
  rw [readData]
  split
  · rintro bs ⟨trap,run⟩
    cases run
  · exact safe_passes count count

/-- What lies in front of something unread has been read whole. -/
theorem cuts_data {count : Nat} (some : count ≠ 0) :
    Cuts (· ≠ []) (readData count) (Sized count) := by
  intro bs mid more
  constructor
  · rintro ⟨data,run⟩
    obtain ⟨rfl,whole | dry⟩ := readData_ok run
    · exact ⟨data,whole,rfl⟩
    · exact absurd dry more
  · rintro ⟨data,rfl,rfl⟩
    exact ⟨data,reads_data data (by rintro rfl; exact some rfl) mid⟩

/-- A field read in one pass is read whole, once there is something to read. -/
theorem readData_once {count : Nat} {bs : List UInt8} (some : count ≠ 0) (few : count ≤ 256)
    (more : bs ≠ []) : readData count bs = readBuffer count bs := by
  obtain ⟨passes,rfl⟩ := Nat.exists_eq_succ_of_ne_zero some
  have go : ¬ (bs = [] ∨ passes.succ = 0) := by simp [more]
  rw [readData, if_neg some, readPasses_go go, Nat.min_eq_left few, Nat.sub_self]
  cases first : readBuffer passes.succ bs with
  | trap e => rw [bind_trap first]
  | fail => rw [bind_fail first]
  | ok buf rest =>
    rw [bind_ok first, bind_ok (readPasses_stop (Or.inr rfl)), List.append_nil]
    rfl

theorem faults_hash (bs : List UInt8) : Faults (HashOf.fromBitcoinStream 32) bs ↔ Empty bs := by
  constructor
  · intro fault
    by_contra more
    obtain ⟨trap,run⟩ | ⟨data,mid,run,fault⟩ := faults_bind.mp fault
    · exact safe_data 32 bs ⟨trap,run⟩
    · rw [readData_once (by decide) (by decide) more] at run
      have length := (readBuffer_ok.mp run).2
      rw [← List.length_reverse] at length
      exact faults_lift.mp fault ⟨_,dif_pos length⟩
  · rintro rfl
    exact ⟨.assertion,rfl⟩

theorem cuts_hash : Cuts Anything (HashOf.fromBitcoinStream 32) (Sized 32) := by
  intro bs mid _
  constructor
  · rintro ⟨hash,run⟩
    exact ⟨hash.bitcoinData,bitcoinData_length hash,(spelled_hash 32).exact run⟩
  · rintro ⟨chunk,size,rfl⟩
    have read := reads_hash (by decide) (⟨chunk.reverse,by rw [List.length_reverse]; exact size⟩ :
      SHA256Hash) mid
    rw [HashOf.bitcoinData, List.reverse_reverse] at read
    exact ⟨_,read⟩

theorem cuts_hashes (count : Nat) :
    Cuts Anything (readMany (HashOf.fromBitcoinStream 32) count) (Repeated (Sized 32) count) :=
  cuts_many (fun _ _ _ => trivial) cuts_hash count

/-- Hashes one behind the other, which end early where the next is due. -/
theorem faults_hashes (count : Nat) (bs : List UInt8) :
    Faults (readMany (HashOf.fromBitcoinStream 32) count) bs ↔
      Within (Sized 32) Empty count bs :=
  faults_many (fun _ _ _ => trivial) cuts_hash faults_hash (fun _ _ => trivial) count bs

end Fields

section Decoders

theorem faults_varString (bs : List UInt8) : Faults readVarString bs ↔ Long bs := by
  refine faults_counted ?_ bs
  intro length
  exact faults_length (fun count => safe_bind (safe_buffer count) (fun _ => safe_found _))

theorem fixed_ip : Fixed IPAddress.fromBitcoinStream 16 := by
  refine fixed_bind (n := 12) (fixed_uint32 _) (fun word0 => fixed_bind (n := 8) (fixed_uint32 _)
    (fun word1 => fixed_bind (n := 4) (fixed_uint32 _) (fun word2 => fixed_bind (n := 0)
      (fixed_uint32 _) ?_)))
  intro word3
  split
  · exact fixed_pure _
  · exact fixed_pure _

theorem fixed_fields (timestamp : Option Rat) : Fixed (PeerAddress.readFields timestamp) 26 :=
  fixed_bind (fixed_uint64 _) (fun _ => fixed_bind fixed_ip (fun _ =>
    fixed_bind (fixed_uint16 _) (fun _ => fixed_pure _)))

theorem fixed_address : Fixed (PeerAddress.fromBitcoinStream true) 30 :=
  fixed_bind fixed_date (fun _ => fixed_fields _)

theorem safe_int32 : Safe (readInt32 .LittleEndian) :=
  safe_bind (fixed_uint32 _).safe (fun _ => safe_pure _)

theorem safe_bool : Safe readBool := safe_bind fixed_uint8.safe (fun _ => safe_pure _)

theorem faults_version (bs : List UInt8) :
    Faults VersionMessage.fromBitcoinStream bs ↔ Joined (Sized 80) Long bs := by
  have agent : ∀ (make : List Char → Int32 → Bool → VersionMessage) bs, Faults (do
      let userAgent ← readVarString
      let blockStartHeight ← readInt32 .LittleEndian
      let announceRelayedTransactions ← readBool
      pure (make userAgent blockStartHeight announceRelayedTransactions) : Stream VersionMessage)
      bs ↔ Long bs := by
    intro make bs
    rw [faults_then (fun userAgent _ _ => safe_bind safe_int32 (fun _ => safe_bind safe_bool
      (fun _ => safe_pure _))), faults_varString]
  refine faults_fixed (n := 76) (fixed_uint32 _) (fun _ => faults_fixed (n := 68) (fixed_uint64 _)
    (fun _ => faults_fixed (n := 60) (fixed_uint64 _) (fun _ => faults_fixed (n := 34)
      (fixed_fields none) (fun _ => faults_fixed (n := 8) (fixed_fields none)
        (fun _ => faults_behind (fixed_uint64 _).safe (fixed_uint64 _).cuts ?_))))) bs
  intro nonce bs
  exact agent _ bs

theorem safe_ping : Safe PingMessage.fromBitcoinStream :=
  safe_bind (fixed_uint64 _).safe (fun _ => safe_pure _)

theorem safe_addresses : Safe PeerAddressMessage.fromBitcoinStream := by
  refine safe_bind safe_varint ?_
  intro count
  split
  · exact safe_fail
  rename_i some
  split
  · exact safe_fail
  · rename_i few
    intro bs fault
    rw [faults_then] at fault
    · exact (fixed_many fixed_address count.toNat).safe bs fault
    · intro peerAddresses mid run
      have length := many_length run
      have counted : 0 < peerAddresses.length ∧ peerAddresses.length ≤ 1000 := by
        rw [UInt64.lt_iff_toNat_lt, Nat.not_lt] at few
        have positive := toNat_ne_zero some
        rw [length]
        exact ⟨Nat.pos_of_ne_zero positive,few⟩
      exact safe_lift (show PeerAddressMessage.create peerAddresses = _ from dif_pos counted)

/-- The list of locators and the stop hash behind it. -/
theorem faults_locators (protocolVersion : UInt32) (hashCount : UInt64) (bs : List UInt8) :
    Faults (do
      let blockLocatorHashes ← readMany (HashOf.fromBitcoinStream 32) hashCount.toNat
      let blockHashStop ← HashOf.fromBitcoinStream 32
      lift (LocatorMessage.create protocolVersion blockLocatorHashes
        (if blockHashStop = zeroHash then none else some blockHashStop)) : Stream LocatorMessage)
      bs ↔ Within (Sized 32) Empty (hashCount.toNat + 1) bs ∨ (hashCount = 0 ∧ 32 ≤ bs.length) := by
  have made : ∀ (hashes : List SHA256Hash) stop bs, hashes.length = hashCount.toNat →
      (Faults (lift (LocatorMessage.create protocolVersion hashes stop)) bs ↔ hashCount = 0) := by
    intro hashes stop bs length
    have none : hashCount = 0 ↔ hashes.length = 0 := by
      rw [← UInt64.toNat_inj, length]
      rfl
    rw [faults_lift, LocatorMessage.create, none]
    by_cases located : 0 < hashes.length
    · simp [located, Nat.ne_of_gt located]
    · simp [Nat.le_zero.mp (Nat.not_lt.mp located)]
  have stop : ∀ bs hashes mid,
      readMany (HashOf.fromBitcoinStream 32) hashCount.toNat bs = .ok hashes mid →
      (Faults (do
        let blockHashStop ← HashOf.fromBitcoinStream 32
        lift (LocatorMessage.create protocolVersion hashes
          (if blockHashStop = zeroHash then none else some blockHashStop)) : Stream LocatorMessage)
        mid ↔ Empty mid ∨ Joined (Sized 32) (fun _ => hashCount = 0) mid) := by
    intro bs hashes mid run
    exact faults_joined cuts_hash faults_hash
      (fun _ _ bs _ => made hashes _ bs (many_length run)) mid
  rw [faults_joined (cuts_hashes _) (faults_hashes _) stop, within_succ, or_assoc]
  refine or_congr Iff.rfl ?_
  constructor
  · rintro ⟨front,rest,whole,ending | ⟨hash,behind,size,none,rfl⟩,rfl⟩
    · exact Or.inl ⟨front,rest,whole,ending,rfl⟩
    · refine Or.inr ⟨none,?_⟩
      rw [Sized] at size
      simp only [List.length_append]
      omega
  · rintro (⟨front,rest,whole,ending,rfl⟩ | ⟨none,enough⟩)
    · exact ⟨front,rest,whole,Or.inl ending,rfl⟩
    · refine ⟨[],bs,?_,Or.inr ⟨bs.take 32,bs.drop 32,?_,none,?_⟩,rfl⟩
      · rw [none]
        rfl
      · rw [Sized, List.length_take]
        omega
      · exact (List.take_append_drop 32 bs).symm

theorem faults_locator (bs : List UInt8) :
    Faults LocatorMessage.fromBitcoinStream bs ↔ Harmful .GetHeaders bs :=
  faults_behind (fixed_uint32 _).safe (fixed_uint32 _).cuts
    (fun version bs => faults_counted (faults_locators version) bs) bs

/-- What stands behind the two hashes of a header. -/
theorem fixed_headerEnd (make : Rat → UInt32 → UInt32 → BlockHeader) : Fixed (do
    let timestamp ← readDateFrom32BitUnixTimestamp
    let compactDifficulty ← readUInt32 .LittleEndian
    let nonce ← readUInt32 .LittleEndian
    pure (make timestamp compactDifficulty nonce) : Stream BlockHeader) 12 :=
  fixed_bind (n := 8) fixed_date (fun _ => fixed_bind (n := 4) (fixed_uint32 _) (fun _ =>
    fixed_bind (n := 0) (fixed_uint32 _) (fun _ => fixed_pure _)))

theorem cuts_blockHeader : Cuts Anything BlockHeader.fromBitcoinStream (Sized 80) :=
  cuts_sized (n := 76) (fixed_uint32 _).cuts (fun _ => cuts_sized (n := 44) cuts_hash (fun _ =>
    cuts_sized (n := 12) cuts_hash (fun _ => (fixed_headerEnd _).cuts)))

theorem faults_blockHeader (bs : List UInt8) :
    Faults BlockHeader.fromBitcoinStream bs ↔ BrokenHeader bs := by
  have hashes : Faults BlockHeader.fromBitcoinStream bs ↔
      Joined (Sized 4) (fun bs => Empty bs ∨ Joined (Sized 32) Empty bs) bs := by
    refine faults_behind (fixed_uint32 _).safe (fixed_uint32 _).cuts ?_ bs
    intro version bs
    refine faults_joined cuts_hash faults_hash ?_ bs
    intro _ previousBlockHash mid _
    rw [faults_then (fun _ _ _ => (fixed_headerEnd _).safe), faults_hash]
  rw [hashes, BrokenHeader]
  constructor
  · rintro ⟨word,_,size,rfl | ⟨hash,_,size',rfl,rfl⟩,rfl⟩
    · rw [Sized] at size
      simp [size]
    · rw [Sized] at size size'
      simp [size, size']
  · rintro (size | size)
    · exact ⟨bs,[],size,Or.inl rfl,(List.append_nil bs).symm⟩
    · refine ⟨bs.take 4,bs.drop 4,?_,Or.inr ⟨bs.drop 4,[],?_,rfl,(List.append_nil _).symm⟩,
        (List.take_append_drop 4 bs).symm⟩
      · rw [Sized, List.length_take]
        omega
      · rw [Sized, List.length_drop]
        omega

theorem cuts_header : Cuts Anything HeadersMessage.readHeader WholeHeader := by
  refine cuts_bind cuts_blockHeader ?_ (fun _ _ _ _ => trivial)
  intro header
  have zero : ∀ count : UInt64, Cuts Anything
      (if count ≠ 0 then fail else pure header : Stream BlockHeader)
      (fun bytes => count = 0 ∧ bytes = []) := by
    intro count
    by_cases none : count = 0
    · rw [if_neg (not_not.mpr none)]
      exact cuts_congr (by simp [none]) (cuts_pure header)
    · rw [if_pos none]
      exact cuts_congr (by simp [none]) cuts_fail
  refine cuts_congr ?_ (takes_varint.cuts_bind zero)
  intro bytes
  constructor
  · rintro ⟨count,front,_,spells,⟨rfl,rfl⟩,rfl⟩
    rwa [List.append_nil]
  · intro spells
    exact ⟨0,bytes,[],spells,⟨rfl,rfl⟩,(List.append_nil bytes).symm⟩

theorem faults_header (bs : List UInt8) :
    Faults HeadersMessage.readHeader bs ↔ BrokenHeader bs := by
  rw [HeadersMessage.readHeader, faults_then, faults_blockHeader]
  intro header mid _
  refine safe_bind safe_varint ?_
  intro transactionCount
  split
  · exact safe_fail
  · exact safe_pure header

theorem faults_headers (bs : List UInt8) :
    Faults HeadersMessage.fromBitcoinStream bs ↔ Harmful .Headers bs := by
  refine faults_counted ?_ bs
  intro count bs
  split
  · rename_i none
    rw [none]
    exact iff_of_false (safe_fail bs) within_zero
  · rw [faults_then (fun _ _ _ => safe_pure _)]
    exact faults_many (fun _ _ _ => trivial) cuts_header faults_header (fun _ _ => trivial) _ bs

/-- The word of a vector's type, where it is a type. -/
theorem cuts_vectorType : Cuts Anything
    (readUInt32 .LittleEndian >>= fun rawType => found (VectorType.ofRawValue rawType))
    KnownType := by
  refine cuts_congr ?_ (takes_bind takes_uint32 (fun _ => takes_found _)).cuts
  intro bytes
  constructor
  · rintro ⟨type,raw,_,_,rfl,⟨known,rfl⟩,rfl⟩
    have same := List.find?_some known
    rw [beq_iff_eq] at same
    exact ⟨type,by rw [same, List.append_nil]⟩
  · rintro ⟨type,rfl⟩
    exact ⟨type,type.rawValue,_,[],rfl,⟨by cases type <;> rfl,rfl⟩,(List.append_nil _).symm⟩

theorem vector_eq : InventoryVector.fromBitcoinStream =
    readUInt32 .LittleEndian >>= (fun rawType => found (VectorType.ofRawValue rawType)) >>=
      fun type => (do
        let hash ← HashOf.fromBitcoinStream 32
        pure { type, hash } : Stream InventoryVector) := bind_bind _ _ _

theorem cuts_vector : Cuts Anything InventoryVector.fromBitcoinStream WholeVector := by
  rw [vector_eq]
  exact cuts_bind cuts_vectorType (fun _ => cuts_map cuts_hash) (fun _ _ _ _ => trivial)

theorem faults_vector (bs : List UInt8) :
    Faults InventoryVector.fromBitcoinStream bs ↔ KnownType bs := by
  have ends : Faults InventoryVector.fromBitcoinStream bs ↔ Joined KnownType Empty bs := by
    rw [vector_eq]
    refine faults_behind ?_ cuts_vectorType ?_ bs
    · exact safe_bind (fixed_uint32 _).safe (fun _ => safe_found _)
    · intro type bs
      rw [faults_then (fun _ _ _ => safe_pure _), faults_hash]
  rw [ends]
  constructor
  · rintro ⟨front,_,known,rfl,rfl⟩
    rwa [List.append_nil]
  · intro known
    exact ⟨bs,[],known,rfl,(List.append_nil bs).symm⟩

theorem faults_vectors (bs : List UInt8) :
    Faults VectorsMessage.fromBitcoinStream bs ↔ Harmful .Inventory bs := by
  refine faults_counted ?_ bs
  intro count bs
  split
  · rename_i none
    rw [none]
    exact iff_of_false (safe_fail bs) (fun harm => within_zero harm.2)
  rename_i some
  split
  · rename_i many
    exact iff_of_false (safe_fail bs) (fun harm => absurd harm.1 (UInt64.not_le.mpr many))
  · rename_i few
    have within : count ≤ 50000 := UInt64.not_lt.mp few
    rw [faults_then, faults_many (fun _ _ _ => trivial) cuts_vector faults_vector
      (fun _ _ => trivial), and_iff_right within]
    intro inventoryVectors mid run
    have counted : 0 < inventoryVectors.length ∧ inventoryVectors.length ≤ 50000 := by
      have positive := toNat_ne_zero some
      rw [many_length run]
      exact ⟨Nat.pos_of_ne_zero positive,UInt64.le_iff_toNat_le.mp within⟩
    exact safe_lift (show VectorsMessage.create inventoryVectors = _ from dif_pos counted)

theorem cuts_outPoint : Cuts Anything OutPoint.fromBitcoinStream (Sized 36) :=
  cuts_sized (n := 4) cuts_hash (fun _ => cuts_map (fixed_uint32 _).cuts)

theorem faults_outPoint (bs : List UInt8) : Faults OutPoint.fromBitcoinStream bs ↔ Empty bs := by
  rw [OutPoint.fromBitcoinStream, faults_then, faults_hash]
  exact fun _ _ _ => safe_bind (fixed_uint32 _).safe (fun _ => safe_pure _)

/-- What is read of an input behind the length of its script. -/
def inputEnd (outPoint : OutPoint) (scriptSignatureLength : UInt64) : Stream Input :=
  if scriptSignatureLength = 0 then do
    let sequence ← readUInt32 .LittleEndian
    pure { outPoint, scriptSignature := [], sequence, userKey := none }
  else do
    let count ← readLength scriptSignatureLength
    let scriptSignature ← readData count
    let sequence ← readUInt32 .LittleEndian
    pure { outPoint, scriptSignature, sequence, userKey := none }

theorem cuts_inputEnd (outPoint : OutPoint) (length : UInt64) :
    Cuts Anything (inputEnd outPoint length)
      (fun bytes => length.toNat < 2 ^ 63 ∧ Sized (length.toNat + 4) bytes) := by
  rw [inputEnd]
  split
  · rename_i none
    subst none
    refine cuts_congr ?_ (cuts_map (fixed_uint32 .LittleEndian).cuts)
    intro bytes
    exact (and_iff_right (by decide)).symm
  · rename_i some
    have positive := toNat_ne_zero some
    refine cuts_length (cuts_congr (fun _ => sized_joined) (cuts_bind (cuts_data positive)
      (fun _ => cuts_map (fixed_uint32 _).cuts) ?_))
    intro tail mid size _ empty
    rw [List.append_eq_nil_iff] at empty
    rw [empty.1] at size
    cases size

theorem faults_inputEnd (outPoint : OutPoint) (length : UInt64) (bs : List UInt8) :
    Faults (inputEnd outPoint length) bs ↔ 2 ^ 63 ≤ length.toNat := by
  have last : ∀ make : UInt32 → Input, Safe (do
      let sequence ← readUInt32 .LittleEndian
      pure (make sequence) : Stream Input) := by
    intro make
    exact safe_bind (fixed_uint32 _).safe (fun _ => safe_pure _)
  rw [inputEnd]
  split
  · rename_i none
    subst none
    exact iff_of_false (last _ bs) (by decide)
  · exact faults_length (fun count => safe_bind (safe_data count) (fun _ => last _)) bs

theorem cuts_input : Cuts Anything Input.fromBitcoinStream WholeInput :=
  cuts_bind cuts_outPoint (fun outPoint => takes_varint.cuts_bind (cuts_inputEnd outPoint))
    (fun _ _ _ _ => trivial)

theorem faults_input (bs : List UInt8) : Faults Input.fromBitcoinStream bs ↔ BrokenInput bs :=
  faults_joined cuts_outPoint faults_outPoint
    (fun _ outPoint mid _ => faults_counted (faults_inputEnd outPoint) mid) bs

theorem cuts_output : Cuts (· ≠ []) Output.fromBitcoinStream WholeOutput := by
  refine cuts_bind (fixed_int64 _).cuts ?_ (fun _ _ _ _ => trivial)
  intro value
  refine takes_varint.cuts_bind ?_
  intro length
  refine cuts_length ?_
  by_cases none : length = 0
  · intro bs mid more
    constructor
    · rintro ⟨output,run⟩
      obtain ⟨script,rest,first,last⟩ := bind_eq_ok.mp run
      rw [none] at first
      cases first
      cases last
      exact absurd rfl more
    · rintro ⟨_,⟨some,_⟩,_⟩
      exact absurd none some
  · have positive := toNat_ne_zero none
    exact cuts_congr (fun _ => (and_iff_right none).symm) (cuts_map (cuts_data positive))

theorem faults_output (bs : List UInt8) :
    Faults Output.fromBitcoinStream bs ↔ BrokenOutput bs := by
  refine faults_behind (fixed_int64 _).safe (fixed_int64 _).cuts ?_ bs
  intro value bs
  refine faults_counted ?_ bs
  intro length bs
  exact faults_length (fun count => safe_bind (safe_data count) (fun _ => safe_pure _)) bs

theorem faults_outputs (count : Nat) (bs : List UInt8) :
    Faults (readMany Output.fromBitcoinStream count) bs ↔
      Within WholeOutput BrokenOutput count bs := by
  have grows : Grows (· ≠ []) := fun chunk mid more => List.append_ne_nil_of_right_ne_nil chunk more
  refine faults_many grows cuts_output faults_output ?_ count bs
  rintro bs ⟨front,rest,size,_,rfl⟩ empty
  rw [List.append_eq_nil_iff] at empty
  rw [empty.1] at size
  cases size

/-- What is read of a transaction behind its inputs. -/
def transactionEnd (version : UInt32) (inputs : List Input) : Stream Transaction := do
  let outputCount ← readVarInt
  let outputs ← readMany Output.fromBitcoinStream outputCount.toNat
  if outputs.length = 0 then fail
  else do
    let lockTimeRaw ← readUInt32 .LittleEndian
    lift (Transaction.create version inputs outputs (LockTime.fromRaw lockTimeRaw))

theorem faults_transactionEnd (version : UInt32) (inputs : List Input) (bs : List UInt8) :
    Faults (transactionEnd version inputs) bs ↔
      Counted (fun outputCount => Within WholeOutput BrokenOutput outputCount.toNat) bs := by
  refine faults_counted ?_ bs
  intro count bs
  rw [faults_then, faults_outputs]
  intro outputs mid _
  split
  · exact safe_fail
  · rename_i some
    refine safe_bind (fixed_uint32 _).safe ?_
    intro lockTimeRaw
    exact safe_lift (show Transaction.create version inputs outputs _ = _ from
      dif_pos (Nat.pos_of_ne_zero some))

theorem faults_transaction (bs : List UInt8) :
    Faults Transaction.fromBitcoinStream bs ↔ Harmful .Transaction bs := by
  refine faults_behind (fixed_uint32 _).safe (fixed_uint32 _).cuts ?_ bs
  intro version bs
  refine faults_counted ?_ bs
  intro count bs
  have cuts : Cuts Anything (readMany Input.fromBitcoinStream count.toNat) _ :=
    cuts_many (fun _ _ _ => trivial) cuts_input count.toNat
  have inputs := faults_many (fun _ _ _ => trivial) cuts_input faults_input (fun _ _ => trivial)
    count.toNat
  have behind : ∀ bs inputs mid, readMany Input.fromBitcoinStream count.toNat bs = .ok inputs mid →
      (Faults (if inputs.length = 0 then fail else transactionEnd version inputs) mid ↔
        count ≠ 0 ∧
          Counted (fun outputCount => Within WholeOutput BrokenOutput outputCount.toNat) mid) := by
    intro bs inputs mid run
    have none : inputs.length = 0 ↔ count = 0 := by
      rw [many_length run, ← UInt64.toNat_inj]
      rfl
    split
    · rename_i zero
      exact iff_of_false (safe_fail mid) (fun harm => harm.1 (none.mp zero))
    · rename_i some
      rw [faults_transactionEnd, and_iff_right (fun zero => some (none.mpr zero))]
  refine (faults_joined cuts inputs behind bs).trans (or_congr Iff.rfl ?_)
  constructor
  · rintro ⟨front,rest,whole,⟨some,bad⟩,rfl⟩
    exact ⟨some,front,rest,whole,bad,rfl⟩
  · rintro ⟨some,front,rest,whole,bad,rfl⟩
    exact ⟨front,rest,whole,⟨some,bad⟩,rfl⟩

theorem takes_bytes (count : Nat) :
    Takes (readMany readUInt8 count) (fun bytes front => front = bytes ∧ Sized count bytes) := by
  intro bs bytes mid
  constructor
  · intro run
    refine ⟨bytes,⟨rfl,many_length run⟩,?_⟩
    induction count generalizing bs bytes with
    | zero =>
      cases run
      rfl
    | succ count ih =>
      obtain ⟨byte,next,first,run⟩ := bind_eq_ok.mp run
      obtain ⟨tail,rest,second,last⟩ := bind_eq_ok.mp run
      cases last
      cases bs with
      | nil => cases first
      | cons b bs =>
        cases first
        rw [ih _ _ second, List.cons_append]
  · rintro ⟨front,⟨rfl,rfl⟩,rfl⟩
    have all := reads_many (fun byte : UInt8 => [byte]) id front (fun byte _ => reads_uint8 byte)
    rw [List.map_id, List.flatMap_singleton'] at all
    exact all mid

theorem faults_create (D : Digests) (n : UInt32) (hashesCount : UInt64) (hashes : List SHA256Hash)
    (flags bs : List UInt8) (counted : hashes.length = hashesCount.toNat) :
    Faults (do
      let tree ← lift (PartialMerkleTree.create D n hashes flags)
      found tree : Stream PartialMerkleTree) bs ↔ BrokenFlags n hashesCount flags := by
  rw [faults_then (fun _ _ _ => safe_found _), faults_lift, create_ends, BrokenFlags, ← counted,
    ← walk_cut, not_and_or, not_not, not_not]

/-- What is read of a tree behind its hashes. -/
def treeEnd (D : Digests) (n : UInt32) (hashes : List SHA256Hash) : Stream PartialMerkleTree := do
  let flagBytesCount ← readVarInt
  let flags ← readMany readUInt8 flagBytesCount.toNat
  let tree ← lift (PartialMerkleTree.create D n hashes flags)
  found tree

theorem faults_treeEnd (D : Digests) (n : UInt32) (hashesCount : UInt64) (hashes : List SHA256Hash)
    (counted : hashes.length = hashesCount.toNat) (bs : List UInt8) :
    Faults (treeEnd D n hashes) bs ↔ Counted (fun flagBytesCount => Joined
      (fun flags => Sized flagBytesCount.toNat flags ∧ BrokenFlags n hashesCount flags)
        Anything) bs := by
  refine faults_counted ?_ bs
  intro flagBytesCount bs
  have bytes := (takes_bytes flagBytesCount.toNat).faults
    (fixed_many fixed_uint8 flagBytesCount.toNat).safe
    (fun flags bs => faults_create D n hashesCount hashes flags bs counted) bs
  rw [bytes]
  constructor
  · rintro ⟨_,flags,rest,⟨rfl,size⟩,broken,rfl⟩
    exact ⟨flags,rest,⟨size,broken⟩,trivial,rfl⟩
  · rintro ⟨flags,rest,⟨size,broken⟩,_,rfl⟩
    exact ⟨flags,flags,rest,⟨rfl,size⟩,broken,rfl⟩

theorem faults_tree (D : Digests) (bs : List UInt8) : Faults (readTree D) bs ↔ BrokenTree bs := by
  refine takes_uint32.faults (fixed_uint32 _).safe ?_ bs
  intro n bs
  refine faults_counted ?_ bs
  intro hashesCount bs
  exact faults_joined (cuts_hashes _) (faults_hashes _)
    (fun _ hashes mid run => faults_treeEnd D n hashesCount hashes (many_length run) mid) bs

theorem faults_merkleBlock (D : Digests) (bs : List UInt8) :
    Faults (MerkleBlockMessage.fromBitcoinStream D) bs ↔ Harmful .MerkleBlock bs := by
  refine faults_joined cuts_blockHeader faults_blockHeader ?_ bs
  intro _ header mid _
  rw [faults_then, faults_tree]
  intro tree _ _
  dsimp only
  split
  · exact safe_pure _
  · exact safe_fail

theorem takes_ascii (length : UInt64) :
    Takes (readLength length >>= readASCIIStringWithLength) (fun text name =>
      length.toNat < 2 ^ 63 ∧ Sized length.toNat name ∧
        asciiString (withoutPadding name) = some text) := by
  intro bs text mid
  constructor
  · intro run
    obtain ⟨count,_,first,run⟩ := bind_eq_ok.mp run
    rw [readLength] at first
    split at first
    · rename_i fits
      cases first
      obtain ⟨name,rest,second,last⟩ := bind_eq_ok.mp run
      obtain ⟨rfl,size⟩ := readBuffer_ok.mp second
      obtain ⟨_,⟨ascii,rfl⟩,rfl⟩ := (takes_found _ _ _ _).mp last
      exact ⟨name,⟨fits,size,ascii⟩,rfl⟩
    · cases first
  · rintro ⟨name,⟨fits,size,ascii⟩,rfl⟩
    rw [readLength, if_pos fits, bind_ok (pure_apply length.toNat _), readASCIIStringWithLength,
      bind_ok (readBuffer_ok.mpr ⟨rfl,size⟩), ascii]
    rfl

theorem cuts_command : Cuts Anything
    (readVarString >>= fun rawCommand => found (Command.ofRawValue rawCommand)) KnownCommand := by
  have text : Takes readVarString _ := takes_bind takes_varint takes_ascii
  refine cuts_congr ?_ (takes_bind text (fun _ => takes_found _)).cuts
  intro bytes
  constructor
  · rintro ⟨command,text,_,_,⟨length,front,name,spells,⟨fits,size,ascii⟩,rfl⟩,⟨known,rfl⟩,rfl⟩
    refine ⟨length,front,name,spells,⟨fits,size,command,?_⟩,List.append_nil _⟩
    rw [ascii]
    exact known
  · rintro ⟨length,front,name,spells,⟨fits,size,command,named⟩,rfl⟩
    obtain ⟨text,ascii,known⟩ := Option.bind_eq_some_iff.mp named
    exact ⟨command,text,front ++ name,[],⟨length,front,name,spells,⟨fits,size,ascii⟩,rfl⟩,
      ⟨known,rfl⟩,(List.append_nil _).symm⟩

theorem cuts_code : Cuts Anything
    (readUInt8 >>= fun rawCode => found (RejectCode.ofRawValue rawCode)) KnownCode := by
  have byte : Takes readUInt8 (fun byte bytes => bytes = [byte]) := by
    intro bs byte mid
    cases bs with
    | nil =>
      constructor
      · intro run
        cases run
      · rintro ⟨_,rfl,same⟩
        cases same
    | cons b bs =>
      constructor
      · intro run
        cases run
        exact ⟨[byte],rfl,rfl⟩
      · rintro ⟨_,rfl,same⟩
        cases same
        rfl
  refine cuts_congr ?_ (takes_bind byte (fun _ => takes_found _)).cuts
  intro bytes
  constructor
  · rintro ⟨code,raw,_,_,rfl,⟨known,rfl⟩,rfl⟩
    have same := List.find?_some known
    rw [beq_iff_eq] at same
    exact ⟨code,by rw [same, List.append_nil]⟩
  · rintro ⟨code,rfl⟩
    exact ⟨code,code.rawValue,_,[],rfl,⟨by cases code <;> rfl,rfl⟩,(List.append_nil _).symm⟩

/-- The hash at the end is read only where there is something to read. -/
theorem safe_rejectEnd (make : Option SHA256Hash → RejectMessage) : Safe (do
    let available ← hasBytesAvailable
    if available then do
      let hash ← HashOf.fromBitcoinStream 32
      pure (make (some hash))
    else pure (make none) : Stream RejectMessage) := by
  intro bs fault
  obtain fault | ⟨available,_,run,fault⟩ := faults_bind.mp fault
  · exact safe_available bs fault
  · cases run
    split at fault
    · rename_i more
      rw [faults_then (fun _ _ _ => safe_pure _), faults_hash] at fault
      rw [fault] at more
      cases more
    · exact safe_pure _ bs fault

theorem faults_reject (bs : List UInt8) :
    Faults RejectMessage.fromBitcoinStream bs ↔ Harmful .Reject bs := by
  have parts : RejectMessage.fromBitcoinStream =
      readVarString >>= (fun rawCommand => found (Command.ofRawValue rawCommand)) >>=
        fun rejectedCommand => readUInt8 >>= (fun rawCode => found (RejectCode.ofRawValue rawCode))
          >>= fun code => (do
            let reason ← readVarString
            let available ← hasBytesAvailable
            if available then do
              let hash ← HashOf.fromBitcoinStream 32
              pure { rejectedCommand, code, reason, hash := some hash }
            else pure { rejectedCommand, code, reason, hash := none } : Stream RejectMessage) := by
    rw [← bind_bind]
    simp only [← bind_bind]
    rfl
  rw [parts]
  refine faults_joined cuts_command ?_ ?_ bs
  · intro bs
    rw [faults_then (fun _ _ _ => safe_found _), faults_varString]
  · intro _ command mid _
    refine faults_behind ?_ cuts_code ?_ mid
    · exact safe_bind fixed_uint8.safe (fun _ => safe_found _)
    · intro code bs
      rw [faults_then (fun _ _ _ => safe_rejectEnd _), faults_varString]

end Decoders

end PayloadSafety
