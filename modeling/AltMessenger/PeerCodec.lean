import AltMessenger.TransactionCodec
import AltMessenger.PeerMessages

/-!
The relay messages and their decoders: seven of them read back what they write.
The headers message does not, for its encoder leaves out the number of
transactions that the decoder reads behind each header.
-/
namespace PeerCodec
open ByteReader SwiftRuntime BitcoinStream BitcoinHash TransactionCodec BitcoinMessage
open MerkleProof PeerMessages

/-- A date of whole seconds that fit 32 bits. -/
def Whole (date : Rat) : Prop := ∃ raw : UInt32, date = raw.toNat

/-- Not an IPv4 address in the spelling of IPv6. -/
def Native : IPAddress → Prop
  | .IPV4 _ => True
  | .IPV6 word0 word1 word2 _ => ¬ (word0 = 0 ∧ word1 = 0 ∧ word2 = 0xffff)

theorem reads_uint16 (value : UInt16) (e : Endianness) :
    Reads (readUInt16 e) (appendUInt16 value e) value := by
  have word := reads_word UInt16.ofNat e 2 value.toNat value.toNat_lt
  rwa [UInt16.ofNat_toNat] at word

theorem reads_found {α : Type} (a : α) : Reads (found (some a)) [] a := reads_pure a

theorem reads_hash32 (hash : SHA256Hash) :
    Reads (HashOf.fromBitcoinStream 32) hash.bitcoinData hash := reads_hash (by decide) hash

theorem reads_date (raw : UInt32) :
    Reads readDateFrom32BitUnixTimestamp (appendUInt32 raw .LittleEndian) (raw.toNat : Rat) :=
  reads_last (reads_uint32 raw .LittleEndian) (reads_pure _)

theorem date_written (raw : UInt32) :
    appendDateAs32BitUnixTimestamp (raw.toNat : Rat) = .ok (appendUInt32 raw .LittleEndian) := by
  rw [appendDateAs32BitUnixTimestamp, bind_ready (uint32_whole raw)]
  rfl

theorem reads_hashes (hashes : List SHA256Hash) :
    Reads (readMany (HashOf.fromBitcoinStream 32) hashes.length)
      (hashes.flatMap HashOf.bitcoinData) hashes := by
  have all := reads_many HashOf.bitcoinData id hashes (fun hash _ => reads_hash32 hash)
  rwa [List.map_id] at all

theorem count_toNat {count : Nat} (fits : count < 2 ^ 63) : (UInt64.ofNat count).toNat = count :=
  UInt64.toNat_ofNat_of_lt' (Nat.lt_trans fits (by decide))

section Limited

variable {α β : Type} {r : Stream α} {enc : α → List UInt8}

/-- A list behind its count, where the count may not be zero or exceed a limit. -/
theorem reads_limited (limit : UInt64) (create : List α → Except Trap β) {xs : List α} {message : β}
    (some : 0 < xs.length) (few : xs.length ≤ limit.toNat) (limited : limit.toNat < 2 ^ 63)
    (each : ∀ x ∈ xs, Reads r (enc x) x) (made : create xs = .ok message) :
    Reads (do
      let count ← readVarInt
      if count = 0 then fail
      else if limit < count then fail
      else do
        let xs ← readMany r count.toNat
        lift (create xs)) (appendCount xs.length ++ xs.flatMap enc) message := by
  have fits : xs.length < 2 ^ 63 := by omega
  have nonzero : ¬ UInt64.ofNat xs.length = 0 := by
    rw [count_zero_iff fits]
    omega
  have within : ¬ limit < UInt64.ofNat xs.length := by
    rw [UInt64.lt_iff_toNat_lt, count_toNat fits]
    omega
  refine reads_bind (reads_count xs.length) ?_
  rw [if_neg nonzero, if_neg within, count_toNat fits]
  have all := reads_many enc id xs each
  rw [List.map_id] at all
  refine reads_last all ?_
  rw [made]
  exact reads_pure message

end Limited

theorem vectorType_ofRawValue (type : VectorType) :
    VectorType.ofRawValue type.rawValue = some type := by
  cases type <;> rfl

theorem reads_vector (vector : InventoryVector) :
    Reads InventoryVector.fromBitcoinStream vector.bitcoinData vector := by
  refine reads_bind (reads_uint32 vector.type.rawValue .LittleEndian) ?_
  rw [vectorType_ofRawValue]
  exact reads_bind (reads_found vector.type) (reads_last (reads_hash32 vector.hash) (reads_pure vector))

theorem reads_vectors (message : VectorsMessage) :
    Reads VectorsMessage.fromBitcoinStream message.bitcoinData message := by
  have made : VectorsMessage.create message.inventoryVectors = .ok message :=
    dif_pos message.counted
  exact reads_limited 50000 VectorsMessage.create message.counted.1 message.counted.2 (by decide)
    (fun vector _ => reads_vector vector) made

theorem reads_locator (message : LocatorMessage) (fits : message.blockLocatorHashes.length < 2 ^ 63)
    (stop : message.blockHashStop ≠ some zeroHash) :
    Reads LocatorMessage.fromBitcoinStream message.bitcoinData message := by
  have back : (if message.blockHashStop.getD zeroHash = zeroHash then none
      else some (message.blockHashStop.getD zeroHash)) = message.blockHashStop := by
    cases given : message.blockHashStop with
    | none => exact if_pos rfl
    | some hash =>
      have nonzero : ¬ hash = zeroHash := by
        intro zero
        rw [given, zero] at stop
        exact stop rfl
      exact if_neg nonzero
  have made : LocatorMessage.create message.protocolVersion message.blockLocatorHashes
      message.blockHashStop = .ok message := dif_pos message.located
  refine reads_bind (reads_uint32 message.protocolVersion .LittleEndian)
    (reads_bind (reads_count _) ?_)
  rw [count_toNat fits]
  refine reads_bind (reads_hashes _) (reads_last (reads_hash32 _) ?_)
  rw [back, made]
  exact reads_pure message

theorem reads_ip (address : IPAddress) (native : Native address) :
    Reads IPAddress.fromBitcoinStream address.bitcoinData address := by
  have words : ∀ word0 word1 word2 word3 : UInt32, Reads IPAddress.fromBitcoinStream
      (IPAddress.IPV6 word0 word1 word2 word3).bitcoinData
      (if word0 = 0 ∧ word1 = 0 ∧ word2 = 0xffff then .IPV4 word3
        else .IPV6 word0 word1 word2 word3) := by
    intro word0 word1 word2 word3
    refine reads_bind (reads_uint32 word0 .BigEndian) (reads_bind (reads_uint32 word1 .BigEndian)
      (reads_bind (reads_uint32 word2 .BigEndian) (reads_last (reads_uint32 word3 .BigEndian) ?_)))
    split
    · exact reads_pure _
    · exact reads_pure _
  cases address with
  | IPV4 word => exact words 0 0 0xffff word
  | IPV6 word0 word1 word2 word3 =>
    have read := words word0 word1 word2 word3
    rwa [if_neg native] at read

/-- The bytes of an address with a time stamp of whole seconds. -/
def addressBytes (raw : UInt32) (address : PeerAddress) : List UInt8 :=
  appendUInt32 raw .LittleEndian ++ (appendUInt64 address.services.rawValue .LittleEndian ++
    (address.IP.bitcoinData ++ appendUInt16 address.port .BigEndian))

theorem address_written (now : Rat) {address : PeerAddress} {raw : UInt32}
    (stamped : address.timestamp = some (raw.toNat : Rat)) :
    address.bitcoinDataWithTimestamp now true = .ok (addressBytes raw address) := by
  have date : appendDateAs32BitUnixTimestamp (address.timestamp.getD now) =
      .ok (appendUInt32 raw .LittleEndian) := by
    rw [stamped]
    exact date_written raw
  rw [PeerAddress.bitcoinDataWithTimestamp, if_pos rfl, bind_ready date]
  rfl

theorem reads_address {address : PeerAddress} {raw : UInt32}
    (stamped : address.timestamp = some (raw.toNat : Rat)) (native : Native address.IP) :
    Reads (PeerAddress.fromBitcoinStream true) (addressBytes raw address) address := by
  rw [PeerAddress.fromBitcoinStream, if_pos rfl]
  refine reads_bind (reads_date raw) ?_
  rw [← stamped]
  exact reads_bind (reads_uint64 address.services.rawValue .LittleEndian)
    (reads_bind (reads_ip address.IP native)
      (reads_last (reads_uint16 address.port .BigEndian) (reads_pure address)))

theorem appendAll_written {α : Type} {write : α → Except Trap (List UInt8)}
    {enc : α → List UInt8} {xs : List α} (each : ∀ x ∈ xs, write x = .ok (enc x)) :
    appendAll (xs.map write) = .ok (xs.flatMap enc) := by
  induction xs with
  | nil => rfl
  | cons x xs ih =>
    have tail := ih (fun y mem => each y (List.mem_cons_of_mem x mem))
    rw [List.map_cons, appendAll, bind_ready (each x (by simp)), bind_ready tail]
    rfl

/-- The bytes a writer came to, if it did. -/
def written (result : Except Trap (List UInt8)) : List UInt8 :=
  match result with
  | .ok bytes => bytes
  | .error _ => []

theorem reads_addresses (now : Rat) (message : PeerAddressMessage)
    (stamped : ∀ address ∈ message.peerAddresses, ∃ date, address.timestamp = some date ∧ Whole date)
    (native : ∀ address ∈ message.peerAddresses, Native address.IP) :
    ∃ bytes, message.bitcoinData now = .ok bytes ∧
      Reads PeerAddressMessage.fromBitcoinStream bytes message := by
  have each : ∀ address ∈ message.peerAddresses,
      address.bitcoinDataWithTimestamp now true =
          .ok (written (address.bitcoinDataWithTimestamp now true)) ∧
        Reads (PeerAddress.fromBitcoinStream true)
          (written (address.bitcoinDataWithTimestamp now true)) address := by
    intro address mem
    obtain ⟨date,here,raw,rfl⟩ := stamped address mem
    rw [address_written now here]
    exact ⟨rfl,reads_address here (native address mem)⟩
  have made : PeerAddressMessage.create message.peerAddresses = .ok message :=
    dif_pos message.counted
  have addresses := appendAll_written (fun address mem => (each address mem).1)
  refine ⟨_,by rw [PeerAddressMessage.bitcoinData, bind_ready addresses]; rfl,?_⟩
  exact reads_limited 1000 PeerAddressMessage.create message.counted.1 message.counted.2 (by decide)
    (fun address mem => (each address mem).2) made

theorem reads_filterLoad (message : FilterLoadMessage) (some : 0 < message.filter.length)
    (few : message.filter.length ≤ 36000) :
    Reads FilterLoadMessage.fromBitcoinStream message.bitcoinData message := by
  have fits : message.filter.length < 2 ^ 63 := by omega
  have length := count_toNat fits
  have within : ¬ (UInt64.ofNat message.filter.length ≤ 0 ∨
      maxFilterLength < UInt64.ofNat message.filter.length) := by
    rw [UInt64.le_iff_toNat_le, UInt64.lt_iff_toNat_lt, length]
    have zero : (0 : UInt64).toNat = 0 := rfl
    have most : maxFilterLength.toNat = 36000 := rfl
    omega
  have bytes : message.filter ≠ [] := List.length_pos_iff.mp some
  refine reads_bind (reads_count _) ?_
  rw [if_neg within, reads_length _ fits]
  exact reads_bind (u := []) (reads_pure _) (reads_bind (reads_data _ bytes)
    (reads_bind (reads_uint32 message.numHashFunctions .LittleEndian)
      (reads_bind (reads_uint32 message.tweak .LittleEndian)
        (reads_last (reads_uint8 message.flags) (reads_pure message)))))

/-- The 80 bytes of a header with a time stamp of whole seconds. -/
def headerBytes (raw : UInt32) (header : BlockHeader) : List UInt8 :=
  appendUInt32 header.version .LittleEndian ++ (header.previousBlockHash.bitcoinData ++
    (header.merkleRoot.bitcoinData ++ (appendUInt32 raw .LittleEndian ++
      (appendUInt32 header.compactDifficulty .LittleEndian ++
        appendUInt32 header.nonce .LittleEndian))))

theorem header_written {header : BlockHeader} {raw : UInt32}
    (stamped : header.timestamp = (raw.toNat : Rat)) :
    header.bitcoinData = .ok (headerBytes raw header) := by
  rw [BlockHeader.bitcoinData, stamped, bind_ready (date_written raw)]
  rfl

theorem reads_blockHeader {header : BlockHeader} {raw : UInt32}
    (stamped : header.timestamp = (raw.toNat : Rat)) :
    Reads BlockHeader.fromBitcoinStream (headerBytes raw header) header := by
  refine reads_bind (reads_uint32 header.version .LittleEndian)
    (reads_bind (reads_hash32 header.previousBlockHash)
      (reads_bind (reads_hash32 header.merkleRoot) (reads_bind (reads_date raw) ?_)))
  rw [← stamped]
  exact reads_bind (reads_uint32 header.compactDifficulty .LittleEndian)
    (reads_last (reads_uint32 header.nonce .LittleEndian) (reads_pure header))

theorem reads_bytes (bytes : List UInt8) : Reads (readMany readUInt8 bytes.length) bytes bytes := by
  have all := reads_many (fun byte => [byte]) id bytes (fun byte _ => reads_uint8 byte)
  rwa [List.map_id, List.flatMap_singleton'] at all

theorem reads_tree (D : Digests) (tree : PartialMerkleTree) (hashes : tree.hashes.length < 2 ^ 63)
    (flags : tree.flags.length < 2 ^ 63)
    (accepts : PartialMerkleTree.create D tree.totalLeafNodes tree.hashes tree.flags =
      .ok (some tree)) :
    Reads (readTree D) (bitcoinDataOfTree tree) tree := by
  refine reads_bind (reads_uint32 tree.totalLeafNodes .LittleEndian) (reads_bind (reads_count _) ?_)
  rw [count_toNat hashes]
  refine reads_bind (reads_hashes tree.hashes) (reads_bind (reads_count _) ?_)
  rw [count_toNat flags]
  refine reads_last (reads_bytes tree.flags) ?_
  rw [accepts]
  exact reads_pure tree

theorem reads_merkleBlock (D : Digests) (message : MerkleBlockMessage)
    (stamped : Whole message.header.timestamp)
    (hashes : message.partialMerkleTree.hashes.length < 2 ^ 63)
    (flags : message.partialMerkleTree.flags.length < 2 ^ 63)
    (accepts : PartialMerkleTree.create D message.partialMerkleTree.totalLeafNodes
      message.partialMerkleTree.hashes message.partialMerkleTree.flags =
        .ok (some message.partialMerkleTree))
    (root : message.header.merkleRoot = message.partialMerkleTree.rootHash) :
    ∃ bytes, message.bitcoinData = .ok bytes ∧
      Reads (MerkleBlockMessage.fromBitcoinStream D) bytes message := by
  obtain ⟨raw,stamp⟩ := stamped
  refine ⟨_,by rw [MerkleBlockMessage.bitcoinData, bind_ready (header_written stamp)]; rfl,?_⟩
  refine reads_bind (reads_blockHeader stamp)
    (reads_last (reads_tree D message.partialMerkleTree hashes flags accepts) ?_)
  have valid : message.merkleProofIsValid = true := decide_eq_true root
  dsimp only
  rw [if_pos valid]
  exact reads_pure message

/-- The seven relay messages read back what they write, whatever follows. -/
theorem relay_messages_read_back (D : Digests) (now : Rat) :
    (∀ message : InventoryMessage,
      Reads InventoryMessage.fromBitcoinStream message.bitcoinData message) ∧
    (∀ message : GetDataMessage,
      Reads GetDataMessage.fromBitcoinStream message.bitcoinData message) ∧
    (∀ message : GetBlocksMessage, message.blockLocatorHashes.length < 2 ^ 63 →
      message.blockHashStop ≠ some zeroHash →
      Reads GetBlocksMessage.fromBitcoinStream message.bitcoinData message) ∧
    (∀ message : GetHeadersMessage, message.blockLocatorHashes.length < 2 ^ 63 →
      message.blockHashStop ≠ some zeroHash →
      Reads GetHeadersMessage.fromBitcoinStream message.bitcoinData message) ∧
    (∀ message : PeerAddressMessage,
      (∀ address ∈ message.peerAddresses, ∃ date, address.timestamp = some date ∧ Whole date) →
      (∀ address ∈ message.peerAddresses, Native address.IP) →
      ∃ bytes, message.bitcoinData now = .ok bytes ∧
        Reads PeerAddressMessage.fromBitcoinStream bytes message) ∧
    (∀ message : FilterLoadMessage, 0 < message.filter.length → message.filter.length ≤ 36000 →
      Reads FilterLoadMessage.fromBitcoinStream message.bitcoinData message) ∧
    (∀ message : MerkleBlockMessage, Whole message.header.timestamp →
      message.partialMerkleTree.hashes.length < 2 ^ 63 →
      message.partialMerkleTree.flags.length < 2 ^ 63 →
      PartialMerkleTree.create D message.partialMerkleTree.totalLeafNodes
          message.partialMerkleTree.hashes message.partialMerkleTree.flags =
        .ok (some message.partialMerkleTree) →
      message.header.merkleRoot = message.partialMerkleTree.rootHash →
      ∃ bytes, message.bitcoinData = .ok bytes ∧
        Reads (MerkleBlockMessage.fromBitcoinStream D) bytes message) :=
  ⟨reads_vectors,reads_vectors,reads_locator,reads_locator,reads_addresses now,reads_filterLoad,
    reads_merkleBlock D⟩

def oneVector : VectorsMessage :=
  { inventoryVectors := [{ type := .Block, hash := zeroHash }],
    counted := by decide }

def oneLocator : LocatorMessage :=
  { protocolVersion := 70002, blockLocatorHashes := [plain 1], blockHashStop := none,
    located := Nat.one_pos }

def oneAddress : PeerAddressMessage :=
  { peerAddresses := [{ services := ⟨1⟩, IP := .IPV4 0x7f000001, port := 8333,
                        timestamp := some ((1500000000 : UInt32).toNat : Rat) }],
    counted := by decide }

def oneFilter : FilterLoadMessage :=
  { filter := [0xb5], numHashFunctions := 11, tweak := 0, flags := 1 }

def pairBlock : MerkleBlockMessage :=
  { header := { version := 1, previousBlockHash := zeroHash, merkleRoot := pairProof.rootHash,
                timestamp := ((1500000000 : UInt32).toNat : Rat), compactDifficulty := 0,
                nonce := 0 },
    partialMerkleTree := pairProof }

theorem sample_messages_read_back :
    Reads InventoryMessage.fromBitcoinStream oneVector.bitcoinData oneVector ∧
    Reads GetDataMessage.fromBitcoinStream oneVector.bitcoinData oneVector ∧
    Reads GetBlocksMessage.fromBitcoinStream oneLocator.bitcoinData oneLocator ∧
    Reads GetHeadersMessage.fromBitcoinStream oneLocator.bitcoinData oneLocator ∧
    (∃ bytes, oneAddress.bitcoinData 0 = .ok bytes ∧
      Reads PeerAddressMessage.fromBitcoinStream bytes oneAddress) ∧
    Reads FilterLoadMessage.fromBitcoinStream oneFilter.bitcoinData oneFilter ∧
    (∃ bytes, pairBlock.bitcoinData = .ok bytes ∧
      Reads (MerkleBlockMessage.fromBitcoinStream (Digests.known [] [])) bytes pairBlock) := by
  obtain ⟨inventory,getData,getBlocks,getHeaders,addresses,filterLoad,merkleBlock⟩ :=
    relay_messages_read_back (Digests.known [] []) 0
  have stamped : ∀ address ∈ oneAddress.peerAddresses,
      ∃ date, address.timestamp = some date ∧ Whole date := by
    intro address mem
    rw [List.mem_singleton.mp mem]
    exact ⟨_,rfl,1500000000,rfl⟩
  have native : ∀ address ∈ oneAddress.peerAddresses, Native address.IP := by
    intro address mem
    rw [List.mem_singleton.mp mem]
    trivial
  exact ⟨inventory oneVector,getData oneVector,getBlocks oneLocator (by decide) (by decide),
    getHeaders oneLocator (by decide) (by decide),addresses oneAddress stamped native,
    filterLoad oneFilter (by decide) (by decide),
    merkleBlock pairBlock ⟨1500000000,rfl⟩ (by decide) (by decide) pairProof_made rfl⟩

section Headers

/-- What a successful run of `r` takes off the stream is `least` bytes or more. -/
def Takes {α : Type} (r : Stream α) (least : Nat) : Prop :=
  ∀ bs a rest, r bs = .ok a rest → rest.length + least ≤ bs.length

theorem takes_spelled {α : Type} {r : Stream α} {enc : α → List UInt8}
    {short : List UInt8 → Bool} {least : Nat} (spelled : Spelled r enc short)
    (long : ∀ a, least ≤ (enc a).length) : Takes r least := by
  intro bs a rest run
  obtain ⟨pre,rfl,le,_⟩ := spelled bs a rest run
  have := long a
  rw [List.length_append]
  omega

theorem takes_bind {α β : Type} {r : Stream α} {f : α → Stream β} {m n : Nat} (first : Takes r m)
    (second : ∀ a, Takes (f a) n) : Takes (r >>= f) (m + n) := by
  intro bs b rest run
  obtain ⟨a,mid,run,later⟩ := bind_eq_ok.mp run
  have := first bs a mid run
  have := second a mid b rest later
  omega

theorem takes_pure {α : Type} (a : α) : Takes (pure a : Stream α) 0 := by
  intro bs b rest run
  cases run
  omega

theorem takes_fail {α : Type} (least : Nat) : Takes (fail : Stream α) least := by
  intro bs a rest run
  cases run

theorem takes_many {α : Type} {r : Stream α} {least : Nat} (one : Takes r least) (n : Nat) :
    Takes (readMany r n) (n * least) := by
  induction n with
  | zero =>
    rw [Nat.zero_mul]
    exact takes_pure []
  | succ n ih =>
    have all := takes_bind one (fun a => takes_bind ih (fun tail => takes_pure (a :: tail)))
    rw [Nat.succ_mul, Nat.add_comm (n * least)]
    exact all

theorem takes_uint32 : Takes (readUInt32 .LittleEndian) 4 := by
  refine takes_spelled (spelled_uint32 .LittleEndian) ?_
  intro word
  rw [appendUInt32, orderBytes_length, LittleEndian.toBytes_length]

theorem takes_hash : Takes (HashOf.fromBitcoinStream 32) 32 :=
  takes_spelled (spelled_hash 32) (fun hash => (bitcoinData_length hash).ge)

theorem takes_varint : Takes readVarInt 1 := by
  refine takes_spelled spelled_varint ?_
  intro value
  rw [appendVarInt_eq]
  split
  · simp
  · split
    · simp
    · split
      · simp
      · simp

theorem takes_header : Takes HeadersMessage.readHeader 81 := by
  have header : Takes BlockHeader.fromBitcoinStream 80 :=
    takes_bind takes_uint32 (fun _ => takes_bind takes_hash (fun _ => takes_bind takes_hash
      (fun _ => takes_bind (takes_bind takes_uint32 (fun _ => takes_pure _)) (fun _ =>
        takes_bind takes_uint32 (fun _ => takes_bind takes_uint32 (fun _ => takes_pure _))))))
  have checked : ∀ (header : BlockHeader) (count : UInt64),
      Takes (if count ≠ 0 then fail else pure header : Stream BlockHeader) 0 := by
    intro header count
    split
    · exact takes_fail 0
    · exact takes_pure header
  exact takes_bind header (fun header => takes_bind takes_varint (checked header))

theorem headerBytes_length (raw : UInt32) (header : BlockHeader) :
    (headerBytes raw header).length = 80 := by
  simp [headerBytes, appendUInt32]

/-- Whatever the decoder makes of written headers, it has read past their end. -/
theorem headers_read_past (message : HeadersMessage) (some : message.headers ≠ [])
    (fits : message.headers.length < 2 ^ 63)
    (stamped : ∀ header ∈ message.headers, Whole header.timestamp) :
    ∃ bytes, message.bitcoinData = .ok bytes ∧
      ∀ rest back, HeadersMessage.fromBitcoinStream (bytes ++ rest) ≠ .ok back rest := by
  have each : ∀ header ∈ message.headers, header.bitcoinData = .ok (written header.bitcoinData) ∧
      (written header.bitcoinData).length = 80 := by
    intro header mem
    obtain ⟨raw,stamp⟩ := stamped header mem
    rw [header_written stamp]
    exact ⟨rfl,headerBytes_length raw header⟩
  have total : ∀ headers : List BlockHeader, (∀ header ∈ headers, header ∈ message.headers) →
      (headers.flatMap (fun header => written header.bitcoinData)).length =
        headers.length * 80 := by
    intro headers inside
    induction headers with
    | nil => rfl
    | cons header headers ih =>
      have tail := ih (fun other mem => inside other (List.mem_cons_of_mem header mem))
      rw [List.flatMap_cons, List.length_append, tail, (each header (inside header (by simp))).2,
        List.length_cons]
      omega
  have headers := appendAll_written (fun header mem => (each header mem).1)
  refine ⟨_,by rw [HeadersMessage.bitcoinData, bind_ready headers]; rfl,?_⟩
  intro rest back run
  have positive : 0 < message.headers.length := List.length_pos_iff.mpr some
  have nonzero : ¬ UInt64.ofNat message.headers.length = 0 := by
    rw [count_zero_iff fits]
    omega
  rw [HeadersMessage.fromBitcoinStream, List.append_assoc, bind_ok (reads_count _ _),
    if_neg nonzero, count_toNat fits] at run
  obtain ⟨found,mid,read,run⟩ := bind_eq_ok.mp run
  cases run
  have past := takes_many takes_header message.headers.length _ _ _ read
  rw [List.length_append, total message.headers (fun _ mem => mem)] at past
  omega

def plainHeader : BlockHeader :=
  { version := 1, previousBlockHash := zeroHash, merkleRoot := zeroHash,
    timestamp := ((0 : UInt32).toNat : Rat), compactDifficulty := 0, nonce := 0 }

theorem plain_header_read_past :
    ∃ bytes, HeadersMessage.bitcoinData ⟨[plainHeader]⟩ = .ok bytes ∧
      ∀ rest back, HeadersMessage.fromBitcoinStream (bytes ++ rest) ≠ .ok back rest := by
  refine headers_read_past ⟨[plainHeader]⟩ (by decide) (by decide) ?_
  intro header mem
  rw [List.mem_singleton.mp mem]
  exact ⟨0,rfl⟩

/-- One header alone is refused, and with a zero behind it that zero is eaten. -/
theorem one_header_not_read_back :
    ∃ bytes, HeadersMessage.bitcoinData ⟨[plainHeader]⟩ = .ok bytes ∧
      HeadersMessage.fromBitcoinStream bytes = .fail ∧
      HeadersMessage.fromBitcoinStream (bytes ++ [0]) = .ok ⟨[plainHeader]⟩ [] := by
  refine ⟨[1] ++ headerBytes 0 plainHeader,?_,?_,?_⟩
  · rw [HeadersMessage.bitcoinData, List.map_singleton, header_written rfl]
    rfl
  · rfl
  · rfl

end Headers

end PeerCodec
