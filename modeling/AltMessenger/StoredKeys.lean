import AltMessenger.WalletStore
import AltMessenger.TransactionBuilder

/-!
What is stored of a key, and the key that comes back. Numbers are written without
the zeros in front of them and then cut to 64 digits. A number that is shorter
cannot be cut, so a key survives only if its three numbers are long enough.
-/
namespace StoredKeys
open SwiftRuntime LittleEndian BitcoinHash BitcoinKeys

/-- `ECPoint.toData` -/
def toData (point : ECPoint) : Except Trap (List UInt8) := do
  let x ← unwrap point.x
  let y ← unwrap point.y
  pure ([0x04] ++ serialize x.value ++ serialize y.value)

def privateKeyHexString (key : CoinKey) : Except Trap (List Char) :=
  substring (toHexString (serialize key.privateKey)) 0 64

def publicKeyHashHex (D : Digests) (key : CoinKey) : Except Trap (List Char) :=
  if key.isCompressedPublicKeyAddress then do
    let data ← key.publicKeyPoint.toCompressedData
    let ripemd ← Hash160.digest D data
    pure (toHexString ripemd)
  else do
    let text ← key.publicKeyHexString
    let data ← hexStringToNSData text
    let ripemd ← Hash160.digest D data
    pure (toHexString ripemd)

/-- The stored record, with the fields that nothing reads but the record itself. -/
structure UserKeyInfo extends WalletStore.UserKeyInfo where
  id : Nat
  compressedPublicKey : List Char
  isCompressedPublicKey : Bool
  deriving DecidableEq

/-- `UserKeyInfo.create(key:)` -/
def create (D : Digests) (lastId : Nat) (key : CoinKey) : Except Trap UserKeyInfo := do
  let privateKey ← privateKeyHexString key
  let uncompressedPublicKey ← key.uncompressedPublicKeyHexString
  let compressedPublicKey ← key.compressedPublicKeyHexString
  let publicKeyHash ← publicKeyHashHex D key
  pure { privateKey, uncompressedPublicKey, publicKeyHash, UTXOs := [], id := lastId,
         compressedPublicKey, isCompressedPublicKey := key.isCompressedPublicKeyAddress }

/-- The stored texts make a key again, with the same numbers and the same hash. -/
def Reloads (D : Digests) (lastId : Nat) (privateKeyPrefix publicKeyPrefix : UInt8)
    (key : CoinKey) : Prop :=
  ∃ stored reloaded, create D lastId key = .ok stored ∧
    CoinKey.ofHex stored.privateKey stored.uncompressedPublicKey privateKeyPrefix publicKeyPrefix =
      .ok reloaded ∧
    reloaded.privateKey = key.privateKey ∧ reloaded.publicKeyPoint = key.publicKeyPoint ∧
    publicKeyHashHex D reloaded = .ok stored.publicKeyHash

/-- A number of 32 bytes, the first of which is not zero. -/
def FullWidth (number : Nat) : Prop := 256 ^ 31 ≤ number ∧ number < 256 ^ 32

instance (number : Nat) : Decidable (FullWidth number) := inferInstanceAs (Decidable (_ ∧ _))

def FullPoint (point : ECPoint) : Prop :=
  ∃ x y : FFInt, point = { x := some x, y := some y } ∧ FullWidth x.value ∧ FullWidth y.value

/-- Both encodings of the point have one hash, and so one address. -/
def SameHash (D : Digests) (point : ECPoint) : Prop :=
  (do let data ← toData point; Hash160.digest D data) =
    (do let data ← point.toCompressedData; Hash160.digest D data)

theorem serialize_length {number : Nat} (full : FullWidth number) :
    (serialize number).length = 32 := by
  rw [serialize_of_size full.1 full.2, List.length_reverse, toBytes_length]

theorem full_text {number : Nat} (full : FullWidth number) :
    (toHexString (serialize number)).length = 64 := by
  rw [toHexString_length, serialize_length full]

theorem cut_full {number : Nat} (full : FullWidth number) :
    substring (toHexString (serialize number)) 0 64 = .ok (toHexString (serialize number)) := by
  have whole := substring_between [] (toHexString (serialize number)) []
  rwa [full_text full, List.append_nil] at whole

theorem cut_ok {number : Nat} {text : List Char} (fits : number < 256 ^ 32)
    (cut : substring (toHexString (serialize number)) 0 64 = .ok text) : FullWidth number := by
  refine ⟨?_,fits⟩
  by_contra short
  have few := serialize_length_le (Nat.not_le.mp short)
  have length := toHexString_length (serialize number)
  rw [substring, if_neg (by omega)] at cut
  cases cut

theorem number_of_text (number : Nat) :
    bigUIntOfHex (toHexString (serialize number)) = some number := by
  rw [bigUIntOfHex_toHexString, bigUInt_serialize]

theorem field_fits (x : FFInt) : x.value < 256 ^ 32 := Nat.lt_trans x.small (by decide)

theorem coordinate_of_text (x : FFInt) : FFInt.ofHex (toHexString (serialize x.value)) = .ok x := by
  rw [FFInt.ofHex, number_of_text]
  exact dif_pos x.small

/-- The text of a point whose coordinates are both of full width. -/
theorem uncompressed_text {key : CoinKey} {x y : FFInt} (full_x : FullWidth x.value)
    (full_y : FullWidth y.value) (point : key.publicKeyPoint = { x := some x, y := some y }) :
    key.uncompressedPublicKeyHexString =
      .ok (['0','4'] ++ toHexString (serialize x.value) ++ toHexString (serialize y.value)) := by
  rw [CoinKey.uncompressedPublicKeyHexString, point,
    bind_ready (unwrap_ok.mpr rfl), bind_ready (cut_full full_x), bind_ready (unwrap_ok.mpr rfl),
    bind_ready (cut_full full_y)]
  rfl

theorem uncompressed_ok {key : CoinKey} {text : List Char}
    (run : key.uncompressedPublicKeyHexString = .ok text) : FullPoint key.publicKeyPoint := by
  obtain ⟨x,hx,run⟩ := bind_ran.mp run
  obtain ⟨xStr,cut_x,run⟩ := bind_ran.mp run
  obtain ⟨y,hy,run⟩ := bind_ran.mp run
  obtain ⟨yStr,cut_y,_⟩ := bind_ran.mp run
  refine ⟨x,y,?_,cut_ok (field_fits x) cut_x,cut_ok (field_fits y) cut_y⟩
  rw [← unwrap_ok.mp hx, ← unwrap_ok.mp hy]

theorem point_of_text {x y : FFInt} (full_x : FullWidth x.value) (full_y : FullWidth y.value) :
    pointFromHex (['0','4'] ++ toHexString (serialize x.value) ++ toHexString (serialize y.value)) =
      .ok { x := some x, y := some y } := by
  have first := substring_between ['0','4'] (toHexString (serialize x.value))
    (toHexString (serialize y.value))
  have second := substring_between (['0','4'] ++ toHexString (serialize x.value))
    (toHexString (serialize y.value)) []
  rw [full_text full_x, ← List.append_assoc] at first
  rw [full_text full_y, List.append_nil, List.length_append, full_text full_x] at second
  change substring _ 2 64 = _ at first
  change substring _ 66 64 = _ at second
  rw [pointFromHex, bind_ready first, bind_ready second, bind_ready (coordinate_of_text x),
    bind_ready (coordinate_of_text y)]
  rfl

/-- The bytes of a point of full width in both encodings. -/
theorem encodings {x y : FFInt} (full_y : FullWidth y.value) :
    ∃ data, ECPoint.toCompressedData { x := some x, y := some y } = .ok data ∧
      data.length < 2 ^ 32 ∧
      toData { x := some x, y := some y } =
        .ok ([0x04] ++ serialize x.value ++ serialize y.value) ∧
      ([0x04] ++ serialize x.value ++ serialize y.value).length < 2 ^ 32 := by
  have positive : 0 < y.value := Nat.lt_of_lt_of_le (by decide) full_y.1
  obtain ⟨data,run,short⟩ := toCompressedData_ok (x := x) positive
  have short_x := serialize_length_le (field_fits x)
  have short_y := serialize_length_le (field_fits y)
  refine ⟨data,run,by omega,rfl,?_⟩
  simp only [List.length_append, List.length_cons, List.length_nil]
  omega

theorem hash160_short (D : Digests) {data : List UInt8} (short : data.length < 2 ^ 32) :
    Hash160.digest D data = .ok (D.ripemd160 (D.sha256 data)) := by
  rw [Hash160.digest, SHA256.digest, if_pos short]
  rfl

/-- The stored hash is that of the encoding the key's address is made from. -/
theorem hash_of_encoding (D : Digests) {key : CoinKey} {x y : FFInt} {data : List UInt8}
    (full_x : FullWidth x.value) (full_y : FullWidth y.value)
    (point : key.publicKeyPoint = { x := some x, y := some y })
    (compressed : ECPoint.toCompressedData { x := some x, y := some y } = .ok data)
    (short : data.length < 2 ^ 32)
    (short' : ([0x04] ++ serialize x.value ++ serialize y.value).length < 2 ^ 32) :
    publicKeyHashHex D key = .ok (toHexString (D.ripemd160 (D.sha256
      (if key.isCompressedPublicKeyAddress then data
        else [0x04] ++ serialize x.value ++ serialize y.value)))) := by
  rw [publicKeyHashHex]
  cases form : key.isCompressedPublicKeyAddress with
  | true =>
    rw [if_pos rfl, if_pos rfl, point, bind_ready compressed, bind_ready (hash160_short D short)]
    rfl
  | false =>
    have text : key.publicKeyHexString =
        .ok (toHexString ([0x04] ++ serialize x.value ++ serialize y.value)) := by
      rw [CoinKey.publicKeyHexString, form, if_neg (by decide),
        uncompressed_text full_x full_y point]
      simp only [toHexString, List.flatMap_append]
      rfl
    rw [if_neg (by decide), if_neg (by decide), bind_ready text,
      bind_ready (hexStringToNSData_toHexString _), bind_ready (hash160_short D short')]
    rfl

/-- The key that is made of the texts of a key of full width. -/
theorem reloaded_key {key : CoinKey} {x y : FFInt} (p q : UInt8) (full_x : FullWidth x.value)
    (full_y : FullWidth y.value) :
    CoinKey.ofHex (toHexString (serialize key.privateKey))
      (['0','4'] ++ toHexString (serialize x.value) ++ toHexString (serialize y.value)) p q =
        .ok { privateKey := key.privateKey
              publicKeyPoint := { x := some x, y := some y }
              isCompressedPublicKeyAddress := true
              privateKeyPrefix := p
              publicKeyPrefix := q } := by
  rw [CoinKey.ofHex, bind_ready (point_of_text full_x full_y), number_of_text]
  rfl

/-- A key is stored if its three numbers are of full width. -/
theorem created {D : Digests} {lastId : Nat} {key : CoinKey} {x y : FFInt}
    (full : FullWidth key.privateKey) (full_x : FullWidth x.value) (full_y : FullWidth y.value)
    (point : key.publicKeyPoint = { x := some x, y := some y }) :
    ∃ stored, create D lastId key = .ok stored := by
  obtain ⟨data,compressed,short,_,short'⟩ := encodings (x := x) full_y
  have text : key.compressedPublicKeyHexString = .ok (toHexString data) := by
    rw [CoinKey.compressedPublicKeyHexString, point, bind_ready compressed]
    rfl
  rw [create, privateKeyHexString, bind_ready (cut_full full),
    bind_ready (uncompressed_text full_x full_y point), bind_ready text,
    bind_ready (hash_of_encoding D full_x full_y point compressed short short')]
  exact ⟨_,rfl⟩

/-- And only then; what is stored are the texts of the three numbers. -/
theorem create_ran {D : Digests} {lastId : Nat} {key : CoinKey} {stored : UserKeyInfo}
    (below : key.privateKey < order) (run : create D lastId key = .ok stored) :
    FullWidth key.privateKey ∧ ∃ x y : FFInt,
      key.publicKeyPoint = { x := some x, y := some y } ∧ FullWidth x.value ∧ FullWidth y.value ∧
      stored.privateKey = toHexString (serialize key.privateKey) ∧
      stored.uncompressedPublicKey =
        ['0','4'] ++ toHexString (serialize x.value) ++ toHexString (serialize y.value) ∧
      publicKeyHashHex D key = .ok stored.publicKeyHash := by
  obtain ⟨privateKey,cut,run⟩ := bind_ran.mp run
  obtain ⟨uncompressed,text,run⟩ := bind_ran.mp run
  obtain ⟨compressed,_,run⟩ := bind_ran.mp run
  obtain ⟨publicKeyHash,hash,run⟩ := bind_ran.mp run
  cases run
  have full := cut_ok (Nat.lt_trans below (by decide)) cut
  obtain ⟨x,y,point,full_x,full_y⟩ := uncompressed_ok text
  rw [uncompressed_text full_x full_y point] at text
  rw [privateKeyHexString, cut_full full] at cut
  cases text
  cases cut
  exact ⟨full,x,y,point,full_x,full_y,rfl,rfl,hash⟩

/-- A stored key of the compressed form can be signed with. -/
theorem stored_key_valid {D : Digests} {lastId : Nat} {key : CoinKey} {stored : UserKeyInfo}
    (valid : key.Valid) (run : create D lastId key = .ok stored) (p q : UInt8) :
    ∃ coinKey, CoinKey.ofHex stored.privateKey stored.uncompressedPublicKey p q = .ok coinKey ∧
      coinKey.Valid := by
  obtain ⟨_,x,y,_,full_x,full_y,private_text,public_text,_⟩ := create_ran valid.private_below run
  refine ⟨_,by rw [private_text, public_text]; exact reloaded_key p q full_x full_y,?_⟩
  exact ⟨valid.private_positive,valid.private_below,rfl,x,y,rfl,
    Nat.lt_of_lt_of_le (by decide) full_y.1⟩

/-- The hash of a key and that of its compressed reload are the same on this
    condition. -/
theorem same_hash_iff {D : Digests} {key reloaded : CoinKey} (full : FullPoint key.publicKeyPoint)
    (same : reloaded.publicKeyPoint = key.publicKeyPoint)
    (compressed : reloaded.isCompressedPublicKeyAddress = true) :
    publicKeyHashHex D reloaded = publicKeyHashHex D key ↔
      key.isCompressedPublicKeyAddress = true ∨ SameHash D key.publicKeyPoint := by
  obtain ⟨x,y,point,full_x,full_y⟩ := full
  obtain ⟨data,run,short,run',short'⟩ := encodings (x := x) full_y
  have both : SameHash D key.publicKeyPoint ↔ D.ripemd160 (D.sha256
      ([0x04] ++ serialize x.value ++ serialize y.value)) = D.ripemd160 (D.sha256 data) := by
    rw [SameHash, point, bind_ready run, bind_ready run', hash160_short D short,
      hash160_short D short', Except.ok.injEq]
  rw [hash_of_encoding D full_x full_y (same.trans point) run short short', compressed, if_pos rfl,
    hash_of_encoding D full_x full_y point run short short', both, Except.ok.injEq]
  cases key.isCompressedPublicKeyAddress with
  | true => simp
  | false =>
    simp only [Bool.false_eq_true, if_false, false_or]
    constructor
    · intro texts
      exact (toHexString_injective texts).symm
    · intro hashes
      rw [hashes]

/-- A key below the order reloads as itself exactly when its scalar and both
    coordinates are of full width, and its address is of the compressed form. -/
theorem stored_key_reloads_iff (D : Digests) (lastId : Nat)
    (privateKeyPrefix publicKeyPrefix : UInt8) (key : CoinKey) (below : key.privateKey < order) :
    Reloads D lastId privateKeyPrefix publicKeyPrefix key ↔
      (FullWidth key.privateKey ∧ FullPoint key.publicKeyPoint) ∧
        (key.isCompressedPublicKeyAddress = true ∨ SameHash D key.publicKeyPoint) := by
  constructor
  · rintro ⟨stored,reloaded,run,made,_,point,hash⟩
    obtain ⟨full,x,y,affine,full_x,full_y,private_text,public_text,stored_hash⟩ :=
      create_ran below run
    rw [private_text, public_text, reloaded_key _ _ full_x full_y] at made
    have full_point : FullPoint key.publicKeyPoint := ⟨x,y,affine,full_x,full_y⟩
    have compressed : reloaded.isCompressedPublicKeyAddress = true := by
      cases made
      rfl
    exact ⟨⟨full,full_point⟩,
      (same_hash_iff full_point point compressed).mp (hash.trans stored_hash.symm)⟩
  · rintro ⟨⟨full,full_point⟩,form⟩
    obtain ⟨x,y,point,full_x,full_y⟩ := full_point
    obtain ⟨stored,run⟩ := @created D lastId key x y full full_x full_y point
    obtain ⟨_,x',y',point',full_x',full_y',private_text,public_text,stored_hash⟩ :=
      create_ran below run
    have made := @reloaded_key key x' y' privateKeyPrefix publicKeyPrefix full_x' full_y'
    rw [← private_text, ← public_text] at made
    refine ⟨stored,_,run,made,rfl,point'.symm,?_⟩
    rw [← stored_hash]
    exact (same_hash_iff ⟨x,y,point,full_x,full_y⟩ point'.symm rfl).mpr form

theorem highestKey_x :
    0x79be667ef9dcbbac55a06295ce870b07029bfcdb2dce28d959f2815b16f81798 < fieldPrime := by
  decide

theorem highestKey_y :
    0xb7c52588d95c3b9aa25b0403f1eef75702e84bb7597aabe663b82f6f04ef2777 < fieldPrime := by
  decide

/-- The key before the order: the base point mirrored. -/
def highestKey : CoinKey where
  privateKey := order - 1
  publicKeyPoint := {
    x := some ⟨0x79be667ef9dcbbac55a06295ce870b07029bfcdb2dce28d959f2815b16f81798,highestKey_x⟩
    y := some ⟨0xb7c52588d95c3b9aa25b0403f1eef75702e84bb7597aabe663b82f6f04ef2777,highestKey_y⟩ }
  isCompressedPublicKeyAddress := true
  privateKeyPrefix := 0xef
  publicKeyPrefix := 0x6f

theorem highestKey_reloads : Reloads (Digests.known [] []) 1 0xef 0x6f highestKey :=
  (stored_key_reloads_iff (Digests.known [] []) 1 0xef 0x6f highestKey (by decide)).mpr
    ⟨⟨by decide,⟨_,_,rfl,by decide,by decide⟩⟩,Or.inl rfl⟩

/-- The text of the scalar one has two digits, of which 64 are asked for. -/
theorem lowest_key_not_stored :
    create (Digests.known [] []) 1 TransactionBuilder.baseKey = .error .index ∧
      ¬ Reloads (Digests.known [] []) 1 0xef 0x6f TransactionBuilder.baseKey := by
  have trapped : create (Digests.known [] []) 1 TransactionBuilder.baseKey = .error .index := rfl
  refine ⟨trapped,?_⟩
  rintro ⟨stored,_,run,_⟩
  rw [trapped] at run
  cases run

end StoredKeys
