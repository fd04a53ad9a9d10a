import AltMessenger.LittleEndian
import AltMessenger.ReplicatedStore

/-!
Data sealed with ChaCha20-Poly1305 under nonces made of the clock. The C routines give back how
many bytes they wrote, or would write where there is no buffer; `Data` asks for the length first,
and then takes the whole buffer for the result.
-/
namespace SealedData
open LittleEndian ReplicatedStore

/-- `gettimeofday` -/
structure Timeval where
  tv_sec : Int
  tv_usec : Nat
  usec_lt : tv_usec < 1000000

/-- The text of both `genNonce`: the product and the sum stay below 2^64. -/
def nonceOf (tv : Timeval) : List UInt8 :=
  List.replicate 4 0 ++ toBytes 8 (tv.tv_usec * 1000000 + tv.tv_usec)

def Data.genNonce (tv : Timeval) : List UInt8 := nonceOf tv

def BRReplicatedKVStore.genNonce (tv : Timeval) : List UInt8 := nonceOf tv

def UINT32_MAX : Nat := 2 ^ 32 - 1

/-- The bytes that `BRChacha20` lays over the data, from the second block on, and the tag that
    `_BRPoly1305Compress` makes of a sealed text under the first block. -/
structure Primitives (Key : Type) where
  stream : Key → List UInt8 → Nat → UInt8
  tag : Key → List UInt8 → List UInt8 → List UInt8
  tag_length : ∀ key nonce text, (tag key nonce text).length = 16

variable {Key : Type} (P : Primitives Key) (key : Key)

def BRChacha20 (nonce data : List UInt8) : List UInt8 :=
  data.mapIdx fun i b => b ^^^ P.stream key nonce i

/-- What is returned, and the buffer afterwards. Twelve bytes are read of the nonce. -/
def BRChacha20Poly1305AEADEncrypt (out : Option (List UInt8)) (nonce data : List UInt8) :
    Nat × List UInt8 :=
  match out with
  | none => (data.length + 16, [])
  | some out =>
    if out.length < data.length + 16 ∨ data.length / 64 ≥ UINT32_MAX then (0, out)
    else
      let text := BRChacha20 P key (nonce.take 12) data
      (data.length + 16,
        text ++ P.tag key (nonce.take 12) text ++ out.drop (data.length + 16))

def BRChacha20Poly1305AEADDecrypt (out : Option (List UInt8)) (nonce data : List UInt8) :
    Nat × List UInt8 :=
  match out with
  | none => (if data.length < 16 then 0 else data.length - 16, [])
  | some out =>
    if data.length < 16 ∨ (data.length - 16) / 64 ≥ UINT32_MAX ∨
        out.length + 16 < data.length then
      (0, out)
    else
      let text := data.take (data.length - 16)
      let outLen :=
        if data.drop (data.length - 16) = P.tag key (nonce.take 12) text then data.length - 16
        else 0
      (outLen, BRChacha20 P key (nonce.take 12) (text.take outLen) ++ out.drop outLen)

def chacha20Poly1305AEADEncrypt (now : Timeval) (data : List UInt8) : List UInt8 :=
  let nonce := Data.genNonce now
  let (outSize, _) := BRChacha20Poly1305AEADEncrypt P key none nonce data
  let outData := List.replicate outSize 0
  let (_, outData) := BRChacha20Poly1305AEADEncrypt P key (some outData) nonce data
  nonce ++ outData

/-- The nonce is taken one byte too long, and what the second call returns is dropped. -/
def chacha20Poly1305AEADDecrypt (data : List UInt8) : Except Stop (List UInt8) :=
  if data.length > 12 then
    let nonce := data.take 13
    let inData := data.drop 12
    let (outSize, _) := BRChacha20Poly1305AEADDecrypt P key none nonce inData
    let outData := List.replicate outSize 0
    let (_, outData) := BRChacha20Poly1305AEADDecrypt P key (some outData) nonce inData
    .ok outData
  else throwing .malformedData

/-- The counter of the blocks does not run over. -/
def Short (data : List UInt8) : Prop := data.length / 64 < UINT32_MAX

/-- Data under a nonce, with its tag. -/
def sealedWith (nonce data : List UInt8) : List UInt8 :=
  nonce ++ (BRChacha20 P key nonce data ++ P.tag key nonce (BRChacha20 P key nonce data))

/-- What the key sealed to this. -/
def Authentic (bytes data : List UInt8) : Prop :=
  Short data ∧ ∃ nonce, nonce.length = 12 ∧ bytes = sealedWith P key nonce data

theorem chacha20_length (nonce data : List UInt8) :
    (BRChacha20 P key nonce data).length = data.length := List.length_mapIdx

/-- The stream is taken off again. -/
theorem chacha20_chacha20 (nonce data : List UInt8) :
    BRChacha20 P key nonce (BRChacha20 P key nonce data) = data := by
  have size : (BRChacha20 P key nonce (BRChacha20 P key nonce data)).length = data.length := by
    rw [chacha20_length, chacha20_length]
  refine List.ext_getElem size fun i _ inside => ?_
  simp only [BRChacha20, List.getElem_mapIdx]
  rw [UInt8.xor_assoc, UInt8.xor_self, UInt8.xor_zero]

theorem nonce_length (tv : Timeval) : (nonceOf tv).length = 12 := by
  rw [nonceOf, List.length_append, List.length_replicate, toBytes_length]

section Opening
variable {P key}

theorem short_count {data : List UInt8} (short : Short data) : ¬ data.length / 64 ≥ UINT32_MAX :=
  not_le.mpr short

theorem encrypt_short {now : Timeval} {data : List UInt8} (short : Short data) :
    chacha20Poly1305AEADEncrypt P key now data = sealedWith P key (nonceOf now) data := by
  have nonce : (Data.genNonce now).take 12 = nonceOf now :=
    List.take_of_length_le (nonce_length now).le
  have room : ¬ ((List.replicate (data.length + 16) (0 : UInt8)).length < data.length + 16 ∨
      data.length / 64 ≥ UINT32_MAX) := by
    rw [List.length_replicate, not_or]
    exact ⟨Nat.lt_irrefl _,short_count short⟩
  dsimp only [chacha20Poly1305AEADEncrypt, BRChacha20Poly1305AEADEncrypt]
  rw [if_neg room, nonce, List.drop_eq_nil_of_le (by rw [List.length_replicate]), List.append_nil]
  rfl

/-- Data that is too long is not sealed, and zeros stand for it. -/
theorem encrypt_long {now : Timeval} {data : List UInt8} (long : ¬ Short data) :
    chacha20Poly1305AEADEncrypt P key now data =
      nonceOf now ++ List.replicate (data.length + 16) 0 := by
  dsimp only [chacha20Poly1305AEADEncrypt, BRChacha20Poly1305AEADEncrypt]
  rw [if_pos (Or.inr (not_lt.mp long))]
  rfl

/-- What the second call leaves in a buffer of the length that the first one gave. -/
theorem decrypt_eq {data : List UInt8} (long : 12 < data.length) :
    chacha20Poly1305AEADDecrypt P key data =
      .ok (if 28 ≤ data.length ∧ (data.length - 28) / 64 < UINT32_MAX ∧
          data.drop (data.length - 16) =
            P.tag key (data.take 12) ((data.drop 12).take (data.length - 28)) then
        BRChacha20 P key (data.take 12) ((data.drop 12).take (data.length - 28))
      else List.replicate (data.length - 28) 0) := by
  have nonce : (data.take 13).take 12 = data.take 12 := by
    rw [List.take_take]
    rfl
  have size : (data.drop 12).length = data.length - 12 := List.length_drop
  have text : data.length - 12 - 16 = data.length - 28 := by omega
  dsimp only [chacha20Poly1305AEADDecrypt, BRChacha20Poly1305AEADDecrypt]
  rw [if_pos long, nonce, size]
  by_cases whole : data.length - 12 < 16
  · have none_left : data.length - 28 = 0 := by omega
    rw [if_pos whole, if_pos (Or.inl whole), if_neg (by omega), none_left]
  · rw [if_neg whole, List.length_replicate, text]
    by_cases short : (data.length - 28) / 64 < UINT32_MAX
    · have tag : (data.drop 12).drop (data.length - 28) = data.drop (data.length - 16) := by
        rw [List.drop_drop]
        congr 1
        omega
      have filled : (List.replicate (data.length - 28) (0 : UInt8)).drop (data.length - 28) = [] :=
        List.drop_eq_nil_of_le (by rw [List.length_replicate])
      rw [if_neg (by omega), tag]
      by_cases same : data.drop (data.length - 16) =
          P.tag key (data.take 12) ((data.drop 12).take (data.length - 28))
      · rw [if_pos same, if_pos ⟨by omega,short,same⟩, List.take_take, min_self, filled,
          List.append_nil]
      · rw [if_neg same, if_neg fun met => same met.2.2]
        rfl
    · rw [if_pos (Or.inr (Or.inl (not_lt.mp short))), if_neg fun met => short met.2.1]

theorem sealed_length {nonce : List UInt8} (whole : nonce.length = 12) (data : List UInt8) :
    (sealedWith P key nonce data).length = data.length + 28 := by
  rw [sealedWith, List.length_append, List.length_append, chacha20_length, P.tag_length, whole]
  omega

theorem decrypt_authentic {bytes data : List UInt8} (authentic : Authentic P key bytes data) :
    chacha20Poly1305AEADDecrypt P key bytes = .ok data := by
  obtain ⟨short,nonce,whole,same⟩ := authentic
  subst same
  have size : (sealedWith P key nonce data).length = data.length + 28 := sealed_length whole data
  have front : (sealedWith P key nonce data).take 12 = nonce := List.take_left' whole
  have rest : (sealedWith P key nonce data).drop 12 =
      BRChacha20 P key nonce data ++ P.tag key nonce (BRChacha20 P key nonce data) :=
    List.drop_left' whole
  have text : ((sealedWith P key nonce data).drop 12).take data.length =
      BRChacha20 P key nonce data := by
    rw [rest]
    exact List.take_left' (chacha20_length P key nonce data)
  have tag : (sealedWith P key nonce data).drop (data.length + 12) =
      P.tag key nonce (BRChacha20 P key nonce data) := by
    rw [Nat.add_comm, ← List.drop_drop, rest]
    exact List.drop_left' (chacha20_length P key nonce data)
  rw [decrypt_eq (by omega), size, Nat.add_sub_cancel, front, text]
  have start : data.length + 28 - 16 = data.length + 12 := rfl
  rw [start, tag, if_pos ⟨by omega,short,rfl⟩, chacha20_chacha20]

/-- For what the key did not seal there are zeros, as many as the text would have. -/
theorem decrypt_forged {bytes : List UInt8} (long : 12 < bytes.length)
    (forged : ¬ ∃ data, Authentic P key bytes data) :
    chacha20Poly1305AEADDecrypt P key bytes = .ok (List.replicate (bytes.length - 28) 0) := by
  rw [decrypt_eq long, if_neg]
  rintro ⟨whole,short,tag⟩
  have size : ((bytes.drop 12).take (bytes.length - 28)).length = bytes.length - 28 := by
    rw [List.length_take, List.length_drop]
    omega
  refine forged ⟨BRChacha20 P key (bytes.take 12) ((bytes.drop 12).take (bytes.length - 28)),
    ?_,bytes.take 12,?_,?_⟩
  · rw [Short, chacha20_length, size]
    exact short
  · rw [List.length_take]
    omega
  · have after : (bytes.drop 12).drop (bytes.length - 28) = bytes.drop (bytes.length - 16) := by
      rw [List.drop_drop]
      congr 1
      omega
    rw [sealedWith, chacha20_chacha20, ← tag, ← after, List.take_append_drop,
      List.take_append_drop]

theorem decrypt_short {bytes : List UInt8} (short : ¬ 12 < bytes.length) :
    chacha20Poly1305AEADDecrypt P key bytes = throwing .malformedData := if_neg short

/-- Too short for a nonce, or sealed by the key. -/
def Acceptable (P : Primitives Key) (key : Key) (bytes : List UInt8) : Prop :=
  bytes.length ≤ 12 ∨ ∃ data, Authentic P key bytes data

theorem decrypt_sound_iff (bytes : List UInt8) :
    (∀ data, chacha20Poly1305AEADDecrypt P key bytes = .ok data → Authentic P key bytes data) ↔
      Acceptable P key bytes := by
  constructor
  · intro sound
    by_cases long : 12 < bytes.length
    · by_cases sealed_by_key : ∃ data, Authentic P key bytes data
      · exact Or.inr sealed_by_key
      · exact Or.inr ⟨_,sound _ (decrypt_forged long sealed_by_key)⟩
    · exact Or.inl (not_lt.mp long)
  · intro acceptable data opened
    rcases acceptable with short | ⟨other,authentic⟩
    · rw [decrypt_short (not_lt.mpr short)] at opened
      cases opened
    · rw [decrypt_authentic authentic] at opened
      cases opened
      exact authentic

/-- Data is given back unless it is too long and has anything in it. -/
theorem decrypt_encrypt_iff (now : Timeval) (data : List UInt8) :
    chacha20Poly1305AEADDecrypt P key (chacha20Poly1305AEADEncrypt P key now data) = .ok data ↔
      Short data ∨ data = List.replicate data.length 0 := by
  by_cases short : Short data
  · refine iff_of_true (decrypt_authentic ?_) (Or.inl short)
    exact ⟨short,nonceOf now,nonce_length now,encrypt_short short⟩
  · have size : (nonceOf now ++ List.replicate (data.length + 16) (0 : UInt8)).length =
        data.length + 28 := by
      rw [List.length_append, nonce_length, List.length_replicate]
      omega
    rw [encrypt_long short, decrypt_eq (by omega), size, Nat.add_sub_cancel,
      if_neg fun met => short met.2.1, or_iff_right short]
    exact ⟨fun same => (Except.ok.inj same).symm,fun same => congrArg _ same.symm⟩

end Opening

section Nonces

/-- The microseconds since the epoch. -/
def Timeval.microseconds (tv : Timeval) : Int := tv.tv_sec * 1000000 + tv.tv_usec

/-- 500000 years of 366 days. -/
def span : Int := 500000 * 366 * 86400 * 1000000

/-- Two calls of the generators at distinct instants within the span give distinct nonces, and so
    do two encryptions under one key. -/
def NoncesDiffer (now later : Timeval) : Prop :=
  now.microseconds ≠ later.microseconds → |now.microseconds - later.microseconds| ≤ span →
    (∀ g ∈ [Data.genNonce, BRReplicatedKVStore.genNonce],
      ∀ g' ∈ [Data.genNonce, BRReplicatedKVStore.genNonce], g now ≠ g' later) ∧
    ∀ data other, (chacha20Poly1305AEADEncrypt P key now data).take 12 ≠
      (chacha20Poly1305AEADEncrypt P key later other).take 12

/-- The number that a nonce is made of fits its bytes. -/
theorem nonceOf_inj {now later : Timeval} :
    nonceOf now = nonceOf later ↔ now.tv_usec = later.tv_usec := by
  constructor
  · intro same
    have below := now.usec_lt
    have later_below := later.usec_lt
    have numbers := congrArg ofBytes (List.append_cancel_left same)
    rw [ofBytes_toBytes 8 _ (by omega), ofBytes_toBytes 8 _ (by omega)] at numbers
    omega
  · intro same
    rw [nonceOf, nonceOf, same]

theorem encrypt_nonce (now : Timeval) (data : List UInt8) :
    (chacha20Poly1305AEADEncrypt P key now data).take 12 = nonceOf now :=
  List.take_left' (nonce_length now)

/-- The seconds do not come into the nonce: two instants are told apart by it exactly if their
    parts of a second differ. -/
theorem nonces_differ_iff (now later : Timeval) : NoncesDiffer P key now later ↔
    now.microseconds = later.microseconds ∨ span < |now.microseconds - later.microseconds| ∨
      now.tv_usec ≠ later.tv_usec := by
  constructor
  · intro differ
    by_contra none_of_them
    obtain ⟨distinct,near,same⟩ := by simpa only [not_or, not_not, not_lt] using none_of_them
    have other := (differ distinct near).2 [] []
    rw [encrypt_nonce, encrypt_nonce] at other
    exact other (nonceOf_inj.mpr same)
  · intro reason distinct near
    have parts : now.tv_usec ≠ later.tv_usec := by
      rcases reason with same | far | parts
      · exact absurd same distinct
      · exact absurd near (not_le.mpr far)
      · exact parts
    have nonces : nonceOf now ≠ nonceOf later := mt nonceOf_inj.mp parts
    constructor
    · intro g some_g g' some_g'
      have every : ∀ g ∈ [Data.genNonce, BRReplicatedKVStore.genNonce], g = nonceOf := by
        intro g there
        rcases List.mem_pair.mp there with same | same
        · exact same
        · exact same
      rw [every g some_g, every g' some_g']
      exact nonces
    · intro data other
      rw [encrypt_nonce, encrypt_nonce]
      exact nonces

end Nonces

/-- No stream and no tag. -/
def nullPrimitives : Primitives Unit where
  stream _ _ _ := 0
  tag _ _ _ := List.replicate 16 0
  tag_length _ _ _ := List.length_replicate

/-- A second later the nonce is the same again. -/
theorem nonce_comes_again : ¬ ∀ now later, NoncesDiffer nullPrimitives () now later := by
  intro all
  have differ := all ⟨0,500000,by decide⟩ ⟨1,500000,by decide⟩ (by decide) (by decide)
  have nonces := differ.1 Data.genNonce List.mem_cons_self Data.genNonce List.mem_cons_self
  exact nonces rfl

end SealedData
