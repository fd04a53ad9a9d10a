import AltMessenger.DataReads
import AltMessenger.PayloadSafety
import AltMessenger.WalletStore

/-!
What the wallet makes of the input scripts of strangers: two pushes are read, however long they
say they are, and the first byte of the second one is taken for the kind of the script.
-/
namespace InputScripts
open ByteReader SwiftRuntime BitcoinStream BitcoinHash BitcoinTransaction BitcoinScript DataReads
open WalletStore

/-- Bytes behind their length. -/
def push (data : List UInt8) : List UInt8 := UInt8.ofNat data.length :: data

/-- The script is the two pushes and nothing else. -/
def Consumed (script : InputScriptSig) (bytes : List UInt8) : Prop :=
  script.derSignature.length < 256 ∧ script.publicKey.length < 256 ∧
    bytes = push script.derSignature ++ push script.publicKey

/-- No script stops the program, and one that is taken for a pay-to-key-hash script is two
    pushes. -/
structure Handled (D : Digests) (input : Input) : Prop where
  parses : ∃ script, InputScriptSig.ofData input.scriptSignature = .ok script
  creates : ∃ info, TransactionInputInfo.create D input = .ok info
  consumes : ∀ script, InputScriptSig.ofData input.scriptSignature = .ok (some script) →
    script.type = .P2PKH → Consumed script input.scriptSignature

/-- The bytes start as a public key does. -/
def KeyLike (bytes : List UInt8) : Prop :=
  ∃ first ∈ bytes.head?, first = 0x02 ∨ first = 0x03 ∨ first = 0x04

instance (bytes : List UInt8) : Decidable (KeyLike bytes) := by
  unfold KeyLike
  infer_instance

/-- What may stand behind the first push, from its length byte on: something, and if it starts as
    a public key does, as many bytes as the length says or fewer. A length of zero takes all. -/
def Tidy (length : UInt8) (tail : List UInt8) : Prop :=
  tail ≠ [] ∧ (length = 0 → tail.length < 2 ^ 32 ∧ ¬ KeyLike tail) ∧
    (length ≠ 0 → length.toNat < tail.length → ¬ KeyLike tail)

/-- Wherever a length, that many bytes (one at least) and one more byte are in front. -/
def Orderly (bytes : List UInt8) : Prop :=
  ∀ (length next : UInt8) (signature tail : List UInt8), length ≠ 0 →
    signature.length = length.toNat → bytes = length :: (signature ++ next :: tail) →
      Tidy next tail

section Key
variable {D : Digests} {input : Input} {length next : UInt8}
variable {signature behind tail key rest : List UInt8}

/-- The second push, by its length byte. -/
theorem key_read (next : UInt8) (tail : List UInt8) :
    (tail = [] ∧ readData next.toNat tail = .ok [] []) ∨
      (tail ≠ [] ∧ next = 0 ∧ readData next.toNat tail = .ok tail []) ∨
      (tail ≠ [] ∧ next ≠ 0 ∧ next.toNat ≤ tail.length ∧
        readData next.toNat tail = .ok (tail.take next.toNat) (tail.drop next.toNat)) ∨
      tail ≠ [] ∧ next ≠ 0 ∧ tail.length < next.toNat ∧ readData next.toNat tail = .fail := by
  by_cases zero : next = 0
  · subst zero
    by_cases dry : tail = []
    · subst dry
      exact Or.inl ⟨rfl,rfl⟩
    · exact Or.inr (Or.inl ⟨dry,rfl,rfl⟩)
  · have positive : 0 < next.toNat := by
      rw [Nat.pos_iff_ne_zero]
      exact fun none => zero (UInt8.toNat_inj.mp none)
    have byte := next.toNat_lt
    have read := readData_eq positive tail
    by_cases dry : tail = []
    · subst dry
      rw [if_neg (by simp [positive.ne']), if_pos (by simp)] at read
      exact Or.inl ⟨rfl,read⟩
    have some := List.length_pos_iff.mpr dry
    by_cases enough : next.toNat ≤ tail.length
    · rw [if_pos enough] at read
      exact Or.inr (Or.inr (Or.inl ⟨dry,zero,enough,read⟩))
    · rw [if_neg enough, if_neg (by omega)] at read
      exact Or.inr (Or.inr (Or.inr ⟨dry,zero,by omega,read⟩))

/-- Behind a first push that is all there, the second is read. -/
theorem parts_split (some : length ≠ 0) (size : signature.length = length.toNat) :
    InputScriptSig.parts (length :: (signature ++ next :: tail)) =
      (do let publicKey ← readData next.toNat; pure (signature,publicKey)) tail := by
  have bytes : signature ≠ [] := by
    rintro rfl
    exact some (UInt8.toNat_inj.mp size.symm)
  have read := reads_data signature bytes (next :: tail)
  rw [size] at read
  rw [InputScriptSig.parts, bind_ok (readUInt8_cons length _), bind_ok read,
    bind_ok (readUInt8_cons next tail)]

/-- Without two length bytes nothing is recognised. -/
theorem ofData_alone {bytes : List UInt8}
    (alone : ∀ (length next : UInt8) (signature tail : List UInt8), length ≠ 0 →
      signature.length = length.toNat → bytes ≠ length :: (signature ++ next :: tail)) :
    InputScriptSig.ofData bytes = .ok none := by
  cases bytes with
  | nil => rfl
  | cons length behind =>
    have refused : InputScriptSig.parts (length :: behind) = .fail := by
      rw [InputScriptSig.parts, bind_ok (readUInt8_cons length behind)]
      cases read : readData length.toNat behind with
      | trap e => exact absurd ⟨e,read⟩ (PayloadSafety.safe_data _ _)
      | fail => exact bind_fail read
      | ok signature mid =>
        rw [bind_ok read]
        cases mid with
        | nil => rfl
        | cons next tail =>
          obtain ⟨same,whole⟩ := readData_ok read
          have size : signature.length = length.toNat := by simpa using whole
          by_cases zero : length = 0
          · subst zero
            cases read
          · exact absurd (congrArg (length :: ·) same) (alone length next signature tail zero size)
    rw [InputScriptSig.ofData, if_neg (by simp), readOnce, refused]
    rfl

section Read
variable (run : InputScriptSig.parts (length :: behind) = .ok (signature,key) rest)
include run

theorem ofData_empty (none : key = []) :
    InputScriptSig.ofData (length :: behind) = .error .index := by
  subst none
  rw [InputScriptSig.ofData, if_neg (by simp), readOnce, run]
  rfl

theorem ofData_some (some_key : key ≠ []) :
    InputScriptSig.ofData (length :: behind) =
      .ok (some ⟨signature,key,if KeyLike key then .P2PKH else .P2SH⟩) := by
  obtain ⟨first,more,rfl⟩ := List.exists_cons_of_ne_nil some_key
  have same : KeyLike (first :: more) ↔ first = 0x02 ∨ first = 0x03 ∨ first = 0x04 := by
    simp [KeyLike]
  rw [InputScriptSig.ofData, if_neg (by simp), readOnce, run, if_congr same rfl rfl]
  rfl

end Read

theorem hash160_returns (D : Digests) (script : InputScriptSig) :
    (∃ hash, script.hash160 D = .ok hash) ↔ script.publicKey.length < 2 ^ 32 := by
  rw [InputScriptSig.hash160, Hash160.digest, SHA256.digest]
  split
  · rename_i short
    refine iff_of_true ⟨⟨D.ripemd160 (D.sha256 script.publicKey),D.ripemd160_length _⟩,?_⟩ short
    exact dif_pos (D.ripemd160_length _)
  · rename_i long
    refine iff_of_false ?_ long
    rintro ⟨hash,made⟩
    cases made

theorem creates_none (parsed : InputScriptSig.ofData input.scriptSignature = .ok none) :
    ∃ info, TransactionInputInfo.create D input = .ok info := by
  rw [TransactionInputInfo.create, bind_ready parsed]
  exact ⟨_,rfl⟩

theorem handled_none (parsed : InputScriptSig.ofData input.scriptSignature = .ok none) :
    Handled D input := by
  refine ⟨⟨_,parsed⟩,creates_none parsed,?_⟩
  intro script given
  cases parsed.symm.trans given

theorem creates_some {script : InputScriptSig}
    (parsed : InputScriptSig.ofData input.scriptSignature = .ok (some script)) :
    (∃ info, TransactionInputInfo.create D input = .ok info) ↔
      script.publicKey.length < 2 ^ 32 := by
  rw [← hash160_returns D, TransactionInputInfo.create, bind_ready parsed, keyHash]
  constructor
  · rintro ⟨info,made⟩
    obtain ⟨text,hashed,_⟩ := bind_ran.mp made
    obtain ⟨hash,hashed,_⟩ := bind_ran.mp hashed
    exact ⟨hash,hashed⟩
  · rintro ⟨hash,hashed⟩
    rw [bind_ready hashed]
    exact ⟨_,rfl⟩

theorem consumed_iff (size : signature.length = length.toNat) (type : InputScriptSigType) :
    Consumed ⟨signature,key,type⟩ (length :: (signature ++ next :: tail)) ↔
      key.length = next.toNat ∧ tail = key := by
  have byte := length.toNat_lt
  have byte' := next.toNat_lt
  have first : UInt8.ofNat signature.length = length := by rw [size, UInt8.ofNat_toNat]
  rw [Consumed]
  dsimp only
  rw [push, push, first]
  constructor
  · rintro ⟨_,short,same⟩
    rw [List.cons_append] at same
    obtain ⟨same_next,same_key⟩ :=
      List.cons.inj (List.append_cancel_left (List.cons.inj same).2)
    rw [same_next, UInt8.toNat_ofNat_of_lt' short]
    exact ⟨rfl,same_key⟩
  · rintro ⟨short,rfl⟩
    refine ⟨by omega,by omega,?_⟩
    rw [short, UInt8.ofNat_toNat]
    rfl

/-- Where a key is read, it must be short enough to be hashed, and the whole rest of the script if
    it looks like one. -/
theorem handled_key (bytes : input.scriptSignature = length :: behind)
    (run : InputScriptSig.parts (length :: behind) = .ok (signature,key) rest)
    (some_key : key ≠ []) : Handled D input ↔ key.length < 2 ^ 32 ∧
      (KeyLike key → Consumed ⟨signature,key,.P2PKH⟩ (length :: behind)) := by
  have parsed := ofData_some run some_key
  rw [← bytes] at parsed
  have created := @creates_some D input _ parsed
  constructor
  · intro handled
    refine ⟨created.mp handled.creates,?_⟩
    intro looks
    rw [if_pos looks] at parsed
    have consumed := handled.consumes _ parsed rfl
    rwa [bytes] at consumed
  · rintro ⟨short,consumed⟩
    refine ⟨⟨_,parsed⟩,created.mpr short,?_⟩
    intro script given kind
    cases parsed.symm.trans given
    dsimp only at kind
    by_cases looks : KeyLike key
    · have all := consumed looks
      rw [bytes, if_pos looks]
      exact all
    · rw [if_neg looks] at kind
      cases kind

theorem keyLike_take {count : Nat} (positive : count ≠ 0) :
    KeyLike (tail.take count) ↔ KeyLike tail := by
  rw [KeyLike, KeyLike, List.head?_take, if_neg positive]

/-- A script with two length bytes. -/
theorem handled_split (some : length ≠ 0) (size : signature.length = length.toNat)
    (bytes : input.scriptSignature = length :: (signature ++ next :: tail)) :
    Handled D input ↔ Tidy next tail := by
  have split := @parts_split length next signature tail some size
  rcases key_read next tail with ⟨rfl,read⟩ | ⟨more,rfl,read⟩ | ⟨more,nonzero,enough,read⟩ |
    ⟨more,nonzero,few,read⟩
  · rw [bind_ok read] at split
    have stops := ofData_empty split rfl
    rw [← bytes] at stops
    refine iff_of_false ?_ (fun tidy => tidy.1 rfl)
    intro handled
    obtain ⟨script,parsed⟩ := handled.parses
    cases stops.symm.trans parsed
  · -- a length of zero: the rest of the script is the key, and no push of that length
    rw [bind_ok read] at split
    have unlike : tail.length ≠ (0 : UInt8).toNat := (List.length_pos_iff.mpr more).ne'
    rw [handled_key bytes split more, consumed_iff size, Tidy]
    constructor
    · rintro ⟨short,consumed⟩
      exact ⟨more,fun _ => ⟨short,fun looks => unlike (consumed looks).1⟩,
        fun other => absurd rfl other⟩
    · rintro ⟨_,whole,_⟩
      obtain ⟨short,other⟩ := whole rfl
      exact ⟨short,fun looks => absurd looks other⟩
  · rw [bind_ok read] at split
    have byte := next.toNat_lt
    have count : next.toNat ≠ 0 := fun none => nonzero (UInt8.toNat_inj.mp none)
    have length_key : (tail.take next.toNat).length = next.toNat := by simp [enough]
    have key : tail.take next.toNat ≠ [] := by
      rw [← List.length_pos_iff, length_key]
      omega
    have all : tail = tail.take next.toNat ↔ ¬ next.toNat < tail.length := by
      rw [eq_comm, List.take_eq_self_iff]
      omega
    rw [handled_key bytes split key, consumed_iff size, keyLike_take count, length_key, all, Tidy]
    constructor
    · rintro ⟨_,consumed⟩
      exact ⟨more,fun zero => absurd zero nonzero,fun _ less looks => (consumed looks).2 less⟩
    · rintro ⟨_,_,other⟩
      exact ⟨by omega,fun looks => ⟨rfl,fun less => other nonzero less looks⟩⟩
  · rw [bind_fail read] at split
    have parsed : InputScriptSig.ofData input.scriptSignature = .ok none := by
      rw [bytes, InputScriptSig.ofData, if_neg (by simp), readOnce, split]
      rfl
    exact iff_of_true (handled_none parsed)
      ⟨more,fun zero => absurd zero nonzero,fun _ less => absurd less (by omega)⟩

end Key

/-- Every script is handled safely but those whose second push is not tidy. -/
theorem handled_iff (D : Digests) (input : Input) :
    Handled D input ↔ Orderly input.scriptSignature := by
  constructor
  · intro handled length next signature tail some size bytes
    exact (handled_split some size bytes).mp handled
  · intro orderly
    by_cases alone : ∀ (length next : UInt8) (signature tail : List UInt8), length ≠ 0 →
        signature.length = length.toNat →
          input.scriptSignature ≠ length :: (signature ++ next :: tail)
    · exact handled_none (ofData_alone alone)
    · push Not at alone
      obtain ⟨length,next,signature,tail,some,size,bytes⟩ := alone
      exact (handled_split some size bytes).mpr
        (orderly length next signature tail some size bytes)

/-- An input with this script. -/
def inputOf (scriptSignature : List UInt8) : Input where
  outPoint := ⟨PeerMessages.zeroHash,0⟩
  scriptSignature := scriptSignature
  sequence := 0
  userKey := none

/-- A push with nothing behind the length of the next stops the program, and a key with a byte
    behind it is taken for a key alone. -/
theorem cut_and_extended :
    InputScriptSig.ofData [1,0x30,33] = .error .index ∧
      InputScriptSig.ofData [1,0x30,1,0x02,0x6a] = .ok (some ⟨[0x30],[0x02],.P2PKH⟩) ∧
      ¬ Handled (Digests.known [] []) (inputOf [1,0x30,33]) ∧
      ¬ Handled (Digests.known [] []) (inputOf [1,0x30,1,0x02,0x6a]) := by
  have stops : InputScriptSig.ofData [1,0x30,33] = .error .index := by decide
  have taken : InputScriptSig.ofData [1,0x30,1,0x02,0x6a] =
      .ok (some ⟨[0x30],[0x02],.P2PKH⟩) := by decide
  refine ⟨stops,taken,?_,?_⟩
  · intro handled
    obtain ⟨script,parsed⟩ := handled.parses
    cases stops.symm.trans parsed
  · intro handled
    have consumed := (handled.consumes _ taken rfl).2.2
    revert consumed
    decide

end InputScripts
