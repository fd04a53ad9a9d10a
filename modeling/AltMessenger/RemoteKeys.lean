import AltMessenger.KeySync
import AltMessenger.LittleEndian
import AltMessenger.UTF8Text

/-!
The list of keys that the remote store answers with: how it is documented, and how it is read. A
number that goes past the end of the data reads as zero, a key that does is a trap.
-/
namespace RemoteKeys
open SwiftRuntime LittleEndian UTF8Text
open KeySync (BRRemoteKVStoreError)

abbrev Data := List UInt8

/-- Little-endian numbers of a size, at an offset. -/
def uIntAt (size : Nat) (data : Data) (offset : Nat) : Nat :=
  if data.length < offset + size then 0 else ofBytes ((data.drop offset).take size)

def uInt8 (data : Data) (offset : Nat) : UInt8 := .ofNat (uIntAt 1 data offset)

def uInt32 (data : Data) (offset : Nat) : UInt32 := .ofNat (uIntAt 4 data offset)

def uInt64 (data : Data) (offset : Nat) : UInt64 := .ofNat (uIntAt 8 data offset)

/-- `subdata(in: start..<upTo)` -/
def subdata (data : Data) (start upTo : Nat) : Except Trap Data :=
  if upTo ≤ data.length then .ok ((data.drop start).take (upTo - start)) else .error .index

/-- An item of the list; its date is known by the milliseconds that it is made of. -/
structure Item where
  key : List Char
  version : UInt64
  msTs : UInt64
  deleted : Bool
  deriving DecidableEq, Repr

abbrev Answer := List Item × Option BRRemoteKVStoreError

/-- The item at an offset, and where the next one is, or nothing where the key is no text. -/
def readItem (data : Data) (i : Nat) : Except Trap (Option (Item × Nat)) := do
  let keyLen := (uInt32 data i).toNat
  let i := i + 4
  let bytes ← subdata data i (i + keyLen)
  match ofUTF8 bytes with
  | none => .ok none
  | some key =>
    let i := i + keyLen
    .ok (some (⟨key,uInt64 data i,uInt64 data (i + 8),uInt8 data (i + 16) > 0⟩, i + 17))

def readItems (data : Data) : Nat → Nat → List Item → Except Trap Answer
  | 0, _, items => .ok (items, none)
  | c + 1, i, items => do
    match ← readItem data i with
    | none => .ok ([], some .unknown)
    | some (item, next) => readItems data c next (items ++ [item])

def decodeKeys (dat : Data) : Except Trap Answer := readItems dat (uInt32 dat 0).toNat 4 []

/-- `keys`, given the error, the status and the data of the answer. -/
def keys (err : Bool) (statusCode : Option Int) (dat : Option Data) : Except Trap Answer :=
  match err, statusCode, dat with
  | false, some 200, some dat => decodeKeys dat
  | _, _, _ => .ok ([], some .unknown)

/-- `LEU8(keyLeng) + (keyLen * LEU32(char)) + LEU64(ver) + LEU64(msTs) + LEU8(del)` -/
def Item.documented (item : Item) : Data :=
  toBytes 1 item.key.length ++ item.key.flatMap (fun c => toBytes 4 c.toNat) ++
    toBytes 8 item.version.toNat ++ toBytes 8 item.msTs.toNat ++ toBytes 1 item.deleted.toNat

/-- A list that the documented encoding has room for. -/
structure KeyList where
  items : List Item
  num : items.length < 2 ^ 32
  keyLeng : ∀ item ∈ items, item.key.length < 2 ^ 8

/-- `LE32(num)` and the items. -/
def KeyList.documented (l : KeyList) : Data :=
  toBytes 4 l.items.length ++ l.items.flatMap Item.documented

/-- The documented encoding of a list is read back, and other data refused. -/
def DecodedSafely (data : Data) : Prop :=
  (∀ l : KeyList, data = l.documented → decodeKeys data = .ok (l.items, none)) ∧
    ((∀ l : KeyList, data ≠ l.documented) → decodeKeys data = .ok ([], some .unknown))

/-- The key of an item, with the four bytes of its length in front, lies in the data. -/
def KeyLies (data : Data) (i : Nat) (bytes : Data) : Prop :=
  (uInt32 data i).toNat = bytes.length ∧ bytes <+: data.drop (i + 4) ∧
    i + 4 + bytes.length ≤ data.length

/-- The data has the items one after another between two offsets: a length of four bytes, a key in
    UTF-8, eight bytes each for version and time, one for the deletion. Numbers past the end are
    zero. -/
def Laid (data : Data) : Nat → List Item → Nat → Prop
  | i, [], last => i = last
  | i, item :: items, last =>
    KeyLies data i (utf8 item.key) ∧
      uInt64 data (i + 4 + (utf8 item.key).length) = item.version ∧
      uInt64 data (i + 4 + (utf8 item.key).length + 8) = item.msTs ∧
      decide (uInt8 data (i + 4 + (utf8 item.key).length + 16) > 0) = item.deleted ∧
      Laid data (i + 4 + (utf8 item.key).length + 17) items last

/-- The data has just these items in that layout. -/
def Spells (data : Data) (items : List Item) : Prop :=
  (uInt32 data 0).toNat = items.length ∧ ∃ last, Laid data 4 items last

/-- Behind some items of that layout, and before their count is reached, there is a key that is not
    UTF-8. -/
def Garbled (data : Data) : Prop :=
  ∃ items last bytes, Laid data 4 items last ∧ items.length < (uInt32 data 0).toNat ∧
    KeyLies data last bytes ∧ ofUTF8 bytes = none

section Reading
variable {data : Data} {i : Nat}

theorem subdata_key {bytes : Data} :
    subdata data (i + 4) (i + 4 + (uInt32 data i).toNat) = .ok bytes ↔ KeyLies data i bytes := by
  rw [subdata, Nat.add_sub_cancel_left]
  constructor
  · intro cut
    split at cut
    case isTrue inside =>
      cases cut
      have size : ((data.drop (i + 4)).take (uInt32 data i).toNat).length =
          (uInt32 data i).toNat := by
        rw [List.length_take, List.length_drop]
        omega
      exact ⟨size.symm,List.take_prefix _ _,by rw [size]; exact inside⟩
    case isFalse => cases cut
  · rintro ⟨size,front,inside⟩
    rw [size, if_pos inside]
    exact congrArg _ (List.prefix_iff_eq_take.mp front).symm

theorem readItem_some {item : Item} {next : Nat} :
    readItem data i = .ok (some (item, next)) ↔ Laid data i [item] next := by
  constructor
  · intro read
    obtain ⟨bytes,cut,read⟩ := bind_ran.mp read
    have lies := subdata_key.mp cut
    split at read
    case h_1 => cases read
    case h_2 key decoded =>
      have size : (uInt32 data i).toNat = (utf8 key).length := by
        rw [ofUTF8_iff.mp decoded]
        exact lies.1
      rw [size] at read
      cases read
      rw [← ofUTF8_iff.mp decoded] at lies
      exact ⟨lies,rfl,rfl,rfl,rfl⟩
  · rintro ⟨lies,version,msTs,deleted,last⟩
    have same : i + 4 + (uInt32 data i).toNat = i + 4 + (utf8 item.key).length := by rw [lies.1]
    rw [readItem, bind_ready (subdata_key.mpr lies), ofUTF8_utf8]
    dsimp only
    rw [same, version, msTs, deleted, last]

theorem readItem_none : readItem data i = .ok none ↔
    ∃ bytes, KeyLies data i bytes ∧ ofUTF8 bytes = none := by
  constructor
  · intro read
    obtain ⟨bytes,cut,read⟩ := bind_ran.mp read
    split at read
    case h_1 garbled => exact ⟨bytes,subdata_key.mp cut,garbled⟩
    case h_2 => cases read
  · rintro ⟨bytes,lies,garbled⟩
    rw [readItem, bind_ready (subdata_key.mpr lies), garbled]

theorem laid_cons {item : Item} {items : List Item} {last : Nat} :
    Laid data i (item :: items) last ↔
      ∃ next, Laid data i [item] next ∧ Laid data next items last := by
  constructor
  · rintro ⟨lies,version,msTs,deleted,rest⟩
    exact ⟨_,⟨lies,version,msTs,deleted,rfl⟩,rest⟩
  · rintro ⟨next,⟨lies,version,msTs,deleted,rfl⟩,rest⟩
    exact ⟨lies,version,msTs,deleted,rest⟩

/-- What is read without an error is laid out in the data. -/
theorem readItems_ok {c : Nat} {items result : List Item} :
    readItems data c i items = .ok (result, none) ↔
      ∃ more last, result = items ++ more ∧ more.length = c ∧ Laid data i more last := by
  induction c generalizing i items with
  | zero =>
    constructor
    · intro read
      cases read
      exact ⟨[],i,(List.append_nil _).symm,rfl,rfl⟩
    · rintro ⟨more,last,whole,none_more,_⟩
      rw [List.length_eq_zero_iff.mp none_more, List.append_nil] at whole
      rw [readItems, whole]
  | succ c ih =>
    constructor
    · intro read
      obtain ⟨answer,first,read⟩ := bind_ran.mp read
      cases answer with
      | none => cases read
      | some answer =>
        obtain ⟨item,next⟩ := answer
        obtain ⟨more,last,whole,count,laid⟩ := ih.mp read
        refine ⟨item :: more,last,?_,congrArg Nat.succ count,
          laid_cons.mpr ⟨next,readItem_some.mp first,laid⟩⟩
        rw [whole, List.append_assoc, List.singleton_append]
    · rintro ⟨more,last,whole,count,laid⟩
      cases more with
      | nil => cases count
      | cons item more =>
        obtain ⟨next,first,laid⟩ := laid_cons.mp laid
        rw [readItems, bind_ready (readItem_some.mpr first)]
        refine ih.mpr ⟨more,last,?_,Nat.succ.inj count,laid⟩
        rw [whole, List.append_assoc, List.singleton_append]

/-- The error is that of a key which is no text. -/
theorem readItems_error {c : Nat} {items result : List Item} {error : BRRemoteKVStoreError} :
    readItems data c i items = .ok (result, some error) ↔
      (result = [] ∧ error = .unknown) ∧ ∃ more last bytes, Laid data i more last ∧
        more.length < c ∧ KeyLies data last bytes ∧ ofUTF8 bytes = none := by
  induction c generalizing i items with
  | zero =>
    refine iff_of_false (fun read => nomatch read) ?_
    rintro ⟨_,more,_,_,_,short,_⟩
    exact absurd short (Nat.not_lt_zero _)
  | succ c ih =>
    constructor
    · intro read
      obtain ⟨answer,first,read⟩ := bind_ran.mp read
      cases answer with
      | none =>
        cases read
        obtain ⟨bytes,lies,garbled⟩ := readItem_none.mp first
        exact ⟨⟨rfl,rfl⟩,[],i,bytes,rfl,Nat.succ_pos c,lies,garbled⟩
      | some answer =>
        obtain ⟨item,next⟩ := answer
        obtain ⟨empty,more,last,bytes,laid,short,lies,garbled⟩ := ih.mp read
        exact ⟨empty,item :: more,last,bytes,laid_cons.mpr ⟨next,readItem_some.mp first,laid⟩,
          Nat.succ_lt_succ short,lies,garbled⟩
    · rintro ⟨⟨rfl,rfl⟩,more,last,bytes,laid,short,lies,garbled⟩
      cases more with
      | nil =>
        cases laid
        rw [readItems, bind_ready (readItem_none.mpr ⟨bytes,lies,garbled⟩)]
      | cons item more =>
        obtain ⟨next,first,laid⟩ := laid_cons.mp laid
        rw [readItems, bind_ready (readItem_some.mpr first)]
        exact ih.mpr ⟨⟨rfl,rfl⟩,more,last,bytes,laid,Nat.lt_of_succ_lt_succ short,lies,garbled⟩

theorem decodeKeys_ok {items : List Item} :
    decodeKeys data = .ok (items, none) ↔ Spells data items := by
  rw [decodeKeys, readItems_ok, Spells]
  constructor
  · rintro ⟨more,last,whole,count,laid⟩
    rw [List.nil_append] at whole
    rw [whole]
    exact ⟨count.symm,last,laid⟩
  · rintro ⟨count,last,laid⟩
    exact ⟨items,last,rfl,count.symm,laid⟩

theorem decodeKeys_error : decodeKeys data = .ok ([], some .unknown) ↔ Garbled data := by
  rw [decodeKeys, readItems_error, Garbled]
  exact and_iff_right ⟨rfl,rfl⟩

end Reading

/-- Data is decoded as the documentation says exactly if, where it is a documented list, it spells
    that list in the other layout, and where it is none, has a garbled key there. -/
theorem decoded_safely_iff (data : Data) : DecodedSafely data ↔
    (∀ l : KeyList, data = l.documented → Spells data l.items) ∧
      ((∀ l : KeyList, data ≠ l.documented) → Garbled data) := by
  rw [DecodedSafely, decodeKeys_error]
  simp only [decodeKeys_ok]

/-- No list is read back whose first key begins with a character that is not zero. -/
theorem plain_key_lost {l : KeyList} {item : Item} {items : List Item} {c : Char}
    {text : List Char} (front : l.items = item :: items) (key : item.key = c :: text)
    (plain : c ≠ '\x00') : decodeKeys l.documented ≠ .ok (l.items, none) := by
  intro read
  obtain ⟨_,last,laid⟩ := decodeKeys_ok.mp read
  rw [front] at laid
  obtain ⟨⟨_,lies,_⟩,_⟩ := laid
  -- the key is looked for where the fourth byte of the character is
  have small : UInt8.ofNat (c.toNat / 256 / 256 / 256) = 0 := by
    have bound : c.toNat < 0xD800 ∨ 0xDFFF < c.toNat ∧ c.toNat < 0x110000 := c.valid
    have zero : c.toNat / 256 / 256 / 256 = 0 := by omega
    rw [zero]
    rfl
  have fourth : ∃ bytes, l.documented.drop 8 = 0 :: bytes := by
    let after := text.flatMap (fun c => toBytes 4 c.toNat) ++ toBytes 8 item.version.toNat ++
      toBytes 8 item.msTs.toNat ++ toBytes 1 item.deleted.toNat ++ items.flatMap Item.documented
    refine ⟨after,?_⟩
    simp only [after, KeyList.documented, front, List.flatMap_cons, Item.documented, key, toBytes,
      small, List.cons_append, List.nil_append, List.append_assoc, List.drop_succ_cons,
      List.drop_zero]
  obtain ⟨bytes,dropped⟩ := fourth
  obtain ⟨rest,whole⟩ := lies
  rw [dropped, key, utf8_cons, List.append_assoc] at whole
  exact plain (encodeChar_unique (d := '\x00') whole)

def oneKey : KeyList where
  items := [⟨['a'],1,1,false⟩]
  num := by decide
  keyLeng := by decide

/-- The first byte of the key's length counts with the character behind it: 24833 bytes are asked
    for. -/
theorem one_key_traps : ¬ ∀ data, DecodedSafely data := by
  intro all
  have read := (all oneKey.documented).1 oneKey rfl
  have trapped : decodeKeys oneKey.documented = .error .index := by decide
  rw [trapped] at read
  cases read

end RemoteKeys
