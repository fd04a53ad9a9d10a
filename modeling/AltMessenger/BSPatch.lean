import AltMessenger.AssetArchive
import AltMessenger.BinaryDelta
import AltMessenger.MachineWords

/-!
The patch of an old file. Three bzip2 streams give the control values, the bytes to
add to old ones and the new bytes; a stream is the bytes that it gives until a read
of it fails. What is touched in the two buffers is noted.
-/
namespace BSPatch
open SwiftRuntime FaultyState AssetArchive BinaryDelta LittleEndian

/-- What ends the patch early. -/
inductive Stop where
  | bsPatch (error : BRBSPatchError)
  | fileManager
  | trap (trap : Trap)
  | outOfMemory
  deriving DecidableEq, Repr

def trapped {α : Type} : Except Trap α → Except Stop α
  | .ok a => .ok a
  | .error t => .error (.trap t)

/-- `Int32(x)` -/
def int32 (x : Int64) : Except Trap Int32 :=
  if -2 ^ 31 ≤ x.toInt ∧ x.toInt < 2 ^ 31 then .ok (.ofInt x.toInt) else .error .conversion

/-- The bits of `offtin` before the sign. -/
def bits (b : List UInt8) : UInt64 :=
  let y := (b.getD 0 0).toUInt64
  let y := y ||| (b.getD 1 0).toUInt64 <<< 8
  let y := y ||| (b.getD 2 0).toUInt64 <<< 16
  let y := y ||| (b.getD 3 0).toUInt64 <<< 24
  let y := y ||| (b.getD 4 0).toUInt64 <<< 32
  let y := y ||| (b.getD 5 0).toUInt64 <<< 40
  let y := y ||| (b.getD 6 0).toUInt64 <<< 48
  y ||| (b.getD 7 0 &&& 0x7f).toUInt64 <<< 56

def offtin (b : List UInt8) : Int64 :=
  let y := (bits b).toInt64
  if b.getD 7 0 &&& 0x80 ≠ 0 then -y else y

inductive Part where
  | control | diff | extra
  deriving DecidableEq, Repr

/-- What the program does to the buffers: `bzip2` fills so many bytes of the new one, or an old byte
    is read and added to a new one. -/
inductive Access where
  | fill (place : Int) (count : Nat)
  | add (np op : Int)
  deriving DecidableEq, Repr

structure State where
  streams : Part → List UInt8
  oldPos : Int64
  newPos : Int64
  new : List UInt8
  accesses : List Access

def skip (part : Part) (count : Nat) (s : State) : State :=
  { s with streams := Function.update s.streams part ((s.streams part).drop count) }

/-- The bytes read, and whether the error is another than the end of the stream. -/
def bzRead (part : Part) (len : Int32) : Act Stop State (List UInt8 × Bool) := do
  let s ← get
  modify (skip part len.toInt.toNat)
  pure ((s.streams part).take len.toInt.toNat,decide (len.toInt < 0))

def readCrtl : Act Stop State Int64 := do
  let (buf,failed) ← bzRead .control 8
  if buf.length < 8 ∨ failed = true then throw (.bsPatch .corruptPatch)
  else pure (offtin buf)

def overwrite (new : List UInt8) (place : Nat) (bytes : List UInt8) : List UInt8 :=
  new.take place ++ bytes ++ new.drop (place + bytes.length)

def fill (bytes : List UInt8) (s : State) : State :=
  { s with
    new := overwrite s.new s.newPos.toInt.toNat bytes
    accesses := s.accesses ++ [.fill s.newPos.toInt bytes.length] }

section Fields
variable (s : State) (part : Part) (count : Nat) (bytes : List UInt8)

@[simp] theorem skip_newPos : (skip part count s).newPos = s.newPos := rfl
@[simp] theorem skip_oldPos : (skip part count s).oldPos = s.oldPos := rfl
@[simp] theorem skip_accesses : (skip part count s).accesses = s.accesses := rfl
@[simp] theorem skip_streams (other : Part) : (skip part count s).streams other =
    if other = part then (s.streams part).drop count else s.streams other :=
  Function.update_apply _ _ _ _

@[simp] theorem fill_newPos : (fill bytes s).newPos = s.newPos := rfl
@[simp] theorem fill_oldPos : (fill bytes s).oldPos = s.oldPos := rfl
@[simp] theorem fill_streams : (fill bytes s).streams = s.streams := rfl

end Fields

/-- The check and the read, which are the same for the diff and the extra string. -/
def readString (newSize : Int64) (part : Part) (crtl : Int64) : Act Stop State Unit := do
  let s ← get
  let after ← lift (trapped (addInt64 s.newPos crtl))
  if newSize.toInt < after.toInt then throw (.bsPatch .corruptPatch)
  else do
    let len ← lift (trapped (int32 crtl))
    let (bytes,failed) ← bzRead part len
    modify (fill bytes)
    if bytes.length < len.toInt ∨ failed = true then throw (.bsPatch .corruptPatch)
    else pure ()

def addByte (old : List UInt8) (op : Int64) (i : Nat) (s : State) : State :=
  { s with
    new := s.new.modify (s.newPos.toInt + i).toNat (· + old.getD op.toInt.toNat 0)
    accesses := s.accesses ++ [.add (s.newPos.toInt + i) op.toInt] }

/-- The body of the loop over the diff string, when the old place is known. -/
def addOldByte (old : List UInt8) (op : Int64) (i : Nat) : Act Stop State Unit :=
  if 0 ≤ op.toInt ∧ op.toInt < old.length then modify (addByte old op i) else pure ()

/-- The loop over the diff string, from the `i`-th byte. -/
def addOldData (old : List UInt8) : Nat → Nat → Act Stop State Unit
  | 0, _ => pure ()
  | count + 1, i => do
    let s ← get
    let op ← lift (trapped (addInt64 s.oldPos (.ofNat i)))
    addOldByte old op i
    addOldData old count (i + 1)

def adjust (newBy oldBy : Int64) : Act Stop State Unit := do
  let s ← get
  let newPos ← lift (trapped (addInt64 s.newPos newBy))
  let oldPos ← lift (trapped (addInt64 s.oldPos oldBy))
  modify fun s => { s with
    newPos
    oldPos }

def readDiff (old : List UInt8) (newSize crtl₀ : Int64) : Act Stop State Unit := do
  readString newSize .diff crtl₀
  addOldData old crtl₀.toInt.toNat 0
  adjust crtl₀ crtl₀

def readExtra (newSize crtl₁ crtl₂ : Int64) : Act Stop State Unit := do
  readString newSize .extra crtl₁
  adjust crtl₁ crtl₂

/-- One turn of the loop. -/
def turn (old : List UInt8) (newSize : Int64) : Act Stop State Unit := do
  let crtl₀ ← readCrtl
  let crtl₁ ← readCrtl
  let crtl₂ ← readCrtl
  readDiff old newSize crtl₀
  readExtra newSize crtl₁ crtl₂

/-- The loop, for no more than so many turns. -/
def turns (old : List UInt8) (newSize : Int64) : Nat → Act Stop State Unit
  | 0 => pure ()
  | count + 1 => do
    let s ← get
    if s.newPos.toInt < newSize.toInt then do
      turn old newSize
      turns old newSize count
    else pure ()

/-- Each turn takes control values, so there are no more than the stream has bytes. -/
def patchLoop (old : List UInt8) (newSize : Int64) (s : State) : Except Stop Unit × State :=
  exec (turns old newSize ((s.streams .control).length + 1)) s

theorem or_shifted {y : UInt64} {k : Nat} (b : UInt8) (low : y.toNat < 2 ^ k) (below : k ≤ 56) :
    (y ||| b.toUInt64 <<< UInt64.ofNat k).toNat = y.toNat + 2 ^ k * b.toNat := by
  have small := b.toNat_lt
  have power : 2 ^ k ≤ 2 ^ 56 := Nat.pow_le_pow_right (by decide) below
  have bound : 2 ^ k * b.toNat < 2 ^ 64 := by
    have := Nat.mul_le_mul power (show b.toNat ≤ 255 by omega)
    omega
  have amount : k % 2 ^ 64 % 64 = k := by omega
  have shifted : (b.toUInt64 <<< UInt64.ofNat k).toNat = 2 ^ k * b.toNat := by
    rw [UInt64.toNat_shiftLeft, UInt64.toNat_ofNat', amount, Nat.shiftLeft_eq,
      UInt8.toNat_toUInt64, Nat.mul_comm]
    exact Nat.mod_eq_of_lt bound
  rw [UInt64.toNat_or, shifted, Nat.or_comm, ← Nat.two_pow_add_eq_or_of_lt low, Nat.add_comm]

theorem or_byte {y : UInt64} {low : List UInt8} (value : y.toNat = ofBytes low) (b : UInt8)
    (below : low.length ≤ 7) :
    (y ||| b.toUInt64 <<< UInt64.ofNat (8 * low.length)).toNat = ofBytes (low ++ [b]) := by
  have bound : y.toNat < 2 ^ (8 * low.length) := by
    rw [value, Nat.pow_mul]
    exact ofBytes_lt low
  rw [or_shifted b bound (by omega), ofBytes_append, value, Nat.pow_mul]
  simp [ofBytes]

theorem sign_bit (b : UInt8) :
    (b &&& 0x80 ≠ 0 ↔ 128 ≤ b.toNat) ∧ (b &&& 0x7f).toNat = b.toNat % 128 := by
  have small := b.toNat_lt
  constructor
  · have high : (b &&& 0x80).toNat = (b.toNat.testBit 7).toNat * 2 ^ 7 := by
      rw [UInt8.toNat_and, ← Nat.and_two_pow]
      rfl
    have top : b.toNat.testBit 7 = true ↔ 128 ≤ b.toNat := by
      rw [Nat.testBit_eq_decide_div_mod_eq, decide_eq_true_iff]
      omega
    rw [ne_eq, ← UInt8.toNat_inj, high]
    by_cases set : b.toNat.testBit 7
    · simp [set, top.mp set]
    · simp [set, mt top.mpr set]
  · rw [UInt8.toNat_and]
    exact Nat.and_two_pow_sub_one_eq_mod b.toNat 7

theorem bits_toNat (b₀ b₁ b₂ b₃ b₄ b₅ b₆ b₇ : UInt8) :
    (bits [b₀,b₁,b₂,b₃,b₄,b₅,b₆,b₇]).toNat =
      ofBytes [b₀,b₁,b₂,b₃,b₄,b₅,b₆] + 256 ^ 7 * (b₇.toNat % 128) := by
  have y₀ : b₀.toUInt64.toNat = ofBytes [b₀] := by simp [ofBytes]
  have y₁ := or_byte y₀ b₁ (by simp)
  have y₂ := or_byte y₁ b₂ (by simp)
  have y₃ := or_byte y₂ b₃ (by simp)
  have y₄ := or_byte y₃ b₄ (by simp)
  have y₅ := or_byte y₄ b₅ (by simp)
  have y₆ := or_byte y₅ b₆ (by simp)
  have y₇ := or_byte y₆ (b₇ &&& 0x7f) (by simp)
  rw [ofBytes_append] at y₇
  have last : ofBytes [b₇ &&& 0x7f] = b₇.toNat % 128 := (sign_bit b₇).2
  rw [last] at y₇
  exact y₇

theorem toInt64_toInt {y : UInt64} (low : y.toNat < 2 ^ 63) :
    y.toInt64.toInt = y.toNat ∧ (-y.toInt64).toInt = -(y.toNat : Int) := by
  have same : y.toInt64.toInt = y.toNat := by
    apply BitVec.toInt_eq_toNat_of_lt
    rw [UInt64.toBitVec_toInt64, UInt64.toNat_toBitVec]
    omega
  refine ⟨same,?_⟩
  rw [Int64.toInt_neg, same, Int.bmod_eq_of_le (by omega) (by omega)]

theorem offtin_toInt {b : List UInt8} (whole : b.length = 8) : (offtin b).toInt = offset b := by
  match b, whole with
  | [b₀,b₁,b₂,b₃,b₄,b₅,b₆,b₇], _ =>
    have high := b₇.toNat_lt
    have small : ofBytes [b₀,b₁,b₂,b₃,b₄,b₅,b₆] < 256 ^ 7 := ofBytes_lt _
    have value : ofBytes [b₀,b₁,b₂,b₃,b₄,b₅,b₆,b₇] =
        ofBytes [b₀,b₁,b₂,b₃,b₄,b₅,b₆] + 256 ^ 7 * b₇.toNat :=
      ofBytes_append [b₀,b₁,b₂,b₃,b₄,b₅,b₆] [b₇]
    have bits_eq := bits_toNat b₀ b₁ b₂ b₃ b₄ b₅ b₆ b₇
    obtain ⟨positive,negated⟩ := toInt64_toInt
      (show (bits [b₀,b₁,b₂,b₃,b₄,b₅,b₆,b₇]).toNat < 2 ^ 63 by rw [bits_eq]; omega)
    have sign : [b₀,b₁,b₂,b₃,b₄,b₅,b₆,b₇].getD 7 0 &&& 0x80 ≠ 0 ↔ 128 ≤ b₇.toNat :=
      (sign_bit b₇).1
    unfold offtin offset
    dsimp only
    rw [value]
    by_cases negative : 128 ≤ b₇.toNat
    · rw [if_pos (sign.mpr negative), if_neg (by omega), negated, bits_eq]
      omega
    · rw [if_neg (mt sign.mp negative), if_pos (by omega), positive, bits_eq]
      omega

/-- The access is inside of what is to be made, and of the old bytes. -/
def Access.Inside (newSize oldSize : Int) : Access → Prop
  | fill place count => 0 ≤ place ∧ place + count ≤ newSize
  | add np op => 0 ≤ np ∧ np < newSize ∧ 0 ≤ op ∧ op < oldSize

def fills (accesses : List Access) : List (Nat × Nat) :=
  accesses.filterMap fun
    | .fill place count => some (place.toNat,count)
    | .add _ _ => none

def addedAt (accesses : List Access) : List Nat :=
  accesses.filterMap fun
    | .fill _ _ => none
    | .add np _ => some np.toNat

/-- What was done from one state to another: these parts were filled, and old bytes were added at
    no more than these places. -/
def Touched (newSize oldSize : Int) (parts : List (Nat × Nat)) (places : List Nat) (s t : State) :
    Prop :=
  ∃ more, t.accesses = s.accesses ++ more ∧ fills more = parts ∧ (addedAt more).Sublist places ∧
    ∀ access ∈ more, access.Inside newSize oldSize

/-- The sum that is checked, and the length if it passes, can be computed. -/
def LengthFits (newSize newPos crtl : Int) : Prop :=
  newPos + crtl < 2 ^ 63 ∧ (newPos + crtl ≤ newSize → -2 ^ 31 ≤ crtl ∧ crtl < 2 ^ 31)

def LengthApplies (newSize newPos crtl : Int) (stream : List UInt8) : Prop :=
  0 ≤ crtl ∧ newPos + crtl ≤ newSize ∧ crtl ≤ stream.length

/-- Every sum that a control value comes to, and every length, can be computed. -/
def SumsFit (size : Nat) (p : Position) (c : Control) : Prop :=
  LengthFits size p.made.length c.diff ∧
    (LengthApplies size p.made.length c.diff p.diff →
      p.oldPos + c.diff < 2 ^ 63 ∧ LengthFits size (p.made.length + c.diff) c.extra ∧
        (LengthApplies size (p.made.length + c.diff) c.extra p.extra →
          -2 ^ 63 ≤ p.oldPos + c.diff + c.seek ∧ p.oldPos + c.diff + c.seek < 2 ^ 63))

section Steps
variable {s t u : State} {newSize oldSize : Int} {parts parts' : List (Nat × Nat)}
  {places places' : List Nat}

theorem touched_nothing (same : t.accesses = s.accesses) : Touched newSize oldSize [] [] s t :=
  ⟨[],by simp [same],rfl,List.Sublist.refl _,by simp⟩

theorem touched_trans (first : Touched newSize oldSize parts places s t)
    (second : Touched newSize oldSize parts' places' t u) :
    Touched newSize oldSize (parts ++ parts') (places ++ places') s u := by
  obtain ⟨more,grown,filled,added,inside⟩ := first
  obtain ⟨more',grown',filled',added',inside'⟩ := second
  refine ⟨more ++ more',by rw [grown', grown, List.append_assoc],?_,?_,?_⟩
  · rw [← filled, ← filled']
    exact List.filterMap_append
  · have both : addedAt (more ++ more') = addedAt more ++ addedAt more' := List.filterMap_append
    rw [both]
    exact added.append added'
  · intro access there
    rcases List.mem_append.mp there with there | there
    · exact inside access there
    · exact inside' access there

theorem exec_bzRead (part : Part) (len : Int32) :
    exec (bzRead part len) s =
      (.ok ((s.streams part).take len.toInt.toNat,decide (len.toInt < 0)),
        skip part len.toInt.toNat s) := rfl

theorem readCrtl_short (short : (s.streams .control).length < 8) :
    exec readCrtl s = (.error (.bsPatch .corruptPatch),skip .control 8 s) := by
  have few : ((s.streams .control).take (8 : Int32).toInt.toNat).length < 8 := by simpa using short
  rw [readCrtl, bind_ran (exec_bzRead .control 8)]
  simp only [few, true_or, if_true]
  rfl

theorem readCrtl_ran (there : 8 ≤ (s.streams .control).length) :
    exec readCrtl s = (.ok (offtin ((s.streams .control).take 8)),skip .control 8 s) := by
  have whole : ¬ ((s.streams .control).take (8 : Int32).toInt.toNat).length < 8 := by
    simpa using there
  rw [readCrtl, bind_ran (exec_bzRead .control 8)]
  simp only [whole, false_or]
  rfl

/-- However many bytes come, they are put where they are to be. -/
theorem fill_touched (part : Part) (count : Nat) (bytes : List UInt8)
    (low : 0 ≤ s.newPos.toInt) (inside : s.newPos.toInt + bytes.length ≤ newSize) :
    Touched newSize oldSize [(s.newPos.toInt.toNat,bytes.length)] [] s
      (fill bytes (skip part count s)) :=
  ⟨[.fill s.newPos.toInt bytes.length],rfl,rfl,List.Sublist.refl _,by
    intro access there
    rw [List.mem_singleton.mp there]
    exact ⟨low,inside⟩⟩

theorem exec_adds {a b : Int64} :
    (∃ sum, exec (lift (trapped (addInt64 a b)) : Act Stop State Int64) s = (.ok sum,s) ∧
        sum.toInt = a.toInt + b.toInt) ∨
      ¬ (-2 ^ 63 ≤ a.toInt + b.toInt ∧ a.toInt + b.toInt < 2 ^ 63) ∧
        exec (lift (trapped (addInt64 a b)) : Act Stop State Int64) s =
          (.error (.trap .overflow),s) := by
  cases run : addInt64 a b with
  | ok sum => exact Or.inl ⟨sum,rfl,addInt64_ok.mp run⟩
  | error trap =>
    right
    unfold addInt64 int64 at run
    split at run
    · cases run
    · rename_i beyond
      cases run
      exact ⟨beyond,rfl⟩

theorem exec_int32 {x : Int64} :
    (∃ len, exec (lift (trapped (int32 x)) : Act Stop State Int32) s = (.ok len,s) ∧
        len.toInt = x.toInt) ∨
      ¬ (-2 ^ 31 ≤ x.toInt ∧ x.toInt < 2 ^ 31) ∧
        exec (lift (trapped (int32 x)) : Act Stop State Int32) s =
          (.error (.trap .conversion),s) := by
  unfold int32
  split
  case isTrue fits => exact Or.inl ⟨_,rfl,Int32.toInt_ofInt_of_le fits.1 fits.2⟩
  case isFalse beyond => exact Or.inr ⟨beyond,rfl⟩

variable (s oldSize) in
/-- A read into the new bytes traps, or finds the patch corrupt, or fills them. -/
theorem readString_cases (part : Part) (size crtl : Int64) (low : 0 ≤ s.newPos.toInt)
    (high : s.newPos.toInt ≤ size.toInt) :
    ¬ LengthFits size.toInt s.newPos.toInt crtl.toInt ∧
        (∃ trap, exec (readString size part crtl) s = (.error (.trap trap),s)) ∨
      LengthFits size.toInt s.newPos.toInt crtl.toInt ∧
        ¬ LengthApplies size.toInt s.newPos.toInt crtl.toInt (s.streams part) ∧
        (∃ t parts, exec (readString size part crtl) s = (.error (.bsPatch .corruptPatch),t) ∧
          Touched size.toInt oldSize parts [] s t) ∨
      LengthFits size.toInt s.newPos.toInt crtl.toInt ∧
        LengthApplies size.toInt s.newPos.toInt crtl.toInt (s.streams part) ∧
        exec (readString size part crtl) s =
          (.ok (),fill ((s.streams part).take crtl.toInt.toNat) (skip part crtl.toInt.toNat s)) := by
  have crtl_low := crtl.le_toInt
  unfold readString LengthFits LengthApplies
  rw [bind_ran (exec_get s)]
  rcases @exec_adds s s.newPos crtl with ⟨after,sum,value⟩ | ⟨beyond,stops⟩
  · rw [bind_ran sum, value]
    have bounded := after.toInt_lt
    by_cases past : size.toInt < s.newPos.toInt + crtl.toInt
    · rw [if_pos past]
      right; left
      exact ⟨⟨by omega,by omega⟩,by omega,s,[],rfl,touched_nothing rfl⟩
    · rw [if_neg past]
      rcases @exec_int32 s crtl with ⟨len,converted,same⟩ | ⟨beyond,stops⟩
      · have len_low := len.le_toInt
        have len_high := len.toInt_lt
        right
        rw [bind_ran converted, bind_ran (exec_bzRead part len), bind_ran (exec_modify _ _), same]
        have length := List.length_take (i := crtl.toInt.toNat) (l := s.streams part)
        by_cases applies : 0 ≤ crtl.toInt ∧ crtl.toInt ≤ (s.streams part).length
        · right
          rw [if_neg (by rw [decide_eq_true_iff]; omega)]
          exact ⟨⟨by omega,by omega⟩,⟨applies.1,by omega,applies.2⟩,rfl⟩
        · left
          rw [if_pos (by rw [decide_eq_true_iff]; omega)]
          exact ⟨⟨by omega,by omega⟩,by omega,_,_,rfl,fill_touched _ _ _ low (by omega)⟩
      · rw [bind_stopped stops]
        exact Or.inl ⟨by omega,_,rfl⟩
  · rw [bind_stopped stops]
    exact Or.inl ⟨by omega,_,rfl⟩

theorem modify_middle {before after : List UInt8} {byte : UInt8} (f : UInt8 → UInt8) :
    (before ++ byte :: after).modify before.length f = before ++ f byte :: after := by
  rw [List.modify_eq_take_cons_drop (by simp)]
  simp

/-- An old byte is added if there is one at the place. -/
theorem addOldByte_ran (old : List UInt8) {before bytes after : List UInt8} {byte : UInt8} {i : Nat}
    (new : s.new = before ++ byte :: (bytes ++ after))
    (place : (before.length : Int) = s.newPos.toInt + i) (inside : (before.length : Int) < newSize)
    {op : Int64} (value : op.toInt = s.oldPos.toInt + i) :
    ∃ t, exec (addOldByte old op i) s = (.ok (),t) ∧
      t.streams = s.streams ∧ t.oldPos = s.oldPos ∧ t.newPos = s.newPos ∧
      t.new = before ++ (byte + oldByte old (s.oldPos.toInt + i)) :: (bytes ++ after) ∧
      Touched newSize old.length [] [before.length] s t := by
  have at_place : (s.newPos.toInt + i).toNat = before.length := by omega
  unfold addOldByte
  by_cases there : 0 ≤ op.toInt ∧ op.toInt < old.length
  · rw [if_pos there]
    refine ⟨addByte old op i s,rfl,rfl,rfl,rfl,?_,?_⟩
    · have found : oldByte old (s.oldPos.toInt + i) = old.getD op.toInt.toNat 0 := by
        rw [oldByte, if_pos (by omega), value]
      rw [addByte, new, at_place, modify_middle, found]
    · refine ⟨[.add (s.newPos.toInt + i) op.toInt],rfl,rfl,?_,?_⟩
      · simp [addedAt, at_place]
      · intro access mem
        rw [List.mem_singleton.mp mem]
        exact ⟨by omega,by omega,there.1,there.2⟩
  · rw [if_neg there]
    refine ⟨s,rfl,rfl,rfl,rfl,?_,?_⟩
    · have none_there : oldByte old (s.oldPos.toInt + i) = 0 := by
        rw [oldByte]
        split
        · rw [List.getD_eq_default _ _ (by omega)]
        · rfl
      rw [none_there, UInt8.add_zero]
      exact new
    · exact ⟨[],by simp,rfl,by simp [addedAt],by simp⟩

/-- The loop adds the old bytes, or traps at a place that cannot be computed. -/
theorem addOldData_cases (newSize : Int) (old : List UInt8) {before bytes after : List UInt8}
    {i : Nat} (new : s.new = before ++ (bytes ++ after))
    (place : (before.length : Int) = s.newPos.toInt + i)
    (inside : (before.length + bytes.length : Int) ≤ newSize)
    (small : (i + bytes.length : Int) < 2 ^ 63) :
    s.oldPos.toInt + i + bytes.length > 2 ^ 63 ∧
        (∃ trap t, exec (addOldData old bytes.length i) s = (.error (.trap trap),t)) ∨
      ∃ t, exec (addOldData old bytes.length i) s = (.ok (),t) ∧
        t.streams = s.streams ∧ t.oldPos = s.oldPos ∧ t.newPos = s.newPos ∧
        t.new = before ++ (addOld old (s.oldPos.toInt + i) bytes ++ after) ∧
        Touched newSize old.length [] (List.range' before.length bytes.length) s t := by
  induction bytes generalizing s before i with
  | nil => exact Or.inr ⟨s,rfl,rfl,rfl,rfl,new,touched_nothing rfl⟩
  | cons byte bytes ih =>
    have index : (Int64.ofNat i).toInt = i := by
      rw [List.length_cons] at small
      exact Int64.toInt_ofNat_of_lt (by omega)
    have low := s.oldPos.le_toInt
    rw [List.length_cons] at inside small ⊢
    unfold addOldData
    rw [bind_ran (exec_get s)]
    rcases @exec_adds s s.oldPos (.ofNat i) with ⟨op,sum,value⟩ | ⟨beyond,stops⟩
    · rw [index] at value
      have inside_byte : (before.length : Int) < newSize := by omega
      obtain ⟨mid,step,streams,oldPos,newPos,new',touched⟩ :=
        addOldByte_ran old new place inside_byte value
      rw [bind_ran sum, bind_ran step]
      have longer : (before ++ [byte + oldByte old (s.oldPos.toInt + i)]).length =
          before.length + 1 := by simp
      have next : s.oldPos.toInt + (i + 1 : Nat) = s.oldPos.toInt + i + 1 := by omega
      have rest : mid.new = (before ++ [byte + oldByte old (s.oldPos.toInt + i)]) ++
          (bytes ++ after) := by
        rw [new', List.append_assoc]
        rfl
      rcases ih (i := i + 1) rest (by rw [newPos, longer]; omega)
        (by rw [longer]; omega) (by omega) with ⟨beyond,stops⟩ | ⟨t,ran,same⟩
      · rw [oldPos] at beyond
        exact Or.inl ⟨by omega,stops⟩
      · obtain ⟨streams',oldPos',newPos',made,touched'⟩ := same
        rw [longer] at touched'
        refine Or.inr ⟨t,ran,streams'.trans streams,oldPos'.trans oldPos,newPos'.trans newPos,?_,?_⟩
        · rw [made, oldPos, next, addOld_cons, List.append_assoc]
          rfl
        · exact touched_trans touched touched'
    · rw [bind_stopped stops]
      exact Or.inl ⟨by omega,_,_,rfl⟩

theorem adjust_cases (newBy oldBy : Int64) :
    ¬ (-2 ^ 63 ≤ s.newPos.toInt + newBy.toInt ∧ s.newPos.toInt + newBy.toInt < 2 ^ 63 ∧
        -2 ^ 63 ≤ s.oldPos.toInt + oldBy.toInt ∧ s.oldPos.toInt + oldBy.toInt < 2 ^ 63) ∧
        (∃ trap t, exec (adjust newBy oldBy) s = (.error (.trap trap),t)) ∨
      ∃ newPos oldPos, exec (adjust newBy oldBy) s = (.ok (),{ s with newPos, oldPos }) ∧
        newPos.toInt = s.newPos.toInt + newBy.toInt ∧
        oldPos.toInt = s.oldPos.toInt + oldBy.toInt := by
  unfold adjust
  rw [bind_ran (exec_get s)]
  rcases @exec_adds s s.newPos newBy with ⟨newPos,sum,newPos_eq⟩ | ⟨beyond,stops⟩
  · rw [bind_ran sum]
    rcases @exec_adds s s.oldPos oldBy with ⟨oldPos,sum',oldPos_eq⟩ | ⟨beyond,stops⟩
    · rw [bind_ran sum']
      exact Or.inr ⟨newPos,oldPos,rfl,newPos_eq,oldPos_eq⟩
    · rw [bind_stopped stops]
      exact Or.inl ⟨by omega,_,_,rfl⟩
  · rw [bind_stopped stops]
    exact Or.inl ⟨by omega,_,_,rfl⟩

end Steps

/-- The state is at this position of the delta. -/
structure Tracks (size : Nat) (p : Position) (s : State) : Prop where
  newPos : s.newPos.toInt = p.made.length
  oldPos : s.oldPos.toInt = p.oldPos
  diff : s.streams .diff = p.diff
  extra : s.streams .extra = p.extra
  new : s.new.take p.made.length = p.made
  room : s.new.length = size + 1
  inside : p.made.length ≤ size

section Turns
variable {old : List UInt8} {newSize : Int64} {oldSize : Int} {size : Nat} {p : Position}
  {s : State}

theorem fill_new (tracks : Tracks size p s) (part : Part) (bytes : List UInt8) (count : Nat) :
    (fill bytes (skip part count s)).new =
      p.made ++ (bytes ++ s.new.drop (p.made.length + bytes.length)) := by
  have place : s.newPos.toInt.toNat = p.made.length := by
    rw [tracks.newPos]
    rfl
  rw [fill, skip, overwrite]
  dsimp only
  rw [place, tracks.new, List.append_assoc]

theorem made_new {made before after : List UInt8} (new : after = made ++ before.drop made.length)
    (room : before.length = size + 1) (inside : made.length ≤ size) :
    after.take made.length = made ∧ after.length = size + 1 := by
  rw [new]
  refine ⟨List.take_left,?_⟩
  rw [List.length_append, List.length_drop]
  omega

theorem applied_length {newPos crtl : Int} {stream : List UInt8}
    (applies : LengthApplies size newPos crtl stream) :
    (stream.take crtl.toNat).length = crtl.toNat := by
  obtain ⟨_,_,there⟩ := applies
  rw [List.length_take]
  omega

/-- A length that applies is taken from its stream into the new file. -/
theorem applied_touched (tracks : Tracks size p s) (part : Part) {crtl : Int}
    {stream : List UInt8} (applies : LengthApplies size p.made.length crtl stream) :
    Touched size oldSize [(p.made.length,crtl.toNat)] [] s
      (fill (stream.take crtl.toNat) (skip part crtl.toNat s)) := by
  have low := tracks.newPos
  have length := applied_length applies
  obtain ⟨_,inside,_⟩ := applies
  have touched := @fill_touched s size oldSize part crtl.toNat (stream.take crtl.toNat)
    (by omega) (by omega)
  rwa [length, low] at touched

variable (old) in
theorem readDiff_cases (size_eq : newSize.toInt = size) (tracks : Tracks size p s)
    (crtl₀ : Int64) :
    ¬ (LengthFits size p.made.length crtl₀.toInt ∧
          (LengthApplies size p.made.length crtl₀.toInt p.diff →
            p.oldPos + crtl₀.toInt < 2 ^ 63)) ∧
        (∃ trap t, exec (readDiff old newSize crtl₀) s = (.error (.trap trap),t)) ∨
      LengthFits size p.made.length crtl₀.toInt ∧
        ¬ LengthApplies size p.made.length crtl₀.toInt p.diff ∧
        (∃ t parts, exec (readDiff old newSize crtl₀) s = (.error (.bsPatch .corruptPatch),t) ∧
          Touched size old.length parts [] s t) ∨
      LengthFits size p.made.length crtl₀.toInt ∧
        LengthApplies size p.made.length crtl₀.toInt p.diff ∧
        p.oldPos + crtl₀.toInt < 2 ^ 63 ∧
        ∃ t, exec (readDiff old newSize crtl₀) s = (.ok (),t) ∧
          Tracks size (p.takeDiff old crtl₀.toInt) t ∧
          t.streams .control = s.streams .control ∧
          Touched size old.length [(p.made.length,crtl₀.toInt.toNat)]
            (List.range' p.made.length crtl₀.toInt.toNat) s t := by
  have low := tracks.newPos
  have inside := tracks.inside
  have bounded := newSize.toInt_lt
  have old_low := s.oldPos.le_toInt
  have read := readString_cases s old.length .diff newSize crtl₀ (by omega) (by omega)
  rw [size_eq, low, tracks.diff] at read
  unfold readDiff
  rcases read with ⟨beyond,trap,stops⟩ | ⟨fits,corrupt,t,parts,stops,touched⟩ | ⟨fits,applies,ran⟩
  · rw [bind_stopped stops]
    exact Or.inl ⟨fun both => beyond both.1,trap,s,rfl⟩
  · rw [bind_stopped stops]
    exact Or.inr (Or.inl ⟨fits,corrupt,t,parts,rfl,touched⟩)
  · rw [bind_ran ran]
    have length := applied_length applies
    have diff_touched : Touched size old.length _ [] s _ := applied_touched tracks .diff applies
    obtain ⟨crtl_low,crtl_inside,there⟩ := applies
    have filled := fill_new tracks .diff (p.diff.take crtl₀.toInt.toNat) crtl₀.toInt.toNat
    have added := addOldData_cases size old (i := 0) filled
      (by simp [fill, skip, low]) (by omega) (by omega)
    rw [length] at added
    rcases added with ⟨beyond,trap,t,stops⟩ | ⟨t,added,streams,oldPos,newPos,made,touched⟩
    · have far : p.oldPos + crtl₀.toInt > 2 ^ 63 := by
        rw [← tracks.oldPos]
        change s.oldPos.toInt + (0 : Nat) + crtl₀.toInt.toNat > 2 ^ 63 at beyond
        omega
      rw [bind_stopped stops]
      refine Or.inl ⟨fun both => ?_,trap,t,rfl⟩
      have near := both.2 ⟨crtl_low,crtl_inside,there⟩
      omega
    · rw [bind_ran added]
      have moved := adjust_cases (s := t) crtl₀ crtl₀
      rw [newPos, oldPos] at moved
      rw [fill_newPos, fill_oldPos, skip_newPos, skip_oldPos, low, tracks.oldPos] at moved
      rcases moved with ⟨beyond,trap,u,stops⟩ | ⟨newPos',oldPos',ran',newPos_eq,oldPos_eq⟩
      · rw [stops]
        refine Or.inl ⟨fun both => ?_,trap,u,rfl⟩
        have near := both.2 ⟨crtl_low,crtl_inside,there⟩
        have old_eq := tracks.oldPos
        omega
      · rw [ran']
        have near := oldPos'.toInt_lt
        refine Or.inr (Or.inr ⟨fits,⟨crtl_low,crtl_inside,there⟩,by omega,_,rfl,?_,?_,?_⟩)
        · have made_length : (p.takeDiff old crtl₀.toInt).made.length =
              p.made.length + crtl₀.toInt.toNat := by
            rw [Position.takeDiff, List.length_append, addOld_length, length]
          have new_eq : t.new = (p.takeDiff old crtl₀.toInt).made ++
              s.new.drop (p.takeDiff old crtl₀.toInt).made.length := by
            rw [made, made_length, fill_oldPos, skip_oldPos, tracks.oldPos]
            simp [Position.takeDiff]
          obtain ⟨new,room⟩ := made_new new_eq tracks.room (by omega)
          exact {
            newPos := by rw [newPos_eq, made_length]; omega
            oldPos := oldPos_eq
            diff := by simp [streams, tracks.diff, Position.takeDiff]
            extra := by simp [streams, tracks.extra, Position.takeDiff]
            new
            room
            inside := by omega }
        · simp [streams]
        · exact touched_trans diff_touched touched

variable (old) in
theorem readExtra_cases (size_eq : newSize.toInt = size) (tracks : Tracks size p s)
    (crtl₁ crtl₂ : Int64) :
    ¬ (LengthFits size p.made.length crtl₁.toInt ∧
          (LengthApplies size p.made.length crtl₁.toInt p.extra →
            -2 ^ 63 ≤ p.oldPos + crtl₂.toInt ∧ p.oldPos + crtl₂.toInt < 2 ^ 63)) ∧
        (∃ trap t, exec (readExtra newSize crtl₁ crtl₂) s = (.error (.trap trap),t)) ∨
      LengthFits size p.made.length crtl₁.toInt ∧
        ¬ LengthApplies size p.made.length crtl₁.toInt p.extra ∧
        (∃ t parts, exec (readExtra newSize crtl₁ crtl₂) s = (.error (.bsPatch .corruptPatch),t) ∧
          Touched size old.length parts [] s t) ∨
      LengthFits size p.made.length crtl₁.toInt ∧
        LengthApplies size p.made.length crtl₁.toInt p.extra ∧
        (-2 ^ 63 ≤ p.oldPos + crtl₂.toInt ∧ p.oldPos + crtl₂.toInt < 2 ^ 63) ∧
        ∃ t, exec (readExtra newSize crtl₁ crtl₂) s = (.ok (),t) ∧
          Tracks size (p.takeExtra crtl₁.toInt crtl₂.toInt) t ∧
          t.streams .control = s.streams .control ∧
          Touched size old.length [(p.made.length,crtl₁.toInt.toNat)] [] s t := by
  have low := tracks.newPos
  have inside := tracks.inside
  have bounded := newSize.toInt_lt
  have read := readString_cases s old.length .extra newSize crtl₁ (by omega) (by omega)
  rw [size_eq, low, tracks.extra] at read
  unfold readExtra
  rcases read with ⟨beyond,trap,stops⟩ | ⟨fits,corrupt,t,parts,stops,touched⟩ | ⟨fits,applies,ran⟩
  · rw [bind_stopped stops]
    exact Or.inl ⟨fun both => beyond both.1,trap,s,rfl⟩
  · rw [bind_stopped stops]
    exact Or.inr (Or.inl ⟨fits,corrupt,t,parts,rfl,touched⟩)
  · rw [bind_ran ran]
    have length := applied_length applies
    have touched : Touched size old.length _ [] s _ := applied_touched tracks .extra applies
    obtain ⟨crtl_low,crtl_inside,there⟩ := applies
    have moved := adjust_cases (s := fill (p.extra.take crtl₁.toInt.toNat)
      (skip .extra crtl₁.toInt.toNat s)) crtl₁ crtl₂
    rw [fill_newPos, fill_oldPos, skip_newPos, skip_oldPos, low, tracks.oldPos] at moved
    rcases moved with ⟨beyond,trap,u,stops⟩ | ⟨newPos',oldPos',ran',newPos_eq,oldPos_eq⟩
    · rw [stops]
      refine Or.inl ⟨fun both => ?_,trap,u,rfl⟩
      have near := both.2 ⟨crtl_low,crtl_inside,there⟩
      omega
    · rw [ran']
      have near := oldPos'.toInt_lt
      have far := oldPos'.le_toInt
      refine Or.inr (Or.inr ⟨fits,⟨crtl_low,crtl_inside,there⟩,by omega,_,rfl,?_,?_,?_⟩)
      · have made_length : (p.takeExtra crtl₁.toInt crtl₂.toInt).made.length =
            p.made.length + crtl₁.toInt.toNat := by
          rw [Position.takeExtra, List.length_append, length]
        have new_eq : (fill (p.extra.take crtl₁.toInt.toNat)
            (skip .extra crtl₁.toInt.toNat s)).new = (p.takeExtra crtl₁.toInt crtl₂.toInt).made ++
              s.new.drop (p.takeExtra crtl₁.toInt crtl₂.toInt).made.length := by
          rw [fill_new tracks, made_length, length, ← List.append_assoc]
          rfl
        obtain ⟨new,room⟩ := made_new new_eq tracks.room (by omega)
        exact {
          newPos := by rw [newPos_eq, made_length]; omega
          oldPos := oldPos_eq
          diff := by simp [tracks.diff, Position.takeExtra]
          extra := by simp [tracks.extra, Position.takeExtra]
          new
          room
          inside := by omega }
      · simp
      · exact touched

theorem applies_iff {c : Control} : Applies size p c ↔
    LengthApplies size p.made.length c.diff p.diff ∧
      LengthApplies size (p.made.length + c.diff) c.extra p.extra := by
  constructor
  · intro applies
    exact ⟨⟨applies.diff_length,applies.diff_inside,applies.diff_there⟩,
      applies.extra_length,applies.extra_inside,applies.extra_there⟩
  · rintro ⟨⟨diff_length,diff_inside,diff_there⟩,extra_length,extra_inside,extra_there⟩
    exact ⟨diff_length,diff_inside,diff_there,extra_length,extra_inside,extra_there⟩

variable (old newSize size p) in
theorem turn_control (there : 24 ≤ (s.streams .control).length) :
    ∃ crtl₀ crtl₁ crtl₂ : Int64, ∃ t,
      crtl₀.toInt = (control (s.streams .control)).diff ∧
      crtl₁.toInt = (control (s.streams .control)).extra ∧
      crtl₂.toInt = (control (s.streams .control)).seek ∧
      t.streams .control = (s.streams .control).drop 24 ∧ t.accesses = s.accesses ∧
      (Tracks size p s → Tracks size p t) ∧
      exec (turn old newSize) s =
        exec (readDiff old newSize crtl₀ >>= fun _ => readExtra newSize crtl₁ crtl₂) t := by
  have second : (skip .control 8 s).streams .control = (s.streams .control).drop 8 := by simp
  have third : (skip .control 8 (skip .control 8 s)).streams .control =
      (s.streams .control).drop 16 := by simp
  have run := bind_ran (f := fun crtl₀ => readCrtl >>= fun crtl₁ => readCrtl >>= fun crtl₂ =>
    readDiff old newSize crtl₀ >>= fun _ => readExtra newSize crtl₁ crtl₂)
    (readCrtl_ran (s := s) (by omega))
  rw [bind_ran (readCrtl_ran (s := skip .control 8 s) (by rw [second, List.length_drop]; omega)),
    bind_ran (readCrtl_ran (s := skip .control 8 (skip .control 8 s))
      (by rw [third, List.length_drop]; omega)), second, third] at run
  refine ⟨_,_,_,skip .control 8 (skip .control 8 (skip .control 8 s)),offtin_toInt ?_,
    offtin_toInt ?_,offtin_toInt ?_,by simp,rfl,?_,run⟩
  · rw [List.length_take]
    omega
  · rw [List.length_take, List.length_drop]
    omega
  · rw [List.length_take, List.length_drop]
    omega
  · intro tracks
    exact {
      newPos := tracks.newPos
      oldPos := tracks.oldPos
      diff := by simp [tracks.diff]
      extra := by simp [tracks.extra]
      new := tracks.new
      room := tracks.room
      inside := tracks.inside }

variable (old newSize) in
theorem turn_short (short : (s.streams .control).length < 24) :
    ∃ t, exec (turn old newSize) s = (.error (.bsPatch .corruptPatch),t) ∧
      t.accesses = s.accesses := by
  unfold turn
  by_cases first : (s.streams .control).length < 8
  · rw [bind_stopped (readCrtl_short first)]
    exact ⟨_,rfl,rfl⟩
  · rw [bind_ran (readCrtl_ran (by omega))]
    by_cases second : ((skip .control 8 s).streams .control).length < 8
    · rw [bind_stopped (readCrtl_short second)]
      exact ⟨_,rfl,rfl⟩
    · rw [bind_ran (readCrtl_ran (by omega))]
      have third : ((skip .control 8 (skip .control 8 s)).streams .control).length < 8 := by
        simp at second ⊢
        omega
      rw [bind_stopped (readCrtl_short third)]
      exact ⟨_,rfl,rfl⟩

variable (old) in
/-- A turn that has its control value: it traps exactly if a sum does not fit. -/
theorem turn_cases (size_eq : newSize.toInt = size) (tracks : Tracks size p s)
    (there : 24 ≤ (s.streams .control).length) :
    ¬ SumsFit size p (control (s.streams .control)) ∧
        (∃ trap t, exec (turn old newSize) s = (.error (.trap trap),t)) ∨
      SumsFit size p (control (s.streams .control)) ∧
        ¬ Applies size p (control (s.streams .control)) ∧
        (∃ t parts places, exec (turn old newSize) s = (.error (.bsPatch .corruptPatch),t) ∧
          Touched size old.length parts places s t) ∨
      SumsFit size p (control (s.streams .control)) ∧
        Applies size p (control (s.streams .control)) ∧
        ∃ t, exec (turn old newSize) s = (.ok (),t) ∧
          Tracks size (p.apply old (control (s.streams .control))) t ∧
          t.streams .control = (s.streams .control).drop 24 ∧
          Touched size old.length (segment p (control (s.streams .control)))
            (places (segment p (control (s.streams .control)))) s t := by
  obtain ⟨crtl₀,crtl₁,crtl₂,t,diff,extra,seek,rest,untouched,kept,run⟩ :=
    turn_control old newSize size p there
  generalize control (s.streams .control) = c at diff extra seek ⊢
  have first := readDiff_cases old size_eq (kept tracks) crtl₀
  have start_touched : Touched size old.length [] [] s t := touched_nothing untouched
  rw [run, applies_iff, SumsFit]
  rw [diff] at first
  rcases first with ⟨beyond,trap,u,stops⟩ | ⟨fits,corrupt,u,parts,stops,touched⟩ |
      ⟨fits,applies,near,mid,ran,mid_tracks,control_mid,touched⟩
  · rw [bind_stopped stops]
    exact Or.inl ⟨fun sums => beyond ⟨sums.1,fun applies => (sums.2 applies).1⟩,trap,u,rfl⟩
  · rw [bind_stopped stops]
    exact Or.inr (Or.inl ⟨⟨fits,fun applies => absurd applies corrupt⟩,
      fun both => corrupt both.1,u,_,_,rfl,touched_trans start_touched touched⟩)
  · rw [bind_ran ran]
    have so_far := touched_trans start_touched touched
    have length : (p.takeDiff old c.diff).made.length = p.made.length + c.diff.toNat := by
      rw [Position.takeDiff, List.length_append, addOld_length, List.length_take]
      have diff_there := applies.2.2
      omega
    have length_int : ((p.takeDiff old c.diff).made.length : Int) = p.made.length + c.diff := by
      have diff_low := applies.1
      omega
    have second := readExtra_cases old size_eq mid_tracks crtl₁ crtl₂
    rw [length_int, extra, seek] at second
    change ¬ (LengthFits size (p.made.length + c.diff) c.extra ∧
      (LengthApplies size (p.made.length + c.diff) c.extra p.extra →
        -2 ^ 63 ≤ p.oldPos + c.diff + c.seek ∧ p.oldPos + c.diff + c.seek < 2 ^ 63)) ∧ _ ∨
      LengthFits size (p.made.length + c.diff) c.extra ∧
        ¬ LengthApplies size (p.made.length + c.diff) c.extra p.extra ∧ _ ∨
      LengthFits size (p.made.length + c.diff) c.extra ∧
        LengthApplies size (p.made.length + c.diff) c.extra p.extra ∧
        (-2 ^ 63 ≤ p.oldPos + c.diff + c.seek ∧ p.oldPos + c.diff + c.seek < 2 ^ 63) ∧ _ at second
    rcases second with ⟨beyond,trap,u,stops⟩ | ⟨fits',corrupt,u,parts,stops,touched'⟩ |
        ⟨fits',applies',near',u,ran',u_tracks,control_u,touched'⟩
    · exact Or.inl ⟨fun sums => beyond (sums.2 applies).2,trap,u,stops⟩
    · refine Or.inr (Or.inl ⟨⟨fits,fun _ => ⟨near,fits',fun applies' => absurd applies' corrupt⟩⟩,
        fun both => corrupt both.2,u,_,_,stops,touched_trans so_far touched'⟩)
    · refine Or.inr (Or.inr ⟨⟨fits,fun _ => ⟨near,fits',fun _ => near'⟩⟩,⟨applies,applies'⟩,
        u,ran',u_tracks,by rw [control_u, control_mid, rest],?_⟩)
      obtain ⟨more,grown,filled,added,inside⟩ := touched_trans so_far touched'
      refine ⟨more,grown,by rw [filled, length]; rfl,?_,inside⟩
      apply added.trans
      simp only [places, BinaryDelta.segment, List.flatMap_cons, List.flatMap_nil, List.append_nil,
        List.nil_append]
      exact List.sublist_append_left _ _

/-- The loop that comes to its end has applied the controls up to there. -/
theorem turns_follow (size_eq : newSize.toInt = size) {count : Nat} {t : State}
    (enough : (s.streams .control).length < 24 * count) (tracks : Tracks size p s)
    (run : exec (turns old newSize count) s = (.ok (),t)) :
    ∃ n, 24 * n ≤ (s.streams .control).length ∧
      AppliesAll old size p (controls n (s.streams .control)) ∧
      Tracks size ((controls n (s.streams .control)).foldl (Position.apply old) p) t ∧
      ((controls n (s.streams .control)).foldl (Position.apply old) p).made.length = size ∧
      Touched size old.length (segments old p (controls n (s.streams .control)))
        (places (segments old p (controls n (s.streams .control)))) s t := by
  induction count generalizing s p with
  | zero => omega
  | succ count ih =>
    unfold turns at run
    rw [bind_ran (exec_get s)] at run
    by_cases more : s.newPos.toInt < newSize.toInt
    · rw [if_pos more] at run
      by_cases short : (s.streams .control).length < 24
      · obtain ⟨u,stops,_⟩ := turn_short old newSize short
        rw [bind_stopped stops] at run
        cases run
      · rcases turn_cases old size_eq tracks (by omega) with ⟨_,trap,u,stops⟩ |
            ⟨_,_,u,_,_,stops,_⟩ | ⟨_,applies,u,ran,tracks',rest,touched⟩
        · rw [bind_stopped stops] at run
          cases run
        · rw [bind_stopped stops] at run
          cases run
        · rw [bind_ran ran] at run
          obtain ⟨n,there,all,last,made,touched'⟩ :=
            ih (by rw [rest, List.length_drop]; omega) tracks' run
          rw [rest] at there all last made touched'
          rw [List.length_drop] at there
          refine ⟨n + 1,by omega,⟨applies,all⟩,last,made,?_⟩
          have both := touched_trans touched touched'
          rw [← places_append] at both
          exact both
    · rw [if_neg more] at run
      cases run
      have low := tracks.newPos
      have inside := tracks.inside
      exact ⟨0,by omega,trivial,tracks,by simp [controls]; omega,touched_nothing rfl⟩

/-- With more turns allowed the loop does nothing more. -/
theorem turns_end (size_eq : newSize.toInt = size) {count : Nat} (more : Nat)
    (enough : (s.streams .control).length < 24 * count) (tracks : Tracks size p s) :
    exec (turns old newSize (count + more)) s = exec (turns old newSize count) s := by
  induction count generalizing s p with
  | zero => omega
  | succ count ih =>
    rw [Nat.succ_add]
    unfold turns
    rw [bind_ran (exec_get s), bind_ran (exec_get s)]
    split
    case isFalse => rfl
    case isTrue =>
      by_cases short : (s.streams .control).length < 24
      · obtain ⟨t,stops,_⟩ := turn_short old newSize short
        rw [bind_stopped stops, bind_stopped stops]
      · rcases turn_cases old size_eq tracks (by omega) with ⟨_,trap,t,stops⟩ |
            ⟨_,_,t,_,_,stops,_⟩ | ⟨_,_,t,ran,tracks',rest,_⟩
        · rw [bind_stopped stops, bind_stopped stops]
        · rw [bind_stopped stops, bind_stopped stops]
        · rw [bind_ran ran, bind_ran ran]
          exact ih (by rw [rest, List.length_drop]; omega) tracks'

end Turns

/-- Where the loop starts, with the buffer as it was allocated. -/
def begin (new : List UInt8) (streams : Part → List UInt8) : State where
  streams
  oldPos := 0
  newPos := 0
  new
  accesses := []

theorem begin_tracks {new : List UInt8} {size : Nat} (room : new.length = size + 1)
    (streams : Part → List UInt8) :
    Tracks size (start (streams .diff) (streams .extra)) (begin new streams) where
  newPos := rfl
  oldPos := rfl
  diff := rfl
  extra := rfl
  new := rfl
  room := room
  inside := Nat.zero_le _

/-- These controls have made the new bytes, segment by segment and inside of both buffers. -/
structure Follows (old : List UInt8) (size : Nat) (streams : Part → List UInt8)
    (cs : List Control) (t : State) : Prop where
  applies : AppliesAll old size (start (streams .diff) (streams .extra)) cs
  made : t.new.take size = applyDelta old cs (streams .diff) (streams .extra)
  length : (applyDelta old cs (streams .diff) (streams .extra)).length = size
  filled : fills t.accesses = segments old (start (streams .diff) (streams .extra)) cs
  covered : places (fills t.accesses) = List.range size
  added : (addedAt t.accesses).Sublist (List.range size)
  inside : ∀ access ∈ t.accesses, access.Inside size old.length

/-- A loop that completes has followed the controls that it read. -/
theorem patch_follows (old new : List UInt8) (newSize : Int64) (streams : Part → List UInt8)
    (positive : 0 ≤ newSize.toInt) (room : new.length = newSize.toInt.toNat + 1) (t : State)
    (run : patchLoop old newSize (begin new streams) = (.ok (),t)) :
    ∃ n, 24 * n ≤ (streams .control).length ∧
      Follows old newSize.toInt.toNat streams (controls n (streams .control)) t := by
  obtain ⟨n,there,all,last,length,more,grown,filled,added,inside⟩ :=
    turns_follow (Int.toNat_of_nonneg positive).symm
      (show ((begin new streams).streams .control).length < 24 * _ by omega)
      (begin_tracks room streams) run
  have accesses : t.accesses = more := grown
  have cover := segments_cover all
  rw [length] at cover
  have range : List.range' (start (streams .diff) (streams .extra)).made.length
      (newSize.toInt.toNat - (start (streams .diff) (streams .extra)).made.length) =
        List.range newSize.toInt.toNat := List.range_eq_range'.symm
  refine ⟨n,there,all,?_,length,accesses ▸ filled,?_,?_,accesses ▸ inside⟩
  · have new_eq := last.new
    rw [length] at new_eq
    exact new_eq
  · rw [accesses, filled]
    exact cover.trans range
  · rw [accesses]
    exact added.trans (by rw [cover.trans range])

/-- Two old bytes are added to, and a new one comes behind them. -/
def sample : Part → List UInt8
  | .control => [2,0,0,0,0,0,0,0,1,0,0,0,0,0,0,0,1,0,0,0,0,0,0,0x80]
  | .diff => [1,255]
  | .extra => [9]

theorem sample_follows : ∃ n, 24 * n ≤ (sample .control).length ∧
    Follows [5,6,7] 3 sample (controls n (sample .control))
      (patchLoop [5,6,7] 3 (begin [0,0,0,0] sample)).2 :=
  patch_follows [5,6,7] [0,0,0,0] 3 sample (by decide) (by decide) _ (Prod.ext rfl rfl)

end BSPatch
