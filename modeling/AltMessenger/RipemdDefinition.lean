import Mathlib.Logic.Function.Iterate
import AltMessenger.MachineWords

/-!
The hash function RIPEMD-160. Two lines of eighty steps each run over the
sixteen words of a block, every line in five rounds. The orders in which they
read the words are generated by two permutations, and a word is rotated by as
much in the one line as in the other.
-/
namespace Ripemd160
open LittleEndian MachineWords

/-- A chaining value, or the registers of a line. -/
@[ext] structure Words where
  A : UInt32
  B : UInt32
  C : UInt32
  D : UInt32
  E : UInt32
  deriving DecidableEq, Repr

def initial : Words := ⟨0x67452301,0xEFCDAB89,0x98BADCFE,0x10325476,0xC3D2E1F0⟩

def boolean (round : Nat) (x y z : UInt32) : UInt32 :=
  match round with
  | 0 => x ^^^ y ^^^ z
  | 1 => (x &&& y) ||| (~~~x &&& z)
  | 2 => (x ||| ~~~y) ^^^ z
  | 3 => (x &&& z) ||| (y &&& ~~~z)
  | _ => x ^^^ (y ||| ~~~z)

def rho (i : Nat) : Nat := [7,4,13,1,10,6,15,3,12,0,9,5,2,14,11,8].getD i 0

def pi (i : Nat) : Nat := (9 * i + 5) % 16

/-- By how much each of the sixteen words is rotated, round by round. -/
def shifts : List (List Nat) :=
  [[11,14,15,12,5,8,7,9,11,13,14,15,6,7,9,8],
    [12,13,11,15,6,9,9,7,12,15,11,13,7,8,7,7],
    [13,15,14,11,7,7,6,8,13,14,13,12,5,5,6,9],
    [14,11,12,14,8,6,5,5,15,12,15,14,9,9,8,6],
    [15,12,13,13,9,5,8,6,14,11,12,11,8,6,5,5]]

def shift (round word : Nat) : Nat := (shifts.getD round []).getD word 0

structure Line where
  first : Nat → Nat
  constants : List UInt32
  function : Nat → UInt32 → UInt32 → UInt32 → UInt32

def left : Line where
  first := id
  constants := [0x00000000,0x5A827999,0x6ED9EBA1,0x8F1BBCDC,0xA953FD4E]
  function := boolean

/-- The functions are taken in reverse. -/
def right : Line where
  first := pi
  constants := [0x50A28BE6,0x5C4DD124,0x6D703EF3,0x7A6D76E9,0x00000000]
  function round := boolean (4 - round)

namespace Line
variable (line : Line)

/-- The word that a step reads. -/
def word (j : Nat) : Nat := rho^[j / 16] (line.first (j % 16))

def step (X : Nat → UInt32) (r : Words) (j : Nat) : Words where
  A := r.E
  B := rol (r.A + line.function (j / 16) r.B r.C r.D + X (line.word j) +
    line.constants.getD (j / 16) 0) (shift (j / 16) (line.word j)) + r.E
  C := r.B
  D := rol r.C 10
  E := r.D

def run (X : Nat → UInt32) (h : Words) : Words := (List.range 80).foldl (line.step X) h

end Line

def compress (X : Nat → UInt32) (h : Words) : Words :=
  let l := left.run X h
  let r := right.run X h
  ⟨h.B + l.C + r.D,h.C + l.D + r.E,h.D + l.E + r.A,h.E + l.A + r.B,h.A + l.B + r.C⟩

/-- The message, a one bit, zeros, and the length in bits: no more zeros than it takes to fill the
    last block of 64 bytes. -/
def Padded (message padded : List UInt8) : Prop :=
  ∃ zeros, padded = message ++ 0x80 :: (List.replicate zeros 0 ++ toBytes 8 (8 * message.length)) ∧
    64 ∣ padded.length ∧ ∀ fewer, 64 ∣ message.length + 1 + fewer + 8 → zeros ≤ fewer

def zeros (length : Nat) : Nat := (119 - length % 64) % 64

def pad (message : List UInt8) : List UInt8 :=
  message ++ 0x80 :: (List.replicate (zeros message.length) 0 ++ toBytes 8 (8 * message.length))

def blocks : Nat → List UInt8 → List (List UInt8)
  | 0, _ => []
  | count + 1, bytes => bytes.take 64 :: blocks count (bytes.drop 64)

def messageWord (block : List UInt8) (i : Nat) : UInt32 :=
  .ofNat (ofBytes ((block.drop (4 * i)).take 4))

def bytes (h : Words) : List UInt8 :=
  [h.A,h.B,h.C,h.D,h.E].flatMap fun word => toBytes 4 word.toNat

def digest (message : List UInt8) : List UInt8 :=
  bytes ((blocks ((pad message).length / 64) (pad message)).foldl
    (fun h block => compress (messageWord block) h) initial)

theorem pad_length (message : List UInt8) :
    (pad message).length = message.length + 1 + zeros message.length + 8 := by
  simp [pad]
  omega

theorem pad_padded (message : List UInt8) : Padded message (pad message) := by
  refine ⟨zeros message.length,rfl,?_,?_⟩
  · rw [pad_length, zeros]
    omega
  · intro fewer whole
    rw [zeros]
    omega

theorem padded_unique {message padded : List UInt8} (is : Padded message padded) :
    padded = pad message := by
  obtain ⟨count,rfl,whole,least⟩ := is
  have same : count = zeros message.length := by
    have low := least (zeros message.length) (by rw [zeros]; omega)
    simp only [List.length_append, List.length_cons, List.length_replicate, toBytes_length] at whole
    rw [zeros] at low ⊢
    omega
  rw [same]
  rfl

theorem bytes_length (h : Words) : (bytes h).length = 20 := by simp [bytes]

theorem blocks_succ_last (count : Nat) (data : List UInt8) :
    blocks (count + 1) data = blocks count data ++ [(data.drop (64 * count)).take 64] := by
  induction count generalizing data with
  | zero => simp [blocks]
  | succ count ih =>
    have next : 64 + 64 * count = 64 * (count + 1) := by omega
    rw [blocks, ih, List.drop_drop, next]
    rfl

theorem blocks_flatten {count : Nat} {data : List UInt8} (whole : data.length = 64 * count) :
    (blocks count data).flatten = data := by
  induction count generalizing data with
  | zero => simpa [blocks] using whole
  | succ count ih =>
    rw [blocks, List.flatten_cons, ih (by simp; omega), List.take_append_drop]

end Ripemd160
