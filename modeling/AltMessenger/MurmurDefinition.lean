import AltMessenger.MachineWords

/-!
The hash function MurmurHash3 of 32 bits: the words of the key are mixed in one
after another, then what is left over of it, and last its length.
-/
namespace MurmurHash3
open LittleEndian MachineWords

/-- What a word is scrambled to before it is mixed in. -/
def scramble (k : UInt32) : UInt32 := rol (k * 0xcc9e2d51) 15 * 0x1b873593

def mix (h k : UInt32) : UInt32 := rol (h ^^^ scramble k) 13 * 5 + 0xe6546b64

def finalize (h : UInt32) : UInt32 :=
  let h := (h ^^^ h >>> 16) * 0x85ebca6b
  let h := (h ^^^ h >>> 13) * 0xc2b2ae35
  h ^^^ h >>> 16

def hash (seed : UInt32) (key : List UInt8) : UInt32 :=
  let blocks := key.length / 4
  let body := ((words 4 blocks key).map UInt32.ofNat).foldl mix seed
  let tail := UInt32.ofNat (ofBytes (key.drop (4 * blocks)))
  finalize (body ^^^ scramble tail ^^^ UInt32.ofNat key.length)

/-- A key that fills its last word leaves nothing to scramble. -/
theorem scramble_zero : scramble 0 = 0 := by decide

example : hash 0 [0x00,0x11,0x22,0x33,0x44,0x55,0x66] = 0xb074502c := by decide +kernel

end MurmurHash3
