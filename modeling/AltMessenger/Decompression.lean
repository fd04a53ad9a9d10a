import AltMessenger.SwiftRuntime

/-!
Data that is compressed by bzip2. The library is given: it takes some of the bytes that are left,
gives some output, and says whether the stream has come to its end.
-/
namespace Decompression
open SwiftRuntime

/-- What the library makes of a byte string, in however many calls. -/
inductive Verdict where
  | ended (output : List UInt8)
  | failed
  | unfinished
  deriving DecidableEq, Repr

/-- What a call of `BZ2_bzDecompress` leaves. -/
inductive Call (Stream : Type) where
  /-- `BZ_OK` -/
  | ok (stream : Stream) (next_in output : List UInt8)
  /-- `BZ_STREAM_END` -/
  | streamEnd (output : List UInt8)
  /-- a negative code -/
  | failed

structure Bzip2 where
  Stream : Type
  /-- `BZ2_bzDecompressInit`, `none` for another code than `BZ_OK` -/
  decompressInit : Option Stream
  /-- `BZ2_bzDecompress`, with the input that is left and the room for output -/
  decompress : Stream → List UInt8 → Nat → Call Stream
  verdict : List UInt8 → Verdict
  /-- the input and the output of the stream so far -/
  taken : Stream → List UInt8
  given : Stream → List UInt8
  /-- the most output that there is in a byte string -/
  limit : List UInt8 → Nat
  starts : ∀ stream, decompressInit = some stream → taken stream = [] ∧ given stream = []
  moves : ∀ stream input room next next_in output,
    decompress stream input room = .ok next next_in output →
      taken next ++ next_in = taken stream ++ input ∧ given next = given stream ++ output ∧
        (given next).length ≤ limit (taken stream ++ input)
  /-- There is progress while there can be any, and only the input's end is silent. -/
  progress : ∀ stream input room next next_in output, 0 < room →
    decompress stream input room = .ok next next_in output →
      next_in.length < input.length ∨ (next_in.length ≤ input.length ∧ output ≠ []) ∨
        next_in = [] ∧ verdict (taken stream ++ input) = .unfinished
  ends : ∀ stream input room output, decompress stream input room = .streamEnd output →
    verdict (taken stream ++ input) = .ended (given stream ++ output)
  fails : ∀ stream input room, decompress stream input room = .failed →
    verdict (taken stream ++ input) = .failed

def BZCompressionBufferSize : Nat := 1024

section Wrapper
variable (B : Bzip2)

/-- `repeat .. while bzret != BZ_STREAM_END`, for at most this many turns; the result is `none` if
    it goes on. -/
def decompressLoop : Nat → B.Stream → List UInt8 → List UInt8 → Option (Option (List UInt8))
  | 0, _, _, _ => none
  | turns + 1, stream, next_in, decompressed =>
    match B.decompress stream next_in BZCompressionBufferSize with
    | .failed => some none
    | .streamEnd output => some (some (decompressed ++ output))
    | .ok stream next_in output => decompressLoop turns stream next_in (decompressed ++ output)

/-- `Data.init?(bzCompressedData:)` -/
def bzDecompressed (turns : Nat) (data : List UInt8) :
    Except Trap (Option (Option (List UInt8))) :=
  if data = [] then .ok (some none)
  else if data.length < 2 ^ 32 then
    match B.decompressInit with
    | none => .ok (some none)
    | some stream => .ok (decompressLoop B turns stream data [])
  else .error .conversion

/-- The loop comes to its end, with data or nil. -/
def Terminates (data : List UInt8) : Prop :=
  ∃ turns result, bzDecompressed B turns data = .ok (some result)

/-- The result that belongs to a verdict. -/
def Verdict.result : Verdict → Option (List UInt8)
  | .ended output => some output
  | _ => none

end Wrapper

section Loop
variable {B : Bzip2} {stream : B.Stream} {data input : List UInt8}

/-- Neither an end nor an error is reported of data that is not finished. -/
theorem loop_unfinished (whole : B.taken stream ++ input = data)
    (unfinished : B.verdict data = .unfinished) (turns : Nat) (decompressed : List UInt8) :
    decompressLoop B turns stream input decompressed = none := by
  induction turns generalizing stream input decompressed with
  | zero => rfl
  | succ turns ih =>
    rw [decompressLoop]
    cases call : B.decompress stream input BZCompressionBufferSize with
    | failed =>
      have verdict := B.fails _ _ _ call
      rw [whole, unfinished] at verdict
      cases verdict
    | streamEnd output =>
      have verdict := B.ends _ _ _ _ call
      rw [whole, unfinished] at verdict
      cases verdict
    | ok next next_in output =>
      have moved := (B.moves _ _ _ _ _ _ call).1
      exact ih (moved.trans whole) _

/-- Each turn takes input or gives output, of which there is only so much. -/
theorem loop_finished (whole : B.taken stream ++ input = data)
    (finished : B.verdict data ≠ .unfinished) :
    ∃ turns, decompressLoop B turns stream input (B.given stream) =
      some (B.verdict data).result := by
  induction left : input.length + (B.limit data - (B.given stream).length)
    using Nat.strongRecOn generalizing stream input with
  | ind n ih =>
    cases call : B.decompress stream input BZCompressionBufferSize with
    | failed =>
      have verdict := B.fails _ _ _ call
      rw [whole] at verdict
      exact ⟨1,by rw [decompressLoop, call, verdict]; rfl⟩
    | streamEnd output =>
      have verdict := B.ends _ _ _ _ call
      rw [whole] at verdict
      exact ⟨1,by rw [decompressLoop, call, verdict]; rfl⟩
    | ok next next_in output =>
      obtain ⟨moved,gave,room⟩ := B.moves _ _ _ _ _ _ call
      rw [whole] at moved room
      have longer : (B.given next).length = (B.given stream).length + output.length := by
        rw [gave, List.length_append]
      have less : next_in.length + (B.limit data - (B.given next).length) < n := by
        rcases B.progress _ _ _ _ _ _ (by decide) call with took | ⟨kept,some_output⟩ | ⟨_,silent⟩
        · omega
        · have positive := List.length_pos_iff.mpr some_output
          omega
        · rw [whole] at silent
          exact absurd silent finished
      obtain ⟨turns,ran⟩ := ih _ less moved rfl
      refine ⟨turns + 1,?_⟩
      rw [decompressLoop, call]
      dsimp only
      rw [← gave]
      exact ran

end Loop

/-- The loop ends on data, with what the library makes of it, exactly if there is no data, or its
    length has 32 bits and the library does not wait for more of it. -/
theorem terminates_iff (B : Bzip2) (data : List UInt8) :
    Terminates B data ↔ data = [] ∨ data.length < 2 ^ 32 ∧
      (B.decompressInit = none ∨ B.verdict data ≠ .unfinished) := by
  unfold Terminates bzDecompressed
  by_cases empty : data = []
  case pos => exact iff_of_true ⟨0,none,if_pos empty⟩ (Or.inl empty)
  case neg =>
    rw [or_iff_right empty]
    simp only [if_neg empty]
    by_cases short : data.length < 2 ^ 32
    case neg =>
      refine iff_of_false ?_ fun met => short met.1
      rintro ⟨turns,result,run⟩
      rw [if_neg short] at run
      cases run
    case pos =>
      rw [and_iff_right short]
      simp only [if_pos short]
      cases start : B.decompressInit with
      | none => exact iff_of_true ⟨0,none,rfl⟩ (Or.inl rfl)
      | some stream =>
        obtain ⟨nothing_taken,nothing_given⟩ := B.starts stream start
        have whole : B.taken stream ++ data = data := by rw [nothing_taken, List.nil_append]
        constructor
        · rintro ⟨turns,result,run⟩
          refine Or.inr fun unfinished => ?_
          dsimp only at run
          rw [loop_unfinished whole unfinished] at run
          cases run
        · rintro (stopped | finished)
          · cases stopped
          · obtain ⟨turns,ran⟩ := loop_finished whole finished
            rw [nothing_given] at ran
            exact ⟨turns,_,congrArg _ ran⟩

/-- The compressed form of no data. -/
def emptyStream : List UInt8 := [0x42,0x5a,0x68,0x39,0x17,0x72,0x45,0x38,0x50,0x90,0,0,0,0]

def emptyVerdict (data : List UInt8) : Verdict :=
  if emptyStream <+: data then .ended []
  else if data <+: emptyStream then .unfinished
  else .failed

/-- The library as far as it is about this stream and its beginnings. -/
def emptyBzip2 : Bzip2 where
  Stream := List UInt8
  decompressInit := some []
  decompress := fun stream input _ =>
    match emptyVerdict (stream ++ input) with
    | .ended output => .streamEnd output
    | .unfinished => .ok (stream ++ input) [] []
    | .failed => .failed
  verdict := emptyVerdict
  taken := id
  given := fun _ => []
  limit := fun _ => 0
  starts := fun stream start => ⟨(Option.some.inj start).symm,rfl⟩
  moves := by
    intro stream input room next next_in output call
    split at call
    · cases call
    · cases call
      exact ⟨List.append_nil _,rfl,Nat.zero_le _⟩
    · cases call
  progress := by
    intro stream input room next next_in output _ call
    split at call
    · cases call
    case h_2 unfinished =>
      cases call
      exact Or.inr (Or.inr ⟨rfl,unfinished⟩)
    · cases call
  ends := by
    intro stream input room output call
    split at call
    case h_1 ended =>
      cases call
      exact ended
    · cases call
    · cases call
  fails := by
    intro stream input room call
    split at call
    · cases call
    · cases call
    case h_3 failed => exact failed

/-- The first four bytes of a compressed file keep the loop going for ever. -/
theorem truncated_never_ends : ¬ Terminates emptyBzip2 [0x42,0x5a,0x68,0x39] := by
  rintro ⟨turns,result,run⟩
  have unfinished : emptyBzip2.verdict [0x42,0x5a,0x68,0x39] = .unfinished := by decide
  have going : bzDecompressed emptyBzip2 turns [0x42,0x5a,0x68,0x39] = .ok none :=
    congrArg _ (@loop_unfinished emptyBzip2 [] _ _ rfl unfinished turns [])
  cases going.symm.trans run

end Decompression
