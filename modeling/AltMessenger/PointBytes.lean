import AltMessenger.DerSignatures

/-!
Public points as bytes. `toData` writes each coordinate with no more bytes than it needs, and
`point(data:)` reads words in the byte order of the machine, each shifted by one byte only.
-/
namespace PointBytes
open SwiftRuntime FiniteFieldInteger BitcoinHash LittleEndian
open BitcoinKeys (fieldPrime)
open DerSignatures (getBytes getBytes_ok)
open ECurve (ECPoint Coordinate)

def toData : ECPoint → Except Trap (List UInt8)
  | .affine x y => do
    let x ← unwrap x
    let y ← unwrap y
    pure (0x04 :: serialize x.value ++ serialize y.value)
  | .jacobian _ _ _ => .error .assertion

/-- An array of `UInt32` over these bytes, on a machine whose words start with the lowest byte. -/
def words : List UInt8 → List Nat
  | a :: b :: c :: d :: rest => ofBytes [a,b,c,d] :: words rest
  | _ => []

def bigIntPow256 (n m : Nat) : Nat :=
  n * (List.range m).foldl (fun dicimal _ => dicimal * 256) 1

def intArrayToBigInt (nums : List Nat) : Nat :=
  nums.zipIdx.foldl (fun bigInt num => bigInt + bigIntPow256 num.1 (nums.length - num.2 - 1)) 0

/-- `ECurve.point(data:)`; without a first byte it is zero. -/
def point (data : List UInt8) : Except Trap (Option ECPoint) :=
  if data.head? = some 4 then do
    let x ← getBytes data 1 32
    let y ← getBytes data 33 32
    let X ← int fieldPrime (intArrayToBigInt (words x))
    let Y ← int fieldPrime (intArrayToBigInt (words y))
    pure (some (.affine (some X) (some Y)))
  else .error .assertion

/-- The point comes back from its bytes. -/
def RoundTrips (point' : ECPoint) : Prop :=
  ∃ data, toData point' = .ok data ∧ point data = .ok (some point')

theorem bigIntPow256_eq (n m : Nat) : bigIntPow256 n m = n * 256 ^ m := by
  rw [bigIntPow256]
  congr 1
  induction m with
  | zero => rfl
  | succ m ih =>
    rw [List.range_succ, List.foldl_append, ih, List.foldl_cons, List.foldl_nil, pow_succ]

theorem words_lt {bytes : List UInt8} : ∀ num ∈ words bytes, num < 2 ^ 32 := by
  induction bytes using words.induct with
  | case1 a b c d rest ih =>
    intro num mem
    rw [words] at mem
    rcases List.mem_cons.mp mem with rfl | later
    · have word : ofBytes [a,b,c,d] < 256 ^ 4 := ofBytes_lt [a,b,c,d]
      exact word.trans_eq (by norm_num)
    · exact ih num later
  | case2 bytes few =>
    intro num mem
    rw [words] at mem
    · cases mem
    · exact few

theorem words_length (bytes : List UInt8) : 4 * (words bytes).length ≤ bytes.length := by
  induction bytes using words.induct with
  | case1 a b c d rest ih =>
    rw [words]
    simp only [List.length_cons]
    omega
  | case2 bytes few =>
    rw [words]
    · simp
    · exact few

theorem foldl_le {α : Type} (f : α → Nat) {bound : Nat} {xs : List α}
    (small : ∀ x ∈ xs, f x ≤ bound) (start : Nat) :
    xs.foldl (fun sum x => sum + f x) start ≤ start + xs.length * bound := by
  induction xs generalizing start with
  | nil => simp
  | cons x xs ih =>
    have first := small x List.mem_cons_self
    have rest := ih (fun x mem => small x (List.mem_cons_of_mem _ mem)) (start + f x)
    rw [List.foldl_cons, List.length_cons]
    have split : (xs.length + 1) * bound = xs.length * bound + bound := by ring
    omega

/-- What is read from 32 bytes is far below what they can hold. -/
theorem intArrayToBigInt_lt {bytes : List UInt8} (length : bytes.length = 32) :
    intArrayToBigInt (words bytes) < 2 ^ 92 := by
  have count := words_length bytes
  have terms : ∀ num ∈ (words bytes).zipIdx,
      bigIntPow256 num.1 ((words bytes).length - num.2 - 1) ≤ 2 ^ 32 * 256 ^ 7 := by
    intro num mem
    rw [bigIntPow256_eq]
    have word := words_lt num.1 (List.fst_mem_of_mem_zipIdx mem)
    exact Nat.mul_le_mul word.le (Nat.pow_le_pow_right (by decide) (by omega))
  have sum := foldl_le (fun num : Nat × Nat =>
    bigIntPow256 num.1 ((words bytes).length - num.2 - 1)) terms 0
  rw [List.length_zipIdx, Nat.zero_add] at sum
  have most : (words bytes).length * (2 ^ 32 * 256 ^ 7) ≤ 8 * (2 ^ 32 * 256 ^ 7) :=
    Nat.mul_le_mul_right _ (by omega)
  exact (sum.trans most).trans_lt (by decide)

theorem serialize_length_iff {number bytes : Nat} (fits : number < 256 ^ (bytes + 1)) :
    (serialize number).length = bytes + 1 ↔ 256 ^ bytes ≤ number := by
  constructor
  · intro length
    by_contra low
    have short := serialize_length_le (not_le.mp low)
    omega
  · intro low
    rw [serialize_of_size low fits, List.length_reverse, toBytes_length]

section Points
variable {x y : Coordinate}

theorem coordinate_fits (x : Coordinate) : x.value < 256 ^ 32 :=
  x.small.trans (by decide)

theorem toData_affine (x y : Coordinate) : toData (.affine (some x) (some y)) =
    .ok (0x04 :: serialize x.value ++ serialize y.value) := rfl

theorem toData_length (x y : Coordinate) :
    (0x04 :: serialize x.value ++ serialize y.value).length ≤ 65 ∧
      ((0x04 :: serialize x.value ++ serialize y.value).length = 65 ↔
        2 ^ 248 ≤ x.value ∧ 2 ^ 248 ≤ y.value) := by
  have x_short := serialize_length_le (coordinate_fits x)
  have y_short := serialize_length_le (coordinate_fits y)
  have x_whole := @serialize_length_iff x.value 31 (coordinate_fits x)
  have y_whole := @serialize_length_iff y.value 31 (coordinate_fits y)
  rw [bytes_pow] at x_whole y_whole
  rw [← x_whole, ← y_whole, List.length_append, List.length_cons]
  omega

/-- What is read has small coordinates, and 65 bytes are needed. -/
theorem point_small {data : List UInt8} {read : ECPoint} (run : point data = .ok (some read)) :
    65 ≤ data.length ∧ ∃ X Y : Coordinate, read = .affine (some X) (some Y) ∧ X.value < 2 ^ 92 := by
  rw [point] at run
  split at run
  case isFalse => cases run
  case isTrue =>
    obtain ⟨x,x_bytes,run⟩ := bind_ran.mp run
    obtain ⟨y,y_bytes,run⟩ := bind_ran.mp run
    obtain ⟨X,X_int,run⟩ := bind_ran.mp run
    obtain ⟨Y,_,run⟩ := bind_ran.mp run
    cases run
    have x_length : x.length = 32 := by
      obtain ⟨inside,rfl⟩ := getBytes_ok.mp x_bytes
      rw [List.length_take, List.length_drop]
      omega
    refine ⟨(getBytes_ok.mp y_bytes).1,X,Y,rfl,?_⟩
    rw [← int_iff.mp X_int]
    exact intArrayToBigInt_lt x_length

end Points

/-- No point comes back, and the bytes are 65 only of two coordinates of 32 bytes. -/
theorem never_round_trips (x y : Coordinate) :
    ¬ RoundTrips (.affine (some x) (some y)) ∧
      ∃ data, toData (.affine (some x) (some y)) = .ok data ∧
        (data.length = 65 ↔ 2 ^ 248 ≤ x.value ∧ 2 ^ 248 ≤ y.value) := by
  obtain ⟨short,whole⟩ := toData_length x y
  refine ⟨?_,_,toData_affine x y,whole⟩
  rintro ⟨data,written,read⟩
  cases (toData_affine x y).symm.trans written
  obtain ⟨long,X,Y,same,small⟩ := point_small read
  cases same
  have large := (whole.mp (le_antisymm short long)).1
  have apart : 2 ^ 92 < 2 ^ 248 := by decide
  omega

/-- The point with `x = 1`, whose `y` has the square eight. -/
def shortPoint : ECPoint :=
  .affine (some ⟨1,by decide⟩)
    (some ⟨0x4218f20ae6c646b363db68605822fb14264ca8d2587fdd6fbc750d587e76a7ee,by decide⟩)

/-- The base point is read as another pair of numbers, and the bytes of a point with a small
    coordinate end too early. -/
theorem base_point_lost :
    (toData ECurve.G >>= point) = .ok (some (.affine
      (some ⟨0x7f140fc081b2edea375116,by decide⟩) (some ⟨0x7840fc8f1b3c0b0bc1acfb,by decide⟩))) ∧
      ¬ RoundTrips ECurve.G ∧ (toData shortPoint).map List.length = .ok 34 ∧
      (toData shortPoint >>= point) = .error .index := by
  have other : (toData ECurve.G >>= point) = .ok (some (.affine
      (some ⟨0x7f140fc081b2edea375116,by decide⟩) (some ⟨0x7840fc8f1b3c0b0bc1acfb,by decide⟩))) := by
    decide +kernel
  refine ⟨other,?_,by decide +kernel,by decide +kernel⟩
  rintro ⟨data,written,back⟩
  rw [bind_ready written, back] at other
  exact absurd other (by decide)

end PointBytes
