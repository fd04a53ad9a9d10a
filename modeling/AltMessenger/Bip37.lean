import Mathlib.Data.Nat.Bitwise
import AltMessenger.MerkleTree

/-!
BIP 37's own two algorithms: the depth-first builder, and the verifier that
computes the width of every level and refuses a real right child that equals its
left sibling. The flag bits travel in bytes, lowest bit first.
-/
namespace Bip37
open MerkleTree

variable {H : Type}

def byteOfBits : List Bool → Nat
  | [] => 0
  | bit :: bits => bit.toNat + 2 * byteOfBits bits

def packBytes : Nat → List Bool → List UInt8
  | 0, _ => []
  | count + 1, bits => UInt8.ofNat (byteOfBits (bits.take 8)) :: packBytes count (bits.drop 8)

/-- As few bytes as hold the bits. -/
def packBits (bits : List Bool) : List UInt8 := packBytes ((bits.length + 7) / 8) bits

def bitsOfByte (byte : UInt8) : List Bool := (List.range 8).map byte.toNat.testBit

def unpackBits (bytes : List UInt8) : List Bool := bytes.flatMap bitsOfByte

theorem testBit_byteOfBits (bits : List Bool) (i : Nat) :
    (byteOfBits bits).testBit i = bits.getD i false := by
  induction bits generalizing i with
  | nil => simp [byteOfBits]
  | cons bit bits ih =>
    cases i with
    | zero =>
      simp only [byteOfBits, Nat.testBit_zero]
      cases bit <;> simp
    | succ i =>
      have half : (bit.toNat + 2 * byteOfBits bits) / 2 = byteOfBits bits := by
        have one : bit.toNat ≤ 1 := Bool.toNat_le bit
        omega
      rw [byteOfBits, Nat.testBit_succ, half, ih, List.getD_cons_succ]

theorem byteOfBits_lt (bits : List Bool) : byteOfBits bits < 2 ^ bits.length := by
  induction bits with
  | nil => simp [byteOfBits]
  | cons bit bits ih =>
    have one : bit.toNat ≤ 1 := Bool.toNat_le bit
    rw [byteOfBits, List.length_cons, Nat.pow_succ]
    omega

theorem bitsOfByte_byteOfBits (bits : List Bool) (few : bits.length ≤ 8) :
    bitsOfByte (UInt8.ofNat (byteOfBits bits)) =
      bits ++ List.replicate (8 - bits.length) false := by
  have bound : byteOfBits bits < 2 ^ 8 :=
    Nat.lt_of_lt_of_le (byteOfBits_lt bits) (Nat.pow_le_pow_right (by omega) few)
  rw [bitsOfByte, UInt8.toNat_ofNat_of_lt' bound]
  apply List.ext_getElem
  · simp; omega
  · intro i inside inside'
    rw [List.getElem_map, List.getElem_range, testBit_byteOfBits, List.getElem_append]
    split
    · rename_i here
      rw [List.getD_eq_getElem _ _ here]
    · rename_i past
      rw [List.getD_eq_default _ _ (Nat.not_lt.mp past), List.getElem_replicate]

theorem unpackBits_packBytes (count : Nat) (bits : List Bool) (fits : bits.length ≤ 8 * count) :
    unpackBits (packBytes count bits) = bits ++ List.replicate (8 * count - bits.length) false := by
  induction count generalizing bits with
  | zero =>
    have none : bits = [] := List.length_eq_zero_iff.mp (by omega)
    rw [none]
    rfl
  | succ count ih =>
    have later := ih (bits.drop 8) (by rw [List.length_drop]; omega)
    have first := bitsOfByte_byteOfBits (bits.take 8) (List.length_take_le 8 bits)
    rw [packBytes, unpackBits, List.flatMap_cons, first, ← unpackBits, later, List.length_drop]
    by_cases short : bits.length ≤ 8
    · rw [List.take_of_length_le short, List.drop_of_length_le short, List.nil_append,
        List.append_assoc, List.replicate_append_replicate]
      congr 2
      omega
    · have long : (bits.take 8).length = 8 := by rw [List.length_take]; omega
      have pad : 8 * count - (bits.length - 8) = 8 * (count + 1) - bits.length := by omega
      rw [long, Nat.sub_self, List.replicate_zero, List.append_nil, ← List.append_assoc,
        List.take_append_drop, pad]

theorem unpackBits_packBits (bits : List Bool) :
    ∃ pad < 8, unpackBits (packBits bits) = bits ++ List.replicate pad false :=
  ⟨_,by omega,unpackBits_packBytes _ bits (by omega)⟩

theorem unpackBits_length (bytes : List UInt8) :
    (unpackBits bytes).length = 8 * bytes.length := by
  induction bytes with
  | nil => rfl
  | cons byte bytes ih =>
    rw [unpackBits, List.flatMap_cons, List.length_append, ← unpackBits, ih]
    simp [bitsOfByte]
    omega

/-- The shape BIP 37 gives a partial tree: a right child exactly where the level
    below reaches that far. -/
def Shaped (n : Nat) : Nat → Nat → PartialTree H → Prop
  | _, _, .given _ _ => True
  | 0, _, _ => False
  | h + 1, p, .fork left right =>
    2 * p + 1 < width n h ∧ Shaped n h (2 * p) left ∧ Shaped n h (2 * p + 1) right
  | h + 1, p, .lone left => ¬ 2 * p + 1 < width n h ∧ Shaped n h (2 * p) left

/-- The next two positions below are on the level exactly when they are leaves'. -/
theorem below {n h p : Nat} (real : p < width n (h + 1)) : 2 * p < width n h := by
  rw [width_succ] at real
  omega

/-- Only the last node of a level can lack something below it. -/
theorem Shaped.ragged {n h p : Nat} {tree : PartialTree H} (shaped : Shaped n h p tree)
    (real : p < width n h) : tree.Ragged ∧ (p + 1 < width n h → tree.Solid) := by
  induction tree generalizing h p with
  | given flag hash => exact ⟨trivial,fun _ => trivial⟩
  | fork left right ihl ihr =>
    cases h with
    | zero => exact shaped.elim
    | succ h =>
      obtain ⟨two,first,second⟩ := shaped
      have solid := (ihl first (below real)).2 two
      obtain ⟨ragged,inner⟩ := ihr second two
      refine ⟨⟨solid,ragged⟩,?_⟩
      intro more
      have next := below more
      exact ⟨solid,inner (by omega)⟩
  | lone left ih =>
    cases h with
    | zero => exact shaped.elim
    | succ h =>
      obtain ⟨one,first⟩ := shaped
      refine ⟨(ih first (below real)).1,?_⟩
      intro more
      have next := below more
      omega

/-- The loop that looks for the height: one level more while a level has more
    than one node. -/
def growHeight (n : Nat) : Nat → Nat → Nat
  | 0, h => h
  | fuel + 1, h => if 1 < width n h then growHeight n fuel (h + 1) else h

def treeHeight (n : Nat) : Nat := growHeight n n 0

theorem height_of_width {n h : Nat} (one : width n h ≤ 1) (more : ∀ k < h, 1 < width n k) :
    Height n h := by
  constructor
  · have past := lt_width.not.mp (Nat.not_lt.mpr one)
    omega
  · intro k lower
    have two := lt_width.mp (more k lower)
    omega

theorem growHeight_height {n fuel h : Nat} (more : ∀ k < h, 1 < width n k)
    (fuelled : n ≤ fuel + h) : Height n (growHeight n fuel h) := by
  induction fuel generalizing h with
  | zero =>
    have small := Nat.lt_two_pow_self (n := h)
    have narrow : ¬ 1 < width n h := by
      rw [lt_width]
      omega
    exact height_of_width (Nat.not_lt.mp narrow) more
  | succ fuel ih =>
    rw [growHeight]
    split
    · rename_i wide
      apply ih
      · intro k lower
        rcases Nat.lt_succ_iff_lt_or_eq.mp lower with lower | rfl
        · exact more k lower
        · exact wide
      · omega
    · rename_i narrow
      exact height_of_width (by omega) more

theorem treeHeight_height (n : Nat) : Height n (treeHeight n) :=
  growHeight_height (fun k lower => absurd lower (Nat.not_lt_zero k)) (by omega)

section Builder

variable (combine : H → H → H) (txs : List (H × Bool))

/-- The transactions below the node at `p`, each with whether it is matched. -/
def span (h p : Nat) : List (H × Bool) := (txs.drop (p * 2 ^ h)).take (2 ^ h)

def parentOfMatch (h p : Nat) : Bool := (span txs h p).any Prod.snd

def calcHash (h p : Nat) : Option H := (level combine h (txs.map Prod.fst))[p]?

def traverseAndBuild : Nat → Nat → List Bool × List H
  | 0, p => ([parentOfMatch txs 0 p], (calcHash combine txs 0 p).toList)
  | h + 1, p =>
    if parentOfMatch txs (h + 1) p then
      let left := traverseAndBuild h (2 * p)
      if 2 * p + 1 < width txs.length h then
        let right := traverseAndBuild h (2 * p + 1)
        (true :: (left.1 ++ right.1), left.2 ++ right.2)
      else (true :: left.1, left.2)
    else ([false], (calcHash combine txs (h + 1) p).toList)

/-- The flag bits and the hashes of a whole block. -/
def build : List Bool × List H := traverseAndBuild combine txs (treeHeight txs.length) 0

/-- The matched hashes, in order. -/
def matchedIn (txs : List (H × Bool)) : List H := (txs.filter Prod.snd).map Prod.fst

end Builder

theorem span_split (txs : List (H × Bool)) (h p : Nat) :
    span txs (h + 1) p = span txs h (2 * p) ++ span txs h (2 * p + 1) := by
  have start : p * 2 ^ (h + 1) = 2 * p * 2 ^ h := by rw [Nat.pow_succ]; ring
  have next : 2 * p * 2 ^ h + 2 ^ h = (2 * p + 1) * 2 ^ h := by ring
  have size : 2 ^ (h + 1) = 2 ^ h + 2 ^ h := by rw [Nat.pow_succ]; omega
  simp only [span]
  rw [start, size, List.take_add, List.drop_drop, next]

theorem span_past {txs : List (H × Bool)} {h p : Nat} (past : ¬ p < width txs.length h) :
    span txs h p = [] := by
  rw [lt_width] at past
  rw [span, List.drop_of_length_le (Nat.not_lt.mp past), List.take_nil]

theorem span_leaf {txs : List (H × Bool)} {p : Nat} (inside : p < txs.length) :
    span txs 0 p = [txs[p]] := by
  rw [span, Nat.pow_zero, Nat.mul_one, List.take_one, List.head?_drop,
    List.getElem?_eq_getElem inside]
  rfl

/-- The builder writes out a partial tree of the block, of the shape BIP 37
    gives it, and flags the matched transactions in it. -/
structure Built (combine : H → H → H) (txs : List (H × Bool)) (h p : Nat)
    (tree : PartialTree H) : Prop where
  fits : tree.Fits h
  shaped : Shaped txs.length h p tree
  written : traverseAndBuild combine txs h p = (tree.bits, tree.hashes)
  node : calcHash combine txs h p = some (tree.root combine)
  matched : tree.matched = matchedIn (span txs h p)

theorem calcHash_some (combine : H → H → H) {txs : List (H × Bool)} {h p : Nat}
    (real : p < width txs.length h) : ∃ hash, calcHash combine txs h p = some hash := by
  have inside : p < (level combine h (txs.map Prod.fst)).length := by
    rwa [level_length, List.length_map]
  exact ⟨_,List.getElem?_eq_getElem inside⟩

theorem calcHash_succ {combine : H → H → H} {txs : List (H × Bool)} {h p : Nat}
    (real : p < width txs.length (h + 1)) {left right : H}
    (first : calcHash combine txs h (2 * p) = some left)
    (second : calcHash combine txs h (rightOf txs.length h p) = some right) :
    calcHash combine txs (h + 1) p = some (combine left right) := by
  obtain ⟨hash,found⟩ := calcHash_some combine real
  obtain ⟨l,r,first',second',_,rfl⟩ := level_succ found
  rw [List.length_map] at second'
  have one : l = left := Option.some.inj (first'.symm.trans first)
  have two : r = right := Option.some.inj (second'.symm.trans second)
  rw [found, one, two]

theorem build_tree (combine : H → H → H) (txs : List (H × Bool)) {h p : Nat}
    (real : p < width txs.length h) : ∃ tree, Built combine txs h p tree := by
  induction h generalizing p with
  | zero =>
    rw [width_zero] at real
    have leaf := span_leaf real
    have hash : calcHash combine txs 0 p = some txs[p].1 := by
      rw [calcHash, level, List.getElem?_map, List.getElem?_eq_getElem real]
      rfl
    refine ⟨.given txs[p].2 txs[p].1,trivial,trivial,?_,hash,?_⟩
    · rw [traverseAndBuild, parentOfMatch, leaf, hash]
      simp [PartialTree.bits, PartialTree.hashes]
    · rw [leaf, matchedIn, PartialTree.matched]
      cases flag : txs[p].2 <;> simp [flag]
  | succ h ih =>
    by_cases parent : parentOfMatch txs (h + 1) p = true
    · obtain ⟨left,first⟩ := ih (below real)
      by_cases two : 2 * p + 1 < width txs.length h
      · obtain ⟨right,second⟩ := ih two
        have rightmost : rightOf txs.length h p = 2 * p + 1 := if_pos two
        refine ⟨.fork left right,⟨first.fits,second.fits⟩,⟨two,first.shaped,second.shaped⟩,?_,
          calcHash_succ real first.node (by rw [rightmost, second.node]),?_⟩
        · rw [traverseAndBuild, if_pos parent, if_pos two, first.written, second.written]
          rfl
        · rw [PartialTree.matched, first.matched, second.matched, span_split]
          simp [matchedIn]
      · have rightmost : rightOf txs.length h p = 2 * p := if_neg two
        refine ⟨.lone left,first.fits,⟨two,first.shaped⟩,?_,
          calcHash_succ real first.node (by rw [rightmost, first.node]),?_⟩
        · rw [traverseAndBuild, if_pos parent, if_neg two, first.written]
          rfl
        · rw [PartialTree.matched, first.matched, span_split, span_past two, List.append_nil]
    · obtain ⟨hash,found⟩ := calcHash_some combine real
      have none : matchedIn (span txs (h + 1) p) = [] := by
        have unmatched : ∀ tx ∈ span txs (h + 1) p, ¬ tx.2 = true := by
          simpa [parentOfMatch] using parent
        rw [matchedIn, List.filter_eq_nil_iff.mpr unmatched, List.map_nil]
      refine ⟨.given false hash,rfl,trivial,?_,found,?_⟩
      · rw [traverseAndBuild, if_neg parent, found]
        rfl
      · rw [none]
        rfl

section Verifier

/-- What a verifier holds after a node: its hash, the matches below it, and the
    flag bits and hashes still to be read. -/
structure Extract (H : Type) where
  root : H
  matched : List H
  bits : List Bool
  hashes : List H

variable [DecidableEq H] (combine : H → H → H) (n : Nat)

def traverseAndExtract : Nat → Nat → List Bool → List H → Option (Extract H)
  | _, _, [], _ => none
  | 0, _, _ :: _, [] => none
  | 0, _, flag :: bits, hash :: hashes =>
    some { root := hash, matched := if flag then [hash] else [], bits, hashes }
  | _ + 1, _, false :: _, [] => none
  | _ + 1, _, false :: bits, hash :: hashes => some { root := hash, matched := [], bits, hashes }
  | h + 1, p, true :: bits, hashes => do
    let left ← traverseAndExtract h (2 * p) bits hashes
    if 2 * p + 1 < width n h then do
      let right ← traverseAndExtract h (2 * p + 1) left.bits left.hashes
      if right.root = left.root then none
      else some { right with root := combine left.root right.root,
                             matched := left.matched ++ right.matched }
    else some { left with root := combine left.root left.root }

/-- The walk from the root of a block of `n` transactions. -/
def extract (bits : List Bool) (hashes : List H) : Option (Extract H) :=
  traverseAndExtract combine n (treeHeight n) 0 bits hashes

end Verifier

/-- No node with two children in the partial tree gave them one hash. -/
def RootsDiffer (combine : H → H → H) : PartialTree H → Prop
  | .given _ _ => True
  | .fork left right => right.root combine ≠ left.root combine ∧
      RootsDiffer combine left ∧ RootsDiffer combine right
  | .lone left => RootsDiffer combine left

section Verified

variable [DecidableEq H] {combine : H → H → H} {n h p : Nat}

theorem extract_spelled {tree : PartialTree H} (fits : tree.Fits h) (shaped : Shaped n h p tree)
    (differ : RootsDiffer combine tree) (rest : List Bool) (spare : List H) :
    traverseAndExtract combine n h p (tree.bits ++ rest) (tree.hashes ++ spare) =
      some { root := tree.root combine, matched := tree.matched, bits := rest, hashes := spare } := by
  induction tree generalizing h p rest spare with
  | given flag hash =>
    cases h with
    | zero => rfl
    | succ h => rw [show flag = false from fits]; rfl
  | fork left right ihl ihr =>
    cases h with
    | zero => exact shaped.elim
    | succ h =>
      obtain ⟨two,first,second⟩ := shaped
      obtain ⟨apart,inLeft,inRight⟩ := differ
      rw [PartialTree.bits, PartialTree.hashes, List.cons_append, List.append_assoc,
        List.append_assoc, traverseAndExtract, ihl fits.1 first inLeft, Option.bind_eq_bind,
        Option.bind_some, if_pos two, ihr fits.2 second inRight, Option.bind_some, if_neg apart]
      rfl
  | lone left ih =>
    cases h with
    | zero => exact shaped.elim
    | succ h =>
      rw [PartialTree.bits, PartialTree.hashes, List.cons_append, traverseAndExtract,
        ih fits shaped.2 differ, Option.bind_eq_bind, Option.bind_some, if_neg shaped.1]
      rfl

/-- The tree a verifier has gone through when it holds `e`. -/
structure Verified (combine : H → H → H) (n h p : Nat) (bits : List Bool) (hashes : List H)
    (e : Extract H) (tree : PartialTree H) : Prop where
  fits : tree.Fits h
  shaped : Shaped n h p tree
  differ : RootsDiffer combine tree
  bits_eq : bits = tree.bits ++ e.bits
  hashes_eq : hashes = tree.hashes ++ e.hashes
  root_eq : e.root = tree.root combine
  matched_eq : e.matched = tree.matched

theorem extract_tree {bits : List Bool} {hashes : List H} {e : Extract H}
    (run : traverseAndExtract combine n h p bits hashes = some e) :
    ∃ tree, Verified combine n h p bits hashes e tree := by
  induction h generalizing p bits hashes e with
  | zero =>
    cases bits with
    | nil => cases run
    | cons flag bits =>
      cases hashes with
      | nil => cases run
      | cons hash hashes =>
        cases run
        exact ⟨.given flag hash,trivial,trivial,trivial,rfl,rfl,rfl,rfl⟩
  | succ h ih =>
    cases bits with
    | nil => cases run
    | cons flag bits =>
      cases flag with
      | false =>
        cases hashes with
        | nil => cases run
        | cons hash hashes =>
          cases run
          exact ⟨.given false hash,rfl,trivial,trivial,rfl,rfl,rfl,rfl⟩
      | true =>
        rw [traverseAndExtract] at run
        obtain ⟨l,first,run⟩ := Option.bind_eq_some_iff.mp run
        obtain ⟨left,inLeft⟩ := ih first
        split at run
        · rename_i two
          obtain ⟨r,second,run⟩ := Option.bind_eq_some_iff.mp run
          obtain ⟨right,inRight⟩ := ih second
          split at run
          · cases run
          · rename_i apart
            cases run
            rw [inLeft.root_eq, inRight.root_eq] at apart
            refine ⟨.fork left right,⟨inLeft.fits,inRight.fits⟩,
              ⟨two,inLeft.shaped,inRight.shaped⟩,⟨apart,inLeft.differ,inRight.differ⟩,?_,?_,?_,?_⟩
            · rw [inLeft.bits_eq, inRight.bits_eq]
              simp [PartialTree.bits]
            · rw [inLeft.hashes_eq, inRight.hashes_eq]
              simp [PartialTree.hashes]
            · rw [inLeft.root_eq, inRight.root_eq]
              rfl
            · rw [inLeft.matched_eq, inRight.matched_eq]
              rfl
        · rename_i one
          cases run
          exact ⟨.lone left,inLeft.fits,⟨one,inLeft.shaped⟩,inLeft.differ,
            congrArg (true :: ·) inLeft.bits_eq,inLeft.hashes_eq,
            congrArg (fun root => combine root root) inLeft.root_eq,inLeft.matched_eq⟩

end Verified

/-- The leaf positions at which a reader of this partial tree takes a hash, when
    the tree is the node at `p` of level `h`. -/
def positions : Nat → Nat → PartialTree H → List Nat
  | h, p, .given _ _ => [p * 2 ^ h]
  | 0, _, _ => []
  | h + 1, p, .fork left right => positions h (2 * p) left ++ positions h (2 * p + 1) right
  | h + 1, p, .lone left => positions h (2 * p) left

/-- No real right child has the hash of its left sibling. A reader that misses a
    real right child gives it that very hash. -/
def SiblingsDiffer (combine : H → H → H) (n : Nat) : Nat → Nat → PartialTree H → Prop
  | _, _, .given _ _ => True
  | 0, _, _ => True
  | h + 1, p, .fork left right =>
    (2 * p + 1 < width n h → right.root combine ≠ left.root combine) ∧
      SiblingsDiffer combine n h (2 * p) left ∧ SiblingsDiffer combine n h (2 * p + 1) right
  | h + 1, p, .lone left =>
    (2 * p + 1 < width n h → left.root combine ≠ left.root combine) ∧
      SiblingsDiffer combine n h (2 * p) left

theorem first_position {h p : Nat} {tree : PartialTree H} (fits : tree.Fits h) :
    p * 2 ^ h ∈ positions h p tree := by
  have start : ∀ k q : Nat, q * 2 ^ (k + 1) = 2 * q * 2 ^ k := by
    intro k q
    rw [Nat.pow_succ]
    ring
  induction tree generalizing h p with
  | given flag hash => cases h <;> exact List.mem_singleton.mpr rfl
  | fork left right ih _ =>
    cases h with
    | zero => exact fits.elim
    | succ h =>
      rw [start]
      exact List.mem_append_left _ (ih fits.1)
  | lone left ih =>
    cases h with
    | zero => exact fits.elim
    | succ h =>
      rw [start]
      exact ih fits

/-- The two demands on a partial tree come to BIP 37's shape with all pairs of
    children apart. -/
theorem shaped_iff {combine : H → H → H} {n h p : Nat} {tree : PartialTree H}
    (fits : tree.Fits h) (real : p < width n h) :
    Shaped n h p tree ∧ RootsDiffer combine tree ↔
      (∀ q ∈ positions h p tree, q < n) ∧ SiblingsDiffer combine n h p tree := by
  induction tree generalizing h p with
  | given flag hash =>
    have place : positions h p (.given flag hash) = [p * 2 ^ h] := by cases h <;> rfl
    have inside := lt_width.mp real
    constructor
    · intro _
      refine ⟨?_,by cases h <;> trivial⟩
      intro q mem
      rw [place, List.mem_singleton] at mem
      rw [mem]
      exact inside
    · intro _
      exact ⟨by cases h <;> trivial,trivial⟩
  | fork left right ihl ihr =>
    cases h with
    | zero => exact fits.elim
    | succ h =>
      have left_iff := ihl fits.1 (below real)
      constructor
      · rintro ⟨⟨two,first,second⟩,apart,inLeft,inRight⟩
        obtain ⟨leftInside,leftDiffer⟩ := left_iff.mp ⟨first,inLeft⟩
        obtain ⟨rightInside,rightDiffer⟩ := (ihr fits.2 two).mp ⟨second,inRight⟩
        refine ⟨?_,fun _ => apart,leftDiffer,rightDiffer⟩
        intro q mem
        rcases List.mem_append.mp mem with mem | mem
        · exact leftInside q mem
        · exact rightInside q mem
      · rintro ⟨inside,apart,leftDiffer,rightDiffer⟩
        have two : 2 * p + 1 < width n h :=
          lt_width.mpr (inside _ (List.mem_append_right _ (first_position fits.2)))
        obtain ⟨first,inLeft⟩ := left_iff.mpr
          ⟨fun q mem => inside q (List.mem_append_left _ mem),leftDiffer⟩
        obtain ⟨second,inRight⟩ := (ihr fits.2 two).mpr
          ⟨fun q mem => inside q (List.mem_append_right _ mem),rightDiffer⟩
        exact ⟨⟨two,first,second⟩,apart two,inLeft,inRight⟩
  | lone left ih =>
    cases h with
    | zero => exact fits.elim
    | succ h =>
      have left_iff := ih fits (below real)
      constructor
      · rintro ⟨⟨one,first⟩,inLeft⟩
        obtain ⟨inside,differ⟩ := left_iff.mp ⟨first,inLeft⟩
        exact ⟨inside,fun two => absurd two one,differ⟩
      · rintro ⟨inside,apart,differ⟩
        obtain ⟨first,inLeft⟩ := left_iff.mpr ⟨inside,differ⟩
        exact ⟨⟨fun two => apart two rfl,first⟩,inLeft⟩

end Bip37
