import Mathlib.Data.List.Basic
import Mathlib.Tactic.Ring

/-!
Merkle trees whose odd levels pair their last node with itself, and partial
trees of them, spelled as flag bits and hashes. The reader here does not know
how wide a level is: a right child is missing when nothing is left to read.
-/
namespace MerkleTree

variable {H : Type}

/-- The nodes of one level, two at a time; an odd last one goes with itself. -/
def siblings : List H → List (H × H)
  | [] => []
  | [x] => [(x, x)]
  | x :: y :: rest => (x, y) :: siblings rest

section Levels

variable (combine : H → H → H)

def pairUp (nodes : List H) : List H := (siblings nodes).map (fun pair => combine pair.1 pair.2)

/-- Level 0 is the leaves. -/
def level : Nat → List H → List H
  | 0, leaves => leaves
  | h + 1, leaves => pairUp combine (level h leaves)

/-- One level above another, until a single node is left. -/
def climb : Nat → List H → Option H
  | 0, nodes => nodes.head?
  | fuel + 1, nodes => if nodes.length ≤ 1 then nodes.head? else climb fuel (pairUp combine nodes)

/-- No tree is higher than it has leaves. -/
def merkleRoot (leaves : List H) : Option H := climb combine leaves.length leaves

/-- All pairs that are hashed on the way up to level `h`. -/
def hashedPairs : Nat → List H → List (H × H)
  | 0, _ => []
  | h + 1, leaves => hashedPairs h leaves ++ siblings (level combine h leaves)

end Levels

/-- The nodes of level `h` above `n` leaves. -/
def width (n h : Nat) : Nat := (n + 2 ^ h - 1) / 2 ^ h

/-- The right child, on level `h`, of the node at `p` above it, or the left one
    where the level ends. -/
def rightOf (n h p : Nat) : Nat := if 2 * p + 1 < width n h then 2 * p + 1 else 2 * p

/-- `h` levels are enough for `n` leaves, and no fewer are. -/
structure Height (n h : Nat) : Prop where
  enough : n ≤ 2 ^ h
  least : ∀ k < h, 2 ^ k < n

theorem Height.unique {n h k : Nat} (high : Height n h) (high' : Height n k) : h = k := by
  rcases Nat.lt_trichotomy h k with lower | same | lower
  · have := high.enough
    have := high'.least h lower
    omega
  · exact same
  · have := high'.enough
    have := high.least k lower
    omega

theorem siblings_length (nodes : List H) : (siblings nodes).length = (nodes.length + 1) / 2 := by
  induction nodes using siblings.induct with
  | case1 => simp [siblings]
  | case2 x => simp [siblings]
  | case3 x y rest ih =>
    simp only [siblings, List.length_cons, ih]
    omega

theorem siblings_get (nodes : List H) (p : Nat) :
    (siblings nodes)[p]? =
      nodes[2 * p]?.map (fun left => (left, nodes[2 * p + 1]?.getD left)) := by
  induction nodes using siblings.induct generalizing p with
  | case1 => rfl
  | case2 x =>
    cases p with
    | zero => rfl
    | succ p => simp [siblings]
  | case3 x y rest ih =>
    cases p with
    | zero => rfl
    | succ p =>
      have twice : 2 * (p + 1) = 2 * p + 1 + 1 := by omega
      rw [twice]
      simp only [siblings, List.getElem?_cons_succ, ih]

theorem width_zero (n : Nat) : width n 0 = n := by
  simp [width]

theorem lt_width {n h p : Nat} : p < width n h ↔ p * 2 ^ h < n := by
  have positive : 0 < 2 ^ h := Nat.two_pow_pos h
  rw [width, Nat.lt_iff_add_one_le, Nat.le_div_iff_mul_le positive, Nat.add_mul]
  omega

theorem width_succ (n h : Nat) : width n (h + 1) = (width n h + 1) / 2 := by
  have same : ∀ p, p < width n (h + 1) ↔ p < (width n h + 1) / 2 := by
    intro p
    have half : p < (width n h + 1) / 2 ↔ 2 * p < width n h := by omega
    have scale : p * (2 ^ h * 2) = 2 * p * 2 ^ h := by ring
    rw [half, lt_width, lt_width, Nat.pow_succ, scale]
  have le := (same (width n (h + 1))).not.mp (Nat.lt_irrefl _)
  have ge := (same ((width n h + 1) / 2)).not.mpr (Nat.lt_irrefl _)
  omega

section Levels

variable {combine : H → H → H}

theorem level_length (h : Nat) (leaves : List H) :
    (level combine h leaves).length = width leaves.length h := by
  induction h with
  | zero => rw [level, width_zero]
  | succ h ih => rw [level, pairUp, List.length_map, siblings_length, ih, width_succ]

theorem level_below (h : Nat) (leaves : List H) :
    level combine (h + 1) leaves = level combine h (pairUp combine leaves) := by
  induction h with
  | zero => rfl
  | succ h ih => rw [level, ih, level]

theorem level_succ {h p : Nat} {leaves : List H} {node : H}
    (found : (level combine (h + 1) leaves)[p]? = some node) :
    ∃ left right, (level combine h leaves)[2 * p]? = some left ∧
      (level combine h leaves)[rightOf leaves.length h p]? = some right ∧
      (left, right) ∈ siblings (level combine h leaves) ∧ node = combine left right := by
  rw [level, pairUp, List.getElem?_map] at found
  cases pair : (siblings (level combine h leaves))[p]? with
  | none => rw [pair] at found; cases found
  | some children =>
    have inside := List.mem_of_getElem? pair
    rw [pair] at found
    cases found
    rw [siblings_get] at pair
    cases first : (level combine h leaves)[2 * p]? with
    | none => rw [first] at pair; cases pair
    | some left =>
      rw [first] at pair
      cases pair
      refine ⟨left,_,rfl,?_,inside,rfl⟩
      have length : (level combine h leaves).length = width leaves.length h := level_length h leaves
      unfold rightOf
      split
      · rename_i real
        rw [← length] at real
        rw [List.getElem?_eq_getElem real, Option.getD_some]
      · rename_i missing
        rw [← length] at missing
        rw [List.getElem?_eq_none (Nat.not_lt.mp missing), Option.getD_none, first]

theorem climb_level {fuel h : Nat} (nodes : List H) (high : Height nodes.length h)
    (fuelled : h ≤ fuel) : climb combine fuel nodes = (level combine h nodes).head? := by
  induction h generalizing fuel nodes with
  | zero =>
    have few : nodes.length ≤ 1 := high.enough
    cases fuel with
    | zero => rfl
    | succ fuel => rw [climb, if_pos few, level]
  | succ h ih =>
    obtain ⟨fuel,rfl⟩ : ∃ k, fuel = k + 1 := ⟨fuel - 1, by omega⟩
    have many : 1 < nodes.length := high.least 0 (by omega)
    have above : Height (pairUp combine nodes).length h := by
      have enough := high.enough
      rw [Nat.pow_succ] at enough
      rw [pairUp, List.length_map, siblings_length]
      constructor
      · omega
      · intro k lower
        have least := high.least (k + 1) (by omega)
        rw [Nat.pow_succ] at least
        omega
    rw [climb, if_neg (by omega), ih _ above (by omega), level_below]

theorem merkleRoot_eq {h : Nat} (leaves : List H) (high : Height leaves.length h) :
    merkleRoot combine leaves = (level combine h leaves)[0]? := by
  have fuelled : h ≤ leaves.length := by
    cases h with
    | zero => omega
    | succ h =>
      have least := high.least h (by omega)
      have small := Nat.lt_two_pow_self (n := h)
      omega
  rw [merkleRoot, climb_level leaves high fuelled, List.head?_eq_getElem?]

end Levels

/-- A partial tree: a hash handed over as it is, with its flag; a node with both
    children; a node whose only child stands for both. -/
inductive PartialTree (H : Type) where
  | given : Bool → H → PartialTree H
  | fork : PartialTree H → PartialTree H → PartialTree H
  | lone : PartialTree H → PartialTree H
  deriving DecidableEq

namespace PartialTree

def bits : PartialTree H → List Bool
  | given flag _ => [flag]
  | fork left right => true :: (left.bits ++ right.bits)
  | lone left => true :: left.bits

def hashes : PartialTree H → List H
  | given _ hash => [hash]
  | fork left right => left.hashes ++ right.hashes
  | lone left => left.hashes

def matched : PartialTree H → List H
  | given flag hash => if flag then [hash] else []
  | fork left right => left.matched ++ right.matched
  | lone left => left.matched

def root (combine : H → H → H) : PartialTree H → H
  | given _ hash => hash
  | fork left right => combine (left.root combine) (right.root combine)
  | lone left => combine (left.root combine) (left.root combine)

def pairs (combine : H → H → H) : PartialTree H → List (H × H)
  | given _ _ => []
  | fork left right =>
    (left.root combine, right.root combine) :: (left.pairs combine ++ right.pairs combine)
  | lone left => (left.root combine, left.root combine) :: left.pairs combine

/-- Only leaves, at height 0, are handed over with their flag set. -/
def Fits : Nat → PartialTree H → Prop
  | 0, given _ _ => True
  | 0, _ => False
  | _ + 1, given flag _ => flag = false
  | h + 1, fork left right => left.Fits h ∧ right.Fits h
  | h + 1, lone left => left.Fits h

def Solid : PartialTree H → Prop
  | given _ _ => True
  | fork left right => left.Solid ∧ right.Solid
  | lone _ => False

/-- Right children are missing along the right edge alone. -/
def Ragged : PartialTree H → Prop
  | given _ _ => True
  | fork left right => left.Solid ∧ right.Ragged
  | lone left => left.Ragged

theorem bits_some (tree : PartialTree H) : ∃ flag rest, tree.bits = flag :: rest := by
  cases tree with
  | given flag hash => exact ⟨flag,[],rfl⟩
  | fork left right => exact ⟨true,_,rfl⟩
  | lone left => exact ⟨true,_,rfl⟩

theorem hashes_some (tree : PartialTree H) : ∃ hash rest, tree.hashes = hash :: rest := by
  induction tree with
  | given flag hash => exact ⟨hash,[],rfl⟩
  | fork left right ih _ =>
    obtain ⟨hash,rest,same⟩ := ih
    exact ⟨hash,rest ++ right.hashes,by rw [hashes, same]; rfl⟩
  | lone left ih => exact ih

theorem Solid.ragged {tree : PartialTree H} (solid : tree.Solid) : tree.Ragged := by
  induction tree with
  | given flag hash => trivial
  | fork left right _ ih => exact ⟨solid.1,ih solid.2⟩
  | lone left ih => exact solid.elim

end PartialTree

/-- What a reader makes of flag bits and hashes: nothing to read, a node whose
    left child is missing, or a tree and what is left over. -/
inductive Outcome (H : Type) where
  | dry : Outcome H
  | cut : Outcome H
  | read : PartialTree H → List Bool → List H → Outcome H
  deriving DecidableEq

def walk : Nat → List Bool → List H → Outcome H
  | _, [], _ => .dry
  | _, _ :: _, [] => .dry
  | 0, flag :: bits, hash :: hashes => .read (.given flag hash) bits hashes
  | _ + 1, false :: bits, hash :: hashes => .read (.given false hash) bits hashes
  | h + 1, true :: bits, hash :: hashes =>
    match walk h bits (hash :: hashes) with
    | .read left bits hashes =>
      match walk h bits hashes with
      | .read right bits hashes => .read (.fork left right) bits hashes
      | .dry => .read (.lone left) bits hashes
      | .cut => .cut
    | .dry => .cut
    | .cut => .cut

theorem walk_dry {h : Nat} {bits : List Bool} {hashes : List H} :
    walk h bits hashes = .dry ↔ bits = [] ∨ hashes = [] := by
  constructor
  · intro run
    cases bits with
    | nil => exact Or.inl rfl
    | cons flag bits =>
      cases hashes with
      | nil => exact Or.inr rfl
      | cons hash hashes =>
        cases h with
        | zero => cases run
        | succ h =>
          cases flag with
          | false => cases run
          | true =>
            rw [walk] at run
            split at run
            · split at run <;> cases run
            · cases run
            · cases run
  · rintro (rfl | rfl)
    · cases h <;> rfl
    · cases bits <;> cases h <;> rfl

/-- A node that is opened: its left child comes first. -/
theorem walk_open {h : Nat} {bits : List Bool} {hashes : List H} (some : hashes ≠ []) :
    walk (h + 1) (true :: bits) hashes =
      match walk h bits hashes with
      | .read left bits hashes =>
        match walk h bits hashes with
        | .read right bits hashes => .read (.fork left right) bits hashes
        | .dry => .read (.lone left) bits hashes
        | .cut => .cut
      | .dry => .cut
      | .cut => .cut := by
  obtain ⟨hash,rest,rfl⟩ := List.exists_cons_of_ne_nil some
  rfl

/-- `tree` spelled out in front of the bits and hashes that are left over. A
    right child is missing only where nothing is left to read. -/
structure Spelling (h : Nat) (tree : PartialTree H) (bits rest : List Bool)
    (hashes spare : List H) : Prop where
  fits : tree.Fits h
  ragged : tree.Ragged
  whole : tree.Solid ∨ rest = [] ∨ spare = []
  bits_eq : bits = tree.bits ++ rest
  hashes_eq : hashes = tree.hashes ++ spare

theorem Spelling.fork {h : Nat} {left right : PartialTree H} {bits mid rest : List Bool}
    {hashes more spare : List H} (first : Spelling h left bits mid hashes more)
    (second : Spelling h right mid rest more spare) :
    Spelling (h + 1) (.fork left right) (true :: bits) rest hashes spare where
  fits := ⟨first.fits,second.fits⟩
  ragged := by
    obtain ⟨flag,tail,some⟩ := right.bits_some
    obtain ⟨hash,tail',some'⟩ := right.hashes_some
    rcases first.whole with solid | dry | dry
    · exact ⟨solid,second.ragged⟩
    · rw [second.bits_eq, some] at dry
      cases dry
    · rw [second.hashes_eq, some'] at dry
      cases dry
  whole := by
    obtain ⟨flag,tail,some⟩ := right.bits_some
    obtain ⟨hash,tail',some'⟩ := right.hashes_some
    rcases second.whole with solid | dry
    · rcases first.whole with solid' | dry | dry
      · exact Or.inl ⟨solid',solid⟩
      · rw [second.bits_eq, some] at dry
        cases dry
      · rw [second.hashes_eq, some'] at dry
        cases dry
    · exact Or.inr dry
  bits_eq := by rw [first.bits_eq, second.bits_eq]; simp [PartialTree.bits]
  hashes_eq := by rw [first.hashes_eq, second.hashes_eq]; simp [PartialTree.hashes]

theorem walk_read {h : Nat} {tree : PartialTree H} {bits rest : List Bool}
    {hashes spare : List H} (run : walk h bits hashes = .read tree rest spare) :
    Spelling h tree bits rest hashes spare := by
  induction h generalizing tree bits hashes rest spare with
  | zero =>
    cases bits with
    | nil => cases run
    | cons flag bits =>
      cases hashes with
      | nil => cases run
      | cons hash hashes =>
        cases run
        exact ⟨trivial,trivial,Or.inl trivial,rfl,rfl⟩
  | succ h ih =>
    cases bits with
    | nil => cases run
    | cons flag bits =>
      cases hashes with
      | nil => cases run
      | cons hash hashes =>
        cases flag with
        | false =>
          cases run
          exact ⟨rfl,trivial,Or.inl trivial,rfl,rfl⟩
        | true =>
          rw [walk] at run
          split at run
          · rename_i left mid more first
            have here := ih first
            split at run
            · rename_i right last spare' second
              cases run
              exact here.fork (ih second)
            · rename_i second
              cases run
              exact ⟨here.fits,here.ragged,Or.inr (walk_dry.mp second),
                congrArg (true :: ·) here.bits_eq,here.hashes_eq⟩
            · cases run
          · cases run
          · cases run

theorem Spelling.walk {h : Nat} {tree : PartialTree H} {bits rest : List Bool}
    {hashes spare : List H} (spelled : Spelling h tree bits rest hashes spare) :
    walk h bits hashes = .read tree rest spare := by
  obtain ⟨fits,ragged,whole,rfl,rfl⟩ := spelled
  induction tree generalizing h rest spare with
  | given flag hash =>
    cases h with
    | zero => rfl
    | succ h => rw [show flag = false from fits]; rfl
  | fork left right ihl ihr =>
    cases h with
    | zero => exact fits.elim
    | succ h =>
      obtain ⟨hash,tail,some⟩ := left.hashes_some
      have more : left.hashes ++ right.hashes ++ spare ≠ [] := by simp [some]
      have first : MerkleTree.walk h (left.bits ++ (right.bits ++ rest))
          (left.hashes ++ (right.hashes ++ spare)) =
            .read left (right.bits ++ rest) (right.hashes ++ spare) :=
        ihl fits.1 ragged.1.ragged (Or.inl ragged.1)
      have second : MerkleTree.walk h (right.bits ++ rest) (right.hashes ++ spare) =
          .read right rest spare :=
        ihr fits.2 ragged.2 (whole.imp_left (fun solid => solid.2))
      rw [PartialTree.bits, PartialTree.hashes, List.cons_append, walk_open more,
        List.append_assoc, List.append_assoc, first]
      simp only [second]
  | lone left ih =>
    cases h with
    | zero => exact fits.elim
    | succ h =>
      have dry : rest = [] ∨ spare = [] := whole.resolve_left (fun solid => solid)
      obtain ⟨hash,tail,some⟩ := left.hashes_some
      have more : left.hashes ++ spare ≠ [] := by simp [some]
      have first := ih (h := h) fits ragged (Or.inr dry)
      rw [PartialTree.bits, PartialTree.hashes, List.cons_append, walk_open more, first]
      simp only [walk_dry.mpr dry]

/-- A walk over the flag bits alone, with the heights of the nodes still to come:
    is the last bit there is one that opens a node? `count` hashes can be taken. -/
def opensAtEnd : List Nat → Bool → List Bool → Nat → Bool
  | _, opened, [], _ => opened
  | _, opened, _ :: _, 0 => opened
  | [], _, _ :: _, _ + 1 => false
  | 0 :: pending, _, _ :: bits, count + 1 => opensAtEnd pending false bits count
  | (_ + 1) :: pending, _, false :: bits, count + 1 => opensAtEnd pending false bits count
  | (h + 1) :: pending, _, true :: bits, count + 1 =>
    opensAtEnd (h :: h :: pending) true bits (count + 1)

theorem opensAtEnd_dry {pending : List Nat} {opened : Bool} {bits : List Bool} {count : Nat}
    (dry : bits = [] ∨ count = 0) : opensAtEnd pending opened bits count = opened := by
  rcases dry with rfl | rfl
  · unfold opensAtEnd; rfl
  · cases bits <;> (unfold opensAtEnd; rfl)

/-- The walk and the reader keep step: what the walk answers of a node and those
    after it is what the reader made of that node. -/
theorem opensAtEnd_cons (h : Nat) (pending : List Nat) (opened : Bool) (bits : List Bool)
    (hashes : List H) :
    opensAtEnd (h :: pending) opened bits hashes.length =
      match walk h bits hashes with
      | .dry => opened
      | .cut => true
      | .read _ rest spare => opensAtEnd pending false rest spare.length := by
  induction h generalizing pending opened bits hashes with
  | zero =>
    cases bits with
    | nil => exact opensAtEnd_dry (Or.inl rfl)
    | cons flag bits =>
      cases hashes with
      | nil => exact opensAtEnd_dry (Or.inr rfl)
      | cons hash hashes => rfl
  | succ h ih =>
    cases bits with
    | nil => exact opensAtEnd_dry (Or.inl rfl)
    | cons flag bits =>
      cases hashes with
      | nil => exact opensAtEnd_dry (Or.inr rfl)
      | cons hash hashes =>
        cases flag with
        | false => rfl
        | true =>
          have left := ih (h :: pending) true bits (hash :: hashes)
          rw [walk, List.length_cons, opensAtEnd]
          rw [List.length_cons] at left
          rw [left]
          cases first : walk h bits (hash :: hashes) with
          | dry => rfl
          | cut => rfl
          | read tree rest spare =>
            have right := ih pending false rest spare
            cases second : walk h rest spare with
            | dry =>
              have dry : rest = [] ∨ spare.length = 0 :=
                (walk_dry.mp second).imp_right List.length_eq_zero_iff.mpr
              simp only [second]
              rw [opensAtEnd_dry dry, opensAtEnd_dry dry]
            | cut => simp only [right, second]
            | read tree' rest' spare' => simp only [right, second]

theorem walk_cut {h : Nat} {bits : List Bool} {hashes : List H} :
    walk h bits hashes = .cut ↔ opensAtEnd [h] false bits hashes.length = true := by
  have done : ∀ (rest : List Bool) (count : Nat), opensAtEnd [] false rest count = false := by
    intro rest count
    cases rest with
    | nil => rfl
    | cons flag rest => cases count <;> rfl
  rw [opensAtEnd_cons]
  cases walk h bits hashes with
  | dry => simp
  | cut => simp
  | read tree rest spare => simp [done]

section Soundness

variable {combine : H → H → H}

/-- Pairs that hash alike in the tree of `leaves` and in a partial tree are the
    same pairs. -/
def NoClash (combine : H → H → H) (pairs others : List (H × H)) : Prop :=
  ∀ pair ∈ pairs, ∀ other ∈ others,
    combine pair.1 pair.2 = combine other.1 other.2 → pair = other

theorem NoClash.sub {pairs others fewer less : List (H × H)} (safe : NoClash combine pairs others)
    (inside : fewer ⊆ pairs) (inside' : less ⊆ others) : NoClash combine fewer less :=
  fun pair mem other mem' same => safe pair (inside mem) other (inside' mem') same

/-- A partial tree that hashes to a node of the real tree is a part of it. -/
theorem matched_sub {h p : Nat} {leaves : List H} (tree : PartialTree H) (fits : tree.Fits h)
    (safe : NoClash combine (hashedPairs combine h leaves) (tree.pairs combine))
    (node : (level combine h leaves)[p]? = some (tree.root combine)) :
    tree.matched ⊆ leaves := by
  induction tree generalizing h p with
  | given flag hash =>
    cases h with
    | zero =>
      have inside := List.mem_of_getElem? node
      intro x mem
      unfold PartialTree.matched at mem
      split at mem
      · rw [List.mem_singleton.mp mem]
        exact inside
      · cases mem
    | succ h =>
      rw [show flag = false from fits]
      exact List.nil_subset leaves
  | fork left right ihl ihr =>
    cases h with
    | zero => exact fits.elim
    | succ h =>
      obtain ⟨l,r,first,second,inside,same⟩ := level_succ node
      have pair : (l, r) = (left.root combine, right.root combine) :=
        safe (l, r) (List.mem_append_right _ inside) _ (List.mem_cons_self ..) same.symm
      cases pair
      have below : hashedPairs combine h leaves ⊆ hashedPairs combine (h + 1) leaves :=
        List.subset_append_left ..
      have inLeft := ihl fits.1 (safe.sub below (fun _ mem =>
        List.mem_cons_of_mem _ (List.mem_append_left _ mem))) first
      have inRight := ihr fits.2 (safe.sub below (fun _ mem =>
        List.mem_cons_of_mem _ (List.mem_append_right _ mem))) second
      exact List.append_subset.mpr ⟨inLeft,inRight⟩
  | lone left ih =>
    cases h with
    | zero => exact fits.elim
    | succ h =>
      obtain ⟨l,r,first,_,inside,same⟩ := level_succ node
      have pair : (l, r) = (left.root combine, left.root combine) :=
        safe (l, r) (List.mem_append_right _ inside) _ (List.mem_cons_self ..) same.symm
      rw [(Prod.mk.inj pair).1] at first
      exact ih fits (safe.sub (List.subset_append_left ..) (fun _ mem =>
        List.mem_cons_of_mem _ mem)) first

end Soundness

end MerkleTree
