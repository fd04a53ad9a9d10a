import Mathlib.Data.Set.Function
import AltMessenger.BitcoinHash
import AltMessenger.Bip37

/-!
`PartialMerkleTree.init?` and its recursion over two running indices, with the
children read before it is known whether they are there. The recursion computes
what `walk` reads, so what holds of partial trees holds of the initialiser.
-/
namespace MerkleProof
open SwiftRuntime BitcoinHash MerkleTree Bip37

/-- The class `MerkleTreeNode`. -/
inductive Node where
  | mk : SHA256Hash → Option Node → Option Node → Node

def Node.hash : Node → SHA256Hash
  | .mk hash _ _ => hash

/-- The three `inout` variables of the recursion. -/
structure Progress where
  matchingHashes : List SHA256Hash
  flagBitIndex : Nat
  hashIndex : Nat

structure PartialMerkleTree where
  totalLeafNodes : UInt32
  hashes : List SHA256Hash
  flags : List UInt8
  rootHash : SHA256Hash
  matchingHashes : List SHA256Hash
  deriving DecidableEq

/-- `Int(ceil(log2(Double(totalLeafNodes))))`; the logarithm of zero is infinite. -/
def treeHeightWithtotalLeafNodes (totalLeafNodes : UInt32) : Except Trap Nat :=
  if totalLeafNodes = 0 then .error .conversion
  else if totalLeafNodes = 1 then .ok 0
  else .ok ((totalLeafNodes.toNat - 1).log2 + 1)

def flagBitAtIndex (index : Nat) (flags : List UInt8) : Except Trap UInt8 :=
  if index < flags.length * 8 then do
    let flagByte ← subscript flags (index / 8)
    pure ((flagByte >>> UInt8.ofNat (index % 8)) &&& 1)
  else .error .assertion

section Initialiser

variable (D : Digests) (hashes : List SHA256Hash) (flags : List UInt8)

def merkleTreeNodeWithHeight : Nat → Progress → Except Trap (Option Node × Progress)
  | height, progress =>
    if hashes.length ≤ progress.hashIndex then .ok (none, progress)
    else if flags.length * 8 ≤ progress.flagBitIndex then .ok (none, progress)
    else do
      let flag ← flagBitAtIndex progress.flagBitIndex flags
      let progress := { progress with flagBitIndex := progress.flagBitIndex + 1 }
      match height with
      | 0 => do
        let nodeHash ← subscript hashes progress.hashIndex
        let progress := { progress with hashIndex := progress.hashIndex + 1 }
        if flag = 1 then
          pure (some (.mk nodeHash none none),
            { progress with matchingHashes := progress.matchingHashes ++ [nodeHash] })
        else pure (some (.mk nodeHash none none), progress)
      | height + 1 =>
        if flag = 0 then do
          let nodeHash ← subscript hashes progress.hashIndex
          pure (some (.mk nodeHash none none), { progress with hashIndex := progress.hashIndex + 1 })
        else do
          let (leftNode, progress) ← merkleTreeNodeWithHeight height progress
          let (rightNode, progress) ← merkleTreeNodeWithHeight height progress
          let rightNode := match rightNode with
            | some right => some right
            | none => leftNode
          let left ← unwrap leftNode
          let right ← unwrap rightNode
          let digest ← Hash256.digest D (left.hash.data.reverse ++ right.hash.data.reverse)
          let nodeHash ← HashOf.ofData 32 digest.reverse
          pure (some (.mk nodeHash leftNode rightNode), progress)

/-- The loop over the padding, which has this many bits; `false` where it meets a
    bit that is set. -/
def zeroPadding : Nat → Nat → Except Trap Bool
  | 0, _ => .ok true
  | bits + 1, flagBitIndex => do
    let flag ← flagBitAtIndex flagBitIndex flags
    if flag = 1 then pure false else zeroPadding bits (flagBitIndex + 1)

end Initialiser

/-- `PartialMerkleTree(totalLeafNodes:hashes:flags:)` -/
def PartialMerkleTree.create (D : Digests) (totalLeafNodes : UInt32) (hashes : List SHA256Hash)
    (flags : List UInt8) : Except Trap (Option PartialMerkleTree) := do
  let height ← treeHeightWithtotalLeafNodes totalLeafNodes
  let (merkleRoot, progress) ← merkleTreeNodeWithHeight D hashes flags height ⟨[],0,0⟩
  match merkleRoot with
  | none => pure none
  | some merkleRoot =>
    if progress.hashIndex < hashes.length then pure none
    else if ((progress.flagBitIndex / 8 : Nat) : Int) ≠ (flags.length : Int) - 1 ∧
        progress.flagBitIndex ≠ flags.length * 8 then pure none
    else do
      let zeros ← zeroPadding flags (flags.length * 8 - progress.flagBitIndex) progress.flagBitIndex
      if zeros then
        pure (some { totalLeafNodes, hashes, flags, rootHash := merkleRoot.hash,
                     matchingHashes := progress.matchingHashes })
      else pure none

/-- The 64 bytes that are hashed for a pair of children. -/
def blockOf (children : SHA256Hash × SHA256Hash) : List UInt8 :=
  children.1.data.reverse ++ children.2.data.reverse

def hashChildren (D : Digests) (left right : SHA256Hash) : SHA256Hash :=
  ⟨(D.sha256 (D.sha256 (blockOf (left,right)))).reverse,
    (List.length_reverse).trans (D.sha256_length _)⟩

/-- The nodes the recursion builds for a partial tree. -/
def nodeOf (D : Digests) : PartialTree SHA256Hash → Node
  | .given _ hash => .mk hash none none
  | .fork left right => .mk (hashChildren D (left.root (hashChildren D)) (right.root (hashChildren D)))
      (some (nodeOf D left)) (some (nodeOf D right))
  | .lone left => .mk (hashChildren D (left.root (hashChildren D)) (left.root (hashChildren D)))
      (some (nodeOf D left)) (some (nodeOf D left))

@[simp] theorem nodeOf_hash (D : Digests) (tree : PartialTree SHA256Hash) :
    (nodeOf D tree).hash = tree.root (hashChildren D) := by
  cases tree <;> rfl

theorem blockOf_length (children : SHA256Hash × SHA256Hash) : (blockOf children).length = 64 := by
  rw [blockOf, List.length_append, List.length_reverse, List.length_reverse,
    children.1.length_eq, children.2.length_eq]

theorem blockOf_injective {children others : SHA256Hash × SHA256Hash}
    (same : blockOf children = blockOf others) : children = others := by
  obtain ⟨⟨a,alen⟩,⟨b,blen⟩⟩ := children
  obtain ⟨⟨c,clen⟩,⟨d,dlen⟩⟩ := others
  have parts := List.append_inj same (by simp [alen, clen])
  have first : a = c := List.reverse_injective parts.1
  have second : b = d := List.reverse_injective parts.2
  subst first
  subst second
  rfl

theorem hash_block {β : Type} (D : Digests) (left right : SHA256Hash)
    (next : SHA256Hash → Except Trap β) :
    (do let digest ← Hash256.digest D (left.data.reverse ++ right.data.reverse)
        let nodeHash ← HashOf.ofData 32 digest.reverse
        next nodeHash) = next (hashChildren D left right) := by
  have short : (blockOf (left,right)).length < 2 ^ 32 := by
    rw [blockOf_length]
    decide
  have made : HashOf.ofData 32 (D.sha256 (D.sha256 (blockOf (left,right)))).reverse =
      .ok (hashChildren D left right) := ofData_ok.mpr rfl
  change (do
    let digest ← Hash256.digest D (blockOf (left,right))
    let nodeHash ← HashOf.ofData 32 digest.reverse
    next nodeHash) = _
  rw [bind_ready (digest_short D short), bind_ready made]

theorem treeHeight_ok {n : UInt32} (counted : n ≠ 0) :
    ∃ height, treeHeightWithtotalLeafNodes n = .ok height ∧ Height n.toNat height := by
  rw [treeHeightWithtotalLeafNodes, if_neg counted]
  have positive : n.toNat ≠ 0 := fun zero => counted (UInt32.toNat_inj.mp zero)
  split
  · rename_i one
    rw [one]
    exact ⟨0,rfl,by decide,fun k lower => absurd lower (Nat.not_lt_zero k)⟩
  · rename_i more
    have two : n.toNat ≠ 1 := fun one => more (UInt32.toNat_inj.mp one)
    have below : n.toNat - 1 ≠ 0 := by omega
    refine ⟨_,rfl,?_,?_⟩
    · have := (Nat.log2_lt below).mp (Nat.lt_succ_self _)
      omega
    · intro k lower
      have := Nat.log2_self_le below
      have := Nat.pow_le_pow_right (n := 2) (by decide) (Nat.le_of_lt_succ lower)
      omega

theorem flag_of_byte (byte : UInt8) {i : Nat} (small : i < 8) :
    (byte >>> UInt8.ofNat i) &&& 1 = if byte.toNat.testBit i then 1 else 0 := by
  have bound : i < UInt8.size := Nat.lt_trans small (by decide)
  rw [← UInt8.toNat_inj, UInt8.toNat_and, UInt8.toNat_shiftRight, UInt8.toNat_ofNat_of_lt' bound,
    Nat.mod_eq_of_lt small, UInt8.toNat_one, Nat.and_one_is_mod, Nat.shiftRight_eq_div_pow,
    Nat.testBit_eq_decide_div_mod_eq]
  have bit := Nat.mod_two_eq_zero_or_one (byte.toNat / 2 ^ i)
  rcases bit with zero | one
  · rw [zero]
    rfl
  · rw [one]
    rfl

theorem unpackBits_get (flags : List UInt8) (index : Nat) (inside : index < flags.length * 8) :
    ∃ byte, flags[index / 8]? = some byte ∧
      (unpackBits flags)[index]? = some (byte.toNat.testBit (index % 8)) := by
  induction flags generalizing index with
  | nil => simp at inside
  | cons flag flags ih =>
    rw [unpackBits, List.flatMap_cons]
    have eight : (bitsOfByte flag).length = 8 := by simp [bitsOfByte]
    by_cases first : index < 8
    · refine ⟨flag,by rw [Nat.div_eq_of_lt first]; rfl,?_⟩
      rw [List.getElem?_append_left (by omega), bitsOfByte, List.getElem?_map,
        List.getElem?_range first, Nat.mod_eq_of_lt first]
      rfl
    · obtain ⟨byte,found,bit⟩ := ih (index - 8) (by rw [List.length_cons] at inside; omega)
      have place : index / 8 = (index - 8) / 8 + 1 := by omega
      have offset : (index - 8) % 8 = index % 8 := by omega
      refine ⟨byte,by rw [place]; exact found,?_⟩
      rw [List.getElem?_append_right (by omega), eight, ← unpackBits, bit, offset]

theorem flagBitAtIndex_eq {flags : List UInt8} {index : Nat} {flag : Bool} {bits : List Bool}
    (next : (unpackBits flags).drop index = flag :: bits) :
    flagBitAtIndex index flags = .ok (if flag then 1 else 0) := by
  have here : (unpackBits flags)[index]? = some flag := by
    rw [← List.head?_drop, next]
    rfl
  have inside : index < flags.length * 8 := by
    have := (List.getElem?_eq_some_iff.mp here).1
    rw [unpackBits_length] at this
    omega
  obtain ⟨byte,found,bit⟩ := unpackBits_get flags index inside
  rw [here, Option.some_inj] at bit
  rw [flagBitAtIndex, if_pos inside, bind_ready (subscript_ok.mpr found),
    flag_of_byte byte (Nat.mod_lt index (by decide)), ← bit]
  rfl

/-- Where the running variables stand after a partial tree has been read. -/
def Progress.after (progress : Progress) (tree : PartialTree SHA256Hash) : Progress where
  matchingHashes := progress.matchingHashes ++ tree.matched
  flagBitIndex := progress.flagBitIndex + tree.bits.length
  hashIndex := progress.hashIndex + tree.hashes.length

def Progress.opened (progress : Progress) : Progress :=
  { progress with flagBitIndex := progress.flagBitIndex + 1 }

theorem after_lone (progress : Progress) (left : PartialTree SHA256Hash) :
    progress.opened.after left = progress.after (.lone left) := by
  simp only [Progress.opened, Progress.after, PartialTree.matched, PartialTree.bits,
    PartialTree.hashes, List.length_cons, Nat.add_assoc, Nat.add_comm 1]

theorem after_fork (progress : Progress) (left right : PartialTree SHA256Hash) :
    (progress.opened.after left).after right = progress.after (.fork left right) := by
  simp only [Progress.opened, Progress.after, PartialTree.matched, PartialTree.bits,
    PartialTree.hashes, List.length_cons, List.length_append, List.append_assoc, Nat.add_assoc,
    Nat.add_comm 1]

/-- What the recursion returns, by what there was to read. -/
def returned (D : Digests) (progress : Progress) :
    Outcome SHA256Hash → Except Trap (Option Node × Progress)
  | .dry => .ok (none, progress)
  | .cut => .error .unwrap
  | .read tree _ _ => .ok (some (nodeOf D tree), progress.after tree)

section Recursion

variable {D : Digests} {hashes : List SHA256Hash} {flags : List UInt8}

theorem node_dry {height : Nat} {progress : Progress}
    (dry : (unpackBits flags).drop progress.flagBitIndex = [] ∨
      hashes.drop progress.hashIndex = []) :
    merkleTreeNodeWithHeight D hashes flags height progress = .ok (none, progress) := by
  rw [List.drop_eq_nil_iff, List.drop_eq_nil_iff, unpackBits_length] at dry
  unfold merkleTreeNodeWithHeight
  split
  · rfl
  · rename_i more
    rw [if_pos (by omega)]

/-- The indices of the next flag bit and of the next hash are in range. -/
theorem more_left {progress : Progress} {flag : Bool} {bits : List Bool} {hash : SHA256Hash}
    {spare : List SHA256Hash} (bit : (unpackBits flags).drop progress.flagBitIndex = flag :: bits)
    (next : hashes.drop progress.hashIndex = hash :: spare) :
    ¬ hashes.length ≤ progress.hashIndex ∧ ¬ flags.length * 8 ≤ progress.flagBitIndex := by
  have bitLength := congrArg List.length bit
  have hashLength := congrArg List.length next
  rw [List.length_drop, unpackBits_length, List.length_cons] at bitLength
  rw [List.length_drop, List.length_cons] at hashLength
  omega

/-- Both children of an opened node, and its hash. -/
theorem node_open {height : Nat} {progress : Progress} {bits : List Bool}
    {hash : SHA256Hash} {spare : List SHA256Hash}
    (bit : (unpackBits flags).drop progress.flagBitIndex = true :: bits)
    (next : hashes.drop progress.hashIndex = hash :: spare) :
    merkleTreeNodeWithHeight D hashes flags (height + 1) progress = (do
      let (leftNode, progress) ← merkleTreeNodeWithHeight D hashes flags height progress.opened
      let (rightNode, progress) ← merkleTreeNodeWithHeight D hashes flags height progress
      let rightNode := match rightNode with
        | some right => some right
        | none => leftNode
      let left ← unwrap leftNode
      let right ← unwrap rightNode
      let digest ← Hash256.digest D (left.hash.data.reverse ++ right.hash.data.reverse)
      let nodeHash ← HashOf.ofData 32 digest.reverse
      pure (some (.mk nodeHash leftNode rightNode), progress)) := by
  obtain ⟨moreHashes,moreBits⟩ := more_left bit next
  rw [merkleTreeNodeWithHeight, if_neg moreHashes, if_neg moreBits,
    bind_ready (flagBitAtIndex_eq bit)]
  rfl

section Children

variable {height : Nat} {progress mid last : Progress} {bits : List Bool} {hash : SHA256Hash}
variable {spare : List SHA256Hash} {left right : PartialTree SHA256Hash}

theorem node_fork (bit : (unpackBits flags).drop progress.flagBitIndex = true :: bits)
    (next : hashes.drop progress.hashIndex = hash :: spare)
    (first : merkleTreeNodeWithHeight D hashes flags height progress.opened =
      .ok (some (nodeOf D left), mid))
    (second : merkleTreeNodeWithHeight D hashes flags height mid =
      .ok (some (nodeOf D right), last)) :
    merkleTreeNodeWithHeight D hashes flags (height + 1) progress =
      .ok (some (nodeOf D (.fork left right)), last) := by
  rw [node_open bit next, bind_ready first]
  dsimp only
  rw [bind_ready second]
  dsimp only
  rw [unwrap, bind_ready rfl, unwrap, bind_ready rfl, hash_block, nodeOf_hash, nodeOf_hash]
  rfl

/-- Without a right child, the left one stands on both sides. -/
theorem node_lone (bit : (unpackBits flags).drop progress.flagBitIndex = true :: bits)
    (next : hashes.drop progress.hashIndex = hash :: spare)
    (first : merkleTreeNodeWithHeight D hashes flags height progress.opened =
      .ok (some (nodeOf D left), mid))
    (second : merkleTreeNodeWithHeight D hashes flags height mid = .ok (none, last)) :
    merkleTreeNodeWithHeight D hashes flags (height + 1) progress =
      .ok (some (nodeOf D (.lone left)), last) := by
  rw [node_open bit next, bind_ready first]
  dsimp only
  rw [bind_ready second]
  dsimp only
  rw [unwrap, bind_ready rfl, bind_ready rfl, hash_block, nodeOf_hash]
  rfl

/-- Without a left child there is nothing to unwrap. -/
theorem node_childless (bit : (unpackBits flags).drop progress.flagBitIndex = true :: bits)
    (next : hashes.drop progress.hashIndex = hash :: spare)
    (first : merkleTreeNodeWithHeight D hashes flags height progress.opened =
      .ok (none, progress.opened)) :
    merkleTreeNodeWithHeight D hashes flags (height + 1) progress = .error .unwrap := by
  rw [node_open bit next, bind_ready first]
  dsimp only
  rw [bind_ready first]
  rfl

/-- What is left behind a left child. -/
theorem left_after {rest mid : List Bool} {more : List SHA256Hash}
    (tail : (unpackBits flags).drop progress.opened.flagBitIndex = rest)
    (next : hashes.drop progress.hashIndex = hash :: spare)
    (spelled : Spelling height left rest mid (hash :: spare) more) :
    (unpackBits flags).drop (progress.opened.after left).flagBitIndex = mid ∧
      hashes.drop (progress.opened.after left).hashIndex = more := by
  have start : hashes.drop progress.opened.hashIndex = hash :: spare := next
  constructor
  · rw [Progress.after, ← List.drop_drop, tail, spelled.bits_eq, List.drop_left]
  · rw [Progress.after, ← List.drop_drop, start, spelled.hashes_eq, List.drop_left]

end Children

/-- A leaf, or a node whose flag is not set: the next hash, as it is. -/
theorem node_given {height : Nat} {progress : Progress} {flag : Bool} {bits : List Bool}
    {hash : SHA256Hash} {spare : List SHA256Hash} (taken : height = 0 ∨ flag = false)
    (bit : (unpackBits flags).drop progress.flagBitIndex = flag :: bits)
    (next : hashes.drop progress.hashIndex = hash :: spare) :
    merkleTreeNodeWithHeight D hashes flags height progress =
      .ok (some (.mk hash none none), progress.after (.given flag hash)) := by
  obtain ⟨moreHashes,moreBits⟩ := more_left bit next
  have here : subscript hashes progress.hashIndex = .ok hash := by
    rw [subscript_ok, ← List.head?_drop, next]
    rfl
  unfold merkleTreeNodeWithHeight
  rw [if_neg moreHashes, if_neg moreBits, bind_ready (flagBitAtIndex_eq bit)]
  cases height with
  | zero =>
    dsimp only
    rw [bind_ready here]
    cases flag with
    | false => simp [Progress.after, PartialTree.matched, PartialTree.bits, PartialTree.hashes]; rfl
    | true => rfl
  | succ height =>
    have unset : flag = false := taken.resolve_left (Nat.succ_ne_zero height)
    subst unset
    dsimp only
    rw [if_pos (by rfl), bind_ready here]
    simp [Progress.after, PartialTree.matched, PartialTree.bits, PartialTree.hashes]
    rfl

/-- The recursion reads what `walk` reads. -/
theorem node_walk (height : Nat) (progress : Progress) :
    merkleTreeNodeWithHeight D hashes flags height progress =
      returned D progress (walk height ((unpackBits flags).drop progress.flagBitIndex)
        (hashes.drop progress.hashIndex)) := by
  induction height generalizing progress with
  | zero =>
    cases bits : (unpackBits flags).drop progress.flagBitIndex with
    | nil => exact node_dry (Or.inl bits)
    | cons flag rest =>
      cases next : hashes.drop progress.hashIndex with
      | nil => exact node_dry (Or.inr next)
      | cons hash spare => exact node_given (Or.inl rfl) bits next
  | succ height ih =>
    cases bits : (unpackBits flags).drop progress.flagBitIndex with
    | nil => exact node_dry (Or.inl bits)
    | cons flag rest =>
      cases next : hashes.drop progress.hashIndex with
      | nil => exact node_dry (Or.inr next)
      | cons hash spare =>
        cases flag with
        | false => exact node_given (Or.inr rfl) bits next
        | true =>
          have tail : (unpackBits flags).drop progress.opened.flagBitIndex = rest := by
            rw [Progress.opened, ← List.drop_drop, bits]
            rfl
          have left := ih progress.opened
          rw [tail, show progress.opened.hashIndex = progress.hashIndex from rfl, next] at left
          rw [walk]
          cases first : walk height rest (hash :: spare) with
          | dry =>
            rw [first] at left
            exact node_childless bits next left
          | cut =>
            rw [first] at left
            rw [node_open bits next, left]
            rfl
          | read leftTree mid more =>
            rw [first] at left
            obtain ⟨midBits,midHashes⟩ := left_after tail next (walk_read first)
            have right := ih (progress.opened.after leftTree)
            rw [midBits, midHashes] at right
            dsimp only
            cases second : walk height mid more with
            | dry =>
              rw [second] at right
              have lone := node_lone bits next left right
              rwa [after_lone] at lone
            | cut =>
              rw [second] at right
              rw [node_open bits next, bind_ready left]
              dsimp only
              rw [right]
              rfl
            | read rightTree last final =>
              rw [second] at right
              have fork := node_fork bits next left right
              rwa [after_fork] at fork

end Recursion

theorem treeHeight_eq {n : UInt32} (counted : n ≠ 0) :
    treeHeightWithtotalLeafNodes n = .ok (treeHeight n.toNat) := by
  obtain ⟨height,run,high⟩ := treeHeight_ok counted
  rw [run, high.unique (treeHeight_height n.toNat)]

theorem zeroPadding_eq {flags : List UInt8} {index : Nat} {rest : List Bool}
    (left : (unpackBits flags).drop index = rest) :
    zeroPadding flags rest.length index = .ok (decide (true ∉ rest)) := by
  induction rest generalizing index with
  | nil => rfl
  | cons flag rest ih =>
    have tail : (unpackBits flags).drop (index + 1) = rest := by
      rw [← List.drop_drop, left]
      rfl
    rw [List.length_cons, zeroPadding, bind_ready (flagBitAtIndex_eq left), ih tail]
    cases flag with
    | false => simp
    | true => simp; rfl

/-- The tree the initialiser walks, as far as it gets through one. -/
def walked (n : UInt32) (hashes : List SHA256Hash) (flags : List UInt8) :
    Option (PartialTree SHA256Hash) :=
  match walk (treeHeight n.toNat) (unpackBits flags) hashes with
  | .read shape _ _ => some shape
  | .dry => none
  | .cut => none

/-- What the initialiser makes of a partial tree it accepts. -/
def treeOf (D : Digests) (n : UInt32) (hashes : List SHA256Hash) (flags : List UInt8)
    (shape : PartialTree SHA256Hash) : PartialMerkleTree where
  totalLeafNodes := n
  hashes := hashes
  flags := flags
  rootHash := shape.root (hashChildren D)
  matchingHashes := shape.matched

/-- The hashes are used up, and so are the flag bits but for zeros that fill the
    last byte. -/
def UsedUp (rest : List Bool) (spare : List SHA256Hash) : Prop :=
  spare = [] ∧ rest.length ≤ 8 ∧ true ∉ rest

instance (rest : List Bool) (spare : List SHA256Hash) : Decidable (UsedUp rest spare) :=
  inferInstanceAs (Decidable (spare = [] ∧ rest.length ≤ 8 ∧ true ∉ rest))

theorem create_eq (D : Digests) {n : UInt32} (counted : n ≠ 0) (hashes : List SHA256Hash)
    (flags : List UInt8) :
    PartialMerkleTree.create D n hashes flags =
      match walk (treeHeight n.toNat) (unpackBits flags) hashes with
      | .dry => .ok none
      | .cut => .error .unwrap
      | .read shape rest spare =>
        if UsedUp rest spare then .ok (some (treeOf D n hashes flags shape)) else .ok none := by
  have node : merkleTreeNodeWithHeight D hashes flags (treeHeight n.toNat) ⟨[],0,0⟩ = _ :=
    node_walk (treeHeight n.toNat) ⟨[],0,0⟩
  rw [List.drop_zero, List.drop_zero] at node
  rw [PartialMerkleTree.create, bind_ready (treeHeight_eq counted)]
  cases run : walk (treeHeight n.toNat) (unpackBits flags) hashes with
  | dry =>
    rw [run] at node
    rw [bind_ready node]
    rfl
  | cut =>
    rw [run] at node
    rw [node]
    rfl
  | read shape rest spare =>
    rw [run] at node
    rw [bind_ready node]
    dsimp only [Progress.after]
    have spelled := walk_read run
    have bits := congrArg List.length spelled.bits_eq
    have taken := congrArg List.length spelled.hashes_eq
    rw [unpackBits_length, List.length_append] at bits
    rw [List.length_append] at taken
    obtain ⟨first,more,started⟩ := shape.bits_some
    have some_bits := congrArg List.length started
    rw [List.length_cons] at some_bits
    rw [Nat.zero_add, Nat.zero_add, List.nil_append]
    by_cases unused : shape.hashes.length < hashes.length
    · have spares : spare ≠ [] := by
        rintro rfl
        rw [List.length_nil] at taken
        omega
      rw [if_pos unused, if_neg (fun used : UsedUp rest spare => spares used.1)]
      rfl
    · have none : spare = [] := List.length_eq_zero_iff.mp (by omega)
      rw [if_neg unused]
      by_cases short : rest.length ≤ 8
      · have left : (unpackBits flags).drop shape.bits.length = rest := by
          rw [spelled.bits_eq, List.drop_left]
        have padding : flags.length * 8 - shape.bits.length = rest.length := by omega
        rw [if_neg (by omega), padding, bind_ready (zeroPadding_eq left)]
        by_cases set : true ∈ rest
        · rw [if_neg (by simp [set]), if_neg (fun used : UsedUp rest spare => used.2.2 set)]
          rfl
        · rw [if_pos (by simp [set]), if_pos ⟨none,short,set⟩, nodeOf_hash]
          rfl
      · rw [if_pos (by omega), if_neg (fun used : UsedUp rest spare => short used.2.1)]
        rfl

theorem create_zero (D : Digests) (hashes : List SHA256Hash) (flags : List UInt8) :
    PartialMerkleTree.create D 0 hashes flags = .error .conversion := rfl

theorem create_ends (D : Digests) (n : UInt32) (hashes : List SHA256Hash) (flags : List UInt8) :
    (∃ result, PartialMerkleTree.create D n hashes flags = .ok result) ↔
      n ≠ 0 ∧ walk (treeHeight n.toNat) (unpackBits flags) hashes ≠ .cut := by
  by_cases zero : n = 0
  · subst zero
    rw [create_zero]
    simp
  · rw [create_eq D zero]
    cases run : walk (treeHeight n.toNat) (unpackBits flags) hashes with
    | dry => simp [zero]
    | cut => simp
    | read shape rest spare =>
      by_cases used : UsedUp rest spare <;> simp [zero, used]

/-- What an accepted proof consists of. -/
structure Accepted (D : Digests) (n : UInt32) (hashes : List SHA256Hash) (flags : List UInt8)
    (tree : PartialMerkleTree) (shape : PartialTree SHA256Hash) (rest : List Bool) : Prop where
  counted : n ≠ 0
  run : walk (treeHeight n.toNat) (unpackBits flags) hashes = .read shape rest []
  tree_eq : tree = treeOf D n hashes flags shape

theorem accepted {D : Digests} {n : UInt32} {hashes : List SHA256Hash} {flags : List UInt8}
    {tree : PartialMerkleTree} (made : PartialMerkleTree.create D n hashes flags = .ok (some tree)) :
    ∃ shape rest, Accepted D n hashes flags tree shape rest := by
  have counted : n ≠ 0 := by
    rintro rfl
    rw [create_zero] at made
    cases made
  rw [create_eq D counted] at made
  cases run : walk (treeHeight n.toNat) (unpackBits flags) hashes with
  | dry => rw [run] at made; cases made
  | cut => rw [run] at made; cases made
  | read shape rest spare =>
    rw [run] at made
    dsimp only at made
    split at made
    · rename_i used
      cases made
      obtain ⟨rfl,_⟩ := used
      exact ⟨shape,rest,counted,run,rfl⟩
    · cases made

/-- The blocks hashed for the merkle tree of a list of transaction hashes. -/
def treeBlocks (D : Digests) (block : List SHA256Hash) : List (List UInt8) :=
  (hashedPairs (hashChildren D) (treeHeight block.length) block).map blockOf

/-- The blocks the initialiser hashes. -/
def walkedBlocks (D : Digests) (n : UInt32) (hashes : List SHA256Hash) (flags : List UInt8) :
    List (List UInt8) :=
  match walked n hashes flags with
  | some shape => (shape.pairs (hashChildren D)).map blockOf
  | none => []

theorem noClash_of_injOn {D : Digests} {pairs others : List (SHA256Hash × SHA256Hash)}
    (injective : Set.InjOn (fun block => D.sha256 (D.sha256 block))
      {block | block ∈ pairs.map blockOf ∨ block ∈ others.map blockOf}) :
    NoClash (hashChildren D) pairs others := by
  intro pair mem other mem' same
  have digests : D.sha256 (D.sha256 (blockOf pair)) = D.sha256 (D.sha256 (blockOf other)) :=
    List.reverse_injective (congrArg HashOf.data same)
  exact blockOf_injective (injective (Or.inl (List.mem_map_of_mem mem))
    (Or.inr (List.mem_map_of_mem mem')) digests)

/-- An accepted proof with a block's root lists transactions of that block, if
    the double hash is injective on the blocks hashed for the two. -/
theorem accepted_matches_in_block (D : Digests) (block : List SHA256Hash) (n : UInt32)
    (hashes : List SHA256Hash) (flags : List UInt8) (tree : PartialMerkleTree)
    (total : n.toNat = block.length)
    (injective : Set.InjOn (fun block => D.sha256 (D.sha256 block))
      {bytes | bytes ∈ treeBlocks D block ∨ bytes ∈ walkedBlocks D n hashes flags})
    (made : PartialMerkleTree.create D n hashes flags = .ok (some tree))
    (root : merkleRoot (hashChildren D) block = some tree.rootHash) :
    ∀ hash ∈ tree.matchingHashes, hash ∈ block := by
  obtain ⟨shape,rest,counted,run,rfl⟩ := accepted made
  have spelled := walk_read run
  have went : walked n hashes flags = some shape := by rw [walked, run]
  have high : Height block.length (treeHeight n.toNat) := by
    rw [← total]
    exact treeHeight_height n.toNat
  rw [merkleRoot_eq block high] at root
  rw [treeBlocks, walkedBlocks, went, ← total] at injective
  exact matched_sub shape spelled.fits (noClash_of_injOn injective) root

/-- A hash of one repeated byte. -/
def plain (byte : UInt8) : SHA256Hash := ⟨List.replicate 32 byte,List.length_replicate⟩

/-- The proof that the second of two transactions is matched. -/
def pairProof : PartialMerkleTree :=
  treeOf (Digests.known [] []) 2 [plain 1,plain 2] [5]
    (.fork (.given false (plain 1)) (.given true (plain 2)))

theorem pairProof_made :
    PartialMerkleTree.create (Digests.known [] []) 2 [plain 1,plain 2] [5] =
      .ok (some pairProof) := by
  rw [create_eq _ (by decide)]
  rfl

theorem pairProof_in_block : pairProof.matchingHashes ⊆ [plain 1,plain 2] := by
  have tree_blocks : treeBlocks (Digests.known [] []) [plain 1,plain 2] =
    [blockOf (plain 1,plain 2)] := rfl
  have walked_blocks : walkedBlocks (Digests.known [] []) 2 [plain 1,plain 2] [5] =
    [blockOf (plain 1,plain 2)] := rfl
  intro hash mem
  refine accepted_matches_in_block (Digests.known [] []) [plain 1,plain 2] 2 [plain 1,plain 2] [5]
    pairProof rfl ?_ pairProof_made rfl hash mem
  rw [tree_blocks, walked_blocks]
  intro a one b two _
  have only : ∀ c, c ∈ [blockOf (plain 1,plain 2)] ∨ c ∈ [blockOf (plain 1,plain 2)] →
      c = blockOf (plain 1,plain 2) := by simp
  rw [only a one, only b two]

/-- The proof BIP 37 builds for a block is accepted, with the block's root and
    its matched transactions. -/
theorem built_proof_accepted (D : Digests) (txs : List (SHA256Hash × Bool)) (some_tx : txs ≠ [])
    (fits : txs.length < 2 ^ 32) :
    ∃ tree, PartialMerkleTree.create D (UInt32.ofNat txs.length) (build (hashChildren D) txs).2
        (packBits (build (hashChildren D) txs).1) = .ok (some tree) ∧
      merkleRoot (hashChildren D) (txs.map Prod.fst) = some tree.rootHash ∧
      tree.matchingHashes = matchedIn txs := by
  have total : (UInt32.ofNat txs.length).toNat = txs.length := UInt32.toNat_ofNat_of_lt' fits
  have positive : 0 < txs.length := List.length_pos_iff.mpr some_tx
  have counted : UInt32.ofNat txs.length ≠ 0 := by
    intro zero
    rw [zero] at total
    exact absurd total.symm (Nat.ne_of_gt positive)
  have high := treeHeight_height txs.length
  have real : 0 < width txs.length (treeHeight txs.length) := by
    rw [lt_width]
    omega
  obtain ⟨shape,built⟩ := build_tree (hashChildren D) txs real
  obtain ⟨pad,few,bits⟩ := unpackBits_packBits shape.bits
  have spelled : Spelling (treeHeight txs.length) shape (unpackBits (packBits shape.bits))
      (List.replicate pad false) shape.hashes [] :=
    ⟨built.fits,(built.shaped.ragged real).1,Or.inr (Or.inr rfl),bits,(List.append_nil _).symm⟩
  have written : build (hashChildren D) txs = (shape.bits, shape.hashes) := built.written
  have used : UsedUp (List.replicate pad false) [] :=
    ⟨rfl,by rw [List.length_replicate]; omega,by simp⟩
  rw [written]
  refine ⟨treeOf D (UInt32.ofNat txs.length) shape.hashes (packBits shape.bits) shape,?_,?_,?_⟩
  · rw [create_eq D counted, total, spelled.walk]
    exact if_pos used
  · rw [merkleRoot_eq (h := treeHeight txs.length) _ (by rw [List.length_map]; exact high)]
    exact built.node
  · have all : span txs (treeHeight txs.length) 0 = txs := by
      rw [span, Nat.zero_mul, List.drop_zero, List.take_of_length_le high.enough]
    rw [← all]
    exact built.matched

theorem three_transactions_accepted :
    ∃ tree, PartialMerkleTree.create (Digests.known [] []) 3
        (build (hashChildren (Digests.known [] []))
          [(plain 1,false),(plain 2,true),(plain 3,true)]).2
        (packBits (build (hashChildren (Digests.known [] []))
          [(plain 1,false),(plain 2,true),(plain 3,true)]).1) = .ok (some tree) ∧
      merkleRoot (hashChildren (Digests.known [] [])) [plain 1,plain 2,plain 3] =
        some tree.rootHash ∧ tree.matchingHashes = [plain 2,plain 3] :=
  built_proof_accepted (Digests.known [] [])
    [(plain 1,false),(plain 2,true),(plain 3,true)] (by decide) (by decide)

/-- The initialiser's walk stays among the block's own nodes, and lists nothing
    twice, on exactly the proofs that a BIP 37 verifier goes through to the end
    with distinct matches. -/
theorem canonical_iff_verified (D : Digests) (n : UInt32) (hashes : List SHA256Hash)
    (flags : List UInt8) (tree : PartialMerkleTree)
    (made : PartialMerkleTree.create D n hashes flags = .ok (some tree)) :
    ((∃ shape, walked n hashes flags = some shape ∧
        (∀ q ∈ positions (treeHeight n.toNat) 0 shape, q < n.toNat) ∧
        SiblingsDiffer (hashChildren D) n.toNat (treeHeight n.toNat) 0 shape) ∧
      tree.matchingHashes.Nodup) ↔
      ∃ e, extract (hashChildren D) n.toNat (unpackBits flags) hashes = some e ∧
        e.hashes = [] ∧ e.matched.Nodup := by
  obtain ⟨shape,rest,counted,run,rfl⟩ := accepted made
  have spelled := walk_read run
  have went : walked n hashes flags = some shape := by rw [walked, run]
  have positive : n.toNat ≠ 0 := fun zero => counted (UInt32.toNat_inj.mp zero)
  have real : 0 < width n.toNat (treeHeight n.toNat) := by
    rw [lt_width]
    omega
  have demands : Shaped n.toNat (treeHeight n.toNat) 0 shape ∧
      RootsDiffer (hashChildren D) shape ↔ _ := shaped_iff spelled.fits real
  constructor
  · rintro ⟨⟨other,went',inside,differ⟩,once⟩
    rw [went] at went'
    cases went'
    obtain ⟨shaped,apart⟩ := demands.mpr ⟨inside,differ⟩
    have verified := extract_spelled spelled.fits shaped apart rest []
    rw [← spelled.bits_eq, ← spelled.hashes_eq] at verified
    exact ⟨_,verified,rfl,once⟩
  · rintro ⟨e,verified,none,once⟩
    obtain ⟨other,through⟩ := extract_tree verified
    have same : walk (treeHeight n.toNat) (unpackBits flags) hashes =
        .read other e.bits e.hashes := Spelling.walk
      ⟨through.fits,(through.shaped.ragged real).1,Or.inr (Or.inr none),through.bits_eq,
        through.hashes_eq⟩
    rw [run] at same
    obtain ⟨rfl,_,_⟩ := Outcome.read.inj same
    obtain ⟨inside,differ⟩ := demands.mp ⟨through.shaped,through.differ⟩
    rw [through.matched_eq] at once
    exact ⟨⟨shape,went,inside,differ⟩,once⟩

theorem pairProof_canonical :
    ((∃ shape, walked 2 [plain 1,plain 2] [5] = some shape ∧
        (∀ q ∈ positions (treeHeight 2) 0 shape, q < 2) ∧
        SiblingsDiffer (hashChildren (Digests.known [] [])) 2 (treeHeight 2) 0 shape) ∧
      pairProof.matchingHashes.Nodup) :=
  (canonical_iff_verified (Digests.known [] []) 2 [plain 1,plain 2] [5] pairProof
    pairProof_made).mpr ⟨_,rfl,rfl,by decide⟩

/-- Digests that keep the two inner nodes of the block of three apart. -/
def threeLeaves : Digests :=
  Digests.known [(blockOf (plain 1,plain 2), List.replicate 32 10),
    (List.replicate 32 10, List.replicate 32 11), (blockOf (plain 3,plain 3), List.replicate 32 20),
    (List.replicate 32 20, List.replicate 32 21)] []

/-- The third of three transactions, given once more as a fourth leaf. -/
def fourthLeaf : PartialTree SHA256Hash :=
  .fork (.fork (.given true (plain 1)) (.given true (plain 2)))
    (.fork (.given true (plain 3)) (.given true (plain 3)))

set_option maxRecDepth 4000 in
theorem phantom_leaf_accepted :
    ∃ tree, PartialMerkleTree.create threeLeaves 3 [plain 1,plain 2,plain 3,plain 3] [0x7f] =
        .ok (some tree) ∧
      merkleRoot (hashChildren threeLeaves) [plain 1,plain 2,plain 3] = some tree.rootHash ∧
      walked 3 [plain 1,plain 2,plain 3,plain 3] [0x7f] = some fourthLeaf ∧
      3 ∈ positions (treeHeight 3) 0 fourthLeaf ∧
      tree.matchingHashes = [plain 1,plain 2,plain 3,plain 3] ∧ ¬ tree.matchingHashes.Nodup := by
  refine ⟨treeOf threeLeaves 3 [plain 1,plain 2,plain 3,plain 3] [0x7f] fourthLeaf,?_,?_,?_,?_,?_,?_⟩
  · rw [create_eq _ (by decide)]
    rfl
  · decide
  · rfl
  · decide
  · rfl
  · decide

/-- The initialiser returns unless there are no leaves, or the flag bits end on
    one that opens a node while a hash is left to take. -/
theorem create_returns_iff (D : Digests) (n : UInt32) (hashes : List SHA256Hash)
    (flags : List UInt8) :
    (∃ result, PartialMerkleTree.create D n hashes flags = .ok result) ↔
      n ≠ 0 ∧ opensAtEnd [treeHeight n.toNat] false (unpackBits flags) hashes.length = false := by
  rw [create_ends, ne_eq, ← Bool.not_eq_true, ← walk_cut]

theorem create_traps :
    PartialMerkleTree.create (Digests.known [] []) 0 [plain 1] [1] = .error .conversion ∧
      PartialMerkleTree.create (Digests.known [] []) 129 [plain 1] [0xff] = .error .unwrap := by
  constructor
  · rfl
  · rw [create_eq _ (by decide)]
    rfl

end MerkleProof
