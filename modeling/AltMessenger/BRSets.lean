import AltMessenger.LinearProbing

/-!
The hash set of the wallet's core, `BRSet.c`. Its table has one of fifty sizes and grows to the next
when more than two thirds of it are in use. A loop that never ends, and a size that there is none
of, give no result.
-/
namespace BRSets
open LinearProbing

def tableSizes : List Nat := [
  1, 3, 7, 13, 23, 37, 59, 97, 149, 227, 347, 523, 787, 1187, 1783, 2677, 4019, 6037, 9059, 13591,
  20389, 30593, 45887, 68863, 103307, 154981, 232487, 348739, 523129, 784697, 1177067, 1765609,
  2648419, 3972643, 5958971, 8938469, 13407707, 20111563, 30167359, 45251077, 67876637, 101814991,
  152722489, 229083739, 343625629, 515438447, 773157683, 1159736527, 1739604799, 2609407319,
  3914111041]

structure BRSet (α : Type) where
  table : Slots α
  itemCount : Nat
deriving DecidableEq

/-- The size after the first that holds the capacity -/
def sizeFor (capacity : Nat) : Option Nat :=
  tableSizes[tableSizes.findIdx (fun size => capacity ≤ size) + 1]?

/-- The number of items beyond which a table grows -/
def limit (size : Nat) : Nat := (size + 2) / 3 * 2

variable {α : Type}

/-- `_BRSetInit` -/
def BRSetNew (capacity : Nat) : Option (BRSet α) :=
  (sizeFor capacity).map fun size => ⟨List.replicate size none,0⟩

section Operations
variable (K : Keys α)

/-- Probes for the item or a free slot. -/
def probe (set : BRSet α) (item : α) : Option Nat :=
  seek K set.table item set.table.length (K.hash item % set.table.length)

/-- `BRSetAdd`, before it looks at the load -/
def place (set : BRSet α) (item : α) : Option (Option α × BRSet α) := do
  let i ← probe K set item
  let t := set.table.getD i none
  some (t, { table := set.table.set i (some item)
             itemCount := if t.isNone then set.itemCount + 1 else set.itemCount })

/-- `BRSetAdd`. It is called again for each item when the table grows; each table is larger than the
    last, so that calls go no deeper than there are sizes. -/
def addWithin : Nat → BRSet α → α → Option (Option α × BRSet α)
  | 0, _, _ => none
  | depth + 1, set, item => do
    let (t, set) ← place K set item
    if limit set.table.length < set.itemCount then
      let newSet ← BRSetNew set.table.length
      let grown ← set.table.reduceOption.foldlM (fun newSet t =>
        (addWithin depth newSet t).map Prod.snd) newSet
      some (t, grown)
    else some (t, set)

def BRSetAdd : BRSet α → α → Option (Option α × BRSet α) := addWithin K tableSizes.length

/-- The cleanup of `BRSetRemove`, from slot `i` on -/
def cleanup (size : Nat) : Nat → BRSet α → Nat → Option (BRSet α)
  | 0, _, _ => none
  | fuel + 1, set, i =>
    match set.table.getD i none with
    | none => some set
    | some t => do
      let (_, set) ← BRSetAdd K ⟨set.table.set i none,set.itemCount - 1⟩ t
      cleanup size fuel set ((i + 1) % size)

def BRSetRemove (set : BRSet α) (item : α) : Option (Option α × BRSet α) := do
  let size := set.table.length
  let i ← probe K set item
  match set.table.getD i none with
  | none => some (none, set)
  | some r => do
    let set ← cleanup K size size ⟨set.table.set i none,set.itemCount - 1⟩ ((i + 1) % size)
    some (some r, set)

def BRSetClear (set : BRSet α) : BRSet α := ⟨List.replicate set.table.length none,0⟩

def BRSetGet (set : BRSet α) (item : α) : Option (Option α) := do
  let i ← probe K set item
  some (set.table.getD i none)

def BRSetContains (set : BRSet α) (item : α) : Option Bool :=
  (BRSetGet K set item).map Option.isSome

/-- The items of `BRSetAll`, and those that `BRSetApply` is called with -/
def BRSetAll (set : BRSet α) : List α := set.table.reduceOption

def BRSetIntersects (set otherSet : BRSet α) : Option Bool :=
  (BRSetAll otherSet).foldlM (fun found t =>
    if found then some true else BRSetContains K set t) false

def BRSetIterate (set : BRSet α) (previous : Option α) : Option (Option α) := do
  let i ← match previous with
    | none => some 0
    | some previous => (probe K set previous).map (· + 1)
  some (set.table.drop i).reduceOption.head?

def BRSetUnion (set otherSet : BRSet α) : Option (BRSet α) :=
  (BRSetAll otherSet).foldlM (fun set t => (BRSetAdd K set t).map Prod.snd) set

def BRSetMinus (set otherSet : BRSet α) : Option (BRSet α) :=
  (BRSetAll otherSet).foldlM (fun set t => (BRSetRemove K set t).map Prod.snd) set

end Operations

/-- What a set is for: its items, each once -/
def lookup (K : Keys α) (held : List α) (item : α) : Option α := held.find? fun x => K.eq x item

def remove (K : Keys α) (held : List α) (item : α) : List α := held.filter fun x => !K.eq x item

def insert (K : Keys α) (held : List α) (item : α) : List α := item :: remove K held item

/-- The set holds exactly these items, and finds each of them. -/
structure Holds (K : Keys α) (set : BRSet α) (held : List α) : Prop where
  sound : Sound K set.table
  all : (items set.table).Perm held
  apart : held.Pairwise fun x y => K.eq x y = false
  count : set.itemCount = held.length
  size : set.table.length ∈ tableSizes.tail
  load : held.length ≤ limit set.table.length

section Sizes

theorem limit_below : ∀ size ∈ tableSizes.tail, limit size < size := by decide

/-- Each size but the last is followed by one that has room for another item. -/
theorem size_grows : ∀ size ∈ tableSizes.tail.dropLast, ∃ next ∈ tableSizes.tail,
    sizeFor size = some next ∧ limit size < limit next := by decide

theorem sizeFor_some {capacity : Nat} (fits : capacity ≤ 2609407319) :
    ∃ size ∈ tableSizes.tail, sizeFor capacity = some size := by
  have found : tableSizes.findIdx (fun size => decide (capacity ≤ size)) < 50 := by
    by_contra past
    have all : ∀ i < 50, ∀ h : i < tableSizes.length, ¬ capacity ≤ tableSizes[i] := by
      intro i below h
      have early : i < tableSizes.findIdx (fun size => decide (capacity ≤ size)) := by omega
      simpa using List.not_of_lt_findIdx early
    exact all 49 (by decide) (by decide) fits
  have inside : tableSizes.findIdx (fun size => decide (capacity ≤ size)) + 1 < tableSizes.length :=
    Nat.succ_lt_succ found
  refine ⟨_,?_,List.getElem?_eq_getElem inside⟩
  have later : tableSizes.findIdx (fun size => decide (capacity ≤ size)) < tableSizes.tail.length :=
    found
  rw [← List.getElem_tail later]
  exact List.getElem_mem later

end Sizes


section Held
variable {K : Keys α} {held : List α} {x y : α}

theorem not_true_of {b : Bool} (yes : b = true) : ¬ (!b) = true := by
  rw [yes]
  exact Bool.false_ne_true

theorem mem_remove : y ∈ remove K held x ↔ y ∈ held ∧ K.eq y x = false := by
  unfold remove
  rw [List.mem_filter, Bool.not_eq_true']

theorem remove_fresh (fresh : ∀ y ∈ held, K.eq y x = false) : remove K held x = held :=
  List.filter_eq_self.mpr fun y there => by rw [fresh y there]; rfl

/-- Of a list without equal items, one is equal to the given item and the rest stays. -/
theorem held_split (apart : held.Pairwise fun x y => K.eq x y = false) (there : y ∈ held)
    (same : K.eq y x = true) : held.Perm (y :: remove K held x) := by
  induction held with
  | nil => cases there
  | cons z held ih =>
    obtain ⟨first,apart⟩ := List.pairwise_cons.mp apart
    unfold remove
    rcases List.mem_cons.mp there with rfl | later
    · have others : remove K held x = held := by
        refine remove_fresh fun w inside => ?_
        by_contra equal
        have twice := K.trans same (K.symm (Bool.eq_true_of_not_eq_false equal))
        rw [first w inside] at twice
        cases twice
      have gone : (y :: held).filter (fun z => !K.eq z x) = remove K held x :=
        List.filter_cons_of_neg (not_true_of same)
      rw [gone, others]
    · have differs : K.eq z x = false := by
        by_contra equal
        have twice := K.trans (Bool.eq_true_of_not_eq_false equal) (K.symm same)
        rw [first y later] at twice
        cases twice
      have stays : (z :: held).filter (fun z => !K.eq z x) = z :: remove K held x :=
        List.filter_cons_of_pos (by rw [differs]; rfl)
      rw [stays]
      exact ((ih apart later).cons z).trans (List.Perm.swap y z _)

theorem insert_apart (apart : held.Pairwise fun x y => K.eq x y = false) (x : α) :
    (insert K held x).Pairwise fun x y => K.eq x y = false := by
  refine List.pairwise_cons.mpr ⟨fun y there => ?_,apart.filter _⟩
  cases equal : K.eq x y with
  | false => rfl
  | true =>
    have differs := (mem_remove.mp there).2
    rw [K.symm equal] at differs
    cases differs

theorem insert_length (held : List α) (x : α) : (insert K held x).length ≤ held.length + 1 :=
  Nat.succ_le_succ (List.length_filter_le _ _)

/-- Either no item is equal, or the one that is looked up is. -/
theorem lookup_cases (K : Keys α) (held : List α) (x : α) :
    lookup K held x = none ∧ (∀ y ∈ held, K.eq y x = false) ∨
      ∃ y ∈ held, K.eq y x = true ∧ lookup K held x = some y := by
  cases found : lookup K held x with
  | none => exact Or.inl ⟨rfl,fun y there =>
      Bool.eq_false_iff.mpr (List.find?_eq_none.mp found y there)⟩
  | some y => exact Or.inr ⟨y,List.mem_of_find?_eq_some found,
      (List.find?_eq_some_iff_append.mp found).1,rfl⟩

end Held

section Placing
variable {K : Keys α} {set : BRSet α} {held : List α} {x y : α}

theorem Holds.some_slot (holds : Holds K set held) : 0 < set.table.length := by
  have below := limit_below _ holds.size
  omega

theorem Holds.mem (holds : Holds K set held) : y ∈ items set.table ↔ y ∈ held :=
  holds.all.mem_iff

/-- A probe ends at the slot of an equal item, or at a free one if there is none. -/
theorem Holds.probe (holds : Holds K set held) (x : α) :
    ∃ k, probe K set x = some (k % set.table.length) ∧ slot set.table k = lookup K held x ∧
      (lookup K held x = none → ∃ d, k = K.hash x + d ∧ Full set.table (K.hash x) d) := by
  rcases lookup_cases K held x with ⟨none_found,fresh⟩ | ⟨y,there,same,found⟩
  · obtain ⟨free,unused⟩ := holds.sound.spare
    obtain ⟨d,sought,here,full⟩ := seek_free
      (fun z inside => fresh z (holds.mem.mp inside)) unused holds.some_slot
    exact ⟨_,sought,here.trans none_found.symm,fun _ => ⟨d,rfl,full⟩⟩
  · obtain ⟨k,here⟩ := mem_items.mp (holds.mem.mpr there)
    refine ⟨k,seek_held holds.sound here same,here.trans found.symm,fun none_found => ?_⟩
    rw [found] at none_found
    cases none_found

/-- `BRSetGet` finds the item that is equal. -/
theorem get_eq (holds : Holds K set held) (x : α) :
    BRSetGet K set x = some (lookup K held x) := by
  obtain ⟨k,sought,here,-⟩ := holds.probe x
  unfold BRSetGet
  rw [sought, ← here]
  rfl

theorem contains_eq (holds : Holds K set held) (x : α) :
    BRSetContains K set x = some (held.any fun y => K.eq y x) := by
  unfold BRSetContains
  rw [get_eq holds, Option.map_some, lookup, List.isSome_find?]

/-- Placing an item keeps the count, and the order of the table unless no slot is left. -/
theorem place_spec (holds : Holds K set held) (x : α) :
    ∃ after, place K set x = some (lookup K held x,after) ∧
      after.table.length = set.table.length ∧
      (items after.table).Perm (insert K held x) ∧
      after.itemCount = (insert K held x).length ∧
      ((insert K held x).length ≤ limit set.table.length → Sound K after.table) := by
  obtain ⟨k,sought,here,free_at⟩ := holds.probe x
  have content : set.table.getD (k % set.table.length) none = lookup K held x := here
  refine ⟨⟨put set.table k (some x),if (lookup K held x).isNone then set.itemCount + 1
    else set.itemCount⟩,?_,put_length,?_,?_,?_⟩
  · unfold place
    rw [sought]
    simp only [Option.bind_eq_bind, Option.bind_some, content]
    rfl
  · have swapped := items_put holds.some_slot k (some x)
    rw [here] at swapped
    rcases lookup_cases K held x with ⟨none_found,fresh⟩ | ⟨y,there,same,found⟩
    · rw [none_found] at swapped
      unfold insert
      rw [remove_fresh fresh]
      exact swapped.trans (holds.all.cons x)
    · rw [found] at swapped
      have split := (holds.all.trans (held_split holds.apart there same)).cons x
      exact ((swapped.trans split).trans (List.Perm.swap y x _)).cons_inv
  · dsimp only
    rcases lookup_cases K held x with ⟨none_found,fresh⟩ | ⟨y,there,same,found⟩
    · rw [none_found, insert, remove_fresh fresh, holds.count]
      rfl
    · rw [found, if_neg (by simp), holds.count, (held_split holds.apart there same).length_eq]
      rfl
  · intro room
    rcases lookup_cases K held x with ⟨none_found,fresh⟩ | ⟨y,there,same,found⟩
    · obtain ⟨d,rfl,full⟩ := free_at none_found
      have others : ∀ z ∈ items set.table, K.eq z x = false :=
        fun z inside => fresh z (holds.mem.mp inside)
      refine sound_put holds.sound others full holds.some_slot (spare_of_few ?_)
      have swapped := (items_put holds.some_slot (K.hash x + d) (some x)).length_eq
      have below := limit_below _ holds.size
      have grown := holds.all.length_eq
      rw [here, none_found] at swapped
      rw [insert, remove_fresh fresh, List.length_cons] at room
      rw [put_length]
      simp only [Option.toList_none, List.nil_append, Option.toList_some, List.length_cons,
        List.singleton_append] at swapped
      omega
    · rw [found] at here
      exact sound_replace holds.sound here same

end Placing

section Growing
variable {K : Keys α} {set : BRSet α} {held held' xs : List α} {x : α}

theorem apart_perm (perm : held.Perm held') (apart : held.Pairwise fun x y => K.eq x y = false) :
    held'.Pairwise fun x y => K.eq x y = false := by
  refine (perm.pairwise_iff ?_).mp apart
  intro x y differs
  by_contra equal
  rw [K.symm (Bool.eq_true_of_not_eq_false equal)] at differs
  cases differs

theorem Holds.perm (holds : Holds K set held) (perm : held.Perm held') : Holds K set held' where
  sound := holds.sound
  all := holds.all.trans perm
  apart := apart_perm perm holds.apart
  count := holds.count.trans perm.length_eq
  size := holds.size
  load := perm.length_eq ▸ holds.load

/-- New items are put in front. -/
theorem foldl_insert (apart : xs.Pairwise fun x y => K.eq x y = false)
    (fresh : ∀ x ∈ xs, ∀ y ∈ held, K.eq y x = false) :
    xs.foldl (insert K) held = xs.reverse ++ held := by
  induction xs generalizing held with
  | nil => rfl
  | cons x xs ih =>
    obtain ⟨first,apart⟩ := List.pairwise_cons.mp apart
    have added : insert K held x = x :: held := by
      rw [insert, remove_fresh (fresh x List.mem_cons_self)]
    rw [List.foldl_cons, added, List.reverse_cons, List.append_assoc, List.singleton_append]
    refine ih apart fun y there z among => ?_
    rcases List.mem_cons.mp among with rfl | before
    · exact first y there
    · exact fresh y (List.mem_cons_of_mem x there) z before

theorem new_holds {size : Nat} (sized : size ∈ tableSizes.tail) :
    Holds K ⟨List.replicate size none,0⟩ [] where
  sound := by
    have empty : ∀ k, slot (List.replicate size (none : Option α)) k = none := by
      intro k
      unfold slot
      rw [List.getD_eq_getElem?_getD, List.getElem?_replicate]
      split <;> rfl
    refine ⟨fun j _ _ _ first => ?_,fun k _ found => ?_,0,empty 0⟩
    · rw [empty j] at first
      cases first
    · rw [empty k] at found
      cases found
  all := by
    unfold items
    rw [List.reduceOption_replicate_none]
  apart := List.Pairwise.nil
  count := rfl
  size := by rwa [List.length_replicate]
  load := Nat.zero_le _

/-- An item is added without growth where the load allows for it. -/
theorem addWithin_room (holds : Holds K set held) (depth : Nat) (x : α)
    (room : (insert K held x).length ≤ limit set.table.length) :
    ∃ after, addWithin K (depth + 1) set x = some (lookup K held x,after) ∧
      Holds K after (insert K held x) ∧ after.table.length = set.table.length := by
  obtain ⟨after,placed,length,all,count,sound⟩ := place_spec holds x
  refine ⟨after,?_,⟨sound room,all,insert_apart holds.apart x,count,?_,?_⟩,length⟩
  · rw [addWithin, placed]
    simp only [Option.bind_eq_bind, Option.bind_some]
    rw [if_neg (by rw [length, count]; exact Nat.not_lt.mpr room)]
  · rw [length]
    exact holds.size
  · rw [length]
    exact room

theorem addWithin_all (holds : Holds K set held) (depth : Nat) (xs : List α)
    (room : held.length + xs.length ≤ limit set.table.length) :
    ∃ after, xs.foldlM (fun set t => (addWithin K (depth + 1) set t).map Prod.snd) set =
        some after ∧ Holds K after (xs.foldl (insert K) held) := by
  induction xs generalizing set held with
  | nil => exact ⟨set,rfl,holds⟩
  | cons x xs ih =>
    rw [List.length_cons] at room
    have longer := insert_length (K := K) held x
    obtain ⟨mid,added,holds,length⟩ := addWithin_room holds depth x (by omega)
    obtain ⟨after,more,holds⟩ := ih holds (by rw [length]; omega)
    refine ⟨after,?_,holds⟩
    rw [List.foldlM_cons, added]
    exact more

/-- `BRSetAdd` adds the item, or puts it in the place of an equal one. -/
theorem add_holds (holds : Holds K set held) (room : held.length < 2609407362) (x : α) :
    ∃ after, BRSetAdd K set x = some (lookup K held x,after) ∧
      Holds K after (insert K held x) := by
  unfold BRSetAdd
  by_cases load : (insert K held x).length ≤ limit set.table.length
  · obtain ⟨after,added,holds,-⟩ := addWithin_room holds 50 x load
    exact ⟨after,added,holds⟩
  · -- the table grows, and all items are put into the next one
    have longer := insert_length (K := K) held x
    have not_last : set.table.length ∈ tableSizes.tail.dropLast := by
      have parts : tableSizes.tail = tableSizes.tail.dropLast ++ [3914111041] := by decide
      have sized := holds.size
      rw [parts] at sized
      rcases List.mem_append.mp sized with earlier | last
      · exact earlier
      · rw [List.mem_singleton.mp last] at load
        have most : limit 3914111041 = 2609407362 := by decide
        omega
    obtain ⟨next,sized,found,more⟩ := size_grows _ not_last
    obtain ⟨placed,done,length,all,count,-⟩ := place_spec holds x
    have grows : limit placed.table.length < placed.itemCount := by
      rw [length, count]
      exact Nat.not_le.mp load
    have fits : ([] : List α).length + placed.table.reduceOption.length ≤
        limit (List.replicate next (none : Option α)).length := by
      have same := all.length_eq
      have before := holds.load
      unfold items at same
      rw [List.length_replicate, List.length_nil, Nat.zero_add, same]
      omega
    obtain ⟨after,grown,holds'⟩ := addWithin_all (new_holds (K := K) sized) 49
      placed.table.reduceOption fits
    have apart := apart_perm all.symm (insert_apart holds.apart x)
    have order : placed.table.reduceOption.foldl (insert K) [] =
        placed.table.reduceOption.reverse :=
      (foldl_insert apart fun _ _ y there => absurd there List.not_mem_nil).trans
        (List.append_nil _)
    rw [order] at holds'
    refine ⟨after,?_,holds'.perm ((List.reverse_perm _).trans all)⟩
    have start : BRSetNew (α := α) placed.table.length = some ⟨List.replicate next none,0⟩ := by
      unfold BRSetNew
      rw [length, found]
      rfl
    change addWithin K (50 + 1) set x = _
    rw [addWithin, done]
    simp only [Option.bind_eq_bind, Option.bind_some]
    rw [if_pos grows, start, Option.bind_some, grown, Option.bind_some]

end Growing

section Removing
variable {K : Keys α} {set : BRSet α} {held : List α} {x : α} {p m fuel : Nat}

/-- The cleanup puts the items of a run in again, up to the free slot behind it. -/
theorem cleanup_spec (opened : Opened K set.table p m) (enough : m < fuel)
    (count : set.itemCount = (items set.table).length)
    (load : set.itemCount ≤ limit set.table.length) :
    ∃ after, cleanup K set.table.length fuel set (p % set.table.length) = some after ∧
      Sound K after.table ∧ (items after.table).Perm (items set.table) ∧
      after.itemCount = set.itemCount ∧ after.table.length = set.table.length := by
  induction fuel generalizing set p m with
  | zero => exact absurd enough (Nat.not_lt_zero m)
  | succ fuel ih =>
    unfold cleanup
    cases m with
    | zero =>
      have free : set.table.getD (p % set.table.length) none = none := opened.free
      rw [free]
      exact ⟨set,rfl,opened.sound,List.Perm.refl _,rfl,rfl⟩
    | succ m =>
      obtain ⟨x,held⟩ := Option.ne_none_iff_exists'.mp (opened.full 0 (Nat.succ_pos m))
      rw [Nat.add_zero] at held
      have some_slot : 0 < set.table.length := length_pos (by rw [held]; exact nofun)
      obtain ⟨d,sought,free,opened'⟩ := opened_step opened held
      have taken := items_put some_slot p none
      have still : 0 < (put set.table p none).length := by rwa [put_length]
      have given := items_put still (K.hash x + d) (some x)
      rw [held] at taken
      rw [free] at given
      have same : (items (put (put set.table p none) (K.hash x + d) (some x))).Perm
          (items set.table) := given.trans taken
      have some_item : 0 < set.itemCount := by
        have fewer := taken.length_eq
        rw [count]
        simp only [Option.toList_some, List.singleton_append, List.length_cons, Option.toList_none,
          List.nil_append] at fewer
        omega
      have added : BRSetAdd K ⟨put set.table p none,set.itemCount - 1⟩ x =
          some (none,⟨put (put set.table p none) (K.hash x + d) (some x),set.itemCount⟩) := by
        change addWithin K (50 + 1) _ x = _
        have probed : probe K ⟨put set.table p none,set.itemCount - 1⟩ x =
            some ((K.hash x + d) % (put set.table p none).length) := by
          unfold probe
          rw [put_length]
          exact sought
        have empty : (put set.table p none).getD
            ((K.hash x + d) % (put set.table p none).length) none = none := free
        unfold addWithin place
        rw [probed]
        simp only [Option.bind_eq_bind, Option.bind_some, empty, Option.isNone_none, if_true]
        rw [if_neg]
        · rw [Nat.sub_add_cancel some_item]
          rfl
        · rw [List.length_set, put_length]
          omega
      have here : set.table.getD (p % set.table.length) none = some x := held
      rw [here]
      have next : (p % set.table.length + 1) % set.table.length = (p + 1) % set.table.length :=
        Nat.mod_add_mod p _ 1
      obtain ⟨after,cleaned,sound,all,kept,length⟩ := @ih
        ⟨put (put set.table p none) (K.hash x + d) (some x),set.itemCount⟩ _ _ opened'
        (Nat.lt_of_succ_lt_succ enough) (count.trans same.length_eq.symm)
        (by rw [put_length, put_length]; exact load)
      rw [put_length, put_length] at cleaned length
      refine ⟨after,?_,sound,all.trans same,kept,length⟩
      change (BRSetAdd K ⟨put set.table p none,set.itemCount - 1⟩ x).bind _ = _
      rw [added, Option.bind_some, next]
      exact cleaned

/-- `BRSetRemove` removes the item that is equal. -/
theorem remove_holds (holds : Holds K set held) (x : α) :
    ∃ after, BRSetRemove K set x = some (lookup K held x,after) ∧
      Holds K after (remove K held x) := by
  obtain ⟨k,sought,here,-⟩ := holds.probe x
  have content : set.table.getD (k % set.table.length) none = lookup K held x := here
  unfold BRSetRemove
  rw [sought]
  simp only [Option.bind_eq_bind, Option.bind_some, content]
  rcases lookup_cases K held x with ⟨none_found,fresh⟩ | ⟨y,there,same,found⟩
  · rw [none_found, remove_fresh fresh]
    exact ⟨set,rfl,holds⟩
  · rw [found]
    rw [found] at here
    obtain ⟨m,few,opened⟩ := opened_take holds.sound here
    have taken := items_put holds.some_slot k none
    have split := held_split holds.apart there same
    have rest : (items (put set.table k none)).Perm (remove K held x) := by
      rw [here] at taken
      exact ((taken.trans holds.all).trans split).cons_inv
    have count : set.itemCount - 1 = (remove K held x).length := by
      rw [holds.count, split.length_eq]
      rfl
    have load : (remove K held x).length ≤ limit set.table.length :=
      (List.length_filter_le _ _).trans holds.load
    obtain ⟨after,cleaned,sound,all,kept,length⟩ := @cleanup_spec α K
      ⟨put set.table k none,set.itemCount - 1⟩ _ _ set.table.length opened few
      (count.trans rest.length_eq.symm) (by rw [count, put_length]; exact load)
    rw [put_length] at cleaned length
    have next : (k % set.table.length + 1) % set.table.length = (k + 1) % set.table.length :=
      Nat.mod_add_mod k _ 1
    refine ⟨after,?_,sound,all.trans rest,holds.apart.filter _,kept.trans count,?_,?_⟩
    · rw [next]
      change (cleanup K set.table.length set.table.length ⟨put set.table k none,_⟩ _).bind _ = _
      rw [cleaned]
      rfl
    · rw [length]
      exact holds.size
    · rw [length]
      exact load

end Removing

/-- What is done to one set -/
inductive Op (α : Type) where
  | add (item : α)
  | remove (item : α)
  | clear
deriving DecidableEq

section Runs
variable {K : Keys α} {set other : BRSet α} {held others : List α} {ops : List (Op α)}

variable (K) in
/-- An operation, with the item that it returns -/
def step (set : BRSet α) : Op α → Option (Option α × BRSet α)
  | .add item => BRSetAdd K set item
  | .remove item => BRSetRemove K set item
  | .clear => some (none,BRSetClear set)

variable (K) in
def run (set : BRSet α) : List (Op α) → Option (List (Option α) × BRSet α)
  | [] => some ([],set)
  | op :: ops => do
    let (answer, set) ← step K set op
    let (answers, set) ← run set ops
    some (answer :: answers,set)

variable (K) in
/-- The same operation on the items themselves -/
def apply (held : List α) : Op α → List α
  | .add item => insert K held item
  | .remove item => remove K held item
  | .clear => []

variable (K) in
def answer (held : List α) : Op α → Option α
  | .add item | .remove item => lookup K held item
  | .clear => none

variable (K) in
def answers (held : List α) : List (Op α) → List (Option α)
  | [] => []
  | op :: ops => answer K held op :: answers (apply K held op) ops

theorem step_holds (holds : Holds K set held) (room : held.length < 2609407362) (op : Op α) :
    ∃ after, step K set op = some (answer K held op,after) ∧ Holds K after (apply K held op) := by
  cases op with
  | add item => exact add_holds holds room item
  | remove item => exact remove_holds holds item
  | clear => exact ⟨_,rfl,new_holds holds.size⟩

theorem apply_length (held : List α) (op : Op α) : (apply K held op).length ≤ held.length + 1 := by
  cases op with
  | add item => exact insert_length held item
  | remove item => exact (List.length_filter_le _ _).trans (Nat.le_succ _)
  | clear => exact Nat.zero_le _

theorem run_holds (holds : Holds K set held) (room : held.length + ops.length ≤ 2609407362) :
    ∃ after, run K set ops = some (answers K held ops,after) ∧
      Holds K after (ops.foldl (apply K) held) := by
  induction ops generalizing set held with
  | nil => exact ⟨set,rfl,holds⟩
  | cons op ops ih =>
    rw [List.length_cons] at room
    have longer := apply_length (K := K) held op
    obtain ⟨mid,first,holds⟩ := step_holds holds (by omega) op
    obtain ⟨after,more,holds⟩ := ih holds (by omega)
    refine ⟨after,?_,holds⟩
    rw [run, first]
    simp only [Option.bind_eq_bind, Option.bind_some]
    rw [more]
    rfl

theorem apply_all_length (ops : List (Op α)) : (ops.foldl (apply K) []).length ≤ ops.length := by
  have from_there : ∀ held, (ops.foldl (apply K) held).length ≤ held.length + ops.length := by
    induction ops with
    | nil => exact fun held => Nat.le_refl _
    | cons op ops ih =>
      intro held
      have longer := apply_length (K := K) held op
      have rest := ih (apply K held op)
      rw [List.foldl_cons, List.length_cons]
      omega
  simpa using from_there []

theorem new_eq {capacity size : Nat} (found : sizeFor capacity = some size) :
    BRSetNew (α := α) capacity = some ⟨List.replicate size none,0⟩ := by
  unfold BRSetNew
  rw [found]
  rfl

end Runs

/-- From a new set on, each run of operations answers as the items themselves do, and leaves a set
    that finds, counts and lists exactly these. -/
theorem set_is_its_items (K : Keys α) {capacity : Nat} (fits : capacity ≤ 2609407319)
    {ops : List (Op α)} (few : ops.length ≤ 2609407362) :
    ∃ set after, BRSetNew capacity = some set ∧
      run K set ops = some (answers K [] ops,after) ∧
      (∀ item, BRSetGet K after item = some (lookup K (ops.foldl (apply K) []) item)) ∧
      after.itemCount = (ops.foldl (apply K) []).length ∧
      (BRSetAll after).Perm (ops.foldl (apply K) []) := by
  obtain ⟨size,sized,found⟩ := sizeFor_some fits
  obtain ⟨after,ran,holds⟩ := @run_holds α K _ [] ops (new_holds sized) (by simpa using few)
  exact ⟨_,after,new_eq found,ran,get_eq holds,holds.count,holds.all⟩

section Algebra
variable {K : Keys α} {set other : BRSet α} {held held' xs : List α} {x y item : α}

theorem lookup_some (apart : held.Pairwise fun x y => K.eq x y = false) :
    lookup K held item = some y ↔ y ∈ held ∧ K.eq y item = true := by
  constructor
  · exact fun found => ⟨List.mem_of_find?_eq_some found,
      (List.find?_eq_some_iff_append.mp found).1⟩
  · rintro ⟨there,same⟩
    rcases lookup_cases K held item with ⟨-,fresh⟩ | ⟨z,inside,equal,found⟩
    · rw [fresh y there] at same
      cases same
    · rw [found]
      rcases List.mem_cons.mp ((held_split apart inside equal).mem_iff.mp there) with rfl | other
      · rfl
      · rw [(mem_remove.mp other).2] at same
        cases same

theorem lookup_perm (apart : held.Pairwise fun x y => K.eq x y = false) (perm : held.Perm held')
    (item : α) : lookup K held item = lookup K held' item := by
  refine Option.ext fun y => ?_
  rw [lookup_some apart, lookup_some (apart_perm perm apart), perm.mem_iff]

theorem lookup_remove (held : List α) (x item : α) :
    lookup K (remove K held x) item = if K.eq x item then none else lookup K held item := by
  unfold lookup remove
  rw [List.find?_filter]
  split
  case isTrue same =>
    refine List.find?_eq_none.mpr fun y there => ?_
    cases equal : K.eq y item with
    | false => simp
    | true =>
      rw [K.trans equal (K.symm same)]
      simp
  case isFalse differs =>
    refine congrArg (fun p => List.find? p held) (funext fun y => ?_)
    cases equal : K.eq y item with
    | false => simp
    | true =>
      have apart : K.eq y x = false := by
        by_contra same
        exact differs (K.trans (K.symm (Bool.eq_true_of_not_eq_false same)) equal)
      rw [apart]
      rfl

theorem lookup_insert (held : List α) (x item : α) :
    lookup K (insert K held x) item = if K.eq x item then some x else lookup K held item := by
  unfold insert
  rw [lookup, List.find?_cons]
  cases same : K.eq x item with
  | true => rfl
  | false =>
    have rest := lookup_remove (K := K) held x item
    rw [same] at rest
    exact rest

theorem lookup_inserted (apart : xs.Pairwise fun x y => K.eq x y = false) (held : List α)
    (item : α) : lookup K (xs.foldl (insert K) held) item =
      (lookup K xs item).or (lookup K held item) := by
  induction xs generalizing held with
  | nil => rfl
  | cons x xs ih =>
    obtain ⟨first,apart⟩ := List.pairwise_cons.mp apart
    rw [List.foldl_cons, ih apart, lookup_insert]
    unfold lookup
    rw [List.find?_cons]
    cases same : K.eq x item with
    | false => rfl
    | true =>
      have none_later : xs.find? (fun y => K.eq y item) = none := by
        refine List.find?_eq_none.mpr fun y there equal => ?_
        have twice := K.trans same (K.symm equal)
        rw [first y there] at twice
        cases twice
      rw [none_later]
      rfl

theorem lookup_removed (xs held : List α) (item : α) :
    lookup K (xs.foldl (remove K) held) item =
      if xs.any (fun x => K.eq x item) then none else lookup K held item := by
  induction xs generalizing held with
  | nil => rfl
  | cons x xs ih =>
    rw [List.foldl_cons, ih, lookup_remove, List.any_cons]
    cases K.eq x item with
    | false => rfl
    | true =>
      rw [Bool.true_or]
      exact ite_self none

/-- `BRSetUnion` adds all items of the other set. -/
theorem union_holds (holds : Holds K set held)
    (room : held.length + (BRSetAll other).length ≤ 2609407362) :
    ∃ after, BRSetUnion K set other = some after ∧
      Holds K after ((BRSetAll other).foldl (insert K) held) := by
  unfold BRSetUnion
  generalize BRSetAll other = xs at room ⊢
  induction xs generalizing set held with
  | nil => exact ⟨set,rfl,holds⟩
  | cons x xs ih =>
    rw [List.length_cons] at room
    have longer := insert_length (K := K) held x
    obtain ⟨mid,added,holds⟩ := add_holds holds (by omega) x
    obtain ⟨after,more,holds⟩ := ih holds (by omega)
    refine ⟨after,?_,holds⟩
    rw [List.foldlM_cons, added]
    exact more

/-- `BRSetMinus` removes all items of the other set. -/
theorem minus_holds (holds : Holds K set held) (other : BRSet α) :
    ∃ after, BRSetMinus K set other = some after ∧
      Holds K after ((BRSetAll other).foldl (remove K) held) := by
  unfold BRSetMinus
  generalize BRSetAll other = xs
  induction xs generalizing set held with
  | nil => exact ⟨set,rfl,holds⟩
  | cons x xs ih =>
    obtain ⟨mid,removed,holds⟩ := remove_holds holds x
    obtain ⟨after,more,holds⟩ := ih holds
    refine ⟨after,?_,holds⟩
    rw [List.foldlM_cons, removed]
    exact more

/-- `BRSetIntersects` tells whether an item of the other set has an equal one. -/
theorem intersects_eq (holds : Holds K set held) (other : BRSet α) :
    BRSetIntersects K set other =
      some ((BRSetAll other).any fun t => held.any fun y => K.eq y t) := by
  unfold BRSetIntersects
  have from_there : ∀ (xs : List α) (found : Bool),
      xs.foldlM (fun found t => if found then some true else BRSetContains K set t) found =
        some (found || xs.any fun t => held.any fun y => K.eq y t) := by
    intro xs
    induction xs with
    | nil =>
      intro found
      rw [List.any_nil, Bool.or_false]
      rfl
    | cons t xs ih =>
      intro found
      rw [List.foldlM_cons, contains_eq holds, List.any_cons]
      cases found with
      | true => exact ih true
      | false => exact ih (held.any fun y => K.eq y t)
  exact from_there _ false

/-- From an item `BRSetIterate` goes on to the one behind it. -/
theorem iterate_next (holds : Holds K set held) {before after : List α}
    (parts : BRSetAll set = before ++ x :: after) :
    BRSetIterate K set (some x) = some after.head? := by
  have there : x ∈ items set.table := by
    change x ∈ BRSetAll set
    rw [parts]
    exact List.mem_append_right _ List.mem_cons_self
  obtain ⟨k,here⟩ := mem_items.mp there
  have sought : probe K set x = some (k % set.table.length) :=
    seek_held holds.sound here (K.refl x)
  have inside : k % set.table.length < set.table.length := Nat.mod_lt k holds.some_slot
  have split : BRSetAll set = (set.table.take (k % set.table.length)).reduceOption ++
      x :: (set.table.drop (k % set.table.length + 1)).reduceOption := by
    have same := items_parts inside (slot set.table k)
    have held : slot set.table k = set.table[k % set.table.length] :=
      List.getD_eq_getElem _ _ inside
    rw [here] at same held
    rw [held, List.set_getElem_self] at same
    rw [← held] at same
    exact same
  have once : (BRSetAll set).Nodup := by
    refine (apart_perm holds.all.symm holds.apart).imp fun {y z} differs same => ?_
    rw [same, K.refl] at differs
    cases differs
  have ends : after = (set.table.drop (k % set.table.length + 1)).reduceOption := by
    rw [parts] at once
    exact ((List.append_cons_inj_of_notMem
      (fun inside => (List.nodup_append.mp once).2.2 x inside x List.mem_cons_self rfl)
      (List.nodup_cons.mp (List.nodup_append.mp once).2.1).1).mp (parts.symm.trans split)).2.2
  unfold BRSetIterate
  simp only [Option.bind_eq_bind]
  rw [sought, Option.map_some, Option.bind_some, ← ends]

end Algebra

/-- Two sets that come from runs of operations: their union, what is left of one without the other,
    and whether they meet, are those of their items; and a walk over a set meets each item once. -/
theorem set_algebra (K : Keys α) {capacity capacity' : Nat} (fits : capacity ≤ 2609407319)
    (fits' : capacity' ≤ 2609407319) {ops ops' : List (Op α)}
    (few : ops.length + ops'.length ≤ 2609407362) :
    ∃ new new' set other union rest, BRSetNew capacity = some new ∧
      BRSetNew capacity' = some new' ∧ run K new ops = some (answers K [] ops,set) ∧
      run K new' ops' = some (answers K [] ops',other) ∧
      BRSetUnion K set other = some union ∧ BRSetMinus K set other = some rest ∧
      (∀ item, BRSetGet K union item = some ((lookup K (ops'.foldl (apply K) []) item).or
        (lookup K (ops.foldl (apply K) []) item))) ∧
      (∀ item, BRSetGet K rest item = some (if (lookup K (ops'.foldl (apply K) []) item).isSome
        then none else lookup K (ops.foldl (apply K) []) item)) ∧
      (∃ meets, BRSetIntersects K set other = some meets ∧ (meets = true ↔
        ∃ x ∈ ops'.foldl (apply K) [], (lookup K (ops.foldl (apply K) []) x).isSome)) ∧
      BRSetIterate K set none = some (BRSetAll set).head? ∧
      ∀ before x after, BRSetAll set = before ++ x :: after →
        BRSetIterate K set (some x) = some after.head? := by
  obtain ⟨size,sized,found⟩ := sizeFor_some fits
  obtain ⟨size',sized',found'⟩ := sizeFor_some fits'
  obtain ⟨set,ran,holds⟩ := @run_holds α K _ [] ops (new_holds sized)
    (by rw [List.length_nil]; omega)
  obtain ⟨other,ran',holds'⟩ := @run_holds α K _ [] ops' (new_holds sized')
    (by rw [List.length_nil]; omega)
  have length := apply_all_length (K := K) ops
  have length' := apply_all_length (K := K) ops'
  have listed : (BRSetAll other).Perm (ops'.foldl (apply K) []) := holds'.all
  have apart : (BRSetAll other).Pairwise fun x y => K.eq x y = false :=
    apart_perm listed.symm holds'.apart
  have room : (ops.foldl (apply K) []).length + (BRSetAll other).length ≤ 2609407362 := by
    rw [listed.length_eq]
    omega
  obtain ⟨union,united,holds_union⟩ := union_holds holds room
  obtain ⟨rest,taken,holds_rest⟩ := minus_holds holds other
  refine ⟨_,_,set,other,union,rest,new_eq found,new_eq found',ran,ran',united,taken,fun item => ?_,
    fun item => ?_,⟨_,intersects_eq holds other,?_⟩,rfl,
    fun before x after parts => iterate_next holds parts⟩
  · rw [get_eq holds_union, lookup_inserted apart, lookup_perm apart listed]
  · have met : (lookup K (ops'.foldl (apply K) []) item).isSome =
        (BRSetAll other).any fun x => K.eq x item := by
      rw [← lookup_perm apart listed, lookup, List.isSome_find?]
    rw [get_eq holds_rest, lookup_removed, met]
  · rw [List.any_eq_true]
    simp only [lookup, List.isSome_find?, listed.mem_iff]

/-- Numbers that are equal if their last digit is, hashed by this digit -/
def lastDigit : Keys Nat where
  hash n := n % 10
  eq m n := m % 10 == n % 10
  refl n := beq_self_eq_true _
  symm same := by rw [beq_iff_eq] at same ⊢; exact same.symm
  trans first second := by rw [beq_iff_eq] at first second ⊢; exact first.trans second
  hash_eq same := beq_iff_eq.mp same

/-- Four numbers are added, more than the first table holds, and one is removed. -/
theorem grown_set_finds :
    ∃ set after, BRSetNew (α := Nat) 0 = some set ∧
      run lastDigit set [.add 12, .add 2, .add 5, .add 7, .remove 25] =
        some ([none, some 12, none, none, some 5],after) ∧
      BRSetGet lastDigit after 22 = some (some 2) ∧ after.itemCount = 2 := by
  obtain ⟨set,after,made,ran,found,count,-⟩ := @set_is_its_items Nat lastDigit 0
    (by decide) [.add 12, .add 2, .add 5, .add 7, .remove 25] (by decide)
  exact ⟨set,after,made,ran,found 22,count⟩

/-- Of two sets of numbers, one takes over the other's equal number, or loses its own. -/
theorem united_sets_find :
    ∃ new new' set other union rest, BRSetNew (α := Nat) 0 = some new ∧
      BRSetNew 20 = some new' ∧ run lastDigit new [.add 12, .add 5] = some ([none, none],set) ∧
      run lastDigit new' [.add 7, .add 32] = some ([none, none],other) ∧
      BRSetUnion lastDigit set other = some union ∧ BRSetMinus lastDigit set other = some rest ∧
      BRSetGet lastDigit union 2 = some (some 32) ∧ BRSetGet lastDigit rest 2 = some none := by
  obtain ⟨new,new',set,other,union,rest,made,made',ran,ran',united,taken,of_union,of_rest,-⟩ :=
    @set_algebra Nat lastDigit 0 20 (by decide) (by decide) [.add 12, .add 5] [.add 7, .add 32]
      (by decide)
  exact ⟨new,new',set,other,union,rest,made,made',ran,ran',united,taken,of_union 2,of_rest 2⟩

end BRSets
