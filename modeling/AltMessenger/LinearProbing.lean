import Mathlib.Data.List.ReduceOption
import Mathlib.Data.List.GetD
import Mathlib.Data.Nat.Find
import Mathlib.Data.Nat.ModEq
import Mathlib.Data.List.Perm.Basic

/-!
Hash tables with linear probing. An item lies at its home or behind it, and no slot between the two
is free; behind the last slot comes the first again, so that places are counted on without end.
-/
namespace LinearProbing

variable {α : Type}

/-- What a table has to know of its items: which are equal, and a number that equal ones share. -/
structure Keys (α : Type) where
  hash : α → Nat
  eq : α → α → Bool
  refl : ∀ x, eq x x = true
  symm : ∀ {x y}, eq x y = true → eq y x = true
  trans : ∀ {x y z}, eq x y = true → eq y z = true → eq x z = true
  hash_eq : ∀ {x y}, eq x y = true → hash x = hash y

abbrev Slots (α : Type) := List (Option α)

/-- The slot at a place -/
def slot (table : Slots α) (k : Nat) : Option α := table.getD (k % table.length) none

/-- Places of the same slot -/
def Same (table : Slots α) (j k : Nat) : Prop := j % table.length = k % table.length

/-- No slot is free on so many steps from a place. -/
def Full (table : Slots α) (start steps : Nat) : Prop := ∀ e < steps, slot table (start + e) ≠ none

/-- The place can be come to from the home of an item. -/
def Reached (K : Keys α) (table : Slots α) (item : α) (k : Nat) : Prop :=
  ∃ d, Same table (K.hash item + d) k ∧ Full table (K.hash item) d

/-- From a slot on, the first that is free or holds an equal item. -/
def seek (K : Keys α) (table : Slots α) (item : α) : Nat → Nat → Option Nat
  | 0, _ => none
  | fuel + 1, i =>
    match table.getD i none with
    | none => some i
    | some t => if K.eq t item then some i else seek K table item fuel ((i + 1) % table.length)

def items (table : Slots α) : List α := table.reduceOption

def Distinct (K : Keys α) (table : Slots α) : Prop :=
  ∀ j k x y, slot table j = some x → slot table k = some y → K.eq x y = true → Same table j k

/-- No item is there twice, all are found, and a slot is free. -/
structure Sound (K : Keys α) (table : Slots α) : Prop where
  distinct : Distinct K table
  reached : ∀ k x, slot table k = some x → Reached K table x k
  spare : ∃ k, slot table k = none

section Places
variable {table : Slots α} {x : Option α} {j k m : Nat}

theorem length_pos (held : slot table k ≠ none) : 0 < table.length := by
  by_contra none_there
  have empty : table = [] := List.length_eq_zero_iff.mp (by omega)
  rw [empty] at held
  exact held rfl

theorem same_add (same : Same table j k) (e : Nat) : Same table (j + e) (k + e) :=
  Nat.ModEq.add_right e same

theorem slot_same (same : Same table j k) : slot table j = slot table k := by
  unfold slot
  rw [same]

/-- Steps fewer than there are slots do not lead to the same slot. -/
theorem same_few {e : Nat} (few : e < table.length) (same : Same table (k + e) k) : e = 0 := by
  have divides : (k + 0) ≡ k + e [MOD table.length] := same.symm
  have zero := Nat.ModEq.add_left_cancel' k divides
  exact (Nat.ModEq.eq_of_lt_of_lt zero (by omega) few).symm

/-- Each slot is come to from each place. -/
theorem distance (some_slot : 0 < table.length) (start k : Nat) :
    ∃ d < table.length, Same table (start + d) k := by
  have below := Nat.mod_lt start some_slot
  refine ⟨(k + (table.length - start % table.length)) % table.length,Nat.mod_lt _ some_slot,?_⟩
  have whole : start % table.length + (k + (table.length - start % table.length)) =
      k + table.length := by omega
  calc (start + (k + (table.length - start % table.length)) % table.length) % table.length
    _ = (start % table.length + (k + (table.length - start % table.length))) % table.length := by
      rw [Nat.add_mod_mod, Nat.mod_add_mod]
    _ = k % table.length := by rw [whole, Nat.add_mod_right]

/-- From each place a free slot is come to, and none before it is free. -/
theorem first_free (free : slot table k = none) (some_slot : 0 < table.length) (start : Nat) :
    ∃ d < table.length, slot table (start + d) = none ∧ Full table start d := by
  obtain ⟨far,few,there⟩ := distance some_slot start k
  have found : ∃ d, slot table (start + d) = none := ⟨far,(slot_same there).trans free⟩
  classical
  refine ⟨Nat.find found,?_,Nat.find_spec found,fun e below => Nat.find_min found below⟩
  exact Nat.lt_of_le_of_lt (Nat.find_min' found ((slot_same there).trans free)) few

/-- Fewer slots follow each other that are not free than there are slots. -/
theorem full_few (free : slot table k = none) (some_slot : 0 < table.length)
    (full : Full table j m) : m < table.length := by
  by_contra many
  obtain ⟨d,few,there⟩ := distance some_slot j k
  exact full d (by omega) ((slot_same there).trans free)

theorem mem_items {a : α} : a ∈ items table ↔ ∃ k, slot table k = some a := by
  unfold items
  rw [List.reduceOption_mem_iff]
  constructor
  · intro there
    obtain ⟨k,inside,found⟩ := List.getElem_of_mem there
    refine ⟨k,?_⟩
    unfold slot
    rw [Nat.mod_eq_of_lt inside, List.getD_eq_getElem _ _ inside, found]
  · rintro ⟨k,found⟩
    have inside : k % table.length < table.length :=
      Nat.mod_lt k (length_pos (by rw [found]; exact nofun))
    unfold slot at found
    rw [List.getD_eq_getElem _ _ inside] at found
    rw [← found]
    exact List.getElem_mem inside

/-- A slot is free if there are fewer items than slots. -/
theorem spare_of_few (few : (items table).length < table.length) : ∃ k, slot table k = none := by
  obtain ⟨k,inside,free⟩ := List.getElem_of_mem (List.reduceOption_length_lt_iff.mp few)
  refine ⟨k,?_⟩
  unfold slot
  rw [Nat.mod_eq_of_lt inside]
  exact (List.getD_eq_getElem _ _ inside).trans free

end Places

section Set
variable {table : Slots α} {x : Option α} {j k : Nat}

/-- The table with another content of the slot at a place -/
def put (table : Slots α) (k : Nat) (x : Option α) : Slots α := table.set (k % table.length) x

@[simp] theorem put_length : (put table k x).length = table.length := List.length_set

theorem same_put {i : Nat} : Same (put table i x) j k ↔ Same table j k := by
  unfold Same
  rw [put_length]

theorem slot_put_same (some_slot : 0 < table.length) (same : Same table k j) :
    slot (put table j x) k = x := by
  unfold slot put
  rw [List.length_set, same, List.getD_eq_getElem?_getD,
    List.getElem?_set_self (Nat.mod_lt j some_slot)]
  rfl

theorem slot_put_other (other : ¬ Same table k j) : slot (put table j x) k = slot table k := by
  unfold slot put
  rw [List.length_set, List.getD_eq_getElem?_getD, List.getD_eq_getElem?_getD,
    List.getElem?_set_ne fun same => other same.symm]

theorem items_parts {i : Nat} (inside : i < table.length) (y : Option α) :
    items (table.set i y) =
      items (table.take i) ++ (y.toList ++ items (table.drop (i + 1))) := by
  unfold items
  rw [List.set_eq_take_append_cons_drop, if_pos inside, List.reduceOption_append]
  cases y with
  | none => rfl
  | some y => rfl

/-- What was in the slot makes room for what comes. -/
theorem items_put (some_slot : 0 < table.length) (k : Nat) (x : Option α) :
    ((slot table k).toList ++ items (put table k x)).Perm (x.toList ++ items table) := by
  have inside : k % table.length < table.length := Nat.mod_lt k some_slot
  have held : slot table k = table[k % table.length] := List.getD_eq_getElem _ _ inside
  have before := items_parts inside table[k % table.length]
  rw [List.set_getElem_self] at before
  unfold put
  rw [items_parts inside x, before, held]
  generalize (table[k % table.length]).toList = old
  generalize items (table.take (k % table.length)) = front
  generalize items (table.drop (k % table.length + 1)) = back
  calc old ++ (front ++ (x.toList ++ back))
    _ = (old ++ front) ++ (x.toList ++ back) := (List.append_assoc _ _ _).symm
    _ |>.Perm (x.toList ++ ((old ++ front) ++ back)) := List.perm_append_comm_assoc _ _ _
    _ |>.Perm (x.toList ++ (front ++ (old ++ back))) := by
      rw [List.append_assoc]
      exact (List.perm_append_comm_assoc _ _ _).append_left _

end Set

section Seeking
variable {K : Keys α} {table : Slots α} {item x : α} {k start d fuel : Nat}

/-- Seeking ends at the first slot that is free or holds an equal item. -/
theorem seek_found (passed : ∀ e < d, ∃ t, slot table (start + e) = some t ∧ K.eq t item = false)
    (ends : ∀ t, slot table (start + d) = some t → K.eq t item = true) (enough : d < fuel) :
    seek K table item fuel (start % table.length) = some ((start + d) % table.length) := by
  induction fuel generalizing start d with
  | zero => exact absurd enough (Nat.not_lt_zero d)
  | succ fuel ih =>
    rw [seek]
    change (match slot table start with
      | none => _
      | some t => _) = _
    cases d with
    | zero =>
      cases here : slot table start with
      | none => rfl
      | some t => exact if_pos (ends t here)
    | succ d =>
      obtain ⟨t,here,differs⟩ := passed 0 (Nat.succ_pos d)
      rw [Nat.add_zero] at here
      rw [here]
      dsimp only
      rw [if_neg (Bool.eq_false_iff.mp differs), Nat.mod_add_mod]
      have further : start + (d + 1) = start + 1 + d := by omega
      rw [further]
      refine ih (fun e below => ?_) (fun t there => ?_) (Nat.lt_of_succ_lt_succ enough)
      · have next := passed (e + 1) (Nat.succ_lt_succ below)
        rwa [Nat.add_comm e 1, ← Nat.add_assoc] at next
      · rw [further] at ends
        exact ends t there

/-- An item that is held is found where it is. -/
theorem seek_held (sound : Sound K table) (held : slot table k = some x)
    (same : K.eq x item = true) :
    seek K table item table.length (K.hash item % table.length) = some (k % table.length) := by
  have some_slot : 0 < table.length := length_pos (by rw [held]; exact nofun)
  obtain ⟨d,there,full⟩ := sound.reached k x held
  obtain ⟨free,unused⟩ := sound.spare
  have few := full_few unused some_slot full
  rw [K.hash_eq same] at there full
  rw [← there]
  refine seek_found (fun e below => ?_) (fun t found => ?_) few
  · obtain ⟨t,found⟩ := Option.ne_none_iff_exists'.mp (full e below)
    refine ⟨t,found,?_⟩
    by_contra equal
    -- an equal item on the way would be at the same place
    have twice := sound.distinct _ _ t x found held
      (K.trans (Bool.eq_true_of_not_eq_false equal) (K.symm same))
    have back : Same table (K.hash item + e + (d - e)) (K.hash item + e) := by
      have whole : K.hash item + e + (d - e) = K.hash item + d := by omega
      rw [whole]
      exact there.trans twice.symm
    have none_left := same_few (by omega) back
    omega
  · rw [slot_same there, held] at found
    cases found
    exact same

/-- An item with no equal one in the table is sought up to a free slot. -/
theorem seek_free (fresh : ∀ x ∈ items table, K.eq x item = false) (free : slot table k = none)
    (some_slot : 0 < table.length) :
    ∃ d, seek K table item table.length (K.hash item % table.length) =
        some ((K.hash item + d) % table.length) ∧
      slot table (K.hash item + d) = none ∧ Full table (K.hash item) d := by
  obtain ⟨d,few,unused,full⟩ := first_free free some_slot (K.hash item)
  refine ⟨d,seek_found (fun e below => ?_) (fun t there => ?_) few,unused,full⟩
  · obtain ⟨t,there⟩ := Option.ne_none_iff_exists'.mp (full e below)
    exact ⟨t,there,fresh t (mem_items.mpr ⟨_,there⟩)⟩
  · rw [unused] at there
    cases there

end Seeking

section Changes
variable {K : Keys α} {table : Slots α} {item x y : α} {j k p m d : Nat}

theorem full_put (some_slot : 0 < table.length) (full : Full table p m) (x : α) :
    Full (put table j (some x)) p m := by
  intro e below
  by_cases there : Same table (p + e) j
  · rw [slot_put_same some_slot there]
    exact nofun
  · rw [slot_put_other there]
    exact full e below

theorem reached_put (some_slot : 0 < table.length) (reached : Reached K table y k) (x : α) :
    Reached K (put table j (some x)) y k := by
  obtain ⟨d,there,full⟩ := reached
  exact ⟨d,same_put.mpr there,full_put some_slot full x⟩

/-- An item takes the place of an equal one. -/
theorem sound_replace (sound : Sound K table) (held : slot table j = some y)
    (same : K.eq y x = true) : Sound K (put table j (some x)) := by
  have some_slot : 0 < table.length := length_pos (by rw [held]; exact nofun)
  -- each slot holds what it held, or an equal item
  have before : ∀ k z, slot (put table j (some x)) k = some z →
      ∃ w, slot table k = some w ∧ K.eq z w = true ∧ K.hash z = K.hash w := by
    intro k z found
    by_cases there : Same table k j
    · rw [slot_put_same some_slot there] at found
      cases found
      exact ⟨y,(slot_same there).trans held,K.symm same,K.hash_eq (K.symm same)⟩
    · rw [slot_put_other there] at found
      exact ⟨z,found,K.refl z,rfl⟩
  refine ⟨?_,?_,?_⟩
  · intro i k z z' first second equal
    obtain ⟨w,found,is_w,-⟩ := before i z first
    obtain ⟨w',found',is_w',-⟩ := before k z' second
    exact same_put.mpr (sound.distinct i k w w' found found'
      (K.trans (K.symm is_w) (K.trans equal is_w')))
  · intro k z found
    obtain ⟨w,found,-,hash⟩ := before k z found
    obtain ⟨d,there,full⟩ := reached_put some_slot (sound.reached k w found) x
    rw [← hash] at there full
    exact ⟨d,there,full⟩
  · obtain ⟨free,unused⟩ := sound.spare
    refine ⟨free,?_⟩
    rw [slot_put_other fun there => ?_]
    · exact unused
    · rw [slot_same there, held] at unused
      cases unused

/-- An item with no equal one comes to the free slot that was found for it. -/
theorem distinct_put (distinct : Distinct K table) (fresh : ∀ y ∈ items table, K.eq y x = false)
    (some_slot : 0 < table.length) (j : Nat) : Distinct K (put table j (some x)) := by
  intro i k z z' first second equal
  rw [same_put]
  by_cases at_i : Same table i j
  · by_cases at_k : Same table k j
    · exact at_i.trans at_k.symm
    · rw [slot_put_same some_slot at_i] at first
      rw [slot_put_other at_k] at second
      cases first
      have differs := fresh z' (mem_items.mpr ⟨k,second⟩)
      rw [K.symm equal] at differs
      cases differs
  · rw [slot_put_other at_i] at first
    by_cases at_k : Same table k j
    · rw [slot_put_same some_slot at_k] at second
      cases second
      have differs := fresh z (mem_items.mpr ⟨i,first⟩)
      rw [equal] at differs
      cases differs
    · rw [slot_put_other at_k] at second
      exact distinct i k z z' first second equal

theorem sound_put (sound : Sound K table) (fresh : ∀ y ∈ items table, K.eq y x = false)
    (full : Full table (K.hash x) d) (some_slot : 0 < table.length)
    (spare : ∃ k, slot (put table (K.hash x + d) (some x)) k = none) :
    Sound K (put table (K.hash x + d) (some x)) := by
  refine ⟨distinct_put sound.distinct fresh some_slot _,?_,spare⟩
  intro k z found
  by_cases there : Same table k (K.hash x + d)
  · rw [slot_put_same some_slot there] at found
    cases found
    exact ⟨d,same_put.mpr there.symm,full_put some_slot full x⟩
  · rw [slot_put_other there] at found
    exact reached_put some_slot (sound.reached k z found) x

/-- A table in which a run of items, from a place on up to a free slot, waits for being put in
    again: all others are found, and those of the run have their homes behind that slot. -/
structure Opened (K : Keys α) (table : Slots α) (p m : Nat) : Prop where
  distinct : Distinct K table
  free : slot table (p + m) = none
  full : Full table p m
  reached : ∀ k x, slot table k = some x → (∀ e < m, ¬ Same table k (p + e)) → Reached K table x k
  waiting : ∀ e < m, ∀ x, slot table (p + e) = some x →
    ∃ d, Same table (K.hash x + d) (p + e) ∧ ∀ c < d, ¬ Same table (K.hash x + c) (p + m)

theorem Opened.sound (opened : Opened K table p 0) : Sound K table :=
  ⟨opened.distinct,fun k x found => opened.reached k x found fun e below =>
    absurd below (Nat.not_lt_zero e),_,opened.free⟩

/-- What was taken out leaves the others as they were. -/
theorem distinct_take (distinct : Distinct K table) (j : Nat) : Distinct K (put table j none) := by
  have before : ∀ k z, slot (put table j none) k = some z → slot table k = some z := by
    intro k z found
    by_cases there : Same table k j
    · have some_slot : 0 < table.length := by
        have held : slot (put table j none) k ≠ none := by
          rw [found]
          exact nofun
        simpa only [put_length] using length_pos held
      rw [slot_put_same some_slot there] at found
      cases found
    · rwa [slot_put_other there] at found
  intro i k z z' first second equal
  exact same_put.mpr (distinct i k z z' (before i z first) (before k z' second) equal)

/-- A way that stops outside a run does not lead through the place before it. -/
theorem way_around (free : slot table (p + m) = none) (way : Full table (K.hash x) d)
    (there : Same table (K.hash x + d) k) (held : slot table k ≠ none)
    (outside : ∀ e < m, ¬ Same table k (p + e)) :
    ∀ c ≤ d, ¬ Same table (K.hash x + c) p := by
  intro c upto through
  -- all places from there on hold items, so that the way stops inside the run
  have on : ∀ e, Same table (K.hash x + (c + e)) (p + e) := by
    intro e
    rw [← Nat.add_assoc]
    exact same_add through e
  have last : Same table k (p + (d - c)) := by
    have step := on (d - c)
    rw [Nat.add_sub_cancel' upto] at step
    exact there.symm.trans step
  by_cases short : d - c < m
  · exact outside _ short last
  · by_cases exact_end : d - c = m
    · rw [exact_end] at last
      exact held ((slot_same last).trans free)
    · have passed := way (c + m) (by omega)
      exact passed ((slot_same (on m)).trans free)

/-- Taking out an item opens the table for those behind it. -/
theorem opened_take (sound : Sound K table) (held : slot table j = some x) :
    ∃ m < table.length, Opened K (put table j none) (j + 1) m := by
  have some_slot : 0 < table.length := length_pos (by rw [held]; exact nofun)
  obtain ⟨spare,unused⟩ := sound.spare
  obtain ⟨m,few,free,full⟩ := first_free unused some_slot (j + 1)
  have other : ∀ e ≤ m, ¬ Same table (j + 1 + e) j := by
    intro e upto same
    rw [Nat.add_assoc] at same
    have whole : 1 + e = table.length := by
      by_contra short
      have none_left := same_few (by omega) same
      omega
    have last : e = m := by omega
    rw [← last, Nat.add_assoc, slot_same same, held] at free
    cases free
  have kept : ∀ k, ¬ Same table k j → slot (put table j none) k = slot table k :=
    fun k there => slot_put_other there
  refine ⟨m,few,distinct_take sound.distinct j,?_,?_,?_,?_⟩
  · rw [kept _ (other m (le_refl m))]
    exact free
  · intro e below
    rw [kept _ (other e (Nat.le_of_lt below))]
    exact full e below
  · intro k y found outside
    have away : ¬ Same table k j := by
      intro there
      rw [slot_put_same some_slot there] at found
      cases found
    rw [kept k away] at found
    obtain ⟨d,there,way⟩ := sound.reached k y found
    have behind : slot table (j + (m + 1)) = none := by
      rwa [Nat.add_comm m 1, ← Nat.add_assoc]
    have around := way_around behind way there (by rw [found]; exact nofun) (fun e below => by
      cases e with
      | zero => exact away
      | succ e =>
        rw [Nat.add_comm e 1, ← Nat.add_assoc, ← same_put]
        exact outside e (by omega))
    refine ⟨d,same_put.mpr there,fun c below => ?_⟩
    rw [kept _ (around c (Nat.le_of_lt below))]
    exact way c below
  · intro e below y found
    rw [kept _ (other e (Nat.le_of_lt below))] at found
    obtain ⟨d,there,way⟩ := sound.reached _ y found
    refine ⟨d,same_put.mpr there,fun c less through => ?_⟩
    exact way c less ((slot_same (same_put.mp through)).trans free)

/-- The first item of the run is put in again. -/
theorem opened_step (opened : Opened K table p (m + 1)) (held : slot table p = some x) :
    ∃ d, seek K (put table p none) x table.length (K.hash x % table.length) =
        some ((K.hash x + d) % table.length) ∧
      slot (put table p none) (K.hash x + d) = none ∧
      Opened K (put (put table p none) (K.hash x + d) (some x)) (p + 1) m := by
  have some_slot : 0 < table.length := length_pos (by rw [held]; exact nofun)
  have some_left : 0 < (put table p none).length := by rwa [put_length]
  obtain ⟨way,home,avoids⟩ := opened.waiting 0 (Nat.succ_pos m) x (by rwa [Nat.add_zero])
  rw [Nat.add_zero] at home
  have emptied : slot (put table p none) (K.hash x + way) = none :=
    slot_put_same some_slot home
  have kept : ∀ k, ¬ Same table k p → slot (put table p none) k = slot table k :=
    fun k there => slot_put_other there
  have taken : ∀ k y, slot (put table p none) k = some y →
      ¬ Same table k p ∧ slot table k = some y := by
    intro k y found
    by_cases there : Same table k p
    · rw [slot_put_same some_slot there] at found
      cases found
    · rw [kept k there] at found
      exact ⟨there,found⟩
  have fresh : ∀ y ∈ items (put table p none), K.eq y x = false := by
    intro y there
    obtain ⟨k,found⟩ := mem_items.mp there
    obtain ⟨away,found⟩ := taken k y found
    by_contra equal
    exact away (opened.distinct k p y x found held (Bool.eq_true_of_not_eq_false equal))
  obtain ⟨d,sought,free,full⟩ := seek_free fresh emptied some_left
  rw [put_length] at sought
  have nearer : d ≤ way := by
    by_contra farther
    exact full way (by omega) emptied
  have lands : ¬ Same table (K.hash x + d) (p + (m + 1)) := by
    intro same
    by_cases far : d = way
    · rw [far] at same
      have none_held := (slot_same (home.symm.trans same)).trans opened.free
      rw [held] at none_held
      cases none_held
    · exact avoids d (by omega) same
  have run_few : m + 1 < table.length := full_few opened.free some_slot opened.full
  have behind : ∀ e < m, ¬ Same table (p + 1 + e) p := by
    intro e below same
    rw [Nat.add_assoc] at same
    have none_left := same_few (by omega) same
    omega
  refine ⟨d,sought,free,distinct_put (distinct_take opened.distinct p) fresh some_left _,?_,?_,?_,
    ?_⟩
  · have last : p + 1 + m = p + (m + 1) := by omega
    rw [last, slot_put_other fun same => lands (same_put.mp same).symm, kept]
    · exact opened.free
    · intro same
      have none_held := (slot_same same).symm.trans opened.free
      rw [held] at none_held
      cases none_held
  · intro e below
    by_cases there : Same (put table p none) (p + 1 + e) (K.hash x + d)
    · rw [slot_put_same some_left there]
      exact nofun
    · rw [slot_put_other there, kept _ (behind e below), Nat.add_assoc]
      exact opened.full (1 + e) (by omega)
  · intro k y found outside
    by_cases there : Same (put table p none) k (K.hash x + d)
    · rw [slot_put_same some_left there] at found
      cases found
      exact ⟨d,same_put.mpr there.symm,full_put some_left full x⟩
    · rw [slot_put_other there] at found
      obtain ⟨away,found⟩ := taken k y found
      have apart : ∀ e < m + 1, ¬ Same table k (p + e) := by
        intro e below
        cases e with
        | zero => exact away
        | succ e =>
          rw [Nat.add_comm e 1, ← Nat.add_assoc, ← same_put, ← same_put]
          exact outside e (by omega)
      obtain ⟨c,stops,full'⟩ := opened.reached k y found apart
      have around := way_around opened.free full' stops (by rw [found]; exact nofun) apart
      refine reached_put some_left ⟨c,same_put.mpr stops,fun e below => ?_⟩ x
      rw [kept _ (around e (Nat.le_of_lt below))]
      exact full' e below
  · intro e below y found
    have there : ¬ Same (put table p none) (p + 1 + e) (K.hash x + d) := by
      intro same
      have none_held := (slot_same same).trans free
      rw [kept _ (behind e below), Nat.add_assoc] at none_held
      exact opened.full (1 + e) (by omega) none_held
    rw [slot_put_other there, kept _ (behind e below), Nat.add_assoc] at found
    obtain ⟨c,stops,avoids'⟩ := opened.waiting (1 + e) (by omega) y found
    refine ⟨c,same_put.mpr (same_put.mpr ?_),fun b less through => ?_⟩
    · rwa [Nat.add_assoc]
    · refine avoids' b less ?_
      have last : p + 1 + m = p + (m + 1) := by omega
      rw [last] at through
      exact same_put.mp (same_put.mp through)

end Changes

end LinearProbing
