import Mathlib.Data.List.Induction
import Mathlib.Data.List.Nodup
import Mathlib.Tactic.Ring

/-!
Rows that carry a key and a version, kept in one list in the order they came. The rows of
a key are numbered when their versions are 1, 2, 3 and so on, in that order.
-/
namespace VersionLog

variable {Row Key : Type} [DecidableEq Key] (key : Row → Key) (version : Row → Nat)

def rowsOf (rows : List Row) (k : Key) : List Row := rows.filter fun row => key row = k

def newer (best : Option Row) (row : Row) : Option Row :=
  match best with
  | none => some row
  | some old => if version old < version row then some row else some old

/-- The row of a key with the greatest version. -/
def latest (rows : List Row) (k : Key) : Option Row :=
  (rowsOf key rows k).foldl (newer version) none

def current (rows : List Row) (k : Key) : Nat :=
  match latest key version rows k with
  | some row => version row
  | none => 0

/-- The rows whose version is the greatest of their key. -/
def latestRows (rows : List Row) : List Row :=
  rows.filter fun row => version row = current key version rows (key row)

def InOrder (rows : List Row) : Prop := rows.map version = List.range' 1 rows.length

def Numbered (rows : List Row) : Prop := ∀ k, InOrder version (rowsOf key rows k)

variable {key version}

theorem inOrder_append {rows : List Row} {row : Row} :
    InOrder version (rows ++ [row]) ↔ InOrder version rows ∧ version row = rows.length + 1 := by
  have concat : InOrder version (rows ++ [row]) ↔
      rows.map version ++ [version row] = List.range' 1 rows.length ++ [1 + rows.length] := by
    simp [InOrder, List.range'_1_concat]
  rw [concat]
  constructor
  · intro same
    obtain ⟨front,last⟩ := List.append_inj' same rfl
    exact ⟨front,by simpa [Nat.add_comm] using last⟩
  · rintro ⟨front,last⟩
    rw [front, last, Nat.add_comm]

theorem inOrder_bound {rows : List Row} (ordered : InOrder version rows) {row : Row}
    (mem : row ∈ rows) : 0 < version row ∧ version row ≤ rows.length := by
  have inside : version row ∈ List.range' 1 rows.length := by
    rw [← ordered]
    exact List.mem_map_of_mem mem
  rw [List.mem_range'_1] at inside
  omega

/-- Of rows in order the last is the newest. -/
theorem newest {rows : List Row} (ordered : InOrder version rows) :
    rows.foldl (newer version) none = rows.getLast? := by
  induction rows using List.reverseRecOn with
  | nil => rfl
  | append_singleton rows row ih =>
    obtain ⟨front,next⟩ := inOrder_append.mp ordered
    rw [List.foldl_append, ih front, List.getLast?_concat, List.foldl_cons, List.foldl_nil]
    cases last : rows.getLast? with
    | none => rfl
    | some old =>
      have bound := inOrder_bound front (List.mem_of_getLast? last)
      simp only [newer]
      rw [if_pos (by omega)]

theorem rowsOf_append (rows : List Row) (row : Row) (k : Key) :
    rowsOf key (rows ++ [row]) k = rowsOf key rows k ++ if key row = k then [row] else [] := by
  by_cases same : key row = k <;> simp [rowsOf, same]

/-- A row of another key leaves the latest row of a key as it is. -/
theorem latest_other (rows : List Row) {row : Row} {k : Key} (other : key row ≠ k) :
    latest key version (rows ++ [row]) k = latest key version rows k := by
  rw [latest, rowsOf_append, if_neg other, List.append_nil]
  rfl

theorem numbered_nil : Numbered key version [] := fun _ => rfl

section Numbered
variable {rows : List Row} (numbered : Numbered key version rows)
include numbered

theorem Numbered.latest (k : Key) : latest key version rows k = (rowsOf key rows k).getLast? :=
  newest (numbered k)

/-- The latest row of a key is behind others in order, and has the next version. -/
theorem Numbered.front {k : Key} {row : Row} (last : (rowsOf key rows k).getLast? = some row) :
    ∃ before, rowsOf key rows k = before ++ [row] ∧ InOrder version before ∧
      version row = before.length + 1 := by
  obtain ⟨before,whole⟩ := List.getLast?_eq_some_iff.mp last
  have ordered := numbered k
  rw [whole] at ordered
  exact ⟨before,whole,inOrder_append.mp ordered⟩

theorem Numbered.current (k : Key) : current key version rows k = (rowsOf key rows k).length := by
  rw [VersionLog.current, numbered.latest]
  cases front : (rowsOf key rows k).getLast? with
  | none => rw [List.getLast?_eq_none_iff.mp front]; rfl
  | some row =>
    obtain ⟨before,whole,_,next⟩ := numbered.front front
    rw [whole]
    simpa using next

/-- A row with the next version of its key goes behind the others. -/
theorem Numbered.append {row : Row}
    (next : version row = VersionLog.current key version rows (key row) + 1) :
    Numbered key version (rows ++ [row]) := by
  intro k
  rw [rowsOf_append]
  by_cases same : key row = k
  · rw [if_pos same]
    rw [numbered.current, same] at next
    exact inOrder_append.mpr ⟨numbered k,next⟩
  · rw [if_neg same, List.append_nil]
    exact numbered k

theorem Numbered.latest_append {row : Row}
    (next : version row = VersionLog.current key version rows (key row) + 1) :
    VersionLog.latest key version (rows ++ [row]) (key row) = some row := by
  rw [(numbered.append next).latest, rowsOf_append, if_pos rfl, List.getLast?_concat]

/-- The rows of a key at its current version: the latest, if there is one. -/
theorem Numbered.at_current (k : Key) :
    (rowsOf key rows k).filter (fun row => version row = VersionLog.current key version rows k) =
      (VersionLog.latest key version rows k).toList := by
  rw [numbered.current, numbered.latest]
  cases front : (rowsOf key rows k).getLast? with
  | none => rw [List.getLast?_eq_none_iff.mp front]; rfl
  | some row =>
    obtain ⟨before,whole,earlier,next⟩ := numbered.front front
    rw [whole]
    have none_earlier : before.filter (fun old => version old = (before ++ [row]).length) = [] := by
      rw [List.filter_eq_nil_iff]
      intro old mem
      have bound := inOrder_bound earlier mem
      simp only [List.length_append, List.length_cons, List.length_nil, decide_eq_true_eq]
      omega
    rw [List.filter_append, none_earlier]
    simp [next]

theorem Numbered.latestRows_of (k : Key) :
    (latestRows key version rows).filter (fun row => key row = k) =
      (VersionLog.latest key version rows k).toList := by
  rw [← numbered.at_current, latestRows, rowsOf, List.filter_filter, List.filter_filter]
  apply List.filter_congr
  intro row _
  by_cases same : key row = k <;> simp [same]

/-- The latest rows are just those that are the latest of their keys. -/
theorem Numbered.mem_latestRows {row : Row} :
    row ∈ latestRows key version rows ↔
      VersionLog.latest key version rows (key row) = some row := by
  have inside : row ∈ latestRows key version rows ↔
      row ∈ (latestRows key version rows).filter (fun other => key other = key row) := by
    simp
  rw [inside, numbered.latestRows_of, Option.mem_toList]

theorem Numbered.latestRows_nodup : ((latestRows key version rows).map key).Nodup := by
  rw [List.nodup_iff_count_le_one]
  intro k
  have once := congrArg List.length (numbered.latestRows_of k)
  rw [List.count, List.countP_map, List.countP_eq_length_filter]
  have same : (latestRows key version rows).filter ((· == k) ∘ key) =
      (latestRows key version rows).filter (fun row => key row = k) := by
    apply List.filter_congr
    intro row _
    rfl
  rw [same, once]
  cases VersionLog.latest key version rows k <;> simp

/-- Each key that has a row has a latest one. -/
theorem Numbered.key_mem_latestRows {k : Key} :
    k ∈ (latestRows key version rows).map key ↔ k ∈ rows.map key := by
  constructor
  · intro mem
    obtain ⟨row,inside,same⟩ := List.mem_map.mp mem
    exact List.mem_map.mpr ⟨row,(List.mem_filter.mp inside).1,same⟩
  · intro mem
    obtain ⟨row,inside,same⟩ := List.mem_map.mp mem
    have own : row ∈ rowsOf key rows k := List.mem_filter.mpr ⟨inside,decide_eq_true same⟩
    have nonempty := List.ne_nil_of_mem own
    have found := numbered.latest k
    rw [List.getLast?_eq_some_getLast nonempty] at found
    have last := List.mem_filter.mp (List.getLast_mem nonempty)
    have last_key : key ((rowsOf key rows k).getLast nonempty) = k := of_decide_eq_true last.2
    refine List.mem_map.mpr ⟨_,numbered.mem_latestRows.mpr ?_,last_key⟩
    rw [last_key, found]

end Numbered

end VersionLog
