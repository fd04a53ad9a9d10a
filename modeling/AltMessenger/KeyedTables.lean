import Mathlib.Data.List.Basic

/-!
Tables whose rows have a number as their primary key. No key is there twice, and the rows are read
in the order of the keys; a row with a key above all others is read last.
-/
namespace KeyedTables

structure Table (ρ : Type) where
  rows : List (Nat × ρ)
  ordered : rows.Pairwise fun row next => row.1 < next.1

variable {ρ : Type} {table : Table ρ} {key bound : Nat} {row : ρ}

def Table.empty : Table ρ := ⟨[],List.Pairwise.nil⟩

def Table.values (table : Table ρ) : List ρ := table.rows.map Prod.snd

/-- No key is greater. -/
def Table.Below (table : Table ρ) (bound : Nat) : Prop := ∀ row ∈ table.rows, row.1 ≤ bound

theorem insert_ordered (table : Table ρ) (key : Nat) (row : ρ) :
    (table.rows.filter (·.1 < key) ++ (key, row) :: table.rows.filter (key < ·.1)).Pairwise
      fun row next => row.1 < next.1 := by
  refine List.pairwise_append.mpr ⟨table.ordered.filter _,List.pairwise_cons.mpr ⟨?_,
    table.ordered.filter _⟩,?_⟩
  · intro later there
    simpa using (List.mem_filter.mp there).2
  · intro earlier there other among
    have less : earlier.1 < key := by simpa using (List.mem_filter.mp there).2
    rcases List.mem_cons.mp among with rfl | later
    · exact less
    · have greater : key < other.1 := by simpa using (List.mem_filter.mp later).2
      exact Nat.lt_trans less greater

/-- A key that is there already is refused. -/
def Table.insert (table : Table ρ) (key : Nat) (row : ρ) : Option (Table ρ) :=
  if table.rows.any (·.1 = key) then none else some ⟨_,insert_ordered table key row⟩

theorem modify_ordered (table : Table ρ) (f : ρ → ρ) :
    (table.rows.map fun row => (row.1, f row.2)).Pairwise fun row next => row.1 < next.1 :=
  List.pairwise_map.mpr table.ordered

def Table.modify (f : ρ → ρ) (table : Table ρ) : Table ρ := ⟨_,modify_ordered table f⟩

def Table.delete (gone : ρ → Bool) (table : Table ρ) : Table ρ :=
  ⟨_,table.ordered.filter fun row => !gone row.2⟩

theorem below_empty (bound : Nat) : (Table.empty : Table ρ).Below bound :=
  fun _ there => absurd there List.not_mem_nil

/-- A row with a new greatest key comes last. -/
theorem insert_above (below : table.Below bound) (above : bound < key) (row : ρ) :
    ∃ after, table.insert key row = some after ∧ after.values = table.values ++ [row] ∧
      after.Below key := by
  have less : ∀ other ∈ table.rows, other.1 < key := fun other there =>
    Nat.lt_of_le_of_lt (below other there) above
  have fresh : ¬ table.rows.any (·.1 = key) = true := by
    rw [List.any_eq_true]
    rintro ⟨other,there,same⟩
    exact absurd (less other there) (by simp only [decide_eq_true_eq] at same; omega)
  have front : table.rows.filter (·.1 < key) = table.rows :=
    List.filter_eq_self.mpr fun other there => decide_eq_true (less other there)
  have none_behind : table.rows.filter (key < ·.1) = [] := by
    refine List.filter_eq_nil_iff.mpr fun other there => ?_
    have := less other there
    simp only [decide_eq_true_eq]
    omega
  have rows : table.rows.filter (·.1 < key) ++ (key, row) :: table.rows.filter (key < ·.1) =
      table.rows ++ [(key, row)] := by
    rw [front, none_behind]
  refine ⟨_,if_neg fresh,?_,?_⟩
  · refine (congrArg (List.map Prod.snd) rows).trans ?_
    rw [List.map_append]
    rfl
  · intro other there
    dsimp only at there
    rw [rows, List.mem_append, List.mem_singleton] at there
    rcases there with before | rfl
    · exact Nat.le_of_lt (less other before)
    · exact Nat.le_refl _

theorem values_modify (f : ρ → ρ) : (table.modify f).values = table.values.map f := by
  simp only [Table.values, Table.modify, List.map_map]
  rfl

theorem below_modify (below : table.Below bound) (f : ρ → ρ) : (table.modify f).Below bound := by
  intro row there
  obtain ⟨other,among,rfl⟩ := List.mem_map.mp there
  exact below other among

theorem values_delete (gone : ρ → Bool) :
    (table.delete gone).values = table.values.filter fun row => !gone row := by
  simp only [Table.values, Table.delete, List.filter_map]
  rfl

theorem below_delete (below : table.Below bound) (gone : ρ → Bool) :
    (table.delete gone).Below bound :=
  fun row there => below row (List.mem_of_mem_filter there)

end KeyedTables
