import Mathlib.Data.List.Basic

/-!
Arrivals that refer to outputs of one another, in the order they came. A
reader who marks outputs as he goes sees a reference only when the output it
names has arrived before it or with it; a reference alone knows no order.
-/
namespace SpendOrder
variable {ι : Type} [DecidableEq ι]

structure Arrival (ι : Type) where
  id : ι
  refers : List (ι × Nat)
  deriving DecidableEq

def referred (arrivals : List (Arrival ι)) (id : ι) (j : Nat) : Bool :=
  arrivals.any fun e => decide ((id,j) ∈ e.refers)

/-- Output `j` of `id` has arrived, and with it or after it a reference to it. -/
def seen : List (Arrival ι) → ι → Nat → Bool
  | [], _, _ => false
  | f :: after, id, j => (decide (f.id = id) && referred (f :: after) id j) || seen after id j

theorem referred_iff {arrivals : List (Arrival ι)} {id : ι} {j : Nat} :
    referred arrivals id j = true ↔ ∃ e ∈ arrivals, (id,j) ∈ e.refers := by
  simp [referred]

theorem seen_iff {arrivals : List (Arrival ι)} {id : ι} {j : Nat} :
    seen arrivals id j = true ↔
      ∃ before f after, arrivals = before ++ f :: after ∧ f.id = id ∧
        ∃ e ∈ f :: after, (id,j) ∈ e.refers := by
  induction arrivals with
  | nil => simp [seen]
  | cons f rest ih =>
    rw [seen, Bool.or_eq_true, Bool.and_eq_true, decide_eq_true_iff, referred_iff, ih]
    constructor
    · rintro (⟨here,spender⟩ | ⟨before,g,after,split,there,spender⟩)
      · exact ⟨[],f,rest,rfl,here,spender⟩
      · exact ⟨f :: before,g,after,by rw [split]; rfl,there,spender⟩
    · rintro ⟨before,g,after,split,there,spender⟩
      cases before with
      | nil =>
        cases split
        exact Or.inl ⟨there,spender⟩
      | cons b before =>
        cases split
        exact Or.inr ⟨before,g,after,rfl,there,spender⟩

theorem seen_present {arrivals : List (Arrival ι)} {id : ι} {j : Nat}
    (spent : seen arrivals id j = true) : ∃ f ∈ arrivals, f.id = id := by
  obtain ⟨before,f,after,rfl,here,_⟩ := seen_iff.mp spent
  exact ⟨f,by simp,here⟩

theorem seen_referred {arrivals : List (Arrival ι)} {id : ι} {j : Nat}
    (spent : seen arrivals id j = true) : ∃ e ∈ arrivals, (id,j) ∈ e.refers := by
  obtain ⟨before,f,after,rfl,_,e,mem,refers⟩ := seen_iff.mp spent
  exact ⟨e,List.mem_append_right before mem,refers⟩

/-- One more arrival: what was seen stays seen, and its references are seen
    where their output has arrived, itself included. -/
theorem seen_append {arrivals : List (Arrival ι)} {e : Arrival ι} {id : ι} {j : Nat} :
    seen (arrivals ++ [e]) id j = true ↔
      seen arrivals id j = true ∨
        (id,j) ∈ e.refers ∧ ∃ f ∈ arrivals ++ [e], f.id = id := by
  induction arrivals with
  | nil => simp [seen, referred, and_comm]
  | cons f rest ih =>
    have more : referred (f :: (rest ++ [e])) id j = true ↔
        referred (f :: rest) id j = true ∨ (id,j) ∈ e.refers := by
      simp [referred_iff, or_and_right, exists_or, or_assoc]
    rw [List.cons_append, seen, Bool.or_eq_true, Bool.and_eq_true, decide_eq_true_iff, more, ih,
      seen, Bool.or_eq_true, Bool.and_eq_true, decide_eq_true_iff]
    simp only [List.mem_cons, exists_eq_or_imp]
    by_cases here : f.id = id
    · simp only [here, true_and, true_or, and_true]
      tauto
    · simp only [here, false_and, false_or]

end SpendOrder
