import Mathlib.Data.List.Forall2
import Mathlib.Data.Rat.Floor

/-!
The part of Swift's runtime the wallet code leans on: the faults that stop the
process (asserts are live, as in a debug build) and arithmetic that faults
instead of wrapping. A computation that may fault is an `Except Trap`.
-/
namespace SwiftRuntime

inductive Trap where
  | assertion
  | conversion
  | overflow
  | index
  | unwrap
  deriving DecidableEq, Repr

/-- `x!` -/
def unwrap {α : Type} : Option α → Except Trap α
  | some a => .ok a
  | none => .error .unwrap

/-- `xs[i]` -/
def subscript {α : Type} (xs : List α) (i : Nat) : Except Trap α :=
  match xs[i]? with
  | some a => .ok a
  | none => .error .index

def uint8 (n : Nat) : Except Trap UInt8 :=
  if n < 256 then .ok (UInt8.ofNat n) else .error .conversion

def int64 (i : Int) (trap : Trap) : Except Trap Int64 :=
  if -2 ^ 63 ≤ i ∧ i < 2 ^ 63 then .ok (Int64.ofInt i) else .error trap

/-- `a + b` on `Int64`. -/
def addInt64 (a b : Int64) : Except Trap Int64 := int64 (a.toInt + b.toInt) .overflow

/-- `a - b` on `Int64`. -/
def subInt64 (a b : Int64) : Except Trap Int64 := int64 (a.toInt - b.toInt) .overflow

/-- `a + b` on `UInt64`. -/
def addUInt64 (a b : UInt64) : Except Trap UInt64 :=
  if a.toNat + b.toNat < 2 ^ 64 then .ok (a + b) else .error .overflow

/-- `a - b` on `UInt64`. -/
def subUInt64 (a b : UInt64) : Except Trap UInt64 :=
  if b ≤ a then .ok (a - b) else .error .overflow

/-- `UInt32(x)`: a fraction is dropped, and what is left must fit. -/
def uint32 (x : Rat) : Except Trap UInt32 :=
  if -1 < x ∧ x < 2 ^ 32 then .ok (UInt32.ofNat x.floor.toNat) else .error .conversion

/-- `UInt64(x)` -/
def uint64 (x : Rat) : Except Trap UInt64 :=
  if -1 < x ∧ x < 2 ^ 64 then .ok (UInt64.ofNat x.floor.toNat) else .error .conversion

/-- A step that ran to its end ran each of its parts to the end. -/
theorem bind_ran {ε α β : Type} {x : Except ε α} {f : α → Except ε β} {b : β} :
    (x >>= f) = .ok b ↔ ∃ a, x = .ok a ∧ f a = .ok b := by
  cases x with
  | error e =>
    constructor
    · intro run; cases run
    · rintro ⟨a,run,_⟩; cases run
  | ok a =>
    constructor
    · intro run; exact ⟨a,rfl,run⟩
    · rintro ⟨a,run,last⟩; cases run; exact last

theorem bind_ready {ε α β : Type} {x : Except ε α} {f : α → Except ε β} {a : α}
    (run : x = .ok a) : (x >>= f) = f a := by
  rw [run]
  rfl

theorem bind_halted {ε α β : Type} {x : Except ε α} {f : α → Except ε β} {e : ε}
    (stopped : x = .error e) : (x >>= f) = .error e := by
  rw [stopped]
  rfl

theorem mapM_ran {α β : Type} {f : α → Except Trap β} {xs : List α} {ys : List β} :
    xs.mapM f = .ok ys ↔ List.Forall₂ (fun x y => f x = .ok y) xs ys := by
  induction xs generalizing ys with
  | nil =>
    rw [List.mapM_nil]
    constructor
    · intro run; cases run; exact List.Forall₂.nil
    · intro each; cases each; rfl
  | cons x xs ih =>
    rw [List.mapM_cons]
    constructor
    · intro run
      obtain ⟨y,first,run⟩ := bind_ran.mp run
      obtain ⟨rest,later,run⟩ := bind_ran.mp run
      cases run
      exact List.Forall₂.cons first (ih.mp later)
    · intro each
      cases each with
      | cons first later => rw [bind_ready first, bind_ready (ih.mpr later)]; rfl

theorem mapM_source {α β : Type} {f : α → Except Trap β} {xs : List α} {ys : List β}
    (run : xs.mapM f = .ok ys) : ∀ y ∈ ys, ∃ x ∈ xs, f x = .ok y := by
  have each := mapM_ran.mp run
  clear run
  induction each with
  | nil => simp
  | @cons x y xs ys first _ ih =>
    intro z mem
    rcases List.mem_cons.mp mem with same | mem
    · exact ⟨x,by simp,by rw [same]; exact first⟩
    · obtain ⟨w,inside,made⟩ := ih z mem
      exact ⟨w,List.mem_cons_of_mem x inside,made⟩

theorem mapM_image {α β : Type} {f : α → Except Trap β} {xs : List α} {ys : List β}
    (run : xs.mapM f = .ok ys) : ∀ x ∈ xs, ∃ y ∈ ys, f x = .ok y := by
  have each := mapM_ran.mp run
  clear run
  induction each with
  | nil => simp
  | @cons x y xs ys first _ ih =>
    intro x' mem
    rcases List.mem_cons.mp mem with rfl | mem
    · exact ⟨y,by simp,first⟩
    · obtain ⟨y',inside,ran⟩ := ih x' mem
      exact ⟨y',List.mem_cons_of_mem y inside,ran⟩

theorem mapM_perm {α β : Type} {f : α → Except Trap β} {xs xs' : List α} (perm : xs.Perm xs')
    {ys : List β} (run : xs.mapM f = .ok ys) :
    ∃ ys', xs'.mapM f = .ok ys' ∧ ys.Perm ys' := by
  rw [mapM_ran] at run
  induction perm generalizing ys with
  | nil =>
    cases run
    exact ⟨[],rfl,List.Perm.nil⟩
  | cons x _ ih =>
    cases run with
    | @cons _ y _ rest first later =>
      obtain ⟨ys',run',perm'⟩ := ih later
      exact ⟨y :: ys',by rw [List.mapM_cons, bind_ready first, bind_ready run']; rfl,perm'.cons y⟩
  | swap x x' xs =>
    cases run with
    | @cons _ y _ rest first later =>
      cases later with
      | @cons _ z _ rest second later =>
        refine ⟨z :: y :: rest,mapM_ran.mpr ?_,List.Perm.swap z y rest⟩
        exact List.Forall₂.cons second (List.Forall₂.cons first later)
  | trans _ _ ih ih' =>
    obtain ⟨ys',run',perm'⟩ := ih run
    obtain ⟨ys'',run'',perm''⟩ := ih' (mapM_ran.mp run')
    exact ⟨ys'',run'',perm'.trans perm''⟩

/-- A loop that reads an element and works on it, where all can be read beforehand. -/
theorem foldlM_read {α β γ : Type} {f : α → Except Trap β} {g : γ → β → Except Trap γ}
    {xs : List α} {ys : List β} (read : xs.mapM f = .ok ys) (c : γ) :
    xs.foldlM (fun c x => do
      let y ← f x
      g c y) c = ys.foldlM g c := by
  have each := mapM_ran.mp read
  clear read
  induction each generalizing c with
  | nil => rfl
  | cons first _ ih =>
    rw [List.foldlM_cons, List.foldlM_cons, bind_ready first]
    exact congrArg _ (funext ih)

/-- A loop whose body returns for an element whatever the state is. -/
theorem foldlM_returns_iff {α β : Type} {f : β → α → Except Trap β} {returns : α → Prop}
    (each : ∀ b a, (∃ next, f b a = .ok next) ↔ returns a) (xs : List α) (b : β) :
    (∃ last, xs.foldlM f b = .ok last) ↔ ∀ x ∈ xs, returns x := by
  induction xs generalizing b with
  | nil => exact iff_of_true ⟨b,rfl⟩ fun x there => absurd there List.not_mem_nil
  | cons x xs ih =>
    rw [List.foldlM_cons, List.forall_mem_cons, ← each b x]
    constructor
    · rintro ⟨last,ran⟩
      obtain ⟨next,first,rest⟩ := bind_ran.mp ran
      exact ⟨⟨next,first⟩,(ih next).mp ⟨last,rest⟩⟩
    · rintro ⟨⟨next,first⟩,later⟩
      rw [bind_ready first]
      exact (ih next).mpr later

/-- A loop that runs to its end keeps what each turn keeps. -/
theorem foldlM_keeps {α β : Type} (kept : β → Prop) {f : β → α → Except Trap β}
    (each : ∀ b a next, kept b → f b a = .ok next → kept next) {xs : List α} {b last : β}
    (start : kept b) (run : xs.foldlM f b = .ok last) : kept last := by
  induction xs generalizing b with
  | nil =>
    cases run
    exact start
  | cons x xs ih =>
    rw [List.foldlM_cons] at run
    obtain ⟨next,first,rest⟩ := bind_ran.mp run
    exact ih (each b x next start first) rest

theorem int64_ok {i : Int} {trap : Trap} {c : Int64} :
    int64 i trap = .ok c ↔ c.toInt = i := by
  unfold int64
  constructor
  · intro run
    split at run
    · rename_i fits
      cases run
      exact Int64.toInt_ofInt_of_le fits.1 fits.2
    · cases run
  · intro same
    have low := c.le_toInt
    have high := c.toInt_lt
    rw [if_pos (by omega), ← same, Int64.ofInt_toInt]

theorem addInt64_ok {a b c : Int64} :
    addInt64 a b = .ok c ↔ c.toInt = a.toInt + b.toInt := int64_ok

theorem subInt64_ok {a b c : Int64} :
    subInt64 a b = .ok c ↔ c.toInt = a.toInt - b.toInt := int64_ok

theorem addInt64_fits {a b : Int64} (low : -2 ^ 63 ≤ a.toInt + b.toInt)
    (high : a.toInt + b.toInt < 2 ^ 63) : addInt64 a b = .ok (Int64.ofInt (a.toInt + b.toInt)) :=
  if_pos ⟨low,high⟩

theorem addUInt64_ok {a b c : UInt64} :
    addUInt64 a b = .ok c ↔ a.toNat + b.toNat < 2 ^ 64 ∧ c = a + b := by
  unfold addUInt64
  constructor
  · intro run
    split at run
    · cases run
      exact ⟨‹_›,rfl⟩
    · cases run
  · rintro ⟨fits,rfl⟩
    exact if_pos fits

theorem subUInt64_ok {a b c : UInt64} : subUInt64 a b = .ok c ↔ b.toNat ≤ a.toNat ∧ c = a - b := by
  rw [← UInt64.le_iff_toNat_le]
  unfold subUInt64
  constructor
  · intro run
    split at run
    · cases run
      exact ⟨‹_›,rfl⟩
    · cases run
  · rintro ⟨fits,rfl⟩
    exact if_pos fits

theorem unwrap_ok {α : Type} {o : Option α} {a : α} : unwrap o = .ok a ↔ o = some a := by
  cases o with
  | none => simp [unwrap]
  | some b => simp [unwrap]

theorem subscript_ok {α : Type} {xs : List α} {i : Nat} {a : α} :
    subscript xs i = .ok a ↔ xs[i]? = some a := by
  unfold subscript
  split
  · rename_i b found
    rw [found]
    simp
  · rename_i missing
    simp [missing]

/-- A whole number that is small enough is converted. -/
theorem natCast_converts {n width : Nat} (below : n < 2 ^ width) :
    ((-1 : Rat) < n ∧ (n : Rat) < 2 ^ width) ∧ (n : Rat).floor.toNat = n := by
  have low : (0 : Rat) ≤ n := Nat.cast_nonneg n
  have whole : (n : Rat).floor = n := Rat.floor_intCast n
  refine ⟨⟨by linarith,by exact_mod_cast below⟩,?_⟩
  rw [whole, Int.toNat_natCast]

theorem uint32_whole (raw : UInt32) : uint32 (raw.toNat : Rat) = .ok raw := by
  obtain ⟨between,whole⟩ := natCast_converts raw.toNat_lt
  rw [uint32, if_pos between, whole, UInt32.ofNat_toNat]

theorem uint64_whole (raw : UInt64) : uint64 (raw.toNat : Rat) = .ok raw := by
  obtain ⟨between,whole⟩ := natCast_converts raw.toNat_lt
  rw [uint64, if_pos between, whole, UInt64.ofNat_toNat]

end SwiftRuntime
