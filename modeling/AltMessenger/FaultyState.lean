import Mathlib.Data.List.Basic

/-!
Computations on a state that may stop early: what they leave behind when they do, and what
catches them. `exec` runs one from a state.
-/
namespace FaultyState
variable {ε σ α β : Type}

abbrev Act (ε σ : Type) := ExceptT ε (StateM σ)

def exec (x : Act ε σ α) (s : σ) : Except ε α × σ := x.run.run s

/-- A computation given by what it does to each state. -/
def act (f : σ → Except ε α × σ) : Act ε σ α := ExceptT.mk fun s => f s

def lift (x : Except ε α) : Act ε σ α := act fun s => (x, s)

@[simp] theorem exec_act (f : σ → Except ε α × σ) (s : σ) : exec (act f) s = f s := rfl

@[simp] theorem exec_lift (x : Except ε α) (s : σ) : exec (lift x : Act ε σ α) s = (x, s) := rfl

@[simp] theorem exec_pure (a : α) (s : σ) : exec (pure a : Act ε σ α) s = (.ok a, s) := rfl

@[simp] theorem exec_throw (e : ε) (s : σ) : exec (throw e : Act ε σ α) s = (.error e, s) := rfl

@[simp] theorem exec_modify (f : σ → σ) (s : σ) :
    exec (modify f : Act ε σ Unit) s = (.ok (), f s) := rfl

@[simp] theorem exec_get (s : σ) : exec (get : Act ε σ σ) s = (.ok s, s) := rfl

theorem exec_bind (x : Act ε σ α) (f : α → Act ε σ β) (s : σ) :
    exec (x >>= f) s = match exec x s with
      | (.ok a, t) => exec (f a) t
      | (.error e, t) => (.error e, t) := by
  have run : exec (x >>= f) s = (ExceptT.bindCont f (exec x s).1).run (exec x s).2 := rfl
  rw [run]
  rcases exec x s with ⟨e | a,t⟩
  · rfl
  · rfl

theorem exec_tryCatch (x : Act ε σ α) (handle : ε → Act ε σ α) (s : σ) :
    exec (tryCatch x handle) s = match exec x s with
      | (.ok a, t) => (.ok a, t)
      | (.error e, t) => exec (handle e) t := by
  simp only [exec, ExceptT.run_tryCatch, StateT.run_bind]
  rcases x.run.run s with ⟨e | a,t⟩
  · rfl
  · rfl

theorem bind_ran {x : Act ε σ α} {f : α → Act ε σ β} {s t : σ} {a : α}
    (ran : exec x s = (.ok a, t)) : exec (x >>= f) s = exec (f a) t := by
  rw [exec_bind, ran]

theorem bind_stopped {x : Act ε σ α} {f : α → Act ε σ β} {s t : σ} {e : ε}
    (stopped : exec x s = (.error e, t)) : exec (x >>= f) s = (.error e, t) := by
  rw [exec_bind, stopped]

theorem catch_ran {x : Act ε σ α} {handle : ε → Act ε σ α} {s t : σ} {a : α}
    (ran : exec x s = (.ok a, t)) : exec (tryCatch x handle) s = (.ok a, t) := by
  rw [exec_tryCatch, ran]

theorem catch_stopped {x : Act ε σ α} {handle : ε → Act ε σ α} {s t : σ} {e : ε}
    (stopped : exec x s = (.error e, t)) : exec (tryCatch x handle) s = exec (handle e) t := by
  rw [exec_tryCatch, stopped]

/-- Whether it stops or not, the computation leaves what holds before it. -/
def Keeps (P : σ → Prop) (x : Act ε σ α) : Prop := ∀ s, P s → P (exec x s).2

variable {P : σ → Prop}

theorem keeps_pure (a : α) : Keeps P (pure a : Act ε σ α) := fun _ holds => holds

theorem keeps_throw (e : ε) : Keeps P (throw e : Act ε σ α) := fun _ holds => holds

theorem keeps_modify {f : σ → σ} (kept : ∀ s, P s → P (f s)) :
    Keeps P (modify f : Act ε σ Unit) := kept

theorem keeps_get : Keeps P (get : Act ε σ σ) := fun _ holds => holds

theorem keeps_bind {x : Act ε σ α} {f : α → Act ε σ β} (first : Keeps P x)
    (rest : ∀ a, Keeps P (f a)) : Keeps P (x >>= f) := by
  intro s holds
  have mid := first s holds
  rw [exec_bind]
  cases ran : exec x s with
  | mk result t =>
    rw [ran] at mid
    cases result with
    | error e => exact mid
    | ok a => exact rest a t mid

theorem keeps_ite {c : Prop} [Decidable c] {x y : Act ε σ α} (yes : c → Keeps P x)
    (no : ¬ c → Keeps P y) : Keeps P (if c then x else y) := by
  split
  case isTrue h => exact yes h
  case isFalse h => exact no h

/-- The computation runs to its end. -/
def Completes (x : Act ε σ α) (s : σ) : Prop := ∃ a t, exec x s = (.ok a, t)

/-- Computations one after another run to their ends, each from what the one before leaves. -/
def EachCompletes : List (Act ε σ Unit) → σ → Prop
  | [], _ => True
  | x :: rest, s => ∃ t, exec x s = (.ok (), t) ∧ EachCompletes rest t

theorem completes_bind {x : Act ε σ Unit} {f : Unit → Act ε σ β} {s : σ} :
    Completes (x >>= f) s ↔ ∃ t, exec x s = (.ok (), t) ∧ Completes (f ()) t := by
  constructor
  · intro ⟨b,u,done⟩
    rw [exec_bind] at done
    cases ran : exec x s with
    | mk result t =>
      rw [ran] at done
      cases result with
      | error e => cases done
      | ok a => exact ⟨t,rfl,b,u,done⟩
  · intro ⟨t,ran,b,u,done⟩
    exact ⟨b,u,(bind_ran ran).trans done⟩

theorem eachCompletes_single {x : Act ε σ Unit} {s : σ} :
    EachCompletes [x] s ↔ Completes x s := by
  constructor
  · intro ⟨t,ran,_⟩
    exact ⟨(),t,ran⟩
  · intro ⟨_,t,ran⟩
    exact ⟨t,ran,trivial⟩

theorem completes_cases (x : Act ε σ α) (s : σ) :
    Completes x s ∨ ∃ e t, exec x s = (.error e, t) := by
  cases ran : exec x s with
  | mk result t =>
    cases result with
    | ok a => exact Or.inl ⟨a,t,ran⟩
    | error e => exact Or.inr ⟨e,t,rfl⟩

end FaultyState
