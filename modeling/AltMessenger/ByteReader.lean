import Mathlib.Data.List.Basic

/-!
Readers over a byte stream with three outcomes: a value and the unread bytes,
a refusal, or a fault of the host program. Two relations carry the proofs:
`Reads` (a reader undoes a writer and stops where the writer stopped) and
`Spelled` (what an accepted prefix looks like beside the writer's own bytes).
-/
namespace ByteReader

inductive Parse (ε α : Type) where
  | trap : ε → Parse ε α
  | fail : Parse ε α
  | ok : α → List UInt8 → Parse ε α
  deriving DecidableEq

def Reader (ε α : Type) : Type := List UInt8 → Parse ε α

variable {ε α β : Type}

def Reader.bind (r : Reader ε α) (f : α → Reader ε β) : Reader ε β := fun bs =>
  match r bs with
  | .trap e => .trap e
  | .fail => .fail
  | .ok a rest => f a rest

instance : Monad (Reader ε) where
  pure a := fun bs => .ok a bs
  bind := Reader.bind

def fail : Reader ε α := fun _ => .fail

def raise (e : ε) : Reader ε α := fun _ => .trap e

/-- A step that reads nothing and may fault. -/
def lift : Except ε α → Reader ε α
  | .ok a => pure a
  | .error e => raise e

/-- The loop that reads a counted list of elements. -/
def readMany (r : Reader ε α) : Nat → Reader ε (List α)
  | 0 => pure []
  | n + 1 => do
    let a ← r
    let tail ← readMany r n
    pure (a :: tail)

@[simp] theorem pure_apply (a : α) (bs : List UInt8) :
    (pure a : Reader ε α) bs = .ok a bs := rfl

theorem bind_ok {r : Reader ε α} {f : α → Reader ε β} {bs mid : List UInt8} {a : α}
    (h : r bs = .ok a mid) : (r >>= f) bs = f a mid := by
  change Reader.bind r f bs = _
  simp [Reader.bind, h]

theorem bind_fail {r : Reader ε α} {f : α → Reader ε β} {bs : List UInt8}
    (h : r bs = .fail) : (r >>= f) bs = .fail := by
  change Reader.bind r f bs = _
  simp [Reader.bind, h]

theorem bind_trap {r : Reader ε α} {f : α → Reader ε β} {bs : List UInt8} {e : ε}
    (h : r bs = .trap e) : (r >>= f) bs = .trap e := by
  change Reader.bind r f bs = _
  simp [Reader.bind, h]

@[simp] theorem bind_eq_ok {r : Reader ε α} {f : α → Reader ε β} {bs rest : List UInt8} {b : β} :
    (r >>= f) bs = .ok b rest ↔ ∃ a mid, r bs = .ok a mid ∧ f a mid = .ok b rest := by
  constructor
  · intro run
    cases first : r bs with
    | trap e => rw [bind_trap first] at run; cases run
    | fail => rw [bind_fail first] at run; cases run
    | ok a mid => rw [bind_ok first] at run; exact ⟨a,mid,rfl,run⟩
  · rintro ⟨a,mid,first,second⟩
    rw [bind_ok first, second]

/-- `r` undoes the bytes `w`: it yields `a` and leaves exactly what follows them. -/
def Reads (r : Reader ε α) (w : List UInt8) (a : α) : Prop :=
  ∀ rest, r (w ++ rest) = .ok a rest

theorem reads_pure (a : α) : Reads (pure a : Reader ε α) [] a := fun _ => rfl

theorem reads_bind {r : Reader ε α} {f : α → Reader ε β} {u v : List UInt8} {a : α} {b : β}
    (first : Reads r u a) (second : Reads (f a) v b) : Reads (r >>= f) (u ++ v) b := by
  intro rest
  rw [List.append_assoc, bind_ok (first _), second rest]

theorem reads_last {r : Reader ε α} {f : α → Reader ε β} {u : List UInt8} {a : α} {b : β}
    (first : Reads r u a) (second : Reads (f a) [] b) : Reads (r >>= f) u b := by
  have joined := reads_bind first second
  rwa [List.append_nil] at joined

theorem reads_many {r : Reader ε α} (enc : β → List UInt8) (value : β → α) (xs : List β)
    (each : ∀ x ∈ xs, Reads r (enc x) (value x)) :
    Reads (readMany r xs.length) (xs.flatMap enc) (xs.map value) := by
  induction xs with
  | nil => exact reads_pure []
  | cons x xs ih =>
    have tail := ih (fun y hy => each y (List.mem_cons_of_mem x hy))
    exact reads_bind (each x (by simp)) (reads_last tail (reads_pure _))

/-- A reader that runs through a list of written elements and meets, at the one
    it cannot undo, a step that either refuses or eats the whole stream. -/
theorem many_stops {r : Reader ε α} (enc : β → List UInt8) (value : β → α) (good : β → Prop)
    (dry : r [] = .fail) (xs : List β) (undo : ∀ x ∈ xs, good x → Reads r (enc x) (value x))
    (bad : ∀ x ∈ xs, ¬ good x →
      ∀ rest, r (enc x ++ rest) = .fail ∨ ∃ a, r (enc x ++ rest) = .ok a [])
    (some_bad : ∃ x ∈ xs, ¬ good x) (rest : List UInt8) :
    readMany r xs.length (xs.flatMap enc ++ rest) = .fail ∨
      ∃ as, readMany r xs.length (xs.flatMap enc ++ rest) = .ok as [] := by
  have dried : ∀ n, readMany r n [] = .fail ∨ ∃ as, readMany r n [] = .ok as [] := by
    intro n
    cases n with
    | zero => exact Or.inr ⟨[],rfl⟩
    | succ n => exact Or.inl (bind_fail dry)
  induction xs with
  | nil => simp at some_bad
  | cons x xs ih =>
    rw [List.flatMap_cons, List.append_assoc, List.length_cons, readMany]
    by_cases hx : good x
    · have later : ∃ y ∈ xs, ¬ good y := by
        obtain ⟨y,mem,hy⟩ := some_bad
        rcases List.mem_cons.mp mem with same | mem
        · subst y; contradiction
        · exact ⟨y,mem,hy⟩
      rw [bind_ok (undo x (by simp) hx _)]
      rcases ih (fun y mem => undo y (List.mem_cons_of_mem x mem))
          (fun y mem => bad y (List.mem_cons_of_mem x mem)) later with stop | ⟨as,run⟩
      · exact Or.inl (bind_fail stop)
      · exact Or.inr ⟨value x :: as, by rw [bind_ok run]; rfl⟩
    · rcases bad x (by simp) hx (xs.flatMap enc ++ rest) with stop | ⟨a,eaten⟩
      · exact Or.inl (bind_fail stop)
      · rw [bind_ok eaten]
        rcases dried xs.length with stop | ⟨as,run⟩
        · exact Or.inl (bind_fail stop)
        · exact Or.inr ⟨a :: as, by rw [bind_ok run]; rfl⟩

/-- Every prefix `r` accepts is at least as long as the writer's bytes for the
    value read, and is those bytes exactly when `short` holds of the stream. -/
def Spelled (r : Reader ε α) (enc : α → List UInt8) (short : List UInt8 → Bool) : Prop :=
  ∀ bs a rest, r bs = .ok a rest →
    ∃ pre, bs = pre ++ rest ∧ (enc a).length ≤ pre.length ∧ (short bs = true ↔ pre = enc a)

/-- A reader whose values have one spelling consumed the writer's bytes. -/
theorem Spelled.exact {r : Reader ε α} {enc : α → List UInt8} {bs rest : List UInt8} {a : α}
    (spelled : Spelled r enc (fun _ => true)) (run : r bs = .ok a rest) : bs = enc a ++ rest := by
  obtain ⟨pre,rfl,_,same⟩ := spelled bs a rest run
  rw [same.mp rfl]

/-- The same of the prefixes that leave something unread. -/
def SpelledInside (r : Reader ε α) (enc : α → List UInt8) (short : List UInt8 → Bool) : Prop :=
  ∀ bs a rest, r bs = .ok a rest → rest ≠ [] →
    ∃ pre, bs = pre ++ rest ∧ (enc a).length ≤ pre.length ∧ (short bs = true ↔ pre = enc a)

theorem Spelled.inside {r : Reader ε α} {enc : α → List UInt8} {short : List UInt8 → Bool}
    (spelled : Spelled r enc short) : SpelledInside r enc short :=
  fun bs a rest run _ => spelled bs a rest run

theorem spelled_append {u v p q : List UInt8} {s t : Bool} (hu : u.length ≤ p.length)
    (hs : s = true ↔ p = u) (hv : v.length ≤ q.length) (ht : t = true ↔ q = v) :
    (u ++ v).length ≤ (p ++ q).length ∧ ((s && t) = true ↔ p ++ q = u ++ v) := by
  refine ⟨by simp only [List.length_append]; omega, ?_⟩
  rw [Bool.and_eq_true, hs, ht]
  constructor
  · rintro ⟨rfl,rfl⟩; rfl
  · intro same
    have lengths := congrArg List.length same
    simp only [List.length_append] at lengths
    exact List.append_inj same (by omega)

/-- The check that runs along a counted list, one element's check at a time. -/
def shortMany (r : Reader ε α) (short : List UInt8 → Bool) : Nat → List UInt8 → Bool
  | 0, _ => true
  | n + 1, bs => short bs && match r bs with
    | .ok _ rest => shortMany r short n rest
    | _ => true

theorem spelled_many {r : Reader ε α} {enc : α → List UInt8} {short : List UInt8 → Bool}
    (one : SpelledInside r enc short) (n : Nat) :
    SpelledInside (readMany r n) (fun as => as.flatMap enc) (shortMany r short n) := by
  induction n with
  | zero =>
    intro bs as rest run _
    cases run
    exact ⟨[],rfl,by simp,by simp [shortMany]⟩
  | succ n ih =>
    intro bs as rest run more
    rw [readMany] at run
    obtain ⟨a,mid,first,run⟩ := bind_eq_ok.mp run
    obtain ⟨tail,last,second,run⟩ := bind_eq_ok.mp run
    cases run
    obtain ⟨q,rfl,hq,sq⟩ := ih _ _ _ second more
    obtain ⟨p,rfl,hp,sp⟩ := one _ _ _ first (List.append_ne_nil_of_right_ne_nil q more)
    obtain ⟨len,short_iff⟩ := spelled_append hp sp hq sq
    refine ⟨p ++ q, by simp, by simpa using len, ?_⟩
    simpa [shortMany, first] using short_iff

theorem many_length {r : Reader ε α} {n : Nat} {bs rest : List UInt8} {as : List α}
    (run : readMany r n bs = .ok as rest) : as.length = n := by
  induction n generalizing bs as with
  | zero => cases run; rfl
  | succ n ih =>
    rw [readMany] at run
    obtain ⟨a,mid,_,run⟩ := bind_eq_ok.mp run
    obtain ⟨tail,last,second,run⟩ := bind_eq_ok.mp run
    cases run
    simp [ih second]

end ByteReader
