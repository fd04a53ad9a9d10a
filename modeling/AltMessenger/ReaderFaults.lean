import AltMessenger.ByteReader

/-!
When a reader stops its host program. The streams a reader faults on are laid out
from the streams its parts fault on, and from the chunks its parts take off the
front of a stream when they succeed.
-/
namespace ReaderFaults
open ByteReader

/-- The byte strings that spell a field. -/
abbrev Layout := List UInt8 → Prop

def Anything : Layout := fun _ => True

def Sized (size : Nat) : Layout := fun bytes => bytes.length = size

def Joined (First Second : Layout) : Layout := fun bytes =>
  ∃ front rest, First front ∧ Second rest ∧ bytes = front ++ rest

def Repeated (Whole : Layout) : Nat → Layout
  | 0 => fun bytes => bytes = []
  | n + 1 => Joined Whole (Repeated Whole n)

/-- A list that goes wrong before its last element. -/
def Within (Whole Bad : Layout) (n : Nat) : Layout := fun bytes =>
  ∃ k < n, Joined (Repeated Whole k) Bad bytes

theorem joined_assoc {First Second Third : Layout} {bytes : List UInt8} :
    Joined First (Joined Second Third) bytes ↔ Joined (Joined First Second) Third bytes := by
  constructor
  · rintro ⟨front,_,first,⟨mid,rest,second,third,rfl⟩,rfl⟩
    exact ⟨front ++ mid,rest,⟨front,mid,first,second,rfl⟩,third,by simp⟩
  · rintro ⟨_,rest,⟨front,mid,first,second,rfl⟩,third,rfl⟩
    exact ⟨front,mid ++ rest,first,⟨mid,rest,second,third,rfl⟩,by simp⟩

theorem joined_congr {First First' Second Second' : Layout} (first : ∀ bs, First bs ↔ First' bs)
    (second : ∀ bs, Second bs ↔ Second' bs) {bytes : List UInt8} :
    Joined First Second bytes ↔ Joined First' Second' bytes := by
  simp only [Joined, first, second]

theorem sized_joined {m n : Nat} {bytes : List UInt8} :
    Joined (Sized m) (Sized n) bytes ↔ Sized (m + n) bytes := by
  constructor
  · rintro ⟨front,rest,first,second,rfl⟩
    rw [Sized, List.length_append, first, second]
  · intro size
    rw [Sized] at size
    refine ⟨bytes.take m,bytes.drop m,?_,?_,(List.take_append_drop m bytes).symm⟩
    · rw [Sized, List.length_take]
      omega
    · rw [Sized, List.length_drop]
      omega

theorem joined_sized {m n : Nat} {Bad : Layout} {bytes : List UInt8} :
    Joined (Sized m) (Joined (Sized n) Bad) bytes ↔ Joined (Sized (m + n)) Bad bytes := by
  rw [joined_assoc]
  exact joined_congr (fun _ => sized_joined) (fun _ => Iff.rfl)

theorem within_zero {Whole Bad : Layout} {bytes : List UInt8} : ¬ Within Whole Bad 0 bytes := by
  rintro ⟨k,less,_⟩
  exact Nat.not_lt_zero k less

/-- One element more than those announced. -/
theorem within_succ {Whole Bad : Layout} {n : Nat} {bytes : List UInt8} :
    Within Whole Bad (n + 1) bytes ↔
      Within Whole Bad n bytes ∨ Joined (Repeated Whole n) Bad bytes := by
  constructor
  · rintro ⟨k,less,joined⟩
    rcases Nat.lt_succ_iff_lt_or_eq.mp less with less | rfl
    · exact Or.inl ⟨k,less,joined⟩
    · exact Or.inr joined
  · rintro (⟨k,less,joined⟩ | joined)
    · exact ⟨k,Nat.lt_succ_of_lt less,joined⟩
    · exact ⟨n,Nat.lt_succ_self n,joined⟩

variable {ε α β : Type}

def Faults (r : Reader ε α) : Layout := fun bs => ∃ e, r bs = .trap e

def Safe (r : Reader ε α) : Prop := ∀ bs, ¬ Faults r bs

theorem faults_bind {r : Reader ε α} {f : α → Reader ε β} {bs : List UInt8} :
    Faults (r >>= f) bs ↔ Faults r bs ∨ ∃ a mid, r bs = .ok a mid ∧ Faults (f a) mid := by
  constructor
  · rintro ⟨e,run⟩
    cases first : r bs with
    | trap e' => exact Or.inl ⟨e',first⟩
    | fail =>
      rw [bind_fail first] at run
      cases run
    | ok a mid =>
      rw [bind_ok first] at run
      exact Or.inr ⟨a,mid,rfl,e,run⟩
  · rintro (⟨e,first⟩ | ⟨a,mid,first,e,later⟩)
    · exact ⟨e,bind_trap first⟩
    · exact ⟨e,by rw [bind_ok first, later]⟩

/-- Nothing behind the first part can go wrong. -/
theorem faults_then {r : Reader ε α} {f : α → Reader ε β} {bs : List UInt8}
    (safe : ∀ a mid, r bs = .ok a mid → Safe (f a)) : Faults (r >>= f) bs ↔ Faults r bs := by
  rw [faults_bind]
  constructor
  · rintro (fault | ⟨a,mid,run,fault⟩)
    · exact fault
    · exact absurd fault (safe a mid run mid)
  · exact Or.inl

theorem bind_bind {γ : Type} (r : Reader ε α) (f : α → Reader ε β) (g : β → Reader ε γ) :
    (r >>= fun a => f a >>= g) = r >>= f >>= g := by
  funext bs
  cases run : r bs with
  | trap e => rw [bind_trap run, bind_trap (bind_trap run)]
  | fail => rw [bind_fail run, bind_fail (bind_fail run)]
  | ok a mid =>
    have both : (r >>= f) bs = f a mid := bind_ok run
    rw [bind_ok run]
    cases second : f a mid with
    | trap e => rw [bind_trap second, bind_trap (both.trans second)]
    | fail => rw [bind_fail second, bind_fail (both.trans second)]
    | ok b rest => rw [bind_ok second, bind_ok (both.trans second)]

theorem safe_pure (a : α) : Safe (pure a : Reader ε α) := by
  rintro bs ⟨e,run⟩
  cases run

theorem safe_fail : Safe (fail : Reader ε α) := by
  rintro bs ⟨e,run⟩
  cases run

theorem safe_bind {r : Reader ε α} {f : α → Reader ε β} (first : Safe r)
    (second : ∀ a, Safe (f a)) : Safe (r >>= f) := by
  intro bs fault
  exact first bs ((faults_then (fun a _ _ => second a)).mp fault)

theorem faults_lift {x : Except ε α} {bs : List UInt8} :
    Faults (lift x) bs ↔ ¬ ∃ a, x = .ok a := by
  cases x with
  | ok a =>
    constructor
    · intro fault
      exact absurd fault (safe_pure a bs)
    · intro none
      exact absurd ⟨a,rfl⟩ none
  | error e =>
    constructor
    · rintro _ ⟨a,run⟩
      cases run
    · intro _
      exact ⟨e,rfl⟩

theorem safe_lift {x : Except ε α} {a : α} (made : x = .ok a) : Safe (lift x) := by
  intro bs fault
  exact faults_lift.mp fault ⟨a,made⟩

/-- Where it succeeds and leaves something `Left` behind, `r` has taken a chunk
    off the front that is `Whole`; and it takes every such chunk. -/
def Cuts (Left : Layout) (r : Reader ε α) (Whole : Layout) : Prop :=
  ∀ bs mid, Left mid → ((∃ a, r bs = .ok a mid) ↔ ∃ chunk, Whole chunk ∧ bs = chunk ++ mid)

/-- What stays behind keeps this property when more stays behind. -/
def Grows (Left : Layout) : Prop := ∀ chunk mid, Left mid → Left (chunk ++ mid)

section Cutting

variable {Left : Layout} {r : Reader ε α} {Whole : Layout}

theorem cuts_congr {Whole' : Layout} (same : ∀ chunk, Whole chunk ↔ Whole' chunk)
    (cuts : Cuts Left r Whole) : Cuts Left r Whole' := by
  intro bs mid left
  rw [cuts bs mid left]
  simp only [same]

theorem cuts_pure (a : α) : Cuts Left (pure a : Reader ε α) (fun bytes => bytes = []) := by
  intro bs mid _
  constructor
  · rintro ⟨b,run⟩
    cases run
    exact ⟨[],rfl,rfl⟩
  · rintro ⟨_,rfl,rfl⟩
    exact ⟨a,rfl⟩

theorem cuts_fail : Cuts Left (fail : Reader ε α) (fun _ => False) := by
  intro bs mid _
  constructor
  · rintro ⟨a,run⟩
    cases run
  · rintro ⟨_,never,_⟩
    exact never.elim

theorem cuts_bind {f : α → Reader ε β} {Left' Later : Layout} (first : Cuts Left' r Whole)
    (second : ∀ a, Cuts Left (f a) Later)
    (grows : ∀ tail mid, Later tail → Left mid → Left' (tail ++ mid)) :
    Cuts Left (r >>= f) (Joined Whole Later) := by
  intro bs mid left
  constructor
  · rintro ⟨b,run⟩
    obtain ⟨a,next,run,last⟩ := bind_eq_ok.mp run
    obtain ⟨tail,later,rfl⟩ := (second a next mid left).mp ⟨b,last⟩
    obtain ⟨chunk,whole,rfl⟩ := (first bs _ (grows tail mid later left)).mp ⟨a,run⟩
    exact ⟨chunk ++ tail,⟨chunk,tail,whole,later,rfl⟩,by simp⟩
  · rintro ⟨_,⟨chunk,tail,whole,later,rfl⟩,rfl⟩
    obtain ⟨a,run⟩ := (first (chunk ++ (tail ++ mid)) _ (grows tail mid later left)).mpr
      ⟨chunk,whole,rfl⟩
    obtain ⟨b,last⟩ := (second a (tail ++ mid) mid left).mpr ⟨tail,later,rfl⟩
    refine ⟨b,?_⟩
    rw [List.append_assoc, bind_ok run, last]

/-- A last step that reads nothing and succeeds. -/
theorem cuts_map {f : α → β} (cuts : Cuts Left r Whole) :
    Cuts Left (do let a ← r; pure (f a)) Whole := by
  intro bs mid left
  rw [← cuts bs mid left]
  constructor
  · rintro ⟨b,run⟩
    obtain ⟨a,next,run,last⟩ := bind_eq_ok.mp run
    cases last
    exact ⟨a,run⟩
  · rintro ⟨a,run⟩
    exact ⟨f a,by rw [bind_ok run]; rfl⟩

theorem cuts_many (grows : Grows Left) (one : Cuts Left r Whole) (n : Nat) :
    Cuts Left (readMany r n) (Repeated Whole n) := by
  induction n with
  | zero => exact cuts_pure []
  | succ n ih => exact cuts_bind one (fun _ => cuts_map ih) (fun tail mid _ => grows tail mid)

/-- Either the first part goes wrong, or what follows the chunk it takes. -/
theorem faults_joined {f : α → Reader ε β} {Bad Worse : Layout}
    (cuts : Cuts Anything r Whole) (first : ∀ bs, Faults r bs ↔ Bad bs)
    (later : ∀ bs a mid, r bs = .ok a mid → (Faults (f a) mid ↔ Worse mid)) (bs : List UInt8) :
    Faults (r >>= f) bs ↔ Bad bs ∨ Joined Whole Worse bs := by
  rw [faults_bind, first]
  refine or_congr Iff.rfl ?_
  constructor
  · rintro ⟨a,mid,run,fault⟩
    obtain ⟨chunk,whole,rfl⟩ := (cuts bs mid trivial).mp ⟨a,run⟩
    exact ⟨chunk,mid,whole,(later _ a mid run).mp fault,rfl⟩
  · rintro ⟨chunk,mid,whole,worse,rfl⟩
    obtain ⟨a,run⟩ := (cuts _ mid trivial).mpr ⟨chunk,whole,rfl⟩
    exact ⟨a,mid,run,(later _ a mid run).mpr worse⟩

theorem faults_behind {f : α → Reader ε β} {Bad : Layout} (safe : Safe r)
    (cuts : Cuts Anything r Whole) (later : ∀ a bs, Faults (f a) bs ↔ Bad bs) (bs : List UInt8) :
    Faults (r >>= f) bs ↔ Joined Whole Bad bs := by
  have never : ∀ bs, Faults r bs ↔ False := fun bs => iff_false_intro (safe bs)
  rw [faults_joined cuts never (fun _ a mid _ => later a mid), false_or]

/-- A counted list faults where an element does, behind fewer whole ones than
    were announced. -/
theorem faults_many {Bad : Layout} (grows : Grows Left) (one : Cuts Left r Whole)
    (faults : ∀ bs, Faults r bs ↔ Bad bs) (leaves : ∀ bs, Bad bs → Left bs) (n : Nat)
    (bs : List UInt8) : Faults (readMany r n) bs ↔ Within Whole Bad n bs := by
  induction n generalizing bs with
  | zero => exact iff_of_false (safe_pure [] bs) within_zero
  | succ n ih =>
    have tail : ∀ a bs, Faults (do let as ← readMany r n; pure (a :: as)) bs ↔
        Within Whole Bad n bs := by
      intro a bs
      rw [faults_then (fun _ _ _ => safe_pure _), ih]
    have behind : ∀ mid, Within Whole Bad n mid → Left mid := by
      rintro _ ⟨k,_,front,rest,_,bad,rfl⟩
      exact grows front rest (leaves rest bad)
    rw [readMany, faults_bind, faults]
    constructor
    · rintro (bad | ⟨a,mid,first,later⟩)
      · exact ⟨0,Nat.succ_pos n,[],bs,rfl,bad,rfl⟩
      · have within := (tail a mid).mp later
        obtain ⟨chunk,whole,rfl⟩ := (one bs mid (behind mid within)).mp ⟨a,first⟩
        obtain ⟨k,less,front,rest,others,bad,rfl⟩ := within
        exact ⟨k + 1,Nat.succ_lt_succ less,chunk ++ front,rest,⟨chunk,front,whole,others,rfl⟩,bad,
          by simp⟩
    · rintro ⟨k,less,front,rest,whole,bad,rfl⟩
      cases k with
      | zero =>
        cases whole
        exact Or.inl bad
      | succ k =>
        obtain ⟨chunk,front,whole,others,rfl⟩ := whole
        have within : Within Whole Bad n (front ++ rest) :=
          ⟨k,Nat.lt_of_succ_lt_succ less,front,rest,others,bad,rfl⟩
        obtain ⟨a,first⟩ := (one (chunk ++ (front ++ rest)) _ (behind _ within)).mpr
          ⟨chunk,whole,rfl⟩
        rw [List.append_assoc]
        exact Or.inr ⟨a,front ++ rest,first,(tail a _).mpr within⟩

end Cutting

section Fixed

variable {r : Reader ε α} {f : α → Reader ε β} {m n : Nat}

/-- A field of fixed size, which is refused where it is not all there. -/
structure Fixed (r : Reader ε α) (size : Nat) : Prop where
  safe : Safe r
  cuts : Cuts Anything r (Sized size)

theorem fixed_pure (a : α) : Fixed (pure a : Reader ε α) 0 := by
  refine ⟨safe_pure a,cuts_congr ?_ (cuts_pure a)⟩
  intro chunk
  rw [Sized, List.length_eq_zero_iff]

theorem cuts_sized (first : Cuts Anything r (Sized m))
    (second : ∀ a, Cuts Anything (f a) (Sized n)) : Cuts Anything (r >>= f) (Sized (m + n)) :=
  cuts_congr (fun _ => sized_joined) (cuts_bind first second (fun _ _ _ _ => trivial))

theorem fixed_bind (first : Fixed r m) (second : ∀ a, Fixed (f a) n) :
    Fixed (r >>= f) (m + n) where
  safe := safe_bind first.safe (fun a => (second a).safe)
  cuts := cuts_sized first.cuts (fun a => (second a).cuts)

theorem fixed_many (one : Fixed r m) (count : Nat) : Fixed (readMany r count) (count * m) := by
  induction count with
  | zero =>
    rw [Nat.zero_mul]
    exact fixed_pure []
  | succ count ih =>
    rw [Nat.succ_mul, Nat.add_comm (count * m) m]
    exact fixed_bind one (fun _ => fixed_bind ih (fun _ => fixed_pure _))

/-- One more field in front of what goes wrong. -/
theorem faults_fixed {Bad : Layout} (first : Fixed r m)
    (later : ∀ a bs, Faults (f a) bs ↔ Joined (Sized n) Bad bs) (bs : List UInt8) :
    Faults (r >>= f) bs ↔ Joined (Sized (m + n)) Bad bs := by
  rw [faults_behind first.safe first.cuts later, joined_sized]

end Fixed

section Taking

variable {r : Reader ε α} {f : α → Reader ε β} {Spells : α → Layout}

/-- The spellings of each value `r` reads. -/
def Takes (r : Reader ε α) (Spells : α → Layout) : Prop :=
  ∀ bs a mid, r bs = .ok a mid ↔ ∃ front, Spells a front ∧ bs = front ++ mid

/-- A field with one spelling for each value. -/
theorem takes_exact {enc : α → List UInt8} (reads : ∀ a, Reads r (enc a) a)
    (spelled : Spelled r enc (fun _ => true)) : Takes r (fun a bytes => bytes = enc a) := by
  intro bs a mid
  constructor
  · intro run
    exact ⟨enc a,rfl,spelled.exact run⟩
  · rintro ⟨_,rfl,rfl⟩
    exact reads a mid

theorem takes_bind {Later : α → β → Layout} (first : Takes r Spells)
    (second : ∀ a, Takes (f a) (Later a)) :
    Takes (r >>= f) (fun b bytes => ∃ a, Joined (Spells a) (Later a b) bytes) := by
  intro bs b mid
  constructor
  · intro run
    obtain ⟨a,next,run,last⟩ := bind_eq_ok.mp run
    obtain ⟨tail,later,rfl⟩ := (second a next b mid).mp last
    obtain ⟨front,spells,rfl⟩ := (first bs a _).mp run
    exact ⟨front ++ tail,⟨a,front,tail,spells,later,rfl⟩,by simp⟩
  · rintro ⟨_,⟨a,front,tail,spells,later,rfl⟩,rfl⟩
    have run := (first (front ++ (tail ++ mid)) a _).mpr ⟨front,spells,rfl⟩
    have last := (second a (tail ++ mid) b mid).mpr ⟨tail,later,rfl⟩
    rw [List.append_assoc, bind_ok run, last]

theorem Takes.cuts (takes : Takes r Spells) :
    Cuts Anything r (fun bytes => ∃ a, Spells a bytes) := by
  intro bs mid _
  constructor
  · rintro ⟨a,run⟩
    obtain ⟨front,spells,same⟩ := (takes bs a mid).mp run
    exact ⟨front,⟨a,spells⟩,same⟩
  · rintro ⟨front,⟨a,spells⟩,same⟩
    exact ⟨a,(takes bs a mid).mpr ⟨front,spells,same⟩⟩

theorem Takes.faults (takes : Takes r Spells) (safe : Safe r) {Bad : α → Layout}
    (later : ∀ a bs, Faults (f a) bs ↔ Bad a bs) (bs : List UInt8) :
    Faults (r >>= f) bs ↔ ∃ a, Joined (Spells a) (Bad a) bs := by
  rw [faults_bind]
  constructor
  · rintro (fault | ⟨a,mid,run,fault⟩)
    · exact absurd fault (safe bs)
    · obtain ⟨front,spells,rfl⟩ := (takes bs a mid).mp run
      exact ⟨a,front,mid,spells,(later a mid).mp fault,rfl⟩
  · rintro ⟨a,front,mid,spells,bad,rfl⟩
    exact Or.inr ⟨a,mid,(takes _ a mid).mpr ⟨front,spells,rfl⟩,(later a mid).mpr bad⟩

theorem Takes.cuts_bind {Left : Layout} {Whole : α → Layout} (takes : Takes r Spells)
    (second : ∀ a, Cuts Left (f a) (Whole a)) :
    Cuts Left (r >>= f) (fun chunk => ∃ a, Joined (Spells a) (Whole a) chunk) := by
  intro bs mid left
  constructor
  · rintro ⟨b,run⟩
    obtain ⟨a,next,run,last⟩ := bind_eq_ok.mp run
    obtain ⟨tail,whole,rfl⟩ := (second a next mid left).mp ⟨b,last⟩
    obtain ⟨front,spells,rfl⟩ := (takes bs a _).mp run
    exact ⟨front ++ tail,⟨a,front,tail,spells,whole,rfl⟩,by simp⟩
  · rintro ⟨_,⟨a,front,tail,spells,whole,rfl⟩,rfl⟩
    have run := (takes (front ++ (tail ++ mid)) a _).mpr ⟨front,spells,rfl⟩
    obtain ⟨b,last⟩ := (second a (tail ++ mid) mid left).mpr ⟨tail,whole,rfl⟩
    refine ⟨b,?_⟩
    rw [List.append_assoc, bind_ok run, last]

end Taking

section Demanding

/-- A reader of these bytes and no others, with nothing to tell of them. -/
def Demands (r : Reader ε Unit) (bytes : List UInt8) : Prop := ∀ bs,
  (∃ rest, bs = bytes ++ rest ∧ r bs = .ok () rest) ∨
    (∀ rest, bs ≠ bytes ++ rest) ∧ r bs = .fail

variable {r q : Reader ε Unit} {bytes more : List UInt8}

theorem Demands.reads (demands : Demands r bytes) : Reads r bytes () := by
  intro rest
  rcases demands (bytes ++ rest) with ⟨rest',same,run⟩ | ⟨other,_⟩
  · cases List.append_cancel_left same
    exact run
  · exact absurd rfl (other rest)

theorem demands_bind (first : Demands r bytes) (second : Demands q more) :
    Demands (do r; q) (bytes ++ more) := by
  intro bs
  rcases first bs with ⟨mid,rfl,run⟩ | ⟨other,stop⟩
  · rcases second mid with ⟨rest,rfl,later⟩ | ⟨other,stop⟩
    · exact Or.inl ⟨rest,by simp,by rw [bind_ok run, later]⟩
    · refine Or.inr ⟨?_,by rw [bind_ok run, stop]⟩
      intro rest same
      rw [List.append_assoc] at same
      exact other rest (List.append_cancel_left same)
  · refine Or.inr ⟨?_,bind_fail stop⟩
    intro rest same
    exact other (more ++ rest) (by rw [same, List.append_assoc])

end Demanding

end ReaderFaults
