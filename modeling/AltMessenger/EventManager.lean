import Mathlib.Logic.Function.Basic
import AltMessenger.TransitionRuns

/-!
Analytics events on their way to the server: from a buffer to files, and from the files to
requests. The operations run one at a time, in any order, and each write, read, removal and answer
may fail. An event that was pushed is known by its number.
-/
namespace EventManager
open TransitionRuns

structure Event (Time : Type) where
  sessionId : String
  time : Time
  eventName : String
  attributes : List (String × String)
  deriving DecidableEq

structure Pushed (Time : Type) where
  number : Nat
  event : Event Time
  deriving DecidableEq

/-- A file of the data directory; there are no contents where it is no array of events. -/
structure File (Time : Type) where
  name : Nat
  contents : Option (List (Pushed Time))
  deriving DecidableEq

/-- A request with the events of a file. -/
structure Request (Time : Type) where
  file : Nat
  events : List (Pushed Time)
  deriving DecidableEq

structure Manager (Time : Type) where
  buffer : List (Pushed Time)
  files : List (File Time)
  /-- the requests in flight -/
  requests : List (Request Time)
  /-- the files to be removed, by operations that are queued -/
  removals : List Nat
  /-- the requests that the server answered with 200 -/
  acknowledged : List (Request Time)
  pushed : Nat
  /-- the names given to files so far -/
  names : Nat
  deriving DecidableEq

/-- What becomes of writing the buffer to a new file. -/
inductive Write where
  | noStream
  | invalidJson
  | failed (leavesFile : Bool)
  | saved

inductive Step (Time : Type) where
  | pushEvent (event : Event Time)
  | persistToDisk (write : Write)
  /-- whether the directory can be listed, and the files that cannot be read -/
  | sendToServer (listed : Bool) (unreadable : List Nat)
  /-- the answer to a request in flight; there is no status after a network error -/
  | answer (request : Nat) (statusCode : Option Int)
  | remove (removal : Nat) (succeeds : Bool)

variable {Time : Type}

def initial : Manager Time := ⟨[],[],[],[],[],0,0⟩

namespace Manager

def pushEvent (s : Manager Time) (event : Event Time) : Manager Time :=
  { s with buffer := s.buffer ++ [⟨s.pushed,event⟩], pushed := s.pushed + 1 }

def newFile (s : Manager Time) (contents : Option (List (Pushed Time))) : Manager Time :=
  { s with files := s.files ++ [⟨s.names,contents⟩], names := s.names + 1 }

def clearBuffer (s : Manager Time) : Manager Time := { s with buffer := [] }

def persistToDisk (s : Manager Time) : Write → Manager Time
  | .noStream => s.clearBuffer
  -- the guard returns before the buffer is cleared
  | .invalidJson => s.newFile none
  | .failed leavesFile => if leavesFile then (s.newFile none).clearBuffer else s.clearBuffer
  | .saved => (s.newFile (some s.buffer)).clearBuffer

/-- The request for a file that can be read. -/
def requestFor (unreadable : List Nat) (file : File Time) : Option (Request Time) :=
  if file.name ∈ unreadable then none else file.contents.map fun events => ⟨file.name,events⟩

def sendToServer (s : Manager Time) (listed : Bool) (unreadable : List Nat) : Manager Time :=
  if listed then { s with requests := s.requests ++ s.files.filterMap (requestFor unreadable) }
  else s

/-- The handler of a request: the file is to be removed, whatever the answer. -/
def answered (s : Manager Time) (request : Request Time) (statusCode : Option Int) :
    Manager Time :=
  { s with
    acknowledged := if statusCode = some 200 then s.acknowledged ++ [request] else s.acknowledged
    removals := s.removals ++ [request.file] }

def removeItem (s : Manager Time) (name : Nat) (succeeds : Bool) : Manager Time :=
  if succeeds then { s with files := s.files.filter fun file => file.name ≠ name } else s

end Manager

def step (s : Manager Time) : Step Time → Option (Manager Time)
  | .pushEvent event => some (s.pushEvent event)
  | .persistToDisk write => some (s.persistToDisk write)
  | .sendToServer listed unreadable => some (s.sendToServer listed unreadable)
  | .answer i statusCode =>
    s.requests[i]?.map fun request =>
      { s with requests := s.requests.eraseIdx i }.answered request statusCode
  | .remove i succeeds =>
    s.removals[i]?.map fun name =>
      { s with removals := s.removals.eraseIdx i }.removeItem name succeeds

def Holds (events : List (Pushed Time)) (n : Nat) : Prop := ∃ pushed ∈ events, pushed.number = n

instance (events : List (Pushed Time)) (n : Nat) : Decidable (Holds events n) :=
  inferInstanceAs (Decidable (∃ pushed ∈ events, pushed.number = n))

/-- The event is in the buffer, in a file, in a request in flight, or was sent in a request that
    the server answered with 200. -/
def Kept (s : Manager Time) (n : Nat) : Prop :=
  Holds s.buffer n ∨ (∃ file ∈ s.files, Holds (file.contents.getD []) n) ∨
    (∃ request ∈ s.requests, Holds request.events n) ∨
    ∃ request ∈ s.acknowledged, Holds request.events n

instance (s : Manager Time) (n : Nat) : Decidable (Kept s n) :=
  inferInstanceAs (Decidable (_ ∨ _ ∨ _ ∨ _))

def AllKept (s : Manager Time) : Prop := ∀ n < s.pushed, Kept s n

instance (s : Manager Time) : Decidable (AllKept s) :=
  inferInstanceAs (Decidable (∀ n < s.pushed, Kept s n))

/-- A file that can be read, a request in flight, or one that was acknowledged has the events
    saved under the name. -/
def Held (s : Manager Time) (name : Nat) : Prop :=
  (∃ file ∈ s.files, file.name = name ∧ file.contents ≠ none) ∨
    (∃ request ∈ s.requests, request.file = name) ∨ ∃ request ∈ s.acknowledged, request.file = name

/-- The step does not give up the last place of an event that was not acknowledged. -/
def KeepsEvents (s : Manager Time) : Step Time → Prop
  | .persistToDisk .noStream => s.buffer = []
  | .persistToDisk (.failed _) => s.buffer = []
  | .answer i statusCode => statusCode = some 200 ∨ ∀ request, s.requests[i]? = some request →
      request.events = [] ∨ Held { s with requests := s.requests.eraseIdx i } request.file
  | .remove i succeeds => succeeds = false ∨ ∀ name, s.removals[i]? = some name →
      (∀ file ∈ s.files, file.name = name → file.contents.getD [] = []) ∨
        (∃ request ∈ s.requests, request.file = name) ∨
        ∃ request ∈ s.acknowledged, request.file = name
  | _ => True

/-- What was saved under each name; what files and requests have is this. -/
structure Archive (s : Manager Time) (saved : Nat → List (Pushed Time)) : Prop where
  file : ∀ file ∈ s.files, ∀ events, file.contents = some events → events = saved file.name
  request : ∀ request ∈ s.requests, request.events = saved request.file
  acknowledged : ∀ request ∈ s.acknowledged, request.events = saved request.file
  apart : ∀ n, Holds s.buffer n → ∀ name, ¬ Holds (saved name) n
  once : ∀ n a b, Holds (saved a) n → Holds (saved b) n → a = b
  numbered : ∀ n, Holds s.buffer n → n < s.pushed
  archived : ∀ n name, Holds (saved name) n → n < s.pushed
  later : ∀ name, s.names ≤ name → saved name = []
  named : ∀ file ∈ s.files, file.name < s.names
  sent : ∀ request ∈ s.requests, request.file < s.names
  answered : ∀ request ∈ s.acknowledged, request.file < s.names

section Kept
variable {s t : Manager Time} {saved : Nat → List (Pushed Time)}

theorem not_holds_nil (n : Nat) : ¬ Holds ([] : List (Pushed Time)) n :=
  fun ⟨_,inside,_⟩ => nomatch inside

theorem holds_of_ne_nil {events : List (Pushed Time)} (more : events ≠ []) : ∃ n, Holds events n := by
  cases events with
  | nil => exact absurd rfl more
  | cons first rest => exact ⟨first.number,first,List.mem_cons_self,rfl⟩

/-- An event is kept in the buffer, or under a name that is held. -/
theorem kept_iff (archive : Archive s saved) (n : Nat) :
    Kept s n ↔ Holds s.buffer n ∨ ∃ name, Holds (saved name) n ∧ Held s name := by
  unfold Kept Held
  constructor
  · intro kept
    rcases kept with here | ⟨file,there,holds⟩ | ⟨request,there,holds⟩ | ⟨request,there,holds⟩
    · exact Or.inl here
    · cases contents : file.contents with
      | none =>
        rw [contents] at holds
        exact absurd holds (not_holds_nil n)
      | some events =>
        have same := archive.file file there events contents
        rw [contents, Option.getD_some, same] at holds
        exact Or.inr ⟨file.name,holds,Or.inl ⟨file,there,rfl,by rw [contents]; exact nofun⟩⟩
    · rw [archive.request request there] at holds
      exact Or.inr ⟨_,holds,Or.inr (Or.inl ⟨request,there,rfl⟩)⟩
    · rw [archive.acknowledged request there] at holds
      exact Or.inr ⟨_,holds,Or.inr (Or.inr ⟨request,there,rfl⟩)⟩
  · intro held
    rcases held with here | ⟨name,holds,held⟩
    · exact Or.inl here
    rcases held with ⟨file,there,named,readable⟩ | ⟨request,there,named⟩ | ⟨request,there,named⟩
    · obtain ⟨events,contents⟩ := Option.ne_none_iff_exists'.mp readable
      refine Or.inr (Or.inl ⟨file,there,?_⟩)
      rw [contents, Option.getD_some, archive.file file there events contents, named]
      exact holds
    · refine Or.inr (Or.inr (Or.inl ⟨request,there,?_⟩))
      rw [archive.request request there, named]
      exact holds
    · refine Or.inr (Or.inr (Or.inr ⟨request,there,?_⟩))
      rw [archive.acknowledged request there, named]
      exact holds

/-- A step that only adds to what is held loses nothing. -/
theorem all_kept_of_held (before : Archive s saved) (after : Archive t saved)
    (buffer : t.buffer = s.buffer) (pushed : t.pushed = s.pushed)
    (held : ∀ name, Held s name → Held t name) (kept : AllKept s) : AllKept t := by
  intro n below
  rw [pushed] at below
  rw [kept_iff after, buffer]
  rcases (kept_iff before n).mp (kept n below) with here | ⟨name,holds,there⟩
  · exact Or.inl here
  · exact Or.inr ⟨name,holds,held name there⟩

/-- A step that may let go of one name loses nothing exactly if nothing was saved under it, or it
    is held still. -/
theorem all_kept_iff_held (before : Archive s saved) (after : Archive t saved)
    (buffer : t.buffer = s.buffer) (pushed : t.pushed = s.pushed) (name : Nat)
    (held : ∀ other, other ≠ name → Held s other → Held t other) (kept : AllKept s) :
    AllKept t ↔ saved name = [] ∨ Held t name := by
  constructor
  · intro all
    by_cases empty : saved name = []
    · exact Or.inl empty
    obtain ⟨n,holds⟩ := holds_of_ne_nil empty
    have below := after.archived n name holds
    rcases (kept_iff after n).mp (all n below) with here | ⟨other,too,there⟩
    · exact absurd holds (after.apart n here name)
    · cases after.once n other name too holds
      exact Or.inr there
  · intro either n below
    rw [pushed] at below
    rw [kept_iff after, buffer]
    rcases (kept_iff before n).mp (kept n below) with here | ⟨other,holds,there⟩
    · exact Or.inl here
    · by_cases same : other = name
      · rcases either with empty | still
        · rw [same, empty] at holds
          exact absurd holds (not_holds_nil n)
        · exact Or.inr ⟨name,same ▸ holds,still⟩
      · exact Or.inr ⟨other,holds,held other same there⟩

end Kept

section Archives
variable {s : Manager Time} {saved : Nat → List (Pushed Time)}

theorem holds_snoc {events : List (Pushed Time)} {last : Pushed Time} {n : Nat} :
    Holds (events ++ [last]) n ↔ Holds events n ∨ last.number = n := by
  simp [Holds, or_and_right, exists_or]

theorem Archive.pushEvent (archive : Archive s saved) (event : Event Time) :
    Archive (s.pushEvent event) saved := by
  refine ⟨archive.file,archive.request,archive.acknowledged,?_,archive.once,?_,?_,archive.later,
    archive.named,archive.sent,archive.answered⟩
  · intro n holds name
    rcases holds_snoc.mp holds with before | new
    · exact archive.apart n before name
    · intro there
      have below := archive.archived n name there
      have number : s.pushed = n := new
      omega
  · intro n holds
    rcases holds_snoc.mp holds with before | new
    · exact Nat.lt_succ_of_lt (archive.numbered n before)
    · exact Nat.lt_succ_of_le (Nat.le_of_eq new.symm)
  · exact fun n name there => Nat.lt_succ_of_lt (archive.archived n name there)

theorem Archive.clearBuffer (archive : Archive s saved) : Archive s.clearBuffer saved :=
  ⟨archive.file,archive.request,archive.acknowledged,fun n holds => absurd holds (not_holds_nil n),
    archive.once,fun n holds => absurd holds (not_holds_nil n),archive.archived,archive.later,
    archive.named,archive.sent,archive.answered⟩

/-- A new file has the next name. -/
theorem Archive.named_newFile (archive : Archive s saved)
    (contents : Option (List (Pushed Time))) :
    ∀ file ∈ (s.newFile contents).files, file.name < s.names + 1 := by
  intro file there
  rcases List.mem_append.mp there with before | new
  · exact Nat.lt_succ_of_lt (archive.named file before)
  · rw [List.mem_singleton.mp new]
    exact Nat.lt_succ_self s.names

/-- A new file without events in it. -/
theorem Archive.newFile (archive : Archive s saved) : Archive (s.newFile none) saved := by
  refine ⟨?_,archive.request,archive.acknowledged,archive.apart,archive.once,archive.numbered,
    archive.archived,?_,?_,?_,?_⟩
  · intro file there events contents
    rcases List.mem_append.mp there with before | new
    · exact archive.file file before events contents
    · rw [List.mem_singleton.mp new] at contents
      cases contents
  · exact fun name above => archive.later name (Nat.le_of_succ_le above)
  · exact archive.named_newFile none
  · exact fun request there => Nat.lt_succ_of_lt (archive.sent request there)
  · exact fun request there => Nat.lt_succ_of_lt (archive.answered request there)

/-- A new file takes the events of the buffer under its name. -/
theorem Archive.save (archive : Archive s saved) :
    Archive (s.newFile (some s.buffer)).clearBuffer (Function.update saved s.names s.buffer) := by
  have old : ∀ {name}, name < s.names →
      Function.update saved s.names s.buffer name = saved name :=
    fun below => Function.update_of_ne (Nat.ne_of_lt below) _ _
  refine ⟨?_,?_,?_,fun n holds => absurd holds (not_holds_nil n),?_,
    fun n holds => absurd holds (not_holds_nil n),?_,?_,?_,?_,?_⟩
  · intro file there events contents
    rcases List.mem_append.mp there with before | new
    · rw [old (archive.named file before)]
      exact archive.file file before events contents
    · rw [List.mem_singleton.mp new] at contents ⊢
      cases contents
      exact (Function.update_self s.names s.buffer saved).symm
  · intro request there
    rw [old (archive.sent request there)]
    exact archive.request request there
  · intro request there
    rw [old (archive.answered request there)]
    exact archive.acknowledged request there
  · intro n a b first second
    by_cases newA : a = s.names <;> by_cases newB : b = s.names
    · rw [newA, newB]
    · rw [newA, Function.update_self] at first
      rw [Function.update_of_ne newB] at second
      exact absurd second (archive.apart n first b)
    · rw [newB, Function.update_self] at second
      rw [Function.update_of_ne newA] at first
      exact absurd first (archive.apart n second a)
    · rw [Function.update_of_ne newA] at first
      rw [Function.update_of_ne newB] at second
      exact archive.once n a b first second
  · intro n name there
    by_cases new : name = s.names
    · rw [new, Function.update_self] at there
      exact archive.numbered n there
    · rw [Function.update_of_ne new] at there
      exact archive.archived n name there
  · intro name above
    have after : s.names < name := above
    rw [Function.update_of_ne (Nat.ne_of_gt after)]
    exact archive.later name (Nat.le_of_lt after)
  · exact archive.named_newFile (some s.buffer)
  · exact fun request there => Nat.lt_succ_of_lt (archive.sent request there)
  · exact fun request there => Nat.lt_succ_of_lt (archive.answered request there)

theorem requestFor_some {unreadable : List Nat} {file : File Time} {request : Request Time}
    (made : Manager.requestFor unreadable file = some request) :
    request.file = file.name ∧ file.contents = some request.events := by
  unfold Manager.requestFor at made
  split at made
  case isTrue => cases made
  case isFalse =>
    obtain ⟨events,contents,built⟩ := Option.map_eq_some_iff.mp made
    rw [← built]
    exact ⟨rfl,contents⟩

theorem Archive.sendToServer (archive : Archive s saved) (listed : Bool)
    (unreadable : List Nat) : Archive (s.sendToServer listed unreadable) saved := by
  unfold Manager.sendToServer
  split
  case isFalse => exact archive
  case isTrue =>
    refine ⟨archive.file,?_,archive.acknowledged,archive.apart,archive.once,archive.numbered,
      archive.archived,archive.later,archive.named,?_,archive.answered⟩
    · intro request there
      rcases List.mem_append.mp there with before | new
      · exact archive.request request before
      · obtain ⟨file,inside,made⟩ := List.mem_filterMap.mp new
        obtain ⟨named,contents⟩ := requestFor_some made
        rw [named]
        exact archive.file file inside _ contents
    · intro request there
      rcases List.mem_append.mp there with before | new
      · exact archive.sent request before
      · obtain ⟨file,inside,made⟩ := List.mem_filterMap.mp new
        rw [(requestFor_some made).1]
        exact archive.named file inside

theorem Archive.answer (archive : Archive s saved) {i : Nat} {request : Request Time}
    (there : s.requests[i]? = some request) (statusCode : Option Int) :
    Archive ({ s with requests := s.requests.eraseIdx i }.answered request statusCode) saved := by
  have inside : request ∈ s.requests := List.mem_of_getElem? there
  refine ⟨archive.file,?_,?_,archive.apart,archive.once,archive.numbered,archive.archived,
    archive.later,archive.named,?_,?_⟩
  · exact fun other left => archive.request other (List.mem_of_mem_eraseIdx left)
  · intro other left
    simp only [Manager.answered] at left
    split at left
    · rcases List.mem_append.mp left with before | new
      · exact archive.acknowledged other before
      · rw [List.mem_singleton.mp new]
        exact archive.request request inside
    · exact archive.acknowledged other left
  · exact fun other left => archive.sent other (List.mem_of_mem_eraseIdx left)
  · intro other left
    simp only [Manager.answered] at left
    split at left
    · rcases List.mem_append.mp left with before | new
      · exact archive.answered other before
      · rw [List.mem_singleton.mp new]
        exact archive.sent request inside
    · exact archive.answered other left

theorem Archive.remove (archive : Archive s saved) (removals : List Nat) (name : Nat)
    (succeeds : Bool) : Archive ({ s with removals }.removeItem name succeeds) saved := by
  unfold Manager.removeItem
  split
  case isFalse =>
    exact ⟨archive.file,archive.request,archive.acknowledged,archive.apart,archive.once,
      archive.numbered,archive.archived,archive.later,archive.named,archive.sent,archive.answered⟩
  case isTrue =>
    refine ⟨?_,archive.request,archive.acknowledged,archive.apart,archive.once,
      archive.numbered,archive.archived,archive.later,?_,archive.sent,archive.answered⟩
    · exact fun file left => archive.file file (List.mem_filter.mp left).1
    · exact fun file left => archive.named file (List.mem_filter.mp left).1

end Archives

/-- Something was saved under each name that explains what is where. -/
def Archived (s : Manager Time) : Prop := ∃ saved, Archive s saved

theorem initial_archived : Archived (initial : Manager Time) :=
  ⟨fun _ => [],nofun,nofun,nofun,nofun,nofun,nofun,nofun,fun _ _ => rfl,nofun,nofun,nofun⟩

theorem step_archived (s : Manager Time) (e : Step Time) (t : Manager Time) (archived : Archived s)
    (taken : step s e = some t) : Archived t := by
  obtain ⟨saved,archive⟩ := archived
  cases e with
  | pushEvent event =>
    cases taken
    exact ⟨saved,archive.pushEvent event⟩
  | persistToDisk write =>
    cases taken
    cases write with
    | noStream => exact ⟨saved,archive.clearBuffer⟩
    | invalidJson => exact ⟨saved,archive.newFile⟩
    | failed leavesFile =>
      cases leavesFile with
      | false => exact ⟨saved,archive.clearBuffer⟩
      | true => exact ⟨saved,archive.newFile.clearBuffer⟩
    | saved => exact ⟨_,archive.save⟩
  | sendToServer listed unreadable =>
    cases taken
    exact ⟨saved,archive.sendToServer listed unreadable⟩
  | answer i statusCode =>
    obtain ⟨request,there,made⟩ := Option.map_eq_some_iff.mp taken
    exact ⟨saved,made ▸ archive.answer there statusCode⟩
  | remove i succeeds =>
    obtain ⟨name,_,made⟩ := Option.map_eq_some_iff.mp taken
    exact ⟨saved,made ▸ archive.remove _ name succeeds⟩

section Exact
variable {s : Manager Time} {saved : Nat → List (Pushed Time)}

theorem push_keeps (kept : AllKept s) (event : Event Time) : AllKept (s.pushEvent event) := by
  intro n below
  rcases Nat.lt_succ_iff_lt_or_eq.mp below with before | new
  · rcases kept n before with here | elsewhere
    · exact Or.inl (holds_snoc.mpr (Or.inl here))
    · exact Or.inr elsewhere
  · exact Or.inl (holds_snoc.mpr (Or.inr new.symm))

/-- A buffer that is cleared unsaved must have been empty. -/
theorem clear_keeps_iff (archive : Archive s saved) (kept : AllKept s) :
    AllKept s.clearBuffer ↔ s.buffer = [] := by
  constructor
  · intro all
    by_contra more
    obtain ⟨n,holds⟩ := holds_of_ne_nil more
    have below := archive.numbered n holds
    rcases (kept_iff archive.clearBuffer n).mp (all n below) with here | ⟨name,there,_⟩
    · exact not_holds_nil n here
    · exact archive.apart n holds name there
  · intro empty n below
    rcases kept n below with here | elsewhere
    · rw [empty] at here
      exact absurd here (not_holds_nil n)
    · exact Or.inr elsewhere

theorem newFile_keeps (archive : Archive s saved) (kept : AllKept s) :
    AllKept (s.newFile none) := by
  refine all_kept_of_held archive archive.newFile rfl rfl ?_ kept
  intro name held
  rcases held with ⟨file,there,readable⟩ | other
  · exact Or.inl ⟨file,List.mem_append_left _ there,readable⟩
  · exact Or.inr other

theorem save_keeps (kept : AllKept s) : AllKept (s.newFile (some s.buffer)).clearBuffer := by
  intro n below
  rcases kept n below with here | ⟨file,there,holds⟩ | sent
  · exact Or.inr (Or.inl ⟨⟨s.names,some s.buffer⟩,List.mem_append_right _ List.mem_cons_self,here⟩)
  · exact Or.inr (Or.inl ⟨file,List.mem_append_left _ there,holds⟩)
  · exact Or.inr (Or.inr sent)

theorem send_keeps (kept : AllKept s) (listed : Bool) (unreadable : List Nat) :
    AllKept (s.sendToServer listed unreadable) := by
  cases listed with
  | false => exact kept
  | true =>
    intro n below
    rcases kept n below with here | there | ⟨request,there,holds⟩ | acknowledged
    · exact Or.inl here
    · exact Or.inr (Or.inl there)
    · exact Or.inr (Or.inr (Or.inl ⟨request,List.mem_append_left _ there,holds⟩))
    · exact Or.inr (Or.inr (Or.inr acknowledged))

theorem answer_keeps_iff (archive : Archive s saved) (kept : AllKept s) {i : Nat}
    {request : Request Time} (there : s.requests[i]? = some request) (statusCode : Option Int) :
    AllKept ({ s with requests := s.requests.eraseIdx i }.answered request statusCode) ↔
      KeepsEvents s (.answer i statusCode) := by
  have after := archive.answer there statusCode
  have others : ∀ other, other ≠ request.file → Held s other →
      Held ({ s with requests := s.requests.eraseIdx i }.answered request statusCode) other := by
    intro other differs held
    rcases held with files | ⟨sent,inside,named⟩ | ⟨sent,inside,named⟩
    · exact Or.inl files
    · refine Or.inr (Or.inl ⟨sent,?_,named⟩)
      obtain ⟨j,at_j⟩ := List.getElem?_of_mem inside
      have apart : j ≠ i := by
        intro same
        rw [same, there] at at_j
        cases at_j
        exact differs named.symm
      exact List.mem_eraseIdx_iff_getElem?.mpr ⟨j,apart,at_j⟩
    · refine Or.inr (Or.inr ⟨sent,?_,named⟩)
      simp only [Manager.answered]
      split
      · exact List.mem_append_left _ inside
      · exact inside
  rw [all_kept_iff_held archive after rfl rfl request.file others kept,
    ← archive.request request (List.mem_of_getElem? there)]
  by_cases success : statusCode = some 200
  · refine iff_of_true (Or.inr (Or.inr (Or.inr ⟨request,?_,rfl⟩))) (Or.inl success)
    simp [Manager.answered, success]
  · have same : Held ({ s with requests := s.requests.eraseIdx i }.answered request statusCode) =
        Held { s with requests := s.requests.eraseIdx i } := by
      unfold Manager.answered
      rw [if_neg success]
      rfl
    rw [same]
    constructor
    · intro still
      refine Or.inr fun other found => ?_
      cases there.symm.trans found
      exact still
    · intro still
      exact (still.resolve_left success) request there

theorem remove_keeps_iff (archive : Archive s saved) (kept : AllKept s) {i name : Nat}
    (there : s.removals[i]? = some name) (succeeds : Bool) :
    AllKept ({ s with removals := s.removals.eraseIdx i }.removeItem name succeeds) ↔
      KeepsEvents s (.remove i succeeds) := by
  have after := archive.remove (s.removals.eraseIdx i) name succeeds
  cases succeeds with
  | false =>
    refine iff_of_true ?_ (Or.inl rfl)
    exact all_kept_of_held archive after rfl rfl (fun _ held => held) kept
  | true =>
    have others : ∀ other, other ≠ name → Held s other →
        Held ({ s with removals := s.removals.eraseIdx i }.removeItem name true) other := by
      intro other differs held
      rcases held with ⟨file,inside,named,readable⟩ | elsewhere
      · refine Or.inl ⟨file,List.mem_filter.mpr ⟨inside,?_⟩,named,readable⟩
        simpa [named] using differs
      · exact Or.inr elsewhere
    rw [all_kept_iff_held archive after rfl rfl name others kept]
    constructor
    · intro still
      refine Or.inr fun other found => ?_
      cases there.symm.trans found
      rcases still with empty | ⟨file,left,named,_⟩ | elsewhere
      · refine Or.inl fun file inside named => ?_
        cases contents : file.contents with
        | none => rfl
        | some events =>
          rw [Option.getD_some, archive.file file inside events contents, named, empty]
      · have other := (List.mem_filter.mp left).2
        simp [named] at other
      · exact Or.inr elsewhere
    · intro still
      rcases (still.resolve_left nofun) name there with empty | elsewhere
      · by_contra neither
        obtain ⟨more,gone⟩ := not_or.mp neither
        obtain ⟨n,holds⟩ := holds_of_ne_nil more
        rcases (kept_iff archive n).mp (kept n (archive.archived n name holds)) with
          here | ⟨other,too,held⟩
        · exact archive.apart n here name holds
        · cases archive.once n other name too holds
          rcases held with ⟨file,inside,named,readable⟩ | elsewhere
          · obtain ⟨events,contents⟩ := Option.ne_none_iff_exists'.mp readable
            have none_in := empty file inside named
            rw [contents, Option.getD_some, archive.file file inside events contents, named]
              at none_in
            exact more none_in
          · exact gone (Or.inr elsewhere)
      · exact Or.inr (Or.inr elsewhere)

end Exact

/-- A step keeps the events exactly if it meets its condition. -/
theorem step_keeps_iff (s : Manager Time) (e : Step Time) (t : Manager Time)
    (archived : Archived s) (kept : AllKept s) (taken : step s e = some t) :
    AllKept t ↔ KeepsEvents s e := by
  obtain ⟨saved,archive⟩ := archived
  cases e with
  | pushEvent event =>
    cases taken
    exact iff_of_true (push_keeps kept event) trivial
  | persistToDisk write =>
    cases taken
    cases write with
    | noStream => exact clear_keeps_iff archive kept
    | invalidJson => exact iff_of_true (newFile_keeps archive kept) trivial
    | failed leavesFile =>
      cases leavesFile with
      | false => exact clear_keeps_iff archive kept
      | true => exact clear_keeps_iff archive.newFile (newFile_keeps archive kept)
    | saved => exact iff_of_true (save_keeps kept) trivial
  | sendToServer listed unreadable =>
    cases taken
    exact iff_of_true (send_keeps kept listed unreadable) trivial
  | answer i statusCode =>
    obtain ⟨request,there,made⟩ := Option.map_eq_some_iff.mp taken
    exact made ▸ answer_keeps_iff archive kept there statusCode
  | remove i succeeds =>
    obtain ⟨name,there,made⟩ := Option.map_eq_some_iff.mp taken
    exact made ▸ remove_keeps_iff archive kept there succeeds

/-- In a run no event is lost at any time exactly if its steps keep to their conditions. -/
theorem events_kept_iff {steps : List (Step Time)} {s : Manager Time}
    (run : exec step initial steps = some s) :
    (∀ done t, done <+: steps → exec step initial done = some t → AllKept t) ↔
      Along step KeepsEvents initial steps :=
  exec_good_iff step_archived step_keeps_iff initial_archived (fun _ below => nomatch below) run

def opened : Event Nat := ⟨"session",0,"foreground",[]⟩

/-- An event that is saved and sent, with an answer, after which its file is removed. -/
def sentOnce (statusCode : Option Int) : List (Step Nat) :=
  [.pushEvent opened,.persistToDisk .saved,.sendToServer true [],.answer 0 statusCode,
    .remove 0 true]

theorem accepted_kept :
    (∀ done t, done <+: sentOnce (some 200) → exec step initial done = some t → AllKept t) ↔
      Along step KeepsEvents initial (sentOnce (some 200)) :=
  events_kept_iff (s := ⟨[],[],[],[],[⟨0,[⟨0,opened⟩]⟩],1,1⟩) (by decide)

/-- After a server error the file goes, and the event with it. -/
theorem refused_lost :
    ¬ ∀ done t, done <+: sentOnce (some 500) → exec step initial done = some t → AllKept t := by
  intro all
  have last := all (sentOnce (some 500)) ⟨[],[],[],[],[],1,1⟩ List.prefix_rfl (by decide)
  revert last
  decide

end EventManager
