import AltMessenger.TransitionRuns

/-!
`sync` of the unsent events, with the completion handler it is given: the operation that it queues
uploads the files of the directory, and each upload calls the handler when it is answered. The
answers come in any order.
-/
namespace EventSync
open TransitionRuns

/-- What comes of reading a file and making the body of its request. -/
inductive Reading (Body : Type) where
  | noStream
  | notEvents
  | noBody
  | body (body : Body)

structure File (Body : Type) where
  baseName : String
  reading : Reading Body

/-- What the operation finds when it is run: the manager, and the files if they can be listed. -/
structure Found (Body : Type) where
  alive : Bool
  files : Option (List (File Body))

structure Upload (Body : Type) where
  fileName : String
  httpBody : Body

inductive Happening (Body : Type) where
  | started (upload : Upload Body)
  | answered (upload : Upload Body)
  | completed

structure State (Body : Type) where
  queued : Bool
  inFlight : List (Upload Body)
  happened : List (Happening Body)

inductive Step where
  | operation
  /-- the answer to an upload; there is no status after a network error -/
  | answer (upload : Nat) (statusCode : Option Int)

variable {Body : Type}

/-- `sync`: what it queues where recording is not permitted has no completion handler. -/
def sync (shouldRecordData : Bool) : State Body := ⟨shouldRecordData,[],[]⟩

def uploadOf (file : File Body) : Option (Upload Body) :=
  match file.reading with
  | .body body => some ⟨"/" ++ file.baseName,body⟩
  | _ => none

def uploads (found : Found Body) : List (Upload Body) :=
  match found.alive, found.files with
  | true, some files => files.filterMap uploadOf
  | _, _ => []

def sendToServer (found : Found Body) (s : State Body) : State Body :=
  { queued := false
    inFlight := s.inFlight ++ uploads found
    happened := s.happened ++ (uploads found).map .started }

/-- The handler of a request calls the completion handler, whatever the answer. -/
def answered (s : State Body) (upload : Upload Body) : State Body :=
  { s with happened := s.happened ++ [.answered upload,.completed] }

def step (found : Found Body) (s : State Body) : Step → Option (State Body)
  | .operation => if s.queued then some (sendToServer found s) else none
  | .answer i _ =>
    s.inFlight[i]?.map fun upload =>
      answered { s with inFlight := s.inFlight.eraseIdx i } upload

def Finished (s : State Body) : Prop := s.queued = false ∧ s.inFlight = []

/-- The completion handler is called at the end and not before. -/
def ReportsOnce (happened : List (Happening Body)) : Prop :=
  ∃ before, happened = before ++ [.completed] ∧ .completed ∉ before

def Happening.completes : Happening Body → Bool
  | .completed => true
  | _ => false

def completions (happened : List (Happening Body)) : Nat := happened.countP Happening.completes

/-- The uploads that a sync starts. -/
def started (shouldRecordData : Bool) (found : Found Body) : List (Upload Body) :=
  if shouldRecordData then uploads found else []

/-- Each upload has been answered and reported, or is in flight. -/
structure Counted (shouldRecordData : Bool) (found : Found Body) (s : State Body) : Prop where
  waiting : s.queued = true → shouldRecordData = true ∧ s.inFlight = [] ∧ s.happened = []
  counted : s.queued = false →
    completions s.happened + s.inFlight.length = (started shouldRecordData found).length
  last : completions s.happened = 0 ∨ ∃ before, s.happened = before ++ [.completed]

section Runs
variable {shouldRecordData : Bool} {found : Found Body} {s t : State Body}

theorem completions_append (before after : List (Happening Body)) :
    completions (before ++ after) = completions before + completions after :=
  List.countP_append

theorem completions_started (uploads : List (Upload Body)) :
    completions (uploads.map .started) = 0 := by
  induction uploads with
  | nil => rfl
  | cons upload uploads ih => exact ih

theorem sync_counted : Counted shouldRecordData found (sync shouldRecordData) := by
  refine ⟨fun queued => ⟨queued,rfl,rfl⟩,fun done => ?_,Or.inl rfl⟩
  have refused : shouldRecordData = false := done
  rw [started, refused]
  rfl

theorem step_counted {e : Step} (sound : Counted shouldRecordData found s)
    (taken : step found s e = some t) : Counted shouldRecordData found t := by
  cases e with
  | operation =>
    dsimp only [step] at taken
    split at taken
    case isTrue queued =>
      cases taken
      obtain ⟨permitted,no_upload,nothing⟩ := sound.waiting queued
      have none_yet : completions (sendToServer found s).happened = 0 := by
        rw [sendToServer, nothing, List.nil_append, completions_started]
      have sent : (sendToServer found s).queued ≠ true := Bool.false_ne_true
      refine ⟨fun queued => absurd queued sent,fun _ => ?_,Or.inl none_yet⟩
      rw [none_yet, started, if_pos permitted, sendToServer, no_upload, List.nil_append,
        Nat.zero_add]
    case isFalse => cases taken
  | answer i statusCode =>
    obtain ⟨upload,there,made⟩ := Option.map_eq_some_iff.mp taken
    subst made
    obtain ⟨inside,_⟩ := List.getElem?_eq_some_iff.mp there
    refine ⟨fun queued => ?_,fun done => ?_,Or.inr ⟨s.happened ++ [.answered upload],?_⟩⟩
    · obtain ⟨_,no_upload,_⟩ := sound.waiting queued
      rw [no_upload] at inside
      exact absurd inside (Nat.not_lt_zero i)
    · have before := sound.counted done
      have one_more : completions [Happening.answered upload, .completed] = 1 := rfl
      have one_less : (s.inFlight.eraseIdx i).length = s.inFlight.length - 1 :=
        List.length_eraseIdx_of_lt inside
      rw [answered, completions_append, one_more, one_less]
      dsimp only
      omega
    · rw [answered, List.append_assoc]
      rfl

/-- The answers to all that is in flight bring a sync to its end. -/
theorem answers_finish (sent : s.queued = false) :
    ∃ steps t, exec (step found) s steps = some t ∧ Finished t := by
  induction left : s.inFlight.length generalizing s with
  | zero => exact ⟨[],s,rfl,sent,List.length_eq_zero_iff.mp left⟩
  | succ count ih =>
    cases flight : s.inFlight with
    | nil =>
      rw [flight] at left
      cases left
    | cons upload later =>
      have taken : step found s (.answer 0 none) =
          some (answered { s with inFlight := later } upload) := by
        simp only [step, flight]
        rfl
      have fewer : (answered { s with inFlight := later } upload).inFlight.length = count := by
        rw [flight] at left
        exact Nat.succ.inj left
      obtain ⟨steps,t,ran,finished⟩ := ih (s := answered { s with inFlight := later } upload)
        sent fewer
      exact ⟨.answer 0 none :: steps,t,exec_cons.mpr ⟨_,taken,ran⟩,finished⟩

theorem sync_finishes : ∃ steps t,
    exec (step found) (sync shouldRecordData) steps = some t ∧ Finished t := by
  cases shouldRecordData with
  | false => exact ⟨[],_,rfl,rfl,rfl⟩
  | true =>
    have sent : (sendToServer found (sync true)).queued = false := rfl
    obtain ⟨steps,t,ran,finished⟩ : ∃ steps t,
        exec (step found) (sendToServer found (sync true)) steps = some t ∧ Finished t :=
      answers_finish sent
    exact ⟨.operation :: steps,t,exec_cons.mpr ⟨_,rfl,ran⟩,finished⟩

theorem completions_once {happened : List (Happening Body)} (once : ReportsOnce happened) :
    completions happened = 1 := by
  obtain ⟨before,whole,others⟩ := once
  have none_before : completions before = 0 := by
    refine List.countP_eq_zero.mpr fun happening there => ?_
    cases happening with
    | started upload => exact Bool.false_ne_true
    | answered upload => exact Bool.false_ne_true
    | completed => exact absurd there others
  rw [whole, completions_append, none_before]
  rfl

theorem once_of_completions {happened : List (Happening Body)} (one : completions happened = 1)
    (last : ∃ before, happened = before ++ [.completed]) : ReportsOnce happened := by
  obtain ⟨before,whole⟩ := last
  refine ⟨before,whole,fun there => ?_⟩
  have some_before : 0 < completions before := List.countP_pos_iff.mpr ⟨_,there,rfl⟩
  have one_more : completions [(Happening.completed : Happening Body)] = 1 := rfl
  rw [whole, completions_append, one_more] at one
  omega

end Runs

/-- Every sync that comes to its end has called its handler once, and last, exactly if recording is
    permitted and there is one file that is uploaded. -/
theorem reports_once_iff (shouldRecordData : Bool) (found : Found Body) :
    (∀ steps s, exec (step found) (sync shouldRecordData) steps = some s → Finished s →
        ReportsOnce s.happened) ↔
      shouldRecordData = true ∧ (uploads found).length = 1 := by
  have all_answered {steps : List Step} {s : State Body}
      (run : exec (step found) (sync shouldRecordData) steps = some s) (finished : Finished s) :
      completions s.happened = (started shouldRecordData found).length ∧
        (completions s.happened = 0 ∨ ∃ before, s.happened = before ++ [.completed]) := by
    have sound := exec_always (fun _ _ _ => step_counted) sync_counted run
    have counted := sound.counted finished.1
    rw [finished.2] at counted
    exact ⟨counted,sound.last⟩
  have one_started : (started shouldRecordData found).length = 1 ↔
      shouldRecordData = true ∧ (uploads found).length = 1 := by
    cases shouldRecordData with
    | false => exact iff_of_false Nat.zero_ne_one fun met => nomatch met.1
    | true => exact (and_iff_right rfl).symm
  rw [← one_started]
  constructor
  · intro all
    obtain ⟨steps,s,run,finished⟩ : ∃ steps s,
        exec (step found) (sync shouldRecordData) steps = some s ∧ Finished s := sync_finishes
    rw [← (all_answered run finished).1]
    exact completions_once (all steps s run finished)
  · intro one steps s run finished
    obtain ⟨counted,last⟩ := all_answered run finished
    rw [one] at counted
    exact once_of_completions counted (last.resolve_left (by omega))

def twoFiles : Found Nat where
  alive := true
  files := some [⟨"a.json",.body 1⟩,⟨"b.json",.body 2⟩]

/-- With two files the handler is called twice. -/
theorem two_files_report_twice : ¬ ∀ (shouldRecordData : Bool) (found : Found Nat) steps s,
    exec (step found) (sync shouldRecordData) steps = some s → Finished s →
      ReportsOnce s.happened := by
  intro all
  have once := all true twoFiles [.operation,.answer 0 (some 200),.answer 0 (some 200)] _ rfl
    ⟨rfl,rfl⟩
  have twice := completions_once once
  revert twice
  decide

end EventSync
