import Mathlib.Logic.Function.Basic
import Mathlib.Data.List.Nodup
import AltMessenger.TransitionRuns

/-!
The sender: sends, PIN entries and answers on the main thread, signing and
publishing on the wallet queue, which runs its blocks one by one in order. A PIN
entry blocks the main thread until its signing block is done or the wait times
out; publishing reads the transaction from the sender's field.
-/
namespace Sender
open TransitionRuns

variable {Tx : Type}

/-- What a transaction was signed under. -/
inductive Source where
  | pin : Nat → Source
  | touchID
  deriving DecidableEq, Repr

/-- A publishing block: the send it belongs to, what was signed and what it holds. -/
structure Publication (Tx : Type) where
  send : Nat
  source : Source
  signed : Tx
  tx : Tx
  deriving DecidableEq

inductive Block (Tx : Type) where
  | touchID : Nat → Tx → Block Tx
  | sign : Nat → Nat → Tx → Block Tx
  | publish : Publication Tx → Block Tx
  deriving DecidableEq

/-- Where the authentication of a send stands. -/
inductive Phase (Tx : Type) where
  | idle
  | touchIDQueued
  | touchIDPrompt : Tx → Phase Tx
  | verifyPin : Tx → Phase Tx
  | over
  deriving DecidableEq

/-- The main thread in `group.wait`: for which entry, and `success` after `leave`. -/
structure Wait where
  entry : Nat
  send : Nat
  success : Option Bool
  deriving DecidableEq

inductive SendResult where
  | success | creationError | publishFailure
  deriving DecidableEq, Repr

structure State (Tx : Type) where
  transaction : Option Tx
  sends : Nat
  entries : Nat
  phase : Nat → Phase Tx
  waiting : Option Wait
  walletQueue : List (Block Tx)
  handed : List (Publication Tx)
  flights : List Nat
  authenticated : List Nat
  answers : List (Nat × Bool)
  reports : List (Nat × SendResult)

def State.initial : State Tx where
  transaction := none
  sends := 0
  entries := 0
  phase := fun _ => .idle
  waiting := none
  walletQueue := []
  handed := []
  flights := []
  authenticated := []
  answers := []
  reports := []

/-- How signing under a PIN ends: a wrong PIN, a right one without a signature, or both. -/
inductive SignResult where
  | refused | unsigned | signed
  deriving DecidableEq, Repr

inductive TouchIdResult where
  | success : (signs : Bool) → TouchIdResult
  | failure | fallback | cancel
  deriving DecidableEq, Repr

inductive Event (Tx : Type) where
  | createTransaction : Option Tx → Event Tx
  | send : (canUseTouchId : Bool) → Event Tx
  | touchIDChecked : (withinLimit : Bool) → Event Tx
  | touchIDAnswered : Nat → TouchIdResult → Event Tx
  | pinEntered : Nat → Event Tx
  | signed : SignResult → Event Tx
  | timedOut : Event Tx
  | returned : Event Tx
  | published : (peerManager : Bool) → Event Tx
  | answered : Nat → (success : Bool) → Event Tx
  deriving DecidableEq

def State.setPhase (s : State Tx) (send : Nat) (phase : Phase Tx) : State Tx :=
  { s with phase := Function.update s.phase send phase }

/-- `publish(completion:)`: the block it queues holds what the field holds now.
    With an empty field the assertion fails and nothing is queued. -/
def State.publish (s : State Tx) (send : Nat) (source : Source) (signed : Tx) : State Tx :=
  { s with walletQueue := s.walletQueue ++
      (s.transaction.map fun tx => Block.publish { send, source, signed, tx }).toList }

/-- `group.leave()`, which nobody notices once the wait is over. -/
def State.leave (s : State Tx) (entry : Nat) (success : Bool) : State Tx :=
  { s with waiting := s.waiting.map fun wait =>
      if wait.entry = entry then { wait with success := some success } else wait }

def State.authenticate (s : State Tx) (send : Nat) : State Tx :=
  { s with authenticated := s.authenticated ++ [send] }

/-- Events of the main thread wait while it waits. -/
def onMain (s : State Tx) (next : Option (State Tx)) : Option (State Tx) :=
  if s.waiting = none then next else none

/-- `sender.send` as far as it runs on the main thread. -/
def send (s : State Tx) (canUseTouchId : Bool) : State Tx :=
  match s.transaction with
  | none => { s with sends := s.sends + 1, reports := s.reports ++ [(s.sends,.creationError)] }
  | some tx =>
    if canUseTouchId then
      { s.setPhase s.sends .touchIDQueued with
        sends := s.sends + 1, walletQueue := s.walletQueue ++ [.touchID s.sends tx] }
    else { s.setPhase s.sends (.verifyPin tx) with sends := s.sends + 1 }

def touchIDAnswered (s : State Tx) (send : Nat) (tx : Tx) : TouchIdResult → State Tx
  | .success true => ((s.authenticate send).setPhase send .over).publish send .touchID tx
  | .success false => (s.authenticate send).setPhase send (.verifyPin tx)
  | .failure => s.setPhase send (.verifyPin tx)
  | .fallback => s.setPhase send (.verifyPin tx)
  | .cancel => s.setPhase send .over

def signed (s : State Tx) (entry send : Nat) (tx : Tx) : SignResult → State Tx
  | .refused => s.leave entry false
  | .unsigned => (s.authenticate send).leave entry false
  | .signed => ((s.authenticate send).publish send (.pin entry) tx).leave entry true

def step (s : State Tx) : Event Tx → Option (State Tx)
  | .createTransaction made => onMain s (some { s with transaction := made })
  | .send canUseTouchId => onMain s (some (send s canUseTouchId))
  | .touchIDChecked withinLimit =>
    match s.walletQueue with
    | .touchID send tx :: queue => some ({ s with walletQueue := queue }.setPhase send
        (if withinLimit then .touchIDPrompt tx else .verifyPin tx))
    | _ => none
  | .touchIDAnswered send result =>
    match s.phase send with
    | .touchIDPrompt tx => onMain s (some (touchIDAnswered s send tx result))
    | _ => none
  | .pinEntered send =>
    match s.phase send with
    | .verifyPin tx => onMain s (some { s with
        entries := s.entries + 1
        waiting := some { entry := s.entries, send, success := none }
        walletQueue := s.walletQueue ++ [.sign s.entries send tx] })
    | _ => none
  | .signed result =>
    match s.walletQueue with
    | .sign entry send tx :: queue =>
      some (signed { s with walletQueue := queue } entry send tx result)
    | _ => none
  | .timedOut =>
    match s.waiting with
    | some { entry, success := none, .. } =>
      some { s with waiting := none, answers := s.answers ++ [(entry,false)] }
    | _ => none
  | .returned =>
    match s.waiting with
    | some { entry, send, success := some success } =>
      -- the caller takes the PIN screen away on `true` and leaves it up on `false`
      some ({ s with waiting := none, answers := s.answers ++ [(entry,success)] }.setPhase send
        (if success then .over else s.phase send))
    | _ => none
  | .published peerManager =>
    match s.walletQueue with
    | .publish p :: queue =>
      if peerManager then
        some { s with
          walletQueue := queue, handed := s.handed ++ [p], flights := s.flights ++ [p.send] }
      else some { s with walletQueue := queue }
    | _ => none
  | .answered send success =>
    if send ∈ s.flights then onMain s (some { s with
      flights := s.flights.erase send
      reports := s.reports ++ [(send,if success then .success else .publishFailure)] })
    else none

/-- Nobody is told of a refusal that is not one, what was signed is what is
    sent, and each authenticated send reports once. -/
structure Safe (s : State Tx) : Prop where
  refused : ∀ entry, (entry,false) ∈ s.answers → ∀ p ∈ s.handed, p.source ≠ .pin entry
  signed : ∀ p ∈ s.handed, p.tx = p.signed
  at_most_once : ∀ send ∈ s.authenticated, (s.reports.map Prod.fst).count send ≤ 1
  exactly_once : s.walletQueue = [] → s.flights = [] →
    ∀ send ∈ s.authenticated, (s.reports.map Prod.fst).count send = 1

/-- Signing that begins ends in time, with a signature and with the field still
    holding what was signed, and there is a peer manager to hand it to. -/
def Orderly (s : State Tx) : Event Tx → Prop
  | .signed .unsigned => False
  | .signed .signed =>
    match s.walletQueue with
    | .sign entry _ tx :: _ =>
      s.waiting.map (·.entry) = some entry ∧ s.transaction = some tx
    | _ => True
  | .touchIDAnswered send (.success signs) => signs = true ∧
      match s.phase send with
      | .touchIDPrompt tx => s.transaction = some tx
      | _ => True
  | .published peerManager => peerManager = true
  | _ => True

instance [DecidableEq Tx] (s : State Tx) : (e : Event Tx) → Decidable (Orderly s e)
  | .createTransaction _ => .isTrue trivial
  | .send _ => .isTrue trivial
  | .touchIDChecked _ => .isTrue trivial
  | .touchIDAnswered send (.success signs) =>
    match phase : s.phase send with
    | .touchIDPrompt tx =>
      decidable_of_iff (signs = true ∧ s.transaction = some tx) (by rw [Orderly, phase])
    | .idle | .touchIDQueued | .verifyPin _ | .over =>
      decidable_of_iff (signs = true) (by rw [Orderly, phase, and_true])
  | .touchIDAnswered _ .failure => .isTrue trivial
  | .touchIDAnswered _ .fallback => .isTrue trivial
  | .touchIDAnswered _ .cancel => .isTrue trivial
  | .pinEntered _ => .isTrue trivial
  | .signed .unsigned => .isFalse id
  | .signed .refused => .isTrue trivial
  | .signed .signed =>
    match queue : s.walletQueue with
    | .sign entry _ tx :: _ =>
      decidable_of_iff (s.waiting.map (·.entry) = some entry ∧ s.transaction = some tx)
        (by rw [Orderly, queue])
    | [] | .publish _ :: _ | .touchID _ _ :: _ => .isTrue (by rw [Orderly, queue]; trivial)
  | .timedOut => .isTrue trivial
  | .returned => .isTrue trivial
  | .published peerManager => inferInstanceAs (Decidable (peerManager = true))
  | .answered _ _ => .isTrue trivial

section Views

/-- The blocks of the queue by kind: publications, PIN entries with their sends,
    and sends that wait for Touch ID. -/
def publications (queue : List (Block Tx)) : List (Publication Tx) :=
  queue.filterMap fun
    | .publish p => some p
    | _ => none

def signings (queue : List (Block Tx)) : List (Nat × Nat) :=
  queue.filterMap fun
    | .sign entry send _ => some (entry,send)
    | _ => none

def prompts (queue : List (Block Tx)) : List Nat :=
  queue.filterMap fun
    | .touchID send _ => some send
    | _ => none

variable (queue : List (Block Tx)) (entry send : Nat) (tx : Tx) (p : Publication Tx)

@[simp] theorem publications_append (more : List (Block Tx)) :
    publications (queue ++ more) = publications queue ++ publications more :=
  List.filterMap_append

@[simp] theorem signings_append (more : List (Block Tx)) :
    signings (queue ++ more) = signings queue ++ signings more := List.filterMap_append

@[simp] theorem prompts_append (more : List (Block Tx)) :
    prompts (queue ++ more) = prompts queue ++ prompts more := List.filterMap_append

@[simp] theorem publications_publish :
    publications (.publish p :: queue) = p :: publications queue := rfl

@[simp] theorem publications_sign :
    publications (.sign entry send tx :: queue) = publications queue := rfl

@[simp] theorem publications_touchID :
    publications (.touchID send tx :: queue) = publications queue := rfl

@[simp] theorem signings_publish : signings (.publish p :: queue) = signings queue := rfl

@[simp] theorem signings_sign :
    signings (.sign entry send tx :: queue) = (entry,send) :: signings queue := rfl

@[simp] theorem signings_touchID : signings (.touchID send tx :: queue) = signings queue := rfl

@[simp] theorem prompts_publish : prompts (.publish p :: queue) = prompts queue := rfl

@[simp] theorem prompts_sign : prompts (.sign entry send tx :: queue) = prompts queue := rfl

@[simp] theorem prompts_touchID : prompts (.touchID send tx :: queue) = send :: prompts queue := rfl

@[simp] theorem publications_nil : publications ([] : List (Block Tx)) = [] := rfl

@[simp] theorem signings_nil : signings ([] : List (Block Tx)) = [] := rfl

@[simp] theorem prompts_nil : prompts ([] : List (Block Tx)) = [] := rfl

end Views

/-- Everything that was or will be handed to the peer manager. -/
def State.records (s : State Tx) : List (Publication Tx) := publications s.walletQueue ++ s.handed

/-- How often a send is on its way to a report or there already. -/
def State.tally (s : State Tx) (send : Nat) : Nat :=
  ((publications s.walletQueue).map (·.send)).count send + s.flights.count send +
    (s.reports.map Prod.fst).count send

/-- No further authentication of this send can succeed. -/
structure Closed (s : State Tx) (send : Nat) : Prop where
  not_queued : s.phase send ≠ .touchIDQueued
  not_prompted : ∀ tx, s.phase send ≠ .touchIDPrompt tx
  pin_accepted : ∀ tx, s.phase send = .verifyPin tx →
    ∃ wait, s.waiting = some wait ∧ wait.send = send ∧ wait.success = some true

theorem Closed.of_phase {s t : State Tx} {i : Nat} (closed : Closed s i)
    (same : t.phase i = s.phase i) (waiting : t.waiting = s.waiting) : Closed t i where
  not_queued := by
    rw [same]
    exact closed.not_queued
  not_prompted := by
    rw [same]
    exact closed.not_prompted
  pin_accepted := by
    rw [same, waiting]
    exact closed.pin_accepted

/-- The invariant of orderly runs: where the blocks of the queue come from, what
    an entry that waits stands for, and one report to come for each send that
    has been authenticated. -/
structure Inv (s : State Tx) : Prop where
  idle : ∀ i, s.sends ≤ i → s.phase i = .idle
  prompts_nodup : (prompts s.walletQueue).Nodup
  prompts_phase : ∀ i ∈ prompts s.walletQueue, s.phase i = .touchIDQueued
  signings_nodup : ((signings s.walletQueue).map Prod.fst).Nodup
  signings_old : ∀ x ∈ signings s.walletQueue, x.1 < s.entries
  wait_old : ∀ wait, s.waiting = some wait → wait.entry < s.entries
  wait_phase : ∀ wait, s.waiting = some wait → ∃ tx, s.phase wait.send = .verifyPin tx
  wait_signing : ∀ wait, s.waiting = some wait → ∀ x ∈ signings s.walletQueue,
    x.1 = wait.entry → x.2 = wait.send ∧ wait.success = none
  answers_old : ∀ x ∈ s.answers, x.1 < s.entries
  wait_unanswered : ∀ wait, s.waiting = some wait → ∀ b, (wait.entry,b) ∉ s.answers
  records_old : ∀ p ∈ s.records, ∀ entry, p.source = .pin entry → entry < s.entries
  wait_unpublished : ∀ wait, s.waiting = some wait → wait.success ≠ some true →
    ∀ p ∈ s.records, p.source ≠ .pin wait.entry
  refused : ∀ entry, (entry,false) ∈ s.answers → ∀ p ∈ s.records, p.source ≠ .pin entry
  signed : ∀ p ∈ s.records, p.tx = p.signed
  fresh : ∀ i, s.sends ≤ i → i ∉ s.authenticated ∧ s.tally i = 0
  outstanding : ∀ i, i ∉ s.authenticated → s.phase i ≠ .idle → s.phase i ≠ .over → s.tally i = 0
  reported : ∀ i ∈ s.authenticated, s.tally i = 1 ∧ Closed s i

theorem Inv.initial : Inv (State.initial : State Tx) := by
  constructor <;> simp [State.initial, State.records, State.tally]

/-- An orderly state is a safe one. -/
theorem Inv.safe {s : State Tx} (inv : Inv s) : Safe s where
  refused := fun entry refused p mem =>
    inv.refused entry refused p (List.mem_append_right _ mem)
  signed := fun p mem => inv.signed p (List.mem_append_right _ mem)
  at_most_once := by
    intro i mem
    have one := (inv.reported i mem).1
    unfold State.tally at one
    omega
  exactly_once := by
    intro queue flights i mem
    have one := (inv.reported i mem).1
    unfold State.tally at one
    rw [queue, flights] at one
    simpa using one

section Steps

variable {s : State Tx} (inv : Inv s)
include inv

theorem Inv.phase_fresh {i : Nat} (started : s.phase i ≠ .idle) : i < s.sends := by
  by_contra later
  exact started (inv.idle i (by omega))

theorem Inv.createTransaction (made : Option Tx) : Inv { s with transaction := made } :=
  { inv with reported := fun i mem =>
      have ⟨one,closed⟩ := inv.reported i mem
      ⟨one,{ closed with }⟩ }

/-- A send without a transaction is told so at once. -/
theorem Inv.creationError :
    Inv { s with sends := s.sends + 1, reports := s.reports ++ [(s.sends,.creationError)] } := by
  have apart : ∀ i, i ≠ s.sends →
      State.tally { s with sends := s.sends + 1,
                           reports := s.reports ++ [(s.sends,SendResult.creationError)] } i =
        s.tally i := by
    intro i other
    simp [State.tally, other.symm]
  exact { inv with
    idle := fun i later => inv.idle i (by dsimp only at later; omega)
    fresh := fun i later => by
      dsimp only at later
      rw [apart i (by omega)]
      exact inv.fresh i (by omega)
    outstanding := fun i absent started unfinished => by
      rw [apart i fun same => started (inv.idle i (by omega))]
      exact inv.outstanding i absent started unfinished
    reported := fun i mem => by
      rw [apart i fun same => (inv.fresh i (by omega)).1 mem]
      have ⟨one,closed⟩ := inv.reported i mem
      exact ⟨one,{ closed with }⟩ }

/-- A send that is not authenticated and not over may move on in its dialogue. -/
theorem Inv.setPhase {i : Nat} {phase : Phase Tx} (running : s.phase i ≠ .idle)
    (prompt : ∀ j ∈ prompts s.walletQueue, j ≠ i) (unwaited : ∀ w ∈ s.waiting, w.send ≠ i)
    (absent : i ∉ s.authenticated) (zero : s.tally i = 0) : Inv (s.setPhase i phase) := by
  have started := inv.phase_fresh running
  exact { inv with
    idle := fun j later => by
      have other : j ≠ i := by
        have : s.sends ≤ j := later
        omega
      exact (Function.update_of_ne other _ _).trans (inv.idle j later)
    prompts_phase := fun j mem =>
      (Function.update_of_ne (prompt j mem) _ _).trans (inv.prompts_phase j mem)
    wait_phase := fun w there => by
      obtain ⟨tx,phase⟩ := inv.wait_phase w there
      exact ⟨tx,(Function.update_of_ne (unwaited w there) _ _).trans phase⟩
    outstanding := fun j missing started unfinished => by
      by_cases same : j = i
      · rw [same]
        exact zero
      · have kept : (s.setPhase i phase).phase j = s.phase j := Function.update_of_ne same _ _
        rw [kept] at started unfinished
        exact inv.outstanding j missing started unfinished
    reported := fun j mem => by
      have other : j ≠ i := fun same => absent (same ▸ mem)
      obtain ⟨one,closed⟩ := inv.reported j mem
      exact ⟨one,closed.of_phase (Function.update_of_ne other _ _) rfl⟩ }

/-- A new send, wherever its dialogue begins. -/
theorem Inv.newSend (free : s.waiting = none) (phase : Phase Tx) :
    Inv { s.setPhase s.sends phase with sends := s.sends + 1 } := by
  have kept : ∀ j, j ≠ s.sends → (s.setPhase s.sends phase).phase j = s.phase j :=
    fun j other => Function.update_of_ne other _ _
  exact { inv with
    idle := fun j later => by
      have later : s.sends + 1 ≤ j := later
      exact (kept j (by omega)).trans (inv.idle j (by omega))
    prompts_phase := fun j mem => by
      have queued := inv.prompts_phase j mem
      have started := inv.phase_fresh (i := j) (by rw [queued]; simp)
      exact (kept j (by omega)).trans queued
    wait_phase := fun w there => by
      rw [show s.waiting = some w from there] at free
      cases free
    fresh := fun j later => inv.fresh j (by have : s.sends + 1 ≤ j := later; omega)
    outstanding := fun j missing started unfinished => by
      by_cases same : j = s.sends
      · rw [same]
        exact (inv.fresh s.sends (Nat.le_refl _)).2
      · rw [show _ = s.phase j from kept j same] at started unfinished
        exact inv.outstanding j missing started unfinished
    reported := fun j mem => by
      have other : j ≠ s.sends := fun same => (inv.fresh j (by omega)).1 mem
      obtain ⟨one,closed⟩ := inv.reported j mem
      exact ⟨one,closed.of_phase (kept j other) rfl⟩ }

/-- A queue with the same publications may have other prompts and signings that are in order. -/
theorem Inv.requeue {queue : List (Block Tx)}
    (same : publications queue = publications s.walletQueue) (prompts_nodup : (prompts queue).Nodup)
    (prompts_phase : ∀ i ∈ prompts queue, s.phase i = .touchIDQueued)
    (signings_nodup : ((signings queue).map Prod.fst).Nodup)
    (inside : ∀ x ∈ signings queue, x ∈ signings s.walletQueue) :
    Inv { s with walletQueue := queue } := by
  have records : State.records { s with walletQueue := queue } = s.records := by
    unfold State.records
    rw [same]
  have tally : ∀ j, State.tally { s with walletQueue := queue } j = s.tally j := by
    intro j
    unfold State.tally
    rw [same]
  exact { inv with
    prompts_nodup
    prompts_phase
    signings_nodup
    signings_old := fun x mem => inv.signings_old x (inside x mem)
    wait_signing := fun w there x mem => inv.wait_signing w there x (inside x mem)
    records_old := by rw [records]; exact inv.records_old
    wait_unpublished := by rw [records]; exact inv.wait_unpublished
    refused := by rw [records]; exact inv.refused
    signed := by rw [records]; exact inv.signed
    fresh := by simpa only [tally] using inv.fresh
    outstanding := by simpa only [tally] using inv.outstanding
    reported := fun j mem =>
      have ⟨one,closed⟩ := inv.reported j mem
      ⟨(tally j).trans one,closed.of_phase rfl rfl⟩ }

theorem Inv.enqueuePrompt {i : Nat} (queued : s.phase i = .touchIDQueued)
    (new : i ∉ prompts s.walletQueue) (tx : Tx) :
    Inv { s with walletQueue := s.walletQueue ++ [.touchID i tx] } := by
  have signings : signings (s.walletQueue ++ [.touchID i tx]) = signings s.walletQueue := by simp
  apply inv.requeue
  · simp
  · rw [prompts_append, List.nodup_append]
    refine ⟨inv.prompts_nodup,by simp,?_⟩
    intro a old b last clash
    rw [List.mem_singleton.mp last] at clash
    exact new (clash ▸ old)
  · intro j mem
    rw [prompts_append] at mem
    rcases List.mem_append.mp mem with old | last
    · exact inv.prompts_phase j old
    · rw [List.mem_singleton.mp last]
      exact queued
  · rw [signings]
    exact inv.signings_nodup
  · rw [signings]
    exact fun x mem => mem

theorem Inv.send (free : s.waiting = none) (canUseTouchId : Bool) :
    Inv (Sender.send s canUseTouchId) := by
  unfold Sender.send
  split
  case h_1 => exact inv.creationError
  case h_2 tx _ =>
    cases canUseTouchId with
    | false => exact inv.newSend free (.verifyPin tx)
    | true =>
      have new : s.sends ∉ prompts s.walletQueue := by
        intro mem
        have queued := inv.prompts_phase _ mem
        rw [inv.idle s.sends (Nat.le_refl _)] at queued
        cases queued
      exact (inv.newSend free .touchIDQueued).enqueuePrompt (Function.update_self _ _ _) new tx

/-- The limit check of Touch ID takes its block off the queue. -/
theorem Inv.dequeuePrompt {i : Nat} {tx : Tx} {queue : List (Block Tx)}
    (head : s.walletQueue = .touchID i tx :: queue) : Inv { s with walletQueue := queue } := by
  have nodup := inv.prompts_nodup
  have phase := inv.prompts_phase
  rw [head, prompts_touchID] at nodup phase
  have signings : signings queue = signings s.walletQueue := by
    rw [head, signings_touchID]
  apply inv.requeue
  · rw [head, publications_touchID]
  · exact nodup.of_cons
  · exact fun j mem => phase j (List.mem_cons_of_mem i mem)
  · rw [signings]
    exact inv.signings_nodup
  · rw [signings]
    exact fun x mem => mem

theorem Inv.touchIDChecked {i : Nat} {tx : Tx} {queue : List (Block Tx)}
    (head : s.walletQueue = .touchID i tx :: queue) (phase : Phase Tx) :
    Inv ({ s with walletQueue := queue }.setPhase i phase) := by
  have queued : s.phase i = .touchIDQueued := inv.prompts_phase i (by simp [head])
  have nodup := inv.prompts_nodup
  rw [head, prompts_touchID, List.nodup_cons] at nodup
  have absent : i ∉ s.authenticated := fun mem => (inv.reported i mem).2.not_queued queued
  have later := inv.dequeuePrompt head
  apply later.setPhase
  · dsimp only
    rw [queued]
    simp
  · intro j mem same
    exact nodup.1 (same ▸ mem)
  · intro w there same
    obtain ⟨tx,asked⟩ := inv.wait_phase w there
    rw [same, queued] at asked
    cases asked
  · exact absent
  · exact later.outstanding i absent (by dsimp only; rw [queued]; simp)
      (by dsimp only; rw [queued]; simp)

/-- With the field holding what was signed, a send that is authenticated now is
    published once. -/
theorem Inv.publish {i : Nat} {tx : Tx} (source : Source) (kept : s.transaction = some tx)
    (zero : s.tally i = 0) (absent : i ∉ s.authenticated) (started : i < s.sends)
    (closed : Closed s i) (entry_old : ∀ entry, source = .pin entry → entry < s.entries)
    (unwaited : ∀ w, s.waiting = some w → w.success ≠ some true → source ≠ .pin w.entry)
    (unrefused : ∀ entry, (entry,false) ∈ s.answers → source ≠ .pin entry) :
    Inv ((s.authenticate i).publish i source tx) := by
  let p : Publication Tx := { send := i, source, signed := tx, tx }
  have queue : ((s.authenticate i).publish i source tx).walletQueue =
      s.walletQueue ++ [.publish p] := by
    simp [State.publish, State.authenticate, kept, p]
  have prompts : prompts ((s.authenticate i).publish i source tx).walletQueue =
      prompts s.walletQueue := by simp [queue]
  have signings : signings ((s.authenticate i).publish i source tx).walletQueue =
      signings s.walletQueue := by simp [queue]
  have records : ∀ q ∈ ((s.authenticate i).publish i source tx).records, q ∈ s.records ∨ q = p := by
    intro q mem
    rw [State.records, queue] at mem
    simp only [publications_append, publications_publish, publications_nil, List.append_assoc,
      List.mem_append, List.mem_singleton] at mem
    unfold State.records
    rw [List.mem_append]
    rcases mem with old | new | handed
    · exact Or.inl (Or.inl old)
    · exact Or.inr new
    · exact Or.inl (Or.inr handed)
  have tally : ∀ j, ((s.authenticate i).publish i source tx).tally j =
      s.tally j + if i = j then 1 else 0 := by
    intro j
    rw [State.tally, queue]
    simp only [State.publish, State.authenticate, State.tally, publications_append,
      publications_publish, publications_nil, List.map_append, List.map_cons, List.map_nil,
      List.count_append, List.count_singleton, beq_iff_eq, p]
    omega
  exact { inv with
    prompts_nodup := by rw [prompts]; exact inv.prompts_nodup
    prompts_phase := by rw [prompts]; exact inv.prompts_phase
    signings_nodup := by rw [signings]; exact inv.signings_nodup
    signings_old := by rw [signings]; exact inv.signings_old
    wait_signing := by rw [signings]; exact inv.wait_signing
    records_old := fun q mem => by
      rcases records q mem with old | rfl
      · exact inv.records_old q old
      · exact entry_old
    wait_unpublished := fun w there unsuccessful q mem => by
      rcases records q mem with old | rfl
      · exact inv.wait_unpublished w there unsuccessful q old
      · exact unwaited w there unsuccessful
    refused := fun entry refused q mem => by
      rcases records q mem with old | rfl
      · exact inv.refused entry refused q old
      · exact unrefused entry refused
    signed := fun q mem => by
      rcases records q mem with old | rfl
      · exact inv.signed q old
      · rfl
    fresh := fun j later => by
      have later : s.sends ≤ j := later
      obtain ⟨missing,none⟩ := inv.fresh j later
      refine ⟨?_,by rw [tally, none, if_neg (by omega)]⟩
      intro mem
      rcases List.mem_append.mp mem with old | new
      · exact missing old
      · have : j = i := List.mem_singleton.mp new
        omega
    outstanding := fun j missing running unfinished => by
      have other : i ≠ j := fun same => missing (List.mem_append_right _ (by simp [same]))
      rw [tally, if_neg other]
      exact inv.outstanding j (fun mem => missing (List.mem_append_left _ mem)) running unfinished
    reported := fun j mem => by
      rw [tally]
      rcases List.mem_append.mp mem with old | new
      · obtain ⟨one,closed⟩ := inv.reported j old
        have other : i ≠ j := fun same => absent (same ▸ old)
        exact ⟨by rw [one, if_neg other],{ closed with }⟩
      · rw [List.mem_singleton.mp new, zero, if_pos rfl]
        exact ⟨rfl,{ closed with }⟩ }

/-- The user's answer to the prompt. -/
theorem Inv.touchIDAnswered {i : Nat} {tx : Tx} (free : s.waiting = none)
    (prompted : s.phase i = .touchIDPrompt tx) (result : TouchIdResult)
    (orderly : Orderly s (.touchIDAnswered i result)) :
    Inv (Sender.touchIDAnswered s i tx result) := by
  have absent : i ∉ s.authenticated := fun mem => (inv.reported i mem).2.not_prompted tx prompted
  have zero : s.tally i = 0 := inv.outstanding i absent (by rw [prompted]; simp)
    (by rw [prompted]; simp)
  have started := inv.phase_fresh (i := i) (by rw [prompted]; simp)
  have moves : ∀ phase, Inv (s.setPhase i phase) := by
    intro phase
    apply inv.setPhase (by rw [prompted]; simp) _ _ absent zero
    · intro j mem same
      have queued := inv.prompts_phase j mem
      rw [same, prompted] at queued
      cases queued
    · intro w there
      rw [show s.waiting = some w from there] at free
      cases free
  cases result with
  | failure => exact moves _
  | fallback => exact moves _
  | cancel => exact moves _
  | success signs =>
    obtain ⟨rfl,holds⟩ := orderly
    rw [prompted] at holds
    have kept : (s.setPhase i .over).phase i = .over := Function.update_self _ _ _
    apply (moves .over).publish .touchID holds zero absent started
    · exact ⟨by rw [kept]; simp,by rw [kept]; simp,by rw [kept]; simp⟩
    · intro entry same
      cases same
    · intro w _ _ same
      cases same
    · intro entry _ same
      cases same

/-- A PIN entry blocks the main thread on a signing block of its own. -/
theorem Inv.pinEntered {i : Nat} {tx : Tx} (free : s.waiting = none)
    (asked : s.phase i = .verifyPin tx) :
    Inv { s with
      entries := s.entries + 1
      waiting := some { entry := s.entries, send := i, success := none }
      walletQueue := s.walletQueue ++ [.sign s.entries i tx] } := by
  let q := s.walletQueue ++ [.sign s.entries i tx]
  have old_prompts : prompts q = prompts s.walletQueue := by simp [q]
  have records : publications q ++ s.handed = s.records := by simp [State.records, q]
  have tally : ∀ j, ((publications q).map (·.send)).count j + s.flights.count j +
      (s.reports.map Prod.fst).count j = s.tally j := by simp [State.tally, q]
  have new_signings : signings q = signings s.walletQueue ++ [(s.entries,i)] := by simp [q]
  exact {
    idle := inv.idle
    prompts_nodup := by
      rw [old_prompts]
      exact inv.prompts_nodup
    prompts_phase := by
      rw [old_prompts]
      exact inv.prompts_phase
    signings_nodup := by
      rw [new_signings, List.map_append, List.nodup_append]
      refine ⟨inv.signings_nodup,by simp,?_⟩
      intro a mem b last same
      obtain ⟨x,inside,rfl⟩ := List.mem_map.mp mem
      have entry : b = s.entries := List.mem_singleton.mp last
      have := inv.signings_old x inside
      omega
    signings_old := by
      rw [new_signings]
      intro x mem
      rcases List.mem_append.mp mem with old | last
      · exact Nat.lt_succ_of_lt (inv.signings_old x old)
      · rw [List.mem_singleton.mp last]
        exact Nat.lt_succ_self _
    wait_old := fun w there => by
      cases there
      exact Nat.lt_succ_self _
    wait_phase := fun w there => by
      cases there
      exact ⟨tx,asked⟩
    wait_signing := fun w there x mem same => by
      cases there
      rw [new_signings] at mem
      rcases List.mem_append.mp mem with old | last
      · have before := inv.signings_old x old
        have same : x.1 = s.entries := same
        omega
      · rw [List.mem_singleton.mp last]
        exact ⟨rfl,rfl⟩
    answers_old := fun x mem => Nat.lt_succ_of_lt (inv.answers_old x mem)
    wait_unanswered := fun w there b mem => by
      cases there
      exact Nat.lt_irrefl _ (inv.answers_old _ mem)
    records_old := by
      intro p mem entry same
      exact Nat.lt_succ_of_lt (inv.records_old p (records ▸ mem) entry same)
    wait_unpublished := fun w there _ p mem same => by
      cases there
      exact Nat.lt_irrefl _ (inv.records_old p (records ▸ mem) _ same)
    refused := fun entry refused p mem => inv.refused entry refused p (records ▸ mem)
    signed := fun p mem => inv.signed p (records ▸ mem)
    fresh := fun j later => ⟨(inv.fresh j later).1,(tally j).trans (inv.fresh j later).2⟩
    outstanding := fun j missing started unfinished =>
      (tally j).trans (inv.outstanding j missing started unfinished)
    reported := fun j mem => by
      obtain ⟨one,closed⟩ := inv.reported j mem
      refine ⟨(tally j).trans one,closed.not_queued,closed.not_prompted,?_⟩
      intro tx accepted
      obtain ⟨w,there,_⟩ := closed.pin_accepted tx accepted
      rw [free] at there
      cases there }

theorem Inv.dequeueSigning {entry i : Nat} {tx : Tx} {queue : List (Block Tx)}
    (head : s.walletQueue = .sign entry i tx :: queue) : Inv { s with walletQueue := queue } := by
  have nodup := inv.signings_nodup
  rw [head, signings_sign, List.map_cons] at nodup
  have prompts : prompts queue = prompts s.walletQueue := by
    rw [head, prompts_sign]
  apply inv.requeue
  · rw [head, publications_sign]
  · rw [prompts]
    exact inv.prompts_nodup
  · rw [prompts]
    exact inv.prompts_phase
  · exact nodup.of_cons
  · rw [head, signings_sign]
    exact fun x mem => List.mem_cons_of_mem _ mem

omit inv in
theorem leave_wait {entry : Nat} {success : Bool} {w : Wait}
    (there : (s.leave entry success).waiting = some w) :
    ∃ before, s.waiting = some before ∧ w.entry = before.entry ∧ w.send = before.send ∧
      w.success = if before.entry = entry then some success else before.success := by
  obtain ⟨before,found,rfl⟩ := Option.map_eq_some_iff.mp there
  refine ⟨before,found,?_⟩
  split <;> exact ⟨rfl,rfl,rfl⟩

/-- The block of an entry leaves once, and finds its wait with no result yet. -/
theorem Inv.leave {entry : Nat} (gone : ∀ x ∈ signings s.walletQueue, x.1 ≠ entry)
    (first : ∀ w, s.waiting = some w → w.entry = entry → w.success = none) (success : Bool) :
    Inv (s.leave entry success) :=
  { inv with
    wait_old := fun w there => by
      obtain ⟨before,found,same,_⟩ := leave_wait there
      rw [same]
      exact inv.wait_old before found
    wait_phase := fun w there => by
      obtain ⟨before,found,_,same,_⟩ := leave_wait there
      rw [same]
      exact inv.wait_phase before found
    wait_signing := fun w there x mem here => by
      obtain ⟨before,found,entry_same,send_same,result⟩ := leave_wait there
      rw [entry_same] at here
      have apart : before.entry ≠ entry := fun clash => gone x mem (here.trans clash)
      rw [send_same, result, if_neg apart]
      exact inv.wait_signing before found x mem here
    wait_unanswered := fun w there b => by
      obtain ⟨before,found,same,_⟩ := leave_wait there
      rw [same]
      exact inv.wait_unanswered before found b
    wait_unpublished := fun w there unsuccessful => by
      obtain ⟨before,found,same,_,result⟩ := leave_wait there
      rw [same]
      apply inv.wait_unpublished before found
      intro successful
      by_cases here : before.entry = entry
      · rw [first before found here] at successful
        cases successful
      · rw [result, if_neg here] at unsuccessful
        exact unsuccessful successful
    reported := fun j mem => by
      obtain ⟨one,closed⟩ := inv.reported j mem
      refine ⟨one,closed.not_queued,closed.not_prompted,?_⟩
      intro tx asked
      obtain ⟨w,there,mine,successful⟩ := closed.pin_accepted tx asked
      have apart : w.entry ≠ entry := by
        intro here
        rw [first w there here] at successful
        cases successful
      refine ⟨w,?_,mine,successful⟩
      show s.waiting.map _ = some w
      rw [there, Option.map_some, if_neg apart] }

/-- A signing block runs. -/
theorem Inv.signingRun {entry i : Nat} {tx : Tx} {queue : List (Block Tx)}
    (head : s.walletQueue = .sign entry i tx :: queue) (result : SignResult)
    (orderly : Orderly s (.signed result)) :
    Inv (Sender.signed { s with walletQueue := queue } entry i tx result) := by
  have mine : (entry,i) ∈ signings s.walletQueue := by simp [head]
  have nodup := inv.signings_nodup
  rw [head, signings_sign, List.map_cons, List.nodup_cons] at nodup
  have gone : ∀ x ∈ signings queue, x.1 ≠ entry := by
    intro x mem same
    exact nodup.1 (List.mem_map.mpr ⟨x,mem,same⟩)
  have first : ∀ w, s.waiting = some w → w.entry = entry → w.success = none :=
    fun w there same => (inv.wait_signing w there _ mine same.symm).2
  have later := inv.dequeueSigning head
  cases result with
  | unsigned => exact orderly.elim
  | refused => exact later.leave gone first false
  | signed =>
    unfold Orderly at orderly
    rw [head] at orderly
    obtain ⟨waited,kept⟩ := orderly
    obtain ⟨w,there,here⟩ := Option.map_eq_some_iff.mp waited
    obtain ⟨owner,unfinished⟩ := inv.wait_signing w there _ mine here.symm
    have owner : i = w.send := owner
    obtain ⟨tx',asked⟩ := inv.wait_phase w there
    rw [← owner] at asked
    have absent : i ∉ s.authenticated := by
      intro mem
      obtain ⟨other,found,_,successful⟩ := (inv.reported i mem).2.pin_accepted tx' asked
      rw [there] at found
      cases found
      rw [unfinished] at successful
      cases successful
    have zero : s.tally i = 0 := inv.outstanding i absent (by rw [asked]; simp)
      (by rw [asked]; simp)
    have left := later.leave gone first true
    have waits : ((State.leave { s with walletQueue := queue } entry true)).waiting =
        some { w with success := some true } := by
      show s.waiting.map _ = _
      rw [there, Option.map_some, if_pos here]
    apply left.publish (.pin entry) kept _ absent (inv.phase_fresh (by rw [asked]; simp))
    · exact {
        not_queued := by
          show s.phase i ≠ _
          rw [asked]
          simp
        not_prompted := by
          show ∀ tx, s.phase i ≠ _
          rw [asked]
          simp
        pin_accepted := fun _ _ => ⟨_,waits,owner.symm,rfl⟩ }
    · intro other same
      cases same
      exact inv.signings_old _ mine
    · intro other found unsuccessful
      rw [waits] at found
      cases found
      exact absurd rfl unsuccessful
    · intro other refused same
      cases same
      rw [← here] at refused
      exact inv.wait_unanswered w there false refused
    · exact later.outstanding i absent (by show s.phase i ≠ _; rw [asked]; simp)
        (by show s.phase i ≠ _; rw [asked]; simp)

/-- The PIN callback returns: `true` only after a signature. -/
theorem Inv.answer {w : Wait} (there : s.waiting = some w) (success : Bool)
    (fits : success = false → w.success ≠ some true) :
    Inv ({ s with waiting := none, answers := s.answers ++ [(w.entry,success)] }.setPhase w.send
      (if success then .over else s.phase w.send)) := by
  let phase := Function.update s.phase w.send (if success then .over else s.phase w.send)
  obtain ⟨tx,asked⟩ := inv.wait_phase w there
  have kept : ∀ j, j ≠ w.send → phase j = s.phase j := fun j other => Function.update_of_ne other _ _
  have mine : phase w.send = if success then .over else s.phase w.send := Function.update_self _ _ _
  have started := inv.phase_fresh (i := w.send) (by rw [asked]; simp)
  exact {
    idle := fun j later => by
      have later : s.sends ≤ j := later
      exact (kept j (by omega)).trans (inv.idle j later)
    prompts_nodup := inv.prompts_nodup
    prompts_phase := fun j mem => by
      have queued := inv.prompts_phase j mem
      have other : j ≠ w.send := by
        intro same
        rw [same, asked] at queued
        cases queued
      exact (kept j other).trans queued
    signings_nodup := inv.signings_nodup
    signings_old := inv.signings_old
    wait_old := fun _ none => nomatch none
    wait_phase := fun _ none => nomatch none
    wait_signing := fun _ none => nomatch none
    answers_old := fun x mem => by
      rcases List.mem_append.mp mem with old | last
      · exact inv.answers_old x old
      · rw [List.mem_singleton.mp last]
        exact inv.wait_old w there
    wait_unanswered := fun _ none => nomatch none
    records_old := inv.records_old
    wait_unpublished := fun _ none => nomatch none
    refused := fun entry mem => by
      rcases List.mem_append.mp mem with old | last
      · exact inv.refused entry old
      · cases List.mem_singleton.mp last
        exact inv.wait_unpublished w there (fits rfl)
    signed := inv.signed
    fresh := inv.fresh
    outstanding := fun j missing running unfinished => by
      have running : phase j ≠ .idle := running
      have unfinished : phase j ≠ .over := unfinished
      apply inv.outstanding j missing
      all_goals by_cases same : j = w.send
      · rw [same, asked]
        simp
      · rwa [kept j same] at running
      · rw [same, asked]
        simp
      · rwa [kept j same] at unfinished
    reported := fun j mem => by
      obtain ⟨one,closed⟩ := inv.reported j mem
      refine ⟨one,?_⟩
      by_cases same : j = w.send
      · have accepted : success = true := by
          by_contra not_so
          obtain ⟨other,found,_,successful⟩ := closed.pin_accepted tx (same ▸ asked)
          rw [there] at found
          cases found
          exact fits (by simpa using not_so) successful
        have ended : phase j = .over := by rw [same, mine, if_pos accepted]
        constructor
        · show phase j ≠ _
          rw [ended]
          simp
        · show ∀ tx, phase j ≠ _
          rw [ended]
          simp
        · show ∀ tx, phase j = _ → _
          rw [ended]
          simp
      · have quiet : ∀ tx, s.phase j ≠ .verifyPin tx := by
          intro tx asked
          obtain ⟨other,found,owner,_⟩ := closed.pin_accepted tx asked
          rw [there] at found
          cases found
          exact same owner.symm
        constructor
        · show phase j ≠ _
          rw [kept j same]
          exact closed.not_queued
        · show ∀ tx, phase j ≠ _
          rw [kept j same]
          exact closed.not_prompted
        · show ∀ tx, phase j = _ → _
          rw [kept j same]
          exact fun tx asked => absurd asked (quiet tx) }

/-- The transaction is handed to the peer manager. -/
theorem Inv.published {p : Publication Tx} {queue : List (Block Tx)}
    (head : s.walletQueue = .publish p :: queue) :
    Inv { s with
      walletQueue := queue, handed := s.handed ++ [p], flights := s.flights ++ [p.send] } := by
  have records : ∀ q ∈ publications queue ++ (s.handed ++ [p]), q ∈ s.records := by
    intro q mem
    simp only [State.records, head, publications_publish, List.mem_append, List.mem_cons,
      List.not_mem_nil, or_false] at mem ⊢
    tauto
  have tally : ∀ j, ((publications queue).map (·.send)).count j +
      (s.flights ++ [p.send]).count j + (s.reports.map Prod.fst).count j = s.tally j := by
    intro j
    simp only [State.tally, head, publications_publish, List.map_cons, List.count_cons,
      List.count_append, List.count_nil]
    omega
  exact {
    idle := inv.idle
    prompts_nodup := by simpa [head] using inv.prompts_nodup
    prompts_phase := by simpa [head] using inv.prompts_phase
    signings_nodup := by simpa [head] using inv.signings_nodup
    signings_old := by simpa [head] using inv.signings_old
    wait_old := inv.wait_old
    wait_phase := inv.wait_phase
    wait_signing := by simpa [head] using inv.wait_signing
    answers_old := inv.answers_old
    wait_unanswered := inv.wait_unanswered
    records_old := fun q mem => inv.records_old q (records q mem)
    wait_unpublished := fun w there unsuccessful q mem =>
      inv.wait_unpublished w there unsuccessful q (records q mem)
    refused := fun entry refused q mem => inv.refused entry refused q (records q mem)
    signed := fun q mem => inv.signed q (records q mem)
    fresh := fun j later => ⟨(inv.fresh j later).1,(tally j).trans (inv.fresh j later).2⟩
    outstanding := fun j missing started unfinished =>
      (tally j).trans (inv.outstanding j missing started unfinished)
    reported := fun j mem =>
      have ⟨one,closed⟩ := inv.reported j mem
      ⟨(tally j).trans one,{ closed with }⟩ }

theorem Inv.answered {i : Nat} (flying : i ∈ s.flights) (result : SendResult) :
    Inv { s with flights := s.flights.erase i, reports := s.reports ++ [(i,result)] } := by
  have tally : ∀ j, ((publications s.walletQueue).map (·.send)).count j +
      (s.flights.erase i).count j + ((s.reports ++ [(i,result)]).map Prod.fst).count j =
        s.tally j := by
    intro j
    have here : 0 < s.flights.count i := List.count_pos_iff.mpr flying
    simp only [State.tally, List.count_erase, List.map_append, List.map_cons, List.map_nil,
      List.count_append, List.count_singleton, beq_iff_eq]
    by_cases same : i = j
    · subst same
      simp only [if_pos]
      omega
    · simp only [if_neg same]
      omega
  exact { inv with
    fresh := fun j later => ⟨(inv.fresh j later).1,(tally j).trans (inv.fresh j later).2⟩
    outstanding := fun j missing started unfinished =>
      (tally j).trans (inv.outstanding j missing started unfinished)
    reported := fun j mem =>
      have ⟨one,closed⟩ := inv.reported j mem
      ⟨(tally j).trans one,{ closed with }⟩ }

end Steps

theorem onMain_some {s t : State Tx} {next : Option (State Tx)} :
    onMain s next = some t ↔ s.waiting = none ∧ next = some t := by
  unfold onMain
  split
  · rename_i free
    simp [free]
  · rename_i busy
    simp [busy]

/-- One event of an orderly run. -/
theorem step_inv (s : State Tx) (e : Event Tx) (t : State Tx) (inv : Inv s)
    (orderly : Orderly s e) (taken : step s e = some t) : Inv t := by
  cases e with
  | createTransaction made =>
    obtain ⟨_,rest⟩ := onMain_some.mp taken
    cases rest
    exact inv.createTransaction made
  | send canUseTouchId =>
    obtain ⟨free,rest⟩ := onMain_some.mp taken
    cases rest
    exact inv.send free canUseTouchId
  | touchIDChecked withinLimit =>
    rw [step] at taken
    split at taken
    case h_2 => cases taken
    case h_1 i tx queue head =>
      cases taken
      exact inv.touchIDChecked head _
  | touchIDAnswered i result =>
    rw [step] at taken
    split at taken
    case h_2 => cases taken
    case h_1 tx prompted =>
      obtain ⟨free,rest⟩ := onMain_some.mp taken
      cases rest
      exact inv.touchIDAnswered free prompted result orderly
  | pinEntered i =>
    rw [step] at taken
    split at taken
    case h_2 => cases taken
    case h_1 tx asked =>
      obtain ⟨free,rest⟩ := onMain_some.mp taken
      cases rest
      exact inv.pinEntered free asked
  | signed result =>
    rw [step] at taken
    split at taken
    case h_2 => cases taken
    case h_1 entry i tx queue head =>
      cases taken
      exact inv.signingRun head result orderly
  | timedOut =>
    rw [step] at taken
    split at taken
    case h_2 => cases taken
    case h_1 entry i there =>
      cases taken
      have result := inv.answer there false (fun _ same => nomatch same)
      rw [State.setPhase, if_neg Bool.false_ne_true, Function.update_eq_self] at result
      exact result
  | returned =>
    rw [step] at taken
    split at taken
    case h_2 => cases taken
    case h_1 entry i success there =>
      cases taken
      exact inv.answer there success (fun refused same => by cases refused; cases same)
  | published peerManager =>
    rw [step] at taken
    split at taken
    case h_2 => cases taken
    case h_1 p queue head =>
      rw [show peerManager = true from orderly, if_pos rfl] at taken
      cases taken
      exact inv.published head
  | answered i success =>
    rw [step] at taken
    split at taken
    case isFalse => cases taken
    case isTrue flying =>
      obtain ⟨_,rest⟩ := onMain_some.mp taken
      cases rest
      exact inv.answered flying _

/-- In every orderly run a refused payment is not sent, what is sent was signed,
    and each authenticated send reports once. -/
theorem orderly_runs_are_safe (events : List (Event Tx)) (s : State Tx)
    (orderly : Along step Orderly State.initial events)
    (run : exec step State.initial events = some s) : Safe s :=
  (exec_keeps step_inv Inv.initial orderly run).safe

/-- One payment with the PIN mistyped once, and then one by Touch ID. -/
def quickEvents : List (Event Nat) :=
  [.createTransaction (some 1), .send false, .pinEntered 0, .signed .refused, .returned,
    .pinEntered 0, .signed .signed, .published true, .returned, .answered 0 true,
    .createTransaction (some 2), .send true, .touchIDChecked true,
    .touchIDAnswered 1 (.success true), .published true, .answered 1 false]

theorem quick_payments_are_safe : ∃ s, exec step State.initial quickEvents = some s ∧
    s.handed = [{ send := 0, source := .pin 1, signed := 1, tx := 1 },
      { send := 1, source := .touchID, signed := 2, tx := 2 }] ∧ Safe s :=
  ⟨_,rfl,rfl,orderly_runs_are_safe quickEvents _ (by decide) rfl⟩

/-- The wait for a signature times out and the user makes another transaction
    before the signing block gets its turn. -/
def slowEvents : List (Event Nat) :=
  [.createTransaction (some 1), .send false, .pinEntered 0, .timedOut,
    .createTransaction (some 2), .signed .signed, .published true]

theorem slow_payment_is_not_safe : ∃ s, exec step State.initial slowEvents = some s ∧
    s.answers = [(0,false)] ∧
      s.handed = [{ send := 0, source := .pin 0, signed := 1, tx := 2 }] ∧ ¬ Safe s := by
  refine ⟨_,rfl,rfl,rfl,?_⟩
  intro safe
  exact safe.refused 0 (List.mem_singleton.mpr rfl) _ (List.mem_singleton.mpr rfl) rfl

end Sender
