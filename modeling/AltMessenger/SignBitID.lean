import Mathlib.Logic.Function.Basic
import AltMessenger.HTTPResponse
import AltMessenger.LittleEndian
import AltMessenger.SwiftURL
import AltMessenger.TransitionRuns

/-!
`POST /_wallet/sign_bitid`: requests for signatures, prompts for the user, and the keys that are
kept for a minute after one. The handler runs on the thread of a request, its block, the results of
prompts and the timers on the main thread, one at a time, and the answers on the request's queue.
-/
namespace SignBitID
open SwiftRuntime SwiftText SwiftURL HTTPResponse TransitionRuns LittleEndian
open HTTPRequest (Fields)

/-- The keys of the wallet's recovery phrase, and what is made with a key. -/
structure Wallet (Key : Type) where
  bitIdKey : List Char → UInt32 → Key
  /-- the signature of data under a key, in base 64 -/
  compactSign : List UInt8 → Key → List Char
  address : Key → Option (List Char)

def utf8 (text : List Char) : List UInt8 := text.flatMap String.utf8EncodeChar

/-- `Int32(_:)` of a count -/
def int32 (count : Nat) : Except Trap Int :=
  if count < 2 ^ 31 then .ok count else .error .conversion

/-- `appendVarInt(i:)`: where the count is compared as an `Int32`, it has been made one. -/
def appendVarInt (i : Nat) : Except Trap (List UInt8) :=
  if i < 0xfd then .ok (toBytes 1 i)
  else do
    -- what is no `Int32` does not come to the wider headers
    if (← int32 i) ≤ 0xffff then .ok (0xfd :: toBytes 2 i) else .ok (0xfe :: toBytes 4 i)

def bitcoinSignedMessageHeader : List Char := "Bitcoin Signed Message:\n".toList

def formatMessageForBitcoinSigning (message : List Char) : Except Trap (List UInt8) := do
  let messageHeaderCount ← uint8 bitcoinSignedMessageHeader.length
  let count ← appendVarInt (utf8 message).length
  .ok (messageHeaderCount :: utf8 bitcoinSignedMessageHeader ++ count ++ utf8 message)

/-- A body that is JSON with texts under names. -/
abbrev Json := List UInt8 → Option (List (List Char × List Char))

structure Post where
  headers : Fields
  body : Option (List UInt8)

structure BitIDRequest where
  stringToSign : List Char
  bitidUrl : URL
  bitidIndex : Int
  deriving DecidableEq

def parseBody (json : Json) (body : Option (List UInt8)) : Option BitIDRequest := do
  let fields ← json (← body)
  let stringToSign ← fields.lookup "string_to_sign".toList
  let bitidUrl ← URL.ofString (← fields.lookup "bitid_url".toList)
  let bitidIndex ← int (← fields.lookup "bitid_index".toList)
  some ⟨stringToSign,bitidUrl,bitidIndex⟩

/-- The guards of the handler: an answer at once, or a request to be answered later. -/
def accept (json : Json) (isPresentingAuth : Bool) (post : Post) : Except Response BitIDRequest :=
  if post.headers.lookup "content-type".toList = some ["application/json".toList] then
    if isPresentingAuth then .error (.ofCode 423)
    else
      match parseBody json post.body with
      | none => .error (.ofCode 400)
      | some request => .ok request
  else .error (.ofCode 400)

theorem accept_unparsed {json : Json} {post : Post}
    (typed : post.headers.lookup "content-type".toList = some ["application/json".toList])
    (unparsed : parseBody json post.body = none) : accept json false post = .error (.ofCode 400) := by
  rw [accept, if_pos typed, if_neg Bool.false_ne_true, unparsed]

theorem accept_parsed {json : Json} {post : Post} {request : BitIDRequest}
    (typed : post.headers.lookup "content-type".toList = some ["application/json".toList])
    (parsed : parseBody json post.body = some request) : accept json false post = .ok request := by
  rw [accept, if_pos typed, if_neg Bool.false_ne_true, parsed]

/-- The name a key is kept under: `bitidUrl.host ?? bitidUrl.absoluteString` -/
def cacheName (url : URL) : List Char := url.host.getD url.absoluteString

/-- What the user is shown: a URL that has no base is described by its text. -/
def promptText (url : URL) : List Char := url.host.getD url.absoluteString

/-- `UInt32(_:)` of an `Int` -/
def uint32 (index : Int) : Except Trap UInt32 :=
  if 0 ≤ index ∧ index < 2 ^ 32 then .ok (UInt32.ofNat index.toNat) else .error .conversion

variable {Key : Type}

/-- `buildBitIdKey`, with the recovery phrase there or not. -/
def buildBitIdKey (W : Wallet Key) (phrase : Bool) (url : List Char) (index : Int) :
    Except Trap (Option Key) :=
  if phrase then do
    let index ← uint32 index
    pure (some (W.bitIdKey url index))
  else .ok none

inductive BitIdAuthResult where
  | success
  | cancelled
  | failed
  deriving DecidableEq, Repr

/-- A request that was accepted, by its number. -/
structure Posted where
  number : Nat
  request : BitIDRequest

inductive Answer (Key : Type) where
  | code (statusCode : Nat)
  /-- a signature made with a key, at a time -/
  | signature (key : Key) (time : Nat)

def signMessage (W : Wallet Key) (message : List Char) (key : Key) : Except Trap (List Char) := do
  let signingData ← formatMessageForBitcoinSigning message
  .ok (W.compactSign signingData key)

/-- What a signature is answered with. -/
def signatureJson (W : Wallet Key) (stringToSign : List Char) (key : Key) :
    Except Trap (List (List Char × List Char)) := do
  let sig ← signMessage W stringToSign key
  .ok [("signature".toList, sig),("address".toList, (W.address key).getD [])]

structure State (Key : Type) where
  /-- milliseconds -/
  now : Nat
  isPresentingAuth : Bool
  tempBitIDKeys : List Char → Option Key
  /-- the deadlines of the timers, and the names they remove -/
  timers : List (Nat × List Char)
  accepted : Nat
  /-- the requests whose block is still to run, whose prompt is shown, whose answer is queued, and
      those that were answered -/
  blocks : List Posted
  prompts : List Posted
  provides : List (Posted × Answer Key)
  answered : List (Posted × Answer Key)
  /-- the answers at once -/
  refused : List Response
  /-- the prompts the user approved, and when -/
  approvals : List (List Char × Nat)
  crashed : Bool

def initial : State Key := ⟨0,false,fun _ => none,[],0,[],[],[],[],[],[],false⟩

inductive Event where
  | post (post : Post)
  | block (i : Nat)
  /-- the result of a prompt, and whether the recovery phrase can be read then -/
  | result (i : Nat) (result : BitIdAuthResult) (phrase : Bool)
  | expire (i : Nat)
  | provide (i : Nat)
  | advance (time : Nat)

namespace State

def provide (s : State Key) (posted : Posted) (answer : Answer Key) : State Key :=
  { s with provides := s.provides ++ [(posted, answer)] }

def sendBitIDResponse (W : Wallet Key) (s : State Key) (posted : Posted) (key : Key) : State Key :=
  match signatureJson W posted.request.stringToSign key with
  | .error _ => { s with crashed := true }
  | .ok _ => s.provide posted (.signature key s.now)

/-- The key is removed in 60 seconds. -/
def addKeyToCache (s : State Key) (key : Key) (url : List Char) : State Key :=
  { s with
    tempBitIDKeys := Function.update s.tempBitIDKeys url (some key)
    timers := s.timers ++ [(s.now + 60000, url)] }

def posted (s : State Key) (request : BitIDRequest) : State Key :=
  { s with blocks := s.blocks ++ [⟨s.accepted,request⟩], accepted := s.accepted + 1 }

/-- The block of a request: a key that is kept is used without a prompt. -/
def run (W : Wallet Key) (s : State Key) (posted : Posted) : State Key :=
  match s.tempBitIDKeys (cacheName posted.request.bitidUrl) with
  | some key => s.sendBitIDResponse W posted key
  | none => { s with isPresentingAuth := true, prompts := s.prompts ++ [posted] }

def approve (s : State Key) (posted : Posted) : State Key :=
  { s with approvals := s.approvals ++ [(promptText posted.request.bitidUrl, s.now)] }

/-- The user is done with a prompt. -/
def leavePrompt (s : State Key) (i : Nat) : State Key :=
  { s with isPresentingAuth := false, prompts := s.prompts.eraseIdx i }

/-- The callback of a prompt. -/
def authenticated (W : Wallet Key) (s : State Key) (posted : Posted) (phrase : Bool) :
    BitIdAuthResult → State Key
  | .success =>
    let url := cacheName posted.request.bitidUrl
    match buildBitIdKey W phrase url posted.request.bitidIndex with
    | .error _ => { s with crashed := true }
    | .ok none => (s.approve posted).provide posted (.code 401)
    | .ok (some key) =>
      ((s.approve posted).addKeyToCache key url).sendBitIDResponse W posted key
  | .cancelled => s.provide posted (.code 403)
  | .failed => s.provide posted (.code 401)

def expire (s : State Key) (url : List Char) : State Key :=
  { s with tempBitIDKeys := Function.update s.tempBitIDKeys url none }

end State

/-- Time does not pass a timer that has not fired, and nothing follows a crash. -/
def step (W : Wallet Key) (json : Json) (s : State Key) (event : Event) : Option (State Key) :=
  if s.crashed then none
  else
    match event with
    | .post post =>
      match accept json s.isPresentingAuth post with
      | .error response => some { s with refused := s.refused ++ [response] }
      | .ok request => some (s.posted request)
    | .block i => s.blocks[i]?.map fun posted =>
      { s with blocks := s.blocks.eraseIdx i }.run W posted
    | .result i result phrase => s.prompts[i]?.map fun posted =>
      (s.leavePrompt i).authenticated W posted phrase result
    | .expire i => s.timers[i]?.bind fun timer =>
      if timer.1 ≤ s.now then some ({ s with timers := s.timers.eraseIdx i }.expire timer.2)
      else none
    | .provide i => s.provides[i]?.map fun provided =>
      { s with provides := s.provides.eraseIdx i, answered := s.answered ++ [provided] }
    | .advance time =>
      if ∀ timer ∈ s.timers, s.now + time ≤ timer.1 then some { s with now := s.now + time }
      else none

/-- The key of the request's own host and index. -/
def OwnKey (W : Wallet Key) (posted : Posted) (key : Key) : Prop :=
  buildBitIdKey W true (cacheName posted.request.bitidUrl) posted.request.bitidIndex =
    .ok (some key)

/-- The user approved a prompt for the request's host, no more than 60 seconds before a time. -/
def Approved (s : State Key) (posted : Posted) (time : Nat) : Prop :=
  ∃ approval, (promptText posted.request.bitidUrl, approval) ∈ s.approvals ∧ approval ≤ time ∧
    time ≤ approval + 60000

/-- How often a request is waiting somewhere. -/
def waiting (s : State Key) (number : Nat) : Nat :=
  s.blocks.countP (fun posted => posted.number = number) +
    s.prompts.countP (fun posted => posted.number = number) +
    s.provides.countP fun provided => provided.1.number = number

/-- How often a request was answered. -/
def answers (s : State Key) (number : Nat) : Nat :=
  s.answered.countP fun provided => provided.1.number = number

/-- The signatures that were made are by the right key and approved, and each request that was
    accepted was answered once, or is waiting for it at one place. -/
structure Good (W : Wallet Key) (s : State Key) : Prop where
  runs : s.crashed = false
  signatures : ∀ posted key time,
    (posted, Answer.signature key time) ∈ s.provides ++ s.answered →
      OwnKey W posted key ∧ Approved s posted time
  once : ∀ number, number < s.accepted → answers s number + waiting s number = 1

/-- The number of bytes of the message is one of an `Int32`. -/
def ShortMessage (stringToSign : List Char) : Prop := (utf8 stringToSign).length < 2 ^ 31

/-- A key that is kept for a request's host is the key of its index too, the index of a request
    that is approved is one that keys are derived for, and what is signed is short enough. -/
def Meets (W : Wallet Key) (s : State Key) : Event → Prop
  | .block i => ∀ posted, s.blocks[i]? = some posted → ∀ key,
    s.tempBitIDKeys (cacheName posted.request.bitidUrl) = some key →
      OwnKey W posted key ∧ ShortMessage posted.request.stringToSign
  | .result i .success true => ∀ posted, s.prompts[i]? = some posted →
    (0 ≤ posted.request.bitidIndex ∧ posted.request.bitidIndex < 2 ^ 32) ∧
      ShortMessage posted.request.stringToSign
  | _ => True

/-- A key that is kept was approved for, and has a timer that is on time. -/
structure Timed (s : State Key) : Prop where
  kept : ∀ url key, s.tempBitIDKeys url = some key → ∃ approval, (url, approval) ∈ s.approvals ∧
    approval ≤ s.now ∧ (approval + 60000, url) ∈ s.timers
  on_time : ∀ timer ∈ s.timers, s.now ≤ timer.1

/-- Each request that was accepted is at one place, but for those that are counted apart. -/
def Counted (s : State Key) (apart : Nat → Nat) : Prop := ∀ number,
  answers s number + waiting s number + apart number = if number < s.accepted then 1 else 0

structure Sound (s : State Key) : Prop where
  timed : Timed s
  counted : s.crashed = false → Counted s fun _ => 0

section Counts
variable {α : Type} {xs : List α} {i : Nat} {x : α}

theorem cons_eraseIdx_perm (there : xs[i]? = some x) : (x :: xs.eraseIdx i).Perm xs := by
  obtain ⟨inside,same⟩ := List.getElem?_eq_some_iff.mp there
  rw [← same]
  exact List.getElem_cons_eraseIdx_perm inside

/-- An element that is taken out is counted apart. -/
theorem countP_eraseIdx (p : α → Bool) (there : xs[i]? = some x) :
    xs.countP p = (xs.eraseIdx i).countP p + [x].countP p := by
  rw [← (cons_eraseIdx_perm there).countP_eq p, ← List.singleton_append, List.countP_append,
    Nat.add_comm]

end Counts

section Steps
variable {W : Wallet Key} {s t : State Key} {posted : Posted}

theorem sound_initial : Sound (initial : State Key) := by
  refine ⟨⟨?_,?_⟩,?_⟩
  · intro url key none_yet
    cases none_yet
  · intro timer none_yet
    cases none_yet
  · intro _ number
    rfl

/-- What is counted of a request, of those that are waiting at one place alone. -/
def here (posted : Posted) (number : Nat) : Nat :=
  [posted].countP fun posted => posted.number = number

theorem waiting_provide (s : State Key) (posted : Posted) (answer : Answer Key) (number : Nat) :
    waiting (s.provide posted answer) number = waiting s number + here posted number := by
  have one : [(posted, answer)].countP (fun provided => provided.1.number = number) =
      here posted number := by
    simp only [here, List.countP_singleton]
  simp only [waiting, State.provide, List.countP_append, one]
  omega

theorem Timed.of_eq (timed : Timed s) (now : t.now = s.now)
    (keys : t.tempBitIDKeys = s.tempBitIDKeys) (timers : t.timers = s.timers)
    (more : s.approvals ⊆ t.approvals) : Timed t := by
  refine ⟨?_,?_⟩
  · intro url key found
    rw [keys] at found
    obtain ⟨approval,approved,before,timer⟩ := timed.kept url key found
    rw [now, timers]
    exact ⟨approval,more approved,before,timer⟩
  · rw [now, timers]
    exact timed.on_time

/-- A key that is approved for now is kept with a timer. -/
theorem timed_addKeyToCache (timed : Timed s) {url : List Char} (key : Key)
    (approved : (url, s.now) ∈ s.approvals) : Timed (s.addKeyToCache key url) := by
  refine ⟨?_,?_⟩
  · intro name other found
    by_cases same : name = url
    · subst same
      exact ⟨s.now,approved,Nat.le_refl _,List.mem_append_right _ (List.mem_singleton.mpr rfl)⟩
    · change Function.update s.tempBitIDKeys url (some key) name = some other at found
      rw [Function.update_of_ne same] at found
      obtain ⟨approval,there,before,timer⟩ := timed.kept name other found
      exact ⟨approval,there,before,List.mem_append_left _ timer⟩
  · intro timer mem
    rcases List.mem_append.mp mem with old | new
    · exact timed.on_time timer old
    · rw [List.mem_singleton.mp new]
      exact Nat.le_add_right s.now 60000

/-- A timer takes no key but its own with it. -/
theorem timed_expire (timed : Timed s) {i : Nat} {timer : Nat × List Char}
    (there : s.timers[i]? = some timer) :
    Timed ({ s with timers := s.timers.eraseIdx i }.expire timer.2) := by
  refine ⟨?_,fun other mem => timed.on_time other (List.mem_of_mem_eraseIdx mem)⟩
  intro name key found
  change Function.update s.tempBitIDKeys timer.2 none name = some key at found
  by_cases same : name = timer.2
  · rw [same, Function.update_self] at found
    cases found
  · rw [Function.update_of_ne same] at found
    obtain ⟨approval,approved,before,mem⟩ := timed.kept name key found
    refine ⟨approval,approved,before,?_⟩
    rcases List.mem_cons.mp ((cons_eraseIdx_perm there).mem_iff.mpr mem) with itself | left
    · rw [← itself] at same
      exact absurd rfl same
    · exact left

theorem timed_advance (timed : Timed s) {time : Nat}
    (early : ∀ timer ∈ s.timers, s.now + time ≤ timer.1) :
    Timed { s with now := s.now + time } := by
  refine ⟨?_,early⟩
  intro url key found
  obtain ⟨approval,approved,before,timer⟩ := timed.kept url key found
  exact ⟨approval,approved,Nat.le_add_right_of_le before,timer⟩

/-- A key that is found was approved for in the last 60 seconds. -/
theorem Timed.approved (timed : Timed s) {key : Key}
    (found : s.tempBitIDKeys (cacheName posted.request.bitidUrl) = some key) :
    Approved s posted s.now := by
  obtain ⟨approval,approved,before,timer⟩ := timed.kept _ key found
  exact ⟨approval,approved,before,timed.on_time _ timer⟩

/-- An answer that is queued puts a request that was counted apart at its place. -/
theorem counted_provide (counted : Counted s (here posted)) (answer : Answer Key) :
    Counted (s.provide posted answer) fun _ => 0 := by
  intro number
  have total := counted number
  rw [waiting_provide]
  change answers s number + (waiting s number + here posted number) + 0 = _
  change _ = if number < s.accepted then 1 else 0 at total
  change _ = if number < s.accepted then 1 else 0
  omega

theorem counted_posted (counted : Counted s fun _ => 0) (request : BitIDRequest) :
    Counted (s.posted request) fun _ => 0 := by
  intro number
  have total := counted number
  change _ = if number < s.accepted + 1 then 1 else 0
  simp only [answers, waiting, State.posted, List.countP_append, List.countP_singleton,
    decide_eq_true_eq] at total ⊢
  by_cases new : s.accepted = number
  · rw [if_neg (by omega)] at total
    rw [if_pos new, if_pos (by omega)]
    omega
  · rw [if_neg new]
    have same : number < s.accepted ↔ number < s.accepted + 1 := by omega
    simp only [same] at total
    omega

theorem counted_block {i : Nat} (counted : Counted s fun _ => 0)
    (there : s.blocks[i]? = some posted) :
    Counted { s with blocks := s.blocks.eraseIdx i } (here posted) := by
  intro number
  have total := counted number
  have out := countP_eraseIdx (fun posted : Posted => posted.number = number) there
  simp only [answers, waiting, here] at total ⊢
  omega

theorem counted_prompt {i : Nat} (counted : Counted s fun _ => 0)
    (there : s.prompts[i]? = some posted) :
    Counted (s.leavePrompt i) (here posted) := by
  intro number
  have total := counted number
  change _ = if number < s.accepted then 1 else 0
  have out := countP_eraseIdx (fun posted : Posted => posted.number = number) there
  simp only [answers, waiting, here, State.leavePrompt] at total ⊢
  omega

theorem appendVarInt_short {i : Nat} (short : i < 2 ^ 31) :
    ∃ bytes, appendVarInt i = .ok bytes := by
  have fits : int32 i = .ok i := if_pos short
  unfold appendVarInt
  split
  · exact ⟨_,rfl⟩
  · rw [bind_ready fits]
    split
    · exact ⟨_,rfl⟩
    · exact ⟨_,rfl⟩

theorem appendVarInt_traps {i : Nat} (long : ¬ i < 2 ^ 31) :
    appendVarInt i = .error .conversion := by
  have traps : int32 i = .error .conversion := if_neg long
  unfold appendVarInt
  rw [if_neg (by omega)]
  exact bind_halted traps

theorem header_fits : ∃ count, uint8 bitcoinSignedMessageHeader.length = .ok count := ⟨24,by decide⟩

theorem signatureJson_short (W : Wallet Key) {stringToSign : List Char} (key : Key)
    (short : ShortMessage stringToSign) : ∃ json, signatureJson W stringToSign key = .ok json := by
  obtain ⟨count,header⟩ := header_fits
  obtain ⟨bytes,appended⟩ := appendVarInt_short short
  unfold signatureJson signMessage formatMessageForBitcoinSigning
  rw [bind_ready header, bind_ready appended]
  exact ⟨_,rfl⟩

theorem signatureJson_traps {stringToSign : List Char} {key : Key}
    (long : ¬ ShortMessage stringToSign) :
    signatureJson W stringToSign key = .error .conversion := by
  obtain ⟨count,header⟩ := header_fits
  unfold signatureJson signMessage formatMessageForBitcoinSigning
  rw [bind_ready header, bind_halted (appendVarInt_traps long)]
  rfl

theorem sent_short {key : Key} (short : ShortMessage posted.request.stringToSign) :
    s.sendBitIDResponse W posted key = s.provide posted (.signature key s.now) := by
  obtain ⟨json,signed⟩ := signatureJson_short W key short
  simp only [State.sendBitIDResponse, signed]

theorem sent_long {key : Key} (long : ¬ ShortMessage posted.request.stringToSign) :
    s.sendBitIDResponse W posted key = { s with crashed := true } := by
  simp only [State.sendBitIDResponse, signatureJson_traps long]

/-- A signature that is sent leaves no request out. -/
theorem sound_sent (timed : Timed s) (counted : Counted s (here posted)) (key : Key) :
    Sound (s.sendBitIDResponse W posted key) := by
  by_cases short : ShortMessage posted.request.stringToSign
  · rw [sent_short short]
    exact ⟨timed.of_eq rfl rfl rfl (List.Subset.refl _),fun _ => counted_provide counted _⟩
  · rw [sent_long short]
    exact ⟨timed.of_eq rfl rfl rfl (List.Subset.refl _),fun runs => nomatch runs⟩

theorem sound_run (timed : Timed s) (counted : Counted s (here posted)) :
    Sound (s.run W posted) := by
  unfold State.run
  split
  · exact sound_sent timed counted _
  · refine ⟨timed.of_eq rfl rfl rfl (List.Subset.refl _),fun _ => ?_⟩
    intro number
    have total := counted number
    simp only [answers, waiting, here, List.countP_append] at total ⊢
    omega

theorem counted_provided {i : Nat} {provided : Posted × Answer Key}
    (counted : Counted s fun _ => 0) (there : s.provides[i]? = some provided) :
    Counted { s with provides := s.provides.eraseIdx i, answered := s.answered ++ [provided] }
      fun _ => 0 := by
  intro number
  have total := counted number
  have out := countP_eraseIdx (fun provided : Posted × Answer Key => provided.1.number = number)
    there
  simp only [answers, waiting, List.countP_append] at total ⊢
  omega

theorem buildBitIdKey_ok (W : Wallet Key) (url : List Char) {index : Int}
    (fits : 0 ≤ index ∧ index < 2 ^ 32) :
    ∃ key, buildBitIdKey W true url index = .ok (some key) := by
  refine ⟨W.bitIdKey url (UInt32.ofNat index.toNat),?_⟩
  have built : uint32 index = .ok (UInt32.ofNat index.toNat) := if_pos fits
  rw [buildBitIdKey, if_pos rfl, bind_ready built]
  rfl

theorem buildBitIdKey_traps {url : List Char} {index : Int}
    (large : ¬ (0 ≤ index ∧ index < 2 ^ 32)) :
    buildBitIdKey W true url index = .error .conversion := by
  have traps : uint32 index = .error .conversion := if_neg large
  rw [buildBitIdKey, if_pos rfl]
  exact bind_halted traps

theorem sound_authenticated (timed : Timed s) (counted : Counted s (here posted)) (phrase : Bool)
    (result : BitIdAuthResult) : Sound (s.authenticated W posted phrase result) := by
  have more : s.approvals ⊆ (s.approve posted).approvals := List.subset_append_left _ _
  have approved : Timed (s.approve posted) := timed.of_eq rfl rfl rfl more
  have counted' : Counted (s.approve posted) (here posted) := counted
  cases result with
  | cancelled =>
    exact ⟨timed.of_eq rfl rfl rfl (List.Subset.refl _),fun _ => counted_provide counted _⟩
  | failed =>
    exact ⟨timed.of_eq rfl rfl rfl (List.Subset.refl _),fun _ => counted_provide counted _⟩
  | success =>
    unfold State.authenticated
    dsimp only
    split
    · exact ⟨timed.of_eq rfl rfl rfl (List.Subset.refl _),fun runs => nomatch runs⟩
    · exact ⟨approved.of_eq rfl rfl rfl (List.Subset.refl _),fun _ => counted_provide counted' _⟩
    case h_3 key _ =>
      have there : (cacheName posted.request.bitidUrl, s.now) ∈ (s.approve posted).approvals :=
        List.mem_append_right _ (List.mem_singleton.mpr rfl)
      exact sound_sent (timed_addKeyToCache approved key there) counted' key

/-- A step keeps what holds whatever is asked for. -/
theorem step_sound {json : Json} {event : Event} (sound : Sound s)
    (taken : step W json s event = some t) : Sound t := by
  unfold step at taken
  split at taken
  · cases taken
  case isFalse runs =>
    have counted := sound.counted (Bool.eq_false_iff.mpr runs)
    have timed := sound.timed
    cases event with
    | post post =>
      dsimp only at taken
      split at taken
      · cases taken
        exact ⟨timed.of_eq rfl rfl rfl (List.Subset.refl _),fun _ => counted⟩
      case h_2 request _ =>
        cases taken
        exact ⟨timed.of_eq rfl rfl rfl (List.Subset.refl _),fun _ => counted_posted counted request⟩
    | block i =>
      obtain ⟨posted,there,same⟩ := Option.map_eq_some_iff.mp taken
      subst same
      have shorter : Timed { s with blocks := s.blocks.eraseIdx i } :=
        timed.of_eq rfl rfl rfl (List.Subset.refl _)
      exact sound_run shorter (counted_block counted there)
    | result i result phrase =>
      obtain ⟨posted,there,same⟩ := Option.map_eq_some_iff.mp taken
      subst same
      have shorter : Timed (s.leavePrompt i) :=
        timed.of_eq rfl rfl rfl (List.Subset.refl _)
      exact sound_authenticated shorter (counted_prompt counted there) phrase result
    | expire i =>
      obtain ⟨timer,there,taken⟩ := Option.bind_eq_some_iff.mp taken
      split at taken
      · cases taken
        exact ⟨timed_expire timed there,fun _ => counted⟩
      · cases taken
    | provide i =>
      obtain ⟨provided,there,same⟩ := Option.map_eq_some_iff.mp taken
      subst same
      exact ⟨timed.of_eq rfl rfl rfl (List.Subset.refl _),fun _ => counted_provided counted there⟩
    | advance time =>
      dsimp only at taken
      split at taken
      case isTrue early =>
        cases taken
        exact ⟨timed_advance timed early,fun _ => counted⟩
      case isFalse => cases taken

/-- Nothing was signed since. -/
def NoneSigned (s t : State Key) : Prop := ∀ posted key time,
  (posted, Answer.signature key time) ∈ t.provides ++ t.answered →
    (posted, Answer.signature key time) ∈ s.provides ++ s.answered

theorem good_signatures (good : Good W s) (more : s.approvals ⊆ t.approvals)
    (none_signed : NoneSigned s t) {posted : Posted} {key : Key} {time : Nat}
    (mem : (posted, Answer.signature key time) ∈ t.provides ++ t.answered) :
    OwnKey W posted key ∧ Approved t posted time := by
  obtain ⟨own,approval,approved,rest⟩ := good.signatures posted key time
    (none_signed posted key time mem)
  exact ⟨own,approval,more approved,rest⟩

theorem good_once (sound : Sound t) (runs : t.crashed = false) (number : Nat)
    (there : number < t.accepted) : answers t number + waiting t number = 1 := by
  have total := sound.counted runs number
  rw [if_pos there] at total
  exact total

/-- Where nothing was signed, all stays good. -/
theorem good_calm (good : Good W s) (sound : Sound t) (runs : t.crashed = false)
    (more : s.approvals ⊆ t.approvals) (none_signed : NoneSigned s t) : Good W t :=
  ⟨runs,fun _ _ _ mem => good_signatures good more none_signed mem,good_once sound runs⟩

/-- A signature that is approved is good exactly if its key is the request's own, and its message
    short. -/
theorem good_signature (good : Good W s) {key : Key}
    (sound : Sound (t.sendBitIDResponse W posted key)) (runs : t.crashed = false)
    (more : s.approvals ⊆ t.approvals) (none_signed : NoneSigned s t)
    (approved : Approved t posted t.now) : Good W (t.sendBitIDResponse W posted key) ↔
      OwnKey W posted key ∧ ShortMessage posted.request.stringToSign := by
  by_cases short : ShortMessage posted.request.stringToSign
  case neg =>
    rw [sent_long short]
    exact iff_of_false (fun good => nomatch good.runs) fun met => short met.2
  rw [sent_short short] at sound ⊢
  have last : (posted, Answer.signature key t.now) ∈
      (t.provide posted (.signature key t.now)).provides ++
        (t.provide posted (.signature key t.now)).answered :=
    List.mem_append_left _ (List.mem_append_right _ (List.mem_singleton.mpr rfl))
  constructor
  · exact fun good => ⟨(good.signatures posted key t.now last).1,short⟩
  · intro met
    obtain ⟨own,_⟩ := met
    refine ⟨runs,?_,good_once sound runs⟩
    intro other used time mem
    rcases List.mem_append.mp mem with queued | done
    · rcases List.mem_append.mp queued with before | new
      · exact good_signatures good more none_signed (List.mem_append_left _ before)
      · cases List.mem_singleton.mp new
        exact ⟨own,approved⟩
    · exact good_signatures good more none_signed (List.mem_append_right _ done)

/-- From a good state the block of a request leads to one exactly if a key that is found is its
    own, and its message short. -/
theorem block_good_iff {i : Nat} (good : Good W s) (sound : Sound s)
    (after : Sound ({ s with blocks := s.blocks.eraseIdx i }.run W posted)) :
    Good W ({ s with blocks := s.blocks.eraseIdx i }.run W posted) ↔
      ∀ key, s.tempBitIDKeys (cacheName posted.request.bitidUrl) = some key →
        OwnKey W posted key ∧ ShortMessage posted.request.stringToSign := by
  have none_signed : NoneSigned s { s with blocks := s.blocks.eraseIdx i } :=
    fun _ _ _ mem => mem
  unfold State.run at after ⊢
  dsimp only at after ⊢
  cases found : s.tempBitIDKeys (cacheName posted.request.bitidUrl) with
  | some key =>
    rw [found] at after
    have signing := good_signature good after good.runs (List.Subset.refl _) none_signed
      (sound.timed.approved found)
    refine signing.trans ⟨fun met other same => ?_,fun each => each key rfl⟩
    cases same
    exact met
  | none =>
    rw [found] at after
    constructor
    · intro _ key same
      cases same
    · exact fun _ => good_calm good after good.runs (List.Subset.refl _) none_signed

/-- From a good state the result of a prompt leads to one exactly if its request can be signed,
    where it is to be signed. -/
theorem result_good_iff {i : Nat} (good : Good W s) (result : BitIdAuthResult) (phrase : Bool)
    (after : Sound ((s.leavePrompt i).authenticated W posted phrase result)) :
    Good W ((s.leavePrompt i).authenticated W posted phrase result) ↔
      (result = .success → phrase = true →
        (0 ≤ posted.request.bitidIndex ∧ posted.request.bitidIndex < 2 ^ 32) ∧
          ShortMessage posted.request.stringToSign) := by
  have coded : ∀ t : State Key, t.provides = s.provides → t.answered = s.answered → ∀ code,
      NoneSigned s (t.provide posted (.code code)) := by
    intro t queued done code other key time mem
    rw [State.provide, queued, done] at mem
    rcases List.mem_append.mp mem with mem | mem
    · rcases List.mem_append.mp mem with before | new
      · exact List.mem_append_left _ before
      · cases List.mem_singleton.mp new
    · exact List.mem_append_right _ mem
  have more : s.approvals ⊆ ((s.leavePrompt i).approve posted).approvals :=
    List.subset_append_left _ _
  cases result with
  | cancelled =>
    refine ⟨fun _ other => (nomatch other),fun _ => ?_⟩
    exact good_calm good after good.runs (List.Subset.refl _) (coded _ rfl rfl 403)
  | failed =>
    refine ⟨fun _ other => (nomatch other),fun _ => ?_⟩
    exact good_calm good after good.runs (List.Subset.refl _) (coded _ rfl rfl 401)
  | success =>
    unfold State.authenticated at after ⊢
    dsimp only at after ⊢
    cases phrase with
    | false =>
      refine ⟨fun _ _ other => (nomatch other),fun _ => ?_⟩
      exact good_calm good after good.runs more (coded _ rfl rfl 401)
    | true =>
      by_cases fits : 0 ≤ posted.request.bitidIndex ∧ posted.request.bitidIndex < 2 ^ 32
      · obtain ⟨key,built⟩ := buildBitIdKey_ok W (cacheName posted.request.bitidUrl) fits
        rw [built] at after ⊢
        have approved : Approved ((s.leavePrompt i).approve posted) posted s.now :=
          ⟨s.now,List.mem_append_right _ (List.mem_singleton.mpr rfl),Nat.le_refl _,
            Nat.le_add_right _ _⟩
        have signing := good_signature good after good.runs more (fun _ _ _ mem => mem) approved
        exact signing.trans ⟨fun met _ _ => ⟨fits,met.2⟩,fun met => ⟨built,(met rfl rfl).2⟩⟩
      · rw [buildBitIdKey_traps fits]
        exact ⟨fun good => (nomatch good.runs),fun met => absurd (met rfl rfl).1 fits⟩

/-- A step leads from a good state to a good one exactly if it meets its condition. -/
theorem step_good_iff {json : Json} {event : Event} (sound : Sound s) (good : Good W s)
    (taken : step W json s event = some t) : Good W t ↔ Meets W s event := by
  have after := step_sound sound taken
  unfold step at taken
  rw [if_neg (by rw [good.runs]; exact Bool.false_ne_true)] at taken
  cases event with
  | post post =>
    refine ⟨fun _ => trivial,fun _ => ?_⟩
    dsimp only at taken
    split at taken
    · cases taken
      exact good_calm good after good.runs (List.Subset.refl _) fun _ _ _ mem => mem
    · cases taken
      exact good_calm good after good.runs (List.Subset.refl _) fun _ _ _ mem => mem
  | block i =>
    obtain ⟨posted,there,same⟩ := Option.map_eq_some_iff.mp taken
    subst same
    refine (block_good_iff good sound after).trans ?_
    simp only [Meets, there, Option.some.injEq, forall_eq']
  | result i result phrase =>
    obtain ⟨posted,there,same⟩ := Option.map_eq_some_iff.mp taken
    subst same
    refine (result_good_iff good result phrase after).trans ?_
    cases result with
    | cancelled => simp [Meets]
    | failed => simp [Meets]
    | success =>
      cases phrase with
      | false => simp [Meets]
      | true => simp only [Meets, there, Option.some.injEq, forall_eq', true_implies]
  | expire i =>
    refine ⟨fun _ => trivial,fun _ => ?_⟩
    obtain ⟨timer,there,taken⟩ := Option.bind_eq_some_iff.mp taken
    split at taken
    · cases taken
      exact good_calm good after good.runs (List.Subset.refl _) fun _ _ _ mem => mem
    · cases taken
  | provide i =>
    refine ⟨fun _ => trivial,fun _ => ?_⟩
    obtain ⟨provided,there,same⟩ := Option.map_eq_some_iff.mp taken
    subst same
    refine good_calm good after good.runs (List.Subset.refl _) ?_
    intro posted key time mem
    rcases List.mem_append.mp mem with left | done
    · exact List.mem_append_left _ (List.mem_of_mem_eraseIdx left)
    · rcases List.mem_append.mp done with before | new
      · exact List.mem_append_right _ before
      · rw [List.mem_singleton.mp new]
        exact List.mem_append_left _ (List.mem_of_getElem? there)
  | advance time =>
    refine ⟨fun _ => trivial,fun _ => ?_⟩
    dsimp only at taken
    split at taken
    · cases taken
      exact good_calm good after good.runs (List.Subset.refl _) fun _ _ _ mem => mem
    · cases taken

end Steps

/-- In a run each state is good, with signatures by the right keys under recent approvals and
    answers once, exactly if each step meets its condition. -/
theorem bitid_good_iff (W : Wallet Key) (json : Json) {events : List Event} {last : State Key}
    (run : exec (step W json) initial events = some last) :
    (∀ done t, done <+: events → exec (step W json) initial done = some t → Good W t) ↔
      Along (step W json) (Meets W) initial events := by
  have start : Good W (initial : State Key) := by
    refine ⟨rfl,?_,?_⟩
    · intro posted key time none_yet
      cases none_yet
    · intro number there
      cases there
  exact exec_good_iff (fun s event t sound taken => step_sound sound taken)
    (fun s event t sound good taken => step_good_iff sound good taken) sound_initial start run

/-- The body of a request for a signature with the key of an index. -/
def page (index : Char) : List UInt8 :=
  ("\x7b\"string_to_sign\":\"m\",\"bitid_url\":\"https://a.b/\",\"bitid_index\":\"".toList ++
    [index] ++ "\"\x7d".toList).map fun c => UInt8.ofNat c.toNat

def pageFields (index : Char) : List (List Char × List Char) :=
  [("string_to_sign".toList, ['m']), ("bitid_url".toList, "https://a.b/".toList),
    ("bitid_index".toList, [index])]

def pageJson : Json := fun data =>
  if data = page '0' then some (pageFields '0')
  else if data = page '1' then some (pageFields '1')
  else none

def post (index : Char) : Event :=
  .post ⟨[("content-type".toList, ["application/json".toList])],some (page index)⟩

/-- A wallet whose keys are the names and indexes they are derived for. -/
def namedWallet : Wallet (List Char × UInt32) where
  bitIdKey url index := (url, index)
  compactSign _ _ := []
  address _ := none

/-- A request for another index of a host within the minute is signed with the first key. -/
theorem cached_for_another_index : ¬ ∀ done t,
    done <+: [post '0',.block 0,.result 0 .success true,post '1',.block 0] →
      exec (step namedWallet pageJson) initial done = some t → Good namedWallet t := by
  intro each
  have runs : exec (step namedWallet pageJson) initial
      [post '0',.block 0,.result 0 .success true,post '1',.block 0] = some _ := rfl
  have good := each _ _ (List.prefix_refl _) runs
  have signed := good.signatures ⟨1,⟨['m'],_,1⟩⟩ ("a.b".toList, 0) 0
    (List.mem_append_left _ (List.mem_append_right _ (List.mem_singleton.mpr rfl)))
  cases signed.1

def hostRequest : BitIDRequest where
  stringToSign := ['m']
  bitidUrl := ⟨"https://a.b/".toList,some "https".toList,some "a.b".toList,none,['/'],none⟩
  bitidIndex := 0

theorem host_short : ShortMessage hostRequest.stringToSign :=
  show (utf8 ['m']).length < 2 ^ 31 by decide

theorem parse_page : parseBody pageJson (some (page '0')) = some hostRequest := by decide

theorem step_post {s : State (List Char × UInt32)} (runs : s.crashed = false)
    (idle : s.isPresentingAuth = false) :
    step namedWallet pageJson s (post '0') = some (s.posted hostRequest) := by
  have accepted : accept pageJson false
      ⟨[("content-type".toList, ["application/json".toList])],some (page '0')⟩ = .ok hostRequest :=
    accept_parsed (by decide) parse_page
  unfold step post
  rw [if_neg (by rw [runs]; exact Bool.false_ne_true)]
  simp only [idle, accepted]

theorem same_index_meets : Along (step namedWallet pageJson) (Meets namedWallet) initial
    [post '0',.block 0,.result 0 .success true,post '0',.block 0] := by
  refine along_cons trivial (step_post rfl rfl) (along_cons ?_ rfl (along_cons ?_ rfl
    (along_cons trivial (step_post rfl rfl) (along_cons ?_ rfl trivial))))
  · intro posted _ key found
    cases found
  · intro posted there
    cases there
    exact ⟨⟨by decide,by decide⟩,host_short⟩
  · intro posted there key found
    cases there
    cases found
    exact ⟨rfl,host_short⟩

theorem same_index_good : ∃ last, exec (step namedWallet pageJson) initial
    [post '0',.block 0,.result 0 .success true,post '0',.block 0] = some last ∧
      Good namedWallet last ∧ last.provides.length = 2 :=
  ⟨_,rfl,(bitid_good_iff namedWallet pageJson rfl).mpr same_index_meets _ _ (List.prefix_refl _) rfl,
    rfl⟩

end SignBitID
