import AltMessenger.SwiftRuntime

/-!
Sending a message: the upload of a picture, the message itself, and for a new
conversation the pointers of both users. Every answer of the storage and the
database is given; an answer that never reaches the caller leaves the list of
its completions empty.
-/
namespace MessageModel
open SwiftRuntime

abbrev UID := List Char

inductive MessageType where
  | photo | text | location
  deriving DecidableEq, Repr

/-- The dictionary written for a message. -/
structure Values where
  type : MessageType
  content : List Char
  fromID : UID
  toID : UID
  timestamp : Int
  isRead : Bool
  deriving DecidableEq

/-- A message with content of its type: a picture has a JPEG representation or has none. -/
inductive Content where
  | text : List Char → Content
  | location : List Char → Content
  | photo : Option (List UInt8) → Content
  deriving DecidableEq

structure Message where
  content : Content
  timestamp : Int
  deriving DecidableEq

variable {Key : Type}

/-- `users/from/conversations/to/location`, and `conversations/location/key`. -/
structure Database (Key : Type) where
  location : UID → UID → Option Key
  conversations : List (Key × Key × Values)

def Database.setValue (db : Database Key) (location key : Key) (values : Values) : Database Key :=
  { db with conversations := db.conversations ++ [(location,key,values)] }

/-- `updateChildValues(["location": location])` -/
def Database.updateLocation (db : Database Key) (fromID toID : UID) (location : Key) :
    Database Key :=
  { db with location := fun a b =>
      if a = fromID ∧ b = toID then some location else db.location a b }

/-- How the upload of a picture ends. -/
inductive Upload where
  | error
  | stored : (downloadURL : Option (List Char)) → Upload
  deriving DecidableEq

/-- The answers of one call, and the keys `childByAutoId` makes in it. -/
structure Network (Key : Type) where
  upload : Upload
  setValue : Bool
  ownLocation : Bool
  otherLocation : Bool
  autoLocation : Key
  autoKey : Key

/-- A write that fails leaves the database as it is. -/
def attempt (success : Bool) (write : Database Key → Database Key) (db : Database Key) :
    Database Key :=
  if success then write db else db

/-- The database after the call, and what its completion was called with. -/
def uploadMessage (currentUserID : UID) (values : Values) (toID : UID) (network : Network Key)
    (db : Database Key) : Database Key × List Bool :=
  match db.location currentUserID toID with
  | some location =>
    (attempt network.setValue (·.setValue location network.autoKey values) db,[network.setValue])
  | none =>
    let location := network.autoLocation
    let db := attempt network.setValue (·.setValue location network.autoKey values) db
    -- the answers of the writes that follow are not looked at
    let db := attempt network.ownLocation (·.updateLocation currentUserID toID location) db
    let db := attempt network.otherLocation (·.updateLocation toID currentUserID location) db
    (db,[true])

/-- The dictionary of a message that is sent. -/
def valuesOf (currentUserID : UID) (message : Message) (toID : UID) (type : MessageType)
    (content : List Char) : Values where
  type := type
  content := content
  fromID := currentUserID
  toID := toID
  timestamp := message.timestamp
  isRead := false

def send (currentUserID : UID) (message : Message) (toID : UID) (network : Network Key)
    (db : Database Key) : Except Trap (Database Key × List Bool) :=
  let values := valuesOf currentUserID message toID
  match message.content with
  | .location content =>
    .ok (uploadMessage currentUserID (values .location content) toID network db)
  | .photo imageData => do
    let _ ← unwrap imageData
    match network.upload with
    | .error => pure (db,[])
    | .stored downloadURL => do
      let path ← unwrap downloadURL
      pure (uploadMessage currentUserID (values .photo path) toID network db)
  | .text content => .ok (uploadMessage currentUserID (values .text content) toID network db)

/-- The keys made in this call are new. -/
structure Fresh (network : Network Key) (db : Database Key) : Prop where
  key : ∀ entry ∈ db.conversations, entry.2.1 ≠ network.autoKey
  location : ∀ fromID toID, db.location fromID toID ≠ some network.autoLocation

/-- What a message is to say once it is stored: a picture says its link. -/
def contentOf (message : Message) (network : Network Key) : Option (MessageType × List Char) :=
  match message.content with
  | .location content => some (.location,content)
  | .text content => some (.text,content)
  | .photo _ =>
    match network.upload with
    | .stored (some path) => some (.photo,path)
    | _ => none

/-- The message of this call is stored at this location. -/
def StoredAt (currentUserID toID : UID) (message : Message) (network : Network Key)
    (location : Key) (db : Database Key) : Prop :=
  ∃ type content, contentOf message network = some (type,content) ∧
    (location,network.autoKey,valuesOf currentUserID message toID type content) ∈
      db.conversations

/-- The message is stored in the conversation, and both users are pointed to
    the conversation if it is new. -/
def Delivered (currentUserID toID : UID) (message : Message) (network : Network Key)
    (before after : Database Key) : Prop :=
  match before.location currentUserID toID with
  | some location => StoredAt currentUserID toID message network location after
  | none => StoredAt currentUserID toID message network network.autoLocation after ∧
      after.location currentUserID toID = some network.autoLocation ∧
        after.location toID currentUserID = some network.autoLocation

/-- The completion is called once, and with `true` exactly for a message delivered. -/
def ReportsTruth (currentUserID : UID) (message : Message) (toID : UID) (network : Network Key)
    (db : Database Key) : Prop :=
  ∃ after status, send currentUserID message toID network db = .ok (after,[status]) ∧
    (status = true ↔ Delivered currentUserID toID message network db after)

/-- A picture has data, is uploaded and has a link; and where the conversation
    is new, none of the three writes fails. A user who writes to himself has one
    pointer that is written twice. -/
structure Succeeds (currentUserID : UID) (message : Message) (toID : UID) (network : Network Key)
    (db : Database Key) : Prop where
  picture : ∀ imageData, message.content = .photo imageData →
    imageData ≠ none ∧ ∃ path, network.upload = .stored (some path)
  writes : db.location currentUserID toID = none → network.setValue = true ∧
    (network.ownLocation = true ∧ network.otherLocation = true ∨
      currentUserID = toID ∧ (network.ownLocation = true ∨ network.otherLocation = true))

section Upload

variable {currentUserID toID : UID} {network : Network Key} {db : Database Key} {values : Values}

@[simp] theorem attempt_conversations {success : Bool} {fromID other : UID} {location : Key} :
    (attempt success (·.updateLocation fromID other location) db).conversations =
      db.conversations := by
  cases success <;> rfl

/-- Where the entry of this call can be after the attempt to write it. -/
theorem mem_attempt_setValue (fresh : ∀ entry ∈ db.conversations, entry.2.1 ≠ network.autoKey)
    {success : Bool} {location place : Key} {entry : Values} :
    (place,network.autoKey,entry) ∈
        (attempt success (·.setValue location network.autoKey values) db).conversations ↔
      success = true ∧ place = location ∧ entry = values := by
  have new : (place,network.autoKey,entry) ∉ db.conversations := fun mem => fresh _ mem rfl
  cases success with
  | false => simpa [attempt] using new
  | true => simp [attempt, Database.setValue, new]

theorem attempt_location {success : Bool} {fromID other a b : UID} {location : Key} :
    (attempt success (·.updateLocation fromID other location) db).location a b =
      if success = true ∧ a = fromID ∧ b = other then some location else db.location a b := by
  cases success <;> simp [attempt, Database.updateLocation]

@[simp] theorem attempt_setValue_location {success : Bool} {location key : Key} :
    (attempt success (·.setValue location key values) db).location = db.location := by
  cases success <;> rfl

/-- In a new conversation both pointers are there exactly when they were written. -/
theorem pointers_written
    (fresh : ∀ fromID toID, db.location fromID toID ≠ some network.autoLocation)
    {own other : Bool} {after : Database Key}
    (written : after = attempt other (·.updateLocation toID currentUserID network.autoLocation)
      (attempt own (·.updateLocation currentUserID toID network.autoLocation) db)) :
    (after.location currentUserID toID = some network.autoLocation ∧
        after.location toID currentUserID = some network.autoLocation) ↔
      (own = true ∧ other = true ∨ currentUserID = toID ∧ (own = true ∨ other = true)) := by
  subst written
  simp only [attempt_location]
  by_cases self : currentUserID = toID
  · subst self
    cases own <;> cases other <;> simp [fresh]
  · have back : ¬ toID = currentUserID := fun same => self same.symm
    cases own <;> cases other <;> simp [fresh, self, back]

end Upload

section Send

variable {currentUserID toID : UID} {message : Message} {network : Network Key} {db : Database Key}

theorem storedAt_iff {type : MessageType} {content : List Char}
    (carried : contentOf message network = some (type,content)) {location : Key}
    {after : Database Key} :
    StoredAt currentUserID toID message network location after ↔
      (location,network.autoKey,valuesOf currentUserID message toID type content) ∈
        after.conversations := by
  constructor
  · rintro ⟨type',content',same,mem⟩
    rw [carried] at same
    cases same
    exact mem
  · intro mem
    exact ⟨type,content,carried,mem⟩

/-- Once there is something to write, one answer is given, and it is true to
    what was written exactly if no write of a new conversation failed. -/
theorem uploadMessage_reports (fresh : Fresh network db) {type : MessageType} {content : List Char}
    (carried : contentOf message network = some (type,content)) :
    ∃ after status, uploadMessage currentUserID (valuesOf currentUserID message toID type content)
        toID network db = (after,[status]) ∧
      ((status = true ↔ Delivered currentUserID toID message network db after) ↔
        (db.location currentUserID toID = none → network.setValue = true ∧
          (network.ownLocation = true ∧ network.otherLocation = true ∨
            currentUserID = toID ∧
              (network.ownLocation = true ∨ network.otherLocation = true)))) := by
  unfold uploadMessage Delivered
  cases look : db.location currentUserID toID with
  | some location =>
    refine ⟨_,_,rfl,?_⟩
    dsimp only
    rw [storedAt_iff carried, mem_attempt_setValue fresh.key]
    simp
  | none =>
    refine ⟨_,_,rfl,?_⟩
    have pointers := @pointers_written Key currentUserID toID network
      (attempt network.setValue (·.setValue network.autoLocation network.autoKey
        (valuesOf currentUserID message toID type content)) db)
      (by simpa using fresh.location) network.ownLocation network.otherLocation _ rfl
    dsimp only
    rw [storedAt_iff carried, attempt_conversations, attempt_conversations,
      mem_attempt_setValue fresh.key, pointers]
    simp

theorem send_carried {type : MessageType} {content : List Char}
    (carried : contentOf message network = some (type,content))
    (picture : ∀ imageData, message.content = .photo imageData → imageData ≠ none) :
    send currentUserID message toID network db =
      .ok (uploadMessage currentUserID (valuesOf currentUserID message toID type content) toID
        network db) := by
  unfold send contentOf at *
  cases kind : message.content with
  | text content' =>
    rw [kind] at carried
    cases carried
    rfl
  | location content' =>
    rw [kind] at carried
    cases carried
    rfl
  | photo imageData =>
    rw [kind] at carried
    obtain ⟨data,there⟩ := Option.ne_none_iff_exists'.mp (picture imageData kind)
    cases upload : network.upload with
    | error =>
      rw [upload] at carried
      cases carried
    | stored downloadURL =>
      rw [upload] at carried
      cases downloadURL with
      | none => cases carried
      | some path =>
        cases carried
        rw [there]
        rfl

/-- A picture without data, without an upload or without a link is never answered. -/
theorem send_uncarried (missing : contentOf message network = none ∨
      message.content = .photo none) (after : Database Key) (status : Bool) :
    send currentUserID message toID network db ≠ .ok (after,[status]) := by
  unfold send contentOf at *
  cases kind : message.content with
  | text content => simp [kind] at missing
  | location content => simp [kind] at missing
  | photo imageData =>
    rw [kind] at missing
    cases imageData with
    | none => exact fun run => nomatch run
    | some data =>
      cases upload : network.upload with
      | error => exact fun run => nomatch run
      | stored downloadURL =>
        cases downloadURL with
        | none => exact fun run => nomatch run
        | some path => simp [upload] at missing

/-- The answer is given once and is true exactly where every step succeeds that
    the code does not look after: the picture, and all writes of a new conversation. -/
theorem reports_truth_iff (currentUserID : UID) (message : Message) (toID : UID)
    (network : Network Key) (db : Database Key) (fresh : Fresh network db) :
    ReportsTruth currentUserID message toID network db ↔
      Succeeds currentUserID message toID network db := by
  by_cases missing : contentOf message network = none ∨ message.content = .photo none
  · constructor
    · rintro ⟨after,status,run,_⟩
      exact absurd run (send_uncarried missing after status)
    · intro succeeds
      rcases missing with missing | missing
      · unfold contentOf at missing
        split at missing
        case h_1 => cases missing
        case h_2 => cases missing
        case h_3 imageData kind =>
          obtain ⟨_,path,uploaded⟩ := succeeds.picture imageData kind
          rw [uploaded] at missing
          cases missing
      · exact absurd rfl (succeeds.picture none missing).1
  · rw [not_or] at missing
    obtain ⟨⟨type,content⟩,carried⟩ := Option.ne_none_iff_exists'.mp missing.1
    have data : ∀ imageData, message.content = .photo imageData → imageData ≠ none := by
      rintro imageData kind rfl
      exact missing.2 kind
    have picture : ∀ imageData, message.content = .photo imageData →
        imageData ≠ none ∧ ∃ path, network.upload = .stored (some path) := by
      intro imageData kind
      refine ⟨data imageData kind,?_⟩
      unfold contentOf at carried
      rw [kind] at carried
      dsimp only at carried
      split at carried
      case h_1 path uploaded => exact ⟨path,uploaded⟩
      case h_2 => cases carried
    obtain ⟨after,status,run,truth⟩ := @uploadMessage_reports Key currentUserID toID message network
      db fresh type content carried
    have sent := @send_carried Key currentUserID toID message network db type content carried data
    rw [run] at sent
    constructor
    · rintro ⟨after',status',run',true_to⟩
      rw [sent] at run'
      cases run'
      exact ⟨picture,truth.mp true_to⟩
    · intro succeeds
      exact ⟨after,status,sent,truth.mpr succeeds.writes⟩

end Send

/-- Two users without a conversation, a text and a picture. -/
def emptyDatabase : Database Nat where
  location := fun _ _ => none
  conversations := []

def hello : Message where
  content := .text ['h','e','l','l','o']
  timestamp := 1516200000

def picture : Message where
  content := .photo (some [0xff, 0xd8])
  timestamp := 1516200000

def answers (upload : Upload) (setValue : Bool) : Network Nat where
  upload := upload
  setValue := setValue
  ownLocation := true
  otherLocation := true
  autoLocation := 0
  autoKey := 1

theorem emptyDatabase_fresh (network : Network Nat) : Fresh network emptyDatabase where
  key := fun _ mem => nomatch mem
  location := fun _ _ there => nomatch there

theorem hello_reported :
    ReportsTruth ['a','n','n'] hello ['b','o','b'] (answers .error true) emptyDatabase :=
  (reports_truth_iff _ _ _ _ _ (emptyDatabase_fresh _)).mpr
    ⟨fun _ kind => (nomatch kind),fun _ => ⟨rfl,Or.inl ⟨rfl,rfl⟩⟩⟩

/-- A text that is not written is reported as sent, and a picture that is not
    uploaded is not reported at all. -/
theorem lost_messages_misreported :
    ((send ['a','n','n'] hello ['b','o','b'] (answers .error false) emptyDatabase).map fun run =>
        (run.1.conversations,run.2)) = .ok ([],[true]) ∧
      ¬ ReportsTruth ['a','n','n'] hello ['b','o','b'] (answers .error false) emptyDatabase ∧
      ((send ['a','n','n'] picture ['b','o','b'] (answers .error true) emptyDatabase).map (·.2)) =
        .ok [] ∧
      ¬ ReportsTruth ['a','n','n'] picture ['b','o','b'] (answers .error true) emptyDatabase := by
  refine ⟨rfl,?_,rfl,?_⟩
  · rintro ⟨after,status,run,truth⟩
    cases run
    obtain ⟨⟨_,_,_,stored⟩,_⟩ := truth.mp rfl
    cases stored
  · rintro ⟨after,status,run,_⟩
    cases run

end MessageModel
