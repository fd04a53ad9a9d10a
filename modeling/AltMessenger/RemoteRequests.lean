import AltMessenger.PaymentRequests

/-!
Payment requests that are fetched: the answer is one of the payment protocol, or a list of URIs, of
which the first counts. The parser of the payment protocol is given; where it does not come back,
it is as if it had trapped.
-/
namespace RemoteRequests
open SwiftRuntime SwiftText SwiftURL UTF8Text PaymentRequests

/-- A payment request with what the payment protocol adds to it. -/
structure Fetched (Protocol : Type) where
  request : PaymentRequest
  paymentProtoclRequest : Option Protocol
  deriving DecidableEq

structure URLResponse where
  mimeType : Option (List Char)
  deriving DecidableEq, Repr

/-- What the data task gives. -/
structure Outcome where
  data : Option (List UInt8)
  response : Option URLResponse
  error : Bool
  deriving DecidableEq, Repr

def paymentRequestType : List Char := "application/bitcoin-paymentrequest".toList

def uriListType : List Char := "text/uri-list".toList

def URLResponse.isOf (response : URLResponse) (mimeType : List Char) : Prop :=
  response.mimeType.map lowercased = some mimeType

instance (response : URLResponse) (mimeType : List Char) : Decidable (response.isOf mimeType) :=
  inferInstanceAs (Decidable (response.mimeType.map lowercased = some mimeType))

/-- `line.hasPrefix("#")` -/
def isComment (line : List Char) : Bool := line.head? = some '#'

section Fetching
variable {Protocol : Type} (W : Wallet) (parse : List UInt8 → Except Trap (Option Protocol))

/-- `PaymentRequest.init?(data:)`, which never fails -/
def ofData (data : List UInt8) : Except Trap (Fetched Protocol) := do
  let paymentProtoclRequest ← parse data
  pure { request := {}, paymentProtoclRequest }

/-- `PaymentRequest(string:)`, as a request that may be fetched -/
def ofLine (line : List Char) : Except Trap (Option (Fetched Protocol)) := do
  let request ← PaymentRequest.ofString W line
  pure (request.map fun request => { request, paymentProtoclRequest := none })

/-- The loop over the lines: what the completion is called with before the loop is left. -/
def readLines : List (List Char) → Except Trap (List (Option (Fetched Protocol)))
  | [] => pure []
  | line :: lines =>
    if isComment line then readLines lines
    else do
      let request ← ofLine W line
      pure [request]

/-- The handler of the data task: what the completion is called with, one call after the other. -/
def handled (outcome : Outcome) : Except Trap (List (Option (Fetched Protocol))) :=
  if outcome.error then pure [none]
  else
    match outcome.data, outcome.response with
    | some data, some response =>
      if response.isOf paymentRequestType then do
        let request ← ofData parse data
        pure [some request]
      else if response.isOf uriListType then do
        let text ← unwrap (ofUTF8 data)
        let called ← readLines W (components text '\n')
        pure (called ++ [none])
      else pure [none]
    | _, _ => pure [none]

/-- The URL that is asked for the request. -/
def requested (request : PaymentRequest) : Except Trap URL :=
  match request.r with
  | some url => pure url
  | none => unwrap request.remoteRequest

/-- `PaymentRequest.fetchRemoteRequest` -/
def fetchRemoteRequest (request : PaymentRequest) (outcome : Outcome) :
    Except Trap (List (Option (Fetched Protocol))) := do
  let _ ← requested request
  handled W parse outcome

/-- The request that an answer holds: the one of its data, or of the first line that is no comment. -/
inductive Holds : Outcome → Option (Fetched Protocol) → Prop where
  | failed {outcome : Outcome}
      (nothing : outcome.error = true ∨ outcome.data = none ∨ outcome.response = none) :
      Holds outcome none
  | parsed {data : List UInt8} {response : URLResponse} {protocolRequest : Protocol}
      (type : response.isOf paymentRequestType) (read : parse data = .ok (some protocolRequest)) :
      Holds ⟨some data,some response,false⟩ (some ⟨{},some protocolRequest⟩)
  | unparsed {data : List UInt8} {response : URLResponse} (type : response.isOf paymentRequestType)
      (read : parse data = .ok none) : Holds ⟨some data,some response,false⟩ none
  | line {data : List UInt8} {response : URLResponse} {text line : List Char}
      {request : Option (Fetched Protocol)} (type : response.isOf uriListType)
      (decoded : ofUTF8 data = some text)
      (first : (components text '\n').find? (fun line => !isComment line) = some line)
      (read : ofLine W line = .ok request) : Holds ⟨some data,some response,false⟩ request
  | comments {data : List UInt8} {response : URLResponse} {text : List Char}
      (type : response.isOf uriListType) (decoded : ofUTF8 data = some text)
      (all : ∀ line ∈ components text '\n', isComment line = true) :
      Holds ⟨some data,some response,false⟩ none
  | undecoded {data : List UInt8} {response : URLResponse} (type : response.isOf uriListType)
      (failed : ofUTF8 data = none) : Holds ⟨some data,some response,false⟩ none
  | other {data : List UInt8} {response : URLResponse} (no_request : ¬ response.isOf paymentRequestType)
      (no_list : ¬ response.isOf uriListType) : Holds ⟨some data,some response,false⟩ none

/-- The completion is called once, with the request that the answer holds. -/
def AnsweredOnce (request : PaymentRequest) (outcome : Outcome) : Prop :=
  ∃ answer, fetchRemoteRequest W parse request outcome = .ok [answer] ∧ Holds W parse outcome answer

/-- There is a URL to ask. An answer of the payment protocol is one, and a list of URIs is a text of
    comments. -/
structure Answerable (request : PaymentRequest) (outcome : Outcome) : Prop where
  somewhere : request.r ≠ none ∨ request.remoteRequest ≠ none
  parsed : ∀ data response, outcome = ⟨some data,some response,false⟩ →
    response.isOf paymentRequestType → ∃ protocolRequest, parse data = .ok (some protocolRequest)
  comments : ∀ data response, outcome = ⟨some data,some response,false⟩ →
    response.isOf uriListType → ∃ text, ofUTF8 data = some text ∧
      ∀ line ∈ components text '\n', isComment line = true

end Fetching

section Answers
variable {Protocol : Type} {W : Wallet} {parse : List UInt8 → Except Trap (Option Protocol)}
variable {data : List UInt8} {response : URLResponse} {outcome : Outcome}

theorem types_apart (type : response.isOf uriListType) : ¬ response.isOf paymentRequestType := by
  intro other
  cases type.symm.trans other

theorem requested_ran {request : PaymentRequest} :
    (∃ url, requested request = .ok url) ↔ request.r ≠ none ∨ request.remoteRequest ≠ none := by
  unfold requested
  cases request.r with
  | some url => exact iff_of_true ⟨url,rfl⟩ (Or.inl (Option.some_ne_none url))
  | none =>
    cases request.remoteRequest with
    | some url => exact iff_of_true ⟨url,rfl⟩ (Or.inr (Option.some_ne_none url))
    | none => exact iff_of_false (fun ⟨url,run⟩ => nomatch run) (by simp)

/-- The lines are comments, or there is a first one that is not, for which the completion is called. -/
theorem readLines_comments {lines : List (List Char)} :
    readLines W lines = (.ok [] : Except Trap (List (Option (Fetched Protocol)))) ↔
      ∀ line ∈ lines, isComment line = true := by
  induction lines with
  | nil => exact iff_of_true rfl fun line mem => absurd mem List.not_mem_nil
  | cons line lines ih =>
    rw [readLines, List.forall_mem_cons]
    by_cases comment : isComment line = true
    · rw [if_pos comment, ih, and_iff_right comment]
    · rw [if_neg comment]
      refine iff_of_false (fun run => ?_) fun all => comment all.1
      obtain ⟨request,_,run⟩ := bind_ran.mp run
      cases run

theorem handled_failed
    (nothing : outcome.error = true ∨ outcome.data = none ∨ outcome.response = none) :
    handled W parse outcome = .ok [none] := by
  obtain ⟨data,response,error⟩ := outcome
  unfold handled
  cases error with
  | true => rfl
  | false =>
    rcases nothing with error | missing | missing
    · cases error
    · cases missing
      rfl
    · cases missing
      cases data <;> rfl

theorem handled_protocol (type : response.isOf paymentRequestType) :
    handled W parse ⟨some data,some response,false⟩ = (do
      let request ← ofData parse data
      pure [some request]) := by
  unfold handled
  rw [if_neg Bool.false_ne_true]
  exact if_pos type

theorem handled_list (type : response.isOf uriListType) :
    handled W parse ⟨some data,some response,false⟩ = (do
      let text ← unwrap (ofUTF8 data)
      let called ← readLines W (components text '\n')
      pure (called ++ [none])) := by
  unfold handled
  rw [if_neg Bool.false_ne_true]
  dsimp only
  rw [if_neg (types_apart type), if_pos type]

theorem handled_other (no_request : ¬ response.isOf paymentRequestType)
    (no_list : ¬ response.isOf uriListType) :
    handled W parse ⟨some data,some response,false⟩ = .ok [none] := by
  unfold handled
  rw [if_neg Bool.false_ne_true]
  dsimp only
  rw [if_neg no_request, if_neg no_list]
  rfl

/-- After a list the completion is always called with nothing: that is the only call exactly if the
    lines are comments. -/
theorem list_once (type : response.isOf uriListType) {answer : Option (Fetched Protocol)} :
    handled W parse ⟨some data,some response,false⟩ = .ok [answer] ↔
      answer = none ∧ ∃ text, ofUTF8 data = some text ∧
        ∀ line ∈ components text '\n', isComment line = true := by
  rw [handled_list type]
  constructor
  · intro run
    obtain ⟨text,decoded,run⟩ := bind_ran.mp run
    obtain ⟨called,loop,run⟩ := bind_ran.mp run
    have calls : called ++ [none] = [answer] := Except.ok.inj run
    have once : called = [] := by
      have length := congrArg List.length calls
      rw [List.length_append] at length
      exact List.length_eq_zero_iff.mp (by simpa using length)
    subst once
    exact ⟨(List.cons.inj calls).1.symm,text,unwrap_ok.mp decoded,readLines_comments.mp loop⟩
  · rintro ⟨rfl,text,decoded,all⟩
    rw [bind_ready (unwrap_ok.mpr decoded), bind_ready (readLines_comments.mpr all)]
    rfl

/-- A request that is to be fetched is answered once, with what the answer holds, if and only if the
    answer is neither a list with a URI in it, nor one of text that is no text, nor protocol data that
    are none. -/
theorem answered_once_iff (W : Wallet) (parse : List UInt8 → Except Trap (Option Protocol))
    (request : PaymentRequest) (outcome : Outcome) :
    AnsweredOnce W parse request outcome ↔ Answerable parse request outcome := by
  have asked : (∃ answer, fetchRemoteRequest W parse request outcome = .ok [answer] ∧
      Holds W parse outcome answer) ↔ (request.r ≠ none ∨ request.remoteRequest ≠ none) ∧
        ∃ answer, handled W parse outcome = .ok [answer] ∧ Holds W parse outcome answer := by
    rw [← requested_ran]
    constructor
    · rintro ⟨answer,run,holds⟩
      obtain ⟨url,first,run⟩ := bind_ran.mp run
      exact ⟨⟨url,first⟩,answer,run,holds⟩
    · rintro ⟨⟨url,first⟩,answer,run,holds⟩
      exact ⟨answer,(bind_ready first).trans run,holds⟩
  rw [AnsweredOnce, asked]
  constructor
  · rintro ⟨somewhere,answer,run,holds⟩
    refine ⟨somewhere,?_,?_⟩
    · rintro data response rfl type
      rw [handled_protocol type] at run
      obtain ⟨fetched,read,run⟩ := bind_ran.mp run
      cases run
      cases holds with
      | parsed _ known => exact ⟨_,known⟩
      | line list => exact absurd type (types_apart list)
    · rintro data response rfl type
      exact ((list_once type).mp run).2
  · rintro ⟨somewhere,parsed,comments⟩
    refine ⟨somewhere,?_⟩
    by_cases nothing : outcome.error = true ∨ outcome.data = none ∨ outcome.response = none
    case pos => exact ⟨none,handled_failed nothing,Holds.failed nothing⟩
    case neg =>
      obtain ⟨data,response,rfl⟩ : ∃ data response, outcome = ⟨some data,some response,false⟩ := by
        obtain ⟨data,response,error⟩ := outcome
        simp only [not_or, Bool.not_eq_true] at nothing
        obtain ⟨no_error,some_data,some_response⟩ := nothing
        obtain ⟨data,rfl⟩ := Option.ne_none_iff_exists'.mp some_data
        obtain ⟨response,rfl⟩ := Option.ne_none_iff_exists'.mp some_response
        exact ⟨data,response,by rw [no_error]⟩
      by_cases protocol_type : response.isOf paymentRequestType
      case pos =>
        obtain ⟨protocolRequest,read⟩ := parsed data response rfl protocol_type
        refine ⟨_,?_,Holds.parsed protocol_type read⟩
        rw [handled_protocol protocol_type, ofData, bind_ready read]
        rfl
      case neg =>
        by_cases list_type : response.isOf uriListType
        case pos =>
          obtain ⟨text,decoded,all⟩ := comments data response rfl list_type
          exact ⟨none,(list_once list_type).mpr ⟨rfl,text,decoded,all⟩,
            Holds.comments list_type decoded all⟩
        case neg =>
          exact ⟨none,handled_other protocol_type list_type,Holds.other protocol_type list_type⟩

end Answers

section Remote
variable {W : Wallet} {url : URL} {request : PaymentRequest}

theorem payment_somewhere (read : readPayment W url = .ok (some request))
    (remote : request.type = .remote) : request.r ≠ none := by
  unfold readPayment at read
  split at read
  case h_2 => cases read
  case h_1 host _ =>
    split at read
    case isFalse => cases read
    case isTrue =>
      split at read
      case h_1 =>
        cases read
        cases remote
      case h_2 query _ =>
        obtain ⟨last,_,read⟩ := bind_ran.mp read
        cases read
        intro none_there
        dsimp only at none_there remote
        rw [if_pos none_there] at remote
        cases remote

theorem url_somewhere (read : ofURL W url = .ok (some request)) (remote : request.type = .remote) :
    request.r ≠ none ∨ request.remoteRequest ≠ none := by
  unfold ofURL at read
  split at read
  case h_1 =>
    obtain ⟨again,_,read⟩ := bind_ran.mp read
    exact Or.inl (payment_somewhere read remote)
  case h_2 =>
    split at read
    case isTrue =>
      cases read
      exact Or.inr (Option.some_ne_none url)
    case isFalse => cases read

/-- A request of the remote kind names the URL to ask. -/
theorem remote_somewhere {string : List Char}
    (made : PaymentRequest.ofString W string = .ok (some request)) (remote : request.type = .remote) :
    request.r ≠ none ∨ request.remoteRequest ≠ none := by
  rw [ofString_eq] at made
  obtain ⟨read,parsed,made⟩ := bind_ran.mp made
  cases read with
  | some read =>
    cases made
    split at parsed
    case h_1 => exact url_somewhere parsed remote
    case h_2 => cases parsed
  | none =>
    dsimp only at made
    split at made
    case isTrue =>
      cases made
      cases remote
    case isFalse => cases made

end Remote

/-- A list of one URI, asked for at another. -/
def oneURI : Outcome where
  data := some (utf8 "http://a/p".toList)
  response := some { mimeType := some uriListType }
  error := false

def asked : PaymentRequest where
  type := .remote
  remoteRequest := URL.ofString "http://a/".toList

def noAddresses : Wallet := { isValidAddress := fun _ => false, satoshis := fun _ => none }

def noProtocol : List UInt8 → Except Trap (Option Unit) := fun _ => .ok none

/-- The completion is called with the request of the line, and again with nothing. -/
theorem one_uri_answered_twice :
    fetchRemoteRequest noAddresses noProtocol asked oneURI =
        .ok [some ⟨{ type := .remote, remoteRequest := URL.ofString "http://a/p".toList },none⟩,none] ∧
      ¬ AnsweredOnce noAddresses noProtocol asked oneURI := by
  have twice : fetchRemoteRequest noAddresses noProtocol asked oneURI =
      .ok [some ⟨{ type := .remote, remoteRequest := URL.ofString "http://a/p".toList },none⟩,none] := by
    rfl
  refine ⟨twice,?_⟩
  rintro ⟨answer,run,_⟩
  cases twice.symm.trans run

end RemoteRequests
