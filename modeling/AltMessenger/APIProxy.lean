import AltMessenger.HTTPRequest
import AltMessenger.SwiftURL

/-!
The proxy to the API: a request of a page is made one of the API client, signed where the page
asks for it, and its redirects are followed. What is after the mount point of the page's path goes
to the URL as it is.
-/
namespace APIProxy
open SwiftRuntime SwiftText SwiftURL HTTPRequest

abbrev Data := List UInt8

abbrev Headers := List (List Char × List Char)

structure URLRequest where
  url : URL
  httpMethod : List Char
  httpBody : Option Data
  headers : Headers
  deriving DecidableEq, Repr

/-- `setValue(_:forHTTPHeaderField:)` -/
def URLRequest.setValue (request : URLRequest) (value field : List Char) : URLRequest :=
  { request with
    headers := request.headers.filter (fun header => lowercased header.1 ≠ lowercased field) ++
      [(field,value)] }

/-- `get(lowercasedKey:)` -/
def Headers.get (headers : Headers) (key : List Char) : Option (List Char) :=
  match headers.lookup (lowercased key) with
  | some value => some value
  | none => (headers.find? fun header => lowercased header.1 = lowercased key).map Prod.snd

structure Client where
  proto : List Char
  host : List Char
  plain_proto : ∀ c ∈ proto, isNameChar c = true
  plain_host : ∀ c ∈ host, isNameChar c = true
  some_host : host ≠ []
  /-- the token of the wallet's account -/
  token : Option (List Char)
  /-- the base 58 signature of a text under the wallet's key, if there is one -/
  sign : Option (List Char → List Char)
  sha256Base58 : Data → List Char
  /-- `URL.path`, which takes the percent escapes out of a path -/
  decodedPath : List Char → List Char
  date : List Char
  testnet : List Char
  testflight : List Char
  locale : List Char

section Client
variable (client : Client)

/-- `url(_:)` with no arguments -/
def url (path : List Char) : Except Stop URL :=
  trapping (unwrap (URL.ofString (client.proto ++ "://".toList ++ client.host ++ path)))

def resourceString (url : URL) : List Char :=
  match url.query with
  | some query =>
    if query = [] then client.decodedPath url.path
    else client.decodedPath url.path ++ '?' :: query
  | none => client.decodedPath url.path

def signingString (request : URLRequest) : List Char :=
  let body :=
    if ["POST".toList,"PUT".toList,"PATCH".toList].contains request.httpMethod then
      match request.httpBody with
      | some d => if d.length > 0 then client.sha256Base58 d else []
      | none => []
    else []
  joined [request.httpMethod,body,(request.headers.get "content-type".toList).getD [],
    (request.headers.get "date".toList).getD [],resourceString client request.url] '\n'

/-- The request with a date. -/
def dated (request : URLRequest) : URLRequest :=
  match request.headers.get "date".toList with
  | some _ => request
  | none => request.setValue client.date "Date".toList

def signRequest (request : URLRequest) : URLRequest :=
  let mutableRequest := dated client request
  match client.token, client.sign with
  | some token, some sign =>
    mutableRequest.setValue
      ("bread ".toList ++ token ++ ':' :: sign (signingString client mutableRequest))
      "Authorization".toList
  | _, _ => mutableRequest

def decorateRequest (request : URLRequest) : URLRequest :=
  ((request.setValue client.testnet "X-Bitcoin-Testnet".toList).setValue
    client.testflight "X-Testflight".toList).setValue client.locale "Accept-Language".toList

/-- The request goes to the client's host over its scheme; a port of the two schemes is none. -/
def atHome (url : URL) : Bool :=
  match url.host, url.scheme with
  | some curHost, some curScheme =>
    let curHost :=
      match url.port with
      | some curPort =>
        if curPort != 443 && curPort != 80 then curHost ++ ':' :: (toString curPort).toList
        else curHost
      | none => curHost
    curHost == client.host && curScheme == client.proto
  | _, _ => false

/-- `hasPrefix("bread")` of the authorization -/
def carriesSignature (request : URLRequest) : Bool :=
  match request.headers.lookup "Authorization".toList with
  | some curAuth => "bread".toList.isPrefixOf curAuth
  | none => false

/-- A redirect answer, and whether the session keeps the authorization in the new request. -/
structure Redirect where
  url : URL
  httpMethod : List Char
  httpBody : Option Data
  keepsAuthorization : Bool

def Redirect.newRequest (redirect : Redirect) (current : URLRequest) : URLRequest :=
  ⟨redirect.url,redirect.httpMethod,redirect.httpBody,
    if redirect.keepsAuthorization then current.headers
    else current.headers.filter fun header => lowercased header.1 ≠ "authorization".toList⟩

/-- `urlSession(_:task:willPerformHTTPRedirection:newRequest:completionHandler:)` -/
def redirected (currentReq request : URLRequest) : Option URLRequest :=
  if atHome client currentReq.url then
    let actualRequest := decorateRequest client request
    if carriesSignature currentReq then some (signRequest client actualRequest)
    else some actualRequest
  else none

/-- A request whose URL names no host is not sent. -/
def isSent (url : URL) : Bool :=
  match url.host with
  | some (_ :: _) => true
  | _ => false

/-- The requests that go out for one, as its answers redirect it. -/
def outgoing (request : URLRequest) : List Redirect → List URLRequest
  | [] => if isSent request.url then [request] else []
  | redirect :: rest =>
    if isSent request.url then
      request :: match redirected client request (redirect.newRequest request) with
        | some next => outgoing next rest
        | none => []
    else []

/-- The first request of `dataTaskWithRequest`. -/
def actualRequest (request : URLRequest) (authenticated : Bool) : URLRequest :=
  if authenticated then signRequest client (decorateRequest client request)
  else decorateRequest client request

def shouldAuthHeader : List Char := "x-should-authenticate".toList

def bannedSendHeaders : List (List Char) :=
  [shouldAuthHeader,"connection".toList,"authorization".toList,"host".toList,"user-agent".toList]

def authenticates (request : Request) : Bool :=
  match request.headers.lookup shouldAuthHeader with
  | some (value :: _) => lowercased value = "yes".toList || lowercased value = "true".toList
  | _ => false

def copyHeaders (headers : Fields) (request : URLRequest) : URLRequest :=
  headers.foldl
    (fun request header =>
      if bannedSendHeaders.contains header.1 then request
      else header.2.foldl (fun request hdr => request.setValue hdr header.1) request)
    request

/-- The path of the URL, of a request that the proxy is mounted for. -/
def proxiedPath (mountPoint : List Char) (request : Request) : List Char :=
  let path := request.path.drop mountPoint.length
  if request.queryString = [] then path else path ++ '?' :: request.queryString

/-- `handle`, up to what it gives to the client; `body` is what the request's body was. -/
def handle (mountPoint : List Char) (request : Request) (body : Option Data) :
    Except Stop (Option URLRequest) :=
  if mountPoint.isPrefixOf request.path then do
    let url ← url client (proxiedPath mountPoint request)
    let nsReq := ⟨url,request.method,if request.hasBody then body else none,[]⟩
    .ok (some (actualRequest client (copyHeaders request.headers nsReq) (authenticates request)))
  else .ok none

/-- All requests that go out for one of a page. -/
def proxied (mountPoint : List Char) (request : Request) (body : Option Data)
    (redirects : List Redirect) : Except Stop (List URLRequest) := do
  match ← handle client mountPoint request body with
  | some first => .ok (outgoing client first redirects)
  | none => .ok []

end Client

/-- The text that a path leaves in the authority, after the host. -/
def inAuthority (path : List Char) : List Char := path.takeWhile fun c => !endsAuthority c

/-- No port, or one that the comparison of hosts passes over. -/
def StandardPort (hostport : List Char) : Prop :=
  portOf hostport = none ∨ portOf hostport = some 443 ∨ portOf hostport = some 80

instance (hostport : List Char) : Decidable (StandardPort hostport) :=
  inferInstanceAs (Decidable (_ ∨ _ ∨ _))

/-- The path adds nothing to the host but a port that is passed over, or makes the host the user
    information of itself. -/
def StaysAtHost (client : Client) (path : List Char) : Prop :=
  match (inAuthority path).dropWhile fun c => c ≠ '@' with
  | [] => hostOf (inAuthority path) = [] ∧ StandardPort (inAuthority path)
  | _ :: hostport => hostOf hostport = client.host ∧ StandardPort hostport

instance (client : Client) (path : List Char) : Decidable (StaysAtHost client path) := by
  unfold StaysAtHost
  split <;> infer_instance

/-- The path makes the host user information, and names none after it. -/
def NamesNoHost (path : List Char) : Prop :=
  match (inAuthority path).dropWhile fun c => c ≠ '@' with
  | [] => False
  | _ :: hostport => hostOf hostport = []

instance (path : List Char) : Decidable (NamesNoHost path) := by
  unfold NamesNoHost
  split <;> infer_instance

/-- Redirects that lead to the client's host, up to one that leads to none. -/
def StayHome (client : Client) : List Redirect → Prop
  | [] => True
  | redirect :: rest =>
    isSent redirect.url = false ∨ atHome client redirect.url = true ∧ StayHome client rest

section Header
variable {request : URLRequest}

def authorization (request : URLRequest) : Option (List Char) :=
  request.headers.lookup "Authorization".toList

theorem lookup_filter {headers : Headers} {keep : List Char × List Char → Bool} {key : List Char}
    (kept : ∀ value, keep (key,value) = true) :
    (headers.filter keep).lookup key = headers.lookup key := by
  induction headers with
  | nil => rfl
  | cons header headers ih =>
    obtain ⟨name,value⟩ := header
    by_cases same : key = name
    · rw [← same, List.filter_cons_of_pos (kept value), List.lookup_cons, List.lookup_cons,
        beq_self_eq_true]
    · rw [List.lookup_cons, beq_false_of_ne same, List.filter_cons]
      split
      · rw [List.lookup_cons, beq_false_of_ne same]
        exact ih
      · exact ih

theorem lookup_none {headers : Headers} {key : List Char} (absent : ∀ h ∈ headers, h.1 ≠ key) :
    headers.lookup key = none := by
  rw [List.lookup_eq_none_iff]
  intro header there
  exact bne_iff_ne.mpr fun same => absent header there same.symm

theorem setValue_authorization (value : List Char) {field : List Char}
    (other : lowercased "Authorization".toList ≠ lowercased field) :
    authorization (request.setValue value field) = authorization request := by
  unfold authorization URLRequest.setValue
  dsimp only
  rw [List.lookup_append, lookup_filter fun _ => decide_eq_true other]
  have differs : "Authorization".toList ≠ field := fun same => other (same ▸ rfl)
  rw [List.lookup_cons, beq_false_of_ne differs]
  exact Option.or_none

theorem setValue_authorization_self (request : URLRequest) (value : List Char) :
    authorization (request.setValue value "Authorization".toList) = some value := by
  unfold authorization URLRequest.setValue
  dsimp only
  rw [List.lookup_append, lookup_none]
  · rfl
  · intro header there same
    have kept := (List.mem_filter.mp there).2
    rw [same] at kept
    exact of_decide_eq_true kept rfl

theorem decorate_authorization (client : Client) :
    authorization (decorateRequest client request) = authorization request := by
  unfold decorateRequest
  rw [setValue_authorization _ (by decide), setValue_authorization _ (by decide),
    setValue_authorization _ (by decide)]

theorem carriesSignature_of_eq {first second : URLRequest}
    (same : authorization first = authorization second) :
    carriesSignature first = carriesSignature second := by
  unfold carriesSignature
  unfold authorization at same
  rw [same]

theorem dated_authorization (client : Client) :
    authorization (dated client request) = authorization request := by
  unfold dated
  split
  · rfl
  · exact setValue_authorization _ (by decide)

def CanSign (client : Client) : Prop := client.token ≠ none ∧ client.sign ≠ none

theorem sign_carries {client : Client} (can : CanSign client) :
    carriesSignature (signRequest client request) = true := by
  obtain ⟨token,hasToken⟩ := Option.ne_none_iff_exists'.mp can.1
  obtain ⟨sign,hasKey⟩ := Option.ne_none_iff_exists'.mp can.2
  unfold signRequest
  rw [hasToken, hasKey]
  have signed := setValue_authorization_self (dated client request)
    ("bread ".toList ++ token ++ ':' :: sign (signingString client (dated client request)))
  unfold authorization at signed
  unfold carriesSignature
  dsimp only
  rw [signed]
  rfl

theorem sign_unable {client : Client} (unable : ¬ CanSign client) :
    carriesSignature (signRequest client request) = carriesSignature request := by
  unfold signRequest
  split
  case h_1 hasToken hasKey =>
    refine absurd ⟨?_,?_⟩ unable
    · rw [hasToken]
      exact nofun
    · rw [hasKey]
      exact nofun
  case h_2 => exact carriesSignature_of_eq (dated_authorization client)

theorem sign_url (client : Client) : (signRequest client request).url = request.url := by
  have same : (dated client request).url = request.url := by
    unfold dated
    split
    · rfl
    · rfl
  unfold signRequest
  split
  · exact same
  · exact same

end Header

section Redirects
variable {client : Client} {request : URLRequest}

/-- A redirect brings no authorization that was not there before. -/
theorem newRequest_unsigned {redirect : Redirect} (unsigned : carriesSignature request = false) :
    carriesSignature (redirect.newRequest request) = false := by
  unfold Redirect.newRequest carriesSignature
  cases redirect.keepsAuthorization with
  | true => exact unsigned
  | false =>
    rw [lookup_none]
    intro header there same
    have kept := (List.mem_filter.mp there).2
    rw [same] at kept
    exact absurd (of_decide_eq_true kept) (by decide)

theorem outgoing_unsigned {redirects : List Redirect}
    (unsigned : carriesSignature request = false) :
    ∀ r ∈ outgoing client request redirects, carriesSignature r = false := by
  induction redirects generalizing request with
  | nil =>
    intro r there
    unfold outgoing at there
    split at there
    · rw [List.mem_singleton.mp there]
      exact unsigned
    · cases there
  | cons redirect rest ih =>
    intro r there
    unfold outgoing at there
    split at there
    case isFalse => cases there
    case isTrue =>
      rcases List.mem_cons.mp there with first | later
      · rw [first]
        exact unsigned
      · split at later
        case h_2 => cases later
        case h_1 next followed =>
          refine ih ?_ r later
          unfold redirected at followed
          split at followed
          case isFalse => cases followed
          case isTrue =>
            dsimp only at followed
            rw [unsigned, if_neg Bool.false_ne_true] at followed
            cases followed
            rw [carriesSignature_of_eq (decorate_authorization client)]
            exact newRequest_unsigned unsigned

/-- From a request that is signed and at home, exactly the redirects that stay at home are
    answered with signed requests to the host alone. -/
theorem outgoing_signed_iff (can : CanSign client) {redirects : List Redirect}
    (signed : carriesSignature request = true) :
    (∀ r ∈ outgoing client request redirects, carriesSignature r = true →
      atHome client r.url = true) ↔
      isSent request.url = false ∨ atHome client request.url = true ∧ StayHome client redirects := by
  induction redirects generalizing request with
  | nil =>
    unfold outgoing StayHome
    by_cases sent : isSent request.url = true
    · rw [if_pos sent]
      simp [sent, signed]
    · rw [if_neg sent]
      simp [sent]
  | cons redirect rest ih =>
    unfold outgoing StayHome
    by_cases sent : isSent request.url = true
    · rw [if_pos sent]
      by_cases home : atHome client request.url = true
      · have follows : redirected client request (redirect.newRequest request) =
            some (signRequest client (decorateRequest client (redirect.newRequest request))) := by
          unfold redirected
          rw [if_pos home]
          dsimp only
          rw [if_pos signed]
        have leads : (signRequest client
            (decorateRequest client (redirect.newRequest request))).url = redirect.url := by
          rw [sign_url]
          rfl
        have carries : carriesSignature (signRequest client
            (decorateRequest client (redirect.newRequest request))) = true := sign_carries can
        have step := ih carries
        rw [leads] at step
        rw [follows]
        simp only [List.forall_mem_cons, step]
        simp [sent, signed, home]
      · constructor
        · intro all
          exact absurd (all request List.mem_cons_self signed) home
        · rintro (unsent | ⟨there,_⟩)
          · rw [sent] at unsent
            cases unsent
          · exact absurd there home
    · rw [if_neg sent]
      simp [sent]

end Redirects

section Addresses
variable {client : Client} {path : List Char} {u : URL}

theorem takeWhile_append_all {p : Char → Bool} {first : List Char} (all : ∀ c ∈ first, p c = true)
    (rest : List Char) : (first ++ rest).takeWhile p = first ++ rest.takeWhile p :=
  List.takeWhile_append_of_pos all

theorem name_not {text : List Char} (plain : ∀ c ∈ text, isNameChar c = true) {d : Char}
    (other : isNameChar d = false) : ∀ c ∈ text, decide (c ≠ d) = true :=
  fun c there => decide_eq_true (isNameChar_ne (plain c there) other)

theorem name_inside {text : List Char} (plain : ∀ c ∈ text, isNameChar c = true) :
    ∀ c ∈ text, (!endsAuthority c) = true := by
  intro c there
  have slash := isNameChar_ne (plain c there) (d := '/') (by decide)
  have query := isNameChar_ne (plain c there) (d := '?') (by decide)
  have hash := isNameChar_ne (plain c there) (d := '#') (by decide)
  simp [endsAuthority, slash, query, hash]

/-- The URL that the client makes of a path: the scheme is the client's, and the authority is the
    host with what the path adds to it. -/
theorem ofString_base (made : URL.ofString (client.proto ++ "://".toList ++ client.host ++ path) =
    some u) : u.scheme = some client.proto ∧
      u.host = some (hostOf (hostAndPort (client.host ++ inAuthority path))) ∧
      u.port = portOf (hostAndPort (client.host ++ inAuthority path)) := by
  unfold URL.ofString at made
  split at made
  case isFalse => cases made
  case isTrue =>
    have scheme : splitScheme (client.proto ++ "://".toList ++ client.host ++ path) =
        (some client.proto, '/' :: '/' :: (client.host ++ path)) := by
      have plain : ∀ c ∈ client.proto, isSchemeChar c = true :=
        fun c there => isNameChar_scheme (client.plain_proto c there)
      have shape : client.proto ++ "://".toList ++ client.host ++ path =
          client.proto ++ ':' :: '/' :: '/' :: (client.host ++ path) := by simp
      unfold splitScheme
      rw [shape, List.dropWhile_append_of_pos plain, takeWhile_append_all plain]
      simp [isSchemeChar]
    have authority : splitAuthority ('/' :: '/' :: (client.host ++ path)) =
        (some (client.host ++ inAuthority path),
          (client.host ++ path).dropWhile fun c => !endsAuthority c) := by
      rw [splitAuthority_slashes, takeWhile_append_all (name_inside client.plain_host)]
      rfl
    rw [scheme] at made
    dsimp only at made
    rw [authority] at made
    cases made
    exact ⟨rfl,rfl,rfl⟩

theorem hostAndPort_plain (none_there : (inAuthority path).dropWhile (fun c => c ≠ '@') = []) :
    hostAndPort (client.host ++ inAuthority path) = client.host ++ inAuthority path := by
  unfold hostAndPort
  rw [List.dropWhile_append_of_pos (name_not client.plain_host (by decide)), none_there]

theorem hostAndPort_user {c : Char} {hostport : List Char}
    (there : (inAuthority path).dropWhile (fun c => c ≠ '@') = c :: hostport) :
    hostAndPort (client.host ++ inAuthority path) = hostport := by
  unfold hostAndPort
  rw [List.dropWhile_append_of_pos (name_not client.plain_host (by decide)), there]

theorem hostOf_base (hostport : List Char) :
    hostOf (client.host ++ hostport) = client.host ++ hostOf hostport :=
  takeWhile_append_all (name_not client.plain_host (by decide)) _

theorem portOf_base (hostport : List Char) : portOf (client.host ++ hostport) = portOf hostport := by
  unfold portOf
  rw [List.dropWhile_append_of_pos (name_not client.plain_host (by decide))]

/-- A host is the client's with a port that is passed over, and with no other. -/
theorem atHome_iff {hostport : List Char} (scheme : u.scheme = some client.proto)
    (host : u.host = some (hostOf hostport)) (port : u.port = portOf hostport) :
    atHome client u = true ↔ hostOf hostport = client.host ∧ StandardPort hostport := by
  have no_colon : ∀ text : List Char, hostOf hostport ++ ':' :: text ≠ client.host := by
    intro text same
    have colon : ':' ∈ client.host := by
      rw [← same]
      exact List.mem_append_right _ List.mem_cons_self
    exact isNameChar_ne (client.plain_host ':' colon) (d := ':') (by decide) rfl
  unfold atHome StandardPort
  rw [host, scheme, port]
  cases portOf hostport with
  | none => simp
  | some number =>
    by_cases standard : number = 443 ∨ number = 80
    · rcases standard with secure | plain
      · simp [secure]
      · simp [plain]
    · obtain ⟨not_secure,not_plain⟩ := not_or.mp standard
      simp [not_secure, not_plain, no_colon]

theorem made_atHome_iff (made : URL.ofString
    (client.proto ++ "://".toList ++ client.host ++ path) = some u) :
    atHome client u = true ↔ StaysAtHost client path := by
  obtain ⟨scheme,host,port⟩ := ofString_base made
  rw [atHome_iff scheme host port]
  unfold StaysAtHost StandardPort
  split
  case h_1 none_there =>
    rw [hostAndPort_plain none_there, hostOf_base, portOf_base, List.append_right_eq_self]
  case h_2 there => rw [hostAndPort_user there]

theorem made_isSent_iff (made : URL.ofString
    (client.proto ++ "://".toList ++ client.host ++ path) = some u) :
    isSent u = false ↔ NamesNoHost path := by
  obtain ⟨_,host,_⟩ := ofString_base made
  unfold isSent NamesNoHost
  rw [host]
  cases there : (inAuthority path).dropWhile fun c => c ≠ '@' with
  | nil =>
    obtain ⟨c,rest,parts⟩ := List.exists_cons_of_ne_nil client.some_host
    rw [hostAndPort_plain there, hostOf_base, parts]
    simp
  | cons c hostport =>
    rw [hostAndPort_user there]
    cases named : hostOf hostport with
    | nil => simp [named]
    | cons c rest => simp [named]

theorem separator_legal : ∀ c ∈ "://".toList, isURLChar c = true :=
  List.all_eq_true.mp (by decide)

/-- The base is legal, and so is the whole if the path is. -/
theorem legal_base : URL.ofString (client.proto ++ "://".toList ++ client.host ++ path) = none ↔
    isLegal false path = false := by
  have legal : isLegal false (client.proto ++ "://".toList ++ client.host ++ path) =
      isLegal false path := by
    rw [List.append_assoc, List.append_assoc,
      isLegal_append fun c there => isNameChar_url (client.plain_proto c there),
      isLegal_append separator_legal,
      isLegal_append fun c there => isNameChar_url (client.plain_host c there)]
  unfold URL.ofString
  rw [legal]
  cases isLegal false path with
  | true => simp
  | false => simp

end Addresses

section Proxied
variable {client : Client}

/-- Headers whose names are in lower case bring no authorization. -/
theorem copyHeaders_unsigned {headers : Fields} (lower : Lowercased headers)
    {request : URLRequest} (unsigned : authorization request = none) :
    authorization (copyHeaders headers request) = none := by
  unfold copyHeaders
  induction headers generalizing request with
  | nil => exact unsigned
  | cons header headers ih =>
    have later : Lowercased headers := fun field there => lower field (List.mem_cons_of_mem _ there)
    obtain ⟨name,named⟩ := lower header List.mem_cons_self
    rw [List.foldl_cons]
    refine ih later ?_
    split
    case isTrue => exact unsigned
    case isFalse =>
      clear ih
      induction header.2 generalizing request with
      | nil => exact unsigned
      | cons hdr values each =>
        rw [List.foldl_cons]
        apply each
        unfold authorization at unsigned ⊢
        unfold URLRequest.setValue
        dsimp only
        rw [List.lookup_append]
        have differs : "Authorization".toList ≠ header.1 := by
          rw [named]
          exact fun same => lowercased_ne name _ same.symm
        rw [List.lookup_cons, beq_false_of_ne differs, List.lookup_nil, Option.or_none]
        rw [List.lookup_eq_none_iff] at unsigned ⊢
        exact fun other there => unsigned other (List.mem_filter.mp there).1

theorem copyHeaders_url (headers : Fields) (request : URLRequest) :
    (copyHeaders headers request).url = request.url := by
  unfold copyHeaders
  induction headers generalizing request with
  | nil => rfl
  | cons header headers ih =>
    rw [List.foldl_cons, ih]
    split
    · rfl
    · generalize header.2 = values
      induction values generalizing request with
      | nil => rfl
      | cons hdr values each =>
        rw [List.foldl_cons, each]
        rfl

section Pages
variable {mountPoint : List Char} {request : Request} {u : URL}

theorem proxied_elsewhere (elsewhere : mountPoint.isPrefixOf request.path = false)
    (body : Option Data) (redirects : List Redirect) :
    proxied client mountPoint request body redirects = .ok [] := by
  unfold proxied handle
  rw [if_neg (Bool.eq_false_iff.mp elsewhere)]
  rfl

/-- Of a path that makes no URL the client makes none by force. -/
theorem proxied_unmade (mounted : mountPoint.isPrefixOf request.path = true)
    (unmade : URL.ofString (client.proto ++ "://".toList ++ client.host ++
      proxiedPath mountPoint request) = none) (body : Option Data) (redirects : List Redirect) :
    proxied client mountPoint request body redirects = .error (.trap .unwrap) := by
  have stops : url client (proxiedPath mountPoint request) = .error (.trap .unwrap) := by
    unfold url
    rw [unmade]
    rfl
  unfold proxied handle
  rw [if_pos mounted, bind_halted stops]
  rfl

/-- The request of a page that the proxy is mounted for, once it has a URL. -/
theorem proxied_made (mounted : mountPoint.isPrefixOf request.path = true)
    (made : URL.ofString (client.proto ++ "://".toList ++ client.host ++
      proxiedPath mountPoint request) = some u) (body : Option Data) (redirects : List Redirect) :
    proxied client mountPoint request body redirects = .ok (outgoing client
      (actualRequest client (copyHeaders request.headers
        ⟨u,request.method,if request.hasBody then body else none,[]⟩) (authenticates request))
      redirects) := by
  have found : url client (proxiedPath mountPoint request) = .ok u := by
    unfold url
    rw [made]
    rfl
  unfold proxied handle
  rw [if_pos mounted, bind_ready found]
  rfl

end Pages

/-- A request with the headers of a page carries no signature. -/
theorem copied_unsigned {headers : Fields} (lower : Lowercased headers) {request : URLRequest}
    (unsigned : authorization request = none) :
    carriesSignature (decorateRequest client (copyHeaders headers request)) = false := by
  have nothing := (decorate_authorization client).trans (copyHeaders_unsigned lower unsigned)
  unfold authorization at nothing
  unfold carriesSignature
  rw [nothing]

/-- Of a request that carries no signature yet, signed ones go to the client's host alone exactly
    if it is not signed, it is not sent, or it and the redirects stay at the host. -/
theorem actual_signed_iff {request : URLRequest}
    (bare : carriesSignature (decorateRequest client request) = false) (auth : Bool)
    (redirects : List Redirect) :
    (∀ r ∈ outgoing client (actualRequest client request auth) redirects,
      carriesSignature r = true → atHome client r.url = true) ↔
      auth = false ∨ ¬ CanSign client ∨ isSent request.url = false ∨
        atHome client request.url = true ∧ StayHome client redirects := by
  unfold actualRequest
  cases auth with
  | false =>
    refine iff_of_true (fun r there signed => ?_) (Or.inl rfl)
    rw [if_neg Bool.false_ne_true] at there
    rw [outgoing_unsigned bare r there] at signed
    cases signed
  | true =>
    rw [if_pos rfl]
    by_cases can : CanSign client
    case neg =>
      refine iff_of_true (fun r there signed => ?_) (Or.inr (Or.inl can))
      rw [outgoing_unsigned ((sign_unable can).trans bare) r there] at signed
      cases signed
    case pos =>
      have address : (signRequest client (decorateRequest client request)).url = request.url :=
        sign_url client
      rw [outgoing_signed_iff can (sign_carries can), address]
      constructor
      · exact fun home => Or.inr (Or.inr home)
      · rintro (off | unable | home)
        · cases off
        · exact absurd can unable
        · exact home

end Proxied

theorem https_plain : ∀ c ∈ "https".toList, isNameChar c = true :=
  List.all_eq_true.mp (by decide)

theorem breadwallet_plain : ∀ c ∈ "api.breadwallet.com".toList, isNameChar c = true :=
  List.all_eq_true.mp (by decide)

theorem breadwallet_some : "api.breadwallet.com".toList ≠ [] := by decide

def breadwallet : Client where
  proto := "https".toList
  host := "api.breadwallet.com".toList
  plain_proto := https_plain
  plain_host := breadwallet_plain
  some_host := breadwallet_some
  token := some "token".toList
  sign := some fun _ => "signature".toList
  sha256Base58 _ := []
  decodedPath path := path
  date := "Mon, 01 Jan 2018 00:00:00 GMT".toList
  testnet := "0".toList
  testflight := "0".toList
  locale := "en_US".toList

def authenticatedGet (path : String) : Socket :=
  ⟨("GET " ++ path ++ " HTTP/1.1\nX-Should-Authenticate: true\n\n").toUTF8.data.toList,false⟩

def authenticatedRequest (path : String) : Request :=
  ⟨"GET".toList,path.toList,[],[],[("x-should-authenticate".toList,["true".toList])]⟩

/-- What goes out for a path that makes the client's host the user information of another one. -/
def strangerRequest : URLRequest where
  url :=
    { absoluteString := "https://api.breadwallet.com@stranger.example/".toList
      scheme := some "https".toList
      host := some "stranger.example".toList
      port := none
      path := "/".toList
      query := none }
  httpMethod := "GET".toList
  httpBody := none
  headers :=
    [("X-Bitcoin-Testnet".toList,"0".toList),("X-Testflight".toList,"0".toList),
      ("Accept-Language".toList,"en_US".toList),
      ("Date".toList,"Mon, 01 Jan 2018 00:00:00 GMT".toList),
      ("Authorization".toList,"bread token:signature".toList)]

end APIProxy
