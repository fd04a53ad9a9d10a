import AltMessenger.PaymentRequests
import AltMessenger.TransitionRuns

/-!
The URLs that other applications open. What the query of one of them sets is kept by the controller,
and is there when the next one is handled.
-/
namespace URLHandling
open SwiftRuntime SwiftText SwiftURL PercentEscapes PaymentRequests TransitionRuns

structure URLController where
  xSource : Option (List Char) := none
  xSuccess : Option (List Char) := none
  xError : Option (List Char) := none
  uri : Option (List Char) := none
  deriving DecidableEq, Repr

/-- A URL that is handled, and the address of the wallet at that time, where there is one. -/
structure Call where
  url : URL
  made : URL.ofString url.absoluteString = some url
  receiveAddress : Option (List Char)
  base58 : ∀ address ∈ receiveAddress, ∀ c ∈ address, c.isAlphanum = true

/-- What a URL brings about: a trigger of the store, a URL that is opened, or a question. -/
inductive Effect where
  | scanQr
  | copyWalletAddresses (xSuccess xError : Option (List Char))
  | openURL (url : URL)
  | receivedPaymentRequest (request : PaymentRequest)
  | authenticationRequest (siteName : List Char) (url : URL)
  deriving DecidableEq, Repr

/-- `URL.path`, without escapes and without a slash at its end -/
def path (url : URL) : List Char :=
  (decode (if url.path.length > 1 && url.path.getLast? = some '/' then url.path.dropLast
    else url.path)).getD []

/-- The key and the value that the loop takes from a component, with its index two behind the end
    of the key. -/
def readPair (component : List Char) : Except Trap (Option (List Char × List Char)) :=
  match components component '+' with
  | key :: _ :: _ =>
    if key.length + 2 ≤ component.length then do
      let value ← unwrap (decode (spaced (component.drop (key.length + 2))))
      .ok (some (key, value))
    else .error .index
  | _ => .ok none

def handlePair (s : URLController) (key value : List Char) : URLController :=
  if key = "x-source".toList then { s with xSource := some value }
  else if key = "x-success".toList then { s with xSuccess := some value }
  else if key = "x-error".toList then { s with xError := some value }
  else if key = "uri".toList then { s with uri := some value }
  else s

/-- The body of the loop. -/
def handleComponent (s : URLController) (component : List Char) : Except Trap URLController := do
  match ← readPair component with
  | some (key, value) => .ok (handlePair s key value)
  | none => .ok s

def queryComponents (url : URL) : List (List Char) :=
  match url.query with
  | some query => components query '&'
  | none => []

/-- It is the URL that was opened that is returned, not the one in its query. -/
def isBitcoinUri (url : URL) (uri : Option (List Char)) : Option URL :=
  match uri with
  | none => none
  | some uri =>
    match URL.ofString uri with
    | none => none
    | some bitcoinUrl =>
      if (url.host = some "bitcoin-uri".toList || path url = "/bitcoin-uri".toList) &&
          bitcoinUrl.scheme = some "bitcoin".toList then some url
      else none

def copyAddress (receiveAddress : Option (List Char)) (callback : List Char) : List Effect :=
  match URL.ofString callback, receiveAddress with
  | some url, some address =>
    let queryLength := (url.query.getD []).length
    let callback :=
      callback ++ (if queryLength > 0 then ['&'] else ['?']) ++ "address=".toList ++ address
    match URL.ofString callback with
    | some callbackURL => [.openURL callbackURL]
    | none => []
  | _, _ => []

def handleBitcoinUri (W : Wallet) (uri : URL) : Except Trap (List Effect × Bool) := do
  match ← PaymentRequest.ofString W uri.absoluteString with
  | some request => .ok ([.receivedPaymentRequest request], true)
  | none => .ok ([], false)

/-- `BRBitID.siteName` -/
def siteName (url : URL) : Except Trap (List Char) := do
  let host ← unwrap url.host
  .ok (host ++ path url)

/-- `handleUrl` behind its loop, for a URL of the application's own scheme. -/
def handleBread (W : Wallet) (s : URLController) (call : Call) :
    Except Trap (List Effect × Bool) :=
  let url := call.url
  if url.host = some "scanqr".toList || path url = "/scanqr".toList then .ok ([.scanQr], true)
  else if url.host = some "addresslist".toList || path url = "/addresslist".toList then
    .ok ([.copyWalletAddresses s.xSuccess s.xError], true)
  else if path url = "/address".toList then
    match s.xSuccess with
    | some success => .ok (copyAddress call.receiveAddress success, true)
    | none => .ok ([], true)
  else
    match isBitcoinUri url s.uri with
    | some uri => handleBitcoinUri W uri
    | none => .ok ([], true)

def handleUrl (W : Wallet) (s : URLController) (call : Call) :
    Except Trap (URLController × List Effect × Bool) :=
  let url := call.url
  let scheme := url.scheme.getD []
  if scheme = "bread".toList then do
    let s ← (queryComponents url).foldlM handleComponent s
    let (effects, handled) ← handleBread W s call
    .ok (s, effects, handled)
  else if scheme = "bitcoin".toList then do
    let (effects, handled) ← handleBitcoinUri W url
    .ok (s, effects, handled)
  else if scheme = "bitid".toList then
    -- `BRBitID.isBitIDURL`
    if url.scheme = some "bitid".toList then do
      let site ← siteName url
      .ok (s, [.authenticationRequest site url], true)
    else .ok (s, [], true)
  else .ok (s, [], false)

/-- A component gives its key and its decoded value if it has an equals sign, and nothing if not. -/
def Extracts (component : List Char) : Prop :=
  ('=' ∉ component → readPair component = .ok none) ∧
    ∀ key value, component = key ++ '=' :: value → '=' ∉ key →
      ∃ plain, decode value = some plain ∧ readPair component = .ok (some (key, plain))

/-- The call returns, takes the pairs of the query and no others, and brings about what it does in a
    controller that has handled no other URL. -/
def HandledAlone (W : Wallet) (s : URLController) (call : Call) : Prop :=
  ∃ t effects handled, handleUrl W s call = .ok (t, effects, handled) ∧
    (call.url.scheme = some "bread".toList →
      ∀ component ∈ queryComponents call.url, Extracts component) ∧
    ∃ t' handled', handleUrl W {} call = .ok (t', effects, handled')

def step (W : Wallet) (s : URLController) (call : Call) : Option URLController :=
  match handleUrl W s call with
  | .ok (t, _, _) => some t
  | .error _ => none

/-- Nothing is taken from the query, no payment has broken escapes, and a site has a name. -/
def Harmless (url : URL) : Prop :=
  (url.scheme = some "bread".toList → ∀ query, url.query = some query →
      '+' ∉ query ∧ '=' ∉ query) ∧
    (url.scheme = some "bitcoin".toList → url.host = none → QueryEscaped url) ∧
    (url.scheme = some "bitid".toList → url.host ≠ none)

/-- The last value that a URL gives for a key. -/
def given (url : URL) (key : List Char) : Option (List Char) :=
  (queryComponents url).foldl
    (fun found component =>
      match readPair component with
      | .ok (some (other, value)) => if other = key then some value else found
      | _ => found)
    none

/-- A URL gives itself what its action takes from the controller. -/
def GivesItsOwn (W : Wallet) (call : Call) : Prop :=
  let url := call.url
  if url.host = some "scanqr".toList || path url = "/scanqr".toList then True
  else if url.host = some "addresslist".toList || path url = "/addresslist".toList then
    given url "x-success".toList ≠ none ∧ given url "x-error".toList ≠ none
  else if path url = "/address".toList then
    given url "x-success".toList ≠ none ∨ call.receiveAddress = none
  else if url.host = some "bitcoin-uri".toList || path url = "/bitcoin-uri".toList then
    given url "uri".toList ≠ none ∨ W.isValidAddress url.absoluteString = false
  else True

section Pairs
variable {component : List Char}

theorem readPair_none (none_there : '+' ∉ component) : readPair component = .ok none := by
  rw [readPair, components_single none_there]

/-- Behind a plus sign there is a pair or a trap. -/
theorem readPair_first {key : List Char} (before : '+' ∉ key) (rest : List Char) :
    readPair (key ++ '+' :: rest) =
      if rest = [] then .error .index
      else unwrap (decode (spaced (rest.drop 1))) >>= fun value => .ok (some (key, value)) := by
  obtain ⟨second,others,cut⟩ := List.exists_cons_of_ne_nil (List.splitOn_ne_nil '+' rest)
  have behind : (key ++ '+' :: rest).drop (key.length + 2) = rest.drop 1 := by
    rw [← List.drop_drop, List.drop_left]
    rfl
  rw [readPair, components_first before, components, cut]
  dsimp only
  rw [behind, List.length_append, List.length_cons]
  cases rest with
  | nil => rw [if_neg (by simp), if_pos rfl]
  | cons c rest => rw [if_pos (by simp), if_neg (List.cons_ne_nil c rest)]

theorem extracts_iff (component : List Char) :
    Extracts component ↔ '+' ∉ component ∧ '=' ∉ component := by
  constructor
  · rintro ⟨without,pair⟩
    rcases separator_first component '+' with no_plus | ⟨key,rest,parts,before⟩
    · refine ⟨no_plus,fun equals => ?_⟩
      rcases separator_first component '=' with no_equals | ⟨key,value,parts,before⟩
      · exact no_equals equals
      · obtain ⟨plain,-,read⟩ := pair key value parts before
        cases (readPair_none no_plus).symm.trans read
    · exfalso
      have read := readPair_first before rest
      rw [← parts] at read
      have some_read : ∀ found, readPair component = .ok found →
          ∃ value, found = some (key, value) := by
        intro found same
        rw [read] at same
        split at same
        · cases same
        · obtain ⟨value,-,same⟩ := bind_ran.mp same
          cases same
          exact ⟨value,rfl⟩
      rcases separator_first component '=' with no_equals | ⟨key',value,parts',before'⟩
      · obtain ⟨value,same⟩ := some_read none (without no_equals)
        cases same
      · obtain ⟨plain,-,read'⟩ := pair key' value parts' before'
        obtain ⟨value',same⟩ := some_read _ read'
        cases same
        rw [parts] at parts'
        have signs := (List.cons_eq_cons.mp (List.append_cancel_left parts')).1
        exact absurd signs (by decide)
  · rintro ⟨no_plus,no_equals⟩
    refine ⟨fun _ => readPair_none no_plus,fun key value parts _ => ?_⟩
    rw [parts] at no_equals
    exact absurd (List.mem_append_right _ List.mem_cons_self) no_equals

theorem queryComponents_extract_iff (url : URL) :
    (∀ component ∈ queryComponents url, Extracts component) ↔
      ∀ query, url.query = some query → '+' ∉ query ∧ '=' ∉ query := by
  unfold queryComponents
  cases url.query with
  | none =>
    exact iff_of_true (fun _ there => absurd there List.not_mem_nil) fun _ same => nomatch same
  | some query =>
    constructor
    · intro each query' same
      cases same
      refine ⟨fun plus => ?_,fun equals => ?_⟩
      · obtain ⟨part,there,inside⟩ := (@mem_components_iff query '&' _ (by decide)).mp plus
        exact ((extracts_iff part).mp (each part there)).1 inside
      · obtain ⟨part,there,inside⟩ := (@mem_components_iff query '&' _ (by decide)).mp equals
        exact ((extracts_iff part).mp (each part there)).2 inside
    · intro plain component there
      obtain ⟨no_plus,no_equals⟩ := plain query rfl
      refine (extracts_iff component).mpr ⟨fun plus => no_plus ?_,fun equals => no_equals ?_⟩
      · exact (mem_components_iff (by decide)).mpr ⟨component,there,plus⟩
      · exact (mem_components_iff (by decide)).mpr ⟨component,there,equals⟩

/-- Without pairs the loop changes nothing. -/
theorem loop_none (parts : List (List Char)) (none_there : ∀ part ∈ parts, readPair part = .ok none)
    (s : URLController) : parts.foldlM handleComponent s = .ok s := by
  induction parts with
  | nil => rfl
  | cons part parts ih =>
    have first : handleComponent s part = .ok s := by
      rw [handleComponent, none_there part List.mem_cons_self]
      rfl
    rw [List.foldlM_cons, bind_ready first]
    exact ih fun part there => none_there part (List.mem_cons_of_mem _ there)

end Pairs

section Calls
variable {W : Wallet} {s t : URLController} {call : Call}

theorem handleBitcoinUri_returns_iff (W : Wallet) {url : URL}
    (made : URL.ofString url.absoluteString = some url) :
    (∃ result, handleBitcoinUri W url = .ok result) ↔
      (url.scheme = some "bitcoin".toList → url.host = none → QueryEscaped url) := by
  rw [← ofString_returns_iff W made]
  constructor
  · rintro ⟨result,ran⟩
    obtain ⟨request,read,-⟩ := bind_ran.mp ran
    exact ⟨request,read⟩
  · rintro ⟨request,read⟩
    rw [handleBitcoinUri, bind_ready read]
    cases request with
    | some request => exact ⟨_,rfl⟩
    | none => exact ⟨_,rfl⟩

theorem handleBread_fresh (W : Wallet) (call : Call) :
    ∃ result, handleBread W {} call = .ok result := by
  unfold handleBread
  dsimp only
  split
  · exact ⟨_,rfl⟩
  · split
    · exact ⟨_,rfl⟩
    · split <;> exact ⟨_,rfl⟩

theorem scheme_getD {url : URL} {scheme : List Char} (some_letter : scheme ≠ []) :
    url.scheme.getD [] = scheme ↔ url.scheme = some scheme := by
  cases url.scheme with
  | none => exact iff_of_false some_letter.symm fun same => nomatch same
  | some other => exact ⟨congrArg some,Option.some.inj⟩

theorem handleUrl_bread (bread : call.url.scheme = some "bread".toList) : handleUrl W s call =
    (queryComponents call.url).foldlM handleComponent s >>= fun s =>
      handleBread W s call >>= fun (effects, handled) => .ok (s, effects, handled) := by
  unfold handleUrl
  dsimp only
  rw [bread]
  rfl

theorem handleUrl_bitcoin (bitcoin : call.url.scheme = some "bitcoin".toList) :
    handleUrl W s call =
      handleBitcoinUri W call.url >>= fun (effects, handled) => .ok (s, effects, handled) := by
  unfold handleUrl
  dsimp only
  rw [bitcoin]
  rfl

theorem handleUrl_bitid (bitid : call.url.scheme = some "bitid".toList) : handleUrl W s call =
    siteName call.url >>= fun site => .ok (s, [.authenticationRequest site call.url], true) := by
  unfold handleUrl
  dsimp only
  rw [bitid]
  rfl

theorem handleUrl_other (not_bread : call.url.scheme ≠ some "bread".toList)
    (not_bitcoin : call.url.scheme ≠ some "bitcoin".toList)
    (not_bitid : call.url.scheme ≠ some "bitid".toList) :
    handleUrl W s call = .ok (s, [], false) := by
  unfold handleUrl
  dsimp only
  rw [if_neg (mt (scheme_getD (by decide)).mp not_bread),
    if_neg (mt (scheme_getD (by decide)).mp not_bitcoin),
    if_neg (mt (scheme_getD (by decide)).mp not_bitid)]

/-- A harmless URL is handled, and leaves nothing behind. -/
theorem harmless_handled (W : Wallet) (harmless : Harmless call.url) :
    ∃ effects handled, handleUrl W {} call = .ok ({}, effects, handled) := by
  obtain ⟨plain,payment,site⟩ := harmless
  by_cases bread : call.url.scheme = some "bread".toList
  · have extracts := (queryComponents_extract_iff call.url).mpr (plain bread)
    have none_there : ∀ part ∈ queryComponents call.url, readPair part = .ok none :=
      fun part there => readPair_none ((extracts_iff part).mp (extracts part there)).1
    obtain ⟨⟨effects,handled⟩,ran⟩ := handleBread_fresh W call
    rw [handleUrl_bread bread, bind_ready (loop_none _ none_there {}), bind_ready ran]
    exact ⟨effects,handled,rfl⟩
  by_cases bitcoin : call.url.scheme = some "bitcoin".toList
  · obtain ⟨⟨effects,handled⟩,ran⟩ := (handleBitcoinUri_returns_iff W call.made).mpr payment
    rw [handleUrl_bitcoin bitcoin, bind_ready ran]
    exact ⟨effects,handled,rfl⟩
  by_cases bitid : call.url.scheme = some "bitid".toList
  · obtain ⟨host,there⟩ := Option.ne_none_iff_exists'.mp (site bitid)
    rw [handleUrl_bitid bitid, siteName, there]
    exact ⟨_,_,rfl⟩
  exact ⟨_,_,handleUrl_other bread bitcoin bitid⟩

/-- Of a controller that handled nothing a call is handled as it should exactly if its URL is
    harmless. -/
theorem first_handled_iff (W : Wallet) (call : Call) :
    HandledAlone W {} call ↔ Harmless call.url := by
  constructor
  · rintro ⟨t,effects,handled,ran,extracts,-⟩
    refine ⟨fun bread => (queryComponents_extract_iff call.url).mp (extracts bread),?_,?_⟩
    · intro bitcoin
      rw [handleUrl_bitcoin bitcoin] at ran
      obtain ⟨result,read,-⟩ := bind_ran.mp ran
      exact (handleBitcoinUri_returns_iff W call.made).mp ⟨result,read⟩ bitcoin
    · intro bitid no_host
      rw [handleUrl_bitid bitid, siteName, no_host] at ran
      cases ran
  · intro harmless
    obtain ⟨effects,handled,ran⟩ := harmless_handled W harmless
    exact ⟨_,effects,handled,ran,fun bread =>
      (queryComponents_extract_iff call.url).mpr (harmless.1 bread),_,_,ran⟩

end Calls

section Histories
variable {W : Wallet} {s t : URLController} {call : Call}

/-- A field that the loop sets for one key. -/
def Keeps (get : URLController → Option (List Char)) (key : List Char) : Prop :=
  ∀ s other value, get (handlePair s other value) = if other = key then some value else get s

theorem keeps_xSuccess : Keeps URLController.xSuccess "x-success".toList := by
  intro s other value
  unfold handlePair
  split_ifs <;> simp_all

theorem keeps_xError : Keeps URLController.xError "x-error".toList := by
  intro s other value
  unfold handlePair
  split_ifs <;> simp_all

theorem keeps_uri : Keeps URLController.uri "uri".toList := by
  intro s other value
  unfold handlePair
  split_ifs <;> simp_all

/-- What a field is behind the loop: what the URL gave for its key, or what it was before. -/
theorem loop_field {get : URLController → Option (List Char)} {key : List Char}
    (keeps : Keeps get key) {url : URL}
    (ran : (queryComponents url).foldlM handleComponent s = .ok t) :
    get t = (given url key).or (get s) := by
  have each (base : Option (List Char)) (parts : List (List Char)) :
      ∀ (found : Option (List Char)) (s : URLController), get s = found.or base →
        parts.foldlM handleComponent s = .ok t →
        get t = (parts.foldl (fun found component =>
          match readPair component with
          | .ok (some (other, value)) => if other = key then some value else found
          | _ => found) found).or base := by
    induction parts with
    | nil =>
      intro found s before ran
      cases ran
      exact before
    | cons part parts ih =>
      intro found s before ran
      rw [List.foldlM_cons] at ran
      obtain ⟨mid,first,rest⟩ := bind_ran.mp ran
      obtain ⟨pair,read,first⟩ := bind_ran.mp first
      rw [List.foldl_cons, read]
      cases pair with
      | none =>
        cases first
        exact ih found s before rest
      | some pair =>
        cases first
        refine ih _ _ ?_ rest
        dsimp only
        rw [keeps]
        split
        · rfl
        · exact before
  exact each (get s) _ none s rfl ran

/-- The loop returns for each state or for none. -/
theorem loop_returns {url : URL} (reads : ∀ part ∈ queryComponents url, ∃ pair,
      readPair part = .ok pair) (s : URLController) :
    ∃ t, (queryComponents url).foldlM handleComponent s = .ok t := by
  have each (s : URLController) (part : List Char) :
      (∃ next, handleComponent s part = .ok next) ↔ ∃ pair, readPair part = .ok pair := by
    constructor
    · rintro ⟨next,ran⟩
      obtain ⟨pair,read,-⟩ := bind_ran.mp ran
      exact ⟨pair,read⟩
    · rintro ⟨pair,read⟩
      rw [handleComponent, bind_ready read]
      cases pair <;> exact ⟨_,rfl⟩
  exact (foldlM_returns_iff each (queryComponents url) s).mpr reads

/-- What a URL brings about, in a controller with that history. -/
def effects (W : Wallet) (s : URLController) (call : Call) : Option (List Effect) :=
  match handleUrl W s call with
  | .ok (_, effects, _) => some effects
  | .error _ => none

/-- What is done for a payment in the query: the URL itself is taken for a payment request. -/
theorem isBitcoinUri_some {url found : URL} {uri : Option (List Char)}
    (there : isBitcoinUri url uri = some found) : found = url := by
  unfold isBitcoinUri at there
  split at there
  · cases there
  · split at there
    · cases there
    · split at there
      · exact (Option.some.inj there).symm
      · cases there

theorem handleBitcoinUri_bread (W : Wallet) (bread : call.url.scheme = some "bread".toList) :
    handleBitcoinUri W call.url = .ok (if W.isValidAddress call.url.absoluteString then
      ([.receivedPaymentRequest { toAddress := some call.url.absoluteString }], true)
      else ([], false)) := by
  rw [handleBitcoinUri, ofString_other W call.made bread (by decide) (by decide), bind_ready rfl]
  cases W.isValidAddress call.url.absoluteString <;> rfl

/-- The action of a URL, with what the controller has behind the loop. -/
def action (W : Wallet) (t : URLController) (call : Call) : List Effect :=
  let url := call.url
  if url.host = some "scanqr".toList || path url = "/scanqr".toList then [.scanQr]
  else if url.host = some "addresslist".toList || path url = "/addresslist".toList then
    [.copyWalletAddresses t.xSuccess t.xError]
  else if path url = "/address".toList then
    t.xSuccess.elim [] (copyAddress call.receiveAddress)
  else if (isBitcoinUri url t.uri).isSome && W.isValidAddress url.absoluteString then
    [.receivedPaymentRequest { toAddress := some url.absoluteString }]
  else []

theorem handleBread_action (W : Wallet) (bread : call.url.scheme = some "bread".toList)
    (t : URLController) : ∃ handled, handleBread W t call = .ok (action W t call, handled) := by
  unfold handleBread action
  dsimp only
  split
  · exact ⟨_,rfl⟩
  · split
    · exact ⟨_,rfl⟩
    · split
      · cases t.xSuccess <;> exact ⟨_,rfl⟩
      · cases asked : isBitcoinUri call.url t.uri with
        | none => exact ⟨_,rfl⟩
        | some found =>
          rw [isBitcoinUri_some asked]
          dsimp only
          rw [handleBitcoinUri_bread W bread]
          cases W.isValidAddress call.url.absoluteString <;> exact ⟨_,rfl⟩

/-- What the loop leaves in the fields: what the URL gives, or what was there before. -/
structure Left (url : URL) (s t : URLController) : Prop where
  xSuccess : t.xSuccess = (given url "x-success".toList).or s.xSuccess
  xError : t.xError = (given url "x-error".toList).or s.xError
  uri : t.uri = (given url "uri".toList).or s.uri

/-- A URL's effects are its action on what it gives and what was there before. -/
theorem effects_action (W : Wallet) (bread : call.url.scheme = some "bread".toList)
    (reads : ∀ part ∈ queryComponents call.url, ∃ pair, readPair part = .ok pair)
    (s : URLController) :
    ∃ t, effects W s call = some (action W t call) ∧ Left call.url s t := by
  obtain ⟨t,ran⟩ := loop_returns reads s
  obtain ⟨handled,acted⟩ := handleBread_action W bread t
  refine ⟨t,?_,loop_field keeps_xSuccess ran,loop_field keeps_xError ran,loop_field keeps_uri ran⟩
  rw [effects, handleUrl_bread bread, bind_ready ran, bind_ready acted]

/-- A callback to which an address is given. -/
theorem address_opened {address : List Char} (base58 : ∀ c ∈ address, c.isAlphanum = true) :
    copyAddress (some address) "a:".toList ≠ [] := by
  have legal : isLegal false ("a:?address=".toList ++ address) = true := by
    have front : "a:?address=".toList.all isURLChar = true := by decide
    rw [isLegal_append (List.all_eq_true.mp front), ← List.append_nil address,
      isLegal_append fun c there => Bool.or_eq_true_iff.mpr (Or.inl (base58 c there))]
    rfl
  have callback : ∃ url, URL.ofString ("a:?address=".toList ++ address) = some url := by
    unfold URL.ofString
    rw [if_pos]
    · exact ⟨_,rfl⟩
    · rw [legal, Bool.and_true]
      exact decide_eq_true (List.cons_ne_nil _ _)
  obtain ⟨url,made⟩ := callback
  have asked : ∃ url, URL.ofString "a:".toList = some url ∧ url.query = none :=
    ⟨_,rfl,rfl⟩
  obtain ⟨plain,made',no_query⟩ := asked
  unfold copyAddress
  rw [made']
  dsimp only
  rw [no_query]
  change (match URL.ofString ("a:?address=".toList ++ address) with
    | some callbackURL => [Effect.openURL callbackURL]
    | none => []) ≠ []
  rw [made]
  exact List.cons_ne_nil _ _

theorem given_first {found : Option (List Char)} {value : List Char}
    (same : found.or (some value) = found) : found ≠ none := by
  intro none_given
  rw [none_given] at same
  cases same

theorem or_given {found other : Option (List Char)} (some_given : found ≠ none) :
    found.or other = found := by
  obtain ⟨value,there⟩ := Option.ne_none_iff_exists'.mp some_given
  rw [there]
  rfl

theorem isBitcoinUri_asked {url : URL}
    (asked : (decide (url.host = some "bitcoin-uri".toList) ||
      decide (path url = "/bitcoin-uri".toList)) = true) :
    isBitcoinUri url (some "bitcoin:".toList) = some url := by
  have payment : ∃ found, URL.ofString "bitcoin:".toList = some found ∧
      found.scheme = some "bitcoin".toList := ⟨_,rfl,rfl⟩
  obtain ⟨found,made,scheme⟩ := payment
  unfold isBitcoinUri
  dsimp only
  rw [made]
  dsimp only
  rw [asked, scheme]
  rfl

theorem isBitcoinUri_elsewhere {url : URL} {uri : Option (List Char)}
    (elsewhere : (decide (url.host = some "bitcoin-uri".toList) ||
      decide (path url = "/bitcoin-uri".toList)) ≠ true) : isBitcoinUri url uri = none := by
  unfold isBitcoinUri
  split
  · rfl
  · split
    · rfl
    · rw [Bool.eq_false_iff.mpr elsewhere]
      rfl

/-- Without an address nothing is called back. -/
theorem copyAddress_none (callback : Option (List Char)) :
    callback.elim [] (copyAddress none) = [] := by
  cases callback with
  | none => rfl
  | some callback =>
    rw [Option.elim_some]
    unfold copyAddress
    cases URL.ofString callback <;> rfl

section Fields
variable {W : Wallet} {s t fresh : URLController}

/-- The action of a URL that gives itself what it takes is the same after each history. -/
theorem action_own (left : Left call.url s t) (started : Left call.url {} fresh)
    (own : GivesItsOwn W call) : action W t call = action W fresh call := by
  unfold action
  unfold GivesItsOwn at own
  rw [left.xSuccess, left.xError, left.uri, started.xSuccess, started.xError, started.uri]
  rw [Option.or_none, Option.or_none, Option.or_none]
  dsimp only at own ⊢
  split at own
  case isTrue scan => rw [if_pos scan, if_pos scan]
  case isFalse scan =>
    rw [if_neg scan, if_neg scan]
    split at own
    case isTrue list => rw [if_pos list, if_pos list, or_given own.1, or_given own.2]
    case isFalse list =>
      rw [if_neg list, if_neg list]
      split at own
      case isTrue address =>
        rw [if_pos address, if_pos address]
        rcases own with some_given | no_address
        · rw [or_given some_given]
        · rw [no_address, copyAddress_none, copyAddress_none]
      case isFalse address =>
        rw [if_neg address, if_neg address]
        split at own
        case isTrue asked =>
          rcases own with some_given | invalid
          · rw [or_given some_given]
          · rw [invalid, Bool.and_false, Bool.and_false]
        case isFalse elsewhere =>
          rw [isBitcoinUri_elsewhere elsewhere, isBitcoinUri_elsewhere elsewhere]

/-- A history that left a value in each field. -/
def filled : URLController :=
  ⟨none,some "a:".toList,some "a:".toList,some "bitcoin:".toList⟩

/-- After a history that filled the fields, only such a URL acts as in a new controller. -/
theorem own_of_action (left : Left call.url filled t) (started : Left call.url {} fresh)
    (acted : action W t call = action W fresh call) : GivesItsOwn W call := by
  unfold action at acted
  unfold GivesItsOwn
  rw [left.xSuccess, left.xError, left.uri, started.xSuccess, started.xError, started.uri] at acted
  rw [Option.or_none, Option.or_none, Option.or_none] at acted
  dsimp only at acted ⊢
  split
  case isTrue => trivial
  case isFalse scan =>
    rw [if_neg scan, if_neg scan] at acted
    split
    case isTrue list =>
      rw [if_pos list, if_pos list] at acted
      have fields := Effect.copyWalletAddresses.inj (List.cons_eq_cons.mp acted).1
      exact ⟨given_first fields.1,given_first fields.2⟩
    case isFalse list =>
      rw [if_neg list, if_neg list] at acted
      split
      case isTrue address =>
        rw [if_pos address, if_pos address] at acted
        by_contra neither
        obtain ⟨none_given,some_address⟩ := not_or.mp neither
        rw [not_not.mp none_given] at acted
        obtain ⟨shown,there⟩ := Option.ne_none_iff_exists'.mp some_address
        rw [there] at acted
        exact address_opened (call.base58 shown (by rw [there]; rfl)) acted
      case isFalse address =>
        rw [if_neg address, if_neg address] at acted
        split
        case isFalse => trivial
        case isTrue asked =>
          by_contra neither
          obtain ⟨none_given,valid⟩ := not_or.mp neither
          have left_uri : filled.uri = some "bitcoin:".toList := rfl
          rw [not_not.mp none_given, Bool.eq_true_of_not_eq_false valid, Option.none_or,
            left_uri, isBitcoinUri_asked asked] at acted
          cases acted

end Fields

/-- What a URL that can be read brings about is the same after each history exactly if it gives
    itself what its action takes from the controller. -/
theorem same_effects_iff (W : Wallet) (bread : call.url.scheme = some "bread".toList)
    (reads : ∀ part ∈ queryComponents call.url, ∃ pair, readPair part = .ok pair) :
    (∀ s, effects W s call = effects W {} call) ↔ GivesItsOwn W call := by
  obtain ⟨fresh,fresh_effects,started⟩ := effects_action W bread reads {}
  constructor
  · intro same
    obtain ⟨t,left_effects,left⟩ := effects_action W bread reads filled
    have both := same filled
    rw [left_effects, fresh_effects] at both
    exact own_of_action left started (Option.some.inj both)
  · intro own s
    obtain ⟨t,some_effects,left⟩ := effects_action W bread reads s
    rw [some_effects, fresh_effects, action_own left started own]

end Histories

/-- A URL whose query sets a callback, with a letter that is passed over. -/
def setsCallback : Call where
  url := (URL.ofString "bread://x?x-success+zh:".toList).get (by decide)
  made := by decide
  receiveAddress := none
  base58 := fun address there => absurd there (Option.not_mem_none address)

/-- A URL that asks for the list of addresses, and has no query. -/
def asksForList : Call where
  url := (URL.ofString "bread://addresslist".toList).get (by decide)
  made := by decide
  receiveAddress := none
  base58 := fun address there => absurd there (Option.not_mem_none address)

end URLHandling
