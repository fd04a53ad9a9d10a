import AltMessenger.PercentEscapes
import AltMessenger.SwiftRuntime
import AltMessenger.SwiftURL

/-!
Payment requests, read from the text of a URL: a URL without a host gets two slashes behind its
scheme, so that the address becomes its host.
-/
namespace PaymentRequests
open SwiftRuntime SwiftText SwiftURL PercentEscapes

/-- What a payment request asks of the rest of the wallet: whether a text is an address, and the
    amount that a text names. -/
structure Wallet where
  isValidAddress : List Char → Bool
  satoshis : List Char → Option UInt64

inductive PaymentRequestType where
  | direct
  | remote
  deriving DecidableEq, Repr

structure PaymentRequest where
  toAddress : Option (List Char) := none
  type : PaymentRequestType := .direct
  amount : Option UInt64 := none
  label : Option (List Char) := none
  message : Option (List Char) := none
  remoteRequest : Option URL := none
  r : Option URL := none
  deriving DecidableEq, Repr

/-- `CharacterSet.whitespacesAndNewlines` -/
def isWhitespaceOrNewline (c : Char) : Bool :=
  let n := c.toNat
  9 ≤ n && n ≤ 13 || n = 0x20 || n = 0x85 || n = 0xA0 || n = 0x1680 || 0x2000 ≤ n && n ≤ 0x200A ||
    n = 0x2028 || n = 0x2029 || n = 0x202F || n = 0x205F || n = 0x3000

def trimmingCharacters (text : List Char) : List Char :=
  (text.dropWhile isWhitespaceOrNewline).rdropWhile isWhitespaceOrNewline

/-- `NSURL.resourceSpecifier`, what follows the scheme -/
def resourceSpecifier (url : URL) : List Char := (splitScheme url.absoluteString).2

/-- Plus signs replaced by spaces, in the text of a URL. -/
def spaced (text : List Char) : List Char := text.map fun c => if c = '+' then ' ' else c

/-- The body of the loop over the components of the query. -/
def readComponent (W : Wallet) (request : PaymentRequest) (component : List Char) :
    Except Trap PaymentRequest :=
  match components component '=' with
  | key :: _ :: _ => do
    let value ← unwrap (decode (spaced (component.drop (key.length + 1))))
    if key = "amount".toList then .ok { request with amount := W.satoshis value }
    else if key = "label".toList then .ok { request with label := some value }
    else if key = "message".toList then .ok { request with message := some value }
    else if key = "r".toList then .ok { request with r := URL.ofString value }
    else .ok request
  | _ => .ok request

/-- The request that the address in front of the query makes with it. -/
def readPayment (W : Wallet) (url : URL) : Except Trap (Option PaymentRequest) :=
  match url.host with
  | some host =>
    if url.scheme = some "bitcoin".toList then
      match url.query with
      | none => .ok (some { toAddress := some host })
      | some query => do
        let request ← (components query '&').foldlM (readComponent W) { toAddress := some host }
        .ok (some { request with
          type := if request.r = none then .direct else .remote })
    else .ok none
  | none => .ok none

def ofURL (W : Wallet) (url : URL) : Except Trap (Option PaymentRequest) :=
  match url.scheme, url.host with
  | some scheme, none => do
    let url ← unwrap (URL.ofString (scheme ++ "://".toList ++ resourceSpecifier url))
    readPayment W url
  | scheme, _ =>
    if scheme = some "http".toList || scheme = some "https".toList then
      .ok (some { type := .remote, remoteRequest := some url })
    else .ok none

/-- `PaymentRequest.init?(string:)` -/
def PaymentRequest.ofString (W : Wallet) (string : List Char) :
    Except Trap (Option PaymentRequest) := do
  let request ←
    match URL.ofString ((trimmingCharacters string).flatMap fun c =>
      if c = ' ' then "%20".toList else [c]) with
    | some url => ofURL W url
    | none => .ok none
  match request with
  | some request => .ok (some request)
  | none =>
    if W.isValidAddress string then .ok (some { toAddress := some string }) else .ok none

/-- The text of the URL that a string is read as, without blanks at its ends and with the others
    escaped. -/
def urlText (string : List Char) : List Char :=
  (trimmingCharacters string).flatMap fun c => if c = ' ' then "%20".toList else [c]

theorem ofString_eq (W : Wallet) (string : List Char) :
    PaymentRequest.ofString W string = (match URL.ofString (urlText string) with
      | some url => ofURL W url
      | none => .ok none) >>= fun request =>
        match request with
        | some request => .ok (some request)
        | none =>
          if W.isValidAddress string then .ok (some { toAddress := some string }) else .ok none := by
  unfold PaymentRequest.ofString urlText
  dsimp only
  split <;> rfl

/-- The value behind the first equals sign is one of UTF-8. -/
def FieldEscaped (component : List Char) : Prop :=
  ∀ key value, component = key ++ '=' :: value → '=' ∉ key → ∃ plain, decode value = some plain

def QueryEscaped (url : URL) : Prop :=
  ∀ query, url.query = some query → ∀ component ∈ components query '&', FieldEscaped component

section Components
variable {W : Wallet}

theorem plus_cuts : Cuts '+' := by unfold Cuts; decide

theorem space_cuts : Cuts ' ' := by unfold Cuts; decide

theorem spaced_decodes (text : List Char) :
    (∃ plain, decode (spaced text) = some plain) ↔ ∃ plain, decode text = some plain := by
  refine decodes_exchanged ?_ []
  induction text with
  | nil => exact List.Forall₂.nil
  | cons c text ih =>
    refine List.Forall₂.cons ?_ ih
    by_cases plus : c = '+'
    · dsimp only
      rw [if_pos plus, plus]
      exact Or.inr ⟨space_cuts,plus_cuts⟩
    · exact Or.inl (if_neg plus)

theorem readComponent_returns_iff (request : PaymentRequest) (component : List Char) :
    (∃ next, readComponent W request component = .ok next) ↔ FieldEscaped component := by
  rcases separator_first component '=' with none_there | ⟨key,value,parts,before⟩
  · refine iff_of_true ⟨request,?_⟩ fun key value parts _ => ?_
    · rw [readComponent, components_single none_there]
    · rw [parts] at none_there
      exact absurd (List.mem_append_right _ List.mem_cons_self) none_there
  · obtain ⟨second,others,cut⟩ := List.exists_cons_of_ne_nil (List.splitOn_ne_nil '=' value)
    have behind : component.drop (key.length + 1) = value := by
      rw [parts, ← List.drop_drop, List.drop_left]
      rfl
    have escaped : FieldEscaped component ↔ ∃ plain, decode value = some plain := by
      constructor
      · exact fun field => field key value parts before
      · intro plain key' value' parts' before'
        rwa [← (first_unique before before' (parts.symm.trans parts')).2]
    rw [escaped, ← spaced_decodes, readComponent, parts, components_first before, components, cut]
    dsimp only
    rw [← parts, behind]
    constructor
    · rintro ⟨next,ran⟩
      obtain ⟨plain,decoded,-⟩ := bind_ran.mp ran
      exact ⟨plain,unwrap_ok.mp decoded⟩
    · rintro ⟨plain,decoded⟩
      rw [bind_ready (unwrap_ok.mpr decoded)]
      split
      · exact ⟨_,rfl⟩
      · split
        · exact ⟨_,rfl⟩
        · split
          · exact ⟨_,rfl⟩
          · split <;> exact ⟨_,rfl⟩

end Components

section Texts
variable {text : List Char} {url : URL}

theorem hexDigit_legal {c : Char} (digit : isHexDigit c = true) : isURLChar c = true := by
  refine Bool.or_eq_true_iff.mpr (Or.inl ((alphanum_iff c).mpr ?_))
  simp only [isHexDigit, Char.isDigit, Char.le_def, Bool.or_eq_true, Bool.and_eq_true,
    decide_eq_true_eq, ge_iff_le, UInt32.le_iff_toNat_le] at digit
  change (48 ≤ c.toNat ∧ c.toNat ≤ 57 ∨ 97 ≤ c.toNat ∧ c.toNat ≤ 102) ∨
    65 ≤ c.toNat ∧ c.toNat ≤ 70 at digit
  omega

theorem legal_mem {sawHash : Bool} (legal : isLegal sawHash text = true) :
    ∀ c ∈ text, isURLChar c = true ∨ c = '%' ∨ c = '#' := by
  fun_induction isLegal sawHash text with
  | case1 => exact fun c there => absurd there List.not_mem_nil
  | case2 sawHash high low text ih =>
    obtain ⟨digits,later⟩ := Bool.and_eq_true_iff.mp legal
    obtain ⟨first,second⟩ := Bool.and_eq_true_iff.mp digits
    intro c there
    rcases List.mem_cons.mp there with percent | there
    · exact Or.inr (Or.inl percent)
    · rcases List.mem_cons.mp there with same | there
      · exact Or.inl (same ▸ hexDigit_legal first)
      · rcases List.mem_cons.mp there with same | there
        · exact Or.inl (same ▸ hexDigit_legal second)
        · exact ih later c there
  | case3 sawHash text ih =>
    obtain ⟨-,later⟩ := Bool.and_eq_true_iff.mp legal
    intro c there
    rcases List.mem_cons.mp there with hash | there
    · exact Or.inr (Or.inr hash)
    · exact ih later c there
  | case4 sawHash d text _ _ ih =>
    obtain ⟨plain,later⟩ := Bool.and_eq_true_iff.mp legal
    intro c there
    rcases List.mem_cons.mp there with same | there
    · exact Or.inl (same ▸ plain)
    · exact ih later c there

theorem legal_plain {c : Char} (legal : isURLChar c = true ∨ c = '%' ∨ c = '#') :
    isWhitespaceOrNewline c = false ∧ c ≠ ' ' := by
  rcases legal with inside | percent | hash
  · rcases Bool.or_eq_true_iff.mp inside with letter | sign
    · have range := (alphanum_iff c).mp letter
      constructor
      · simp only [isWhitespaceOrNewline, Bool.or_eq_false_iff, Bool.and_eq_false_iff,
          decide_eq_false_iff_not]
        omega
      · intro space
        rw [space] at letter
        exact absurd letter (by decide)
    · have each : ("-_.!~*'();/?:@&=+$,[]".toList.all fun d =>
          decide (isWhitespaceOrNewline d = false ∧ d ≠ ' ')) = true := by decide
      exact of_decide_eq_true (List.all_eq_true.mp each c (List.contains_iff_mem.mp sign))
  · rw [percent]
    decide
  · rw [hash]
    decide

theorem made_legal (made : URL.ofString text = some url) : isLegal false text = true := by
  unfold URL.ofString at made
  split at made
  case isTrue both => exact (Bool.and_eq_true_iff.mp both).2
  case isFalse => cases made

theorem dropWhile_none {p : Char → Bool} (none_there : ∀ c ∈ text, p c = false) :
    text.dropWhile p = text := by
  cases text with
  | nil => rfl
  | cons c text =>
    rw [List.dropWhile_cons, if_neg (by rw [none_there c List.mem_cons_self]; decide)]

/-- The text of a URL is not changed before it is read. -/
theorem text_kept (made : URL.ofString text = some url) :
    ((trimmingCharacters text).flatMap fun c => if c = ' ' then "%20".toList else [c]) = text := by
  have plain := fun c there => legal_plain (legal_mem (made_legal made) c there)
  have trimmed : trimmingCharacters text = text := by
    have backward : ∀ c ∈ text.reverse, isWhitespaceOrNewline c = false :=
      fun c there => (plain c (List.mem_reverse.mp there)).1
    rw [trimmingCharacters, dropWhile_none fun c there => (plain c there).1, List.rdropWhile,
      dropWhile_none backward, List.reverse_reverse]
  have each : ∀ c ∈ text, (if c = ' ' then "%20".toList else [c]) = [c] :=
    fun c there => if_neg (plain c there).2
  rw [trimmed, List.flatMap_congr each, List.flatMap_singleton']

theorem made_parts (made : URL.ofString text = some url) : url =
    { absoluteString := text
      scheme := (splitScheme text).1
      host := (splitAuthority (splitScheme text).2).1.map fun authority =>
        hostOf (hostAndPort authority)
      port := (splitAuthority (splitScheme text).2).1.bind fun authority =>
        portOf (hostAndPort authority)
      path := (splitAuthority (splitScheme text).2).2.takeWhile fun c => c ≠ '?' && c ≠ '#'
      query := queryOf (splitAuthority (splitScheme text).2).2 } := by
  unfold URL.ofString at made
  split at made
  case isTrue => exact (Option.some.inj made).symm
  case isFalse => cases made

theorem splitScheme_some {scheme : List Char} (named : (splitScheme text).1 = some scheme) :
    text = scheme ++ ':' :: (splitScheme text).2 ∧ ∀ c ∈ scheme, isSchemeChar c = true := by
  unfold splitScheme at named ⊢
  split at named
  case h_1 rest behind =>
    cases named
    refine ⟨?_,fun c there => List.mem_takeWhile_imp there⟩
    rw [← behind, List.takeWhile_append_dropWhile]
  case h_2 => cases named

theorem splitScheme_made {scheme : List Char} (plain : ∀ c ∈ scheme, isSchemeChar c = true)
    (rest : List Char) : splitScheme (scheme ++ ':' :: rest) = (some scheme, rest) := by
  have colon : isSchemeChar ':' = false := by decide
  unfold splitScheme
  rw [List.dropWhile_append_of_pos plain, List.dropWhile_cons_of_neg (by rw [colon]; decide),
    List.takeWhile_append_of_pos plain, List.takeWhile_cons_of_neg (by rw [colon]; decide),
    List.append_nil]
  rfl

theorem splitAuthority_none (absent : (splitAuthority text).1 = none) :
    (splitAuthority text).2 = text := by
  unfold splitAuthority at absent ⊢
  split at absent
  · cases absent
  · rfl

theorem schemeChar_legal {c : Char} (scheme : isSchemeChar c = true) : isURLChar c = true := by
  simp only [isSchemeChar, Bool.or_eq_true, decide_eq_true_eq] at scheme
  rcases scheme with ((letter | plus) | dash) | dot
  · exact Bool.or_eq_true_iff.mpr (Or.inl letter)
  · rw [plus]
    decide
  · rw [dash]
    decide
  · rw [dot]
    decide

/-- An authority has no query. -/
theorem queryOf_authority (rest : List Char) :
    queryOf (rest.dropWhile fun c => !endsAuthority c) = queryOf rest := by
  have both : (rest.dropWhile fun c => !endsAuthority c).dropWhile
      (fun c => c ≠ '?' && c ≠ '#') = rest.dropWhile fun c => c ≠ '?' && c ≠ '#' := by
    induction rest with
    | nil => rfl
    | cons c rest ih =>
      cases ends : endsAuthority c with
      | true => rw [List.dropWhile_cons_of_neg (by rw [ends]; decide)]
      | false =>
        have other : (decide (c ≠ '?') && decide (c ≠ '#')) = true := by
          simp only [endsAuthority, Bool.or_eq_false_iff, decide_eq_false_iff_not] at ends
          simp [ends]
        rw [List.dropWhile_cons_of_pos (by rw [ends]; rfl), ih,
          List.dropWhile_cons_of_pos (p := fun c => c ≠ '?' && c ≠ '#') other]
  unfold queryOf
  rw [both]

/-- A URL with a scheme and without a host is one again with two slashes behind the scheme: what
    follows them begins with a host, and the query stays. -/
theorem slashes_read {scheme : List Char} (made : URL.ofString text = some url)
    (named : url.scheme = some scheme) (no_host : url.host = none) :
    ∃ other host, URL.ofString (scheme ++ "://".toList ++ resourceSpecifier url) = some other ∧
      other.scheme = some scheme ∧ other.host = some host ∧ other.query = url.query := by
  have parts := made_parts made
  have legal := made_legal made
  rw [parts] at named no_host ⊢
  obtain ⟨whole,plain⟩ := splitScheme_some named
  have same := splitAuthority_none (Option.map_eq_none_iff.mp no_host)
  rw [resourceSpecifier]
  dsimp only
  generalize (splitScheme text).2 = rest at whole same ⊢
  have shape : scheme ++ "://".toList ++ rest = scheme ++ ':' :: '/' :: '/' :: rest := by simp
  have legal_scheme : ∀ c ∈ scheme, isURLChar c = true :=
    fun c there => schemeChar_legal (plain c there)
  rw [whole, isLegal_append legal_scheme, isLegal_cons (by decide)] at legal
  have again : isLegal false (scheme ++ ':' :: '/' :: '/' :: rest) = true := by
    rw [isLegal_append legal_scheme, isLegal_cons (by decide), isLegal_cons (by decide),
      isLegal_cons (by decide)]
    exact legal
  have condition : (decide (scheme ++ ':' :: '/' :: '/' :: rest ≠ []) &&
      isLegal false (scheme ++ ':' :: '/' :: '/' :: rest)) = true := by
    rw [again, Bool.and_true]
    exact decide_eq_true (List.append_ne_nil_of_right_ne_nil _ (List.cons_ne_nil _ _))
  rw [shape, URL.ofString, if_pos condition, splitScheme_made plain]
  dsimp only
  rw [splitAuthority_slashes, same]
  exact ⟨_,_,rfl,rfl,rfl,queryOf_authority rest⟩

theorem ofString_made (W : Wallet) (made : URL.ofString text = some url) :
    PaymentRequest.ofString W text = ofURL W url >>= fun request =>
      match request with
      | some request => .ok (some request)
      | none =>
        if W.isValidAddress text then .ok (some { toAddress := some text }) else .ok none := by
  rw [PaymentRequest.ofString, text_kept made, made]

theorem readPayment_returns_iff (W : Wallet) {host : List Char} (there : url.host = some host) :
    (∃ request, readPayment W url = .ok request) ↔
      (url.scheme = some "bitcoin".toList → QueryEscaped url) := by
  unfold readPayment QueryEscaped
  rw [there]
  dsimp only
  split
  case isFalse other => exact iff_of_true ⟨_,rfl⟩ fun scheme => absurd scheme other
  case isTrue scheme =>
    rw [imp_iff_right scheme]
    cases url.query with
    | none => exact iff_of_true ⟨_,rfl⟩ fun query some_query => nomatch some_query
    | some query =>
      have loop := foldlM_returns_iff (@readComponent_returns_iff W) (components query '&')
        { toAddress := some host }
      constructor
      · rintro ⟨request,ran⟩ query' same
        cases same
        obtain ⟨last,read,-⟩ := bind_ran.mp ran
        exact loop.mp ⟨last,read⟩
      · intro escaped
        obtain ⟨last,read⟩ := loop.mpr (escaped query rfl)
        exact ⟨_,bind_ready read⟩

theorem ofURL_returns_iff (W : Wallet) (made : URL.ofString text = some url) :
    (∃ request, ofURL W url = .ok request) ↔
      (url.scheme = some "bitcoin".toList → url.host = none → QueryEscaped url) := by
  have elsewhere (scheme : Option (List Char)) : ∃ request,
      (if scheme = some "http".toList || scheme = some "https".toList then
        .ok (some { type := .remote, remoteRequest := some url })
        else .ok none : Except Trap (Option PaymentRequest)) = .ok request := by
    split <;> exact ⟨_,rfl⟩
  unfold ofURL
  cases named : url.scheme with
  | none => exact iff_of_true (elsewhere none) fun scheme => nomatch scheme
  | some scheme =>
    cases at_host : url.host with
    | some host => exact iff_of_true (elsewhere _) fun _ none_there => nomatch none_there
    | none =>
      obtain ⟨other,host,read,other_scheme,other_host,other_query⟩ :=
        slashes_read made named at_host
      have same_query : QueryEscaped other ↔ QueryEscaped url := by
        unfold QueryEscaped
        rw [other_query]
      dsimp only
      rw [read, bind_ready (unwrap_ok.mpr rfl), readPayment_returns_iff W other_host, other_scheme,
        same_query]
      exact ⟨fun met scheme _ => met scheme,fun met scheme => met scheme rfl⟩

/-- A string is read as a payment request without a trap exactly if it is no payment or its query
    is one of UTF-8. -/
theorem ofString_returns (W : Wallet) (string : List Char) :
    (∃ request, PaymentRequest.ofString W string = .ok request) ↔
      ∀ url, URL.ofString (urlText string) = some url → url.scheme = some "bitcoin".toList →
        url.host = none → QueryEscaped url := by
  have goes_on (request : Option PaymentRequest) : ∃ last,
      (match request with
        | some request => .ok (some request)
        | none =>
          if W.isValidAddress string then .ok (some { toAddress := some string }) else .ok none :
        Except Trap (Option PaymentRequest)) = .ok last := by
    cases request with
    | some request => exact ⟨_,rfl⟩
    | none =>
      dsimp only
      split <;> exact ⟨_,rfl⟩
  rw [ofString_eq]
  cases made : URL.ofString (urlText string) with
  | none => exact iff_of_true (goes_on none) fun url other => nomatch other
  | some url =>
    simp only [Option.some.injEq, forall_eq']
    rw [← ofURL_returns_iff W made]
    constructor
    · rintro ⟨last,ran⟩
      obtain ⟨read,first,-⟩ := bind_ran.mp ran
      exact ⟨read,first⟩
    · rintro ⟨read,first⟩
      rw [bind_ready first]
      exact goes_on read

/-- The text of a URL is no other text before it is read. -/
theorem ofString_returns_iff (W : Wallet) (made : URL.ofString text = some url) :
    (∃ request, PaymentRequest.ofString W text = .ok request) ↔
      (url.scheme = some "bitcoin".toList → url.host = none → QueryEscaped url) := by
  have kept : urlText text = text := text_kept made
  rw [ofString_returns, kept, made]
  simp only [Option.some.injEq, forall_eq']

/-- A URL with another scheme is a payment request only as an address. -/
theorem ofString_other (W : Wallet) (made : URL.ofString text = some url) {scheme : List Char}
    (named : url.scheme = some scheme) (not_payment : scheme ≠ "bitcoin".toList)
    (not_web : scheme ≠ "http".toList ∧ scheme ≠ "https".toList) :
    PaymentRequest.ofString W text = .ok
      (if W.isValidAddress text then some { toAddress := some text } else none) := by
  have nothing : ofURL W url = .ok none := by
    unfold ofURL
    rw [named]
    cases at_host : url.host with
    | some host =>
      have no_web : ¬ (decide (some scheme = some "http".toList) ||
          decide (some scheme = some "https".toList)) = true := by
        simp only [Option.some.injEq, Bool.or_eq_true, decide_eq_true_eq, not_or]
        exact not_web
      dsimp only
      rw [if_neg no_web]
    | none =>
      obtain ⟨other,host,read,other_scheme,other_host,-⟩ := slashes_read made named at_host
      dsimp only
      rw [read, bind_ready (unwrap_ok.mpr rfl), readPayment, other_host]
      dsimp only
      rw [other_scheme, if_neg fun same => not_payment (Option.some.inj same)]
  rw [ofString_made W made, nothing, bind_ready rfl]
  dsimp only
  split <;> rfl

end Texts

end PaymentRequests
