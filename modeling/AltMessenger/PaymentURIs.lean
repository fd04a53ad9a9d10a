import AltMessenger.PaymentRequests
import AltMessenger.PublicAddress
import AltMessenger.SwiftDecimal

/-!
Payment URIs that are pasted, scanned or opened: what is written for an address and an amount, and
what is read of it, and the texts that a URI may carry besides.
-/
namespace PaymentURIs
open SwiftRuntime SwiftText SwiftURL SwiftDecimal UTF8Text PercentEscapes PaymentRequests
open PublicAddress (ALPHABET)

/-- `Satoshis(btcString:)` -/
def satoshis (btcString : List Char) : Option UInt64 :=
  (scanDecimal isWhitespaceOrNewline btcString).map fun decimal =>
    (decimal.multiplyByPowerOf10 8).uint64Value

def convertToBTC (fromSatoshis : UInt64) : List Char :=
  ((Decimal.ofNat fromSatoshis.toNat).multiplyByPowerOf10 (-8)).stringValue

def amountQuery (forAmount : UInt64) : List Char :=
  "amount".toList ++ '=' :: convertToBTC forAmount

/-- What is behind the scheme of a URI that asks for an amount. -/
def specifier (withAddress : List Char) (forAmount : UInt64) : List Char :=
  withAddress ++ '?' :: amountQuery forAmount

def requestString (withAddress : List Char) (forAmount : UInt64) : List Char :=
  "bitcoin".toList ++ ':' :: specifier withAddress forAmount

/-- The wallet, with its own reading of amounts. -/
def wallet (isValidAddress : List Char → Bool) : Wallet := { isValidAddress, satoshis }

/-- A parameter of text. -/
inductive TextField where
  | label | message
  deriving DecidableEq, Repr

def TextField.key : TextField → List Char
  | .label => "label".toList
  | .message => "message".toList

def TextField.of (field : TextField) (request : PaymentRequest) : Option (List Char) :=
  match field with
  | .label => request.label
  | .message => request.message

/-- The string is read as a URI of the scheme, without an authority and with a query. -/
def PaymentQuery (string query : List Char) : Prop :=
  ∃ url, URL.ofString (urlText string) = some url ∧ url.scheme = some "bitcoin".toList ∧
    url.host = none ∧ url.query = some query

/-- The last parameter of the field, among any others. -/
def Carries (query : List Char) (field : TextField) (value : List Char) : Prop :=
  ∃ front back, components query '&' = front ++ (field.key ++ '=' :: value) :: back ∧
    ∀ component ∈ back, ¬ field.key ++ ['='] <+: component

/-- A string is read without a trap, what was written for an address and an amount as the request
    for them, and the texts of a URI as what their escapes stand for. -/
structure ReadsRight (isValidAddress : List Char → Bool) (string : List Char) : Prop where
  returns : ∃ result, PaymentRequest.ofString (wallet isValidAddress) string = .ok result
  round_trip : ∀ address amount, address ≠ [] → (∀ c ∈ address, c ∈ ALPHABET) →
    amount.toNat ≤ 21 * 10 ^ 14 → string = requestString address amount →
    PaymentRequest.ofString (wallet isValidAddress) string =
      .ok (some { toAddress := some address, type := .direct, amount := some amount })
  recovers : ∀ query field value plain, PaymentQuery string query → Carries query field value →
    decode value = some plain →
    ∃ request, PaymentRequest.ofString (wallet isValidAddress) string = .ok (some request) ∧
      field.of request = some plain

/-- The values of a query are texts with their escapes, and those of the label and the message have
    no plus sign in them. -/
def Plain (query : List Char) : Prop :=
  (∀ component ∈ components query '&', FieldEscaped component) ∧
    ∀ field value, Carries query field value → '+' ∉ value

section Amounts

/-- An amount is read as what was written for it. -/
theorem satoshis_convertToBTC (amount : UInt64) : satoshis (convertToBTC amount) = some amount := by
  have kept : ∀ c ∈ decimal.letters, isWhitespaceOrNewline c = false := each_of_all (by decide)
  have positive : ((Decimal.ofNat amount.toNat).multiplyByPowerOf10 (-8)).negative = false :=
    compact_negative _ _
  obtain ⟨read,scanned,sign,same⟩ := scan_stringValue kept positive
  have whole : (read.multiplyByPowerOf10 8).value = (amount.toNat : Nat) := by
    rw [multiplyByPowerOf10_value, same, multiplyByPowerOf10_value, ofNat_value]
    norm_num
    ring
  have sign_kept : (read.multiplyByPowerOf10 8).negative = false := sign
  rw [satoshis, convertToBTC, scanned, Option.map_some, uint64Value_ofNat sign_kept whole,
    UInt64.ofNat_toNat]

theorem convertToBTC_mem (amount : UInt64) :
    ∀ c ∈ convertToBTC amount, c ∈ decimal.letters ∨ c = '.' :=
  stringValue_mem (compact_negative _ _)

end Amounts

section Decoding
variable {text plain : List Char}

/-- A text without escapes stands for itself. -/
theorem decode_plain (none_there : '%' ∉ text) : decode text = some text := by
  have bytes : unescape text = some (utf8 text) := by
    induction text with
    | nil => rfl
    | cons c text ih =>
      have other : c ≠ '%' := fun same => none_there (List.mem_cons.mpr (Or.inl same.symm))
      rw [unescape_cons other, ih fun there => none_there (List.mem_cons_of_mem c there)]
      rfl
  rw [decode, bytes, Option.bind_some, ofUTF8_utf8]

theorem spaced_none (none_there : '+' ∉ text) : spaced text = text := by
  refine (List.map_congr_left fun c there => ?_).trans (List.map_id' text)
  refine if_neg ?_
  rintro rfl
  exact none_there there

theorem hex_plain {c : Char} {n : Nat} (digit : hexValue c = some n) : c ≠ '+' := by
  rintro rfl
  cases digit

/-- The parts of an escape and what is behind it. -/
theorem unescape_escape {high low : Char} {bytes : List UInt8}
    (read : unescape ('%' :: high :: low :: text) = some bytes) :
    ∃ h l rest, hexValue high = some h ∧ hexValue low = some l ∧ unescape text = some rest ∧
      bytes = UInt8.ofNat (16 * h + l) :: rest := by
  rw [unescape] at read
  obtain ⟨rest,behind,read⟩ := Option.bind_eq_some_iff.mp read
  obtain ⟨h,first,read⟩ := Option.bind_eq_some_iff.mp read
  obtain ⟨l,second,read⟩ := Option.bind_eq_some_iff.mp read
  exact ⟨h,l,rest,first,second,behind,(Option.some.inj read).symm⟩

/-- Bytes that stay the same where plus signs become spaces are those of a text without any. -/
theorem unescape_spaced_same {bytes : List UInt8} (read : unescape text = some bytes)
    (spaced_read : unescape (spaced text) = some bytes) : '+' ∉ text := by
  fun_induction unescape text generalizing bytes with
  | case1 => exact List.not_mem_nil
  | case2 high low text ih =>
    obtain ⟨h,l,rest,first,second,behind,rfl⟩ := unescape_escape read
    have shape : spaced ('%' :: high :: low :: text) = '%' :: high :: low :: spaced text := by
      rw [spaced, List.map_cons, List.map_cons, List.map_cons, if_neg (hex_plain first),
        if_neg (hex_plain second)]
      rfl
    rw [shape] at spaced_read
    obtain ⟨_,_,rest',_,_,spaced_behind,same⟩ := unescape_escape spaced_read
    obtain ⟨_,rfl⟩ := List.cons.inj same
    have later := ih behind spaced_behind
    intro there
    rcases List.mem_cons.mp there with other | there
    · exact absurd other (by decide)
    · rcases List.mem_cons.mp there with other | there
      · exact hex_plain first other.symm
      · rcases List.mem_cons.mp there with other | there
        · exact hex_plain second other.symm
        · exact later there
  | case3 => cases read
  | case4 c text no_escape no_percent ih =>
    have plain : c ≠ '%' := fun same => no_percent same
    obtain ⟨rest,behind,rfl⟩ := Option.map_eq_some_iff.mp read
    by_cases plus : c = '+'
    case pos =>
      have shape : spaced (c :: text) = ' ' :: spaced text := by
        rw [spaced, List.map_cons, if_pos plus]
        rfl
      rw [shape, unescape_cons (by decide)] at spaced_read
      obtain ⟨rest',_,same⟩ := Option.map_eq_some_iff.mp spaced_read
      rw [plus] at same
      exact absurd (List.cons.inj same).1 (by decide)
    case neg =>
      have shape : spaced (c :: text) = c :: spaced text := by
        rw [spaced, List.map_cons, if_neg plus]
        rfl
      rw [shape, unescape_cons plain] at spaced_read
      obtain ⟨rest',spaced_behind,same⟩ := Option.map_eq_some_iff.mp spaced_read
      have rests := List.append_cancel_left same
      rw [rests] at spaced_behind
      intro there
      rcases List.mem_cons.mp there with other | there
      · exact plus other.symm
      · exact ih behind spaced_behind there

/-- What the escapes of a value stand for is read of it exactly if there is no plus sign. -/
theorem decode_spaced_iff (decoded : decode text = some plain) :
    decode (spaced text) = some plain ↔ '+' ∉ text := by
  constructor
  · intro spaced_decoded
    obtain ⟨bytes,read,whole⟩ := Option.bind_eq_some_iff.mp decoded
    obtain ⟨bytes',spaced_read,whole'⟩ := Option.bind_eq_some_iff.mp spaced_decoded
    rw [← ofUTF8_iff.mp whole] at read
    rw [← ofUTF8_iff.mp whole'] at spaced_read
    exact unescape_spaced_same read spaced_read
  · intro none_there
    rw [spaced_none none_there]
    exact decoded

end Decoding

section Fields
variable {W : Wallet} {request next : PaymentRequest} {field : TextField}
variable {component key value plain : List Char}

theorem readComponent_bare (none_there : '=' ∉ component) :
    readComponent W request component = .ok request := by
  rw [readComponent, components_single none_there]

theorem readComponent_pair (before : '=' ∉ key) :
    readComponent W request (key ++ '=' :: value) = (do
      let value ← unwrap (decode (spaced value))
      if key = "amount".toList then .ok { request with amount := W.satoshis value }
      else if key = "label".toList then .ok { request with label := some value }
      else if key = "message".toList then .ok { request with message := some value }
      else if key = "r".toList then .ok { request with r := URL.ofString value }
      else .ok request) := by
  obtain ⟨second,others,cut⟩ := List.exists_cons_of_ne_nil (List.splitOn_ne_nil '=' value)
  have behind : (key ++ '=' :: value).drop (key.length + 1) = value := by
    rw [← List.drop_drop, List.drop_left]
    rfl
  rw [readComponent, components_first before, components, cut]
  dsimp only
  rw [behind]

theorem key_plain (field : TextField) : '=' ∉ field.key := by
  cases field <;> decide

theorem readComponent_field (decoded : decode (spaced value) = some plain) :
    ∃ next, readComponent W request (field.key ++ '=' :: value) = .ok next ∧
      field.of next = some plain := by
  rw [readComponent_pair (key_plain field), bind_ready (unwrap_ok.mpr decoded)]
  cases field with
  | label => exact ⟨_,rfl,rfl⟩
  | message => exact ⟨_,rfl,rfl⟩

/-- Another parameter leaves the field as it is. -/
theorem readComponent_other (other : ¬ field.key ++ ['='] <+: component)
    (run : readComponent W request component = .ok next) : field.of next = field.of request := by
  rcases separator_first component '=' with none_there | ⟨key,value,rfl,before⟩
  · rw [readComponent_bare none_there] at run
    cases run
    rfl
  · have unlike : key ≠ field.key := by
      rintro rfl
      exact other ⟨value,by rw [List.append_assoc]; rfl⟩
    rw [readComponent_pair before] at run
    obtain ⟨text,_,run⟩ := bind_ran.mp run
    split_ifs at run with amount label message r
    · cases run
      cases field <;> rfl
    · cases run
      cases field with
      | label => exact absurd label unlike
      | message => rfl
    · cases run
      cases field with
      | label => rfl
      | message => exact absurd message unlike
    · cases run
      cases field <;> rfl
    · cases run
      rfl

theorem later_kept {back : List (List Char)}
    (others : ∀ component ∈ back, ¬ field.key ++ ['='] <+: component)
    (run : back.foldlM (readComponent W) request = .ok next) :
    field.of next = field.of request := by
  induction back generalizing request with
  | nil =>
    cases run
    rfl
  | cons component back ih =>
    rw [List.foldlM_cons] at run
    obtain ⟨middle,first,rest⟩ := bind_ran.mp run
    rw [ih (fun other there => others other (List.mem_cons_of_mem component there)) rest]
    exact readComponent_other (others component List.mem_cons_self) first

/-- A loop that comes to its end leaves in a field what its last parameter is read as. -/
theorem loop_field {query : List Char} (carried : Carries query field value)
    (decoded : decode (spaced value) = some plain)
    (run : (components query '&').foldlM (readComponent W) request = .ok next) :
    field.of next = some plain := by
  obtain ⟨front,back,parts,others⟩ := carried
  rw [parts, List.foldlM_append] at run
  obtain ⟨before,_,run⟩ := bind_ran.mp run
  rw [List.foldlM_cons] at run
  obtain ⟨after,read,rest⟩ := bind_ran.mp run
  obtain ⟨after',read',left⟩ : ∃ next,
      readComponent W before (field.key ++ '=' :: value) = .ok next ∧ field.of next = some plain :=
    readComponent_field decoded
  cases read.symm.trans read'
  rw [later_kept others rest, left]

end Fields

section Written
variable {text address : List Char} {amount : UInt64}

theorem plain_url (some_text : text ≠ []) (plain : ∀ c ∈ text, isURLChar c = true) :
    ∃ url, URL.ofString text = some url := by
  have legal : isLegal false text = true := by
    have whole := isLegal_append plain false []
    rw [List.append_nil] at whole
    exact whole
  unfold URL.ofString
  rw [if_pos (Bool.and_eq_true_iff.mpr ⟨decide_eq_true some_text,legal⟩)]
  exact ⟨_,rfl⟩

theorem amount_plain (amount : UInt64) {c : Char} (other : c ∉ decimal.letters)
    (no_point : c ≠ '.') : c ∉ convertToBTC amount := fun there =>
  (convertToBTC_mem amount c there).elim other no_point

theorem address_plain (letters : ∀ c ∈ address, c ∈ ALPHABET) {c : Char} (other : c ∉ ALPHABET) :
    c ∉ address := fun there => other (letters c there)

theorem amountQuery_plain (amount : UInt64) :
    ∀ c ∈ amountQuery amount, isURLChar c = true ∧ c ≠ '#' ∧ c ≠ '&' := by
  have all_digits : ∀ c ∈ decimal.letters, isURLChar c = true ∧ c ≠ '#' ∧ c ≠ '&' :=
    each_of_all (by decide)
  have name : ∀ c ∈ "amount".toList, isURLChar c = true ∧ c ≠ '#' ∧ c ≠ '&' :=
    each_of_all (by decide)
  intro c there
  rcases List.mem_append.mp there with there | there
  · exact name c there
  · rcases List.mem_cons.mp there with rfl | there
    · decide
    · rcases convertToBTC_mem amount c there with digit | rfl
      · exact all_digits c digit
      · decide

theorem specifier_plain (letters : ∀ c ∈ address, c ∈ ALPHABET) :
    ∀ c ∈ specifier address amount, isURLChar c = true := by
  have all_letters : ∀ c ∈ ALPHABET, isURLChar c = true := each_of_all (by decide)
  intro c there
  rcases List.mem_append.mp there with there | there
  · exact all_letters c (letters c there)
  · rcases List.mem_cons.mp there with rfl | there
    · decide
    · exact (amountQuery_plain amount c there).1

/-- A text that does not begin with a slash has no authority. -/
theorem splitAuthority_other {c : Char} (other : c ≠ '/') (text : List Char) :
    splitAuthority (c :: text) = (none,c :: text) := by
  unfold splitAuthority
  split
  case h_1 same => exact absurd (List.cons.inj same).1 other
  case h_2 => rfl

theorem takeWhile_front {p : Char → Bool} {front : List Char} {c : Char}
    (all : ∀ d ∈ front, p d = true) (ends : p c = false) (rest : List Char) :
    (front ++ c :: rest).takeWhile p = front ∧ (front ++ c :: rest).dropWhile p = c :: rest := by
  have outside : ¬ p c = true := by
    rw [ends]
    exact Bool.false_ne_true
  rw [List.takeWhile_append_of_pos all, List.dropWhile_append_of_pos all,
    List.takeWhile_cons_of_neg outside, List.dropWhile_cons_of_neg outside, List.append_nil]
  exact ⟨rfl,rfl⟩

theorem each_differs {text : List Char} {d : Char} (absent : d ∉ text) :
    ∀ c ∈ text, decide (c ≠ d) = true := by
  intro c there
  refine decide_eq_true ?_
  rintro rfl
  exact absent there

/-- The host of an address is the address. -/
theorem host_of_address (letters : ∀ c ∈ address, c ∈ ALPHABET) :
    hostOf (hostAndPort address) = address := by
  have no_user := each_differs (address_plain letters (by decide : '@' ∉ ALPHABET))
  have no_port := each_differs (address_plain letters (by decide : ':' ∉ ALPHABET))
  have alone : hostAndPort address = address := by
    unfold hostAndPort
    rw [List.dropWhile_eq_nil_iff.mpr no_user]
  rw [alone, hostOf, List.takeWhile_eq_self_iff.mpr no_port]

theorem queryOf_plain {query : List Char} (plain : '#' ∉ query) :
    queryOf ('?' :: query) = some query := by
  unfold queryOf
  rw [List.dropWhile_cons_of_neg (by decide)]
  exact congrArg some (List.takeWhile_eq_self_iff.mpr (each_differs plain))

/-- The URL with two slashes: its host is the address, and its query names the amount. -/
theorem slashes_url (amount : UInt64) (letters : ∀ c ∈ address, c ∈ ALPHABET) :
    ∃ url, URL.ofString ("bitcoin".toList ++ "://".toList ++ specifier address amount) = some url ∧
      url.scheme = some "bitcoin".toList ∧ url.host = some address ∧
      url.query = some (amountQuery amount) := by
  have scheme_plain : ∀ c ∈ "bitcoin".toList, isSchemeChar c = true := each_of_all (by decide)
  have front : ∀ c ∈ "bitcoin".toList ++ "://".toList, isURLChar c = true := each_of_all (by decide)
  have plain : ∀ c ∈ "bitcoin".toList ++ "://".toList ++ specifier address amount,
      isURLChar c = true := by
    intro c there
    rcases List.mem_append.mp there with there | there
    · exact front c there
    · exact specifier_plain letters c there
  obtain ⟨url,made⟩ := plain_url (by simp) plain
  have inside : ∀ c ∈ address, (!endsAuthority c) = true := by
    have all : ∀ c ∈ ALPHABET, (!endsAuthority c) = true := each_of_all (by decide)
    exact fun c there => all c (letters c there)
  obtain ⟨taken,left⟩ := takeWhile_front (c := '?') inside rfl (amountQuery amount)
  have split : splitScheme ("bitcoin".toList ++ "://".toList ++ specifier address amount) =
      (some "bitcoin".toList,'/' :: '/' :: specifier address amount) :=
    splitScheme_made scheme_plain _
  have parts := made_parts made
  rw [split] at parts
  dsimp only at parts
  rw [splitAuthority_slashes] at parts
  refine ⟨url,made,by rw [parts],?_,?_⟩
  · rw [parts]
    dsimp only
    rw [Option.map_some, specifier, taken, host_of_address letters]
  · rw [parts]
    dsimp only
    rw [specifier, left]
    exact queryOf_plain fun there => (amountQuery_plain amount _ there).2.1 rfl

theorem requestString_eq (address : List Char) (amount : UInt64) :
    requestString address amount = "bitcoin".toList ++ ':' :: specifier address amount := rfl

/-- What is written for an address and an amount is a URI without an authority. -/
theorem requestString_url (amount : UInt64) (some_address : address ≠ [])
    (letters : ∀ c ∈ address, c ∈ ALPHABET) :
    ∃ url, URL.ofString (requestString address amount) = some url ∧
      url.scheme = some "bitcoin".toList ∧ url.host = none ∧
      resourceSpecifier url = specifier address amount := by
  have scheme_plain : ∀ c ∈ "bitcoin".toList, isSchemeChar c = true := each_of_all (by decide)
  have front : ∀ c ∈ "bitcoin".toList, isURLChar c = true := each_of_all (by decide)
  have plain : ∀ c ∈ requestString address amount, isURLChar c = true := by
    rw [requestString_eq]
    intro c there
    rcases List.mem_append.mp there with there | there
    · exact front c there
    · rcases List.mem_cons.mp there with rfl | there
      · decide
      · exact specifier_plain letters c there
  have some_text : requestString address amount ≠ [] := by
    rw [requestString_eq]
    exact List.append_ne_nil_of_right_ne_nil _ (List.cons_ne_nil _ _)
  obtain ⟨url,made⟩ := plain_url some_text plain
  have split : splitScheme (requestString address amount) =
      (some "bitcoin".toList,specifier address amount) := by
    rw [requestString_eq]
    exact splitScheme_made scheme_plain _
  have no_authority : splitAuthority (specifier address amount) =
      (none,specifier address amount) := by
    obtain ⟨c,rest,rfl⟩ := List.exists_cons_of_ne_nil some_address
    have no_slash : c ≠ '/' := by
      rintro rfl
      exact absurd (letters _ List.mem_cons_self) (by decide)
    rw [specifier, List.cons_append]
    exact splitAuthority_other no_slash _
  have parts := made_parts made
  rw [split] at parts
  dsimp only at parts
  rw [no_authority] at parts
  have behind : resourceSpecifier url = specifier address amount := by
    rw [resourceSpecifier, parts]
    dsimp only
    rw [split]
  refine ⟨url,made,?_,?_,behind⟩
  · rw [parts]
  · rw [parts]
    dsimp only
    exact Option.map_none _

theorem amountQuery_read (isValidAddress : List Char → Bool) (request : PaymentRequest) :
    readComponent (wallet isValidAddress) request (amountQuery amount) =
      .ok { request with amount := some amount } := by
  have value : decode (spaced (convertToBTC amount)) = some (convertToBTC amount) := by
    rw [spaced_none (amount_plain amount (by decide) (by decide))]
    exact decode_plain (amount_plain amount (by decide) (by decide))
  have read : (wallet isValidAddress).satoshis (convertToBTC amount) = some amount :=
    satoshis_convertToBTC amount
  unfold amountQuery
  rw [readComponent_pair (by decide), bind_ready (unwrap_ok.mpr value), if_pos rfl, read]

/-- What was written is read as the request for it. -/
theorem requestString_read (isValidAddress : List Char → Bool) (some_address : address ≠ [])
    (letters : ∀ c ∈ address, c ∈ ALPHABET) :
    PaymentRequest.ofString (wallet isValidAddress) (requestString address amount) =
      .ok (some { toAddress := some address, type := .direct, amount := some amount }) := by
  obtain ⟨url,made,scheme,no_host,behind⟩ := requestString_url amount some_address letters
  obtain ⟨other,read,other_scheme,other_host,query⟩ := slashes_url amount letters
  have single : components (amountQuery amount) '&' = [amountQuery amount] :=
    components_single fun there => (amountQuery_plain amount _ there).2.2 rfl
  have payment : readPayment (wallet isValidAddress) other =
      .ok (some { toAddress := some address, type := .direct, amount := some amount }) := by
    rw [readPayment, other_host]
    dsimp only
    rw [if_pos other_scheme, query]
    dsimp only
    rw [single, List.foldlM_cons, bind_ready (amountQuery_read isValidAddress _)]
    rfl
  have parsed : ofURL (wallet isValidAddress) url =
      .ok (some { toAddress := some address, type := .direct, amount := some amount }) := by
    rw [ofURL, scheme, no_host]
    dsimp only
    rw [behind, read]
    exact payment
  rw [ofString_made (wallet isValidAddress) made, bind_ready parsed]

end Written

section Reading
variable {W : Wallet} {string query value plain : List Char} {field : TextField}

/-- A URI is read by the loop over its components, and its type follows. -/
theorem ofString_query (W : Wallet) (asked : PaymentQuery string query) :
    ∃ host, PaymentRequest.ofString W string = (do
      let request ← (components query '&').foldlM (readComponent W) { toAddress := some host }
      .ok (some { request with type := if request.r = none then .direct else .remote })) := by
  obtain ⟨url,made,scheme,no_host,behind⟩ := asked
  obtain ⟨other,host,read,other_scheme,other_host,other_query⟩ :=
    slashes_read made scheme no_host
  have parsed : ofURL W url = (do
      let request ← (components query '&').foldlM (readComponent W) { toAddress := some host }
      .ok (some { request with type := if request.r = none then .direct else .remote })) := by
    rw [ofURL, scheme, no_host]
    dsimp only
    rw [read, bind_ready (unwrap_ok.mpr rfl), readPayment, other_host]
    dsimp only
    rw [if_pos other_scheme, other_query, behind]
  refine ⟨host,?_⟩
  rw [ofString_eq, made]
  dsimp only
  rw [parsed]
  cases (components query '&').foldlM (readComponent W) { toAddress := some host } with
  | error trap => rfl
  | ok request => rfl

theorem field_typed (request : PaymentRequest) (type : PaymentRequestType) :
    field.of { request with type } = field.of request := by
  cases field <;> rfl

theorem carried_escaped
    (escaped : ∀ component ∈ components query '&', FieldEscaped component)
    (carried : Carries query field value) : ∃ plain, decode value = some plain := by
  obtain ⟨front,back,parts,_⟩ := carried
  have there : field.key ++ '=' :: value ∈ components query '&' := by
    rw [parts]
    exact List.mem_append_right _ List.mem_cons_self
  exact escaped _ there field.key value rfl (key_plain field)

/-- A query that is read leaves in a field the text of its last parameter, with its plus signs
    taken for spaces. -/
theorem recovered_spaced (asked : PaymentQuery string query)
    (escaped : ∀ component ∈ components query '&', FieldEscaped component)
    (carried : Carries query field value) (decoded : decode (spaced value) = some plain) :
    ∃ request, PaymentRequest.ofString W string = .ok (some request) ∧
      field.of request = some plain := by
  obtain ⟨host,whole⟩ := ofString_query W asked
  obtain ⟨last,loop⟩ := (foldlM_returns_iff (@readComponent_returns_iff W) (components query '&')
    { toAddress := some host }).mpr escaped
  refine ⟨_,by rw [whole, bind_ready loop],?_⟩
  rw [field_typed]
  exact loop_field carried decoded loop

theorem query_escaped (asked : PaymentQuery string query)
    (returns : ∃ result, PaymentRequest.ofString W string = .ok result) :
    ∀ component ∈ components query '&', FieldEscaped component := by
  obtain ⟨url,made,scheme,no_host,behind⟩ := asked
  exact (ofString_returns W string).mp returns url made scheme no_host query behind

/-- A string is read right exactly if it is no URI of the scheme with a query, or its query is
    plain. -/
theorem reads_right_iff (isValidAddress : List Char → Bool) (string : List Char) :
    ReadsRight isValidAddress string ↔ ∀ query, PaymentQuery string query → Plain query := by
  constructor
  · intro right query asked
    have escaped := query_escaped asked right.returns
    refine ⟨escaped,fun field value carried => ?_⟩
    obtain ⟨plain,decoded⟩ := carried_escaped escaped carried
    obtain ⟨text,spaced_decoded⟩ := (spaced_decodes value).mpr ⟨plain,decoded⟩
    obtain ⟨request,read,recovered⟩ := right.recovers query field value plain asked carried decoded
    obtain ⟨request',read',recovered'⟩ := recovered_spaced asked escaped carried spaced_decoded
    cases read.symm.trans read'
    have same : text = plain := Option.some.inj (recovered'.symm.trans recovered)
    rw [same] at spaced_decoded
    exact (decode_spaced_iff decoded).mp spaced_decoded
  · intro all
    refine ⟨?_,?_,?_⟩
    · refine (ofString_returns _ _).mpr fun url made scheme no_host query behind => ?_
      exact (all query ⟨url,made,scheme,no_host,behind⟩).1
    · rintro address amount some_address letters _ rfl
      exact requestString_read isValidAddress some_address letters
    · intro query field value plain asked carried decoded
      obtain ⟨escaped,no_plus⟩ := all query asked
      have same := (decode_spaced_iff decoded).mpr (no_plus field value carried)
      exact recovered_spaced asked escaped carried same

end Reading

/-- A label with an escape that is no text. -/
def brokenLabel : List Char := "bitcoin:1BoatSLRHtKNngkdXEeobR76b53LETtpyT?label=%FF".toList

theorem broken_label_traps :
    PaymentRequest.ofString (wallet fun _ => false) brokenLabel = .error .unwrap ∧
      ¬ ReadsRight (fun _ => false) brokenLabel := by
  have traps : PaymentRequest.ofString (wallet fun _ => false) brokenLabel = .error .unwrap := by
    decide +kernel
  refine ⟨traps,?_⟩
  rintro ⟨⟨result,run⟩,_⟩
  cases traps.symm.trans run

end PaymentURIs
