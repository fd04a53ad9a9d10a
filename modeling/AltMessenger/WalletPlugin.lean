import AltMessenger.APIProxy
import AltMessenger.SignBitID
import AltMessenger.SwiftFloat

/-!
A request of the local HTTP server on its way: it is read from the socket, the API proxy takes what
is under its mount point, and the router hands amounts to be formatted and messages to be signed to
the wallet's plugin.
-/
namespace WalletPlugin
open SwiftRuntime SwiftText SwiftURL SwiftFloat BinaryRounding HTTPRequest HTTPResponse APIProxy
open SignBitID

/-- What number formatters make of an amount with an exchange rate: in its currency, with the format
    of a negative amount, and in bitcoin, with the power of ten as well. -/
structure Rate where
  localString : List Char → UInt64 → Option (List Char)
  btcString : List Char → Int → UInt64 → Option (List Char)

/-- The store's state as far as amounts are formatted by it, and the pattern of the current locale
    for currencies. -/
structure Display where
  currentRate : Option Rate
  maxDigits : Int64
  positiveFormat : List Char

/-- `UInt64(_:)` of an `Int64` -/
def uint64 (i : Int) : Except Trap UInt64 :=
  if 0 ≤ i then .ok (UInt64.ofNat i.toNat) else .error .conversion

/-- `Int16(_:)` -/
def int16 (i : Int) : Except Trap Int :=
  if -2 ^ 15 ≤ i ∧ i < 2 ^ 15 then .ok i else .error .conversion

/-- `format.positiveFormat.range(of: "#")!`, and a sign put before it -/
def negativeFormat (positiveFormat : List Char) : Except Trap (List Char) := do
  let i ← unwrap (positiveFormat.findIdx? fun c => c = '#')
  .ok (positiveFormat.take i ++ "-#".toList ++ positiveFormat.drop (i + 1))

namespace Display

def localCurrency (display : Display) (rate : Rate) (amount : UInt64) :
    Except Trap (List Char) := do
  let negative ← negativeFormat display.positiveFormat
  .ok ((rate.localString negative amount).getD [])

def bits (display : Display) (rate : Rate) (amount : UInt64) : Except Trap (List Char) := do
  let digits ← subInt64 0 display.maxDigits
  let power ← int16 digits.toInt
  let negative ← negativeFormat display.positiveFormat
  .ok ((rate.btcString negative power amount).getD [])

def currencyFormat (display : Display) (amount : Int) :
    Except Trap (List (List Char × List Char)) :=
  match display.currentRate with
  | some rate => do
    let amount ← uint64 amount
    let localCurrency ← display.localCurrency rate amount
    let bits ← display.bits rate amount
    .ok [("local_currency_amount".toList, localCurrency),("currency_amount".toList, bits)]
  | none => .ok []

end Display

/-- An amount with a point is one of bitcoins, and one without a point of their smallest parts. -/
def intAmount (amount : List Char) : Except Trap Int :=
  if amount.contains '.' then
    match float amount with
    | some x => SwiftFloat.int64 (single.mul x (.finite 100000000))
    | none => .ok 0
  else .ok ((int amount).getD 0)

/-- What the server runs in. -/
structure Surroundings (Key : Type) where
  client : Client
  display : Display
  wallet : Wallet Key
  json : Json
  serialize : List (List Char × List Char) → Data
  /-- how much of a body has arrived when a piece of it is asked for -/
  arrived : Nat → Nat
  isPresentingAuth : Bool
  tempBitIDKeys : List Char → Option Key
  /-- what becomes of a prompt, and whether the recovery phrase can be read then -/
  result : BitIdAuthResult
  phrase : Bool

inductive Outcome where
  | proxied (nsReq : URLRequest)
  | response (response : Response)
  /-- another route's, or another middleware's -/
  | elsewhere
  deriving DecidableEq

def mountPoint : List Char := "/_api".toList

/-- The `match` of a route that captures nothing: a slash at the end is not looked at, and the `$`
    of the pattern is before a line terminator, too. -/
def matchesRoute (method path : List Char) (request : Request) : Bool :=
  let p := if request.path.getLast? = some '/' then request.path.dropLast else request.path
  request.method.map Char.toUpper = method && (p = path || p = path ++ ['\x85'])

variable {Key : Type} (w : Surroundings Key)

/-- `GET /_wallet/format` -/
def format (display : Display) (serialize : List (List Char × List Char) → Data)
    (request : Request) : Except Trap Response :=
  match request.query.lookup "amount".toList with
  | some (amount :: _) => do
    let intAmount ← intAmount amount
    let json ← display.currencyFormat intAmount
    .ok (.ofJson 200 (serialize json))
  | _ => .ok (.ofCode 400)

/-- The guards before the body of a request for a signature. -/
def mayRead (request : Request) : Bool :=
  request.headers.lookup "content-type".toList = some ["application/json".toList] &&
    !w.isPresentingAuth

def readPost (request : Request) (socket : Socket) : Except Stop Post :=
  if mayRead w request then do
    let (data, _) ← request.body w.arrived socket
    .ok ⟨request.headers,data⟩
  else .ok ⟨request.headers,none⟩

def sendBitIDResponse (signing : BitIDRequest) (key : Key) : Except Trap Response := do
  let json ← signatureJson w.wallet signing.stringToSign key
  .ok (.ofJson 200 (w.serialize json))

/-- The answer to a request for a signature, from a key that is kept or after a prompt. -/
def respond (signing : BitIDRequest) : Except Trap Response :=
  let url := cacheName signing.bitidUrl
  match w.tempBitIDKeys url with
  | some key => sendBitIDResponse w signing key
  | none =>
    match w.result with
    | .success => do
      match ← buildBitIdKey w.wallet w.phrase url signing.bitidIndex with
      | some key => sendBitIDResponse w signing key
      | none => .ok (.ofCode 401)
    | .cancelled => .ok (.ofCode 403)
    | .failed => .ok (.ofCode 401)

/-- `POST /_wallet/sign_bitid` -/
def signBitID (request : Request) (socket : Socket) : Except Stop Response := do
  let post ← readPost w request socket
  match accept w.json w.isPresentingAuth post with
  | .error response => .ok response
  | .ok signing => trapping (respond w signing)

def copyBody (request : Request) (socket : Socket) : Except Stop (Option Data) :=
  if request.hasBody then do
    let (body, _) ← request.body w.arrived socket
    .ok body
  else .ok none

/-- The proxy's `handle`: the URL is made, and then the body read. -/
def proxy (request : Request) (socket : Socket) : Except Stop (Option URLRequest) :=
  if mountPoint.isPrefixOf request.path then do
    let _ ← url w.client (proxiedPath mountPoint request)
    let body ← copyBody w request socket
    handle w.client mountPoint request body
  else .ok none

def route (request : Request) (socket : Socket) : Except Stop Outcome :=
  if matchesRoute "GET".toList "/_wallet/format".toList request then do
    let response ← trapping (format w.display w.serialize request)
    .ok (.response response)
  else if matchesRoute "POST".toList "/_wallet/sign_bitid".toList request then do
    let response ← signBitID w request socket
    .ok (.response response)
  else .ok .elsewhere

def serve (socket : Socket) : Except Stop Outcome := do
  let (request, rest) ← readFrom socket
  match ← proxy w request rest with
  | some nsReq => .ok (.proxied nsReq)
  | none => route w request rest

/-- The number of an amount with a point: in the range of an `Int64` once it is a `Float` and was
    multiplied, and with an exchange rate no negative amount of the smallest parts. -/
def InRange (rated : Bool) (v : Rat) : Prop :=
  v ≤ 92233715712 ∧ if rated then -(22517997 / 2 ^ 51) ≤ v else -92233723904 < v

def AmountFits (rated : Bool) (amount : List Char) : Prop :=
  if amount.contains '.' then ∀ v, number amount = some v → InRange rated v
  else rated = true → ∀ i, int amount = some i → 0 ≤ i

/-- The digits and the pattern are what number formatters are made with. -/
def Display.Formats (display : Display) : Prop :=
  -2 ^ 15 < display.maxDigits.toInt ∧ display.maxDigits.toInt ≤ 2 ^ 15 ∧
    '#' ∈ display.positiveFormat

def FormatServed (display : Display) (request : Request) : Prop :=
  ∀ amount amounts, request.query.lookup "amount".toList = some (amount :: amounts) →
    AmountFits display.currentRate.isSome amount ∧
      (display.currentRate.isSome = true → display.Formats)

/-- What is to be signed is short, and where its key is to be derived the index is one of keys. -/
def Signs (signing : BitIDRequest) : Prop :=
  match w.tempBitIDKeys (cacheName signing.bitidUrl) with
  | some _ => ShortMessage signing.stringToSign
  | none => w.result = .success → w.phrase = true →
    (0 ≤ signing.bitidIndex ∧ signing.bitidIndex < 2 ^ 32) ∧ ShortMessage signing.stringToSign

def SignServed (request : Request) (socket : Socket) : Prop :=
  request.headers.lookup "content-type".toList = some ["application/json".toList] →
    w.isPresentingAuth = false → request.WholeBody w.arrived socket ∧
      ∀ signing, parseBody w.json (request.sentBody socket) = some signing → Signs w signing

/-- What a request has to be like where it is led to. -/
def Served (request : Request) (socket : Socket) : Prop :=
  if mountPoint.isPrefixOf request.path then
    isLegal false (proxiedPath mountPoint request) = true ∧
      (request.hasBody = true → request.WholeBody w.arrived socket)
  else if matchesRoute "GET".toList "/_wallet/format".toList request then
    FormatServed w.display request
  else if matchesRoute "POST".toList "/_wallet/sign_bitid".toList request then
    SignServed w request socket
  else True

section Amounts
variable {q v : Rat}

theorem product_past (nonneg : 0 ≤ q) : 2 ^ 63 ≤ product q 100000000 ↔ 92233715712 < q := by
  have amount : single.Normal 11258999 13 := ⟨by decide,by decide,by decide⟩
  have bound : single.Normal (2 ^ 24) 39 := ⟨by decide,by decide,by decide⟩
  have reaches := le_product_iff amount bound nonneg (by norm_num : (0 : Rat) ≤ 100000000)
    (by norm_num) (by norm_num)
  rw [amount.le_magnitude_iff nonneg] at reaches
  norm_num at reaches
  norm_num
  exact reaches

/-- Past the least `Int64` the numbers are apart. -/
theorem product_far (nonneg : 0 ≤ q) : product q 100000000 < 2 ^ 63 + 1 ↔ q < 92233723904 := by
  have amount : single.Normal 11259000 13 := ⟨by decide,by decide,by decide⟩
  have bound : single.Normal (2 ^ 23 + 1) 40 := ⟨by decide,by decide,by decide⟩
  have reaches := le_product_iff amount bound nonneg (by norm_num : (0 : Rat) ≤ 100000000)
    (by norm_num) (by norm_num)
  have multiplied : 0 ≤ single.magnitude q * 100000000 :=
    mul_nonneg (Format.magnitude_nonneg nonneg) (by norm_num)
  have apart := bound.magnitude_gap multiplied
  rw [amount.le_magnitude_iff nonneg] at reaches
  norm_num at reaches apart
  constructor
  · intro near
    by_contra far
    have past := reaches.mpr ((not_lt.mp far).lt_or_eq.imp_right Eq.symm)
    linarith
  · intro small
    rcases apart with near | far
    · exact lt_of_le_of_lt near (by norm_num)
    · rcases reaches.mp far with past | tie
      · linarith
      · linarith

theorem product_one (nonneg : 0 ≤ q) : 1 ≤ product q 100000000 ↔ 22517997 / 2 ^ 51 < q := by
  have amount : single.Normal 11258999 (-50) := ⟨by decide,by decide,by decide⟩
  have bound : single.Normal (2 ^ 24) (-24) := ⟨by decide,by decide,by decide⟩
  have reaches := le_product_iff amount bound nonneg (by norm_num : (0 : Rat) ≤ 100000000)
    (by norm_num) (by norm_num)
  rw [amount.le_magnitude_iff nonneg] at reaches
  norm_num at reaches
  norm_num
  exact reaches

/-- A number is converted, and not to a negative one where there is an exchange rate, exactly if it
    is in range. -/
theorem converted_iff (rated : Bool) (v : Rat) :
    (∃ i, SwiftFloat.int64 (single.mul (single.value v) (.finite 100000000)) = .ok i ∧
      (rated = true → 0 ≤ i)) ↔ InRange rated v := by
  unfold InRange
  rcases le_or_gt 0 v with nonneg | negative
  · rw [converted_nonneg nonneg (by norm_num), ← not_lt, ← product_past nonneg, not_le]
    have whole : (0 : Int) ≤ ⌊product v 100000000⌋ :=
      Int.floor_nonneg.mpr (product_nonneg nonneg (by norm_num))
    constructor
    · rintro ⟨i,converted,_⟩
      split at converted
      case isTrue small =>
        refine ⟨small,?_⟩
        split
        · linarith
        · linarith
      case isFalse => cases converted
    · rintro ⟨small,_⟩
      exact ⟨_,if_pos small,fun _ => whole⟩
  · have nonneg : 0 ≤ -v := by linarith
    have opposite := converted_neg nonneg (by norm_num : (1 : Rat) ≤ 100000000)
    rw [neg_neg] at opposite
    have most : v ≤ 92233715712 := by linarith
    rw [opposite]
    cases rated with
    | false =>
      have near := product_far nonneg
      simp only [most, true_and, Bool.false_eq_true, if_false, false_implies, and_true]
      rw [neg_lt, ← near]
      constructor
      · rintro ⟨i,converted⟩
        by_contra far
        rw [if_neg far] at converted
        cases converted
      · exact fun small => ⟨_,if_pos small⟩
    | true =>
      have one := product_one nonneg
      have made := product_nonneg nonneg (by norm_num : (0 : Rat) ≤ 100000000)
      simp only [most, true_and, if_true, true_implies]
      rw [neg_le, ← not_lt, ← one, not_le]
      constructor
      · rintro ⟨i,converted,whole⟩
        split at converted
        · cases converted
          have nothing : ⌊product (-v) 100000000⌋ < 1 := by omega
          exact_mod_cast Int.floor_lt.mp nothing
        · cases converted
      · intro small
        have below : product (-v) 100000000 < 2 ^ 63 + 1 := by linarith
        have nothing : ⌊product (-v) 100000000⌋ = 0 := Int.floor_eq_zero_iff.mpr ⟨made,small⟩
        exact ⟨_,if_pos below,by rw [nothing]; exact Int.le_refl 0⟩

end Amounts

section Served
variable {w : Surroundings Key}

theorem negativeFormat_returns_iff {positiveFormat : List Char} :
    (∃ negative, negativeFormat positiveFormat = .ok negative) ↔ '#' ∈ positiveFormat := by
  have found : (positiveFormat.findIdx? fun c => c = '#').isSome = true ↔ '#' ∈ positiveFormat := by
    rw [List.findIdx?_isSome, List.any_eq_true]
    simp
  rw [← found, Option.isSome_iff_exists]
  constructor
  · rintro ⟨negative,made⟩
    obtain ⟨i,unwrapped,_⟩ := bind_ran.mp made
    exact ⟨i,unwrap_ok.mp unwrapped⟩
  · rintro ⟨i,there⟩
    exact ⟨_,bind_ran.mpr ⟨i,unwrap_ok.mpr there,rfl⟩⟩

theorem int16_range {i power : Int} (converted : int16 i = .ok power) :
    -2 ^ 15 ≤ i ∧ i < 2 ^ 15 := by
  unfold int16 at converted
  split at converted
  case isTrue fits => exact fits
  case isFalse => cases converted

theorem bits_returns_iff (display : Display) (rate : Rate) (amount : UInt64) :
    (∃ text, display.bits rate amount = .ok text) ↔ display.Formats := by
  constructor
  · rintro ⟨text,ran⟩
    obtain ⟨digits,negated,ran⟩ := bind_ran.mp ran
    obtain ⟨power,converted,ran⟩ := bind_ran.mp ran
    obtain ⟨negative,made,_⟩ := bind_ran.mp ran
    rw [subInt64_ok, Int64.toInt_zero] at negated
    have range := int16_range converted
    exact ⟨by omega,by omega,negativeFormat_returns_iff.mp ⟨negative,made⟩⟩
  · rintro ⟨low,high,hash⟩
    have negated : subInt64 0 display.maxDigits = .ok (Int64.ofInt (-display.maxDigits.toInt)) := by
      rw [subInt64_ok, Int64.toInt_ofInt_of_le (by omega) (by omega), Int64.toInt_zero,
        Int.zero_sub]
    have number := subInt64_ok.mp negated
    rw [Int64.toInt_zero] at number
    obtain ⟨negative,made⟩ := negativeFormat_returns_iff.mpr hash
    have converted : int16 (Int64.ofInt (-display.maxDigits.toInt)).toInt = .ok _ :=
      if_pos ⟨by omega,by omega⟩
    unfold Display.bits
    rw [bind_ready negated, bind_ready converted, bind_ready made]
    exact ⟨_,rfl⟩

theorem uint64_returns_iff {i : Int} : (∃ n, uint64 i = .ok n) ↔ 0 ≤ i := by
  unfold uint64
  split
  case isTrue fits => exact iff_of_true ⟨_,rfl⟩ fits
  case isFalse negative => exact iff_of_false (fun ⟨n,made⟩ => nomatch made) negative

theorem currencyFormat_returns_iff (display : Display) (amount : Int) :
    (∃ json, display.currencyFormat amount = .ok json) ↔
      (display.currentRate.isSome = true → 0 ≤ amount ∧ display.Formats) := by
  unfold Display.currencyFormat
  cases display.currentRate with
  | none => exact iff_of_true ⟨_,rfl⟩ fun rated => nomatch rated
  | some rate =>
    constructor
    · rintro ⟨json,ran⟩ _
      obtain ⟨n,converted,ran⟩ := bind_ran.mp ran
      obtain ⟨localCurrency,_,ran⟩ := bind_ran.mp ran
      obtain ⟨bits,made,_⟩ := bind_ran.mp ran
      exact ⟨uint64_returns_iff.mp ⟨n,converted⟩,(bits_returns_iff display rate n).mp ⟨bits,made⟩⟩
    · intro met
      obtain ⟨nonneg,formats⟩ := met rfl
      obtain ⟨n,converted⟩ := uint64_returns_iff.mpr nonneg
      obtain ⟨negative,hash⟩ := negativeFormat_returns_iff.mpr formats.2.2
      obtain ⟨bits,made⟩ := (bits_returns_iff display rate n).mpr formats
      have shown : display.localCurrency rate n = .ok ((rate.localString negative n).getD []) :=
        bind_ran.mpr ⟨negative,hash,rfl⟩
      dsimp only
      rw [bind_ready converted, bind_ready shown, bind_ready made]
      exact ⟨_,rfl⟩

/-- An amount is made a whole number, and not a negative one where there is an exchange rate,
    exactly if it fits. -/
theorem intAmount_iff (rated : Bool) (amount : List Char) :
    (∃ i, intAmount amount = .ok i ∧ (rated = true → 0 ≤ i)) ↔ AmountFits rated amount := by
  unfold intAmount AmountFits
  split
  · unfold float
    cases spelled : number amount with
    | none => exact iff_of_true ⟨0,rfl,fun _ => Int.le_refl 0⟩ fun v there => nomatch there
    | some v =>
      refine (converted_iff rated v).trans ⟨fun met other same => ?_,fun each => each v rfl⟩
      cases same
      exact met
  · cases spelled : int amount with
    | none =>
      exact iff_of_true ⟨0,rfl,fun _ => Int.le_refl 0⟩ fun _ i there => nomatch there
    | some i =>
      constructor
      · rintro ⟨j,same,met⟩ yes other there
        cases same
        cases there
        exact met yes
      · exact fun met => ⟨i,rfl,fun yes => met yes i rfl⟩

theorem format_returns_iff (display : Display)
    (serialize : List (List Char × List Char) → Data) (request : Request) :
    (∃ response, format display serialize request = .ok response) ↔
      FormatServed display request := by
  unfold format FormatServed
  split
  case h_1 amount amounts given =>
    constructor
    · rintro ⟨response,ran⟩ other others same
      obtain ⟨i,converted,ran⟩ := bind_ran.mp ran
      obtain ⟨json,formatted,_⟩ := bind_ran.mp ran
      have shown := (currencyFormat_returns_iff display i).mp ⟨json,formatted⟩
      cases given.symm.trans same
      exact ⟨(intAmount_iff _ amount).mp ⟨i,converted,fun rated => (shown rated).1⟩,
        fun rated => (shown rated).2⟩
    · intro met
      obtain ⟨fits,formats⟩ := met amount amounts given
      obtain ⟨i,converted,nonneg⟩ := (intAmount_iff _ amount).mpr fits
      obtain ⟨json,formatted⟩ := (currencyFormat_returns_iff display i).mpr
        fun rated => ⟨nonneg rated,formats rated⟩
      rw [bind_ready converted, bind_ready formatted]
      exact ⟨_,rfl⟩
  case h_2 missing =>
    exact iff_of_true ⟨_,rfl⟩ fun amount amounts given => absurd given (missing amount amounts)

theorem sent_returns_iff (signing : BitIDRequest) (key : Key) :
    (∃ response, WalletPlugin.sendBitIDResponse w signing key = .ok response) ↔
      ShortMessage signing.stringToSign := by
  unfold WalletPlugin.sendBitIDResponse
  by_cases short : ShortMessage signing.stringToSign
  · obtain ⟨json,signed⟩ := signatureJson_short w.wallet key short
    rw [bind_ready signed]
    exact iff_of_true ⟨_,rfl⟩ short
  · rw [bind_halted (signatureJson_traps short)]
    exact iff_of_false (fun ⟨response,sent⟩ => nomatch sent) short

theorem respond_returns_iff (signing : BitIDRequest) :
    (∃ response, respond w signing = .ok response) ↔ Signs w signing := by
  unfold respond Signs
  dsimp only
  cases w.tempBitIDKeys (cacheName signing.bitidUrl) with
  | some key => exact sent_returns_iff signing key
  | none =>
    dsimp only
    cases w.result with
    | cancelled => exact iff_of_true ⟨_,rfl⟩ fun other => nomatch other
    | failed => exact iff_of_true ⟨_,rfl⟩ fun other => nomatch other
    | success =>
      cases w.phrase with
      | false => exact iff_of_true ⟨_,rfl⟩ fun _ other => nomatch other
      | true =>
        simp only [true_implies]
        by_cases fits : 0 ≤ signing.bitidIndex ∧ signing.bitidIndex < 2 ^ 32
        · obtain ⟨key,built⟩ := buildBitIdKey_ok w.wallet (cacheName signing.bitidUrl) fits
          rw [bind_ready built]
          exact (sent_returns_iff signing key).trans ⟨fun short => ⟨fits,short⟩,fun met => met.2⟩
        · rw [bind_halted (buildBitIdKey_traps fits)]
          exact iff_of_false (fun ⟨response,sent⟩ => nomatch sent) fun met => fits met.1

/-- The answer from a key that is kept stops exactly where the block of the request crashes in the
    runs of requests. -/
theorem block_survives_iff {s : State Key} {posted : Posted} {key : Key} (runs : s.crashed = false)
    (kept : s.tempBitIDKeys = w.tempBitIDKeys)
    (found : w.tempBitIDKeys (cacheName posted.request.bitidUrl) = some key) :
    (s.run w.wallet posted).crashed = false ↔
      ∃ response, respond w posted.request = .ok response := by
  rw [respond_returns_iff]
  unfold State.run Signs
  rw [kept, found]
  dsimp only
  by_cases short : ShortMessage posted.request.stringToSign
  · rw [sent_short short]
    exact iff_of_true runs short
  · rw [sent_long short]
    exact iff_of_false (fun survives => nomatch survives) short

/-- And the answer after a prompt, where the prompt's result does. -/
theorem result_survives_iff {s : State Key} {posted : Posted} (runs : s.crashed = false)
    (missing : w.tempBitIDKeys (cacheName posted.request.bitidUrl) = none) :
    (s.authenticated w.wallet posted w.phrase w.result).crashed = false ↔
      ∃ response, respond w posted.request = .ok response := by
  rw [respond_returns_iff]
  unfold State.authenticated Signs
  rw [missing]
  dsimp only
  cases w.result with
  | cancelled => exact iff_of_true runs fun other => nomatch other
  | failed => exact iff_of_true runs fun other => nomatch other
  | success =>
    dsimp only
    cases w.phrase with
    | false => exact iff_of_true runs fun _ other => nomatch other
    | true =>
      simp only [true_implies]
      by_cases fits : 0 ≤ posted.request.bitidIndex ∧ posted.request.bitidIndex < 2 ^ 32
      · obtain ⟨key,built⟩ := buildBitIdKey_ok w.wallet (cacheName posted.request.bitidUrl) fits
        rw [built]
        by_cases short : ShortMessage posted.request.stringToSign
        · simp only [sent_short short]
          exact iff_of_true runs ⟨fits,short⟩
        · simp only [sent_long short]
          exact iff_of_false (fun survives => nomatch survives) fun met => short met.2
      · rw [buildBitIdKey_traps fits]
        exact iff_of_false (fun survives => nomatch survives) fun met => fits met.1

/-- Where a guard fails nothing is read. -/
theorem signBitID_refused {request : Request} {response : Response} (socket : Socket)
    (closed : mayRead w request = false)
    (refused : accept w.json w.isPresentingAuth ⟨request.headers,none⟩ = .error response) :
    Answers (signBitID w request socket) := by
  have bare : readPost w request socket = .ok ⟨request.headers,none⟩ :=
    if_neg (Bool.eq_false_iff.mp closed)
  unfold signBitID
  rw [bind_ready bare]
  simp only [refused]
  exact answers_ok response

theorem signBitID_answers_iff (request : Request) (socket : Socket) :
    Answers (signBitID w request socket) ↔ SignServed w request socket := by
  unfold SignServed
  by_cases json : request.headers.lookup "content-type".toList = some ["application/json".toList]
  case neg =>
    have closed : mayRead w request = false := by
      rw [mayRead, decide_eq_false json, Bool.false_and]
    exact iff_of_true (signBitID_refused socket closed (if_neg json)) fun other => absurd other json
  cases presenting : w.isPresentingAuth with
  | true =>
    have closed : mayRead w request = false := by
      rw [mayRead, presenting, Bool.not_true, Bool.and_false]
    have locked : accept w.json w.isPresentingAuth ⟨request.headers,none⟩ =
        .error (.ofCode 423) := by
      rw [accept, if_pos json, if_pos presenting]
    exact iff_of_true (signBitID_refused socket closed locked) fun _ other =>
      absurd other.symm Bool.false_ne_true
  | false =>
    have opened : readPost w request socket =
        request.body w.arrived socket >>= fun read => .ok ⟨request.headers,read.1⟩ := by
      have opened : mayRead w request = true := by
        rw [mayRead, decide_eq_true json, presenting, Bool.not_false, Bool.and_self]
      exact if_pos opened
    simp only [json, true_implies]
    unfold signBitID
    rw [opened, presenting]
    constructor
    · intro answers
      obtain ⟨read,next⟩ := answers_bind.mp answers
      have whole := request.body_answers_iff.mp (answers_bind.mp read).1
      refine ⟨whole,fun signing parsed => ?_⟩
      obtain ⟨rest,body⟩ := request.body_whole whole
      have last := next ⟨request.headers,request.sentBody socket⟩ (by rw [bind_ready body])
      rw [accept_parsed json parsed] at last
      exact (respond_returns_iff signing).mp (answers_trapping.mp last)
    · rintro ⟨whole,signs⟩
      obtain ⟨rest,body⟩ := request.body_whole whole
      rw [bind_ready body]
      refine answers_bind.mpr ⟨answers_ok _,fun post same => ?_⟩
      cases same
      cases parsed : parseBody w.json (request.sentBody socket) with
      | none =>
        rw [accept_unparsed json parsed]
        exact answers_ok _
      | some signing =>
        rw [accept_parsed json parsed]
        exact answers_trapping.mpr ((respond_returns_iff signing).mpr (signs signing parsed))

/-- The URL of a proxied request is made if its path is legal, and only then. -/
theorem url_answers_iff (client : Client) (path : List Char) :
    Answers (url client path) ↔ isLegal false path = true := by
  have base : URL.ofString (client.proto ++ "://".toList ++ client.host ++ path) = none ↔
      isLegal false path = false := legal_base
  unfold url
  rw [answers_trapping]
  cases made : URL.ofString (client.proto ++ "://".toList ++ client.host ++ path) with
  | none =>
    rw [base.mp made]
    exact iff_of_false (fun ⟨u,same⟩ => nomatch same) Bool.false_ne_true
  | some u =>
    refine iff_of_true ⟨u,rfl⟩ ?_
    by_contra illegal
    rw [base.mpr (Bool.eq_false_iff.mpr illegal)] at made
    cases made

theorem copyBody_answers_iff (request : Request) (socket : Socket) :
    Answers (copyBody w request socket) ↔
      (request.hasBody = true → request.WholeBody w.arrived socket) := by
  unfold copyBody
  split
  case isTrue carries =>
    simp only [carries, true_implies]
    rw [answers_bind, request.body_answers_iff]
    exact and_iff_left fun read _ => answers_ok _
  case isFalse bare => exact iff_of_true (answers_ok _) fun carries => absurd carries bare

theorem handle_answers {client : Client} {request : Request} {u : URL} {body : Option Data}
    (made : url client (proxiedPath mountPoint request) = .ok u) :
    Answers (handle client mountPoint request body) := by
  unfold handle
  split
  · rw [bind_ready made]
    exact answers_ok _
  · exact answers_ok _

theorem proxy_answers_iff {request : Request} (socket : Socket)
    (mounted : mountPoint.isPrefixOf request.path = true) :
    Answers (proxy w request socket) ↔ isLegal false (proxiedPath mountPoint request) = true ∧
      (request.hasBody = true → request.WholeBody w.arrived socket) := by
  unfold proxy
  rw [if_pos mounted, answers_bind, url_answers_iff, ← copyBody_answers_iff]
  refine and_congr_right fun legal => ?_
  constructor
  · intro each
    obtain ⟨u,there⟩ := answers_trapping.mp ((url_answers_iff w.client _).mpr legal)
    have made : url w.client (proxiedPath mountPoint request) = .ok u := congrArg trapping there
    exact (answers_bind.mp (each u made)).1
  · intro copied u made
    exact answers_bind.mpr ⟨copied,fun body _ => handle_answers made⟩

/-- What the proxy takes it does not pass on. -/
theorem proxy_takes {request : Request} {socket : Socket} {out : Option URLRequest}
    (mounted : mountPoint.isPrefixOf request.path = true)
    (ran : proxy w request socket = .ok out) : ∃ nsReq, out = some nsReq := by
  unfold proxy handle at ran
  rw [if_pos mounted] at ran
  obtain ⟨_,_,ran⟩ := bind_ran.mp ran
  obtain ⟨_,_,ran⟩ := bind_ran.mp ran
  rw [if_pos mounted] at ran
  obtain ⟨_,_,ran⟩ := bind_ran.mp ran
  exact ⟨_,(Except.ok.inj ran).symm⟩

theorem route_answers_iff (request : Request) (socket : Socket) :
    Answers (route w request socket) ↔
      if matchesRoute "GET".toList "/_wallet/format".toList request then
        FormatServed w.display request
      else if matchesRoute "POST".toList "/_wallet/sign_bitid".toList request then
        SignServed w request socket
      else True := by
  unfold route
  split
  · rw [answers_bind, answers_trapping, format_returns_iff]
    exact and_iff_left fun response _ => answers_ok _
  · split
    · rw [answers_bind, signBitID_answers_iff]
      exact and_iff_left fun response _ => answers_ok _
    · exact iff_of_true (answers_ok _) trivial

/-- A request that is read is answered, or an error thrown, exactly if it is as it has to be where
    it is led to. -/
theorem local_request_iff (w : Surroundings Key) (socket : Socket) :
    Answers (serve w socket) ↔
      ∀ request rest, readFrom socket = .ok (request, rest) → Served w request rest := by
  unfold serve
  rw [answers_bind, and_iff_right (readFrom_answers socket), Prod.forall]
  refine forall_congr' fun request => forall_congr' fun rest => imp_congr_right fun _ => ?_
  unfold Served
  dsimp only
  split
  case isTrue mounted =>
    rw [answers_bind, proxy_answers_iff rest mounted]
    refine and_iff_left fun out ran => ?_
    obtain ⟨nsReq,taken⟩ := proxy_takes mounted ran
    rw [taken]
    exact answers_ok _
  case isFalse other =>
    have passes : proxy w request rest = .ok none := if_neg other
    rw [bind_ready passes]
    exact route_answers_iff request rest

end Served

/-- A wallet with an exchange rate, in which the user approves what is asked for. -/
def rated : Surroundings (List Char × UInt32) where
  client := breadwallet
  display :=
    { currentRate := some ⟨fun _ _ => none,fun _ _ _ => none⟩
      maxDigits := 2
      positiveFormat := "¤#,##0.00".toList }
  wallet := namedWallet
  json := pageJson
  serialize _ := []
  arrived _ := 4096
  isPresentingAuth := false
  tempBitIDKeys _ := none
  result := .success
  phrase := true

def get (path : String) : Socket := ⟨("GET " ++ path ++ " HTTP/1.1\n\n").toUTF8.data.toList,false⟩

theorem negative_amount_traps :
    serve rated (get "/_wallet/format?amount=-1") = .error (.trap .conversion) := by decide

/-- An amount below zero crashes the wallet. -/
theorem negative_amount_crashes : ¬ ∀ bytes, Answers (serve rated ⟨bytes,false⟩) := by
  intro all
  obtain ⟨error,same⟩ := all (get "/_wallet/format?amount=-1").bytes _ negative_amount_traps
  cases same

end WalletPlugin
