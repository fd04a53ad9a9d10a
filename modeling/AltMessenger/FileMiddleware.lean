import AltMessenger.HTTPRequest
import AltMessenger.TarExtraction

/-!
The middleware that answers requests with the files of a directory. The path of the request is
joined to that of the directory as it is, so that it may lead up again.
-/
namespace FileMiddleware
open SwiftRuntime HTTPRequest PathWalk
open TarExtraction (Destination Path fileSystemPath appendingPathComponent fileSystemPath_append
  contains_append)

abbrev Data := List UInt8

/-- What is found at a path: the tag made of its modification date, and its contents. -/
structure Files where
  etag : List Char → Option (List Char)
  contents : List Char → Option Data

structure Middleware where
  baseURL : Destination
  /-- the server that is asked instead, and what it answers for a path: data and its type -/
  debugURL : Option (List Char → Option (Data × Option (List Char)))

structure Response where
  statusCode : Int
  headers : Fields
  body : Option Data
  /-- the path of the file that the bytes of the body are from -/
  file : Option (List Char)
  deriving DecidableEq, Repr

/-- `ltrim(["/"])` -/
def ltrim (path : List Char) : List Char := path.dropWhile fun c => c = '/'

/-- What is after the last dot of the last part of a path. -/
def pathExtension (path : List Char) : List Char :=
  let last := (path.splitOn '/').getLast?.getD []
  match last.reverse.span fun c => c ≠ '.' with
  | (ext, _ :: _ :: _) => ext.reverse
  | _ => []

def contentType (path : List Char) : List Char :=
  match String.ofList (pathExtension path) with
  | "ttf" => "application/font-truetype".toList
  | "woff" => "application/font-woff".toList
  | "otf" => "application/font-opentype".toList
  | "svg" => "image/svg+xml".toList
  | "html" => "text/html".toList
  | "png" => "image/png".toList
  | "jpeg" => "image/jpeg".toList
  | "jpg" => "image/jpeg".toList
  | "css" => "text/css".toList
  | "js" => "application/javascript".toList
  | "json" => "application/json".toList
  | _ => "application/octet-stream".toList

/-- Arithmetic on `Int`. -/
def checked (i : Int) : Except Stop Int :=
  if -2 ^ 63 ≤ i ∧ i < 2 ^ 63 then .ok i else .error (.trap .overflow)

/-- `data.subdata(in: start..<upTo)` -/
def subdata (data : Data) (start upTo : Int) : Except Stop Data :=
  if start ≤ upTo then .ok ((data.take upTo.toNat).drop start.toNat) else .error (.trap .index)

/-- The part of the data that a range header asks for; the first number is taken for the end. -/
def partialResponse (body : Data) (path : List Char) (file : Option (List Char))
    (range : Int × Int) : Except Stop Response := do
  let (last, start) := range
  let length ← checked (last - start)
  let count ← checked (length + 1)
  let upTo ← checked (start + count)
  if upTo ≤ body.length then
    let part ← subdata body start upTo
    let contentRange := "bytes ".toList ++ (toString start).toList ++ '-' :: (toString last).toList
      ++ '/' :: (toString body.length).toList
    .ok ⟨200,[("Content-Range".toList,[contentRange]),("Content-Type".toList,[contentType path])],
      some part,file⟩
  else .ok ⟨418,[],none,none⟩

/-- What is answered with the data that was found. -/
def respond (request : Request) (headers : Fields) (path : List Char)
    (contentTypeHint : Option (List Char)) (body : Data) (file : Option (List Char)) :
    Except Stop Response :=
  let headers :=
    headers ++ [("Content-Type".toList,[contentTypeHint.getD (contentType path)])]
  match rangeHeader request with
  | .error (.throws _) => .ok ⟨400,[],some "Invalid Range Header".toUTF8.data.toList,none⟩
  | .error stop => .error stop
  | .ok none => .ok ⟨200,headers,some body,file⟩
  | .ok (some range) => partialResponse body path file range

def notModified (request : Request) (etag : List Char) : Bool :=
  match request.headers.lookup "if-none-match".toList with
  | some (etagHeader :: _) => etag = etagHeader
  | _ => false

/-- `handle`: what is passed to `next`. -/
def handle (m : Middleware) (files : Files) (request : Request) :
    Except Stop (Option Response) :=
  match m.debugURL with
  | none =>
    let path := appendingPathComponent m.baseURL.path (ltrim request.path)
    match files.etag path with
    | none => .ok none
    | some etag =>
      if notModified request etag then .ok (some ⟨304,[],none,none⟩)
      else match files.contents path with
      | none => .ok none
      | some body => some <$> respond request [("ETag".toList,[etag])] path none body (some path)
  | some download =>
    match download request.path with
    | none => .ok none
    | some (body, contentTypeHint) =>
      some <$> respond request [] request.path contentTypeHint body none

/-- The range header lets bytes of a file through: there is none, or its numbers are in an order
    for which no arithmetic fails, so that a file that is long enough is answered. -/
def GivesBytes (request : Request) : Prop :=
  match rangeHeader request with
  | .ok none => True
  | .ok (some (last, start)) => start ≤ last + 1 ∧ last + 1 < 2 ^ 63
  | .error _ => False

theorem checked_ok {i j : Int} : checked i = .ok j ↔ (-2 ^ 63 ≤ i ∧ i < 2 ^ 63) ∧ i = j := by
  unfold checked
  constructor
  · intro ran
    split at ran
    case isTrue fits =>
      cases ran
      exact ⟨fits,rfl⟩
    case isFalse => cases ran
  · intro ⟨fits,same⟩
    rw [if_pos fits, same]

theorem checked_fits {i : Int} (low : -2 ^ 63 ≤ i) (high : i < 2 ^ 63) : checked i = .ok i :=
  if_pos ⟨low,high⟩

/-- A number that is written by digits alone has no sign. -/
theorem int_digits {text : List Char} {i : Int} (all : ∀ c ∈ text, c.isDigit = true)
    (read : SwiftText.int text = some i) : 0 ≤ i ∧ i < 2 ^ 63 := by
  obtain ⟨signed,fits⟩ := Option.filter_eq_some_iff.mp read
  have high := (Bool.and_eq_true_iff.mp fits).2
  refine ⟨?_,of_decide_eq_true high⟩
  unfold SwiftText.signed at signed
  split at signed
  · exact absurd (all '-' List.mem_cons_self) (by decide)
  · exact absurd (all '+' List.mem_cons_self) (by decide)
  · obtain ⟨n,_,value⟩ := Option.map_eq_some_iff.mp signed
    rw [← value]
    exact Int.natCast_nonneg n

theorem matchRange_digits {header first second : List Char}
    (found : matchRange header = some (first, second)) :
    (∀ c ∈ first, c.isDigit = true) ∧ ∀ c ∈ second, c.isDigit = true := by
  unfold matchRange at found
  obtain ⟨text,_,found⟩ := Option.bind_eq_some_iff.mp found
  split at found
  case h_1 rest _ =>
    cases found
    exact ⟨fun c => List.mem_takeWhile_imp,fun c => List.mem_takeWhile_imp⟩
  case h_2 => cases found

theorem rangeHeader_fits {request : Request} {last start : Int}
    (range : rangeHeader request = .ok (some (last, start))) :
    (0 ≤ last ∧ last < 2 ^ 63) ∧ 0 ≤ start ∧ start < 2 ^ 63 := by
  unfold rangeHeader at range
  split at range
  · cases range
  · cases range
  · split at range
    case h_1 => cases range
    case h_2 first second found =>
      have digits := matchRange_digits found
      split at range
      case h_1 readFirst readSecond =>
        cases range
        exact ⟨int_digits digits.1 readFirst,int_digits digits.2 readSecond⟩
      case h_2 => cases range

theorem partialResponse_file {body : Data} {path : List Char} {file : Option (List Char)}
    {last start : Int} {response : Response} {name : List Char}
    (answered : partialResponse body path file (last, start) = .ok response)
    (named : response.file = some name) :
    file = some name ∧ start ≤ last + 1 ∧ last + 1 < 2 ^ 63 := by
  obtain ⟨length,first,answered⟩ := bind_ran.mp answered
  obtain ⟨count,second,answered⟩ := bind_ran.mp answered
  obtain ⟨upTo,third,answered⟩ := bind_ran.mp answered
  have length_is := (checked_ok.mp first).2
  have count_is := (checked_ok.mp second).2
  have upTo_is := checked_ok.mp third
  dsimp only at answered
  split at answered
  case isTrue =>
    obtain ⟨part,cut,answered⟩ := bind_ran.mp answered
    cases answered
    unfold subdata at cut
    split at cut
    case isTrue order => exact ⟨named,by omega,by omega⟩
    case isFalse => cases cut
  case isFalse =>
    cases answered
    cases named

/-- A file that is long enough is answered in part. -/
theorem partialResponse_long {body : Data} (path : List Char) {file : Option (List Char)}
    {last start : Int} (low : 0 ≤ start) (first : 0 ≤ last) (order : start ≤ last + 1)
    (fits : last + 1 < 2 ^ 63) (long : last + 1 ≤ body.length) :
    ∃ response, partialResponse body path file (last, start) = .ok response ∧
      response.file = file := by
  have length := checked_fits (i := last - start) (by omega) (by omega)
  have count := checked_fits (i := last - start + 1) (by omega) (by omega)
  have upTo := checked_fits (i := start + (last - start + 1)) (by omega) (by omega)
  unfold partialResponse
  dsimp only
  rw [bind_ready length, bind_ready count, bind_ready upTo, if_pos (by omega)]
  have cut : subdata body start (start + (last - start + 1)) =
      .ok ((body.take (start + (last - start + 1)).toNat).drop start.toNat) := if_pos (by omega)
  rw [bind_ready cut]
  exact ⟨_,rfl,rfl⟩

theorem respond_file {request : Request} {headers : Fields} {path : List Char}
    {hint file : Option (List Char)} {body : Data} {response : Response} {name : List Char}
    (answered : respond request headers path hint body file = .ok response)
    (named : response.file = some name) : file = some name ∧ GivesBytes request := by
  unfold respond at answered
  dsimp only at answered
  unfold GivesBytes
  split at answered
  case h_1 =>
    cases answered
    cases named
  case h_2 => cases answered
  case h_3 range =>
    cases answered
    rw [range]
    exact ⟨named,trivial⟩
  case h_4 range found =>
    obtain ⟨same,gives⟩ := partialResponse_file answered named
    rw [found]
    exact ⟨same,gives⟩

theorem respond_long {request : Request} (headers : Fields) (path : List Char)
    (hint file : Option (List Char)) (gives : GivesBytes request) :
    ∃ body response, respond request headers path hint body file = .ok response ∧
      response.file = file := by
  unfold GivesBytes at gives
  unfold respond
  split at gives
  case h_1 range => exact ⟨[],_,by rw [range],rfl⟩
  case h_2 last start range =>
    obtain ⟨⟨first,_⟩,low,_⟩ := rangeHeader_fits range
    rw [range]
    refine ⟨List.replicate (last + 1).toNat 0,?_⟩
    exact partialResponse_long path low first gives.1 gives.2 (by rw [List.length_replicate]; omega)
  case h_3 => exact gives.elim

/-- A tag that differs from the one the client has. -/
theorem modified_tag (request : Request) : ∃ etag, notModified request etag = false := by
  unfold notModified
  split
  case h_1 etagHeader _ _ =>
    refine ⟨'x' :: etagHeader,decide_eq_false ?_⟩
    exact fun same => List.cons_ne_self 'x' etagHeader same
  case h_2 => exact ⟨[],rfl⟩

theorem map_ran {x : Except Stop Response} {response : Response}
    (ran : some <$> x = .ok (some response)) : x = .ok response := by
  cases x with
  | error stop => cases ran
  | ok made =>
    cases ran
    rfl

/-- Whatever files there are, those that a request is answered with lie in the directory, exactly
    if its path leads back into it, or no bytes of a file are let through, or another server is
    asked. -/
theorem served_inside_iff (m : Middleware) (request : Request) :
    (∀ files response path, handle m files request = .ok (some response) →
      response.file = some path → m.baseURL.Contains (fileSystemPath path)) ↔
      m.debugURL ≠ none ∨
        (route (fileSystemPath (ltrim request.path))).Returns m.baseURL.directory ∨
        ¬ GivesBytes request := by
  have inside_iff : m.baseURL.Contains
        (fileSystemPath (appendingPathComponent m.baseURL.path (ltrim request.path))) ↔
      (route (fileSystemPath (ltrim request.path))).Returns m.baseURL.directory := by
    rw [fileSystemPath_append, contains_append]
  constructor
  · intro all
    by_contra none_of_them
    obtain ⟨local_files,escapes,gives⟩ := by simpa only [not_or, not_not] using none_of_them
    obtain ⟨etag,differs⟩ := modified_tag request
    let path := appendingPathComponent m.baseURL.path (ltrim request.path)
    obtain ⟨body,response,answered,file⟩ :=
      respond_long [("ETag".toList,[etag])] path none (some path) gives
    refine escapes (inside_iff.mp (all ⟨fun _ => some etag,fun _ => some body⟩ response path ?_ file))
    unfold handle
    rw [local_files]
    dsimp only
    rw [differs, answered]
    rfl
  · intro reason files response path answered named
    unfold handle at answered
    split at answered
    case h_1 local_files =>
      dsimp only at answered
      split at answered
      case h_1 => cases answered
      case h_2 etag _ =>
        split at answered
        case isTrue =>
          cases answered
          cases named
        case isFalse =>
          split at answered
          case h_1 => cases answered
          case h_2 body _ =>
            obtain ⟨file,gives⟩ := respond_file (map_ran answered) named
            cases file
            rcases reason with debug | returns | never
            · exact absurd local_files debug
            · exact inside_iff.mpr returns
            · exact absurd gives never
    case h_2 download _ =>
      split at answered
      case h_1 => cases answered
      case h_2 body hint _ =>
        cases (respond_file (map_ran answered) named).1

def bundle : Middleware := ⟨⟨"/bundles/web-extracted".toList,rfl,by decide⟩,none⟩

def databasePath : List Char := "/bundles/web-extracted/../../kv.sqlite".toList

/-- A disk with a database two directories above the bundle's. -/
def diskWithDatabase : Files where
  etag path :=
    if path = databasePath then some "d41d8cd98f00b204e9800998ecf8427e".toList else none
  contents path := if path = databasePath then some [83] else none

def leavingRequest : Socket :=
  ⟨"GET /../../kv.sqlite HTTP/1.1\r\n\r\n".toUTF8.data.toList,false⟩

def databaseResponse : Response :=
  ⟨200,[("ETag".toList,["d41d8cd98f00b204e9800998ecf8427e".toList]),
    ("Content-Type".toList,["application/octet-stream".toList])],some [83],some databasePath⟩

/-- A request line with steps up is answered with the database. -/
theorem leaving_request_served :
    ¬ ∀ socket request rest, readFrom socket = .ok (request, rest) →
      ∀ files response path, handle bundle files request = .ok (some response) →
        response.file = some path → bundle.baseURL.Contains (fileSystemPath path) := by
  intro all
  have served := all leavingRequest ⟨"GET".toList,"/../../kv.sqlite".toList,[],[],[]⟩ ⟨[],false⟩
    (by decide) diskWithDatabase databaseResponse databasePath (by decide) rfl
  revert served
  decide

end FileMiddleware
