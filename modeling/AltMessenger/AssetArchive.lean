import AltMessenger.TarExtraction

/-!
The update of an asset bundle: the archive is downloaded whole where there is none, and brought to
the last version by a patch where there is an older one. The file manager, the patch program, the
extraction and the servers may answer in any way; what they work on is a state of any kind. An
update gives the calls of its completion handler, in their order.
-/
namespace AssetArchive
open FaultyState TarExtraction

inductive BRAPIClientError where
  | malformedDataError
  | unknownError
  deriving DecidableEq, Repr

inductive BRBSPatchError where
  | unknown
  | corruptPatch
  | patchFileDoesntExist
  | oldFileDoesntExist
  deriving DecidableEq, Repr

inductive Failure where
  | api (error : BRAPIClientError)
  | patch (error : BRBSPatchError)
  | tar (error : BRTarError)
  | foundation (domain : String) (code : Int)
  deriving DecidableEq, Repr

/-- `error.code == 512 && error.domain == NSCocoaErrorDomain` -/
def Failure.fileInTheWay : Failure → Bool
  | foundation domain code => code == 512 && domain == "NSCocoaErrorDomain"
  | _ => false

abbrev Data := List UInt8

/-- What a data task gives to its handler. -/
structure Answer where
  data : Option Data
  statusCode : Option Int
  err : Option Failure

structure Surroundings (σ : Type) where
  fileExists : List Char → σ → Bool
  /-- `try? Data(contentsOf:)` -/
  contents : List Char → σ → Option Data
  createDirectory : List Char → Act Failure σ Unit
  removeItem : List Char → Act Failure σ Unit
  moveItem : List Char → List Char → Act Failure σ Unit
  copyItem : List Char → List Char → Act Failure σ Unit
  write : Data → List Char → Act Failure σ Unit
  /-- `BRBSPatch.patch`, by the paths of the old file, the new one and the patch -/
  patch : List Char → List Char → List Char → Act Failure σ Unit
  /-- `BRTar.createFilesAndDirectoriesAtPath`, by the destination and the archive -/
  createFilesAndDirectoriesAtPath : List Char → List Char → Act Failure σ Unit
  /-- `Bundle.main.url(forResource:withExtension:)` -/
  bundled : List Char → List Char → Option (List Char)
  dataTaskWithRequest : List Char → σ → Answer × σ
  sha256HexString : Data → List Char
  /-- the strings of `versions` in the dictionary that the data is in JSON -/
  jsonVersions : Data → Option (List (List Char))

section Update
variable {σ : Type} (w : Surroundings σ)

def getAssetVersions (name : List Char) (s : σ) :
    (Option (List (List Char)) × Option Failure) × σ :=
  let (answer, s) :=
    w.dataTaskWithRequest ("/assets/bundles/".toList ++ name ++ "/versions".toList) s
  match answer.err with
  | some err => ((none, some err), s)
  | none =>
    match answer.data.bind w.jsonVersions with
    | some versions => ((some versions, none), s)
    | none => ((none, some (.api .malformedDataError)), s)

/-- What both downloads make of an answer. -/
def downloaded (answer : Answer) : Option Data × Option Failure :=
  if answer.err ≠ none then (none, answer.err)
  else if answer.statusCode ≠ some 200 then (none, some (.api .unknownError))
  else match answer.data with
  | some data => (some data, none)
  | none => (none, some (.api .malformedDataError))

def downloadAssetArchive (name : List Char) (s : σ) : (Option Data × Option Failure) × σ :=
  let (answer, s) :=
    w.dataTaskWithRequest ("/assets/bundles/".toList ++ name ++ "/download".toList) s
  (downloaded answer, s)

def downloadAssetDiff (name fromVersion : List Char) (s : σ) :
    (Option Data × Option Failure) × σ :=
  let (answer, s) := w.dataTaskWithRequest
    ("/assets/bundles/".toList ++ name ++ "/diff/".toList ++ fromVersion) s
  (downloaded answer, s)

structure Archive where
  name : List Char
  bundleDirUrl : List Char

namespace Archive
variable (a : Archive)

def archivePath : List Char := appendingPathComponent a.bundleDirUrl (a.name ++ ".tar".toList)

def extractedPath : List Char :=
  appendingPathComponent a.bundleDirUrl (a.name ++ "-extracted".toList)

def diffPath : List Char := appendingPathComponent a.bundleDirUrl (a.name ++ ".diff".toList)

def oldBundlePath : List Char := appendingPathComponent a.bundleDirUrl (a.name ++ ".old".toList)

end Archive

variable (a : Archive)

def archiveExists (s : σ) : Bool := w.fileExists a.archivePath s

def version (s : σ) : Option (List Char) := (w.contents a.archivePath s).map w.sha256HexString

def ensureExtractedPath : Act Failure σ Unit := do
  if w.fileExists a.extractedPath (← get) = false then w.createDirectory a.extractedPath

def extractArchive : Act Failure σ Unit :=
  w.createFilesAndDirectoriesAtPath a.extractedPath a.archivePath

def copyBundledArchive (s : σ) : σ :=
  match w.bundled a.name "tar".toList with
  | some bundledArchiveUrl => (exec (w.copyItem bundledArchiveUrl a.archivePath) s).2
  | none => s

/-- The first statement of `update`, with both of its handlers. -/
def makeExtractedPath : Act Failure σ Unit :=
  tryCatch (ensureExtractedPath w a) fun error =>
    if error.fileInTheWay then do
      w.removeItem a.bundleDirUrl
      w.createDirectory a.extractedPath
    else throw error

def downloadCompleteArchive (s : σ) : List (Option Failure) × σ :=
  match downloadAssetArchive w a.name s with
  | ((_, some err), s) => ([some err], s)
  | ((none, none), s) => ([some (.api .unknownError)], s)
  | ((some data, none), s) =>
    match exec (do w.write data a.archivePath; extractArchive w a) s with
    | (.ok _, s) => ([none], s)
    | (.error e, s) => ([some e], s)

def removeIfThere (path : List Char) : Act Failure σ Unit := do
  if w.fileExists path (← get) then w.removeItem path

def applyDiff (data : Data) : Act Failure σ Unit := do
  removeIfThere w a.diffPath
  removeIfThere w a.oldBundlePath
  w.write data a.diffPath
  w.moveItem a.archivePath a.oldBundlePath
  w.patch a.oldBundlePath a.archivePath a.diffPath
  w.removeItem a.diffPath
  w.removeItem a.oldBundlePath
  extractArchive w a

def cleanUp (s : σ) : σ :=
  let s := (exec (w.removeItem a.diffPath) s).2
  let s := (exec (w.removeItem a.oldBundlePath) s).2
  (exec (w.removeItem a.archivePath) s).2

def downloadAndPatchArchive (fromVersion : List Char) (s : σ) : List (Option Failure) × σ :=
  match downloadAssetDiff w a.name fromVersion s with
  | ((_, some err), s) => ([some err], s)
  | ((none, none), s) => ([some (.api .unknownError)], s)
  | ((some data, none), s) =>
    match exec (applyDiff w a data) s with
    | (.ok _, s) => ([none], s)
    -- the handler is called nowhere here
    | (.error _, s) => ([], cleanUp w a s)

/-- `versions.index(of: version) == versions.count - 1` -/
def isLast (versions : List (List Char)) (version : List Char) : Bool :=
  (versions.idxOf? version).map Int.ofNat == some (versions.length - 1 : Int)

def updateVersions (s : σ) : List (Option Failure) × σ :=
  match getAssetVersions w a.name s with
  | ((_, some err), s) => ([some err], s)
  | ((none, none), s) => ([some (.api .unknownError)], s)
  | ((some versions, none), s) =>
    match version w a s with
    | none => ([some (.api .unknownError)], s)
    | some version =>
      if isLast versions version then
        match exec (extractArchive w a) s with
        | (.ok _, s) => ([none], s)
        | (.error _, s) => ([some (.api .unknownError)], s)
      else downloadAndPatchArchive w a version s

/-- What `update` finds the archive in: one shipped with the app is put there if there is none. -/
def shipped (s : σ) : σ := if archiveExists w a s then s else copyBundledArchive w a s

def update (s : σ) : List (Option Failure) × σ :=
  match exec (makeExtractedPath w a) s with
  | (.error e, s) => ([some e], s)
  | (.ok _, s) =>
    let s := shipped w a s
    if archiveExists w a s then updateVersions w a s else downloadCompleteArchive w a s

/-- The steps of applying a patch, in their order. -/
def diffSteps (data : Data) : List (Act Failure σ Unit) :=
  [removeIfThere w a.diffPath, removeIfThere w a.oldBundlePath, w.write data a.diffPath,
    w.moveItem a.archivePath a.oldBundlePath,
    w.patch a.oldBundlePath a.archivePath a.diffPath,
    w.removeItem a.diffPath, w.removeItem a.oldBundlePath, extractArchive w a]

/-- An update that finds a state has a patch to apply, and where it has it. -/
inductive ComesToPatch (s : σ) (data : Data) (u : σ) : Prop
  | intro {placed listed : σ} {versions : List (List Char)} {current : List Char}
      (made : exec (makeExtractedPath w a) s = (.ok (), placed))
      (there : archiveExists w a (shipped w a placed) = true)
      (listing : getAssetVersions w a.name (shipped w a placed) = ((some versions, none), listed))
      (known : version w a listed = some current)
      (older : isLast versions current = false)
      (diff : downloadAssetDiff w a.name current listed = ((some data, none), u))

theorem applyDiff_completes_iff {data : Data} {s : σ} :
    Completes (applyDiff w a data) s ↔ EachCompletes (diffSteps w a data) s := by
  unfold applyDiff diffSteps
  simp only [completes_bind, EachCompletes, ← eachCompletes_single (x := extractArchive w a)]

theorem downloadCompleteArchive_once (s : σ) : (downloadCompleteArchive w a s).1.length = 1 := by
  unfold downloadCompleteArchive
  split
  · rfl
  · rfl
  · split
    · rfl
    · rfl

theorem patched_once_iff {fromVersion : List Char} {s : σ} :
    (downloadAndPatchArchive w a fromVersion s).1.length = 1 ↔
      ∀ data t, downloadAssetDiff w a.name fromVersion s = ((some data, none), t) →
        EachCompletes (diffSteps w a data) t := by
  unfold downloadAndPatchArchive
  split
  case h_1 answered =>
    rw [answered]
    simp
  case h_2 answered =>
    rw [answered]
    simp
  case h_3 data t answered =>
    rw [answered]
    have only : (∀ data' t', ((some data, (none : Option Failure)), t) =
        ((some data', none), t') → EachCompletes (diffSteps w a data') t') ↔
        Completes (applyDiff w a data) t := by
      rw [applyDiff_completes_iff]
      constructor
      · exact fun each => each data t rfl
      · intro each data' t' same
        cases same
        exact each
    rw [only]
    rcases completes_cases (applyDiff w a data) t with ⟨done,u,ran⟩ | ⟨e,u,ran⟩
    · rw [ran]
      exact iff_of_true rfl ⟨done,u,ran⟩
    · rw [ran]
      refine iff_of_false Nat.zero_ne_one ?_
      intro ⟨done,u',other⟩
      rw [ran] at other
      cases other

theorem updateVersions_once_iff {s : σ} :
    (updateVersions w a s).1.length = 1 ↔
      ∀ versions current listed data t,
        getAssetVersions w a.name s = ((some versions, none), listed) →
        version w a listed = some current → isLast versions current = false →
        downloadAssetDiff w a.name current listed = ((some data, none), t) →
        EachCompletes (diffSteps w a data) t := by
  unfold updateVersions
  split
  case h_1 answered =>
    rw [answered]
    simp
  case h_2 answered =>
    rw [answered]
    simp
  case h_3 versions listed answered =>
    rw [answered]
    cases known : version w a listed with
    | none =>
      refine iff_of_true rfl ?_
      intro versions' current listed' data t same current
      cases same
      rw [known] at current
      cases current
    | some current =>
      dsimp only
      split
      case isTrue last =>
        have once : (match exec (extractArchive w a) listed with
            | (.ok _, s) => ([none], s)
            | (.error _, s) => ([some (Failure.api .unknownError)], s)).1.length = 1 := by
          split
          · rfl
          · rfl
        refine iff_of_true once ?_
        intro versions' current' listed' data t same found older
        cases same
        cases known.symm.trans found
        rw [last] at older
        cases older
      case isFalse older =>
        rw [patched_once_iff]
        constructor
        · intro each versions' current' listed' data t same found _ diff
          cases same
          cases known.symm.trans found
          exact each data t diff
        · intro each data t diff
          exact each versions current listed data t rfl known (Bool.eq_false_iff.mpr older) diff

/-- An update calls its handler once, but where it has a patch to apply and a step of applying it
    fails. -/
theorem update_once_iff (s : σ) :
    (update w a s).1.length = 1 ↔
      ∀ data t, ComesToPatch w a s data t → EachCompletes (diffSteps w a data) t := by
  unfold update
  rcases completes_cases (makeExtractedPath w a) s with ⟨⟨⟩,placed,made⟩ | ⟨e,placed,failed⟩
  · rw [made]
    dsimp only
    split
    case isTrue there =>
      rw [updateVersions_once_iff]
      constructor
      · intro each data t ⟨made',_,listing,known,older,diff⟩
        cases made.symm.trans made'
        exact each _ _ _ data t listing known older diff
      · intro each versions current listed data t listing known older diff
        exact each data t ⟨made,there,listing,known,older,diff⟩
    case isFalse missing =>
      refine iff_of_true (downloadCompleteArchive_once w a _) ?_
      intro data t ⟨made',there,_,_,_,_⟩
      cases made.symm.trans made'
      exact absurd there missing
  · rw [failed]
    refine iff_of_true rfl ?_
    intro data t ⟨made,_,_,_,_,_⟩
    rw [failed] at made
    cases made

theorem downloadAndPatchArchive_at_most_once (fromVersion : List Char) (s : σ) :
    (downloadAndPatchArchive w a fromVersion s).1.length ≤ 1 := by
  unfold downloadAndPatchArchive
  split
  · exact Nat.le_refl 1
  · exact Nat.le_refl 1
  · split
    · exact Nat.le_refl 1
    · exact Nat.zero_le 1

theorem updateVersions_at_most_once (s : σ) : (updateVersions w a s).1.length ≤ 1 := by
  unfold updateVersions
  split
  · exact Nat.le_refl 1
  · exact Nat.le_refl 1
  · split
    · exact Nat.le_refl 1
    · split
      · split
        · exact Nat.le_refl 1
        · exact Nat.le_refl 1
      · exact downloadAndPatchArchive_at_most_once w a _ _

/-- An update never calls its handler twice. -/
theorem update_at_most_once (s : σ) : (update w a s).1.length ≤ 1 := by
  unfold update
  split
  · exact Nat.le_refl 1
  · dsimp only
    split
    · exact updateVersions_at_most_once w a _
    · exact (downloadCompleteArchive_once w a _).le

end Update

/-- The files of a disk, by their paths; a directory is a path without contents. -/
abbrev Files := List (List Char × Data)

def missing : Failure := .foundation "NSCocoaErrorDomain" 4

def readFile (path : List Char) : Act Failure Files Data :=
  act fun files => match files.lookup path with
    | some contents => (.ok contents, files)
    | none => (.error missing, files)

def place (path : List Char) (contents : Data) : Act Failure Files Unit :=
  modify fun files => (path, contents) :: files.filter fun file => file.1 ≠ path

def remove (path : List Char) : Act Failure Files Unit := do
  let _ ← readFile path
  modify fun files => files.filter fun file => file.1 ≠ path

/-- A disk without faults, and a server that has a dictionary with no versions, and a patch that
    is too short to be one. -/
def faultlessDisk : Surroundings Files where
  fileExists path files := (files.lookup path).isSome
  contents path files := files.lookup path
  createDirectory path := place path []
  removeItem := remove
  moveItem source destination := do
    place destination (← readFile source)
    remove source
  copyItem source destination := do place destination (← readFile source)
  write data path := place path data
  patch _ _ patchFilePath := do
    let header ← readFile patchFilePath
    if header.length < 32 then throw (.patch .corruptPatch) else throw (.patch .unknown)
  createFilesAndDirectoriesAtPath _ path := do
    let _ ← readFile path
    pure ()
  bundled _ _ := none
  dataTaskWithRequest _ files := (⟨some "\x7b\"versions\":[]\x7d".toUTF8.data.toList,some 200,none⟩, files)
  sha256HexString _ := "e3b0c44298fc1c149afbf4c8996fb92427ae41e4649b934ca495991b7852b855".toList
  jsonVersions data := if data = "\x7b\"versions\":[]\x7d".toUTF8.data.toList then some [] else none

def breadWeb : Archive := ⟨"bread-web".toList,"/bundles".toList⟩

/-- With a patch that is too short, an update of an empty archive never calls its handler. -/
theorem short_patch_unanswered :
    ¬ (update faultlessDisk breadWeb [(breadWeb.archivePath,[])]).1.length = 1 := by
  decide

end AssetArchive
