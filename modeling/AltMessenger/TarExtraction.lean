import Mathlib.Data.List.TakeWhile
import AltMessenger.FaultyState
import AltMessenger.PathWalk
import AltMessenger.SwiftRuntime

/-!
The extraction of an archive into a directory. Each entry's name is joined to the destination, and
what is there is removed before the file or the directory is made. The name may lead up again.
-/
namespace TarExtraction
open SwiftRuntime FaultyState PathWalk

inductive BRTarError where
  | unknown
  | fileDoesntExist
  deriving DecidableEq, Repr

/-- What ends the extraction early: an error of its own, one of the file manager, or a trap. -/
inductive Stop where
  | brTar (error : BRTarError)
  | fileManager
  | trap (trap : Trap)
  deriving DecidableEq, Repr

inductive BRTarType where
  | file | directory | nullBlock | headerBlock | unsupported | invalid
  deriving DecidableEq, Repr

def BRTarType.ofData : List UInt8 → BRTarType
  | [] => .invalid
  | byte :: _ =>
    if byte = 48 then .file
    else if byte = 53 then .directory
    else if byte = 0 then .nullBlock
    else if byte = 120 then .headerBlock
    else if byte ∈ [49,50,51,52,53,54,55,103] then .unsupported
    else .invalid

def tarBlockSize : Nat := 512

def tarTypePosition : Nat := 156

def tarNamePosition : Nat := 0

def tarNameSize : Nat := 100

def tarSizePosition : Nat := 124

def tarSizeSize : Nat := 12

/-- `readData(ofLength:)` at an offset, which may come to the end of the file. -/
def readData (archive : List UInt8) (offset count : Nat) : List UInt8 :=
  (archive.drop offset).take count

def readTypeAtLocation (archive : List UInt8) (loc : Nat) : BRTarType :=
  .ofData (readData archive (loc + tarTypePosition) 1)

/-- A string from bytes in ASCII. -/
def ascii (data : List UInt8) : Option (List Char) :=
  if data.all fun b => b < 128 then some (data.map fun b => Char.ofNat b.toNat) else none

def readNameAtLocation (archive : List UInt8) (loc : Nat) : Except Stop (List Char) :=
  match ascii (readData archive (loc + tarNamePosition) tarNameSize) with
  | none => .error (.brTar .unknown)
  | some name => .ok name

def octalDigits (value : Nat) : List Char → Nat
  | [] => value
  | c :: text =>
    if '0' ≤ c ∧ c ≤ '7' then octalDigits (8 * value + (c.toNat - 48)) text else value

/-- `strtoll` to the base 8: spaces, a sign, and the digits up to the first other character. -/
def strtoll (text : List Char) : Int :=
  match text.dropWhile fun c => c = ' ' ∨ '\t' ≤ c ∧ c ≤ '\r' with
  | '-' :: digits => -octalDigits 0 digits
  | '+' :: digits => octalDigits 0 digits
  | digits => octalDigits 0 digits

/-- A size that is no text, or negative, is a trap. -/
def readSizeAtLocation (archive : List UInt8) (loc : Nat) : Except Stop Nat :=
  match ascii (readData archive (loc + tarSizePosition) tarSizeSize) with
  | none => .error (.trap .unwrap)
  | some octal =>
    let dec := strtoll octal
    if dec < 0 then .error (.trap .conversion) else .ok dec.toNat

/-- What the loop makes of a header. -/
inductive Block where
  | file (name : List Char) (size : Nat)
  | directory (name : List Char)
  | skipped (blockCount : Nat)
  deriving DecidableEq, Repr

def Block.blockCount : Block → Nat
  | file _ size => if size = 0 then 1 else 1 + ((size - 1) / tarBlockSize + 1)
  | directory _ => 1
  | skipped blockCount => blockCount

def readBlock (archive : List UInt8) (loc : Nat) : Except Stop Block :=
  match readTypeAtLocation archive loc with
  | .file => do
    let name ← readNameAtLocation archive loc
    let size ← readSizeAtLocation archive loc
    .ok (.file name size)
  | .directory => do
    let name ← readNameAtLocation archive loc
    .ok (.directory name)
  | .nullBlock => .ok (.skipped 1)
  | .headerBlock => .ok (.skipped (1 + 1))
  | .unsupported => do
    let size ← readSizeAtLocation archive loc
    .ok (.skipped (1 + size / tarBlockSize))
  | .invalid => .error (.brTar .unknown)

/-- A path as the file system goes it. -/
abbrev Path := List (Step (List Char))

def toStep : List Char → Option (Step (List Char))
  | [] => none
  | ['.'] => none
  | ['.','.'] => some .up
  | name => some (.name name)

/-- A path ends at its first NUL; between slashes it has names, and steps up. -/
def fileSystemPath (path : List Char) : Path :=
  ((path.takeWhile fun c => c ≠ '\x00').splitOn '/').filterMap toStep

/-- Repeated slashes, which Foundation takes out, make no difference to the file system. -/
def appendingPathComponent (path name : List Char) : List Char :=
  if path.getLast? = some '/' then path ++ name else path ++ '/' :: name

inductive Action where
  | removeItem
  | write (contents : List UInt8)
  | createFile
  | createDirectory
  deriving DecidableEq, Repr

structure Effect where
  action : Action
  path : Path
  deriving DecidableEq, Repr

/-- The directory to extract to, by its path from the root. -/
structure Destination where
  path : List Char
  absolute : path.head? = some '/'
  no_nul : '\x00' ∉ path

def Destination.directory (destination : Destination) : List (List Char) :=
  walk [] (fileSystemPath destination.path)

/-- The place is the destination, or below it. -/
def Destination.Contains (destination : Destination) (path : Path) : Prop :=
  destination.directory <+: walk [] path

/-- What the file manager answers, given what was done before. The directories that it creates for
    a path are parents of the path, or the path itself; those that the destination is in are there
    already. -/
structure FileSystem (destination : Destination) where
  fileExists : List Effect → Path → Bool
  completes : List Effect → Effect → Bool
  opensForWriting : List Effect → Path → Bool
  createdDirectories : List Effect → Path → List Path
  created_parents : ∀ done path, ∀ created ∈ createdDirectories done path,
    created <+: path ∧ fileSystemPath destination.path <+: created ∧
      (walk [] created <+: destination.directory → destination.Contains created)

section Extraction
variable {destination : Destination} (fs : FileSystem destination)

def call (effect : Effect) : Act Stop (List Effect) Unit := do
  let done ← get
  modify fun done => done ++ [effect]
  if fs.completes done effect then pure () else throw .fileManager

def removeExisting (path : Path) : Act Stop (List Effect) Unit := do
  let done ← get
  if fs.fileExists done path then call fs ⟨.removeItem,path⟩ else pure ()

def createFile (newFilePath : Path) (contents : List UInt8) : Act Stop (List Effect) Unit := do
  modify fun done => done ++ [⟨.createFile,newFilePath⟩]
  let done ← get
  if fs.opensForWriting done newFilePath then
    modify fun done => done ++ [⟨.write contents,newFilePath⟩]
  else throw (.brTar .unknown)

def createDirectory (dirPath : Path) : Act Stop (List Effect) Unit := do
  let done ← get
  let created := fs.createdDirectories done dirPath
  modify fun done => done ++ created.map fun path => ⟨.createDirectory,path⟩
  if fs.completes done ⟨.createDirectory,dirPath⟩ then pure () else throw .fileManager

def extractBlock (archive : List UInt8) (loc : Nat) : Block → Act Stop (List Effect) Unit
  | .file name size => do
    let newFilePath := fileSystemPath (appendingPathComponent destination.path name)
    removeExisting fs newFilePath
    if size = 0 then call fs ⟨.write [],newFilePath⟩
    else createFile fs newFilePath (readData archive (loc + tarBlockSize) size)
  | .directory name => do
    let dirPath := fileSystemPath (appendingPathComponent destination.path name)
    removeExisting fs dirPath
    createDirectory fs dirPath
  | .skipped _ => pure ()

/-- The loop, for no more than so many headers. -/
def extractFrom (archive : List UInt8) : Nat → Nat → Act Stop (List Effect) Unit
  | 0, _ => pure ()
  | count + 1, loc =>
    if loc < archive.length then do
      let block ← lift (readBlock archive loc)
      extractBlock fs archive loc block
      extractFrom archive count (loc + block.blockCount * tarBlockSize)
    else pure ()

/-- Each header takes a block at least, so there are no more than the archive has bytes. -/
def createFilesAndDirectoriesAtPath (tar : Option (List UInt8)) : Act Stop (List Effect) Unit :=
  match tar with
  | none => throw (.brTar .fileDoesntExist)
  | some archive => extractFrom fs archive archive.length 0

end Extraction

theorem Block.file_counts (name : List Char) (size : Nat) :
    0 < (Block.file name size).blockCount := by
  unfold Block.blockCount
  dsimp only
  split
  · exact Nat.one_pos
  · exact Nat.add_pos_left Nat.one_pos _

theorem readBlock_counts {archive : List UInt8} {loc : Nat} {block : Block}
    (read : readBlock archive loc = .ok block) : 0 < block.blockCount := by
  unfold readBlock at read
  split at read
  case h_1 =>
    obtain ⟨name,_,read⟩ := bind_ran.mp read
    obtain ⟨size,_,read⟩ := bind_ran.mp read
    cases read
    exact Block.file_counts name size
  case h_2 =>
    obtain ⟨name,_,read⟩ := bind_ran.mp read
    cases read
    exact Nat.one_pos
  case h_3 =>
    cases read
    exact Nat.one_pos
  case h_4 =>
    cases read
    exact Nat.two_pos
  case h_5 =>
    obtain ⟨size,_,read⟩ := bind_ran.mp read
    cases read
    exact Nat.add_pos_left Nat.one_pos _
  case h_6 => cases read

/-- The loop comes to the end of the archive; with more headers allowed it does nothing more. -/
theorem extractFrom_ends {destination : Destination} (fs : FileSystem destination)
    (archive : List UInt8) (more : Nat) {count loc : Nat}
    (enough : archive.length ≤ loc + count * tarBlockSize) :
    extractFrom fs archive (count + more) loc = extractFrom fs archive count loc := by
  induction count generalizing loc with
  | zero =>
    have past : ¬ loc < archive.length := by omega
    cases more with
    | zero => rfl
    | succ more => exact if_neg past
  | succ count ih =>
    rw [Nat.succ_add_eq_add_succ, Nat.add_succ]
    unfold extractFrom
    split
    case isFalse => rfl
    case isTrue =>
      cases read : readBlock archive loc with
      | error => rfl
      | ok block =>
        have counts := readBlock_counts read
        have next : archive.length ≤
            loc + block.blockCount * tarBlockSize + count * tarBlockSize := by
          unfold tarBlockSize at enough ⊢
          omega
        change (extractBlock fs archive loc block >>= fun _ => extractFrom fs archive _ _) =
          extractBlock fs archive loc block >>= fun _ => extractFrom fs archive _ _
        rw [ih next]

/-- The headers that the loop comes to as long as nothing fails, with their places. -/
def reachedFrom (archive : List UInt8) : Nat → Nat → List (Nat × Block)
  | 0, _ => []
  | count + 1, loc =>
    if loc < archive.length then
      match readBlock archive loc with
      | .error _ => []
      | .ok block =>
        (loc,block) :: reachedFrom archive count (loc + block.blockCount * tarBlockSize)
    else []

def reached (archive : List UInt8) : List (Nat × Block) := reachedFrom archive archive.length 0

/-- A file's name leads back into the destination. A directory's does so too, and leads nowhere on
    the way but above or below the destination. -/
def Stays (destination : Destination) : Block → Prop
  | .file name _ => (route (fileSystemPath name)).Returns destination.directory
  | .directory name => (route (fileSystemPath name)).Returns destination.directory ∧
    ∀ way, way <+: fileSystemPath name → (route way).Meets destination.directory
  | .skipped _ => True

theorem fileSystemPath_slash (first second : List Char) (no_nul : '\x00' ∉ first) :
    fileSystemPath (first ++ '/' :: second) = fileSystemPath first ++ fileSystemPath second := by
  have all : ∀ c ∈ first, decide (c ≠ '\x00') = true :=
    fun c there => decide_eq_true fun same => no_nul (same ▸ there)
  unfold fileSystemPath
  rw [List.takeWhile_append_of_pos all, List.takeWhile_cons_of_pos (by decide),
    List.takeWhile_eq_self_iff.mpr all, List.splitOn_append_cons_of_beq _ _ (beq_self_eq_true _),
    List.filterMap_append]

theorem fileSystemPath_append (destination : Destination) (name : List Char) :
    fileSystemPath (appendingPathComponent destination.path name) =
      fileSystemPath destination.path ++ fileSystemPath name := by
  unfold appendingPathComponent
  split
  case isTrue slash =>
    obtain ⟨start,parts⟩ := List.getLast?_eq_some_iff.mp slash
    have no_nul := destination.no_nul
    rw [parts] at no_nul ⊢
    have shorter : '\x00' ∉ start := fun there => no_nul (List.mem_append_left _ there)
    rw [List.append_assoc, List.singleton_append, fileSystemPath_slash start name shorter,
      fileSystemPath_slash start [] shorter]
    rw [show fileSystemPath [] = [] from rfl, List.append_nil]
  case isFalse => exact fileSystemPath_slash _ _ destination.no_nul

/-- A way from the destination ends in it exactly if its route returns. -/
theorem contains_append {destination : Destination} {way : Path} :
    destination.Contains (fileSystemPath destination.path ++ way) ↔
      (route way).Returns destination.directory := by
  unfold Destination.Contains
  rw [walk_append]
  exact walk_inside_iff

/-- Everything that was done was done in the destination. -/
def Contained (destination : Destination) (done : List Effect) : Prop :=
  ∀ effect ∈ done, destination.Contains effect.path

section Contained
variable {destination : Destination} {fs : FileSystem destination} {path : Path}

theorem contained_append {done more : List Effect} (before : Contained destination done)
    (new : Contained destination more) : Contained destination (done ++ more) := by
  intro effect there
  rcases List.mem_append.mp there with old | last
  · exact before effect old
  · exact new effect last

theorem contained_one {effect : Effect} (inside : destination.Contains effect.path) :
    Contained destination [effect] := by
  intro other there
  rw [List.mem_singleton.mp there]
  exact inside

theorem call_keeps {effect : Effect} (inside : destination.Contains effect.path) :
    Keeps (Contained destination) (call fs effect) := by
  refine keeps_bind keeps_get fun done => keeps_bind (keeps_modify ?_) fun _ => ?_
  · exact fun _ before => contained_append before (contained_one inside)
  · exact keeps_ite (fun _ => keeps_pure ()) (fun _ => keeps_throw _)

theorem removeExisting_keeps (inside : destination.Contains path) :
    Keeps (Contained destination) (removeExisting fs path) :=
  keeps_bind keeps_get fun _ => keeps_ite (fun _ => call_keeps inside) (fun _ => keeps_pure ())

theorem createFile_keeps (inside : destination.Contains path) (contents : List UInt8) :
    Keeps (Contained destination) (createFile fs path contents) := by
  refine keeps_bind (keeps_modify ?_) fun _ => keeps_bind keeps_get fun _ => ?_
  · exact fun _ before => contained_append before (contained_one inside)
  · refine keeps_ite (fun _ => keeps_modify ?_) (fun _ => keeps_throw _)
    exact fun _ before => contained_append before (contained_one inside)

/-- The parents that are created are inside if no part of the way leads elsewhere. -/
theorem createDirectory_keeps (fs : FileSystem destination) {way : Path}
    (meets : ∀ part, part <+: way → (route part).Meets destination.directory) :
    Keeps (Contained destination)
      (createDirectory fs (fileSystemPath destination.path ++ way)) := by
  refine keeps_bind keeps_get fun done => keeps_bind (keeps_modify ?_) fun _ => ?_
  · intro before contained
    refine contained_append contained ?_
    intro effect there
    obtain ⟨created,listed,rfl⟩ := List.mem_map.mp there
    obtain ⟨parent,⟨part,parts⟩,there_already⟩ := fs.created_parents done _ created listed
    rw [← parts] at parent there_already ⊢
    have on_way := (List.prefix_append_right_inj _).mp parent
    have place := walk_meets_iff.mpr (meets part on_way)
    rw [walk_append] at there_already
    rcases place with inside | above
    · exact contains_append.mpr (walk_inside_iff.mp inside)
    · exact there_already above
  · exact keeps_ite (fun _ => keeps_pure ()) (fun _ => keeps_throw _)

theorem extractBlock_keeps {archive : List UInt8} {loc : Nat} {block : Block}
    (stays : Stays destination block) :
    Keeps (Contained destination) (extractBlock fs archive loc block) := by
  cases block with
  | file name size =>
    have inside := contains_append.mpr stays
    rw [← fileSystemPath_append] at inside
    refine keeps_bind (removeExisting_keeps inside) fun _ => ?_
    exact keeps_ite (fun _ => call_keeps inside) (fun _ => createFile_keeps inside _)
  | directory name =>
    have inside := contains_append.mpr stays.1
    have way := fileSystemPath_append destination name
    have made := createDirectory_keeps fs stays.2
    rw [← way] at inside made
    exact keeps_bind (removeExisting_keeps inside) fun _ => made
  | skipped => exact keeps_pure ()

theorem extractFrom_keeps {archive : List UInt8} {count loc : Nat}
    (stays : ∀ entry ∈ reachedFrom archive count loc, Stays destination entry.2) :
    Keeps (Contained destination) (extractFrom fs archive count loc) := by
  induction count generalizing loc with
  | zero => exact keeps_pure ()
  | succ count ih =>
    unfold reachedFrom at stays
    unfold extractFrom
    refine keeps_ite (fun more => ?_) (fun _ => keeps_pure ())
    rw [if_pos more] at stays
    cases read : readBlock archive loc with
    | error stop => exact fun _ before => before
    | ok block =>
      rw [read] at stays
      intro s before
      rw [bind_ran (exec_lift (.ok block) s)]
      have first : Stays destination block := stays (loc,block) List.mem_cons_self
      have rest := ih fun entry later => stays entry (List.mem_cons_of_mem _ later)
      exact keeps_bind (extractBlock_keeps first) (fun _ => rest) s before

end Contained

instance (destination : Destination) (path : Path) : Decidable (destination.Contains path) :=
  inferInstanceAs (Decidable (_ <+: _))

/-- A file system in which everything exists and nothing fails. All parents of a directory are
    created that may be. -/
def permissive (destination : Destination) : FileSystem destination where
  fileExists _ _ := true
  completes _ _ := true
  opensForWriting _ _ := true
  createdDirectories _ path := path.inits.filter fun created =>
    fileSystemPath destination.path <+: created ∧
      (walk [] created <+: destination.directory → destination.Contains created)
  created_parents _ path created listed := by
    obtain ⟨front,allowed⟩ := List.mem_filter.mp listed
    exact ⟨(List.mem_inits _ _).mp front,of_decide_eq_true allowed⟩

section Permissive
variable {destination : Destination}

theorem permissive_call (effect : Effect) (done : List Effect) :
    exec (call (permissive destination) effect) done = (.ok (),done ++ [effect]) := rfl

theorem permissive_remove (path : Path) (done : List Effect) :
    exec (removeExisting (permissive destination) path) done =
      (.ok (),done ++ [⟨.removeItem,path⟩]) := rfl

theorem permissive_createFile (path : Path) (contents : List UInt8) (done : List Effect) :
    exec (createFile (permissive destination) path contents) done =
      (.ok (),done ++ [⟨.createFile,path⟩] ++ [⟨.write contents,path⟩]) := rfl

theorem permissive_createDirectory (path : Path) (done : List Effect) :
    exec (createDirectory (permissive destination) path) done = (.ok (),done ++
      ((permissive destination).createdDirectories [] path).map (⟨.createDirectory,·⟩)) := rfl

/-- All parents of a directory are created inside only if no part of its way leads elsewhere. -/
theorem permissive_directory {way : Path} {more : List Effect}
    (made : ∀ created ∈ (permissive destination).createdDirectories []
      (fileSystemPath destination.path ++ way), ⟨.createDirectory,created⟩ ∈ more)
    (contained : Contained destination more) {part : Path} (front : part <+: way) :
    (route part).Meets destination.directory := by
  refine walk_meets_iff.mp ?_
  by_cases above : walk [] (fileSystemPath destination.path ++ part) <+: destination.directory
  · rw [walk_append] at above
    exact Or.inr above
  · have listed : fileSystemPath destination.path ++ part ∈
        (permissive destination).createdDirectories [] (fileSystemPath destination.path ++ way) :=
      List.mem_filter.mpr ⟨(List.mem_inits _ _).mpr ((List.prefix_append_right_inj _).mpr front),
        decide_eq_true ⟨List.prefix_append _ _,fun there => absurd there above⟩⟩
    exact Or.inl (walk_inside_iff.mpr (contains_append.mp (contained _ (made _ listed))))

/-- There all is done that a block asks for, and if it is done in the destination the block
    stays. -/
theorem permissive_block (destination : Destination) (archive : List UInt8) (loc : Nat)
    (block : Block) (done : List Effect) : ∃ more,
      exec (extractBlock (permissive destination) archive loc block) done = (.ok (),done ++ more) ∧
        (Contained destination more → Stays destination block) := by
  cases block with
  | skipped => exact ⟨[],by rw [List.append_nil]; rfl,fun _ => trivial⟩
  | file name size =>
    let path := fileSystemPath (appendingPathComponent destination.path name)
    have stays : ∀ more, ⟨.removeItem,path⟩ ∈ more → Contained destination more →
        Stays destination (.file name size) := by
      intro more removed contained
      have inside := contained _ removed
      dsimp only [path] at inside
      rw [fileSystemPath_append] at inside
      exact contains_append.mp inside
    unfold extractBlock
    dsimp only
    rw [bind_ran (permissive_remove path done)]
    by_cases empty : size = 0
    · rw [if_pos empty, permissive_call, List.append_assoc]
      exact ⟨_,rfl,stays _ (List.mem_append_left _ (List.mem_singleton_self _))⟩
    · rw [if_neg empty, permissive_createFile, List.append_assoc, List.append_assoc]
      exact ⟨_,rfl,stays _ (List.mem_append_left _ (List.mem_singleton_self _))⟩
  | directory name =>
    let path := fileSystemPath (appendingPathComponent destination.path name)
    unfold extractBlock
    dsimp only
    rw [bind_ran (permissive_remove path done), permissive_createDirectory, List.append_assoc]
    refine ⟨_,rfl,?_⟩
    intro contained
    constructor
    · have inside := contained _ (List.mem_append_left _ (List.mem_singleton_self _))
      dsimp only [path] at inside
      rw [fileSystemPath_append] at inside
      exact contains_append.mp inside
    · intro way front
      refine permissive_directory ?_ contained front
      intro created listed
      rw [← fileSystemPath_append] at listed
      exact List.mem_append_right _ (List.mem_map_of_mem listed)

theorem permissive_run (destination : Destination) (archive : List UInt8) (count loc : Nat)
    (done : List Effect) :
    ∃ more, (exec (extractFrom (permissive destination) archive count loc) done).2 = done ++ more ∧
      (Contained destination more →
        ∀ entry ∈ reachedFrom archive count loc, Stays destination entry.2) := by
  induction count generalizing loc done with
  | zero => exact ⟨[],(List.append_nil _).symm,fun _ => nofun⟩
  | succ count ih =>
    unfold extractFrom reachedFrom
    split
    case isFalse => exact ⟨[],(List.append_nil _).symm,fun _ => nofun⟩
    case isTrue =>
      cases read : readBlock archive loc with
      | error stop => exact ⟨[],(List.append_nil _).symm,fun _ => nofun⟩
      | ok block =>
        obtain ⟨first,ran,stays⟩ := permissive_block destination archive loc block done
        obtain ⟨rest,later,others⟩ := ih (loc + block.blockCount * tarBlockSize) (done ++ first)
        refine ⟨first ++ rest,?_,?_⟩
        · rw [bind_ran (exec_lift (.ok block) done), bind_ran ran, later, List.append_assoc]
        · intro contained entry there
          rcases List.mem_cons.mp there with rfl | listed
          · exact stays fun effect among => contained effect (List.mem_append_left _ among)
          · exact others (fun effect among => contained effect (List.mem_append_right _ among))
              entry listed

end Permissive

/-- Whatever the file system does, extraction stays in its destination, exactly if each file and
    directory that the loop comes to has a name that does. -/
theorem contained_iff (destination : Destination) (archive : List UInt8) :
    (∀ fs : FileSystem destination, Contained destination
      (exec (createFilesAndDirectoriesAtPath fs (some archive)) []).2) ↔
    ∀ entry ∈ reached archive, Stays destination entry.2 := by
  constructor
  · intro contained
    obtain ⟨more,ran,stays⟩ := permissive_run destination archive archive.length 0 []
    have all := contained (permissive destination)
    unfold createFilesAndDirectoriesAtPath at all
    dsimp only at all
    rw [ran] at all
    exact stays all
  · intro stays fs
    exact extractFrom_keeps stays [] nofun

/-- One empty file of the name `../x`. -/
def escapingArchive : List UInt8 :=
  [46,46,47,120] ++ List.replicate 152 0 ++ [48] ++ List.replicate 355 0

def inRoot : Destination := ⟨['/','d'],rfl,by decide⟩

/-- It is removed and written beside the destination. -/
theorem escaping_archive :
    exec (createFilesAndDirectoriesAtPath (permissive inRoot) (some escapingArchive)) [] =
        (.ok (),[⟨.removeItem,[.name ['d'],.up,.name ['x']]⟩,
          ⟨.write [],[.name ['d'],.up,.name ['x']]⟩]) ∧
      ¬ inRoot.Contains [.name ['d'],.up,.name ['x']] :=
  ⟨by decide +kernel,by decide⟩

end TarExtraction
