import AltMessenger.SwiftText
import AltMessenger.TarExtraction
import AltMessenger.TarFormat

/-!
The extraction of archives that are in the format: where the loop comes to the headers
of the entries, and when it makes the archive's files and directories and no others.
-/
namespace TarArchives
open SwiftRuntime FaultyState TarExtraction TarFormat

/-- A file or a directory of an archive. -/
inductive Item where
  | file (name : List Char) (contents : List UInt8)
  | directory (name : List Char)
  deriving DecidableEq, Repr

def text (bytes : List UInt8) : List Char := bytes.map fun b => Char.ofNat b.toNat

/-- What an entry stands for in an archive. -/
def items (e : Entry) : List Item :=
  if e.typeflag = 48 ∨ e.typeflag = 0 then [.file (text e.name) e.data]
  else if e.typeflag = 53 then [.directory (text e.name)]
  else []

section Making
variable {destination : Destination} (fs : FileSystem destination)

def makeItem : Item → Act Stop (List Effect) Unit
  | .file name contents => do
    let path := fileSystemPath (appendingPathComponent destination.path name)
    removeExisting fs path
    if contents = [] then call fs ⟨.write [],path⟩ else createFile fs path contents
  | .directory name => do
    let path := fileSystemPath (appendingPathComponent destination.path name)
    removeExisting fs path
    createDirectory fs path

def makeAll : List Item → Act Stop (List Effect) Unit
  | [] => pure ()
  | item :: items => do
    makeItem fs item
    makeAll items

end Making

/-- The loop comes to the headers one after another, and whatever the file system does, what is made
    is what making the archive's files and directories in their order makes. -/
structure Faithful (entries : List Entry) (empty : Nat) : Prop where
  places : (reached (archive entries empty)).map Prod.fst = places empty 0 entries
  made : ∀ (destination : Destination) (fs : FileSystem destination),
    exec (createFilesAndDirectoriesAtPath fs (some (archive entries empty))) [] =
      exec (makeAll fs (entries.flatMap items)) []

/-- What the loop makes of an entry's header. -/
def blockOf (e : Entry) : Block :=
  if e.typeflag = 48 then .file (text e.nameField) e.data.length
  else if e.typeflag = 53 then .directory (text e.nameField)
  else if e.typeflag = 0 then .skipped 1
  else if e.typeflag = 120 then .skipped (1 + 1)
  else .skipped (1 + e.data.length / tarBlockSize)

/-- What the loop makes of the whole entry. -/
def readItems (e : Entry) : List Item := if e.typeflag = 0 then [] else items e

def Advances (e : Entry) : Prop := (blockOf e).blockCount * tarBlockSize = e.length

/-- A file of the type `0`, a directory without data, an extended header of one block of data, or
    another entry whose data fills its blocks. -/
structure Right (e : Entry) : Prop where
  no_nul : e.typeflag ≠ 0
  directory : e.typeflag = 53 → e.data = []
  headerBlock : e.typeflag = 120 → 0 < e.data.length ∧ e.data.length ≤ 512
  unsupported : e.typeflag ∉ [48,53,120] → 512 ∣ e.data.length

section Text
variable {bytes : List UInt8}

theorem ascii_text (all : ∀ b ∈ bytes, b < 128) : ascii bytes = some (text bytes) := by
  rw [ascii, if_pos]
  · rfl
  · simpa using all

theorem digit_char {d : UInt8} (octal : 48 ≤ d ∧ d < 56) :
    ('0' ≤ Char.ofNat d.toNat ∧ Char.ofNat d.toNat ≤ '7') ∧
      (Char.ofNat d.toNat).toNat = d.toNat := by
  have low : 48 ≤ d.toNat := UInt8.le_iff_toNat_le.mp octal.1
  have high : d.toNat < 56 := UInt8.lt_iff_toNat_lt.mp octal.2
  have number : (Char.ofNat d.toNat).toNat = d.toNat := SwiftText.toNat_ofNat (by omega)
  refine ⟨⟨?_,?_⟩,number⟩
  · change '0'.toNat ≤ (Char.ofNat d.toNat).toNat
    rw [number]
    exact low
  · change (Char.ofNat d.toNat).toNat ≤ '7'.toNat
    rw [number]
    exact Nat.le_of_lt_succ high

theorem octalDigits_text {digits ending : List UInt8} (octal : ∀ d ∈ digits, 48 ≤ d ∧ d < 56)
    (blank : ∀ b ∈ ending, b = 0 ∨ b = 32) (value : Nat) :
    octalDigits value (text (digits ++ ending)) =
      digits.foldl (fun n d => 8 * n + (d.toNat - 48)) value := by
  induction digits generalizing value with
  | nil =>
    cases ending with
    | nil => rfl
    | cons b ending =>
      rcases blank b (by simp) with rfl | rfl
      · rfl
      · rfl
  | cons d digits ih =>
    obtain ⟨between,number⟩ := digit_char (octal d (by simp))
    rw [List.cons_append, text, List.map_cons, octalDigits, if_pos between, number]
    exact ih (fun d mem => octal d (List.mem_cons_of_mem _ mem)) _

theorem strtoll_text (field : SizeField) : strtoll (text field.bytes) = field.value := by
  obtain ⟨d,digits,digits_eq⟩ := List.exists_cons_of_ne_nil field.digits_some
  have octal := field.digits_octal
  obtain ⟨between,number⟩ := digit_char (octal d (by simp [digits_eq]))
  have low : 48 ≤ d.toNat := UInt8.le_iff_toNat_le.mp (octal d (by simp [digits_eq])).1
  have start : (text field.bytes).dropWhile (fun c => c = ' ' ∨ '\t' ≤ c ∧ c ≤ '\r') =
      Char.ofNat d.toNat :: text (digits ++ field.ending) := by
    have parts : text field.bytes = text (List.replicate field.spaces 32) ++
        Char.ofNat d.toNat :: text (digits ++ field.ending) := by
      simp [SizeField.bytes, digits_eq, text]
    rw [parts, List.dropWhile_append_of_pos]
    · rw [List.dropWhile_cons_of_neg]
      rw [decide_eq_true_iff]
      rintro (same | ⟨_,control⟩)
      · have number' : (Char.ofNat d.toNat).toNat = 32 := by rw [same]; rfl
        omega
      · have number' : (Char.ofNat d.toNat).toNat ≤ 13 := control
        omega
    · intro c mem
      obtain ⟨b,space,rfl⟩ := List.mem_map.mp mem
      rw [List.eq_of_mem_replicate space]
      rfl
  have plain : Char.ofNat d.toNat ≠ '-' ∧ Char.ofNat d.toNat ≠ '+' := by
    constructor
    · intro same
      have number' : (Char.ofNat d.toNat).toNat = 45 := by rw [same]; rfl
      omega
    · intro same
      have number' : (Char.ofNat d.toNat).toNat = 43 := by rw [same]; rfl
      omega
  have digits_read := octalDigits_text octal field.ending_blank 0
  rw [digits_eq] at digits_read
  unfold strtoll
  rw [start]
  split
  · rename_i same
    exact absurd (List.cons.inj same).1 plain.1
  · rename_i same
    exact absurd (List.cons.inj same).1 plain.2
  · rename_i same
    rw [SizeField.value, digits_eq, ← digits_read]
    rfl

end Text

theorem fileSystemPath_padded {name : List Char} (no_nul : '\x00' ∉ name) (count : Nat) :
    fileSystemPath (name ++ List.replicate count '\x00') = fileSystemPath name := by
  have all : ∀ c ∈ name, decide (c ≠ '\x00') = true :=
    fun c there => decide_eq_true fun same => no_nul (same ▸ there)
  have none_after : (List.replicate count '\x00').takeWhile (fun c => c ≠ '\x00') = [] := by
    cases count with
    | zero => rfl
    | succ count => rfl
  unfold fileSystemPath
  rw [List.takeWhile_append_of_pos all, none_after, List.append_nil,
    List.takeWhile_eq_self_iff.mpr all]

section Entries
variable {e : Entry}

/-- The path of an entry does not depend on how its name is filled up. -/
theorem path_padded (destination : Destination) (e : Entry) :
    fileSystemPath (appendingPathComponent destination.path (text e.nameField)) =
      fileSystemPath (appendingPathComponent destination.path (text e.name)) := by
  have no_nul : '\x00' ∉ text e.name := by
    intro mem
    obtain ⟨b,there,same⟩ := List.mem_map.mp mem
    have plain := e.name_text b there
    have small : b.toNat < 128 := UInt8.lt_iff_toNat_lt.mp plain.2
    have number : (Char.ofNat b.toNat).toNat = b.toNat := SwiftText.toNat_ofNat (by omega)
    rw [same] at number
    exact plain.1 (UInt8.toNat_inj.mp number.symm)
  have padded : text e.nameField =
      text e.name ++ List.replicate (100 - e.name.length) '\x00' := by
    simp [text, Entry.nameField]
  rw [fileSystemPath_append, fileSystemPath_append, padded, fileSystemPath_padded no_nul]

theorem ascii_nameField (e : Entry) : ascii e.nameField = some (text e.nameField) := by
  apply ascii_text
  intro b mem
  rcases List.mem_append.mp mem with there | padding
  · exact (e.name_text b there).2
  · rw [List.eq_of_mem_replicate padding]
    decide

theorem ascii_size (field : SizeField) : ascii field.bytes = some (text field.bytes) := by
  apply ascii_text
  intro b mem
  rcases List.mem_append.mp mem with there | ending
  · rcases List.mem_append.mp there with space | digit
    · rw [List.eq_of_mem_replicate space]
      decide
    · have high : b.toNat < 56 := UInt8.lt_iff_toNat_lt.mp (field.digits_octal b digit).2
      exact UInt8.lt_iff_toNat_lt.mpr (Nat.lt_trans high (by decide))
  · rcases field.ending_blank b ending with rfl | rfl
    · decide
    · decide

theorem readBlock_entry (before after : List UInt8) (e : Entry) :
    readBlock (before ++ (e.bytes ++ after)) before.length = .ok (blockOf e) := by
  have type : readTypeAtLocation (before ++ (e.bytes ++ after)) before.length =
      .ofData [e.typeflag] := congrArg BRTarType.ofData (type_slice e before after)
  have name : readNameAtLocation (before ++ (e.bytes ++ after)) before.length =
      .ok (text e.nameField) := by
    have slice : readData (before ++ (e.bytes ++ after)) (before.length + tarNamePosition)
        tarNameSize = e.nameField := name_slice e before after
    rw [readNameAtLocation, slice, ascii_nameField]
  have size : readSizeAtLocation (before ++ (e.bytes ++ after)) before.length =
      .ok e.data.length := by
    have slice : readData (before ++ (e.bytes ++ after)) (before.length + tarSizePosition)
        tarSizeSize = e.size.bytes := size_slice e before after
    rw [readSizeAtLocation, slice, ascii_size]
    dsimp only
    rw [strtoll_text, e.size_value, if_neg (by omega)]
    rfl
  unfold readBlock blockOf
  rw [type, BRTarType.ofData]
  by_cases file : e.typeflag = 48
  · rw [if_pos file, if_pos file]
    dsimp only
    rw [SwiftRuntime.bind_ready name, SwiftRuntime.bind_ready size]
  rw [if_neg file, if_neg file]
  by_cases directory : e.typeflag = 53
  · rw [if_pos directory, if_pos directory]
    dsimp only
    rw [SwiftRuntime.bind_ready name]
  rw [if_neg directory, if_neg directory]
  by_cases nul : e.typeflag = 0
  · rw [if_pos nul, if_pos nul]
  rw [if_neg nul, if_neg nul]
  by_cases extended : e.typeflag = 120
  · rw [if_pos extended, if_pos extended]
  have unsupported : e.typeflag ∈ [49,50,51,52,53,54,55,103] := by
    have known := e.known
    simp only [typeflags, List.mem_cons, List.not_mem_nil, or_false] at known ⊢
    tauto
  rw [if_neg extended, if_neg extended, if_pos unsupported]
  dsimp only
  rw [SwiftRuntime.bind_ready size]

/-- The loop goes on behind the entry exactly if it is of one of these kinds. -/
theorem advances_iff : Advances e ↔
    (e.typeflag = 0 ∨ e.typeflag = 53 → e.data = []) ∧
      (e.typeflag = 120 → 0 < e.data.length ∧ e.data.length ≤ 512) ∧
      (e.typeflag ∉ [0,48,53,120] → 512 ∣ e.data.length) := by
  unfold Advances blockOf Entry.length blocks blockSize tarBlockSize
  rw [← List.length_eq_zero_iff]
  by_cases file : e.typeflag = 48
  · rw [if_pos file]
    refine iff_of_true ?_ (by simp [file])
    unfold Block.blockCount tarBlockSize
    dsimp only
    split
    · omega
    · omega
  rw [if_neg file]
  by_cases directory : e.typeflag = 53
  · rw [if_pos directory]
    simp [directory, Block.blockCount, -List.length_eq_zero_iff]
    omega
  rw [if_neg directory]
  by_cases nul : e.typeflag = 0
  · rw [if_pos nul]
    simp [nul, Block.blockCount, -List.length_eq_zero_iff]
    omega
  rw [if_neg nul]
  by_cases extended : e.typeflag = 120
  · rw [if_pos extended]
    simp [extended, Block.blockCount]
    omega
  rw [if_neg extended]
  simp [Block.blockCount, file, directory, nul, extended]
  omega

/-- An entry is right exactly if the loop goes on behind it, and it is no file of the old type. -/
theorem right_iff : Right e ↔ Advances e ∧ e.typeflag ≠ 0 := by
  rw [advances_iff]
  constructor
  · intro right
    refine ⟨⟨?_,right.headerBlock,?_⟩,right.no_nul⟩
    · rintro (nul | directory)
      · exact absurd nul right.no_nul
      · exact right.directory directory
    · intro other
      exact right.unsupported fun mem => other (List.mem_cons_of_mem 0 (by simpa using mem))
  · rintro ⟨⟨plain,extended,filled⟩,no_nul⟩
    refine ⟨no_nul,fun directory => plain (Or.inr directory),extended,?_⟩
    intro other
    apply filled
    simp only [List.mem_cons, not_or] at other ⊢
    tauto

end Entries

theorem trailer_succ (empty : Nat) :
    trailer (empty + 1) = List.replicate blockSize 0 ++ trailer empty := by
  unfold trailer
  rw [Nat.mul_add, Nat.add_comm, Nat.mul_one, List.replicate_add]

theorem readBlock_trailer (before : List UInt8) (empty : Nat) :
    readBlock (before ++ trailer (empty + 1)) before.length = .ok (.skipped 1) := by
  have parts : before ++ trailer (empty + 1) = (before ++ List.replicate 156 0) ++
      ([0] ++ (List.replicate 355 0 ++ trailer empty)) := by
    rw [trailer_succ, List.append_assoc]
    rfl
  have slice : readData (before ++ trailer (empty + 1)) (before.length + tarTypePosition) 1 =
      [0] := by
    rw [readData, parts]
    exact slice_eq (by rw [List.length_append, List.length_replicate]; rfl) rfl
  have type : readTypeAtLocation (before ++ trailer (empty + 1)) before.length = .nullBlock :=
    congrArg BRTarType.ofData slice
  rw [readBlock, type]

theorem archive_cons (e : Entry) (entries : List Entry) (empty : Nat) :
    archive (e :: entries) empty = e.bytes ++ archive entries empty := by
  rw [archive, List.flatMap_cons, List.append_assoc]
  rfl

theorem blocks_inside (entries : List Entry) (empty : Nat) :
    entries.length + empty ≤ (archive entries empty).length := by
  induction entries with
  | nil =>
    simp [archive, trailer, blockSize]
    omega
  | cons e entries ih =>
    rw [archive_cons, List.length_append, bytes_length, List.length_cons, Entry.length, blockSize]
    omega

section Runs
variable {empty count : Nat}

/-- The rest of the archive, when the loop is at the empty blocks. -/
theorem reached_trailer (before : List UInt8) (enough : empty ≤ count) :
    (reachedFrom (before ++ trailer empty) count before.length).map Prod.fst =
      places empty before.length [] := by
  induction empty generalizing before count with
  | zero =>
    cases count with
    | zero => rfl
    | succ count =>
      rw [reachedFrom, if_neg (by simp [trailer])]
      rfl
  | succ empty ih =>
    obtain ⟨count,rfl⟩ := Nat.exists_eq_add_of_lt enough
    rw [reachedFrom, if_pos (by simp [trailer, blockSize]), readBlock_trailer]
    have next := @ih (empty + count) (before ++ List.replicate blockSize 0) (by omega)
    rw [List.append_assoc, ← trailer_succ, List.length_append, List.length_replicate] at next
    have step : (Block.skipped 1).blockCount * tarBlockSize = blockSize := rfl
    rw [List.map_cons, step, next, places_nil, places_nil, List.range_succ_eq_map, List.map_cons,
      List.map_map]
    congr 1
    apply List.map_congr_left
    intro i _
    simp only [Function.comp, Nat.succ_eq_add_one, Nat.mul_add]
    omega

theorem reached_entry (before after : List UInt8) (e : Entry) (count : Nat) :
    reachedFrom (before ++ (e.bytes ++ after)) (count + 1) before.length =
      (before.length,blockOf e) :: reachedFrom (before ++ (e.bytes ++ after)) count
        (before.length + (blockOf e).blockCount * tarBlockSize) := by
  have more : before.length < (before ++ (e.bytes ++ after)).length := by
    rw [List.length_append, List.length_append, bytes_length, Entry.length, blockSize]
    omega
  rw [reachedFrom, if_pos more, readBlock_entry]

/-- Entries that the loop goes on behind are come to one after another. -/
theorem reached_entries {entries : List Entry} (before : List UInt8)
    (advance : ∀ e ∈ entries, Advances e) (enough : entries.length + empty ≤ count) :
    (reachedFrom (before ++ archive entries empty) count before.length).map Prod.fst =
      places empty before.length entries := by
  induction entries generalizing before count with
  | nil => exact reached_trailer before (by simpa using enough)
  | cons e entries ih =>
    rw [List.length_cons] at enough
    obtain ⟨count,rfl⟩ := Nat.exists_eq_add_of_lt (show 0 < count by omega)
    have first := advance e (by simp)
    have next := @ih (0 + count) (before ++ e.bytes)
      (fun e mem => advance e (List.mem_cons_of_mem _ mem)) (by omega)
    rw [List.append_assoc, List.length_append, bytes_length] at next
    rw [archive_cons, reached_entry, first, List.map_cons, next, places]

theorem extract_trailer {destination : Destination} (fs : FileSystem destination)
    (before : List UInt8) (enough : empty ≤ count) :
    extractFrom fs (before ++ trailer empty) count before.length = pure () := by
  induction empty generalizing before count with
  | zero =>
    cases count with
    | zero => rfl
    | succ count => rw [extractFrom, if_neg (by simp [trailer])]
  | succ empty ih =>
    obtain ⟨count,rfl⟩ := Nat.exists_eq_add_of_lt enough
    rw [extractFrom, if_pos (by simp [trailer, blockSize]), readBlock_trailer]
    have next := @ih (empty + count) (before ++ List.replicate blockSize 0) (by omega)
    rw [List.append_assoc, ← trailer_succ, List.length_append, List.length_replicate] at next
    exact next

theorem makeAll_append {destination : Destination} (fs : FileSystem destination)
    (first second : List Item) :
    makeAll fs (first ++ second) = makeAll fs first >>= fun _ => makeAll fs second := by
  induction first with
  | nil => rfl
  | cons item first ih => rw [List.cons_append, makeAll, makeAll, ih, bind_assoc]

/-- What the loop makes of an entry are its items. -/
theorem extract_entry {destination : Destination} (fs : FileSystem destination)
    (before after : List UInt8) (e : Entry) :
    extractBlock fs (before ++ (e.bytes ++ after)) before.length (blockOf e) =
      makeAll fs (readItems e) := by
  have contents : readData (before ++ (e.bytes ++ after)) (before.length + tarBlockSize)
      e.data.length = e.data := data_slice e before after
  unfold blockOf readItems items
  by_cases file : e.typeflag = 48
  · have no_nul : e.typeflag ≠ 0 := by rw [file]; decide
    rw [if_pos file, if_neg no_nul, if_pos (Or.inl file), makeAll, makeAll, bind_pure_unit,
      makeItem, extractBlock, contents, path_padded]
    simp only [List.length_eq_zero_iff]
  by_cases nul : e.typeflag = 0
  · have no_directory : e.typeflag ≠ 53 := by rw [nul]; decide
    rw [if_neg file, if_neg no_directory, if_pos nul, if_pos nul]
    rfl
  rw [if_neg file, if_neg nul, if_neg (not_or.mpr ⟨file,nul⟩)]
  by_cases directory : e.typeflag = 53
  · rw [if_pos directory, if_pos directory, if_neg nul, makeAll, makeAll, bind_pure_unit,
      makeItem, extractBlock, path_padded]
  rw [if_neg directory, if_neg directory, if_neg nul]
  split
  · rfl
  · rfl

theorem extract_entries {destination : Destination} (fs : FileSystem destination)
    {entries : List Entry} (before : List UInt8) (advance : ∀ e ∈ entries, Advances e)
    (enough : entries.length + empty ≤ count) :
    extractFrom fs (before ++ archive entries empty) count before.length =
      makeAll fs (entries.flatMap readItems) := by
  induction entries generalizing before count with
  | nil => exact extract_trailer fs before (by simpa using enough)
  | cons e entries ih =>
    rw [List.length_cons] at enough
    obtain ⟨count,rfl⟩ := Nat.exists_eq_add_of_lt (show 0 < count by omega)
    have first := advance e (by simp)
    have next := @ih (0 + count) (before ++ e.bytes)
      (fun e mem => advance e (List.mem_cons_of_mem _ mem)) (by omega)
    rw [List.append_assoc, List.length_append, bytes_length] at next
    have more : before.length < (before ++ (e.bytes ++ archive entries empty)).length := by
      rw [List.length_append, List.length_append, bytes_length, Entry.length, blockSize]
      omega
    rw [archive_cons, extractFrom, if_pos more, readBlock_entry]
    change (extractBlock fs _ _ _ >>= fun _ => extractFrom fs _ _ _) = _
    rw [first, next, extract_entry, List.flatMap_cons, makeAll_append]

theorem reached_head {archive : List UInt8} {count loc : Nat} {x : Nat}
    (head : ((reachedFrom archive count loc).map Prod.fst).head? = some x) : x = loc := by
  cases count with
  | zero => simp [reachedFrom] at head
  | succ count =>
    unfold reachedFrom at head
    split at head
    case isTrue =>
      split at head
      · simp at head
      · simpa using head.symm
    case isFalse => simp at head

theorem places_head (empty loc : Nat) (entries : List Entry) :
    (places (empty + 1) loc entries).head? = some loc := by
  cases entries with
  | nil => simp [places, List.range_succ_eq_map]
  | cons e entries => rfl

/-- A loop that comes to the right places goes on behind each entry. -/
theorem advances_of_places {entries : List Entry} (before : List UInt8)
    (enough : entries.length + (empty + 1) ≤ count)
    (same : (reachedFrom (before ++ archive entries (empty + 1)) count before.length).map Prod.fst =
      places (empty + 1) before.length entries) : ∀ e ∈ entries, Advances e := by
  induction entries generalizing before count with
  | nil => simp
  | cons e entries ih =>
    rw [List.length_cons] at enough
    obtain ⟨count,rfl⟩ := Nat.exists_eq_add_of_lt (show 0 < count by omega)
    rw [archive_cons, reached_entry, List.map_cons, places, List.cons.injEq] at same
    have later := same.2
    have head := places_head empty (before.length + e.length) entries
    rw [← later] at head
    have first : Advances e := by
      have next := reached_head head
      unfold Advances
      omega
    rw [first] at later
    have rest := @ih (0 + count) (before ++ e.bytes) (by omega) (by
      rw [List.append_assoc, List.length_append, bytes_length]
      exact later)
    intro other mem
    rcases List.mem_cons.mp mem with rfl | mem
    · exact first
    · exact rest other mem

end Runs

/-- The writes among what was done. -/
def writes (done : List Effect) : Nat :=
  done.countP fun effect => match effect.action with
    | .write _ => true
    | _ => false

def files (items : List Item) : Nat :=
  items.countP fun item => match item with
    | .file _ _ => true
    | .directory _ => false

/-- Where nothing fails, each file is written once. -/
theorem permissive_writes (destination : Destination) (items : List Item) (done : List Effect) :
    writes (exec (makeAll (permissive destination) items) done).2 = writes done + files items := by
  induction items generalizing done with
  | nil => rfl
  | cons item items ih =>
    have step : ∃ more, exec (makeItem (permissive destination) item) done =
        (.ok (),done ++ more) ∧ writes more = files [item] := by
      cases item with
      | file name contents =>
        unfold makeItem
        dsimp only
        rw [bind_ran (permissive_remove _ done)]
        by_cases blank : contents = []
        · rw [if_pos blank, permissive_call, List.append_assoc]
          exact ⟨_,rfl,rfl⟩
        · rw [if_neg blank, permissive_createFile, List.append_assoc, List.append_assoc]
          exact ⟨_,rfl,rfl⟩
      | directory name =>
        unfold makeItem
        dsimp only
        rw [bind_ran (permissive_remove _ done), permissive_createDirectory, List.append_assoc]
        refine ⟨_,rfl,?_⟩
        simp [writes, files, List.countP_map, Function.comp_def]
    obtain ⟨more,ran,counted⟩ := step
    have both : writes (done ++ more) = writes done + writes more := List.countP_append
    have all : files ([item] ++ items) = files [item] + files items := List.countP_append
    rw [List.singleton_append] at all
    rw [makeAll, bind_ran ran, ih, both, counted, all]
    omega

/-- Only files of the old type are left out. -/
theorem files_read (entries : List Entry) :
    files (entries.flatMap items) = files (entries.flatMap readItems) +
      entries.countP (·.typeflag = 0) := by
  induction entries with
  | nil => rfl
  | cons e entries ih =>
    have both : ∀ first second, files (first ++ second) = files first + files second :=
      fun _ _ => List.countP_append
    have first : files (items e) = files (readItems e) + if e.typeflag = 0 then 1 else 0 := by
      unfold readItems
      by_cases nul : e.typeflag = 0
      · rw [if_pos nul, if_pos nul, items, if_pos (Or.inr nul)]
        rfl
      · rw [if_neg nul, if_neg nul]
        rfl
    rw [List.flatMap_cons, List.flatMap_cons, both, both, ih, first, List.countP_cons]
    simp only [decide_eq_true_eq]
    omega

/-- An archive is extracted faithfully exactly if its entries are files of the type `0`, directories
    without data, extended headers of one block of data, and others that fill their blocks. -/
theorem faithful_iff (entries : List Entry) (more : Nat) :
    Faithful entries (more + 2) ↔ ∀ e ∈ entries, Right e := by
  have enough := blocks_inside entries (more + 2)
  constructor
  · intro faithful
    have advance := advances_of_places [] enough faithful.places
    have run := faithful.made inRoot (permissive inRoot)
    have made := extract_entries (permissive inRoot) [] advance enough
    change extractFrom (permissive inRoot) (archive entries (more + 2)) _ 0 = _ at made
    rw [createFilesAndDirectoriesAtPath, made] at run
    have counted := congrArg (fun result => writes result.2) run
    rw [permissive_writes, permissive_writes, files_read] at counted
    have none_nul : entries.countP (·.typeflag = 0) = 0 := by omega
    intro e mem
    have no_nul := List.countP_eq_zero.mp none_nul e mem
    exact right_iff.mpr ⟨advance e mem,fun nul => no_nul (decide_eq_true nul)⟩
  · intro right
    have advance : ∀ e ∈ entries, Advances e := fun e mem => (right_iff.mp (right e mem)).1
    have same : entries.flatMap readItems = entries.flatMap items :=
      List.flatMap_congr fun e mem => if_neg (right e mem).no_nul
    constructor
    · exact reached_entries [] advance enough
    · intro destination fs
      have made := extract_entries fs [] advance enough
      change extractFrom fs (archive entries (more + 2)) _ 0 = _ at made
      rw [createFilesAndDirectoriesAtPath, made, same]

/-- A global header of the extended format, with 200 bytes of data. -/
def globalHeader : Entry where
  typeflag := 103
  name := [103]
  mode := List.replicate 24 0
  size := {
    spaces := 0
    digits := [48,48,48,48,48,48,48,48,51,49,48]
    ending := [0]
    digits_some := by decide
    digits_octal := by simp
    ending_blank := by simp
    length := rfl }
  time := List.replicate 20 0
  rest := List.replicate 355 0
  data := List.replicate 200 48
  padding := List.replicate 312 0
  known := by decide
  name_text := by simp
  name_length := by decide
  mode_length := rfl
  time_length := rfl
  rest_length := List.length_replicate
  size_value := by decide +kernel
  filled := by decide +kernel

/-- Its data is taken for the header of an empty file. -/
theorem data_read_as_header :
    reached (archive [globalHeader] 2) = [(0,.skipped 1),
      (512,.file (List.replicate 100 '0') 0),(1024,.skipped 1),(1536,.skipped 1)] ∧
      ¬ Faithful [globalHeader] 2 := by
  have come : reached (archive [globalHeader] 2) = [(0,.skipped 1),
      (512,.file (List.replicate 100 '0') 0),(1024,.skipped 1),(1536,.skipped 1)] := by
    decide +kernel
  refine ⟨come,?_⟩
  intro faithful
  have same := faithful.places
  rw [come] at same
  revert same
  decide +kernel

end TarArchives
