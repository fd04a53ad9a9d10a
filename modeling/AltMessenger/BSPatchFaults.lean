import AltMessenger.BSPatch

/-!
What a patch file can do to the program: when it ends with the new file written, or
with an error and the files as they were.
-/
namespace BSPatchFaults
open SwiftRuntime FaultyState AssetArchive BinaryDelta BSPatch
open TarExtraction (ascii)

abbrev Files := List Char → Option (List UInt8)

structure Paths where
  oldFilePath : List Char
  newFilePath : List Char
  patchFilePath : List Char

/-- What the machine answers. `bzip2` is what a stream gives that is opened at a place of a patch,
    and `uninitialized` what is in memory that was not written. -/
structure Machine where
  readable : List Char → Bool
  fopens : Part → Bool
  bzip2 : Part → List UInt8 → Int64 → Option (List UInt8)
  allocates : Nat → Bool
  uninitialized : Nat → UInt8
  closes : Bool
  removes : List Char → Bool
  writes : List Char → Bool

structure Header where
  bzCrtlLen : Int64
  bzDataLen : Int64
  newSize : Int64

/-- Bytes that are no text are not compared. -/
def wrongMagic (magicData : List UInt8) : Bool :=
  match ascii magicData with
  | some magic => magic ≠ "BSDIFF40".toList
  | none => false

def readHeader (headerData : List UInt8) : Except Stop Header :=
  if headerData.length ≠ 32 then .error (.bsPatch .corruptPatch)
  else if wrongMagic (headerData.take 8) then .error (.bsPatch .corruptPatch)
  else
    let bzCrtlLen := offtin ((headerData.drop 8).take 8)
    let bzDataLen := offtin ((headerData.drop 16).take 8)
    let newSize := offtin ((headerData.drop 24).take 8)
    if bzCrtlLen.toInt < 0 ∨ bzDataLen.toInt < 0 ∨ newSize.toInt < 0 then
      .error (.bsPatch .corruptPatch)
    else .ok { bzCrtlLen, bzDataLen, newSize }

/-- What is there, or an error. -/
def orThrow {α : Type} (error : BRBSPatchError) : Option α → Except Stop α
  | some a => .ok a
  | none => .error (.bsPatch error)

def fopen (m : Machine) (part : Part) : Except Stop Unit :=
  if m.fopens part then .ok () else .error (.bsPatch .unknown)

def streamsOf (control diff extra : List UInt8) : Part → List UInt8
  | .control => control
  | .diff => diff
  | .extra => extra

def openStreams (m : Machine) (patch : List UInt8) (h : Header) :
    Except Stop (Part → List UInt8) := do
  fopen m .control
  let control ← orThrow .unknown (m.bzip2 .control patch 32)
  fopen m .diff
  let dataStart ← trapped (addInt64 32 h.bzCrtlLen)
  let diff ← orThrow .unknown (m.bzip2 .diff patch dataStart)
  fopen m .extra
  let extraStart ← trapped (addInt64 dataStart h.bzDataLen)
  let extra ← orThrow .unknown (m.bzip2 .extra patch extraStart)
  pure (streamsOf control diff extra)

def allocateNew (m : Machine) (newSize : Int64) : Except Stop (List UInt8) := do
  let capacity ← trapped (addInt64 newSize 1)
  if m.allocates capacity.toInt.toNat then
    pure ((List.range capacity.toInt.toNat).map m.uninitialized)
  else throw .outOfMemory

/-- What the loop works on. -/
structure Prepared where
  old : List UInt8
  newSize : Int64
  new : List UInt8
  streams : Part → List UInt8

def contents (m : Machine) (files : Files) (path : List Char) : Option (List UInt8) :=
  if m.readable path then files path else none

def prepare (m : Machine) (paths : Paths) (files : Files) : Except Stop Prepared := do
  let patch ← orThrow .patchFileDoesntExist (contents m files paths.patchFilePath)
  let h ← readHeader (patch.take 32)
  let streams ← openStreams m patch h
  let old ← orThrow .unknown (contents m files paths.oldFilePath)
  let new ← allocateNew m h.newSize
  pure { old, newSize := h.newSize, new, streams }

def removeItem (m : Machine) (path : List Char) : Act Stop Files Unit :=
  if m.removes path then modify fun files => Function.update files path none
  else throw .fileManager

/-- The write is atomic. -/
def write (m : Machine) (path : List Char) (newData : List UInt8) : Act Stop Files Unit :=
  if m.writes path then modify fun files => Function.update files path (some newData)
  else throw .fileManager

def removeExisting (m : Machine) (path : List Char) : Act Stop Files Unit := do
  let files ← get
  if (files path).isSome then removeItem m path else pure ()

def writeOut (m : Machine) (newFilePath : List Char) (newData : List UInt8) :
    Act Stop Files Unit := do
  removeExisting m newFilePath
  write m newFilePath newData

structure Outcome where
  result : Except Stop (List UInt8)
  files : Files
  accesses : List Access

/-- What comes after the loop. -/
def finish (m : Machine) (paths : Paths) (files : Files) (p : Prepared) (t : State) : Outcome :=
  let newData := t.new.take p.newSize.toInt.toNat
  if m.closes then
    match exec (writeOut m paths.newFilePath newData) files with
    | (.ok _,files) => ⟨.ok newData,files,t.accesses⟩
    | (.error stop,files) => ⟨.error stop,files,t.accesses⟩
  else ⟨.error (.bsPatch .unknown),files,t.accesses⟩

def runLoop (m : Machine) (paths : Paths) (files : Files) (p : Prepared) : Outcome :=
  match patchLoop p.old p.newSize (begin p.new p.streams) with
  | (.ok _,t) => finish m paths files p t
  | (.error stop,t) => ⟨.error stop,files,t.accesses⟩

def patch (m : Machine) (paths : Paths) (files : Files) : Outcome :=
  match prepare m paths files with
  | .ok p => runLoop m paths files p
  | .error stop => ⟨.error stop,files,[]⟩

/-- The process ends. -/
def Crashes : Stop → Prop
  | .trap _ => True
  | .outOfMemory => True
  | _ => False

/-- The outcome for an old file and a size: nothing outside was touched, and the new bytes are
    written, or an error is thrown and the files are as they were. -/
def Settled (paths : Paths) (files : Files) (p : Prepared) (o : Outcome) : Prop :=
  (∀ access ∈ o.accesses, access.Inside p.newSize.toInt p.old.length) ∧
    ((∃ new, o.result = .ok new ∧ (new.length : Int) = p.newSize.toInt ∧
        o.files = Function.update files paths.newFilePath (some new)) ∨
      ∃ stop, o.result = .error stop ∧ ¬ Crashes stop ∧ o.files = files)

/-- Either the patch got so far that it is settled, or it was refused before anything was done. -/
def Settles (m : Machine) (paths : Paths) (files : Files) : Prop :=
  (∃ p, prepare m paths files = .ok p ∧ Settled paths files p (patch m paths files)) ∨
    ∃ stop, patch m paths files = ⟨.error stop,files,[]⟩ ∧ ¬ Crashes stop

section Condition
variable (old : List UInt8) (size : Nat)

/-- As far as the controls apply, their sums fit. -/
def SumsFitAll : Position → List Control → Prop
  | _, [] => True
  | p, c :: cs => p.made.length < size →
    SumsFit size p c ∧ (Applies size p c → SumsFitAll (p.apply old c) cs)

/-- The controls apply until everything is made. -/
def Completes : Position → List Control → Prop
  | p, [] => p.made.length = size
  | p, c :: cs => p.made.length = size ∨ Applies size p c ∧ Completes (p.apply old c) cs

end Condition

/-- The places of the streams can be computed, and then this holds of the streams. -/
def OpensTo (m : Machine) (patch : List UInt8) (h : Header)
    (holds : (Part → List UInt8) → Prop) : Prop :=
  m.fopens .control → ∀ control, m.bzip2 .control patch 32 = some control →
    m.fopens .diff → 32 + h.bzCrtlLen.toInt < 2 ^ 63 ∧
      ∀ diff, m.bzip2 .diff patch (.ofInt (32 + h.bzCrtlLen.toInt)) = some diff →
        m.fopens .extra → 32 + h.bzCrtlLen.toInt + h.bzDataLen.toInt < 2 ^ 63 ∧
          ∀ extra, m.bzip2 .extra patch
              (.ofInt (32 + h.bzCrtlLen.toInt + h.bzDataLen.toInt)) = some extra →
            holds (streamsOf control diff extra)

/-- The sums of the header and of the controls fit, there is memory for the new bytes, and a file
    that is removed can be written again. -/
def Harmless (m : Machine) (paths : Paths) (files : Files) : Prop :=
  ∀ patch, contents m files paths.patchFilePath = some patch →
    ∀ h, readHeader (patch.take 32) = .ok h → OpensTo m patch h fun streams =>
      ∀ old, contents m files paths.oldFilePath = some old →
        h.newSize.toInt + 1 < 2 ^ 63 ∧ m.allocates (h.newSize.toInt + 1).toNat ∧
          let size := h.newSize.toInt.toNat
          let cs := controls ((streams .control).length / 24) (streams .control)
          let p := start (streams .diff) (streams .extra)
          SumsFitAll old size p cs ∧
            (Completes old size p cs → m.closes → files paths.newFilePath ≠ none →
              m.removes paths.newFilePath → m.writes paths.newFilePath)

/-- It ends without a crash, and this holds of what it gives. -/
def Safely {α : Type} (x : Except Stop α) (holds : α → Prop) : Prop :=
  match x with
  | .ok a => holds a
  | .error stop => ¬ Crashes stop

section Safely
variable {α β : Type} {holds : β → Prop} {m : Machine}

theorem safely_bind (x : Except Stop α) (f : α → Except Stop β) :
    Safely (x >>= f) holds ↔ Safely x fun a => Safely (f a) holds := by
  cases x with
  | ok => exact Iff.rfl
  | error => exact Iff.rfl

theorem safely_orThrow {error : BRBSPatchError} (o : Option β) :
    Safely (orThrow error o) holds ↔ ∀ b, o = some b → holds b := by
  cases o with
  | none => simp [orThrow, Safely, Crashes]
  | some b => simp [orThrow, Safely]

theorem safely_fopen {part : Part} {holds : Unit → Prop} :
    Safely (fopen m part) holds ↔ (m.fopens part → holds ()) := by
  unfold fopen
  cases m.fopens part with
  | false => simp [Safely, Crashes]
  | true => simp [Safely]

theorem safely_add {a b : Int64} {holds : Int64 → Prop} (low : -2 ^ 63 ≤ a.toInt + b.toInt) :
    Safely (trapped (addInt64 a b)) holds ↔
      a.toInt + b.toInt < 2 ^ 63 ∧ holds (.ofInt (a.toInt + b.toInt)) := by
  unfold addInt64 int64
  by_cases high : a.toInt + b.toInt < 2 ^ 63
  · rw [if_pos ⟨low,high⟩, and_iff_right high]
    exact Iff.rfl
  · rw [if_neg fun fits => high fits.2]
    exact iff_of_false (fun safe => safe trivial) fun both => high both.1

theorem safely_readHeader {headerData : List UInt8} {holds : Header → Prop} :
    Safely (readHeader headerData) holds ↔ ∀ h, readHeader headerData = .ok h → holds h := by
  unfold readHeader
  dsimp only
  split
  · simp [Safely, Crashes]
  · split
    · simp [Safely, Crashes]
    · split
      · simp [Safely, Crashes]
      · simp [Safely]

theorem readHeader_positive {headerData : List UInt8} {h : Header}
    (read : readHeader headerData = .ok h) :
    0 ≤ h.bzCrtlLen.toInt ∧ 0 ≤ h.bzDataLen.toInt ∧ 0 ≤ h.newSize.toInt := by
  unfold readHeader at read
  dsimp only at read
  split at read
  · cases read
  · split at read
    · cases read
    · split at read
      · cases read
      · rename_i positive
        cases read
        dsimp only
        omega

theorem safely_openStreams {patch : List UInt8} {h : Header}
    {holds : (Part → List UInt8) → Prop} (crtl : 0 ≤ h.bzCrtlLen.toInt)
    (data : 0 ≤ h.bzDataLen.toInt) :
    Safely (openStreams m patch h) holds ↔ OpensTo m patch h holds := by
  unfold openStreams OpensTo
  have first : (32 : Int64).toInt = 32 := rfl
  simp only [safely_bind, safely_fopen, safely_orThrow]
  refine imp_congr_right fun _ => forall_congr' fun control => imp_congr_right fun _ =>
    imp_congr_right fun _ => ?_
  rw [safely_add (by rw [first]; omega), first]
  refine and_congr_right fun below => forall_congr' fun diff => imp_congr_right fun _ =>
    imp_congr_right fun _ => ?_
  have start : (Int64.ofInt (32 + h.bzCrtlLen.toInt)).toInt = 32 + h.bzCrtlLen.toInt :=
    Int64.toInt_ofInt_of_le (by omega) below
  rw [safely_add (by omega), start]
  exact Iff.rfl

theorem safely_allocateNew {newSize : Int64} {holds : List UInt8 → Prop}
    (positive : 0 ≤ newSize.toInt) :
    Safely (allocateNew m newSize) holds ↔ newSize.toInt + 1 < 2 ^ 63 ∧
      m.allocates (newSize.toInt + 1).toNat ∧
        holds ((List.range (newSize.toInt + 1).toNat).map m.uninitialized) := by
  have one : (1 : Int64).toInt = 1 := rfl
  unfold allocateNew
  rw [safely_bind, safely_add (by rw [one]; omega), one]
  refine and_congr_right fun below => ?_
  rw [Int64.toInt_ofInt_of_le (by omega) below]
  cases m.allocates (newSize.toInt + 1).toNat with
  | true => exact ⟨fun safe => ⟨rfl,safe⟩,And.right⟩
  | false => exact iff_of_false (fun safe => safe trivial) fun both => nomatch both.1

theorem safely_prepare {paths : Paths} {files : Files} {holds : Prepared → Prop} :
    Safely (prepare m paths files) holds ↔
      ∀ patch, contents m files paths.patchFilePath = some patch →
        ∀ h, readHeader (patch.take 32) = .ok h → OpensTo m patch h fun streams =>
          ∀ old, contents m files paths.oldFilePath = some old →
            h.newSize.toInt + 1 < 2 ^ 63 ∧ m.allocates (h.newSize.toInt + 1).toNat ∧
              holds {
                old
                newSize := h.newSize
                new := (List.range (h.newSize.toInt + 1).toNat).map m.uninitialized
                streams } := by
  unfold prepare
  rw [safely_bind, safely_orThrow]
  refine forall_congr' fun patch => imp_congr_right fun _ => ?_
  rw [safely_bind, safely_readHeader]
  refine forall_congr' fun h => imp_congr_right fun read => ?_
  obtain ⟨crtl,data,size⟩ := readHeader_positive read
  rw [safely_bind, safely_openStreams crtl data]
  simp only [safely_bind, safely_orThrow, safely_allocateNew size]
  exact Iff.rfl

end Safely

/-- It is settled exactly if what is prepared is, when nothing crashes before. -/
theorem settles_safely {m : Machine} {paths : Paths} {files : Files} :
    Settles m paths files ↔ Safely (prepare m paths files) fun p =>
      Settled paths files p (runLoop m paths files p) := by
  unfold Settles patch
  cases prepare m paths files with
  | error stop =>
    constructor
    · rintro (⟨p,made,_⟩ | ⟨stop',same,safe⟩)
      · cases made
      · cases same
        exact safe
    · exact fun safe => Or.inr ⟨stop,rfl,safe⟩
  | ok p =>
    constructor
    · rintro (⟨p',made,settled⟩ | ⟨stop,same,safe⟩)
      · cases made
        exact settled
      · have same : runLoop m paths files p = ⟨.error stop,files,[]⟩ := same
        change Settled paths files p (runLoop m paths files p)
        rw [same]
        exact ⟨by simp,Or.inr ⟨stop,rfl,safe,rfl⟩⟩
    · exact fun settled => Or.inl ⟨p,rfl,settled⟩

section Loop
variable {old : List UInt8} {newSize : Int64} {size : Nat} {p : Position} {s : State}

variable (old) in
/-- The loop traps, or finds the patch corrupt, or makes all bytes. -/
theorem turns_cases (size_eq : newSize.toInt = size) {count n : Nat}
    (enough : (s.streams .control).length < 24 * count)
    (whole : (s.streams .control).length / 24 = n) (tracks : Tracks size p s) :
    ¬ SumsFitAll old size p (controls n (s.streams .control)) ∧
        (∃ trap t, exec (turns old newSize count) s = (.error (.trap trap),t)) ∨
      SumsFitAll old size p (controls n (s.streams .control)) ∧
        ¬ Completes old size p (controls n (s.streams .control)) ∧
        (∃ t parts places, exec (turns old newSize count) s = (.error (.bsPatch .corruptPatch),t) ∧
          Touched size old.length parts places s t) ∨
      SumsFitAll old size p (controls n (s.streams .control)) ∧
        Completes old size p (controls n (s.streams .control)) ∧
        ∃ t parts places, exec (turns old newSize count) s = (.ok (),t) ∧
          t.new.length = size + 1 ∧ Touched size old.length parts places s t := by
  induction count generalizing s p n with
  | zero => omega
  | succ count ih =>
    have low := tracks.newPos
    have inside := tracks.inside
    unfold turns
    rw [bind_ran (exec_get s)]
    by_cases more : s.newPos.toInt < newSize.toInt
    · rw [if_pos more]
      have less : p.made.length < size := by omega
      cases n with
      | zero =>
        obtain ⟨t,stops,same⟩ := turn_short old newSize (s := s) (by omega)
        rw [bind_stopped stops]
        exact Or.inr (Or.inl ⟨trivial,by simp [controls, Completes]; omega,t,_,_,rfl,
          touched_nothing same⟩)
      | succ n =>
        have there : 24 ≤ (s.streams .control).length := by omega
        rw [controls]
        rcases turn_cases old size_eq tracks there with ⟨beyond,trap,t,stops⟩ |
            ⟨fits,corrupt,t,parts,places,stops,touched⟩ | ⟨fits,applies,t,ran,tracks',rest,touched⟩
        · rw [bind_stopped stops]
          exact Or.inl ⟨fun all => beyond (all less).1,trap,t,rfl⟩
        · rw [bind_stopped stops]
          refine Or.inr (Or.inl ⟨fun _ => ⟨fits,fun applies => absurd applies corrupt⟩,?_,
            t,parts,places,rfl,touched⟩)
          rintro (done | ⟨applies,_⟩)
          · omega
          · exact corrupt applies
        · rw [bind_ran ran, ← rest]
          rcases ih (n := n) (by rw [rest, List.length_drop]; omega)
            (by rw [rest, List.length_drop]; omega) tracks' with ⟨beyond,trap,u,stops⟩ |
              ⟨all,corrupt,u,parts,places,stops,touched'⟩ |
              ⟨all,complete,u,parts,places,ran',length,touched'⟩
          · exact Or.inl ⟨fun all => beyond ((all less).2 applies),trap,u,stops⟩
          · refine Or.inr (Or.inl ⟨fun _ => ⟨fits,fun _ => all⟩,?_,
              u,_,_,stops,touched_trans touched touched'⟩)
            rintro (done | ⟨_,complete⟩)
            · omega
            · exact corrupt complete
          · exact Or.inr (Or.inr ⟨fun _ => ⟨fits,fun _ => all⟩,Or.inr ⟨applies,complete⟩,
              u,_,_,ran',length,touched_trans touched touched'⟩)
    · rw [if_neg more]
      have all : p.made.length = size := by omega
      refine Or.inr (Or.inr ⟨?_,?_,s,_,_,rfl,tracks.room,touched_nothing rfl⟩)
      · cases n with
        | zero => trivial
        | succ n => exact fun less => absurd all (by omega)
      · cases n with
        | zero => exact all
        | succ n => exact Or.inl all

end Loop

section Files
variable {m : Machine} {paths : Paths} {files : Files} {p : Prepared} {t : State}

variable (m files) in
/-- The new file is written, or nothing is changed, or it is only removed. -/
theorem writeOut_cases (path : List Char) (newData : List UInt8) :
    (files path ≠ none → m.removes path → m.writes path) ∧
        (exec (writeOut m path newData) files =
            (.ok (),Function.update files path (some newData)) ∨
          exec (writeOut m path newData) files = (.error .fileManager,files)) ∨
      ¬ (files path ≠ none → m.removes path → m.writes path) ∧
        exec (writeOut m path newData) files =
          (.error .fileManager,Function.update files path none) := by
  unfold writeOut removeExisting removeItem write
  rw [FaultyState.exec_bind, bind_ran (exec_get files)]
  cases there : files path with
  | none =>
    cases writes : m.writes path with
    | true => exact Or.inl ⟨fun some => absurd rfl some,Or.inl rfl⟩
    | false => exact Or.inl ⟨fun some => absurd rfl some,Or.inr rfl⟩
  | some old =>
    cases removes : m.removes path with
    | false => exact Or.inl ⟨fun _ can => Bool.noConfusion can,Or.inr rfl⟩
    | true =>
      cases writes : m.writes path with
      | true =>
        refine Or.inl ⟨fun _ _ => rfl,Or.inl ?_⟩
        have twice := Function.update_idem (a := path) none (some newData) files
        exact congrArg (Prod.mk _) twice
      | false => exact Or.inr ⟨fun safe => Bool.noConfusion (safe (by simp) rfl),rfl⟩

variable (paths files) in
theorem settled_finish (positive : 0 ≤ p.newSize.toInt)
    (length : t.new.length = p.newSize.toInt.toNat + 1)
    (inside : ∀ access ∈ t.accesses, access.Inside p.newSize.toInt p.old.length) :
    Settled paths files p (finish m paths files p t) ↔
      (m.closes → files paths.newFilePath ≠ none →
        m.removes paths.newFilePath → m.writes paths.newFilePath) := by
  unfold finish
  cases m.closes with
  | false =>
    exact iff_of_true ⟨inside,Or.inr ⟨_,rfl,id,rfl⟩⟩ fun closed => Bool.noConfusion closed
  | true =>
    rw [forall_prop_of_true rfl]
    have taken : (t.new.take p.newSize.toInt.toNat).length = p.newSize.toInt.toNat := by
      rw [List.length_take]
      omega
    have written := writeOut_cases m files paths.newFilePath (t.new.take p.newSize.toInt.toNat)
    dsimp only
    rw [if_pos rfl]
    rcases written with ⟨safe,ran | stopped⟩ | ⟨harmful,stopped⟩
    · rw [ran]
      exact iff_of_true ⟨inside,Or.inl ⟨_,rfl,by rw [taken]; omega,rfl⟩⟩ safe
    · rw [stopped]
      exact iff_of_true ⟨inside,Or.inr ⟨_,rfl,id,rfl⟩⟩ safe
    · rw [stopped]
      refine iff_of_false ?_ harmful
      rintro ⟨_,⟨new,result,_⟩ | ⟨stop,_,_,same⟩⟩
      · cases result
      · have gone : Function.update files paths.newFilePath none paths.newFilePath =
            files paths.newFilePath := congrFun same _
        rw [Function.update_self] at gone
        exact harmful fun there => absurd gone.symm there

/-- The loop and what comes after it are settled exactly if the sums fit, and a file that is
    removed is written. -/
theorem settled_iff (positive : 0 ≤ p.newSize.toInt)
    (room : p.new.length = p.newSize.toInt.toNat + 1) :
    Settled paths files p (runLoop m paths files p) ↔
      SumsFitAll p.old p.newSize.toInt.toNat (start (p.streams .diff) (p.streams .extra))
          (controls ((p.streams .control).length / 24) (p.streams .control)) ∧
        (Completes p.old p.newSize.toInt.toNat (start (p.streams .diff) (p.streams .extra))
            (controls ((p.streams .control).length / 24) (p.streams .control)) →
          m.closes → files paths.newFilePath ≠ none →
            m.removes paths.newFilePath → m.writes paths.newFilePath) := by
  unfold runLoop
  have enough : (p.streams .control).length < 24 * ((p.streams .control).length + 1) := by omega
  rcases turns_cases p.old (s := begin p.new p.streams) (Int.toNat_of_nonneg positive).symm enough
    rfl (begin_tracks room p.streams) with ⟨beyond,trap,t,stops⟩ |
      ⟨fits,corrupt,t,parts,places,stops,touched⟩ |
      ⟨fits,complete,t,parts,places,ran,length,touched⟩
  · have stops' : patchLoop p.old p.newSize (begin p.new p.streams) = (.error (.trap trap),t) :=
      stops
    rw [stops']
    refine iff_of_false ?_ fun both => beyond both.1
    rintro ⟨_,⟨new,result,_⟩ | ⟨stop,result,safe,_⟩⟩
    · cases result
    · cases result
      exact safe trivial
  · have stops' : patchLoop p.old p.newSize (begin p.new p.streams) =
      (.error (.bsPatch .corruptPatch),t) := stops
    obtain ⟨more,grown,_,_,inside⟩ := touched
    have accesses : t.accesses = more := grown
    rw [stops']
    refine iff_of_true ⟨?_,Or.inr ⟨_,rfl,id,rfl⟩⟩ ⟨fits,fun complete => absurd complete corrupt⟩
    intro access there
    rw [← Int.toNat_of_nonneg positive]
    exact inside access (accesses ▸ there)
  · have ran' : patchLoop p.old p.newSize (begin p.new p.streams) = (.ok (),t) := ran
    obtain ⟨more,grown,_,_,inside⟩ := touched
    have accesses : t.accesses = more := grown
    have all_inside : ∀ access ∈ t.accesses, access.Inside p.newSize.toInt p.old.length := by
      intro access there
      rw [← Int.toNat_of_nonneg positive]
      exact inside access (accesses ▸ there)
    have finished := settled_finish paths files (m := m) positive length all_inside
    rw [ran']
    exact ⟨fun settled => ⟨fits,fun _ => finished.mp settled⟩,
      fun both => finished.mpr (both.2 complete)⟩

end Files

/-- A patch file is harmless exactly if the sums it makes the program compute fit, there is memory,
    and a new file that is removed can be written. -/
theorem settles_iff (m : Machine) (paths : Paths) (files : Files) :
    Settles m paths files ↔ Harmless m paths files := by
  rw [settles_safely, safely_prepare, Harmless]
  refine forall_congr' fun patch => imp_congr_right fun _ => forall_congr' fun h =>
    imp_congr_right fun read => ?_
  obtain ⟨_,_,positive⟩ := readHeader_positive read
  apply iff_of_eq
  congr 1
  funext streams
  refine propext (forall_congr' fun old => imp_congr_right fun _ => and_congr_right fun _ =>
    and_congr_right fun _ => ?_)
  exact settled_iff (p := { old, newSize := h.newSize, new := _, streams }) positive
    (by
      rw [List.length_map, List.length_range]
      exact Int.toNat_add positive (by decide))

/-- A machine on which everything succeeds, and every stream is empty. -/
def plain : Machine where
  readable _ := true
  fopens _ := true
  bzip2 _ _ _ := some []
  allocates _ := true
  uninitialized _ := 0
  closes := true
  removes _ := true
  writes _ := true

def bundle : Paths where
  oldFilePath := ['o']
  newFilePath := ['n']
  patchFilePath := ['p']

/-- A patch whose control values are said to take `2 ^ 63 - 1` bytes. -/
def longControl : List UInt8 :=
  [66,83,68,73,70,70,52,48] ++ [255,255,255,255,255,255,255,127] ++ List.replicate 16 0

def received : Files := fun path =>
  if path = ['p'] then some longControl else if path = ['o'] then some [] else none

theorem longControl_crashes : patch plain bundle received = ⟨.error (.trap .overflow),received,[]⟩ ∧
    ¬ Settles plain bundle received := by
  have stops : prepare plain bundle received = .error (.trap .overflow) := rfl
  have outcome : patch plain bundle received = ⟨.error (.trap .overflow),received,[]⟩ := by
    rw [patch, stops]
  refine ⟨outcome,?_⟩
  rintro (⟨p,made,_⟩ | ⟨stop,same,safe⟩)
  · rw [stops] at made
    cases made
  · rw [outcome] at same
    cases same
    exact safe trivial

end BSPatchFaults
