import IdtxCore.Lib.LexicalPath

/-!
# `StageCommitter`: writing the session back into its file

`commit` flattens the layer stack and replaces the original file: a flat file by exporting to a temporary
sibling and renaming it, a usdz package by unpacking it into a temporary directory, replacing its first
entry, packing it again and renaming the new package.

The disk (`Disk`) has directories and files at normal paths, and the list of the paths that were passed
to a call that creates, opens for writing or removes. What the calls answer is a parameter (`CommitIo`):
any of them may fail. Of a layer only its origin matters here (`Content`).
-/

namespace IdtxCore
open LexicalPath

inductive Content where
  | bytes (data : String)
  /-- the session layer, as saved in the sidecar -/
  | overrides
  /-- the flattened layer stack, without the prims that the session deleted -/
  | merged
  | package (entries : List (String × Content))

structure Disk where
  dirs : Path → Bool
  files : Path → Option Content
  touched : List Path := []

namespace Disk
variable (disk : Disk)

def put (p : Path) (content : Option Content) : Disk :=
  { disk with files := fun x => if x = normal p then content else disk.files x }

def touch (p : Path) : Disk := { disk with touched := disk.touched ++ [p] }

def write (p : Path) (content : Content) (ok : Bool) : Disk :=
  if ok then (disk.touch p).put p (some content) else disk.touch p

def remove (p : Path) (ok : Bool) : Disk :=
  if ok then (disk.touch p).put p none else disk.touch p

def removeAll (p : Path) (ok : Bool) : Disk :=
  if ok then
    { dirs := fun x => disk.dirs x && !decide (normal p <+: x)
      files := fun x => if normal p <+: x then none else disk.files x
      touched := disk.touched ++ [p] }
  else disk.touch p

def rename (src dst : Path) (ok : Bool) : Disk :=
  if ok then
    (((disk.touch src).touch dst).put src none).put dst (disk.files (normal src))
  else (disk.touch src).touch dst

def missing (p : Path) : List Path :=
  p.inits.filter fun q => decide (∃ component ∈ q.getLast?, Plain component) && !disk.dirs (normal q)

/-- `create_directories`; `made` is how many are made before a call fails, `none` if no call fails. -/
def createDirectories (p : Path) (made : Option Nat) : Disk :=
  let created := match made with
    | none => disk.missing p
    | some n => (disk.missing p).take n
  { disk with
    dirs := fun x => disk.dirs x || created.any fun q => normal q = x
    touched := disk.touched ++ created }

end Disk

/-- `SdfZipFile::Iterator`: an entry of the package. -/
structure ZipEntry where
  name : String
  /-- `compressionMethod != 0` -/
  compressed : Bool
  size : Nat
  /-- `GetFile` -/
  data : Option String

namespace ZipEntry
variable (e : ZipEntry)

def unreadable : Bool := e.data.isNone && decide (0 < e.size)

def bytes : String := if 0 < e.size then e.data.getD "" else ""

def content : Content := .bytes e.bytes

/-- The file after `ofs.write`: how much of the data reaches it is not checked, `none` is all of it. -/
def contentAfter : Option Nat → Content
  | none => e.content
  | some n => .bytes (String.ofList (e.bytes.toList.take n))

end ZipEntry

/-- How the calls of a commit end; an error is its message. -/
structure CommitIo where
  flatten : Bool := true
  cleanTmp : Bool := true
  exportFlat : Bool := true
  dropTmp : Bool := true
  rename : Option String := none
  tmpDirMade : Option Nat := none
  /-- the temporary directory does not exist after `create_directories` -/
  tmpDirError : Option String := none
  openZip : Bool := true
  entryDirs : Nat → Option Nat := fun _ => none
  openEntry : Nat → Bool := fun _ => true
  /-- how many characters of an entry reach its file, `none` if all do -/
  writeEntry : Nat → Option Nat := fun _ => none
  cleanRoot : Bool := true
  exportRoot : Bool := true
  cleanPkg : Bool := true
  createPkg : Bool := true
  addFile : Nat → Bool := fun _ => true
  /-- `SdfZipFileWriter` adds a second file under a name that it has already; else it keeps the first -/
  addTwice : Bool := true
  savePkg : Bool := true
  dropDir : Bool := true

/-- The original file, with the disk before the commit. The directories on the way to it exist. -/
structure CommitTarget where
  dir : Path
  file : String
  file_plain : Plain file
  disk : Disk
  dir_exists : ∀ q, q <+: dir → disk.dirs (normal q) = true
  fresh : disk.touched = []

namespace StageCommitter

/-- Where the extension begins: at the last dot that is not the first character. -/
def extensionStart (file : List Char) : Nat :=
  let length := (file.reverse.takeWhile (· ≠ '.')).length
  if length = file.length ∨ length + 1 = file.length ∨ file = ['.', '.'] then file.length
  else file.length - length - 1

def stem (file : String) : String := String.ofList (file.toList.take (extensionStart file.toList))

def extension (file : String) : String := String.ofList (file.toList.drop (extensionStart file.toList))

/-- An extension has no separator, so that of a path is that of its last component. -/
def hasExtension (file ext : String) : Bool := ext.toList.isSuffixOf (file.toList.map Char.toLower)

def text (p : Path) : String := "/" ++ "/".intercalate p

end StageCommitter

namespace CommitTarget
open StageCommitter
variable (d : CommitTarget)

def dst : Path := d.dir ++ [d.file]

def tmp : Path := d.dir ++ ["." ++ stem d.file ++ "_idtx_commit" ++ extension d.file]

def tmpDir : Path := d.dir ++ ["." ++ stem d.file ++ "_idtx_commit_tmp"]

def tmpPkg : Path := d.dir ++ ["." ++ stem d.file ++ "_idtx_commit.usdz"]

def outFile (name : String) : Path := join d.tmpDir name

end CommitTarget

namespace StageCommitter
variable (d : CommitTarget) (io : CommitIo)

def replaceOriginal (src : Path) (disk : Disk) : Except String Unit × Disk :=
  match io.rename with
  | none => (.ok (), disk.rename src d.dst true)
  | some e =>
    (.error ("atomic rename '" ++ text src ++ "' -> '" ++ text d.dst ++ "' failed: " ++ e),
      (disk.rename src d.dst false).remove src io.dropTmp)

def commitFlat (disk : Disk) : Except String Unit × Disk :=
  if io.flatten = false then (.error "UsdUtilsFlattenLayerStack returned null", disk)
  else
    let disk := disk.remove d.tmp io.cleanTmp
    let disk := disk.write d.tmp .merged io.exportFlat
    if io.exportFlat = false then
      (.error ("SdfLayer::Export failed for '" ++ text d.tmp ++ "'"), disk.remove d.tmp io.dropTmp)
    else replaceOriginal d io d.tmp disk

def extractEntry (i : Nat) (e : ZipEntry) (disk : Disk) : Except String Unit × Disk :=
  if e.compressed then (.error ("compressed entry '" ++ e.name ++ "' in usdz; cannot re-package"), disk)
  else if e.unreadable then (.error ("could not read entry '" ++ e.name ++ "' from usdz"), disk)
  else
    let disk := disk.createDirectories (d.outFile e.name).dropLast (io.entryDirs i)
    let disk := disk.write (d.outFile e.name) (e.contentAfter (io.writeEntry i)) (io.openEntry i)
    if io.openEntry i then (.ok (), disk)
    else (.error ("could not open '" ++ text (d.outFile e.name) ++ "' for writing"), disk)

def extract : Nat → List ZipEntry → Disk → Except String Unit × Disk
  | _, [], disk => (.ok (), disk)
  | i, e :: rest, disk =>
    match extractEntry d io i e disk with
    | (.ok _, disk) => extract (i + 1) rest disk
    | (.error err, disk) => (.error err, disk)

/-- `AddFile` for every name: the files as they are on the disk now. The writer is assumed to keep the name it is given,
although the one that it returns may be another. -/
def addFiles (disk : Disk) : Nat → List ZipEntry → Except String (List (String × Content))
  | _, [] => .ok []
  | i, e :: rest =>
    match disk.files (normal (d.outFile e.name)), io.addFile i with
    | some content, true => do
      let added ← addFiles disk (i + 1) rest
      pure ((e.name, content) :: added)
    | _, _ => .error ("failed to add '" ++ e.name ++ "' to usdz")

def keepFirst : List (String × Content) → List (String × Content)
  | [] => []
  | entry :: entries => entry :: (keepFirst entries).filter (·.1 ≠ entry.1)

/-- The entries of the package that the writer makes of the added files. -/
def packed (added : List (String × Content)) : List (String × Content) :=
  if io.addTwice then added else keepFirst added

def rezip (zip : List ZipEntry) (disk : Disk) : Except String Unit × Disk :=
  let disk := (disk.remove d.tmpPkg io.cleanPkg).touch d.tmpPkg
  if io.createPkg = false then (.error ("could not create usdz '" ++ text d.tmpPkg ++ "'"), disk)
  else
    match addFiles d io disk 0 zip with
    | .error e => (.error e, disk.remove d.tmpPkg io.dropTmp)
    | .ok entries =>
      let disk := disk.write d.tmpPkg (.package (packed io entries)) io.savePkg
      if io.savePkg = false then
        (.error ("failed to save usdz '" ++ text d.tmpPkg ++ "'"), disk.remove d.tmpPkg io.dropTmp)
      else replaceOriginal d io d.tmpPkg disk

def replaceRoot (rootName : String) (zip : List ZipEntry) (disk : Disk) : Except String Unit × Disk :=
  let disk := disk.remove (d.outFile rootName) io.cleanRoot
  let disk := disk.write (d.outFile rootName) .merged io.exportRoot
  if io.exportRoot = false then
    (.error ("failed to export merged root layer to '" ++ text (d.outFile rootName) ++ "'"), disk)
  else rezip d io zip disk

/-- What `TempDirGuard` guards. -/
def repackage (zip : List ZipEntry) (disk : Disk) : Except String Unit × Disk :=
  if io.openZip = false then (.error ("cannot open usdz package '" ++ text d.dst ++ "'"), disk)
  else
    match extract d io 0 zip disk, zip with
    | (.error e, disk), _ => (.error e, disk)
    | (.ok _, disk), [] => (.error ("usdz package '" ++ text d.dst ++ "' is empty"), disk)
    | (.ok _, disk), root :: _ => replaceRoot d io root.name zip disk

def commitUsdz (zip : List ZipEntry) (disk : Disk) : Except String Unit × Disk :=
  if io.flatten = false then (.error "UsdUtilsFlattenLayerStack returned null", disk)
  else
    let disk := disk.removeAll d.tmpDir io.cleanTmp
    let disk := disk.createDirectories d.tmpDir io.tmpDirMade
    match io.tmpDirError with
    | some e => (.error ("could not create temp dir '" ++ text d.tmpDir ++ "': " ++ e), disk)
    | none =>
      let (result, disk) := repackage d io zip disk
      (result, disk.removeAll d.tmpDir io.dropDir)

/-- `zip` is the content of the original file if it is a package. -/
def commit (zip : List ZipEntry) (disk : Disk) : Except String Unit × Disk :=
  if hasExtension d.file ".usdz" then commitUsdz d io zip disk else commitFlat d io disk

/-! ### Invariants of a commit -/

/-- The entries that the extraction gets to write: those before the first that is compressed or cannot
be read. -/
def reached (zip : List ZipEntry) : List ZipEntry :=
  zip.takeWhile fun e => !e.compressed && !e.unreadable

/-- `I` is kept by the calls of a commit, as long as the paths they name satisfy `S`, those whose
directories they make satisfy `D`, and the outcome of the rename satisfies `R`. -/
structure Invariant (S D : Path → Prop) (R : Bool → Prop) (I : Disk → Prop) : Prop where
  touch : ∀ {disk p}, S p → I disk → I (disk.touch p)
  write : ∀ {disk p content ok}, S p → I disk → I (disk.write p content ok)
  remove : ∀ {disk p ok}, S p → I disk → I (disk.remove p ok)
  removeAll : ∀ {disk ok}, I disk → I (disk.removeAll d.tmpDir ok)
  rename : ∀ {disk src ok}, S src → R ok → I disk → I (disk.rename src d.dst ok)
  createDirectories : ∀ {disk p made}, D p → I disk → I (disk.createDirectories p made)

structure Names (S D : Path → Prop) (zip : List ZipEntry) : Prop where
  tmpDir : D d.tmpDir
  tmpPkg : S d.tmpPkg
  outFile : ∀ e ∈ reached zip, S (d.outFile e.name)
  parents : ∀ e ∈ reached zip, D (d.outFile e.name).dropLast

variable {d io} {S D : Path → Prop} {R : Bool → Prop} {I : Disk → Prop}

theorem reached_cons {e : ZipEntry} {zip : List ZipEntry} (hc : e.compressed = false)
    (hr : e.unreadable = false) : reached (e :: zip) = e :: reached zip := by
  simp [reached, hc, hr]

theorem extractEntry_cases (d : CommitTarget) (io : CommitIo) (i : Nat) (e : ZipEntry) (disk : Disk) :
    (∃ err, extractEntry d io i e disk = (.error err, disk)) ∨
      e.compressed = false ∧ e.unreadable = false ∧
        (extractEntry d io i e disk).2 =
          ((disk.createDirectories (d.outFile e.name).dropLast (io.entryDirs i)).write (d.outFile e.name)
            (e.contentAfter (io.writeEntry i)) (io.openEntry i)) := by
  unfold extractEntry
  cases hc : e.compressed with
  | true => exact .inl ⟨_, rfl⟩
  | false =>
    cases hr : e.unreadable with
    | true => exact .inl ⟨_, rfl⟩
    | false =>
      refine .inr ⟨rfl, rfl, ?_⟩
      simp only [Bool.false_eq_true, if_false]
      split <;> rfl

theorem Invariant.extract (h : Invariant d S D R I) {zip : List ZipEntry}
    (hfile : ∀ e ∈ reached zip, S (d.outFile e.name))
    (hdirs : ∀ e ∈ reached zip, D (d.outFile e.name).dropLast) (i : Nat) {disk : Disk} (hI : I disk) :
    I (extract d io i zip disk).2 := by
  induction zip generalizing i disk with
  | nil => exact hI
  | cons e rest ih =>
    unfold StageCommitter.extract
    rcases extractEntry_cases d io i e disk with ⟨err, herr⟩ | ⟨hc, hr, hdisk⟩
    · rw [herr]
      exact hI
    · rw [reached_cons hc hr] at hfile hdirs
      have hI' : I (extractEntry d io i e disk).2 := by
        rw [hdisk]
        exact h.write (hfile e List.mem_cons_self) (h.createDirectories (hdirs e List.mem_cons_self) hI)
      rcases hentry : extractEntry d io i e disk with ⟨err | _, disk'⟩
      · rw [hentry] at hI'
        exact hI'
      · rw [hentry] at hI'
        exact ih (fun e' he' => hfile e' (List.mem_cons_of_mem _ he'))
          (fun e' he' => hdirs e' (List.mem_cons_of_mem _ he')) (i + 1) hI'

theorem reached_of_extract {zip : List ZipEntry} {i : Nat} {disk disk' : Disk}
    (h : extract d io i zip disk = (.ok (), disk')) : reached zip = zip := by
  induction zip generalizing i disk with
  | nil => rfl
  | cons e rest ih =>
    unfold StageCommitter.extract at h
    rcases extractEntry_cases d io i e disk with ⟨err, herr⟩ | ⟨hc, hr, -⟩
    · rw [herr] at h
      cases h
    · rw [reached_cons hc hr]
      rcases hentry : extractEntry d io i e disk with ⟨err | _, disk''⟩
      · rw [hentry] at h
        cases h
      · rw [hentry] at h
        rw [ih h]

theorem Invariant.replaceOriginal (h : Invariant d S D R I) (hR : R io.rename.isNone) {src : Path}
    (hsrc : S src) {disk : Disk} (hI : I disk) : I (replaceOriginal d io src disk).2 := by
  unfold StageCommitter.replaceOriginal
  cases hrename : io.rename with
  | none =>
    rw [hrename] at hR
    exact h.rename hsrc hR hI
  | some e =>
    rw [hrename] at hR
    exact h.remove hsrc (h.rename hsrc hR hI)

theorem Invariant.commitFlat (h : Invariant d S D R I) (hR : R io.rename.isNone) (htmp : S d.tmp)
    {disk : Disk} (hI : I disk) :
    I (commitFlat d io disk).2 := by
  have hI' : I ((disk.remove d.tmp io.cleanTmp).write d.tmp .merged io.exportFlat) :=
    h.write htmp (h.remove htmp hI)
  unfold StageCommitter.commitFlat
  dsimp only
  split_ifs
  · exact hI
  · exact h.remove htmp hI'
  · exact h.replaceOriginal hR htmp hI'

theorem Invariant.rezip (h : Invariant d S D R I) (hR : R io.rename.isNone) (hpkg : S d.tmpPkg)
    {zip : List ZipEntry} {disk : Disk} (hI : I disk) : I (rezip d io zip disk).2 := by
  have hI' : I ((disk.remove d.tmpPkg io.cleanPkg).touch d.tmpPkg) := h.touch hpkg (h.remove hpkg hI)
  unfold StageCommitter.rezip
  dsimp only
  split
  · exact hI'
  · cases addFiles d io ((disk.remove d.tmpPkg io.cleanPkg).touch d.tmpPkg) 0 zip with
    | error e => exact h.remove hpkg hI'
    | ok entries =>
      dsimp only
      split
      · exact h.remove hpkg (h.write hpkg hI')
      · exact h.replaceOriginal hR hpkg (h.write hpkg hI')

theorem Invariant.replaceRoot (h : Invariant d S D R I) (hR : R io.rename.isNone) (hpkg : S d.tmpPkg)
    {rootName : String} (hroot : S (d.outFile rootName)) {zip : List ZipEntry} {disk : Disk} (hI : I disk) :
    I (replaceRoot d io rootName zip disk).2 := by
  have hI' : I ((disk.remove (d.outFile rootName) io.cleanRoot).write (d.outFile rootName) .merged
      io.exportRoot) := h.write hroot (h.remove hroot hI)
  unfold StageCommitter.replaceRoot
  dsimp only
  split
  · exact hI'
  · exact h.rezip hR hpkg hI'

theorem Invariant.repack (h : Invariant d S D R I) (io : CommitIo) (hR : R io.rename.isNone)
    (hopen : io.openZip = true) {zip : List ZipEntry}
    (hn : Names d S D zip) {disk : Disk} (hI : I (StageCommitter.extract d io 0 zip disk).2) :
    I (repackage d io zip disk).2 := by
  unfold repackage
  rw [if_neg (by simp [hopen])]
  rcases hextract : StageCommitter.extract d io 0 zip disk with ⟨err | _, disk'⟩
  · rw [hextract] at hI
    exact hI
  · rw [hextract] at hI
    cases zip with
    | nil => exact hI
    | cons root rest =>
      have hroot : S (d.outFile root.name) :=
        hn.outFile root (by rw [reached_of_extract hextract]; exact List.mem_cons_self)
      exact h.replaceRoot hR hn.tmpPkg hroot hI

theorem Invariant.repackage (h : Invariant d S D R I) (hR : R io.rename.isNone) {zip : List ZipEntry}
    (hn : Names d S D zip) {disk : Disk} (hI : I disk) : I (repackage d io zip disk).2 := by
  cases hopen : io.openZip with
  | false =>
    unfold StageCommitter.repackage
    rw [if_pos hopen]
    exact hI
  | true => exact h.repack io hR hopen hn (h.extract hn.outFile hn.parents 0 hI)

/-- The rule for a commit of a package: what its calls keep, it keeps. -/
theorem Invariant.commitUsdz (h : Invariant d S D R I) (hR : R io.rename.isNone) {zip : List ZipEntry}
    (hn : Names d S D zip) {disk : Disk} (hI : I disk) : I (commitUsdz d io zip disk).2 := by
  have hI' : I ((disk.removeAll d.tmpDir io.cleanTmp).createDirectories d.tmpDir io.tmpDirMade) :=
    h.createDirectories hn.tmpDir (h.removeAll hI)
  unfold StageCommitter.commitUsdz
  dsimp only
  split
  · exact hI
  · cases io.tmpDirError with
    | some e => exact hI'
    | none => exact h.removeAll (h.repackage hR hn hI')

end StageCommitter
end IdtxCore
