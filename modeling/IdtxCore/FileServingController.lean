import IdtxCore.FileServing
import IdtxCore.Lib.FileTree
import IdtxCore.RateLimitHandler
import IdtxCore.Upload

/-!
# `FileServingController`: the endpoints

Uploads, downloads, the list of files and the thumbnails, over a tree of files. A request runs alone here;
`DiskFaults` is what the disk refuses while it does. The process may search every directory. Crow's multipart parser
and the file times are left out: a request comes as what the parser makes of it.
-/

namespace IdtxCore
open FsPath FileTree

/-- What the disk does in the course of one request. -/
structure DiskFaults where
  /-- the directories that cannot be made -/
  refused : Place → Option Failure := fun _ => none
  opens : Bool := true
  /-- a `write` fails after as many bytes, and the stream says so -/
  writeFails : Option Nat := none
  /-- what the stream still holds is lost when it is closed, and nothing says so -/
  closeFails : Option Nat := none
  renameFails : Option String := none
  removes : Bool := true

/-- What of the body gets into the file. -/
def DiskFaults.reaches (disk : DiskFaults) (body : Bytes) : Bytes :=
  body.take ((disk.writeFails.or disk.closeFails).getD body.length)

namespace UsdFileLocator

def statusToString : LocatorError → String
  | .invalidEncoding => "InvalidEncoding"
  | .invalidPath => "InvalidPath"
  | .notFound => "NotFound"
  | .notAUsdFile => "NotAUsdFile"
  | .outsideRoot => "OutsideRoot"
  | .permissionDenied => "PermissionDenied"

def classifyFilesystemError : Failure → LocatorError
  | .permission => .permissionDenied
  | .other => .notFound

/-- What `Resolve` asks, answered by a tree. -/
def filesOf {α : Type} (t : FileTree α) (cwd : Place) : Files where
  canonical path := (t.canonical cwd path).map (ofNames true)
  exists_ path := (t.canonical cwd path).isSome

variable {α : Type} (t : FileTree α) (disk : DiskFaults) (cwd : Place) (root : List Char)

def ensureDirectoryInsideRoot (dir : List Char) : FileTree α × Except LocatorError Unit :=
  match t.createDirectories disk.refused cwd dir with
  | (t', some failure) => (t', .error (classifyFilesystemError failure))
  | (t', none) =>
    match (filesOf t' cwd).canonical root, (filesOf t' cwd).canonical dir with
    | some canonicalRoot, some canonicalDir =>
      if elements canonicalRoot <+: elements canonicalDir then (t', .ok ()) else (t', .error .outsideRoot)
    | _, _ => (t', .error .notFound)

def writeTest : List Char := ".idtx-write-test".toList

def ensureRootExists (empty : α) : FileTree α × Except LocatorError Unit :=
  match t.createDirectories disk.refused cwd root with
  | (t', some failure) => (t', .error (classifyFilesystemError failure))
  | (t', none) =>
    let probe := join root writeTest
    let t' := if disk.removes then t'.unlink cwd probe else t'
    match (if disk.opens then t'.write cwd probe empty else none) with
    | none => (t', .error .permissionDenied)
    | some t' => (if disk.removes then t'.unlink cwd probe else t', .ok ())

end UsdFileLocator

/-- What Crow makes of the body: the part `file` with the filename of its header, and the other fields. A field that
is not there is empty. -/
structure UploadForm where
  file : Bytes
  partFilename : List Char := []
  filename : List Char := []
  path : List Char := []
  overwrite : List Char := []

structure UploadRequest where
  size : Nat
  /-- the text of the exception, where the body is malformed -/
  form : Except String UploadForm

inductive ThumbnailStatus where
  | queued
  | generated
  | skipped
  | failed
  deriving DecidableEq, Repr

structure ThumbnailInfo where
  status : ThumbnailStatus := .skipped
  path : List Char := []
  error : String := ""
  deriving DecidableEq, Repr

structure UploadResponse where
  filepath : List Char
  filename : List Char
  directory : List Char
  size : Nat
  thumbnail : ThumbnailInfo
  deriving DecidableEq, Repr

structure ThumbnailJob where
  usdFile : List Char
  outPath : List Char
  deriving DecidableEq, Repr

structure FileEntry where
  filepath : List Char
  filename : List Char
  directory : List Char
  size : Nat
  deriving DecidableEq, Repr

/-- How a request for a file is answered. -/
inductive Served where
  | content (filename : List Char) (content : Bytes)
  | notFound
  /-- there is something that cannot be read as a file -/
  | failed
  deriving DecidableEq, Repr

structure FileServingController where
  cwd : Place
  root : List Char
  uploadMaxBytes : Nat := 500 * 1024 * 1024
  thumbnails : Option ThumbnailGenerator := none

namespace FileServingController
open UsdFileLocator FileServing

def parseBool (s : List Char) (fallback : Bool) : Bool :=
  if s = [] then fallback
  else
    let lower := s.map Char.toLower
    lower = "1".toList || lower = "true".toList || lower = "yes".toList || lower = "on".toList

def invalidRequest (message : String) : ErrorResponse := ⟨400, "invalid_request", message, none⟩

def internalError (message : String) : ErrorResponse := ⟨500, "internal_error", message, none⟩

def uploadFilename (form : UploadForm) : List Char :=
  if form.filename = [] then form.partFilename else form.filename

/-- The full path and the relative one. -/
def uploadTarget (root : List Char) (form : UploadForm) : Except ErrorResponse (List Char × List Char) :=
  if form.file = [] then .error (invalidRequest "Missing or empty 'file' part.")
  else if uploadFilename form = [] then .error (invalidRequest "No filename provided.")
  else
    match validateUploadTarget root form.path (uploadFilename form) with
    | .ok target => .ok target
    | .error .notAUsdFile =>
      .error (invalidRequest "Only .usd, .usda, .usdc and .usdz files may be uploaded.")
    | .error .invalidEncoding => .error (invalidRequest "Path contains invalid percent-encoding.")
    | .error .outsideRoot => .error ⟨403, "forbidden_path", "Resolved path is outside the uploads root.", none⟩
    | .error status => .error (invalidRequest ("Invalid path: " ++ statusToString status))

def part : List Char := ".part".toList

variable (c : FileServingController) (disk : DiskFaults)

def dropPart (t : FileTree Bytes) (full : List Char) : FileTree Bytes :=
  if disk.removes then t.unlink c.cwd (full ++ part) else t

/-- From the writes of the `.part` file on; the error is the message of the answer. -/
def renamePart (t : FileTree Bytes) (full : List Char) : FileTree Bytes × Except String Unit :=
  if disk.writeFails.isSome then (c.dropPart disk t full, .error "Failed to write file bytes.")
  else
    match disk.renameFails, t.rename c.cwd (full ++ part) full with
    | some message, _ => (c.dropPart disk t full, .error ("Failed to finalise uploaded file: " ++ message))
    | none, none => (c.dropPart disk t full, .error "Failed to finalise uploaded file: Is a directory")
    | none, some t => (t, .ok ())

def finalise (t : FileTree Bytes) (full : List Char) (body : Bytes) : FileTree Bytes × Except String Unit :=
  match (if disk.opens then t.write c.cwd (full ++ part) (disk.reaches body) else none) with
  | none => (t, .error "Failed to open target file for writing.")
  | some t => c.renamePart disk t full

/-- The directory of the thumbnail, and the job for the worker. -/
def queueThumbnail (t : FileTree Bytes) (full relative : List Char) :
    FileTree Bytes × ThumbnailInfo × Option ThumbnailJob :=
  match c.thumbnails with
  | none => (t, {}, none)
  | some generator =>
    match ensureDirectoryInsideRoot t disk c.cwd c.root (join (parentPath full) thumbs) with
    | (t, .error _) => (t, { status := .failed, error := "Failed to prepare thumbs directory." }, none)
    | (t, .ok ()) =>
      let thumbRel := join (join (parentPath relative) thumbs) (stem relative ++ generator.extension)
      (t, { status := .queued, path := genericString thumbRel }, some ⟨full, thumbFull generator full relative⟩)

structure UploadOutcome where
  files : FileTree Bytes
  response : Except ErrorResponse UploadResponse
  /-- the argument of `SubmitReloadSessionsCommand` -/
  reload : Option (List Char) := none
  job : Option ThumbnailJob := none

/-- `UploadFile` once the target is known. -/
def place (t : FileTree Bytes) (form : UploadForm) (full relative : List Char) : UploadOutcome :=
  let targetExistedBefore := (t.canonical c.cwd full).isSome
  let overwrite := parseBool form.overwrite false
  if targetExistedBefore && !overwrite then
    { files := t
      response := .error ⟨409, "conflict",
        "A file with the same name already exists. Set 'overwrite=true' to replace it.", none⟩ }
  else
    match ensureDirectoryInsideRoot t disk c.cwd c.root (parentPath full) with
    | (t, .error .permissionDenied) =>
      { files := t
        response := .error (internalError
          "Upload target directory is not writable by the server. This is a server configuration issue.") }
    | (t, .error _) => { files := t, response := .error (internalError "Failed to prepare target directory.") }
    | (t, .ok ()) =>
      match c.finalise disk t full form.file with
      | (t, .error message) => { files := t, response := .error (internalError message) }
      | (t, .ok ()) =>
        let (t, thumbnail, job) := c.queueThumbnail disk t full relative
        { files := t
          response := .ok
            { filepath := genericString relative
              filename := FsPath.filename relative
              directory := genericString (parentPath relative)
              size := ((t.read c.cwd full).getD form.file).length
              thumbnail := thumbnail }
          reload := if targetExistedBefore && overwrite then some (genericString relative) else none
          job := job }

def uploadFile (t : FileTree Bytes) (req : UploadRequest) : UploadOutcome :=
  if c.uploadMaxBytes < req.size then
    { files := t
      response := .error ⟨413, "payload_too_large", "Upload exceeds the configured size limit.", none⟩ }
  else
    match req.form with
    | .error what => { files := t, response := .error (invalidRequest ("Malformed upload: " ++ what)) }
    | .ok form =>
      match uploadTarget c.root form with
      | .error error => { files := t, response := .error error }
      | .ok (full, relative) => c.place disk t form full relative

/-- A path read by `istreambuf_iterator`: a file that cannot be opened is read as an empty one, and a directory opens
but cannot be read. -/
def readAll (t : FileTree Bytes) (path : List Char) : Served :=
  if disk.opens = false then .content (FsPath.filename path) []
  else
    match t.canonical c.cwd path with
    | none => .content (FsPath.filename path) []
    | some p =>
      match t.content p with
      | some content => .content (FsPath.filename path) content
      | none => .failed

def serveFile (t : FileTree Bytes) (filepath : List Char) : Served :=
  match resolve (filesOf t c.cwd) c.root filepath with
  | .error _ => .notFound
  | .ok resolved => c.readAll disk t resolved

/-- `fs::exists` and `fs::is_regular_file` -/
def thumbnailExists (t : FileTree Bytes) (usdFilepath : List Char) : Bool :=
  match resolveThumbnailPath c.root c.thumbnails usdFilepath with
  | .error _ => false
  | .ok (full, _) => (t.read c.cwd full).isSome

def serveThumbnail (t : FileTree Bytes) (usdFilepath : List Char) : Served :=
  match resolveThumbnailPath c.root c.thumbnails usdFilepath with
  | .error _ => .notFound
  | .ok (full, _) => if (t.read c.cwd full).isSome then c.readAll disk t full else .notFound

/-- `fs::relative`, of canonical paths: a base and a path. -/
def relativePlace : Place → Place → List (List Char)
  | [], p => p
  | n :: ns, m :: ms =>
    if n = m then relativePlace ns ms else List.replicate (ns.length + 1) dotdot ++ m :: ms
  | ns, [] => List.replicate ns.length dotdot

/-- The entry of the list for what is at a place below the root. -/
def listEntry (t : FileTree Bytes) (nameFilter extFilter : List Char) (canonicalRoot p : Place) : Option FileEntry :=
  let path := (p.drop canonicalRoot.length).foldl join c.root
  if ¬canonicalRoot <+: p ∨ p = canonicalRoot then none
  else
    match t.canonical c.cwd path with
    | none => none
    | some file =>
      match t.content file with
      | none => none
      | some content =>
        let relativePath := ofNames false (relativePlace canonicalRoot file)
        if ¬isUsdFilename (FsPath.filename path) then none
        else if nameFilter ≠ [] ∧ ¬nameFilter <:+: FsPath.filename path then none
        else if extFilter ≠ [] ∧ ¬('.' :: extFilter) <:+ FsPath.filename path then none
        else
          some
            { filepath := relativePath
              filename := FsPath.filename path
              directory := parentPath relativePath
              size := content.length }

/-- `none` is answered 500. The order of the entries is the file system's. -/
def getFileList (t : FileTree Bytes) (nameFilter extFilter : List Char) : Option (List FileEntry) :=
  match t.canonical c.cwd c.root with
  | none => none
  | some canonicalRoot =>
    if t.isDir canonicalRoot then
      some (t.entries.keys.filterMap (c.listEntry t nameFilter extFilter canonicalRoot))
    else none

/-- The worker writes a picture. -/
def writeThumbnail (t : FileTree Bytes) (job : ThumbnailJob) (picture : Bytes) : Option (FileTree Bytes) :=
  if disk.opens then t.write c.cwd job.outPath picture else none

end FileServingController
end IdtxCore
