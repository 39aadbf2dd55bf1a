import IdtxCore.UsdFileLocator
import IdtxCore.Server

/-!
# Which sessions are told to reload

`SubmitReloadSessionsCommand` looks the sessions up by the string they were created with. An upload passes the
generic form of the path it has decoded itself, a commit the string of the committing session. A file has many
spellings that `Resolve` accepts, so the sessions of a file are reached if they all use that one string
(`reaches_iff`), which they do if every string is a `PlainSpelling` (`reaches_of_plain`).
-/

namespace IdtxCore
open FsPath UsdFileLocator

/-- A live session, created with a string that `Resolve` accepted at that time. -/
structure LiveSession (root : List Char) where
  id : Nat
  usdFile : List Char
  accepted : ∃ files resolved, resolve files root usdFile = .ok resolved

namespace LiveSession
variable {root : List Char}

def findByUsdFile (sessions : List (LiveSession root)) (usdFile : List Char) : List (LiveSession root) :=
  sessions.filter (·.usdFile = usdFile)

/-- The sessions that a `ReloadCommand` is submitted to, and how many of them accept it. -/
def submitReloadSessionsCommand (submit : LiveSession root → SubmitStatus) (sessions : List (LiveSession root))
    (usdFile : List Char) (skip : Option Nat) : List (LiveSession root) × Nat :=
  let submitted := (findByUsdFile sessions usdFile).filter (some ·.id ≠ skip)
  (submitted, (submitted.filter (submit · = .accepted)).length)

end LiveSession

/-- What makes the manager call `SubmitReloadSessionsCommand`. -/
inductive ReloadTrigger (root : List Char) where
  /-- an upload that has replaced the file -/
  | upload (dir filename full relative : List Char)
      (accepted : validateUploadTarget root dir filename = .ok (full, relative))
  | commit (session : LiveSession root)

/-- The file that a session's string stands for. -/
def designated (root usdFile : List Char) : Option (List Char) :=
  (percentDecode false false usdFile).map fun decoded => lexicallyNormal (join root decoded)

namespace ReloadTrigger
variable {root : List Char}

/-- The string that the sessions are looked up with. -/
def usdFile : ReloadTrigger root → List Char
  | upload _ _ _ relative _ => genericString relative
  | commit session => session.usdFile

/-- The committing session has reloaded already. -/
def skip : ReloadTrigger root → Option Nat
  | upload .. => none
  | commit session => some session.id

/-- The file that was written. -/
def file : ReloadTrigger root → Option (List Char)
  | upload _ _ full _ _ => some full
  | commit session => designated root session.usdFile

/-- The other sessions on the file. -/
def Concerns (trigger : ReloadTrigger root) (session : LiveSession root) : Prop :=
  some session.id ≠ trigger.skip ∧ designated root session.usdFile = trigger.file

end ReloadTrigger

variable {root usdFile usdFile₁ usdFile₂ : List Char} {sessions : List (LiveSession root)} {session : LiveSession root}
  {submit : LiveSession root → SubmitStatus} {trigger : ReloadTrigger root}

theorem mem_submitReloadSessionsCommand {skip : Option Nat} :
    session ∈ (LiveSession.submitReloadSessionsCommand submit sessions usdFile skip).1 ↔
      session ∈ sessions ∧ session.usdFile = usdFile ∧ some session.id ≠ skip := by
  simp only [LiveSession.submitReloadSessionsCommand, LiveSession.findByUsdFile, List.mem_filter, decide_eq_true_eq,
    and_assoc]

namespace ReloadTrigger

/-- Every other session on the file is told to reload exactly if all of them were created with the very string that
the lookup uses. -/
theorem reaches_iff (trigger : ReloadTrigger root) (submit : LiveSession root → SubmitStatus)
    (sessions : List (LiveSession root)) :
    (∀ session ∈ sessions, trigger.Concerns session →
        session ∈ (LiveSession.submitReloadSessionsCommand submit sessions trigger.usdFile trigger.skip).1) ↔
      ∀ session ∈ sessions, trigger.Concerns session → session.usdFile = trigger.usdFile := by
  constructor
  · intro h session hmem hconcerns
    exact (mem_submitReloadSessionsCommand.1 (h session hmem hconcerns)).2.1
  · intro h session hmem hconcerns
    exact mem_submitReloadSessionsCommand.2 ⟨hmem, h session hmem hconcerns, hconcerns.1⟩

end ReloadTrigger

/-! ### Plain spellings -/

/-- No escapes, no dots, and one slash between two names. -/
structure PlainSpelling (usdFile : List Char) : Prop where
  percent_notMem : '%' ∉ usdFile
  isRelative : isAbsolute usdFile = false
  dot_notMem : dot ∉ names usdFile
  generic : genericString usdFile = usdFile

/-- What a plain string that `Resolve` or an upload has accepted has besides. -/
structure OwnDecoding (usdFile : List Char) : Prop where
  valid : validatePath usdFile = .ok usdFile
  isUsd : isUsdFilename (filename usdFile) = true

theorem LiveSession.ownDecoding (session : LiveSession root) (h : PlainSpelling session.usdFile) :
    OwnDecoding session.usdFile := by
  obtain ⟨files, resolved, hresolve⟩ := session.accepted
  obtain ⟨decoded, hvalid, rfl, husd⟩ := resolve_ok hresolve
  have hdecode := (validatePath_ok hvalid).1
  rw [percentDecode_eq_self h.percent_notMem] at hdecode
  obtain rfl := Option.some.inj hdecode
  rw [filename_join h.isRelative] at husd
  exact ⟨hvalid, husd⟩

theorem ReloadTrigger.ownDecoding (trigger : ReloadTrigger root) (h : PlainSpelling trigger.usdFile) :
    OwnDecoding trigger.usdFile := by
  cases trigger with
  | commit session => exact session.ownDecoding h
  | upload dir raw full relative accepted =>
    obtain ⟨hpath, -⟩ := validateUploadTarget_ok accepted
    refine ⟨validatePath_genericString hpath, ?_⟩
    have hne : filename relative ≠ [] := fun hnil => named_of_isUsdFilename hpath.isUsd (by simp [hnil])
    rw [usdFile, filename_genericString hne]
    exact hpath.isUsd

theorem designated_of_plain (h : PlainSpelling usdFile) (hown : OwnDecoding usdFile) : designated root usdFile =
    some (ofNames (isAbsolute root) (reduce (isAbsolute root) (names root) ++ names usdFile)) := by
  obtain ⟨hdecode, -, -⟩ := validatePath_ok hown.valid
  have hdotdot : dotdot ∉ names usdFile := dotdot_notMem_of_valid hown.valid
  have hfilter : (names usdFile).filter (· ≠ dot) = names usdFile := by
    refine List.filter_eq_self.2 fun n hn => ?_
    have hne : n ≠ dot := fun heq => h.dot_notMem (heq ▸ hn)
    simpa using hne
  unfold designated
  rw [hdecode, Option.map_some, lexicallyNormal_join h.isRelative (named_of_isUsdFilename hown.isUsd) hdotdot, hfilter]

/-- Of the spellings of a file, one is plain. -/
theorem plain_unique (h₁ : PlainSpelling usdFile₁) (h₂ : PlainSpelling usdFile₂) (hown₁ : OwnDecoding usdFile₁)
    (hown₂ : OwnDecoding usdFile₂) (h : designated root usdFile₁ = designated root usdFile₂) :
    usdFile₁ = usdFile₂ := by
  have hgeneric : ∀ {u : List Char}, PlainSpelling u → OwnDecoding u → u = ofNames false (names u) := by
    intro u hplain hown
    have hne : filename u ≠ [] := fun hnil => named_of_isUsdFilename hown.isUsd (by simp [hnil])
    have heq := genericString_eq hne
    rwa [hplain.generic, hplain.isRelative] at heq
  have hgood : ∀ u, ∀ n ∈ reduce (isAbsolute root) (names root) ++ names u, n ≠ [] ∧ '/' ∉ n := by
    intro u n hn
    rcases List.mem_append.1 hn with hn | hn
    · exact mem_reduce_names hn
    · exact mem_names hn
  rw [designated_of_plain h₁ hown₁, designated_of_plain h₂ hown₂] at h
  have hnames := List.append_cancel_left (ofNames_injective (hgood _) (hgood _) (Option.some.inj h))
  rw [hgeneric h₁ hown₁, hgeneric h₂ hown₂, hnames]

namespace ReloadTrigger

theorem designated_usdFile (trigger : ReloadTrigger root) : designated root trigger.usdFile = trigger.file := by
  cases trigger with
  | commit session => rfl
  | upload dir raw full relative accepted =>
    obtain ⟨hpath, hanchor, -⟩ := validateUploadTarget_ok accepted
    have hdecode := (validatePath_ok (validatePath_genericString hpath)).1
    rw [usdFile, file, designated, hdecode, Option.map_some, lexicallyNormal_join_genericString hpath hanchor]

/-- If all strings are plain, every other session on the file is told to reload. -/
theorem reaches_of_plain (hsessions : ∀ session ∈ sessions, PlainSpelling session.usdFile)
    (htrigger : PlainSpelling trigger.usdFile) : ∀ session ∈ sessions, trigger.Concerns session →
      session ∈ (LiveSession.submitReloadSessionsCommand submit sessions trigger.usdFile trigger.skip).1 := by
  intro session hmem hconcerns
  have hplain := hsessions session hmem
  refine mem_submitReloadSessionsCommand.2 ⟨hmem, ?_, hconcerns.1⟩
  exact plain_unique hplain htrigger (session.ownDecoding hplain) (trigger.ownDecoding htrigger)
    (hconcerns.2.trans trigger.designated_usdFile.symm)

/-! ### A session created with a dot in front -/

/-- The server runs in `/srv`; there is one file. -/
def oneFile : Files where
  canonical p := some (lexicallyNormal (join "/srv".toList p))
  exists_ p := lexicallyNormal p = "uploads/scene.usda".toList

def dotted : LiveSession "uploads".toList where
  id := 1
  usdFile := "./scene.usda".toList
  accepted := ⟨oneFile, "uploads/./scene.usda".toList, by decide⟩

def sceneUpload : ReloadTrigger "uploads".toList :=
  .upload [] "scene.usda".toList "uploads/scene.usda".toList "scene.usda".toList (by decide)

theorem dotted_not_reached : sceneUpload.Concerns dotted ∧ dotted ∉
    (LiveSession.submitReloadSessionsCommand (fun _ => .accepted) [dotted] sceneUpload.usdFile sceneUpload.skip).1 := by
  refine ⟨⟨by decide, by decide⟩, fun hmem => ?_⟩
  exact absurd (mem_submitReloadSessionsCommand.1 hmem).2.1 (by decide)

end ReloadTrigger
end IdtxCore
