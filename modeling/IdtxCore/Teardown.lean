import IdtxCore.Repackage

/-!
# `TeardownSession`: what is left of the overrides

A session with `auto_commit` is committed when it is destroyed. Its sidecar is then removed, also if the
commit has failed, and the session layer is cleared. So the overrides survive if the commit goes through
(`CommitSucceeds`), and else only in a sidecar that could not be removed, or where they happened to be already. Entries
of a package may be extracted over the original and over the sidecar (`Spares`), and then not even there.

Waiting for the command queue, the listener and the log are left out; from `CloseAdmission` and
`WaitIdle` on, the thread has the stage for itself.
-/

namespace IdtxCore
open LexicalPath

namespace Content

def containsMerged : Content → Bool
  | .merged => true
  | .package ((_, .merged) :: _) => true
  | _ => false

def isOverrides : Content → Bool
  | .overrides => true
  | _ => false

end Content

inductive CommitStatus where
  | ok
  | unknownSession
  | nothingToCommit
  | writeFailed
  deriving DecidableEq, Repr

structure CommitResult where
  status : CommitStatus
  error : String
  deriving DecidableEq, Repr

/-- A session when it is destroyed. The sidecar is a new file in the directory of the sidecars. -/
structure DyingSession where
  autoCommit : Bool
  hasStage : Bool
  layerEmpty : Bool
  target : CommitTarget
  /-- the entries of the original file if it is a package -/
  zip : List ZipEntry
  sidecarPath : Path
  sidecar_outside : ¬ Inside target.tmpDir sidecarPath
  sidecar_ne : ∀ p ∈ [target.tmp, target.tmpPkg, target.dst], normal p ≠ normal sidecarPath

structure TeardownIo where
  save : Bool := true
  commit : CommitIo := {}
  /-- whether `exists` answers -/
  stat : Bool := true
  remove : Bool := true

namespace DyingSession
variable (s : DyingSession) (io : TeardownIo)

/-- Without the reload of the root layer, which is not asked for here. -/
def commitOverrides (disk : Disk) : CommitResult × Disk :=
  if s.hasStage = false then (⟨.unknownSession, "unknown session"⟩, disk)
  else if s.layerEmpty then (⟨.nothingToCommit, "no authored overrides to commit"⟩, disk)
  else
    let disk := disk.write s.sidecarPath .overrides io.save
    match StageCommitter.commit s.target io.commit s.zip disk with
    | (.error e, disk) => (⟨.writeFailed, e⟩, disk)
    | (.ok _, disk) => (⟨.ok, ""⟩, disk)

def removeSidecar (disk : Disk) : Disk :=
  if io.stat && (disk.files (normal s.sidecarPath)).isSome then disk.remove s.sidecarPath io.remove
  else disk

/-- Whether the session layer is empty afterwards, and the disk. -/
def teardownSession : Bool × Disk :=
  let hasOverrides := s.hasStage && !s.layerEmpty
  let disk := s.target.disk
  let disk :=
    if s.autoCommit && s.hasStage && hasOverrides then (s.commitOverrides io disk).2 else disk
  (s.hasStage || s.layerEmpty, s.removeSidecar io disk)

/-! ### Where the overrides are -/

def OriginalHolds (disk : Disk) : Prop := (disk.files (normal s.target.dst)).any Content.containsMerged = true

def SidecarHolds (disk : Disk) : Prop := (disk.files (normal s.sidecarPath)).any Content.isOverrides = true

instance (disk : Disk) : Decidable (s.OriginalHolds disk) := inferInstanceAs (Decidable (_ = true))

instance (disk : Disk) : Decidable (s.SidecarHolds disk) := inferInstanceAs (Decidable (_ = true))

def isPackage : Bool := StageCommitter.hasExtension s.target.file ".usdz"

/-- The calls of the commit that have to succeed. -/
def CommitSucceeds : Prop :=
  if s.isPackage then StageCommitter.Succeeds s.target io.commit s.zip
  else io.commit.flatten = true ∧ io.commit.rename = none ∧ io.commit.exportFlat = true

/-- No entry of the package is extracted to `x`. -/
def Spares (x : Path) : Prop :=
  s.isPackage = true → StageCommitter.Unpacks io.commit →
    ∀ w ∈ StageCommitter.writes s.target io.commit 0 s.zip, w.1 ≠ x

/-- The merged layer is exported over the original, in the place of a first entry that has its path. -/
def ExportsOver : Prop :=
  s.isPackage = true ∧ StageCommitter.Unpacks io.commit ∧
    StageCommitter.Exported s.target io.commit s.zip (normal s.target.dst)

end DyingSession

/-! ### Commit -/

namespace StageCommitter
variable {d : CommitTarget} {io : CommitIo} {zip : List ZipEntry} {disk : Disk} {x : Path}

theorem commitFlat_files_of_ne (htmp : normal d.tmp ≠ x) (hdst : normal d.dst ≠ x) :
    (commitFlat d io disk).2.files x = disk.files x := by
  have hremove : ∀ disk : Disk, ∀ ok, (disk.remove d.tmp ok).files x = disk.files x := fun disk ok =>
    Disk.remove_files_of_ne htmp
  have hwrite : ∀ disk : Disk, ∀ content ok, (disk.write d.tmp content ok).files x = disk.files x :=
    fun disk content ok => Disk.write_files_of_ne htmp
  unfold commitFlat replaceOriginal
  dsimp only
  split_ifs
  · rfl
  · simp only [hremove, hwrite]
  · cases io.rename with
    | none => simp only [Disk.rename_files_of_ne htmp hdst, hremove, hwrite]
    | some e => simp [Disk.rename, hremove, hwrite]

/-- The original has the merged layer, or it is as it was. -/
theorem commitFlat_files_dst : (commitFlat d io disk).2.files (normal d.dst) =
    if io.flatten = true ∧ io.rename = none ∧ io.exportFlat = true then some .merged
    else disk.files (normal d.dst) := by
  have hremove : ∀ disk : Disk, ∀ ok, (disk.remove d.tmp ok).files (normal d.dst) = disk.files (normal d.dst) :=
    fun disk ok => Disk.remove_files_of_ne tmp_ne_dst
  have hwrite : ∀ disk : Disk, ∀ content ok,
      (disk.write d.tmp content ok).files (normal d.dst) = disk.files (normal d.dst) :=
    fun disk content ok => Disk.write_files_of_ne tmp_ne_dst
  unfold commitFlat replaceOriginal
  dsimp only
  cases io.flatten with
  | false => simp
  | true =>
    cases io.exportFlat with
    | false => simp [hremove, hwrite]
    | true =>
      cases io.rename with
      | none => simp
      | some e => simp [Disk.rename, hremove, hwrite]

/-- A package that is committed begins with the merged layer. -/
theorem containsMerged_of_succeeds (hpackage : hasExtension d.file ".usdz" = true) (h : Succeeds d io zip) :
    ((commitUsdz d io zip disk).2.files (normal d.dst)).any Content.containsMerged = true := by
  cases zip with
  | nil => exact absurd rfl h.ne_nil
  | cons root rest =>
    rw [commitUsdz_files hpackage h]
    cases htwice : io.addTwice <;> simp [packed, htwice, keepFirst, Content.containsMerged]

end StageCommitter

/-! ### Teardown -/

namespace DyingSession
open StageCommitter
variable (s : DyingSession) (io : TeardownIo)

theorem originalHolds_iff (disk : Disk) :
    s.OriginalHolds disk ↔ ∃ c ∈ disk.files (normal s.target.dst), c.containsMerged = true := by
  simp [OriginalHolds, Option.any_eq_true]

theorem sidecarHolds_iff (disk : Disk) :
    s.SidecarHolds disk ↔ ∃ c ∈ disk.files (normal s.sidecarPath), c.isOverrides = true := by
  simp [SidecarHolds, Option.any_eq_true]

theorem original_commit_iff (disk : Disk) :
    s.OriginalHolds (commit s.target io.commit s.zip disk).2 ↔
      s.CommitSucceeds io ∨ s.ExportsOver io ∨ s.OriginalHolds disk ∧ s.Spares io (normal s.target.dst) := by
  unfold commit CommitSucceeds ExportsOver Spares
  cases hpackage : s.isPackage with
  | true =>
    rw [show hasExtension s.target.file ".usdz" = true from hpackage, if_pos rfl, if_pos rfl]
    by_cases hsucceeds : Succeeds s.target io.commit s.zip
    · exact iff_of_true (containsMerged_of_succeeds hpackage hsucceeds) (.inl hsucceeds)
    · rw [originalHolds_iff, originalHolds_iff, commitUsdz_holds_iff (fun _ => Bool.false_ne_true)
        (not_inside_tmpDir_dst hpackage) tmpPkg_ne_dst (.inr hsucceeds)]
      simp only [hsucceeds, false_or, true_and, true_implies, Content.containsMerged, and_true]
      exact or_comm
  | false =>
    rw [show hasExtension s.target.file ".usdz" = false from hpackage, if_neg Bool.false_ne_true,
      if_neg Bool.false_ne_true]
    unfold OriginalHolds
    rw [commitFlat_files_dst]
    split_ifs with hflat
    · exact iff_of_true rfl (.inl hflat)
    · simp [hflat]

theorem sidecar_commit_iff (disk : Disk) :
    s.SidecarHolds (commit s.target io.commit s.zip disk).2 ↔
      s.SidecarHolds disk ∧ s.Spares io (normal s.sidecarPath) := by
  have hdst : normal s.target.dst ≠ normal s.sidecarPath := s.sidecar_ne _ (by simp)
  have hpkg : normal s.target.tmpPkg ≠ normal s.sidecarPath := s.sidecar_ne _ (by simp)
  have htmp : normal s.target.tmp ≠ normal s.sidecarPath := s.sidecar_ne _ (by simp)
  unfold commit Spares
  cases hpackage : s.isPackage with
  | true =>
    rw [show hasExtension s.target.file ".usdz" = true from hpackage, if_pos rfl, sidecarHolds_iff, sidecarHolds_iff,
      commitUsdz_holds_iff (fun _ => Bool.false_ne_true) s.sidecar_outside hpkg (.inl hdst)]
    simp [Content.isOverrides]
  | false =>
    rw [show hasExtension s.target.file ".usdz" = false from hpackage, if_neg Bool.false_ne_true]
    unfold SidecarHolds
    rw [commitFlat_files_of_ne htmp hdst]
    simp

/-- The commit begins with a save of the sidecar. -/
theorem commitOverrides_disk (hstage : s.hasStage = true) (hlayer : s.layerEmpty = false) :
    let disk := (s.commitOverrides io s.target.disk).2
    (s.OriginalHolds disk ↔ s.CommitSucceeds io ∨ s.ExportsOver io ∨
      s.OriginalHolds s.target.disk ∧ s.Spares io (normal s.target.dst)) ∧
    (s.SidecarHolds disk ↔
      (s.SidecarHolds s.target.disk ∨ io.save = true) ∧ s.Spares io (normal s.sidecarPath)) := by
  have hdst : normal s.sidecarPath ≠ normal s.target.dst := (s.sidecar_ne _ (by simp)).symm
  have hdisk : (s.commitOverrides io s.target.disk).2 =
      (commit s.target io.commit s.zip (s.target.disk.write s.sidecarPath .overrides io.save)).2 := by
    unfold commitOverrides
    rw [if_neg (by simp [hstage]), if_neg (by simp [hlayer])]
    dsimp only
    rcases commit s.target io.commit s.zip _ with ⟨err | _, disk⟩ <;> rfl
  have horiginal : s.OriginalHolds (s.target.disk.write s.sidecarPath .overrides io.save) ↔
      s.OriginalHolds s.target.disk := by
    unfold OriginalHolds
    rw [Disk.write_files_of_ne hdst]
  have hsidecar : s.SidecarHolds (s.target.disk.write s.sidecarPath .overrides io.save) ↔
      s.SidecarHolds s.target.disk ∨ io.save = true := by
    unfold SidecarHolds
    cases io.save with
    | false => exact ⟨.inl, fun h => h.resolve_right (by simp)⟩
    | true => simp [Content.isOverrides]
  dsimp only
  rw [hdisk, original_commit_iff, sidecar_commit_iff, horiginal, hsidecar]
  exact ⟨Iff.rfl, Iff.rfl⟩

theorem removeSidecar_original (disk : Disk) :
    s.OriginalHolds (s.removeSidecar io disk) ↔ s.OriginalHolds disk := by
  have hdst : normal s.sidecarPath ≠ normal s.target.dst := (s.sidecar_ne _ (by simp)).symm
  unfold OriginalHolds removeSidecar
  split
  · rw [Disk.remove_files_of_ne hdst]
  · rfl

theorem removeSidecar_sidecar (disk : Disk) :
    s.SidecarHolds (s.removeSidecar io disk) ↔
      s.SidecarHolds disk ∧ (io.stat = false ∨ io.remove = false) := by
  unfold SidecarHolds removeSidecar
  cases hfile : disk.files (normal s.sidecarPath) with
  | none => simp [hfile]
  | some content =>
    cases io.stat with
    | false => simp [hfile]
    | true =>
      cases io.remove with
      | false => simp [Disk.remove, hfile]
      | true => simp

def Survives : Prop :=
  s.CommitSucceeds io ∨ s.ExportsOver io ∨ s.OriginalHolds s.target.disk ∧ s.Spares io (normal s.target.dst) ∨
    (s.SidecarHolds s.target.disk ∨ io.save = true) ∧ s.Spares io (normal s.sidecarPath) ∧
      (io.stat = false ∨ io.remove = false)

/-- The overrides are in the original file or in the sidecar. -/
def Kept (disk : Disk) : Prop := s.OriginalHolds disk ∨ s.SidecarHolds disk

/-- For every session with `auto_commit` and overrides, and every outcome of the calls. -/
theorem kept_of_teardown (hauto : s.autoCommit = true) (hstage : s.hasStage = true)
    (hlayer : s.layerEmpty = false) : s.Kept (s.teardownSession io).2 ↔ s.Survives io := by
  obtain ⟨horiginal, hsidecar⟩ := s.commitOverrides_disk io hstage hlayer
  have hdisk : (s.teardownSession io).2 = s.removeSidecar io (s.commitOverrides io s.target.disk).2 := by
    simp [teardownSession, hauto, hstage, hlayer]
  unfold Kept Survives
  rw [hdisk, removeSidecar_original, removeSidecar_sidecar, horiginal, hsidecar, or_assoc, or_assoc, and_assoc]

/-! ### A commit that fails -/

def sampleSession : DyingSession where
  autoCommit := true
  hasStage := true
  layerEmpty := false
  target :=
    { dir := ["uploads"]
      file := "scene.usda"
      file_plain := by decide
      disk :=
        { dirs := fun x => x = [] ∨ x = ["uploads"]
          files := fun x =>
            if x = ["uploads", "scene.usda"] then some (.bytes "#usda 1.0")
            else if x = ["uploads", "sessions", "id.usda"] then some .overrides
            else none }
      dir_exists := sampleTarget.dir_exists
      fresh := rfl }
  zip := []
  sidecarPath := ["uploads", "sessions", "id.usda"]
  sidecar_outside := by decide
  sidecar_ne := by decide

/-- If the export fails, neither the original nor the sidecar has the overrides afterwards. -/
theorem not_kept_after_export_fails :
    let io : TeardownIo := { commit := { exportFlat := false } }
    sampleSession.SidecarHolds sampleSession.target.disk ∧
      ¬ sampleSession.Kept (sampleSession.teardownSession io).2 := by
  refine ⟨by decide, ?_⟩
  rintro (horiginal | hsidecar)
  · exact absurd horiginal (by decide)
  · exact absurd hsidecar (by decide)

/-- A session on a package with a texture. -/
def texturedSession : DyingSession where
  autoCommit := true
  hasStage := true
  layerEmpty := false
  target := packageTarget texturedScene
  zip := texturedScene
  sidecarPath := ["uploads", "sessions", "id.usda"]
  sidecar_outside := by decide
  sidecar_ne := by decide

/-- The package is committed, or it cannot be packed again and the sidecar cannot be removed. -/
theorem kept_after_commit :
    texturedSession.Kept (texturedSession.teardownSession {}).2 ∧
      texturedSession.Kept (texturedSession.teardownSession { commit := { savePkg := false }, remove := false }).2 := by
  constructor
  · have hentries : ∀ (i : Nat) (e : ZipEntry), texturedScene[i]? = some e → e.compressed = false ∧ e.unreadable = false ∧
        normal ((packageTarget texturedScene).outFile e.name) ≠ normal (packageTarget texturedScene).tmpPkg := by
      simp only [texturedScene, forall_getElem?_cons, List.getElem?_nil]
      exact ⟨by decide, by decide, fun _ _ h => absurd h.symm (Option.some_ne_none _)⟩
    refine (kept_of_teardown texturedSession {} rfl rfl rfl).2 (.inl ?_)
    unfold CommitSucceeds
    rw [if_pos (by decide)]
    exact ⟨rfl, rfl, rfl, List.cons_ne_nil _ _, fun i e he => ⟨(hentries i e he).1, (hentries i e he).2.1, rfl⟩, rfl,
      rfl, fun i e he => ⟨rfl, fun _ => (hentries i e he).2.2⟩, rfl, rfl⟩
  · refine (kept_of_teardown texturedSession { commit := { savePkg := false }, remove := false } rfl rfl rfl).2
      (.inr (.inr (.inr ⟨.inr rfl, ?_, .inr rfl⟩)))
    intro _ _ w hw
    rcases List.mem_cons.1 hw with rfl | hw
    · decide
    · rw [List.mem_singleton.1 hw]
      decide

end DyingSession
end IdtxCore
