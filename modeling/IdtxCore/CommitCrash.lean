import IdtxCore.Lib.Crash
import IdtxCore.Repackage

/-!
# A commit that is interrupted

The calls of a commit as a list (`commitCalls`, `traces_commit`), each of which may be interrupted: a file that is
written may hold anything then, a directory may be removed in part; a rename takes effect at once. All calls but the
rename of the new file over the original leave the original alone (`Call.Spares`), so a server that dies during a commit
leaves the old file or the whole new one.
-/

namespace IdtxCore
open LexicalPath

namespace StageCommitter

inductive Call where
  | touch (p : Path)
  | write (p : Path) (content : Content) (ok : Bool)
  | remove (p : Path) (ok : Bool)
  | removeAll (p : Path) (ok : Bool)
  | rename (src dst : Path) (ok : Bool)
  | createDirectories (p : Path) (made : Option Nat)

namespace Call

def run (disk : Disk) : Call → Disk
  | .touch p => disk.touch p
  | .write p content ok => disk.write p content ok
  | .remove p ok => disk.remove p ok
  | .removeAll p ok => disk.removeAll p ok
  | .rename src dst ok => disk.rename src dst ok
  | .createDirectories p made => disk.createDirectories p made

/-- What an interrupted call may leave. -/
inductive Torn (disk : Disk) : Call → Disk → Prop where
  | write {p : Path} {content : Content} {ok : Bool} (part : Option Content) :
      Torn disk (.write p content ok) ((disk.touch p).put p part)
  | removeAll {p : Path} {ok : Bool} {disk' : Disk} : (∀ x, ¬ normal p <+: x → disk'.files x = disk.files x) →
      Torn disk (.removeAll p ok) disk'
  | createDirectories {p : Path} {made : Option Nat} (n : Nat) :
      Torn disk (.createDirectories p made) (disk.createDirectories p (some n))

end Call

def machine : Interrupt.Machine Disk Call where
  run c disk := c.run disk
  torn c disk disk' := c.Torn disk disk'

section Calls
variable (d : CommitTarget) (io : CommitIo)

def replaceOriginalCalls (src : Path) : List Call :=
  match io.rename with
  | none => [.rename src d.dst true]
  | some _ => [.rename src d.dst false, .remove src io.dropTmp]

def commitFlatCalls : List Call :=
  if io.flatten = false then []
  else
    [.remove d.tmp io.cleanTmp, .write d.tmp .merged io.exportFlat] ++
      if io.exportFlat = false then [.remove d.tmp io.dropTmp] else replaceOriginalCalls d io d.tmp

def extractEntryCalls (i : Nat) (e : ZipEntry) : List Call :=
  if e.compressed then []
  else if e.unreadable then []
  else
    [.createDirectories (d.outFile e.name).dropLast (io.entryDirs i),
      .write (d.outFile e.name) (e.contentAfter (io.writeEntry i)) (io.openEntry i)]

def extractCalls : Nat → List ZipEntry → Disk → List Call
  | _, [], _ => []
  | i, e :: rest, disk =>
    match extractEntry d io i e disk with
    | (.ok _, disk) => extractEntryCalls d io i e ++ extractCalls (i + 1) rest disk
    | (.error _, _) => extractEntryCalls d io i e

def rezipCalls (zip : List ZipEntry) (disk : Disk) : List Call :=
  let disk := (disk.remove d.tmpPkg io.cleanPkg).touch d.tmpPkg
  [.remove d.tmpPkg io.cleanPkg, .touch d.tmpPkg] ++
    if io.createPkg = false then []
    else
      match addFiles d io disk 0 zip with
      | .error _ => [.remove d.tmpPkg io.dropTmp]
      | .ok entries =>
        .write d.tmpPkg (.package (packed io entries)) io.savePkg ::
          if io.savePkg = false then [.remove d.tmpPkg io.dropTmp] else replaceOriginalCalls d io d.tmpPkg

def replaceRootCalls (rootName : String) (zip : List ZipEntry) (disk : Disk) : List Call :=
  let disk := disk.remove (d.outFile rootName) io.cleanRoot
  let disk := disk.write (d.outFile rootName) .merged io.exportRoot
  [.remove (d.outFile rootName) io.cleanRoot, .write (d.outFile rootName) .merged io.exportRoot] ++
    if io.exportRoot = false then [] else rezipCalls d io zip disk

def repackageCalls (zip : List ZipEntry) (disk : Disk) : List Call :=
  if io.openZip = false then []
  else
    extractCalls d io 0 zip disk ++
      match extract d io 0 zip disk, zip with
      | (.error _, _), _ => []
      | (.ok _, _), [] => []
      | (.ok _, disk), root :: _ => replaceRootCalls d io root.name zip disk

def commitUsdzCalls (zip : List ZipEntry) (disk : Disk) : List Call :=
  if io.flatten = false then []
  else
    let made := (disk.removeAll d.tmpDir io.cleanTmp).createDirectories d.tmpDir io.tmpDirMade
    [.removeAll d.tmpDir io.cleanTmp, .createDirectories d.tmpDir io.tmpDirMade] ++
      match io.tmpDirError with
      | some _ => []
      | none => repackageCalls d io zip made ++ [.removeAll d.tmpDir io.dropDir]

/-- The calls that `commit` makes, in order. -/
def commitCalls (zip : List ZipEntry) (disk : Disk) : List Call :=
  if hasExtension d.file ".usdz" then commitUsdzCalls d io zip disk else commitFlatCalls d io

end Calls

/-! ### The calls are those of the commit -/

variable {d : CommitTarget} {io : CommitIo} {zip : List ZipEntry} {disk disk' : Disk} {calls : List Call}
  {r : Except String Unit}

/-- The call leaves the original alone. -/
def Call.Spares (d : CommitTarget) : Call → Prop
  | .touch _ => True
  | .write p _ _ | .remove p _ => normal p ≠ normal d.dst
  | .removeAll p _ => ¬ normal p <+: normal d.dst
  | .rename src _ ok => ok = false ∧ normal src ≠ normal d.dst
  | .createDirectories _ _ => True

/-- A run of calls ends in the disk `disk'` with the result `r`. They leave the original alone, but for one rename if
the result is no error. -/
structure Traces (d : CommitTarget) (calls : List Call) (disk : Disk) (r : Except String Unit) (disk' : Disk) :
    Prop where
  exec : machine.exec calls disk = disk'
  spares : (∀ c ∈ calls, c.Spares d) ∨ r = .ok () ∧ ∃ before src after,
    calls = before ++ .rename src d.dst true :: after ∧ (∀ c ∈ before, c.Spares d) ∧ ∀ c ∈ after, c.Spares d

namespace Traces

theorem nil : Traces d [] disk r disk := ⟨rfl, .inl nofun⟩

theorem of_spares (hexec : machine.exec calls disk = disk') (h : ∀ c ∈ calls, c.Spares d) :
    Traces d calls disk r disk' := ⟨hexec, .inl h⟩

theorem prepend {before : List Call} (h : Traces d calls (machine.exec before disk) r disk')
    (hbefore : ∀ c ∈ before, c.Spares d) : Traces d (before ++ calls) disk r disk' := by
  refine ⟨(Interrupt.Machine.exec_append ..).trans h.exec, ?_⟩
  rcases h.spares with hs | ⟨hr, b, src, after, rfl, hb, hafter⟩
  · exact .inl (List.forall_mem_append.2 ⟨hbefore, hs⟩)
  · refine .inr ⟨hr, before ++ b, src, after, (List.append_assoc ..).symm, ?_, hafter⟩
    exact List.forall_mem_append.2 ⟨hbefore, hb⟩

theorem append {after : List Call} (h : Traces d calls disk r disk') (hafter : ∀ c ∈ after, c.Spares d) :
    Traces d (calls ++ after) disk r (machine.exec after disk') := by
  refine ⟨by rw [Interrupt.Machine.exec_append, h.exec], ?_⟩
  rcases h.spares with hs | ⟨hr, before, src, b, rfl, hbefore, hb⟩
  · exact .inl (List.forall_mem_append.2 ⟨hs, hafter⟩)
  · exact .inr ⟨hr, before, src, b ++ after, List.append_assoc .., hbefore, List.forall_mem_append.2 ⟨hb, hafter⟩⟩

end Traces

theorem traces_replaceOriginal {src : Path} (hne : normal src ≠ normal d.dst) :
    Traces d (replaceOriginalCalls d io src) disk (replaceOriginal d io src disk).1
      (replaceOriginal d io src disk).2 := by
  unfold replaceOriginalCalls replaceOriginal
  cases io.rename with
  | none => exact ⟨rfl, .inr ⟨rfl, [], src, [], rfl, nofun, nofun⟩⟩
  | some e => exact .of_spares rfl (by simp [Call.Spares, hne])

theorem traces_commitFlat :
    Traces d (commitFlatCalls d io) disk (commitFlat d io disk).1 (commitFlat d io disk).2 := by
  unfold commitFlatCalls commitFlat
  dsimp only
  split
  · exact .nil
  · refine .prepend ?_ (by simp [Call.Spares, tmp_ne_dst])
    split
    · exact .of_spares rfl (by simp [Call.Spares, tmp_ne_dst])
    · exact traces_replaceOriginal tmp_ne_dst

theorem traces_extractEntry (io : CommitIo) (i : Nat) {e : ZipEntry} (disk : Disk)
    (hout : e ∈ reached [e] → normal (d.outFile e.name) ≠ normal d.dst) :
    machine.exec (extractEntryCalls d io i e) disk = (extractEntry d io i e disk).2 ∧
      ∀ c ∈ extractEntryCalls d io i e, c.Spares d := by
  unfold extractEntryCalls extractEntry
  cases hc : e.compressed with
  | true => exact ⟨rfl, nofun⟩
  | false =>
    cases hr : e.unreadable with
    | true => exact ⟨rfl, nofun⟩
    | false =>
      have hne := hout (by simp [reached, hc, hr])
      refine ⟨?_, by simp [Call.Spares, hne]⟩
      simp only [Bool.false_eq_true, if_false]
      split <;> rfl

theorem traces_extract (io : CommitIo) (i : Nat) (disk : Disk)
    (hout : ∀ e ∈ reached zip, normal (d.outFile e.name) ≠ normal d.dst) :
    machine.exec (extractCalls d io i zip disk) disk = (extract d io i zip disk).2 ∧
      ∀ c ∈ extractCalls d io i zip disk, c.Spares d := by
  induction zip generalizing i disk with
  | nil => exact ⟨rfl, nofun⟩
  | cons e rest ih =>
    have hhead : e ∈ reached [e] → normal (d.outFile e.name) ≠ normal d.dst := by
      intro he
      refine hout e ?_
      simp only [reached, List.takeWhile_cons, List.takeWhile_nil] at he ⊢
      split at he
      · simp [*]
      · cases he
    obtain ⟨hexec, hspares⟩ := traces_extractEntry io i disk hhead
    unfold extractCalls extract
    rcases hentry : extractEntry d io i e disk with ⟨err | _, disk'⟩
    · rw [hentry] at hexec
      exact ⟨hexec, hspares⟩
    · rw [hentry] at hexec
      have hrest : ∀ e' ∈ reached rest, normal (d.outFile e'.name) ≠ normal d.dst := by
        intro e' he'
        refine hout e' ?_
        rcases extractEntry_cases d io i e disk with ⟨err, herr⟩ | ⟨hc, hr, -⟩
        · rw [hentry] at herr
          cases herr
        · rw [reached_cons hc hr]
          exact List.mem_cons_of_mem _ he'
      obtain ⟨hexec', hspares'⟩ := ih (i + 1) disk' hrest
      refine ⟨?_, List.forall_mem_append.2 ⟨hspares, hspares'⟩⟩
      rw [Interrupt.Machine.exec_append, hexec]
      exact hexec'

theorem traces_rezip (hpkg : normal d.tmpPkg ≠ normal d.dst) :
    Traces d (rezipCalls d io zip disk) disk (rezip d io zip disk).1 (rezip d io zip disk).2 := by
  unfold rezipCalls rezip
  dsimp only
  refine .prepend ?_ (by simp [Call.Spares, hpkg])
  split
  · exact .nil
  · rcases haddFiles : addFiles d io ((disk.remove d.tmpPkg io.cleanPkg).touch d.tmpPkg) 0 zip with err | entries
    · exact .of_spares rfl (by simp [Call.Spares, hpkg])
    · dsimp only
      have hwrite : ∀ c ∈ [Call.write d.tmpPkg (.package (packed io entries)) io.savePkg], c.Spares d := by
        simp [Call.Spares, hpkg]
      split
      · exact .of_spares rfl (by simp [Call.Spares, hpkg])
      · exact .prepend (traces_replaceOriginal hpkg) hwrite

theorem traces_replaceRoot (hpkg : normal d.tmpPkg ≠ normal d.dst) {rootName : String}
    (hroot : normal (d.outFile rootName) ≠ normal d.dst) :
    Traces d (replaceRootCalls d io rootName zip disk) disk (replaceRoot d io rootName zip disk).1
      (replaceRoot d io rootName zip disk).2 := by
  unfold replaceRootCalls replaceRoot
  dsimp only
  refine .prepend ?_ (by simp [Call.Spares, hroot])
  split
  · exact .nil
  · exact traces_rezip hpkg

theorem traces_repackage (hpkg : normal d.tmpPkg ≠ normal d.dst)
    (hout : ∀ e ∈ reached zip, normal (d.outFile e.name) ≠ normal d.dst) :
    Traces d (repackageCalls d io zip disk) disk (repackage d io zip disk).1 (repackage d io zip disk).2 := by
  unfold repackageCalls repackage
  split
  · exact .nil
  · obtain ⟨hexec, hspares⟩ := traces_extract io 0 disk hout
    refine .prepend ?_ hspares
    rw [hexec]
    rcases hextract : extract d io 0 zip disk with ⟨err | _, disk'⟩
    · exact .nil
    · cases zip with
      | nil => exact .nil
      | cons root rest =>
        refine traces_replaceRoot hpkg (hout root ?_)
        rw [reached_of_extract hextract]
        exact List.mem_cons_self

theorem traces_commitUsdz (hpackage : hasExtension d.file ".usdz" = true)
    (hinside : ∀ e ∈ reached zip, Inside d.tmpDir (d.outFile e.name)) :
    Traces d (commitUsdzCalls d io zip disk) disk (commitUsdz d io zip disk).1 (commitUsdz d io zip disk).2 := by
  have htmpDir := not_inside_tmpDir_dst hpackage
  have hout : ∀ e ∈ reached zip, normal (d.outFile e.name) ≠ normal d.dst := by
    intro e he heq
    exact htmpDir (heq ▸ hinside e he)
  unfold commitUsdzCalls commitUsdz
  split
  · exact .nil
  · refine .prepend ?_ (by simp [Call.Spares, htmpDir])
    cases io.tmpDirError with
    | some err => exact .nil
    | none => exact .append (traces_repackage tmpPkg_ne_dst hout) (by simp [Call.Spares, htmpDir])

theorem traces_commit (io : CommitIo) (disk : Disk) (hinside : hasExtension d.file ".usdz" = true →
    ∀ e ∈ reached zip, Inside d.tmpDir (d.outFile e.name)) :
    Traces d (commitCalls d io zip disk) disk (commit d io zip disk).1 (commit d io zip disk).2 := by
  unfold commitCalls commit
  split
  · exact traces_commitUsdz ‹_› (hinside ‹_›)
  · exact traces_commitFlat

/-! ### The original after a crash -/

theorem Call.Spares.machine {c : Call} (h : c.Spares d) :
    machine.Spares (fun disk : Disk => disk.files (normal d.dst)) c where
  run disk := by
    cases c with
    | touch | createDirectories => rfl
    | write => exact Disk.write_files_of_ne h
    | remove => exact Disk.remove_files_of_ne h
    | removeAll => exact Disk.removeAll_files h
    | rename =>
      obtain ⟨rfl, -⟩ := h
      rfl
  torn disk disk' ht := by
    cases ht with
    | write part => exact if_neg (Ne.symm h)
    | removeAll hfiles => exact hfiles _ h
    | createDirectories n => rfl

/-- If the server dies during a commit, the original is the old file, or it is what a commit that goes through leaves
there. -/
theorem crash_old_or_new (hinside : hasExtension d.file ".usdz" = true →
    ∀ e ∈ reached zip, Inside d.tmpDir (d.outFile e.name)) (h : machine.Crash (commitCalls d io zip disk) disk disk') :
    disk'.files (normal d.dst) = disk.files (normal d.dst) ∨
      (commit d io zip disk).1 = .ok () ∧
        disk'.files (normal d.dst) = (commit d io zip disk).2.files (normal d.dst) := by
  obtain ⟨hexec, hs | ⟨hok, before, src, after, hcalls, hbefore, hafter⟩⟩ := traces_commit io disk hinside
  · exact .inl (h.spared (f := fun disk : Disk => disk.files (normal d.dst)) fun c hc => (hs c hc).machine)
  · rw [hcalls] at h hexec
    have hcrash := h.old_or_new (f := fun disk : Disk => disk.files (normal d.dst))
      (fun c hc => (hbefore c hc).machine) (fun _ _ ht => nomatch ht) fun c hc => (hafter c hc).machine
    rw [hexec] at hcrash
    exact hcrash.imp_right fun hnew => ⟨hok, hnew⟩

/-- The server dies while it writes the first entry of a package to the temporary directory. -/
theorem crash_while_extracting : ∃ disk' : Disk,
    machine.Crash (commitCalls (packageTarget texturedScene) {} texturedScene (packageTarget texturedScene).disk)
      (packageTarget texturedScene).disk disk' ∧
    (disk'.files ["uploads", "scene.usdz"] = some (original texturedScene) ∨
      (commit (packageTarget texturedScene) {} texturedScene (packageTarget texturedScene).disk).1 = .ok () ∧
      disk'.files ["uploads", "scene.usdz"] =
        (commit (packageTarget texturedScene) {} texturedScene (packageTarget texturedScene).disk).2.files
          ["uploads", "scene.usdz"]) := by
  have hcrash : machine.Crash (commitCalls (packageTarget texturedScene) {} texturedScene
      (packageTarget texturedScene).disk) (packageTarget texturedScene).disk _ :=
    .next (.next (.next (.torn (.write (some (.bytes "#"))))))
  exact ⟨_, hcrash, crash_old_or_new (fun _ => by decide) hcrash⟩

end StageCommitter
end IdtxCore
