import IdtxCore.StageCommitterPaths

/-!
# The files of a commit

The temporary files have names of their own beside the original, and every step of the repackaging fails with the first
call that fails.
-/

namespace IdtxCore
open LexicalPath

/-! ### Files that a call leaves alone -/

namespace Disk
variable {disk : Disk} {p src dst : Path} {content : Content} {ok : Bool} {made : Option Nat} {x : Path}

@[simp] theorem touch_files : (disk.touch p).files = disk.files := rfl

@[simp] theorem createDirectories_files : (disk.createDirectories p made).files = disk.files := rfl

theorem write_files_of_ne (h : normal p ≠ x) : (disk.write p content ok).files x = disk.files x := by
  cases ok with
  | false => rfl
  | true => exact if_neg (Ne.symm h)

@[simp] theorem write_files_same : (disk.write p content true).files (normal p) = some content := if_pos rfl

theorem remove_files_of_ne (h : normal p ≠ x) : (disk.remove p ok).files x = disk.files x := by
  cases ok with
  | false => rfl
  | true => exact if_neg (Ne.symm h)

@[simp] theorem remove_files_same : (disk.remove p true).files (normal p) = none := if_pos rfl

theorem removeAll_files (h : ¬ normal p <+: x) : (disk.removeAll p ok).files x = disk.files x := by
  cases ok with
  | false => rfl
  | true => exact if_neg h

theorem rename_files_of_ne (hsrc : normal src ≠ x) (hdst : normal dst ≠ x) :
    (disk.rename src dst ok).files x = disk.files x := by
  cases ok with
  | false => rfl
  | true => exact (if_neg (Ne.symm hdst)).trans (if_neg (Ne.symm hsrc))

@[simp] theorem rename_files_dst : (disk.rename src dst true).files (normal dst) = disk.files (normal src) :=
  if_pos rfl

end Disk

namespace StageCommitter
variable {d : CommitTarget} {io : CommitIo} {zip : List ZipEntry} {disk : Disk}

/-! ### The names of the temporary files -/

theorem normal_dst : normal d.dst = normal d.dir ++ [d.file] := normal_concat d.file_plain

theorem normal_tmpDir :
    normal d.tmpDir = normal d.dir ++ ["." ++ stem d.file ++ "_idtx_commit_tmp"] :=
  normal_concat (plain_append (.inr (by decide)))

theorem normal_tmpPkg :
    normal d.tmpPkg = normal d.dir ++ ["." ++ stem d.file ++ "_idtx_commit.usdz"] :=
  normal_concat (plain_append (.inr (by decide)))

theorem normal_tmp :
    normal d.tmp = normal d.dir ++ ["." ++ stem d.file ++ "_idtx_commit" ++ extension d.file] := by
  refine normal_concat (plain_append (.inl ?_))
  rw [String.length_append]
  exact Nat.lt_of_lt_of_le (by decide) (Nat.le_add_left "_idtx_commit".length _)

theorem length_stem_add_extension (file : String) :
    (stem file).length + (extension file).length = file.length := by
  simp only [stem, extension, String.length_ofList, List.length_take, List.length_drop, String.length_toList]
  omega

theorem tmp_ne_dst : normal d.tmp ≠ normal d.dst := by
  rw [normal_tmp, normal_dst]
  intro heq
  have hlength := congrArg String.length (List.singleton_inj.1 (List.append_cancel_left heq))
  have hsum := length_stem_add_extension d.file
  simp only [String.length_append] at hlength
  have h1 : ".".length = 1 := by decide
  have h2 : "_idtx_commit".length = 12 := by decide
  omega

theorem extensionStart_usdz {l : List Char} (h : l ≠ []) :
    extensionStart (l ++ ".usdz".toList) = l.length := by
  have hpos : 0 < l.length := List.length_pos_of_ne_nil h
  have htail : (l ++ ".usdz".toList).reverse.takeWhile (· ≠ '.') = ['z', 'd', 's', 'u'] := by
    simp [List.reverse_append]
  have hlength : (l ++ ".usdz".toList).length = l.length + 5 := by simp
  have hdots : l ++ ".usdz".toList ≠ ['.', '.'] := by
    intro heq
    have := congrArg List.length heq
    simp at this
  unfold extensionStart
  rw [htail, hlength, if_neg]
  · simp
  · rintro (h4 | h5 | heq)
    · simp only [List.length_cons, List.length_nil] at h4; omega
    · simp only [List.length_cons, List.length_nil] at h5; omega
    · exact hdots heq

theorem tmpPkg_ne_dst : normal d.tmpPkg ≠ normal d.dst := by
  rw [normal_tmpPkg, normal_dst]
  intro heq
  have hfile : "." ++ stem d.file ++ "_idtx_commit.usdz" = d.file :=
    List.singleton_inj.1 (List.append_cancel_left heq)
  have hlist : d.file.toList = ("." ++ stem d.file ++ "_idtx_commit").toList ++ ".usdz".toList := by
    rw [← String.toList_append, String.append_assoc]
    exact congrArg String.toList hfile.symm
  have hstart : extensionStart d.file.toList = ("." ++ stem d.file ++ "_idtx_commit").length := by
    rw [hlist, extensionStart_usdz]
    · rfl
    · simp
  have hstem : (stem d.file).length ≤ d.file.length := by
    have := length_stem_add_extension d.file
    omega
  -- the stem would be longer than itself
  have hself : (stem d.file).length = min (extensionStart d.file.toList) d.file.length := by
    simp only [stem, String.length_ofList, List.length_take, String.length_toList]
  have hlength := congrArg String.length hfile
  rw [hstart] at hself
  simp only [String.length_append] at hself hlength
  have h1 : ".".length = 1 := by decide
  have h2 : "_idtx_commit".length = 12 := by decide
  have h3 : "_idtx_commit.usdz".length = 17 := by decide
  omega

theorem not_inside_tmpDir_dst (h : hasExtension d.file ".usdz" = true) :
    ¬ normal d.tmpDir <+: normal d.dst := by
  rw [normal_tmpDir, normal_dst, List.prefix_append_right_inj]
  intro hpre
  have hfile : "." ++ stem d.file ++ "_idtx_commit_tmp" = d.file := by simpa using hpre
  unfold hasExtension at h
  rw [List.isSuffixOf_iff_suffix, ← hfile, String.toList_append, List.map_append] at h
  -- both are at the end of the name, and neither ends like the other
  have hsuffix := List.suffix_of_suffix_length_le h (List.suffix_append _ _) (by decide)
  exact absurd hsuffix (by decide)

/-! ### The calls that have to succeed -/

theorem replaceOriginal_ok_iff {src : Path} :
    (replaceOriginal d io src disk).1 = .ok () ↔ io.rename = none := by
  unfold replaceOriginal
  cases io.rename with
  | none => simp
  | some e => simp

/-! ### A package, step by step -/

theorem extractEntry_ok_iff {i : Nat} {e : ZipEntry} : (extractEntry d io i e disk).1 = .ok () ↔
    e.compressed = false ∧ e.unreadable = false ∧ io.openEntry i = true := by
  unfold extractEntry
  cases e.compressed <;> cases e.unreadable <;> cases io.openEntry i <;> simp

theorem forall_getElem?_cons {α : Type} {P : Nat → α → Prop} {a : α} {l : List α} :
    (∀ j b, (a :: l)[j]? = some b → P j b) ↔ P 0 a ∧ ∀ j b, l[j]? = some b → P (j + 1) b := by
  constructor
  · intro h
    exact ⟨h 0 a rfl, fun j b hb => h (j + 1) b hb⟩
  · rintro ⟨h0, hrest⟩ (_ | j) b hb
    · rw [← Option.some.inj hb]
      exact h0
    · exact hrest j b hb

theorem extract_ok_iff {i : Nat} : (extract d io i zip disk).1 = .ok () ↔
    ∀ j e, zip[j]? = some e → e.compressed = false ∧ e.unreadable = false ∧ io.openEntry (i + j) = true := by
  induction zip generalizing i disk with
  | nil => simp [extract]
  | cons e rest ih =>
    rw [forall_getElem?_cons, Nat.add_zero, ← @extractEntry_ok_iff d io disk i e]
    unfold extract
    rcases hentry : extractEntry d io i e disk with ⟨err | _, disk'⟩
    · simp
    · simp only [ih, true_and, Nat.add_right_comm i 1, Nat.add_assoc]

theorem extract_files {i : Nat} {disk' : Disk} (h : extract d io i zip disk = (.ok (), disk')) :
    (∀ x, (disk.files x).isSome = true → (disk'.files x).isSome = true) ∧
      ∀ e ∈ zip, (disk'.files (normal (d.outFile e.name))).isSome = true := by
  induction zip generalizing i disk with
  | nil =>
    cases h
    exact ⟨fun _ hx => hx, by simp⟩
  | cons e rest ih =>
    unfold extract at h
    have hok : (extractEntry d io i e disk).1 = .ok () := by
      rcases hentry : extractEntry d io i e disk with ⟨err | _, disk''⟩
      · rw [hentry] at h
        cases h
      · rfl
    obtain ⟨hc, hr, hopen⟩ := extractEntry_ok_iff.1 hok
    have hentry : extractEntry d io i e disk = (.ok (),
        (disk.createDirectories (d.outFile e.name).dropLast (io.entryDirs i)).write (d.outFile e.name)
          (e.contentAfter (io.writeEntry i)) true) := by
      simp only [extractEntry, hc, hr, hopen, Bool.false_eq_true, if_false, if_true]
    rw [hentry] at h
    obtain ⟨hmono, hrest⟩ := ih h
    refine ⟨?_, ?_⟩
    · intro x hx
      apply hmono
      by_cases hp : normal (d.outFile e.name) = x
      · subst hp
        simp
      · rw [Disk.write_files_of_ne hp]
        exact hx
    · intro e' he'
      rcases List.mem_cons.1 he' with rfl | he'
      · exact hmono _ (by simp)
      · exact hrest e' he'

/-- The package gets what is at the entries' paths, if every file is there and can be added. -/
theorem addFiles_eq_ok_iff (io : CommitIo) (i : Nat) {entries : List (String × Content)} :
    addFiles d io disk i zip = .ok entries ↔
      (∀ j e, zip[j]? = some e → io.addFile (i + j) = true ∧
        (disk.files (normal (d.outFile e.name))).isSome = true) ∧
      entries = zip.map fun e => (e.name, (disk.files (normal (d.outFile e.name))).getD .merged) := by
  induction zip generalizing i entries with
  | nil =>
    rw [addFiles, Except.ok.injEq, List.map_nil]
    exact ⟨fun h => ⟨by simp, h.symm⟩, fun h => h.2.symm⟩
  | cons e rest ih =>
    rw [forall_getElem?_cons, Nat.add_zero, List.map_cons]
    unfold addFiles
    cases hcontent : disk.files (normal (d.outFile e.name)) with
    | none => simp
    | some content =>
      cases io.addFile i with
      | false => simp
      | true =>
        have ih' := fun added => @ih (i + 1) added
        simp only [true_and, Nat.add_right_comm i 1, Nat.add_assoc, Option.isSome_some, Option.getD_some] at ih' ⊢
        cases hrest : addFiles d io disk (i + 1) rest with
        | error err =>
          simp only [bind, Except.bind, reduceCtorEq, false_iff]
          rintro ⟨hall, -⟩
          have hok := (ih' _).2 ⟨hall, rfl⟩
          rw [hrest] at hok
          cases hok
        | ok added =>
          obtain ⟨hall, hadded⟩ := (ih' added).1 hrest
          simp only [bind, Except.bind, pure, Except.pure, Except.ok.injEq]
          rw [hadded]
          exact ⟨fun heq => ⟨hall, heq.symm⟩, fun h => h.2.symm⟩

theorem rezip_ok_iff_addFiles : (rezip d io zip disk).1 = .ok () ↔
    io.createPkg = true ∧
      (∃ entries, addFiles d io ((disk.remove d.tmpPkg io.cleanPkg).touch d.tmpPkg) 0 zip = .ok entries) ∧
      io.savePkg = true ∧ io.rename = none := by
  unfold rezip
  dsimp only
  cases io.createPkg with
  | false => simp
  | true =>
    cases addFiles d io ((disk.remove d.tmpPkg io.cleanPkg).touch d.tmpPkg) 0 zip with
    | error e => simp
    | ok entries =>
      cases io.savePkg with
      | false => simp
      | true => simp [replaceOriginal_ok_iff]

theorem replaceRoot_files (rootName : String) (e : ZipEntry) (ok : Bool)
    (h : (disk.files (normal (d.outFile e.name))).isSome = true) :
    (((disk.remove (d.outFile rootName) ok).write (d.outFile rootName) .merged true).files
      (normal (d.outFile e.name))).isSome = true := by
  by_cases hp : normal (d.outFile rootName) = normal (d.outFile e.name)
  · rw [← hp, Disk.write_files_same]
    rfl
  · rw [Disk.write_files_of_ne hp, Disk.remove_files_of_ne hp]
    exact h

end StageCommitter
end IdtxCore
