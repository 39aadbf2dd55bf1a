import IdtxCore.CommitFiles

/-!
# What is in the package after a commit

A commit of a usdz package goes through the disk: every entry is written to a file named after it, the first one
is replaced by the merged layer, and the files are packed again by name. Whether an entry comes back as it was
depends on what is last written to its path. Entries with one path share a file, and that a write is complete
is not checked. A name can also lead out of the temporary directory, to the original itself.

`writes` lists what the extraction writes, `Succeeds` is when the commit returns true.
-/

namespace IdtxCore
open LexicalPath

namespace StageCommitter

/-- What the extraction writes, in order: the files and their contents. -/
def writes (d : CommitTarget) (io : CommitIo) : Nat → List ZipEntry → List (Path × Content)
  | _, [] => []
  | i, e :: rest =>
    if e.compressed || e.unreadable || !io.openEntry i then []
    else (normal (d.outFile e.name), e.contentAfter (io.writeEntry i)) :: writes d io (i + 1) rest

/-- What the last write to `x` leaves there. -/
def lastAt (x : Path) : List (Path × Content) → Option Content
  | [] => none
  | w :: ws => (lastAt x ws).or (if w.1 = x then some w.2 else none)

@[mk_iff]
structure Succeeds (d : CommitTarget) (io : CommitIo) (zip : List ZipEntry) : Prop where
  flatten : io.flatten = true
  tmpDir : io.tmpDirError = none
  openZip : io.openZip = true
  ne_nil : zip ≠ []
  entries : ∀ i e, zip[i]? = some e → e.compressed = false ∧ e.unreadable = false ∧ io.openEntry i = true
  exportRoot : io.exportRoot = true
  createPkg : io.createPkg = true
  /-- a file in the place of the new package is removed before it can be added -/
  added : ∀ i e, zip[i]? = some e → io.addFile i = true ∧
    (io.cleanPkg = true → normal (d.outFile e.name) ≠ normal d.tmpPkg)
  savePkg : io.savePkg = true
  rename : io.rename = none

/-- The package is opened. -/
def Unpacks (io : CommitIo) : Prop := io.flatten = true ∧ io.tmpDirError = none ∧ io.openZip = true

/-- The merged layer is exported to `x` after the extraction, in the place of the first entry. -/
structure Exported (d : CommitTarget) (io : CommitIo) (zip : List ZipEntry) (x : Path) : Prop where
  entries : ∀ i e, zip[i]? = some e → e.compressed = false ∧ e.unreadable = false ∧ io.openEntry i = true
  exportRoot : io.exportRoot = true
  root : ∃ root ∈ zip.head?, normal (d.outFile root.name) = x

/-- The package as it is. -/
def original (zip : List ZipEntry) : Content := .package (zip.map fun e => (e.name, e.content))

/-- The package with the merged layer. -/
def updated : List ZipEntry → Content
  | [] => .package []
  | root :: rest => .package ((root.name, .merged) :: rest.map fun e => (e.name, e.content))

/-- After a commit that returned true the file is the package with the merged layer, after one that returned
false it is the package as it was. -/
def Preserves (d : CommitTarget) (zip : List ZipEntry) (result : Except String Unit × Disk) : Prop :=
  match result.1 with
  | .ok _ => result.2.files (normal d.dst) = some (updated zip)
  | .error _ => result.2.files (normal d.dst) = some (original zip)

/-! ### The files of the extraction -/

section Extract
variable {d : CommitTarget} {io : CommitIo} {zip : List ZipEntry} {disk : Disk} {x : Path}

theorem lastAt_eq_none_iff {ws : List (Path × Content)} : lastAt x ws = none ↔ ∀ w ∈ ws, w.1 ≠ x := by
  induction ws with
  | nil => simp [lastAt]
  | cons w ws ih => simp [lastAt, ih, and_comm]

theorem mem_of_lastAt {ws : List (Path × Content)} {content : Content} (h : lastAt x ws = some content) :
    (x, content) ∈ ws := by
  induction ws with
  | nil => cases h
  | cons w ws ih =>
    rw [lastAt, Option.or_eq_some_iff] at h
    rcases h with h | ⟨-, h⟩
    · exact List.mem_cons_of_mem _ (ih h)
    · split_ifs at h with hw
      cases h
      rw [← hw]
      exact List.mem_cons_self

theorem extract_files_eq (i : Nat) :
    (extract d io i zip disk).2.files x = (lastAt x (writes d io i zip)).or (disk.files x) := by
  induction zip generalizing i disk with
  | nil => rfl
  | cons e rest ih =>
    unfold extract writes extractEntry
    cases e.compressed with
    | true => rfl
    | false =>
      cases e.unreadable with
      | true => rfl
      | false =>
        cases io.openEntry i with
        | false => rfl
        | true =>
          simp only [Bool.false_eq_true, if_false, if_true, Bool.or_false, Bool.not_true, ih, lastAt,
            Option.or_assoc]
          congr 1
          by_cases hx : normal (d.outFile e.name) = x
          · subst hx
            simp
          · rw [Disk.write_files_of_ne hx, if_neg hx]
            rfl

theorem bytes_of_mem_writes {i : Nat} {w : Path × Content} (h : w ∈ writes d io i zip) :
    ∃ data, w.2 = .bytes data := by
  induction zip generalizing i with
  | nil => cases h
  | cons e rest ih =>
    unfold writes at h
    split_ifs at h
    · cases h
    · rcases List.mem_cons.1 h with rfl | h
      · cases io.writeEntry i <;> exact ⟨_, rfl⟩
      · exact ih h

end Extract

/-! ### When a commit returns true -/

section Result
variable {d : CommitTarget} {io : CommitIo} {zip : List ZipEntry} {disk : Disk} {x : Path}

theorem isSome_remove_files {p q : Path} {ok : Bool} (h : (disk.files (normal p)).isSome = true) :
    ((disk.remove q ok).files (normal p)).isSome = true ↔ (ok = true → normal p ≠ normal q) := by
  by_cases hp : normal q = normal p
  · cases ok with
    | false => simpa [Disk.remove] using h
    | true => simp [← hp]
  · rw [Disk.remove_files_of_ne hp]
    exact ⟨fun _ _ => Ne.symm hp, fun _ => h⟩

theorem rezip_ok_iff_added
    (hfiles : ∀ e ∈ zip, (disk.files (normal (d.outFile e.name))).isSome = true) :
    (rezip d io zip disk).1 = .ok () ↔ io.createPkg = true ∧
      (∀ i e, zip[i]? = some e → io.addFile i = true ∧
        (io.cleanPkg = true → normal (d.outFile e.name) ≠ normal d.tmpPkg)) ∧
      io.savePkg = true ∧ io.rename = none := by
  have hadded : (∃ entries, addFiles d io ((disk.remove d.tmpPkg io.cleanPkg).touch d.tmpPkg) 0 zip =
      .ok entries) ↔ ∀ i e, zip[i]? = some e → io.addFile i = true ∧
        (io.cleanPkg = true → normal (d.outFile e.name) ≠ normal d.tmpPkg) := by
    simp only [addFiles_eq_ok_iff, exists_and_left, exists_eq, and_true, Nat.zero_add, Disk.touch_files]
    refine forall_congr' fun i => forall_congr' fun e => forall_congr' fun he => and_congr_right' ?_
    exact isSome_remove_files (hfiles e (List.mem_of_getElem? he))
  rw [rezip_ok_iff_addFiles, hadded]

theorem commitUsdz_ok_iff_succeeds : (commitUsdz d io zip disk).1 = .ok () ↔ Succeeds d io zip := by
  rw [succeeds_iff]
  unfold commitUsdz repackage
  cases io.flatten with
  | false => simp
  | true =>
    cases io.tmpDirError with
    | some e => simp
    | none =>
      cases io.openZip with
      | false => simp
      | true =>
        dsimp only
        set start := (disk.removeAll d.tmpDir io.cleanTmp).createDirectories d.tmpDir io.tmpDirMade
        have hok := @extract_ok_iff d io zip start 0
        simp only [Nat.zero_add] at hok
        rcases hextract : extract d io 0 zip start with ⟨err | _, disk'⟩
        · rw [hextract] at hok
          have hnot := mt hok.2 (by simp)
          simp [hnot]
        · rw [hextract] at hok
          have hall := hok.1 rfl
          obtain ⟨-, hfiles⟩ := extract_files hextract
          cases zip with
          | nil => simp
          | cons root rest =>
            dsimp only [replaceRoot]
            cases io.exportRoot with
            | false => simp
            | true =>
              have hrezip := @rezip_ok_iff_added d io (root :: rest) _
                fun e he => replaceRoot_files root.name e io.cleanRoot (hfiles e he)
              simp only [Bool.true_eq_false, if_false, hrezip]
              exact ⟨fun h => ⟨trivial, trivial, trivial, List.cons_ne_nil _ _, hall, trivial, h⟩,
                fun h => h.2.2.2.2.2.2⟩

/-! ### What is in the file -/

theorem rezip_files {entries : List (String × Content)} (h : (rezip d io zip disk).1 = .ok ())
    (hadd : addFiles d io ((disk.remove d.tmpPkg io.cleanPkg).touch d.tmpPkg) 0 zip = .ok entries) :
    (rezip d io zip disk).2.files (normal d.dst) = some (.package (packed io entries)) := by
  obtain ⟨hcreate, -, hsave, hrename⟩ := rezip_ok_iff_addFiles.1 h
  unfold rezip replaceOriginal
  simp only [hcreate, hadd, hsave, hrename, Bool.true_eq_false, if_false]
  rw [Disk.rename_files_dst, Disk.write_files_same]

/-- Only the new package is written, and the original if it is replaced. -/
theorem rezip_files_of_ne (hpkg : normal d.tmpPkg ≠ x) (hdst : normal d.dst ≠ x ∨ (rezip d io zip disk).1 ≠ .ok ()) :
    (rezip d io zip disk).2.files x = disk.files x := by
  have hremove : ∀ disk : Disk, ∀ ok, (disk.remove d.tmpPkg ok).files x = disk.files x :=
    fun disk ok => Disk.remove_files_of_ne hpkg
  have hwrite : ∀ disk : Disk, ∀ content ok, (disk.write d.tmpPkg content ok).files x = disk.files x :=
    fun disk content ok => Disk.write_files_of_ne hpkg
  replace hdst := hdst.imp_right fun h => mt rezip_ok_iff_addFiles.2 h
  unfold rezip replaceOriginal
  dsimp only
  cases hcreate : io.createPkg with
  | false => simp [hremove]
  | true =>
    cases hadd : addFiles d io ((disk.remove d.tmpPkg io.cleanPkg).touch d.tmpPkg) 0 zip with
    | error e => simp [hremove]
    | ok entries =>
      cases hsave : io.savePkg with
      | false => simp [hremove, hwrite]
      | true =>
        cases hrename : io.rename with
        | none =>
          have hne : normal d.dst ≠ x := hdst.resolve_right fun h => h ⟨hcreate, ⟨entries, hadd⟩, hsave, hrename⟩
          simp [hremove, hwrite, Disk.rename_files_of_ne hpkg hne]
        | some e => simp [hremove, hwrite, Disk.rename]

/-- The content that is added for an entry behind the first. -/
def repacked (d : CommitTarget) (io : CommitIo) (root : ZipEntry) (rest : List ZipEntry) (e : ZipEntry) :
    Content :=
  if normal (d.outFile e.name) = normal (d.outFile root.name) then .merged
  else (lastAt (normal (d.outFile e.name)) (writes d io 0 (root :: rest))).getD .merged

theorem isSome_lastAt_writes {i : Nat} (h : ∀ j e, zip[j]? = some e →
    e.compressed = false ∧ e.unreadable = false ∧ io.openEntry (i + j) = true) :
    ∀ e ∈ zip, (lastAt (normal (d.outFile e.name)) (writes d io i zip)).isSome = true := by
  induction zip generalizing i with
  | nil => simp
  | cons e rest ih =>
    rw [forall_getElem?_cons, Nat.add_zero] at h
    obtain ⟨⟨hc, hr, hopen⟩, hrest⟩ := h
    have hrest' := ih (i := i + 1) fun j e' he' => by
      rw [Nat.add_right_comm, Nat.add_assoc]
      exact hrest j e' he'
    intro e' he'
    rw [writes, if_neg (by simp [hc, hr, hopen]), lastAt]
    rcases List.mem_cons.1 he' with rfl | he'
    · simp
    · simp [Option.isSome_or, hrest' e' he']

/-- The files that are packed: the merged layer, and otherwise what was last extracted. -/
theorem files_replaceRoot {root : ZipEntry} {rest : List ZipEntry} {e : ZipEntry} {ok : Bool}
    (hroot : e ∈ root :: rest) (hall : ∀ j e, (root :: rest)[j]? = some e →
      e.compressed = false ∧ e.unreadable = false ∧ io.openEntry j = true) :
    ((((extract d io 0 (root :: rest) disk).2.remove (d.outFile root.name) ok).write (d.outFile root.name) .merged
      true).files (normal (d.outFile e.name))) = some (repacked d io root rest e) := by
  unfold repacked
  split_ifs with hp
  · rw [hp, Disk.write_files_same]
  · rw [Disk.write_files_of_ne (Ne.symm hp), Disk.remove_files_of_ne (Ne.symm hp), extract_files_eq]
    obtain ⟨content, hcontent⟩ := Option.isSome_iff_exists.1
      (isSome_lastAt_writes (d := d) (i := 0) (by simpa using hall) e hroot)
    simp [hcontent]

theorem commitUsdz_files {root : ZipEntry} {rest : List ZipEntry} (hpackage : hasExtension d.file ".usdz" = true)
    (h : Succeeds d io (root :: rest)) :
    (commitUsdz d io (root :: rest) disk).2.files (normal d.dst) =
      some (.package (packed io ((root.name, .merged) ::
        rest.map fun e => (e.name, repacked d io root rest e)))) := by
  unfold commitUsdz repackage
  simp only [h.flatten, h.tmpDir, h.openZip, Bool.true_eq_false, if_false]
  rw [Disk.removeAll_files (not_inside_tmpDir_dst hpackage)]
  set start := (disk.removeAll d.tmpDir io.cleanTmp).createDirectories d.tmpDir io.tmpDirMade
  have hok : (extract d io 0 (root :: rest) start).1 = .ok () := by
    rw [extract_ok_iff]
    simpa using h.entries
  have hfiles := fun e he => @files_replaceRoot d io start root rest e io.cleanRoot he h.entries
  rcases hextract : extract d io 0 (root :: rest) start with ⟨err | _, disk'⟩
  · rw [hextract] at hok
    cases hok
  · rw [hextract] at hfiles
    simp only [replaceRoot, h.exportRoot, Bool.true_eq_false, if_false]
    set ready := (disk'.remove (d.outFile root.name) io.cleanRoot).write (d.outFile root.name) .merged true
    have hrezip : (rezip d io (root :: rest) ready).1 = .ok () := by
      rw [rezip_ok_iff_added fun e he => by rw [hfiles e he]; rfl]
      exact ⟨h.createPkg, h.added, h.savePkg, h.rename⟩
    have hkept : ∀ e ∈ root :: rest,
        ((ready.remove d.tmpPkg io.cleanPkg).touch d.tmpPkg).files (normal (d.outFile e.name)) =
          some (repacked d io root rest e) := by
      intro e he
      obtain ⟨i, hi⟩ := List.getElem?_of_mem he
      rw [Disk.touch_files, ← hfiles e he]
      cases hclean : io.cleanPkg with
      | false => rfl
      | true => exact Disk.remove_files_of_ne (Ne.symm ((h.added i e hi).2 hclean))
    have hadd : addFiles d io ((ready.remove d.tmpPkg io.cleanPkg).touch d.tmpPkg) 0 (root :: rest) =
        .ok ((root :: rest).map fun e => (e.name, repacked d io root rest e)) := by
      rw [addFiles_eq_ok_iff]
      refine ⟨fun i e he => ⟨?_, ?_⟩, List.map_congr_left fun e he => ?_⟩
      · rw [Nat.zero_add]
        exact (h.added i e he).1
      · rw [hkept e (List.mem_of_getElem? he)]
        rfl
      · rw [hkept e he]
        rfl
    rw [rezip_files hrezip hadd, List.map_cons, repacked, if_pos rfl]

/-! ### When the entries come back -/

theorem nodup_keepFirst (entries : List (String × Content)) : ((keepFirst entries).map (·.1)).Nodup := by
  induction entries with
  | nil => exact List.nodup_nil
  | cons entry entries ih =>
    rw [keepFirst, List.map_cons, List.nodup_cons]
    refine ⟨?_, ih.sublist (List.filter_sublist.map _)⟩
    simp

theorem keepFirst_of_nodup {entries : List (String × Content)} (h : (entries.map (·.1)).Nodup) :
    keepFirst entries = entries := by
  induction entries with
  | nil => rfl
  | cons entry entries ih =>
    rw [List.map_cons, List.nodup_cons] at h
    rw [keepFirst, ih h.2, List.filter_eq_self.2]
    intro other hother
    have hne : other.1 ≠ entry.1 := fun heq => h.1 (heq ▸ List.mem_map_of_mem hother)
    simpa using hne

/-- With one name for two entries the writer may keep only the first. -/
theorem packed_eq_iff {added expected : List (String × Content)} (hnames : added.map (·.1) = expected.map (·.1)) :
    packed io added = expected ↔ (io.addTwice = true ∨ (expected.map (·.1)).Nodup) ∧ added = expected := by
  unfold packed
  cases io.addTwice with
  | true => simp
  | false =>
    simp only [Bool.false_eq_true, if_false, false_or]
    constructor
    · intro h
      have hnodup : (expected.map (·.1)).Nodup := h ▸ nodup_keepFirst added
      rw [keepFirst_of_nodup (hnames ▸ hnodup)] at h
      exact ⟨hnodup, h⟩
    · rintro ⟨hnodup, rfl⟩
      exact keepFirst_of_nodup hnodup

theorem repacked_eq_content_iff {root : ZipEntry} {rest : List ZipEntry} {e : ZipEntry} :
    repacked d io root rest e = e.content ↔
      normal (d.outFile e.name) ≠ normal (d.outFile root.name) ∧
        lastAt (normal (d.outFile e.name)) (writes d io 0 (root :: rest)) = some e.content := by
  unfold repacked
  split_ifs with hp
  · exact ⟨nofun, fun h => absurd hp h.1⟩
  · cases lastAt (normal (d.outFile e.name)) (writes d io 0 (root :: rest)) with
    | none => exact ⟨nofun, nofun⟩
    | some content => simp [hp]

/-! ### Other files -/

section Holds
variable {P : Content → Prop}

/-- The extraction writes bytes only, so what is no bytes was there before. -/
theorem extract_holds_iff (hbytes : ∀ data, ¬P (.bytes data)) {i : Nat} :
    (∃ c ∈ (extract d io i zip disk).2.files x, P c) ↔
      (∃ c ∈ disk.files x, P c) ∧ ∀ w ∈ writes d io i zip, w.1 ≠ x := by
  rw [extract_files_eq, ← lastAt_eq_none_iff]
  cases hlast : lastAt x (writes d io i zip) with
  | none => simp
  | some content =>
    obtain ⟨data, rfl⟩ := bytes_of_mem_writes (mem_of_lastAt hlast)
    simp [hbytes]

/-- The merged layer takes the place of the first entry, which was bytes. -/
theorem write_merged_holds_iff {p : Path} {ok : Bool} (ok' : Bool)
    (hroot : normal p = x → ¬∃ c ∈ disk.files x, P c) :
    (∃ c ∈ ((disk.remove p ok).write p .merged ok').files x, P c) ↔
      (∃ c ∈ disk.files x, P c) ∨ ok' = true ∧ normal p = x ∧ P .merged := by
  by_cases hp : normal p = x
  · have hnot := hroot hp
    rw [iff_false_intro hnot, false_or]
    subst hp
    cases ok' with
    | true => simp
    | false =>
      cases ok with
      | true => simp [Disk.write]
      | false => exact iff_of_false hnot (by simp)
  · rw [Disk.write_files_of_ne hp, Disk.remove_files_of_ne hp]
    simp [hp]

/-- A file beside the new package, or the original if it is not replaced, after the repackaging. -/
theorem repackage_holds_iff (hbytes : ∀ data, ¬P (.bytes data)) (hpkg : normal d.tmpPkg ≠ x)
    (hdst : normal d.dst ≠ x ∨ (repackage d io zip disk).1 ≠ .ok ()) :
    (∃ c ∈ (repackage d io zip disk).2.files x, P c) ↔
      ((∃ c ∈ disk.files x, P c) ∧ (io.openZip = true → ∀ w ∈ writes d io 0 zip, w.1 ≠ x)) ∨
        io.openZip = true ∧ Exported d io zip x ∧ P .merged := by
  have hextracted := @extract_holds_iff d io zip disk x P hbytes 0
  have hok := @extract_ok_iff d io zip disk 0
  simp only [Nat.zero_add] at hok
  unfold repackage at hdst ⊢
  cases hopen : io.openZip with
  | false => simp
  | true =>
    rw [hopen] at hdst
    simp only [Bool.true_eq_false, if_false, true_implies, true_and] at hdst ⊢
    rw [← hextracted]
    rcases hextract : extract d io 0 zip disk with ⟨err | _, disk'⟩
    · have hnot : ¬Exported d io zip x := fun h => by
        have herr := hok.2 h.entries
        rw [hextract] at herr
        cases herr
      simp [hnot]
    · rw [hextract] at hdst hextracted hok
      have hall := hok.1 rfl
      cases zip with
      | nil =>
        have hnot : ¬Exported d io [] x := fun h => by simpa using h.root
        simp [hnot]
      | cons root rest =>
        have hexported : Exported d io (root :: rest) x ↔
            io.exportRoot = true ∧ normal (d.outFile root.name) = x :=
          ⟨fun h => ⟨h.exportRoot, by simpa using h.root⟩, fun h => ⟨hall, h.1, by simpa using h.2⟩⟩
        have hroot : normal (d.outFile root.name) = x → ¬∃ c ∈ disk'.files x, P c := by
          intro hp hholds
          have hsome := isSome_lastAt_writes (d := d) (i := 0) (by simpa using hall) root List.mem_cons_self
          obtain ⟨content, hcontent⟩ := Option.isSome_iff_exists.1 hsome
          exact (hextracted.1 hholds).2 _ (mem_of_lastAt hcontent) hp
        rw [hexported, and_assoc]
        dsimp only [replaceRoot] at hdst ⊢
        cases hexport : io.exportRoot with
        | false =>
          rw [if_pos rfl]
          exact write_merged_holds_iff false hroot
        | true =>
          rw [hexport] at hdst
          simp only [Bool.true_eq_false, if_false] at hdst ⊢
          rw [rezip_files_of_ne hpkg hdst]
          rw [write_merged_holds_iff true hroot, eq_self_iff_true]

/-- A file outside the temporary ones, or the original if it is not replaced, after the commit. -/
theorem commitUsdz_holds_iff (hbytes : ∀ data, ¬P (.bytes data)) (htmpDir : ¬ normal d.tmpDir <+: x)
    (hpkg : normal d.tmpPkg ≠ x) (hdst : normal d.dst ≠ x ∨ ¬Succeeds d io zip) :
    (∃ c ∈ (commitUsdz d io zip disk).2.files x, P c) ↔
      ((∃ c ∈ disk.files x, P c) ∧ (Unpacks io → ∀ w ∈ writes d io 0 zip, w.1 ≠ x)) ∨
        Unpacks io ∧ Exported d io zip x ∧ P .merged := by
  rw [← @commitUsdz_ok_iff_succeeds d io zip disk] at hdst
  unfold commitUsdz at hdst ⊢
  unfold Unpacks
  cases hflatten : io.flatten with
  | false => simp
  | true =>
    rw [hflatten] at hdst
    have hstart : ((disk.removeAll d.tmpDir io.cleanTmp).createDirectories d.tmpDir io.tmpDirMade).files x =
        disk.files x := Disk.removeAll_files htmpDir
    cases htmp : io.tmpDirError with
    | some e => simp [hstart]
    | none =>
      rw [htmp] at hdst
      simp only [Bool.true_eq_false, if_false, true_and] at hdst ⊢
      rw [Disk.removeAll_files htmpDir, repackage_holds_iff hbytes hpkg hdst, hstart]

end Holds

theorem commitUsdz_files_of_error {entries : List (String × Content)}
    (hpackage : hasExtension d.file ".usdz" = true)
    (hdst : disk.files (normal d.dst) = some (.package entries)) (h : ¬ Succeeds d io zip) :
    (commitUsdz d io zip disk).2.files (normal d.dst) = some (.package entries) ↔
      (io.flatten = true → io.tmpDirError = none → io.openZip = true →
        ∀ w ∈ writes d io 0 zip, w.1 ≠ normal d.dst) := by
  have hholds := @commitUsdz_holds_iff d io zip disk (normal d.dst) (· = .package entries) nofun
    (not_inside_tmpDir_dst hpackage) tmpPkg_ne_dst (.inr h)
  simpa [hdst, Unpacks] using hholds

end Result

/-! ### The condition -/

/-- For a commit that returns true: every name is packed as often as it occurs, no entry is extracted to the
path of the first one, and what is last extracted to the path of an entry is that entry. For one that returns
false: nothing is extracted to the original. -/
def Repacks (d : CommitTarget) (io : CommitIo) (zip : List ZipEntry) : Prop :=
  (Succeeds d io zip → (io.addTwice = true ∨ (zip.map (·.name)).Nodup) ∧
    ∀ root rest, zip = root :: rest → ∀ e ∈ rest,
      normal (d.outFile e.name) ≠ normal (d.outFile root.name) ∧
        lastAt (normal (d.outFile e.name)) (writes d io 0 zip) = some e.content) ∧
  (¬ Succeeds d io zip → io.flatten = true → io.tmpDirError = none → io.openZip = true →
    ∀ w ∈ writes d io 0 zip, w.1 ≠ normal d.dst)

theorem updated_iff {d : CommitTarget} {io : CommitIo} {root : ZipEntry} {rest : List ZipEntry} :
    Content.package (packed io ((root.name, .merged) :: rest.map fun e => (e.name, repacked d io root rest e))) =
        updated (root :: rest) ↔
      (io.addTwice = true ∨ ((root :: rest).map (·.name)).Nodup) ∧
        ∀ e ∈ rest, normal (d.outFile e.name) ≠ normal (d.outFile root.name) ∧
          lastAt (normal (d.outFile e.name)) (writes d io 0 (root :: rest)) = some e.content := by
  have hnames : ∀ content : ZipEntry → Content,
      ((root.name, Content.merged) :: rest.map fun e => (e.name, content e)).map (·.1) =
        (root :: rest).map (·.name) := by
    intro content
    simp [Function.comp_def]
  rw [updated, Content.package.injEq, packed_eq_iff ((hnames _).trans (hnames _).symm), hnames,
    List.cons_eq_cons, List.map_inj_left]
  simp only [true_and, Prod.mk.injEq, repacked_eq_content_iff]

/-- A commit of the package keeps what it should exactly under this condition. -/
theorem preserves_iff_repacks (d : CommitTarget) (io : CommitIo) (zip : List ZipEntry)
    (hpackage : hasExtension d.file ".usdz" = true) (hdst : d.disk.files (normal d.dst) = some (original zip)) :
    Preserves d zip (commitUsdz d io zip d.disk) ↔ Repacks d io zip := by
  unfold Preserves Repacks
  have hok := @commitUsdz_ok_iff_succeeds d io zip d.disk
  by_cases h : Succeeds d io zip
  · cases zip with
    | nil => exact absurd rfl h.ne_nil
    | cons root rest =>
      rw [hok.2 h]
      dsimp only
      rw [commitUsdz_files hpackage h, Option.some_inj, updated_iff]
      constructor
      · rintro ⟨hnames, hrest⟩
        refine ⟨fun _ => ⟨hnames, ?_⟩, fun hnot => absurd h hnot⟩
        rintro root' rest' heq
        obtain ⟨rfl, rfl⟩ := List.cons.inj heq
        exact hrest
      · rintro ⟨hyes, -⟩
        exact ⟨(hyes h).1, (hyes h).2 root rest rfl⟩
  · have herror : ∃ err, (commitUsdz d io zip d.disk).1 = .error err := by
      cases hresult : (commitUsdz d io zip d.disk).1 with
      | error err => exact ⟨err, rfl⟩
      | ok u => exact absurd (hok.1 hresult) h
    obtain ⟨err, herr⟩ := herror
    rw [herr]
    dsimp only [original] at hdst ⊢
    rw [commitUsdz_files_of_error hpackage hdst h]
    exact ⟨fun hno => ⟨fun hyes => absurd hyes h, fun _ => hno⟩, fun hboth => hboth.2 h⟩

/-! ### Packages that do not come back -/

def packageTarget (zip : List ZipEntry) : CommitTarget where
  dir := ["uploads"]
  file := "scene.usdz"
  file_plain := sampleTarget.file_plain
  disk :=
    { dirs := sampleTarget.disk.dirs
      files := fun x => if x = ["uploads", "scene.usdz"] then some (original zip) else none }
  dir_exists := sampleTarget.dir_exists
  fresh := rfl

def texturedScene : List ZipEntry := [⟨"scene.usda", false, 2, some "#u"⟩, ⟨"tex.png", false, 3, some "png"⟩]

/-- Two entries of one name. -/
def doubledScene : List ZipEntry :=
  [⟨"scene.usda", false, 2, some "#u"⟩, ⟨"tex.png", false, 3, some "old"⟩, ⟨"tex.png", false, 3, some "new"⟩]

/-- An entry with the path of the package. -/
def escapingScene : List ZipEntry :=
  [⟨"scene.usda", false, 2, some "#u"⟩, ⟨"../scene.usdz", false, 1, some "x"⟩]

/-- The disk is full after one character of a texture; a name occurs twice; and the merged layer cannot be
exported after an entry has replaced the original. -/
theorem packages_not_preserved :
    ¬ Preserves (packageTarget texturedScene) texturedScene (commitUsdz (packageTarget texturedScene)
      { writeEntry := fun i => if i = 1 then some 1 else none } texturedScene
      (packageTarget texturedScene).disk) ∧
    ¬ Preserves (packageTarget doubledScene) doubledScene
      (commitUsdz (packageTarget doubledScene) {} doubledScene (packageTarget doubledScene).disk) ∧
    ¬ Preserves (packageTarget escapingScene) escapingScene (commitUsdz (packageTarget escapingScene)
      { exportRoot := false } escapingScene (packageTarget escapingScene).disk) := by
  refine ⟨fun h => ?_, fun h => ?_, fun h => ?_⟩
  · have hpacked : some (Content.package [("scene.usda", .merged), ("tex.png", .bytes "p")]) =
        some (updated texturedScene) := h
    simp [updated, texturedScene, ZipEntry.content, ZipEntry.bytes] at hpacked
  · have hpacked : some (Content.package [("scene.usda", .merged), ("tex.png", .bytes "new"),
        ("tex.png", .bytes "new")]) = some (updated doubledScene) := h
    simp [updated, doubledScene, ZipEntry.content, ZipEntry.bytes] at hpacked
  · have hreplaced : some (Content.bytes "x") = some (original escapingScene) := h
    simp [original] at hreplaced

theorem preserves_texturedScene :
    Preserves (packageTarget texturedScene) texturedScene
      (commitUsdz (packageTarget texturedScene) {} texturedScene (packageTarget texturedScene).disk) := by
  refine (preserves_iff_repacks (packageTarget texturedScene) {} texturedScene (by decide) rfl).2 ⟨?_, ?_⟩
  · intro _
    refine ⟨.inl rfl, ?_⟩
    rintro root rest heq e he
    obtain ⟨rfl, rfl⟩ := List.cons.inj heq
    rw [List.mem_singleton.1 he]
    exact ⟨by decide, rfl⟩
  · intro _ _ _ _ w hw
    rcases List.mem_cons.1 hw with rfl | hw
    · decide
    · rw [List.mem_singleton.1 hw]
      decide

end StageCommitter
end IdtxCore
