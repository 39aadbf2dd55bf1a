import IdtxCore.FileServingController

/-!
# Links do not lead out of the uploads

Whatever links there are: what a download answers with lies below the canonical root, and outside of it an upload
changes nothing, as long as no link below the root has the name of a `.part` file. It may make directories outside;
only then it looks at where they are.
-/

namespace IdtxCore
open FsPath FileTree UsdFileLocator FileServing

variable {α : Type} {t t' : FileTree α} {cwd r p d : Place} {root dir full relative raw path : List Char}
  {n : List Char} {ns : List (List Char)} {absolute : Bool} {disk : DiskFaults}

/-! ### Canonical paths -/

theorem elements_place (h : ∀ n ∈ p, n ≠ [] ∧ '/' ∉ n) : elements (ofNames true p) = ['/'] :: p := by
  rcases eq_or_ne p [] with rfl | hne
  · rfl
  · exact elements_ofNames h hne

theorem elements_isPrefix_iff (hcwd : t.node cwd = some .directory) (hr : t.canonical cwd root = some r)
    (hp : t.canonical cwd path = some p) :
    elements (ofNames true r) <+: elements (ofNames true p) ↔ r <+: p := by
  have hnames : ∀ {q path}, t.canonical cwd path = some q → ∀ n ∈ q, n ≠ [] ∧ '/' ∉ n := by
    intro q path hq n hn
    have hname := isName_of_mem (settled_of_canonical hcwd hq).1 hn
    exact ⟨hname.1, hname.2.1⟩
  rw [elements_place (hnames hr), elements_place (hnames hp), List.prefix_cons_inj]

theorem resolve_filesOf (hcwd : t.node cwd = some .directory) {filepath resolved : List Char}
    (h : resolve (filesOf t cwd) root filepath = .ok resolved) :
    ∃ r p, t.canonical cwd root = some r ∧ t.canonical cwd resolved = some p ∧ r <+: p := by
  unfold resolve at h
  cases hvalid : validatePath filepath with
  | error e => simp [hvalid, bind, Except.bind] at h
  | ok decoded =>
    simp only [hvalid, bind, Except.bind] at h
    split at h
    · rename_i canonicalRoot canonicalFile hroot hfile
      split_ifs at h with hinside hexists husd
      obtain rfl := Except.ok.inj h
      obtain ⟨r, hr, rfl⟩ := Option.map_eq_some_iff.1 hroot
      obtain ⟨p, hp, rfl⟩ := Option.map_eq_some_iff.1 hfile
      exact ⟨r, p, hr, hp, (elements_isPrefix_iff hcwd hr hp).1 hinside⟩
    · cases h

/-! ### Directories -/

theorem ensureDirectoryInsideRoot_grows (t : FileTree α) (disk : DiskFaults) (cwd : Place) (root dir : List Char) :
    Grows t (ensureDirectoryInsideRoot t disk cwd root dir).1 := by
  have hgrows := createDirectories_grows t disk.refused cwd dir
  unfold ensureDirectoryInsideRoot
  split
  · rename_i hmade
    rw [hmade] at hgrows
    exact hgrows
  · rename_i hmade
    rw [hmade] at hgrows
    split
    · split_ifs <;> exact hgrows
    · exact hgrows

/-- A directory that is accepted is there, and below the canonical root. -/
theorem ensureDirectoryInsideRoot_ok (hcwd : t.node cwd = some .directory) (hcomponents : components dir = names dir)
    (h : ensureDirectoryInsideRoot t disk cwd root dir = (t', .ok ())) :
    ∃ r d, t'.canonical cwd root = some r ∧ r <+: d ∧ t'.node d = some .directory ∧
      ∃ k ≤ maxLinks, t'.Walks k (start cwd dir) (names dir) d := by
  have hgrows := createDirectories_grows t disk.refused cwd dir
  unfold ensureDirectoryInsideRoot at h
  split at h
  · cases h
  · rename_i t₁ hmade
    rw [hmade] at hgrows
    obtain ⟨hne, k, hk, q, hwalks, hq⟩ := createDirectories_ok hcwd hmade
    split at h
    · rename_i canonicalRoot canonicalDir hroot hdir
      split_ifs at h with hinside
      · obtain rfl := (Prod.mk.inj h).1
        obtain ⟨r, hr, rfl⟩ := Option.map_eq_some_iff.1 hroot
        obtain ⟨d, hd, rfl⟩ := Option.map_eq_some_iff.1 hdir
        -- the directory that was made last is the one that the path leads to
        obtain rfl : d = q := by
          obtain ⟨_, _, hwalks'⟩ := (canonical_eq_some hne).1 hd
          rw [hcomponents] at hwalks'
          exact hwalks'.unique hwalks
        exact ⟨r, d, hr, (elements_isPrefix_iff (hgrows.node_eq hcwd) hr hd).1 hinside, hq, k, hk, hwalks⟩
      · cases h
    · cases h

/-! ### The `.part` file and its rename -/

namespace FileServingController

theorem leadsInto_ofNames {k : Nat} (hns : ∀ m ∈ ns, m ≠ [] ∧ '/' ∉ m) (hn : IsName n)
    (hd : t.node d = some .directory) (hk : k ≤ maxLinks)
    (hwalks : t.Walks k (start cwd (ofNames absolute ns)) ns d) :
    t.LeadsInto cwd (ofNames absolute (ns ++ [n])) d n := by
  have hall : ∀ m ∈ ns ++ [n], m ≠ [] ∧ '/' ∉ m := by
    intro m hm
    rcases List.mem_append.1 hm with hm | hm
    · exact hns m hm
    · exact List.mem_singleton.1 hm ▸ ⟨hn.1, hn.2.1⟩
  have hstart : start cwd (ofNames absolute (ns ++ [n])) = start cwd (ofNames absolute ns) := by
    rw [start_ofNames hall, start_ofNames hns]
  exact ⟨hn, hd, ns, components_ofNames hall, k, hk, hstart ▸ hwalks⟩

theorem ofNames_append_part (absolute : Bool) (ns : List (List Char)) (n : List Char) :
    ofNames absolute (ns ++ [n]) ++ part = ofNames absolute (ns ++ [n ++ part]) := by
  rcases eq_or_ne ns [] with rfl | hns
  · simp [ofNames]
  · rw [ofNames_concat absolute hns, ofNames_concat absolute hns, List.append_assoc, List.cons_append]

theorem isName_part (hn : IsName n) : IsName (n ++ part) := by
  have hlength : (n ++ part).length = n.length + 5 := by simp [part]
  refine ⟨?_, ?_, ?_, ?_⟩
  · intro heq
    simp [heq] at hlength
  · rw [List.mem_append, not_or]
    exact ⟨hn.2.1, by decide⟩
  · intro heq
    simp [heq, dot] at hlength
  · intro heq
    simp [heq, dotdot] at hlength

theorem append_part_ne (d : Place) (n : List Char) : d ++ [n ++ part] ≠ d ++ [n] := by
  intro heq
  have hlength := congrArg List.length (List.singleton_inj.1 (List.append_cancel_left heq))
  simp [part] at hlength

/-- What `finalise` may leave: the file in its place, or nothing new but a `.part` file. -/
inductive Finalised (disk : DiskFaults) (t : FileTree Bytes) (d : Place) (n : List Char) (body : Bytes) :
    FileTree Bytes × Except String Unit → Prop where
  | done {t' : FileTree Bytes} :
      t.isDir (d ++ [n]) = false → t.isDir (d ++ [n ++ part]) = false → disk.writeFails = none →
      (∀ p, t'.node p = if p = d ++ [n] then some (.file (disk.reaches body))
        else if p = d ++ [n ++ part] then none else t.node p) →
      Finalised disk t d n body (t', .ok ())
  | failed {t' : FileTree Bytes} {message : String} :
      (∀ p, p ≠ d ++ [n ++ part] → t'.node p = t.node p) →
      (t'.node (d ++ [n ++ part]) = t.node (d ++ [n ++ part]) ∨
        t.isDir (d ++ [n ++ part]) = false ∧ t'.isDir (d ++ [n ++ part]) = false ∧
          t'.isLink (d ++ [n ++ part]) = false) →
      (disk.opens = true → disk.writeFails = none → disk.renameFails = none →
        t.node (d ++ [n]) = some .directory ∨ t.node (d ++ [n ++ part]) = some .directory) →
      Finalised disk t d n body (t', .error message)

variable {c : FileServingController} {t t₁ t' : FileTree Bytes} {body : Bytes}

/-- The `.part` file is there, and nothing else has changed. -/
structure Opened (t t₁ : FileTree Bytes) (d : Place) (n : List Char) (content : Bytes) : Prop where
  isDir : t.isDir (d ++ [n ++ part]) = false
  isLink : t.isLink (d ++ [n ++ part]) = false
  node : ∀ p, t₁.node p = if p = d ++ [n ++ part] then some (.file content) else t.node p

theorem Opened.node_part (h : Opened t t₁ d n body) : t₁.node (d ++ [n ++ part]) = some (.file body) := by
  rw [h.node, if_pos rfl]

theorem Opened.keeps (h : Opened t t₁ d n body) : Keeps t t₁ := by
  intro p hp
  rw [h.node, if_neg]
  rintro rfl
  rw [h.isDir, h.isLink] at hp
  exact absurd hp (by decide)

theorem Opened.node_remove (h : Opened t t₁ d n body) (p : Place) :
    (t₁.remove (d ++ [n ++ part])).node p = if p = d ++ [n ++ part] then none else t.node p := by
  rw [FileTree.node_remove (by simp [h.node_part]), h.node]
  split_ifs <;> rfl

/-- A failure leaves the `.part` file or takes it away. -/
theorem Opened.dropPart (h : Opened t t₁ d n (disk.reaches body))
    (hpart : t.LeadsInto c.cwd (full ++ part) d (n ++ part)) (message : String)
    (hreason : disk.writeFails = none → disk.renameFails = none → t.node (d ++ [n]) = some .directory) :
    Finalised disk t d n body (c.dropPart disk t₁ full, .error message) := by
  have hreason' : disk.opens = true → disk.writeFails = none → disk.renameFails = none →
      t.node (d ++ [n]) = some .directory ∨ t.node (d ++ [n ++ part]) = some .directory := fun _ hwrites hrenames =>
    .inl (hreason hwrites hrenames)
  unfold FileServingController.dropPart
  rw [(hpart.keeps h.keeps).unlink_eq]
  split_ifs
  · refine .failed (fun p hp => ?_) (.inr ⟨h.isDir, ?_, ?_⟩) hreason'
    · rw [h.node_remove, if_neg hp]
    · simp [FileTree.isDir, h.node_remove]
    · simp [FileTree.isLink, h.node_remove]
  · refine .failed (fun p hp => ?_) (.inr ⟨h.isDir, ?_, ?_⟩) hreason'
    · rw [h.node, if_neg hp]
    · simp [FileTree.isDir, h.node_part, Node.isDirectory]
    · simp [FileTree.isLink, h.node_part, Node.isLink]

theorem Opened.renamePart (h : Opened t t₁ d n (disk.reaches body)) (hfull : t.LeadsInto c.cwd full d n)
    (hpart : t.LeadsInto c.cwd (full ++ part) d (n ++ part)) :
    Finalised disk t d n body (c.renamePart disk t₁ full) := by
  have hne : d ++ [n] ≠ d ++ [n ++ part] := (append_part_ne d n).symm
  unfold FileServingController.renamePart
  cases hwrites : disk.writeFails with
  | some size =>
    refine h.dropPart hpart _ fun hnone => ?_
    rw [hnone] at hwrites
    cases hwrites
  | none =>
    rw [Option.isSome_none, if_neg Bool.false_ne_true,
      (hpart.keeps h.keeps).rename_eq (hfull.keeps h.keeps) h.node_part rfl]
    cases hrenames : disk.renameFails with
    | some message =>
      refine h.dropPart hpart _ fun _ hnone => ?_
      rw [hnone] at hrenames
      cases hrenames
    | none =>
      have hd : d ≠ d ++ [n ++ part] := by simp
      cases hmoved : (t₁.remove (d ++ [n ++ part])).put d n (.file (disk.reaches body)) with
      | none =>
        refine h.dropPart hpart _ fun _ _ => ?_
        by_contra hdir
        obtain ⟨t', ht'⟩ := exists_put (t := t₁.remove (d ++ [n ++ part]))
          (by rw [h.node_remove, if_neg hd]; exact hfull.isDir) hfull.isName
          (by rw [h.node_remove, if_neg hne]; exact hdir) (.file (disk.reaches body))
        rw [ht'] at hmoved
        cases hmoved
      | some t₂ =>
        obtain ⟨-, -, hdir, hnode⟩ := put_eq_some hmoved
        rw [h.node_remove, if_neg hne] at hdir
        refine .done (Bool.eq_false_iff.2 fun h => hdir (isDir_iff.1 h)) h.isDir hwrites fun p => ?_
        rw [hnode]
        split_ifs with hn hp
        · rfl
        · rw [h.node_remove, if_pos hp]
        · rw [h.node_remove, if_neg hp]

theorem finalised (hfull : t.LeadsInto c.cwd full d n) (hpart : t.LeadsInto c.cwd (full ++ part) d (n ++ part))
    (hlink : t.isLink (d ++ [n ++ part]) = false) :
    Finalised disk t d n body (c.finalise disk t full body) := by
  have hunchanged : (disk.opens = true → t.node (d ++ [n ++ part]) = some .directory) →
      Finalised disk t d n body (t, .error "Failed to open target file for writing.") := fun hdir =>
    .failed (fun _ _ => rfl) (.inl rfl) fun hopens _ _ => .inr (hdir hopens)
  unfold finalise
  cases hopens : disk.opens with
  | false => exact hunchanged fun h => absurd (hopens.symm.trans h) (by decide)
  | true =>
    rw [if_pos rfl, hpart.write_eq hlink]
    cases hput : t.put d (n ++ part) (.file (disk.reaches body)) with
    | none =>
      refine hunchanged fun _ => ?_
      by_contra hdir
      obtain ⟨t', ht'⟩ := exists_put hpart.isDir hpart.isName hdir (.file (disk.reaches body))
      rw [ht'] at hput
      cases hput
    | some t₁ =>
      obtain ⟨-, -, hdir, hnode⟩ := put_eq_some hput
      have hopened : Opened t t₁ d n (disk.reaches body) :=
        ⟨Bool.eq_false_iff.2 fun h => hdir (isDir_iff.1 h), hlink, hnode⟩
      exact hopened.renamePart hfull hpart

/-! ### What an upload does -/

/-- The directory of the target is there, and below the canonical root. -/
structure Prepared (c : FileServingController) (disk : DiskFaults) (t t' : FileTree Bytes) (full : List Char)
    (d : Place) (n : List Char) : Prop where
  made : ensureDirectoryInsideRoot t disk c.cwd c.root (parentPath full) = (t', .ok ())
  grows : Grows t t'
  leads : t'.LeadsInto c.cwd full d n
  leadsPart : t'.LeadsInto c.cwd (full ++ part) d (n ++ part)
  inside : ∃ r, t'.canonical c.cwd c.root = some r ∧ r <+: d

theorem prepared (hcwd : t.node c.cwd = some .directory) (hns : ∀ m ∈ ns, m ≠ [] ∧ '/' ∉ m) (hn : IsName n)
    (h : ensureDirectoryInsideRoot t disk c.cwd c.root (parentPath (ofNames absolute (ns ++ [n]))) = (t', .ok ())) :
    ∃ d, Prepared c disk t t' (ofNames absolute (ns ++ [n])) d n := by
  have hmade := h
  have hgrows := ensureDirectoryInsideRoot_grows t disk c.cwd c.root (parentPath (ofNames absolute (ns ++ [n])))
  rw [h] at hgrows
  rw [parentPath_ofNames absolute hns hn.2.1] at h
  have hnames : names (ofNames absolute ns) = ns := names_ofNames hns
  obtain ⟨r, d, hr, hinside, hd, k, hk, hwalks⟩ :=
    ensureDirectoryInsideRoot_ok hcwd ((components_ofNames hns).trans hnames.symm) h
  rw [hnames] at hwalks
  refine ⟨d, hmade, hgrows, leadsInto_ofNames hns hn hd hk hwalks, ?_, r, hr, hinside⟩
  rw [ofNames_append_part]
  exact leadsInto_ofNames hns (isName_part hn) hd hk hwalks

theorem queueThumbnail_grows (c : FileServingController) (disk : DiskFaults) (t : FileTree Bytes)
    (full relative : List Char) : Grows t (c.queueThumbnail disk t full relative).1 := by
  have hgrows := ensureDirectoryInsideRoot_grows t disk c.cwd c.root (join (parentPath full) thumbs)
  unfold queueThumbnail
  cases c.thumbnails with
  | none => exact .refl t
  | some generator =>
    dsimp only
    split
    · rename_i hmade
      rw [hmade] at hgrows
      exact hgrows
    · rename_i hmade
      rw [hmade] at hgrows
      exact hgrows

/-- An upload in the way of which a file is not overwritten. -/
def Conflicts (c : FileServingController) (t : FileTree Bytes) (form : UploadForm) (full : List Char) : Bool :=
  (t.canonical c.cwd full).isSome && !parseBool form.overwrite false

inductive Placed (c : FileServingController) (disk : DiskFaults) (t : FileTree Bytes) (form : UploadForm)
    (full relative : List Char) (n : List Char) : UploadOutcome → Prop where
  | conflict {error : ErrorResponse} : c.Conflicts t form full = true → error.code = 409 →
      Placed c disk t form full relative n { files := t, response := .error error }
  | unprepared {t₁ : FileTree Bytes} {status : LocatorError} {message : String} : c.Conflicts t form full = false →
      ensureDirectoryInsideRoot t disk c.cwd c.root (parentPath full) = (t₁, .error status) → Grows t t₁ →
      Placed c disk t form full relative n { files := t₁, response := .error (internalError message) }
  | unfinished {t₁ t₂ : FileTree Bytes} {d : Place} {message : String} : c.Conflicts t form full = false →
      Prepared c disk t t₁ full d n → c.finalise disk t₁ full form.file = (t₂, .error message) →
      Placed c disk t form full relative n { files := t₂, response := .error (internalError message) }
  | placed {t₁ t₂ t₃ : FileTree Bytes} {d : Place} {response : UploadResponse} {reload : Option (List Char)}
      {job : Option ThumbnailJob} : c.Conflicts t form full = false →
      Prepared c disk t t₁ full d n → c.finalise disk t₁ full form.file = (t₂, .ok ()) → Grows t₂ t₃ →
      (∀ j ∈ job, (∃ generator, c.thumbnails = some generator ∧ j.outPath = thumbFull generator full relative) ∧
        ensureDirectoryInsideRoot t₂ disk c.cwd c.root (join (parentPath full) thumbs) = (t₃, .ok ())) →
      response.filepath = genericString relative →
      response.size = ((t₃.read c.cwd full).getD form.file).length →
      Placed c disk t form full relative n { files := t₃, response := .ok response, reload := reload, job := job }

theorem placed (hcwd : t.node c.cwd = some .directory) (hns : ∀ m ∈ ns, m ≠ [] ∧ '/' ∉ m) (hn : IsName n)
    (hfull : full = ofNames absolute (ns ++ [n])) (form : UploadForm) :
    Placed c disk t form full relative n (c.place disk t form full relative) := by
  subst hfull
  have hgrows := ensureDirectoryInsideRoot_grows t disk c.cwd c.root (parentPath (ofNames absolute (ns ++ [n])))
  unfold place
  dsimp only
  split
  · rename_i hconflict
    exact .conflict hconflict rfl
  · rename_i hconflict
    rw [Bool.not_eq_true] at hconflict
    split
    · rename_i hmade
      rw [hmade] at hgrows
      exact .unprepared hconflict hmade hgrows
    · rename_i hmade
      rw [hmade] at hgrows
      exact .unprepared hconflict hmade hgrows
    · rename_i t₁ hmade
      obtain ⟨d, hprepared⟩ := prepared hcwd hns hn hmade
      split
      · rename_i hfinalise
        exact .unfinished hconflict hprepared hfinalise
      · rename_i t₂ hfinalise
        have hgrows := queueThumbnail_grows c disk t₂ (ofNames absolute (ns ++ [n])) relative
        refine .placed hconflict hprepared hfinalise hgrows (fun j hj => ?_) rfl rfl
        unfold queueThumbnail at hj ⊢
        cases hgenerator : c.thumbnails with
        | none => simp [hgenerator] at hj
        | some generator =>
          simp only [hgenerator] at hj ⊢
          split at hj
          · simp at hj
          · rename_i hmade
            obtain rfl := Option.some.inj hj
            rw [hmade]
            exact ⟨⟨generator, rfl, rfl⟩, rfl⟩

/-- What an accepted target is made of. -/
theorem exists_target {form : UploadForm} (h : uploadTarget root form = .ok (full, relative)) :
    form.file ≠ [] ∧ validateUploadTarget root form.path (uploadFilename form) = .ok (full, relative) := by
  unfold uploadTarget at h
  split_ifs at h with hfile hfilename
  refine ⟨hfile, ?_⟩
  split at h
  · rename_i htarget
    obtain rfl := Except.ok.inj h
    exact htarget
  all_goals cases h

theorem isName_of_usd (h : isUsdFilename n = true) (hslash : '/' ∉ n) : IsName n := by
  have hlength := four_le_length h
  refine ⟨?_, hslash, ?_, ?_⟩ <;> rintro rfl <;> exact absurd hlength (by decide)

/-- The request is well formed, and its target is this. -/
structure Accepted (c : FileServingController) (req : UploadRequest) (form : UploadForm)
    (full relative : List Char) : Prop where
  size_le : req.size ≤ c.uploadMaxBytes
  form_eq : req.form = .ok form
  target_eq : uploadTarget c.root form = .ok (full, relative)

/-- An upload either stops before it looks at the target, or is `place` with a path made of names. -/
theorem uploadFile_cases (hcwd : t.node c.cwd = some .directory) (req : UploadRequest) :
    (∃ error, c.uploadFile disk t req = { files := t, response := .error error } ∧
      ∀ form full relative, ¬Accepted c req form full relative) ∨
      ∃ form full relative, Accepted c req form full relative ∧
        Placed c disk t form full relative (FsPath.filename relative) (c.uploadFile disk t req) := by
  unfold uploadFile
  split_ifs with hsize
  · exact .inl ⟨_, rfl, fun _ _ _ h => absurd h.size_le (by omega)⟩
  · split
    · rename_i hform
      exact .inl ⟨_, rfl, fun _ _ _ h => by cases hform.symm.trans h.form_eq⟩
    · rename_i form hform
      split
      · rename_i error htarget
        refine .inl ⟨error, rfl, fun form' full relative h => ?_⟩
        obtain rfl := Except.ok.inj (hform.symm.trans h.form_eq)
        cases htarget.symm.trans h.target_eq
      · rename_i full relative htarget
        obtain ⟨hpath, hanchor, -⟩ := validateUploadTarget_ok (exists_target htarget).2
        have hn : IsName (FsPath.filename relative) := isName_of_usd hpath.isUsd (slash_notMem_filename relative)
        exact .inr ⟨form, full, relative, ⟨not_lt.1 hsize, hform, htarget⟩,
          placed hcwd (fun _ => mem_below) hn (full_eq hpath hanchor) form⟩

/-- No link below the root has the name of a `.part` file. -/
def NoPartLinks (t : FileTree Bytes) (r : Place) : Prop := ∀ d n, r <+: d → t.isLink (d ++ [n ++ part]) = false

theorem Prepared.link_part (h : Prepared c disk t t₁ full d n) (hroot : t.canonical c.cwd c.root = some r)
    (hr : t.node r = some .directory) (hlinks : NoPartLinks t r) :
    r <+: d ∧ t₁.isLink (d ++ [n ++ part]) = false := by
  obtain ⟨r', hr', hinside⟩ := h.inside
  obtain rfl : r = r' := Option.some.inj ((canonical_keeps h.grows.keeps hroot hr).symm.trans hr')
  exact ⟨hinside, (h.grows.isLink_eq _).trans (hlinks d n hinside)⟩

theorem Finalised.node_outside {result : FileTree Bytes × Except String Unit} (h : Finalised disk t d n body result)
    (hinside : r <+: d) (hp : ¬r <+: p) : result.1.node p = t.node p := by
  have hne : ∀ m, p ≠ d ++ [m] := by
    rintro m rfl
    exact hp (hinside.trans (List.prefix_append ..))
  cases h with
  | done _ _ _ hnode => rw [hnode, if_neg (hne _), if_neg (hne _)]
  | failed hnode _ _ => exact hnode p (hne _)

/-- Whatever links there are: what a download answers with is a file below the canonical root, and outside of it an
upload changes nothing but that it may make directories, unless a `.part` file below is a link. -/
theorem confined (c : FileServingController) (disk : DiskFaults) (t : FileTree Bytes)
    (hcwd : t.node c.cwd = some .directory) :
    (∀ filepath name content, c.serveFile disk t filepath = .content name content → content ≠ [] →
      ∃ r p, t.canonical c.cwd c.root = some r ∧ r <+: p ∧ t.content p = some content) ∧
    ∀ r req, t.canonical c.cwd c.root = some r → t.node r = some .directory → NoPartLinks t r →
      ∀ p, ¬r <+: p → (c.uploadFile disk t req).files.node p = t.node p ∨
        t.node p = none ∧ (c.uploadFile disk t req).files.node p = some .directory := by
  constructor
  · intro filepath name content h hne
    unfold serveFile at h
    split at h
    · cases h
    · rename_i resolved hresolved
      obtain ⟨r, p, hr, hp, hinside⟩ := resolve_filesOf hcwd hresolved
      unfold readAll at h
      rw [hp] at h
      dsimp only at h
      split_ifs at h
      · exact absurd (Served.content.inj h).2.symm hne
      · split at h
        · rename_i hcontent
          exact ⟨r, p, hr, hinside, (Served.content.inj h).2 ▸ hcontent⟩
        · cases h
  · intro r req hroot hr hlinks p hp
    rcases uploadFile_cases hcwd req with ⟨error, heq, -⟩ | ⟨form, full, relative, -, hplaced⟩
    · rw [heq]
      exact .inl rfl
    · generalize c.uploadFile disk t req = outcome at hplaced ⊢
      cases hplaced with
      | conflict _ _ => exact .inl rfl
      | unprepared _ _ hgrows => exact hgrows p
      | @unfinished t₁ t₂ d _ _ hprepared hfinalise =>
        obtain ⟨hinside, hlink⟩ := hprepared.link_part hroot hr hlinks
        have hfinalised : Finalised disk t₁ d _ form.file (c.finalise disk t₁ full form.file) :=
          finalised hprepared.leads hprepared.leadsPart hlink
        have houtside := hfinalised.node_outside hinside hp
        rw [hfinalise] at houtside
        rw [houtside]
        exact hprepared.grows p
      | @placed t₁ t₂ t₃ d _ _ _ _ hprepared hfinalise hgrows _ _ _ =>
        obtain ⟨hinside, hlink⟩ := hprepared.link_part hroot hr hlinks
        have hfinalised : Finalised disk t₁ d _ form.file (c.finalise disk t₁ full form.file) :=
          finalised hprepared.leads hprepared.leadsPart hlink
        have houtside := hfinalised.node_outside hinside hp
        rw [hfinalise] at houtside
        rcases hgrows p with heq | ⟨hnone, hdir⟩
        · rw [heq, houtside]
          exact hprepared.grows p
        · rw [houtside] at hnone
          rcases hprepared.grows p with heq | ⟨-, hmade⟩
          · exact .inr ⟨heq ▸ hnone, hdir⟩
          · rw [hmade] at hnone
            cases hnone

/-! ### A link out of the uploads -/

def linked (name target : String) : FileTree Bytes :=
  let place := fun s => [String.toList s]
  ((((FileTree.empty.put [] "etc".toList .directory).bind fun t =>
    t.put (place "etc") "passwd".toList (.file [7])).bind fun t => t.put [] "srv".toList .directory).bind fun t =>
    t.put (place "srv") name.toList (.link target.toList)).getD .empty

def linkedServer : FileServingController where
  cwd := []
  root := "/srv".toList

def uploadTo (path filename : String) : UploadRequest where
  size := 1
  form := .ok { file := [4], filename := filename.toList, path := path.toList }

theorem noPartLinks (h : t.entries.keys.all fun q => !t.isLink q || q.all fun n => decide ¬part <:+ n) :
    NoPartLinks t r := by
  intro d n _
  by_contra hlink
  rw [Bool.not_eq_false] at hlink
  obtain ⟨target, hnode⟩ := isLink_iff.1 hlink
  have hall := List.all_eq_true.1 h _ (mem_entries.2 (by rw [hnode]; rfl) : d ++ [n ++ part] ∈ t.entries)
  rw [hlink, Bool.not_true, Bool.false_or, List.all_eq_true] at hall
  exact absurd (List.suffix_append n part) (by simpa using hall (n ++ part) (by simp))

/-- A directory may be made behind the link. -/
theorem confined_link : (∀ filepath name content,
      linkedServer.serveFile {} (linked "out" "/etc") filepath = .content name content → content ≠ [] →
      ∃ r p, (linked "out" "/etc").canonical [] "/srv".toList = some r ∧ r <+: p ∧
        (linked "out" "/etc").content p = some content) ∧
    ∀ p, ¬["srv".toList] <+: p →
      (linkedServer.uploadFile {} (linked "out" "/etc") (uploadTo "out/new" "x.usda")).files.node p =
          (linked "out" "/etc").node p ∨
        (linked "out" "/etc").node p = none ∧
          (linkedServer.uploadFile {} (linked "out" "/etc") (uploadTo "out/new" "x.usda")).files.node p =
            some .directory := by
  obtain ⟨hdownload, hupload⟩ := confined linkedServer {} (linked "out" "/etc") (by decide)
  exact ⟨hdownload, hupload ["srv".toList] (uploadTo "out/new" "x.usda") (by decide) (by decide)
    (noPartLinks (by decide))⟩

example : (linkedServer.uploadFile {} (linked "out" "/etc") (uploadTo "out/new" "x.usda")).files.isDir
    ["etc".toList, "new".toList] = true := by decide +kernel

/-- Through the link of a `.part` file the upload writes what it points to. -/
example : (linkedServer.uploadFile {} (linked "x.usda.part" "/etc/passwd") (uploadTo "" "x.usda")).files.content
    ["etc".toList, "passwd".toList] = some [4] := by decide +kernel

end FileServingController

end IdtxCore
