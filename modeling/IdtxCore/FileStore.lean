import IdtxCore.FileConfinement

/-!
# The uploads as a store

Seen from outside, the uploads are a map from names to contents. An upload that is answered 201 sets the content of
its target, the thumbnail worker sets that of a picture, and nothing else changes any of them; downloads, thumbnails
and the list show the map (`Justified`). When nothing fails, an upload is accepted unless something is in the way of
its file (`uploadFile_ok_iff`).

The `.part` files are no part of the map. There must be no links below the root, and the normalised root must name the
same directory as the root does. The disk may refuse whatever it likes, as long as a file that is closed has been
written and a file that is there can be opened.
-/

namespace IdtxCore
open FsPath FileTree UsdFileLocator FileServing

/-- Nothing fails. -/
structure DiskFaults.Sound (disk : DiskFaults) : Prop where
  refused : ∀ p, disk.refused p = none
  opens : disk.opens = true
  writes : disk.writeFails = none
  closes : disk.closeFails = none
  renames : disk.renameFails = none

namespace FileServingController

def rootNames (root : List Char) : Place := reduce (isAbsolute root) (names root)

/-- What a relative path stands for. -/
def key (relative : List Char) : Place := (names relative).filter (· ≠ dot)

/-- The root as a place, whichever way it is spelt. -/
structure Rooted (c : FileServingController) (r : Place) (t : FileTree Bytes) : Prop where
  cwd : t.node c.cwd = some .directory
  dir : t.node r = some .directory
  root : t.canonical c.cwd c.root = some r
  normal : t.canonical c.cwd (lexicallyNormal c.root) = some r
  links : ∀ p, r <+: p → t.isLink p = false

section Rooted
variable {c : FileServingController} {disk : DiskFaults} {r d : Place} {t t' : FileTree Bytes}
  {root full relative decoded filepath : List Char} {n : List Char} {ns : Place} {form : UploadForm}

theorem Rooted.root_ne_nil (h : Rooted c r t) : c.root ≠ [] := ne_nil_of_canonical h.root

theorem Rooted.keeps (h : Rooted c r t) (hkeeps : Keeps t t') (hlinks : ∀ p, r <+: p → t'.isLink p = false) :
    Rooted c r t' where
  cwd := hkeeps.directory h.cwd
  dir := hkeeps.directory h.dir
  root := canonical_keeps hkeeps h.root h.dir
  normal := canonical_keeps hkeeps h.normal h.dir
  links := hlinks

theorem Rooted.grows (h : Rooted c r t) (hgrows : Grows t t') : Rooted c r t' :=
  h.keeps hgrows.keeps (hgrows.no_links h.links)

theorem isName_of_key (hdots : dotdot ∉ names relative) (hn : n ∈ key relative) : IsName n := by
  obtain ⟨hmem, hdot⟩ := List.mem_filter.1 hn
  refine ⟨(mem_names hmem).1, (mem_names hmem).2, by simpa using hdot, ?_⟩
  rintro rfl
  exact hdots hmem

theorem mem_rootNames (h : n ∈ rootNames root) : n ≠ [] ∧ '/' ∉ n := mem_reduce_names h

theorem mem_rootNames_append (hns : ∀ n ∈ ns, IsName n) (h : n ∈ rootNames root ++ ns) : n ≠ [] ∧ '/' ∉ n := by
  rcases List.mem_append.1 h with h | h
  · exact mem_rootNames h
  · exact ⟨(hns n h).1, (hns n h).2.1⟩

theorem endsInName_of_anchor (hroot : root ≠ []) (h : anchor root relative = .ok (full, relative))
    (hrelative : isAbsolute relative = false) (hnamed : Named relative) : EndsInName root :=
  (elements_lexicallyNormal_eq_iff hroot).1 (elements_root_of_anchor h hrelative hnamed)

theorem anchor_full (h : anchor root relative = .ok (full, relative)) (hrelative : isAbsolute relative = false)
    (hnamed : Named relative) : full = ofNames (isAbsolute root) (rootNames root ++ key relative) := by
  rw [(anchor_ok h).2.1]
  exact lexicallyNormal_join hrelative hnamed (dotdot_notMem_names h)

theorem Rooted.walks (h : Rooted c r t) (hends : EndsInName c.root) (hns : ∀ n ∈ ns, IsName n) :
    ∃ k ≤ maxLinks, t.Walks k (start c.cwd (ofNames (isAbsolute c.root) (rootNames c.root ++ ns)))
      (rootNames c.root) r := by
  have hnormal := h.normal
  rw [lexicallyNormal_of_endsInName h.root_ne_nil hends] at hnormal
  obtain ⟨k, hk, hwalks⟩ := walks_names_of_canonical hnormal
  have hnames : names (ofNames (isAbsolute c.root) (rootNames c.root)) = rootNames c.root :=
    names_ofNames fun _ => mem_rootNames
  refine ⟨k, hk, ?_⟩
  rw [start_ofNames fun _ => mem_reduce_names] at hwalks
  rw [start_ofNames fun _ => mem_rootNames_append hns]
  exact hnames ▸ hwalks

theorem getLast?_ne_dot (hns : ∀ n ∈ ns, IsName n) : ns.getLast? ≠ some dot := fun hlast =>
  (hns dot (List.mem_of_getLast? hlast)).2.2.1 rfl

theorem filter_eq_self (hns : ∀ n ∈ ns, IsName n) : ns.filter (· ≠ dot) = ns :=
  List.filter_eq_self.2 fun n hn => by simpa using (hns n hn).2.2.1

theorem dotdot_notMem (hns : ∀ n ∈ ns, IsName n) : dotdot ∉ ns := fun hmem => (hns dotdot hmem).2.2.2 rfl

theorem Rooted.path_ne_nil (h : Rooted c r t) (hends : EndsInName c.root) (hns : ∀ m ∈ ns, IsName m) :
    ofNames (isAbsolute c.root) (rootNames c.root ++ ns) ≠ [] := by
  rcases eq_or_ne ns [] with rfl | hne
  · have hnormal := ne_nil_of_canonical h.normal
    rw [lexicallyNormal_of_endsInName h.root_ne_nil hends] at hnormal
    rw [List.append_nil]
    exact hnormal
  · intro hnil
    have hfilename : FsPath.filename (ofNames (isAbsolute c.root) (rootNames c.root ++ ns)) ≠ [] :=
      filename_ofNames_ne_nil (fun _ => mem_rootNames_append hns) (by simp [hne])
    rw [hnil] at hfilename
    exact hfilename rfl

/-- Below the root the names say where a walk ends. -/
theorem Rooted.eq_of_walks {i j : Nat} {p q : Place} (h : Rooted c r t) (hns : ∀ m ∈ ns, IsName m)
    (hroot : t.Walks i p (rootNames c.root) r) (hwalks : t.Walks j p (rootNames c.root ++ ns) q) : q = r ++ ns := by
  obtain ⟨_, _, r', _, hr', hbelow⟩ := hwalks.split
  obtain rfl := hroot.unique hr'
  rw [(hbelow.eq_append h.links (dotdot_notMem hns)).2, filter_eq_self hns]

theorem Rooted.canonical_full (h : Rooted c r t) (hends : EndsInName c.root) (hns : ∀ n ∈ ns, IsName n) :
    t.canonical c.cwd (ofNames (isAbsolute c.root) (rootNames c.root ++ ns)) =
      if (t.node (r ++ ns)).isSome then some (r ++ ns) else none := by
  obtain ⟨k, hk, hwalks⟩ := h.walks hends hns
  rw [canonical_below h.cwd (components_ofNames fun _ => mem_rootNames_append hns) hwalks hk h.links
    (dotdot_notMem hns) (getLast?_ne_dot hns) (h.path_ne_nil hends hns), filter_eq_self hns]

/-- The spelling of the root as it stands in the configuration. -/
theorem Rooted.canonical_join (h : Rooted c r t) (hrelative : isAbsolute decoded = false) (hnamed : Named decoded)
    (hdots : dotdot ∉ names decoded) : t.canonical c.cwd (join c.root decoded) =
      if (t.node (r ++ key decoded)).isSome then some (r ++ key decoded) else none := by
  have hfilename : FsPath.filename decoded ≠ [] := fun hnil => hnamed (by simp [hnil])
  obtain ⟨k, hk, hwalks⟩ := walks_names_of_canonical h.root
  have hstart : start c.cwd (join c.root decoded) = start c.cwd c.root := start_join hrelative ..
  have hcomponents : components (join c.root decoded) = names c.root ++ names decoded := by
    rw [components_of_filename (by rwa [filename_join hrelative]), names_join hrelative]
  have hlast : (names decoded).getLast? ≠ some dot := by
    rw [names_parentPath hfilename, List.getLast?_concat]
    intro heq
    exact hnamed (by simp [Option.some.inj heq])
  refine canonical_below h.cwd hcomponents (hstart ▸ hwalks) hk h.links hdots hlast fun hnil => ?_
  rw [hnil] at hcomponents
  have hnames := names_parentPath hfilename
  rw [(List.append_eq_nil_iff.1 hcomponents.symm).2] at hnames
  simp at hnames

/-- A path that leads into a directory below the root leads where its names say. -/
theorem Rooted.place_eq (h : Rooted c r t) (hends : EndsInName c.root) (hns : ∀ m ∈ ns ++ [n], IsName m)
    (hleads : t.LeadsInto c.cwd (ofNames (isAbsolute c.root) (rootNames c.root ++ (ns ++ [n]))) d n) : d = r ++ ns := by
  obtain ⟨-, -, ms, hms, j, -, hd⟩ := hleads
  obtain ⟨k, -, hwalks⟩ := h.walks hends hns
  rw [components_ofNames fun _ => mem_rootNames_append hns, ← List.append_assoc] at hms
  rw [← (List.append_inj' hms rfl).1] at hd
  exact h.eq_of_walks (fun m hm => hns m (List.mem_append_left _ hm)) hwalks hd

end Rooted

/-! ### What is visible -/

/-- A name is visible unless it is that of a `.part` file. -/
def Visible (ns : Place) : Prop := ∀ n, ns.getLast? = some n → ¬part <:+ n

theorem visible_concat {ns : Place} {n : List Char} (h : ¬part <:+ n) : Visible (ns ++ [n]) := by
  intro m hm
  rw [List.getLast?_concat] at hm
  exact Option.some.inj hm ▸ h

theorem getLast?_of_isSuffix {s n : List Char} (h : s <:+ n) (hs : s ≠ []) : n.getLast? = s.getLast? := by
  obtain ⟨m, rfl⟩ := h
  exact List.getLast?_append_of_ne_nil m hs

theorem not_part_of_usd {n : List Char} (h : isUsdFilename n = true) : ¬part <:+ n := by
  intro hpart
  have hlast := getLast?_of_isSuffix hpart (by decide)
  simp only [isUsdFilename, Bool.or_eq_true, decide_eq_true_eq] at h
  rcases h with ((h | h) | h) | h <;> rw [getLast?_of_isSuffix h (by decide)] at hlast <;>
    exact absurd hlast (by decide)

theorem not_part_of_extension (generator : ThumbnailGenerator) (s : List Char) :
    ¬part <:+ s ++ generator.extension := by
  intro hpart
  have hlast := getLast?_of_isSuffix hpart (by decide)
  rw [getLast?_of_isSuffix (List.suffix_append s generator.extension) (by cases generator <;> decide)] at hlast
  cases generator <;> exact absurd hlast (by decide)

theorem key_eq {relative : List Char} (h : Named relative) :
    key relative = key (parentPath relative) ++ [FsPath.filename relative] := filter_names h

/-! ### The file and the store -/

section Finalised
variable {disk : DiskFaults} {t : FileTree Bytes} {d p : Place} {n : List Char} {body : Bytes}
  {result : FileTree Bytes × Except String Unit}

theorem Finalised.isLink_eq_false (h : Finalised disk t d n body result) (hp : t.isLink p = false) :
    result.1.isLink p = false := by
  cases h with
  | done _ _ _ hnode =>
    unfold FileTree.isLink
    rw [hnode]
    split_ifs
    · rfl
    · rfl
    · exact hp
  | failed hnode hpart _ =>
    by_cases heq : p = d ++ [n ++ part]
    · rcases hpart with hsame | ⟨-, -, hlink⟩
      · unfold FileTree.isLink at hp ⊢
        rw [heq] at hp ⊢
        rwa [hsame]
      · rw [heq]
        exact hlink
    · unfold FileTree.isLink
      rw [hnode p heq]
      exact hp

theorem Finalised.keeps (h : Finalised disk t d n body result) (hlink : t.isLink (d ++ [n]) = false)
    (hpartLink : t.isLink (d ++ [n ++ part]) = false) : Keeps t result.1 := by
  have hother : ∀ q, t.isDir q = false → t.isLink q = false → ¬(t.isDir q = true ∨ t.isLink q = true) := by
    intro q hdir hlink
    rw [hdir, hlink]
    decide
  intro p hp
  cases h with
  | done hdir hpartDir _ hnode =>
    rw [hnode, if_neg, if_neg]
    · rintro rfl
      exact hother _ hpartDir hpartLink hp
    · rintro rfl
      exact hother _ hdir hlink hp
  | failed hnode hpart _ =>
    by_cases heq : p = d ++ [n ++ part]
    · subst heq
      exact hpart.resolve_right fun hchanged => hother _ hchanged.1 hpartLink hp
    · exact hnode p heq

theorem Finalised.content_of_ok {t' : FileTree Bytes} (h : Finalised disk t d n body (t', .ok ()))
    (hcloses : disk.closeFails = none) (hp : p ≠ d ++ [n ++ part]) :
    t'.content p = if p = d ++ [n] then some body else t.content p := by
  cases h with
  | done _ _ hwrites hnode =>
    have hreaches : disk.reaches body = body := by
      unfold DiskFaults.reaches
      rw [hwrites, hcloses]
      exact List.take_length
    unfold FileTree.content
    rw [hnode, if_neg hp, hreaches]
    split_ifs <;> rfl

theorem Finalised.content_of_error {t' : FileTree Bytes} {message : String}
    (h : Finalised disk t d n body (t', .error message)) (hp : p ≠ d ++ [n ++ part]) : t'.content p = t.content p := by
  cases h with
  | failed hnode _ _ =>
    unfold FileTree.content
    rw [hnode p hp]

end Finalised

/-! ### Requests and their effect -/

inductive FileEvent where
  | upload (req : UploadRequest) (response : Except ErrorResponse UploadResponse)
  | download (filepath : List Char) (served : Served)
  | thumbnail (usdFilepath : List Char) (served : Served)
  | list (nameFilter extFilter : List Char) (files : Option (List FileEntry))
  /-- the worker has written a picture -/
  | picture (job : ThumbnailJob) (picture : Bytes)

/-- What an event sets, and to what. -/
def effect (root : List Char) : FileEvent → Option (Place × Bytes)
  | .upload req (.ok _) =>
    match req.form with
    | .error _ => none
    | .ok form =>
      match uploadTarget root form with
      | .ok (_, relative) => some (key relative, form.file)
      | .error _ => none
  | .picture job picture => some ((names job.outPath).drop (rootNames root).length, picture)
  | _ => none

def perform (root : List Char) (store : Place → Option Bytes) (event : FileEvent) : Place → Option Bytes :=
  match effect root event with
  | none => store
  | some (ns, content) => Function.update store ns (some content)

/-- The store after the events. -/
def stored (root : List Char) (initial : Place → Option Bytes) (log : List FileEvent) : Place → Option Bytes :=
  log.foldl (perform root) initial

/-- The event is right for what is stored. -/
def Justified (c : FileServingController) (store : Place → Option Bytes) : FileEvent → Prop
  | .upload req response =>
    (∀ answer, response = .ok answer → ∃ form full relative, Accepted c req form full relative ∧
      answer.filepath = genericString relative ∧ answer.size = form.file.length ∧
      (parseBool form.overwrite false = true ∨ store (key relative) = none)) ∧
    ∀ form full relative, Accepted c req form full relative → parseBool form.overwrite false = false →
      store (key relative) ≠ none → ∃ error, response = .error error ∧ error.code = 409
  | .download filepath served =>
    (∀ name content, served = .content name content →
      ∃ decoded, validatePath filepath = .ok decoded ∧ isUsdFilename (FsPath.filename decoded) = true) ∧
    ∀ decoded, validatePath filepath = .ok decoded → isAbsolute decoded = false →
      isUsdFilename (FsPath.filename decoded) = true → ∀ name content,
        (served = .content name content ↔ name = FsPath.filename decoded ∧ store (key decoded) = some content)
  | .thumbnail usdFilepath served =>
    ∀ full relative, resolveThumbnailPath c.root c.thumbnails usdFilepath = .ok (full, relative) →
      isAbsolute relative = false → ∀ name content,
        (served = .content name content ↔ name = FsPath.filename relative ∧ store (key relative) = some content)
  | .list nameFilter extFilter files =>
    ∃ entries, files = some entries ∧ ∀ entry, entry ∈ entries ↔
      ∃ ns n content, store (ns ++ [n]) = some content ∧ isUsdFilename n = true ∧
        (nameFilter = [] ∨ nameFilter <:+: n) ∧ (extFilter = [] ∨ ('.' :: extFilter) <:+ n) ∧
        entry = ⟨ofNames false (ns ++ [n]), n, ofNames false ns, content.length⟩
  | .picture _ _ => True

/-- The output path of the job of an accepted upload. -/
structure Queued (c : FileServingController) (job : ThumbnailJob) (ns : Place) (n : List Char) : Prop where
  endsInName : EndsInName c.root
  outPath_eq : job.outPath = ofNames (isAbsolute c.root) (rootNames c.root ++ (ns ++ [n]))
  isName : ∀ m ∈ ns ++ [n], IsName m
  not_part : ¬part <:+ n

/-- What a step leaves of the tree and of what is visible of it. -/
structure Stepped (c : FileServingController) (r : Place) (t t' : FileTree Bytes) (event : FileEvent) : Prop where
  rooted : Rooted c r t'
  content : ∀ ns, Visible ns →
    t'.content (r ++ ns) = perform c.root (fun ns => t.content (r ++ ns)) event ns

section Upload
variable {c : FileServingController} {disk : DiskFaults} {r d : Place} {t t' : FileTree Bytes}
  {full relative : List Char} {n : List Char} {ns : Place} {form : UploadForm} {req : UploadRequest}

theorem Stepped.of_grows {event : FileEvent} (h : Rooted c r t) (hgrows : Grows t t')
    (hnone : effect c.root event = none) : Stepped c r t t' event where
  rooted := h.grows hgrows
  content ns _ := by
    unfold perform
    rw [hnone]
    exact hgrows.content_eq _

theorem effect_upload {answer : UploadResponse} (h : Accepted c req form full relative) :
    effect c.root (.upload req (.ok answer)) = some (key relative, form.file) := by
  simp only [effect, h.form_eq, h.target_eq]

/-- What is known of an accepted target. -/
structure Target (c : FileServingController) (full relative : List Char) (ns : Place) : Prop where
  endsInName : EndsInName c.root
  usd : isUsdFilename (FsPath.filename relative) = true
  key_eq : key relative = ns ++ [FsPath.filename relative]
  full_eq : full = ofNames (isAbsolute c.root) (rootNames c.root ++ (ns ++ [FsPath.filename relative]))
  isName : ∀ m ∈ ns ++ [FsPath.filename relative], IsName m
  path : UsdPath relative
  anchor_eq : anchor c.root relative = .ok (full, relative)

theorem Accepted.exists_target (h : Accepted c req form full relative) (hroot : c.root ≠ []) :
    Target c full relative (key (parentPath relative)) := by
  obtain ⟨hpath, hanchor, -⟩ := validateUploadTarget_ok (FileServingController.exists_target h.target_eq).2
  have hnamed : Named relative := named_of_isUsdFilename hpath.isUsd
  have hkey := key_eq hnamed
  refine ⟨endsInName_of_anchor hroot hanchor hpath.isRelative hnamed, hpath.isUsd, hkey, ?_, ?_, hpath, hanchor⟩
  · rw [← hkey]
    exact anchor_full hanchor hpath.isRelative hnamed
  · rw [← hkey]
    exact fun _ => isName_of_key (dotdot_notMem_names hanchor)

theorem Accepted.unique {form' : UploadForm} {full' relative' : List Char} (h : Accepted c req form full relative)
    (h' : Accepted c req form' full' relative') : form' = form ∧ full' = full ∧ relative' = relative := by
  obtain rfl := Except.ok.inj (h.form_eq.symm.trans h'.form_eq)
  exact ⟨rfl, Prod.mk.inj (Except.ok.inj (h'.target_eq.symm.trans h.target_eq))⟩

/-- The `.part` file is below the root, where there are no links. -/
theorem Prepared.finalised (disk : DiskFaults) (h : Rooted c r t) (htarget : Target c full relative ns)
    (hprepared : Prepared c disk t t' full d (FsPath.filename relative)) :
    d = r ++ ns ∧ ∀ body, Finalised disk t' d (FsPath.filename relative) body (c.finalise disk t' full body) := by
  have h' := h.grows hprepared.grows
  have hd : d = r ++ ns := h'.place_eq htarget.endsInName htarget.isName (htarget.full_eq ▸ hprepared.leads)
  refine ⟨hd, fun body => FileServingController.finalised hprepared.leads hprepared.leadsPart (h'.links _ ?_)⟩
  rw [hd, List.append_assoc]
  exact List.prefix_append ..

theorem Prepared.finalise_keeps (disk : DiskFaults) (h : Rooted c r t) (htarget : Target c full relative ns)
    (hprepared : Prepared c disk t t' full d (FsPath.filename relative)) (body : Bytes) :
    Keeps t' (c.finalise disk t' full body).1 := by
  obtain ⟨rfl, hall⟩ := hprepared.finalised disk h htarget
  have hlinks := (h.grows hprepared.grows).links
  have hbelow : ∀ m : List Char, r <+: r ++ ns ++ [m] := fun m => by
    rw [List.append_assoc]
    exact List.prefix_append ..
  exact (hall body).keeps (hlinks _ (hbelow _)) (hlinks _ (hbelow _))

theorem Prepared.finalise_rooted (disk : DiskFaults) (h : Rooted c r t) (htarget : Target c full relative ns)
    (hprepared : Prepared c disk t t' full d (FsPath.filename relative)) (body : Bytes) :
    Rooted c r (c.finalise disk t' full body).1 := by
  obtain ⟨-, hall⟩ := hprepared.finalised disk h htarget
  have h' := h.grows hprepared.grows
  exact h'.keeps (hprepared.finalise_keeps disk h htarget body)
    fun p hp => (hall body).isLink_eq_false (h'.links p hp)

theorem ne_part_of_visible {p : Place} (hvisible : Visible p) : r ++ p ≠ r ++ ns ++ [n ++ part] := by
  intro heq
  rw [List.append_assoc] at heq
  rw [List.append_cancel_left heq] at hvisible
  exact hvisible _ List.getLast?_concat (List.suffix_append ..)

theorem uploadFile_keeps (h : Rooted c r t) (req : UploadRequest) : Keeps t (c.uploadFile disk t req).files := by
  rcases uploadFile_cases h.cwd req with ⟨error, heq, -⟩ | ⟨form, full, relative, haccepted, hplaced⟩
  · rw [heq]
    exact .refl t
  · have htarget := haccepted.exists_target h.root_ne_nil
    generalize c.uploadFile disk t req = outcome at hplaced ⊢
    cases hplaced with
    | conflict _ _ => exact .refl t
    | unprepared _ _ hgrows => exact hgrows.keeps
    | unfinished _ hprepared hfinalise =>
      have hkeeps := hprepared.finalise_keeps disk h htarget form.file
      rw [hfinalise] at hkeeps
      exact hprepared.grows.keeps.trans hkeeps
    | placed _ hprepared hfinalise hgrows _ _ _ =>
      have hkeeps := hprepared.finalise_keeps disk h htarget form.file
      rw [hfinalise] at hkeeps
      exact (hprepared.grows.keeps.trans hkeeps).trans hgrows.keeps

theorem uploadFile_stepped (h : Rooted c r t) (hcloses : disk.closeFails = none) (req : UploadRequest) :
    Stepped c r t (c.uploadFile disk t req).files (.upload req (c.uploadFile disk t req).response) := by
  rcases uploadFile_cases h.cwd req with ⟨error, heq, -⟩ | ⟨form, full, relative, haccepted, hplaced⟩
  · rw [heq]
    exact .of_grows h (.refl t) rfl
  · have htarget := haccepted.exists_target h.root_ne_nil
    generalize c.uploadFile disk t req = outcome at hplaced ⊢
    cases hplaced with
    | conflict _ _ => exact .of_grows h (.refl t) rfl
    | unprepared _ _ hgrows => exact .of_grows h hgrows rfl
    | @unfinished t₁ t₂ d _ _ hprepared hfinalise =>
      obtain ⟨hd, hall⟩ := hprepared.finalised disk h htarget
      have hfinalised := hall form.file
      have hrooted := hprepared.finalise_rooted disk h htarget form.file
      rw [hfinalise] at hfinalised hrooted
      refine ⟨hrooted, fun p hp => ?_⟩
      rw [hfinalised.content_of_error (hd ▸ ne_part_of_visible hp), hprepared.grows.content_eq]
      rfl
    | @placed t₁ t₂ t₃ d _ _ _ _ hprepared hfinalise hgrows _ _ _ =>
      obtain ⟨hd, hall⟩ := hprepared.finalised disk h htarget
      have hfinalised := hall form.file
      have hrooted := hprepared.finalise_rooted disk h htarget form.file
      rw [hfinalise] at hfinalised hrooted
      refine ⟨hrooted.grows hgrows, fun p hp => ?_⟩
      unfold perform
      rw [hgrows.content_eq, hfinalised.content_of_ok hcloses (hd ▸ ne_part_of_visible hp),
        hprepared.grows.content_eq, effect_upload haccepted, htarget.key_eq, hd, List.append_assoc]
      dsimp only
      rw [Function.update_apply]
      simp only [List.append_cancel_left_eq]

/-- A shown store: what is visible of the tree. -/
def Shows (r : Place) (t : FileTree Bytes) (store : Place → Option Bytes) : Prop :=
  ∀ ns, Visible ns → t.content (r ++ ns) = store ns

theorem isSome_of_content {p : Place} {content : Bytes} (h : t.content p = some content) : (t.node p).isSome := by
  rw [content_eq_some.1 h]
  rfl

theorem Target.visible (h : Target c full relative ns) : Visible (ns ++ [FsPath.filename relative]) :=
  visible_concat (not_part_of_usd h.usd)

theorem Target.canonical_eq (htarget : Target c full relative ns) (h : Rooted c r t) :
    t.canonical c.cwd full =
      if (t.node (r ++ (ns ++ [FsPath.filename relative]))).isSome then some (r ++ (ns ++ [FsPath.filename relative]))
      else none := by
  rw [htarget.full_eq]
  exact h.canonical_full htarget.endsInName htarget.isName

theorem uploadFile_justified {store : Place → Option Bytes} (h : Rooted c r t) (hshows : Shows r t store)
    (hcloses : disk.closeFails = none) (req : UploadRequest) :
    Justified c store (.upload req (c.uploadFile disk t req).response) := by
  have hstepped := uploadFile_stepped h hcloses req
  rcases uploadFile_cases h.cwd req with ⟨error, heq, hnone⟩ | ⟨form, full, relative, haccepted, hplaced⟩
  · rw [heq]
    exact ⟨nofun, fun form full relative haccepted => absurd haccepted (hnone form full relative)⟩
  · have htarget := haccepted.exists_target h.root_ne_nil
    have hstore : t.content (r ++ (key (parentPath relative) ++ [FsPath.filename relative])) =
        store (key relative) := by
      rw [htarget.key_eq]
      exact hshows _ htarget.visible
    -- what is stored conflicts with an upload that must not overwrite it
    have hconflict : parseBool form.overwrite false = false → store (key relative) ≠ none →
        c.Conflicts t form full = true := by
      intro hno hsome
      obtain ⟨content, hcontent⟩ := Option.ne_none_iff_exists'.1 hsome
      unfold Conflicts
      rw [htarget.canonical_eq h, if_pos (isSome_of_content (hstore.trans hcontent)), hno]
      rfl
    generalize c.uploadFile disk t req = outcome at hplaced hstepped ⊢
    have hpassed : c.Conflicts t form full = false → parseBool form.overwrite false = false →
        store (key relative) = none := by
      intro hpass hno
      by_contra hsome
      rw [hconflict hno hsome] at hpass
      cases hpass
    have hrefused : ∀ {message}, c.Conflicts t form full = false →
        Justified c store (.upload req (.error (internalError message))) := by
      refine fun hpass => ⟨nofun, fun form' full' relative' haccepted' hno hsome => ?_⟩
      obtain ⟨rfl, rfl, rfl⟩ := haccepted.unique haccepted'
      exact absurd (hpassed hpass hno) hsome
    cases hplaced with
    | conflict _ hcode => exact ⟨nofun, fun _ _ _ _ _ _ => ⟨_, rfl, hcode⟩⟩
    | unprepared hpass _ _ => exact hrefused hpass
    | unfinished hpass _ _ => exact hrefused hpass
    | @placed t₁ t₂ t₃ d answer _ _ hpass _ _ _ _ hfilepath hsize =>
      have hcontent := hstepped.content _ htarget.visible
      simp only [perform, effect_upload haccepted, htarget.key_eq, Function.update_self] at hcontent
      refine ⟨fun answer' hanswer => ?_, fun form' full' relative' haccepted' hno hsome => ?_⟩
      · obtain rfl := Except.ok.inj hanswer
        refine ⟨form, full, relative, haccepted, hfilepath, ?_, ?_⟩
        · rw [hsize, FileTree.read, htarget.canonical_eq hstepped.rooted, if_pos (isSome_of_content hcontent)]
          dsimp only [Option.bind]
          rw [hcontent]
          rfl
        · cases hoverwrite : parseBool form.overwrite false with
          | true => exact .inl rfl
          | false => exact .inr (hpassed hpass hoverwrite)
      · obtain ⟨rfl, rfl, rfl⟩ := haccepted.unique haccepted'
        exact absurd (hpassed hpass hno) hsome

/-- The job's picture goes into a directory that is there. -/
theorem uploadFile_queued (h : Rooted c r t) (req : UploadRequest) (job : ThumbnailJob)
    (hjob : (c.uploadFile disk t req).job = some job) :
    ∃ ns n, Queued c job ns n ∧ (c.uploadFile disk t req).files.node (r ++ ns) = some .directory := by
  rcases uploadFile_cases h.cwd req with ⟨error, heq, -⟩ | ⟨form, full, relative, haccepted, hplaced⟩
  · rw [heq] at hjob
    cases hjob
  · have htarget := haccepted.exists_target h.root_ne_nil
    generalize c.uploadFile disk t req = outcome at hplaced hjob ⊢
    cases hplaced with
    | conflict _ _ => cases hjob
    | unprepared _ _ _ => cases hjob
    | unfinished _ _ _ => cases hjob
    | @placed t₁ t₂ t₃ d _ _ _ _ hprepared hfinalise hgrows hout _ _ =>
      obtain ⟨⟨generator, -, hpath⟩, hmade⟩ := hout job hjob
      have hbefore := hprepared.finalise_rooted disk h htarget form.file
      rw [hfinalise] at hbefore
      have hrooted := hbefore.grows hgrows
      have hname : ThumbName (stem relative ++ generator.extension) := thumbName_stem (some generator) relative
      have hthumbs : ∀ m ∈ key (parentPath relative) ++ [thumbs], IsName m := by
        intro m hm
        rcases List.mem_append.1 hm with hm | hm
        · exact htarget.isName m (List.mem_append_left _ hm)
        · exact List.mem_singleton.1 hm ▸ by decide
      refine ⟨key (parentPath relative) ++ [thumbs], stem relative ++ generator.extension,
        ⟨htarget.endsInName, ?_, ?_, not_part_of_extension generator _⟩, ?_⟩
      · rw [hpath, thumbFull_eq htarget.path htarget.anchor_eq]
        simp only [rootNames, key, List.append_assoc]
      · intro m hm
        rcases List.mem_append.1 hm with hm | hm
        · exact hthumbs m hm
        · have hmem := hname.notMem
          simp only [List.mem_cons, List.not_mem_nil, or_false, not_or] at hmem
          exact List.mem_singleton.1 hm ▸ ⟨hmem.1, hname.slash_notMem, hmem.2.1, hmem.2.2⟩
      · -- the directory that was made is the one that the names say
        have hdirectories : ∀ m ∈ rootNames c.root ++ key (parentPath relative), m ≠ [] ∧ '/' ∉ m := fun m hm =>
          mem_rootNames_append (fun m hm => hthumbs m (List.mem_append_left _ hm)) hm
        have hdir : join (parentPath full) thumbs =
            ofNames (isAbsolute c.root) (rootNames c.root ++ (key (parentPath relative) ++ [thumbs])) := by
          rw [htarget.full_eq, ← List.append_assoc, parentPath_ofNames _ hdirectories (slash_notMem_filename relative),
            join_ofNames _ hdirectories (by decide), List.append_assoc]
        have hall' : ∀ m ∈ rootNames c.root ++ (key (parentPath relative) ++ [thumbs]), m ≠ [] ∧ '/' ∉ m := fun _ =>
          mem_rootNames_append hthumbs
        rw [hdir] at hmade
        have hnames : names (ofNames (isAbsolute c.root) _) = _ := names_ofNames hall'
        obtain ⟨r', d', -, -, hd', k, -, hwalks⟩ :=
          ensureDirectoryInsideRoot_ok hbefore.cwd ((components_ofNames hall').trans hnames.symm) hmade
        rw [hnames] at hwalks
        obtain ⟨_, _, hroot⟩ := hrooted.walks htarget.endsInName hthumbs
        exact hrooted.eq_of_walks hthumbs hroot hwalks ▸ hd'

/-- Where the worker writes. -/
theorem Queued.leads {job : ThumbnailJob} (hjob : Queued c job ns n) (h : Rooted c r t)
    (hdir : t.node (r ++ ns) = some .directory) : t.LeadsInto c.cwd job.outPath (r ++ ns) n := by
  have hdirectories : ∀ m ∈ ns, IsName m := fun m hm => hjob.isName m (List.mem_append_left _ hm)
  obtain ⟨k, hk, hwalks⟩ := h.walks hjob.endsInName hdirectories
  have hbelow := walks_of_node h.links (dotdot_notMem hdirectories) (getLast?_ne_dot hdirectories)
    (by rw [filter_eq_self hdirectories, hdir]; rfl)
  rw [filter_eq_self hdirectories] at hbelow
  rw [hjob.outPath_eq, ← List.append_assoc]
  exact leadsInto_ofNames (fun _ => mem_rootNames_append hdirectories) (hjob.isName n (by simp)) hdir hk
    (hwalks.append hbelow)

theorem writeThumbnail_stepped {job : ThumbnailJob} {picture : Bytes} (h : Rooted c r t) (hjob : Queued c job ns n)
    (hdir : t.node (r ++ ns) = some .directory) (hwrite : c.writeThumbnail disk t job picture = some t') :
    Stepped c r t t' (.picture job picture) ∧ Keeps t t' := by
  have hlink : t.isLink (r ++ ns ++ [n]) = false := h.links _ (by rw [List.append_assoc]; exact List.prefix_append ..)
  unfold writeThumbnail at hwrite
  split_ifs at hwrite
  rw [(hjob.leads h hdir).write_eq hlink] at hwrite
  obtain ⟨-, -, hnodir, hnode⟩ := put_eq_some hwrite
  have hkeeps : Keeps t t' := by
    intro p hp
    rw [hnode, if_neg]
    rintro rfl
    rcases hp with hp | hp
    · exact hnodir (isDir_iff.1 hp)
    · rw [hlink] at hp
      cases hp
  refine ⟨⟨h.keeps hkeeps fun p hp => ?_, fun p hp => ?_⟩, hkeeps⟩
  · unfold FileTree.isLink
    rw [hnode]
    split_ifs
    · rfl
    · exact h.links p hp
  · have hkey : (names job.outPath).drop (rootNames c.root).length = ns ++ [n] := by
      rw [hjob.outPath_eq, names_ofNames fun _ => mem_rootNames_append hjob.isName, List.drop_left]
    unfold perform effect FileTree.content
    dsimp only
    rw [hnode, hkey, Function.update_apply, List.append_assoc]
    simp only [List.append_cancel_left_eq]
    split_ifs <;> rfl

end Upload

/-! ### When an upload is accepted -/

section Acceptance
variable {c : FileServingController} {disk : DiskFaults} {r d : Place} {t t' : FileTree Bytes}
  {full relative : List Char} {n : List Char} {ns : Place} {form : UploadForm} {req : UploadRequest} {body : Bytes}

/-- The directories of the root are there. -/
theorem Rooted.createDirectories_eq (h : Rooted c r t) (hends : EndsInName c.root) (hns : ∀ m ∈ ns, IsName m)
    (refused : Place → Option Failure) :
    ∃ k ≤ maxLinks, ∃ p, t.Walks k p (rootNames c.root) r ∧
      t.createDirectories refused c.cwd (ofNames (isAbsolute c.root) (rootNames c.root ++ ns)) =
        t.createEach refused p (rootNames c.root) ns := by
  obtain ⟨k, hk, hwalks⟩ := h.walks hends hns
  refine ⟨k, hk, _, hwalks, ?_⟩
  unfold createDirectories
  rw [if_neg (h.path_ne_nil hends hns), names_ofNames fun _ => mem_rootNames_append hns]
  exact createEach_append hwalks hk h.dir

theorem createDirectories_of_ensure {root dir : List Char}
    (h : ensureDirectoryInsideRoot t disk c.cwd root dir = (t', .ok ())) :
    t.createDirectories disk.refused c.cwd dir = (t', none) := by
  unfold ensureDirectoryInsideRoot at h
  split at h
  · cases h
  · rename_i hmade
    split at h
    · split_ifs at h
      · rw [hmade, (Prod.mk.inj h).1]
      · cases h
    · cases h

/-- With nothing refused, only a file is in the way of a directory below the root. -/
theorem Rooted.ensureDirectory_iff (h : Rooted c r t) (hends : EndsInName c.root) (hns : ∀ m ∈ ns, IsName m)
    (hrefused : ∀ p, disk.refused p = none) :
    (∃ t', ensureDirectoryInsideRoot t disk c.cwd c.root (ofNames (isAbsolute c.root) (rootNames c.root ++ ns)) =
        (t', .ok ())) ↔ ∀ ms, ms <+: ns → t.content (r ++ ms) = none := by
  have hall : ∀ m ∈ rootNames c.root ++ ns, m ≠ [] ∧ '/' ∉ m := fun _ => mem_rootNames_append hns
  obtain ⟨k, hk, p, hwalks, hcreate⟩ := h.createDirectories_eq hends hns disk.refused
  rw [← createEach_eq_none_iff hwalks hk h.dir h.links hns hrefused, ← hcreate]
  constructor
  · rintro ⟨t', hok⟩
    rw [createDirectories_of_ensure hok]
  · intro hnone
    obtain ⟨t₁, hmade⟩ : ∃ t₁, t.createDirectories disk.refused c.cwd
        (ofNames (isAbsolute c.root) (rootNames c.root ++ ns)) = (t₁, none) := ⟨_, Prod.ext rfl hnone⟩
    have hgrows := createDirectories_grows t disk.refused c.cwd (ofNames (isAbsolute c.root) (rootNames c.root ++ ns))
    rw [hmade] at hgrows
    have h' := h.grows hgrows
    obtain ⟨hne, j, hj, q, hq, -⟩ := createDirectories_ok h.cwd hmade
    rw [names_ofNames hall] at hq
    have hcanonical : t₁.canonical c.cwd (ofNames (isAbsolute c.root) (rootNames c.root ++ ns)) = some q := by
      refine (canonical_eq_some hne).2 ⟨j, hj, ?_⟩
      rw [components_ofNames hall]
      exact hq
    obtain ⟨_, _, hroot⟩ := h'.walks hends hns
    have hinside := (elements_isPrefix_iff h'.cwd h'.root hcanonical).2
      (h'.eq_of_walks hns hroot hq ▸ List.prefix_append r ns)
    refine ⟨t₁, ?_⟩
    unfold ensureDirectoryInsideRoot
    simp only [hmade, filesOf, h'.root, hcanonical, Option.map_some, if_pos hinside]

/-- No other directories are made. -/
theorem Rooted.node_ensureDirectory {p : Place} (h : Rooted c r t) (hends : EndsInName c.root)
    (hns : ∀ m ∈ ns, IsName m)
    (hmade : ensureDirectoryInsideRoot t disk c.cwd c.root (ofNames (isAbsolute c.root) (rootNames c.root ++ ns)) =
      (t', .ok ())) (hp : ¬p <+: r ++ ns) : t'.node p = t.node p := by
  obtain ⟨k, hk, s, hwalks, hcreate⟩ := h.createDirectories_eq hends hns disk.refused
  rw [createDirectories_of_ensure hmade] at hcreate
  calc t'.node p = (t.createEach disk.refused s (rootNames c.root) ns).1.node p := by rw [← hcreate]
    _ = t.node p := node_createEach hwalks hk h.dir h.links hns hp

theorem Finalised.ok_iff {result : FileTree Bytes × Except String Unit} (h : Finalised disk t d n body result)
    (hopens : disk.opens = true) (hwrites : disk.writeFails = none) (hrenames : disk.renameFails = none) :
    result.2 = .ok () ↔ t.node (d ++ [n]) ≠ some .directory ∧ t.node (d ++ [n ++ part]) ≠ some .directory := by
  cases h with
  | done hdir hpart _ _ =>
    refine iff_of_true rfl ⟨fun heq => ?_, fun heq => ?_⟩
    · rw [isDir_iff.2 heq] at hdir
      cases hdir
    · rw [isDir_iff.2 heq] at hpart
      cases hpart
  | failed _ _ hreason =>
    refine iff_of_false nofun fun hfree => ?_
    exact (hreason hopens hwrites hrenames).elim hfree.1 hfree.2

/-- Nothing is in the way of a file: no file above it, and no directory in its place or in that of its `.part` file. -/
structure Free (t : FileTree Bytes) (r ns : Place) (n : List Char) : Prop where
  above : ∀ ms, ms <+: ns → t.content (r ++ ms) = none
  target : t.node (r ++ ns ++ [n]) ≠ some .directory
  part : t.node (r ++ ns ++ [n ++ part]) ≠ some .directory

/-- Exactly when an upload is accepted, if nothing fails. -/
theorem uploadFile_ok_iff (h : Rooted c r t) (hdisk : disk.Sound) (haccepted : Accepted c req form full relative) :
    (∃ answer, (c.uploadFile disk t req).response = .ok answer) ↔
      (parseBool form.overwrite false = true ∨ t.node (r ++ key relative) = none) ∧
        Free t r (key (parentPath relative)) (FsPath.filename relative) := by
  rcases uploadFile_cases h.cwd req with ⟨_, _, hnone⟩ | ⟨form', full', relative', haccepted', hplaced⟩
  · exact absurd haccepted (hnone form full relative)
  obtain ⟨rfl, rfl, rfl⟩ := haccepted'.unique haccepted
  have htarget := haccepted.exists_target h.root_ne_nil
  have hnames : ∀ m ∈ key (parentPath relative), IsName m := fun m hm => htarget.isName m (List.mem_append_left _ hm)
  have hpasses : c.Conflicts t form full = false ↔
      parseBool form.overwrite false = true ∨ t.node (r ++ key relative) = none := by
    unfold Conflicts
    rw [htarget.canonical_eq h, ← htarget.key_eq]
    cases parseBool form.overwrite false <;> cases t.node (r ++ key relative) <;> simp
  have hparent : parentPath full = ofNames (isAbsolute c.root) (rootNames c.root ++ key (parentPath relative)) := by
    rw [htarget.full_eq, ← List.append_assoc,
      parentPath_ofNames _ (fun _ => mem_rootNames_append hnames) (slash_notMem_filename relative)]
  have hmakes := h.ensureDirectory_iff htarget.endsInName hnames hdisk.refused
  rw [← hparent] at hmakes
  -- the file is put in its place if no directory is there, which none of those is that were made
  have hfinalises : ∀ {t₁ d result}, Prepared c disk t t₁ full d (FsPath.filename relative) →
      c.finalise disk t₁ full form.file = result →
      (result.2 = .ok () ↔ t.node (r ++ key (parentPath relative) ++ [FsPath.filename relative]) ≠ some .directory ∧
        t.node (r ++ key (parentPath relative) ++ [FsPath.filename relative ++ part]) ≠ some .directory) := by
    intro t₁ d result hprepared hresult
    obtain ⟨rfl, hall⟩ := hprepared.finalised disk h htarget
    have hmade := hprepared.made
    rw [hparent] at hmade
    have hnode : ∀ m, t₁.node (r ++ key (parentPath relative) ++ [m]) =
        t.node (r ++ key (parentPath relative) ++ [m]) := fun m =>
      h.node_ensureDirectory htarget.endsInName hnames hmade fun hprefix => by
        have hlength := hprefix.length_le
        simp only [List.length_append, List.length_singleton] at hlength
        omega
    rw [← hresult, (hall form.file).ok_iff hdisk.opens hdisk.writes hdisk.renames, hnode, hnode]
  generalize c.uploadFile disk t req = outcome at hplaced ⊢
  cases hplaced with
  | conflict hconflict _ =>
    refine iff_of_false nofun fun hfree => ?_
    rw [hpasses.2 hfree.1] at hconflict
    cases hconflict
  | unprepared _ hmade _ =>
    refine iff_of_false nofun fun hfree => ?_
    obtain ⟨t', hok⟩ := hmakes.2 hfree.2.above
    rw [hmade] at hok
    cases hok
  | unfinished _ hprepared hfinalise =>
    refine iff_of_false nofun fun hfree => ?_
    cases (hfinalises hprepared hfinalise).2 ⟨hfree.2.target, hfree.2.part⟩
  | placed hpass hprepared hfinalise _ _ _ _ =>
    obtain ⟨htarget', hpart⟩ := (hfinalises hprepared hfinalise).1 rfl
    exact iff_of_true ⟨_, rfl⟩ ⟨hpasses.1 hpass, hmakes.1 ⟨_, hprepared.made⟩, htarget', hpart⟩

end Acceptance

/-! ### What is served -/

section Serve
variable {c : FileServingController} {disk : DiskFaults} {r : Place} {t : FileTree Bytes}
  {store : Place → Option Bytes} {full relative decoded filepath path : List Char} {ns : Place}

theorem Rooted.resolve_eq (h : Rooted c r t) (hvalid : validatePath filepath = .ok decoded)
    (hrelative : isAbsolute decoded = false) (husd : isUsdFilename (FsPath.filename decoded) = true) :
    resolve (filesOf t c.cwd) c.root filepath =
      if (t.node (r ++ key decoded)).isSome then .ok (join c.root decoded) else .error .notFound := by
  have hcanonical := h.canonical_join hrelative (named_of_isUsdFilename husd) (dotdot_notMem_of_valid hvalid)
  unfold resolve
  simp only [hvalid, bind, Except.bind, filesOf, h.root, Option.map_some]
  by_cases hsome : (t.node (r ++ key decoded)).isSome
  · rw [if_pos hsome] at hcanonical
    have hinside := (elements_isPrefix_iff h.cwd h.root hcanonical).2 (List.prefix_append r (key decoded))
    simp only [hcanonical, Option.map_some, Option.isSome_some, hinside, filename_join hrelative, husd,
      not_true_eq_false, if_false, hsome, if_true]
  · rw [if_neg hsome] at hcanonical ⊢
    simp only [hcanonical, Option.map_none]

theorem readAll_eq (hopens : disk.opens = true) {p : Place} (hp : t.canonical c.cwd path = some p) {name : List Char}
    {content : Bytes} : c.readAll disk t path = .content name content ↔
      name = FsPath.filename path ∧ t.content p = some content := by
  unfold readAll
  rw [if_neg (by simp [hopens]), hp]
  dsimp only
  cases t.content p with
  | none => simp
  | some bytes =>
    simp only [Served.content.injEq, Option.some.injEq]
    constructor <;> rintro ⟨rfl, rfl⟩ <;> exact ⟨rfl, rfl⟩

theorem content_eq_none {p : Place} (h : ¬(t.node p).isSome) : t.content p = none := by
  rw [Bool.not_eq_true, Option.isSome_eq_false_iff, Option.isNone_iff_eq_none] at h
  unfold FileTree.content
  rw [h]

theorem visible_key (h : Named relative) (hpart : ¬part <:+ FsPath.filename relative) : Visible (key relative) := by
  rw [key_eq h]
  exact visible_concat hpart

theorem serveFile_justified (h : Rooted c r t) (hshows : Shows r t store) (hopens : disk.opens = true)
    (filepath : List Char) : Justified c store (.download filepath (c.serveFile disk t filepath)) := by
  constructor
  · intro name content hserved
    unfold serveFile at hserved
    split at hserved
    · cases hserved
    · rename_i hresolved
      obtain ⟨decoded, hvalid, rfl, -⟩ := resolve_ok hresolved
      refine ⟨decoded, hvalid, ?_⟩
      cases habsolute : isAbsolute decoded with
      | false =>
        have husd := (resolve_ok hresolved).choose_spec.2.2
        rwa [filename_join habsolute] at husd
      | true =>
        have husd := (resolve_ok hresolved).choose_spec.2.2
        rwa [show join c.root decoded = decoded by simp [join, habsolute]] at husd
  · intro decoded hvalid hrelative husd name content
    have hnamed : Named decoded := named_of_isUsdFilename husd
    have hcanonical := h.canonical_join hrelative hnamed (dotdot_notMem_of_valid hvalid)
    rw [← hshows _ (visible_key hnamed (not_part_of_usd husd))]
    unfold serveFile
    rw [h.resolve_eq hvalid hrelative husd]
    split_ifs at hcanonical ⊢ with hsome
    · dsimp only
      rw [readAll_eq hopens hcanonical, filename_join hrelative]
    · simp [content_eq_none hsome]

theorem serveThumbnail_justified (h : Rooted c r t) (hshows : Shows r t store) (hopens : disk.opens = true)
    (usdFilepath : List Char) : Justified c store (.thumbnail usdFilepath (c.serveThumbnail disk t usdFilepath)) := by
  intro full relative hresolved hrelative name content
  obtain ⟨decoded, hvalid, -, hanchor⟩ := resolveThumbnailPath_ok hresolved
  obtain rfl := (anchor_ok hanchor).1
  have hname := thumbName_stem c.thumbnails decoded
  generalize hrel : join (join (parentPath decoded) thumbs) (stem decoded ++ extension c.thumbnails) = relative at *
  have hfilename : FsPath.filename relative = stem decoded ++ extension c.thumbnails :=
    hrel ▸ filename_join_thumbs hname.slash_notMem
  have hnamed : Named relative := hrel ▸ hname.named
  have hpart : ¬part <:+ FsPath.filename relative := by
    rw [hfilename]
    cases c.thumbnails with
    | none => exact not_part_of_extension .placeholder _
    | some generator => exact not_part_of_extension generator _
  have hfull := anchor_full hanchor hrelative hnamed
  have hcanonical := h.canonical_full (endsInName_of_anchor h.root_ne_nil hanchor hrelative hnamed)
    fun _ => isName_of_key (dotdot_notMem_names hanchor)
  have hfullname : FsPath.filename full = FsPath.filename relative := by
    rw [hfull, key_eq hnamed, ← List.append_assoc]
    exact filename_ofNames _ _ (slash_notMem_filename relative)
  rw [← hfull] at hcanonical
  rw [← hshows _ (visible_key hnamed hpart)]
  unfold serveThumbnail FileTree.read
  rw [hresolved]
  dsimp only
  split_ifs at hcanonical with hsome
  · rw [hcanonical]
    dsimp only [Option.bind]
    split_ifs with hcontent
    · rw [readAll_eq hopens hcanonical, hfullname]
    · rw [Bool.not_eq_true, Option.isSome_eq_false_iff, Option.isNone_iff_eq_none] at hcontent
      simp [hcontent]
  · rw [hcanonical]
    simp [content_eq_none hsome]

theorem readAll_ne_notFound (c : FileServingController) (disk : DiskFaults) (t : FileTree Bytes) (path : List Char) :
    c.readAll disk t path ≠ .notFound := by
  unfold readAll
  split
  · exact Served.noConfusion
  · split
    · exact Served.noConfusion
    · split <;> exact Served.noConfusion

/-- The request without the body agrees with the one for it. -/
theorem thumbnailExists_iff (c : FileServingController) (disk : DiskFaults) (t : FileTree Bytes)
    (usdFilepath : List Char) :
    c.thumbnailExists t usdFilepath = true ↔ c.serveThumbnail disk t usdFilepath ≠ .notFound := by
  unfold thumbnailExists serveThumbnail
  cases resolveThumbnailPath c.root c.thumbnails usdFilepath with
  | error _ => simp
  | ok target =>
    dsimp only
    split_ifs with hthere
    · exact iff_of_true hthere (c.readAll_ne_notFound disk t target.1)
    · exact iff_of_false hthere fun hne => hne rfl

/-! ### The list -/

theorem relativePlace_append (r ns : Place) : relativePlace r (r ++ ns) = ns := by
  induction r with
  | nil => cases ns <;> rfl
  | cons n r ih =>
    rw [List.cons_append, relativePlace, if_pos rfl]
    exact ih

theorem foldl_join (hns : ∀ n ∈ ns, IsName n) (root : List Char) :
    names (ns.foldl join root) = names root ++ ns ∧ isAbsolute (ns.foldl join root) = isAbsolute root := by
  induction ns using List.reverseRecOn with
  | nil => simp
  | append_singleton ns n ih =>
    obtain ⟨hnames, habsolute⟩ := ih fun m hm => hns m (List.mem_append_left _ hm)
    have hn := hns n (by simp)
    have hrelative := isAbsolute_of_notMem hn.2.1
    rw [List.foldl_append, List.foldl_cons, List.foldl_nil, names_join hrelative, isAbsolute_join hrelative, hnames,
      habsolute, names_eq_singleton hn.2.1 hn.1, List.append_assoc]
    exact ⟨rfl, rfl⟩

theorem filename_foldl_join {n : List Char} (hn : '/' ∉ n) (root : List Char) :
    FsPath.filename ((ns ++ [n]).foldl join root) = n := by
  rw [List.foldl_append, List.foldl_cons, List.foldl_nil, filename_join (isAbsolute_of_notMem hn),
    filename_eq_self hn]

/-- What the iterator comes to has the path of its names after the root. -/
theorem Rooted.canonical_entry (h : Rooted c r t) {n : List Char} (hns : ∀ m ∈ ns ++ [n], IsName m)
    (hsome : (t.node (r ++ (ns ++ [n]))).isSome) :
    t.canonical c.cwd ((ns ++ [n]).foldl join c.root) = some (r ++ (ns ++ [n])) := by
  obtain ⟨hnames, habsolute⟩ := foldl_join hns c.root
  have hn := hns n (by simp)
  have hfilename : FsPath.filename ((ns ++ [n]).foldl join c.root) = n := filename_foldl_join hn.2.1 c.root
  have hne : FsPath.filename ((ns ++ [n]).foldl join c.root) ≠ [] := by
    rw [hfilename]
    exact hn.1
  obtain ⟨k, hk, hwalks⟩ := walks_names_of_canonical h.root
  have hstart : start c.cwd ((ns ++ [n]).foldl join c.root) = start c.cwd c.root := by
    unfold start
    rw [habsolute]
  have hcanonical := canonical_below h.cwd ((components_of_filename hne).trans hnames) (hstart ▸ hwalks) hk h.links
    (dotdot_notMem hns) (getLast?_ne_dot hns) fun hnil => hne (by rw [hnil]; rfl)
  rwa [filter_eq_self hns, if_pos hsome] at hcanonical

theorem listEntry_eq_some (h : Rooted c r t) {nameFilter extFilter : List Char} {p : Place} {entry : FileEntry}
    (hp : (t.node p).isSome) : c.listEntry t nameFilter extFilter r p = some entry ↔
      ∃ ns n content, p = r ++ (ns ++ [n]) ∧ t.content p = some content ∧ isUsdFilename n = true ∧
        (nameFilter = [] ∨ nameFilter <:+: n) ∧ (extFilter = [] ∨ ('.' :: extFilter) <:+ n) ∧
        entry = ⟨ofNames false (ns ++ [n]), n, ofNames false ns, content.length⟩ := by
  by_cases hbelow : r <+: p ∧ p ≠ r
  · obtain ⟨⟨ms, rfl⟩, hne⟩ := hbelow
    have hms : ms ≠ [] := by
      rintro rfl
      exact hne (List.append_nil r)
    obtain ⟨ns, n, rfl⟩ := (List.eq_nil_or_concat' ms).resolve_left hms
    have hns : ∀ m ∈ ns ++ [n], IsName m := fun m hm => isName_of_mem hp (List.mem_append_right _ hm)
    have hn := hns n (by simp)
    have hparent : parentPath (ofNames false (ns ++ [n])) = ofNames false ns :=
      parentPath_ofNames false (fun m hm => ⟨(hns m (List.mem_append_left _ hm)).1,
        (hns m (List.mem_append_left _ hm)).2.1⟩) hn.2.1
    unfold listEntry
    dsimp only
    rw [if_neg (by simp), List.drop_left, h.canonical_entry hns hp, filename_foldl_join hn.2.1]
    dsimp only
    cases hcontent : t.content (r ++ (ns ++ [n])) with
    | none => simp
    | some content =>
      dsimp only
      rw [relativePlace_append, hparent]
      constructor
      · intro heq
        split_ifs at heq with husd hname hext
        refine ⟨ns, n, content, rfl, rfl, husd, ?_, ?_, (Option.some.inj heq).symm⟩
        · tauto
        · tauto
      · rintro ⟨ns', n', content', heq, hcontent', husd, hname, hext, rfl⟩
        obtain ⟨rfl, hlast⟩ := List.append_inj' (List.append_cancel_left heq) rfl
        obtain rfl := List.singleton_inj.1 hlast
        obtain rfl := Option.some.inj hcontent'
        rw [if_neg (not_not.2 husd), if_neg (by tauto), if_neg (by tauto)]
  · have hskipped : ¬r <+: p ∨ p = r := by tauto
    unfold listEntry
    dsimp only
    rw [if_pos hskipped]
    refine iff_of_false nofun ?_
    rintro ⟨ns, n, content, rfl, -⟩
    rcases hskipped with hout | heq
    · exact hout (List.prefix_append ..)
    · simp at heq

theorem getFileList_justified (h : Rooted c r t) (hshows : Shows r t store) (nameFilter extFilter : List Char) :
    Justified c store (.list nameFilter extFilter (c.getFileList t nameFilter extFilter)) := by
  unfold getFileList
  rw [h.root]
  dsimp only
  rw [if_pos (isDir_iff.2 h.dir)]
  refine ⟨_, rfl, fun entry => ?_⟩
  rw [List.mem_filterMap]
  constructor
  · rintro ⟨p, hp, hentry⟩
    obtain ⟨ns, n, content, rfl, hcontent, husd, hname, hext, heq⟩ :=
      (listEntry_eq_some h (mem_entries.1 hp)).1 hentry
    rw [hshows _ (visible_concat (not_part_of_usd husd))] at hcontent
    exact ⟨ns, n, content, hcontent, husd, hname, hext, heq⟩
  · rintro ⟨ns, n, content, hcontent, husd, hname, hext, heq⟩
    rw [← hshows _ (visible_concat (not_part_of_usd husd))] at hcontent
    have hsome := isSome_of_content hcontent
    exact ⟨r ++ (ns ++ [n]), mem_entries.2 hsome,
      (listEntry_eq_some h hsome).2 ⟨ns, n, content, rfl, hcontent, husd, hname, hext, heq⟩⟩

end Serve

/-! ### Runs -/

structure FileServer where
  files : FileTree Bytes
  jobs : List ThumbnailJob := []
  log : List FileEvent := []

inductive Step (c : FileServingController) (a : FileServer) : FileServer → Prop where
  | upload (disk : DiskFaults) (req : UploadRequest) : disk.closeFails = none →
      Step c a ⟨(c.uploadFile disk a.files req).files, a.jobs ++ (c.uploadFile disk a.files req).job.toList,
        a.log ++ [.upload req (c.uploadFile disk a.files req).response]⟩
  | download (disk : DiskFaults) (filepath : List Char) : disk.opens = true →
      Step c a { a with log := a.log ++ [.download filepath (c.serveFile disk a.files filepath)] }
  | thumbnail (disk : DiskFaults) (usdFilepath : List Char) : disk.opens = true →
      Step c a { a with log := a.log ++ [.thumbnail usdFilepath (c.serveThumbnail disk a.files usdFilepath)] }
  | list (nameFilter extFilter : List Char) :
      Step c a { a with log := a.log ++ [.list nameFilter extFilter (c.getFileList a.files nameFilter extFilter)] }
  -- any number of times, with whatever the generator makes
  | picture (disk : DiskFaults) {job : ThumbnailJob} {picture : Bytes} {t : FileTree Bytes} : job ∈ a.jobs →
      c.writeThumbnail disk a.files job picture = some t →
      Step c a { a with files := t, log := a.log ++ [.picture job picture] }

/-- The server has started: the root is there, and there are no links below it. -/
structure Start (c : FileServingController) (r : Place) (initial : Place → Option Bytes) (a : FileServer) : Prop where
  rooted : Rooted c r a.files
  shows : ∀ ns, a.files.content (r ++ ns) = initial ns
  jobs_eq : a.jobs = []
  log_eq : a.log = []

def system (c : FileServingController) (r : Place) (initial : Place → Option Bytes) : Lts.System FileServer where
  init := Start c r initial
  step := Step c

structure Inv (c : FileServingController) (r : Place) (initial : Place → Option Bytes) (a : FileServer) : Prop where
  rooted : Rooted c r a.files
  shows : Shows r a.files (stored c.root initial a.log)
  queued : ∀ job ∈ a.jobs, ∃ ns n, Queued c job ns n ∧ a.files.node (r ++ ns) = some .directory
  justified : ∀ before event after, a.log = before ++ event :: after →
    Justified c (stored c.root initial before) event

section Run
variable {c : FileServingController} {disk : DiskFaults} {r : Place} {initial : Place → Option Bytes}
  {a a' : FileServer}

theorem stored_concat (root : List Char) (initial : Place → Option Bytes) (log : List FileEvent) (event : FileEvent) :
    stored root initial (log ++ [event]) = perform root (stored root initial log) event := by
  unfold stored
  rw [List.foldl_append]
  rfl

theorem Inv.justified_concat (h : Inv c r initial a) {event : FileEvent}
    (hevent : Justified c (stored c.root initial a.log) event) (before : List FileEvent) (event' : FileEvent)
    (after : List FileEvent) (hlog : a.log ++ [event] = before ++ event' :: after) :
    Justified c (stored c.root initial before) event' := by
  rcases List.eq_nil_or_concat' after with rfl | ⟨after, last, rfl⟩
  · obtain ⟨rfl, heq⟩ := List.append_inj' hlog rfl
    exact List.singleton_inj.1 heq ▸ hevent
  · rw [← List.cons_append, ← List.append_assoc] at hlog
    exact h.justified before event' after (List.append_inj' hlog rfl).1

theorem Stepped.shows {t t' : FileTree Bytes} {event : FileEvent} {log : List FileEvent} (h : Stepped c r t t' event)
    (hshows : Shows r t (stored c.root initial log)) : Shows r t' (stored c.root initial (log ++ [event])) := by
  intro ns hns
  rw [h.content ns hns, stored_concat]
  unfold perform
  cases effect c.root event with
  | none => exact hshows ns hns
  | some change =>
    dsimp only
    rw [Function.update_apply, Function.update_apply, hshows ns hns]

/-- A request that only reads. -/
theorem Inv.read (h : Inv c r initial a) {event : FileEvent} (hnone : effect c.root event = none)
    (hevent : Justified c (stored c.root initial a.log) event) :
    Inv c r initial { a with log := a.log ++ [event] } where
  rooted := h.rooted
  shows := (Stepped.of_grows h.rooted (.refl a.files) hnone).shows h.shows
  queued := h.queued
  justified := h.justified_concat hevent

theorem Inv.step (h : Inv c r initial a) (hstep : Step c a a') : Inv c r initial a' := by
  cases hstep with
  | upload disk req hcloses =>
    have hstepped := uploadFile_stepped h.rooted hcloses req
    refine ⟨hstepped.rooted, hstepped.shows h.shows, fun job hjob => ?_,
      h.justified_concat (uploadFile_justified h.rooted h.shows hcloses req)⟩
    rcases List.mem_append.1 hjob with hjob | hjob
    · obtain ⟨ns, n, hqueued, hdir⟩ := h.queued job hjob
      exact ⟨ns, n, hqueued, (uploadFile_keeps h.rooted req).directory hdir⟩
    · exact uploadFile_queued h.rooted req job (by simpa using hjob)
  | download _ filepath hopens => exact h.read rfl (serveFile_justified h.rooted h.shows hopens filepath)
  | thumbnail _ usdFilepath hopens => exact h.read rfl (serveThumbnail_justified h.rooted h.shows hopens usdFilepath)
  | list nameFilter extFilter => exact h.read rfl (getFileList_justified h.rooted h.shows nameFilter extFilter)
  | picture _ hjob hwrite =>
    obtain ⟨ns, n, hqueued, hdir⟩ := h.queued _ hjob
    obtain ⟨hstepped, hkeeps⟩ := writeThumbnail_stepped h.rooted hqueued hdir hwrite
    refine ⟨hstepped.rooted, hstepped.shows h.shows, fun job hjob => ?_, h.justified_concat trivial⟩
    obtain ⟨ns, n, hqueued, hdir⟩ := h.queued job hjob
    exact ⟨ns, n, hqueued, hkeeps.directory hdir⟩

theorem Start.inv (h : Start c r initial a) : Inv c r initial a where
  rooted := h.rooted
  shows ns _ := by
    rw [h.log_eq]
    exact h.shows ns
  queued job hjob := by
    rw [h.jobs_eq] at hjob
    exact absurd hjob List.not_mem_nil
  justified before event after hlog := by
    rw [h.log_eq] at hlog
    exact absurd hlog.symm (by simp)

theorem inv_of_reachable (h : (system c r initial).Reachable a) : Inv c r initial a :=
  Lts.System.invariant (fun _ => Start.inv) (fun _ _ _ hinv => hinv.step) h

/-- In every run the files below the root are what the accepted uploads and the worker have left last, and every
answer is right for what was stored when it was given. -/
theorem shows_of_reachable (h : (system c r initial).Reachable a) :
    (∀ ns, Visible ns → a.files.content (r ++ ns) = stored c.root initial a.log ns) ∧
      ∀ before event after, a.log = before ++ event :: after →
        Justified c (stored c.root initial before) event := by
  have hinv := inv_of_reachable h
  exact ⟨hinv.shows, hinv.justified⟩

/-- When nothing fails, a well-formed upload is accepted if and only if nothing is in the way of its file, which every
spelling of its path then gives back. -/
theorem accepted_iff_of_reachable (h : (system c r initial).Reachable a) (hdisk : disk.Sound) (req : UploadRequest) :
    ((∃ answer, (c.uploadFile disk a.files req).response = .ok answer) ↔
      ∃ form full relative, Accepted c req form full relative ∧
        (parseBool form.overwrite false = true ∨ a.files.node (r ++ key relative) = none) ∧
        Free a.files r (key (parentPath relative)) (FsPath.filename relative)) ∧
    ∀ answer form full relative, (c.uploadFile disk a.files req).response = .ok answer →
      Accepted c req form full relative → ∀ filepath decoded, validatePath filepath = .ok decoded →
        isAbsolute decoded = false → isUsdFilename (FsPath.filename decoded) = true → key decoded = key relative →
        c.serveFile disk (c.uploadFile disk a.files req).files filepath =
          .content (FsPath.filename decoded) form.file := by
  have hinv := inv_of_reachable h
  constructor
  · constructor
    · rintro ⟨answer, hanswer⟩
      obtain ⟨haccepts, -⟩ := uploadFile_justified (c := c) hinv.rooted hinv.shows hdisk.closes req
      obtain ⟨form, full, relative, haccepted, -⟩ := haccepts answer hanswer
      exact ⟨form, full, relative, haccepted, (uploadFile_ok_iff hinv.rooted hdisk haccepted).1 ⟨answer, hanswer⟩⟩
    · rintro ⟨form, full, relative, haccepted, hfree⟩
      exact (uploadFile_ok_iff hinv.rooted hdisk haccepted).2 hfree
  · intro answer form full relative hanswer haccepted filepath decoded hvalid hrelative husd hkey
    have hinv' := hinv.step (.upload disk req hdisk.closes)
    have hserved := (serveFile_justified hinv'.rooted hinv'.shows hdisk.opens filepath).2 decoded hvalid hrelative husd
    refine (hserved _ _).2 ⟨rfl, ?_⟩
    rw [stored_concat, hanswer, hkey]
    simp only [perform, effect_upload haccepted, Function.update_self]

end Run

/-! ### One upload and one download -/

def emptyRoot : FileTree Bytes := (FileTree.empty.put [] "srv".toList .directory).getD .empty

theorem emptyRoot_start : Start linkedServer ["srv".toList] (fun _ => none) ⟨emptyRoot, [], []⟩ := by
  have hnode : ∀ p, emptyRoot.node p = none ∨ emptyRoot.node p = some .directory := by
    intro p
    obtain ⟨t, ht⟩ : ∃ t, FileTree.empty.put [] "srv".toList .directory = some t :=
      exists_put (FileTree.node_nil _) (by decide) (by decide) (Node.directory : Node Bytes)
    have hroot : emptyRoot = t := by
      unfold emptyRoot
      rw [ht]
      rfl
    rw [hroot, (put_eq_some ht).2.2.2]
    split_ifs
    · exact .inr rfl
    · by_cases hp : p = []
      · exact .inr (hp ▸ FileTree.node_nil _)
      · refine .inl ?_
        rw [FileTree.node_empty, if_neg hp]
  refine ⟨⟨by decide, by decide, by decide, by decide, fun p _ => ?_⟩, fun ns => ?_, rfl, rfl⟩
  · unfold FileTree.isLink
    rcases hnode p with heq | heq <;> rw [heq] <;> rfl
  · unfold FileTree.content
    rcases hnode (["srv".toList] ++ ns) with heq | heq <;> rw [heq]

theorem shows_after_upload : ∃ a, (system linkedServer ["srv".toList] fun _ => none).Reachable a ∧ a.log.length = 2 ∧
    (∀ ns, Visible ns → a.files.content (["srv".toList] ++ ns) =
      stored linkedServer.root (fun _ => none) a.log ns) ∧
    ∀ before event after, a.log = before ++ event :: after →
      Justified linkedServer (stored linkedServer.root (fun _ => none) before) event := by
  have h0 := Lts.System.Reachable.init (S := system linkedServer ["srv".toList] fun _ => none) emptyRoot_start
  have h1 := h0.step (.upload {} (uploadTo "a//b" "x.usda") rfl)
  have h2 := h1.step (.download {} "a/./b/x.usda".toList rfl)
  exact ⟨_, h2, rfl, shows_of_reachable h2⟩

theorem sound_default : ({} : DiskFaults).Sound := ⟨fun _ => rfl, rfl, rfl, rfl, rfl⟩

theorem accepted_first_upload :
    (∃ answer, (linkedServer.uploadFile {} emptyRoot (uploadTo "a//b" "x.usda")).response = .ok answer) ↔
      ∃ form full relative, Accepted linkedServer (uploadTo "a//b" "x.usda") form full relative ∧
        (parseBool form.overwrite false = true ∨ emptyRoot.node (["srv".toList] ++ key relative) = none) ∧
        Free emptyRoot ["srv".toList] (key (parentPath relative)) (FsPath.filename relative) :=
  (accepted_iff_of_reachable (.init emptyRoot_start) sound_default _).1

example : linkedServer.serveFile {} (linkedServer.uploadFile {} emptyRoot (uploadTo "a//b" "x.usda")).files
    "a/./b/x.usda".toList = .content "x.usda".toList [4] := by decide +kernel

end FileServingController

end IdtxCore
