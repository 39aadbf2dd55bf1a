import IdtxCore.UsdFileLocator

/-!
# `FileServingController`: where thumbnails lie

`UploadFile` derives the thumbnail of a file from its full path, a request for a thumbnail derives it from the
path the client names (`ResolveThumbnailPath`). Both drop the extension of the file and look into the directory
`thumbs` beside it.
-/

namespace IdtxCore
open FsPath UsdFileLocator

/-- The implementations of `ThumbnailGenerator`. -/
inductive ThumbnailGenerator where
  | placeholder
  | usdImaging
  deriving DecidableEq, Repr

def ThumbnailGenerator.extension : ThumbnailGenerator → List Char
  | .placeholder => ".png".toList
  | .usdImaging => ".png".toList

namespace FileServing

def thumbs : List Char := "thumbs".toList

/-- `UploadFile`: the output path of the thumbnail job. -/
def thumbFull (generator : ThumbnailGenerator) (full relative : List Char) : List Char :=
  join (join (parentPath full) thumbs) (stem relative ++ generator.extension)

/-- The extension of the worker's generator; without a worker `.png`. -/
def extension : Option ThumbnailGenerator → List Char
  | some generator => generator.extension
  | none => ".png".toList

/-- The full path and the relative one. -/
def resolveThumbnailPath (root : List Char) (thumbnails : Option ThumbnailGenerator) (usdFilepath : List Char) :
    Except LocatorError (List Char × List Char) := do
  let decoded ← validatePath usdFilepath
  if ¬isUsdFilename (filename decoded) then .error .notAUsdFile
  else anchor root (join (join (parentPath decoded) thumbs) (stem decoded ++ extension thumbnails))

example : resolveThumbnailPath "/srv".toList none "/srv/a/x.usd".toList =
    .ok ("/srv/a/thumbs/x.png".toList, "/srv/a/thumbs/x.png".toList) := by decide

/-! ### Below the root -/

variable {root dir raw filepath full relative decoded directory name : List Char} {generator : ThumbnailGenerator}
  {thumbnails : Option ThumbnailGenerator}

theorem names_join_thumbs (hslash : '/' ∉ name) (hne : name ≠ []) :
    names (join (join directory thumbs) name) = names directory ++ [thumbs, name] := by
  rw [names_join (isAbsolute_of_notMem hslash), names_join rfl, names_eq_singleton hslash hne, List.append_assoc]
  rfl

theorem isAbsolute_join_thumbs (hslash : '/' ∉ name) :
    isAbsolute (join (join directory thumbs) name) = isAbsolute directory := by
  rw [isAbsolute_join (isAbsolute_of_notMem hslash), isAbsolute_join rfl]

theorem filename_join_thumbs (hslash : '/' ∉ name) : filename (join (join directory thumbs) name) = name := by
  rw [filename_join (isAbsolute_of_notMem hslash), filename_eq_self hslash]

/-- The name of a thumbnail is one name, and none that normalisation takes away. -/
structure ThumbName (name : List Char) : Prop where
  slash_notMem : '/' ∉ name
  two_lt : 2 < name.length

theorem ThumbName.notMem (h : ThumbName name) : name ∉ [[], dot, dotdot] := by
  have hnamed : Named name := named_of_two_lt (by rw [filename_eq_self h.slash_notMem]; exact h.two_lt)
  rwa [Named, filename_eq_self h.slash_notMem] at hnamed

theorem ThumbName.ne_nil (h : ThumbName name) : name ≠ [] := fun heq => h.notMem (by simp [heq])

theorem ThumbName.named (h : ThumbName name) : Named (join (join directory thumbs) name) :=
  named_of_two_lt (by rw [filename_join_thumbs h.slash_notMem]; exact h.two_lt)

theorem ThumbName.dotdot_notMem (h : ThumbName name) (hdirectory : dotdot ∉ names directory) :
    dotdot ∉ names (join (join directory thumbs) name) := by
  rw [names_join_thumbs h.slash_notMem h.ne_nil, List.mem_append, not_or]
  refine ⟨hdirectory, fun hmem => ?_⟩
  rcases List.mem_cons.1 hmem with heq | hmem
  · exact absurd heq (by decide)
  · exact h.notMem (List.mem_singleton.1 hmem ▸ by simp)

theorem ThumbName.filter_names (h : ThumbName name) : (names (join (join directory thumbs) name)).filter (· ≠ dot) =
    (names directory).filter (· ≠ dot) ++ [thumbs] ++ [name] := by
  have hdot : name ≠ dot := fun heq => h.notMem (by simp [heq])
  have hthumbs : thumbs ≠ dot := by decide
  rw [names_join_thumbs h.slash_notMem h.ne_nil, List.filter_append]
  simp [hdot, hthumbs]

theorem thumbName_stem (thumbnails : Option ThumbnailGenerator) (p : List Char) :
    ThumbName (stem p ++ extension thumbnails) := by
  have hext : '/' ∉ extension thumbnails ∧ (extension thumbnails).length = 4 := by
    rcases thumbnails with _ | _ | _ <;> decide
  refine ⟨?_, ?_⟩
  · rw [List.mem_append, not_or]
    exact ⟨slash_notMem_stem p, hext.1⟩
  · rw [List.length_append]
    omega

theorem resolveThumbnailPath_ok (h : resolveThumbnailPath root thumbnails filepath = .ok (full, relative)) :
    ∃ decoded, validatePath filepath = .ok decoded ∧ isUsdFilename (filename decoded) = true ∧
      anchor root (join (join (parentPath decoded) thumbs) (stem decoded ++ extension thumbnails)) =
        .ok (full, relative) := by
  unfold resolveThumbnailPath at h
  cases hvalid : validatePath filepath with
  | error e => simp [hvalid, bind, Except.bind] at h
  | ok decoded =>
    simp only [hvalid, bind, Except.bind] at h
    split_ifs at h with husd
    exact ⟨decoded, rfl, by simpa using husd, h⟩

theorem dotdot_notMem_of_anchor (h : anchor root relative = .ok (full, relative)) (hnamed : Named relative) :
    ∃ rest, elements full = elements (lexicallyNormal root) ++ rest ∧ dotdot ∉ rest := by
  have hdotdot := dotdot_notMem_names h
  cases habsolute : isAbsolute relative with
  | false =>
    refine ⟨_, elements_of_anchor h habsolute hnamed, fun hmem => ?_⟩
    exact hdotdot (List.mem_filter.1 hmem).1
  | true =>
    obtain ⟨-, rfl, ⟨rest, hrest⟩, -⟩ := anchor_ok h
    -- the root is not joined, so there is no dot-dot in the path at all
    refine ⟨rest, hrest.symm, fun hmem => ?_⟩
    have hjoin : join root relative = relative := by simp [join, habsolute]
    have hmem' : dotdot ∈ elements (lexicallyNormal (join root relative)) := hrest ▸ List.mem_append_right _ hmem
    rw [hjoin, elements_lexicallyNormal_of_named hnamed, List.mem_append] at hmem'
    rcases hmem' with hroot | hname
    · rw [habsolute] at hroot
      exact absurd hroot (by decide)
    · exact hdotdot (reduce_subset _ _ hname)

/-- An accepted upload lies below the normalised root, in directories that are no dot-dots and under its decoded
name; the thumbnail that an accepted request names lies below the normalised root as well. -/
theorem accepted_below_root (root : List Char) :
    (∀ dir raw full relative, validateUploadTarget root dir raw = .ok (full, relative) →
      ∃ directories name, elements full = elements (lexicallyNormal root) ++ directories ++ [name] ∧
        (∀ part ∈ directories ++ [name], part ≠ [] ∧ part ≠ dotdot) ∧
        percentDecode false true raw = some name ∧ '/' ∉ name ∧ '\\' ∉ name ∧ isUsdFilename name = true) ∧
    ∀ thumbnails filepath full relative, resolveThumbnailPath root thumbnails filepath = .ok (full, relative) →
      ∃ rest, elements full = elements (lexicallyNormal root) ++ rest ∧ dotdot ∉ rest := by
  constructor
  · intro dir raw full relative h
    obtain ⟨hpath, hanchor, name, hdecode, hname, hfilename⟩ := validateUploadTarget_ok h
    have hnamed : Named relative := named_of_isUsdFilename hpath.isUsd
    have helements := elements_of_anchor hanchor hpath.isRelative hnamed
    have hparts : ∀ part ∈ (names relative).filter (· ≠ dot), part ≠ [] ∧ part ≠ dotdot := by
      intro part hpart
      have hmem : part ∈ names relative := (List.mem_filter.1 hpart).1
      refine ⟨(mem_names hmem).1, ?_⟩
      rintro rfl
      exact dotdot_notMem_names hanchor hmem
    rw [filter_names hnamed, hfilename] at helements hparts
    rw [← List.append_assoc] at helements
    exact ⟨_, name, helements, hparts, hdecode, hname.slash_notMem, hname.backslash_notMem, hname.isUsd⟩
  · intro thumbnails filepath full relative h
    obtain ⟨decoded, -, -, hanchor⟩ := resolveThumbnailPath_ok h
    obtain rfl := (anchor_ok hanchor).1
    exact dotdot_notMem_of_anchor hanchor (thumbName_stem thumbnails decoded).named

theorem accepted_below_root_spaces :
    (∃ directories name, elements "uploads/a/b c/x.usda".toList =
        elements (lexicallyNormal "./uploads".toList) ++ directories ++ [name] ∧
      (∀ part ∈ directories ++ [name], part ≠ [] ∧ part ≠ dotdot) ∧
      percentDecode false true "x%2eusda".toList = some name ∧ '/' ∉ name ∧ '\\' ∉ name ∧
      isUsdFilename name = true) ∧
    ∃ rest, elements "uploads/a/thumbs/x.png".toList = elements (lexicallyNormal "./uploads".toList) ++ rest ∧
      dotdot ∉ rest := by
  obtain ⟨hupload, hthumbnail⟩ := accepted_below_root "./uploads".toList
  exact ⟨hupload "/a//./b%20c/".toList "x%2eusda".toList _ "a//./b c/x.usda".toList (by decide),
    hthumbnail none "a/./x.usd".toList _ "a/./thumbs/x.png".toList (by decide)⟩

/-! ### Upload, download and thumbnail requests -/

theorem full_eq (hpath : UsdPath relative) (h : anchor root relative = .ok (full, relative)) :
    full = ofNames (isAbsolute root) (reduce (isAbsolute root) (names root) ++
      (names (parentPath relative)).filter (· ≠ dot) ++ [filename relative]) := by
  have hnamed : Named relative := named_of_isUsdFilename hpath.isUsd
  rw [(anchor_ok h).2.1, lexicallyNormal_join hpath.isRelative hnamed (dotdot_notMem_names h), filter_names hnamed,
    List.append_assoc]

theorem mem_below {n : List Char} (h : n ∈ reduce (isAbsolute root) (names root) ++
    (names directory).filter (· ≠ dot)) : n ≠ [] ∧ '/' ∉ n := by
  rcases List.mem_append.1 h with h | h
  · exact mem_reduce_names h
  · exact mem_names (List.mem_filter.1 h).1

theorem thumbFull_eq (hpath : UsdPath relative) (h : anchor root relative = .ok (full, relative))
    (generator : ThumbnailGenerator) :
    thumbFull generator full relative = ofNames (isAbsolute root) (reduce (isAbsolute root) (names root) ++
      (names (parentPath relative)).filter (· ≠ dot) ++ [thumbs] ++ [stem relative ++ generator.extension]) := by
  have hname : ThumbName (stem relative ++ generator.extension) := thumbName_stem (some generator) relative
  unfold thumbFull
  rw [full_eq hpath h, parentPath_ofNames _ (fun _ => mem_below) (slash_notMem_filename _),
    join_ofNames _ (fun _ => mem_below) (by decide), join_ofNames _ ?_ hname.slash_notMem]
  intro n hn
  rcases List.mem_append.1 hn with hn | hn
  · exact mem_below hn
  · exact List.mem_singleton.1 hn ▸ by decide

/-- What a request for a thumbnail derives from a path, and `UploadFile` from the full one, is the same. -/
theorem lexicallyNormal_join_thumbs (hpath : UsdPath relative) (h : anchor root relative = .ok (full, relative))
    (generator : ThumbnailGenerator) (hnames : names directory = names (parentPath relative))
    (hrelative : isAbsolute directory = false) (hdots : dotdot ∉ names directory) :
    lexicallyNormal (join root (join (join directory thumbs) (stem relative ++ generator.extension))) =
      thumbFull generator full relative := by
  have hname : ThumbName (stem relative ++ generator.extension) := thumbName_stem (some generator) relative
  rw [thumbFull_eq hpath h, lexicallyNormal_join ((isAbsolute_join_thumbs hname.slash_notMem).trans hrelative)
    hname.named (hname.dotdot_notMem hdots), hname.filter_names, hnames]
  simp only [List.append_assoc]

/-- The path that `UploadFile` answers with is valid and its own decoding, it names the uploaded file, and a request
with it finds the thumbnail where `UploadFile` put it. -/
theorem upload_download_agree (h : validateUploadTarget root dir raw = .ok (full, relative))
    (generator : ThumbnailGenerator) :
    validatePath (genericString relative) = .ok (genericString relative) ∧
      lexicallyNormal (join root (genericString relative)) = full ∧
      lexicallyNormal (thumbFull generator full relative) = thumbFull generator full relative ∧
      ∃ thumbRelative, resolveThumbnailPath root (some generator) (genericString relative) =
        .ok (thumbFull generator full relative, thumbRelative) := by
  obtain ⟨hpath, hanchor, -⟩ := validateUploadTarget_ok h
  have hnamed : Named relative := named_of_isUsdFilename hpath.isUsd
  have hne : filename relative ≠ [] := fun hnil => hnamed (by simp [hnil])
  have hdots := dotdot_notMem_names hanchor
  -- the answered path and the relative one differ in repeated slashes only
  generalize hs : genericString relative = s
  have hvalid : validatePath s = .ok s := hs ▸ validatePath_genericString hpath
  have hnames : names s = names relative := hs ▸ names_genericString hne
  have hfilename : filename s = filename relative := hs ▸ filename_genericString hne
  have hrelative : isAbsolute s = false := hs ▸ (isAbsolute_genericString hne).trans hpath.isRelative
  -- and so do the paths of the thumbnail
  have hparent : names (parentPath s) = names (parentPath relative) :=
    names_parentPath_congr (hfilename ▸ hne) hfilename hnames
  have hparentDots : dotdot ∉ names (parentPath s) := by
    intro hmem
    exact hdots (by rw [names_parentPath hne, ← hparent]; exact List.mem_append_left _ hmem)
  have hparentRelative : isAbsolute (parentPath s) = false := (isAbsolute_parentPath s).trans hrelative
  have hname : ThumbName (stem relative ++ generator.extension) := thumbName_stem (some generator) relative
  have hthumb := lexicallyNormal_join_thumbs hpath hanchor generator hparent hparentRelative hparentDots
  have hthumbRelative := (isAbsolute_join_thumbs hname.slash_notMem).trans hparentRelative
  refine ⟨hvalid, hs ▸ lexicallyNormal_join_genericString hpath hanchor, ?_,
    join (join (parentPath s) thumbs) (stem relative ++ generator.extension), ?_⟩
  · rw [← hthumb]
    exact lexicallyNormal_idem (hname.named.join hthumbRelative)
  · have hroot := elements_root_of_anchor hanchor hpath.isRelative hnamed
    rw [← hthumb, ← anchor_eq_ok hroot hthumbRelative hname.named (hname.dotdot_notMem hparentDots)]
    have husd : isUsdFilename (filename s) = true := hfilename ▸ hpath.isUsd
    simp only [resolveThumbnailPath, hvalid, bind, Except.bind, husd, not_true_eq_false, if_false, extension,
      stem_congr hfilename]

theorem upload_download_agree_dots : ∃ full relative,
    validateUploadTarget "uploads".toList "a//./b%20c/".toList "x.usda".toList = .ok (full, relative) ∧
      validatePath (genericString relative) = .ok (genericString relative) ∧
      lexicallyNormal (join "uploads".toList (genericString relative)) = full ∧
      lexicallyNormal (thumbFull .placeholder full relative) = thumbFull .placeholder full relative ∧
      ∃ thumbRelative, resolveThumbnailPath "uploads".toList (some .placeholder) (genericString relative) =
        .ok (thumbFull .placeholder full relative, thumbRelative) :=
  have h : validateUploadTarget "uploads".toList "a//./b%20c/".toList "x.usda".toList =
    .ok ("uploads/a/b c/x.usda".toList, "a//./b c/x.usda".toList) := by decide
  ⟨_, _, h, upload_download_agree h .placeholder⟩

/-! ### Two files, two thumbnails -/

theorem stem_full (hpath : UsdPath relative) (h : anchor root relative = .ok (full, relative)) :
    stem full = stem relative := by
  refine stem_congr ?_
  rw [full_eq hpath h, filename_ofNames _ _ (slash_notMem_filename relative)]

theorem parentPath_full (hpath : UsdPath relative) (h : anchor root relative = .ok (full, relative)) :
    parentPath full = ofNames (isAbsolute root) (names (parentPath full)) := by
  rw [full_eq hpath h, parentPath_ofNames _ (fun _ => mem_below) (slash_notMem_filename _),
    names_ofNames fun _ => mem_below]

theorem names_thumbFull (generator : ThumbnailGenerator) (full relative : List Char) :
    names (thumbFull generator full relative) =
      names (parentPath full) ++ [thumbs, stem relative ++ generator.extension] :=
  have hname : ThumbName (stem relative ++ generator.extension) := thumbName_stem (some generator) relative
  names_join_thumbs hname.slash_notMem hname.ne_nil

/-- The thumbnails of two accepted uploads differ exactly if the files lie in different directories or their names
differ before the last dot. -/
theorem thumbFull_ne_iff {dir₁ dir₂ raw₁ raw₂ full₁ full₂ relative₁ relative₂ : List Char}
    (h₁ : validateUploadTarget root dir₁ raw₁ = .ok (full₁, relative₁))
    (h₂ : validateUploadTarget root dir₂ raw₂ = .ok (full₂, relative₂)) (generator : ThumbnailGenerator) :
    thumbFull generator full₁ relative₁ ≠ thumbFull generator full₂ relative₂ ↔
      parentPath full₁ ≠ parentPath full₂ ∨ stem full₁ ≠ stem full₂ := by
  obtain ⟨hpath₁, hanchor₁, -⟩ := validateUploadTarget_ok h₁
  obtain ⟨hpath₂, hanchor₂, -⟩ := validateUploadTarget_ok h₂
  rw [← not_and_or, not_iff_not, stem_full hpath₁ hanchor₁, stem_full hpath₂ hanchor₂]
  constructor
  · intro heq
    have hnames := congrArg names heq
    rw [names_thumbFull, names_thumbFull] at hnames
    obtain ⟨hdirectory, hname⟩ := List.append_inj' hnames rfl
    refine ⟨?_, List.append_cancel_right (List.cons.inj (List.cons.inj hname).2).1⟩
    rw [parentPath_full hpath₁ hanchor₁, parentPath_full hpath₂ hanchor₂, hdirectory]
  · rintro ⟨hparent, hstem⟩
    unfold thumbFull
    rw [hparent, hstem]

theorem thumbFull_ne_directories :
    thumbFull .usdImaging "uploads/a.usd".toList "a.usd".toList ≠
        thumbFull .usdImaging "uploads/b/a.usd".toList "b/a.usd".toList ↔
      parentPath "uploads/a.usd".toList ≠ parentPath "uploads/b/a.usd".toList ∨
        stem "uploads/a.usd".toList ≠ stem "uploads/b/a.usd".toList :=
  have h₁ : validateUploadTarget "uploads".toList [] "a.usd".toList =
    .ok ("uploads/a.usd".toList, "a.usd".toList) := by decide
  have h₂ : validateUploadTarget "uploads".toList "b".toList "a.usd".toList =
    .ok ("uploads/b/a.usd".toList, "b/a.usd".toList) := by decide
  thumbFull_ne_iff h₁ h₂ .usdImaging

/-- Two files that differ in the extension only. -/
theorem same_thumbnail : ∃ full₁ full₂ relative₁ relative₂,
    validateUploadTarget "uploads".toList [] "a.usd".toList = .ok (full₁, relative₁) ∧
      validateUploadTarget "uploads".toList [] "a.usda".toList = .ok (full₂, relative₂) ∧ full₁ ≠ full₂ ∧
      thumbFull .placeholder full₁ relative₁ = thumbFull .placeholder full₂ relative₂ :=
  ⟨"uploads/a.usd".toList, "uploads/a.usda".toList, "a.usd".toList, "a.usda".toList, by decide, by decide, by decide,
    by decide⟩

end FileServing
end IdtxCore
