import IdtxCore.Lib.FsPath

/-!
# `UsdFileLocator`: paths under the uploads root

The checks of client-supplied paths. A string is a list of characters, each standing for one byte; the
`regex_match`es are against a character class and are written as such. `Resolve` asks the file system, which is a
parameter (`Files`); the other functions look at the strings alone.
-/

namespace IdtxCore
open FsPath

/-- The values of `Status` other than `Ok`. -/
inductive LocatorError where
  | invalidEncoding
  | invalidPath
  | notFound
  | notAUsdFile
  | outsideRoot
  | permissionDenied
  deriving DecidableEq, Repr

namespace UsdFileLocator

def hex (c : Char) : Option Nat :=
  if '0' ≤ c ∧ c ≤ '9' then some (c.toNat - '0'.toNat)
  else if 'A' ≤ c ∧ c ≤ 'F' then some (10 + (c.toNat - 'A'.toNat))
  else if 'a' ≤ c ∧ c ≤ 'f' then some (10 + (c.toNat - 'a'.toNat))
  else none

/-- `none` on malformed input. -/
def percentDecode (decodePlusAsSpace rejectEncodedSlash : Bool) : List Char → Option (List Char)
  | [] => some []
  | '%' :: hi :: lo :: rest => do
    let byte := Char.ofNat ((← hex hi) <<< 4 ||| (← hex lo))
    if rejectEncodedSlash && byte = '/' then none
    else return byte :: (← percentDecode decodePlusAsSpace rejectEncodedSlash rest)
  | c :: rest => do
    if c = '%' then none
    else if c = '+' && decodePlusAsSpace then
      return ' ' :: (← percentDecode decodePlusAsSpace rejectEncodedSlash rest)
    else return c :: (← percentDecode decodePlusAsSpace rejectEncodedSlash rest)

/-- `[ a-zA-Z0-9._-]` -/
def isNameChar (c : Char) : Bool := c = ' ' || c.isAlphanum || c = '.' || c = '_' || c = '-'

/-- The same and the slash. -/
def isPathChar (c : Char) : Bool := isNameChar c || c = '/'

def isUsdFilename (filename : List Char) : Bool :=
  ".usd".toList <:+ filename || ".usda".toList <:+ filename || ".usdc".toList <:+ filename ||
    ".usdz".toList <:+ filename

/-- The decoded path. -/
def validatePath (filepath : List Char) : Except LocatorError (List Char) :=
  match percentDecode false false filepath with
  | none => .error .invalidEncoding
  | some decoded =>
    if dotdot <:+: decoded then .error .invalidPath
    else if decoded = [] ∨ ¬decoded.all isPathChar then .error .invalidPath
    else .ok decoded

/-- What `Resolve` asks of the file system; `canonical` is `none` on an error. -/
structure Files where
  canonical : List Char → Option (List Char)
  exists_ : List Char → Bool

def resolve (files : Files) (root filepath : List Char) : Except LocatorError (List Char) := do
  let decoded ← validatePath filepath
  let candidate := join root decoded
  match files.canonical root, files.canonical candidate with
  | some canonicalRoot, some canonicalFile =>
    if ¬elements canonicalRoot <+: elements canonicalFile then .error .outsideRoot
    else if ¬files.exists_ candidate then .error .notFound
    else if ¬isUsdFilename (filename candidate) then .error .notAUsdFile
    else .ok candidate
  | _, _ => .error .notFound

/-- The part of `ValidateUploadTarget` about the filename. -/
def decodeFilename (rawFilename : List Char) : Except LocatorError (List Char) :=
  match percentDecode false true rawFilename with
  | none => .error .invalidEncoding
  | some decoded =>
    if decoded = [] ∨ dotdot <:+: decoded ∨ dotdot <:+: rawFilename ∨ '/' ∈ decoded ∨ '\\' ∈ decoded then
      .error .invalidPath
    else if ¬decoded.all isNameChar then .error .invalidPath
    else if ¬isUsdFilename decoded then .error .notAUsdFile
    else .ok decoded

def isSeparator (c : Char) : Bool := c = '/' || c = '\\'

/-- The part of `ValidateUploadTarget` about the directory. -/
def decodeDir (rawRelativeDir : List Char) : Except LocatorError (List Char) :=
  match percentDecode false false rawRelativeDir with
  | none => .error .invalidEncoding
  | some decoded =>
    let decoded := (decoded.dropWhile isSeparator).rdropWhile isSeparator
    if dotdot <:+: decoded ∨ dotdot <:+: rawRelativeDir ∨ '\\' ∈ decoded then .error .invalidPath
    else if decoded ≠ [] ∧ ¬decoded.all isPathChar then .error .invalidPath
    else .ok decoded

/-- `root / relative` and `relative`, if the normalised root is a prefix and no element is a dot-dot. -/
def anchor (root relative : List Char) : Except LocatorError (List Char × List Char) :=
  let candidate := lexicallyNormal (join root relative)
  if ¬elements (lexicallyNormal root) <+: elements candidate then .error .outsideRoot
  else if (elements relative).any (· = dotdot) then .error .outsideRoot
  else .ok (candidate, relative)

/-- The full path and the relative one. -/
def validateUploadTarget (root rawRelativeDir rawFilename : List Char) :
    Except LocatorError (List Char × List Char) := do
  let decodedFilename ← decodeFilename rawFilename
  let decodedDir ← decodeDir rawRelativeDir
  let relative := if decodedDir = [] then decodedFilename else join decodedDir decodedFilename
  anchor root relative

example : validateUploadTarget "uploads".toList "/a//./b%20c/".toList "x.usda".toList =
    .ok ("uploads/a/b c/x.usda".toList, "a//./b c/x.usda".toList) := by decide

/-! ### What is accepted -/

variable {root dir name raw filepath full relative decoded : List Char}

/-- A character that is not a percent sign stands for itself, or for a space. -/
theorem percentDecode_plain {plus reject : Bool} {c : Char} {s : List Char} (hc : c ≠ '%') :
    percentDecode plus reject (c :: s) =
      (percentDecode plus reject s).map ((if c = '+' && plus then ' ' else c) :: ·) := by
  rw [percentDecode.eq_def]
  split
  · rename_i heq
    cases heq
  · rename_i heq
    exact absurd (List.cons.inj heq).1 hc
  · rename_i heq
    obtain ⟨rfl, rfl⟩ := List.cons.inj heq
    rw [if_neg hc, Option.map_eq_bind]
    split_ifs <;> rfl

/-- A string without a percent sign is its own decoding. -/
theorem percentDecode_eq_self {s : List Char} (h : '%' ∉ s) (rejectEncodedSlash : Bool) :
    percentDecode false rejectEncodedSlash s = some s := by
  induction s with
  | nil => rfl
  | cons c s ih =>
    obtain ⟨hc, hs⟩ := not_or.1 (List.mem_cons.not.1 h)
    rw [percentDecode_plain (Ne.symm hc), ih hs]
    simp

/-- The name of a USD file: no path in it, and an extension. -/
structure UsdName (name : List Char) : Prop where
  not_dotdot : ¬dotdot <:+: name
  slash_notMem : '/' ∉ name
  backslash_notMem : '\\' ∉ name
  chars : ∀ c ∈ name, isNameChar c = true
  isUsd : isUsdFilename name = true

/-- The relative path of a USD file that stays below where it starts. -/
structure UsdPath (relative : List Char) : Prop where
  isRelative : isAbsolute relative = false
  not_dotdot : ¬dotdot <:+: relative
  chars : ∀ c ∈ relative, isPathChar c = true
  isUsd : isUsdFilename (filename relative) = true

theorem decodeFilename_ok (h : decodeFilename raw = .ok name) :
    percentDecode false true raw = some name ∧ UsdName name := by
  unfold decodeFilename at h
  cases hdecode : percentDecode false true raw with
  | none => simp [hdecode] at h
  | some decoded =>
    simp only [hdecode] at h
    split_ifs at h with hbad hchars husd
    obtain rfl := Except.ok.inj h
    simp only [not_or] at hbad
    exact ⟨rfl, hbad.2.1, hbad.2.2.2.1, hbad.2.2.2.2, by simpa using hchars, by simpa using husd⟩

theorem validatePath_ok (h : validatePath filepath = .ok decoded) :
    percentDecode false false filepath = some decoded ∧ ¬dotdot <:+: decoded ∧
      ∀ c ∈ decoded, isPathChar c = true := by
  unfold validatePath at h
  cases hdecode : percentDecode false false filepath with
  | none => simp [hdecode] at h
  | some s =>
    simp only [hdecode] at h
    split_ifs at h with hdots hchars
    obtain rfl := Except.ok.inj h
    exact ⟨rfl, hdots, by simpa using (not_or.1 hchars).2⟩

theorem resolve_ok {files : Files} {resolved : List Char} (h : resolve files root filepath = .ok resolved) :
    ∃ decoded, validatePath filepath = .ok decoded ∧ resolved = join root decoded ∧
      isUsdFilename (filename resolved) = true := by
  unfold resolve at h
  cases hvalid : validatePath filepath with
  | error e => simp [hvalid, bind, Except.bind] at h
  | ok decoded =>
    simp only [hvalid, bind, Except.bind] at h
    split at h
    · split_ifs at h with hinside hexists husd
      obtain rfl := Except.ok.inj h
      exact ⟨decoded, rfl, rfl, by simpa using husd⟩
    · simp at h

theorem isAbsolute_strip (s : List Char) :
    isAbsolute ((s.dropWhile isSeparator).rdropWhile isSeparator) = false := by
  rcases eq_or_ne ((s.dropWhile isSeparator).rdropWhile isSeparator) [] with hnil | hne
  · rw [hnil]
    rfl
  · rw [isAbsolute_of_starts (List.rdropWhile_prefix _ _) hne]
    have hhead := List.head?_dropWhile_not isSeparator s
    cases hs : s.dropWhile isSeparator with
    | nil => rfl
    | cons c t =>
      rw [hs] at hhead
      have hc : c ≠ '/' := by
        rintro rfl
        simp [isSeparator] at hhead
      simpa [isAbsolute] using hc

theorem decodeDir_ok (h : decodeDir raw = .ok dir) :
    isAbsolute dir = false ∧ ¬dotdot <:+: dir ∧ ∀ c ∈ dir, isPathChar c = true := by
  unfold decodeDir at h
  cases hdecode : percentDecode false false raw with
  | none => simp [hdecode] at h
  | some decoded =>
    simp only [hdecode] at h
    split_ifs at h with hbad hchars
    obtain rfl := Except.ok.inj h
    refine ⟨?_, (not_or.1 hbad).1, ?_⟩
    · exact isAbsolute_strip decoded
    · intro c hc
      by_contra hpath
      exact hchars ⟨List.ne_nil_of_mem hc, fun hall => hpath (List.all_eq_true.1 hall c hc)⟩

theorem anchor_ok (h : anchor root raw = .ok (full, relative)) :
    relative = raw ∧ full = lexicallyNormal (join root relative) ∧
      elements (lexicallyNormal root) <+: elements full ∧ dotdot ∉ elements relative := by
  unfold anchor at h
  dsimp only at h
  split_ifs at h with hinside hdots
  obtain ⟨rfl, rfl⟩ := Prod.mk.inj (Except.ok.inj h)
  exact ⟨rfl, rfl, hinside, fun hmem => hdots (List.any_eq_true.2 ⟨dotdot, hmem, by simp⟩)⟩

theorem UsdPath.of_join (hdir : isAbsolute dir = false ∧ ¬dotdot <:+: dir ∧ ∀ c ∈ dir, isPathChar c = true)
    (hname : UsdName name) : UsdPath (join dir name) := by
  have hrelative := isAbsolute_of_notMem hname.slash_notMem
  obtain ⟨hdir, hdots, hchars⟩ := hdir
  refine ⟨(isAbsolute_join hrelative).trans hdir, fun hinfix => ?_, fun c hc => ?_, ?_⟩
  · obtain ⟨n, hn, hinfix⟩ := (infix_iff_names (by decide) (by decide) _).1 hinfix
    rw [names_join hrelative, List.mem_append] at hn
    rcases hn with hn | hn
    · exact hdots ((infix_iff_names (by decide) (by decide) _).2 ⟨n, hn, hinfix⟩)
    · exact hname.not_dotdot ((infix_iff_names (by decide) (by decide) _).2 ⟨n, hn, hinfix⟩)
  · have hmem : c ∈ dir ∨ c ∈ name ∨ c = '/' := by
      unfold join at hc
      rw [hrelative, if_neg Bool.false_ne_true] at hc
      split_ifs at hc
      · exact (List.mem_append.1 hc).imp_right .inl
      · rw [List.mem_append, List.mem_cons] at hc
        tauto
    rcases hmem with hmem | hmem | rfl
    · exact hchars c hmem
    · simp [isPathChar, hname.chars c hmem]
    · decide
  · rw [filename_join hrelative, filename_eq_self hname.slash_notMem]
    exact hname.isUsd

theorem validateUploadTarget_eq (hfilename : decodeFilename raw = .ok name) (hdir : decodeDir dir = .ok decoded) :
    validateUploadTarget root dir raw = anchor root (join decoded name) := by
  obtain ⟨-, hname⟩ := decodeFilename_ok hfilename
  have hrelative := isAbsolute_of_notMem hname.slash_notMem
  -- joining with the empty path changes nothing, so the test for it does not matter
  have hjoin : (if decoded = [] then name else join decoded name) = join decoded name := by
    split_ifs with hnil
    · simp [hnil, join, hrelative]
    · rfl
  unfold validateUploadTarget
  simp only [hfilename, hdir, bind, Except.bind, hjoin]

theorem validateUploadTarget_ok (h : validateUploadTarget root dir raw = .ok (full, relative)) :
    UsdPath relative ∧ anchor root relative = .ok (full, relative) ∧
      ∃ name, percentDecode false true raw = some name ∧ UsdName name ∧ filename relative = name := by
  cases hfilename : decodeFilename raw with
  | error e => simp [validateUploadTarget, hfilename, bind, Except.bind] at h
  | ok name =>
    cases hdir : decodeDir dir with
    | error e => simp [validateUploadTarget, hfilename, hdir, bind, Except.bind] at h
    | ok decoded =>
      obtain ⟨hdecode, hname⟩ := decodeFilename_ok hfilename
      rw [validateUploadTarget_eq hfilename hdir] at h
      obtain ⟨rfl, -⟩ := anchor_ok h
      refine ⟨.of_join (decodeDir_ok hdir) hname, h, name, hdecode, hname, ?_⟩
      rw [filename_join (isAbsolute_of_notMem hname.slash_notMem), filename_eq_self hname.slash_notMem]

theorem four_le_length (h : isUsdFilename name = true) : 4 ≤ name.length := by
  simp only [isUsdFilename, Bool.or_eq_true, decide_eq_true_eq] at h
  rcases h with ((h | h) | h) | h <;> have := h.length_le <;> simp at this <;> omega

theorem named_of_isUsdFilename {p : List Char} (h : isUsdFilename (filename p) = true) : Named p :=
  named_of_two_lt (by have := four_le_length h; omega)

theorem dotdot_notMem_names (h : anchor root relative = .ok (full, relative)) : dotdot ∉ names relative := by
  obtain ⟨-, -, -, hdots⟩ := anchor_ok h
  exact fun hmem => hdots (by simp [elements, hmem])

theorem elements_join (hrelative : isAbsolute relative = false) (hnamed : Named relative)
    (hdots : dotdot ∉ names relative) :
    elements (lexicallyNormal (join root relative)) = rootElement (isAbsolute root) ++
      reduce (isAbsolute root) (names root) ++ (names relative).filter (· ≠ dot) := by
  rw [elements_lexicallyNormal_of_named (hnamed.join hrelative), isAbsolute_join hrelative, names_join hrelative,
    reduce_append hdots, List.append_assoc]

/-- A root below which a path is accepted has nothing but names, and dot-dots in front, when it is normalised. -/
theorem elements_root_of_anchor (h : anchor root relative = .ok (full, relative))
    (hrelative : isAbsolute relative = false) (hnamed : Named relative) :
    elements (lexicallyNormal root) = rootElement (isAbsolute root) ++ reduce (isAbsolute root) (names root) := by
  obtain ⟨-, rfl, hinside, -⟩ := anchor_ok h
  rw [elements_join hrelative hnamed (dotdot_notMem_names h)] at hinside
  refine elements_lexicallyNormal_of_inside (fun m hm => ?_) hinside
  exact ⟨(mem_names (List.mem_filter.1 hm).1).1, by simpa using (List.mem_filter.1 hm).2⟩

/-- After the elements of the normalised root come the names of an accepted path that are no dots. -/
theorem elements_of_anchor (h : anchor root relative = .ok (full, relative)) (hrelative : isAbsolute relative = false)
    (hnamed : Named relative) :
    elements full = elements (lexicallyNormal root) ++ (names relative).filter (· ≠ dot) := by
  rw [elements_root_of_anchor h hrelative hnamed, (anchor_ok h).2.1,
    elements_join hrelative hnamed (dotdot_notMem_names h)]

/-- Below such a root, every path without dot-dots is accepted. -/
theorem anchor_eq_ok (hroot : elements (lexicallyNormal root) = rootElement (isAbsolute root) ++
      reduce (isAbsolute root) (names root)) (hrelative : isAbsolute relative = false) (hnamed : Named relative)
    (hdots : dotdot ∉ names relative) :
    anchor root relative = .ok (lexicallyNormal (join root relative), relative) := by
  have hinside : elements (lexicallyNormal root) <+: elements (lexicallyNormal (join root relative)) := by
    rw [hroot, elements_join hrelative hnamed hdots]
    exact List.prefix_append _ _
  have hne : filename relative ≠ [] := fun hnil => hnamed (by simp [hnil])
  have helements : ¬(elements relative).any (· = dotdot) = true := by
    unfold elements
    rw [hrelative, lastElement_eq_nil hne]
    simpa [rootElement] using hdots
  unfold anchor
  dsimp only
  rw [if_neg (not_not.2 hinside), if_neg helements]

/-- The generic form of an accepted path is valid, and its own decoding. -/
theorem validatePath_genericString (h : UsdPath relative) :
    validatePath (genericString relative) = .ok (genericString relative) := by
  have hne : filename relative ≠ [] := by
    intro hnil
    exact named_of_isUsdFilename h.isUsd (by simp [hnil])
  have hnames := names_genericString hne
  have hchars : ∀ c ∈ genericString relative, isPathChar c = true := by
    intro c hc
    rcases eq_or_ne c '/' with rfl | hslash
    · decide
    · exact h.chars c (mem_of_names_eq hslash hnames hc)
  have hpercent : '%' ∉ genericString relative := fun hmem => absurd (hchars '%' hmem) (by decide)
  have hdots : ¬dotdot <:+: genericString relative := fun hinfix =>
    h.not_dotdot (infix_of_names_eq (by decide) (by decide) hnames hinfix)
  have hnonempty : genericString relative ≠ [] := by
    intro hnil
    have hfilename := filename_genericString hne
    rw [hnil] at hfilename
    exact hne hfilename.symm
  unfold validatePath
  rw [percentDecode_eq_self hpercent]
  dsimp only
  rw [if_neg hdots, if_neg (not_or.2 ⟨hnonempty, not_not.2 (List.all_eq_true.2 hchars)⟩)]

/-- And it stands for the same file. -/
theorem lexicallyNormal_join_genericString (hpath : UsdPath relative)
    (h : anchor root relative = .ok (full, relative)) : lexicallyNormal (join root (genericString relative)) = full := by
  have hnamed : Named relative := named_of_isUsdFilename hpath.isUsd
  have hne : filename relative ≠ [] := fun hnil => hnamed (by simp [hnil])
  have hdots := dotdot_notMem_names h
  have hnames := names_genericString hne
  have hnamed' : Named (genericString relative) := by rwa [Named, filename_genericString hne]
  rw [(anchor_ok h).2.1, lexicallyNormal_join hpath.isRelative hnamed hdots,
    lexicallyNormal_join ((isAbsolute_genericString hne).trans hpath.isRelative) hnamed' (hnames ▸ hdots), hnames]

/-! ### The spelling of the root -/

theorem UsdPath.dotdot_notMem (h : UsdPath relative) : dotdot ∉ names relative := fun hmem =>
  h.not_dotdot (infix_of_mem_names hmem)

theorem dotdot_notMem_of_valid (h : validatePath filepath = .ok decoded) : dotdot ∉ names decoded := fun hmem =>
  (validatePath_ok h).2.1 (infix_of_mem_names hmem)

/-- Under a root that ends in a name every valid path is accepted, and under any other root none is. -/
theorem anchor_eq (hroot : root ≠ []) (h : UsdPath relative) :
    anchor root relative =
      if EndsInName root then
        .ok (ofNames (isAbsolute root) (reduce (isAbsolute root) (names root) ++ (names relative).filter (· ≠ dot)), relative)
      else .error .outsideRoot := by
  have hnamed : Named relative := named_of_isUsdFilename h.isUsd
  split_ifs with hends
  · rw [anchor_eq_ok ((elements_lexicallyNormal_eq_iff hroot).2 hends) h.isRelative hnamed h.dotdot_notMem,
      lexicallyNormal_join h.isRelative hnamed h.dotdot_notMem]
  · have hinside : ¬elements (lexicallyNormal root) <+: elements (lexicallyNormal (join root relative)) := by
      rw [elements_join h.isRelative hnamed h.dotdot_notMem]
      intro hinside
      refine hends ((elements_lexicallyNormal_eq_iff hroot).1 (elements_lexicallyNormal_of_inside (fun m hm => ?_) hinside))
      exact ⟨(mem_names (List.mem_filter.1 hm).1).1, by simpa using (List.mem_filter.1 hm).2⟩
    unfold anchor
    dsimp only
    rw [if_pos hinside]

/-- Two spellings of one directory. -/
def SameDirectory (root root' : List Char) : Prop :=
  isAbsolute root = isAbsolute root' ∧
    reduce (isAbsolute root) (names root) = reduce (isAbsolute root') (names root')

instance (root root' : List Char) : Decidable (SameDirectory root root') := inferInstanceAs (Decidable (_ ∧ _))

/-- Whether an upload that passes the checks of its strings is accepted depends on the spelling of the root alone, and
two spellings of one directory do the same with it exactly if both end in a name or neither does. -/
theorem accepted_iff_endsInName (hroot : root ≠ []) (hname : decodeFilename raw = .ok name)
    (hdir : decodeDir dir = .ok decoded) :
    ((∃ full relative, validateUploadTarget root dir raw = .ok (full, relative)) ↔ EndsInName root) ∧
      ∀ root', root' ≠ [] → SameDirectory root root' →
        (validateUploadTarget root dir raw = validateUploadTarget root' dir raw ↔ (EndsInName root ↔ EndsInName root')) := by
  have hpath : UsdPath (join decoded name) := .of_join (decodeDir_ok hdir) (decodeFilename_ok hname).2
  constructor
  · rw [validateUploadTarget_eq hname hdir, anchor_eq hroot hpath]
    split_ifs with hends <;> simp [hends]
  · rintro root' hroot' ⟨habsolute, hreduce⟩
    rw [validateUploadTarget_eq hname hdir, validateUploadTarget_eq hname hdir, anchor_eq hroot hpath,
      anchor_eq hroot' hpath, hreduce, habsolute]
    split_ifs with hends hends' hends' <;> simp [hends, hends']

theorem accepted_iff_endsInName_dots :
    let root := "./data//uploads".toList
    let root' := "data/./uploads/.".toList
    ((∃ full relative, validateUploadTarget root "a".toList "x.usd".toList = .ok (full, relative)) ↔ EndsInName root) ∧
      (validateUploadTarget root "a".toList "x.usd".toList = validateUploadTarget root' "a".toList "x.usd".toList ↔
        (EndsInName root ↔ EndsInName root')) := by
  intro root root'
  have haccepts := @accepted_iff_endsInName root "a".toList "x.usd".toList "x.usd".toList "a".toList (by decide)
    (by decide) (by decide)
  exact ⟨haccepts.1, haccepts.2 root' (by decide) (by decide)⟩

/-- A slash at the end of the root, and nothing is accepted any more. -/
theorem refused_under_trailing_slash :
    decodeFilename "x.usd".toList = .ok "x.usd".toList ∧ decodeDir [] = .ok [] ∧
      SameDirectory "uploads/".toList "uploads".toList ∧
      validateUploadTarget "uploads/".toList [] "x.usd".toList = .error .outsideRoot ∧
      validateUploadTarget "uploads".toList [] "x.usd".toList = .ok ("uploads/x.usd".toList, "x.usd".toList) := by
  decide

end UsdFileLocator
end IdtxCore
