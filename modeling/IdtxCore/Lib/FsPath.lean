import Mathlib.Data.List.DropRight
import Mathlib.Data.List.Infix

/-!
# POSIX paths

`std::filesystem::path` on a POSIX system, where a path is its string. The operations look at a path through
three things: whether it is absolute, its `names` (what stands between the slashes, empty pieces left out) and
its `filename` (what follows the last slash, which may be nothing). Each operation gets a lemma for each of the
three, and the lemmas about `lexicallyNormal` follow from these.

Several slashes at the front of a path name the root directory like one. `lexicallyNormal` and `parentPath` leave one
of them; libraries differ in how they spell such a path.
-/

namespace FsPath

def dot : List Char := ['.']
def dotdot : List Char := ['.', '.']

/-- `has_root_directory`, which on POSIX is `is_absolute`. -/
def isAbsolute (p : List Char) : Bool := p.head? = some '/'

def names (p : List Char) : List (List Char) := (p.splitOn '/').filter (· ≠ [])

def filename (p : List Char) : List Char := p.rtakeWhile (· ≠ '/')

/-- `operator/` -/
def join (p q : List Char) : List Char :=
  if isAbsolute q then q else if filename p = [] then p ++ q else p ++ '/' :: q

/-- The root directory as an element. -/
def rootElement (absolute : Bool) : List (List Char) := if absolute then [['/']] else []

/-- The empty element that stands for a trailing slash. -/
def lastElement (p : List Char) : List (List Char) := if filename p = [] ∧ names p ≠ [] then [[]] else []

/-- What `begin()` to `end()` runs through. -/
def elements (p : List Char) : List (List Char) := rootElement (isAbsolute p) ++ names p ++ lastElement p

/-- The path without its filename and the slashes before it; a root directory stays. -/
def parentPath (p : List Char) : List Char :=
  let directory := p.rdropWhile (· ≠ '/')
  if directory.all (· = '/') then directory else directory.rdropWhile (· = '/')

/-- The filename up to its last dot. A dot in front does not count. -/
def stem (p : List Char) : List Char :=
  let name := filename p
  let upToDot := name.rdropWhile (· ≠ '.')
  if name = dotdot ∨ upToDot.length ≤ 1 then name else upToDot.dropLast

/-- A path of the given names, with one slash between them. -/
def ofNames (absolute : Bool) (ns : List (List Char)) : List Char :=
  (if absolute then ['/'] else []) ++ ['/'].intercalate ns

/-- As libstdc++ has it: the elements with one slash between them. -/
def genericString (p : List Char) : List Char := ofNames (isAbsolute p) (names p ++ lastElement p)

/-- What a name does to the names before it: a dot nothing, a dot-dot takes the last one away, unless that is a
dot-dot itself. Nothing is above the root directory. -/
def push (absolute : Bool) (ns : List (List Char)) (n : List Char) : List (List Char) :=
  if n = dot then ns
  else if n = dotdot then
    if ns = [] then if absolute then [] else [dotdot]
    else if ns.getLast? = some dotdot then ns ++ [dotdot] else ns.dropLast
  else ns ++ [n]

def reduce (absolute : Bool) (ns : List (List Char)) : List (List Char) := ns.foldl (push absolute) []

/-- `lexically_normal` -/
def lexicallyNormal (p : List Char) : List Char :=
  let ns := reduce (isAbsolute p) (names p)
  if p = [] then []
  else if ns = [] then if isAbsolute p then ['/'] else dot
  else if filename p ∈ [[], dot, dotdot] ∧ ns.getLast? ≠ some dotdot then ofNames (isAbsolute p) ns ++ ['/']
  else ofNames (isAbsolute p) ns

example : lexicallyNormal "a/./b//../../..".toList = "..".toList := by decide
example : lexicallyNormal "/../a/b/.".toList = "/a/b/".toList := by decide
example : stem "a/.usd.usda".toList = ".usd".toList := by decide

/-! ### Cutting a path at a slash -/

variable {p q n : List Char} {ns ms : List (List Char)} {absolute : Bool}

@[simp] theorem names_nil : names [] = [] := rfl

theorem names_append_slash (p q : List Char) : names (p ++ '/' :: q) = names p ++ names q := by
  unfold names
  rw [List.splitOn_append_cons_self, List.filter_append]

theorem names_slash_cons (p : List Char) : names ('/' :: p) = names p := names_append_slash [] p

theorem names_concat_slash (p : List Char) : names (p ++ ['/']) = names p := by
  rw [names_append_slash]
  simp

theorem names_eq_singleton (hslash : '/' ∉ n) (hne : n ≠ []) : names n = [n] := by
  unfold names
  rw [List.splitOn_eq_singleton hslash]
  simp [hne]

@[simp] theorem filename_nil : filename [] = [] := rfl

theorem slash_notMem_filename (p : List Char) : '/' ∉ filename p := by
  intro hmem
  simpa using List.mem_rtakeWhile_imp hmem

theorem filename_eq_self (h : '/' ∉ p) : filename p = p := by
  refine List.rtakeWhile_eq_self_iff.2 fun c hc => ?_
  have hne : c ≠ '/' := fun heq => h (heq ▸ hc)
  simpa using hne

theorem filename_append_slash (p q : List Char) : filename (p ++ '/' :: q) = filename q := by
  induction q using List.reverseRecOn with
  | nil =>
    unfold filename
    rw [List.rtakeWhile_concat_neg _ _ _ (by simp), List.rtakeWhile_nil]
  | append_singleton q c ih =>
    unfold filename at ih ⊢
    rw [← List.cons_append, ← List.append_assoc, List.rtakeWhile_concat, List.rtakeWhile_concat, ih]

/-- A path is one piece, or a path, a slash and one piece. -/
theorem eq_piece_or_append (p : List Char) : '/' ∉ p ∨ ∃ q n, '/' ∉ n ∧ p = q ++ '/' :: n := by
  induction p using List.reverseRecOn with
  | nil => exact .inl List.not_mem_nil
  | append_singleton p c ih =>
    rcases eq_or_ne c '/' with rfl | hc
    · exact .inr ⟨p, [], List.not_mem_nil, rfl⟩
    · rcases ih with hp | ⟨q, n, hn, rfl⟩
      · exact .inl (by simp [hp, hc.symm])
      · exact .inr ⟨q, n ++ [c], by simp [hn, hc.symm], by simp⟩

theorem isAbsolute_append (hne : p ≠ []) (q : List Char) : isAbsolute (p ++ q) = isAbsolute p := by
  cases p with
  | nil => exact absurd rfl hne
  | cons c p => rfl

theorem isAbsolute_of_notMem (h : '/' ∉ p) : isAbsolute p = false := by
  cases p with
  | nil => rfl
  | cons c p =>
    have hc : c ≠ '/' := fun heq => h (heq ▸ List.mem_cons_self)
    simpa [isAbsolute] using hc

theorem names_append_of_filename_eq_nil (h : filename p = []) (q : List Char) :
    names (p ++ q) = names p ++ names q := by
  rcases eq_piece_or_append p with hp | ⟨p, n, hn, rfl⟩
  · rw [filename_eq_self hp] at h
    simp [h]
  · rw [filename_append_slash, filename_eq_self hn] at h
    rw [h, List.append_assoc, List.cons_append, List.nil_append, names_append_slash, names_concat_slash]

theorem filename_append_of_filename_eq_nil (h : filename p = []) (q : List Char) :
    filename (p ++ q) = filename q := by
  rcases eq_piece_or_append p with hp | ⟨p, n, hn, rfl⟩
  · rw [filename_eq_self hp] at h
    simp [h]
  · rw [filename_append_slash, filename_eq_self hn] at h
    rw [h, List.append_assoc, List.cons_append, List.nil_append, filename_append_slash]

/-- Induction over the pieces of a path, from its front. -/
theorem piece_induction {motive : List Char → Prop} (piece : ∀ n, '/' ∉ n → motive n)
    (append : ∀ q n, '/' ∉ n → motive q → motive (q ++ '/' :: n)) (p : List Char) : motive p := by
  rcases eq_piece_or_append p with hp | ⟨q, n, hn, heq⟩
  · exact piece p hp
  · have hlt : q.length < p.length := by simp [heq]
    rw [heq]
    exact append q n hn (piece_induction piece append q)
termination_by p.length

theorem mem_names (h : n ∈ names p) : n ≠ [] ∧ '/' ∉ n := by
  refine ⟨by simpa using (List.mem_filter.1 h).2, ?_⟩
  induction p using piece_induction with
  | piece p hp =>
    rcases eq_or_ne p [] with rfl | hne
    · simp at h
    · rw [names_eq_singleton hp hne, List.mem_singleton] at h
      exact h ▸ hp
  | append q m hm ih =>
    rw [names_append_slash, List.mem_append] at h
    rcases h with h | h
    · exact ih h
    · rcases eq_or_ne m [] with rfl | hne
      · simp at h
      · rw [names_eq_singleton hm hne, List.mem_singleton] at h
        exact h ▸ hm

theorem infix_append_slash {w : List Char} (hw : '/' ∉ w) (p q : List Char) :
    w <:+: p ++ '/' :: q ↔ w <:+: p ∨ w <:+: q := by
  constructor
  · rintro ⟨s, t, heq⟩
    rcases List.append_eq_append_iff.1 heq with ⟨a, hp, -⟩ | ⟨c, hsw, hc⟩
    · exact .inl ⟨s, a, hp.symm⟩
    · cases c with
      | nil => exact .inl ⟨s, [], by simpa using hsw⟩
      | cons d c =>
        obtain ⟨rfl, rfl⟩ := List.cons.inj hc
        -- the slash is not in `w`, so all of `w` stands behind it
        rcases List.append_eq_append_iff.1 hsw with ⟨a, -, rfl⟩ | ⟨a, -, hac⟩
        · simp at hw
        · cases a with
          | nil => simp [← show '/' :: c = w from hac] at hw
          | cons d a =>
            obtain ⟨-, rfl⟩ := List.cons.inj hac
            exact .inr ⟨a, t, rfl⟩
  · rintro (h | h)
    · exact h.trans (List.infix_append' [] p _)
    · exact h.trans ⟨p ++ ['/'], [], by simp⟩

/-- A string without a slash stands in a path exactly if it stands in one of its names. -/
theorem infix_iff_names {w : List Char} (hw : '/' ∉ w) (hne : w ≠ []) (p : List Char) :
    w <:+: p ↔ ∃ n ∈ names p, w <:+: n := by
  have hpiece : ∀ n : List Char, '/' ∉ n → (w <:+: n ↔ ∃ m ∈ names n, w <:+: m) := by
    intro n hn
    rcases eq_or_ne n [] with rfl | hnil
    · simp [hne]
    · simp [names_eq_singleton hn hnil]
  induction p using piece_induction with
  | piece n hn => exact hpiece n hn
  | append q n hn ih =>
    simp only [infix_append_slash hw, ih, hpiece n hn, names_append_slash, List.mem_append, or_and_right, exists_or]

theorem infix_of_mem_names {n : List Char} (h : n ∈ names p) : n <:+: p :=
  (infix_iff_names (mem_names h).2 (mem_names h).1 p).2 ⟨n, h, List.infix_rfl⟩

/-- Paths with the same names have the same strings without a slash in them. -/
theorem infix_of_names_eq {w : List Char} (hw : '/' ∉ w) (hne : w ≠ []) (hnames : names p = names q) (h : w <:+: p) :
    w <:+: q := by
  rw [infix_iff_names hw hne] at h ⊢
  rwa [← hnames]

theorem mem_of_names_eq {c : Char} (hc : c ≠ '/') (hnames : names p = names q) (h : c ∈ p) : c ∈ q := by
  rw [← List.singleton_infix_iff] at h ⊢
  exact infix_of_names_eq (by simpa using hc.symm) (by simp) hnames h

/-! ### `operator/` -/

theorem names_join (hq : isAbsolute q = false) : names (join p q) = names p ++ names q := by
  unfold join
  rw [hq, if_neg Bool.false_ne_true]
  split_ifs with hp
  · exact names_append_of_filename_eq_nil hp q
  · exact names_append_slash p q

theorem filename_join (hq : isAbsolute q = false) : filename (join p q) = filename q := by
  unfold join
  rw [hq, if_neg Bool.false_ne_true]
  split_ifs with hp
  · exact filename_append_of_filename_eq_nil hp q
  · exact filename_append_slash p q

theorem isAbsolute_join (hq : isAbsolute q = false) : isAbsolute (join p q) = isAbsolute p := by
  unfold join
  rw [hq, if_neg Bool.false_ne_true]
  rcases eq_or_ne p [] with rfl | hp
  · exact hq
  · split_ifs
    · exact isAbsolute_append hp q
    · exact isAbsolute_append hp _

/-! ### `parent_path` and `stem` -/

theorem names_rdropWhile_slash (p : List Char) : names (p.rdropWhile (· = '/')) = names p := by
  induction p using List.reverseRecOn with
  | nil => rfl
  | append_singleton p c ih =>
    rcases eq_or_ne c '/' with rfl | hc
    · rw [List.rdropWhile_concat_pos _ _ _ (by simp), names_concat_slash, ih]
    · rw [List.rdropWhile_concat_neg _ _ _ (by simpa using hc)]

theorem names_parentPath (h : filename p ≠ []) : names p = names (parentPath p) ++ [filename p] := by
  have hparent : names (parentPath p) = names (p.rdropWhile (· ≠ '/')) := by
    unfold parentPath
    dsimp only
    split_ifs
    · rfl
    · exact names_rdropWhile_slash _
  have hfilename : filename (p.rdropWhile (· ≠ '/')) = [] := by
    refine List.rtakeWhile_eq_nil_iff.2 fun hne => ?_
    exact List.rdropWhile_last_not _ _ hne
  have hsplit : p.rdropWhile (· ≠ '/') ++ filename p = p := List.rdropWhile_append_rtakeWhile
  rw [hparent, ← names_eq_singleton (slash_notMem_filename p) h, ← names_append_of_filename_eq_nil hfilename, hsplit]

theorem names_parentPath_congr (hp : filename p ≠ []) (hfilename : filename p = filename q) (hnames : names p = names q) :
    names (parentPath p) = names (parentPath q) := by
  have hq : filename q ≠ [] := hfilename ▸ hp
  rw [names_parentPath hp, names_parentPath hq, hfilename] at hnames
  exact List.append_cancel_right hnames

theorem isAbsolute_of_starts (h : q <+: p) (hq : q ≠ []) : isAbsolute q = isAbsolute p := by
  obtain ⟨r, rfl⟩ := h
  exact (isAbsolute_append hq r).symm

theorem parentPath_starts (p : List Char) : parentPath p <+: p := by
  unfold parentPath
  dsimp only
  split_ifs
  · exact List.rdropWhile_prefix _ _
  · exact (List.rdropWhile_prefix _ _).trans (List.rdropWhile_prefix _ _)

theorem slash_notMem_of_parentPath_eq_nil (h : parentPath p = []) : '/' ∉ p := by
  unfold parentPath at h
  dsimp only at h
  split_ifs at h with hall
  · intro hmem
    simpa using List.rdropWhile_eq_nil_iff.1 h '/' hmem
  · exact absurd (List.all_eq_true.2 (List.rdropWhile_eq_nil_iff.1 h)) hall

theorem isAbsolute_parentPath (p : List Char) : isAbsolute (parentPath p) = isAbsolute p := by
  rcases eq_or_ne (parentPath p) [] with hnil | hne
  · rw [hnil, isAbsolute_of_notMem (slash_notMem_of_parentPath_eq_nil hnil)]
    rfl
  · exact isAbsolute_of_starts (parentPath_starts p) hne

theorem stem_starts (p : List Char) : stem p <+: filename p := by
  unfold stem
  dsimp only
  split_ifs
  · exact List.prefix_rfl
  · exact (List.dropLast_prefix _).trans (List.rdropWhile_prefix _ _)

theorem slash_notMem_stem (p : List Char) : '/' ∉ stem p :=
  fun hmem => slash_notMem_filename p ((stem_starts p).subset hmem)

theorem stem_congr (h : filename p = filename q) : stem p = stem q := by
  unfold stem
  rw [h]

/-! ### Paths made of names -/

theorem names_intercalate (h : ∀ n ∈ ns, n ≠ [] ∧ '/' ∉ n) : names (['/'].intercalate ns) = ns := by
  rcases eq_or_ne ns [] with rfl | hne
  · rfl
  · unfold names
    rw [List.splitOn_intercalate _ (fun n hn => (h n hn).2) hne]
    exact List.filter_eq_self.2 fun n hn => by simpa using (h n hn).1

theorem names_ofNames (h : ∀ n ∈ ns, n ≠ [] ∧ '/' ∉ n) : names (ofNames absolute ns) = ns := by
  cases absolute with
  | false => exact names_intercalate h
  | true => exact (names_slash_cons _).trans (names_intercalate h)

theorem intercalate_concat (hns : ns ≠ []) (n : List Char) :
    ['/'].intercalate (ns ++ [n]) = ['/'].intercalate ns ++ '/' :: n := by
  induction ns with
  | nil => exact absurd rfl hns
  | cons m ns ih =>
    rcases eq_or_ne ns [] with rfl | hne
    · simp
    · rw [List.cons_append, List.intercalate_cons_of_ne_nil (by simp), ih hne, List.intercalate_cons_of_ne_nil hne]
      simp

theorem ofNames_concat (absolute : Bool) (hns : ns ≠ []) (n : List Char) :
    ofNames absolute (ns ++ [n]) = ofNames absolute ns ++ '/' :: n := by
  unfold ofNames
  rw [intercalate_concat hns, List.append_assoc]

theorem isAbsolute_ofNames (h : ∀ n ∈ ns, n ≠ [] ∧ '/' ∉ n) : isAbsolute (ofNames absolute ns) = absolute := by
  cases absolute with
  | true => rfl
  | false =>
    induction ns using List.reverseRecOn with
    | nil => rfl
    | append_singleton ns n ih =>
      have hslash : '/' ∉ n := (h n (by simp)).2
      have hns : isAbsolute (ofNames false ns) = false := ih fun m hm => h m (by simp [hm])
      rcases eq_or_ne ns [] with rfl | hnil
      · simpa [ofNames] using isAbsolute_of_notMem hslash
      · have hofNames : ofNames false ns ≠ [] := by
          intro heq
          have hnames : names (ofNames false ns) = ns := names_ofNames fun m hm => h m (List.mem_append_left [n] hm)
          rw [heq] at hnames
          exact hnil hnames.symm
        rw [ofNames_concat false hnil, isAbsolute_append hofNames, hns]

theorem filename_ofNames (absolute : Bool) (ns : List (List Char)) (hn : '/' ∉ n) :
    filename (ofNames absolute (ns ++ [n])) = n := by
  rcases eq_or_ne ns [] with rfl | hne
  · cases absolute with
    | false => simpa [ofNames] using filename_eq_self hn
    | true => simpa [ofNames] using (filename_append_slash [] n).trans (filename_eq_self hn)
  · rw [ofNames_concat absolute hne, filename_append_slash, filename_eq_self hn]

theorem filename_ofNames_ne_nil (h : ∀ n ∈ ns, n ≠ [] ∧ '/' ∉ n) (hns : ns ≠ []) :
    filename (ofNames absolute ns) ≠ [] := by
  obtain ⟨ms, n, rfl⟩ := (List.eq_nil_or_concat' ns).resolve_left hns
  obtain ⟨hne, hslash⟩ := h n (by simp)
  rwa [filename_ofNames absolute ms hslash]

theorem lastElement_eq_nil (h : filename p ≠ []) : lastElement p = [] := if_neg fun hand => h hand.1

theorem elements_ofNames (h : ∀ n ∈ ns, n ≠ [] ∧ '/' ∉ n) (hns : ns ≠ []) :
    elements (ofNames absolute ns) = rootElement absolute ++ ns := by
  unfold elements
  rw [isAbsolute_ofNames h, names_ofNames h, lastElement_eq_nil (filename_ofNames_ne_nil h hns), List.append_nil]

theorem elements_ofNames_slash (h : ∀ n ∈ ns, n ≠ [] ∧ '/' ∉ n) (hns : ns ≠ []) :
    elements (ofNames absolute ns ++ ['/']) = rootElement absolute ++ ns ++ [[]] := by
  have hne : ofNames absolute ns ≠ [] := by
    intro hnil
    have hnames : names (ofNames absolute ns) = ns := names_ofNames h
    exact hns (hnames.symm.trans (by rw [hnil]; rfl))
  have hlast : lastElement (ofNames absolute ns ++ ['/']) = [[]] := by
    refine if_pos ⟨filename_append_slash _ [], ?_⟩
    rwa [names_concat_slash, names_ofNames h]
  unfold elements
  rw [isAbsolute_append hne, isAbsolute_ofNames h, names_concat_slash, names_ofNames h, hlast]

theorem ofNames_injective (h : ∀ n ∈ ns, n ≠ [] ∧ '/' ∉ n) (h' : ∀ n ∈ ms, n ≠ [] ∧ '/' ∉ n)
    (heq : ofNames absolute ns = ofNames absolute ms) : ns = ms := by
  have hnames : names (ofNames absolute ns) = ns := names_ofNames h
  rw [← hnames, heq, names_ofNames h']

theorem join_ofNames (absolute : Bool) (h : ∀ n ∈ ns, n ≠ [] ∧ '/' ∉ n) (hn : '/' ∉ n) :
    join (ofNames absolute ns) n = ofNames absolute (ns ++ [n]) := by
  unfold join
  rw [isAbsolute_of_notMem hn, if_neg Bool.false_ne_true]
  rcases eq_or_ne ns [] with rfl | hns
  · have hroot : filename (ofNames absolute []) = [] := by cases absolute <;> rfl
    rw [if_pos hroot]
    simp [ofNames]
  · rw [if_neg (filename_ofNames_ne_nil h hns), ofNames_concat absolute hns]

theorem rdropWhile_append_slash (q : List Char) (hn : '/' ∉ n) :
    (q ++ '/' :: n).rdropWhile (· ≠ '/') = q ++ ['/'] := by
  have hpieces : ∀ c ∈ n.reverse, decide (c ≠ '/') = true := by
    intro c hc
    have hne : c ≠ '/' := fun heq => hn (heq ▸ List.mem_reverse.1 hc)
    simpa using hne
  unfold List.rdropWhile
  rw [List.reverse_append, List.reverse_cons, List.append_assoc, List.dropWhile_append_of_pos hpieces]
  simp

theorem parentPath_append_slash (hq : filename q ≠ []) (hn : '/' ∉ n) : parentPath (q ++ '/' :: n) = q := by
  obtain ⟨hne, hlast⟩ : ∃ hne : q ≠ [], q.getLast hne ≠ '/' := by
    simpa [filename, List.rtakeWhile_eq_nil_iff] using hq
  have hall : ¬(q ++ ['/']).all (· = '/') = true := by
    intro hall
    simp only [List.all_eq_true, decide_eq_true_eq] at hall
    exact hlast (hall _ (List.mem_append_left _ (List.getLast_mem hne)))
  unfold parentPath
  dsimp only
  rw [rdropWhile_append_slash q hn, if_neg hall, List.rdropWhile_concat_pos _ _ _ (by simp)]
  exact List.rdropWhile_eq_self_iff.2 fun _ => by simpa using hlast

theorem parentPath_ofNames (absolute : Bool) (h : ∀ n ∈ ns, n ≠ [] ∧ '/' ∉ n) (hn : '/' ∉ n) :
    parentPath (ofNames absolute (ns ++ [n])) = ofNames absolute ns := by
  rcases eq_or_ne ns [] with rfl | hns
  · cases absolute with
    | false =>
      have hpiece : ofNames false ([] ++ [n]) = n := by simp [ofNames]
      have hnil : n.rdropWhile (· ≠ '/') = [] := List.rdropWhile_eq_nil_iff.2 fun c hc => by
        have hne : c ≠ '/' := fun heq => hn (heq ▸ hc)
        simpa using hne
      rw [hpiece, parentPath, hnil]
      rfl
    | true =>
      have hpiece : ofNames true ([] ++ [n]) = [] ++ '/' :: n := by simp [ofNames]
      rw [hpiece, parentPath, rdropWhile_append_slash [] hn]
      rfl
  · rw [ofNames_concat absolute hns, parentPath_append_slash (filename_ofNames_ne_nil h hns) hn]

/-! ### `lexically_normal` -/

/-- What is left of names without dot-dots: they push everything but the dots. -/
theorem foldl_push (h : dotdot ∉ ms) (ns : List (List Char)) :
    ms.foldl (push absolute) ns = ns ++ ms.filter (· ≠ dot) := by
  induction ms generalizing ns with
  | nil => simp
  | cons m ms ih =>
    obtain ⟨hm, hms⟩ := not_or.1 (List.mem_cons.not.1 h)
    rw [List.foldl_cons, ih hms]
    rcases eq_or_ne m dot with rfl | hdot
    · simp [push]
    · simp [push, hdot, Ne.symm hm]

theorem reduce_append (h : dotdot ∉ ms) :
    reduce absolute (ns ++ ms) = reduce absolute ns ++ ms.filter (· ≠ dot) := by
  unfold reduce
  rw [List.foldl_append, foldl_push h]

/-- Dot-dots at the front, of a relative path only, and then names. -/
def Reduced (absolute : Bool) (ns : List (List Char)) : Prop :=
  ∃ k ms, ns = List.replicate k dotdot ++ ms ∧ (absolute = true → k = 0) ∧ ∀ m ∈ ms, m ≠ dot ∧ m ≠ dotdot

theorem Reduced.push (h : Reduced absolute ns) (n : List Char) : Reduced absolute (push absolute ns n) := by
  obtain ⟨k, ms, rfl, hk, hms⟩ := h
  unfold FsPath.push
  split_ifs with hdot hdotdot hnil habsolute hlast
  · exact ⟨k, ms, rfl, hk, hms⟩
  · exact ⟨0, [], rfl, fun _ => rfl, nofun⟩
  · exact ⟨1, [], rfl, fun h => absurd h habsolute, nofun⟩
  · rcases List.eq_nil_or_concat' ms with rfl | ⟨ms, m, rfl⟩
    · rw [List.append_nil] at hnil ⊢
      refine ⟨k + 1, [], by rw [List.append_nil, List.replicate_succ'], fun h => absurd (hk h) ?_, nofun⟩
      exact fun hzero => hnil (by rw [hzero, List.replicate_zero])
    · rw [← List.append_assoc, List.getLast?_concat, Option.some_inj] at hlast
      exact absurd hlast (hms m (by simp)).2
  · rcases List.eq_nil_or_concat' ms with rfl | ⟨ms, m, rfl⟩
    · rw [List.append_nil] at hnil hlast
      refine absurd ?_ hlast
      cases k with
      | zero => exact absurd rfl hnil
      | succ k => rw [List.replicate_succ', List.getLast?_concat]
    · rw [← List.append_assoc, List.dropLast_concat]
      exact ⟨k, ms, rfl, hk, fun m' hm' => hms m' (List.mem_append_left _ hm')⟩
  · refine ⟨k, ms ++ [n], by simp, hk, fun m hm => ?_⟩
    rcases List.mem_append.1 hm with hm | hm
    · exact hms m hm
    · exact List.mem_singleton.1 hm ▸ ⟨hdot, hdotdot⟩

theorem reduced_reduce (absolute : Bool) (ns : List (List Char)) : Reduced absolute (reduce absolute ns) := by
  unfold reduce
  induction ns using List.reverseRecOn with
  | nil => exact ⟨0, [], rfl, fun _ => rfl, nofun⟩
  | append_singleton ns n ih =>
    rw [List.foldl_append]
    exact ih.push n

theorem reduce_replicate (k : Nat) : reduce false (List.replicate k dotdot) = List.replicate k dotdot := by
  induction k with
  | zero => rfl
  | succ k ih =>
    unfold reduce at ih ⊢
    rw [List.replicate_succ', List.foldl_append, ih]
    cases k with
    | zero => rfl
    | succ k => simp [push, List.replicate_succ', show dotdot ≠ dot by decide]

theorem Reduced.reduce_eq (h : Reduced absolute ns) : reduce absolute ns = ns := by
  obtain ⟨k, ms, rfl, hk, hms⟩ := h
  have hups : reduce absolute (List.replicate k dotdot) = List.replicate k dotdot := by
    cases absolute with
    | false => exact reduce_replicate k
    | true => rw [hk rfl]; rfl
  rw [reduce_append fun hmem => (hms _ hmem).2 rfl, hups]
  congr 1
  exact List.filter_eq_self.2 fun m hm => by simpa using (hms m hm).1

theorem mem_of_mem_push {m : List Char} (h : m ∈ push absolute ns n) : m ∈ ns ∨ m = n := by
  unfold push at h
  split_ifs at h with hdot hdotdot
  · exact .inl h
  · simp at h
  · exact .inr (by simpa [hdotdot] using h)
  · simpa [hdotdot] using h
  · exact .inl (List.mem_of_mem_dropLast h)
  · simpa using h

theorem reduce_subset (absolute : Bool) (ns : List (List Char)) : reduce absolute ns ⊆ ns := by
  unfold reduce
  induction ns using List.reverseRecOn with
  | nil => exact List.Subset.refl _
  | append_singleton ns n ih =>
    rw [List.foldl_append]
    intro m hm
    rcases mem_of_mem_push hm with hm | rfl
    · exact List.mem_append_left _ (ih hm)
    · simp

theorem mem_reduce_names (h : n ∈ reduce absolute (names p)) : n ≠ [] ∧ '/' ∉ n :=
  mem_names (reduce_subset _ _ h)

/-- `filename` is a name, and not one that normalisation takes away. -/
def Named (p : List Char) : Prop := filename p ∉ [[], dot, dotdot]

theorem named_of_two_lt (h : 2 < (filename p).length) : Named p := by
  intro hmem
  simp only [List.mem_cons, List.not_mem_nil, or_false] at hmem
  rcases hmem with heq | heq | heq <;> rw [heq] at h <;> exact absurd h (by decide)

theorem reduce_names (h : Named p) : reduce absolute (names p) = reduce absolute (names (parentPath p)) ++ [filename p] := by
  simp only [Named, List.mem_cons, List.not_mem_nil, or_false, not_or] at h
  rw [names_parentPath h.1, reduce_append (by simpa using Ne.symm h.2.2)]
  simp [h.2.1]

theorem filter_names (h : Named p) :
    (names p).filter (· ≠ dot) = (names (parentPath p)).filter (· ≠ dot) ++ [filename p] := by
  simp only [Named, List.mem_cons, List.not_mem_nil, or_false, not_or] at h
  rw [names_parentPath h.1, List.filter_append]
  simp [h.2.1]

theorem lexicallyNormal_of_named (h : Named p) :
    lexicallyNormal p = ofNames (isAbsolute p) (reduce (isAbsolute p) (names p)) := by
  have hne : p ≠ [] := by
    rintro rfl
    exact h (by simp)
  have hns : reduce (isAbsolute p) (names p) ≠ [] := by
    rw [reduce_names h]
    simp
  unfold lexicallyNormal
  dsimp only
  rw [if_neg hne, if_neg hns, if_neg fun hlast => h hlast.1]

/-- The elements of a path that `lexicallyNormal` gives a trailing slash, or that is nothing but dots, end with an
element that is no name. -/
theorem elements_lexicallyNormal (p : List Char) :
    ∃ ends, (ends = [] ∨ ends = [[]] ∨ ends = [dot]) ∧ elements (lexicallyNormal p) =
      rootElement (isAbsolute p) ++ reduce (isAbsolute p) (names p) ++ ends := by
  unfold lexicallyNormal
  dsimp only
  split_ifs with hnil hns habsolute hlast
  · subst hnil
    exact ⟨[], .inl rfl, rfl⟩
  · rw [hns, habsolute]
    exact ⟨[], .inl rfl, rfl⟩
  · rw [hns, Bool.eq_false_iff.2 habsolute]
    exact ⟨[dot], .inr (.inr rfl), rfl⟩
  · exact ⟨[[]], .inr (.inl rfl), elements_ofNames_slash (fun _ => mem_reduce_names) hns⟩
  · exact ⟨[], .inl rfl, by rw [elements_ofNames (fun _ => mem_reduce_names) hns, List.append_nil]⟩

/-- The last name is no dot, or the path is a spelling of the root directory, or dot-dots are what is left of it. -/
def EndsInName (p : List Char) : Prop :=
  Named p ∨ (isAbsolute p = true ∧ reduce (isAbsolute p) (names p) = []) ∨
    (reduce (isAbsolute p) (names p)).getLast? = some dotdot

instance (p : List Char) : Decidable (EndsInName p) := inferInstanceAs (Decidable (¬_ ∨ _))

/-- Only such paths keep nothing behind the last name when they are normalised. -/
theorem elements_lexicallyNormal_eq_iff (hne : p ≠ []) :
    elements (lexicallyNormal p) = rootElement (isAbsolute p) ++ reduce (isAbsolute p) (names p) ↔ EndsInName p := by
  have hnot : filename p ∈ [[], dot, dotdot] → ¬Named p := fun hmem hnamed => hnamed hmem
  unfold lexicallyNormal EndsInName
  dsimp only
  rw [if_neg hne]
  by_cases hns : reduce (isAbsolute p) (names p) = []
  · have hunnamed : ¬Named p := fun hnamed => by simp [reduce_names hnamed] at hns
    rw [if_pos hns, hns]
    split_ifs with habsolute
    · exact iff_of_true (by rw [habsolute]; rfl) (.inr (.inl ⟨habsolute, rfl⟩))
    · rw [Bool.eq_false_iff.2 habsolute]
      exact iff_of_false (by decide) (by simp [hunnamed])
  · rw [if_neg hns]
    split_ifs with hlast
    · rw [elements_ofNames_slash (fun _ => mem_reduce_names) hns]
      refine iff_of_false (by simp) ?_
      rintro (hnamed | ⟨-, hnil⟩ | hdots)
      · exact hnot hlast.1 hnamed
      · exact hns hnil
      · exact hlast.2 hdots
    · rw [elements_ofNames (fun _ => mem_reduce_names) hns]
      refine iff_of_true rfl ?_
      rw [not_and_or, not_not] at hlast
      exact hlast.imp_right .inr

theorem lexicallyNormal_of_endsInName (hne : p ≠ []) (h : EndsInName p) :
    lexicallyNormal p = ofNames (isAbsolute p) (reduce (isAbsolute p) (names p)) := by
  unfold lexicallyNormal
  dsimp only
  rw [if_neg hne]
  by_cases hns : reduce (isAbsolute p) (names p) = []
  · rw [if_pos hns]
    rcases h with hnamed | ⟨habsolute, -⟩ | hdots
    · rw [reduce_names hnamed] at hns
      exact absurd hns (by simp)
    · rw [if_pos habsolute, hns, habsolute]
      rfl
    · rw [hns] at hdots
      cases hdots
  · rw [if_neg hns, if_neg]
    rintro ⟨hfilename, hlast⟩
    rcases h with hnamed | ⟨-, hnil⟩ | hdots
    · exact hnamed hfilename
    · exact hns hnil
    · exact hlast hdots

/-- Of a path with names after it, a normalised path is a prefix only as long as it ends with a name. -/
theorem elements_lexicallyNormal_of_inside (hms : ∀ m ∈ ms, m ≠ [] ∧ m ≠ dot)
    (h : elements (lexicallyNormal p) <+: rootElement (isAbsolute p) ++ reduce (isAbsolute p) (names p) ++ ms) :
    elements (lexicallyNormal p) = rootElement (isAbsolute p) ++ reduce (isAbsolute p) (names p) := by
  obtain ⟨ends, hends, heq⟩ := elements_lexicallyNormal p
  rw [heq] at h ⊢
  have hinside := (List.prefix_append_right_inj _).1 h
  rcases hends with rfl | rfl | rfl
  · rw [List.append_nil]
  · exact absurd rfl (hms [] (hinside.subset (by simp))).1
  · exact absurd rfl (hms dot (hinside.subset (by simp))).2

theorem lexicallyNormal_idem (h : Named p) : lexicallyNormal (lexicallyNormal p) = lexicallyNormal p := by
  have hnames : ∀ n ∈ reduce (isAbsolute p) (names p), n ≠ [] ∧ '/' ∉ n := fun _ => mem_reduce_names
  have hnamed : Named (ofNames (isAbsolute p) (reduce (isAbsolute p) (names p))) := by
    unfold Named
    rwa [reduce_names h, filename_ofNames _ _ (slash_notMem_filename p)]
  rw [lexicallyNormal_of_named h, lexicallyNormal_of_named hnamed, isAbsolute_ofNames hnames, names_ofNames hnames,
    (reduced_reduce _ _).reduce_eq]

theorem Named.join (h : Named q) (hq : isAbsolute q = false) : Named (join p q) := by
  unfold Named
  rwa [filename_join hq]

/-- Below a directory, a normalised path is that of the directory and the names that are no dots. -/
theorem lexicallyNormal_join (hq : isAbsolute q = false) (hnamed : Named q) (hdotdot : dotdot ∉ names q) :
    lexicallyNormal (join p q) =
      ofNames (isAbsolute p) (reduce (isAbsolute p) (names p) ++ (names q).filter (· ≠ dot)) := by
  rw [lexicallyNormal_of_named (hnamed.join hq), isAbsolute_join hq, names_join hq, reduce_append hdotdot]

theorem elements_lexicallyNormal_of_named (h : Named p) :
    elements (lexicallyNormal p) = rootElement (isAbsolute p) ++ reduce (isAbsolute p) (names p) := by
  rw [lexicallyNormal_of_named h]
  refine elements_ofNames (fun _ => mem_reduce_names) ?_
  rw [reduce_names h]
  simp

/-! ### `generic_string` -/

theorem genericString_eq (h : filename p ≠ []) : genericString p = ofNames (isAbsolute p) (names p) := by
  unfold genericString
  rw [lastElement_eq_nil h, List.append_nil]

theorem names_genericString (h : filename p ≠ []) : names (genericString p) = names p := by
  rw [genericString_eq h]
  exact names_ofNames fun _ => mem_names

theorem isAbsolute_genericString (h : filename p ≠ []) : isAbsolute (genericString p) = isAbsolute p := by
  rw [genericString_eq h]
  exact isAbsolute_ofNames fun _ => mem_names

theorem filename_genericString (h : filename p ≠ []) : filename (genericString p) = filename p := by
  rw [genericString_eq h, names_parentPath h]
  exact filename_ofNames _ _ (slash_notMem_filename p)

end FsPath
