import IdtxCore.FileStore

/-!
# The uploads root when the server starts

`EnsureRootExists` makes the directories of the root and tries to write a file into it. What it leaves is a root from
which the requests start, as `FileStore` asks, if the root is spelt without dots and there are no links. All that the
probe may leave behind is its own file (`Probed`), and it takes away one that was left there before.
-/

namespace IdtxCore
open FsPath FileTree UsdFileLocator

namespace FileServingController

section Probe
variable {α : Type} {t t' t'' : FileTree α} {cwd r d x : Place} {root path n : List Char} {disk : DiskFaults} {k : Nat}

theorem leadsInto_writeTest (hr : t.node r = some .directory) (hk : k ≤ maxLinks)
    (hwalks : t.Walks k (start cwd root) (names root) r) : t.LeadsInto cwd (join root writeTest) r writeTest := by
  have hstart : start cwd (join root writeTest) = start cwd root := start_join (by decide) ..
  refine ⟨by decide, hr, names root, ?_, k, hk, hstart ▸ hwalks⟩
  rw [components_of_filename (by rw [filename_join (by decide)]; decide), names_join (by decide)]
  rfl

/-- Nothing has changed but a file that may have come or gone. -/
def Probed (x : Place) (t t' : FileTree α) : Prop :=
  ∀ p, t'.node p = t.node p ∨ p = x ∧ t'.isDir p = false ∧ t'.isLink p = false

theorem Probed.trans (h : Probed x t t') (h' : Probed x t' t'') : Probed x t t'' := by
  intro p
  rcases h' p with heq | hprobe
  · unfold FileTree.isDir FileTree.isLink
    rw [heq]
    exact h p
  · exact .inr hprobe

theorem Probed.isDir (h : Probed x t t') (hdir : t.isDir x = false) : t'.isDir x = false := by
  rcases h x with heq | ⟨-, hdir', -⟩
  · unfold FileTree.isDir at hdir ⊢
    rwa [heq]
  · exact hdir'

theorem Probed.isLink {p : Place} (h : Probed x t t') (hlink : t.isLink p = false) : t'.isLink p = false := by
  rcases h p with heq | ⟨-, -, hlink'⟩
  · unfold FileTree.isLink at hlink ⊢
    rwa [heq]
  · exact hlink'

theorem Probed.keeps (h : Probed x t t') (hdir : t.isDir x = false) (hlink : t.isLink x = false) : Keeps t t' := by
  intro p hp
  rcases h p with heq | ⟨rfl, -⟩
  · exact heq
  · rw [hdir, hlink] at hp
    exact absurd hp (by decide)

theorem probed_unlink (h : t.LeadsInto cwd path d n)
    (hdir : t.isDir (d ++ [n]) = false) (removes : Bool) :
    Probed (d ++ [n]) t (if removes then t.unlink cwd path else t) := by
  intro p
  cases removes with
  | false => exact .inl rfl
  | true =>
    have hnode := node_remove (t := t) (p := d ++ [n]) (fun heq => Bool.eq_false_iff.1 hdir (isDir_iff.2 heq)) p
    rw [if_pos rfl, h.unlink_eq]
    by_cases hp : p = d ++ [n]
    · rw [if_pos hp] at hnode
      refine .inr ⟨hp, ?_, ?_⟩
      · rw [FileTree.isDir, hnode, Option.any_none]
      · rw [FileTree.isLink, hnode, Option.any_none]
    · rw [if_neg hp] at hnode
      exact .inl hnode

theorem probed_write {c : α} (h : t.LeadsInto cwd path d n)
    (hlink : t.isLink (d ++ [n]) = false) (hwrite : t.write cwd path c = some t') : Probed (d ++ [n]) t t' := by
  rw [h.write_eq hlink] at hwrite
  intro p
  rw [(put_eq_some hwrite).2.2.2]
  by_cases hp : p = d ++ [n]
  · refine .inr ⟨hp, ?_, ?_⟩
    · rw [FileTree.isDir, (put_eq_some hwrite).2.2.2, if_pos hp]
      rfl
    · rw [FileTree.isLink, (put_eq_some hwrite).2.2.2, if_pos hp]
      rfl
  · exact .inl (if_neg hp)

theorem ensureRootExists_ok {empty : α} (hcwd : t.node cwd = some .directory) (hnames : ∀ n ∈ names root, IsName n)
    (hlinks : ∀ p, start cwd root <+: p → t.isLink p = false)
    (hprobe : t.node (start cwd root ++ names root ++ [writeTest]) ≠ some .directory)
    (h : ensureRootExists t disk cwd root empty = (t', .ok ())) :
    Keeps t t' ∧ t'.Walks 0 (start cwd root) (names root) (start cwd root ++ names root) ∧
      t'.node (start cwd root ++ names root) = some .directory ∧
      ∀ p, start cwd root <+: p → t'.isLink p = false := by
  have hgrows := createDirectories_grows t disk.refused cwd root
  unfold ensureRootExists at h
  split at h
  · cases h
  · rename_i t₁ hmade
    rw [hmade] at hgrows
    obtain ⟨hne, k, hk, r, hwalks, hr⟩ := createDirectories_ok hcwd hmade
    have hlinks₁ := hgrows.no_links hlinks
    obtain ⟨rfl, hend⟩ := hwalks.eq_append hlinks₁ (dotdot_notMem hnames)
    rw [filter_eq_self hnames] at hend
    subst hend
    -- the directories that are made do not have the name of the probe
    have hdir₁ : t₁.isDir (start cwd root ++ names root ++ [writeTest]) = false := by
      have hnode : (t.createEach disk.refused (start cwd root) [] (names root)).1.node
          (start cwd root ++ names root ++ [writeTest]) = t.node (start cwd root ++ names root ++ [writeTest]) :=
        node_createEach .nil (Nat.zero_le _) (node_start hcwd root) hlinks hnames fun hprefix => by
          have hlength := hprefix.length_le
          simp only [List.length_append, List.length_singleton] at hlength
          omega
      unfold createDirectories at hmade
      rw [if_neg hne] at hmade
      rw [hmade] at hnode
      exact Bool.eq_false_iff.2 fun heq => hprobe (hnode ▸ isDir_iff.1 heq)
    have hlink₁ : t₁.isLink (start cwd root ++ names root ++ [writeTest]) = false := hlinks₁ _ (by simp)
    have hleads := leadsInto_writeTest hr hk hwalks
    have hcleaned := probed_unlink hleads hdir₁ disk.removes
    dsimp only at h
    generalize (if disk.removes then t₁.unlink cwd (join root writeTest) else t₁) = t₂ at h hcleaned
    have hleads₂ := hleads.keeps (hcleaned.keeps hdir₁ hlink₁)
    split at h
    · cases h
    · rename_i t₃ hwrite
      split_ifs at hwrite
      have hwritten := probed_write hleads₂ (hcleaned.isLink hlink₁) hwrite
      have hthere := hcleaned.trans hwritten
      have hleads₃ := hleads.keeps (hthere.keeps hdir₁ hlink₁)
      have hall := hthere.trans (probed_unlink hleads₃ (hthere.isDir hdir₁) disk.removes)
      rw [(Prod.mk.inj h).1] at hall
      have hkeeps := hall.keeps hdir₁ hlink₁
      exact ⟨hgrows.keeps.trans hkeeps, hwalks.keeps hkeeps hr, hkeeps.directory hr,
        fun p hp => hall.isLink (hlinks₁ p hp)⟩

end Probe

/-- The server starts on what `EnsureRootExists` leaves, if the root is spelt without dots. -/
theorem start_of_ensureRootExists {c : FileServingController} {t t' : FileTree Bytes} {disk : DiskFaults}
    (hcwd : t.node c.cwd = some .directory) (hnames : ∀ n ∈ names c.root, IsName n)
    (hfilename : FsPath.filename c.root ≠ [])
    (hlinks : ∀ p, start c.cwd c.root <+: p → t.isLink p = false)
    (hprobe : t.node (start c.cwd c.root ++ names c.root ++ [writeTest]) ≠ some .directory)
    (h : ensureRootExists t disk c.cwd c.root [] = (t', .ok ())) :
    Start c (start c.cwd c.root ++ names c.root)
      (fun ns => t'.content (start c.cwd c.root ++ names c.root ++ ns)) ⟨t', [], []⟩ := by
  obtain ⟨hkeeps, hwalks, hdir, hlinks'⟩ := ensureRootExists_ok hcwd hnames hlinks hprobe h
  have hlast := names_parentPath hfilename
  have hname : IsName (FsPath.filename c.root) := hnames _ (by rw [hlast]; simp)
  have hnamed : Named c.root := by simp [Named, hname.1, hname.2.2.1, hname.2.2.2]
  have hne : c.root ≠ [] := by
    intro heq
    rw [heq] at hfilename
    exact hfilename rfl
  have hslashes : ∀ n ∈ names c.root, n ≠ [] ∧ '/' ∉ n := fun n hn => ⟨(hnames n hn).1, (hnames n hn).2.1⟩
  have hnormal : lexicallyNormal c.root = ofNames (isAbsolute c.root) (names c.root) := by
    have hreduce : reduce (isAbsolute c.root) ([] ++ names c.root) = [] ++ names c.root := by
      rw [reduce_append (dotdot_notMem hnames), filter_eq_self hnames]
      rfl
    rw [lexicallyNormal_of_endsInName hne (.inl hnamed)]
    exact congrArg _ hreduce
  have hstart : start c.cwd (ofNames (isAbsolute c.root) (names c.root)) = start c.cwd c.root :=
    start_ofNames hslashes ..
  refine ⟨⟨hkeeps.directory hcwd, hdir, ?_, ?_, fun p hp => hlinks' p ((List.prefix_append ..).trans hp)⟩,
    fun _ => rfl, rfl, rfl⟩
  · refine (canonical_eq_some hne).2 ⟨0, Nat.zero_le _, ?_⟩
    rw [components_of_filename hfilename]
    exact hwalks
  · rw [hnormal]
    refine (canonical_eq_some fun hnil => ?_).2 ⟨0, Nat.zero_le _, ?_⟩
    · have hlast' : FsPath.filename (ofNames (isAbsolute c.root) (names c.root)) ≠ [] :=
        filename_ofNames_ne_nil hslashes (by simp [hlast])
      rw [hnil] at hlast'
      exact hlast' rfl
    · rw [components_ofNames hslashes, hstart]
      exact hwalks

end FileServingController

end IdtxCore
