import Mathlib.Data.List.Infix
import IdtxCore.StageCommitter

/-!
# Where a commit of a usdz package writes

Every path that the commit names is in its temporary directory, or is the temporary package or the
original, exactly if the names of the package's entries lead there (`Lands`): an entry name is joined to
the temporary directory as it is, and `..` components and absolute names lead out of it.
-/

namespace IdtxCore
open LexicalPath

namespace Disk
variable {disk : Disk} {p q src dst : Path} {content : Content} {ok : Bool} {made : Option Nat} {x : Path}

@[simp] theorem touch_touched : (disk.touch p).touched = disk.touched ++ [p] := rfl

@[simp] theorem write_touched : (disk.write p content ok).touched = disk.touched ++ [p] := by
  cases ok <;> rfl

@[simp] theorem remove_touched : (disk.remove p ok).touched = disk.touched ++ [p] := by
  cases ok <;> rfl

@[simp] theorem removeAll_touched : (disk.removeAll p ok).touched = disk.touched ++ [p] := by
  cases ok <;> rfl

@[simp] theorem rename_touched : (disk.rename src dst ok).touched = disk.touched ++ [src, dst] := by
  cases ok <;> simp [rename, touch, put]

@[simp] theorem touch_dirs : (disk.touch p).dirs = disk.dirs := rfl

@[simp] theorem write_dirs : (disk.write p content ok).dirs = disk.dirs := by
  cases ok <;> rfl

@[simp] theorem remove_dirs : (disk.remove p ok).dirs = disk.dirs := by
  cases ok <;> rfl

@[simp] theorem rename_dirs : (disk.rename src dst ok).dirs = disk.dirs := by
  cases ok <;> rfl

theorem removeAll_dirs (h : disk.dirs x = true) :
    normal p <+: x ∨ (disk.removeAll p ok).dirs x = true := by
  cases ok with
  | false => exact .inr h
  | true =>
    by_cases hx : normal p <+: x
    · exact .inl hx
    · right
      simp [removeAll, h, hx]

theorem dirs_of_removeAll (h : (disk.removeAll p ok).dirs x = true) : disk.dirs x = true := by
  cases ok with
  | false => exact h
  | true =>
    simp only [removeAll, if_true, Bool.and_eq_true] at h
    exact h.1

theorem mem_missing : q ∈ disk.missing p ↔
    q <+: p ∧ (∃ component ∈ q.getLast?, Plain component) ∧ disk.dirs (normal q) = false := by
  unfold missing
  rw [List.mem_filter, List.mem_inits, Bool.and_eq_true, decide_eq_true_iff, Bool.not_eq_true']

theorem createDirectories_spec (disk : Disk) (p : Path) (made : Option Nat) : ∃ created,
    (disk.createDirectories p made).touched = disk.touched ++ created ∧
      (∀ q ∈ created, q ∈ disk.missing p) ∧
      ∀ x, (disk.createDirectories p made).dirs x = true ↔
        disk.dirs x = true ∨ ∃ q ∈ created, normal q = x := by
  cases made with
  | none =>
    refine ⟨_, rfl, fun q hq => hq, ?_⟩
    intro x
    simp [createDirectories]
  | some n =>
    refine ⟨_, rfl, fun q hq => List.mem_of_mem_take hq, ?_⟩
    intro x
    simp [createDirectories]

theorem createDirectories_dirs (hq : q <+: p) (hplain : ∃ component ∈ q.getLast?, Plain component) :
    (disk.createDirectories p none).dirs (normal q) = true := by
  cases hdirs : disk.dirs (normal q) with
  | true => simp [createDirectories, hdirs]
  | false =>
    have hmissing : q ∈ disk.missing p := mem_missing.2 ⟨hq, hplain, hdirs⟩
    simp only [createDirectories, Bool.or_eq_true, List.any_eq_true, decide_eq_true_iff]
    exact .inr ⟨q, hmissing, rfl⟩

end Disk

namespace StageCommitter
variable (d : CommitTarget)

/-- Where a commit may write. -/
def Allowed (p : Path) : Prop :=
  Inside d.tmpDir p ∨ normal p = normal d.tmpPkg ∨ normal p = normal d.dst

instance (p : Path) : Decidable (Allowed d p) := inferInstanceAs (Decidable (_ ∨ _ ∨ _))

/-- The directories on the way to `p` that are not there before the commit are where it may write. -/
def DirsLand (p : Path) : Prop :=
  ∀ q, q <+: p → (∃ component ∈ q.getLast?, Plain component) → d.disk.dirs (normal q) = false →
    Allowed d q

/-- The name of the entry leads to where the commit may write, and so does every directory on the way
that has to be made. -/
def Lands (e : ZipEntry) : Prop := Allowed d (d.outFile e.name) ∧ DirsLand d (d.outFile e.name).dropLast

/-- Nothing else was touched, and the directories outside the temporary one are still there. -/
structure Contained (disk : Disk) : Prop where
  allowed : ∀ p ∈ disk.touched, Allowed d p
  dirs : ∀ x, d.disk.dirs x = true → normal d.tmpDir <+: x ∨ disk.dirs x = true

def Accounted (disk : Disk) : Prop :=
  ∀ x, disk.dirs x = true → d.disk.dirs x = true ∨ ∃ p ∈ disk.touched, normal p = x

variable {d}

theorem contained_start : Contained d d.disk :=
  ⟨fun p hp => absurd hp (by simp [d.fresh]), fun _ h => .inr h⟩

theorem Contained.extend {disk disk' : Disk} {new : List Path} (h : Contained d disk)
    (htouched : disk'.touched = disk.touched ++ new) (hnew : ∀ p ∈ new, Allowed d p)
    (hdirs : ∀ x, disk.dirs x = true → normal d.tmpDir <+: x ∨ disk'.dirs x = true) :
    Contained d disk' := by
  refine ⟨?_, ?_⟩
  · intro p hp
    rw [htouched] at hp
    rcases List.mem_append.1 hp with hold | hp
    · exact h.allowed p hold
    · exact hnew p hp
  · intro x hx
    rcases h.dirs x hx with hin | hx'
    · exact .inl hin
    · exact hdirs x hx'

theorem contained_invariant : Invariant d (Allowed d) (DirsLand d) (fun _ => True) (Contained d) where
  touch hp h := h.extend rfl (by simpa using hp) fun _ hx => .inr hx
  write hp h := h.extend Disk.write_touched (by simpa using hp) fun _ hx => .inr (by simpa using hx)
  remove hp h := h.extend Disk.remove_touched (by simpa using hp) fun _ hx => .inr (by simpa using hx)
  removeAll h :=
    h.extend Disk.removeAll_touched (by simpa using .inl (Inside.refl _)) fun _ hx => Disk.removeAll_dirs hx
  rename hp _ h :=
    h.extend Disk.rename_touched (by simpa using ⟨hp, .inr (.inr rfl)⟩) fun _ hx => .inr (by simpa using hx)
  createDirectories {disk p made} hp h := by
    obtain ⟨created, htouched, hmissing, hdirs⟩ := disk.createDirectories_spec p made
    refine h.extend htouched ?_ fun x hx => .inr ((hdirs x).2 (.inl hx))
    intro q hq
    obtain ⟨hpre, hplain, hnone⟩ := Disk.mem_missing.1 (hmissing q hq)
    cases hbase : d.disk.dirs (normal q) with
    | false => exact hp q hpre hplain hbase
    | true =>
      -- a directory that was there and is gone was in the temporary directory
      rcases h.dirs _ hbase with hin | hx
      · exact .inl hin
      · rw [hnone] at hx
        cases hx

theorem dirsLand_tmpDir : DirsLand d d.tmpDir := by
  intro q hq _ hbase
  rcases List.prefix_concat_iff.1 hq with rfl | hq
  · exact .inl (Inside.refl _)
  · rw [d.dir_exists q hq] at hbase
    cases hbase

theorem touched_invariant (d : CommitTarget) (p : Path) :
    Invariant d (fun _ => True) (fun _ => True) (fun _ => True) (p ∈ ·.touched) where
  touch _ h := by simp [h]
  write _ h := by simp [h]
  remove _ h := by simp [h]
  removeAll h := by simp [h]
  rename _ _ h := by simp [h]
  createDirectories {disk p' made} _ h := by
    obtain ⟨created, htouched, -⟩ := disk.createDirectories_spec p' made
    rw [htouched]
    exact List.mem_append_left _ h

theorem Accounted.extend {disk disk' : Disk} {new : List Path} (h : Accounted d disk)
    (htouched : disk'.touched = disk.touched ++ new) (hdirs : ∀ x, disk'.dirs x = true → disk.dirs x = true) :
    Accounted d disk' := by
  intro x hx
  rcases h x (hdirs x hx) with hbase | ⟨p, hp, heq⟩
  · exact .inl hbase
  · exact .inr ⟨p, by rw [htouched]; exact List.mem_append_left _ hp, heq⟩

theorem Accounted.createDirectories {disk : Disk} (h : Accounted d disk) (p : Path) (made : Option Nat) :
    Accounted d (disk.createDirectories p made) := by
  obtain ⟨created, htouched, -, hdirs⟩ := disk.createDirectories_spec p made
  intro x hx
  rw [htouched]
  rcases (hdirs x).1 hx with hx | ⟨q, hq, heq⟩
  · rcases h x hx with hbase | ⟨q, hq, heq⟩
    · exact .inl hbase
    · exact .inr ⟨q, List.mem_append_left _ hq, heq⟩
  · exact .inr ⟨q, List.mem_append_right _ hq, heq⟩

theorem accounted_invariant : Invariant d (fun _ => True) (fun _ => True) (fun _ => True) (Accounted d) where
  touch _ h := h.extend rfl fun _ hx => hx
  write _ h := h.extend Disk.write_touched fun _ hx => by simpa using hx
  remove _ h := h.extend Disk.remove_touched fun _ hx => by simpa using hx
  removeAll h := h.extend Disk.removeAll_touched fun _ hx => Disk.dirs_of_removeAll hx
  rename _ _ h := h.extend Disk.rename_touched fun _ hx => by simpa using hx
  createDirectories _ h := h.createDirectories _ _

/-! ### If no call fails -/

def Touches (d : CommitTarget) (disk : Disk) (e : ZipEntry) : Prop :=
  d.outFile e.name ∈ disk.touched ∧
    ∀ q, q <+: (d.outFile e.name).dropLast → (∃ component ∈ q.getLast?, Plain component) →
      d.disk.dirs (normal q) = false → ∃ q' ∈ disk.touched, normal q' = normal q

theorem touches_invariant (e : ZipEntry) :
    Invariant d (fun _ => True) (fun _ => True) (fun _ => True) (Touches d · e) := by
  have hmono : ∀ {disk disk' : Disk}, (∀ p, p ∈ disk.touched → p ∈ disk'.touched) → Touches d disk e →
      Touches d disk' e := by
    intro disk disk' hsub h
    refine ⟨hsub _ h.1, ?_⟩
    intro q hq hplain hbase
    obtain ⟨q', hmem, heq⟩ := h.2 q hq hplain hbase
    exact ⟨q', hsub q' hmem, heq⟩
  exact
    { touch := fun hp => hmono fun p => (touched_invariant d p).touch hp
      write := fun hp => hmono fun p => (touched_invariant d p).write hp
      remove := fun hp => hmono fun p => (touched_invariant d p).remove hp
      removeAll := hmono fun p => (touched_invariant d p).removeAll
      rename := fun hp hok => hmono fun p => (touched_invariant d p).rename hp hok
      createDirectories := fun hp => hmono fun p => (touched_invariant d p).createDirectories hp }

theorem touches_extractEntry {disk : Disk} (h : Accounted d disk) {i : Nat} {e : ZipEntry}
    (hc : e.compressed = false) (hr : e.unreadable = false) : ∃ disk',
    extractEntry d {} i e disk = (.ok (), disk') ∧ Accounted d disk' ∧ Touches d disk' e := by
  refine ⟨(disk.createDirectories (d.outFile e.name).dropLast none).write (d.outFile e.name) e.content true,
    by simp only [extractEntry, hc, hr, Bool.false_eq_true, if_false, if_true, ZipEntry.contentAfter], ?_, ?_⟩
  · exact accounted_invariant.write trivial (h.createDirectories _ _)
  · refine ⟨by simp, ?_⟩
    intro q hq hplain hbase
    rcases h.createDirectories _ none _ (Disk.createDirectories_dirs hq hplain) with hx | ⟨q', hq', heq⟩
    · rw [hbase] at hx
      cases hx
    · exact ⟨q', by simp [hq'], heq⟩

theorem touches_extract {zip : List ZipEntry} (i : Nat) {disk : Disk} (h : Accounted d disk) :
    ∀ e ∈ reached zip, Touches d (extract d {} i zip disk).2 e := by
  induction zip generalizing i disk with
  | nil => simp [reached]
  | cons e rest ih =>
    by_cases hstored : e.compressed = false ∧ e.unreadable = false
    · obtain ⟨disk', hentry, hacc, htouches⟩ := touches_extractEntry h (i := i) hstored.1 hstored.2
      rw [reached_cons hstored.1 hstored.2]
      intro e' he'
      unfold extract
      rw [hentry]
      rcases List.mem_cons.1 he' with rfl | he'
      · exact (touches_invariant e').extract (fun _ _ => trivial) (fun _ _ => trivial) (i + 1) htouches
      · exact ih (i + 1) hacc e' he'
    · have hnil : reached (e :: rest) = [] := by
        unfold reached
        rw [List.takeWhile_cons_of_neg]
        simpa using hstored
      rw [hnil]
      simp

theorem touches_commitUsdz {zip : List ZipEntry} :
    ∀ e ∈ reached zip, Touches d (commitUsdz d {} zip d.disk).2 e := by
  intro e he
  have hacc : Accounted d ((d.disk.removeAll d.tmpDir true).createDirectories d.tmpDir none) :=
    Accounted.createDirectories (accounted_invariant.removeAll fun _ hx => .inl hx) _ _
  have hrepack := (touches_invariant e).repack {} trivial rfl
    ⟨trivial, trivial, fun _ _ => trivial, fun _ _ => trivial⟩ (touches_extract 0 hacc e he)
  exact (touches_invariant e).removeAll hrepack

theorem Allowed.congr {p q : Path} (h : normal p = normal q) (hp : Allowed d p) : Allowed d q := by
  unfold Allowed Inside at hp ⊢
  rw [← h]
  exact hp

/-- For every package: whatever its calls answer, the commit stays in its scratch space, if and only if
every entry that it reaches has a name that leads there. -/
theorem staysInside_iff (d : CommitTarget) (zip : List ZipEntry) :
    (∀ io, ∀ p ∈ (commitUsdz d io zip d.disk).2.touched, Allowed d p) ↔ ∀ e ∈ reached zip, Lands d e := by
  constructor
  · intro hall e he
    obtain ⟨hfile, hdirs⟩ := touches_commitUsdz (d := d) e he
    refine ⟨hall {} _ hfile, ?_⟩
    intro q hq hplain hbase
    obtain ⟨q', hmem, heq⟩ := hdirs q hq hplain hbase
    exact (hall {} q' hmem).congr heq
  · intro hlands io
    have hnames : Names d (Allowed d) (DirsLand d) zip :=
      ⟨dirsLand_tmpDir, .inr (.inl rfl), fun e he => (hlands e he).1, fun e he => (hlands e he).2⟩
    exact (contained_invariant.commitUsdz trivial hnames contained_start).allowed

/-- A relative name without `..` leads into the temporary directory. -/
theorem lands_of_relative {e : ZipEntry} (hrel : isAbsolute e.name = false) (hdots : ".." ∉ split e.name) :
    Lands d e := by
  have hout : d.outFile e.name = d.tmpDir ++ split e.name := by
    unfold CommitTarget.outFile join
    rw [hrel]
    rfl
  have hin : ∀ rest, rest <+: split e.name → Allowed d (d.tmpDir ++ rest) := fun rest hrest =>
    .inl (inside_append fun hmem => hdots (hrest.subset hmem))
  rw [Lands, hout]
  refine ⟨hin _ (List.prefix_refl _), ?_⟩
  intro q hq hplain hbase
  have hq' : q <+: d.tmpDir ++ split e.name := hq.trans (List.dropLast_prefix _)
  rcases List.prefix_or_prefix_of_prefix hq' (List.prefix_append _ _) with hq' | ⟨rest, rfl⟩
  · exact dirsLand_tmpDir q hq' hplain hbase
  · exact hin rest ((List.prefix_append_right_inj _).1 hq')

/-! ### A package with a name that leads out -/

def sampleTarget : CommitTarget where
  dir := ["uploads"]
  file := "scene.usdz"
  file_plain := by decide
  disk := ⟨fun x => x = [] ∨ x = ["uploads"], fun _ => none, []⟩
  dir_exists := by
    intro q hq
    rcases List.prefix_cons_iff.1 hq with rfl | ⟨rest, rfl, hrest⟩
    · decide
    · rw [List.prefix_nil.1 hrest]
      decide
  fresh := rfl

/-- The second entry is written to `/uploads/evil`. -/
theorem touches_outside :
    let zip : List ZipEntry := [⟨"scene.usda", false, 2, some "#u"⟩, ⟨"../evil", false, 1, some "x"⟩]
    let evil : Path := ["uploads", ".scene_idtx_commit_tmp", "..", "evil"]
    evil ∈ (commitUsdz sampleTarget {} zip sampleTarget.disk).2.touched ∧
      normal evil = ["uploads", "evil"] ∧ ¬ Allowed sampleTarget evil := by
  decide +kernel

end StageCommitter
end IdtxCore
