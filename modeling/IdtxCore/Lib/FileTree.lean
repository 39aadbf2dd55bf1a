import Mathlib.Data.List.AList
import IdtxCore.Lib.FsPath

/-!
# A tree of files

Directories, files and symbolic links on a POSIX system. Each has its place: the names that lead to it from the root
directory, without a link among them. `walk` finds the place that a path leads to, as the kernel does, over at most
`maxLinks` links; `Walks` is the same as a relation that counts them, and what holds of walks is proved of it.

A `FileTree` carries what makes it one: everything lies in a directory, and no name is a dot or holds a slash. So every
change keeps it by construction, and a walk that goes down never has to ask whether it left a directory.
-/

namespace FileTree
open FsPath

universe u

abbrev Place := List (List Char)

inductive Node (α : Type u) where
  | directory
  | file (content : α)
  | link (target : List Char)
  deriving DecidableEq, Repr

namespace Node
variable {α : Type u}

def isDirectory : Node α → Bool
  | .directory => true
  | _ => false

def isLink : Node α → Bool
  | .link _ => true
  | _ => false

@[simp] theorem isDirectory_iff {node : Node α} : node.isDirectory = true ↔ node = .directory := by
  cases node <;> simp [isDirectory]

theorem isLink_iff {node : Node α} : node.isLink = true ↔ ∃ target, node = .link target := by
  cases node <;> simp [isLink]

end Node

/-- What a directory entry may be called. -/
def IsName (n : List Char) : Prop := n ≠ [] ∧ '/' ∉ n ∧ n ≠ dot ∧ n ≠ dotdot

instance (n : List Char) : Decidable (IsName n) := inferInstanceAs (Decidable (_ ∧ _))

/-- What a call fails with, as far as it is told apart. -/
inductive Failure where
  | permission
  | other
  deriving DecidableEq, Repr

end FileTree

open FileTree in
structure FileTree.{u} (α : Type u) where
  entries : AList fun _ : Place => Node α
  root : entries.lookup [] = some .directory
  closed : ∀ d n, d ++ [n] ∈ entries → entries.lookup d = some .directory
  named : ∀ d n, d ++ [n] ∈ entries → IsName n

namespace FileTree
open FsPath

universe u

variable {α : Type u}

def node (t : FileTree α) (p : Place) : Option (Node α) := t.entries.lookup p

def isDir (t : FileTree α) (p : Place) : Bool := (t.node p).any Node.isDirectory

def isLink (t : FileTree α) (p : Place) : Bool := (t.node p).any Node.isLink

def content (t : FileTree α) (p : Place) : Option α :=
  match t.node p with
  | some (.file content) => some content
  | _ => none

/-- Nothing but the root directory. -/
def empty : FileTree α where
  entries := .singleton [] .directory
  root := List.dlookup_cons_eq ..
  closed d n h := by simp [AList.mem_keys] at h
  named d n h := by simp [AList.mem_keys] at h

@[simp] theorem isDir_iff {t : FileTree α} {p : Place} : t.isDir p = true ↔ t.node p = some .directory := by
  unfold isDir
  cases t.node p <;> simp

theorem isLink_iff {t : FileTree α} {p : Place} : t.isLink p = true ↔ ∃ target, t.node p = some (.link target) := by
  unfold isLink
  cases t.node p <;> simp [Node.isLink_iff]

theorem content_eq_some {t : FileTree α} {p : Place} {c : α} : t.content p = some c ↔ t.node p = some (.file c) := by
  unfold content
  split
  · rename_i heq
    simp [heq]
  · rename_i hne
    exact iff_of_false nofun fun heq => hne c heq

theorem node_nil (t : FileTree α) : t.node [] = some .directory := t.root

theorem node_empty (p : Place) : (empty : FileTree α).node p = if p = [] then some .directory else none := by
  split_ifs with hp
  · rw [hp]
    exact node_nil _
  · refine AList.lookup_eq_none.2 fun hmem => hp ?_
    simpa [empty, AList.mem_keys] using hmem

theorem mem_entries {t : FileTree α} {p : Place} : p ∈ t.entries ↔ (t.node p).isSome := AList.lookup_isSome.symm

variable {t t' : FileTree α} {p q d e : Place} {n m : List Char} {node : Node α}

/-- Whatever has a place lies in a directory. -/
theorem isDir_of_node (h : (t.node (d ++ [n])).isSome) : t.node d = some .directory := t.closed d n (mem_entries.2 h)

theorem isName_of_node (h : (t.node (d ++ [n])).isSome) : IsName n := t.named d n (mem_entries.2 h)

theorem isDir_dropLast (h : t.node p = some .directory) : t.node p.dropLast = some .directory := by
  rcases List.eq_nil_or_concat' p with rfl | ⟨d, n, rfl⟩
  · exact t.node_nil
  · rw [List.dropLast_concat]
    exact isDir_of_node (n := n) (by simp [h])

/-- And so do all the directories above it. -/
theorem isDir_above (h : (t.node (p ++ q)).isSome) (hq : q ≠ []) : t.node p = some .directory := by
  induction q using List.reverseRecOn with
  | nil => exact absurd rfl hq
  | append_singleton q n ih =>
    rw [← List.append_assoc] at h
    have hdir := isDir_of_node h
    rcases eq_or_ne q [] with rfl | hne
    · simpa using hdir
    · exact ih (by simp [hdir]) hne

theorem isName_of_mem (h : (t.node p).isSome) (hn : n ∈ p) : IsName n := by
  induction p using List.reverseRecOn with
  | nil => exact absurd hn List.not_mem_nil
  | append_singleton p m ih =>
    rcases List.mem_append.1 hn with hn | hn
    · exact ih (by simp [isDir_of_node h]) hn
    · exact List.mem_singleton.1 hn ▸ isName_of_node h

/-! ### Changes -/

/-- A new entry, or a file or a link in another's place. -/
def put (t : FileTree α) (d : Place) (n : List Char) (node : Node α) : Option (FileTree α) :=
  if h : t.isDir d = true ∧ IsName n ∧ t.isDir (d ++ [n]) = false then
    some
      { entries := t.entries.insert (d ++ [n]) node
        root := by
          rw [AList.lookup_insert_ne (by simp)]
          exact t.root
        closed := fun e m hmem => by
          have hd := isDir_iff.1 h.1
          rcases (AList.mem_insert _).1 hmem with heq | hmem
          · rw [(List.append_inj' heq rfl).1, AList.lookup_insert_ne (by simp)]
            exact hd
          · have he : t.node e = some .directory := t.closed e m hmem
            rw [AList.lookup_insert_ne]
            · exact he
            · rintro rfl
              rw [isDir_iff.2 he] at h
              exact absurd h.2.2 (by decide)
        named := fun e m hmem => by
          rcases (AList.mem_insert _).1 hmem with heq | hmem
          · rw [List.singleton_inj.1 (List.append_inj' heq rfl).2]
            exact h.2.1
          · exact t.named e m hmem }
  else none

def hasEntries (t : FileTree α) (p : Place) : Bool := t.entries.keys.any fun q => q ≠ [] && q.dropLast = p

/-- The entry is gone, unless it is a directory that is not empty. -/
def remove (t : FileTree α) (p : Place) : FileTree α :=
  if h : p ≠ [] ∧ t.hasEntries p = false then
    { entries := t.entries.erase p
      root := by
        rw [AList.lookup_erase_ne h.1.symm]
        exact t.root
      closed := fun e m hmem => by
        have hmem' := (AList.mem_erase.1 hmem).2
        rw [AList.lookup_erase_ne]
        · exact t.closed e m hmem'
        · rintro rfl
          have hany : t.hasEntries e = true := List.any_eq_true.2 ⟨e ++ [m], hmem', by simp⟩
          rw [hany] at h
          exact absurd h.2 (by decide)
      named := fun e m hmem => t.named e m (AList.mem_erase.1 hmem).2 }
  else t

theorem put_eq_some (h : t.put d n node = some t') : t.node d = some .directory ∧ IsName n ∧
    t.node (d ++ [n]) ≠ some .directory ∧ ∀ p, t'.node p = if p = d ++ [n] then some node else t.node p := by
  unfold put at h
  split_ifs at h with hput
  obtain rfl := Option.some.inj h
  refine ⟨isDir_iff.1 hput.1, hput.2.1, fun hdir => ?_, fun p => ?_⟩
  · rw [isDir_iff.2 hdir] at hput
    exact absurd hput.2.2 (by decide)
  · unfold FileTree.node
    split_ifs with hp
    · rw [hp]
      exact AList.lookup_insert _
    · exact AList.lookup_insert_ne hp

theorem exists_put (hd : t.node d = some .directory) (hn : IsName n) (hfree : t.node (d ++ [n]) ≠ some .directory)
    (node : Node α) : ∃ t', t.put d n node = some t' := by
  have hfree' : t.isDir (d ++ [n]) = false := Bool.eq_false_iff.2 fun h => hfree (isDir_iff.1 h)
  unfold put
  rw [dif_pos ⟨isDir_iff.2 hd, hn, hfree'⟩]
  exact ⟨_, rfl⟩

theorem hasEntries_iff : t.hasEntries p = true ↔ ∃ n, (t.node (p ++ [n])).isSome := by
  unfold hasEntries
  rw [List.any_eq_true]
  constructor
  · rintro ⟨q, hq, hp⟩
    rw [Bool.and_eq_true, decide_eq_true_eq, decide_eq_true_eq] at hp
    obtain ⟨e, n, rfl⟩ := (List.eq_nil_or_concat' q).resolve_left hp.1
    rw [List.dropLast_concat] at hp
    exact ⟨n, hp.2 ▸ mem_entries.1 hq⟩
  · rintro ⟨n, hn⟩
    exact ⟨p ++ [n], mem_entries.2 hn, by simp⟩

/-- What is no directory can be removed. -/
theorem node_remove (h : t.node p ≠ some .directory) (q : Place) :
    (t.remove p).node q = if q = p then none else t.node q := by
  have hp : p ≠ [] := by
    rintro rfl
    exact h t.node_nil
  have hentries : t.hasEntries p = false := by
    refine Bool.eq_false_iff.2 fun hentries => h ?_
    obtain ⟨n, hn⟩ := hasEntries_iff.1 hentries
    exact isDir_of_node hn
  unfold remove FileTree.node
  rw [dif_pos ⟨hp, hentries⟩]
  split_ifs with hq
  · rw [hq]
    exact AList.lookup_erase _ _
  · exact AList.lookup_erase_ne hq

/-! ### Walks -/

/-- A slash at the end asks for a directory, as a dot does. -/
def components (path : List Char) : List (List Char) := names path ++ (lastElement path).map fun _ => dot

/-- Where a path starts. -/
def start (cwd : Place) (path : List Char) : Place := if isAbsolute path then [] else cwd

/-- The walk along the names; `follow` goes on after a link. -/
def walkWith (t : FileTree α) (follow : Place → List (List Char) → Option Place) :
    Place → List (List Char) → Option Place
  | p, [] => some p
  | p, n :: ns =>
    if t.isDir p = false then none
    else if n = dot then t.walkWith follow p ns
    else if n = dotdot then t.walkWith follow p.dropLast ns
    else
      match t.node (p ++ [n]) with
      | none => none
      | some (.link target) => follow (start p target) (components target ++ ns)
      | some _ => t.walkWith follow (p ++ [n]) ns

/-- Over as many links at most. -/
def walk (t : FileTree α) : Nat → Place → List (List Char) → Option Place
  | 0 => t.walkWith fun _ _ => none
  | k + 1 => t.walkWith (t.walk k)

/-- The walk goes over this many links. -/
inductive Walks (t : FileTree α) : Nat → Place → List (List Char) → Place → Prop where
  | nil {p : Place} : Walks t 0 p [] p
  | dot {k : Nat} {p q : Place} {ns : List (List Char)} : t.node p = some .directory → Walks t k p ns q →
      Walks t k p (dot :: ns) q
  | up {k : Nat} {p q : Place} {ns : List (List Char)} : t.node p = some .directory → Walks t k p.dropLast ns q →
      Walks t k p (dotdot :: ns) q
  | down {k : Nat} {p q : Place} {n : List Char} {ns : List (List Char)} {node : Node α} :
      t.node (p ++ [n]) = some node → node.isLink = false → Walks t k (p ++ [n]) ns q → Walks t k p (n :: ns) q
  | link {k : Nat} {p q : Place} {n target : List Char} {ns : List (List Char)} :
      t.node (p ++ [n]) = some (.link target) → Walks t k (start p target) (components target ++ ns) q →
      Walks t (k + 1) p (n :: ns) q

variable {k i j : Nat} {ns ms : List (List Char)} {target path : List Char} {cwd : Place}

theorem start_join (h : isAbsolute path = false) (cwd : Place) (root : List Char) :
    start cwd (join root path) = start cwd root := by
  unfold start
  rw [isAbsolute_join h]

theorem start_ofNames (h : ∀ n ∈ p, n ≠ [] ∧ '/' ∉ n) (cwd : Place) (absolute : Bool) :
    start cwd (ofNames absolute p) = if absolute then [] else cwd := by
  unfold start
  rw [isAbsolute_ofNames h]

theorem walks_of_walkWith {follow : Place → List (List Char) → Option Place}
    (hfollow : ∀ p ns q, follow p ns = some q → ∃ j < k, t.Walks j p ns q) (h : t.walkWith follow p ns = some q) :
    ∃ j ≤ k, t.Walks j p ns q := by
  induction ns generalizing p with
  | nil => exact ⟨0, Nat.zero_le _, Option.some.inj h ▸ .nil⟩
  | cons n ns ih =>
    unfold walkWith at h
    split_ifs at h with hdir hdot hdotdot
    · obtain ⟨j, hj, hwalks⟩ := ih h
      exact ⟨j, hj, hdot ▸ .dot (by simpa using hdir) hwalks⟩
    · obtain ⟨j, hj, hwalks⟩ := ih h
      exact ⟨j, hj, hdotdot ▸ .up (by simpa using hdir) hwalks⟩
    · split at h
      · cases h
      · rename_i target hnode
        obtain ⟨j, hj, hwalks⟩ := hfollow _ _ _ h
        exact ⟨j + 1, hj, .link hnode hwalks⟩
      · rename_i node hnolink hnode
        obtain ⟨j, hj, hwalks⟩ := ih h
        refine ⟨j, hj, .down hnode ?_ hwalks⟩
        cases node with
        | link target => exact absurd rfl (hnolink target)
        | directory | file => rfl

theorem Walks.walk_eq (h : t.Walks k p ns q) (hk : k ≤ j) : t.walk j p ns = some q := by
  have hunfold : ∀ j, ∃ follow, t.walk j = t.walkWith follow ∧ ∀ i, j = i + 1 → follow = t.walk i := by
    intro j
    cases j with
    | zero => exact ⟨_, rfl, nofun⟩
    | succ j => exact ⟨_, rfl, fun i hi => by rw [Nat.succ.inj hi]⟩
  induction h generalizing j with
  | nil =>
    obtain ⟨follow, hwalk, -⟩ := hunfold j
    rw [hwalk]
    rfl
  | dot hdir _ ih =>
    obtain ⟨follow, hwalk, -⟩ := hunfold j
    rw [hwalk, walkWith, if_neg (by simp [hdir]), if_pos rfl, ← hwalk]
    exact ih hk
  | up hdir _ ih =>
    obtain ⟨follow, hwalk, -⟩ := hunfold j
    rw [hwalk, walkWith, if_neg (by simp [hdir]), if_neg (by decide), if_pos rfl, ← hwalk]
    exact ih hk
  | @down k p q n ns node hnode hlink _ ih =>
    obtain ⟨follow, hwalk, -⟩ := hunfold j
    have hsome : (t.node (p ++ [n])).isSome := by simp [hnode]
    obtain ⟨-, -, hdot, hdotdot⟩ := isName_of_node hsome
    rw [hwalk, walkWith, if_neg (by simp [isDir_of_node hsome]), if_neg hdot, if_neg hdotdot, hnode, ← hwalk]
    cases node with
    | link target => cases hlink
    | directory | file => exact ih hk
  | @link k p q n target ns hnode _ ih =>
    obtain ⟨i, rfl⟩ : ∃ i, j = i + 1 := ⟨j - 1, by omega⟩
    obtain ⟨follow, hwalk, hfollow⟩ := hunfold (i + 1)
    have hsome : (t.node (p ++ [n])).isSome := by simp [hnode]
    obtain ⟨-, -, hdot, hdotdot⟩ := isName_of_node hsome
    rw [hwalk, walkWith, if_neg (by simp [isDir_of_node hsome]), if_neg hdot, if_neg hdotdot, hnode]
    rw [hfollow i rfl]
    exact ih (Nat.le_of_succ_le_succ hk)

/-- The function and the relation agree. -/
theorem walk_eq_some : t.walk k p ns = some q ↔ ∃ j ≤ k, t.Walks j p ns q := by
  constructor
  · intro h
    induction k generalizing p ns q with
    | zero => exact walks_of_walkWith (fun _ _ _ h => by cases h) h
    | succ k ih =>
      refine walks_of_walkWith (fun p ns q hrest => ?_) h
      obtain ⟨j, hj, hwalks⟩ := ih hrest
      exact ⟨j, Nat.lt_succ_of_le hj, hwalks⟩
  · rintro ⟨j, hj, h⟩
    exact h.walk_eq hj

theorem Walks.unique (h : t.Walks i p ns q) (h' : t.Walks j p ns d) : q = d :=
  Option.some.inj ((h.walk_eq (Nat.le_max_left i j)).symm.trans (h'.walk_eq (Nat.le_max_right i j)))

theorem Walks.append (h : t.Walks i p ns q) (h' : t.Walks j q ms d) : t.Walks (i + j) p (ns ++ ms) d := by
  induction h with
  | nil => simpa using h'
  | dot hdir _ ih => exact .dot hdir (ih h')
  | up hdir _ ih => exact .up hdir (ih h')
  | down hnode hlink _ ih => exact .down hnode hlink (ih h')
  | link hnode _ ih =>
    rw [Nat.add_right_comm, List.cons_append]
    refine .link hnode ?_
    rw [← List.append_assoc]
    exact ih h'

theorem Walks.split (h : t.Walks k p (ns ++ ms) d) :
    ∃ i j q, k = i + j ∧ t.Walks i p ns q ∧ t.Walks j q ms d := by
  generalize hl : ns ++ ms = l at h
  induction h generalizing ns with
  | @nil p =>
    obtain ⟨rfl, rfl⟩ := List.append_eq_nil_iff.1 hl
    exact ⟨0, 0, p, rfl, .nil, .nil⟩
  | @dot k p q l hdir hwalks ih =>
    cases ns with
    | nil =>
      rw [List.nil_append] at hl
      exact ⟨0, k, p, (Nat.zero_add k).symm, .nil, hl ▸ .dot hdir hwalks⟩
    | cons n ns =>
      rw [List.cons_append] at hl
      obtain ⟨rfl, hns⟩ := List.cons.inj hl
      obtain ⟨i, j, m, hk, h, h'⟩ := ih hns
      exact ⟨i, j, m, hk, .dot hdir h, h'⟩
  | @up k p q l hdir hwalks ih =>
    cases ns with
    | nil =>
      rw [List.nil_append] at hl
      exact ⟨0, k, p, (Nat.zero_add k).symm, .nil, hl ▸ .up hdir hwalks⟩
    | cons n ns =>
      rw [List.cons_append] at hl
      obtain ⟨rfl, hns⟩ := List.cons.inj hl
      obtain ⟨i, j, m, hk, h, h'⟩ := ih hns
      exact ⟨i, j, m, hk, .up hdir h, h'⟩
  | @down k p q n l node hnode hlink hwalks ih =>
    cases ns with
    | nil =>
      rw [List.nil_append] at hl
      exact ⟨0, k, p, (Nat.zero_add k).symm, .nil, hl ▸ .down hnode hlink hwalks⟩
    | cons n ns =>
      rw [List.cons_append] at hl
      obtain ⟨rfl, hns⟩ := List.cons.inj hl
      obtain ⟨i, j, m, hk, h, h'⟩ := ih hns
      exact ⟨i, j, m, hk, .down hnode hlink h, h'⟩
  | @link k p q n target l hnode hwalks ih =>
    cases ns with
    | nil =>
      rw [List.nil_append] at hl
      exact ⟨0, k + 1, p, (Nat.zero_add _).symm, .nil, hl ▸ .link hnode hwalks⟩
    | cons n ns =>
      rw [List.cons_append] at hl
      obtain ⟨rfl, hns⟩ := List.cons.inj hl
      obtain ⟨i, j, m, rfl, h, h'⟩ := ih (by rw [List.append_assoc, hns])
      exact ⟨i + 1, j, m, Nat.add_right_comm i j 1, .link hnode h, h'⟩

/-- Only a directory leads on. -/
theorem Walks.isDir_of_ne_nil (h : t.Walks k p ns q) (hns : ns ≠ []) : t.node p = some .directory := by
  cases h with
  | nil => exact absurd rfl hns
  | dot hdir _ => exact hdir
  | up hdir _ => exact hdir
  | @down _ _ _ n _ _ hnode _ _ => exact isDir_of_node (n := n) (by rw [hnode]; rfl)
  | @link _ _ _ n _ _ hnode _ => exact isDir_of_node (n := n) (by rw [hnode]; rfl)

theorem Walks.isDir_start (h : t.Walks k p ns q) (hq : t.node q = some .directory) : t.node p = some .directory := by
  rcases eq_or_ne ns [] with rfl | hns
  · cases h
    exact hq
  · exact h.isDir_of_ne_nil hns

/-- A walk ends at something that is no link. -/
theorem Walks.settled (h : t.Walks k p ns q) (hp : (t.node p).isSome ∧ t.isLink p = false) :
    (t.node q).isSome ∧ t.isLink q = false := by
  have hdirectory : ∀ d, t.node d = some .directory → (t.node d).isSome ∧ t.isLink d = false := by
    intro d hd
    simp [isLink, hd, Node.isLink]
  induction h with
  | nil => exact hp
  | dot _ _ ih => exact ih hp
  | up hdir _ ih => exact ih (hdirectory _ (isDir_dropLast hdir))
  | down hnode hlink _ ih => exact ih (by simpa [isLink, hnode] using hlink)
  | @link _ p _ n target _ hnode _ ih =>
    refine ih (hdirectory _ ?_)
    unfold start
    split_ifs
    · exact t.node_nil
    · exact isDir_of_node (n := n) (by rw [hnode]; rfl)

/-- The directories and the links are still there. -/
def Keeps (t t' : FileTree α) : Prop :=
  ∀ p, (t.isDir p = true ∨ t.isLink p = true) → t'.node p = t.node p

theorem Keeps.refl (t : FileTree α) : Keeps t t := fun _ _ => rfl

theorem Keeps.directory (h : Keeps t t') (hp : t.node p = some .directory) : t'.node p = some .directory :=
  (h p (.inl (isDir_iff.2 hp))).trans hp

theorem Keeps.link (h : Keeps t t') (hp : t.node p = some (.link target)) : t'.node p = some (.link target) :=
  (h p (.inr (isLink_iff.2 ⟨target, hp⟩))).trans hp

theorem Keeps.trans {t'' : FileTree α} (h : Keeps t t') (h' : Keeps t' t'') : Keeps t t'' := by
  rintro p (hp | hp)
  · rw [h'.directory (h.directory (isDir_iff.1 hp)), isDir_iff.1 hp]
  · obtain ⟨target, hp⟩ := isLink_iff.1 hp
    rw [h'.link (h.link hp), hp]

/-- So walks to directories still lead where they did. -/
theorem Walks.keeps (h : t.Walks k p ns q) (hkeeps : Keeps t t') (hq : t.node q = some .directory) :
    t'.Walks k p ns q := by
  induction h with
  | nil => exact .nil
  | dot hdir _ ih => exact .dot (hkeeps.directory hdir) (ih hq)
  | up hdir _ ih => exact .up (hkeeps.directory hdir) (ih hq)
  | down hnode hlink hwalks ih =>
    have hdir := hkeeps.directory (hwalks.isDir_start hq)
    exact .down hdir rfl (ih hq)
  | link hnode _ ih => exact .link (hkeeps.link hnode) (ih hq)

/-- Below a place without links a walk only goes down. -/
theorem Walks.eq_append (h : t.Walks k p ns q) (hlinks : ∀ q, p <+: q → t.isLink q = false) (hdotdot : dotdot ∉ ns) :
    k = 0 ∧ q = p ++ ns.filter (· ≠ FsPath.dot) := by
  induction h with
  | nil => simp
  | dot _ _ ih =>
    rw [List.filter_cons_of_neg (by simp)]
    exact ih hlinks fun hmem => hdotdot (List.mem_cons_of_mem _ hmem)
  | up _ _ _ => exact absurd List.mem_cons_self hdotdot
  | @down k p q n ns node hnode _ _ ih =>
    have hn : n ≠ FsPath.dot := (isName_of_node (d := p) (n := n) (by rw [hnode]; rfl)).2.2.1
    obtain ⟨hk, hq⟩ := ih (fun q hq => hlinks q ((List.prefix_append ..).trans hq))
      fun hmem => hdotdot (List.mem_cons_of_mem _ hmem)
    refine ⟨hk, ?_⟩
    rw [hq, List.filter_cons_of_pos (by simpa using hn), List.append_assoc, List.singleton_append]
  | @link k p q n target ns hnode _ _ =>
    have hlink := hlinks (p ++ [n]) (List.prefix_append ..)
    rw [isLink_iff.2 ⟨_, hnode⟩] at hlink
    cases hlink

theorem filter_dot_ne_nil (hns : ns ≠ []) (hlast : ns.getLast? ≠ some dot) : ns.filter (· ≠ dot) ≠ [] := by
  obtain ⟨ms, n, rfl⟩ := (List.eq_nil_or_concat' ns).resolve_left hns
  rw [List.getLast?_concat] at hlast
  have hn : n ≠ dot := fun heq => hlast (heq ▸ rfl)
  rw [List.filter_append, List.filter_cons_of_pos (by simpa using hn)]
  simp

theorem getLast?_ne_of_cons (hlast : (n :: ns).getLast? ≠ some dot) : ns.getLast? ≠ some dot := by
  cases ns with
  | nil => simp
  | cons m ns => rwa [List.getLast?_cons_cons] at hlast

/-- And to whatever is there. -/
theorem walks_of_node (hlinks : ∀ q, p <+: q → t.isLink q = false) (hdotdot : dotdot ∉ ns)
    (hlast : ns.getLast? ≠ some dot) (h : (t.node (p ++ ns.filter (· ≠ dot))).isSome) :
    t.Walks 0 p ns (p ++ ns.filter (· ≠ dot)) := by
  induction ns generalizing p with
  | nil =>
    rw [List.filter_nil, List.append_nil]
    exact .nil
  | cons n ns ih =>
    have hdotdot' : dotdot ∉ ns := fun hmem => hdotdot (List.mem_cons_of_mem _ hmem)
    have hlast' := getLast?_ne_of_cons hlast
    by_cases hn : n = dot
    · subst hn
      have hns : ns ≠ [] := by
        rintro rfl
        exact hlast rfl
      rw [List.filter_cons_of_neg (by simp)] at h ⊢
      exact .dot (isDir_above h (filter_dot_ne_nil hns hlast')) (ih hlinks hdotdot' hlast' h)
    · have hbelow : ∀ q, p ++ [n] <+: q → t.isLink q = false := fun q hq =>
        hlinks q ((List.prefix_append ..).trans hq)
      rw [List.filter_cons_of_pos (by simpa using hn), List.append_cons] at h ⊢
      obtain ⟨node, hnode⟩ : ∃ node, t.node (p ++ [n]) = some node := by
        rcases eq_or_ne (ns.filter (· ≠ dot)) [] with hnil | hne
        · rw [hnil, List.append_nil] at h
          exact Option.isSome_iff_exists.1 h
        · exact ⟨_, isDir_above h hne⟩
      have hlink : node.isLink = false := by simpa [isLink, hnode] using hbelow _ List.prefix_rfl
      exact .down hnode hlink (ih hbelow hdotdot' hlast' h)

/-! ### Calls -/

/-- The entry that `open` finds or makes. It follows a link in the last place too, and opens no directory. -/
def locateWith (t : FileTree α) (follow : Place → List (List Char) → Option (Place × List Char)) :
    Place → List (List Char) → Option (Place × List Char)
  | _, [] => none
  | p, n :: ns =>
    if t.isDir p = false then none
    else if n = dot then t.locateWith follow p ns
    else if n = dotdot then t.locateWith follow p.dropLast ns
    else
      match t.node (p ++ [n]) with
      | some (.link target) => follow (start p target) (components target ++ ns)
      | some .directory => t.locateWith follow (p ++ [n]) ns
      | _ => if ns = [] then some (p, n) else none

def locate (t : FileTree α) : Nat → Place → List (List Char) → Option (Place × List Char)
  | 0 => t.locateWith fun _ _ => none
  | k + 1 => t.locateWith (t.locate k)

theorem Walks.locate_eq (h : t.Walks k p ns q) (hk : k ≤ j) (hq : t.node q = some .directory) (hn : IsName n)
    (hlink : t.isLink (q ++ [n]) = false) :
    t.locate j p (ns ++ [n]) = if t.isDir (q ++ [n]) then none else some (q, n) := by
  have hunfold : ∀ j, ∃ follow, t.locate j = t.locateWith follow ∧ ∀ i, j = i + 1 → follow = t.locate i := by
    intro j
    cases j with
    | zero => exact ⟨_, rfl, nofun⟩
    | succ j => exact ⟨_, rfl, fun i hi => by rw [Nat.succ.inj hi]⟩
  induction h generalizing j with
  | @nil p =>
    obtain ⟨follow, hlocate, -⟩ := hunfold j
    obtain ⟨-, -, hdot, hdotdot⟩ := hn
    rw [hlocate, List.nil_append, locateWith, if_neg (by simp [hq]), if_neg hdot, if_neg hdotdot]
    cases hnode : t.node (p ++ [n]) with
    | none => simp [isDir, hnode]
    | some node =>
      cases node with
      | directory => simp [isDir, hnode, Node.isDirectory, locateWith]
      | file c => simp [isDir, hnode, Node.isDirectory]
      | link target => simp [isLink, hnode, Node.isLink] at hlink
  | dot hdir _ ih =>
    obtain ⟨follow, hlocate, -⟩ := hunfold j
    rw [hlocate, List.cons_append, locateWith, if_neg (by simp [hdir]), if_pos rfl, ← hlocate]
    exact ih hk hq hlink
  | up hdir _ ih =>
    obtain ⟨follow, hlocate, -⟩ := hunfold j
    rw [hlocate, List.cons_append, locateWith, if_neg (by simp [hdir]), if_neg (by decide), if_pos rfl, ← hlocate]
    exact ih hk hq hlink
  | @down k p q m ns node hnode _ hwalks ih =>
    obtain ⟨follow, hlocate, -⟩ := hunfold j
    -- the last entry comes after it, so it is a directory
    have hdir := hwalks.isDir_start hq
    obtain ⟨-, -, hdot, hdotdot⟩ := isName_of_node (d := p) (n := m) (by rw [hnode]; rfl)
    rw [hlocate, List.cons_append, locateWith, if_neg (by simp [isDir_of_node (d := p) (n := m) (by rw [hnode]; rfl)]),
      if_neg hdot, if_neg hdotdot, hdir, ← hlocate]
    exact ih hk hq hlink
  | @link k p q m target ns hnode _ ih =>
    obtain ⟨i, rfl⟩ : ∃ i, j = i + 1 := ⟨j - 1, by omega⟩
    obtain ⟨follow, hlocate, hfollow⟩ := hunfold (i + 1)
    obtain ⟨-, -, hdot, hdotdot⟩ := isName_of_node (d := p) (n := m) (by rw [hnode]; rfl)
    rw [hlocate, List.cons_append, locateWith, if_neg (by simp [isDir_of_node (d := p) (n := m) (by rw [hnode]; rfl)]),
      if_neg hdot, if_neg hdotdot, hnode]
    dsimp only
    rw [hfollow i rfl, ← List.append_assoc]
    exact ih (Nat.le_of_succ_le_succ hk) hq hlink

/-- As many links as Linux follows. -/
def maxLinks : Nat := 40

/-- `realpath` -/
def canonical (t : FileTree α) (cwd : Place) (path : List Char) : Option Place :=
  if path = [] then none else t.walk maxLinks (start cwd path) (components path)

/-- `fopen` for reading and `read` to the end; `none` for no file. -/
def read (t : FileTree α) (cwd : Place) (path : List Char) : Option α := (t.canonical cwd path).bind t.content

/-- `open` with `O_CREAT` and `O_TRUNC`, and what is then in the file. -/
def write (t : FileTree α) (cwd : Place) (path : List Char) (content : α) : Option (FileTree α) :=
  (t.locate maxLinks (start cwd path) (components path)).bind fun (d, n) => t.put d n (.file content)

/-- The entry that a path names; its last name is not followed. -/
def entry (t : FileTree α) (cwd : Place) (path : List Char) : Option (Place × List Char) := do
  let n ← (components path).getLast?
  let d ← t.walk maxLinks (start cwd path) (components path).dropLast
  if t.isDir d ∧ IsName n then some (d, n) else none

/-- `rename` of what is no directory. -/
def rename (t : FileTree α) (cwd : Place) (source target : List Char) : Option (FileTree α) :=
  match t.entry cwd source, t.entry cwd target with
  | some (d, n), some (e, m) =>
    match t.node (d ++ [n]) with
    | none | some .directory => none
    | some node => (t.remove (d ++ [n])).put e m node
  | _, _ => none

/-- `remove` -/
def unlink (t : FileTree α) (cwd : Place) (path : List Char) : FileTree α :=
  match t.entry cwd path with
  | some (d, n) => t.remove (d ++ [n])
  | none => t

/-- The directory of the next name, made if it is missing. -/
def createStep (t : FileTree α) (refused : Place → Option Failure) (p : Place) (done : List (List Char))
    (n : List Char) : Except Failure (FileTree α) :=
  match t.walk maxLinks p (done ++ [n]), t.walk maxLinks p done with
  | some q, _ => if t.isDir q then .ok t else .error .other
  | none, none => .error .other
  | none, some d =>
    -- there may be a link that leads nowhere
    if (t.node (d ++ [n])).isSome then .error .other
    else
      match refused (d ++ [n]), t.put d n .directory with
      | some failure, _ => .error failure
      | none, none => .error .other
      | none, some t' => .ok t'

def createEach (t : FileTree α) (refused : Place → Option Failure) (p : Place) (done : List (List Char)) :
    List (List Char) → FileTree α × Option Failure
  | [] => (t, none)
  | n :: ns =>
    match t.createStep refused p done n with
    | .ok t' => t'.createEach refused p (done ++ [n]) ns
    | .error failure => (t, some failure)

/-- `create_directories` -/
def createDirectories (t : FileTree α) (refused : Place → Option Failure) (cwd : Place) (path : List Char) :
    FileTree α × Option Failure :=
  if path = [] then (t, some .other) else t.createEach refused (start cwd path) [] (names path)

/-! ### What the calls leave -/

/-- There may be more directories, and nothing else has changed. -/
def Grows (t t' : FileTree α) : Prop := ∀ p, t'.node p = t.node p ∨ t.node p = none ∧ t'.node p = some .directory

theorem Grows.refl (t : FileTree α) : Grows t t := fun _ => .inl rfl

theorem Grows.node_eq (h : Grows t t') (hp : t.node p = some node) : t'.node p = some node :=
  ((h p).resolve_right fun hnone => by simp [hp] at hnone).trans hp

theorem Grows.trans {t'' : FileTree α} (h : Grows t t') (h' : Grows t' t'') : Grows t t'' := by
  intro p
  rcases h p with heq | ⟨hnone, hdir⟩
  · rw [← heq]
    exact h' p
  · exact .inr ⟨hnone, h'.node_eq hdir⟩

theorem Grows.keeps (h : Grows t t') : Keeps t t' := by
  rintro p (hp | hp)
  · rw [h.node_eq (isDir_iff.1 hp), isDir_iff.1 hp]
  · obtain ⟨target, hp⟩ := isLink_iff.1 hp
    rw [h.node_eq hp, hp]

theorem Grows.content_eq (h : Grows t t') (p : Place) : t'.content p = t.content p := by
  unfold content
  rcases h p with heq | ⟨hnone, hdir⟩
  · rw [heq]
  · rw [hnone, hdir]

theorem Grows.isLink_eq (h : Grows t t') (p : Place) : t'.isLink p = t.isLink p := by
  unfold isLink
  rcases h p with heq | ⟨hnone, hdir⟩
  · rw [heq]
  · rw [hnone, hdir]
    rfl

theorem grows_put (hput : t.put d n .directory = some t') (hfree : t.node (d ++ [n]) = none) : Grows t t' := by
  obtain ⟨-, -, -, hnode⟩ := put_eq_some hput
  intro p
  rw [hnode]
  split_ifs with hp
  · exact .inr ⟨hp ▸ hfree, rfl⟩
  · exact .inl rfl

variable {refused : Place → Option Failure} {done : List (List Char)}

theorem createStep_ok (h : t.createStep refused p done n = .ok t') :
    Grows t t' ∧ ∃ k ≤ maxLinks, ∃ q, t'.Walks k p (done ++ [n]) q ∧ t'.node q = some .directory := by
  unfold createStep at h
  split at h
  · rename_i _ _ q hwalk
    split_ifs at h with hdir
    obtain rfl := Except.ok.inj h
    obtain ⟨k, hk, hwalks⟩ := walk_eq_some.1 hwalk
    exact ⟨.refl t, k, hk, q, hwalks, isDir_iff.1 hdir⟩
  · cases h
  · rename_i d _ hdone
    split_ifs at h with hsome
    split at h
    · cases h
    · cases h
    · rename_i t' _ hput
      obtain rfl := Except.ok.inj h
      rw [Bool.not_eq_true, Option.isSome_eq_false_iff, Option.isNone_iff_eq_none] at hsome
      obtain ⟨hd, -, -, hnode⟩ := put_eq_some hput
      have hgrows := grows_put hput hsome
      have hdir : t'.node (d ++ [n]) = some .directory := by simp [hnode]
      obtain ⟨k, hk, hwalks⟩ := walk_eq_some.1 hdone
      exact ⟨hgrows, k, hk, d ++ [n], (hwalks.keeps hgrows.keeps hd).append (.down hdir rfl .nil), hdir⟩

theorem createEach_grows (t : FileTree α) (refused : Place → Option Failure) (p : Place) (done ns : List (List Char)) :
    Grows t (t.createEach refused p done ns).1 := by
  induction ns generalizing t done with
  | nil => exact .refl t
  | cons n ns ih =>
    unfold createEach
    cases hstep : t.createStep refused p done n with
    | error failure => exact .refl t
    | ok t' => exact (createStep_ok hstep).1.trans (ih t' _)

theorem createDirectories_grows (t : FileTree α) (refused : Place → Option Failure) (cwd : Place) (path : List Char) :
    Grows t (t.createDirectories refused cwd path).1 := by
  unfold createDirectories
  split_ifs
  · exact .refl t
  · exact createEach_grows _ _ _ _ _

/-- Where all directories are made, the names lead to one. -/
theorem exists_walks_createEach (h : t.Walks k p done d) (hk : k ≤ maxLinks) (hd : t.node d = some .directory)
    (hmade : t.createEach refused p done ns = (t', none)) :
    ∃ j ≤ maxLinks, ∃ q, t'.Walks j p (done ++ ns) q ∧ t'.node q = some .directory := by
  induction ns generalizing t done d k with
  | nil =>
    obtain rfl := (Prod.mk.inj hmade).1
    exact ⟨k, hk, d, by rwa [List.append_nil], hd⟩
  | cons n ns ih =>
    rw [List.append_cons]
    unfold createEach at hmade
    cases hstep : t.createStep refused p done n with
    | error failure =>
      rw [hstep] at hmade
      cases hmade
    | ok t₁ =>
      rw [hstep] at hmade
      obtain ⟨-, j, hj, q, hwalks, hq⟩ := createStep_ok hstep
      exact ih hwalks hj hq hmade

theorem node_start (hcwd : t.node cwd = some .directory) (path : List Char) :
    t.node (start cwd path) = some .directory := by
  unfold start
  split_ifs
  · exact t.node_nil
  · exact hcwd

theorem createDirectories_ok (hcwd : t.node cwd = some .directory)
    (h : t.createDirectories refused cwd path = (t', none)) :
    path ≠ [] ∧ ∃ k ≤ maxLinks, ∃ q, t'.Walks k (start cwd path) (names path) q ∧ t'.node q = some .directory := by
  unfold createDirectories at h
  split_ifs at h with hnil
  · cases h
  · exact ⟨hnil, exists_walks_createEach .nil (Nat.zero_le _) (node_start hcwd path) h⟩

/-- Directories that are there are passed. -/
theorem createEach_append (h : t.Walks k p (done ++ ns) q) (hk : k ≤ maxLinks) (hq : t.node q = some .directory) :
    t.createEach refused p done (ns ++ ms) = t.createEach refused p (done ++ ns) ms := by
  induction ns generalizing done with
  | nil => rw [List.nil_append, List.append_nil]
  | cons n ns ih =>
    rw [List.append_cons] at h ⊢
    obtain ⟨i, j, d, hij, hd, hrest⟩ := h.split
    have hstep : t.createStep refused p done n = .ok t := by
      unfold createStep
      rw [hd.walk_eq (by omega)]
      dsimp only
      rw [if_pos (isDir_iff.2 (hrest.isDir_start hq))]
    rw [← ih h, List.cons_append, createEach, hstep]

theorem Grows.no_links (h : Grows t t') (hlinks : ∀ q, p <+: q → t.isLink q = false) :
    ∀ q, p <+: q → t'.isLink q = false := fun q hq => (h.isLink_eq q).trans (hlinks q hq)

/-- Below a directory without links, with nothing refused, only a file is in the way of a directory. -/
theorem createStep_below (h : t.Walks k p done d) (hk : k ≤ maxLinks) (hd : t.node d = some .directory)
    (hlink : t.isLink (d ++ [n]) = false) (hn : IsName n) (hrefused : ∀ q, refused q = none) :
    (∃ c, t.content (d ++ [n]) = some c) ∧ t.createStep refused p done n = .error .other ∨
      t.content (d ++ [n]) = none ∧ ∃ t', t.createStep refused p done n = .ok t' ∧
        t'.Walks k p (done ++ [n]) (d ++ [n]) ∧ t'.node (d ++ [n]) = some .directory := by
  have hdone := h.walk_eq hk
  unfold createStep
  cases hnode : t.node (d ++ [n]) with
  | none =>
    have hstep : t.walk maxLinks p (done ++ [n]) = none := by
      refine Option.eq_none_iff_forall_ne_some.2 fun q hq => ?_
      obtain ⟨_, _, hwalks⟩ := walk_eq_some.1 hq
      obtain ⟨_, _, e, _, he, hlast⟩ := hwalks.split
      obtain rfl := h.unique he
      cases hlast with
      | dot _ _ => exact hn.2.2.1 rfl
      | up _ _ => exact hn.2.2.2 rfl
      | down hsome _ _ => simp [hnode] at hsome
      | link hsome _ => simp [hnode] at hsome
    obtain ⟨t', hput⟩ := exists_put hd hn (by simp [hnode]) .directory
    have hdir : t'.node (d ++ [n]) = some .directory := by simp [(put_eq_some hput).2.2.2]
    have hwalks : t'.Walks k p (done ++ [n]) (d ++ [n]) :=
      (h.keeps (grows_put hput hnode).keeps hd).append (.down hdir rfl .nil)
    refine .inr ⟨by rw [content, hnode], t', ?_, hwalks, hdir⟩
    rw [hstep, hdone]
    dsimp only
    rw [hrefused, hput, hnode]
    rfl
  | some node =>
    have hnolink : node.isLink = false := by simpa [isLink, hnode] using hlink
    have hwalks : t.Walks k p (done ++ [n]) (d ++ [n]) := h.append (.down hnode hnolink .nil)
    rw [hwalks.walk_eq hk]
    cases node with
    | link target => cases hnolink
    | directory => exact .inr ⟨by rw [content, hnode], t, if_pos (isDir_iff.2 hnode), hwalks, hnode⟩
    | file c =>
      refine .inl ⟨⟨c, by rw [content, hnode]⟩, if_neg ?_⟩
      simp [hnode]

theorem createEach_eq_none_iff (h : t.Walks k p done d) (hk : k ≤ maxLinks) (hd : t.node d = some .directory)
    (hlinks : ∀ q, d <+: q → t.isLink q = false) (hnames : ∀ n ∈ ns, IsName n) (hrefused : ∀ q, refused q = none) :
    (t.createEach refused p done ns).2 = none ↔ ∀ ms, ms <+: ns → t.content (d ++ ms) = none := by
  induction ns generalizing t done d with
  | nil =>
    refine iff_of_true rfl fun ms hms => ?_
    rw [List.prefix_nil.1 hms, List.append_nil, content, hd]
  | cons n ns ih =>
    obtain ⟨hn, hnames⟩ := List.forall_mem_cons.1 hnames
    have hbelow : ∀ q, d ++ [n] <+: q → t.isLink q = false := fun q hq => hlinks q ((List.prefix_append ..).trans hq)
    have hprefixes : (∀ ms, ms <+: n :: ns → t.content (d ++ ms) = none) ↔
        ∀ ms, ms <+: ns → t.content (d ++ [n] ++ ms) = none := by
      constructor
      · intro hall ms hms
        rw [List.append_assoc]
        exact hall (n :: ms) ((List.prefix_cons_inj n).2 hms)
      · intro hall ms hms
        rcases List.prefix_cons_iff.1 hms with rfl | ⟨ms, rfl, hrest⟩
        · rw [List.append_nil, content, hd]
        · rw [List.append_cons]
          exact hall ms hrest
    rw [hprefixes]
    unfold createEach
    rcases createStep_below h hk hd (hbelow _ List.prefix_rfl) hn hrefused with
      ⟨⟨c, hc⟩, hstep⟩ | ⟨-, t', hstep, hwalks, hdir⟩
    · rw [hstep]
      refine iff_of_false nofun fun hall => ?_
      have hnil := hall [] List.nil_prefix
      rw [List.append_nil, hc] at hnil
      cases hnil
    · have hgrows := (createStep_ok hstep).1
      rw [hstep]
      refine (ih hwalks hdir (hgrows.no_links hbelow) hnames).trans ?_
      simp only [hgrows.content_eq]

/-- Only the one directory is made. -/
theorem node_createStep (h : t.Walks k p done d) (hk : k ≤ maxLinks) (hstep : t.createStep refused p done n = .ok t')
    (hq : q ≠ d ++ [n]) : t'.node q = t.node q := by
  unfold createStep at hstep
  rw [h.walk_eq hk] at hstep
  split at hstep
  · split_ifs at hstep
    rw [Except.ok.inj hstep]
  · cases hstep
  · rename_i hdone
    obtain rfl := Option.some.inj hdone
    split_ifs at hstep
    split at hstep
    · cases hstep
    · cases hstep
    · rename_i hput
      rw [← Except.ok.inj hstep, (put_eq_some hput).2.2.2, if_neg hq]

theorem node_createEach (h : t.Walks k p done d) (hk : k ≤ maxLinks) (hd : t.node d = some .directory)
    (hlinks : ∀ q, d <+: q → t.isLink q = false) (hnames : ∀ n ∈ ns, IsName n) (hq : ¬q <+: d ++ ns) :
    (t.createEach refused p done ns).1.node q = t.node q := by
  induction ns generalizing t done d k with
  | nil => rfl
  | cons n ns ih =>
    obtain ⟨hn, hnames⟩ := List.forall_mem_cons.1 hnames
    rw [List.append_cons] at hq
    unfold createEach
    cases hstep : t.createStep refused p done n with
    | error failure => rfl
    | ok t' =>
      obtain ⟨hgrows, j, hj, e, hwalks, he⟩ := createStep_ok hstep
      obtain rfl : e = d ++ [n] := by
        obtain ⟨_, _, d', _, hd', hlast⟩ := hwalks.split
        obtain rfl := (h.keeps hgrows.keeps hd).unique hd'
        have hend := (hlast.eq_append (hgrows.no_links hlinks) (by simpa using hn.2.2.2.symm)).2
        rwa [List.filter_cons_of_pos (by simpa using hn.2.2.1), List.filter_nil] at hend
      have hne : q ≠ d ++ [n] := by
        rintro rfl
        exact hq (List.prefix_append ..)
      refine (ih hwalks hj he (fun q hq => ?_) hnames hq).trans (node_createStep h hk hstep hne)
      exact hgrows.no_links hlinks q ((List.prefix_append ..).trans hq)

/-! ### Canonical paths -/

theorem canonical_eq_some (hne : path ≠ []) :
    t.canonical cwd path = some q ↔ ∃ k ≤ maxLinks, t.Walks k (start cwd path) (components path) q := by
  unfold canonical
  rw [if_neg hne, walk_eq_some]

theorem ne_nil_of_canonical (h : t.canonical cwd path = some q) : path ≠ [] := by
  rintro rfl
  cases h

theorem settled_of_canonical (hcwd : t.node cwd = some .directory) (h : t.canonical cwd path = some q) :
    (t.node q).isSome ∧ t.isLink q = false := by
  obtain ⟨k, -, hwalks⟩ := (canonical_eq_some (ne_nil_of_canonical h)).1 h
  refine hwalks.settled ?_
  simp [isLink, node_start hcwd, Node.isLink]

theorem canonical_keeps (hkeeps : Keeps t t') (h : t.canonical cwd path = some q)
    (hq : t.node q = some .directory) : t'.canonical cwd path = some q := by
  have hne := ne_nil_of_canonical h
  obtain ⟨k, hk, hwalks⟩ := (canonical_eq_some hne).1 h
  exact (canonical_eq_some hne).2 ⟨k, hk, hwalks.keeps hkeeps hq⟩

/-- A path to a directory leads there by its names; a slash at the end asks for nothing more. -/
theorem walks_names_of_canonical (h : t.canonical cwd path = some q) :
    ∃ k ≤ maxLinks, t.Walks k (start cwd path) (names path) q := by
  obtain ⟨k, hk, hwalks⟩ := (canonical_eq_some (ne_nil_of_canonical h)).1 h
  unfold components at hwalks
  obtain ⟨i, j, d, hij, hnames, hlast⟩ := hwalks.split
  refine ⟨i, by omega, ?_⟩
  obtain rfl : q = d := by
    unfold lastElement at hlast
    split_ifs at hlast
    · cases hlast with
      | dot _ h =>
        cases h
        rfl
      | down hnode _ _ => exact absurd rfl (isName_of_node (by rw [hnode]; rfl)).2.2.1
      | link hnode _ => exact absurd rfl (isName_of_node (by rw [hnode]; rfl)).2.2.1
    · cases hlast
      rfl
  exact hnames

/-- Below a directory without links a path leads to what is there. -/
theorem canonical_below (hcwd : t.node cwd = some .directory) (hcomponents : components path = ns ++ ms)
    (hwalks : t.Walks k (start cwd path) ns d) (hk : k ≤ maxLinks) (hlinks : ∀ q, d <+: q → t.isLink q = false)
    (hdotdot : dotdot ∉ ms) (hlast : ms.getLast? ≠ some dot) (hne : path ≠ []) :
    t.canonical cwd path =
      if (t.node (d ++ ms.filter (· ≠ dot))).isSome then some (d ++ ms.filter (· ≠ dot)) else none := by
  split_ifs with hsome
  · refine (canonical_eq_some hne).2 ⟨k, hk, ?_⟩
    rw [hcomponents]
    exact hwalks.append (walks_of_node hlinks hdotdot hlast hsome)
  · refine Option.eq_none_iff_forall_ne_some.2 fun q hq => hsome ?_
    have hnode := (settled_of_canonical hcwd hq).1
    obtain ⟨_, _, hwalks'⟩ := (canonical_eq_some hne).1 hq
    rw [hcomponents] at hwalks'
    obtain ⟨_, _, d', _, hd', hbelow⟩ := hwalks'.split
    obtain rfl := hwalks.unique hd'
    rwa [(hbelow.eq_append hlinks hdotdot).2] at hnode

/-! ### A path into a directory -/

theorem components_ofNames {absolute : Bool} (h : ∀ n ∈ ns, n ≠ [] ∧ '/' ∉ n) :
    components (ofNames absolute ns) = ns := by
  have hlast : lastElement (ofNames absolute ns) = [] := by
    rcases eq_or_ne ns [] with rfl | hns
    · cases absolute <;> rfl
    · exact lastElement_eq_nil (filename_ofNames_ne_nil h hns)
  unfold components
  rw [names_ofNames h, hlast]
  simp

theorem components_of_filename (h : filename path ≠ []) : components path = names path := by
  unfold components
  rw [lastElement_eq_nil h]
  simp

/-- The directory that a path leads into, and the name it has there. -/
structure LeadsInto (t : FileTree α) (cwd : Place) (path : List Char) (d : Place) (n : List Char) : Prop where
  isName : IsName n
  isDir : t.node d = some .directory
  walks : ∃ ns, components path = ns ++ [n] ∧ ∃ k ≤ maxLinks, t.Walks k (start cwd path) ns d

theorem LeadsInto.keeps (h : t.LeadsInto cwd path d n) (hkeeps : Keeps t t') : t'.LeadsInto cwd path d n := by
  obtain ⟨hn, hd, ns, hns, k, hk, hwalks⟩ := h
  exact ⟨hn, hkeeps.directory hd, ns, hns, k, hk, hwalks.keeps hkeeps hd⟩

theorem LeadsInto.entry_eq (h : t.LeadsInto cwd path d n) : t.entry cwd path = some (d, n) := by
  obtain ⟨hn, hd, ns, hns, k, hk, hwalks⟩ := h
  unfold entry
  rw [hns, List.getLast?_concat, List.dropLast_concat, hwalks.walk_eq hk]
  exact if_pos ⟨isDir_iff.2 hd, hn⟩

theorem LeadsInto.write_eq (h : t.LeadsInto cwd path d n) (hlink : t.isLink (d ++ [n]) = false) (content : α) :
    t.write cwd path content = t.put d n (.file content) := by
  obtain ⟨hn, hd, ns, hns, k, hk, hwalks⟩ := h
  unfold write
  rw [hns, hwalks.locate_eq hk hd hn hlink]
  split_ifs with hdir
  · unfold put
    rw [dif_neg fun hput => by simp [hdir] at hput]
    rfl
  · rfl

theorem LeadsInto.unlink_eq (h : t.LeadsInto cwd path d n) : t.unlink cwd path = t.remove (d ++ [n]) := by
  unfold unlink
  rw [h.entry_eq]

theorem LeadsInto.rename_eq {source : List Char} (h : t.LeadsInto cwd source d n) (h' : t.LeadsInto cwd path e m)
    (hnode : t.node (d ++ [n]) = some node) (hdir : node.isDirectory = false) :
    t.rename cwd source path = (t.remove (d ++ [n])).put e m node := by
  unfold rename
  rw [h.entry_eq, h'.entry_eq]
  dsimp only
  rw [hnode]
  cases node with
  | directory => cases hdir
  | file c => rfl
  | link target => rfl

end FileTree
