import Mathlib.Data.Finset.Sort
import Mathlib.Data.List.Lex
import Mathlib.Data.List.Nodup

/-!
# Paths of a tree of names

A path is the root or a named child of a path. `chain` lists a path with its ancestors, without the root.
Sets of paths that hold the parent of everything in them (`ParentClosed`) are the name trees; adding paths
to one in the order of their depth works out exactly if the new ones are new and every parent is there or
is added as well (`buildable_iff`).
-/

inductive NamePath (α : Type) where
  | root
  | child (parent : NamePath α) (name : α)
  deriving DecidableEq, Repr

namespace NamePath
variable {α : Type}

def parent : NamePath α → NamePath α
  | root => root
  | child p _ => p

def depth : NamePath α → Nat
  | root => 0
  | child p _ => p.depth + 1

def elements : NamePath α → List α
  | root => []
  | child p n => p.elements ++ [n]

theorem child_ne_root {p : NamePath α} {n : α} : child p n ≠ root := nofun

theorem elements_injective : Function.Injective (elements (α := α)) := by
  intro p
  induction p with
  | root =>
    rintro (_ | ⟨q, m⟩) h
    · rfl
    · simp [elements] at h
  | child p n ih =>
    rintro (_ | ⟨q, m⟩) h
    · simp [elements] at h
    · obtain ⟨hpq, hnm⟩ := List.append_inj' h rfl
      rw [ih hpq, List.singleton_inj.1 hnm]

instance [LinearOrder α] : LinearOrder (NamePath α) := LinearOrder.lift' elements elements_injective

/-- The paths of a set in their order. -/
def sorted [LinearOrder α] (paths : Finset (NamePath α)) : List (NamePath α) := paths.sort (· ≤ ·)

/-- The path and its ancestors below the root. -/
def chain : NamePath α → List (NamePath α)
  | root => []
  | child p n => child p n :: p.chain

@[simp] theorem mem_chain_root {q : NamePath α} : q ∉ (root : NamePath α).chain := List.not_mem_nil

@[simp] theorem mem_chain_child {p q : NamePath α} {n : α} :
    q ∈ (child p n).chain ↔ q = child p n ∨ q ∈ p.chain :=
  List.mem_cons

theorem mem_chain_self {p : NamePath α} (h : p ≠ root) : p ∈ p.chain := by
  cases p with
  | root => exact absurd rfl h
  | child p n => exact List.mem_cons_self

theorem ne_root_of_mem_chain {p q : NamePath α} (h : q ∈ p.chain) : q ≠ root := by
  induction p with
  | root => cases h
  | child p n ih =>
    rcases mem_chain_child.1 h with rfl | h
    · exact child_ne_root
    · exact ih h

theorem chain_subset {p q : NamePath α} (h : q ∈ p.chain) : q.chain ⊆ p.chain := by
  induction p with
  | root => cases h
  | child p n ih =>
    rcases mem_chain_child.1 h with rfl | h
    · exact List.Subset.refl _
    · exact fun _ hx => List.mem_cons_of_mem _ (ih h hx)

theorem depth_le_of_mem_chain {p q : NamePath α} (h : q ∈ p.chain) : q.depth ≤ p.depth := by
  induction p with
  | root => cases h
  | child p n ih =>
    rcases mem_chain_child.1 h with rfl | h
    · exact le_rfl
    · exact (ih h).trans (Nat.le_succ _)

/-- The ancestors of a path are less deep. -/
theorem eq_of_mem_chain_of_depth_le {p q : NamePath α} (h : q ∈ p.chain) (hle : p.depth ≤ q.depth) :
    q = p := by
  cases p with
  | root => cases h
  | child p n =>
    rcases mem_chain_child.1 h with rfl | h
    · rfl
    · exact absurd (hle.trans (depth_le_of_mem_chain h)) (Nat.not_succ_le_self _)

theorem chain_parent_subset {p : NamePath α} : p.parent.chain ⊆ p.chain := by
  cases p with
  | root => exact List.Subset.refl _
  | child p n => exact List.subset_cons_self _ _

/-! ### Name trees -/

/-- The parent of every path in the set is the root or in the set. -/
def ParentClosed (S : NamePath α → Prop) : Prop := ∀ p n, S (child p n) → p = root ∨ S p

theorem ParentClosed.of_mem_chain {S : NamePath α → Prop} (hS : ParentClosed S) {p q : NamePath α}
    (hp : S p) (hq : q ∈ p.chain) : S q := by
  induction p with
  | root => cases hq
  | child p n ih =>
    rcases mem_chain_child.1 hq with rfl | hq
    · exact hp
    · rcases hS p n hp with rfl | hp'
      · cases hq
      · exact ih hp' hq

/-- The paths can be added to the tree one after the other: each is new, under a parent that is there. -/
def Buildable (S : NamePath α → Prop) : List (NamePath α) → Prop
  | [] => True
  | p :: l => (p.parent = root ∨ S p.parent) ∧ ¬ S p ∧ Buildable (fun q => S q ∨ q = p) l

theorem parent_ne_of_depth_le {p q : NamePath α} (hp : p ≠ root) (h : p.depth ≤ q.depth) :
    q ≠ p.parent := by
  rintro rfl
  cases p with
  | root => exact hp rfl
  | child p n => exact absurd h (Nat.not_succ_le_self _)

theorem buildable_iff {S : NamePath α → Prop} {l : List (NamePath α)}
    (hsorted : l.Pairwise fun p q => p.depth ≤ q.depth) (hnodup : l.Nodup) (hroot : ∀ p ∈ l, p ≠ root) :
    Buildable S l ↔ ∀ p ∈ l, ¬ S p ∧ (p.parent = root ∨ S p.parent ∨ p.parent ∈ l) := by
  induction l generalizing S with
  | nil => simp [Buildable]
  | cons p l ih =>
    obtain ⟨hdepth, hsorted⟩ := List.pairwise_cons.1 hsorted
    obtain ⟨hp, hnodup⟩ := List.nodup_cons.1 hnodup
    rw [List.forall_mem_cons] at hroot
    have hparent : p.parent ∉ p :: l := by
      rintro hmem
      rcases List.mem_cons.1 hmem with heq | hmem
      · exact parent_ne_of_depth_le hroot.1 le_rfl heq.symm
      · exact parent_ne_of_depth_le hroot.1 (hdepth _ hmem) rfl
    rw [Buildable, ih hsorted hnodup hroot.2, List.forall_mem_cons]
    constructor
    · rintro ⟨hup, hnew, hrest⟩
      refine ⟨⟨hnew, hup.imp_right .inl⟩, fun q hq => ?_⟩
      obtain ⟨hqnew, hqup⟩ := hrest q hq
      refine ⟨fun h => hqnew (.inl h), ?_⟩
      rcases hqup with hqup | (hqup | hqup) | hqup
      · exact .inl hqup
      · exact .inr (.inl hqup)
      · exact .inr (.inr (hqup ▸ List.mem_cons_self))
      · exact .inr (.inr (List.mem_cons_of_mem _ hqup))
    · rintro ⟨⟨hnew, hup⟩, hrest⟩
      refine ⟨?_, hnew, fun q hq => ?_⟩
      · rcases hup with hup | hup | hup
        · exact .inl hup
        · exact .inr hup
        · exact absurd hup hparent
      obtain ⟨hqnew, hqup⟩ := hrest q hq
      refine ⟨?_, ?_⟩
      · rintro (h | rfl)
        · exact hqnew h
        · exact hp hq
      · rcases hqup with hqup | hqup | hqup
        · exact .inl hqup
        · exact .inr (.inl (.inl hqup))
        · rcases List.mem_cons.1 hqup with hqup | hqup
          · exact .inr (.inl (.inr hqup))
          · exact .inr (.inr hqup)

end NamePath

/-! ### Trees with values -/

/-- A value for each path of a name tree. -/
@[ext]
structure NameTree (α β : Type) where
  values : NamePath α → Option β
  root_none : values .root = none
  closed : NamePath.ParentClosed fun p => (values p).isSome

namespace NameTree
variable {α β : Type} [DecidableEq α]

/-- The tree without `d` and what is below it. -/
def prune (t : NameTree α β) (d : NamePath α) : NameTree α β where
  values q := if d ∈ q.chain then none else t.values q
  root_none := by rw [if_neg NamePath.mem_chain_root, t.root_none]
  closed q n h := by
    by_cases hd : d ∈ (NamePath.child q n).chain
    · simp [hd] at h
    · dsimp only at h ⊢
      rw [if_neg hd] at h
      rw [if_neg fun hq => hd (NamePath.mem_chain_child.2 (.inr hq))]
      exact t.closed q n h

@[simp] theorem values_prune {t : NameTree α β} {d q : NamePath α} :
    (t.prune d).values q = if d ∈ q.chain then none else t.values q := rfl

theorem prune_of_none {t : NameTree α β} {d : NamePath α} (h : t.values d = none) : t.prune d = t := by
  ext1
  funext q
  rw [values_prune]
  split_ifs with hd
  · by_contra hq
    have hd := t.closed.of_mem_chain (Option.isSome_iff_ne_none.2 (Ne.symm hq)) hd
    simp [h] at hd
  · rfl

/-- Pruning one after the other: what is below none of them stays. -/
theorem values_foldl_prune {deleted : List (NamePath α)} {t : NameTree α β} {q : NamePath α} :
    (deleted.foldl prune t).values q = if ∃ d ∈ deleted, d ∈ q.chain then none else t.values q := by
  induction deleted generalizing t with
  | nil => simp
  | cons d deleted ih =>
    rw [List.foldl_cons, ih]
    by_cases hrest : ∃ d ∈ deleted, d ∈ q.chain
    · rw [if_pos hrest, if_pos]
      obtain ⟨d', hd', hmem⟩ := hrest
      exact ⟨d', List.mem_cons_of_mem _ hd', hmem⟩
    · rw [if_neg hrest]
      by_cases hd : d ∈ q.chain <;> simp [hd, hrest]

end NameTree
