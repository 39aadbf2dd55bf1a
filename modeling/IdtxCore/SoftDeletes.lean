import IdtxCore.JoinRuns

/-!
# `RemoveSoftDeletedPrims`: a commit drops what the session deleted

The delete set is read from the session layer, in the order of its traversal, and removed from the flattened
layer one prim after the other. A prim may be gone already with one above it, so the loop looks each one up
again; whatever the order, what is left is what is below no deleted prim. Both layers are trees of specs of
any kind (`NameTree`), and what a commit of `LayeredStage` keeps is an instance of it.
-/

namespace IdtxCore
namespace StageCommitter

abbrev SpecTree (β : Type) := NameTree String β

variable {β : Type} (active : β → Option Bool)

/-- The callback of `Traverse`: the prim specs with an authored `active=false`. -/
def softDeletedPath (session : SpecTree β) : ObjectPath PrimPath → Option PrimPath
  | .prim p => if (session.values p).any (active · = some false) then some p else none
  | .property .. => none
  | .other => none

/-- `RemoveNameChild` of the parent, which is the pseudo-root or is looked up. -/
def removeDeletedPrim (merged : SpecTree β) (path : PrimPath) : SpecTree β :=
  match merged.values path with
  | none => merged
  | some _ =>
    if path.parent = .root ∨ (merged.values path.parent).isSome then merged.prune path else merged

def removeSoftDeletedPrims (visited : List (ObjectPath PrimPath)) (session merged : SpecTree β) :
    SpecTree β :=
  (visited.filterMap (softDeletedPath active session)).foldl removeDeletedPrim merged

/-! ### What is left -/

/-- The lookups only tell whether there is anything to remove. -/
theorem removeDeletedPrim_eq_prune (merged : SpecTree β) (path : PrimPath) :
    removeDeletedPrim merged path = merged.prune path := by
  unfold removeDeletedPrim
  cases hspec : merged.values path with
  | none => exact (NameTree.prune_of_none hspec).symm
  | some spec =>
    refine if_pos ?_
    cases path with
    | root => exact .inl rfl
    | child p n => exact merged.closed p n (by simp [hspec])

variable {active}

theorem mem_softDeletedPaths {visited : List (ObjectPath PrimPath)} {session : SpecTree β} {d : PrimPath}
    (h : LayeredStage.IsTraversal session.values visited) :
    d ∈ visited.filterMap (softDeletedPath active session) ↔
      (session.values d).any (active · = some false) = true := by
  rw [List.mem_filterMap]
  constructor
  · rintro ⟨p | _ | _, -, heq⟩
    · rw [softDeletedPath] at heq
      split_ifs at heq with hdeleted
      cases heq
      exact hdeleted
    · cases heq
    · cases heq
  · intro hdeleted
    obtain ⟨spec, hspec, -⟩ := (Option.any_eq_true _ _).1 hdeleted
    exact ⟨.prim d, (h.prims d).2 (by simp [hspec]), by rw [softDeletedPath, if_pos hdeleted]⟩

theorem values_removeSoftDeletedPrims (visited : List (ObjectPath PrimPath)) (session merged : SpecTree β)
    (p : PrimPath) :
    (removeSoftDeletedPrims active visited session merged).values p =
      if ∃ d ∈ visited.filterMap (softDeletedPath active session), d ∈ p.chain then none
      else merged.values p := by
  have hprune : removeDeletedPrim (β := β) = NameTree.prune :=
    funext fun merged => funext fun path => removeDeletedPrim_eq_prune merged path
  rw [removeSoftDeletedPrims, hprune, NameTree.values_foldl_prune]

/-- The flattened layer keeps exactly the prims without a soft-deleted prim at or above them, as they are,
and the order of the traversal does not matter. -/
theorem removeSoftDeletedPrims_exact (active : β → Option Bool) (session merged : SpecTree β)
    (visited : List (ObjectPath PrimPath)) (h : LayeredStage.IsTraversal session.values visited) :
    (∀ p, (removeSoftDeletedPrims active visited session merged).values p =
      if ∃ d ∈ p.chain, (session.values d).any (active · = some false) then none else merged.values p) ∧
    ∀ visited', LayeredStage.IsTraversal session.values visited' →
      removeSoftDeletedPrims active visited' session merged =
        removeSoftDeletedPrims active visited session merged := by
  have hleft : ∀ visited, LayeredStage.IsTraversal session.values visited → ∀ p,
      (removeSoftDeletedPrims active visited session merged).values p =
        if ∃ d ∈ p.chain, (session.values d).any (active · = some false) then none
        else merged.values p := by
    intro visited h p
    rw [values_removeSoftDeletedPrims]
    refine if_congr (exists_congr fun d => ?_) rfl rfl
    rw [mem_softDeletedPaths h, and_comm]
  refine ⟨hleft visited h, fun visited' h' => ?_⟩
  ext1
  funext p
  rw [hleft visited h, hleft visited' h']

/-! ### The layers of a session -/

end StageCommitter

/-- The layer as the loop above sees it. -/
def SdfLayer.tree {R : Type} (layer : SdfLayer R) : NameTree String (SdfPrimSpec R) :=
  ⟨layer.specs, layer.root_none, layer.closed⟩

namespace StageCommitter

theorem removeSoftDeletedPrims_eq_committed {R : Type} (stage : LayeredStage R) {visited : List (ObjectPath PrimPath)}
    (h : LayeredStage.IsTraversal stage.session.specs visited) :
    removeSoftDeletedPrims (·.active) visited stage.session.tree (stage.session.flatten stage.root).tree =
      stage.committed.tree := by
  have hdeleted : ∀ d, d ∈ visited.filterMap (softDeletedPath (·.active) stage.session.tree) ↔
      d ∈ stage.session.softDeleted := by
    intro d
    rw [mem_softDeletedPaths h, LayeredStage.mem_softDeleted, Option.any_eq_true]
    simp only [decide_eq_true_eq]
    rfl
  ext1
  funext p
  rw [values_removeSoftDeletedPrims]
  simp only [hdeleted]
  have hspecs : stage.committed.tree.values p = _ := LayeredStage.specs_foldl_remove
  rw [hspecs]
  rfl

/-- A session layer that deletes `/A`. -/
def deletesA : SdfLayer Int :=
  SdfLayer.empty.author (.child .root "A") fun _ spec => { spec with active := some false }

/-- A file with `/A/B`, and with `/C` that it ships inactive. -/
def shipsInactiveC : SdfLayer Int :=
  (SdfLayer.empty.author (.child (.child .root "A") "B") fun _ spec => spec).author (.child .root "C")
    fun _ spec => { spec with active := some false }

theorem removeSoftDeletedPrims_shipped_inactive :
    (removeSoftDeletedPrims (·.active) [.prim (.child .root "A"), .other] deletesA.tree
      shipsInactiveC.tree).values (.child (.child .root "A") "B") = none ∧
    (removeSoftDeletedPrims (·.active) [.prim (.child .root "A"), .other] deletesA.tree
      shipsInactiveC.tree).values (.child .root "C") = some { active := some false } := by
  have htraversal : LayeredStage.IsTraversal deletesA.tree.values [.prim (.child .root "A"), .other] :=
    ⟨fun p => by simp [deletesA, SdfLayer.tree, SdfLayer.empty], by simp⟩
  obtain ⟨hexact, -⟩ := removeSoftDeletedPrims_exact (·.active) deletesA.tree shipsInactiveC.tree
    [.prim (.child .root "A"), .other] htraversal
  refine ⟨(hexact _).trans ?_, (hexact _).trans ?_⟩
  · decide
  · decide

end StageCommitter
end IdtxCore
