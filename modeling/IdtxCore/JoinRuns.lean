import Mathlib.Logic.Relation
import IdtxCore.JoinSnapshot

/-!
# Join snapshots along whole runs

`perform` is what the commands of a session do to the two layers. From a session that starts with an empty
session layer, every snapshot along the run can be replayed exactly if every step is calm: a commit is when
all that the session created is soft-deleted and nothing else is, a reload is when the new file fits the
session layer, a creation is when its parent is in the file or created (`fits_perform_iff`).

The last condition is about prims that a reload took away: an `over` that is left on the session layer keeps
such a prim on the stage.
-/

namespace IdtxCore

namespace LayeredStage
variable {R : Type}

/-! ### Commands -/

def removeSoftDeletedPrims (session merged : SdfLayer R) : SdfLayer R :=
  session.softDeleted.foldl SdfLayer.remove merged

def committed (stage : LayeredStage R) : SdfLayer R :=
  removeSoftDeletedPrims stage.session (stage.session.flatten stage.root)

/-- What a command does to the layers, with the file that a reload finds and with what is foreign in a file
that is new. -/
inductive StageEdit (R : Type) where
  | create (parentPath : PrimPath) (type : PrimType)
  /-- `authored` is what can be read back of the ops -/
  | transform (primPath : PrimPath) (authored : Option (Transform R))
  | setActive (primPath : PrimPath) (active : Bool)
  | commit (foreign : PrimPath → Bool)
  | reload (root : SdfLayer R) (foreign : PrimPath → Bool)

/-- `TransformDispatcher::Apply` finds the prim, and it is xformable. -/
def canMove (schema : UsdSchema R) (stage : LayeredStage R) (p : PrimPath) : Bool :=
  (stage.active p).isSome && schema.isXformable (stage.typeName p)

def perform (schema : UsdSchema R) (stage : LayeredStage R) : StageEdit R → LayeredStage R
  | .create parentPath type =>
    match PrimDispatcher.create schema stage parentPath type with
    | some (_, stage') => stage'
    | none => stage
  | .transform p authored =>
    if stage.canMove schema p then stage.authorTransform p authored else stage
  | .setActive p active => (PrimDispatcher.setActive stage p active).2
  | .commit foreign =>
    -- nothing to commit
    if stage.session.paths = ∅ then stage
    else { stage with root := stage.committed, foreign := foreign }
  | .reload root foreign => { stage with root := root, foreign := foreign }

def run (schema : UsdSchema R) (stage : LayeredStage R) (edits : List (StageEdit R)) : LayeredStage R :=
  edits.foldl (perform schema) stage

/-- The condition on a step and the state before it. -/
def Calm (schema : UsdSchema R) (stage : LayeredStage R) : StageEdit R → Prop
  | .create parentPath type =>
    (PrimDispatcher.create schema stage parentPath type).isSome → stage.Known parentPath
  | .transform .. => True
  | .setActive .. => True
  | .commit _ =>
    (∀ p, stage.Created p → ∃ d ∈ p.chain, stage.Deleted d) ∧ ∀ p, stage.Deleted p → stage.Created p
  | .reload root _ => Fits { stage with root := root }

/-! ### The session layer -/

section Layer
variable {stage : LayeredStage R} {p q : PrimPath}

def sessionSpec (stage : LayeredStage R) (p : PrimPath) : SdfPrimSpec R := (stage.session.specs p).getD {}

theorem exists_spec_iff {φ : SdfPrimSpec R → Prop} (hφ : ¬ φ {}) :
    (∃ spec, stage.session.specs p = some spec ∧ φ spec) ↔ φ (stage.sessionSpec p) := by
  unfold sessionSpec
  cases stage.session.specs p <;> simp [hφ]

theorem created_iff : stage.Created p ↔ (stage.sessionSpec p).isDef = true ∧
    PrimDispatcher.typeFromName (stage.sessionSpec p).typeName ≠ .unspecified :=
  exists_spec_iff (by simp)

theorem moved_iff : stage.Moved p ↔ (stage.sessionSpec p).authored.isSome = true := exists_spec_iff (by simp)

theorem deleted_iff : stage.Deleted p ↔ (stage.sessionSpec p).active = some false := exists_spec_iff (by simp)

theorem sessionSpec_override {edit : SdfPrimSpec R → SdfPrimSpec R} (hp : p ≠ .root) :
    (stage.override p edit).sessionSpec q =
      if q = p then edit (stage.sessionSpec q) else stage.sessionSpec q := by
  unfold sessionSpec override
  rw [SdfLayer.specs_author]
  by_cases hq : q = p
  · simp [hq, NamePath.mem_chain_self hp]
  · rw [if_neg hq]
    split_ifs <;> rfl

theorem sessionSpec_definePrim {typeName : String} (hp : p ≠ .root) :
    (stage.definePrim p typeName).sessionSpec q =
      if q = p then { stage.sessionSpec q with isDef := true, typeName := typeName }
      else if q ∈ p.chain ∧ stage.isDefined q = false then { stage.sessionSpec q with isDef := true }
      else stage.sessionSpec q := by
  unfold sessionSpec definePrim
  rw [SdfLayer.specs_author]
  by_cases hq : q = p
  · simp [hq, NamePath.mem_chain_self hp]
  · by_cases hmem : q ∈ p.chain
    · by_cases hdefined : stage.isDefined q = true <;> simp [hq, hmem, hdefined]
    · simp [hq, hmem]

/-- Types are only given to created prims, and only these and the prims above them are `def`s. -/
structure Typed (stage : LayeredStage R) : Prop where
  created_of_type : ∀ p, (stage.sessionSpec p).typeName ≠ "" → stage.Created p
  created_of_def : ∀ p, (stage.sessionSpec p).isDef = true → ∃ c, stage.Created c ∧ p ∈ c.chain

theorem created_override {edit : SdfPrimSpec R → SdfPrimSpec R} (hp : p ≠ .root)
    (hdef : ∀ spec, (edit spec).isDef = spec.isDef) (htype : ∀ spec, (edit spec).typeName = spec.typeName) :
    (stage.override p edit).Created q ↔ stage.Created q := by
  rw [created_iff, created_iff, sessionSpec_override hp]
  split_ifs
  · rw [hdef, htype]
  · rfl

theorem Typed.override {edit : SdfPrimSpec R → SdfPrimSpec R} (hp : p ≠ .root)
    (hdef : ∀ spec, (edit spec).isDef = spec.isDef) (htype : ∀ spec, (edit spec).typeName = spec.typeName)
    (h : stage.Typed) : (stage.override p edit).Typed := by
  refine ⟨fun q hq => (created_override hp hdef htype).2 (h.created_of_type q ?_), fun q hq => ?_⟩
  · rw [sessionSpec_override hp] at hq
    split_ifs at hq
    · rwa [htype] at hq
    · exact hq
  · have hq' : (stage.sessionSpec q).isDef = true := by
      rw [sessionSpec_override hp] at hq
      split_ifs at hq
      · rwa [hdef] at hq
      · exact hq
    obtain ⟨c, hc, hmem⟩ := h.created_of_def q hq'
    exact ⟨c, (created_override hp hdef htype).2 hc, hmem⟩

section Define
variable {type : PrimType} {base : String}

/-- A new prim is created, and no other: what gets a `def` above it has no type on the session layer. -/
theorem created_definePrim (h : stage.Typed) (hp : p ≠ .root)
    (hbase : PrimDispatcher.baseNameFor type = some base) :
    (stage.definePrim p base).Created q ↔ stage.Created q ∨ q = p := by
  have htype : PrimDispatcher.typeFromName base ≠ .unspecified := by
    rw [PrimDispatcher.typeFromName_of_baseNameFor hbase]
    rintro rfl
    cases hbase
  rw [created_iff, sessionSpec_definePrim hp]
  by_cases hq : q = p
  · simp [hq, htype]
  · rw [if_neg hq, or_iff_left hq]
    split_ifs
    · refine ⟨fun hnew => h.created_of_type q fun hempty => hnew.2 ?_, fun hc => ⟨rfl, (created_iff.1 hc).2⟩⟩
      rw [hempty]
      decide
    · exact created_iff.symm

theorem Typed.definePrim (h : stage.Typed) (hp : p ≠ .root)
    (hbase : PrimDispatcher.baseNameFor type = some base) : (stage.definePrim p base).Typed := by
  have hnew : (stage.definePrim p base).Created p := (created_definePrim h hp hbase).2 (.inr rfl)
  refine ⟨fun q hq => ?_, fun q hq => ?_⟩
  · rw [sessionSpec_definePrim hp] at hq
    split_ifs at hq with heq
    · exact heq ▸ hnew
    · exact (created_definePrim h hp hbase).2 (.inl (h.created_of_type q hq))
    · exact (created_definePrim h hp hbase).2 (.inl (h.created_of_type q hq))
  · rw [sessionSpec_definePrim hp] at hq
    split_ifs at hq with heq habove
    · rw [heq]
      exact ⟨p, hnew, NamePath.mem_chain_self hp⟩
    · exact ⟨p, hnew, habove.1⟩
    · obtain ⟨c, hc, hmem⟩ := h.created_of_def q hq
      exact ⟨c, (created_definePrim h hp hbase).2 (.inl hc), hmem⟩

theorem moved_definePrim (hp : p ≠ .root) : (stage.definePrim p base).Moved q ↔ stage.Moved q := by
  rw [moved_iff, moved_iff, sessionSpec_definePrim hp]
  split_ifs <;> rfl

theorem deleted_definePrim (hp : p ≠ .root) : (stage.definePrim p base).Deleted q ↔ stage.Deleted q := by
  rw [deleted_iff, deleted_iff, sessionSpec_definePrim hp]
  split_ifs <;> rfl

end Define
end Layer

/-! ### Prims that the joining client will know -/

section Known
variable {stage : LayeredStage R} {p : PrimPath}

theorem Fits.known_of_mem_chain (h : stage.Fits) {c : PrimPath} (hc : stage.Created c) (hp : p ∈ c.chain) :
    stage.Known p := by
  induction c with
  | root => cases hp
  | child c n ih =>
    rcases NamePath.mem_chain_child.1 hp with rfl | hp
    · exact .inr (.inr hc)
    · rcases h.created_parent _ hc with hroot | hfile | hcreated
      · simp only [NamePath.parent] at hroot
        rw [hroot] at hp
        cases hp
      · exact .inr (.inl (stage.root.closed.of_mem_chain hfile hp))
      · exact ih hcreated hp

theorem Fits.known_of_isDefined (h : stage.Fits) (ht : stage.Typed) (hp : p ≠ .root)
    (hdefined : stage.isDefined p = true) : stage.Known p := by
  have hself := List.all_eq_true.1 hdefined p (NamePath.mem_chain_self hp)
  by_cases hfile : stage.InFile p
  · exact .inr (.inl hfile)
  have hnone : stage.root.specs p = none := by simpa [InFile] using hfile
  have hdef : (stage.sessionSpec p).isDef = true := by
    unfold sessionSpec
    cases hspec : stage.session.specs p with
    | none => simp [compose, hnone, hspec] at hself
    | some spec => simpa [compose, hnone, hspec] using hself
  obtain ⟨c, hc, hmem⟩ := ht.created_of_def p hdef
  exact h.known_of_mem_chain hc hmem

theorem known_of_typeName (ht : stage.Typed) (htype : stage.typeName p ≠ "") : stage.Known p := by
  by_cases hfile : stage.InFile p
  · exact .inr (.inl hfile)
  refine .inr (.inr (ht.created_of_type p fun hempty => htype ?_))
  have hnone : stage.root.specs p = none := by simpa [InFile] using hfile
  unfold typeName sessionSpec at *
  cases hspec : stage.session.specs p with
  | none => simp [compose, hnone, hspec]
  | some spec => simpa [compose, hnone, hspec] using hempty

end Known

/-! ### Steps -/

section Steps
variable {schema : UsdSchema R} {stage : LayeredStage R} {p : PrimPath}

theorem fits_create_iff {parent : PrimPath} {type : PrimType} {created : CreatedPrim PrimPath R}
    {stage' : LayeredStage R} (ht : stage.Typed) (hf : stage.Fits)
    (h : PrimDispatcher.Creates stage parent type created stage') : stage'.Fits ↔ stage.Known parent := by
  obtain ⟨base, hbase, rfl⟩ := h.defines
  have hpath := h.path_eq
  have hfresh := h.fresh
  rw [hpath] at hfresh ⊢
  have hroot : NamePath.child parent created.name ≠ .root := NamePath.child_ne_root
  have hcreated : ∀ q, (stage.definePrim (.child parent created.name) base).Created q ↔
      stage.Created q ∨ q = .child parent created.name := fun q => created_definePrim ht hroot hbase
  have hknown : ∀ q, stage.Known q → (stage.definePrim (.child parent created.name) base).Known q :=
    fun q => Known.mono id fun hq => (hcreated q).2 (.inl hq)
  constructor
  · intro hf'
    rcases hf'.created_parent _ ((hcreated _).2 (.inr rfl)) with hq | hq | hq
    · exact .inl hq
    · exact .inr (.inl hq)
    · refine .inr (.inr (((hcreated _).1 hq).resolve_right fun heq => ?_))
      exact NamePath.parent_ne_of_depth_le hroot le_rfl heq.symm
  · intro hparent
    refine ⟨fun q hq => ?_, fun q hq => ?_, fun q hq => ?_, fun q hq => ?_⟩
    · rcases (hcreated q).1 hq with hq | rfl
      · exact hf.created_new q hq
      · intro hfile
        have hsome : (stage.compose (.child parent created.name)).isSome := isSome_compose.2 (.inr hfile)
        rw [hfresh] at hsome
        cases hsome
    · rcases (hcreated q).1 hq with hq | rfl
      · exact hknown _ (hf.created_parent q hq)
      · exact hknown _ hparent
    · exact hknown q (hf.moved q ((moved_definePrim hroot).1 hq))
    · exact hknown q (hf.deleted q ((deleted_definePrim hroot).1 hq))

theorem Fits.override {edit : SdfPrimSpec R → SdfPrimSpec R} (hp : p ≠ .root)
    (hdef : ∀ spec, (edit spec).isDef = spec.isDef) (htype : ∀ spec, (edit spec).typeName = spec.typeName)
    (hf : stage.Fits) (hknown : stage.Known p) : (stage.override p edit).Fits := by
  have hcreated : ∀ q, (stage.override p edit).Created q ↔ stage.Created q := fun q =>
    created_override hp hdef htype
  have hkept : ∀ q, stage.Known q → (stage.override p edit).Known q := fun q =>
    Known.mono id (hcreated q).2
  refine ⟨fun q hq => hf.created_new q ((hcreated q).1 hq),
    fun q hq => hkept _ (hf.created_parent q ((hcreated q).1 hq)), fun q hq => ?_, fun q hq => ?_⟩
  · rw [moved_iff, sessionSpec_override hp] at hq
    split_ifs at hq with heq
    · exact hkept q (heq ▸ hknown)
    · exact hkept q (hf.moved q (moved_iff.2 hq))
  · rw [deleted_iff, sessionSpec_override hp] at hq
    split_ifs at hq with heq
    · exact hkept q (heq ▸ hknown)
    · exact hkept q (hf.deleted q (deleted_iff.2 hq))

theorem mem_softDeleted : p ∈ stage.session.softDeleted ↔ stage.Deleted p := by
  rw [SdfLayer.softDeleted, List.mem_filter, SdfLayer.mem_sortedPaths, Deleted]
  cases stage.session.specs p <;> simp

theorem specs_foldl_remove {deleted : List PrimPath} {layer : SdfLayer R} :
    (deleted.foldl SdfLayer.remove layer).specs p =
      if ∃ d ∈ deleted, d ∈ p.chain then none else layer.specs p := by
  induction deleted generalizing layer with
  | nil => simp
  | cons d deleted ih =>
    rw [List.foldl_cons, ih]
    by_cases hrest : ∃ d ∈ deleted, d ∈ p.chain
    · rw [if_pos hrest, if_pos]
      obtain ⟨d', hd', hmem⟩ := hrest
      exact ⟨d', List.mem_cons_of_mem _ hd', hmem⟩
    · rw [if_neg hrest]
      by_cases hd : d ∈ p.chain <;> simp [SdfLayer.remove, hd, hrest]

theorem specs_committed_of_deleted (h : ∃ d ∈ p.chain, stage.Deleted d) : stage.committed.specs p = none := by
  obtain ⟨d, hd, hdeleted⟩ := h
  rw [committed, removeSoftDeletedPrims, specs_foldl_remove, if_pos ⟨d, mem_softDeleted.2 hdeleted, hd⟩]

theorem specs_committed (h : ¬ ∃ d ∈ p.chain, stage.Deleted d) : stage.committed.specs p = stage.compose p := by
  rw [committed, removeSoftDeletedPrims, specs_foldl_remove, if_neg]
  · rfl
  · rintro ⟨d, hd, hmem⟩
    exact h ⟨d, hmem, mem_softDeleted.1 hd⟩

theorem inFile_committed {foreign : PrimPath → Bool} :
    InFile { stage with root := stage.committed, foreign := foreign } p ↔
      (stage.compose p).isSome ∧ ¬ ∃ d ∈ p.chain, stage.Deleted d := by
  rw [InFile]
  by_cases h : ∃ d ∈ p.chain, stage.Deleted d
  · rw [specs_committed_of_deleted h]
    exact ⟨nofun, fun h' => absurd h h'.2⟩
  · rw [specs_committed h]
    exact ⟨fun h' => ⟨h', h⟩, fun h' => h'.1⟩

theorem fits_commit_iff (foreign : PrimPath → Bool) (hf : stage.Fits) :
    Fits { stage with root := stage.committed, foreign := foreign } ↔
      (∀ p, stage.Created p → ∃ d ∈ p.chain, stage.Deleted d) ∧
        ∀ p, stage.Deleted p → stage.Created p := by
  constructor
  · intro hf'
    refine ⟨fun p hp => ?_, fun p hp => ?_⟩
    · by_contra hnone
      refine hf'.created_new p hp (inFile_committed.2 ⟨isSome_compose.2 (.inl ?_), hnone⟩)
      obtain ⟨spec, hspec, -⟩ := hp
      simp [hspec]
    · rcases hf'.deleted p hp with hroot | hfile | hcreated
      · exact absurd hroot hp.ne_root
      · exact absurd ⟨p, NamePath.mem_chain_self hp.ne_root, hp⟩ (inFile_committed.1 hfile).2
      · exact hcreated
  · rintro ⟨hgone, hown⟩
    -- a prim of the old file under a soft-deleted one would have that one in the old file as well
    have hknown : ∀ q, stage.Known q →
        Known { stage with root := stage.committed, foreign := foreign } q := by
      refine fun q => Known.mono (fun hq => inFile_committed.2 ⟨isSome_compose.2 (.inr hq), ?_⟩) id
      rintro ⟨d, hmem, hd⟩
      exact hf.created_new d (hown d hd) (stage.root.closed.of_mem_chain hq hmem)
    refine ⟨fun q hq hfile => (inFile_committed.1 hfile).2 (hgone q hq),
      fun q hq => hknown _ (hf.created_parent q hq), fun q hq => hknown q (hf.moved q hq),
      fun q hq => hknown q (hf.deleted q hq)⟩

theorem perform_create_cases (schema : UsdSchema R) (stage : LayeredStage R) (parent : PrimPath)
    (type : PrimType) :
    (PrimDispatcher.create schema stage parent type = none ∧
        stage.perform schema (.create parent type) = stage) ∨
      ∃ created, (PrimDispatcher.create schema stage parent type).isSome ∧
        PrimDispatcher.Creates stage parent type created (stage.perform schema (.create parent type)) := by
  rw [perform]
  cases hcreate : PrimDispatcher.create schema stage parent type with
  | none => exact .inl ⟨rfl, rfl⟩
  | some result => exact .inr ⟨result.1, rfl, PrimDispatcher.creates_of_create hcreate⟩

theorem perform_transform_cases (schema : UsdSchema R) (stage : LayeredStage R) (p : PrimPath)
    (authored : Option (Transform R)) :
    stage.perform schema (.transform p authored) = stage ∨
      p ≠ .root ∧ stage.typeName p ≠ "" ∧
        stage.perform schema (.transform p authored) = stage.authorTransform p authored := by
  rw [perform]
  split_ifs with hok
  · refine .inr ?_
    have htype : stage.typeName p ≠ "" := by
      intro hempty
      simp [canMove, hempty, schema.untyped] at hok
    refine ⟨?_, htype, rfl⟩
    rintro rfl
    exact htype (by simp [typeName, compose_root])
  · exact .inl rfl

theorem Typed.perform (ht : stage.Typed) (edit : StageEdit R) : (stage.perform schema edit).Typed := by
  cases edit with
  | create parent type =>
    rcases perform_create_cases schema stage parent type with ⟨-, heq⟩ | ⟨created, -, hc⟩
    · rwa [heq]
    · obtain ⟨base, hbase, heq⟩ := hc.defines
      rw [heq, hc.path_eq]
      exact ht.definePrim NamePath.child_ne_root hbase
  | transform p authored =>
    rcases perform_transform_cases schema stage p authored with heq | ⟨hp, -, heq⟩
    · rwa [heq]
    · rw [heq]
      exact ht.override hp (fun _ => rfl) (fun _ => rfl)
  | setActive p active =>
    rw [LayeredStage.perform]
    rcases PrimDispatcher.setActive_cases stage p active with ⟨-, heq⟩ | ⟨hp, -, heq⟩
    · rwa [heq]
    · rw [heq]
      exact ht.override hp (fun _ => rfl) (fun _ => rfl)
  | commit foreign =>
    rw [LayeredStage.perform]
    split_ifs
    · exact ht
    · exact ⟨ht.created_of_type, ht.created_of_def⟩
  | reload root foreign => exact ⟨ht.created_of_type, ht.created_of_def⟩

/-- One step keeps the layers fitting together exactly if it is calm. -/
theorem fits_perform_iff (ht : stage.Typed) (hf : stage.Fits) (edit : StageEdit R) :
    (stage.perform schema edit).Fits ↔ stage.Calm schema edit := by
  cases edit with
  | create parent type =>
    rcases perform_create_cases schema stage parent type with ⟨hnone, heq⟩ | ⟨created, hsome, hc⟩
    · rw [heq]
      exact ⟨fun _ h => by simp [hnone] at h, fun _ => hf⟩
    · rw [fits_create_iff ht hf hc]
      exact ⟨fun h _ => h, fun h => h hsome⟩
  | transform p authored =>
    refine ⟨fun _ => trivial, fun _ => ?_⟩
    rcases perform_transform_cases schema stage p authored with heq | ⟨hp, htype, heq⟩
    · rwa [heq]
    · rw [heq]
      exact hf.override hp (fun _ => rfl) (fun _ => rfl) (known_of_typeName ht htype)
  | setActive p active =>
    refine ⟨fun _ => trivial, fun _ => ?_⟩
    rw [perform]
    rcases PrimDispatcher.setActive_cases stage p active with ⟨-, heq⟩ | ⟨hp, hdefined, heq⟩
    · rwa [heq]
    · rw [heq]
      exact hf.override hp (fun _ => rfl) (fun _ => rfl) (hf.known_of_isDefined ht hp hdefined)
  | commit foreign =>
    rw [perform]
    split_ifs with hempty
    · have hnone : ∀ p spec, stage.session.specs p ≠ some spec := by
        intro p spec hspec
        have hmem := (stage.session.mem_paths p).2 (by simp [hspec])
        rw [hempty] at hmem
        cases hmem
      refine ⟨fun _ => ⟨?_, ?_⟩, fun _ => hf⟩
      · rintro p ⟨spec, hspec, -⟩
        exact absurd hspec (hnone p spec)
      · rintro p ⟨spec, hspec, -⟩
        exact absurd hspec (hnone p spec)
    · exact fits_commit_iff foreign hf
  | reload root foreign => exact ⟨fun h => ⟨h.1, h.2, h.3, h.4⟩, fun h => ⟨h.1, h.2, h.3, h.4⟩⟩

end Steps

/-! ### Runs -/

section Runs
variable (schema : UsdSchema R) (root : SdfLayer R) (foreign : PrimPath → Bool)

def opened (root : SdfLayer R) (foreign : PrimPath → Bool) : LayeredStage R :=
  { root := root, foreign := foreign }

theorem run_concat (stage : LayeredStage R) (done : List (StageEdit R)) (next : StageEdit R) :
    stage.run schema (done ++ [next]) = (stage.run schema done).perform schema next := by
  simp [run]

theorem typed_run (edits : List (StageEdit R)) : ((opened root foreign).run schema edits).Typed := by
  induction edits using List.reverseRecOn with
  | nil => exact ⟨fun _ h => absurd rfl h, nofun⟩
  | append_singleton edits edit ih =>
    rw [run_concat]
    exact ih.perform edit

theorem fits_opened : (opened root foreign).Fits := by
  have hnone : ∀ p spec, (opened root foreign).session.specs p ≠ some spec := fun _ _ h => by cases h
  refine ⟨?_, ?_, ?_, ?_⟩ <;> (rintro p ⟨spec, hspec, -⟩; exact absurd hspec (hnone p spec))

/-- Every snapshot along a run can be replayed on the file of that moment exactly if every step is calm. -/
theorem isSome_replaySnapshot_run_iff (edits : List (StageEdit R)) :
    (∀ done, done <+: edits → (((opened root foreign).run schema done).replaySnapshot schema).isSome) ↔
      ∀ done next, done ++ [next] <+: edits → ((opened root foreign).run schema done).Calm schema next := by
  simp only [isSome_replaySnapshot_iff]
  constructor
  · intro h done next hnext
    have hdone := h done ((List.prefix_append _ _).trans hnext)
    rw [← fits_perform_iff (typed_run schema root foreign done) hdone, ← run_concat]
    exact h _ hnext
  · intro h done
    induction done using List.reverseRecOn with
    | nil => exact fun _ => fits_opened root foreign
    | append_singleton done next ih =>
      intro hnext
      rw [run_concat, fits_perform_iff (typed_run schema root foreign done)
        (ih ((List.prefix_append _ _).trans hnext))]
      exact h done next hnext

end Runs

/-! ### Sessions on such a stage -/

section Sessions
variable {schema : UsdSchema R} {s s' : Session (LayeredStage R) PrimPath R}

/-- The calls into USD. Each may fail, and a reload may find any file or none that is new. -/
def env (schema : UsdSchema R) : Session.Env (LayeredStage R) PrimPath R where
  view := view schema
  isEmptyPath _ := false
  apply stage p transform call :=
    (call.stage = stage ∧ call.outcome = .returned false) ∨
      transform.isSome ∧ stage.canMove schema p ∧ ∃ authored ok,
        call.stage = stage.authorTransform p authored ∧ call.outcome = .returned ok ∧
        (ok = true → authored.isSome)
  create stage parent type call :=
    (call.stage = stage ∧ call.outcome = .returned none) ∨
      ∃ created, PrimDispatcher.create schema stage parent type = some (created, call.stage) ∧
        call.outcome = .returned (some created)
  setActive stage p active call :=
    (call.stage = stage ∧ call.outcome = .returned .failed) ∨
      call.stage = (PrimDispatcher.setActive stage p active).2 ∧
        call.outcome = .returned (PrimDispatcher.setActive stage p active).1
  commit stage call :=
    (call.stage = stage ∧ call.outcome ≠ .returned true) ∨
      ∃ foreign, call.stage = stage.perform schema (.commit foreign) ∧ call.outcome = .returned true
  reload stage call :=
    call.stage = stage ∨ ∃ root foreign, call.stage = stage.perform schema (.reload root foreign)

def Runs (schema : UsdSchema R) (stage stage' : LayeredStage R) : Prop :=
  ∃ edits, stage' = stage.run schema edits

theorem Runs.refl (stage : LayeredStage R) : Runs schema stage stage := ⟨[], rfl⟩

theorem Runs.single (stage : LayeredStage R) (edit : StageEdit R) :
    Runs schema stage (stage.perform schema edit) :=
  ⟨[edit], rfl⟩

theorem Runs.trans {a b c : LayeredStage R} (h : Runs schema a b) (h' : Runs schema b c) :
    Runs schema a c := by
  obtain ⟨edits, rfl⟩ := h
  obtain ⟨edits', rfl⟩ := h'
  exact ⟨edits ++ edits', by simp [run]⟩

theorem runs_reload {stage : LayeredStage R} {call : Call (LayeredStage R) PrimPath Bool}
    (h : (env schema).reload stage call) : Runs schema stage call.stage := by
  rcases h with heq | ⟨root, foreign, heq⟩
  · rw [heq]
    exact .refl stage
  · rw [heq]
    exact .single stage _

theorem runs_commit {stage : LayeredStage R} {call : Call (LayeredStage R) PrimPath Bool}
    (h : (env schema).commit stage call) : Runs schema stage call.stage := by
  rcases h with ⟨heq, -⟩ | ⟨foreign, heq, -⟩
  · rw [heq]
    exact .refl stage
  · rw [heq]
    exact .single stage _

theorem runs_handles {command : SessionCommand PrimPath R} (h : Session.Handles (env schema) s command s') :
    Runs schema s.stage s'.stage := by
  cases h with
  | @transform command call hcall =>
    rcases Session.stage_handleTransform (view schema) s call command with heq | heq
    · exact heq ▸ .refl _
    · rw [show (env schema).view = view schema from rfl, heq]
      rcases hcall with ⟨heq, -⟩ | ⟨-, hmove, authored, ok, heq, -⟩
      · exact heq ▸ .refl _
      · refine ⟨[.transform command.primPath authored], ?_⟩
        simp [run, perform, heq, hmove]
  | join =>
    exact (Session.stage_handleJoin (view schema) s _).symm ▸ .refl _
  | @createPrim command call hcall =>
    rcases Session.stage_handleCreatePrim (view schema) s call command with heq | heq
    · exact heq ▸ .refl _
    · rw [show (env schema).view = view schema from rfl, heq]
      rcases hcall with ⟨heq, -⟩ | ⟨created, hcreate, -⟩
      · exact heq ▸ .refl _
      · refine ⟨[.create command.parentPath command.type], ?_⟩
        simp [run, perform, hcreate]
  | @setPrimActive command call hcall =>
    have hstage := Session.stage_handleSetPrimActive (view schema) s call command
    rw [show (env schema).view = view schema from rfl, hstage, if_neg (by simp [view])]
    rcases hcall with ⟨heq, -⟩ | ⟨heq, -⟩
    · exact heq ▸ .refl _
    · rw [heq]
      exact .single s.stage (.setActive command.primPath command.active)
  | @commit commit reload hcommit hreload =>
    rcases Session.stage_handleCommit (view schema) s commit reload with heq | heq | heq
    · exact heq ▸ .refl _
    · rw [show (env schema).view = view schema from rfl, heq]
      exact runs_commit hcommit
    · rw [show (env schema).view = view schema from rfl, heq]
      exact (runs_commit hcommit).trans (runs_reload hreload)
  | @reload call hcall =>
    rcases Session.stage_reloadRootLayer (view schema) s call with heq | heq
    · exact heq ▸ .refl _
    · rw [show (env schema).view = view schema from rfl, heq]
      exact runs_reload hcall
  | flush =>
    exact (Session.stage_handleFlush (view schema) s _).symm ▸ .refl _
  | correction =>
    exact (Session.stage_sendCorrection s _ _).symm ▸ .refl _

/-- The stage of a session on the file, after any commands: the runs above are all there are. -/
theorem runs_of_reachable {root : SdfLayer R} {foreign : PrimPath → Bool} (hs : s.stage = opened root foreign)
    (h : Relation.ReflTransGen (fun a b => ∃ command, Session.Handles (env schema) a command b) s s') :
    Runs schema (opened root foreign) s'.stage := by
  rw [← hs]
  induction h with
  | refl => exact .refl _
  | tail _ hstep ih =>
    obtain ⟨command, hcommand⟩ := hstep
    exact ih.trans (runs_handles hcommand)

end Sessions

/-! ### A commit of a created prim

The session creates a cube in an empty file and commits it. The session layer still has it, so the next client
is told to create a prim that its file has already. -/

def builtInSchema : UsdSchema Int where
  isXformable name := PrimDispatcher.typeFromName name ≠ .unspecified
  isGprim name := PrimDispatcher.typeFromName name ≠ .unspecified && name ≠ "Xform"
  readSchemaDefaults _ := {}
  readResolvedTransform spec := spec.bind (·.authored)
  untyped := by decide

theorem not_replays_after_commit :
    ¬ (((opened .empty fun _ => false).run builtInSchema
      [.create .root .cube, .commit fun _ => false]).replaySnapshot builtInSchema).isSome := by
  decide +kernel

end LayeredStage
end IdtxCore
