import IdtxCore.PrimDispatcher

/-!
# Replaying a join snapshot on the root file

A joining client loads the root file and applies the snapshot's frames in order. The snapshot is read from
the session layer alone, so it can be replayed exactly if the two layers fit together (`Fits`): the file has
none of the prims that the session created, and every prim that a frame builds on is in the file or created.
Commands that author keep this up; a commit or a reload gives the session another file under a session
layer that stays as it is.
-/

namespace IdtxCore

namespace LayeredStage
variable {R : Type}

def nameOf : PrimPath → String
  | .root => ""
  | .child _ n => n

def layerPrimSpec (p : PrimPath) (spec : SdfPrimSpec R) : LayerPrimSpec PrimPath R where
  path := p
  parentPath := p.parent
  name := nameOf p
  pathElementCount := p.depth
  active := spec.active
  isDef := spec.isDef
  typeName := spec.typeName
  authored := spec.authored

def view (schema : UsdSchema R) : StageView (LayeredStage R) PrimPath R where
  isNull _ := false
  readResolvedTransform stage p :=
    if (stage.active p).isSome then schema.readResolvedTransform (stage.compose p) else none
  isInactive stage p := stage.active p = some false
  hasXformOverride stage p := (stage.session.specs p).any (·.authored.isSome)
  sessionLayerIsEmpty stage := stage.session.paths = ∅
  sessionSpecs stage :=
    stage.session.sortedPaths.filterMap fun p => (stage.session.specs p).map (layerPrimSpec p)
  readSchemaDefaults := schema.readSchemaDefaults

/-! ### The client -/

/-- The client knows the prim, pruned or not. -/
def Knows (client : LayeredStage R) (p : PrimPath) : Prop := (client.compose p).isSome = true

instance (client : LayeredStage R) (p : PrimPath) : Decidable (client.Knows p) :=
  inferInstanceAs (Decidable ((client.compose p).isSome = true))

/-- A client applies a frame. `none` is a frame that is impossible: a child of a prim that is not there, a
child that is there already, or an edit of a prim that is not there. -/
def replay (client : LayeredStage R) : Message PrimPath R → Option (LayeredStage R)
  | .createPrimBroadcast parentPath primName type _ =>
    if (parentPath = .root ∨ client.Knows parentPath) ∧ ¬ client.Knows (.child parentPath primName) then
      some (client.definePrim (.child parentPath primName) ((PrimDispatcher.baseNameFor type).getD ""))
    else none
  | .xformBroadcast p transform =>
    if client.Knows p then some (client.authorTransform p (some transform)) else none
  | .setPrimActiveBroadcast p active =>
    if client.Knows p then some (client.authorActive p active) else none
  | .ack .. => some client
  | .snapshotComplete => some client

def replayAll (client : LayeredStage R) (messages : List (Message PrimPath R)) : Option (LayeredStage R) :=
  messages.foldlM replay client

def joiner (stage : LayeredStage R) : LayeredStage R := { root := stage.root, foreign := stage.foreign }

def replaySnapshot (schema : UsdSchema R) (stage : LayeredStage R) : Option (LayeredStage R) :=
  stage.joiner.replayAll (Session.snapshotFrames (view schema) stage)

section Replay
variable {client client' : LayeredStage R} {p q : PrimPath}

theorem replayAll_append (l l' : List (Message PrimPath R)) :
    client.replayAll (l ++ l') = (client.replayAll l).bind (replayAll · l') :=
  List.foldlM_append ..

theorem replayAll_cons (m : Message PrimPath R) (l : List (Message PrimPath R)) :
    client.replayAll (m :: l) = (client.replay m).bind (replayAll · l) :=
  List.foldlM_cons ..

theorem knows_author {edit : PrimPath → SdfPrimSpec R → SdfPrimSpec R} :
    Knows { client with session := client.session.author p edit } q ↔ client.Knows q ∨ q ∈ p.chain := by
  unfold Knows
  rw [isSome_compose, isSome_compose, SdfLayer.specs_author]
  split_ifs with h <;> simp [h]

theorem knows_override {edit : SdfPrimSpec R → SdfPrimSpec R} (hp : client.Knows p) :
    (client.override p edit).Knows q ↔ client.Knows q := by
  refine knows_author.trans (or_iff_left_of_imp fun hq => ?_)
  exact closed_compose.of_mem_chain hp hq

theorem knows_definePrim {n : String} {typeName : String} (hp : p = .root ∨ client.Knows p) :
    (client.definePrim (.child p n) typeName).Knows q ↔ client.Knows q ∨ q = .child p n := by
  refine knows_author.trans (or_congr_right' fun hq => ?_)
  rw [NamePath.mem_chain_child, or_iff_left_of_imp]
  intro hmem
  rcases hp with rfl | hp
  · cases hmem
  · exact absurd (closed_compose.of_mem_chain hp hmem) hq

def createFrame (schema : UsdSchema R) (spec : LayerPrimSpec PrimPath R) : Message PrimPath R :=
  let type := PrimDispatcher.typeFromName spec.typeName
  .createPrimBroadcast spec.parentPath spec.name type (schema.readSchemaDefaults type)

variable {schema : UsdSchema R}

theorem isSome_replayAll_createFrames {l : List (LayerPrimSpec PrimPath R)}
    (hl : ∀ spec ∈ l, spec.path = .child spec.parentPath spec.name) :
    (client.replayAll (l.map (createFrame schema))).isSome ↔
      NamePath.Buildable client.Knows (l.map (·.path)) := by
  induction l generalizing client with
  | nil => simp [replayAll, NamePath.Buildable]
  | cons spec l ih =>
    rw [List.forall_mem_cons] at hl
    rw [List.map_cons, replayAll_cons, List.map_cons, NamePath.Buildable, hl.1, createFrame, replay]
    by_cases hguard : (spec.parentPath = .root ∨ client.Knows spec.parentPath) ∧
        ¬ client.Knows (.child spec.parentPath spec.name)
    · rw [if_pos hguard, Option.bind_some, ih hl.2]
      have hknows : (client.definePrim (.child spec.parentPath spec.name)
            ((PrimDispatcher.baseNameFor (PrimDispatcher.typeFromName spec.typeName)).getD "")).Knows =
          fun q => client.Knows q ∨ q = .child spec.parentPath spec.name :=
        funext fun q => propext (knows_definePrim hguard.1)
      rw [hknows]
      exact ⟨fun h => ⟨hguard.1, hguard.2, h⟩, fun h => h.2.2⟩
    · rw [if_neg hguard]
      exact ⟨fun h => Bool.noConfusion h, fun h => absurd ⟨h.1, h.2.1⟩ hguard⟩

theorem knows_replayAll_createFrames {l : List (LayerPrimSpec PrimPath R)}
    (hl : ∀ spec ∈ l, spec.path = .child spec.parentPath spec.name)
    (h : client.replayAll (l.map (createFrame schema)) = some client') :
    client'.Knows q ↔ client.Knows q ∨ q ∈ l.map (·.path) := by
  induction l generalizing client with
  | nil =>
    cases h
    simp
  | cons spec l ih =>
    rw [List.forall_mem_cons] at hl
    rw [List.map_cons, replayAll_cons, createFrame, replay] at h
    by_cases hguard : (spec.parentPath = .root ∨ client.Knows spec.parentPath) ∧
        ¬ client.Knows (.child spec.parentPath spec.name)
    · rw [if_pos hguard, Option.bind_some] at h
      rw [ih hl.2 h, knows_definePrim hguard.1, List.map_cons, List.mem_cons, hl.1, or_assoc]
    · rw [if_neg hguard] at h
      cases h

def EditFrame (m : Message PrimPath R) (p : PrimPath) : Prop :=
  ∀ client : LayeredStage R, ∃ edit,
    client.replay m = if client.Knows p then some (client.override p edit) else none

theorem editFrame_xform (p : PrimPath) (t : Transform R) : EditFrame (.xformBroadcast p t) p :=
  fun _ => ⟨_, rfl⟩

theorem editFrame_setActive (p : PrimPath) (a : Bool) :
    EditFrame (R := R) (.setPrimActiveBroadcast p a) p :=
  fun _ => ⟨_, rfl⟩

theorem replayAll_edits {β : Type} {m : β → Message PrimPath R} {target : β → PrimPath}
    (hm : ∀ b, EditFrame (m b) (target b)) (l : List β) :
    ((client.replayAll (l.map m)).isSome ↔ ∀ b ∈ l, client.Knows (target b)) ∧
      ∀ client', client.replayAll (l.map m) = some client' → ∀ q, client'.Knows q ↔ client.Knows q := by
  induction l generalizing client with
  | nil =>
    refine ⟨by simp [replayAll], fun client' h q => ?_⟩
    cases h
    rfl
  | cons b l ih =>
    obtain ⟨edit, hedit⟩ := hm b client
    rw [List.map_cons, replayAll_cons, hedit, List.forall_mem_cons]
    by_cases hb : client.Knows (target b)
    · rw [if_pos hb, Option.bind_some]
      obtain ⟨hsome, hknows⟩ := @ih (client.override (target b) edit)
      refine ⟨hsome.trans ?_, fun client' h q => (hknows client' h q).trans (knows_override hb)⟩
      simp only [knows_override hb, hb, true_and]
    · rw [if_neg hb]
      refine ⟨⟨fun h => Bool.noConfusion h, fun h => absurd h.1 hb⟩, fun client' h => ?_⟩
      cases h

end Replay

/-! ### Layers that fit together -/

section Fits
variable {stage : LayeredStage R} {p : PrimPath}

/-- The session created the prim: what a creation frame is sent for. -/
def Created (stage : LayeredStage R) (p : PrimPath) : Prop :=
  ∃ spec, stage.session.specs p = some spec ∧ spec.isDef = true ∧
    PrimDispatcher.typeFromName spec.typeName ≠ .unspecified

def Moved (stage : LayeredStage R) (p : PrimPath) : Prop :=
  ∃ spec, stage.session.specs p = some spec ∧ spec.authored.isSome = true

def Deleted (stage : LayeredStage R) (p : PrimPath) : Prop :=
  ∃ spec, stage.session.specs p = some spec ∧ spec.active = some false

def InFile (stage : LayeredStage R) (p : PrimPath) : Prop := (stage.root.specs p).isSome = true

/-- The absolute root, a prim of the file or one that the session created. -/
def Known (stage : LayeredStage R) (p : PrimPath) : Prop := p = .root ∨ stage.InFile p ∨ stage.Created p

structure Fits (stage : LayeredStage R) : Prop where
  created_new : ∀ p, stage.Created p → ¬ stage.InFile p
  created_parent : ∀ p, stage.Created p → stage.Known p.parent
  moved : ∀ p, stage.Moved p → stage.Known p
  deleted : ∀ p, stage.Deleted p → stage.Known p

theorem ne_root_of_specs {spec : SdfPrimSpec R} (h : stage.session.specs p = some spec) : p ≠ .root := by
  rintro rfl
  rw [stage.session.root_none] at h
  cases h

theorem Moved.ne_root (h : stage.Moved p) : p ≠ .root := by
  obtain ⟨spec, hspec, -⟩ := h
  exact ne_root_of_specs hspec

theorem Deleted.ne_root (h : stage.Deleted p) : p ≠ .root := by
  obtain ⟨spec, hspec, -⟩ := h
  exact ne_root_of_specs hspec

theorem knows_joiner : stage.joiner.Knows p ↔ stage.InFile p := by
  rw [Knows, isSome_compose]
  exact or_iff_right nofun

theorem Known.mono {stage' : LayeredStage R} (hfile : stage.InFile p → stage'.InFile p)
    (hcreated : stage.Created p → stage'.Created p) (h : stage.Known p) : stage'.Known p :=
  h.imp_right (Or.imp hfile hcreated)

theorem known_iff (hp : p ≠ .root) : stage.Known p ↔ stage.InFile p ∨ stage.Created p :=
  or_iff_right hp

theorem mem_sessionSpecs {schema : UsdSchema R} {x : LayerPrimSpec PrimPath R} :
    x ∈ (view schema).sessionSpecs stage ↔
      ∃ p spec, stage.session.specs p = some spec ∧ layerPrimSpec p spec = x := by
  simp only [view, List.mem_filterMap, SdfLayer.mem_sortedPaths, Option.map_eq_some_iff]
  constructor
  · rintro ⟨p, -, spec, hspec, rfl⟩
    exact ⟨p, spec, hspec, rfl⟩
  · rintro ⟨p, spec, hspec, rfl⟩
    exact ⟨p, by simp [hspec], spec, hspec, rfl⟩

theorem path_sessionSpecs {schema : UsdSchema R} {x : LayerPrimSpec PrimPath R}
    (hx : x ∈ (view schema).sessionSpecs stage) : x.path = .child x.parentPath x.name := by
  obtain ⟨p, spec, hspec, rfl⟩ := mem_sessionSpecs.1 hx
  cases p with
  | root => exact absurd rfl (ne_root_of_specs hspec)
  | child p n => rfl

theorem nodup_sessionSpecs (schema : UsdSchema R) (stage : LayeredStage R) :
    (((view schema).sessionSpecs stage).map (·.path)).Nodup := by
  have hsub : ((view schema).sessionSpecs stage).map (·.path) =
      stage.session.sortedPaths.filterMap fun p => (stage.session.specs p).map fun _ => p := by
    simp [view, List.map_filterMap, layerPrimSpec, Function.comp_def]
  rw [hsub]
  refine stage.session.nodup_sortedPaths.filterMap ?_
  intro p q r hp hq
  obtain ⟨-, -, rfl⟩ := Option.map_eq_some_iff.1 hp
  obtain ⟨-, -, rfl⟩ := Option.map_eq_some_iff.1 hq
  rfl

def createdSpecs (schema : UsdSchema R) (stage : LayeredStage R) : List (LayerPrimSpec PrimPath R) :=
  (((view schema).sessionSpecs stage).filter fun spec =>
    spec.isDef && PrimDispatcher.typeFromName spec.typeName ≠ .unspecified).insertionSort
      fun a b => a.pathElementCount ≤ b.pathElementCount

def movedPrims (schema : UsdSchema R) (stage : LayeredStage R) : List (PrimPath × Transform R) :=
  ((view schema).sessionSpecs stage).filterMap fun spec => spec.authored.map (spec.path, ·)

def deletedPrims (schema : UsdSchema R) (stage : LayeredStage R) : List PrimPath :=
  (((view schema).sessionSpecs stage).filter (·.active = some false)).map (·.path)

theorem snapshotFrames_eq (schema : UsdSchema R) (stage : LayeredStage R) :
    Session.snapshotFrames (view schema) stage =
      (stage.createdSpecs schema).map (createFrame schema) ++
        (stage.movedPrims schema).map (fun b => .xformBroadcast b.1 b.2) ++
        (stage.deletedPrims schema).map (.setPrimActiveBroadcast · false) ++ [.snapshotComplete] := by
  simp [Session.snapshotFrames, Session.createFrames, createdSpecs, movedPrims, deletedPrims, createFrame,
    List.map_filterMap, Function.comp_def, view]

variable {schema : UsdSchema R}

theorem mem_sessionSpecs_of_createdSpecs {x : LayerPrimSpec PrimPath R} (hx : x ∈ stage.createdSpecs schema) :
    x ∈ (view schema).sessionSpecs stage :=
  (List.mem_filter.1 ((List.perm_insertionSort _ _).mem_iff.1 hx)).1

theorem mem_createdSpecs : p ∈ (stage.createdSpecs schema).map (·.path) ↔ stage.Created p := by
  simp only [List.mem_map, createdSpecs, (List.perm_insertionSort _ _).mem_iff, List.mem_filter,
    mem_sessionSpecs, Bool.and_eq_true, decide_eq_true_eq]
  constructor
  · rintro ⟨x, ⟨⟨q, spec, hspec, rfl⟩, hdef, htype⟩, rfl⟩
    exact ⟨spec, hspec, hdef, htype⟩
  · rintro ⟨spec, hspec, hdef, htype⟩
    exact ⟨_, ⟨⟨p, spec, hspec, rfl⟩, hdef, htype⟩, rfl⟩

theorem mem_movedPrims : p ∈ (stage.movedPrims schema).map (·.1) ↔ stage.Moved p := by
  simp only [List.mem_map, movedPrims, List.mem_filterMap, mem_sessionSpecs, Option.map_eq_some_iff]
  constructor
  · rintro ⟨-, ⟨x, ⟨q, spec, hspec, rfl⟩, t, ht, rfl⟩, rfl⟩
    exact ⟨spec, hspec, by simp [show spec.authored = some t from ht]⟩
  · rintro ⟨spec, hspec, hauthored⟩
    obtain ⟨t, ht⟩ := Option.isSome_iff_exists.1 hauthored
    exact ⟨(p, t), ⟨layerPrimSpec p spec, ⟨p, spec, hspec, rfl⟩, t, ht, rfl⟩, rfl⟩

theorem mem_deletedPrims : p ∈ stage.deletedPrims schema ↔ stage.Deleted p := by
  simp only [List.mem_map, deletedPrims, List.mem_filter, mem_sessionSpecs, decide_eq_true_eq]
  constructor
  · rintro ⟨x, ⟨⟨q, spec, hspec, rfl⟩, hactive⟩, rfl⟩
    exact ⟨spec, hspec, hactive⟩
  · rintro ⟨spec, hspec, hactive⟩
    exact ⟨_, ⟨⟨p, spec, hspec, rfl⟩, hactive⟩, rfl⟩

theorem pairwise_depth_createdSpecs (schema : UsdSchema R) (stage : LayeredStage R) :
    ((stage.createdSpecs schema).map (·.path)).Pairwise fun p q => p.depth ≤ q.depth := by
  have hdepth : ∀ x ∈ stage.createdSpecs schema, x.pathElementCount = x.path.depth := by
    intro x hx
    obtain ⟨p, spec, -, rfl⟩ := mem_sessionSpecs.1 (mem_sessionSpecs_of_createdSpecs hx)
    rfl
  rw [List.pairwise_map]
  refine (List.pairwise_insertionSort _ _).imp_of_mem ?_
  intro x y hx hy hle
  rw [← hdepth x hx, ← hdepth y hy]
  exact hle

theorem nodup_createdSpecs (schema : UsdSchema R) (stage : LayeredStage R) :
    ((stage.createdSpecs schema).map (·.path)).Nodup := by
  refine ((List.perm_insertionSort _ _).map _).nodup_iff.2 ?_
  exact (nodup_sessionSpecs schema stage).sublist (List.filter_sublist.map _)

/-- The frames are sent ancestors first, so their order is no obstacle. -/
theorem buildable_createdSpecs :
    NamePath.Buildable stage.joiner.Knows ((stage.createdSpecs schema).map (·.path)) ↔
      ∀ p, stage.Created p → ¬ stage.InFile p ∧ stage.Known p.parent := by
  rw [NamePath.buildable_iff (pairwise_depth_createdSpecs schema stage) (nodup_createdSpecs schema stage)]
  · simp only [mem_createdSpecs, knows_joiner, Known]
  · intro q hq
    obtain ⟨spec, hspec, -⟩ := mem_createdSpecs.1 hq
    exact ne_root_of_specs hspec

theorem path_createdSpecs : ∀ x ∈ stage.createdSpecs schema, x.path = .child x.parentPath x.name :=
  fun _ hx => path_sessionSpecs (mem_sessionSpecs_of_createdSpecs hx)

theorem knows_created {client : LayeredStage R}
    (h : stage.joiner.replayAll ((stage.createdSpecs schema).map (createFrame schema)) = some client) :
    client.Knows p ↔ stage.InFile p ∨ stage.Created p := by
  rw [knows_replayAll_createFrames path_createdSpecs h, knows_joiner, mem_createdSpecs]

theorem isSome_replayAll_created :
    (stage.joiner.replayAll ((stage.createdSpecs schema).map (createFrame schema))).isSome ↔
      ∀ p, stage.Created p → ¬ stage.InFile p ∧ stage.Known p.parent :=
  (isSome_replayAll_createFrames path_createdSpecs).trans buildable_createdSpecs

/-- Frames that edit the prims with a property, by a client that knows the file and the created prims. -/
theorem isSome_replayAll_edits {β : Type} {m : β → Message PrimPath R} {target : β → PrimPath}
    (hm : ∀ b, EditFrame (m b) (target b)) {l : List β} {P : PrimPath → Prop}
    (hl : ∀ p, p ∈ l.map target ↔ P p) (hP : ∀ p, P p → p ≠ .root) {client : LayeredStage R}
    (hknows : ∀ p, client.Knows p ↔ stage.InFile p ∨ stage.Created p) :
    (client.replayAll (l.map m)).isSome ↔ ∀ p, P p → stage.Known p := by
  rw [(replayAll_edits hm l).1]
  constructor
  · intro h p hp
    obtain ⟨b, hb, rfl⟩ := List.mem_map.1 ((hl p).2 hp)
    exact .inr ((hknows _).1 (h b hb))
  · intro h b hb
    have hp : P (target b) := (hl _).1 (List.mem_map_of_mem hb)
    exact (hknows _).2 ((known_iff (hP _ hp)).1 (h _ hp))

theorem isSome_replayAll_moved {client : LayeredStage R}
    (hknows : ∀ p, client.Knows p ↔ stage.InFile p ∨ stage.Created p) :
    (client.replayAll ((stage.movedPrims schema).map fun b => .xformBroadcast b.1 b.2)).isSome ↔
      ∀ p, stage.Moved p → stage.Known p :=
  isSome_replayAll_edits (fun b : PrimPath × Transform R => editFrame_xform b.1 b.2)
    (fun _ => mem_movedPrims) (fun _ => Moved.ne_root) hknows

theorem isSome_replayAll_deleted {client : LayeredStage R}
    (hknows : ∀ p, client.Knows p ↔ stage.InFile p ∨ stage.Created p) :
    (client.replayAll ((stage.deletedPrims schema).map (.setPrimActiveBroadcast · false))).isSome ↔
      ∀ p, stage.Deleted p → stage.Known p :=
  isSome_replayAll_edits (fun b => editFrame_setActive b false)
    (fun _ => (List.map_id' _).symm ▸ mem_deletedPrims) (fun _ => Deleted.ne_root) hknows

theorem replaySnapshot_eq_some_iff {client : LayeredStage R} :
    stage.replaySnapshot schema = some client ↔
      ∃ c₁ c₂, stage.joiner.replayAll ((stage.createdSpecs schema).map (createFrame schema)) = some c₁ ∧
        c₁.replayAll ((stage.movedPrims schema).map fun b => .xformBroadcast b.1 b.2) = some c₂ ∧
        c₂.replayAll ((stage.deletedPrims schema).map (.setPrimActiveBroadcast · false)) = some client := by
  rw [replaySnapshot, snapshotFrames_eq, replayAll_append, replayAll_append, replayAll_append]
  simp only [Option.bind_eq_some_iff, replayAll_cons, replay]
  constructor
  · rintro ⟨c₃, ⟨c₂, ⟨c₁, h₁, h₂⟩, h₃⟩, _, heq, hend⟩
    cases heq
    cases hend
    exact ⟨c₁, c₂, h₁, h₂, h₃⟩
  · rintro ⟨c₁, c₂, h₁, h₂, h₃⟩
    exact ⟨client, ⟨c₂, ⟨c₁, h₁, h₂⟩, h₃⟩, client, rfl, rfl⟩

theorem knows_moved {c₁ c₂ : LayeredStage R}
    (h₁ : stage.joiner.replayAll ((stage.createdSpecs schema).map (createFrame schema)) = some c₁)
    (h₂ : c₁.replayAll ((stage.movedPrims schema).map fun b => .xformBroadcast b.1 b.2) = some c₂) :
    c₂.Knows p ↔ stage.InFile p ∨ stage.Created p :=
  ((replayAll_edits (fun b : PrimPath × Transform R => editFrame_xform b.1 b.2) _).2 c₂ h₂ p).trans
    (knows_created h₁)

theorem knows_replaySnapshot {client : LayeredStage R} (h : stage.replaySnapshot schema = some client) :
    client.Knows p ↔ stage.InFile p ∨ stage.Created p := by
  obtain ⟨c₁, c₂, h₁, h₂, h₃⟩ := replaySnapshot_eq_some_iff.1 h
  exact ((replayAll_edits (fun b => editFrame_setActive b false) _).2 client h₃ p).trans (knows_moved h₁ h₂)

/-- The snapshot can be replayed exactly if the layers fit together. -/
theorem isSome_replaySnapshot_iff : (stage.replaySnapshot schema).isSome ↔ stage.Fits := by
  constructor
  · intro h
    obtain ⟨client, hclient⟩ := Option.isSome_iff_exists.1 h
    obtain ⟨c₁, c₂, h₁, h₂, h₃⟩ := replaySnapshot_eq_some_iff.1 hclient
    have hcreated := isSome_replayAll_created.1 (Option.isSome_of_mem h₁)
    exact ⟨fun p hp => (hcreated p hp).1, fun p hp => (hcreated p hp).2,
      (isSome_replayAll_moved fun _ => knows_created h₁).1 (Option.isSome_of_mem h₂),
      (isSome_replayAll_deleted fun _ => knows_moved h₁ h₂).1 (Option.isSome_of_mem h₃)⟩
  · intro h
    obtain ⟨c₁, h₁⟩ := Option.isSome_iff_exists.1
      (isSome_replayAll_created.2 fun p hp => ⟨h.created_new p hp, h.created_parent p hp⟩)
    obtain ⟨c₂, h₂⟩ := Option.isSome_iff_exists.1
      ((isSome_replayAll_moved fun _ => knows_created h₁).2 h.moved)
    obtain ⟨client, h₃⟩ := Option.isSome_iff_exists.1
      ((isSome_replayAll_deleted fun _ => knows_moved h₁ h₂).2 h.deleted)
    exact Option.isSome_of_mem (replaySnapshot_eq_some_iff.2 ⟨c₁, c₂, h₁, h₂, h₃⟩)

end Fits

/-! ### The frames of a join

`Traverse` visits the specs of the layer in an order of its own, the properties among them. -/

section Frames

/-- The `std::set` that the callback of `Traverse` fills. -/
def primPaths (visited : List (ObjectPath PrimPath)) : List PrimPath :=
  NamePath.sorted (visited.filterMap (·.primPath)).toFinset

structure IsTraversal {β : Type} (specs : PrimPath → Option β) (visited : List (ObjectPath PrimPath)) :
    Prop where
  prims : ∀ p, .prim p ∈ visited ↔ (specs p).isSome
  properties : ∀ p name, .property p name ∈ visited → (specs p).isSome

/-- The view of a session that traverses its layer like this. -/
def viewTraversing (schema : UsdSchema R) (visited : List (ObjectPath PrimPath)) :
    StageView (LayeredStage R) PrimPath R :=
  { view schema with
    sessionSpecs := fun stage =>
      (primPaths visited).filterMap fun p => (stage.session.specs p).map (layerPrimSpec p) }

theorem primPaths_eq {layer : SdfLayer R} {visited : List (ObjectPath PrimPath)}
    (h : IsTraversal layer.specs visited) : primPaths visited = layer.sortedPaths := by
  have hpaths : (visited.filterMap (·.primPath)).toFinset = layer.paths := by
    ext p
    rw [List.mem_toFinset, List.mem_filterMap, layer.mem_paths]
    constructor
    · rintro ⟨_ | _ | _, hmem, heq⟩
      · cases heq
        exact (h.prims p).1 hmem
      · cases heq
        exact h.properties p _ hmem
      · cases heq
    · intro hp
      exact ⟨.prim p, (h.prims p).2 hp, rfl⟩
  rw [primPaths, hpaths, NamePath.sorted, SdfLayer.sortedPaths]

theorem snapshotFrames_viewTraversing {schema : UsdSchema R} {stage : LayeredStage R}
    {visited : List (ObjectPath PrimPath)} (h : IsTraversal stage.session.specs visited) :
    Session.snapshotFrames (viewTraversing schema visited) stage =
      Session.snapshotFrames (view schema) stage := by
  have hspecs : (viewTraversing schema visited).sessionSpecs stage = (view schema).sessionSpecs stage := by
    simp only [viewTraversing, view, primPaths_eq h]
  unfold Session.snapshotFrames Session.createFrames
  rw [hspecs]
  rfl

/-- The creation frame of a prim of the session layer, with its own name and parent. -/
def createFrameAt (schema : UsdSchema R) (stage : LayeredStage R) (p : PrimPath) : Message PrimPath R :=
  let type := PrimDispatcher.typeFromName (((stage.session.specs p).map (·.typeName)).getD "")
  .createPrimBroadcast p.parent (nameOf p) type (schema.readSchemaDefaults type)

theorem createFrames_eq (schema : UsdSchema R) (stage : LayeredStage R) :
    (stage.createdSpecs schema).map (createFrame schema) =
      ((stage.createdSpecs schema).map (·.path)).map (createFrameAt schema stage) := by
  rw [List.map_map]
  refine List.map_congr_left fun x hx => ?_
  obtain ⟨p, spec, hspec, rfl⟩ := mem_sessionSpecs.1 (mem_sessionSpecs_of_createdSpecs hx)
  simp only [createFrame, createFrameAt, Function.comp_apply, layerPrimSpec, hspec, Option.map_some,
    Option.getD_some]

def joinFrames (schema : UsdSchema R) (stage : LayeredStage R) (created : List PrimPath)
    (moved : List (PrimPath × Transform R)) (deleted : List PrimPath) : List (Message PrimPath R) :=
  created.map (createFrameAt schema stage) ++ moved.map (fun b => .xformBroadcast b.1 b.2) ++
    deleted.map (.setPrimActiveBroadcast · false) ++ [.snapshotComplete]

/-- What a client is sent when it joins, in whatever order the session layer is traversed: a creation frame
for each prim that the session created, each after those of its ancestors, then the transforms, then the
deletions, then the end. -/
theorem sent_handleJoin_traversing (schema : UsdSchema R) (visited : List (ObjectPath PrimPath))
    (s : Session (LayeredStage R) PrimPath R) (c : ConnectionId)
    (htraversal : IsTraversal s.stage.session.specs visited) (hc : c ≠ 0 ∧ c ∈ s.clients) :
    ∃ created moved deleted,
      (s.handleJoin (viewTraversing schema visited) c).sent = s.sent ++
        (joinFrames schema s.stage created moved deleted).map (⟨c, ⟨·, s.serverSeq⟩, .snapshot⟩) ∧
      created.Nodup ∧
      (∀ p, p ∈ created ↔ ∃ spec, s.stage.session.specs p = some spec ∧ spec.isDef = true ∧
        PrimDispatcher.typeFromName spec.typeName ≠ .unspecified) ∧
      created.Pairwise fun p q => q ∉ p.chain := by
  refine ⟨(s.stage.createdSpecs schema).map (·.path), s.stage.movedPrims schema,
    s.stage.deletedPrims schema, ?_, nodup_createdSpecs schema s.stage, fun p => mem_createdSpecs, ?_⟩
  · rw [Session.handleJoin, if_neg (by simp [viewTraversing, view]), Session.sendToConnection, if_pos hc,
      snapshotFrames_viewTraversing htraversal, snapshotFrames_eq, createFrames_eq, joinFrames]
  · have hpairs := (pairwise_depth_createdSpecs schema s.stage).and (nodup_createdSpecs schema s.stage)
    refine hpairs.imp fun hpq hmem => ?_
    exact hpq.2 (NamePath.eq_of_mem_chain_of_depth_le hmem hpq.1).symm

def xformOnlySchema : UsdSchema Int where
  isXformable name := name = "Xform"
  isGprim _ := false
  readSchemaDefaults _ := {}
  readResolvedTransform _ := none
  untyped := by decide

/-- An Xform in an Xform, and one client. -/
def nestedXforms : Session (LayeredStage Int) PrimPath Int where
  stage :=
    { root := .empty
      session := SdfLayer.empty.author (.child (.child .root "Xform") "Xform") fun _ spec =>
        { spec with isDef := true, typeName := "Xform" } }
  clients := [5]

/-- Children first, with a property in front. -/
def childrenFirst : List (ObjectPath PrimPath) :=
  [.property (.child (.child .root "Xform") "Xform") "visibility",
    .prim (.child (.child .root "Xform") "Xform"), .prim (.child .root "Xform"), .other]

theorem sent_handleJoin_nestedXforms :
    ∃ created moved deleted,
      (nestedXforms.handleJoin (viewTraversing xformOnlySchema childrenFirst) 5).sent =
        (joinFrames xformOnlySchema nestedXforms.stage created moved deleted).map (⟨5, ⟨·, 0⟩, .snapshot⟩) ∧
      .child .root "Xform" ∈ created ∧ created.Pairwise fun p q => q ∉ p.chain := by
  have htraversal : IsTraversal nestedXforms.stage.session.specs childrenFirst := by
    refine ⟨fun p => ?_, fun p name h => ?_⟩
    · simp [nestedXforms, childrenFirst, SdfLayer.empty]
    · simp only [childrenFirst, List.mem_cons, ObjectPath.property.injEq, reduceCtorEq, or_false,
        List.not_mem_nil] at h
      rw [h.1]
      rfl
  obtain ⟨created, moved, deleted, hsent, -, hmem, hpairs⟩ :=
    sent_handleJoin_traversing xformOnlySchema childrenFirst nestedXforms 5 htraversal (by decide)
  exact ⟨created, moved, deleted, hsent, (hmem _).2 ⟨_, rfl, rfl, by decide⟩, hpairs⟩

end Frames
end LayeredStage
end IdtxCore
