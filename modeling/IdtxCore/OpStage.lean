import IdtxCore.JoinRuns

/-!
# The stage with its xform ops

`LayeredStage` has of a transform what the join snapshot reads of it. Here the layers have the op order and the
op attributes, each opinion of the session layer over that of the root file, and a transform is what USD makes
of the ops in the composed order. `prims` forgets the ops again.

`Apply` authors an order together with a value for every op in it, and no other command authors ops. So the
session layer has a prim's whole transform or nothing of it (`WholeOps`), whatever was applied before.

A commit writes the overlay of the session layer on the root file, without the soft-deleted prims. The session
layer stays, and the overlay absorbs it: writing it again changes nothing.
-/

namespace IdtxCore
namespace TransformDispatcher
variable {R F : Type}

/-! ### One opinion over another -/

def AttributeSpec.over (strong weak : AttributeSpec R F) : AttributeSpec R F :=
  ⟨strong.typeName, strong.default.or weak.default⟩

def PrimSpec.over (strong weak : PrimSpec R F) : PrimSpec R F where
  attributes op := Option.merge AttributeSpec.over (strong.attributes op) (weak.attributes op)
  ops := strong.ops ∪ weak.ops
  mem_ops op := by simp [strong.mem_ops, weak.mem_ops]
  xformOpOrder := strong.xformOpOrder.or weak.xformOpOrder

theorem PrimSpec.over_empty : PrimSpec.over ({} : PrimSpec R F) {} = {} :=
  PrimSpec.eq_of (fun _ => rfl) rfl

/-- An opinion that is written below itself adds nothing. -/
theorem PrimSpec.over_over (strong weak : PrimSpec R F) :
    strong.over (strong.over weak) = strong.over weak := by
  refine PrimSpec.eq_of (fun op => ?_) ?_
  · cases hs : strong.attributes op <;> cases hw : weak.attributes op <;>
      simp [PrimSpec.over, AttributeSpec.over, hs, hw, ← Option.or_assoc]
  · simp [PrimSpec.over, ← Option.or_assoc]

theorem PrimSpec.attrDefault_over (strong weak : PrimSpec R F) (op : Op) :
    (strong.over weak).attrDefault op = (strong.attrDefault op).or (weak.attrDefault op) := by
  cases hs : strong.attributes op <;> cases hw : weak.attributes op <;>
    simp [PrimSpec.over, PrimSpec.attrDefault, AttributeSpec.over, hs, hw]

/-- `SessionLayerHasXformOverride` -/
def PrimSpec.hasXformOverride (spec : PrimSpec R F) : Bool :=
  spec.xformOpOrder.isSome || decide (spec.ops ≠ ∅)

/-- The ops in their order, with their values: what the local transform is computed from. -/
def Prim.opStack (prim : Prim R F) : List (Op × Option (Value R F)) :=
  prim.order.map fun op => (op, prim.value op)

theorem Prim.opStack_over {prim prim' : Prim R F} (hspec : prim'.spec = prim.spec)
    (hbase : prim'.base = prim.spec.over prim.base) : prim'.opStack = prim.opStack := by
  have horder : prim'.order = prim.order := by
    simp only [Prim.order, hspec, hbase, PrimSpec.over, ← Option.or_assoc, Option.or_self]
  have hvalue : ∀ op, prim'.value op = prim.value op := by
    intro op
    simp only [Prim.value, hspec, hbase, PrimSpec.attrDefault_over, ← Option.or_assoc, Option.or_self]
  simp only [Prim.opStack, horder, hvalue]

/-- All of a transform, or nothing of it. -/
def PrimSpec.WholeOps (spec : PrimSpec R F) : Prop :=
  spec = {} ∨ ∃ order, spec.xformOpOrder = some order ∧ ∀ op ∈ order, (spec.attrDefault op).isSome

theorem PrimSpec.wholeOps_applied [FloatCast R F] (spec : PrimSpec R F) (transform : Transform R) :
    (spec.applied transform).WholeOps := by
  refine .inr ⟨opOrder transform, rfl, fun op hop => ?_⟩
  cases transform with
  | separate t r s =>
    simp only [opOrder, List.mem_cons, List.not_mem_nil, or_false] at hop
    rcases hop with rfl | rfl | rfl <;> rfl
  | matrix m =>
    rw [List.mem_singleton.1 hop]
    rfl

/-- Whole ops hide what is below them. -/
theorem Prim.opStack_eq_of_wholeOps {prim prim' : Prim R F} (hspec : prim'.spec = prim.spec)
    (h : prim.spec.WholeOps) (hover : prim.spec.hasXformOverride = true) : prim'.opStack = prim.opStack := by
  rcases h with hempty | ⟨order, horder, hvalues⟩
  · rw [hempty] at hover
    simp [PrimSpec.hasXformOverride] at hover
  · have horders : ∀ x : Prim R F, x.spec = prim.spec → x.order = order := by
      intro x hx
      simp [Prim.order, hx, horder]
    rw [Prim.opStack, Prim.opStack, horders prim' hspec, horders prim rfl]
    refine List.map_congr_left fun op hop => ?_
    obtain ⟨v, hv⟩ := Option.isSome_iff_exists.1 (hvalues op hop)
    simp [Prim.value, hspec, hv]

end TransformDispatcher

open TransformDispatcher

/-! ### Layers -/

/-- A layer, with the xform opinions of its prim specs. -/
structure OpLayer (R F : Type) where
  layer : SdfLayer R
  ops : PrimPath → PrimSpec R F
  ops_none : ∀ p, layer.specs p = none → ops p = {}

namespace OpLayer
variable {R F : Type}

/-- The layer with ops at its specs. -/
def of (layer : SdfLayer R) (ops : PrimPath → PrimSpec R F) : OpLayer R F where
  layer := layer
  ops p := if (layer.specs p).isSome then ops p else {}
  ops_none p h := by simp [h]

def empty : OpLayer R F := .of .empty fun _ => {}

theorem ops_of {layer : SdfLayer R} {ops : PrimPath → PrimSpec R F} {p : PrimPath}
    (h : layer.specs p = none → ops p = {}) : (of layer ops).ops p = ops p := by
  cases hspec : layer.specs p with
  | none => simp [of, hspec, h hspec]
  | some spec => simp [of, hspec]

theorem eq_of {l l' : OpLayer R F} (hspecs : ∀ p, l.layer.specs p = l'.layer.specs p)
    (hops : ∀ p, l.ops p = l'.ops p) : l = l' := by
  obtain ⟨⟨specs, paths, mem_paths, root_none, closed⟩, ops, ops_none⟩ := l
  obtain ⟨⟨specs', paths', mem_paths', root_none', closed'⟩, ops', ops_none'⟩ := l'
  obtain rfl : specs = specs' := funext hspecs
  obtain rfl : ops = ops' := funext hops
  obtain rfl : paths = paths' := by
    ext p
    rw [mem_paths, mem_paths']
  rfl

end OpLayer

structure OpStage (R F : Type) where
  root : OpLayer R F
  session : OpLayer R F := .empty
  foreign : PrimPath → Bool := fun _ => false

namespace OpStage
variable {R F : Type}

def prims (stage : OpStage R F) : LayeredStage R := ⟨stage.root.layer, stage.session.layer, stage.foreign⟩

/-- `GetPrimAtPath`, for the dispatcher. -/
def prim (schema : UsdSchema R) (stage : OpStage R F) (p : PrimPath) : Option (Prim R F) :=
  if (stage.prims.active p).isSome then
    some
      { xformable := schema.isXformable (stage.prims.typeName p)
        base := stage.root.ops p
        session := (stage.session.layer.specs p).map fun _ => stage.session.ops p }
  else none

/-! ### Commands -/

section Commands
variable [Zero R] [Zero F] [One F] [FloatCast R F] (schema : UsdSchema R)

/-- The ops of a prim, authored on the session layer. -/
def authorOps (stage : OpStage R F) (p : PrimPath) (spec : PrimSpec R F) : OpStage R F :=
  let prims := stage.prims.authorTransform p (readAuthoredLocalTransform (some spec))
  { stage with session := .of prims.session (Function.update stage.session.ops p spec) }

/-- `TransformDispatcher::Apply`. Nothing is authored if it fails, see `applyToPrim_eq`. -/
def transform (stage : OpStage R F) (p : PrimPath) (transform : Option (Transform R)) : OpStage R F :=
  match stage.prim schema p with
  | none => stage
  | some prim =>
    let (prim, ok) := applyToPrim prim transform
    if ok then stage.authorOps p prim.spec else stage

/-- What a command did that authors no ops. -/
def withPrims (stage : OpStage R F) (prims : LayeredStage R) : OpStage R F :=
  { stage with session := .of prims.session stage.session.ops }

/-- What a command does to the layers, with the file that a reload finds. -/
inductive Edit (R F : Type) where
  | create (parentPath : PrimPath) (type : PrimType)
  | transform (primPath : PrimPath) (transform : Option (Transform R))
  | setActive (primPath : PrimPath) (active : Bool)
  | reload (root : OpLayer R F) (foreign : PrimPath → Bool)

def perform (stage : OpStage R F) : Edit R F → OpStage R F
  | .create parentPath type =>
    match PrimDispatcher.create schema stage.prims parentPath type with
    | some (_, prims) => stage.withPrims prims
    | none => stage
  | .transform p t => stage.transform schema p t
  | .setActive p active => stage.withPrims (PrimDispatcher.setActive stage.prims p active).2
  | .reload root foreign => { stage with root := root, foreign := foreign }

def run (stage : OpStage R F) (edits : List (Edit R F)) : OpStage R F := edits.foldl (perform schema) stage

end Commands

/-- The session layer over the root file, without the soft-deleted prims. -/
def merged (stage : OpStage R F) : OpLayer R F :=
  .of stage.prims.committed fun p => (stage.session.ops p).over (stage.root.ops p)

/-- `CommitOverrides`: what is written, `none` if there is nothing to commit. -/
def written (stage : OpStage R F) : Option (OpLayer R F) :=
  if stage.session.layer.paths = ∅ then none else some stage.merged

/-- A commit with its reload. -/
def commit (stage : OpStage R F) : OpStage R F :=
  match stage.written with
  | none => stage
  | some root => { stage with root := root }

/-- `ReadResolvedTransform`; `resolve` is what USD makes of the ops. -/
def resolved (schema : UsdSchema R) (resolve : List (Op × Option (Value R F)) → Option (Transform R))
    (stage : OpStage R F) (p : PrimPath) : Option (Transform R) :=
  (stage.prim schema p).bind fun prim => if prim.xformable then resolve prim.opStack else none

/-! ### Ops along a run -/

section Runs
variable [Zero R] [Zero F] [One F] [FloatCast R F] {schema : UsdSchema R} {stage : OpStage R F}

omit [Zero R] [Zero F] [One F] [FloatCast R F] in
/-- What the dispatcher sees of a prim. -/
theorem prim_cases {p : PrimPath} {x : Prim R F} (h : stage.prim schema p = some x) :
    x.spec = stage.session.ops p ∧ x.base = stage.root.ops p ∧
      x.xformable = schema.isXformable (stage.prims.typeName p) ∧ (stage.prims.active p).isSome := by
  unfold prim at h
  split_ifs at h with hactive
  cases h
  refine ⟨?_, rfl, rfl, hactive⟩
  cases hspec : stage.session.layer.specs p with
  | none => simp [Prim.spec, stage.session.ops_none p hspec]
  | some spec => simp [Prim.spec]

variable (schema) in
omit [Zero R] [Zero F] [One F] [FloatCast R F] in
theorem exists_prim {p : PrimPath} (h : (stage.prims.active p).isSome) : ∃ x, stage.prim schema p = some x :=
  ⟨_, if_pos h⟩

theorem transform_cases (schema : UsdSchema R) (stage : OpStage R F) (p : PrimPath)
    (t : Option (Transform R)) :
    stage.transform schema p t = stage ∨ ∃ t', stage.prims.canMove schema p = true ∧
      stage.transform schema p t = stage.authorOps p ((stage.session.ops p).applied t') := by
  unfold transform
  cases hprim : stage.prim schema p with
  | none => exact .inl rfl
  | some prim =>
    obtain ⟨hspec, -, hx, hactive⟩ := prim_cases hprim
    rcases applyToPrim_cases prim t with happly | ⟨t', -, hmovable, happly⟩
    · left
      simp [happly]
    · refine .inr ⟨t', ?_, ?_⟩
      · rw [LayeredStage.canMove, hactive, ← hx]
        exact hmovable
      · simp only [happly, if_true]
        rw [← hspec]
        rfl

theorem wholeOps_perform (h : ∀ p, (stage.session.ops p).WholeOps) (edit : Edit R F) (p : PrimPath) :
    ((perform schema stage edit).session.ops p).WholeOps := by
  have hof : ∀ (layer : SdfLayer R) (ops : PrimPath → PrimSpec R F), (ops p).WholeOps →
      ((OpLayer.of layer ops).ops p).WholeOps := by
    intro layer ops hops
    dsimp only [OpLayer.of]
    split_ifs
    · exact hops
    · exact .inl rfl
  cases edit with
  | create parentPath type =>
    dsimp only [perform]
    cases PrimDispatcher.create schema stage.prims parentPath type with
    | none => exact h p
    | some result => exact hof _ _ (h p)
  | transform q t =>
    rcases transform_cases schema stage q t with heq | ⟨t', -, heq⟩
    · rw [perform, heq]
      exact h p
    · rw [perform, heq]
      refine hof _ _ ?_
      by_cases hq : p = q
      · rw [hq, Function.update_self]
        exact PrimSpec.wholeOps_applied _ t'
      · rw [Function.update_of_ne hq]
        exact h p
  | setActive q active => exact hof _ _ (h p)
  | reload root foreign => exact h p

/-- Whatever was done to it, the session layer has the whole transform of a prim or nothing of it. -/
theorem wholeOps_run (schema : UsdSchema R) (root : OpLayer R F) (foreign : PrimPath → Bool)
    (edits : List (Edit R F)) (p : PrimPath) :
    ((run schema { root := root, foreign := foreign } edits).session.ops p).WholeOps := by
  revert p
  refine List.foldlRecOn edits (motive := fun stage : OpStage R F => ∀ p, (stage.session.ops p).WholeOps) _
    ?_ ?_
  · exact fun p => .inl rfl
  · exact fun stage h edit _ => wholeOps_perform h edit

/-- Without the ops, a command does what it does to a `LayeredStage`. -/
theorem runs_perform (stage : OpStage R F) (edit : Edit R F) :
    LayeredStage.Runs schema stage.prims (perform schema stage edit).prims := by
  cases edit with
  | create parentPath type =>
    dsimp only [perform]
    cases hcreate : PrimDispatcher.create schema stage.prims parentPath type with
    | none => exact .refl _
    | some result =>
      obtain ⟨base, -, hdefine⟩ := (PrimDispatcher.creates_of_create hcreate).defines
      refine ⟨[.create parentPath type], ?_⟩
      simp only [LayeredStage.run, List.foldl_cons, List.foldl_nil, LayeredStage.perform, hcreate]
      rw [hdefine]
      rfl
  | transform p t =>
    rcases transform_cases schema stage p t with heq | ⟨t', hmove, heq⟩
    · rw [perform, heq]
      exact .refl _
    · rw [perform, heq]
      refine ⟨[.transform p (readAuthoredLocalTransform (some ((stage.session.ops p).applied t')))], ?_⟩
      simp only [LayeredStage.run, List.foldl_cons, List.foldl_nil, LayeredStage.perform, hmove, if_true]
      rfl
  | setActive p active =>
    refine ⟨[.setActive p active], ?_⟩
    simp only [LayeredStage.run, List.foldl_cons, List.foldl_nil, LayeredStage.perform]
    rcases PrimDispatcher.setActive_cases stage.prims p active with ⟨-, heq⟩ | ⟨-, -, heq⟩
    · rw [perform, heq]
      rfl
    · rw [perform, heq]
      rfl
  | reload root foreign => exact .single stage.prims (.reload root.layer foreign)

end Runs

end OpStage

/-! ### Commits -/

theorem SdfPrimSpec.over_self {R : Type} (spec : SdfPrimSpec R) : spec.over spec = spec := by
  simp [SdfPrimSpec.over]

theorem SdfPrimSpec.over_over {R : Type} (strong weak : SdfPrimSpec R) :
    strong.over (strong.over weak) = strong.over weak := by
  unfold SdfPrimSpec.over
  congr 1
  · rw [← Bool.or_assoc, Bool.or_self]
  · split_ifs <;> rfl
  · rw [← Option.or_assoc, Option.or_self]
  · rw [← Option.or_assoc, Option.or_self]

namespace LayeredStage
variable {R : Type} {stage : LayeredStage R} {p : PrimPath}

/-- An active prim has no soft-deleted prim at or above it. -/
theorem not_deleted_of_active (h : stage.active p = some true) : ¬ ∃ d ∈ p.chain, stage.Deleted d := by
  induction p with
  | root =>
    rintro ⟨d, hd, -⟩
    cases hd
  | child p n ih =>
    rintro ⟨d, hd, hdeleted⟩
    rw [active] at h
    split_ifs at h with hp
    rcases NamePath.mem_chain_child.1 hd with rfl | hd
    · obtain ⟨spec, hspec, hactive⟩ := hdeleted
      cases hroot : stage.root.specs (.child p n) <;>
        simp [compose, hspec, hroot, SdfPrimSpec.over, hactive] at h
    · exact ih hp ⟨d, hd, hdeleted⟩

theorem active_congr {stage' : LayeredStage R} (h : ∀ q ∈ p.chain, stage'.compose q = stage.compose q) :
    stage'.active p = stage.active p := by
  induction p with
  | root => rfl
  | child p n ih =>
    rw [active, active, ih fun q hq => h q (NamePath.mem_chain_child.2 (.inr hq)),
      h (.child p n) (NamePath.mem_chain_self NamePath.child_ne_root)]

theorem compose_committed (h : ¬ ∃ d ∈ p.chain, stage.Deleted d) :
    compose { stage with root := stage.committed } p = stage.compose p := by
  rw [compose, specs_committed h, compose]
  cases stage.session.specs p with
  | none => simp
  | some s => cases stage.root.specs p <;> simp [SdfPrimSpec.over_self, SdfPrimSpec.over_over]

/-- A commit leaves the composed prim alone, at all paths that are not deleted. -/
theorem compose_committed_chain (h : ¬ ∃ d ∈ p.chain, stage.Deleted d) :
    ∀ q ∈ p.chain, compose { stage with root := stage.committed } q = stage.compose q := by
  intro q hq
  refine compose_committed ?_
  rintro ⟨d, hd, hdeleted⟩
  exact h ⟨d, NamePath.chain_subset hq hd, hdeleted⟩

theorem active_committed_iff :
    active { stage with root := stage.committed } p = some true ↔ stage.active p = some true := by
  constructor
  · intro h
    have hdeleted : ¬ ∃ d ∈ p.chain, stage.Deleted d :=
      @not_deleted_of_active _ { stage with root := stage.committed } p h
    rwa [active_congr (compose_committed_chain hdeleted)] at h
  · intro h
    rwa [active_congr (compose_committed_chain (not_deleted_of_active h))]

theorem specs_committed_twice (stage : LayeredStage R) (p : PrimPath) :
    (committed { stage with root := stage.committed }).specs p = stage.committed.specs p := by
  by_cases h : ∃ d ∈ p.chain, stage.Deleted d
  · rw [specs_committed_of_deleted h]
    exact specs_committed_of_deleted h
  · rw [specs_committed h, ← compose_committed h]
    exact specs_committed h

end LayeredStage

namespace OpStage
variable {R F : Type} {schema : UsdSchema R} {resolve : List (Op × Option (Value R F)) → Option (Transform R)}
  {stage : OpStage R F} {p : PrimPath}

theorem commit_cases (stage : OpStage R F) :
    (stage.session.layer.paths = ∅ ∧ stage.written = none ∧ stage.commit = stage) ∨
    (stage.session.layer.paths ≠ ∅ ∧ stage.written = some stage.merged ∧
      stage.commit = { stage with root := stage.merged }) := by
  by_cases h : stage.session.layer.paths = ∅
  · have hwritten : stage.written = none := if_pos h
    exact .inl ⟨h, hwritten, by rw [commit, hwritten]⟩
  · have hwritten : stage.written = some stage.merged := if_neg h
    exact .inr ⟨h, hwritten, by rw [commit, hwritten]⟩

theorem ops_merged (h : ¬ ∃ d ∈ p.chain, stage.prims.Deleted d) :
    stage.merged.ops p = (stage.session.ops p).over (stage.root.ops p) := by
  refine OpLayer.ops_of fun hnone => ?_
  rw [LayeredStage.specs_committed h] at hnone
  have hspecs : stage.session.layer.specs p = none ∧ stage.root.layer.specs p = none := by
    simpa [LayeredStage.compose, prims] using hnone
  rw [stage.session.ops_none p hspecs.1, stage.root.ops_none p hspecs.2, PrimSpec.over_empty]

theorem ops_merged_of_deleted (h : ∃ d ∈ p.chain, stage.prims.Deleted d) : stage.merged.ops p = {} :=
  stage.merged.ops_none p (LayeredStage.specs_committed_of_deleted h)

/-- What is written absorbs the session layer. -/
theorem merged_merged (stage : OpStage R F) : merged { stage with root := stage.merged } = stage.merged := by
  refine OpLayer.eq_of (LayeredStage.specs_committed_twice stage.prims) fun p => ?_
  by_cases h : ∃ d ∈ p.chain, stage.prims.Deleted d
  · rw [ops_merged_of_deleted h]
    exact ops_merged_of_deleted h
  · have hagain : (merged { stage with root := stage.merged }).ops p =
        (stage.session.ops p).over (stage.merged.ops p) := ops_merged h
    rw [hagain, ops_merged h, PrimSpec.over_over]

theorem resolved_merged (h : stage.prims.active p = some true) :
    resolved schema resolve { stage with root := stage.merged } p = stage.resolved schema resolve p := by
  have hdeleted := LayeredStage.not_deleted_of_active h
  have hactive : (prims { stage with root := stage.merged }).active p = some true :=
    LayeredStage.active_committed_iff.2 h
  have hcompose : (prims { stage with root := stage.merged }).compose p = stage.prims.compose p :=
    LayeredStage.compose_committed hdeleted
  obtain ⟨x, hx⟩ := exists_prim schema (Option.isSome_of_mem h)
  obtain ⟨y, hy⟩ := exists_prim schema (Option.isSome_of_mem hactive)
  obtain ⟨hspec, hbase, hxformable, -⟩ := prim_cases hx
  obtain ⟨hspec', hbase', hxformable', -⟩ := prim_cases hy
  have hstack : y.opStack = x.opStack := by
    refine Prim.opStack_over (hspec'.trans hspec.symm) ?_
    rw [hbase', hspec, hbase]
    exact ops_merged hdeleted
  have htype : y.xformable = x.xformable := by
    rw [hxformable, hxformable', LayeredStage.typeName, hcompose, LayeredStage.typeName]
  rw [resolved, resolved, hx, hy, Option.bind_some, Option.bind_some, hstack, htype]

/-- A second commit writes the same file, and no commit changes which prims are active or how they are
placed. -/
theorem commit_twice_eq_once (schema : UsdSchema R) (resolve : List (Op × Option (Value R F)) → Option (Transform R))
    (stage : OpStage R F) :
    stage.commit.written = stage.written ∧ stage.commit.commit = stage.commit ∧
    ∀ p, (stage.commit.prims.active p = some true ↔ stage.prims.active p = some true) ∧
      (stage.prims.active p = some true →
        stage.commit.resolved schema resolve p = stage.resolved schema resolve p) := by
  rcases commit_cases stage with ⟨-, -, hcommit⟩ | ⟨hpaths, hwritten, hcommit⟩
  · rw [hcommit, hcommit]
    exact ⟨rfl, rfl, fun p => ⟨Iff.rfl, fun _ => rfl⟩⟩
  · have htwice : merged { stage with root := stage.merged } = stage.merged := merged_merged stage
    rcases commit_cases { stage with root := stage.merged } with ⟨hempty, -⟩ | ⟨-, hwritten', hcommit'⟩
    · exact absurd hempty hpaths
    · rw [htwice] at hwritten' hcommit'
      rw [hcommit, hwritten', hwritten, hcommit']
      exact ⟨rfl, rfl, fun p => ⟨LayeredStage.active_committed_iff, resolved_merged⟩⟩

end OpStage
end IdtxCore
