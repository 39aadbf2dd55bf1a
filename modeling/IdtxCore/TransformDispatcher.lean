import Mathlib.Data.Finset.Basic
import Mathlib.Logic.Function.Basic
import Mathlib.Data.List.Basic
import Mathlib.Algebra.Ring.Int.Defs

/-!
# `TransformDispatcher`: authoring a transform and reading it back

`Apply` switches the shape of a prim through its op order and writes the op attributes of the new
shape; the attributes of the old shape stay. It checks first that every op can be added, so an update is
applied as a whole or not at all (`applyToPrim_eq`). `ReadAuthoredLocalTransform` looks at the attributes
alone, `xformOp:transform` first. So a matrix, once authored, hides every separate update after it
(`readAuthored_applyAll_iff`).

USD is what the dispatcher relies on: setting the order writes the order only, adding an op creates
or reuses its attribute and appends to the order, setting an op writes the attribute's default, and
nothing removes an attribute. Doubles and floats are the types `R` and `F` with the two casts.
-/

namespace IdtxCore

/-! ### Messages -/

structure Vector3 (α : Type) where
  x : α
  y : α
  z : α
  deriving DecidableEq, Repr

def Vector3.map {α β : Type} (f : α → β) (v : Vector3 α) : Vector3 β := ⟨f v.x, f v.y, f v.z⟩

/-- `Matrix4dTransform` and `GfMatrix4d`, row by row. -/
structure Matrix4d (α : Type) where
  (m00 m01 m02 m03 : α)
  (m10 m11 m12 m13 : α)
  (m20 m21 m22 m23 : α)
  (m30 m31 m32 m33 : α)
  deriving DecidableEq, Repr

/-- The `transform` of a `TransformUpdate`. -/
inductive Transform (R : Type) where
  | separate (translation rotation scale : Vector3 R)
  | matrix (m : Matrix4d R)
  deriving DecidableEq, Repr

def Transform.isMatrix {R : Type} : Transform R → Bool
  | .separate .. => false
  | .matrix _ => true

structure TransformUpdate (R : Type) where
  primPath : String
  /-- `none` is `TRANSFORM_NOT_SET` -/
  transform : Option (Transform R)
  deriving DecidableEq, Repr

/-- The casts between `double` and `float`. -/
class FloatCast (R F : Type) where
  narrow : R → F
  widen : F → R

namespace TransformDispatcher

/-! ### Prims -/

/-- The ops the dispatcher authors, all without a suffix: `xformOp:translate` and so on. `other` is any other
token of an op order. -/
inductive Op where
  | translate
  | rotateXYZ
  | scale
  | transform
  | other (token : String)
  deriving DecidableEq, Repr

inductive ValueTypeName where
  | double3
  | float3
  | half3
  | matrix4d
  | other (name : String)
  deriving DecidableEq, Repr

inductive Value (R F : Type) where
  | vec3d (v : Vector3 R)
  | vec3f (v : Vector3 F)
  | matrix4d (m : Matrix4d R)
  | other
  deriving DecidableEq, Repr

structure AttributeSpec (R F : Type) where
  typeName : ValueTypeName
  default : Option (Value R F)
  deriving DecidableEq, Repr

theorem mem_no_ops {R F : Type} (op : Op) :
    op ∈ (∅ : Finset Op) ↔ ((fun _ => none : Op → Option (AttributeSpec R F)) op).isSome := by
  simp

/-- The opinions of one layer about the xform ops of a prim. -/
structure PrimSpec (R F : Type) where
  attributes : Op → Option (AttributeSpec R F) := fun _ => none
  /-- the ops that have an attribute -/
  ops : Finset Op := ∅
  mem_ops : ∀ op, op ∈ ops ↔ (attributes op).isSome := by exact mem_no_ops
  /-- `none` if it is not authored -/
  xformOpOrder : Option (List Op) := none

theorem PrimSpec.eq_of {R F : Type} {spec spec' : PrimSpec R F}
    (hattr : ∀ op, spec.attributes op = spec'.attributes op) (horder : spec.xformOpOrder = spec'.xformOpOrder) :
    spec = spec' := by
  obtain ⟨attributes, ops, mem_ops, order⟩ := spec
  obtain ⟨attributes', ops', mem_ops', order'⟩ := spec'
  obtain rfl : attributes = attributes' := funext hattr
  obtain rfl : ops = ops' := by
    ext op
    rw [mem_ops, mem_ops']
  obtain rfl : order = order' := horder
  rfl

/-- A composed prim: what the weaker layers say, and the spec of the session layer. -/
structure Prim (R F : Type) where
  xformable : Bool
  base : PrimSpec R F := {}
  session : Option (PrimSpec R F) := none

variable {R F : Type}

namespace Prim

def spec (prim : Prim R F) : PrimSpec R F := prim.session.getD {}

/-- The value type of the composed attribute, if there is one. -/
def typeName (prim : Prim R F) (op : Op) : Option ValueTypeName :=
  ((prim.spec.attributes op).or (prim.base.attributes op)).map (·.typeName)

/-- The op order of the composed prim. -/
def order (prim : Prim R F) : List Op := (prim.spec.xformOpOrder.or prim.base.xformOpOrder).getD []

def setXformOpOrder (prim : Prim R F) (order : List Op) : Prim R F :=
  { prim with session := some { prim.spec with xformOpOrder := some order } }

def setAttribute (prim : Prim R F) (op : Op) (attr : AttributeSpec R F) : Prim R F :=
  { prim with session := some { prim.spec with
      attributes := Function.update prim.spec.attributes op (some attr)
      ops := insert op prim.spec.ops
      mem_ops := fun op' => by
        by_cases h : op' = op
        · simp [h]
        · simp [h, prim.spec.mem_ops] } }

/-- `AddXformOp`: fails on an attribute of another type and on an op that is in the order already. -/
def addOp (prim : Prim R F) (op : Op) (type : ValueTypeName) : Prim R F × Bool :=
  if op ∈ prim.order then (prim, false)
  else
    match prim.typeName op with
    | none => ((prim.setAttribute op ⟨type, none⟩).setXformOpOrder (prim.order ++ [op]), true)
    | some type' => if type' = type then (prim.setXformOpOrder (prim.order ++ [op]), true) else (prim, false)

/-- `UsdGeomXformOp::Set`: the default value, authored on the session layer. -/
def set (prim : Prim R F) (op : Op) (type : ValueTypeName) (value : Value R F) : Prim R F :=
  prim.setAttribute op ⟨type, some value⟩

end Prim

/-! ### `Apply` -/

def canAddOp (prim : Prim R F) (op : Op) (type : ValueTypeName) : Bool :=
  match prim.typeName op with
  | none => true
  | some type' => type' == type

def canAuthorOps (prim : Prim R F) : Option (Transform R) → Bool
  | some (.separate ..) =>
    canAddOp prim .translate .double3 && canAddOp prim .rotateXYZ .float3 && canAddOp prim .scale .float3
  | some (.matrix _) => canAddOp prim .transform .matrix4d
  | none => true

def applyMatrix (prim : Prim R F) (m : Matrix4d R) : Prim R F × Bool :=
  let prim := prim.setXformOpOrder []
  let (prim, op) := prim.addOp .transform .matrix4d
  if !op then (prim, false) else (prim.set .transform .matrix4d (.matrix4d m), true)

section Apply
variable [FloatCast R F]

def applySeparate (prim : Prim R F) (translation rotation scale : Vector3 R) : Prim R F × Bool :=
  let prim := prim.setXformOpOrder []
  let (prim, translateOp) := prim.addOp .translate .double3
  let (prim, rotateOp) := prim.addOp .rotateXYZ .float3
  let (prim, scaleOp) := prim.addOp .scale .float3
  if !translateOp || !rotateOp || !scaleOp then (prim, false)
  else
    (((prim.set .translate .double3 (.vec3d translation)).set
      .rotateXYZ .float3 (.vec3f (rotation.map FloatCast.narrow))).set
      .scale .float3 (.vec3f (scale.map FloatCast.narrow)), true)

/-- What `Apply` does to the prim it found. -/
def applyToPrim (prim : Prim R F) (transform : Option (Transform R)) : Prim R F × Bool :=
  if !prim.xformable then (prim, false)
  else if !canAuthorOps prim transform then (prim, false)
  else
    match transform with
    | some (.separate translation rotation scale) => applySeparate prim translation rotation scale
    | some (.matrix m) => applyMatrix prim m
    | none => (prim, false)

/-- The prims of a composed stage. -/
abbrev Stage (Path R F : Type) := Path → Option (Prim R F)

/-- `TransformDispatcher::Apply`. `parse` is `none` where `IsValidPathString` is false. -/
def apply {Path : Type} [DecidableEq Path] (parse : String → Option Path)
    (stage : Option (Stage Path R F)) (upd : TransformUpdate R) : Option (Stage Path R F) × Bool :=
  match stage with
  | none => (none, false)
  | some prims =>
    if upd.primPath = "" then (some prims, false)
    else
      match parse upd.primPath with
      | none => (some prims, false)
      | some path =>
        match prims path with
        | none => (some prims, false)
        | some prim =>
          let (prim, ok) := applyToPrim prim upd.transform
          (some (Function.update prims path (some prim)), ok)

end Apply

/-! ### `ReadAuthoredLocalTransform` -/

section Read
variable [Zero R] [Zero F] [One F] [FloatCast R F]

/-- `attr_default`: `none` is an empty `VtValue`. -/
def PrimSpec.attrDefault (spec : PrimSpec R F) (op : Op) : Option (Value R F) :=
  (spec.attributes op).bind (·.default)

def readAuthoredLocalTransform (primSpec : Option (PrimSpec R F)) : Option (Transform R) :=
  match primSpec with
  | none => none
  | some spec =>
    match spec.attrDefault .transform with
    | some (.matrix4d m) => some (.matrix m)
    | _ =>
      let t := spec.attrDefault .translate
      let r := spec.attrDefault .rotateXYZ
      let s := spec.attrDefault .scale
      if t.isNone && r.isNone && s.isNone then none
      else
        let tv := match t with | some (.vec3d v) => v | _ => ⟨0, 0, 0⟩
        let rv := match r with | some (.vec3f v) => v | _ => ⟨(0 : F), 0, 0⟩
        let sv := match s with | some (.vec3f v) => v | _ => ⟨(1 : F), 1, 1⟩
        some (.separate tv (rv.map FloatCast.widen) (sv.map FloatCast.widen))

end Read

/-! ### What each authoring call leaves behind -/

namespace Prim

@[simp] theorem spec_setXformOpOrder (prim : Prim R F) (order : List Op) :
    (prim.setXformOpOrder order).spec = { prim.spec with xformOpOrder := some order } := rfl

@[simp] theorem order_setXformOpOrder (prim : Prim R F) (order : List Op) :
    (prim.setXformOpOrder order).order = order := rfl

@[simp] theorem attributes_setAttribute (prim : Prim R F) (op : Op) (attr : AttributeSpec R F) :
    (prim.setAttribute op attr).spec.attributes = Function.update prim.spec.attributes op (some attr) := rfl

@[simp] theorem attributes_set (prim : Prim R F) (op : Op) (type : ValueTypeName) (v : Value R F) :
    (prim.set op type v).spec.attributes =
      Function.update prim.spec.attributes op (some ⟨type, some v⟩) := rfl

/-- Adding an op leaves the other attributes alone. -/
theorem attributes_addOp_of_ne (prim : Prim R F) {op op' : Op} (type : ValueTypeName) (h : op' ≠ op) :
    (prim.addOp op type).1.spec.attributes op' = prim.spec.attributes op' := by
  unfold addOp
  split_ifs
  · rfl
  · split
    · simp [h]
    · split_ifs <;> rfl

end Prim

/-- Adding an op succeeds if its attribute is missing or of the right type and the op is not in the
order; the other ops can be added as before. -/
theorem addOp_of_canAddOp (prim : Prim R F) {op : Op} {type : ValueTypeName}
    (h : canAddOp prim op type = true) (hop : op ∉ prim.order) :
    (prim.addOp op type).2 = true ∧ (prim.addOp op type).1.order = prim.order ++ [op] ∧
      (prim.addOp op type).1.spec.xformOpOrder = some (prim.order ++ [op]) ∧
      (prim.addOp op type).1.base = prim.base ∧ (prim.addOp op type).1.xformable = prim.xformable := by
  unfold Prim.addOp
  rw [if_neg hop]
  unfold canAddOp at h
  split at h
  · exact ⟨rfl, rfl, rfl, rfl, rfl⟩
  · rw [if_pos (by simpa using h)]
    exact ⟨rfl, rfl, rfl, rfl, rfl⟩

theorem canAddOp_congr {prim prim' : Prim R F} {op : Op} (type : ValueTypeName)
    (hattr : prim'.spec.attributes op = prim.spec.attributes op)
    (hbase : prim'.base = prim.base) : canAddOp prim' op type = canAddOp prim op type := by
  simp [canAddOp, Prim.typeName, hattr, hbase]

section Applied
variable [FloatCast R F]

/-- The op order of an update. -/
def opOrder : Transform R → List Op
  | .separate .. => [.translate, .rotateXYZ, .scale]
  | .matrix _ => [.transform]

/-- The op attributes of an update. -/
def opAttribute (F : Type) [FloatCast R F] : Transform R → Op → Option (AttributeSpec R F)
  | .separate t _ _, .translate => some ⟨.double3, some (.vec3d t)⟩
  | .separate _ r _, .rotateXYZ => some ⟨.float3, some (.vec3f (r.map FloatCast.narrow))⟩
  | .separate _ _ s, .scale => some ⟨.float3, some (.vec3f (s.map FloatCast.narrow))⟩
  | .matrix m, .transform => some ⟨.matrix4d, some (.matrix4d m)⟩
  | _, _ => none

theorem isSome_opAttribute {transform : Transform R} {op : Op} :
    (opAttribute F transform op).isSome ↔ op ∈ opOrder transform := by
  cases transform <;> cases op <;> simp [opAttribute, opOrder]

/-- The opinions with the ops of the update. The attributes of other ops stay. -/
def PrimSpec.applied (spec : PrimSpec R F) (transform : Transform R) : PrimSpec R F where
  attributes op := (opAttribute F transform op).or (spec.attributes op)
  ops := (opOrder transform).toFinset ∪ spec.ops
  mem_ops op := by simp [isSome_opAttribute, spec.mem_ops]
  xformOpOrder := some (opOrder transform)

def Prim.applied (prim : Prim R F) (transform : Transform R) : Prim R F :=
  { prim with session := some (prim.spec.applied transform) }

theorem Prim.eq_applied {prim prim' : Prim R F} {transform : Transform R}
    (hsession : prim'.session = some prim'.spec) (hx : prim'.xformable = prim.xformable)
    (hbase : prim'.base = prim.base) (horder : prim'.spec.xformOpOrder = some (opOrder transform))
    (hattr : ∀ op, prim'.spec.attributes op = (opAttribute F transform op).or (prim.spec.attributes op)) :
    prim' = prim.applied transform := by
  have hspec : prim'.spec = prim.spec.applied transform := PrimSpec.eq_of hattr horder
  obtain ⟨xformable', base', session'⟩ := prim'
  obtain rfl : xformable' = prim.xformable := hx
  obtain rfl : base' = prim.base := hbase
  obtain rfl : session' = some _ := hsession.trans (congrArg some hspec)
  rfl

theorem applyMatrix_eq {prim : Prim R F} (m : Matrix4d R)
    (h : canAuthorOps prim (some (.matrix m)) = true) :
    applyMatrix prim m = (prim.applied (.matrix m), true) := by
  obtain ⟨hok, -, horder, hbase, hx⟩ := addOp_of_canAddOp (prim.setXformOpOrder []) h (by simp)
  have happly : applyMatrix prim m =
      (((prim.setXformOpOrder []).addOp .transform .matrix4d).1.set .transform .matrix4d (.matrix4d m),
        true) := by
    simp only [applyMatrix, hok]; rfl
  rw [happly]
  refine congrArg (·, true) (Prim.eq_applied rfl hx hbase horder fun op => ?_)
  by_cases hop : op = .transform
  · subst hop
    simp [opAttribute]
  · have hnone : opAttribute F (.matrix m) op = none := by
      cases op <;> first | rfl | exact absurd rfl hop
    rw [hnone, Option.none_or, Prim.attributes_set, Function.update_of_ne hop]
    exact Prim.attributes_addOp_of_ne _ _ hop

/-- The sequence of ops that `ApplySeparate` adds is complete. -/
theorem applySeparate_eq {prim : Prim R F} (t r s : Vector3 R)
    (h : canAuthorOps prim (some (.separate t r s)) = true) :
    applySeparate prim t r s = (prim.applied (.separate t r s), true) := by
  simp only [canAuthorOps, Bool.and_eq_true] at h
  obtain ⟨⟨ht, hr⟩, hs⟩ := h
  set prim₀ := prim.setXformOpOrder [] with hprim₀
  set prim₁ := (prim₀.addOp .translate .double3).1 with hprim₁
  set prim₂ := (prim₁.addOp .rotateXYZ .float3).1 with hprim₂
  set prim₃ := (prim₂.addOp .scale .float3).1 with hprim₃
  obtain ⟨hok₁, hord₁, -, hbase₁, hx₁⟩ := addOp_of_canAddOp prim₀ ht (by simp [hprim₀])
  have hr₁ : canAddOp prim₁ .rotateXYZ .float3 = true :=
    (canAddOp_congr _ (prim₀.attributes_addOp_of_ne _ (by decide)) hbase₁).trans hr
  obtain ⟨hok₂, hord₂, -, hbase₂, hx₂⟩ := addOp_of_canAddOp prim₁ hr₁ (by rw [hord₁, hprim₀]; simp)
  have hs₂ : canAddOp prim₂ .scale .float3 = true :=
    (canAddOp_congr _ (prim₁.attributes_addOp_of_ne _ (by decide)) hbase₂).trans
      ((canAddOp_congr _ (prim₀.attributes_addOp_of_ne _ (by decide)) hbase₁).trans hs)
  obtain ⟨hok₃, -, hord₃, hbase₃, hx₃⟩ := addOp_of_canAddOp prim₂ hs₂ (by rw [hord₂, hord₁, hprim₀]; simp)
  have happly : applySeparate prim t r s =
      (((prim₃.set .translate .double3 (.vec3d t)).set
        .rotateXYZ .float3 (.vec3f (r.map FloatCast.narrow))).set
        .scale .float3 (.vec3f (s.map FloatCast.narrow)), true) := by
    simp only [applySeparate, ← hprim₀, ← hprim₁, ← hprim₂, ← hprim₃, hok₁, hok₂, hok₃]
    rfl
  have hothers : ∀ op, op ≠ .translate → op ≠ .rotateXYZ → op ≠ .scale →
      prim₃.spec.attributes op = prim.spec.attributes op := by
    intro op htranslate hrotate hscale
    rw [hprim₃, prim₂.attributes_addOp_of_ne _ hscale, hprim₂, prim₁.attributes_addOp_of_ne _ hrotate,
      hprim₁, prim₀.attributes_addOp_of_ne _ htranslate]
    rfl
  have hx : prim₃.xformable = prim.xformable := hx₃.trans (hx₂.trans hx₁)
  have hbase : prim₃.base = prim.base := hbase₃.trans (hbase₂.trans hbase₁)
  have horder : prim₃.spec.xformOpOrder = some (opOrder (.separate t r s)) := by
    rw [hord₃, hord₂, hord₁]
    rfl
  rw [happly]
  clear_value prim₃
  refine congrArg (·, true) (Prim.eq_applied rfl hx hbase horder fun op => ?_)
  cases op with
  | translate => simp [opAttribute]
  | rotateXYZ => simp [opAttribute]
  | scale => simp [opAttribute]
  | transform => simpa [opAttribute] using hothers .transform (by simp) (by simp) (by simp)
  | other token => simpa [opAttribute] using hothers (.other token) (by simp) (by simp) (by simp)

/-- An update that can be authored is applied as a whole, and any other leaves the prim alone. -/
theorem applyToPrim_eq (prim : Prim R F) (transform : Option (Transform R)) :
    applyToPrim prim transform =
      match transform with
      | none => (prim, false)
      | some t =>
        if prim.xformable && canAuthorOps prim transform then (prim.applied t, true) else (prim, false) := by
  unfold applyToPrim
  by_cases hx : prim.xformable = true
  · by_cases hcan : canAuthorOps prim transform = true
    · cases transform with
      | none => simp [hx, hcan]
      | some t =>
        cases t with
        | separate t r s => simp [hx, hcan, applySeparate_eq t r s hcan]
        | matrix m => simp [hx, hcan, applyMatrix_eq m hcan]
    · cases transform <;> simp [hx, hcan]
  · cases transform <;> simp [hx]

theorem applyToPrim_cases (prim : Prim R F) (transform : Option (Transform R)) :
    applyToPrim prim transform = (prim, false) ∨ ∃ t, transform = some t ∧ prim.xformable = true ∧
      applyToPrim prim transform = (prim.applied t, true) := by
  rw [applyToPrim_eq]
  cases transform with
  | none => exact .inl rfl
  | some t =>
    dsimp only
    split_ifs with hcan
    · exact .inr ⟨t, rfl, (Bool.and_eq_true_iff.1 hcan).1, rfl⟩
    · exact .inl rfl

end Applied

/-! ### All or nothing -/

/-- The value of the composed op. -/
def Prim.value (prim : Prim R F) (op : Op) : Option (Value R F) :=
  (prim.spec.attrDefault op).or (prim.base.attrDefault op)

/-- The composed prim has the ops of the update, with its values, and no other op. -/
def Prim.HasOps [FloatCast R F] (prim : Prim R F) : Transform R → Prop
  | .separate t r s =>
    prim.order = [.translate, .rotateXYZ, .scale] ∧ prim.value .translate = some (.vec3d t) ∧
      prim.value .rotateXYZ = some (.vec3f (r.map FloatCast.narrow)) ∧
      prim.value .scale = some (.vec3f (s.map FloatCast.narrow))
  | .matrix m => prim.order = [.transform] ∧ prim.value .transform = some (.matrix4d m)

theorem Prim.hasOps_applied [FloatCast R F] (prim : Prim R F) (transform : Transform R) :
    (prim.applied transform).HasOps transform := by
  cases transform with
  | separate t r s => exact ⟨rfl, rfl, rfl, rfl⟩
  | matrix m => exact ⟨rfl, rfl⟩

/-- What `Apply` does to a stage: nothing, or it writes the ops of the update over those of the prim. -/
theorem apply_cases [FloatCast R F] {Path : Type} [DecidableEq Path] (parse : String → Option Path)
    (stage : Option (Stage Path R F)) (upd : TransformUpdate R) :
    apply parse stage upd = (stage, false) ∨ ∃ prims path prim t, stage = some prims ∧
      parse upd.primPath = some path ∧ prims path = some prim ∧ upd.transform = some t ∧
      applyToPrim prim (some t) = (prim.applied t, true) ∧
      apply parse stage upd = (some (Function.update prims path (some (prim.applied t))), true) := by
  cases stage with
  | none => exact .inl rfl
  | some prims =>
    unfold apply
    dsimp only
    by_cases hempty : upd.primPath = ""
    · exact .inl (if_pos hempty)
    rw [if_neg hempty]
    cases hparse : parse upd.primPath with
    | none => exact .inl rfl
    | some path =>
      dsimp only
      cases hprim : prims path with
      | none => exact .inl rfl
      | some prim =>
        dsimp only
        rcases applyToPrim_cases prim upd.transform with heq | ⟨t, ht, -, heq⟩
        · left
          rw [heq, ← hprim, Function.update_eq_self]
        · exact .inr ⟨prims, path, prim, t, rfl, rfl, hprim, ht, ht ▸ heq, by rw [heq]⟩

/-- A failed update leaves the stage as it was; a successful one changes the session layer's opinion of its
prim, which then has the ops of the update. -/
theorem apply_all_or_nothing [FloatCast R F] {Path : Type} [DecidableEq Path]
    (parse : String → Option Path) (stage : Option (Stage Path R F)) (upd : TransformUpdate R) :
    ((apply parse stage upd).2 = false → (apply parse stage upd).1 = stage) ∧
    ((apply parse stage upd).2 = true → ∃ prims path prim prim' transform,
      stage = some prims ∧ parse upd.primPath = some path ∧ prims path = some prim ∧
      upd.transform = some transform ∧
      (apply parse stage upd).1 = some (Function.update prims path (some prim')) ∧
      prim'.xformable = prim.xformable ∧ prim'.base = prim.base ∧ prim'.HasOps transform) := by
  rcases apply_cases parse stage upd with heq | ⟨prims, path, prim, t, hstage, hparse, hprim, ht, -, heq⟩
  · rw [heq]
    exact ⟨fun _ => rfl, nofun⟩
  · rw [heq]
    refine ⟨nofun, fun _ => ?_⟩
    exact ⟨prims, path, prim, prim.applied t, t, hstage, hparse, hprim, ht, rfl, rfl, rfl, prim.hasOps_applied t⟩

/-! ### Reading back what was applied -/

section RoundTrip
variable [Zero R] [Zero F] [One F] [FloatCast R F]

/-- The session layer holds a matrix for the prim. -/
def Prim.authoredMatrix (prim : Prim R F) : Option (Matrix4d R) :=
  match prim.spec.attrDefault .transform with
  | some (.matrix4d m) => some m
  | _ => none

/-- A transform as it is after `Apply` narrowed rotation and scale. -/
def rounded (F : Type) [FloatCast R F] : Transform R → Transform R
  | .separate t r s =>
    .separate t ((r.map (FloatCast.narrow (F := F))).map FloatCast.widen)
      ((s.map (FloatCast.narrow (F := F))).map FloatCast.widen)
  | .matrix m => .matrix m

/-- What is read back after one successful update: the matrix the prim has, or else the update. -/
theorem readAuthored_applyToPrim {prim : Prim R F} {transform : Transform R}
    (h : (applyToPrim prim (some transform)).2 = true) :
    let prim' := (applyToPrim prim (some transform)).1
    match transform with
    | .matrix m => prim'.authoredMatrix = some m ∧ readAuthoredLocalTransform prim'.session = some (.matrix m)
    | .separate .. => prim'.authoredMatrix = prim.authoredMatrix ∧
        readAuthoredLocalTransform prim'.session =
          some ((prim.authoredMatrix.map .matrix).getD (rounded F transform)) := by
  rw [applyToPrim_eq] at h ⊢
  simp only at h ⊢
  split_ifs at h ⊢
  cases transform with
  | matrix m =>
    refine ⟨by simp [Prim.authoredMatrix, PrimSpec.attrDefault, Prim.applied, PrimSpec.applied, Prim.spec, opAttribute], ?_⟩
    simp [readAuthoredLocalTransform, PrimSpec.attrDefault, Prim.applied, PrimSpec.applied, opAttribute]
  | separate t r s =>
    have hdefault : (prim.applied (.separate t r s)).spec.attrDefault .transform =
        prim.spec.attrDefault .transform := by
      simp [PrimSpec.attrDefault, Prim.applied, PrimSpec.applied, Prim.spec, opAttribute]
    have hsession : (prim.applied (.separate t r s)).session = some (prim.applied (.separate t r s)).spec := rfl
    refine ⟨by simp [Prim.authoredMatrix, hdefault], ?_⟩
    simp only [hsession, readAuthoredLocalTransform, hdefault, Prim.authoredMatrix]
    split
    · rfl
    · simp [PrimSpec.attrDefault, Prim.applied, PrimSpec.applied, Prim.spec, opAttribute, rounded]

variable {Path : Type} [DecidableEq Path] (parse : String → Option Path)

/-- The stage after updates that were all applied successfully. -/
def applyAll (stage : Stage Path R F) : List (TransformUpdate R) → Option (Stage Path R F)
  | [] => some stage
  | u :: us =>
    match apply parse (some stage) u with
    | (some stage, true) => applyAll stage us
    | _ => none

def authoredMatrix (stage : Stage Path R F) (path : Path) : Option (Matrix4d R) :=
  (stage path).bind Prim.authoredMatrix

/-- `ReadAuthoredLocalTransform` on the session-layer spec of the prim. -/
def readAuthored (stage : Stage Path R F) (path : Path) : Option (Transform R) :=
  (stage path).bind fun prim => readAuthoredLocalTransform prim.session

variable {parse} {path : Path}

omit [Zero R] [Zero F] [One F] in
theorem applyAll_append {stage stage' : Stage Path R F} {us vs : List (TransformUpdate R)} :
    applyAll parse stage (us ++ vs) = some stage' ↔
      ∃ mid, applyAll parse stage us = some mid ∧ applyAll parse mid vs = some stage' := by
  induction us generalizing stage with
  | nil => simp [applyAll]
  | cons u us ih =>
    simp only [List.cons_append, applyAll]
    split
    · exact ih
    · simp

omit [Zero R] [Zero F] [One F] in
/-- A successful update of the prim at `path`. -/
theorem apply_ok {stage stage' : Stage Path R F} {u : TransformUpdate R}
    (hpath : parse u.primPath = some path) (h : apply parse (some stage) u = (some stage', true)) :
    ∃ prim transform, stage path = some prim ∧ u.transform = some transform ∧
      (applyToPrim prim (some transform)).2 = true ∧
      stage' path = some (applyToPrim prim (some transform)).1 := by
  rcases apply_cases parse (some stage) u with heq | ⟨prims, q, prim, t, hstage, hq, hprim, ht, hok, heq⟩
  · rw [heq] at h
    cases h
  · obtain rfl := Option.some.inj hstage
    obtain rfl : q = path := Option.some.inj (hq.symm.trans hpath)
    rw [heq] at h
    obtain ⟨hstage', -⟩ := Prod.mk.inj h
    obtain rfl := Option.some.inj hstage'
    exact ⟨prim, t, hprim, ht, by rw [hok], by rw [hok, Function.update_self]⟩

/-- Once a matrix is authored it stays, and only a matrix update authors one. -/
theorem authoredMatrix_applyAll {stage stage' : Stage Path R F} {us : List (TransformUpdate R)}
    (hpaths : ∀ u ∈ us, parse u.primPath = some path) (h : applyAll parse stage us = some stage') :
    authoredMatrix stage' path = none ↔
      authoredMatrix stage path = none ∧ ∀ u ∈ us, ∀ t, u.transform = some t → t.isMatrix = false := by
  induction us generalizing stage with
  | nil => obtain rfl := Option.some.inj h; simp
  | cons u us ih =>
    simp only [applyAll] at h
    split at h
    · rename_i mid hu
      obtain ⟨prim, t, hprim, ht, hok, hmid⟩ := apply_ok (hpaths u List.mem_cons_self) hu
      rw [ih (fun v hv => hpaths v (List.mem_cons_of_mem _ hv)) h]
      have hread := readAuthored_applyToPrim hok
      simp only [authoredMatrix, hprim, hmid, Option.bind_some, List.forall_mem_cons, ht,
        Option.some.injEq, forall_eq']
      cases t with
      | matrix m => simp [hread.1, Transform.isMatrix]
      | separate t r s => simp [hread.1, Transform.isMatrix]
    · cases h

variable (parse) in
/-- After a sequence of successful updates of a prim the last one is read back exactly if it is a
matrix, or if neither the session layer held a matrix before nor the sequence authored one. -/
theorem readAuthored_applyAll_iff (stage : Stage Path R F) {stage' : Stage Path R F}
    (us : List (TransformUpdate R)) (u : TransformUpdate R) {t : Transform R}
    (hu : u.transform = some t) (hpaths : ∀ v ∈ us ++ [u], parse v.primPath = some path)
    (h : applyAll parse stage (us ++ [u]) = some stage') :
    readAuthored stage' path = some (rounded F t) ↔
      t.isMatrix = true ∨ (authoredMatrix stage path = none ∧
        ∀ v ∈ us, ∀ w, v.transform = some w → w.isMatrix = false) := by
  obtain ⟨mid, hmid, hlast⟩ := applyAll_append.1 h
  rw [← authoredMatrix_applyAll (fun v hv => hpaths v (List.mem_append_left _ hv)) hmid]
  simp only [applyAll] at hlast
  split at hlast
  · rename_i stage'' happly
    obtain rfl := Option.some.inj hlast
    obtain ⟨prim, t', hprim, ht', hok, hprim'⟩ := apply_ok (hpaths u (by simp)) happly
    obtain rfl : t = t' := Option.some.inj (hu.symm.trans ht')
    have hread := readAuthored_applyToPrim hok
    simp only [readAuthored, authoredMatrix, hprim, hprim', Option.bind_some]
    cases t with
    | matrix m => simp [hread.2, rounded, Transform.isMatrix]
    | separate t r s =>
      rw [hread.2]
      cases prim.authoredMatrix with
      | none => simp
      | some m => simp [rounded, Transform.isMatrix]
  · cases hlast

end RoundTrip

/-! ### A drag that switches from matrices to separate components -/

/-- Small integers are exact in both formats. -/
instance : FloatCast Int Int := ⟨id, id⟩

/-- A stage with one prim that the session layer says nothing about. -/
def freshStage : Stage Unit Int Int := fun _ => some { xformable := true }

def identityMatrix : Matrix4d Int := ⟨1, 0, 0, 0, 0, 1, 0, 0, 0, 0, 1, 0, 0, 0, 0, 1⟩

def moved : Transform Int := .separate ⟨5, 0, 0⟩ ⟨0, 90, 0⟩ ⟨1, 1, 1⟩

/-- The separate update is applied, and the matrix before it is read back. -/
theorem readAuthored_stale_matrix :
    ((applyAll (fun _ => some ()) freshStage
        [⟨"/P", some (.matrix identityMatrix)⟩, ⟨"/P", some moved⟩]).map fun stage => readAuthored stage ()) =
      some (some (.matrix identityMatrix)) ∧
    some (Transform.matrix identityMatrix) ≠ some (rounded Int moved) := by
  decide

theorem readAuthored_separate_drag :
    ∃ stage', applyAll (fun _ => some ()) freshStage
        [⟨"/P", some (.separate ⟨1, 0, 0⟩ ⟨0, 0, 0⟩ ⟨1, 1, 1⟩)⟩, ⟨"/P", some moved⟩] = some stage' ∧
      readAuthored stage' () = some (rounded Int moved) := by
  have happlied : (applyAll (fun _ => some ()) freshStage
      [⟨"/P", some (.separate ⟨1, 0, 0⟩ ⟨0, 0, 0⟩ ⟨1, 1, 1⟩)⟩, ⟨"/P", some moved⟩]).isSome = true := by decide
  obtain ⟨stage', h⟩ := Option.isSome_iff_exists.1 happlied
  have hiff := readAuthored_applyAll_iff (fun _ => some ()) freshStage
    [⟨"/P", some (.separate ⟨1, 0, 0⟩ ⟨0, 0, 0⟩ ⟨1, 1, 1⟩)⟩] ⟨"/P", some moved⟩ rfl (fun _ _ => rfl) h
  exact ⟨stage', h, hiff.2 (.inr ⟨rfl, by decide⟩)⟩

end TransformDispatcher
end IdtxCore
