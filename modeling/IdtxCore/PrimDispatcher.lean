import Mathlib.Data.Finset.Sort
import Mathlib.Data.String.Basic
import Mathlib.Data.Finset.Card
import IdtxCore.Session
import IdtxCore.Lib.NamePath

/-!
# `PrimDispatcher`: creating prims and switching them on and off

The stage composes two layers: the session layer, where every command authors, over the root file with all
that it references. A layer is a tree of prim specs. A prim is on the stage if one of the layers has a spec
for it and no prim above it is inactive.

USD is what the dispatcher relies on: authoring at a path gives its ancestors a spec as well, `DefinePrim`
makes a `def` of every ancestor that is not defined yet, and the session layer's opinion wins. A path string
that is not an absolute prim path is refused as one that names no prim is, and is not modelled apart.
-/

namespace IdtxCore

abbrev PrimPath := NamePath String

structure SdfPrimSpec (R : Type) where
  /-- the specifier is `def`, else `over` -/
  isDef : Bool := false
  typeName : String := ""
  active : Option Bool := none
  /-- `TransformDispatcher::ReadAuthoredLocalTransform` -/
  authored : Option (Transform R) := none
  deriving DecidableEq, Repr

def SdfPrimSpec.over {R : Type} (strong weak : SdfPrimSpec R) : SdfPrimSpec R where
  isDef := strong.isDef || weak.isDef
  typeName := if strong.typeName = "" then weak.typeName else strong.typeName
  active := strong.active.or weak.active
  authored := strong.authored.or weak.authored

structure SdfLayer (R : Type) where
  specs : PrimPath → Option (SdfPrimSpec R)
  paths : Finset PrimPath
  mem_paths : ∀ p, p ∈ paths ↔ (specs p).isSome
  root_none : specs .root = none
  closed : NamePath.ParentClosed fun p => (specs p).isSome

namespace SdfLayer
variable {R : Type}

def empty : SdfLayer R where
  specs _ := none
  paths := ∅
  mem_paths _ := by simp
  root_none := rfl
  closed := nofun

/-- Edits the spec at `p` and those above it, which are created where they are missing. -/
def author (layer : SdfLayer R) (p : PrimPath) (edit : PrimPath → SdfPrimSpec R → SdfPrimSpec R) :
    SdfLayer R where
  specs q := if q ∈ p.chain then some (edit q ((layer.specs q).getD {})) else layer.specs q
  paths := layer.paths ∪ p.chain.toFinset
  mem_paths q := by
    rw [Finset.mem_union, List.mem_toFinset, layer.mem_paths]
    split_ifs with h <;> simp [h]
  root_none := by
    rw [if_neg fun h => NamePath.ne_root_of_mem_chain h rfl, layer.root_none]
  closed q n h := by
    by_cases hq : q ∈ p.chain
    · exact .inr (by simp [hq])
    by_cases hn : NamePath.child q n ∈ p.chain
    · cases q with
      | root => exact .inl rfl
      | child q m => exact absurd (NamePath.chain_subset hn (by simp)) hq
    · dsimp only at h ⊢
      rw [if_neg hn] at h
      rw [if_neg hq]
      exact layer.closed q n h

@[simp] theorem specs_author {layer : SdfLayer R} {p q : PrimPath}
    {edit : PrimPath → SdfPrimSpec R → SdfPrimSpec R} :
    (layer.author p edit).specs q =
      if q ∈ p.chain then some (edit q ((layer.specs q).getD {})) else layer.specs q := rfl

/-- `RemoveNameChild`: the spec goes with all below it. -/
def remove (layer : SdfLayer R) (d : PrimPath) : SdfLayer R where
  specs q := if d ∈ q.chain then none else layer.specs q
  paths := layer.paths.filter (d ∉ ·.chain)
  mem_paths q := by
    rw [Finset.mem_filter, layer.mem_paths]
    split_ifs with h <;> simp [h]
  root_none := by rw [if_neg NamePath.mem_chain_root, layer.root_none]
  closed q n h := by
    by_cases hd : d ∈ (NamePath.child q n).chain
    · simp [hd] at h
    · dsimp only at h ⊢
      rw [if_neg hd] at h
      rw [if_neg fun hq => hd (NamePath.mem_chain_child.2 (.inr hq))]
      exact layer.closed q n h

/-- `UsdUtilsFlattenLayerStack` -/
def flatten (strong weak : SdfLayer R) : SdfLayer R where
  specs p := Option.merge SdfPrimSpec.over (strong.specs p) (weak.specs p)
  paths := strong.paths ∪ weak.paths
  mem_paths p := by simp [strong.mem_paths, weak.mem_paths]
  root_none := by simp [strong.root_none, weak.root_none]
  closed p n h := by
    simp only [Option.isSome_merge, Bool.or_eq_true] at h ⊢
    rcases h with h | h
    · exact (strong.closed p n h).imp_right .inl
    · exact (weak.closed p n h).imp_right .inr

/-- `Traverse`, collected in a `std::set`. -/
def sortedPaths (layer : SdfLayer R) : List PrimPath := layer.paths.sort (· ≤ ·)

theorem mem_sortedPaths {layer : SdfLayer R} {p : PrimPath} :
    p ∈ layer.sortedPaths ↔ (layer.specs p).isSome :=
  (Finset.mem_sort _).trans (layer.mem_paths p)

theorem nodup_sortedPaths (layer : SdfLayer R) : layer.sortedPaths.Nodup := Finset.sort_nodup _ _

def softDeleted (layer : SdfLayer R) : List PrimPath :=
  layer.sortedPaths.filter fun p => (layer.specs p).any (·.active = some false)

end SdfLayer

/-- What USD's schema registry and value resolution say. -/
structure UsdSchema (R : Type) where
  isXformable : String → Bool
  isGprim : String → Bool
  readSchemaDefaults : PrimType → PrimAttributes R
  readResolvedTransform : Option (SdfPrimSpec R) → Option (Transform R)
  /-- a prim without a type has no schema -/
  untyped : isXformable "" = false

structure LayeredStage (R : Type) where
  root : SdfLayer R
  session : SdfLayer R := .empty
  /-- the prims of the root file with an opinion from a sublayer or across a reference or payload -/
  foreign : PrimPath → Bool := fun _ => false

namespace LayeredStage
variable {R : Type}

/-- The composed prim, whether it is pruned or not. -/
def compose (stage : LayeredStage R) (p : PrimPath) : Option (SdfPrimSpec R) :=
  Option.merge SdfPrimSpec.over (stage.session.specs p) (stage.root.specs p)

/-- `GetPrimAtPath` and `IsActive`: the stage has no prims below an inactive one. -/
def active (stage : LayeredStage R) : PrimPath → Option Bool
  | .root => some true
  | .child p n =>
    if stage.active p = some true then (stage.compose (.child p n)).map (·.active.getD true) else none

/-- `IsDefined`: the prim and all prims above it have a `def`. -/
def isDefined (stage : LayeredStage R) (p : PrimPath) : Bool :=
  p.chain.all fun q => (stage.compose q).any (·.isDef)

def typeName (stage : LayeredStage R) (p : PrimPath) : String :=
  ((stage.compose p).map (·.typeName)).getD ""

def definePrim (stage : LayeredStage R) (p : PrimPath) (typeName : String) : LayeredStage R :=
  { stage with session := stage.session.author p fun q spec =>
      if q = p then { spec with isDef := true, typeName := typeName }
      else if stage.isDefined q then spec
      else { spec with isDef := true } }

/-- An edit of one prim on the session layer: the prims above it get an `over` at most. -/
def override (stage : LayeredStage R) (p : PrimPath) (edit : SdfPrimSpec R → SdfPrimSpec R) :
    LayeredStage R :=
  { stage with session := stage.session.author p fun q spec => if q = p then edit spec else spec }

def authorActive (stage : LayeredStage R) (p : PrimPath) (active : Bool) : LayeredStage R :=
  stage.override p ({ · with active := some active })

/-- The ops of a transform; `none` if none of them can be read back. -/
def authorTransform (stage : LayeredStage R) (p : PrimPath) (transform : Option (Transform R)) :
    LayeredStage R :=
  stage.override p ({ · with authored := transform })

end LayeredStage

namespace PrimDispatcher
variable {R : Type} (schema : UsdSchema R) (stage : LayeredStage R)

open LayeredStage

def baseNameFor : PrimType → Option String
  | .unspecified => none
  | .cube => some "Cube"
  | .sphere => some "Sphere"
  | .cone => some "Cone"
  | .cylinder => some "Cylinder"
  | .capsule => some "Capsule"
  | .xform => some "Xform"

theorem typeFromName_of_baseNameFor {type : PrimType} {base : String} (h : baseNameFor type = some base) :
    typeFromName base = type := by
  cases type <;> cases h <;> decide

def isGprimType (type : PrimType) : Bool := (baseNameFor type).any schema.isGprim

def hasGprimAncestor (p : PrimPath) : Bool := p.chain.any fun q => schema.isGprim (stage.typeName q)

/-- `base`, `base_1`, `base_2`, and so on. The base names are valid identifiers already. -/
def candidate (base : String) : Nat → String
  | 0 => base
  | n + 1 => base ++ "_" ++ toString (n + 1)

/-- The loop of `UniqueChildPath`. No more than `fuel` names are taken, see `active_uniqueName`. -/
def uniqueNameFrom (parent : PrimPath) (base : String) : Nat → Nat → String
  | 0, n => candidate base n
  | fuel + 1, n =>
    if (stage.active (.child parent (candidate base n))).isSome then
      uniqueNameFrom parent base fuel (n + 1)
    else candidate base n

def uniqueName (parent : PrimPath) (base : String) : String :=
  uniqueNameFrom stage parent base (stage.session.paths ∪ stage.root.paths).card 0

def create (parent : PrimPath) (type : PrimType) : Option (CreatedPrim PrimPath R × LayeredStage R) :=
  match baseNameFor type with
  | none => none
  | some base =>
    -- not found, or soft-deleted
    if stage.active parent ≠ some true then none
    else if isGprimType schema type && hasGprimAncestor schema stage parent then none
    else
      let name := uniqueName stage parent base
      -- a new prim authors no shape attributes: it has those of its type
      some (⟨name, .child parent name, schema.readSchemaDefaults type⟩,
        stage.definePrim (.child parent name) base)

def isLocallyDeletable (p : PrimPath) : Bool := !((stage.root.specs p).isSome && stage.foreign p)

def setActive (p : PrimPath) (active : Bool) : SetActiveStatus × LayeredStage R :=
  -- the absolute root is no prim path
  if p = .root then (.invalidPath, stage)
  else
    match stage.active p with
    | none => (.notFound, stage)
    | some current =>
      if !stage.isDefined p then (.notFound, stage)
      else if current = active then (.alreadyInState, stage)
      else if !active && !isLocallyDeletable stage p then (.notDeletable, stage)
      else (.ok, stage.authorActive p active)

/-! ### What a prim on the stage has, and the free name -/

end PrimDispatcher

namespace LayeredStage
variable {R : Type} {stage : LayeredStage R} {p : PrimPath}

theorem isSome_compose :
    (stage.compose p).isSome ↔ (stage.session.specs p).isSome ∨ (stage.root.specs p).isSome := by
  simp [compose]

theorem closed_compose : NamePath.ParentClosed fun p => (stage.compose p).isSome :=
  (stage.session.flatten stage.root).closed

theorem compose_root : stage.compose .root = none := (stage.session.flatten stage.root).root_none

theorem active_child {n : String} (h : stage.active p = some true) :
    stage.active (.child p n) = (stage.compose (.child p n)).map (·.active.getD true) := by
  rw [active, if_pos h]

theorem isSome_compose_of_active (hp : p ≠ .root) (h : (stage.active p).isSome) :
    (stage.compose p).isSome := by
  cases p with
  | root => exact absurd rfl hp
  | child p n =>
    rw [active] at h
    split_ifs at h
    · simpa using h
    · cases h

end LayeredStage

namespace PrimDispatcher
variable {R : Type} {schema : UsdSchema R} {stage stage' : LayeredStage R} {p parent : PrimPath}

open LayeredStage

theorem toString_injective : Function.Injective (toString : Nat → String) := by
  intro m n h
  have hdigits : Nat.toDigits 10 m = Nat.toDigits 10 n := by
    simpa [Nat.toString_eq_ofList_toDigits] using congrArg String.toList h
  rw [← Nat.ofDigitChars_ten_toDigits (n := m), hdigits, Nat.ofDigitChars_ten_toDigits]

theorem candidate_injective (base : String) : Function.Injective (candidate base) := by
  have hbase : ∀ n, candidate base (n + 1) ≠ base := by
    intro n h
    have hlength := congrArg (fun s : String => s.toList.length) h
    simp [candidate] at hlength
  intro m n h
  cases m with
  | zero =>
    cases n with
    | zero => rfl
    | succ n => exact absurd h.symm (hbase n)
  | succ m =>
    cases n with
    | zero => exact absurd h (hbase m)
    | succ n => exact toString_injective ((String.append_right_inj _).1 h)

theorem taken_of_uniqueNameFrom {base : String} {fuel n : Nat}
    (h : (stage.active (.child parent (uniqueNameFrom stage parent base fuel n))).isSome) :
    ∀ k ≤ fuel, (stage.active (.child parent (candidate base (n + k)))).isSome := by
  induction fuel generalizing n with
  | zero =>
    intro k hk
    rw [Nat.le_zero.1 hk]
    exact h
  | succ fuel ih =>
    rw [uniqueNameFrom] at h
    split_ifs at h with htaken
    · intro k hk
      cases k with
      | zero => exact htaken
      | succ k => simpa [Nat.add_right_comm, Nat.add_assoc] using ih h k (by omega)
    · exact absurd h htaken

/-- A stage has finitely many prims, and the candidates are distinct. -/
theorem exists_free_candidate (stage : LayeredStage R) (parent : PrimPath) (base : String) :
    ∃ k ≤ (stage.session.paths ∪ stage.root.paths).card,
      stage.active (.child parent (candidate base k)) = none := by
  by_contra! htaken
  set prims := stage.session.paths ∪ stage.root.paths with hprims
  have hmaps : ∀ k ∈ Finset.range (prims.card + 1),
      NamePath.child parent (candidate base k) ∈ prims := by
    intro k hk
    have hk : k ≤ prims.card := Nat.lt_succ_iff.1 (Finset.mem_range.1 hk)
    have hspec := isSome_compose_of_active NamePath.child_ne_root
      (Option.isSome_iff_ne_none.2 (htaken k hk))
    simpa [hprims, stage.session.mem_paths, stage.root.mem_paths] using isSome_compose.1 hspec
  have hinjective : Set.InjOn (fun k => NamePath.child parent (candidate base k))
      (Finset.range (prims.card + 1)) :=
    fun _ _ _ _ h => candidate_injective base (NamePath.child.inj h).2
  have hcard := Finset.card_le_card_of_injOn _ hmaps hinjective
  rw [Finset.card_range] at hcard
  exact absurd hcard (Nat.not_succ_le_self _)

/-- `UniqueChildPath` finds a free name: there are fewer prims than names. -/
theorem active_uniqueName (stage : LayeredStage R) (parent : PrimPath) (base : String) :
    stage.active (.child parent (uniqueName stage parent base)) = none := by
  by_contra htaken
  obtain ⟨k, hk, hfree⟩ := exists_free_candidate stage parent base
  have htried := taken_of_uniqueNameFrom (Option.isSome_iff_ne_none.2 htaken) k hk
  rw [Nat.zero_add, hfree] at htried
  cases htried

structure Creates (stage : LayeredStage R) (parent : PrimPath) (type : PrimType)
    (created : CreatedPrim PrimPath R) (stage' : LayeredStage R) : Prop where
  path_eq : created.primPath = .child parent created.name
  parent_active : stage.active parent = some true
  fresh : stage.compose created.primPath = none
  defines : ∃ base, baseNameFor type = some base ∧ stage' = stage.definePrim created.primPath base

theorem creates_of_create {type : PrimType} {created : CreatedPrim PrimPath R}
    (h : create schema stage parent type = some (created, stage')) :
    Creates stage parent type created stage' := by
  unfold create at h
  cases hbase : baseNameFor type with
  | none => simp [hbase] at h
  | some base =>
    simp only [hbase] at h
    split_ifs at h with hactive hgprim
    obtain ⟨rfl, rfl⟩ := Prod.mk.inj (Option.some.inj h)
    rw [ne_eq, not_not] at hactive
    refine ⟨rfl, hactive, ?_, base, hbase, rfl⟩
    have hfree := active_uniqueName stage parent base
    rwa [active_child hactive, Option.map_eq_none_iff] at hfree

theorem setActive_cases (stage : LayeredStage R) (p : PrimPath) (active : Bool) :
    ((setActive stage p active).1 ≠ .ok ∧ (setActive stage p active).2 = stage) ∨
      (p ≠ .root ∧ stage.isDefined p ∧ setActive stage p active = (.ok, stage.authorActive p active)) := by
  unfold setActive
  by_cases hroot : p = .root
  · exact .inl (by simp [hroot])
  rw [if_neg hroot]
  cases stage.active p with
  | none => exact .inl ⟨by simp, rfl⟩
  | some current =>
    dsimp only
    by_cases hdefined : stage.isDefined p = true
    · rw [if_neg (by simp [hdefined])]
      by_cases hcurrent : current = active
      · rw [if_pos hcurrent]
        exact .inl ⟨by simp, rfl⟩
      rw [if_neg hcurrent]
      by_cases hlocal : (!active && !isLocallyDeletable stage p) = true
      · rw [if_pos hlocal]
        exact .inl ⟨by simp, rfl⟩
      · rw [if_neg hlocal]
        exact .inr ⟨hroot, hdefined, rfl⟩
    · rw [if_pos (by simp [hdefined])]
      exact .inl ⟨by simp, rfl⟩

end PrimDispatcher
end IdtxCore
