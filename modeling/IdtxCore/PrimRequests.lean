import IdtxCore.JoinRuns

/-!
# Runs of prim requests

`CreatePrim` and `SetPrimActive` requests as they arrive, with path strings of any kind. Two things hold
along every run of them: the paths of created prims are new (`nodup_createdPaths`), because the session layer
never loses a spec, and no gprim gets below another one (`GprimsFlat`), because only a new prim is ever given
a type.

A prim below an inactive one counts for both: it is back with a single request.
-/

namespace IdtxCore

/-- A request, with whether USD refuses to author it: `DefinePrim` and `UsdPrim::SetActive` then leave the
layers alone and return false or throw. -/
inductive PrimRequest where
  | createPrim (parentPath : String) (type : PrimType) (refused : Bool := false)
  | setPrimActive (primPath : String) (active : Bool) (refused : Bool := false)
  deriving DecidableEq, Repr

namespace PrimDispatcher
variable {R : Type}

open LayeredStage

/-- The loop of `UniqueChildPath` from candidate `n` on, for a number of rounds; `none` if it is still
running after them. -/
def uniqueChildPath (stage : LayeredStage R) (parent : PrimPath) (base : String) :
    Nat → Nat → Option (String × PrimPath)
  | 0, _ => none
  | rounds + 1, n =>
    if (stage.active (.child parent (candidate base n))).isSome then
      uniqueChildPath stage parent base rounds (n + 1)
    else some (candidate base n, .child parent (candidate base n))

section Requests
variable (schema : UsdSchema R) (parse : String → Option PrimPath) (stage : LayeredStage R)

/-- `Create` with a path string; `parse` knows the absolute prim paths and the absolute root. -/
def createAt (parentPath : String) (type : PrimType) (refused : Bool) :
    Option (CreatedPrim PrimPath R × LayeredStage R) :=
  match parse parentPath with
  | none => none
  | some parent => if refused then none else create schema stage parent type

/-- `SetActive` with a path string. -/
def setActiveAt (primPath : String) (active refused : Bool) : SetActiveStatus × LayeredStage R :=
  match parse primPath with
  | none => (.invalidPath, stage)
  | some p =>
    let result := setActive stage p active
    -- USD is asked last
    if refused && result.1 = .ok then (.failed, stage) else result

/-- The prim that a request creates, if it creates one. -/
def createdPath : PrimRequest → Option PrimPath
  | .createPrim parentPath type refused =>
    (createAt schema parse stage parentPath type refused).map (·.1.primPath)
  | .setPrimActive .. => none

def rejects : PrimRequest → Bool
  | .createPrim parentPath type refused => (createAt schema parse stage parentPath type refused).isNone
  | .setPrimActive primPath active refused => (setActiveAt parse stage primPath active refused).1 ≠ .ok

def answer : PrimRequest → LayeredStage R
  | .createPrim parentPath type refused =>
    ((createAt schema parse stage parentPath type refused).map (·.2)).getD stage
  | .setPrimActive primPath active refused => (setActiveAt parse stage primPath active refused).2

def answerAll (requests : List PrimRequest) : LayeredStage R :=
  requests.foldl (answer schema parse) stage

end Requests

/-- The paths of the prims that a run creates, in order. -/
def createdPaths (schema : UsdSchema R) (parse : String → Option PrimPath) :
    LayeredStage R → List PrimRequest → List PrimPath
  | _, [] => []
  | stage, r :: requests =>
    (createdPath schema parse stage r).toList ++
      createdPaths schema parse (answer schema parse stage r) requests

/-! ### The name -/

section Name
variable {stage : LayeredStage R} {parent : PrimPath} {base : String}

theorem uniqueNameFrom_of_free {k : Nat} (hfree : stage.active (.child parent (candidate base k)) = none)
    (htaken : ∀ j < k, (stage.active (.child parent (candidate base j))).isSome) {fuel n : Nat} (hn : n ≤ k)
    (hfuel : k ≤ n + fuel) : uniqueNameFrom stage parent base fuel n = candidate base k := by
  induction fuel generalizing n with
  | zero => rw [uniqueNameFrom, le_antisymm hn hfuel]
  | succ fuel ih =>
    rw [uniqueNameFrom]
    rcases hn.lt_or_eq with hlt | rfl
    · rw [if_pos (htaken n hlt)]
      exact ih hlt (by omega)
    · rw [if_neg (by simp [hfree])]

theorem uniqueChildPath_of_free {k : Nat} (hfree : stage.active (.child parent (candidate base k)) = none)
    (htaken : ∀ j < k, (stage.active (.child parent (candidate base j))).isSome) {rounds n : Nat}
    (hn : n ≤ k) (hrounds : k < n + rounds) :
    uniqueChildPath stage parent base rounds n = some (candidate base k, .child parent (candidate base k)) := by
  induction rounds generalizing n with
  | zero => omega
  | succ rounds ih =>
    rw [uniqueChildPath]
    rcases hn.lt_or_eq with hlt | rfl
    · rw [if_pos (htaken n hlt)]
      exact ih hlt (by omega)
    · rw [if_neg (by simp [hfree])]

theorem exists_first_free (stage : LayeredStage R) (parent : PrimPath) (base : String) :
    ∃ k ≤ (stage.session.paths ∪ stage.root.paths).card,
      stage.active (.child parent (candidate base k)) = none ∧
      ∀ j < k, (stage.active (.child parent (candidate base j))).isSome := by
  obtain ⟨m, hm, hfree⟩ := exists_free_candidate stage parent base
  have hexists : ∃ k, stage.active (.child parent (candidate base k)) = none := ⟨m, hfree⟩
  refine ⟨Nat.find hexists, (Nat.find_min' hexists hfree).trans hm, Nat.find_spec hexists, fun j hj => ?_⟩
  exact Option.isSome_iff_ne_none.2 (Nat.find_min hexists hj)

end Name
/-! ### What a request does -/

section Answer
variable {schema : UsdSchema R} {parse : String → Option PrimPath} {stage stage' : LayeredStage R}

theorem not_hasGprimAncestor_of_create {parent : PrimPath} {type : PrimType}
    {created : CreatedPrim PrimPath R} (h : create schema stage parent type = some (created, stage'))
    (htype : isGprimType schema type = true) : hasGprimAncestor schema stage parent = false := by
  unfold create at h
  cases hbase : baseNameFor type with
  | none => simp [hbase] at h
  | some base =>
    simp only [hbase] at h
    split_ifs at h with hactive hgprim
    simpa [htype] using hgprim

/-- A request is rejected, or it creates a prim, or it authors an active flag. -/
theorem answer_cases (schema : UsdSchema R) (parse : String → Option PrimPath) (stage : LayeredStage R)
    (r : PrimRequest) :
    (rejects schema parse stage r = true ∧ answer schema parse stage r = stage ∧
      createdPath schema parse stage r = none) ∨
    (rejects schema parse stage r = false ∧ ∃ parent type created,
      create schema stage parent type = some (created, answer schema parse stage r) ∧
      createdPath schema parse stage r = some created.primPath) ∨
    (rejects schema parse stage r = false ∧ createdPath schema parse stage r = none ∧ ∃ p active,
      stage.isDefined p = true ∧ p ≠ .root ∧ answer schema parse stage r = stage.authorActive p active) := by
  cases r with
  | createPrim parentPath type refused =>
    cases hcreate : createAt schema parse stage parentPath type refused with
    | none => exact .inl (by simp [rejects, answer, createdPath, hcreate])
    | some result =>
      refine .inr (.inl ⟨by simp [rejects, hcreate], ?_⟩)
      have hresult := hcreate
      unfold createAt at hresult
      split at hresult
      · cases hresult
      · split_ifs at hresult
        exact ⟨_, _, result.1, by simpa [answer, hcreate] using hresult, by simp [createdPath, hcreate]⟩
  | setPrimActive primPath active refused =>
    cases hparse : parse primPath with
    | none => exact .inl (by simp [rejects, answer, createdPath, setActiveAt, hparse])
    | some p =>
      rcases setActive_cases stage p active with ⟨hstatus, hstage⟩ | ⟨hroot, hdefined, hok⟩
      · exact .inl (by simp [rejects, answer, createdPath, setActiveAt, hparse, hstatus, hstage])
      · cases refused with
        | true => exact .inl (by simp [rejects, answer, createdPath, setActiveAt, hparse, hok])
        | false =>
          exact .inr (.inr ⟨by simp [rejects, setActiveAt, hparse, hok], rfl, p, active, hdefined, hroot,
            by simp [answer, setActiveAt, hparse, hok]⟩)

end Answer

/-! ### Created paths are new -/

section Fresh
variable {schema : UsdSchema R} {parse : String → Option PrimPath} {stage : LayeredStage R}

/-- No request takes a spec away. -/
theorem knows_answer (r : PrimRequest) {q : PrimPath} (hq : stage.Knows q) :
    (answer schema parse stage r).Knows q := by
  rcases answer_cases schema parse stage r with ⟨-, hstage, -⟩ | ⟨-, parent, type, created, hcreate, -⟩ |
    ⟨-, -, p, active, -, -, hstage⟩
  · rwa [hstage]
  · obtain ⟨base, -, hdefine⟩ := (creates_of_create hcreate).defines
    rw [hdefine]
    exact knows_author.2 (.inl hq)
  · rw [hstage]
    exact knows_author.2 (.inl hq)

/-- A created prim was not there before, pruned or not, and is there afterwards. -/
theorem knows_createdPath {r : PrimRequest} {p : PrimPath} (h : createdPath schema parse stage r = some p) :
    p ≠ .root ∧ ¬ stage.Knows p ∧ (answer schema parse stage r).Knows p := by
  rcases answer_cases schema parse stage r with ⟨-, -, hnone⟩ | ⟨-, parent, type, created, hcreate, hpath⟩ |
    ⟨-, hnone, -⟩
  · rw [hnone] at h
    cases h
  · rw [hpath, Option.some_inj] at h
    subst h
    have hc := creates_of_create hcreate
    obtain ⟨base, -, hdefine⟩ := hc.defines
    have hroot : created.primPath ≠ .root := by
      rw [hc.path_eq]
      exact NamePath.child_ne_root
    refine ⟨hroot, by simp [Knows, hc.fresh], ?_⟩
    rw [hdefine]
    exact knows_author.2 (.inr (NamePath.mem_chain_self hroot))
  · rw [hnone] at h
    cases h

theorem not_knows_of_mem_createdPaths {requests : List PrimRequest} {p : PrimPath}
    (hp : p ∈ createdPaths schema parse stage requests) : ¬ stage.Knows p := by
  induction requests generalizing stage with
  | nil => cases hp
  | cons r requests ih =>
    rcases List.mem_append.1 hp with hp | hp
    · exact (knows_createdPath (Option.mem_toList.1 hp)).2.1
    · exact fun hknows => ih hp (knows_answer r hknows)

theorem nodup_createdPaths (requests : List PrimRequest) :
    (createdPaths schema parse stage requests).Nodup := by
  induction requests generalizing stage with
  | nil => exact List.nodup_nil
  | cons r requests ih =>
    refine List.nodup_append'.2 ⟨?_, ih, ?_⟩
    · cases createdPath schema parse stage r <;> simp
    · intro p hp hlater
      exact not_knows_of_mem_createdPaths hlater (knows_createdPath (Option.mem_toList.1 hp)).2.2

/-- `UniqueChildPath` returns the first free name after finitely many rounds, which is the name that
`Create` takes, and in a run of requests every created path is one that the stage did not have. -/
theorem uniqueChildPath_first_free_and_created_paths_distinct (schema : UsdSchema R)
    (parse : String → Option PrimPath) (stage : LayeredStage R) :
    (∀ parent base, ∃ k,
      (∀ rounds > k, uniqueChildPath stage parent base rounds 0 =
        some (candidate base k, .child parent (candidate base k))) ∧
      uniqueName stage parent base = candidate base k ∧
      stage.active (.child parent (candidate base k)) = none ∧
      ∀ j < k, (stage.active (.child parent (candidate base j))).isSome) ∧
    (∀ requests r p, createdPath schema parse (answerAll schema parse stage requests) r = some p →
      (answerAll schema parse stage requests).compose p = none ∧
      (answerAll schema parse stage requests).active p = none) ∧
    ∀ requests, (createdPaths schema parse stage requests).Nodup := by
  refine ⟨fun parent base => ?_, fun requests r p hp => ?_, nodup_createdPaths⟩
  · obtain ⟨k, hk, hfree, htaken⟩ := exists_first_free stage parent base
    refine ⟨k, fun rounds hrounds => ?_, ?_, hfree, htaken⟩
    · exact uniqueChildPath_of_free hfree htaken (Nat.zero_le k) (by omega)
    · exact uniqueNameFrom_of_free hfree htaken (Nat.zero_le k) (by omega)
  · obtain ⟨hroot, hfresh, -⟩ := knows_createdPath hp
    refine ⟨Option.not_isSome_iff_eq_none.1 hfresh, ?_⟩
    by_contra hactive
    exact hfresh (isSome_compose_of_active hroot (Option.isSome_iff_ne_none.2 hactive))

end Fresh

/-! ### Gprims are not nested -/

section Gprims
variable {schema : UsdSchema R} {parse : String → Option PrimPath} {stage : LayeredStage R}

def IsGprim (schema : UsdSchema R) (stage : LayeredStage R) (p : PrimPath) : Prop :=
  ∃ spec, stage.compose p = some spec ∧ schema.isGprim spec.typeName = true

/-- No gprim has a gprim above it. -/
def GprimsFlat (schema : UsdSchema R) (stage : LayeredStage R) : Prop :=
  ∀ p, IsGprim schema stage p → ∀ a ∈ p.parent.chain, ¬ IsGprim schema stage a

theorem isGprim_congr {stage' : LayeredStage R} {q : PrimPath}
    (h : (stage'.compose q).map (·.typeName) = (stage.compose q).map (·.typeName)) :
    IsGprim schema stage' q ↔ IsGprim schema stage q := by
  have hmap : ∀ s : LayeredStage R, IsGprim schema s q ↔
      ∃ typeName ∈ (s.compose q).map (·.typeName), schema.isGprim typeName = true := by
    intro s
    unfold IsGprim
    cases s.compose q <;> simp
  rw [hmap, hmap, h]

/-- An edit that keeps the type of a prim on the session layer keeps that of the composed one. -/
theorem typeName_author {p q : PrimPath} {edit : PrimPath → SdfPrimSpec R → SdfPrimSpec R}
    (hq : q ∈ p.chain → stage.Knows q) (hedit : ∀ spec, (edit q spec).typeName = spec.typeName) :
    (compose { stage with session := stage.session.author p edit } q).map (·.typeName) =
      (stage.compose q).map (·.typeName) := by
  unfold compose
  rw [SdfLayer.specs_author]
  split_ifs with hmem
  · rcases isSome_compose.1 (hq hmem) with hspec | hspec
    · obtain ⟨spec, hspec⟩ := Option.isSome_iff_exists.1 hspec
      rw [hspec]
      cases stage.root.specs q <;> simp [SdfPrimSpec.over, hedit]
    · obtain ⟨spec, hspec⟩ := Option.isSome_iff_exists.1 hspec
      rw [hspec]
      cases stage.session.specs q <;> simp [SdfPrimSpec.over, hedit]
  · rfl

theorem knows_of_isDefined {p q : PrimPath} (h : stage.isDefined p = true) (hq : q ∈ p.chain) :
    stage.Knows q := by
  have hdef := List.all_eq_true.1 h q hq
  obtain ⟨spec, hspec, -⟩ := (Option.any_eq_true _ _).1 hdef
  exact Option.isSome_of_mem hspec

theorem isGprim_authorActive {p q : PrimPath} {active : Bool} (h : stage.isDefined p = true) :
    IsGprim schema (stage.authorActive p active) q ↔ IsGprim schema stage q := by
  refine isGprim_congr (typeName_author (knows_of_isDefined h) fun spec => ?_)
  split_ifs <;> rfl

variable {parent : PrimPath} {type : PrimType} {created : CreatedPrim PrimPath R} {stage' : LayeredStage R}

theorem knows_of_active {p q : PrimPath} (h : stage.active p = some true) (hq : q ∈ p.chain) :
    stage.Knows q := by
  have hp : p ≠ .root := by
    rintro rfl
    cases hq
  exact closed_compose.of_mem_chain (isSome_compose_of_active hp (by simp [h])) hq

theorem isGprim_creates (h : Creates stage parent type created stage') {q : PrimPath}
    (hq : q ≠ created.primPath) : IsGprim schema stage' q ↔ IsGprim schema stage q := by
  obtain ⟨base, -, rfl⟩ := h.defines
  refine isGprim_congr (typeName_author (fun hmem => ?_) fun spec => ?_)
  · rw [h.path_eq, NamePath.mem_chain_child] at hmem
    refine knows_of_active h.parent_active (hmem.resolve_left fun heq => ?_)
    exact hq (heq.trans h.path_eq.symm)
  · rw [if_neg hq]
    split_ifs <;> rfl

theorem isGprimType_of_creates (h : Creates stage parent type created stage')
    (hgprim : IsGprim schema stage' created.primPath) : isGprimType schema type = true := by
  obtain ⟨base, hbase, rfl⟩ := h.defines
  obtain ⟨spec, hspec, hgprim⟩ := hgprim
  have hself : created.primPath ∈ created.primPath.chain := by
    rw [h.path_eq]
    exact NamePath.mem_chain_self NamePath.child_ne_root
  have hroot : stage.root.specs created.primPath = none := by
    by_contra hspec
    exact Option.isSome_iff_ne_none.1 (isSome_compose.2 (.inr (Option.isSome_iff_ne_none.2 hspec))) h.fresh
  simp only [compose, definePrim, SdfLayer.specs_author, if_pos hself, hroot, Option.merge_none_right,
    Option.some_inj, if_pos] at hspec
  rw [← hspec] at hgprim
  rw [isGprimType, hbase]
  exact hgprim

theorem hasGprimAncestor_of_isGprim {p a : PrimPath} (ha : a ∈ p.chain) (hgprim : IsGprim schema stage a) :
    hasGprimAncestor schema stage p = true := by
  obtain ⟨spec, hspec, hgprim⟩ := hgprim
  refine List.any_eq_true.2 ⟨a, ha, ?_⟩
  rwa [typeName, hspec]

theorem IsGprim.knows {p : PrimPath} (h : IsGprim schema stage p) : stage.Knows p := by
  obtain ⟨spec, hspec, -⟩ := h
  exact Option.isSome_of_mem hspec

/-- A new prim has nothing below it, and what is above it has been checked. -/
theorem GprimsFlat.create (h : GprimsFlat schema stage)
    (hcreate : PrimDispatcher.create schema stage parent type = some (created, stage')) :
    GprimsFlat schema stage' := by
  have hc := creates_of_create hcreate
  have hfresh : ¬ stage.Knows created.primPath := by simp [Knows, hc.fresh]
  intro p hp a ha hga
  by_cases hnew : p = created.primPath
  · have ha : a ∈ parent.chain := by
      rwa [hnew, hc.path_eq] at ha
    have hne : a ≠ created.primPath := by
      rintro rfl
      exact hfresh (knows_of_active hc.parent_active ha)
    rw [hnew] at hp
    have hfree := not_hasGprimAncestor_of_create hcreate (isGprimType_of_creates hc hp)
    rw [hasGprimAncestor_of_isGprim ha ((isGprim_creates hc hne).1 hga)] at hfree
    cases hfree
  · have hp := (isGprim_creates hc hnew).1 hp
    have hne : a ≠ created.primPath := by
      rintro rfl
      exact hfresh (closed_compose.of_mem_chain hp.knows (NamePath.chain_parent_subset ha))
    exact h p hp a ha ((isGprim_creates hc hne).1 hga)

theorem GprimsFlat.answer (h : GprimsFlat schema stage) (r : PrimRequest) :
    GprimsFlat schema (answer schema parse stage r) := by
  rcases answer_cases schema parse stage r with ⟨-, hstage, -⟩ | ⟨-, parent, type, created, hcreate, -⟩ |
    ⟨-, -, p, active, hdefined, -, hstage⟩
  · rwa [hstage]
  · exact h.create hcreate
  · rw [hstage]
    intro q hq a ha hga
    exact h q ((isGprim_authorActive hdefined).1 hq) a ha ((isGprim_authorActive hdefined).1 hga)

def parseShallow (path : String) : Option PrimPath :=
  [("/", .root), ("/Cube", .child .root "Cube"),
    ("/Cube/Xform", .child (.child .root "Cube") "Xform")].lookup path

end Gprims
end PrimDispatcher
end IdtxCore
