import IdtxCore.OpStage
import IdtxCore.SessionOrder

/-!
# What a reload tells the clients

The listener broadcasts the transform of every prim that the notice names, except where the session layer has an
xform opinion. A client that knew every transform before the reload knows every transform after it: a prim that
is not named has the opinions it had, and where the session layer has an opinion it has all of them
(`OpStage.wholeOps_run`), so that the new file does not matter.
-/

namespace IdtxCore
open TransformDispatcher

namespace OpStage
variable {R F : Type}

def view (schema : UsdSchema R) (resolve : List (Op × Option (Value R F)) → Option (Transform R)) :
    StageView (OpStage R F) PrimPath R where
  isNull _ := false
  readResolvedTransform := resolved schema resolve
  isInactive stage p := stage.prims.active p = some false
  hasXformOverride stage p := (stage.session.ops p).hasXformOverride
  sessionLayerIsEmpty stage := stage.session.layer.paths = ∅
  sessionSpecs stage := (LayeredStage.view schema).sessionSpecs stage.prims
  readSchemaDefaults := schema.readSchemaDefaults

/-- The root file says something else about the prim. -/
def RootDiffers (root root' : OpLayer R F) (p : PrimPath) : Prop :=
  root.layer.specs p ≠ root'.layer.specs p ∨ root.ops p ≠ root'.ops p

/-- `Reload` of the root layer: the stage is composed anew, then the notice is sent. -/
def reloadCall (stage : OpStage R F) (root : OpLayer R F) (foreign : PrimPath → Bool)
    (notice : ObjectsChanged PrimPath) : Call (OpStage R F) PrimPath Bool :=
  let stage := { stage with root := root, foreign := foreign }
  ⟨[(stage, notice)], stage, .returned true⟩

section Resolved
variable {schema : UsdSchema R} {resolve : List (Op × Option (Value R F)) → Option (Transform R)}
  {stage stage' : OpStage R F} {p : PrimPath}

theorem resolved_eq_some {t : Transform R} (h : stage.resolved schema resolve p = some t) :
    ∃ x, stage.prim schema p = some x ∧ x.spec = stage.session.ops p ∧ x.base = stage.root.ops p ∧
      resolve x.opStack = some t := by
  obtain ⟨x, hx, hresolve⟩ := Option.bind_eq_some_iff.1 h
  split_ifs at hresolve
  obtain ⟨hspec, hbase, -⟩ := prim_cases hx
  exact ⟨x, hx, hspec, hbase, hresolve⟩

/-- The transform is what the ops say, as long as the prim has one. -/
theorem resolved_congr (hsome : (stage.resolved schema resolve p).isSome)
    (hsome' : (stage'.resolved schema resolve p).isSome)
    (h : ∀ x x' : Prim R F, x.spec = stage.session.ops p → x.base = stage.root.ops p →
      x'.spec = stage'.session.ops p → x'.base = stage'.root.ops p → x'.opStack = x.opStack) :
    stage'.resolved schema resolve p = stage.resolved schema resolve p := by
  obtain ⟨t, ht⟩ := Option.isSome_iff_exists.1 hsome
  obtain ⟨t', ht'⟩ := Option.isSome_iff_exists.1 hsome'
  obtain ⟨x, -, hspec, hbase, hx⟩ := resolved_eq_some ht
  obtain ⟨x', -, hspec', hbase', hx'⟩ := resolved_eq_some ht'
  rw [ht, ht', ← hx, ← hx', h x x' hspec hbase hspec' hbase']

theorem opStack_congr {x x' : Prim R F} (hspec : x'.spec = x.spec) (hbase : x'.base = x.base) :
    x'.opStack = x.opStack := by
  simp only [Prim.opStack, Prim.order, Prim.value, hspec, hbase]

variable {root : OpLayer R F} {foreign : PrimPath → Bool}

/-- Where the listener says nothing because the session layer has an opinion, nothing changes. -/
theorem resolved_reload_of_override (hwhole : (stage.session.ops p).WholeOps)
    (hover : (stage.session.ops p).hasXformOverride = true)
    (hsome : (stage.resolved schema resolve p).isSome)
    (hsome' : (resolved schema resolve { stage with root := root, foreign := foreign } p).isSome) :
    resolved schema resolve { stage with root := root, foreign := foreign } p =
      stage.resolved schema resolve p := by
  refine resolved_congr hsome hsome' fun x x' hspec _ hspec' _ => ?_
  rw [← hspec] at hwhole hover
  exact Prim.opStack_eq_of_wholeOps (hspec'.trans hspec.symm) hwhole hover

theorem resolved_reload_of_same (hsame : ¬ RootDiffers stage.root root p)
    (hsome : (stage.resolved schema resolve p).isSome)
    (hsome' : (resolved schema resolve { stage with root := root, foreign := foreign } p).isSome) :
    resolved schema resolve { stage with root := root, foreign := foreign } p =
      stage.resolved schema resolve p := by
  refine resolved_congr hsome hsome' fun x x' hspec hbase hspec' hbase' => ?_
  have hops : stage.root.ops p = root.ops p := not_not.1 fun h => hsame (.inr h)
  exact opStack_congr (hspec'.trans hspec.symm) (hbase'.trans (hops.symm.trans hbase.symm))

end Resolved

/-! ### Clients -/

/-- A client takes over the transform of a frame. -/
def takeFrame (held : PrimPath → Option (Transform R)) (frame : Frame PrimPath R) :
    PrimPath → Option (Transform R) :=
  match frame.message with
  | .xformBroadcast p t => Function.update held p (some t)
  | _ => held

/-- Frames that carry the transforms that there are leave the client with these, or with what it had. -/
theorem foldl_takeFrame {current : PrimPath → Option (Transform R)} {frames : List (Frame PrimPath R)}
    (h : ∀ f ∈ frames, ∃ q t, f.message = .xformBroadcast q t ∧ current q = some t)
    (held : PrimPath → Option (Transform R)) (p : PrimPath) :
    frames.foldl takeFrame held p = current p ∨
      (frames.foldl takeFrame held p = held p ∧ ∀ f ∈ frames, ∀ t, f.message ≠ .xformBroadcast p t) := by
  induction frames generalizing held with
  | nil => exact .inr ⟨rfl, by simp⟩
  | cons f frames ih =>
    rw [List.forall_mem_cons] at h
    obtain ⟨⟨q, t, hmessage, hcurrent⟩, hrest⟩ := h
    have htake : takeFrame held f = Function.update held q (some t) := by rw [takeFrame, hmessage]
    rw [List.foldl_cons, htake]
    rcases ih hrest (Function.update held q (some t)) with hcur | ⟨hheld, hnone⟩
    · exact .inl hcur
    by_cases hp : p = q
    · subst hp
      left
      rw [hheld, Function.update_self, hcurrent]
    · right
      rw [hheld, Function.update_of_ne hp, List.forall_mem_cons]
      refine ⟨rfl, fun t' heq => hp ?_, hnone⟩
      rw [hmessage] at heq
      exact (Message.xformBroadcast.inj heq).1.symm

end OpStage

namespace Session
variable {σ Path R : Type} [LinearOrder Path] {view : StageView σ Path R}

omit [LinearOrder Path] in
theorem mem_framesTo_announced {s : Session σ Path R} {c : ConnectionId} (h0 : c ≠ 0) (hc : c ∈ s.clients)
    {prims : List Path} {f : Frame Path R} :
    f ∈ (((s.noticeVersion view 0 prims).sends).filter (·.connection = c)).map (·.frame) ↔
      ∃ q ∈ prims, ∃ t, view.readResolvedTransform s.stage q = some t ∧
        f = ⟨.xformBroadcast q t, s.serverSeq + 1⟩ := by
  have hmessage : ∀ m, m ∈ (s.noticeVersion view 0 prims).messages ↔
      ∃ q ∈ prims, ∃ t, view.readResolvedTransform s.stage q = some t ∧ .xformBroadcast q t = m := by
    intro m
    rw [messages_noticeVersion]
    simp only [List.mem_filterMap, Option.map_eq_some_iff]
  have hreceives : c ∈ (s.noticeVersion view 0 prims).receivers := by
    simp [noticeVersion, Version.receivers, h0, hc]
  rw [List.mem_map]
  constructor
  · rintro ⟨x, hx, rfl⟩
    obtain ⟨-, hm, hseq, -⟩ := Version.mem_sends.1 (List.mem_filter.1 hx).1
    obtain ⟨q, hq, t, ht, heq⟩ := (hmessage _).1 hm
    refine ⟨q, hq, t, ht, ?_⟩
    rw [heq]
    exact congrArg (Frame.mk x.frame.message) hseq
  · rintro ⟨q, hq, t, ht, rfl⟩
    refine ⟨⟨c, ⟨.xformBroadcast q t, s.serverSeq + 1⟩, .broadcast⟩, List.mem_filter.2 ⟨?_, by simp⟩, rfl⟩
    exact Version.mem_sends.2 ⟨hreceives, (hmessage _).2 ⟨q, hq, t, ht, rfl⟩, rfl, rfl⟩

/-- The frames of a reload notice: for the named prims without an override, what the stage has now. -/
theorem framesTo_reload {s : Session σ Path R} {c : ConnectionId} {call : Call σ Path Bool} {stage : σ}
    {notice : ObjectsChanged Path} (hnull : view.isNull s.stage = false) (hcall : call.notices = [(stage, notice)])
    (h0 : c ≠ 0) (hc : c ∈ s.clients) :
    ∃ frames seq, (s.reloadRootLayer view call).framesTo c = s.framesTo c ++ frames ∧
      ∀ f, f ∈ frames ↔ ∃ q ∈ reloadPrims notice, view.hasXformOverride stage q = false ∧
        ∃ t, view.readResolvedTransform stage q = some t ∧ f = ⟨.xformBroadcast q t, seq⟩ := by
  have hsent : (s.reloadRootLayer view call).sent =
      (onObjectsChanged view { reloadInProgress := true } { s with stage := stage } notice).sent := by
    rw [reloadRootLayer, if_neg (by simp [hnull]), author, deliver, hcall]
    rfl
  by_cases hnone : reloadPrims notice = []
  · refine ⟨[], 0, ?_, by simp [hnone]⟩
    rw [framesTo, hsent]
    simp [onObjectsChanged, hnone, framesTo]
  · set prims := (reloadPrims notice).filter (!view.hasXformOverride stage ·) with hprims
    have hnews : (s.reloadRootLayer view call).sent =
        s.sent ++ (noticeVersion view 0 prims { s with stage := stage }).sends := by
      rw [hsent]
      simp only [onObjectsChanged, Bool.false_eq_true, if_false, if_true, hnone, announce_eq, hprims]
    refine ⟨((noticeVersion view 0 prims { s with stage := stage }).sends.filter (·.connection = c)).map (·.frame),
      s.serverSeq + 1, ?_, fun f => ?_⟩
    · rw [framesTo, hnews, List.filter_append, List.map_append, framesTo]
    · refine (mem_framesTo_announced (s := { s with stage := stage }) h0 hc).trans ?_
      rw [hprims]
      simp only [List.mem_filter, Bool.not_eq_true', and_assoc]

end Session

namespace OpStage
variable {R F : Type} [Zero R] [Zero F] [One F] [FloatCast R F]

/-- After a reload that the notice describes, a client that held the transforms from before holds those from
after it. A prim that is named and passed over has the transform it had. -/
theorem client_holds_transforms_after_reload (schema : UsdSchema R)
    (resolve : List (Op × Option (Value R F)) → Option (Transform R)) (initial : OpLayer R F)
    (initialForeign : PrimPath → Bool) (edits : List (Edit R F))
    (s : Session (OpStage R F) PrimPath R)
    (hstage : s.stage = run schema { root := initial, foreign := initialForeign } edits)
    (root : OpLayer R F) (foreign : PrimPath → Bool) (notice : ObjectsChanged PrimPath)
    (hnotice : ∀ p, RootDiffers s.stage.root root p → p ∈ Session.reloadPrims notice)
    (c : ConnectionId) (h0 : c ≠ 0) (hc : c ∈ s.clients) (held : PrimPath → Option (Transform R))
    (hheld : ∀ p, (s.stage.resolved schema resolve p).isSome →
      held p = s.stage.resolved schema resolve p) :
    let s' := s.reloadRootLayer (view schema resolve) (reloadCall s.stage root foreign notice)
    ∃ frames, s'.framesTo c = s.framesTo c ++ frames ∧
      ∀ p, (s.stage.resolved schema resolve p).isSome → (s'.stage.resolved schema resolve p).isSome →
        frames.foldl takeFrame held p = s'.stage.resolved schema resolve p ∧
        ((view schema resolve).hasXformOverride s'.stage p = true →
          s'.stage.resolved schema resolve p = s.stage.resolved schema resolve p) := by
  intro s'
  have hs' : s'.stage = { s.stage with root := root, foreign := foreign } := rfl
  have hwhole : ∀ p, (s.stage.session.ops p).WholeOps := hstage ▸ wholeOps_run schema initial _ edits
  have hnull : (view schema resolve).isNull s.stage = false := rfl
  have hcall : (reloadCall s.stage root foreign notice).notices = [(s'.stage, notice)] := rfl
  obtain ⟨frames, seq, hframes, hmem⟩ := Session.framesTo_reload hnull hcall h0 hc
  refine ⟨frames, hframes, fun p hsome hsome' => ⟨?_, fun hover => ?_⟩⟩
  · have hcarry : ∀ f ∈ frames, ∃ q t, f.message = .xformBroadcast q t ∧
        s'.stage.resolved schema resolve q = some t := by
      intro f hf
      obtain ⟨q, -, -, t, ht, rfl⟩ := (hmem f).1 hf
      exact ⟨q, t, rfl, ht⟩
    rcases foldl_takeFrame hcarry held p with hcurrent | ⟨hkept, hunsent⟩
    · exact hcurrent
    rw [hkept, hheld p hsome, eq_comm]
    -- without a frame the prim was passed over, or the notice does not name it
    by_cases hdiffers : RootDiffers s.stage.root root p
    · cases hover : (view schema resolve).hasXformOverride s'.stage p with
      | true => exact resolved_reload_of_override (hwhole p) hover hsome hsome'
      | false =>
        obtain ⟨t, ht⟩ := Option.isSome_iff_exists.1 hsome'
        exact absurd rfl (hunsent _ ((hmem _).2 ⟨p, hnotice p hdiffers, hover, t, ht, rfl⟩) t)
    · exact resolved_reload_of_same hdiffers hsome hsome'
  · exact resolved_reload_of_override (hwhole p) hover hsome hsome'

/-- What USD makes of no op and of a translation that nothing turns or scales. -/
def resolveTranslation : List (Op × Option (Value Int Int)) → Option (Transform Int)
  | [] => some (.separate ⟨0, 0, 0⟩ ⟨0, 0, 0⟩ ⟨1, 1, 1⟩)
  | (.translate, some (.vec3d t)) :: _ => some (.separate t ⟨0, 0, 0⟩ ⟨1, 1, 1⟩)
  | _ => none

def box : PrimPath := .child .root "Box"

def crate : PrimPath := .child .root "Crate"

/-- A file with a box and a crate at `x`. -/
def boxesAt (x : Int) : OpLayer Int Int :=
  .of ((SdfLayer.empty.author box fun _ spec => { spec with isDef := true, typeName := "Cube" }).author crate
    fun _ spec => { spec with isDef := true, typeName := "Cube" }) fun _ =>
    { attributes := fun op => if op = .translate then some ⟨.double3, some (.vec3d ⟨x, 0, 0⟩)⟩ else none
      ops := {.translate}
      mem_ops := fun op => by by_cases h : op = .translate <;> simp [h]
      xformOpOrder := some [.translate] }

/-- A client has moved the box before both are moved in the file. It is told of the crate only. -/
theorem client_holds_moved_box :
    let stage := run LayeredStage.builtInSchema { root := boxesAt 1 }
      [.transform box (some (.separate ⟨7, 0, 0⟩ ⟨0, 0, 0⟩ ⟨1, 1, 1⟩))]
    let notice : ObjectsChanged PrimPath :=
      ⟨[], [.property box "xformOp:translate", .property crate "xformOp:translate"]⟩
    let held := stage.resolved LayeredStage.builtInSchema resolveTranslation
    ∃ frames,
      (Session.reloadRootLayer (view LayeredStage.builtInSchema resolveTranslation)
        (reloadCall stage (boxesAt 2) (fun _ => false) notice) { stage := stage, clients := [5] }).framesTo 5 = frames ∧
      frames.foldl takeFrame held box = some (.separate ⟨7, 0, 0⟩ ⟨0, 0, 0⟩ ⟨1, 1, 1⟩) ∧
      frames.foldl takeFrame held crate = some (.separate ⟨2, 0, 0⟩ ⟨0, 0, 0⟩ ⟨1, 1, 1⟩) := by
  intro stage notice held
  have hroot : stage.root = boxesAt 1 := rfl
  have hnotice : ∀ p, RootDiffers stage.root (boxesAt 2) p → p ∈ Session.reloadPrims notice := by
    rw [hroot]
    intro p hdiffers
    by_cases hp : p = box ∨ p = crate
    · rcases hp with rfl | rfl <;> decide
    · have hbox : p ∉ box.chain := by simpa [box] using fun h => hp (.inl h)
      have hcrate : p ∉ crate.chain := by simpa [crate] using fun h => hp (.inr h)
      rcases hdiffers with h | h
      · exact absurd rfl h
      · exact absurd (by simp [boxesAt, OpLayer.of, SdfLayer.empty, hbox, hcrate]) h
  obtain ⟨frames, hframes, hheld⟩ := client_holds_transforms_after_reload LayeredStage.builtInSchema
    resolveTranslation (boxesAt 1) (fun _ => false) [.transform box (some (.separate ⟨7, 0, 0⟩ ⟨0, 0, 0⟩ ⟨1, 1, 1⟩))]
    { stage := stage, clients := [5] } rfl (boxesAt 2) (fun _ => false) notice hnotice 5 (by decide) (by decide) held
    fun _ _ => rfl
  refine ⟨frames, hframes, (hheld box (by decide) (by decide)).1.trans ?_, (hheld crate (by decide) (by decide)).1.trans ?_⟩
  · decide
  · decide

end OpStage
end IdtxCore
