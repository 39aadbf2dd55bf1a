import IdtxCore.JoinRuns

/-!
# The active flags after a join snapshot

A snapshot says which prims the session layer switches off. It does not say which it switches on, and a prim
that the root file ships inactive needs that: the client has its flag from the file. So the flags agree
exactly if no prim on the stage that the file ships inactive was switched on last.
-/

namespace IdtxCore

namespace LayeredStage
variable {R : Type}

inductive PrimCommand where
  | create (parentPath : PrimPath) (type : PrimType)
  | setActive (primPath : PrimPath) (active : Bool)
  deriving DecidableEq, Repr

def PrimCommand.edit : PrimCommand → StageEdit R
  | .create parentPath type => .create parentPath type
  | .setActive p active => .setActive p active

def runPrims (schema : UsdSchema R) (stage : LayeredStage R) (commands : List PrimCommand) : LayeredStage R :=
  stage.run schema (commands.map PrimCommand.edit)

/-- The flag of `p` that the command sets, if `PrimDispatcher` accepts it. -/
def acceptedFlag (stage : LayeredStage R) (p : PrimPath) : PrimCommand → Option Bool
  | .create .. => none
  | .setActive q active =>
    if q = p ∧ (PrimDispatcher.setActive stage q active).1 = .ok then some active else none

def lastAccepted (schema : UsdSchema R) (stage : LayeredStage R) : List PrimCommand → PrimPath → Option Bool
  | [], _ => none
  | command :: commands, p =>
    (lastAccepted schema (stage.perform schema command.edit) commands p).or (stage.acceptedFlag p command)

def shippedActive (root : SdfLayer R) (p : PrimPath) : Option Bool := (root.specs p).bind (·.active)

/-! ### The server -/

section Server
variable {schema : UsdSchema R} {stage : LayeredStage R} {p : PrimPath}

theorem active_definePrim {q : PrimPath} {typeName : String} (hq : q ≠ .root) :
    ((stage.definePrim q typeName).sessionSpec p).active = (stage.sessionSpec p).active := by
  rw [sessionSpec_definePrim hq]
  split_ifs <;> rfl

theorem active_authorActive {q : PrimPath} {active : Bool} (hq : q ≠ .root) :
    ((stage.authorActive q active).sessionSpec p).active =
      if p = q then some active else (stage.sessionSpec p).active := by
  rw [authorActive, sessionSpec_override hq]
  split_ifs <;> rfl

theorem active_authorTransform {q : PrimPath} {authored : Option (Transform R)} (hq : q ≠ .root) :
    ((stage.authorTransform q authored).sessionSpec p).active = (stage.sessionSpec p).active := by
  rw [authorTransform, sessionSpec_override hq]
  split_ifs <;> rfl

/-- A command is refused, or it creates a prim, or it sets a flag. -/
theorem perform_cases (schema : UsdSchema R) (stage : LayeredStage R) (command : PrimCommand) :
    (stage.perform schema command.edit = stage ∧ ∀ p, stage.acceptedFlag p command = none) ∨
      (∃ parent type created, command = .create parent type ∧
        PrimDispatcher.Creates stage parent type created (stage.perform schema command.edit)) ∨
      ∃ q active, command = .setActive q active ∧ q ≠ .root ∧ stage.isDefined q = true ∧
        (PrimDispatcher.setActive stage q active).1 = .ok ∧
        stage.perform schema command.edit = stage.authorActive q active := by
  cases command with
  | create parent type =>
    rcases perform_create_cases schema stage parent type with ⟨-, heq⟩ | ⟨created, -, hc⟩
    · exact .inl ⟨heq, fun _ => rfl⟩
    · exact .inr (.inl ⟨parent, type, created, rfl, hc⟩)
  | setActive q active =>
    rcases PrimDispatcher.setActive_cases stage q active with ⟨hrefused, heq⟩ | ⟨hq, hdefined, heq⟩
    · exact .inl ⟨heq, fun p => if_neg fun h => hrefused h.2⟩
    · exact .inr (.inr ⟨q, active, rfl, hq, hdefined, by rw [heq], by rw [PrimCommand.edit, perform, heq]⟩)

theorem active_perform (command : PrimCommand) :
    ((stage.perform schema command.edit).sessionSpec p).active =
      (stage.acceptedFlag p command).or (stage.sessionSpec p).active := by
  rcases perform_cases schema stage command with ⟨heq, hnone⟩ | ⟨parent, type, created, rfl, hc⟩ |
    ⟨q, active, rfl, hq, -, hok, heq⟩
  · rw [heq, hnone, Option.none_or]
  · obtain ⟨base, -, heq⟩ := hc.defines
    rw [heq, active_definePrim (hc.path_eq ▸ NamePath.child_ne_root)]
    rfl
  · rw [heq, active_authorActive hq, acceptedFlag]
    by_cases hpq : p = q
    · simp [hpq, hok]
    · rw [if_neg hpq, if_neg fun h => hpq h.1.symm, Option.none_or]

theorem active_runPrims (commands : List PrimCommand) :
    ((stage.runPrims schema commands).sessionSpec p).active =
      (stage.lastAccepted schema commands p).or (stage.sessionSpec p).active := by
  induction commands generalizing stage with
  | nil => rfl
  | cons command commands ih =>
    have hrun : stage.runPrims schema (command :: commands) =
        (stage.perform schema command.edit).runPrims schema commands := rfl
    rw [hrun, ih, lastAccepted, active_perform, Option.or_assoc]

/-- Every prim of the stage is in the file or created. -/
structure Owned (stage : LayeredStage R) : Prop where
  typed : stage.Typed
  fits : stage.Fits
  known : ∀ p, (stage.compose p).isSome → stage.InFile p ∨ stage.Created p

theorem Owned.perform (h : stage.Owned) (command : PrimCommand) :
    (stage.perform schema command.edit).Owned := by
  have hfits : stage.Calm schema command.edit → (stage.perform schema command.edit).Fits :=
    (fits_perform_iff h.typed h.fits _).2
  rcases perform_cases schema stage command with ⟨heq, -⟩ | ⟨parent, type, created, rfl, hc⟩ |
    ⟨q, active, rfl, hq, hdefined, -, heq⟩
  · rwa [heq]
  · have hparent : parent = .root ∨ stage.Knows parent := by
      refine or_iff_not_imp_left.2 fun hroot => isSome_compose_of_active hroot ?_
      simp [hc.parent_active]
    refine ⟨h.typed.perform _, hfits fun _ => hparent.imp_right (h.known parent), fun p hp => ?_⟩
    obtain ⟨base, hbase, heq⟩ := hc.defines
    rw [heq, hc.path_eq] at hp ⊢
    have hcreated : (stage.definePrim (.child parent created.name) base).Created p ↔ stage.Created p ∨ _ :=
      created_definePrim h.typed NamePath.child_ne_root hbase
    rcases (knows_definePrim hparent).1 hp with hp | hp
    · exact (h.known p hp).imp_right fun hp => hcreated.2 (.inl hp)
    · exact .inr (hcreated.2 (.inr hp))
  · refine ⟨h.typed.perform _, hfits trivial, fun p hp => ?_⟩
    rw [heq] at hp ⊢
    have hknows : stage.Knows q :=
      Option.isSome_of_any (List.all_eq_true.1 hdefined q (NamePath.mem_chain_self hq))
    have hcreated : (stage.authorActive q active).Created p ↔ stage.Created p :=
      created_override hq (fun _ => rfl) (fun _ => rfl)
    exact (h.known p ((knows_override hknows).1 hp)).imp_right hcreated.2

theorem runPrims_concat (commands : List PrimCommand) (command : PrimCommand) :
    stage.runPrims schema (commands ++ [command]) =
      (stage.runPrims schema commands).perform schema command.edit := by
  simp [runPrims, run]

theorem root_perform (command : PrimCommand) : (stage.perform schema command.edit).root = stage.root := by
  rcases perform_cases schema stage command with ⟨heq, -⟩ | ⟨parent, type, created, -, hc⟩ |
    ⟨q, active, -, -, -, -, heq⟩
  · rw [heq]
  · obtain ⟨base, -, heq⟩ := hc.defines
    rw [heq]
    rfl
  · rw [heq]
    rfl

theorem root_runPrims (commands : List PrimCommand) : (stage.runPrims schema commands).root = stage.root := by
  induction commands using List.reverseRecOn with
  | nil => rfl
  | append_singleton commands command ih => rw [runPrims_concat, root_perform, ih]

theorem owned_runPrims (schema : UsdSchema R) (root : SdfLayer R) (foreign : PrimPath → Bool)
    (commands : List PrimCommand) :
    ((opened root foreign).runPrims schema commands).Owned := by
  induction commands using List.reverseRecOn with
  | nil =>
    refine ⟨typed_run schema root foreign [], fits_opened root foreign, fun p hp => .inl ?_⟩
    exact (isSome_compose.1 hp).resolve_left nofun
  | append_singleton commands command ih =>
    rw [runPrims_concat]
    exact ih.perform command

end Server

/-! ### The client -/

section Client
variable {schema : UsdSchema R} {client client' stage : LayeredStage R} {p : PrimPath}

def frameFlag (p : PrimPath) : Message PrimPath R → Option Bool
  | .setPrimActiveBroadcast q active => if q = p then some active else none
  | _ => none

theorem replay_spec {m : Message PrimPath R} (h : client.replay m = some client') :
    client'.root = client.root ∧
      (client'.sessionSpec p).active = (frameFlag p m).or (client.sessionSpec p).active := by
  cases m with
  | xformBroadcast q t =>
    simp only [replay, Option.ite_none_right_eq_some, Option.some.injEq] at h
    obtain ⟨hknows, rfl⟩ := h
    have hq : q ≠ .root := by
      rintro rfl
      simp [Knows, compose_root] at hknows
    exact ⟨rfl, active_authorTransform hq⟩
  | createPrimBroadcast parent name type attributes =>
    simp only [replay, Option.ite_none_right_eq_some, Option.some.injEq] at h
    obtain ⟨-, rfl⟩ := h
    exact ⟨rfl, active_definePrim NamePath.child_ne_root⟩
  | setPrimActiveBroadcast q active =>
    simp only [replay, Option.ite_none_right_eq_some, Option.some.injEq] at h
    obtain ⟨hknows, rfl⟩ := h
    have hq : q ≠ .root := by
      rintro rfl
      simp [Knows, compose_root] at hknows
    refine ⟨rfl, ?_⟩
    rw [active_authorActive hq, frameFlag]
    by_cases hpq : p = q
    · simp [hpq]
    · rw [if_neg hpq, if_neg (Ne.symm hpq)]
      rfl
  | ack requestId error =>
    cases h
    exact ⟨rfl, rfl⟩
  | snapshotComplete =>
    cases h
    exact ⟨rfl, rfl⟩

/-- The last frame that sets the flag counts. -/
theorem replayAll_spec {messages : List (Message PrimPath R)} (h : client.replayAll messages = some client') :
    client'.root = client.root ∧ (client'.sessionSpec p).active =
      (messages.filterMap (frameFlag p)).getLast?.or (client.sessionSpec p).active := by
  induction messages generalizing client with
  | nil =>
    cases h
    exact ⟨rfl, rfl⟩
  | cons m messages ih =>
    rw [replayAll_cons] at h
    obtain ⟨c, hc, h⟩ := Option.bind_eq_some_iff.1 h
    obtain ⟨hroot, hactive⟩ := replay_spec (p := p) hc
    obtain ⟨hroot', hactive'⟩ := ih h
    refine ⟨hroot'.trans hroot, ?_⟩
    rw [hactive', hactive]
    cases hflag : frameFlag p m with
    | none => rw [List.filterMap_cons_none hflag, Option.none_or]
    | some active =>
      rw [List.filterMap_cons_some hflag, List.getLast?_cons]
      cases (messages.filterMap (frameFlag p)).getLast? <;> rfl

variable (schema) in
theorem mem_frameFlags {active : Bool} :
    active ∈ (Session.snapshotFrames (view schema) stage).filterMap (frameFlag p) ↔
      active = false ∧ stage.Deleted p := by
  rw [snapshotFrames_eq, List.mem_filterMap]
  constructor
  · rintro ⟨m, hm, hflag⟩
    rcases List.mem_append.1 hm with hm | hm
    · rcases List.mem_append.1 hm with hm | hm
      · rcases List.mem_append.1 hm with hm | hm
        · obtain ⟨spec, -, rfl⟩ := List.mem_map.1 hm
          cases hflag
        · obtain ⟨b, -, rfl⟩ := List.mem_map.1 hm
          cases hflag
      · obtain ⟨q, hq, rfl⟩ := List.mem_map.1 hm
        rw [frameFlag] at hflag
        split_ifs at hflag with hqp
        exact ⟨(Option.some.inj hflag).symm, hqp ▸ mem_deletedPrims.1 hq⟩
    · rw [List.mem_singleton.1 hm] at hflag
      cases hflag
  · rintro ⟨rfl, hdeleted⟩
    refine ⟨.setPrimActiveBroadcast p false, ?_, by simp [frameFlag]⟩
    exact List.mem_append_left _ (List.mem_append_right _ (List.mem_map_of_mem (mem_deletedPrims.2 hdeleted)))

theorem active_replaySnapshot (h : stage.replaySnapshot schema = some client) :
    client.root = stage.root ∧
      ((stage.Deleted p ∧ (client.sessionSpec p).active = some false) ∨
        (¬ stage.Deleted p ∧ (client.sessionSpec p).active = none)) := by
  obtain ⟨hroot, hactive⟩ := replayAll_spec (p := p) h
  refine ⟨hroot, ?_⟩
  have hjoiner : (stage.joiner.sessionSpec p).active = none := rfl
  rw [hactive, hjoiner, Option.or_none]
  by_cases hdeleted : stage.Deleted p
  · refine .inl ⟨hdeleted, ?_⟩
    have hne := List.ne_nil_of_mem ((mem_frameFlags schema).2 ⟨rfl, hdeleted⟩)
    rw [List.getLast?_eq_getLast_of_ne_nil hne, ((mem_frameFlags schema).1 (List.getLast_mem hne)).1]
  · refine .inr ⟨hdeleted, ?_⟩
    rw [List.getLast?_eq_none_iff, List.eq_nil_iff_forall_not_mem]
    exact fun active hmem => hdeleted ((mem_frameFlags schema).1 hmem).2

end Client

/-! ### The flags -/

section Flags
variable {schema : UsdSchema R} {client stage : LayeredStage R} {p : PrimPath}

/-- The flag of a prim, pruned or not: the session layer's, or else the file's. -/
def flag (stage : LayeredStage R) (p : PrimPath) : Bool :=
  ((stage.sessionSpec p).active.or (shippedActive stage.root p)).getD true

theorem map_active_compose :
    (stage.compose p).map (·.active.getD true) = if stage.Knows p then some (stage.flag p) else none := by
  cases hsession : stage.session.specs p <;> cases hroot : stage.root.specs p <;>
    simp [Knows, flag, sessionSpec, shippedActive, compose, SdfPrimSpec.over, hsession, hroot]

theorem active_child_eq {n : String} :
    stage.active (.child p n) =
      if stage.active p = some true ∧ stage.Knows (.child p n) then some (stage.flag (.child p n))
      else none := by
  rw [active, map_active_compose]
  split_ifs <;> simp_all

theorem active_eq_iff (hknows : ∀ p, client.Knows p ↔ stage.Knows p) :
    (∀ p, client.active p = stage.active p) ↔
      ∀ p, p ≠ .root → (stage.active p).isSome → client.flag p = stage.flag p := by
  constructor
  · intro h p hp hsome
    cases p with
    | root => exact absurd rfl hp
    | child p n =>
      have heq := h (.child p n)
      rw [active_child_eq] at hsome
      split_ifs at hsome with hon
      · have hon' : client.active p = some true ∧ client.Knows (.child p n) :=
          ⟨(h p).trans hon.1, (hknows _).2 hon.2⟩
        rw [active_child_eq, active_child_eq, if_pos hon, if_pos hon'] at heq
        exact Option.some.inj heq
      · cases hsome
  · intro h p
    induction p with
    | root => rfl
    | child p n ih =>
      have hon : client.active p = some true ∧ client.Knows (.child p n) ↔
          stage.active p = some true ∧ stage.Knows (.child p n) := by rw [ih, hknows]
      rw [active_child_eq, active_child_eq]
      by_cases hstage : stage.active p = some true ∧ stage.Knows (.child p n)
      · rw [if_pos hstage, if_pos (hon.2 hstage)]
        refine congrArg some (h (.child p n) NamePath.child_ne_root ?_)
        rw [active_child_eq, if_pos hstage]
        rfl
      · rw [if_neg hstage, if_neg fun h => hstage (hon.1 h)]

theorem flag_replaySnapshot_iff (h : stage.replaySnapshot schema = some client) :
    client.flag p = stage.flag p ↔
      ¬ (shippedActive stage.root p = some false ∧ (stage.sessionSpec p).active = some true) := by
  obtain ⟨hroot, hactive⟩ := active_replaySnapshot (p := p) h
  rw [deleted_iff] at hactive
  rw [flag, flag, hroot]
  rcases hactive with ⟨hoff, hclient⟩ | ⟨hoff, hclient⟩
  · simp [hoff, hclient]
  · rw [hclient]
    cases hown : (stage.sessionSpec p).active with
    | none => simp
    | some active =>
      cases active with
      | false => exact absurd hown hoff
      | true => cases shippedActive stage.root p <;> simp

theorem Owned.active_eq_iff (h : stage.Owned) (hclient : stage.replaySnapshot schema = some client) :
    (∀ p, client.active p = stage.active p) ↔
      ∀ p, (stage.active p).isSome → shippedActive stage.root p = some false →
        (stage.sessionSpec p).active ≠ some true := by
  have hknows : ∀ p, client.Knows p ↔ stage.Knows p := by
    intro p
    refine (knows_replaySnapshot hclient).trans ⟨?_, h.known p⟩
    rintro (hfile | ⟨spec, hspec, -⟩)
    · exact isSome_compose.2 (.inr hfile)
    · exact isSome_compose.2 (.inl (by simp [hspec]))
  rw [LayeredStage.active_eq_iff hknows]
  simp only [flag_replaySnapshot_iff hclient, not_and]
  constructor
  · intro hall p hsome hshipped
    refine hall p ?_ hsome hshipped
    rintro rfl
    simp [shippedActive, stage.root.root_none] at hshipped
  · exact fun hall p _ => hall p

/-- After the snapshot the client has the composed flag of every prim exactly if no prim on the stage that
the file ships inactive was switched on last. -/
theorem active_replaySnapshot_iff (schema : UsdSchema R) (root : SdfLayer R) (foreign : PrimPath → Bool)
    (commands : List PrimCommand) :
    (∃ client, ((opened root foreign).runPrims schema commands).replaySnapshot schema = some client ∧
        ∀ p, client.active p = ((opened root foreign).runPrims schema commands).active p) ↔
      ∀ p, (((opened root foreign).runPrims schema commands).active p).isSome →
        shippedActive root p = some false →
          (opened root foreign).lastAccepted schema commands p ≠ some true := by
  have howned := owned_runPrims schema root foreign commands
  have hroot : ((opened root foreign).runPrims schema commands).root = root := root_runPrims commands
  have hlast : ∀ p, (((opened root foreign).runPrims schema commands).sessionSpec p).active =
      (opened root foreign).lastAccepted schema commands p := fun p =>
    (active_runPrims commands).trans (Option.or_none ..)
  simp only [← hlast]
  constructor
  · rintro ⟨client, hclient, hall⟩
    have hflags := (howned.active_eq_iff hclient).1 hall
    rwa [hroot] at hflags
  · intro hall
    have hsome : (((opened root foreign).runPrims schema commands).replaySnapshot schema).isSome :=
      isSome_replaySnapshot_iff.2 howned.fits
    obtain ⟨client, hclient⟩ := Option.isSome_iff_exists.1 hsome
    refine ⟨client, hclient, (howned.active_eq_iff hclient).2 ?_⟩
    rwa [hroot]

end Flags

/-! ### A prim that the file ships inactive -/

def lamp : PrimPath := .child .root "Lamp"

def lampFile : SdfLayer Int :=
  SdfLayer.empty.author lamp fun _ _ => { isDef := true, typeName := "Xform", active := some false }

/-- The session switches the lamp on; the snapshot is empty, and the client keeps it off. -/
theorem lamp_stays_off :
    ((opened lampFile fun _ => false).runPrims builtInSchema [.setActive lamp true]).active lamp = some true ∧
      ¬ ∃ client, ((opened lampFile fun _ => false).runPrims builtInSchema
            [.setActive lamp true]).replaySnapshot builtInSchema = some client ∧
          ∀ p, client.active p =
            ((opened lampFile fun _ => false).runPrims builtInSchema [.setActive lamp true]).active p := by
  have hclient : (((opened lampFile fun _ => false).runPrims builtInSchema
      [.setActive lamp true]).replaySnapshot builtInSchema).map (·.active lamp) = some (some false) := by
    decide +kernel
  have hstage : ((opened lampFile fun _ => false).runPrims builtInSchema
      [.setActive lamp true]).active lamp = some true := by decide +kernel
  refine ⟨hstage, ?_⟩
  rintro ⟨client, hsome, hall⟩
  have heq := hall lamp
  rw [hsome, Option.map_some] at hclient
  rw [hstage, Option.some.inj hclient] at heq
  cases heq

end LayeredStage
end IdtxCore
