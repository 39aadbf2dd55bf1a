import IdtxCore.Session

/-!
# The dirty flag and the sidecar file

The session layer is saved to its sidecar by the flush command and, before it is merged into the original, by
the commit. `dirty` says that there is something to save. A flush clears the flag and sets it again if the save
fails; a commit ignores how its save ended and clears the flag once the original is written.

`Saver` is the session with the layer that its sidecar file holds, `layer` the session layer of a stage. A save
that fails or throws leaves the file as it was.
-/

namespace IdtxCore

namespace Session
variable {σ Path R : Type}

/-! ### What a handler does to the flag and to the stage -/

section
variable {view : StageView σ Path R}

theorem dirty_sendAck (s : Session σ Path R) (c : ConnectionId) (r : Nat) (e : Option AckError) :
    (s.sendAck c r e).dirty = s.dirty := by
  unfold sendAck sendToConnection
  split_ifs <;> rfl

theorem dirty_handleJoin (s : Session σ Path R) (c : ConnectionId) : (s.handleJoin view c).dirty = s.dirty := by
  unfold handleJoin sendToConnection
  split_ifs <;> rfl

variable [LinearOrder Path]

theorem dirty_sendCorrection (s : Session σ Path R) (c : ConnectionId) (p : Path) :
    (sendCorrection view s c p).dirty = s.dirty := by
  unfold sendCorrection
  cases correctionMessage view s.stage p with
  | none => split_ifs <;> rfl
  | some m => split_ifs <;> rfl

theorem dirty_announcePrims (w : ConnectionId) (seq : Nat) (prims : List Path) (s : Session σ Path R) :
    (prims.foldl (announcePrim view w seq) s).dirty = s.dirty := by
  induction prims generalizing s with
  | nil => rfl
  | cons p prims ih =>
    rw [List.foldl_cons, ih]
    unfold announcePrim broadcastResolvedTransform
    split <;> rfl

theorem dirty_onObjectsChanged (flags : NoticeFlags) (s : Session σ Path R) (notice : ObjectsChanged Path) :
    (onObjectsChanged view flags s notice).dirty = s.dirty := by
  unfold onObjectsChanged
  split_ifs <;> first | rfl | exact dirty_announcePrims ..

variable (view) in
theorem dirty_author {α : Type} (flags : NoticeFlags) (call : Call σ Path α) (s : Session σ Path R) :
    (s.author view flags call).dirty = s.dirty := by
  refine author_induction (motive := fun s' => s'.dirty = s.dirty) ?_ ?_ rfl
  · intro s' stage h
    exact h
  · intro n _ s' _ h
    exact (dirty_onObjectsChanged flags s' n.2).trans h

/-- If `called`, an authoring call left `stage`; it marked the session dirty if it ended `ok`. -/
structure Authored (called ok : Prop) [Decidable called] (stage : σ) (s s' : Session σ Path R) : Prop where
  stage : s'.stage = if called then stage else s.stage
  dirty : s'.dirty = true ↔ s.dirty = true ∨ called ∧ ok

variable (view) (s : Session σ Path R)

theorem authored_handleTransform (call : Call σ Path Bool) (command : TransformCommand Path R) :
    Authored (s.versions.checkUpdate command.origin command.primPath command.baseSeq = .current)
      (call.outcome = .returned true) call.stage s (s.handleTransform view call command) := by
  unfold handleTransform
  split
  · rename_i hcheck
    constructor <;> simp [hcheck, stage_sendAck, dirty_sendAck]
  · rename_i hcheck
    constructor <;> simp [hcheck, stage_sendAck, dirty_sendAck]
  · rename_i hcheck
    dsimp only
    split
    · rename_i houtcome
      constructor
      · rw [stage_sendAck, if_pos hcheck]
        rfl
      · simp [hcheck, houtcome, dirty_sendAck]
    · rename_i houtcome
      constructor
      · rw [stage_sendCorrection, stage_sendAck, if_pos hcheck]
        rfl
      · rw [dirty_sendCorrection, dirty_sendAck, dirty_author]
        simp only [hcheck, true_and]
        exact (or_iff_left houtcome).symm

theorem authored_handleCreatePrim (call : Call σ Path (Option (CreatedPrim Path R)))
    (command : CreatePrimCommand Path) :
    Authored (view.isNull s.stage = false) (∃ created, call.outcome = .returned (some created)) call.stage s
      (s.handleCreatePrim view call command) := by
  unfold handleCreatePrim
  cases hnull : view.isNull s.stage with
  | true => constructor <;> simp [stage_sendAck, dirty_sendAck]
  | false =>
    simp only [Bool.false_eq_true, if_false]
    split
    · rename_i created houtcome
      constructor
      · rw [stage_sendAck]
        rfl
      · simp [houtcome, dirty_sendAck, announceToAll, broadcastToAll, sendAll]
    · rename_i houtcome
      constructor
      · rw [stage_sendAck]
        rfl
      · rw [dirty_sendAck, dirty_author]
        simp only [true_and]
        exact (or_iff_left fun ⟨created, h⟩ => houtcome created h).symm

theorem authored_handleSetPrimActive (call : Call σ Path PrimDispatcher.SetActiveStatus)
    (command : SetPrimActiveCommand Path) :
    Authored (view.isNull s.stage = false) (call.outcome = .returned .ok) call.stage s
      (s.handleSetPrimActive view call command) := by
  unfold handleSetPrimActive
  cases hnull : view.isNull s.stage with
  | true => constructor <;> simp [stage_sendAck, dirty_sendAck]
  | false =>
    simp only [Bool.false_eq_true, if_false]
    split
    case h_7 houtcome =>
      constructor
      · rw [stage_sendAck]
        rfl
      · simp [houtcome, dirty_sendAck, announceToAll, broadcastToAll, sendAll]
    all_goals
      rename_i houtcome
      constructor
      · rw [stage_sendAck]
        rfl
      · simp [houtcome, dirty_sendAck, dirty_author]

theorem dirty_reloadRootLayer (call : Call σ Path Bool) : (s.reloadRootLayer view call).dirty = s.dirty := by
  unfold reloadRootLayer
  split_ifs
  · rfl
  · exact dirty_author ..

theorem dirty_handleCommit (commit reload : Call σ Path Bool) :
    (s.handleCommit view commit reload).dirty =
      if view.isNull s.stage = false ∧ view.sessionLayerIsEmpty s.stage = false ∧
        commit.outcome = .returned true then false else s.dirty := by
  unfold handleCommit
  cases hnull : view.isNull s.stage with
  | true => simp
  | false =>
    cases hempty : view.sessionLayerIsEmpty s.stage with
    | true => simp
    | false =>
      simp only [Bool.false_eq_true, if_false, true_and]
      split
      · rename_i houtcome
        rw [dirty_reloadRootLayer, if_pos houtcome]
      · rename_i houtcome
        rw [dirty_author, if_neg houtcome]

end
end Session

/-! ### Turns -/

/-- A command with what the calls of its handler do. -/
inductive SaverTurn (σ Path R : Type) where
  | transform (command : TransformCommand Path R) (call : Call σ Path Bool)
  | createPrim (command : CreatePrimCommand Path) (call : Call σ Path (Option (CreatedPrim Path R)))
  | setPrimActive (command : SetPrimActiveCommand Path) (call : Call σ Path PrimDispatcher.SetActiveStatus)
  | flush (save : Outcome Bool)
  | commit (save : Outcome Bool) (write reload : Call σ Path Bool)
  | reload (call : Call σ Path Bool)
  | join (connection : ConnectionId)
  | correction (connection : ConnectionId) (primPath : Path)

structure Saver (σ Path R L : Type) where
  session : Session σ Path R
  /-- what the sidecar file holds -/
  sidecar : L

namespace Saver
variable {σ Path R L : Type} [LinearOrder Path] (view : StageView σ Path R) (layer : σ → L)

/-- `SdfLayer::Save` of the session layer. -/
def save (a : Saver σ Path R L) (save : Outcome Bool) : L :=
  if save = .returned true then layer a.session.stage else a.sidecar

def flush (a : Saver σ Path R L) (save : Outcome Bool) : Saver σ Path R L :=
  if view.isNull a.session.stage = true ∨ a.session.dirty = false then a
  else { session := a.session.handleFlush view save, sidecar := a.save layer save }

def commit (a : Saver σ Path R L) (save : Outcome Bool) (write reload : Call σ Path Bool) : Saver σ Path R L :=
  if view.isNull a.session.stage = true ∨ view.sessionLayerIsEmpty a.session.stage = true then a
  else match save with
    -- the exception leaves the handler
    | .threw => a
    | .returned ok =>
      { session := a.session.handleCommit view write reload, sidecar := a.save layer (.returned ok) }

def step (a : Saver σ Path R L) : SaverTurn σ Path R → Saver σ Path R L
  | .transform command call => { a with session := a.session.handleTransform view call command }
  | .createPrim command call => { a with session := a.session.handleCreatePrim view call command }
  | .setPrimActive command call => { a with session := a.session.handleSetPrimActive view call command }
  | .flush save => a.flush view layer save
  | .commit save write reload => a.commit view layer save write reload
  | .reload call => { a with session := a.session.reloadRootLayer view call }
  | .join connection => { a with session := a.session.handleJoin view connection }
  | .correction connection primPath => { a with session := Session.sendCorrection view a.session connection primPath }

/-- The turn is possible in the state: its calls are. -/
def Possible (env : Session.Env σ Path R) (a : Saver σ Path R L) : SaverTurn σ Path R → Prop
  | .transform command call => env.apply a.session.stage command.primPath command.transform call
  | .createPrim command call => env.create a.session.stage command.parentPath command.type call
  | .setPrimActive command call => env.setActive a.session.stage command.primPath command.active call
  | .commit _ write reload => env.commit a.session.stage write ∧ env.reload write.stage reload
  | .reload call => env.reload a.session.stage call
  | .flush _ | .join _ | .correction .. => True

def UpToDate (a : Saver σ Path R L) : Prop :=
  a.session.dirty = false → a.sidecar = layer a.session.stage

/-- An authoring call that does not end `ok` leaves the layer alone, or the session is dirty anyway. -/
def Harmless (a : Saver σ Path R L) (ok : Prop) (stage : σ) : Prop :=
  ok ∨ a.session.dirty = true ∨ layer stage = layer a.session.stage

/-- The condition under which a turn keeps the sidecar up to date. -/
def Meets (a : Saver σ Path R L) : SaverTurn σ Path R → Prop
  | .transform command call =>
    a.session.versions.checkUpdate command.origin command.primPath command.baseSeq = .current →
      a.Harmless layer (call.outcome = .returned true) call.stage
  | .createPrim _ call => view.isNull a.session.stage = false →
      a.Harmless layer (∃ created, call.outcome = .returned (some created)) call.stage
  | .setPrimActive _ call => view.isNull a.session.stage = false →
      a.Harmless layer (call.outcome = .returned .ok) call.stage
  | .commit save write _ =>
    view.isNull a.session.stage = false → view.sessionLayerIsEmpty a.session.stage = false →
      save = .returned false → write.outcome = .returned true → a.sidecar = layer a.session.stage
  | .flush _ | .reload _ | .join _ | .correction .. => True

/-- Writing the original and reloading it leave the session layer alone. -/
structure KeepsLayer (env : Session.Env σ Path R) : Prop where
  commit : ∀ stage call, env.commit stage call → layer call.stage = layer stage
  reload : ∀ stage call, env.reload stage call → layer call.stage = layer stage

variable {view layer} {a : Saver σ Path R L}

omit [LinearOrder Path] in
theorem upToDate_authored {called ok : Prop} [Decidable called] {stage : σ} {s' : Session σ Path R}
    (h : a.UpToDate layer) (hs : Session.Authored called ok stage a.session s') :
    ({ a with session := s' } : Saver σ Path R L).UpToDate layer ↔ (called → a.Harmless layer ok stage) := by
  unfold UpToDate at h ⊢
  rw [← Bool.not_eq_true, hs.dirty, hs.stage]
  rw [← Bool.not_eq_true] at h
  by_cases hdirty : a.session.dirty = true
  · simp [Harmless, hdirty]
  · by_cases hcalled : called
    · simp only [hdirty, hcalled, h hdirty, Harmless, true_and, if_true, true_implies]
      by_cases hok : ok
      · simp [hok]
      · simp [hok, eq_comm]
    · simp [hcalled, h hdirty]

omit [LinearOrder Path] in
/-- A turn that leaves the flag, the layer and the file alone. -/
theorem UpToDate.of_eq {s' : Session σ Path R} (h : a.UpToDate layer) (hdirty : s'.dirty = a.session.dirty)
    (hlayer : layer s'.stage = layer a.session.stage) :
    ({ a with session := s' } : Saver σ Path R L).UpToDate layer := by
  unfold UpToDate
  rw [hdirty, hlayer]
  exact h

omit [LinearOrder Path] in
theorem upToDate_flush (h : a.UpToDate layer) (save : Outcome Bool) :
    (a.flush view layer save).UpToDate layer := by
  unfold flush
  split_ifs with hclean
  · exact h
  · obtain ⟨hnull, hdirty⟩ := not_or.1 hclean
    intro hsaved
    have hok : save = .returned true := by simpa [Session.handleFlush, hnull, hdirty] using hsaved
    simp [Saver.save, hok, Session.stage_handleFlush]

theorem layer_handleCommit {env : Session.Env σ Path R} (hkeeps : KeepsLayer layer env) {s : Session σ Path R}
    {write reload : Call σ Path Bool} (hwrite : env.commit s.stage write)
    (hreload : env.reload write.stage reload) :
    layer (s.handleCommit view write reload).stage = layer s.stage := by
  have hw := hkeeps.commit _ _ hwrite
  rcases Session.stage_handleCommit view s write reload with hstage | hstage | hstage
  · rw [hstage]
  · rw [hstage, hw]
  · rw [hstage, hkeeps.reload _ _ hreload, hw]

/-- Only a save that failed before a successful write can leave the file behind a clean session. -/
theorem upToDate_commit_iff {env : Session.Env σ Path R} (hkeeps : KeepsLayer layer env)
    (h : a.UpToDate layer) (save : Outcome Bool) {write reload : Call σ Path Bool}
    (hwrite : env.commit a.session.stage write) (hreload : env.reload write.stage reload) :
    (a.commit view layer save write reload).UpToDate layer ↔
      a.Meets view layer (.commit save write reload) := by
  have hlayer : layer (a.session.handleCommit view write reload).stage = layer a.session.stage :=
    layer_handleCommit hkeeps hwrite hreload
  unfold commit Meets
  split_ifs with hnone
  · refine iff_of_true h fun hnull hempty => ?_
    simp [hnull, hempty] at hnone
  · obtain ⟨hnull, hempty⟩ := not_or.1 hnone
    simp only [Bool.not_eq_true] at hnull hempty
    simp only [hnull, hempty, true_implies]
    match save with
    | .threw => exact iff_of_true h nofun
    | .returned true =>
      refine iff_of_true (fun _ => ?_) nofun
      simp only [Saver.save, if_true]
      exact hlayer.symm
    | .returned false =>
      unfold UpToDate at h ⊢
      simp only [Session.dirty_handleCommit, hnull, hempty, true_and, hlayer, Saver.save,
        Outcome.returned.injEq, Bool.false_eq_true, if_false, true_implies]
      by_cases houtcome : write.outcome = .returned true
      · simp [houtcome]
      · simp only [houtcome, if_false, false_implies, iff_true]
        exact h

/-- One turn. -/
theorem upToDate_step_iff {env : Session.Env σ Path R} (hkeeps : KeepsLayer layer env) {turn : SaverTurn σ Path R}
    (h : a.UpToDate layer) (hpossible : a.Possible env turn) :
    (a.step env.view layer turn).UpToDate layer ↔ a.Meets env.view layer turn := by
  cases turn with
  | transform command call => exact upToDate_authored h (Session.authored_handleTransform ..)
  | createPrim command call => exact upToDate_authored h (Session.authored_handleCreatePrim ..)
  | setPrimActive command call => exact upToDate_authored h (Session.authored_handleSetPrimActive ..)
  | flush save => exact iff_of_true (upToDate_flush h save) trivial
  | commit save write reload => exact upToDate_commit_iff hkeeps h save hpossible.1 hpossible.2
  | reload call =>
    refine iff_of_true (h.of_eq (Session.dirty_reloadRootLayer ..) ?_) trivial
    rcases Session.stage_reloadRootLayer env.view a.session call with hstage | hstage
    · rw [hstage]
    · rw [hstage, hkeeps.reload _ _ hpossible]
  | join c =>
    exact iff_of_true (h.of_eq (Session.dirty_handleJoin ..) (by rw [Session.stage_handleJoin])) trivial
  | correction c p =>
    exact iff_of_true (h.of_eq (Session.dirty_sendCorrection ..) (by rw [Session.stage_sendCorrection])) trivial

/-! ### Runs -/

/-- The states between the turns, the first one included. -/
def states (view : StageView σ Path R) (layer : σ → L) (a : Saver σ Path R L) :
    List (SaverTurn σ Path R) → List (Saver σ Path R L)
  | [] => [a]
  | turn :: turns => a :: states view layer (a.step view layer turn) turns

/-- `P` holds of each turn in the state before it. -/
def Throughout (view : StageView σ Path R) (layer : σ → L) (P : Saver σ Path R L → SaverTurn σ Path R → Prop)
    (a : Saver σ Path R L) : List (SaverTurn σ Path R) → Prop
  | [] => True
  | turn :: turns => P a turn ∧ Throughout view layer P (a.step view layer turn) turns

theorem mem_states_self (a : Saver σ Path R L) (turns : List (SaverTurn σ Path R)) :
    a ∈ states view layer a turns := by
  cases turns with
  | nil => exact List.mem_singleton_self a
  | cons turn turns => exact List.mem_cons_self

theorem upToDate_states_iff {env : Session.Env σ Path R} (hkeeps : KeepsLayer layer env)
    (h : a.UpToDate layer) {turns : List (SaverTurn σ Path R)}
    (hpossible : Throughout env.view layer (Possible env) a turns) :
    (∀ b ∈ states env.view layer a turns, b.UpToDate layer) ↔
      Throughout env.view layer (Meets env.view layer) a turns := by
  induction turns generalizing a with
  | nil => simpa [states, Throughout] using h
  | cons turn turns ih =>
    obtain ⟨hturn, hrest⟩ := hpossible
    have hstep := upToDate_step_iff hkeeps h hturn
    constructor
    · intro hall
      have hnext : (a.step env.view layer turn).UpToDate layer :=
        hall _ (List.mem_cons_of_mem _ (mem_states_self _ turns))
      exact ⟨hstep.1 hnext, (ih hnext hrest).1 fun b hb => hall b (List.mem_cons_of_mem _ hb)⟩
    · rintro ⟨hmeets, hrest'⟩ b hb
      rcases List.mem_cons.1 hb with rfl | hb
      · exact h
      · exact (ih (hstep.2 hmeets) hrest).2 hrest' b hb

/-- A new session: its sidecar was created or opened as the session layer. -/
def opened (layer : σ → L) (stage : σ) : Saver σ Path R L := ⟨{ stage := stage }, layer stage⟩

/-- Between any two commands of a session, a clean flag means that the sidecar holds the session layer, exactly
if every turn meets its condition. -/
theorem upToDate_run_iff {env : Session.Env σ Path R} (hkeeps : KeepsLayer layer env) (stage : σ)
    {turns : List (SaverTurn σ Path R)}
    (hpossible : Throughout env.view layer (Possible env) (opened layer stage) turns) :
    (∀ b ∈ states env.view layer (opened layer stage) turns,
        b.session.dirty = false → b.sidecar = layer b.session.stage) ↔
      Throughout env.view layer (Meets env.view layer) (opened layer stage) turns :=
  upToDate_states_iff hkeeps (fun _ => rfl) hpossible

/-! ### A move and a commit -/

/-- The two-layer stage with a file that can be written. -/
def writableEnv : Session.Env TwoLayerStage Nat Int :=
  { TwoLayerStage.env with commit := fun stage call => call = ⟨[], stage, .returned true⟩ }

def overridesOf (stage : TwoLayerStage) : List (Nat × Transform Int) × List Nat :=
  (stage.overrides, stage.inactive)

theorem keepsLayer_writableEnv : KeepsLayer overridesOf writableEnv where
  commit := by
    rintro stage call rfl
    rfl
  reload := by
    rintro stage call ⟨root, rfl⟩
    rfl

/-- A prim is moved and the session is committed; `save` is how the save before the commit ends. -/
def moveAndCommit (save : Outcome Bool) : List (SaverTurn TwoLayerStage Nat Int) :=
  let file : TwoLayerStage := { root := [(7, TwoLayerStage.shift 0)] }
  let moved := file.apply 7 (some (TwoLayerStage.shift 1))
  [.transform ⟨7, some (TwoLayerStage.shift 1), 1, 10, 0⟩ moved,
    .commit save ⟨[], moved.stage, .returned true⟩ (moved.stage.reload [(7, TwoLayerStage.shift 1)])]

theorem possible_moveAndCommit (save : Outcome Bool) :
    Throughout writableEnv.view overridesOf (Possible writableEnv)
      (opened overridesOf { root := [(7, TwoLayerStage.shift 0)] }) (moveAndCommit save) :=
  ⟨rfl, ⟨rfl, ⟨_, rfl⟩⟩, trivial⟩

/-- The save fails and the original is written: the flag is clean, and the sidecar does not have the move. -/
theorem clean_after_failed_save :
    Throughout writableEnv.view overridesOf (Possible writableEnv)
        (opened overridesOf { root := [(7, TwoLayerStage.shift 0)] }) (moveAndCommit (.returned false)) ∧
      ∃ b ∈ states writableEnv.view overridesOf (opened overridesOf { root := [(7, TwoLayerStage.shift 0)] })
          (moveAndCommit (.returned false)),
        b.session.dirty = false ∧ b.sidecar ≠ overridesOf b.session.stage := by
  refine ⟨possible_moveAndCommit _, _, List.mem_cons_of_mem _ (List.mem_cons_of_mem _ List.mem_cons_self), ?_⟩
  exact ⟨by decide +kernel, by decide +kernel⟩

theorem upToDate_after_move_and_commit :
    Throughout writableEnv.view overridesOf (Possible writableEnv)
        (opened overridesOf { root := [(7, TwoLayerStage.shift 0)] }) (moveAndCommit (.returned true)) ∧
      ∀ b ∈ states writableEnv.view overridesOf (opened overridesOf { root := [(7, TwoLayerStage.shift 0)] })
          (moveAndCommit (.returned true)),
        b.session.dirty = false → b.sidecar = overridesOf b.session.stage := by
  refine ⟨possible_moveAndCommit _, (upToDate_run_iff keepsLayer_writableEnv _ (possible_moveAndCommit _)).2 ?_⟩
  exact ⟨fun _ => .inl rfl, fun _ _ h => by simp at h, trivial⟩

end Saver
end IdtxCore
