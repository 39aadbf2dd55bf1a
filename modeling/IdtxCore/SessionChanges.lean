import IdtxCore.SessionOrder

/-!
# What becomes of a change of the stage

`changes` of a run are the changes of the stage as USD and the authoring calls report them, whatever the
listener makes of them: every notice that reaches the listener, and every prim that is created, activated or
deactivated. A creation fires notices of its own; they are part of it and `create_in_progress` drops them, as
`set_active_in_progress` does.

Each change has a version of its own, in their order (`InOrder`), and what it says of a prim is sent with that
version to every client attached at that moment, except to the origin of a transform.
-/

namespace IdtxCore

section Changes
variable {σ Path R : Type}

/-- The transform of the prim may have changed. A notice of a reload may name the prim or any of its
properties. -/
def ObjectsChanged.Names (notice : ObjectsChanged Path) (reload : Bool) (p : Path) : Prop :=
  if reload then ∃ x ∈ notice.resynced ++ notice.changedInfoOnly, x.primPath = some p
  else .prim p ∈ notice.resynced ∨ ∃ x ∈ notice.resynced ++ notice.changedInfoOnly, x.xformPrim = some p

inductive StageChange (σ Path R : Type) where
  /-- a notice, with the stage at that moment -/
  | fired (stage : σ) (notice : ObjectsChanged Path) (reload : Bool) (origin : ConnectionId)
      (attached : List ConnectionId)
  /-- a prim created, activated or deactivated -/
  | prim (primPath : Path) (message : Message Path R) (attached : List ConnectionId)

namespace StageChange

def Concerns : StageChange σ Path R → Path → Prop
  | .fired _ notice reload _ _, p => notice.Names reload p
  | .prim primPath _ _, p => p = primPath

/-- There is this to tell the clients. A reloaded prim with an xform opinion on the session layer keeps its
transform. -/
def Says (view : StageView σ Path R) : StageChange σ Path R → Message Path R → Prop
  | .fired stage notice reload _ _, m => ∃ p t, notice.Names reload p ∧
      ¬(reload = true ∧ view.hasXformOverride stage p = true) ∧
      view.readResolvedTransform stage p = some t ∧ m = .xformBroadcast p t
  | .prim _ message _, m => m = message

/-- The clients attached, but not the origin of a transform. -/
def receivers : StageChange σ Path R → List ConnectionId
  | .fired _ _ _ origin attached => attached.filter (· ≠ origin)
  | .prim _ _ attached => attached

end StageChange

/-- Each of the changes stands, in their order, for the next element of a list; one that concerns no prim
stands for none. -/
inductive InOrder {β : Type} (rel : StageChange σ Path R → β → Prop) :
    List (StageChange σ Path R) → List β → Prop where
  | nil : InOrder rel [] []
  | cons {change : StageChange σ Path R} {changes : List (StageChange σ Path R)} {b : β} {l : List β} :
      rel change b → InOrder rel changes l → InOrder rel (change :: changes) (b :: l)
  | silent {change : StageChange σ Path R} {changes : List (StageChange σ Path R)} {l : List β} :
      (∀ p, ¬change.Concerns p) → InOrder rel changes l → InOrder rel (change :: changes) l

namespace InOrder
variable {β γ : Type} {rel : StageChange σ Path R → β → Prop} {changes changes' : List (StageChange σ Path R)}
  {l l' : List β}

theorem append (h : InOrder rel changes l) (h' : InOrder rel changes' l') :
    InOrder rel (changes ++ changes') (l ++ l') := by
  induction h with
  | nil => exact h'
  | cons hrel _ ih => exact .cons hrel ih
  | silent hnone _ ih => exact .silent hnone ih

theorem map {rel' : StageChange σ Path R → γ → Prop} (f : β → γ) (h : InOrder rel changes l)
    (hrel : ∀ change, ∀ b ∈ l, rel change b → rel' change (f b)) : InOrder rel' changes (l.map f) := by
  induction h with
  | nil => exact .nil
  | cons hb _ ih =>
    exact .cons (hrel _ _ List.mem_cons_self hb) (ih fun change b hb => hrel change b (List.mem_cons_of_mem _ hb))
  | silent hnone _ ih => exact .silent hnone (ih hrel)

theorem exists_change (h : InOrder rel changes l) {b : β} (hb : b ∈ l) : ∃ change ∈ changes, rel change b := by
  induction h with
  | nil => cases hb
  | cons hrel _ ih =>
    rcases List.mem_cons.1 hb with rfl | hb
    · exact ⟨_, List.mem_cons_self, hrel⟩
    · obtain ⟨change, hmem, hrel'⟩ := ih hb
      exact ⟨change, List.mem_cons_of_mem _ hmem, hrel'⟩
  | silent _ _ ih =>
    obtain ⟨change, hmem, hrel⟩ := ih hb
    exact ⟨change, List.mem_cons_of_mem _ hmem, hrel⟩

end InOrder

/-- The version makes the change known. -/
structure StageChange.Tells (view : StageView σ Path R) (change : StageChange σ Path R)
    (v : Version Path R) : Prop where
  cause : v.cause = .broadcast
  receivers : v.receivers = change.receivers
  messages : ∀ m, m ∈ v.messages ↔ change.Says view m

end Changes

namespace Session
variable {σ Path R : Type}

/-! ### The changes of a handler -/

/-- The notices of a call that reach the listener. -/
def noticed {α : Type} (flags : NoticeFlags) (call : Call σ Path α) (s : Session σ Path R) :
    List (StageChange σ Path R) :=
  call.notices.map fun n => .fired n.1 n.2 flags.reloadInProgress flags.currentOrigin s.clients

def createPrimChanges (view : StageView σ Path R) (call : Call σ Path (Option (CreatedPrim Path R)))
    (command : CreatePrimCommand Path) (s : Session σ Path R) : List (StageChange σ Path R) :=
  if view.isNull s.stage then []
  else
    match call.outcome with
    | .returned (some created) => [.prim created.primPath
        (.createPrimBroadcast command.parentPath created.name command.type created.attributes) s.clients]
    | _ => []

def setPrimActiveChanges (view : StageView σ Path R) (call : Call σ Path PrimDispatcher.SetActiveStatus)
    (command : SetPrimActiveCommand Path) (s : Session σ Path R) : List (StageChange σ Path R) :=
  if view.isNull s.stage then []
  else
    match call.outcome with
    | .returned .ok =>
      [.prim command.primPath (.setPrimActiveBroadcast command.primPath command.active) s.clients]
    | _ => []

def reloadChanges (view : StageView σ Path R) (stage : σ) (call : Call σ Path Bool) (s : Session σ Path R) :
    List (StageChange σ Path R) :=
  if view.isNull stage then [] else s.noticed { reloadInProgress := true } call

def commitChanges (view : StageView σ Path R) (commit reload : Call σ Path Bool) (s : Session σ Path R) :
    List (StageChange σ Path R) :=
  if view.isNull s.stage ∨ view.sessionLayerIsEmpty s.stage then []
  else
    match commit.outcome with
    | .returned true => s.noticed {} commit ++ s.reloadChanges view commit.stage reload
    | _ => s.noticed {} commit

variable [LinearOrder Path]

def transformChanges (call : Call σ Path Bool) (command : TransformCommand Path R) (s : Session σ Path R) :
    List (StageChange σ Path R) :=
  match s.versions.checkUpdate command.origin command.primPath command.baseSeq with
  | .current => s.noticed { currentOrigin := command.origin } call
  | _ => []

/-- `Handles`, with the changes of the stage on the way. -/
inductive HandlesWith (env : Env σ Path R) (s : Session σ Path R) :
    SessionCommand Path R → List (StageChange σ Path R) → Session σ Path R → Prop where
  | transform {command : TransformCommand Path R} {call : Call σ Path Bool} :
      env.apply s.stage command.primPath command.transform call →
      HandlesWith env s (.transform command) (s.transformChanges call command)
        (s.handleTransform env.view call command)
  | join {connection : ConnectionId} : HandlesWith env s (.join connection) [] (s.handleJoin env.view connection)
  | createPrim {command : CreatePrimCommand Path} {call : Call σ Path (Option (CreatedPrim Path R))} :
      env.create s.stage command.parentPath command.type call →
      HandlesWith env s (.createPrim command) (s.createPrimChanges env.view call command)
        (s.handleCreatePrim env.view call command)
  | setPrimActive {command : SetPrimActiveCommand Path} {call : Call σ Path PrimDispatcher.SetActiveStatus} :
      env.setActive s.stage command.primPath command.active call →
      HandlesWith env s (.setPrimActive command) (s.setPrimActiveChanges env.view call command)
        (s.handleSetPrimActive env.view call command)
  | commit {commit reload : Call σ Path Bool} :
      env.commit s.stage commit → env.reload commit.stage reload →
      HandlesWith env s .commit (s.commitChanges env.view commit reload) (s.handleCommit env.view commit reload)
  | reload {call : Call σ Path Bool} :
      env.reload s.stage call →
      HandlesWith env s .reload (s.reloadChanges env.view s.stage call) (s.reloadRootLayer env.view call)
  | flush {save : Outcome Bool} : HandlesWith env s .flush [] (s.handleFlush env.view save)
  | correction {connection : ConnectionId} {primPath : Path} :
      HandlesWith env s (.correction connection primPath) [] (sendCorrection env.view s connection primPath)

section
variable {env : Env σ Path R} {view : StageView σ Path R} {s s' : Session σ Path R}
  {command : SessionCommand Path R} {changes : List (StageChange σ Path R)}

theorem HandlesWith.handles (h : HandlesWith env s command changes s') : Handles env s command s' := by
  cases h with
  | transform happly => exact .transform happly
  | join => exact .join
  | createPrim hcreate => exact .createPrim hcreate
  | setPrimActive hset => exact .setPrimActive hset
  | commit hcommit hreload => exact .commit hcommit hreload
  | reload hreload => exact .reload hreload
  | flush => exact .flush
  | correction => exact .correction

theorem Handles.exists_changes (h : Handles env s command s') : ∃ changes, HandlesWith env s command changes s' := by
  cases h with
  | transform happly => exact ⟨_, .transform happly⟩
  | join => exact ⟨_, .join⟩
  | createPrim hcreate => exact ⟨_, .createPrim hcreate⟩
  | setPrimActive hset => exact ⟨_, .setPrimActive hset⟩
  | commit hcommit hreload => exact ⟨_, .commit hcommit hreload⟩
  | reload hreload => exact ⟨_, .reload hreload⟩
  | flush => exact ⟨_, .flush⟩
  | correction => exact ⟨_, .correction⟩

/-! ### Each change has a version -/

/-- Handling has made a version for each of the changes, and no other broadcast. -/
def Logged (view : StageView σ Path R) (changes : List (StageChange σ Path R)) (s s' : Session σ Path R) : Prop :=
  s'.clients = s.clients ∧ ∃ versions, InOrder (StageChange.Tells view) changes versions ∧
    s'.log.filter (·.cause = .broadcast) = s.log.filter (·.cause = .broadcast) ++ versions

omit [LinearOrder Path] in
theorem Logged.of_log_eq (hclients : s'.clients = s.clients) (hlog : s'.log = s.log) : Logged view [] s s' :=
  ⟨hclients, [], .nil, by rw [hlog, List.append_nil]⟩

omit [LinearOrder Path] in
theorem Logged.trans {s₁ : Session σ Path R} {changes' : List (StageChange σ Path R)}
    (h : Logged view changes s s₁) (h' : Logged view changes' s₁ s') : Logged view (changes ++ changes') s s' := by
  obtain ⟨hclients, versions, hin, hlog⟩ := h
  obtain ⟨hclients', versions', hin', hlog'⟩ := h'
  exact ⟨hclients'.trans hclients, versions ++ versions', hin.append hin',
    by rw [hlog', hlog, List.append_assoc]⟩

omit [LinearOrder Path] in
/-- What follows the changes makes no broadcast. -/
theorem Logged.tail {s₁ : Session σ Path R} (h : Logged view changes s s₁) (h' : Logged view [] s₁ s') :
    Logged view changes s s' := List.append_nil changes ▸ h.trans h'

theorem mem_reloadPrims {notice : ObjectsChanged Path} {p : Path} :
    p ∈ reloadPrims notice ↔ notice.Names true p := by
  simp [reloadPrims, mem_pathSet, ObjectsChanged.Names, or_and_right, exists_or]

omit [LinearOrder Path] in
theorem resyncedPrim_eq_some {x : ObjectPath Path} {p : Path} :
    x.resyncedPrim = some p ↔ x = .prim p ∨ x.xformPrim = some p := by
  cases x with
  | prim q => simp [ObjectPath.resyncedPrim, ObjectPath.xformPrim]
  | property q name => simp [ObjectPath.resyncedPrim]
  | other => simp [ObjectPath.resyncedPrim]

theorem mem_affectedPrims {notice : ObjectsChanged Path} {p : Path} :
    p ∈ affectedPrims notice ↔ notice.Names false p := by
  simp only [affectedPrims, mem_pathSet, ObjectsChanged.Names, List.mem_append, List.mem_filterMap,
    resyncedPrim_eq_some, Bool.false_eq_true, if_false, and_or_left, or_and_right, exists_or, exists_eq_right]
  rw [or_comm, or_assoc]

/-- A notice tells of the prims that it names, those of a reload without an override on the session layer. -/
theorem logged_announce {stage : σ} {notice : ObjectsChanged Path} {reload : Bool} {origin : ConnectionId}
    {prims : List Path} (hstage : s.stage = stage)
    (hprims : ∀ p, p ∈ prims ↔ notice.Names reload p ∧ ¬(reload = true ∧ view.hasXformOverride stage p = true)) :
    Logged view [.fired stage notice reload origin s.clients] s (s.announce view origin prims) := by
  subst hstage
  rw [announce_eq]
  refine ⟨rfl, [s.noticeVersion view origin prims], .cons ⟨rfl, rfl, fun m => ?_⟩ .nil, ?_⟩
  · rw [messages_noticeVersion]
    simp only [List.mem_filterMap, hprims, Option.map_eq_some_iff, StageChange.Says]
    constructor
    · rintro ⟨p, ⟨hnames, hover⟩, t, ht, rfl⟩
      exact ⟨p, t, hnames, hover, ht, rfl⟩
    · rintro ⟨p, t, hnames, hover, ht, rfl⟩
      exact ⟨p, ⟨hnames, hover⟩, t, ht, rfl⟩
  · rw [List.filter_append]
    rfl

omit [LinearOrder Path] in
theorem logged_silent {change : StageChange σ Path R} (hnone : ∀ p, ¬change.Concerns p) : Logged view [change] s s :=
  ⟨rfl, [], .silent hnone .nil, (List.append_nil _).symm⟩

theorem logged_onObjectsChanged {flags : NoticeFlags} (hcreate : flags.createInProgress = false)
    (hactive : flags.setActiveInProgress = false) (hreload : flags.reloadInProgress = true → flags.currentOrigin = 0)
    (notice : ObjectsChanged Path) :
    Logged view [.fired s.stage notice flags.reloadInProgress flags.currentOrigin s.clients] s
      (onObjectsChanged view flags s notice) := by
  unfold onObjectsChanged
  rw [if_neg (by simp [hcreate]), if_neg (by simp [hactive])]
  cases hr : flags.reloadInProgress with
  | true =>
    rw [if_pos rfl, hreload hr]
    split_ifs with hnil
    · refine logged_silent fun p hp => ?_
      have hmem := mem_reloadPrims.2 hp
      rw [hnil] at hmem
      cases hmem
    · refine logged_announce rfl fun p => ?_
      simp [mem_reloadPrims]
  | false =>
    rw [if_neg Bool.false_ne_true]
    split_ifs with hnil
    · refine logged_silent fun p hp => ?_
      have hmem := mem_affectedPrims.2 hp
      rw [hnil] at hmem
      cases hmem
    · refine logged_announce rfl fun p => ?_
      simp [mem_affectedPrims]

theorem logged_author {flags : NoticeFlags} (hcreate : flags.createInProgress = false)
    (hactive : flags.setActiveInProgress = false) (hreload : flags.reloadInProgress = true → flags.currentOrigin = 0)
    {α : Type} (call : Call σ Path α) (s : Session σ Path R) :
    Logged view (s.noticed flags call) s (s.author view flags call) := by
  have hdeliver : ∀ (notices : List (σ × ObjectsChanged Path)) (s : Session σ Path R),
      Logged view (notices.map fun n => .fired n.1 n.2 flags.reloadInProgress flags.currentOrigin s.clients) s
        (s.deliver view flags notices) := by
    intro notices
    induction notices with
    | nil => exact fun s => .of_log_eq rfl rfl
    | cons n notices ih =>
      intro s
      have hnotice : Logged view [.fired n.1 n.2 flags.reloadInProgress flags.currentOrigin s.clients] s
          (onObjectsChanged view flags { s with stage := n.1 } n.2) :=
        logged_onObjectsChanged (s := { s with stage := n.1 }) hcreate hactive hreload n.2
      have hrest := ih (onObjectsChanged view flags { s with stage := n.1 } n.2)
      rw [hnotice.1] at hrest
      exact hnotice.trans hrest
  exact (hdeliver call.notices s).tail (.of_log_eq rfl rfl)

/-- What is announced to all clients is one change. -/
theorem logged_announceToAll (w : ConnectionId) (p : Path) (m : Message Path R) :
    Logged view [.prim p m s.clients] s (s.announceToAll w p m) := by
  refine ⟨rfl, [⟨s.serverSeq + 1, .prim w, s.clients, [(p, some m)]⟩],
    .cons ⟨rfl, rfl, fun m' => ?_⟩ .nil, ?_⟩
  · simp [Version.messages, StageChange.Says]
  · exact List.filter_append ..

/-- A creation or an activation that is under way hides the notices from the listener. -/
theorem logged_author_hidden {flags : NoticeFlags} (hflags : flags.createInProgress ∨ flags.setActiveInProgress)
    {α : Type} (call : Call σ Path α) (s : Session σ Path R) : Logged view [] s (s.author view flags call) := by
  refine author_induction (motive := Logged view [] s) ?_ ?_ (.of_log_eq rfl rfl)
  · intro s' stage h
    exact h.tail (.of_log_eq rfl rfl)
  · intro n _ s' _ h
    unfold onObjectsChanged
    rcases hflags with hcreate | hactive
    · rw [if_pos hcreate]
      exact h
    · rw [if_pos hactive, ite_self]
      exact h

omit [LinearOrder Path] in
theorem logged_sendAck (s : Session σ Path R) (c : ConnectionId) (r : Nat) (e : Option AckError) :
    Logged view [] s (s.sendAck c r e) := by
  unfold sendAck sendToConnection
  split_ifs <;> exact .of_log_eq rfl rfl

theorem logged_sendCorrection (s : Session σ Path R) (c : ConnectionId) (p : Path) :
    Logged view [] s (sendCorrection view s c p) := by
  unfold sendCorrection
  split
  · exact .of_log_eq rfl rfl
  · split
    · exact .of_log_eq rfl rfl
    · split
      · exact ⟨rfl, [], .nil, List.filter_append ..⟩
      · exact .of_log_eq rfl rfl

theorem logged_handleTransform (call : Call σ Path Bool) (command : TransformCommand Path R) (s : Session σ Path R) :
    Logged view (s.transformChanges call command) s (s.handleTransform view call command) := by
  unfold transformChanges handleTransform
  cases s.versions.checkUpdate command.origin command.primPath command.baseSeq with
  | stale => exact logged_sendAck ..
  | invalidBase => exact logged_sendAck ..
  | current =>
    have hauthor : Logged view (s.noticed { currentOrigin := command.origin } call) s
        (s.author view { currentOrigin := command.origin } call) :=
      logged_author rfl rfl (fun h => absurd h Bool.false_ne_true) call s
    refine hauthor.tail ?_
    dsimp only
    split
    · exact Logged.tail (.of_log_eq rfl rfl) (logged_sendAck ..)
    · exact (logged_sendAck ..).tail (logged_sendCorrection ..)

theorem logged_handleCreatePrim (call : Call σ Path (Option (CreatedPrim Path R))) (command : CreatePrimCommand Path)
    (s : Session σ Path R) :
    Logged view (s.createPrimChanges view call command) s (s.handleCreatePrim view call command) := by
  unfold createPrimChanges handleCreatePrim
  split
  · exact logged_sendAck ..
  · have hauthor : Logged view [] s
        (s.author view { currentOrigin := command.origin, createInProgress := true } call) :=
      logged_author_hidden (.inl rfl) call s
    cases call.outcome with
    | threw => exact hauthor.tail (logged_sendAck ..)
    | returned value =>
      cases value with
      | none => exact hauthor.tail (logged_sendAck ..)
      | some created =>
        refine hauthor.trans (Logged.tail ?_ (logged_sendAck ..))
        rw [← hauthor.1]
        exact logged_announceToAll ..

theorem logged_handleSetPrimActive (call : Call σ Path PrimDispatcher.SetActiveStatus)
    (command : SetPrimActiveCommand Path) (s : Session σ Path R) :
    Logged view (s.setPrimActiveChanges view call command) s (s.handleSetPrimActive view call command) := by
  unfold setPrimActiveChanges handleSetPrimActive
  split
  · exact logged_sendAck ..
  · have hauthor : Logged view [] s
        (s.author view { currentOrigin := command.origin, setActiveInProgress := true } call) :=
      logged_author_hidden (.inr rfl) call s
    cases call.outcome with
    | threw => exact hauthor.tail (logged_sendAck ..)
    | returned status =>
      cases status with
      | ok =>
        refine hauthor.trans (Logged.tail ?_ (logged_sendAck ..))
        rw [← hauthor.1]
        exact logged_announceToAll ..
      | alreadyInState | invalidPath | notFound | notDeletable | failed => exact hauthor.tail (logged_sendAck ..)

theorem logged_reloadRootLayer (call : Call σ Path Bool) (s : Session σ Path R) :
    Logged view (s.reloadChanges view s.stage call) s (s.reloadRootLayer view call) := by
  unfold reloadChanges reloadRootLayer
  split
  · exact .of_log_eq rfl rfl
  · have hauthor : Logged view (s.noticed { reloadInProgress := true } call) s
        (s.author view { reloadInProgress := true } call) := logged_author rfl rfl (fun _ => rfl) call s
    exact hauthor

theorem logged_handleCommit (commit reload : Call σ Path Bool) (s : Session σ Path R) :
    Logged view (s.commitChanges view commit reload) s (s.handleCommit view commit reload) := by
  unfold commitChanges handleCommit
  by_cases hnull : view.isNull s.stage = true
  · rw [if_pos (.inl hnull), if_pos hnull]
    exact .of_log_eq rfl rfl
  · by_cases hempty : view.sessionLayerIsEmpty s.stage = true
    · rw [if_pos (.inr hempty), if_neg hnull, if_pos hempty]
      exact .of_log_eq rfl rfl
    · rw [if_neg (by simp [hnull, hempty]), if_neg hnull, if_neg hempty]
      have hauthor : Logged view (s.noticed {} commit) s (s.author view {} commit) :=
        logged_author rfl rfl (fun _ => rfl) commit s
      have hreload : ∀ s' : Session σ Path R, s'.stage = commit.stage → s'.clients = s.clients →
          Logged view (s.reloadChanges view commit.stage reload) s' (s'.reloadRootLayer view reload) := by
        intro s' hstage hclients
        have hlogged : Logged view (s'.reloadChanges view s'.stage reload) s' (s'.reloadRootLayer view reload) :=
          logged_reloadRootLayer reload s'
        rw [hstage, reloadChanges, noticed, hclients] at hlogged
        exact hlogged
      cases commit.outcome with
      | threw => exact hauthor
      | returned value =>
        cases value with
        | false => exact hauthor
        | true => exact hauthor.trans ((Logged.of_log_eq rfl rfl).trans (hreload _ rfl hauthor.1))

theorem HandlesWith.told (h : HandlesWith env s command changes s') : Logged env.view changes s s' := by
  cases h with
  | transform => exact logged_handleTransform ..
  | join =>
    unfold handleJoin sendToConnection
    split_ifs <;> exact .of_log_eq rfl rfl
  | createPrim => exact logged_handleCreatePrim ..
  | setPrimActive => exact logged_handleSetPrimActive ..
  | commit => exact logged_handleCommit ..
  | reload => exact logged_reloadRootLayer ..
  | flush =>
    unfold handleFlush
    split_ifs <;> exact .of_log_eq rfl rfl
  | correction => exact logged_sendCorrection ..

end
end Session

/-! ### Runs -/

namespace Consumer
variable {σ Path R : Type} [LinearOrder Path]

/-- `Step`, with the changes of the stage on the way. -/
inductive StepWith (env : Session.Env σ Path R) (a : Consumer σ Path R) :
    List (StageChange σ Path R) → Consumer σ Path R → Prop where
  | attach (c : ConnectionId) : c ≠ 0 → c ∉ a.opened →
      StepWith env a [] { a with session := a.session.attachClient c, opened := c :: a.opened }
  | detach (c : ConnectionId) : StepWith env a [] { a with session := a.session.detachClient c }
  | reject (c : ConnectionId) (requestId : Nat) (error : AckError) : c ∈ a.session.clients →
      StepWith env a [] { a with session := a.session.reject c requestId error }
  | handle (command : SessionCommand Path R) (changes : List (StageChange σ Path R)) (s' : Session σ Path R) :
      Session.HandlesWith env a.session command changes s' →
      StepWith env a changes { a with session := s', joined := joins command ++ a.joined }

/-- The runs of `system`, with the changes of the stage so far. -/
def changesSystem (env : Session.Env σ Path R) : Lts.System (Consumer σ Path R × List (StageChange σ Path R)) where
  init x := (system env).init x.1 ∧ x.2 = []
  step x x' := ∃ changes, StepWith env x.1 changes x'.1 ∧ x'.2 = x.2 ++ changes

section
variable {env : Session.Env σ Path R} {a a' : Consumer σ Path R} {changes : List (StageChange σ Path R)}

theorem StepWith.step (h : StepWith env a changes a') : Step env a a' := by
  cases h with
  | attach c h0 hc => exact .attach c h0 hc
  | detach c => exact .detach c
  | reject c r e hc => exact .reject c r e hc
  | handle command changes s' hh => exact .handle command s' hh.handles

theorem Step.exists_changes (h : Step env a a') : ∃ changes, StepWith env a changes a' := by
  cases h with
  | attach c h0 hc => exact ⟨_, .attach c h0 hc⟩
  | detach c => exact ⟨_, .detach c⟩
  | reject c r e hc => exact ⟨_, .reject c r e hc⟩
  | handle command s' hh =>
    obtain ⟨changes, hh⟩ := hh.exists_changes
    exact ⟨_, .handle command changes s' hh⟩

theorem reachable_step {new : List (StageChange σ Path R)} (h : (changesSystem env).Reachable (a, changes))
    (hs : StepWith env a new a') : (changesSystem env).Reachable (a', changes ++ new) :=
  h.step ⟨new, hs, rfl⟩

/-- Every run has its changes. -/
theorem exists_changes_of_reachable (h : (system env).Reachable a) :
    ∃ changes, (changesSystem env).Reachable (a, changes) := by
  induction h with
  | init h => exact ⟨[], .init ⟨h, rfl⟩⟩
  | step _ hs ih =>
    obtain ⟨changes, hreach⟩ := ih
    obtain ⟨changes', hs⟩ := hs.exists_changes
    exact ⟨changes ++ changes', reachable_step hreach hs⟩

/-- The order of a run, with a version of the log for each of its changes. -/
structure InvWith (view : StageView σ Path R) (x : Consumer σ Path R × List (StageChange σ Path R)) : Prop where
  inv : Inv x.1
  inOrder : InOrder (StageChange.Tells view) x.2 (x.1.session.log.filter (·.cause = .broadcast))

theorem invWith_of_reachable {x : Consumer σ Path R × List (StageChange σ Path R)}
    (h : (changesSystem env).Reachable x) : InvWith env.view x := by
  refine Lts.System.invariant ?_ ?_ h
  · rintro ⟨a, changes⟩ ⟨hinit, rfl⟩
    refine ⟨inv_of_reachable (.init hinit), ?_⟩
    obtain ⟨stage, rfl⟩ := hinit
    exact .nil
  · rintro ⟨a, changes⟩ ⟨a', _⟩ - hinv ⟨new, hs, rfl⟩
    refine ⟨hinv.inv.step hs.step, ?_⟩
    cases hs with
    | attach | detach | reject =>
      rw [List.append_nil]
      exact hinv.inOrder
    | handle command _ s' hh =>
      obtain ⟨-, versions, hin, hlog⟩ := hh.told
      dsimp only
      rw [hlog]
      exact hinv.inOrder.append hin

/-- One order for all clients. -/
structure OneOrder [DecidableEq R] (view : StageView σ Path R) (changes : List (StageChange σ Path R))
    (s : Session σ Path R) : Prop where
  /-- the versions a client is sent never go down -/
  monotone : ∀ c, (((s.framesTo c).map (·.serverSeq)).filter (· ≠ 0)).Pairwise (· ≤ ·)
  /-- a version stands for one stage change or one correction -/
  distinct : (s.log.map (·.seq)).Nodup
  /-- each change has a version, and what it says goes with this version once to every client attached at
  that moment except the origin of a transform, and to no one else -/
  announced : InOrder (fun change seq => ∀ m, change.Says view m → ∀ c,
      s.sent.count ⟨c, ⟨m, seq⟩, .broadcast⟩ = if c ∈ change.receivers then 1 else 0)
    changes ((s.log.filter (·.cause = .broadcast)).map (·.seq))
  /-- and nothing else is broadcast -/
  only : ∀ x ∈ s.sent, x.cause = .broadcast →
    ∃ change ∈ changes, change.Says view x.frame.message ∧ x.connection ∈ change.receivers

omit [LinearOrder Path] in
/-- The broadcasts of a version, counted among all frames, are those the version sends. -/
theorem count_live [DecidableEq Path] [DecidableEq R] {s : Session σ Path R} (h : s.Ordered) {v : Version Path R}
    (hv : v ∈ s.log) (hcause : v.cause = .broadcast) {m : Message Path R} (hm : m ∈ v.messages)
    (c : ConnectionId) :
    s.sent.count ⟨c, ⟨m, v.seq⟩, .broadcast⟩ = if c ∈ v.receivers then 1 else 0 := by
  obtain ⟨hproper, hnodup⟩ := h.proper v hv
  have hlive : s.sent.count ⟨c, ⟨m, v.seq⟩, .broadcast⟩ =
      v.sends.count ⟨c, ⟨m, v.seq⟩, .broadcast⟩ := by
    rw [← h.live v hv, List.count_filter (by simp [Sent.isLive])]
  have hmem : (⟨c, ⟨m, v.seq⟩, .broadcast⟩ : Sent Path R) ∈ v.sends ↔ c ∈ v.receivers := by
    rw [Version.mem_sends]
    simp [hcause, hm]
  rw [hlive, (Version.sends_nodup hproper hnodup).count]
  simp only [hmem]

omit [LinearOrder Path] in
theorem exists_version_of_broadcast {s : Session σ Path R} (h : s.Ordered) {x : Sent Path R} (hx : x ∈ s.sent)
    (hcause : x.cause = .broadcast) : ∃ v ∈ s.log.filter (·.cause = .broadcast), x ∈ v.sends := by
  have hlive : x.isLive = true := by simp [Sent.isLive, hcause]
  obtain ⟨v, hv, hseq⟩ := h.versioned x hx hlive
  have hsends : x ∈ v.sends := by
    rw [← h.live v hv]
    exact List.mem_filter.2 ⟨hx, by simp [hlive, hseq]⟩
  exact ⟨v, List.mem_filter.2 ⟨hv, by simp [← (Version.mem_sends.1 hsends).2.2.2, hcause]⟩, hsends⟩

/-- Every run of a session's consumer keeps one authoritative order. -/
theorem oneOrder_of_reachable [DecidableEq R] (h : (changesSystem env).Reachable (a, changes)) :
    OneOrder env.view changes a.session := by
  obtain ⟨hinv, hin⟩ := invWith_of_reachable h
  have hord := hinv.ordered
  refine ⟨monotone_of_ordered hord, ?_, ?_, ?_⟩
  · exact List.pairwise_map.2 (hord.log_sorted.imp fun hlt => Nat.ne_of_lt hlt)
  · refine InOrder.map (·.seq) hin ?_
    intro change v hv htells m hm c
    rw [count_live hord (List.mem_of_mem_filter hv) htells.cause ((htells.messages m).2 hm), htells.receivers]
  · intro x hx hcause
    obtain ⟨v, hv, hsends⟩ := exists_version_of_broadcast hord hx hcause
    obtain ⟨hc, hm, -, -⟩ := Version.mem_sends.1 hsends
    obtain ⟨change, hchange, htells⟩ := hin.exists_change hv
    exact ⟨change, hchange, (htells.messages _).1 hm, htells.receivers ▸ hc⟩

end

/-- Two clients; client 1 moves a prim, and client 3 joins before client 2 moves it again. -/
theorem oneOrder_three_clients : ∃ (a : Consumer TwoLayerStage Nat Int) (changes : List (StageChange _ Nat Int)),
    (changesSystem TwoLayerStage.env).Reachable (a, changes) ∧
    a.session.framesTo 1 = [⟨.ack 10 none, 1⟩, ⟨.xformBroadcast 7 (TwoLayerStage.shift 2), 2⟩] ∧
    (a.session.framesTo 3).map (·.serverSeq) = [1, 1, 2] ∧
    changes.map (·.receivers) = [[2], [1, 3]] ∧ OneOrder TwoLayerStage.view changes a.session := by
  have h : (changesSystem TwoLayerStage.env).Reachable
      ({ session := { stage := { root := [(7, TwoLayerStage.shift 0)] } } }, []) := .init ⟨⟨_, rfl⟩, rfl⟩
  replace h := reachable_step h (.attach 1 (by decide) (by decide))
  replace h := reachable_step h (.attach 2 (by decide) (by decide))
  replace h := reachable_step h (.handle (.transform ⟨7, some (TwoLayerStage.shift 1), 1, 10, 0⟩) _ _ (.transform rfl))
  replace h := reachable_step h (.attach 3 (by decide) (by decide))
  replace h := reachable_step h (.handle (.join 3) _ _ .join)
  replace h := reachable_step h (.handle (.transform ⟨7, some (TwoLayerStage.shift 2), 2, 20, 1⟩) _ _ (.transform rfl))
  exact ⟨_, _, h, by decide, by decide, by decide, oneOrder_of_reachable h⟩

end Consumer
end IdtxCore
