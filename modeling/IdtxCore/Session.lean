import Mathlib.Data.List.Sort
import Mathlib.Data.List.Dedup
import IdtxCore.Versions
import IdtxCore.TransformDispatcher

/-!
# The session: command handlers, stage notices and the frames they send

`SessionManager::HandleCommand` and what it calls, with `StageNoticeListener::OnObjectsChanged`.
Everything here runs on the session's consumer, one command at a time, so a handler is a function
from the session before the command to the session after it.

The stage is USD's. `StageView` is what the session reads of it; a call that authors or reloads
(`Call`) reports the notices it fires, each with the stage at that moment, the stage it leaves and
how it ends. `sent` and `log` are not in the source: the frames handed to `send_binary`, in order,
and what each value of `server_seq` stands for.
-/

namespace IdtxCore

/-! ### Messages -/

inductive PrimType where
  | unspecified
  | cube
  | sphere
  | cone
  | cylinder
  | capsule
  | xform
  deriving DecidableEq, Repr

def PrimDispatcher.typeFromName (typeName : String) : PrimType :=
  if typeName = "Cube" then .cube
  else if typeName = "Sphere" then .sphere
  else if typeName = "Cone" then .cone
  else if typeName = "Cylinder" then .cylinder
  else if typeName = "Capsule" then .capsule
  else if typeName = "Xform" then .xform
  else .unspecified

inductive PrimDispatcher.SetActiveStatus where
  | ok
  | alreadyInState
  | invalidPath
  | notFound
  | notDeletable
  | failed
  deriving DecidableEq, Repr

/-- The shape attributes of a `CreatedPrim`; an absent one does not apply to the type. -/
structure PrimAttributes (R : Type) where
  size : Option R := none
  height : Option R := none
  radius : Option R := none
  axis : Option String := none
  deriving DecidableEq, Repr

structure CreatedPrim (Path R : Type) where
  name : String
  primPath : Path
  attributes : PrimAttributes R := {}
  deriving DecidableEq, Repr

inductive AckError where
  | stale
  | invalidBase
  | applyFailed
  | invalidParent
  | unknownPrim
  | notDeletable
  | queueFull
  | sessionClosing
  deriving DecidableEq, Repr

def AckError.text : AckError → String
  | .stale => "stale"
  | .invalidBase => "invalid_base"
  | .applyFailed => "apply_failed"
  | .invalidParent => "invalid_parent"
  | .unknownPrim => "unknown_prim"
  | .notDeletable => "not_deletable"
  | .queueFull => "queue_full"
  | .sessionClosing => "session_closing"

/-- The `message` of a `BaseMessage` the server sends. An `Ack` is ok if it has no error. -/
inductive Message (Path R : Type) where
  | xformBroadcast (primPath : Path) (transform : Transform R)
  | createPrimBroadcast (parentPath : Path) (primName : String) (type : PrimType)
      (attributes : PrimAttributes R)
  | setPrimActiveBroadcast (primPath : Path) (active : Bool)
  | ack (requestId : Nat) (error : Option AckError)
  | snapshotComplete
  deriving DecidableEq, Repr

structure Frame (Path R : Type) where
  message : Message Path R
  serverSeq : Nat
  deriving DecidableEq, Repr

/-! ### Commands -/

structure TransformCommand (Path R : Type) where
  primPath : Path
  /-- `none` is `TRANSFORM_NOT_SET` -/
  transform : Option (Transform R)
  origin : ConnectionId
  requestId : Nat
  baseSeq : Nat
  deriving DecidableEq, Repr

structure CreatePrimCommand (Path : Type) where
  parentPath : Path
  type : PrimType
  origin : ConnectionId
  requestId : Nat
  deriving DecidableEq, Repr

structure SetPrimActiveCommand (Path : Type) where
  primPath : Path
  active : Bool
  origin : ConnectionId
  requestId : Nat
  deriving DecidableEq, Repr

inductive SessionCommand (Path R : Type) where
  | transform (command : TransformCommand Path R)
  | join (connection : ConnectionId)
  | createPrim (command : CreatePrimCommand Path)
  | setPrimActive (command : SetPrimActiveCommand Path)
  | commit
  | reload
  | flush
  | correction (connection : ConnectionId) (primPath : Path)
  deriving DecidableEq, Repr

/-- The connection and the request id that the Ack of a command goes to. -/
def SessionCommand.request {Path R : Type} : SessionCommand Path R → Option (ConnectionId × Nat)
  | .transform command => some (command.origin, command.requestId)
  | .createPrim command => some (command.origin, command.requestId)
  | .setPrimActive command => some (command.origin, command.requestId)
  | _ => none

/-! ### The stage -/

/-- An `SdfPath` of a notice. -/
inductive ObjectPath (Path : Type) where
  | prim (path : Path)
  | property (primPath : Path) (name : String)
  | other
  deriving DecidableEq, Repr

def isXformAttributeName (name : String) : Bool :=
  name == "xformOpOrder" || "xformOp:".toList.isPrefixOf name.toList

namespace ObjectPath
variable {Path : Type}

/-- The prim of a prim or property path. -/
def primPath : ObjectPath Path → Option Path
  | .prim path => some path
  | .property path _ => some path
  | .other => none

/-- The prim of a property path that is an xform attribute. -/
def xformPrim : ObjectPath Path → Option Path
  | .property path name => if isXformAttributeName name then some path else none
  | _ => none

/-- The prim that a resynced path can move. -/
def resyncedPrim : ObjectPath Path → Option Path
  | .prim path => some path
  | path => path.xformPrim

end ObjectPath

/-- `UsdNotice::ObjectsChanged` -/
structure ObjectsChanged (Path : Type) where
  resynced : List (ObjectPath Path)
  changedInfoOnly : List (ObjectPath Path)
  deriving DecidableEq, Repr

/-- A prim spec of the session layer, as the join snapshot reads it. -/
structure LayerPrimSpec (Path R : Type) where
  path : Path
  parentPath : Path
  name : String
  pathElementCount : Nat
  /-- the authored `active` flag -/
  active : Option Bool
  /-- the specifier is `SdfSpecifierDef` -/
  isDef : Bool
  typeName : String
  /-- `TransformDispatcher::ReadAuthoredLocalTransform` -/
  authored : Option (Transform R)
  deriving DecidableEq, Repr

/-- What the session reads of a stage. -/
structure StageView (σ Path R : Type) where
  /-- `session.stage` is null -/
  isNull : σ → Bool
  readResolvedTransform : σ → Path → Option (Transform R)
  /-- the prim exists and is not active -/
  isInactive : σ → Path → Bool
  /-- `SessionLayerHasXformOverride` of the prim's spec on the session layer -/
  hasXformOverride : σ → Path → Bool
  sessionLayerIsEmpty : σ → Bool
  /-- the prim specs of the session layer, in path order -/
  sessionSpecs : σ → List (LayerPrimSpec Path R)
  readSchemaDefaults : PrimType → PrimAttributes R

/-- How a call ends: it returns, or it throws a `std::exception`. -/
inductive Outcome (α : Type) where
  | returned (value : α)
  | threw
  deriving DecidableEq, Repr

/-- A call that may change the stage. -/
structure Call (σ Path α : Type) where
  /-- the notices it fires, each with the stage at that moment -/
  notices : List (σ × ObjectsChanged Path)
  stage : σ
  outcome : Outcome α

/-- The atomics a handler sets around such a call. -/
structure NoticeFlags where
  currentOrigin : ConnectionId := 0
  createInProgress : Bool := false
  setActiveInProgress : Bool := false
  reloadInProgress : Bool := false

/-! ### The session -/

/-- Which of the sending functions a frame went through. -/
inductive Cause where
  | broadcast
  | ack
  | correction
  | snapshot
  | rejection
  deriving DecidableEq, Repr

structure Sent (Path R : Type) where
  connection : ConnectionId
  frame : Frame Path R
  cause : Cause
  deriving DecidableEq, Repr

inductive VersionKind where
  /-- a stage change seen by the listener; its writer (`0`: the server) gets no echo -/
  | transform (writer : ConnectionId)
  /-- a prim created, activated or deactivated -/
  | prim (writer : ConnectionId)
  | correction (connection : ConnectionId)
  deriving DecidableEq, Repr

/-- What one value of `server_seq` stands for. -/
structure Version (Path R : Type) where
  seq : Nat
  kind : VersionKind
  /-- the clients attached at that moment -/
  attached : List ConnectionId
  /-- the prims concerned, each with what there is to send; `none` for an unreadable transform -/
  prims : List (Path × Option (Message Path R))
  deriving DecidableEq, Repr

structure Session (σ Path R : Type) where
  stage : σ
  serverSeq : Nat := 0
  versions : SessionVersions Path := {}
  clients : List ConnectionId := []
  dirty : Bool := false
  sent : List (Sent Path R) := []
  log : List (Version Path R) := []

namespace Session
variable {σ Path R : Type} [LinearOrder Path]

/-- `AttachClient` with a connection id not used before. -/
def attachClient (s : Session σ Path R) (connection : ConnectionId) : Session σ Path R :=
  { s with clients := s.clients ++ [connection] }

def detachClient (s : Session σ Path R) (connection : ConnectionId) : Session σ Path R :=
  { s with clients := s.clients.erase connection }

/-! ### Sending -/

/-- Sends to each of `receivers`, recording the version for each. -/
def sendAll (s : Session σ Path R) (receivers : List ConnectionId) (frame : Frame Path R) :
    Session σ Path R :=
  { s with
    sent := s.sent ++ receivers.map (⟨·, frame, .broadcast⟩)
    versions := receivers.foldl (·.recordSent · frame.serverSeq) s.versions }

def broadcastResolvedTransform (view : StageView σ Path R) (s : Session σ Path R) (primPath : Path)
    (origin : ConnectionId) (serverSeq : Nat) : Session σ Path R :=
  match view.readResolvedTransform s.stage primPath with
  | none => s
  | some v => s.sendAll (s.clients.filter (· ≠ origin)) ⟨.xformBroadcast primPath v, serverSeq⟩

def broadcastToAll (s : Session σ Path R) (message : Message Path R) (serverSeq : Nat) :
    Session σ Path R :=
  s.sendAll s.clients ⟨message, serverSeq⟩

/-- Sends to one attached connection, recording the current version once. -/
def sendToConnection (s : Session σ Path R) (connection : ConnectionId)
    (messages : List (Message Path R)) (cause : Cause) : Session σ Path R :=
  if connection ≠ 0 ∧ connection ∈ s.clients then
    { s with
      sent := s.sent ++ messages.map (⟨connection, ⟨·, s.serverSeq⟩, cause⟩)
      versions := s.versions.recordSent connection s.serverSeq }
  else s

def sendAck (s : Session σ Path R) (connection : ConnectionId) (requestId : Nat)
    (error : Option AckError) : Session σ Path R :=
  s.sendToConnection connection [.ack requestId error] .ack

/-- The Ack of a request that was not queued, sent by `OnMessage`. Its `server_seq` stays `0` because
no state was observed. -/
def reject (s : Session σ Path R) (connection : ConnectionId) (requestId : Nat) (error : AckError) :
    Session σ Path R :=
  { s with sent := s.sent ++ [⟨connection, ⟨.ack requestId (some error), 0⟩, .rejection⟩] }

/-- The frames sent to a connection, in order. -/
def framesTo (s : Session σ Path R) (connection : ConnectionId) : List (Frame Path R) :=
  (s.sent.filter (·.connection = connection)).map (·.frame)

/-- The state of the prim that a correction carries: an inactive prim is still readable, but the
client must deactivate it. -/
def correctionMessage (view : StageView σ Path R) (stage : σ) (primPath : Path) :
    Option (Message Path R) :=
  if view.isInactive stage primPath then some (.setPrimActiveBroadcast primPath false)
  else (view.readResolvedTransform stage primPath).map (.xformBroadcast primPath)

def sendCorrection (view : StageView σ Path R) (s : Session σ Path R) (connection : ConnectionId)
    (primPath : Path) : Session σ Path R :=
  if view.isNull s.stage ∨ connection = 0 then s
  else
    match correctionMessage view s.stage primPath with
    | none => s
    | some message =>
      if connection ∈ s.clients then
        let seq := s.serverSeq + 1
        { s with
          serverSeq := seq
          sent := s.sent ++ [⟨connection, ⟨message, seq⟩, .correction⟩]
          versions := s.versions.recordCorrection connection primPath seq
          log := s.log ++ [⟨seq, .correction connection, s.clients, [(primPath, some message)]⟩] }
      else s

/-! ### `StageNoticeListener` -/

/-- A `std::set` of paths: each once, in order. -/
def pathSet (paths : List Path) : List Path := paths.dedup.insertionSort (· ≤ ·)

def reloadPrims (notice : ObjectsChanged Path) : List Path :=
  pathSet (notice.resynced.filterMap ObjectPath.primPath ++
    notice.changedInfoOnly.filterMap ObjectPath.primPath)

def affectedPrims (notice : ObjectsChanged Path) : List Path :=
  pathSet (notice.changedInfoOnly.filterMap ObjectPath.xformPrim ++
    notice.resynced.filterMap ObjectPath.resyncedPrim)

/-- `RecordChange` and `BroadcastResolvedTransform` of one prim. -/
def announcePrim (view : StageView σ Path R) (writer : ConnectionId) (seq : Nat)
    (s : Session σ Path R) (primPath : Path) : Session σ Path R :=
  broadcastResolvedTransform view { s with versions := s.versions.recordChange primPath seq writer }
    primPath writer seq

/-- One version for the prims of a notice: all broadcasts of the change share it. -/
def announce (view : StageView σ Path R) (writer : ConnectionId) (prims : List Path)
    (s : Session σ Path R) : Session σ Path R :=
  let seq := s.serverSeq + 1
  let s := { s with
    serverSeq := seq
    log := s.log ++ [⟨seq, .transform writer, s.clients,
      prims.map fun p => (p, (view.readResolvedTransform s.stage p).map (.xformBroadcast p))⟩] }
  prims.foldl (announcePrim view writer seq) s

def onObjectsChanged (view : StageView σ Path R) (flags : NoticeFlags) (s : Session σ Path R)
    (notice : ObjectsChanged Path) : Session σ Path R :=
  if flags.createInProgress then s
  else if flags.setActiveInProgress then s
  else if flags.reloadInProgress then
    if reloadPrims notice = [] then s
    -- an override of the session layer wins over the reloaded value: nothing to tell
    else s.announce view 0 ((reloadPrims notice).filter (!view.hasXformOverride s.stage ·))
  else if affectedPrims notice = [] then s
  else s.announce view flags.currentOrigin (affectedPrims notice)

/-- The listener sees each notice with the stage as it is when the notice is fired. -/
def deliver (view : StageView σ Path R) (flags : NoticeFlags)
    (notices : List (σ × ObjectsChanged Path)) (s : Session σ Path R) : Session σ Path R :=
  notices.foldl (fun s n => onObjectsChanged view flags { s with stage := n.1 } n.2) s

/-- Runs a call on the stage. -/
def author {α : Type} (view : StageView σ Path R) (flags : NoticeFlags) (call : Call σ Path α)
    (s : Session σ Path R) : Session σ Path R :=
  { s.deliver view flags call.notices with stage := call.stage }

/-! ### Handlers -/

def handleTransform (view : StageView σ Path R) (call : Call σ Path Bool)
    (command : TransformCommand Path R) (s : Session σ Path R) : Session σ Path R :=
  match s.versions.checkUpdate command.origin command.primPath command.baseSeq with
  | .stale => s.sendAck command.origin command.requestId (some .stale)
  | .invalidBase => s.sendAck command.origin command.requestId (some .invalidBase)
  | .current =>
    let s := s.author view { currentOrigin := command.origin } call
    match call.outcome with
    | .returned true =>
      { s with dirty := true }.sendAck command.origin command.requestId none
    | _ =>
      -- the client already shows its update: tell it what the server has instead
      sendCorrection view (s.sendAck command.origin command.requestId (some .applyFailed))
        command.origin command.primPath

/-- A prim created, activated or deactivated: one version, sent to every client. -/
def announceToAll (s : Session σ Path R) (writer : ConnectionId) (primPath : Path)
    (message : Message Path R) : Session σ Path R :=
  let seq := s.serverSeq + 1
  let s : Session σ Path R := { s with
    dirty := true
    serverSeq := seq
    versions := s.versions.recordChange primPath seq writer
    log := s.log ++ [⟨seq, .prim writer, s.clients, [(primPath, some message)]⟩] }
  s.broadcastToAll message seq

def handleCreatePrim (view : StageView σ Path R) (call : Call σ Path (Option (CreatedPrim Path R)))
    (command : CreatePrimCommand Path) (s : Session σ Path R) : Session σ Path R :=
  if view.isNull s.stage then
    s.sendAck command.origin command.requestId (some .applyFailed)
  else
    let s := s.author view { currentOrigin := command.origin, createInProgress := true } call
    match call.outcome with
    | .returned (some created) =>
      let s := s.announceToAll command.origin created.primPath
        (.createPrimBroadcast command.parentPath created.name command.type created.attributes)
      s.sendAck command.origin command.requestId none
    | _ => s.sendAck command.origin command.requestId (some .invalidParent)

def handleSetPrimActive (view : StageView σ Path R)
    (call : Call σ Path PrimDispatcher.SetActiveStatus) (command : SetPrimActiveCommand Path)
    (s : Session σ Path R) : Session σ Path R :=
  if view.isNull s.stage then
    s.sendAck command.origin command.requestId (some .applyFailed)
  else
    let s := s.author view { currentOrigin := command.origin, setActiveInProgress := true } call
    match call.outcome with
    | .returned .invalidPath | .returned .notFound =>
      s.sendAck command.origin command.requestId (some .unknownPrim)
    | .returned .notDeletable => s.sendAck command.origin command.requestId (some .notDeletable)
    | .returned .failed | .threw => s.sendAck command.origin command.requestId (some .applyFailed)
    | .returned .alreadyInState => s.sendAck command.origin command.requestId none
    | .returned .ok =>
      let s := s.announceToAll command.origin command.primPath
        (.setPrimActiveBroadcast command.primPath command.active)
      s.sendAck command.origin command.requestId none

/-- The creation frames, ancestors before descendants. -/
def createFrames (view : StageView σ Path R) (specs : List (LayerPrimSpec Path R)) :
    List (Message Path R) :=
  let created := specs.filter fun spec =>
    spec.isDef && PrimDispatcher.typeFromName spec.typeName ≠ .unspecified
  (created.insertionSort (fun a b => a.pathElementCount ≤ b.pathElementCount)).map fun spec =>
    let type := PrimDispatcher.typeFromName spec.typeName
    .createPrimBroadcast spec.parentPath spec.name type (view.readSchemaDefaults type)

/-- The join snapshot: creations, authored transforms, soft deletes and the terminal marker. -/
def snapshotFrames (view : StageView σ Path R) (stage : σ) : List (Message Path R) :=
  let specs := view.sessionSpecs stage
  createFrames view specs ++
    specs.filterMap (fun spec => spec.authored.map (.xformBroadcast spec.path)) ++
    (specs.filter (·.active = some false)).map (fun spec => .setPrimActiveBroadcast spec.path false) ++
    [.snapshotComplete]

def handleJoin (view : StageView σ Path R) (connection : ConnectionId) (s : Session σ Path R) :
    Session σ Path R :=
  if view.isNull s.stage then s
  else s.sendToConnection connection (snapshotFrames view s.stage) .snapshot

def reloadRootLayer (view : StageView σ Path R) (call : Call σ Path Bool) (s : Session σ Path R) :
    Session σ Path R :=
  if view.isNull s.stage then s
  else s.author view { reloadInProgress := true } call

/-- `CommitOverrides` with its reload; `false` is a failed write. -/
def handleCommit (view : StageView σ Path R) (commit reload : Call σ Path Bool)
    (s : Session σ Path R) : Session σ Path R :=
  if view.isNull s.stage then s
  else if view.sessionLayerIsEmpty s.stage then s
  else
    let s := s.author view {} commit
    match commit.outcome with
    | .returned true => { s with dirty := false }.reloadRootLayer view reload
    | _ => s

/-- `save` is the result of `SdfLayer::Save`. -/
def handleFlush (view : StageView σ Path R) (save : Outcome Bool) (s : Session σ Path R) :
    Session σ Path R :=
  if view.isNull s.stage then s
  else if s.dirty = false then s
  else { s with dirty := save ≠ .returned true }

/-! ### The stage after a handler -/

/-- What no change of the stage and no notice of the call can break still holds after the call. -/
theorem author_induction {view : StageView σ Path R} {flags : NoticeFlags} {α : Type} {call : Call σ Path α}
    {motive : Session σ Path R → Prop} (hstage : ∀ s stage, motive s → motive { s with stage := stage })
    (hnotice : ∀ n ∈ call.notices, ∀ s : Session σ Path R, s.stage = n.1 → motive s →
      motive (onObjectsChanged view flags s n.2)) {s : Session σ Path R} (h : motive s) :
    motive (s.author view flags call) := by
  refine hstage _ _ (List.foldlRecOn call.notices _ h ?_)
  intro s hs n hn
  exact hnotice n hn _ rfl (hstage s n.1 hs)

section Stage
variable {view : StageView σ Path R}

omit [LinearOrder Path] in
theorem stage_sendAck (s : Session σ Path R) (c : ConnectionId) (r : Nat) (e : Option AckError) :
    (s.sendAck c r e).stage = s.stage := by
  unfold sendAck sendToConnection
  split_ifs <;> rfl

theorem stage_sendCorrection (s : Session σ Path R) (c : ConnectionId) (p : Path) :
    (sendCorrection view s c p).stage = s.stage := by
  unfold sendCorrection
  cases correctionMessage view s.stage p with
  | none => split_ifs <;> rfl
  | some m => split_ifs <;> rfl

variable (view) (s : Session σ Path R)

theorem stage_handleTransform (call : Call σ Path Bool) (command : TransformCommand Path R) :
    (s.handleTransform view call command).stage = s.stage ∨
      (s.handleTransform view call command).stage = call.stage := by
  unfold handleTransform
  split
  · exact .inl (stage_sendAck ..)
  · exact .inl (stage_sendAck ..)
  · right
    dsimp only
    split
    · exact stage_sendAck ..
    · rw [stage_sendCorrection, stage_sendAck]
      rfl

theorem stage_handleCreatePrim (call : Call σ Path (Option (CreatedPrim Path R)))
    (command : CreatePrimCommand Path) :
    (s.handleCreatePrim view call command).stage = s.stage ∨
      (s.handleCreatePrim view call command).stage = call.stage := by
  unfold handleCreatePrim
  split_ifs
  · exact .inl (stage_sendAck ..)
  · right
    dsimp only
    split
    · rw [stage_sendAck]
      rfl
    · rw [stage_sendAck]
      rfl

theorem stage_handleSetPrimActive (call : Call σ Path PrimDispatcher.SetActiveStatus)
    (command : SetPrimActiveCommand Path) :
    (s.handleSetPrimActive view call command).stage =
      if view.isNull s.stage = true then s.stage else call.stage := by
  unfold handleSetPrimActive
  split_ifs
  · exact stage_sendAck ..
  · dsimp only
    split <;> (rw [stage_sendAck]; rfl)

theorem stage_reloadRootLayer (call : Call σ Path Bool) :
    (s.reloadRootLayer view call).stage = s.stage ∨ (s.reloadRootLayer view call).stage = call.stage := by
  unfold reloadRootLayer
  split_ifs
  · exact .inl rfl
  · exact .inr rfl

theorem stage_handleCommit (commit reload : Call σ Path Bool) :
    (s.handleCommit view commit reload).stage = s.stage ∨
      (s.handleCommit view commit reload).stage = commit.stage ∨
      (s.handleCommit view commit reload).stage = reload.stage := by
  unfold handleCommit
  split_ifs
  · exact .inl rfl
  · exact .inl rfl
  · right
    dsimp only
    split
    · exact stage_reloadRootLayer view _ reload
    · exact .inl rfl

omit [LinearOrder Path] in
theorem stage_handleJoin (c : ConnectionId) : (s.handleJoin view c).stage = s.stage := by
  unfold handleJoin sendToConnection
  split_ifs <;> rfl

omit [LinearOrder Path] in
theorem stage_handleFlush (save : Outcome Bool) : (s.handleFlush view save).stage = s.stage := by
  unfold handleFlush
  split_ifs <;> rfl

end Stage

/-- What the calls into USD may do: a call is possible on a stage if the relation holds. -/
structure Env (σ Path R : Type) where
  view : StageView σ Path R
  /-- the path is the empty string -/
  isEmptyPath : Path → Bool
  apply : σ → Path → Option (Transform R) → Call σ Path Bool → Prop
  create : σ → Path → PrimType → Call σ Path (Option (CreatedPrim Path R)) → Prop
  setActive : σ → Path → Bool → Call σ Path PrimDispatcher.SetActiveStatus → Prop
  commit : σ → Call σ Path Bool → Prop
  reload : σ → Call σ Path Bool → Prop

/-- `s'` is the session after `ProcessCommand` has handled `command`. -/
inductive Handles (env : Env σ Path R) (s : Session σ Path R) :
    SessionCommand Path R → Session σ Path R → Prop where
  | transform {command : TransformCommand Path R} {call : Call σ Path Bool} :
      env.apply s.stage command.primPath command.transform call →
      Handles env s (.transform command) (s.handleTransform env.view call command)
  | join {connection : ConnectionId} :
      Handles env s (.join connection) (s.handleJoin env.view connection)
  | createPrim {command : CreatePrimCommand Path} {call : Call σ Path (Option (CreatedPrim Path R))} :
      env.create s.stage command.parentPath command.type call →
      Handles env s (.createPrim command) (s.handleCreatePrim env.view call command)
  | setPrimActive {command : SetPrimActiveCommand Path}
      {call : Call σ Path PrimDispatcher.SetActiveStatus} :
      env.setActive s.stage command.primPath command.active call →
      Handles env s (.setPrimActive command) (s.handleSetPrimActive env.view call command)
  | commit {commit reload : Call σ Path Bool} :
      env.commit s.stage commit → env.reload commit.stage reload →
      Handles env s .commit (s.handleCommit env.view commit reload)
  | reload {call : Call σ Path Bool} :
      env.reload s.stage call →
      Handles env s .reload (s.reloadRootLayer env.view call)
  | flush {save : Outcome Bool} :
      Handles env s .flush (s.handleFlush env.view save)
  | correction {connection : ConnectionId} {primPath : Path} :
      Handles env s (.correction connection primPath)
        (sendCorrection env.view s connection primPath)

end Session

/-! ### A stage of two layers

The smallest stage a session can run on: the transforms of the root file, with overrides and inactive
prims on the session layer. Concrete runs use it. -/

structure TwoLayerStage where
  root : List (Nat × Transform Int)
  overrides : List (Nat × Transform Int) := []
  inactive : List Nat := []
  deriving DecidableEq, Repr

namespace TwoLayerStage

def view : StageView TwoLayerStage Nat Int where
  isNull _ := false
  readResolvedTransform stage p := (stage.root.lookup p).map (stage.overrides.lookup p).getD
  isInactive stage p := (stage.root.lookup p).isSome && stage.inactive.contains p
  hasXformOverride stage p := (stage.overrides.lookup p).isSome
  sessionLayerIsEmpty stage := stage.overrides.isEmpty && stage.inactive.isEmpty
  sessionSpecs stage := (Session.pathSet (stage.overrides.map Prod.fst ++ stage.inactive)).map fun p =>
    { path := p, parentPath := 0, name := "", pathElementCount := 1,
      active := if stage.inactive.contains p then some false else none,
      isDef := false, typeName := "", authored := stage.overrides.lookup p }
  readSchemaDefaults _ := {}

/-- Authors the override of an existing prim. -/
def apply (stage : TwoLayerStage) (p : Nat) (t : Option (Transform Int)) :
    Call TwoLayerStage Nat Bool :=
  match t, stage.root.lookup p with
  | some u, some _ =>
    let stage' := { stage with overrides := (p, u) :: stage.overrides }
    ⟨[(stage', ⟨[], [.property p "xformOpOrder"]⟩)], stage', .returned true⟩
  | _, _ => ⟨[], stage, .returned false⟩

def setActive (stage : TwoLayerStage) (p : Nat) (active : Bool) :
    Call TwoLayerStage Nat PrimDispatcher.SetActiveStatus :=
  if (stage.root.lookup p).isNone then ⟨[], stage, .returned .notFound⟩
  else if stage.inactive.contains p = !active then ⟨[], stage, .returned .alreadyInState⟩
  else
    let inactive := if active then stage.inactive.filter (· ≠ p) else p :: stage.inactive
    let stage' := { stage with inactive := inactive }
    ⟨[(stage', ⟨[.prim p], []⟩)], stage', .returned .ok⟩

/-- A forced reload of the root layer resyncs the prims of the old and of the new file. -/
def reload (stage : TwoLayerStage) (root : List (Nat × Transform Int)) :
    Call TwoLayerStage Nat Bool :=
  let stage' := { stage with root := root }
  ⟨[(stage', ⟨(stage.root ++ root).map (.prim ·.1), []⟩)], stage', .returned true⟩

/-- Prims cannot be created, and the file cannot be written. -/
def env : Session.Env TwoLayerStage Nat Int where
  view := view
  isEmptyPath _ := false
  apply stage p t call := call = stage.apply p t
  create stage _ _ call := call = ⟨[], stage, .returned none⟩
  setActive stage p active call := call = stage.setActive p active
  commit stage call := call = ⟨[], stage, .returned false⟩
  reload stage call := ∃ root, call = stage.reload root

/-- A translation along the x axis. -/
def shift (x : Int) : Transform Int := .separate ⟨x, 0, 0⟩ ⟨0, 0, 0⟩ ⟨1, 1, 1⟩

end TwoLayerStage
end IdtxCore
