import IdtxCore.Lib.Replica
import IdtxCore.Server
import IdtxCore.SessionNews

/-!
# Collaborating clients

Clients that follow the rules of the session protocol, their connections and the server: a client
sends updates with the highest version it has received as the base and shows them at once, and it
applies every `TransformBroadcast` in the order in which they arrive. A connection is a queue in each
direction. A client is admitted when the consumer handles its join; it has then received
`SnapshotComplete` and shows what the server has.

The runs are those of updates, corrections and reloads: a submission is accepted or finds the queue
full, and a correction is not dropped.
-/

namespace IdtxCore

structure Collab (σ Path R : Type) where
  server : Server σ Path R
  /-- requests on the way to `OnMessage` -/
  up : ConnectionId → List (Request Path R) := fun _ => []
  /-- frames on the way to a client -/
  down : ConnectionId → List (Frame Path R) := fun _ => []
  /-- the highest version that a client has received and applied -/
  base : ConnectionId → Nat := fun _ => 0
  shown : ConnectionId → Path → Option (Shown (Transform R) (Transform R)) := fun _ _ => none

namespace Collab
variable {σ Path R : Type} [LinearOrder Path]

inductive Event (Path R : Type) where
  | join (c : ConnectionId)
  | edit (c : ConnectionId) (primPath : Path) (transform : Transform R) (requestId : Nat)
  | receive (c : ConnectionId)
  | server (event : Server.Event Path R)
  | deliver (c : ConnectionId)
  deriving DecidableEq, Repr

/-- The events of a server that only gets transform updates and reloads, and in which no correction
is dropped. -/
def isCollaborative : Server.Event Path R → Bool
  | .submitInternal .reload | .submitRejected _ .queueFull | .submit _ | .reject _
  | .markedAlready _ | .mark _ | .submitCorrection _ | .takeNormal | .takePriority | .handle => true
  | _ => false

/-- What a client does with a message: it applies a `TransformBroadcast`. -/
def display (shown : Path → Option (Shown (Transform R) (Transform R))) :
    Message Path R → Path → Option (Shown (Transform R) (Transform R))
  | .xformBroadcast p v => Function.update shown p (some (.received v))
  | _ => shown

/-- A client's join is handled: it has received everything up to `SnapshotComplete`. -/
def join (env : Session.Env σ Path R) (a : Collab σ Path R) (c : ConnectionId)
    (shown : Path → Option (Shown (Transform R) (Transform R))) : Collab σ Path R :=
  { a with
    server := { a.server with
      session := (a.server.session.attachClient c).handleJoin env.view c
      opened := c :: a.server.opened }
    down := Function.update a.down c []
    base := Function.update a.base c a.server.session.serverSeq
    shown := Function.update a.shown c shown }

/-- A client sends an update and shows it. -/
def edit (a : Collab σ Path R) (c : ConnectionId) (p : Path) (u : Transform R) (requestId : Nat) :
    Collab σ Path R :=
  { a with
    up := Function.update a.up c (a.up c ++ [.xformUpdate p (some u) requestId (a.base c)])
    shown := Function.update a.shown c (Function.update (a.shown c) p (some (.own u))) }

/-- The oldest request of a client reaches `OnMessage`. -/
def receive (a : Collab σ Path R) (c : ConnectionId) (rest : List (Request Path R))
    (b : Server σ Path R) : Collab σ Path R :=
  { a with server := b, up := Function.update a.up c rest }

/-- The server takes a step, and the frames it sends are on their way. -/
def serve (a : Collab σ Path R) (b : Server σ Path R) : Collab σ Path R :=
  { a with
    server := b
    down := fun c => a.down c ++ framesIn c (b.session.sent.drop a.server.session.sent.length) }

/-- The oldest frame reaches a client. -/
def deliver (a : Collab σ Path R) (c : ConnectionId) (frame : Frame Path R)
    (rest : List (Frame Path R)) : Collab σ Path R :=
  { a with
    down := Function.update a.down c rest
    base := Function.update a.base c (max (a.base c) frame.serverSeq)
    shown := Function.update a.shown c (display (a.shown c) frame.message) }

/-- `canon p u` is the transform that the stage resolves for `p` once `u` is applied. -/
inductive Step (env : Session.Env σ Path R) (canon : Path → Transform R → Transform R)
    (a : Collab σ Path R) : Event Path R → Collab σ Path R → Prop where
  | join {c : ConnectionId} {shown : Path → Option (Shown (Transform R) (Transform R))} :
      c ≠ 0 → c ∉ a.server.opened → a.server.busy = none →
      (∀ p v, Session.current env.view a.server.session.stage p = some v →
        (shown p).map (Shown.value (canon p)) = some v) →
      Step env canon a (.join c) (a.join env c shown)
  | edit {c : ConnectionId} {p : Path} {u : Transform R} {requestId : Nat} :
      c ∈ a.server.session.clients →
      Step env canon a (.edit c p u requestId) (a.edit c p u requestId)
  | receive {c : ConnectionId} {request : Request Path R} {rest : List (Request Path R)}
      {b : Server σ Path R} :
      a.up c = request :: rest → Server.Step env a.server (.receive c request) b →
      Step env canon a (.receive c) (a.receive c rest b)
  | server {event : Server.Event Path R} {b : Server σ Path R} :
      isCollaborative event = true → Server.Step env a.server event b →
      Step env canon a (.server event) (a.serve b)
  | deliver {c : ConnectionId} {frame : Frame Path R} {rest : List (Frame Path R)} :
      a.down c = frame :: rest →
      Step env canon a (.deliver c) (a.deliver c frame rest)

def system (env : Session.Env σ Path R) (canon : Path → Transform R → Transform R) :
    Lts.System (Collab σ Path R) where
  init a := ∃ stage, a = { server := { session := { stage := stage } } }
  step a a' := ∃ event, Step env canon a event a'

/-- Nothing is queued or being handled, and nothing is on its way to or from a client. -/
structure Settled (a : Collab σ Path R) : Prop where
  normal : a.server.normal = []
  priority : a.server.priority = []
  busy : a.server.busy = none
  io : ∀ c ∈ a.server.session.clients, a.server.io c = .idle
  up : ∀ c ∈ a.server.session.clients, a.up c = []
  down : ∀ c ∈ a.server.session.clients, a.down c = []

instance [DecidableEq R] (a : Collab σ Path R) : Decidable (Settled a) :=
  decidable_of_iff (a.server.normal = [] ∧ a.server.priority = [] ∧ a.server.busy = none ∧
      ∀ c ∈ a.server.session.clients, a.server.io c = .idle ∧ a.up c = [] ∧ a.down c = [])
    ⟨fun h => ⟨h.1, h.2.1, h.2.2.1, fun c hc => (h.2.2.2 c hc).1, fun c hc => (h.2.2.2 c hc).2.1,
      fun c hc => (h.2.2.2 c hc).2.2⟩,
    fun h => ⟨h.normal, h.priority, h.busy, fun c hc => ⟨h.io c hc, h.up c hc, h.down c hc⟩⟩⟩

/-- Every client shows the server's transform of every existing prim. -/
def Converged (env : Session.Env σ Path R) (canon : Path → Transform R → Transform R)
    (a : Collab σ Path R) : Prop :=
  ∀ c ∈ a.server.session.clients, ∀ p v,
    Session.current env.view a.server.session.stage p = some v →
    (a.shown c p).map (Shown.value (canon p)) = some v

/-- What the session relies on in USD and in the dispatcher. `Apply` and the reload fire their notices
when their change block closes, so every notice sees the final stage. -/
structure Lawful (env : Session.Env σ Path R) (canon : Path → Transform R → Transform R) : Prop where
  not_null : ∀ st, env.view.isNull st = false
  /-- there is no prim at the empty path -/
  empty_path : ∀ st p, env.isEmptyPath p = true → Session.current env.view st p = none
  apply_notices : ∀ st p u call, env.apply st p (some u) call → ∀ n ∈ call.notices, n.1 = call.stage
  /-- an applied update is what the prim resolves to -/
  apply_ok : ∀ st p u call, env.apply st p (some u) call → call.outcome = .returned true →
    Session.current env.view call.stage p = (Session.current env.view st p).map fun _ => canon p u
  /-- a prim that changed is named by a notice -/
  apply_named : ∀ st p u call, env.apply st p (some u) call →
    Session.current env.view call.stage p ≠ Session.current env.view st p →
    ∃ n ∈ call.notices, p ∈ Session.affectedPrims n.2
  reload_notices : ∀ st call, env.reload st call → ∀ n ∈ call.notices, n.1 = call.stage

/-- An update of `p` that moves no other prim: none of them inherits, specializes or references what it
authors. -/
def KeepsOthers (view : StageView σ Path R) (stage : σ) (p : Path) (call : Call σ Path Bool) : Prop :=
  ∀ q, q ≠ p → Session.current view call.stage q = none ∨
    Session.current view call.stage q = Session.current view stage q

/-- A reload that announces what it changes: a prim with a new transform is named by a notice itself,
not by that of an ancestor, and the session layer does not override it. -/
def Announces (view : StageView σ Path R) (stage : σ) (call : Call σ Path Bool) : Prop :=
  ∀ p, Session.current view call.stage p = none ∨
    Session.current view call.stage p = Session.current view stage p ∨
    (view.hasXformOverride call.stage p = false ∧ ∃ n ∈ call.notices, p ∈ Session.reloadPrims n.2)

/-- What a run must keep to for the clients to converge. -/
structure Calm (env : Session.Env σ Path R) (a : Collab σ Path R) (event : Event Path R)
    (a' : Collab σ Path R) : Prop where
  /-- a client edits a prim only if no frame about it, of a version it has already received, is still
  on its way -/
  edit : ∀ c p u r, event = .edit c p u r → ∀ x ∈ xformsOf p (a.down c), a.base c < x.1
  /-- an update that is applied moves its own prim only: what else moves is not sent to the client it came from -/
  update : event = .server .handle → ∀ command, a.server.busy = some (.transform command) →
    a.server.session.versions.checkUpdate command.origin command.primPath command.baseSeq = .current →
    ∃ call, env.apply a.server.session.stage command.primPath command.transform call ∧
      a'.server.session = a.server.session.handleTransform env.view call command ∧
      KeepsOthers env.view a.server.session.stage command.primPath call
  reload : event = .server .handle → a.server.busy = some .reload →
    ∃ call, env.reload a.server.session.stage call ∧
      a'.server.session = a.server.session.reloadRootLayer env.view call ∧
      Announces env.view a.server.session.stage call

/-- The runs all of whose steps are calm. -/
def calmSystem (env : Session.Env σ Path R) (canon : Path → Transform R → Transform R) :
    Lts.System (Collab σ Path R) where
  init := (system env canon).init
  step a a' := ∃ event, Step env canon a event a' ∧ Calm env a event a'

end Collab
end IdtxCore
