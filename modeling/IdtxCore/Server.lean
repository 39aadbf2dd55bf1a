import IdtxCore.SessionOrder

/-!
# The server: `OnMessage` on the connections' threads and the session's consumer

`WebSocketController::OnMessage` submits a request to the session's queue and answers it itself if
the queue does not take it; the consumer takes commands from the two queues and handles them. A
connection's message handler does not overlap with itself or with the close handler, so each
connection is at one point of `OnMessage` (`IoState`). Whether a submission is accepted is up to the
queue and the session's teardown: every `SubmitStatus` is possible at any time.
-/

namespace IdtxCore

/-- A client's message that is answered by an Ack. -/
inductive Request (Path R : Type) where
  | xformUpdate (primPath : Path) (transform : Option (Transform R)) (requestId baseSeq : Nat)
  | createPrim (parentPath : Path) (type : PrimType) (requestId : Nat)
  | setPrimActive (primPath : Path) (active : Bool) (requestId : Nat)
  deriving DecidableEq, Repr

namespace Request
variable {Path R : Type}

def requestId : Request Path R → Nat
  | .xformUpdate _ _ requestId _ => requestId
  | .createPrim _ _ requestId => requestId
  | .setPrimActive _ _ requestId => requestId

/-- The command that the request is submitted as. -/
def command (connection : ConnectionId) : Request Path R → SessionCommand Path R
  | .xformUpdate primPath transform requestId baseSeq =>
    .transform ⟨primPath, transform, connection, requestId, baseSeq⟩
  | .createPrim parentPath type requestId => .createPrim ⟨parentPath, type, connection, requestId⟩
  | .setPrimActive primPath active requestId => .setPrimActive ⟨primPath, active, connection, requestId⟩

theorem request_command (c : ConnectionId) (r : Request Path R) :
    (r.command c).request = some (c, r.requestId) := by
  cases r <;> rfl

end Request

inductive SubmitStatus where
  | accepted
  | queueFull
  | sessionClosing
  | unknownSession
  deriving DecidableEq, Repr

def rejectionReason (status : SubmitStatus) : AckError :=
  if status = .queueFull then .queueFull else .sessionClosing

/-- Where a connection's message handler is. -/
inductive IoState (Path R : Type) where
  | idle
  /-- about to submit the request -/
  | submitting (request : Request Path R)
  /-- about to send the Ack of a request that was not queued -/
  | rejecting (request : Request Path R) (status : SubmitStatus)
  /-- in `SubmitCorrection`, before `queued.exchange(true)` -/
  | correcting (primPath : Path)
  /-- about to submit the correction -/
  | submittingCorrection (primPath : Path)
  /-- about to clear the mark of a correction that was not queued -/
  | clearing (primPath : Path)
  deriving DecidableEq, Repr

structure Server (σ Path R : Type) where
  session : Session σ Path R
  normal : List (SessionCommand Path R) := []
  priority : List (SessionCommand Path R) := []
  /-- the command that the consumer has taken -/
  busy : Option (SessionCommand Path R) := none
  /-- `PendingCorrection::queued` -/
  queued : ConnectionId → Path → Bool := fun _ _ => false
  io : ConnectionId → IoState Path R := fun _ => .idle
  /-- the connections that were ever attached -/
  opened : List ConnectionId := []
  /-- the requests received, oldest first -/
  received : List (ConnectionId × Nat) := []

namespace Server
variable {σ Path R : Type} [LinearOrder Path]

def setIo (a : Server σ Path R) (c : ConnectionId) (io : IoState Path R) : Server σ Path R :=
  { a with io := Function.update a.io c io }

def setQueued (a : Server σ Path R) (c : ConnectionId) (primPath : Path) (queued : Bool) :
    Server σ Path R :=
  { a with queued := Function.update a.queued c (Function.update (a.queued c) primPath queued) }

/-- What `OnMessage` does after it has sent the Ack of a rejected request: an update that found the
queue full gets a correction. -/
def afterRejection (env : Session.Env σ Path R) : Request Path R → SubmitStatus → IoState Path R
  | .xformUpdate primPath _ _ _, .queueFull =>
    if env.isEmptyPath primPath then .idle else .correcting primPath
  | _, _ => .idle

/-- A command that the server submits by itself. -/
def isInternal : SessionCommand Path R → Bool
  | .join _ | .commit | .reload | .flush => true
  | _ => false

/-- The mark that handling a command clears. -/
def clearMark (command : SessionCommand Path R) (a : Server σ Path R) : Server σ Path R :=
  match command with
  | .correction c primPath => a.setQueued c primPath false
  | _ => a

/-- What happens at the server: on the threads of the connections and on the consumer. -/
inductive Event (Path R : Type) where
  | attach (c : ConnectionId)
  | detach (c : ConnectionId)
  | submitInternal (command : SessionCommand Path R)
  | receive (c : ConnectionId) (request : Request Path R)
  | submit (c : ConnectionId)
  | submitRejected (c : ConnectionId) (status : SubmitStatus)
  | reject (c : ConnectionId)
  | markedAlready (c : ConnectionId)
  | sessionGone (c : ConnectionId)
  | mark (c : ConnectionId)
  | submitCorrection (c : ConnectionId)
  | correctionRejected (c : ConnectionId)
  | clear (c : ConnectionId)
  | takeNormal
  | takePriority
  | handle
  deriving DecidableEq, Repr

inductive Step (env : Session.Env σ Path R) (a : Server σ Path R) :
    Event Path R → Server σ Path R → Prop where
  | attach {c : ConnectionId} : c ≠ 0 → c ∉ a.opened →
      Step env a (.attach c) { a with session := a.session.attachClient c, opened := c :: a.opened }
  | detach {c : ConnectionId} : a.io c = .idle →
      Step env a (.detach c) { a with session := a.session.detachClient c }
  | submitInternal {command : SessionCommand Path R} : isInternal command = true →
      Step env a (.submitInternal command) { a with normal := a.normal ++ [command] }
  | receive {c : ConnectionId} {request : Request Path R} : c ∈ a.session.clients → a.io c = .idle →
      Step env a (.receive c request) { a.setIo c (.submitting request) with
        received := a.received ++ [(c, request.requestId)] }
  | submit {c : ConnectionId} {request : Request Path R} : a.io c = .submitting request →
      Step env a (.submit c) { a.setIo c .idle with normal := a.normal ++ [request.command c] }
  | submitRejected {c : ConnectionId} {request : Request Path R} {status : SubmitStatus} :
      a.io c = .submitting request → status ≠ .accepted →
      Step env a (.submitRejected c status) (a.setIo c (.rejecting request status))
  | reject {c : ConnectionId} {request : Request Path R} {status : SubmitStatus} :
      a.io c = .rejecting request status →
      Step env a (.reject c) { a.setIo c (afterRejection env request status) with
        session := a.session.reject c request.requestId (rejectionReason status) }
  | markedAlready {c : ConnectionId} {primPath : Path} : a.io c = .correcting primPath →
      a.queued c primPath = true → Step env a (.markedAlready c) (a.setIo c .idle)
  | sessionGone {c : ConnectionId} {primPath : Path} : a.io c = .correcting primPath →
      Step env a (.sessionGone c) (a.setIo c .idle)
  | mark {c : ConnectionId} {primPath : Path} : a.io c = .correcting primPath →
      a.queued c primPath = false →
      Step env a (.mark c) ((a.setIo c (.submittingCorrection primPath)).setQueued c primPath true)
  | submitCorrection {c : ConnectionId} {primPath : Path} : a.io c = .submittingCorrection primPath →
      Step env a (.submitCorrection c)
        { a.setIo c .idle with priority := a.priority ++ [.correction c primPath] }
  | correctionRejected {c : ConnectionId} {primPath : Path} :
      a.io c = .submittingCorrection primPath →
      Step env a (.correctionRejected c) (a.setIo c (.clearing primPath))
  | clear {c : ConnectionId} {primPath : Path} : a.io c = .clearing primPath →
      Step env a (.clear c) ((a.setIo c .idle).setQueued c primPath false)
  | takeNormal {command : SessionCommand Path R} {rest : List (SessionCommand Path R)} :
      a.busy = none → a.normal = command :: rest →
      Step env a .takeNormal { a with normal := rest, busy := some command }
  | takePriority {command : SessionCommand Path R} {rest : List (SessionCommand Path R)} :
      a.busy = none → a.priority = command :: rest →
      Step env a .takePriority { a with priority := rest, busy := some command }
  | handle {command : SessionCommand Path R} {s' : Session σ Path R} : a.busy = some command →
      Session.Handles env a.session command s' →
      Step env a .handle { clearMark command a with session := s', busy := none }

def system (env : Session.Env σ Path R) : Lts.System (Server σ Path R) where
  init a := ∃ stage, a = { session := { stage := stage } }
  step a a' := ∃ event, Step env a event a'

/-- A connection is detached only between two messages, so whatever `OnMessage` sends, it sends to an
attached client. The session itself makes the steps of a `Consumer`. -/
theorem consumer_of_reachable {env : Session.Env σ Path R} {a : Server σ Path R}
    (h : (system env).Reachable a) :
    ∃ b, (Consumer.system env).Reachable b ∧ b.session = a.session ∧ b.opened = a.opened ∧
      ∀ c, a.io c ≠ .idle → c ∈ a.session.clients := by
  refine h.simulate (fun a (b : Consumer σ Path R) => b.session = a.session ∧ b.opened = a.opened ∧
    ∀ c, a.io c ≠ .idle → c ∈ a.session.clients) ?_ ?_
  · rintro _ ⟨stage, rfl⟩
    exact ⟨_, ⟨stage, rfl⟩, rfl, rfl, by simp⟩
  · rintro a a' b - ⟨hsession, hopened, hio⟩ ⟨event, hs⟩
    -- the message handler of `c` goes on while `c` is attached
    have hset : ∀ c io, a.io c ≠ .idle ∨ c ∈ a.session.clients →
        ∀ d, (a.setIo c io).io d ≠ .idle → d ∈ a.session.clients := by
      intro c io hc d hd
      by_cases hdc : d = c
      · rw [hdc]
        exact hc.elim (hio c) id
      · exact hio d (by simpa [setIo, hdc] using hd)
    cases hs with
    | @attach c h0 hc =>
      refine ⟨{ b with session := b.session.attachClient c, opened := c :: b.opened }, ⟨?_, ?_, ?_⟩,
        .inr (.attach c h0 (hopened ▸ hc))⟩
      · exact congrArg (·.attachClient c) hsession
      · exact congrArg (c :: ·) hopened
      · exact fun d hd => List.mem_append_left _ (hio d hd)
    | @detach c hc =>
      refine ⟨{ b with session := b.session.detachClient c }, ⟨?_, hopened, ?_⟩, .inr (.detach c)⟩
      · exact congrArg (·.detachClient c) hsession
      · intro d hd
        have hdc : d ≠ c := by
          rintro rfl
          exact hd hc
        exact (List.mem_erase_of_ne hdc).2 (hio d hd)
    | submitInternal => exact ⟨b, ⟨hsession, hopened, hio⟩, .inl rfl⟩
    | @receive c request hc => exact ⟨b, ⟨hsession, hopened, hset c _ (.inr hc)⟩, .inl rfl⟩
    | @submit c request hc => exact ⟨b, ⟨hsession, hopened, hset c _ (.inl (by simp [hc]))⟩, .inl rfl⟩
    | @submitRejected c request status hc =>
      exact ⟨b, ⟨hsession, hopened, hset c _ (.inl (by simp [hc]))⟩, .inl rfl⟩
    | @reject c request status hc =>
      have hmem := hio c (by simp [hc])
      refine ⟨{ b with session := b.session.reject c request.requestId (rejectionReason status) },
        ⟨?_, hopened, hset c _ (.inr hmem)⟩, .inr (.reject c _ _ (hsession ▸ hmem))⟩
      exact congrArg (·.reject c request.requestId (rejectionReason status)) hsession
    | @markedAlready c primPath hc =>
      exact ⟨b, ⟨hsession, hopened, hset c _ (.inl (by simp [hc]))⟩, .inl rfl⟩
    | @sessionGone c primPath hc =>
      exact ⟨b, ⟨hsession, hopened, hset c _ (.inl (by simp [hc]))⟩, .inl rfl⟩
    | @mark c primPath hc => exact ⟨b, ⟨hsession, hopened, hset c _ (.inl (by simp [hc]))⟩, .inl rfl⟩
    | @submitCorrection c primPath hc =>
      exact ⟨b, ⟨hsession, hopened, hset c _ (.inl (by simp [hc]))⟩, .inl rfl⟩
    | @correctionRejected c primPath hc =>
      exact ⟨b, ⟨hsession, hopened, hset c _ (.inl (by simp [hc]))⟩, .inl rfl⟩
    | @clear c primPath hc => exact ⟨b, ⟨hsession, hopened, hset c _ (.inl (by simp [hc]))⟩, .inl rfl⟩
    | takeNormal => exact ⟨b, ⟨hsession, hopened, hio⟩, .inl rfl⟩
    | takePriority => exact ⟨b, ⟨hsession, hopened, hio⟩, .inl rfl⟩
    | @handle command s' hbusy hh =>
      have hclients : s'.clients = a.session.clients := hh.clients
      refine ⟨_, ⟨rfl, ?_, ?_⟩, .inr (.handle command s' (hsession ▸ hh))⟩
      · cases command <;> exact hopened
      · intro d hd
        show d ∈ s'.clients
        rw [hclients]
        exact hio d (by cases command <;> exact hd)

end Server
end IdtxCore
