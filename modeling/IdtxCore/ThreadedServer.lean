import IdtxCore.SchedulerIdle
import IdtxCore.SchedulerRefinement
import IdtxCore.ServerAcks

/-!
# The server on its threads

`Server` takes the submission of a request for one step and its queues for lists. Here `OnMessage` and the session's
consumer run on `SessionCommandScheduler` itself, one atomic operation a step: a message handler stays in its call
of `TrySubmit` or `TrySubmitPriority` while the scheduler's threads go on, and a command is handled where the
scheduler records the end of its handler.

`Serves` relates a state to one of `Server`: what is reserved in a mailbox and not popped is in the queue, and a
handler whose submission is in a queue counts as returned. `Serves.schedule` goes through what the scheduler can
record; every run is then a run of `Server` (`serves_of_reachable`).
-/

namespace IdtxCore

/-- Where a connection's message handler is. -/
inductive CallPlace (Path R : Type) where
  | idle
  /-- about to call `TrySubmit` -/
  | submitting (request : Request Path R)
  /-- in `TrySubmit`, as the submission `id` -/
  | called (request : Request Path R) (id : Nat)
  | rejecting (request : Request Path R) (status : SubmitStatus)
  | correcting (primPath : Path)
  /-- about to call `TrySubmitPriority` -/
  | submittingCorrection (primPath : Path)
  /-- in `TrySubmitPriority`, as the submission `id` -/
  | calledCorrection (primPath : Path) (id : Nat)
  | clearing (primPath : Path)

def toSubmitStatus : Scheduler.CommandAdmissionStatus → SubmitStatus
  | .accepted => .accepted
  | .queueFull => .queueFull
  | .stopping => .sessionClosing

theorem toSubmitStatus_ne_accepted {status : Scheduler.CommandAdmissionStatus} (h : status ≠ .accepted) :
    toSubmitStatus status ≠ .accepted := by
  cases status with
  | accepted => exact absurd rfl h
  | queueFull | stopping => exact nofun

namespace CallPlace
variable {Path R : Type}

/-- The submission that the handler of `c` waits for. -/
def submission (c : ConnectionId) : CallPlace Path R → Option (Scheduler.Submission (SessionCommand Path R))
  | .called request id => some ⟨id, .normal, request.command c⟩
  | .calledCorrection primPath id => some ⟨id, .priority, .correction c primPath⟩
  | _ => none

/-- The handler when its submission has returned. -/
def afterReturn (status : Scheduler.CommandAdmissionStatus) : CallPlace Path R → CallPlace Path R
  | .called request _ => if status = .accepted then .idle else .rejecting request (toSubmitStatus status)
  | .calledCorrection primPath _ => if status = .accepted then .idle else .clearing primPath
  | place => place

end CallPlace

/-- The state of `Server`, with the scheduler in the place of the queues. -/
structure ThreadedServer (T σ Path R : Type) where
  scheduler : Scheduler.State T (SessionCommand Path R) := .new
  session : Session σ Path R
  queued : ConnectionId → Path → Bool := fun _ _ => false
  io : ConnectionId → CallPlace Path R := fun _ => .idle
  opened : List ConnectionId := []
  received : List (ConnectionId × Nat) := []

namespace ThreadedServer
variable {T σ Path R : Type} [LinearOrder Path]

def setIo (a : ThreadedServer T σ Path R) (c : ConnectionId) (io : CallPlace Path R) : ThreadedServer T σ Path R :=
  { a with io := Function.update a.io c io }

def setQueued (a : ThreadedServer T σ Path R) (c : ConnectionId) (primPath : Path) (queued : Bool) :
    ThreadedServer T σ Path R :=
  { a with queued := Function.update a.queued c (Function.update (a.queued c) primPath queued) }

def afterRejection (env : Session.Env σ Path R) : Request Path R → SubmitStatus → CallPlace Path R
  | .xformUpdate primPath _ _ _, .queueFull =>
    if env.isEmptyPath primPath then .idle else .correcting primPath
  | _, _ => .idle

def clearMark (command : SessionCommand Path R) (a : ThreadedServer T σ Path R) : ThreadedServer T σ Path R :=
  match command with
  | .correction c primPath => a.setQueued c primPath false
  | _ => a

/-- What happens at the server when the scheduler records an event. -/
inductive Reacts (env : Session.Env σ Path R) (a : ThreadedServer T σ Path R) :
    Scheduler.Event (SessionCommand Path R) → ThreadedServer T σ Path R → Prop where
  | callRequest {c : ConnectionId} {request : Request Path R} {id : Nat} : a.io c = .submitting request →
      Reacts env a (.called ⟨id, .normal, request.command c⟩) (a.setIo c (.called request id))
  | callCorrection {c : ConnectionId} {primPath : Path} {id : Nat} : a.io c = .submittingCorrection primPath →
      Reacts env a (.called ⟨id, .priority, .correction c primPath⟩) (a.setIo c (.calledCorrection primPath id))
  /-- The server submits a command by itself. -/
  | callInternal {command : SessionCommand Path R} {id : Nat} : Server.isInternal command = true →
      Reacts env a (.called ⟨id, .normal, command⟩) a
  | push {x : Scheduler.Submission (SessionCommand Path R)} : Reacts env a (.pushed x) a
  | returned {c : ConnectionId} {x : Scheduler.Submission (SessionCommand Path R)}
      {status : Scheduler.CommandAdmissionStatus} : (a.io c).submission c = some x →
      Reacts env a (.returned x status) (a.setIo c ((a.io c).afterReturn status))
  | returnedInternal {x : Scheduler.Submission (SessionCommand Path R)}
      {status : Scheduler.CommandAdmissionStatus} : Server.isInternal x.command = true →
      Reacts env a (.returned x status) a
  | start {x : Scheduler.Submission (SessionCommand Path R)} : Reacts env a (.started x) a
  | finish {x : Scheduler.Submission (SessionCommand Path R)} {s' : Session σ Path R} :
      Session.Handles env a.session x.command s' →
      Reacts env a (.finished x) { clearMark x.command a with session := s' }

inductive Step [DecidableEq T] (env : Session.Env σ Path R) (a : ThreadedServer T σ Path R) :
    ThreadedServer T σ Path R → Prop where
  /-- A thread makes a step that the scheduler does not record. -/
  | silent {s' : Scheduler.State T (SessionCommand Path R)} : Scheduler.Step a.scheduler s' →
      s'.trace = a.scheduler.trace → Step env a { a with scheduler := s' }
  | schedule {s' : Scheduler.State T (SessionCommand Path R)} {e : Scheduler.Event (SessionCommand Path R)}
      {a' : ThreadedServer T σ Path R} : Scheduler.Step a.scheduler s' →
      s'.trace = a.scheduler.trace ++ [e] → Reacts env a e a' → Step env a { a' with scheduler := s' }
  | attach {c : ConnectionId} : c ≠ 0 → c ∉ a.opened →
      Step env a { a with session := a.session.attachClient c, opened := c :: a.opened }
  | detach {c : ConnectionId} : a.io c = .idle →
      Step env a { a with session := a.session.detachClient c }
  | receive {c : ConnectionId} (request : Request Path R) : c ∈ a.session.clients → a.io c = .idle →
      Step env a { a.setIo c (.submitting request) with received := a.received ++ [(c, request.requestId)] }
  /-- The session is no longer in the map. -/
  | unknownSession {c : ConnectionId} {request : Request Path R} : a.io c = .submitting request →
      Step env a (a.setIo c (.rejecting request .unknownSession))
  | reject {c : ConnectionId} {request : Request Path R} {status : SubmitStatus} :
      a.io c = .rejecting request status →
      Step env a { a.setIo c (afterRejection env request status) with
        session := a.session.reject c request.requestId (rejectionReason status) }
  | markedAlready {c : ConnectionId} {primPath : Path} : a.io c = .correcting primPath →
      a.queued c primPath = true → Step env a (a.setIo c .idle)
  | sessionGone {c : ConnectionId} {primPath : Path} : a.io c = .correcting primPath →
      Step env a (a.setIo c .idle)
  | mark {c : ConnectionId} {primPath : Path} : a.io c = .correcting primPath → a.queued c primPath = false →
      Step env a ((a.setIo c (.submittingCorrection primPath)).setQueued c primPath true)
  | clear {c : ConnectionId} {primPath : Path} : a.io c = .clearing primPath →
      Step env a ((a.setIo c .idle).setQueued c primPath false)

def system (T : Type) [DecidableEq T] (env : Session.Env σ Path R) : Lts.System (ThreadedServer T σ Path R) where
  init a := ∃ stage, a = { session := { stage := stage } }
  step := Step env

end ThreadedServer

/-! ### Handlers in the middle of a submission -/

namespace CallPlace
variable {Path R : Type} {c d : ConnectionId} {place place' : CallPlace Path R}
  {x : Scheduler.Submission (SessionCommand Path R)}

/-- The handler in `Server`, as long as its submission is in no queue. -/
def unpushed : CallPlace Path R → IoState Path R
  | .idle => .idle
  | .submitting request | .called request _ => .submitting request
  | .rejecting request status => .rejecting request status
  | .correcting primPath => .correcting primPath
  | .submittingCorrection primPath | .calledCorrection primPath _ => .submittingCorrection primPath
  | .clearing primPath => .clearing primPath

theorem submission_inj (h : place.submission c = some x) (h' : place'.submission d = some x) : c = d := by
  cases place with
  | called request id =>
    obtain rfl := Option.some.inj h
    cases place' with
    | called request' id' =>
      have hcommand : request'.command d = request.command c :=
        congrArg Scheduler.Submission.command (Option.some.inj h')
      have hrequest := congrArg SessionCommand.request hcommand
      rw [Request.request_command, Request.request_command] at hrequest
      exact (congrArg Prod.fst (Option.some.inj hrequest)).symm
    | calledCorrection primPath id' => cases Option.some.inj h'
    | _ => cases h'
  | calledCorrection primPath id =>
    obtain rfl := Option.some.inj h
    cases place' with
    | called request' id' => cases Option.some.inj h'
    | calledCorrection primPath' id' =>
      cases Option.some.inj h'
      rfl
    | _ => cases h'
  | _ => cases h

theorem isInternal_submission (h : place.submission c = some x) : Server.isInternal x.command = false := by
  cases place with
  | called request id =>
    obtain rfl := Option.some.inj h
    cases request <;> rfl
  | calledCorrection primPath id =>
    obtain rfl := Option.some.inj h
    rfl
  | _ => cases h

theorem submission_afterReturn (h : place.submission c = some x) (status : Scheduler.CommandAdmissionStatus) :
    (place.afterReturn status).submission c = none := by
  cases place with
  | called request id =>
    simp only [afterReturn]
    split_ifs <;> rfl
  | calledCorrection primPath id =>
    simp only [afterReturn]
    split_ifs <;> rfl
  | _ => cases h

theorem afterReturn_accepted (h : place.submission c = some x) :
    (place.afterReturn .accepted).unpushed = .idle := by
  cases place with
  | called request id => rfl
  | calledCorrection primPath id => rfl
  | _ => cases h

/-- The handler of `c` is, in `Server`, at `io`. -/
def Matches (q : Scheduler.Queues (SessionCommand Path R)) (c : ConnectionId) (place : CallPlace Path R)
    (io : IoState Path R) : Prop :=
  match place.submission c with
  | none => io = place.unpushed
  | some x => (x ∈ q.calling ∧ io = place.unpushed) ∨ (x ∈ q.returning ∧ io = .idle)

variable {q q' : Scheduler.Queues (SessionCommand Path R)} {io : IoState Path R}

theorem Matches.of_none (h : place.submission c = none) (hio : io = place.unpushed) :
    place.Matches q c io := by
  unfold Matches
  rw [h]
  exact hio

theorem Matches.eq_of_none (hm : place.Matches q c io) (h : place.submission c = none) : io = place.unpushed := by
  unfold Matches at hm
  rw [h] at hm
  exact hm

theorem Matches.of_some (hm : place.Matches q c io) (h : place.submission c = some x) :
    (x ∈ q.calling ∧ io = place.unpushed) ∨ (x ∈ q.returning ∧ io = .idle) := by
  unfold Matches at hm
  rw [h] at hm
  exact hm

theorem Matches.mono (hm : place.Matches q c io)
    (hcalling : ∀ x, place.submission c = some x → x ∈ q.calling → x ∈ q'.calling)
    (hreturning : ∀ x, place.submission c = some x → x ∈ q.returning → x ∈ q'.returning) :
    place.Matches q' c io := by
  cases h : place.submission c with
  | none => exact .of_none h (hm.eq_of_none h)
  | some x =>
    unfold Matches
    rw [h]
    exact (hm.of_some h).imp (fun hx => ⟨hcalling x h hx.1, hx.2⟩) fun hx => ⟨hreturning x h hx.1, hx.2⟩

end CallPlace

namespace Server
variable {σ Path R : Type} [LinearOrder Path] {env : Session.Env σ Path R} {b : Server σ Path R} {c : ConnectionId}
  {place : CallPlace Path R} {x : Scheduler.Submission (SessionCommand Path R)}

def queue (b : Server σ Path R) : Scheduler.Kind → List (SessionCommand Path R)
  | .normal => b.normal
  | .priority => b.priority

def enqueue (b : Server σ Path R) (x : Scheduler.Submission (SessionCommand Path R)) : Server σ Path R :=
  match x.kind with
  | .normal => { b with normal := b.normal ++ [x.command] }
  | .priority => { b with priority := b.priority ++ [x.command] }

omit [LinearOrder Path] in
theorem queue_enqueue (b : Server σ Path R) (x : Scheduler.Submission (SessionCommand Path R)) (k : Scheduler.Kind) :
    (b.enqueue x).queue k = b.queue k ++ if k = x.kind then [x.command] else [] := by
  obtain ⟨id, kind, command⟩ := x
  cases kind <;> cases k <;> simp [enqueue, queue]

variable (env) in
theorem step_enqueue (h : place.submission c = some x) (hio : b.io c = place.unpushed) :
    ∃ event, Step env b event ((b.setIo c .idle).enqueue x) := by
  cases place with
  | called request id =>
    obtain rfl := Option.some.inj h
    exact ⟨_, .submit hio⟩
  | calledCorrection primPath id =>
    obtain rfl := Option.some.inj h
    exact ⟨_, .submitCorrection hio⟩
  | _ => cases h

theorem step_rejected (h : place.submission c = some x) (hio : b.io c = place.unpushed)
    {status : Scheduler.CommandAdmissionStatus} (hstatus : status ≠ .accepted) :
    ∃ event, Step env b event (b.setIo c (place.afterReturn status).unpushed) := by
  cases place with
  | called request id =>
    rw [CallPlace.afterReturn, if_neg hstatus]
    exact ⟨_, .submitRejected hio (toSubmitStatus_ne_accepted hstatus)⟩
  | calledCorrection primPath id =>
    rw [CallPlace.afterReturn, if_neg hstatus]
    exact ⟨_, .correctionRejected hio⟩
  | _ => cases h

end Server

/-! ### The simulation -/

namespace ThreadedServer
variable {T σ Path R : Type} [Fintype T] [DecidableEq T] [LinearOrder Path] {env : Session.Env σ Path R}
  {a a' : ThreadedServer T σ Path R} {b : Server σ Path R} {q q' : Scheduler.Queues (SessionCommand Path R)}

open Scheduler (Submission Queues)

/-- The server in state `a`, whose scheduler stands for the queues `q`, is `b`. -/
structure Serves (a : ThreadedServer T σ Path R) (b : Server σ Path R) (q : Queues (SessionCommand Path R)) :
    Prop where
  implements : Scheduler.Implements a.scheduler q
  session : b.session = a.session
  queued : b.queued = a.queued
  opened : b.opened = a.opened
  received : b.received = a.received
  queue : ∀ k, b.queue k = (q.waiting k).map Submission.command
  busy : b.busy = q.running.map Submission.command
  numbered : q.Numbered
  owned : ∀ x ∈ q.calling + q.returning, (Server.isInternal x.command = true ∧ x.kind = .normal) ∨
    ∃ c, (a.io c).submission c = some x
  io : ∀ c, (a.io c).Matches q c (b.io c)

namespace Serves
variable {s' : Scheduler.State T (SessionCommand Path R)} {c : ConnectionId} {place : CallPlace Path R}
  {x : Submission (SessionCommand Path R)}

omit [DecidableEq T] [LinearOrder Path] in
/-- A handler that is in no submission goes to a place where it is in none. -/
theorem setIo (h : Serves a b q) (hc : (a.io c).submission c = none) (place : CallPlace Path R)
    (hplace : place.submission c = none) : Serves (a.setIo c place) (b.setIo c place.unpushed) q := by
  refine { h with owned := fun x hx => ?_, io := fun d => ?_ }
  · rcases h.owned x hx with hinternal | ⟨d, hd⟩
    · exact .inl hinternal
    · have hne : d ≠ c := by
        rintro rfl
        rw [hc] at hd
        cases hd
      exact .inr ⟨d, by simpa [ThreadedServer.setIo, hne] using hd⟩
  · by_cases hd : d = c
    · subst hd
      exact .of_none (by simpa [ThreadedServer.setIo] using hplace) (by simp [ThreadedServer.setIo, Server.setIo])
    · simpa [ThreadedServer.setIo, Server.setIo, hd] using h.io d

omit [DecidableEq T] [LinearOrder Path] in
/-- A handler calls `TrySubmit` or `TrySubmitPriority`. -/
theorem called (h : Serves a b q) (hq : Queues.Step q (.called x) q') (hi : Scheduler.Implements s' q')
    (hc : (a.io c).submission c = none) (hplace : place.submission c = some x)
    (hunpushed : place.unpushed = (a.io c).unpushed) :
    Serves { a.setIo c place with scheduler := s' } b q' := by
  have hnumbered := h.numbered.step hq
  cases hq
  refine { h with implements := hi, numbered := hnumbered, owned := fun y hy => ?_, io := fun d => ?_ }
  · rw [Multiset.cons_add, Multiset.mem_cons] at hy
    rcases hy with rfl | hy
    · exact .inr ⟨c, by simpa [ThreadedServer.setIo] using hplace⟩
    · rcases h.owned y hy with hinternal | ⟨d, hd⟩
      · exact .inl hinternal
      · have hne : d ≠ c := by
          rintro rfl
          rw [hc] at hd
          cases hd
        exact .inr ⟨d, by simpa [ThreadedServer.setIo, hne] using hd⟩
  · by_cases hd : d = c
    · subst hd
      have hio := (h.io d).eq_of_none hc
      simp only [ThreadedServer.setIo, Function.update_self, CallPlace.Matches, hplace]
      exact .inl ⟨Multiset.mem_cons_self _ _, hio.trans hunpushed.symm⟩
    · simp only [ThreadedServer.setIo, Function.update_of_ne hd]
      exact (h.io d).mono (fun y _ hy => Multiset.mem_cons_of_mem hy) fun y _ hy => hy

omit [DecidableEq T] [LinearOrder Path] in
theorem calledInternal (h : Serves a b q) (hq : Queues.Step q (.called x) q') (hi : Scheduler.Implements s' q')
    (hx : Server.isInternal x.command = true) (hkind : x.kind = .normal) :
    Serves { a with scheduler := s' } b q' := by
  have hnumbered := h.numbered.step hq
  cases hq
  refine { h with implements := hi, numbered := hnumbered, owned := fun y hy => ?_, io := fun d => ?_ }
  · rw [Multiset.cons_add, Multiset.mem_cons] at hy
    rcases hy with rfl | hy
    · exact .inl ⟨hx, hkind⟩
    · exact h.owned y hy
  · exact (h.io d).mono (fun y _ hy => Multiset.mem_cons_of_mem hy) fun y _ hy => hy

variable (env) in
omit [DecidableEq T] in
/-- A submission is put into its queue: the handler that waits for it counts as returned from here on. -/
theorem pushed (h : Serves a b q) (hq : Queues.Step q (.pushed x) q') (hi : Scheduler.Implements s' q') :
    ∃ b' event, Serves { a with scheduler := s' } b' q' ∧ Server.Step env b event b' := by
  have hnumbered := h.numbered.step hq
  cases hq with
  | @push _ calling hcalling hlength =>
    have hx : x ∈ q.calling + q.returning := by simp [hcalling]
    have hqueue : ∀ k, b.queue k ++ (if k = x.kind then [x.command] else []) =
        (Function.update q.waiting x.kind (q.waiting x.kind ++ [x]) k).map Submission.command := by
      intro k
      rw [h.queue]
      by_cases hk : k = x.kind
      · subst hk
        simp
      · simp [hk]
    have hmono : ∀ d, (a.io d).submission d ≠ some x →
        (a.io d).Matches { q with
          calling := calling
          waiting := Function.update q.waiting x.kind (q.waiting x.kind ++ [x])
          returning := x ::ₘ q.returning } d (b.io d) := by
      intro d hd
      refine (h.io d).mono (fun y hy hmem => ?_) fun y _ hmem => Multiset.mem_cons_of_mem hmem
      rw [hcalling, Multiset.mem_cons] at hmem
      refine hmem.resolve_left ?_
      rintro rfl
      exact hd hy
    have howned : ∀ y ∈ calling + x ::ₘ q.returning, (Server.isInternal y.command = true ∧ y.kind = .normal) ∨
        ∃ d, (a.io d).submission d = some y := by
      intro y hy
      exact h.owned y (by simpa [hcalling, or_comm, or_left_comm] using hy)
    rcases h.owned x hx with ⟨hinternal, hkind⟩ | ⟨c, hc⟩
    · refine ⟨{ b with normal := b.normal ++ [x.command] }, _, ?_, .submitInternal hinternal⟩
      refine { h with implements := hi, numbered := hnumbered, queue := fun k => ?_, owned := howned, io := ?_ }
      · rw [← hqueue, hkind]
        cases k <;> simp [Server.queue]
      · intro d
        refine hmono d fun hd => ?_
        rw [CallPlace.isInternal_submission hd] at hinternal
        cases hinternal
    · have hio : b.io c = (a.io c).unpushed := by
        rcases (h.io c).of_some hc with ⟨-, hio⟩ | ⟨hmem, -⟩
        · exact hio
        · exact absurd hmem (h.numbered.disjoint (by simp [hcalling]))
      obtain ⟨event, hstep⟩ := Server.step_enqueue env hc hio
      refine ⟨_, event, ?_, hstep⟩
      have hsame : ((b.setIo c .idle).enqueue x).session = b.session ∧
          ((b.setIo c .idle).enqueue x).queued = b.queued ∧ ((b.setIo c .idle).enqueue x).opened = b.opened ∧
          ((b.setIo c .idle).enqueue x).received = b.received ∧ ((b.setIo c .idle).enqueue x).busy = b.busy ∧
          ((b.setIo c .idle).enqueue x).io = Function.update b.io c .idle := by
        unfold Server.enqueue
        cases x.kind <;> exact ⟨rfl, rfl, rfl, rfl, rfl, rfl⟩
      obtain ⟨hsession, hqueued, hopened, hreceived, hbusy, hioEq⟩ := hsame
      refine ⟨hi, hsession.trans h.session, hqueued.trans h.queued, hopened.trans h.opened,
        hreceived.trans h.received, fun k => ?_, hbusy.trans h.busy, hnumbered, howned, fun d => ?_⟩
      · rw [Server.queue_enqueue, ← hqueue]
        rfl
      · rw [hioEq]
        by_cases hd : d = c
        · subst hd
          simp only [Function.update_self, CallPlace.Matches, hc]
          exact .inr ⟨Multiset.mem_cons_self _ _, trivial⟩
        · rw [Function.update_of_ne hd]
          exact hmono d fun hd' => hd (CallPlace.submission_inj hd' hc)

/-- `q'` is `q` without the submission `x`. -/
structure Leaves (x : Submission (SessionCommand Path R)) (q q' : Queues (SessionCommand Path R)) : Prop where
  total : q.calling + q.returning = x ::ₘ (q'.calling + q'.returning)
  calling : ∀ y, y ≠ x → y ∈ q.calling → y ∈ q'.calling
  returning : ∀ y, y ≠ x → y ∈ q.returning → y ∈ q'.returning
  waiting : q'.waiting = q.waiting
  running : q'.running = q.running

omit [LinearOrder Path] in
theorem leaves_of_returned {status : Scheduler.CommandAdmissionStatus}
    (hq : Queues.Step q (.returned x status) q') : Leaves x q q' := by
  cases hq with
  | accept hreturning =>
    refine ⟨by simp [hreturning], fun y _ hy => hy, fun y hne hy => ?_, rfl, rfl⟩
    rw [hreturning, Multiset.mem_cons] at hy
    exact hy.resolve_left hne
  | reject _ hcalling =>
    refine ⟨by simp [hcalling], fun y hne hy => ?_, fun y _ hy => hy, rfl, rfl⟩
    rw [hcalling, Multiset.mem_cons] at hy
    exact hy.resolve_left hne

omit [DecidableEq T] [LinearOrder Path] in
/-- The handler of `c` goes on when its submission has returned. -/
theorem leave (h : Serves a b q) (hl : Leaves x q q') (hnumbered : q'.Numbered) (hi : Scheduler.Implements s' q')
    (hc : (a.io c).submission c = some x) (status : Scheduler.CommandAdmissionStatus) :
    Serves { a.setIo c ((a.io c).afterReturn status) with scheduler := s' }
      (b.setIo c ((a.io c).afterReturn status).unpushed) q' := by
  have hnotMem : x ∉ q'.calling + q'.returning := by
    have hnodup := Multiset.Nodup.of_map _ h.numbered.nodup
    rw [hl.total] at hnodup
    exact (Multiset.nodup_cons.1 hnodup).1
  refine { h with
    implements := hi
    queue := fun k => hl.waiting ▸ h.queue k
    busy := hl.running ▸ h.busy
    numbered := hnumbered
    owned := fun y hy => ?_
    io := fun d => ?_ }
  · rcases h.owned y (hl.total ▸ Multiset.mem_cons_of_mem hy) with hinternal | ⟨d, hd⟩
    · exact .inl hinternal
    · have hne : d ≠ c := by
        rintro rfl
        rw [hc] at hd
        exact hnotMem (Option.some.inj hd ▸ hy)
      exact .inr ⟨d, by simpa [ThreadedServer.setIo, hne] using hd⟩
  · by_cases hd : d = c
    · subst hd
      refine .of_none ?_ (by simp [ThreadedServer.setIo, Server.setIo])
      simpa [ThreadedServer.setIo] using CallPlace.submission_afterReturn hc status
    · simp only [ThreadedServer.setIo, Server.setIo, Function.update_of_ne hd]
      have hne : ∀ y, (a.io d).submission d = some y → y ≠ x := by
        rintro y hy rfl
        exact hd (CallPlace.submission_inj hy hc)
      exact (h.io d).mono (fun y hy => hl.calling y (hne y hy)) fun y hy => hl.returning y (hne y hy)

omit [DecidableEq T] in
theorem returned (h : Serves a b q) {status : Scheduler.CommandAdmissionStatus}
    (hq : Queues.Step q (.returned x status) q') (hi : Scheduler.Implements s' q')
    (hc : (a.io c).submission c = some x) :
    ∃ b', Serves { a.setIo c ((a.io c).afterReturn status) with scheduler := s' } b' q' ∧
      (b' = b ∨ ∃ event, Server.Step env b event b') := by
  refine ⟨_, h.leave (leaves_of_returned hq) (h.numbered.step hq) hi hc status, ?_⟩
  cases hq with
  | accept hreturning =>
    left
    have hidle : b.io c = .idle := by
      rcases (h.io c).of_some hc with ⟨hmem, -⟩ | ⟨-, hidle⟩
      · exact absurd (show x ∈ q.returning by simp [hreturning]) (h.numbered.disjoint hmem)
      · exact hidle
    rw [CallPlace.afterReturn_accepted hc, ← hidle, Server.setIo, Function.update_eq_self]
  | reject hstatus hcalling =>
    right
    have hio : b.io c = (a.io c).unpushed := by
      rcases (h.io c).of_some hc with ⟨-, hio⟩ | ⟨hmem, -⟩
      · exact hio
      · exact absurd hmem (h.numbered.disjoint (by simp [hcalling]))
    exact Server.step_rejected hc hio hstatus

omit [DecidableEq T] [LinearOrder Path] in
theorem returnedInternal (h : Serves a b q) {status : Scheduler.CommandAdmissionStatus}
    (hq : Queues.Step q (.returned x status) q') (hi : Scheduler.Implements s' q')
    (hx : Server.isInternal x.command = true) : Serves { a with scheduler := s' } b q' := by
  have hl := leaves_of_returned hq
  refine { h with
    implements := hi
    queue := fun k => hl.waiting ▸ h.queue k
    busy := hl.running ▸ h.busy
    numbered := h.numbered.step hq
    owned := fun y hy => h.owned y (hl.total ▸ Multiset.mem_cons_of_mem hy)
    io := fun d => ?_ }
  have hne : ∀ y, (a.io d).submission d = some y → y ≠ x := by
    rintro y hy rfl
    rw [CallPlace.isInternal_submission hy] at hx
    cases hx
  exact (h.io d).mono (fun y hy => hl.calling y (hne y hy)) fun y hy => hl.returning y (hne y hy)

variable (env) in
omit [DecidableEq T] in
/-- The consumer takes a command. -/
theorem started (h : Serves a b q) (hq : Queues.Step q (.started x) q') (hi : Scheduler.Implements s' q') :
    ∃ b' event, Serves { a with scheduler := s' } b' q' ∧ Server.Step env b event b' := by
  have hnumbered := h.numbered.step hq
  cases hq with
  | @start _ rest hnone hhead =>
    have hbusy : b.busy = none := by rw [h.busy, hnone]; rfl
    obtain ⟨id, kind, command⟩ := x
    have htaken := h.queue kind
    rw [hhead] at htaken
    cases kind with
    | normal =>
      refine ⟨_, _, ?_, .takeNormal hbusy htaken⟩
      refine { h with implements := hi, numbered := hnumbered, queue := fun k => ?_, busy := rfl }
      cases k with
      | normal => simp [Server.queue]
      | priority => simpa [Server.queue] using h.queue .priority
    | priority =>
      refine ⟨_, _, ?_, .takePriority hbusy htaken⟩
      refine { h with implements := hi, numbered := hnumbered, queue := fun k => ?_, busy := rfl }
      cases k with
      | normal => simpa [Server.queue] using h.queue .normal
      | priority => simp [Server.queue]

omit [DecidableEq T] in
/-- The handler of a command ends. -/
theorem finished (h : Serves a b q) (hq : Queues.Step q (.finished x) q') (hi : Scheduler.Implements s' q')
    {session' : Session σ Path R} (hh : Session.Handles env a.session x.command session') :
    ∃ b' event, Serves { clearMark x.command a with session := session', scheduler := s' } b' q' ∧
      Server.Step env b event b' := by
  have hnumbered := h.numbered.step hq
  cases hq with
  | finish hrunning =>
    have hbusy : b.busy = some x.command := by rw [h.busy, hrunning]; rfl
    refine ⟨_, _, ?_, .handle hbusy (h.session ▸ hh)⟩
    cases hcommand : x.command with
    | correction d primPath =>
      exact { h with
        implements := hi
        numbered := hnumbered
        session := rfl
        queued := by simp [Server.clearMark, clearMark, Server.setQueued, setQueued, h.queued]
        queue := h.queue
        busy := rfl }
    | _ =>
      exact { h with implements := hi, numbered := hnumbered, session := rfl, queue := h.queue, busy := rfl }

omit [DecidableEq T] in
/-- What the scheduler records is no step or one step of the server. -/
theorem schedule (h : Serves a b q) {e : Scheduler.Event (SessionCommand Path R)} (hq : Queues.Step q e q')
    (hi : Scheduler.Implements s' q') (hr : Reacts env a e a') :
    ∃ b', Serves { a' with scheduler := s' } b' q' ∧ (b' = b ∨ ∃ event, Server.Step env b event b') := by
  cases hr with
  | callRequest hc =>
    exact ⟨b, h.called hq hi (by rw [hc]; rfl) rfl (by rw [hc]; rfl), .inl rfl⟩
  | callCorrection hc =>
    exact ⟨b, h.called hq hi (by rw [hc]; rfl) rfl (by rw [hc]; rfl), .inl rfl⟩
  | callInternal hinternal => exact ⟨b, h.calledInternal hq hi hinternal rfl, .inl rfl⟩
  | push =>
    obtain ⟨b', event, h', hstep⟩ := h.pushed env hq hi
    exact ⟨b', h', .inr ⟨event, hstep⟩⟩
  | returned hc => exact h.returned hq hi hc
  | returnedInternal hinternal => exact ⟨b, h.returnedInternal hq hi hinternal, .inl rfl⟩
  | start =>
    obtain ⟨b', event, h', hstep⟩ := h.started env hq hi
    exact ⟨b', h', .inr ⟨event, hstep⟩⟩
  | finish hh =>
    obtain ⟨b', event, h', hstep⟩ := h.finished hq hi hh
    exact ⟨b', h', .inr ⟨event, hstep⟩⟩

/-- Every step of the threads is no step or one step of the server. -/
theorem step (h : Serves a b q) (hr : (Scheduler.system T (SessionCommand Path R)).Reachable a.scheduler)
    (hs : Step env a a') : ∃ b' q', Serves a' b' q' ∧ (b' = b ∨ ∃ event, Server.Step env b event b') := by
  have hio : ∀ {c : ConnectionId} {place : CallPlace Path R}, a.io c = place → place.submission c = none →
      (a.io c).submission c = none ∧ b.io c = place.unpushed := by
    rintro c place rfl hplace
    exact ⟨hplace, (h.io c).eq_of_none hplace⟩
  cases hs with
  | silent hs htrace =>
    rcases h.implements.step hr hs with ⟨-, h'⟩ | ⟨e, q', htrace', -, -⟩
    · exact ⟨b, q, { h with implements := h' }, .inl rfl⟩
    · rw [htrace] at htrace'
      exact absurd htrace' (by simp)
  | schedule hs htrace hreacts =>
    rcases h.implements.step hr hs with ⟨htrace', -⟩ | ⟨e, q', htrace', hq, hi⟩
    · rw [htrace'] at htrace
      exact absurd htrace (by simp)
    · obtain rfl : _ = e := by simpa using htrace.symm.trans htrace'
      obtain ⟨b', h', hstep⟩ := h.schedule hq hi hreacts
      exact ⟨b', q', h', hstep⟩
  | @attach c h0 hc =>
    refine ⟨_, q, ?_, .inr ⟨_, .attach h0 (h.opened ▸ hc)⟩⟩
    exact { h with session := congrArg (·.attachClient c) h.session, opened := congrArg (c :: ·) h.opened,
                   queue := h.queue }
  | @detach c hc =>
    refine ⟨_, q, ?_, .inr ⟨_, .detach (hio hc rfl).2⟩⟩
    exact { h with session := congrArg (·.detachClient c) h.session, queue := h.queue }
  | @receive c request hclient hc =>
    refine ⟨_, q, ?_, .inr ⟨.receive c request, .receive (h.session ▸ hclient) (hio hc rfl).2⟩⟩
    have hset := h.setIo (hio hc rfl).1 (.submitting request) rfl
    exact { hset with received := congrArg (· ++ [(c, request.requestId)]) h.received, queue := h.queue }
  | @unknownSession c request hc =>
    exact ⟨_, q, h.setIo (hio hc rfl).1 (.rejecting request .unknownSession) rfl,
      .inr ⟨.submitRejected c .unknownSession, .submitRejected (hio hc rfl).2 nofun⟩⟩
  | @reject c request status hc =>
    refine ⟨_, q, ?_, .inr ⟨_, .reject (hio hc rfl).2⟩⟩
    have hnone : (afterRejection env request status).submission c = none := by
      unfold afterRejection
      split
      · split_ifs <;> rfl
      · rfl
    have hunpushed : (afterRejection env request status).unpushed = Server.afterRejection env request status := by
      cases request with
      | xformUpdate primPath transform requestId baseSeq =>
        cases status <;> simp only [afterRejection, Server.afterRejection]
        · rfl
        · split_ifs <;> rfl
        · rfl
        · rfl
      | createPrim | setPrimActive => rfl
    have hset := h.setIo (hio hc rfl).1 _ hnone
    rw [hunpushed] at hset
    exact { hset with
      session := congrArg (·.reject c request.requestId (rejectionReason status)) h.session, queue := h.queue }
  | @markedAlready c primPath hc hqueued =>
    exact ⟨_, q, h.setIo (hio hc rfl).1 .idle rfl,
      .inr ⟨_, .markedAlready (hio hc rfl).2 (h.queued ▸ hqueued)⟩⟩
  | @sessionGone c primPath hc =>
    exact ⟨_, q, h.setIo (hio hc rfl).1 .idle rfl, .inr ⟨_, .sessionGone (hio hc rfl).2⟩⟩
  | @mark c primPath hc hqueued =>
    refine ⟨_, q, ?_, .inr ⟨_, .mark (hio hc rfl).2 (h.queued ▸ hqueued)⟩⟩
    have hset := h.setIo (hio hc rfl).1 (.submittingCorrection primPath) rfl
    exact { hset with
      queued := by simp [Server.setQueued, Server.setIo, setQueued, ThreadedServer.setIo, h.queued]
      queue := h.queue }
  | @clear c primPath hc =>
    refine ⟨_, q, ?_, .inr ⟨_, .clear (hio hc rfl).2⟩⟩
    have hset := h.setIo (hio hc rfl).1 .idle rfl
    exact { hset with
      queued := by simp [Server.setQueued, Server.setIo, setQueued, ThreadedServer.setIo, h.queued]
      queue := h.queue }

end Serves

omit [Fintype T] in
theorem scheduler_of_reachable (h : (system T env).Reachable a) :
    (Scheduler.system T (SessionCommand Path R)).Reachable a.scheduler := by
  induction h with
  | init h =>
    obtain ⟨stage, rfl⟩ := h
    exact .init rfl
  | step _ hs ih =>
    cases hs with
    | silent hs _ => exact ih.step hs
    | schedule hs _ _ => exact ih.step hs
    | _ => exact ih

theorem exists_serves (h : (system T env).Reachable a) :
    ∃ b, (Server.system env).Reachable b ∧ ∃ q, Serves a b q := by
  refine Lts.System.Reachable.simulate (fun a b => ∃ q, Serves a b q) ?_ ?_ h
  · rintro _ ⟨stage, rfl⟩
    refine ⟨_, ⟨stage, rfl⟩, {}, Scheduler.implements_new, rfl, rfl, rfl, rfl, fun k => ?_, rfl, ?_, ?_, fun c => ?_⟩
    · cases k <;> rfl
    · exact ⟨Multiset.nodup_zero, fun x hx => absurd hx (Multiset.notMem_zero x)⟩
    · exact fun x hx => absurd hx (Multiset.notMem_zero x)
    · exact .of_none rfl rfl
  · rintro a a' b hr ⟨q, h⟩ hs
    obtain ⟨b', q', h', hb⟩ := h.step (scheduler_of_reachable hr) hs
    exact ⟨b', ⟨q', h'⟩, hb⟩

/-- Whatever a thread of the scheduler does next, the server follows, unless the thread calls. -/
theorem exists_step_of_scheduler (h : (system T env).Reachable a) {s' : Scheduler.State T (SessionCommand Path R)}
    (hs : Scheduler.Step a.scheduler s')
    (hhandles : ∀ command, ∃ session', Session.Handles env a.session command session') :
    (∃ x, s'.trace = a.scheduler.trace ++ [.called x]) ∨ ∃ a', Step env a a' ∧ a'.scheduler = s' := by
  obtain ⟨b, -, q, hserves⟩ := exists_serves h
  rcases hserves.implements.step (scheduler_of_reachable h) hs with ⟨htrace, -⟩ | ⟨e, q', htrace, hq, -⟩
  · exact .inr ⟨_, .silent hs htrace, rfl⟩
  · cases e with
    | called x => exact .inl ⟨x, htrace⟩
    | pushed x => exact .inr ⟨_, .schedule hs htrace .push, rfl⟩
    | returned x status =>
      have hx : x ∈ q.calling + q.returning := by
        cases hq with
        | accept hreturning => simp [hreturning]
        | reject _ hcalling => simp [hcalling]
      rcases hserves.owned x hx with ⟨hinternal, -⟩ | ⟨c, hc⟩
      · exact .inr ⟨_, .schedule hs htrace (.returnedInternal hinternal), rfl⟩
      · exact .inr ⟨_, .schedule hs htrace (.returned hc), rfl⟩
    | started x => exact .inr ⟨_, .schedule hs htrace .start, rfl⟩
    | finished x =>
      obtain ⟨session', hh⟩ := hhandles x.command
      exact .inr ⟨_, .schedule hs htrace (.finish hh), rfl⟩

/-- Every run of the threads is a run of `Server`; and the handlers of the messages are in step with the scheduler:
whatever a thread of it does next they let it do, if it does not call. -/
theorem serves_of_reachable (h : (system T env).Reachable a) :
    (∃ b, (Server.system env).Reachable b ∧ ∃ q, Serves a b q) ∧
      ((∀ command, ∃ session', Session.Handles env a.session command session') → ∀ s',
        Scheduler.Step a.scheduler s' →
          (∃ x, s'.trace = a.scheduler.trace ++ [.called x]) ∨ ∃ a', Step env a a' ∧ a'.scheduler = s') :=
  ⟨exists_serves h, fun hhandles _ hs => exists_step_of_scheduler h hs hhandles⟩

/-! ### At rest -/

/-- The request ids received from `c`. -/
def receivedFrom (a : ThreadedServer T σ Path R) (c : ConnectionId) : Multiset Nat :=
  ↑((a.received.filter (·.1 = c)).map (·.2))

omit [DecidableEq T] in
theorem receivedFrom_of_serves (hb : (Server.system env).Reachable b) (hserves : Serves a b q)
    (hwaiting : ∀ k, q.waiting k = []) (hrunning : q.running = none) (hio : ∀ c, a.io c = .idle) {c : ConnectionId}
    (hc : c ∈ a.session.clients) : a.receivedFrom c = a.session.acksTo c := by
  have hnormal : b.normal = [] := by simpa [Server.queue, hwaiting] using hserves.queue .normal
  have hpriority : b.priority = [] := by simpa [Server.queue, hwaiting] using hserves.queue .priority
  have hbusy : b.busy = none := by simpa [hrunning] using hserves.busy
  have hidleIo : b.io c = .idle := by
    rw [(hserves.io c).eq_of_none (by rw [hio]; rfl), hio]
    rfl
  have hout : b.outstanding c = 0 := by
    simp [Server.outstanding, hnormal, hpriority, hbusy, hidleIo, IoState.ids]
  have hbalance := (Server.accounted_of_reachable hb).balance c (hserves.session ▸ hc)
  rw [hout, add_zero, Server.receivedFrom, hserves.received, hserves.session] at hbalance
  exact hbalance

/-- When no thread is in the scheduler, no drain task is posted and no message handler is under way, every request of
an attached client is acked exactly once. -/
theorem acked_of_idle (h : (system T env).Reachable a) (hidle : ∀ t, a.scheduler.threads t = .idle)
    (htasks : a.scheduler.tasks = 0) (hio : ∀ c, a.io c = .idle) :
    ∀ c ∈ a.session.clients, a.receivedFrom c = a.session.acksTo c := by
  obtain ⟨b, hb, q, hserves⟩ := exists_serves h
  have hr := scheduler_of_reachable h
  obtain ⟨-, -, hwaiting, hrunning⟩ :=
    hserves.implements.nothing_of_idle hidle (Scheduler.not_unpopped_of_idle hr hidle htasks)
  exact fun c hc => receivedFrom_of_serves hb hserves hwaiting hrunning hio hc

omit [LinearOrder Path] in
theorem update_idle (x y : CallPlace Path R) (c : ConnectionId) :
    Function.update (Function.update (Function.update (fun _ => CallPlace.idle) 1 x) 1 y) 1 .idle c = .idle := by
  rcases eq_or_ne c 1 with rfl | hc
  · exact Function.update_self ..
  · rw [Function.update_of_ne hc, Function.update_of_ne hc, Function.update_of_ne hc]

open TwoLayerStage in
/-- Client 1 sends one request, which thread `true` submits and the worker `false` handles. -/
theorem exists_run_to_rest :
    ∃ a : ThreadedServer Bool TwoLayerStage Nat Int, (system Bool TwoLayerStage.env).Reachable a ∧
    (∀ t, a.scheduler.threads t = .idle) ∧ a.scheduler.tasks = 0 ∧ (∀ c, a.io c = .idle) ∧
    a.scheduler.closer = .running ∧ 1 ∈ a.session.clients ∧ a.receivedFrom 1 = {10} := by
  have h : (system Bool TwoLayerStage.env).Reachable { session := { stage := { root := [(7, shift 0)] } } } :=
    .init ⟨_, rfl⟩
  replace h := h.step (.attach (c := 1) (by decide) (by decide))
  replace h := h.step (.receive (c := 1) (.xformUpdate 7 (some (shift 1)) 10 0) (by decide) rfl)
  replace h := h.step (.schedule (.call true .normal _ rfl) rfl (.callRequest (c := 1) rfl))
  replace h := h.step (.silent (.announce true _ _ rfl) rfl)
  replace h := h.step (.silent (.admission true _ _ rfl) rfl)
  replace h := h.step (.silent (.push true false _ _ _ rfl) rfl)
  replace h := h.step (.silent (.push true false _ _ _ rfl) rfl)
  replace h := h.step (.schedule (.push true false _ _ _ rfl) rfl .push)
  replace h := h.step (.silent (.push true false _ _ _ rfl) rfl)
  replace h := h.step (.silent (.push true false _ _ _ rfl) rfl)
  replace h := h.step (.silent (.exchange true _ rfl) rfl)
  replace h := h.step (.schedule (.post true _ rfl) rfl (.returned (c := 1) rfl))
  replace h := h.step (.silent (.startTask false rfl (by decide)) (List.append_nil _))
  replace h := h.step (.silent (.pop false _ _ _ _ _ rfl) (List.append_nil _))
  replace h := h.step (.silent (.pop false _ _ _ _ _ rfl) (List.append_nil _))
  replace h := h.step (.silent (.pop false _ _ _ _ _ rfl) (List.append_nil _))
  replace h := h.step (.silent (.pop false _ _ _ _ _ rfl) (List.append_nil _))
  replace h := h.step (.silent (.pop false _ _ _ _ _ rfl) (List.append_nil _))
  replace h := h.step (.silent (.pop false _ _ _ _ _ rfl) (List.append_nil _))
  replace h := h.step (.schedule (.pop false _ _ _ _ _ rfl) rfl .start)
  replace h := h.step (.schedule (.finish false _ _ _ _ rfl) rfl (.finish (.transform rfl)))
  replace h := h.step (.silent (.release false _ _ _ rfl) (List.append_nil _))
  replace h := h.step (.silent (.pop false _ _ _ _ _ rfl) (List.append_nil _))
  replace h := h.step (.silent (.pop false _ _ _ _ _ rfl) (List.append_nil _))
  replace h := h.step (.silent (.pop false _ _ _ _ _ rfl) (List.append_nil _))
  replace h := h.step (.silent (.pop false _ _ _ _ _ rfl) (List.append_nil _))
  replace h := h.step (.silent (.checkPending false _ _ _ rfl) (List.append_nil _))
  replace h := h.step (.silent (.clear false _ _ _ rfl) (List.append_nil _))
  replace h := h.step (.silent (.recheck false _ _ _ rfl) (List.append_nil _))
  refine ⟨_, h, Bool.rec rfl rfl, rfl, update_idle _ _, rfl, by decide, by decide⟩

/-- The request of the run is acked. -/
theorem acked_after_one_request : ∃ a : ThreadedServer Bool TwoLayerStage Nat Int,
    (system Bool TwoLayerStage.env).Reachable a ∧ a.receivedFrom 1 = {10} ∧ a.session.acksTo 1 = {10} := by
  obtain ⟨a, h, hidle, htasks, hio, -, hclient, hreceived⟩ := exists_run_to_rest
  exact ⟨a, h, hreceived, (acked_of_idle h hidle htasks hio 1 hclient).symm.trans hreceived⟩

theorem serves_after_one_request : ∃ a : ThreadedServer Bool TwoLayerStage Nat Int, a.receivedFrom 1 = {10} ∧
    ∃ b, (Server.system TwoLayerStage.env).Reachable b ∧ ∃ q, Serves a b q := by
  obtain ⟨a, h, -, -, -, -, -, hreceived⟩ := exists_run_to_rest
  exact ⟨a, hreceived, (serves_of_reachable h).1⟩

end ThreadedServer
end IdtxCore
