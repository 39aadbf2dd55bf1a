import IdtxCore.Mailbox

/-!
# `SessionCommandScheduler`

`SessionCommandScheduler.cpp`, one atomic operation a step; what a thread computes locally belongs to
the operation before it. The two mailboxes are stepped by their own `TryEmplace` and `TryPop`.

A thread is the place it has reached in `Submit`, `ScheduleDrainIfRequired` or `DrainBatch`, with the
calls that wait for it: `Caller f` are the places a call of `f` can return to, so a drain that runs
inline in a submission, and a handler that submits from inside a drain, are ordinary values.

Any idle thread may submit and any idle thread may take a drain task from the executor. `Post`
refuses whenever it likes. A separate thread calls `CloseAdmission` and then `WaitIdle`.

`trace` is history: what was submitted and pushed, what each submission returned, and when the
handler started and finished with which command.
-/

namespace IdtxCore
namespace Scheduler

inductive Kind where
  | normal
  | priority
  deriving DecidableEq, Repr

/-- `kMailboxCapacity` and `kPriorityMailboxCapacity`. -/
def Kind.capacity : Kind → Capacity
  | .normal => ⟨1024, by decide, 10, rfl⟩
  | .priority => ⟨128, by decide, 7, rfl⟩

def kMaxCommandsPerDrain : Nat := 64
def kHeadPublicationRetries : Nat := 16

inductive CommandAdmissionStatus where
  | accepted
  | queueFull
  | stopping
  deriving DecidableEq, Repr

/-- One call of `TrySubmit` or `TrySubmitPriority`: its number, its mailbox and its command. -/
structure Submission (κ : Type) where
  id : Nat
  kind : Kind
  command : κ
  deriving DecidableEq, Repr

inductive Event (κ : Type) where
  | called (x : Submission κ)
  /-- the submission reserved its position in the mailbox -/
  | pushed (x : Submission κ)
  | returned (x : Submission κ) (status : CommandAdmissionStatus)
  | started (x : Submission κ)
  | finished (x : Submission κ)
  deriving DecidableEq, Repr

inductive Fn where
  | submit
  | schedule
  | drain

/-- What a call returns to. -/
inductive Caller (κ : Type) : Fn → Type where
  /-- a producer's call of `TrySubmit` or `TrySubmitPriority` -/
  | outside : Caller κ .submit
  /-- the handler, called by a drain for the command `running` -/
  | handler (processed : Nat) (running : Submission κ) (caller : Caller κ .drain) : Caller κ .submit
  /-- the end of `Submit` -/
  | submit (x : Submission κ) (caller : Caller κ .submit) : Caller κ .schedule
  /-- the end of `RunDrainTask` -/
  | runDrainTask : Caller κ .schedule
  /-- the condition in `RunDrainTask` -/
  | task : Caller κ .drain
  /-- the loop of `ScheduleDrainIfRequired` that found no executor -/
  | inline (caller : Caller κ .schedule) : Caller κ .drain

inductive SubmitPlace (κ : Type) where
  /-- about to `fetch_add` the pending count -/
  | announce
  /-- about to load `accepting_` -/
  | admission
  /-- in `TryPush` -/
  | push (e : Emplace (Submission κ))
  /-- about to release the pending count and return `Stopping` or `QueueFull` -/
  | reject (status : CommandAdmissionStatus)

inductive SchedulePlace where
  /-- about to exchange `drain_scheduled_` -/
  | exchange
  /-- the exchange was won: about to `Post` -/
  | post

inductive DrainPlace (κ : Type) where
  /-- in `TryPop` of the mailbox `k` -/
  | pop (k : Kind) (c : Pop (Submission κ))
  /-- both mailboxes gave nothing: about to load the pending count -/
  | checkPending
  /-- in the handler -/
  | handling (x : Submission κ)
  /-- about to release the pending count for the handled command -/
  | release
  /-- about to store `false` into `drain_scheduled_` -/
  | clear
  /-- about to load the pending count for the result -/
  | recheck

inductive Thread (κ : Type) where
  | idle
  | submit (place : SubmitPlace κ) (x : Submission κ) (caller : Caller κ .submit)
  | schedule (place : SchedulePlace) (caller : Caller κ .schedule)
  | drain (place : DrainPlace κ) (processed retries : Nat) (caller : Caller κ .drain)

section Return
variable {κ : Type}

/-- The head of the loop of `DrainBatch`. -/
def loopHead (processed retries : Nat) (caller : Caller κ .drain) : Thread κ :=
  if processed < kMaxCommandsPerDrain then .drain (.pop .priority .loadPosition) processed retries caller
  else .drain .clear processed retries caller

/-- `Submit` returns to the producer or to the handler. -/
def Caller.returnSubmit : Caller κ .submit → Thread κ
  | .outside => .idle
  | .handler processed running caller => .drain (.handling running) processed 0 caller

/-- `ScheduleDrainIfRequired` returns; a submission then returns `Accepted`. -/
def Caller.returnSchedule : Caller κ .schedule → Thread κ × List (Event κ)
  | .submit x caller => (caller.returnSubmit, [.returned x .accepted])
  | .runDrainTask => (.idle, [])

/-- `DrainBatch` returns `more`. -/
def Caller.returnDrain (more : Bool) : Caller κ .drain → Thread κ × List (Event κ)
  | .task => if more then (.schedule .exchange .runDrainTask, []) else (.idle, [])
  | .inline caller => if more then (.schedule .exchange caller, []) else caller.returnSchedule

/-- What `Submit` does after a step of `TryPush`. -/
def afterPush (x : Submission κ) (caller : Caller κ .submit) : Emplace (Submission κ) → Thread κ
  | .returned true => .schedule .exchange (.submit x caller)
  | .returned false => .submit (.reject .queueFull) x caller
  | e => .submit (.push e) x caller

/-- A submission is pushed when its compare-exchange succeeds. -/
def pushEvents (x : Submission κ) : Emplace (Submission κ) → Emplace (Submission κ) → List (Event κ)
  | .compareExchange .., .construct .. => [.pushed x]
  | _, _ => []

/-- What `DrainBatch` does after a step of `TryPop` of the mailbox `k`. -/
def afterPop (k : Kind) (processed retries : Nat) (caller : Caller κ .drain) :
    Pop (Submission κ) → Thread κ × List (Event κ)
  | .returned (some x) => (.drain (.handling x) processed 0 caller, [.started x])
  | .returned none =>
    match k with
    | .priority => (.drain (.pop .normal .loadPosition) processed retries caller, [])
    | .normal => (.drain .checkPending processed retries caller, [])
  | c => (.drain (.pop k c) processed retries caller, [])

/-- What `DrainBatch` does after it loaded the pending count. -/
def afterCheck (pending processed retries : Nat) (caller : Caller κ .drain) : Thread κ :=
  if pending = 0 then .drain .clear processed retries caller
  else if retries + 1 > kHeadPublicationRetries then .drain .clear processed (retries + 1) caller
  else loopHead processed (retries + 1) caller

end Return

/-- The thread that shuts the session down. -/
inductive Closer where
  | running
  /-- `CloseAdmission` has returned; in the first loop of `WaitIdle` -/
  | waitPending
  /-- in the second loop of `WaitIdle` -/
  | waitDrain
  | returned
  deriving DecidableEq, Repr

structure State (T κ : Type) where
  rings : (k : Kind) → Ring T (Submission κ) k.capacity
  pendingCount : Nat
  drainScheduled : Bool
  accepting : Bool
  /-- Drain tasks the executor has accepted and not yet handed to a worker. -/
  tasks : Nat
  threads : T → Thread κ
  closer : Closer
  /-- The number of submissions so far. -/
  calls : Nat
  trace : List (Event κ)

namespace State
variable {T κ : Type}

def new : State T κ where
  rings _ := .new
  pendingCount := 0
  drainScheduled := false
  accepting := true
  tasks := 0
  threads _ := .idle
  closer := .running
  calls := 0
  trace := []

variable [DecidableEq T]

def setRing (s : State T κ) (k : Kind) (r : Ring T (Submission κ) k.capacity) : State T κ :=
  { s with rings := Function.update s.rings k r }

/-- Thread `t` goes on as `x`, and `events` are recorded. -/
def goto (s : State T κ) (t : T) (x : Thread κ × List (Event κ)) : State T κ :=
  { s with threads := Function.update s.threads t x.1, trace := s.trace ++ x.2 }

end State

variable {T κ : Type} [DecidableEq T]

inductive Step : State T κ → State T κ → Prop where
  /-- A producer calls `TrySubmit` or `TrySubmitPriority`. -/
  | call {s : State T κ} (t : T) (kind : Kind) (command : κ) (h : s.threads t = .idle) :
      Step s { s.goto t (.submit .announce ⟨s.calls, kind, command⟩ .outside,
        [.called ⟨s.calls, kind, command⟩]) with calls := s.calls + 1 }
  /-- The handler submits. -/
  | handlerCall {s : State T κ} (t : T) (kind : Kind) (command : κ) (running : Submission κ)
      (processed retries : Nat) (caller : Caller κ .drain)
      (h : s.threads t = .drain (.handling running) processed retries caller) :
      Step s { s.goto t (.submit .announce ⟨s.calls, kind, command⟩ (.handler processed running caller),
        [.called ⟨s.calls, kind, command⟩]) with calls := s.calls + 1 }
  | announce {s : State T κ} (t : T) (x : Submission κ) (caller : Caller κ .submit)
      (h : s.threads t = .submit .announce x caller) :
      Step s { s.goto t (.submit .admission x caller, []) with pendingCount := s.pendingCount + 1 }
  | admission {s : State T κ} (t : T) (x : Submission κ) (caller : Caller κ .submit)
      (h : s.threads t = .submit .admission x caller) :
      Step s (s.goto t (if s.accepting then .submit (.push (.loadPosition x)) x caller
        else .submit (.reject .stopping) x caller, []))
  | push {s : State T κ} (t : T) (spurious : Bool) (e : Emplace (Submission κ)) (x : Submission κ)
      (caller : Caller κ .submit) (h : s.threads t = .submit (.push e) x caller) :
      Step s ((s.setRing x.kind ((s.rings x.kind).emplace t spurious e).1).goto t
        (afterPush x caller ((s.rings x.kind).emplace t spurious e).2,
          pushEvents x e ((s.rings x.kind).emplace t spurious e).2))
  | reject {s : State T κ} (t : T) (status : CommandAdmissionStatus) (x : Submission κ)
      (caller : Caller κ .submit) (h : s.threads t = .submit (.reject status) x caller) :
      Step s { s.goto t (caller.returnSubmit, [.returned x status]) with
        pendingCount := s.pendingCount - 1 }
  | exchange {s : State T κ} (t : T) (caller : Caller κ .schedule)
      (h : s.threads t = .schedule .exchange caller) :
      Step s { s.goto t (if s.drainScheduled then caller.returnSchedule
        else (.schedule .post caller, [])) with drainScheduled := true }
  /-- The executor accepts the drain task. -/
  | post {s : State T κ} (t : T) (caller : Caller κ .schedule)
      (h : s.threads t = .schedule .post caller) :
      Step s { s.goto t caller.returnSchedule with tasks := s.tasks + 1 }
  /-- No executor, or it refuses: the batch runs inline. -/
  | postRefused {s : State T κ} (t : T) (caller : Caller κ .schedule)
      (h : s.threads t = .schedule .post caller) :
      Step s (s.goto t (loopHead 0 0 (.inline caller), []))
  /-- A worker takes a drain task. -/
  | startTask {s : State T κ} (t : T) (h : s.threads t = .idle) (htasks : 0 < s.tasks) :
      Step s { s.goto t (loopHead 0 0 .task, []) with tasks := s.tasks - 1 }
  | pop {s : State T κ} (t : T) (k : Kind) (c : Pop (Submission κ)) (processed retries : Nat)
      (caller : Caller κ .drain) (h : s.threads t = .drain (.pop k c) processed retries caller) :
      Step s ((s.setRing k ((s.rings k).pop c).1).goto t
        (afterPop k processed retries caller ((s.rings k).pop c).2))
  | checkPending {s : State T κ} (t : T) (processed retries : Nat) (caller : Caller κ .drain)
      (h : s.threads t = .drain .checkPending processed retries caller) :
      Step s (s.goto t (afterCheck s.pendingCount processed retries caller, []))
  /-- The handler returns or throws. -/
  | finish {s : State T κ} (t : T) (x : Submission κ) (processed retries : Nat)
      (caller : Caller κ .drain)
      (h : s.threads t = .drain (.handling x) processed retries caller) :
      Step s (s.goto t (.drain .release processed retries caller, [.finished x]))
  | release {s : State T κ} (t : T) (processed retries : Nat) (caller : Caller κ .drain)
      (h : s.threads t = .drain .release processed retries caller) :
      Step s { s.goto t (loopHead (processed + 1) retries caller, []) with
        pendingCount := s.pendingCount - 1 }
  | clear {s : State T κ} (t : T) (processed retries : Nat) (caller : Caller κ .drain)
      (h : s.threads t = .drain .clear processed retries caller) :
      Step s { s.goto t (.drain .recheck processed retries caller, []) with drainScheduled := false }
  | recheck {s : State T κ} (t : T) (processed retries : Nat) (caller : Caller κ .drain)
      (h : s.threads t = .drain .recheck processed retries caller) :
      Step s (s.goto t (caller.returnDrain (0 < s.pendingCount)))
  | closeAdmission {s : State T κ} (h : s.closer = .running) :
      Step s { s with accepting := false, closer := .waitPending }
  | waitPending {s : State T κ} (h : s.closer = .waitPending) (hpending : s.pendingCount = 0) :
      Step s { s with closer := .waitDrain }
  | waitDrain {s : State T κ} (h : s.closer = .waitDrain) (hdrain : s.drainScheduled = false) :
      Step s { s with closer := .returned }

def system (T κ : Type) [DecidableEq T] : Lts.System (State T κ) where
  init s := s = .new
  step := Step

end Scheduler
end IdtxCore
