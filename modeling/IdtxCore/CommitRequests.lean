import IdtxCore.RateLimitHandler
import IdtxCore.SchedulerRefinement
import IdtxCore.Session
import IdtxCore.Teardown

/-!
# Commit requests

`CommitSession` submits a `CommitCommand` with a promise and waits for its future, for 30 s at most. The consumer sets
the promise at the end of the handler; if the handler throws, the promise is destroyed with the command. `P` are the
threads of the requests to one session, and they run on `SessionCommandScheduler` one atomic operation a step. A promise
is named by the number of its submission, which `TrySubmit` draws.

`Justified` says what a response tells its client. A refused commit never runs, and one that has timed out still does.
-/

namespace IdtxCore

namespace Scheduler

/-- The numbers of the submissions are drawn one after the other. -/
theorem id_of_called {T κ : Type} [Fintype T] [DecidableEq T] {s s' : State T κ} {x : Submission κ}
    (h : (system T κ).Reachable s) (hs : Step s s') (htrace : s'.trace = s.trace ++ [.called x]) :
    x.id = s.calls ∧ s'.calls = s.calls + 1 := by
  obtain ⟨ev, hm⟩ := hs.move (inv_of_reachable h) fun k x hx => (history_of_reachable h).kind_eq hx
  obtain rfl : ev = [.called x] := List.append_cancel_left (hm.trace.symm.trans htrace)
  refine ⟨?_, hm.calls⟩
  rcases hm.called with hnone | ⟨y, hy, hid⟩
  · cases hnone
  · obtain rfl : x = y := by simpa using hy
    exact hid

/-- A command that was refused is not handled. -/
theorem not_started_of_rejected {T κ : Type} [Fintype T] [DecidableEq T] {s : State T κ} {x : Submission κ}
    {status : CommandAdmissionStatus} (h : (system T κ).Reachable s) (hx : .returned x status ∈ s.trace)
    (hstatus : status ≠ .accepted) : .started x ∉ s.trace := by
  have hh := history_of_reachable h
  intro hstarted
  have hnodup := Multiset.nodup_range s.calls
  rw [← hh.ids] at hnodup
  have hdisjoint := Multiset.disjoint_of_nodup_add (Multiset.nodup_add.1 hnodup).2.1
  have hpushed := hh.pushed_of_started (inv_of_reachable h) ((mem_startedOf _).2 hstarted)
  have hrejected := mem_rejectedOf_of _ hx hstatus
  exact Multiset.disjoint_left.1 hdisjoint (Multiset.mem_coe.2 (List.mem_map_of_mem hpushed))
    (Multiset.mem_coe.2 (List.mem_map_of_mem hrejected))

/-- A command is started only once. -/
theorem not_started_of_start {T κ : Type} [Fintype T] [DecidableEq T] {s s' : State T κ} {x : Submission κ}
    (h : (system T κ).Reachable s) (hs : Step s s') (htrace : s'.trace = s.trace ++ [.started x]) :
    .started x ∉ s.trace := by
  have h' := h.step hs
  have hnodup := (history_of_reachable h').nodup_started (inv_of_reachable h')
  rw [htrace, startedOf_append, List.map_append] at hnodup
  intro hmem
  have hold := List.mem_map_of_mem (f := Submission.id) ((mem_startedOf _).2 hmem)
  exact List.disjoint_of_nodup_append hnodup hold (List.mem_singleton_self _)

theorem started_of_finished {T κ : Type} [Fintype T] [DecidableEq T] {s : State T κ} {x : Submission κ}
    (h : (system T κ).Reachable s) (hx : .finished x ∈ s.trace) : .started x ∈ s.trace := by
  rw [← mem_startedOf, ← Multiset.mem_coe, ← (history_of_reachable h).handling]
  exact Multiset.mem_add.2 (.inr (Multiset.mem_coe.2 ((mem_finishedOf _).2 hx)))

end Scheduler

inductive Promise where
  | empty
  | value (result : CommitResult)
  /-- destroyed before it was set -/
  | broken

/-- Where `SubmitCommitSessionCommand` is. -/
inductive CommitPlace where
  | idle
  /-- about to call `TrySubmit` -/
  | submitting
  /-- in `TrySubmit`, as the submission `id` -/
  | called (id : Nat)
  /-- in `wait_for` -/
  | waiting (id : Nat)

def CommitPlace.id : CommitPlace → Option Nat
  | .called id | .waiting id => some id
  | _ => none

/-- Where the consumer is in `HandleCommand(CommitCommand)`. -/
inductive HandlerPlace where
  | outside
  /-- in `CommitOverrides` -/
  | committing (id : Nat)
  /-- `CommitOverrides` has returned -/
  | committed (id : Nat) (result : CommitResult)
  /-- the promise is set -/
  | answered

/-- The submission whose promise is still to be set. -/
def HandlerPlace.id : HandlerPlace → Option Nat
  | .committing id | .committed id _ => some id
  | _ => none

/-- `CommitStatus` of the source; the consumer never reports `unavailable`. -/
inductive CommitRequestStatus where
  | ok
  | unknownSession
  | nothingToCommit
  | writeFailed
  | unavailable
  deriving DecidableEq

def CommitStatus.toRequestStatus : CommitStatus → CommitRequestStatus
  | .ok => .ok
  | .unknownSession => .unknownSession
  | .nothingToCommit => .nothingToCommit
  | .writeFailed => .writeFailed

/-- `CommitSession` from the status and the error of `SubmitCommitSessionCommand`; `ok` is the response 200. -/
def commitSession (error : String) : CommitRequestStatus → Except ErrorResponse Unit
  | .ok => .ok ()
  | .unknownSession => .error { code := 404, error := "not_found", message := "Session not found." }
  | .nothingToCommit => .error { code := 409, error := "nothing_to_commit", message := error }
  | .unavailable => .error { code := 503, error := "unavailable", message := error }
  | .writeFailed => .error { code := 500, error := "commit_failed", message := error }

def refusal : Scheduler.CommandAdmissionStatus → String
  | .queueFull => "session command queue is full"
  | _ => "session is closing"

structure CommitRequests (T P Path R : Type) where
  scheduler : Scheduler.State T (SessionCommand Path R) := .new
  places : P → CommitPlace := fun _ => .idle
  promises : Nat → Promise := fun _ => .empty
  handler : HandlerPlace := .outside
  /-- what `CommitOverrides` has returned, with the submission it was called for -/
  results : List (Nat × CommitResult) := []
  responses : List (Option Nat × Except ErrorResponse Unit) := []

namespace CommitRequests
variable {T P Path R : Type}

def submission (id : Nat) : Scheduler.Submission (SessionCommand Path R) := ⟨id, .normal, .commit⟩

section Defs
variable (a : CommitRequests T P Path R)

def goto [DecidableEq P] (p : P) (place : CommitPlace) : CommitRequests T P Path R :=
  { a with places := Function.update a.places p place }

/-- `SubmitCommitSessionCommand` and `CommitSession` return. -/
def respond [DecidableEq P] (p : P) (id : Option Nat) (status : CommitRequestStatus) (error : String) :
    CommitRequests T P Path R :=
  { a.goto p .idle with responses := a.responses ++ [(id, commitSession error status)] }

def setPromise (id : Nat) (promise : Promise) : CommitRequests T P Path R :=
  { a with promises := Function.update a.promises id promise }

/-- The command is destroyed when its handler has ended. -/
def destroy (id : Nat) : CommitRequests T P Path R :=
  match a.promises id with
  | .empty => a.setPromise id .broken
  | _ => a

end Defs

/-- What happens at the requests when the scheduler records an event. -/
inductive Reacts [DecidableEq P] (a : CommitRequests T P Path R) :
    Scheduler.Event (SessionCommand Path R) → CommitRequests T P Path R → Prop where
  | call {p : P} {id : Nat} : a.places p = .submitting → Reacts a (.called (submission id)) (a.goto p (.called id))
  | callOther {x : Scheduler.Submission (SessionCommand Path R)} : x.command ≠ .commit → Reacts a (.called x) a
  | push {x : Scheduler.Submission (SessionCommand Path R)} : Reacts a (.pushed x) a
  | accept {p : P} {id : Nat} : a.places p = .called id →
      Reacts a (.returned (submission id) .accepted) (a.goto p (.waiting id))
  | refuse {p : P} {id : Nat} {status : Scheduler.CommandAdmissionStatus} : a.places p = .called id →
      status ≠ .accepted →
      Reacts a (.returned (submission id) status) (a.respond p (some id) .unavailable (refusal status))
  | returnOther {x : Scheduler.Submission (SessionCommand Path R)} {status : Scheduler.CommandAdmissionStatus} :
      x.command ≠ .commit → Reacts a (.returned x status) a
  | start {n : Nat} : Reacts a (.started (submission n)) { a with handler := .committing n }
  | startOther {x : Scheduler.Submission (SessionCommand Path R)} : x.command ≠ .commit → Reacts a (.started x) a
  /-- The handler returns, or it throws wherever it is. -/
  | finish {n : Nat} : Reacts a (.finished (submission n)) { a.destroy n with handler := .outside }
  | finishOther {x : Scheduler.Submission (SessionCommand Path R)} : x.command ≠ .commit → Reacts a (.finished x) a

inductive Step [DecidableEq T] [DecidableEq P] (a : CommitRequests T P Path R) : CommitRequests T P Path R → Prop where
  /-- A thread makes a step that the scheduler does not record. -/
  | silent {s' : Scheduler.State T (SessionCommand Path R)} : Scheduler.Step a.scheduler s' →
      s'.trace = a.scheduler.trace → Step a { a with scheduler := s' }
  | schedule {s' : Scheduler.State T (SessionCommand Path R)} {e : Scheduler.Event (SessionCommand Path R)}
      {a' : CommitRequests T P Path R} : Scheduler.Step a.scheduler s' → s'.trace = a.scheduler.trace ++ [e] →
      Reacts a e a' → Step a { a' with scheduler := s' }
  /-- `Get` finds the session, which has a stage. -/
  | find {p : P} : a.places p = .idle → Step a (a.goto p .submitting)
  | unknownSession {p : P} : a.places p = .idle → Step a (a.respond p none .unknownSession "unknown session")
  /-- The session has no command queue. -/
  | noQueue {p : P} : a.places p = .submitting → Step a (a.respond p none .unavailable "session is closing")
  /-- `CommitOverrides` returns to the handler. -/
  | commit {n : Nat} (result : CommitResult) : a.handler = .committing n →
      Step a { a with results := a.results ++ [(n, result)], handler := .committed n result }
  | setValue {n : Nat} {result : CommitResult} : a.handler = .committed n result →
      Step a { a.setPromise n (.value result) with handler := .answered }
  | ready {p : P} {id : Nat} {result : CommitResult} : a.places p = .waiting id → a.promises id = .value result →
      Step a (a.respond p (some id) result.status.toRequestStatus result.error)
  | broken {p : P} {id : Nat} : a.places p = .waiting id → a.promises id = .broken →
      Step a (a.respond p (some id) .writeFailed "commit failed")
  | timeout {p : P} {id : Nat} : a.places p = .waiting id → a.promises id = .empty →
      Step a (a.respond p (some id) .unavailable "commit did not complete in time")

def system (T P Path R : Type) [DecidableEq T] [DecidableEq P] : Lts.System (CommitRequests T P Path R) where
  init a := a = {}
  step := Step

/-! ### What a response tells -/

/-- The response to a request, whose submission is `id` if it came to one. -/
inductive Justified (a : CommitRequests T P Path R) : Option Nat → Except ErrorResponse Unit → Prop where
  | unknownSession : Justified a none (commitSession "unknown session" .unknownSession)
  | closing : Justified a none (commitSession "session is closing" .unavailable)
  | refused {id : Nat} {status : Scheduler.CommandAdmissionStatus} : status ≠ .accepted →
      .returned (submission id) status ∈ a.scheduler.trace →
      Justified a (some id) (commitSession (refusal status) .unavailable)
  | timedOut {id : Nat} : .returned (submission id) .accepted ∈ a.scheduler.trace →
      Justified a (some id) (commitSession "commit did not complete in time" .unavailable)
  | result {id : Nat} {r : CommitResult} : (id, r) ∈ a.results →
      Justified a (some id) (commitSession r.error r.status.toRequestStatus)
  /-- The handler has thrown. -/
  | failed {id : Nat} : .finished (submission id) ∈ a.scheduler.trace → a.promises id = .broken →
      Justified a (some id) (commitSession "commit failed" .writeFailed)

/-- The submissions of the requests that are answered. -/
def answered (a : CommitRequests T P Path R) : List Nat := a.responses.filterMap Prod.fst

structure Inv (a : CommitRequests T P Path R) : Prop where
  waiting : ∀ p id, a.places p = .waiting id → .returned (submission id) .accepted ∈ a.scheduler.trace
  results : (a.results.map Prod.fst).Nodup
  started : ∀ id r, (id, r) ∈ a.results → .started (submission id) ∈ a.scheduler.trace
  value : ∀ id r, a.promises id = .value r → (id, r) ∈ a.results
  broken : ∀ id, a.promises id = .broken → .finished (submission id) ∈ a.scheduler.trace
  finished : ∀ id, .finished (submission id) ∈ a.scheduler.trace → a.promises id ≠ .empty
  justified : ∀ id response, (id, response) ∈ a.responses → a.Justified id response
  /-- A submission belongs to one request. -/
  place_lt : ∀ p id, (a.places p).id = some id → id < a.scheduler.calls
  place_inj : ∀ p q id, (a.places p).id = some id → (a.places q).id = some id → p = q
  place_new : ∀ p id, (a.places p).id = some id → id ∉ a.answered
  answered_lt : ∀ id ∈ a.answered, id < a.scheduler.calls
  answered_nodup : a.answered.Nodup

/-- The consumer on its way through the handler of a commit. -/
structure HandlerInv (a : CommitRequests T P Path R) : Prop where
  started : ∀ id, a.handler.id = some id → .started (submission id) ∈ a.scheduler.trace
  empty : ∀ id, a.handler.id = some id → a.promises id = .empty
  committing : ∀ id, a.handler = .committing id → ∀ r, (id, r) ∉ a.results
  committed : ∀ id r, a.handler = .committed id r → (id, r) ∈ a.results

variable {a a' : CommitRequests T P Path R} {p : P} {id : Nat} {response : Except ErrorResponse Unit}

theorem Justified.mono {n : Option Nat} (h : a.Justified n response)
    (htrace : ∀ e ∈ a.scheduler.trace, e ∈ a'.scheduler.trace) (hresults : ∀ r ∈ a.results, r ∈ a'.results)
    (hpromises : ∀ id, a.promises id = .broken → a'.promises id = .broken) : a'.Justified n response := by
  cases h with
  | unknownSession => exact .unknownSession
  | closing => exact .closing
  | refused hstatus hmem => exact .refused hstatus (htrace _ hmem)
  | timedOut hmem => exact .timedOut (htrace _ hmem)
  | result hmem => exact .result (hresults _ hmem)
  | failed hmem hpromise => exact .failed (htrace _ hmem) (hpromises _ hpromise)

/-- Nothing that the responses speak of has changed. -/
theorem Justified.of_places {n : Option Nat} (h : a.Justified n response) {places : P → CommitPlace}
    {responses : List (Option Nat × Except ErrorResponse Unit)} :
    Justified { a with places := places, responses := responses } n response :=
  h.mono (fun _ he => he) (fun _ hr => hr) fun _ hr => hr

namespace Inv

theorem init : Inv ({} : CommitRequests T P Path R) where
  waiting _ _ h := nomatch h
  results := .nil
  started _ _ h := nomatch h
  value _ _ h := nomatch h
  broken _ h := nomatch h
  finished _ h := nomatch h
  justified _ _ h := nomatch h
  place_lt _ _ h := nomatch h
  place_inj _ _ _ h := nomatch h
  place_new _ _ h := nomatch h
  answered_lt _ h := nomatch h
  answered_nodup := .nil

/-- The scheduler goes on, and promises that are empty may be set or destroyed. -/
theorem update (h : Inv a) {s' : Scheduler.State T (SessionCommand Path R)} {promises : Nat → Promise}
    (htrace : ∀ e ∈ a.scheduler.trace, e ∈ s'.trace) (hcalls : a.scheduler.calls ≤ s'.calls)
    (hkept : ∀ id, a.promises id ≠ .empty → promises id = a.promises id)
    (hvalue : ∀ id r, a.promises id = .empty → promises id = .value r → (id, r) ∈ a.results)
    (hbroken : ∀ id, a.promises id = .empty → promises id = .broken → .finished (submission id) ∈ s'.trace)
    (hfinished : ∀ id, .finished (submission id) ∈ s'.trace → promises id ≠ .empty) :
    Inv { a with scheduler := s', promises := promises } := by
  refine { h with
    waiting := fun p id hp => htrace _ (h.waiting p id hp)
    started := fun id r hr => htrace _ (h.started id r hr)
    value := fun id r hr => ?_
    broken := fun id hid => ?_
    finished := hfinished
    justified := fun id response hmem => ?_
    place_lt := fun p id hp => (h.place_lt p id hp).trans_le hcalls
    answered_lt := fun id hid => (h.answered_lt id hid).trans_le hcalls }
  · by_cases hempty : a.promises id = .empty
    · exact hvalue id r hempty hr
    · exact h.value id r ((hkept id hempty).symm.trans hr)
  · by_cases hempty : a.promises id = .empty
    · exact hbroken id hempty hid
    · exact htrace _ (h.broken id ((hkept id hempty).symm.trans hid))
  · refine (h.justified id response hmem).mono htrace (fun _ hr => hr) fun n hn => ?_
    exact (hkept n (by rw [hn]; exact nofun)).trans hn

/-- The scheduler goes on, and no commit is finished. -/
theorem setScheduler (h : Inv a) {s' : Scheduler.State T (SessionCommand Path R)}
    (htrace : ∀ e ∈ a.scheduler.trace, e ∈ s'.trace) (hcalls : a.scheduler.calls ≤ s'.calls)
    (hfinished : ∀ id, .finished (submission id) ∈ s'.trace → .finished (submission id) ∈ a.scheduler.trace) :
    Inv { a with scheduler := s' } := by
  refine h.update htrace hcalls (fun _ _ => rfl) (fun id r hempty hr => ?_) (fun id hempty hid => ?_) fun id hid =>
    h.finished id (hfinished id hid)
  · cases hempty.symm.trans hr
  · cases hempty.symm.trans hid

/-- The promise of one commit is set or destroyed. -/
theorem settle (h : Inv a) {s' : Scheduler.State T (SessionCommand Path R)} {promise : Promise}
    (htrace : ∀ e ∈ a.scheduler.trace, e ∈ s'.trace) (hcalls : a.scheduler.calls ≤ s'.calls)
    (hid : a.promises id = .empty) (hne : promise ≠ .empty) (hvalue : ∀ r, promise = .value r → (id, r) ∈ a.results)
    (hbroken : promise = .broken → .finished (submission id) ∈ s'.trace)
    (hfinished : ∀ n, n ≠ id → .finished (submission n) ∈ s'.trace → a.promises n ≠ .empty) :
    Inv { a.setPromise id promise with scheduler := s' } := by
  have hcases : ∀ n, n = id ∧ (a.setPromise id promise).promises n = promise ∨
      n ≠ id ∧ (a.setPromise id promise).promises n = a.promises n := by
    intro n
    by_cases hn : n = id
    · subst hn
      exact .inl ⟨rfl, Function.update_self ..⟩
    · exact .inr ⟨hn, Function.update_of_ne hn ..⟩
  refine h.update htrace hcalls (fun n hn => ?_) (fun n r hempty hr => ?_) (fun n hempty hn => ?_) fun n hn => ?_
  · rcases hcases n with ⟨rfl, -⟩ | ⟨-, heq⟩
    · exact absurd hid hn
    · exact heq
  · rcases hcases n with ⟨rfl, heq⟩ | ⟨-, heq⟩
    · exact hvalue r (heq.symm.trans hr)
    · cases hempty.symm.trans (heq.symm.trans hr)
  · rcases hcases n with ⟨rfl, heq⟩ | ⟨-, heq⟩
    · exact hbroken (heq.symm.trans hn)
    · cases hempty.symm.trans (heq.symm.trans hn)
  · rcases hcases n with ⟨rfl, heq⟩ | ⟨hne', heq⟩
    · exact fun hempty => hne (heq.symm.trans hempty)
    · exact fun hempty => hfinished n hne' hn (heq.symm.trans hempty)

/-- The handler of a commit has ended. -/
theorem finish (h : Inv a) {s' : Scheduler.State T (SessionCommand Path R)}
    (htrace : s'.trace = a.scheduler.trace ++ [.finished (submission id)]) (hcalls : a.scheduler.calls ≤ s'.calls) :
    Inv { a.destroy id with scheduler := s' } := by
  have hmem : ∀ e ∈ a.scheduler.trace, e ∈ s'.trace := fun e he => htrace ▸ List.mem_append_left _ he
  have hfinished : ∀ n, n ≠ id → .finished (submission n) ∈ s'.trace → a.promises n ≠ .empty := by
    intro n hne hn
    rw [htrace, List.mem_append, List.mem_singleton] at hn
    refine h.finished n (hn.resolve_right fun heq => hne ?_)
    exact congrArg Scheduler.Submission.id (Scheduler.Event.finished.inj heq)
  cases hid : a.promises id with
  | empty =>
    have hdestroy : a.destroy id = a.setPromise id .broken := by rw [destroy, hid]
    rw [hdestroy]
    refine h.settle hmem hcalls hid nofun nofun (fun _ => ?_) hfinished
    exact htrace ▸ List.mem_append_right _ (List.mem_singleton_self _)
  | value | broken =>
    have hdestroy : a.destroy id = a := by rw [destroy, hid]
    rw [hdestroy]
    refine h.update hmem hcalls (fun _ _ => rfl) (fun n r hempty hr => ?_) (fun n hempty hn => ?_) fun n hn => ?_
    · cases hempty.symm.trans hr
    · cases hempty.symm.trans hn
    · by_cases heq : n = id
      · rw [heq, hid]
        exact nofun
      · exact hfinished n heq hn

theorem setHandler (h : Inv a) (handler : HandlerPlace) : Inv { a with handler := handler } :=
  { h with
    justified := fun id response hmem =>
      (h.justified id response hmem).mono (fun _ he => he) (fun _ hr => hr) fun _ hr => hr }

theorem commit (h : Inv a) (result : CommitResult) (hstarted : .started (submission id) ∈ a.scheduler.trace)
    (hnone : ∀ r, (id, r) ∉ a.results) : Inv { a with results := a.results ++ [(id, result)] } := by
  refine { h with results := ?_, started := ?_, value := ?_, justified := ?_ }
  · rw [List.map_append]
    refine h.results.append (List.nodup_singleton _) (List.disjoint_singleton.2 fun hmem => ?_)
    obtain ⟨⟨_, r⟩, hr, rfl⟩ := List.mem_map.1 hmem
    exact hnone r hr
  · intro n r hmem
    rcases List.mem_append.1 hmem with hmem | hmem
    · exact h.started n r hmem
    · cases List.mem_singleton.1 hmem
      exact hstarted
  · exact fun n r hr => List.mem_append_left _ (h.value n r hr)
  · intro n response hmem
    exact (h.justified n response hmem).mono (fun _ he => he) (fun _ hr => List.mem_append_left _ hr) fun _ hr => hr

section Places
variable [DecidableEq P]

/-- A request goes to a place where it has the same submission as before. -/
theorem goto (h : Inv a) {place : CommitPlace} (hsame : ∀ id, place.id = some id → (a.places p).id = some id)
    (hwaiting : ∀ id, place = .waiting id → .returned (submission id) .accepted ∈ a.scheduler.trace) :
    Inv (a.goto p place) := by
  have hid : ∀ q id, ((a.goto p place).places q).id = some id → (a.places q).id = some id := by
    intro q id hq
    by_cases hqp : q = p
    · subst hqp
      rw [show (a.goto q place).places q = place from Function.update_self ..] at hq
      exact hsame id hq
    · rwa [show (a.goto p place).places q = a.places q from Function.update_of_ne hqp ..] at hq
  refine { h with
    waiting := ?_
    justified := fun n response hmem => (h.justified n response hmem).of_places
    place_lt := fun q id hq => h.place_lt q id (hid q id hq)
    place_inj := fun q r id hq hr => h.place_inj q r id (hid q id hq) (hid r id hr)
    place_new := fun q id hq => h.place_new q id (hid q id hq) }
  intro q id hq
  by_cases hqp : q = p
  · subst hqp
    exact hwaiting id ((Function.update_self ..).symm.trans hq)
  · exact h.waiting q id ((Function.update_of_ne hqp ..).symm.trans hq)

/-- A request calls `TrySubmit`. -/
theorem call (h : Inv a) {s' : Scheduler.State T (SessionCommand Path R)}
    (htrace : s'.trace = a.scheduler.trace ++ [.called (submission a.scheduler.calls)])
    (hcalls : s'.calls = a.scheduler.calls + 1) :
    Inv { a.goto p (.called a.scheduler.calls) with scheduler := s' } := by
  have hset : Inv { a with scheduler := s' } := h.setScheduler (fun e he => htrace ▸ List.mem_append_left _ he)
    (hcalls ▸ Nat.le_succ _) fun id hid => by
      rw [htrace] at hid
      simpa using hid
  have hplace : ∀ q, q ≠ p → (a.goto p (.called a.scheduler.calls)).places q = a.places q :=
    fun q hq => Function.update_of_ne hq ..
  have hself : (a.goto p (.called a.scheduler.calls)).places p = .called a.scheduler.calls := Function.update_self ..
  refine { hset with
    waiting := ?_
    justified := fun n response hmem => (hset.justified n response hmem).of_places
    place_lt := ?_
    place_inj := ?_
    place_new := ?_ }
  · intro q id hq
    by_cases hqp : q = p
    · subst hqp
      cases hself.symm.trans hq
    · exact hset.waiting q id ((hplace q hqp).symm.trans hq)
  · intro q id hq
    by_cases hqp : q = p
    · subst hqp
      obtain rfl := Option.some.inj ((congrArg CommitPlace.id hself).symm.trans hq)
      exact hcalls ▸ Nat.lt_succ_self _
    · exact hset.place_lt q id ((congrArg CommitPlace.id (hplace q hqp)).symm.trans hq)
  · intro q r id hq hr
    by_cases hqp : q = p <;> by_cases hrp : r = p
    · rw [hqp, hrp]
    · subst hqp
      obtain rfl := Option.some.inj ((congrArg CommitPlace.id hself).symm.trans hq)
      exact absurd (h.place_lt r _ ((congrArg CommitPlace.id (hplace r hrp)).symm.trans hr)) (lt_irrefl _)
    · subst hrp
      obtain rfl := Option.some.inj ((congrArg CommitPlace.id hself).symm.trans hr)
      exact absurd (h.place_lt q _ ((congrArg CommitPlace.id (hplace q hqp)).symm.trans hq)) (lt_irrefl _)
    · exact h.place_inj q r id ((congrArg CommitPlace.id (hplace q hqp)).symm.trans hq)
        ((congrArg CommitPlace.id (hplace r hrp)).symm.trans hr)
  · intro q id hq hmem
    by_cases hqp : q = p
    · subst hqp
      obtain rfl := Option.some.inj ((congrArg CommitPlace.id hself).symm.trans hq)
      exact absurd (h.answered_lt _ hmem) (lt_irrefl _)
    · exact h.place_new q id ((congrArg CommitPlace.id (hplace q hqp)).symm.trans hq) hmem

theorem respond (h : Inv a) {n : Option Nat} {status : CommitRequestStatus} {error : String}
    (hn : ∀ id, n = some id → (a.places p).id = some id) (hjust : a.Justified n (commitSession error status)) :
    Inv (a.respond p n status error) := by
  have hgoto : Inv (a.goto p .idle) := h.goto nofun nofun
  have hanswered : (a.respond p n status error).answered = a.answered ++ n.toList := by
    show List.filterMap Prod.fst (a.responses ++ [(n, _)]) = _
    cases n <;> simp [answered]
  refine { hgoto with justified := ?_, place_new := ?_, answered_lt := ?_, answered_nodup := ?_ }
  · intro m response hmem
    rcases List.mem_append.1 hmem with hmem | hmem
    · exact (h.justified m response hmem).of_places
    · cases List.mem_singleton.1 hmem
      exact hjust.of_places
  · intro q id hq hmem
    rw [hanswered, List.mem_append, Option.mem_toList] at hmem
    rcases hmem with hmem | rfl
    · exact hgoto.place_new q id hq hmem
    · by_cases hqp : q = p
      · subst hqp
        rw [show (a.respond q (some id) status error).places q = .idle from Function.update_self ..] at hq
        cases hq
      · have heq : (a.respond p (some id) status error).places q = a.places q := Function.update_of_ne hqp ..
        rw [heq] at hq
        exact hqp (h.place_inj q p id hq (hn id rfl))
  · intro id hmem
    rw [hanswered, List.mem_append, Option.mem_toList] at hmem
    rcases hmem with hmem | rfl
    · exact h.answered_lt id hmem
    · exact h.place_lt p id (hn id rfl)
  · rw [hanswered]
    refine h.answered_nodup.append n.toList_nodup fun id hmem hid => ?_
    exact h.place_new p id (hn id (Option.mem_toList.1 hid)) hmem

theorem reacts (h : Inv a) {s' : Scheduler.State T (SessionCommand Path R)}
    {e : Scheduler.Event (SessionCommand Path R)} (htrace : s'.trace = a.scheduler.trace ++ [e])
    (hcalls : a.scheduler.calls ≤ s'.calls)
    (hcalled : ∀ x, e = .called x → x.id = a.scheduler.calls ∧ s'.calls = a.scheduler.calls + 1)
    (hr : Reacts a e a') : Inv { a' with scheduler := s' } := by
  have hmem : ∀ e ∈ a.scheduler.trace, e ∈ s'.trace := fun e he => htrace ▸ List.mem_append_left _ he
  have hlast : e ∈ s'.trace := htrace ▸ List.mem_append_right _ (List.mem_singleton_self e)
  have hset : (∀ x, e ≠ .finished x) → Inv { a with scheduler := s' } := by
    refine fun hne => h.setScheduler hmem hcalls fun id hid => ?_
    rw [htrace, List.mem_append, List.mem_singleton] at hid
    exact hid.resolve_right fun heq => hne _ heq.symm
  cases hr with
  | @call p id hp =>
    obtain ⟨hid, hsucc⟩ := hcalled _ rfl
    obtain rfl : id = a.scheduler.calls := hid
    exact h.call htrace hsucc
  | callOther _ => exact hset nofun
  | push => exact hset nofun
  | @accept p id hp =>
    refine (hset nofun).goto (fun n hn => (congrArg CommitPlace.id hp).trans hn) fun n hn => ?_
    · cases hn
      exact hlast
  | @refuse p id status hp hstatus =>
    exact (hset nofun).respond (fun n hn => (congrArg CommitPlace.id hp).trans hn) (.refused hstatus hlast)
  | returnOther _ => exact hset nofun
  | start => exact (hset nofun).setHandler _
  | startOther _ => exact hset nofun
  | finish => exact (h.finish htrace hcalls).setHandler _
  | @finishOther x hx =>
    refine h.setScheduler hmem hcalls fun id hid => ?_
    rw [htrace, List.mem_append, List.mem_singleton] at hid
    refine hid.resolve_right fun heq => hx ?_
    rw [← Scheduler.Event.finished.inj heq]
    rfl

theorem step [Fintype T] [DecidableEq T] (h : Inv a) (hh : HandlerInv a)
    (hr : (Scheduler.system T (SessionCommand Path R)).Reachable a.scheduler) (hs : Step a a') : Inv a' := by
  cases hs with
  | silent hs htrace =>
    exact h.setScheduler (fun e he => htrace ▸ he) hs.calls_le fun id hid => htrace ▸ hid
  | schedule hs htrace hreacts =>
    refine h.reacts htrace hs.calls_le (fun x hx => ?_) hreacts
    exact Scheduler.id_of_called hr hs (hx ▸ htrace)
  | find hp => exact h.goto nofun nofun
  | unknownSession hp => exact h.respond nofun .unknownSession
  | noQueue hp => exact h.respond nofun .closing
  | @commit n result hn =>
    exact (h.commit result (hh.started n (congrArg HandlerPlace.id hn)) (hh.committing n hn)).setHandler _
  | @setValue n result hn =>
    have hid : a.promises n = .empty := hh.empty n (congrArg HandlerPlace.id hn)
    have hset : Inv (a.setPromise n (.value result)) := by
      refine h.settle (fun _ he => he) (Nat.le_refl _) hid nofun (fun r hr => ?_) nofun fun m _ hm => h.finished m hm
      exact Promise.value.inj hr ▸ hh.committed n result hn
    exact hset.setHandler _
  | @ready p id result hp hid =>
    exact h.respond (fun n hn => (congrArg CommitPlace.id hp).trans hn) (.result (h.value id result hid))
  | @broken p id hp hid =>
    exact h.respond (fun n hn => (congrArg CommitPlace.id hp).trans hn) (.failed (h.broken id hid) hid)
  | @timeout p id hp hid =>
    exact h.respond (fun n hn => (congrArg CommitPlace.id hp).trans hn) (.timedOut (h.waiting p id hp))

end Places
end Inv

namespace HandlerInv

theorem init : HandlerInv ({} : CommitRequests T P Path R) where
  started _ h := nomatch h
  empty _ h := nomatch h
  committing _ h := nomatch h
  committed _ _ h := nomatch h

/-- The scheduler and the requests go on. -/
theorem keep (h : HandlerInv a) (htrace : ∀ e ∈ a.scheduler.trace, e ∈ a'.scheduler.trace)
    (hhandler : a'.handler = a.handler) (hpromises : a'.promises = a.promises) (hresults : a'.results = a.results) :
    HandlerInv a' where
  started id hid := htrace _ (h.started id (hhandler ▸ hid))
  empty id hid := hpromises ▸ h.empty id (hhandler ▸ hid)
  committing id hid := hresults ▸ h.committing id (hhandler ▸ hid)
  committed id r hid := hresults ▸ h.committed id r (hhandler ▸ hid)

/-- No promise is to be set. -/
theorem of_none (h : a.handler.id = none) : HandlerInv a where
  started _ hid := nomatch h.symm.trans hid
  empty _ hid := nomatch h.symm.trans hid
  committing _ hid := nomatch h.symm.trans (congrArg HandlerPlace.id hid)
  committed _ _ hid := nomatch h.symm.trans (congrArg HandlerPlace.id hid)

/-- A commit that was not started before has no result, and its promise is empty. -/
theorem start [Fintype T] [DecidableEq T] (h : Inv a)
    (hr : (Scheduler.system T (SessionCommand Path R)).Reachable a.scheduler)
    {s' : Scheduler.State T (SessionCommand Path R)} (hs : Scheduler.Step a.scheduler s')
    (htrace : s'.trace = a.scheduler.trace ++ [.started (submission id)]) :
    HandlerInv { a with scheduler := s', handler := .committing id } := by
  have hnew := Scheduler.not_started_of_start hr hs htrace
  have hnone : ∀ r, (id, r) ∉ a.results := fun r hmem => hnew (h.started id r hmem)
  have hempty : a.promises id = .empty := by
    cases hid : a.promises id with
    | empty => rfl
    | value r => exact absurd (h.value id r hid) (hnone r)
    | broken => exact absurd (Scheduler.started_of_finished hr (h.broken id hid)) hnew
  constructor
  · rintro n hn
    cases hn
    exact htrace ▸ List.mem_append_right _ (List.mem_singleton_self _)
  · rintro n hn
    cases hn
    exact hempty
  · rintro n hn
    cases hn
    exact hnone
  · rintro n r hn
    cases hn

theorem step [Fintype T] [DecidableEq T] [DecidableEq P] (hh : HandlerInv a) (h : Inv a)
    (hr : (Scheduler.system T (SessionCommand Path R)).Reachable a.scheduler) (hs : Step a a') : HandlerInv a' := by
  cases hs with
  | silent hs htrace => exact hh.keep (fun e he => htrace ▸ he) rfl rfl rfl
  | @schedule s' e _ hs htrace hreacts =>
    have hmem : ∀ e ∈ a.scheduler.trace, e ∈ s'.trace := fun e he => htrace ▸ List.mem_append_left _ he
    cases hreacts with
    | start => exact start h hr hs htrace
    | finish => exact of_none rfl
    | _ => exact hh.keep hmem rfl rfl rfl
  | @commit n result hn =>
    constructor
    · rintro m hm
      cases hm
      exact hh.started n (congrArg HandlerPlace.id hn)
    · rintro m hm
      cases hm
      exact hh.empty n (congrArg HandlerPlace.id hn)
    · rintro m hm
      cases hm
    · rintro m r hm
      cases hm
      exact List.mem_append_right _ (List.mem_singleton_self _)
  | setValue _ => exact of_none rfl
  | _ => exact hh.keep (fun _ he => he) rfl rfl rfl

end HandlerInv

/-! ### Runs -/

variable [DecidableEq T] [DecidableEq P]

theorem scheduler_of_reachable (h : (system T P Path R).Reachable a) :
    (Scheduler.system T (SessionCommand Path R)).Reachable a.scheduler := by
  induction h with
  | init h =>
    cases h
    exact .init rfl
  | step _ hs ih =>
    cases hs with
    | silent hs _ => exact ih.step hs
    | schedule hs _ _ => exact ih.step hs
    | _ => exact ih

variable [Fintype T]

theorem inv_of_reachable (h : (system T P Path R).Reachable a) : a.Inv ∧ a.HandlerInv := by
  refine Lts.System.invariant (I := fun a => a.Inv ∧ a.HandlerInv) ?_ (fun _ _ hr h hs => ?_) h
  · rintro _ rfl
    exact ⟨.init, .init⟩
  · exact ⟨h.1.step h.2 (scheduler_of_reachable hr) hs, h.2.step h.1 (scheduler_of_reachable hr) hs⟩

/-- Every response tells what became of the request's own commit. A commit runs once at most, after the ones accepted
before it was submitted, and not at all if it was refused; when the scheduler is at rest, each one that was accepted has
run and its promise is there for the request, also if the request has given up. -/
theorem responses_justified (h : (system T P Path R).Reachable a) :
    (∀ id response, (id, response) ∈ a.responses → a.Justified id response) ∧ a.answered.Nodup ∧
      (a.results.map Prod.fst).Nodup ∧
      (∀ id r status, (id, r) ∈ a.results → .returned (submission id) status ∈ a.scheduler.trace →
        status = .accepted) ∧
      (∀ m n r, List.Sublist [.returned (submission m) .accepted, .called (submission n)] a.scheduler.trace →
        (n, r) ∈ a.results → .finished (submission m) ∈ a.scheduler.trace) ∧
      ((∀ t, a.scheduler.threads t = .idle) → a.scheduler.tasks = 0 → ∀ id,
        .returned (submission id) .accepted ∈ a.scheduler.trace →
          .finished (submission id) ∈ a.scheduler.trace ∧ a.promises id ≠ .empty) := by
  have hr := scheduler_of_reachable h
  have hi := (inv_of_reachable h).1
  have hsched := Scheduler.inv_of_reachable hr
  have hh := Scheduler.history_of_reachable hr
  refine ⟨hi.justified, hi.answered_nodup, hi.results, ?_, ?_, ?_⟩
  · intro id r status hmem hreturned
    by_contra hstatus
    exact Scheduler.not_started_of_rejected hr hreturned hstatus (hi.started id r hmem)
  · intro m n r hsub hmem
    have hstarted := hh.started_in_order hsched (a := submission m) (b := submission n) rfl hsub (hi.started n r hmem)
    exact (hh.serial _ _ hstarted).subset (List.mem_cons_self ..)
  · intro hidle htasks id haccepted
    have hempty := Scheduler.not_unpopped_of_idle hr hidle htasks
    have hpushed := (Scheduler.mem_pushedOf _).1 (hh.pushed_of_accepted haccepted)
    have hfinished := hh.finished_of_pushed hsched hempty (fun t => by rw [hidle t]; rfl) hpushed
    exact ⟨hfinished, hi.finished id hfinished⟩

/-- A request gives up while the consumer is in the handler of its commit, which then succeeds. -/
theorem responses_after_timeout : ∃ a : CommitRequests Bool Unit Nat Int,
    a.responses = [(some 0, commitSession "commit did not complete in time" .unavailable)] ∧
      a.results = [(0, ⟨.ok, ""⟩)] ∧ (∀ id response, (id, response) ∈ a.responses → a.Justified id response) ∧
      .finished (submission 0) ∈ a.scheduler.trace ∧ a.promises 0 ≠ .empty := by
  have h : (system Bool Unit Nat Int).Reachable {} := .init rfl
  replace h := h.step (.find (p := ()) rfl)
  replace h := h.step (.schedule (.call true .normal .commit rfl) rfl (.call (p := ()) rfl))
  replace h := h.step (.silent (.announce true _ _ rfl) rfl)
  replace h := h.step (.silent (.admission true _ _ rfl) rfl)
  replace h := h.step (.silent (.push true false _ _ _ rfl) rfl)
  replace h := h.step (.silent (.push true false _ _ _ rfl) rfl)
  replace h := h.step (.schedule (.push true false _ _ _ rfl) rfl .push)
  replace h := h.step (.silent (.push true false _ _ _ rfl) rfl)
  replace h := h.step (.silent (.push true false _ _ _ rfl) rfl)
  replace h := h.step (.silent (.exchange true _ rfl) rfl)
  replace h := h.step (.schedule (.post true _ rfl) rfl (.accept (p := ()) rfl))
  replace h := h.step (.silent (.startTask false rfl (by decide)) (List.append_nil _))
  replace h := h.step (.silent (.pop false _ _ _ _ _ rfl) (List.append_nil _))
  replace h := h.step (.silent (.pop false _ _ _ _ _ rfl) (List.append_nil _))
  replace h := h.step (.silent (.pop false _ _ _ _ _ rfl) (List.append_nil _))
  replace h := h.step (.silent (.pop false _ _ _ _ _ rfl) (List.append_nil _))
  replace h := h.step (.silent (.pop false _ _ _ _ _ rfl) (List.append_nil _))
  replace h := h.step (.silent (.pop false _ _ _ _ _ rfl) (List.append_nil _))
  replace h := h.step (.schedule (.pop false _ _ _ _ _ rfl) rfl (.start (n := 0)))
  replace h := h.step (.timeout (p := ()) rfl rfl)
  replace h := h.step (.commit (n := 0) ⟨.ok, ""⟩ rfl)
  replace h := h.step (.setValue (n := 0) rfl)
  replace h := h.step (.schedule (.finish false _ _ _ _ rfl) rfl (.finish (n := 0)))
  replace h := h.step (.silent (.release false _ _ _ rfl) (List.append_nil _))
  replace h := h.step (.silent (.pop false _ _ _ _ _ rfl) (List.append_nil _))
  replace h := h.step (.silent (.pop false _ _ _ _ _ rfl) (List.append_nil _))
  replace h := h.step (.silent (.pop false _ _ _ _ _ rfl) (List.append_nil _))
  replace h := h.step (.silent (.pop false _ _ _ _ _ rfl) (List.append_nil _))
  replace h := h.step (.silent (.checkPending false _ _ _ rfl) (List.append_nil _))
  replace h := h.step (.silent (.clear false _ _ _ rfl) (List.append_nil _))
  replace h := h.step (.silent (.recheck false _ _ _ rfl) (List.append_nil _))
  obtain ⟨hjustified, -, -, -, -, hrest⟩ := responses_justified h
  obtain ⟨hfinished, hpromise⟩ := hrest (Bool.rec rfl rfl) rfl 0 (by decide)
  exact ⟨_, rfl, rfl, hjustified, hfinished, hpromise⟩

end CommitRequests
end IdtxCore
