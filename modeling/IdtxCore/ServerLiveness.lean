import IdtxCore.SchedulerLiveness
import IdtxCore.ThreadedServer

/-!
# Every request is answered

When the clients stop sending and the server submits nothing more by itself, a fair run of the threaded server ends with
one ack for every request (`answered_of_fair`). A message handler only goes forward through its places (`handlerWork`),
so it makes finitely many submissions; the scheduler then comes to rest, and what is at rest is accounted for by
`Server`. That `TrySubmit` returns is not assumed of the handlers but follows from the fairness of the threads.
-/

namespace IdtxCore

/-- How many places a message handler may still go through. -/
def CallPlace.rank {Path R : Type} : CallPlace Path R → Nat
  | .idle => 0
  | .clearing _ => 1
  | .calledCorrection .. => 2
  | .submittingCorrection _ => 3
  | .correcting _ => 4
  | .rejecting .. => 5
  | .called .. => 6
  | .submitting _ => 7

theorem CallPlace.rank_afterReturn_lt {Path R : Type} {c : ConnectionId} {place : CallPlace Path R}
    {x : Scheduler.Submission (SessionCommand Path R)} (h : place.submission c = some x)
    (status : Scheduler.CommandAdmissionStatus) : (place.afterReturn status).rank < place.rank := by
  cases place with
  | called request id =>
    unfold afterReturn
    split_ifs <;> simp [rank]
  | calledCorrection primPath id =>
    unfold afterReturn
    split_ifs <;> simp [rank]
  | _ => cases h

namespace ThreadedServer
variable {T σ Path R : Type} [DecidableEq T] [LinearOrder Path] {env : Session.Env σ Path R}
  {a a' : ThreadedServer T σ Path R} {c : ConnectionId}

/-! ### Message handlers go forward -/

omit [LinearOrder Path] in
theorem rank_afterRejection_lt (request : Request Path R) (status : SubmitStatus) :
    (afterRejection env request status).rank < (CallPlace.rejecting request status).rank := by
  unfold afterRejection
  split
  · split_ifs <;> simp [CallPlace.rank]
  · simp [CallPlace.rank]

omit [DecidableEq T] in
theorem clearMark_frame (command : SessionCommand Path R) (a : ThreadedServer T σ Path R) :
    (clearMark command a).io = a.io ∧ (clearMark command a).received = a.received := by
  cases command <;> exact ⟨rfl, rfl⟩

/-- What a step does to the message handlers: nothing, a request arrives, or one of them goes on. -/
inductive Handlers (a a' : ThreadedServer T σ Path R) : Prop where
  | keep : a'.received = a.received → a'.io = a.io → Handlers a a'
  | receive {c : ConnectionId} {request : Request Path R} : a'.received = a.received ++ [(c, request.requestId)] →
      a'.io = Function.update a.io c (.submitting request) → Handlers a a'
  | forward {c : ConnectionId} {place : CallPlace Path R} : a'.received = a.received →
      a'.io = Function.update a.io c place → place.rank < (a.io c).rank → Handlers a a'

theorem Step.handlers (hs : Step env a a') : Handlers a a' := by
  have forward : ∀ {a' : ThreadedServer T σ Path R} {c : ConnectionId} {place old : CallPlace Path R}, a.io c = old →
      a'.received = a.received → a'.io = Function.update a.io c place → place.rank < old.rank → Handlers a a' := by
    rintro a' c place _ rfl hreceived hio hlt
    exact .forward hreceived hio hlt
  cases hs with
  | silent | attach | detach => exact .keep rfl rfl
  | schedule _ _ hreacts =>
    cases hreacts with
    | callRequest hc => exact forward hc rfl rfl (Nat.lt_succ_self 6)
    | callCorrection hc => exact forward hc rfl rfl (Nat.lt_succ_self 2)
    | callInternal | push | returnedInternal | start => exact .keep rfl rfl
    | returned hc => exact forward rfl rfl rfl (CallPlace.rank_afterReturn_lt hc _)
    | @finish x _ _ => exact .keep (clearMark_frame x.command a).2 (clearMark_frame x.command a).1
  | receive request => exact .receive rfl rfl
  | unknownSession hc => exact forward hc rfl rfl (by simp [CallPlace.rank])
  | reject hc => exact forward hc rfl rfl (rank_afterRejection_lt _ _)
  | markedAlready hc | sessionGone hc | mark hc | clear hc => exact forward hc rfl rfl (by simp [CallPlace.rank])

/-- The connections that have sent a request. -/
def senders (a : ThreadedServer T σ Path R) : Finset ConnectionId := (a.received.map Prod.fst).toFinset

theorem mem_senders (h : (system T env).Reachable a) (hc : a.io c ≠ .idle) : c ∈ a.senders := by
  induction h with
  | init h =>
    obtain ⟨stage, rfl⟩ := h
    exact absurd rfl hc
  | @step a a' _ hs ih =>
    cases Step.handlers hs with
    | keep hreceived hio =>
      rw [senders, hreceived]
      exact ih (hio ▸ hc)
    | @receive d request hreceived hio =>
      rw [senders, hreceived]
      rw [hio] at hc
      by_cases hcd : c = d
      · simp [hcd]
      · rw [Function.update_of_ne hcd] at hc
        have hmem := ih hc
        rw [senders, List.mem_toFinset] at hmem
        simp [hmem]
    | @forward d place hreceived hio hlt =>
      rw [senders, hreceived]
      refine ih fun hidle => ?_
      have hcd : c ≠ d := by
        rintro rfl
        rw [hidle] at hlt
        cases hlt
      rw [hio, Function.update_of_ne hcd] at hc
      exact hc hidle

def handlerWork (a : ThreadedServer T σ Path R) : Nat := ∑ c ∈ a.senders, (a.io c).rank

/-- Without a new request the handlers stay where they are or have less to do. -/
theorem Step.handlerWork_lt (h : (system T env).Reachable a) (hs : Step env a a')
    (hreceived : a'.received = a.received) : a'.io = a.io ∨ a'.handlerWork < a.handlerWork := by
  cases hs.handlers with
  | keep _ hio => exact .inl hio
  | receive happend _ =>
    rw [hreceived] at happend
    exact absurd happend (by simp)
  | @forward d place _ hio hlt =>
    right
    unfold handlerWork senders
    rw [hreceived, hio]
    refine Finset.sum_lt_sum (fun c _ => ?_) ⟨d, mem_senders h ?_, by rwa [Function.update_self]⟩
    · by_cases hcd : c = d
      · rw [hcd, Function.update_self]
        exact hlt.le
      · rw [Function.update_of_ne hcd]
    · intro hidle
      rw [hidle] at hlt
      cases hlt

/-! ### Fair runs -/

theorem Step.scheduler (hs : Step env a a') :
    a'.scheduler = a.scheduler ∨ Scheduler.Step a.scheduler a'.scheduler := by
  cases hs with
  | silent hs _ => exact .inr hs
  | schedule hs _ _ => exact .inr hs
  | _ => exact .inl rfl

/-- The run of the scheduler in a run of the server. -/
def schedulerRun (run : (system T env).Execution) : (Scheduler.system T (SessionCommand Path R)).Execution where
  state n := (run.state n).scheduler
  init := by
    obtain ⟨stage, hinit⟩ := run.init
    rw [hinit]
    rfl
  next n := by
    rcases run.next n with heq | hs
    · exact .inl (congrArg ThreadedServer.scheduler heq)
    · exact Step.scheduler hs

/-- The threads are fair, and no handler stays for ever at a place outside `TrySubmit` and `TrySubmitPriority`. -/
structure Fair (run : (system T env).Execution) : Prop where
  scheduler : Scheduler.Fair (schedulerRun run)
  io : ∀ n c, (run.state n).io c ≠ .idle → ((run.state n).io c).submission c = none →
    ∃ m, n ≤ m ∧ (run.state m).io c ≠ (run.state n).io c

/-- From `n` on the clients send nothing, only message handlers submit, and `compare_exchange_weak` fails only where it
has to. -/
structure SettlesFrom (run : (system T env).Execution) (n : Nat) : Prop where
  received : ∀ m, n ≤ m → (run.state (m + 1)).received = (run.state m).received
  called : ∀ m, n ≤ m → (run.state (m + 1)).scheduler.calls ≠ (run.state m).scheduler.calls →
    (run.state (m + 1)).io ≠ (run.state m).io
  spurious : ∀ m, n ≤ m → ¬Scheduler.SpuriousFailure (run.state m).scheduler (run.state (m + 1)).scheduler

variable {run : (system T env).Execution} {n : Nat}

theorem SettlesFrom.exists_io (h : SettlesFrom run n) :
    ∃ m, n ≤ m ∧ ∀ m', m ≤ m' → (run.state m').io = (run.state m).io := by
  have hnext : ∀ m, n ≤ m → (run.state (m + 1)).io = (run.state m).io ∧
      (run.state (m + 1)).handlerWork = (run.state m).handlerWork ∨
        (run.state (m + 1)).handlerWork < (run.state m).handlerWork := by
    intro m hm
    rcases run.next m with heq | hs
    · rw [heq]
      exact .inl ⟨rfl, rfl⟩
    · refine (Step.handlerWork_lt (run.reachable m) hs (h.received m hm)).imp_left fun hio => ⟨hio, ?_⟩
      rw [handlerWork, handlerWork, senders, senders, h.received m hm, hio]
  obtain ⟨m, hm, hconst⟩ := run.exists_const (n := n) handlerWork fun m hm =>
    (hnext m hm).elim (fun h => h.2.le) le_of_lt
  refine ⟨m, hm, fun m' hm' => ?_⟩
  induction hm' with
  | refl => rfl
  | @step k hk ih =>
    rcases hnext k (hm.trans hk) with ⟨hio, -⟩ | hlt
    · exact hio.trans ih
    · rw [hconst (k + 1) (Nat.le_succ_of_le hk), hconst k hk] at hlt
      exact absurd hlt (Nat.lt_irrefl _)

variable [Fintype T]

/-- In a fair run that settles, in the end every request of every attached client has been acked exactly once. -/
theorem answered_of_fair (hfair : Fair run) (hsettles : SettlesFrom run n) :
    ∃ m, n ≤ m ∧ ∀ m', m ≤ m' → (∀ c, (run.state m').io c = .idle) ∧
      ∀ c ∈ (run.state m').session.clients, (run.state m').receivedFrom c = (run.state m').session.acksTo c := by
  obtain ⟨n', hn', hio⟩ := hsettles.exists_io
  have hquiet : Scheduler.QuietFrom (schedulerRun run) n' := by
    intro m hm
    refine ⟨?_, hsettles.spurious m (hn'.trans hm)⟩
    by_contra hcalls
    refine hsettles.called m (hn'.trans hm) hcalls ?_
    rw [hio m hm, hio (m + 1) (Nat.le_succ_of_le hm)]
  obtain ⟨m, hm, hstable, hidle, htasks⟩ := hfair.scheduler.exists_rest hquiet
  refine ⟨m, hn'.trans hm, fun m' hm' => ?_⟩
  obtain ⟨b, hb, q, hserves⟩ := exists_serves (run.reachable m')
  have hr := scheduler_of_reachable (run.reachable m')
  have hscheduler : (run.state m').scheduler = (run.state m).scheduler := hstable m' hm'
  replace hidle : ∀ t, (run.state m').scheduler.threads t = .idle := hscheduler ▸ hidle
  replace htasks : (run.state m').scheduler.tasks = 0 := hscheduler ▸ htasks
  obtain ⟨hcalling, hreturning, hwaiting, hrunning⟩ :=
    hserves.implements.nothing_of_idle hidle (Scheduler.not_unpopped_of_idle hr hidle htasks)
  have hidleIo : ∀ c, (run.state m').io c = .idle := by
    intro c
    by_contra hbusy
    cases hsubmission : ((run.state m').io c).submission c with
    | some x =>
      rcases (hserves.io c).of_some hsubmission with ⟨hmem, -⟩ | ⟨hmem, -⟩
      · rw [hcalling] at hmem
        exact Multiset.notMem_zero x hmem
      · rw [hreturning] at hmem
        exact Multiset.notMem_zero x hmem
    | none =>
      obtain ⟨k, hk, hmoves⟩ := hfair.io m' c hbusy hsubmission
      have hn : n' ≤ m' := hm.trans hm'
      exact hmoves (by rw [hio k (hn.trans hk), hio m' hn])
  exact ⟨hidleIo, fun c hc => receivedFrom_of_serves hb hserves hwaiting hrunning hidleIo hc⟩

/-- The run of one request, which goes on at rest. -/
theorem answered_one_request : ∃ (run : (system Bool TwoLayerStage.env).Execution) (m : Nat),
    (run.state m).receivedFrom 1 = {10} ∧ (run.state m).session.acksTo 1 = {10} := by
  obtain ⟨a, h, hidle, htasks, hio, hcloser, hclient, hreceived⟩ := exists_run_to_rest
  obtain ⟨run, n, hend⟩ := h.exists_execution
  have hscheduler : ∀ m, n ≤ m → (schedulerRun run).state m = a.scheduler :=
    fun m hm => congrArg ThreadedServer.scheduler (hend m hm)
  obtain ⟨hfair, hquiet⟩ := Scheduler.fair_of_end hscheduler hidle htasks (by rw [hcloser]; decide)
    (by rw [hcloser]; decide)
  have hfair' : Fair run := by
    refine ⟨hfair, fun k c hbusy _ => ⟨n + k, Nat.le_add_left k n, fun heq => hbusy ?_⟩⟩
    rw [← heq, hend _ (Nat.le_add_right n k), hio]
  have hsettles : SettlesFrom run n := by
    refine ⟨fun m hm => ?_, fun m hm hcalls => absurd ?_ hcalls, fun m hm => (hquiet m hm).2⟩
    · rw [hend m hm, hend (m + 1) (Nat.le_succ_of_le hm)]
    · exact (hquiet m hm).1
  obtain ⟨m, hm, hrest⟩ := answered_of_fair hfair' hsettles
  have hacked := (hrest m le_rfl).2 1 (by rwa [hend m hm])
  rw [hend m hm] at hacked
  exact ⟨run, m, by rw [hend m hm, hreceived], by rw [hend m hm, ← hacked, hreceived]⟩

end ThreadedServer
end IdtxCore
