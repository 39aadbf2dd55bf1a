import IdtxCore.Lib.Lts
import Mathlib.Data.List.Basic
import Mathlib.Data.List.Nodup
import Mathlib.Logic.Function.Basic

/-!
# `WorkerExecutor`: the queue of tasks and its workers

A step is a critical section of a thread with what the thread does up to its next one: `W` are the workers, `P` the threads
that call `Post` and `C` the calls of `Stop`, any number of each. A task is named by the number of its call of `Post`,
and started where it is handed out. What it does is left open: it may call `Post` itself, and it returns or throws.

A worker leaves its loop only when the executor is stopping and the queue is empty, and both stay so (`Inv.exited`). As long
as a task is queued a worker is awake or a notification is on its way (`Inv.awake`); that is why none is stranded.
-/

namespace IdtxCore.WorkerExecutor

/-- Where a thread of `WorkerLoop` is. -/
inductive WorkerPlace where
  /-- about to take the mutex -/
  | ready
  /-- blocked in `work_available_.wait` -/
  | waiting
  | running (task : Nat)
  | exited
  deriving DecidableEq

/-- Where a call of `Stop` is. -/
inductive StopPlace where
  | idle
  /-- about to call `notify_all` -/
  | notifying
  | joining
  | returned
  deriving DecidableEq

structure State (W P C : Type) where
  stopping : Bool
  tasks : List Nat
  workers : W → WorkerPlace
  /-- The task that a thread has put into the queue, until it has called `notify_one`. -/
  posters : P → Option Nat
  stoppers : C → StopPlace
  /-- The number of calls of `Post` so far. -/
  calls : Nat
  accepted : List Nat
  started : List Nat
  /-- What the calls of `Post` have returned. -/
  returned : List (Nat × Bool)

namespace State
variable {W P C : Type}

/-- After the constructor, which throws if there are no workers. -/
def new : State W P C where
  stopping := false
  tasks := []
  workers _ := .ready
  posters _ := none
  stoppers _ := .idle
  calls := 0
  accepted := []
  started := []
  returned := []

def reject (s : State W P C) : State W P C :=
  { s with calls := s.calls + 1, returned := s.returned ++ [(s.calls, false)] }

/-- `Post` up to `notify_one`; `empty` is whether the task is an empty function. -/
def post [DecidableEq P] (s : State W P C) (p : P) (empty : Bool) : State W P C :=
  if empty then s.reject
  else if s.stopping then s.reject
  else
    { s with
      tasks := s.tasks ++ [s.calls]
      posters := Function.update s.posters p (some s.calls)
      calls := s.calls + 1
      accepted := s.accepted ++ [s.calls] }

/-- `Post` from `notify_one` on. -/
def postReturns [DecidableEq P] (s : State W P C) (p : P) (task : Nat) : State W P C :=
  { s with posters := Function.update s.posters p none, returned := s.returned ++ [(task, true)] }

def goto [DecidableEq W] (s : State W P C) (w : W) (place : WorkerPlace) : State W P C :=
  { s with workers := Function.update s.workers w place }

theorem workers_goto_same [DecidableEq W] (s : State W P C) (w : W) (place : WorkerPlace) :
    (s.goto w place).workers w = place := Function.update_self ..

/-- The critical section of `WorkerLoop`: the predicate of the wait, then the queue. -/
def take [DecidableEq W] (s : State W P C) (w : W) : State W P C :=
  if s.stopping ∨ s.tasks ≠ [] then
    match s.tasks with
    | [] => s.goto w .exited
    | task :: tasks => { s.goto w (.running task) with tasks := tasks, started := s.started ++ [task] }
  else s.goto w .waiting

/-- `Stop` up to `notify_all`. -/
def stop [DecidableEq C] (s : State W P C) (c : C) : State W P C :=
  if s.stopping then { s with stoppers := Function.update s.stoppers c .returned }
  else { s with stopping := true, stoppers := Function.update s.stoppers c .notifying }

def notifyAll [DecidableEq C] (s : State W P C) (c : C) : State W P C :=
  { s with
    workers := fun w => if s.workers w = .waiting then .ready else s.workers w
    stoppers := Function.update s.stoppers c .joining }

/-- All workers are joined. -/
def stopReturns [DecidableEq C] (s : State W P C) (c : C) : State W P C :=
  { s with stoppers := Function.update s.stoppers c .returned }

end State

variable {W P C : Type}

inductive Step [DecidableEq W] [DecidableEq P] [DecidableEq C] : State W P C → State W P C → Prop where
  | post {s : State W P C} (p : P) (empty : Bool) (h : s.posters p = none) : Step s (s.post p empty)
  /-- `notify_one` wakes one of the threads that wait. -/
  | notifyOne {s : State W P C} (p : P) (task : Nat) (w : W) (h : s.posters p = some task)
      (hwaiting : s.workers w = .waiting) : Step s ((s.goto w .ready).postReturns p task)
  | notifyNone {s : State W P C} (p : P) (task : Nat) (h : s.posters p = some task)
      (hnone : ∀ w, s.workers w ≠ .waiting) : Step s (s.postReturns p task)
  | take {s : State W P C} (w : W) (h : s.workers w = .ready) : Step s (s.take w)
  /-- The task returns, or throws and is caught. -/
  | finish {s : State W P C} (w : W) (task : Nat) (throws : Bool) (h : s.workers w = .running task) :
      Step s (s.goto w .ready)
  /-- A wait ends without a notification. -/
  | wake {s : State W P C} (w : W) (h : s.workers w = .waiting) : Step s (s.goto w .ready)
  | stop {s : State W P C} (c : C) (h : s.stoppers c = .idle) : Step s (s.stop c)
  | notifyAll {s : State W P C} (c : C) (h : s.stoppers c = .notifying) : Step s (s.notifyAll c)
  | join {s : State W P C} (c : C) (h : s.stoppers c = .joining) (hexited : ∀ w, s.workers w = .exited) :
      Step s (s.stopReturns c)

def system (W P C : Type) [DecidableEq W] [DecidableEq P] [DecidableEq C] : Lts.System (State W P C) where
  init s := s = .new
  step := Step

/-! ### The invariant -/

def WorkerPlace.Awake : WorkerPlace → Prop
  | .ready => True
  | .running _ => True
  | _ => False

structure Inv (s : State W P C) : Prop where
  order : s.accepted = s.started ++ s.tasks
  nodup : s.accepted.Nodup
  numbered : ∀ task ∈ s.accepted, task < s.calls
  posters : ∀ p task, s.posters p = some task → task ∈ s.accepted
  returned : ∀ task b, (task, b) ∈ s.returned → task < s.calls ∧ (b = true ↔ task ∈ s.accepted)
  exited : ∀ w, s.workers w = .exited → s.stopping = true ∧ s.tasks = []
  awake : s.tasks ≠ [] → (∃ w, (s.workers w).Awake) ∨ ∃ p, s.posters p ≠ none
  waiting : s.stopping = true → ∀ w, s.workers w = .waiting → ∃ c, s.stoppers c = .notifying

theorem update_cases {ι α : Type} [DecidableEq ι] {f : ι → α} {i j : ι} {x y : α} (h : Function.update f i x j = y) :
    j = i ∧ x = y ∨ j ≠ i ∧ f j = y := by
  by_cases hj : j = i
  · rw [hj, Function.update_self] at h
    exact .inl ⟨hj, h⟩
  · rw [Function.update_of_ne hj] at h
    exact .inr ⟨hj, h⟩

namespace Inv
variable {s : State W P C} {w : W} {p : P} {c : C} {task : Nat}

theorem new : Inv (.new : State W P C) where
  order := rfl
  nodup := .nil
  numbered _ h := nomatch h
  posters _ _ h := nomatch h
  returned _ _ h := nomatch h
  exited _ h := nomatch h
  awake h := absurd rfl h
  waiting h := nomatch h

theorem reject (h : Inv s) : Inv s.reject := by
  refine { h with numbered := fun task htask => (h.numbered task htask).trans (Nat.lt_succ_self _), returned := ?_ }
  intro task b hmem
  rcases List.mem_append.1 hmem with hmem | hmem
  · exact ⟨(h.returned task b hmem).1.trans (Nat.lt_succ_self _), (h.returned task b hmem).2⟩
  · cases List.mem_singleton.1 hmem
    refine ⟨Nat.lt_succ_self _, iff_of_false Bool.false_ne_true fun hmem => ?_⟩
    exact absurd (h.numbered _ hmem) (lt_irrefl _)

theorem post [DecidableEq P] (h : Inv s) (empty : Bool) : Inv (s.post p empty) := by
  unfold State.post
  split_ifs with hempty hstopping
  · exact h.reject
  · exact h.reject
  have hfresh : s.calls ∉ s.accepted := fun hmem => absurd (h.numbered _ hmem) (lt_irrefl _)
  refine ⟨?_, ?_, ?_, ?_, ?_, ?_, ?_, h.waiting⟩
  · show s.accepted ++ [s.calls] = s.started ++ (s.tasks ++ [s.calls])
    rw [h.order, List.append_assoc]
  · exact h.nodup.append (List.nodup_singleton _) (List.disjoint_singleton.2 hfresh)
  · intro task htask
    rcases List.mem_append.1 htask with htask | htask
    · exact (h.numbered task htask).trans (Nat.lt_succ_self _)
    · exact List.mem_singleton.1 htask ▸ Nat.lt_succ_self _
  · intro q task hq
    rcases update_cases hq with ⟨-, heq⟩ | ⟨-, hq⟩
    · exact List.mem_append_right _ (List.mem_singleton.2 (Option.some.inj heq).symm)
    · exact List.mem_append_left _ (h.posters q task hq)
  · intro task b hmem
    obtain ⟨hlt, hiff⟩ := h.returned task b hmem
    refine ⟨hlt.trans (Nat.lt_succ_self _), hiff.trans ?_⟩
    rw [List.mem_append, List.mem_singleton]
    exact (or_iff_left hlt.ne).symm
  · intro w hw
    exact absurd (h.exited w hw).1 hstopping
  · intro _
    exact .inr ⟨p, by simp⟩

/-- A thread comes to the head of the loop. -/
theorem goto_ready [DecidableEq W] (h : Inv s) (w : W) : Inv (s.goto w .ready) := by
  refine { h with exited := ?_, awake := ?_, waiting := ?_ }
  · intro v hv
    rcases update_cases hv with ⟨-, heq⟩ | ⟨-, hv⟩
    · cases heq
    · exact h.exited v hv
  · intro _
    refine .inl ⟨w, ?_⟩
    rw [State.workers_goto_same]
    trivial
  · intro hstopping v hv
    rcases update_cases hv with ⟨-, heq⟩ | ⟨-, hv⟩
    · cases heq
    · exact h.waiting hstopping v hv

/-- A notification is given: if a task is queued, a worker is awake now. -/
theorem postReturns [DecidableEq P] (h : Inv s) (hp : s.posters p = some task)
    (hawake : s.tasks ≠ [] → ∃ w, (s.workers w).Awake) : Inv (s.postReturns p task) := by
  refine { h with posters := ?_, returned := ?_, awake := fun htasks => .inl (hawake htasks) }
  · intro q other hq
    rcases update_cases hq with ⟨-, heq⟩ | ⟨-, hq⟩
    · cases heq
    · exact h.posters q other hq
  · intro other b hmem
    rcases List.mem_append.1 hmem with hmem | hmem
    · exact h.returned other b hmem
    · cases List.mem_singleton.1 hmem
      have htask := h.posters p task hp
      exact ⟨h.numbered task htask, iff_of_true rfl htask⟩

/-- With a task in the queue no worker has exited. -/
theorem awake_of_not_waiting (h : Inv s) (htasks : s.tasks ≠ []) (hw : s.workers w ≠ .waiting) : (s.workers w).Awake := by
  cases hplace : s.workers w with
  | ready => trivial
  | waiting => exact hw hplace
  | running task => trivial
  | exited => exact htasks (h.exited w hplace).2

theorem take [DecidableEq W] (h : Inv s) (w : W) : Inv (s.take w) := by
  unfold State.take
  split_ifs with hwork
  · cases htasks : s.tasks with
    | nil =>
      have hstopping : s.stopping = true := hwork.resolve_right (not_not.2 htasks)
      refine { h with exited := ?_, awake := fun hne => absurd htasks hne, waiting := ?_ }
      · intro v hv
        exact ⟨hstopping, htasks⟩
      · intro _ v hv
        rcases update_cases hv with ⟨-, heq⟩ | ⟨-, hv⟩
        · cases heq
        · exact h.waiting hstopping v hv
    | cons task tasks =>
      refine { h with order := ?_, exited := ?_, awake := ?_, waiting := ?_ }
      · show s.accepted = s.started ++ [task] ++ tasks
        rw [h.order, htasks, List.append_assoc, List.singleton_append]
      · intro v hv
        rcases update_cases hv with ⟨-, heq⟩ | ⟨-, hv⟩
        · cases heq
        · have hnil := (h.exited v hv).2
          rw [htasks] at hnil
          cases hnil
      · intro _
        refine .inl ⟨w, ?_⟩
        show ((s.goto w _).workers w).Awake
        rw [State.workers_goto_same]
        trivial
      · intro hstopping v hv
        rcases update_cases hv with ⟨-, heq⟩ | ⟨-, hv⟩
        · cases heq
        · exact h.waiting hstopping v hv
  · rw [not_or, not_not] at hwork
    refine { h with exited := ?_, awake := fun hne => absurd hwork.2 hne, waiting := fun hs => absurd hs hwork.1 }
    intro v hv
    rcases update_cases hv with ⟨-, heq⟩ | ⟨-, hv⟩
    · cases heq
    · exact h.exited v hv

theorem stop [DecidableEq C] (h : Inv s) (hc : s.stoppers c = .idle) : Inv (s.stop c) := by
  unfold State.stop
  split_ifs with hstopping
  · refine { h with waiting := fun _ v hv => ?_ }
    obtain ⟨d, hd⟩ := h.waiting hstopping v hv
    have hne : d ≠ c := by
      rintro rfl
      rw [hc] at hd
      cases hd
    exact ⟨d, (Function.update_of_ne hne ..).trans hd⟩
  · refine { h with
      exited := fun v hv => absurd (h.exited v hv).1 hstopping
      waiting := fun _ _ _ => ⟨c, Function.update_self ..⟩ }

theorem notifyAll [DecidableEq C] (h : Inv s) : Inv (s.notifyAll c) := by
  have hplace : ∀ v, (s.notifyAll c).workers v = s.workers v ∨ (s.notifyAll c).workers v = .ready := fun v => by
    show (if _ then _ else _) = _ ∨ (if _ then _ else _) = _
    split_ifs
    · exact .inr rfl
    · exact .inl rfl
  refine { h with exited := ?_, awake := ?_, waiting := ?_ }
  · intro v hv
    rcases hplace v with heq | heq
    · exact h.exited v (heq.symm.trans hv)
    · rw [heq] at hv
      cases hv
  · intro htasks
    refine (h.awake htasks).imp_left ?_
    rintro ⟨v, hv⟩
    refine ⟨v, ?_⟩
    rcases hplace v with heq | heq
    · rwa [heq]
    · rw [heq]
      trivial
  · intro _ v hv
    have hv' : (if s.workers v = .waiting then WorkerPlace.ready else s.workers v) = .waiting := hv
    split_ifs at hv' with hwaiting
    exact absurd hv' hwaiting

theorem stopReturns [DecidableEq C] (h : Inv s) (hexited : ∀ w, s.workers w = .exited) : Inv (s.stopReturns c) := by
  refine { h with waiting := fun _ v hv => ?_ }
  have hv' : s.workers v = .waiting := hv
  rw [hexited v] at hv'
  cases hv'

/-- When no thread of the executor has anything to do, all accepted tasks are started, and after `Stop` no worker is left. -/
theorem at_rest (h : Inv s) (hworkers : ∀ w, ¬(s.workers w).Awake) (hposters : ∀ p, s.posters p = none)
    (hstoppers : ∀ c, s.stoppers c ≠ .notifying) :
    s.started = s.accepted ∧ (s.stopping = true → ∀ w, s.workers w = .exited) := by
  have htasks : s.tasks = [] := by
    by_contra hne
    rcases h.awake hne with ⟨w, hw⟩ | ⟨p, hp⟩
    · exact hworkers w hw
    · exact hp (hposters p)
  refine ⟨?_, fun hstopping w => ?_⟩
  · rw [h.order, htasks, List.append_nil]
  · cases hw : s.workers w with
    | exited => rfl
    | waiting =>
      obtain ⟨c, hc⟩ := h.waiting hstopping w hw
      exact absurd hc (hstoppers c)
    | ready => exact absurd (by rw [hw]; trivial) (hworkers w)
    | running task => exact absurd (by rw [hw]; trivial) (hworkers w)

variable [DecidableEq W] [DecidableEq P] [DecidableEq C]

theorem step [Nonempty W] {s' : State W P C} (h : Inv s) (hs : Step s s') : Inv s' := by
  cases hs with
  | post p empty _ => exact h.post empty
  | notifyOne p task w hp _ =>
    refine (h.goto_ready w).postReturns hp fun _ => ⟨w, ?_⟩
    rw [State.workers_goto_same]
    trivial
  | notifyNone p task hp hnone =>
    obtain ⟨w⟩ := ‹Nonempty W›
    exact h.postReturns hp fun htasks => ⟨w, h.awake_of_not_waiting htasks (hnone w)⟩
  | take w _ => exact h.take w
  | finish w _ _ _ => exact h.goto_ready w
  | wake w _ => exact h.goto_ready w
  | stop c hc => exact h.stop hc
  | notifyAll c _ => exact h.notifyAll
  | join c _ hexited => exact h.stopReturns hexited

theorem of_reachable [Nonempty W] (h : (system W P C).Reachable s) : Inv s :=
  Lts.System.invariant (by rintro _ rfl; exact .new) (fun _ _ _ h hs => h.step hs) h

end Inv

/-! ### What a step changes -/

section
variable {s s' : State W P C} {w v : W} {p : P} {task : Nat}

theorem workers_goto_of_ne [DecidableEq W] {place : WorkerPlace} (h : v ≠ w) : (s.goto w place).workers v = s.workers v :=
  Function.update_of_ne h ..

theorem workers_post [DecidableEq P] (empty : Bool) : (s.post p empty).workers = s.workers := by
  unfold State.post
  split_ifs <;> rfl

theorem workers_stop [DecidableEq C] (c : C) : (s.stop c).workers = s.workers := by
  unfold State.stop
  split_ifs <;> rfl

theorem workers_notifyAll [DecidableEq C] (c : C) (h : s.workers w ≠ .waiting) :
    (s.notifyAll c).workers w = s.workers w := if_neg h

theorem posters_stop [DecidableEq C] (c : C) : (s.stop c).posters = s.posters := by
  unfold State.stop
  split_ifs <;> rfl

/-- The critical section of a worker that finds a task. -/
theorem take_cons [DecidableEq W] {tasks : List Nat} (h : s.tasks = task :: tasks) :
    s.take w = { s.goto w (.running task) with tasks := tasks, started := s.started ++ [task] } := by
  unfold State.take
  rw [if_pos (.inr (by rw [h]; exact List.cons_ne_nil _ _)), h]

/-- What any critical section of a worker leaves alone. -/
theorem take_frame [DecidableEq W] (s : State W P C) (w : W) : (s.take w).posters = s.posters ∧
    (s.take w).accepted = s.accepted ∧ (∀ v, v ≠ w → (s.take w).workers v = s.workers v) ∧
    s.started <+: (s.take w).started := by
  unfold State.take
  split_ifs
  · cases s.tasks with
    | nil => exact ⟨rfl, rfl, fun _ hv => workers_goto_of_ne hv, List.prefix_rfl⟩
    | cons task tasks => exact ⟨rfl, rfl, fun _ hv => workers_goto_of_ne hv, List.prefix_append _ _⟩
  · exact ⟨rfl, rfl, fun _ hv => workers_goto_of_ne hv, List.prefix_rfl⟩

variable [DecidableEq W] [DecidableEq P] [DecidableEq C]

theorem Step.lists (hs : Step s s') : s.accepted <+: s'.accepted ∧ s.started <+: s'.started := by
  cases hs with
  | post p empty _ =>
    unfold State.post
    split_ifs
    · exact ⟨List.prefix_rfl, List.prefix_rfl⟩
    · exact ⟨List.prefix_rfl, List.prefix_rfl⟩
    · exact ⟨List.prefix_append _ _, List.prefix_rfl⟩
  | take w _ =>
    obtain ⟨-, haccepted, -, hstarted⟩ := take_frame s w
    exact ⟨haccepted ▸ List.prefix_rfl, hstarted⟩
  | stop c _ =>
    unfold State.stop
    split_ifs <;> exact ⟨List.prefix_rfl, List.prefix_rfl⟩
  | notifyOne | notifyNone | finish | wake | notifyAll | join => exact ⟨List.prefix_rfl, List.prefix_rfl⟩

/-- A worker leaves the head of the loop by its critical section. -/
theorem Step.leaves_ready (hs : Step s s') (h : s.workers w = .ready) (hleaves : s'.workers w ≠ .ready) :
    s' = s.take w := by
  have hgoto : ∀ v, (s.goto v .ready).workers w = .ready := fun v => by
    by_cases hv : w = v
    · rw [hv, State.workers_goto_same]
    · rwa [workers_goto_of_ne hv]
  cases hs with
  | post p empty _ => exact absurd (by rwa [workers_post]) hleaves
  | notifyOne p task v _ _ => exact absurd (hgoto v) hleaves
  | notifyNone p task _ _ => exact absurd h hleaves
  | take v _ =>
    by_cases hv : w = v
    · rw [hv]
    · exact absurd (((take_frame s v).2.2.1 w hv).trans h) hleaves
  | finish v _ _ _ => exact absurd (hgoto v) hleaves
  | wake v _ => exact absurd (hgoto v) hleaves
  | stop c _ => exact absurd (by rwa [workers_stop]) hleaves
  | notifyAll c _ => exact absurd ((workers_notifyAll c (by simp [h])).trans h) hleaves
  | join c _ _ => exact absurd h hleaves

/-- And it comes back from its task whatever that does. -/
theorem Step.leaves_running (hs : Step s s') (h : s.workers w = .running task) (hleaves : s'.workers w ≠ .running task) :
    s'.workers w = .ready := by
  have hgoto : ∀ v, (s.goto v .ready).workers w = .ready ∨ (s.goto v .ready).workers w = .running task := fun v => by
    by_cases hv : w = v
    · exact .inl (by rw [hv, State.workers_goto_same])
    · exact .inr (by rwa [workers_goto_of_ne hv])
  cases hs with
  | post p empty _ => exact absurd (by rwa [workers_post]) hleaves
  | notifyOne p task v _ _ => exact (hgoto v).resolve_right hleaves
  | notifyNone p task _ _ => exact absurd h hleaves
  | take v hv =>
    have hne : w ≠ v := by
      rintro rfl
      rw [h] at hv
      cases hv
    exact absurd (((take_frame s v).2.2.1 w hne).trans h) hleaves
  | finish v _ _ _ => exact (hgoto v).resolve_right hleaves
  | wake v _ => exact (hgoto v).resolve_right hleaves
  | stop c _ => exact absurd (by rwa [workers_stop]) hleaves
  | notifyAll c _ => exact absurd ((workers_notifyAll c (by simp [h])).trans h) hleaves
  | join c _ _ => exact absurd h hleaves

/-- A notification finds a worker that waits, or all are awake. -/
theorem Step.leaves_posting [Nonempty W] (hs : Step s s') (hinv : Inv s) (htasks : s.tasks ≠ [])
    (h : s.posters p = some task) (hleaves : s'.posters p ≠ some task) : ∃ w, (s'.workers w).Awake := by
  cases hs with
  | post q empty hq =>
    have hne : p ≠ q := by
      rintro rfl
      rw [h] at hq
      cases hq
    refine absurd ?_ hleaves
    unfold State.post
    split_ifs
    · exact h
    · exact h
    · exact (Function.update_of_ne hne ..).trans h
  | notifyOne q task v _ _ =>
    refine ⟨v, ?_⟩
    show ((s.goto v .ready).workers v).Awake
    rw [State.workers_goto_same]
    trivial
  | notifyNone q task _ hnone =>
    obtain ⟨v⟩ := ‹Nonempty W›
    exact ⟨v, hinv.awake_of_not_waiting htasks (hnone v)⟩
  | take v _ => exact absurd (by rwa [(take_frame s v).1]) hleaves
  | stop c _ => exact absurd (by rwa [posters_stop]) hleaves
  | finish | wake | notifyAll | join => exact absurd h hleaves

end

/-! ### Every accepted task is started -/

/-- What holds between two steps: the started tasks are the first of the accepted ones, each once; what `Post` refused is
not among them; and when all workers have exited there is no task left. -/
structure Exact (s : State W P C) : Prop where
  started : s.accepted = s.started ++ s.tasks
  once : s.accepted.Nodup
  accepted : ∀ task, (task, true) ∈ s.returned → task ∈ s.accepted
  rejected : ∀ task, (task, false) ∈ s.returned → task ∉ s.accepted
  drained : (∀ w, s.workers w = .exited) → s.tasks = [] ∧ s.started = s.accepted

theorem Inv.exact [Nonempty W] {s : State W P C} (h : Inv s) : Exact s where
  started := h.order
  once := h.nodup
  accepted task hmem := (h.returned task true hmem).2.1 rfl
  rejected task hmem htask := Bool.false_ne_true ((h.returned task false hmem).2.2 htask)
  drained hexited := by
    obtain ⟨w⟩ := ‹Nonempty W›
    have htasks := (h.exited w (hexited w)).2
    exact ⟨htasks, by rw [h.order, htasks, List.append_nil]⟩

section
variable [DecidableEq W] [DecidableEq P] [DecidableEq C]

/-- No thread stands still for ever: a worker gets the mutex, a task ends, and `Post` comes to its notification. -/
structure Fair (run : (system W P C).Execution) : Prop where
  ready : ∀ n w, (run.state n).workers w = .ready → ∃ m, n ≤ m ∧ (run.state m).workers w ≠ .ready
  running : ∀ n w task, (run.state n).workers w = .running task → ∃ m, n ≤ m ∧ (run.state m).workers w ≠ .running task
  posting : ∀ n p task, (run.state n).posters p = some task → ∃ m, n ≤ m ∧ (run.state m).posters p ≠ some task

variable {run : (system W P C).Execution} {m n : Nat}

theorem lists_mono (run : (system W P C).Execution) (hle : m ≤ n) : (run.state m).accepted <+: (run.state n).accepted ∧
    (run.state m).started <+: (run.state n).started :=
  run.mono (I := fun s => (run.state m).accepted <+: s.accepted ∧ (run.state m).started <+: s.started)
    (fun _ _ _ h hs => ⟨h.1.trans (Step.lists hs).1, h.2.trans (Step.lists hs).2⟩) hle ⟨List.prefix_rfl, List.prefix_rfl⟩

theorem length_eq [Nonempty W] (run : (system W P C).Execution) (n : Nat) :
    (run.state n).accepted.length = (run.state n).started.length + (run.state n).tasks.length := by
  rw [(Inv.of_reachable (run.reachable n)).order, List.length_append]

/-- A ready worker takes a task sooner or later, if there is one all the time. -/
theorem Fair.grows_of_ready (h : Fair run) {w : W} (hw : (run.state n).workers w = .ready)
    (htasks : ∀ m, n ≤ m → (run.state m).tasks ≠ []) :
    ∃ m, n ≤ m ∧ (run.state n).started.length < (run.state m).started.length := by
  obtain ⟨m, hle, hready, hs, hleaves⟩ := run.exists_step_of_leaves (I := fun s => s.workers w = .ready) hw (h.ready n w hw)
  have htake := Step.leaves_ready hs hready hleaves
  obtain ⟨task, tasks, hcons⟩ := List.exists_cons_of_ne_nil (htasks m hle)
  refine ⟨m + 1, hle.trans (Nat.le_succ m), (lists_mono run hle).2.length_le.trans_lt ?_⟩
  rw [htake, take_cons hcons, List.length_append]
  exact Nat.lt_succ_self _

theorem Fair.grows_of_awake (h : Fair run) {w : W} (hw : ((run.state n).workers w).Awake)
    (htasks : ∀ m, n ≤ m → (run.state m).tasks ≠ []) :
    ∃ m, n ≤ m ∧ (run.state n).started.length < (run.state m).started.length := by
  cases hplace : (run.state n).workers w with
  | ready => exact h.grows_of_ready hplace htasks
  | running task =>
    obtain ⟨m, hle, hrunning, hs, hleaves⟩ := run.exists_step_of_leaves (I := fun s => s.workers w = .running task) hplace
      (h.running n w task hplace)
    have hready := Step.leaves_running hs hrunning hleaves
    obtain ⟨m', hle', hlt⟩ := h.grows_of_ready hready fun m' hm' => htasks m' (by omega)
    exact ⟨m', by omega, (lists_mono run (by omega)).2.length_le.trans_lt hlt⟩
  | waiting => rw [hplace] at hw; exact hw.elim
  | exited => rw [hplace] at hw; exact hw.elim

theorem Fair.grows [Nonempty W] (h : Fair run) (htasks : (run.state n).tasks ≠ []) :
    ∃ m, n ≤ m ∧ (run.state n).started.length < (run.state m).started.length := by
  by_contra hnone
  have hstuck : ∀ m, n ≤ m → (run.state m).tasks ≠ [] := by
    intro m hle hnil
    have haccepted := (lists_mono run hle).1.length_le
    have hpos := List.length_pos_iff.2 htasks
    have hn := length_eq run n
    have hm := length_eq run m
    rw [hnil, List.length_nil] at hm
    exact hnone ⟨m, hle, by omega⟩
  rcases (Inv.of_reachable (run.reachable n)).awake htasks with ⟨w, hw⟩ | ⟨p, hp⟩
  · exact hnone (h.grows_of_awake hw hstuck)
  · obtain ⟨task, htask⟩ := Option.ne_none_iff_exists'.1 hp
    obtain ⟨m, hle, hposting, hs, hleaves⟩ := run.exists_step_of_leaves (I := fun s => s.posters p = some task) htask
      (h.posting n p task htask)
    obtain ⟨w, hw⟩ := Step.leaves_posting hs (.of_reachable (run.reachable m)) (hstuck m hle) hposting hleaves
    obtain ⟨m', hle', hlt⟩ := h.grows_of_awake hw fun m' hm' => hstuck m' (by omega)
    exact hnone ⟨m', by omega, (lists_mono run (by omega)).2.length_le.trans_lt hlt⟩

/-- In a fair run every accepted task is started, in the order of acceptance. -/
theorem Fair.started [Nonempty W] (h : Fair run) (n : Nat) : ∃ m, n ≤ m ∧ (run.state n).accepted <+: (run.state m).started := by
  obtain ⟨m, hle, hlength⟩ := run.exists_ge_of_grows (n := n) (fun s => s.started.length)
    (run.state n).accepted.length fun m hle hlt => by
      refine h.grows fun hnil => ?_
      have haccepted := (lists_mono run hle).1.length_le
      have hm := length_eq run m
      rw [hnil, List.length_nil] at hm
      omega
  refine ⟨m, hle, List.prefix_of_prefix_length_le (lists_mono run hle).1 ?_ hlength⟩
  rw [(Inv.of_reachable (run.reachable m)).order]
  exact List.prefix_append _ _

end

/-! ### A run -/

/-- One worker, which waits, is given a task, survives that it throws, and waits again. -/
def sampleStep (s : State Unit Unit Unit) : Nat → State Unit Unit Unit
  | 0 => s.take ()
  | 1 => s.post () false
  | 2 => (s.goto () .ready).postReturns () 0
  | 3 => s.take ()
  | 4 => s.goto () .ready
  | 5 => s.take ()
  | _ => s

def sampleState : Nat → State Unit Unit Unit
  | 0 => .new
  | n + 1 => sampleStep (sampleState n) n

theorem sampleState_waits (n : Nat) : (sampleState (n + 6)).workers () = .waiting ∧ (sampleState (n + 6)).posters () = none := by
  induction n with
  | zero => exact ⟨rfl, rfl⟩
  | succ n ih => exact ih

def sampleRun : (system Unit Unit Unit).Execution where
  state := sampleState
  init := rfl
  next n :=
    match n with
    | 0 => .inr (.take () rfl)
    | 1 => .inr (.post () false rfl)
    | 2 => .inr (.notifyOne () 0 () rfl rfl)
    | 3 => .inr (.take () rfl)
    | 4 => .inr (.finish () 0 true rfl)
    | 5 => .inr (.take () rfl)
    | _ + 6 => .inl rfl

theorem sampleRun_fair : Fair sampleRun where
  ready n _ _ := by
    refine ⟨n + 6, Nat.le_add_right n 6, fun hready => ?_⟩
    rw [show (sampleRun.state (n + 6)).workers () = _ from (sampleState_waits n).1] at hready
    cases hready
  running n _ _ _ := by
    refine ⟨n + 6, Nat.le_add_right n 6, fun hrunning => ?_⟩
    rw [show (sampleRun.state (n + 6)).workers () = _ from (sampleState_waits n).1] at hrunning
    cases hrunning
  posting n _ _ _ := by
    refine ⟨n + 6, Nat.le_add_right n 6, fun hposting => ?_⟩
    rw [show (sampleRun.state (n + 6)).posters () = _ from (sampleState_waits n).2] at hposting
    cases hposting

end IdtxCore.WorkerExecutor
