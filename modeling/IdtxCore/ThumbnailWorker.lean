import IdtxCore.Lib.Lts
import Mathlib.Data.List.Basic
import Mathlib.Logic.Function.Basic

/-!
# `ThumbnailWorker`: pictures of the last upload

One thread generates the thumbnails, in the order in which the uploads submit them. An upload puts its file in place
and then submits a job; the generator opens the layer when it gets to the job, and a commit may rewrite the file at any
time and submits nothing. `P` are the threads that upload, `U` the files, `O` the paths of the pictures; the steps are
the critical sections and the accesses to the files.

What the worker has read from a file is what the file held since its last upload, unless a later upload is still going
to submit (`Fresh`). A layer that a session has open may be older. Two files may share a picture, and then the last job
wins (`Inv.images`).
-/

namespace IdtxCore.ThumbnailWorker

structure Job (U O : Type) where
  usdFile : U
  outPath : O
  deriving DecidableEq

/-- How a job has ended: `Generate` has returned `false` or thrown, or there is a picture. -/
inductive Outcome where
  | failed
  /-- of the layer that a session had open -/
  | ofLayer
  | ofFile
  deriving DecidableEq

/-- Where `Run` is. -/
inductive WorkerPlace (U O C : Type) where
  /-- about to take the mutex -/
  | ready
  /-- blocked in `m_cv_.wait` -/
  | waiting
  | generating (job : Job U O)
  /-- `Generate` has opened the layer -/
  | rendering (job : Job U O) (content : Option C) (outcome : Outcome)
  | exited

def WorkerPlace.job {U O C : Type} : WorkerPlace U O C → Option (Job U O)
  | .generating job | .rendering job _ _ => some job
  | _ => none

/-- Where `UploadFile` is. -/
inductive UploadPlace (U : Type) where
  | idle
  /-- the file is in place -/
  | written (usdFile : U)
  /-- `Submit` is about to call `notify_one` -/
  | notifying

inductive DestructorPlace where
  | running
  /-- about to call `notify_all` -/
  | notifying
  | joining
  | returned
  deriving DecidableEq

structure State (P U O C I : Type) where
  /-- what a file has held since its last upload; the last is what it holds -/
  contents : U → List C := fun _ => []
  images : O → Option I := fun _ => none
  stop : Bool := false
  queue : List (Job U O) := []
  worker : WorkerPlace U O C := .ready
  uploads : P → UploadPlace U := fun _ => .idle
  destructor : DestructorPlace := .running
  accepted : List (Job U O) := []
  finished : List (Job U O × Outcome) := []
  /-- the files uploaded without a job -/
  dropped : List U := []

/-- The path of a file's picture, and what the generator makes of a file. -/
structure Generator (U O C I : Type) where
  outPath : U → O
  render : U → Option C → I

section Step
variable {P U O C I : Type}

namespace State
variable (a : State P U O C I)

def file (usdFile : U) : Option C := (a.contents usdFile).getLast?

def setContents [DecidableEq U] (usdFile : U) (contents : List C) : State P U O C I :=
  { a with contents := Function.update a.contents usdFile contents }

def setUpload [DecidableEq P] (p : P) (place : UploadPlace U) : State P U O C I :=
  { a with uploads := Function.update a.uploads p place }

/-- A notification reaches the worker. -/
def awaken : State P U O C I :=
  match a.worker with
  | .waiting => { a with worker := .ready }
  | _ => a

/-- `Submit` under the mutex. -/
def submit [DecidableEq P] (g : Generator U O C I) (p : P) (usdFile : U) : State P U O C I :=
  if a.stop then { a.setUpload p .idle with dropped := usdFile :: a.dropped }
  else
    { a.setUpload p .notifying with
      queue := a.queue ++ [⟨usdFile, g.outPath usdFile⟩]
      accepted := a.accepted ++ [⟨usdFile, g.outPath usdFile⟩] }

/-- The critical section of `Run`: the predicate of the wait, then the queue. -/
def take : State P U O C I :=
  if a.stop ∨ a.queue ≠ [] then
    match a.queue with
    | [] => { a with worker := .exited }
    | job :: queue => { a with worker := .generating job, queue := queue }
  else { a with worker := .waiting }

def finish [DecidableEq O] (job : Job U O) (image : Option I) (outcome : Outcome) : State P U O C I :=
  { a with
    images := Function.update a.images job.outPath image
    worker := .ready
    finished := a.finished ++ [(job, outcome)] }

end State

inductive Step [DecidableEq P] [DecidableEq U] [DecidableEq O] (g : Generator U O C I) (a : State P U O C I) :
    State P U O C I → Prop where
  /-- The file of an upload is renamed into place. -/
  | write (p : P) (usdFile : U) (content : C) : a.uploads p = .idle →
      Step g a ((a.setContents usdFile [content]).setUpload p (.written usdFile))
  /-- A commit. -/
  | rewrite (usdFile : U) (content : C) : Step g a (a.setContents usdFile (a.contents usdFile ++ [content]))
  /-- The directory of the picture cannot be made, or an exception ends the request. -/
  | unprepared {p : P} {usdFile : U} : a.uploads p = .written usdFile →
      Step g a { a.setUpload p .idle with dropped := usdFile :: a.dropped }
  | submit {p : P} {usdFile : U} : a.uploads p = .written usdFile → Step g a (a.submit g p usdFile)
  | notifyOne {p : P} : a.uploads p = .notifying → Step g a (a.awaken.setUpload p .idle)
  | take : a.worker = .ready → Step g a a.take
  /-- The wait ends without a notification. -/
  | wake : a.worker = .waiting → Step g a { a with worker := .ready }
  | read {job : Job U O} : a.worker = .generating job →
      Step g a { a with worker := .rendering job (a.file job.usdFile) .ofFile }
  /-- A session has the layer open, with any content, and `FindOrOpen` returns it as it is. -/
  | readLayer {job : Job U O} (content : Option C) : a.worker = .generating job →
      Step g a { a with worker := .rendering job content .ofLayer }
  | generate {job : Job U O} {content : Option C} {outcome : Outcome} : a.worker = .rendering job content outcome →
      Step g a (a.finish job (some (g.render job.usdFile content)) outcome)
  /-- `Generate` returns `false` or throws, and may leave a part of the picture. -/
  | fail {job : Job U O} (image : Option I) : a.worker.job = some job → Step g a (a.finish job image .failed)
  | destruct : a.destructor = .running → Step g a { a with stop := true, destructor := .notifying }
  | notifyAll : a.destructor = .notifying → Step g a { a.awaken with destructor := .joining }
  | join : a.destructor = .joining → a.worker = .exited → Step g a { a with destructor := .returned }

def system (P : Type) [DecidableEq P] [DecidableEq U] [DecidableEq O] (g : Generator U O C I) :
    Lts.System (State P U O C I) where
  init a := a = {}
  step := Step g

/-! ### The invariant -/

/-- The file has held the content since its last upload, or a later upload is on its way, or it was not submitted. -/
def Fresh (a : State P U O C I) (usdFile : U) (content : Option C) : Prop :=
  (∃ c ∈ a.contents usdFile, content = some c) ∨ (∃ p, a.uploads p = .written usdFile) ∨ usdFile ∈ a.dropped

structure Inv [DecidableEq O] (g : Generator U O C I) (a : State P U O C I) : Prop where
  order : a.accepted = a.finished.map Prod.fst ++ a.worker.job.toList ++ a.queue
  outPath : ∀ job ∈ a.accepted, job.outPath = g.outPath job.usdFile
  uploaded : ∀ job ∈ a.accepted, a.contents job.usdFile ≠ []
  written : ∀ p usdFile, a.uploads p = .written usdFile → a.contents usdFile ≠ []
  exited : a.worker = .exited → a.stop = true ∧ a.queue = []
  awake : a.queue ≠ [] → a.worker = .waiting → ∃ p, a.uploads p = .notifying
  stopping : a.stop = true → a.worker = .waiting → a.destructor = .notifying
  returned : a.destructor = .returned → a.worker = .exited
  running : a.destructor = .running ↔ a.stop = false
  rendering : ∀ job content, a.worker = .rendering job content .ofFile →
    (∀ later ∈ a.queue, later.outPath ≠ job.outPath) → Fresh a job.usdFile content
  images : ∀ o job, (a.finished.filter (·.1.outPath = o)).getLast? = some (job, .ofFile) →
    (∀ later ∈ a.worker.job.toList ++ a.queue, later.outPath ≠ o) →
    ∃ content, a.images o = some (g.render job.usdFile content) ∧ Fresh a job.usdFile content


variable {g : Generator U O C I} {a a' : State P U O C I} {p : P} {usdFile : U} {job : Job U O}

theorem Fresh.mono {content : Option C} (h : Fresh a usdFile content)
    (hcontents : ∀ c ∈ a.contents usdFile, c ∈ a'.contents usdFile)
    (huploads : ∀ p, a.uploads p = .written usdFile → (∃ q, a'.uploads q = .written usdFile) ∨ usdFile ∈ a'.dropped)
    (hdropped : usdFile ∈ a.dropped → usdFile ∈ a'.dropped) : Fresh a' usdFile content := by
  rcases h with ⟨c, hc, heq⟩ | ⟨p, hp⟩ | hmem
  · exact .inl ⟨c, hcontents c hc, heq⟩
  · exact .inr (huploads p hp)
  · exact .inr (.inr (hdropped hmem))

theorem setUpload_of_ne [DecidableEq P] {place old other : UploadPlace U} {q : P} (hp : a.uploads p = old)
    (hq : a.uploads q = other) (hne : old ≠ other) : (a.setUpload p place).uploads q = other := by
  refine (Function.update_of_ne ?_ ..).trans hq
  rintro rfl
  exact hne (hp.symm.trans hq)

theorem written_of_setUpload [DecidableEq P] {place : UploadPlace U} {q : P}
    (h : Function.update a.uploads p place q = .written usdFile) (hplace : place ≠ .written usdFile) :
    a.uploads q = .written usdFile := by
  by_cases hq : q = p
  · subst hq
    rw [Function.update_self] at h
    exact absurd h hplace
  · rwa [Function.update_of_ne hq] at h

theorem State.awaken_cases :
    a.worker = .waiting ∧ a.awaken = { a with worker := .ready } ∨ a.worker ≠ .waiting ∧ a.awaken = a := by
  unfold State.awaken
  cases hw : a.worker with
  | waiting => exact .inl ⟨rfl, rfl⟩
  | ready | generating | rendering | exited => exact .inr ⟨nofun, rfl⟩

theorem State.take_cases :
    a.stop = true ∧ a.queue = [] ∧ a.take = { a with worker := .exited } ∨
    (∃ job queue, a.queue = job :: queue ∧ a.take = { a with worker := .generating job, queue := queue }) ∨
    ¬a.stop = true ∧ a.queue = [] ∧ a.take = { a with worker := .waiting } := by
  unfold State.take
  split_ifs with hwork
  · split
    · next hqueue => exact .inl ⟨hwork.resolve_right (not_not.2 hqueue), hqueue, rfl⟩
    · next job queue hqueue => exact .inr (.inl ⟨job, queue, hqueue, rfl⟩)
  · rw [not_or, not_not] at hwork
    exact .inr (.inr ⟨hwork.1, hwork.2, rfl⟩)

theorem State.awaken_ne_waiting : a.awaken.worker ≠ .waiting := by
  rcases State.awaken_cases (a := a) with ⟨-, heq⟩ | ⟨hw, heq⟩
  · rw [heq]
    exact nofun
  · rwa [heq]

namespace Inv
variable [DecidableEq O]

theorem init : Inv g ({} : State P U O C I) where
  order := rfl
  outPath _ h := nomatch h
  uploaded _ h := nomatch h
  written _ _ h := nomatch h
  exited h := nomatch h
  awake h := absurd rfl h
  stopping h := nomatch h
  returned h := nomatch h
  running := iff_of_true rfl rfl
  rendering _ _ h := nomatch h
  images _ _ h := nomatch h

/-- The threads that upload, at their other steps: no job, and nothing that is fresh is lost. -/
theorem of_uploads (h : Inv g a) {contents : U → List C} {uploads : P → UploadPlace U} {dropped : List U}
    (hcontents : ∀ usdFile, a.contents usdFile ≠ [] → contents usdFile ≠ [])
    (hwritten : ∀ p usdFile, uploads p = .written usdFile → contents usdFile ≠ [])
    (hawake : a.queue ≠ [] → a.worker = .waiting → ∃ p, uploads p = .notifying)
    (hfresh : ∀ usdFile content, Fresh a usdFile content →
      Fresh { a with contents := contents, uploads := uploads, dropped := dropped } usdFile content) :
    Inv g { a with contents := contents, uploads := uploads, dropped := dropped } :=
  { h with
    uploaded := fun job hjob => hcontents _ (h.uploaded job hjob)
    written := hwritten
    awake := hawake
    rendering := fun job content hw hlater => hfresh _ _ (h.rendering job content hw hlater)
    images := fun o job hlast hlater =>
      (h.images o job hlast hlater).imp fun _ hcontent => ⟨hcontent.1, hfresh _ _ hcontent.2⟩ }

theorem write [DecidableEq P] [DecidableEq U] (h : Inv g a) {content : C} (hp : a.uploads p = .idle) :
    Inv g ((a.setContents usdFile [content]).setUpload p (.written usdFile)) := by
  have hne : ∀ file, Function.update a.contents usdFile [content] file = [] → a.contents file = [] := by
    intro file hnil
    by_cases hfile : file = usdFile
    · subst hfile
      rw [Function.update_self] at hnil
      cases hnil
    · rwa [Function.update_of_ne hfile] at hnil
  refine h.of_uploads (fun file hfile hnil => hfile (hne file hnil)) ?_ ?_ ?_
  · intro q file hq
    show Function.update a.contents usdFile [content] file ≠ []
    by_cases hfile : file = usdFile
    · subst hfile
      rw [Function.update_self]
      exact List.cons_ne_nil content []
    · have hplace : UploadPlace.written usdFile ≠ .written file := fun heq => hfile (UploadPlace.written.inj heq).symm
      rw [Function.update_of_ne hfile]
      exact h.written q file (written_of_setUpload hq hplace)
  · exact fun hqueue hw => (h.awake hqueue hw).imp fun q hq => setUpload_of_ne hp hq nofun
  · intro file c hfresh
    by_cases hfile : file = usdFile
    · subst hfile
      exact .inr (.inl ⟨p, Function.update_self ..⟩)
    · refine hfresh.mono (fun c hc => ?_) (fun q hq => .inl ⟨q, ?_⟩) id
      · show c ∈ Function.update a.contents usdFile [content] file
        rwa [Function.update_of_ne hfile]
      · exact setUpload_of_ne hp hq nofun

theorem rewrite [DecidableEq U] (h : Inv g a) {content : C} :
    Inv g (a.setContents usdFile (a.contents usdFile ++ [content])) := by
  have hsub : ∀ file, ∀ c ∈ a.contents file,
      c ∈ Function.update a.contents usdFile (a.contents usdFile ++ [content]) file := by
    intro file c hc
    by_cases hfile : file = usdFile
    · subst hfile
      rw [Function.update_self]
      exact List.mem_append_left _ hc
    · rwa [Function.update_of_ne hfile]
  have hne : ∀ file, a.contents file ≠ [] →
      Function.update a.contents usdFile (a.contents usdFile ++ [content]) file ≠ [] := by
    intro file hfile
    obtain ⟨c, hc⟩ := List.exists_mem_of_ne_nil _ hfile
    exact List.ne_nil_of_mem (hsub file c hc)
  exact h.of_uploads hne (fun q file hq => hne file (h.written q file hq)) h.awake
    fun file c hfresh => hfresh.mono (hsub file) (fun q hq => .inl ⟨q, hq⟩) id

/-- An upload ends without a job. -/
theorem drop [DecidableEq P] (h : Inv g a) (hp : a.uploads p = .written usdFile) :
    Inv g { a.setUpload p .idle with dropped := usdFile :: a.dropped } := by
  refine h.of_uploads (fun _ hfile => hfile) ?_ ?_ ?_
  · intro q file hq
    exact h.written q file (written_of_setUpload hq nofun)
  · exact fun hqueue hw => (h.awake hqueue hw).imp fun q hq => setUpload_of_ne hp hq nofun
  · intro file c hfresh
    refine hfresh.mono (fun _ hc => hc) (fun q hq => ?_) (List.mem_cons_of_mem _)
    by_cases hqp : q = p
    · subst hqp
      rw [hp] at hq
      exact .inr (List.mem_cons.2 (.inl (UploadPlace.written.inj hq).symm))
    · exact .inl ⟨q, (Function.update_of_ne hqp ..).trans hq⟩

theorem submit [DecidableEq P] (h : Inv g a) (hp : a.uploads p = .written usdFile) : Inv g (a.submit g p usdFile) := by
  unfold State.submit
  split_ifs with hstop
  · exact h.drop hp
  -- the files that share the picture are older now than the last job
  have hfresh : ∀ other content, g.outPath usdFile ≠ g.outPath other → Fresh a other content →
      Fresh { a.setUpload p .notifying with
        queue := a.queue ++ [⟨usdFile, g.outPath usdFile⟩]
        accepted := a.accepted ++ [⟨usdFile, g.outPath usdFile⟩] } other content := by
    intro other content hother hfresh
    refine hfresh.mono (fun _ hc => hc) (fun q hq => .inl ⟨q, ?_⟩) id
    exact setUpload_of_ne hp hq fun heq => hother (congrArg g.outPath (UploadPlace.written.inj heq))
  refine { h with order := ?_, outPath := ?_, uploaded := ?_, written := ?_, exited := ?_, awake := ?_,
                  rendering := ?_, images := ?_ }
  · show a.accepted ++ [_] = a.finished.map Prod.fst ++ a.worker.job.toList ++ (a.queue ++ [_])
    rw [h.order, List.append_assoc _ a.queue]
  · intro job hjob
    rcases List.mem_append.1 hjob with hjob | hjob
    · exact h.outPath job hjob
    · rw [List.mem_singleton.1 hjob]
  · intro job hjob
    rcases List.mem_append.1 hjob with hjob | hjob
    · exact h.uploaded job hjob
    · rw [List.mem_singleton.1 hjob]
      exact h.written p usdFile hp
  · intro q file hq
    exact h.written q file (written_of_setUpload hq nofun)
  · intro hw
    exact absurd (h.exited hw).1 hstop
  · intro _ _
    exact ⟨p, Function.update_self ..⟩
  · intro job content hw hlater
    have hjob : job ∈ a.accepted := by
      rw [h.order, show a.worker = _ from hw]
      simp [WorkerPlace.job]
    refine hfresh _ _ ?_ (h.rendering job content hw fun later hmem => hlater later (List.mem_append_left _ hmem))
    rw [← h.outPath job hjob]
    exact hlater ⟨usdFile, g.outPath usdFile⟩ (List.mem_append_right _ (List.mem_singleton_self _))
  · intro o job hlast hlater
    have hjob := List.mem_filter.1 (List.mem_of_getLast? hlast)
    have haccepted : job ∈ a.accepted := by
      rw [h.order, List.append_assoc]
      exact List.mem_append_left _ (List.mem_map_of_mem hjob.1)
    obtain ⟨content, himage, hc⟩ := h.images o job hlast fun later hmem => hlater later <| by
      rw [← List.append_assoc]
      exact List.mem_append_left _ hmem
    refine ⟨content, himage, hfresh _ _ ?_ hc⟩
    rw [← h.outPath job haccepted, of_decide_eq_true hjob.2]
    exact hlater ⟨usdFile, g.outPath usdFile⟩ (by simp)

/-- The worker comes to the head of the loop. -/
theorem ready (h : Inv g a) (hw : a.worker = .waiting) : Inv g { a with worker := .ready } := by
  have hjob : a.worker.job.toList = [] := by rw [hw]; rfl
  refine { h with
    order := ?_, exited := ?_, awake := ?_, stopping := ?_, returned := ?_, rendering := ?_, images := ?_ }
  · rw [h.order, hjob]
    rfl
  · exact nofun
  · exact fun _ => nofun
  · exact fun _ => nofun
  · intro hd
    rw [h.returned hd] at hw
    cases hw
  · exact fun _ _ => nofun
  · intro o job hlast hlater
    exact h.images o job hlast (hjob ▸ hlater)

theorem awaken (h : Inv g a) : Inv g a.awaken := by
  rcases State.awaken_cases (a := a) with ⟨hw, heq⟩ | ⟨-, heq⟩
  · rw [heq]
    exact h.ready hw
  · rwa [heq]

theorem notifyOne [DecidableEq P] (h : Inv g a) (hp : a.uploads p = .notifying) :
    Inv g (a.awaken.setUpload p .idle) := by
  have hp' : a.awaken.uploads p = .notifying := by
    rcases State.awaken_cases (a := a) with ⟨-, heq⟩ | ⟨-, heq⟩
    · rwa [heq]
    · rwa [heq]
  refine h.awaken.of_uploads (fun _ hfile => hfile) ?_ (fun _ hw => absurd hw State.awaken_ne_waiting) ?_
  · intro q file hq
    exact h.awaken.written q file (written_of_setUpload hq nofun)
  · intro file c hfresh
    exact hfresh.mono (fun _ hc => hc) (fun q hq => .inl ⟨q, setUpload_of_ne hp' hq nofun⟩) id

theorem take (h : Inv g a) (hw : a.worker = .ready) : Inv g a.take := by
  have horder : a.accepted = a.finished.map Prod.fst ++ [] ++ a.queue := by
    rw [h.order, hw]
    rfl
  have hreturned : a.destructor ≠ .returned := fun hd => by
    rw [h.returned hd] at hw
    cases hw
  rcases State.take_cases (a := a) with ⟨hstop, hqueue, heq⟩ | ⟨job, queue, hqueue, heq⟩ | ⟨hstop, hqueue, heq⟩
  · rw [heq]
    refine { h with order := horder, exited := ?_, awake := ?_, stopping := ?_, returned := ?_,
                    rendering := ?_, images := ?_ }
    · exact fun _ => ⟨hstop, hqueue⟩
    · exact fun hne => absurd hqueue hne
    · exact fun _ => nofun
    · exact fun _ => rfl
    · exact fun _ _ => nofun
    · exact fun o job hlast hlater => h.images o job hlast (hw ▸ hlater)
  · rw [heq]
    refine { h with order := ?_, exited := ?_, awake := ?_, stopping := ?_, returned := ?_,
                    rendering := ?_, images := ?_ }
    · show a.accepted = a.finished.map Prod.fst ++ [job] ++ queue
      rw [horder, hqueue, List.append_nil, List.append_assoc, List.singleton_append]
    · exact nofun
    · exact fun _ => nofun
    · exact fun _ => nofun
    · exact fun hd => absurd hd hreturned
    · exact fun _ _ => nofun
    · intro o last hlast hlater
      refine h.images o last hlast fun later hmem => hlater later ?_
      rwa [hw, hqueue] at hmem
  · rw [heq]
    refine { h with order := horder, exited := ?_, awake := ?_, stopping := ?_, returned := ?_,
                    rendering := ?_, images := ?_ }
    · exact nofun
    · exact fun hne => absurd hqueue hne
    · exact fun hstopping => absurd hstopping hstop
    · exact fun hd => absurd hd hreturned
    · exact fun _ _ => nofun
    · exact fun o job hlast hlater => h.images o job hlast (hw ▸ hlater)

/-- The generator goes on with its job. -/
theorem render (h : Inv g a) (hw : a.worker = .generating job) {content : Option C} {outcome : Outcome}
    (hfresh : outcome = .ofFile → content = a.file job.usdFile) :
    Inv g { a with worker := .rendering job content outcome } := by
  have hjob : job ∈ a.accepted := by
    rw [h.order, hw]
    simp [WorkerPlace.job]
  refine { h with
    order := ?_, exited := ?_, awake := ?_, stopping := ?_, returned := ?_, rendering := ?_, images := ?_ }
  · rw [h.order, hw]
    rfl
  · exact nofun
  · exact fun _ => nofun
  · exact fun _ => nofun
  · intro hd
    rw [h.returned hd] at hw
    cases hw
  · rintro _ _ ⟨⟩ -
    obtain ⟨c, hc⟩ := Option.isSome_iff_exists.1 (List.getLast?_isSome.2 (h.uploaded job hjob))
    exact .inl ⟨c, List.mem_of_getLast? hc, (hfresh rfl).trans hc⟩
  · exact fun o last hlast hlater => h.images o last hlast (hw ▸ hlater)

/-- The job ends; its picture is as fresh as `hpicture` says. -/
theorem finish (h : Inv g a) (hw : a.worker.job = some job) {image : Option I} {outcome : Outcome}
    (hpicture : outcome = .ofFile → (∀ later ∈ a.queue, later.outPath ≠ job.outPath) →
      ∃ content, image = some (g.render job.usdFile content) ∧ Fresh a job.usdFile content) :
    Inv g (a.finish job image outcome) := by
  refine { h with
    order := ?_, exited := ?_, awake := ?_, stopping := ?_, returned := ?_, rendering := ?_, images := ?_ }
  · show a.accepted = (a.finished ++ [(job, outcome)]).map Prod.fst ++ [] ++ a.queue
    rw [h.order, hw, List.map_append, List.append_nil]
    rfl
  · exact nofun
  · exact fun _ => nofun
  · exact fun _ => nofun
  · intro hd
    rw [h.returned hd] at hw
    cases hw
  · exact fun _ _ => nofun
  · intro o last hlast hlater
    have hlast : ((a.finished ++ [(job, outcome)]).filter (·.1.outPath = o)).getLast? = some (last, .ofFile) := hlast
    have hlater : ∀ later ∈ a.queue, later.outPath ≠ o := hlater
    show ∃ content, Function.update a.images job.outPath image o = _ ∧ Fresh a _ _
    by_cases ho : job.outPath = o
    · subst ho
      rw [List.filter_append, List.filter_cons_of_pos (by simp), List.filter_nil, List.getLast?_concat] at hlast
      obtain ⟨rfl, rfl⟩ := Prod.mk.inj (Option.some.inj hlast)
      rw [Function.update_self]
      exact hpicture rfl hlater
    · rw [List.filter_append, List.filter_cons_of_neg (by simp [ho]), List.filter_nil, List.append_nil] at hlast
      rw [Function.update_of_ne (Ne.symm ho)]
      refine h.images o last hlast fun later hmem => ?_
      rw [hw] at hmem
      rcases List.mem_append.1 hmem with hmem | hmem
      · rwa [List.mem_singleton.1 hmem]
      · exact hlater later hmem

theorem destruct (h : Inv g a) : Inv g { a with stop := true, destructor := .notifying } := by
  refine { h with exited := ?_, stopping := ?_, returned := ?_, running := ?_ }
  · exact fun hw => ⟨rfl, (h.exited hw).2⟩
  · exact fun _ _ => rfl
  · exact nofun
  · exact iff_of_false nofun nofun

theorem notifyAll (h : Inv g a) (hd : a.destructor = .notifying) : Inv g { a.awaken with destructor := .joining } := by
  have hstop : a.awaken.stop = true := by
    rw [← Bool.not_eq_false, ← h.awaken.running]
    rcases State.awaken_cases (a := a) with ⟨-, heq⟩ | ⟨-, heq⟩
    · rw [heq, hd]
      exact nofun
    · rw [heq, hd]
      exact nofun
  refine { h.awaken with stopping := ?_, returned := ?_, running := ?_ }
  · exact fun _ hw => absurd hw State.awaken_ne_waiting
  · exact nofun
  · exact iff_of_false nofun (by rw [hstop]; exact nofun)

theorem join (h : Inv g a) (hd : a.destructor = .joining) (hw : a.worker = .exited) :
    Inv g { a with destructor := .returned } := by
  refine { h with stopping := ?_, returned := ?_, running := ?_ }
  · intro _ hwaiting
    rw [hw] at hwaiting
    cases hwaiting
  · exact fun _ => hw
  · exact iff_of_false nofun fun hstop => by
      rw [← h.running, hd] at hstop
      cases hstop

variable [DecidableEq P] [DecidableEq U]

theorem step (h : Inv g a) (hs : Step g a a') : Inv g a' := by
  cases hs with
  | write p usdFile content hp => exact h.write hp
  | rewrite usdFile content => exact h.rewrite
  | unprepared hp => exact h.drop hp
  | submit hp => exact h.submit hp
  | notifyOne hp => exact h.notifyOne hp
  | take hw => exact h.take hw
  | wake hw => exact h.ready hw
  | read hw => exact h.render hw fun _ => rfl
  | readLayer content hw => exact h.render hw nofun
  | @generate job content outcome hw =>
    refine h.finish (by rw [hw]; rfl) ?_
    rintro rfl hlater
    exact ⟨content, rfl, h.rendering job content hw hlater⟩
  | fail image hw => exact h.finish hw nofun
  | destruct _ => exact h.destruct
  | notifyAll hd => exact h.notifyAll hd
  | join hd hw => exact h.join hd hw

theorem of_reachable (h : (system P g).Reachable a) : Inv g a :=
  Lts.System.invariant (by rintro _ rfl; exact .init) (fun _ _ _ h hs => h.step hs) h

end Inv

/-! ### At rest -/

/-- No thread has anything to do. -/
structure State.AtRest (a : State P U O C I) : Prop where
  worker : a.worker = .waiting ∨ a.worker = .exited
  uploads : ∀ p, a.uploads p = .idle
  destructor : a.destructor ≠ .notifying

theorem State.AtRest.job_eq (hrest : a.AtRest) : a.worker.job = none := by
  rcases hrest.worker with hw | hw <;> rw [hw] <;> rfl

namespace Inv
variable [DecidableEq O]

theorem queue_of_rest (h : Inv g a) (hrest : a.AtRest) : a.queue = [] := by
  rcases hrest.worker with hw | hw
  · by_contra hne
    obtain ⟨p, hp⟩ := h.awake hne hw
    rw [hrest.uploads p] at hp
    cases hp
  · exact (h.exited hw).2

theorem exited_of_rest (h : Inv g a) (hrest : a.AtRest) (hstop : a.stop = true) : a.worker = .exited :=
  hrest.worker.resolve_left fun hw => hrest.destructor (h.stopping hstop hw)

end Inv

/-- Whenever no thread has anything to do, the jobs of all uploads are done, each once and in the order of the uploads,
and the worker has exited if it is to stop. A picture whose last job has read its file then shows what the file has held
since its last upload, if each upload of it had its job. -/
theorem pictures_of_rest [DecidableEq P] [DecidableEq U] [DecidableEq O] (h : (system P g).Reachable a)
    (hrest : a.AtRest) :
    a.queue = [] ∧ a.finished.map Prod.fst = a.accepted ∧ (a.stop = true → a.worker = .exited) ∧
      ∀ o job, (a.finished.filter (·.1.outPath = o)).getLast? = some (job, .ofFile) → job.usdFile ∉ a.dropped →
        ∃ content ∈ a.contents job.usdFile, a.images o = some (g.render job.usdFile (some content)) := by
  have h := Inv.of_reachable h
  have hqueue := h.queue_of_rest hrest
  have hjob := hrest.job_eq
  refine ⟨hqueue, ?_, h.exited_of_rest hrest, fun o job hlast hdropped => ?_⟩
  · rw [h.order, hjob, hqueue, List.append_nil]
    exact (List.append_nil _).symm
  · obtain ⟨content, himage, hfresh⟩ := h.images o job hlast fun later hmem => by
      rw [hjob, hqueue] at hmem
      cases hmem
    rcases hfresh with ⟨c, hc, rfl⟩ | ⟨p, hp⟩ | hmem
    · exact ⟨c, hc, himage⟩
    · rw [hrest.uploads p] at hp
      cases hp
    · exact absurd hmem hdropped

/-- A file is uploaded again while its first picture is generated, and committed while the second one is. -/
theorem pictures_after_two_uploads : ∃ a : State Unit Unit Unit Nat (Option Nat), a.AtRest ∧
    a.contents () = [2, 3] ∧ a.finished.map Prod.fst = [⟨(), ()⟩, ⟨(), ()⟩] ∧
      ∃ content ∈ a.contents (), a.images () = some (some content) := by
  have h : (system Unit ⟨fun _ => (), fun (_ : Unit) (content : Option Nat) => content⟩).Reachable {} := .init rfl
  replace h := h.step (.write () () 1 rfl)
  replace h := h.step (.submit (p := ()) rfl)
  replace h := h.step (.take rfl)
  replace h := h.step (.notifyOne (p := ()) rfl)
  replace h := h.step (.read rfl)
  replace h := h.step (.write () () 2 rfl)
  replace h := h.step (.generate rfl)
  replace h := h.step (.take rfl)
  replace h := h.step (.submit (p := ()) rfl)
  replace h := h.step (.notifyOne (p := ()) rfl)
  replace h := h.step (.take rfl)
  replace h := h.step (.read rfl)
  replace h := h.step (.rewrite () 3)
  replace h := h.step (.generate rfl)
  replace h := h.step (.take rfl)
  obtain ⟨-, hfinished, -, hpictures⟩ := pictures_of_rest h ⟨.inl rfl, fun _ => rfl, by decide⟩
  exact ⟨_, ⟨.inl rfl, fun _ => rfl, by decide⟩, rfl, hfinished, hpictures () ⟨(), ()⟩ rfl (by decide)⟩

end Step
end IdtxCore.ThumbnailWorker
