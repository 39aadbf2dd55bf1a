import IdtxCore.Scheduler

/-!
# A drain batch ends

`Batch` is `DrainBatch` by itself, whatever the rest of the program does: a step takes an `Answer`, which is what the
next atomic operation sees. Every step of it lowers `Batch.remaining`, where a handled command counts for more than all
the retries it allows again (`remaining_step`); `Batch.Inv` bounds the iterations and says which effects there are. The
drains of `Scheduler.Step` are such batches (`run_batch`).
-/

namespace IdtxCore
namespace Scheduler

inductive Outcome where
  | returned
  | threw

/-- What the next atomic operation of a batch sees. -/
structure Answer (κ : Type) where
  /-- the result of `TryPop` -/
  popped : Option κ
  /-- the value of `pending_count_` -/
  pending : Nat
  /-- how the handler ends -/
  outcome : Outcome

/-- The writes of a batch and its calls of the handler. -/
inductive Effect (κ : Type) where
  | popped (k : Kind) (command : κ)
  | handled (command : κ) (outcome : Outcome)
  /-- `ReleasePending` -/
  | released
  /-- the store of `false` into `drain_scheduled_` -/
  | cleared

/-- Where a call of `DrainBatch` stands. -/
inductive BatchPlace (κ : Type) where
  /-- in `TryPop` of the mailbox `k` -/
  | pop (k : Kind)
  /-- about to load the pending count -/
  | checkPending
  /-- in the handler -/
  | handling (command : κ)
  /-- about to release the pending count -/
  | release
  /-- about to store `false` into `drain_scheduled_` -/
  | clear
  /-- about to load the pending count for the result -/
  | recheck
  | returned (more : Bool)

/-- A call of `DrainBatch` with its locals. `iterations` and `effects` are history. -/
structure Batch (κ : Type) where
  place : BatchPlace κ
  processed : Nat
  retries : Nat
  iterations : Nat
  effects : List (Effect κ)

namespace Batch
variable {κ : Type}

/-- The head of the loop. -/
def head (b : Batch κ) : Batch κ :=
  if b.processed < kMaxCommandsPerDrain then { b with place := .pop .priority, iterations := b.iterations + 1 }
  else { b with place := .clear }

def new : Batch κ := head ⟨.pop .priority, 0, 0, 0, []⟩

/-- One atomic step of `DrainBatch`; a step in `TryPop` is all of it. -/
def step (b : Batch κ) (answer : Answer κ) : Batch κ :=
  match b.place with
  | .pop k =>
    match answer.popped, k with
    | some command, k =>
      { b with place := .handling command, retries := 0, effects := b.effects ++ [.popped k command] }
    | none, .priority => { b with place := .pop .normal }
    | none, .normal => { b with place := .checkPending }
  | .checkPending =>
    if answer.pending = 0 then { b with place := .clear }
    else if b.retries + 1 > kHeadPublicationRetries then { b with place := .clear, retries := b.retries + 1 }
    else head { b with retries := b.retries + 1 }
  | .handling command => { b with place := .release, effects := b.effects ++ [.handled command answer.outcome] }
  | .release => head { b with processed := b.processed + 1, effects := b.effects ++ [.released] }
  | .clear => { b with place := .recheck, effects := b.effects ++ [.cleared] }
  | .recheck => { b with place := .returned (0 < answer.pending) }
  | .returned _ => b

/-- The batch after its first steps, when the operations see `answers`. -/
def run (answers : Nat → Answer κ) : Nat → Batch κ
  | 0 => new
  | n + 1 => (run answers n).step (answers n)

theorem run_congr {answers answers' : Nat → Answer κ} {n : Nat} (h : ∀ m < n, answers m = answers' m) :
    run answers n = run answers' n := by
  induction n with
  | zero => rfl
  | succ n ih => rw [run, run, ih fun m hm => h m (Nat.lt_succ_of_lt hm), h n (Nat.lt_succ_self n)]

/-- The answers so far can be followed by any other. -/
theorem exists_run_step (answers : Nat → Answer κ) (n : Nat) (answer : Answer κ) :
    ∃ answers', run answers' (n + 1) = (run answers n).step answer := by
  refine ⟨Function.update answers n answer, ?_⟩
  rw [run, Function.update_self, run_congr fun m hm => Function.update_of_ne (Nat.ne_of_lt hm) ..]

/-- The effects of one command that was popped. -/
def commandEffects (x : Kind × κ × Outcome) : List (Effect κ) :=
  [.popped x.1 x.2.1, .handled x.2.1 x.2.2, .released]

/-- The effects since the last command was done with. -/
def Unfinished : BatchPlace κ → List (Effect κ) → Prop
  | .pop _, l | .checkPending, l | .clear, l => l = []
  | .handling command, l => ∃ k, l = [.popped k command]
  | .release, l => ∃ k command outcome, l = [.popped k command, .handled command outcome]
  | .recheck, l | .returned _, l => l = [.cleared]

/-- The counters at each place. -/
def Counted (processed retries iterations : Nat) : BatchPlace κ → Prop
  | .pop _ | .checkPending => processed < kMaxCommandsPerDrain ∧ retries ≤ kHeadPublicationRetries ∧
    iterations ≤ processed * (kHeadPublicationRetries + 1) + retries + 1
  | .handling _ | .release => processed < kMaxCommandsPerDrain ∧ retries = 0 ∧
    iterations ≤ (processed + 1) * (kHeadPublicationRetries + 1)
  | .clear | .recheck | .returned _ => processed ≤ kMaxCommandsPerDrain ∧
    iterations ≤ (processed + 1) * (kHeadPublicationRetries + 1)

structure Inv (b : Batch κ) : Prop where
  counted : Counted b.processed b.retries b.iterations b.place
  effects : ∃ commands : List (Kind × κ × Outcome), ∃ unfinished, commands.length = b.processed ∧
    Unfinished b.place unfinished ∧ b.effects = commands.flatMap commandEffects ++ unfinished

/-- The steps a batch can still take. -/
def remaining (b : Batch κ) : Nat :=
  let afterCommands := fun n => (kMaxCommandsPerDrain - n) * (3 * (kHeadPublicationRetries + 1) + 1)
  let afterRetries := 3 * (kHeadPublicationRetries + 1 - b.retries)
  match b.place with
  | .pop .priority => afterCommands b.processed + afterRetries + 4
  | .pop .normal => afterCommands b.processed + afterRetries + 3
  | .checkPending => afterCommands b.processed + afterRetries + 2
  | .handling _ => afterCommands (b.processed + 1) + afterRetries + 6
  | .release => afterCommands (b.processed + 1) + afterRetries + 5
  | .clear => 2
  | .recheck => 1
  | .returned _ => 0

variable {b : Batch κ}

/-! ### What every step keeps -/

theorem inv_head (commands : List (Kind × κ × Outcome)) (hlen : commands.length = b.processed)
    (heff : b.effects = commands.flatMap commandEffects) (hprocessed : b.processed ≤ kMaxCommandsPerDrain)
    (hretries : b.retries ≤ kHeadPublicationRetries)
    (hiterations : b.iterations ≤ b.processed * (kHeadPublicationRetries + 1) + b.retries) : b.head.Inv := by
  have heffects : b.effects = commands.flatMap commandEffects ++ [] := by rw [heff, List.append_nil]
  rw [head]
  split_ifs with hlt
  · exact ⟨⟨hlt, hretries, Nat.succ_le_succ hiterations⟩, commands, [], hlen, rfl, heffects⟩
  · refine ⟨⟨hprocessed, ?_⟩, commands, [], hlen, rfl, heffects⟩
    show b.iterations ≤ (b.processed + 1) * (kHeadPublicationRetries + 1)
    rw [Nat.succ_mul]
    omega

theorem inv_new : (new : Batch κ).Inv :=
  inv_head [] rfl rfl (Nat.zero_le _) (Nat.zero_le _) (Nat.zero_le _)

theorem Inv.step (h : b.Inv) (answer : Answer κ) : (b.step answer).Inv := by
  obtain ⟨place, processed, retries, iterations, effects⟩ := b
  obtain ⟨hcounted, commands, unfinished, hlen, hunfinished, heff⟩ := h
  simp only at hcounted hlen hunfinished heff
  cases place with
  | pop k =>
    obtain ⟨hlt, hretries, hiterations⟩ := hcounted
    obtain rfl : unfinished = [] := hunfinished
    cases hpopped : answer.popped with
    | some command =>
      simp only [Batch.step, hpopped]
      refine ⟨⟨hlt, rfl, ?_⟩, commands, [.popped k command], hlen, ⟨k, rfl⟩, by rw [heff, List.append_nil]⟩
      show iterations ≤ (processed + 1) * (kHeadPublicationRetries + 1)
      rw [Nat.succ_mul]
      omega
    | none =>
      cases k with
      | priority | normal =>
        simp only [Batch.step, hpopped]
        exact ⟨⟨hlt, hretries, hiterations⟩, commands, [], hlen, rfl, heff⟩
  | checkPending =>
    obtain ⟨hlt, hretries, hiterations⟩ := hcounted
    obtain rfl : unfinished = [] := hunfinished
    have hend : iterations ≤ (processed + 1) * (kHeadPublicationRetries + 1) := by
      rw [Nat.succ_mul]
      omega
    simp only [Batch.step]
    split_ifs with hpending hlast
    · exact ⟨⟨Nat.le_of_lt hlt, hend⟩, commands, [], hlen, rfl, heff⟩
    · exact ⟨⟨Nat.le_of_lt hlt, hend⟩, commands, [], hlen, rfl, heff⟩
    · rw [List.append_nil] at heff
      exact inv_head commands hlen heff (Nat.le_of_lt hlt) (Nat.le_of_not_lt hlast) hiterations
  | handling command =>
    obtain ⟨k, rfl⟩ := hunfinished
    refine ⟨hcounted, commands, [.popped k command, .handled command answer.outcome], hlen,
      ⟨k, command, answer.outcome, rfl⟩, ?_⟩
    simp [Batch.step, heff]
  | release =>
    obtain ⟨hlt, rfl, hiterations⟩ := hcounted
    obtain ⟨k, command, outcome, rfl⟩ := hunfinished
    -- the released command joins the finished ones
    refine inv_head (commands ++ [(k, command, outcome)]) ?_ ?_ hlt (Nat.zero_le _) hiterations
    · simp [hlen]
    · simp [heff, commandEffects]
  | clear =>
    obtain rfl : unfinished = [] := hunfinished
    refine ⟨hcounted, commands, [.cleared], hlen, rfl, ?_⟩
    simp [Batch.step, heff]
  | recheck => exact ⟨hcounted, commands, unfinished, hlen, hunfinished, heff⟩
  | returned more => exact ⟨hcounted, commands, unfinished, hlen, hunfinished, heff⟩

theorem inv_run (answers : Nat → Answer κ) (n : Nat) : (run answers n).Inv := by
  induction n with
  | zero => exact inv_new
  | succ n ih => exact ih.step (answers n)

/-! ### The measure -/

theorem remaining_head_le (b : Batch κ) :
    b.head.remaining ≤ (kMaxCommandsPerDrain - b.processed) * (3 * (kHeadPublicationRetries + 1) + 1) +
      3 * (kHeadPublicationRetries + 1 - b.retries) + 4 := by
  rw [head]
  split_ifs
  · exact Nat.le_refl _
  · show 2 ≤ _
    omega

theorem remaining_step (h : b.Inv) (hplace : ∀ more, b.place ≠ .returned more) (answer : Answer κ) :
    (b.step answer).remaining < b.remaining := by
  obtain ⟨place, processed, retries, iterations, effects⟩ := b
  have hcounted := h.counted
  simp only at hcounted hplace
  cases place with
  | pop k =>
    obtain ⟨hlt, hretries, -⟩ := hcounted
    cases hpopped : answer.popped with
    | some command =>
      -- a handled command pays for all the retries after it
      have hpay : kMaxCommandsPerDrain - processed = kMaxCommandsPerDrain - (processed + 1) + 1 := by omega
      cases k with
      | priority | normal =>
        simp only [Batch.step, hpopped, remaining, hpay, Nat.succ_mul]
        omega
    | none =>
      cases k with
      | priority | normal =>
        simp only [Batch.step, hpopped, remaining]
        omega
  | checkPending =>
    obtain ⟨hlt, hretries, -⟩ := hcounted
    simp only [Batch.step]
    split_ifs with hpending hlast
    · simp only [remaining]
      omega
    · simp only [remaining]
      omega
    · refine Nat.lt_of_le_of_lt (remaining_head_le _) ?_
      simp only [remaining]
      omega
  | handling command =>
    simp only [Batch.step, remaining]
    omega
  | release =>
    obtain ⟨hlt, rfl, -⟩ := hcounted
    refine Nat.lt_of_le_of_lt (remaining_head_le _) ?_
    simp only [remaining]
    omega
  | clear => exact Nat.lt_succ_self 1
  | recheck => exact Nat.zero_lt_one
  | returned more => exact absurd rfl (hplace more)

/-- A batch has returned once it has made as many steps as were left. -/
theorem exists_returned (answers : Nat → Answer κ) :
    ∃ n more, n ≤ (new : Batch κ).remaining ∧ (run answers n).place = .returned more := by
  have hreach : ∀ n, ∃ m more, m ≤ n + (run answers n).remaining ∧ (run answers m).place = .returned more := by
    intro n
    induction hk : (run answers n).remaining using Nat.strong_induction_on generalizing n with
    | _ k ih =>
      by_cases hplace : ∃ more, (run answers n).place = .returned more
      · obtain ⟨more, hmore⟩ := hplace
        exact ⟨n, more, Nat.le_add_right n k, hmore⟩
      · have hlt : (run answers (n + 1)).remaining < k :=
          hk ▸ remaining_step (inv_run answers n) (not_exists.1 hplace) (answers n)
        obtain ⟨m, more, hm, hmore⟩ := ih _ hlt (n + 1) rfl
        exact ⟨m, more, by omega, hmore⟩
  obtain ⟨n, more, hn, hmore⟩ := hreach 0
  exact ⟨n, more, by rwa [Nat.zero_add] at hn, hmore⟩

/-- A call of `DrainBatch` that has returned, with all it did. -/
structure Complete (b : Batch κ) : Prop where
  returned : ∃ more, b.place = .returned more
  processed_le : b.processed ≤ kMaxCommandsPerDrain
  iterations_le : b.iterations ≤ (kMaxCommandsPerDrain + 1) * (kHeadPublicationRetries + 1)
  /-- Each command that was popped was handled and released once; the last write clears `drain_scheduled_`. -/
  effects : ∃ commands : List (Kind × κ × Outcome), commands.length = b.processed ∧
    b.effects = commands.flatMap commandEffects ++ [.cleared]

/-- Whatever the operations of the batch see, it returns. -/
theorem exists_complete (answers : Nat → Answer κ) : ∃ n, (run answers n).Complete := by
  obtain ⟨n, more, -, hreturned⟩ := exists_returned answers
  obtain ⟨hcounted, commands, unfinished, hlen, hunfinished, heff⟩ := inv_run answers n
  rw [hreturned] at hcounted hunfinished
  obtain rfl : unfinished = [.cleared] := hunfinished
  obtain ⟨hprocessed, hiterations⟩ := hcounted
  refine ⟨n, ⟨more, hreturned⟩, hprocessed, Nat.le_trans hiterations ?_, commands, hlen, heff⟩
  exact Nat.mul_le_mul_right _ (Nat.succ_le_succ hprocessed)

end Batch

/-! ### The drains of the scheduler -/

/-- What one step can do to the place of one thread. -/
inductive Thread.Moves {κ : Type} : Thread κ → Thread κ → Prop where
  | call (x : Submission κ) : Moves .idle (.submit .announce x .outside)
  | handlerCall (x running : Submission κ) (processed retries : Nat) (caller : Caller κ .drain) :
      Moves (.drain (.handling running) processed retries caller)
        (.submit .announce x (.handler processed running caller))
  | announce (x : Submission κ) (caller : Caller κ .submit) :
      Moves (.submit .announce x caller) (.submit .admission x caller)
  | admission (accepting : Bool) (x : Submission κ) (caller : Caller κ .submit) :
      Moves (.submit .admission x caller) (if accepting then .submit (.push (.loadPosition x)) x caller
        else .submit (.reject .stopping) x caller)
  | push (e e' : Emplace (Submission κ)) (x : Submission κ) (caller : Caller κ .submit) :
      Moves (.submit (.push e) x caller) (afterPush x caller e')
  | reject (status : CommandAdmissionStatus) (x : Submission κ) (caller : Caller κ .submit) :
      Moves (.submit (.reject status) x caller) caller.returnSubmit
  | exchange (scheduled : Bool) (caller : Caller κ .schedule) :
      Moves (.schedule .exchange caller) (if scheduled then caller.returnSchedule else (.schedule .post caller, [])).1
  | post (caller : Caller κ .schedule) : Moves (.schedule .post caller) caller.returnSchedule.1
  | postRefused (caller : Caller κ .schedule) : Moves (.schedule .post caller) (loopHead 0 0 (.inline caller))
  | startTask : Moves .idle (loopHead 0 0 .task)
  | pop (k : Kind) (c c' : Pop (Submission κ)) (processed retries : Nat) (caller : Caller κ .drain) :
      Moves (.drain (.pop k c) processed retries caller) (afterPop k processed retries caller c').1
  | checkPending (pending processed retries : Nat) (caller : Caller κ .drain) :
      Moves (.drain .checkPending processed retries caller) (afterCheck pending processed retries caller)
  | finish (x : Submission κ) (processed retries : Nat) (caller : Caller κ .drain) :
      Moves (.drain (.handling x) processed retries caller) (.drain .release processed retries caller)
  | release (processed retries : Nat) (caller : Caller κ .drain) :
      Moves (.drain .release processed retries caller) (loopHead (processed + 1) retries caller)
  | clear (processed retries : Nat) (caller : Caller κ .drain) :
      Moves (.drain .clear processed retries caller) (.drain .recheck processed retries caller)
  | recheck (pending processed retries : Nat) (caller : Caller κ .drain) :
      Moves (.drain .recheck processed retries caller) (caller.returnDrain (0 < pending)).1

theorem Step.moves {T κ : Type} [DecidableEq T] {s s' : State T κ} (hs : Step s s') (t : T) :
    s'.threads t = s.threads t ∨ (s.threads t).Moves (s'.threads t) := by
  have hgoto : ∀ {u : T} {x : Thread κ}, (s.threads u).Moves x →
      Function.update s.threads u x t = s.threads t ∨ (s.threads t).Moves (Function.update s.threads u x t) := by
    intro u x hx
    by_cases htu : t = u
    · subst htu
      exact .inr (by rwa [Function.update_self])
    · exact .inl (Function.update_of_ne htu ..)
  cases hs with
  | call u kind command h => exact hgoto (h ▸ .call _)
  | handlerCall u kind command running processed retries caller h => exact hgoto (h ▸ .handlerCall ..)
  | announce u x caller h => exact hgoto (h ▸ .announce ..)
  | admission u x caller h => exact hgoto (h ▸ .admission ..)
  | push u spurious e x caller h => exact hgoto (h ▸ .push ..)
  | reject u status x caller h => exact hgoto (h ▸ .reject ..)
  | exchange u caller h => exact hgoto (h ▸ .exchange ..)
  | post u caller h => exact hgoto (h ▸ .post ..)
  | postRefused u caller h => exact hgoto (h ▸ .postRefused ..)
  | startTask u h htasks => exact hgoto (h ▸ .startTask)
  | pop u k c processed retries caller h => exact hgoto (h ▸ .pop ..)
  | checkPending u processed retries caller h => exact hgoto (h ▸ .checkPending ..)
  | finish u x processed retries caller h => exact hgoto (h ▸ .finish ..)
  | release u processed retries caller h => exact hgoto (h ▸ .release ..)
  | clear u processed retries caller h => exact hgoto (h ▸ .clear ..)
  | recheck u processed retries caller h => exact hgoto (h ▸ .recheck ..)
  | closeAdmission h => exact .inl rfl
  | waitPending h hpending => exact .inl rfl
  | waitDrain h hdrain => exact .inl rfl

section Handler
variable {κ : Type} {processed : Nat} {running : Submission κ} {caller : Caller κ .drain} {x x' : Thread κ}

/-- The handler that a drain called for `running` waits for the call that returns to `c`. -/
inductive Caller.Awaits (processed : Nat) (running : Submission κ) (caller : Caller κ .drain) :
    {f : Fn} → Caller κ f → Prop where
  | here : Awaits processed running caller (.handler processed running caller)
  | handler {c : Caller κ .drain} (n : Nat) (y : Submission κ) :
      Awaits processed running caller c → Awaits processed running caller (.handler n y c)
  | submit {c : Caller κ .submit} (y : Submission κ) :
      Awaits processed running caller c → Awaits processed running caller (.submit y c)
  | inline {c : Caller κ .schedule} : Awaits processed running caller c → Awaits processed running caller (.inline c)

/-- The thread is in the handler that the drain called for `running`, or in a call made by it. -/
def Thread.InHandler (processed : Nat) (running : Submission κ) (caller : Caller κ .drain) : Thread κ → Prop
  | .idle => False
  | .submit _ _ c => Caller.Awaits processed running caller c
  | .schedule _ c => Caller.Awaits processed running caller c
  | .drain place n retries c => Caller.Awaits processed running caller c ∨
      (Thread.drain place n retries c) = .drain (.handling running) processed 0 caller

theorem Caller.Awaits.returnSubmit {c : Caller κ .submit} (h : Caller.Awaits processed running caller c) :
    c.returnSubmit.InHandler processed running caller := by
  cases h with
  | here => exact .inr rfl
  | handler n y h => exact .inl h

theorem Caller.Awaits.returnSchedule {c : Caller κ .schedule} (h : Caller.Awaits processed running caller c) :
    c.returnSchedule.1.InHandler processed running caller := by
  cases h with
  | submit y h => exact h.returnSubmit

theorem Caller.Awaits.returnDrain {c : Caller κ .drain} (h : Caller.Awaits processed running caller c) (more : Bool) :
    (c.returnDrain more).1.InHandler processed running caller := by
  cases h with
  | inline h =>
    cases more with
    | true => exact h
    | false => exact h.returnSchedule

theorem Caller.Awaits.loopHead {c : Caller κ .drain} (h : Caller.Awaits processed running caller c) (n retries : Nat) :
    (loopHead n retries c).InHandler processed running caller := by
  rw [Scheduler.loopHead]
  split_ifs <;> exact .inl h

theorem Caller.Awaits.afterPush {c : Caller κ .submit} (h : Caller.Awaits processed running caller c)
    (y : Submission κ) (e : Emplace (Submission κ)) : (afterPush y c e).InHandler processed running caller := by
  cases e with
  | returned result =>
    cases result with
    | true => exact .submit y h
    | false => exact h
  | loadPosition v | loadSequence v n | compareExchange v n | construct v n | publish n => exact h

theorem Caller.Awaits.afterPop {c : Caller κ .drain} (h : Caller.Awaits processed running caller c) (k : Kind)
    (n retries : Nat) (p : Pop (Submission κ)) :
    (afterPop k n retries c p).1.InHandler processed running caller := by
  cases p with
  | returned result =>
    cases result with
    | some y => exact .inl h
    | none => cases k <;> exact .inl h
  | loadPosition | loadSequence m | moveOut m | release m v | advance m v => exact .inl h

theorem Caller.Awaits.afterCheck {c : Caller κ .drain} (h : Caller.Awaits processed running caller c)
    (pending n retries : Nat) : (afterCheck pending n retries c).InHandler processed running caller := by
  rw [Scheduler.afterCheck]
  split_ifs
  · exact .inl h
  · exact .inl h
  · exact h.loopHead _ _

/-- A thread in the handler stays there until the handler ends. -/
theorem Thread.Moves.inHandler (h : x.InHandler processed running caller) (hm : x.Moves x') :
    x'.InHandler processed running caller ∨ x' = .drain .release processed 0 caller := by
  cases hm with
  | call y => cases h
  | handlerCall y z n retries c =>
    rcases h with h | h
    · exact .inl (.handler _ _ h)
    · cases h
      exact .inl .here
  | announce y c => exact .inl h
  | admission accepting y c =>
    left
    cases accepting <;> exact h
  | push e e' y c => exact .inl (Caller.Awaits.afterPush h y e')
  | reject status y c => exact .inl (Caller.Awaits.returnSubmit h)
  | exchange scheduled c =>
    left
    cases scheduled with
    | true => exact Caller.Awaits.returnSchedule h
    | false => exact h
  | post c => exact .inl (Caller.Awaits.returnSchedule h)
  | postRefused c => exact .inl (Caller.Awaits.loopHead (.inline h) 0 0)
  | startTask => cases h
  | pop k c c' n retries d =>
    rcases h with h | h
    · exact .inl (h.afterPop ..)
    · cases h
  | checkPending pending n retries c =>
    rcases h with h | h
    · exact .inl (h.afterCheck ..)
    · cases h
  | finish y n retries c =>
    rcases h with h | h
    · exact .inl (.inl h)
    · cases h
      exact .inr rfl
  | release n retries c =>
    rcases h with h | h
    · exact .inl (h.loopHead _ _)
    · cases h
  | clear n retries c =>
    rcases h with h | h
    · exact .inl (.inl h)
    · cases h
  | recheck pending n retries c =>
    rcases h with h | h
    · exact .inl (h.returnDrain _)
    · cases h

/-- The thread is in the call of `DrainBatch` that returns to `caller`, as far as `b`. -/
def Batch.Of (b : Batch (Submission κ)) (caller : Caller κ .drain) (x : Thread κ) : Prop :=
  match b.place with
  | .pop k => ∃ c, x = .drain (.pop k c) b.processed b.retries caller
  | .checkPending => x = .drain .checkPending b.processed b.retries caller
  | .handling command => b.retries = 0 ∧ x.InHandler b.processed command caller
  | .release => x = .drain .release b.processed b.retries caller
  | .clear => x = .drain .clear b.processed b.retries caller
  | .recheck => x = .drain .recheck b.processed b.retries caller
  | .returned _ => False

/-- The batch has returned to `caller`, and the thread goes on from there. -/
def Batch.ReturnedTo (b : Batch (Submission κ)) (caller : Caller κ .drain) (x : Thread κ) : Prop :=
  ∃ more, b.place = .returned more ∧ x = (caller.returnDrain more).1

variable {b : Batch (Submission κ)}

theorem Batch.head_of (b : Batch (Submission κ)) (caller : Caller κ .drain) :
    b.head.Of caller (loopHead b.processed b.retries caller) := by
  rw [Batch.head, loopHead]
  split_ifs
  · exact ⟨_, rfl⟩
  · rfl

theorem Batch.new_of (caller : Caller κ .drain) :
    (Batch.new : Batch (Submission κ)).Of caller (loopHead 0 0 caller) :=
  Batch.head_of ⟨.pop .priority, 0, 0, 0, []⟩ caller

/-- The thread of a drain stays where it is in the batch, or the batch takes a step. -/
theorem Thread.Moves.batch (h : b.Of caller x) (hm : x.Moves x') :
    b.Of caller x' ∨ ∃ answer, (b.step answer).Of caller x' ∨ (b.step answer).ReturnedTo caller x' := by
  obtain ⟨place, processed, retries, iterations, effects⟩ := b
  cases place with
  | pop k =>
    obtain ⟨c, rfl⟩ := h
    cases hm with
    | pop _ _ c' =>
      cases c' with
      | returned result =>
        right
        refine ⟨⟨result, 0, .returned⟩, .inl ?_⟩
        cases result with
        | some y => exact ⟨rfl, .inr rfl⟩
        | none =>
          cases k with
          | priority => exact ⟨_, rfl⟩
          | normal => rfl
      | loadPosition | loadSequence m | moveOut m | release m v | advance m v => exact .inl ⟨_, rfl⟩
  | checkPending =>
    obtain rfl := h
    cases hm with
    | checkPending pending =>
      right
      refine ⟨⟨none, pending, .returned⟩, .inl ?_⟩
      simp only [Batch.step, afterCheck]
      split_ifs
      · rfl
      · rfl
      · exact Batch.head_of ..
  | handling command =>
    obtain ⟨rfl, h⟩ := h
    rcases hm.inHandler h with h | rfl
    · exact .inl ⟨rfl, h⟩
    · exact .inr ⟨⟨none, 0, .returned⟩, .inl rfl⟩
  | release =>
    obtain rfl := h
    cases hm with
    | release => exact .inr ⟨⟨none, 0, .returned⟩, .inl (Batch.head_of ..)⟩
  | clear =>
    obtain rfl := h
    cases hm with
    | clear => exact .inr ⟨⟨none, 0, .returned⟩, .inl rfl⟩
  | recheck =>
    obtain rfl := h
    cases hm with
    | recheck pending => exact .inr ⟨⟨none, pending, .returned⟩, .inr ⟨_, rfl, rfl⟩⟩
  | returned more => cases h

end Handler

section Run
variable {T κ : Type} [DecidableEq T] {s s' : State T κ} {t : T} {caller : Caller κ .drain}
  {b : Batch (Submission κ)}

theorem Step.batch (h : b.Of caller (s.threads t)) (hs : Step s s') :
    b.Of caller (s'.threads t) ∨
      ∃ answer, (b.step answer).Of caller (s'.threads t) ∨ (b.step answer).ReturnedTo caller (s'.threads t) := by
  rcases hs.moves t with heq | hm
  · exact .inl (heq ▸ h)
  · exact hm.batch h

/-- Whatever all threads do after a drain has begun, it is a batch, or was one until it returned. -/
theorem run_batch (h : s.threads t = loopHead 0 0 caller) (hrun : (system T κ).Run s s') :
    (∃ answers n, (Batch.run answers n).Of caller (s'.threads t)) ∨
      ∃ answers n s₁, (system T κ).Run s s₁ ∧ (system T κ).Run s₁ s' ∧
        (Batch.run answers n).ReturnedTo caller (s₁.threads t) := by
  induction hrun with
  | refl => exact .inl ⟨fun _ => ⟨none, 0, .returned⟩, 0, h ▸ Batch.new_of caller⟩
  | @tail s₂ s₃ hrun hs ih =>
    rcases ih with ⟨answers, n, hof⟩ | ⟨answers, n, s₁, hbefore, hafter, hreturned⟩
    · rcases hs.batch hof with hof | ⟨answer, hnext⟩
      · exact .inl ⟨answers, n, hof⟩
      · obtain ⟨answers', hrun'⟩ := Batch.exists_run_step answers n answer
        rw [← hrun'] at hnext
        rcases hnext with hof | hreturned
        · exact .inl ⟨answers', n + 1, hof⟩
        · exact .inr ⟨answers', n + 1, s₃, hrun.tail hs, .refl, hreturned⟩
    · exact .inr ⟨answers, n, s₁, hbefore, hafter.tail hs, hreturned⟩

end Run
end Scheduler
end IdtxCore
