import IdtxCore.Lib.Tally
import IdtxCore.MailboxInv
import IdtxCore.Scheduler

/-!
# The counting invariants of the scheduler

Everything shared is accounted for by what each thread contributes:

* `drain_scheduled_` is set exactly while one party holds it (`Account.held`): a task queued in the
  executor, a thread about to `Post`, or a `DrainBatch` that has not stored `false` yet. So there is
  at most one such party, and a drain is the only consumer of both mailboxes.
* `pending_count_` is what the threads owe (`Account.owed`: announced and not yet pushed or rejected,
  popped and not yet released) plus what the mailboxes hold.

A drain suspended in its handler keeps holding and owing, through `Caller.handlers`.
-/

namespace IdtxCore

/-! ### What one step of a mailbox call does to its history -/

/-- The call has reserved a position. -/
def Emplace.holds {α : Type} : Emplace α → Bool
  | .construct .. | .publish _ => true
  | .returned result => result
  | _ => false

def Emplace.underway {α : Type} : Emplace α → Option (Emplace α)
  | .returned _ => none
  | e => some e

/-- Where the call still holds the value, it is `x`. -/
def Emplace.Carries {α : Type} (x : α) : Emplace α → Prop
  | .loadPosition v | .loadSequence v _ | .compareExchange v _ | .construct v _ => v = x
  | _ => True

namespace Ring
variable {P α : Type} {cap : Capacity} (r : Ring P α cap)

@[simp] theorem emplace_popped (p : P) (spurious : Bool) (e : Emplace α) :
    (r.emplace p spurious e).1.popped = r.popped := by
  unfold emplace
  split
  split <;> rfl

theorem emplace_carries {x : α} (p : P) (spurious : Bool) {e : Emplace α} (h : e.Carries x) :
    (r.emplace p spurious e).2.Carries x := by
  cases e with
  | loadSequence v n => simp only [emplace, Emplace.step]; split_ifs <;> first | exact h | trivial
  | compareExchange v n => simp only [emplace, Emplace.step]; split_ifs <;> exact h
  | _ => first | exact h | trivial

/-- A step either reserves a position for the value of the call or keeps what is reserved. -/
theorem emplace_cases {x : α} (p : P) (spurious : Bool) {e : Emplace α} (h : e.Carries x) :
    ((r.emplace p spurious e).1.reserved = r.reserved ∧
      (r.emplace p spurious e).2.holds = e.holds) ∨
    ((r.emplace p spurious e).1.reserved = r.reserved ++ [(p, x)] ∧
      e.holds = false ∧ (r.emplace p spurious e).2.holds = true) := by
  cases e with
  | loadSequence v n => left; simp only [emplace, Emplace.step]; split_ifs <;> simp [Emplace.holds]
  | compareExchange v n =>
    obtain rfl : v = x := h
    simp only [emplace, Emplace.step]
    split_ifs
    · exact .inr ⟨rfl, rfl, rfl⟩
    · exact .inl ⟨rfl, rfl⟩
  | _ => exact .inl ⟨rfl, rfl⟩

@[simp] theorem pop_reserved (c : Pop α) : (r.pop c).1.reserved = r.reserved := by
  cases c <;> rfl

/-- A step of a pop under way ends it with a value exactly when it advances. -/
theorem pop_cases {c : Pop α} (hc : ∀ x, c ≠ .returned x) :
    ((r.pop c).1.popped = r.popped ∧ ∀ x, (r.pop c).2 ≠ .returned (some x)) ∨
    (∃ n x, c = .advance n x ∧ (r.pop c).1.popped = r.popped ++ [x] ∧ (r.pop c).2 = .returned x) := by
  cases c with
  | returned x => exact absurd rfl (hc x)
  | advance n x => exact .inr ⟨n, x, rfl, rfl, rfl⟩
  | loadSequence n =>
    left; simp only [pop, Pop.step]; split_ifs <;> simp
  | _ => exact .inl ⟨rfl, by simp [pop, Pop.step]⟩

end Ring

namespace Scheduler

open Tally

/-! ### What a thread contributes -/

/-- What a thread contributes to the shared counters, the mailboxes and the history. -/
structure Account (κ : Type) where
  /-- the commands whose handler runs on the thread, innermost first -/
  handlers : List (Submission κ)
  /-- how often the thread holds `drain_scheduled_` -/
  held : Nat
  /-- what the thread owes to `pending_count_` -/
  owed : Nat
  /-- the number of its submission that is neither pushed nor returned -/
  unpushed : Multiset Nat
  /-- its submissions that are pushed and have not returned, innermost first -/
  pushed : List (Submission κ)
  producing : Kind → Option (Emplace (Submission κ))
  popping : Kind → Option (Pop (Submission κ))

section Contributions
variable {κ : Type}

def Caller.handlers : {f : Fn} → Caller κ f → List (Submission κ)
  | _, .outside => []
  | _, .handler _ running caller => running :: caller.handlers
  | _, .submit _ caller => caller.handlers
  | _, .runDrainTask => []
  | _, .task => []
  | _, .inline caller => caller.handlers

def Caller.pushed : {f : Fn} → Caller κ f → List (Submission κ)
  | _, .outside => []
  | _, .handler _ _ caller => caller.pushed
  | _, .submit x caller => x :: caller.pushed
  | _, .runDrainTask => []
  | _, .task => []
  | _, .inline caller => caller.pushed

/-- The account of the calls that wait: only drains suspended in their handler hold and owe. -/
def Caller.account {f : Fn} (c : Caller κ f) : Account κ where
  handlers := c.handlers
  held := c.handlers.length
  owed := c.handlers.length
  unpushed := 0
  pushed := c.pushed
  producing _ := none
  popping _ := none

/-- The account of a submission in `TryPush`, or just returned from it. -/
def pushAccount (x : Submission κ) (c : Caller κ .submit) (e : Emplace (Submission κ)) : Account κ :=
  { c.account with
    owed := c.handlers.length + if e.holds then 0 else 1
    unpushed := if e.holds then 0 else {x.id}
    pushed := if e.holds then x :: c.pushed else c.pushed
    producing := fun k => if x.kind = k then e.underway else none }

def drainAccount (d : Caller κ .drain) (popping : Kind → Option (Pop (Submission κ))) : Account κ :=
  { d.account with held := d.handlers.length + 1, popping }

def Thread.account : Thread κ → Account κ
  | .idle => (Caller.outside : Caller κ .submit).account
  | .submit .announce x c => { c.account with unpushed := {x.id} }
  | .submit .admission x c | .submit (.reject _) x c =>
    { c.account with owed := c.handlers.length + 1, unpushed := {x.id} }
  | .submit (.push e) x c => pushAccount x c e
  | .schedule .exchange c => c.account
  | .schedule .post c => { c.account with held := c.handlers.length + 1 }
  | .drain (.pop k c) _ _ d => drainAccount d fun k' => if k = k' then some c else none
  | .drain .checkPending _ _ d | .drain .clear _ _ d => drainAccount d fun _ => none
  | .drain (.handling x) _ _ d =>
    { drainAccount d fun _ => none with handlers := x :: d.handlers, owed := d.handlers.length + 1 }
  | .drain .release _ _ d => { drainAccount d fun _ => none with owed := d.handlers.length + 1 }
  | .drain .recheck _ _ d => d.account

namespace Thread
variable (x : Submission κ) (b : Caller κ .submit) (c : Caller κ .schedule) (d : Caller κ .drain)
  (processed retries : Nat)

@[simp] theorem account_idle : (idle : Thread κ).account = (Caller.outside : Caller κ .submit).account := rfl
@[simp] theorem account_announce : (submit .announce x b).account = { b.account with unpushed := {x.id} } := rfl
@[simp] theorem account_admission : (submit .admission x b).account =
    { b.account with owed := b.handlers.length + 1, unpushed := {x.id} } := rfl
@[simp] theorem account_reject (status : CommandAdmissionStatus) : (submit (.reject status) x b).account =
    { b.account with owed := b.handlers.length + 1, unpushed := {x.id} } := rfl
@[simp] theorem account_push (e : Emplace (Submission κ)) :
    (submit (.push e) x b).account = pushAccount x b e := rfl
@[simp] theorem account_exchange : (schedule .exchange c).account = c.account := rfl
@[simp] theorem account_post :
    (schedule .post c).account = { c.account with held := c.handlers.length + 1 } := rfl
@[simp] theorem account_pop (k : Kind) (p : Pop (Submission κ)) : (drain (.pop k p) processed retries d).account =
    drainAccount d fun k' => if k = k' then some p else none := rfl
@[simp] theorem account_checkPending :
    (drain .checkPending processed retries d).account = drainAccount d fun _ => none := rfl
@[simp] theorem account_clear :
    (drain .clear processed retries d).account = drainAccount d fun _ => none := rfl
@[simp] theorem account_handling : (drain (.handling x) processed retries d).account =
    { drainAccount d fun _ => none with handlers := x :: d.handlers, owed := d.handlers.length + 1 } := rfl
@[simp] theorem account_release : (drain .release processed retries d).account =
    { drainAccount d fun _ => none with owed := d.handlers.length + 1 } := rfl
@[simp] theorem account_recheck : (drain .recheck processed retries d).account = d.account := rfl

end Thread

/-- A `TryPush` under way carries the command of its submission, a `TryPush` or `TryPop` that returned
is no longer under way, and a rejection is one. -/
def Thread.Ok : Thread κ → Prop
  | .submit (.push e) x _ => e.Carries x ∧ ∀ b, e ≠ .returned b
  | .submit (.reject status) _ _ => status ≠ .accepted
  | .drain (.pop _ c) _ _ _ => ∀ x, c ≠ .returned x
  | _ => True

theorem Thread.handlers_length_le_held (x : Thread κ) :
    x.account.handlers.length ≤ x.account.held := by
  rcases x with _ | ⟨_ | _ | _ | _⟩ | ⟨_ | _⟩ | ⟨_ | _ | _ | _ | _ | _⟩ <;>
    simp [Caller.account, pushAccount, drainAccount]

theorem Thread.held_pos_of_popping {x : Thread κ} {k : Kind} (h : x.account.popping k ≠ none) :
    0 < x.account.held := by
  rcases x with _ | ⟨_ | _ | _ | _⟩ | ⟨_ | _⟩ | ⟨_ | _ | _ | _ | _ | _⟩ <;>
    simp [Caller.account, pushAccount, drainAccount] at h ⊢

/-! #### The accounts of the threads that local computation leads to -/

@[simp] theorem account_loopHead (processed retries : Nat) (d : Caller κ .drain) :
    (loopHead processed retries d).account = drainAccount d fun k =>
      if processed < kMaxCommandsPerDrain ∧ k = .priority then some .loadPosition else none := by
  unfold loopHead
  split_ifs with h
  · simp [h, eq_comm]
  · simp [h]

@[simp] theorem account_returnSubmit (c : Caller κ .submit) :
    c.returnSubmit.account = c.account := by
  cases c with
  | outside => rfl
  | handler processed running d => rfl

@[simp] theorem account_returnSchedule (c : Caller κ .schedule) :
    c.returnSchedule.1.account = { c.account with pushed := c.pushed.tail } := by
  cases c with
  | submit x c => simp [Caller.returnSchedule, Caller.account, Caller.handlers, Caller.pushed]
  | runDrainTask => rfl

theorem events_returnSchedule (c : Caller κ .schedule) :
    c.returnSchedule.2 = c.pushed.head?.toList.map (.returned · .accepted) := by
  cases c <;> rfl

@[simp] theorem account_returnDrain (more : Bool) (d : Caller κ .drain) :
    (d.returnDrain more).1.account =
      { d.account with pushed := if more then d.pushed else d.pushed.tail } := by
  cases d with
  | task => cases more <;> rfl
  | inline c =>
    cases more
    · exact account_returnSchedule c
    · rfl

theorem events_returnDrain (more : Bool) (d : Caller κ .drain) :
    (d.returnDrain more).2 =
      if more then [] else d.pushed.head?.toList.map (.returned · .accepted) := by
  cases d with
  | task => cases more <;> rfl
  | inline c =>
    cases more
    · exact events_returnSchedule c
    · rfl

@[simp] theorem account_afterPush (x : Submission κ) (c : Caller κ .submit)
    (e : Emplace (Submission κ)) : (afterPush x c e).account = pushAccount x c e := by
  cases e with
  | returned result => cases result <;> simp [afterPush, pushAccount, Emplace.holds,
      Emplace.underway, Caller.account, Caller.handlers, Caller.pushed]
  | _ => rfl

@[simp] theorem held_afterPop (k : Kind) (processed retries : Nat) (d : Caller κ .drain)
    (c : Pop (Submission κ)) :
    (afterPop k processed retries d c).1.account.held = d.handlers.length + 1 := by
  cases c with
  | returned x => rcases x with _ | x <;> cases k <;> rfl
  | _ => rfl

@[simp] theorem producing_afterPop (k k' : Kind) (processed retries : Nat) (d : Caller κ .drain)
    (c : Pop (Submission κ)) :
    (afterPop k processed retries d c).1.account.producing k' = none := by
  cases c with
  | returned x => rcases x with _ | x <;> cases k <;> rfl
  | _ => rfl

/-- A drain goes on in the same `TryPop`, starts the next one, or is in none. -/
theorem popping_afterPop (k k' : Kind) (processed retries : Nat) (d : Caller κ .drain)
    (c : Pop (Submission κ)) :
    (k = k' ∧ (afterPop k processed retries d c).1.account.popping k' = some c) ∨
    ((k = k' → ∃ x, c = .returned x) ∧
      ((afterPop k processed retries d c).1.account.popping k' = none ∨
        (afterPop k processed retries d c).1.account.popping k' = some .loadPosition)) := by
  by_cases hk : k = k'
  · subst hk
    cases c with
    | returned x => rcases x with _ | x <;> cases k <;> simp [afterPop, drainAccount, Caller.account]
    | _ => simp [afterPop, drainAccount]
  · cases c with
    | returned x => rcases x with _ | x <;> cases k <;> cases k' <;> simp_all [afterPop, drainAccount, Caller.account]
    | _ => simp [afterPop, drainAccount, hk]

/-- Before a value is popped, the account of a drain differs by its place in `TryPop` only. -/
theorem account_afterPop (k : Kind) (processed retries : Nat) (d : Caller κ .drain)
    {c : Pop (Submission κ)} (hc : ∀ x, c ≠ .returned (some x)) :
    ∃ popping, (afterPop k processed retries d c).1.account = drainAccount d popping ∧
      (afterPop k processed retries d c).2 = [] := by
  cases c with
  | returned x =>
    cases x with
    | some x => exact absurd rfl (hc x)
    | none => cases k <;> exact ⟨_, rfl, rfl⟩
  | _ => exact ⟨_, rfl, rfl⟩

@[simp] theorem account_afterCheck (pending processed retries : Nat) (d : Caller κ .drain) :
    (afterCheck pending processed retries d).account = drainAccount d fun k =>
      if pending ≠ 0 ∧ retries < kHeadPublicationRetries ∧ processed < kMaxCommandsPerDrain ∧
        k = .priority then some .loadPosition else none := by
  unfold afterCheck
  split_ifs with h0 h1
  · simp [h0]
  · simp [Nat.not_lt.2 (Nat.le_of_lt_succ h1)]
  · rw [account_loopHead]; simp [h0, Nat.lt_of_succ_le (Nat.le_of_not_lt h1)]

end Contributions

/-! ### Threads stay well formed -/

section Ok
variable {κ : Type}

theorem loopHead_ok (processed retries : Nat) (d : Caller κ .drain) :
    (loopHead processed retries d).Ok := by
  unfold loopHead; split_ifs <;> simp [Thread.Ok]

theorem returnSubmit_ok (c : Caller κ .submit) : c.returnSubmit.Ok := by cases c <;> trivial

theorem returnSchedule_ok (c : Caller κ .schedule) : c.returnSchedule.1.Ok := by
  cases c with
  | submit x c => exact returnSubmit_ok c
  | runDrainTask => trivial

theorem returnDrain_ok (more : Bool) (d : Caller κ .drain) : (d.returnDrain more).1.Ok := by
  cases d with
  | task => cases more <;> trivial
  | inline c =>
    cases more
    · exact returnSchedule_ok c
    · trivial

theorem afterPush_ok {x : Submission κ} (c : Caller κ .submit) {e : Emplace (Submission κ)}
    (h : e.Carries x) : (afterPush x c e).Ok := by
  cases e with
  | returned result => cases result <;> simp [afterPush, Thread.Ok]
  | _ => exact ⟨h, by simp⟩

theorem afterPop_ok (k : Kind) (processed retries : Nat) (d : Caller κ .drain)
    (c : Pop (Submission κ)) : (afterPop k processed retries d c).1.Ok := by
  cases c with
  | returned x => rcases x with _ | x <;> cases k <;> simp [afterPop, Thread.Ok]
  | _ => simp [afterPop, Thread.Ok]

theorem afterCheck_ok (pending processed retries : Nat) (d : Caller κ .drain) :
    (afterCheck pending processed retries d).Ok := by
  unfold afterCheck
  split_ifs
  · trivial
  · trivial
  · exact loopHead_ok ..

variable {T : Type} [DecidableEq T] {s s' : State T κ}

theorem Step.ok (hi : ∀ t, (s.threads t).Ok) (hs : Step s s') (t : T) : (s'.threads t).Ok := by
  have keep : ∀ (u : T) (x : Thread κ), x.Ok → (Function.update s.threads u x t).Ok := by
    intro u x hx
    by_cases ht : t = u
    · subst ht; rwa [Function.update_self]
    · rw [Function.update_of_ne ht]; exact hi t
  cases hs with
  | call u => exact keep u _ trivial
  | handlerCall u => exact keep u _ trivial
  | announce u => exact keep u _ trivial
  | admission u x c =>
    refine keep u _ ?_
    dsimp only
    split_ifs
    · exact ⟨rfl, by simp⟩
    · simp [Thread.Ok]
  | push u spurious e x c h =>
    have hok := hi u
    rw [h] at hok
    exact keep u _ (afterPush_ok c ((s.rings x.kind).emplace_carries u spurious hok.1))
  | reject u status x c => exact keep u _ (returnSubmit_ok c)
  | exchange u c =>
    refine keep u _ ?_
    split_ifs
    · exact returnSchedule_ok c
    · trivial
  | post u c => exact keep u _ (returnSchedule_ok c)
  | postRefused u c => exact keep u _ (loopHead_ok 0 0 (.inline c))
  | startTask u => exact keep u _ (loopHead_ok 0 0 .task)
  | pop u k c processed retries d => exact keep u _ (afterPop_ok ..)
  | checkPending u processed retries d => exact keep u _ (afterCheck_ok ..)
  | finish u => exact keep u _ trivial
  | release u processed retries d => exact keep u _ (loopHead_ok _ _ _)
  | clear u => exact keep u _ trivial
  | recheck u processed retries d => exact keep u _ (returnDrain_ok ..)
  | closeAdmission | waitPending | waitDrain => exact hi t

end Ok

/-! ### Who holds `drain_scheduled_`, and what is pending -/

namespace State
variable {T κ : Type}

def reservedCount (s : State T κ) : Nat :=
  (s.rings .normal).reserved.length + (s.rings .priority).reserved.length

def poppedCount (s : State T κ) : Nat :=
  (s.rings .normal).popped.length + (s.rings .priority).popped.length

theorem reservedCount_setRing (s : State T κ) (k : Kind) (r : Ring T (Submission κ) k.capacity) :
    (s.setRing k r).reservedCount + (s.rings k).reserved.length =
      s.reservedCount + r.reserved.length := by
  cases k <;> simp [reservedCount, setRing] <;> omega

theorem poppedCount_setRing (s : State T κ) (k : Kind) (r : Ring T (Submission κ) k.capacity) :
    (s.setRing k r).poppedCount + (s.rings k).popped.length = s.poppedCount + r.popped.length := by
  cases k <;> simp [poppedCount, setRing] <;> omega

end State

section Counters
variable {T κ : Type} [Fintype T] {s s' : State T κ}

/-- At most one party holds `drain_scheduled_`, and exactly one while it is set. -/
def FlagInv (s : State T κ) : Prop :=
  s.tasks + total (fun x => x.account.held) s.threads = if s.drainScheduled then 1 else 0

def PendingInv (s : State T κ) : Prop :=
  s.pendingCount + s.poppedCount = total (fun x => x.account.owed) s.threads + s.reservedCount

theorem FlagInv.total_le (h : FlagInv s) : total (fun x => x.account.held) s.threads ≤ 1 := by
  unfold FlagInv at h
  split_ifs at h <;> omega

theorem FlagInv.scheduled (h : FlagInv s) {t : T} (ht : 0 < (s.threads t).account.held) :
    s.drainScheduled = true := by
  by_contra hflag
  have hle := le_total (fun x : Thread κ => x.account.held) s.threads t
  rw [FlagInv, if_neg hflag] at h
  omega

variable [DecidableEq T]

theorem Step.flag (hi : FlagInv s) (hs : Step s s') : FlagInv s' := by
  have keep : ∀ (t : T) (x : Thread κ), x.account.held = (s.threads t).account.held →
      s.tasks + total (fun x => x.account.held) (Function.update s.threads t x) =
        if s.drainScheduled then 1 else 0 := by
    intro t x hx
    rw [total_update_of_eq (w := fun x : Thread κ => x.account.held) hx]; exact hi
  have change := total_update (fun x : Thread κ => x.account.held) s.threads
  cases hs with
  | call t kind command h => exact keep t _ (by rw [h]; rfl)
  | handlerCall t kind command running processed retries d h => exact keep t _ (by rw [h]; rfl)
  | announce t x c h => exact keep t _ (by rw [h]; rfl)
  | admission t x c h => exact keep t _ (by rw [h]; dsimp only; split_ifs <;> rfl)
  | push t spurious e x c h => exact keep t _ (by rw [h]; simp [pushAccount])
  | reject t status x c h => exact keep t _ (by rw [h]; simp)
  | exchange t c h =>
    have ht := change t
    rw [h] at ht
    unfold FlagInv at hi ⊢
    by_cases hflag : s.drainScheduled
    · have := ht c.returnSchedule.1
      simp [State.goto, hflag] at this hi ⊢
      omega
    · have := ht (.schedule .post c)
      simp [State.goto, hflag, Caller.account] at this hi ⊢
      omega
  | post t c h =>
    have ht := change t c.returnSchedule.1
    rw [h] at ht
    simp only [Thread.account_post, account_returnSchedule, Caller.account] at ht
    show s.tasks + 1 + total _ (Function.update s.threads t c.returnSchedule.1) =
      if s.drainScheduled then 1 else 0
    rw [FlagInv] at hi
    omega
  | postRefused t c h =>
    exact keep t _ (by rw [h]; simp [drainAccount, Caller.handlers])
  | startTask t h htasks =>
    have ht := change t (loopHead 0 0 .task)
    rw [h] at ht
    simp only [Thread.account_idle, account_loopHead, drainAccount, Caller.account,
      Caller.handlers, List.length_nil] at ht
    show s.tasks - 1 + total _ (Function.update s.threads t (loopHead 0 0 .task)) =
      if s.drainScheduled then 1 else 0
    rw [FlagInv] at hi
    omega
  | pop t k c processed retries d h => exact keep t _ (by rw [h]; simp [drainAccount])
  | checkPending t processed retries d h =>
    exact keep t _ (by rw [h]; simp [drainAccount])
  | finish t x processed retries d h => exact keep t _ (by rw [h]; rfl)
  | release t processed retries d h =>
    exact keep t _ (by rw [h]; simp [drainAccount])
  | clear t processed retries d h =>
    have hflag : s.drainScheduled = true := hi.scheduled (t := t) (by rw [h]; exact Nat.succ_pos _)
    have ht := change t (.drain .recheck processed retries d)
    rw [h] at ht
    simp only [FlagInv, State.goto, hflag, Thread.account_recheck, Thread.account_clear, drainAccount,
      Caller.account] at hi ht ⊢
    simp only [if_true, Bool.false_eq_true, if_false] at hi ⊢
    omega
  | recheck t processed retries d h => exact keep t _ (by rw [h]; simp)
  | closeAdmission | waitPending | waitDrain => exact hi

/-! ### The mailboxes -/

/-- `c` is where the consumer of the mailbox `k` stands. -/
structure Consumes (k : Kind) (threads : T → Thread κ) (c : Option (Pop (Submission κ))) : Prop where
  agree : ∀ t, (threads t).account.popping k = none ∨ (threads t).account.popping k = c
  exist : c = none ∨ ∃ t, (threads t).account.popping k = c

def RingsInv (s : State T κ) : Prop :=
  ∀ k, ∃ c, Consumes k s.threads c ∧ (s.rings k).Inv (fun t => (s.threads t).account.producing k) c

/-- No thread but `t` is in a `TryPop`. -/
def Alone (threads : T → Thread κ) (t : T) : Prop :=
  ∀ u, u ≠ t → ∀ k, (threads u).account.popping k = none

omit [DecidableEq T] in
theorem FlagInv.alone (h : FlagInv s) {t : T} (ht : 0 < (s.threads t).account.held) :
    Alone s.threads t := by
  intro u hu k
  by_contra hpop
  have hzero := eq_zero_of_ne (w := fun x : Thread κ => x.account.held) h.total_le ht hu
  exact absurd (Thread.held_pos_of_popping hpop) (Nat.not_lt.2 (Nat.le_of_eq hzero))

omit [Fintype T] in
theorem producing_update (threads : T → Thread κ) (t : T) (x : Thread κ) (k : Kind) :
    (fun u => (Function.update threads t x u).account.producing k) =
      Function.update (fun u => (threads u).account.producing k) t (x.account.producing k) := by
  funext u
  by_cases hu : u = t
  · subst hu; simp
  · simp [hu]

omit [Fintype T] in
theorem producing_update_of_eq {threads : T → Thread κ} {t : T} {x : Thread κ} {k : Kind}
    (h : x.account.producing k = (threads t).account.producing k) :
    (fun u => (Function.update threads t x u).account.producing k) =
      fun u => (threads u).account.producing k := by
  rw [producing_update, h]
  exact Function.update_eq_self t (fun u => (threads u).account.producing k)

omit [Fintype T] in
theorem Consumes.keep {k : Kind} {threads : T → Thread κ} {c : Option (Pop (Submission κ))} {t : T}
    {x : Thread κ} (h : Consumes k threads c)
    (hx : x.account.popping k = (threads t).account.popping k) :
    Consumes k (Function.update threads t x) c := by
  have hall : ∀ u, (Function.update threads t x u).account.popping k = (threads u).account.popping k := by
    intro u
    by_cases hu : u = t
    · subst hu; rw [Function.update_self, hx]
    · rw [Function.update_of_ne hu]
  exact ⟨fun u => by rw [hall]; exact h.agree u,
    h.exist.imp_right fun ⟨u, hu⟩ => ⟨u, by rw [hall]; exact hu⟩⟩

omit [Fintype T] [DecidableEq T] in
/-- The only thread that may be in a `TryPop` is the consumer. -/
theorem Consumes.eq {k : Kind} {threads : T → Thread κ} {c : Option (Pop (Submission κ))} {t : T}
    (h : Consumes k threads c) (ha : Alone threads t) : c = (threads t).account.popping k := by
  rcases h.exist with rfl | ⟨u, hu⟩
  · exact ((h.agree t).elim id id).symm
  · by_cases hut : u = t
    · rw [← hut, hu]
    · rw [ha u hut] at hu
      rcases h.agree t with ht | ht
      · rw [ht, hu]
      · exact ht.symm

omit [Fintype T] in
theorem Alone.consumes {threads : T → Thread κ} {t : T} (ha : Alone threads t) (x : Thread κ) (k : Kind) :
    Consumes k (Function.update threads t x) (x.account.popping k) := by
  refine ⟨fun u => ?_, .inr ⟨t, by rw [Function.update_self]⟩⟩
  by_cases hu : u = t
  · subst hu; exact .inr (by rw [Function.update_self])
  · exact .inl (by rw [Function.update_of_ne hu]; exact ha u hu k)

omit [Fintype T] in
/-- A thread that moves outside the mailboxes. -/
theorem RingsInv.keep (h : RingsInv s) {t : T} {x : Thread κ}
    (hprod : ∀ k, x.account.producing k = (s.threads t).account.producing k)
    (hpop : ∀ k, x.account.popping k = (s.threads t).account.popping k) :
    ∀ k, ∃ c, Consumes k (Function.update s.threads t x) c ∧
      (s.rings k).Inv (fun u => (Function.update s.threads t x u).account.producing k) c := by
  intro k
  obtain ⟨c, hc, hr⟩ := h k
  refine ⟨c, hc.keep (hpop k), ?_⟩
  rw [producing_update_of_eq (hprod k)]
  exact hr

omit [Fintype T] in
/-- The only consumer enters the loop of `DrainBatch` anew or leaves it. -/
theorem RingsInv.enterLoop (h : RingsInv s) {t : T} {x : Thread κ} (ha : Alone s.threads t)
    (hprod : ∀ k, x.account.producing k = (s.threads t).account.producing k)
    (hold : ∀ k, (s.threads t).account.popping k = none)
    (hpop : ∀ k, x.account.popping k = none ∨ x.account.popping k = some .loadPosition) :
    ∀ k, ∃ c, Consumes k (Function.update s.threads t x) c ∧
      (s.rings k).Inv (fun u => (Function.update s.threads t x u).account.producing k) c := by
  intro k
  obtain ⟨c, hc, hr⟩ := h k
  obtain rfl : c = none := (hc.eq ha).trans (hold k)
  refine ⟨_, ha.consumes x k, ?_⟩
  rw [producing_update_of_eq (hprod k)]
  rcases hpop k with hx | hx <;> rw [hx]
  · exact hr
  · exact hr.setConsumer rfl (by simp) fun c hc => Option.some.inj hc ▸ trivial

omit [Fintype T] in
theorem RingsInv.push (h : RingsInv s) {t : T} (spurious : Bool) {e : Emplace (Submission κ)}
    {x : Submission κ} {c : Caller κ .submit} (ht : s.threads t = .submit (.push e) x c)
    (hne : ∀ b, e ≠ .returned b) :
    RingsInv ((s.setRing x.kind ((s.rings x.kind).emplace t spurious e).1).goto t
      (afterPush x c ((s.rings x.kind).emplace t spurious e).2,
        pushEvents x e ((s.rings x.kind).emplace t spurious e).2)) := by
  have hpop : ∀ k, (afterPush x c ((s.rings x.kind).emplace t spurious e).2).account.popping k =
      (s.threads t).account.popping k := by simp [ht, pushAccount]
  intro k
  obtain ⟨p, hp, hr⟩ := h k
  refine ⟨p, hp.keep (hpop k), ?_⟩
  by_cases hk : k = x.kind
  · subst hk
    have hold : (s.threads t).account.producing x.kind = some e := by
      cases e with
      | returned b => exact absurd rfl (hne b)
      | _ => rw [ht]; simp [pushAccount, Emplace.underway]
    have hstep := hr.emplaceStep (p := t) spurious hold
    simp only [State.goto, State.setRing, Function.update_self, producing_update, account_afterPush,
      pushAccount, if_true]
    generalize (s.rings x.kind).emplace t spurious e = out at hstep ⊢
    rcases out with ⟨r', e'⟩
    cases e' with
    | returned b =>
      have hnone := hstep.setProducer (p := t) none (by simp) (by simp) (by simp)
      rwa [Function.update_idem] at hnone
    | _ => exact hstep
  · have hk' : x.kind ≠ k := fun hxk => hk hxk.symm
    have hprod : (afterPush x c ((s.rings x.kind).emplace t spurious e).2).account.producing k =
        (s.threads t).account.producing k := by simp [ht, pushAccount, hk']
    simp only [State.goto, State.setRing, Function.update_of_ne hk, producing_update_of_eq hprod]
    exact hr

omit [Fintype T] in
theorem RingsInv.pop (h : RingsInv s) {t : T} {k : Kind} {c : Pop (Submission κ)}
    {processed retries : Nat} {d : Caller κ .drain} (ha : Alone s.threads t)
    (ht : s.threads t = .drain (.pop k c) processed retries d) :
    RingsInv ((s.setRing k ((s.rings k).pop c).1).goto t
      (afterPop k processed retries d ((s.rings k).pop c).2)) := by
  have hprod : ∀ k', (afterPop k processed retries d ((s.rings k).pop c).2).1.account.producing k' =
      (s.threads t).account.producing k' := by simp [ht, drainAccount, Caller.account]
  intro k'
  obtain ⟨p, hp, hr⟩ := h k'
  have hpeq := hp.eq ha
  refine ⟨_, ha.consumes _ k', ?_⟩
  rw [ht] at hpeq
  show Ring.Inv ((s.setRing k _).rings k')
    (fun u => (Function.update s.threads t (afterPop k processed retries d _).1 u).account.producing k') _
  rw [producing_update_of_eq (hprod k')]
  by_cases hk : k' = k
  · subst hk
    obtain rfl : p = some c := by simpa [drainAccount] using hpeq
    have hstep := hr.popStep
    simp only [State.setRing, Function.update_self]
    rcases popping_afterPop k' k' processed retries d ((s.rings k').pop c).2 with
      ⟨-, hx⟩ | ⟨hret, hx⟩
    · rw [hx]; exact hstep
    · obtain ⟨y, hy⟩ := hret rfl
      rw [hy] at hstep
      rcases hx with hx | hx <;> rw [hx]
      · exact hstep.setConsumer rfl (by simp) (by simp)
      · exact hstep.setConsumer rfl (by simp) fun c hc => Option.some.inj hc ▸ trivial
  · have hk' : k ≠ k' := fun hkk => hk hkk.symm
    obtain rfl : p = none := by simpa [drainAccount, hk'] using hpeq
    simp only [State.setRing, Function.update_of_ne hk]
    rcases popping_afterPop k k' processed retries d ((s.rings k).pop c).2 with
      ⟨hkk, -⟩ | ⟨-, hx | hx⟩
    · exact absurd hkk hk'
    · rw [hx]; exact hr
    · rw [hx]; exact hr.setConsumer rfl (by simp) fun c hc => Option.some.inj hc ▸ trivial

theorem Step.rings (hok : ∀ t, (s.threads t).Ok) (hflag : FlagInv s) (hi : RingsInv s)
    (hs : Step s s') : RingsInv s' := by
  cases hs with
  | call t kind command h => exact hi.keep (by rw [h]; exact fun _ => rfl) (by rw [h]; exact fun _ => rfl)
  | handlerCall t kind command running processed retries d h =>
    exact hi.keep (by rw [h]; exact fun _ => rfl) (by rw [h]; exact fun _ => rfl)
  | announce t x c h => exact hi.keep (by rw [h]; exact fun _ => rfl) (by rw [h]; exact fun _ => rfl)
  | admission t x c h =>
    by_cases hacc : s.accepting
    · intro k
      obtain ⟨p, hp, hr⟩ := hi k
      refine ⟨p, hp.keep (by rw [h]; simp [hacc, pushAccount]), ?_⟩
      show Ring.Inv _ (fun u => (Function.update s.threads t _ u).account.producing k) _
      rw [producing_update]
      refine hr.setProducer _ (by simp [h, Caller.account]) (by simp [h, Caller.account]) ?_
      simp only [hacc, if_true, Thread.account_push, pushAccount, Emplace.underway]
      intro e he
      split_ifs at he
      obtain rfl := Option.some.inj he
      trivial
    · refine hi.keep ?_ ?_ <;> rw [h] <;> simp [hacc]
  | push t spurious e x c h =>
    have ht := hok t
    rw [h] at ht
    exact hi.push spurious h ht.2
  | reject t status x c h => exact hi.keep (by rw [h]; simp) (by rw [h]; simp)
  | exchange t c h =>
    refine hi.keep ?_ ?_ <;> rw [h] <;> intro k <;> split_ifs <;> simp
  | post t c h => exact hi.keep (by rw [h]; simp) (by rw [h]; simp)
  | postRefused t c h =>
    refine hi.enterLoop (hflag.alone (by rw [h]; exact Nat.succ_pos _)) ?_ ?_ ?_
    · rw [h]; simp [drainAccount, Caller.account]
    · rw [h]; simp [Caller.account]
    · intro k; simp only [account_loopHead, drainAccount]; split_ifs <;> simp
  | startTask t h htasks =>
    have ha : Alone s.threads t := by
      intro u _ k
      by_contra hpop
      have hle := le_total (fun x : Thread κ => x.account.held) s.threads u
      have hpos := Thread.held_pos_of_popping hpop
      unfold FlagInv at hflag
      split_ifs at hflag <;> omega
    refine hi.enterLoop ha ?_ ?_ ?_
    · rw [h]; simp [drainAccount, Caller.account]
    · rw [h]; simp [Caller.account]
    · intro k; simp only [account_loopHead, drainAccount]; split_ifs <;> simp
  | pop t k c processed retries d h => exact hi.pop (hflag.alone (by rw [h]; exact Nat.succ_pos _)) h
  | checkPending t processed retries d h =>
    refine hi.enterLoop (hflag.alone (by rw [h]; exact Nat.succ_pos _)) ?_ ?_ ?_
    · rw [h]; simp [drainAccount]
    · rw [h]; simp [drainAccount]
    · intro k; simp only [account_afterCheck, drainAccount]; split_ifs <;> simp
  | finish t x processed retries d h =>
    exact hi.keep (by rw [h]; exact fun _ => rfl) (by rw [h]; exact fun _ => rfl)
  | release t processed retries d h =>
    refine hi.enterLoop (hflag.alone (by rw [h]; exact Nat.succ_pos _)) ?_ ?_ ?_
    · rw [h]; simp [drainAccount]
    · rw [h]; simp [drainAccount]
    · intro k; simp only [account_loopHead, drainAccount]; split_ifs <;> simp
  | clear t processed retries d h =>
    exact hi.keep (by rw [h]; exact fun _ => rfl) (by rw [h]; exact fun _ => rfl)
  | recheck t processed retries d h => exact hi.keep (by rw [h]; simp) (by rw [h]; simp)
  | closeAdmission | waitPending | waitDrain => exact hi

omit [Fintype T] [DecidableEq T] in
theorem RingsInv.popped_length_le (h : RingsInv s) (k : Kind) :
    (s.rings k).popped.length ≤ (s.rings k).reserved.length := by
  obtain ⟨c, -, hr⟩ := h k
  rw [hr.popped_eq]
  simp

omit [Fintype T] [DecidableEq T] in
/-- What the consumer is about to return is the head of the mailbox. -/
theorem RingsInv.advance (h : RingsInv s) {t : T} {k : Kind} {n : Nat} {x : Option (Submission κ)}
    {processed retries : Nat} {d : Caller κ .drain}
    (ht : s.threads t = .drain (.pop k (.advance n x)) processed retries d) :
    ∃ v, x = some v ∧ ((s.rings k).reserved.map Prod.snd)[(s.rings k).popped.length]? = some v := by
  obtain ⟨c, hc, hr⟩ := h k
  obtain rfl : some (.advance n x) = c := by
    have := hc.agree t
    rw [ht] at this
    simpa [drainAccount] using this
  obtain ⟨rfl, p, v, hres, rfl⟩ := hr.pop _ rfl
  refine ⟨v, rfl, ?_⟩
  have hlt := (List.getElem?_eq_some_iff.1 hres).1
  have hlen : (s.rings k).popped.length = (s.rings k).box.dequeuePosition := by
    rw [hr.popped_eq]; simp [Nat.le_of_lt hlt]
  rw [hlen, List.getElem?_map, hres]; rfl

theorem PendingInv.push (hi : PendingInv s) {t : T} (spurious : Bool) {e : Emplace (Submission κ)}
    {x : Submission κ} {c : Caller κ .submit} (h : s.threads t = .submit (.push e) x c)
    (hcarries : e.Carries x) :
    PendingInv ((s.setRing x.kind ((s.rings x.kind).emplace t spurious e).1).goto t
      (afterPush x c ((s.rings x.kind).emplace t spurious e).2,
        pushEvents x e ((s.rings x.kind).emplace t spurious e).2)) := by
  have ht := total_update (fun x : Thread κ => x.account.owed) s.threads t
    (afterPush x c ((s.rings x.kind).emplace t spurious e).2)
  have hres := s.reservedCount_setRing x.kind ((s.rings x.kind).emplace t spurious e).1
  have hpop := s.poppedCount_setRing x.kind ((s.rings x.kind).emplace t spurious e).1
  rw [h] at ht
  simp only [Thread.account_push, account_afterPush, pushAccount, Caller.account,
    Ring.emplace_popped] at ht hpop
  show s.pendingCount + State.poppedCount (s.setRing x.kind _) =
    total _ (Function.update s.threads t (afterPush x c _)) + State.reservedCount (s.setRing x.kind _)
  unfold PendingInv at hi
  rcases (s.rings x.kind).emplace_cases t spurious hcarries with ⟨hr, hh⟩ | ⟨hr, hh, hh'⟩
  · rw [hr] at hres
    rw [hh] at ht
    omega
  · rw [hr, List.length_append] at hres
    simp only [hh, hh', if_true, Bool.false_eq_true, if_false, List.length_singleton] at ht hres
    omega

theorem PendingInv.pop (hi : PendingInv s) (hrings : RingsInv s) {t : T} {k : Kind} {c : Pop (Submission κ)}
    {processed retries : Nat} {d : Caller κ .drain} (h : s.threads t = .drain (.pop k c) processed retries d)
    (hc : ∀ x, c ≠ .returned x) :
    PendingInv ((s.setRing k ((s.rings k).pop c).1).goto t
      (afterPop k processed retries d ((s.rings k).pop c).2)) := by
  have ht := total_update (fun x : Thread κ => x.account.owed) s.threads t
    (afterPop k processed retries d ((s.rings k).pop c).2).1
  have hres := s.reservedCount_setRing k ((s.rings k).pop c).1
  have hpop := s.poppedCount_setRing k ((s.rings k).pop c).1
  rw [h] at ht
  simp only [Ring.pop_reserved] at hres
  show s.pendingCount + State.poppedCount (s.setRing k _) =
    total _ (Function.update s.threads t (afterPop k processed retries d _).1) +
      State.reservedCount (s.setRing k _)
  unfold PendingInv at hi
  rcases (s.rings k).pop_cases hc with ⟨hp, hx⟩ | ⟨n, x, rfl, hp, hx⟩
  · obtain ⟨popping, ha, -⟩ := account_afterPop k processed retries d hx
    simp only [ha, hp, Thread.account_pop, drainAccount] at ht hpop
    omega
  · obtain ⟨v, rfl, -⟩ := hrings.advance h
    rw [hx] at ht ⊢
    rw [hp, List.length_append] at hpop
    simp only [afterPop, Thread.account_handling, Thread.account_pop, drainAccount, Caller.account,
      List.length_singleton] at ht hpop ⊢
    omega

theorem Step.pending (hok : ∀ t, (s.threads t).Ok) (hrings : RingsInv s) (hi : PendingInv s)
    (hs : Step s s') : PendingInv s' := by
  have hcount : s.poppedCount ≤ s.reservedCount :=
    Nat.add_le_add (hrings.popped_length_le .normal) (hrings.popped_length_le .priority)
  have keep : ∀ (t : T) (x : Thread κ), x.account.owed = (s.threads t).account.owed →
      s.pendingCount + s.poppedCount =
        total (fun x => x.account.owed) (Function.update s.threads t x) + s.reservedCount := by
    intro t x hx
    rw [total_update_of_eq (w := fun x : Thread κ => x.account.owed) hx]; exact hi
  have change := total_update (fun x : Thread κ => x.account.owed) s.threads
  have le := le_total (fun x : Thread κ => x.account.owed) s.threads
  cases hs with
  | call t kind command h => exact keep t _ (by rw [h]; rfl)
  | handlerCall t kind command running processed retries d h => exact keep t _ (by rw [h]; rfl)
  | announce t x c h =>
    have ht := change t (.submit .admission x c)
    rw [h] at ht
    simp only [Thread.account_announce, Thread.account_admission, Caller.account] at ht
    show s.pendingCount + 1 + s.poppedCount =
      total _ (Function.update s.threads t (.submit .admission x c)) + s.reservedCount
    unfold PendingInv at hi
    omega
  | admission t x c h => exact keep t _ (by rw [h]; dsimp only; split_ifs <;> rfl)
  | push t spurious e x c h =>
    have hcarries := hok t
    rw [h] at hcarries
    exact hi.push spurious h hcarries.1
  | reject t status x c h =>
    have ht := change t c.returnSubmit
    have hle := le t
    rw [h] at ht hle
    simp only [Thread.account_reject, account_returnSubmit, Caller.account] at ht hle
    show s.pendingCount - 1 + s.poppedCount =
      total _ (Function.update s.threads t c.returnSubmit) + s.reservedCount
    unfold PendingInv at hi
    omega
  | exchange t c h => exact keep t _ (by rw [h]; split_ifs <;> simp)
  | post t c h => exact keep t _ (by rw [h]; simp)
  | postRefused t c h => exact keep t _ (by rw [h]; simp [drainAccount, Caller.account, Caller.handlers])
  | startTask t h htasks =>
    exact keep t _ (by rw [h]; simp [drainAccount, Caller.account, Caller.handlers])
  | pop t k c processed retries d h =>
    have hc := hok t
    rw [h] at hc
    exact hi.pop hrings h hc
  | checkPending t processed retries d h => exact keep t _ (by rw [h]; simp [drainAccount])
  | finish t x processed retries d h => exact keep t _ (by rw [h]; rfl)
  | release t processed retries d h =>
    have ht := change t (loopHead (processed + 1) retries d)
    have hle := le t
    rw [h] at ht hle
    simp only [Thread.account_release, account_loopHead, drainAccount, Caller.account] at ht hle
    show s.pendingCount - 1 + s.poppedCount =
      total _ (Function.update s.threads t (loopHead (processed + 1) retries d)) + s.reservedCount
    unfold PendingInv at hi
    omega
  | clear t processed retries d h => exact keep t _ (by rw [h]; rfl)
  | recheck t processed retries d h => exact keep t _ (by rw [h]; simp)
  | closeAdmission | waitPending | waitDrain => exact hi

/-! ### The invariant -/

structure Inv (s : State T κ) : Prop where
  ok : ∀ t, (s.threads t).Ok
  flag : FlagInv s
  rings : RingsInv s
  pending : PendingInv s

omit [DecidableEq T] in
theorem inv_new : Inv (State.new : State T κ) where
  ok _ := trivial
  flag := by
    show 0 + total (fun x : Thread κ => x.account.held) (fun _ : T => .idle) = 0
    rw [total_const_zero (w := fun x : Thread κ => x.account.held) fun _ => rfl, Nat.zero_add]
  rings k := ⟨none, ⟨fun _ => .inl rfl, .inl rfl⟩, Ring.inv_new⟩
  pending := by
    show 0 = total (fun x : Thread κ => x.account.owed) (fun _ : T => .idle) + 0
    rw [total_const_zero (w := fun x : Thread κ => x.account.owed) fun _ => rfl]

theorem Inv.step (h : Inv s) (hs : Step s s') : Inv s' :=
  ⟨hs.ok h.ok, hs.flag h.flag, hs.rings h.ok h.flag h.rings, hs.pending h.ok h.rings h.pending⟩

theorem inv_of_reachable (h : (system T κ).Reachable s) : Inv s := by
  refine Lts.System.invariant ?_ (fun _ _ _ hi hs => hi.step hs) h
  rintro _ rfl
  exact inv_new

end Counters

end Scheduler
end IdtxCore
