import IdtxCore.SchedulerIdle
import IdtxCore.SchedulerPending

/-!
# The scheduler refines two queues and a consumer

`Queues` is what `SessionCommandScheduler` is for: a submission is put at the end of its queue or rejected, in
one step somewhere between its call and its return, and one consumer takes commands from the fronts. The trace of
every run of the scheduler is a run of it (`Implements.step`, `implements_of_reachable`).

The queue of a mailbox is what is reserved in it and not popped. While the consumer has released a slot and not yet
advanced, a producer may already reserve it again, so a queue may hold one command more than the capacity.
-/

namespace IdtxCore
namespace Scheduler

open Tally

/-! ### The queues -/

structure Queues (κ : Type) where
  calls : Nat := 0
  /-- the submissions that are called, and neither in a queue nor rejected -/
  calling : Multiset (Submission κ) := 0
  waiting : Kind → List (Submission κ) := fun _ => []
  /-- the submissions that were put into a queue and have not returned -/
  returning : Multiset (Submission κ) := 0
  running : Option (Submission κ) := none

namespace Queues
variable {κ : Type}

inductive Step (q : Queues κ) : Event κ → Queues κ → Prop where
  | call {x : Submission κ} : x.id = q.calls →
      Step q (.called x) { q with calls := q.calls + 1, calling := x ::ₘ q.calling }
  | push {x : Submission κ} {calling : Multiset (Submission κ)} : q.calling = x ::ₘ calling →
      (q.waiting x.kind).length ≤ x.kind.capacity.val →
      Step q (.pushed x) { q with
        calling := calling
        waiting := Function.update q.waiting x.kind (q.waiting x.kind ++ [x])
        returning := x ::ₘ q.returning }
  | accept {x : Submission κ} {returning : Multiset (Submission κ)} : q.returning = x ::ₘ returning →
      Step q (.returned x .accepted) { q with returning := returning }
  | reject {x : Submission κ} {status : CommandAdmissionStatus} {calling : Multiset (Submission κ)} :
      status ≠ .accepted → q.calling = x ::ₘ calling → Step q (.returned x status) { q with calling := calling }
  | start {x : Submission κ} {rest : List (Submission κ)} : q.running = none → q.waiting x.kind = x :: rest →
      Step q (.started x) { q with waiting := Function.update q.waiting x.kind rest, running := some x }
  | finish {x : Submission κ} : q.running = some x → Step q (.finished x) { q with running := none }

/-- The runs of the queues. -/
inductive Run : List (Event κ) → Queues κ → Prop where
  | nil : Run [] {}
  | concat {trace : List (Event κ)} {q q' : Queues κ} {e : Event κ} :
      Run trace q → Step q e q' → Run (trace ++ [e]) q'

/-- The submissions under way have different numbers. -/
structure Numbered (q : Queues κ) : Prop where
  nodup : ((q.calling + q.returning).map Submission.id).Nodup
  id_lt : ∀ x ∈ q.calling + q.returning, x.id < q.calls

theorem Numbered.of_le {q q' : Queues κ} (h : q.Numbered) (hcalls : q'.calls = q.calls)
    (hle : q'.calling + q'.returning ≤ q.calling + q.returning) : q'.Numbered where
  nodup := Multiset.nodup_of_le (Multiset.map_le_map hle) h.nodup
  id_lt x hx := hcalls ▸ h.id_lt x (Multiset.mem_of_le hle hx)

theorem Numbered.step {q q' : Queues κ} {e : Event κ} (h : q.Numbered) (hs : Step q e q') : q'.Numbered := by
  cases hs with
  | @call x hid =>
    constructor
    · simp only [Multiset.cons_add, Multiset.map_cons, Multiset.nodup_cons]
      refine ⟨fun hmem => ?_, h.nodup⟩
      obtain ⟨y, hy, heq⟩ := Multiset.mem_map.1 hmem
      have hlt := h.id_lt y hy
      omega
    · intro y hy
      rw [Multiset.cons_add, Multiset.mem_cons] at hy
      rcases hy with rfl | hy
      · exact Nat.lt_succ_of_le (Nat.le_of_eq hid)
      · exact Nat.lt_succ_of_lt (h.id_lt y hy)
  | push hcalling => exact h.of_le rfl (by simp [hcalling, Multiset.cons_add])
  | accept hreturning => exact h.of_le rfl (by simpa [hreturning] using Multiset.le_cons_self _ _)
  | reject _ hcalling => exact h.of_le rfl (by simpa [hcalling] using Multiset.le_cons_self _ _)
  | start | finish => exact h.of_le rfl le_rfl

theorem Numbered.disjoint {q : Queues κ} (h : q.Numbered) {x : Submission κ} (hx : x ∈ q.calling) :
    x ∉ q.returning := by
  have hdisjoint := Multiset.disjoint_of_nodup_add (Multiset.Nodup.of_map _ h.nodup)
  exact Multiset.disjoint_left.1 hdisjoint hx

end Queues

/-! ### The submissions that are called and not pushed -/

section Calling
variable {κ : Type}

/-- The thread's submission that is neither pushed nor rejected. -/
def Thread.calling : Thread κ → Multiset (Submission κ)
  | .submit .announce x _ | .submit .admission x _ | .submit (.reject _) x _ => {x}
  | .submit (.push e) x _ => if e.holds then 0 else {x}
  | _ => 0

@[simp] theorem calling_loopHead (processed retries : Nat) (d : Caller κ .drain) :
    (loopHead processed retries d).calling = 0 := by
  unfold loopHead
  split_ifs <;> rfl

@[simp] theorem calling_returnSubmit (c : Caller κ .submit) : c.returnSubmit.calling = 0 := by
  cases c <;> rfl

@[simp] theorem calling_returnSchedule (c : Caller κ .schedule) : c.returnSchedule.1.calling = 0 := by
  cases c with
  | submit x c => exact calling_returnSubmit c
  | runDrainTask => rfl

@[simp] theorem calling_returnDrain (more : Bool) (d : Caller κ .drain) :
    (d.returnDrain more).1.calling = 0 := by
  cases d with
  | task => cases more <;> rfl
  | inline c =>
    cases more
    · exact calling_returnSchedule c
    · rfl

@[simp] theorem calling_afterPush (x : Submission κ) (c : Caller κ .submit) (e : Emplace (Submission κ)) :
    (afterPush x c e).calling = if e.holds then 0 else {x} := by
  cases e with
  | returned result => cases result <;> rfl
  | _ => rfl

@[simp] theorem calling_afterPop (k : Kind) (processed retries : Nat) (d : Caller κ .drain)
    (c : Pop (Submission κ)) : (afterPop k processed retries d c).1.calling = 0 := by
  cases c with
  | returned x => rcases x with _ | x <;> cases k <;> rfl
  | _ => rfl

@[simp] theorem calling_afterCheck (pending processed retries : Nat) (d : Caller κ .drain) :
    (afterCheck pending processed retries d).calling = 0 := by
  unfold afterCheck
  split_ifs
  · rfl
  · rfl
  · exact calling_loopHead ..

theorem quiet_returnSchedule (c : Caller κ .schedule) :
    calledOf c.returnSchedule.2 = [] ∧ pushedOf c.returnSchedule.2 = [] ∧ rejectedOf c.returnSchedule.2 = [] := by
  cases c <;> exact ⟨rfl, rfl, rfl⟩

theorem quiet_returnDrain (more : Bool) (d : Caller κ .drain) : calledOf (d.returnDrain more).2 = [] ∧
    pushedOf (d.returnDrain more).2 = [] ∧ rejectedOf (d.returnDrain more).2 = [] := by
  cases d with
  | task => cases more <;> exact ⟨rfl, rfl, rfl⟩
  | inline c =>
    cases more
    · exact quiet_returnSchedule c
    · exact ⟨rfl, rfl, rfl⟩

theorem quiet_afterPop (k : Kind) (processed retries : Nat) (d : Caller κ .drain) (c : Pop (Submission κ)) :
    calledOf (afterPop k processed retries d c).2 = [] ∧ pushedOf (afterPop k processed retries d c).2 = [] ∧
      rejectedOf (afterPop k processed retries d c).2 = [] := by
  cases c with
  | returned x => rcases x with _ | x <;> cases k <;> exact ⟨rfl, rfl, rfl⟩
  | _ => exact ⟨rfl, rfl, rfl⟩

end Calling

variable {T κ : Type} [Fintype T] [DecidableEq T] {s s' : State T κ}

/-- A step puts what it calls among the submissions being called, and takes from them what it pushes or rejects. -/
def CallsBalance (s s' : State T κ) (ev : List (Event κ)) : Prop :=
  s'.trace = s.trace ++ ev ∧
    total Thread.calling s'.threads + (pushedOf ev + rejectedOf ev : Multiset (Submission κ)) =
      total Thread.calling s.threads + calledOf ev

theorem CallsBalance.goto {u : State T κ} {t : T} {x : Thread κ × List (Event κ)}
    (hthreads : u.threads = s.threads) (htrace : u.trace = s.trace)
    (h : x.1.calling + (pushedOf x.2 + rejectedOf x.2 : Multiset (Submission κ)) =
      (s.threads t).calling + calledOf x.2) : CallsBalance s (u.goto t x) x.2 := by
  refine ⟨congrArg (· ++ x.2) htrace, ?_⟩
  rw [show (u.goto t x).threads = Function.update s.threads t x.1 by rw [← hthreads]; rfl]
  exact total_balance h

/-- A step that neither calls, pushes nor rejects. -/
theorem CallsBalance.quiet {u : State T κ} {t : T} {x : Thread κ × List (Event κ)}
    (hthreads : u.threads = s.threads) (htrace : u.trace = s.trace)
    (hev : calledOf x.2 = [] ∧ pushedOf x.2 = [] ∧ rejectedOf x.2 = []) (hx : x.1.calling = (s.threads t).calling) :
    CallsBalance s (u.goto t x) x.2 := by
  refine .goto hthreads htrace ?_
  rw [hev.1, hev.2.1, hev.2.2, hx]
  rfl

theorem Step.callsBalance (hok : ∀ t, (s.threads t).Ok) (hs : Step s s') : ∃ ev, CallsBalance s s' ev := by
  cases hs with
  | call t kind command h =>
    refine ⟨_, .goto (u := s) rfl rfl ?_⟩
    rw [h]
    simp [Thread.calling, calledOf, pushedOf, rejectedOf]
  | handlerCall t kind command running processed retries d h =>
    refine ⟨_, .goto (u := s) rfl rfl ?_⟩
    rw [h]
    simp [Thread.calling, calledOf, pushedOf, rejectedOf]
  | announce t x c h => exact ⟨_, .quiet (u := s) (t := t) rfl rfl ⟨rfl, rfl, rfl⟩ (by rw [h]; rfl)⟩
  | admission t x c h =>
    refine ⟨_, .quiet (u := s) rfl rfl ⟨rfl, rfl, rfl⟩ ?_⟩
    rw [h]
    dsimp only
    split_ifs <;> rfl
  | push t spurious e x c h =>
    have hcar := hok t
    rw [h] at hcar
    refine ⟨_, .goto (u := s.setRing x.kind _) rfl rfl ?_⟩
    rw [h, calling_afterPush, pushEvents_emplace]
    rcases (s.rings x.kind).emplace_cases t spurious hcar.1 with ⟨-, hh⟩ | ⟨-, hh, hh'⟩
    · simp [hh, Thread.calling, calledOf, pushedOf, rejectedOf]
    · simp [hh, hh', Thread.calling, calledOf, pushedOf, rejectedOf]
  | reject t status x c h =>
    have hst := hok t
    rw [h] at hst
    refine ⟨_, .goto (u := s) rfl rfl ?_⟩
    rw [h, calling_returnSubmit]
    cases status with
    | accepted => exact absurd rfl hst
    | queueFull | stopping => rfl
  | exchange t c h =>
    refine ⟨_, .quiet (u := s) rfl rfl ?_ ?_⟩
    · split_ifs
      · exact quiet_returnSchedule c
      · exact ⟨rfl, rfl, rfl⟩
    · rw [h]
      split_ifs
      · exact calling_returnSchedule c
      · rfl
  | post t c h =>
    exact ⟨_, .quiet (u := s) rfl rfl (quiet_returnSchedule c) (by rw [h, calling_returnSchedule]; rfl)⟩
  | postRefused t c h =>
    exact ⟨_, .quiet (u := s) rfl rfl ⟨rfl, rfl, rfl⟩ (by rw [h, calling_loopHead]; rfl)⟩
  | startTask t h htasks =>
    exact ⟨_, .quiet (u := s) rfl rfl ⟨rfl, rfl, rfl⟩ (by rw [h, calling_loopHead]; rfl)⟩
  | pop t k c processed retries d h =>
    exact ⟨_, .quiet (u := s.setRing k _) rfl rfl (quiet_afterPop ..) (by rw [h, calling_afterPop]; rfl)⟩
  | checkPending t processed retries d h =>
    exact ⟨_, .quiet (u := s) rfl rfl ⟨rfl, rfl, rfl⟩ (by rw [h, calling_afterCheck]; rfl)⟩
  | finish t x processed retries d h =>
    exact ⟨_, .quiet (u := s) (t := t) rfl rfl ⟨rfl, rfl, rfl⟩ (by rw [h]; rfl)⟩
  | release t processed retries d h =>
    exact ⟨_, .quiet (u := s) rfl rfl ⟨rfl, rfl, rfl⟩ (by rw [h, calling_loopHead]; rfl)⟩
  | clear t processed retries d h =>
    exact ⟨_, .quiet (u := s) (t := t) rfl rfl ⟨rfl, rfl, rfl⟩ (by rw [h]; rfl)⟩
  | recheck t processed retries d h =>
    exact ⟨_, .quiet (u := s) rfl rfl (quiet_returnDrain ..) (by rw [h, calling_returnDrain]; rfl)⟩
  | closeAdmission | waitPending | waitDrain =>
    exact ⟨[], by simp [CallsBalance, calledOf, pushedOf, rejectedOf]⟩

/-! ### The simulation -/

/-- The scheduler in state `s` stands for the queues `q`. -/
structure Implements (s : State T κ) (q : Queues κ) : Prop where
  calls : q.calls = s.calls
  calling : q.calling = total Thread.calling s.threads
  returning : q.returning = total (fun x => (x.account.pushed : Multiset (Submission κ))) s.threads
  waiting : ∀ k, (s.rings k).reserved.map (fun x => some x.2) = (s.rings k).popped ++ (q.waiting k).map some
  running : (q.running.toList : Multiset (Submission κ)) =
    total (fun x => (x.account.handlers : Multiset (Submission κ))) s.threads

omit [DecidableEq T] in
theorem implements_new : Implements (State.new : State T κ) {} where
  calls := rfl
  calling := (total_const_zero fun _ => rfl).symm
  returning := (total_const_zero fun _ => rfl).symm
  waiting _ := rfl
  running := (total_const_zero fun _ => rfl).symm

omit [Fintype T] [DecidableEq T] in
/-- Before a producer reserves a position, at most as many commands as the capacity are reserved and not popped. -/
theorem RingsInv.length_waiting_le (h : RingsInv s) {k : Kind} {waiting : List (Submission κ)}
    (hw : (s.rings k).reserved.map (fun x => some x.2) = (s.rings k).popped ++ waiting.map some) :
    waiting.length ≤ k.capacity.val + 1 := by
  obtain ⟨c, -, hr⟩ := h k
  have hlen := congrArg List.length hw
  have hroom := hr.room
  have hreleased : (s.rings k).released c ≤ (s.rings k).box.dequeuePosition + 1 := by
    unfold Ring.released
    split
    · rename_i hpop
      have := hr.pop _ rfl
      omega
    · omega
  simp only [List.length_map, List.length_append, hr.length_reserved, hr.length_popped] at hlen
  omega

omit [Fintype T] [DecidableEq T] in
theorem RingsInv.exists_waiting (h : RingsInv s) (k : Kind) :
    ∃ waiting : List (Submission κ),
      (s.rings k).reserved.map (fun x => some x.2) = (s.rings k).popped ++ waiting.map some := by
  obtain ⟨c, -, hr⟩ := h k
  refine ⟨((s.rings k).reserved.drop (s.rings k).box.dequeuePosition).map Prod.snd, ?_⟩
  conv_lhs => rw [← List.take_append_drop (s.rings k).box.dequeuePosition (s.rings k).reserved, List.map_append]
  rw [hr.popped_eq, List.map_map]
  rfl

omit [DecidableEq T] in
theorem Implements.waiting_of_move {q : Queues κ} (h : Implements s q) {ev : List (Event κ)} (hm : Move s s' ev)
    (hstarted : startedOf ev = []) (k : Kind) : (s'.rings k).reserved.map (fun x => some x.2) =
      (s'.rings k).popped ++ (q.waiting k ++ (pushedOf ev).filter (·.kind = k)).map some := by
  have hres := congrArg (List.map some) (hm.reserved k)
  rw [List.map_append, List.map_map, List.map_map] at hres
  rw [show (s'.rings k).reserved.map (fun x => some x.2) = _ from hres]
  rw [show (s.rings k).reserved.map (some ∘ Prod.snd) = _ from h.waiting k, hm.popped k, hstarted]
  simp

omit [DecidableEq T] in
theorem Implements.step_of_move {q : Queues κ} (h : Implements s q) (hi' : Inv s') {e : Event κ}
    (hm : Move s s' [e]) (hb : CallsBalance s s' [e]) : ∃ q', Queues.Step q e q' ∧ Implements s' q' := by
  have hcalling := hb.2
  have hreturning := hm.waiting
  have hrunning := hm.handling
  rw [← h.calling] at hcalling
  rw [← h.returning] at hreturning
  rw [← h.running] at hrunning
  have hcalls : q.calls + (calledOf [e]).length = s'.calls := by rw [hm.calls, h.calls]
  cases e with
  | called x =>
    have hid : x.id = q.calls := by
      rcases hm.called with hnone | ⟨y, hy, hid⟩
      · cases hnone
      · obtain rfl : x = y := by simpa using hy
        rw [hid, h.calls]
    refine ⟨_, .call hid, hcalls, ?_, ?_, fun k => ?_, ?_⟩
    · have hadd : q.calling + {x} = total Thread.calling s'.threads := by
        simpa [pushedOf, rejectedOf, calledOf] using hcalling.symm
      exact (Multiset.singleton_add x _).symm.trans ((add_comm _ _).trans hadd)
    · simpa [acceptedOf, pushedOf] using hreturning.symm
    · simpa [pushedOf] using h.waiting_of_move hm rfl k
    · simpa [finishedOf, startedOf] using hrunning.symm
  | pushed x =>
    have hq : q.calling = x ::ₘ total Thread.calling s'.threads := by
      simpa [pushedOf, rejectedOf, calledOf, add_comm] using hcalling.symm
    have hlength := hi'.rings.length_waiting_le (h.waiting_of_move hm rfl x.kind)
    have hwaiting : ∀ k, Function.update q.waiting x.kind (q.waiting x.kind ++ [x]) k =
        q.waiting k ++ (pushedOf [Event.pushed x]).filter (·.kind = k) := by
      intro k
      by_cases hk : k = x.kind
      · subst hk
        simp [pushedOf]
      · simp [pushedOf, hk, Ne.symm hk]
    refine ⟨_, .push hq (by simpa [pushedOf] using hlength), hcalls, rfl, ?_, fun k => ?_, ?_⟩
    · have hadd : q.returning + {x} =
          total (fun x => (x.account.pushed : Multiset (Submission κ))) s'.threads := by
        simpa [acceptedOf, pushedOf] using hreturning.symm
      exact (Multiset.singleton_add x _).symm.trans ((add_comm _ _).trans hadd)
    · show _ = _ ++ (Function.update q.waiting x.kind (q.waiting x.kind ++ [x]) k).map some
      rw [hwaiting]
      exact h.waiting_of_move hm rfl k
    · simpa [finishedOf, startedOf] using hrunning.symm
  | returned x status =>
    have hwaiting : ∀ k, (s'.rings k).reserved.map (fun x => some x.2) =
        (s'.rings k).popped ++ (q.waiting k).map some := by
      intro k
      simpa [pushedOf] using h.waiting_of_move hm rfl k
    have hhandlers : (q.running.toList : Multiset (Submission κ)) =
        total (fun x => (x.account.handlers : Multiset (Submission κ))) s'.threads := by
      simpa [finishedOf, startedOf] using hrunning.symm
    by_cases hstatus : status = .accepted
    · subst hstatus
      have hq : q.returning =
          x ::ₘ total (fun x => (x.account.pushed : Multiset (Submission κ))) s'.threads := by
        simpa [acceptedOf, pushedOf, add_comm] using hreturning.symm
      refine ⟨_, .accept hq, hcalls, ?_, rfl, hwaiting, hhandlers⟩
      simpa [pushedOf, rejectedOf, calledOf] using hcalling.symm
    · have hrejected : rejectedOf [Event.returned x status] = [x] := by
        cases status with
        | accepted => exact absurd rfl hstatus
        | queueFull | stopping => rfl
      have haccepted : acceptedOf [Event.returned x status] = [] := by
        cases status with
        | accepted => exact absurd rfl hstatus
        | queueFull | stopping => rfl
      have hq : q.calling = x ::ₘ total Thread.calling s'.threads := by
        rw [hrejected] at hcalling
        simpa [pushedOf, calledOf, add_comm] using hcalling.symm
      refine ⟨_, .reject hstatus hq, hcalls, rfl, ?_, hwaiting, hhandlers⟩
      rw [haccepted] at hreturning
      simpa [pushedOf] using hreturning.symm
  | started x =>
    -- the new handler is the only one
    have hcard := hi'.handling_le_one
    have htotal : total (fun x => (x.account.handlers : Multiset (Submission κ))) s'.threads =
        (q.running.toList : Multiset (Submission κ)) + {x} := by
      simpa [finishedOf, startedOf] using hrunning
    have hnone : q.running = none := by
      cases hrun : q.running with
      | none => rfl
      | some y =>
        rw [htotal, hrun] at hcard
        simp at hcard
    obtain ⟨rest, hrest⟩ := hi'.rings.exists_waiting x.kind
    have hsame : ∀ k, (s'.rings k).reserved.map (fun x => some x.2) =
        (s.rings k).reserved.map (fun x => some x.2) := by
      intro k
      have hres := congrArg (List.map some) (hm.reserved k)
      rw [List.map_append, List.map_map, List.map_map] at hres
      exact hres.trans (List.append_nil _)
    have hhead : q.waiting x.kind = x :: rest := by
      rw [hsame, h.waiting, hm.popped] at hrest
      have hcancel := List.append_cancel_left (hrest.trans (List.append_assoc ..))
      exact List.map_injective_iff.2 (Option.some_injective _) (by simpa [startedOf] using hcancel)
    refine ⟨_, .start hnone hhead, hcalls, ?_, ?_, fun k => ?_, ?_⟩
    · simpa [pushedOf, rejectedOf, calledOf] using hcalling.symm
    · simpa [acceptedOf, pushedOf] using hreturning.symm
    · show _ = _ ++ (Function.update q.waiting x.kind rest k).map some
      by_cases hk : k = x.kind
      · subst hk
        rw [Function.update_self, hrest]
      · rw [Function.update_of_ne hk, hsame, h.waiting, hm.popped]
        simp [startedOf, Ne.symm hk]
    · rw [htotal, hnone]
      rfl
  | finished x =>
    have hone : Multiset.card (q.running.toList : Multiset (Submission κ)) ≤ 1 := by
      cases q.running <;> simp
    have hhandlers : total (fun x => (x.account.handlers : Multiset (Submission κ))) s'.threads + {x} =
        (q.running.toList : Multiset (Submission κ)) := by
      simpa [finishedOf, startedOf] using hrunning
    have hrun : q.running = some x := by
      have hmem : x ∈ (q.running.toList : Multiset (Submission κ)) := by
        rw [← hhandlers]
        simp
      simpa using hmem
    have hnone : total (fun x => (x.account.handlers : Multiset (Submission κ))) s'.threads = 0 := by
      rw [← hhandlers, Multiset.card_add, Multiset.card_singleton] at hone
      exact Multiset.card_eq_zero.1 (by omega)
    refine ⟨_, .finish hrun, hcalls, ?_, ?_, fun k => ?_, hnone.symm⟩
    · simpa [pushedOf, rejectedOf, calledOf] using hcalling.symm
    · simpa [acceptedOf, pushedOf] using hreturning.symm
    · simpa [pushedOf] using h.waiting_of_move hm rfl k

/-- Every step of the scheduler is no step or one step of the queues, labelled with what the scheduler records. -/
theorem Implements.step {q : Queues κ} (h : Implements s q) (hr : (system T κ).Reachable s) (hs : Step s s') :
    (s'.trace = s.trace ∧ Implements s' q) ∨
      ∃ e q', s'.trace = s.trace ++ [e] ∧ Queues.Step q e q' ∧ Implements s' q' := by
  have hi := inv_of_reachable hr
  obtain ⟨ev, hm⟩ := hs.move hi fun k x hx => (history_of_reachable hr).kind_eq hx
  obtain ⟨ev', hb⟩ := hs.callsBalance hi.ok
  obtain rfl : ev = ev' := List.append_cancel_left (hm.trace.symm.trans hb.1)
  have hi' := inv_of_reachable (hr.step hs)
  match ev, hm.single with
  | [], _ =>
    refine .inl ⟨hm.trace.trans (List.append_nil _), ?_, ?_, ?_, fun k => ?_, ?_⟩
    · rw [hm.calls]
      exact h.calls
    · rw [h.calling]
      simpa [pushedOf, rejectedOf, calledOf] using hb.2.symm
    · rw [h.returning]
      simpa [acceptedOf, pushedOf] using hm.waiting.symm
    · simpa [pushedOf] using h.waiting_of_move hm rfl k
    · rw [h.running]
      simpa [finishedOf, startedOf] using hm.handling.symm
  | [e], _ =>
    obtain ⟨q', hq, h'⟩ := h.step_of_move hi' hm hb
    exact .inr ⟨e, q', hm.trace, hq, h'⟩
  | _ :: _ :: _, hsingle => simp at hsingle

/-- The trace of a run of the scheduler is a run of the queues. -/
theorem implements_of_reachable (h : (system T κ).Reachable s) :
    ∃ q, Queues.Run s.trace q ∧ Implements s q := by
  induction h with
  | init h =>
    subst h
    exact ⟨{}, .nil, implements_new⟩
  | step hr hs ih =>
    obtain ⟨q, hrun, h⟩ := ih
    rcases h.step hr hs with ⟨htrace, h'⟩ | ⟨e, q', htrace, hq, h'⟩
    · exact ⟨q, htrace ▸ hrun, h'⟩
    · exact ⟨q', htrace ▸ hrun.concat hq, h'⟩

/-- Two threads submit, and the one that called last is the first in the queue. -/
theorem implements_overtaken_submit : ∃ s : State Bool Nat,
    s.trace = [.called ⟨0, .normal, 7⟩, .called ⟨1, .normal, 8⟩, .pushed ⟨1, .normal, 8⟩] ∧
      ∃ q, Queues.Run s.trace q ∧ Implements s q := by
  have h : (system Bool Nat).Reachable _ := .init rfl
  replace h := h.step (.call true .normal 7 rfl)
  replace h := h.step (.announce true _ _ rfl)
  replace h := h.step (.call false .normal 8 rfl)
  replace h := h.step (.announce false _ _ rfl)
  replace h := h.step (.admission true _ _ rfl)
  replace h := h.step (.push true false _ _ _ rfl)
  replace h := h.step (.admission false _ _ rfl)
  replace h := h.step (.push false false _ _ _ rfl)
  replace h := h.step (.push false false _ _ _ rfl)
  replace h := h.step (.push false false _ _ _ rfl)
  exact ⟨_, rfl, implements_of_reachable h⟩

omit [DecidableEq T] in
theorem Implements.nothing_of_idle {q : Queues κ} (h : Implements s q) (hidle : ∀ t, s.threads t = .idle)
    (hempty : ¬ s.Unpopped) : q.calling = 0 ∧ q.returning = 0 ∧ (∀ k, q.waiting k = []) ∧ q.running = none := by
  refine ⟨?_, ?_, fun k => ?_, ?_⟩
  · rw [h.calling]
    exact total_const_zero fun t => by rw [hidle t]; rfl
  · rw [h.returning]
    exact total_const_zero fun t => by rw [hidle t]; rfl
  · have hlen := congrArg List.length (h.waiting k)
    have hle := Nat.le_of_not_lt fun hlt => hempty ⟨k, hlt⟩
    rw [List.length_append, List.length_map, List.length_map] at hlen
    exact List.length_eq_zero_iff.1 (by omega)
  · have hzero : total (fun x : Thread κ => (x.account.handlers : Multiset (Submission κ))) s.threads = 0 :=
      total_const_zero fun t => by rw [hidle t]; rfl
    have hrunning := h.running.trans hzero
    cases hrun : q.running with
    | none => rfl
    | some x => simp [hrun] at hrunning

/-- With no thread in the scheduler and no drain task posted, every mailbox is empty. -/
theorem not_unpopped_of_idle (h : (system T κ).Reachable s) (hidle : ∀ t, s.threads t = .idle)
    (htasks : s.tasks = 0) : ¬ s.Unpopped := by
  intro hne
  rcases wake_of_reachable h hne with hflag | ⟨t, ht⟩
  · have hheld : total (fun x => x.account.held) s.threads = 0 :=
      total_const_zero (w := fun x : Thread κ => x.account.held) fun t => by rw [hidle t]; rfl
    have hset := (inv_of_reachable h).flag
    rw [FlagInv, hheld, htasks, if_pos hflag] at hset
    cases hset
  · rw [hidle t] at ht
    exact ht

end Scheduler
end IdtxCore
