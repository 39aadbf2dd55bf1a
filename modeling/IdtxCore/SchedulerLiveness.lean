import IdtxCore.SchedulerRefinement

/-!
# The scheduler comes to rest

When nobody submits any more, the threads of the scheduler finish what was accepted: `comesToRest_of_fair`. Two
numbers carry it. `pushWork` bounds what a submission still does before its command is in the mailbox: a
compare-exchange that fails has lost to another submission that is now done with it. Once no thread is in such a
submission, every step of any thread lowers `State.work`: a command in a mailbox pays for the batch it may start, and a
batch that ends without a command has found the pending count zero.

Priority commands overtake without end, so a normal command may wait for as long as somebody submits those.
-/

namespace IdtxCore

/-- How many steps a call of `TryEmplace` still takes if no other one gets a position; after a refusal there is one to
release the pending count. -/
def Emplace.work {α : Type} (enqueuePosition : Nat) : Emplace α → Nat
  | .loadPosition _ => 5
  | .loadSequence _ position => if position = enqueuePosition then 4 else 7
  | .compareExchange _ position => if position = enqueuePosition then 3 else 6
  | .construct .. => 2
  | .publish _ => 1
  | .returned result => if result then 0 else 1

namespace Ring
variable {P α : Type} {cap : Capacity} {r : Ring P α cap}

theorem emplace_snd (p : P) (spurious : Bool) (e : Emplace α) :
    (r.emplace p spurious e).2 = (e.step spurious r.box).2 := by
  simp only [emplace]
  split <;> rename_i heq <;> simp only [heq]

/-- The slot behind the last reserved position is free for it or still in use for an earlier one. -/
theorem Inv.sequence_le {producer : P → Option (Emplace α)} {consumer : Option (Pop α)}
    (h : r.Inv producer consumer) : (r.box.slot r.box.enqueuePosition).sequence ≤ r.box.enqueuePosition := by
  by_cases hlt : r.box.enqueuePosition < r.released consumer + cap.val
  · rw [h.free _ le_rfl hlt]
  · have hfull : r.box.enqueuePosition = r.released consumer + cap.val := Nat.le_antisymm h.room (Nat.not_lt.1 hlt)
    have hslot : r.box.slot r.box.enqueuePosition = r.box.slot (r.released consumer) := by
      rw [hfull]
      simp [Mailbox.slot, Capacity.index_add]
    have htwo := cap.two_le
    rw [hslot]
    rcases h.sequence_of_window le_rfl (by omega) with hs | ⟨hs, -⟩ <;> omega

/-- A position that is not the right one any more costs a second round, and no third. -/
theorem Inv.work_step_lt {producer : P → Option (Emplace α)} {consumer : Option (Pop α)} {spurious : Bool}
    {e : Emplace α} (h : r.Inv producer consumer) (hne : ∀ result, e ≠ .returned result)
    (hspurious : ∀ v, e = .compareExchange v r.box.enqueuePosition → spurious = false) :
    (e.step spurious r.box).2.work r.box.enqueuePosition < e.work r.box.enqueuePosition := by
  cases e with
  | loadPosition v => simp [Emplace.step, Emplace.work]
  | loadSequence v n =>
    have hle := h.sequence_le
    by_cases hn : n = r.box.enqueuePosition
    · subst hn
      simp only [Emplace.step]
      split_ifs with hzero hneg
      · simp [Emplace.work]
      · simp [Emplace.work]
      · omega
    · simp only [Emplace.step]
      split_ifs <;> simp [Emplace.work, hn]
  | compareExchange v n =>
    by_cases hn : n = r.box.enqueuePosition
    · subst hn
      simp [Emplace.step, Emplace.work, hspurious v rfl]
    · simp [Emplace.step, Emplace.work, hn, Ne.symm hn]
  | construct v n => exact Nat.one_lt_two
  | publish n => exact Nat.one_pos
  | returned result => exact absurd rfl (hne result)

end Ring

namespace Scheduler

open Tally

/-! ### Submissions under way -/

section PushWork
variable {T κ : Type}

/-- In `Submit`, before `ScheduleDrainIfRequired`. -/
def Thread.Pushing : Thread κ → Prop
  | .submit .. => True
  | _ => False

def State.stepsToPush (s : State T κ) : Thread κ → Nat
  | .submit .announce _ _ => 9
  | .submit .admission _ _ => 8
  | .submit (.push e) x _ => e.work (s.rings x.kind).box.enqueuePosition
  | .submit (.reject _) _ _ => 1
  | _ => 0

theorem State.stepsToPush_le (s : State T κ) (x : Thread κ) : s.stepsToPush x ≤ 9 := by
  rcases x with _ | ⟨_ | _ | e | _, _, _⟩ | _ | _
  case submit.push =>
    cases e with
    | loadSequence v n | compareExchange v n | returned result =>
      simp only [State.stepsToPush, Emplace.work]
      split_ifs <;> decide
    | _ => exact Nat.le_of_ble_eq_true rfl
  all_goals exact Nat.le_of_ble_eq_true rfl

theorem State.stepsToPush_of_not_pushing (s : State T κ) {x : Thread κ} (h : ¬x.Pushing) : s.stepsToPush x = 0 := by
  cases x with
  | submit => exact absurd trivial h
  | _ => rfl

theorem State.stepsToPush_afterPush (s : State T κ) (x : Submission κ) (c : Caller κ .submit)
    (e : Emplace (Submission κ)) :
    s.stepsToPush (afterPush x c e) = e.work (s.rings x.kind).box.enqueuePosition := by
  cases e with
  | returned result => cases result <;> rfl
  | _ => rfl

theorem not_pushing_returnSubmit (c : Caller κ .submit) : ¬c.returnSubmit.Pushing := by
  cases c <;> exact id

theorem not_pushing_returnSchedule (c : Caller κ .schedule) : ¬c.returnSchedule.1.Pushing := by
  cases c with
  | submit x c => exact not_pushing_returnSubmit c
  | runDrainTask => exact id

theorem not_pushing_returnDrain (more : Bool) (d : Caller κ .drain) : ¬(d.returnDrain more).1.Pushing := by
  cases d with
  | task => cases more <;> exact id
  | inline c =>
    cases more
    · exact not_pushing_returnSchedule c
    · exact id

theorem not_pushing_loopHead (processed retries : Nat) (d : Caller κ .drain) :
    ¬(loopHead processed retries d).Pushing := by
  unfold loopHead
  split_ifs <;> exact id

theorem not_pushing_afterPop (k : Kind) (processed retries : Nat) (d : Caller κ .drain) (c : Pop (Submission κ)) :
    ¬(afterPop k processed retries d c).1.Pushing := by
  cases c with
  | returned x => rcases x with _ | x <;> cases k <;> exact id
  | _ => exact id

theorem not_pushing_afterCheck (pending processed retries : Nat) (d : Caller κ .drain) :
    ¬(afterCheck pending processed retries d).Pushing := by
  unfold afterCheck
  split_ifs
  · exact id
  · exact id
  · exact not_pushing_loopHead _ _ _

end PushWork

section Submissions
variable {T κ : Type} [DecidableEq T] {s s' : State T κ} {t : T}

/-- The compare-exchange of `TryEmplace` fails although the position is the right one. -/
def SpuriousFailure (s s' : State T κ) : Prop :=
  ∃ t x c v, s.threads t = .submit (.push (.compareExchange v (s.rings x.kind).box.enqueuePosition)) x c ∧
    s'.threads t = .submit (.push (.loadSequence v (s.rings x.kind).box.enqueuePosition)) x c

/-- The next step of a thread in a submission. -/
theorem Step.of_pushing {place : SubmitPlace κ} {x : Submission κ} {c : Caller κ .submit} (hs : Step s s')
    (ht : s.threads t = .submit place x c) (hmoves : s'.threads t ≠ s.threads t) :
    match place with
    | .announce => s'.threads t = .submit .admission x c
    | .admission => s'.threads t =
        if s.accepting then .submit (.push (.loadPosition x)) x c else .submit (.reject .stopping) x c
    | .push e => ∃ spurious, s'.threads t = afterPush x c ((s.rings x.kind).emplace t spurious e).2
    | .reject _ => s'.threads t = c.returnSubmit := by
  have other : ∀ {u : T} {y : Thread κ}, Function.update s.threads u y t ≠ s.threads t → t = u := by
    intro u y hne
    by_contra htu
    exact hne (Function.update_of_ne htu ..)
  cases hs with
  | announce u y d h =>
    obtain rfl := other hmoves
    rw [h] at ht
    cases ht
    exact Function.update_self ..
  | admission u y d h =>
    obtain rfl := other hmoves
    rw [h] at ht
    cases ht
    exact Function.update_self ..
  | push u spurious e y d h =>
    obtain rfl := other hmoves
    rw [h] at ht
    cases ht
    exact ⟨spurious, Function.update_self ..⟩
  | reject u status y d h =>
    obtain rfl := other hmoves
    rw [h] at ht
    cases ht
    exact Function.update_self ..
  | call u _ _ h | handlerCall u _ _ _ _ _ _ h | exchange u _ h | post u _ h | postRefused u _ h | startTask u h _
  | pop u _ _ _ _ _ h | checkPending u _ _ _ h | finish u _ _ _ _ h | release u _ _ _ h | clear u _ _ _ h
  | recheck u _ _ _ h =>
    obtain rfl := other hmoves
    rw [h] at ht
    cases ht
  | closeAdmission | waitPending | waitDrain => exact absurd rfl hmoves

/-- A thread gets into a submission by a call only. -/
theorem Step.not_pushing (hs : Step s s') (hcalls : s'.calls = s.calls) (ht : ¬(s.threads t).Pushing) :
    ¬(s'.threads t).Pushing := by
  have keep : ∀ {u : T} {y : Thread κ}, (¬(s.threads u).Pushing → ¬y.Pushing) →
      ¬(Function.update s.threads u y t).Pushing := by
    intro u y hy
    by_cases htu : t = u
    · subst htu
      rw [Function.update_self]
      exact hy ht
    · rwa [Function.update_of_ne htu]
  cases hs with
  | call | handlerCall => exact absurd hcalls (Nat.succ_ne_self _)
  | announce u x c h | admission u x c h | push u _ _ x c h =>
    refine keep fun hnot => absurd ?_ hnot
    rw [h]
    trivial
  | reject u status x c h => exact keep fun _ => not_pushing_returnSubmit c
  | exchange u c h =>
    refine keep fun _ => ?_
    split_ifs
    · exact not_pushing_returnSchedule c
    · exact id
  | post u c h => exact keep fun _ => not_pushing_returnSchedule c
  | postRefused u c h => exact keep fun _ => not_pushing_loopHead 0 0 (.inline c)
  | startTask u h _ => exact keep fun _ => not_pushing_loopHead 0 0 .task
  | release u processed retries d h => exact keep fun _ => not_pushing_loopHead _ _ _
  | pop u k c processed retries d h => exact keep fun _ => not_pushing_afterPop _ _ _ _ _
  | checkPending u processed retries d h => exact keep fun _ => not_pushing_afterCheck _ _ _ _
  | finish | clear => exact keep fun _ => id
  | recheck u processed retries d h => exact keep fun _ => not_pushing_returnDrain _ _
  | closeAdmission | waitPending | waitDrain => exact ht

variable [Fintype T]

/-- Per submission that has no position yet, more than any thread has before it. -/
def State.pushWork (s : State T κ) (t : T) : Nat :=
  10 * Multiset.card (total (fun x => x.account.unpushed) s.threads) + s.stepsToPush (s.threads t)

/-- No submission gets a position, or there is one fewer without. -/
theorem Step.positions (h : (system T κ).Reachable s) (hs : Step s s') (hcalls : s'.calls = s.calls) :
    Multiset.card (total (fun x => x.account.unpushed) s'.threads) <
        Multiset.card (total (fun x => x.account.unpushed) s.threads) ∨
      Multiset.card (total (fun x => x.account.unpushed) s'.threads) =
          Multiset.card (total (fun x => x.account.unpushed) s.threads) ∧
        ∀ k, (s'.rings k).box.enqueuePosition = (s.rings k).box.enqueuePosition := by
  obtain ⟨ev, hm⟩ := hs.move (inv_of_reachable h) fun k x hx => (history_of_reachable h).kind_eq hx
  have hcalled : calledOf ev = [] := List.length_eq_zero_iff.1 (by have := hm.calls; omega)
  have hunpushed := congrArg Multiset.card hm.unpushed
  simp only [hcalled, idsOf, Multiset.card_add, Multiset.coe_card, List.length_map, List.length_nil] at hunpushed
  by_cases hnone : pushedOf ev = [] ∧ rejectedOf ev = []
  · rw [hnone.1, hnone.2] at hunpushed
    refine .inr ⟨hunpushed, fun k => ?_⟩
    obtain ⟨c, -, hr⟩ := (inv_of_reachable h).rings k
    obtain ⟨c', -, hr'⟩ := (inv_of_reachable (h.step hs)).rings k
    have hreserved := congrArg List.length (hm.reserved k)
    rw [hnone.1, List.filter_nil, List.append_nil, List.length_map, List.length_map] at hreserved
    rw [← hr.length_reserved, ← hr'.length_reserved, hreserved]
  · have hpos : 0 < (pushedOf ev).length + (rejectedOf ev).length := by
      by_contra hzero
      exact hnone ⟨List.length_eq_zero_iff.1 (by omega), List.length_eq_zero_iff.1 (by omega)⟩
    exact .inl (by omega)

omit [DecidableEq T] [Fintype T] in
theorem State.stepsToPush_congr (hpositions : ∀ k, (s'.rings k).box.enqueuePosition = (s.rings k).box.enqueuePosition)
    (x : Thread κ) : s'.stepsToPush x = s.stepsToPush x := by
  rcases x with _ | ⟨_ | _ | e | _, x, c⟩ | _ | _
  case submit.push => simp only [State.stepsToPush, hpositions]
  all_goals rfl

theorem Step.stepsToPush_lt (h : (system T κ).Reachable s) (hs : Step s s') (hspurious : ¬SpuriousFailure s s')
    (ht : (s.threads t).Pushing) (hmoves : s'.threads t ≠ s.threads t) :
    s.stepsToPush (s'.threads t) < s.stepsToPush (s.threads t) := by
  cases hthread : s.threads t with
  | idle | schedule | drain =>
    rw [hthread] at ht
    exact ht.elim
  | submit place x c =>
    have hnext := hs.of_pushing hthread hmoves
    cases place with
    | announce =>
      rw [hnext]
      exact Nat.lt_succ_self 8
    | admission =>
      rw [hnext]
      split_ifs <;> exact Nat.le_of_ble_eq_true rfl
    | reject status =>
      rw [hnext, s.stepsToPush_of_not_pushing (not_pushing_returnSubmit c)]
      exact Nat.one_pos
    | push e =>
      obtain ⟨spurious, hnext⟩ := hnext
      obtain ⟨consumer, -, hr⟩ := (inv_of_reachable h).rings x.kind
      have hok := (inv_of_reachable h).ok t
      rw [hthread] at hok
      rw [hnext, s.stepsToPush_afterPush, Ring.emplace_snd]
      refine hr.work_step_lt hok.2 fun v he => ?_
      subst he
      cases spurious with
      | false => rfl
      | true =>
        refine absurd ⟨t, x, c, v, hthread, hnext.trans ?_⟩ hspurious
        rw [Ring.emplace_snd]
        simp [Emplace.step, afterPush]

theorem Step.pushWork_le (h : (system T κ).Reachable s) (hs : Step s s') (hcalls : s'.calls = s.calls)
    (hspurious : ¬SpuriousFailure s s') (t : T) :
    s'.pushWork t ≤ s.pushWork t ∧
      ((s.threads t).Pushing → s'.threads t ≠ s.threads t → s'.pushWork t < s.pushWork t) := by
  have hbound := s'.stepsToPush_le (s'.threads t)
  unfold State.pushWork
  rcases hs.positions h hcalls with hlt | ⟨heq, hpositions⟩
  · exact ⟨by omega, fun _ _ => by omega⟩
  · have hstays := State.stepsToPush_congr hpositions (s'.threads t)
    have hlt := hs.stepsToPush_lt h hspurious (t := t)
    rw [heq, hstays]
    refine ⟨?_, fun ht hmoves => Nat.add_lt_add_left (hlt ht hmoves) _⟩
    by_cases hmoves : s'.threads t = s.threads t
    · rw [hmoves]
    · by_cases ht : (s.threads t).Pushing
      · exact Nat.add_le_add_left (hlt ht hmoves).le _
      · rw [s.stepsToPush_of_not_pushing (hs.not_pushing hcalls ht)]
        exact Nat.le_add_right _ _

end Submissions

/-! ### Batches -/

section Work
variable {T κ : Type}

def State.left (s : State T κ) (k : Kind) : Nat := (s.rings k).reserved.length - (s.rings k).popped.length

def popWork : Pop (Submission κ) → Nat
  | .loadPosition => 5
  | .loadSequence _ => 4
  | .moveOut _ => 3
  | .release .. => 2
  | .advance .. => 1
  | .returned _ => 0

/-- A batch that has handled a command may be followed by another one. -/
def nextBatch (processed pending : Nat) : Nat := if processed = 0 ∧ pending = 0 then 0 else 40

def Caller.work : {f : Fn} → Caller κ f → Nat
  | _, .outside => 0
  | _, .handler _ _ caller => 90 + caller.work
  | _, .submit _ caller => caller.work
  | _, .runDrainTask => 0
  | _, .task => 0
  | _, .inline caller => caller.work

/-- What a thread that is in no submission may still do without another command, where `priority` commands are left in
the priority mailbox. A batch may have looked into a mailbox before the last command got there: that is a second round
or a second batch, and no third. -/
def Thread.work (priority pending : Nat) : Thread κ → Nat
  | .idle => 0
  | .submit .. => 0
  | .schedule .exchange c => 40 + c.work
  | .schedule .post c => 35 + c.work
  | .drain (.pop .priority c) processed _ d => 20 + popWork c + nextBatch processed 0 + d.work
  | .drain (.pop .normal c) processed _ d => 10 + popWork c + nextBatch processed 0 + nextBatch 0 priority + d.work
  | .drain .checkPending processed _ d => 9 + nextBatch processed 0 + nextBatch 0 pending + d.work
  | .drain (.handling _) _ _ d => 90 + d.work
  | .drain .release _ _ d => 89 + d.work
  | .drain .clear processed _ d => 4 + nextBatch processed pending + d.work
  | .drain .recheck processed _ d => 3 + nextBatch processed pending + d.work

def Closer.work : Closer → Nat
  | .running => 3
  | .waitPending => 2
  | .waitDrain => 1
  | .returned => 0

namespace Thread
variable (priority pending processed retries : Nat) (c : Caller κ .schedule) (d : Caller κ .drain)
  (p : Pop (Submission κ)) (x : Submission κ)

@[simp] theorem work_idle : (idle : Thread κ).work priority pending = 0 := rfl
@[simp] theorem work_exchange : (schedule .exchange c).work priority pending = 40 + c.work := rfl
@[simp] theorem work_post : (schedule .post c).work priority pending = 35 + c.work := rfl
@[simp] theorem work_popPriority : (drain (.pop .priority p) processed retries d).work priority pending =
    20 + popWork p + nextBatch processed 0 + d.work := rfl
@[simp] theorem work_popNormal : (drain (.pop .normal p) processed retries d).work priority pending =
    10 + popWork p + nextBatch processed 0 + nextBatch 0 priority + d.work := rfl
@[simp] theorem work_checkPending : (drain .checkPending processed retries d).work priority pending =
    9 + nextBatch processed 0 + nextBatch 0 pending + d.work := rfl
@[simp] theorem work_handling : (drain (.handling x) processed retries d).work priority pending = 90 + d.work := rfl
@[simp] theorem work_release : (drain .release processed retries d).work priority pending = 89 + d.work := rfl
@[simp] theorem work_clear : (drain .clear processed retries d).work priority pending =
    4 + nextBatch processed pending + d.work := rfl
@[simp] theorem work_recheck : (drain .recheck processed retries d).work priority pending =
    3 + nextBatch processed pending + d.work := rfl

end Thread

theorem nextBatch_le {processed pending pending' : Nat} (hle : pending ≤ pending') :
    nextBatch processed pending ≤ nextBatch processed pending' := by
  unfold nextBatch
  split_ifs <;> omega

theorem nextBatch_le_forty (processed pending : Nat) : nextBatch processed pending ≤ 40 := by
  unfold nextBatch
  split_ifs <;> decide

theorem Thread.work_le {priority priority' pending pending' : Nat} (hpriority : priority ≤ priority')
    (hpending : pending ≤ pending') (x : Thread κ) : x.work priority pending ≤ x.work priority' pending' := by
  have hround : nextBatch 0 priority ≤ nextBatch 0 priority' := nextBatch_le hpriority
  have hcheck : nextBatch 0 pending ≤ nextBatch 0 pending' := nextBatch_le hpending
  cases x with
  | idle => exact le_rfl
  | submit => exact le_rfl
  | schedule place c => cases place <;> exact le_rfl
  | drain place processed retries d =>
    have hbatch : nextBatch processed pending ≤ nextBatch processed pending' := nextBatch_le hpending
    cases place with
    | pop k c =>
      cases k
      · simp only [Thread.work]
        omega
      · exact le_rfl
    | handling | release => exact le_rfl
    | checkPending | clear | recheck =>
      simp only [Thread.work]
      omega

@[simp] theorem work_returnSubmit (priority pending : Nat) (c : Caller κ .submit) :
    c.returnSubmit.work priority pending = c.work := by
  cases c <;> rfl

@[simp] theorem work_returnSchedule (priority pending : Nat) (c : Caller κ .schedule) :
    c.returnSchedule.1.work priority pending = c.work := by
  cases c with
  | submit x c => exact work_returnSubmit priority pending c
  | runDrainTask => rfl

theorem work_returnDrain (priority pending : Nat) (more : Bool) (d : Caller κ .drain) :
    (d.returnDrain more).1.work priority pending = (if more then 40 else 0) + d.work := by
  cases d with
  | task => cases more <;> rfl
  | inline c =>
    cases more
    · exact (work_returnSchedule priority pending c).trans (Nat.zero_add _).symm
    · rfl

theorem work_loopHead (priority pending processed retries : Nat) (d : Caller κ .drain) :
    (loopHead processed retries d).work priority pending ≤ 25 + nextBatch processed 0 + d.work := by
  unfold loopHead
  split_ifs with h
  · exact le_rfl
  · have hne : processed ≠ 0 := fun hzero => h (hzero ▸ by decide)
    simp [Thread.work, nextBatch, hne]

end Work

section Quiet
variable {T κ : Type} [DecidableEq T] [Fintype T] {s s' : State T κ} {t : T}

/-- A command in a mailbox costs the rest of a round and another batch. -/
def State.work (s : State T κ) : Nat :=
  100 * (s.left .normal + s.left .priority) + 30 * s.tasks +
    total (Thread.work (s.left .priority) s.pendingCount) s.threads + s.closer.work

theorem State.work_lt_of_update {x : Thread κ} (hthreads : s'.threads = Function.update s.threads t x)
    (hleft : s'.left .priority ≤ s.left .priority) (hpending : s'.pendingCount ≤ s.pendingCount)
    (hcloser : s'.closer = s.closer)
    (hlt : 100 * (s'.left .normal + s'.left .priority) + 30 * s'.tasks + x.work (s'.left .priority) s'.pendingCount <
      100 * (s.left .normal + s.left .priority) + 30 * s.tasks +
        (s.threads t).work (s.left .priority) s.pendingCount) : s'.work < s.work := by
  have htotal := total_update_le (Thread.work_le hleft hpending) s.threads t x
  unfold State.work
  rw [hthreads, hcloser]
  omega

omit [DecidableEq T] [Fintype T] in
theorem owed_le_held {x : Thread κ} (h : ¬x.Pushing) : x.account.owed ≤ x.account.held := by
  rcases x with _ | _ | ⟨_ | _⟩ | ⟨_ | _ | _ | _ | _ | _⟩
  case submit => exact absurd trivial h
  all_goals simp [Caller.account, drainAccount]

omit [DecidableEq T] [Fintype T] in
theorem producing_of_not_pushing {x : Thread κ} (h : ¬x.Pushing) (k : Kind) : x.account.producing k = none := by
  rcases x with _ | _ | ⟨_ | _⟩ | ⟨_ | _ | _ | _ | _ | _⟩
  case submit => exact absurd trivial h
  all_goals rfl

/-- With no submission under way, a look into a mailbox that finds nothing has found it empty. -/
theorem left_of_pop (h : (system T κ).Reachable s) (hpush : ∀ t, ¬(s.threads t).Pushing) {k : Kind}
    {c : Pop (Submission κ)} {processed retries : Nat} {d : Caller κ .drain}
    (ht : s.threads t = .drain (.pop k c) processed retries d) (hnone : ((s.rings k).pop c).2 = .returned none) :
    s.left k = 0 := by
  have hi := inv_of_reachable h
  obtain ⟨consumer, hconsumes, hr⟩ := hi.rings k
  obtain rfl : some c = consumer := by
    have hagree := hconsumes.agree t
    rw [ht] at hagree
    simpa [drainAccount] using hagree
  have hproducing : (fun t => (s.threads t).account.producing k) = fun _ => none :=
    funext fun u => producing_of_not_pushing (hpush u) k
  rw [hproducing] at hr
  cases c with
  | loadSequence n =>
    obtain rfl : n = (s.rings k).box.dequeuePosition := hr.pop _ rfl
    by_contra hleft
    have hlt : (s.rings k).box.dequeuePosition < (s.rings k).box.enqueuePosition := by
      unfold State.left at hleft
      rw [hr.popped_eq, List.length_map, List.length_take, hr.length_reserved] at hleft
      omega
    obtain ⟨p, v, hreserved⟩ := hr.reserved_of_lt hlt
    cases hr.live (s.rings k).box.dequeuePosition p v le_rfl hreserved with
    | reserved _ hp | constructed _ hp => cases hp
    | taken _ hc => cases hc
    | published hslot =>
      revert hnone
      simp [Ring.pop, Pop.step, hslot]
  | advance n x =>
    obtain ⟨v, rfl, -⟩ := hi.rings.advance ht
    cases hnone
  | returned x =>
    have hok := hi.ok t
    rw [ht] at hok
    exact absurd rfl (hok x)
  | loadPosition | moveOut | release => cases hnone

/-- The pending count of empty mailboxes, as the only batch sees it. -/
theorem pendingCount_of_left (h : (system T κ).Reachable s) (hpush : ∀ t, ¬(s.threads t).Pushing)
    (hbatch : (s.threads t).account.owed < (s.threads t).account.held) (hnormal : s.left .normal = 0)
    (hpriority : s.left .priority = 0) : s.pendingCount = 0 := by
  have hi := inv_of_reachable h
  have hpending := hi.pending
  have howed : total (fun x => x.account.owed) s.threads = 0 := by
    have hlt : total (fun x => x.account.owed) s.threads < total (fun x => x.account.held) s.threads :=
      Finset.sum_lt_sum (fun u _ => owed_le_held (hpush u)) ⟨t, Finset.mem_univ t, hbatch⟩
    have := hi.flag.total_le
    omega
  unfold State.left at hnormal hpriority
  unfold PendingInv State.poppedCount State.reservedCount at hpending
  omega

omit [DecidableEq T] [Fintype T] in
theorem left_setRing (s : State T κ) (k k' : Kind) (r : Ring T (Submission κ) k.capacity) :
    (s.setRing k r).left k' =
      if k' = k then r.reserved.length - r.popped.length else s.left k' := by
  by_cases hk : k' = k
  · subst hk
    simp [State.left, State.setRing]
  · simp [State.left, State.setRing, hk]

omit [DecidableEq T] [Fintype T] in
theorem popWork_pop {k : Kind} {r : Ring T (Submission κ) k.capacity} {c : Pop (Submission κ)}
    (hc : ∀ x, c ≠ .returned x) : popWork (r.pop c).2 < popWork c := by
  cases c with
  | loadSequence n =>
    simp only [Ring.pop, Pop.step]
    split_ifs <;> exact Nat.le_of_ble_eq_true rfl
  | returned x => exact absurd rfl (hc x)
  | _ => exact Nat.le_of_ble_eq_true rfl

/-- What a step of `TryPop` does to the work: it goes on, finds the mailbox empty, or gets a command out. -/
theorem Step.work_lt_of_pop (h : (system T κ).Reachable s) (hpush : ∀ t, ¬(s.threads t).Pushing) {k : Kind}
    {c : Pop (Submission κ)} {processed retries : Nat} {d : Caller κ .drain}
    (ht : s.threads t = .drain (.pop k c) processed retries d) :
    ((s.setRing k ((s.rings k).pop c).1).goto t
      (afterPop k processed retries d ((s.rings k).pop c).2)).work < s.work := by
  have hi := inv_of_reachable h
  have hne := hi.ok t
  rw [ht] at hne
  have hleft : ∀ k', ((s.setRing k ((s.rings k).pop c).1).goto t
      (afterPop k processed retries d ((s.rings k).pop c).2)).left k' =
        if k' = k then (s.rings k).reserved.length - ((s.rings k).pop c).1.popped.length else s.left k' := by
    intro k'
    rw [← Ring.pop_reserved (s.rings k) c]
    exact left_setRing s k k' _
  rcases (s.rings k).pop_cases hne with ⟨hpopped, hsome⟩ | ⟨n, x, rfl, hpopped, hresult⟩
  · have hsame : ∀ k', ((s.setRing k ((s.rings k).pop c).1).goto t
        (afterPop k processed retries d ((s.rings k).pop c).2)).left k' = s.left k' := by
      intro k'
      rw [hleft, hpopped]
      split_ifs with hk
      · rw [hk, State.left]
      · rfl
    refine State.work_lt_of_update rfl (hsame .priority).le le_rfl rfl ?_
    rw [hsame, hsame]
    refine Nat.add_lt_add_left ?_ _
    show (afterPop k processed retries d ((s.rings k).pop c).2).1.work (s.left .priority) s.pendingCount < _
    have hlt := popWork_pop (r := s.rings k) hne
    have hempty := left_of_pop h hpush ht
    rw [ht]
    generalize ((s.rings k).pop c).2 = c' at hsome hlt hempty ⊢
    cases c' with
    | returned y =>
      cases y with
      | some y => exact absurd rfl (hsome y)
      | none =>
        replace hempty := hempty rfl
        cases k with
        | priority =>
          have hround : nextBatch 0 (s.left .priority) = 0 := by rw [hempty]; rfl
          show 10 + 5 + nextBatch processed 0 + nextBatch 0 (s.left .priority) + d.work < _
          rw [Thread.work_popPriority]
          omega
        | normal =>
          have hround : nextBatch 0 s.pendingCount ≤ nextBatch 0 (s.left .priority) := by
            by_cases hpriority : s.left .priority = 0
            · have howed : (s.threads t).account.owed < (s.threads t).account.held := by
                rw [ht]
                exact Nat.lt_succ_self _
              rw [pendingCount_of_left h hpush howed hempty hpriority]
              exact Nat.zero_le _
            · exact (nextBatch_le_forty _ _).trans (if_neg fun h => hpriority h.2).ge
          show 9 + nextBatch processed 0 + nextBatch 0 s.pendingCount + d.work < _
          rw [Thread.work_popNormal]
          omega
    | _ => cases k <;> simp only [afterPop, Thread.work_popPriority, Thread.work_popNormal] <;> omega
  · obtain ⟨v, rfl, hhead⟩ := hi.rings.advance ht
    have hlt : (s.rings k).popped.length < (s.rings k).reserved.length := by
      simpa using (List.getElem?_eq_some_iff.1 hhead).1
    rw [hpopped, List.length_append, List.length_singleton] at hleft
    have hfewer : s.left k = (s.rings k).reserved.length - ((s.rings k).popped.length + 1) + 1 := by
      unfold State.left
      omega
    refine State.work_lt_of_update rfl ?_ le_rfl rfl ?_
    · rw [hleft]
      split_ifs with hk
      · rw [hk, hfewer]
        exact Nat.le_succ _
      · exact le_rfl
    · rw [hleft, hleft, hresult, ht]
      simp only [State.goto, State.setRing, afterPop, Thread.work_handling]
      cases k with
      | normal =>
        rw [if_pos rfl, if_neg (by decide), Thread.work_popNormal]
        omega
      | priority =>
        rw [if_neg (by decide), if_pos rfl, Thread.work_popPriority]
        omega

/-- With no submission under way, every step leaves less to do. -/
theorem Step.work_lt (h : (system T κ).Reachable s) (hs : Step s s') (hcalls : s'.calls = s.calls)
    (hpush : ∀ t, ¬(s.threads t).Pushing) : s'.work < s.work := by
  have pushing : ∀ {t : T} {place : SubmitPlace κ} {x : Submission κ} {c : Caller κ .submit},
      s.threads t ≠ .submit place x c := by
    intro t place x c ht
    exact hpush t (by rw [ht]; trivial)
  have moves : ∀ {s' : State T κ} {t : T} {x y : Thread κ}, s.threads t = y →
      s'.threads = Function.update s.threads t x → s'.rings = s.rings →
      s'.pendingCount ≤ s.pendingCount → s'.closer = s.closer →
      30 * s'.tasks + x.work (s.left .priority) s'.pendingCount <
        30 * s.tasks + y.work (s.left .priority) s.pendingCount → s'.work < s.work := by
    rintro s' t x _ rfl hthreads hrings hpending hcloser hlt
    have hleft : ∀ k, s'.left k = s.left k := fun k => by rw [State.left, hrings]; rfl
    refine State.work_lt_of_update hthreads (hleft .priority).le hpending hcloser ?_
    rw [hleft, hleft]
    omega
  cases hs with
  | call | handlerCall => exact absurd hcalls (Nat.succ_ne_self _)
  | announce t x c ht | admission t x c ht | push t _ _ x c ht | reject t _ x c ht => exact absurd ht pushing
  | exchange t c ht =>
    refine moves ht rfl rfl le_rfl rfl ?_
    by_cases hflag : s.drainScheduled
    · simp [hflag, State.goto]
    · simp [hflag, State.goto]
  | post t c ht =>
    refine moves ht rfl rfl le_rfl rfl ?_
    simp only [State.goto, work_returnSchedule, Thread.work_post]
    omega
  | postRefused t c ht =>
    refine moves ht rfl rfl le_rfl rfl ?_
    have hhead : _ ≤ 25 + 0 + c.work := work_loopHead (s.left .priority) s.pendingCount 0 0 (.inline c)
    simp only [State.goto, Thread.work_post]
    omega
  | startTask t ht htasks =>
    refine moves ht rfl rfl le_rfl rfl ?_
    have hhead : _ ≤ 25 + 0 + 0 := work_loopHead (s.left .priority) s.pendingCount 0 0 (.task : Caller κ .drain)
    simp only [State.goto, Thread.work_idle]
    omega
  | pop t k c processed retries d ht => exact work_lt_of_pop h hpush ht
  | checkPending t processed retries d ht =>
    refine moves ht rfl rfl le_rfl rfl ?_
    have hhead := work_loopHead (s.left .priority) s.pendingCount processed (retries + 1) d
    simp only [State.goto, Thread.work_checkPending]
    by_cases hzero : s.pendingCount = 0
    · rw [hzero, afterCheck, if_pos rfl, Thread.work_clear]
      omega
    · have hround : nextBatch 0 s.pendingCount = 40 := if_neg fun h => hzero h.2
      have hbatch : nextBatch processed s.pendingCount = 40 := if_neg fun h => hzero h.2
      rw [afterCheck, if_neg hzero, hround]
      split_ifs
      · rw [Thread.work_clear, hbatch]
        omega
      · omega
  | finish t x processed retries d ht =>
    refine moves ht rfl rfl le_rfl rfl ?_
    simp [State.goto]
  | release t processed retries d ht =>
    refine moves ht rfl rfl (Nat.sub_le _ _) rfl ?_
    have hhead : _ ≤ 25 + 40 + d.work :=
      work_loopHead (s.left .priority) (s.pendingCount - 1) (processed + 1) retries d
    simp only [State.goto, Thread.work_release]
    omega
  | clear t processed retries d ht =>
    refine moves ht rfl rfl le_rfl rfl ?_
    simp [State.goto]
  | recheck t processed retries d ht =>
    refine moves ht rfl rfl le_rfl rfl ?_
    have hmore : (if decide (0 < s.pendingCount) then 40 else 0) ≤ nextBatch processed s.pendingCount := by
      unfold nextBatch
      split_ifs <;> simp_all
    rw [work_returnDrain, Thread.work_recheck]
    simp only [State.goto]
    omega
  | closeAdmission hc | waitPending hc _ | waitDrain hc _ =>
    simp [State.work, State.left, hc, Closer.work]

/-! ### Fair runs -/

/-- No thread stays where it is for ever, also not in the handler; the drain task, of which there is one at a time, gets
a worker; and `WaitIdle` wakes up when what it waits for stays. That the source wakes it with `notify_all` is assumed
here, not modelled. -/
structure Fair (run : (system T κ).Execution) : Prop where
  thread : ∀ n t, (run.state n).threads t ≠ .idle →
    ∃ m, n ≤ m ∧ (run.state m).threads t ≠ (run.state n).threads t
  task : ∀ n, (run.state n).tasks ≠ 0 → ∃ m, n ≤ m ∧ (run.state m).tasks = 0
  waitPending : ∀ n, (run.state n).closer = .waitPending → (∀ m, n ≤ m → (run.state m).pendingCount = 0) →
    ∃ m, n ≤ m ∧ (run.state m).closer ≠ .waitPending
  waitDrain : ∀ n, (run.state n).closer = .waitDrain → (∀ m, n ≤ m → (run.state m).drainScheduled = false) →
    ∃ m, n ≤ m ∧ (run.state m).closer ≠ .waitDrain

/-- From `n` on nobody submits, and `compare_exchange_weak` fails only where it has to. -/
def QuietFrom (run : (system T κ).Execution) (n : Nat) : Prop :=
  ∀ m, n ≤ m → (run.state (m + 1)).calls = (run.state m).calls ∧
    ¬SpuriousFailure (run.state m) (run.state (m + 1))

variable {run : (system T κ).Execution} {n : Nat}

omit [Fintype T] in
theorem QuietFrom.not_pushing (hquiet : QuietFrom run n) {m m' : Nat} (hn : n ≤ m) (hle : m ≤ m')
    (ht : ¬((run.state m).threads t).Pushing) : ¬((run.state m').threads t).Pushing := by
  induction hle with
  | refl => exact ht
  | @step k hle ih =>
    rcases run.next k with heq | hs
    · rwa [heq]
    · exact Step.not_pushing hs (hquiet k (hn.trans hle)).1 ih

theorem Fair.exists_not_pushing (hfair : Fair run) (hquiet : QuietFrom run n) (t : T) :
    ∃ m, n ≤ m ∧ ¬((run.state m).threads t).Pushing := by
  have hnext : ∀ m, n ≤ m → (run.state (m + 1)).pushWork t ≤ (run.state m).pushWork t := by
    intro m hm
    rcases run.next m with heq | hs
    · rw [heq]
    · exact (Step.pushWork_le (run.reachable m) hs (hquiet m hm).1 (hquiet m hm).2 t).1
  refine run.exists_leaves (fun s => (s.threads t).Pushing) (·.pushWork t) fun m hm ht => ?_
  have hbusy : (run.state m).threads t ≠ .idle := fun hidle => by rw [hidle] at ht; exact ht
  obtain ⟨k, hk, hsame, hs, hmoves⟩ := run.exists_step_of_leaves
    (I := fun s => s.threads t = (run.state m).threads t) rfl (hfair.thread m t hbusy)
  have hnk : n ≤ k := hm.trans hk
  have hlt := (Step.pushWork_le (run.reachable k) hs (hquiet k hnk).1 (hquiet k hnk).2 t).2 (hsame ▸ ht)
    (hsame ▸ hmoves)
  exact ⟨k + 1, Nat.le_succ_of_le hk, .inr (hlt.trans_le (run.le_of_next (fun s => s.pushWork t) hnext hm hk))⟩

theorem Fair.exists_none_pushing (hfair : Fair run) (hquiet : QuietFrom run n) :
    ∃ m, n ≤ m ∧ ∀ m', m ≤ m' → ∀ t, ¬((run.state m').threads t).Pushing := by
  choose last hlast hnot using hfair.exists_not_pushing hquiet
  refine ⟨max n (Finset.univ.sup last), le_max_left _ _, fun m' hm' t => ?_⟩
  have hle : last t ≤ Finset.univ.sup last := Finset.le_sup (Finset.mem_univ t)
  exact hquiet.not_pushing (hlast t) (hle.trans ((le_max_right _ _).trans hm')) (hnot t)

theorem Fair.exists_rest (hfair : Fair run) (hquiet : QuietFrom run n) :
    ∃ m, n ≤ m ∧ (∀ m', m ≤ m' → run.state m' = run.state m) ∧ (∀ t, (run.state m).threads t = .idle) ∧
      (run.state m).tasks = 0 := by
  obtain ⟨n', hn', hpush⟩ := hfair.exists_none_pushing hquiet
  obtain ⟨m, hm, hstable⟩ := run.exists_stable (n := n') State.work fun m hm => by
    refine (run.next m).imp_right fun hs => ?_
    exact Step.work_lt (run.reachable m) hs (hquiet m (hn'.trans hm)).1 (hpush m hm)
  refine ⟨m, hn'.trans hm, hstable, fun t => ?_, ?_⟩
  · by_contra hbusy
    obtain ⟨k, hk, hmoves⟩ := hfair.thread m t hbusy
    exact hmoves (by rw [hstable k hk])
  · by_contra hne
    obtain ⟨k, hk, hzero⟩ := hfair.task m hne
    exact hne (by rw [← hzero, hstable k hk])

omit [DecidableEq T] in
theorem Inv.pendingCount_of_idle (hi : Inv s) (hidle : ∀ t, s.threads t = .idle) (hempty : ¬s.Unpopped) :
    s.pendingCount = 0 := by
  have hcount := hi.pending
  have howed : total (fun x => x.account.owed) s.threads = 0 :=
    total_const_zero (w := fun x : Thread κ => x.account.owed) fun t => by rw [hidle t]; rfl
  have hnormal := Nat.le_of_not_lt fun hlt => hempty ⟨.normal, hlt⟩
  have hpriority := Nat.le_of_not_lt fun hlt => hempty ⟨.priority, hlt⟩
  rw [PendingInv, howed, State.poppedCount, State.reservedCount] at hcount
  omega

omit [DecidableEq T] in
theorem Inv.drainScheduled_of_idle (hi : Inv s) (hidle : ∀ t, s.threads t = .idle) (htasks : s.tasks = 0) :
    s.drainScheduled = false := by
  have hflag := hi.flag
  have hheld : total (fun x => x.account.held) s.threads = 0 :=
    total_const_zero (w := fun x : Thread κ => x.account.held) fun t => by rw [hidle t]; rfl
  by_contra hset
  rw [FlagInv, hheld, htasks, if_pos (by simpa using hset)] at hflag
  cases hflag

/-- In a fair run in which the submissions end, the scheduler comes to rest: the threads are done, every accepted
command has been handled, and `WaitIdle` has returned if it was called. -/
theorem comesToRest_of_fair (hfair : Fair run) (hquiet : QuietFrom run n) :
    ∃ m, n ≤ m ∧ ∀ m', m ≤ m' → (∀ t, (run.state m').threads t = .idle) ∧ (run.state m').tasks = 0 ∧
      (run.state m').closer ≠ .waitPending ∧ (run.state m').closer ≠ .waitDrain ∧
      ∀ x, .returned x .accepted ∈ (run.state m').trace → .finished x ∈ (run.state m').trace := by
  obtain ⟨m, hm, hstable, hidle, htasks⟩ := hfair.exists_rest hquiet
  have hr := run.reachable m
  have hi := inv_of_reachable hr
  have hempty := not_unpopped_of_idle hr hidle htasks
  refine ⟨m, hm, fun m' hm' => ?_⟩
  rw [hstable m' hm']
  refine ⟨hidle, htasks, fun hwait => ?_, fun hwait => ?_, fun x hx => ?_⟩
  · obtain ⟨k, hk, hleaves⟩ := hfair.waitPending m hwait fun k hk => by
      rw [hstable k hk, hi.pendingCount_of_idle hidle hempty]
    exact hleaves (by rw [hstable k hk, hwait])
  · obtain ⟨k, hk, hleaves⟩ := hfair.waitDrain m hwait fun k hk => by
      rw [hstable k hk, hi.drainScheduled_of_idle hidle htasks]
    exact hleaves (by rw [hstable k hk, hwait])
  · have hh := history_of_reachable hr
    exact hh.finished_of_pushed hi hempty (fun t => by rw [hidle t]; rfl)
      ((mem_pushedOf _).1 (hh.pushed_of_accepted hx))

omit [Fintype T] in
/-- A run that ends with all threads done. -/
theorem fair_of_end {s : State T κ} (hend : ∀ m, n ≤ m → run.state m = s) (hidle : ∀ t, s.threads t = .idle)
    (htasks : s.tasks = 0) (hpending : s.closer ≠ .waitPending) (hdrain : s.closer ≠ .waitDrain) :
    Fair run ∧ QuietFrom run n := by
  have later : ∀ k, run.state (n + k) = s := fun k => hend _ (Nat.le_add_right n k)
  constructor
  · constructor
    · intro k t hbusy
      refine ⟨n + k, Nat.le_add_left k n, fun heq => hbusy ?_⟩
      rw [← heq, later, hidle]
    · exact fun k _ => ⟨n + k, Nat.le_add_left k n, by rw [later, htasks]⟩
    · exact fun k _ _ => ⟨n + k, Nat.le_add_left k n, by rwa [later]⟩
    · exact fun k _ _ => ⟨n + k, Nat.le_add_left k n, by rwa [later]⟩
  · rintro m hm
    rw [hend m hm, hend (m + 1) (Nat.le_succ_of_le hm)]
    refine ⟨rfl, ?_⟩
    rintro ⟨t, x, c, v, ht, -⟩
    rw [hidle t] at ht
    cases ht

end Quiet

/-- Thread `true` submits a command and returns, and the worker `false` handles it. -/
theorem comesToRest_one_command : ∃ (run : (system Bool Nat).Execution) (m : Nat),
    .returned ⟨0, .normal, 7⟩ .accepted ∈ (run.state m).trace ∧
      .finished ⟨0, .normal, 7⟩ ∈ (run.state m).trace := by
  have h : (system Bool Nat).Reachable _ := .init rfl
  replace h := h.step (.call true .normal 7 rfl)
  replace h := h.step (.announce true _ _ rfl)
  replace h := h.step (.admission true _ _ rfl)
  replace h := h.step (.push true false _ _ _ rfl)
  replace h := h.step (.push true false _ _ _ rfl)
  replace h := h.step (.push true false _ _ _ rfl)
  replace h := h.step (.push true false _ _ _ rfl)
  replace h := h.step (.push true false _ _ _ rfl)
  replace h := h.step (.exchange true _ rfl)
  replace h := h.step (.post true _ rfl)
  replace h := h.step (.startTask false rfl (by decide))
  replace h := h.step (.pop false _ _ _ _ _ rfl)
  replace h := h.step (.pop false _ _ _ _ _ rfl)
  replace h := h.step (.pop false _ _ _ _ _ rfl)
  replace h := h.step (.pop false _ _ _ _ _ rfl)
  replace h := h.step (.pop false _ _ _ _ _ rfl)
  replace h := h.step (.pop false _ _ _ _ _ rfl)
  replace h := h.step (.pop false _ _ _ _ _ rfl)
  replace h := h.step (.finish false _ _ _ _ rfl)
  replace h := h.step (.release false _ _ _ rfl)
  replace h := h.step (.pop false _ _ _ _ _ rfl)
  replace h := h.step (.pop false _ _ _ _ _ rfl)
  replace h := h.step (.pop false _ _ _ _ _ rfl)
  replace h := h.step (.pop false _ _ _ _ _ rfl)
  replace h := h.step (.checkPending false _ _ _ rfl)
  replace h := h.step (.clear false _ _ _ rfl)
  replace h := h.step (.recheck false _ _ _ rfl)
  obtain ⟨run, n, hend⟩ := h.exists_execution
  obtain ⟨hfair, hquiet⟩ := fair_of_end hend (Bool.rec rfl rfl) rfl Closer.noConfusion Closer.noConfusion
  obtain ⟨m, hm, hrest⟩ := comesToRest_of_fair hfair hquiet
  obtain ⟨-, -, -, -, hhandled⟩ := hrest m le_rfl
  have haccepted : .returned ⟨0, .normal, 7⟩ .accepted ∈ (run.state m).trace := by
    rw [hend m hm]
    decide
  exact ⟨run, m, haccepted, hhandled _ haccepted⟩

end Scheduler
end IdtxCore
