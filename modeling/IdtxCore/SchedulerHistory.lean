import Mathlib.Data.Multiset.Range
import IdtxCore.SchedulerInv

/-!
# One consumer, in order

The history of a run is its trace. Every step appends at most one event, and what it appends is
balanced by what the stepping thread gains or loses (`Move`); so in every reachable state

* every submission number is with exactly one thread, pushed, or rejected (`History.ids`),
* what was pushed into a mailbox and what was started from it are the reserved and the popped
  values of the ring (`History.reserved`, `History.popped`),
* a pushed submission waits on a thread or was accepted, a started command is in a handler or
  finished (`History.waiting`, `History.handling`).

FIFO order follows from one more invariant, `History.order`: a submission called after another one
was accepted is pushed behind it.
-/

namespace IdtxCore
namespace Scheduler

open Tally

/-! ### Reading the trace -/

section Trace
variable {κ : Type}

def calledOf (l : List (Event κ)) : List (Submission κ) :=
  l.filterMap fun | .called x => some x | _ => none

def pushedOf (l : List (Event κ)) : List (Submission κ) :=
  l.filterMap fun | .pushed x => some x | _ => none

def acceptedOf (l : List (Event κ)) : List (Submission κ) :=
  l.filterMap fun | .returned x .accepted => some x | _ => none

def rejectedOf (l : List (Event κ)) : List (Submission κ) :=
  l.filterMap fun | .returned x .queueFull => some x | .returned x .stopping => some x | _ => none

def startedOf (l : List (Event κ)) : List (Submission κ) :=
  l.filterMap fun | .started x => some x | _ => none

def finishedOf (l : List (Event κ)) : List (Submission κ) :=
  l.filterMap fun | .finished x => some x | _ => none

def idsOf (l : List (Submission κ)) : Multiset Nat := (l.map Submission.id : List Nat)

variable (l l' : List (Event κ))

@[simp] theorem calledOf_append : calledOf (l ++ l') = calledOf l ++ calledOf l' := List.filterMap_append
@[simp] theorem pushedOf_append : pushedOf (l ++ l') = pushedOf l ++ pushedOf l' := List.filterMap_append
@[simp] theorem acceptedOf_append : acceptedOf (l ++ l') = acceptedOf l ++ acceptedOf l' :=
  List.filterMap_append
@[simp] theorem rejectedOf_append : rejectedOf (l ++ l') = rejectedOf l ++ rejectedOf l' :=
  List.filterMap_append
@[simp] theorem startedOf_append : startedOf (l ++ l') = startedOf l ++ startedOf l' := List.filterMap_append
@[simp] theorem finishedOf_append : finishedOf (l ++ l') = finishedOf l ++ finishedOf l' :=
  List.filterMap_append
@[simp] theorem idsOf_nil : idsOf ([] : List (Submission κ)) = 0 := rfl
@[simp] theorem idsOf_append (l l' : List (Submission κ)) : idsOf (l ++ l') = idsOf l + idsOf l' := by
  simp [idsOf]

theorem mem_acceptedOf {x : Submission κ} : x ∈ acceptedOf l ↔ .returned x .accepted ∈ l := by
  simp only [acceptedOf, List.mem_filterMap]
  constructor
  · rintro ⟨e, he, hx⟩
    split at hx
    · obtain rfl := Option.some.inj hx; exact he
    · cases hx
  · exact fun h => ⟨_, h, rfl⟩

theorem mem_pushedOf {x : Submission κ} : x ∈ pushedOf l ↔ .pushed x ∈ l := by
  simp only [pushedOf, List.mem_filterMap]
  constructor
  · rintro ⟨e, he, hx⟩
    split at hx
    · obtain rfl := Option.some.inj hx; exact he
    · cases hx
  · exact fun h => ⟨_, h, rfl⟩

theorem mem_startedOf {x : Submission κ} : x ∈ startedOf l ↔ .started x ∈ l := by
  simp only [startedOf, List.mem_filterMap]
  constructor
  · rintro ⟨e, he, hx⟩
    split at hx
    · obtain rfl := Option.some.inj hx; exact he
    · cases hx
  · exact fun h => ⟨_, h, rfl⟩

theorem map_startedOf_sublist (l : List (Event κ)) : List.Sublist ((startedOf l).map Event.started) l := by
  induction l with
  | nil => exact List.Sublist.refl _
  | cons e l ih =>
    cases e with
    | started x => exact ih.cons_cons _
    | _ => exact ih.cons _

theorem mem_finishedOf {x : Submission κ} : x ∈ finishedOf l ↔ .finished x ∈ l := by
  simp only [finishedOf, List.mem_filterMap]
  constructor
  · rintro ⟨e, he, hx⟩
    split at hx
    · obtain rfl := Option.some.inj hx; exact he
    · cases hx
  · exact fun h => ⟨_, h, rfl⟩

theorem mem_rejectedOf_of {x : Submission κ} {status : CommandAdmissionStatus}
    (h : .returned x status ∈ l) (hst : status ≠ .accepted) : x ∈ rejectedOf l := by
  cases status with
  | accepted => exact absurd rfl hst
  | queueFull => exact List.mem_filterMap.2 ⟨_, h, rfl⟩
  | stopping => exact List.mem_filterMap.2 ⟨_, h, rfl⟩

end Trace

/-! ### What one step does to the history -/

variable {T κ : Type} [Fintype T] [DecidableEq T] {s s' : State T κ}

/-- The step from `s` to `s'` appends the events `ev`. -/
structure Move (s s' : State T κ) (ev : List (Event κ)) : Prop where
  trace : s'.trace = s.trace ++ ev
  single : ev.length ≤ 1
  calls : s'.calls = s.calls + (calledOf ev).length
  called : calledOf ev = [] ∨ ∃ b, ev = [.called b] ∧ b.id = s.calls
  reserved : ∀ k, (s'.rings k).reserved.map Prod.snd =
    (s.rings k).reserved.map Prod.snd ++ (pushedOf ev).filter (·.kind = k)
  popped : ∀ k, (s'.rings k).popped =
    (s.rings k).popped ++ ((startedOf ev).filter (·.kind = k)).map some
  unpushed : total (fun x => x.account.unpushed) s'.threads + (idsOf (pushedOf ev) + idsOf (rejectedOf ev)) =
    total (fun x => x.account.unpushed) s.threads + idsOf (calledOf ev)
  waiting : total (fun x => (x.account.pushed : Multiset (Submission κ))) s'.threads + acceptedOf ev =
    total (fun x => (x.account.pushed : Multiset (Submission κ))) s.threads + pushedOf ev
  handling : total (fun x => (x.account.handlers : Multiset (Submission κ))) s'.threads + finishedOf ev =
    total (fun x => (x.account.handlers : Multiset (Submission κ))) s.threads + startedOf ev

/-- A step of thread `t`: the totals change by what its account gains and loses. -/
theorem Move.step {t : T} {x : Thread κ} {ev : List (Event κ)}
    (hthreads : s'.threads = Function.update s.threads t x) (htrace : s'.trace = s.trace ++ ev)
    (hsingle : ev.length ≤ 1) (hcalls : s'.calls = s.calls + (calledOf ev).length)
    (hcalled : calledOf ev = [] ∨ ∃ b, ev = [.called b] ∧ b.id = s.calls)
    (hres : ∀ k, (s'.rings k).reserved.map Prod.snd =
      (s.rings k).reserved.map Prod.snd ++ (pushedOf ev).filter (·.kind = k))
    (hpop : ∀ k, (s'.rings k).popped =
      (s.rings k).popped ++ ((startedOf ev).filter (·.kind = k)).map some)
    (hun : x.account.unpushed + (idsOf (pushedOf ev) + idsOf (rejectedOf ev)) =
      (s.threads t).account.unpushed + idsOf (calledOf ev))
    (hw : (x.account.pushed : Multiset (Submission κ)) + acceptedOf ev =
      (s.threads t).account.pushed + pushedOf ev)
    (hh : (x.account.handlers : Multiset (Submission κ)) + finishedOf ev =
      (s.threads t).account.handlers + startedOf ev) : Move s s' ev := by
  refine ⟨htrace, hsingle, hcalls, hcalled, hres, hpop, ?_, ?_, ?_⟩ <;> rw [hthreads]
  · exact total_balance (w := fun x : Thread κ => x.account.unpushed) hun
  · exact total_balance (w := fun x : Thread κ => (x.account.pushed : Multiset (Submission κ))) hw
  · exact total_balance (w := fun x : Thread κ => (x.account.handlers : Multiset (Submission κ))) hh

/-- A step of thread `t` that calls, pushes and starts nothing. -/
theorem Move.goto {t : T} {x : Thread κ} {ev : List (Event κ)}
    (hthreads : s'.threads = Function.update s.threads t x) (htrace : s'.trace = s.trace ++ ev)
    (hsingle : ev.length ≤ 1) (hrings : s'.rings = s.rings) (hcalls : s'.calls = s.calls)
    (hev : calledOf ev = [] ∧ pushedOf ev = [] ∧ startedOf ev = [])
    (hun : x.account.unpushed + idsOf (rejectedOf ev) = (s.threads t).account.unpushed)
    (hw : (x.account.pushed : Multiset (Submission κ)) + acceptedOf ev = (s.threads t).account.pushed)
    (hh : (x.account.handlers : Multiset (Submission κ)) + finishedOf ev =
      (s.threads t).account.handlers) : Move s s' ev := by
  obtain ⟨hc, hp, hst⟩ := hev
  refine .step hthreads htrace hsingle (by simp [hc, hcalls]) (.inl hc) (fun k => by simp [hp, hrings])
    (fun k => by simp [hst, hrings]) ?_ ?_ ?_
  · simpa [hp, hc, idsOf] using hun
  · simpa [hp] using hw
  · simpa [hst] using hh

theorem Move.call {t : T} {x : Thread κ} {b : Submission κ} (hb : b.id = s.calls)
    (hthreads : s'.threads = Function.update s.threads t x)
    (htrace : s'.trace = s.trace ++ [.called b]) (hrings : s'.rings = s.rings)
    (hcalls : s'.calls = s.calls + 1)
    (hun : x.account.unpushed = (s.threads t).account.unpushed + {b.id})
    (hw : x.account.pushed = (s.threads t).account.pushed)
    (hh : x.account.handlers = (s.threads t).account.handlers) : Move s s' [.called b] := by
  refine .step hthreads htrace (Nat.le_refl 1) hcalls (.inr ⟨b, rfl, hb⟩) (fun k => by simp [pushedOf, hrings])
    (fun k => by simp [startedOf, hrings]) ?_ ?_ ?_
  · simpa [pushedOf, rejectedOf, calledOf, idsOf] using hun
  · simp [pushedOf, acceptedOf, hw]
  · simp [startedOf, finishedOf, hh]

omit [Fintype T] [DecidableEq T] in
/-- The events of a submission that returns `Accepted`, if one does. -/
theorem accepted_events (l : List (Submission κ)) :
    let ev : List (Event κ) := l.head?.toList.map (.returned · .accepted)
    (calledOf ev = [] ∧ pushedOf ev = [] ∧ startedOf ev = []) ∧ rejectedOf ev = [] ∧
      finishedOf ev = [] ∧ (l.tail : Multiset (Submission κ)) + acceptedOf ev = l := by
  cases l with
  | nil => simp [calledOf, pushedOf, startedOf, rejectedOf, finishedOf, acceptedOf]
  | cons x l =>
    refine ⟨⟨rfl, rfl, rfl⟩, rfl, rfl, ?_⟩
    show (l : Multiset (Submission κ)) + [x] = (x :: l : List (Submission κ))
    rw [Multiset.coe_add]
    exact Multiset.coe_eq_coe.2 (List.perm_append_singleton x l)

/-- The thread returns from `ScheduleDrainIfRequired`. -/
theorem Move.returnSchedule {t : T} {c : Caller κ .schedule}
    (hthreads : s'.threads = Function.update s.threads t c.returnSchedule.1)
    (htrace : s'.trace = s.trace ++ c.returnSchedule.2) (hrings : s'.rings = s.rings)
    (hcalls : s'.calls = s.calls) (hun : (s.threads t).account.unpushed = 0)
    (hw : (s.threads t).account.pushed = c.pushed)
    (hh : (s.threads t).account.handlers = c.handlers) : ∃ ev, Move s s' ev := by
  obtain ⟨hev, hrej, hfin, hacc⟩ := accepted_events c.pushed
  rw [events_returnSchedule] at htrace
  refine ⟨_, .goto hthreads htrace (by cases c.pushed <;> simp) hrings hcalls hev ?_ ?_ ?_⟩
  · simp [hrej, hun, idsOf, Caller.account]
  · rw [account_returnSchedule, hw]; exact hacc
  · simp [hfin, hh, Caller.account]

omit [Fintype T] [DecidableEq T] in
theorem pushEvents_emplace {cap : Capacity} (r : Ring T (Submission κ) cap) (t : T) (spurious : Bool)
    (x : Submission κ) (e : Emplace (Submission κ)) :
    pushEvents x e (r.emplace t spurious e).2 =
      if e.holds = false ∧ (r.emplace t spurious e).2.holds = true then [.pushed x] else [] := by
  cases e with
  | loadSequence v n =>
    simp only [Ring.emplace, Emplace.step]; split_ifs <;> simp_all [pushEvents, Emplace.holds]
  | compareExchange v n =>
    simp only [Ring.emplace, Emplace.step]; split_ifs <;> simp_all [pushEvents, Emplace.holds]
  | _ => simp [Ring.emplace, Emplace.step, pushEvents, Emplace.holds]

theorem Move.push (hok : ∀ t, (s.threads t).Ok) {t : T} (spurious : Bool)
    {e : Emplace (Submission κ)} {x : Submission κ} {c : Caller κ .submit}
    (ht : s.threads t = .submit (.push e) x c) :
    ∃ ev, Move s ((s.setRing x.kind ((s.rings x.kind).emplace t spurious e).1).goto t
      (afterPush x c ((s.rings x.kind).emplace t spurious e).2,
        pushEvents x e ((s.rings x.kind).emplace t spurious e).2)) ev := by
  have hcar := hok t
  rw [ht] at hcar
  have hpop : ∀ k, ((s.setRing x.kind ((s.rings x.kind).emplace t spurious e).1).rings k).popped =
      (s.rings k).popped := by
    intro k
    by_cases hk : k = x.kind
    · subst hk; simp [State.setRing]
    · simp [State.setRing, hk]
  refine ⟨pushEvents x e ((s.rings x.kind).emplace t spurious e).2, ?_⟩
  rcases (s.rings x.kind).emplace_cases t spurious hcar.1 with ⟨hr, hh⟩ | ⟨hr, hh, hh'⟩
  · have hev : pushEvents x e ((s.rings x.kind).emplace t spurious e).2 = [] := by
      rw [pushEvents_emplace, hh]; simp
    have hres : ∀ k, ((s.setRing x.kind ((s.rings x.kind).emplace t spurious e).1).rings k).reserved =
        (s.rings k).reserved := by
      intro k
      by_cases hk : k = x.kind
      · subst hk; simp [State.setRing, hr]
      · simp [State.setRing, hk]
    rw [hev]
    refine .step (t := t) rfl rfl (by simp) rfl (.inl rfl) (fun k => ?_) (fun k => ?_) ?_ ?_ ?_
    · rw [show pushedOf ([] : List (Event κ)) = [] from rfl, List.filter_nil, List.append_nil]
      exact congrArg (List.map Prod.snd) (hres k)
    · exact (hpop k).trans (List.append_nil _).symm
    all_goals rw [ht]
    · simp [pushAccount, hh, pushedOf, rejectedOf, calledOf]
    · simp [pushAccount, hh, pushedOf, acceptedOf]
    · simp [pushAccount, startedOf, finishedOf]
  · have hev : pushEvents x e ((s.rings x.kind).emplace t spurious e).2 = [.pushed x] := by
      rw [pushEvents_emplace, hh, hh']; simp
    rw [hev]
    refine .step (t := t) rfl rfl (by simp) rfl (.inl rfl) (fun k => ?_) (fun k => ?_) ?_ ?_ ?_
    · show ((s.setRing x.kind _).rings k).reserved.map Prod.snd = _
      by_cases hk : k = x.kind
      · subst hk; simp [State.setRing, hr, pushedOf]
      · have hk' : x.kind ≠ k := fun hxk => hk hxk.symm
        simp [State.setRing, hk, pushedOf, hk']
    · exact (hpop k).trans (List.append_nil _).symm
    all_goals rw [ht]
    · simp [pushAccount, hh, hh', pushedOf, rejectedOf, calledOf, idsOf]
    · simp only [account_afterPush, Thread.account_push, pushAccount, hh, hh', pushedOf, acceptedOf]
      exact Multiset.coe_eq_coe.2 (by simpa using (List.perm_append_singleton x c.pushed).symm)
    · simp [pushAccount, startedOf, finishedOf]

theorem Move.pop (hi : Inv s)
    (hkind : ∀ k, ∀ x ∈ (s.rings k).reserved.map Prod.snd, x.kind = k) {t : T} {k : Kind}
    {c : Pop (Submission κ)} {processed retries : Nat} {d : Caller κ .drain}
    (ht : s.threads t = .drain (.pop k c) processed retries d) :
    ∃ ev, Move s ((s.setRing k ((s.rings k).pop c).1).goto t
      (afterPop k processed retries d ((s.rings k).pop c).2)) ev := by
  have hc := hi.ok t
  rw [ht] at hc
  have hres : ∀ k', ((s.setRing k ((s.rings k).pop c).1).rings k').reserved = (s.rings k').reserved := by
    intro k'
    by_cases hk : k' = k
    · subst hk; simp [State.setRing]
    · simp [State.setRing, hk]
  rcases (s.rings k).pop_cases hc with ⟨hp, hx⟩ | ⟨n, x, rfl, hp, hx⟩
  · obtain ⟨popping, ha, hev⟩ := account_afterPop k processed retries d hx
    have hpop : ∀ k', ((s.setRing k ((s.rings k).pop c).1).rings k').popped = (s.rings k').popped := by
      intro k'
      by_cases hk : k' = k
      · subst hk; simp [State.setRing, hp]
      · simp [State.setRing, hk]
    refine ⟨[], .step (t := t) rfl (congrArg (s.trace ++ ·) hev) (by simp) rfl (.inl rfl) (fun k' => ?_) (fun k' => ?_)
      ?_ ?_ ?_⟩
    · rw [show pushedOf ([] : List (Event κ)) = [] from rfl, List.filter_nil, List.append_nil]
      exact congrArg (List.map Prod.snd) (hres k')
    · exact (hpop k').trans (List.append_nil _).symm
    all_goals rw [ht, ha]
    · simp [drainAccount, pushedOf, rejectedOf, calledOf]
    · simp [drainAccount, pushedOf, acceptedOf]
    · simp [drainAccount, startedOf, finishedOf]
  · obtain ⟨v, rfl, hv⟩ := hi.rings.advance ht
    have hvk : v.kind = k := hkind k v (List.mem_of_getElem? hv)
    have hafter : afterPop k processed retries d ((s.rings k).pop (.advance n (some v))).2 =
        (.drain (.handling v) processed 0 d, [.started v]) := by rw [hx]; rfl
    rw [hafter]
    refine ⟨[.started v], .step (t := t) rfl rfl (by simp) rfl (.inl rfl) (fun k' => ?_) (fun k' => ?_) ?_ ?_ ?_⟩
    · rw [show pushedOf [Event.started v] = [] from rfl, List.filter_nil, List.append_nil]
      exact congrArg (List.map Prod.snd) (hres k')
    · show ((s.setRing k _).rings k').popped = _
      by_cases hk : k' = k
      · subst hk; simp [State.setRing, hp, startedOf, hvk]
      · have hk' : v.kind ≠ k' := fun h => hk (h.symm.trans hvk)
        simp [State.setRing, hk, startedOf, hk']
    all_goals rw [ht]
    · simp [drainAccount, pushedOf, rejectedOf, calledOf, Caller.account]
    · simp [drainAccount, pushedOf, acceptedOf]
    · simp only [Thread.account_handling, Thread.account_pop, drainAccount, Caller.account, startedOf,
        finishedOf]
      exact Multiset.coe_eq_coe.2 (by simpa using (List.perm_append_singleton v d.handlers).symm)

theorem Move.returnDrain {t : T} {more : Bool} {d : Caller κ .drain}
    (hthreads : s'.threads = Function.update s.threads t (d.returnDrain more).1)
    (htrace : s'.trace = s.trace ++ (d.returnDrain more).2) (hrings : s'.rings = s.rings)
    (hcalls : s'.calls = s.calls) (hun : (s.threads t).account.unpushed = 0)
    (hw : (s.threads t).account.pushed = d.pushed)
    (hh : (s.threads t).account.handlers = d.handlers) : ∃ ev, Move s s' ev := by
  rw [events_returnDrain] at htrace
  cases more with
  | true =>
    refine ⟨_, .goto hthreads htrace (Nat.zero_le 1) hrings hcalls ⟨rfl, rfl, rfl⟩ ?_ ?_ ?_⟩
    · simp [rejectedOf, idsOf, hun, Caller.account]
    · simp [acceptedOf, hw]
    · simp [finishedOf, hh, Caller.account]
  | false =>
    obtain ⟨hev, hrej, hfin, hacc⟩ := accepted_events d.pushed
    refine ⟨_, .goto hthreads htrace (by cases d.pushed <;> simp) hrings hcalls hev ?_ ?_ ?_⟩
    · simp [hrej, hun, idsOf, Caller.account]
    · rw [account_returnDrain, hw]; exact hacc
    · simp [hfin, hh, Caller.account]

theorem Step.move (hi : Inv s)
    (hkind : ∀ k, ∀ x ∈ (s.rings k).reserved.map Prod.snd, x.kind = k) (hs : Step s s') :
    ∃ ev, Move s s' ev := by
  -- a step that records nothing keeps the thread's account
  have silent : ∀ {s' : State T κ} {t : T} {x : Thread κ},
      s'.threads = Function.update s.threads t x → s'.trace = s.trace ++ [] → s'.rings = s.rings →
      s'.calls = s.calls → x.account.unpushed = (s.threads t).account.unpushed →
      x.account.pushed = (s.threads t).account.pushed →
      x.account.handlers = (s.threads t).account.handlers → ∃ ev, Move s s' ev := by
    intro s' t x hthreads htrace hrings hcalls hun hw hh
    refine ⟨[], .goto hthreads htrace (Nat.zero_le 1) hrings hcalls ⟨rfl, rfl, rfl⟩ ?_ ?_ ?_⟩
    · simp [hun, rejectedOf, idsOf]
    · simp [hw, acceptedOf]
    · simp [hh, finishedOf]
  cases hs with
  | call t kind command h =>
    refine ⟨_, Move.call (b := ⟨s.calls, kind, command⟩) rfl rfl rfl rfl rfl ?_ ?_ ?_⟩ <;> rw [h] <;>
      simp [Caller.account]
  | handlerCall t kind command running processed retries d h =>
    refine ⟨_, Move.call (b := ⟨s.calls, kind, command⟩) rfl rfl rfl rfl rfl ?_ ?_ ?_⟩ <;> rw [h] <;>
      simp [Caller.account, drainAccount, Caller.handlers, Caller.pushed]
  | announce t x c h => exact silent rfl rfl rfl rfl (by rw [h]; rfl) (by rw [h]; rfl) (by rw [h]; rfl)
  | admission t x c h =>
    refine silent rfl rfl rfl rfl ?_ ?_ ?_ <;> rw [h] <;> dsimp only <;> split_ifs <;> rfl
  | push t spurious e x c h => exact Move.push hi.ok spurious h
  | reject t status x c h =>
    have hst := hi.ok t
    rw [h] at hst
    refine ⟨_, .goto (t := t) rfl rfl (Nat.le_refl 1) rfl rfl ⟨rfl, rfl, rfl⟩ ?_ ?_ ?_⟩ <;> rw [h]
    · cases status <;> simp_all [Thread.Ok, rejectedOf, idsOf, Caller.account]
    · cases status <;> simp_all [Thread.Ok, acceptedOf]
    · simp [finishedOf]
  | exchange t c h =>
    by_cases hflag : s.drainScheduled
    · exact Move.returnSchedule (t := t) (c := c) (by simp [State.goto, hflag]) (by simp [State.goto, hflag])
        rfl rfl (by rw [h]; rfl) (by rw [h]; rfl) (by rw [h]; rfl)
    · exact silent (t := t) (x := .schedule .post c) (by simp [State.goto, hflag])
        (by simp [State.goto, hflag]) rfl rfl (by rw [h]; rfl) (by rw [h]; rfl) (by rw [h]; rfl)
  | post t c h =>
    exact Move.returnSchedule (t := t) (c := c) rfl rfl rfl rfl (by rw [h]; rfl) (by rw [h]; rfl)
      (by rw [h]; rfl)
  | postRefused t c h =>
    refine silent rfl rfl rfl rfl ?_ ?_ ?_ <;> rw [h] <;>
      simp [drainAccount, Caller.account, Caller.handlers, Caller.pushed]
  | startTask t h htasks =>
    refine silent rfl rfl rfl rfl ?_ ?_ ?_ <;> rw [h] <;>
      simp [drainAccount, Caller.account, Caller.handlers, Caller.pushed]
  | pop t k c processed retries d h => exact Move.pop hi hkind h
  | checkPending t processed retries d h =>
    refine silent rfl rfl rfl rfl ?_ ?_ ?_ <;> rw [h] <;> simp [drainAccount]
  | finish t x processed retries d h =>
    refine ⟨_, .goto (t := t) rfl rfl (Nat.le_refl 1) rfl rfl ⟨rfl, rfl, rfl⟩ ?_ ?_ ?_⟩ <;> rw [h]
    · simp [rejectedOf, idsOf, drainAccount]
    · simp [acceptedOf, drainAccount]
    · simp only [Thread.account_release, Thread.account_handling, drainAccount, Caller.account]
      exact Multiset.coe_eq_coe.2 (List.perm_append_singleton x d.handlers)
  | release t processed retries d h =>
    refine silent rfl rfl rfl rfl ?_ ?_ ?_ <;> rw [h] <;> simp [drainAccount]
  | clear t processed retries d h =>
    exact silent rfl rfl rfl rfl (by rw [h]; rfl) (by rw [h]; rfl) (by rw [h]; rfl)
  | recheck t processed retries d h =>
    exact Move.returnDrain (t := t) (d := d) rfl rfl rfl rfl (by rw [h]; rfl) (by rw [h]; rfl)
      (by rw [h]; rfl)
  | closeAdmission | waitPending | waitDrain =>
    exact ⟨[], by simp, by simp, rfl, .inl rfl, fun k => by simp [pushedOf], fun k => by simp [startedOf], rfl, rfl, rfl⟩

/-! ### The history of a run -/

structure History (s : State T κ) : Prop where
  /-- Every submission is with a thread, pushed, or rejected, and only once. -/
  ids : total (fun x => x.account.unpushed) s.threads +
    (idsOf (pushedOf s.trace) + idsOf (rejectedOf s.trace)) = Multiset.range s.calls
  called : ∀ x ∈ calledOf s.trace, x.id < s.calls
  reserved : ∀ k, (s.rings k).reserved.map Prod.snd = (pushedOf s.trace).filter (·.kind = k)
  popped : ∀ k, (s.rings k).popped = ((startedOf s.trace).filter (·.kind = k)).map some
  waiting : total (fun x => (x.account.pushed : Multiset (Submission κ))) s.threads + acceptedOf s.trace =
    pushedOf s.trace
  handling : total (fun x => (x.account.handlers : Multiset (Submission κ))) s.threads +
    finishedOf s.trace = startedOf s.trace
  order : ∀ a b, List.Sublist [Event.returned a .accepted, .called b] s.trace →
    b ∈ pushedOf s.trace → List.Sublist [a, b] (pushedOf s.trace)
  /-- The handler is done with a command before it starts with the next one. -/
  serial : ∀ a b, List.Sublist [Event.started a, .started b] s.trace →
    List.Sublist [Event.finished a, .started b] s.trace

namespace History

omit [DecidableEq T] in
theorem id_lt (h : History s) {x : Submission κ} (hx : x ∈ pushedOf s.trace) : x.id < s.calls := by
  rw [← Multiset.mem_range, ← h.ids]
  refine Multiset.mem_add.2 (.inr (Multiset.mem_add.2 (.inl ?_)))
  exact Multiset.mem_coe.2 (List.mem_map_of_mem hx)

omit [DecidableEq T] in
theorem pushed_of_accepted (h : History s) {x : Submission κ} (hx : .returned x .accepted ∈ s.trace) :
    x ∈ pushedOf s.trace := by
  rw [← Multiset.mem_coe, ← h.waiting]
  exact Multiset.mem_add.2 (.inr (Multiset.mem_coe.2 ((mem_acceptedOf _).2 hx)))

omit [DecidableEq T] in
theorem kind_eq (h : History s) {k : Kind} {x : Submission κ}
    (hx : x ∈ (s.rings k).reserved.map Prod.snd) : x.kind = k := by
  rw [h.reserved] at hx
  simpa using (List.mem_filter.1 hx).2

end History

/-- Of two events in order, the later one is new or both were there. -/
theorem pair_sublist_append {α : Type} {a b : α} {l l' : List α}
    (h : List.Sublist [a, b] (l ++ l')) : List.Sublist [a, b] l ∨ b ∈ l' := by
  obtain ⟨l₁, l₂, heq, h₁, h₂⟩ := List.sublist_append_iff.1 h
  rcases List.eq_nil_or_concat l₂ with rfl | ⟨l₃, c, rfl⟩
  · left; rw [heq]; simpa using h₁
  · right
    obtain rfl : b = c := by
      have := congrArg List.getLast? heq
      simpa using this
    exact h₂.subset (by simp)

theorem mem_of_pair_sublist_concat {α : Type} {a b c : α} {l : List α}
    (h : List.Sublist [a, b] (l ++ [c])) : a ∈ l := by
  obtain ⟨l₁, l₂, heq, h₁, h₂⟩ := List.sublist_append_iff.1 h
  have hlen : l₂.length ≤ 1 := h₂.length_le
  match l₁, heq with
  | [], heq => rw [← show [a, b] = l₂ from heq] at hlen; simp at hlen
  | x :: l₁, heq =>
    obtain rfl : a = x := (List.cons.inj heq).1
    exact h₁.subset List.mem_cons_self

omit [DecidableEq T] in
/-- The handlers in progress, all threads together. -/
theorem Inv.handling_le_one (h : Inv s) :
    Multiset.card (total (fun x => (x.account.handlers : Multiset (Submission κ))) s.threads) ≤ 1 := by
  have hcard : Multiset.card (total (fun x => (x.account.handlers : Multiset (Submission κ))) s.threads) =
      ∑ t, (s.threads t).account.handlers.length := by
    simp [total]
  rw [hcard]
  exact Nat.le_trans (Finset.sum_le_sum fun t _ => (s.threads t).handlers_length_le_held) h.flag.total_le

omit [DecidableEq T] in
/-- When the handler starts, it is done with everything it started before. -/
theorem Move.finished_of_started (h : History s) (hi : Inv s') {b : Submission κ}
    (hm : Move s s' [.started b]) {a : Submission κ} (ha : .started a ∈ s.trace) :
    .finished a ∈ s.trace := by
  have hcard := hi.handling_le_one
  have hnone : total (fun x => (x.account.handlers : Multiset (Submission κ))) s.threads = 0 := by
    have := congrArg Multiset.card hm.handling
    simp only [Multiset.card_add, startedOf, finishedOf] at this
    rw [← Multiset.card_eq_zero]
    simp at this
    omega
  have hmem : a ∈ (finishedOf s.trace : Multiset (Submission κ)) := by
    rw [← Multiset.zero_add (finishedOf s.trace : Multiset (Submission κ)), ← hnone, h.handling]
    exact Multiset.mem_coe.2 ((mem_startedOf _).2 ha)
  exact (mem_finishedOf _).1 (Multiset.mem_coe.1 hmem)

omit [DecidableEq T] in
theorem History.move (h : History s) (hi : Inv s') {ev : List (Event κ)} (hm : Move s s' ev) :
    History s' := by
  have hsub : List.Sublist (pushedOf s.trace) (pushedOf s'.trace) := by
    rw [hm.trace, pushedOf_append]; exact List.sublist_append_left _ _
  have hcalls : Multiset.range s.calls + idsOf (calledOf ev) = Multiset.range s'.calls := by
    rw [hm.calls]
    rcases hm.called with hc | ⟨b, rfl, hb⟩
    · simp [hc]
    · simp [calledOf, idsOf, hb, Multiset.range_succ, ← Multiset.singleton_add,
        add_comm (Multiset.range s.calls)]
  refine ⟨?_, ?_, fun k => ?_, fun k => ?_, ?_, ?_, ?_, ?_⟩
  · rw [hm.trace, pushedOf_append, rejectedOf_append, idsOf_append, idsOf_append, ← hcalls, ← h.ids,
      add_add_add_comm]
    exact balance_append hm.unpushed
  · intro x hx
    rw [hm.trace, calledOf_append] at hx
    rw [hm.calls]
    rcases List.mem_append.1 hx with hx | hx
    · exact Nat.lt_of_lt_of_le (h.called x hx) (Nat.le_add_right _ _)
    · rcases hm.called with hc | ⟨b, rfl, hb⟩
      · rw [hc] at hx; cases hx
      · obtain rfl : x = b := by simpa [calledOf] using hx
        simp [calledOf, hb]
  · rw [hm.reserved, h.reserved, hm.trace, pushedOf_append, List.filter_append]
  · rw [hm.popped, h.popped, hm.trace, startedOf_append, List.filter_append, List.map_append]
  · rw [hm.trace, acceptedOf_append, pushedOf_append, ← Multiset.coe_add, ← Multiset.coe_add, ← h.waiting]
    exact balance_append hm.waiting
  · rw [hm.trace, finishedOf_append, startedOf_append, ← Multiset.coe_add, ← Multiset.coe_add,
      ← h.handling]
    exact balance_append hm.handling
  · intro a b hab hb
    rw [hm.trace] at hab
    rcases pair_sublist_append hab with hab | hnew
    · rw [hm.trace, pushedOf_append] at hb
      rcases List.mem_append.1 hb with hb | hb
      · exact (h.order a b hab hb).trans hsub
      · have ha := h.pushed_of_accepted (hab.subset List.mem_cons_self)
        rw [hm.trace, pushedOf_append]
        exact (List.singleton_sublist.2 ha).append (List.singleton_sublist.2 hb)
    · -- `b` is called by this step, so it is not pushed yet
      rcases hm.called with hc | ⟨b', rfl, hb'⟩
      · have : b ∈ calledOf ev := List.mem_filterMap.2 ⟨_, hnew, rfl⟩
        rw [hc] at this; cases this
      · obtain rfl : b = b' := by simpa using hnew
        rw [hm.trace, pushedOf_append] at hb
        have hlt := h.id_lt (x := b) (by simpa [pushedOf] using hb)
        omega
  · intro a b hab
    have hpre : List.Sublist s.trace s'.trace := by rw [hm.trace]; exact List.sublist_append_left _ _
    rw [hm.trace] at hab
    rcases pair_sublist_append hab with hab | hnew
    · exact (h.serial a b hab).trans hpre
    · obtain rfl : ev = [.started b] := by
        have hsingle := hm.single
        match ev, hnew with
        | [e], hnew => rw [List.mem_singleton.1 hnew]
        | _ :: _ :: _, _ => simp at hsingle
      have ha : .started a ∈ s.trace := mem_of_pair_sublist_concat hab
      rw [hm.trace]
      exact (List.singleton_sublist.2 (hm.finished_of_started h hi ha)).append (List.Sublist.refl _)

omit [DecidableEq T] in
theorem history_new : History (State.new : State T κ) := by
  have hun : total (fun x : Thread κ => x.account.unpushed) (fun _ : T => .idle) = 0 :=
    total_const_zero (w := fun x : Thread κ => x.account.unpushed) fun _ => rfl
  have hpu : total (fun x : Thread κ => (x.account.pushed : Multiset (Submission κ))) (fun _ : T => .idle) = 0 :=
    total_const_zero (w := fun x : Thread κ => (x.account.pushed : Multiset (Submission κ))) fun _ => rfl
  have hha : total (fun x : Thread κ => (x.account.handlers : Multiset (Submission κ))) (fun _ : T => .idle) = 0 :=
    total_const_zero (w := fun x : Thread κ => (x.account.handlers : Multiset (Submission κ))) fun _ => rfl
  refine ⟨?_, ?_, fun _ => rfl, fun _ => rfl, ?_, ?_, ?_, ?_⟩
  · show total _ (fun _ : T => Thread.idle) + _ = 0
    rw [hun]; rfl
  · intro x hx; cases hx
  · show total _ (fun _ : T => Thread.idle) + _ = _
    rw [hpu]; rfl
  · show total _ (fun _ : T => Thread.idle) + _ = _
    rw [hha]; rfl
  · intro a b hab; cases hab
  · intro a b hab; cases hab

theorem history_of_reachable (h : (system T κ).Reachable s) : History s := by
  refine Lts.System.invariant ?_ (fun s s' hr hi hs => ?_) h
  · rintro _ rfl; exact history_new
  · obtain ⟨ev, hm⟩ := hs.move (inv_of_reachable hr) fun k x hx => hi.kind_eq hx
    exact hi.move (inv_of_reachable (hr.step hs)) hm

/-! ### The serial consumer -/

namespace History

omit [DecidableEq T] in
theorem nodup_pushed (h : History s) : ((pushedOf s.trace).map Submission.id).Nodup := by
  have hnodup := Multiset.nodup_range s.calls
  rw [← h.ids] at hnodup
  exact (Multiset.nodup_add.1 (Multiset.nodup_add.1 hnodup).2.1).1

omit [DecidableEq T] in
/-- What was started from a mailbox is the front of what was pushed into it. -/
theorem started_eq_take (h : History s) (hi : Inv s) (k : Kind) :
    ∃ n, (startedOf s.trace).filter (·.kind = k) = ((pushedOf s.trace).filter (·.kind = k)).take n := by
  obtain ⟨c, -, hr⟩ := hi.rings k
  refine ⟨(s.rings k).box.dequeuePosition, ?_⟩
  have heq := hr.popped_eq
  rw [h.popped] at heq
  rw [← h.reserved, ← List.map_take]
  refine List.map_injective_iff.2 (Option.some_injective _) (heq.trans ?_)
  rw [List.map_map]; rfl

omit [DecidableEq T] in
theorem pushed_of_started (h : History s) (hi : Inv s) {x : Submission κ}
    (hx : x ∈ startedOf s.trace) : x ∈ pushedOf s.trace := by
  obtain ⟨n, hn⟩ := h.started_eq_take hi x.kind
  have hmem : x ∈ (startedOf s.trace).filter (·.kind = x.kind) := List.mem_filter.2 ⟨hx, by simp⟩
  rw [hn] at hmem
  exact (List.mem_filter.1 (List.mem_of_mem_take hmem)).1

omit [DecidableEq T] in
theorem nodup_started (h : History s) (hi : Inv s) :
    ((startedOf s.trace).map Submission.id).Nodup := by
  classical
  have hinj := List.inj_on_of_nodup_map h.nodup_pushed
  refine List.Nodup.map_on (fun x hx y hy => hinj (h.pushed_of_started hi hx) (h.pushed_of_started hi hy))
    (List.nodup_iff_count_le_one.2 fun x => ?_)
  obtain ⟨n, hn⟩ := h.started_eq_take hi x.kind
  have hnodup := (h.nodup_pushed.of_map _).filter (fun y => y.kind = x.kind)
  rw [← List.count_filter (p := fun y : Submission κ => decide (y.kind = x.kind)) (by simp), hn]
  exact List.nodup_iff_count_le_one.1 (hnodup.sublist (List.take_sublist n _)) x

omit [DecidableEq T] in
theorem started_in_order (h : History s) (hi : Inv s) {a b : Submission κ} (hk : a.kind = b.kind)
    (hab : List.Sublist [Event.returned a .accepted, .called b] s.trace)
    (hb : .started b ∈ s.trace) : List.Sublist [Event.started a, .started b] s.trace := by
  have hb := (mem_startedOf _).2 hb
  obtain ⟨n, hn⟩ := h.started_eq_take hi b.kind
  set values := (pushedOf s.trace).filter (·.kind = b.kind) with hvalues
  have hbtake : b ∈ values.take n := by rw [← hn]; exact List.mem_filter.2 ⟨hb, by simp⟩
  have hnodup : values.Nodup := (h.nodup_pushed.of_map _).filter _
  have hpair : List.Sublist [a, b] values := by
    have := (h.order a b hab (h.pushed_of_started hi hb)).filter (fun y => y.kind = b.kind)
    simpa [hk] using this
  -- `b` is in the popped front of its mailbox and occurs once, so `a` is in the front too
  have hfront : List.Sublist [a, b] (values.take n) := by
    rw [← List.take_append_drop n values] at hpair
    rcases pair_sublist_append hpair with hpair | hdrop
    · exact hpair
    · exact absurd hdrop (List.disjoint_take_drop hnodup (Nat.le_refl n) hbtake)
  rw [← hn] at hfront
  exact ((hfront.trans List.filter_sublist).map Event.started).trans (map_startedOf_sublist s.trace)

end History

/-- What the handler can rely on. -/
structure SerialConsumer (s : State T κ) : Prop where
  /-- No two invocations of the handler overlap. -/
  exclusive : ∀ t t' x x', x ∈ (s.threads t).account.handlers → x' ∈ (s.threads t').account.handlers →
    t = t' ∧ (s.threads t).account.handlers = [x]
  serial : ∀ a b, List.Sublist [Event.started a, .started b] s.trace →
    List.Sublist [Event.finished a, .started b] s.trace
  once : ((startedOf s.trace).map Submission.id).Nodup
  /-- A rejected command is not handled. -/
  rejected : ∀ x status y, .returned x status ∈ s.trace → status ≠ .accepted → .started y ∈ s.trace →
    y.id ≠ x.id
  /-- A command accepted before another one of its mailbox was submitted is handled before it. -/
  order : ∀ a b, a.kind = b.kind → List.Sublist [Event.returned a .accepted, .called b] s.trace →
    .started b ∈ s.trace → List.Sublist [Event.finished a, .started b] s.trace

theorem serialConsumer_of_reachable (h : (system T κ).Reachable s) : SerialConsumer s := by
  have hi := inv_of_reachable h
  have hh := history_of_reachable h
  refine ⟨?_, hh.serial, hh.nodup_started hi, ?_, fun a b hk hab hb =>
    hh.serial a b (hh.started_in_order hi hk hab hb)⟩
  · intro t t' x x' hx hx'
    have hle := fun u => (s.threads u).handlers_length_le_held
    have hpos : 0 < (s.threads t).account.held :=
      Nat.lt_of_lt_of_le (List.length_pos_of_mem hx) (hle t)
    have htt : t = t' := by
      by_contra hne
      have hzero := eq_zero_of_ne (w := fun x : Thread κ => x.account.held) hi.flag.total_le hpos (Ne.symm hne)
      have hpos' := Nat.lt_of_lt_of_le (List.length_pos_of_mem hx') (hle t')
      exact absurd hpos' (Nat.not_lt.2 (Nat.le_of_eq hzero))
    have hone : (s.threads t).account.handlers.length ≤ 1 :=
      Nat.le_trans (hle t) (Nat.le_trans (le_total (fun x : Thread κ => x.account.held) s.threads t)
        hi.flag.total_le)
    refine ⟨htt, ?_⟩
    obtain ⟨y, hy⟩ := List.length_eq_one_iff.1 (Nat.le_antisymm hone (List.length_pos_of_mem hx))
    rw [hy] at hx ⊢
    rw [List.mem_singleton.1 hx]
  · intro x status y hx hst hy heq
    have hnodup := Multiset.nodup_range s.calls
    rw [← hh.ids] at hnodup
    have hdisj := Multiset.disjoint_of_nodup_add (Multiset.nodup_add.1 hnodup).2.1
    have hpushed : y.id ∈ idsOf (pushedOf s.trace) :=
      Multiset.mem_coe.2 (List.mem_map_of_mem (hh.pushed_of_started hi ((mem_startedOf _).2 hy)))
    have hrejected : x.id ∈ idsOf (rejectedOf s.trace) :=
      Multiset.mem_coe.2 (List.mem_map_of_mem (mem_rejectedOf_of _ hx hst))
    exact Multiset.disjoint_left.1 hdisj hpushed (heq ▸ hrejected)

/-- A submission is accepted and its command handled on a worker while a second one is announced. -/
theorem serialConsumer_two_threads :
    ∃ s : State Bool Nat, s.trace = [.called ⟨0, .normal, 7⟩, .pushed ⟨0, .normal, 7⟩,
        .returned ⟨0, .normal, 7⟩ .accepted, .called ⟨1, .normal, 8⟩, .started ⟨0, .normal, 7⟩] ∧
      (s.threads false).account.handlers = [⟨0, .normal, 7⟩] ∧ SerialConsumer s := by
  have h : (system Bool Nat).Reachable _ := .init rfl
  replace h := h.step (.call true .normal 7 rfl)
  replace h := h.step (.announce true _ _ rfl)
  replace h := h.step (.admission true _ _ rfl)
  replace h := h.step (.push true false _ _ _ rfl)
  replace h := h.step (.push true false _ _ _ rfl)
  replace h := h.step (.push true false _ _ _ rfl)
  replace h := h.step (.push true false _ _ _ rfl)
  replace h := h.step (.push true false _ _ _ rfl)
  replace h := h.step (.exchange true _ rfl)
  replace h := h.step (.post true _ rfl)
  replace h := h.step (.call true .normal 8 rfl)
  replace h := h.step (.startTask false rfl (by decide))
  replace h := h.step (.pop false _ _ _ _ _ rfl)
  replace h := h.step (.pop false _ _ _ _ _ rfl)
  replace h := h.step (.announce true _ _ rfl)
  replace h := h.step (.pop false _ _ _ _ _ rfl)
  replace h := h.step (.pop false _ _ _ _ _ rfl)
  replace h := h.step (.pop false _ _ _ _ _ rfl)
  replace h := h.step (.pop false _ _ _ _ _ rfl)
  replace h := h.step (.pop false _ _ _ _ _ rfl)
  exact ⟨_, rfl, rfl, serialConsumer_of_reachable h⟩

end Scheduler
end IdtxCore
