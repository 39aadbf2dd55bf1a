import IdtxCore.SchedulerHistory

/-!
# No command is stranded, and shutdown is safe

`WakeInv`: while a mailbox holds a command, `drain_scheduled_` is set or some thread is still going to
exchange it (`Thread.Waker`): it pushed and has not reached `ScheduleDrainIfRequired`, it is about to
exchange, or it cleared the flag and has not looked at the pending count again.

`Quiet`: admission is closed, the mailboxes are empty and no thread is in `TryPush` or in the handler.
`WaitIdle` sees `pending_count_ == 0` only in such a state, and it is stable: later submissions are
turned away, and drains find nothing.
-/

namespace IdtxCore
namespace Scheduler

open Tally

variable {T κ : Type} [Fintype T] [DecidableEq T] {s s' : State T κ}

/-! ### Wake-ups -/

def Thread.Waker : Thread κ → Prop
  | .submit (.push e) _ _ => e.holds = true
  | .schedule .exchange _ => True
  | .drain .recheck _ _ _ => True
  | _ => False

def State.Unpopped (s : State T κ) : Prop :=
  ∃ k, (s.rings k).popped.length < (s.rings k).reserved.length

def WakeInv (s : State T κ) : Prop :=
  s.Unpopped → s.drainScheduled = true ∨ ∃ t, (s.threads t).Waker

omit [Fintype T] in
/-- A thread that was not going to wake anybody moves. -/
theorem WakeInv.keep (h : WakeInv s) {t : T} {x : Thread κ} (ht : ¬ (s.threads t).Waker) :
    s.Unpopped → s.drainScheduled = true ∨ ∃ u, (Function.update s.threads t x u).Waker := by
  intro hne
  rcases h hne with hflag | ⟨u, hu⟩
  · exact .inl hflag
  · have hut : u ≠ t := fun hut => ht (hut ▸ hu)
    exact .inr ⟨u, by rwa [Function.update_of_ne hut]⟩

theorem afterPush_waker {x : Submission κ} {c : Caller κ .submit} {e : Emplace (Submission κ)}
    (h : e.holds = true) : (afterPush x c e).Waker := by
  cases e with
  | returned b => obtain rfl : b = true := h; trivial
  | _ => exact h

omit [Fintype T] in
theorem WakeInv.push (h : WakeInv s) {t : T} (spurious : Bool) {e : Emplace (Submission κ)}
    {x : Submission κ} {c : Caller κ .submit} (ht : s.threads t = .submit (.push e) x c)
    (hcar : e.Carries x) :
    WakeInv ((s.setRing x.kind ((s.rings x.kind).emplace t spurious e).1).goto t
      (afterPush x c ((s.rings x.kind).emplace t spurious e).2,
        pushEvents x e ((s.rings x.kind).emplace t spurious e).2)) := by
  by_cases hh : ((s.rings x.kind).emplace t spurious e).2.holds
  · exact fun _ => .inr ⟨t, by simpa [State.goto] using afterPush_waker hh⟩
  · have hcases := (s.rings x.kind).emplace_cases t spurious hcar
    obtain ⟨hr, hholds⟩ : ((s.rings x.kind).emplace t spurious e).1.reserved = (s.rings x.kind).reserved ∧
        ((s.rings x.kind).emplace t spurious e).2.holds = e.holds := by
      rcases hcases with hc | ⟨-, -, hh'⟩
      · exact hc
      · exact absurd hh' hh
    rintro ⟨k, hk⟩
    refine h.keep (t := t) (by rw [ht]; exact fun hw => hh (hholds.trans hw)) ⟨k, ?_⟩
    by_cases hkx : k = x.kind
    · subst hkx
      simpa [State.goto, State.setRing, hr] using hk
    · simpa [State.goto, State.setRing, hkx] using hk

omit [Fintype T] in
theorem WakeInv.pop (h : WakeInv s) (hok : ∀ t, (s.threads t).Ok) {t : T} {k : Kind}
    {c : Pop (Submission κ)} {processed retries : Nat} {d : Caller κ .drain}
    (ht : s.threads t = .drain (.pop k c) processed retries d) :
    WakeInv ((s.setRing k ((s.rings k).pop c).1).goto t
      (afterPop k processed retries d ((s.rings k).pop c).2)) := by
  have hc := hok t
  rw [ht] at hc
  rintro ⟨k', hk'⟩
  refine h.keep (t := t) (by rw [ht]; exact id) ⟨k', ?_⟩
  by_cases hkk : k' = k
  · subst hkk
    simp only [State.goto, State.setRing, Function.update_self, Ring.pop_reserved] at hk'
    rcases (s.rings k').pop_cases hc with ⟨hp, -⟩ | ⟨n, x, -, hp, -⟩ <;> rw [hp] at hk'
    · exact hk'
    · rw [List.length_append] at hk'; omega
  · simpa [State.goto, State.setRing, hkk] using hk'

omit [DecidableEq T] in
theorem Inv.not_unpopped (hi : Inv s) (h : s.pendingCount = 0) : ¬ s.Unpopped := by
  have hpend := hi.pending
  have hn := hi.rings.popped_length_le .normal
  have hp := hi.rings.popped_length_le .priority
  rw [PendingInv, State.poppedCount, State.reservedCount] at hpend
  rintro ⟨k, hk⟩
  cases k <;> omega

theorem Step.wake (hi : Inv s) (h : WakeInv s) (hs : Step s s') : WakeInv s' := by
  cases hs with
  | call t kind command ht => exact h.keep (by rw [ht]; exact id)
  | handlerCall t kind command running processed retries d ht => exact h.keep (by rw [ht]; exact id)
  | announce t x c ht => exact h.keep (by rw [ht]; exact id)
  | admission t x c ht => exact h.keep (by rw [ht]; exact id)
  | push t spurious e x c ht =>
    have hok := hi.ok t
    rw [ht] at hok
    exact h.push spurious ht hok.1
  | reject t status x c ht => exact h.keep (by rw [ht]; exact id)
  | exchange t c ht => exact fun _ => .inl rfl
  | post t c ht => exact h.keep (by rw [ht]; exact id)
  | postRefused t c ht => exact h.keep (by rw [ht]; exact id)
  | startTask t ht htasks => exact h.keep (by rw [ht]; exact id)
  | pop t k c processed retries d ht => exact h.pop hi.ok ht
  | checkPending t processed retries d ht => exact h.keep (by rw [ht]; exact id)
  | finish t x processed retries d ht => exact h.keep (by rw [ht]; exact id)
  | release t processed retries d ht => exact h.keep (by rw [ht]; exact id)
  | clear t processed retries d ht =>
    exact fun _ => .inr ⟨t, by simp [State.goto, Thread.Waker]⟩
  | recheck t processed retries d ht =>
    intro hne
    by_cases hpend : s.pendingCount = 0
    · exact absurd hne (hi.not_unpopped hpend)
    · refine .inr ⟨t, ?_⟩
      have hpos : 0 < s.pendingCount := Nat.pos_of_ne_zero hpend
      cases d <;> simp [State.goto, Caller.returnDrain, hpos, Thread.Waker]
  | closeAdmission | waitPending | waitDrain => exact h

theorem wake_of_reachable (h : (system T κ).Reachable s) : WakeInv s := by
  refine Lts.System.invariant ?_ (fun _ _ hr hi hs => Step.wake (inv_of_reachable hr) hi hs) h
  rintro _ rfl ⟨k, hk⟩
  cases hk

omit [DecidableEq T] in
/-- Once the mailboxes are empty and no handler runs, everything pushed is finished. -/
theorem History.finished_of_pushed (hh : History s) (hi : Inv s) (hempty : ¬ s.Unpopped)
    (hnone : ∀ t, (s.threads t).account.handlers = []) {x : Submission κ} (hx : .pushed x ∈ s.trace) :
    .finished x ∈ s.trace := by
  have hpushed : x ∈ (pushedOf s.trace).filter (·.kind = x.kind) :=
    List.mem_filter.2 ⟨(mem_pushedOf _).2 hx, by simp⟩
  have hle := Nat.le_of_not_lt fun hlt => hempty ⟨x.kind, hlt⟩
  rw [← List.length_map (f := Prod.snd), hh.reserved, hh.popped, List.length_map] at hle
  obtain ⟨n, hn⟩ := hh.started_eq_take hi x.kind
  have hstarted : x ∈ startedOf s.trace := by
    rw [hn, List.length_take] at hle
    rw [List.take_of_length_le (by omega)] at hn
    exact (List.mem_filter.1 (hn ▸ hpushed)).1
  have htotal : total (fun x => (x.account.handlers : Multiset (Submission κ))) s.threads = 0 :=
    total_const_zero (w := fun x : Thread κ => (x.account.handlers : Multiset (Submission κ)))
      fun t => by rw [hnone t]; rfl
  have hhandling := hh.handling
  rw [htotal, Multiset.zero_add] at hhandling
  exact (mem_finishedOf _).1 (Multiset.mem_coe.1 (hhandling ▸ Multiset.mem_coe.2 hstarted))

omit [DecidableEq T] in
theorem Inv.ring_empty (hi : Inv s) (hidle : ∀ t, s.threads t = .idle) (hempty : ¬ s.Unpopped)
    (k : Kind) : (s.rings k).box.enqueuePosition = (s.rings k).box.dequeuePosition ∧
      ∀ i, ((s.rings k).box.slots i).storage = none := by
  obtain ⟨c, hc, hr⟩ := hi.rings k
  obtain rfl : c = none := by
    rcases hc.exist with hnone | ⟨t, ht⟩
    · exact hnone
    · rw [← ht, hidle]; rfl
  have hle := Nat.le_of_not_lt fun hlt => hempty ⟨k, hlt⟩
  have hbehind : (s.rings k).box.dequeuePosition ≤ (s.rings k).box.enqueuePosition := hr.behind
  rw [hr.popped_eq, hr.length_reserved, List.length_map, List.length_take] at hle
  have heq : (s.rings k).box.enqueuePosition = (s.rings k).box.dequeuePosition := by omega
  refine ⟨heq, fun i => ?_⟩
  obtain ⟨n, hidx, hn, hn'⟩ := k.capacity.exists_window (s.rings k).box.dequeuePosition i
  have hi : k.capacity.index n = i := by
    rw [hidx, Fin.ext_iff]
    simp [Capacity.index, Capacity.and_mask, Nat.mod_eq_of_lt i.isLt]
  have hslot : (s.rings k).box.slot n = ⟨n, none⟩ := hr.free n (heq ▸ hn) hn'
  rw [← hi]
  exact congrArg Slot.storage hslot

/-- Nothing accepted is left behind when the scheduler comes to rest. -/
structure AtRest (s : State T κ) : Prop where
  empty : ∀ k, (s.rings k).box.enqueuePosition = (s.rings k).box.dequeuePosition ∧
    ∀ i, ((s.rings k).box.slots i).storage = none
  pending : s.pendingCount = 0
  drain : s.drainScheduled = false
  handled : ∀ x, .returned x .accepted ∈ s.trace → .finished x ∈ s.trace

theorem atRest_of_idle (h : (system T κ).Reachable s) (hidle : ∀ t, s.threads t = .idle)
    (htasks : s.tasks = 0) : AtRest s := by
  have hi := inv_of_reachable h
  have hh := history_of_reachable h
  have hheld : total (fun x => x.account.held) s.threads = 0 :=
    total_const_zero (w := fun x : Thread κ => x.account.held) fun t => by rw [hidle t]; rfl
  have howed : total (fun x => x.account.owed) s.threads = 0 :=
    total_const_zero (w := fun x : Thread κ => x.account.owed) fun t => by rw [hidle t]; rfl
  have hdrain : s.drainScheduled = false := by
    by_contra hflag
    have := hi.flag
    rw [FlagInv, hheld, htasks, if_pos (by simpa using hflag)] at this
    cases this
  have hempty : ¬ s.Unpopped := by
    intro hne
    rcases wake_of_reachable h hne with hflag | ⟨t, ht⟩
    · rw [hdrain] at hflag; cases hflag
    · rw [hidle t] at ht; exact ht
  refine ⟨hi.ring_empty hidle hempty, ?_, hdrain, fun x hx => ?_⟩
  · have hpend := hi.pending
    have hn := Nat.le_of_not_lt fun hlt => hempty ⟨.normal, hlt⟩
    have hp := Nat.le_of_not_lt fun hlt => hempty ⟨.priority, hlt⟩
    rw [PendingInv, howed, State.poppedCount, State.reservedCount] at hpend
    omega
  · exact hh.finished_of_pushed hi hempty (fun t => by rw [hidle t]; rfl)
      ((mem_pushedOf _).1 (hh.pushed_of_accepted hx))

/-- A command accepted, handled on a worker, and the drain run to its end. -/
theorem atRest_after_one_command :
    ∃ s : State Bool Nat, (∀ t, s.threads t = .idle) ∧ s.tasks = 0 ∧
      .returned ⟨0, .priority, 7⟩ .accepted ∈ s.trace ∧ AtRest s := by
  have h : (system Bool Nat).Reachable _ := .init rfl
  replace h := h.step (.call true .priority 7 rfl)
  replace h := h.step (.announce true _ _ rfl)
  replace h := h.step (.admission true _ _ rfl)
  replace h := h.step (.push true false _ _ _ rfl)
  replace h := h.step (.push true false _ _ _ rfl)
  replace h := h.step (.push true false _ _ _ rfl)
  replace h := h.step (.push true false _ _ _ rfl)
  replace h := h.step (.push true false _ _ _ rfl)
  replace h := h.step (.exchange true _ rfl)
  replace h := h.step (.post true _ rfl)
  replace h := h.step (.startTask false rfl (by decide))
  replace h := h.step (.pop false _ _ _ _ _ rfl)
  replace h := h.step (.pop false _ _ _ _ _ rfl)
  replace h := h.step (.pop false _ _ _ _ _ rfl)
  replace h := h.step (.pop false _ _ _ _ _ rfl)
  replace h := h.step (.pop false _ _ _ _ _ rfl)
  replace h := h.step (.finish false _ _ _ _ rfl)
  replace h := h.step (.release false _ _ _ rfl)
  replace h := h.step (.pop false _ _ _ _ _ rfl)
  replace h := h.step (.pop false _ _ _ _ _ rfl)
  replace h := h.step (.pop false _ _ _ _ _ rfl)
  replace h := h.step (.pop false _ _ _ _ _ rfl)
  replace h := h.step (.checkPending false _ _ _ rfl)
  replace h := h.step (.clear false _ _ _ rfl)
  replace h := h.step (.recheck false _ _ _ rfl)
  exact ⟨_, Bool.rec rfl rfl, rfl, by decide, atRest_of_idle h (Bool.rec rfl rfl) rfl⟩

/-! ### Shutdown -/

/-- Nothing is being pushed or handled on the thread, and the mailbox was not full for a submission
numbered `N` or later. -/
def Thread.Quiet (N : Nat) (x : Thread κ) : Prop :=
  x.account.handlers = [] ∧
    match x with
    | .submit (.push _) _ _ | .drain (.handling _) _ _ _ | .drain .release _ _ _ => False
    | .submit (.reject .queueFull) y _ => y.id < N
    | _ => True

structure Quiet (N : Nat) (s : State T κ) : Prop where
  closed : s.accepting = false
  empty : ¬ s.Unpopped
  threads : ∀ t, (s.threads t).Quiet N
  full : ∀ x, .returned x .queueFull ∈ s.trace → x.id < N

section Return
variable {N : Nat}

theorem returnSubmit_quiet {c : Caller κ .submit} (h : c.handlers = []) : c.returnSubmit.Quiet N := by
  cases c with
  | outside => exact ⟨rfl, trivial⟩
  | handler processed running d => cases h

theorem returnSchedule_quiet {c : Caller κ .schedule} (h : c.handlers = []) :
    c.returnSchedule.1.Quiet N := by
  cases c with
  | submit x c => exact returnSubmit_quiet h
  | runDrainTask => exact ⟨rfl, trivial⟩

theorem returnDrain_quiet (more : Bool) {d : Caller κ .drain} (h : d.handlers = []) :
    (d.returnDrain more).1.Quiet N := by
  cases d with
  | task => cases more <;> exact ⟨rfl, trivial⟩
  | inline c =>
    cases more with
    | false => exact returnSchedule_quiet h
    | true => exact ⟨h, trivial⟩

theorem loopHead_quiet (processed retries : Nat) {d : Caller κ .drain} (h : d.handlers = []) :
    (loopHead processed retries d).Quiet N := by
  unfold loopHead
  split_ifs <;> exact ⟨h, trivial⟩

theorem afterCheck_quiet (pending processed retries : Nat) {d : Caller κ .drain} (h : d.handlers = []) :
    (afterCheck pending processed retries d).Quiet N := by
  unfold afterCheck
  split_ifs
  · exact ⟨h, trivial⟩
  · exact ⟨h, trivial⟩
  · exact loopHead_quiet _ _ h

theorem afterPop_quiet (k : Kind) (processed retries : Nat) {d : Caller κ .drain} (h : d.handlers = [])
    {c : Pop (Submission κ)} (hc : ∀ x, c ≠ .returned (some x)) :
    (afterPop k processed retries d c).1.Quiet N := by
  cases c with
  | returned x =>
    cases x with
    | some x => exact absurd rfl (hc x)
    | none => cases k <;> exact ⟨h, trivial⟩
  | _ => exact ⟨h, trivial⟩

end Return

omit [DecidableEq T] in
/-- A push that has reserved its position finds its mailbox not empty. -/
theorem Inv.unpopped_of_holds (hi : Inv s) {t : T} {e : Emplace (Submission κ)} {x : Submission κ}
    {c : Caller κ .submit} (ht : s.threads t = .submit (.push e) x c) (hholds : e.holds = true) :
    s.Unpopped := by
  obtain ⟨p, -, hr⟩ := hi.rings x.kind
  have hok := hi.ok t
  rw [ht] at hok
  have hprod : (s.threads t).account.producing x.kind = some e := by
    cases e with
    | returned b => exact absurd rfl (hok.2 b)
    | _ => rw [ht]; simp [pushAccount, Emplace.underway]
  have hle : (s.rings x.kind).popped.length ≤ (s.rings x.kind).released p := by
    rw [hr.popped_eq, List.length_map, List.length_take]
    unfold Ring.released
    split <;> omega
  have hemp := hr.emplace t e hprod
  obtain ⟨n, y, hn, hres⟩ : ∃ n y, (s.rings x.kind).released p ≤ n ∧
      (s.rings x.kind).reserved[n]? = some y := by
    cases e with
    | construct v n => exact ⟨n, _, hemp.1, hemp.2.1⟩
    | publish n => exact ⟨n, _, hemp.1, hemp.2.choose_spec.1⟩
    | returned b => exact absurd rfl (hok.2 b)
    | _ => cases hholds
  have hlt := (List.getElem?_eq_some_iff.1 hres).1
  exact ⟨x.kind, by omega⟩

omit [DecidableEq T] in
theorem History.id_lt_of_rejected (hh : History s) {x : Submission κ} {status : CommandAdmissionStatus}
    (hx : .returned x status ∈ s.trace) (hst : status ≠ .accepted) : x.id < s.calls := by
  rw [← Multiset.mem_range, ← hh.ids]
  refine Multiset.mem_add.2 (.inr (Multiset.mem_add.2 (.inr ?_)))
  exact Multiset.mem_coe.2 (List.mem_map_of_mem (mem_rejectedOf_of _ hx hst))

omit [DecidableEq T] in
/-- What `WaitIdle` has seen when it leaves its first loop. -/
theorem Inv.quiet (hi : Inv s) (hh : History s) (hclosed : s.accepting = false)
    (h : s.pendingCount = 0) : Quiet s.calls s := by
  have hempty := hi.not_unpopped h
  have howed : total (fun x => x.account.owed) s.threads = 0 := by
    have hpend := hi.pending
    have hn := hi.rings.popped_length_le .normal
    have hp := hi.rings.popped_length_le .priority
    rw [PendingInv, State.poppedCount, State.reservedCount] at hpend
    omega
  refine ⟨hclosed, hempty, fun t => ?_, fun x hx => hh.id_lt_of_rejected hx (by simp)⟩
  have ht : (s.threads t).account.owed = 0 :=
    eq_zero_of_total_eq_zero (w := fun x : Thread κ => x.account.owed) howed t
  cases hx : s.threads t with
  | idle => exact ⟨rfl, trivial⟩
  | submit place x c =>
    rw [hx] at ht
    cases place with
    | announce => exact ⟨List.eq_nil_of_length_eq_zero ht, trivial⟩
    | admission => cases ht
    | reject status => cases ht
    | push e =>
      simp only [Thread.account_push, pushAccount, Nat.add_eq_zero_iff] at ht
      have hholds : e.holds = true := by
        by_contra hh
        rw [if_neg hh] at ht
        cases ht.2
      exact absurd (hi.unpopped_of_holds hx hholds) hempty
  | schedule place c =>
    rw [hx] at ht
    cases place <;> exact ⟨List.eq_nil_of_length_eq_zero ht, trivial⟩
  | drain place processed retries d =>
    rw [hx] at ht
    cases place with
    | handling x => cases ht
    | release => cases ht
    | _ => exact ⟨List.eq_nil_of_length_eq_zero ht, trivial⟩

/-- What a step from a quiet state cannot do. -/
structure StaysQuiet (N : Nat) (s s' : State T κ) : Prop where
  quiet : Quiet N s'
  pushed : pushedOf s'.trace = pushedOf s.trace
  started : startedOf s'.trace = startedOf s.trace

omit [Fintype T] in
theorem StaysQuiet.goto {N : Nat} {t : T} {x : Thread κ} {ev : List (Event κ)} (h : Quiet N s)
    (hthreads : s'.threads = Function.update s.threads t x) (htrace : s'.trace = s.trace ++ ev)
    (hempty : ¬ s'.Unpopped) (hacc : s'.accepting = s.accepting) (hp : pushedOf ev = [])
    (hst : startedOf ev = []) (hfull : ∀ y, .returned y .queueFull ∈ ev → y.id < N)
    (hx : x.Quiet N) : StaysQuiet N s s' := by
  refine ⟨⟨hacc.trans h.closed, hempty, fun u => ?_, fun y hy => ?_⟩, ?_, ?_⟩
  · rw [hthreads]
    by_cases hu : u = t
    · subst hu; rwa [Function.update_self]
    · rw [Function.update_of_ne hu]; exact h.threads u
  · rw [htrace] at hy
    exact (List.mem_append.1 hy).elim (h.full y) (hfull y)
  · rw [htrace, pushedOf_append, hp, List.append_nil]
  · rw [htrace, startedOf_append, hst, List.append_nil]

omit [Fintype T] [DecidableEq T] in
theorem not_full_mem_accepted (l : List (Submission κ)) (y : Submission κ) :
    Event.returned y .queueFull ∉ l.head?.toList.map (Event.returned · .accepted) := by
  cases l <;> simp

theorem Quiet.step {N : Nat} (hi : Inv s) (h : Quiet N s) (hs : Step s s') : StaysQuiet N s s' := by
  have quiet : ∀ {t : T} {x : Thread κ}, s.threads t = x → x.Quiet N := fun ht => ht ▸ h.threads _
  -- a step that records nothing and leads to a quiet thread
  have silent : ∀ {s' : State T κ} {t : T} {x : Thread κ},
      s'.threads = Function.update s.threads t x → s'.trace = s.trace ++ [] → s'.rings = s.rings →
      s'.accepting = s.accepting → x.Quiet N → StaysQuiet N s s' := by
    intro s' t x hthreads htrace hrings hacc hx
    exact .goto h hthreads htrace (by rw [State.Unpopped, hrings]; exact h.empty) hacc rfl rfl
      (by simp) hx
  -- a submission that returns `Accepted`, if one does
  have accept : ∀ {s' : State T κ} {t : T} {x : Thread κ} (l : List (Submission κ)),
      s'.threads = Function.update s.threads t x →
      s'.trace = s.trace ++ l.head?.toList.map (.returned · .accepted) → s'.rings = s.rings →
      s'.accepting = s.accepting → x.Quiet N → StaysQuiet N s s' := by
    intro s' t x l hthreads htrace hrings hacc hx
    obtain ⟨⟨-, hp, hst⟩, -⟩ := accepted_events l
    exact .goto h hthreads htrace (by rw [State.Unpopped, hrings]; exact h.empty) hacc hp hst
      (fun y hy => absurd hy (not_full_mem_accepted l y)) hx
  cases hs with
  | call t kind command ht =>
    exact .goto h rfl rfl h.empty rfl rfl rfl (by simp) ⟨rfl, trivial⟩
  | handlerCall t kind command running processed retries d ht => exact absurd (quiet ht).2 id
  | announce t x c ht => exact silent rfl rfl rfl rfl ⟨(quiet ht).1, trivial⟩
  | admission t x c ht =>
    refine silent rfl rfl rfl rfl ?_
    rw [h.closed]
    exact ⟨(quiet ht).1, trivial⟩
  | push t spurious e x c ht => exact absurd (quiet ht).2 id
  | reject t status x c ht =>
    refine .goto h rfl rfl h.empty rfl rfl rfl (fun y hy => ?_) (returnSubmit_quiet (quiet ht).1)
    obtain ⟨rfl, rfl⟩ : y = x ∧ .queueFull = status := by simpa using hy
    exact (quiet ht).2
  | exchange t c ht =>
    by_cases hflag : s.drainScheduled
    · exact accept c.pushed (t := t) (by simp [State.goto, hflag])
        (by simp [State.goto, hflag, events_returnSchedule]) rfl rfl (returnSchedule_quiet (quiet ht).1)
    · exact silent (t := t) (x := .schedule .post c) (by simp [State.goto, hflag])
        (by simp [State.goto, hflag]) rfl rfl ⟨(quiet ht).1, trivial⟩
  | post t c ht =>
    exact accept c.pushed (t := t) rfl (congrArg (s.trace ++ ·) (events_returnSchedule c)) rfl rfl
      (returnSchedule_quiet (quiet ht).1)
  | postRefused t c ht =>
    exact silent rfl rfl rfl rfl (loopHead_quiet 0 0 (d := .inline c) (quiet ht).1)
  | startTask t ht htasks => exact silent rfl rfl rfl rfl (loopHead_quiet 0 0 (d := .task) rfl)
  | pop t k c processed retries d ht =>
    have hok := hi.ok t
    rw [ht] at hok
    rcases (s.rings k).pop_cases hok with ⟨hp, hx⟩ | ⟨n, x, rfl, -, -⟩
    · obtain ⟨popping, -, hev⟩ := account_afterPop k processed retries d hx
      refine .goto h (t := t) rfl (congrArg (s.trace ++ ·) hev) ?_ rfl rfl rfl (by simp)
        (afterPop_quiet k processed retries (quiet ht).1 hx)
      rintro ⟨k', hk'⟩
      refine h.empty ⟨k', ?_⟩
      by_cases hkk : k' = k
      · subst hkk; simpa [State.goto, State.setRing, hp] using hk'
      · simpa [State.goto, State.setRing, hkk] using hk'
    · -- nothing can be at the head of an empty mailbox
      obtain ⟨v, -, hv⟩ := hi.rings.advance ht
      have hlt := (List.getElem?_eq_some_iff.1 hv).1
      rw [List.length_map] at hlt
      exact absurd ⟨k, hlt⟩ h.empty
  | checkPending t processed retries d ht =>
    exact silent rfl rfl rfl rfl (afterCheck_quiet _ _ _ (quiet ht).1)
  | finish t x processed retries d ht => exact absurd (quiet ht).2 id
  | release t processed retries d ht => exact absurd (quiet ht).2 id
  | clear t processed retries d ht => exact silent rfl rfl rfl rfl ⟨(quiet ht).1, trivial⟩
  | recheck t processed retries d ht =>
    by_cases hmore : 0 < s.pendingCount
    · exact silent (t := t) rfl (by simp [State.goto, events_returnDrain, hmore]) rfl rfl
        (returnDrain_quiet _ (quiet ht).1)
    · exact accept d.pushed (t := t) rfl (by simp [State.goto, events_returnDrain, hmore]) rfl rfl
        (returnDrain_quiet _ (quiet ht).1)
  | closeAdmission hc => exact ⟨⟨rfl, h.empty, h.threads, h.full⟩, rfl, rfl⟩
  | waitPending hc hpending => exact ⟨⟨h.closed, h.empty, h.threads, h.full⟩, rfl, rfl⟩
  | waitDrain hc hdrain => exact ⟨⟨h.closed, h.empty, h.threads, h.full⟩, rfl, rfl⟩

/-! ### After `WaitIdle` -/

/-- Admission is closed once `CloseAdmission` was called, and the scheduler is quiet once `WaitIdle`
saw no pending submission. -/
structure CloserInv (s : State T κ) : Prop where
  closed : s.closer ≠ .running → s.accepting = false
  quiet : s.closer = .waitDrain ∨ s.closer = .returned → Quiet s.calls s

omit [Fintype T] in
theorem Step.closer_cases (hs : Step s s') :
    (s'.closer = s.closer ∧ s'.accepting = s.accepting) ∨
    (s'.closer = .waitPending ∧ s'.accepting = false) ∨
    (s.closer = .waitPending ∧ s'.closer = .waitDrain ∧ s.pendingCount = 0) ∨
    (s.closer = .waitDrain ∧ s'.closer = .returned) := by
  cases hs with
  | closeAdmission h => exact .inr (.inl ⟨rfl, rfl⟩)
  | waitPending h hpending => exact .inr (.inr (.inl ⟨h, rfl, hpending⟩))
  | waitDrain h hdrain => exact .inr (.inr (.inr ⟨h, rfl⟩))
  | _ => exact .inl ⟨rfl, rfl⟩

omit [Fintype T] in
theorem Step.calls_le (hs : Step s s') : s.calls ≤ s'.calls := by
  cases hs with
  | call | handlerCall => exact Nat.le_succ _
  | _ => exact Nat.le_refl _

theorem Thread.Quiet.mono {N N' : Nat} {x : Thread κ} (h : x.Quiet N) (hle : N ≤ N') : x.Quiet N' := by
  refine ⟨h.1, ?_⟩
  rcases x with _ | ⟨_ | _ | _ | ⟨_ | _ | _⟩, y, c⟩ | _ | ⟨_ | _ | _ | _ | _ | _⟩
  case submit.reject.queueFull => exact Nat.lt_of_lt_of_le h.2 hle
  all_goals exact h.2

omit [Fintype T] [DecidableEq T] in
theorem Quiet.mono {N N' : Nat} (h : Quiet N s) (hle : N ≤ N') : Quiet N' s :=
  ⟨h.closed, h.empty, fun t => (h.threads t).mono hle, fun x hx => Nat.lt_of_lt_of_le (h.full x hx) hle⟩

theorem closer_of_reachable (h : (system T κ).Reachable s) : CloserInv s := by
  refine Lts.System.invariant ?_ (fun s s' hr hc hs => ?_) h
  · rintro _ rfl
    exact ⟨fun hne => absurd rfl hne, by rintro (hc | hc) <;> cases hc⟩
  have hi := inv_of_reachable hr
  have stable : Quiet s.calls s → Quiet s'.calls s' := fun hq =>
    (hq.step hi hs).quiet.mono (Step.calls_le hs)
  rcases Step.closer_cases hs with ⟨hcl, hacc⟩ | ⟨hcl, hacc⟩ | ⟨hcl, hcl', hpend⟩ | ⟨hcl, hcl'⟩
  · exact ⟨fun hne => hacc.trans (hc.closed (hcl ▸ hne)), fun hq => stable (hc.quiet (hcl ▸ hq))⟩
  · exact ⟨fun _ => hacc, by rw [hcl]; rintro (hc | hc) <;> cases hc⟩
  · have hq := stable (hi.quiet (history_of_reachable hr) (hc.closed (by rw [hcl]; simp)) hpend)
    exact ⟨fun _ => hq.closed, fun _ => hq⟩
  · have hq := stable (hc.quiet (.inl hcl))
    exact ⟨fun _ => hq.closed, fun _ => hq⟩

/-- What holds in every state `s'` reached from the state `s` in which `WaitIdle` returned. -/
structure ShutDown (s s' : State T κ) : Prop where
  /-- Everything that is ever pushed was handled when `WaitIdle` returned. -/
  handled : ∀ x, .pushed x ∈ s'.trace → .finished x ∈ s.trace
  /-- No handler is in progress, and none has started since. -/
  resting : ∀ t, (s'.threads t).account.handlers = []
  started : startedOf s'.trace = startedOf s.trace
  /-- Submissions called since are turned away. -/
  stopping : ∀ x status, .returned x status ∈ s'.trace → s.calls ≤ x.id → status = .stopping

theorem StaysQuiet.run {N : Nat} (h : (system T κ).Reachable s) (hq : Quiet N s)
    (hr : (system T κ).Run s s') : StaysQuiet N s s' := by
  induction hr with
  | refl => exact ⟨hq, rfl, rfl⟩
  | tail hr hs ih =>
    have hnext := ih.quiet.step (inv_of_reachable (h.run hr)) hs
    exact ⟨hnext.quiet, hnext.pushed.trans ih.pushed, hnext.started.trans ih.started⟩

theorem shutDown_of_returned (h : (system T κ).Reachable s) (hreturned : s.closer = .returned)
    (hr : (system T κ).Run s s') : ShutDown s s' := by
  have hi := inv_of_reachable h
  have hh := history_of_reachable h
  have hq := (closer_of_reachable h).quiet (.inr hreturned)
  have hrun := StaysQuiet.run h hq hr
  refine ⟨fun x hx => ?_, fun t => (hrun.quiet.threads t).1, hrun.started, fun x status hx hN => ?_⟩
  · rw [← mem_pushedOf, hrun.pushed, mem_pushedOf] at hx
    exact hh.finished_of_pushed hi hq.empty (fun t => (hq.threads t).1) hx
  · cases status with
    | stopping => rfl
    | queueFull => exact absurd (hrun.quiet.full x hx) (Nat.not_lt.2 hN)
    | accepted =>
      have hpushed := (history_of_reachable (h.run hr)).pushed_of_accepted hx
      rw [hrun.pushed] at hpushed
      exact absurd (hh.id_lt hpushed) (Nat.not_lt.2 hN)

/-- A command handled inline by its own submission, the session shut down, and a late submission. -/
theorem shutDown_after_inline_drain :
    ∃ s s' : State Bool Nat, s.closer = .returned ∧ .finished ⟨0, .normal, 7⟩ ∈ s.trace ∧
      .returned ⟨1, .normal, 8⟩ .stopping ∈ s'.trace ∧ ShutDown s s' := by
  have h : (system Bool Nat).Reachable _ := .init rfl
  replace h := h.step (.call true .normal 7 rfl)
  replace h := h.step (.announce true _ _ rfl)
  replace h := h.step (.admission true _ _ rfl)
  replace h := h.step (.closeAdmission rfl)
  replace h := h.step (.push true false _ _ _ rfl)
  replace h := h.step (.push true false _ _ _ rfl)
  replace h := h.step (.push true false _ _ _ rfl)
  replace h := h.step (.push true false _ _ _ rfl)
  replace h := h.step (.push true false _ _ _ rfl)
  replace h := h.step (.exchange true _ rfl)
  replace h := h.step (.postRefused true _ rfl)
  replace h := h.step (.pop true _ _ _ _ _ rfl)
  replace h := h.step (.pop true _ _ _ _ _ rfl)
  replace h := h.step (.pop true _ _ _ _ _ rfl)
  replace h := h.step (.pop true _ _ _ _ _ rfl)
  replace h := h.step (.pop true _ _ _ _ _ rfl)
  replace h := h.step (.pop true _ _ _ _ _ rfl)
  replace h := h.step (.pop true _ _ _ _ _ rfl)
  replace h := h.step (.finish true _ _ _ _ rfl)
  replace h := h.step (.release true _ _ _ rfl)
  replace h := h.step (.waitPending rfl rfl)
  replace h := h.step (.pop true _ _ _ _ _ rfl)
  replace h := h.step (.pop true _ _ _ _ _ rfl)
  replace h := h.step (.pop true _ _ _ _ _ rfl)
  replace h := h.step (.pop true _ _ _ _ _ rfl)
  replace h := h.step (.checkPending true _ _ _ rfl)
  replace h := h.step (.clear true _ _ _ rfl)
  replace h := h.step (.waitDrain rfl rfl)
  exact ⟨_, _, rfl, by decide, by decide, shutDown_of_returned h rfl
    ((((Relation.ReflTransGen.refl.tail (.call false .normal 8 rfl)).tail
      (.announce false _ _ rfl)).tail (.admission false _ _ rfl)).tail (.reject false _ _ _ rfl))⟩

end Scheduler
end IdtxCore
