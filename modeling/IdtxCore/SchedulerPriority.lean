import IdtxCore.SchedulerPending

/-!
# Priority commands overtake the normal queue

A drain looks into the priority mailbox before it looks into the normal one, each time anew. So when everything in the
priority mailbox up to a command is published, only a drain that has already found that mailbox empty, and is on its
way through the normal one (`State.PopsNormal`), can start a normal command before it: one drain, one command.

What is published stays published, because the sequence of a slot never decreases (`Ring.Inv.sequence_le_emplace`,
`Ring.Inv.sequence_le_pop`). That an accepted command is published itself is a matter of who holds which position
(`HeldInv`).
-/

namespace IdtxCore

namespace Ring
variable {P α : Type} {cap : Capacity} {r : Ring P α cap} {producer : P → Option (Emplace α)}
  {consumer : Option (Pop α)}

/-- The position has been published, and maybe popped since. -/
def Published (r : Ring P α cap) (n : Nat) : Prop := n < (r.box.slot n).sequence

namespace Inv

theorem sequence_le_setSlot {n : Nat} {x : Slot α} (hle : (r.box.slot n).sequence ≤ x.sequence) (m : Nat) :
    (r.box.slot m).sequence ≤ ((r.box.setSlot n x).slot m).sequence := by
  by_cases hidx : cap.index m = cap.index n
  · have hslot : r.box.slot m = r.box.slot n := by simp [Mailbox.slot, hidx]
    have hset : (r.box.setSlot n x).slot m = x := by simp [Mailbox.slot, Mailbox.setSlot, hidx]
    rw [hslot, hset]
    exact hle
  · rw [Mailbox.slot_setSlot_ne _ _ hidx]

theorem sequence_le_emplace (h : r.Inv producer consumer) {p : P} {e : Emplace α} (he : producer p = some e)
    (spurious : Bool) (m : Nat) :
    (r.box.slot m).sequence ≤ ((r.emplace p spurious e).1.box.slot m).sequence := by
  cases e with
  | loadSequence v n => simp only [Ring.emplace, Emplace.step]; split_ifs <;> exact Nat.le_refl _
  | compareExchange v n => simp only [Ring.emplace, Emplace.step]; split_ifs <;> exact Nat.le_refl _
  | construct v n => exact sequence_le_setSlot (x := { r.box.slot n with storage := some v }) (Nat.le_refl _) m
  | publish n =>
    obtain ⟨-, hseq, -⟩ := h.reserved_of_position he rfl
    refine sequence_le_setSlot (x := { r.box.slot n with sequence := n + 1 }) ?_ m
    show (r.box.slot n).sequence ≤ n + 1
    omega
  | _ => exact Nat.le_refl _

theorem sequence_le_pop {c : Pop α} (h : r.Inv producer (some c)) (m : Nat) :
    (r.box.slot m).sequence ≤ ((r.pop c).1.box.slot m).sequence := by
  cases c with
  | moveOut n => exact sequence_le_setSlot (x := { r.box.slot n with storage := none }) (Nat.le_refl _) m
  | release n x =>
    obtain ⟨rfl, p, v, -, -, hs⟩ := h.pop _ rfl
    have hcap := cap.two_le
    refine sequence_le_setSlot (x := { r.box.slot _ with sequence := _ + cap.val }) ?_ m
    rw [hs]
    show r.box.dequeuePosition + 1 ≤ r.box.dequeuePosition + cap.val
    omega
  | loadSequence n => simp only [Ring.pop, Pop.step]; split_ifs <;> exact Nat.le_refl _
  | _ => exact Nat.le_refl _

/-- A `TryPop` under way returns a value if the head is published. -/
theorem pop_ne_none {c : Pop α} (h : r.Inv producer (some c)) (hhead : r.Published r.box.dequeuePosition)
    (hc : ∀ x, c ≠ .returned x) : (r.pop c).2 ≠ .returned none := by
  cases c with
  | loadSequence n =>
    obtain rfl : n = r.box.dequeuePosition := h.pop _ rfl
    have hcap := cap.pos
    have hseq : (r.box.slot r.box.dequeuePosition).sequence = r.box.dequeuePosition + 1 := by
      unfold Published at hhead
      rcases h.sequence_of_window (Nat.le_refl _) (by simp only [released]; omega) with hs | ⟨hs, -⟩
      · simp only [released] at hs; omega
      · exact hs
    simp [Ring.pop, Pop.step, hseq]
  | advance n x =>
    obtain ⟨-, p, v, -, rfl⟩ := h.pop _ rfl
    simp [Ring.pop, Pop.step]
  | returned x => exact absurd rfl (hc x)
  | _ => simp [Ring.pop, Pop.step]

/-- A step that leaves the call with a position either takes it over or has just reserved it. -/
theorem position_emplace (h : r.Inv producer consumer) {p : P} {e : Emplace α} {x : α}
    (hcarries : e.Carries x) (spurious : Bool) {n : Nat} (hn : (r.emplace p spurious e).2.position = some n) :
    e.position = some n ∨
      (r.emplace p spurious e).1.reserved = r.reserved ++ [(p, x)] ∧ n = r.reserved.length := by
  cases e with
  | loadSequence v m =>
    simp only [Ring.emplace, Emplace.step] at hn
    split_ifs at hn <;> cases hn
  | compareExchange v m =>
    obtain rfl : v = x := hcarries
    by_cases hcas : r.box.enqueuePosition = m ∧ spurious = false
    · simp only [Ring.emplace, Emplace.step, hcas, and_self, if_true] at hn ⊢
      refine .inr ⟨trivial, ?_⟩
      rw [h.length_reserved, hcas.1]
      exact (Option.some.inj hn).symm
    · simp only [Ring.emplace, Emplace.step, hcas, if_false] at hn
      cases hn
  | construct v m => exact .inl hn
  | _ => cases hn

end Inv
end Ring

namespace Scheduler

open Tally

/-! ### Who holds a position -/

section Held
variable {T κ : Type} {s s' : State T κ}

/-- Who holds an unpublished position has reserved it for its own submission, which has not returned. -/
def HeldInv (s : State T κ) : Prop :=
  ∀ t k e n, (s.threads t).account.producing k = some e → e.position = some n →
    ∃ x, x ∈ (s.threads t).account.pushed ∧ ((s.rings k).reserved)[n]? = some (t, x)

variable [DecidableEq T]

/-- A thread that holds no position afterwards. -/
theorem HeldInv.keep (h : HeldInv s) {t : T} {x : Thread κ}
    (hx : ∀ k e, x.account.producing k = some e → e.position = none) :
    ∀ u k e n, (Function.update s.threads t x u).account.producing k = some e → e.position = some n →
      ∃ y, y ∈ (Function.update s.threads t x u).account.pushed ∧ ((s.rings k).reserved)[n]? = some (u, y) := by
  intro u k e n he hn
  by_cases hu : u = t
  · subst hu
    rw [Function.update_self] at he
    rw [hx k e he] at hn
    cases hn
  · rw [Function.update_of_ne hu] at he ⊢
    exact h u k e n he hn

theorem HeldInv.pushOther (h : HeldInv s) {t u : T} {x : Thread κ} {k : Kind} {r : Ring T (Submission κ) k.capacity}
    (hr : (s.rings k).reserved <+: r.reserved) (hu : u ≠ t) {k' : Kind} {e : Emplace (Submission κ)} {n : Nat}
    (he : (Function.update s.threads t x u).account.producing k' = some e) (hn : e.position = some n) :
    ∃ y, y ∈ (Function.update s.threads t x u).account.pushed ∧
      (((s.setRing k r).rings k').reserved)[n]? = some (u, y) := by
  rw [Function.update_of_ne hu] at he ⊢
  obtain ⟨y, hy, hres⟩ := h u k' e n he hn
  refine ⟨y, hy, ?_⟩
  by_cases hk : k' = k
  · subst hk
    obtain ⟨rest, hrest⟩ := hr
    simp only [State.setRing, Function.update_self]
    rw [← hrest, List.getElem?_append_left (List.getElem?_eq_some_iff.1 hres).1]
    exact hres
  · simp only [State.setRing, Function.update_of_ne hk]
    exact hres

theorem HeldInv.push [Fintype T] (h : HeldInv s) (hi : Inv s) {t : T} (spurious : Bool) {e : Emplace (Submission κ)}
    {x : Submission κ} {c : Caller κ .submit} (ht : s.threads t = .submit (.push e) x c) :
    HeldInv ((s.setRing x.kind ((s.rings x.kind).emplace t spurious e).1).goto t
      (afterPush x c ((s.rings x.kind).emplace t spurious e).2,
        pushEvents x e ((s.rings x.kind).emplace t spurious e).2)) := by
  have hok := hi.ok t
  rw [ht] at hok
  obtain ⟨p, -, hr⟩ := hi.rings x.kind
  have hcases := (s.rings x.kind).emplace_cases t spurious hok.1
  have hreserved : (s.rings x.kind).reserved <+: ((s.rings x.kind).emplace t spurious e).1.reserved := by
    rcases hcases with ⟨hres, -⟩ | ⟨hres, -, -⟩ <;> rw [hres]
    exact List.prefix_append _ _
  intro u k e' n he' hn
  by_cases hu : u = t
  · subst hu
    simp only [State.goto, Function.update_self, account_afterPush, pushAccount] at he' ⊢
    split_ifs at he' with hk
    subst hk
    obtain ⟨rfl, hholds⟩ : e' = ((s.rings x.kind).emplace u spurious e).2 ∧
        ((s.rings x.kind).emplace u spurious e).2.holds = true := by
      generalize ((s.rings x.kind).emplace u spurious e).2 = out at he'
      cases out <;> simp [Emplace.underway] at he' <;> subst he' <;> simp [Emplace.holds, Emplace.position] at hn ⊢
    simp only [State.setRing, Function.update_self, hholds, if_true]
    rcases hr.position_emplace hok.1 spurious hn with hold | ⟨hres, rfl⟩
    · have hprod : (s.threads u).account.producing x.kind = some e := by
        cases e with
        | returned b => cases hold
        | _ => rw [ht]; simp [pushAccount, Emplace.underway]
      obtain ⟨y, hy, hget⟩ := h u x.kind e n hprod hold
      have holds : e.holds = true := by cases e <;> first | rfl | cases hold
      rw [ht, Thread.account_push, pushAccount, holds, if_pos rfl] at hy
      obtain ⟨rest, hrest⟩ := hreserved
      refine ⟨y, hy, ?_⟩
      rw [← hrest, List.getElem?_append_left (List.getElem?_eq_some_iff.1 hget).1]
      exact hget
    · refine ⟨x, List.mem_cons_self, ?_⟩
      rw [hres]
      simp
  · exact h.pushOther hreserved hu he' hn

theorem Step.held [Fintype T] (hi : Inv s) (h : HeldInv s) (hs : Step s s') : HeldInv s' := by
  have popped : ∀ {k : Kind} {c : Pop (Submission κ)}, ((s.rings k).pop c).1.reserved = (s.rings k).reserved :=
    Ring.pop_reserved _ _
  cases hs with
  | call t | handlerCall t | announce t => exact h.keep (by simp [Caller.account])
  | admission t x c ht =>
    refine h.keep fun k e he => ?_
    dsimp only at he
    split_ifs at he
    · have he : (if x.kind = k then some (Emplace.loadPosition x) else none) = some e := he
      split_ifs at he
      obtain rfl := Option.some.inj he
      rfl
    · cases he
  | push t spurious e x c ht => exact h.push hi spurious ht
  | reject t status x c ht => exact h.keep (by simp [Caller.account])
  | exchange t c ht => refine h.keep ?_; split_ifs <;> simp [Caller.account]
  | post t c ht => exact h.keep (by simp [Caller.account])
  | postRefused t c ht => exact h.keep (by simp [drainAccount, Caller.account])
  | startTask t ht htasks => exact h.keep (by simp [drainAccount, Caller.account])
  | pop t k c processed retries d ht =>
    intro u k' e n he hn
    obtain ⟨y, hy, hget⟩ := h.keep (x := (afterPop k processed retries d ((s.rings k).pop c).2).1) (by simp) u k' e n he hn
    refine ⟨y, hy, ?_⟩
    by_cases hk : k' = k
    · subst hk; simpa [State.goto, State.setRing, popped] using hget
    · simpa [State.goto, State.setRing, hk] using hget
  | checkPending t processed retries d ht => exact h.keep (by simp [drainAccount, Caller.account])
  | finish t x processed retries d ht => exact h.keep (by simp [drainAccount, Caller.account])
  | release t processed retries d ht => exact h.keep (by simp [drainAccount, Caller.account])
  | clear t processed retries d ht => exact h.keep (by simp [Caller.account])
  | recheck t processed retries d ht => exact h.keep (by simp [Caller.account])
  | closeAdmission | waitPending | waitDrain => exact h

theorem held_of_reachable [Fintype T] (h : (system T κ).Reachable s) : HeldInv s := by
  refine Lts.System.invariant ?_ (fun _ _ hr hi hs => Step.held (inv_of_reachable hr) hi hs) h
  rintro _ rfl t k e n he
  cases he

/-- A submission that has returned is published. -/
theorem published_of_accepted [Fintype T] (h : (system T κ).Reachable s) {c : Submission κ}
    (hc : .returned c .accepted ∈ s.trace) {k : Kind} {n : Nat}
    (hn : ((s.rings k).reserved.map Prod.snd)[n]? = some c) : (s.rings k).Published n := by
  have hh := history_of_reachable h
  obtain ⟨p, -, hr⟩ := (inv_of_reachable h).rings k
  have hlt : n < (s.rings k).box.enqueuePosition := by
    rw [← hr.length_reserved, ← List.length_map (f := Prod.snd)]
    exact (List.getElem?_eq_some_iff.1 hn).1
  by_contra hunpublished
  obtain ⟨t, e, he, hpos⟩ := hr.exists_position hlt hunpublished
  obtain ⟨x, hx, hget⟩ := held_of_reachable h t k e n he hpos
  obtain rfl : x = c := by
    rw [List.getElem?_map, hget] at hn
    exact Option.some.inj hn
  -- `c` would be both on its way and returned
  have hnodup : (pushedOf s.trace : Multiset (Submission κ)).Nodup := Multiset.coe_nodup.2 (hh.nodup_pushed.of_map _)
  rw [← hh.waiting] at hnodup
  have hwaits : x ∈ total (fun y => (y.account.pushed : Multiset (Submission κ))) s.threads :=
    Multiset.mem_sum.2 ⟨t, Finset.mem_univ t, Multiset.mem_coe.2 hx⟩
  exact Multiset.disjoint_left.1 (Multiset.nodup_add.1 hnodup).2.2 hwaits (Multiset.mem_coe.2 ((mem_acceptedOf _).2 hc))

end Held

/-! ### The normal mailbox is looked at second -/

section Normal
variable {T κ : Type} [Fintype T] [DecidableEq T] {s s' : State T κ}

/-- A drain is in `TryPop` of the normal mailbox. -/
def State.PopsNormal (s : State T κ) : Prop := ∃ t, (s.threads t).account.popping .normal ≠ none

omit [Fintype T] in
theorem popsNormal_update {t : T} {x : Thread κ} (hx : x.account.popping .normal = none)
    (h : ∃ u, (Function.update s.threads t x u).account.popping .normal ≠ none) : s.PopsNormal := by
  obtain ⟨u, hu⟩ := h
  by_cases hut : u = t
  · subst hut
    rw [Function.update_self] at hu
    exact absurd hx hu
  · rw [Function.update_of_ne hut] at hu
    exact ⟨u, hu⟩

/-- A drain goes on to the normal mailbox only when it has found no published command in the priority mailbox. -/
theorem Step.popsNormal (hi : Inv s)
    (hhead : (s.rings .priority).Published (s.rings .priority).box.dequeuePosition) (hs : Step s s')
    (h : s'.PopsNormal) : s.PopsNormal := by
  cases hs with
  | call t | handlerCall t | announce t => exact popsNormal_update (by simp [Caller.account]) h
  | admission t x c ht =>
    refine popsNormal_update (t := t) ?_ h
    dsimp only
    split_ifs <;> simp [pushAccount, Caller.account]
  | push t spurious e x c ht => exact popsNormal_update (by simp [pushAccount, Caller.account]) h
  | reject t status x c ht => exact popsNormal_update (by simp [Caller.account]) h
  | exchange t c ht => refine popsNormal_update (t := t) ?_ h; split_ifs <;> simp [Caller.account]
  | post t c ht => exact popsNormal_update (by simp [Caller.account]) h
  | postRefused t c ht => exact popsNormal_update (by simp [drainAccount]) h
  | startTask t ht htasks => exact popsNormal_update (by simp [drainAccount]) h
  | pop t k c processed retries d ht =>
    cases k with
    | normal => exact ⟨t, by simp [ht, drainAccount]⟩
    | priority =>
      refine popsNormal_update (t := t) ?_ h
      have hc := hi.ok t
      rw [ht] at hc
      obtain ⟨p, hp, hr⟩ := hi.rings .priority
      obtain rfl : some c = p := by
        have := hp.agree t
        rw [ht] at this
        simpa [drainAccount] using this
      have hne := hr.pop_ne_none hhead hc
      generalize ((s.rings .priority).pop c).2 = out at hne
      cases out with
      | returned x =>
        cases x with
        | none => exact absurd rfl hne
        | some x => simp [afterPop, drainAccount]
      | _ => simp [afterPop, drainAccount]
  | checkPending t processed retries d ht => exact popsNormal_update (by simp [drainAccount]) h
  | finish t x processed retries d ht => exact popsNormal_update (by simp [drainAccount]) h
  | release t processed retries d ht => exact popsNormal_update (by simp [drainAccount]) h
  | clear t processed retries d ht => exact popsNormal_update (by simp [Caller.account]) h
  | recheck t processed retries d ht => exact popsNormal_update (by simp [Caller.account]) h
  | closeAdmission | waitPending | waitDrain => exact h

/-- A drain that starts a normal command leaves the normal mailbox, and no other drain is in it. -/
theorem Step.starts_normal (hi : Inv s) (hs : Step s s')
    (h : (s'.rings .normal).popped ≠ (s.rings .normal).popped) : s.PopsNormal ∧ ¬ s'.PopsNormal := by
  cases hs with
  | push t spurious e x c ht =>
    refine absurd ?_ h
    show ((s.setRing x.kind _).rings .normal).popped = _
    cases hk : x.kind <;> simp [State.setRing]
  | pop t k c processed retries d ht =>
    cases k with
    | priority => exact absurd rfl h
    | normal =>
      have hc := hi.ok t
      rw [ht] at hc
      rcases (s.rings .normal).pop_cases hc with ⟨hp, -⟩ | ⟨n, x, rfl, -, hx⟩
      · exact absurd hp h
      · obtain ⟨v, rfl, -⟩ := hi.rings.advance ht
        have halone := hi.flag.alone (t := t) (by rw [ht]; exact Nat.succ_pos _)
        refine ⟨⟨t, by simp [ht, drainAccount]⟩, ?_⟩
        rw [hx]
        rintro ⟨u, hu⟩
        by_cases hut : u = t
        · subst hut
          simp [State.goto, afterPop, drainAccount] at hu
        · simp only [State.goto, State.setRing, Function.update_of_ne hut] at hu
          exact hu (halone u hut .normal)
  | _ => exact absurd rfl h

theorem Step.published (hi : Inv s) (hs : Step s s') {k : Kind} {n : Nat} (h : (s.rings k).Published n) :
    (s'.rings k).Published n := by
  cases hs with
  | push t spurious e x c ht =>
    show Ring.Published ((s.setRing x.kind _).rings k) n
    by_cases hk : k = x.kind
    · subst hk
      have hok := hi.ok t
      rw [ht] at hok
      obtain ⟨p, -, hr⟩ := hi.rings x.kind
      have hprod : (s.threads t).account.producing x.kind = some e := by
        cases e with
        | returned b => exact absurd rfl (hok.2 b)
        | _ => rw [ht]; simp [pushAccount, Emplace.underway]
      simp only [State.setRing, Function.update_self]
      exact Nat.lt_of_lt_of_le h (hr.sequence_le_emplace hprod spurious n)
    · simp only [State.setRing, Function.update_of_ne hk]
      exact h
  | pop t k' c processed retries d ht =>
    show Ring.Published ((s.setRing k' _).rings k) n
    by_cases hk : k = k'
    · subst hk
      obtain ⟨p, hp, hr⟩ := hi.rings k
      obtain rfl : some c = p := by
        have := hp.agree t
        rw [ht] at this
        simpa [drainAccount] using this
      simp only [State.setRing, Function.update_self]
      exact Nat.lt_of_lt_of_le h (hr.sequence_le_pop n)
    · simp only [State.setRing, Function.update_of_ne hk]
      exact h
  | _ => exact h

end Normal

/-! ### Overtaking -/

section Overtaking
variable {T κ : Type} [Fintype T] [DecidableEq T] {s s' : State T κ} {c : Submission κ}

/-- In the priority mailbox, `c` and everything reserved before it is published. -/
def Ahead (c : Submission κ) (s : State T κ) : Prop :=
  ∃ m, ((s.rings .priority).reserved.map Prod.snd)[m]? = some c ∧ ∀ n ≤ m, (s.rings .priority).Published n

theorem Ahead.step (h : Ahead c s) (hi : Inv s) {ev : List (Event κ)} (hm : Move s s' ev)
    (hs : Step s s') : Ahead c s' := by
  obtain ⟨m, hget, hpub⟩ := h
  refine ⟨m, ?_, fun n hn => hs.published hi (hpub n hn)⟩
  rw [hm.reserved, List.getElem?_append_left (List.getElem?_eq_some_iff.1 hget).1]
  exact hget

omit [DecidableEq T] in
/-- Until `c` is started, the head of the priority mailbox is published. -/
theorem Ahead.head (h : Ahead c s) (hi : Inv s) (hh : History s) (hc : .started c ∉ s.trace) :
    (s.rings .priority).Published (s.rings .priority).box.dequeuePosition := by
  obtain ⟨m, hget, hpub⟩ := h
  obtain ⟨p, -, hr⟩ := hi.rings .priority
  refine hpub _ ?_
  by_contra hlt
  refine hc ((mem_startedOf _).1 ?_)
  have hpopped : some c ∈ (s.rings .priority).popped := by
    rw [hr.popped_eq, List.map_take, ← Function.comp_def some Prod.snd, ← List.map_map, ← List.map_take]
    refine List.mem_map_of_mem (List.mem_of_getElem? (i := m) ?_)
    rw [List.getElem?_take_of_lt (by omega)]
    exact hget
  rw [hh.popped] at hpopped
  obtain ⟨x, hx, hxc⟩ := List.mem_map.1 hpopped
  exact Option.some.inj hxc ▸ (List.mem_filter.1 hx).1

def normalStarts (ev : List (Event κ)) : Nat := ((startedOf ev).filter (·.kind = .normal)).length

theorem normalStarts_append (ev ev' : List (Event κ)) :
    normalStarts (ev ++ ev') = normalStarts ev + normalStarts ev' := by
  simp [normalStarts]

/-- The run from a state in which `c` is ahead: as long as `c` is not handled, at most one normal command is started,
and none is left to start after that. -/
theorem Ahead.run (hreach : (system T κ).Reachable s) (h : Ahead c s) (hrun : (system T κ).Run s s') :
    Ahead c s' ∧ ∃ ev, s'.trace = s.trace ++ ev ∧ (.finished c ∉ s'.trace → normalStarts ev ≤ 1 ∧
      (.started c ∉ s'.trace → normalStarts ev = 0 ∨ ¬ s'.PopsNormal)) := by
  induction hrun with
  | refl => exact ⟨h, [], by simp, fun _ => ⟨Nat.zero_le 1, fun _ => .inl rfl⟩⟩
  | @tail s₁ s₂ hrun hs ih =>
    obtain ⟨hahead, ev, htrace, hbound⟩ := ih
    have hreach₁ := hreach.run hrun
    have hi := inv_of_reachable hreach₁
    have hh := history_of_reachable hreach₁
    obtain ⟨ev', hm⟩ := Step.move hi (fun k x hx => hh.kind_eq hx) hs
    have hgrows : s₁.trace ⊆ s₂.trace := by rw [hm.trace]; exact List.subset_append_left _ _
    refine ⟨hahead.step hi hm hs, ev ++ ev', by rw [hm.trace, htrace, List.append_assoc], fun hfin => ?_⟩
    obtain ⟨hone, hnone⟩ := hbound fun hmem => hfin (hgrows hmem)
    rw [normalStarts_append]
    by_cases hzero : normalStarts ev' = 0
    · refine ⟨by omega, fun hstart => ?_⟩
      have hstart₁ : .started c ∉ s₁.trace := fun hmem => hstart (hgrows hmem)
      rw [hzero, Nat.add_zero]
      exact (hnone hstart₁).imp_right fun hpops hpops' =>
        hpops (Step.popsNormal hi (hahead.head hi hh hstart₁) hs hpops')
    · have hpopped : (s₂.rings .normal).popped ≠ (s₁.rings .normal).popped := by
        intro heq
        have hlen := congrArg List.length (hm.popped .normal)
        rw [heq, List.length_append, List.length_map] at hlen
        exact hzero (by unfold normalStarts; omega)
      obtain ⟨hpops, hpops'⟩ := Step.starts_normal hi hs hpopped
      obtain ⟨x, rfl⟩ : ∃ x, ev' = [.started x] := by
        have hsingle := hm.single
        match ev', hzero, hsingle with
        | [.started x], _, _ => exact ⟨x, rfl⟩
        | [], hzero, _ | [.called _], hzero, _ | [.pushed _], hzero, _ | [.returned _ _], hzero, _
        | [.finished _], hzero, _ => exact absurd rfl hzero
        | _ :: _ :: _, _, hsingle => simp at hsingle
      have hstart₁ : .started c ∉ s₁.trace := fun hmem =>
        hfin (hgrows (hm.finished_of_started hh (inv_of_reachable (hreach₁.step hs)) hmem))
      have hle : normalStarts [Event.started x] ≤ 1 := List.length_filter_le _ [x]
      rcases hnone hstart₁ with hev | hpops₁
      · exact ⟨by omega, fun _ => .inr hpops'⟩
      · exact absurd hpops hpops₁

/-- What a priority command can rely on. -/
structure PriorityFirst (s : State T κ) : Prop where
  /-- Priority commands are started in the order of their positions. -/
  order : (startedOf s.trace).filter (·.kind = .priority) <+: (s.rings .priority).reserved.map Prod.snd
  /-- And one is handled before the next one is started. -/
  serial : ∀ a b, List.Sublist [Event.started a, .started b] s.trace →
    List.Sublist [Event.finished a, .started b] s.trace
  /-- From here on, at most one normal command is started before `c` is handled. -/
  overtakes : ∀ c, c.kind = .priority → .returned c .accepted ∈ s.trace →
    (∀ m n, ((s.rings .priority).reserved.map Prod.snd)[m]? = some c → n < m → (s.rings .priority).Published n) →
    ∀ s', (system T κ).Run s s' → ∃ ev, s'.trace = s.trace ++ ev ∧ (.finished c ∉ s'.trace → normalStarts ev ≤ 1)

theorem priorityFirst_of_reachable (h : (system T κ).Reachable s) : PriorityFirst s := by
  have hi := inv_of_reachable h
  have hh := history_of_reachable h
  refine ⟨?_, hh.serial, fun c hkind hacc hearlier s' hrun => ?_⟩
  · obtain ⟨n, hn⟩ := hh.started_eq_take hi .priority
    rw [hn, hh.reserved]
    exact List.take_prefix _ _
  · have hmem : c ∈ (s.rings .priority).reserved.map Prod.snd := by
      rw [hh.reserved]
      exact List.mem_filter.2 ⟨hh.pushed_of_accepted hacc, by simp [hkind]⟩
    obtain ⟨m, hget⟩ := List.mem_iff_getElem?.1 hmem
    have hahead : Ahead c s := by
      refine ⟨m, hget, fun n hn => ?_⟩
      rcases Nat.lt_or_eq_of_le hn with hlt | rfl
      · exact hearlier m n hget hlt
      · exact published_of_accepted h hacc hget
    obtain ⟨-, ev, htrace, hbound⟩ := hahead.run h hrun
    exact ⟨ev, htrace, fun hfin => (hbound hfin).1⟩

/-- The priority command is accepted while a drain is on its way through the normal mailbox: one normal command is
still started before it. -/
theorem priorityFirst_in_between :
    ∃ s s' : State (Fin 3) Nat, PriorityFirst s ∧ .returned ⟨1, .priority, 8⟩ .accepted ∈ s.trace ∧
      (system (Fin 3) Nat).Run s s' ∧ s'.trace = s.trace ++ [.started ⟨0, .normal, 7⟩] := by
  have h : (system (Fin 3) Nat).Reachable _ := .init rfl
  replace h := h.step (.call 0 .normal 7 rfl)
  replace h := h.step (.announce 0 _ _ rfl)
  replace h := h.step (.admission 0 _ _ rfl)
  replace h := h.step (.push 0 false _ _ _ rfl)
  replace h := h.step (.push 0 false _ _ _ rfl)
  replace h := h.step (.push 0 false _ _ _ rfl)
  replace h := h.step (.push 0 false _ _ _ rfl)
  replace h := h.step (.push 0 false _ _ _ rfl)
  replace h := h.step (.exchange 0 _ rfl)
  replace h := h.step (.post 0 _ rfl)
  replace h := h.step (.startTask 2 rfl (by decide))
  replace h := h.step (.pop 2 _ _ _ _ _ rfl)
  replace h := h.step (.pop 2 _ _ _ _ _ rfl)
  replace h := h.step (.call 1 .priority 8 rfl)
  replace h := h.step (.announce 1 _ _ rfl)
  replace h := h.step (.admission 1 _ _ rfl)
  replace h := h.step (.push 1 false _ _ _ rfl)
  replace h := h.step (.push 1 false _ _ _ rfl)
  replace h := h.step (.push 1 false _ _ _ rfl)
  replace h := h.step (.push 1 false _ _ _ rfl)
  replace h := h.step (.push 1 false _ _ _ rfl)
  replace h := h.step (.exchange 1 _ rfl)
  have stay : ∀ {s}, (system (Fin 3) Nat).Reachable s → (system (Fin 3) Nat).Run s s := fun _ => .refl
  have hrun := stay h
  replace hrun := hrun.tail (.pop 2 _ _ _ _ _ rfl)
  replace hrun := hrun.tail (.pop 2 _ _ _ _ _ rfl)
  replace hrun := hrun.tail (.pop 2 _ _ _ _ _ rfl)
  replace hrun := hrun.tail (.pop 2 _ _ _ _ _ rfl)
  replace hrun := hrun.tail (.pop 2 _ _ _ _ _ rfl)
  exact ⟨_, _, priorityFirst_of_reachable h, List.mem_of_elem_eq_true rfl, hrun, rfl⟩

end Overtaking

end Scheduler
end IdtxCore
