import IdtxCore.Lib.Fifo
import IdtxCore.MailboxInv

/-!
# The mailbox refines a bounded FIFO queue

`MailboxState.abs` forgets the ring: the queue holds the reserved and unreleased positions with
"published" read off their sequences. A reservation is the successful compare-exchange, a
publication the release-store of `TryEmplace`, a pop the store that releases the slot; every other
atomic step is invisible (`Step.refines`).
-/

namespace IdtxCore

namespace Ring
variable {P α : Type} {cap : Capacity}

/-- Position `n` is published: its slot carries the sequence `n + 1`. -/
def published (r : Ring P α cap) (n : Nat) : Bool := (r.box.slot n).sequence == n + 1

/-- The queue the ring stands for, when `k` positions have been released. -/
def toQueue (r : Ring P α cap) (k : Nat) : Fifo.Queue α where
  entries := (r.reserved.drop k).mapIdx fun j x => (x.2, r.published (k + j))
  pushed := r.reserved.map Prod.snd
  popped := (r.reserved.take k).map Prod.snd

theorem toQueue_entries_getElem? (r : Ring P α cap) (k j : Nat) :
    (r.toQueue k).entries[j]? = r.reserved[k + j]?.map fun x => (x.2, r.published (k + j)) := by
  simp [toQueue]

/-- The queue depends on the sequences of the reserved, unreleased positions only. -/
theorem toQueue_congr {r r' : Ring P α cap} {k : Nat} (hres : r'.reserved = r.reserved)
    (hpub : ∀ n, k ≤ n → n < r.reserved.length → r'.published n = r.published n) :
    r'.toQueue k = r.toQueue k := by
  have he : (r'.toQueue k).entries = (r.toQueue k).entries := by
    refine List.ext_getElem? fun j => ?_
    rw [toQueue_entries_getElem?, toQueue_entries_getElem?, hres]
    by_cases hj : k + j < r.reserved.length
    · rw [hpub _ (Nat.le_add_right k j) hj]
    · rw [List.getElem?_eq_none (Nat.le_of_not_lt hj)]; rfl
  simp only [toQueue, hres] at he ⊢
  rw [he]

end Ring

namespace MailboxState
variable {P α : Type} {cap : Capacity}

def Inv (s : MailboxState P α cap) : Prop := s.ring.Inv s.producer s.consumer

def released (s : MailboxState P α cap) : Nat := s.ring.released s.consumer

def abs (s : MailboxState P α cap) : Fifo.Queue α := s.ring.toQueue s.released

end MailboxState

namespace Mailbox
variable {P α : Type} [DecidableEq P] {cap : Capacity} {s s' : MailboxState P α cap}

theorem Step.inv (h : s.Inv) (hs : Step s s') : s'.Inv := by
  cases hs with
  | call p v hp =>
    exact h.setProducer _ (by simp [hp]) (by simp [hp]) fun e he => Option.some.inj he ▸ trivial
  | emplace p spurious e hp => exact h.emplaceStep spurious hp
  | «return» p result hp => exact h.setProducer _ (by simp [hp]) (by simp [hp]) (by simp)
  | callPop hc =>
    have h : s.ring.Inv s.producer s.consumer := h
    rw [hc] at h
    exact h.setConsumer rfl (by simp) fun c hc => Option.some.inj hc ▸ trivial
  | pop c hc =>
    have h : s.ring.Inv s.producer s.consumer := h
    rw [hc] at h
    exact h.popStep
  | returnPop result hc =>
    have h : s.ring.Inv s.producer s.consumer := h
    rw [hc] at h
    exact h.setConsumer rfl (by simp) (by simp)

theorem inv_of_reachable (h : (system P α cap).Reachable s) : s.Inv := by
  refine Lts.System.invariant ?_ (fun _ _ _ hi hs => Step.inv hi hs) h
  rintro _ rfl
  exact Ring.inv_new

/-! ### Each step against the queue -/

omit [DecidableEq P] in
theorem reserve_refines {p : P} {v : α} {n : Nat} (h : s.Inv)
    (hp : s.producer p = some (.compareExchange v n)) (hn : s.ring.box.enqueuePosition = n) :
    Fifo.Step cap.val s.abs (Ring.toQueue ⟨{ s.ring.box with enqueuePosition := n + 1 },
      s.ring.reserved ++ [(p, v)], s.ring.popped⟩ s.released) := by
  have hlt : n < s.released + cap.val := (h.emplace p _ hp).2
  have hlen : s.ring.reserved.length = n := h.length_reserved.trans hn
  have hbehind : s.released ≤ n := hn ▸ h.behind
  have hslot : s.ring.box.slot n = ⟨n, none⟩ := h.free n (Nat.le_of_eq hn) hlt
  have hentries : s.abs.entries.length = n - s.released := by
    simp [MailboxState.abs, Ring.toQueue, hlen]
  have hfree : s.abs.entries.length < cap.val := by omega
  have hq : Ring.toQueue ⟨{ s.ring.box with enqueuePosition := n + 1 },
      s.ring.reserved ++ [(p, v)], s.ring.popped⟩ s.released =
      { s.abs with entries := s.abs.entries ++ [(v, false)], pushed := s.abs.pushed ++ [v] } := by
    have hpub : s.ring.published (s.released + (n - s.released)) = false := by
      simp [Ring.published, Nat.add_sub_cancel' hbehind, hslot]
    simp only [Ring.toQueue, MailboxState.abs, List.drop_append_of_le_length (hlen.symm ▸ hbehind),
      List.take_append_of_le_length (hlen.symm ▸ hbehind), List.mapIdx_append, List.map_append,
      List.mapIdx_cons, List.mapIdx_nil, List.length_drop, hlen, Nat.zero_add, List.map_cons,
      List.map_nil, Fifo.Queue.mk.injEq, and_true]
    show _ ++ [(v, s.ring.published (s.released + (n - s.released)))] = _
    rw [hpub]; rfl
  rw [hq]
  exact .reserve v hfree

omit [DecidableEq P] in
theorem publish_refines {p : P} {n : Nat} (h : s.Inv) (hp : s.producer p = some (.publish n)) :
    Fifo.Step cap.val s.abs (Ring.toQueue { s.ring with
      box := s.ring.box.setSlot n { s.ring.box.slot n with sequence := n + 1 } } s.released) := by
  obtain ⟨hn, v, hres, hslot⟩ := h.emplace p _ hp
  have hn : s.released ≤ n := hn
  have hlt := h.lt_of_reserved hres
  have hroom := h.room
  have hidx : s.released + (n - s.released) = n := Nat.add_sub_cancel' hn
  have hunpub : s.ring.published n = false := by simp [Ring.published, hslot]
  have hget : s.abs.entries[n - s.released]? = some (v, false) := by
    simp [MailboxState.abs, Ring.toQueue_entries_getElem?, hidx, hres, hunpub]
  set r' : Ring P α cap := { s.ring with
    box := s.ring.box.setSlot n { s.ring.box.slot n with sequence := n + 1 } } with hr'
  have hpub : ∀ m, s.released ≤ m → m < s.ring.reserved.length →
      r'.published m = if n = m then true else s.ring.published m := by
    intro m hm hm'
    rw [h.length_reserved] at hm'
    have hroom : s.ring.box.enqueuePosition ≤ s.released + cap.val := hroom
    split_ifs with hnm
    · subst hnm; simp [hr', Ring.published]
    · have hne : cap.index m ≠ cap.index n := fun hi =>
        hnm (Capacity.index_inj hn (by omega) hm (by omega) hi.symm)
      simp [hr', Ring.published, s.ring.box.slot_setSlot_ne _ hne]
  have hq : r'.toQueue s.released =
      { s.abs with entries := s.abs.entries.set (n - s.released) (v, true) } := by
    have he : (r'.toQueue s.released).entries = s.abs.entries.set (n - s.released) (v, true) := by
      refine List.ext_getElem? fun j => ?_
      rw [Ring.toQueue_entries_getElem?, List.getElem?_set]
      by_cases hj : s.released + j < s.ring.reserved.length
      · rw [hpub _ (Nat.le_add_right _ _) hj]
        by_cases hnj : n - s.released = j
        · have hnm : n = s.released + j := by omega
          have hres' : s.ring.reserved[s.released + j]? = some (p, v) := hnm ▸ hres
          have hlen : n - s.released < s.abs.entries.length :=
            (List.getElem?_eq_some_iff.1 hget).1
          simp [hnm, hr', hres', hnj ▸ hlen]
        · have hnm : n ≠ s.released + j := by omega
          rw [if_neg hnj, if_neg hnm, MailboxState.abs, Ring.toQueue_entries_getElem?]
      · have hnone : s.ring.reserved[s.released + j]? = none :=
          List.getElem?_eq_none (Nat.le_of_not_lt hj)
        have hnj : n - s.released ≠ j := by have := h.length_reserved; omega
        rw [if_neg hnj, MailboxState.abs, Ring.toQueue_entries_getElem?, hnone]
        simp [hr']
    simp only [← he]; rfl
  rw [hq]
  exact .publish _ v hget

omit [DecidableEq P] in
theorem release_refines {n : Nat} {x : Option α} (h : s.Inv)
    (hc : s.consumer = some (.release n x)) :
    Fifo.Step cap.val s.abs (Ring.toQueue { s.ring with
      box := s.ring.box.setSlot n { s.ring.box.slot n with sequence := n + cap.val } }
      (s.ring.box.dequeuePosition + 1)) := by
  obtain ⟨rfl, p, v, hres, -, hslot⟩ := h.pop _ hc
  have hlt := h.lt_of_reserved hres
  have hrel : s.released = s.ring.box.dequeuePosition := by
    simp [MailboxState.released, Ring.released, hc]
  have hroom : s.ring.box.enqueuePosition ≤ s.released + cap.val := h.room
  set n := s.ring.box.dequeuePosition
  set r' : Ring P α cap := { s.ring with
    box := s.ring.box.setSlot n { s.ring.box.slot n with sequence := n + cap.val } } with hr'
  have hcongr : r'.toQueue (n + 1) = s.ring.toQueue (n + 1) := by
    refine Ring.toQueue_congr rfl fun m hm hm' => ?_
    rw [h.length_reserved] at hm'
    have hcap := cap.pos
    have hne : cap.index m ≠ cap.index n := fun hi => by
      have := Capacity.index_inj (r := n) (by omega) (by omega) (Nat.le_refl n) (by omega) hi
      omega
    simp [hr', Ring.published, s.ring.box.slot_setSlot_ne _ hne]
  obtain ⟨hlen, hget⟩ := List.getElem?_eq_some_iff.1 hres
  have hhead : s.abs.entries = (v, true) :: (s.ring.toQueue (n + 1)).entries := by
    have hpub : s.ring.published n = true := by simp [Ring.published, hslot]
    simp only [MailboxState.abs, hrel, Ring.toQueue, List.drop_eq_getElem_cons hlen, hget,
      List.mapIdx_cons, Nat.add_zero, hpub]
    simp only [Nat.add_assoc, Nat.add_comm 1]
  have hq : s.ring.toQueue (n + 1) =
      { s.abs with entries := (s.ring.toQueue (n + 1)).entries, popped := s.abs.popped ++ [v] } := by
    simp [MailboxState.abs, hrel, Ring.toQueue, List.take_add_one, hres]
  rw [hcongr, hq]
  exact .pop v _ hhead

/-- Every atomic step is a step of the queue or leaves it as it is. -/
theorem Step.refines (h : s.Inv) (hs : Step s s') :
    s'.abs = s.abs ∨ Fifo.Step cap.val s.abs s'.abs := by
  have hstorage : ∀ (n : Nat) (x : Option α),
      Ring.toQueue { s.ring with
        box := s.ring.box.setSlot n { s.ring.box.slot n with storage := x } } s.released =
      s.abs := by
    intro n x
    refine Ring.toQueue_congr rfl fun m _ _ => ?_
    by_cases hi : cap.index m = cap.index n
    · simp [Ring.published, Mailbox.slot, Mailbox.setSlot, hi]
    · simp [Ring.published, s.ring.box.slot_setSlot_ne _ hi]
  cases hs with
  | call p v hp => exact .inl rfl
  | «return» p result hp => exact .inl rfl
  | emplace p spurious e hp =>
    cases e with
    | loadPosition v => exact .inl rfl
    | loadSequence v n =>
      left
      simp only [MailboxState.abs, MailboxState.released, Ring.emplace, Emplace.step]
      split_ifs <;> rfl
    | compareExchange v n =>
      by_cases hcas : s.ring.box.enqueuePosition = n ∧ spurious = false
      · right
        have hstep := reserve_refines h hp hcas.1
        simpa [MailboxState.abs, MailboxState.released, Ring.emplace, Emplace.step, hcas,
          Ring.released] using hstep
      · left
        simp [MailboxState.abs, MailboxState.released, Ring.emplace, Emplace.step, hcas]
    | construct v n => exact .inl (hstorage n (some v))
    | publish n => exact .inr (publish_refines h hp)
    | returned b => exact .inl rfl
  | callPop hc =>
    left; simp [MailboxState.abs, MailboxState.released, Ring.released, hc]
  | returnPop result hc =>
    left; simp [MailboxState.abs, MailboxState.released, Ring.released, hc]
  | pop c hc =>
    have hrel : ∀ c', s.ring.released (some c) = s.ring.released (some c') →
        s.ring.toQueue (s.ring.released (some c')) = s.abs := by
      intro c' heq
      rw [MailboxState.abs, MailboxState.released, hc, heq]
    cases c with
    | loadPosition => exact .inl (hrel _ rfl)
    | loadSequence n =>
      left
      simp only [MailboxState.abs, MailboxState.released, Ring.pop, Pop.step]
      split_ifs <;> exact hrel _ rfl
    | moveOut n =>
      left
      have := hstorage n none
      simp only [MailboxState.released, hc] at this
      exact this
    | release n x => exact .inr (release_refines h hc)
    | advance n x =>
      obtain ⟨rfl, -⟩ := h.pop _ hc
      left
      rw [MailboxState.abs, MailboxState.abs, MailboxState.released, MailboxState.released, hc]
      exact Ring.toQueue_congr rfl fun _ _ _ => rfl
    | returned x => exact .inl (hrel _ rfl)

/-! ### What the mailbox guarantees -/

/-- Where the value of a reserved position is: not yet constructed by its producer, in the slot, or
in the hands of the consumer. -/
inductive Holds (s : MailboxState P α cap) (n : Nat) (p : P) (v : α) : Prop where
  | producer : s.producer p = some (.construct v n) → Holds s n p v
  | slot : (s.ring.box.slot n).storage = some v → Holds s n p v
  | consumer : s.consumer = some (.release n (some v)) ∨ s.consumer = some (.advance n (some v)) →
      Holds s n p v

/-- The mailbox in state `s` behaves as the bounded queue `s.abs`. -/
structure RefinesFifo (s : MailboxState P α cap) : Prop where
  /-- The queue is one that a bounded queue can reach, and the next step keeps it so. -/
  queue : (Fifo.system α cap.val).Reachable s.abs
  step : ∀ s', Step s s' → s'.abs = s.abs ∨ Fifo.Step cap.val s.abs s'.abs
  /-- The `n`-th pop returned the value of the producer that reserved position `n`. -/
  popped : s.ring.popped = (s.ring.reserved.take s.ring.popped.length).map fun x => some x.2
  /-- A reserved value that has not been returned is still somewhere. -/
  kept : ∀ n p v, s.ring.reserved[n]? = some (p, v) →
    s.ring.popped[n]? = some (some v) ∨ Holds s n p v
  /-- What the consumer moves out has been constructed. -/
  constructed : ∀ n, s.consumer = some (.moveOut n) →
    ∃ p v, s.ring.reserved[n]? = some (p, v) ∧ (s.ring.box.slot n).storage = some v
  /-- A producer constructs into storage that holds no value. -/
  vacant : ∀ p v n, s.producer p = some (.construct v n) → (s.ring.box.slot n).storage = none
  /-- `TryEmplace` returns true when it publishes the value it has reserved a position for. -/
  returnedTrue : ∀ s' p, Step s s' → s.producer p ≠ some (.returned true) →
    s'.producer p = some (.returned true) →
    ∃ n v, s.ring.reserved[n]? = some (p, v) ∧ s'.ring.box.slot n = ⟨n + 1, some v⟩
  /-- `TryEmplace` returns false only when exactly `Capacity` positions are reserved and not
  released. -/
  returnedFalse : ∀ s' p, Step s s' → s.producer p ≠ some (.returned false) →
    s'.producer p = some (.returned false) → s.ring.reserved.length = s.released + cap.val

omit [DecidableEq P] in
theorem kept_of_inv (h : s.Inv) {n : Nat} {p : P} {v : α}
    (hres : s.ring.reserved[n]? = some (p, v)) :
    s.ring.popped[n]? = some (some v) ∨ Holds s n p v := by
  by_cases hlt : n < s.ring.box.dequeuePosition
  · left; rw [h.popped_eq]; simp [hlt, hres]
  right
  by_cases hrel : s.released ≤ n
  · cases h.live n p v hrel hres with
    | reserved _ hp => exact .producer hp
    | constructed hs _ => exact .slot (by rw [hs])
    | published hs => exact .slot (by rw [hs])
    | taken _ hc => exact .consumer (.inl hc)
  · -- the slot is released and the position not advanced
    obtain ⟨m, x, hc⟩ : ∃ m x, s.consumer = some (.advance m x) := by
      unfold MailboxState.released Ring.released at hrel
      split at hrel
      · exact ⟨_, _, by assumption⟩
      · omega
    obtain ⟨hm, q, w, hw, rfl⟩ := h.pop _ hc
    have hmn : m = n := by
      simp only [MailboxState.released, Ring.released, hc] at hrel; omega
    subst hmn
    obtain ⟨rfl, rfl⟩ : p = q ∧ v = w := by simpa [hres] using hw
    exact .consumer (.inr hc)

/-- The place of a producer changes only in its own steps. -/
theorem Step.producer_cases (hs : Step s s') {p : P} {b : Bool}
    (hne : s.producer p ≠ some (.returned b)) (hp : s'.producer p = some (.returned b)) :
    ∃ spurious e, s.producer p = some e ∧ s'.ring = (s.ring.emplace p spurious e).1 ∧
      (s.ring.emplace p spurious e).2 = .returned b := by
  have aux : ∀ {q : P} {x : Option (Emplace α)},
      Function.update s.producer q x p = some (.returned b) → q = p ∧ x = some (.returned b) := by
    intro q x hx
    by_cases hq : p = q
    · subst hq; rw [Function.update_self] at hx; exact ⟨rfl, hx⟩
    · rw [Function.update_of_ne hq] at hx; exact absurd hx hne
  cases hs with
  | call q v hq => cases (aux hp).2
  | emplace q spurious e hq =>
    obtain ⟨rfl, hx⟩ := aux hp
    exact ⟨spurious, e, hq, rfl, Option.some.inj hx⟩
  | «return» q result hq => cases (aux hp).2
  | callPop hc => exact absurd hp hne
  | pop c hc => exact absurd hp hne
  | returnPop result hc => exact absurd hp hne

theorem returnedTrue_of_inv (h : s.Inv) (hs : Step s s') {p : P}
    (hne : s.producer p ≠ some (.returned true)) (hp : s'.producer p = some (.returned true)) :
    ∃ n v, s.ring.reserved[n]? = some (p, v) ∧ s'.ring.box.slot n = ⟨n + 1, some v⟩ := by
  obtain ⟨spurious, e, he, hring, hret⟩ := hs.producer_cases hne hp
  cases e with
  | publish n =>
    obtain ⟨-, v, hres, hslot⟩ := h.emplace p _ he
    refine ⟨n, v, hres, ?_⟩
    rw [hring]; simp [Ring.emplace, Emplace.step, hslot]
  | returned b => exact absurd (he.trans (congrArg some hret)) hne
  | loadPosition v | construct v n => cases hret
  | loadSequence v n =>
    simp only [Ring.emplace, Emplace.step] at hret; split_ifs at hret; cases hret
  | compareExchange v n =>
    simp only [Ring.emplace, Emplace.step] at hret; split_ifs at hret

theorem returnedFalse_of_inv (h : s.Inv) (hs : Step s s') {p : P}
    (hne : s.producer p ≠ some (.returned false)) (hp : s'.producer p = some (.returned false)) :
    s.ring.reserved.length = s.released + cap.val := by
  obtain ⟨spurious, e, he, -, hret⟩ := hs.producer_cases hne hp
  cases e with
  | loadSequence v n =>
    have hn : n ≤ s.ring.box.enqueuePosition := h.emplace p _ he
    rw [h.length_reserved]
    refine h.full_of_sequence_lt hn ?_
    simp only [Ring.emplace, Emplace.step] at hret
    split_ifs at hret with h0 hneg
    omega
  | returned b => exact absurd (he.trans (congrArg some hret)) hne
  | loadPosition v | construct v n | publish n => cases hret
  | compareExchange v n =>
    simp only [Ring.emplace, Emplace.step] at hret; split_ifs at hret

/-- The queue of a reachable mailbox is reachable: `abs` is a forward simulation. -/
theorem abs_reachable (h : (system P α cap).Reachable s) :
    (Fifo.system α cap.val).Reachable s.abs := by
  obtain ⟨q, hq, rfl⟩ := h.simulate (T := Fifo.system α cap.val) (fun s q => s.abs = q)
    (by rintro _ rfl; exact ⟨_, rfl, rfl⟩) (by
      rintro s s' _ hr rfl hs
      exact ⟨_, rfl, Step.refines (inv_of_reachable hr) hs⟩)
  exact hq

theorem refinesFifo_of_reachable (h : (system P α cap).Reachable s) : RefinesFifo s := by
  have hi := inv_of_reachable h
  refine ⟨abs_reachable h, fun s' hs => hs.refines hi, ?_, fun n p v => kept_of_inv hi,
    fun n hc => ?_, fun p v n hp => ?_, fun s' p hs => returnedTrue_of_inv hi hs,
    fun s' p hs => returnedFalse_of_inv hi hs⟩
  · have hle : s.ring.box.dequeuePosition ≤ s.ring.reserved.length := by
      have hb := hi.behind
      rw [hi.length_reserved]
      unfold Ring.released at hb
      split at hb <;> omega
    have hlen : s.ring.popped.length = s.ring.box.dequeuePosition := by
      rw [hi.popped_eq]; simp [hle]
    rw [hlen]; exact hi.popped_eq
  · obtain ⟨-, p, v, hres, hslot⟩ := hi.pop _ hc
    exact ⟨p, v, hres, by rw [hslot]⟩
  · obtain ⟨-, -, hslot⟩ := hi.emplace p _ hp
    rw [hslot]

/-- A ring of two slots after one push and one pop, with a second push under way. -/
theorem refinesFifo_two_slots :
    ∃ s : MailboxState Bool Nat ⟨2, by decide, 1, rfl⟩,
      s.ring.popped = [some 7] ∧ s.ring.reserved = [(true, 7), (false, 8)] ∧
      s.producer false = some (.construct 8 1) ∧ RefinesFifo s := by
  have h : (system Bool Nat ⟨2, by decide, 1, rfl⟩).Reachable _ := .init rfl
  replace h := h.step (.call true 7 rfl)
  replace h := h.step (.emplace true false _ rfl)
  replace h := h.step (.emplace true false _ rfl)
  replace h := h.step (.emplace true false _ rfl)
  replace h := h.step (.emplace true false _ rfl)
  replace h := h.step (.emplace true false _ rfl)
  replace h := h.step (.call false 8 rfl)
  replace h := h.step (.emplace false false _ rfl)
  replace h := h.step (.callPop rfl)
  replace h := h.step (.pop _ rfl)
  replace h := h.step (.pop _ rfl)
  replace h := h.step (.emplace false false _ rfl)
  replace h := h.step (.pop _ rfl)
  replace h := h.step (.pop _ rfl)
  replace h := h.step (.emplace false false _ rfl)
  replace h := h.step (.pop _ rfl)
  exact ⟨_, rfl, rfl, rfl, refinesFifo_of_reachable h⟩

end Mailbox
end IdtxCore
