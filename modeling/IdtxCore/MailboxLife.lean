import IdtxCore.MailboxFifo
import Mathlib.Data.List.Nodup

/-!
# The values of a mailbox from their construction to their destruction

`DestroyRemaining` is the loop of `TryPop` without a result, so one iteration keeps the sequence invariant
(`Inv.destroyIteration`): the loop goes through the published positions one by one and finds the next slot unpublished
when the last one is done. `Life` counts the constructor and destructor calls on the slots over a run. A value is
constructed by the owner of its position (`Life.Inv.mem_constructed`) and destroyed by the consumer when it passes
(`Life.Inv.destroyed`), or at the end.
-/

namespace IdtxCore

/-- Whose atomic step is next. -/
inductive Act (P α : Type) where
  | call (p : P) (value : α)
  | emplace (p : P) (spurious : Bool)
  | return (p : P)
  | callPop
  | pop
  | returnPop
  deriving DecidableEq

namespace MailboxState
variable {P α : Type} [DecidableEq P] {cap : Capacity}

def new : MailboxState P α cap := ⟨.new, fun _ => none, none⟩

/-- The steps of `Mailbox.Step` as a function. -/
def act (s : MailboxState P α cap) : Act P α → Option (MailboxState P α cap)
  | .call p value =>
    match s.producer p with
    | none => some { s with producer := Function.update s.producer p (some (.loadPosition value)) }
    | some _ => none
  | .emplace p spurious =>
    (s.producer p).map fun e => { s with
      ring := (s.ring.emplace p spurious e).1
      producer := Function.update s.producer p (some (s.ring.emplace p spurious e).2) }
  | .return p =>
    match s.producer p with
    | some (.returned _) => some { s with producer := Function.update s.producer p none }
    | _ => none
  | .callPop =>
    match s.consumer with
    | none => some { s with consumer := some .loadPosition }
    | some _ => none
  | .pop => s.consumer.map fun c => { s with ring := (s.ring.pop c).1, consumer := some (s.ring.pop c).2 }
  | .returnPop =>
    match s.consumer with
    | some (.returned _) => some { s with consumer := none }
    | _ => none

def run (acts : List (Act P α)) : Option (MailboxState P α cap) := Lts.exec act new acts

variable {s s' : MailboxState P α cap} {acts : List (Act P α)} {a : Act P α} {p : P}

/-! ### The steps as a function -/

theorem act_call {value : α} : s.act (.call p value) = some s' ↔
    s.producer p = none ∧
      s' = { s with producer := Function.update s.producer p (some (.loadPosition value)) } := by
  cases hp : s.producer p with
  | none => simp [act, hp, eq_comm]
  | some e => simp [act, hp]

theorem act_emplace {spurious : Bool} : s.act (.emplace p spurious) = some s' ↔
    ∃ e, s.producer p = some e ∧ s' = { s with
      ring := (s.ring.emplace p spurious e).1
      producer := Function.update s.producer p (some (s.ring.emplace p spurious e).2) } := by
  simp [act, eq_comm]

theorem act_return : s.act (.return p) = some s' ↔
    (∃ result, s.producer p = some (.returned result)) ∧
      s' = { s with producer := Function.update s.producer p none } := by
  rcases hp : s.producer p with _ | e
  · simp [act, hp]
  · cases e <;> simp [act, hp, eq_comm]

theorem act_callPop : s.act .callPop = some s' ↔
    s.consumer = none ∧ s' = { s with consumer := some .loadPosition } := by
  cases hc : s.consumer with
  | none => simp [act, hc, eq_comm]
  | some c => simp [act, hc]

theorem act_pop : s.act .pop = some s' ↔
    ∃ c, s.consumer = some c ∧
      s' = { s with ring := (s.ring.pop c).1, consumer := some (s.ring.pop c).2 } := by
  simp [act, eq_comm]

theorem act_returnPop : s.act .returnPop = some s' ↔
    (∃ result, s.consumer = some (.returned result)) ∧ s' = { s with consumer := none } := by
  rcases hc : s.consumer with _ | c
  · simp [act, hc]
  · cases c <;> simp [act, hc, eq_comm]

theorem step_iff_act : Mailbox.Step s s' ↔ ∃ a, s.act a = some s' := by
  constructor
  · intro h
    cases h with
    | call p value h => exact ⟨.call p value, act_call.2 ⟨h, rfl⟩⟩
    | emplace p spurious e h => exact ⟨.emplace p spurious, act_emplace.2 ⟨e, h, rfl⟩⟩
    | «return» p result h => exact ⟨.return p, act_return.2 ⟨⟨result, h⟩, rfl⟩⟩
    | callPop h => exact ⟨.callPop, act_callPop.2 ⟨h, rfl⟩⟩
    | pop c h => exact ⟨.pop, act_pop.2 ⟨c, h, rfl⟩⟩
    | returnPop result h => exact ⟨.returnPop, act_returnPop.2 ⟨⟨result, h⟩, rfl⟩⟩
  · rintro ⟨a, h⟩
    cases a with
    | call p value =>
      obtain ⟨hp, rfl⟩ := act_call.1 h
      exact .call p value hp
    | emplace p spurious =>
      obtain ⟨e, hp, rfl⟩ := act_emplace.1 h
      exact .emplace p spurious e hp
    | «return» p =>
      obtain ⟨⟨result, hp⟩, rfl⟩ := act_return.1 h
      exact .return p result hp
    | callPop =>
      obtain ⟨hc, rfl⟩ := act_callPop.1 h
      exact .callPop hc
    | pop =>
      obtain ⟨c, hc, rfl⟩ := act_pop.1 h
      exact .pop c hc
    | returnPop =>
      obtain ⟨⟨result, hc⟩, rfl⟩ := act_returnPop.1 h
      exact .returnPop result hc

theorem reachable_iff_run : (Mailbox.system P α cap).Reachable s ↔ ∃ acts, run acts = some s := by
  constructor
  · intro h
    induction h with
    | init h => exact ⟨[], congrArg some h.symm⟩
    | step _ hs ih =>
      obtain ⟨acts, hacts⟩ := ih
      obtain ⟨a, ha⟩ := step_iff_act.1 hs
      exact ⟨acts ++ [a], by rw [run, Lts.exec_concat, ← run, hacts]; exact ha⟩
  · rintro ⟨acts, h⟩
    exact Lts.exec_invariant (.init rfl) (fun t a t' ht ha => ht.step (step_iff_act.2 ⟨a, ha⟩)) h

end MailboxState

/-! ### `DestroyRemaining` -/

namespace Mailbox
variable {α : Type} {cap : Capacity}

/-- One round of the loop of `DestroyRemaining`: `none` when it returns, otherwise the mailbox after the round and what
it destroyed at which position. -/
def destroyIteration (m : Mailbox α cap) : Option (Mailbox α cap × Nat × Option α) :=
  let position := m.dequeuePosition
  let difference : Int := ((m.slot position).sequence : Int) - (position + 1 : Nat)
  if difference ≠ 0 then none
  else
    let value := (m.slot position).storage
    let m := m.setSlot position { m.slot position with storage := none }
    let m := m.setSlot position { m.slot position with sequence := position + cap.val }
    some ({ m with dequeuePosition := position + 1 }, position, value)

/-- `DestroyRemaining`: the mailbox it leaves and what it destroyed, in order; `none` if it has not returned by its
`rounds`-th look at a slot. -/
def destroyRemaining : Nat → Mailbox α cap → Option (Mailbox α cap × List (Nat × Option α))
  | 0, _ => none
  | rounds + 1, m =>
    match m.destroyIteration with
    | none => some (m, [])
    | some (m', x) => (destroyRemaining rounds m').map fun (m'', destroyed) => (m'', x :: destroyed)

/-- The published values that have not been consumed, with their positions. -/
def unconsumed (m : Mailbox α cap) : List (Nat × Option α) :=
  ((List.range' m.dequeuePosition (m.enqueuePosition - m.dequeuePosition)).filter fun n =>
    (m.slot n).sequence == n + 1).map fun n => (n, (m.slot n).storage)

end Mailbox

namespace Ring
variable {P α : Type} {cap : Capacity} {r : Ring P α cap} {producer : P → Option (Emplace α)}
  {consumer : Option (Pop α)}

/-- The value of every reserved position. -/
def values (r : Ring P α cap) : List (Nat × Option α) := r.reserved.mapIdx fun n x => (n, some x.2)

theorem values_getElem? {n : Nat} {p : P} {v : α} (h : r.reserved[n]? = some (p, v)) :
    r.values[n]? = some (n, some v) := by simp [values, h]

theorem map_fst_values (r : Ring P α cap) : r.values.map Prod.fst = List.range r.reserved.length := by
  refine List.ext_getElem (by simp [values]) fun n hn hn' => ?_
  simp [values]

theorem mem_values {n : Nat} {x : Option α} :
    (n, x) ∈ r.values ↔ ∃ p v, r.reserved[n]? = some (p, v) ∧ x = some v := by
  rw [values, List.mem_mapIdx]
  constructor
  · rintro ⟨m, hm, heq⟩
    obtain ⟨rfl, rfl⟩ := Prod.mk.inj heq
    exact ⟨_, _, List.getElem?_eq_getElem hm, rfl⟩
  · rintro ⟨p, v, hres, rfl⟩
    obtain ⟨hlt, hget⟩ := List.getElem?_eq_some_iff.1 hres
    exact ⟨n, hlt, by rw [hget]⟩

namespace Inv

theorem length_values (h : r.Inv producer consumer) : r.values.length = r.box.enqueuePosition := by
  simp [values, h.length_reserved]

/-- Without an operation under way a reserved and unconsumed position is published. -/
theorem published_of_idle (h : r.Inv producer none) (hp : ∀ p, producer p = none) {n : Nat}
    (hn : r.box.dequeuePosition ≤ n) (hn' : n < r.box.enqueuePosition) :
    ∃ p v, r.reserved[n]? = some (p, v) ∧ r.box.slot n = ⟨n + 1, some v⟩ := by
  obtain ⟨p, v, hres⟩ := h.reserved_of_lt hn'
  refine ⟨p, v, hres, ?_⟩
  cases h.live n p v hn hres with
  | reserved _ hq => rw [hp] at hq; cases hq
  | constructed _ hq => rw [hp] at hq; cases hq
  | published hs => exact hs
  | taken _ hc => cases hc

/-- A round of `DestroyRemaining` does what a successful `TryPop` does. -/
theorem destroyIteration (h : r.Inv producer none) {box : Mailbox α cap} {x : Nat × Option α}
    (hx : r.box.destroyIteration = some (box, x)) :
    Inv ⟨box, r.reserved, r.popped ++ [x.2]⟩ producer none := by
  simp only [Mailbox.destroyIteration] at hx
  split_ifs at hx with hd
  obtain ⟨rfl, rfl⟩ := Prod.mk.inj (Option.some.inj hx)
  have hcall : r.Inv producer (some .loadPosition) :=
    h.setConsumer rfl (by simp) fun c hc => Option.some.inj hc ▸ trivial
  have hload : r.Inv producer (some (.loadSequence r.box.dequeuePosition)) := hcall.popStep
  have hseq : (r.box.slot r.box.dequeuePosition).sequence = r.box.dequeuePosition + 1 := by omega
  have hpop : r.Inv producer (some (.moveOut r.box.dequeuePosition)) := by
    simpa [Ring.pop, Pop.step, hseq] using hload.popStep
  exact hpop.moveOut.release.advance.setConsumer rfl (by simp) (by simp)

/-- The loop goes on exactly while there is an unconsumed position. -/
theorem destroyIteration_eq (h : r.Inv producer none) (hp : ∀ p, producer p = none) :
    r.box.destroyIteration = none ∧ r.box.dequeuePosition = r.box.enqueuePosition ∨
      ∃ box p v, r.reserved[r.box.dequeuePosition]? = some (p, v) ∧
        r.box.destroyIteration = some (box, r.box.dequeuePosition, some v) ∧
        box.dequeuePosition = r.box.dequeuePosition + 1 ∧
        r.box.dequeuePosition < r.box.enqueuePosition := by
  have hbehind : r.box.dequeuePosition ≤ r.box.enqueuePosition := h.behind
  rcases Nat.eq_or_lt_of_le hbehind with heq | hlt
  · have hcap := cap.pos
    have hslot := h.free r.box.dequeuePosition (Nat.le_of_eq heq.symm) (by simp only [released]; omega)
    exact .inl ⟨by simp [Mailbox.destroyIteration, hslot], heq⟩
  · obtain ⟨p, v, hres, hslot⟩ := h.published_of_idle hp (Nat.le_refl _) hlt
    exact .inr ⟨_, p, v, hres, by simp [Mailbox.destroyIteration, hslot]; rfl, rfl, hlt⟩

/-- The unconsumed values are those of the reserved positions from `dequeue_position_` on. -/
theorem unconsumed_eq (h : r.Inv producer none) (hp : ∀ p, producer p = none) :
    r.box.unconsumed = r.values.drop r.box.dequeuePosition := by
  have hall : ∀ n ∈ List.range' r.box.dequeuePosition (r.box.enqueuePosition - r.box.dequeuePosition),
      ((r.box.slot n).sequence == n + 1) = true := by
    intro n hn
    obtain ⟨hle, hlt⟩ := List.mem_range'_1.1 hn
    obtain ⟨p, v, -, hslot⟩ := h.published_of_idle hp hle (by omega)
    simp [hslot]
  rw [Mailbox.unconsumed, List.filter_eq_self.2 hall]
  refine List.ext_getElem? fun j => ?_
  rw [List.getElem?_drop, List.getElem?_map]
  by_cases hj : r.box.dequeuePosition + j < r.box.enqueuePosition
  · obtain ⟨p, v, hres, hslot⟩ := h.published_of_idle hp (Nat.le_add_right _ j) hj
    rw [values_getElem? hres, List.getElem?_range' (by omega)]
    simp [hslot]
  · rw [List.getElem?_eq_none (by simp; omega), List.getElem?_eq_none (by rw [h.length_values]; omega)]
    rfl

/-- With `k` unconsumed values the loop makes `k` rounds and returns at its next look. -/
theorem destroyRemaining_eq (h : r.Inv producer none) (hp : ∀ p, producer p = none) :
    ∃ box, (∀ n, (box.slot n).storage = none) ∧ ∀ rounds, r.box.destroyRemaining rounds =
      if r.box.enqueuePosition - r.box.dequeuePosition < rounds then
        some (box, r.values.drop r.box.dequeuePosition) else none := by
  induction hk : r.box.enqueuePosition - r.box.dequeuePosition generalizing r with
  | zero =>
    obtain ⟨hx, heq⟩ | ⟨_, _, _, _, _, _, hlt⟩ := h.destroyIteration_eq hp
    · refine ⟨r.box, fun n => ?_, fun rounds => ?_⟩
      · obtain ⟨m, hidx, hle, hlt⟩ := cap.exists_window r.box.enqueuePosition n
        have hslot := h.free m hle (by rw [← heq] at hlt; exact hlt)
        rw [Mailbox.slot, ← hidx, ← Mailbox.slot, hslot]
      · have hnil : r.values.drop r.box.dequeuePosition = [] :=
          List.drop_eq_nil_of_le (by rw [h.length_values, heq])
        cases rounds with
        | zero => rfl
        | succ rounds => rw [Mailbox.destroyRemaining, hx, hnil, if_pos (Nat.succ_pos _)]
    · omega
  | succ k ih =>
    obtain ⟨_, heq⟩ | ⟨box', p, v, hres, hx, hdeq, hlt⟩ := h.destroyIteration_eq hp
    · omega
    · have h' := h.destroyIteration hx
      have henq : box'.enqueuePosition = r.box.enqueuePosition :=
        h'.length_reserved.symm.trans h.length_reserved
      obtain ⟨box, hempty, hbox⟩ := ih h' (by rw [henq, hdeq]; omega)
      have hcons : r.values.drop r.box.dequeuePosition =
          (r.box.dequeuePosition, some v) :: r.values.drop (r.box.dequeuePosition + 1) := by
        obtain ⟨hlen, hget⟩ := List.getElem?_eq_some_iff.1 (values_getElem? hres)
        rw [List.drop_eq_getElem_cons hlen, hget]
      refine ⟨box, hempty, fun rounds => ?_⟩
      cases rounds with
      | zero => rfl
      | succ rounds =>
        have hrest : box'.destroyRemaining rounds =
            if k < rounds then some (box, r.values.drop box'.dequeuePosition) else none := hbox rounds
        rw [Mailbox.destroyRemaining, hx, hcons]
        simp only [hrest, hdeq, Nat.add_lt_add_iff_right]
        split_ifs <;> rfl

end Inv
end Ring

/-! ### Constructor and destructor calls over a run -/

namespace Ring
variable {P α : Type} {cap : Capacity} {r : Ring P α cap}

/-- What a step of `TryEmplace` does to the reservations and the constructions. -/
theorem emplace_constructs (p : P) (spurious : Bool) (e : Emplace α) :
    (∃ v n, e = .compareExchange v n ∧ r.box.enqueuePosition = n ∧
      (r.emplace p spurious e).1.reserved = r.reserved ++ [(p, v)] ∧
      (r.emplace p spurious e).2 = .construct v n) ∨
    (∃ v n, e = .construct v n ∧ (r.emplace p spurious e).1.reserved = r.reserved ∧
      (r.emplace p spurious e).2 = .publish n) ∨
    (∀ v n, e ≠ .construct v n) ∧ (r.emplace p spurious e).1.reserved = r.reserved ∧
      ∀ v n, (r.emplace p spurious e).2 ≠ .construct v n := by
  cases e with
  | compareExchange v n =>
    by_cases hcas : r.box.enqueuePosition = n ∧ spurious = false
    · refine .inl ⟨v, n, rfl, hcas.1, ?_⟩
      simp [Ring.emplace, Emplace.step, hcas]
    · refine .inr (.inr ?_)
      simp [Ring.emplace, Emplace.step, hcas]
  | construct v n => exact .inr (.inl ⟨v, n, rfl, rfl, rfl⟩)
  | loadSequence v n =>
    refine .inr (.inr ?_)
    simp only [Ring.emplace, Emplace.step]
    split_ifs <;> simp
  | loadPosition v | publish n | returned b =>
    exact .inr (.inr ⟨by simp, rfl, by simp [Ring.emplace, Emplace.step]⟩)

theorem emplace_dequeuePosition (p : P) (spurious : Bool) (e : Emplace α) :
    (r.emplace p spurious e).1.box.dequeuePosition = r.box.dequeuePosition := by
  cases e with
  | loadSequence v n | compareExchange v n =>
    simp only [Ring.emplace, Emplace.step]
    split_ifs <;> rfl
  | loadPosition v | construct v n | publish n | returned b => rfl

/-- The values of the positions that are reserved already stay. -/
theorem take_values_emplace {k : Nat} (hk : k ≤ r.reserved.length) (p : P) (spurious : Bool) (e : Emplace α) :
    (r.emplace p spurious e).1.values.take k = r.values.take k := by
  rcases r.emplace_constructs p spurious e with ⟨v, n, -, -, hres, -⟩ | ⟨v, n, -, hres, -⟩ | ⟨-, hres, -⟩
  · rw [values, hres, List.mapIdx_append, List.take_append_of_le_length (by simpa using hk), ← values]
  · rw [values, hres, ← values]
  · rw [values, hres, ← values]

/-- The value of position `n` has been constructed: its owner is past the placement. -/
def Constructed (r : Ring P α cap) (producer : P → Option (Emplace α)) (n : Nat) (v : α) : Prop :=
  ∃ p, r.reserved[n]? = some (p, v) ∧ producer p ≠ some (.construct v n)

namespace Constructed
variable [DecidableEq P] {r' : Ring P α cap} {producer : P → Option (Emplace α)} {consumer : Option (Pop α)}
  {p : P} {n m : Nat} {v w : α}

/-- Moving a producer that is not about to construct, and will not be, changes nothing. -/
theorem move {x : Option (Emplace α)} (hres : r'.reserved = r.reserved)
    (hp : ∀ w m, producer p ≠ some (.construct w m)) (hx : ∀ w m, x ≠ some (.construct w m)) :
    r'.Constructed (Function.update producer p x) n v ↔ r.Constructed producer n v := by
  have hprod : ∀ q, Function.update producer p x q = some (.construct v n) ↔
      producer q = some (.construct v n) := by
    intro q
    by_cases hq : q = p
    · subst hq
      rw [Function.update_self]
      exact ⟨fun h => absurd h (hx v n), fun h => absurd h (hp v n)⟩
    · rw [Function.update_of_ne hq]
  simp only [Constructed, hres, ne_eq, hprod]

theorem reserve (hres : r'.reserved = r.reserved ++ [(p, w)]) (hm : r.reserved.length = m)
    (hp : producer p = some (.compareExchange w m)) :
    r'.Constructed (Function.update producer p (some (.construct w m))) n v ↔ r.Constructed producer n v := by
  simp only [Constructed, hres]
  constructor
  · rintro ⟨q, hget, hq⟩
    rcases Nat.lt_trichotomy n m with hlt | rfl | hlt
    · refine ⟨q, by rwa [List.getElem?_append_left (by omega)] at hget, fun hq' => hq ?_⟩
      have hne : q ≠ p := by rintro rfl; rw [hp] at hq'; cases hq'
      rwa [Function.update_of_ne hne]
    · obtain ⟨rfl, rfl⟩ : p = q ∧ w = v := by simpa [← hm] using hget
      exact absurd (Function.update_self ..) hq
    · rw [List.getElem?_eq_none (by simp; omega)] at hget
      cases hget
  · rintro ⟨q, hget, hq⟩
    have hlt := (List.getElem?_eq_some_iff.1 hget).1
    refine ⟨q, by rwa [List.getElem?_append_left hlt], fun hq' => ?_⟩
    by_cases hqp : q = p
    · subst hqp
      rw [Function.update_self] at hq'
      cases hq'
      omega
    · rw [Function.update_of_ne hqp] at hq'
      exact hq hq'

theorem construct (hres : r'.reserved = r.reserved) (hm : r.reserved[m]? = some (p, w))
    (hp : producer p = some (.construct w m)) :
    r'.Constructed (Function.update producer p (some (.publish m))) n v ↔
      r.Constructed producer n v ∨ n = m ∧ v = w := by
  simp only [Constructed, hres]
  constructor
  · rintro ⟨q, hget, hq⟩
    by_cases heq : producer q = some (.construct v n)
    · right
      by_cases hqp : q = p
      · subst hqp
        rw [hp] at heq
        cases heq
        exact ⟨rfl, rfl⟩
      · rw [Function.update_of_ne hqp] at hq
        exact absurd heq hq
    · exact .inl ⟨q, hget, heq⟩
  · rintro (⟨q, hget, hq⟩ | ⟨rfl, rfl⟩)
    · refine ⟨q, hget, fun hq' => ?_⟩
      by_cases hqp : q = p
      · subst hqp
        rw [Function.update_self] at hq'
        cases hq'
      · rw [Function.update_of_ne hqp] at hq'
        exact hq hq'
    · exact ⟨p, hm, by simp⟩

end Constructed

end Ring

namespace MailboxState
variable {P α : Type} [DecidableEq P] {cap : Capacity}

/-- The constructor call of a step on the storage of a slot, with the position it is for. -/
def constructs (s : MailboxState P α cap) : Act P α → List (Nat × α)
  | .emplace p _ =>
    match s.producer p with
    | some (.construct value position) => [(position, value)]
    | _ => []
  | _ => []

/-- The destructor call of a step, with what the storage held. -/
def destroys (s : MailboxState P α cap) : Act P α → List (Nat × Option α)
  | .pop =>
    match s.consumer with
    | some (.moveOut position) => [(position, (s.ring.box.slot position).storage)]
    | _ => []
  | _ => []

/-- The number of positions whose value the consumer has moved out. -/
def movedOut (s : MailboxState P α cap) : Nat :=
  match s.consumer with
  | some (.release ..) | some (.advance ..) => s.ring.box.dequeuePosition + 1
  | _ => s.ring.box.dequeuePosition

variable {s s' : MailboxState P α cap} {a : Act P α} {n : Nat} {v : α}

def Constructed (s : MailboxState P α cap) : Nat → α → Prop := s.ring.Constructed s.producer

/-- A step adds the value it constructs, and no other. -/
theorem constructed_act (h : s.Inv) (ha : s.act a = some s') :
    s'.Constructed n v ↔ s.Constructed n v ∨ (n, v) ∈ s.constructs a := by
  cases a with
  | call p value =>
    obtain ⟨hp, rfl⟩ := act_call.1 ha
    refine (Ring.Constructed.move rfl ?_ ?_).trans ?_ <;> simp [hp, constructs, Constructed]
  | «return» p =>
    obtain ⟨⟨result, hp⟩, rfl⟩ := act_return.1 ha
    refine (Ring.Constructed.move rfl ?_ ?_).trans ?_ <;> simp [hp, constructs, Constructed]
  | callPop =>
    obtain ⟨hc, rfl⟩ := act_callPop.1 ha
    simp [constructs, Constructed]
  | pop =>
    obtain ⟨c, hc, rfl⟩ := act_pop.1 ha
    have hres : (s.ring.pop c).1.reserved = s.ring.reserved := by cases c <;> rfl
    simp [constructs, Constructed, Ring.Constructed, hres]
  | returnPop =>
    obtain ⟨⟨result, hc⟩, rfl⟩ := act_returnPop.1 ha
    simp [constructs, Constructed]
  | emplace p spurious =>
    obtain ⟨e, hp, rfl⟩ := act_emplace.1 ha
    obtain ⟨w, m, rfl, hm, hres, he⟩ | ⟨w, m, rfl, hres, he⟩ | ⟨hne, hres, he⟩ :=
      s.ring.emplace_constructs p spurious e
    · rw [he]
      refine (Ring.Constructed.reserve hres (h.length_reserved.trans hm) hp).trans ?_
      simp [constructs, hp, Constructed]
    · rw [he]
      obtain ⟨-, hget, -⟩ := h.emplace p _ hp
      refine (Ring.Constructed.construct hres hget hp).trans ?_
      simp [constructs, hp, Constructed]
    · refine (Ring.Constructed.move hres ?_ ?_).trans ?_
      · simpa [hp] using hne
      · simpa using he
      · cases e <;> simp_all [constructs, Constructed]

omit [DecidableEq P] in
/-- A value is constructed once: the position it is for belongs to the producer that constructs. -/
theorem not_constructed_of_mem (h : s.Inv) {w : α} (hx : (n, v) ∈ s.constructs a) : ¬s.Constructed n w := by
  rintro ⟨q, hget, hq⟩
  cases a with
  | emplace p spurious =>
    simp only [constructs] at hx
    split at hx
    · next v' n' hp =>
      obtain ⟨rfl, rfl⟩ := Prod.mk.inj (List.mem_singleton.1 hx)
      obtain ⟨-, hown, -⟩ := h.emplace p _ hp
      obtain ⟨rfl, rfl⟩ : p = q ∧ v = w := by simpa [hown] using hget
      exact hq hp
    · cases hx
  | call p value | «return» p | callPop | pop | returnPop => cases hx

omit [DecidableEq P] in
theorem nodup_constructs (s : MailboxState P α cap) (a : Act P α) : ((s.constructs a).map Prod.fst).Nodup := by
  cases a with
  | emplace p spurious =>
    simp only [constructs]
    split <;> simp
  | call p value | «return» p | callPop | pop | returnPop => exact List.nodup_nil

omit [DecidableEq P] in
theorem movedOut_le (h : s.Inv) : s.movedOut ≤ s.ring.reserved.length := by
  have hbehind := h.behind
  rw [h.length_reserved]
  cases hc : s.consumer with
  | none => simpa [movedOut, hc, Ring.released] using hbehind
  | some c =>
    cases c with
    | release n x =>
      obtain ⟨rfl, p, v, hres, -⟩ := h.pop _ hc
      have hlt := h.lt_of_reserved hres
      simp only [movedOut, hc]
      omega
    | loadPosition | loadSequence n | moveOut n | advance n x | returned x =>
      simpa [movedOut, hc, Ring.released] using hbehind

/-- A step destroys the value of the next position, or none. -/
theorem take_values_act (h : s.Inv) (ha : s.act a = some s') :
    s'.ring.values.take s'.movedOut = s.ring.values.take s.movedOut ++ s.destroys a := by
  cases a with
  | call p value =>
    obtain ⟨hp, rfl⟩ := act_call.1 ha
    exact (List.append_nil _).symm
  | «return» p =>
    obtain ⟨hp, rfl⟩ := act_return.1 ha
    exact (List.append_nil _).symm
  | callPop =>
    obtain ⟨hc, rfl⟩ := act_callPop.1 ha
    simp [destroys, movedOut, hc]
  | returnPop =>
    obtain ⟨⟨result, hc⟩, rfl⟩ := act_returnPop.1 ha
    simp [destroys, movedOut, hc]
  | emplace p spurious =>
    obtain ⟨e, hp, rfl⟩ := act_emplace.1 ha
    have hmoved : movedOut ⟨(s.ring.emplace p spurious e).1,
        Function.update s.producer p (some (s.ring.emplace p spurious e).2), s.consumer⟩ = s.movedOut := by
      simp only [movedOut, Ring.emplace_dequeuePosition]
    rw [hmoved, Ring.take_values_emplace (movedOut_le h)]
    exact (List.append_nil _).symm
  | pop =>
    obtain ⟨c, hc, rfl⟩ := act_pop.1 ha
    cases c with
    | loadPosition => simp [destroys, movedOut, hc, Ring.pop, Pop.step]
    | loadSequence n =>
      simp only [destroys, movedOut, hc, Ring.pop, Pop.step]
      split_ifs <;> simp [Ring.values]
    | moveOut n =>
      obtain ⟨rfl, p, v, hres, hslot⟩ := h.pop _ hc
      simp [destroys, movedOut, hc, Ring.pop, Pop.step, Ring.values, List.take_add_one, hres, hslot]
    | release n x => simp [destroys, movedOut, hc, Ring.pop, Pop.step, Ring.values]
    | advance n x =>
      obtain ⟨rfl, -⟩ := h.pop _ hc
      simp [destroys, movedOut, hc, Ring.pop, Pop.step, Ring.values]
    | returned x => simp [destroys, movedOut, hc, Ring.pop, Pop.step]

end MailboxState

/-- A mailbox with the constructor and destructor calls on its slots so far. -/
structure Life (P α : Type) (cap : Capacity) where
  state : MailboxState P α cap
  constructed : List (Nat × α)
  destroyed : List (Nat × Option α)

namespace Life
variable {P α : Type} [DecidableEq P] {cap : Capacity}

def act (life : Life P α cap) (a : Act P α) : Option (Life P α cap) :=
  (life.state.act a).map fun s =>
    ⟨s, life.constructed ++ life.state.constructs a, life.destroyed ++ life.state.destroys a⟩

def new : Life P α cap := ⟨.new, [], []⟩

def run (acts : List (Act P α)) : Option (Life P α cap) := Lts.exec act new acts

variable {life life' : Life P α cap} {a : Act P α} {acts : List (Act P α)}

/-- Counting the calls does not change the runs. -/
theorem run_state : MailboxState.run acts = (run acts).map (state : Life P α cap → MailboxState P α cap) := by
  refine Lts.exec_map (f := state) (s := new) fun life a => ?_
  simp [act, Function.comp_def]

structure Inv (life : Life P α cap) : Prop where
  state : life.state.Inv
  mem_constructed : ∀ n v, (n, v) ∈ life.constructed ↔ life.state.Constructed n v
  nodup : (life.constructed.map Prod.fst).Nodup
  destroyed : life.destroyed = life.state.ring.values.take life.state.movedOut

theorem Inv.act (h : life.Inv) (ha : life.act a = some life') : life'.Inv := by
  obtain ⟨s, hs, rfl⟩ := Option.map_eq_some_iff.1 ha
  refine ⟨Mailbox.Step.inv h.state (MailboxState.step_iff_act.2 ⟨a, hs⟩), fun n v => ?_, ?_, ?_⟩
  · rw [MailboxState.constructed_act h.state hs, List.mem_append, h.mem_constructed]
  · rw [List.map_append, List.nodup_append]
    refine ⟨h.nodup, MailboxState.nodup_constructs _ _, ?_⟩
    rintro n hn _ hn' rfl
    obtain ⟨⟨m, w⟩, hw, rfl⟩ := List.mem_map.1 hn
    obtain ⟨⟨_, v⟩, hv, rfl⟩ := List.mem_map.1 hn'
    exact MailboxState.not_constructed_of_mem h.state hv ((h.mem_constructed _ w).1 hw)
  · rw [MailboxState.take_values_act h.state hs, h.destroyed]

omit [DecidableEq P] in
theorem inv_new : (new : Life P α cap).Inv where
  state := Ring.inv_new
  mem_constructed n v := by simp [new, MailboxState.Constructed, Ring.Constructed, MailboxState.new, Ring.new]
  nodup := List.nodup_nil
  destroyed := rfl

theorem inv_of_run (h : run acts = some life) : life.Inv :=
  Lts.exec_invariant inv_new (fun _ _ _ hinv ha => hinv.act ha) h

end Life

/-! ### The end of a mailbox -/

/-- What `DestroyRemaining` does in state `s`. -/
structure DestroysRemaining {P α : Type} [DecidableEq P] {cap : Capacity} (s : MailboxState P α cap) : Prop where
  /-- It destroys the unconsumed values in order, one a round, and returns at the next look. -/
  rounds : ∃ box, (∀ n, (box.slot n).storage = none) ∧ ∀ rounds, s.ring.box.destroyRemaining rounds =
    if s.ring.box.unconsumed.length < rounds then some (box, s.ring.box.unconsumed) else none
  /-- No destructor runs on storage without a value. -/
  isSome : ∀ x ∈ s.ring.box.unconsumed, x.2.isSome
  /-- In any run up to `s`, what has been destroyed before and what is destroyed now are the values that have been
  constructed, each one once. -/
  once : ∀ acts (life : Life P α cap), Life.run acts = some life → life.state = s →
    (life.constructed.map Prod.fst).Nodup ∧
      (life.destroyed ++ s.ring.box.unconsumed).Perm (life.constructed.map fun x => (x.1, some x.2))
  run : ∃ acts life, Life.run acts = some life ∧ life.state = s

namespace Life
variable {P α : Type} [DecidableEq P] {cap : Capacity} {life : Life P α cap} {s : MailboxState P α cap}

omit [DecidableEq P] in
/-- Without an operation under way the destroyed and the unconsumed values are all that were constructed. -/
theorem Inv.perm (h : life.Inv) (hp : ∀ p, life.state.producer p = none) (hc : life.state.consumer = none) :
    (life.destroyed ++ life.state.ring.box.unconsumed).Perm (life.constructed.map fun x => (x.1, some x.2)) := by
  have hinv : life.state.ring.Inv life.state.producer none := hc ▸ h.state
  have hmoved : life.state.movedOut = life.state.ring.box.dequeuePosition := by
    simp [MailboxState.movedOut, hc]
  rw [h.destroyed, hmoved, hinv.unconsumed_eq hp, List.take_append_drop]
  refine (List.perm_ext_iff_of_nodup ?_ ?_).2 fun ⟨n, x⟩ => ?_
  · refine List.Nodup.of_map Prod.fst ?_
    rw [Ring.map_fst_values]
    exact List.nodup_range
  · refine List.Nodup.of_map Prod.fst ?_
    rw [List.map_map]
    exact h.nodup
  · simp only [Ring.mem_values, List.mem_map, Prod.mk.injEq, Prod.exists, h.mem_constructed]
    constructor
    · rintro ⟨p, v, hres, rfl⟩
      exact ⟨n, v, ⟨p, hres, by simp [hp]⟩, rfl, rfl⟩
    · rintro ⟨_, v, ⟨p, hres, -⟩, rfl, rfl⟩
      exact ⟨p, v, hres, rfl⟩

end Life

namespace Mailbox
variable {P α : Type} [DecidableEq P] {cap : Capacity} {s : MailboxState P α cap}

/-- Without an operation under way every reserved position is published, so the loop finds them all. -/
theorem destroysRemaining_of_reachable (h : (system P α cap).Reachable s)
    (hp : ∀ p, s.producer p = none) (hc : s.consumer = none) : DestroysRemaining s := by
  have hinv : s.ring.Inv s.producer none := hc ▸ inv_of_reachable h
  have hrest := hinv.unconsumed_eq hp
  have hlen : s.ring.box.unconsumed.length = s.ring.box.enqueuePosition - s.ring.box.dequeuePosition := by
    rw [hrest, List.length_drop, hinv.length_values]
  refine ⟨?_, ?_, ?_, ?_⟩
  · obtain ⟨box, hempty, hbox⟩ := hinv.destroyRemaining_eq hp
    exact ⟨box, hempty, fun rounds => by rw [hbox, hlen, hrest]⟩
  · rintro ⟨n, x⟩ hx
    rw [hrest] at hx
    obtain ⟨p, v, -, rfl⟩ := Ring.mem_values.1 (List.mem_of_mem_drop hx)
    rfl
  · rintro acts life hrun rfl
    have hlife := Life.inv_of_run hrun
    exact ⟨hlife.nodup, hlife.perm hp hc⟩
  · obtain ⟨acts, hrun⟩ := MailboxState.reachable_iff_run.1 h
    rw [Life.run_state] at hrun
    obtain ⟨life, hlife, rfl⟩ := Option.map_eq_some_iff.1 hrun
    exact ⟨acts, life, hlife, rfl⟩

/-- Two slots; the second of two values is left when the mailbox ends. -/
theorem destroysRemaining_two_slots :
    ∃ s : MailboxState Bool Nat ⟨2, by decide, 1, rfl⟩,
      s.ring.popped = [some 7] ∧ s.ring.box.unconsumed = [(1, some 8)] ∧ DestroysRemaining s := by
  have h : (system Bool Nat ⟨2, by decide, 1, rfl⟩).Reachable _ := .init rfl
  replace h := h.step (.call true 7 rfl)
  replace h := h.step (.emplace true false _ rfl)
  replace h := h.step (.emplace true false _ rfl)
  replace h := h.step (.call false 8 rfl)
  replace h := h.step (.emplace true false _ rfl)
  replace h := h.step (.emplace false false _ rfl)
  replace h := h.step (.emplace false false _ rfl)
  replace h := h.step (.emplace false false _ rfl)
  replace h := h.step (.emplace false false _ rfl)
  replace h := h.step (.emplace false false _ rfl)
  replace h := h.step (.return false true rfl)
  replace h := h.step (.emplace true false _ rfl)
  replace h := h.step (.emplace true false _ rfl)
  replace h := h.step (.return true true rfl)
  replace h := h.step (.callPop rfl)
  replace h := h.step (.pop _ rfl)
  replace h := h.step (.pop _ rfl)
  replace h := h.step (.pop _ rfl)
  replace h := h.step (.pop _ rfl)
  replace h := h.step (.pop _ rfl)
  replace h := h.step (.returnPop (some 7) rfl)
  exact ⟨_, rfl, rfl, destroysRemaining_of_reachable h (by decide) rfl⟩

end Mailbox
end IdtxCore
