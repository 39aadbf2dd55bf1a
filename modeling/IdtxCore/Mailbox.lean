import Mathlib.Logic.Function.Basic
import Mathlib.Data.Nat.Bitwise
import IdtxCore.Lib.Lts

/-!
# `BoundedMpscMailbox`: the ring, `TryEmplace` and `TryPop`

`BoundedMpscMailbox.h`. A call of `TryEmplace` or `TryPop` is a sequence of atomic steps; the
locals of a call and the place it has reached are an `Emplace` or a `Pop` value, and
`Emplace.step` / `Pop.step` run one atomic step against the shared ring. Atomics are sequentially
consistent and positions are unbounded.

`Ring` adds two history variables to the ring: who reserved which position with which value, and
what the completed pops returned. `Mailbox.system` interleaves any number of producers with one
consumer.
-/

namespace IdtxCore

/-- A capacity that satisfies `ValidMailboxCapacity`: at least two and with a single bit set. -/
structure Capacity where
  val : Nat
  two_le : 2 ≤ val
  single_bit : ∃ k, val = 2 ^ k

namespace Capacity
variable (cap : Capacity)

theorem pos : 0 < cap.val := Nat.lt_of_lt_of_le Nat.two_pos cap.two_le

/-- Masking with `kIndexMask = Capacity - 1` is the remainder modulo the capacity. -/
theorem and_mask (position : Nat) : position &&& (cap.val - 1) = position % cap.val := by
  obtain ⟨k, hk⟩ := cap.single_bit
  rw [hk, Nat.and_two_pow_sub_one_eq_mod]

/-- The slot of a position: `position & kIndexMask`. -/
def index (position : Nat) : Fin cap.val :=
  ⟨position &&& (cap.val - 1), by rw [and_mask]; exact Nat.mod_lt _ cap.pos⟩

variable {cap}

theorem index_eq_iff {m n : Nat} : cap.index m = cap.index n ↔ m % cap.val = n % cap.val := by
  simp [index, Fin.ext_iff, and_mask]

theorem index_add (n : Nat) : cap.index (n + cap.val) = cap.index n := by
  simp [index_eq_iff]

/-- Two positions of one generation window share a slot only if they are equal. -/
theorem index_inj {r m n : Nat} (hm : r ≤ m) (hm' : m < r + cap.val) (hn : r ≤ n)
    (hn' : n < r + cap.val) (h : cap.index m = cap.index n) : m = n := by
  rw [index_eq_iff] at h
  have hdiv := Nat.div_add_mod m cap.val
  have hdiv' := Nat.div_add_mod n cap.val
  rw [h] at hdiv
  rcases lt_trichotomy (m / cap.val) (n / cap.val) with hlt | heq | hlt
  · have := Nat.mul_le_mul_left cap.val hlt
    rw [Nat.mul_succ] at this; omega
  · rw [heq] at hdiv; omega
  · have := Nat.mul_le_mul_left cap.val hlt
    rw [Nat.mul_succ] at this; omega

/-- Every slot is used by a position of the window from `r` on. -/
theorem exists_window (cap : Capacity) (r n : Nat) :
    ∃ n', cap.index n' = cap.index n ∧ r ≤ n' ∧ n' < r + cap.val := by
  refine ⟨r + (n + cap.val * r - r) % cap.val, ?_, Nat.le_add_right _ _,
    Nat.add_lt_add_left (Nat.mod_lt _ cap.pos) _⟩
  have hmul : r ≤ cap.val * r := Nat.le_mul_of_pos_left _ cap.pos
  rw [index_eq_iff, Nat.add_mod_mod, Nat.add_sub_cancel' (by omega), Nat.add_mul_mod_self_left]

end Capacity

/-- One ring-buffer slot. `storage` is `some v` while it holds a constructed value. -/
structure Slot (α : Type) where
  sequence : Nat
  storage : Option α
  deriving DecidableEq, Repr

structure Mailbox (α : Type) (cap : Capacity) where
  slots : Fin cap.val → Slot α
  enqueuePosition : Nat
  dequeuePosition : Nat

namespace Mailbox
variable {α : Type} {cap : Capacity}

/-- The constructor: each slot gets the sequence value of its first enqueue position. -/
def new : Mailbox α cap where
  slots i := ⟨i, none⟩
  enqueuePosition := 0
  dequeuePosition := 0

/-- `slots_[position & kIndexMask]`. -/
def slot (m : Mailbox α cap) (position : Nat) : Slot α := m.slots (cap.index position)

def setSlot (m : Mailbox α cap) (position : Nat) (x : Slot α) : Mailbox α cap :=
  { m with slots := Function.update m.slots (cap.index position) x }

@[simp] theorem setSlot_enqueuePosition (m : Mailbox α cap) (n : Nat) (x : Slot α) :
    (m.setSlot n x).enqueuePosition = m.enqueuePosition := rfl

@[simp] theorem setSlot_dequeuePosition (m : Mailbox α cap) (n : Nat) (x : Slot α) :
    (m.setSlot n x).dequeuePosition = m.dequeuePosition := rfl

@[simp] theorem slot_setSlot_self (m : Mailbox α cap) (n : Nat) (x : Slot α) :
    (m.setSlot n x).slot n = x := by simp [setSlot, slot]

theorem slot_setSlot_ne (m : Mailbox α cap) {n n' : Nat} (x : Slot α)
    (h : cap.index n' ≠ cap.index n) : (m.setSlot n x).slot n' = m.slot n' := by
  simp [setSlot, slot, Function.update_of_ne h]

end Mailbox

/-- Where a call of `TryEmplace` stands, with its locals. -/
inductive Emplace (α : Type) where
  /-- about to load `enqueue_position_` -/
  | loadPosition (value : α)
  /-- about to load the sequence of the slot of `position` and compare -/
  | loadSequence (value : α) (position : Nat)
  /-- the difference was zero: about to compare-exchange `enqueue_position_` -/
  | compareExchange (value : α) (position : Nat)
  /-- `position` is reserved: about to construct the value in the slot -/
  | construct (value : α) (position : Nat)
  /-- about to store `position + 1` into the sequence -/
  | publish (position : Nat)
  | returned (result : Bool)
  deriving DecidableEq, Repr

/-- One atomic step of `TryEmplace`; `spurious` lets `compare_exchange_weak` fail for no reason. -/
def Emplace.step {α : Type} {cap : Capacity} (spurious : Bool) (m : Mailbox α cap) :
    Emplace α → Mailbox α cap × Emplace α
  | .loadPosition value => (m, .loadSequence value m.enqueuePosition)
  | .loadSequence value position =>
    let difference : Int := ((m.slot position).sequence : Int) - position
    if difference = 0 then (m, .compareExchange value position)
    else if difference < 0 then (m, .returned false)
    else (m, .loadPosition value)
  | .compareExchange value position =>
    if m.enqueuePosition = position ∧ spurious = false then
      ({ m with enqueuePosition := position + 1 }, .construct value position)
    else (m, .loadSequence value m.enqueuePosition)
  | .construct value position =>
    (m.setSlot position { m.slot position with storage := some value }, .publish position)
  | .publish position =>
    (m.setSlot position { m.slot position with sequence := position + 1 }, .returned true)
  | .returned result => (m, .returned result)

/-- Where a call of `TryPop` stands, with its locals. A value that was moved out is `some v`;
`none` would be a read of storage that holds no value. -/
inductive Pop (α : Type) where
  /-- about to load `dequeue_position_` -/
  | loadPosition
  /-- about to load the sequence of the slot of `position` and compare -/
  | loadSequence (position : Nat)
  /-- the difference was zero: about to move the value out and destroy it -/
  | moveOut (position : Nat)
  /-- about to store `position + Capacity` into the sequence -/
  | release (position : Nat) (value : Option α)
  /-- about to store `position + 1` into `dequeue_position_` -/
  | advance (position : Nat) (value : Option α)
  | returned (result : Option α)
  deriving DecidableEq, Repr

/-- One atomic step of `TryPop`. -/
def Pop.step {α : Type} {cap : Capacity} (m : Mailbox α cap) : Pop α → Mailbox α cap × Pop α
  | .loadPosition => (m, .loadSequence m.dequeuePosition)
  | .loadSequence position =>
    let difference : Int := ((m.slot position).sequence : Int) - (position + 1 : Nat)
    if difference ≠ 0 then (m, .returned none) else (m, .moveOut position)
  | .moveOut position =>
    (m.setSlot position { m.slot position with storage := none },
      .release position (m.slot position).storage)
  | .release position value =>
    (m.setSlot position { m.slot position with sequence := position + cap.val },
      .advance position value)
  | .advance position value => ({ m with dequeuePosition := position + 1 }, .returned value)
  | .returned result => (m, .returned result)

/-- The mailbox with its history: `reserved` lists the producer and the value of every reserved
position, in order of position; `popped` lists what the completed `TryPop`s moved out. -/
structure Ring (P α : Type) (cap : Capacity) where
  box : Mailbox α cap
  reserved : List (P × α)
  popped : List (Option α)

namespace Ring
variable {P α : Type} {cap : Capacity}

def new : Ring P α cap := ⟨.new, [], []⟩

/-- A step of `TryEmplace` by producer `p`. The history grows when the compare-exchange succeeds. -/
def emplace (r : Ring P α cap) (p : P) (spurious : Bool) (e : Emplace α) :
    Ring P α cap × Emplace α :=
  let (box, e') := e.step spurious r.box
  match e, e' with
  | .compareExchange value _, .construct .. => (⟨box, r.reserved ++ [(p, value)], r.popped⟩, e')
  | _, _ => ({ r with box }, e')

/-- A step of `TryPop`. The history grows when the position advances. -/
def pop (r : Ring P α cap) (c : Pop α) : Ring P α cap × Pop α :=
  let (box, c') := c.step r.box
  match c with
  | .advance _ value => (⟨box, r.reserved, r.popped ++ [value]⟩, c')
  | _ => ({ r with box }, c')

end Ring

/-- Any number of producers and one consumer on one mailbox; `none` is "not in a call". -/
structure MailboxState (P α : Type) (cap : Capacity) where
  ring : Ring P α cap
  producer : P → Option (Emplace α)
  consumer : Option (Pop α)

namespace Mailbox
variable {P α : Type} [DecidableEq P] {cap : Capacity}

/-- The atomic actions of the producers and the consumer. -/
inductive Step : MailboxState P α cap → MailboxState P α cap → Prop where
  | call {s : MailboxState P α cap} (p : P) (value : α) (h : s.producer p = none) :
      Step s { s with producer := Function.update s.producer p (some (.loadPosition value)) }
  | emplace {s : MailboxState P α cap} (p : P) (spurious : Bool) (e : Emplace α)
      (h : s.producer p = some e) :
      Step s { s with
        ring := (s.ring.emplace p spurious e).1
        producer := Function.update s.producer p (some (s.ring.emplace p spurious e).2) }
  | return {s : MailboxState P α cap} (p : P) (result : Bool)
      (h : s.producer p = some (.returned result)) :
      Step s { s with producer := Function.update s.producer p none }
  | callPop {s : MailboxState P α cap} (h : s.consumer = none) :
      Step s { s with consumer := some .loadPosition }
  | pop {s : MailboxState P α cap} (c : Pop α) (h : s.consumer = some c) :
      Step s { s with ring := (s.ring.pop c).1, consumer := some (s.ring.pop c).2 }
  | returnPop {s : MailboxState P α cap} (result : Option α)
      (h : s.consumer = some (.returned result)) :
      Step s { s with consumer := none }

def system (P α : Type) [DecidableEq P] (cap : Capacity) : Lts.System (MailboxState P α cap) where
  init s := s = ⟨.new, fun _ => none, none⟩
  step := Step

end Mailbox
end IdtxCore
