import IdtxCore.Lib.Serial
import IdtxCore.MailboxLife

/-!
# The mailbox with positions that wrap

`Wrapped` is the mailbox of `BoundedMpscMailbox.h` with positions and sequences of `w` bits. A run of it is the image of
a run with unbounded positions under `MailboxState.wrap` (`exec_wrap`) as long as no producer acts on a position that is
more than `2 ^ (w - 1)` minus the capacity reservations old. `Inv.sequence_bounds` says how far the sequence of a slot
and a position can be apart.
-/

namespace IdtxCore
namespace Wrapped

structure Slot (w : Nat) (α : Type) where
  sequence : BitVec w
  storage : Option α

structure Mailbox (w : Nat) (α : Type) (cap : Capacity) where
  slots : Fin cap.val → Slot w α
  enqueuePosition : BitVec w
  dequeuePosition : BitVec w

namespace Mailbox
variable {w : Nat} {α : Type} {cap : Capacity}

def new : Mailbox w α cap where
  slots i := ⟨.ofNat w i, none⟩
  enqueuePosition := 0
  dequeuePosition := 0

/-- `position & kIndexMask` -/
def index (position : BitVec w) : Fin cap.val :=
  ⟨(position &&& .ofNat w (cap.val - 1)).toNat, by
    have hmask : (BitVec.ofNat w (cap.val - 1)).toNat ≤ cap.val - 1 := by
      rw [BitVec.toNat_ofNat]; exact Nat.mod_le ..
    have hpos := cap.pos
    rw [BitVec.toNat_and]
    exact Nat.lt_of_le_of_lt (Nat.le_trans Nat.and_le_right hmask) (by omega)⟩

def slot (m : Mailbox w α cap) (position : BitVec w) : Slot w α := m.slots (index position)

def setSlot (m : Mailbox w α cap) (position : BitVec w) (x : Slot w α) : Mailbox w α cap :=
  { m with slots := Function.update m.slots (index position) x }

end Mailbox

/-- Where a call of `TryEmplace` stands. `loaded` is history: the number of reservations at the time the position was
loaded. -/
inductive Emplace (w : Nat) (α : Type) where
  | loadPosition (value : α)
  | loadSequence (value : α) (position : BitVec w) (loaded : Nat)
  | compareExchange (value : α) (position : BitVec w) (loaded : Nat)
  | construct (value : α) (position : BitVec w)
  | publish (position : BitVec w)
  | returned (result : Bool)

/-- When the position was loaded that the next step compares. -/
def Emplace.loaded {w : Nat} {α : Type} : Emplace w α → Option Nat
  | .loadSequence _ _ loaded | .compareExchange _ _ loaded => some loaded
  | .loadPosition _ | .construct .. | .publish _ | .returned _ => none

/-- One atomic step of `TryEmplace`, after `reservations` reservations. The conversions to `std::intptr_t` and the
subtraction are those of two's complement. -/
def Emplace.step {w : Nat} {α : Type} {cap : Capacity} (spurious : Bool) (reservations : Nat) (m : Mailbox w α cap) :
    Emplace w α → Mailbox w α cap × Emplace w α
  | .loadPosition value => (m, .loadSequence value m.enqueuePosition reservations)
  | .loadSequence value position loaded =>
    let difference := Serial.difference (m.slot position).sequence position
    if difference = 0 then (m, .compareExchange value position loaded)
    else if difference < 0 then (m, .returned false)
    else (m, .loadPosition value)
  | .compareExchange value position _ =>
    if m.enqueuePosition = position ∧ spurious = false then
      ({ m with enqueuePosition := position + 1 }, .construct value position)
    else (m, .loadSequence value m.enqueuePosition reservations)
  | .construct value position =>
    (m.setSlot position { m.slot position with storage := some value }, .publish position)
  | .publish position =>
    (m.setSlot position { m.slot position with sequence := position + 1 }, .returned true)
  | .returned result => (m, .returned result)

inductive Pop (w : Nat) (α : Type) where
  | loadPosition
  | loadSequence (position : BitVec w)
  | moveOut (position : BitVec w)
  | release (position : BitVec w) (value : Option α)
  | advance (position : BitVec w) (value : Option α)
  | returned (result : Option α)

/-- One atomic step of `TryPop`. -/
def Pop.step {w : Nat} {α : Type} {cap : Capacity} (m : Mailbox w α cap) : Pop w α → Mailbox w α cap × Pop w α
  | .loadPosition => (m, .loadSequence m.dequeuePosition)
  | .loadSequence position =>
    let difference := Serial.difference (m.slot position).sequence (position + 1)
    if difference ≠ 0 then (m, .returned none) else (m, .moveOut position)
  | .moveOut position =>
    (m.setSlot position { m.slot position with storage := none }, .release position (m.slot position).storage)
  | .release position value =>
    (m.setSlot position { m.slot position with sequence := position + .ofNat w cap.val }, .advance position value)
  | .advance position value => ({ m with dequeuePosition := position + 1 }, .returned value)
  | .returned result => (m, .returned result)

namespace Mailbox
variable {w : Nat} {α : Type} {cap : Capacity}

def destroyIteration (m : Mailbox w α cap) : Option (Mailbox w α cap × BitVec w × Option α) :=
  let position := m.dequeuePosition
  let difference := Serial.difference (m.slot position).sequence (position + 1)
  if difference ≠ 0 then none
  else
    let value := (m.slot position).storage
    let m := m.setSlot position { m.slot position with storage := none }
    let m := m.setSlot position { m.slot position with sequence := position + .ofNat w cap.val }
    some ({ m with dequeuePosition := position + 1 }, position, value)

def destroyRemaining : Nat → Mailbox w α cap → Option (Mailbox w α cap × List (BitVec w × Option α))
  | 0, _ => none
  | rounds + 1, m =>
    match m.destroyIteration with
    | none => some (m, [])
    | some (m', x) => (destroyRemaining rounds m').map fun (m'', destroyed) => (m'', x :: destroyed)

end Mailbox

structure Ring (w : Nat) (P α : Type) (cap : Capacity) where
  box : Mailbox w α cap
  reserved : List (P × α)
  popped : List (Option α)

namespace Ring
variable {w : Nat} {P α : Type} {cap : Capacity}

def emplace (r : Ring w P α cap) (p : P) (spurious : Bool) (e : Emplace w α) : Ring w P α cap × Emplace w α :=
  let (box, e') := e.step spurious r.reserved.length r.box
  match e, e' with
  | .compareExchange value .., .construct .. => (⟨box, r.reserved ++ [(p, value)], r.popped⟩, e')
  | _, _ => ({ r with box }, e')

def pop (r : Ring w P α cap) (c : Pop w α) : Ring w P α cap × Pop w α :=
  let (box, c') := c.step r.box
  match c with
  | .advance _ value => (⟨box, r.reserved, r.popped ++ [value]⟩, c')
  | _ => ({ r with box }, c')

end Ring

structure State (w : Nat) (P α : Type) (cap : Capacity) where
  ring : Ring w P α cap
  producer : P → Option (Emplace w α)
  consumer : Option (Pop w α)

namespace State
variable {w : Nat} {P α : Type} [DecidableEq P] {cap : Capacity}

def new : State w P α cap := ⟨⟨.new, [], []⟩, fun _ => none, none⟩

def act (t : State w P α cap) : Act P α → Option (State w P α cap)
  | .call p value =>
    match t.producer p with
    | none => some { t with producer := Function.update t.producer p (some (.loadPosition value)) }
    | some _ => none
  | .emplace p spurious =>
    (t.producer p).map fun e => { t with
      ring := (t.ring.emplace p spurious e).1
      producer := Function.update t.producer p (some (t.ring.emplace p spurious e).2) }
  | .return p =>
    match t.producer p with
    | some (.returned _) => some { t with producer := Function.update t.producer p none }
    | _ => none
  | .callPop =>
    match t.consumer with
    | none => some { t with consumer := some .loadPosition }
    | some _ => none
  | .pop => t.consumer.map fun c => { t with ring := (t.ring.pop c).1, consumer := some (t.ring.pop c).2 }
  | .returnPop =>
    match t.consumer with
    | some (.returned _) => some { t with consumer := none }
    | _ => none

def run (acts : List (Act P α)) : Option (State w P α cap) := Lts.exec act new acts

/-- The producer whose step is next does not act on a position more than `2 ^ (w - 1) - Capacity` reservations old. -/
def Timely (t : State w P α cap) : Act P α → Prop
  | .emplace p _ => ∀ loaded ∈ (t.producer p).bind Emplace.loaded,
    t.ring.reserved.length - loaded ≤ 2 ^ (w - 1) - cap.val
  | .call .. | .return _ | .callPop | .pop | .returnPop => True

/-- Every step of the run from `t` is timely. -/
def OnTime : List (Act P α) → State w P α cap → Prop
  | [], _ => True
  | a :: acts, t => t.Timely a ∧ ∀ t' ∈ t.act a, OnTime acts t'

instance (t : State w P α cap) : ∀ a : Act P α, Decidable (t.Timely a)
  | .emplace p _ => inferInstanceAs (Decidable (∀ loaded ∈ (t.producer p).bind Emplace.loaded,
    t.ring.reserved.length - loaded ≤ 2 ^ (w - 1) - cap.val))
  | .call .. | .return _ | .callPop | .pop | .returnPop => .isTrue trivial

instance decidableOnTime : ∀ (acts : List (Act P α)) (t : State w P α cap), Decidable (OnTime acts t)
  | [], _ => .isTrue trivial
  | a :: acts, t =>
    have (t' : State w P α cap) : Decidable (OnTime acts t') := decidableOnTime acts t'
    inferInstanceAs (Decidable (t.Timely a ∧ ∀ t' ∈ t.act a, OnTime acts t'))

theorem onTime_append {before after : List (Act P α)} {t : State w P α cap} :
    OnTime (before ++ after) t ↔ OnTime before t ∧ ∀ t' ∈ Lts.exec act t before, OnTime after t' := by
  induction before generalizing t with
  | nil => simp [OnTime]
  | cons a before ih =>
    rw [List.cons_append, OnTime, OnTime, Lts.exec_cons, and_assoc]
    cases t.act a with
    | none => simp
    | some t' => simp [ih]

end State
end Wrapped

/-! ### The image of an unbounded position -/

section Wrap
variable {P α : Type} {cap : Capacity} (w : Nat)

def Slot.wrap (x : Slot α) : Wrapped.Slot w α := ⟨.ofNat w x.sequence, x.storage⟩

def Mailbox.wrap (m : Mailbox α cap) : Wrapped.Mailbox w α cap :=
  ⟨fun i => (m.slots i).wrap w, .ofNat w m.enqueuePosition, .ofNat w m.dequeuePosition⟩

/-- A position is the number of reservations at the time it was loaded. -/
def Emplace.wrap : Emplace α → Wrapped.Emplace w α
  | .loadPosition value => .loadPosition value
  | .loadSequence value position => .loadSequence value (.ofNat w position) position
  | .compareExchange value position => .compareExchange value (.ofNat w position) position
  | .construct value position => .construct value (.ofNat w position)
  | .publish position => .publish (.ofNat w position)
  | .returned result => .returned result

def Pop.wrap : Pop α → Wrapped.Pop w α
  | .loadPosition => .loadPosition
  | .loadSequence position => .loadSequence (.ofNat w position)
  | .moveOut position => .moveOut (.ofNat w position)
  | .release position value => .release (.ofNat w position) value
  | .advance position value => .advance (.ofNat w position) value
  | .returned result => .returned result

def Ring.wrap (r : Ring P α cap) : Wrapped.Ring w P α cap := ⟨r.box.wrap w, r.reserved, r.popped⟩

def MailboxState.wrap (s : MailboxState P α cap) : Wrapped.State w P α cap where
  ring := s.ring.wrap w
  producer p := (s.producer p).map fun e => e.wrap w
  consumer := s.consumer.map fun c => c.wrap w

end Wrap

/-! ### Comparisons -/

section Comparisons
variable {P α : Type} {cap : Capacity} {w : Nat}

theorem Capacity.half_range (hcap : cap.val ≤ 2 ^ (w - 2)) : 2 ≤ w ∧ 2 * cap.val ≤ 2 ^ (w - 1) := by
  have htwo := cap.two_le
  have hw : 2 ≤ w := by
    by_contra hlt
    rw [Nat.sub_eq_zero_of_le (by omega)] at hcap
    omega
  obtain ⟨k, rfl⟩ := Nat.exists_eq_add_of_le' hw
  refine ⟨hw, ?_⟩
  rw [Nat.add_sub_cancel] at hcap
  show 2 * cap.val ≤ 2 ^ (k + 1)
  rw [Nat.pow_succ']
  omega

/-- The capacity divides the range of the positions, so the slot of a position survives the wrap. -/
theorem index_ofNat (hcap : cap.val ≤ 2 ^ (w - 2)) (n : Nat) :
    Wrapped.Mailbox.index (BitVec.ofNat w n) = cap.index n := by
  obtain ⟨k, hk⟩ := cap.single_bit
  have hle : k ≤ w := by
    rw [hk] at hcap
    exact Nat.le_trans ((Nat.pow_le_pow_iff_right (by decide)).1 hcap) (Nat.sub_le ..)
  refine Fin.ext ?_
  simp only [Wrapped.Mailbox.index, Capacity.index, hk]
  exact Serial.toNat_and_mask hle

theorem slot_wrap (hcap : cap.val ≤ 2 ^ (w - 2)) (m : Mailbox α cap) (n : Nat) :
    (m.wrap w).slot (.ofNat w n) = (m.slot n).wrap w := by
  rw [Wrapped.Mailbox.slot, index_ofNat hcap]
  rfl

theorem setSlot_wrap (hcap : cap.val ≤ 2 ^ (w - 2)) (m : Mailbox α cap) (n : Nat) (x : Slot α) :
    (m.wrap w).setSlot (.ofNat w n) (x.wrap w) = (m.setSlot n x).wrap w := by
  have hslots : Function.update (m.wrap w).slots (cap.index n) (x.wrap w) = ((m.setSlot n x).wrap w).slots :=
    funext fun i => (Function.apply_update (fun _ y => Slot.wrap w y) m.slots _ _ i).symm
  rw [Wrapped.Mailbox.setSlot, index_ofNat hcap, hslots]
  rfl

theorem setStorage_wrap (hcap : cap.val ≤ 2 ^ (w - 2)) (m : Mailbox α cap) (n : Nat) (x : Option α) :
    (m.wrap w).setSlot (.ofNat w n) { (m.wrap w).slot (.ofNat w n) with storage := x } =
      (m.setSlot n { m.slot n with storage := x }).wrap w := by
  rw [slot_wrap hcap]
  exact setSlot_wrap hcap m n ⟨_, x⟩

theorem setSequence_wrap (hcap : cap.val ≤ 2 ^ (w - 2)) (m : Mailbox α cap) (n k : Nat) :
    (m.wrap w).setSlot (.ofNat w n) { (m.wrap w).slot (.ofNat w n) with sequence := .ofNat w k } =
      (m.setSlot n { m.slot n with sequence := k }).wrap w := by
  rw [slot_wrap hcap]
  exact setSlot_wrap hcap m n ⟨k, _⟩

namespace Ring.Inv
variable {r : Ring P α cap} {producer : P → Option (Emplace α)} {consumer : Option (Pop α)} {n : Nat}

/-- The sequence of a slot is at most one generation behind a position, and one ahead of the reservations. -/
theorem sequence_bounds (h : r.Inv producer consumer) (hn : n ≤ r.box.enqueuePosition) :
    n ≤ (r.box.slot n).sequence + cap.val ∧ (r.box.slot n).sequence < r.box.enqueuePosition + cap.val := by
  have hbehind := h.behind
  have hroom := h.room
  have hpos := cap.pos
  obtain ⟨m, hidx, hle, hlt⟩ := cap.exists_window (r.released consumer) n
  have hslot : r.box.slot n = r.box.slot m := by simp [Mailbox.slot, hidx]
  rw [hslot]
  rcases h.sequence_of_window hle hlt with hs | ⟨hs, hres⟩ <;> omega

/-- The comparison of `TryEmplace` for a position of the allowed age. -/
theorem emplace_difference (h : r.Inv producer consumer) (hcap : cap.val ≤ 2 ^ (w - 2))
    (hn : n ≤ r.box.enqueuePosition) (hage : r.reserved.length - n ≤ 2 ^ (w - 1) - cap.val) :
    Serial.difference ((r.box.wrap w).slot (.ofNat w n)).sequence (.ofNat w n) =
      ((r.box.slot n).sequence : Int) - n := by
  obtain ⟨hw, hhalf⟩ := Capacity.half_range hcap
  obtain ⟨hlow, hhigh⟩ := h.sequence_bounds hn
  rw [h.length_reserved] at hage
  rw [slot_wrap hcap]
  exact Serial.difference_ofNat (by omega) (by omega) (by omega)

/-- The comparison of `TryPop` and `DestroyRemaining`, which look at the oldest unreleased position. -/
theorem pop_difference (h : r.Inv producer consumer) (hcap : cap.val ≤ 2 ^ (w - 2))
    (hc : r.released consumer = r.box.dequeuePosition) (hn : n = r.box.dequeuePosition) :
    Serial.difference ((r.box.wrap w).slot (.ofNat w n)).sequence (.ofNat w n + 1) =
      ((r.box.slot n).sequence : Int) - (n + 1 : Nat) := by
  obtain ⟨hw, hhalf⟩ := Capacity.half_range hcap
  have hpos := cap.pos
  have hseq := h.sequence_of_window (n := n) (by omega) (by omega)
  have hsucc : BitVec.ofNat w n + 1 = .ofNat w (n + 1) := (BitVec.ofNat_add n 1).symm
  rw [slot_wrap hcap, hsucc]
  exact Serial.difference_ofNat (by omega) (by omega) (by omega)

end Ring.Inv
end Comparisons

/-! ### Each step -/

section Steps
variable {P α : Type} {cap : Capacity} {w : Nat} {r : Ring P α cap} {producer : P → Option (Emplace α)}
  {consumer : Option (Pop α)}

/-- The age a position may have when its producer acts on it. -/
def Emplace.Recent (w capacity reservations : Nat) : Emplace α → Prop
  | .loadSequence _ n | .compareExchange _ n => reservations - n ≤ 2 ^ (w - 1) - capacity
  | _ => True

theorem Emplace.step_wrap (h : r.Inv producer consumer) (hcap : cap.val ≤ 2 ^ (w - 2)) {p : P} {e : Emplace α}
    (he : producer p = some e) (hage : e.Recent w cap.val r.reserved.length) (spurious : Bool) :
    (e.wrap w).step spurious r.reserved.length (r.box.wrap w) =
      ((e.step spurious r.box).1.wrap w, (e.step spurious r.box).2.wrap w) := by
  have hok := h.emplace p e he
  cases e with
  | loadPosition v =>
    rw [h.length_reserved]
    rfl
  | loadSequence v n =>
    have hdiff := h.emplace_difference hcap hok hage
    simp only [Emplace.wrap, Wrapped.Emplace.step, Emplace.step, hdiff]
    split_ifs <;> rfl
  | compareExchange v n =>
    obtain ⟨hn, -⟩ := hok
    have hage : r.reserved.length - n ≤ 2 ^ (w - 1) - cap.val := hage
    have hcas : (r.box.wrap w).enqueuePosition = .ofNat w n ↔ r.box.enqueuePosition = n := by
      rw [h.length_reserved] at hage
      obtain ⟨hw, hhalf⟩ := Capacity.half_range hcap
      have hpow : 2 ^ (w - 1) ≤ 2 ^ w := Nat.pow_le_pow_right Nat.two_pos (Nat.sub_le ..)
      have hpos := cap.pos
      exact Serial.ofNat_inj hn (by omega)
    simp only [Emplace.wrap, Wrapped.Emplace.step, Emplace.step, hcas, h.length_reserved]
    split_ifs
    · simp [Mailbox.wrap, BitVec.ofNat_add]
    · rfl
  | construct v n =>
    simp only [Emplace.wrap, Wrapped.Emplace.step, Emplace.step, setStorage_wrap hcap]
  | publish n =>
    have hsucc : BitVec.ofNat w n + 1 = .ofNat w (n + 1) := (BitVec.ofNat_add n 1).symm
    simp only [Emplace.wrap, Wrapped.Emplace.step, Emplace.step, hsucc, setSequence_wrap hcap]
  | returned b => rfl

theorem Pop.step_wrap {c : Pop α} (h : r.Inv producer (some c)) (hcap : cap.val ≤ 2 ^ (w - 2)) :
    (c.wrap w).step (r.box.wrap w) = ((c.step r.box).1.wrap w, (c.step r.box).2.wrap w) := by
  have hok := h.pop c rfl
  cases c with
  | loadPosition => rfl
  | loadSequence n =>
    have hdiff := h.pop_difference hcap rfl hok
    simp only [Pop.wrap, Wrapped.Pop.step, Pop.step, hdiff]
    split_ifs <;> rfl
  | moveOut n =>
    simp only [Pop.wrap, Wrapped.Pop.step, Pop.step, setStorage_wrap hcap]
    rw [slot_wrap hcap]
    rfl
  | release n x =>
    simp only [Pop.wrap, Wrapped.Pop.step, Pop.step, ← BitVec.ofNat_add, setSequence_wrap hcap]
  | advance n x =>
    simp [Pop.wrap, Wrapped.Pop.step, Pop.step, Mailbox.wrap, BitVec.ofNat_add]
  | returned x => rfl

theorem Ring.emplace_wrap (h : r.Inv producer consumer) (hcap : cap.val ≤ 2 ^ (w - 2)) {p : P} {e : Emplace α}
    (he : producer p = some e) (hage : e.Recent w cap.val r.reserved.length) (spurious : Bool) :
    (r.wrap w).emplace p spurious (e.wrap w) =
      ((r.emplace p spurious e).1.wrap w, (r.emplace p spurious e).2.wrap w) := by
  have hstep := Emplace.step_wrap h hcap he hage spurious
  simp only [Wrapped.Ring.emplace, Ring.wrap, hstep]
  cases e with
  | compareExchange v n =>
    by_cases hcas : r.box.enqueuePosition = n ∧ spurious = false
    · simp [Ring.emplace, Emplace.step, hcas, Emplace.wrap]
    · simp [Ring.emplace, Emplace.step, hcas, Emplace.wrap]
  | loadPosition v | loadSequence v n | construct v n | publish n | returned b => rfl

theorem Ring.pop_wrap {c : Pop α} (h : r.Inv producer (some c)) (hcap : cap.val ≤ 2 ^ (w - 2)) :
    (r.wrap w).pop (c.wrap w) = ((r.pop c).1.wrap w, (r.pop c).2.wrap w) := by
  have hstep := Pop.step_wrap h hcap
  simp only [Wrapped.Ring.pop, Ring.wrap, hstep]
  cases c <;> rfl

end Steps

/-! ### Runs -/

section Runs
variable {P α : Type} [DecidableEq P] {cap : Capacity} {w : Nat} {s : MailboxState P α cap} {a : Act P α}

/-- Moving a producer commutes with the image. -/
theorem setProducer_wrap (s : MailboxState P α cap) (ring : Ring P α cap) (p : P) (e : Option (Emplace α)) :
    (MailboxState.mk ring (Function.update s.producer p e) s.consumer).wrap w =
      ⟨ring.wrap w, Function.update (s.wrap w).producer p (e.map fun e => e.wrap w), (s.wrap w).consumer⟩ := by
  have hproducer : (fun q => (Function.update s.producer p e q).map fun e => e.wrap w) =
      Function.update (s.wrap w).producer p (e.map fun e => e.wrap w) := funext fun q =>
    Function.apply_update (fun _ (e : Option (Emplace α)) => e.map fun e => e.wrap w) s.producer p e q
  rw [MailboxState.wrap, hproducer]
  rfl

omit [DecidableEq P] in
theorem recent_of_timely {p : P} {spurious : Bool} {e : Emplace α} (ht : (s.wrap w).Timely (.emplace p spurious))
    (he : s.producer p = some e) : e.Recent w cap.val s.ring.reserved.length := by
  have hproducer : (s.wrap w).producer p = some (e.wrap w) := by simp [MailboxState.wrap, he]
  cases e with
  | loadSequence v n | compareExchange v n => exact ht n (by rw [hproducer]; rfl)
  | loadPosition v | construct v n | publish n | returned b => trivial

/-- A timely step of the wrapping mailbox is the image of the unbounded one. -/
theorem act_wrap (h : s.Inv) (hcap : cap.val ≤ 2 ^ (w - 2)) (ht : (s.wrap w).Timely a) :
    (s.wrap w).act a = (s.act a).map fun s' => s'.wrap w := by
  have hproducer : ∀ p, (s.wrap w).producer p = (s.producer p).map fun e => e.wrap w := fun _ => rfl
  have hconsumer : (s.wrap w).consumer = s.consumer.map fun c => c.wrap w := rfl
  cases a with
  | call p value =>
    simp only [Wrapped.State.act, MailboxState.act, hproducer]
    cases s.producer p with
    | none => exact congrArg some (setProducer_wrap s s.ring p (some (.loadPosition value))).symm
    | some e => rfl
  | emplace p spurious =>
    simp only [Wrapped.State.act, MailboxState.act, hproducer]
    cases hp : s.producer p with
    | none => rfl
    | some e =>
      have hstep := Ring.emplace_wrap h hcap hp (recent_of_timely ht hp) spurious
      simp only [Option.map_some, setProducer_wrap]
      rw [show (s.wrap w).ring = s.ring.wrap w from rfl, hstep]
  | «return» p =>
    simp only [Wrapped.State.act, MailboxState.act, hproducer]
    rcases s.producer p with _ | e
    · rfl
    · cases e with
      | returned result => exact congrArg some (setProducer_wrap s s.ring p none).symm
      | loadPosition v | loadSequence v n | compareExchange v n | construct v n | publish n => rfl
  | callPop =>
    simp only [Wrapped.State.act, MailboxState.act, hconsumer]
    cases s.consumer with
    | none => rfl
    | some c => rfl
  | pop =>
    simp only [Wrapped.State.act, MailboxState.act, hconsumer]
    cases hc : s.consumer with
    | none => rfl
    | some c =>
      have h : s.ring.Inv s.producer s.consumer := h
      rw [hc] at h
      have hstep := Ring.pop_wrap h hcap
      simp only [Option.map_some]
      rw [show (s.wrap w).ring = s.ring.wrap w from rfl, hstep]
      rfl
  | returnPop =>
    simp only [Wrapped.State.act, MailboxState.act, hconsumer]
    rcases s.consumer with _ | c
    · rfl
    · cases c <;> rfl

/-- A run of timely steps is the image of the unbounded run with the same steps. -/
theorem exec_wrap {acts : List (Act P α)} (h : s.Inv) (hcap : cap.val ≤ 2 ^ (w - 2))
    (ht : Wrapped.State.OnTime acts (s.wrap w)) :
    Lts.exec Wrapped.State.act (s.wrap w) acts = (Lts.exec MailboxState.act s acts).map fun s => s.wrap w := by
  induction acts generalizing s with
  | nil => rfl
  | cons a acts ih =>
    obtain ⟨ht, htail⟩ := ht
    have hact := act_wrap h hcap ht
    rw [Lts.exec_cons, Lts.exec_cons, hact]
    cases ha : s.act a with
    | none => rfl
    | some s' =>
      have hinv : s'.Inv := Mailbox.Step.inv h (MailboxState.step_iff_act.2 ⟨a, ha⟩)
      exact ih hinv (htail _ (by rw [hact, ha]; rfl))

end Runs

/-! ### `DestroyRemaining` -/

section Destroy
variable {P α : Type} {cap : Capacity} {w : Nat} {r : Ring P α cap} {producer : P → Option (Emplace α)}

theorem destroyIteration_wrap (h : r.Inv producer none) (hcap : cap.val ≤ 2 ^ (w - 2)) :
    (r.box.wrap w).destroyIteration =
      r.box.destroyIteration.map fun x => (x.1.wrap w, .ofNat w x.2.1, x.2.2) := by
  have hdiff := h.pop_difference hcap rfl rfl
  have hposition : (r.box.wrap w).dequeuePosition = .ofNat w r.box.dequeuePosition := rfl
  simp only [Wrapped.Mailbox.destroyIteration, Mailbox.destroyIteration, hposition, hdiff]
  split_ifs with hd
  · rfl
  · rw [setStorage_wrap hcap, ← BitVec.ofNat_add, setSequence_wrap hcap, slot_wrap hcap]
    simp [Mailbox.wrap, Slot.wrap, BitVec.ofNat_add]

theorem destroyRemaining_wrap (h : r.Inv producer none) (hcap : cap.val ≤ 2 ^ (w - 2)) (rounds : Nat) :
    (r.box.wrap w).destroyRemaining rounds =
      (r.box.destroyRemaining rounds).map fun x => (x.1.wrap w, x.2.map fun y => (.ofNat w y.1, y.2)) := by
  induction rounds generalizing r with
  | zero => rfl
  | succ rounds ih =>
    rw [Wrapped.Mailbox.destroyRemaining, Mailbox.destroyRemaining, destroyIteration_wrap h hcap]
    cases hx : r.box.destroyIteration with
    | none => rfl
    | some x =>
      obtain ⟨box, x⟩ := x
      have hrest : (box.wrap w).destroyRemaining rounds =
          (box.destroyRemaining rounds).map fun x => (x.1.wrap w, x.2.map fun y => (.ofNat w y.1, y.2)) :=
        ih (h.destroyIteration hx)
      simp only [Option.map_some, hrest]
      cases box.destroyRemaining rounds <;> rfl

end Destroy

/-! ### What wrapping changes -/

section Harmless
variable {P α : Type} [DecidableEq P] {cap : Capacity} {w : Nat} {acts : List (Act P α)}

/-- The steps `acts` with positions of `w` bits, beside the same steps with unbounded positions. -/
structure Wrapped.Harmless (w : Nat) (cap : Capacity) (acts : List (Act P α)) : Prop where
  /-- Every state on the way is the image of the unbounded one. -/
  run : ∀ before, before <+: acts →
    Wrapped.State.run before = (MailboxState.run before).map fun s : MailboxState P α cap => s.wrap w
  /-- `TryEmplace` compares what it would compare. -/
  emplace : ∀ before p spurious (s : MailboxState P α cap) v n, before ++ [.emplace p spurious] <+: acts →
    MailboxState.run before = some s → s.producer p = some (.loadSequence v n) →
    Serial.difference ((s.wrap w).ring.box.slot (.ofNat w n)).sequence (.ofNat w n) =
      ((s.ring.box.slot n).sequence : Int) - n
  /-- So does `TryPop`. -/
  pop : ∀ before (s : MailboxState P α cap) n, before <+: acts →
    MailboxState.run before = some s → s.consumer = some (.loadSequence n) →
    Serial.difference ((s.wrap w).ring.box.slot (.ofNat w n)).sequence (.ofNat w n + 1) =
      ((s.ring.box.slot n).sequence : Int) - (n + 1 : Nat)
  /-- `DestroyRemaining` makes the same rounds and destroys the same values. -/
  destroy : ∀ before (s : MailboxState P α cap), before <+: acts →
    MailboxState.run before = some s → s.consumer = none → ∀ rounds,
    (s.wrap w).ring.box.destroyRemaining rounds =
      (s.ring.box.destroyRemaining rounds).map fun x => (x.1.wrap w, x.2.map fun y => (.ofNat w y.1, y.2))

theorem Wrapped.harmless_of_onTime (hcap : cap.val ≤ 2 ^ (w - 2))
    (ht : State.OnTime acts (State.new : State w P α cap)) : Harmless w cap acts := by
  have hinv : ∀ {before} {s : MailboxState P α cap}, MailboxState.run before = some s → s.Inv := fun h =>
    Mailbox.inv_of_reachable (MailboxState.reachable_iff_run.2 ⟨_, h⟩)
  have hrun : ∀ before, before <+: acts →
      State.run before = (MailboxState.run before).map fun s : MailboxState P α cap => s.wrap w := by
    rintro before ⟨after, rfl⟩
    exact exec_wrap (s := .new) Ring.inv_new hcap (State.onTime_append.1 ht).1
  refine ⟨hrun, ?_, ?_, ?_⟩
  · rintro before p spurious s v n ⟨after, rfl⟩ hs hp
    have hwrapped : State.run before = some (s.wrap w) := by
      rw [hrun before (by simp), hs]
      rfl
    have htimely : (s.wrap w).Timely (.emplace p spurious) := by
      rw [List.append_assoc] at ht
      exact ((State.onTime_append.1 ht).2 _ hwrapped).1
    have hn : n ≤ s.ring.box.enqueuePosition := (hinv hs).emplace p _ hp
    exact (hinv hs).emplace_difference hcap hn (recent_of_timely htimely hp)
  · intro before s n _ hs hc
    have hn : n = s.ring.box.dequeuePosition := (hinv hs).pop _ hc
    exact (hinv hs).pop_difference hcap (by rw [hc]; rfl) hn
  · intro before s _ hs hc rounds
    have h : s.ring.Inv s.producer s.consumer := hinv hs
    rw [hc] at h
    exact destroyRemaining_wrap h hcap rounds

/-- Positions of three bits and two slots: one producer loads position 0 and acts on it two reservations later, the
other one goes on through the wrap. -/
theorem Wrapped.harmless_nine_values :
    let two : Capacity := ⟨2, by decide, 1, rfl⟩
    let value : List (Act Bool Nat) := .call true 7 :: List.replicate 5 (.emplace true false) ++
      .return true :: .callPop :: List.replicate 5 .pop ++ [.returnPop]
    let acts := .call false 8 :: .emplace false false :: value ++ value ++ List.replicate 2 (.emplace false false) ++
      (List.replicate 7 value).flatten
    (State.run acts : Option (State 3 Bool Nat two)).map
        (fun t => (t.ring.reserved.length, t.ring.box.enqueuePosition)) = some (9, 1) ∧ Harmless 3 two acts := by
  intro two value acts
  exact ⟨by decide +kernel, harmless_of_onTime (by decide) (by decide +kernel)⟩

end Harmless
end IdtxCore
