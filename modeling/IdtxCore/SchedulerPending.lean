import Mathlib.Order.Interval.Finset.Nat
import IdtxCore.SchedulerHistory

/-!
# The pending count is exact

`pending_count_` is what the three kinds of places hold that a command passes through: a submission between its
increment and its publication or rejection (`Thread.submitting`), a mailbox (`Ring.waiting`), and a drain from the pop
to the release (`Thread.unreleased`).

`PendingInv` counts reserved positions instead. The difference is the positions that are reserved and not yet
published; each of them is held by one producer (`Ring.Inv.card_unpublished`).
-/

namespace IdtxCore

/-- The position that the call has reserved and not yet published. -/
def Emplace.position {α : Type} : Emplace α → Option Nat
  | .construct _ n | .publish n => some n
  | _ => none

namespace Ring
variable {P α : Type} {cap : Capacity}

/-- The positions published and not yet popped. -/
def waitingPositions (r : Ring P α cap) : Finset Nat :=
  {n ∈ Finset.Ico r.box.dequeuePosition r.box.enqueuePosition | n < (r.box.slot n).sequence}

def waiting (r : Ring P α cap) : Nat := r.waitingPositions.card

/-- The positions reserved and not yet published. -/
def unpublishedPositions (r : Ring P α cap) : Finset Nat :=
  {n ∈ Finset.Ico r.box.dequeuePosition r.box.enqueuePosition | ¬ n < (r.box.slot n).sequence}

variable {r : Ring P α cap} {producer : P → Option (Emplace α)} {consumer : Option (Pop α)}

namespace Inv

theorem dequeuePosition_le_released : r.box.dequeuePosition ≤ r.released consumer := by
  unfold released
  split <;> omega

theorem dequeuePosition_le (h : r.Inv producer consumer) : r.box.dequeuePosition ≤ r.box.enqueuePosition :=
  Nat.le_trans dequeuePosition_le_released h.behind

theorem length_popped (h : r.Inv producer consumer) : r.popped.length = r.box.dequeuePosition := by
  have hle := h.dequeuePosition_le
  rw [h.popped_eq, List.length_map, List.length_take, h.length_reserved]
  omega

theorem reserved_of_position (h : r.Inv producer consumer) {p : P} {e : Emplace α} {n : Nat}
    (he : producer p = some e) (hn : e.position = some n) :
    r.released consumer ≤ n ∧ (r.box.slot n).sequence = n ∧ ∃ v, r.reserved[n]? = some (p, v) := by
  have hok := h.emplace p e he
  cases e with
  | construct v m =>
    obtain rfl : m = n := Option.some.inj hn
    obtain ⟨hm, hres, hs⟩ := hok
    exact ⟨hm, by rw [hs], v, hres⟩
  | publish m =>
    obtain rfl : m = n := Option.some.inj hn
    obtain ⟨hm, v, hres, hs⟩ := hok
    exact ⟨hm, by rw [hs], v, hres⟩
  | _ => cases hn

/-- An unpublished position is held by the producer that reserved it. -/
theorem exists_position (h : r.Inv producer consumer) {n : Nat} (hn : n < r.box.enqueuePosition)
    (hseq : ¬ n < (r.box.slot n).sequence) : ∃ p e, producer p = some e ∧ e.position = some n := by
  have hrel : r.released consumer ≤ n := by
    by_contra hlt
    exact hseq (h.lt_sequence_of_released (by omega))
  obtain ⟨p, v, hres⟩ := h.reserved_of_lt hn
  cases h.live n p v hrel hres with
  | reserved hs hp => exact ⟨p, _, hp, rfl⟩
  | constructed hs hp => exact ⟨p, _, hp, rfl⟩
  | published hs => rw [hs] at hseq; exact absurd (Nat.lt_succ_self n) hseq
  | taken hs hcons => rw [hs] at hseq; exact absurd (Nat.lt_succ_self n) hseq

/-- As many positions are unpublished as producers hold one. -/
theorem card_unpublished [Fintype P] (h : r.Inv producer consumer) :
    ({p | ((producer p).bind Emplace.position).isSome} : Finset P).card = r.unpublishedPositions.card := by
  have hholds : ∀ p, ((producer p).bind Emplace.position).isSome →
      ∃ e n, producer p = some e ∧ e.position = some n ∧ ((producer p).bind Emplace.position).getD 0 = n := by
    intro p hp
    obtain ⟨n, hn⟩ := Option.isSome_iff_exists.1 hp
    obtain ⟨e, he, hen⟩ := Option.bind_eq_some_iff.1 hn
    exact ⟨e, n, he, hen, by rw [hn]; rfl⟩
  refine Finset.card_bij (fun p _ => ((producer p).bind Emplace.position).getD 0) ?_ ?_ ?_
  · intro p hp
    obtain ⟨e, n, he, hen, hget⟩ := hholds p (Finset.mem_filter.1 hp).2
    obtain ⟨hrel, hseq, v, hres⟩ := h.reserved_of_position he hen
    have hdeq : r.box.dequeuePosition ≤ r.released consumer := dequeuePosition_le_released
    rw [hget]
    refine Finset.mem_filter.2 ⟨Finset.mem_Ico.2 ⟨by omega, h.lt_of_reserved hres⟩, by omega⟩
  · intro p hp q hq heq
    obtain ⟨e, n, he, hen, hget⟩ := hholds p (Finset.mem_filter.1 hp).2
    obtain ⟨e', n', he', hen', hget'⟩ := hholds q (Finset.mem_filter.1 hq).2
    obtain rfl : n = n' := by rw [← hget, ← hget', heq]
    -- the position names its producer
    obtain ⟨-, -, v, hres⟩ := h.reserved_of_position he hen
    obtain ⟨-, -, v', hres'⟩ := h.reserved_of_position he' hen'
    rw [hres] at hres'
    exact congrArg Prod.fst (Option.some.inj hres')
  · intro n hn
    obtain ⟨hwindow, hseq⟩ := Finset.mem_filter.1 hn
    obtain ⟨p, e, he, hen⟩ := h.exists_position (Finset.mem_Ico.1 hwindow).2 hseq
    exact ⟨p, by simp [he, hen], by simp [he, hen]⟩

/-- What is reserved is popped, waiting, or held by a producer. -/
theorem enqueuePosition_eq [Fintype P] (h : r.Inv producer consumer) :
    r.box.enqueuePosition = r.box.dequeuePosition + r.waiting +
      ({p | ((producer p).bind Emplace.position).isSome} : Finset P).card := by
  have hle := h.dequeuePosition_le
  have hwindow := Finset.card_filter_add_card_filter_not (s := Finset.Ico r.box.dequeuePosition r.box.enqueuePosition)
    (fun n => n < (r.box.slot n).sequence)
  rw [Nat.card_Ico] at hwindow
  rw [h.card_unpublished]
  show _ = _ + r.waitingPositions.card + _
  unfold waitingPositions unpublishedPositions
  omega

end Inv
end Ring

namespace Scheduler

open Tally

section Contributions
variable {κ : Type}

/-- The thread's submission has incremented the pending count and is neither rejected nor published. -/
def Thread.submitting : Thread κ → Nat
  | .submit .announce _ _ => 0
  | .submit _ _ _ => 1
  | _ => 0

/-- The commands that the thread has popped and not released. -/
def Thread.unreleased : Thread κ → Nat
  | .drain .release _ _ d => d.handlers.length + 1
  | x => x.account.handlers.length

/-- The thread is about to call `ReleasePending`. -/
def Thread.Releases : Thread κ → Prop
  | .submit (.reject _) _ _ | .drain .release _ _ _ => True
  | _ => False

/-- The thread holds a position of the mailbox `k` that it has reserved and not yet published. -/
def Thread.holds (k : Kind) (x : Thread κ) : Nat :=
  if ((x.account.producing k).bind Emplace.position).isSome then 1 else 0

/-- A thread owes for its submission until the position is reserved, and for its popped commands. -/
theorem Thread.owed_add_holds {x : Thread κ} (hx : x.Ok) :
    x.account.owed + (x.holds .normal + x.holds .priority) = x.submitting + x.unreleased := by
  rcases x with _ | ⟨_ | _ | e | _, y, c⟩ | ⟨_ | _⟩ | ⟨_ | _ | _ | _ | _ | _, processed, retries, d⟩
  case submit.push =>
    obtain ⟨-, hreturned⟩ := hx
    have hheld : (Thread.submit (.push e) y c).holds .normal + (Thread.submit (.push e) y c).holds .priority =
        if e.holds then 1 else 0 := by
      cases e with
      | returned b => exact absurd rfl (hreturned b)
      | _ => cases hk : y.kind <;> simp [Thread.holds, pushAccount, hk, Emplace.underway, Emplace.position, Emplace.holds]
    have howed : (Thread.submit (.push e) y c).account.owed = c.handlers.length + if e.holds then 0 else 1 := rfl
    have hunreleased : (Thread.submit (.push e) y c).unreleased = c.handlers.length := rfl
    have hsubmitting : (Thread.submit (.push e) y c).submitting = 1 := rfl
    rw [hheld, howed, hunreleased, hsubmitting]
    split_ifs <;> omega
  all_goals
    simp [Thread.holds, Thread.submitting, Thread.unreleased, Caller.account, drainAccount]
  all_goals omega

theorem Thread.submitting_add_unreleased_pos {x : Thread κ} (hx : x.Releases) : 0 < x.submitting + x.unreleased := by
  rcases x with _ | ⟨_ | _ | _ | _⟩ | ⟨_ | _⟩ | ⟨_ | _ | _ | _ | _ | _⟩ <;>
    first | exact hx.elim | simp [Thread.submitting, Thread.unreleased]

end Contributions

variable {T κ : Type} [Fintype T] [DecidableEq T] {s s' : State T κ}

omit [DecidableEq T] in
theorem RingsInv.reserved_length (h : RingsInv s) (k : Kind) :
    (s.rings k).reserved.length = (s.rings k).popped.length + (s.rings k).waiting + total (Thread.holds k) s.threads := by
  obtain ⟨c, -, hr⟩ := h k
  have heq := hr.enqueuePosition_eq
  rw [Finset.card_filter] at heq
  rw [hr.length_reserved, hr.length_popped]
  exact heq

/-- What `pending_count_` counts, and that it is not zero where it is decremented. -/
structure PendingExact (s : State T κ) : Prop where
  exact : s.pendingCount = total Thread.submitting s.threads +
    ((s.rings .normal).waiting + (s.rings .priority).waiting) + total Thread.unreleased s.threads
  releases : ∀ t, (s.threads t).Releases → 0 < s.pendingCount

/-- In every reachable state the pending count is exact. -/
theorem pendingExact_of_reachable (h : (system T κ).Reachable s) : PendingExact s := by
  have hi := inv_of_reachable h
  have howed : total (fun x => x.account.owed) s.threads +
      (total (Thread.holds .normal) s.threads + total (Thread.holds .priority) s.threads) =
        total Thread.submitting s.threads + total Thread.unreleased s.threads := by
    simp only [total, ← Finset.sum_add_distrib]
    exact Finset.sum_congr rfl fun t _ => Thread.owed_add_holds (hi.ok t)
  have hexact : s.pendingCount = total Thread.submitting s.threads +
      ((s.rings .normal).waiting + (s.rings .priority).waiting) + total Thread.unreleased s.threads := by
    have hpending := hi.pending
    have hnormal := hi.rings.reserved_length .normal
    have hpriority := hi.rings.reserved_length .priority
    rw [PendingInv, State.poppedCount, State.reservedCount] at hpending
    omega
  refine ⟨hexact, fun t ht => ?_⟩
  have hpos := Thread.submitting_add_unreleased_pos ht
  have hsubmitting := le_total Thread.submitting s.threads t
  have hunreleased := le_total Thread.unreleased s.threads t
  omega

/-- One command waits in the mailbox, one is being handled and one submission is about to be turned away. -/
theorem pendingExact_three_places :
    ∃ s : State (Fin 3) Nat, s.pendingCount = 3 ∧ (s.threads 1).submitting = 1 ∧ (s.rings .normal).waiting = 1 ∧
      (s.threads 2).unreleased = 1 ∧ PendingExact s := by
  have h : (system (Fin 3) Nat).Reachable _ := .init rfl
  replace h := h.step (.call 0 .normal 7 rfl)
  replace h := h.step (.announce 0 _ _ rfl)
  replace h := h.step (.admission 0 _ _ rfl)
  replace h := h.step (.push 0 false _ _ _ rfl)
  replace h := h.step (.push 0 false _ _ _ rfl)
  replace h := h.step (.push 0 false _ _ _ rfl)
  replace h := h.step (.push 0 false _ _ _ rfl)
  replace h := h.step (.push 0 false _ _ _ rfl)
  replace h := h.step (.exchange 0 _ rfl)
  replace h := h.step (.post 0 _ rfl)
  replace h := h.step (.startTask 2 rfl (by decide))
  replace h := h.step (.pop 2 _ _ _ _ _ rfl)
  replace h := h.step (.pop 2 _ _ _ _ _ rfl)
  replace h := h.step (.pop 2 _ _ _ _ _ rfl)
  replace h := h.step (.pop 2 _ _ _ _ _ rfl)
  replace h := h.step (.pop 2 _ _ _ _ _ rfl)
  replace h := h.step (.pop 2 _ _ _ _ _ rfl)
  replace h := h.step (.pop 2 _ _ _ _ _ rfl)
  replace h := h.step (.call 0 .normal 8 rfl)
  replace h := h.step (.announce 0 _ _ rfl)
  replace h := h.step (.admission 0 _ _ rfl)
  replace h := h.step (.push 0 false _ _ _ rfl)
  replace h := h.step (.push 0 false _ _ _ rfl)
  replace h := h.step (.push 0 false _ _ _ rfl)
  replace h := h.step (.push 0 false _ _ _ rfl)
  replace h := h.step (.push 0 false _ _ _ rfl)
  replace h := h.step (.closeAdmission rfl)
  replace h := h.step (.call 1 .normal 9 rfl)
  replace h := h.step (.announce 1 _ _ rfl)
  replace h := h.step (.admission 1 _ _ rfl)
  exact ⟨_, rfl, rfl, rfl, rfl, pendingExact_of_reachable h⟩

end Scheduler
end IdtxCore
