import Mathlib.Algebra.Order.Group.Unbundled.Basic
import Mathlib.Algebra.Order.Monoid.Defs
import Mathlib.Data.List.Basic

/-!
# Counting in anchored windows

A counter of events in windows that its own events open: the event that comes when the window is over opens
the next one and is the first one counted in it. An interval that is shorter than a window meets two of
them at most, so at most `2 * m` of its events can have left the counter at `m` or below (`countP_le_two_mul`).
-/

namespace AnchoredWindow

/-- When a window is over; a later one is over later. -/
structure Span (Time : Type*) [LinearOrder Time] where
  Over : Time → Time → Prop
  mono : ∀ {s s' t t' : Time}, s' ≤ s → t ≤ t' → Over s t → Over s' t'

/-- The window that is over `length` after its start. -/
def Span.ofLength {Time : Type*} [AddCommGroup Time] [LinearOrder Time] [IsOrderedAddMonoid Time] (length : Time) :
    Span Time where
  Over start now := length ≤ now - start
  mono hstart hnow hover := hover.trans (sub_le_sub hnow hstart)

structure Counter (Time : Type*) where
  start : Time
  count : Nat

variable {Time : Type*} [LinearOrder Time]

/-- An event opens a window or is counted in the open one, and no window is left before it is over. -/
structure Span.Counts (w : Span Time) (now : Time) (c c' : Counter Time) : Prop where
  cases : c' = ⟨now, 1⟩ ∨ c' = ⟨c.start, c.count + 1⟩
  stays : 0 < c.count → ¬w.Over c.start now → c' = ⟨c.start, c.count + 1⟩

/-- Each event with its time and the counter after it. -/
def Span.Run (w : Span Time) : Counter Time → List (Time × Counter Time) → Prop
  | _, [] => True
  | c, (now, c') :: events => w.Counts now c c' ∧ w.Run c' events

/-- An event of the interval that has left the counter at `m` or below. -/
def Counted (a b : Time) (m : Nat) (e : Time × Counter Time) : Prop := (a ≤ e.1 ∧ e.1 ≤ b) ∧ e.2.count ≤ m

instance (a b : Time) (m : Nat) : DecidablePred (Counted a b m) := fun _ => inferInstanceAs (Decidable (_ ∧ _))

variable {w : Span Time} {c : Counter Time} {a b : Time} {m : Nat} {events : List (Time × Counter Time)}

def Chronological (events : List (Time × Counter Time)) : Prop := events.Pairwise fun e f => e.1 ≤ f.1

theorem countP_eq_zero_of_late (h : ∀ e ∈ events, b < e.1) : events.countP (Counted a b m) = 0 := by
  rw [List.countP_eq_zero]
  intro e he hcounted
  exact absurd (of_decide_eq_true hcounted).1.2 (not_le.2 (h e he))

theorem countP_cons_le (e : Time × Counter Time) (events : List (Time × Counter Time)) :
    (e :: events).countP (Counted a b m) ≤ events.countP (Counted a b m) + if e.2.count ≤ m then 1 else 0 := by
  rw [List.countP_cons]
  split_ifs with hcounted hcount
  · omega
  · exact absurd (of_decide_eq_true hcounted).2 hcount
  · omega
  · omega

theorem late_of_head {e : Time × Counter Time} (hsorted : Chronological (e :: events)) (h : b < e.1) :
    ∀ f ∈ e :: events, b < f.1 := by
  intro f hf
  rcases List.mem_cons.1 hf with rfl | hf
  · exact h
  · exact h.trans_le (List.rel_of_pairwise_cons hsorted hf)

/-- Up to the end of a window only what it has left is counted. -/
theorem countP_le_of_open (hrun : w.Run c events) (hsorted : Chronological events) (hpos : 0 < c.count)
    (hopen : ¬w.Over c.start b) : events.countP (Counted a b m) ≤ m - c.count := by
  induction events generalizing c with
  | nil => exact Nat.zero_le _
  | cons e events ih =>
    obtain ⟨now, c'⟩ := e
    rcases lt_or_ge b now with hlate | hnow
    · rw [countP_eq_zero_of_late (late_of_head hsorted hlate)]
      exact Nat.zero_le _
    · have hc' := hrun.1.stays hpos fun hover => hopen (w.mono le_rfl hnow hover)
      subst hc'
      have hrest := ih hrun.2 hsorted.of_cons (Nat.succ_pos _) hopen
      have hcons := countP_cons_le (a := a) (b := b) (m := m) (now, ⟨c.start, c.count + 1⟩) events
      simp only at hrest hcons
      split_ifs at hcons <;> omega

/-- From the beginning of the interval on, at most one more window is opened in it. -/
theorem countP_le_of_ge (hshort : ¬w.Over a b) (hrun : w.Run c events) (hsorted : Chronological events)
    (hge : ∀ e ∈ events, a ≤ e.1) : events.countP (Counted a b m) ≤ m + (m - c.count) := by
  induction events generalizing c with
  | nil => exact Nat.zero_le _
  | cons e events ih =>
    obtain ⟨now, c'⟩ := e
    have hcons := countP_cons_le (a := a) (b := b) (m := m) (now, c') events
    rcases lt_or_ge b now with hlate | hnow
    · rw [countP_eq_zero_of_late (late_of_head hsorted hlate)]
      exact Nat.zero_le _
    · rcases hrun.1.cases with rfl | rfl
      · have hopen : ¬w.Over now b := fun hover => hshort (w.mono (hge _ List.mem_cons_self) le_rfl hover)
        have hrest := countP_le_of_open (a := a) (m := m) hrun.2 hsorted.of_cons Nat.one_pos hopen
        simp only at hrest hcons
        split_ifs at hcons <;> omega
      · have hrest := ih hrun.2 hsorted.of_cons fun e he => hge e (List.mem_cons_of_mem _ he)
        simp only at hrest hcons
        split_ifs at hcons <;> omega

theorem countP_le_two_mul (hshort : ¬w.Over a b) (hrun : w.Run c events) (hsorted : Chronological events) :
    events.countP (Counted a b m) ≤ 2 * m := by
  induction events generalizing c with
  | nil => exact Nat.zero_le _
  | cons e events ih =>
    rcases lt_or_ge e.1 a with hearly | hge
    · have hnot : ¬Counted a b m e := fun hcounted => absurd hcounted.1.1 (not_le.2 hearly)
      rw [List.countP_cons_of_neg (by simpa using hnot)]
      exact ih hrun.2 hsorted.of_cons
    · have hall : ∀ f ∈ e :: events, a ≤ f.1 := by
        intro f hf
        rcases List.mem_cons.1 hf with rfl | hf
        · exact hge
        · exact hge.trans (List.rel_of_pairwise_cons hsorted hf)
      have hle := countP_le_of_ge (m := m) hshort hrun hsorted hall
      omega

end AnchoredWindow
