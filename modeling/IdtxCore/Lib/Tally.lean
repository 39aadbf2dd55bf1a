import Mathlib.Algebra.BigOperators.Group.Finset.Piecewise
import Mathlib.Algebra.Order.BigOperators.Group.Finset
import Mathlib.Data.Fintype.BigOperators

/-!
# Totals over threads

A counting invariant of a concurrent program says that some shared counter is the sum of what each
thread contributes to it. `total w threads` is that sum; a step of one thread changes it by the
difference of that thread's contributions (`total_update`).
-/

namespace Tally

variable {T X M : Type} [Fintype T]

/-- The sum over all threads of the contribution `w`. -/
def total [AddCommMonoid M] (w : X → M) (threads : T → X) : M := ∑ t, w (threads t)

theorem total_const_zero [AddCommMonoid M] {w : X → M} {threads : T → X}
    (h : ∀ t, w (threads t) = 0) : total w threads = 0 :=
  Finset.sum_eq_zero fun t _ => h t

theorem total_update [AddCommMonoid M] [DecidableEq T] (w : X → M) (threads : T → X) (t : T) (x : X) :
    total w (Function.update threads t x) + w (threads t) = total w threads + w x := by
  have hsum : ∀ f : T → X, total w f = w (f t) + ∑ u ∈ Finset.univ.erase t, w (f u) := fun f =>
    (Finset.add_sum_erase Finset.univ (fun u => w (f u)) (Finset.mem_univ t)).symm
  have hrest : ∑ u ∈ Finset.univ.erase t, w (Function.update threads t x u) =
      ∑ u ∈ Finset.univ.erase t, w (threads u) :=
    Finset.sum_congr rfl fun u hu => by rw [Function.update_of_ne (Finset.ne_of_mem_erase hu)]
  rw [hsum (Function.update threads t x), hsum threads, hrest, Function.update_self]
  rw [add_assoc, add_comm (w x), add_comm (w (threads t))]

/-- What a step adds to and takes from the thread's contribution, it adds to and takes from the
total. -/
theorem total_balance [AddCancelCommMonoid M] [DecidableEq T] {w : X → M} {threads : T → X} {t : T}
    {x : X} {a b : M} (h : w x + a = w (threads t) + b) :
    total w (Function.update threads t x) + a = total w threads + b := by
  refine add_right_cancel (b := w (threads t)) ?_
  calc total w (Function.update threads t x) + a + w (threads t)
      = total w threads + w x + a := by rw [add_right_comm, total_update]
    _ = total w threads + b + w (threads t) := by rw [add_assoc, h, add_comm (w _), ← add_assoc]

/-- The balance of one step, added to that of the run before it. -/
theorem balance_append [AddCommMonoid M] {x x' a b c : M} (h : x' + b = x + c) :
    x' + (a + b) = x + a + c := by
  rw [add_left_comm, h, add_comm x a, add_assoc]

/-- A step that keeps the thread's contribution keeps the total. -/
theorem total_update_of_eq [AddCommMonoid M] [DecidableEq T] {w : X → M} {threads : T → X} {t : T}
    {x : X} (h : w x = w (threads t)) : total w (Function.update threads t x) = total w threads := by
  have hw : ∀ u, w (Function.update threads t x u) = w (threads u) := by
    intro u
    by_cases hu : u = t
    · subst hu; rw [Function.update_self, h]
    · rw [Function.update_of_ne hu]
  exact Finset.sum_congr rfl fun u _ => hw u

/-- A step of one thread that makes no other one contribute more. -/
theorem total_update_le [DecidableEq T] {w w' : X → Nat} (hle : ∀ x, w' x ≤ w x) (threads : T → X) (t : T) (x : X) :
    total w' (Function.update threads t x) + w (threads t) ≤ total w threads + w' x := by
  have hsum : ∀ (v : X → Nat) (f : T → X), total v f = v (f t) + ∑ u ∈ Finset.univ.erase t, v (f u) := fun v f =>
    (Finset.add_sum_erase Finset.univ (fun u => v (f u)) (Finset.mem_univ t)).symm
  have hrest : ∑ u ∈ Finset.univ.erase t, w' (Function.update threads t x u) ≤
      ∑ u ∈ Finset.univ.erase t, w (threads u) :=
    Finset.sum_le_sum fun u hu => by
      rw [Function.update_of_ne (Finset.ne_of_mem_erase hu)]
      exact hle _
  rw [hsum w' (Function.update threads t x), hsum w threads, Function.update_self]
  omega

variable {w : X → Nat} {threads : T → X} {t t' : T}

theorem le_total (w : X → Nat) (threads : T → X) (t : T) : w (threads t) ≤ total w threads :=
  Finset.single_le_sum (f := fun u => w (threads u)) (fun _ _ => Nat.zero_le _) (Finset.mem_univ t)

theorem eq_zero_of_total_eq_zero (h : total w threads = 0) (t : T) : w (threads t) = 0 :=
  Nat.eq_zero_of_le_zero (h ▸ le_total w threads t)

/-- Mutual exclusion: with a total of at most one, whoever contributes is alone. -/
theorem eq_zero_of_ne (h : total w threads ≤ 1) (ht : 0 < w (threads t)) (hne : t' ≠ t) :
    w (threads t') = 0 := by
  classical
  have hsum : w (threads t) + ∑ u ∈ Finset.univ.erase t, w (threads u) = total w threads :=
    Finset.add_sum_erase Finset.univ (fun u => w (threads u)) (Finset.mem_univ t)
  have hle : w (threads t') ≤ ∑ u ∈ Finset.univ.erase t, w (threads u) :=
    Finset.single_le_sum (f := fun u => w (threads u)) (fun _ _ => Nat.zero_le _)
      (Finset.mem_erase.2 ⟨hne, Finset.mem_univ t'⟩)
  omega

end Tally
