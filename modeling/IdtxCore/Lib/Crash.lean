import Mathlib.Data.List.Basic

/-!
# Programs that may be interrupted

A program is a list of calls on a state. It may stop between two calls, or within one (`torn`). If one call of the
program takes effect at once and all the others leave alone what is ferved, the interrupted program shows what was
ferved before it or what is ferved after it (`Crash.old_or_new`).
-/

namespace Interrupt

universe u v w

structure Machine (σ : Type u) (γ : Type v) where
  run : γ → σ → σ
  /-- what a call leaves that is interrupted -/
  torn : γ → σ → σ → Prop

namespace Machine
variable {σ : Type u} {γ : Type v} {α : Type w} {m : Machine σ γ} {f : σ → α} {s s' : σ} {c : γ} {cs ds : List γ}

def exec (m : Machine σ γ) (cs : List γ) (s : σ) : σ := cs.foldl (fun s c => m.run c s) s

@[simp] theorem exec_nil (s : σ) : m.exec [] s = s := rfl

@[simp] theorem exec_cons (c : γ) (cs : List γ) (s : σ) : m.exec (c :: cs) s = m.exec cs (m.run c s) := rfl

theorem exec_append (cs ds : List γ) (s : σ) : m.exec (cs ++ ds) s = m.exec ds (m.exec cs s) := List.foldl_append ..

/-- The states in which the program may be interrupted. -/
inductive Crash (m : Machine σ γ) : List γ → σ → σ → Prop where
  | stop {cs : List γ} {s : σ} : Crash m cs s s
  | torn {c : γ} {cs : List γ} {s s' : σ} : m.torn c s s' → Crash m (c :: cs) s s'
  | next {c : γ} {cs : List γ} {s s' : σ} : Crash m cs (m.run c s) s' → Crash m (c :: cs) s s'

/-- The call does not change what is ferved, nor does a part of it. -/
structure Spares (m : Machine σ γ) (f : σ → α) (c : γ) : Prop where
  run : ∀ s, f (m.run c s) = f s
  torn : ∀ s s', m.torn c s s' → f s' = f s

theorem Spares.exec (h : ∀ c ∈ cs, m.Spares f c) (s : σ) : f (m.exec cs s) = f s := by
  induction cs generalizing s with
  | nil => rfl
  | cons c cs ih =>
    have hc := h c List.mem_cons_self
    exact (ih (fun d hd => h d (List.mem_cons_of_mem c hd)) _).trans (hc.run s)

theorem Crash.spared (h : m.Crash cs s s') (hs : ∀ c ∈ cs, m.Spares f c) : f s' = f s := by
  induction h with
  | stop => rfl
  | torn h => exact (hs _ List.mem_cons_self).torn _ _ h
  | next _ ih => exact (ih fun d hd => hs d (List.mem_cons_of_mem _ hd)).trans ((hs _ List.mem_cons_self).run _)

theorem Crash.append_cases (h : m.Crash (cs ++ ds) s s') : m.Crash cs s s' ∨ m.Crash ds (m.exec cs s) s' := by
  induction cs generalizing s with
  | nil => exact .inr h
  | cons c cs ih =>
    cases h with
    | stop => exact .inl .stop
    | torn h => exact .inl (.torn h)
    | next h => exact (ih h).imp_left .next

/-- One call takes effect at once, the others leave alone what is ferved. -/
theorem Crash.old_or_new (h : m.Crash (cs ++ c :: ds) s s') (hcs : ∀ d ∈ cs, m.Spares f d)
    (hc : ∀ s s', m.torn c s s' → s' = s ∨ s' = m.run c s) (hds : ∀ d ∈ ds, m.Spares f d) :
    f s' = f s ∨ f s' = f (m.exec (cs ++ c :: ds) s) := by
  have hnew : f (m.exec (cs ++ c :: ds) s) = f (m.run c (m.exec cs s)) := by
    rw [exec_append]
    exact Spares.exec hds _
  have hold : f (m.exec cs s) = f s := Spares.exec hcs s
  rw [hnew]
  rcases h.append_cases with h | h
  · exact .inl (h.spared hcs)
  · cases h with
    | stop => exact .inl hold
    | torn h =>
      rcases hc _ _ h with rfl | rfl
      · exact .inl hold
      · exact .inr rfl
    | next h => exact .inr (h.spared hds)

end Machine
end Interrupt
