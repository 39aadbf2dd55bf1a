import Mathlib.Logic.Relation
import Mathlib.Data.List.Chain

/-!
# Transition systems

A system is a set of initial states and a step relation; concurrency is interleaving, so a step is
one atomic action of one party. `Reachable` collects the states of all runs, `invariant` is the
one induction over runs, `simulate` transports reachability along a forward simulation (the
concrete system may stutter). An `Execution` is an infinite run, for what happens at some time: `exists_leaves`,
`exists_const` and `exists_stable` are its rules for a number that decreases. `exec` runs a list of labelled steps.
-/

namespace Lts

universe u v

structure System (σ : Type u) where
  init : σ → Prop
  step : σ → σ → Prop

namespace System
variable {σ : Type u} {τ : Type v} {S : System σ} {s s' : σ}

/-- The states of the runs of `S`. -/
inductive Reachable (S : System σ) : σ → Prop where
  | init {s : σ} : S.init s → Reachable S s
  | step {s s' : σ} : Reachable S s → S.step s s' → Reachable S s'

/-- `s'` is reached from `s` by zero or more steps. -/
abbrev Run (S : System σ) : σ → σ → Prop := Relation.ReflTransGen S.step

/-- The runs of `S` all of whose steps meet the condition `C`. -/
def restrict (S : System σ) (C : σ → σ → Prop) : System σ where
  init := S.init
  step s s' := S.step s s' ∧ C s s'

/-- What holds initially and is kept by every step from a reachable state holds in every reachable
state. -/
theorem invariant {I : σ → Prop} (hinit : ∀ s, S.init s → I s)
    (hstep : ∀ s s', S.Reachable s → I s → S.step s s' → I s') (h : S.Reachable s) : I s := by
  induction h with
  | init h => exact hinit _ h
  | step h hs ih => exact hstep _ _ h ih hs

theorem Reachable.run (h : S.Reachable s) (hr : S.Run s s') : S.Reachable s' := by
  induction hr with
  | refl => exact h
  | tail _ hs ih => exact .step ih hs

/-- Where `I` is kept by every step that is not bad, and a bad step ends outside of `P`: the states of a run are all
in `P` exactly if none of its steps is bad. -/
theorem forall_mem_iff_of_isChain (I P : σ → Prop) (bad : σ → σ → Prop) {states : List σ} (hP : ∀ s, I s → P s)
    (hgood : ∀ s s', I s → S.step s s' → ¬bad s s' → I s') (hbad : ∀ s s', I s → bad s s' → ¬P s')
    (h : I s) (hrun : (s :: states).IsChain S.step) :
    (∀ t ∈ s :: states, P t) ↔ ∀ t t', [t, t'] <:+: s :: states → ¬bad t t' := by
  induction states generalizing s with
  | nil =>
    constructor
    · intro _ t t' hpair
      exact absurd hpair.length_le (by simp)
    · intro _ t ht
      rw [List.mem_singleton.1 ht]
      exact hP s h
  | cons s' states ih =>
    obtain ⟨hstep, hrun⟩ := List.isChain_cons_cons.1 hrun
    by_cases hb : bad s s'
    · constructor
      · intro hall
        exact absurd (hall s' (by simp)) (hbad s s' h hb)
      · intro hnone
        exact absurd hb (hnone s s' ⟨[], states, rfl⟩)
    · have ih := ih (hgood s s' h hstep hb) hrun
      constructor
      · intro hall t t' hpair
        rcases List.infix_cons_iff.1 hpair with hhead | htail
        · obtain ⟨rfl, hrest⟩ := List.cons_prefix_cons.1 hhead
          obtain ⟨rfl, -⟩ := List.cons_prefix_cons.1 hrest
          exact hb
        · exact ih.1 (fun t ht => hall t (List.mem_cons_of_mem _ ht)) t t' htail
      · intro hnone
        rw [List.forall_mem_cons]
        exact ⟨hP s h, ih.2 fun t t' hpair => hnone t t' (hpair.trans (List.suffix_cons s _).isInfix)⟩

/-- A forward simulation: related initial states, and every step matched by at most one step. -/
theorem Reachable.simulate {T : System τ} (R : σ → τ → Prop)
    (hinit : ∀ s, S.init s → ∃ t, T.init t ∧ R s t)
    (hstep : ∀ s s' t, S.Reachable s → R s t → S.step s s' →
      ∃ t', R s' t' ∧ (t' = t ∨ T.step t t'))
    (h : S.Reachable s) : ∃ t, T.Reachable t ∧ R s t := by
  induction h with
  | init h =>
    obtain ⟨t, ht, hR⟩ := hinit _ h
    exact ⟨t, .init ht, hR⟩
  | step h hs ih =>
    obtain ⟨t, ht, hR⟩ := ih
    obtain ⟨t', hR', rfl | hst⟩ := hstep _ _ t h hR hs
    · exact ⟨t', ht, hR'⟩
    · exact ⟨t', .step ht hst, hR'⟩

/-! ### Infinite runs -/

/-- An infinite run, which may stand still. -/
structure Execution (S : System σ) where
  state : Nat → σ
  init : S.init (state 0)
  next : ∀ n, state (n + 1) = state n ∨ S.step (state n) (state (n + 1))

namespace Execution
variable (run : S.Execution) {m n : Nat}

theorem reachable (n : Nat) : S.Reachable (run.state n) := by
  induction n with
  | zero => exact .init run.init
  | succ n ih =>
    rcases run.next n with heq | hs
    · exact heq ▸ ih
    · exact .step ih hs

/-- What every step keeps is kept. -/
theorem mono {I : σ → Prop} (hstep : ∀ s s', S.Reachable s → I s → S.step s s' → I s') (hle : m ≤ n)
    (h : I (run.state m)) : I (run.state n) := by
  induction hle with
  | refl => exact h
  | @step n _ ih =>
    rcases run.next n with heq | hs
    · exact heq ▸ ih
    · exact hstep _ _ (run.reachable n) ih hs

/-- What holds now and not later is ended by a step. -/
theorem exists_step_of_leaves {I : σ → Prop} (h : I (run.state n)) (hleaves : ∃ m, n ≤ m ∧ ¬I (run.state m)) :
    ∃ m, n ≤ m ∧ I (run.state m) ∧ S.step (run.state m) (run.state (m + 1)) ∧ ¬I (run.state (m + 1)) := by
  by_contra hnone
  obtain ⟨m, hle, hnot⟩ := hleaves
  refine hnot ?_
  clear hnot
  induction hle with
  | refl => exact h
  | @step m hle ih =>
    rcases run.next m with heq | hs
    · exact heq ▸ ih
    · exact not_not.1 fun hnot => hnone ⟨m, hle, ih, hs, hnot⟩

/-- A number that grows whenever it is below the bound reaches the bound. -/
theorem exists_ge_of_grows (f : σ → Nat) (bound : Nat)
    (hgrows : ∀ m, n ≤ m → f (run.state m) < bound → ∃ m', m ≤ m' ∧ f (run.state m) < f (run.state m')) :
    ∃ m, n ≤ m ∧ bound ≤ f (run.state m) := by
  have hreach : ∀ k, k ≤ bound → ∃ m, n ≤ m ∧ k ≤ f (run.state m) := by
    intro k
    induction k with
    | zero => exact fun _ => ⟨n, Nat.le_refl n, Nat.zero_le _⟩
    | succ k ih =>
      intro hk
      obtain ⟨m, hm, hle⟩ := ih (Nat.le_of_succ_le hk)
      by_cases hlt : f (run.state m) < bound
      · obtain ⟨m', hm', hgrown⟩ := hgrows m hm hlt
        exact ⟨m', Nat.le_trans hm hm', Nat.le_trans (Nat.succ_le_succ hle) hgrown⟩
      · exact ⟨m, hm, Nat.le_trans hk (Nat.le_of_not_lt hlt)⟩
  exact hreach bound (Nat.le_refl bound)

/-- What makes a number smaller as long as it holds does not hold for ever. -/
theorem exists_leaves (I : σ → Prop) (f : σ → Nat)
    (hdrops : ∀ m, n ≤ m → I (run.state m) → ∃ m', m ≤ m' ∧ (¬I (run.state m') ∨ f (run.state m') < f (run.state m))) :
    ∃ m, n ≤ m ∧ ¬I (run.state m) := by
  have hleaves : ∀ bound m, n ≤ m → f (run.state m) ≤ bound → ∃ m', n ≤ m' ∧ ¬I (run.state m') := by
    intro bound
    induction bound with
    | zero =>
      intro m hm hle
      by_cases hI : I (run.state m)
      · obtain ⟨m', hm', hnot | hlt⟩ := hdrops m hm hI
        · exact ⟨m', hm.trans hm', hnot⟩
        · omega
      · exact ⟨m, hm, hI⟩
    | succ bound ih =>
      intro m hm hle
      by_cases hI : I (run.state m)
      · obtain ⟨m', hm', hnot | hlt⟩ := hdrops m hm hI
        · exact ⟨m', hm.trans hm', hnot⟩
        · exact ih m' (hm.trans hm') (by omega)
      · exact ⟨m, hm, hI⟩
  exact hleaves _ n le_rfl le_rfl

theorem le_of_next (f : σ → Nat) (hnext : ∀ m, n ≤ m → f (run.state (m + 1)) ≤ f (run.state m)) {m' : Nat} (hm : n ≤ m)
    (hle : m ≤ m') : f (run.state m') ≤ f (run.state m) := by
  induction hle with
  | refl => exact le_rfl
  | step hle ih => exact (hnext _ (hm.trans hle)).trans ih

/-- A number that does not grow stays the same in the end. -/
theorem exists_const (f : σ → Nat) (hnext : ∀ m, n ≤ m → f (run.state (m + 1)) ≤ f (run.state m)) :
    ∃ m, n ≤ m ∧ ∀ m', m ≤ m' → f (run.state m') = f (run.state m) := by
  by_contra hnone
  obtain ⟨m, hm, hnot⟩ := run.exists_leaves (n := n) (fun _ => True) f fun m hm _ => by
    by_contra hstuck
    refine hnone ⟨m, hm, fun m' hm' => ?_⟩
    refine (run.le_of_next f hnext hm hm').antisymm (Nat.not_lt.1 fun hlt => hstuck ⟨m', hm', .inr hlt⟩)
  exact hnot trivial

/-- A run in which every step makes a number smaller stands still in the end. -/
theorem exists_stable (f : σ → Nat)
    (hnext : ∀ m, n ≤ m → run.state (m + 1) = run.state m ∨ f (run.state (m + 1)) < f (run.state m)) :
    ∃ m, n ≤ m ∧ ∀ m', m ≤ m' → run.state m' = run.state m := by
  obtain ⟨m, hm, hconst⟩ := run.exists_const (n := n) f fun m hm => (hnext m hm).elim (fun h => h ▸ le_rfl) le_of_lt
  refine ⟨m, hm, fun m' hm' => ?_⟩
  induction hm' with
  | refl => rfl
  | @step k hk ih =>
    rcases hnext k (hm.trans hk) with heq | hlt
    · exact heq.trans ih
    · rw [hconst (k + 1) (Nat.le_succ_of_le hk), hconst k hk] at hlt
      exact absurd hlt (Nat.lt_irrefl _)

end Execution

/-- A finite run that stands still at its end. -/
theorem Reachable.exists_execution (h : S.Reachable s) :
    ∃ run : S.Execution, ∃ n, ∀ m, n ≤ m → run.state m = s := by
  induction h with
  | init h => exact ⟨⟨fun _ => _, h, fun _ => .inl rfl⟩, 0, fun _ _ => rfl⟩
  | @step s s' _ hs ih =>
    obtain ⟨run, n, hend⟩ := ih
    refine ⟨⟨fun m => if m ≤ n then run.state m else s', ?_, fun m => ?_⟩, n + 1, fun m hm => if_neg (by omega)⟩
    · rw [if_pos (Nat.zero_le n)]
      exact run.init
    · rcases Nat.lt_trichotomy m n with hlt | rfl | hgt
      · rw [if_pos hlt.le, if_pos (Nat.succ_le_of_lt hlt)]
        exact run.next m
      · rw [if_pos le_rfl, if_neg (Nat.not_succ_le_self m), hend m le_rfl]
        exact .inr hs
      · rw [if_neg (by omega), if_neg (by omega)]
        exact .inl rfl

end System

/-! ### Labelled steps -/

section Exec
universe w
variable {σ : Type u} {τ : Type v} {ε : Type w} {act : σ → ε → Option σ} {act' : τ → ε → Option τ} {s : σ}
  {labels : List ε} {a : ε}

/-- The state after a list of labelled steps, if each of them can be taken. -/
def exec (act : σ → ε → Option σ) (s : σ) (labels : List ε) : Option σ := labels.foldlM act s

@[simp] theorem exec_nil : exec act s [] = some s := rfl

theorem exec_cons : exec act s (a :: labels) = (act s a).bind fun s => exec act s labels := rfl

theorem exec_concat : exec act s (labels ++ [a]) = (exec act s labels).bind fun s => act s a := by
  simp only [exec, List.foldlM_append, List.foldlM_cons, List.foldlM_nil, bind_pure]
  rfl

theorem exec_invariant {I : σ → Prop} (hinit : I s) (hstep : ∀ t a t', I t → act t a = some t' → I t') {t : σ}
    (h : exec act s labels = some t) : I t := by
  induction labels using List.reverseRecOn generalizing t with
  | nil => exact Option.some.inj h ▸ hinit
  | append_singleton labels a ih =>
    rw [exec_concat] at h
    obtain ⟨t₀, ht₀, ha⟩ := Option.bind_eq_some_iff.1 h
    exact hstep t₀ a t (ih ht₀) ha

/-- Machines whose steps correspond by `f` have corresponding runs. -/
theorem exec_map {f : σ → τ} (hstep : ∀ t a, act' (f t) a = (act t a).map f) :
    exec act' (f s) labels = (exec act s labels).map f := by
  induction labels using List.reverseRecOn with
  | nil => rfl
  | append_singleton labels a ih =>
    rw [exec_concat, exec_concat, ih]
    cases exec act s labels with
    | none => rfl
    | some t => exact hstep t a

end Exec
end Lts
