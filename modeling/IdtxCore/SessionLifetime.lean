import IdtxCore.Reaper
import IdtxCore.SchedulerIdle
import Mathlib.Tactic.Abel

/-!
# The life of a session

`Create` puts a session into the map of the manager. `Destroy`, a sweep of the reaper and the destructor take sessions
out of the map under `m_mutex_` and tear them down without it: `TeardownSession` closes the admission of the session's
commands and waits until they are handled. The handler of the commands has a plain pointer to its session; what keeps
the session alive is the map, the thread that tears it down, and the threads that have looked it up.

Every session is in the map, with one thread that tears it down, or torn down (`Inv.placed`), and only the thread that
has taken a session out of the map closes its admission. So a session is torn down once, and is not released before its
last command is handled.
-/

namespace IdtxCore

open Tally

/-- The threads `T` with a session manager. -/
structure SessionLifetime (T κ : Type) where
  /-- The sessions are numbered in the order in which they are made. -/
  created : Nat := 0
  sessions : List SessionId := []
  /-- the sessions that a thread has a pointer to -/
  held : T → List SessionId := fun _ => []
  /-- the sessions that a thread has taken out of the map and not yet torn down -/
  removed : T → List SessionId := fun _ => []
  /-- The destructor has taken the sessions. -/
  ended : Bool := false
  scheduler : SessionId → Scheduler.State T κ := fun _ => .new
  tornDown : List SessionId := []

namespace SessionLifetime
variable {T κ : Type}

/-- The session has an owner. -/
def Alive (a : SessionLifetime T κ) (sid : SessionId) : Prop :=
  sid ∈ a.sessions ∨ ∃ t, sid ∈ a.held t ∨ sid ∈ a.removed t

instance [Fintype T] (a : SessionLifetime T κ) (sid : SessionId) : Decidable (a.Alive sid) :=
  inferInstanceAs (Decidable (sid ∈ a.sessions ∨ ∃ t, sid ∈ a.held t ∨ sid ∈ a.removed t))

section Step
variable [DecidableEq T]

def setHeld (a : SessionLifetime T κ) (t : T) (held : List SessionId) : SessionLifetime T κ :=
  { a with held := Function.update a.held t held }

def setRemoved (a : SessionLifetime T κ) (t : T) (removed : List SessionId) : SessionLifetime T κ :=
  { a with removed := Function.update a.removed t removed }

def setScheduler (a : SessionLifetime T κ) (sid : SessionId) (s : Scheduler.State T κ) : SessionLifetime T κ :=
  { a with scheduler := Function.update a.scheduler sid s }

inductive Step (a : SessionLifetime T κ) : SessionLifetime T κ → Prop where
  | create (t : T) : a.ended = false →
      Step a { a.setHeld t (a.created :: a.held t) with
        created := a.created + 1, sessions := a.sessions ++ [a.created] }
  /-- `Get`, `List` or `FindByUsdFile` -/
  | find (t : T) (p : SessionId → Bool) : Step a (a.setHeld t (a.sessions.filter p ++ a.held t))
  /-- `weak_ptr::lock` -/
  | lock (t : T) (sid : SessionId) : a.Alive sid → Step a (a.setHeld t (sid :: a.held t))
  | release (t : T) (sid : SessionId) : Step a (a.setHeld t ((a.held t).erase sid))
  /-- `Destroy` and `ReapIdleSessions` under `m_mutex_` -/
  | remove (t : T) (p : SessionId → Bool) : a.ended = false → a.removed t = [] →
      Step a { a.setRemoved t (a.sessions.filter p) with sessions := a.sessions.filter (!p ·) }
  /-- The destructor swaps the map. The reaper is joined, and nobody else uses the manager. -/
  | destruct (t : T) : a.ended = false → (∀ u, a.removed u = []) →
      Step a { a.setRemoved t a.sessions with sessions := [], ended := true }
  /-- A thread of the session's scheduler makes a step; who submits has the session. -/
  | schedule (sid : SessionId) {s' : Scheduler.State T κ} : Scheduler.Step (a.scheduler sid) s' →
      s'.closer = (a.scheduler sid).closer →
      (∀ x, s'.trace = (a.scheduler sid).trace ++ [.called x] → ∃ t, sid ∈ a.held t) →
      Step a (a.setScheduler sid s')
  /-- `CloseAdmission` and `WaitIdle` of `TeardownSession` -/
  | close (t : T) {sid : SessionId} {rest : List SessionId} {s' : Scheduler.State T κ} :
      a.removed t = sid :: rest → Scheduler.Step (a.scheduler sid) s' → s'.closer ≠ (a.scheduler sid).closer →
      Step a (a.setScheduler sid s')
  /-- `TeardownSession` returns. -/
  | tearDown (t : T) {sid : SessionId} {rest : List SessionId} : a.removed t = sid :: rest →
      (a.scheduler sid).closer = .returned →
      Step a { (a.setRemoved t rest).setHeld t (sid :: a.held t) with tornDown := a.tornDown ++ [sid] }

def system (T κ : Type) [DecidableEq T] : Lts.System (SessionLifetime T κ) where
  init a := a = {}
  step := Step

end Step

/-! ### Where a session is -/

variable [Fintype T] [DecidableEq T] {a a' : SessionLifetime T κ} {sid : SessionId}

/-- All sessions that somebody tears down. -/
def dying (a : SessionLifetime T κ) : Multiset SessionId :=
  total (fun sids : List SessionId => (sids : Multiset SessionId)) a.removed

structure Inv (a : SessionLifetime T κ) : Prop where
  placed : (a.sessions : Multiset SessionId) + a.dying + a.tornDown = Multiset.range a.created
  ended : a.ended = true → a.sessions = []
  scheduler : ∀ sid, (Scheduler.system T κ).Reachable (a.scheduler sid)
  running : ∀ sid, sid ∈ a.sessions ∨ a.created ≤ sid → (a.scheduler sid).closer = .running
  returned : ∀ sid ∈ a.tornDown, (a.scheduler sid).closer = .returned

omit [DecidableEq T] in
theorem mem_dying (t : T) (h : sid ∈ a.removed t) : sid ∈ a.dying :=
  Multiset.mem_sum.2 ⟨t, Finset.mem_univ t, Multiset.mem_coe.2 h⟩

theorem dying_setRemoved (a : SessionLifetime T κ) (t : T) (sids : List SessionId) :
    (a.setRemoved t sids).dying + (a.removed t : Multiset SessionId) = a.dying + (sids : Multiset SessionId) :=
  total_update ..

namespace Inv

theorem nodup (h : Inv a) : ((a.sessions : Multiset SessionId) + a.dying + a.tornDown).Nodup := by
  rw [h.placed]
  exact Multiset.nodup_range _

theorem lt_created (h : Inv a)
    (hsid : sid ∈ (a.sessions : Multiset SessionId) + a.dying + a.tornDown) : sid < a.created := by
  rw [h.placed] at hsid
  exact Multiset.mem_range.1 hsid

/-- A session that somebody tears down is neither in the map nor torn down. -/
theorem not_mem_of_dying (h : Inv a) (hsid : sid ∈ a.dying) : sid ∉ a.sessions ∧ sid ∉ a.tornDown := by
  have hnodup := h.nodup
  constructor
  · intro hmem
    have hdisjoint := Multiset.disjoint_of_nodup_add (Multiset.nodup_of_le (Multiset.le_add_right _ _) hnodup)
    exact Multiset.disjoint_left.1 hdisjoint (Multiset.mem_coe.2 hmem) hsid
  · intro hmem
    exact Multiset.disjoint_left.1 (Multiset.disjoint_of_nodup_add hnodup) (Multiset.mem_add.2 (.inr hsid))
      (Multiset.mem_coe.2 hmem)

theorem setHeld (h : Inv a) (t : T) (held : List SessionId) : Inv (a.setHeld t held) :=
  ⟨h.placed, h.ended, h.scheduler, h.running, h.returned⟩

theorem create (h : Inv a) (hended : a.ended = false) :
    Inv { a with created := a.created + 1, sessions := a.sessions ++ [a.created] } where
  placed := by
    show ((a.sessions ++ [a.created] : List SessionId) : Multiset SessionId) + a.dying + a.tornDown = _
    rw [Multiset.range_succ, ← h.placed, ← Multiset.coe_add, Multiset.coe_singleton, ← Multiset.singleton_add]
    abel
  ended hended' := absurd (hended.symm.trans hended') Bool.false_ne_true
  scheduler := h.scheduler
  running sid hsid := by
    rw [List.mem_append, List.mem_singleton] at hsid
    rcases hsid with (hsid | rfl) | hsid
    · exact h.running sid (.inl hsid)
    · exact h.running _ (.inr le_rfl)
    · exact h.running sid (.inr (Nat.le_of_succ_le hsid))
  returned := h.returned

theorem remove (h : Inv a) (hended : a.ended = false) {t : T} (ht : a.removed t = []) (p : SessionId → Bool) :
    Inv { a.setRemoved t (a.sessions.filter p) with sessions := a.sessions.filter (!p ·) } where
  placed := by
    have hdying := a.dying_setRemoved t (a.sessions.filter p)
    rw [ht, Multiset.coe_nil, add_zero] at hdying
    have hsplit : ((a.sessions.filter p : List SessionId) : Multiset SessionId) +
        (a.sessions.filter (!p ·) : List SessionId) = a.sessions := by
      rw [Multiset.coe_add, Multiset.coe_eq_coe]
      exact List.filter_append_perm p a.sessions
    show ((a.sessions.filter (!p ·) : List SessionId) : Multiset SessionId) + (a.setRemoved t _).dying + a.tornDown =
      Multiset.range a.created
    rw [hdying, ← h.placed, ← hsplit]
    abel
  ended hended' := absurd (hended.symm.trans hended') Bool.false_ne_true
  scheduler := h.scheduler
  running sid hsid := h.running sid (hsid.imp_left List.mem_of_mem_filter)
  returned := h.returned

theorem destruct (h : Inv a) {t : T} (ht : a.removed t = []) :
    Inv { a.setRemoved t a.sessions with sessions := [], ended := true } where
  placed := by
    have hdying := a.dying_setRemoved t a.sessions
    rw [ht, Multiset.coe_nil, add_zero] at hdying
    show (([] : List SessionId) : Multiset SessionId) + (a.setRemoved t a.sessions).dying + a.tornDown =
      Multiset.range a.created
    rw [hdying, ← h.placed, Multiset.coe_nil, zero_add, add_comm a.dying]
  ended _ := rfl
  scheduler := h.scheduler
  running sid hsid := h.running sid (.inr (hsid.resolve_left List.not_mem_nil))
  returned := h.returned

theorem schedule (h : Inv a) {s' : Scheduler.State T κ} (hs : Scheduler.Step (a.scheduler sid) s')
    (hcloser : ∀ c, (sid ∈ a.sessions ∨ a.created ≤ sid) ∧ c = .running ∨ sid ∈ a.tornDown ∧ c = .returned →
      (a.scheduler sid).closer = c → s'.closer = c) : Inv (a.setScheduler sid s') where
  placed := h.placed
  ended := h.ended
  scheduler sid' := by
    by_cases hsid : sid' = sid
    · subst hsid
      simpa [setScheduler] using (h.scheduler sid').step hs
    · simpa [setScheduler, hsid] using h.scheduler sid'
  running sid' hsid' := by
    by_cases hsid : sid' = sid
    · subst hsid
      simpa [setScheduler] using hcloser .running (.inl ⟨hsid', rfl⟩) (h.running sid' hsid')
    · simpa [setScheduler, hsid] using h.running sid' hsid'
  returned sid' hsid' := by
    by_cases hsid : sid' = sid
    · subst hsid
      simpa [setScheduler] using hcloser .returned (.inr ⟨hsid', rfl⟩) (h.returned sid' hsid')
    · simpa [setScheduler, hsid] using h.returned sid' hsid'

theorem tearDown (h : Inv a) {t : T} {rest : List SessionId} (ht : a.removed t = sid :: rest)
    (hreturned : (a.scheduler sid).closer = .returned) :
    Inv { a.setRemoved t rest with tornDown := a.tornDown ++ [sid] } where
  placed := by
    have hbalance := a.dying_setRemoved t rest
    rw [ht, ← Multiset.cons_coe, ← Multiset.singleton_add, ← add_assoc] at hbalance
    have hdying := add_right_cancel hbalance
    show (a.sessions : Multiset SessionId) + (a.setRemoved t rest).dying +
      ((a.tornDown ++ [sid] : List SessionId) : Multiset SessionId) = Multiset.range a.created
    rw [← Multiset.coe_add, Multiset.coe_singleton, ← h.placed, ← hdying]
    abel
  ended := h.ended
  scheduler := h.scheduler
  running := h.running
  returned sid' hsid' := by
    rcases List.mem_append.1 hsid' with hsid' | hsid'
    · exact h.returned sid' hsid'
    · exact List.mem_singleton.1 hsid' ▸ hreturned

theorem step (h : Inv a) (hs : Step a a') : Inv a' := by
  cases hs with
  | create t hended => exact (h.setHeld t _).create hended
  | find t p => exact h.setHeld t _
  | lock t sid _ => exact h.setHeld t _
  | release t sid => exact h.setHeld t _
  | remove t p hended ht => exact h.remove hended ht p
  | destruct t hended hnone => exact h.destruct (hnone t)
  | schedule sid hs hcloser _ => exact h.schedule hs fun c _ hc => hcloser.trans hc
  | close t ht hs hcloser =>
    -- only the session that the thread tears down is touched
    have hdying := mem_dying t (ht ▸ List.mem_cons_self)
    obtain ⟨hsessions, htornDown⟩ := h.not_mem_of_dying hdying
    have hlt := h.lt_created (Multiset.mem_add.2 (.inl (Multiset.mem_add.2 (.inr hdying))))
    refine h.schedule hs ?_
    rintro c (⟨hmem | hle, -⟩ | ⟨hmem, -⟩)
    · exact absurd hmem hsessions
    · exact absurd hle (Nat.not_le.2 hlt)
    · exact absurd hmem htornDown
  | tearDown t ht hreturned => exact (h.tearDown ht hreturned).setHeld t _

end Inv

theorem inv_of_reachable (h : (system T κ).Reachable a) : Inv a := by
  refine Lts.System.invariant ?_ (fun _ _ _ hi hs => hi.step hs) h
  rintro _ rfl
  refine ⟨?_, fun _ => rfl, fun sid => .init rfl, fun _ _ => rfl, fun _ hsid => absurd hsid List.not_mem_nil⟩
  have hdying : ({} : SessionLifetime T κ).dying = 0 := total_const_zero fun _ => rfl
  rw [hdying]
  rfl

/-! ### Teardown -/

/-- The session was made and has no owner left. -/
structure Released (a : SessionLifetime T κ) (sid : SessionId) : Prop where
  made : sid < a.created
  not_alive : ¬ a.Alive sid

theorem Released.mem_tornDown (h : a.Released sid) (hi : Inv a) : sid ∈ a.tornDown := by
  have hmem : sid ∈ (a.sessions : Multiset SessionId) + a.dying + a.tornDown := by
    rw [hi.placed]
    exact Multiset.mem_range.2 h.made
  rw [Multiset.mem_add, Multiset.mem_add] at hmem
  rcases hmem with (hmem | hmem) | hmem
  · exact absurd (.inl hmem) h.not_alive
  · obtain ⟨t, -, ht⟩ := Multiset.mem_sum.1 hmem
    exact absurd (.inr ⟨t, .inr ht⟩) h.not_alive
  · exact hmem

omit [Fintype T] in
/-- Nobody gets a pointer to a released session. -/
theorem Released.step (h : a.Released sid) (hs : Step a a') : a'.Released sid := by
  have hsessions : sid ∉ a.sessions := fun hmem => h.not_alive (.inl hmem)
  have hheld : ∀ t, sid ∉ a.held t := fun t ht => h.not_alive (.inr ⟨t, .inl ht⟩)
  have hremoved : ∀ t, sid ∉ a.removed t := fun t ht => h.not_alive (.inr ⟨t, .inr ht⟩)
  -- a thread's list that does not name the session, in the place of another
  have update : ∀ {lists : T → List SessionId} (t : T) {sids : List SessionId}, (∀ u, sid ∉ lists u) → sid ∉ sids →
      ∀ u, sid ∉ Function.update lists t sids u := by
    intro lists t sids hlists hsids u
    by_cases hu : u = t
    · simpa [hu] using hsids
    · simpa [hu] using hlists u
  have released : ∀ {b : SessionLifetime T κ}, a.created ≤ b.created → sid ∉ b.sessions → (∀ t, sid ∉ b.held t) →
      (∀ t, sid ∉ b.removed t) → b.Released sid := by
    intro b hcreated hb hbheld hbremoved
    refine ⟨h.made.trans_le hcreated, ?_⟩
    rintro (hmem | ⟨t, hmem | hmem⟩)
    · exact hb hmem
    · exact hbheld t hmem
    · exact hbremoved t hmem
  cases hs with
  | create t _ =>
    have hne : sid ≠ a.created := Nat.ne_of_lt h.made
    exact released (Nat.le_succ _) (by simp [hsessions, hne]) (update t hheld (by simp [hheld, hne])) hremoved
  | find t p => exact released le_rfl hsessions (update t hheld (by simp [hheld, hsessions])) hremoved
  | lock t sid' halive =>
    have hne : sid ≠ sid' := by
      rintro rfl
      exact h.not_alive halive
    exact released le_rfl hsessions (update t hheld (by simp [hheld, hne])) hremoved
  | release t sid' =>
    exact released le_rfl hsessions (update t hheld fun hmem => hheld t (List.mem_of_mem_erase hmem)) hremoved
  | remove t p _ _ =>
    exact released le_rfl (by simp [hsessions]) hheld (update t hremoved (by simp [hsessions]))
  | destruct t _ _ => exact released le_rfl List.not_mem_nil hheld (update t hremoved hsessions)
  | schedule sid' => exact released le_rfl hsessions hheld hremoved
  | close t => exact released le_rfl hsessions hheld hremoved
  | @tearDown t sid' rest ht _ =>
    have hmem := hremoved t
    rw [ht, List.mem_cons, not_or] at hmem
    exact released le_rfl hsessions (update t hheld (by simp [hheld, hmem])) (update t hremoved hmem.2)

omit [Fintype T] in
theorem scheduler_run (hs : Step a a') (sid : SessionId) :
    (Scheduler.system T κ).Run (a.scheduler sid) (a'.scheduler sid) := by
  have update : ∀ {sid' : SessionId} {s' : Scheduler.State T κ}, Scheduler.Step (a.scheduler sid') s' →
      (Scheduler.system T κ).Run (a.scheduler sid) (Function.update a.scheduler sid' s' sid) := by
    intro sid' s' hstep
    by_cases hsid : sid = sid'
    · subst hsid
      rw [Function.update_self]
      exact .single hstep
    · rw [Function.update_of_ne hsid]
  cases hs with
  | schedule sid' hstep => exact update hstep
  | close t _ hstep => exact update hstep
  | _ => exact .refl

/-- Thread `true` makes a session and runs a command on it, then thread `false` destroys the manager. -/
theorem exists_run_to_release : ∃ a : SessionLifetime Bool Nat, (system Bool Nat).Reachable a ∧ a.Released 0 ∧
    .returned ⟨0, .normal, 7⟩ .accepted ∈ (a.scheduler 0).trace := by
  have h : (system Bool Nat).Reachable _ := .init rfl
  replace h := h.step (.create true rfl)
  replace h := h.step (.schedule 0 (.call true .normal 7 rfl) (by decide) fun _ _ => ⟨true, .head _⟩)
  replace h := h.step (.schedule 0 (.announce true _ _ rfl) (by decide) fun _ _ => ⟨true, .head _⟩)
  replace h := h.step (.schedule 0 (.admission true _ _ rfl) (by decide) fun _ _ => ⟨true, .head _⟩)
  replace h := h.step (.schedule 0 (.push true false _ _ _ rfl) (by decide) fun _ _ => ⟨true, .head _⟩)
  replace h := h.step (.schedule 0 (.push true false _ _ _ rfl) (by decide) fun _ _ => ⟨true, .head _⟩)
  replace h := h.step (.schedule 0 (.push true false _ _ _ rfl) (by decide) fun _ _ => ⟨true, .head _⟩)
  replace h := h.step (.schedule 0 (.push true false _ _ _ rfl) (by decide) fun _ _ => ⟨true, .head _⟩)
  replace h := h.step (.schedule 0 (.push true false _ _ _ rfl) (by decide) fun _ _ => ⟨true, .head _⟩)
  replace h := h.step (.schedule 0 (.exchange true _ rfl) (by decide) fun _ _ => ⟨true, .head _⟩)
  replace h := h.step (.schedule 0 (.postRefused true _ rfl) (by decide) fun _ _ => ⟨true, .head _⟩)
  replace h := h.step (.schedule 0 (.pop true _ _ _ _ _ rfl) (by decide) fun _ _ => ⟨true, .head _⟩)
  replace h := h.step (.schedule 0 (.pop true _ _ _ _ _ rfl) (by decide) fun _ _ => ⟨true, .head _⟩)
  replace h := h.step (.schedule 0 (.pop true _ _ _ _ _ rfl) (by decide) fun _ _ => ⟨true, .head _⟩)
  replace h := h.step (.schedule 0 (.pop true _ _ _ _ _ rfl) (by decide) fun _ _ => ⟨true, .head _⟩)
  replace h := h.step (.schedule 0 (.pop true _ _ _ _ _ rfl) (by decide) fun _ _ => ⟨true, .head _⟩)
  replace h := h.step (.schedule 0 (.pop true _ _ _ _ _ rfl) (by decide) fun _ _ => ⟨true, .head _⟩)
  replace h := h.step (.schedule 0 (.pop true _ _ _ _ _ rfl) (by decide) fun _ _ => ⟨true, .head _⟩)
  replace h := h.step (.schedule 0 (.finish true _ _ _ _ rfl) (by decide) fun _ _ => ⟨true, .head _⟩)
  replace h := h.step (.schedule 0 (.release true _ _ _ rfl) (by decide) fun _ _ => ⟨true, .head _⟩)
  replace h := h.step (.schedule 0 (.pop true _ _ _ _ _ rfl) (by decide) fun _ _ => ⟨true, .head _⟩)
  replace h := h.step (.schedule 0 (.pop true _ _ _ _ _ rfl) (by decide) fun _ _ => ⟨true, .head _⟩)
  replace h := h.step (.schedule 0 (.pop true _ _ _ _ _ rfl) (by decide) fun _ _ => ⟨true, .head _⟩)
  replace h := h.step (.schedule 0 (.pop true _ _ _ _ _ rfl) (by decide) fun _ _ => ⟨true, .head _⟩)
  replace h := h.step (.schedule 0 (.checkPending true _ _ _ rfl) (by decide) fun _ _ => ⟨true, .head _⟩)
  replace h := h.step (.schedule 0 (.clear true _ _ _ rfl) (by decide) fun _ _ => ⟨true, .head _⟩)
  replace h := h.step (.schedule 0 (.recheck true _ _ _ rfl) (by decide) fun _ _ => ⟨true, .head _⟩)
  replace h := h.step (.destruct false rfl (Bool.rec rfl rfl))
  replace h := h.step (.close false rfl (.closeAdmission rfl) (by decide))
  replace h := h.step (.close false rfl (.waitPending rfl (by decide)) (by decide))
  replace h := h.step (.close false rfl (.waitDrain rfl (by decide)) (by decide))
  replace h := h.step (.tearDown false rfl rfl)
  replace h := h.step (.release false 0)
  replace h := h.step (.release true 0)
  exact ⟨_, h, ⟨by decide, by decide⟩, by decide⟩

end SessionLifetime
end IdtxCore
