import Mathlib.Logic.Function.Basic
import IdtxCore.Lib.Lts
import IdtxCore.Versions

/-!
# The idle-session reaper

`ReapIdleSessions` walks the map of sessions under `m_mutex_` and erases those that had no client for
`m_idle_timeout_`. `AttachClient` looks its session up under `m_mutex_` and registers the client under the
session's `clients_mutex`, one after the other, so a call that has passed the lookup can register with a session
that a sweep erases in between.

A session object outlives its entry in the map: `objects` are all sessions ever made, `sessions` the ids in the
map. Each critical section is one step. The sweep reads the clock before it takes the lock, judges a session
under its `clients_mutex` and erases it after it has released that one.
-/

namespace IdtxCore

inductive SessionMode where
  | singleEdit
  | singleRuntime
  | collaborativeEdit
  | collaborativeRuntime
  deriving DecidableEq, Repr

inductive AttachStatus where
  | ok
  | unknownSession
  | singleEditBusy
  deriving DecidableEq, Repr

abbrev SessionId := Nat

/-- What attaching and reaping see of a session. -/
structure Attendance where
  mode : SessionMode
  clients : List ConnectionId := []
  emptySince : Option Nat
  deriving DecidableEq, Repr

namespace Attendance
variable (x : Attendance)

/-- `AttachClient` after the lookup. -/
def attach (c : ConnectionId) : AttachStatus × Attendance :=
  if x.mode = .singleEdit ∧ x.clients ≠ [] then (.singleEditBusy, x)
  else (.ok, { x with clients := x.clients.insert c, emptySince := none })

def detach (c : ConnectionId) (now : Nat) : Attendance :=
  let clients := x.clients.erase c
  { x with clients := clients, emptySince := if clients = [] then some now else x.emptySince }

/-- `now` is the clock as the sweep has read it. The timeout has no bound here, while the source compares 64-bit
nanoseconds, which hold 9223372036 seconds. -/
def idle (timeout now : Nat) : Bool :=
  decide (x.clients = []) && x.emptySince.any fun since => since + timeout ≤ now

end Attendance

/-- Where the reaper's thread is. -/
inductive Sweep where
  | waiting
  /-- before the lock -/
  | clockRead (now : Nat)
  /-- under the lock, with the sessions still to visit -/
  | visiting (now : Nat) (todo : List SessionId)
  /-- the session was found idle and is about to be erased -/
  | judged (now : Nat) (victim : SessionId) (todo : List SessionId)
  deriving DecidableEq, Repr

def Sweep.clock : Sweep → Option Nat
  | .waiting => none
  | .clockRead now | .visiting now _ | .judged now _ _ => some now

structure Hub where
  now : Nat := 0
  objects : SessionId → Option Attendance := fun _ => none
  sessions : List SessionId := []
  /-- the session that a connection's `AttachClient` has looked up -/
  attaching : ConnectionId → Option SessionId := fun _ => none
  sweep : Sweep := .waiting

namespace Hub

/-- The sweep holds `m_mutex_`. -/
def locked (a : Hub) : Prop :=
  match a.sweep with
  | .waiting | .clockRead _ => False
  | .visiting .. | .judged .. => True

def clients (a : Hub) (sid : SessionId) : List ConnectionId := ((a.objects sid).map (·.clients)).getD []

def setObject (a : Hub) (sid : SessionId) (x : Attendance) : Hub :=
  { a with objects := Function.update a.objects sid (some x) }

inductive Event where
  | pass
  | create (sid : SessionId)
  | destroy (sid : SessionId)
  | lookUp (c : ConnectionId) (sid : SessionId)
  | register (c : ConnectionId) (sid : SessionId) (status : AttachStatus)
  | detach (c : ConnectionId) (sid : SessionId)
  | readClock
  | lock
  | judge (sid : SessionId) (idle : Bool)
  | erase (sid : SessionId)
  | unlock
  deriving DecidableEq, Repr

inductive Step (timeout : Nat) (a : Hub) : Event → Hub → Prop where
  | pass {d : Nat} : Step timeout a .pass { a with now := a.now + d }
  /-- the object was made at the time `since`, before the lock was taken -/
  | create {sid : SessionId} {mode : SessionMode} {since : Nat} :
      ¬ a.locked → a.objects sid = none → since ≤ a.now →
      Step timeout a (.create sid)
        { a.setObject sid { mode := mode, emptySince := some since } with sessions := a.sessions ++ [sid] }
  | destroy {sid : SessionId} : ¬ a.locked → sid ∈ a.sessions →
      Step timeout a (.destroy sid) { a with sessions := a.sessions.filter (· ≠ sid) }
  | lookUp {c : ConnectionId} {sid : SessionId} : ¬ a.locked → sid ∈ a.sessions → a.attaching c = none →
      Step timeout a (.lookUp c sid) { a with attaching := Function.update a.attaching c (some sid) }
  | unknown {c : ConnectionId} {sid : SessionId} : ¬ a.locked → sid ∉ a.sessions → a.attaching c = none →
      Step timeout a (.register c sid .unknownSession) a
  | register {c : ConnectionId} {sid : SessionId} {x : Attendance} :
      a.attaching c = some sid → a.objects sid = some x →
      Step timeout a (.register c sid (x.attach c).1)
        { a.setObject sid (x.attach c).2 with attaching := Function.update a.attaching c none }
  | detach {c : ConnectionId} {sid : SessionId} {x : Attendance} : a.objects sid = some x →
      Step timeout a (.detach c sid) (a.setObject sid (x.detach c a.now))
  | readClock : 0 < timeout → a.sweep = .waiting → Step timeout a .readClock { a with sweep := .clockRead a.now }
  | lock {now : Nat} : a.sweep = .clockRead now →
      Step timeout a .lock { a with sweep := .visiting now a.sessions }
  | keep {now : Nat} {sid : SessionId} {todo : List SessionId} {x : Attendance} :
      a.sweep = .visiting now (sid :: todo) → a.objects sid = some x → x.idle timeout now = false →
      Step timeout a (.judge sid false) { a with sweep := .visiting now todo }
  | judge {now : Nat} {sid : SessionId} {todo : List SessionId} {x : Attendance} :
      a.sweep = .visiting now (sid :: todo) → a.objects sid = some x → x.idle timeout now = true →
      Step timeout a (.judge sid true) { a with sweep := .judged now sid todo }
  | erase {now : Nat} {sid : SessionId} {todo : List SessionId} : a.sweep = .judged now sid todo →
      Step timeout a (.erase sid)
        { a with sweep := .visiting now todo, sessions := a.sessions.filter (· ≠ sid) }
  | unlock {now : Nat} : a.sweep = .visiting now [] → Step timeout a .unlock { a with sweep := .waiting }

def system (timeout : Nat) : Lts.System Hub where
  init a := a = {}
  step a a' := ∃ event, Step timeout a event a'

/-- A session is judged idle only while no `AttachClient` has looked it up and not yet registered. -/
def Calm (a : Hub) : Event → Prop
  | .judge sid true => ∀ c, a.attaching c ≠ some sid
  | _ => True

/-- The runs all of whose steps are calm. -/
def calm (timeout : Nat) : Lts.System Hub where
  init a := a = {}
  step a a' := ∃ event, Step timeout a event a' ∧ Calm a event

/-! ### A session that nobody is about to join -/

variable {timeout : Nat} {a a' : Hub} {event : Event} {sid : SessionId}

theorem clients_setObject_self (x : Attendance) : (a.setObject sid x).clients sid = x.clients := by
  simp [clients, setObject]

theorem clients_setObject_of_ne {sid' : SessionId} (h : sid' ≠ sid) (x : Attendance) :
    (a.setObject sid x).clients sid' = a.clients sid' := by
  simp [clients, setObject, h]

theorem clients_of_object {x : Attendance} (h : a.objects sid = some x) : a.clients sid = x.clients := by
  simp [clients, h]

/-- No client is registered, and no `AttachClient` can register one without a new lookup. -/
structure Deserted (a : Hub) (sid : SessionId) : Prop where
  exists_object : a.objects sid ≠ none
  empty : a.clients sid = []
  not_attaching : ∀ c, a.attaching c ≠ some sid

/-- Without a lookup a deserted session stays so. -/
theorem Deserted.step (h : a.Deserted sid) (hs : Step timeout a event a')
    (hfound : ¬ a.locked → sid ∉ a.sessions) : a'.Deserted sid := by
  cases hs with
  | pass => exact ⟨h.exists_object, h.empty, h.not_attaching⟩
  | @create sid' mode since hlock hnone =>
    have hne : sid ≠ sid' := by
      rintro rfl
      exact h.exists_object hnone
    refine ⟨?_, (clients_setObject_of_ne hne _).trans h.empty, h.not_attaching⟩
    simpa [setObject, hne] using h.exists_object
  | destroy => exact ⟨h.exists_object, h.empty, h.not_attaching⟩
  | @lookUp c sid' hlock hmem =>
    have hne : sid' ≠ sid := by
      rintro rfl
      exact hfound hlock hmem
    refine ⟨h.exists_object, h.empty, fun d => ?_⟩
    by_cases hd : d = c
    · simpa [hd] using hne
    · simpa [hd] using h.not_attaching d
  | unknown => exact h
  | @register c sid' x hc hx =>
    have hne : sid ≠ sid' := by
      rintro rfl
      exact h.not_attaching c hc
    refine ⟨?_, (clients_setObject_of_ne hne _).trans h.empty, fun d => ?_⟩
    · simpa [setObject, hne] using h.exists_object
    · by_cases hd : d = c
      · simp [hd]
      · simpa [hd] using h.not_attaching d
  | @detach c sid' x hx =>
    by_cases hsid : sid = sid'
    · subst hsid
      have hempty : x.clients = [] := (clients_of_object hx).symm.trans h.empty
      refine ⟨by simp [setObject], ?_, h.not_attaching⟩
      rw [clients_setObject_self]
      simp [Attendance.detach, hempty]
    · refine ⟨?_, (clients_setObject_of_ne hsid _).trans h.empty, h.not_attaching⟩
      simpa [setObject, hsid] using h.exists_object
  | readClock => exact ⟨h.exists_object, h.empty, h.not_attaching⟩
  | lock => exact ⟨h.exists_object, h.empty, h.not_attaching⟩
  | keep => exact ⟨h.exists_object, h.empty, h.not_attaching⟩
  | judge => exact ⟨h.exists_object, h.empty, h.not_attaching⟩
  | erase => exact ⟨h.exists_object, h.empty, h.not_attaching⟩
  | unlock => exact ⟨h.exists_object, h.empty, h.not_attaching⟩

/-- A deserted session that is no longer in the map. -/
structure Gone (a : Hub) (sid : SessionId) : Prop where
  deserted : a.Deserted sid
  not_found : sid ∉ a.sessions

theorem Gone.step (h : a.Gone sid) (hs : Step timeout a event a') : a'.Gone sid := by
  refine ⟨h.deserted.step hs fun _ => h.not_found, ?_⟩
  cases hs with
  | @create sid' mode since hlock hnone =>
    have hne : sid ≠ sid' := by
      rintro rfl
      exact h.deserted.exists_object hnone
    simpa [setObject, hne] using h.not_found
  | destroy => exact fun hmem => h.not_found ((List.mem_filter.1 hmem).1)
  | erase => exact fun hmem => h.not_found ((List.mem_filter.1 hmem).1)
  | _ => exact h.not_found

theorem Gone.run (h : a.Gone sid) (hrun : (system timeout).Run a a') : a'.Gone sid := by
  induction hrun with
  | refl => exact h
  | tail _ hs ih =>
    obtain ⟨event, hs⟩ := hs
    exact ih.step hs

theorem Gone.not_register (h : a.Gone sid) (hs : Step timeout a event a') (c : ConnectionId) :
    event ≠ .register c sid .ok := by
  rintro rfl
  generalize hevent : Event.register c sid .ok = event at hs
  cases hs with
  | @register c' sid' x hc =>
    injection hevent with hcc hss
    subst hcc hss
    exact h.deserted.not_attaching c hc
  | unknown => injection hevent with _ _ hstatus; cases hstatus
  | _ => cases hevent

/-! ### Calm runs -/

/-- What a sweep may rely on when it erases a session. -/
structure Inv (a : Hub) : Prop where
  clock_le : ∀ now ∈ a.sweep.clock, now ≤ a.now
  judged : ∀ now victim todo, a.sweep = .judged now victim todo → a.Deserted victim

theorem clock_step (hs : Step timeout a event a') (h : ∀ now ∈ a.sweep.clock, now ≤ a.now) :
    a.now ≤ a'.now ∧ ∀ now ∈ a'.sweep.clock, now ≤ a'.now := by
  cases hs with
  | pass => exact ⟨Nat.le_add_right _ _, fun now hnow => (h now hnow).trans (Nat.le_add_right _ _)⟩
  | readClock => exact ⟨le_rfl, by simp [Sweep.clock]⟩
  | unlock => exact ⟨le_rfl, nofun⟩
  | lock hsweep => exact ⟨le_rfl, by simpa [Sweep.clock, hsweep] using h⟩
  | keep hsweep => exact ⟨le_rfl, by simpa [Sweep.clock, hsweep] using h⟩
  | judge hsweep => exact ⟨le_rfl, by simpa [Sweep.clock, hsweep] using h⟩
  | erase hsweep => exact ⟨le_rfl, by simpa [Sweep.clock, hsweep] using h⟩
  | _ => exact ⟨le_rfl, h⟩

/-- A session judged idle was deserted when it was judged, or the sweep had judged it before. -/
theorem judged_step (hs : Step timeout a event a') {now : Nat} {victim : SessionId} {todo : List SessionId}
    (h : a'.sweep = .judged now victim todo) :
    a.sweep = .judged now victim todo ∨ event = .judge victim true ∧
      (∃ x, a.objects victim = some x ∧ x.idle timeout now = true) ∧ a'.objects = a.objects ∧
      a'.attaching = a.attaching := by
  cases hs with
  | judge hsweep hx hidle =>
    simp only [Sweep.judged.injEq] at h
    obtain ⟨rfl, rfl, rfl⟩ := h
    exact .inr ⟨rfl, ⟨_, hx, hidle⟩, rfl, rfl⟩
  | readClock => cases h
  | lock => cases h
  | keep => cases h
  | erase => cases h
  | unlock => cases h
  | _ => exact .inl h

theorem Inv.step (h : a.Inv) (hs : Step timeout a event a') (hcalm : Calm a event) : a'.Inv := by
  refine ⟨(clock_step hs h.clock_le).2, fun now victim todo hjudged => ?_⟩
  rcases judged_step hs hjudged with hbefore | ⟨rfl, ⟨x, hx, hidle⟩, hobjects, hattaching⟩
  · have hlocked : a.locked := by simp [locked, hbefore]
    exact (h.judged now victim todo hbefore).step hs fun hlock => absurd hlocked hlock
  · have hempty : x.clients = [] := by
      simp only [Attendance.idle, Bool.and_eq_true, decide_eq_true_eq] at hidle
      exact hidle.1
    refine ⟨?_, ?_, ?_⟩
    · simp [hobjects, hx]
    · rw [clients, hobjects, hx]
      exact hempty
    · rw [hattaching]
      exact hcalm

theorem inv_of_reachable (h : (calm timeout).Reachable a) : a.Inv := by
  refine Lts.System.invariant ?_ ?_ h
  · rintro _ rfl
    exact ⟨nofun, nofun⟩
  · rintro b b' _ hinv ⟨event, hs, hcalm⟩
    exact hinv.step hs hcalm

theorem run_of_calm (h : (calm timeout).Run a a') : (system timeout).Run a a' :=
  Relation.ReflTransGen.mono (fun _ _ ⟨event, hs, _⟩ => ⟨event, hs⟩) _ _ h

/-- Once a session had a client at the time `seen`: it has one, or it counts as empty since no earlier than
that, and a sweep that has judged it idle has waited for the timeout since then. -/
structure SeenAt (timeout seen : Nat) (sid : SessionId) (a : Hub) : Prop where
  now_le : seen ≤ a.now
  exists_object : a.objects sid ≠ none
  since : a.clients sid ≠ [] ∨ ∀ x, a.objects sid = some x → ∀ e ∈ x.emptySince, seen ≤ e
  judged : ∀ now todo, a.sweep = .judged now sid todo → seen + timeout ≤ now

theorem since_step {seen : Nat} (hs : Step timeout a event a') (hnow : seen ≤ a.now) (hobject : a.objects sid ≠ none)
    (h : a.clients sid ≠ [] ∨ ∀ x, a.objects sid = some x → ∀ e ∈ x.emptySince, seen ≤ e) :
    a'.objects sid ≠ none ∧
      (a'.clients sid ≠ [] ∨ ∀ x, a'.objects sid = some x → ∀ e ∈ x.emptySince, seen ≤ e) := by
  cases hs with
  | @create sid' mode since hlock hnone =>
    have hne : sid ≠ sid' := by
      rintro rfl
      exact hobject hnone
    simpa [clients, setObject, hne] using ⟨hobject, h⟩
  | @register c sid' x hc hx =>
    by_cases hsid : sid = sid'
    · subst hsid
      refine ⟨by simp [setObject], ?_⟩
      unfold Attendance.attach
      split_ifs
      · simpa [clients, setObject, hx] using h
      · right
        simp [setObject]
    · simpa [clients, setObject, hsid] using ⟨hobject, h⟩
  | @detach c sid' x hx =>
    by_cases hsid : sid = sid'
    · subst hsid
      refine ⟨by simp [setObject], ?_⟩
      by_cases hempty : x.clients.erase c = []
      · right
        simpa [setObject, Attendance.detach, hempty] using hnow
      · left
        rw [clients_setObject_self]
        exact hempty
    · simpa [clients, setObject, hsid] using ⟨hobject, h⟩
  | _ => exact ⟨hobject, h⟩

theorem SeenAt.step {seen : Nat} (h : SeenAt timeout seen sid a) (hs : Step timeout a event a')
    (hclock : ∀ now ∈ a.sweep.clock, now ≤ a.now) : SeenAt timeout seen sid a' := by
  obtain ⟨hobject, hsince⟩ := since_step hs h.now_le h.exists_object h.since
  refine ⟨h.now_le.trans (clock_step hs hclock).1, hobject, hsince, fun now todo hjudged => ?_⟩
  rcases judged_step hs hjudged with hbefore | ⟨-, ⟨x, hx, hidle⟩, -, -⟩
  · exact h.judged now todo hbefore
  · simp only [Attendance.idle, Bool.and_eq_true, decide_eq_true_eq, Option.any_eq_true] at hidle
    obtain ⟨hempty, e, he, hle⟩ := hidle
    have hclients : a.clients sid = [] := (clients_of_object hx).trans hempty
    have hseen : seen ≤ e := h.since.resolve_left (not_not.2 hclients) x hx e he
    have hwaited : e + timeout ≤ now := by simpa using hle
    omega

theorem seenAt_run {b : Hub} (hb : (calm timeout).Reachable b) (hclients : b.clients sid ≠ [])
    (hrun : (calm timeout).Run b a) : SeenAt timeout b.now sid a := by
  have hobject : b.objects sid ≠ none := by
    intro hnone
    simp [clients, hnone] at hclients
  induction hrun with
  | refl =>
    refine ⟨le_rfl, hobject, .inl hclients, fun now todo hjudged => ?_⟩
    exact absurd ((inv_of_reachable hb).judged now sid todo hjudged).empty hclients
  | tail hrun hs ih =>
    obtain ⟨event, hs, -⟩ := hs
    exact ih.step hs (inv_of_reachable (hb.run hrun)).clock_le

theorem erase_inv (hs : Step timeout a (.erase sid) a') :
    ∃ now todo, a.sweep = .judged now sid todo ∧
      a' = { a with sweep := .visiting now todo, sessions := a.sessions.filter (· ≠ sid) } := by
  cases hs with
  | erase hsweep => exact ⟨_, _, hsweep, rfl⟩

/-- In a calm run, a session that a sweep erases had no client in the time of the timeout before that, and no
`AttachClient` registers one with it afterwards. -/
theorem reaps_only_deserted {b a₁ a₂ : Hub} (hb : (calm timeout).Reachable b) (hrun : (calm timeout).Run b a)
    (herase : Step timeout a (.erase sid) a₁) (hafter : (calm timeout).Run a₁ a₂) :
    (a.now < b.now + timeout → b.clients sid = []) ∧ a₂.clients sid = [] ∧
      ∀ event a₃, Step timeout a₂ event a₃ → ∀ c, event ≠ .register c sid .ok := by
  obtain ⟨now, todo, hjudged, rfl⟩ := erase_inv herase
  have hinv := inv_of_reachable (hb.run hrun)
  have hdeserted := hinv.judged now sid todo hjudged
  have hgone : Gone { a with sweep := .visiting now todo, sessions := a.sessions.filter (· ≠ sid) } sid :=
    ⟨⟨hdeserted.exists_object, hdeserted.empty, hdeserted.not_attaching⟩, by simp⟩
  replace hgone := hgone.run (run_of_calm hafter)
  refine ⟨fun hlt => ?_, hgone.deserted.empty, fun event a₃ hs c => hgone.not_register hs c⟩
  by_contra hclients
  have hwaited := (seenAt_run hb hclients hrun).judged now todo hjudged
  have hclock := hinv.clock_le now (by simp [Sweep.clock, hjudged])
  omega

/-! ### One session, one client -/

/-- Session 0 is made, and ten seconds pass. -/
def emptyRoom : Hub :=
  { now := 10
    objects := Function.update (fun _ => none) 0 (some { mode := .collaborativeEdit, emptySince := some 0 })
    sessions := [0] }

theorem calm_emptyRoom : (calm 5).Run {} emptyRoom := by
  have hcreate : (calm 5).Run {} { emptyRoom with now := 0 } :=
    .single ⟨.create 0, .create id rfl le_rfl, trivial⟩
  exact hcreate.tail ⟨.pass, .pass (d := 10), trivial⟩

theorem attach_after_erase : ∃ a a₁ a₂ : Hub, (system 5).Reachable a ∧ Step 5 a (.erase 0) a₁ ∧
    Step 5 a₁ (.register 7 0 .ok) a₂ ∧ 0 ∉ a₂.sessions ∧ a₂.clients 0 = [7] := by
  have h : (system 5).Reachable emptyRoom := .run (.init rfl) (run_of_calm calm_emptyRoom)
  -- client 7 has passed the lookup when the sweep begins
  replace h := h.step ⟨.lookUp 7 0, .lookUp id (by decide) rfl⟩
  replace h := h.step ⟨.readClock, .readClock (by decide) rfl⟩
  replace h := h.step ⟨.lock, .lock rfl⟩
  replace h := h.step ⟨.judge 0 true, .judge rfl rfl rfl⟩
  have hregister : Step 5 { emptyRoom with
      sessions := [], attaching := Function.update emptyRoom.attaching 7 (some 0), sweep := .visiting 10 [] }
    (.register 7 0 _) _ := .register rfl rfl
  exact ⟨_, _, _, h, .erase rfl, hregister, by decide, by decide⟩

theorem reaps_only_deserted_emptyRoom : ∃ a a₁ : Hub, (calm 5).Run emptyRoom a ∧ Step 5 a (.erase 0) a₁ ∧
    (a.now < emptyRoom.now + 5 → emptyRoom.clients 0 = []) ∧ a₁.clients 0 = [] ∧
    ∀ event a₂, Step 5 a₁ event a₂ → ∀ c, event ≠ .register c 0 .ok := by
  have hrun : (calm 5).Run emptyRoom { emptyRoom with sweep := .judged 10 0 [] } := by
    have hread : (calm 5).Run emptyRoom { emptyRoom with sweep := .clockRead 10 } :=
      .single ⟨.readClock, .readClock (by decide) rfl, trivial⟩
    have hlock : (calm 5).Run emptyRoom { emptyRoom with sweep := .visiting 10 [0] } :=
      hread.tail ⟨.lock, .lock rfl, trivial⟩
    exact hlock.tail ⟨.judge 0 true, .judge rfl rfl rfl, fun c => nofun⟩
  exact ⟨_, _, hrun, .erase rfl, reaps_only_deserted (.run (.init rfl) calm_emptyRoom) hrun (.erase rfl) .refl⟩

end Hub
end IdtxCore
