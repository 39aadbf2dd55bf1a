import Mathlib.Data.List.Count
import Mathlib.Logic.Function.Basic
import IdtxCore.Lib.Lts
import IdtxCore.Versions

/-!
# Corrections after rejected updates

An update that finds the queue full is answered by `OnMessage`, which then asks for a correction of the prim:
`SubmitCorrection`, and in it `SubmitCorrectionCommand` with the `PendingCorrection` of the connection and the
prim. Its flag `queued` is set by the connection's thread before the command is submitted, cleared by the consumer
before it reads the prim's state, and cleared again by the connection's thread if the submission failed.

Each access to the flag, the priority mailbox or the stage is a step of its own. The message handler of a
connection does not overlap with itself. A command counts as being in the mailbox from the moment its slot is
reserved. `clock`, `lastRead` and the time in `IoPoint` are not in the source: they say what came first.
-/

namespace IdtxCore

/-- Where a connection's message handler is; `time` is when its update was rejected. -/
inductive IoPoint (Path : Type) where
  | idle
  /-- the update was rejected with `QueueFull`, before the session is looked up -/
  | rejected (primPath : Path) (time : Nat)
  /-- the session was found, before `queued.exchange(true)` -/
  | found (primPath : Path) (time : Nat)
  /-- the exchange has set the flag, before the submission -/
  | marked (primPath : Path) (time : Nat)
  /-- the submission failed, before `queued.store(false)` -/
  | refused (primPath : Path) (time : Nat)
  /-- about to return from `SubmitCorrectionCommand`, with no failed submission -/
  | returning (primPath : Path) (time : Nat)
  deriving DecidableEq, Repr

/-- The connection's thread has set the flag of the prim and not yet handed it over. -/
def IoPoint.holds {Path : Type} [DecidableEq Path] (p : Path) : IoPoint Path → Bool
  | .marked q _ | .refused q _ => q = p
  | _ => false

/-- The time of the rejection that is being handled. -/
def IoPoint.time {Path : Type} : IoPoint Path → Option Nat
  | .idle => none
  | .rejected _ t | .found _ t | .marked _ t | .refused _ t | .returning _ t => some t

/-- Where the consumer is with a `CorrectionCommand`. -/
inductive ConsumerPoint (Path : Type) where
  | idle
  /-- before `queued.store(false)` -/
  | taken (connection : ConnectionId) (primPath : Path)
  /-- before the state is read -/
  | cleared (connection : ConnectionId) (primPath : Path)
  deriving DecidableEq, Repr

/-- The consumer has taken the command of the connection and the prim, and the flag is still set. -/
def ConsumerPoint.holds {Path : Type} [DecidableEq Path] (c : ConnectionId) (p : Path) : ConsumerPoint Path → Bool
  | .taken c' p' => (c', p') = (c, p)
  | _ => false

theorem ConsumerPoint.eq_taken {Path : Type} [DecidableEq Path] {c : ConnectionId} {p : Path}
    {consumer : ConsumerPoint Path} (h : consumer.holds c p = true) : consumer = .taken c p := by
  cases consumer with
  | taken c' p' => simpa [holds] using h
  | idle | cleared => simp [holds] at h

structure Corrections (Path : Type) where
  /-- `PendingCorrection::queued` -/
  queued : ConnectionId → Path → Bool := fun _ _ => false
  /-- the `CorrectionCommand`s in the priority mailbox -/
  priority : List (ConnectionId × Path) := []
  io : ConnectionId → IoPoint Path := fun _ => .idle
  consumer : ConsumerPoint Path := .idle
  clock : Nat := 0
  /-- when a `CorrectionCommand` has last read the prim's state -/
  lastRead : ConnectionId → Path → Option Nat := fun _ _ => none

namespace Corrections
variable {Path : Type} [DecidableEq Path]

/-- Time passes with every step. -/
def setIo (a : Corrections Path) (c : ConnectionId) (io : IoPoint Path) : Corrections Path :=
  { a with io := Function.update a.io c io, clock := a.clock + 1 }

def setConsumer (a : Corrections Path) (consumer : ConsumerPoint Path) : Corrections Path :=
  { a with consumer := consumer, clock := a.clock + 1 }

def setQueued (a : Corrections Path) (c : ConnectionId) (p : Path) (queued : Bool) : Corrections Path :=
  { a with queued := Function.update a.queued c (Function.update (a.queued c) p queued) }

/-- The threads of the connections and the consumer; between two corrections it handles other commands. -/
inductive Step (a : Corrections Path) : Corrections Path → Prop where
  | reject {c : ConnectionId} {p : Path} : a.io c = .idle → Step a (a.setIo c (.rejected p a.clock))
  | sessionGone {c : ConnectionId} {p : Path} {t : Nat} : a.io c = .rejected p t → Step a (a.setIo c .idle)
  | find {c : ConnectionId} {p : Path} {t : Nat} : a.io c = .rejected p t → Step a (a.setIo c (.found p t))
  | markedAlready {c : ConnectionId} {p : Path} {t : Nat} : a.io c = .found p t → a.queued c p = true →
      Step a (a.setIo c (.returning p t))
  | mark {c : ConnectionId} {p : Path} {t : Nat} : a.io c = .found p t → a.queued c p = false →
      Step a ((a.setIo c (.marked p t)).setQueued c p true)
  | submit {c : ConnectionId} {p : Path} {t : Nat} : a.io c = .marked p t →
      Step a { a.setIo c (.returning p t) with priority := a.priority ++ [(c, p)] }
  | refuse {c : ConnectionId} {p : Path} {t : Nat} : a.io c = .marked p t →
      Step a (a.setIo c (.refused p t))
  | unmark {c : ConnectionId} {p : Path} {t : Nat} : a.io c = .refused p t →
      Step a ((a.setIo c .idle).setQueued c p false)
  | leave {c : ConnectionId} {p : Path} {t : Nat} : a.io c = .returning p t → Step a (a.setIo c .idle)
  | take {c : ConnectionId} {p : Path} {rest : List (ConnectionId × Path)} :
      a.consumer = .idle → a.priority = (c, p) :: rest →
      Step a { a.setConsumer (.taken c p) with priority := rest }
  | clear {c : ConnectionId} {p : Path} : a.consumer = .taken c p →
      Step a ((a.setConsumer (.cleared c p)).setQueued c p false)
  | read {c : ConnectionId} {p : Path} : a.consumer = .cleared c p →
      Step a { a.setConsumer .idle with
        lastRead := Function.update a.lastRead c (Function.update (a.lastRead c) p (some a.clock)) }

def system (Path : Type) [DecidableEq Path] : Lts.System (Corrections Path) where
  init a := a = {}
  step := Step

/-! ### The flag

Whoever sets the flag holds it until the command is in the mailbox; from then on the command carries it, and the
consumer with the command, until the flag is cleared. -/

def holders (a : Corrections Path) (c : ConnectionId) (p : Path) : Nat :=
  a.priority.count (c, p) + ((a.io c).holds p).toNat + (a.consumer.holds c p).toNat

/-- A `CorrectionCommand` has read the prim's state after `t`, or there is one that has yet to read it. -/
def Covered (a : Corrections Path) (c : ConnectionId) (p : Path) (t : Nat) : Prop :=
  (∃ r, a.lastRead c p = some r ∧ t < r) ∨ (c, p) ∈ a.priority ∨ a.consumer = .taken c p ∨
    a.consumer = .cleared c p

variable {a a' : Corrections Path} {c c' : ConnectionId} {p p' : Path} {t : Nat}

theorem holders_setIo {io : IoPoint Path} (hio : ∀ q, io.holds q = (a.io c).holds q) (c' : ConnectionId)
    (p' : Path) : (a.setIo c io).holders c' p' = a.holders c' p' := by
  by_cases hc : c' = c
  · subst hc
    simp [holders, setIo, hio]
  · simp [holders, setIo, Function.update_of_ne hc]

theorem queued_setQueued (a : Corrections Path) (c c' : ConnectionId) (p p' : Path) (b : Bool) :
    (a.setQueued c p b).queued c' p' = if (c', p') = (c, p) then b else a.queued c' p' := by
  by_cases hc : c' = c
  · subst hc
    simp [setQueued, Function.update_apply]
  · simp [setQueued, hc]

/-- The flag is set exactly while it has a holder, and it has at most one. -/
theorem holders_step (h : ∀ c p, a.holders c p = (a.queued c p).toNat) (hs : Step a a') (c' : ConnectionId)
    (p' : Path) : a'.holders c' p' = (a'.queued c' p').toNat := by
  have h' := h c' p'
  have hle := Bool.toNat_le (a.queued c' p')
  cases hs with
  | reject hio | sessionGone hio | find hio | markedAlready hio _ | refuse hio | leave hio =>
    rw [holders_setIo (by simp [hio, IoPoint.holds])]
    exact h'
  | @mark c p t hio hqueued =>
    rw [queued_setQueued]
    simp only [holders, setQueued, setIo, Function.update_apply] at h' ⊢
    grind [IoPoint.holds]
  | @submit c p t hio =>
    simp only [holders, setIo, Function.update_apply, List.count_append, List.count_singleton] at h' ⊢
    grind [IoPoint.holds]
  | @unmark c p t hio =>
    rw [queued_setQueued]
    simp only [holders, setQueued, setIo, Function.update_apply] at h' ⊢
    grind [IoPoint.holds]
  | @take c p rest hconsumer hpriority =>
    simp only [holders, setConsumer, hconsumer, hpriority, List.count_cons, ConsumerPoint.holds] at h' ⊢
    grind
  | @clear c p hconsumer =>
    rw [queued_setQueued]
    simp only [holders, setConsumer, setQueued, hconsumer, ConsumerPoint.holds] at h' ⊢
    grind
  | @read c p hconsumer =>
    simpa only [holders, setConsumer, hconsumer, ConsumerPoint.holds] using h'

/-! ### Every rejection is covered -/

theorem Covered.step (h : Covered a c p t) (ht : t < a.clock) (hs : Step a a') : Covered a' c p t := by
  cases hs with
  | reject | sessionGone | find | markedAlready | mark | refuse | unmark | leave => exact h
  | submit hio =>
    refine h.imp_right fun h => h.imp_left fun hmem => ?_
    exact List.mem_append_left _ hmem
  | @take c' p' rest hconsumer hpriority =>
    rcases h with hread | hmem | htaken | hcleared
    · exact .inl hread
    · rw [hpriority, List.mem_cons] at hmem
      rcases hmem with heq | hmem
      · obtain ⟨rfl, rfl⟩ := Prod.mk.inj heq
        exact .inr (.inr (.inl rfl))
      · exact .inr (.inl hmem)
    · simp [hconsumer] at htaken
    · simp [hconsumer] at hcleared
  | @clear c' p' hconsumer =>
    rcases h with hread | hmem | htaken | hcleared
    · exact .inl hread
    · exact .inr (.inl hmem)
    · obtain ⟨rfl, rfl⟩ := ConsumerPoint.taken.inj (hconsumer.symm.trans htaken)
      exact .inr (.inr (.inr rfl))
    · simp [hconsumer] at hcleared
  | @read c' p' hconsumer =>
    -- a read of another prim or for another connection leaves the entry alone
    by_cases heq : c' = c ∧ p' = p
    · obtain ⟨rfl, rfl⟩ := heq
      exact .inl ⟨a.clock, by simp, ht⟩
    · rcases h with ⟨r, hr, hlt⟩ | hmem | htaken | hcleared
      · refine .inl ⟨r, ?_, hlt⟩
        simp only [Function.update_apply]
        grind
      · exact .inr (.inl hmem)
      · simp [hconsumer] at htaken
      · exact absurd (ConsumerPoint.cleared.inj (hconsumer.symm.trans hcleared)) heq

structure Inv (a : Corrections Path) : Prop where
  holders : ∀ c p, a.holders c p = (a.queued c p).toNat
  time_lt : ∀ c, ∀ t ∈ (a.io c).time, t < a.clock
  covered : ∀ c p t, a.io c = .returning p t → Covered a c p t

theorem Inv.init : Inv ({} : Corrections Path) where
  holders _ _ := rfl
  time_lt _ _ := nofun
  covered _ _ _ := nofun

theorem clock_step (hs : Step a a') : a'.clock = a.clock + 1 := by
  cases hs <;> rfl

/-- A connection's thread only takes the time when an update is rejected. -/
theorem time_step (hs : Step a a') (ht : t ∈ (a'.io c).time) : t ∈ (a.io c).time ∨ t = a.clock := by
  cases hs with
  | take | clear | read => exact .inl ht
  | @reject c' p' hio | @sessionGone c' p' t' hio | @find c' p' t' hio | @markedAlready c' p' t' hio
  | @mark c' p' t' hio | @submit c' p' t' hio | @refuse c' p' t' hio | @unmark c' p' t' hio
  | @leave c' p' t' hio =>
    rcases eq_or_ne c c' with rfl | hne
    · simp_all [setIo, setQueued, IoPoint.time]
    · simp only [setIo, setQueued, Function.update_of_ne hne] at ht
      exact .inl ht

/-- A call returns because the flag was set already, or after its command went into the mailbox. -/
theorem returning_step (hs : Step a a') (h : a'.io c = .returning p t) :
    a.io c = .returning p t ∨
      (a.io c = .found p t ∧ a.queued c p = true ∧ a' = a.setIo c (.returning p t)) ∨ (c, p) ∈ a'.priority := by
  cases hs with
  | take | clear | read => exact .inl h
  | @reject c' p' hio | @sessionGone c' p' t' hio | @find c' p' t' hio | @markedAlready c' p' t' hio
  | @mark c' p' t' hio | @submit c' p' t' hio | @refuse c' p' t' hio | @unmark c' p' t' hio
  | @leave c' p' t' hio =>
    rcases eq_or_ne c c' with rfl | hne
    · simp_all [setIo, setQueued]
    · simp only [setIo, setQueued, Function.update_of_ne hne] at h
      exact .inl h

theorem Inv.step (h : Inv a) (hs : Step a a') : Inv a' := by
  refine ⟨holders_step h.holders hs, fun c t ht => ?_, fun c p t hreturning => ?_⟩
  · rw [clock_step hs]
    rcases time_step hs ht with ht | rfl
    · exact Nat.lt_succ_of_lt (h.time_lt c t ht)
    · exact Nat.lt_succ_self _
  · rcases returning_step hs hreturning with hbefore | ⟨hfound, hqueued, rfl⟩ | hmem
    · exact (h.covered c p t hbefore).step (h.time_lt c t (by simp [hbefore, IoPoint.time])) hs
    · -- the thread does not hold the flag, so its holder is a command that has yet to read
      have hholders := h.holders c p
      simp only [Corrections.holders, hfound, hqueued, IoPoint.holds] at hholders
      by_cases hmem : (c, p) ∈ a.priority
      · exact .inr (.inl hmem)
      · have htaken : a.consumer.holds c p = true := by simpa [List.count_eq_zero_of_not_mem hmem] using hholders
        exact .inr (.inr (.inl (ConsumerPoint.eq_taken htaken)))
    · exact .inr (.inl hmem)

theorem inv_of_reachable (h : (system Path).Reachable a) : Inv a :=
  Lts.System.invariant (by rintro _ rfl; exact .init) (fun _ _ _ h hs => h.step hs) h

/-- There is at most one `CorrectionCommand` in the mailbox for a connection and a prim, and when a call of
`SubmitCorrectionCommand` returns without a failed submission, its rejection is covered. -/
theorem no_correction_lost (h : (system Path).Reachable a) : (∀ c p, a.priority.count (c, p) ≤ 1) ∧
    ∀ c p t, a.io c = .returning p t → Covered a c p t := by
  have hinv := inv_of_reachable h
  refine ⟨fun c p => ?_, hinv.covered⟩
  have hholders : a.priority.count (c, p) ≤ a.holders c p := by
    unfold Corrections.holders
    omega
  rw [hinv.holders c p] at hholders
  exact hholders.trans (Bool.toNat_le _)

/-- The second of two rejections finds the flag set, by a command that the consumer has just taken. -/
theorem no_correction_lost_second_rejection : ∃ a : Corrections String, a.io 7 = .returning "/World/Cube" 5 ∧
    a.priority = [] ∧ (∀ c p, a.priority.count (c, p) ≤ 1) ∧ Covered a 7 "/World/Cube" 5 := by
  have h : (system String).Reachable {} := .init rfl
  replace h := h.step (.reject (c := 7) (p := "/World/Cube") rfl)
  replace h := h.step (.find (c := 7) rfl)
  replace h := h.step (.mark (c := 7) rfl rfl)
  replace h := h.step (.submit (c := 7) rfl)
  replace h := h.step (.leave (c := 7) rfl)
  replace h := h.step (.reject (c := 7) (p := "/World/Cube") rfl)
  replace h := h.step (.find (c := 7) rfl)
  replace h := h.step (.take rfl rfl)
  replace h := h.step (.markedAlready (c := 7) rfl rfl)
  obtain ⟨hcount, hcovered⟩ := no_correction_lost h
  exact ⟨_, rfl, rfl, hcount, hcovered 7 "/World/Cube" 5 rfl⟩

end Corrections
end IdtxCore
