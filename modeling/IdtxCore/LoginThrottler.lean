import IdtxCore.RateLimiterWrap
import IdtxCore.Lib.AnchoredWindow

/-!
# The login throttler over a run of calls

`recordFailureUnswept` is `RecordFailure` without sweeps and with streaks of any length. Without a success or a lockout
of a key its failures are counted in anchored windows, so no more than `2 * (maxFailures - 1)` of them fit into one
interval (`exists_lockout`).
-/

namespace IdtxCore
namespace LoginThrottler

inductive Call where
  | recordFailure (key : String) (now : Int)
  | recordSuccess (key : String)
  | lockedFor (key : String) (now : Int)
  deriving DecidableEq

inductive Result where
  | recorded (lockedOut : Bool)
  | cleared
  | locked (remaining : Int)
  deriving DecidableEq

def Call.time : Call → Option Int
  | .recordFailure _ now => some now
  | .recordSuccess _ => none
  | .lockedFor _ now => some now

/-- `recordFailureUnswept64` with ages of any length. -/
def recordFailureUnswept (t : LoginThrottler) (key : String) (now : Int) : Bool × LoginThrottler :=
  let e := t.nextEntry key now
  if t.maxFailures ≤ e.failures then
    (true, { t with
      entries := t.entries.insert key { e with lockedUntil := int64 (now + seconds64 t.lockout), failures := 0 } })
  else (false, { t with entries := t.entries.insert key e })

/-- One call, where `record` is `recordFailure64` or one of the two without sweeps. -/
def perform (record : LoginThrottler → String → Int → Bool × LoginThrottler) (t : LoginThrottler) :
    Call → Result × LoginThrottler
  | .recordFailure key now => (.recorded (record t key now).1, (record t key now).2)
  | .recordSuccess key => (.cleared, t.recordSuccess key)
  | .lockedFor key now => (.locked (t.lockedFor64 key now), t)

def results (record : LoginThrottler → String → Int → Bool × LoginThrottler) (t : LoginThrottler) : List Call → List Result
  | [] => []
  | c :: calls => (perform record t c).1 :: results record (perform record t c).2 calls

def after (record : LoginThrottler → String → Int → Bool × LoginThrottler) (t : LoginThrottler) (calls : List Call) :
    LoginThrottler :=
  calls.foldl (fun t c => (perform record t c).2) t

/-- The times of the calls do not decrease. -/
def Chronological (calls : List Call) : Prop := calls.Pairwise fun c d => ∀ s ∈ c.time, ∀ t ∈ d.time, s ≤ t

instance (calls : List Call) : Decidable (Chronological calls) := inferInstanceAs (Decidable (List.Pairwise _ _))

def entry (t : LoginThrottler) (key : String) : LoginEntry := (t.entries key).getD {}

/-- The next failure opens a new streak. -/
def StreakOver (t : LoginThrottler) (now : Int) (e : LoginEntry) : Prop :=
  e.failures = 0 ∨ seconds t.failureWindow ≤ now - e.firstFailure

instance (t : LoginThrottler) (now : Int) (e : LoginEntry) : Decidable (t.StreakOver now e) :=
  inferInstanceAs (Decidable (_ ∨ _))

variable {t : LoginThrottler} {key k : String} {now : Int} {e : LoginEntry}

theorem nextEntry_eq : t.nextEntry key now =
    if t.StreakOver now (t.entry key) then ⟨now, 1, (t.entry key).lockedUntil⟩
    else ⟨(t.entry key).firstFailure, (t.entry key).failures + 1, (t.entry key).lockedUntil⟩ := by
  unfold nextEntry
  dsimp only
  by_cases hover : t.StreakOver now (t.entry key)
  · rw [if_pos hover]
    unfold StreakOver entry at hover
    rw [if_pos hover]
    rfl
  · rw [if_neg hover]
    unfold StreakOver entry at hover
    rw [if_neg hover]
    rfl

/-- Whether the failure locks the key out, and what entry it leaves. -/
theorem recordFailureUnswept_cases (t : LoginThrottler) (key : String) (now : Int) :
    let e := t.nextEntry key now
    (t.maxFailures ≤ e.failures ∧ t.recordFailureUnswept key now =
      (true, { t with entries := t.entries.insert key ⟨e.firstFailure, 0, int64 (now + seconds64 t.lockout)⟩ })) ∨
    (e.failures < t.maxFailures ∧ t.recordFailureUnswept key now =
      (false, { t with entries := t.entries.insert key e })) := by
  unfold recordFailureUnswept
  dsimp only
  split_ifs with hmax
  · exact .inl ⟨hmax, rfl⟩
  · exact .inr ⟨Nat.lt_of_not_le hmax, rfl⟩

theorem entry_insert_same (entries : KeyMap LoginEntry) :
    ({ t with entries := entries.insert key e } : LoginThrottler).entry key = e := by
  show (entries.insert key e key).getD {} = e
  rw [KeyMap.insert_same]
  rfl

theorem entry_insert_of_ne (h : k ≠ key) :
    ({ t with entries := t.entries.insert key e } : LoginThrottler).entry k = t.entry k := by
  show (t.entries.insert key e k).getD {} = (t.entries k).getD {}
  rw [KeyMap.insert_of_ne _ _ _ h]

theorem entry_recordFailureUnswept_of_ne (h : k ≠ key) : (t.recordFailureUnswept key now).2.entry k = t.entry k := by
  rcases recordFailureUnswept_cases t key now with ⟨-, heq⟩ | ⟨-, heq⟩ <;> rw [heq] <;> exact entry_insert_of_ne h

theorem entry_recordSuccess (key : String) : (t.recordSuccess key).entry k = if k = key then {} else t.entry k := by
  unfold entry recordSuccess KeyMap.erase
  dsimp only
  split_ifs <;> rfl

theorem config_recordFailureUnswept (t : LoginThrottler) (key : String) (now : Int) :
    (t.recordFailureUnswept key now).2.maxFailures = t.maxFailures ∧
    (t.recordFailureUnswept key now).2.failureWindow = t.failureWindow ∧
    (t.recordFailureUnswept key now).2.lockout = t.lockout := by
  rcases recordFailureUnswept_cases t key now with ⟨-, heq⟩ | ⟨-, heq⟩ <;> rw [heq] <;> exact ⟨rfl, rfl, rfl⟩

/-! ### The failures of an interval -/

open AnchoredWindow

def counter (e : LoginEntry) : Counter Int := ⟨e.firstFailure, e.failures⟩

theorem counts_nextEntry :
    (Span.ofLength (seconds t.failureWindow)).Counts now (counter (t.entry key)) (counter (t.nextEntry key now)) := by
  rw [nextEntry_eq]
  split_ifs with hover
  · refine ⟨.inl rfl, fun hpos hnot => ?_⟩
    rcases hover with hzero | hover
    · exact absurd hzero (Nat.pos_iff_ne_zero.1 hpos)
    · exact absurd hover hnot
  · exact ⟨.inr rfl, fun _ _ => rfl⟩

def IsFailure (key : String) (c : Call) : Prop :=
  match c with
  | .recordFailure k _ => k = key
  | _ => False

instance (key : String) : DecidablePred (IsFailure key) := fun c =>
  match c with
  | .recordFailure _ _ => inferInstanceAs (Decidable (_ = _))
  | .recordSuccess _ => .isFalse id
  | .lockedFor _ _ => .isFalse id

/-- The failures of a key, with the counters they leave. -/
def eventsOf (key : String) (t : LoginThrottler) : List Call → List (Int × Counter Int)
  | [] => []
  | c :: calls =>
    let rest := eventsOf key (perform recordFailureUnswept t c).2 calls
    match c with
    | .recordFailure k now => if k = key then (now, counter (t.nextEntry key now)) :: rest else rest
    | _ => rest

/-- No failure of the key among the calls locks it out. -/
def Untripped (key : String) (t : LoginThrottler) (calls : List Call) : Prop :=
  ∀ before now rest, calls = before ++ .recordFailure key now :: rest →
    ((after recordFailureUnswept t before).recordFailureUnswept key now).1 = false

variable {calls : List Call} {c : Call}

theorem Untripped.tail (h : Untripped key t (c :: calls)) : Untripped key (perform recordFailureUnswept t c).2 calls :=
  fun before now rest heq => h (c :: before) now rest (by rw [heq]; rfl)

theorem eventsOf_cons_failure : eventsOf key t (.recordFailure key now :: calls) =
    (now, counter (t.nextEntry key now)) :: eventsOf key (t.recordFailureUnswept key now).2 calls :=
  if_pos rfl

theorem eventsOf_cons_of_not (h : ¬IsFailure key c) :
    eventsOf key t (c :: calls) = eventsOf key (perform recordFailureUnswept t c).2 calls := by
  cases c with
  | recordFailure k now => exact if_neg h
  | recordSuccess k => rfl
  | lockedFor k now => rfl

theorem isFailure_iff : IsFailure key c ↔ ∃ now, c = .recordFailure key now := by
  cases c with
  | recordFailure k now =>
    constructor
    · rintro rfl
      exact ⟨now, rfl⟩
    · rintro ⟨now', heq⟩
      cases heq
      rfl
  | recordSuccess k => exact ⟨False.elim, fun h => nomatch h⟩
  | lockedFor k now => exact ⟨False.elim, fun h => nomatch h⟩

theorem length_eventsOf : (eventsOf key t calls).length = calls.countP (IsFailure key) := by
  induction calls generalizing t with
  | nil => rfl
  | cons c calls ih =>
    by_cases hfailure : IsFailure key c
    · obtain ⟨now, rfl⟩ := isFailure_iff.1 hfailure
      rw [eventsOf_cons_failure, List.length_cons, ih, List.countP_cons_of_pos (by simpa using hfailure)]
    · rw [eventsOf_cons_of_not hfailure, ih, List.countP_cons_of_neg (by simpa using hfailure)]

theorem mem_eventsOf {e : Int × Counter Int} (h : e ∈ eventsOf key t calls) : .recordFailure key e.1 ∈ calls := by
  induction calls generalizing t with
  | nil => cases h
  | cons c calls ih =>
    by_cases hfailure : IsFailure key c
    · obtain ⟨now, rfl⟩ := isFailure_iff.1 hfailure
      rw [eventsOf_cons_failure] at h
      rcases List.mem_cons.1 h with rfl | h
      · exact List.mem_cons_self
      · exact List.mem_cons_of_mem _ (ih h)
    · rw [eventsOf_cons_of_not hfailure] at h
      exact List.mem_cons_of_mem _ (ih h)

theorem chronological_eventsOf (h : Chronological calls) : AnchoredWindow.Chronological (eventsOf key t calls) := by
  induction calls generalizing t with
  | nil => exact .nil
  | cons c calls ih =>
    by_cases hfailure : IsFailure key c
    · obtain ⟨now, rfl⟩ := isFailure_iff.1 hfailure
      rw [eventsOf_cons_failure]
      exact .cons (fun e he => List.rel_of_pairwise_cons h (mem_eventsOf he) now rfl e.1 rfl) (ih h.of_cons)
    · rw [eventsOf_cons_of_not hfailure]
      exact ih h.of_cons

/-- A failure that does not lock the key out leaves the counted entry. -/
theorem entry_of_untripped (h : (t.recordFailureUnswept key now).1 = false) :
    (t.recordFailureUnswept key now).2.entry key = t.nextEntry key now ∧
      (t.nextEntry key now).failures < t.maxFailures := by
  rcases recordFailureUnswept_cases t key now with ⟨-, heq⟩ | ⟨hlt, heq⟩
  · rw [heq] at h
    cases h
  · rw [heq]
    exact ⟨entry_insert_same _, hlt⟩

theorem entry_perform_of_not (hfailure : ¬IsFailure key c) (hsuccess : c ≠ .recordSuccess key) :
    (perform recordFailureUnswept t c).2.entry key = t.entry key := by
  cases c with
  | recordFailure k now => exact entry_recordFailureUnswept_of_ne (Ne.symm hfailure)
  | recordSuccess k =>
    show (t.recordSuccess k).entry key = _
    rw [entry_recordSuccess, if_neg fun heq => hsuccess (by rw [heq])]
  | lockedFor k now => rfl

theorem config_perform (c : Call) : (perform recordFailureUnswept t c).2.maxFailures = t.maxFailures ∧
    (perform recordFailureUnswept t c).2.failureWindow = t.failureWindow ∧
    (perform recordFailureUnswept t c).2.lockout = t.lockout := by
  cases c with
  | recordFailure k now => exact config_recordFailureUnswept ..
  | recordSuccess k => exact ⟨rfl, rfl, rfl⟩
  | lockedFor k now => exact ⟨rfl, rfl, rfl⟩

theorem config_after (calls : List Call) : (after recordFailureUnswept t calls).maxFailures = t.maxFailures ∧
    (after recordFailureUnswept t calls).failureWindow = t.failureWindow ∧
    (after recordFailureUnswept t calls).lockout = t.lockout := by
  induction calls generalizing t with
  | nil => exact ⟨rfl, rfl, rfl⟩
  | cons c calls ih =>
    obtain ⟨hmax, hwindow, hlockout⟩ := ih (t := (perform recordFailureUnswept t c).2)
    obtain ⟨hmax', hwindow', hlockout'⟩ := config_perform (t := t) c
    exact ⟨hmax.trans hmax', hwindow.trans hwindow', hlockout.trans hlockout'⟩

/-- Without a success or a lockout of the key its entry is a counter in anchored windows that stays below `maxFailures`. -/
theorem run_eventsOf (hsuccess : .recordSuccess key ∉ calls) (huntripped : Untripped key t calls) :
    (Span.ofLength (seconds t.failureWindow)).Run (counter (t.entry key)) (eventsOf key t calls) ∧
      ∀ e ∈ eventsOf key t calls, e.2.count < t.maxFailures := by
  induction calls generalizing t with
  | nil => exact ⟨trivial, fun e he => nomatch he⟩
  | cons c calls ih =>
    have hrest := ih (fun hmem => hsuccess (List.mem_cons_of_mem _ hmem)) huntripped.tail
    rw [(config_perform c).1, (config_perform c).2.1] at hrest
    by_cases hfailure : IsFailure key c
    · obtain ⟨now, rfl⟩ := isFailure_iff.1 hfailure
      obtain ⟨hentry, hlt⟩ := entry_of_untripped (huntripped [] now calls rfl)
      have hevents := hrest.1
      rw [show (perform recordFailureUnswept t (.recordFailure key now)).2.entry key = _ from hentry] at hevents
      rw [eventsOf_cons_failure]
      refine ⟨⟨counts_nextEntry, hevents⟩, fun e he => ?_⟩
      rcases List.mem_cons.1 he with rfl | he
      · exact hlt
      · exact hrest.2 e he
    · rw [eventsOf_cons_of_not hfailure]
      rwa [entry_perform_of_not hfailure fun heq => hsuccess (heq ▸ List.mem_cons_self)] at hrest

/-- Two streaks of an interval that both stay below the limit are all it has room for. -/
theorem exists_lockout {a b : Int} (hmax : 1 ≤ t.maxFailures) (hsorted : Chronological calls)
    (hshort : b - a < seconds t.failureWindow) (hsuccess : .recordSuccess key ∉ calls)
    (hinside : ∀ now, .recordFailure key now ∈ calls → a ≤ now ∧ now ≤ b)
    (hmany : 2 * t.maxFailures - 1 ≤ calls.countP (IsFailure key)) :
    ∃ before now rest, calls = before ++ .recordFailure key now :: rest ∧
      ((after recordFailureUnswept t before).recordFailureUnswept key now).1 = true := by
  by_contra hnone
  have huntripped : Untripped key t calls := fun before now rest heq =>
    Bool.eq_false_iff.2 fun htrip => hnone ⟨before, now, rest, heq, htrip⟩
  obtain ⟨hrun, hbelow⟩ := run_eventsOf hsuccess huntripped
  have hle := countP_le_two_mul (a := a) (b := b) (m := t.maxFailures - 1) (not_le.2 hshort) hrun
    (chronological_eventsOf hsorted)
  have hall : (eventsOf key t calls).countP (Counted a b (t.maxFailures - 1)) = (eventsOf key t calls).length := by
    rw [List.countP_eq_length]
    intro e he
    exact decide_eq_true ⟨hinside e.1 (mem_eventsOf he), Nat.le_sub_one_of_lt (hbelow e he)⟩
  rw [hall, length_eventsOf] at hle
  omega

theorem after_append (record : LoginThrottler → String → Int → Bool × LoginThrottler) (calls calls' : List Call) :
    after record t (calls ++ calls') = after record (after record t calls) calls' := List.foldl_append

end LoginThrottler
end IdtxCore
