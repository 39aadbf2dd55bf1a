import IdtxCore.LoginThrottler

/-!
# Brute force, in the arithmetic of the clock

`Matches` compares a throttler with one that never sweeps. What a sweep drops is neither locked nor in a streak, so two
entries of a key may differ in a streak that is over in both and in a lockout that is over in both. An entry that comes
back after a sweep is locked until the clock's epoch; before that no sweep drops one, unless every failure sets a new
lockout (`SameLock`). So the calls have the same results (`Matches.results`) as long as the clock can hold the failure
window and the differences of the times of the failures (`Fits`).
-/

namespace IdtxCore
namespace LoginThrottler

/-- The differences of time points that a failure at `now` takes can be held by the clock. -/
structure Fits (T : Set Int) (startedAt failureWindow now : Int) : Prop where
  window : Representable (seconds failureWindow)
  apart : Representable (now - startedAt) ∧ ∀ s ∈ T, Representable (now - s)

/-- From `last` on the entries have the same lockout, none after `last` if it is not the same. -/
def SameLock (maxFailures : Nat) (last : Int) (o o' : Option LoginEntry) : Prop :=
  o.map (·.lockedUntil) = o'.map (·.lockedUntil) ∨
    (∀ e ∈ o, e.lockedUntil ≤ last) ∧ (∀ e ∈ o', e.lockedUntil ≤ last) ∧ (0 ≤ last ∨ maxFailures ≤ 1)

/-- The next failure finds the same streak, or opens a new one in both. -/
def SameStreak (t : LoginThrottler) (last : Int) (e e' : LoginEntry) : Prop :=
  (e.firstFailure = e'.firstFailure ∧ e.failures = e'.failures) ∨ t.StreakOver last e ∧ t.StreakOver last e'

/-- The throttler `t` after some sweeps and `u` after none; `T` are the times of the failures. -/
structure Matches (T : Set Int) (startedAt last : Int) (t u : LoginThrottler) : Prop where
  maxFailures : t.maxFailures = u.maxFailures
  failureWindow : t.failureWindow = u.failureWindow
  lockout : t.lockout = u.lockout
  streak : ∀ key, t.SameStreak last (t.entry key) (u.entry key)
  lock : ∀ key, SameLock t.maxFailures last (t.entries key) (u.entries key)
  begun : ∀ key, 0 < (t.entry key).failures → (t.entry key).firstFailure ∈ T ∧ (t.entry key).firstFailure ≤ last
  swept : 0 ≤ t.failureWindow → 0 ≤ t.lastSweep ∧ (t.lastSweep = startedAt ∨ t.lastSweep ∈ T)
  /-- every streak ends with its first failure -/
  never : t.failureWindow < 0 → 2 ≤ t.maxFailures → ∀ key, ∀ e ∈ t.entries key, e.lockedUntil = 0

variable {T : Set Int} {t u : LoginThrottler} {key k : String} {startedAt now last : Int} {e e' : LoginEntry}
  {o o' : Option LoginEntry}

theorem StreakOver.mono (h : t.StreakOver last e) (hle : last ≤ now) : t.StreakOver now e := by
  refine h.imp_right fun hover => ?_
  omega

theorem SameLock.mono {n : Nat} (h : SameLock n last o o') (hle : last ≤ now) : SameLock n now o o' := by
  refine h.imp_right fun ⟨ho, ho', hclock⟩ => ⟨?_, ?_, hclock.imp_left hle.trans'⟩
  · exact fun e he => (ho e he).trans hle
  · exact fun e he => (ho' e he).trans hle

/-- `LockedFor` reads the lockout only. -/
theorem SameLock.lockedFor {n : Nat} (h : SameLock n now (t.entries key) (u.entries key)) :
    t.lockedFor64 key now = u.lockedFor64 key now := by
  have hzero : ∀ v : LoginThrottler, (∀ e ∈ v.entries key, e.lockedUntil ≤ now) → v.lockedFor64 key now = 0 := by
    intro v hle
    unfold lockedFor64
    cases he : v.entries key with
    | none => rfl
    | some e => exact if_neg (not_lt.2 (hle e he))
  rcases h with heq | ⟨ht, hu, -⟩
  · unfold lockedFor64
    cases ht : t.entries key with
    | none =>
      rw [ht] at heq
      rw [Option.map_eq_none_iff.1 heq.symm]
    | some e =>
      rw [ht] at heq
      obtain ⟨e', hu, hlock⟩ := Option.map_eq_some_iff.1 heq.symm
      rw [hu]
      dsimp only at hlock ⊢
      rw [hlock]
  · rw [hzero t ht, hzero u hu]

/-! ### What is exact -/

theorem Fits.seconds_eq (h : Fits T startedAt t.failureWindow now) :
    seconds64 t.failureWindow = seconds t.failureWindow := int64_eq h.window

theorem Fits.nextEntry (h : Fits T startedAt t.failureWindow now)
    (hbegun : 0 < (t.entry key).failures → (t.entry key).firstFailure ∈ T) :
    t.nextEntry64 key now = t.nextEntry key now := by
  unfold nextEntry64 LoginThrottler.nextEntry
  dsimp only
  rw [h.seconds_eq]
  rcases Nat.eq_zero_or_pos (t.entry key).failures with hzero | hpos
  · unfold entry at hzero
    rw [if_pos (.inl hzero), if_pos (.inl hzero)]
  · have hage := int64_eq (h.apart.2 _ (hbegun hpos))
    unfold entry at hage
    rw [hage]

theorem Fits.recordFailureUnswept (h : Fits T startedAt t.failureWindow now)
    (hbegun : 0 < (t.entry key).failures → (t.entry key).firstFailure ∈ T) :
    t.recordFailureUnswept64 key now = t.recordFailureUnswept key now := by
  unfold recordFailureUnswept64 LoginThrottler.recordFailureUnswept
  rw [h.nextEntry hbegun]

/-! ### Sweeps -/

theorem config_maybeSweep64 (t : LoginThrottler) (now : Int) : (t.maybeSweep64 now).maxFailures = t.maxFailures ∧
    (t.maybeSweep64 now).failureWindow = t.failureWindow ∧ (t.maybeSweep64 now).lockout = t.lockout := by
  unfold maybeSweep64
  split_ifs <;> exact ⟨rfl, rfl, rfl⟩

theorem lastSweep_maybeSweep64 (t : LoginThrottler) (now : Int) :
    (t.maybeSweep64 now).lastSweep = t.lastSweep ∨
      (t.maybeSweep64 now).lastSweep = now ∧ seconds64 t.failureWindow ≤ int64 (now - t.lastSweep) := by
  unfold maybeSweep64
  split_ifs with hrecent
  · exact .inl rfl
  · exact .inr ⟨rfl, not_lt.1 hrecent⟩

/-- A sweep keeps an entry, or it was neither locked nor in a streak. -/
theorem entries_maybeSweep64 (t : LoginThrottler) (key : String) (now : Int) :
    (t.maybeSweep64 now).entries key = t.entries key ∨
      (t.maybeSweep64 now).entries key = none ∧ seconds64 t.failureWindow ≤ int64 (now - t.lastSweep) ∧
        ∃ e, t.entries key = some e ∧ e.lockedUntil ≤ now ∧
          (0 < e.failures → seconds64 t.failureWindow ≤ int64 (now - e.firstFailure)) := by
  unfold maybeSweep64
  split_ifs with hrecent
  · exact .inl rfl
  · unfold KeyMap.keep
    dsimp only
    cases he : t.entries key with
    | none => exact .inl rfl
    | some e =>
      rw [Option.filter_some]
      split_ifs with hlive
      · exact .inl rfl
      · unfold isLive64 at hlive
        simp only [Bool.or_eq_true, Bool.and_eq_true, decide_eq_true_eq, not_or, not_and, not_lt] at hlive
        exact .inr ⟨rfl, not_lt.1 hrecent, e, rfl, hlive.1, hlive.2⟩

namespace Matches

theorem mono (h : Matches T startedAt last t u) (hle : last ≤ now) : Matches T startedAt now t u where
  maxFailures := h.maxFailures
  failureWindow := h.failureWindow
  lockout := h.lockout
  streak key := (h.streak key).imp_right fun hover => ⟨hover.1.mono hle, hover.2.mono hle⟩
  lock key := (h.lock key).mono hle
  begun key hpos := ⟨(h.begun key hpos).1, (h.begun key hpos).2.trans hle⟩
  swept := h.swept
  never := h.never

/-- A failure window that takes time has passed since the creation when there is a sweep. -/
theorem nonneg_of_sweep (h : Matches T startedAt now t u) (hfits : Fits T startedAt t.failureWindow now)
    (hwindow : 0 ≤ t.failureWindow) (hsweep : seconds64 t.failureWindow ≤ int64 (now - t.lastSweep)) : 0 ≤ now := by
  obtain ⟨hpos, hlast⟩ := h.swept hwindow
  have hexact : Representable (now - t.lastSweep) := by
    rcases hlast with hfirst | hmem
    · rw [hfirst]
      exact hfits.apart.1
    · exact hfits.apart.2 _ hmem
  rw [hfits.seconds_eq, int64_eq hexact] at hsweep
  unfold seconds at hsweep
  omega

/-- An entry whose streak and lockout are over may be dropped. -/
theorem drop (h : Matches T startedAt now t u) (hfits : Fits T startedAt t.failureWindow now)
    (hsweep : seconds64 t.failureWindow ≤ int64 (now - t.lastSweep)) (he : t.entries key = some e)
    (hlocked : e.lockedUntil ≤ now)
    (hstreak : 0 < e.failures → seconds64 t.failureWindow ≤ int64 (now - e.firstFailure)) :
    t.SameStreak now {} (u.entry key) ∧ SameLock t.maxFailures now none (u.entries key) := by
  have hentry : t.entry key = e := by rw [entry, he, Option.getD_some]
  have hover : t.StreakOver now e := by
    rcases Nat.eq_zero_or_pos e.failures with hzero | hpos
    · exact .inl hzero
    · have hmem := (h.begun key (hentry.symm ▸ hpos)).1
      rw [hentry] at hmem
      have hold := hstreak hpos
      rw [hfits.seconds_eq, int64_eq (hfits.apart.2 _ hmem)] at hold
      exact .inr hold
  constructor
  · refine .inr ⟨.inl rfl, ?_⟩
    rcases h.streak key with ⟨hfirst, hfailures⟩ | ⟨-, hu⟩
    · rw [hentry] at hfirst hfailures
      unfold StreakOver at hover ⊢
      rwa [← hfirst, ← hfailures]
    · exact hu
  · have hclock : 0 ≤ now ∨ t.maxFailures ≤ 1 := by
      rcases lt_or_ge t.failureWindow 0 with hneg | hpos
      · by_cases hmax : t.maxFailures ≤ 1
        · exact .inr hmax
        · rw [h.never hneg (by omega) key e he] at hlocked
          exact .inl hlocked
      · exact .inl (h.nonneg_of_sweep hfits hpos hsweep)
    refine .inr ⟨fun _ he => (by cases he), ?_, hclock⟩
    rcases h.lock key with heq | ⟨-, hu, -⟩
    · intro e' he'
      rw [he, he'] at heq
      have hsame : e.lockedUntil = e'.lockedUntil := Option.some.inj heq
      exact hsame ▸ hlocked
    · exact hu

theorem maybeSweep (h : Matches T startedAt now t u) (hfits : Fits T startedAt t.failureWindow now) (hmem : now ∈ T) :
    Matches T startedAt now (t.maybeSweep64 now) u := by
  obtain ⟨hmax, hwindow, hlockout⟩ := config_maybeSweep64 t now
  have hover : ∀ e, (t.maybeSweep64 now).StreakOver now e ↔ t.StreakOver now e := by
    unfold StreakOver
    simp only [hwindow, implies_true]
  refine ⟨hmax.trans h.maxFailures, hwindow.trans h.failureWindow, hlockout.trans h.lockout, fun key => ?_, fun key => ?_,
    fun key => ?_, ?_, ?_⟩
  · unfold SameStreak entry
    simp only [hover]
    rcases entries_maybeSweep64 t key now with hkept | ⟨hdropped, hsweep, e, he, hlocked, hstreak⟩
    · rw [hkept]
      exact h.streak key
    · rw [hdropped]
      exact (h.drop hfits hsweep he hlocked hstreak).1
  · rw [hmax]
    rcases entries_maybeSweep64 t key now with hkept | ⟨hdropped, hsweep, e, he, hlocked, hstreak⟩
    · rw [hkept]
      exact h.lock key
    · rw [hdropped]
      exact (h.drop hfits hsweep he hlocked hstreak).2
  · unfold entry
    rcases entries_maybeSweep64 t key now with hkept | ⟨hdropped, -⟩
    · rw [hkept]
      exact h.begun key
    · rw [hdropped]
      exact fun hpos => absurd hpos (lt_irrefl 0)
  · rw [hwindow]
    intro hpos
    rcases lastSweep_maybeSweep64 t now with hkept | ⟨hnow, hsweep⟩
    · rw [hkept]
      exact h.swept hpos
    · rw [hnow]
      exact ⟨h.nonneg_of_sweep hfits hpos hsweep, .inr hmem⟩
  · rw [hwindow, hmax]
    intro hneg hmany key e he
    rcases entries_maybeSweep64 t key now with hkept | ⟨hdropped, -⟩
    · exact h.never hneg hmany key e (hkept ▸ he)
    · rw [hdropped] at he
      cases he

/-- The next failure leaves the same streak in both. -/
theorem nextEntry (h : Matches T startedAt now t u) (key : String) :
    (t.nextEntry key now).firstFailure = (u.nextEntry key now).firstFailure ∧
      (t.nextEntry key now).failures = (u.nextEntry key now).failures := by
  have hover : ∀ e, u.StreakOver now e ↔ t.StreakOver now e := fun e => by
    unfold StreakOver
    rw [h.failureWindow]
  rw [nextEntry_eq, nextEntry_eq]
  simp only [hover]
  rcases h.streak key with ⟨hfirst, hfailures⟩ | ⟨ht, hu⟩
  · have hsame : t.StreakOver now (t.entry key) ↔ t.StreakOver now (u.entry key) := by
      unfold StreakOver
      rw [hfirst, hfailures]
    simp only [hsame, hfirst, hfailures]
    split_ifs <;> exact ⟨rfl, rfl⟩
  · rw [if_pos ht, if_pos hu]
    exact ⟨rfl, rfl⟩

theorem begun_nextEntry (h : Matches T startedAt now t u) (hmem : now ∈ T) (key : String) :
    (t.nextEntry key now).firstFailure ∈ T ∧ (t.nextEntry key now).firstFailure ≤ now := by
  rw [nextEntry_eq]
  split_ifs with hover
  · exact ⟨hmem, le_rfl⟩
  · exact h.begun key (Nat.pos_of_ne_zero fun hzero => hover (.inl hzero))

/-- A window below zero makes every failure the first of a streak. -/
theorem failures_nextEntry (h : Matches T startedAt now t u) (hneg : t.failureWindow < 0) (key : String) :
    (t.nextEntry key now).failures = 1 := by
  rw [nextEntry_eq]
  split_ifs with hover
  · rfl
  · unfold StreakOver at hover
    rw [not_or] at hover
    have hfirst := (h.begun key (Nat.pos_of_ne_zero hover.1)).2
    unfold seconds at hover
    omega

/-- A failure that does not lock the key out leaves its lockout as it is. -/
theorem lock_nextEntry (h : Matches T startedAt now t u) (key : String)
    (huntripped : (t.nextEntry key now).failures < t.maxFailures) :
    SameLock t.maxFailures now (some (t.nextEntry key now)) (some (u.nextEntry key now)) := by
  have hlock : ∀ v : LoginThrottler, (v.nextEntry key now).lockedUntil = ((v.entries key).map (·.lockedUntil)).getD 0 := by
    intro v
    rw [lockedUntil_nextEntry]
    cases v.entries key <;> rfl
  have hpos : 1 ≤ (t.nextEntry key now).failures := Nat.succ_pos _
  rcases h.lock key with heq | ⟨ht, hu, hclock⟩
  · refine .inl (congrArg some ?_)
    show (t.nextEntry key now).lockedUntil = (u.nextEntry key now).lockedUntil
    rw [hlock t, hlock u, heq]
  · have hnow : 0 ≤ now := hclock.resolve_right (by omega)
    have hle : ∀ v : LoginThrottler, (∀ e ∈ v.entries key, e.lockedUntil ≤ now) →
        ∀ e ∈ some (v.nextEntry key now), e.lockedUntil ≤ now := by
      intro v hv e he
      rw [← Option.some.inj he, hlock v]
      cases hentry : v.entries key with
      | none => exact hnow
      | some e => exact hv e hentry
    exact .inr ⟨hle t ht, hle u hu, .inl hnow⟩

/-- Both get a new entry for the key. -/
theorem insert (h : Matches T startedAt now t u) (hstreak : t.SameStreak now e e')
    (hlock : SameLock t.maxFailures now (some e) (some e'))
    (hbegun : 0 < e.failures → e.firstFailure ∈ T ∧ e.firstFailure ≤ now)
    (hnever : t.failureWindow < 0 → 2 ≤ t.maxFailures → e.lockedUntil = 0) :
    Matches T startedAt now { t with entries := t.entries.insert key e } { u with entries := u.entries.insert key e' } := by
  refine ⟨h.maxFailures, h.failureWindow, h.lockout, fun k => ?_, fun k => ?_, fun k => ?_, h.swept, ?_⟩
  · by_cases hk : k = key
    · rw [hk, entry_insert_same, entry_insert_same]
      exact hstreak
    · rw [entry_insert_of_ne hk, entry_insert_of_ne hk]
      exact h.streak k
  · dsimp only
    by_cases hk : k = key
    · rw [hk, KeyMap.insert_same, KeyMap.insert_same]
      exact hlock
    · rw [KeyMap.insert_of_ne _ _ _ hk, KeyMap.insert_of_ne _ _ _ hk]
      exact h.lock k
  · by_cases hk : k = key
    · rw [hk, entry_insert_same]
      exact hbegun
    · rw [entry_insert_of_ne hk]
      exact h.begun k
  · intro hneg hmany k x hx
    dsimp only at hx
    by_cases hk : k = key
    · rw [hk, KeyMap.insert_same] at hx
      rw [← Option.some.inj hx]
      exact hnever hneg hmany
    · rw [KeyMap.insert_of_ne _ _ _ hk] at hx
      exact h.never hneg hmany k x hx

theorem recordFailureUnswept (h : Matches T startedAt now t u) (hmem : now ∈ T) (key : String) :
    (t.recordFailureUnswept key now).1 = (u.recordFailureUnswept key now).1 ∧
      Matches T startedAt now (t.recordFailureUnswept key now).2 (u.recordFailureUnswept key now).2 := by
  obtain ⟨hfirst, hfailures⟩ := h.nextEntry key
  have hmax := h.maxFailures
  rcases recordFailureUnswept_cases t key now with ⟨ht, heq⟩ | ⟨ht, heq⟩ <;>
    rcases recordFailureUnswept_cases u key now with ⟨hu, heq'⟩ | ⟨hu, heq'⟩
  · rw [heq, heq']
    refine ⟨rfl, h.insert (.inr ⟨.inl rfl, .inl rfl⟩) (.inl ?_) (fun hpos => absurd hpos (lt_irrefl 0)) ?_⟩
    · rw [h.lockout]
      rfl
    · intro hneg hmany
      rw [h.failures_nextEntry hneg key] at ht
      omega
  · omega
  · omega
  · rw [heq, heq']
    refine ⟨rfl, h.insert (.inl ⟨hfirst, hfailures⟩) (h.lock_nextEntry key ht) (fun _ => h.begun_nextEntry hmem key) ?_⟩
    intro hneg hmany
    rw [lockedUntil_nextEntry]
    cases he : t.entries key with
    | none => rfl
    | some e => exact h.never hneg hmany key e he

theorem recordFailureUnswept64 (h : Matches T startedAt now t u) (hfits : Fits T startedAt t.failureWindow now)
    (hmem : now ∈ T) (key : String) : (t.recordFailureUnswept64 key now).1 = (u.recordFailureUnswept key now).1 ∧
      Matches T startedAt now (t.recordFailureUnswept64 key now).2 (u.recordFailureUnswept key now).2 := by
  rw [hfits.recordFailureUnswept fun hpos => (h.begun key hpos).1]
  exact h.recordFailureUnswept hmem key

theorem recordFailure64 (h : Matches T startedAt now t u) (hfits : Fits T startedAt t.failureWindow now)
    (hmem : now ∈ T) (key : String) : (t.recordFailure64 key now).1 = (u.recordFailureUnswept key now).1 ∧
      Matches T startedAt now (t.recordFailure64 key now).2 (u.recordFailureUnswept key now).2 := by
  refine (h.maybeSweep hfits hmem).recordFailureUnswept64 ?_ hmem key
  rw [(config_maybeSweep64 t now).2.1]
  exact hfits

theorem recordSuccess (h : Matches T startedAt last t u) (key : String) :
    Matches T startedAt last (t.recordSuccess key) (u.recordSuccess key) := by
  have herase : ∀ (v : LoginThrottler) (k : String), (v.recordSuccess key).entries k = if k = key then none else v.entries k :=
    fun _ _ => rfl
  refine ⟨h.maxFailures, h.failureWindow, h.lockout, fun k => ?_, fun k => ?_, fun k => ?_, h.swept, ?_⟩
  · rw [entry_recordSuccess, entry_recordSuccess]
    split_ifs
    · exact .inl ⟨rfl, rfl⟩
    · exact h.streak k
  · rw [herase, herase]
    split_ifs
    · exact .inl rfl
    · exact h.lock k
  · rw [entry_recordSuccess]
    split_ifs
    · exact fun hpos => absurd hpos (lt_irrefl 0)
    · exact h.begun k
  · intro hneg hmany k e he
    rw [herase] at he
    split_ifs at he
    · cases he
    · exact h.never hneg hmany k e he

end Matches

/-! ### Runs -/

/-- The times of the failures. -/
def failureTimes (calls : List Call) : Set Int := {now | ∃ key, .recordFailure key now ∈ calls}

/-- Every failure that `record` records matches. -/
def MatchesEach (T : Set Int) (startedAt : Int) (record : LoginThrottler → String → Int → Bool × LoginThrottler) : Prop :=
  ∀ t u now, Matches T startedAt now t u → Fits T startedAt t.failureWindow now → now ∈ T → ∀ key,
    (record t key now).1 = (u.recordFailureUnswept key now).1 ∧
      Matches T startedAt now (record t key now).2 (u.recordFailureUnswept key now).2

variable {record : LoginThrottler → String → Int → Bool × LoginThrottler} {calls calls' : List Call}

/-- Calls one after the other have the same results. -/
theorem results_of_matches (h : Matches T startedAt last t u) (hrecord : MatchesEach T startedAt record)
    (hsorted : Chronological calls) (hlast : ∀ c ∈ calls, ∀ s ∈ c.time, last ≤ s)
    (hfits : ∀ s ∈ failureTimes calls, s ∈ T ∧ Fits T startedAt u.failureWindow s) :
    results record t calls = results recordFailureUnswept u calls := by
  induction calls generalizing t u last with
  | nil => rfl
  | cons c calls ih =>
    have hnext : ∀ now ∈ c.time, ∀ d ∈ calls, ∀ s ∈ d.time, now ≤ s := fun now hnow d hd s hs =>
      List.rel_of_pairwise_cons hsorted hd now hnow s hs
    have hrest : ∀ s ∈ failureTimes calls, s ∈ T ∧ Fits T startedAt u.failureWindow s := fun s ⟨key, hmem⟩ =>
      hfits s ⟨key, List.mem_cons_of_mem _ hmem⟩
    cases c with
    | recordFailure key now =>
      obtain ⟨hmem, hnow⟩ := hfits now ⟨key, List.mem_cons_self⟩
      rw [← h.failureWindow] at hnow
      obtain ⟨hsame, hstep⟩ := hrecord t u now (h.mono (hlast _ List.mem_cons_self now rfl)) hnow hmem key
      refine congrArg₂ List.cons (congrArg Result.recorded hsame) (ih hstep hsorted.of_cons (hnext now rfl) ?_)
      rwa [show (perform recordFailureUnswept u (.recordFailure key now)).2.failureWindow = _ from
        (config_perform _).2.1]
    | recordSuccess key =>
      refine congrArg _ (ih (h.recordSuccess key) hsorted.of_cons (fun d hd => ?_) hrest)
      exact hlast d (List.mem_cons_of_mem _ hd)
    | lockedFor key now =>
      have hnow := h.mono (hlast _ List.mem_cons_self now rfl)
      refine congrArg₂ List.cons (congrArg Result.locked ?_) (ih hnow hsorted.of_cons (hnext now rfl) hrest)
      exact (hnow.lock key).lockedFor

theorem matches_create {maxFailures : Nat} {failureWindow lockout : Int} (hstart : 0 ≤ startedAt) :
    Matches T startedAt last (create maxFailures failureWindow lockout startedAt)
      (create maxFailures failureWindow lockout startedAt) :=
  ⟨rfl, rfl, rfl, fun _ => .inl ⟨rfl, rfl⟩, fun _ => .inl rfl, fun _ hpos => absurd hpos (lt_irrefl 0),
    fun _ => ⟨hstart, .inl rfl⟩, fun _ _ _ _ he => by cases he⟩

theorem exists_le_time (calls : List Call) : ∃ last, ∀ c ∈ calls, ∀ s ∈ c.time, last ≤ s := by
  induction calls with
  | nil => exact ⟨0, fun c hc => nomatch hc⟩
  | cons c calls ih =>
    obtain ⟨last, hlast⟩ := ih
    refine ⟨min last (c.time.getD last), fun d hd s hs => ?_⟩
    rcases List.mem_cons.1 hd with rfl | hd
    · rw [hs, Option.getD_some]
      exact min_le_right _ _
    · exact (min_le_left _ _).trans (hlast d hd s hs)

theorem results_create {maxFailures : Nat} {failureWindow lockout : Int} (hstart : 0 ≤ startedAt)
    (hrecord : MatchesEach T startedAt record) (hsorted : Chronological calls)
    (hfits : ∀ s ∈ failureTimes calls, s ∈ T ∧ Fits T startedAt failureWindow s) :
    results record (create maxFailures failureWindow lockout startedAt) calls =
      results recordFailureUnswept (create maxFailures failureWindow lockout startedAt) calls := by
  obtain ⟨last, hlast⟩ := exists_le_time calls
  exact results_of_matches (matches_create hstart) hrecord hsorted hlast hfits

theorem results_append : results record t (calls ++ calls') =
    results record t calls ++ results record (after record t calls) calls' := by
  induction calls generalizing t with
  | nil => rfl
  | cons c calls ih => exact congrArg _ ih

theorem length_results : (results record t calls).length = calls.length := by
  induction calls generalizing t with
  | nil => rfl
  | cons c calls ih => exact congrArg (· + 1) ih

/-- Where the results are the same, so is whether a failure locks its key out. -/
theorem trip_eq {record' : LoginThrottler → String → Int → Bool × LoginThrottler}
    (h : results record t (calls ++ .recordFailure key now :: calls') =
      results record' u (calls ++ .recordFailure key now :: calls')) :
    (record (after record t calls) key now).1 = (record' (after record' u calls) key now).1 := by
  rw [results_append, results_append] at h
  obtain ⟨-, htail⟩ := List.append_inj h (by rw [length_results, length_results])
  exact Result.recorded.inj (List.cons.inj htail).1

theorem lockout_after (calls : List Call) : (after recordFailure64 t calls).lockout = t.lockout := by
  have hrecord : ∀ (t : LoginThrottler) (key : String) (now : Int), (t.recordFailure64 key now).2.lockout = t.lockout := by
    intro t key now
    refine Eq.trans ?_ (config_maybeSweep64 t now).2.2
    unfold LoginThrottler.recordFailure64 LoginThrottler.recordFailureUnswept64
    dsimp only
    split_ifs <;> rfl
  induction calls generalizing t with
  | nil => rfl
  | cons c calls ih =>
    refine ih.trans ?_
    cases c with
    | recordFailure key now => exact hrecord t key now
    | recordSuccess key => rfl
    | lockedFor key now => rfl

/-- A failure that locks the key out. -/
theorem exists_entry_of_trip (h : (t.recordFailure64 key now).1 = true) : ∃ e,
    (t.recordFailure64 key now).2.entries key = some e ∧ e.lockedUntil = int64 (now + seconds64 t.lockout) := by
  rw [← (config_maybeSweep64 t now).2.2]
  unfold LoginThrottler.recordFailure64 LoginThrottler.recordFailureUnswept64 at h ⊢
  dsimp only at h ⊢
  split_ifs at h ⊢ with hmax
  exact ⟨_, KeyMap.insert_same .., rfl⟩

/-- Eviction changes no result, and in an interval shorter than the failure window one of `2 * maxFailures - 1` failures
in a row locks the key out for the whole lockout, as long as the clock can hold the failure window, the differences of
the times of the failures and the end of the lockout. -/
theorem brute_force_bounded {maxFailures : Nat} {failureWindow lockout startedAt : Int} {calls : List Call}
    (hmax : 1 ≤ maxFailures) (hwindow : Representable (seconds failureWindow)) (hstart : 0 ≤ startedAt)
    (hsorted : Chronological calls)
    (hapart : ∀ s ∈ failureTimes calls, Representable (s - startedAt) ∧ ∀ τ ∈ failureTimes calls, Representable (s - τ)) :
    let t := create maxFailures failureWindow lockout startedAt
    results recordFailure64 t calls = results recordFailureUnswept64 t calls ∧
      ∀ (key : String) (a b : Int) (before stretch rest : List Call), calls = before ++ stretch ++ rest →
        b - a < seconds failureWindow → .recordSuccess key ∉ stretch →
        (∀ now, .recordFailure key now ∈ stretch → a ≤ now ∧ now ≤ b) →
        2 * maxFailures - 1 ≤ stretch.countP (IsFailure key) →
        ∃ s now s', stretch = s ++ .recordFailure key now :: s' ∧
          ((after recordFailure64 t (before ++ s)).recordFailure64 key now).1 = true ∧
          ∃ e, ((after recordFailure64 t (before ++ s)).recordFailure64 key now).2.entries key = some e ∧
            (Representable (now + seconds lockout) → e.lockedUntil = now + seconds lockout) := by
  intro t
  have hfits : ∀ s ∈ failureTimes calls, s ∈ failureTimes calls ∧ Fits (failureTimes calls) startedAt failureWindow s :=
    fun s hs => ⟨hs, hwindow, hapart s hs⟩
  have hswept : results recordFailure64 t calls = results recordFailureUnswept t calls :=
    results_create hstart (fun _ _ _ h hfits hmem key => h.recordFailure64 hfits hmem key) hsorted hfits
  have hunswept : results recordFailureUnswept64 t calls = results recordFailureUnswept t calls :=
    results_create hstart (fun _ _ _ h hfits hmem key => h.recordFailureUnswept64 hfits hmem key) hsorted hfits
  refine ⟨hswept.trans hunswept.symm, ?_⟩
  intro key a b before stretch rest hcalls hshort hsuccess hinside hmany
  obtain ⟨hmaxFailures, hfailureWindow, -⟩ := config_after (t := t) before
  have hstretch : Chronological stretch := by
    rw [hcalls] at hsorted
    exact (List.pairwise_append.1 (List.pairwise_append.1 hsorted).1).2.1
  obtain ⟨s, now, s', heq, htrip⟩ := exists_lockout (t := after recordFailureUnswept t before) (by rwa [hmaxFailures])
    hstretch (by rwa [hfailureWindow]) hsuccess hinside (by rwa [hmaxFailures])
  have hsplit : calls = (before ++ s) ++ .recordFailure key now :: (s' ++ rest) := by
    rw [hcalls, heq]
    simp only [List.append_assoc, List.cons_append]
  rw [hsplit] at hswept
  rw [← after_append, ← trip_eq hswept] at htrip
  obtain ⟨e, he, hlocked⟩ := exists_entry_of_trip htrip
  refine ⟨s, now, s', heq, htrip, e, he, fun hends => ?_⟩
  rw [hlocked, lockout_after]
  exact int64_add_seconds64 hends

/-- Three failures of "a" within nine seconds, with a limit of two. -/
theorem brute_force_bounded_three_failures :
    let t := create 2 10 60 0
    let stretch : List Call := [.recordFailure "a" (seconds 20), .recordFailure "b" (seconds 25),
      .recordFailure "a" (seconds 26), .recordFailure "a" (seconds 29)]
    ∃ s now s', stretch = s ++ .recordFailure "a" now :: s' ∧
      ((after recordFailure64 t ([] ++ s)).recordFailure64 "a" now).1 = true ∧
      ∃ e, ((after recordFailure64 t ([] ++ s)).recordFailure64 "a" now).2.entries "a" = some e ∧
        (Representable (now + seconds 60) → e.lockedUntil = now + seconds 60) := by
  intro t stretch
  have htimes : ∀ s ∈ failureTimes stretch, seconds 20 ≤ s ∧ s ≤ seconds 29 := by
    rintro s ⟨key, hmem⟩
    simp only [stretch, List.mem_cons, Call.recordFailure.injEq, List.not_mem_nil, or_false] at hmem
    unfold seconds at *
    omega
  have hbounded := @brute_force_bounded 2 10 60 0 stretch (by decide) (by decide) (by decide) (by decide) (by
    intro s hs
    have hs := htimes s hs
    refine ⟨?_, fun τ hτ => ?_⟩
    · unfold Representable seconds at *
      omega
    · have hτ := htimes τ hτ
      unfold Representable seconds at *
      omega)
  exact hbounded.2 "a" (seconds 20) (seconds 29) [] stretch [] (by simp) (by decide) (by decide)
    (fun now hmem => htimes now ⟨"a", hmem⟩) (by decide)

/-- A failure window of 10000000000 seconds wraps, and every failure opens a new streak. A lockout that long ends
before it begins. And where the times are too far apart, the first sweep comes too early, and an entry that comes back
after it counts as locked until the epoch. -/
theorem wraps_beyond_clock :
    (let t := create 2 10000000000 60 0
     let calls : List Call := [.recordFailure "a" (seconds 5), .recordFailure "a" (seconds 6),
       .recordFailure "a" (seconds 7), .recordFailure "a" (seconds 8)]
     Chronological calls ∧ seconds 8 - seconds 5 < seconds t.failureWindow ∧
      2 * t.maxFailures - 1 ≤ calls.countP (IsFailure "a") ∧
      results recordFailure64 t calls = [.recorded false, .recorded false, .recorded false, .recorded false]) ∧
    (let t := create 1 10 10000000000 0
     let calls : List Call := [.recordFailure "a" (seconds 5), .lockedFor "a" (seconds 6)]
     Chronological calls ∧ results recordFailure64 t calls = [.recorded true, .locked 0] ∧
      ((after recordFailure64 t calls).entry "a").lockedUntil ≠ seconds 5 + seconds t.lockout) ∧
    (let t := create 2 10 1 (seconds 5)
     let calls : List Call := [.recordFailure "b" (-2 ^ 63), .recordFailure "a" (seconds (-100)),
       .recordFailure "a" (seconds (-100)), .recordFailure "b" (seconds (-50)), .recordFailure "a" (seconds (-50)),
       .lockedFor "a" (seconds (-50))]
     Chronological calls ∧ (results recordFailure64 t calls).getLast? = some (.locked 50) ∧
      (results recordFailureUnswept64 t calls).getLast? = some (.locked 0)) := by
  decide +kernel

end LoginThrottler
end IdtxCore
