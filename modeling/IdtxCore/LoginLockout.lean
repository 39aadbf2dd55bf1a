import IdtxCore.BruteForce
import IdtxCore.RateLimitHandler
import Mathlib.Data.List.Induction

/-!
# How long a lockout lasts

`Locked` says it by the calls alone: a failure of the key tripped the lockout, no success has cleared it, and it is not
over. The entry of the key says the same (`locked_iff`) as long as the clock can hold the end of the lockout (`EndsFit`),
but `LockedFor` cuts what is left down to whole seconds, and `before_handle` compares that with zero. So for the last
part of a second of every lockout the source is let in.
-/

namespace IdtxCore
namespace LoginThrottler

/-- A lockout of the key was tripped, is not over at `now`, and no success has come since. -/
def Locked (key : String) (t : LoginThrottler) (calls : List Call) (now : Int) : Prop :=
  ∃ before tripped rest, calls = before ++ .recordFailure key tripped :: rest ∧
    ((after recordFailure64 t before).recordFailure64 key tripped).1 = true ∧
    .recordSuccess key ∉ rest ∧ tripped ≤ now ∧ now < tripped + seconds t.lockout

/-- The clock can hold the end of every lockout that a failure of the key may trip. -/
def EndsFit (key : String) (lockout : Int) (calls : List Call) : Prop :=
  ∀ tripped, .recordFailure key tripped ∈ calls → Representable (tripped + seconds lockout)

variable {t : LoginThrottler} {key k : String} {now later : Int} {calls : List Call} {c : Call}

theorem Locked.anti (h : Locked key t calls later) (hle : now ≤ later)
    (hnow : ∀ c ∈ calls, ∀ s ∈ c.time, s ≤ now) : Locked key t calls now := by
  obtain ⟨before, tripped, rest, heq, htrip, hsuccess, -, hlater⟩ := h
  refine ⟨before, tripped, rest, heq, htrip, hsuccess, ?_, by omega⟩
  exact hnow (.recordFailure key tripped) (heq ▸ List.mem_append_right _ List.mem_cons_self) tripped rfl

/-- The last call trips the lockout, or it leaves the one there is. -/
theorem locked_concat : Locked key t (calls ++ [c]) now ↔
    (∃ tripped, c = .recordFailure key tripped ∧ ((after recordFailure64 t calls).recordFailure64 key tripped).1 = true ∧
      tripped ≤ now ∧ now < tripped + seconds t.lockout) ∨ c ≠ .recordSuccess key ∧ Locked key t calls now := by
  constructor
  · rintro ⟨before, tripped, rest, heq, htrip, hsuccess, htimes⟩
    rcases List.eq_nil_or_concat rest with rfl | ⟨rest, d, rfl⟩
    · obtain ⟨rfl, hc⟩ := List.append_inj' heq rfl
      exact .inl ⟨tripped, List.singleton_inj.1 hc, htrip, htimes⟩
    · have hsplit : calls ++ [c] = (before ++ .recordFailure key tripped :: rest) ++ [d] := by
        rw [heq]
        simp only [List.concat_eq_append, List.append_assoc, List.cons_append]
      obtain ⟨hcalls, hc⟩ := List.append_inj' hsplit rfl
      rw [List.concat_eq_append, List.mem_append, List.mem_singleton, not_or] at hsuccess
      refine .inr ⟨?_, before, tripped, rest, hcalls, htrip, hsuccess.1, htimes⟩
      rw [List.singleton_inj.1 hc]
      exact Ne.symm hsuccess.2
  · rintro (⟨tripped, rfl, htrip, htimes⟩ | ⟨hc, before, tripped, rest, rfl, htrip, hsuccess, htimes⟩)
    · exact ⟨calls, tripped, [], rfl, htrip, List.not_mem_nil, htimes⟩
    · refine ⟨before, tripped, rest ++ [c], by simp, htrip, ?_, htimes⟩
      rw [List.mem_append, List.mem_singleton, not_or]
      exact ⟨hsuccess, Ne.symm hc⟩

theorem EndsFit.init {lockout : Int} (h : EndsFit key lockout (calls ++ [c])) : EndsFit key lockout calls :=
  fun tripped hmem => h tripped (List.mem_append_left _ hmem)

/-- A sweep keeps the end of a lockout, or it has passed. -/
theorem lockedUntil_maybeSweep64 : ((t.maybeSweep64 now).entry key).lockedUntil = (t.entry key).lockedUntil ∨
    ((t.maybeSweep64 now).entry key).lockedUntil = 0 ∧ (t.entry key).lockedUntil ≤ now := by
  unfold entry
  rcases entries_maybeSweep64 t key now with hkept | ⟨hdropped, -, e, he, hle, -⟩
  · exact .inl (by rw [hkept])
  · rw [hdropped, he]
    exact .inr ⟨rfl, hle⟩

theorem lockedUntil_nextEntry64 : (t.nextEntry64 key now).lockedUntil = (t.entry key).lockedUntil := by
  unfold nextEntry64 entry
  dsimp only
  split_ifs <;> rfl

theorem lockedUntil_of_failure (h : ¬((t.recordFailure64 key now).1 = true ∧ k = key)) :
    ((t.recordFailure64 key now).2.entry k).lockedUntil = ((t.maybeSweep64 now).entry k).lockedUntil := by
  unfold recordFailure64 recordFailureUnswept64 at h ⊢
  dsimp only at h ⊢
  split_ifs at h ⊢ with hmax
  · rw [entry_insert_of_ne fun hk => h ⟨rfl, hk⟩]
  · by_cases hk : k = key
    · rw [hk, entry_insert_same, lockedUntil_nextEntry64]
    · rw [entry_insert_of_ne hk]

theorem lockedUntil_of_trip (h : (t.recordFailure64 key now).1 = true) (hends : Representable (now + seconds t.lockout)) :
    ((t.recordFailure64 key now).2.entry key).lockedUntil = now + seconds t.lockout := by
  obtain ⟨e, he, hlocked⟩ := exists_entry_of_trip h
  unfold entry
  rw [he, Option.getD_some, hlocked, int64_add_seconds64 hends]

/-- One call and the end of the lockout of a key. -/
theorem lockedUntil_perform (t : LoginThrottler) (key : String) (c : Call)
    (hfit : ∀ tripped, c = .recordFailure key tripped → Representable (tripped + seconds t.lockout)) :
    let ends := ((perform recordFailure64 t c).2.entry key).lockedUntil
    (∃ now, c = .recordFailure key now ∧ (t.recordFailure64 key now).1 = true ∧ ends = now + seconds t.lockout) ∨
      (c = .recordSuccess key ∧ ends = 0) ∨
      ((∀ now, c = .recordFailure key now → (t.recordFailure64 key now).1 = false) ∧ c ≠ .recordSuccess key ∧
        (ends = (t.entry key).lockedUntil ∨ ends = 0 ∧ ∃ now ∈ c.time, (t.entry key).lockedUntil ≤ now)) := by
  intro ends
  cases c with
  | recordFailure k now =>
    by_cases htrip : (t.recordFailure64 k now).1 = true ∧ key = k
    · obtain ⟨htrip, rfl⟩ := htrip
      exact .inl ⟨now, rfl, htrip, lockedUntil_of_trip htrip (hfit now rfl)⟩
    · have hends : ends = ((t.maybeSweep64 now).entry key).lockedUntil := lockedUntil_of_failure htrip
      refine .inr (.inr ⟨?_, by simp, ?_⟩)
      · rintro _ ⟨rfl, rfl⟩
        exact Bool.eq_false_iff.2 fun h => htrip ⟨h, rfl⟩
      · rw [hends]
        exact lockedUntil_maybeSweep64.imp_right fun h => ⟨h.1, now, rfl, h.2⟩
  | recordSuccess k =>
    have hends : ends = ((t.recordSuccess k).entry key).lockedUntil := rfl
    rw [entry_recordSuccess] at hends
    by_cases hk : key = k
    · subst hk
      rw [if_pos rfl] at hends
      exact .inr (.inl ⟨rfl, hends⟩)
    · rw [if_neg hk] at hends
      exact .inr (.inr ⟨by simp, by simp [Ne.symm hk], .inl hends⟩)
  | lockedFor k now => exact .inr (.inr ⟨by simp, by simp, .inl rfl⟩)

theorem EndsFit.last (h : EndsFit key t.lockout (calls ++ [c])) (tripped : Int) (hc : c = .recordFailure key tripped) :
    Representable (tripped + seconds (after recordFailure64 t calls).lockout) := by
  rw [lockout_after]
  exact h tripped (List.mem_append_right _ (hc ▸ List.mem_cons_self))

/-- From the clock's epoch on, the entry of a key says whether it is locked out. -/
theorem locked_iff (hempty : (t.entry key).lockedUntil = 0) (hsorted : Chronological calls)
    (hnow : ∀ c ∈ calls, ∀ s ∈ c.time, s ≤ now) (hepoch : 0 ≤ now) (hfit : EndsFit key t.lockout calls) :
    Locked key t calls now ↔ now < ((after recordFailure64 t calls).entry key).lockedUntil := by
  induction calls using List.reverseRecOn with
  | nil =>
    refine iff_of_false ?_ ?_
    · rintro ⟨before, _, _, heq, -⟩
      exact List.append_ne_nil_of_right_ne_nil before (List.cons_ne_nil _ _) heq.symm
    · show ¬now < (t.entry key).lockedUntil
      omega
  | append_singleton calls c ih =>
    have hsplit := List.pairwise_append.1 hsorted
    have hlocked := ih hsplit.1 (fun d hd => hnow d (List.mem_append_left _ hd)) hfit.init
    have hc := hnow c (List.mem_append_right _ List.mem_cons_self)
    rw [locked_concat, hlocked, after_append]
    show _ ↔ now < ((perform recordFailure64 (after recordFailure64 t calls) c).2.entry key).lockedUntil
    rcases lockedUntil_perform (after recordFailure64 t calls) key c hfit.last with ⟨tripped, rfl, htrip, hends⟩ |
      ⟨rfl, hends⟩ | ⟨huntripped, hsuccess, hends⟩
    · rw [hends, lockout_after]
      constructor
      · rintro (⟨_, heq, -, -, hlt⟩ | ⟨-, hold⟩)
        · cases heq
          exact hlt
        · -- an older lockout ends no later than the new one
          obtain ⟨before, older, rest, heq, -, -, -, hlt⟩ := hlocked.2 hold
          have hle : older ≤ tripped := hsplit.2.2 (.recordFailure key older)
            (heq ▸ List.mem_append_right _ List.mem_cons_self) _ List.mem_cons_self older rfl tripped rfl
          omega
      · exact fun hlt => .inl ⟨tripped, rfl, htrip, hc tripped rfl, hlt⟩
    · rw [hends]
      refine iff_of_false ?_ (by omega)
      rintro (⟨_, heq, -⟩ | ⟨hne, -⟩)
      · cases heq
      · exact hne rfl
    · constructor
      · rintro (⟨tripped, heq, htrip, -⟩ | ⟨-, hold⟩)
        · rw [huntripped tripped heq] at htrip
          cases htrip
        · rcases hends with heq | ⟨-, τ, hτ, hle⟩
          · rwa [heq]
          · have := hc τ hτ
            omega
      · intro hlt
        refine .inr ⟨hsuccess, ?_⟩
        rcases hends with heq | ⟨heq, -⟩
        · rwa [heq] at hlt
        · omega

/-- The end of a lockout is a time point of the clock. -/
theorem representable_lockedUntil (hempty : Representable (t.entry key).lockedUntil) (hfit : EndsFit key t.lockout calls) :
    Representable ((after recordFailure64 t calls).entry key).lockedUntil := by
  induction calls using List.reverseRecOn with
  | nil => exact hempty
  | append_singleton calls c ih =>
    have hold := ih hfit.init
    rw [after_append]
    show Representable ((perform recordFailure64 (after recordFailure64 t calls) c).2.entry key).lockedUntil
    rcases lockedUntil_perform (after recordFailure64 t calls) key c hfit.last with ⟨tripped, rfl, -, hends⟩ |
      ⟨-, hends⟩ | ⟨-, -, hends | ⟨hends, -⟩⟩
    · rw [hends]
      exact hfit.last tripped rfl
    · rw [hends]
      decide
    · rwa [hends]
    · rw [hends]
      decide

/-- What is left of a lockout is exact from the clock's epoch on. -/
theorem lockedFor64_eq (hepoch : 0 ≤ now) (hends : Representable (t.entry key).lockedUntil) :
    t.lockedFor64 key now = t.lockedFor key now := by
  unfold lockedFor64 lockedFor
  unfold entry at hends
  cases he : t.entries key with
  | none => rfl
  | some e =>
    rw [he, Option.getD_some] at hends
    dsimp only
    split_ifs with hlt
    · have hleft : Representable (e.lockedUntil - now) := by
        unfold Representable at *
        omega
      rw [int64_eq hleft, Int.tdiv_eq_ediv_of_nonneg (by omega)]
    · rfl

/-- `LockedFor` is positive exactly as long as a whole second is left. -/
theorem lockedFor_pos_iff (hepoch : 0 ≤ now) : 0 < t.lockedFor key now ↔ now + seconds 1 ≤ (t.entry key).lockedUntil := by
  unfold lockedFor entry
  cases t.entries key with
  | none =>
    refine iff_of_false (lt_irrefl 0) ?_
    show ¬now + seconds 1 ≤ 0
    unfold seconds
    omega
  | some e =>
    rw [Option.getD_some]
    unfold seconds
    dsimp only
    split_ifs <;> omega

end LoginThrottler

namespace RateLimitHandler
variable {h : RateLimitHandler} {req : LoginHttpRequest} {times : Instants}

theorem beforeHandle_of_lockedFor (henabled : h.enabled = true) (hlogin : isLogin req = true)
    (hlocked : 0 < h.loginThrottler.lockedFor (clientIp req) times.lockedAt) : (h.beforeHandle req times).1 ≠ none := by
  intro hpass
  rw [lockedFor_eq_zero_of_beforeHandle henabled hlogin hpass] at hlocked
  exact absurd hlocked (lt_irrefl 0)

end RateLimitHandler

namespace LoginThrottler
open RateLimitHandler

/-- `LockedFor` tells at `now` whether the key is locked out, and the middleware refuses its logins if so. -/
def LockoutHolds (key : String) (t : LoginThrottler) (calls : List Call) (now : Int) : Prop :=
  (0 < (after recordFailure64 t calls).lockedFor64 key now ↔ Locked key t calls now) ∧
    (Locked key t calls now → ∀ (h : RateLimitHandler) (req : LoginHttpRequest) (times : Instants),
      h.enabled = true → h.loginThrottler = after recordFailure64 t calls → isLogin req = true → clientIp req = key →
        times.lockedAt = now → (h.beforeHandle req times).1 ≠ none)

/-- At readings of the clock, which does not go back and is never before its epoch, a lockout fails to hold in its last
second and at no other time, as long as the clock can hold its end. -/
theorem lockoutHolds_iff {maxFailures : Nat} {failureWindow lockout startedAt now : Int} {calls : List Call} {key : String}
    (hsorted : Chronological calls) (hnow : ∀ c ∈ calls, ∀ s ∈ c.time, s ≤ now) (hepoch : 0 ≤ now)
    (hfit : EndsFit key lockout calls) :
    let t := create maxFailures failureWindow lockout startedAt
    LockoutHolds key t calls now ↔ (Locked key t calls now → Locked key t calls (now + seconds 1 - 1)) := by
  intro t
  have hlater : ∀ c ∈ calls, ∀ s ∈ c.time, s ≤ now + seconds 1 - 1 := fun c hc s hs => by
    have := hnow c hc s hs
    unfold seconds
    omega
  have hempty : Representable (t.entry key).lockedUntil := (by decide : Representable 0)
  have hexact := lockedFor64_eq hepoch (representable_lockedUntil hempty hfit)
  have hpos : 0 < (after recordFailure64 t calls).lockedFor key now ↔ Locked key t calls (now + seconds 1 - 1) := by
    rw [lockedFor_pos_iff hepoch, locked_iff rfl hsorted hlater (by unfold seconds; omega) hfit]
    omega
  have hanti : Locked key t calls (now + seconds 1 - 1) → Locked key t calls now := fun hlast =>
    hlast.anti (by unfold seconds; omega) hnow
  unfold LockoutHolds
  rw [hexact, hpos]
  constructor
  · exact fun h => h.1.2
  · refine fun h => ⟨⟨hanti, h⟩, ?_⟩
    rintro hlocked h' req times henabled hthrottler hlogin rfl rfl
    refine beforeHandle_of_lockedFor henabled hlogin ?_
    rw [hthrottler]
    exact hpos.2 (h hlocked)

theorem lockoutHolds_iff_tripped_once :
    let t := create 1 300 300 0
    let calls : List Call := [.recordFailure "10.0.0.1" (seconds 20)]
    LockoutHolds "10.0.0.1" t calls (seconds 100) ↔
      (Locked "10.0.0.1" t calls (seconds 100) → Locked "10.0.0.1" t calls (seconds 100 + seconds 1 - 1)) := by
  refine lockoutHolds_iff (by decide) (by decide) (by decide) fun tripped hmem => ?_
  cases List.mem_singleton.1 hmem
  decide

/-- A nanosecond before the end of the lockout the source is let in. -/
theorem let_in_before_the_end :
    let t := create 1 300 300 0
    let calls : List Call := [.recordFailure "10.0.0.1" (seconds 20)]
    let now := seconds 320 - 1
    let h : RateLimitHandler :=
      { configure { loginMaxFailures := 1 } 0 with loginThrottler := after recordFailure64 t calls }
    let req : LoginHttpRequest := ⟨.post, loginPath, "", "10.0.0.1", "\x7b\x7d"⟩
    Chronological calls ∧ Locked "10.0.0.1" t calls now ∧ (after recordFailure64 t calls).lockedFor64 "10.0.0.1" now = 0 ∧
      clientIp req = "10.0.0.1" ∧ (h.beforeHandle req ⟨now, now, now, now, now, by decide⟩).1 = none :=
  ⟨by decide, ⟨[], seconds 20, [], rfl, by decide, by decide, by decide, by decide⟩, by decide, by decide,
    by decide +kernel⟩

end LoginThrottler
end IdtxCore
