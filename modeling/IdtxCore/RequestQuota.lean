import IdtxCore.RateLimiterWrap
import IdtxCore.SlidingWindowLimiter

/-!
# The request quota, in the arithmetic of the clock

`Matches` compares a limiter with one that never sweeps and counts without bound: their buckets of a key are equal, or
the windows of both are over and the next call opens the same one. A step of the first is exact as long as the clock
can hold twice the window and the differences of time points that it takes (`Fits`), and what it sweeps is over. So the
decisions are the same (`Matches.run`).
-/

namespace IdtxCore
namespace SlidingWindowLimiter

/-- The calls one after the other, where `allow` is `allow64` or `allowUnswept64`. -/
def runWith (allow : SlidingWindowLimiter → String → Int → Decision × SlidingWindowLimiter)
    (l : SlidingWindowLimiter) : List Call → List CallRecord
  | [] => []
  | c :: calls => ⟨c, (allow l c.key c.now).1⟩ :: runWith allow (allow l c.key c.now).2 calls

/-- The bucket is new, or a call opened it at one of the times `T`: where a window takes time, at none before the
clock's epoch. -/
def Started (T : Set Int) (l : SlidingWindowLimiter) (last : Int) (b : Bucket) : Prop :=
  b.windowStart = 0 ∨ b.windowStart ∈ T ∧ b.windowStart ≤ last ∧ (0 ≤ l.window → 0 ≤ b.windowStart)

/-- The clock can hold twice the window and the differences of time points that a call at `now` takes. -/
structure Fits (T : Set Int) (startedAt window now : Int) : Prop where
  double : Representable (2 * seconds window)
  time : Representable now
  apart : window < 0 → Representable (now - startedAt) ∧ ∀ s ∈ T, Representable (now - s)

/-- The limiter `l` after some sweeps and `u` after none. -/
structure Matches (T : Set Int) (startedAt last : Int) (l u : SlidingWindowLimiter) : Prop where
  maxRequests : l.maxRequests = u.maxRequests
  window : l.window = u.window
  bucket : ∀ key, l.bucket key = u.bucket key ∨ l.Over last (l.bucket key) ∧ l.Over last (u.bucket key)
  started : ∀ key, l.Started T last (l.bucket key)
  /-- the first sweep comes a window after the creation -/
  swept : l.window < 0 → l.lastSweep = startedAt ∨ seconds l.window ≤ last

variable {T : Set Int} {l u : SlidingWindowLimiter} {key k : String} {startedAt now last : Int} {b : Bucket}

theorem Over.mono (h : l.Over last b) (hle : last ≤ now) : l.Over now b := by
  unfold Over at h ⊢
  omega

theorem Started.mono (h : l.Started T last b) (hle : last ≤ now) : l.Started T now b :=
  h.imp_right fun hstart => ⟨hstart.1, hstart.2.1.trans hle, hstart.2.2⟩

theorem Started.empty : l.Started T now {} := .inl rfl

/-! ### What is exact -/

theorem Fits.seconds_eq (h : Fits T startedAt l.window now) :
    seconds64 (int64 (2 * l.window)) = 2 * seconds l.window ∧ seconds64 l.window = seconds l.window :=
  seconds64_two_mul h.double

/-- The age of a bucket is exact. -/
theorem Fits.age (h : Fits T startedAt l.window now) (hstarted : l.Started T now b) : Representable (now - b.windowStart) := by
  rcases hstarted with hnew | ⟨hmem, hle, hpos⟩
  · rw [hnew, sub_zero]
    exact h.time
  · rcases lt_or_ge l.window 0 with hneg | hwindow
    · exact (h.apart hneg).2 _ hmem
    · have hstart := hpos hwindow
      have hnow := h.time
      unfold Representable at *
      omega

theorem Fits.nextBucket (h : Fits T startedAt l.window now) (hstarted : l.Started T now (l.bucket key)) :
    l.nextBucket64 key now = l.nextBucket key now := by
  have hage : int64 (now - ((l.buckets key).getD {}).windowStart) = now - ((l.buckets key).getD {}).windowStart :=
    int64_eq (h.age hstarted)
  unfold nextBucket64 SlidingWindowLimiter.nextBucket
  dsimp only
  rw [h.seconds_eq.2, hage]

theorem Fits.decision (h : Fits T startedAt l.window now) (hage : Representable (now - b.windowStart)) :
    l.decision64 now b = l.decision now b := by
  have hretry : Representable (l.window - (now - b.windowStart).tdiv (seconds 1)) := by
    have hwindow := h.double
    rw [Int.tdiv_eq_ediv, show (seconds 1).sign = 1 from rfl]
    unfold Representable seconds at *
    split_ifs <;> omega
  unfold decision64 SlidingWindowLimiter.decision
  dsimp only
  rw [int64_eq hage, int64_eq hretry]

theorem started_nextBucket (hmem : now ∈ T) (hstarted : l.Started T now (l.bucket key)) :
    l.Started T now (l.nextBucket key now) := by
  rw [nextBucket_eq]
  split_ifs with hover
  · refine .inr ⟨hmem, le_rfl, fun hwindow => ?_⟩
    show 0 ≤ now
    unfold seconds at hover
    rcases hstarted with hnew | ⟨-, -, hpos⟩
    · omega
    · have hstart := hpos hwindow
      omega
  · exact hstarted

/-- A call without a sweep is exact. -/
theorem Fits.allowUnswept (h : Fits T startedAt l.window now) (hmem : now ∈ T) (hstarted : l.Started T now (l.bucket key)) :
    l.allowUnswept64 key now = l.allowUnswept key now := by
  unfold allowUnswept64 SlidingWindowLimiter.allowUnswept
  dsimp only
  rw [h.nextBucket hstarted, h.decision (h.age (started_nextBucket hmem hstarted))]

/-! ### Sweeps -/

theorem config_maybeSweep64 (l : SlidingWindowLimiter) (now : Int) :
    (l.maybeSweep64 now).maxRequests = l.maxRequests ∧ (l.maybeSweep64 now).window = l.window := by
  unfold maybeSweep64
  split_ifs <;> exact ⟨rfl, rfl⟩

theorem lastSweep_maybeSweep64 (l : SlidingWindowLimiter) (now : Int) :
    (l.maybeSweep64 now).lastSweep = l.lastSweep ∨
      (l.maybeSweep64 now).lastSweep = now ∧ seconds64 l.window ≤ int64 (now - l.lastSweep) := by
  unfold maybeSweep64
  split_ifs with hrecent
  · exact .inl rfl
  · exact .inr ⟨rfl, not_lt.1 hrecent⟩

/-- A sweep keeps a bucket, or its key goes on with an empty one after two windows. -/
theorem bucket_maybeSweep64 (l : SlidingWindowLimiter) (key : String) (now : Int) :
    (l.maybeSweep64 now).bucket key = l.bucket key ∨
      (l.maybeSweep64 now).bucket key = {} ∧ seconds64 l.window ≤ int64 (now - l.lastSweep) ∧
        seconds64 (int64 (2 * l.window)) ≤ int64 (now - (l.bucket key).windowStart) := by
  unfold maybeSweep64
  split_ifs with hrecent
  · exact .inl rfl
  · unfold bucket KeyMap.keep
    dsimp only
    cases hb : l.buckets key with
    | none => exact .inl rfl
    | some b =>
      by_cases hkept : int64 (now - b.windowStart) < seconds64 (int64 (2 * l.window))
      · left
        rw [Option.filter_some, if_pos (decide_eq_true hkept)]
      · right
        rw [Option.filter_some, if_neg (by simpa using hkept)]
        exact ⟨rfl, not_lt.1 hrecent, not_lt.1 hkept⟩

namespace Matches

theorem mono (h : Matches T startedAt last l u) (hle : last ≤ now) : Matches T startedAt now l u where
  maxRequests := h.maxRequests
  window := h.window
  bucket key := (h.bucket key).imp_right fun hover => ⟨hover.1.mono hle, hover.2.mono hle⟩
  started key := (h.started key).mono hle
  swept hneg := (h.swept hneg).imp_right fun hwindow => hwindow.trans hle

/-- A window below zero is over as soon as there has been a sweep. -/
theorem window_le (h : Matches T startedAt now l u) (hfits : Fits T startedAt l.window now) (hstart : 0 ≤ startedAt)
    (hneg : l.window < 0) (hsweep : seconds64 l.window ≤ int64 (now - l.lastSweep)) : seconds l.window ≤ now := by
  rcases h.swept hneg with hfirst | hwindow
  · rw [hfits.seconds_eq.2, hfirst, int64_eq (hfits.apart hneg).1] at hsweep
    omega
  · exact hwindow

/-- What a sweep drops is over, and so is a window that starts at the epoch. -/
theorem over_of_dropped (h : Matches T startedAt now l u) (hfits : Fits T startedAt l.window now) (hstart : 0 ≤ startedAt)
    (key : String) (hsweep : seconds64 l.window ≤ int64 (now - l.lastSweep))
    (hold : seconds64 (int64 (2 * l.window)) ≤ int64 (now - (l.bucket key).windowStart)) :
    l.Over now (l.bucket key) ∧ l.Over now {} := by
  have hstarted := h.started key
  rw [hfits.seconds_eq.1, int64_eq (hfits.age hstarted)] at hold
  show seconds l.window ≤ _ ∧ seconds l.window ≤ now - 0
  rcases lt_or_ge l.window 0 with hneg | hpos
  · have hle := h.window_le hfits hstart hneg hsweep
    rcases hstarted with hnew | ⟨-, hpast, -⟩
    · rw [hnew]
      exact ⟨by omega, by omega⟩
    · unfold seconds at *
      omega
  · have hanchor : 0 ≤ (l.bucket key).windowStart := by
      rcases hstarted with hnew | ⟨-, -, hafter⟩
      · exact hnew.ge
      · exact hafter hpos
    unfold seconds at *
    omega

theorem maybeSweep (h : Matches T startedAt now l u) (hfits : Fits T startedAt l.window now) (hstart : 0 ≤ startedAt) :
    Matches T startedAt now (l.maybeSweep64 now) u := by
  obtain ⟨hmax, hwindow⟩ := config_maybeSweep64 l now
  refine ⟨hmax.trans h.maxRequests, hwindow.trans h.window, fun key => ?_, fun key => ?_, fun hneg => ?_⟩
  · unfold Over
    rw [hwindow]
    rcases bucket_maybeSweep64 l key now with hkept | ⟨hdropped, hsweep, hold⟩
    · rw [hkept]
      exact h.bucket key
    · have hover := h.over_of_dropped hfits hstart key hsweep hold
      rw [hdropped]
      rcases h.bucket key with heq | hboth
      · exact .inr ⟨hover.2, heq ▸ hover.1⟩
      · exact .inr ⟨hover.2, hboth.2⟩
  · unfold Started
    rw [hwindow]
    rcases bucket_maybeSweep64 l key now with hkept | ⟨hdropped, -⟩
    · rw [hkept]
      exact h.started key
    · rw [hdropped]
      exact Started.empty
  · rw [hwindow] at hneg ⊢
    rcases lastSweep_maybeSweep64 l now with hkept | ⟨-, hsweep⟩
    · rw [hkept]
      exact h.swept hneg
    · exact .inr (h.window_le hfits hstart hneg hsweep)

theorem nextBucket (h : Matches T startedAt now l u) (key : String) : l.nextBucket key now = u.nextBucket key now := by
  rw [nextBucket_eq, nextBucket_eq, ← h.window]
  rcases h.bucket key with heq | ⟨hl, hu⟩
  · rw [heq]
  · unfold Over at hl hu
    rw [if_pos hl, if_pos hu]

/-- One call: the same decision, and the limiters still match. -/
theorem allowUnswept (h : Matches T startedAt now l u) (hfits : Fits T startedAt l.window now) (hmem : now ∈ T)
    (key : String) : (l.allowUnswept64 key now).1 = (u.allowUnswept key now).1 ∧
      Matches T startedAt now (l.allowUnswept64 key now).2 (u.allowUnswept key now).2 := by
  rw [hfits.allowUnswept hmem (h.started key)]
  constructor
  · show l.decision now (l.nextBucket key now) = u.decision now (u.nextBucket key now)
    unfold decision
    rw [h.nextBucket, h.maxRequests, h.window]
  · refine ⟨h.maxRequests, h.window, fun k => ?_, fun k => ?_, h.swept⟩
    · by_cases hk : k = key
      · left
        rw [hk, bucket_allowUnswept_same, bucket_allowUnswept_same, h.nextBucket]
      · rw [bucket_allowUnswept_of_ne hk, bucket_allowUnswept_of_ne hk]
        exact h.bucket k
    · by_cases hk : k = key
      · rw [hk, bucket_allowUnswept_same]
        exact started_nextBucket hmem (h.started key)
      · rw [bucket_allowUnswept_of_ne hk]
        exact h.started k

theorem allow (h : Matches T startedAt now l u) (hfits : Fits T startedAt l.window now) (hstart : 0 ≤ startedAt)
    (hmem : now ∈ T) (key : String) : (l.allow64 key now).1 = (u.allowUnswept key now).1 ∧
      Matches T startedAt now (l.allow64 key now).2 (u.allowUnswept key now).2 := by
  refine (h.maybeSweep hfits hstart).allowUnswept ?_ hmem key
  rw [(config_maybeSweep64 l now).2]
  exact hfits

/-- The calls of a limiter whose every call matches. -/
theorem runWith {allow : SlidingWindowLimiter → String → Int → Decision × SlidingWindowLimiter} {calls : List Call}
    (hallow : ∀ l u now, Matches T startedAt now l u → Fits T startedAt l.window now → now ∈ T → ∀ key,
      (allow l key now).1 = (u.allowUnswept key now).1 ∧
        Matches T startedAt now (allow l key now).2 (u.allowUnswept key now).2)
    (h : Matches T startedAt last l u) (hsorted : Chronological calls) (hlast : ∀ c ∈ calls, last ≤ c.now)
    (hfits : ∀ c ∈ calls, c.now ∈ T ∧ Fits T startedAt u.window c.now) : l.runWith allow calls = u.runUnswept calls := by
  induction calls generalizing last l u with
  | nil => rfl
  | cons c calls ih =>
    obtain ⟨hmem, hnow⟩ := hfits c List.mem_cons_self
    rw [← h.window] at hnow
    have hstep := hallow l u c.now (h.mono (hlast c List.mem_cons_self)) hnow hmem c.key
    rw [SlidingWindowLimiter.runWith, runUnswept, hstep.1]
    refine congrArg _ (ih hstep.2 hsorted.of_cons (fun d hd => List.rel_of_pairwise_cons hsorted hd) fun d hd => ?_)
    exact hfits d (List.mem_cons_of_mem _ hd)

end Matches

theorem matches_create (T : Set Int) (maxRequests : Nat) (window startedAt last : Int) :
    Matches T startedAt last (create maxRequests window startedAt) (create maxRequests window startedAt) :=
  ⟨rfl, rfl, fun _ => .inl rfl, fun _ => .empty, fun _ => .inl rfl⟩

theorem runWith_create {allow : SlidingWindowLimiter → String → Int → Decision × SlidingWindowLimiter}
    {maxRequests : Nat} {window startedAt : Int} {calls : List Call}
    (hallow : ∀ l u now, Matches T startedAt now l u → Fits T startedAt l.window now → now ∈ T → ∀ key,
      (allow l key now).1 = (u.allowUnswept key now).1 ∧
        Matches T startedAt now (allow l key now).2 (u.allowUnswept key now).2)
    (hsorted : Chronological calls) (hfits : ∀ c ∈ calls, c.now ∈ T ∧ Fits T startedAt window c.now) :
    (create maxRequests window startedAt).runWith allow calls = (create maxRequests window startedAt).runUnswept calls := by
  cases calls with
  | nil => rfl
  | cons c calls =>
    refine (matches_create T maxRequests window startedAt c.now).runWith hallow hsorted (fun d hd => ?_) hfits
    rcases List.mem_cons.1 hd with rfl | hd
    · exact le_rfl
    · exact List.rel_of_pairwise_cons hsorted hd

/-- Eviction changes no decision, and no interval shorter than the window lets a key through more than twice its
quota, as long as the clock can hold twice the window. A window below zero is the one case in which the times must
not be further apart than the clock can hold. -/
theorem exact_despite_eviction {maxRequests : Nat} {window startedAt : Int} {calls : List Call}
    (hwindow : Representable (2 * seconds window)) (hstart : 0 ≤ startedAt)
    (htimes : ∀ c ∈ calls, Representable c.now) (hsorted : Chronological calls)
    (hapart : window < 0 → ∀ c ∈ calls, Representable (c.now - startedAt) ∧
      ∀ d ∈ calls, Representable (c.now - d.now)) :
    let l := create maxRequests window startedAt
    l.runWith allow64 calls = l.runWith allowUnswept64 calls ∧
      ∀ (key : String) (a b : Int), b - a < seconds window →
        (l.runWith allow64 calls).countP (Allowed key a b) ≤ 2 * maxRequests := by
  intro l
  have hfits : ∀ c ∈ calls, c.now ∈ {s | ∃ d ∈ calls, d.now = s} ∧
      Fits {s | ∃ d ∈ calls, d.now = s} startedAt window c.now := by
    refine fun c hc => ⟨⟨c, hc, rfl⟩, hwindow, htimes c hc, fun hneg => ⟨(hapart hneg c hc).1, ?_⟩⟩
    rintro _ ⟨d, hd, rfl⟩
    exact (hapart hneg c hc).2 d hd
  have hswept : l.runWith allow64 calls = l.runUnswept calls :=
    runWith_create (fun _ _ _ h hfits hmem key => h.allow hfits hstart hmem key) hsorted hfits
  have hunswept : l.runWith allowUnswept64 calls = l.runUnswept calls :=
    runWith_create (fun _ _ _ h hfits hmem key => h.allowUnswept hfits hmem key) hsorted hfits
  refine ⟨hswept.trans hunswept.symm, fun key a b hshort => ?_⟩
  rw [hswept]
  exact allowed_le hsorted hshort

/-- Two windows later the bucket of "a" is dropped by a call of "b". -/
theorem exact_despite_eviction_two_keys :
    let l := create 1 10 0
    let calls : List Call := [⟨"a", seconds 10⟩, ⟨"a", seconds 11⟩, ⟨"b", seconds 30⟩, ⟨"a", seconds 31⟩]
    l.runWith allow64 calls = l.runWith allowUnswept64 calls ∧
      (l.runWith allow64 calls).countP (Allowed "a" (seconds 10) (seconds 11)) ≤ 2 * 1 := by
  intro l calls
  have hexact := @exact_despite_eviction 1 10 0 calls (by decide) (by decide) (by decide) (by decide)
    fun hneg => absurd hneg (by decide)
  exact ⟨hexact.1, hexact.2 "a" (seconds 10) (seconds 11) (by decide)⟩

/-- With a window of 5000000000 seconds twice the window wraps, and the count of an open window is swept away. So is
the one of a window below zero, where the times are too far apart and the first sweep comes too early. A window of
10000000000 seconds wraps itself and refuses nothing. -/
theorem swept_too_early :
    (let l := create 1 5000000000 (seconds 1)
     let calls : List Call := [⟨"a", seconds 5000000000⟩, ⟨"a", seconds 5000000001⟩]
     Chronological calls ∧ (∀ c ∈ calls, Representable c.now) ∧
      (l.runWith allow64 calls).map (·.decision.allowed) = [true, true] ∧
      (l.runWith allowUnswept64 calls).map (·.decision.allowed) = [true, false]) ∧
    (let l := create 1 (-10) (seconds 5)
     let calls : List Call := [⟨"b", -2 ^ 63⟩, ⟨"a", seconds (-15)⟩, ⟨"a", seconds (-15)⟩]
     Chronological calls ∧ (∀ c ∈ calls, Representable c.now) ∧
      (l.runWith allow64 calls).map (·.decision.allowed) = [true, true, true] ∧
      (l.runWith allowUnswept64 calls).map (·.decision.allowed) = [true, true, false]) ∧
    (let l := create 1 10000000000 0
     let calls : List Call := [⟨"a", seconds 5⟩, ⟨"a", seconds 6⟩, ⟨"a", seconds 7⟩]
     Chronological calls ∧ seconds 7 - seconds 5 < seconds l.window ∧
      (l.runWith allow64 calls).countP (Allowed "a" (seconds 5) (seconds 7)) = 3) := by
  decide +kernel

end SlidingWindowLimiter
end IdtxCore
