import Mathlib.Data.List.Basic

/-!
# `RateLimiter.h`: the request limiter and the login throttler

`SlidingWindowLimiter` counts the requests of a key in a window, `LoginThrottler` the failed logins of
a key, and locks the key out after too many of them. Both drop old entries from time to time.

A time point is a number of nanoseconds of the steady clock, a duration of the configuration a number of
seconds. Every operation takes the time it reads from the clock as an argument. An operation holds the
mutex from begin to end, so it is one function on the state.

The functions here count time without bound, which is what the source computes as long as every duration
and time point fits into the 64 bits it has for it. `RateLimiterWrap.lean` has them in 64 bits.
-/

namespace IdtxCore

/-- In nanoseconds, without bound (`seconds64` is the conversion in 64 bits). -/
def seconds (n : Int) : Int := n * 1000000000

/-- `std::unordered_map<std::string, Entry>` -/
abbrev KeyMap (Entry : Type) := String → Option Entry

namespace KeyMap
variable {Entry : Type} (entries : KeyMap Entry) (key : String)

def insert (entry : Entry) : KeyMap Entry := fun k => if k = key then some entry else entries k

def erase : KeyMap Entry := fun k => if k = key then none else entries k

/-- The loop of `MaybeSweep`. -/
def keep (p : Entry → Bool) : KeyMap Entry := fun k => (entries k).filter p

@[simp] theorem insert_same (entry : Entry) : entries.insert key entry key = some entry := if_pos rfl

theorem insert_of_ne {k : String} (entry : Entry) (h : k ≠ key) :
    entries.insert key entry k = entries k := if_neg h

theorem erase_of_ne {k : String} (h : k ≠ key) : entries.erase key k = entries k := if_neg h

end KeyMap

/-! ### Request limiter -/

structure Bucket where
  windowStart : Int := 0
  count : Nat := 0

structure SlidingWindowLimiter where
  maxRequests : Nat
  window : Int
  lastSweep : Int
  buckets : KeyMap Bucket

structure Decision where
  allowed : Bool
  observed : Nat
  limit : Nat
  retryAfter : Int
  deriving DecidableEq, Repr

namespace SlidingWindowLimiter
variable (l : SlidingWindowLimiter) (key : String) (now : Int)

def create (maxRequests : Nat) (window startedAt : Int) : SlidingWindowLimiter :=
  ⟨maxRequests, window, startedAt, fun _ => none⟩

def maybeSweep : SlidingWindowLimiter :=
  if now - l.lastSweep < seconds l.window then l
  else
    { l with
      lastSweep := now
      buckets := l.buckets.keep fun b => decide (now - b.windowStart < 2 * seconds l.window) }

def nextBucket : Bucket :=
  let b := (l.buckets key).getD {}
  let b := if seconds l.window ≤ now - b.windowStart then ⟨now, 0⟩ else b
  { b with count := b.count + 1 }

def decision (b : Bucket) : Decision :=
  let allowed := decide (b.count ≤ l.maxRequests)
  let elapsed := (now - b.windowStart).tdiv (seconds 1)
  let retry := if allowed then 0 else l.window - elapsed
  ⟨allowed, b.count, l.maxRequests, if 0 < retry then retry else 1⟩

def allow : Decision × SlidingWindowLimiter :=
  let l := l.maybeSweep now
  let b := l.nextBucket key now
  (l.decision now b, { l with buckets := l.buckets.insert key b })

end SlidingWindowLimiter

/-! ### Login throttler -/

structure LoginEntry where
  firstFailure : Int := 0
  failures : Nat := 0
  lockedUntil : Int := 0

structure LoginThrottler where
  maxFailures : Nat
  failureWindow : Int
  lockout : Int
  lastSweep : Int
  entries : KeyMap LoginEntry

namespace LoginThrottler
variable (t : LoginThrottler) (key : String) (now : Int)

def create (maxFailures : Nat) (failureWindow lockout startedAt : Int) : LoginThrottler :=
  ⟨maxFailures, failureWindow, lockout, startedAt, fun _ => none⟩

/-- In whole seconds, rounded down. -/
def lockedFor : Int :=
  match t.entries key with
  | none => 0
  | some e => if now < e.lockedUntil then (e.lockedUntil - now) / seconds 1 else 0

def isLive (e : LoginEntry) : Bool :=
  decide (now < e.lockedUntil) ||
    (decide (0 < e.failures) && decide (now - e.firstFailure < seconds t.failureWindow))

def maybeSweep : LoginThrottler :=
  if now - t.lastSweep < seconds t.failureWindow then t
  else { t with lastSweep := now, entries := t.entries.keep (t.isLive now) }

/-- The entry of the key with one more failure, in a new streak if the last one is over. -/
def nextEntry : LoginEntry :=
  let e := (t.entries key).getD {}
  let e :=
    if e.failures = 0 ∨ seconds t.failureWindow ≤ now - e.firstFailure then
      { e with firstFailure := now, failures := 0 }
    else e
  { e with failures := e.failures + 1 }

/-- Returns whether this failure locks the key out. -/
def recordFailure : Bool × LoginThrottler :=
  let t := t.maybeSweep now
  let e := t.nextEntry key now
  if t.maxFailures ≤ e.failures then
    (true, { t with
      entries := t.entries.insert key
        { e with lockedUntil := now + seconds t.lockout, failures := 0 } })
  else (false, { t with entries := t.entries.insert key e })

def recordSuccess : LoginThrottler := { t with entries := t.entries.erase key }

/-! ### How long a lockout lasts -/

variable {t key now}

theorem lockedFor_nonneg : 0 ≤ t.lockedFor key now := by
  unfold lockedFor
  cases t.entries key with
  | none => exact Int.le_refl 0
  | some e =>
    dsimp only
    split
    · exact Int.ediv_nonneg (by omega) (by decide)
    · exact Int.le_refl 0

theorem lockedFor_eq_zero_of_le {later : Int} (hle : now ≤ later) (h : t.lockedFor key now = 0) :
    t.lockedFor key later = 0 := by
  unfold lockedFor at h ⊢
  cases he : t.entries key with
  | none => rfl
  | some e =>
    simp only [he, seconds] at h ⊢
    split at h <;> split <;> omega

def LockedUntil (t : LoginThrottler) (key : String) (bound : Int) : Prop :=
  ∃ e, t.entries key = some e ∧ bound ≤ e.lockedUntil

/-- As long as a whole second is left, `LockedFor` says so. -/
theorem LockedUntil.lockedFor_pos {bound : Int} (h : t.LockedUntil key bound)
    (hnow : now + seconds 1 ≤ bound) : 0 < t.lockedFor key now := by
  obtain ⟨e, he, hbound⟩ := h
  unfold lockedFor
  simp only [he, seconds] at hnow ⊢
  rw [if_pos (by omega)]
  omega

theorem LockedUntil.maybeSweep {bound : Int} (h : t.LockedUntil key bound) (hnow : now < bound) :
    (t.maybeSweep now).LockedUntil key bound := by
  unfold LoginThrottler.maybeSweep
  split
  · exact h
  · obtain ⟨e, he, hbound⟩ := h
    refine ⟨e, ?_, hbound⟩
    have hlive : t.isLive now e = true := by
      unfold isLive
      rw [decide_eq_true (show now < e.lockedUntil by omega), Bool.true_or]
    simp only [KeyMap.keep, he, Option.filter_some, hlive, if_true]

theorem lockedUntil_nextEntry :
    (t.nextEntry key now).lockedUntil = ((t.entries key).getD {}).lockedUntil := by
  unfold nextEntry
  dsimp only
  split <;> rfl

theorem LockedUntil.recordFailure {bound : Int} (h : t.LockedUntil key bound) (hnow : now < bound)
    (k : String) : (t.recordFailure k now).2.LockedUntil key bound ∨
      k = key ∧ (t.recordFailure k now).1 = true := by
  obtain ⟨e, he, hbound⟩ := h.maybeSweep hnow
  by_cases hk : k = key
  · subst hk
    by_cases htrip : (t.recordFailure k now).1 = true
    · exact .inr ⟨rfl, htrip⟩
    · left
      unfold LoginThrottler.recordFailure at htrip ⊢
      dsimp only at htrip ⊢
      split at htrip
      · exact absurd rfl htrip
      · rename_i hmax
        rw [if_neg hmax]
        refine ⟨_, KeyMap.insert_same .., ?_⟩
        rw [lockedUntil_nextEntry, he]
        exact hbound
  · left
    unfold LoginThrottler.recordFailure
    dsimp only
    split
    · exact ⟨e, by simp only [KeyMap.insert_of_ne _ _ _ (Ne.symm hk), he], hbound⟩
    · exact ⟨e, by simp only [KeyMap.insert_of_ne _ _ _ (Ne.symm hk), he], hbound⟩

theorem LockedUntil.recordSuccess {bound : Int} (h : t.LockedUntil key bound) {k : String}
    (hk : k ≠ key) : (t.recordSuccess k).LockedUntil key bound := by
  obtain ⟨e, he, hbound⟩ := h
  exact ⟨e, by simp only [LoginThrottler.recordSuccess, KeyMap.erase_of_ne _ _ (Ne.symm hk), he], hbound⟩

end LoginThrottler
end IdtxCore
