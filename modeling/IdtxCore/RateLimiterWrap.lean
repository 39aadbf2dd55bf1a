import IdtxCore.RateLimiter
import Mathlib.Algebra.Order.Group.Int
import Mathlib.Algebra.Order.Group.Nat

/-!
# The limiters in the arithmetic of the clock

A time point and a duration are a `std::int64_t`: seconds are turned into nanoseconds, differences of time points
are taken and the end of a lockout is computed in 64 bits. The language leaves an overflow open, and the builds wrap.
The functions here compute as those of `RateLimiter.lean`, which count without bound, with every result cut down to
64 bits. Where the exact result is `Representable` it is the same one.
-/

namespace IdtxCore

def int64 (n : Int) : Int := n.bmod (2 ^ 64)

def Representable (n : Int) : Prop := -2 ^ 63 ≤ n ∧ n < 2 ^ 63

instance (n : Int) : Decidable (Representable n) := inferInstanceAs (Decidable (_ ∧ _))

theorem int64_eq {n : Int} (h : Representable n) : int64 n = n := by
  obtain ⟨hlow, hhigh⟩ := h
  exact Int.bmod_eq_of_le_mul_two (by omega) (by omega)

/-- The conversion of `std::chrono::seconds` to nanoseconds. -/
def seconds64 (n : Int) : Int := int64 (seconds n)

theorem int64_add_seconds64 {m n : Int} (h : Representable (m + seconds n)) :
    int64 (m + seconds64 n) = m + seconds n := Int.add_bmod_bmod.trans (int64_eq h)

theorem seconds64_two_mul {n : Int} (h : Representable (2 * seconds n)) :
    seconds64 (int64 (2 * n)) = 2 * seconds n ∧ seconds64 n = seconds n := by
  have htwo : Representable (2 * n) := by
    unfold Representable seconds at *
    omega
  have hseconds : seconds (2 * n) = 2 * seconds n := by
    unfold seconds
    omega
  refine ⟨?_, int64_eq ?_⟩
  · rw [int64_eq htwo, seconds64, hseconds]
    exact int64_eq h
  · unfold Representable at *
    omega

/-! ### Request limiter -/

namespace SlidingWindowLimiter
variable (l : SlidingWindowLimiter) (key : String) (now : Int)

def maybeSweep64 : SlidingWindowLimiter :=
  if int64 (now - l.lastSweep) < seconds64 l.window then l
  else
    { l with
      lastSweep := now
      buckets := l.buckets.keep fun b => decide (int64 (now - b.windowStart) < seconds64 (int64 (2 * l.window))) }

def nextBucket64 : Bucket :=
  let b := (l.buckets key).getD {}
  let b := if seconds64 l.window ≤ int64 (now - b.windowStart) then ⟨now, 0⟩ else b
  { b with count := b.count + 1 }

def decision64 (b : Bucket) : Decision :=
  let allowed := decide (b.count ≤ l.maxRequests)
  let elapsed := (int64 (now - b.windowStart)).tdiv (seconds 1)
  let retry := if allowed then 0 else int64 (l.window - elapsed)
  ⟨allowed, b.count, l.maxRequests, if 0 < retry then retry else 1⟩

/-- `Allow` without its call of `MaybeSweep`. -/
def allowUnswept64 : Decision × SlidingWindowLimiter :=
  let b := l.nextBucket64 key now
  (l.decision64 now b, { l with buckets := l.buckets.insert key b })

def allow64 : Decision × SlidingWindowLimiter := (l.maybeSweep64 now).allowUnswept64 key now

end SlidingWindowLimiter

/-! ### Login throttler -/

namespace LoginThrottler
variable (t : LoginThrottler) (key : String) (now : Int)

def lockedFor64 : Int :=
  match t.entries key with
  | none => 0
  | some e => if now < e.lockedUntil then (int64 (e.lockedUntil - now)).tdiv (seconds 1) else 0

def isLive64 (e : LoginEntry) : Bool :=
  decide (now < e.lockedUntil) ||
    (decide (0 < e.failures) && decide (int64 (now - e.firstFailure) < seconds64 t.failureWindow))

def maybeSweep64 : LoginThrottler :=
  if int64 (now - t.lastSweep) < seconds64 t.failureWindow then t
  else { t with lastSweep := now, entries := t.entries.keep (t.isLive64 now) }

def nextEntry64 : LoginEntry :=
  let e := (t.entries key).getD {}
  let e :=
    if e.failures = 0 ∨ seconds64 t.failureWindow ≤ int64 (now - e.firstFailure) then
      { e with firstFailure := now, failures := 0 }
    else e
  { e with failures := e.failures + 1 }

/-- `RecordFailure` without its call of `MaybeSweep`. -/
def recordFailureUnswept64 : Bool × LoginThrottler :=
  let e := t.nextEntry64 key now
  if t.maxFailures ≤ e.failures then
    (true, { t with
      entries := t.entries.insert key { e with lockedUntil := int64 (now + seconds64 t.lockout), failures := 0 } })
  else (false, { t with entries := t.entries.insert key e })

def recordFailure64 : Bool × LoginThrottler := (t.maybeSweep64 now).recordFailureUnswept64 key now

end LoginThrottler
end IdtxCore
