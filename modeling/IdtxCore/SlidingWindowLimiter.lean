import IdtxCore.RateLimiter
import IdtxCore.Lib.AnchoredWindow
import Mathlib.Algebra.Order.Group.Int

/-!
# The request limiter over a run of calls

`MaybeSweep` runs at moments that the calls of all keys decide together, and what it drops comes back with a window
that starts at the clock's epoch (`bucket_maybeSweep`). Without it, the calls of a key are counted in anchored
windows, so no interval shorter than the window lets more than twice the quota through (`allowed_le`).
-/

namespace IdtxCore
namespace SlidingWindowLimiter

structure Call where
  key : String
  now : Int
  deriving DecidableEq

structure CallRecord where
  call : Call
  decision : Decision
  deriving DecidableEq

/-- `Allow` without its call of `MaybeSweep`. -/
def allowUnswept (l : SlidingWindowLimiter) (key : String) (now : Int) : Decision × SlidingWindowLimiter :=
  let b := l.nextBucket key now
  (l.decision now b, { l with buckets := l.buckets.insert key b })

def runUnswept (l : SlidingWindowLimiter) : List Call → List CallRecord
  | [] => []
  | c :: calls => ⟨c, (l.allowUnswept c.key c.now).1⟩ :: (l.allowUnswept c.key c.now).2.runUnswept calls

def bucket (l : SlidingWindowLimiter) (key : String) : Bucket := (l.buckets key).getD {}

/-- The window of the bucket is over. -/
def Over (l : SlidingWindowLimiter) (now : Int) (b : Bucket) : Prop := seconds l.window ≤ now - b.windowStart

variable {l : SlidingWindowLimiter} {key k : String} {now : Int} {b : Bucket}

theorem nextBucket_eq : l.nextBucket key now =
    if seconds l.window ≤ now - (l.bucket key).windowStart then ⟨now, 1⟩
    else ⟨(l.bucket key).windowStart, (l.bucket key).count + 1⟩ := by
  unfold nextBucket bucket
  dsimp only
  split_ifs <;> rfl

theorem bucket_allowUnswept_same : (l.allowUnswept key now).2.bucket key = l.nextBucket key now := by
  show (l.buckets.insert key (l.nextBucket key now) key).getD {} = _
  rw [KeyMap.insert_same]
  rfl

theorem bucket_allowUnswept_of_ne (h : k ≠ key) : (l.allowUnswept key now).2.bucket k = l.bucket k := by
  show (l.buckets.insert key (l.nextBucket key now) k).getD {} = _
  rw [KeyMap.insert_of_ne _ _ _ h]
  rfl

/-- A sweep keeps a bucket, or its key goes on with an empty one after two windows. -/
theorem bucket_maybeSweep (l : SlidingWindowLimiter) (key : String) (now : Int) :
    (l.maybeSweep now).bucket key = l.bucket key ∨
      (l.maybeSweep now).bucket key = {} ∧ 2 * seconds l.window ≤ now - (l.bucket key).windowStart := by
  unfold maybeSweep
  split_ifs with hrecent
  · exact .inl rfl
  · unfold bucket KeyMap.keep
    dsimp only
    cases hb : l.buckets key with
    | none => exact .inl rfl
    | some b =>
      by_cases hkept : now - b.windowStart < 2 * seconds l.window
      · left
        rw [Option.filter_some, if_pos (decide_eq_true hkept)]
      · right
        rw [Option.filter_some, if_neg (by simpa using hkept)]
        exact ⟨rfl, not_lt.1 hkept⟩

theorem maybeSweep_config : (l.maybeSweep now).maxRequests = l.maxRequests ∧ (l.maybeSweep now).window = l.window := by
  unfold maybeSweep
  split_ifs <;> exact ⟨rfl, rfl⟩

def Chronological (calls : List Call) : Prop := calls.Pairwise fun c d => c.now ≤ d.now

instance (calls : List Call) : Decidable (Chronological calls) := inferInstanceAs (Decidable (List.Pairwise _ _))

/-! ### The budget of an interval -/

open AnchoredWindow

def span (l : SlidingWindowLimiter) : Span Int := .ofLength (seconds l.window)

def counter (b : Bucket) : Counter Int := ⟨b.windowStart, b.count⟩

theorem counts_nextBucket : l.span.Counts now (counter (l.bucket key)) (counter (l.nextBucket key now)) := by
  rw [nextBucket_eq]
  split_ifs with hover
  · exact ⟨.inl rfl, fun _ hnot => absurd hover hnot⟩
  · exact ⟨.inr rfl, fun _ _ => rfl⟩

/-- The calls of a key, with the counters they leave. -/
def eventsOf (key : String) (l : SlidingWindowLimiter) : List Call → List (Int × Counter Int)
  | [] => []
  | c :: calls =>
    let rest := eventsOf key (l.allowUnswept c.key c.now).2 calls
    if c.key = key then (c.now, counter (l.nextBucket c.key c.now)) :: rest else rest

theorem mem_eventsOf {calls : List Call} {e : Int × Counter Int} (h : e ∈ eventsOf key l calls) :
    ∃ c ∈ calls, c.now = e.1 := by
  induction calls generalizing l with
  | nil => cases h
  | cons c calls ih =>
    unfold eventsOf at h
    dsimp only at h
    split_ifs at h
    · rcases List.mem_cons.1 h with rfl | h
      · exact ⟨c, List.mem_cons_self, rfl⟩
      · exact (ih h).imp fun d hd => ⟨List.mem_cons_of_mem _ hd.1, hd.2⟩
    · exact (ih h).imp fun d hd => ⟨List.mem_cons_of_mem _ hd.1, hd.2⟩

theorem chronological_eventsOf {calls : List Call} (h : Chronological calls) :
    AnchoredWindow.Chronological (eventsOf key l calls) := by
  induction calls generalizing l with
  | nil => exact .nil
  | cons c calls ih =>
    unfold eventsOf
    dsimp only
    split_ifs
    · refine .cons (fun e he => ?_) (ih h.of_cons)
      obtain ⟨d, hd, heq⟩ := mem_eventsOf he
      exact heq ▸ List.rel_of_pairwise_cons h hd
    · exact ih h.of_cons

theorem run_eventsOf (calls : List Call) : l.span.Run (counter (l.bucket key)) (eventsOf key l calls) := by
  induction calls generalizing l with
  | nil => exact trivial
  | cons c calls ih =>
    have hrest := ih (l := (l.allowUnswept c.key c.now).2)
    unfold eventsOf
    dsimp only
    split_ifs with hkey
    · subst hkey
      rw [bucket_allowUnswept_same] at hrest
      exact ⟨counts_nextBucket, hrest⟩
    · rwa [bucket_allowUnswept_of_ne (Ne.symm hkey)] at hrest

/-- The call is one of the key and of the interval, and was let through. -/
def Allowed (key : String) (a b : Int) (r : CallRecord) : Prop :=
  r.call.key = key ∧ (a ≤ r.call.now ∧ r.call.now ≤ b) ∧ r.decision.allowed = true

instance (key : String) (a b : Int) : DecidablePred (Allowed key a b) := fun _ => inferInstanceAs (Decidable (_ ∧ _))

theorem allowed_iff {c : Call} {a b : Int} : Allowed key a b ⟨c, (l.allowUnswept c.key c.now).1⟩ ↔
    c.key = key ∧ Counted a b l.maxRequests (c.now, counter (l.nextBucket c.key c.now)) := by
  show (c.key = key ∧ _ ∧ decide _ = true) ↔ _
  rw [decide_eq_true_iff]
  rfl

theorem countP_allowed (calls : List Call) (a b : Int) :
    (l.runUnswept calls).countP (Allowed key a b) = (eventsOf key l calls).countP (Counted a b l.maxRequests) := by
  induction calls generalizing l with
  | nil => rfl
  | cons c calls ih =>
    have hrest := ih (l := (l.allowUnswept c.key c.now).2)
    unfold runUnswept eventsOf
    dsimp only
    split_ifs with hkey
    · have hiff : Allowed key a b ⟨c, (l.allowUnswept c.key c.now).1⟩ ↔
          Counted a b l.maxRequests (c.now, counter (l.nextBucket c.key c.now)) := allowed_iff.trans (and_iff_right hkey)
      rw [List.countP_cons, List.countP_cons, hrest]
      simp only [decide_eq_true_iff, hiff]
      rfl
    · have hnot : ¬Allowed key a b ⟨c, (l.allowUnswept c.key c.now).1⟩ := fun h => hkey h.1
      rw [List.countP_cons_of_neg (by simpa using hnot)]
      exact hrest

theorem allowed_le {calls : List Call} {a b : Int} (hsorted : Chronological calls) (hshort : b - a < seconds l.window) :
    (l.runUnswept calls).countP (Allowed key a b) ≤ 2 * l.maxRequests := by
  rw [countP_allowed]
  exact countP_le_two_mul (w := l.span) (not_le.2 hshort) (run_eventsOf calls) (chronological_eventsOf hsorted)

end SlidingWindowLimiter
end IdtxCore
