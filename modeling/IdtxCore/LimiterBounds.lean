import IdtxCore.SlidingWindowLimiter
import Mathlib.Data.Finset.Dedup
import Mathlib.Data.Set.Card

/-!
# What the request limiter says and what it keeps

The hint of a refused call is cut down to whole seconds in the elapsed time, so it is never too short: when it is over
the window is over too, and a sweep before that can only leave an empty bucket (`AtMost.allowed`). The map is swept
once a window and a bucket is dropped after two, so a bucket that is left was opened by a call of the last three
(`Bounded`).
-/

namespace IdtxCore
namespace SlidingWindowLimiter

def after (l : SlidingWindowLimiter) (calls : List Call) : SlidingWindowLimiter :=
  calls.foldl (fun l c => (l.allow c.key c.now).2) l

variable {l : SlidingWindowLimiter} {key k : String} {now last later : Int} {b : Bucket} {calls : List Call} {c : Call}

theorem after_concat : l.after (calls ++ [c]) = ((l.after calls).allow c.key c.now).2 := List.foldl_concat ..

theorem config_allow : (l.allow key now).2.maxRequests = l.maxRequests ∧ (l.allow key now).2.window = l.window :=
  maybeSweep_config

theorem config_after : (l.after calls).maxRequests = l.maxRequests ∧ (l.after calls).window = l.window := by
  induction calls generalizing l with
  | nil => exact ⟨rfl, rfl⟩
  | cons c calls ih => exact ⟨ih.1.trans config_allow.1, ih.2.trans config_allow.2⟩

theorem bucket_allow_same : (l.allow key now).2.bucket key = (l.maybeSweep now).nextBucket key now :=
  bucket_allowUnswept_same

theorem bucket_allow_of_ne (h : k ≠ key) : (l.allow key now).2.bucket k = (l.maybeSweep now).bucket k :=
  bucket_allowUnswept_of_ne h

/-! ### Retry hints -/

/-- No window starts after `last`, or after the epoch. -/
def Begun (last : Int) (l : SlidingWindowLimiter) : Prop := ∀ key, (l.bucket key).windowStart ≤ max last 0

theorem Begun.maybeSweep (h : Begun last l) : Begun last (l.maybeSweep now) := by
  intro k
  rcases bucket_maybeSweep l k now with hkept | ⟨hdropped, -⟩
  · rw [hkept]
    exact h k
  · rw [hdropped]
    exact le_max_right last 0

theorem Begun.allow (h : Begun last l) (hle : now ≤ last) : Begun last (l.allow key now).2 := by
  intro k
  by_cases hk : k = key
  · rw [hk, bucket_allow_same, nextBucket_eq]
    split_ifs
    · exact hle.trans (le_max_left last 0)
    · exact h.maybeSweep key
  · rw [bucket_allow_of_ne hk]
    exact h.maybeSweep k

theorem Begun.after (h : Begun last l) (hcalls : ∀ c ∈ calls, c.now ≤ last) : Begun last (l.after calls) := by
  induction calls generalizing l with
  | nil => exact h
  | cons c calls ih =>
    exact ih (h.allow (hcalls c List.mem_cons_self)) fun d hd => hcalls d (List.mem_cons_of_mem _ hd)

/-- The bucket of the key is `b`, or it has been dropped. -/
def AtMost (key : String) (b : Bucket) (l : SlidingWindowLimiter) : Prop := l.bucket key = b ∨ l.bucket key = {}

theorem AtMost.maybeSweep (h : AtMost key b l) : AtMost key b (l.maybeSweep now) := by
  unfold AtMost
  rcases bucket_maybeSweep l key now with hkept | ⟨hdropped, -⟩
  · rw [hkept]
    exact h
  · exact .inr hdropped

theorem AtMost.after (h : AtMost key b l) (hothers : ∀ c ∈ calls, c.key ≠ key) : AtMost key b (l.after calls) := by
  induction calls generalizing l with
  | nil => exact h
  | cons c calls ih =>
    refine ih ?_ fun d hd => hothers d (List.mem_cons_of_mem _ hd)
    unfold AtMost
    rw [bucket_allow_of_ne (Ne.symm (hothers c List.mem_cons_self))]
    exact h.maybeSweep

/-- When the window of `b` is over, the next call of the key is the first one in its window. -/
theorem AtMost.allowed (h : AtMost key b l) (hover : l.Over later b) (hmax : 1 ≤ l.maxRequests) :
    (l.allow key later).1.allowed = true := by
  have hconfig : (l.maybeSweep later).maxRequests = l.maxRequests ∧ (l.maybeSweep later).window = l.window :=
    maybeSweep_config
  have hcount : ((l.maybeSweep later).nextBucket key later).count = 1 := by
    rw [nextBucket_eq, hconfig.2]
    have hswept : AtMost key b (l.maybeSweep later) := h.maybeSweep
    rcases hswept with heq | heq
    · rw [heq, if_pos (show seconds l.window ≤ later - b.windowStart from hover)]
    · rw [heq]
      split_ifs <;> rfl
  show decide (_ ≤ (l.maybeSweep later).maxRequests) = true
  rw [hcount, hconfig.1]
  exact decide_eq_true hmax

/-- A refused call is not the first one of its window. -/
theorem refused (hmax : 1 ≤ l.maxRequests) (h : (l.allow key now).1.allowed = false) :
    ¬l.Over now ((l.maybeSweep now).bucket key) ∧
      ((l.allow key now).2.bucket key).windowStart = ((l.maybeSweep now).bucket key).windowStart := by
  have hconfig : (l.maybeSweep now).maxRequests = l.maxRequests ∧ (l.maybeSweep now).window = l.window :=
    maybeSweep_config
  have hcount : ¬((l.maybeSweep now).nextBucket key now).count ≤ l.maxRequests := by
    rw [← hconfig.1]
    exact of_decide_eq_false h
  rw [bucket_allow_same]
  rw [nextBucket_eq, hconfig.2] at hcount ⊢
  split_ifs at hcount ⊢ with hover
  · exact absurd hmax hcount
  · exact ⟨hover, rfl⟩

theorem retryAfter_decision (h : (l.decision now b).allowed = false) : (l.decision now b).retryAfter =
    if 0 < l.window - (now - b.windowStart).tdiv (seconds 1) then l.window - (now - b.windowStart).tdiv (seconds 1)
    else 1 := by
  have hmany : decide (b.count ≤ l.maxRequests) = false := h
  simp only [decision, hmany, Bool.false_eq_true, if_false]

/-- Less than a window has passed, so the hint is what is left of it, rounded up. -/
theorem retryAfter_of_refused (hmax : 1 ≤ l.maxRequests) (hbegun : Begun now l) (hepoch : 0 ≤ now)
    (h : (l.allow key now).1.allowed = false) :
    let hint := (l.allow key now).1.retryAfter
    (1 ≤ hint ∧ hint ≤ l.window) ∧ l.Over (now + seconds hint) ((l.allow key now).2.bucket key) := by
  intro hint
  obtain ⟨hopen, hsame⟩ := refused hmax h
  have hpast : ((l.allow key now).2.bucket key).windowStart ≤ now :=
    (hbegun.allow le_rfl key).trans (max_le le_rfl hepoch)
  have hhint : hint = _ := retryAfter_decision h
  rw [maybeSweep_config.2, ← bucket_allow_same] at hhint
  rw [Int.tdiv_eq_ediv_of_nonneg (by omega)] at hhint
  unfold Over seconds at *
  rw [← hsame] at hopen
  split_ifs at hhint <;> omega

/-- A refused client that waits as long as it is told is let through, whatever the other keys do in between. The one call
that is told too much is one before the clock's epoch. -/
theorem retry_sound {maxRequests : Nat} {window startedAt now : Int} {before : List Call} {key : String}
    (hmax : 1 ≤ maxRequests) (hbefore : ∀ c ∈ before, c.now ≤ now) (hepoch : 0 ≤ now) :
    let l := (create maxRequests window startedAt).after before
    let hint := (l.allow key now).1.retryAfter
    (l.allow key now).1.allowed = false →
      (1 ≤ hint ∧ hint ≤ window) ∧
        ∀ (others : List Call) (later : Int), (∀ c ∈ others, c.key ≠ key) → now + seconds hint ≤ later →
          (((l.allow key now).2.after others).allow key later).1.allowed = true := by
  intro l hint hrefused
  have hmax' : l.maxRequests = maxRequests := config_after.1
  have hwindow' : l.window = window := config_after.2
  have hnew : Begun now (create maxRequests window startedAt) := fun _ => le_max_right now 0
  have hbegun : Begun now l := hnew.after hbefore
  obtain ⟨hhint, hover⟩ := retryAfter_of_refused (hmax'.symm ▸ hmax) hbegun hepoch hrefused
  rw [hwindow'] at hhint
  refine ⟨hhint, fun others later hothers hlater => ?_⟩
  have hatMost : AtMost key ((l.allow key now).2.bucket key) ((l.allow key now).2.after others) :=
    AtMost.after (.inl rfl) hothers
  refine hatMost.allowed ?_ ?_
  · unfold Over at hover ⊢
    rw [config_after.2, config_allow.2]
    exact hover.trans (Int.sub_le_sub_right hlater _)
  · rwa [config_after.1, config_allow.1, hmax']

/-- After five and a half seconds of ten the hint is five, and a call of "b" drops the bucket in between. -/
theorem retry_sound_dropped :
    let l := (create 1 10 0).after [⟨"a", seconds 20⟩]
    let now := seconds 25 + 500000000
    let hint := (l.allow "a" now).1.retryAfter
    (1 ≤ hint ∧ hint ≤ 10) ∧
      (((l.allow "a" now).2.after [⟨"b", seconds 40⟩]).allow "a" (seconds 41)).1.allowed = true := by
  intro l now hint
  have hsound := @retry_sound 1 10 0 now [⟨"a", seconds 20⟩] "a" le_rfl (by decide) (by decide) (by decide)
  exact ⟨hsound.1, hsound.2 [⟨"b", seconds 40⟩] (seconds 41) (by decide) (by decide)⟩

/-- Before the epoch the window of a new bucket starts in the future. -/
theorem hint_beyond_window :
    let l := (create 1 10 (seconds (-200))).after [⟨"a", seconds (-100)⟩]
    (l.allow "a" (seconds (-100))).1 = ⟨false, 2, 1, 110⟩ := by
  decide

/-! ### Memory -/

/-- What keeps the map small. A bucket was opened by a call of its key, not long before the last sweep. -/
structure Bounded (calls : List Call) (l : SlidingWindowLimiter) : Prop where
  called : ∀ key b, l.buckets key = some b → ∃ c ∈ calls, c.key = key ∧ c.now = b.windowStart
  recent : ∀ key b, l.buckets key = some b → l.lastSweep - 2 * seconds (max l.window 0) ≤ b.windowStart

theorem bounded_create {maxRequests : Nat} {window startedAt : Int} : Bounded [] (create maxRequests window startedAt) :=
  ⟨fun _ _ h => (by cases h), fun _ _ h => (by cases h)⟩

/-- A sweep at `now` that has taken place leaves the buckets of the last two windows. -/
theorem maybeSweep_cases (l : SlidingWindowLimiter) (now : Int) :
    (now - l.lastSweep < seconds l.window ∧ l.maybeSweep now = l) ∨
      (l.maybeSweep now).lastSweep = now ∧ ∀ key b, (l.maybeSweep now).buckets key = some b →
        l.buckets key = some b ∧ now - b.windowStart < 2 * seconds l.window := by
  unfold maybeSweep
  split_ifs with hrecent
  · exact .inl ⟨hrecent, rfl⟩
  · refine .inr ⟨rfl, fun key b hb => ?_⟩
    obtain ⟨hsome, hkept⟩ := Option.filter_eq_some_iff.1 hb
    exact ⟨hsome, of_decide_eq_true hkept⟩

theorem Bounded.maybeSweep (h : Bounded calls l) (hle : l.lastSweep ≤ now) :
    Bounded calls (l.maybeSweep now) ∧ (l.maybeSweep now).lastSweep ≤ now ∧
      now - (l.maybeSweep now).lastSweep ≤ seconds (max l.window 0) := by
  rcases maybeSweep_cases l now with ⟨hrecent, heq⟩ | ⟨hswept, hkept⟩
  · rw [heq]
    refine ⟨h, hle, ?_⟩
    unfold seconds at *
    omega
  · rw [hswept]
    refine ⟨⟨fun key b hb => h.called key b (hkept key b hb).1, fun key b hb => ?_⟩, le_rfl, ?_⟩
    · rw [hswept, maybeSweep_config.2]
      have hclose := (hkept key b hb).2
      unfold seconds at *
      omega
    · unfold seconds
      omega

/-- A window after the epoch an empty bucket is opened anew, so what the call leaves was opened by a call. -/
theorem Bounded.allow (h : Bounded calls l) (hle : l.lastSweep ≤ c.now) (hepoch : seconds l.window ≤ c.now) :
    Bounded (calls ++ [c]) (l.allow c.key c.now).2 ∧ (l.allow c.key c.now).2.lastSweep ≤ c.now ∧
      c.now - (l.allow c.key c.now).2.lastSweep ≤ seconds (max l.window 0) := by
  obtain ⟨hbounded, hswept, hrecent⟩ := h.maybeSweep hle
  have hwindow : (l.maybeSweep c.now).window = l.window := maybeSweep_config.2
  have hold : ∀ key b, (l.maybeSweep c.now).buckets key = some b →
      (∃ d ∈ calls ++ [c], d.key = key ∧ d.now = b.windowStart) ∧
        (l.maybeSweep c.now).lastSweep - 2 * seconds (max l.window 0) ≤ b.windowStart := by
    intro key b hb
    obtain ⟨d, hd, hcalled⟩ := hbounded.called key b hb
    exact ⟨⟨d, List.mem_append_left _ hd, hcalled⟩, hwindow ▸ hbounded.recent key b hb⟩
  have hnew : ∀ key b, (l.allow c.key c.now).2.buckets key = some b →
      (∃ d ∈ calls ++ [c], d.key = key ∧ d.now = b.windowStart) ∧
        (l.maybeSweep c.now).lastSweep - 2 * seconds (max l.window 0) ≤ b.windowStart := by
    intro key b hb
    replace hb : ((l.maybeSweep c.now).buckets.insert c.key ((l.maybeSweep c.now).nextBucket c.key c.now)) key = some b := hb
    by_cases hkey : key = c.key
    · subst hkey
      rw [KeyMap.insert_same, nextBucket_eq, hwindow] at hb
      obtain rfl := Option.some.inj hb
      split_ifs with hover
      · refine ⟨⟨c, List.mem_append_right _ List.mem_cons_self, rfl, rfl⟩, ?_⟩
        show _ ≤ c.now
        unfold seconds
        omega
      · unfold bucket at hover ⊢
        cases hkept : (l.maybeSweep c.now).buckets c.key with
        | none =>
          rw [hkept] at hover
          exact absurd (show seconds l.window ≤ c.now - 0 by omega) hover
        | some b => exact hold c.key b hkept
    · rw [KeyMap.insert_of_ne _ _ _ hkey] at hb
      exact hold key b hb
  refine ⟨⟨fun key b hb => (hnew key b hb).1, fun key b hb => ?_⟩, hswept, hrecent⟩
  rw [config_allow.2]
  exact (hnew key b hb).2

/-- The last sweep is no later than the calls, and less than a window before the last one. -/
theorem bounded_after {maxRequests : Nat} {window startedAt : Int} (hsorted : Chronological calls)
    (hstarted : ∀ c ∈ calls, startedAt ≤ c.now) (hepoch : ∀ c ∈ calls, seconds window ≤ c.now) :
    let l := (create maxRequests window startedAt).after calls
    Bounded calls l ∧ (∀ now, startedAt ≤ now → (∀ c ∈ calls, c.now ≤ now) → l.lastSweep ≤ now) ∧
      ∀ c ∈ calls.getLast?, c.now - l.lastSweep ≤ seconds (max window 0) := by
  induction calls using List.reverseRecOn with
  | nil => exact ⟨bounded_create, fun _ hle _ => hle, fun _ h => (by cases h)⟩
  | append_singleton calls c ih =>
    have hsplit := List.pairwise_append.1 hsorted
    have hc : c ∈ calls ++ [c] := List.mem_append_right _ List.mem_cons_self
    obtain ⟨hbounded, hswept, -⟩ := ih hsplit.1 (fun d hd => hstarted d (List.mem_append_left _ hd)) fun d hd =>
      hepoch d (List.mem_append_left _ hd)
    have hle := hswept c.now (hstarted c hc) fun d hd => hsplit.2.2 d hd c List.mem_cons_self
    have hstep := hbounded.allow hle (by rw [config_after.2]; exact hepoch c hc)
    intro l
    rw [show l = _ from after_concat]
    refine ⟨hstep.1, fun now _ hnow => hstep.2.1.trans (hnow c hc), fun d hd => ?_⟩
    rw [List.getLast?_concat] at hd
    obtain rfl := Option.some.inj hd
    have hrecent := hstep.2.2
    rwa [config_after.2] at hrecent

/-- The keys of the calls from a time on. -/
def recentKeys (calls : List Call) (since : Int) : Finset String :=
  ((calls.filter fun c => since ≤ c.now).map Call.key).toFinset

/-- After a call every bucket is of a key that has called in the last three windows, if the limiter was created before
its first call and the calls come at least a window after the epoch. So there are no more buckets than such keys. -/
theorem memory_bounded {maxRequests : Nat} {window startedAt : Int} {calls : List Call} {c : Call}
    (hsorted : Chronological (calls ++ [c])) (hstarted : ∀ d ∈ calls ++ [c], startedAt ≤ d.now)
    (hepoch : ∀ d ∈ calls ++ [c], seconds window ≤ d.now) :
    let l := (create maxRequests window startedAt).after (calls ++ [c])
    let since := c.now - 3 * seconds (max window 0)
    (∀ key, l.buckets key ≠ none → ∃ d ∈ calls ++ [c], d.key = key ∧ since ≤ d.now ∧ d.now ≤ c.now) ∧
      {key | l.buckets key ≠ none}.encard ≤ (recentKeys (calls ++ [c]) since).card := by
  intro l since
  have hcalled : ∀ key, l.buckets key ≠ none → ∃ d ∈ calls ++ [c], d.key = key ∧ since ≤ d.now ∧ d.now ≤ c.now := by
    obtain ⟨hbounded, -, hswept⟩ : Bounded (calls ++ [c]) l ∧ _ := bounded_after hsorted hstarted hepoch
    intro key hkey
    obtain ⟨b, hb⟩ := Option.ne_none_iff_exists'.1 hkey
    obtain ⟨d, hd, hdkey, hdnow⟩ := hbounded.called key b hb
    have hrecent : l.lastSweep - 2 * seconds (max l.window 0) ≤ b.windowStart := hbounded.recent key b hb
    have hlast : c.now - l.lastSweep ≤ seconds (max window 0) := hswept c List.getLast?_concat
    have hwindow : l.window = window := config_after.2
    rw [hwindow] at hrecent
    refine ⟨d, hd, hdkey, ?_, ?_⟩
    · omega
    · rcases List.mem_append.1 hd with hd | hd
      · exact (List.pairwise_append.1 hsorted).2.2 d hd c List.mem_cons_self
      · rw [List.mem_singleton.1 hd]
  refine ⟨hcalled, ?_⟩
  rw [← Set.encard_coe_eq_coe_finsetCard]
  refine Set.encard_le_encard fun key hkey => ?_
  obtain ⟨d, hd, hdkey, hsince, -⟩ := hcalled key hkey
  rw [Finset.mem_coe, recentKeys, List.mem_toFinset, List.mem_map]
  exact ⟨d, List.mem_filter.2 ⟨hd, decide_eq_true hsince⟩, hdkey⟩

/-- The call of "c" drops the buckets of "a" and "b". -/
theorem memory_bounded_two_keys :
    let calls : List Call := [⟨"a", seconds 10⟩, ⟨"b", seconds 15⟩]
    let c : Call := ⟨"c", seconds 40⟩
    let l := (create 5 10 0).after (calls ++ [c])
    (∀ key, l.buckets key ≠ none →
        ∃ d ∈ calls ++ [c], d.key = key ∧ c.now - 3 * seconds (max 10 0) ≤ d.now ∧ d.now ≤ c.now) ∧
      {key | l.buckets key ≠ none}.encard ≤ (recentKeys (calls ++ [c]) (c.now - 3 * seconds (max 10 0))).card :=
  memory_bounded (by decide) (by decide) (by decide)

/-- Calls at times before the limiter was created are never swept away. -/
theorem kept_before_creation :
    let calls : List Call := [⟨"a", seconds 10⟩, ⟨"b", seconds 100⟩]
    let l := (create 5 10 (seconds 1000)).after calls
    Chronological calls ∧ (∀ c ∈ calls, seconds 10 ≤ c.now) ∧ (l.buckets "a").isSome = true ∧
      ¬∃ c ∈ calls, c.key = "a" ∧ seconds 100 - 3 * seconds 10 ≤ c.now := by
  decide

end SlidingWindowLimiter
end IdtxCore
