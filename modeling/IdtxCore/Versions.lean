import Mathlib.Data.List.Induction
import Mathlib.Logic.Function.Basic
import Mathlib.Order.MinMax

/-!
# `SessionVersions`: which versions changed which prim and were sent to which connection

`SessionVersions.cpp`. The bookkeeping keeps three numbers per prim (`PrimVersion`) and, per
connection, the highest version sent and the last correction of each prim. `checkUpdate` reads only
these; `checkUpdate_eq_fullHistoryStatus` says that this is the same as looking through the whole
history of recorded changes, sends and corrections.

The map lookups `prims_.find` / `connections_.find` are `Option`-valued functions, `operator[]` is
`getD {}` (a default entry). Versions are `std::uint64_t` in the source and `Nat` here: a counter that is
incremented once per command does not wrap.

A version is allocated before its change is recorded, on the session's consumer or on that of a session that
shares the root layer, so the calls may take the mutex in another order than their versions
(`never_current_iff`).
-/

namespace IdtxCore

/-- Server-local identifier of a websocket connection; `0` means "no connection". -/
abbrev ConnectionId := Nat

inductive UpdateBaseStatus where
  | current
  | stale
  | invalidBase
  deriving DecidableEq, Repr

structure PrimVersion where
  lastChangeSeq : Nat := 0
  lastWriter : ConnectionId := 0
  /-- `lastChangeSeq` before `lastWriter`'s current run of consecutive changes. -/
  foreignBeforeRun : Nat := 0
  deriving DecidableEq, Repr

structure ConnectionVersions (Path : Type) where
  maxSentSeq : Nat := 0
  correctionSeq : Path → Option Nat := fun _ => none

structure SessionVersions (Path : Type) where
  prims : Path → Option PrimVersion := fun _ => none
  connections : ConnectionId → Option (ConnectionVersions Path) := fun _ => none

namespace SessionVersions
variable {Path : Type} [DecidableEq Path]

/-- The highest version sent to `sender`, as `CheckUpdate` looks it up. -/
def maxSent (v : SessionVersions Path) (sender : ConnectionId) : Nat :=
  match v.connections sender with
  | some conn => conn.maxSentSeq
  | none => 0

/-- The version of the last correction of `path` sent to `sender`, `0` if there was none. -/
def correction (v : SessionVersions Path) (sender : ConnectionId) (path : Path) : Nat :=
  match v.connections sender with
  | some conn => (conn.correctionSeq path).getD 0
  | none => 0

/-- The version of the latest change of `path` that `sender` did not make. -/
def latestForeign (v : SessionVersions Path) (sender : ConnectionId) (path : Path) : Nat :=
  match v.prims path with
  | some prim => if prim.lastWriter = sender then prim.foreignBeforeRun else prim.lastChangeSeq
  | none => 0

def checkUpdate (v : SessionVersions Path) (sender : ConnectionId) (path : Path) (base : Nat) :
    UpdateBaseStatus :=
  if base > v.maxSent sender then .invalidBase
  else if base < max (v.latestForeign sender path) (v.correction sender path) then .stale
  else .current

def recordChange (v : SessionVersions Path) (path : Path) (seq : Nat) (writer : ConnectionId) :
    SessionVersions Path :=
  let prim := (v.prims path).getD {}
  -- a server-side change (writer 0) always starts a new run
  let prim := if writer = 0 ∨ prim.lastWriter ≠ writer then
      { prim with foreignBeforeRun := prim.lastChangeSeq, lastWriter := writer }
    else prim
  let prim := { prim with lastChangeSeq := seq }
  { v with prims := Function.update v.prims path (some prim) }

def recordSent (v : SessionVersions Path) (connection : ConnectionId) (seq : Nat) :
    SessionVersions Path :=
  let conn := (v.connections connection).getD {}
  let conn := { conn with maxSentSeq := max conn.maxSentSeq seq }
  { v with connections := Function.update v.connections connection (some conn) }

def recordCorrection (v : SessionVersions Path) (connection : ConnectionId) (path : Path)
    (seq : Nat) : SessionVersions Path :=
  let conn := (v.connections connection).getD {}
  let conn := { maxSentSeq := max conn.maxSentSeq seq,
                correctionSeq := Function.update conn.correctionSeq path (some seq) }
  { v with connections := Function.update v.connections connection (some conn) }

/-! ### What each record does to the three lookups -/

section Lookups
variable (v : SessionVersions Path) (c d : ConnectionId) (p q : Path) (seq : Nat)

@[simp] theorem maxSent_recordChange (w : ConnectionId) :
    (v.recordChange p seq w).maxSent c = v.maxSent c := rfl

@[simp] theorem correction_recordChange (w : ConnectionId) :
    (v.recordChange p seq w).correction c q = v.correction c q := rfl

omit [DecidableEq Path] in
@[simp] theorem latestForeign_recordSent :
    (v.recordSent d seq).latestForeign c p = v.latestForeign c p := rfl

@[simp] theorem latestForeign_recordCorrection :
    (v.recordCorrection d q seq).latestForeign c p = v.latestForeign c p := rfl

omit [DecidableEq Path] in
theorem maxSent_recordSent :
    (v.recordSent d seq).maxSent c = if c = d then max (v.maxSent c) seq else v.maxSent c := by
  by_cases h : c = d
  · subst h
    cases hc : v.connections c <;> simp [recordSent, maxSent, hc]
  · simp [recordSent, maxSent, h]

theorem maxSent_recordCorrection :
    (v.recordCorrection d p seq).maxSent c =
      if c = d then max (v.maxSent c) seq else v.maxSent c := by
  by_cases h : c = d
  · subst h
    cases hc : v.connections c <;> simp [recordCorrection, maxSent, hc]
  · simp [recordCorrection, maxSent, h]

omit [DecidableEq Path] in
@[simp] theorem correction_recordSent :
    (v.recordSent d seq).correction c p = v.correction c p := by
  by_cases h : c = d
  · subst h
    cases hc : v.connections c <;> simp [recordSent, correction, hc]
  · simp [recordSent, correction, h]

theorem correction_recordCorrection :
    (v.recordCorrection d q seq).correction c p =
      if c = d ∧ p = q then seq else v.correction c p := by
  by_cases h : c = d
  · subst h
    by_cases hp : p = q
    · subst hp; simp [recordCorrection, correction]
    · cases hc : v.connections c <;> simp [recordCorrection, correction, hc, hp]
  · simp [recordCorrection, correction, h]

/-- The three numbers kept per prim are enough: a change by `w` moves the latest foreign change of
every other connection to it and leaves that of `w` itself where it was. -/
theorem latestForeign_recordChange (w : ConnectionId) (hc : c ≠ 0) :
    (v.recordChange q seq w).latestForeign c p =
      if p = q ∧ w ≠ c then seq else v.latestForeign c p := by
  by_cases hp : p = q
  · subst hp
    have hget : v.latestForeign c p =
        if ((v.prims p).getD {}).lastWriter = c then ((v.prims p).getD {}).foreignBeforeRun
        else ((v.prims p).getD {}).lastChangeSeq := by
      cases hv : v.prims p <;> simp [latestForeign, hv]
    rw [hget]
    generalize hprim : (v.prims p).getD {} = prim
    simp only [recordChange, latestForeign, Function.update_self, hprim]
    -- a new run of `w` starts, or `w` (not the server) continues its run
    by_cases hrun : w = 0 ∨ prim.lastWriter ≠ w
    · by_cases hw : w = c
      · subst hw
        have hl : prim.lastWriter ≠ w := hrun.resolve_left hc
        simp [hl]
      · simp [hrun, hw]
    · have hl : prim.lastWriter = w := not_ne_iff.1 (not_or.1 hrun).2
      rw [if_neg hrun, hl]
      by_cases hw : w = c <;> simp [hw]
  · simp [recordChange, latestForeign, hp]

end Lookups

/-! ### The full-history rule

`Record` is one call of a recording method. `fullHistoryStatus` decides an update from the whole
list of calls, with no summary. -/

/-- One call of `RecordChange`, `RecordSent` or `RecordCorrection`. -/
inductive Record (Path : Type) where
  | change (path : Path) (seq : Nat) (writer : ConnectionId)
  | sent (connection : ConnectionId) (seq : Nat)
  | correction (connection : ConnectionId) (path : Path) (seq : Nat)
  deriving DecidableEq, Repr

def Record.seq : Record Path → Nat
  | .change _ seq _ => seq
  | .sent _ seq => seq
  | .correction _ _ seq => seq

def record (v : SessionVersions Path) : Record Path → SessionVersions Path
  | .change path seq writer => v.recordChange path seq writer
  | .sent connection seq => v.recordSent connection seq
  | .correction connection path seq => v.recordCorrection connection path seq

/-- The bookkeeping after the calls of `history`, oldest first. -/
def replay (history : List (Record Path)) : SessionVersions Path :=
  history.foldl record {}

/-- `r` sent version `r.seq` to `sender`. -/
def Record.SentTo (sender : ConnectionId) : Record Path → Prop
  | .change .. => False
  | .sent connection _ => connection = sender
  | .correction connection _ _ => connection = sender

/-- `r` is a change of `path` by a writer other than `sender` (the server, writer `0`, included). -/
def Record.ForeignChange (sender : ConnectionId) (path : Path) : Record Path → Prop
  | .change path' _ writer => path' = path ∧ writer ≠ sender
  | _ => False

/-- `r` is a correction of `path` to `sender`. -/
def Record.CorrectionOf (sender : ConnectionId) (path : Path) : Record Path → Prop
  | .correction connection path' _ => connection = sender ∧ path' = path
  | _ => False

instance (sender : ConnectionId) : DecidablePred (@Record.SentTo Path sender)
  | .change .. => inferInstanceAs (Decidable False)
  | .sent connection _ => inferInstanceAs (Decidable (connection = sender))
  | .correction connection _ _ => inferInstanceAs (Decidable (connection = sender))

instance (sender : ConnectionId) (path : Path) : DecidablePred (Record.ForeignChange sender path)
  | .change path' _ writer => inferInstanceAs (Decidable (path' = path ∧ writer ≠ sender))
  | .sent .. => inferInstanceAs (Decidable False)
  | .correction .. => inferInstanceAs (Decidable False)

instance (sender : ConnectionId) (path : Path) : DecidablePred (Record.CorrectionOf sender path)
  | .change .. => inferInstanceAs (Decidable False)
  | .sent .. => inferInstanceAs (Decidable False)
  | .correction connection path' _ =>
    inferInstanceAs (Decidable (connection = sender ∧ path' = path))

/-- The rule the bookkeeping stands for: the base exceeds every version sent to the sender (`0` if
none was), or some foreign change or correction of the prim came after the base. -/
def fullHistoryStatus (history : List (Record Path)) (sender : ConnectionId) (path : Path)
    (base : Nat) : UpdateBaseStatus :=
  if 0 < base ∧ ∀ r ∈ history, r.SentTo sender → r.seq < base then .invalidBase
  else if (∃ r ∈ history, r.ForeignChange sender path ∧ base < r.seq) ∨
      (∃ r ∈ history, r.CorrectionOf sender path ∧ base < r.seq) then .stale
  else .current

/-- The highest version among the calls of `history` that satisfy `P`, `0` if there is none. -/
def highest (history : List (Record Path)) (P : Record Path → Prop) [DecidablePred P] : Nat :=
  history.foldl (fun n r => if P r then max n r.seq else n) 0

section Highest
variable {P : Record Path → Prop} [DecidablePred P] {history : List (Record Path)} {r : Record Path}

omit [DecidableEq Path] in
theorem highest_append : highest (history ++ [r]) P =
    if P r then max (highest history P) r.seq else highest history P := by
  simp [highest]

omit [DecidableEq Path] in
theorem lt_highest_iff (base : Nat) :
    base < highest history P ↔ ∃ r ∈ history, P r ∧ base < r.seq := by
  induction history using List.reverseRecOn with
  | nil => simp [highest]
  | append_singleton history r ih =>
    rw [highest_append]
    by_cases hr : P r <;> simp [hr, ih, or_and_right, exists_or]

omit [DecidableEq Path] in
theorem highest_lt_iff (base : Nat) :
    highest history P < base ↔ 0 < base ∧ ∀ r ∈ history, P r → r.seq < base := by
  induction history using List.reverseRecOn with
  | nil => simp [highest]
  | append_singleton history r ih =>
    rw [highest_append]
    by_cases hr : P r <;>
      simp only [hr, if_true, if_false, max_lt_iff, ih, List.forall_mem_append,
        List.forall_mem_singleton, true_implies, false_implies, and_assoc, and_true]

omit [DecidableEq Path] in
/-- With non-decreasing versions the newest call has the highest one. -/
theorem highest_le_of_pairwise
    (h : (history ++ [r]).Pairwise fun a b => a.seq ≤ b.seq) : highest history P ≤ r.seq := by
  by_contra hlt
  obtain ⟨a, ha, -, hlt⟩ := (lt_highest_iff _).1 (Nat.lt_of_not_le hlt)
  have := (List.pairwise_append.1 h).2.2 a ha r (List.mem_singleton_self r)
  omega

end Highest

theorem replay_append (history : List (Record Path)) (r : Record Path) :
    replay (history ++ [r]) = (replay history).record r := by
  simp [replay]

/-- The highest version sent to a connection, from the whole history. -/
theorem maxSent_replay (history : List (Record Path)) (sender : ConnectionId) :
    (replay history).maxSent sender = highest history (Record.SentTo sender) := by
  induction history using List.reverseRecOn with
  | nil => rfl
  | append_singleton history r ih =>
    rw [replay_append, highest_append]
    cases r with
    | change path seq writer => simpa [record, Record.SentTo] using ih
    | sent connection seq =>
      simp only [record, maxSent_recordSent, ih, Record.SentTo, Record.seq, eq_comm]
    | correction connection path seq =>
      simp only [record, maxSent_recordCorrection, ih, Record.SentTo, Record.seq, eq_comm]

/-- The latest correction is the highest one, because versions do not go down. -/
theorem correction_replay (history : List (Record Path)) (sender : ConnectionId) (path : Path)
    (hmono : history.Pairwise fun a b => a.seq ≤ b.seq) :
    (replay history).correction sender path = highest history (Record.CorrectionOf sender path) := by
  induction history using List.reverseRecOn with
  | nil => rfl
  | append_singleton history r ih =>
    have hle := highest_le_of_pairwise (P := Record.CorrectionOf sender path) hmono
    have ih := ih (List.pairwise_append.1 hmono).1
    rw [replay_append, highest_append]
    cases r with
    | change path' seq writer => simpa [record, Record.CorrectionOf] using ih
    | sent connection seq => simpa [record, Record.CorrectionOf] using ih
    | correction connection path' seq =>
      simp only [Record.seq] at hle
      simp only [record, correction_recordCorrection, ih, Record.CorrectionOf, Record.seq,
        max_eq_right hle, eq_comm]

/-- The summary kept per prim answers "latest change by someone else" for every connection. -/
theorem latestForeign_replay (history : List (Record Path)) (sender : ConnectionId) (path : Path)
    (hsender : sender ≠ 0) (hmono : history.Pairwise fun a b => a.seq ≤ b.seq) :
    (replay history).latestForeign sender path =
      highest history (Record.ForeignChange sender path) := by
  induction history using List.reverseRecOn with
  | nil => rfl
  | append_singleton history r ih =>
    have hle := highest_le_of_pairwise (P := Record.ForeignChange sender path) hmono
    have ih := ih (List.pairwise_append.1 hmono).1
    rw [replay_append, highest_append]
    cases r with
    | change path' seq writer =>
      simp only [Record.seq] at hle
      simp only [record, latestForeign_recordChange _ _ _ _ _ _ hsender, ih, Record.ForeignChange,
        Record.seq, max_eq_right hle, eq_comm]
    | sent connection seq => simpa [record, Record.ForeignChange] using ih
    | correction connection path' seq => simpa [record, Record.ForeignChange] using ih

/-- `CheckUpdate` decides every update of a connection as the full-history rule does, after any
alternation of writers, server changes and corrections. -/
theorem checkUpdate_eq_fullHistoryStatus (history : List (Record Path)) (sender : ConnectionId)
    (path : Path) (base : Nat) (hsender : sender ≠ 0)
    (hmono : history.Pairwise fun a b => a.seq ≤ b.seq) :
    (replay history).checkUpdate sender path base =
      fullHistoryStatus history sender path base := by
  have hinvalid : (replay history).maxSent sender < base ↔
      0 < base ∧ ∀ r ∈ history, r.SentTo sender → r.seq < base := by
    rw [maxSent_replay, highest_lt_iff]
  have hstale : base < max ((replay history).latestForeign sender path)
        ((replay history).correction sender path) ↔
      (∃ r ∈ history, r.ForeignChange sender path ∧ base < r.seq) ∨
        (∃ r ∈ history, r.CorrectionOf sender path ∧ base < r.seq) := by
    rw [lt_max_iff, latestForeign_replay history sender path hsender hmono,
      correction_replay history sender path hmono, lt_highest_iff, lt_highest_iff]
  simp only [checkUpdate, fullHistoryStatus, gt_iff_lt, hinvalid, hstale]

/-- Connection 1 drags, connection 2 interrupts, connection 1 resumes and is then corrected: base 3
is too old for connection 1 because of the correction, and for connection 2 because of the drag. -/
theorem checkUpdate_interrupted_drag :
    let history : List (Record Nat) := [.change 7 1 1, .sent 2 1, .change 7 2 2, .sent 1 2,
      .change 7 3 1, .sent 1 3, .sent 2 3, .correction 1 7 4]
    history.Pairwise (fun a b => a.seq ≤ b.seq) ∧
      (replay history).checkUpdate 1 7 3 = .stale ∧ (replay history).checkUpdate 2 7 2 = .stale ∧
      (replay history).checkUpdate 2 7 3 = .current := by
  have hmono : ([.change 7 1 1, .sent 2 1, .change 7 2 2, .sent 1 2, .change 7 3 1, .sent 1 3,
      .sent 2 3, .correction 1 7 4] : List (Record Nat)).Pairwise (fun a b => a.seq ≤ b.seq) := by
    decide
  refine ⟨hmono, ?_, ?_, ?_⟩
  · rw [checkUpdate_eq_fullHistoryStatus _ 1 7 3 (by decide) hmono]; decide
  · rw [checkUpdate_eq_fullHistoryStatus _ 2 7 2 (by decide) hmono]; decide
  · rw [checkUpdate_eq_fullHistoryStatus _ 2 7 3 (by decide) hmono]; decide

/-! ### Changes recorded in another order than their versions -/

structure Change (Path : Type) where
  path : Path
  seq : Nat
  writer : ConnectionId
  deriving DecidableEq, Repr

def Record.change? : Record Path → Option (Change Path)
  | .change path seq writer => some ⟨path, seq, writer⟩
  | _ => none

def Change.toRecord (x : Change Path) : Record Path := .change x.path x.seq x.writer

/-- The calls of `RecordChange`, in the order in which they took the mutex. -/
def changes (history : List (Record Path)) : List (Change Path) := history.filterMap Record.change?

/-- The changes of `path` by a writer other than `sender`. -/
def foreign (changes : List (Change Path)) (sender : ConnectionId) (path : Path) :
    List (Change Path) :=
  changes.filter fun x => x.path = path ∧ x.writer ≠ sender

/-- No change has a higher version than the one recorded last. -/
def NewestLast (changes : List (Change Path)) : Prop :=
  ∀ last ∈ changes.getLast?, ∀ x ∈ changes, x.seq ≤ last.seq

omit [DecidableEq Path] in
theorem changes_concat (history : List (Record Path)) (r : Record Path) :
    changes (history ++ [r]) = changes history ++ r.change?.toList := by
  cases r <;> simp [changes, Record.change?, List.filterMap_cons]

/-- In any order, the bookkeeping has the foreign change that was recorded last. -/
theorem latestForeign_replay_last (history : List (Record Path)) {sender : ConnectionId}
    (hsender : sender ≠ 0) (path : Path) :
    (replay history).latestForeign sender path =
      ((foreign (changes history) sender path).getLast?.map (·.seq)).getD 0 := by
  induction history using List.reverseRecOn with
  | nil => rfl
  | append_singleton history r ih =>
    rw [replay_append, changes_concat, foreign, List.filter_append, ← foreign]
    cases r with
    | change path' seq writer =>
      simp only [record, latestForeign_recordChange _ _ _ _ _ _ hsender, ih]
      by_cases hforeign : path' = path ∧ writer ≠ sender
      · simp [Record.change?, hforeign]
      · have hsame : ¬ (path = path' ∧ writer ≠ sender) := by rwa [eq_comm]
        simp [Record.change?, hforeign, hsame]
    | sent connection seq => simpa [record, Record.change?] using ih
    | correction connection path' seq => simpa [record, Record.change?] using ih

theorem latestForeign_eq_last {history : List (Record Path)} {xs : List (Change Path)} (hchanges : changes history = xs)
    {sender : ConnectionId} (hsender : sender ≠ 0) {path : Path} {last : Change Path}
    (hlast : last ∈ (foreign xs sender path).getLast?) :
    (replay history).latestForeign sender path = last.seq := by
  rw [latestForeign_replay_last history hsender, hchanges, Option.mem_def.1 hlast]
  rfl

omit [DecidableEq Path] in
theorem changes_map_toRecord (xs : List (Change Path)) : changes (xs.map Change.toRecord) = xs := by
  rw [changes, List.filterMap_map]
  exact List.filterMap_some

theorem correction_replay_changes (xs : List (Change Path)) (sender : ConnectionId) (path : Path) :
    (replay (xs.map Change.toRecord)).correction sender path = 0 := by
  induction xs using List.reverseRecOn with
  | nil => rfl
  | append_singleton xs x ih =>
    rw [List.map_append, List.map_singleton, replay_append]
    exact ih

/-- Whatever is sent in between, no update is taken for current after a foreign change newer than its base
exactly if, for every prim and every connection, the foreign change recorded last is the newest one. -/
theorem never_current_iff (xs : List (Change Path)) :
    (∀ history, changes history = xs → ∀ sender ≠ 0, ∀ path base,
        (∃ x ∈ xs, x.path = path ∧ x.writer ≠ sender ∧ base < x.seq) →
        (replay history).checkUpdate sender path base ≠ .current) ↔
      ∀ sender ≠ 0, ∀ path, NewestLast (foreign xs sender path) := by
  constructor
  · intro h sender hsender path last hlast x hx
    by_contra hlt
    have hmem : x ∈ xs ∧ x.path = path ∧ x.writer ≠ sender := by simpa [foreign] using hx
    -- the client has been sent the newer change, and its update has the version recorded last as its base
    let history := xs.map Change.toRecord ++ [.sent sender x.seq]
    have hchanges : changes history = xs := by
      rw [changes_concat, changes_map_toRecord]
      exact List.append_nil xs
    refine h history hchanges sender hsender path last.seq ⟨x, hmem.1, hmem.2.1, hmem.2.2, not_le.1 hlt⟩ ?_
    have hforeign := latestForeign_eq_last hchanges hsender hlast
    have hsent : x.seq ≤ (replay history).maxSent sender := by
      rw [replay_append, record, maxSent_recordSent, if_pos rfl]
      exact le_max_right _ _
    have hcorrection : (replay history).correction sender path = 0 := by
      rw [replay_append, record, correction_recordSent]
      exact correction_replay_changes xs sender path
    unfold checkUpdate
    rw [if_neg (by omega), if_neg (by simp [hforeign, hcorrection])]
  · intro h history hchanges sender hsender path base hx
    obtain ⟨x, hx, hpath, hwriter, hlt⟩ := hx
    have hmem : x ∈ foreign xs sender path := by simpa [foreign] using ⟨hx, hpath, hwriter⟩
    obtain ⟨last, hlast⟩ := Option.isSome_iff_exists.1 (List.getLast?_isSome.2 (List.ne_nil_of_mem hmem))
    have hle := h sender hsender path last hlast x hmem
    have hforeign := latestForeign_eq_last hchanges hsender hlast
    unfold checkUpdate
    split_ifs with hinvalid hstale
    · nofun
    · nofun
    · exact absurd (lt_max_of_lt_left (hforeign ▸ hlt.trans_le hle)) hstale

/-- A reload's change has version 1 and is recorded after version 2, a change by client 1. Client 3 has been
sent version 1 when it makes its update, and version 2 after that. -/
theorem current_after_newer_change :
    let xs : List (Change Nat) := [⟨7, 2, 1⟩, ⟨7, 1, 0⟩]
    let history : List (Record Nat) := [.change 7 2 1, .change 7 1 0, .sent 3 1, .sent 3 2]
    (xs.map (·.seq)).Nodup ∧ changes history = xs ∧ (∃ x ∈ xs, x.path = 7 ∧ x.writer ≠ 3 ∧ 1 < x.seq) ∧
      (replay history).checkUpdate 3 7 1 = .current := by
  decide

end SessionVersions
end IdtxCore
