import Mathlib.Logic.Function.Basic
import Mathlib.Data.List.Induction
import IdtxCore.Lib.Lts

/-!
# `UploadFile`: concurrent uploads to one target

Any number of calls whose target is the same file, one step per call of the file system: the check that
the target exists, the opening of the `.part` file, which creates or truncates it, the writes, the close
and the rename. All of them use the same `.part` name. A file is an inode: a name refers to one, and an
open file goes on writing to its inode whatever becomes of the name. The stream is tested after the last
`write` and then closed by its destructor, whose flush nobody tests: a close may lose the tail of the body.

A call takes effect when it is answered 409 or 500, or with its rename; `log` records the calls in that
order. If no call opens the `.part` file of another one, none closes it with a part of its body missing and
none renames over one that has checked that there is no file (`Calm`), the calls have the effect of the
sequential calls in that order (`Atomic`).
-/

namespace IdtxCore

abbrev Bytes := List UInt8

/-- `write` at an offset of a file: what lies between the end of the file and the offset is zero. -/
def writeAt (content : Bytes) (offset : Nat) (data : Bytes) : Bytes :=
  content.take offset ++ List.replicate (offset - content.length) 0 ++ data ++
    content.drop (offset + data.length)

/-- The arguments of `UploadFile`, once they are validated. -/
structure UploadCall where
  body : Bytes
  overwrite : Bool

namespace UploadCall

/-- The call by itself: what becomes of the target if it is answered `code`; `none` if it would not be. -/
def answers (call : UploadCall) (target : Option Bytes) (code : Nat) : Option (Option Bytes) :=
  if target.isSome && !call.overwrite then
    if code = 409 then some target else none
  else if code = 201 then some (some call.body)
  else if code = 500 then some target
  else none

end UploadCall

inductive UploadPc where
  | start
  /-- past the check that the target exists -/
  | checked
  | writing (inode written : Nat)
  /-- the `.part` file is closed -/
  | written
  /-- about to remove the `.part` file -/
  | failed
  | answered (code : Nat)
  deriving DecidableEq, Repr

namespace UploadPc

def holds : UploadPc → Bool
  | .writing .. | .written | .failed => true
  | _ => false

def active : UploadPc → Bool
  | .checked | .writing .. | .written | .failed => true
  | _ => false

end UploadPc

inductive UploadAction where
  | conflict
  | check
  | directoryFails
  | openFails
  | openPart
  | write (size : Nat)
  | writeFails
  | close
  | rename
  | renameFails
  | remove
  | removeFails
  deriving DecidableEq, Repr

structure UploadState (C : Type) where
  target : Option Nat
  part : Option Nat
  content : Nat → Bytes
  /-- the inodes from here on are free -/
  next : Nat
  pc : C → UploadPc
  log : List (C × Nat)

namespace UploadState
variable {C : Type}

def targetContent (s : UploadState C) : Option Bytes := s.target.map s.content

/-- Before the first call: the target may exist, and a `.part` file may be left from an earlier run. -/
structure Start (initial : Option Bytes) (s : UploadState C) : Prop where
  targetContent_eq : s.targetContent = initial
  part_ne : ∀ i, s.part = some i → s.target ≠ some i
  used : ∀ i, s.part = some i ∨ s.target = some i → i < s.next
  pc_eq : ∀ c, s.pc c = .start
  log_eq : s.log = []

section Steps
variable [DecidableEq C]

def goto (s : UploadState C) (c : C) (pc : UploadPc) : UploadState C :=
  { s with pc := Function.update s.pc c pc }

def answer (s : UploadState C) (c : C) (code : Nat) : UploadState C :=
  { s.goto c (.answered code) with log := s.log ++ [(c, code)] }

/-- `std::ofstream(tmp_path, trunc)` -/
def openPart (s : UploadState C) (c : C) : UploadState C :=
  let inode := s.part.getD s.next
  { s.goto c (.writing inode 0) with
    part := some inode
    content := Function.update s.content inode []
    next := max s.next (inode + 1) }

/-- `size` bytes of the body reach the inode. -/
def write (s : UploadState C) (c : C) (call : UploadCall) (inode written size : Nat) : UploadState C :=
  { s.goto c (.writing inode (written + size)) with
    content := Function.update s.content inode
      (writeAt (s.content inode) written ((call.body.drop written).take size)) }

def rename (s : UploadState C) (c : C) (inode : Nat) : UploadState C :=
  { s.answer c 201 with target := some inode, part := none }

def remove (s : UploadState C) (c : C) : UploadState C := { s.answer c 500 with part := none }

inductive Step (call : C → UploadCall) (s : UploadState C) (c : C) :
    UploadAction → UploadState C → Prop where
  | conflict : s.pc c = .start → s.target.isSome → (call c).overwrite = false →
      Step call s c .conflict (s.answer c 409)
  | check : s.pc c = .start → s.target = none ∨ (call c).overwrite = true →
      Step call s c .check (s.goto c .checked)
  | directoryFails : s.pc c = .checked → Step call s c .directoryFails (s.answer c 500)
  | openFails : s.pc c = .checked → Step call s c .openFails (s.answer c 500)
  | openPart : s.pc c = .checked → Step call s c .openPart (s.openPart c)
  | write {inode written size : Nat} : s.pc c = .writing inode written →
      written + size ≤ (call c).body.length →
      Step call s c (.write size) (s.write c (call c) inode written size)
  | writeFails {inode written : Nat} : s.pc c = .writing inode written →
      Step call s c .writeFails (s.goto c .failed)
  /-- the destructor flushes what it can, the stream's state is not looked at again -/
  | close {inode written : Nat} : s.pc c = .writing inode written → Step call s c .close (s.goto c .written)
  | rename {inode : Nat} : s.pc c = .written → s.part = some inode →
      Step call s c .rename (s.rename c inode)
  | renameFails : s.pc c = .written → Step call s c .renameFails (s.goto c .failed)
  | remove : s.pc c = .failed → Step call s c .remove (s.remove c)
  -- the next call that opens the `.part` file truncates what stays
  | removeFails : s.pc c = .failed → Step call s c .removeFails (s.answer c 500)

/-- No other call has the `.part` file open when it is opened, the whole body has reached it when it is
closed, and no call without `overwrite` is between its check and its answer when another one renames. -/
def Calm (call : C → UploadCall) (s : UploadState C) (c : C) : UploadAction → Prop
  | .openPart => ∀ c', c' ≠ c → (s.pc c').holds = false
  | .close => ∃ inode, s.pc c = .writing inode (call c).body.length
  | .rename => ∀ c', c' ≠ c → (call c').overwrite = false → (s.pc c').active = false
  | _ => True

def system (call : C → UploadCall) (initial : Option Bytes) : Lts.System (UploadState C) where
  init := Start initial
  step s s' := ∃ c action, Step call s c action s'

def calmSystem (call : C → UploadCall) (initial : Option Bytes) : Lts.System (UploadState C) where
  init := Start initial
  step s s' := ∃ c action, Step call s c action s' ∧ Calm call s c action

end Steps

/-! ### Sequential calls -/

/-- The target after the calls of the log, one after the other; `none` if one of them would not be
answered as the log says. -/
def replay (call : C → UploadCall) (initial : Option Bytes) (log : List (C × Nat)) :
    Option (Option Bytes) :=
  log.foldlM (fun target entry => (call entry.1).answers target entry.2) initial

/-- The calls have the effect of sequential ones: in the order of the log each call has the answer it
would have by itself, and the target is what they leave. -/
structure Atomic (call : C → UploadCall) (initial : Option Bytes) (s : UploadState C) : Prop where
  order : replay call initial s.log = some s.targetContent
  once : (s.log.map Prod.fst).Nodup
  answered : ∀ c code, s.pc c = .answered code ↔ (c, code) ∈ s.log
  whole : (∀ c, s.pc c ≠ .answered 201) ∧ s.targetContent = initial ∨
    ∃ c, s.pc c = .answered 201 ∧ s.targetContent = some (call c).body
  never_replaces : ∀ before c after, s.log = before ++ (c, 201) :: after → (call c).overwrite = false →
    replay call initial before = some none

section Replay
variable {call : C → UploadCall} {initial target : Option Bytes} {log : List (C × Nat)}

theorem replay_concat (call : C → UploadCall) (initial : Option Bytes) (log : List (C × Nat)) (c : C)
    (code : Nat) : replay call initial (log ++ [(c, code)]) =
      (replay call initial log).bind fun target => (call c).answers target code := by
  unfold replay
  rw [List.foldlM_append]
  cases log.foldlM (fun target entry => (call entry.1).answers target entry.2) initial with
  | none => rfl
  | some target => simp [List.foldlM]

theorem answers_201 {call : UploadCall} {target target' : Option Bytes}
    (h : call.answers target 201 = some target') :
    target' = some call.body ∧ (call.overwrite = false → target = none) := by
  unfold UploadCall.answers at h
  split at h
  · cases h
  · rename_i hcheck
    refine ⟨(Option.some.inj h).symm, ?_⟩
    intro hno
    cases target with
    | none => rfl
    | some content => simp [hno] at hcheck

theorem answers_of_ne {call : UploadCall} {target target' : Option Bytes} {code : Nat} (hcode : code ≠ 201)
    (h : call.answers target code = some target') : target' = target := by
  unfold UploadCall.answers at h
  split_ifs at h
  · exact (Option.some.inj h).symm
  · exact (Option.some.inj h).symm

/-- The target is what it was, or the body of the last call that was answered 201. -/
theorem replay_whole (h : replay call initial log = some target) :
    (∀ c, (c, 201) ∉ log) ∧ target = initial ∨ ∃ c, (c, 201) ∈ log ∧ target = some (call c).body := by
  induction log using List.reverseRecOn generalizing target with
  | nil => exact .inl ⟨by simp, (Option.some.inj h).symm⟩
  | append_singleton log entry ih =>
    obtain ⟨c, code⟩ := entry
    rw [replay_concat] at h
    obtain ⟨before, hbefore, hanswers⟩ := Option.bind_eq_some_iff.1 h
    by_cases hcode : code = 201
    · subst hcode
      exact .inr ⟨c, by simp, (answers_201 hanswers).1⟩
    · rw [answers_of_ne hcode hanswers]
      rcases ih hbefore with ⟨hnone, heq⟩ | ⟨c', hc', heq⟩
      · refine .inl ⟨?_, heq⟩
        intro c' hc'
        rcases List.mem_append.1 hc' with hold | hnew
        · exact hnone c' hold
        · simp only [List.mem_singleton, Prod.mk.injEq] at hnew
          exact hcode hnew.2.symm
      · exact .inr ⟨c', List.mem_append_left _ hc', heq⟩

/-- In a sequential run, a call without `overwrite` is answered 201 only if there is no file. -/
theorem replay_never_replaces (h : replay call initial log = some target) {before after : List (C × Nat)}
    {c : C} (hlog : log = before ++ (c, 201) :: after) (hno : (call c).overwrite = false) :
    replay call initial before = some none := by
  subst hlog
  rw [List.append_cons, replay, List.foldlM_append] at h
  change (replay call initial (before ++ [(c, 201)])).bind _ = _ at h
  obtain ⟨middle, hmiddle, -⟩ := Option.bind_eq_some_iff.1 h
  rw [replay_concat] at hmiddle
  obtain ⟨target', htarget', hanswers⟩ := Option.bind_eq_some_iff.1 hmiddle
  rw [htarget', (answers_201 hanswers).2 hno]

end Replay

/-! ### The invariant -/

/-- The `.part` file of a call that has it open holds what the call has written. -/
def Owns (call : C → UploadCall) (s : UploadState C) (c : C) : Prop :=
  match s.pc c with
  | .writing inode written => s.part = some inode ∧ s.content inode = (call c).body.take written
  | .written => ∃ inode, s.part = some inode ∧ s.content inode = (call c).body
  | _ => True

structure Inv (call : C → UploadCall) (initial : Option Bytes) (s : UploadState C) : Prop where
  order : replay call initial s.log = some s.targetContent
  once : (s.log.map Prod.fst).Nodup
  answered : ∀ c code, s.pc c = .answered code ↔ (c, code) ∈ s.log
  /-- a call without `overwrite` has seen no file, and there is still none -/
  absent : ∀ c, (call c).overwrite = false → (s.pc c).active = true → s.target = none
  exclusive : ∀ c c', (s.pc c).holds = true → (s.pc c').holds = true → c = c'
  owns : ∀ c, Owns call s c
  part_ne : ∀ i, s.part = some i → s.target ≠ some i
  used : ∀ i, s.part = some i ∨ s.target = some i → i < s.next

theorem writeAt_take {body : Bytes} {written size : Nat} (h : written + size ≤ body.length) :
    writeAt (body.take written) written ((body.drop written).take size) = body.take (written + size) := by
  have hlength : (body.take written).length = written := by
    rw [List.length_take]
    omega
  have hdata : ((body.drop written).take size).length = size := by
    rw [List.length_take, List.length_drop]
    omega
  have hdrop : (body.take written).drop (written + size) = [] := List.drop_of_length_le (by omega)
  unfold writeAt
  rw [hlength, hdata, hdrop, Nat.sub_self, List.replicate_zero, List.append_nil, List.append_nil,
    List.take_take, Nat.min_self, List.take_add]

variable {call : C → UploadCall} {initial : Option Bytes} {s s' : UploadState C} {c : C}

theorem Owns.of_holds_false (h : (s.pc c).holds = false) : Owns call s c := by
  unfold Owns
  cases hpc : s.pc c with
  | start | checked | failed | answered => trivial
  | writing | written => rw [hpc] at h; cases h

theorem start_inv (h : Start initial s) : Inv call initial s where
  order := by rw [h.log_eq, h.targetContent_eq]; rfl
  once := by rw [h.log_eq]; exact List.nodup_nil
  answered c code := by rw [h.log_eq, h.pc_eq c]; simp
  absent c _ hactive := by rw [h.pc_eq c] at hactive; cases hactive
  exclusive c c' hholds := by rw [h.pc_eq c] at hholds; cases hholds
  owns c := .of_holds_false (by rw [h.pc_eq c]; rfl)
  part_ne := h.part_ne
  used := h.used

theorem Owns.congr (h : Owns call s c) (hpc : s'.pc c = s.pc c)
    (hsame : (s.pc c).holds = true → s'.part = s.part ∧ s'.content = s.content) : Owns call s' c := by
  cases hholds : (s.pc c).holds with
  | false => exact .of_holds_false (by rw [hpc]; exact hholds)
  | true =>
    obtain ⟨hpart, hcontent⟩ := hsame hholds
    unfold Owns at h ⊢
    rw [hpc, hpart, hcontent]
    exact h

theorem not_mem_log (h : Inv call initial s) (hbefore : ∀ code, s.pc c ≠ .answered code) (code : Nat) :
    (c, code) ∉ s.log := fun hmem => hbefore code ((h.answered c code).2 hmem)

theorem Inv.dropPart (h : Inv call initial s) (hfree : ∀ c, (s.pc c).holds = false) :
    Inv call initial { s with part := none } where
  order := h.order
  once := h.once
  answered := h.answered
  absent := h.absent
  exclusive := h.exclusive
  owns c := .of_holds_false (hfree c)
  part_ne _ hi := by cases hi
  used i hi := h.used i (.inr (hi.resolve_left nofun))

theorem Inv.others (h : Inv call initial s) (hholds : (s.pc c).holds = true) (c' : C) (hne : c' ≠ c) :
    (s.pc c').holds = false := by
  by_contra hc'
  rw [Bool.not_eq_false] at hc'
  exact hne (h.exclusive c' c hc' hholds)

theorem Inv.answers_500 (h : Inv call initial s) (hactive : (s.pc c).active = true) :
    (call c).answers s.targetContent 500 = some s.targetContent := by
  unfold UploadCall.answers
  rw [if_neg]
  · rfl
  · simp only [Bool.and_eq_true, Bool.not_eq_true', not_and, Bool.not_eq_false]
    intro hsome
    by_contra hno
    rw [Bool.not_eq_true] at hno
    simp [targetContent, h.absent c hno hactive] at hsome

theorem Inv.atomic (h : Inv call initial s) : Atomic call initial s where
  order := h.order
  once := h.once
  answered := h.answered
  whole := by
    rcases replay_whole h.order with ⟨hnone, heq⟩ | ⟨c, hc, heq⟩
    · exact .inl ⟨fun c hc => hnone c ((h.answered c 201).1 hc), heq⟩
    · exact .inr ⟨c, (h.answered c 201).2 hc, heq⟩
  never_replaces _ _ _ hlog hno := replay_never_replaces h.order hlog hno

/-! ### One step -/

variable [DecidableEq C]

theorem goto_pc (pc : UploadPc) (c' : C) : (s.goto c pc).pc c' = if c' = c then pc else s.pc c' :=
  Function.update_apply ..

/-- A step that moves a call on: the log and the target stay, and the `.part` file belongs to the call
if it changes. -/
theorem Inv.move (h : Inv call initial s) {pc : UploadPc} (hbefore : ∀ code, s.pc c ≠ .answered code)
    (hafter : ∀ code, pc ≠ .answered code) (hpc : ∀ c', s'.pc c' = if c' = c then pc else s.pc c')
    (hlog : s'.log = s.log) (htarget : s'.target = s.target)
    (hcontent : ∀ i, s.target = some i → s'.content i = s.content i)
    (habsent : (call c).overwrite = false → pc.active = true → s.target = none)
    (hexclusive : pc.holds = true → ∀ c', c' ≠ c → (s.pc c').holds = false)
    (howns : ∀ c', Owns call s' c') (hpart : ∀ i, s'.part = some i → s'.target ≠ some i)
    (hused : ∀ i, s'.part = some i ∨ s'.target = some i → i < s'.next) : Inv call initial s' where
  order := by
    have htarget' : s'.targetContent = s.targetContent := by
      unfold targetContent
      rw [htarget]
      cases hi : s.target with
      | none => rfl
      | some i => exact congrArg some (hcontent i hi)
    rw [hlog, htarget']
    exact h.order
  once := by
    rw [hlog]
    exact h.once
  answered c' code := by
    rw [hpc, hlog]
    split
    · rename_i heq
      subst heq
      exact iff_of_false (hafter code) (not_mem_log h hbefore code)
    · exact h.answered c' code
  absent c' hno hactive := by
    rw [htarget]
    rw [hpc] at hactive
    split at hactive
    · rename_i heq
      subst heq
      exact habsent hno hactive
    · exact h.absent c' hno hactive
  exclusive c₁ c₂ h₁ h₂ := by
    rw [hpc] at h₁ h₂
    split at h₁ <;> split at h₂
    · rename_i heq₁ heq₂
      exact heq₁.trans heq₂.symm
    · rename_i heq₁ hne₂
      rw [hexclusive h₁ c₂ hne₂] at h₂
      cases h₂
    · rename_i hne₁ heq₂
      rw [hexclusive h₂ c₁ hne₁] at h₁
      cases h₁
    · exact h.exclusive c₁ c₂ h₁ h₂
  owns := howns
  part_ne := hpart
  used := hused

theorem Inv.goto (h : Inv call initial s) {pc : UploadPc} (hbefore : ∀ code, s.pc c ≠ .answered code)
    (hafter : ∀ code, pc ≠ .answered code)
    (habsent : (call c).overwrite = false → pc.active = true → s.target = none)
    (hexclusive : pc.holds = true → ∀ c', c' ≠ c → (s.pc c').holds = false)
    (howns : Owns call (s.goto c pc) c) : Inv call initial (s.goto c pc) := by
  refine h.move hbefore hafter (goto_pc pc) rfl rfl (fun _ _ => rfl) habsent hexclusive ?_ h.part_ne h.used
  intro c'
  by_cases heq : c' = c
  · subst heq
    exact howns
  · exact (h.owns c').congr (by rw [goto_pc, if_neg heq]) fun _ => ⟨rfl, rfl⟩

section Answer
variable {code : Nat} {c' : C}

theorem answer_pc (code : Nat) (c' : C) :
    (s.answer c code).pc c' = if c' = c then .answered code else s.pc c' :=
  Function.update_apply ..

theorem answer_holds (h : ((s.answer c code).pc c').holds = true) : c' ≠ c ∧ (s.pc c').holds = true := by
  rw [answer_pc] at h
  split at h
  · cases h
  · rename_i hne
    exact ⟨hne, h⟩

theorem answer_active (h : ((s.answer c code).pc c').active = true) : c' ≠ c ∧ (s.pc c').active = true := by
  rw [answer_pc] at h
  split at h
  · cases h
  · rename_i hne
    exact ⟨hne, h⟩

theorem Inv.answer_once (h : Inv call initial s) (hbefore : ∀ code, s.pc c ≠ .answered code) :
    ((s.answer c code).log.map Prod.fst).Nodup := by
  rw [show (s.answer c code).log = s.log ++ [(c, code)] from rfl, List.map_append]
  refine List.nodup_append.2 ⟨h.once, by simp, ?_⟩
  intro c₁ h₁ c₂ h₂ heq
  obtain ⟨⟨c', code'⟩, hmem, rfl⟩ := List.mem_map.1 h₁
  obtain rfl : c₂ = c := by simpa using h₂
  exact not_mem_log h hbefore code' (by rw [← heq]; exact hmem)

theorem Inv.answer_answered (h : Inv call initial s) (hbefore : ∀ code, s.pc c ≠ .answered code)
    (c' : C) (code' : Nat) :
    (s.answer c code).pc c' = .answered code' ↔ (c', code') ∈ (s.answer c code).log := by
  rw [answer_pc, show (s.answer c code).log = s.log ++ [(c, code)] from rfl, List.mem_append,
    List.mem_singleton, Prod.mk.injEq]
  by_cases heq : c' = c
  · subst heq
    simp only [if_true, UploadPc.answered.injEq, not_mem_log h hbefore, false_or, true_and, eq_comm]
  · rw [if_neg heq, h.answered]
    simp [heq]

theorem Inv.answer (h : Inv call initial s) (hbefore : ∀ code, s.pc c ≠ .answered code)
    (hcode : (call c).answers s.targetContent code = some s.targetContent) :
    Inv call initial (s.answer c code) where
  order := by
    rw [show (s.answer c code).log = s.log ++ [(c, code)] from rfl, replay_concat, h.order]
    exact hcode
  once := h.answer_once hbefore
  answered := h.answer_answered hbefore
  absent c' hno hactive := h.absent c' hno (answer_active hactive).2
  exclusive c₁ c₂ h₁ h₂ := h.exclusive c₁ c₂ (answer_holds h₁).2 (answer_holds h₂).2
  owns c' := by
    by_cases heq : c' = c
    · exact .of_holds_false (by rw [answer_pc, if_pos heq]; rfl)
    · exact (h.owns c').congr (by rw [answer_pc, if_neg heq]) fun _ => ⟨rfl, rfl⟩
  part_ne := h.part_ne
  used := h.used

theorem Inv.free_of_answer (h : Inv call initial s) (hholds : (s.pc c).holds = true) (code : Nat) (c' : C) :
    ((s.answer c code).pc c').holds = false := by
  rw [answer_pc]
  split
  · rfl
  · rename_i hne
    exact h.others hholds c' hne

end Answer

/-- The open is calm, so the file that it truncates belongs to no other call. -/
theorem Inv.openPart (h : Inv call initial s) (hpc : s.pc c = .checked)
    (hfree : ∀ c', c' ≠ c → (s.pc c').holds = false) : Inv call initial (s.openPart c) := by
  have hnew : s.target ≠ some (s.part.getD s.next) := by
    cases hpart : s.part with
    | some i => exact h.part_ne i hpart
    | none =>
      intro heq
      exact absurd (h.used _ (.inr heq)) (Nat.lt_irrefl _)
  refine h.move (by simp [hpc]) (by simp) (goto_pc _) rfl rfl ?_ ?_ (fun _ => hfree) ?_ ?_ ?_
  · intro i hi
    refine Function.update_of_ne ?_ ..
    rintro rfl
    exact hnew hi
  · intro hno _
    exact h.absent c hno (by rw [hpc]; rfl)
  · intro c'
    by_cases heq : c' = c
    · subst heq
      unfold Owns
      rw [show (s.openPart c').pc c' = .writing (s.part.getD s.next) 0 from Function.update_self ..]
      exact ⟨rfl, (Function.update_self ..).trans List.take_zero.symm⟩
    · refine .of_holds_false ?_
      rw [show (s.openPart c).pc c' = s.pc c' from Function.update_of_ne heq ..]
      exact hfree c' heq
  · intro i hi
    rw [← Option.some.inj hi]
    exact hnew
  · rintro i (hi | hi)
    · rw [← Option.some.inj hi]
      exact Nat.lt_of_lt_of_le (Nat.lt_succ_self _) (Nat.le_max_right _ _)
    · exact Nat.lt_of_lt_of_le (h.used i (.inr hi)) (Nat.le_max_left _ _)

theorem Inv.write (h : Inv call initial s) {inode written size : Nat} (hpc : s.pc c = .writing inode written)
    (hsize : written + size ≤ (call c).body.length) :
    Inv call initial (s.write c (call c) inode written size) := by
  have hholds : (s.pc c).holds = true := by rw [hpc]; rfl
  obtain ⟨hpart, hcontent⟩ : s.part = some inode ∧ s.content inode = (call c).body.take written := by
    have howns := h.owns c
    unfold Owns at howns
    rw [hpc] at howns
    exact howns
  refine h.move (by simp [hpc]) (by simp) (goto_pc _) rfl rfl ?_ ?_ (fun _ => h.others hholds) ?_ h.part_ne h.used
  · intro i hi
    refine Function.update_of_ne ?_ ..
    rintro rfl
    exact h.part_ne i hpart hi
  · intro hno _
    exact h.absent c hno (by rw [hpc]; rfl)
  · intro c'
    by_cases heq : c' = c
    · subst heq
      unfold Owns
      rw [show (s.write c' (call c') inode written size).pc c' = .writing inode (written + size) from
        Function.update_self ..]
      refine ⟨hpart, (Function.update_self ..).trans ?_⟩
      rw [hcontent]
      exact writeAt_take hsize
    · refine .of_holds_false ?_
      rw [show (s.write c (call c) inode written size).pc c' = s.pc c' from Function.update_of_ne heq ..]
      exact h.others hholds c' heq

/-- The rename is calm, so every call without `overwrite` that goes on has finished its check later. -/
theorem Inv.rename (h : Inv call initial s) {inode : Nat} (hpc : s.pc c = .written) (hpart : s.part = some inode)
    (hcalm : ∀ c', c' ≠ c → (call c').overwrite = false → (s.pc c').active = false) :
    Inv call initial (s.rename c inode) := by
  have hholds : (s.pc c).holds = true := by rw [hpc]; rfl
  have hbefore : ∀ code, s.pc c ≠ .answered code := by simp [hpc]
  have hcontent : s.content inode = (call c).body := by
    have howns := h.owns c
    unfold Owns at howns
    rw [hpc] at howns
    obtain ⟨i, hi, hbody⟩ := howns
    obtain rfl : inode = i := Option.some.inj (hpart.symm.trans hi)
    exact hbody
  have hanswers : (call c).answers s.targetContent 201 = some (some (call c).body) := by
    unfold UploadCall.answers
    rw [if_neg, if_pos rfl]
    simp only [Bool.and_eq_true, Bool.not_eq_true', not_and, Bool.not_eq_false]
    intro hsome
    by_contra hno
    rw [Bool.not_eq_true] at hno
    have hnone := h.absent c hno (by rw [hpc]; rfl)
    simp [targetContent, hnone] at hsome
  exact
    { order := by
        rw [show (s.rename c inode).log = s.log ++ [(c, 201)] from rfl, replay_concat, h.order]
        refine hanswers.trans ?_
        rw [← hcontent]
        rfl
      once := h.answer_once hbefore
      answered := h.answer_answered hbefore
      absent := fun c' hno hactive => by
        obtain ⟨hne, hactive'⟩ := answer_active hactive
        rw [hcalm c' hne hno] at hactive'
        cases hactive'
      exclusive := fun c₁ c₂ h₁ h₂ => h.exclusive c₁ c₂ (answer_holds h₁).2 (answer_holds h₂).2
      owns := fun c' => .of_holds_false (h.free_of_answer hholds 201 c')
      part_ne := fun _ hi => by cases hi
      used := fun i hi => by
        rcases hi with hi | hi
        · cases hi
        · rw [← Option.some.inj hi]
          exact h.used inode (.inl hpart) }

theorem Inv.step (h : Inv call initial s) {action : UploadAction} (hstep : Step call s c action s')
    (hcalm : Calm call s c action) : Inv call initial s' := by
  cases hstep with
  | conflict hpc hsome hno =>
    refine h.answer (by simp [hpc]) ?_
    have hsome' : s.targetContent.isSome = true := by
      rw [targetContent, Option.isSome_map]
      exact hsome
    simp [UploadCall.answers, hsome', hno]
  | check hpc hpass =>
    refine h.goto (by simp [hpc]) (by simp) ?_ (by simp [UploadPc.holds])
      (.of_holds_false (by rw [goto_pc, if_pos rfl]; rfl))
    intro hno _
    exact hpass.resolve_right (by simp [hno])
  | directoryFails hpc => exact h.answer (by simp [hpc]) (h.answers_500 (by rw [hpc]; rfl))
  | openFails hpc => exact h.answer (by simp [hpc]) (h.answers_500 (by rw [hpc]; rfl))
  | openPart hpc => exact h.openPart hpc hcalm
  | write hpc hsize => exact h.write hpc hsize
  | writeFails hpc =>
    have hholds : (s.pc c).holds = true := by rw [hpc]; rfl
    refine h.goto (by simp [hpc]) (by simp) (fun hno _ => h.absent c hno (by rw [hpc]; rfl))
      (fun _ => h.others hholds) ?_
    unfold Owns
    rw [goto_pc, if_pos rfl]
    trivial
  | close =>
    obtain ⟨inode, hpc⟩ := hcalm
    have hholds : (s.pc c).holds = true := by rw [hpc]; rfl
    refine h.goto (by simp [hpc]) (by simp) (fun hno _ => h.absent c hno (by rw [hpc]; rfl))
      (fun _ => h.others hholds) ?_
    have howns := h.owns c
    unfold Owns at howns ⊢
    rw [hpc] at howns
    rw [goto_pc, if_pos rfl]
    exact ⟨_, howns.1, howns.2.trans List.take_length⟩
  | rename hpc hpart => exact h.rename hpc hpart hcalm
  | renameFails hpc =>
    have hholds : (s.pc c).holds = true := by rw [hpc]; rfl
    refine h.goto (by simp [hpc]) (by simp) (fun hno _ => h.absent c hno (by rw [hpc]; rfl))
      (fun _ => h.others hholds) ?_
    unfold Owns
    rw [goto_pc, if_pos rfl]
    trivial
  | remove hpc =>
    have hholds : (s.pc c).holds = true := by rw [hpc]; rfl
    exact (h.answer (by simp [hpc]) (h.answers_500 (by rw [hpc]; rfl))).dropPart (h.free_of_answer hholds 500)
  | removeFails hpc => exact h.answer (by simp [hpc]) (h.answers_500 (by rw [hpc]; rfl))

def twoCalls (c : Fin 2) : UploadCall := if c = 0 then ⟨[1, 2], true⟩ else ⟨[3], true⟩

def noFile : UploadState (Fin 2) := ⟨none, none, fun _ => [], 0, fun _ => .start, []⟩

theorem noFile_start : Start none noFile := ⟨rfl, nofun, by simp [noFile], fun _ => rfl, rfl⟩

/-- On a full disk nothing of the body gets past the buffer of the stream: a call that runs by itself is
answered 201 and leaves an empty file. -/
example : ∃ s, (system twoCalls none).Reachable s ∧ s.pc 0 = .answered 201 ∧ s.targetContent = some [] := by
  have h1 := Lts.System.Reachable.init (S := system twoCalls none) noFile_start
  have h2 := h1.step ⟨0, _, .check rfl (.inl rfl)⟩
  have h3 := h2.step ⟨0, _, .openPart rfl⟩
  have h4 := h3.step ⟨0, _, .close rfl⟩
  have h5 := h4.step ⟨0, _, .rename rfl rfl⟩
  exact ⟨_, h5, by decide, by decide⟩

end UploadState
end IdtxCore
