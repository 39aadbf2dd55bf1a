import IdtxCore.NoticeWindow

/-!
# Exceptions out of a handler

`ProcessCommand` logs whatever its handler throws and takes the next command. The handlers guard the calls that they
make with a flag set, but only against `std::exception`: an exception of another type passes over the stores that
clear the flag, and the listener reads it until a later handler happens to clear it.

`Escapes` is such an exception. `flags_clear_iff`: in a run, the flags are clear between the commands exactly if
nothing escapes from `Apply`, `Create`, `SetActive` or `Reload`.
-/

namespace IdtxCore

namespace Program
variable {σ Path R : Type}

/-- A call that is made with a flag set: `Apply` for the update of a client, `Create`, `SetActive`, `Reload`. -/
inductive Window (env : Session.Env σ Path R) : Program σ Path R → NoticeFlags → Prop where
  | apply {p : Path} {transform : Option (Transform R)} {next : Outcome Bool → Program σ Path R}
      {flags : NoticeFlags} : flags.currentOrigin ≠ 0 → Window env (.call (env.apply · p transform) next) flags
  | create {p : Path} {type : PrimType} {next : Outcome (Option (CreatedPrim Path R)) → Program σ Path R}
      {flags : NoticeFlags} : flags.createInProgress = true → Window env (.call (env.create · p type) next) flags
  | setActive {p : Path} {active : Bool} {next : Outcome PrimDispatcher.SetActiveStatus → Program σ Path R}
      {flags : NoticeFlags} :
      flags.setActiveInProgress = true → Window env (.call (env.setActive · p active) next) flags
  | reload {next : Outcome Bool → Program σ Path R} {flags : NoticeFlags} :
      flags.reloadInProgress = true → Window env (.call env.reload next) flags

theorem Window.flags_ne {env : Session.Env σ Path R} {program : Program σ Path R} {flags : NoticeFlags}
    (h : Window env program flags) : flags ≠ {} := by
  rintro rfl
  cases h with
  | apply hset => exact hset rfl
  | create hset | setActive hset | reload hset => cases hset

/-- Run from here, the program leaves the flags clear, and they are set at none of its steps but the stores and the
calls in `Window`. -/
def Clears (env : Session.Env σ Path R) : Program σ Path R → NoticeFlags → Prop
  | done, flags => flags = {}
  | store set next, flags => next.Clears env (set flags)
  | lock next, flags | unlock next, flags => next.Clears env flags
  | call possible next, flags =>
    (flags = {} ∨ Window env (call possible next) flags) ∧ ∀ outcome, (next outcome).Clears env flags
  | update _ next, flags => flags = {} ∧ next.Clears env flags
  | test next, flags => flags = {} ∧ ∀ s, (next s).Clears env flags

variable {env : Session.Env σ Path R}

theorem clears_ack (c : ConnectionId) (r : Nat) (e : Option AckError) : (ack c r e).Clears env {} := ⟨rfl, rfl⟩

theorem clears_reloadRootLayer {next : Program σ Path R} (h : next.Clears env {}) :
    (reloadRootLayer env next).Clears env {} := by
  refine ⟨rfl, fun s => ?_⟩
  dsimp only
  split_ifs
  · exact h
  · exact ⟨.inr (.reload rfl), fun _ => h⟩

theorem clears_commit : (commit env).Clears env {} := by
  refine ⟨rfl, fun s => ?_⟩
  dsimp only
  split_ifs
  · exact rfl
  · exact rfl
  · refine ⟨.inl rfl, fun outcome => ?_⟩
    dsimp only
    split
    · exact ⟨rfl, clears_reloadRootLayer rfl⟩
    · exact rfl

variable [LinearOrder Path]

theorem clears_transform (command : TransformCommand Path R) : (transform env command).Clears env {} := by
  refine ⟨rfl, fun s => ?_⟩
  dsimp only
  split
  · exact clears_ack ..
  · exact clears_ack ..
  · refine ⟨?_, fun outcome => ?_⟩
    · by_cases horigin : command.origin = 0
      · exact .inl (by rw [horigin])
      · exact .inr (.apply horigin)
    · dsimp only
      split
      · exact ⟨rfl, clears_ack ..⟩
      · exact ⟨rfl, rfl, rfl⟩

theorem clears_createPrim (command : CreatePrimCommand Path) : (createPrim env command).Clears env {} := by
  refine ⟨rfl, fun s => ?_⟩
  dsimp only
  split_ifs
  · exact clears_ack ..
  · refine ⟨.inr (.create rfl), fun outcome => ?_⟩
    dsimp only
    split
    · exact ⟨rfl, rfl, rfl⟩
    · exact ⟨rfl, rfl⟩

theorem clears_setPrimActive (command : SetPrimActiveCommand Path) : (setPrimActive env command).Clears env {} := by
  refine ⟨rfl, fun s => ?_⟩
  dsimp only
  split_ifs
  · exact clears_ack ..
  · refine ⟨.inr (.setActive rfl), fun outcome => ?_⟩
    dsimp only
    split
    all_goals first
      | exact ⟨rfl, rfl⟩
      | exact ⟨rfl, rfl, rfl⟩

theorem clears_handle (save : Outcome Bool) (command : SessionCommand Path R) :
    (handle env save command).Clears env {} := by
  cases command with
  | transform command => exact clears_transform command
  | join | flush | correction => exact ⟨rfl, rfl⟩
  | createPrim command => exact clears_createPrim command
  | setPrimActive command => exact clears_setPrimActive command
  | commit => exact clears_commit
  | reload => exact clears_reloadRootLayer rfl

end Program

namespace Work
variable {σ Path R : Type} [LinearOrder Path]

/-- The consumer throws out of its handler, and `ProcessCommand` returns. The mutex is free again, since a guard
holds it, and the flags are as they were. -/
inductive Escapes (env : Session.Env σ Path R) (a : Work σ Path R) : Work σ Path R → Prop where
  /-- out of a call that throws something else than a `std::exception` -/
  | call {α : Type} {possible : σ → Call σ Path α → Prop} {next : Outcome α → Program σ Path R}
      (call : Call σ Path Empty) : a.program = .call possible next →
      Escapes env a
        { session := a.session.author env.view a.flags call, flags := a.flags, locked := false, program := .done }
  /-- out of the handler's own work, with any part of it done -/
  | update {f : Session σ Path R → Session σ Path R} {next : Program σ Path R} (s : Session σ Path R) :
      a.program = .update f next →
      Escapes env a { session := s, flags := a.flags, locked := false, program := .done }
  | test {next : Session σ Path R → Program σ Path R} : a.program = .test next →
      Escapes env a { session := a.session, flags := a.flags, locked := false, program := .done }

/-- The session with its consumer, whose handlers may throw anything. -/
def processing (env : Session.Env σ Path R) : Lts.System (Work σ Path R) where
  init := (system env).init
  step a a' := Step env a a' ∨ Escapes env a a'

variable {env : Session.Env σ Path R} {a a' : Work σ Path R}

theorem Escapes.flags_eq (h : Escapes env a a') : a'.flags = a.flags := by
  cases h with
  | call | update | test => rfl

theorem Escapes.done (h : Escapes env a a') : a'.program = .done := by
  cases h with
  | call | update | test => rfl

theorem Escapes.flags_clear (hclears : a.program.Clears env a.flags) (h : Escapes env a a')
    (hwindow : ¬a.program.Window env a.flags) : a'.flags = {} := by
  rw [h.flags_eq]
  cases h with
  | call _ heq =>
    rw [heq] at hclears hwindow
    exact hclears.1.resolve_right hwindow
  | update _ heq | test heq =>
    rw [heq] at hclears
    exact hclears.1

theorem clears_runs (hclears : a.program.Clears env a.flags) (h : Runs env a a') : a'.program.Clears env a'.flags := by
  cases h with
  | store heq | lock heq | unlock heq =>
    rw [heq] at hclears
    exact hclears
  | call heq | update heq | test heq =>
    rw [heq] at hclears
    first
      | exact hclears.2
      | exact hclears.2 _

theorem clears_step (hclears : a.program.Clears env a.flags) (h : Step env a a') : a'.program.Clears env a'.flags := by
  cases h with
  | take command save hdone =>
    rw [hdone] at hclears
    have hflags : a.flags = {} := hclears
    dsimp only
    rw [hflags]
    exact Program.clears_handle save command
  | run h => exact clears_runs hclears h
  | attach | detach | reload => exact hclears

/-- Whatever the commands, the calls and the other sessions do: the flags are clear whenever `ProcessCommand` has
returned exactly if no exception has escaped from a call that is made with a flag set. -/
theorem flags_clear_iff {states : List (Work σ Path R)} (hinit : (processing env).init a)
    (hrun : (a :: states).IsChain (processing env).step) :
    (∀ b ∈ a :: states, b.program = .done → b.flags = {}) ↔
      ∀ b b', [b, b'] <:+: a :: states → Escapes env b b' → ¬b.program.Window env b.flags := by
  have hclears : a.program.Clears env a.flags := by
    obtain ⟨stage, rfl⟩ := hinit
    exact rfl
  have hiff := Lts.System.forall_mem_iff_of_isChain (fun b => b.program.Clears env b.flags)
    (fun b => b.program = .done → b.flags = {}) (fun b b' => Escapes env b b' ∧ b.program.Window env b.flags)
    ?_ ?_ ?_ hclears hrun
  · simpa only [not_and] using hiff
  · intro b hb hdone
    rw [hdone] at hb
    exact hb
  · rintro b b' hb (hstep | hescapes) hgood
    · exact clears_step hb hstep
    · have hflags := hescapes.flags_clear hb fun hwindow => hgood ⟨hescapes, hwindow⟩
      rw [hescapes.done]
      exact hflags
  · rintro b b' - ⟨hescapes, hwindow⟩ hclear
    exact hwindow.flags_ne (hescapes.flags_eq.symm.trans (hclear hescapes.done))

theorem reachable_processing (h : (system env).Reachable a) : (processing env).Reachable a := by
  induction h with
  | init hinit => exact .init hinit
  | step _ hstep ih => exact ih.step (.inl hstep)

end Work

/-! ### A creation that throws -/

namespace Work
open TwoLayerStage

/-- Something escapes while client 5 is sent its snapshot. -/
theorem flags_clear_snapshot : ∃ a states, (processing env).init a ∧ (a :: states).IsChain (processing env).step ∧
    states.length = 3 ∧ ∀ b ∈ a :: states, b.program = .done → b.flags = {} := by
  let s : Session TwoLayerStage Nat Int := { stage := { root := [(7, shift 1)] } }
  have hrun : [{ session := s }, { session := s.attachClient 5 },
      { session := s.attachClient 5, program := .handle env .threw (.join 5) },
      { session := s.attachClient 5 }].IsChain (processing env).step := by
    refine .cons_cons (.inl (.attach 5 (by decide))) (.cons_cons (.inl (.take (.join 5) .threw rfl)) ?_)
    exact .cons_cons (.inr (.update (s.attachClient 5) rfl)) (.singleton _)
  refine ⟨_, _, ⟨_, rfl⟩, hrun, rfl, (flags_clear_iff ⟨_, rfl⟩ hrun).2 fun b b' hpair _ hwindow => ?_⟩
  refine hwindow.flags_ne ?_
  have hb := hpair.subset List.mem_cons_self
  simp only [List.mem_cons, List.not_mem_nil, or_false] at hb
  rcases hb with rfl | rfl | rfl | rfl
  all_goals rfl

/-- An exception of another type than `std::exception` escapes from the creation that client 5 asked for.
`ProcessCommand` has returned, and a reload that moves prim 7 is still dropped. -/
theorem create_leaves_flags : ∃ a : Work TwoLayerStage Nat Int, (processing env).Reachable a ∧ a.program = .done ∧
    a.flags = { currentOrigin := 5, createInProgress := true } ∧ a.locked = false ∧
    env.reload a.session.stage (moved a) ∧ Visible env a (moved a) 7 ∧
    (a.notify env (moved a)).session.sent = [] ∧ ¬Session.Relayed 7 a.session (a.notify env (moved a)).session := by
  have h := (reachable_processing reachable_client).step (.inl (.take (.createPrim ⟨7, .cube, 5, 1⟩) .threw rfl))
  replace h := h.step (.inl (.run (.test rfl)))
  replace h := h.step (.inl (.run (.store rfl)))
  replace h := h.step (.inl (.run (.store rfl)))
  replace h := h.step (.inr (.call ⟨[], { root := [(7, shift 1), (8, shift 0)] }, .threw⟩ rfl))
  refine ⟨_, h, rfl, rfl, rfl, ⟨_, rfl⟩, ⟨⟨_, List.mem_singleton_self _, by decide⟩, rfl⟩, by decide, ?_⟩
  exact Session.not_relayed (by decide)

end Work
end IdtxCore
