import IdtxCore.SessionNews

/-!
# Reloading a root layer that several sessions share

Sessions opened on one file share its root layer, so a reload by one of them sends a change notice to the
stages of all. The listener of the session that reloads takes the reload branch and leaves out the prims
that the session layer overrides. Which branch is taken is decided by a flag of the session itself, so the
listeners of the others take the normal branch, which looks at no override.
-/

namespace IdtxCore

namespace Session
variable {σ Path R : Type}

/-- Between `s` and `s'` no transform of `p` was sent and no change of `p` was recorded. -/
structure Suppressed (p : Path) (s s' : Session σ Path R) : Prop where
  sent : ∃ d, s'.sent = s.sent ++ d ∧ ∀ x ∈ d, ∀ v, x.frame.message ≠ .xformBroadcast p v
  log : ∃ l, s'.log = s.log ++ l ∧ ∀ v ∈ l, p ∉ v.prims.map Prod.fst
  versions : s'.versions.prims p = s.versions.prims p
  correction : ∀ c, s'.versions.correction c p = s.versions.correction c p

namespace Suppressed
variable {p : Path} {s s₁ s' : Session σ Path R}

theorem of_eq (hsent : s'.sent = s.sent) (hlog : s'.log = s.log) (hversions : s'.versions = s.versions) :
    Suppressed p s s' :=
  ⟨⟨[], by simp [hsent], List.forall_mem_nil _⟩, ⟨[], by simp [hlog], List.forall_mem_nil _⟩, by rw [hversions],
    by simp [hversions]⟩

theorem trans (h : Suppressed p s s₁) (h' : Suppressed p s₁ s') : Suppressed p s s' := by
  obtain ⟨d, hd, hframes⟩ := h.sent
  obtain ⟨d', hd', hframes'⟩ := h'.sent
  obtain ⟨l, hl, hprims⟩ := h.log
  obtain ⟨l', hl', hprims'⟩ := h'.log
  refine ⟨⟨d ++ d', by rw [hd', hd, List.append_assoc], ?_⟩,
    ⟨l ++ l', by rw [hl', hl, List.append_assoc], ?_⟩, h'.versions.trans h.versions,
    fun c => (h'.correction c).trans (h.correction c)⟩
  · exact List.forall_mem_append.2 ⟨hframes, hframes'⟩
  · exact List.forall_mem_append.2 ⟨hprims, hprims'⟩

theorem threshold [LinearOrder Path] (h : Suppressed p s s') (c : ConnectionId) :
    s'.threshold c p = s.threshold c p := by
  unfold Session.threshold SessionVersions.latestForeign
  rw [h.versions, h.correction]

end Suppressed

variable [LinearOrder Path] {view : StageView σ Path R} {flags : NoticeFlags} {p : Path}
  {s s' : Session σ Path R}

omit [LinearOrder Path] in
theorem prims_foldl_recordSent (receivers : List ConnectionId) (seq : Nat) (versions : SessionVersions Path) :
    (receivers.foldl (·.recordSent · seq) versions).prims = versions.prims := by
  induction receivers generalizing versions with
  | nil => rfl
  | cons c receivers ih => exact ih _

theorem prims_recordAnnounced {stage : σ} {clients : List ConnectionId} {w : ConnectionId} {seq : Nat}
    {prims : List Path} (hp : p ∉ prims) (versions : SessionVersions Path) :
    (prims.foldl (recordAnnounced view stage clients w seq) versions).prims p = versions.prims p := by
  induction prims generalizing versions with
  | nil => rfl
  | cons q prims ih =>
    have hq : p ≠ q := fun heq => hp (by simp [heq])
    rw [List.foldl_cons, ih fun hmem => hp (List.mem_cons_of_mem _ hmem), recordAnnounced]
    split_ifs
    · rw [prims_foldl_recordSent]
      exact Function.update_of_ne hq ..
    · exact Function.update_of_ne hq ..

theorem suppressed_announce (w : ConnectionId) {prims : List Path} (hp : p ∉ prims) :
    Suppressed p s (s.announce view w prims) := by
  rw [announce_eq]
  refine ⟨⟨_, rfl, ?_⟩, ⟨_, rfl, ?_⟩, prims_recordAnnounced hp _, fun c => correction_recordAnnounced _ _⟩
  · intro x hx v hv
    obtain ⟨-, hm, -⟩ := Version.mem_sends.1 hx
    rw [messages_noticeVersion, hv] at hm
    obtain ⟨q, hq, hread⟩ := List.mem_filterMap.1 hm
    obtain ⟨t, -, heq⟩ := Option.map_eq_some_iff.1 hread
    rw [(Message.xformBroadcast.inj heq).1] at hq
    exact hp hq
  · intro v hv
    rw [List.mem_singleton.1 hv]
    simpa [noticeVersion] using hp

def announced (view : StageView σ Path R) (flags : NoticeFlags) (notices : List (σ × ObjectsChanged Path)) :
    List Path :=
  notices.flatMap fun n => noticePrims view flags n.1 n.2

theorem suppressed_onObjectsChanged {notice : ObjectsChanged Path}
    (hp : p ∉ noticePrims view flags s.stage notice) :
    Suppressed p s (onObjectsChanged view flags s notice) := by
  rcases onObjectsChanged_cases view flags s notice with ⟨heq, -⟩ | heq
  · rw [heq]
    exact .of_eq rfl rfl rfl
  · rw [heq]
    exact suppressed_announce _ hp

variable (view flags) in
theorem log_onObjectsChanged (s : Session σ Path R) (notice : ObjectsChanged Path) :
    ∃ l, (onObjectsChanged view flags s notice).log = s.log ++ l ∧
      ∀ p ∈ noticePrims view flags s.stage notice, ∃ v ∈ l, p ∈ v.prims.map Prod.fst := by
  rcases onObjectsChanged_cases view flags s notice with ⟨heq, hnil⟩ | heq
  · exact ⟨[], by rw [heq, List.append_nil], by simp [hnil]⟩
  · refine ⟨[s.noticeVersion view (noticeWriter flags) (noticePrims view flags s.stage notice)], ?_, ?_⟩
    · rw [heq, announce_eq]
    · intro p hp
      exact ⟨_, List.mem_singleton_self _, by simpa [noticeVersion] using hp⟩

variable (view flags) in
theorem log_deliver (s : Session σ Path R) (notices : List (σ × ObjectsChanged Path)) :
    ∃ l, (s.deliver view flags notices).log = s.log ++ l ∧
      ∀ p ∈ announced view flags notices, ∃ v ∈ l, p ∈ v.prims.map Prod.fst := by
  induction notices generalizing s with
  | nil => exact ⟨[], (List.append_nil _).symm, nofun⟩
  | cons n notices ih =>
    obtain ⟨l, hl, hprims⟩ := log_onObjectsChanged view flags { s with stage := n.1 } n.2
    obtain ⟨l', hl', hprims'⟩ := ih (onObjectsChanged view flags { s with stage := n.1 } n.2)
    refine ⟨l ++ l', ?_, ?_⟩
    · rw [← List.append_assoc, ← hl]
      exact hl'
    · intro p hp
      rcases List.mem_append.1 hp with hp | hp
      · obtain ⟨v, hv, hmem⟩ := hprims p hp
        exact ⟨v, List.mem_append_left _ hv, hmem⟩
      · obtain ⟨v, hv, hmem⟩ := hprims' p hp
        exact ⟨v, List.mem_append_right _ hv, hmem⟩

theorem suppressed_author_iff {α : Type} {call : Call σ Path α} :
    Suppressed p s (s.author view flags call) ↔ p ∉ announced view flags call.notices := by
  constructor
  · intro h hp
    obtain ⟨l, hl, hprims⟩ := log_deliver view flags s call.notices
    obtain ⟨l', hl', hnot⟩ := h.log
    obtain rfl : l = l' := List.append_cancel_left (hl.symm.trans hl')
    obtain ⟨v, hv, hmem⟩ := hprims p hp
    exact hnot v hv hmem
  · intro hp
    refine author_induction (motive := Suppressed p s) ?_ ?_ (.of_eq rfl rfl rfl)
    · intro s' stage hs
      exact hs.trans (.of_eq rfl rfl rfl)
    · intro n hn s' hstage hs
      refine hs.trans (suppressed_onObjectsChanged ?_)
      rw [hstage]
      exact fun hmem => hp (List.mem_flatMap.2 ⟨n, hn, hmem⟩)

end Session

/-- A session on the file at the moment its root layer is reloaded, and what the reload does to its stage. -/
structure Sharer {σ Path R : Type} (view : StageView σ Path R) where
  session : Session σ Path R
  flags : NoticeFlags
  call : Call σ Path Bool
  has_stage : view.isNull session.stage = false
  /-- reloads run one at a time, under `m_shared_layer_mutex_` -/
  not_reloading : flags.reloadInProgress = false
  /-- a reload of the root layer leaves the session layer alone -/
  layer_kept : ∀ n ∈ call.notices, ∀ p,
    view.hasXformOverride n.1 p = view.hasXformOverride session.stage p

namespace Sharer
variable {σ Path R ι : Type} [LinearOrder Path] {view : StageView σ Path R}

open Session

def overrides (x : Sharer view) (p : Path) : Prop := view.hasXformOverride x.session.stage p = true

instance (x : Sharer view) (p : Path) : Decidable (x.overrides p) :=
  inferInstanceAs (Decidable (view.hasXformOverride x.session.stage p = true))

/-- `ReloadRootLayer`, of a `ReloadCommand` or at the end of a commit, by the session itself. -/
def reloads (x : Sharer view) : Session σ Path R := x.session.reloadRootLayer view x.call

/-- The same reload, done by another session: only the notices reach this one. -/
def notified (x : Sharer view) : Session σ Path R := x.session.author view x.flags x.call

def afterReload [DecidableEq ι] (parties : ι → Sharer view) (i j : ι) : Session σ Path R :=
  if j = i then (parties j).reloads else (parties j).notified

def Unaffected (x : Sharer view) : Prop :=
  x.flags.createInProgress = true ∨ x.flags.setActiveInProgress = true ∨
    ∀ n ∈ x.call.notices, ∀ p ∈ affectedPrims n.2, ¬ x.overrides p

def Masks (x : Sharer view) (s' : Session σ Path R) : Prop :=
  ∀ p, x.overrides p → Suppressed p x.session s' ∧ ∀ c, s'.threshold c p = x.session.threshold c p

theorem masks_iff {x : Sharer view} {s' : Session σ Path R} :
    x.Masks s' ↔ ∀ p, x.overrides p → Suppressed p x.session s' :=
  forall₂_congr fun _ _ => ⟨fun h => h.1, fun h => ⟨h, h.threshold⟩⟩

theorem mem_announced {flags : NoticeFlags} {notices : List (σ × ObjectsChanged Path)} {p : Path} :
    p ∈ announced view flags notices ↔ ∃ n ∈ notices, p ∈ noticePrims view flags n.1 n.2 :=
  List.mem_flatMap

theorem masks_reloads (x : Sharer view) : x.Masks x.reloads := by
  rw [masks_iff]
  intro p hp
  rw [reloads, reloadRootLayer, if_neg (by simp [x.has_stage]), suppressed_author_iff, mem_announced]
  rintro ⟨n, hn, hmem⟩
  have hprims : p ∈ reloadPrims n.2 ∧ view.hasXformOverride n.1 p = false := by
    simpa [noticePrims] using hmem
  have hkept := hprims.2
  rw [x.layer_kept n hn p, hp] at hkept
  cases hkept

theorem masks_notified_iff (x : Sharer view) : x.Masks x.notified ↔ x.Unaffected := by
  rw [masks_iff]
  constructor
  · intro h
    by_cases hcreate : x.flags.createInProgress = true
    · exact .inl hcreate
    by_cases hactive : x.flags.setActiveInProgress = true
    · exact .inr (.inl hactive)
    refine .inr (.inr fun n hn p hp hover => ?_)
    refine suppressed_author_iff.1 (h p hover) (mem_announced.2 ⟨n, hn, ?_⟩)
    simpa [noticePrims, hcreate, hactive, x.not_reloading] using hp
  · intro h p hover
    refine suppressed_author_iff.2 fun hmem => ?_
    obtain ⟨n, hn, hp⟩ := mem_announced.1 hmem
    rcases h with hcreate | hactive | hnone
    · simp [noticePrims, hcreate] at hp
    · simp [noticePrims, hactive] at hp
    · unfold noticePrims at hp
      split_ifs at hp with hquiet hreload
      · cases hp
      · rw [x.not_reloading] at hreload
        cases hreload
      · exact hnone n hn p hp hover

/-- The session that reloads always masks what it overrides. The others do so exactly as far as their own
listener has nothing to announce: they are not told that the notice is of a reload. -/
theorem masks_afterReload_iff [DecidableEq ι] (parties : ι → Sharer view) (i : ι) :
    (∀ j, (parties j).Masks (afterReload parties i j)) ↔ ∀ j ≠ i, (parties j).Unaffected := by
  constructor
  · intro h j hj
    have hmasks := h j
    rw [afterReload, if_neg hj] at hmasks
    exact (masks_notified_iff _).1 hmasks
  · intro h j
    unfold afterReload
    split_ifs with hj
    · exact masks_reloads _
    · exact (masks_notified_iff _).2 (h j hj)

/-! ### Two sessions on one file

Client 5 of the second session has moved prim 7. The first session reloads a file that gives prim 7 another
place. -/

def sharedFile : TwoLayerStage := { root := [(7, TwoLayerStage.shift 1)] }

def mover : Session TwoLayerStage Nat Int :=
  (Session.attachClient { stage := sharedFile } 5).handleTransform TwoLayerStage.view
    (sharedFile.apply 7 (some (TwoLayerStage.shift 2))) ⟨7, some (TwoLayerStage.shift 2), 5, 1, 0⟩

def reloadCall (stage : TwoLayerStage) : Call TwoLayerStage Nat Bool :=
  stage.reload [(7, TwoLayerStage.shift 3)]

def pair : Bool → Sharer TwoLayerStage.view
  | false =>
    { session := { stage := sharedFile }, flags := {}, call := reloadCall sharedFile, has_stage := rfl,
      not_reloading := rfl, layer_kept := fun n hn p => by rw [List.mem_singleton.1 hn]; rfl }
  | true =>
    { session := mover, flags := {}, call := reloadCall mover.stage, has_stage := rfl,
      not_reloading := rfl, layer_kept := fun n hn p => by rw [List.mem_singleton.1 hn]; rfl }

/-- The override of the second session hides the new place, yet the client is sent prim 7 once more and its
next update is stale. -/
theorem pair_not_masked :
    (pair true).overrides 7 ∧
      (afterReload pair false true).sent.drop mover.sent.length =
        [⟨5, ⟨.xformBroadcast 7 (TwoLayerStage.shift 2), 2⟩, .broadcast⟩] ∧
      mover.versions.checkUpdate 5 7 1 = .current ∧
      (afterReload pair false true).versions.checkUpdate 5 7 1 = .stale ∧
      ¬ ∀ j, (pair j).Masks (afterReload pair false j) := by
  refine ⟨by decide +kernel, by decide +kernel, by decide +kernel, by decide +kernel, fun h => ?_⟩
  have hthreshold := (h true 7 (by decide +kernel)).2 5
  revert hthreshold
  decide +kernel

end Sharer
end IdtxCore
