import IdtxCore.SharedReload

/-!
# Another session's reload in the middle of a command

A reload of the shared root layer reaches the listeners of the other sessions on the reloading session's thread,
between any two steps of what their own consumers are doing. `Program` is a handler step by step, with the stores
to the atomics that the listener reads; `Work` is a session's consumer at one of these steps. The reload holds
`m_shared_layer_mutex_`, so it comes at any point where the consumer does not.

The listener takes the reload for the consumer's own authoring. While a prim is created or its active flag set
the notice is dropped, and while an update is applied the change is recorded for the client that sent the update,
which is not told of it (`relayed_iff`).
-/

namespace IdtxCore

namespace Session
variable {σ Path R : Type}

/-- Nothing recorded lies in the future. -/
def Stamped (s : Session σ Path R) : Prop := ∀ p v, s.versions.prims p = some v → v.lastChangeSeq ≤ s.serverSeq

/-- From `s` to `s'`, every client was sent the transform of `p`, and a change of `p` was recorded with writer 0. -/
structure Relayed (p : Path) (s s' : Session σ Path R) : Prop where
  sent : ∃ d, s'.sent = s.sent ++ d ∧
    ∀ c ∈ s.clients, ∃ x ∈ d, x.connection = c ∧ ∃ v, x.frame.message = .xformBroadcast p v
  recorded : ∃ v, s'.versions.prims p = some v ∧ v.lastWriter = 0 ∧ s.serverSeq < v.lastChangeSeq

theorem not_relayed {p : Path} {s s' : Session σ Path R} (h : (s'.versions.prims p).all (·.lastWriter ≠ 0) = true) :
    ¬Relayed p s s' := by
  rintro ⟨-, v, hv, hw, -⟩
  simp [hv, hw] at h

/-! ### What the listener makes of notices outside the windows -/

/-- From `s` to `s'`, changes by `w` were told: of `p` if it was `named`, with a frame if it was `readable`. -/
structure Told (w : ConnectionId) (p : Path) (named readable : Prop) (s s' : Session σ Path R) : Prop where
  clients : s'.clients = s.clients
  seq_le : s.serverSeq ≤ s'.serverSeq
  recorded : named → ∃ v, s'.versions.prims p = some v ∧ v.lastWriter = w ∧ s.serverSeq < v.lastChangeSeq ∧
    v.lastChangeSeq ≤ s'.serverSeq
  unrecorded : ¬named → s'.versions.prims p = s.versions.prims p
  sent : ∃ d, s'.sent = s.sent ++ d ∧
    ∀ c, (∃ x ∈ d, x.connection = c ∧ ∃ v, x.frame.message = .xformBroadcast p v) ↔
      c ∈ s.clients ∧ c ≠ w ∧ readable

namespace Told
variable {w : ConnectionId} {p : Path} {named named' readable readable' : Prop} {s s₁ s' : Session σ Path R}

theorem of_eq (hclients : s'.clients = s.clients) (hseq : s'.serverSeq = s.serverSeq)
    (hversions : s'.versions = s.versions) (hsent : s'.sent = s.sent) : Told w p False False s s' :=
  ⟨hclients, hseq.ge, False.elim, fun _ => by rw [hversions], [], by simp [hsent], by simp⟩

theorem trans (h : Told w p named readable s s₁) (h' : Told w p named' readable' s₁ s') :
    Told w p (named ∨ named') (readable ∨ readable') s s' := by
  refine ⟨h'.clients.trans h.clients, h.seq_le.trans h'.seq_le, fun hnamed => ?_, fun hnamed => ?_, ?_⟩
  · by_cases hlater : named'
    · obtain ⟨v, hv, hw, hlt, hle⟩ := h'.recorded hlater
      exact ⟨v, hv, hw, h.seq_le.trans_lt hlt, hle⟩
    · obtain ⟨v, hv, hw, hlt, hle⟩ := h.recorded (hnamed.resolve_right hlater)
      exact ⟨v, (h'.unrecorded hlater).trans hv, hw, hlt, hle.trans h'.seq_le⟩
  · obtain ⟨hfirst, hlater⟩ := not_or.1 hnamed
    exact (h'.unrecorded hlater).trans (h.unrecorded hfirst)
  · obtain ⟨d, hd, hframes⟩ := h.sent
    obtain ⟨d', hd', hframes'⟩ := h'.sent
    refine ⟨d ++ d', by rw [hd', hd, List.append_assoc], fun c => ?_⟩
    have hsplit : (∃ x ∈ d ++ d', x.connection = c ∧ ∃ v, x.frame.message = .xformBroadcast p v) ↔
        (∃ x ∈ d, x.connection = c ∧ ∃ v, x.frame.message = .xformBroadcast p v) ∨
          ∃ x ∈ d', x.connection = c ∧ ∃ v, x.frame.message = .xformBroadcast p v := by
      simp only [List.mem_append, or_and_right, exists_or]
    rw [hsplit, hframes c, hframes' c, h.clients]
    tauto

theorem congr (h : Told w p named readable s s') (hnamed : named ↔ named') (hreadable : readable ↔ readable') :
    Told w p named' readable' s s' := by
  rwa [hnamed, hreadable] at h

end Told

variable [LinearOrder Path] {view : StageView σ Path R} {flags : NoticeFlags} {w : ConnectionId} {p : Path}
  {s : Session σ Path R}

theorem recordChange_self (versions : SessionVersions Path) (seq : Nat) :
    ∃ v, (versions.recordChange p seq w).prims p = some v ∧ v.lastWriter = w ∧ v.lastChangeSeq = seq := by
  refine ⟨_, Function.update_self .., ?_, rfl⟩
  dsimp only
  split_ifs with hrun
  · rfl
  · exact not_not.1 fun hne => hrun (.inr hne)

theorem recordAnnounced_self {stage : σ} {clients : List ConnectionId} {seq : Nat} (versions : SessionVersions Path) :
    ∃ v, (recordAnnounced view stage clients w seq versions p).prims p = some v ∧ v.lastWriter = w ∧
      v.lastChangeSeq = seq := by
  unfold recordAnnounced
  split_ifs
  · rw [prims_foldl_recordSent]
    exact recordChange_self versions seq
  · exact recordChange_self versions seq

theorem recordAnnounced_mem {stage : σ} {clients : List ConnectionId} {seq : Nat} {prims : List Path} (hp : p ∈ prims)
    (versions : SessionVersions Path) :
    ∃ v, (prims.foldl (recordAnnounced view stage clients w seq) versions).prims p = some v ∧ v.lastWriter = w ∧
      v.lastChangeSeq = seq := by
  induction prims generalizing versions with
  | nil => cases hp
  | cons q prims ih =>
    rw [List.foldl_cons]
    by_cases hlater : p ∈ prims
    · exact ih hlater _
    · obtain rfl := (List.mem_cons.1 hp).resolve_right hlater
      rw [prims_recordAnnounced hlater]
      exact recordAnnounced_self versions

theorem told_announce (w : ConnectionId) (p : Path) (prims : List Path) (s : Session σ Path R) :
    Told w p (p ∈ prims) (p ∈ prims ∧ (view.readResolvedTransform s.stage p).isSome = true) s
      (s.announce view w prims) := by
  rw [announce_eq]
  refine ⟨rfl, Nat.le_succ _, fun hp => ?_, fun hp => prims_recordAnnounced hp _, _, rfl, fun c => ?_⟩
  · obtain ⟨v, hv, hw, hseq⟩ := recordAnnounced_mem hp s.versions
    exact ⟨v, hv, hw, hseq ▸ Nat.lt_succ_self _, hseq.le⟩
  · constructor
    · rintro ⟨x, hx, rfl, v, hv⟩
      obtain ⟨hc, hm, -⟩ := Version.mem_sends.1 hx
      have hreceivers : x.connection ∈ s.clients ∧ x.connection ≠ w := by
        simpa [Version.receivers, noticeVersion] using hc
      rw [messages_noticeVersion, hv] at hm
      obtain ⟨q, hq, hread⟩ := List.mem_filterMap.1 hm
      obtain ⟨t, ht, heq⟩ := Option.map_eq_some_iff.1 hread
      obtain ⟨rfl, -⟩ := Message.xformBroadcast.inj heq
      exact ⟨hreceivers.1, hreceivers.2, hq, by rw [ht]; rfl⟩
    · rintro ⟨hc, hne, hp, hread⟩
      obtain ⟨t, ht⟩ := Option.isSome_iff_exists.1 hread
      refine ⟨⟨c, ⟨.xformBroadcast p t, s.serverSeq + 1⟩, .broadcast⟩, Version.mem_sends.2 ⟨?_, ?_, rfl, rfl⟩, rfl, t, rfl⟩
      · simpa [Version.receivers, noticeVersion] using ⟨hc, hne⟩
      · rw [messages_noticeVersion]
        exact List.mem_filterMap.2 ⟨p, hp, by rw [ht]; rfl⟩

theorem told_deliver (hcreate : flags.createInProgress = false) (hactive : flags.setActiveInProgress = false)
    (hreload : flags.reloadInProgress = false) (p : Path) (notices : List (σ × ObjectsChanged Path))
    (s : Session σ Path R) :
    Told flags.currentOrigin p (∃ n ∈ notices, p ∈ affectedPrims n.2)
      (∃ n ∈ notices, p ∈ affectedPrims n.2 ∧ (view.readResolvedTransform n.1 p).isSome = true) s
      (s.deliver view flags notices) := by
  induction notices generalizing s with
  | nil => exact (Told.of_eq rfl rfl rfl rfl).congr (by simp) (by simp)
  | cons n notices ih =>
    have hstage : Told flags.currentOrigin p False False s { s with stage := n.1 } := .of_eq rfl rfl rfl rfl
    have hnotice : Told flags.currentOrigin p (p ∈ affectedPrims n.2)
        (p ∈ affectedPrims n.2 ∧ (view.readResolvedTransform n.1 p).isSome = true) { s with stage := n.1 }
        (onObjectsChanged view flags { s with stage := n.1 } n.2) := by
      unfold onObjectsChanged
      rw [hcreate, hactive, hreload]
      simp only [Bool.false_eq_true, if_false]
      split_ifs with hnil
      · exact (Told.of_eq rfl rfl rfl rfl).congr (by simp [hnil]) (by simp [hnil])
      · exact told_announce flags.currentOrigin p (affectedPrims n.2) { s with stage := n.1 }
    exact ((hstage.trans hnotice).trans (ih _)).congr (by simp) (by simp)

theorem versions_author_of_window {α : Type} {call : Call σ Path α}
    (hwindow : ¬(flags.createInProgress = false ∧ flags.setActiveInProgress = false)) :
    (s.author view flags call).versions = s.versions := by
  refine author_induction (motive := fun s' => s'.versions = s.versions) (fun _ _ h => h) ?_ rfl
  intro n _ s' _ h
  unfold onObjectsChanged
  split_ifs with hcreate hactive hreload
  · exact h
  · exact h
  all_goals exact absurd ⟨Bool.eq_false_iff.2 hcreate, Bool.eq_false_iff.2 hactive⟩ hwindow

/-- Whether a reload by another session is relayed: no window is open, and the notice names the transform. -/
theorem relayed_author_iff {α : Type} {call : Call σ Path α} (hstamped : s.Stamped) (hclients : 0 ∉ s.clients)
    (hreload : flags.reloadInProgress = false) : Relayed p s (s.author view flags call) ↔
      (flags.createInProgress = false ∧ flags.setActiveInProgress = false ∧ flags.currentOrigin = 0) ∧
        ∃ n ∈ call.notices, p ∈ affectedPrims n.2 ∧
          (s.clients = [] ∨ (view.readResolvedTransform n.1 p).isSome = true) := by
  by_cases hwindow : flags.createInProgress = false ∧ flags.setActiveInProgress = false
  · obtain ⟨hcreate, hactive⟩ := hwindow
    have htold : Told flags.currentOrigin p _ _ s (s.author view flags call) :=
      (told_deliver hcreate hactive hreload p call.notices s).trans (.of_eq rfl rfl rfl rfl)
    obtain ⟨d, hd, hframes⟩ := htold.sent
    simp only [or_false] at htold hframes
    constructor
    · rintro ⟨⟨d', hd', hsent⟩, v, hv, hw, hlt⟩
      obtain rfl : d = d' := List.append_cancel_left (hd.symm.trans hd')
      have hnamed : ∃ n ∈ call.notices, p ∈ affectedPrims n.2 := by
        by_contra hnot
        exact absurd (hstamped p v ((htold.unrecorded hnot).symm.trans hv)) (Nat.not_le.2 hlt)
      obtain ⟨v', hv', hw', -⟩ := htold.recorded hnamed
      obtain rfl : v = v' := Option.some.inj (hv.symm.trans hv')
      refine ⟨⟨hcreate, hactive, hw'.symm.trans hw⟩, ?_⟩
      rcases List.eq_nil_or_concat' s.clients with hnil | ⟨clients, c, hc⟩
      · obtain ⟨n, hn, hp⟩ := hnamed
        exact ⟨n, hn, hp, .inl hnil⟩
      · obtain ⟨-, -, n, hn, hp, hread⟩ := (hframes c).1 (hsent c (by simp [hc]))
        exact ⟨n, hn, hp, .inr hread⟩
    · rintro ⟨⟨-, -, horigin⟩, n, hn, hp, hread⟩
      refine ⟨⟨d, hd, fun c hc => ?_⟩, ?_⟩
      · refine (hframes c).2 ⟨hc, fun heq => hclients (horigin ▸ heq ▸ hc), n, hn, hp, ?_⟩
        exact hread.resolve_left (List.ne_nil_of_mem hc)
      · obtain ⟨v, hv, hw, hlt, -⟩ := htold.recorded ⟨n, hn, hp⟩
        exact ⟨v, hv, hw.trans horigin, hlt⟩
  · constructor
    · rintro ⟨-, v, hv, -, hlt⟩
      rw [versions_author_of_window hwindow] at hv
      exact absurd (hstamped p v hv) (Nat.not_le.2 hlt)
    · rintro ⟨⟨hcreate, hactive, -⟩, -⟩
      exact absurd ⟨hcreate, hactive⟩ hwindow

/-! ### What every handler keeps -/

structure Keeps (s s' : Session σ Path R) : Prop where
  stamped : s.Stamped → s'.Stamped
  clients : s'.clients = s.clients

section Keeps
omit [LinearOrder Path]
variable {s₁ s' : Session σ Path R}

theorem Keeps.trans (h : Keeps s s₁) (h' : Keeps s₁ s') : Keeps s s' :=
  ⟨fun hs => h'.stamped (h.stamped hs), h'.clients.trans h.clients⟩

theorem Keeps.of_eq (hprims : s'.versions.prims = s.versions.prims) (hseq : s.serverSeq ≤ s'.serverSeq)
    (hclients : s'.clients = s.clients) : Keeps s s' :=
  ⟨fun h p v hv => (h p v (hprims ▸ hv)).trans hseq, hclients⟩

theorem keeps_sendAck (c : ConnectionId) (r : Nat) (e : Option AckError) : Keeps s (s.sendAck c r e) := by
  unfold sendAck sendToConnection
  split_ifs
  all_goals exact .of_eq rfl le_rfl rfl

theorem keeps_handleJoin (c : ConnectionId) : Keeps s (s.handleJoin view c) := by
  unfold handleJoin sendToConnection
  split_ifs
  all_goals exact .of_eq rfl le_rfl rfl

theorem keeps_handleFlush (save : Outcome Bool) : Keeps s (s.handleFlush view save) := by
  unfold handleFlush
  split_ifs
  all_goals exact .of_eq rfl le_rfl rfl

theorem keeps_sendCorrection [LinearOrder Path] (c : ConnectionId) (p : Path) :
    Keeps s (sendCorrection view s c p) := by
  unfold sendCorrection
  cases correctionMessage view s.stage p with
  | none =>
    split_ifs
    all_goals exact .of_eq rfl le_rfl rfl
  | some message =>
    split_ifs
    · exact .of_eq rfl le_rfl rfl
    · exact .of_eq rfl (Nat.le_succ _) rfl
    · exact .of_eq rfl le_rfl rfl

theorem keeps_announceToAll [LinearOrder Path] (w : ConnectionId) (p : Path) (message : Message Path R) :
    Keeps s (s.announceToAll w p message) := by
  refine ⟨fun h q v hv => ?_, rfl⟩
  have hprims : (s.announceToAll w p message).versions.prims =
      (s.versions.recordChange p (s.serverSeq + 1) w).prims := prims_foldl_recordSent ..
  rw [hprims] at hv
  rcases eq_or_ne q p with rfl | hne
  · obtain ⟨v', hv', -, hseq⟩ := recordChange_self (w := w) (p := q) s.versions (s.serverSeq + 1)
    rw [Option.some.inj (hv.symm.trans hv'), hseq]
    exact le_rfl
  · have hother : (s.versions.recordChange p (s.serverSeq + 1) w).prims q = s.versions.prims q :=
      Function.update_of_ne hne ..
    exact (h q v (hother.symm.trans hv)).trans (Nat.le_succ _)

theorem keeps_announce [LinearOrder Path] (w : ConnectionId) (prims : List Path) :
    Keeps s (s.announce view w prims) := by
  refine ⟨fun h p v hv => ?_, by rw [announce_eq]⟩
  have htold : Told w p _ _ s (s.announce view w prims) := told_announce w p prims s
  by_cases hp : p ∈ prims
  · obtain ⟨v', hv', -, -, hle⟩ := htold.recorded hp
    rwa [Option.some.inj (hv.symm.trans hv')]
  · exact (h p v ((htold.unrecorded hp).symm.trans hv)).trans htold.seq_le

theorem keeps_onObjectsChanged [LinearOrder Path] (flags : NoticeFlags) (notice : ObjectsChanged Path) :
    Keeps s (onObjectsChanged view flags s notice) := by
  rcases onObjectsChanged_cases view flags s notice with ⟨heq, -⟩ | heq
  · rw [heq]
    exact .of_eq rfl le_rfl rfl
  · rw [heq]
    exact keeps_announce ..

theorem keeps_author [LinearOrder Path] {α : Type} (flags : NoticeFlags) (call : Call σ Path α) :
    Keeps s (s.author view flags call) := by
  refine author_induction (motive := Keeps s) ?_ ?_ (.of_eq rfl le_rfl rfl)
  · intro s' stage hs
    exact hs.trans (.of_eq rfl le_rfl rfl)
  · intro n _ s' _ hs
    exact hs.trans (keeps_onObjectsChanged flags n.2)

end Keeps

end Session

/-! ### A handler, step by step -/

/-- What is left of a handler. -/
inductive Program (σ Path R : Type) : Type 1 where
  | done
  /-- a store to one of the atomics -/
  | store (set : NoticeFlags → NoticeFlags) (next : Program σ Path R)
  /-- takes `m_shared_layer_mutex_` -/
  | lock (next : Program σ Path R)
  | unlock (next : Program σ Path R)
  /-- a call on the stage; what follows depends on how it ends -/
  | call {α : Type} (possible : σ → Call σ Path α → Prop) (next : Outcome α → Program σ Path R)
  /-- the handler's own work on the session -/
  | update (f : Session σ Path R → Session σ Path R) (next : Program σ Path R)
  | test (next : Session σ Path R → Program σ Path R)

namespace Program
variable {σ Path R : Type}

def storeOrigin (origin : ConnectionId) : Program σ Path R → Program σ Path R :=
  store ({ · with currentOrigin := origin })

def storeCreate (b : Bool) : Program σ Path R → Program σ Path R := store ({ · with createInProgress := b })

def storeSetActive (b : Bool) : Program σ Path R → Program σ Path R := store ({ · with setActiveInProgress := b })

def storeReload (b : Bool) : Program σ Path R → Program σ Path R := store ({ · with reloadInProgress := b })

def ack (connection : ConnectionId) (requestId : Nat) (error : Option AckError) : Program σ Path R :=
  update (·.sendAck connection requestId error) done

variable [LinearOrder Path]

def transform (env : Session.Env σ Path R) (command : TransformCommand Path R) : Program σ Path R :=
  test fun s => match s.versions.checkUpdate command.origin command.primPath command.baseSeq with
    | .stale => ack command.origin command.requestId (some .stale)
    | .invalidBase => ack command.origin command.requestId (some .invalidBase)
    | .current =>
      storeOrigin command.origin <| call (env.apply · command.primPath command.transform) fun outcome =>
        storeOrigin 0 <| match outcome with
          | .returned true => update ({ · with dirty := true }) <| ack command.origin command.requestId none
          | _ => update (·.sendAck command.origin command.requestId (some .applyFailed)) <|
              update (Session.sendCorrection env.view · command.origin command.primPath) done

def createPrim (env : Session.Env σ Path R) (command : CreatePrimCommand Path) : Program σ Path R :=
  test fun s =>
    if env.view.isNull s.stage then ack command.origin command.requestId (some .applyFailed)
    else
      storeOrigin command.origin <| storeCreate true <|
        call (env.create · command.parentPath command.type) fun outcome =>
          storeCreate false <| storeOrigin 0 <| match outcome with
            | .returned (some created) =>
              update (·.announceToAll command.origin created.primPath
                (.createPrimBroadcast command.parentPath created.name command.type created.attributes)) <|
                ack command.origin command.requestId none
            | _ => ack command.origin command.requestId (some .invalidParent)

def setPrimActive (env : Session.Env σ Path R) (command : SetPrimActiveCommand Path) : Program σ Path R :=
  test fun s =>
    if env.view.isNull s.stage then ack command.origin command.requestId (some .applyFailed)
    else
      storeOrigin command.origin <| storeSetActive true <|
        call (env.setActive · command.primPath command.active) fun outcome =>
          storeSetActive false <| storeOrigin 0 <| match outcome with
            | .returned .invalidPath | .returned .notFound =>
              ack command.origin command.requestId (some .unknownPrim)
            | .returned .notDeletable => ack command.origin command.requestId (some .notDeletable)
            | .returned .failed | .threw => ack command.origin command.requestId (some .applyFailed)
            | .returned .alreadyInState => ack command.origin command.requestId none
            | .returned .ok =>
              update (·.announceToAll command.origin command.primPath
                (.setPrimActiveBroadcast command.primPath command.active)) <|
                ack command.origin command.requestId none

def reloadRootLayer (env : Session.Env σ Path R) (next : Program σ Path R) : Program σ Path R :=
  test fun s =>
    if env.view.isNull s.stage then next
    else storeReload true <| storeOrigin 0 <| call env.reload fun _ => storeReload false next

def commit (env : Session.Env σ Path R) : Program σ Path R :=
  test fun s =>
    if env.view.isNull s.stage then done
    else if env.view.sessionLayerIsEmpty s.stage then done
    else lock <| call env.commit fun outcome => match outcome with
      | .returned true => update ({ · with dirty := false }) <| reloadRootLayer env <| unlock done
      | _ => unlock done

/-- `HandleCommand`. A flush's `save` is the result of `SdfLayer::Save`. -/
def handle (env : Session.Env σ Path R) (save : Outcome Bool) : SessionCommand Path R → Program σ Path R
  | .transform command => transform env command
  | .join connection => update (·.handleJoin env.view connection) done
  | .createPrim command => createPrim env command
  | .setPrimActive command => setPrimActive env command
  | .commit => commit env
  | .reload => lock <| reloadRootLayer env <| unlock done
  | .flush => update (·.handleFlush env.view save) done
  | .correction connection primPath => update (Session.sendCorrection env.view · connection primPath) done

end Program

/-- A session and its consumer, somewhere in a handler. -/
structure Work (σ Path R : Type) where
  session : Session σ Path R
  flags : NoticeFlags := {}
  /-- the consumer holds `m_shared_layer_mutex_` -/
  locked : Bool := false
  program : Program σ Path R := .done

namespace Work
variable {σ Path R : Type} [LinearOrder Path]

/-- One step of the consumer. -/
inductive Runs (env : Session.Env σ Path R) (a : Work σ Path R) : Work σ Path R → Prop where
  | store {set : NoticeFlags → NoticeFlags} {next : Program σ Path R} : a.program = .store set next →
      Runs env a { a with flags := set a.flags, program := next }
  | lock {next : Program σ Path R} : a.program = .lock next → Runs env a { a with locked := true, program := next }
  | unlock {next : Program σ Path R} : a.program = .unlock next →
      Runs env a { a with locked := false, program := next }
  | call {α : Type} {possible : σ → Call σ Path α → Prop} {next : Outcome α → Program σ Path R}
      {call : Call σ Path α} : a.program = .call possible next → possible a.session.stage call →
      Runs env a { a with session := a.session.author env.view a.flags call, program := next call.outcome }
  | update {f : Session σ Path R → Session σ Path R} {next : Program σ Path R} : a.program = .update f next →
      Runs env a { a with session := f a.session, program := next }
  | test {next : Session σ Path R → Program σ Path R} : a.program = .test next →
      Runs env a { a with program := next a.session }

/-- What another session's reload does here. -/
def notify (env : Session.Env σ Path R) (a : Work σ Path R) (call : Call σ Path Bool) : Work σ Path R :=
  { a with session := a.session.author env.view a.flags call }

/-- The consumer, the clients that come and go, and the reloads of another session on the file, whose thread holds
`m_shared_layer_mutex_`. -/
inductive Step (env : Session.Env σ Path R) (a : Work σ Path R) : Work σ Path R → Prop where
  | take (command : SessionCommand Path R) (save : Outcome Bool) : a.program = .done →
      Step env a { a with program := .handle env save command }
  | run {a' : Work σ Path R} : Runs env a a' → Step env a a'
  | attach (c : ConnectionId) : c ≠ 0 → Step env a { a with session := a.session.attachClient c }
  | detach (c : ConnectionId) : Step env a { a with session := a.session.detachClient c }
  | reload {call : Call σ Path Bool} : a.locked = false → env.reload a.session.stage call →
      Step env a (a.notify env call)

def system (env : Session.Env σ Path R) : Lts.System (Work σ Path R) where
  init a := ∃ stage, a = { session := { stage := stage } }
  step := Step env

/-! ### Undisturbed, a program does what the handler does -/

section Handlers
variable {env : Session.Env σ Path R} {s s' : Session σ Path R} {flags : NoticeFlags} {locked : Bool}
  {next : Program σ Path R}

theorem runs_store (set : NoticeFlags → NoticeFlags) :
    Runs env ⟨s, flags, locked, .store set next⟩ ⟨s, set flags, locked, next⟩ := .store rfl

theorem runs_call {α : Type} {possible : σ → Call σ Path α → Prop} {next : Outcome α → Program σ Path R}
    {call : Call σ Path α} (h : possible s.stage call) :
    Runs env ⟨s, flags, locked, .call possible next⟩
      ⟨s.author env.view flags call, flags, locked, next call.outcome⟩ := .call rfl h

theorem runs_update (f : Session σ Path R → Session σ Path R) :
    Runs env ⟨s, flags, locked, .update f next⟩ ⟨f s, flags, locked, next⟩ := .update rfl

theorem runs_test (next : Session σ Path R → Program σ Path R) :
    Runs env ⟨s, flags, locked, .test next⟩ ⟨s, flags, locked, next s⟩ := .test rfl

theorem runs_ack (c : ConnectionId) (r : Nat) (e : Option AckError) :
    Runs env { session := s, program := .ack c r e } { session := s.sendAck c r e } :=
  runs_update (·.sendAck c r e)

open Relation.ReflTransGen in
theorem runs_transform {call : Call σ Path Bool} (command : TransformCommand Path R)
    (hcall : env.apply s.stage command.primPath command.transform call) :
    Relation.ReflTransGen (Runs env) { session := s, program := .transform env command }
      { session := s.handleTransform env.view call command } := by
  refine head (runs_test _) ?_
  unfold Session.handleTransform
  dsimp only
  cases s.versions.checkUpdate command.origin command.primPath command.baseSeq with
  | stale => exact single (runs_ack ..)
  | invalidBase => exact single (runs_ack ..)
  | current =>
    refine head (runs_store _) (head (runs_call hcall) (head (runs_store _) ?_))
    generalize call.outcome = outcome
    match outcome with
    | .returned true => exact head (runs_update _) (single (runs_ack ..))
    | .returned false | .threw => exact head (runs_update _) (single (runs_update _))

open Relation.ReflTransGen in
theorem runs_createPrim {call : Call σ Path (Option (CreatedPrim Path R))} (command : CreatePrimCommand Path)
    (hcall : env.create s.stage command.parentPath command.type call) :
    Relation.ReflTransGen (Runs env) { session := s, program := .createPrim env command }
      { session := s.handleCreatePrim env.view call command } := by
  refine head (runs_test _) ?_
  unfold Session.handleCreatePrim
  dsimp only
  split_ifs
  · exact single (runs_ack ..)
  · refine head (runs_store _) (head (runs_store _) (head (runs_call hcall) ?_))
    refine head (runs_store _) (head (runs_store _) ?_)
    generalize call.outcome = outcome
    match outcome with
    | .returned (some created) => exact head (runs_update _) (single (runs_ack ..))
    | .returned none | .threw => exact single (runs_ack ..)

open Relation.ReflTransGen in
theorem runs_setPrimActive {call : Call σ Path PrimDispatcher.SetActiveStatus} (command : SetPrimActiveCommand Path)
    (hcall : env.setActive s.stage command.primPath command.active call) :
    Relation.ReflTransGen (Runs env) { session := s, program := .setPrimActive env command }
      { session := s.handleSetPrimActive env.view call command } := by
  refine head (runs_test _) ?_
  unfold Session.handleSetPrimActive
  dsimp only
  split_ifs
  · exact single (runs_ack ..)
  · refine head (runs_store _) (head (runs_store _) (head (runs_call hcall) ?_))
    refine head (runs_store _) (head (runs_store _) ?_)
    generalize call.outcome = outcome
    match outcome with
    | .returned .ok => exact head (runs_update _) (single (runs_ack ..))
    | .returned .invalidPath | .returned .notFound | .returned .notDeletable | .returned .failed | .threw
    | .returned .alreadyInState => exact single (runs_ack ..)

open Relation.ReflTransGen in
theorem runs_reloadRootLayer {call : Call σ Path Bool} (hcall : env.reload s.stage call) :
    Relation.ReflTransGen (Runs env) ⟨s, {}, locked, .reloadRootLayer env next⟩
      ⟨s.reloadRootLayer env.view call, {}, locked, next⟩ := by
  refine head (runs_test _) ?_
  unfold Session.reloadRootLayer
  split_ifs
  · exact .refl
  · exact head (runs_store _) (head (runs_store _) (head (runs_call hcall) (single (runs_store _))))

open Relation.ReflTransGen in
theorem runs_commit {commit reload : Call σ Path Bool} (hcommit : env.commit s.stage commit)
    (hreload : env.reload commit.stage reload) :
    Relation.ReflTransGen (Runs env) { session := s, program := .commit env }
      { session := s.handleCommit env.view commit reload } := by
  refine head (runs_test _) ?_
  unfold Session.handleCommit
  dsimp only
  split_ifs
  · exact .refl
  · exact .refl
  · refine head (.lock rfl) (head (runs_call hcommit) ?_)
    generalize commit.outcome = outcome
    match outcome with
    | .returned true => exact head (runs_update _) ((runs_reloadRootLayer hreload).tail (.unlock rfl))
    | .returned false | .threw => exact single (.unlock rfl)

/-- Whatever a handler can do to the session, its program does if nothing comes in between. -/
theorem runs_handle {command : SessionCommand Path R} (h : Session.Handles env s command s') :
    ∃ save, Relation.ReflTransGen (Runs env) { session := s, program := .handle env save command }
      { session := s' } := by
  cases h with
  | transform hcall => exact ⟨.threw, runs_transform _ hcall⟩
  | join => exact ⟨.threw, .single (runs_update _)⟩
  | createPrim hcall => exact ⟨.threw, runs_createPrim _ hcall⟩
  | setPrimActive hcall => exact ⟨.threw, runs_setPrimActive _ hcall⟩
  | commit hcommit hreload => exact ⟨.threw, runs_commit hcommit hreload⟩
  | reload hcall => exact ⟨.threw, .head (.lock rfl) ((runs_reloadRootLayer hcall).tail (.unlock rfl))⟩
  | @flush save => exact ⟨save, .single (runs_update _)⟩
  | correction => exact ⟨.threw, .single (runs_update _)⟩

end Handlers

end Work

/-! ### The windows -/

namespace Program
variable {σ Path R : Type}

/-- Run from here, the program leaves no flag set and the mutex free, sets the reload flag only while it holds the
mutex, and its own work keeps the bookkeeping in order. -/
def Tidy : Program σ Path R → NoticeFlags → Bool → Prop
  | done, flags, locked => flags = {} ∧ locked = false
  | store set next, flags, locked => (flags.reloadInProgress = true → locked = true) ∧ next.Tidy (set flags) locked
  | lock next, flags, locked => flags.reloadInProgress = false ∧ locked = false ∧ next.Tidy flags true
  | unlock next, flags, locked => flags.reloadInProgress = false ∧ locked = true ∧ next.Tidy flags false
  | call _ next, flags, locked =>
    (flags.reloadInProgress = true → locked = true) ∧ ∀ outcome, (next outcome).Tidy flags locked
  | update f next, flags, locked => (flags.reloadInProgress = true → locked = true) ∧
    (∀ s, Session.Keeps s (f s)) ∧ next.Tidy flags locked
  | test next, flags, locked => (flags.reloadInProgress = true → locked = true) ∧ ∀ s, (next s).Tidy flags locked

theorem Tidy.locked_of_reload {program : Program σ Path R} {flags : NoticeFlags} {locked : Bool}
    (h : program.Tidy flags locked) (hreload : flags.reloadInProgress = true) : locked = true := by
  cases program with
  | done => simp [h.1] at hreload
  | store | call | update | test => exact h.1 hreload
  | lock => simp [h.1] at hreload
  | unlock => exact h.2.1

theorem tidy_ack (c : ConnectionId) (r : Nat) (e : Option AckError) : (ack c r e : Program σ Path R).Tidy {} false :=
  ⟨nofun, fun _ => Session.keeps_sendAck c r e, rfl, rfl⟩

variable [LinearOrder Path] (env : Session.Env σ Path R)

theorem tidy_transform (command : TransformCommand Path R) : (transform env command).Tidy {} false := by
  refine ⟨nofun, fun s => ?_⟩
  dsimp only
  split
  · exact tidy_ack ..
  · exact tidy_ack ..
  · refine ⟨nofun, nofun, fun outcome => ⟨nofun, ?_⟩⟩
    split
    · exact ⟨nofun, fun _ => .of_eq rfl le_rfl rfl, tidy_ack ..⟩
    · exact ⟨nofun, fun _ => Session.keeps_sendAck .., nofun, fun _ => Session.keeps_sendCorrection .., rfl, rfl⟩

theorem tidy_createPrim (command : CreatePrimCommand Path) : (createPrim env command).Tidy {} false := by
  refine ⟨nofun, fun s => ?_⟩
  dsimp only
  split_ifs
  · exact tidy_ack ..
  · refine ⟨nofun, nofun, nofun, fun outcome => ⟨nofun, nofun, ?_⟩⟩
    split
    · exact ⟨nofun, fun _ => Session.keeps_announceToAll .., tidy_ack ..⟩
    · exact tidy_ack ..

theorem tidy_setPrimActive (command : SetPrimActiveCommand Path) : (setPrimActive env command).Tidy {} false := by
  refine ⟨nofun, fun s => ?_⟩
  dsimp only
  split_ifs
  · exact tidy_ack ..
  · refine ⟨nofun, nofun, nofun, fun outcome => ⟨nofun, nofun, ?_⟩⟩
    split
    all_goals first
      | exact tidy_ack ..
      | exact ⟨nofun, fun _ => Session.keeps_announceToAll .., tidy_ack ..⟩

omit [LinearOrder Path] in
theorem tidy_reloadRootLayer : (reloadRootLayer env (unlock done)).Tidy {} true := by
  refine ⟨fun _ => rfl, fun s => ?_⟩
  dsimp only
  split_ifs
  · exact ⟨rfl, rfl, rfl, rfl⟩
  · exact ⟨nofun, fun _ => rfl, fun _ => rfl, fun _ => ⟨fun _ => rfl, rfl, rfl, rfl, rfl⟩⟩

omit [LinearOrder Path] in
theorem tidy_commit : (commit env).Tidy {} false := by
  refine ⟨nofun, fun s => ?_⟩
  dsimp only
  split_ifs
  · exact ⟨rfl, rfl⟩
  · exact ⟨rfl, rfl⟩
  · refine ⟨rfl, rfl, fun _ => rfl, fun outcome => ?_⟩
    dsimp only
    split
    · exact ⟨fun _ => rfl, fun _ => .of_eq rfl le_rfl rfl, tidy_reloadRootLayer env⟩
    · exact ⟨rfl, rfl, rfl, rfl⟩

theorem tidy_handle (save : Outcome Bool) (command : SessionCommand Path R) :
    (handle env save command).Tidy {} false := by
  cases command with
  | transform command => exact tidy_transform env command
  | join c => exact ⟨nofun, fun _ => Session.keeps_handleJoin c, rfl, rfl⟩
  | createPrim command => exact tidy_createPrim env command
  | setPrimActive command => exact tidy_setPrimActive env command
  | commit => exact tidy_commit env
  | reload => exact ⟨rfl, rfl, tidy_reloadRootLayer env⟩
  | flush => exact ⟨nofun, fun _ => Session.keeps_handleFlush save, rfl, rfl⟩
  | correction c p => exact ⟨nofun, fun _ => Session.keeps_sendCorrection c p, rfl, rfl⟩

end Program

namespace Work
variable {σ Path R : Type} [LinearOrder Path] {env : Session.Env σ Path R} {a a' : Work σ Path R}
  {call : Call σ Path Bool} {p : Path}

structure Inv (a : Work σ Path R) : Prop where
  tidy : a.program.Tidy a.flags a.locked
  stamped : a.session.Stamped
  clients : 0 ∉ a.session.clients

omit [LinearOrder Path] in
theorem Inv.session {s : Session σ Path R} (h : Inv a) (hs : Session.Keeps a.session s) :
    s.Stamped ∧ 0 ∉ s.clients :=
  ⟨hs.stamped h.stamped, hs.clients ▸ h.clients⟩

theorem Inv.runs (h : Inv a) (hs : Runs env a a') : Inv a' := by
  have htidy := h.tidy
  cases hs with
  | store heq =>
    rw [heq] at htidy
    exact ⟨htidy.2, h.stamped, h.clients⟩
  | lock heq =>
    rw [heq] at htidy
    exact ⟨htidy.2.2, h.stamped, h.clients⟩
  | unlock heq =>
    rw [heq] at htidy
    exact ⟨htidy.2.2, h.stamped, h.clients⟩
  | @call _ _ _ c heq hpossible =>
    rw [heq] at htidy
    obtain ⟨hstamped, hclients⟩ := h.session (Session.keeps_author a.flags c)
    exact ⟨htidy.2 _, hstamped, hclients⟩
  | update heq =>
    rw [heq] at htidy
    obtain ⟨hstamped, hclients⟩ := h.session (htidy.2.1 a.session)
    exact ⟨htidy.2.2, hstamped, hclients⟩
  | test heq =>
    rw [heq] at htidy
    exact ⟨htidy.2 _, h.stamped, h.clients⟩

theorem Inv.step (h : Inv a) (hs : Step env a a') : Inv a' := by
  cases hs with
  | take command save hdone =>
    have htidy := h.tidy
    rw [hdone] at htidy
    refine ⟨?_, h.stamped, h.clients⟩
    rw [htidy.1, htidy.2]
    exact Program.tidy_handle env save command
  | run hs => exact h.runs hs
  | attach c hc =>
    refine ⟨h.tidy, h.stamped, ?_⟩
    simpa [Session.attachClient, hc.symm] using h.clients
  | detach c => exact ⟨h.tidy, h.stamped, fun hmem => h.clients (List.mem_of_mem_erase hmem)⟩
  | @reload c hlocked hreload =>
    obtain ⟨hstamped, hclients⟩ := h.session (Session.keeps_author a.flags c)
    exact ⟨h.tidy, hstamped, hclients⟩

theorem inv_of_reachable (h : (system env).Reachable a) : Inv a := by
  refine Lts.System.invariant ?_ (fun _ _ _ hinv hs => hinv.step hs) h
  rintro _ ⟨stage, rfl⟩
  exact ⟨⟨rfl, rfl⟩, nofun, List.not_mem_nil⟩

/-- The prims that a reload has changed and the session does not override. -/
def Visible (env : Session.Env σ Path R) (a : Work σ Path R) (call : Call σ Path Bool) (p : Path) : Prop :=
  (∃ n ∈ call.notices, p ∈ Session.reloadPrims n.2) ∧ env.view.hasXformOverride a.session.stage p = false

/-- Wherever the consumer stands, another session's reload is relayed in full exactly if, provided there is
anything to relay, no creation, activation or update is being authored, and the notice names the transform of every
such prim, which can be read if there is anyone to send it to. -/
theorem relayed_iff (h : (system env).Reachable a) (hlocked : a.locked = false) (call : Call σ Path Bool) :
    (∀ p, Visible env a call p → Session.Relayed p a.session (a.notify env call).session) ↔
      ∀ p, Visible env a call p →
        (a.flags.createInProgress = false ∧ a.flags.setActiveInProgress = false ∧ a.flags.currentOrigin = 0) ∧
          ∃ n ∈ call.notices, p ∈ Session.affectedPrims n.2 ∧
            (a.session.clients = [] ∨ (env.view.readResolvedTransform n.1 p).isSome = true) := by
  have hinv := inv_of_reachable h
  have hflag : a.flags.reloadInProgress = false := by
    by_contra hset
    have hheld := hinv.tidy.locked_of_reload (Bool.eq_true_of_not_eq_false hset)
    rw [hlocked] at hheld
    cases hheld
  refine forall₂_congr fun p _ => ?_
  exact Session.relayed_author_iff hinv.stamped hinv.clients hflag

end Work

/-! ### A reload during a creation, and during an update -/

namespace Work
open TwoLayerStage

/-- Client 5 is attached to a session on a file with the prims 7 and 8. -/
theorem reachable_client : (system env).Reachable
    { session := Session.attachClient { stage := { root := [(7, shift 1), (8, shift 0)] } } 5 } :=
  .step (.init ⟨_, rfl⟩) (.attach 5 (by decide))

/-- The reload that moves prim 7. -/
def moved (a : Work TwoLayerStage Nat Int) : Call TwoLayerStage Nat Bool :=
  a.session.stage.reload [(7, shift 3), (8, shift 0)]

theorem relayed_between_commands : ∃ a : Work TwoLayerStage Nat Int, (system env).Reachable a ∧ a.locked = false ∧
    Visible env a (moved a) 7 ∧
    ∀ p, Visible env a (moved a) p → Session.Relayed p a.session (a.notify env (moved a)).session := by
  refine ⟨_, reachable_client, rfl, ⟨⟨_, List.mem_singleton_self _, by decide⟩, rfl⟩, ?_⟩
  refine (relayed_iff reachable_client rfl _).2 fun p hp => ⟨⟨rfl, rfl, rfl⟩, _, List.mem_singleton_self _, ?_⟩
  obtain ⟨⟨n, hn, hp⟩, -⟩ := hp
  rw [List.mem_singleton.1 hn] at hp
  have hprims : p = 7 ∨ p = 8 := by
    simp [Session.reloadPrims, Session.mem_pathSet, ObjectPath.primPath, Session.attachClient] at hp
    omega
  rcases hprims with rfl | rfl
  · exact ⟨by decide, .inr rfl⟩
  · exact ⟨by decide, .inr rfl⟩

/-- While client 5's creation is being authored the change of prim 7 is dropped; while client 5's update of prim 8
is being applied it is recorded as a change by client 5, which is not told of it. -/
theorem reload_in_window :
    (∃ a : Work TwoLayerStage Nat Int, (system env).Reachable a ∧ a.locked = false ∧
      env.reload a.session.stage (moved a) ∧ Visible env a (moved a) 7 ∧ (a.notify env (moved a)).session.sent = [] ∧
      (a.notify env (moved a)).session.versions.prims 7 = none ∧
      ¬Session.Relayed 7 a.session (a.notify env (moved a)).session) ∧
    ∃ a : Work TwoLayerStage Nat Int, (system env).Reachable a ∧ a.locked = false ∧
      env.reload a.session.stage (moved a) ∧ Visible env a (moved a) 7 ∧ (a.notify env (moved a)).session.sent = [] ∧
      (a.notify env (moved a)).session.versions.prims 7 = some ⟨1, 5, 0⟩ ∧
      ¬Session.Relayed 7 a.session (a.notify env (moved a)).session := by
  constructor
  · have h := reachable_client.step (.take (.createPrim ⟨7, .cube, 5, 1⟩) .threw rfl)
    replace h := h.step (.run (.test rfl))
    replace h := h.step (.run (.store rfl))
    replace h := h.step (.run (.store rfl))
    refine ⟨_, h, rfl, ⟨_, rfl⟩, ⟨⟨_, List.mem_singleton_self _, by decide⟩, rfl⟩, by decide, by decide, ?_⟩
    exact Session.not_relayed (by decide)
  · have h := reachable_client.step (.take (.transform ⟨8, some (shift 2), 5, 1, 0⟩) .threw rfl)
    replace h := h.step (.run (.test rfl))
    replace h := h.step (.run (.store rfl))
    refine ⟨_, h, rfl, ⟨_, rfl⟩, ⟨⟨_, List.mem_singleton_self _, by decide⟩, rfl⟩, by decide, by decide, ?_⟩
    exact Session.not_relayed (by decide)

end Work
end IdtxCore
