import IdtxCore.SessionNews

/-!
# Transforms of deleted prims

After a `SetPrimActive` command has deleted a prim, a client should get no transform of it, except in a
join snapshot, until another one brings it back. The listener does not look at whether a prim is active:
it broadcasts what `ReadResolvedTransform` gives, and that reads an inactive prim as well. So a transform
frame is sent if a notice that reaches the listener names the prim (`Shows`), and only then: a correction
of a deleted prim is a deactivation.

`Watch` is a session with the prims that are deleted now and, for each of them, how many frames had been
sent when it was deleted.
-/

namespace IdtxCore

namespace Session
variable {σ Path R : Type}

def Deleted (view : StageView σ Path R) (stage : σ) (p : Path) : Prop :=
  ∃ spec ∈ view.sessionSpecs stage, spec.path = p ∧ spec.active = some false

/-- What is relied on of USD: the session layer is the strongest, and only `SetActive` authors the
active flag. -/
structure KeepsDeletes (env : Env σ Path R) : Prop where
  hidden : ∀ {stage p}, Deleted env.view stage p →
    env.view.isInactive stage p = true ∨ env.view.readResolvedTransform stage p = none
  apply : ∀ {stage p t call q}, env.apply stage p t call → Deleted env.view stage q →
    Deleted env.view call.stage q
  create : ∀ {stage p type call q}, env.create stage p type call → Deleted env.view stage q →
    Deleted env.view call.stage q
  commit : ∀ {stage call q}, env.commit stage call → Deleted env.view stage q →
    Deleted env.view call.stage q
  reload : ∀ {stage call q}, env.reload stage call → Deleted env.view stage q →
    Deleted env.view call.stage q
  deletes : ∀ {stage p call}, env.setActive stage p false call → call.outcome = .returned .ok →
    Deleted env.view call.stage p
  setActive : ∀ {stage p active call q}, env.setActive stage p active call → Deleted env.view stage q →
    (q = p → active = true → call.outcome ≠ .returned .ok) → Deleted env.view call.stage q

def Silent (p : Path) (sent : List (Sent Path R)) : Prop :=
  ∀ x ∈ sent, ∀ v, x.frame.message = .xformBroadcast p v → x.cause = .snapshot

/-- `s'` has sent more than `s`, and nothing of it is a transform of `p` outside a snapshot. -/
def Hides (p : Path) (s s' : Session σ Path R) : Prop := ∃ d, s'.sent = s.sent ++ d ∧ Silent p d

/-- One of the notices of the call makes the listener broadcast the transform of `p`. -/
def Shows [LinearOrder Path] {α : Type} (view : StageView σ Path R) (flags : NoticeFlags)
    (call : Call σ Path α) (p : Path) : Prop :=
  ∃ n ∈ call.notices, p ∈ noticePrims view flags n.1 n.2 ∧ (view.readResolvedTransform n.1 p).isSome = true

/-! ### What the handlers send -/

variable {view : StageView σ Path R} {p : Path} {s s₁ s' : Session σ Path R}

theorem Hides.of_sent_eq (h : s'.sent = s.sent) : Hides p s s' := ⟨[], by simp [h], List.forall_mem_nil _⟩

theorem Hides.trans (h : Hides p s s₁) (h' : Hides p s₁ s') : Hides p s s' := by
  obtain ⟨d, hd, hsilent⟩ := h
  obtain ⟨d', hd', hsilent'⟩ := h'
  refine ⟨d ++ d', by rw [hd', hd, List.append_assoc], ?_⟩
  intro x hx
  rcases List.mem_append.1 hx with hx | hx
  · exact hsilent x hx
  · exact hsilent' x hx

theorem hides_sendToConnection (s : Session σ Path R) (c : ConnectionId) (messages : List (Message Path R))
    (cause : Cause) (h : (∀ m ∈ messages, ∀ v, m ≠ .xformBroadcast p v) ∨ cause = .snapshot) :
    Hides p s (s.sendToConnection c messages cause) := by
  unfold sendToConnection
  split_ifs
  · refine ⟨_, rfl, ?_⟩
    intro x hx v hv
    obtain ⟨m, hm, rfl⟩ := List.mem_map.1 hx
    rcases h with hmessages | rfl
    · exact absurd hv (hmessages m hm v)
    · rfl
  · exact .of_sent_eq rfl

theorem hides_sendAck (s : Session σ Path R) (c : ConnectionId) (r : Nat) (e : Option AckError) :
    Hides p s (s.sendAck c r e) :=
  hides_sendToConnection s c _ _ (.inl (by simp))

theorem hides_reject (s : Session σ Path R) (c : ConnectionId) (r : Nat) (e : AckError) :
    Hides p s (s.reject c r e) :=
  ⟨_, rfl, by simp [Silent]⟩

variable [LinearOrder Path]

theorem hides_announceToAll (s : Session σ Path R) (w : ConnectionId) (q : Path) {m : Message Path R}
    (h : ∀ v, m ≠ .xformBroadcast p v) : Hides p s (s.announceToAll w q m) := by
  refine ⟨_, rfl, ?_⟩
  intro x hx v hv
  obtain ⟨c, -, rfl⟩ := List.mem_map.1 hx
  exact absurd hv (h v)

/-- A correction of a deleted prim is a deactivation. -/
theorem hides_sendCorrection (c : ConnectionId) (q : Path)
    (hidden : view.isInactive s.stage p = true ∨ view.readResolvedTransform s.stage p = none) :
    Hides p s (sendCorrection view s c q) := by
  unfold sendCorrection
  by_cases h0 : view.isNull s.stage = true ∨ c = 0
  · rw [if_pos h0]
    exact .of_sent_eq rfl
  · rw [if_neg h0]
    cases hm : correctionMessage view s.stage q with
    | none => exact .of_sent_eq rfl
    | some m =>
      dsimp only
      split_ifs
      · refine ⟨_, rfl, ?_⟩
        intro x hx v hv
        obtain rfl := List.mem_singleton.1 hx
        obtain rfl : m = .xformBroadcast p v := hv
        -- a transform is sent only of an active prim that can be read
        unfold correctionMessage at hm
        split_ifs at hm with hinactive
        · cases Option.some.inj hm
        · obtain ⟨t, ht, heq⟩ := Option.map_eq_some_iff.1 hm
          obtain ⟨rfl, rfl⟩ := Message.xformBroadcast.inj heq
          rcases hidden with hi | hr
          · exact absurd hi hinactive
          · rw [hr] at ht
            cases ht
      · exact .of_sent_eq rfl

theorem hides_announce (w : ConnectionId) (prims : List Path)
    (h : p ∈ prims → view.readResolvedTransform s.stage p = none) : Hides p s (s.announce view w prims) := by
  rw [announce_eq]
  refine ⟨_, rfl, ?_⟩
  intro x hx v hv
  obtain ⟨-, hm, -⟩ := Version.mem_sends.1 hx
  rw [messages_noticeVersion, hv] at hm
  obtain ⟨q, hq, hread⟩ := List.mem_filterMap.1 hm
  obtain ⟨t, ht, heq⟩ := Option.map_eq_some_iff.1 hread
  obtain ⟨rfl, rfl⟩ := Message.xformBroadcast.inj heq
  rw [h hq] at ht
  cases ht

theorem hides_onObjectsChanged (flags : NoticeFlags) (notice : ObjectsChanged Path)
    (h : p ∈ noticePrims view flags s.stage notice → view.readResolvedTransform s.stage p = none) :
    Hides p s (onObjectsChanged view flags s notice) := by
  rcases onObjectsChanged_cases view flags s notice with ⟨heq, -⟩ | heq
  · rw [heq]
    exact .of_sent_eq rfl
  · rw [heq]
    exact hides_announce _ _ h

theorem hides_author {α : Type} (flags : NoticeFlags) {call : Call σ Path α} (h : ¬ Shows view flags call p) :
    Hides p s (s.author view flags call) := by
  refine author_induction (motive := Hides p s) ?_ ?_ (.of_sent_eq rfl)
  · intro s' stage hs
    exact hs.trans (.of_sent_eq rfl)
  · intro n hn s' hstage hs
    refine hs.trans (hides_onObjectsChanged flags n.2 fun hp => ?_)
    rw [hstage] at hp ⊢
    rw [← Option.not_isSome_iff_eq_none]
    exact fun hsome => h ⟨n, hn, hp, hsome⟩

/-- The listener ignores the notices of a creation and of an activation. -/
theorem not_shows_of_ignored {α : Type} {flags : NoticeFlags} {call : Call σ Path α}
    (h : (flags.createInProgress || flags.setActiveInProgress) = true) : ¬ Shows view flags call p := by
  rintro ⟨n, -, hp, -⟩
  simp [noticePrims, h] at hp

theorem hides_handleTransform {call : Call σ Path Bool} {command : TransformCommand Path R}
    (hshows : s.versions.checkUpdate command.origin command.primPath command.baseSeq = .current →
      ¬ Shows view { currentOrigin := command.origin } call p)
    (hidden : view.isInactive call.stage p = true ∨ view.readResolvedTransform call.stage p = none) :
    Hides p s (s.handleTransform view call command) := by
  unfold handleTransform
  cases hcheck : s.versions.checkUpdate command.origin command.primPath command.baseSeq with
  | stale => exact hides_sendAck ..
  | invalidBase => exact hides_sendAck ..
  | current =>
    have hauthor : Hides p s (s.author view { currentOrigin := command.origin } call) :=
      hides_author _ (hshows hcheck)
    dsimp only
    split
    · refine hauthor.trans (.trans ?_ (hides_sendAck ..))
      exact .of_sent_eq rfl
    · refine hauthor.trans (.trans (hides_sendAck ..) (hides_sendCorrection _ _ ?_))
      rw [stage_sendAck]
      exact hidden

theorem hides_handleCreatePrim {call : Call σ Path (Option (CreatedPrim Path R))}
    {command : CreatePrimCommand Path} : Hides p s (s.handleCreatePrim view call command) := by
  unfold handleCreatePrim
  split_ifs
  · exact hides_sendAck ..
  · have hauthor : Hides p s (s.author view { currentOrigin := command.origin, createInProgress := true } call) :=
      hides_author _ (not_shows_of_ignored rfl)
    refine hauthor.trans ?_
    dsimp only
    split
    · exact (hides_announceToAll _ _ _ (by simp)).trans (hides_sendAck ..)
    · exact hides_sendAck ..

theorem hides_handleSetPrimActive {call : Call σ Path PrimDispatcher.SetActiveStatus}
    {command : SetPrimActiveCommand Path} : Hides p s (s.handleSetPrimActive view call command) := by
  unfold handleSetPrimActive
  split_ifs
  · exact hides_sendAck ..
  · have hauthor : Hides p s
        (s.author view { currentOrigin := command.origin, setActiveInProgress := true } call) :=
      hides_author _ (not_shows_of_ignored rfl)
    refine hauthor.trans ?_
    dsimp only
    split
    case h_7 => exact (hides_announceToAll _ _ _ (by simp)).trans (hides_sendAck ..)
    all_goals exact hides_sendAck ..

omit [LinearOrder Path] in
theorem hides_handleJoin (c : ConnectionId) : Hides p s (s.handleJoin view c) := by
  unfold handleJoin
  split_ifs
  · exact .of_sent_eq rfl
  · exact hides_sendToConnection _ _ _ _ (.inr rfl)

omit [LinearOrder Path] in
theorem hides_handleFlush (save : Outcome Bool) : Hides p s (s.handleFlush view save) := by
  unfold handleFlush
  split_ifs <;> exact .of_sent_eq rfl

theorem hides_reloadRootLayer {call : Call σ Path Bool}
    (h : ¬ Shows view { reloadInProgress := true } call p) : Hides p s (s.reloadRootLayer view call) := by
  unfold reloadRootLayer
  split_ifs
  · exact .of_sent_eq rfl
  · exact hides_author _ h

theorem hides_handleCommit {commit reload : Call σ Path Bool} (hcommit : ¬ Shows view {} commit p)
    (hreload : ¬ Shows view { reloadInProgress := true } reload p) :
    Hides p s (s.handleCommit view commit reload) := by
  unfold handleCommit
  split_ifs
  · exact .of_sent_eq rfl
  · exact .of_sent_eq rfl
  · have hauthor : Hides p s (s.author view {} commit) := hides_author _ hcommit
    refine hauthor.trans ?_
    dsimp only
    split
    · exact Hides.trans (.of_sent_eq rfl) (hides_reloadRootLayer hreload)
    · exact .of_sent_eq rfl

end Session

/-! ### Runs -/

/-- What happens next, with what the calls into USD do. -/
inductive Turn (σ Path R : Type) where
  | attach (c : ConnectionId)
  | detach (c : ConnectionId)
  | reject (c : ConnectionId) (requestId : Nat) (error : AckError)
  | transform (command : TransformCommand Path R) (call : Call σ Path Bool)
  | join (c : ConnectionId)
  | createPrim (command : CreatePrimCommand Path) (call : Call σ Path (Option (CreatedPrim Path R)))
  | setPrimActive (command : SetPrimActiveCommand Path) (call : Call σ Path PrimDispatcher.SetActiveStatus)
  | commit (commit reload : Call σ Path Bool)
  | reload (call : Call σ Path Bool)
  | flush (save : Outcome Bool)
  | correction (c : ConnectionId) (primPath : Path)

structure Watch (σ Path R : Type) where
  consumer : Consumer σ Path R
  /-- for a prim that is deleted now: how many frames had been sent when it was deleted -/
  deletedAt : Path → Option Nat := fun _ => none

namespace Watch
variable {σ Path R : Type} [LinearOrder Path]

def handled (w : Watch σ Path R) (s' : Session σ Path R) : Watch σ Path R :=
  { w with consumer := { w.consumer with session := s' } }

/-- A `SetPrimActive` command has succeeded if the session has the stage and the call ends with `Ok`. -/
def succeeds (view : StageView σ Path R) (s : Session σ Path R)
    (call : Call σ Path PrimDispatcher.SetActiveStatus) : Bool :=
  !view.isNull s.stage && decide (call.outcome = .returned .ok)

def handledSetPrimActive (env : Session.Env σ Path R) (w : Watch σ Path R)
    (command : SetPrimActiveCommand Path)
    (call : Call σ Path PrimDispatcher.SetActiveStatus) : Watch σ Path R :=
  let s' := w.consumer.session.handleSetPrimActive env.view call command
  let w' := w.handled s'
  if succeeds env.view w.consumer.session call then
    { w' with
      deletedAt := Function.update w.deletedAt command.primPath
        (if command.active then none else some ((w.deletedAt command.primPath).getD s'.sent.length)) }
  else w'

inductive Step (env : Session.Env σ Path R) (w : Watch σ Path R) : Turn σ Path R → Watch σ Path R → Prop where
  | attach {c : ConnectionId} : c ≠ 0 → c ∉ w.consumer.opened →
      Step env w (.attach c) { w with consumer :=
        { w.consumer with
          session := w.consumer.session.attachClient c
          opened := c :: w.consumer.opened } }
  | detach {c : ConnectionId} : Step env w (.detach c) (w.handled (w.consumer.session.detachClient c))
  | reject {c : ConnectionId} {requestId : Nat} {error : AckError} : c ∈ w.consumer.session.clients →
      Step env w (.reject c requestId error) (w.handled (w.consumer.session.reject c requestId error))
  | transform {command : TransformCommand Path R} {call : Call σ Path Bool} :
      env.apply w.consumer.session.stage command.primPath command.transform call →
      Step env w (.transform command call)
        (w.handled (w.consumer.session.handleTransform env.view call command))
  | join {c : ConnectionId} :
      Step env w (.join c) { w with consumer :=
        { w.consumer with
          session := w.consumer.session.handleJoin env.view c
          joined := c :: w.consumer.joined } }
  | createPrim {command : CreatePrimCommand Path} {call : Call σ Path (Option (CreatedPrim Path R))} :
      env.create w.consumer.session.stage command.parentPath command.type call →
      Step env w (.createPrim command call)
        (w.handled (w.consumer.session.handleCreatePrim env.view call command))
  | setPrimActive {command : SetPrimActiveCommand Path}
      {call : Call σ Path PrimDispatcher.SetActiveStatus} :
      env.setActive w.consumer.session.stage command.primPath command.active call →
      Step env w (.setPrimActive command call) (w.handledSetPrimActive env command call)
  | commit {commit reload : Call σ Path Bool} :
      env.commit w.consumer.session.stage commit → env.reload commit.stage reload →
      Step env w (.commit commit reload)
        (w.handled (w.consumer.session.handleCommit env.view commit reload))
  | reload {call : Call σ Path Bool} : env.reload w.consumer.session.stage call →
      Step env w (.reload call) (w.handled (w.consumer.session.reloadRootLayer env.view call))
  | flush {save : Outcome Bool} :
      Step env w (.flush save) (w.handled (w.consumer.session.handleFlush env.view save))
  | correction {c : ConnectionId} {primPath : Path} :
      Step env w (.correction c primPath)
        (w.handled (Session.sendCorrection env.view w.consumer.session c primPath))

/-- No notice that reaches the listener shows a deleted prim. -/
def Calm (env : Session.Env σ Path R) (w : Watch σ Path R) : Turn σ Path R → Prop
  | .transform command call =>
    w.consumer.session.versions.checkUpdate command.origin command.primPath command.baseSeq = .current →
      ∀ p, (w.deletedAt p).isSome = true →
        ¬ Session.Shows env.view { currentOrigin := command.origin } call p
  | .commit commit reload => ∀ p, (w.deletedAt p).isSome = true →
      ¬ Session.Shows env.view {} commit p ∧ ¬ Session.Shows env.view { reloadInProgress := true } reload p
  | .reload call => ∀ p, (w.deletedAt p).isSome = true →
      ¬ Session.Shows env.view { reloadInProgress := true } call p
  | _ => True

def system (env : Session.Env σ Path R) : Lts.System (Watch σ Path R) where
  init w := ∃ stage, w = { consumer := { session := { stage := stage } } }
  step w w' := ∃ turn, Step env w turn w'

def calmSystem (env : Session.Env σ Path R) : Lts.System (Watch σ Path R) where
  init := (system env).init
  step w w' := ∃ turn, Step env w turn w' ∧ Calm env w turn

variable {env : Session.Env σ Path R} {w w' : Watch σ Path R}

theorem Step.consumer {turn : Turn σ Path R} (h : Step env w turn w') :
    Consumer.Step env w.consumer w'.consumer := by
  cases h with
  | attach h0 hc => exact .attach _ h0 hc
  | detach => exact .detach _
  | reject hc => exact .reject _ _ _ hc
  | transform hcall => exact .handle _ _ (.transform hcall)
  | join => exact .handle (.join _) _ .join
  | createPrim hcall => exact .handle _ _ (.createPrim hcall)
  | @setPrimActive command call hcall =>
    have hconsumer : (w.handledSetPrimActive env command call).consumer =
        { w.consumer with session := w.consumer.session.handleSetPrimActive env.view call command } := by
      unfold handledSetPrimActive
      dsimp only
      split <;> rfl
    rw [hconsumer]
    exact .handle _ _ (.setPrimActive hcall)
  | commit hcommit hreload => exact .handle _ _ (.commit hcommit hreload)
  | reload hcall => exact .handle _ _ (.reload hcall)
  | flush => exact .handle _ _ .flush
  | correction => exact .handle _ _ .correction

theorem reachable_consumer (h : (system env).Reachable w) : (Consumer.system env).Reachable w.consumer := by
  induction h with
  | init h =>
    obtain ⟨stage, rfl⟩ := h
    exact .init ⟨stage, rfl⟩
  | step _ hstep ih =>
    obtain ⟨turn, hstep⟩ := hstep
    exact .step ih hstep.consumer

/-! ### Nothing is sent of a deleted prim -/

open Session in
/-- A deleted prim is inactive on the session layer, and since its deletion no transform of it was sent. -/
def SilentSince (view : StageView σ Path R) (s : Session σ Path R) (deletedAt : Path → Option Nat) : Prop :=
  ∀ p n, deletedAt p = some n → Deleted view s.stage p ∧ n ≤ s.sent.length ∧ Silent p (s.sent.drop n)

section Keep
open Session
variable {view : StageView σ Path R} {s s' : Session σ Path R} {deletedAt : Path → Option Nat}

omit [LinearOrder Path] in
theorem SilentSince.step (h : SilentSince view s deletedAt)
    (hhides : ∀ p, (deletedAt p).isSome = true → Deleted view s.stage p → Hides p s s')
    (hkeeps : ∀ p, (deletedAt p).isSome = true → Deleted view s.stage p → Deleted view s'.stage p) :
    SilentSince view s' deletedAt := by
  intro p n hp
  obtain ⟨hdeleted, hn, hsilent⟩ := h p n hp
  have hsome : (deletedAt p).isSome = true := by rw [hp]; rfl
  obtain ⟨d, hsent, hd⟩ := hhides p hsome hdeleted
  refine ⟨hkeeps p hsome hdeleted, ?_, ?_⟩
  · rw [hsent, List.length_append]
    omega
  · rw [hsent, List.drop_append_of_le_length hn]
    intro x hx
    rcases List.mem_append.1 hx with hx | hx
    · exact hsilent x hx
    · exact hd x hx

theorem SilentSince.delete (h : SilentSince view s deletedAt) {p : Path} (hp : Deleted view s.stage p) :
    SilentSince view s (Function.update deletedAt p (some ((deletedAt p).getD s.sent.length))) := by
  intro q n hq
  by_cases heq : q = p
  · subst heq
    rw [Function.update_self] at hq
    obtain rfl := Option.some.inj hq
    cases hold : deletedAt q with
    | none => exact ⟨hp, le_rfl, by simp [Silent]⟩
    | some m => exact h q m hold
  · rw [Function.update_of_ne heq] at hq
    exact h q n hq

theorem SilentSince.restore (h : SilentSince view s deletedAt) (p : Path) :
    SilentSince view s (Function.update deletedAt p none) := by
  intro q n hq
  by_cases heq : q = p
  · subst heq
    rw [Function.update_self] at hq
    cases hq
  · rw [Function.update_of_ne heq] at hq
    exact h q n hq

end Keep

open Session in
theorem SilentSince.setPrimActive (hlaws : KeepsDeletes env)
    (h : SilentSince env.view w.consumer.session w.deletedAt) {command : SetPrimActiveCommand Path}
    {call : Call σ Path PrimDispatcher.SetActiveStatus}
    (hcall : env.setActive w.consumer.session.stage command.primPath command.active call) :
    SilentSince env.view (w.handledSetPrimActive env command call).consumer.session
      (w.handledSetPrimActive env command call).deletedAt := by
  have hstage : (w.consumer.session.handleSetPrimActive env.view call command).stage =
      if env.view.isNull w.consumer.session.stage = true then w.consumer.session.stage else call.stage :=
    stage_handleSetPrimActive _ _ call command
  unfold handledSetPrimActive
  dsimp only
  cases hok : succeeds env.view w.consumer.session call with
  | false =>
    refine SilentSince.step h (fun _ _ _ => hides_handleSetPrimActive) ?_
    intro p _ hdeleted
    change Deleted env.view (w.consumer.session.handleSetPrimActive env.view call command).stage p
    rw [hstage]
    split_ifs with hnull
    · exact hdeleted
    · refine hlaws.setActive hcall hdeleted ?_
      intro _ _ houtcome
      simp [succeeds, hnull, houtcome] at hok
  | true =>
    obtain ⟨hnull, houtcome⟩ : env.view.isNull w.consumer.session.stage = false ∧
        call.outcome = .returned .ok := by simpa [succeeds] using hok
    rw [hnull, if_neg (by simp)] at hstage
    cases hactive : command.active with
    | true =>
      refine SilentSince.step (h.restore command.primPath) (fun _ _ _ => hides_handleSetPrimActive) ?_
      intro p hsome hdeleted
      change Deleted env.view (w.consumer.session.handleSetPrimActive env.view call command).stage p
      rw [hstage]
      refine hlaws.setActive hcall hdeleted ?_
      rintro rfl
      simp at hsome
    | false =>
      have hkeeps : ∀ p, Deleted env.view w.consumer.session.stage p →
          Deleted env.view (w.consumer.session.handleSetPrimActive env.view call command).stage p := by
        intro p hdeleted
        rw [hstage]
        exact hlaws.setActive hcall hdeleted fun _ h' => by simp [hactive] at h'
      have hafter : SilentSince env.view (w.consumer.session.handleSetPrimActive env.view call command)
          w.deletedAt := h.step (fun _ _ _ => hides_handleSetPrimActive) fun p _ => hkeeps p
      refine hafter.delete ?_
      rw [hstage]
      rw [hactive] at hcall
      exact hlaws.deletes hcall houtcome

open Session in
theorem SilentSince.turn (hlaws : KeepsDeletes env) (h : SilentSince env.view w.consumer.session w.deletedAt)
    {turn : Turn σ Path R} (hstep : Step env w turn w') (hcalm : Calm env w turn) :
    SilentSince env.view w'.consumer.session w'.deletedAt := by
  cases hstep with
  | attach => exact h.step (fun _ _ _ => .of_sent_eq rfl) fun _ _ hp => hp
  | detach => exact h.step (fun _ _ _ => .of_sent_eq rfl) fun _ _ hp => hp
  | reject => exact h.step (fun _ _ _ => hides_reject ..) fun _ _ hp => hp
  | @transform command call hcall =>
    refine h.step ?_ ?_
    · intro p hsome hdeleted
      exact hides_handleTransform (fun hcheck => hcalm hcheck p hsome) (hlaws.hidden (hlaws.apply hcall hdeleted))
    · intro p _ hdeleted
      rcases stage_handleTransform env.view w.consumer.session call command with hs | hs
      · exact hs ▸ hdeleted
      · exact hs ▸ hlaws.apply hcall hdeleted
  | @join c =>
    refine h.step (fun _ _ _ => hides_handleJoin c) ?_
    intro p _ hdeleted
    exact stage_handleJoin env.view w.consumer.session c ▸ hdeleted
  | @createPrim command call hcall =>
    refine h.step (fun _ _ _ => hides_handleCreatePrim) ?_
    intro p _ hdeleted
    rcases stage_handleCreatePrim env.view w.consumer.session call command with hs | hs
    · exact hs ▸ hdeleted
    · exact hs ▸ hlaws.create hcall hdeleted
  | setPrimActive hcall => exact h.setPrimActive hlaws hcall
  | @commit commit reload hcommit hreload =>
    refine h.step (fun p hsome _ => hides_handleCommit (hcalm p hsome).1 (hcalm p hsome).2) ?_
    intro p _ hdeleted
    rcases stage_handleCommit env.view w.consumer.session commit reload with hs | hs | hs
    · exact hs ▸ hdeleted
    · exact hs ▸ hlaws.commit hcommit hdeleted
    · exact hs ▸ hlaws.reload hreload (hlaws.commit hcommit hdeleted)
  | @reload call hcall =>
    refine h.step (fun p hsome _ => hides_reloadRootLayer (hcalm p hsome)) ?_
    intro p _ hdeleted
    rcases stage_reloadRootLayer env.view w.consumer.session call with hs | hs
    · exact hs ▸ hdeleted
    · exact hs ▸ hlaws.reload hcall hdeleted
  | @flush save =>
    refine h.step (fun _ _ _ => hides_handleFlush save) ?_
    intro p _ hdeleted
    exact stage_handleFlush env.view w.consumer.session save ▸ hdeleted
  | @correction c q =>
    refine h.step (fun p _ hdeleted => hides_sendCorrection c q (hlaws.hidden hdeleted)) ?_
    intro p _ hdeleted
    have hs : (sendCorrection env.view w.consumer.session c q).stage = w.consumer.session.stage :=
      stage_sendCorrection ..
    exact hs ▸ hdeleted

/-- In every run all of whose steps are calm: since a prim was deleted, and as long as it is, no transform
of it was sent to any client outside the snapshots. -/
theorem silent_of_calm (hlaws : Session.KeepsDeletes env) (h : (calmSystem env).Reachable w) (p : Path)
    (n : Nat) (hp : w.deletedAt p = some n) : Session.Silent p (w.consumer.session.sent.drop n) := by
  have hsilent : SilentSince env.view w.consumer.session w.deletedAt := by
    refine Lts.System.invariant (I := fun w => SilentSince env.view w.consumer.session w.deletedAt) ?_ ?_ h
    · rintro _ ⟨stage, rfl⟩ p n hp
      cases hp
    · rintro w w' - hw ⟨turn, hstep, hcalm⟩
      exact hw.turn hlaws hstep hcalm
  exact (hsilent p n hp).2.2

end Watch

/-! ### A client that moves the prim it has deleted -/

namespace TwoLayerStage

theorem deleted_iff {stage : TwoLayerStage} {p : Nat} :
    Session.Deleted view stage p ↔ p ∈ stage.inactive := by
  unfold Session.Deleted view
  simp only [List.mem_map, Session.mem_pathSet, List.mem_append]
  constructor
  · rintro ⟨_, ⟨q, -, rfl⟩, rfl, hactive⟩
    simpa using hactive
  · intro hp
    exact ⟨_, ⟨p, .inr hp, rfl⟩, rfl, by simp [hp]⟩

theorem mem_inactive_setActive {stage : TwoLayerStage} {p q : Nat} {active : Bool} (hq : q ∈ stage.inactive)
    (h : q = p → active = true → (stage.setActive p active).outcome ≠ .returned .ok) :
    q ∈ (stage.setActive p active).stage.inactive := by
  unfold setActive at h ⊢
  split_ifs with h1 h2 h3
  · exact hq
  · exact hq
  · rw [if_neg h1, if_neg h2] at h
    have hne : q ≠ p := fun heq => h heq h3 rfl
    simpa [h3] using ⟨hq, hne⟩
  · simpa [h3] using .inr hq

theorem keepsDeletes : Session.KeepsDeletes env where
  hidden {stage p} h := by
    rw [show env.view = view from rfl, deleted_iff] at h
    cases hlookup : stage.root.lookup p with
    | none => exact .inr (by simp [env, view, hlookup])
    | some t => exact .inl (by simp [env, view, hlookup, h])
  apply {stage p t call q} hcall h := by
    rw [show call = stage.apply p t from hcall]
    rw [show env.view = view from rfl, deleted_iff] at h ⊢
    unfold TwoLayerStage.apply
    split <;> exact h
  create {stage p type call q} hcall h := by
    rw [show call = ⟨[], stage, .returned none⟩ from hcall]
    exact h
  commit {stage call q} hcall h := by
    rw [show call = ⟨[], stage, .returned false⟩ from hcall]
    exact h
  reload {stage call q} hcall h := by
    obtain ⟨root, rfl⟩ := hcall
    rw [show env.view = view from rfl, deleted_iff] at h ⊢
    exact h
  deletes {stage p call} hcall houtcome := by
    rw [show call = stage.setActive p false from hcall] at houtcome ⊢
    rw [show env.view = view from rfl, deleted_iff]
    unfold TwoLayerStage.setActive at houtcome ⊢
    by_cases h1 : (stage.root.lookup p).isNone = true
    · rw [if_pos h1] at houtcome
      cases houtcome
    by_cases h2 : stage.inactive.contains p = !false
    · rw [if_neg h1, if_pos h2] at houtcome
      cases houtcome
    · rw [if_neg h1, if_neg h2]
      simp
  setActive {stage p active call q} hcall h hnot := by
    rw [show call = stage.setActive p active from hcall] at hnot ⊢
    rw [show env.view = view from rfl, deleted_iff] at h ⊢
    exact mem_inactive_setActive h hnot

end TwoLayerStage

namespace Watch
open TwoLayerStage

/-- Client 1 deletes prim 7 and then moves it: client 2, which was told of the deletion, is sent its
transform. -/
theorem transform_of_deleted : ∃ w : Watch TwoLayerStage Nat Int, (system env).Reachable w ∧
    w.deletedAt 7 = some 3 ∧
    (w.consumer.session.sent.drop 3).head? = some ⟨2, ⟨.xformBroadcast 7 (shift 5), 2⟩, .broadcast⟩ := by
  have h : (system env).Reachable { consumer := { session := { stage := { root := [(7, shift 0)] } } } } :=
    .init ⟨_, rfl⟩
  replace h := h.step ⟨_, .attach (c := 1) (by decide) (by decide)⟩
  replace h := h.step ⟨_, .attach (c := 2) (by decide) (by decide)⟩
  replace h := h.step ⟨.setPrimActive ⟨7, false, 1, 10⟩ _, .setPrimActive rfl⟩
  replace h := h.step ⟨.transform ⟨7, some (shift 5), 1, 11, 1⟩ _, .transform rfl⟩
  exact ⟨_, h, by decide, by decide⟩

/-- An update of another client is stale, so it shows nothing. -/
theorem silent_after_stale_move : ∃ w : Watch TwoLayerStage Nat Int, (calmSystem env).Reachable w ∧
    w.deletedAt 7 = some 3 ∧ w.consumer.session.sent.drop 3 = [⟨2, ⟨.ack 20 (some .stale), 1⟩, .ack⟩] ∧
    Session.Silent 7 (w.consumer.session.sent.drop 3) := by
  have h : (calmSystem env).Reachable { consumer := { session := { stage := { root := [(7, shift 0)] } } } } :=
    .init ⟨_, rfl⟩
  replace h := h.step ⟨_, .attach (c := 1) (by decide) (by decide), trivial⟩
  replace h := h.step ⟨_, .attach (c := 2) (by decide) (by decide), trivial⟩
  replace h := h.step ⟨.setPrimActive ⟨7, false, 1, 10⟩ _, .setPrimActive rfl, trivial⟩
  replace h := h.step ⟨.transform ⟨7, some (shift 5), 2, 20, 0⟩ _, .transform rfl,
    fun hcurrent => absurd hcurrent (by decide)⟩
  exact ⟨_, h, by decide, by decide, silent_of_calm keepsDeletes h 7 3 (by decide)⟩

end Watch
end IdtxCore
