import Mathlib.Data.List.ProdSigma
import IdtxCore.Lib.Lts
import IdtxCore.Session

/-!
# One authoritative order

Whatever a handler does, it does in three kinds of moves (`Move`): it changes nothing a client can
see, it sends frames of the current version to one client, or it makes a new version and sends that
version's frames. So every frame carries the version current when it is sent, and one version is one
entry of the log; `Ordered` is what follows for every run of commands, attaches and detaches.
-/

namespace IdtxCore

/-- A frame of a version, as opposed to an Ack or a snapshot. -/
def Sent.isLive {Path R : Type} (x : Sent Path R) : Bool :=
  x.cause = .broadcast || x.cause = .correction

namespace Version
variable {Path R : Type}

/-- The clients a version is due to: a stage change is not echoed to its writer, a correction goes
to one client. -/
def receivers (v : Version Path R) : List ConnectionId :=
  match v.kind with
  | .transform writer => v.attached.filter (· ≠ writer)
  | .prim _ => v.attached
  | .correction connection => [connection]

def cause (v : Version Path R) : Cause :=
  match v.kind with
  | .transform _ | .prim _ => .broadcast
  | .correction _ => .correction

def messages (v : Version Path R) : List (Message Path R) := v.prims.filterMap Prod.snd

/-- The frames of a version in the order they are sent: prim by prim, client by client. -/
def sends (v : Version Path R) : List (Sent Path R) :=
  (v.messages ×ˢ v.receivers).map fun x => ⟨x.2, ⟨x.1, v.seq⟩, v.cause⟩

/-- What the handlers guarantee of the versions they make. -/
structure Proper (v : Version Path R) : Prop where
  messages_nodup : v.messages.Nodup
  /-- a stage change carries the transforms of its prims -/
  transform : ∀ w, v.kind = .transform w → ∀ p m, (p, some m) ∈ v.prims →
    ∃ t, m = .xformBroadcast p t
  /-- a prim is created, activated or deactivated -/
  prim : ∀ w, v.kind = .prim w → ∀ p m, (p, some m) ∈ v.prims →
    (∃ q name type attributes, m = .createPrimBroadcast q name type attributes) ∨
      ∃ active, m = .setPrimActiveBroadcast p active
  /-- a correction goes to an attached client, with the transform or the deactivation of its prim -/
  correction : ∀ c, v.kind = .correction c → c ∈ v.attached ∧ ∀ p m, (p, some m) ∈ v.prims →
    (∃ t, m = .xformBroadcast p t) ∨ m = .setPrimActiveBroadcast p false

variable {v : Version Path R}

theorem mem_messages {m : Message Path R} : m ∈ v.messages ↔ ∃ p, (p, some m) ∈ v.prims := by
  simp [messages]

theorem mem_sends {x : Sent Path R} : x ∈ v.sends ↔
    x.connection ∈ v.receivers ∧ x.frame.message ∈ v.messages ∧ x.frame.serverSeq = v.seq ∧
      x.cause = v.cause := by
  obtain ⟨c, ⟨m, q⟩, k⟩ := x
  simp only [sends, List.mem_map, Prod.exists, Sent.mk.injEq, Frame.mk.injEq]
  constructor
  · rintro ⟨m', c', h, rfl, ⟨rfl, rfl⟩, rfl⟩
    obtain ⟨hm, hc⟩ := List.pair_mem_product.1 h
    exact ⟨hc, hm, rfl, rfl⟩
  · rintro ⟨hc, hm, rfl, rfl⟩
    exact ⟨m, c, List.pair_mem_product.2 ⟨hm, hc⟩, rfl, ⟨rfl, rfl⟩, rfl⟩

theorem isLive_of_mem_sends {x : Sent Path R} (h : x ∈ v.sends) : x.isLive = true := by
  rw [Sent.isLive, (mem_sends.1 h).2.2.2]
  unfold cause
  split <;> rfl

theorem Proper.receivers_attached (hv : v.Proper) {c : ConnectionId} (hc : c ∈ v.receivers) :
    c ∈ v.attached := by
  unfold receivers at hc
  cases hk : v.kind with
  | transform w =>
    rw [hk] at hc
    exact List.mem_of_mem_filter hc
  | prim w =>
    rw [hk] at hc
    exact hc
  | correction d =>
    rw [hk] at hc
    rw [List.mem_singleton.1 hc]
    exact (hv.correction d hk).1

theorem Proper.ne_snapshotComplete (hv : v.Proper) {m : Message Path R} (hm : m ∈ v.messages) :
    m ≠ .snapshotComplete := by
  obtain ⟨p, hp⟩ := mem_messages.1 hm
  rintro rfl
  cases hk : v.kind with
  | transform w =>
    obtain ⟨t, heq⟩ := hv.transform w hk p _ hp
    cases heq
  | prim w =>
    rcases hv.prim w hk p _ hp with ⟨_, _, _, _, heq⟩ | ⟨_, heq⟩ <;> cases heq
  | correction d =>
    rcases (hv.correction d hk).2 p _ hp with ⟨_, heq⟩ | heq <;> cases heq

theorem receivers_nodup (h : v.attached.Nodup) : v.receivers.Nodup := by
  unfold receivers
  split
  · exact h.filter _
  · exact h
  · exact List.nodup_singleton _

theorem sends_nodup (hv : v.Proper) (h : v.attached.Nodup) : v.sends.Nodup := by
  refine (hv.messages_nodup.product (receivers_nodup h)).map ?_
  rintro ⟨m, c⟩ ⟨m', c'⟩ heq
  simp only [Sent.mk.injEq, Frame.mk.injEq] at heq
  rw [heq.1, heq.2.1.1]

end Version

namespace Session
variable {σ Path R : Type}

/-! ### Moves -/

/-- What a handler other than the join's can do to the frames and the versions, one move at a time. -/
inductive Move (s s' : Session σ Path R) : Prop where
  /-- nothing a client can see -/
  | quiet : s'.sent = s.sent → s'.log = s.log → s'.serverSeq = s.serverSeq →
      s'.clients = s.clients → Move s s'
  /-- an Ack of the current version -/
  | ack (c : ConnectionId) (requestId : Nat) (error : Option AckError) : c ∈ s.clients →
      s'.sent = s.sent ++ [⟨c, ⟨.ack requestId error, s.serverSeq⟩, .ack⟩] → s'.log = s.log →
      s'.serverSeq = s.serverSeq → s'.clients = s.clients → Move s s'
  /-- a new version and its frames -/
  | version (v : Version Path R) :
      v.Proper → v.seq = s.serverSeq + 1 → v.attached = s.clients →
      s'.sent = s.sent ++ v.sends → s'.log = s.log ++ [v] → s'.serverSeq = v.seq →
      s'.clients = s.clients → Move s s'

abbrev Moves : Session σ Path R → Session σ Path R → Prop := Relation.ReflTransGen Move

/-- A join snapshot sent to an attached client: frames of the current version. -/
structure Snapshot (c : ConnectionId) (s s' : Session σ Path R) : Prop where
  attached : c ∈ s.clients
  sent : ∃ messages : List (Message Path R),
    s'.sent = s.sent ++ messages.map (⟨c, ⟨·, s.serverSeq⟩, .snapshot⟩)
  log : s'.log = s.log
  serverSeq : s'.serverSeq = s.serverSeq
  clients : s'.clients = s.clients

theorem Moves.clients {s s' : Session σ Path R} (h : Moves s s') : s'.clients = s.clients := by
  induction h with
  | refl => rfl
  | tail _ hm ih =>
    rcases hm with ⟨_, _, _, h⟩ | ⟨_, _, _, _, _, _, _, h⟩ | ⟨_, _, _, _, _, _, _, h⟩ <;>
      exact h.trans ih

section Handlers
variable [LinearOrder Path] {view : StageView σ Path R} {s s' : Session σ Path R}

omit [LinearOrder Path] in
theorem move_setDirty (s : Session σ Path R) (dirty : Bool) : Move s { s with dirty := dirty } :=
  .quiet rfl rfl rfl rfl

theorem pathSet_nodup (paths : List Path) : (pathSet paths).Nodup :=
  (List.perm_insertionSort _ _).nodup_iff.2 (List.nodup_dedup paths)

theorem mem_pathSet {paths : List Path} {p : Path} : p ∈ pathSet paths ↔ p ∈ paths := by
  rw [pathSet, List.mem_insertionSort, List.mem_dedup]

/-- The version a notice makes: the prims with their transforms, as the stage has them now. -/
def noticeVersion (view : StageView σ Path R) (writer : ConnectionId) (prims : List Path)
    (s : Session σ Path R) : Version Path R where
  seq := s.serverSeq + 1
  kind := .transform writer
  attached := s.clients
  prims := prims.map fun p => (p, (view.readResolvedTransform s.stage p).map (.xformBroadcast p))

omit [LinearOrder Path] in
theorem messages_noticeVersion (writer : ConnectionId) (prims : List Path) (s : Session σ Path R) :
    (s.noticeVersion view writer prims).messages = prims.filterMap fun p =>
      (view.readResolvedTransform s.stage p).map (.xformBroadcast p) := by
  rw [Version.messages, noticeVersion, List.filterMap_map]
  rfl

/-- The bookkeeping of one announced prim. -/
def recordAnnounced (view : StageView σ Path R) (stage : σ) (clients : List ConnectionId)
    (writer : ConnectionId) (seq : Nat) (versions : SessionVersions Path) (p : Path) :
    SessionVersions Path :=
  let versions := versions.recordChange p seq writer
  if (view.readResolvedTransform stage p).isSome then
    (clients.filter (· ≠ writer)).foldl (·.recordSent · seq) versions
  else versions

/-- Announcing prims touches only the frames and the bookkeeping. -/
theorem foldl_announcePrim (writer : ConnectionId) (seq : Nat) (prims : List Path)
    (s : Session σ Path R) :
    prims.foldl (announcePrim view writer seq) s = { s with
      versions := prims.foldl (recordAnnounced view s.stage s.clients writer seq) s.versions
      sent := s.sent ++ (prims.filterMap (fun p =>
          (view.readResolvedTransform s.stage p).map (.xformBroadcast p)) ×ˢ
        s.clients.filter (· ≠ writer)).map fun x => ⟨x.2, ⟨x.1, seq⟩, .broadcast⟩ } := by
  induction prims generalizing s with
  | nil => simp
  | cons p prims ih =>
    rw [List.foldl_cons, ih]
    cases hp : view.readResolvedTransform s.stage p <;>
      simp [announcePrim, recordAnnounced, broadcastResolvedTransform, sendAll, hp, List.product_cons,
        Function.comp_def]

/-- A notice makes one version and sends that version's frames. -/
theorem announce_eq (writer : ConnectionId) (prims : List Path) (s : Session σ Path R) :
    s.announce view writer prims = { s with
      serverSeq := s.serverSeq + 1
      versions := prims.foldl
        (recordAnnounced view s.stage s.clients writer (s.serverSeq + 1)) s.versions
      sent := s.sent ++ (s.noticeVersion view writer prims).sends
      log := s.log ++ [s.noticeVersion view writer prims] } := by
  rw [announce, foldl_announcePrim, Version.sends, messages_noticeVersion]
  rfl

omit [LinearOrder Path] in
theorem proper_noticeVersion (writer : ConnectionId) {prims : List Path} (hnd : prims.Nodup)
    (s : Session σ Path R) : (s.noticeVersion view writer prims).Proper := by
  constructor
  · rw [messages_noticeVersion]
    refine hnd.filterMap ?_
    intro p p' m hm hm'
    simp only [Option.mem_def, Option.map_eq_some_iff] at hm hm'
    obtain ⟨t, -, rfl⟩ := hm
    obtain ⟨t', -, heq⟩ := hm'
    exact (Message.xformBroadcast.inj heq).1.symm
  · intro w _ p m hm
    simp only [noticeVersion, List.mem_map, Prod.mk.injEq, Option.map_eq_some_iff] at hm
    obtain ⟨p', -, rfl, t, -, rfl⟩ := hm
    exact ⟨t, rfl⟩
  · simp [noticeVersion]
  · simp [noticeVersion]

theorem move_announce (writer : ConnectionId) {prims : List Path} (hnd : prims.Nodup) :
    Move s (s.announce view writer prims) := by
  rw [announce_eq]
  exact .version _ (proper_noticeVersion writer hnd s) rfl rfl rfl rfl rfl rfl

theorem moves_onObjectsChanged (flags : NoticeFlags) (s : Session σ Path R)
    (notice : ObjectsChanged Path) : Moves s (onObjectsChanged view flags s notice) := by
  unfold onObjectsChanged
  split_ifs
  · exact .refl
  · exact .refl
  · exact .refl
  · exact .single (move_announce _ ((pathSet_nodup _).filter _))
  · exact .refl
  · exact .single (move_announce _ (pathSet_nodup _))

variable (view) in
theorem moves_author {α : Type} (flags : NoticeFlags) (call : Call σ Path α)
    (s : Session σ Path R) : Moves s (s.author view flags call) := by
  refine author_induction (motive := Moves s) ?_ ?_ .refl
  · intro s' stage h
    exact h.tail (.quiet rfl rfl rfl rfl)
  · intro n _ s' _ h
    exact h.trans (moves_onObjectsChanged flags s' n.2)

omit [LinearOrder Path] in
theorem moves_sendAck (s : Session σ Path R) (c : ConnectionId) (r : Nat) (e : Option AckError) :
    Moves s (s.sendAck c r e) := by
  unfold sendAck sendToConnection
  split_ifs with hc
  · exact .single (.ack c r e hc.2 rfl rfl rfl rfl)
  · exact .refl

omit [LinearOrder Path] in
theorem correctionMessage_cases {stage : σ} {p : Path} {m : Message Path R}
    (h : correctionMessage view stage p = some m) :
    (∃ t, m = .xformBroadcast p t) ∨ m = .setPrimActiveBroadcast p false := by
  unfold correctionMessage at h
  split_ifs at h
  · exact .inr (Option.some.inj h).symm
  · obtain ⟨t, -, rfl⟩ := Option.map_eq_some_iff.1 h
    exact .inl ⟨t, rfl⟩

theorem moves_sendCorrection (s : Session σ Path R) (c : ConnectionId) (p : Path) :
    Moves s (sendCorrection view s c p) := by
  unfold sendCorrection
  by_cases h0 : view.isNull s.stage = true ∨ c = 0
  · rw [if_pos h0]
  · rw [if_neg h0]
    cases hm : correctionMessage view s.stage p with
    | none => exact .refl
    | some m =>
      by_cases hc : c ∈ s.clients
      all_goals simp only [hc, if_true, if_false]
      · refine .single (.version ⟨s.serverSeq + 1, .correction c, s.clients, [(p, some m)]⟩
          ?_ rfl rfl rfl rfl rfl rfl)
        constructor
        · simp [Version.messages]
        · simp
        · simp
        · simp only [VersionKind.correction.injEq, List.mem_singleton, Prod.mk.injEq,
            Option.some.injEq]
          rintro _ rfl
          refine ⟨hc, ?_⟩
          rintro _ _ ⟨rfl, rfl⟩
          exact correctionMessage_cases hm
      · exact .refl

theorem move_announceToAll (s : Session σ Path R) (w : ConnectionId) {p : Path}
    {m : Message Path R}
    (hm : (∃ q name type attributes, m = .createPrimBroadcast q name type attributes) ∨
      ∃ active, m = .setPrimActiveBroadcast p active) : Move s (s.announceToAll w p m) := by
  refine .version ⟨s.serverSeq + 1, .prim w, s.clients, [(p, some m)]⟩ ?_ rfl rfl ?_ rfl rfl rfl
  · constructor
    · simp [Version.messages]
    · simp
    · simp only [List.mem_singleton, Prod.mk.injEq, Option.some.injEq]
      rintro _ _ _ _ ⟨rfl, rfl⟩
      exact hm
    · simp
  · simp [announceToAll, broadcastToAll, sendAll, Version.sends, Version.messages, Version.receivers,
      Version.cause]

theorem moves_handleTransform (call : Call σ Path Bool) (command : TransformCommand Path R)
    (s : Session σ Path R) : Moves s (s.handleTransform view call command) := by
  unfold handleTransform
  split
  · exact moves_sendAck ..
  · exact moves_sendAck ..
  · refine (moves_author view { currentOrigin := command.origin } call s).trans ?_
    split
    · exact .head (move_setDirty _ true) (moves_sendAck ..)
    · exact (moves_sendAck ..).trans (moves_sendCorrection ..)

theorem moves_reloadRootLayer (call : Call σ Path Bool) (s : Session σ Path R) :
    Moves s (s.reloadRootLayer view call) := by
  unfold reloadRootLayer
  split_ifs
  · exact .refl
  · exact moves_author view _ call s

/-- Every handler is a sequence of moves, or a snapshot sent to a joining client. -/
theorem Handles.moves {env : Env σ Path R} {command : SessionCommand Path R}
    (h : Handles env s command s') : Moves s s' ∨ ∃ c, command = .join c ∧ Snapshot c s s' := by
  by_cases hjoin : ∃ c, command = .join c
  · obtain ⟨c, rfl⟩ := hjoin
    cases h
    unfold handleJoin sendToConnection
    split_ifs with hnull hc
    · exact .inl .refl
    · exact .inr ⟨c, rfl, hc.2, ⟨_, rfl⟩, rfl, rfl, rfl⟩
    · exact .inl .refl
  left
  cases h with
  | transform => exact moves_handleTransform ..
  | join => exact absurd ⟨_, rfl⟩ hjoin
  | @createPrim command call =>
    unfold handleCreatePrim
    split_ifs
    · exact moves_sendAck ..
    · refine (moves_author env.view { currentOrigin := command.origin, createInProgress := true } call s).trans ?_
      split
      · exact .head (move_announceToAll _ _ (.inl ⟨_, _, _, _, rfl⟩)) (moves_sendAck ..)
      · exact moves_sendAck ..
  | @setPrimActive command call =>
    unfold handleSetPrimActive
    split_ifs
    · exact moves_sendAck ..
    · refine (moves_author env.view { currentOrigin := command.origin, setActiveInProgress := true } call s).trans ?_
      split
      case h_7 => exact .head (move_announceToAll _ _ (.inr ⟨_, rfl⟩)) (moves_sendAck ..)
      all_goals exact moves_sendAck ..
  | @commit commit reload =>
    unfold handleCommit
    split_ifs
    · exact .refl
    · exact .refl
    · refine (moves_author env.view {} commit s).trans ?_
      split
      · exact .head (move_setDirty _ false) (moves_reloadRootLayer ..)
      · exact .refl
  | reload => exact moves_reloadRootLayer ..
  | flush =>
    unfold handleFlush
    split_ifs
    · exact .refl
    · exact .refl
    · exact .single (.quiet rfl rfl rfl rfl)
  | correction => exact moves_sendCorrection ..

theorem Handles.clients {env : Env σ Path R} {command : SessionCommand Path R}
    (h : Handles env s command s') : s'.clients = s.clients := by
  rcases h.moves with hm | ⟨c, -, hs⟩
  · exact hm.clients
  · exact hs.clients

end Handlers

/-! ### Order -/

/-- What every run of commands, attaches and detaches keeps. -/
structure Ordered (s : Session σ Path R) : Prop where
  clients_nodup : s.clients.Nodup
  sent_le : ∀ x ∈ s.sent, x.frame.serverSeq ≤ s.serverSeq
  /-- whichever clients they go to, frames are sent in the order of their versions -/
  sent_sorted : (s.sent.filter (·.frame.serverSeq ≠ 0)).Pairwise
    (fun x y => x.frame.serverSeq ≤ y.frame.serverSeq)
  log_le : ∀ v ∈ s.log, v.seq ≤ s.serverSeq
  log_sorted : s.log.Pairwise (fun v w => v.seq < w.seq)
  proper : ∀ v ∈ s.log, v.Proper ∧ v.attached.Nodup
  /-- the frames of a version are those it had to send -/
  live : ∀ v ∈ s.log, s.sent.filter (fun x => x.isLive && x.frame.serverSeq = v.seq) = v.sends
  /-- and there are no others -/
  versioned : ∀ x ∈ s.sent, x.isLive = true → ∃ v ∈ s.log, v.seq = x.frame.serverSeq

namespace Ordered
variable {s s' : Session σ Path R}

/-- Frames of the current or of a new version keep the order. -/
theorem sent_sorted_append (h : Ordered s) {q : Nat} {xs : List (Sent Path R)}
    (hxs : ∀ x ∈ xs, x.frame.serverSeq = q) (hq : s.serverSeq ≤ q) :
    ((s.sent ++ xs).filter (·.frame.serverSeq ≠ 0)).Pairwise
      (fun x y => x.frame.serverSeq ≤ y.frame.serverSeq) := by
  rw [List.filter_append, List.pairwise_append]
  refine ⟨h.sent_sorted, ?_, ?_⟩
  · refine List.pairwise_of_forall_mem_list ?_
    intro x hx y hy
    rw [hxs x (List.mem_of_mem_filter hx), hxs y (List.mem_of_mem_filter hy)]
  · intro x hx y hy
    have := h.sent_le x (List.mem_of_mem_filter hx)
    have := hxs y (List.mem_of_mem_filter hy)
    omega

/-- Frames of the current version that belong to no version of their own. -/
theorem reply (h : Ordered s) {xs : List (Sent Path R)}
    (hnew : ∀ x ∈ xs, x.frame.serverSeq = s.serverSeq ∧ x.isLive = false)
    (hsent : s'.sent = s.sent ++ xs) (hlog : s'.log = s.log) (hseq : s'.serverSeq = s.serverSeq) (hclients : s'.clients = s.clients) :
    Ordered s' := by
  constructor
  · rw [hclients]; exact h.clients_nodup
  · rw [hsent, hseq]
    intro x hx
    rcases List.mem_append.1 hx with hx | hx
    · exact h.sent_le x hx
    · exact (hnew x hx).1.le
  · rw [hsent]
    exact h.sent_sorted_append (fun x hx => (hnew x hx).1) le_rfl
  · rw [hlog, hseq]; exact h.log_le
  · rw [hlog]; exact h.log_sorted
  · rw [hlog]; exact h.proper
  · rw [hlog, hsent]
    intro v hv
    rw [List.filter_append, h.live v hv, List.append_right_eq_self, List.filter_eq_nil_iff]
    intro x hx
    simp [(hnew x hx).2]
  · rw [hlog, hsent]
    intro x hx hl
    rcases List.mem_append.1 hx with hx | hx
    · exact h.versioned x hx hl
    · rw [(hnew x hx).2] at hl; cases hl

theorem version (h : Ordered s) {v : Version Path R} (hv : v.Proper)
    (hvseq : v.seq = s.serverSeq + 1) (hattached : v.attached = s.clients)
    (hsent : s'.sent = s.sent ++ v.sends) (hlog : s'.log = s.log ++ [v])
    (hseq : s'.serverSeq = v.seq) (hclients : s'.clients = s.clients) : Ordered s' := by
  have hnew : ∀ x ∈ v.sends, x.frame.serverSeq = v.seq := fun x hx => (Version.mem_sends.1 hx).2.2.1
  constructor
  · rw [hclients]; exact h.clients_nodup
  · rw [hsent, hseq]
    intro x hx
    rcases List.mem_append.1 hx with hx | hx
    · have := h.sent_le x hx; omega
    · exact (hnew x hx).le
  · rw [hsent]
    exact h.sent_sorted_append hnew (by omega)
  · rw [hlog, hseq]
    intro w hw
    rcases List.mem_append.1 hw with hw | hw
    · have := h.log_le w hw; omega
    · rw [List.mem_singleton.1 hw]
  · rw [hlog, List.pairwise_append]
    refine ⟨h.log_sorted, List.pairwise_singleton _ _, ?_⟩
    intro w hw w' hw'
    rw [List.mem_singleton.1 hw']
    have := h.log_le w hw
    omega
  · rw [hlog]
    intro w hw
    rcases List.mem_append.1 hw with hw | hw
    · exact h.proper w hw
    · rw [List.mem_singleton.1 hw]
      exact ⟨hv, hattached ▸ h.clients_nodup⟩
  · rw [hlog, hsent]
    intro w hw
    rw [List.filter_append]
    rcases List.mem_append.1 hw with hw | hw
    · have hlt := h.log_le w hw
      rw [h.live w hw, List.append_right_eq_self, List.filter_eq_nil_iff]
      intro x hx
      have := hnew x hx
      simp only [Bool.and_eq_true, decide_eq_true_eq, not_and]
      omega
    · rw [List.mem_singleton.1 hw]
      have hold : s.sent.filter (fun x => x.isLive && x.frame.serverSeq = v.seq) = [] := by
        rw [List.filter_eq_nil_iff]
        intro x hx
        have := h.sent_le x hx
        simp only [Bool.and_eq_true, decide_eq_true_eq, not_and]
        omega
      rw [hold, List.nil_append, List.filter_eq_self]
      intro x hx
      simp [hnew x hx, Version.isLive_of_mem_sends hx]
  · rw [hlog, hsent]
    intro x hx hl
    rcases List.mem_append.1 hx with hx | hx
    · obtain ⟨w, hw, hwx⟩ := h.versioned x hx hl
      exact ⟨w, List.mem_append_left _ hw, hwx⟩
    · exact ⟨v, by simp, (hnew x hx).symm⟩

theorem move (h : Ordered s) (hm : Move s s') : Ordered s' := by
  rcases hm with ⟨hsent, hlog, hseq, hclients⟩ | ⟨c, r, e, hc, hsent, hlog, hseq, hclients⟩ |
    ⟨v, hv, hvseq, hattached, hsent, hlog, hseq, hclients⟩
  · exact ⟨hclients ▸ h.clients_nodup, hsent ▸ hseq ▸ h.sent_le, hsent ▸ h.sent_sorted,
      hlog ▸ hseq ▸ h.log_le, hlog ▸ h.log_sorted, hlog ▸ h.proper, hlog ▸ hsent ▸ h.live,
      hlog ▸ hsent ▸ h.versioned⟩
  · exact h.reply (by simp [Sent.isLive]) hsent hlog hseq hclients
  · exact h.version hv hvseq hattached hsent hlog hseq hclients

theorem moves (h : Ordered s) (hm : Moves s s') : Ordered s' := by
  induction hm with
  | refl => exact h
  | tail _ hm ih => exact ih.move hm

theorem snapshot (h : Ordered s) {c : ConnectionId} (hs : Snapshot c s s') : Ordered s' := by
  obtain ⟨messages, hsent⟩ := hs.sent
  refine h.reply ?_ hsent hs.log hs.serverSeq hs.clients
  simp [Sent.isLive]

theorem attachClient (h : Ordered s) {c : ConnectionId} (hc : c ∉ s.clients) :
    Ordered (s.attachClient c) := by
  have hnodup : (s.clients ++ [c]).Nodup := by
    refine List.nodup_append.2 ⟨h.clients_nodup, List.nodup_singleton c, ?_⟩
    rintro x hx y hy rfl
    exact hc (List.mem_singleton.1 hy ▸ hx)
  exact { h with clients_nodup := hnodup }

theorem detachClient (h : Ordered s) (c : ConnectionId) : Ordered (s.detachClient c) :=
  { h with clients_nodup := h.clients_nodup.erase c }

/-- The Ack of a rejected request has version `0` and belongs to no version. -/
theorem reject (h : Ordered s) (c : ConnectionId) (r : Nat) (e : AckError) :
    Ordered (s.reject c r e) where
  clients_nodup := h.clients_nodup
  sent_le := by
    intro x hx
    rcases List.mem_append.1 hx with hx | hx
    · exact h.sent_le x hx
    · rw [List.mem_singleton.1 hx]; exact Nat.zero_le _
  sent_sorted := by simpa [Session.reject, List.filter_append] using h.sent_sorted
  log_le := h.log_le
  log_sorted := h.log_sorted
  proper := h.proper
  live v hv := by
    have hlive := h.live v hv
    rw [Session.reject, List.filter_append, hlive]
    simp [Sent.isLive]
  versioned := by
    intro x hx hl
    rcases List.mem_append.1 hx with hx | hx
    · exact h.versioned x hx hl
    · rw [List.mem_singleton.1 hx] at hl; cases hl

end Ordered
end Session

/-! ### Runs -/

/-- The session with the connections that were ever attached and the joins it has handled. -/
structure Consumer (σ Path R : Type) where
  session : Session σ Path R
  opened : List ConnectionId := []
  joined : List ConnectionId := []

namespace Consumer
variable {σ Path R : Type} [LinearOrder Path]

/-- The connection of a join. -/
def joins : SessionCommand Path R → List ConnectionId
  | .join connection => [connection]
  | _ => []

/-- Commands one at a time; clients attach, detach and are answered by `OnMessage` in between.
Connection ids are never used twice. -/
inductive Step (env : Session.Env σ Path R) (a : Consumer σ Path R) : Consumer σ Path R → Prop where
  | attach (c : ConnectionId) : c ≠ 0 → c ∉ a.opened →
      Step env a { a with session := a.session.attachClient c, opened := c :: a.opened }
  | detach (c : ConnectionId) : Step env a { a with session := a.session.detachClient c }
  | reject (c : ConnectionId) (requestId : Nat) (error : AckError) : c ∈ a.session.clients →
      Step env a { a with session := a.session.reject c requestId error }
  | handle (command : SessionCommand Path R) (s' : Session σ Path R) :
      Session.Handles env a.session command s' →
      Step env a { a with session := s', joined := joins command ++ a.joined }

/-- A session before its first client, over any stage. -/
def system (env : Session.Env σ Path R) : Lts.System (Consumer σ Path R) where
  init a := ∃ stage, a = { session := { stage := stage } }
  step := Step env

variable {env : Session.Env σ Path R} {a a' : Consumer σ Path R}

/-- The frames and clients of a run, with the connection ids seen so far. -/
structure Inv (a : Consumer σ Path R) : Prop where
  ordered : a.session.Ordered
  clients_opened : ∀ c ∈ a.session.clients, c ∈ a.opened ∧ c ≠ 0

theorem Inv.step (h : Inv a) (hs : Step env a a') : Inv a' := by
  cases hs with
  | attach c h0 hc =>
    refine ⟨h.ordered.attachClient fun hmem => hc (h.clients_opened c hmem).1, ?_⟩
    intro d hd
    rcases List.mem_append.1 hd with hd | hd
    · exact ⟨List.mem_cons_of_mem _ (h.clients_opened d hd).1, (h.clients_opened d hd).2⟩
    · rw [List.mem_singleton.1 hd]
      exact ⟨List.mem_cons_self, h0⟩
  | detach c =>
    exact ⟨h.ordered.detachClient c, fun d hd => h.clients_opened d (List.mem_of_mem_erase hd)⟩
  | reject c r e => exact ⟨h.ordered.reject c r e, h.clients_opened⟩
  | handle command s' hh =>
    refine ⟨?_, hh.clients ▸ h.clients_opened⟩
    rcases hh.moves with hm | ⟨c, -, hs⟩
    · exact h.ordered.moves hm
    · exact h.ordered.snapshot hs

theorem inv_of_reachable (h : (system env).Reachable a) : Inv a := by
  refine Lts.System.invariant ?_ (fun _ _ _ hinv hs => hinv.step hs) h
  rintro _ ⟨stage, rfl⟩
  exact ⟨⟨List.nodup_nil, by simp, by simp, by simp, by simp, by simp, by simp, by simp⟩, by simp⟩

omit [LinearOrder Path] in
theorem monotone_of_ordered {s : Session σ Path R} (h : s.Ordered) (c : ConnectionId) :
    (((s.framesTo c).map (·.serverSeq)).filter (· ≠ 0)).Pairwise (· ≤ ·) := by
  have hsub : ((s.sent.filter (·.connection = c)).filter (·.frame.serverSeq ≠ 0)).Pairwise
      (fun x y => x.frame.serverSeq ≤ y.frame.serverSeq) :=
    h.sent_sorted.sublist (List.filter_sublist.filter _)
  rw [Session.framesTo, List.map_map, List.filter_map, List.pairwise_map]
  exact hsub

end Consumer
end IdtxCore
