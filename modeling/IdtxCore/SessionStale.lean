import IdtxCore.SessionOrder

/-!
# Stale updates and the state that outdated them

An update is stale because of a version after its base: a change of the prim by someone else, or a
correction of the prim. The versions that `SetPrimActive`, `CreatePrim` and the correction of an
inactive prim make, and changes of a prim that cannot be read, carry no transform. So a client whose
update is stale has been sent a newer transform of the prim if and only if one of the versions that
outdated its base carried one (`newerSent_iff`).

An honest client has received its join snapshot and sends the highest version it received as the
base. It joined once, and no version since then passed it by, because a connection id is not used
again (`JoinInv`).
-/

namespace IdtxCore

namespace Version
variable {Path R : Type}

/-- The version makes updates of `p` stale that client `c` made before it. -/
def Outdates (v : Version Path R) (c : ConnectionId) (p : Path) : Prop :=
  (∃ m, (p, m) ∈ v.prims) ∧
  match v.kind with
  | .transform writer | .prim writer => writer ≠ c
  | .correction connection => connection = c

/-- The version has the transform of `p` to send. -/
def Carries (v : Version Path R) (p : Path) : Prop :=
  ∃ t, (p, some (.xformBroadcast p t)) ∈ v.prims

variable {v : Version Path R} {c : ConnectionId} {p : Path} {t : Transform R}

/-- The transform of `p` goes to a client only from a version that outdates its updates. -/
theorem outdates_of_mem_receivers (hv : v.Proper) (hc : c ∈ v.receivers)
    (hm : .xformBroadcast p t ∈ v.messages) : v.Outdates c p ∧ v.Carries p := by
  obtain ⟨p', hp⟩ := mem_messages.1 hm
  cases hk : v.kind with
  | transform w =>
    obtain ⟨t', heq⟩ := hv.transform w hk p' _ hp
    obtain ⟨rfl, rfl⟩ := Message.xformBroadcast.inj heq
    simp only [receivers, hk, List.mem_filter, decide_eq_true_eq] at hc
    exact ⟨⟨⟨_, hp⟩, by simpa [hk] using Ne.symm hc.2⟩, t, hp⟩
  | prim w =>
    rcases hv.prim w hk p' _ hp with ⟨_, _, _, _, heq⟩ | ⟨_, heq⟩ <;> cases heq
  | correction d =>
    rcases (hv.correction d hk).2 p' _ hp with ⟨t', heq⟩ | heq
    · obtain ⟨rfl, rfl⟩ := Message.xformBroadcast.inj heq
      simp only [receivers, hk, List.mem_singleton] at hc
      exact ⟨⟨⟨_, hp⟩, by simp [hk, hc]⟩, t, hp⟩
    · cases heq

theorem mem_receivers_of_outdates (hc : c ∈ v.attached) (ho : v.Outdates c p) :
    c ∈ v.receivers := by
  unfold Outdates at ho
  unfold receivers
  cases hk : v.kind <;> simp_all [eq_comm]

end Version

namespace Session
variable {σ Path R : Type}

/-- The highest version among the frames a client has received. -/
def highestSeq (frames : List (Frame Path R)) : Nat := (frames.map (·.serverSeq)).foldr max 0

theorem le_highestSeq {frames : List (Frame Path R)} {f : Frame Path R} (h : f ∈ frames) :
    f.serverSeq ≤ highestSeq frames := by
  induction frames with
  | nil => cases h
  | cons g frames ih =>
    rcases List.mem_cons.1 h with rfl | h
    · exact le_max_left _ _
    · exact (ih h).trans (le_max_right _ _)

/-- The client rules: frames arrive in order, no update before `SnapshotComplete`, and the base is
the highest version received. -/
def Honest (s : Session σ Path R) (c : ConnectionId) (base : Nat) : Prop :=
  ∃ received, received <+: s.framesTo c ∧ (∃ q, ⟨.snapshotComplete, q⟩ ∈ received) ∧
    base = highestSeq received

/-- A frame with the transform of the prim, newer than the base, was sent to the client. -/
def NewerSent (s : Session σ Path R) (c : ConnectionId) (p : Path) (base : Nat) : Prop :=
  ∃ t q, base < q ∧ ⟨.xformBroadcast p t, q⟩ ∈ s.framesTo c

theorem mem_framesTo {s : Session σ Path R} {c : ConnectionId} {f : Frame Path R} :
    f ∈ s.framesTo c ↔ ∃ x ∈ s.sent, x.connection = c ∧ x.frame = f := by
  simp [framesTo, and_assoc]

/-- What a sequence of moves adds: Acks and frames of new versions, to attached clients. -/
theorem Moves.added {s s' : Session σ Path R} (h : Moves s s') :
    ∃ xs vs, s'.sent = s.sent ++ xs ∧ s'.log = s.log ++ vs ∧
      (∀ x ∈ xs, x.connection ∈ s.clients ∧ x.frame.message ≠ .snapshotComplete ∧
        (x.isLive = true ∨ ∃ r e, x.cause = .ack ∧ x.frame.message = .ack r e)) ∧
      ∀ v ∈ vs, v.attached = s.clients := by
  induction h with
  | refl => exact ⟨[], [], by simp, by simp, by simp, by simp⟩
  | @tail b s' hb hm ih =>
    obtain ⟨xs, vs, hsent, hlog, hxs, hvs⟩ := ih
    have hclients := Moves.clients hb
    rcases hm with ⟨hsent', hlog', -, -⟩ | ⟨c, r, e, hc, hsent', hlog', -, -⟩ |
      ⟨v, hv, -, hattached, hsent', hlog', -, -⟩
    · exact ⟨xs, vs, hsent'.trans hsent, hlog'.trans hlog, hxs, hvs⟩
    · refine ⟨xs ++ [_], vs, by rw [hsent', hsent, List.append_assoc], hlog'.trans hlog, ?_, hvs⟩
      rw [List.forall_mem_append, List.forall_mem_singleton]
      exact ⟨hxs, hclients ▸ hc, by simp, .inr ⟨r, e, rfl, rfl⟩⟩
    · refine ⟨xs ++ v.sends, vs ++ [v], by rw [hsent', hsent, List.append_assoc],
        by rw [hlog', hlog, List.append_assoc], ?_, ?_⟩
      · rw [List.forall_mem_append]
        refine ⟨hxs, ?_⟩
        intro x hx
        refine ⟨?_, ?_, .inl (Version.isLive_of_mem_sends hx)⟩
        · rw [← hclients, ← hattached]
          exact hv.receivers_attached (Version.mem_sends.1 hx).1
        · exact hv.ne_snapshotComplete (Version.mem_sends.1 hx).2.1
      · rw [List.forall_mem_append, List.forall_mem_singleton]
        exact ⟨hvs, hattached.trans hclients⟩

end Session

namespace Consumer
variable {σ Path R : Type} {a a' : Consumer σ Path R}

/-- `OnOpen` submits one join for a connection. -/
def oneJoin [LinearOrder Path] (env : Session.Env σ Path R) : Lts.System (Consumer σ Path R) :=
  (system env).restrict fun _ a' => a'.joined.Nodup

/-- What a client that has its join snapshot can rely on. -/
structure JoinInv (a : Consumer σ Path R) : Prop where
  inv : Inv a
  sent_opened : ∀ x ∈ a.session.sent, x.connection ∈ a.opened
  snapshot_joined : ∀ x ∈ a.session.sent, x.cause = .snapshot → x.connection ∈ a.joined
  /-- a client gets one snapshot, all of one version -/
  snapshot_seq : ∀ x ∈ a.session.sent, ∀ y ∈ a.session.sent, x.cause = .snapshot →
    y.cause = .snapshot → x.connection = y.connection → x.frame.serverSeq = y.frame.serverSeq
  /-- every version after its snapshot was made while the client was attached -/
  attached_since : ∀ x ∈ a.session.sent, x.cause = .snapshot → x.connection ∈ a.session.clients →
    ∀ v ∈ a.session.log, x.frame.serverSeq < v.seq → x.connection ∈ v.attached
  complete : ∀ x ∈ a.session.sent, x.frame.message = .snapshotComplete → x.cause = .snapshot
  /-- whatever is neither live nor part of a snapshot is an Ack -/
  acks : ∀ x ∈ a.session.sent, x.isLive = false → x.cause ≠ .snapshot →
    ∃ r e, x.frame.message = .ack r e

namespace JoinInv

theorem attach (h : JoinInv a) (hinv : Inv a') {c : ConnectionId} (hc : c ∉ a.opened)
    (ha' : a' = { a with session := a.session.attachClient c, opened := c :: a.opened }) :
    JoinInv a' := by
  subst ha'
  refine ⟨hinv, fun x hx => List.mem_cons_of_mem _ (h.sent_opened x hx), h.snapshot_joined,
    h.snapshot_seq, ?_, h.complete, h.acks⟩
  intro x hx hsnap hmem v hv hlt
  rcases List.mem_append.1 hmem with hmem | hmem
  · exact h.attached_since x hx hsnap hmem v hv hlt
  · -- nothing was sent to a connection before it was attached
    rw [List.mem_singleton] at hmem
    exact absurd (hmem ▸ h.sent_opened x hx) hc

theorem reject (h : JoinInv a) (hinv : Inv a') {c : ConnectionId} {r : Nat} {e : AckError}
    (hc : c ∈ a.session.clients) (ha' : a' = { a with session := a.session.reject c r e }) :
    JoinInv a' := by
  subst ha'
  have hsent : (a.session.reject c r e).sent =
      a.session.sent ++ [⟨c, ⟨.ack r (some e), 0⟩, .rejection⟩] := rfl
  constructor
  · exact hinv
  · rw [hsent, List.forall_mem_append, List.forall_mem_singleton]
    exact ⟨h.sent_opened, (h.inv.clients_opened c hc).1⟩
  · rw [hsent, List.forall_mem_append, List.forall_mem_singleton]
    exact ⟨h.snapshot_joined, by simp⟩
  · simp only [hsent, List.forall_mem_append, List.forall_mem_singleton]
    exact ⟨fun x hx => ⟨h.snapshot_seq x hx, by simp⟩, by simp⟩
  · rw [hsent, List.forall_mem_append, List.forall_mem_singleton]
    exact ⟨h.attached_since, by simp⟩
  · rw [hsent, List.forall_mem_append, List.forall_mem_singleton]
    exact ⟨h.complete, by simp⟩
  · rw [hsent, List.forall_mem_append, List.forall_mem_singleton]
    exact ⟨h.acks, fun _ _ => ⟨r, some e, rfl⟩⟩

theorem moves (h : JoinInv a) (hinv : Inv a') (hm : Session.Moves a.session a'.session)
    (hopened : a'.opened = a.opened) (hjoined : a.joined ⊆ a'.joined) : JoinInv a' := by
  obtain ⟨xs, vs, hsent, hlog, hxs, hvs⟩ := hm.added
  -- what a move adds is no snapshot
  have hne : ∀ x ∈ xs, x.cause ≠ .snapshot := by
    intro x hx hsnap
    rcases (hxs x hx).2.2 with hl | ⟨_, _, hack, _⟩
    · simp [Sent.isLive, hsnap] at hl
    · rw [hsnap] at hack; cases hack
  constructor
  · exact hinv
  · rw [hsent, hopened, List.forall_mem_append]
    exact ⟨h.sent_opened, fun x hx => (h.inv.clients_opened _ (hxs x hx).1).1⟩
  · rw [hsent, List.forall_mem_append]
    exact ⟨fun x hx hsnap => hjoined (h.snapshot_joined x hx hsnap),
      fun x hx hsnap => absurd hsnap (hne x hx)⟩
  · simp only [hsent, List.forall_mem_append]
    refine ⟨fun x hx => ⟨h.snapshot_seq x hx, ?_⟩, fun x hx => ⟨?_, ?_⟩⟩
    · exact fun y hy _ hsnap => absurd hsnap (hne y hy)
    · exact fun y _ hsnap => absurd hsnap (hne x hx)
    · exact fun y _ hsnap => absurd hsnap (hne x hx)
  · rw [hsent, hlog, hm.clients, List.forall_mem_append]
    refine ⟨?_, fun x hx hsnap => absurd hsnap (hne x hx)⟩
    intro x hx hsnap hc
    rw [List.forall_mem_append]
    exact ⟨h.attached_since x hx hsnap hc, fun v hv _ => hvs v hv ▸ hc⟩
  · rw [hsent, List.forall_mem_append]
    exact ⟨h.complete, fun x hx hcomplete => absurd hcomplete (hxs x hx).2.1⟩
  · rw [hsent, List.forall_mem_append]
    refine ⟨h.acks, fun x hx hl _ => ?_⟩
    rcases (hxs x hx).2.2 with hl' | ⟨r, e, _, hmsg⟩
    · rw [hl] at hl'; cases hl'
    · exact ⟨r, e, hmsg⟩

theorem snapshot (h : JoinInv a) (hinv : Inv a') {c : ConnectionId}
    (hs : Session.Snapshot c a.session a'.session) (hopened : a'.opened = a.opened)
    (hjoined : a'.joined = c :: a.joined) (hnodup : a'.joined.Nodup) : JoinInv a' := by
  obtain ⟨messages, hsent⟩ := hs.sent
  have hnew : ∀ x ∈ messages.map (fun m => (⟨c, ⟨m, a.session.serverSeq⟩, .snapshot⟩ : Sent Path R)),
      x.connection = c ∧ x.cause = .snapshot ∧ x.frame.serverSeq = a.session.serverSeq := by
    simp only [List.mem_map]
    rintro _ ⟨m, -, rfl⟩
    exact ⟨rfl, rfl, rfl⟩
  -- the client has joined for the first time
  have hfirst : ∀ x ∈ a.session.sent, x.cause = .snapshot → x.connection ≠ c := by
    rintro x hx hsnap rfl
    rw [hjoined] at hnodup
    exact (List.nodup_cons.1 hnodup).1 (h.snapshot_joined x hx hsnap)
  generalize messages.map (fun m => (⟨c, ⟨m, a.session.serverSeq⟩, .snapshot⟩ : Sent Path R)) = xs
    at hsent hnew
  constructor
  · exact hinv
  · rw [hsent, hopened, List.forall_mem_append]
    exact ⟨h.sent_opened, fun x hx => (hnew x hx).1 ▸ (h.inv.clients_opened c hs.attached).1⟩
  · rw [hsent, hjoined, List.forall_mem_append]
    exact ⟨fun x hx hsnap => List.mem_cons_of_mem _ (h.snapshot_joined x hx hsnap),
      fun x hx _ => (hnew x hx).1 ▸ List.mem_cons_self⟩
  · simp only [hsent, List.forall_mem_append]
    refine ⟨fun x hx => ⟨h.snapshot_seq x hx, ?_⟩, fun x hx => ⟨?_, ?_⟩⟩
    · exact fun y hy hsnap _ heq => absurd (heq.trans (hnew y hy).1) (hfirst x hx hsnap)
    · exact fun y hy _ hsnap heq => absurd (heq.symm.trans (hnew x hx).1) (hfirst y hy hsnap)
    · exact fun y hy _ _ _ => (hnew x hx).2.2.trans (hnew y hy).2.2.symm
  · rw [hsent, hs.log, hs.clients, List.forall_mem_append]
    refine ⟨h.attached_since, fun x hx _ _ v hv hlt => ?_⟩
    rw [(hnew x hx).2.2] at hlt
    exact absurd (h.inv.ordered.log_le v hv) (not_le.2 hlt)
  · rw [hsent, List.forall_mem_append]
    exact ⟨h.complete, fun x hx _ => (hnew x hx).2.1⟩
  · rw [hsent, List.forall_mem_append]
    exact ⟨h.acks, fun x hx _ hne => absurd (hnew x hx).2.1 hne⟩

theorem step [LinearOrder Path] {env : Session.Env σ Path R} (h : JoinInv a) (hs : Step env a a') (hnodup : a'.joined.Nodup) : JoinInv a' := by
  have hinv := h.inv.step hs
  cases hs with
  | attach c h0 hc => exact h.attach hinv hc rfl
  | detach c =>
    exact ⟨hinv, h.sent_opened, h.snapshot_joined, h.snapshot_seq,
      fun x hx hsnap hc => h.attached_since x hx hsnap (List.mem_of_mem_erase hc), h.complete, h.acks⟩
  | reject c r e hc => exact h.reject hinv hc rfl
  | handle command s' hh =>
    rcases hh.moves with hm | ⟨c, rfl, hsnap⟩
    · exact h.moves hinv hm rfl (List.subset_append_right _ _)
    · exact h.snapshot hinv hsnap rfl rfl hnodup

end JoinInv

theorem joinInv_of_reachable [LinearOrder Path] {env : Session.Env σ Path R}
    (h : (oneJoin env).Reachable a) : JoinInv a := by
  refine Lts.System.invariant (I := JoinInv) ?_ ?_ h
  · rintro b ⟨stage, rfl⟩
    have hinit : (Consumer.system env).Reachable { session := { stage := stage } } := .init ⟨stage, rfl⟩
    exact ⟨inv_of_reachable hinit, by simp, by simp, by simp, by simp, by simp, by simp⟩
  · intro b b' _ hinv hs
    exact hinv.step hs.1 hs.2

section Honest
variable {c : ConnectionId} {p : Path} {base : Nat}

/-- The snapshot of an honest client: one of its frames, at most as new as the base. -/
theorem snapshot_of_honest (h : JoinInv a) (hon : a.session.Honest c base) :
    ∃ x ∈ a.session.sent, x.connection = c ∧ x.cause = .snapshot ∧ x.frame.serverSeq ≤ base := by
  obtain ⟨received, hpre, ⟨q, hq⟩, rfl⟩ := hon
  obtain ⟨x, hx, hxc, hxf⟩ := Session.mem_framesTo.1 (hpre.subset hq)
  refine ⟨x, hx, hxc, h.complete x hx (by rw [hxf]), ?_⟩
  rw [hxf]
  exact Session.le_highestSeq hq

/-- A newer transform of the prim was sent exactly if a version that outdates the base carried one. -/
theorem newerSent_iff_of_honest (h : JoinInv a) (hc : c ∈ a.session.clients)
    (hon : a.session.Honest c base) :
    a.session.NewerSent c p base ↔
      ∃ v ∈ a.session.log, base < v.seq ∧ v.Outdates c p ∧ v.Carries p := by
  obtain ⟨y, hy, hyc, hysnap, hyle⟩ := snapshot_of_honest h hon
  have hord := h.inv.ordered
  constructor
  · rintro ⟨t, q, hlt, hmem⟩
    obtain ⟨x, hx, hxc, hxf⟩ := Session.mem_framesTo.1 hmem
    by_cases hsnap : x.cause = .snapshot
    · -- a frame of the snapshot is not newer than the base
      have := h.snapshot_seq x hx y hy hsnap hysnap (hxc.trans hyc.symm)
      rw [hxf] at this
      simp only at this
      omega
    · cases hl : x.isLive with
      | false =>
        obtain ⟨r, e, hack⟩ := h.acks x hx hl hsnap
        rw [hxf] at hack
        cases hack
      | true =>
        obtain ⟨v, hv, hvseq⟩ := hord.versioned x hx hl
        have hsend : x ∈ v.sends := by
          rw [← hord.live v hv, List.mem_filter]
          exact ⟨hx, by simp [hl, hvseq]⟩
        obtain ⟨hrecv, hmsg, -, -⟩ := Version.mem_sends.1 hsend
        rw [hxf] at hvseq hmsg
        exact ⟨v, hv, hvseq ▸ hlt,
          Version.outdates_of_mem_receivers (hord.proper v hv).1 (hxc ▸ hrecv) hmsg⟩
  · rintro ⟨v, hv, hlt, hout, t, ht⟩
    have hattached : c ∈ v.attached := by
      rw [← hyc]
      exact h.attached_since y hy hysnap (hyc ▸ hc) v hv (by omega)
    have hsend : (⟨c, ⟨.xformBroadcast p t, v.seq⟩, v.cause⟩ : Sent Path R) ∈ v.sends :=
      Version.mem_sends.2 ⟨Version.mem_receivers_of_outdates hattached hout,
        Version.mem_messages.2 ⟨p, ht⟩, rfl, rfl⟩
    rw [← hord.live v hv] at hsend
    exact ⟨t, v.seq, hlt, Session.mem_framesTo.2 ⟨_, List.mem_of_mem_filter hsend, rfl, rfl⟩⟩

end Honest

section Acked
variable [LinearOrder Path] {env : Session.Env σ Path R}

/-- An Ack goes to an attached client. -/
theorem attached_of_acked {s s' : Session σ Path R} {command : TransformCommand Path R}
    {x : Sent Path R} (hh : Session.Handles env s (.transform command) s')
    (hx : s'.sent = s.sent ++ [x]) : x.connection ∈ s.clients := by
  rcases hh.moves with hm | ⟨_, heq, _⟩
  · obtain ⟨xs, _, hsent, -, hxs, -⟩ := hm.added
    have hxs' : xs = [x] := List.append_cancel_left (hsent.symm.trans hx)
    exact (hxs x (by simp [hxs'])).1
  · cases heq

/-- For every stale update of an honest client: a newer transform of the prim was sent to the client
before the Ack if and only if one of the versions that outdate the update carried the transform. -/
theorem newerSent_iff {command : TransformCommand Path R} {s' : Session σ Path R} {q : Nat}
    (h : (oneJoin env).Reachable a)
    (hon : a.session.Honest command.origin command.baseSeq)
    (hh : Session.Handles env a.session (.transform command) s')
    (hack : s'.sent = a.session.sent ++
      [⟨command.origin, ⟨.ack command.requestId (some .stale), q⟩, .ack⟩]) :
    a.session.NewerSent command.origin command.primPath command.baseSeq ↔
      ∃ v ∈ a.session.log, command.baseSeq < v.seq ∧
        v.Outdates command.origin command.primPath ∧ v.Carries command.primPath :=
  newerSent_iff_of_honest (joinInv_of_reachable h) (attached_of_acked hh hack) hon

end Acked

open TwoLayerStage in
/-- Client 2 moves a prim that client 1 then moves on base `0`: the newer transform is on its way. -/
theorem newerSent_after_move : ∃ (a : Consumer TwoLayerStage Nat Int) (s' : _),
    let command : TransformCommand Nat Int := ⟨7, some (shift 1), 1, 10, 0⟩
    (oneJoin env).Reachable a ∧ a.session.Honest 1 0 ∧
    Session.Handles env a.session (.transform command) s' ∧
    s'.sent = a.session.sent ++ [⟨1, ⟨.ack 10 (some .stale), 1⟩, .ack⟩] ∧
    a.session.NewerSent 1 7 0 := by
  have h : (oneJoin env).Reachable { session := { stage := { root := [(7, shift 0)] } } } :=
    .init ⟨_, rfl⟩
  replace h := h.step ⟨.attach 1 (by decide) (by decide), by decide⟩
  replace h := h.step ⟨.handle (.join 1) _ .join, by decide⟩
  replace h := h.step ⟨.attach 2 (by decide) (by decide), by decide⟩
  replace h := h.step ⟨.handle (.join 2) _ .join, by decide⟩
  replace h := h.step ⟨.handle (.transform ⟨7, some (shift 2), 2, 20, 0⟩) _ (.transform rfl), by decide⟩
  refine ⟨_, _, h, ⟨[⟨.snapshotComplete, 0⟩], by decide, ⟨0, by decide⟩, by decide⟩, .transform rfl, rfl,
    (@newerSent_iff _ _ _ _ _ _ ⟨7, some (shift 1), 1, 10, 0⟩ _ _ h
      ⟨[⟨.snapshotComplete, 0⟩], by decide, ⟨0, by decide⟩, by decide⟩ (.transform rfl) rfl).2 ?_⟩
  exact ⟨_, List.mem_singleton_self _, by decide, ⟨⟨_, List.mem_singleton_self _⟩, by decide⟩,
    _, List.mem_singleton_self _⟩

open TwoLayerStage in
/-- Client 2 deletes a prim and undoes it while client 1 moves the prim on base `0`: the update is
stale, and client 1, which shows it, was sent no transform at all. -/
theorem stale_without_newer : ∃ (a : Consumer TwoLayerStage Nat Int) (s' : _),
    let command : TransformCommand Nat Int := ⟨7, some (shift 1), 1, 10, 0⟩
    (oneJoin env).Reachable a ∧ a.session.Honest 1 0 ∧
    Session.Handles env a.session (.transform command) s' ∧
    s'.sent = a.session.sent ++ [⟨1, ⟨.ack 10 (some .stale), 2⟩, .ack⟩] ∧
    a.session.framesTo 1 = [⟨.snapshotComplete, 0⟩, ⟨.setPrimActiveBroadcast 7 false, 1⟩,
      ⟨.setPrimActiveBroadcast 7 true, 2⟩] ∧
    ¬ a.session.NewerSent 1 7 0 := by
  have h : (oneJoin env).Reachable { session := { stage := { root := [(7, shift 0)] } } } :=
    .init ⟨_, rfl⟩
  replace h := h.step ⟨.attach 1 (by decide) (by decide), by decide⟩
  replace h := h.step ⟨.handle (.join 1) _ .join, by decide⟩
  replace h := h.step ⟨.attach 2 (by decide) (by decide), by decide⟩
  replace h := h.step ⟨.handle (.join 2) _ .join, by decide⟩
  replace h := h.step ⟨.handle (.setPrimActive ⟨7, false, 2, 20⟩) _ (.setPrimActive rfl), by decide⟩
  replace h := h.step ⟨.handle (.setPrimActive ⟨7, true, 2, 21⟩) _ (.setPrimActive rfl), by decide⟩
  refine ⟨_, _, h, ?_, .transform rfl, rfl, by decide, ?_⟩
  · exact ⟨[⟨.snapshotComplete, 0⟩], by decide, ⟨0, by decide⟩, by decide⟩
  · rintro ⟨t, q, -, hmem⟩
    have hframes : ∀ f ∈ [(⟨.snapshotComplete, 0⟩ : Frame Nat Int),
        ⟨.setPrimActiveBroadcast 7 false, 1⟩, ⟨.setPrimActiveBroadcast 7 true, 2⟩], ∀ t q, f ≠ ⟨.xformBroadcast 7 t, q⟩ := by simp
    exact hframes _ hmem t q rfl

end Consumer
end IdtxCore
