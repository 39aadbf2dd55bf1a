import IdtxCore.ServerAcks
import IdtxCore.SessionNews
import IdtxCore.SessionStale

/-!
# The bookkeeping and the frames

Frames are sent from five places, each with a `RecordSent` or `RecordCorrection` of its own. `Booked` says
that together they keep the books right: the highest version recorded for a connection is the highest one it
was sent, and no change or correction has a version that does not exist yet. So a client that takes the
version of a frame it received as its base is never told that the base is invalid. The handshake of a
connection and the Ack of a rejected request carry version 0 and are not recorded.
-/

namespace IdtxCore

namespace SessionVersions
variable {Path : Type}

/-- No recorded version is higher than `n`, and no correction is higher than what was sent. -/
structure Bounded (v : SessionVersions Path) (n : Nat) : Prop where
  changes : ∀ p prim, v.prims p = some prim → prim.lastChangeSeq ≤ n ∧ prim.foreignBeforeRun ≤ n
  corrections : ∀ c conn, v.connections c = some conn → ∀ p q, conn.correctionSeq p = some q →
    q ≤ conn.maxSentSeq ∧ q ≤ n

namespace Bounded
variable {v : SessionVersions Path} {n m : Nat}

theorem mono (h : v.Bounded n) (hle : n ≤ m) : v.Bounded m where
  changes p prim hp := ⟨(h.changes p prim hp).1.trans hle, (h.changes p prim hp).2.trans hle⟩
  corrections c conn hc p q hq :=
    ⟨(h.corrections c conn hc p q hq).1, (h.corrections c conn hc p q hq).2.trans hle⟩

theorem prim (h : v.Bounded n) (p : Path) :
    ((v.prims p).getD {}).lastChangeSeq ≤ n ∧ ((v.prims p).getD {}).foreignBeforeRun ≤ n := by
  cases hp : v.prims p with
  | none => exact ⟨Nat.zero_le _, Nat.zero_le _⟩
  | some prim => exact h.changes p prim hp

/-- The corrections of a connection, also where it has no entry yet. -/
theorem correctionSeq (h : v.Bounded n) (c : ConnectionId) {p : Path} {q : Nat}
    (hq : ((v.connections c).getD {}).correctionSeq p = some q) :
    q ≤ ((v.connections c).getD {}).maxSentSeq ∧ q ≤ n := by
  cases hc : v.connections c with
  | none =>
    rw [hc] at hq
    cases hq
  | some conn =>
    rw [hc] at hq
    exact h.corrections c conn hc p q hq

theorem recordSent (h : v.Bounded n) (c : ConnectionId) (seq : Nat) : (v.recordSent c seq).Bounded n := by
  refine ⟨h.changes, fun d conn hd p q hq => ?_⟩
  by_cases hdc : d = c
  · subst hdc
    simp only [SessionVersions.recordSent, Function.update_self, Option.some.injEq] at hd
    subst hd
    obtain ⟨hsent, hn⟩ := h.correctionSeq d hq
    exact ⟨hsent.trans (le_max_left _ _), hn⟩
  · simp only [SessionVersions.recordSent, Function.update_of_ne hdc] at hd
    exact h.corrections d conn hd p q hq

theorem recordAllSent (h : v.Bounded n) (receivers : List ConnectionId) (seq : Nat) :
    (receivers.foldl (·.recordSent · seq) v).Bounded n := by
  induction receivers generalizing v with
  | nil => exact h
  | cons c receivers ih => exact ih (h.recordSent c seq)

variable [DecidableEq Path]

theorem recordChange (h : v.Bounded n) (p : Path) {seq : Nat} (hseq : seq ≤ n) (w : ConnectionId) :
    (v.recordChange p seq w).Bounded n := by
  refine ⟨fun q prim hq => ?_, h.corrections⟩
  by_cases hqp : q = p
  · subst hqp
    simp only [SessionVersions.recordChange, Function.update_self, Option.some.injEq] at hq
    subst hq
    refine ⟨hseq, ?_⟩
    dsimp only
    split_ifs
    · exact (h.prim q).1
    · exact (h.prim q).2
  · simp only [SessionVersions.recordChange, Function.update_of_ne hqp] at hq
    exact h.changes q prim hq

theorem recordCorrection (h : v.Bounded n) (c : ConnectionId) (p : Path) {seq : Nat} (hseq : seq ≤ n) :
    (v.recordCorrection c p seq).Bounded n := by
  refine ⟨h.changes, fun d conn hd q r hr => ?_⟩
  by_cases hdc : d = c
  · subst hdc
    simp only [SessionVersions.recordCorrection, Function.update_self, Option.some.injEq] at hd
    subst hd
    by_cases hqp : q = p
    · simp only [hqp, Function.update_self, Option.some.injEq] at hr
      subst hr
      exact ⟨le_max_right _ _, hseq⟩
    · simp only [Function.update_of_ne hqp] at hr
      obtain ⟨hsent, hn⟩ := h.correctionSeq d hr
      exact ⟨hsent.trans (le_max_left _ _), hn⟩
  · simp only [SessionVersions.recordCorrection, Function.update_of_ne hdc] at hd
    exact h.corrections d conn hd q r hr

end Bounded
end SessionVersions

namespace Session
variable {σ Path R : Type}

theorem highestSeq_append (fs gs : List (Frame Path R)) :
    highestSeq (fs ++ gs) = max (highestSeq fs) (highestSeq gs) := by
  induction fs with
  | nil => exact (Nat.zero_max _).symm
  | cons f fs ih =>
    have hcons : ∀ hs : List (Frame Path R), highestSeq (f :: hs) = max f.serverSeq (highestSeq hs) :=
      fun _ => rfl
    rw [List.cons_append, hcons, hcons, ih, max_assoc]

theorem highestSeq_of_forall_eq {fs : List (Frame Path R)} {n : Nat} (hne : fs ≠ [])
    (h : ∀ f ∈ fs, f.serverSeq = n) : highestSeq fs = n := by
  obtain ⟨f, hf⟩ := List.exists_mem_of_ne_nil fs hne
  refine le_antisymm ?_ (h f hf ▸ le_highestSeq hf)
  clear hf hne
  induction fs with
  | nil => exact Nat.zero_le _
  | cons g fs ih =>
    refine max_le (h g List.mem_cons_self).le (ih fun f hf => h f (List.mem_cons_of_mem _ hf))

theorem framesTo_eq (s : Session σ Path R) (c : ConnectionId) : s.framesTo c = framesIn c s.sent := rfl

structure Booked (s : Session σ Path R) : Prop where
  bounded : s.versions.Bounded s.serverSeq
  sent : ∀ c, s.versions.maxSent c = highestSeq (s.framesTo c)

namespace Booked
variable {s s' : Session σ Path R}

theorem of_eq (h : Booked s) (hversions : s'.versions = s.versions) (hsent : s'.sent = s.sent)
    (hseq : s.serverSeq ≤ s'.serverSeq) : Booked s' := by
  refine ⟨hversions ▸ h.bounded.mono hseq, fun c => ?_⟩
  rw [hversions, framesTo_eq, hsent]
  exact h.sent c

/-- Frames of one version, each recorded for the connection it goes to. -/
theorem extend (h : Booked s) {xs : List (Sent Path R)} {n : Nat} (hnew : ∀ x ∈ xs, x.frame.serverSeq = n)
    (hsent : s'.sent = s.sent ++ xs) (hbounded : s'.versions.Bounded s'.serverSeq)
    (hmax : ∀ c, s'.versions.maxSent c =
      if c ∈ xs.map (·.connection) then max (s.versions.maxSent c) n else s.versions.maxSent c) :
    Booked s' := by
  refine ⟨hbounded, fun c => ?_⟩
  rw [hmax, h.sent, framesTo_eq, framesTo_eq, hsent, framesIn_append, highestSeq_append]
  have hframes : ∀ f ∈ framesIn c xs, f.serverSeq = n := by
    intro f hf
    obtain ⟨x, hx, -, rfl⟩ := mem_framesIn.1 hf
    exact hnew x hx
  split_ifs with hc
  · obtain ⟨x, hx, hxc⟩ := List.mem_map.1 hc
    have hne : framesIn c xs ≠ [] := List.ne_nil_of_mem (mem_framesIn.2 ⟨x, hx, hxc, rfl⟩)
    rw [highestSeq_of_forall_eq hne hframes]
  · have hnil : framesIn c xs = [] := by
      refine List.eq_nil_iff_forall_not_mem.2 fun f hf => ?_
      obtain ⟨x, hx, hxc, -⟩ := mem_framesIn.1 hf
      exact hc (List.mem_map.2 ⟨x, hx, hxc⟩)
    rw [hnil]
    exact (max_eq_left (Nat.zero_le _)).symm

theorem sendAll (h : Booked s) (receivers : List ConnectionId) (frame : Frame Path R) :
    Booked (s.sendAll receivers frame) := by
  refine h.extend (n := frame.serverSeq) ?_ rfl
    (h.bounded.recordAllSent _ _) ?_
  · intro x hx
    obtain ⟨c, -, rfl⟩ := List.mem_map.1 hx
    rfl
  · intro c
    rw [List.map_map, show _ ∘ _ = id from rfl, List.map_id]
    exact SessionVersions.maxSent_foldl_recordSent s.versions c receivers frame.serverSeq

theorem sendToConnection (h : Booked s) (c : ConnectionId) {messages : List (Message Path R)}
    (hne : messages ≠ []) (cause : Cause) : Booked (s.sendToConnection c messages cause) := by
  unfold Session.sendToConnection
  split_ifs
  · refine h.extend (n := s.serverSeq) ?_ rfl (h.bounded.recordSent _ _) ?_
    · intro x hx
      obtain ⟨m, -, rfl⟩ := List.mem_map.1 hx
      rfl
    · intro d
      obtain ⟨m, hm⟩ := List.exists_mem_of_ne_nil messages hne
      have hmem : d ∈ (messages.map fun m => (⟨c, ⟨m, s.serverSeq⟩, cause⟩ : Sent Path R)).map (·.connection) ↔
          d = c := by
        simp only [List.map_map, List.mem_map, Function.comp_apply]
        exact ⟨fun ⟨_, _, heq⟩ => heq.symm, fun heq => ⟨m, hm, heq.symm⟩⟩
      simp only [hmem]
      exact SessionVersions.maxSent_recordSent ..
  · exact h

theorem sendAck (h : Booked s) (c : ConnectionId) (r : Nat) (e : Option AckError) : Booked (s.sendAck c r e) :=
  h.sendToConnection c (List.cons_ne_nil _ _) .ack

/-- The Ack of a rejected request carries version 0. -/
theorem reject (h : Booked s) (c : ConnectionId) (r : Nat) (e : AckError) : Booked (s.reject c r e) := by
  refine h.extend (n := 0) ?_ rfl h.bounded ?_
  · simp
  · intro d
    rw [max_eq_left (Nat.zero_le _), ite_self]
    rfl

section Handlers
variable [LinearOrder Path] {view : StageView σ Path R}

theorem sendCorrection (h : Booked s) (c : ConnectionId) (p : Path) :
    Booked (Session.sendCorrection view s c p) := by
  unfold Session.sendCorrection
  by_cases hnone : view.isNull s.stage = true ∨ c = 0
  · rw [if_pos hnone]
    exact h
  rw [if_neg hnone]
  cases correctionMessage view s.stage p with
  | none => exact h
  | some message =>
    dsimp only
    split_ifs
    · refine h.extend (n := s.serverSeq + 1) ?_ rfl ?_ ?_
      · simp
      · exact (h.bounded.mono (Nat.le_succ _)).recordCorrection c p le_rfl
      · intro d
        simp [SessionVersions.maxSent_recordCorrection]
    · exact h

theorem announcePrim (h : Booked s) (w : ConnectionId) {seq : Nat} (hseq : seq ≤ s.serverSeq) (p : Path) :
    Booked (Session.announcePrim view w seq s p) := by
  have hrecorded : Booked { s with versions := s.versions.recordChange p seq w } :=
    ⟨h.bounded.recordChange p hseq w, h.sent⟩
  unfold Session.announcePrim broadcastResolvedTransform
  split
  · exact hrecorded
  · exact hrecorded.sendAll _ _

theorem announcePrims (h : Booked s) (w : ConnectionId) {seq : Nat} (hseq : seq ≤ s.serverSeq)
    (prims : List Path) : Booked (prims.foldl (Session.announcePrim view w seq) s) := by
  induction prims generalizing s with
  | nil => exact h
  | cons p prims ih =>
    have hkept : (Session.announcePrim view w seq s p).serverSeq = s.serverSeq := by
      unfold Session.announcePrim broadcastResolvedTransform
      split <;> rfl
    exact ih (h.announcePrim w hseq p) (hkept ▸ hseq)

theorem announce (h : Booked s) (w : ConnectionId) (prims : List Path) :
    Booked (s.announce view w prims) := by
  have hversion : Booked { s with
      serverSeq := s.serverSeq + 1
      log := s.log ++ [s.noticeVersion view w prims] } := h.of_eq rfl rfl (Nat.le_succ _)
  exact hversion.announcePrims w le_rfl prims

theorem onObjectsChanged (h : Booked s) (flags : NoticeFlags) (notice : ObjectsChanged Path) :
    Booked (Session.onObjectsChanged view flags s notice) := by
  rcases onObjectsChanged_cases view flags s notice with ⟨heq, -⟩ | heq
  · rw [heq]
    exact h
  · rw [heq]
    exact h.announce _ _

theorem author {α : Type} (h : Booked s) (flags : NoticeFlags) (call : Call σ Path α) :
    Booked (s.author view flags call) := by
  refine author_induction (motive := Booked) ?_ ?_ h
  · intro s stage hs
    exact hs.of_eq rfl rfl le_rfl
  · intro n _ s _ hs
    exact hs.onObjectsChanged flags n.2

theorem announceToAll (h : Booked s) (w : ConnectionId) (p : Path) (m : Message Path R) :
    Booked (s.announceToAll w p m) := by
  have hrecorded : Booked { s with
      dirty := true
      serverSeq := s.serverSeq + 1
      versions := s.versions.recordChange p (s.serverSeq + 1) w
      log := s.log ++ [⟨s.serverSeq + 1, .prim w, s.clients, [(p, some m)]⟩] } :=
    ⟨(h.bounded.mono (Nat.le_succ _)).recordChange p le_rfl w, h.sent⟩
  exact hrecorded.sendAll _ _

theorem handleTransform (h : Booked s) (call : Call σ Path Bool) (command : TransformCommand Path R) :
    Booked (s.handleTransform view call command) := by
  unfold Session.handleTransform
  split
  · exact h.sendAck ..
  · exact h.sendAck ..
  · have hauthor : Booked (s.author view { currentOrigin := command.origin } call) := h.author _ _
    have hdirty : Booked { s.author view { currentOrigin := command.origin } call with dirty := true } :=
      hauthor.of_eq rfl rfl le_rfl
    dsimp only
    split
    · exact hdirty.sendAck ..
    · exact (hauthor.sendAck ..).sendCorrection ..

theorem reloadRootLayer (h : Booked s) (call : Call σ Path Bool) : Booked (s.reloadRootLayer view call) := by
  unfold Session.reloadRootLayer
  split_ifs
  · exact h
  · exact h.author _ _

/-- Whatever the command and however its calls end. -/
theorem handles {env : Env σ Path R} {command : SessionCommand Path R} (h : Booked s)
    (hh : Handles env s command s') : Booked s' := by
  cases hh with
  | transform => exact h.handleTransform ..
  | join =>
    unfold Session.handleJoin
    split_ifs
    · exact h
    · exact h.sendToConnection _ (by simp [snapshotFrames]) _
  | @createPrim command call =>
    unfold Session.handleCreatePrim
    split_ifs
    · exact h.sendAck ..
    · dsimp only
      split
      · exact ((h.author _ _).announceToAll ..).sendAck ..
      · exact (h.author _ _).sendAck ..
  | @setPrimActive command call =>
    unfold Session.handleSetPrimActive
    split_ifs
    · exact h.sendAck ..
    · dsimp only
      split
      case h_7 => exact ((h.author _ _).announceToAll ..).sendAck ..
      all_goals exact (h.author _ _).sendAck ..
  | @commit commit reload =>
    unfold Session.handleCommit
    split_ifs
    · exact h
    · exact h
    · dsimp only
      have hauthor : Booked (s.author env.view {} commit) := h.author _ _
      have hclean : Booked { s.author env.view {} commit with dirty := false } :=
        hauthor.of_eq rfl rfl le_rfl
      split
      · exact hclean.reloadRootLayer _
      · exact hauthor
  | reload => exact h.reloadRootLayer _
  | @flush save =>
    refine h.of_eq ?_ ?_ ?_ <;> (unfold Session.handleFlush; split_ifs <;> rfl)
  | correction => exact h.sendCorrection ..

end Handlers
end Booked

/-- The frames that a transform update adds, if its base is not invalid. -/
theorem adds_of_validBase [LinearOrder Path] {view : StageView σ Path R} {s : Session σ Path R}
    (call : Call σ Path Bool) {command : TransformCommand Path R}
    (h : s.versions.checkUpdate command.origin command.primPath command.baseSeq ≠ .invalidBase) :
    Adds (fun x => ∀ r, x.frame.message ≠ .ack r (some .invalidBase)) s
      (s.handleTransform view call command) := by
  have hbroadcast : ∀ x : Sent Path R, x.frame.message.ackId = none →
      ∀ r, x.frame.message ≠ .ack r (some .invalidBase) := by
    intro x hx r heq
    rw [heq] at hx
    cases hx
  have hack : ∀ (s : Session σ Path R) (c : ConnectionId) (r : Nat) (e : Option AckError),
      e ≠ some .invalidBase →
      Adds (fun x => ∀ r, x.frame.message ≠ .ack r (some .invalidBase)) s (s.sendAck c r e) := by
    intro s c r e he
    unfold sendAck sendToConnection
    split_ifs
    · refine ⟨rfl, _, rfl, ?_⟩
      simp [he]
    · exact .refl s
  have hauthor := (adds_author view { currentOrigin := command.origin } call s).mono
    fun x hx => hbroadcast x hx.2
  unfold handleTransform
  split
  · exact hack _ _ _ _ (by simp)
  · rename_i hinvalid
    exact absurd hinvalid h
  · dsimp only
    split
    · exact (hauthor.trans (.setDirty _ true)).trans (hack _ _ _ _ (by simp))
    · exact (hauthor.trans (hack _ _ _ _ (by simp))).trans
        ((adds_sendCorrection ..).mono fun x hx => hbroadcast x hx.2)

end Session

namespace Consumer
variable {σ Path R : Type} [LinearOrder Path] {env : Session.Env σ Path R} {a a' : Consumer σ Path R}

theorem booked_of_reachable (h : (system env).Reachable a) : a.session.Booked := by
  refine Lts.System.invariant (I := fun a : Consumer σ Path R => a.session.Booked) ?_ ?_ h
  · rintro _ ⟨stage, rfl⟩
    exact ⟨⟨nofun, nofun⟩, fun _ => rfl⟩
  · intro b b' _ hb hs
    cases hs with
    | attach c => exact hb.of_eq rfl rfl le_rfl
    | detach c => exact hb.of_eq rfl rfl le_rfl
    | reject c r e => exact hb.reject c r e
    | handle command s' hh => exact hb.handles hh

/-- What was sent stays sent. -/
theorem framesTo_of_run (h : (system env).Run a a') (c : ConnectionId) {f : Frame Path R}
    (hf : f ∈ a.session.framesTo c) : f ∈ a'.session.framesTo c := by
  induction h with
  | refl => exact hf
  | tail _ hs ih =>
    obtain ⟨x, hx, hc, hf'⟩ := Session.mem_framesTo.1 ih
    refine Session.mem_framesTo.2 ⟨x, ?_, hc, hf'⟩
    cases hs with
    | attach c => exact hx
    | detach c => exact hx
    | reject c r e => exact List.mem_append_left _ hx
    | handle command s' hh =>
      rcases hh.moves with hm | ⟨c, -, hsnap⟩
      · obtain ⟨xs, vs, hsent, -⟩ := hm.added
        exact hsent ▸ List.mem_append_left _ hx
      · obtain ⟨messages, hsent⟩ := hsnap.sent
        exact hsent ▸ List.mem_append_left _ hx

/-- The books of every reachable session match what it has sent, and an update whose base is the version of a
frame that its client received is never answered with `invalid_base`, however much later it is handled. -/
theorem books_match (h : (system env).Reachable a) :
    (∀ c, a.session.versions.maxSent c = Session.highestSeq (a.session.framesTo c)) ∧
      (∀ p prim, a.session.versions.prims p = some prim →
        prim.lastChangeSeq ≤ a.session.serverSeq ∧ prim.foreignBeforeRun ≤ a.session.serverSeq) ∧
      (∀ c conn, a.session.versions.connections c = some conn → ∀ p q, conn.correctionSeq p = some q →
        q ≤ conn.maxSentSeq ∧ q ≤ a.session.serverSeq) ∧
      ∀ a', (system env).Run a a' → ∀ command : TransformCommand Path R, ∀ f ∈ a.session.framesTo command.origin,
        command.baseSeq = f.serverSeq → ∀ call,
          Session.Adds (fun x => ∀ r, x.frame.message ≠ .ack r (some .invalidBase)) a'.session
            (a'.session.handleTransform env.view call command) := by
  have hbooked := booked_of_reachable h
  refine ⟨hbooked.sent, hbooked.bounded.changes, hbooked.bounded.corrections, ?_⟩
  intro a' hrun command f hf hbase call
  have hsent := (booked_of_reachable (h.run hrun)).sent command.origin
  have hle := Session.le_highestSeq (framesTo_of_run hrun command.origin hf)
  refine Session.adds_of_validBase call ?_
  unfold SessionVersions.checkUpdate
  rw [if_neg (by omega)]
  split_ifs <;> nofun

/-- Client 1 moves a prim, which client 2 is told, and client 2 is then sent a correction of it. -/
theorem books_match_two_clients : ∃ a : Consumer TwoLayerStage Nat Int,
    (system TwoLayerStage.env).Reachable a ∧
    (a.session.framesTo 2).map (·.serverSeq) = [1, 2] ∧ a.session.versions.maxSent 2 = 2 ∧
    a.session.versions.correction 2 7 = 2 ∧
    ∀ c, a.session.versions.maxSent c = Session.highestSeq (a.session.framesTo c) := by
  have h : (system TwoLayerStage.env).Reachable
      { session := { stage := { root := [(7, TwoLayerStage.shift 0)] } } } := .init ⟨_, rfl⟩
  replace h := h.step (.attach 1 (by decide) (by decide))
  replace h := h.step (.attach 2 (by decide) (by decide))
  replace h := h.step (.handle (.transform ⟨7, some (TwoLayerStage.shift 1), 1, 10, 0⟩) _
    (.transform rfl))
  replace h := h.step (.handle (.correction 2 7) _ .correction)
  exact ⟨_, h, by decide, by decide, by decide, (books_match h).1⟩

end Consumer
end IdtxCore
