import IdtxCore.CollabInv

/-!
# Convergence

The consumer handles the command it has taken, and a client is admitted: the steps in which the stage
or the versions change. With the steps of `CollabInv` these are all the steps of a calm run, so `Inv`
holds in every state of it, and once nothing is on its way every client shows what the server has.

Without the condition on the edits this fails: the prims of one notice share a version, so a client
that has received the first of them bases an update of another on a version whose frame has not
arrived yet. The server takes the update for a current one, and the frame then hides it.
-/

namespace IdtxCore.Collab
section
variable {σ Path R : Type} [LinearOrder Path] {env : Session.Env σ Path R}
  {canon : Path → Transform R → Transform R} {a a' : Collab σ Path R}
  {c d : ConnectionId} {p q : Path}

/-! ### Handling a command -/

/-- The server after it has handled `x`. -/
def finish (a : Server σ Path R) (x : SessionCommand Path R) (s' : Session σ Path R) :
    Server σ Path R :=
  { Server.clearMark x a with session := s', busy := none }

section Finish
variable {x : SessionCommand Path R} {s' : Session σ Path R} {dd : List (Sent Path R)}

variable (s' dd) in
theorem pending_finish (hbusy : a.server.busy = some x) :
    a.pending d q = (updateOf d q x).toList ++ (a.after (finish a.server x s') dd).pending d q := by
  have hmark : (Server.clearMark x a.server).normal = a.server.normal ∧
      (Server.clearMark x a.server).io = a.server.io := by
    cases x <;> exact ⟨rfl, rfl⟩
  simp only [pending_eq, after, finish, hbusy, hmark, Option.toList_some, Option.toList_none,
    List.filterMap_nil, List.nil_append]
  cases hx : updateOf d q x <;> simp [hx]

theorem pending_sublist (hbusy : a.server.busy = some x) :
    ((a.after (finish a.server x s') dd).pending d q).Sublist (a.pending d q) := by
  rw [pending_finish s' dd hbusy]
  exact List.sublist_append_right _ _

/-- A correction is due until it is handled. -/
theorem owed_finish (hbusy : a.server.busy = some x) (hx : x ≠ .correction d q)
    (h : Owed a.server d q) : Owed (finish a.server x s') d q := by
  rcases h with h | h | h
  · exact .inl (by cases x <;> exact h)
  · exact .inr (.inl (by cases x <;> exact h))
  · rw [hbusy] at h
    exact absurd (Option.some.inj h) hx

theorem Wf.finish (h : Wf a) (hbusy : a.server.busy = some x)
    (hg : Session.Grows a.server.session s' dd) : Wf (a.after (finish a.server x s') dd) := by
  have hgrow := h.grow hg
  have hnone : ∀ y : SessionCommand Path R, none = some y → Ordinary s'.clients y ∨ Corrective s'.clients y := by simp
  cases x with
  | correction c p =>
    refine { hgrow with busy := hnone, marks := ?_ }
    intro d q hq
    have hne : ¬ (d = c ∧ q = p) := by
      rintro ⟨rfl, rfl⟩
      simp [Collab.finish, after, Server.clearMark, Server.setQueued] at hq
    have hq' : a.server.queued d q = true := by
      by_cases hd : d = c
      · subst hd
        have hqp : q ≠ p := fun hqp => hne ⟨rfl, hqp⟩
        simpa [Collab.finish, after, Server.clearMark, Server.setQueued, hqp] using hq
      · simpa [Collab.finish, after, Server.clearMark, Server.setQueued, hd] using hq
    rcases h.marks d q hq' with hm | hm | hm
    · exact .inl hm
    · exact .inr (.inl hm)
    · rw [hbusy] at hm
      obtain ⟨rfl, rfl⟩ := SessionCommand.correction.inj (Option.some.inj hm)
      exact absurd ⟨rfl, rfl⟩ hne
  | _ =>
    refine { hgrow with busy := hnone, marks := ?_ }
    intro d q hq
    rcases h.marks d q hq with hm | hm | hm
    · exact .inl hm
    · exact .inr (.inl hm)
    · rw [hbusy] at hm
      cases hm

/-- Handling `x` changes nothing for the client and the prim. -/
theorem sound_untouched (h : (replica env a d q).Sound (canon q)) (hbusy : a.server.busy = some x)
    (hg : Session.Grows a.server.session s' dd) (hquiet : Session.Quiet d q a.server.session s' dd)
    (hcur : Session.current env.view s'.stage q = Session.current env.view a.server.session.stage q)
    (hupdate : updateOf d q x = none) (hx : x ≠ .correction d q) :
    (replica env (a.after (finish a.server x s') dd) d q).Sound (canon q) := by
  refine sound_unchanged h hg.seq_le hquiet hcur ?_ (owed_finish hbusy hx)
  rw [pending_finish s' dd hbusy, hupdate]
  rfl

end Finish

/-! ### The handlers -/

omit [LinearOrder Path] in
theorem readResolvedTransform_of_current {view : StageView σ Path R} {stage : σ} {w : Transform R}
    (h : Session.current view stage p = some w) : view.readResolvedTransform stage p = some w := by
  unfold Session.current at h
  split_ifs at h
  exact h

theorem Inv.handleCorrection (hlaw : Lawful env canon) (h : Inv env canon a)
    (hbusy : a.server.busy = some (.correction c p)) :
    Inv env canon (a.serve (finish a.server (.correction c p)
      (Session.sendCorrection env.view a.server.session c p))) := by
  have hc : c ∈ a.server.session.clients := by
    rcases h.busy _ hbusy with (hx | ⟨_, _, _, _, _, hx, -⟩) | ⟨c', p', hx, hc⟩
    · cases hx
    · cases hx
    · obtain ⟨rfl, rfl⟩ := SessionCommand.correction.inj hx
      exact hc
  have h0 := h.nonzero c hc
  obtain ⟨dd, hg, hother, hself⟩ := Session.news_sendCorrection env.view a.server.session c p
    h.recorded (hlaw.not_null _) h0 hc
  rw [serve_eq_after hg.sent]
  have hstage : (Session.sendCorrection env.view a.server.session c p).stage = a.server.session.stage :=
    Session.stage_sendCorrection ..
  refine { h.toWf.finish hbusy hg with sound := ?_ }
  intro d hd q
  have hsound := h.sound d (hg.clients ▸ hd) q
  by_cases hdq : d = c ∧ q = p
  · obtain ⟨rfl, rfl⟩ := hdq
    rcases hself with hrenewed | ⟨hnone, hquiet⟩
    · refine sound_renewed hsound hrenewed (fun w hw => ?_) (pending_sublist hbusy)
      rwa [← hstage]
    · refine sound_vanished hsound hg.seq_le hquiet ?_ (pending_sublist hbusy)
      exact (congrArg (Session.current env.view · q) hstage).trans hnone
  · refine sound_untouched hsound hbusy hg (hother d q (not_and_or.1 hdq)) (by rw [hstage]) rfl ?_
    rintro hx
    obtain ⟨rfl, rfl⟩ := SessionCommand.correction.inj hx
    exact hdq ⟨rfl, rfl⟩

theorem Inv.handleReload (hlaw : Lawful env canon) (h : Inv env canon a)
    (hbusy : a.server.busy = some .reload) {call : Call σ Path Bool}
    (hcall : env.reload a.server.session.stage call)
    (hcalm : Announces env.view a.server.session.stage call) :
    Inv env canon (a.serve (finish a.server .reload
      (a.server.session.reloadRootLayer env.view call))) := by
  obtain ⟨dd, hnews⟩ := Session.news_reloadRootLayer h.recorded
    (hlaw.not_null a.server.session.stage) (hlaw.reload_notices _ call hcall)
  rw [serve_eq_after hnews.grows.sent]
  have hstage : (a.server.session.reloadRootLayer env.view call).stage = call.stage := by
    rw [Session.reloadRootLayer, if_neg (by simp [hlaw.not_null])]
    rfl
  refine { h.toWf.finish hbusy hnews.grows with sound := ?_ }
  intro d hd q
  have hd' : d ∈ a.server.session.clients := hnews.grows.clients ▸ hd
  have h0 := h.nonzero d hd'
  have hsound := h.sound d hd' q
  by_cases hnamed : ∃ n ∈ call.notices, q ∈ Session.noticePrims env.view { reloadInProgress := true }
      call.stage n.2
  · refine sound_renewed hsound (hnews.renewed d q h0 hd' hnamed (Ne.symm h0)) (fun w hw => ?_)
      (pending_sublist hbusy)
    exact readResolvedTransform_of_current (hstage ▸ hw)
  · have hquiet := hnews.quiet d q h0 fun hn => hnamed hn.1
    rcases hcalm q with hnone | hsame | ⟨hover, n, hn, hq⟩
    · refine sound_vanished hsound hnews.grows.seq_le hquiet ?_ (pending_sublist hbusy)
      exact (congrArg (Session.current env.view · q) hstage).trans hnone
    · exact sound_untouched hsound hbusy hnews.grows hquiet (by rw [hstage, hsame]) rfl (by simp)
    · refine absurd ⟨n, hn, ?_⟩ hnamed
      simpa [Session.noticePrims, hover] using hq

theorem updateOf_transform (u : Transform R) (i b : Nat) :
    updateOf d q (.transform ⟨p, some u, c, i, b⟩) = if c = d ∧ p = q then some (b, u) else none := by
  by_cases h : c = d ∧ p = q <;> simp [updateOf, h]

section Transform
variable {u : Transform R} {i b : Nat} {call : Call σ Path Bool} {s' : Session σ Path R}
  {dd : List (Sent Path R)}

variable (s' dd) in
theorem pending_transform (hbusy : a.server.busy = some (.transform ⟨p, some u, c, i, b⟩)) :
    (replica env a c p).pending = (b, u) :: (a.after (finish a.server
      (.transform ⟨p, some u, c, i, b⟩) s') dd).pending c p := by
  refine (pending_finish s' dd hbusy).trans ?_
  simp [updateOf_transform]

/-- Whoever is told nothing about an update has not missed anything. -/
theorem sound_untold (hlaw : Lawful env canon) (h : (replica env a d q).Sound (canon q))
    (hbusy : a.server.busy = some (.transform ⟨p, some u, c, i, b⟩))
    (hcall : env.apply a.server.session.stage p (some u) call)
    (hkeeps : KeepsOthers env.view a.server.session.stage p call)
    (hg : Session.Grows a.server.session s' dd) (hstage : s'.stage = call.stage)
    (hdq : ¬ (d = c ∧ q = p)) (hnamed : ¬ (Session.Named call q ∧ c ≠ d))
    (hquiet : Session.Quiet d q a.server.session s' dd) :
    (replica env (a.after (finish a.server (.transform ⟨p, some u, c, i, b⟩) s') dd) d q).Sound
      (canon q) := by
  have hupdate : updateOf d q (.transform ⟨p, some u, c, i, b⟩) = none := by
    rw [updateOf_transform, if_neg]
    rintro ⟨rfl, rfl⟩
    exact hdq ⟨rfl, rfl⟩
  by_cases hq : q = p
  · subst hq
    refine sound_untouched h hbusy hg hquiet ?_ hupdate (by simp)
    rw [hstage]
    by_contra hchanged
    refine hnamed ⟨hlaw.apply_named _ q u call hcall hchanged, ?_⟩
    rintro rfl
    exact hdq ⟨rfl, rfl⟩
  · rcases hkeeps q hq with hnone | hsame
    · refine sound_vanished h hg.seq_le hquiet ?_ (pending_sublist hbusy)
      exact (congrArg (Session.current env.view · q) hstage).trans hnone
    · exact sound_untouched h hbusy hg hquiet (by rw [hstage, hsame]) hupdate (by simp)

/-- A stale update is dropped: the frame that outdates it was received or is on its way. -/
theorem sound_stale (h : (replica env a c p).Sound (canon p))
    (hbusy : a.server.busy = some (.transform ⟨p, some u, c, i, b⟩))
    (hg : Session.Grows a.server.session s' dd) (hstage : s'.stage = a.server.session.stage)
    (hstale : b < a.server.session.threshold c p)
    (hquiet : Session.Quiet c p a.server.session s' dd) :
    (replica env (a.after (finish a.server (.transform ⟨p, some u, c, i, b⟩) s') dd) c p).Sound
      (canon p) := by
  have hout := h.outdated (pending_transform s' dd hbusy) hstale
  rw [replica_quiet hquiet, show (finish a.server _ s').session.stage = a.server.session.stage from hstage]
  exact (hout.advance hg.seq_le).owe (owed_finish hbusy (by simp))

/-- An update that is applied is what its sender shows, unless it sent another one since. -/
theorem sound_applied (hlaw : Lawful env canon) (h : (replica env a c p).Sound (canon p))
    (hbusy : a.server.busy = some (.transform ⟨p, some u, c, i, b⟩))
    (hcall : env.apply a.server.session.stage p (some u) call)
    (hg : Session.Grows a.server.session s' dd) (hstage : s'.stage = call.stage)
    (hok : call.outcome = .returned true) (hcurrent : a.server.session.threshold c p ≤ b)
    (hquiet : Session.Quiet c p a.server.session s' dd) :
    (replica env (a.after (finish a.server (.transform ⟨p, some u, c, i, b⟩) s') dd) c p).Sound
      (canon p) := by
  have hacc := h.accept (pending_transform s' dd hbusy) hcurrent
  rw [replica_quiet hquiet, show (finish a.server _ s').session.stage = call.stage from hstage,
    hlaw.apply_ok _ p u call hcall hok]
  exact (hacc.advance hg.seq_le).owe (owed_finish hbusy (by simp))

end Transform

theorem Inv.handleTransform (hlaw : Lawful env canon) (h : Inv env canon a)
    {command : TransformCommand Path R} (hbusy : a.server.busy = some (.transform command))
    {call : Call σ Path Bool}
    (hcall : env.apply a.server.session.stage command.primPath command.transform call)
    (hcalm : a.server.session.versions.checkUpdate command.origin command.primPath command.baseSeq = .current →
      KeepsOthers env.view a.server.session.stage command.primPath call) :
    Inv env canon (a.serve (finish a.server (.transform command)
      (a.server.session.handleTransform env.view call command))) := by
  obtain ⟨p, u, c, i, b, rfl, hc⟩ : ∃ p u c i b, command = ⟨p, some u, c, i, b⟩ ∧
      c ∈ a.server.session.clients := by
    rcases h.busy _ hbusy with (hx | ⟨p, u, c, i, b, hx, hc⟩) | ⟨_, _, hx, -⟩
    · cases hx
    · exact ⟨p, u, c, i, b, SessionCommand.transform.inj hx, hc⟩
    · cases hx
  have h0 := h.nonzero c hc
  have hself := h.sound c hc p
  -- the client still has at least the base of its update, and that was sent to it
  have hbase : b ≤ a.server.session.versions.maxSent c := by
    have hmem : (b, u) ∈ (replica env a c p).pending := by
      rw [pending_transform a.server.session [] hbusy]
      exact List.mem_cons_self
    exact (hself.pending_le (b, u) hmem).trans (h.base c hc)
  have hkeeps : a.server.session.threshold c p ≤ b → KeepsOthers env.view a.server.session.stage p call := by
    intro hle
    refine hcalm ?_
    rw [SessionVersions.checkUpdate, if_neg (not_lt.2 hbase)]
    exact if_neg (not_lt.2 hle)
  obtain ⟨dd, hg, hnews⟩ := Session.news_handleTransform ⟨p, some u, c, i, b⟩ h.recorded
    (hlaw.not_null call.stage) (hlaw.apply_notices _ p u call hcall) h0 hc hbase
  rw [serve_eq_after hg.sent]
  refine { h.toWf.finish hbusy hg with sound := ?_ }
  intro d hd q
  have hd' : d ∈ a.server.session.clients := hg.clients ▸ hd
  have hd0 := h.nonzero d hd'
  have hsound := h.sound d hd' q
  have hread : ∀ w, Session.current env.view call.stage q = some w →
      env.view.readResolvedTransform call.stage q = some w :=
    fun w hw => readResolvedTransform_of_current hw
  by_cases hdq : d = c ∧ q = p
  · obtain ⟨rfl, rfl⟩ := hdq
    rcases hnews with ⟨hstale, hstage, hquiet⟩ | ⟨hle, hstage, hok, -, hquiet⟩ | ⟨-, hstage, -, -, -, hcorr⟩
    · exact sound_stale hsound hbusy hg hstage hstale (hquiet d q)
    · exact sound_applied hlaw hsound hbusy hcall hg hstage hok hle (hquiet d q h0 fun hn => hn.2 rfl)
    · rcases hcorr with hrenewed | ⟨hnone, hquiet⟩
      · exact sound_renewed hsound hrenewed (fun w hw => by rw [← hstage]; exact hw) (pending_sublist hbusy)
      · refine sound_vanished hsound hg.seq_le hquiet ?_ (pending_sublist hbusy)
        exact (congrArg (Session.current env.view · q) hstage).trans hnone
  · rcases hnews with ⟨-, hstage, hquiet⟩ | ⟨hle, hstage, -, hrenewed, hquiet⟩ |
      ⟨hle, hstage, -, hrenewed, hquiet, -⟩
    · refine sound_untouched hsound hbusy hg (hquiet d q) (by rw [hstage]) ?_ (by simp)
      rw [updateOf_transform, if_neg]
      rintro ⟨rfl, rfl⟩
      exact hdq ⟨rfl, rfl⟩
    · by_cases hnamed : Session.Named call q ∧ c ≠ d
      · exact sound_renewed hsound (hrenewed d q hd0 hd' hnamed.1 hnamed.2)
          (fun w hw => hread w (hstage ▸ hw)) (pending_sublist hbusy)
      · exact sound_untold hlaw hsound hbusy hcall (hkeeps hle) hg hstage hdq hnamed (hquiet d q hd0 hnamed)
    · by_cases hnamed : Session.Named call q ∧ c ≠ d
      · exact sound_renewed hsound (hrenewed d q hd0 hd' hnamed.1 hnamed.2)
          (fun w hw => hread w (hstage ▸ hw)) (pending_sublist hbusy)
      · exact sound_untold hlaw hsound hbusy hcall (hkeeps hle) hg hstage hdq hnamed (hquiet d q hd0 hnamed hdq)

/-! ### Admission -/

/-- A join changes no threshold, and the client is sent the current version. -/
theorem handleJoin_spec (hlaw : Lawful env canon) (s : Session σ Path R) (h0 : c ≠ 0) :
    ∃ s' dd, (s.attachClient c).handleJoin env.view c = s' ∧
      Session.Grows (s.attachClient c) s' dd ∧ (∀ d p, s'.threshold d p = s.threshold d p) ∧
      s'.stage = s.stage ∧ s'.serverSeq = s.serverSeq ∧ s.serverSeq ≤ s'.versions.maxSent c := by
  obtain ⟨dd, hg, hthr, -⟩ := Session.grows_sendToConnection (s.attachClient c) c
    (Session.snapshotFrames env.view s.stage) .snapshot
  have hmem : c ≠ 0 ∧ c ∈ (s.attachClient c).clients := ⟨h0, by simp [Session.attachClient]⟩
  refine ⟨_, dd, rfl, ?_⟩
  rw [Session.handleJoin, if_neg (by simp [hlaw.not_null])]
  refine ⟨hg, hthr, ?_⟩
  rw [Session.sendToConnection, if_pos hmem]
  refine ⟨rfl, rfl, ?_⟩
  rw [SessionVersions.maxSent_recordSent, if_pos rfl]
  exact le_max_right _ _

theorem Wf.join (hlaw : Lawful env canon) (h : Wf a)
    {shown : Path → Option (Shown (Transform R) (Transform R))} (h0 : c ≠ 0)
    (hbusy : a.server.busy = none) : Wf (a.join env c shown) := by
  obtain ⟨s', dd, hs', hg, -, -, -, hsent⟩ := handleJoin_spec hlaw a.server.session h0
  have hclients : s'.clients = a.server.session.clients ++ [c] := hg.clients
  have hkeep : ∀ d, d ∈ a.server.session.clients → d ∈ s'.clients := by
    intro d hd
    rw [hclients]
    exact List.mem_append_left _ hd
  unfold Collab.join
  rw [hs']
  constructor
  case recorded => exact hg.recorded ⟨h.recorded.sent_le, h.recorded.maxSent_le, h.recorded.threshold_le⟩
  case opened =>
    intro d
    simp only [hclients, List.mem_cons, List.mem_append, h.opened d, List.not_mem_nil, or_false]
    exact or_comm
  case nonzero =>
    intro d hd
    simp only [hclients, List.mem_append, List.mem_singleton] at hd
    rcases hd with hd | rfl
    · exact h.nonzero d hd
    · exact h0
  case up => exact fun d r hr => ⟨(h.up d r hr).1, hkeep d (h.up d r hr).2⟩
  case submitting => exact h.submitting
  case rejecting => exact h.rejecting
  case io => exact fun d hd => hkeep d (h.io d hd)
  case down =>
    intro d f hf
    by_cases hd : d = c
    · subst hd
      simp at hf
    · exact (h.down d f (by simpa [hd] using hf)).trans (hg.maxSent_le d)
  case base =>
    intro d hd
    by_cases hdc : d = c
    · subst hdc
      simpa using hsent
    · simp only [hclients, List.mem_append, List.mem_singleton, hdc, or_false] at hd
      simpa [hdc] using (h.base d hd).trans (hg.maxSent_le d)
  case normal =>
    intro x hx
    rcases h.normal x hx with hr | ⟨p, u, d, i, b, hx, hd⟩
    · exact .inl hr
    · exact .inr ⟨p, u, d, i, b, hx, hkeep d hd⟩
  case priority =>
    intro x hx
    obtain ⟨d, p, hx, hd⟩ := h.priority x hx
    exact ⟨d, p, hx, hkeep d hd⟩
  case busy => simp [hbusy]
  case marks => exact h.marks

/-- Nothing of a client that is not attached is on its way. -/
theorem Wf.pending_eq_nil (h : Wf a) (hc : c ∉ a.server.session.clients)
    (hbusy : a.server.busy = none) : a.pending c p = [] := by
  have hup : a.up c = [] := by
    rw [List.eq_nil_iff_forall_not_mem]
    exact fun r hr => hc (h.up c r hr).2
  have hio : a.server.io c = .idle := by
    by_contra hne
    exact hc (h.io c hne)
  have hnormal : a.server.normal.filterMap (updateOf c p) = [] := by
    rw [List.filterMap_eq_nil_iff]
    intro x hx
    rcases h.normal x hx with rfl | ⟨q, u, d, i, b, rfl, hd⟩
    · rfl
    · rw [updateOf_transform, if_neg]
      rintro ⟨rfl, -⟩
      exact hc hd
  simp [pending_eq, hbusy, hup, hio, hnormal, ioCommands]

theorem Inv.join (hlaw : Lawful env canon) (h : Inv env canon a)
    {shown : Path → Option (Shown (Transform R) (Transform R))} (h0 : c ≠ 0)
    (hopened : c ∉ a.server.opened) (hbusy : a.server.busy = none)
    (hshown : ∀ p v, Session.current env.view a.server.session.stage p = some v →
      (shown p).map (Shown.value (canon p)) = some v) :
    Inv env canon (a.join env c shown) := by
  refine { h.toWf.join hlaw h0 hbusy with sound := ?_ }
  have hnew : c ∉ a.server.session.clients := fun hc => hopened ((h.opened c).2 hc)
  obtain ⟨s', dd, hs', hg, hthr, hstage, hseq, -⟩ := handleJoin_spec hlaw a.server.session h0
  have hpend : ∀ d q, (a.join env c shown).pending d q = a.pending d q := fun _ _ => rfl
  intro d hd q
  by_cases hdc : d = c
  · subst hdc
    apply Replica.Sound.join
    · simp [replica, Collab.join, hs', hseq]
    · simpa [replica, Collab.join, hs', hseq, hthr] using h.recorded.threshold_le d q h0
    · simp [replica, Collab.join, xformsOf]
    · exact (hpend d q).trans (h.toWf.pending_eq_nil hnew hbusy)
    · intro v hv
      simp only [replica, Collab.join, hs', hstage] at hv
      simpa [replica, Collab.join] using hshown q v hv
  · have hclients : (a.join env c shown).server.session.clients = a.server.session.clients ++ [c] := by
      rw [← show (a.server.session.attachClient c).clients = a.server.session.clients ++ [c] from rfl,
        ← hg.clients, ← hs']
      rfl
    have hd' : d ∈ a.server.session.clients := by
      rw [hclients] at hd
      simpa [hdc] using hd
    have heq : replica env (a.join env c shown) d q = replica env a d q := by
      simp only [replica, hpend]
      simp [Collab.join, hs', hseq, hthr, hstage, hdc, Owed]
    rw [heq]
    exact h.sound d hd' q

/-! ### Runs -/

theorem Inv.init (stage : σ) :
    Inv env canon ({ server := { session := { stage := stage } } } : Collab σ Path R) := by
  refine ⟨⟨⟨by simp, ?_, ?_⟩, ?_, ?_, ?_, ?_, ?_, ?_, ?_, ?_, ?_, ?_, ?_, ?_⟩, ?_⟩
  · intro c
    rfl
  · intro c p _
    rfl
  all_goals simp

theorem Inv.handle (hlaw : Lawful env canon) (h : Inv env canon a) {x : SessionCommand Path R}
    {s' : Session σ Path R} (hbusy : a.server.busy = some x)
    (hh : Session.Handles env a.server.session x s')
    (hupdate : ∀ command, x = .transform command →
      a.server.session.versions.checkUpdate command.origin command.primPath command.baseSeq = .current →
      ∃ call, env.apply a.server.session.stage command.primPath command.transform call ∧
        s' = a.server.session.handleTransform env.view call command ∧
        KeepsOthers env.view a.server.session.stage command.primPath call)
    (hreload : x = .reload → ∃ call, env.reload a.server.session.stage call ∧
      s' = a.server.session.reloadRootLayer env.view call ∧
      Announces env.view a.server.session.stage call) :
    Inv env canon (a.serve (finish a.server x s')) := by
  -- which commands there are
  have hkind := h.busy x hbusy
  cases hh with
  | @transform command call hcall =>
    by_cases hcurrent : a.server.session.versions.checkUpdate command.origin command.primPath command.baseSeq =
        .current
    · obtain ⟨call', hcall', hs', hkeeps⟩ := hupdate command rfl hcurrent
      rw [hs']
      exact h.handleTransform hlaw hbusy hcall' fun _ => hkeeps
    · exact h.handleTransform hlaw hbusy hcall fun hcurrent' => absurd hcurrent' hcurrent
  | reload =>
    obtain ⟨call, hcall, hs', hann⟩ := hreload rfl
    rw [hs']
    exact h.handleReload hlaw hbusy hcall hann
  | correction => exact h.handleCorrection hlaw hbusy
  | join => simp [Ordinary, Corrective] at hkind
  | createPrim => simp [Ordinary, Corrective] at hkind
  | setPrimActive => simp [Ordinary, Corrective] at hkind
  | commit => simp [Ordinary, Corrective] at hkind
  | flush => simp [Ordinary, Corrective] at hkind

theorem Inv.step (hlaw : Lawful env canon) (h : Inv env canon a) {event : Event Path R}
    (hs : Step env canon a event a') (hcalm : Calm env a event a') : Inv env canon a' := by
  cases hs with
  | join h0 hopened hbusy hshown => exact h.join hlaw h0 hopened hbusy hshown
  | edit hc => exact h.edit hc (hcalm.edit _ _ _ _ rfl)
  | receive hup hs => exact h.receive hup hs
  | deliver hf => exact h.deliver hf
  | server hcollab hs =>
    cases hs with
    | @submitInternal command =>
      cases command with
      | reload =>
        exact Inv.serve h.submitReload rfl
      | _ => cases hcollab
    | submit hio =>
      exact Inv.serve (h.submit hio) rfl
    | @submitRejected c r status hio =>
      cases status with
      | queueFull =>
        exact Inv.serve (h.submitRejected hio) rfl
      | _ => cases hcollab
    | reject hio => exact h.reject hlaw hio
    | markedAlready hio hq =>
      exact Inv.serve (h.markedAlready hio hq) rfl
    | mark hio =>
      exact Inv.serve (h.mark hio) rfl
    | submitCorrection hio =>
      exact Inv.serve (h.submitCorrection hio) rfl
    | takeNormal hbusy hnormal =>
      exact Inv.serve (h.takeNormal hbusy hnormal) rfl
    | takePriority hbusy hpriority =>
      exact Inv.serve (h.takePriority hbusy hpriority) rfl
    | handle hbusy hh =>
      exact h.handle hlaw hbusy hh (fun command hx => hcalm.update rfl command (hx ▸ hbusy))
        fun hx => hcalm.reload rfl (hx ▸ hbusy)
    | attach => cases hcollab
    | detach => cases hcollab
    | receive => cases hcollab
    | sessionGone => cases hcollab
    | correctionRejected => cases hcollab
    | clear => cases hcollab

theorem inv_of_reachable (hlaw : Lawful env canon) (h : (calmSystem env canon).Reachable a) :
    Inv env canon a := by
  refine Lts.System.invariant (S := calmSystem env canon) ?_ ?_ h
  · rintro _ ⟨stage, rfl⟩
    exact Inv.init stage
  · rintro a a' - hinv ⟨event, hs, hcalm⟩
    exact hinv.step hlaw hs hcalm

/-- In every state of a calm run in which nothing is on its way, every client shows the server's
transform of every prim that exists. -/
theorem converged_of_calm (hlaw : Lawful env canon) (h : (calmSystem env canon).Reachable a)
    (hs : Settled a) : Converged env canon a := by
  intro c hc p v hv
  refine ((inv_of_reachable hlaw h).sound c hc p).settled hv ?_ ?_ ?_
  · rintro (ho | ho | ho)
    · rw [hs.io c hc] at ho
      cases ho
    · rw [hs.priority] at ho
      cases ho
    · rw [hs.busy] at ho
      cases ho
  · change a.pending c p = []
    simp [pending_eq, hs.busy, hs.normal, hs.io c hc, hs.up c hc, ioCommands]
  · change xformsOf p (a.down c) = []
    rw [hs.down c hc]
    rfl

/-! ### Runs on a stage of two layers -/

/-- A client that has loaded the server's state can be admitted. -/
theorem step_join (h0 : c ≠ 0) (hopened : c ∉ a.server.opened) (hbusy : a.server.busy = none) :
    Step env canon a (.join c)
      (a.join env c fun p => (Session.current env.view a.server.session.stage p).map .received) :=
  .join h0 hopened hbusy fun p v hv => by simp [hv, Shown.value]

theorem calm_of_ne {event : Event Path R} (hedit : ∀ c p u r, event ≠ .edit c p u r)
    (hhandle : event ≠ .server .handle) : Calm env a event a' :=
  ⟨fun c p u r he => absurd he (hedit c p u r), fun he => absurd he hhandle, fun he => absurd he hhandle⟩

theorem calm_edit {u : Transform R} {i : Nat} (h : ∀ x ∈ xformsOf p (a.down c), a.base c < x.1) :
    Calm env a (.edit c p u i) a' := by
  refine ⟨?_, fun he => (by cases he), fun he => (by cases he)⟩
  intro c' p' u' i' he
  obtain ⟨rfl, rfl, -, -⟩ := Event.edit.inj he
  exact h

theorem calm_update {command : TransformCommand Path R} {call : Call σ Path Bool}
    (hbusy : a.server.busy = some (.transform command))
    (hcall : env.apply a.server.session.stage command.primPath command.transform call)
    (hsession : a'.server.session = a.server.session.handleTransform env.view call command)
    (hkeeps : KeepsOthers env.view a.server.session.stage command.primPath call) :
    Calm env a (.server .handle) a' := by
  refine ⟨fun _ _ _ _ he => (by cases he), ?_, fun _ hb => (by rw [hbusy] at hb; cases hb)⟩
  intro _ command' hb _
  obtain rfl : command = command' := SessionCommand.transform.inj (Option.some.inj (hbusy.symm.trans hb))
  exact ⟨call, hcall, hsession, hkeeps⟩

end

/-- The prims of a stage of two layers do not depend on each other. -/
theorem keepsOthers_apply (st : TwoLayerStage) (p : Nat) (u : Transform Int) :
    KeepsOthers TwoLayerStage.view st p (st.apply p (some u)) := by
  refine fun q hq => .inr ?_
  unfold TwoLayerStage.apply
  cases hroot : st.root.lookup p with
  | none => rfl
  | some r =>
    have hlookup : ((p, u) :: st.overrides).lookup q = st.overrides.lookup q := by
      rw [List.lookup_cons, beq_false_of_ne hq]
    simp only [Session.current, TwoLayerStage.view, hlookup]
    rfl

theorem lawful_twoLayer : Lawful TwoLayerStage.env fun _ u => u where
  not_null _ := rfl
  empty_path _ _ h := by cases h
  apply_notices := by
    rintro st p u call rfl n hn
    unfold TwoLayerStage.apply at hn ⊢
    cases hroot : st.root.lookup p with
    | none => simp [hroot] at hn
    | some r =>
      simp only [hroot, List.mem_singleton] at hn ⊢
      rw [hn]
  apply_ok := by
    rintro st p u call rfl hok
    unfold TwoLayerStage.apply at hok ⊢
    cases hroot : st.root.lookup p with
    | none => simp [hroot] at hok
    | some r =>
      simp [Session.current, TwoLayerStage.env, TwoLayerStage.view, hroot]
      split_ifs <;> rfl
  apply_named := by
    rintro st p u call rfl hchanged
    unfold TwoLayerStage.apply at hchanged ⊢
    cases hroot : st.root.lookup p with
    | none => simp [hroot] at hchanged
    | some r =>
      refine ⟨_, List.mem_singleton_self _, ?_⟩
      simp [Session.affectedPrims, Session.pathSet, ObjectPath.xformPrim, isXformAttributeName]
  reload_notices := by
    rintro st call ⟨root, rfl⟩ n hn
    rw [TwoLayerStage.reload, List.mem_singleton] at hn
    rw [hn]
    rfl

open TwoLayerStage in
/-- Clients 5 and 6 move one prim at the same time. The update of 5 is applied and that of 6 is stale;
in the end both show the first. -/
theorem converged_after_conflict : ∃ a : Collab TwoLayerStage Nat Int,
    (calmSystem env fun _ u => u).Reachable a ∧ Settled a ∧ a.server.session.clients = [5, 6] ∧
    a.shown 5 1 = some (.own (shift 7)) ∧ a.shown 6 1 = some (.received (shift 7)) ∧
    Converged env (fun _ u => u) a := by
  have h : (calmSystem env fun _ u => u).Reachable
      { server := { session := { stage := { root := [(1, shift 0)] } } } } := .init ⟨_, rfl⟩
  replace h := h.step ⟨.join 5, step_join (by decide) (by decide) rfl, calm_of_ne (by simp) (by simp)⟩
  replace h := h.step ⟨.join 6, step_join (by decide) (by decide +kernel) rfl, calm_of_ne (by simp) (by simp)⟩
  replace h := h.step ⟨.edit 5 1 (shift 7) 10, .edit (by decide +kernel),
    calm_edit (by decide +kernel)⟩
  replace h := h.step ⟨.edit 6 1 (shift 8) 20, .edit (by decide +kernel),
    calm_edit (by decide +kernel)⟩
  replace h := h.step ⟨.receive 5, .receive
    (show _ = (.xformUpdate 1 (some (shift 7)) 10 0 : Request Nat Int) :: [] by decide +kernel)
    (.receive (by decide +kernel) (by decide +kernel)), calm_of_ne (by simp) (by simp)⟩
  replace h := h.step ⟨.receive 6, .receive
    (show _ = (.xformUpdate 1 (some (shift 8)) 20 0 : Request Nat Int) :: [] by decide +kernel)
    (.receive (by decide +kernel) (by decide +kernel)), calm_of_ne (by simp) (by simp)⟩
  replace h := h.step ⟨.server (.submit 5), .server rfl (.submit
    (show _ = (.submitting (.xformUpdate 1 (some (shift 7)) 10 0) : IoState Nat Int) by decide +kernel)),
    calm_of_ne (by simp) (by simp)⟩
  replace h := h.step ⟨.server (.submit 6), .server rfl (.submit
    (show _ = (.submitting (.xformUpdate 1 (some (shift 8)) 20 0) : IoState Nat Int) by decide +kernel)),
    calm_of_ne (by simp) (by simp)⟩
  replace h := h.step ⟨.server .takeNormal, .server rfl (.takeNormal (by decide +kernel)
    (show _ = (.transform ⟨1, some (shift 7), 5, 10, 0⟩ : SessionCommand Nat Int) ::
      [.transform ⟨1, some (shift 8), 6, 20, 0⟩] by decide +kernel)), calm_of_ne (by simp) (by simp)⟩
  replace h := h.step ⟨.server .handle, .server rfl (.handle
    (show _ = some (.transform ⟨1, some (shift 7), 5, 10, 0⟩ : SessionCommand Nat Int) by decide +kernel)
    (.transform rfl)), calm_update rfl rfl rfl (keepsOthers_apply _ _ _)⟩
  replace h := h.step ⟨.server .takeNormal, .server rfl (.takeNormal (by decide +kernel)
    (show _ = (.transform ⟨1, some (shift 8), 6, 20, 0⟩ : SessionCommand Nat Int) :: []
      by decide +kernel)), calm_of_ne (by simp) (by simp)⟩
  replace h := h.step ⟨.server .handle, .server rfl (.handle
    (show _ = some (.transform ⟨1, some (shift 8), 6, 20, 0⟩ : SessionCommand Nat Int) by decide +kernel)
    (.transform rfl)), calm_update rfl rfl rfl (keepsOthers_apply _ _ _)⟩
  replace h := h.step ⟨.deliver 5, .deliver
    (show _ = (⟨.ack 10 none, 1⟩ : Frame Nat Int) :: [] by decide +kernel), calm_of_ne (by simp) (by simp)⟩
  replace h := h.step ⟨.deliver 6, .deliver (show _ = (⟨.xformBroadcast 1 (shift 7), 1⟩ : Frame Nat Int) ::
    [⟨.ack 20 (some .stale), 1⟩] by decide +kernel), calm_of_ne (by simp) (by simp)⟩
  replace h := h.step ⟨.deliver 6, .deliver
    (show _ = (⟨.ack 20 (some .stale), 1⟩ : Frame Nat Int) :: [] by decide +kernel), calm_of_ne (by simp) (by simp)⟩
  exact ⟨_, h, by decide +kernel, by decide +kernel, by decide +kernel, by decide +kernel,
    converged_of_calm lawful_twoLayer h (by decide +kernel)⟩

open TwoLayerStage in
/-- A reload moves the prims 1 and 2, so both broadcasts have the version 1. Client 5 receives the one
of prim 1 and moves prim 2 on base 1. The update is current, but the broadcast of prim 2 arrives after
it was made: the client ends with the transform of the file, the server with that of the client. -/
theorem not_converged_after_reload : Lawful env (fun _ u => u) ∧
    ∃ a : Collab TwoLayerStage Nat Int, (system env fun _ u => u).Reachable a ∧ Settled a ∧
      a.server.session.clients = [5] ∧
      Session.current view a.server.session.stage 2 = some (shift 7) ∧
      a.shown 5 2 = some (.received (shift 1)) ∧ ¬ Converged env (fun _ u => u) a := by
  have h : (system env fun _ u => u).Reachable
      { server := { session := { stage := { root := [(1, shift 0), (2, shift 0)] } } } } := .init ⟨_, rfl⟩
  replace h := h.step ⟨.join 5, step_join (by decide) (by decide) rfl⟩
  replace h := h.step ⟨.server (.submitInternal .reload), .server rfl (.submitInternal rfl)⟩
  replace h := h.step ⟨.server .takeNormal, .server rfl (.takeNormal rfl rfl)⟩
  replace h := h.step ⟨.server .handle, .server rfl (.handle rfl
    (.reload ⟨[(1, shift 1), (2, shift 1)], rfl⟩))⟩
  replace h := h.step ⟨.deliver 5, .deliver (show _ = (⟨.xformBroadcast 1 (shift 1), 1⟩ : Frame Nat Int) ::
    [⟨.xformBroadcast 2 (shift 1), 1⟩] by decide +kernel)⟩
  replace h := h.step ⟨.edit 5 2 (shift 7) 10, .edit (by decide +kernel)⟩
  replace h := h.step ⟨.receive 5, .receive
    (show _ = (.xformUpdate 2 (some (shift 7)) 10 1 : Request Nat Int) :: [] by decide +kernel)
    (.receive (by decide +kernel) (by decide +kernel))⟩
  replace h := h.step ⟨.server (.submit 5), .server rfl (.submit
    (show _ = (.submitting (.xformUpdate 2 (some (shift 7)) 10 1) : IoState Nat Int) by decide +kernel))⟩
  replace h := h.step ⟨.server .takeNormal, .server rfl (.takeNormal (by decide +kernel)
    (show _ = (.transform ⟨2, some (shift 7), 5, 10, 1⟩ : SessionCommand Nat Int) :: []
      by decide +kernel))⟩
  replace h := h.step ⟨.server .handle, .server rfl (.handle
    (show _ = some (.transform ⟨2, some (shift 7), 5, 10, 1⟩ : SessionCommand Nat Int) by decide +kernel)
    (.transform rfl))⟩
  replace h := h.step ⟨.deliver 5, .deliver (show _ = (⟨.xformBroadcast 2 (shift 1), 1⟩ : Frame Nat Int) ::
    [⟨.ack 10 none, 2⟩] by decide +kernel)⟩
  replace h := h.step ⟨.deliver 5, .deliver
    (show _ = (⟨.ack 10 none, 2⟩ : Frame Nat Int) :: [] by decide +kernel)⟩
  refine ⟨lawful_twoLayer, _, h, by decide +kernel, by decide +kernel, by decide +kernel,
    by decide +kernel, ?_⟩
  intro hconv
  exact absurd (hconv 5 (by decide +kernel) 2 (shift 7) (by decide +kernel)) (by decide +kernel)

end IdtxCore.Collab
