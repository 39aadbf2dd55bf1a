import IdtxCore.Collab

/-!
# Convergence

`replica` is one client's side of one prim, read off the state: the broadcasts on the way to the
client, its updates of the prim that are not handled yet (taken, queued, in `OnMessage`, on the way)
and whether a correction is due. Every step of the system is a step of `Replica` for each client and
prim, so `Replica.Sound` holds throughout a calm run (`Inv`). `Wf` collects what is simple: which
commands and requests there are, and that a mark stands for a correction that is on its way.
-/

namespace IdtxCore.Collab
variable {σ Path R : Type} [LinearOrder Path] {env : Session.Env σ Path R}
  {canon : Path → Transform R → Transform R} {a a' : Collab σ Path R}
  {c d : ConnectionId} {p q : Path}

/-! ### One client's side of one prim -/

/-- The update of `p` by `c` that a command is. -/
def updateOf (c : ConnectionId) (p : Path) : SessionCommand Path R → Option (Nat × Transform R)
  | .transform command =>
    if command.origin = c ∧ command.primPath = p then command.transform.map (command.baseSeq, ·) else none
  | _ => none

/-- The command that the message handler is about to submit. -/
def ioCommands (c : ConnectionId) : IoState Path R → List (SessionCommand Path R)
  | .submitting request => [request.command c]
  | _ => []

/-- The updates of `p` by `c` that the server has not handled, oldest first. -/
def pending (a : Collab σ Path R) (c : ConnectionId) (p : Path) : List (Nat × Transform R) :=
  (a.server.busy.toList ++ a.server.normal ++ ioCommands c (a.server.io c) ++
    (a.up c).map (·.command c)).filterMap (updateOf c p)

/-- The message handler is about to submit a correction of `p`. -/
def ioOwes (p : Path) : IoState Path R → Prop
  | .rejecting (.xformUpdate q _ _ _) .queueFull => q = p
  | .correcting q => q = p
  | .submittingCorrection q => q = p
  | _ => False

/-- A correction of `p` for `c` is due. -/
def Owed (a : Server σ Path R) (c : ConnectionId) (p : Path) : Prop :=
  ioOwes p (a.io c) ∨ .correction c p ∈ a.priority ∨ a.busy = some (.correction c p)

def replica (env : Session.Env σ Path R) (a : Collab σ Path R) (c : ConnectionId) (p : Path) :
    Replica (Transform R) (Transform R) where
  top := a.server.session.serverSeq
  threshold := a.server.session.threshold c p
  base := a.base c
  frames := xformsOf p (a.down c)
  pending := a.pending c p
  owed := Owed a.server c p
  shown := a.shown c p
  current := Session.current env.view a.server.session.stage p

/-- A client's request is an update with a transform. -/
def IsUpdate (r : Request Path R) : Prop := ∃ p u i b, r = .xformUpdate p (some u) i b

/-- A command of the normal queue: a reload, or an update of an attached client. -/
def Ordinary (clients : List ConnectionId) (command : SessionCommand Path R) : Prop :=
  command = .reload ∨ ∃ p u c i b, command = .transform ⟨p, some u, c, i, b⟩ ∧ c ∈ clients

def Corrective (clients : List ConnectionId) (command : SessionCommand Path R) : Prop :=
  ∃ c p, command = .correction c p ∧ c ∈ clients

structure Wf (a : Collab σ Path R) : Prop where
  recorded : a.server.session.Recorded
  opened : ∀ c, c ∈ a.server.opened ↔ c ∈ a.server.session.clients
  nonzero : ∀ c ∈ a.server.session.clients, c ≠ 0
  up : ∀ c, ∀ r ∈ a.up c, IsUpdate r ∧ c ∈ a.server.session.clients
  submitting : ∀ c r, a.server.io c = .submitting r → IsUpdate r
  rejecting : ∀ c r st, a.server.io c = .rejecting r st → IsUpdate r ∧ st = .queueFull
  io : ∀ c, a.server.io c ≠ .idle → c ∈ a.server.session.clients
  down : ∀ c, ∀ f ∈ a.down c, f.serverSeq ≤ a.server.session.versions.maxSent c
  base : ∀ c ∈ a.server.session.clients, a.base c ≤ a.server.session.versions.maxSent c
  normal : ∀ x ∈ a.server.normal, Ordinary a.server.session.clients x
  priority : ∀ x ∈ a.server.priority, Corrective a.server.session.clients x
  busy : ∀ x, a.server.busy = some x →
    Ordinary a.server.session.clients x ∨ Corrective a.server.session.clients x
  /-- a mark stands for a correction that is on its way to the consumer -/
  marks : ∀ c p, a.server.queued c p = true → a.server.io c = .submittingCorrection p ∨
    .correction c p ∈ a.server.priority ∨ a.server.busy = some (.correction c p)

structure Inv (env : Session.Env σ Path R) (canon : Path → Transform R → Transform R)
    (a : Collab σ Path R) : Prop extends Wf a where
  sound : ∀ c ∈ a.server.session.clients, ∀ p, (replica env a c p).Sound (canon p)

/-! ### Commands -/

theorem updateOf_command_of_ne (r : Request Path R) (h : c ≠ d) : updateOf d p (r.command c) = none := by
  cases r <;> simp [Request.command, updateOf, h]

theorem updateOf_xformUpdate (u : Transform R) (i b : Nat) :
    updateOf c q ((Request.xformUpdate p (some u) i b).command c) = if p = q then some (b, u) else none := by
  by_cases h : p = q <;> simp [Request.command, updateOf, h]

theorem updateOf_corrective {x : SessionCommand Path R} {clients : List ConnectionId}
    (h : Corrective clients x) : updateOf c p x = none := by
  obtain ⟨d, q, rfl, -⟩ := h
  rfl

theorem pending_eq (a : Collab σ Path R) (c : ConnectionId) (p : Path) :
    a.pending c p = a.server.busy.toList.filterMap (updateOf c p) ++
      (a.server.normal.filterMap (updateOf c p) ++
        ((ioCommands c (a.server.io c)).filterMap (updateOf c p) ++
          ((a.up c).map (·.command c)).filterMap (updateOf c p))) := by
  simp only [pending, List.filterMap_append, List.append_assoc]

omit [LinearOrder Path] in
theorem IsUpdate.ordinary {r : Request Path R} (h : IsUpdate r) {clients : List ConnectionId}
    (hc : c ∈ clients) : Ordinary clients (r.command c) := by
  obtain ⟨p, u, i, b, rfl⟩ := h
  exact .inr ⟨p, u, c, i, b, rfl, hc⟩

/-! ### Steps of the clients -/

theorem Inv.edit (h : Inv env canon a) {u : Transform R} {i : Nat}
    (hc : c ∈ a.server.session.clients) (hclear : ∀ x ∈ xformsOf p (a.down c), a.base c < x.1) :
    Inv env canon (a.edit c p u i) := by
  refine { h with up := ?_, sound := ?_ }
  · intro d r hr
    by_cases hd : d = c
    · subst hd
      simp only [Collab.edit, Function.update_self, List.mem_append, List.mem_singleton] at hr
      rcases hr with hr | rfl
      · exact h.up d r hr
      · exact ⟨⟨p, u, i, a.base d, rfl⟩, hc⟩
    · exact h.up d r (by simpa [Collab.edit, hd] using hr)
  · intro d hd q
    have hsound := h.sound d hd q
    by_cases hdq : d = c ∧ q = p
    · obtain ⟨rfl, rfl⟩ := hdq
      have heq : replica env (a.edit d q u i) d q = { replica env a d q with
          pending := a.pending d q ++ [(a.base d, u)], shown := some (.own u) } := by
        simp [replica, pending_eq, Collab.edit, updateOf_xformUpdate]
      rw [heq]
      exact hsound.edit u hclear
    · have heq : replica env (a.edit c p u i) d q = replica env a d q := by
        by_cases hd : d = c
        · subst hd
          have hq : q ≠ p := fun hq => hdq ⟨rfl, hq⟩
          simp [replica, pending_eq, Collab.edit, updateOf_xformUpdate, hq, hq.symm]
        · simp [replica, pending_eq, Collab.edit, hd]
      rw [heq]
      exact hsound

/-- A frame carries the transform of one prim at most. -/
theorem xformsOf_cons (f : Frame Path R) (fs : List (Frame Path R)) :
    (∃ v, f.message = .xformBroadcast p v ∧ xformsOf p (f :: fs) = (f.serverSeq, v) :: xformsOf p fs) ∨
      (∀ v, f.message ≠ .xformBroadcast p v) ∧ xformsOf p (f :: fs) = xformsOf p fs := by
  obtain ⟨m, n⟩ := f
  cases m with
  | xformBroadcast q v =>
    by_cases hq : q = p
    · exact .inl ⟨v, by rw [hq], by simp [xformsOf, hq]⟩
    · exact .inr ⟨by simp [hq], by simp [xformsOf, hq]⟩
  | createPrimBroadcast => exact .inr ⟨by simp, rfl⟩
  | setPrimActiveBroadcast => exact .inr ⟨by simp, rfl⟩
  | ack => exact .inr ⟨by simp, rfl⟩
  | snapshotComplete => exact .inr ⟨by simp, rfl⟩

theorem Inv.deliver (h : Inv env canon a) {f : Frame Path R} {rest : List (Frame Path R)}
    (hf : a.down c = f :: rest) : Inv env canon (a.deliver c f rest) := by
  have hle := h.down c f (by simp [hf])
  refine { h with down := ?_, base := ?_, sound := ?_ }
  · intro d g hg
    by_cases hd : d = c
    · subst hd
      exact h.down d g (by rw [hf]; exact List.mem_cons_of_mem _ (by simpa [Collab.deliver] using hg))
    · exact h.down d g (by simpa [Collab.deliver, hd] using hg)
  · intro d hd
    by_cases hdc : d = c
    · subst hdc
      simpa [Collab.deliver] using ⟨h.base d hd, hle⟩
    · simpa [Collab.deliver, hdc] using h.base d hd
  · intro d hd q
    have hsound := h.sound d hd q
    by_cases hdc : d = c
    · subst hdc
      rcases xformsOf_cons (p := q) f rest with ⟨v, hmsg, hxs⟩ | ⟨hmsg, hxs⟩
      · have heq : replica env (a.deliver d f rest) d q = { replica env a d q with
            frames := xformsOf q rest, base := max (a.base d) f.serverSeq,
            shown := some (.received v) } := by
          simp [replica, pending_eq, Collab.deliver, display, hmsg]
        have hframes : xformsOf q (a.down d) = (f.serverSeq, v) :: xformsOf q rest := by rw [hf, hxs]
        rw [heq]
        exact hsound.deliver hframes
      · have hshown : display (a.shown d) f.message q = a.shown d q := by
          cases hm : f.message with
          | xformBroadcast p' v =>
            have hq : q ≠ p' := by
              rintro rfl
              exact hmsg v hm
            simp [display, hq]
          | createPrimBroadcast => rfl
          | setPrimActiveBroadcast => rfl
          | ack => rfl
          | snapshotComplete => rfl
        have heq : replica env (a.deliver d f rest) d q = { replica env a d q with
            base := max (a.base d) f.serverSeq } := by
          simp [replica, pending_eq, Collab.deliver, hshown, hf, hxs]
        rw [heq]
        exact hsound.observe (hle.trans (h.recorded.maxSent_le d))
    · have heq : replica env (a.deliver c f rest) d q = replica env a d q := by
        simp [replica, pending_eq, Collab.deliver, hdc]
      rw [heq]
      exact hsound

/-! ### Steps of `OnMessage` and of the queues -/

/-- A step that sends nothing puts nothing on the connections. -/
theorem Inv.serve {b : Server σ Path R} (h : Inv env canon { a with server := b })
    (hsent : b.session.sent = a.server.session.sent) : Inv env canon (a.serve b) := by
  have heq : a.serve b = { a with server := b } := by
    simp [Collab.serve, hsent, framesIn]
  rw [heq]
  exact h

/-- A step that moves updates from one place to the next and forgets no correction. -/
theorem Inv.requeue (h : Inv env canon a) (hwf : Wf a') (hsession : a'.server.session = a.server.session)
    (hdown : a'.down = a.down) (hbase : a'.base = a.base) (hshown : a'.shown = a.shown)
    (hpending : ∀ c p, a'.pending c p = a.pending c p)
    (howed : ∀ c p, Owed a.server c p → Owed a'.server c p) : Inv env canon a' := by
  refine { hwf with sound := ?_ }
  intro c hc p
  have heq : replica env a' c p = { replica env a c p with owed := Owed a'.server c p } := by
    simp [replica, hsession, hdown, hbase, hshown, hpending]
  rw [heq]
  exact (h.sound c (hsession ▸ hc) p).owe (howed c p)

omit [LinearOrder Path] in
/-- The message handler of an attached client goes on. -/
theorem Wf.setIo (h : Wf a) {io : IoState Path R} (hc : c ∈ a.server.session.clients)
    (hsubmitting : ∀ r, io = .submitting r → IsUpdate r)
    (hrejecting : ∀ r st, io = .rejecting r st → IsUpdate r ∧ st = .queueFull)
    (hmarks : ∀ p, a.server.queued c p = true → io = .submittingCorrection p ∨
      .correction c p ∈ a.server.priority ∨ a.server.busy = some (.correction c p)) :
    Wf { a with server := a.server.setIo c io } := by
  refine { h with submitting := ?_, rejecting := ?_, io := ?_, marks := ?_ }
  · intro d r hd
    by_cases hdc : d = c
    · exact hsubmitting r (by simpa [Server.setIo, hdc] using hd)
    · exact h.submitting d r (by simpa [Server.setIo, hdc] using hd)
  · intro d r st hd
    by_cases hdc : d = c
    · exact hrejecting r st (by simpa [Server.setIo, hdc] using hd)
    · exact h.rejecting d r st (by simpa [Server.setIo, hdc] using hd)
  · intro d hd
    by_cases hdc : d = c
    · rw [hdc]; exact hc
    · exact h.io d (by simpa [Server.setIo, hdc] using hd)
  · intro d p hq
    by_cases hdc : d = c
    · subst hdc
      simpa [Server.setIo] using hmarks p hq
    · simpa [Server.setIo, hdc] using h.marks d p hq

omit [LinearOrder Path] in
/-- Unless it submits a correction, a message handler leaves the marks to the queue. -/
theorem Wf.marked (h : Wf a) (hio : ∀ p, a.server.io c ≠ .submittingCorrection p) (p : Path)
    (hq : a.server.queued c p = true) :
    .correction c p ∈ a.server.priority ∨ a.server.busy = some (.correction c p) :=
  (h.marks c p hq).resolve_left (hio p)

omit [LinearOrder Path] in
/-- What is owed to other clients, or is with the consumer, does not depend on a message handler. -/
theorem Owed.setIo {a : Server σ Path R} {io : IoState Path R} (h : Owed a d p)
    (hc : ioOwes p (a.io c) → Owed (a.setIo c io) c p) : Owed (a.setIo c io) d p := by
  by_cases hdc : d = c
  · subst hdc
    exact h.elim hc .inr
  · simpa [Owed, Server.setIo, hdc] using h

theorem Inv.receive (h : Inv env canon a) {r : Request Path R} {rest : List (Request Path R)}
    {b : Server σ Path R} (hup : a.up c = r :: rest) (hs : Server.Step env a.server (.receive c r) b) :
    Inv env canon (a.receive c rest b) := by
  cases hs with
  | receive hc hidle =>
    have hr := (h.up c r (by simp [hup])).1
    have hset : Wf { a with server := a.server.setIo c (.submitting r) } := by
      refine h.toWf.setIo hc ?_ (by simp) ?_
      · rintro r' hr'
        rw [← IoState.submitting.inj hr']
        exact hr
      · exact fun p hq => .inr (h.toWf.marked (by simp [hidle]) p hq)
    refine h.requeue ?_ rfl rfl rfl rfl ?_ ?_
    · refine { hset with up := ?_ }
      intro d r' hr'
      by_cases hd : d = c
      · subst hd
        exact h.up d r' (by rw [hup]; exact List.mem_cons_of_mem _ (by simpa [Collab.receive] using hr'))
      · exact h.up d r' (by simpa [Collab.receive, hd] using hr')
    · intro d p
      by_cases hd : d = c
      · subst hd
        simp [pending_eq, Collab.receive, Server.setIo, ioCommands, hup, hidle, List.filterMap_cons]
        cases updateOf d p (r.command d) <;> rfl
      · simp [pending_eq, Collab.receive, Server.setIo, hd]
    · intro d p howed
      exact howed.setIo fun hio => by rw [hidle] at hio; cases hio

theorem Inv.submit (h : Inv env canon a) {r : Request Path R} (hio : a.server.io c = .submitting r) :
    Inv env canon { a with server :=
      { a.server.setIo c .idle with normal := a.server.normal ++ [r.command c] } } := by
  have hc : c ∈ a.server.session.clients := h.io c (by simp [hio])
  have hset : Wf { a with server := a.server.setIo c .idle } :=
    h.toWf.setIo hc (by simp) (by simp) fun p hq => .inr (h.toWf.marked (by simp [hio]) p hq)
  refine h.requeue ?_ rfl rfl rfl rfl ?_ ?_
  · refine { hset with normal := ?_ }
    intro x hx
    rcases List.mem_append.1 hx with hx | hx
    · exact h.normal x hx
    · rw [List.mem_singleton.1 hx]
      exact (h.submitting c r hio).ordinary hc
  · intro d p
    by_cases hd : d = c
    · subst hd
      simp [pending_eq, Server.setIo, ioCommands, hio]
    · simp [pending_eq, Server.setIo, hd, updateOf_command_of_ne r (Ne.symm hd)]
  · intro d p howed
    exact Owed.setIo howed fun ho => by rw [hio] at ho; cases ho

/-- An update that finds the queue full is lost, and a correction is due. -/
theorem Inv.submitRejected (h : Inv env canon a) {r : Request Path R}
    (hio : a.server.io c = .submitting r) :
    Inv env canon { a with server := a.server.setIo c (.rejecting r .queueFull) } := by
  have hc : c ∈ a.server.session.clients := h.io c (by simp [hio])
  have hr := h.submitting c r hio
  have hwf : Wf { a with server := a.server.setIo c (.rejecting r .queueFull) } := by
    refine h.toWf.setIo hc (by simp) ?_ fun p hq => .inr (h.toWf.marked (by simp [hio]) p hq)
    intro r' st heq
    obtain ⟨rfl, rfl⟩ := IoState.rejecting.inj heq
    exact ⟨hr, rfl⟩
  have howed : ∀ d q, Owed a.server d q → Owed (a.server.setIo c (.rejecting r .queueFull)) d q :=
    fun d q ho => ho.setIo fun hx => by rw [hio] at hx; cases hx
  obtain ⟨p, u, i, b, rfl⟩ := hr
  refine { hwf with sound := ?_ }
  intro d hd q
  have hsound := h.sound d hd q
  by_cases hdq : d = c ∧ q = p
  · obtain ⟨rfl, rfl⟩ := hdq
    have heq : replica env { a with server := a.server.setIo d (.rejecting (.xformUpdate q (some u) i b)
        .queueFull) } d q = { replica env a d q with
          pending := pending { a with server := a.server.setIo d (.rejecting (.xformUpdate q (some u) i b)
            .queueFull) } d q
          owed := Owed (a.server.setIo d (.rejecting (.xformUpdate q (some u) i b) .queueFull)) d q } := by
      simp [replica, Server.setIo]
    rw [heq]
    refine hsound.refuse ?_ (.inl (by simp [Server.setIo, ioOwes]))
    simp [replica, pending_eq, Server.setIo, ioCommands, hio]
  · have hpend : pending { a with server := a.server.setIo c (.rejecting (.xformUpdate p (some u) i b)
        .queueFull) } d q = a.pending d q := by
      by_cases hdc : d = c
      · subst hdc
        have hq : p ≠ q := fun hq => hdq ⟨rfl, hq.symm⟩
        simp [pending_eq, Server.setIo, ioCommands, hio, updateOf_xformUpdate, hq]
      · simp [pending_eq, Server.setIo, hdc]
    have heq : replica env { a with server := a.server.setIo c (.rejecting (.xformUpdate p (some u) i b)
        .queueFull) } d q = { replica env a d q with
          owed := Owed (a.server.setIo c (.rejecting (.xformUpdate p (some u) i b) .queueFull)) d q } := by
      simp [replica, Server.setIo] at hpend ⊢
      exact hpend
    rw [heq]
    exact hsound.owe (howed d q)

theorem pending_setIo {io : IoState Path R} (hnew : ioCommands c io = [])
    (hold : ioCommands c (a.server.io c) = []) :
    pending { a with server := a.server.setIo c io } d p = a.pending d p := by
  by_cases hd : d = c
  · subst hd
    simp [pending_eq, Server.setIo, hnew, hold]
  · simp [pending_eq, Server.setIo, hd]

/-- A correction that is queued already will read the state when it runs. -/
theorem Inv.markedAlready (h : Inv env canon a) (hio : a.server.io c = .correcting p)
    (hq : a.server.queued c p = true) :
    Inv env canon { a with server := a.server.setIo c .idle } := by
  have hc : c ∈ a.server.session.clients := h.io c (by simp [hio])
  have hmarked := h.toWf.marked (c := c) (by simp [hio])
  refine h.requeue ?_ rfl rfl rfl rfl ?_ ?_
  · exact h.toWf.setIo hc (by simp) (by simp) fun q hq => .inr (hmarked q hq)
  · exact fun d q => pending_setIo rfl (by rw [hio]; rfl)
  · intro d q howed
    refine howed.setIo fun ho => ?_
    rw [hio] at ho
    obtain rfl : p = q := ho
    exact .inr (hmarked p hq)

theorem Inv.mark (h : Inv env canon a) (hio : a.server.io c = .correcting p) :
    Inv env canon { a with server :=
      (a.server.setIo c (.submittingCorrection p)).setQueued c p true } := by
  have hc : c ∈ a.server.session.clients := h.io c (by simp [hio])
  have hset : Wf { a with server := a.server.setIo c (.submittingCorrection p) } :=
    h.toWf.setIo hc (by simp) (by simp) fun q hq => .inr (h.toWf.marked (by simp [hio]) q hq)
  refine h.requeue ?_ rfl rfl rfl rfl ?_ ?_
  · refine { hset with marks := ?_ }
    intro d q hq
    by_cases hdq : d = c ∧ q = p
    · obtain ⟨rfl, rfl⟩ := hdq
      exact .inl (by simp [Server.setIo, Server.setQueued])
    · refine hset.marks d q ?_
      by_cases hd : d = c
      · subst hd
        have hqp : q ≠ p := fun hqp => hdq ⟨rfl, hqp⟩
        simpa [Server.setIo, Server.setQueued, hqp] using hq
      · simpa [Server.setIo, Server.setQueued, hd] using hq
  · exact fun d q => pending_setIo rfl (by rw [hio]; rfl)
  · intro d q howed
    refine Owed.setIo howed fun ho => ?_
    rw [hio] at ho
    exact .inl (by simpa [Server.setIo, ioOwes] using ho)

theorem Inv.submitCorrection (h : Inv env canon a) (hio : a.server.io c = .submittingCorrection p) :
    Inv env canon { a with server :=
      { a.server.setIo c .idle with priority := a.server.priority ++ [.correction c p] } } := by
  have hc : c ∈ a.server.session.clients := h.io c (by simp [hio])
  refine h.requeue ?_ rfl rfl rfl rfl ?_ ?_
  · have hqueued : Wf { a with server :=
        { a.server with priority := a.server.priority ++ [.correction c p] } } := by
      refine { h.toWf with priority := ?_, marks := ?_ }
      · intro x hx
        rcases List.mem_append.1 hx with hx | hx
        · exact h.priority x hx
        · exact ⟨c, p, List.mem_singleton.1 hx, hc⟩
      · intro d q hq
        exact (h.marks d q hq).imp_right fun hm => hm.imp_left fun hm => List.mem_append_left _ hm
    refine hqueued.setIo hc (by simp) (by simp) fun q hq => .inr ?_
    rcases h.marks c q hq with hsub | hprio | hbusy
    · -- the mark now stands for the queued correction
      rw [hio] at hsub
      exact .inl (by simp [IoState.submittingCorrection.inj hsub])
    · exact .inl (List.mem_append_left _ hprio)
    · exact .inr hbusy
  · exact fun d q => pending_setIo rfl (by rw [hio]; rfl)
  · intro d q howed
    rcases howed with ho | ho | ho
    · by_cases hd : d = c
      · subst hd
        rw [hio] at ho
        obtain rfl : p = q := ho
        exact .inr (.inl (by simp))
      · exact .inl (by simpa [Server.setIo, hd] using ho)
    · exact .inr (.inl (List.mem_append_left _ ho))
    · exact .inr (.inr ho)

theorem Inv.submitReload (h : Inv env canon a) :
    Inv env canon { a with server := { a.server with normal := a.server.normal ++ [.reload] } } := by
  refine h.requeue ?_ rfl rfl rfl rfl ?_ fun _ _ ho => ho
  · refine { h.toWf with normal := ?_ }
    intro x hx
    rcases List.mem_append.1 hx with hx | hx
    · exact h.normal x hx
    · exact .inl (List.mem_singleton.1 hx)
  · intro d q
    simp [pending_eq, updateOf]

theorem Inv.takeNormal (h : Inv env canon a) {x : SessionCommand Path R}
    {rest : List (SessionCommand Path R)} (hbusy : a.server.busy = none)
    (hnormal : a.server.normal = x :: rest) :
    Inv env canon { a with server := { a.server with normal := rest, busy := some x } } := by
  refine h.requeue ?_ rfl rfl rfl rfl ?_ ?_
  · refine { h.toWf with normal := ?_, busy := ?_, marks := ?_ }
    · exact fun y hy => h.normal y (by rw [hnormal]; exact List.mem_cons_of_mem _ hy)
    · intro y hy
      rw [← Option.some.inj hy]
      exact .inl (h.normal x (by simp [hnormal]))
    · intro d q hq
      rcases h.marks d q hq with hm | hm | hm
      · exact .inl hm
      · exact .inr (.inl hm)
      · rw [hbusy] at hm; cases hm
  · intro d q
    simp only [pending_eq, hbusy, hnormal, Option.toList_none, Option.toList_some, List.filterMap_nil,
      List.nil_append, List.filterMap_cons]
    cases updateOf d q x <;> rfl
  · intro d q ho
    rcases ho with ho | ho | ho
    · exact .inl ho
    · exact .inr (.inl ho)
    · rw [hbusy] at ho; cases ho

theorem Inv.takePriority (h : Inv env canon a) {x : SessionCommand Path R}
    {rest : List (SessionCommand Path R)} (hbusy : a.server.busy = none)
    (hpriority : a.server.priority = x :: rest) :
    Inv env canon { a with server := { a.server with priority := rest, busy := some x } } := by
  have hx := h.priority x (by simp [hpriority])
  -- a correction that was queued is still queued, or taken
  have hmoved : ∀ d q, SessionCommand.correction d q ∈ a.server.priority →
      SessionCommand.correction d q ∈ rest ∨ some x = some (.correction d q) := by
    intro d q hmem
    rw [hpriority] at hmem
    rcases List.mem_cons.1 hmem with rfl | hmem
    · exact .inr rfl
    · exact .inl hmem
  refine h.requeue ?_ rfl rfl rfl rfl ?_ ?_
  · refine { h.toWf with priority := ?_, busy := ?_, marks := ?_ }
    · exact fun y hy => h.priority y (by rw [hpriority]; exact List.mem_cons_of_mem _ hy)
    · intro y hy
      rw [← Option.some.inj hy]
      exact .inr hx
    · intro d q hq
      rcases h.marks d q hq with hm | hm | hm
      · exact .inl hm
      · exact .inr (hmoved d q hm)
      · rw [hbusy] at hm; cases hm
  · intro d q
    simp [pending_eq, hbusy, updateOf_corrective hx]
  · intro d q ho
    rcases ho with ho | ho | ho
    · exact .inl ho
    · exact .inr (hmoved d q ho)
    · rw [hbusy] at ho; cases ho

/-! ### Steps that send -/

/-- The state after a step of the server that sends `dd`. -/
def after (a : Collab σ Path R) (b : Server σ Path R) (dd : List (Sent Path R)) : Collab σ Path R :=
  { a with server := b, down := fun c => a.down c ++ framesIn c dd }

section Sending
variable {b : Server σ Path R} {dd : List (Sent Path R)}

omit [LinearOrder Path] in
theorem serve_eq_after (h : b.session.sent = a.server.session.sent ++ dd) :
    a.serve b = a.after b dd := by
  simp [serve, after, h]

omit [LinearOrder Path] in
theorem Wf.grow (h : Wf a) {s' : Session σ Path R} (hg : Session.Grows a.server.session s' dd) :
    Wf (a.after { a.server with session := s' } dd) := by
  have hclients := hg.clients
  have hrec := hg.recorded h.recorded
  refine { h with
    recorded := hrec
    opened := fun c => hclients ▸ h.opened c
    nonzero := fun c hc => h.nonzero c (hclients ▸ hc)
    up := fun c r hr => hclients ▸ h.up c r hr
    io := fun c hc => hclients ▸ h.io c hc
    down := ?_
    base := fun c hc => (h.base c (hclients ▸ hc)).trans (hg.maxSent_le c)
    normal := fun x hx => hclients ▸ h.normal x hx
    priority := fun x hx => hclients ▸ h.priority x hx
    busy := fun x hx => hclients ▸ h.busy x hx }
  intro c f hf
  rcases List.mem_append.1 hf with hf | hf
  · exact (h.down c f hf).trans (hg.maxSent_le c)
  · obtain ⟨x, hx, rfl, rfl⟩ := mem_framesIn.1 hf
    exact hrec.sent_le x (hg.sent ▸ List.mem_append_right _ hx)

/-- A step that says nothing about the prim to the client. -/
theorem replica_quiet (hq : Session.Quiet d q a.server.session b.session dd) :
    replica env (a.after b dd) d q = { replica env a d q with
      top := b.session.serverSeq, pending := (a.after b dd).pending d q, owed := Owed b d q,
      current := Session.current env.view b.session.stage q } := by
  simp [replica, after, hq.threshold, hq.frames]

/-- A step that tells the client the state of the prim, or after which the prim does not exist. -/
theorem sound_renewed {value : Option (Transform R)} (h : (replica env a d q).Sound (canon q))
    (hr : Session.Renewed d q value a.server.session b.session dd)
    (hvalue : ∀ w, Session.current env.view b.session.stage q = some w → value = some w)
    (hpending : ((a.after b dd).pending d q).Sublist (a.pending d q)) :
    (replica env (a.after b dd) d q).Sound (canon q) := by
  obtain ⟨n, hlt, hle, hthr, hxs, hlast⟩ := hr
  have heq : replica env (a.after b dd) d q = { replica env a d q with
      top := b.session.serverSeq, threshold := n,
      frames := (replica env a d q).frames ++ xformsOf q (framesIn d dd),
      pending := (a.after b dd).pending d q, owed := Owed b d q,
      current := Session.current env.view b.session.stage q } := by
    simp [replica, after, hthr]
  rw [heq]
  cases hcur : Session.current env.view b.session.stage q with
  | none =>
    exact h.vanish ((h.threshold_le.trans_lt hlt).le) (hlt.le.trans hle) hle hxs hpending
  | some w =>
    refine h.tell hlt hle (hlast w (hvalue w hcur)) hxs hpending ?_
    intro w' hw'
    exact (Option.some.inj hw').symm

/-- A prim that does not exist any more. -/
theorem sound_vanished (h : (replica env a d q).Sound (canon q))
    (hseq : a.server.session.serverSeq ≤ b.session.serverSeq)
    (hq : Session.Quiet d q a.server.session b.session dd)
    (hcur : Session.current env.view b.session.stage q = none)
    (hpending : ((a.after b dd).pending d q).Sublist (a.pending d q)) :
    (replica env (a.after b dd) d q).Sound (canon q) := by
  rw [replica_quiet hq, hcur]
  have hnone := h.vanish (o := Owed b d q) (f := []) le_rfl hseq (h.threshold_le.trans hseq) (by simp)
    hpending
  simpa using hnone

/-- Nothing changes for the client and the prim. -/
theorem sound_unchanged (h : (replica env a d q).Sound (canon q))
    (hseq : a.server.session.serverSeq ≤ b.session.serverSeq)
    (hq : Session.Quiet d q a.server.session b.session dd)
    (hcur : Session.current env.view b.session.stage q =
      Session.current env.view a.server.session.stage q)
    (hpending : (a.after b dd).pending d q = a.pending d q)
    (howed : Owed a.server d q → Owed b d q) :
    (replica env (a.after b dd) d q).Sound (canon q) := by
  rw [replica_quiet hq, hcur, hpending]
  exact (h.advance hseq).owe howed

end Sending

omit [LinearOrder Path] in
theorem grows_reject (s : Session σ Path R) (c : ConnectionId) (i : Nat) (e : AckError) :
    Session.Grows s (s.reject c i e) [⟨c, ⟨.ack i (some e), 0⟩, .rejection⟩] := by
  refine ⟨rfl, rfl, le_rfl, fun _ => le_rfl, fun hs => ⟨?_, hs.maxSent_le, hs.threshold_le⟩⟩
  rw [Session.reject, List.forall_mem_append, List.forall_mem_singleton]
  exact ⟨hs.sent_le, Nat.zero_le _⟩

theorem Inv.reject (hlaw : Lawful env canon) (h : Inv env canon a) {r : Request Path R}
    {st : SubmitStatus} (hio : a.server.io c = .rejecting r st) :
    Inv env canon (a.serve { a.server.setIo c (Server.afterRejection env r st) with
      session := a.server.session.reject c r.requestId (rejectionReason st) }) := by
  have hc : c ∈ a.server.session.clients := h.io c (by simp [hio])
  obtain ⟨⟨p, u, i, b, rfl⟩, rfl⟩ := h.rejecting c r st hio
  -- the correction is about to be submitted, unless the path is empty
  have hnext : ioCommands c (Server.afterRejection env (.xformUpdate p (some u) i b) .queueFull) = [] ∧
      (∀ r, Server.afterRejection env (.xformUpdate p (some u) i b) .queueFull ≠ .submitting r) ∧
      (∀ r st, Server.afterRejection env (.xformUpdate p (some u) i b) .queueFull ≠ .rejecting r st) ∧
      (env.isEmptyPath p = true ∨
        Server.afterRejection env (.xformUpdate p (some u) i b) .queueFull = .correcting p) := by
    rw [Server.afterRejection]
    split_ifs with hempty
    · exact ⟨rfl, by simp, by simp, .inl hempty⟩
    · exact ⟨rfl, by simp, by simp, .inr rfl⟩
  generalize Server.afterRejection env (.xformUpdate p (some u) i b) .queueFull = io at hnext ⊢
  obtain ⟨hcommands, hsub, hrej, hcorr⟩ := hnext
  have hg := grows_reject a.server.session c i (rejectionReason .queueFull)
  rw [serve_eq_after hg.sent]
  have hset : Wf { a with server := a.server.setIo c io } :=
    h.toWf.setIo hc (fun r hr => absurd hr (hsub r)) (fun r st hr => absurd hr (hrej r st))
      fun q hq => .inr (h.toWf.marked (by simp [hio]) q hq)
  refine { hset.grow hg with sound := ?_ }
  intro d hd q
  have hsound := h.sound d hd q
  have hquiet : Session.Quiet d q a.server.session
      (a.server.session.reject c i (rejectionReason .queueFull))
      [⟨c, ⟨.ack i (some (rejectionReason .queueFull)), 0⟩, .rejection⟩] := by
    refine ⟨rfl, ?_⟩
    by_cases hdc : c = d <;> simp [framesIn, xformsOf, hdc]
  have hpending : (a.after { a.server.setIo c io with
      session := a.server.session.reject c i (rejectionReason .queueFull) }
      [⟨c, ⟨.ack i (some (rejectionReason .queueFull)), 0⟩, .rejection⟩]).pending d q = a.pending d q :=
    pending_setIo hcommands (by rw [hio]; rfl)
  by_cases hempty : d = c ∧ q = p ∧ env.isEmptyPath p = true
  · obtain ⟨rfl, rfl, hempty⟩ := hempty
    have hsub := List.Sublist.refl (a.pending d q)
    rw [← hpending] at hsub
    exact sound_vanished hsound le_rfl hquiet (hlaw.empty_path _ _ hempty) (hpending ▸ hsub)
  · refine sound_unchanged hsound le_rfl hquiet rfl hpending fun howed => ?_
    have hset : Owed (a.server.setIo c io) d q := by
      rcases howed with ho | ho
      · by_cases hdc : d = c
        · subst hdc
          rw [hio] at ho
          obtain rfl : p = q := ho
          have hne : io = .correcting p := hcorr.resolve_left fun he => hempty ⟨rfl, rfl, he⟩
          exact .inl (by simp [Server.setIo, hne, ioOwes])
        · exact .inl (by simpa [Server.setIo, hdc] using ho)
      · exact .inr ho
    exact hset

end IdtxCore.Collab
