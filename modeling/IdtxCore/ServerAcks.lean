import Mathlib.Algebra.Order.Group.Multiset
import Mathlib.Tactic.Abel
import IdtxCore.Server

/-!
# Exactly one Ack per request

A handler sends its broadcasts, then its Ack, then at most a correction (`Handles.answers`), whichever
way it leaves; a command that is not a request sends no Ack. So a request is received, then it is in
exactly one place (`OnMessage`, a queue, the consumer), then it is acked. `Accounted` is that
balance, kept by every step.
-/

namespace IdtxCore

/-- The request id of an Ack. -/
def Message.ackId {Path R : Type} : Message Path R → Option Nat
  | .ack requestId _ => some requestId
  | _ => none

namespace Session
variable {σ Path R : Type}

def IsBroadcast (x : Sent Path R) : Prop := x.cause = .broadcast ∧ x.frame.message.ackId = none

def IsCorrection (x : Sent Path R) : Prop := x.cause = .correction ∧ x.frame.message.ackId = none

/-! ### What handlers send -/

/-- `s'` has sent more, and only frames that satisfy `P`. -/
structure Adds (P : Sent Path R → Prop) (s s' : Session σ Path R) : Prop where
  clients : s'.clients = s.clients
  sent : ∃ xs, s'.sent = s.sent ++ xs ∧ ∀ x ∈ xs, P x

section Adds
variable {P Q : Sent Path R → Prop} {s s₁ s' : Session σ Path R}

theorem Adds.of_eq (hclients : s'.clients = s.clients) (hsent : s'.sent = s.sent) : Adds P s s' :=
  ⟨hclients, [], by simp [hsent], by simp⟩

theorem Adds.refl (s : Session σ Path R) : Adds P s s := .of_eq rfl rfl

theorem Adds.setDirty (s : Session σ Path R) (dirty : Bool) : Adds P s { s with dirty := dirty } :=
  .of_eq rfl rfl

theorem Adds.trans (h : Adds P s s₁) (h' : Adds P s₁ s') : Adds P s s' := by
  obtain ⟨hc, xs, hx, hP⟩ := h
  obtain ⟨hc', ys, hy, hP'⟩ := h'
  refine ⟨hc'.trans hc, xs ++ ys, by rw [hy, hx, List.append_assoc], ?_⟩
  rw [List.forall_mem_append]
  exact ⟨hP, hP'⟩

theorem Adds.mono (h : Adds P s s') (hPQ : ∀ x, P x → Q x) : Adds Q s s' := by
  obtain ⟨hc, xs, hx, hP⟩ := h
  exact ⟨hc, xs, hx, fun x hmem => hPQ x (hP x hmem)⟩

variable [LinearOrder Path] {view : StageView σ Path R}

theorem adds_announce (w : ConnectionId) (prims : List Path) (s : Session σ Path R) :
    Adds IsBroadcast s (s.announce view w prims) := by
  rw [announce_eq]
  refine ⟨rfl, _, rfl, ?_⟩
  intro x hx
  obtain ⟨-, hm, -, hcause⟩ := Version.mem_sends.1 hx
  rw [messages_noticeVersion] at hm
  obtain ⟨p, -, hp⟩ := List.mem_filterMap.1 hm
  obtain ⟨t, -, ht⟩ := Option.map_eq_some_iff.1 hp
  refine ⟨hcause, ?_⟩
  rw [← ht]
  rfl

theorem adds_onObjectsChanged (flags : NoticeFlags) (s : Session σ Path R)
    (notice : ObjectsChanged Path) : Adds IsBroadcast s (onObjectsChanged view flags s notice) := by
  unfold onObjectsChanged
  split_ifs
  · exact .refl s
  · exact .refl s
  · exact .refl s
  · exact adds_announce ..
  · exact .refl s
  · exact adds_announce ..

variable (view) in
theorem adds_author {α : Type} (flags : NoticeFlags) (call : Call σ Path α) (s : Session σ Path R) :
    Adds IsBroadcast s (s.author view flags call) := by
  refine author_induction (motive := Adds IsBroadcast s) ?_ ?_ (.refl s)
  · intro s' stage h
    exact h.trans (.of_eq rfl rfl)
  · intro n _ s' _ h
    exact h.trans (adds_onObjectsChanged flags s' n.2)

theorem adds_announceToAll (w : ConnectionId) (p : Path) {m : Message Path R}
    (hm : m.ackId = none) (s : Session σ Path R) :
    Adds IsBroadcast s (s.announceToAll w p m) := by
  refine ⟨rfl, _, rfl, ?_⟩
  intro x hx
  obtain ⟨c, -, rfl⟩ := List.mem_map.1 hx
  exact ⟨rfl, hm⟩

theorem adds_sendCorrection (s : Session σ Path R) (c : ConnectionId) (p : Path) :
    Adds IsCorrection s (sendCorrection view s c p) := by
  unfold sendCorrection
  split
  · exact .refl s
  · split
    · exact .refl s
    · rename_i m hm
      split
      · refine ⟨rfl, _, rfl, ?_⟩
        rw [List.forall_mem_singleton]
        refine ⟨rfl, ?_⟩
        rcases correctionMessage_cases hm with ⟨t, rfl⟩ | rfl <;> rfl
      · exact .refl s

theorem adds_reloadRootLayer (call : Call σ Path Bool) (s : Session σ Path R) :
    Adds IsBroadcast s (s.reloadRootLayer view call) := by
  unfold reloadRootLayer
  split_ifs
  · exact .refl s
  · exact adds_author view _ call s

end Adds

/-- The answer to a request: broadcasts, then the Ack if the client is still attached, then
corrections. -/
def Answers (c : ConnectionId) (requestId : Nat) (s s' : Session σ Path R) : Prop :=
  s'.clients = s.clients ∧
  ∃ bs acks cs, s'.sent = s.sent ++ (bs ++ acks ++ cs) ∧ (∀ x ∈ bs, IsBroadcast x) ∧
    (∀ x ∈ cs, IsCorrection x) ∧
    ((c ≠ 0 ∧ c ∈ s.clients) ∧ (∃ error seq, acks = [⟨c, ⟨.ack requestId error, seq⟩, .ack⟩]) ∨
      ¬ (c ≠ 0 ∧ c ∈ s.clients) ∧ acks = [])

theorem Answers.of_adds {c : ConnectionId} {r : Nat} {e : Option AckError}
    {s s₁ s' : Session σ Path R} (h : Adds IsBroadcast s s₁)
    (h' : Adds IsCorrection (s₁.sendAck c r e) s') : Answers c r s s' := by
  obtain ⟨hc, bs, hbs, hB⟩ := h
  obtain ⟨hc', cs, hcs, hC⟩ := h'
  by_cases hatt : c ≠ 0 ∧ c ∈ s₁.clients
  · rw [sendAck, sendToConnection, if_pos hatt] at hc' hcs
    refine ⟨hc'.trans hc, bs, _, cs, ?_, hB, hC, .inl ⟨hc ▸ hatt, e, s₁.serverSeq, rfl⟩⟩
    rw [hcs, hbs]
    simp
  · rw [sendAck, sendToConnection, if_neg hatt] at hc' hcs
    refine ⟨hc'.trans hc, bs, [], cs, ?_, hB, hC, .inr ⟨hc ▸ hatt, rfl⟩⟩
    rw [hcs, hbs]
    simp

section Handlers
variable [LinearOrder Path] {env : Env σ Path R} {s s' : Session σ Path R}
  {command : SessionCommand Path R}

theorem answers_handleTransform (view : StageView σ Path R) (call : Call σ Path Bool)
    (command : TransformCommand Path R) (s : Session σ Path R) :
    Answers command.origin command.requestId s (s.handleTransform view call command) := by
  have hauthor := adds_author view { currentOrigin := command.origin } call s
  unfold handleTransform
  split
  · exact .of_adds (.refl s) (.refl _)
  · exact .of_adds (.refl s) (.refl _)
  · simp only
    split
    · exact .of_adds (hauthor.trans (.setDirty _ true)) (.refl _)
    · exact .of_adds hauthor (adds_sendCorrection ..)

theorem answers_handleCreatePrim (view : StageView σ Path R)
    (call : Call σ Path (Option (CreatedPrim Path R))) (command : CreatePrimCommand Path)
    (s : Session σ Path R) :
    Answers command.origin command.requestId s (s.handleCreatePrim view call command) := by
  have hauthor := adds_author view
    { currentOrigin := command.origin, createInProgress := true } call s
  unfold handleCreatePrim
  split_ifs
  · exact .of_adds (.refl s) (.refl _)
  · simp only
    split
    · exact .of_adds (hauthor.trans (adds_announceToAll _ _ rfl _)) (.refl _)
    · exact .of_adds hauthor (.refl _)

theorem answers_handleSetPrimActive (view : StageView σ Path R)
    (call : Call σ Path PrimDispatcher.SetActiveStatus) (command : SetPrimActiveCommand Path)
    (s : Session σ Path R) :
    Answers command.origin command.requestId s (s.handleSetPrimActive view call command) := by
  have hauthor := adds_author view
    { currentOrigin := command.origin, setActiveInProgress := true } call s
  unfold handleSetPrimActive
  split_ifs
  · exact .of_adds (.refl s) (.refl _)
  · simp only
    split
    case h_7 => exact .of_adds (hauthor.trans (adds_announceToAll _ _ rfl _)) (.refl _)
    all_goals exact .of_adds hauthor (.refl _)

/-- Every exit path of the three request handlers answers the request once. -/
theorem Handles.answers (h : Handles env s command s') {c : ConnectionId} {r : Nat}
    (hreq : command.request = some (c, r)) : Answers c r s s' := by
  cases h with
  | transform =>
    obtain ⟨rfl, rfl⟩ := Prod.mk.inj (Option.some.inj hreq)
    exact answers_handleTransform ..
  | createPrim =>
    obtain ⟨rfl, rfl⟩ := Prod.mk.inj (Option.some.inj hreq)
    exact answers_handleCreatePrim ..
  | setPrimActive =>
    obtain ⟨rfl, rfl⟩ := Prod.mk.inj (Option.some.inj hreq)
    exact answers_handleSetPrimActive ..
  | join => cases hreq
  | commit => cases hreq
  | reload => cases hreq
  | flush => cases hreq
  | correction => cases hreq

omit [LinearOrder Path] in
theorem ackId_snapshotFrames (view : StageView σ Path R) (stage : σ) :
    ∀ m ∈ snapshotFrames view stage, m.ackId = none := by
  intro m hm
  simp only [snapshotFrames, createFrames, List.mem_append, List.mem_map, List.mem_filterMap,
    Option.map_eq_some_iff, List.mem_singleton] at hm
  obtain ((⟨_, _, rfl⟩ | ⟨_, _, _, _, rfl⟩) | ⟨_, _, rfl⟩) | rfl := hm <;> rfl

/-- A command that is not a request sends no Ack. -/
theorem Handles.no_ack (h : Handles env s command s') (hreq : command.request = none) :
    Adds (fun x => x.frame.message.ackId = none) s s' := by
  have hbroadcast : ∀ {s s' : Session σ Path R}, Adds IsBroadcast s s' →
      Adds (fun x => x.frame.message.ackId = none) s s' := fun h => h.mono fun _ hx => hx.2
  cases h with
  | transform => cases hreq
  | createPrim => cases hreq
  | setPrimActive => cases hreq
  | join =>
    unfold handleJoin sendToConnection
    split_ifs
    · exact .refl s
    · refine ⟨rfl, _, rfl, ?_⟩
      intro x hx
      obtain ⟨m, hm, rfl⟩ := List.mem_map.1 hx
      exact ackId_snapshotFrames _ _ m hm
    · exact .refl s
  | @commit commit reload =>
    refine hbroadcast ?_
    have hauthor := adds_author env.view {} commit s
    unfold handleCommit
    split_ifs
    · exact .refl s
    · exact .refl s
    · simp only
      split
      · exact (hauthor.trans (.setDirty _ false)).trans (adds_reloadRootLayer ..)
      · exact hauthor
  | reload => exact hbroadcast (adds_reloadRootLayer ..)
  | flush =>
    unfold handleFlush
    split_ifs
    · exact .refl s
    · exact .refl s
    · exact .of_eq rfl rfl
  | correction => exact (adds_sendCorrection ..).mono fun _ hx => hx.2

end Handlers

/-! ### Accounting -/

/-- The request ids of the Acks to `c` among some frames. -/
def acksIn (c : ConnectionId) (xs : List (Sent Path R)) : Multiset Nat :=
  ↑((xs.filter (·.connection = c)).filterMap (·.frame.message.ackId))

/-- The request ids of the Acks sent to `c`. -/
def acksTo (s : Session σ Path R) (c : ConnectionId) : Multiset Nat :=
  ↑((s.framesTo c).filterMap (·.message.ackId))

theorem acksTo_eq (s : Session σ Path R) (c : ConnectionId) : s.acksTo c = acksIn c s.sent := by
  rw [acksTo, framesTo, List.filterMap_map]
  rfl

@[simp] theorem acksIn_append (c : ConnectionId) (xs ys : List (Sent Path R)) :
    acksIn c (xs ++ ys) = acksIn c xs + acksIn c ys := by
  simp [acksIn]

theorem acksIn_eq_zero (c : ConnectionId) {xs : List (Sent Path R)}
    (h : ∀ x ∈ xs, x.frame.message.ackId = none) : acksIn c xs = 0 := by
  have hnil : (xs.filter (·.connection = c)).filterMap (·.frame.message.ackId) = [] := by
    rw [List.filterMap_eq_nil_iff]
    exact fun x hx => h x (List.mem_of_mem_filter hx)
  rw [acksIn, hnil]
  rfl

theorem Adds.acksTo {s s' : Session σ Path R} (h : Adds (fun x => x.frame.message.ackId = none) s s')
    (c : ConnectionId) : s'.acksTo c = s.acksTo c := by
  obtain ⟨-, xs, hxs, hP⟩ := h
  rw [acksTo_eq, acksTo_eq, hxs, acksIn_append, acksIn_eq_zero c hP, add_zero]

/-- An answered request adds its id to the Acks of the client it came from, if that is attached. -/
theorem Answers.acksTo {s s' : Session σ Path R} {c : ConnectionId} {r : Nat} (h : Answers c r s s')
    (d : ConnectionId) :
    s'.acksTo d = s.acksTo d + if d = c ∧ c ≠ 0 ∧ c ∈ s.clients then {r} else 0 := by
  obtain ⟨-, bs, acks, cs, hsent, hB, hC, hacks⟩ := h
  have hb : acksIn d bs = 0 := acksIn_eq_zero d fun x hx => (hB x hx).2
  have hc : acksIn d cs = 0 := acksIn_eq_zero d fun x hx => (hC x hx).2
  rw [acksTo_eq, acksTo_eq, hsent, acksIn_append, acksIn_append, acksIn_append, hb, hc, zero_add,
    add_zero]
  congr 1
  rcases hacks with ⟨hatt, error, seq, rfl⟩ | ⟨hatt, rfl⟩
  · by_cases hd : d = c
    · subst hd
      simp [acksIn, hatt, Message.ackId]
    · simp [acksIn, hd, Ne.symm hd]
  · rw [if_neg fun h => hatt h.2]
    rfl

end Session

/-- The request that a message handler still has to answer or to queue. -/
def IoState.ids {Path R : Type} : IoState Path R → Multiset Nat
  | .submitting request => {request.requestId}
  | .rejecting request _ => {request.requestId}
  | _ => 0

namespace Server
variable {σ Path R : Type}

/-- The request ids of the commands of `c`. -/
def idsFrom (c : ConnectionId) (commands : List (SessionCommand Path R)) : Multiset Nat :=
  ↑(commands.filterMap fun command =>
    command.request.bind fun x => if x.1 = c then some x.2 else none)

/-- The request ids received from `c`. -/
def receivedFrom (a : Server σ Path R) (c : ConnectionId) : Multiset Nat :=
  ↑((a.received.filter (·.1 = c)).map (·.2))

/-- The requests of `c` that are queued or being handled. -/
def outstanding (a : Server σ Path R) (c : ConnectionId) : Multiset Nat :=
  idsFrom c a.normal + idsFrom c a.priority + idsFrom c a.busy.toList + (a.io c).ids

section Ids
variable {a : Server σ Path R} {c d : ConnectionId}

@[simp] theorem idsFrom_append (xs ys : List (SessionCommand Path R)) :
    idsFrom c (xs ++ ys) = idsFrom c xs + idsFrom c ys := by
  simp [idsFrom]

@[simp] theorem idsFrom_nil : idsFrom c ([] : List (SessionCommand Path R)) = 0 := rfl

theorem idsFrom_cons (command : SessionCommand Path R) (xs : List (SessionCommand Path R)) :
    idsFrom c (command :: xs) = idsFrom c [command] + idsFrom c xs :=
  idsFrom_append [command] xs

theorem idsFrom_singleton {command : SessionCommand Path R} {r : Nat}
    (h : command.request = some (d, r)) : idsFrom c [command] = if c = d then {r} else 0 := by
  by_cases hcd : c = d
  · subst hcd
    simp [idsFrom, h]
  · simp [idsFrom, h, hcd, Ne.symm hcd]

theorem idsFrom_singleton_none (command : SessionCommand Path R) (h : command.request = none) :
    idsFrom c [command] = 0 := by
  simp [idsFrom, h]

end Ids

/-- Every request of an attached client is acked, queued or being handled, and a connection that was
never attached has none. -/
structure Accounted (a : Server σ Path R) : Prop where
  balance : ∀ c ∈ a.session.clients, a.receivedFrom c = a.session.acksTo c + a.outstanding c
  fresh : ∀ c, c ∉ a.opened →
    a.receivedFrom c = 0 ∧ a.session.acksTo c = 0 ∧ a.outstanding c = 0

namespace Accounted
variable {a a' : Server σ Path R}

/-- A step that moves a request from one place to another. -/
theorem of_eq (h : Accounted a) (hclients : a'.session.clients = a.session.clients)
    (hsent : a'.session.sent = a.session.sent) (hopened : a'.opened = a.opened)
    (hreceived : a'.received = a.received) (hout : ∀ c, a'.outstanding c = a.outstanding c) :
    Accounted a' := by
  have hacks : ∀ c, a'.session.acksTo c = a.session.acksTo c := by
    intro c
    rw [Session.acksTo_eq, Session.acksTo_eq, hsent]
  have hrec : ∀ c, a'.receivedFrom c = a.receivedFrom c := by
    intro c
    rw [receivedFrom, receivedFrom, hreceived]
  constructor
  · intro c hc
    rw [hrec, hacks, hout]
    exact h.balance c (hclients ▸ hc)
  · intro c hc
    rw [hrec, hacks, hout]
    exact h.fresh c (hopened ▸ hc)

/-- A step of the message handler of `c` that neither receives nor answers. -/
theorem of_setIo (h : Accounted a) {c : ConnectionId} {io : IoState Path R}
    (hids : io.ids = (a.io c).ids) : Accounted (a.setIo c io) := by
  refine h.of_eq rfl rfl rfl rfl ?_
  intro d
  by_cases hd : d = c
  · subst hd
    simp [outstanding, setIo, hids]
  · simp [outstanding, setIo, hd]

theorem attach (h : Accounted a) {c : ConnectionId} (hc : c ∉ a.opened) :
    Accounted { a with session := a.session.attachClient c, opened := c :: a.opened } := by
  constructor
  · intro d hd
    rcases List.mem_append.1 hd with hd | hd
    · exact h.balance d hd
    · rw [List.mem_singleton.1 hd]
      obtain ⟨hr, ha, ho⟩ := h.fresh c hc
      exact (hr.trans (add_zero _).symm).trans (congrArg₂ (· + ·) ha ho).symm
  · intro d hd
    exact h.fresh d fun hmem => hd (List.mem_cons_of_mem _ hmem)

theorem receive (h : Accounted a) {c : ConnectionId} {request : Request Path R}
    (hopened : c ∈ a.opened) (hio : a.io c = .idle) :
    Accounted { a.setIo c (.submitting request) with
      received := a.received ++ [(c, request.requestId)] } := by
  -- the request id is new on both sides
  have hrec : ∀ d, receivedFrom { a.setIo c (.submitting request) with
      received := a.received ++ [(c, request.requestId)] } d =
        a.receivedFrom d + if d = c then {request.requestId} else 0 := by
    intro d
    by_cases hd : d = c
    · subst hd
      simp only [receivedFrom, List.filter_append, List.filter_singleton, List.map_append, if_true,
        decide_true, ← Multiset.coe_add]
      rfl
    · simp [receivedFrom, hd, Ne.symm hd]
  have hout : ∀ d, outstanding { a.setIo c (.submitting request) with
      received := a.received ++ [(c, request.requestId)] } d =
        a.outstanding d + if d = c then {request.requestId} else 0 := by
    intro d
    by_cases hd : d = c
    · subst hd; simp [outstanding, setIo, hio, IoState.ids]
    · simp [outstanding, setIo, hd]
  constructor
  · intro d hd
    rw [hrec, hout, h.balance d hd]
    exact add_assoc _ _ _
  · intro d hd
    have hdc : d ≠ c := by rintro rfl; exact hd hopened
    rw [hrec, hout, if_neg hdc, add_zero, add_zero]
    exact h.fresh d hd

theorem submit (h : Accounted a) {c : ConnectionId} {request : Request Path R}
    (hio : a.io c = .submitting request) :
    Accounted { a.setIo c .idle with normal := a.normal ++ [request.command c] } := by
  refine h.of_eq rfl rfl rfl rfl ?_
  intro d
  have hids := idsFrom_singleton (c := d) (request.request_command c)
  by_cases hd : d = c
  · subst hd
    simp only [outstanding, setIo, idsFrom_append, hids, if_true, Function.update_self, hio, IoState.ids]
    abel
  · simp [outstanding, setIo, hids, hd]

theorem reject (h : Accounted a) {c : ConnectionId} {request : Request Path R} {status : SubmitStatus}
    {io : IoState Path R} {error : AckError} (hio : a.io c = .rejecting request status)
    (hids : io.ids = 0) (hopened : c ∈ a.opened) :
    Accounted { a.setIo c io with session := a.session.reject c request.requestId error } := by
  have hacks : ∀ d, (a.session.reject c request.requestId error).acksTo d =
      a.session.acksTo d + if d = c then {request.requestId} else 0 := by
    intro d
    rw [Session.acksTo_eq, Session.acksTo_eq, Session.reject, Session.acksIn_append]
    by_cases hd : d = c
    · subst hd; simp [Session.acksIn, Message.ackId]
    · simp [Session.acksIn, hd, Ne.symm hd]
  have hout : ∀ d, a.outstanding d = outstanding { a.setIo c io with
      session := a.session.reject c request.requestId error } d +
        if d = c then {request.requestId} else 0 := by
    intro d
    by_cases hd : d = c
    · subst hd
      have hold : (a.io d).ids = {request.requestId} := by rw [hio]; rfl
      simp [outstanding, setIo, hold, hids]
    · simp [outstanding, setIo, hd]
  constructor
  · intro d hd
    have hb := h.balance d hd
    rw [hout] at hb
    show a.receivedFrom d = _ + _
    rw [hb, hacks]
    abel
  · intro d hd
    have hdc : d ≠ c := by rintro rfl; exact hd hopened
    obtain ⟨hr, ha, ho⟩ := h.fresh d hd
    rw [hout, if_neg hdc, add_zero] at ho
    refine ⟨hr, ?_, ho⟩
    rw [hacks, ha, if_neg hdc, add_zero]

theorem handle [LinearOrder Path] {env : Session.Env σ Path R} (h : Accounted a)
    {command : SessionCommand Path R} {s' : Session σ Path R} (hbusy : a.busy = some command)
    (hh : Session.Handles env a.session command s')
    (hopened : ∀ c ∈ a.session.clients, c ∈ a.opened ∧ c ≠ 0) :
    Accounted { clearMark command a with session := s', busy := none } := by
  have hmark : (clearMark command a).opened = a.opened ∧ (clearMark command a).received = a.received ∧
      ∀ d, outstanding { clearMark command a with session := s', busy := none } d +
        idsFrom d [command] = a.outstanding d := by
    refine ⟨by cases command <;> rfl, by cases command <;> rfl, ?_⟩
    intro d
    have heq : outstanding { clearMark command a with session := s', busy := none } d =
        idsFrom d a.normal + idsFrom d a.priority + 0 + (a.io d).ids := by
      cases command <;> rfl
    rw [heq, outstanding, hbusy, Option.toList_some]
    abel
  -- what the client gets acked is what the consumer had taken
  have hacks : ∀ d ∈ a.session.clients,
      s'.acksTo d = a.session.acksTo d + idsFrom d [command] := by
    intro d hd
    cases hreq : command.request with
    | none => rw [(hh.no_ack hreq).acksTo, idsFrom_singleton_none command hreq, add_zero]
    | some x =>
      obtain ⟨c, r⟩ := x
      rw [(hh.answers hreq).acksTo, idsFrom_singleton hreq]
      congr 1
      by_cases hdc : d = c
      · subst hdc
        simp [hd, (hopened d hd).2]
      · simp [hdc]
  constructor
  · intro d hd
    have hd' : d ∈ a.session.clients := hh.clients ▸ hd
    have hb := h.balance d hd'
    rw [← hmark.2.2 d] at hb
    show receivedFrom _ d = s'.acksTo d + _
    rw [receivedFrom, hmark.2.1, hacks d hd']
    exact hb.trans (by abel)
  · intro d hd
    obtain ⟨hr, ha, ho⟩ := h.fresh d (hmark.1 ▸ hd)
    rw [← hmark.2.2 d] at ho
    refine ⟨?_, ?_, Multiset.le_zero.1 (ho ▸ Multiset.le_add_right _ _)⟩
    · rw [receivedFrom, hmark.2.1]
      exact hr
    · show s'.acksTo d = 0
      cases hreq : command.request with
      | none => rw [(hh.no_ack hreq).acksTo, ha]
      | some x =>
        rw [(hh.answers (c := x.1) (r := x.2) hreq).acksTo, ha, zero_add, if_neg]
        rintro ⟨rfl, -, hmem⟩
        exact hd (hmark.1 ▸ (hopened _ hmem).1)

end Accounted

section OneAck
variable [LinearOrder Path] {env : Session.Env σ Path R} {a a' : Server σ Path R}

omit [LinearOrder Path] in
theorem ids_afterRejection (request : Request Path R) (status : SubmitStatus) :
    (afterRejection env request status).ids = 0 := by
  unfold afterRejection
  split
  · split_ifs <;> rfl
  · rfl

theorem Accounted.step (h : Accounted a) {event : Event Path R} (hs : Step env a event a')
    (hopened : ∀ c ∈ a.session.clients, c ∈ a.opened ∧ c ≠ 0)
    (hio : ∀ c, a.io c ≠ .idle → c ∈ a.session.clients) : Accounted a' := by
  cases hs with
  | attach h0 hc => exact h.attach hc
  | detach => exact ⟨fun d hd => h.balance d (List.mem_of_mem_erase hd), h.fresh⟩
  | @submitInternal command hint =>
    refine h.of_eq rfl rfl rfl rfl fun d => ?_
    have hreq : command.request = none := by
      cases command <;> first | rfl | cases hint
    simp [outstanding, idsFrom_singleton_none command hreq]
  | @receive c request hc hidle => exact h.receive (hopened c hc).1 hidle
  | submit hc => exact h.submit hc
  | submitRejected hc => exact h.of_setIo (by rw [hc]; rfl)
  | @reject c request status hc =>
    exact h.reject hc (ids_afterRejection request status) (hopened c (hio c (by simp [hc]))).1
  | markedAlready hc => exact h.of_setIo (by rw [hc]; rfl)
  | sessionGone hc => exact h.of_setIo (by rw [hc]; rfl)
  | @mark c primPath hc =>
    have hset : Accounted (a.setIo c (.submittingCorrection primPath)) :=
      h.of_setIo (by rw [hc]; rfl)
    exact hset.of_eq rfl rfl rfl rfl fun _ => rfl
  | @submitCorrection c primPath hc =>
    have hset : Accounted (a.setIo c .idle) := h.of_setIo (by rw [hc]; rfl)
    refine hset.of_eq rfl rfl rfl rfl fun d => ?_
    simp [outstanding, setIo, idsFrom_singleton_none (.correction c primPath) rfl]
  | correctionRejected hc => exact h.of_setIo (by rw [hc]; rfl)
  | @clear c primPath hc =>
    have hset : Accounted (a.setIo c .idle) := h.of_setIo (by rw [hc]; rfl)
    exact hset.of_eq rfl rfl rfl rfl fun _ => rfl
  | @takeNormal command rest hbusy hnormal =>
    refine h.of_eq rfl rfl rfl rfl fun d => ?_
    simp only [outstanding, hbusy, hnormal, idsFrom_cons command rest, Option.toList_some,
      Option.toList_none, idsFrom_nil]
    abel
  | @takePriority command rest hbusy hpriority =>
    refine h.of_eq rfl rfl rfl rfl fun d => ?_
    simp only [outstanding, hbusy, hpriority, idsFrom_cons command rest, Option.toList_some,
      Option.toList_none, idsFrom_nil]
    abel
  | handle hbusy hh => exact h.handle hbusy hh hopened

theorem accounted_of_reachable (h : (system env).Reachable a) : Accounted a := by
  refine Lts.System.invariant ?_ ?_ h
  · rintro _ ⟨stage, rfl⟩
    exact ⟨by simp, fun c _ => ⟨rfl, rfl, rfl⟩⟩
  · rintro a a' hr hacc ⟨event, hs⟩
    obtain ⟨b, hb, hsession, hopened, hio⟩ := consumer_of_reachable hr
    have hclients := (Consumer.inv_of_reachable hb).clients_opened
    rw [hsession, hopened] at hclients
    exact hacc.step hs hclients hio

/-- In every run, every request of a client that stays attached is acked exactly once or is still
queued or being handled, and the Ack of a command follows every broadcast the command caused. -/
theorem oneAck_of_reachable (h : (system env).Reachable a) :
    (∀ c ∈ a.session.clients, a.receivedFrom c = a.session.acksTo c + a.outstanding c) ∧
    ∀ command c r s', a.busy = some command → command.request = some (c, r) →
      c ∈ a.session.clients → Session.Handles env a.session command s' →
      ∃ bs error seq cs, s'.sent = a.session.sent ++
          (bs ++ [⟨c, ⟨.ack r error, seq⟩, .ack⟩] ++ cs) ∧
        (∀ x ∈ bs, Session.IsBroadcast x) ∧ ∀ x ∈ cs, Session.IsCorrection x := by
  refine ⟨(accounted_of_reachable h).balance, ?_⟩
  intro command c r s' _ hreq hc hh
  obtain ⟨-, bs, acks, cs, hsent, hB, hC, ⟨-, error, seq, rfl⟩ | ⟨hnot, -⟩⟩ := hh.answers hreq
  · exact ⟨bs, error, seq, cs, hsent, hB, hC⟩
  · obtain ⟨b, hb, hsession, hopened, -⟩ := consumer_of_reachable h
    have hclients := (Consumer.inv_of_reachable hb).clients_opened c (hsession ▸ hc)
    exact absurd ⟨hclients.2, hc⟩ hnot

end OneAck

open TwoLayerStage in
/-- Client 1 sends three requests: the first is handled, the second finds the queue full and is
answered by `OnMessage`, and the third is queued. -/
theorem oneAck_full_queue : ∃ a : Server TwoLayerStage Nat Int, (system env).Reachable a ∧
    a.receivedFrom 1 = {10, 11, 12} ∧ a.session.acksTo 1 = {10, 11} ∧ a.outstanding 1 = {12} ∧
    a.receivedFrom 1 = a.session.acksTo 1 + a.outstanding 1 := by
  have h : (system env).Reachable { session := { stage := { root := [(7, shift 0)] } } } :=
    .init ⟨_, rfl⟩
  replace h := h.step ⟨.attach 1, .attach (by decide) (by decide)⟩
  replace h := h.step ⟨.receive 1 (.xformUpdate 7 (some (shift 1)) 10 0), .receive (by decide) rfl⟩
  replace h := h.step ⟨.submit 1, .submit rfl⟩
  replace h := h.step ⟨.receive 1 (.xformUpdate 7 (some (shift 2)) 11 0), .receive (by decide) rfl⟩
  replace h := h.step ⟨.submitRejected 1 .queueFull, .submitRejected rfl (by decide)⟩
  replace h := h.step ⟨.takeNormal, .takeNormal rfl rfl⟩
  replace h := h.step ⟨.reject 1, .reject rfl⟩
  replace h := h.step ⟨.mark 1, .mark rfl rfl⟩
  replace h := h.step ⟨.submitCorrection 1, .submitCorrection rfl⟩
  replace h := h.step ⟨.handle, .handle rfl (.transform rfl)⟩
  replace h := h.step ⟨.receive 1 (.setPrimActive 7 false 12), .receive (by decide) rfl⟩
  replace h := h.step ⟨.submit 1, .submit rfl⟩
  exact ⟨_, h, by decide, by decide, by decide, (oneAck_of_reachable h).1 1 (by decide)⟩

end Server
end IdtxCore
