import IdtxCore.Reaper
import Mathlib.Data.List.Nodup

/-!
# The connections of a session

`OnAccept`, `OnOpen` and `OnClose` of `WebSocketController` with the part of `SessionManager` that they use. The
handlers of one connection run one after the other, those of different connections at the same time; a step is what a
handler does between two critical sections. A session's `clients` are pointers to connections, and the consumer of the
session sends through them.

They are the connections that `OnOpen` has registered and `OnClose` not yet detached (`Inv.clients`): the id of a
connection is its own, and `OnClose` detaches a connection only from the session that `OnOpen` has stored with it.
-/

namespace IdtxCore.WebSocketController

/-- What attaching and detaching see of a session; `K` are the connections. -/
structure Room (K : Type) where
  mode : SessionMode
  clients : List (ConnectionId × K) := []

namespace Room
variable {K : Type} (x : Room K)

/-- `AttachClient` under `clients_mutex`. -/
def attach (c : ConnectionId) (k : K) : AttachStatus × Room K :=
  if x.mode = .singleEdit ∧ x.clients ≠ [] then (.singleEditBusy, x)
  else (.ok, { x with clients := (c, k) :: x.clients.filter (·.1 ≠ c) })

def detach (c : ConnectionId) : Room K := { x with clients := x.clients.filter (·.1 ≠ c) }

/-- `IsSingleEditBusy` after the lookup. -/
def busy : Bool := decide (x.mode = .singleEdit) && !x.clients.isEmpty

end Room

/-- Where a connection is. From `accepted` on it has its user data with an id. -/
inductive Place where
  | fresh
  /-- `OnAccept` has found the session -/
  | found (sid : SessionId)
  /-- in `IsSingleEditBusy`, with the session -/
  | checking (sid : SessionId)
  /-- about to draw an id -/
  | passed (sid : SessionId)
  | accepted (sid : SessionId) (c : ConnectionId)
  /-- `OnOpen` has got the session -/
  | opening (sid : SessionId) (c : ConnectionId)
  /-- `AttachClient` has got the session -/
  | attaching (sid : SessionId) (c : ConnectionId)
  /-- `AttachClient` has registered the connection -/
  | registered (sid : SessionId) (c : ConnectionId)
  /-- the session is stored with the connection -/
  | opened (sid : SessionId) (c : ConnectionId)
  /-- `OnOpen` has called `close` without storing the session -/
  | refused (c : ConnectionId)
  /-- `OnClose` has taken the user data and locked the session -/
  | detaching (sid : SessionId) (c : ConnectionId)
  | gone
  deriving DecidableEq, Repr

namespace Place

def id : Place → Option ConnectionId
  | .accepted _ c | .opening _ c | .attaching _ c | .registered _ c | .opened _ c | .refused c
  | .detaching _ c => some c
  | _ => none

def session : Place → Option SessionId
  | .found sid | .checking sid | .passed sid | .accepted sid _ | .opening sid _ | .attaching sid _ | .registered sid _
  | .opened sid _ | .detaching sid _ => some sid
  | _ => none

/-- The handler has a `shared_ptr` to the session. -/
def holds : Place → Option SessionId
  | .checking sid | .opening sid _ | .attaching sid _ | .registered sid _ | .detaching sid _ => some sid
  | _ => none

/-- The session where the connection is registered, and its id. -/
def registration : Place → Option (SessionId × ConnectionId)
  | .registered sid c | .opened sid c | .detaching sid c => some (sid, c)
  | _ => none

theorem id_of_registration {p : Place} {sid : SessionId} {c : ConnectionId} (h : p.registration = some (sid, c)) :
    p.id = some c := by
  cases p with
  | registered | opened | detaching =>
    cases h
    rfl
  | _ => cases h

theorem session_of_registration {p : Place} {sid : SessionId} {c : ConnectionId}
    (h : p.registration = some (sid, c)) : p.session = some sid := by
  cases p with
  | registered | opened | detaching =>
    cases h
    rfl
  | _ => cases h

end Place

structure State (K : Type) where
  created : Nat := 0
  /-- the session objects that exist -/
  rooms : SessionId → Option (Room K) := fun _ => none
  sessions : List SessionId := []
  nextConnectionId : ConnectionId := 1
  place : K → Place := fun _ => .fresh

variable {K : Type} [DecidableEq K]

namespace State

def setRoom (a : State K) (sid : SessionId) (x : Option (Room K)) : State K :=
  { a with rooms := Function.update a.rooms sid x }

def goto (a : State K) (k : K) (p : Place) : State K := { a with place := Function.update a.place k p }

omit [DecidableEq K] in
theorem rooms_setRoom (a : State K) (sid : SessionId) (x : Option (Room K)) (sid' : SessionId) :
    (a.setRoom sid x).rooms sid' = if sid' = sid then x else a.rooms sid' := Function.update_apply ..

theorem place_goto (a : State K) (k : K) (p : Place) (k' : K) :
    (a.goto k p).place k' = if k' = k then p else a.place k' := Function.update_apply ..

end State

inductive Step (a : State K) : State K → Prop where
  | create (mode : SessionMode) : Step a { a.setRoom a.created (some { mode := mode }) with
      created := a.created + 1, sessions := a.sessions ++ [a.created] }
  /-- `Destroy` or the reaper takes the session out of the map. -/
  | remove (sid : SessionId) : Step a { a with sessions := a.sessions.filter (· ≠ sid) }
  /-- The last pointer to the session is released. -/
  | free (sid : SessionId) : sid ∉ a.sessions → (∀ k, (a.place k).holds ≠ some sid) → Step a (a.setRoom sid none)
  /-- `OnAccept`: `Exists` -/
  | findSession {k : K} {sid : SessionId} : a.place k = .fresh → sid ∈ a.sessions → Step a (a.goto k (.found sid))
  | unknown {k : K} {sid : SessionId} : a.place k = .fresh → sid ∉ a.sessions → Step a (a.goto k .gone)
  /-- `IsSingleEditBusy`: the lookup -/
  | check {k : K} {sid : SessionId} : a.place k = .found sid →
      Step a (a.goto k (if sid ∈ a.sessions then .checking sid else .passed sid))
  | checked {k : K} {sid : SessionId} {x : Room K} : a.place k = .checking sid → a.rooms sid = some x →
      Step a (a.goto k (if x.busy then .gone else .passed sid))
  | accept {k : K} {sid : SessionId} : a.place k = .passed sid →
      Step a { a.goto k (.accepted sid a.nextConnectionId) with nextConnectionId := a.nextConnectionId + 1 }
  /-- `OnOpen`: `Get` -/
  | getSession {k : K} {sid : SessionId} {c : ConnectionId} : a.place k = .accepted sid c →
      Step a (a.goto k (if sid ∈ a.sessions then .opening sid c else .refused c))
  /-- `AttachClient`: `Get` -/
  | lookUp {k : K} {sid : SessionId} {c : ConnectionId} : a.place k = .opening sid c →
      Step a (a.goto k (if sid ∈ a.sessions then .attaching sid c else .refused c))
  | attach {k : K} {sid : SessionId} {c : ConnectionId} {x : Room K} : a.place k = .attaching sid c →
      a.rooms sid = some x → Step a ((a.setRoom sid (some (x.attach c k).2)).goto k
        (if (x.attach c k).1 = .ok then .registered sid c else .refused c))
  /-- `ws_data->session = session` -/
  | store {k : K} {sid : SessionId} {c : ConnectionId} : a.place k = .registered sid c →
      Step a (a.goto k (.opened sid c))
  /-- `OnClose` of a connection with no session, or with one that does not exist any more -/
  | close {k : K} {c : ConnectionId} : (a.place k).id = some c → (a.place k).holds = none →
      (∀ sid, (a.place k).registration = some (sid, c) → a.rooms sid = none) → Step a (a.goto k .gone)
  | lock {k : K} {sid : SessionId} {c : ConnectionId} {x : Room K} : a.place k = .opened sid c → a.rooms sid = some x →
      Step a (a.goto k (.detaching sid c))
  | detach {k : K} {sid : SessionId} {c : ConnectionId} {x : Room K} : a.place k = .detaching sid c →
      a.rooms sid = some x → Step a ((a.setRoom sid (some (x.detach c))).goto k .gone)
  /-- `OnClose` again: the user data is gone. -/
  | closeAgain {k : K} : a.place k = .gone → Step a a

def system (K : Type) [DecidableEq K] : Lts.System (State K) where
  init a := a = {}
  step := Step

/-! ### The clients are the open connections -/

structure RoomInv (place : K → Place) (sid : SessionId) (x : Room K) : Prop where
  clients : ∀ c k, (c, k) ∈ x.clients ↔ (place k).registration = some (sid, c)
  nodup : x.clients.Nodup
  single : x.mode = .singleEdit → x.clients.length ≤ 1

structure Inv (a : State K) : Prop where
  id_lt : ∀ k c, (a.place k).id = some c → c < a.nextConnectionId
  id_inj : ∀ k k' c, (a.place k).id = some c → (a.place k').id = some c → k = k'
  session_lt : ∀ k sid, (a.place k).session = some sid → sid < a.created
  held : ∀ k sid, (a.place k).holds = some sid → (a.rooms sid).isSome
  found : ∀ sid ∈ a.sessions, (a.rooms sid).isSome ∧ sid < a.created
  rooms : ∀ sid x, a.rooms sid = some x → RoomInv a.place sid x

variable {a a' : State K} {k : K} {p : Place} {sid : SessionId} {c : ConnectionId} {x y : Room K}

theorem RoomInv.update {place : K → Place} (h : RoomInv place sid x)
    (hreg : ∀ c, p.registration = some (sid, c) ↔ (place k).registration = some (sid, c)) :
    RoomInv (Function.update place k p) sid x := by
  refine ⟨fun c k' => (h.clients c k').trans ?_, h.nodup, h.single⟩
  rw [Function.update_apply]
  split_ifs with hk
  · exact hk ▸ (hreg c).symm
  · rfl

omit [DecidableEq K] in
/-- The id of a connection is in no session but that of its registration. -/
theorem Inv.not_mem_of_id (h : Inv a) (hx : a.rooms sid = some x) (hk : (a.place k).id = some c)
    (hreg : (a.place k).registration ≠ some (sid, c)) (k' : K) : (c, k') ∉ x.clients := by
  intro hmem
  have hreg' := ((h.rooms sid x hx).clients c k').1 hmem
  obtain rfl := h.id_inj k k' c hk (Place.id_of_registration hreg')
  exact hreg hreg'

theorem RoomInv.attach (h : Inv a) (hx : a.rooms sid = some x) (hk : a.place k = .attaching sid c)
    (hok : (x.attach c k).1 = .ok) :
    RoomInv (Function.update a.place k (.registered sid c)) sid (x.attach c k).2 := by
  have hroom := h.rooms sid x hx
  have hnot := h.not_mem_of_id hx (show (a.place k).id = some c by rw [hk]; rfl) (by rw [hk]; exact nofun)
  unfold Room.attach at hok ⊢
  split_ifs at hok ⊢ with hbusy
  constructor
  · intro d k'
    show (d, k') ∈ (c, k) :: x.clients.filter (·.1 ≠ c) ↔ _
    rw [List.mem_cons, List.mem_filter, Prod.mk.injEq, Function.update_apply]
    split_ifs with hkk
    · constructor
      · rintro (⟨rfl, -⟩ | ⟨hmem, -⟩)
        · rfl
        · rw [hroom.clients, hkk, hk] at hmem
          cases hmem
      · rintro ⟨⟩
        exact .inl ⟨rfl, hkk⟩
    · constructor
      · rintro (⟨-, heq⟩ | ⟨hmem, -⟩)
        · exact absurd heq hkk
        · exact (hroom.clients d k').1 hmem
      · intro hreg
        have hmem := (hroom.clients d k').2 hreg
        exact .inr ⟨hmem, decide_eq_true fun heq : d = c => hnot k' (heq ▸ hmem)⟩
  · refine List.nodup_cons.2 ⟨fun hmem => ?_, hroom.nodup.filter _⟩
    simpa using (List.mem_filter.1 hmem).2
  · intro hmode
    have hnil : x.clients = [] := by
      by_contra hne
      exact hbusy ⟨hmode, hne⟩
    simp [hnil]

theorem RoomInv.detach (h : Inv a) (hx : a.rooms sid = some x) (hk : a.place k = .detaching sid c) :
    RoomInv (Function.update a.place k .gone) sid (x.detach c) := by
  have hroom := h.rooms sid x hx
  constructor
  · intro d k'
    show (d, k') ∈ x.clients.filter (·.1 ≠ c) ↔ _
    rw [List.mem_filter, hroom.clients, Function.update_apply]
    split_ifs with hkk
    · refine iff_of_false ?_ nofun
      rintro ⟨hreg, hne⟩
      rw [hkk, hk] at hreg
      cases hreg
      exact of_decide_eq_true hne rfl
    · refine and_iff_left_of_imp fun hreg => decide_eq_true fun heq : d = c => ?_
      exact hkk (h.id_inj k' k d (Place.id_of_registration hreg) (by rw [hk, heq]; rfl))
  · exact hroom.nodup.filter _
  · exact fun hmode => (List.length_filter_le _ _).trans (hroom.single hmode)

namespace Inv

/-- A handler goes on; the sessions that there are may change. -/
theorem move (h : Inv a) {rooms : SessionId → Option (Room K)} (hid : ∀ c, p.id = some c → (a.place k).id = some c)
    (hsession : ∀ sid, p.session = some sid → sid < a.created)
    (hheld : ∀ sid, p.holds = some sid → (a.rooms sid).isSome)
    (hsome : ∀ sid, (rooms sid).isSome = (a.rooms sid).isSome)
    (hrooms : ∀ sid x, rooms sid = some x → RoomInv (Function.update a.place k p) sid x) :
    Inv { a with rooms := rooms, place := Function.update a.place k p } := by
  have hid' : ∀ k' c, (Function.update a.place k p k').id = some c → (a.place k').id = some c := by
    intro k' c hc
    rw [Function.update_apply] at hc
    split_ifs at hc with hk
    · exact hk ▸ hid c hc
    · exact hc
  refine ⟨fun k' c hc => h.id_lt k' c (hid' k' c hc), fun k' k'' c hc hc' => ?_, fun k' sid hsid => ?_,
    fun k' sid hsid => ?_, fun sid hsid => ?_, hrooms⟩
  · exact h.id_inj k' k'' c (hid' k' c hc) (hid' k'' c hc')
  · change (Function.update a.place k p k').session = some sid at hsid
    rw [Function.update_apply] at hsid
    split_ifs at hsid
    · exact hsession sid hsid
    · exact h.session_lt k' sid hsid
  · change (Function.update a.place k p k').holds = some sid at hsid
    show (rooms sid).isSome
    rw [hsome]
    rw [Function.update_apply] at hsid
    split_ifs at hsid
    · exact hheld sid hsid
    · exact h.held k' sid hsid
  · show (rooms sid).isSome ∧ _
    rw [hsome]
    exact h.found sid hsid

/-- A handler goes on and leaves the sessions alone. -/
theorem goto (h : Inv a) (hid : ∀ c, p.id = some c → (a.place k).id = some c)
    (hsession : ∀ sid, p.session = some sid → sid < a.created)
    (hheld : ∀ sid, p.holds = some sid → (a.rooms sid).isSome)
    (hreg : ∀ sid c, (a.rooms sid).isSome →
      (p.registration = some (sid, c) ↔ (a.place k).registration = some (sid, c))) : Inv (a.goto k p) :=
  h.move hid hsession hheld (fun _ => rfl) fun sid x hx =>
    (h.rooms sid x hx).update fun c => hreg sid c (Option.isSome_iff_exists.2 ⟨x, hx⟩)

/-- A handler goes on, and the session `sid` becomes `y`. -/
theorem setRoom (h : Inv a) (hx : a.rooms sid = some x) (hid : ∀ c, p.id = some c → (a.place k).id = some c)
    (hsession : ∀ sid, p.session = some sid → sid < a.created)
    (hheld : ∀ sid, p.holds = some sid → (a.rooms sid).isSome)
    (hother : ∀ sid', sid' ≠ sid → ∀ c,
      p.registration = some (sid', c) ↔ (a.place k).registration = some (sid', c))
    (hy : RoomInv (Function.update a.place k p) sid y) : Inv ((a.setRoom sid (some y)).goto k p) := by
  refine h.move hid hsession hheld (fun sid' => ?_) fun sid' z hz => ?_
  · rw [State.rooms_setRoom]
    split_ifs with hsid
    · rw [hsid, hx]
      rfl
    · rfl
  · rw [State.rooms_setRoom] at hz
    split_ifs at hz with hsid
    · rw [hsid, ← Option.some.inj hz]
      exact hy
    · exact (h.rooms sid' z hz).update (hother sid' hsid)

omit [DecidableEq K] in
theorem create (h : Inv a) (mode : SessionMode) : Inv { a.setRoom a.created (some { mode := mode }) with
    created := a.created + 1, sessions := a.sessions ++ [a.created] } := by
  have hisSome : ∀ sid, (a.rooms sid).isSome → ((a.setRoom a.created (some { mode := mode })).rooms sid).isSome := by
    intro sid hsome
    rw [State.rooms_setRoom]
    split_ifs
    · rfl
    · exact hsome
  refine { h with
    session_lt := fun k sid hsid => Nat.lt_succ_of_lt (h.session_lt k sid hsid)
    held := fun k sid hsid => hisSome sid (h.held k sid hsid)
    found := fun sid hsid => ?_
    rooms := fun sid x hx => ?_ }
  · rcases List.mem_append.1 hsid with hsid | hsid
    · exact ⟨hisSome sid (h.found sid hsid).1, Nat.lt_succ_of_lt (h.found sid hsid).2⟩
    · obtain rfl := List.mem_singleton.1 hsid
      exact ⟨by rw [State.rooms_setRoom, if_pos rfl]; rfl, Nat.lt_succ_self _⟩
  · rw [State.rooms_setRoom] at hx
    split_ifs at hx with hsid
    · obtain rfl := Option.some.inj hx
      refine ⟨fun c k => iff_of_false List.not_mem_nil fun hreg => ?_, .nil, fun _ => Nat.zero_le 1⟩
      exact Nat.ne_of_lt (h.session_lt k sid (Place.session_of_registration hreg)) hsid
    · exact h.rooms sid x hx

omit [DecidableEq K] in
theorem free (h : Inv a) (hsid : sid ∉ a.sessions) (hnone : ∀ k, (a.place k).holds ≠ some sid) :
    Inv (a.setRoom sid none) := by
  refine { h with held := fun k sid' hsid' => ?_, found := fun sid' hsid' => ?_, rooms := fun sid' x hx => ?_ }
  · have hne : sid' ≠ sid := fun heq => hnone k (hsid'.trans (congrArg some heq))
    rw [State.rooms_setRoom, if_neg hne]
    exact h.held k sid' hsid'
  · have hne : sid' ≠ sid := fun heq => hsid (heq ▸ hsid')
    rw [State.rooms_setRoom, if_neg hne]
    exact h.found sid' hsid'
  · rw [State.rooms_setRoom] at hx
    split_ifs at hx
    exact h.rooms sid' x hx

theorem accept (h : Inv a) (hk : a.place k = .passed sid) :
    Inv { a.goto k (.accepted sid a.nextConnectionId) with nextConnectionId := a.nextConnectionId + 1 } := by
  have hfresh : ∀ k', (a.place k').id ≠ some a.nextConnectionId := fun k' hid => lt_irrefl _ (h.id_lt k' _ hid)
  refine ⟨fun k' c hc => ?_, fun k' k'' c hc hc' => ?_, fun k' sid' hsid' => ?_, fun k' sid' hsid' => ?_, h.found,
    fun sid' x hx => (h.rooms sid' x hx).update fun c => by rw [hk]; rfl⟩
  · rw [State.place_goto] at hc
    split_ifs at hc
    · cases hc
      exact Nat.lt_succ_self _
    · exact Nat.lt_succ_of_lt (h.id_lt k' c hc)
  · rw [State.place_goto] at hc hc'
    split_ifs at hc hc' with hk' hk''
    · exact hk'.trans hk''.symm
    · cases hc
      exact absurd hc' (hfresh k'')
    · cases hc'
      exact absurd hc (hfresh k')
    · exact h.id_inj k' k'' c hc hc'
  · rw [State.place_goto] at hsid'
    split_ifs at hsid'
    · exact h.session_lt k sid' (by rw [hk]; exact hsid')
    · exact h.session_lt k' sid' hsid'
  · rw [State.place_goto] at hsid'
    split_ifs at hsid'
    · cases hsid'
    · exact h.held k' sid' hsid'

/-- A handler finds the session in the map. -/
theorem goto_of_found (h : Inv a) (hsid : sid ∈ a.sessions) (hid : ∀ c, p.id = some c → (a.place k).id = some c)
    (hsession : ∀ sid', p.session = some sid' → sid' = sid) (hholds : ∀ sid', p.holds = some sid' → sid' = sid)
    (hreg : p.registration = (a.place k).registration) : Inv (a.goto k p) :=
  h.goto hid (fun sid' h' => hsession sid' h' ▸ (h.found sid hsid).2)
    (fun sid' h' => hholds sid' h' ▸ (h.found sid hsid).1) fun _ _ _ => by rw [hreg]

theorem step (h : Inv a) (hs : Step a a') : Inv a' := by
  have hlt : ∀ {k : K} {sid : SessionId}, (a.place k).session = some sid → sid < a.created := h.session_lt _ _
  cases hs with
  | create mode => exact h.create mode
  | remove sid => exact { h with found := fun sid' hsid' => h.found sid' (List.mem_of_mem_filter hsid') }
  | free sid hsid hnone => exact h.free hsid hnone
  | findSession hk hsid => exact h.goto_of_found hsid nofun (by rintro _ ⟨⟩; rfl) nofun (by rw [hk]; rfl)
  | unknown hk => exact h.goto nofun nofun nofun fun _ _ _ => by rw [hk]; rfl
  | check hk =>
    split_ifs with hsid
    · exact h.goto_of_found hsid nofun (by rintro _ ⟨⟩; rfl) (by rintro _ ⟨⟩; rfl) (by rw [hk]; rfl)
    · refine h.goto nofun ?_ nofun fun _ _ _ => by rw [hk]; rfl
      rintro _ ⟨⟩
      exact hlt (by rw [hk]; rfl)
  | checked hk hx =>
    split_ifs
    · exact h.goto nofun nofun nofun fun _ _ _ => by rw [hk]; rfl
    · refine h.goto nofun ?_ nofun fun _ _ _ => by rw [hk]; rfl
      rintro _ ⟨⟩
      exact hlt (by rw [hk]; rfl)
  | accept hk => exact h.accept hk
  | getSession hk | lookUp hk =>
    have hid : ∀ c', some _ = some c' → (a.place _).id = some c' := fun c' hc' => by rw [hk]; exact hc'
    split_ifs with hsid
    · exact h.goto_of_found hsid hid (by rintro _ ⟨⟩; rfl) (by rintro _ ⟨⟩; rfl) (by rw [hk]; rfl)
    · exact h.goto hid nofun nofun fun _ _ _ => by rw [hk]; rfl
  | @attach k sid c x hk hx =>
    have hid : ∀ c', some c = some c' → (a.place k).id = some c' := fun c' hc' => by rw [hk]; exact hc'
    split_ifs with hok
    · refine h.setRoom hx hid ?_ ?_ (fun sid' hne d => ?_) (.attach h hx hk hok)
      · rintro _ ⟨⟩
        exact hlt (by rw [hk]; rfl)
      · rintro _ ⟨⟩
        exact Option.isSome_iff_exists.2 ⟨x, hx⟩
      · rw [hk]
        refine iff_of_false ?_ nofun
        rintro ⟨⟩
        exact hne rfl
    · have hsame : (x.attach c k).2 = x := by
        unfold Room.attach at hok ⊢
        split_ifs at hok ⊢
        · rfl
        · exact absurd rfl hok
      rw [hsame]
      exact h.setRoom hx hid nofun nofun (fun _ _ _ => by rw [hk]; rfl)
        ((h.rooms sid x hx).update fun d => by rw [hk]; rfl)
  | store hk =>
    refine h.goto (fun c hc => by rw [hk]; exact hc) ?_ nofun fun _ _ _ => by rw [hk]; rfl
    rintro _ ⟨⟩
    exact hlt (by rw [hk]; rfl)
  | close hid _ hgone =>
    refine h.goto nofun nofun nofun fun sid d hsome => iff_of_false nofun fun hreg => ?_
    obtain rfl := Option.some.inj (hid.symm.trans (Place.id_of_registration hreg))
    rw [hgone sid hreg] at hsome
    cases hsome
  | lock hk hx =>
    refine h.goto (fun c hc => by rw [hk]; exact hc) ?_ ?_ fun _ _ _ => by rw [hk]; rfl
    · rintro _ ⟨⟩
      exact hlt (by rw [hk]; rfl)
    · rintro _ ⟨⟩
      exact Option.isSome_iff_exists.2 ⟨_, hx⟩
  | detach hk hx =>
    refine h.setRoom hx nofun nofun nofun (fun sid' hne d => ?_) (.detach h hx hk)
    rw [hk]
    refine iff_of_false nofun ?_
    rintro ⟨⟩
    exact hne rfl
  | closeAgain => exact h

end Inv

theorem inv_of_reachable (h : (system K).Reachable a) : Inv a := by
  refine Lts.System.invariant ?_ (fun _ _ _ hi hs => hi.step hs) h
  rintro _ rfl
  exact ⟨nofun, nofun, nofun, nofun, nofun, nofun⟩

/-- The clients of a session are the connections that `OnOpen` has registered there and `OnClose` has not yet detached,
each once and with its own id; a session for a single editor has one at most. -/
theorem clients_of_reachable (h : (system K).Reachable a) (hx : a.rooms sid = some x) :
    (∀ c k, (c, k) ∈ x.clients ↔ (a.place k).registration = some (sid, c)) ∧
      (x.clients.map Prod.fst).Nodup ∧ (x.clients.map Prod.snd).Nodup ∧
      (x.mode = .singleEdit → x.clients.length ≤ 1) := by
  have hi := inv_of_reachable h
  have hroom := hi.rooms sid x hx
  refine ⟨hroom.clients, List.Nodup.map_on ?_ hroom.nodup, List.Nodup.map_on ?_ hroom.nodup, hroom.single⟩
  · rintro ⟨c, k⟩ hk ⟨_, k'⟩ hk' ⟨⟩
    have hid := Place.id_of_registration ((hroom.clients c k).1 hk)
    rw [hi.id_inj k k' c hid (Place.id_of_registration ((hroom.clients c k').1 hk'))]
  · rintro ⟨c, k⟩ hk ⟨c', _⟩ hk' ⟨⟩
    have hreg := (hroom.clients c' k).1 hk'
    rw [(hroom.clients c k).1 hk] at hreg
    cases hreg
    rfl

/-- Two connections to a session for a single editor are accepted; the one that comes second is refused and closed, and
the first remains. -/
theorem clients_two_editors : ∃ (a : State Bool) (x : Room Bool), a.rooms 0 = some x ∧ x.mode = .singleEdit ∧
    a.place true = .gone ∧ (∀ c k, (c, k) ∈ x.clients ↔ (a.place k).registration = some (0, c)) ∧
      (1, false) ∈ x.clients := by
  have h : (system Bool).Reachable {} := .init rfl
  replace h := h.step (.create .singleEdit)
  replace h := h.step (.findSession (k := false) rfl (.head _))
  replace h := h.step (.check (k := false) rfl)
  replace h := h.step (.checked (k := false) rfl rfl)
  replace h := h.step (.accept (k := false) rfl)
  replace h := h.step (.findSession (k := true) rfl (.head _))
  replace h := h.step (.check (k := true) rfl)
  replace h := h.step (.checked (k := true) rfl rfl)
  replace h := h.step (.accept (k := true) rfl)
  replace h := h.step (.getSession (k := false) rfl)
  replace h := h.step (.lookUp (k := false) rfl)
  replace h := h.step (.attach (k := false) rfl rfl)
  replace h := h.step (.getSession (k := true) rfl)
  replace h := h.step (.lookUp (k := true) rfl)
  replace h := h.step (.attach (k := true) rfl rfl)
  replace h := h.step (.store (k := false) rfl)
  replace h := h.step (.close (k := true) (c := 2) rfl rfl nofun)
  exact ⟨_, _, rfl, rfl, rfl, (clients_of_reachable h rfl).1, .head _⟩

end IdtxCore.WebSocketController
