import IdtxCore.SessionOrder

/-!
# What a client is told about a prim

For one client and one prim, an update's base is compared with `threshold`. A handler either leaves
the threshold alone and sends the client nothing about the prim (`Quiet`), or it moves the threshold
to a new version and, if the prim can be read, sends the client the prim's transform with that
version last (`Renewed`). Which of the two follows from the prims a notice names and from whose update
it was. `Recorded` are the two facts about the bookkeeping that this needs.
-/

namespace IdtxCore

namespace SessionVersions
variable {Path : Type} [DecidableEq Path] (v : SessionVersions Path) (c : ConnectionId)

omit [DecidableEq Path] in
theorem maxSent_foldl_recordSent (l : List ConnectionId) (n : Nat) :
    (l.foldl (·.recordSent · n) v).maxSent c = if c ∈ l then max (v.maxSent c) n else v.maxSent c := by
  induction l generalizing v with
  | nil => simp
  | cons d l ih =>
    rw [List.foldl_cons, ih, maxSent_recordSent]
    by_cases hd : c = d
    · simp [hd]
    · simp [hd]

omit [DecidableEq Path] in
theorem latestForeign_foldl_recordSent (l : List ConnectionId) (n : Nat) (p : Path) :
    (l.foldl (·.recordSent · n) v).latestForeign c p = v.latestForeign c p := by
  induction l generalizing v with
  | nil => rfl
  | cons d l ih => rw [List.foldl_cons, ih, latestForeign_recordSent]

omit [DecidableEq Path] in
theorem correction_foldl_recordSent (l : List ConnectionId) (n : Nat) (p : Path) :
    (l.foldl (·.recordSent · n) v).correction c p = v.correction c p := by
  induction l generalizing v with
  | nil => rfl
  | cons d l ih => rw [List.foldl_cons, ih, correction_recordSent]

end SessionVersions

/-- The frames to one connection among some that were sent. -/
def framesIn {Path R : Type} (c : ConnectionId) (xs : List (Sent Path R)) : List (Frame Path R) :=
  (xs.filter (·.connection = c)).map (·.frame)

/-- Version and transform of the broadcasts of a prim. -/
def xformsOf {Path R : Type} [DecidableEq Path] (p : Path) (frames : List (Frame Path R)) :
    List (Nat × Transform R) :=
  frames.filterMap fun f =>
    match f.message with
    | .xformBroadcast q v => if q = p then some (f.serverSeq, v) else none
    | _ => none

section Frames
variable {Path R : Type} [DecidableEq Path] {p : Path} {c : ConnectionId}

omit [DecidableEq Path] in
@[simp] theorem framesIn_append (xs ys : List (Sent Path R)) :
    framesIn c (xs ++ ys) = framesIn c xs ++ framesIn c ys := by
  simp [framesIn]

@[simp] theorem xformsOf_append (fs gs : List (Frame Path R)) :
    xformsOf p (fs ++ gs) = xformsOf p fs ++ xformsOf p gs := by
  simp [xformsOf]

theorem mem_xformsOf {fs : List (Frame Path R)} {n : Nat} {v : Transform R} :
    (n, v) ∈ xformsOf p fs ↔ ⟨.xformBroadcast p v, n⟩ ∈ fs := by
  rw [xformsOf, List.mem_filterMap]
  constructor
  · rintro ⟨⟨m, q⟩, hf, heq⟩
    cases m with
    | xformBroadcast p' v' =>
      by_cases hp : p' = p
      · simp only [hp, if_true, Option.some.injEq, Prod.mk.injEq] at heq
        obtain ⟨rfl, rfl⟩ := heq
        rwa [hp] at hf
      · simp [hp] at heq
    | createPrimBroadcast => cases heq
    | setPrimActiveBroadcast => cases heq
    | ack => cases heq
    | snapshotComplete => cases heq
  · intro hf
    exact ⟨_, hf, by simp⟩

omit [DecidableEq Path] in
theorem mem_framesIn {xs : List (Sent Path R)} {f : Frame Path R} :
    f ∈ framesIn c xs ↔ ∃ x ∈ xs, x.connection = c ∧ x.frame = f := by
  simp [framesIn, and_assoc]

end Frames

/-- A list that holds nothing but `a` ends with `a`. -/
theorem getLast?_of_forall_eq {α : Type} {l : List α} {a : α} (hne : l ≠ []) (h : ∀ x ∈ l, x = a) :
    l.getLast? = some a := by
  rw [List.getLast?_eq_getLast_of_ne_nil hne, h _ (List.getLast_mem hne)]

namespace Session
variable {σ Path R : Type} [LinearOrder Path]

/-- The lowest base of an update of `p` by `c` that is not stale. -/
def threshold (s : Session σ Path R) (c : ConnectionId) (p : Path) : Nat :=
  max (s.versions.latestForeign c p) (s.versions.correction c p)

/-- The bookkeeping knows every frame, and nothing it holds lies in the future. -/
structure Recorded (s : Session σ Path R) : Prop where
  sent_le : ∀ x ∈ s.sent, x.frame.serverSeq ≤ s.versions.maxSent x.connection
  maxSent_le : ∀ c, s.versions.maxSent c ≤ s.serverSeq
  threshold_le : ∀ c p, c ≠ 0 → s.threshold c p ≤ s.serverSeq

/-- `s'` has sent the frames `d` on top of those of `s`. -/
structure Grows (s s' : Session σ Path R) (d : List (Sent Path R)) : Prop where
  sent : s'.sent = s.sent ++ d
  clients : s'.clients = s.clients
  seq_le : s.serverSeq ≤ s'.serverSeq
  maxSent_le : ∀ c, s.versions.maxSent c ≤ s'.versions.maxSent c
  recorded : s.Recorded → s'.Recorded

/-- Nothing new about `p` for `c`. -/
structure Quiet (c : ConnectionId) (p : Path) (s s' : Session σ Path R) (d : List (Sent Path R)) :
    Prop where
  threshold : s'.threshold c p = s.threshold c p
  frames : xformsOf p (framesIn c d) = []

/-- A new version of `p` for `c`, with the transform of `p` sent last if there is one. -/
def Renewed (c : ConnectionId) (p : Path) (value : Option (Transform R)) (s s' : Session σ Path R)
    (d : List (Sent Path R)) : Prop :=
  ∃ n, s.serverSeq < n ∧ n ≤ s'.serverSeq ∧ s'.threshold c p = n ∧
    (∀ x ∈ xformsOf p (framesIn c d), s.serverSeq < x.1 ∧ x.1 ≤ n) ∧
    ∀ v, value = some v → (xformsOf p (framesIn c d)).getLast? = some (n, v)

section Compose
variable {s s₁ s' : Session σ Path R} {d d₁ : List (Sent Path R)} {c : ConnectionId} {p : Path}
  {value : Option (Transform R)}

omit [LinearOrder Path] in
theorem Grows.refl (s : Session σ Path R) : Grows s s [] :=
  ⟨by simp, rfl, le_rfl, fun _ => le_rfl, id⟩

omit [LinearOrder Path] in
theorem Grows.trans (h : Grows s s₁ d) (h' : Grows s₁ s' d₁) : Grows s s' (d ++ d₁) :=
  ⟨by rw [h'.sent, h.sent, List.append_assoc], h'.clients.trans h.clients, h.seq_le.trans h'.seq_le,
    fun c => (h.maxSent_le c).trans (h'.maxSent_le c), h'.recorded ∘ h.recorded⟩

theorem Quiet.refl (s : Session σ Path R) : Quiet c p s s [] := ⟨rfl, rfl⟩

theorem Quiet.trans (h : Quiet c p s s₁ d) (h' : Quiet c p s₁ s' d₁) : Quiet c p s s' (d ++ d₁) :=
  ⟨h'.threshold.trans h.threshold, by rw [framesIn_append, xformsOf_append, h.frames, h'.frames]; rfl⟩

theorem Renewed.of_quiet (h : Quiet c p s s₁ d) (hseq : s.serverSeq ≤ s₁.serverSeq)
    (h' : Renewed c p value s₁ s' d₁) : Renewed c p value s s' (d ++ d₁) := by
  obtain ⟨n, hlt, hle, hthr, hxs, hlast⟩ := h'
  refine ⟨n, hseq.trans_lt hlt, hle, hthr, ?_, ?_⟩
  · rw [framesIn_append, xformsOf_append, h.frames, List.nil_append]
    exact fun x hx => ⟨hseq.trans_lt (hxs x hx).1, (hxs x hx).2⟩
  · rw [framesIn_append, xformsOf_append, h.frames, List.nil_append]
    exact hlast

theorem Renewed.quiet (h : Renewed c p value s s₁ d) (h' : Quiet c p s₁ s' d₁)
    (hseq : s₁.serverSeq ≤ s'.serverSeq) : Renewed c p value s s' (d ++ d₁) := by
  obtain ⟨n, hlt, hle, hthr, hxs, hlast⟩ := h
  refine ⟨n, hlt, hle.trans hseq, h'.threshold.trans hthr, ?_, ?_⟩
  · rw [framesIn_append, xformsOf_append, h'.frames, List.append_nil]
    exact hxs
  · rw [framesIn_append, xformsOf_append, h'.frames, List.append_nil]
    exact hlast

theorem Renewed.trans {value' : Option (Transform R)} (h : Renewed c p value' s s₁ d)
    (h' : Renewed c p value s₁ s' d₁) : Renewed c p value s s' (d ++ d₁) := by
  obtain ⟨n, hlt, hle, -, hxs, -⟩ := h
  obtain ⟨n', hlt', hle', hthr', hxs', hlast'⟩ := h'
  refine ⟨n', by omega, hle', hthr', ?_, ?_⟩
  · rw [framesIn_append, xformsOf_append, List.forall_mem_append]
    refine ⟨fun x hx => ?_, fun x hx => ?_⟩
    · have := hxs x hx
      omega
    · have := hxs' x hx
      omega
  · intro v hv
    rw [framesIn_append, xformsOf_append, List.getLast?_append, hlast' v hv]
    rfl

end Compose

/-! ### Announcing -/

section Announce
variable {view : StageView σ Path R} {stage : σ} {clients : List ConnectionId} {w : ConnectionId}
  {seq : Nat} {c : ConnectionId} {p : Path}

theorem correction_recordAnnounced (prims : List Path) (vs : SessionVersions Path) :
    (prims.foldl (recordAnnounced view stage clients w seq) vs).correction c p = vs.correction c p := by
  induction prims generalizing vs with
  | nil => rfl
  | cons q prims ih =>
    rw [List.foldl_cons, ih, recordAnnounced]
    split_ifs
    · rw [SessionVersions.correction_foldl_recordSent, SessionVersions.correction_recordChange]
    · rw [SessionVersions.correction_recordChange]

/-- A change is foreign to every client but its writer. -/
theorem latestForeign_recordAnnounced (hc : c ≠ 0) (prims : List Path) (vs : SessionVersions Path) :
    (prims.foldl (recordAnnounced view stage clients w seq) vs).latestForeign c p =
      if p ∈ prims ∧ w ≠ c then seq else vs.latestForeign c p := by
  induction prims generalizing vs with
  | nil => simp
  | cons q prims ih =>
    have hq : (recordAnnounced view stage clients w seq vs q).latestForeign c p =
        if p = q ∧ w ≠ c then seq else vs.latestForeign c p := by
      rw [recordAnnounced]
      split_ifs <;> simp_all [SessionVersions.latestForeign_foldl_recordSent,
        SessionVersions.latestForeign_recordChange]
    rw [List.foldl_cons, ih, hq]
    by_cases hw : w = c
    · simp [hw]
    · by_cases hp : p ∈ prims <;> by_cases hpq : p = q <;> simp [hw, hp, hpq]

theorem le_maxSent_recordAnnounced (prims : List Path) (vs : SessionVersions Path) :
    vs.maxSent c ≤ (prims.foldl (recordAnnounced view stage clients w seq) vs).maxSent c := by
  induction prims generalizing vs with
  | nil => exact le_rfl
  | cons q prims ih =>
    refine le_trans ?_ (ih _)
    rw [recordAnnounced]
    split_ifs
    · rw [SessionVersions.maxSent_foldl_recordSent, SessionVersions.maxSent_recordChange]
      split_ifs
      · exact le_max_left _ _
      · exact le_rfl
    · rw [SessionVersions.maxSent_recordChange]

theorem maxSent_recordAnnounced_le (prims : List Path) (vs : SessionVersions Path)
    (h : vs.maxSent c ≤ seq) :
    (prims.foldl (recordAnnounced view stage clients w seq) vs).maxSent c ≤ seq := by
  induction prims generalizing vs with
  | nil => exact h
  | cons q prims ih =>
    refine ih _ ?_
    rw [recordAnnounced]
    split_ifs
    · rw [SessionVersions.maxSent_foldl_recordSent, SessionVersions.maxSent_recordChange]
      split_ifs
      · exact max_le h le_rfl
      · exact h
    · rwa [SessionVersions.maxSent_recordChange]

theorem seq_le_maxSent_recordAnnounced {prims : List Path} (vs : SessionVersions Path)
    (hc : c ∈ clients) (hw : c ≠ w) (hp : p ∈ prims)
    (hread : (view.readResolvedTransform stage p).isSome = true) :
    seq ≤ (prims.foldl (recordAnnounced view stage clients w seq) vs).maxSent c := by
  induction prims generalizing vs with
  | nil => cases hp
  | cons q prims ih =>
    rcases List.mem_cons.1 hp with rfl | hp
    · refine le_trans ?_ (le_maxSent_recordAnnounced prims _)
      have hmem : c ∈ clients.filter (· ≠ w) := List.mem_filter.2 ⟨hc, by simpa using hw⟩
      rw [recordAnnounced, if_pos hread, SessionVersions.maxSent_foldl_recordSent, if_pos hmem]
      exact le_max_right _ _
    · exact ih _ hp

variable (s : Session σ Path R) (prims : List Path)

theorem threshold_announce (hc : c ≠ 0) (hs : s.Recorded) :
    (s.announce view w prims).threshold c p =
      if p ∈ prims ∧ w ≠ c then s.serverSeq + 1 else s.threshold c p := by
  have hle := hs.threshold_le c p hc
  rw [announce_eq, threshold, latestForeign_recordAnnounced hc, correction_recordAnnounced]
  split_ifs
  · exact max_eq_left ((le_max_right _ _).trans (hle.trans (Nat.le_succ _)))
  · rfl

theorem grows_announce :
    Grows s (s.announce view w prims) (s.noticeVersion view w prims).sends := by
  refine ⟨by rw [announce_eq], by rw [announce_eq], by rw [announce_eq]; exact Nat.le_succ _, ?_, ?_⟩
  · intro c
    rw [announce_eq]
    exact le_maxSent_recordAnnounced _ _
  intro hs
  refine ⟨?_, ?_, ?_⟩
  · rw [announce_eq, List.forall_mem_append]
    refine ⟨fun x hx => (hs.sent_le x hx).trans (le_maxSent_recordAnnounced _ _), ?_⟩
    intro x hx
    obtain ⟨hc, hm, hseq, -⟩ := Version.mem_sends.1 hx
    rw [messages_noticeVersion] at hm
    obtain ⟨q, hq, hread⟩ := List.mem_filterMap.1 hm
    obtain ⟨t, ht, -⟩ := Option.map_eq_some_iff.1 hread
    obtain ⟨hclients, hw⟩ := List.mem_filter.1 hc
    rw [hseq]
    exact seq_le_maxSent_recordAnnounced _ hclients (by simpa using hw) hq (by rw [ht]; rfl)
  · intro c
    rw [announce_eq]
    exact maxSent_recordAnnounced_le _ _ ((hs.maxSent_le c).trans (Nat.le_succ _))
  · intro c p hc
    rw [threshold_announce s prims hc hs]
    split_ifs
    · rw [announce_eq]
    · rw [announce_eq]
      exact (hs.threshold_le c p hc).trans (Nat.le_succ _)

/-- The frames about `p` that a notice sends to `c`. -/
theorem mem_xformsOf_noticeVersion {n : Nat} {v : Transform R} :
    (n, v) ∈ xformsOf p (framesIn c (s.noticeVersion view w prims).sends) ↔
      (c ∈ s.clients ∧ c ≠ w) ∧ p ∈ prims ∧ view.readResolvedTransform s.stage p = some v ∧
        n = s.serverSeq + 1 := by
  rw [mem_xformsOf, mem_framesIn]
  constructor
  · rintro ⟨x, hx, rfl, hf⟩
    obtain ⟨hc, hm, hseq, -⟩ := Version.mem_sends.1 hx
    rw [messages_noticeVersion, hf] at hm
    obtain ⟨q, hq, hread⟩ := List.mem_filterMap.1 hm
    obtain ⟨t, ht, heq⟩ := Option.map_eq_some_iff.1 hread
    obtain ⟨rfl, rfl⟩ := Message.xformBroadcast.inj heq
    obtain ⟨hclients, hw⟩ := List.mem_filter.1 hc
    rw [hf] at hseq
    exact ⟨⟨hclients, by simpa using hw⟩, hq, ht, hseq⟩
  · rintro ⟨⟨hc, hw⟩, hp, hread, rfl⟩
    refine ⟨⟨c, ⟨.xformBroadcast p v, s.serverSeq + 1⟩, .broadcast⟩, ?_, rfl, rfl⟩
    refine Version.mem_sends.2 ⟨List.mem_filter.2 ⟨hc, by simpa using hw⟩, ?_, rfl, rfl⟩
    rw [messages_noticeVersion]
    exact List.mem_filterMap.2 ⟨p, hp, by rw [hread]; rfl⟩

theorem renewed_announce (hs : s.Recorded) (hc : c ≠ 0) (hmem : c ∈ s.clients) (hp : p ∈ prims)
    (hw : w ≠ c) :
    Renewed c p (view.readResolvedTransform s.stage p) s (s.announce view w prims)
      (s.noticeVersion view w prims).sends := by
  refine ⟨s.serverSeq + 1, Nat.lt_succ_self _, by rw [announce_eq], ?_, ?_, ?_⟩
  · rw [threshold_announce s prims hc hs, if_pos ⟨hp, hw⟩]
  · rintro ⟨n, v⟩ hx
    obtain ⟨-, -, -, rfl⟩ := (mem_xformsOf_noticeVersion s prims).1 hx
    exact ⟨Nat.lt_succ_self _, le_rfl⟩
  · intro v hv
    have hin : (s.serverSeq + 1, v) ∈ xformsOf p (framesIn c (s.noticeVersion view w prims).sends) :=
      (mem_xformsOf_noticeVersion s prims).2 ⟨⟨hmem, hw.symm⟩, hp, hv, rfl⟩
    refine getLast?_of_forall_eq (List.ne_nil_of_mem hin) ?_
    rintro ⟨n, v'⟩ hx
    obtain ⟨-, -, hv', rfl⟩ := (mem_xformsOf_noticeVersion s prims).1 hx
    rw [hv] at hv'
    rw [Option.some.inj hv']

theorem quiet_announce (hs : s.Recorded) (hc : c ≠ 0) (hp : ¬ (p ∈ prims ∧ w ≠ c)) :
    Quiet c p s (s.announce view w prims) (s.noticeVersion view w prims).sends := by
  refine ⟨by rw [threshold_announce s prims hc hs, if_neg hp], ?_⟩
  rw [List.eq_nil_iff_forall_not_mem]
  rintro ⟨n, v⟩ hx
  obtain ⟨⟨-, hw⟩, hmem, -, -⟩ := (mem_xformsOf_noticeVersion s prims).1 hx
  exact hp ⟨hmem, hw.symm⟩

end Announce

/-! ### Calls -/

/-- Who a notice's changes are recorded for, and which prims it announces. -/
def noticeWriter (flags : NoticeFlags) : ConnectionId :=
  if flags.reloadInProgress then 0 else flags.currentOrigin

def noticePrims (view : StageView σ Path R) (flags : NoticeFlags) (stage : σ)
    (notice : ObjectsChanged Path) : List Path :=
  if flags.createInProgress || flags.setActiveInProgress then []
  else if flags.reloadInProgress then
    (reloadPrims notice).filter (!view.hasXformOverride stage ·)
  else affectedPrims notice

section Calls
variable {view : StageView σ Path R} {flags : NoticeFlags} {s s' : Session σ Path R} {stage : σ}
  {c : ConnectionId} {p : Path}

variable (view flags) in
theorem onObjectsChanged_cases (s : Session σ Path R) (notice : ObjectsChanged Path) :
    (onObjectsChanged view flags s notice = s ∧ noticePrims view flags s.stage notice = []) ∨
      onObjectsChanged view flags s notice =
        s.announce view (noticeWriter flags) (noticePrims view flags s.stage notice) := by
  unfold onObjectsChanged noticePrims noticeWriter
  by_cases hcreate : flags.createInProgress = true
  · simp [hcreate]
  by_cases hactive : flags.setActiveInProgress = true
  · simp [hactive]
  by_cases hreload : flags.reloadInProgress = true
  · by_cases hnil : reloadPrims notice = [] <;> simp [hcreate, hactive, hreload, hnil]
  · by_cases hnil : affectedPrims notice = [] <;> simp [hcreate, hactive, hreload, hnil]

/-- What the notices of a call mean for every client and prim: a named prim is news to everyone but the
writer. -/
structure News (view : StageView σ Path R) (flags : NoticeFlags) (stage : σ)
    (notices : List (σ × ObjectsChanged Path)) (s s' : Session σ Path R) (d : List (Sent Path R)) :
    Prop where
  grows : Grows s s' d
  renewed : ∀ c p, c ≠ 0 → c ∈ s.clients → (∃ n ∈ notices, p ∈ noticePrims view flags stage n.2) →
    noticeWriter flags ≠ c → Renewed c p (view.readResolvedTransform stage p) s s' d
  quiet : ∀ c p, c ≠ 0 →
    ¬ ((∃ n ∈ notices, p ∈ noticePrims view flags stage n.2) ∧ noticeWriter flags ≠ c) →
    Quiet c p s s' d

variable (view flags) in
theorem news_onObjectsChanged (hs : s.Recorded) (hstage : s.stage = stage)
    (n : σ × ObjectsChanged Path) :
    ∃ d, News view flags stage [n] s (onObjectsChanged view flags s n.2) d := by
  subst hstage
  rcases onObjectsChanged_cases view flags s n.2 with ⟨heq, hnil⟩ | heq
  · rw [heq]
    refine ⟨[], .refl s, ?_, fun _ _ _ _ => .refl s⟩
    rintro c p - - ⟨n', hn', hp⟩
    rw [List.mem_singleton.1 hn', hnil] at hp
    cases hp
  · rw [heq]
    refine ⟨_, grows_announce s _, ?_, ?_⟩
    · rintro c p hc hmem ⟨n', hn', hp⟩ hw
      rw [List.mem_singleton.1 hn'] at hp
      exact renewed_announce s _ hs hc hmem hp hw
    · intro c p hc hnot
      exact quiet_announce s _ hs hc fun h => hnot ⟨⟨n, List.mem_singleton_self n, h.1⟩, h.2⟩

theorem News.cons {n : σ × ObjectsChanged Path} {notices : List (σ × ObjectsChanged Path)}
    {s₁ : Session σ Path R} {d d₁ : List (Sent Path R)} (h : News view flags stage [n] s s₁ d)
    (h' : News view flags stage notices s₁ s' d₁) :
    News view flags stage (n :: notices) s s' (d ++ d₁) := by
  refine ⟨h.grows.trans h'.grows, ?_, ?_⟩
  · rintro c p hc hmem ⟨n', hn', hp⟩ hw
    have hmem₁ : c ∈ s₁.clients := h.grows.clients ▸ hmem
    by_cases hlater : ∃ m ∈ notices, p ∈ noticePrims view flags stage m.2
    · have hrenewed := h'.renewed c p hc hmem₁ hlater hw
      by_cases hfirst : p ∈ noticePrims view flags stage n.2
      · exact (h.renewed c p hc hmem ⟨n, List.mem_singleton_self n, hfirst⟩ hw).trans hrenewed
      · refine .of_quiet (h.quiet c p hc ?_) h.grows.seq_le hrenewed
        rintro ⟨⟨m, hm, hpm⟩, -⟩
        rw [List.mem_singleton.1 hm] at hpm
        exact hfirst hpm
    · have hfirst : p ∈ noticePrims view flags stage n.2 := by
        rcases List.mem_cons.1 hn' with rfl | hn'
        · exact hp
        · exact absurd ⟨n', hn', hp⟩ hlater
      exact (h.renewed c p hc hmem ⟨n, List.mem_singleton_self n, hfirst⟩ hw).quiet
        (h'.quiet c p hc fun hx => hlater hx.1) h'.grows.seq_le
  · intro c p hc hnot
    refine (h.quiet c p hc ?_).trans (h'.quiet c p hc ?_)
    · rintro ⟨⟨m, hm, hpm⟩, hw⟩
      rw [List.mem_singleton.1 hm] at hpm
      exact hnot ⟨⟨n, List.mem_cons_self, hpm⟩, hw⟩
    · rintro ⟨⟨m, hm, hpm⟩, hw⟩
      exact hnot ⟨⟨m, List.mem_cons_of_mem _ hm, hpm⟩, hw⟩

variable (view flags) in
/-- The notices of a call that fires them when its change block closes. -/
theorem news_deliver (notices : List (σ × ObjectsChanged Path)) (hs : s.Recorded)
    (hstage : ∀ n ∈ notices, n.1 = stage) :
    ∃ d, News view flags stage notices s (s.deliver view flags notices) d := by
  induction notices generalizing s with
  | nil => exact ⟨[], .refl s, by simp, fun _ _ _ _ => .refl s⟩
  | cons n notices ih =>
    rw [List.forall_mem_cons] at hstage
    have hs' : Recorded { s with stage := n.1 } := ⟨hs.sent_le, hs.maxSent_le, hs.threshold_le⟩
    obtain ⟨d, hd⟩ := news_onObjectsChanged view flags hs' hstage.1 n
    obtain ⟨d₁, hd₁⟩ := ih (hd.grows.recorded hs') hstage.2
    have hn : News view flags stage [n] s (onObjectsChanged view flags { s with stage := n.1 } n.2) d :=
      ⟨⟨hd.grows.sent, hd.grows.clients, hd.grows.seq_le, hd.grows.maxSent_le,
        fun _ => hd.grows.recorded hs'⟩,
        hd.renewed, fun c p hc hnot => ⟨(hd.quiet c p hc hnot).threshold, (hd.quiet c p hc hnot).frames⟩⟩
    exact ⟨d ++ d₁, hn.cons hd₁⟩

variable (view flags) in
theorem news_author {α : Type} (call : Call σ Path α) (hs : s.Recorded)
    (hstage : ∀ n ∈ call.notices, n.1 = call.stage) :
    ∃ d, News view flags call.stage call.notices s (s.author view flags call) d := by
  obtain ⟨d, hd⟩ := news_deliver view flags call.notices hs hstage
  exact ⟨d, ⟨hd.grows.sent, hd.grows.clients, hd.grows.seq_le, hd.grows.maxSent_le,
      fun h => ⟨(hd.grows.recorded h).sent_le, (hd.grows.recorded h).maxSent_le,
        (hd.grows.recorded h).threshold_le⟩⟩,
    hd.renewed, fun c p hc hnot => ⟨(hd.quiet c p hc hnot).threshold, (hd.quiet c p hc hnot).frames⟩⟩

end Calls

/-! ### Acks and corrections -/

/-- The state of a prim that clients are to show: the transform of an active prim. -/
def current (view : StageView σ Path R) (stage : σ) (p : Path) : Option (Transform R) :=
  if view.isInactive stage p then none else view.readResolvedTransform stage p

section Replies
variable (view : StageView σ Path R) (s : Session σ Path R) (c : ConnectionId)

omit [LinearOrder Path] in
/-- Frames of the current version change no threshold. -/
theorem grows_sendToConnection (messages : List (Message Path R)) (cause : Cause) :
    ∃ d, Grows s (s.sendToConnection c messages cause) d ∧
      (∀ c' p, (s.sendToConnection c messages cause).threshold c' p = s.threshold c' p) ∧
      ∀ x ∈ d, x.frame.message ∈ messages := by
  unfold sendToConnection
  split_ifs with hc
  · have hmono : ∀ c', s.versions.maxSent c' ≤ (s.versions.recordSent c s.serverSeq).maxSent c' := by
      intro c'
      rw [SessionVersions.maxSent_recordSent]
      split_ifs
      · exact le_max_left _ _
      · exact le_rfl
    refine ⟨_, ⟨rfl, rfl, le_rfl, hmono, ?_⟩, fun c' p => by simp [threshold], ?_⟩
    · intro hs
      refine ⟨?_, ?_, ?_⟩
      · rw [List.forall_mem_append]
        refine ⟨fun x hx => (hs.sent_le x hx).trans (hmono _), ?_⟩
        intro x hx
        obtain ⟨m, -, rfl⟩ := List.mem_map.1 hx
        rw [SessionVersions.maxSent_recordSent, if_pos rfl]
        exact le_max_right _ _
      · intro c'
        rw [SessionVersions.maxSent_recordSent]
        split_ifs
        · exact max_le (hs.maxSent_le c') le_rfl
        · exact hs.maxSent_le c'
      · intro c' p hc'
        simpa [threshold] using hs.threshold_le c' p hc'
    · intro x hx
      obtain ⟨m, hm, rfl⟩ := List.mem_map.1 hx
      exact hm
  · exact ⟨[], .refl s, fun _ _ => rfl, by simp⟩

theorem news_sendAck (r : Nat) (e : Option AckError) :
    ∃ d, Grows s (s.sendAck c r e) d ∧ ∀ c' p, Quiet c' p s (s.sendAck c r e) d := by
  obtain ⟨d, hgrows, hthr, hd⟩ := grows_sendToConnection s c [.ack r e] .ack
  refine ⟨d, hgrows, fun c' p => ⟨hthr c' p, ?_⟩⟩
  rw [List.eq_nil_iff_forall_not_mem]
  rintro ⟨n, v⟩ hx
  obtain ⟨y, hy, -, hf⟩ := mem_framesIn.1 (mem_xformsOf.1 hx)
  have hmsg := hd y hy
  rw [hf] at hmsg
  simp at hmsg

section Corrected
variable {view s c} {p : Path} {m : Message Path R}

theorem sendCorrection_of_message (hnull : view.isNull s.stage = false) (hc : c ≠ 0) (hmem : c ∈ s.clients)
    (hm : correctionMessage view s.stage p = some m) :
    sendCorrection view s c p = { s with
      serverSeq := s.serverSeq + 1
      sent := s.sent ++ [⟨c, ⟨m, s.serverSeq + 1⟩, .correction⟩]
      versions := s.versions.recordCorrection c p (s.serverSeq + 1)
      log := s.log ++ [⟨s.serverSeq + 1, .correction c, s.clients, [(p, some m)]⟩] } := by
  unfold sendCorrection
  rw [if_neg (by simp [hnull, hc]), hm]
  exact if_pos hmem

/-- A correction outdates what its client has, for that prim alone. -/
theorem threshold_recordCorrection (hs : s.Recorded) (hc : c ≠ 0) (c' : ConnectionId) (p' : Path) :
    max ((s.versions.recordCorrection c p (s.serverSeq + 1)).latestForeign c' p')
        ((s.versions.recordCorrection c p (s.serverSeq + 1)).correction c' p') =
      if c' = c ∧ p' = p then s.serverSeq + 1 else s.threshold c' p' := by
  rw [SessionVersions.latestForeign_recordCorrection, SessionVersions.correction_recordCorrection]
  split_ifs with heq
  · rw [heq.1, heq.2]
    exact max_eq_right (((le_max_left _ _).trans (hs.threshold_le c p hc)).trans (Nat.le_succ _))
  · rfl

theorem le_maxSent_recordCorrection (n : Nat) (c' : ConnectionId) :
    s.versions.maxSent c' ≤ (s.versions.recordCorrection c p n).maxSent c' := by
  rw [SessionVersions.maxSent_recordCorrection]
  split_ifs
  · exact le_max_left _ _
  · exact le_rfl

theorem grows_sendCorrection (hs : s.Recorded) (hnull : view.isNull s.stage = false) (hc : c ≠ 0)
    (hmem : c ∈ s.clients) (hm : correctionMessage view s.stage p = some m) :
    Grows s (sendCorrection view s c p) [⟨c, ⟨m, s.serverSeq + 1⟩, .correction⟩] := by
  rw [sendCorrection_of_message hnull hc hmem hm]
  refine ⟨rfl, rfl, Nat.le_succ _, le_maxSent_recordCorrection _, fun _ => ⟨?_, ?_, ?_⟩⟩
  · rw [List.forall_mem_append, List.forall_mem_singleton]
    refine ⟨fun x hx => (hs.sent_le x hx).trans (le_maxSent_recordCorrection _ _), ?_⟩
    rw [SessionVersions.maxSent_recordCorrection, if_pos rfl]
    exact le_max_right _ _
  · intro c'
    have hle := (hs.maxSent_le c').trans (Nat.le_succ _)
    rw [SessionVersions.maxSent_recordCorrection]
    split_ifs
    · exact max_le hle le_rfl
    · exact hle
  · intro c' p' hc'
    rw [threshold, threshold_recordCorrection hs hc]
    split_ifs
    · exact le_rfl
    · exact (hs.threshold_le c' p' hc').trans (Nat.le_succ _)

theorem quiet_sendCorrection (hs : s.Recorded) (hnull : view.isNull s.stage = false) (hc : c ≠ 0)
    (hmem : c ∈ s.clients) (hm : correctionMessage view s.stage p = some m) {c' : ConnectionId} {p' : Path}
    (hne : c' ≠ c ∨ p' ≠ p) :
    Quiet c' p' s (sendCorrection view s c p) [⟨c, ⟨m, s.serverSeq + 1⟩, .correction⟩] := by
  rw [sendCorrection_of_message hnull hc hmem hm]
  refine ⟨?_, ?_⟩
  · rw [threshold, threshold_recordCorrection hs hc, if_neg (by rintro ⟨rfl, rfl⟩; simp at hne)]
  · rw [List.eq_nil_iff_forall_not_mem]
    rintro ⟨n, v⟩ hx
    obtain ⟨y, hy, hyc, hf⟩ := mem_framesIn.1 (mem_xformsOf.1 hx)
    rw [List.mem_singleton.1 hy] at hyc hf
    obtain ⟨hmsg, -⟩ := Frame.mk.inj hf
    rcases correctionMessage_cases hm with ⟨t, rfl⟩ | rfl
    · obtain ⟨hp, -⟩ := Message.xformBroadcast.inj hmsg
      rcases hne with h | h
      · exact h hyc.symm
      · exact h hp.symm
    · cases hmsg

omit [LinearOrder Path] in
theorem correctionMessage_of_current {v : Transform R} (hm : correctionMessage view s.stage p = some m)
    (hv : current view s.stage p = some v) : m = .xformBroadcast p v := by
  unfold correctionMessage at hm
  unfold current at hv
  split_ifs at hm hv
  rw [hv] at hm
  exact (Option.some.inj hm).symm

theorem renewed_sendCorrection (hs : s.Recorded) (hnull : view.isNull s.stage = false) (hc : c ≠ 0)
    (hmem : c ∈ s.clients) (hm : correctionMessage view s.stage p = some m) :
    Renewed c p (current view s.stage p) s (sendCorrection view s c p)
      [⟨c, ⟨m, s.serverSeq + 1⟩, .correction⟩] := by
  rw [sendCorrection_of_message hnull hc hmem hm]
  refine ⟨s.serverSeq + 1, Nat.lt_succ_self _, le_rfl, ?_, ?_, ?_⟩
  · rw [threshold, threshold_recordCorrection hs hc, if_pos ⟨rfl, rfl⟩]
  · rintro ⟨n, v⟩ hx
    obtain ⟨y, hy, -, hf⟩ := mem_framesIn.1 (mem_xformsOf.1 hx)
    rw [List.mem_singleton.1 hy] at hf
    obtain ⟨-, rfl⟩ := Frame.mk.inj hf
    exact ⟨Nat.lt_succ_self _, le_rfl⟩
  · intro v hv
    rw [correctionMessage_of_current hm hv]
    simp [framesIn, xformsOf]

end Corrected

/-- A correction is news to one client about one prim: the prim's state, if it has one. -/
theorem news_sendCorrection (p : Path) (hs : s.Recorded) (hnull : view.isNull s.stage = false)
    (hc : c ≠ 0) (hmem : c ∈ s.clients) :
    ∃ d, Grows s (sendCorrection view s c p) d ∧
      (∀ c' p', c' ≠ c ∨ p' ≠ p → Quiet c' p' s (sendCorrection view s c p) d) ∧
      (Renewed c p (current view s.stage p) s (sendCorrection view s c p) d ∨
        current view s.stage p = none ∧ Quiet c p s (sendCorrection view s c p) d) := by
  cases hm : correctionMessage view s.stage p with
  | none =>
    have hsame : sendCorrection view s c p = s := by
      unfold sendCorrection
      rw [if_neg (by simp [hnull, hc]), hm]
    rw [hsame]
    refine ⟨[], .refl s, fun _ _ _ => .refl s, .inr ⟨?_, .refl s⟩⟩
    unfold correctionMessage at hm
    unfold current
    split_ifs at hm ⊢
    exact Option.map_eq_none_iff.1 hm
  | some m =>
    exact ⟨_, grows_sendCorrection hs hnull hc hmem hm,
      fun _ _ hne => quiet_sendCorrection hs hnull hc hmem hm hne,
      .inl (renewed_sendCorrection hs hnull hc hmem hm)⟩

end Replies

/-! ### Handlers -/

section Handlers
variable {view : StageView σ Path R} {flags : NoticeFlags} {stage : σ}
  {notices : List (σ × ObjectsChanged Path)} {s s₁ s' : Session σ Path R} {d d₁ : List (Sent Path R)}

theorem News.quiet_after (h : News view flags stage notices s s₁ d) (hg : Grows s₁ s' d₁)
    (hq : ∀ c p, Quiet c p s₁ s' d₁) : News view flags stage notices s s' (d ++ d₁) :=
  ⟨h.grows.trans hg, fun c p hc hmem hn hw => (h.renewed c p hc hmem hn hw).quiet (hq c p) hg.seq_le,
    fun c p hc hnot => (h.quiet c p hc hnot).trans (hq c p)⟩

/-- The prim is named by one of the notices. -/
def Named (call : Call σ Path Bool) (p : Path) : Prop :=
  ∃ n ∈ call.notices, p ∈ affectedPrims n.2

/-- What an update of an attached client means for every client and prim. A failed update is
corrected for its sender. -/
inductive TransformNews (view : StageView σ Path R) (call : Call σ Path Bool)
    (command : TransformCommand Path R) (s s' : Session σ Path R) (d : List (Sent Path R)) : Prop where
  | stale : command.baseSeq < s.threshold command.origin command.primPath → s'.stage = s.stage →
      (∀ c p, Quiet c p s s' d) → TransformNews view call command s s' d
  | applied : s.threshold command.origin command.primPath ≤ command.baseSeq →
      s'.stage = call.stage → call.outcome = .returned true →
      (∀ c p, c ≠ 0 → c ∈ s.clients → Named call p → command.origin ≠ c →
        Renewed c p (view.readResolvedTransform call.stage p) s s' d) →
      (∀ c p, c ≠ 0 → ¬ (Named call p ∧ command.origin ≠ c) → Quiet c p s s' d) →
      TransformNews view call command s s' d
  | failed : s.threshold command.origin command.primPath ≤ command.baseSeq →
      s'.stage = call.stage → call.outcome ≠ .returned true →
      (∀ c p, c ≠ 0 → c ∈ s.clients → Named call p → command.origin ≠ c →
        Renewed c p (view.readResolvedTransform call.stage p) s s' d) →
      (∀ c p, c ≠ 0 → ¬ (Named call p ∧ command.origin ≠ c) →
        ¬ (c = command.origin ∧ p = command.primPath) → Quiet c p s s' d) →
      (Renewed command.origin command.primPath (current view call.stage command.primPath) s s' d ∨
        current view call.stage command.primPath = none ∧
          Quiet command.origin command.primPath s s' d) →
      TransformNews view call command s s' d

theorem handleTransform_of_failed {call : Call σ Path Bool} {command : TransformCommand Path R}
    (hcheck : s.versions.checkUpdate command.origin command.primPath command.baseSeq = .current)
    (hok : call.outcome ≠ .returned true) :
    s.handleTransform view call command =
      sendCorrection view ((s.author view { currentOrigin := command.origin } call).sendAck
        command.origin command.requestId (some .applyFailed)) command.origin command.primPath := by
  rw [handleTransform, hcheck]
  rcases hout : call.outcome with ⟨_ | _⟩ | _
  · simp only
  · exact absurd hout hok
  · simp only

theorem news_handleTransform {call : Call σ Path Bool} (command : TransformCommand Path R)
    (hs : s.Recorded) (hnull : view.isNull call.stage = false)
    (hstage : ∀ n ∈ call.notices, n.1 = call.stage) (hc : command.origin ≠ 0)
    (hmem : command.origin ∈ s.clients)
    (hbase : command.baseSeq ≤ s.versions.maxSent command.origin) :
    ∃ d, Grows s (s.handleTransform view call command) d ∧
      TransformNews view call command s (s.handleTransform view call command) d := by
  by_cases hstale : command.baseSeq < s.threshold command.origin command.primPath
  · -- the base was sent to the client, so the update is not invalid
    have hcheck : s.versions.checkUpdate command.origin command.primPath command.baseSeq = .stale := by
      rw [SessionVersions.checkUpdate, if_neg (not_lt.2 hbase)]
      exact if_pos hstale
    obtain ⟨d, hg, hq⟩ := news_sendAck s command.origin command.requestId (some .stale)
    unfold handleTransform
    rw [hcheck]
    exact ⟨d, hg, .stale hstale (stage_sendAck ..) hq⟩
  have hcheck : s.versions.checkUpdate command.origin command.primPath command.baseSeq = .current := by
    rw [SessionVersions.checkUpdate, if_neg (not_lt.2 hbase)]
    exact if_neg hstale
  obtain ⟨d, hnews⟩ := news_author view { currentOrigin := command.origin } call hs hstage
  by_cases hok : call.outcome = .returned true
  · unfold handleTransform
    rw [hcheck, hok]
    obtain ⟨d₁, hg, hq⟩ := news_sendAck { s.author view { currentOrigin := command.origin } call with
      dirty := true } command.origin command.requestId none
    have hall := hnews.quiet_after ⟨hg.sent, hg.clients, hg.seq_le, hg.maxSent_le,
      fun h => hg.recorded ⟨h.sent_le, h.maxSent_le, h.threshold_le⟩⟩
      fun c p => ⟨(hq c p).threshold, (hq c p).frames⟩
    exact ⟨d ++ d₁, hall.grows, .applied (not_lt.1 hstale) (stage_sendAck ..) hok hall.renewed hall.quiet⟩
  · rw [handleTransform_of_failed hcheck hok]
    obtain ⟨d₁, hg, hq⟩ := news_sendAck (s.author view { currentOrigin := command.origin } call)
      command.origin command.requestId (some .applyFailed)
    have hall := hnews.quiet_after hg hq
    have hstage' : ((s.author view { currentOrigin := command.origin } call).sendAck
        command.origin command.requestId (some .applyFailed)).stage = call.stage := stage_sendAck ..
    obtain ⟨d₂, hg₂, hother, hself⟩ := news_sendCorrection view _ command.origin
      command.primPath (hall.grows.recorded hs) (hstage' ▸ hnull) hc (hall.grows.clients ▸ hmem)
    rw [hstage'] at hself
    -- the sender gets no echo of what the call changed, only the correction
    have hquiet : Quiet command.origin command.primPath s _ (d ++ d₁) :=
      hall.quiet command.origin command.primPath hc fun h => h.2 rfl
    refine ⟨d ++ d₁ ++ d₂, hall.grows.trans hg₂, .failed (not_lt.1 hstale) ?_ hok ?_ ?_ ?_⟩
    · rw [stage_sendCorrection, hstage']
    · intro c p h0 hc hn hw
      exact (hall.renewed c p h0 hc hn hw).quiet (hother c p (.inl (Ne.symm hw))) hg₂.seq_le
    · intro c p h0 hnot hne
      exact (hall.quiet c p h0 hnot).trans (hother c p (not_and_or.1 hne))
    · rcases hself with hself | ⟨hnone, hself⟩
      · exact .inl (.of_quiet hquiet hall.grows.seq_le hself)
      · exact .inr ⟨hnone, hquiet.trans hself⟩

/-- A reload tells every client the prims that the notices name and the session layer does not
override. -/
theorem news_reloadRootLayer {call : Call σ Path Bool} (hs : s.Recorded)
    (hnull : view.isNull s.stage = false) (hstage : ∀ n ∈ call.notices, n.1 = call.stage) :
    ∃ d, News view { reloadInProgress := true } call.stage call.notices s
      (s.reloadRootLayer view call) d := by
  rw [reloadRootLayer, if_neg (by simp [hnull])]
  exact news_author view { reloadInProgress := true } call hs hstage

end Handlers

end Session
end IdtxCore
