import Mathlib.Data.List.Basic
import Mathlib.Order.Lattice
import Mathlib.Order.Basic

/-!
# An optimistic replica of one register

A server keeps a register, numbers its changes and accepts an update only if no change the client
has to know about came after the update's base. The client shows its own updates at once and gets no
echo of them; every other change reaches it as a frame, in order. `Replica` is one client's side of
one register: the frames on the way to it and its updates on the way to the server.

The invariant `Sound` says why the client ends with the server's value. As long as the value it
shows is not the server's, something is still to come: a correction, an update that will be
accepted, or a frame, the last of which carries the value. It rests on one condition on the client
(`Sound.edit`): an update must be newer than every frame of the register that is still on its way.
-/

/-- What a client shows: its own update, or a value it received. -/
inductive Shown (U V : Type*) where
  | own (u : U)
  | received (v : V)
  deriving DecidableEq, Repr

/-- The value shown, where `canon u` is the value that an update `u` gives the register. -/
def Shown.value {U V : Type*} (canon : U → V) : Shown U V → V
  | .own u => canon u
  | .received v => v

structure Replica (U V : Type*) where
  /-- the server's version -/
  top : Nat
  /-- updates with a lower base are rejected -/
  threshold : Nat
  /-- the highest version the client has received -/
  base : Nat
  /-- version and value of the frames on the way to the client, oldest first -/
  frames : List (Nat × V)
  /-- base and value of the updates the server has not handled, oldest first -/
  pending : List (Nat × U)
  /-- the server owes the client a correction -/
  owed : Prop
  shown : Option (Shown U V)
  /-- the server's value, if the register exists -/
  current : Option V

namespace Replica
variable {U V : Type*} {canon : U → V} {t : Replica U V}

structure Sound (canon : U → V) (t : Replica U V) : Prop where
  base_le : t.base ≤ t.top
  threshold_le : t.threshold ≤ t.top
  frames_le : ∀ f ∈ t.frames, f.1 ≤ t.threshold
  /-- no frame on the way is older than an update on the way -/
  crossing : ∀ f ∈ t.frames, ∀ x ∈ t.pending, x.1 < f.1
  pending_sorted : t.pending.Pairwise (fun x y => x.1 ≤ y.1)
  pending_le : ∀ x ∈ t.pending, x.1 ≤ t.base
  /-- the change that set the threshold was received or is on its way -/
  reached : t.current ≠ none → t.threshold ≤ t.base ∨ ∃ f ∈ t.frames, f.1 = t.threshold
  /-- the last update is what the client shows, unless it will be rejected -/
  last_shown : t.current ≠ none → ∀ x, t.pending.getLast? = some x →
    t.owed ∨ x.1 < t.threshold ∨ t.shown = some (.own x.2)
  converging : ∀ v, t.current = some v →
    t.owed ∨ (∃ x ∈ t.pending, t.threshold ≤ x.1) ∨ (∃ n, t.frames.getLast? = some (n, v)) ∨
      (t.frames = [] ∧ t.shown.map (Shown.value canon) = some v)

namespace Sound

/-- With nothing on the way and nothing owed, the client shows the server's value. -/
theorem settled (h : t.Sound canon) {v : V} (hv : t.current = some v) (howed : ¬ t.owed)
    (hpending : t.pending = []) (hframes : t.frames = []) :
    t.shown.map (Shown.value canon) = some v := by
  rcases h.converging v hv with ho | ⟨x, hx, -⟩ | ⟨n, hn⟩ | ⟨-, hshown⟩
  · exact absurd ho howed
  · rw [hpending] at hx; cases hx
  · rw [hframes] at hn; cases hn
  · exact hshown

/-- A client that knows the server's version and value. -/
theorem join (hbase : t.base = t.top) (hthreshold : t.threshold ≤ t.top) (hframes : t.frames = [])
    (hpending : t.pending = [])
    (hshown : ∀ v, t.current = some v → t.shown.map (Shown.value canon) = some v) : t.Sound canon where
  base_le := hbase.le
  threshold_le := hthreshold
  frames_le := by simp [hframes]
  crossing := by simp [hframes]
  pending_sorted := by simp [hpending]
  pending_le := by simp [hpending]
  reached := fun _ => .inl (hthreshold.trans hbase.ge)
  last_shown := by simp [hpending]
  converging := fun v hv => .inr (.inr (.inr ⟨hframes, hshown v hv⟩))

/-! ### Steps of the client -/

theorem edit (h : t.Sound canon) (u : U) (hclear : ∀ f ∈ t.frames, t.base < f.1) :
    Sound canon { t with pending := t.pending ++ [(t.base, u)], shown := some (.own u) } where
  base_le := h.base_le
  threshold_le := h.threshold_le
  frames_le := h.frames_le
  crossing := by
    intro f hf
    rw [List.forall_mem_append, List.forall_mem_singleton]
    exact ⟨h.crossing f hf, hclear f hf⟩
  pending_sorted := by
    rw [List.pairwise_append]
    refine ⟨h.pending_sorted, List.pairwise_singleton _ _, ?_⟩
    intro x hx y hy
    rw [List.mem_singleton.1 hy]
    exact h.pending_le x hx
  pending_le := by
    rw [List.forall_mem_append, List.forall_mem_singleton]
    exact ⟨h.pending_le, le_rfl⟩
  reached := h.reached
  last_shown := by
    intro _ x hx
    rw [List.getLast?_concat, Option.some.injEq] at hx
    subst hx
    exact .inr (.inr rfl)
  converging := by
    intro v hv
    replace hv : t.current = some v := hv
    by_cases hbase : t.threshold ≤ t.base
    · -- the update will be accepted
      exact .inr (.inl ⟨(t.base, u), by simp, hbase⟩)
    · -- the update will be rejected, and the frame that outdates it is on its way
      obtain ⟨f, hf, -⟩ := (h.reached (by simp [hv])).resolve_left hbase
      rcases h.converging v hv with ho | ⟨x, hx, hle⟩ | hlast | ⟨hnil, -⟩
      · exact .inl ho
      · exact .inr (.inl ⟨x, List.mem_append_left _ hx, hle⟩)
      · exact .inr (.inr (.inl hlast))
      · rw [hnil] at hf; cases hf

theorem deliver (h : t.Sound canon) {f : Nat × V} {fs : List (Nat × V)} (hf : t.frames = f :: fs) :
    Sound canon { t with frames := fs, base := max t.base f.1, shown := some (.received f.2) } where
  base_le := max_le h.base_le ((h.frames_le f (by simp [hf])).trans h.threshold_le)
  threshold_le := h.threshold_le
  frames_le := fun g hg => h.frames_le g (by simp [hf, hg])
  crossing := fun g hg => h.crossing g (by simp [hf, hg])
  pending_sorted := h.pending_sorted
  pending_le := fun x hx => (h.pending_le x hx).trans (le_max_left _ _)
  reached := by
    intro hc
    rcases h.reached hc with hle | ⟨g, hg, hgt⟩
    · exact .inl (hle.trans (le_max_left _ _))
    · rw [hf] at hg
      rcases List.mem_cons.1 hg with rfl | hg
      · exact .inl (hgt ▸ le_max_right _ _)
      · exact .inr ⟨g, hg, hgt⟩
  last_shown := by
    -- the frame is newer than every update on the way, so those will be rejected
    intro _ x hx
    have hfmem : f ∈ t.frames := by simp [hf]
    exact .inr (.inl ((h.crossing f hfmem x (List.mem_of_getLast? hx)).trans_le (h.frames_le f hfmem)))
  converging := by
    intro v hv
    rcases h.converging v hv with ho | hp | ⟨n, hn⟩ | ⟨hnil, -⟩
    · exact .inl ho
    · exact .inr (.inl hp)
    · rw [hf] at hn
      cases fs with
      | nil =>
        simp only [List.getLast?_singleton, Option.some.injEq] at hn
        subst hn
        exact .inr (.inr (.inr ⟨rfl, rfl⟩))
      | cons g gs =>
        rw [List.getLast?_cons_cons] at hn
        exact .inr (.inr (.inl ⟨n, hn⟩))
    · rw [hf] at hnil; cases hnil

/-- A frame about something else. -/
theorem observe (h : t.Sound canon) {n : Nat} (hn : n ≤ t.top) :
    Sound canon { t with base := max t.base n } :=
  { h with
    base_le := max_le h.base_le hn
    pending_le := fun x hx => (h.pending_le x hx).trans (le_max_left _ _)
    reached := fun hc => (h.reached hc).imp_left fun hle => hle.trans (le_max_left _ _) }

/-! ### Steps of the server -/

theorem advance (h : t.Sound canon) {n : Nat} (hn : t.top ≤ n) : Sound canon { t with top := n } :=
  { h with base_le := h.base_le.trans hn, threshold_le := h.threshold_le.trans hn }

theorem owe (h : t.Sound canon) {o : Prop} (ho : t.owed → o) : Sound canon { t with owed := o } :=
  { h with
    last_shown := fun hc x hx => (h.last_shown hc x hx).imp_left ho
    converging := fun v hv => (h.converging v hv).imp_left ho }

/-- The server drops an update and owes a correction. -/
theorem refuse (h : t.Sound canon) {xs : List (Nat × U)} (hxs : xs.Sublist t.pending) {o : Prop}
    (ho : o) : Sound canon { t with pending := xs, owed := o } :=
  { h with
    crossing := fun f hf x hx => h.crossing f hf x (hxs.subset hx)
    pending_sorted := h.pending_sorted.sublist hxs
    pending_le := fun x hx => h.pending_le x (hxs.subset hx)
    last_shown := fun _ _ _ => .inl ho
    converging := fun _ _ => .inl ho }

/-- The oldest update is rejected because it is outdated. -/
theorem outdated (h : t.Sound canon) {x : Nat × U} {xs : List (Nat × U)} (hp : t.pending = x :: xs)
    (hx : x.1 < t.threshold) : Sound canon { t with pending := xs } := by
  have hsub : xs.Sublist t.pending := hp ▸ List.sublist_cons_self x xs
  refine { h with
    crossing := fun f hf y hy => h.crossing f hf y (hsub.subset hy)
    pending_sorted := h.pending_sorted.sublist hsub
    pending_le := fun y hy => h.pending_le y (hsub.subset hy)
    last_shown := ?_
    converging := ?_ }
  · intro hc y hy
    refine h.last_shown hc y ?_
    rw [hp]
    cases xs with
    | nil => cases hy
    | cons z zs => rwa [List.getLast?_cons_cons]
  · intro v hv
    rcases h.converging v hv with ho | ⟨y, hy, hle⟩ | hrest
    · exact .inl ho
    · rw [hp] at hy
      rcases List.mem_cons.1 hy with rfl | hy
      · exact absurd hle (not_le.2 hx)
      · exact .inr (.inl ⟨y, hy, hle⟩)
    · exact .inr (.inr hrest)

/-- The oldest update is accepted: there is no frame on its way that could overwrite it. -/
theorem accept (h : t.Sound canon) {x : Nat × U} {xs : List (Nat × U)} (hp : t.pending = x :: xs)
    (hx : t.threshold ≤ x.1) :
    Sound canon { t with pending := xs, current := t.current.map fun _ => canon x.2 } := by
  have hsub : xs.Sublist t.pending := hp ▸ List.sublist_cons_self x xs
  have hframes : t.frames = [] := by
    rw [List.eq_nil_iff_forall_not_mem]
    intro f hf
    have := h.crossing f hf x (by simp [hp])
    have := h.frames_le f hf
    omega
  refine { h with
    crossing := fun f hf y hy => h.crossing f hf y (hsub.subset hy)
    pending_sorted := h.pending_sorted.sublist hsub
    pending_le := fun y hy => h.pending_le y (hsub.subset hy)
    reached := fun hc => h.reached (by simpa using hc)
    last_shown := ?_
    converging := ?_ }
  · intro hc y hy
    refine h.last_shown (by simpa using hc) y ?_
    rw [hp]
    cases xs with
    | nil => cases hy
    | cons z zs => rwa [List.getLast?_cons_cons]
  · intro v hv
    obtain ⟨w, hw, rfl⟩ := Option.map_eq_some_iff.1 hv
    cases xs with
    | nil =>
      rcases h.last_shown (by simp [hw]) x (by simp [hp]) with ho | hlt | hshown
      · exact .inl ho
      · exact absurd hlt (not_lt.2 hx)
      · exact .inr (.inr (.inr ⟨hframes, by simp [hshown, Shown.value]⟩))
    | cons y ys =>
      -- a later update has a later base
      have hxy : x.1 ≤ y.1 := by
        have := h.pending_sorted
        rw [hp] at this
        exact List.rel_of_pairwise_cons this (by simp)
      exact .inr (.inl ⟨y, by simp, hx.trans hxy⟩)

/-- The client is told the value: whatever it has sent before is outdated. -/
theorem tell (h : t.Sound canon) {n top' : Nat} {v : V} {fs : List (Nat × V)} {xs : List (Nat × U)}
    {current' : Option V} {o : Prop} (hn : t.top < n) (htop : n ≤ top')
    (hlast : fs.getLast? = some (n, v)) (hfs : ∀ f ∈ fs, t.top < f.1 ∧ f.1 ≤ n)
    (hxs : xs.Sublist t.pending) (hcurrent : ∀ w, current' = some w → w = v) :
    Sound canon { t with
      top := top', threshold := n, frames := t.frames ++ fs, pending := xs, current := current',
      owed := o } := by
  have hold : ∀ x ∈ xs, x.1 ≤ t.top := fun x hx => (h.pending_le x (hxs.subset hx)).trans h.base_le
  have hmem : (n, v) ∈ fs := List.mem_of_getLast? hlast
  constructor
  · exact (h.base_le.trans hn.le).trans htop
  · exact htop
  · rw [List.forall_mem_append]
    exact ⟨fun f hf => ((h.frames_le f hf).trans h.threshold_le).trans hn.le, fun f hf => (hfs f hf).2⟩
  · rw [List.forall_mem_append]
    exact ⟨fun f hf x hx => h.crossing f hf x (hxs.subset hx),
      fun f hf x hx => (hold x hx).trans_lt (hfs f hf).1⟩
  · exact h.pending_sorted.sublist hxs
  · exact fun x hx => h.pending_le x (hxs.subset hx)
  · exact fun _ => .inr ⟨(n, v), List.mem_append_right _ hmem, rfl⟩
  · exact fun _ x hx => .inr (.inl ((hold x (List.mem_of_getLast? hx)).trans_lt hn))
  · intro w hw
    rw [hcurrent w hw]
    exact .inr (.inr (.inl ⟨n, by rw [List.getLast?_append, hlast]; rfl⟩))

/-- The register does not exist, so the client is promised nothing about it. -/
theorem vanish (h : t.Sound canon) {n top' : Nat} {f : List (Nat × V)} {xs : List (Nat × U)} {o : Prop}
    (hn : t.threshold ≤ n) (htop : t.top ≤ top') (hntop : n ≤ top')
    (hf : ∀ x ∈ f, t.top < x.1 ∧ x.1 ≤ n) (hxs : xs.Sublist t.pending) :
    Sound canon { t with
      top := top', threshold := n, frames := t.frames ++ f, pending := xs, current := none,
      owed := o } := by
  have hold : ∀ x ∈ xs, x.1 ≤ t.top := fun x hx => (h.pending_le x (hxs.subset hx)).trans h.base_le
  constructor
  · exact h.base_le.trans htop
  · exact hntop
  · rw [List.forall_mem_append]
    exact ⟨fun x hx => (h.frames_le x hx).trans hn, fun x hx => (hf x hx).2⟩
  · rw [List.forall_mem_append]
    exact ⟨fun x hx y hy => h.crossing x hx y (hxs.subset hy),
      fun x hx y hy => (hold y hy).trans_lt (hf x hx).1⟩
  · exact h.pending_sorted.sublist hxs
  · exact fun x hx => h.pending_le x (hxs.subset hx)
  · exact fun hc => absurd rfl hc
  · exact fun hc => absurd rfl hc
  · intro v hv
    cases hv

end Sound
end Replica
