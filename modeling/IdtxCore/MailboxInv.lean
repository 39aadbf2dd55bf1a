import IdtxCore.Mailbox

/-!
# The sequence invariant of the mailbox

`Ring.Inv`: let `r` be the number of released positions (`dequeue_position_`, plus one in the window
where the consumer has stored the new sequence and not yet advanced). The positions
`r, …, r + Capacity - 1` use every slot exactly once. Those below `enqueue_position_` are reserved
(`Live`): the slot's sequence is the position until the owner publishes it and the position plus
one afterwards. Those from `enqueue_position_` on are free: the sequence is the position and the
storage is empty. Everything a producer does with a stale position is decided by comparing it with
this window (`sequence_of_window`, `sequence_of_released`).

`Inv` speaks about the ring, the producers' places and the consumer's place only, so the scheduler
can carry it for calls that are frames of its own threads.
-/

namespace IdtxCore
namespace Ring
variable {P α : Type} {cap : Capacity}

/-- The number of positions the consumer has released. -/
def released (r : Ring P α cap) : Option (Pop α) → Nat
  | some (.advance ..) => r.box.dequeuePosition + 1
  | _ => r.box.dequeuePosition

/-- The slot of a reserved and not yet released position `n`, owned by `p` with value `v`. -/
inductive Live (r : Ring P α cap) (producer : P → Option (Emplace α)) (consumer : Option (Pop α))
    (n : Nat) (p : P) (v : α) : Prop where
  | reserved : r.box.slot n = ⟨n, none⟩ → producer p = some (.construct v n) → Live r producer consumer n p v
  | constructed : r.box.slot n = ⟨n, some v⟩ → producer p = some (.publish n) → Live r producer consumer n p v
  | published : r.box.slot n = ⟨n + 1, some v⟩ → Live r producer consumer n p v
  | taken : r.box.slot n = ⟨n + 1, none⟩ → consumer = some (.release n (some v)) →
      Live r producer consumer n p v

/-- What producer `p` may rely on at each place of `TryEmplace`. -/
def EmplaceOk (r : Ring P α cap) (consumer : Option (Pop α)) (p : P) : Emplace α → Prop
  | .loadSequence _ n => n ≤ r.box.enqueuePosition
  | .compareExchange _ n => n ≤ r.box.enqueuePosition ∧ n < r.released consumer + cap.val
  | .construct v n =>
    r.released consumer ≤ n ∧ r.reserved[n]? = some (p, v) ∧ r.box.slot n = ⟨n, none⟩
  | .publish n => r.released consumer ≤ n ∧
      ∃ v, r.reserved[n]? = some (p, v) ∧ r.box.slot n = ⟨n, some v⟩
  | .loadPosition _ | .returned _ => True

/-- What the consumer may rely on at each place of `TryPop`. -/
def PopOk (r : Ring P α cap) : Pop α → Prop
  | .loadSequence n => n = r.box.dequeuePosition
  | .moveOut n => n = r.box.dequeuePosition ∧
      ∃ p v, r.reserved[n]? = some (p, v) ∧ r.box.slot n = ⟨n + 1, some v⟩
  | .release n x => n = r.box.dequeuePosition ∧
      ∃ p v, r.reserved[n]? = some (p, v) ∧ x = some v ∧ r.box.slot n = ⟨n + 1, none⟩
  | .advance n x => n = r.box.dequeuePosition ∧ ∃ p v, r.reserved[n]? = some (p, v) ∧ x = some v
  | .loadPosition | .returned _ => True

structure Inv (r : Ring P α cap) (producer : P → Option (Emplace α)) (consumer : Option (Pop α)) :
    Prop where
  length_reserved : r.reserved.length = r.box.enqueuePosition
  popped_eq : r.popped = (r.reserved.take r.box.dequeuePosition).map fun x => some x.2
  /-- The released positions were reserved. -/
  behind : r.released consumer ≤ r.box.enqueuePosition
  /-- At most `Capacity` positions are reserved and not released. -/
  room : r.box.enqueuePosition ≤ r.released consumer + cap.val
  free : ∀ n, r.box.enqueuePosition ≤ n → n < r.released consumer + cap.val →
    r.box.slot n = ⟨n, none⟩
  live : ∀ n p v, r.released consumer ≤ n → r.reserved[n]? = some (p, v) →
    r.Live producer consumer n p v
  emplace : ∀ p e, producer p = some e → r.EmplaceOk consumer p e
  pop : ∀ c, consumer = some c → r.PopOk c

variable {r : Ring P α cap} {producer : P → Option (Emplace α)} {consumer : Option (Pop α)}

/-- A slot that is left alone stays live while its owner and the consumer keep what they hold of it. -/
theorem Live.transfer {r' : Ring P α cap} {producer' : P → Option (Emplace α)} {consumer' : Option (Pop α)} {n : Nat}
    {p : P} {v : α} (h : r.Live producer consumer n p v) (hslot : r'.box.slot n = r.box.slot n)
    (hp : producer p = some (.construct v n) ∨ producer p = some (.publish n) → producer' p = producer p)
    (hc : consumer = some (.release n (some v)) → consumer' = consumer) : r'.Live producer' consumer' n p v := by
  cases h with
  | reserved hs hq => exact .reserved (hslot.trans hs) ((hp (.inl hq)).trans hq)
  | constructed hs hq => exact .constructed (hslot.trans hs) ((hp (.inr hq)).trans hq)
  | published hs => exact .published (hslot.trans hs)
  | taken hs hcons => exact .taken (hslot.trans hs) ((hc hcons).trans hcons)

theorem inv_new : (new : Ring P α cap).Inv (fun _ => none) none where
  length_reserved := rfl
  popped_eq := rfl
  behind := Nat.le_refl _
  room := Nat.zero_le _
  free n _ hn := by
    have hn : n < cap.val := by simpa [new, released, Mailbox.new] using hn
    simp [new, Mailbox.new, Mailbox.slot, Capacity.index, Capacity.and_mask, Nat.mod_eq_of_lt hn]
  live n p v _ h := by simp [new] at h
  emplace p e h := by cases h
  pop c h := by cases h

namespace Inv

theorem lt_of_reserved (h : r.Inv producer consumer) {n : Nat} {x : P × α}
    (hn : r.reserved[n]? = some x) : n < r.box.enqueuePosition := by
  rw [← h.length_reserved]; exact (List.getElem?_eq_some_iff.1 hn).1

theorem reserved_of_lt (h : r.Inv producer consumer) {n : Nat} (hn : n < r.box.enqueuePosition) :
    ∃ p v, r.reserved[n]? = some (p, v) := by
  rw [← h.length_reserved] at hn
  exact ⟨_, _, List.getElem?_eq_getElem hn⟩

/-! ### Reading a sequence -/

/-- The sequence of a window position is the position, or the position plus one if it is reserved. -/
theorem sequence_of_window (h : r.Inv producer consumer) {n : Nat} (hn : r.released consumer ≤ n)
    (hn' : n < r.released consumer + cap.val) :
    (r.box.slot n).sequence = n ∨
      (r.box.slot n).sequence = n + 1 ∧ n < r.box.enqueuePosition := by
  by_cases hlt : n < r.box.enqueuePosition
  · obtain ⟨p, v, hres⟩ := h.reserved_of_lt hlt
    cases h.live n p v hn hres with
    | reserved hs _ => rw [hs]; exact .inl rfl
    | constructed hs _ => rw [hs]; exact .inl rfl
    | published hs => rw [hs]; exact .inr ⟨rfl, hlt⟩
    | taken hs _ => rw [hs]; exact .inr ⟨rfl, hlt⟩
  · rw [h.free n (Nat.le_of_not_lt hlt) hn']; exact .inl rfl

/-- The slot of an already released position is on to a later generation. -/
theorem lt_sequence_of_released (h : r.Inv producer consumer) {n : Nat}
    (hn : n < r.released consumer) : n < (r.box.slot n).sequence := by
  obtain ⟨n', hidx, hle, hlt⟩ := cap.exists_window (r.released consumer) n
  have hslot : r.box.slot n = r.box.slot n' := by simp [Mailbox.slot, hidx]
  rw [hslot]
  rcases h.sequence_of_window hle hlt with hs | ⟨hs, -⟩ <;> omega

/-- A zero difference means that the position is not beyond the window: the wrap of the oldest
unreleased slot cannot be mistaken for a free one because the capacity is at least two. -/
theorem lt_of_sequence_eq (h : r.Inv producer consumer) {n : Nat}
    (hn : n ≤ r.box.enqueuePosition) (hs : (r.box.slot n).sequence = n) :
    n < r.released consumer + cap.val := by
  by_contra hge
  have heq : n = r.released consumer + cap.val := by have := h.room; omega
  have hslot : r.box.slot n = r.box.slot (r.released consumer) := by
    rw [heq]; simp [Mailbox.slot, Capacity.index_add]
  have h2 := cap.two_le
  rw [hslot] at hs
  rcases h.sequence_of_window (Nat.le_refl _) (by omega) with hs' | ⟨hs', -⟩ <;> omega

/-- A negative difference means that the ring is full: exactly `Capacity` positions are reserved
and not released. -/
theorem full_of_sequence_lt (h : r.Inv producer consumer) {n : Nat}
    (hn : n ≤ r.box.enqueuePosition) (hs : (r.box.slot n).sequence < n) :
    r.box.enqueuePosition = r.released consumer + cap.val := by
  by_contra hne
  have hroom := h.room
  by_cases hle : r.released consumer ≤ n
  · rcases h.sequence_of_window hle (by omega) with hs' | ⟨hs', -⟩ <;> omega
  · have := h.lt_sequence_of_released (Nat.lt_of_not_le hle)
    omega

/-! ### Producer steps -/

section Producer
variable [DecidableEq P] {p : P}

/-- Moving a producer that owns no unpublished position changes nothing else. -/
theorem setProducer (h : r.Inv producer consumer) (x : Option (Emplace α))
    (hc : ∀ v n, producer p ≠ some (.construct v n)) (hp : ∀ n, producer p ≠ some (.publish n))
    (hok : ∀ e, x = some e → r.EmplaceOk consumer p e) :
    r.Inv (Function.update producer p x) consumer := by
  refine ⟨h.length_reserved, h.popped_eq, h.behind, h.room, h.free, fun n q v hn hres => ?_,
    fun q e he => ?_, h.pop⟩
  · refine (h.live n q v hn hres).transfer rfl (fun hq => Function.update_of_ne ?_ ..) fun _ => rfl
    rintro rfl
    exact hq.elim (hc v n) (hp n)
  · by_cases hq : q = p
    · subst hq; rw [Function.update_self] at he; exact hok e he
    · rw [Function.update_of_ne hq] at he; exact h.emplace q e he

/-- A successful compare-exchange reserves the first free position. -/
theorem reserve {v : α} {n : Nat} (h : r.Inv producer consumer)
    (he : producer p = some (.compareExchange v n)) (hn : r.box.enqueuePosition = n) :
    Inv ⟨{ r.box with enqueuePosition := n + 1 }, r.reserved ++ [(p, v)], r.popped⟩
      (Function.update producer p (some (.construct v n))) consumer := by
  have hlt : n < r.released consumer + cap.val := (h.emplace p _ he).2
  have hlen : r.reserved.length = n := h.length_reserved.trans hn
  have hbehind := h.behind
  have hslot : r.box.slot n = ⟨n, none⟩ := h.free n (Nat.le_of_eq hn) hlt
  have hold : ∀ {m : Nat} {x : P × α}, r.reserved[m]? = some x →
      (r.reserved ++ [(p, v)])[m]? = some x := fun hx =>
    (List.getElem?_append_left (List.getElem?_eq_some_iff.1 hx).1).trans hx
  have hnew : (r.reserved ++ [(p, v)])[n]? = some (p, v) := by simp [← hlen]
  have hdeq : r.box.dequeuePosition ≤ r.reserved.length := by
    have : r.box.dequeuePosition ≤ r.released consumer := by unfold released; split <;> omega
    omega
  refine ⟨?_, ?_, ?_, ?_, ?_, ?_, ?_, ?_⟩
  · show (r.reserved ++ [(p, v)]).length = n + 1
    simp [hlen]
  · show r.popped = ((r.reserved ++ [(p, v)]).take r.box.dequeuePosition).map _
    rw [List.take_append_of_le_length hdeq]; exact h.popped_eq
  · show r.released consumer ≤ n + 1
    omega
  · show n + 1 ≤ r.released consumer + cap.val
    omega
  · intro m (hm : n + 1 ≤ m) (hm' : m < r.released consumer + cap.val)
    exact h.free m (by omega) hm'
  · intro m q w (hm : r.released consumer ≤ m) hres
    rcases Nat.lt_trichotomy m n with hmn | rfl | hmn
    · have hres' : r.reserved[m]? = some (q, w) := by
        rwa [List.getElem?_append_left (by omega)] at hres
      refine (h.live m q w hm hres').transfer rfl (fun hq => Function.update_of_ne ?_ ..) fun _ => rfl
      rintro rfl
      rw [he] at hq
      rcases hq with hq | hq <;> cases hq
    · obtain ⟨rfl, rfl⟩ : p = q ∧ v = w := by simpa [hnew] using hres
      exact .reserved hslot (Function.update_self ..)
    · have := (List.getElem?_eq_some_iff.1 hres).1
      simp [hlen] at this; omega
  · intro q e hq
    by_cases hqp : q = p
    · subst hqp
      rw [Function.update_self] at hq
      obtain rfl := Option.some.inj hq
      exact ⟨hn ▸ hbehind, hnew, hslot⟩
    · rw [Function.update_of_ne hqp] at hq
      have hok := h.emplace q e hq
      cases e with
      | loadSequence w m => exact Nat.le_succ_of_le (hn ▸ hok)
      | compareExchange w m => exact ⟨Nat.le_succ_of_le (hn ▸ hok.1), hok.2⟩
      | construct w m => exact ⟨hok.1, hold hok.2.1, hok.2.2⟩
      | publish m =>
        obtain ⟨hm, w, hw, hs⟩ := hok
        exact ⟨hm, w, hold hw, hs⟩
      | loadPosition w => trivial
      | returned b => trivial
  · intro c hc
    have hok := h.pop c hc
    cases c with
    | loadSequence m => exact hok
    | moveOut m => obtain ⟨hm, q, w, hw, hs⟩ := hok; exact ⟨hm, q, w, hold hw, hs⟩
    | release m x => obtain ⟨hm, q, w, hw, hs⟩ := hok; exact ⟨hm, q, w, hold hw, hs⟩
    | advance m x => obtain ⟨hm, q, w, hw, hs⟩ := hok; exact ⟨hm, q, w, hold hw, hs⟩
    | loadPosition => trivial
    | returned x => trivial

/-- Writing the slot of a position that its owner `p` has not published yet (constructing the value,
publishing it) touches no other position of the window. -/
theorem touch {v : α} {n : Nat} {x : Slot α} {e : Emplace α} (h : r.Inv producer consumer)
    (hp : producer p = some (.construct v n) ∨ producer p = some (.publish n))
    (hn : r.released consumer ≤ n) (hres : r.reserved[n]? = some (p, v))
    (hseq : (r.box.slot n).sequence = n)
    (hlive : Live { r with box := r.box.setSlot n x } (Function.update producer p (some e))
      consumer n p v)
    (hok : EmplaceOk { r with box := r.box.setSlot n x } consumer p e) :
    Inv { r with box := r.box.setSlot n x } (Function.update producer p (some e)) consumer := by
  have hlt := h.lt_of_reserved hres
  have hroom := h.room
  have hother : ∀ m, r.released consumer ≤ m → m < r.released consumer + cap.val → m ≠ n →
      (r.box.setSlot n x).slot m = r.box.slot m := fun m hm hm' hne =>
    r.box.slot_setSlot_ne x fun hidx => hne (Capacity.index_inj hm hm' hn (by omega) hidx)
  refine ⟨h.length_reserved, h.popped_eq, h.behind, h.room, fun m hm hm' => ?_,
    fun m q w hm hw => ?_, fun q e' hq => ?_, fun c hc => ?_⟩
  · have hm : r.box.enqueuePosition ≤ m := hm
    exact (hother m (Nat.le_trans h.behind hm) hm' (by omega)).trans (h.free m hm hm')
  · by_cases hmn : m = n
    · subst hmn
      obtain ⟨rfl, rfl⟩ : p = q ∧ v = w := by simpa [hres] using hw
      exact hlive
    have hmlt : m < r.box.enqueuePosition := h.lt_of_reserved hw
    have hm : r.released consumer ≤ m := hm
    have hs := hother m hm (by omega) hmn
    refine (h.live m q w hm hw).transfer hs (fun hq => Function.update_of_ne ?_ ..) fun _ => rfl
    -- the owner of another position is another producer
    rintro rfl
    rcases hq with hq | hq <;> rw [hq] at hp <;> rcases hp with hp | hp <;> cases hp <;> exact hmn rfl
  · by_cases hqp : q = p
    · subst hqp
      rw [Function.update_self] at hq
      exact Option.some.inj hq ▸ hok
    · rw [Function.update_of_ne hqp] at hq
      have hok' := h.emplace q e' hq
      -- two owners never hold the same position
      have hne : ∀ {m : Nat} {w : α}, r.reserved[m]? = some (q, w) → m ≠ n := by
        rintro m w hw rfl
        rw [hres] at hw
        exact hqp (congrArg Prod.fst (Option.some.inj hw)).symm
      cases e' with
      | loadSequence w m => exact hok'
      | compareExchange w m => exact hok'
      | construct w m =>
        obtain ⟨hm, hw, hs⟩ := hok'
        have hmlt := h.lt_of_reserved hw
        exact ⟨hm, hw, (hother m hm (by omega) (hne hw)).trans hs⟩
      | publish m =>
        obtain ⟨hm, w, hw, hs⟩ := hok'
        have hmlt := h.lt_of_reserved hw
        exact ⟨hm, w, hw, (hother m hm (by omega) (hne hw)).trans hs⟩
      | loadPosition w => trivial
      | returned b => trivial
  · have hok' := h.pop c hc
    subst hc
    -- the head is published, position `n` is not
    have hhead : ∀ {y : Option α}, r.released (some c) = r.box.dequeuePosition →
        r.box.slot r.box.dequeuePosition = ⟨r.box.dequeuePosition + 1, y⟩ →
        (r.box.setSlot n x).slot r.box.dequeuePosition = ⟨r.box.dequeuePosition + 1, y⟩ := by
      intro y hrel hs
      have hcap := cap.pos
      refine (hother _ (Nat.le_of_eq hrel) (by omega) ?_).trans hs
      rintro rfl
      rw [hs] at hseq
      exact absurd hseq (Nat.succ_ne_self _)
    cases c with
    | loadSequence m => exact hok'
    | moveOut m =>
      obtain ⟨rfl, q, w, hw, hs⟩ := hok'
      exact ⟨rfl, q, w, hw, hhead rfl hs⟩
    | release m y =>
      obtain ⟨rfl, q, w, hw, hy, hs⟩ := hok'
      exact ⟨rfl, q, w, hw, hy, hhead rfl hs⟩
    | advance m y => exact hok'
    | loadPosition => trivial
    | returned y => trivial

/-- Every atomic step of `TryEmplace` keeps the invariant. -/
theorem emplaceStep (h : r.Inv producer consumer) (spurious : Bool) {e : Emplace α}
    (he : producer p = some e) :
    (r.emplace p spurious e).1.Inv
      (Function.update producer p (some (r.emplace p spurious e).2)) consumer := by
  have hok := h.emplace p e he
  cases e with
  | loadPosition v =>
    refine h.setProducer _ (by simp [he]) (by simp [he]) fun e hx => ?_
    obtain rfl := Option.some.inj hx
    exact Nat.le_refl _
  | loadSequence v n =>
    have hmove : ∀ e, r.EmplaceOk consumer p e →
        r.Inv (Function.update producer p (some e)) consumer := fun e hok' =>
      h.setProducer _ (by simp [he]) (by simp [he]) fun e' hx => Option.some.inj hx ▸ hok'
    simp only [Ring.emplace, Emplace.step]
    split_ifs with hz hneg
    · exact hmove _ ⟨hok, h.lt_of_sequence_eq hok (by omega)⟩
    · exact hmove _ trivial
    · exact hmove _ trivial
  | compareExchange v n =>
    by_cases hcas : r.box.enqueuePosition = n ∧ spurious = false
    · simpa [Ring.emplace, Emplace.step, hcas] using h.reserve he hcas.1
    · have hstep : r.emplace p spurious (.compareExchange v n) =
          (r, .loadSequence v r.box.enqueuePosition) := by
        simp [Ring.emplace, Emplace.step, hcas]
      rw [hstep]
      refine h.setProducer _ (by simp [he]) (by simp [he]) fun e hx => ?_
      obtain rfl := Option.some.inj hx
      exact Nat.le_refl _
  | construct v n =>
    obtain ⟨hn, hres, hs⟩ := hok
    refine h.touch (.inl he) hn hres (by rw [hs]) (.constructed ?_ (Function.update_self ..))
      ⟨hn, v, hres, ?_⟩ <;>
    · rw [Mailbox.slot_setSlot_self, hs]
  | publish n =>
    obtain ⟨hn, v, hres, hs⟩ := hok
    refine h.touch (.inr he) hn hres (by rw [hs]) (.published ?_) trivial
    rw [Mailbox.slot_setSlot_self, hs]
  | returned b =>
    refine h.setProducer _ (by simp [he]) (by simp [he]) fun e hx => ?_
    obtain rfl := Option.some.inj hx
    trivial

end Producer

/-! ### Consumer steps -/

/-- Moving the consumer between places where it holds no value changes nothing else. -/
theorem setConsumer (h : r.Inv producer consumer) {c : Option (Pop α)}
    (hrel : r.released c = r.released consumer) (hnot : ∀ n x, consumer ≠ some (.release n x))
    (hok : ∀ c', c = some c' → r.PopOk c') : r.Inv producer c := by
  refine ⟨h.length_reserved, h.popped_eq, hrel ▸ h.behind, hrel ▸ h.room, ?_, ?_, ?_, hok⟩
  · rw [hrel]; exact h.free
  · intro n p v hn hres
    exact (h.live n p v (hrel ▸ hn) hres).transfer rfl (fun _ => rfl) fun hcons => absurd hcons (hnot _ _)
  · intro p e he
    have hok := h.emplace p e he
    cases e <;> simp only [EmplaceOk, hrel] at hok ⊢ <;> exact hok

/-- Moving the value of the head position out of its slot. -/
theorem moveOut {n : Nat} (h : r.Inv producer (some (.moveOut n))) :
    Inv { r with box := r.box.setSlot n { r.box.slot n with storage := none } } producer
      (some (.release n (r.box.slot n).storage)) := by
  obtain ⟨rfl, p, v, hres, hs⟩ := h.pop _ rfl
  have hroom := h.room
  have hlt := h.lt_of_reserved hres
  have hcap := cap.pos
  simp only [released] at hroom
  set n := r.box.dequeuePosition
  have hother : ∀ m, n ≤ m → m < n + cap.val → m ≠ n →
      (r.box.setSlot n { r.box.slot n with storage := none }).slot m = r.box.slot m :=
    fun m hm hm' hne => r.box.slot_setSlot_ne _ fun hidx =>
      hne (Capacity.index_inj hm hm' (Nat.le_refl n) (by omega) hidx)
  refine ⟨h.length_reserved, h.popped_eq, h.behind, h.room, fun m hm hm' => ?_,
    fun m q w hm hw => ?_, fun q e he => ?_, fun c hc => ?_⟩
  · have hm : r.box.enqueuePosition ≤ m := hm
    exact (hother m (by omega) hm' (by omega)).trans (h.free m hm hm')
  · have hm : n ≤ m := hm
    by_cases hmn : m = n
    · subst hmn
      obtain ⟨rfl, rfl⟩ : p = q ∧ v = w := by simpa [hres] using hw
      refine .taken ?_ (by rw [hs])
      rw [Mailbox.slot_setSlot_self, hs]
    have hmlt : m < r.box.enqueuePosition := h.lt_of_reserved hw
    have hs' := hother m hm (by omega) hmn
    exact (h.live m q w hm hw).transfer hs' (fun _ => rfl) fun hcons => by cases hcons
  · have hok := h.emplace q e he
    have hne : ∀ {m : Nat} {y : Option α}, r.box.slot m = ⟨m, y⟩ → m ≠ n := by
      rintro m y hm rfl
      rw [hm] at hs
      exact absurd (congrArg Slot.sequence hs) (Nat.succ_ne_self _).symm
    cases e with
    | loadSequence w m => exact hok
    | compareExchange w m => exact hok
    | construct w m =>
      obtain ⟨hm, hw, hs'⟩ := hok
      have hmlt := h.lt_of_reserved hw
      exact ⟨hm, hw, (hother m hm (by omega) (hne hs')).trans hs'⟩
    | publish m =>
      obtain ⟨hm, w, hw, hs'⟩ := hok
      have hmlt := h.lt_of_reserved hw
      exact ⟨hm, w, hw, (hother m hm (by omega) (hne hs')).trans hs'⟩
    | loadPosition w => trivial
    | returned b => trivial
  · obtain rfl := Option.some.inj hc
    exact ⟨rfl, p, v, hres, by rw [hs], by rw [Mailbox.slot_setSlot_self, hs]⟩

/-- Storing the sequence of the next generation releases the head position: its slot becomes the
free slot at the end of the window. -/
theorem release {n : Nat} {x : Option α} (h : r.Inv producer (some (.release n x))) :
    Inv { r with box := r.box.setSlot n { r.box.slot n with sequence := n + cap.val } } producer
      (some (.advance n x)) := by
  obtain ⟨rfl, p, v, hres, hx, hs⟩ := h.pop _ rfl
  have hroom := h.room
  have hlt := h.lt_of_reserved hres
  simp only [released] at hroom
  set n := r.box.dequeuePosition with hn
  have hcap := cap.pos
  have hother : ∀ m, n ≤ m → m < n + cap.val → m ≠ n →
      (r.box.setSlot n { r.box.slot n with sequence := n + cap.val }).slot m = r.box.slot m :=
    fun m hm hm' hne => r.box.slot_setSlot_ne _ fun hidx =>
      hne (Capacity.index_inj hm hm' (Nat.le_refl n) (by omega) hidx)
  have hne : ∀ {m : Nat} {y : Option α}, r.box.slot m = ⟨m, y⟩ → m ≠ n := by
    rintro m y hm rfl
    rw [hm] at hs
    exact absurd (congrArg Slot.sequence hs) (Nat.succ_ne_self _).symm
  refine ⟨h.length_reserved, h.popped_eq, hlt, ?_, fun m hm hm' => ?_,
    fun m q w hm hw => ?_, fun q e he => ?_, fun c hc => ?_⟩
  · show r.box.enqueuePosition ≤ n + 1 + cap.val
    omega
  · have hm : r.box.enqueuePosition ≤ m := hm
    have hm' : m < n + 1 + cap.val := hm'
    by_cases hlast : m = n + cap.val
    · have hslot : ∀ y : Slot α, (r.box.setSlot n y).slot m = y := fun y => by
        simp [hlast, Mailbox.slot, Mailbox.setSlot, Capacity.index_add]
      show (r.box.setSlot n _).slot m = _
      rw [hslot, hs, hlast]
    · exact (hother m (by omega) (by omega) (by omega)).trans
        (h.free m hm (by show m < n + cap.val; omega))
  · have hm : n + 1 ≤ m := hm
    have hmlt : m < r.box.enqueuePosition := h.lt_of_reserved hw
    have hs' := hother m (by omega) (by omega) (by omega)
    refine (h.live m q w (by show n ≤ m; omega) hw).transfer hs' (fun _ => rfl) fun hcons => ?_
    have : n = m := by cases hcons; rfl
    omega
  · have hok := h.emplace q e he
    cases e with
    | loadSequence w m => exact hok
    | compareExchange w m =>
      obtain ⟨hm, hm'⟩ := hok
      have hm' : m < n + cap.val := hm'
      exact ⟨hm, by show m < n + 1 + cap.val; omega⟩
    | construct w m =>
      obtain ⟨hm, hw, hs'⟩ := hok
      have hm : n ≤ m := hm
      have hmlt := h.lt_of_reserved hw
      have hmn := hne hs'
      exact ⟨by show n + 1 ≤ m; omega, hw, (hother m hm (by omega) hmn).trans hs'⟩
    | publish m =>
      obtain ⟨hm, w, hw, hs'⟩ := hok
      have hm : n ≤ m := hm
      have hmlt := h.lt_of_reserved hw
      have hmn := hne hs'
      exact ⟨by show n + 1 ≤ m; omega, w, hw, (hother m hm (by omega) hmn).trans hs'⟩
    | loadPosition w => trivial
    | returned b => trivial
  · obtain rfl := Option.some.inj hc
    exact ⟨rfl, p, v, hres, hx⟩

/-- Advancing `dequeue_position_` past the released head ends the window. -/
theorem advance {n : Nat} {x : Option α} (h : r.Inv producer (some (.advance n x))) :
    Inv ⟨{ r.box with dequeuePosition := n + 1 }, r.reserved, r.popped ++ [x]⟩ producer
      (some (.returned x)) := by
  obtain ⟨rfl, p, v, hres, hx⟩ := h.pop _ rfl
  refine ⟨h.length_reserved, ?_, h.behind, h.room, h.free, fun m q w hm hw => ?_,
    fun q e he => ?_, fun c hc => ?_⟩
  · show r.popped ++ [x] = (r.reserved.take (r.box.dequeuePosition + 1)).map _
    rw [List.take_add_one, hres, List.map_append, ← h.popped_eq, hx]
    rfl
  · exact (h.live m q w hm hw).transfer rfl (fun _ => rfl) fun hcons => by cases hcons
  · have hok := h.emplace q e he
    cases e <;> exact hok
  · obtain rfl := Option.some.inj hc
    trivial

/-- Every atomic step of `TryPop` keeps the invariant. -/
theorem popStep {c : Pop α} (h : r.Inv producer (some c)) :
    (r.pop c).1.Inv producer (some (r.pop c).2) := by
  cases c with
  | loadPosition =>
    refine h.setConsumer rfl (by simp) fun c hc => ?_
    obtain rfl := Option.some.inj hc
    exact rfl
  | loadSequence n =>
    obtain rfl : n = r.box.dequeuePosition := h.pop _ rfl
    simp only [Ring.pop, Pop.step]
    split_ifs with hd
    · exact h.setConsumer rfl (by simp) fun c hc => by obtain rfl := Option.some.inj hc; trivial
    · refine h.setConsumer rfl (by simp) fun c hc => ?_
      obtain rfl := Option.some.inj hc
      have hcap := cap.pos
      have hseq : (r.box.slot r.box.dequeuePosition).sequence = r.box.dequeuePosition + 1 := by
        omega
      -- a sequence of `n + 1` at the head means that it is published
      rcases h.sequence_of_window (Nat.le_refl _) (by simp only [released]; omega) with hs | ⟨-, hlt⟩
      · simp only [released] at hs; omega
      · obtain ⟨p, v, hres⟩ := h.reserved_of_lt hlt
        simp only [released] at hres
        refine ⟨rfl, p, v, hres, ?_⟩
        cases h.live r.box.dequeuePosition p v (Nat.le_refl _) hres with
        | reserved hs _ => rw [hs] at hseq; exact absurd hseq (Nat.succ_ne_self _).symm
        | constructed hs _ => rw [hs] at hseq; exact absurd hseq (Nat.succ_ne_self _).symm
        | published hs => exact hs
        | taken _ hcons => cases hcons
  | moveOut n => exact h.moveOut
  | release n x => exact h.release
  | advance n x => exact h.advance
  | returned x => exact h

end Inv
end Ring
end IdtxCore
