import Mathlib.Data.List.Basic
import Mathlib.Tactic.Ring

/-!
# Rasters

A raster keeps the pixels of a picture row by row in a buffer. `sweep` writes a rectangle of pixels, row after row;
what is painted later covers what was painted earlier (`get_sweep`, `get_foldl_sweep`).
-/

namespace Raster

universe u v

/-- A buffer that is read and written by indices below its size. -/
structure Store (B : Type u) (α : Type v) where
  size : B → Nat
  get : B → Nat → α
  set : B → Nat → α → B
  size_set : ∀ b i a, size (set b i a) = size b
  get_set : ∀ b i j a, i < size b → get (set b i a) j = if j = i then a else get b j

/-- The columns from `x0` to `x1` and the rows from `y0` to `y1`, the ends not included. -/
structure Box where
  x0 : Nat
  x1 : Nat
  y0 : Nat
  y1 : Nat

namespace Box

def Covers (r : Box) (x y : Nat) : Prop := (r.x0 ≤ x ∧ x < r.x1) ∧ r.y0 ≤ y ∧ y < r.y1

instance (r : Box) (x y : Nat) : Decidable (r.Covers x y) := inferInstanceAs (Decidable (_ ∧ _))

def Inside (r : Box) (w h : Nat) : Prop := r.x1 ≤ w ∧ r.y1 ≤ h

end Box

variable {B : Type u} {α : Type v} (M : Store B α)

def row (w y x0 x1 : Nat) (color : Nat → α) (b : B) : B :=
  (List.range' x0 (x1 - x0)).foldl (fun b x => M.set b (y * w + x) (color x)) b

def sweep (w : Nat) (r : Box) (color : Nat → Nat → α) (b : B) : B :=
  (List.range' r.y0 (r.y1 - r.y0)).foldl (fun b y => row M w y r.x0 r.x1 (fun x => color x y) b) b

variable {M} {w h x y x' y' x0 x1 : Nat} {b : B} {r : Box} {color : Nat → Nat → α}

theorem index_lt (hx : x < w) (hy : y < h) : y * w + x < w * h := by
  calc y * w + x < y * w + w := Nat.add_lt_add_left hx _
    _ = w * (y + 1) := by ring
    _ ≤ w * h := Nat.mul_le_mul_left w hy

theorem index_inj (hx : x < w) (hx' : x' < w) : y * w + x = y' * w + x' ↔ x = x' ∧ y = y' := by
  constructor
  · intro heq
    have hpos : 0 < w := Nat.zero_lt_of_lt hx
    have hmod := congrArg (· % w) heq
    have hdiv := congrArg (· / w) heq
    simp only [Nat.mul_comm _ w, Nat.mul_add_mod, Nat.mod_eq_of_lt hx, Nat.mod_eq_of_lt hx'] at hmod
    simp only [Nat.mul_comm _ w, Nat.mul_add_div hpos, Nat.div_eq_of_lt hx, Nat.div_eq_of_lt hx', add_zero] at hdiv
    exact ⟨hmod, hdiv⟩
  · rintro ⟨rfl, rfl⟩
    rfl

theorem foldl_set (indices : List Nat) (f : Nat → Nat) (a : Nat → α) (b : B) :
    M.size (indices.foldl (fun b i => M.set b (f i) (a i)) b) = M.size b := by
  induction indices generalizing b with
  | nil => rfl
  | cons i indices ih => rw [List.foldl_cons, ih, M.size_set]

theorem size_row (w y x0 x1 : Nat) (color : Nat → α) (b : B) : M.size (row M w y x0 x1 color b) = M.size b :=
  foldl_set ..

theorem size_sweep (w : Nat) (r : Box) (color : Nat → Nat → α) (b : B) :
    M.size (sweep M w r color b) = M.size b := by
  unfold sweep
  induction List.range' r.y0 (r.y1 - r.y0) generalizing b with
  | nil => rfl
  | cons y rows ih => rw [List.foldl_cons, ih, size_row]

/-- One row, from its first `n` pixels on; a pixel is written once. -/
theorem get_row {color : Nat → α} (hb : M.size b = w * h) (hx1 : x1 ≤ w) (hy : y < h) (hx' : x' < w) :
    M.get (row M w y x0 x1 color b) (y' * w + x') =
      if y' = y ∧ x0 ≤ x' ∧ x' < x1 then color x' else M.get b (y' * w + x') := by
  have hrow : ∀ n, x0 + n ≤ w → M.get ((List.range' x0 n).foldl (fun b x => M.set b (y * w + x) (color x)) b)
      (y' * w + x') = if y' = y ∧ x0 ≤ x' ∧ x' < x0 + n then color x' else M.get b (y' * w + x') := by
    intro n
    induction n with
    | zero =>
      intro _
      rw [if_neg (by omega)]
      rfl
    | succ n ih =>
      intro hn
      have hlt : x0 + n < w := hn
      rw [List.range'_concat, List.foldl_append, List.foldl_cons, List.foldl_nil, one_mul,
        M.get_set _ _ _ _ (by rw [foldl_set, hb]; exact index_lt hlt hy), ih (Nat.le_of_succ_le hn)]
      by_cases heq : x' = x0 + n ∧ y' = y
      · rw [if_pos ((index_inj hx' hlt).2 heq), if_pos (by omega), heq.1]
      · rw [if_neg fun hidx => heq ((index_inj hx' hlt).1 hidx)]
        exact if_congr (by omega) rfl rfl
  rcases Nat.le_total x0 x1 with hle | hle
  · have hn := hrow (x1 - x0) (by omega)
    rwa [show x0 + (x1 - x0) = x1 by omega] at hn
  · rw [row, Nat.sub_eq_zero_of_le hle, List.range'_zero, List.foldl_nil, if_neg (by omega)]

/-- A pixel below the box is the box's, the others are as before. -/
theorem get_sweep (hb : M.size b = w * h) (hr : r.Inside w h) (hx : x < w) :
    M.get (sweep M w r color b) (y * w + x) = if r.Covers x y then color x y else M.get b (y * w + x) := by
  have hrows : ∀ m, r.y0 + m ≤ h →
      M.size ((List.range' r.y0 m).foldl (fun b y => row M w y r.x0 r.x1 (fun x => color x y) b) b) = w * h ∧
      M.get ((List.range' r.y0 m).foldl (fun b y => row M w y r.x0 r.x1 (fun x => color x y) b) b) (y * w + x) =
        if (r.x0 ≤ x ∧ x < r.x1) ∧ r.y0 ≤ y ∧ y < r.y0 + m then color x y else M.get b (y * w + x) := by
    intro m
    induction m with
    | zero =>
      intro _
      rw [if_neg (by omega)]
      exact ⟨hb, rfl⟩
    | succ m ih =>
      intro hm
      obtain ⟨hsize, hget⟩ := ih (Nat.le_of_succ_le hm)
      have hlt : r.y0 + m < h := hm
      rw [List.range'_concat, List.foldl_append, List.foldl_cons, List.foldl_nil, one_mul]
      refine ⟨(size_row ..).trans hsize, ?_⟩
      rw [get_row hsize hr.1 hlt hx, hget]
      by_cases hy : y = r.y0 + m
      · subst hy
        by_cases hcol : r.x0 ≤ x ∧ x < r.x1
        · rw [if_pos ⟨rfl, hcol⟩, if_pos (by omega)]
        · rw [if_neg (by tauto), if_neg (by tauto), if_neg (by tauto)]
      · rw [if_neg (by tauto)]
        exact if_congr (by omega) rfl rfl
  rcases Nat.le_total r.y0 r.y1 with hle | hle
  · have hm := (hrows (r.y1 - r.y0) (by have := hr.2; omega)).2
    rw [show r.y0 + (r.y1 - r.y0) = r.y1 by omega] at hm
    exact hm
  · unfold sweep
    rw [Nat.sub_eq_zero_of_le hle, List.range'_zero, List.foldl_nil, if_neg (by unfold Box.Covers; omega)]

/-- Boxes of one colour. -/
theorem get_foldl_sweep {boxes : List Box} {a : α} (hb : M.size b = w * h) (hboxes : ∀ r ∈ boxes, r.Inside w h)
    (hx : x < w) : M.get (boxes.foldl (fun b r => sweep M w r (fun _ _ => a) b) b) (y * w + x) =
      if ∃ r ∈ boxes, r.Covers x y then a else M.get b (y * w + x) := by
  induction boxes generalizing b with
  | nil => rw [if_neg (by simp)]; rfl
  | cons r boxes ih =>
    obtain ⟨hr, hboxes⟩ := List.forall_mem_cons.1 hboxes
    rw [List.foldl_cons, ih ((size_sweep ..).trans hb) hboxes, get_sweep hb hr hx]
    by_cases hlater : ∃ r ∈ boxes, r.Covers x y
    · rw [if_pos hlater, if_pos (hlater.imp fun r h => ⟨List.mem_cons_of_mem _ h.1, h.2⟩)]
    · rw [if_neg hlater]
      exact if_congr (by simp [hlater]) rfl rfl

end Raster
