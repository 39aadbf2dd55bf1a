import IdtxCore.Lib.Raster
import IdtxCore.ThumbnailLayout

/-!
# The picture of a thumbnail

What `generate` paints, pixel by pixel: the second line of text over the first one, the text over the border, the
border over the gradient. `paint` is a sweep over the raster of the buffer, so the loops of `generate` give the
picture by the rules of `Raster`; the pixels they write are all in the buffer, whatever the layout.
-/

namespace IdtxCore.PlaceholderThumbnailGenerator
open FsPath MiniPng

/-! ### The buffer as a raster -/

def getPixel (rgb : List UInt8) (i : Nat) : Color :=
  ⟨rgb.getD (3 * i) 0, rgb.getD (3 * i + 1) 0, rgb.getD (3 * i + 2) 0⟩

theorem getPixel_setPixel {rgb : List UInt8} {i : Nat} (j : Nat) (c : Color) (hi : i < rgb.length / 3) :
    getPixel (setPixel rgb i c) j = if j = i then c else getPixel rgb j := by
  by_cases hj : j = i
  · subst hj
    have hlength : 3 * j + 2 < rgb.length := by omega
    rw [if_pos rfl]
    simp [getPixel, setPixel, hlength, Nat.lt_of_succ_lt hlength, Nat.lt_of_succ_lt (Nat.lt_of_succ_lt hlength)]
  · rw [if_neg hj]
    simp (disch := omega) [getPixel, setPixel, List.getElem?_set_ne]

def raster : Raster.Store (List UInt8) Color where
  size rgb := rgb.length / 3
  get := getPixel
  set := setPixel
  size_set rgb i c := by rw [length_setPixel]
  get_set _ _ j c hi := getPixel_setPixel j c hi

theorem paint_eq (rgb : List UInt8) (w x0 x1 y0 y1 : UInt32) (color : UInt32 → UInt32 → Color) :
    paint rgb w x0 x1 y0 y1 color = Raster.sweep raster w.toNat ⟨x0.toNat, x1.toNat, y0.toNat, y1.toNat⟩
      (fun x y => color (.ofNat x) (.ofNat y)) rgb := rfl

/-- The pixels that `fillRect` fills. -/
def Rect.box (w h : UInt32) (rect : Rect) : Raster.Box where
  x0 := rect.x.toNat
  x1 := (min w (rect.x + rect.width)).toNat
  y0 := rect.y.toNat
  y1 := (min h (rect.y + rect.height)).toNat

theorem toNat_min (a b : UInt32) : (min a b).toNat = min a.toNat b.toNat := by
  show (if a ≤ b then a else b).toNat = _
  split_ifs with hle
  · exact (Nat.min_eq_left (UInt32.le_iff_toNat_le.1 hle)).symm
  · exact (Nat.min_eq_right (Nat.le_of_not_le fun h => hle (UInt32.le_iff_toNat_le.2 h))).symm

theorem Rect.box_inside (w h : UInt32) (rect : Rect) : (rect.box w h).Inside w.toNat h.toNat := by
  constructor
  · rw [show (rect.box w h).x1 = _ from toNat_min ..]
    exact min_le_left ..
  · rw [show (rect.box w h).y1 = _ from toNat_min ..]
    exact min_le_left ..

/-! ### The picture -/

/-- One channel of the gradient. -/
def shade (tint : UInt8) (t maxAxis : Nat) : UInt8 :=
  .ofNat (tint.toNat / 6 + (tint.toNat - tint.toNat / 6) * t / maxAxis)

def gradientAt (size : Nat) (tint : Color) (x y : Nat) : Color :=
  ⟨shade tint.r (x + y) (2 * size), shade tint.g (x + y) (2 * size), shade tint.b (x + y) (2 * size)⟩

def OnBorder (size x y : Nat) : Prop :=
  let border := max 2 (size / 64)
  x < border ∨ y < border ∨ size ≤ x + border ∨ size ≤ y + border

instance (size x y : Nat) : Decidable (OnBorder size x y) := inferInstanceAs (Decidable (_ ∨ _))

/-- The pixel is in a cell of the line. -/
def InLine (size y0 scale : UInt32) (text : List Char) (x y : Nat) : Prop :=
  ∃ cell ∈ stringCells size y0 scale text, (cell.box size size).Covers x y

instance (size y0 scale : UInt32) (text : List Char) (x y : Nat) : Decidable (InLine size y0 scale text x y) :=
  inferInstanceAs (Decidable (∃ cell ∈ _, _))

def colorAt (size : UInt32) (usdFile : List Char) (opened : Except String (Option Layer)) (x y : Nat) : Color :=
  let stem := prepareLabel (stem usdFile) 16
  let label := prepareLabel (describeUsdFile opened) 16
  let l := layout size size stem label
  if InLine size l.y2 l.s2 label x y then ⟨220, 220, 220⟩
  else if InLine size l.y1 l.s1 stem x y then ⟨255, 255, 255⟩
  else if OnBorder size.toNat x y then ⟨20, 20, 20⟩
  else gradientAt size.toNat (hashToTint (fnv1aHash (filename usdFile))) x y

variable {size y0 scale : UInt32} {rgb : List UInt8} {x y : Nat}

theorem getPixel_drawStringCentered (hrgb : rgb.length / 3 = size.toNat * size.toNat) (text : List Char) (c : Color)
    (hx : x < size.toNat) : getPixel (drawStringCentered rgb size size y0 scale text c) (y * size.toNat + x) =
      if InLine size y0 scale text x y then c else getPixel rgb (y * size.toNat + x) := by
  have hboxes : ∀ r ∈ (stringCells size y0 scale text).map (Rect.box size size),
      r.Inside size.toNat size.toNat := by
    intro r hr
    obtain ⟨cell, -, rfl⟩ := List.mem_map.1 hr
    exact cell.box_inside size size
  have hget := Raster.get_foldl_sweep (M := raster) (a := c) (y := y) hrgb hboxes hx
  rw [List.foldl_map] at hget
  refine hget.trans (if_congr ?_ rfl rfl)
  simp [InLine]

theorem toInt_of_lt {a : UInt32} (h : a.toNat < 2 ^ 31) : a.toInt32.toInt = a.toNat :=
  BitVec.toInt_eq_toNat_of_lt (show 2 * a.toNat < 2 ^ 32 by omega)

/-- Between the dark corner and the tint nothing is clamped. -/
theorem gradient_eq (tint : UInt8) {t maxAxis : Nat} (ht : t ≤ maxAxis) :
    gradient tint t maxAxis = shade tint t maxAxis := by
  have htint : tint.toNat < 256 := tint.toNat_lt
  have hstep : (tint.toNat - tint.toNat / 6) * t / maxAxis ≤ tint.toNat - tint.toNat / 6 :=
    Nat.div_le_of_le_mul (by rw [Nat.mul_comm maxAxis]; exact Nat.mul_le_mul_left _ ht)
  have hcast : ((tint.toNat : Int) / 6 + (((tint.toNat : Int) - (tint.toNat : Int) / 6) * t).tdiv maxAxis) =
      ((tint.toNat / 6 + (tint.toNat - tint.toNat / 6) * t / maxAxis : Nat) : Int) := by
    have hsub : (tint.toNat : Int) - (tint.toNat : Int) / 6 = ((tint.toNat - tint.toNat / 6 : Nat) : Int) := by omega
    rw [hsub, ← Int.natCast_mul, ← Int.ofNat_tdiv]
    omega
  have hle : ((tint.toNat / 6 + (tint.toNat - tint.toNat / 6) * t / maxAxis : Nat) : Int) ≤ 255 := by omega
  unfold gradient shade
  dsimp only
  rw [hcast, min_eq_right hle, max_eq_right (Int.natCast_nonneg _), Int.toNat_natCast]

theorem getPixel_paintGradient (hrgb : rgb.length / 3 = size.toNat * size.toNat) (hsize : size.toNat ≤ 2 ^ 14)
    (tint : Color) (hx : x < size.toNat) (hy : y < size.toNat) :
    getPixel (paintGradient rgb size size tint) (y * size.toNat + x) = gradientAt size.toNat tint x y := by
  have hcovers : Raster.Box.Covers ⟨0, size.toNat, 0, size.toNat⟩ x y := ⟨⟨Nat.zero_le x, hx⟩, Nat.zero_le y, hy⟩
  have hinside : Raster.Box.Inside ⟨0, size.toNat, 0, size.toNat⟩ size.toNat size.toNat := ⟨le_rfl, le_rfl⟩
  have hsum : (size + size).toInt32.toInt = (2 * size.toNat : Nat) := by
    have htoNat : (size + size).toNat = 2 * size.toNat := by
      rw [toNat_add_of_lt (by omega)]
      omega
    rw [toInt_of_lt (by omega), htoNat]
  have hpoint : (UInt32.ofNat x + UInt32.ofNat y).toInt32.toInt = (x + y : Nat) := by
    have hxNat : (UInt32.ofNat x).toNat = x := UInt32.toNat_ofNat_of_lt' (show x < 2 ^ 32 by omega)
    have hyNat : (UInt32.ofNat y).toNat = y := UInt32.toNat_ofNat_of_lt' (show y < 2 ^ 32 by omega)
    have htoNat : (UInt32.ofNat x + UInt32.ofNat y).toNat = x + y := by
      rw [toNat_add_of_lt (by omega), hxNat, hyNat]
    rw [toInt_of_lt (by omega), htoNat]
  have hle : x + y ≤ 2 * size.toNat := by omega
  unfold paintGradient
  rw [paint_eq]
  refine (Raster.get_sweep (M := raster) hrgb hinside hx).trans ?_
  rw [if_pos hcovers]
  simp only [hsum, hpoint, gradient_eq _ hle]
  rfl

/-- The four sides. -/
def borderBoxes (size : UInt32) : List Raster.Box :=
  let border := max 2 (size / 64)
  [Rect.box size size ⟨0, 0, size, border⟩, Rect.box size size ⟨0, size - border, size, border⟩,
    Rect.box size size ⟨0, 0, border, size⟩, Rect.box size size ⟨size - border, 0, border, size⟩]

theorem exists_borderBoxes_iff (hx : x < size.toNat) (hy : y < size.toNat) :
    (∃ r ∈ borderBoxes size, r.Covers x y) ↔ OnBorder size.toNat x y := by
  have hborder : (max 2 (size / 64)).toNat = max 2 (size.toNat / 64) := by
    rw [toNat_max]
    simp
  have hsum : (size - max 2 (size / 64) + max 2 (size / 64)).toNat = size.toNat := by rw [UInt32.sub_add_cancel]
  simp only [borderBoxes, List.mem_cons, List.not_mem_nil, or_false, exists_eq_or_imp, exists_eq_left,
    Raster.Box.Covers, Rect.box, toNat_min, UInt32.zero_add, UInt32.toNat_zero, hsum, hborder, OnBorder]
  by_cases hone : size.toNat = 1
  · omega
  · have hsub : (size - max 2 (size / 64)).toNat = size.toNat - max 2 (size.toNat / 64) := by
      rw [toNat_sub_of_le (by omega), hborder]
    omega

theorem getPixel_paintBorder (hrgb : rgb.length / 3 = size.toNat * size.toNat) (hx : x < size.toNat)
    (hy : y < size.toNat) : getPixel (paintBorder rgb size size) (y * size.toNat + x) =
      if OnBorder size.toNat x y then ⟨20, 20, 20⟩ else getPixel rgb (y * size.toNat + x) := by
  have hboxes : ∀ r ∈ borderBoxes size, r.Inside size.toNat size.toNat := by simp [borderBoxes, Rect.box_inside]
  have hget := Raster.get_foldl_sweep (M := raster) (y := y) (a := ⟨20, 20, 20⟩) hrgb hboxes hx
  exact hget.trans (if_congr (exists_borderBoxes_iff hx hy) rfl rfl)

theorem getPixel_pixels (hsize : size.toNat ≤ 2 ^ 14) (usdFile : List Char) (opened : Except String (Option Layer))
    (hx : x < size.toNat) (hy : y < size.toNat) :
    getPixel (pixels size size usdFile opened) (y * size.toNat + x) = colorAt size usdFile opened x y := by
  have hlength : (List.replicate (bufferSize size size).toNat (0 : UInt8)).length / 3 = size.toNat * size.toNat := by
    rw [List.length_replicate, toNat_bufferSize hsize, Nat.mul_assoc, Nat.mul_div_cancel_left _ (by decide)]
  unfold pixels paintText colorAt
  simp only
  rw [getPixel_drawStringCentered _ _ _ hx, getPixel_drawStringCentered _ _ _ hx, getPixel_paintBorder _ hx hy,
    getPixel_paintGradient _ hsize _ hx hy]
  all_goals simpa [paintBorder, paintGradient] using hlength

/-! ### The text -/

/-- The pixel is in a cell of the character that its glyph has. -/
def InGlyph (ch : Char) (x0 y0 scale x y : Nat) : Prop :=
  ∃ row : Fin 5, ∃ col < 3, (glyphFor ch).get row &&& (1 <<< (2 - UInt8.ofNat col)) ≠ 0 ∧
    (x0 + col * scale ≤ x ∧ x < x0 + col * scale + scale) ∧ y0 + row * scale ≤ y ∧ y < y0 + row * scale + scale

/-- The pixel is in one of the characters, which are four cells apart. -/
def InText (text : List Char) (x0 y0 scale x y : Nat) : Prop :=
  ∃ i ch, text[i]? = some ch ∧ InGlyph ch (x0 + i * (4 * scale)) y0 scale x y

section
variable {x0 : UInt32} {text : List Char} {ch : Char}

theorem toNat_cell {a bound : UInt32} {n k : Nat} (hn : n < k) (hk : k ≤ 5)
    (hfits : a.toNat + k * scale.toNat ≤ bound.toNat) : (a + .ofNat n * scale).toNat = a.toNat + n * scale.toNat := by
  have hbound := bound.toNat_lt
  have hcells : n * scale.toNat ≤ k * scale.toNat := Nat.mul_le_mul_right _ hn.le
  have hn' : (UInt32.ofNat n).toNat = n := UInt32.toNat_ofNat_of_lt' (show n < 2 ^ 32 by omega)
  have hmul : (UInt32.ofNat n * scale).toNat = n * scale.toNat := by
    rw [toNat_mul_of_lt (by rw [hn']; omega), hn']
  rw [toNat_add_of_lt (by omega), hmul]

theorem covers_iff_of_inside {rect : Rect} (h : rect.Inside size size) : (rect.box size size).Covers x y ↔
    (rect.x.toNat ≤ x ∧ x < rect.x.toNat + rect.width.toNat) ∧
      rect.y.toNat ≤ y ∧ y < rect.y.toNat + rect.height.toNat := by
  have hsize := size.toNat_lt
  have hx := toNat_add_of_lt (a := rect.x) (b := rect.width) (by have := h.1; omega)
  have hy := toNat_add_of_lt (a := rect.y) (b := rect.height) (by have := h.2; omega)
  have hx1 := h.1
  have hy1 := h.2
  simp only [Raster.Box.Covers, Rect.box, toNat_min, hx, hy]
  omega

theorem exists_glyphCells_iff (hx : x0.toNat + 3 * scale.toNat ≤ size.toNat)
    (hy : y0.toNat + 5 * scale.toNat ≤ size.toNat) :
    (∃ cell ∈ glyphCells x0 y0 scale ch, (cell.box size size).Covers x y) ↔
      InGlyph ch x0.toNat y0.toNat scale.toNat x y := by
  have hcovers : ∀ row : Fin 5, ∀ col < 3,
      (Rect.box size size ⟨x0 + .ofNat col * scale, y0 + .ofNat row * scale, scale, scale⟩).Covers x y ↔
        (x0.toNat + col * scale.toNat ≤ x ∧ x < x0.toNat + col * scale.toNat + scale.toNat) ∧
          y0.toNat + row * scale.toNat ≤ y ∧ y < y0.toNat + row * scale.toNat + scale.toNat := by
    intro row col hcol
    rw [covers_iff_of_inside ⟨cell_le hcol (by decide) hx, cell_le row.isLt (by decide) hy⟩,
      toNat_cell hcol (by decide) hx, toNat_cell row.isLt (by decide) hy]
  constructor
  · rintro ⟨cell, hcell, h⟩
    obtain ⟨row, -, hcell⟩ := List.mem_flatMap.1 hcell
    obtain ⟨col, hcol, rfl⟩ := List.mem_map.1 hcell
    obtain ⟨hrange, hbit⟩ := List.mem_filter.1 hcol
    have hcol := List.mem_range.1 hrange
    exact ⟨row, col, hcol, of_decide_eq_true hbit, (hcovers row col hcol).1 h⟩
  · rintro ⟨row, col, hcol, hbit, h⟩
    refine ⟨_, List.mem_flatMap.2 ⟨row, List.mem_finRange row, ?_⟩, (hcovers row col hcol).2 h⟩
    exact List.mem_map.2 ⟨col, List.mem_filter.2 ⟨List.mem_range.2 hcol, decide_eq_true hbit⟩, rfl⟩

theorem inText_cons {x0 y0 scale : Nat} : InText (ch :: text) x0 y0 scale x y ↔
    InGlyph ch x0 y0 scale x y ∨ InText text (x0 + 4 * scale) y0 scale x y := by
  have hnext : ∀ i, x0 + (i + 1) * (4 * scale) = x0 + 4 * scale + i * (4 * scale) := fun i => by ring
  constructor
  · rintro ⟨i, c, hi, h⟩
    cases i with
    | zero =>
      obtain rfl := Option.some.inj hi
      rw [Nat.zero_mul, Nat.add_zero] at h
      exact .inl h
    | succ i => exact .inr ⟨i, c, hi, hnext i ▸ h⟩
  · rintro (h | ⟨i, c, hi, h⟩)
    · exact ⟨0, ch, rfl, by rwa [Nat.zero_mul, Nat.add_zero]⟩
    · exact ⟨i + 1, c, hi, (hnext i).symm ▸ h⟩

theorem exists_lineCells_iff (hx : x0.toNat + (4 * text.length - 1) * scale.toNat ≤ size.toNat)
    (hy : y0.toNat + 5 * scale.toNat ≤ size.toNat) :
    (∃ cell ∈ lineCells y0 scale x0 text, (cell.box size size).Covers x y) ↔
      InText text x0.toNat y0.toNat scale.toNat x y := by
  induction text generalizing x0 with
  | nil => simp [lineCells, InText]
  | cons ch text ih =>
    have hlength : 4 * (ch :: text).length - 1 = 4 * text.length + 3 := by
      rw [List.length_cons]
      omega
    rw [hlength, Nat.add_mul] at hx
    have hrest : (∃ cell ∈ lineCells y0 scale (x0 + (3 * scale + scale)) text, (cell.box size size).Covers x y) ↔
        InText text (x0.toNat + 4 * scale.toNat) y0.toNat scale.toNat x y := by
      cases text with
      | nil => simp [lineCells, InText]
      | cons ch' text =>
        have hsize := size.toNat_lt
        have hlast : 4 * (ch' :: text).length * scale.toNat =
            (4 * (ch' :: text).length - 1) * scale.toNat + scale.toNat := by
          rw [← Nat.succ_mul]
          exact congrArg (· * _) (by simp only [List.length_cons]; omega)
        have hthree : (3 * scale).toNat = 3 * scale.toNat := toNat_mul_of_lt (show 3 * scale.toNat < 2 ^ 32 by omega)
        have hfour : (3 * scale + scale).toNat = 4 * scale.toNat := by
          rw [toNat_add_of_lt (by omega), hthree]
          omega
        have hnext : (x0 + (3 * scale + scale)).toNat = x0.toNat + 4 * scale.toNat := by
          rw [toNat_add_of_lt (by omega), hfour]
        rw [ih (by rw [hnext]; omega), hnext]
    rw [inText_cons, ← hrest, ← exists_glyphCells_iff (by omega) hy, lineCells]
    simp only [List.mem_append, or_and_right, exists_or]

/-- A line in the middle of the picture, which is left out if it is too wide. -/
def InCentered (size : Nat) (text : List Char) (y0 scale x y : Nat) : Prop :=
  (4 * text.length - 1) * scale < size ∧ InText text ((size - (4 * text.length - 1) * scale) / 2) y0 scale x y

theorem inLine_iff (hlength : text.length ≤ 16) (hy : y0.toNat + 5 * (maxScale size text).toNat ≤ size.toNat) :
    InLine size y0 (maxScale size text) text x y ↔
      InCentered size.toNat text y0.toNat (maxScale size text).toNat x y := by
  rcases eq_or_ne text [] with rfl | hne
  · simp [InLine, stringCells, InCentered, InText]
  have htotal := toNat_totalWidth (w := size) hlength hne
  unfold InLine stringCells InCentered
  rw [if_neg hne]
  by_cases hwide : size ≤ totalWidth (maxScale size text) text
  · have hle := UInt32.le_iff_toNat_le.1 hwide
    rw [if_pos hwide]
    refine iff_of_false (by simp) fun h => ?_
    rw [htotal] at hle
    exact absurd h.1 (Nat.not_lt.2 hle)
  · have hlt : (totalWidth (maxScale size text) text).toNat < size.toNat :=
      Nat.lt_of_not_le fun hle => hwide (UInt32.le_iff_toNat_le.2 hle)
    have hx0 : ((size - totalWidth (maxScale size text) text) / 2).toNat =
        (size.toNat - (4 * text.length - 1) * (maxScale size text).toNat) / 2 := by
      rw [UInt32.toNat_div, toNat_sub_of_le hlt.le, htotal]
      rfl
    rw [if_neg hwide, exists_lineCells_iff (by rw [hx0]; omega) hy, hx0]
    exact (and_iff_right (htotal ▸ hlt)).symm

/-- Both lines of a layout that is exact. -/
theorem inLine_layout_iff {stem label : List Char} (hstem : stem.length ≤ 16) (hlabel : label.length ≤ 16)
    (h : LayoutExact size stem label) :
    let l := layout size size stem label
    (InLine size l.y1 l.s1 stem x y ↔ InCentered size.toNat stem l.y1.toNat l.s1.toNat x y) ∧
      (InLine size l.y2 l.s2 label x y ↔ InCentered size.toNat label l.y2.toNat l.s2.toNat x y) := by
  have hheights := h.heights
  have hy1 := h.y1
  have hy2 := h.y2
  exact ⟨inLine_iff hstem (show (layout size size stem label).y1.toNat + 5 * (layout size size stem label).s1.toNat ≤ _
    by omega), inLine_iff hlabel (show (layout size size stem label).y2.toNat +
      5 * (layout size size stem label).s2.toNat ≤ _ by omega)⟩

end

/-- The file of a thumbnail decodes to the picture. Where the layout is exact, its text is the glyphs of the two lines,
each centred, in cells of the line's scale. -/
theorem picture_of_generate {env : Environment} {usdFile : List Char} (hio : env.io = {})
    (hallocate : env.allocate (bufferSize size size) = .ok ()) (hpos : size ≠ 0) (hsize : size.toNat ≤ 2 ^ 14) :
    let stem := prepareLabel (stem usdFile) 16
    let label := prepareLabel (describeUsdFile (env.openLayer usdFile)) 16
    let l := layout size size stem label
    ∃ image, (generate env size usdFile).toOption.bind Png.decode = some image ∧ image.width = size.toNat ∧
      image.height = size.toNat ∧ ∀ x < size.toNat, ∀ y < size.toNat,
        getPixel image.pixels (y * size.toNat + x) = colorAt size usdFile (env.openLayer usdFile) x y ∧
          (LayoutExact size stem label →
            (InLine size l.y1 l.s1 stem x y ↔ InCentered size.toNat stem l.y1.toNat l.s1.toNat x y) ∧
              (InLine size l.y2 l.s2 label x y ↔ InCentered size.toNat label l.y2.toNat l.s2.toNat x y)) := by
  intro stem label l
  refine ⟨_, decode_generate hio hallocate hpos hsize, rfl, rfl, fun x hx y hy => ⟨?_, fun hexact => ?_⟩⟩
  · exact getPixel_pixels hsize _ _ hx hy
  · exact inLine_layout_iff (length_prepareLabel ..) (length_prepareLabel ..) hexact

/-- The thumbnail of 64 pixels of a file "lamp.usda" with the default prim "Lamp": its frame is grey, and the first
pixel of its name is white. -/
theorem picture_of_lamp : ∃ image,
    (generate ⟨fun _ => .ok (), fun _ => .ok (some ⟨"Lamp".toList, []⟩), {}⟩ 64 "lamp.usda".toList).toOption.bind
        Png.decode = some image ∧ image.width = 64 ∧ getPixel image.pixels 0 = ⟨20, 20, 20⟩ ∧
      getPixel image.pixels (15 * 64 + 9) = ⟨255, 255, 255⟩ := by
  obtain ⟨image, himage, hwidth, -, hpixels⟩ := @picture_of_generate 64
    ⟨fun _ => .ok (), fun _ => .ok (some ⟨"Lamp".toList, []⟩), {}⟩ "lamp.usda".toList rfl rfl (by decide) (by decide)
  refine ⟨image, himage, hwidth, ?_, ?_⟩
  · exact (hpixels 0 (by decide) 0 (by decide)).1.trans (by decide +kernel)
  · exact (hpixels 9 (by decide) 15 (by decide)).1.trans (by decide +kernel)

end IdtxCore.PlaceholderThumbnailGenerator
