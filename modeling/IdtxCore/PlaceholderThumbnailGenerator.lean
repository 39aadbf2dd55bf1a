import IdtxCore.Lib.FsPath
import IdtxCore.MiniPngDecode

/-!
# The placeholder thumbnails

`generate` paints a gradient in a tint of the file's name, a border and two lines of text, and writes the image by
`MiniPng`; up to 2^14 pixels a side the file decodes to what was painted (`decode_generate`). A `char` of the source is
a `Char` below 256. The sizes are `std::uint32_t`, and so is the arithmetic of the layout; what the allocator, the USD
library and the output file do is a parameter.
-/

namespace IdtxCore.PlaceholderThumbnailGenerator
open FsPath MiniPng

structure Color where
  r : UInt8
  g : UInt8
  b : UInt8
  deriving DecidableEq

def fnv1aHash (s : List Char) : UInt32 :=
  s.foldl (fun h c => (h ^^^ c.val.toUInt8.toUInt32) * 0x01000193) 0x811C9DC5

def hashToTint (h : UInt32) : Color where
  r := ((80 : UInt32) + ((h >>> 0) &&& 0x7F)).toUInt8
  g := ((80 : UInt32) + ((h >>> 8) &&& 0x7F)).toUInt8
  b := ((80 : UInt32) + ((h >>> 16) &&& 0x7F)).toUInt8

/-! ### Text -/

/-- The rows of a character; bit 2 is the leftmost column. -/
abbrev Glyph := Vector UInt8 5

def glyphFor (ch : Char) : Glyph :=
  match ch with
  | ' ' => #v[0b000, 0b000, 0b000, 0b000, 0b000]
  | '.' => #v[0b000, 0b000, 0b000, 0b000, 0b010]
  | '-' => #v[0b000, 0b000, 0b111, 0b000, 0b000]
  | '_' => #v[0b000, 0b000, 0b000, 0b000, 0b111]
  | '0' => #v[0b111, 0b101, 0b101, 0b101, 0b111]
  | '1' => #v[0b010, 0b110, 0b010, 0b010, 0b111]
  | '2' => #v[0b111, 0b001, 0b111, 0b100, 0b111]
  | '3' => #v[0b111, 0b001, 0b111, 0b001, 0b111]
  | '4' => #v[0b101, 0b101, 0b111, 0b001, 0b001]
  | '5' => #v[0b111, 0b100, 0b111, 0b001, 0b111]
  | '6' => #v[0b111, 0b100, 0b111, 0b101, 0b111]
  | '7' => #v[0b111, 0b001, 0b010, 0b010, 0b010]
  | '8' => #v[0b111, 0b101, 0b111, 0b101, 0b111]
  | '9' => #v[0b111, 0b101, 0b111, 0b001, 0b111]
  | 'a' | 'A' => #v[0b010, 0b101, 0b111, 0b101, 0b101]
  | 'b' | 'B' => #v[0b110, 0b101, 0b110, 0b101, 0b110]
  | 'c' | 'C' => #v[0b111, 0b100, 0b100, 0b100, 0b111]
  | 'd' | 'D' => #v[0b110, 0b101, 0b101, 0b101, 0b110]
  | 'e' | 'E' => #v[0b111, 0b100, 0b110, 0b100, 0b111]
  | 'f' | 'F' => #v[0b111, 0b100, 0b110, 0b100, 0b100]
  | 'g' | 'G' => #v[0b111, 0b100, 0b101, 0b101, 0b111]
  | 'h' | 'H' => #v[0b101, 0b101, 0b111, 0b101, 0b101]
  | 'i' | 'I' => #v[0b111, 0b010, 0b010, 0b010, 0b111]
  | 'j' | 'J' => #v[0b111, 0b001, 0b001, 0b101, 0b111]
  | 'k' | 'K' => #v[0b101, 0b110, 0b100, 0b110, 0b101]
  | 'l' | 'L' => #v[0b100, 0b100, 0b100, 0b100, 0b111]
  | 'm' | 'M' => #v[0b101, 0b111, 0b111, 0b101, 0b101]
  | 'n' | 'N' => #v[0b101, 0b111, 0b111, 0b111, 0b101]
  | 'o' | 'O' => #v[0b111, 0b101, 0b101, 0b101, 0b111]
  | 'p' | 'P' => #v[0b111, 0b101, 0b111, 0b100, 0b100]
  | 'q' | 'Q' => #v[0b111, 0b101, 0b101, 0b111, 0b011]
  | 'r' | 'R' => #v[0b111, 0b101, 0b110, 0b101, 0b101]
  | 's' | 'S' => #v[0b111, 0b100, 0b111, 0b001, 0b111]
  | 't' | 'T' => #v[0b111, 0b010, 0b010, 0b010, 0b010]
  | 'u' | 'U' => #v[0b101, 0b101, 0b101, 0b101, 0b111]
  | 'v' | 'V' => #v[0b101, 0b101, 0b101, 0b101, 0b010]
  | 'w' | 'W' => #v[0b101, 0b101, 0b111, 0b111, 0b101]
  | 'x' | 'X' => #v[0b101, 0b101, 0b010, 0b101, 0b101]
  | 'y' | 'Y' => #v[0b101, 0b101, 0b010, 0b010, 0b010]
  | 'z' | 'Z' => #v[0b111, 0b001, 0b010, 0b100, 0b111]
  | _ => #v[0b111, 0b111, 0b111, 0b111, 0b111]

structure Rect where
  x : UInt32
  y : UInt32
  width : UInt32
  height : UInt32
  deriving DecidableEq

/-- The rectangles that `DrawChar` fills. -/
def glyphCells (x0 y0 scale : UInt32) (ch : Char) : List Rect :=
  (List.finRange 5).flatMap fun row =>
    ((List.range 3).filter fun col => (glyphFor ch).get row &&& (1 <<< (2 - UInt8.ofNat col)) ≠ 0).map fun col =>
      ⟨x0 + .ofNat col * scale, y0 + .ofNat row * scale, scale, scale⟩

def lineCells (y0 scale x : UInt32) : List Char → List Rect
  | [] => []
  | ch :: text => glyphCells x y0 scale ch ++ lineCells y0 scale (x + (3 * scale + scale)) text

def totalWidth (scale : UInt32) (text : List Char) : UInt32 :=
  .ofNat text.length * (3 * scale) + .ofNat (text.length - 1) * scale

/-- The rectangles that `DrawStringCentered` fills. -/
def stringCells (w y0 scale : UInt32) (text : List Char) : List Rect :=
  if text = [] then []
  else if w ≤ totalWidth scale text then []
  else lineCells y0 scale ((w - totalWidth scale text) / 2) text

def prepareLabel (s : List Char) (maxChars : Nat) : List Char :=
  let ok c := ('a' ≤ c ∧ c ≤ 'z') ∨ ('A' ≤ c ∧ c ≤ 'Z') ∨ ('0' ≤ c ∧ c ≤ '9') ∨ c = '.' ∨ c = '-' ∨ c = '_' ∨ c = ' '
  (s.filter fun c => ok c).take maxChars

/-- What is read of an `SdfLayer`. -/
structure Layer where
  defaultPrim : List Char
  rootPrims : List (List Char)

def describeUsdFile : Except String (Option Layer) → List Char
  | .ok (some layer) => if layer.defaultPrim ≠ [] then layer.defaultPrim else layer.rootPrims.head?.getD "USD".toList
  | _ => "USD".toList

/-! ### Painting -/

def setPixel (rgb : List UInt8) (i : Nat) (c : Color) : List UInt8 :=
  ((rgb.set (3 * i) c.r).set (3 * i + 1) c.g).set (3 * i + 2) c.b

/-- For every pixel of the columns from `x0` and the rows from `y0` on. -/
def paint (rgb : List UInt8) (w x0 x1 y0 y1 : UInt32) (color : UInt32 → UInt32 → Color) : List UInt8 :=
  (List.range' y0.toNat (y1.toNat - y0.toNat)).foldl (fun rgb y =>
    (List.range' x0.toNat (x1.toNat - x0.toNat)).foldl (fun rgb x =>
      setPixel rgb (y * w.toNat + x) (color (.ofNat x) (.ofNat y))) rgb) rgb

def fillRect (rgb : List UInt8) (w h : UInt32) (rect : Rect) (c : Color) : List UInt8 :=
  paint rgb w rect.x (min w (rect.x + rect.width)) rect.y (min h (rect.y + rect.height)) fun _ _ => c

def drawStringCentered (rgb : List UInt8) (w h y0 scale : UInt32) (text : List Char) (c : Color) : List UInt8 :=
  (stringCells w y0 scale text).foldl (fun rgb cell => fillRect rgb w h cell c) rgb

/-- One channel of the gradient, from a sixth of the tint up to the tint. -/
def gradient (tint : UInt8) (t maxAxis : Int) : UInt8 :=
  let dark : Int := (tint.toNat : Int) / 6
  .ofNat (max 0 (min 255 (dark + ((tint.toNat - dark) * t).tdiv maxAxis))).toNat

def paintGradient (rgb : List UInt8) (w h : UInt32) (tint : Color) : List UInt8 :=
  let maxAxis := (w + h).toInt32.toInt
  paint rgb w 0 w 0 h fun x y =>
    let t := (x + y).toInt32.toInt
    ⟨gradient tint.r t maxAxis, gradient tint.g t maxAxis, gradient tint.b t maxAxis⟩

def paintBorder (rgb : List UInt8) (w h : UInt32) : List UInt8 :=
  let border := max 2 (w / 64)
  let grey : Color := ⟨20, 20, 20⟩
  let rgb := fillRect rgb w h ⟨0, 0, w, border⟩ grey
  let rgb := fillRect rgb w h ⟨0, h - border, w, border⟩ grey
  let rgb := fillRect rgb w h ⟨0, 0, border, h⟩ grey
  fillRect rgb w h ⟨w - border, 0, border, h⟩ grey

/-! ### Generating -/

/-- A scale whose line takes at most 80% of the width, and at least one. -/
def maxScale (w : UInt32) (s : List Char) : UInt32 :=
  if s = [] then 0
  else
    let denom := (4 * UInt64.ofNat s.length - 1).toUInt32
    let avail := w * 4 / 5
    max 1 (avail / denom)

structure Layout where
  s1 : UInt32
  s2 : UInt32
  y1 : UInt32
  y2 : UInt32
  deriving DecidableEq, Repr

/-- Two lines centred around the middle. -/
def layout (w h : UInt32) (stem label : List Char) : Layout :=
  let s1 := maxScale w stem
  let s2 := maxScale w label
  let line1H := 5 * s1
  let line2H := 5 * s2
  let gap := max s1 s2
  let y1 := (h - line1H - line2H - gap) / 2
  let y2 := y1 + line1H + gap
  ⟨s1, s2, y1, y2⟩

def paintText (rgb : List UInt8) (w h : UInt32) (stem label : List Char) : List UInt8 :=
  let l := layout w h stem label
  let rgb := drawStringCentered rgb w h l.y1 l.s1 stem ⟨255, 255, 255⟩
  drawStringCentered rgb w h l.y2 l.s2 label ⟨220, 220, 220⟩

/-- The size of the buffer. -/
def bufferSize (w h : UInt32) : UInt64 := w.toUInt64 * h.toUInt64 * 3

def pixels (w h : UInt32) (usdFile : List Char) (opened : Except String (Option Layer)) : List UInt8 :=
  let rgb := List.replicate (bufferSize w h).toNat 0
  let rgb := paintGradient rgb w h (hashToTint (fnv1aHash (filename usdFile)))
  let rgb := paintBorder rgb w h
  paintText rgb w h (prepareLabel (stem usdFile) 16) (prepareLabel (describeUsdFile opened) 16)

/-! The buffer keeps its size. -/

@[simp] theorem length_setPixel (rgb : List UInt8) (i : Nat) (c : Color) : (setPixel rgb i c).length = rgb.length := by
  simp [setPixel]

theorem length_foldl {α : Type} {f : List UInt8 → α → List UInt8} (h : ∀ rgb a, (f rgb a).length = rgb.length)
    (as : List α) (rgb : List UInt8) : (as.foldl f rgb).length = rgb.length := by
  induction as generalizing rgb with
  | nil => rfl
  | cons a as ih => rw [List.foldl_cons, ih, h]

@[simp] theorem length_paint (rgb : List UInt8) (w x0 x1 y0 y1 : UInt32) (color : UInt32 → UInt32 → Color) :
    (paint rgb w x0 x1 y0 y1 color).length = rgb.length :=
  length_foldl (fun _ _ => length_foldl (fun _ _ => length_setPixel ..) ..) ..

@[simp] theorem length_fillRect (rgb : List UInt8) (w h : UInt32) (rect : Rect) (c : Color) :
    (fillRect rgb w h rect c).length = rgb.length := length_paint ..

@[simp] theorem length_drawStringCentered (rgb : List UInt8) (w h y0 scale : UInt32) (text : List Char) (c : Color) :
    (drawStringCentered rgb w h y0 scale text c).length = rgb.length := length_foldl (fun _ _ => length_fillRect ..) ..

theorem length_pixels (w h : UInt32) (usdFile : List Char) (opened : Except String (Option Layer)) :
    (pixels w h usdFile opened).length = (bufferSize w h).toNat := by
  simp [pixels, paintText, paintBorder, paintGradient]

structure Environment where
  /-- The allocation of the buffer, or what the exception says. -/
  allocate : UInt64 → Except String Unit
  /-- What `SdfLayer::FindOrOpen` gives for the file; it may throw. -/
  openLayer : List Char → Except String (Option Layer)
  io : Io

/-- A generator, by the size of its thumbnails. -/
def create (size : UInt32) : UInt32 := if size = 0 then 256 else size

/-- The content of the output file, or the error. -/
def generate (env : Environment) (size : UInt32) (usdFile : List Char) : Except String (List UInt8) := do
  env.allocate (bufferSize size size)
  let rgb : Buffer := ⟨pixels size size usdFile (env.openLayer usdFile), by
    rw [length_pixels]
    exact UInt64.toNat_lt _⟩
  match write env.io size size rgb with
  | .error e => throw ("PNG write failed: " ++ e.message)
  | .ok png => pure png

/-! ### The file -/

theorem toNat_bufferSize {size : UInt32} (hsize : size.toNat ≤ 2 ^ 14) :
    (bufferSize size size).toNat = 3 * size.toNat * size.toNat := by
  have hsquare : size.toNat * size.toNat ≤ 2 ^ 14 * 2 ^ 14 := Nat.mul_le_mul hsize hsize
  have hproduct : (bufferSize size size).toNat = size.toNat * size.toNat * 3 % 2 ^ 64 := by
    simp [bufferSize, UInt64.toNat_mul]
  rw [hproduct, Nat.mod_eq_of_lt (by omega), Nat.mul_comm, Nat.mul_assoc]

theorem length_stream {size : UInt32} (hsize : size.toNat ≤ 2 ^ 14) (rgb : Buffer) :
    (zlibWrapStored (scanlines size size rgb)).length < 2 ^ 31 := by
  have hscanlines : (scanlines size size rgb).length ≤ size.toNat * (1 + (size * 3).toNat) := length_scanlines_le
  have hwidth : (size * 3).toNat ≤ 3 * 2 ^ 14 := by
    rw [UInt32.toNat_mul]
    exact (Nat.mod_le _ _).trans (by rw [Nat.mul_comm]; exact Nat.mul_le_mul_left 3 hsize)
  have hbound : size.toNat * (1 + (size * 3).toNat) ≤ 2 ^ 14 * (1 + 3 * 2 ^ 14) :=
    Nat.mul_le_mul hsize (Nat.add_le_add_left hwidth 1)
  rw [(zlibWrapStored_spec _).1, blocksLength]
  unfold kMax
  omega

/-- The file of a thumbnail decodes to the image that was painted. -/
theorem decode_generate {env : Environment} {size : UInt32} {usdFile : List Char} (hio : env.io = {})
    (hallocate : env.allocate (bufferSize size size) = .ok ()) (hpos : size ≠ 0) (hsize : size.toNat ≤ 2 ^ 14) :
    (generate env size usdFile).toOption.bind Png.decode =
      some ⟨size.toNat, size.toNat, pixels size size usdFile (env.openLayer usdFile)⟩ := by
  have hlength := length_pixels size size usdFile (env.openLayer usdFile)
  let rgb : Buffer := ⟨pixels size size usdFile (env.openLayer usdFile), hlength ▸ UInt64.toNat_lt _⟩
  have hgenerate : (generate env size usdFile).toOption = (write {} size size rgb).toOption := by
    unfold generate
    rw [hallocate, hio]
    show (match write {} size size rgb with | .error e => _ | .ok png => _ : Except String _).toOption = _
    cases write {} size size rgb <;> rfl
  have hbytes : rgb.bytes.length = 3 * size.toNat * size.toNat := hlength.trans (toNat_bufferSize hsize)
  rw [hgenerate, toOption_write hpos hpos hbytes, Option.bind_some]
  exact decode_out_of_lt hpos hpos hbytes (by omega) (length_stream hsize rgb)

end IdtxCore.PlaceholderThumbnailGenerator
