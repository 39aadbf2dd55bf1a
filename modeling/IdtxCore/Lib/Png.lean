import IdtxCore.Lib.Checksum
import Mathlib.Data.List.Basic

/-!
# Reading a PNG

A reader for the images that are stored without compression: true colour, eight bits a sample, not interlaced, every
scanline unfiltered, and the zlib stream in stored blocks. What the formats demand is checked (lengths, checksums,
header fields), and every byte has to be accounted for.

`Reads p bytes x` says that `p` reads just these bytes, whatever follows them; its rules (`Reads.bind`, `Reads.guarded`)
take a reader apart along the bytes of an encoding.
-/

namespace Png

/-! ### Readers -/

abbrev Reader := StateT (List UInt8) Option

def take (n : Nat) : Reader (List UInt8) := fun bytes =>
  if n ≤ bytes.length then some (bytes.splitAt n) else none

def bigEndian (n : Nat) : Reader Nat := return (← take n).foldl (fun v b => v * 256 + b.toNat) 0

def littleEndian (n : Nat) : Reader Nat := return (← take n).foldr (fun b v => v * 256 + b.toNat) 0

/-- The value that is read, if nothing is left. -/
def parse {α : Type} (p : Reader α) (bytes : List UInt8) : Option α :=
  match p bytes with
  | some (x, []) => some x
  | _ => none

/-- `p` reads these bytes, whatever follows them. -/
def Reads {α : Type} (p : Reader α) (bytes : List UInt8) (x : α) : Prop := ∀ rest, p (bytes ++ rest) = some (x, rest)

section Rules
variable {α β : Type} {p : Reader α} {bytes bytes' : List UInt8} {x : α} {y : β}

theorem Reads.parse (h : Reads p bytes x) : parse p bytes = some x := by
  have hrun := h []
  rw [List.append_nil] at hrun
  rw [Png.parse, hrun]

theorem Reads.pure (x : α) : Reads (pure x) [] x := fun _ => rfl

theorem Reads.bind {f : α → Reader β} (h : Reads p bytes x) (h' : Reads (f x) bytes' y) :
    Reads (p >>= f) (bytes ++ bytes') y := by
  intro rest
  have hrun : (p >>= f) (bytes ++ (bytes' ++ rest)) = f x (bytes' ++ rest) := by
    change (p (bytes ++ (bytes' ++ rest))).bind (fun r => f r.1 r.2) = f x (bytes' ++ rest)
    rw [h]
    rfl
  rw [List.append_assoc, hrun, h']

theorem Reads.bind_last {f : α → Reader β} (h : Reads p bytes x) (h' : Reads (f x) [] y) :
    Reads (p >>= f) bytes y := by
  have hbind := h.bind h'
  rwa [List.append_nil] at hbind

theorem Reads.guarded {c : Prop} [Decidable c] {q : Reader β} (hc : c) (h : Reads q bytes y) :
    Reads (guard c >>= fun _ => q) bytes y := by
  have hguard : Reads (guard c) [] () := by
    intro rest
    rw [guard, if_pos hc]
    rfl
  exact hguard.bind h

theorem Reads.take (bytes : List UInt8) : Reads (take bytes.length) bytes bytes := by
  intro rest
  unfold Png.take
  rw [if_pos (by simp), List.splitAt_eq, List.take_left, List.drop_left]

theorem Reads.bigEndian (bytes : List UInt8) :
    Reads (bigEndian bytes.length) bytes (bytes.foldl (fun v b => v * 256 + b.toNat) 0) :=
  (Reads.take bytes).bind_last (Reads.pure _)

theorem Reads.littleEndian (bytes : List UInt8) :
    Reads (littleEndian bytes.length) bytes (bytes.foldr (fun b v => v * 256 + b.toNat) 0) :=
  (Reads.take bytes).bind_last (Reads.pure _)

/-- `p` reads just `k` bytes if it succeeds. -/
def Consumes {α : Type} (p : Reader α) (k : Nat) : Prop :=
  ∀ ⦃bytes x rest⦄, p bytes = some (x, rest) → bytes.length = k + rest.length

theorem Consumes.pure (x : α) : Consumes (pure x) 0 := by
  intro bytes y rest h
  obtain ⟨-, rfl⟩ := Prod.mk.inj (Option.some.inj h)
  exact (Nat.zero_add _).symm

theorem Consumes.take (n : Nat) : Consumes (take n) n := by
  intro bytes x rest h
  rw [Png.take, Option.ite_none_right_eq_some, List.splitAt_eq, Option.some_inj] at h
  obtain ⟨hle, heq⟩ := h
  obtain ⟨-, rfl⟩ := Prod.mk.inj heq
  rw [List.length_drop]
  omega

theorem Consumes.guarded (c : Prop) [Decidable c] : Consumes (guard c) 0 := by
  intro bytes x rest h
  rw [guard] at h
  split_ifs at h
  · exact Consumes.pure () h
  · cases h

theorem Consumes.bind {k k' : Nat} {f : α → Reader β} (h : Consumes p k) (h' : ∀ x, Consumes (f x) k') :
    Consumes (p >>= f) (k + k') := by
  intro bytes y rest hrun
  change (p bytes).bind (fun r => f r.1 r.2) = some (y, rest) at hrun
  obtain ⟨⟨x, rest'⟩, hp, hf⟩ := Option.bind_eq_some_iff.1 hrun
  rw [h hp, h' x hf, Nat.add_assoc]

theorem Consumes.parse {k : Nat} (h : Consumes p k) (hparse : parse p bytes = some x) : bytes.length = k := by
  unfold Png.parse at hparse
  split at hparse
  · next hrun => exact h hrun
  · cases hparse

end Rules

/-! ### Chunks -/

structure Chunk where
  type : List UInt8
  data : List UInt8

def signature : List UInt8 := [0x89, 0x50, 0x4E, 0x47, 0x0D, 0x0A, 0x1A, 0x0A]

/-- `IHDR` -/
def ihdr : List UInt8 := [0x49, 0x48, 0x44, 0x52]

/-- `IDAT` -/
def idat : List UInt8 := [0x49, 0x44, 0x41, 0x54]

/-- `IEND` -/
def iend : List UInt8 := [0x49, 0x45, 0x4E, 0x44]

def chunk : Reader Chunk := do
  let length ← bigEndian 4
  guard (length < 2 ^ 31)
  let type ← take 4
  let data ← take length
  let crc ← bigEndian 4
  guard (crc = (Checksum.crc32 (type ++ data)).toNat)
  pure ⟨type, data⟩

/-- The chunks up to the first `IEND`, of which there are at most `n`. -/
def chunks : Nat → Reader (List Chunk)
  | 0 => failure
  | n + 1 => do
    let c ← chunk
    if c.type = iend then pure [c]
    else
      let cs ← chunks n
      pure (c :: cs)

theorem reads_chunk {length crc type data : List UInt8} (hlength : length.length = 4)
    (hdata : length.foldl (fun v b => v * 256 + b.toNat) 0 = data.length) (hlt : data.length < 2 ^ 31)
    (htype : type.length = 4) (hcrc : crc.length = 4)
    (hsum : crc.foldl (fun v b => v * 256 + b.toNat) 0 = (Checksum.crc32 (type ++ data)).toNat) :
    Reads chunk (length ++ (type ++ (data ++ crc))) ⟨type, data⟩ := by
  have h₁ := Reads.bigEndian length
  have h₂ := Reads.take type
  have h₃ := Reads.bigEndian crc
  rw [hlength, hdata] at h₁
  rw [htype] at h₂
  rw [hcrc, hsum] at h₃
  refine h₁.bind (.guarded hlt (h₂.bind ((Reads.take data).bind ?_)))
  exact h₃.bind_last (.guarded rfl (.pure _))

theorem reads_chunks_last {n : Nat} {bytes : List UInt8} {c : Chunk} (h : Reads chunk bytes c) (hc : c.type = iend) :
    Reads (chunks (n + 1)) bytes [c] := by
  refine h.bind_last ?_
  rw [if_pos hc]
  exact .pure _

theorem reads_chunks_cons {n : Nat} {bytes bytes' : List UInt8} {c : Chunk} {cs : List Chunk}
    (h : Reads chunk bytes c) (hc : c.type ≠ iend) (h' : Reads (chunks n) bytes' cs) :
    Reads (chunks (n + 1)) (bytes ++ bytes') (c :: cs) := by
  refine h.bind ?_
  rw [if_neg hc]
  exact h'.bind_last (.pure _)

/-- What the `IDAT` chunks hold, if they are followed by an empty `IEND` and by nothing else. -/
def imageData : List Chunk → Option (List UInt8)
  | [] => none
  | c :: cs =>
    if c.type = iend ∧ c.data = [] ∧ cs.isEmpty then some []
    else if c.type = idat then (c.data ++ ·) <$> imageData cs
    else none

/-! ### The zlib stream -/

/-- Whether the block is the last one, and its data. -/
def storedBlock : Reader (Bool × List UInt8) := do
  let header ← littleEndian 1
  guard (header / 2 % 4 = 0)
  let len ← littleEndian 2
  let nlen ← littleEndian 2
  guard (nlen = 65535 - len)
  let data ← take len
  pure (header % 2 = 1, data)

/-- The data of the blocks up to the last one, of which there are at most `n`. -/
def storedBlocks : Nat → Reader (List UInt8)
  | 0 => failure
  | n + 1 => do
    let (last, data) ← storedBlock
    if last then pure data
    else
      let rest ← storedBlocks n
      pure (data ++ rest)

/-- A deflate stream with a window of at most 32K and no preset dictionary, in at most `n` blocks. -/
def zlib (n : Nat) : Reader (List UInt8) := do
  let cmf ← bigEndian 1
  let flg ← bigEndian 1
  guard (cmf % 16 = 8 ∧ cmf / 16 ≤ 7 ∧ (cmf * 256 + flg) % 31 = 0 ∧ flg / 32 % 2 = 0)
  let data ← storedBlocks n
  let adler ← bigEndian 4
  guard (adler = Checksum.adler32 data)
  pure data

section Zlib
variable {n : Nat} {bytes bytes' data data' : List UInt8}

theorem reads_storedBlock {header len nlen : List UInt8} (last : Bool) (hheader : header = [if last then 1 else 0])
    (hlen : len.length = 2) (hdata : len.foldr (fun b v => v * 256 + b.toNat) 0 = data.length)
    (hnlen : nlen.length = 2) (hcomplement : nlen.foldr (fun b v => v * 256 + b.toNat) 0 = 65535 - data.length) :
    Reads storedBlock (header ++ (len ++ (nlen ++ data))) (last, data) := by
  have h₁ := Reads.littleEndian header
  have h₂ := Reads.littleEndian len
  have h₃ := Reads.littleEndian nlen
  rw [hheader] at h₁ ⊢
  rw [hlen, hdata] at h₂
  rw [hnlen, hcomplement] at h₃
  refine h₁.bind (.guarded ?_ (h₂.bind (h₃.bind (.guarded rfl ((Reads.take data).bind_last ?_)))))
  · cases last <;> rfl
  · cases last <;> exact .pure _

theorem reads_storedBlocks_last (h : Reads storedBlock bytes (true, data)) : Reads (storedBlocks (n + 1)) bytes data :=
  h.bind_last (.pure _)

theorem reads_storedBlocks_cons (h : Reads storedBlock bytes (false, data)) (h' : Reads (storedBlocks n) bytes' data') :
    Reads (storedBlocks (n + 1)) (bytes ++ bytes') (data ++ data') :=
  h.bind (h'.bind_last (.pure _))

theorem reads_zlib {cmf flg : UInt8} {adler : List UInt8} (hheader : cmf.toNat % 16 = 8 ∧ cmf.toNat / 16 ≤ 7 ∧
      (cmf.toNat * 256 + flg.toNat) % 31 = 0 ∧ flg.toNat / 32 % 2 = 0) (h : Reads (storedBlocks n) bytes data)
    (hadler : adler.length = 4) (hsum : adler.foldl (fun v b => v * 256 + b.toNat) 0 = Checksum.adler32 data) :
    Reads (zlib n) ([cmf] ++ ([flg] ++ (bytes ++ adler))) data := by
  have h₁ := Reads.bigEndian [cmf]
  have h₂ := Reads.bigEndian [flg]
  have h₃ := Reads.bigEndian adler
  rw [hadler, hsum] at h₃
  refine h₁.bind (h₂.bind (.guarded ?_ (h.bind (h₃.bind_last (.guarded rfl (.pure _))))))
  simpa using hheader

end Zlib

/-! ### The image -/

/-- `pixels` has the three samples of each pixel, row by row. -/
structure Image where
  width : Nat
  height : Nat
  pixels : List UInt8
  deriving DecidableEq

/-- The dimensions, of an image with eight bits a sample, true colour, not interlaced. -/
def header : Reader (Nat × Nat) := do
  let width ← bigEndian 4
  let height ← bigEndian 4
  let rest ← take 5
  guard (rest = [8, 2, 0, 0, 0])
  pure (width, height)

def scanlines (rowBytes : Nat) : Nat → Reader (List UInt8)
  | 0 => pure []
  | n + 1 => do
    let filter ← bigEndian 1
    guard (filter = 0)
    let row ← take rowBytes
    let rows ← scanlines rowBytes n
    pure (row ++ rows)

theorem reads_scanlines {k : Nat} {rows : List (List UInt8)} (h : ∀ row ∈ rows, row.length = k) :
    Reads (scanlines k rows.length) (rows.flatMap fun row => [0] ++ row) rows.flatten := by
  induction rows with
  | nil => exact .pure _
  | cons row rows ih =>
    have hrow := Reads.take row
    rw [h row List.mem_cons_self] at hrow
    have hrows := ih fun row' hmem => h row' (List.mem_cons_of_mem _ hmem)
    rw [List.flatMap_cons, List.append_assoc]
    exact (Reads.bigEndian [0]).bind (.guarded rfl (hrow.bind (hrows.bind_last (.pure _))))

theorem flatten_rows {α : Type} (n k : Nat) (l : List α) :
    ((List.range n).map fun y => (l.drop (y * k)).take k).flatten = l.take (n * k) := by
  induction n with
  | zero => simp
  | succ n ih =>
    rw [List.range_succ, List.map_append, List.flatten_append, ih, Nat.succ_mul, List.take_add]
    simp

theorem consumes_scanlines (k n : Nat) : Consumes (scanlines k n) (n * (1 + k)) := by
  induction n with
  | zero =>
    rw [Nat.zero_mul]
    exact .pure []
  | succ n ih =>
    have hfilter : Consumes (bigEndian 1) 1 := (Consumes.take 1).bind fun _ => .pure _
    have h := hfilter.bind fun filter => (Consumes.guarded (filter = 0)).bind fun _ =>
      (Consumes.take k).bind fun row => ih.bind fun rows => .pure (row ++ rows)
    have hsum : (n + 1) * (1 + k) = 1 + (0 + (k + (n * (1 + k) + 0))) := by
      rw [Nat.succ_mul]
      omega
    rw [hsum]
    exact h

def decode (bytes : List UInt8) : Option Image := do
  let cs ← parse (do guard ((← take 8) = signature); chunks bytes.length) bytes
  match cs with
  | [] => none
  | c :: cs =>
    guard (c.type = ihdr)
    let (width, height) ← parse header c.data
    guard (0 < width ∧ width < 2 ^ 31 ∧ 0 < height ∧ height < 2 ^ 31)
    let stream ← imageData cs
    let raw ← parse (zlib stream.length) stream
    let pixels ← parse (scanlines (3 * width) height) raw
    pure ⟨width, height, pixels⟩

/-- A file with one `IDAT` chunk decodes if its dimensions are in range and the scanlines fit them. -/
theorem decode_eq {width height : Nat} {bytes headerData stream raw : List UInt8}
    (hchunks : Reads (chunks (signature ++ bytes).length) bytes [⟨ihdr, headerData⟩, ⟨idat, stream⟩, ⟨iend, []⟩])
    (hheader : Reads header headerData (width, height)) (hzlib : Reads (zlib stream.length) stream raw) :
    decode (signature ++ bytes) =
      if 0 < width ∧ width < 2 ^ 31 ∧ 0 < height ∧ height < 2 ^ 31 then
        (parse (scanlines (3 * width) height) raw).map (⟨width, height, ·⟩)
      else none := by
  have hfile : Reads (do guard ((← take 8) = signature); chunks (signature ++ bytes).length) (signature ++ bytes)
      [⟨ihdr, headerData⟩, ⟨idat, stream⟩, ⟨iend, []⟩] := (Reads.take signature).bind (.guarded rfl hchunks)
  have hdata : imageData [⟨idat, stream⟩, ⟨iend, []⟩] = some stream := by
    simp [imageData, idat, iend]
  unfold decode
  rw [hfile.parse]
  simp only [Option.bind_eq_bind, Option.bind_some, guard_true, hheader.parse, hdata, hzlib.parse]
  split_ifs with hsize
  · rw [guard, if_pos hsize]
    cases parse (scanlines (3 * width) height) raw <;> rfl
  · rw [guard, if_neg hsize]
    rfl

end Png
