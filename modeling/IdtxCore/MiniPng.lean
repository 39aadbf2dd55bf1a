import IdtxCore.Lib.Checksum

/-!
# The PNG writer of the thumbnail generator

`write` is `MiniPng::Write`. Its image data is a zlib stream of stored blocks, which take the scanlines as one string
of bytes and do not end with the rows. The checksums are the ones of the formats (`toBitVec_crc32`, `toNat_adler32`),
though the CRC is computed from a table and the Adler sums are reduced at every byte.
-/

namespace IdtxCore.MiniPng

/-- A `std::vector<std::uint8_t>`. -/
structure Buffer where
  bytes : List UInt8
  size_lt : bytes.length < 2 ^ 64

def Buffer.size (v : Buffer) : UInt64 := .ofNat v.bytes.length

def appendBE32 (v : List UInt8) (x : UInt32) : List UInt8 :=
  v ++ [((x >>> 24) &&& 0xFF).toUInt8, ((x >>> 16) &&& 0xFF).toUInt8, ((x >>> 8) &&& 0xFF).toUInt8,
    ((x >>> 0) &&& 0xFF).toUInt8]

/-! ### Checksums -/

def adler32Step (s : UInt32 × UInt32) (byte : UInt8) : UInt32 × UInt32 :=
  let a := (s.1 + byte.toUInt32) % 65521
  (a, (s.2 + a) % 65521)

def adler32 (data : List UInt8) : UInt32 :=
  let (a, b) := data.foldl adler32Step (1, 0)
  (b <<< 16) ||| a

def crcShift (c : UInt32) : UInt32 := if c &&& 1 ≠ 0 then (0xEDB88320 : UInt32) ^^^ (c >>> 1) else c >>> 1

def crcTable : Vector UInt32 256 := .ofFn fun n => (List.range 8).foldl (fun c _ => crcShift c) (.ofNat n)

theorem and_255_lt (c : UInt32) : (c &&& 0xFF).toNat < 256 := by
  rw [UInt32.toNat_and]
  exact Nat.lt_of_le_of_lt Nat.and_le_right (by decide)

def crc32Step (c : UInt32) (byte : UInt8) : UInt32 :=
  crcTable.get ⟨((c ^^^ byte.toUInt32) &&& 0xFF).toNat, and_255_lt _⟩ ^^^ (c >>> 8)

def crc32 (data : List UInt8) : UInt32 := data.foldl crc32Step 0xFFFFFFFF ^^^ 0xFFFFFFFF

/-! ### Writing -/

def writeChunk (out : List UInt8) (type : Vector Char 4) (data : List UInt8) : List UInt8 :=
  let out := appendBE32 out (.ofNat data.length)
  let crcStart := out.length
  let out := out ++ type.toList.map (·.val.toUInt8)
  let out := out ++ data
  appendBE32 out (crc32 (out.drop crcStart))

def kMax : Nat := 65535

/-- What precedes the payload of a block: whether it is the last one, LEN and NLEN. -/
def blockHeader (last : Bool) (chunk : Nat) : List UInt8 :=
  let len : UInt16 := .ofNat chunk
  let nlen : UInt16 := ~~~len
  [if last then 0x01 else 0x00, (len &&& 0xFF).toUInt8, ((len >>> 8) &&& 0xFF).toUInt8, (nlen &&& 0xFF).toUInt8,
    ((nlen >>> 8) &&& 0xFF).toUInt8]

/-- The loop of `zlibWrapStored`, from `offset` on. -/
def storedBlocks (raw z : List UInt8) (offset : Nat) (h : offset ≤ raw.length) : List UInt8 :=
  let remaining := raw.length - offset
  let chunk := if remaining > kMax then kMax else remaining
  let last := decide (offset + chunk = raw.length)
  let z := z ++ blockHeader last chunk
  let z := if chunk > 0 then z ++ (raw.drop offset).take chunk else z
  if hlast : last then z else storedBlocks raw z (offset + chunk) (by grind)
termination_by raw.length - offset
decreasing_by grind [kMax]

def zlibWrapStored (raw : List UInt8) : List UInt8 :=
  appendBE32 (storedBlocks raw [0x78, 0x01] 0 (Nat.zero_le _)) (adler32 raw)

/-- The scanlines of an image, each with its filter byte. -/
def scanlines (width height : UInt32) (rgb : Buffer) : List UInt8 :=
  (List.range height.toNat).foldl (fun raw y =>
    let raw := raw ++ [0]
    -- the offset is a `std::size_t`, the length of the row a `std::uint32_t`
    let row := rgb.bytes.drop ((UInt64.ofNat y) * width.toUInt64 * 3).toNat
    raw ++ row.take (width * 3).toNat) []

inductive WriteError where
  | invalidDimensions
  | sizeMismatch
  | openFailed
  | writeFailed
  deriving DecidableEq, Repr

def WriteError.message : WriteError → String
  | invalidDimensions => "invalid image dimensions"
  | sizeMismatch => "pixel buffer size does not match dimensions"
  | openFailed => "failed to open output file for writing"
  | writeFailed => "failed to write image bytes"

/-- How the output file takes it. -/
structure Io where
  opens : Bool := true
  writes : Bool := true

def kSig : List UInt8 := [0x89, 0x50, 0x4E, 0x47, 0x0D, 0x0A, 0x1A, 0x0A]

def out (width height : UInt32) (rgb : Buffer) : List UInt8 :=
  let out := kSig
  let ihdr := appendBE32 (appendBE32 [] width) height ++ [8, 2, 0, 0, 0]
  let out := writeChunk out #v['I', 'H', 'D', 'R'] ihdr
  let out := writeChunk out #v['I', 'D', 'A', 'T'] (zlibWrapStored (scanlines width height rgb))
  writeChunk out #v['I', 'E', 'N', 'D'] []

/-- The content of the file. -/
def write (io : Io) (width height : UInt32) (rgb : Buffer) : Except WriteError (List UInt8) :=
  if width = 0 ∨ height = 0 then .error .invalidDimensions
  else if rgb.size ≠ width.toUInt64 * height.toUInt64 * 3 then .error .sizeMismatch
  else if ¬io.opens then .error .openFailed
  else if ¬io.writes then .error .writeFailed
  else .ok (out width height rgb)

/-! ### The checksums are those of the formats -/

theorem toBitVec_crcShift (c : UInt32) : (crcShift c).toBitVec = Checksum.shift 0xEDB88320 c.toBitVec := by
  have hbit : c &&& 1 ≠ 0 ↔ c.toBitVec.getLsbD 0 = true := by
    rw [ne_eq, ← UInt32.toBitVec_inj, UInt32.toBitVec_and]
    have hand : c.toBitVec &&& (1 : UInt32).toBitVec = BitVec.setWidth 32 (BitVec.ofBool (c.toBitVec.getLsbD 0)) :=
      BitVec.and_one_eq_setWidth_ofBool_getLsbD
    rw [hand]
    cases c.toBitVec.getLsbD 0 <;> decide
  unfold crcShift Checksum.shift
  by_cases hlow : c.toBitVec.getLsbD 0 = true
  · rw [if_pos (hbit.2 hlow), if_pos hlow]
    rfl
  · rw [if_neg (mt hbit.1 hlow), if_neg hlow]
    rfl

theorem toBitVec_crcTable (n : Fin 256) :
    (crcTable.get n).toBitVec = (Checksum.shift 0xEDB88320)^[8] (BitVec.ofNat 32 n) := by
  have hentry : crcTable.get n = (List.range 8).foldl (fun c _ => crcShift c) (.ofNat n) :=
    Vector.getElem_ofFn n.isLt
  have hrange : List.range 8 = [0, 1, 2, 3, 4, 5, 6, 7] := rfl
  rw [hentry, hrange]
  simp only [List.foldl_cons, List.foldl_nil, toBitVec_crcShift]
  rfl

theorem getLsbD_and_255 (c : UInt32) (i : Nat) :
    (c &&& 0xFF).toBitVec.getLsbD i = (c.toBitVec.getLsbD i && decide (i < 8)) := by
  have hones : (0xFF : UInt32).toBitVec.toNat = 2 ^ 8 - 1 := rfl
  have hmask : (0xFF : UInt32).toBitVec.getLsbD i = decide (i < 8) := by
    rw [BitVec.getLsbD, hones, Nat.testBit_two_pow_sub_one]
  rw [UInt32.toBitVec_and, BitVec.getLsbD_and, hmask]

/-- Eight shifts at once: the table has those of the low byte. -/
theorem iterate_shift_toBitVec (c : UInt32) : (Checksum.shift 0xEDB88320)^[8] c.toBitVec =
    (Checksum.shift 0xEDB88320)^[8] (c &&& 0xFF).toBitVec ^^^ c.toBitVec >>> 8 := by
  refine Checksum.iterate_shift_eq ?_ ?_
  · refine BitVec.eq_of_getLsbD_eq fun i _ => ?_
    rw [BitVec.getLsbD_ushiftRight, getLsbD_and_255]
    simp
  · intro i hi
    rw [getLsbD_and_255, decide_eq_true hi, Bool.and_true]

theorem toBitVec_crc32Step (c : UInt32) (byte : UInt8) :
    (crc32Step c byte).toBitVec = Checksum.feed 0xEDB88320 c.toBitVec byte := by
  have hbyte : byte.toUInt32.toBitVec >>> 8 = 0#32 := by
    refine BitVec.eq_of_toNat_eq ?_
    have hlt := byte.toNat_lt
    simp
    omega
  have hindex : BitVec.ofNat 32 ((c ^^^ byte.toUInt32) &&& 0xFF).toNat = ((c ^^^ byte.toUInt32) &&& 0xFF).toBitVec :=
    (BitVec.ofNat_toNat 32 _).trans (BitVec.setWidth_eq _)
  have hsplit := iterate_shift_toBitVec (c ^^^ byte.toUInt32)
  rw [UInt32.toBitVec_xor, BitVec.ushiftRight_xor_distrib, hbyte, BitVec.xor_zero] at hsplit
  unfold crc32Step Checksum.feed
  rw [UInt32.toBitVec_xor, toBitVec_crcTable, hindex]
  exact hsplit.symm

theorem toBitVec_crc32 (data : List UInt8) : (crc32 data).toBitVec = Checksum.crc32 data := by
  have hfold : ∀ c : UInt32, (data.foldl crc32Step c).toBitVec =
      data.foldl (Checksum.feed 0xEDB88320) c.toBitVec := by
    induction data with
    | nil => exact fun _ => rfl
    | cons byte data ih =>
      intro c
      rw [List.foldl_cons, List.foldl_cons, ih, toBitVec_crc32Step]
  unfold crc32
  rw [UInt32.toBitVec_xor, hfold]
  rfl

/-- The CRC from the table is that of the bits taken one at a time: the register starts from ones, the polynomial is
added where the bit shifted out and the bit of the message differ, and the register is complemented at the end. -/
theorem crc32_bit_by_bit (data : List UInt8) :
    (crc32 data).toBitVec = (Checksum.messageBits data).foldl (Checksum.feedBit 0xEDB88320#32) 0xFFFFFFFF#32 ^^^
      0xFFFFFFFF#32 := by
  have hones : BitVec.allOnes 32 = 0xFFFFFFFF#32 := rfl
  rw [toBitVec_crc32, Checksum.crc32, Checksum.crc_eq_foldl_feedBit (by omega), hones]
  rfl

theorem adler32Step_eq {s : UInt32 × UInt32} {a b : Nat} (ha : s.1.toNat = a % 65521) (hb : s.2.toNat = b % 65521)
    (byte : UInt8) : (adler32Step s byte).1.toNat = (a + byte.toNat) % 65521 ∧
      (adler32Step s byte).2.toNat = (b + (a + byte.toNat)) % 65521 := by
  have hbyte := byte.toNat_lt
  unfold adler32Step
  simp only [UInt32.toNat_mod, UInt32.toNat_add, UInt8.toNat_toUInt32, UInt32.reduceToNat, ha, hb]
  constructor <;> omega

theorem foldl_adler32Step_eq (data : List UInt8) {s : UInt32 × UInt32} {a b : Nat} (ha : s.1.toNat = a % 65521)
    (hb : s.2.toNat = b % 65521) :
    (data.foldl adler32Step s).1.toNat = (a + (data.map UInt8.toNat).sum) % 65521 ∧
      (data.foldl adler32Step s).2.toNat = (b + ((data.map UInt8.toNat).scanl (· + ·) a).tail.sum) % 65521 := by
  induction data generalizing s a b with
  | nil => exact ⟨ha, hb⟩
  | cons byte data ih =>
    obtain ⟨ha', hb'⟩ := adler32Step_eq ha hb byte
    obtain ⟨hsum, hsums⟩ := ih ha' hb'
    have hhead : ((data.map UInt8.toNat).scanl (· + ·) (a + byte.toNat)).sum =
        a + byte.toNat + ((data.map UInt8.toNat).scanl (· + ·) (a + byte.toNat)).tail.sum := by
      cases data <;> simp
    rw [List.foldl_cons, hsum, hsums, List.map_cons, List.sum_cons, List.scanl_cons, List.tail_cons, hhead]
    simp only [Nat.add_assoc, and_self]

theorem toNat_adler32 (data : List UInt8) : (adler32 data).toNat = Checksum.adler32 data := by
  obtain ⟨ha, hb⟩ := foldl_adler32Step_eq data (s := (1, 0)) (a := 1) (b := 0) rfl rfl
  unfold adler32 Checksum.adler32 Checksum.partialSums
  generalize data.foldl adler32Step (1, 0) = s at *
  obtain ⟨a, b⟩ := s
  dsimp only at ha hb ⊢
  rw [Nat.zero_add] at hb
  rw [UInt32.toNat_or, UInt32.toNat_shiftLeft, ← ha, ← hb]
  have hb' : b.toNat < 65521 := hb ▸ Nat.mod_lt _ (by decide)
  have ha' : a.toNat < 2 ^ 16 := (ha ▸ Nat.mod_lt _ (by decide) : a.toNat < 65521).trans (by decide)
  have hshift : b.toNat <<< 16 % 2 ^ 32 = b.toNat <<< 16 := by
    rw [Nat.shiftLeft_eq]
    exact Nat.mod_eq_of_lt (by omega)
  change b.toNat <<< 16 % 2 ^ 32 ||| a.toNat = _
  rw [hshift, ← Nat.shiftLeft_add_eq_or_of_lt ha', Nat.shiftLeft_eq]

end IdtxCore.MiniPng
