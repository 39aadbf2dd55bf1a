import IdtxCore.Lib.Png
import IdtxCore.MiniPng
import Mathlib.Algebra.Order.BigOperators.Group.List
import Mathlib.Algebra.Order.Group.Nat

/-!
# What is written decodes to the image

The layers of the file are taken one by one: the chunks, the stored blocks of the zlib stream, the scanlines. Each is
read back by the reader of its format, and what is left over is nothing.

The length of a row, `width * 3u`, is computed with 32 bits. The buffer is checked against the dimensions with 64 bits,
so an image whose rows have 2^32 bytes or more is accepted, and its rows are cut short (`decode_write_iff`).
-/

namespace IdtxCore.MiniPng

/-! ### Numbers -/

theorem and_255 (n : Nat) : n &&& 255 = n % 256 := Nat.and_two_pow_sub_one_eq_mod n 8

theorem appendBE32_eq (v : List UInt8) (x : UInt32) : appendBE32 v x = v ++ appendBE32 [] x := rfl

theorem foldl_appendBE32 (x : UInt32) : (appendBE32 [] x).foldl (fun v b => v * 256 + b.toNat) 0 = x.toNat := by
  have hlt := x.toNat_lt
  simp [appendBE32, Nat.shiftRight_eq_div_pow, and_255]
  omega

theorem foldr_le16 (x : UInt16) :
    [(x &&& 0xFF).toUInt8, ((x >>> 8) &&& 0xFF).toUInt8].foldr (fun b v => v * 256 + b.toNat) 0 = x.toNat := by
  have hlt := x.toNat_lt
  simp [Nat.shiftRight_eq_div_pow, and_255]
  omega

/-! ### Chunks -/

/-- What `writeChunk` appends. -/
def chunkBytes (type data : List UInt8) : List UInt8 :=
  appendBE32 [] (.ofNat data.length) ++ (type ++ (data ++ appendBE32 [] (crc32 (type ++ data))))

theorem writeChunk_eq (out : List UInt8) (type : Vector Char 4) (data : List UInt8) :
    writeChunk out type data = out ++ chunkBytes (type.toList.map (·.val.toUInt8)) data := by
  unfold writeChunk chunkBytes
  simp only [appendBE32_eq out]
  rw [appendBE32_eq, List.append_assoc _ _ data, List.drop_left, List.append_assoc, List.append_assoc,
    List.append_assoc]

theorem reads_chunkBytes {type data : List UInt8} (htype : type.length = 4) (hdata : data.length < 2 ^ 31) :
    Png.Reads Png.chunk (chunkBytes type data) ⟨type, data⟩ := by
  refine Png.reads_chunk rfl ?_ hdata htype rfl ?_
  · rw [foldl_appendBE32]
    exact UInt32.toNat_ofNat_of_lt' (hdata.trans (by decide))
  · rw [foldl_appendBE32, ← toBitVec_crc32]
    rfl

/-! ### The zlib stream -/

def block (last : Bool) (data : List UInt8) : List UInt8 := blockHeader last data.length ++ data

theorem length_block (last : Bool) (data : List UInt8) : (block last data).length = 5 + data.length :=
  List.length_append

theorem reads_block (last : Bool) {data : List UInt8} (h : data.length ≤ kMax) :
    Png.Reads Png.storedBlock (block last data) (last, data) := by
  have hlen : (UInt16.ofNat data.length).toNat = data.length := UInt16.toNat_ofNat_of_lt' (Nat.lt_succ_of_le h)
  have hnlen : (~~~UInt16.ofNat data.length).toNat = 65535 - data.length := by
    rw [UInt16.toNat_not, hlen]
    rfl
  have hfields := Png.reads_storedBlock last rfl rfl ((foldr_le16 _).trans hlen) rfl ((foldr_le16 _).trans hnlen)
  exact hfields

theorem length_take_kMax {raw : List UInt8} {offset : Nat} (h : ¬raw.length - offset ≤ kMax) :
    ((raw.drop offset).take kMax).length = kMax := by
  rw [List.length_take, List.length_drop]
  omega

theorem storedBlocks_eq (raw z : List UInt8) (offset : Nat) (h : offset ≤ raw.length) :
    storedBlocks raw z offset h =
      if hlast : raw.length - offset ≤ kMax then z ++ block true (raw.drop offset)
      else storedBlocks raw (z ++ block false ((raw.drop offset).take kMax)) (offset + kMax) (by omega) := by
  have happend : ∀ (z : List UInt8) (n : Nat),
      (if n > 0 then z ++ (raw.drop offset).take n else z) = z ++ (raw.drop offset).take n := by
    intro z n
    cases n <;> simp
  rw [storedBlocks]
  simp only [happend]
  by_cases hlast : raw.length - offset ≤ kMax
  · have hend : offset + (raw.length - offset) = raw.length := by omega
    have hdata : (raw.drop offset).take (raw.length - offset) = raw.drop offset :=
      List.take_of_length_le (List.length_drop ..).le
    rw [dif_pos hlast, block, List.length_drop]
    simp only [if_neg (Nat.not_lt.2 hlast), hend, decide_true, hdata, List.append_assoc, dite_true]
  · have hmore : raw.length - offset > kMax := Nat.not_le.1 hlast
    have hend : decide (offset + kMax = raw.length) = false := decide_eq_false (by omega)
    -- `simp` would have the kernel evaluate the test, which counts up to `kMax`
    have hloop : ¬decide (offset + kMax = raw.length) = true := Bool.eq_false_iff.1 hend
    simp only [if_pos hmore]
    rw [dif_neg hloop, dif_neg hlast, hend, block, length_take_kMax hlast, List.append_assoc]

/-- The bytes that the blocks take for `n` bytes of data: five more a block, of which there is at least one. -/
def blocksLength (n : Nat) : Nat := n + 5 * ((n - 1) / kMax + 1)

theorem blocksLength_of_le {n : Nat} (h : n ≤ kMax) : blocksLength n = 5 + n := by
  have hk : 0 < kMax := by decide
  rw [blocksLength, Nat.div_eq_of_lt (by omega), Nat.add_comm]

theorem blocksLength_add {n : Nat} (h : 0 < n) : blocksLength (n + kMax) = 5 + kMax + blocksLength n := by
  have hdiv : (n + kMax - 1) / kMax = (n - 1) / kMax + 1 := by
    rw [Nat.sub_add_comm h, Nat.add_div_right _ (by decide)]
  rw [blocksLength, blocksLength, hdiv]
  omega

/-- The loop appends blocks that hold the rest of the bytes. -/
theorem storedBlocks_spec (raw z : List UInt8) (offset : Nat) (h : offset ≤ raw.length) :
    ∃ blocks, storedBlocks raw z offset h = z ++ blocks ∧ blocks.length = blocksLength (raw.length - offset) ∧
      ∀ n, blocks.length ≤ n → Png.Reads (Png.storedBlocks n) blocks (raw.drop offset) := by
  induction hrest : raw.length - offset using Nat.strong_induction_on generalizing z offset with
  | _ rest ih =>
    subst hrest
    rw [storedBlocks_eq]
    by_cases hlast : raw.length - offset ≤ kMax
    · have hdata : (raw.drop offset).length = raw.length - offset := List.length_drop
      have hlength := length_block true (raw.drop offset)
      rw [dif_pos hlast, blocksLength_of_le hlast, ← hdata]
      refine ⟨_, rfl, hlength, fun n hn => ?_⟩
      obtain ⟨n, rfl⟩ : ∃ n', n = n' + 1 := ⟨n - 1, by omega⟩
      exact Png.reads_storedBlocks_last (reads_block true (hdata.trans_le hlast))
    · have hk : 0 < kMax := by decide
      have hdata := length_take_kMax hlast
      have hlength := length_block false ((raw.drop offset).take kMax)
      have hsplit : raw.length - offset = raw.length - (offset + kMax) + kMax := by omega
      rw [dif_neg hlast]
      obtain ⟨blocks, heq, hblocks, hreads⟩ := ih _ (by omega) (z ++ _) (offset + kMax) (by omega) rfl
      refine ⟨block false ((raw.drop offset).take kMax) ++ blocks, ?_, ?_, fun n hn => ?_⟩
      · rw [heq, List.append_assoc]
      · rw [List.length_append, hlength, hdata, hblocks, ← blocksLength_add (by omega), ← hsplit]
      · rw [List.length_append, hlength] at hn
        obtain ⟨n, rfl⟩ : ∃ n', n = n' + 1 := ⟨n - 1, by omega⟩
        have hall := Png.reads_storedBlocks_cons (reads_block false hdata.le) (hreads n (by omega))
        rwa [← List.drop_drop, List.take_append_drop] at hall

theorem zlibWrapStored_spec (raw : List UInt8) : (zlibWrapStored raw).length = blocksLength raw.length + 6 ∧
    Png.Reads (Png.zlib (zlibWrapStored raw).length) (zlibWrapStored raw) raw := by
  obtain ⟨blocks, heq, hlength, hreads⟩ := storedBlocks_spec raw [0x78, 0x01] 0 (Nat.zero_le _)
  have hstream : zlibWrapStored raw = [0x78] ++ ([0x01] ++ (blocks ++ appendBE32 [] (adler32 raw))) := by
    rw [zlibWrapStored, heq, appendBE32_eq, List.append_assoc]
    rfl
  have htotal : (zlibWrapStored raw).length = blocks.length + 6 := by
    rw [hstream]
    simp [appendBE32]
  refine ⟨htotal.trans (by rw [hlength, Nat.sub_zero]), ?_⟩
  rw [htotal, hstream]
  exact Png.reads_zlib (by decide) (hreads _ (by omega)) rfl ((foldl_appendBE32 _).trans (toNat_adler32 raw))

theorem length_zlibWrapStored {raw : List UInt8} (h : raw.length ≤ kMax) :
    (zlibWrapStored raw).length = raw.length + 11 := by
  rw [(zlibWrapStored_spec raw).1, blocksLength_of_le h]
  omega

/-! ### Scanlines -/

/-- Row `y` of the image, as it is copied. -/
def row (width : UInt32) (rgb : Buffer) (y : Nat) : List UInt8 :=
  (rgb.bytes.drop ((UInt64.ofNat y) * width.toUInt64 * 3).toNat).take (width * 3).toNat

variable {width height : UInt32} {rgb : Buffer}

theorem scanlines_eq (width height : UInt32) (rgb : Buffer) : scanlines width height rgb =
    ((List.range height.toNat).map (row width rgb)).flatMap fun row => [0] ++ row := by
  rw [List.flatMap_map, List.flatMap_eq_foldl, scanlines]
  simp only [List.append_assoc, row]

theorem length_scanlines_le : (scanlines width height rgb).length ≤ height.toNat * (1 + (width * 3).toNat) := by
  have hrow : ∀ y ∈ List.range height.toNat, ([0] ++ row width rgb y).length ≤ 1 + (width * 3).toNat := by
    intro y _
    rw [List.length_append]
    exact Nat.add_le_add_left (List.length_take_le ..) 1
  rw [scanlines_eq, List.flatMap_map, List.length_flatMap]
  have hsum := List.sum_le_card_nsmul ((List.range height.toNat).map fun y => ([0] ++ row width rgb y).length)
    (1 + (width * 3).toNat) (by simpa using hrow)
  simpa using hsum

theorem row_eq (hsize : rgb.bytes.length = 3 * width.toNat * height.toNat) (hwidth : 3 * width.toNat < 2 ^ 32) {y : Nat}
    (hy : y < height.toNat) : row width rgb y = (rgb.bytes.drop (y * (3 * width.toNat))).take (3 * width.toNat) := by
  have hlength : (width * 3).toNat = 3 * width.toNat := by
    rw [UInt32.toNat_mul, Nat.mul_comm]
    exact Nat.mod_eq_of_lt hwidth
  have hoffset : (UInt64.ofNat y * width.toUInt64 * 3).toNat = y * (3 * width.toNat) := by
    have hlt : y * (3 * width.toNat) < 2 ^ 64 := by
      calc y * (3 * width.toNat) ≤ height.toNat * (3 * width.toNat) := Nat.mul_le_mul_right _ hy.le
        _ = rgb.bytes.length := by rw [hsize, Nat.mul_comm]
        _ < 2 ^ 64 := rgb.size_lt
    have heq : y * width.toNat * 3 = y * (3 * width.toNat) := by rw [Nat.mul_assoc, Nat.mul_comm 3]
    have hmul : (UInt64.ofNat y * width.toUInt64 * 3).toNat = y * width.toNat * 3 % 2 ^ 64 := by
      simp [UInt64.toNat_mul]
    rw [hmul, heq]
    exact Nat.mod_eq_of_lt hlt
  rw [row, hlength, hoffset]

theorem reads_scanlines (hsize : rgb.bytes.length = 3 * width.toNat * height.toNat)
    (hwidth : 3 * width.toNat < 2 ^ 32) :
    Png.Reads (Png.scanlines (3 * width.toNat) height.toNat) (scanlines width height rgb) rgb.bytes := by
  have hrows : (List.range height.toNat).map (row width rgb) =
      (List.range height.toNat).map fun y => (rgb.bytes.drop (y * (3 * width.toNat))).take (3 * width.toNat) :=
    List.map_congr_left fun y hy => row_eq hsize hwidth (List.mem_range.1 hy)
  have hall := Png.flatten_rows height.toNat (3 * width.toNat) rgb.bytes
  rw [List.take_of_length_le (by rw [hsize, Nat.mul_comm]), ← hrows] at hall
  have hlength : ∀ r ∈ (List.range height.toNat).map (row width rgb), r.length = 3 * width.toNat := by
    intro r hr
    obtain ⟨y, hy, rfl⟩ := List.mem_map.1 hr
    have hlast : (y + 1) * (3 * width.toNat) ≤ rgb.bytes.length := by
      rw [hsize, Nat.mul_comm _ height.toNat]
      exact Nat.mul_le_mul_right _ (List.mem_range.1 hy)
    rw [Nat.succ_mul] at hlast
    rw [row_eq hsize hwidth (List.mem_range.1 hy), List.length_take, List.length_drop]
    omega
  have h := Png.reads_scanlines hlength
  rwa [hall, List.length_map, List.length_range, ← scanlines_eq] at h

theorem reads_header (width height : UInt32) :
    Png.Reads Png.header (appendBE32 (appendBE32 [] width) height ++ [8, 2, 0, 0, 0])
      (width.toNat, height.toNat) := by
  have h₁ := Png.Reads.bigEndian (appendBE32 [] width)
  have h₂ := Png.Reads.bigEndian (appendBE32 [] height)
  rw [foldl_appendBE32] at h₁ h₂
  rw [appendBE32_eq (appendBE32 [] width), List.append_assoc]
  exact h₁.bind (h₂.bind ((Png.Reads.take [8, 2, 0, 0, 0]).bind_last (.guarded rfl (.pure _))))

/-! ### The file -/

theorem out_eq (width height : UInt32) (rgb : Buffer) : out width height rgb = Png.signature ++
    (chunkBytes Png.ihdr (appendBE32 (appendBE32 [] width) height ++ [8, 2, 0, 0, 0]) ++
      (chunkBytes Png.idat (zlibWrapStored (scanlines width height rgb)) ++ chunkBytes Png.iend [])) := by
  unfold out
  simp only [writeChunk_eq]
  rw [List.append_assoc, List.append_assoc]
  rfl

theorem decode_out (hstream : (zlibWrapStored (scanlines width height rgb)).length < 2 ^ 31) :
    Png.decode (out width height rgb) =
      if 0 < width.toNat ∧ width.toNat < 2 ^ 31 ∧ 0 < height.toNat ∧ height.toNat < 2 ^ 31 then
        (Png.parse (Png.scanlines (3 * width.toNat) height.toNat) (scanlines width height rgb)).map
          (⟨width.toNat, height.toNat, ·⟩)
      else none := by
  rw [out_eq]
  refine Png.decode_eq ?_ (reads_header width height) (zlibWrapStored_spec _).2
  generalize hbytes : chunkBytes Png.ihdr _ ++ _ = bytes
  obtain ⟨n, hn⟩ : ∃ n, (Png.signature ++ bytes).length = n + 3 :=
    ⟨bytes.length + 5, List.length_append.trans (Nat.add_comm ..)⟩
  rw [hn, ← hbytes]
  have hheader : (appendBE32 (appendBE32 [] width) height ++ [8, 2, 0, 0, 0]).length = 13 := rfl
  have hihdr : Png.ihdr ≠ Png.iend := by decide
  have hidat : Png.idat ≠ Png.iend := by decide
  refine Png.reads_chunks_cons (reads_chunkBytes rfl (hheader.trans_lt (by decide))) hihdr ?_
  refine Png.reads_chunks_cons (reads_chunkBytes rfl hstream) hidat ?_
  exact Png.reads_chunks_last (reads_chunkBytes rfl (by decide)) rfl

theorem toOption_write (hw : width ≠ 0) (hh : height ≠ 0) (hsize : rgb.bytes.length = 3 * width.toNat * height.toNat) :
    (write {} width height rgb).toOption = some (out width height rgb) := by
  have hcheck : rgb.size = width.toUInt64 * height.toUInt64 * 3 := by
    have heq : width.toNat * height.toNat * 3 = rgb.bytes.length := by rw [hsize, Nat.mul_comm, Nat.mul_assoc]
    have hmul : (width.toUInt64 * height.toUInt64 * 3).toNat = width.toNat * height.toNat * 3 % 2 ^ 64 := by
      simp [UInt64.toNat_mul]
    refine UInt64.toNat_inj.1 ?_
    rw [hmul, heq]
    exact UInt64.toNat_ofNat'
  have hok : write {} width height rgb = .ok (out width height rgb) := by simp [write, hw, hh, hcheck]
  rw [hok]
  rfl

theorem decode_out_of_lt (hw : width ≠ 0) (hh : height ≠ 0)
    (hsize : rgb.bytes.length = 3 * width.toNat * height.toNat) (hwidth : 3 * width.toNat < 2 ^ 32)
    (hstream : (zlibWrapStored (scanlines width height rgb)).length < 2 ^ 31) :
    Png.decode (out width height rgb) = some ⟨width.toNat, height.toNat, rgb.bytes⟩ := by
  have hparse := (reads_scanlines hsize hwidth).parse
  have hlength := (Png.consumes_scanlines _ _).parse hparse
  have hpos : 0 < width.toNat ∧ 0 < height.toNat :=
    ⟨Nat.pos_of_ne_zero fun h => hw (UInt32.toNat_inj.1 h), Nat.pos_of_ne_zero fun h => hh (UInt32.toNat_inj.1 h)⟩
  have hheight : height.toNat ≤ (scanlines width height rgb).length := by
    rw [hlength]
    exact Nat.le_mul_of_pos_right _ (by omega)
  have hlong : (scanlines width height rgb).length < 2 ^ 31 := by
    rw [(zlibWrapStored_spec _).1, blocksLength] at hstream
    omega
  rw [decode_out hstream, if_pos ⟨hpos.1, by omega, hpos.2, by omega⟩, hparse]
  rfl

/-- The rows are cut to the lower 32 bits of their length. -/
theorem decode_out_of_le (hh : height ≠ 0) (hwidth : 2 ^ 32 ≤ 3 * width.toNat)
    (hstream : (zlibWrapStored (scanlines width height rgb)).length < 2 ^ 31) :
    Png.decode (out width height rgb) = none := by
  have hpos : 0 < height.toNat := Nat.pos_of_ne_zero fun h => hh (UInt32.toNat_inj.1 h)
  have hcut : (width * 3).toNat < 3 * width.toNat := (width * 3).toNat_lt.trans_le hwidth
  have hshort : (scanlines width height rgb).length < height.toNat * (1 + 3 * width.toNat) :=
    length_scanlines_le.trans_lt (Nat.mul_lt_mul_of_pos_left (by omega) hpos)
  have hparse : Png.parse (Png.scanlines (3 * width.toNat) height.toNat) (scanlines width height rgb) = none := by
    refine Option.eq_none_iff_forall_ne_some.2 fun pixels hsome => ?_
    exact hshort.ne ((Png.consumes_scanlines _ _).parse hsome)
  rw [decode_out hstream, hparse]
  exact ite_self _

/-- Of the images whose stream fits into a chunk, those decode to what was written whose rows have less than 2^32
bytes. -/
theorem decode_write_iff (hw : width ≠ 0) (hh : height ≠ 0)
    (hsize : rgb.bytes.length = 3 * width.toNat * height.toNat)
    (hstream : (zlibWrapStored (scanlines width height rgb)).length < 2 ^ 31) :
    (write {} width height rgb).toOption.bind Png.decode = some ⟨width.toNat, height.toNat, rgb.bytes⟩ ↔
      3 * width.toNat < 2 ^ 32 := by
  rw [toOption_write hw hh hsize, Option.bind_some]
  constructor
  · intro h
    by_contra hge
    rw [decode_out_of_le hh (Nat.not_lt.1 hge) hstream] at h
    cases h
  · intro hwidth
    exact decode_out_of_lt hw hh hsize hwidth hstream

/-- A white pixel above a red one. -/
def twoPixels : Buffer := ⟨[255, 255, 255, 255, 0, 0], by decide⟩

theorem decode_write_twoPixels :
    (write {} 1 2 twoPixels).toOption.bind Png.decode = some ⟨1, 2, [255, 255, 255, 255, 0, 0]⟩ := by
  have hscanlines : (scanlines 1 2 twoPixels).length ≤ 8 := length_scanlines_le
  have hlength := length_zlibWrapStored (hscanlines.trans (by decide))
  have hstream : (zlibWrapStored (scanlines 1 2 twoPixels)).length < 2 ^ 31 := by omega
  have hsize : twoPixels.bytes.length = 3 * (1 : UInt32).toNat * (2 : UInt32).toNat := rfl
  have hiff := decode_write_iff (by decide) (by decide) hsize hstream
  exact hiff.2 (by decide)

/-- One row of 2^32 + 2 bytes, of which two are written. -/
def wideRow : Buffer where
  bytes := List.replicate 4294967298 0
  size_lt := by
    rw [List.length_replicate]
    decide

theorem length_wideRow : wideRow.bytes.length = 4294967298 := List.length_replicate

theorem decode_write_wideRow : wideRow.bytes.length = 3 * (1431655766 : UInt32).toNat * (1 : UInt32).toNat ∧
    (zlibWrapStored (scanlines 1431655766 1 wideRow)).length < 2 ^ 31 ∧
    (write {} 1431655766 1 wideRow).toOption.bind Png.decode ≠ some ⟨1431655766, 1, wideRow.bytes⟩ := by
  have hsize : wideRow.bytes.length = 3 * (1431655766 : UInt32).toNat * (1 : UInt32).toNat := length_wideRow
  have hscanlines : (scanlines 1431655766 1 wideRow).length ≤ 3 := length_scanlines_le
  have hlength := length_zlibWrapStored (hscanlines.trans (by decide))
  have hstream : (zlibWrapStored (scanlines 1431655766 1 wideRow)).length < 2 ^ 31 := by omega
  refine ⟨hsize, hstream, ?_⟩
  rw [toOption_write (by decide) (by decide) hsize, Option.bind_some, decode_out_of_le (by decide) (by decide) hstream]
  exact nofun

end IdtxCore.MiniPng
