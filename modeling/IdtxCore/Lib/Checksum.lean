import Mathlib.Algebra.BigOperators.Group.List.Basic
import Mathlib.Data.BitVec
import Mathlib.Logic.Function.Iterate

/-!
# Checksums

The CRC of a byte string is defined bit by bit: the register is shifted down, and the polynomial is added where a one
was shifted out. A shift is linear (`shift_xor`), so eight of them do to the low byte what a table of 256 entries can
hold, and only move the rest (`iterate_shift_eq`). Adding a byte and shifting eight times is the same as taking
its bits one at a time (`crc_eq_foldl_feedBit`).

Adler-32 is the sum of the bytes and the sum of the partial sums, both modulo 65521.
-/

namespace Checksum

/-! ### Cyclic redundancy check, low bit first -/

section Crc
variable {w : Nat} {poly : BitVec w}

def shift (poly c : BitVec w) : BitVec w := if c.getLsbD 0 then poly ^^^ c >>> 1 else c >>> 1

/-- The register after one more byte. -/
def feed (poly c : BitVec w) (b : UInt8) : BitVec w := (shift poly)^[8] (c ^^^ b.toBitVec.setWidth w)

/-- The CRC that starts from ones and is complemented at the end. -/
def crc (poly : BitVec w) (data : List UInt8) : BitVec w :=
  data.foldl (feed poly) (BitVec.allOnes w) ^^^ BitVec.allOnes w

def crc32 : List UInt8 → BitVec 32 := crc 0xEDB88320

theorem shift_xor (c d : BitVec w) : shift poly (c ^^^ d) = shift poly c ^^^ shift poly d := by
  have hcancel : poly ^^^ c >>> 1 ^^^ (poly ^^^ d >>> 1) = c >>> 1 ^^^ d >>> 1 := by
    rw [BitVec.xor_comm poly (c >>> 1), BitVec.xor_assoc, ← BitVec.xor_assoc poly, BitVec.xor_self, BitVec.zero_xor]
  unfold shift
  rw [BitVec.getLsbD_xor, BitVec.ushiftRight_xor_distrib]
  cases c.getLsbD 0 <;> cases d.getLsbD 0
  · rfl
  · have hright : poly ^^^ (c >>> 1 ^^^ d >>> 1) = c >>> 1 ^^^ (poly ^^^ d >>> 1) := by ac_rfl
    exact hright
  · exact (BitVec.xor_assoc ..).symm
  · exact hcancel.symm

theorem iterate_shift_xor (n : Nat) (c d : BitVec w) :
    (shift poly)^[n] (c ^^^ d) = (shift poly)^[n] c ^^^ (shift poly)^[n] d :=
  Function.Semiconj₂.iterate shift_xor n c d

/-- Zeros are only shifted out. -/
theorem iterate_shift_of_zeros {n : Nat} {c : BitVec w} (h : ∀ i < n, c.getLsbD i = false) :
    (shift poly)^[n] c = c >>> n := by
  induction n generalizing c with
  | zero => simp
  | succ n ih =>
    have hshift : shift poly c = c >>> 1 := by
      rw [shift, h 0 (by omega)]
      rfl
    rw [Function.iterate_succ_apply, hshift, ih, ← BitVec.shiftRight_add, Nat.add_comm]
    intro i hi
    rw [BitVec.getLsbD_ushiftRight]
    exact h (1 + i) (by omega)

/-- `n` shifts of a register: those of its low `n` bits, and the rest moved down. -/
theorem iterate_shift_eq {n : Nat} {c low : BitVec w} (hlow : low >>> n = 0#w)
    (h : ∀ i < n, low.getLsbD i = c.getLsbD i) : (shift poly)^[n] c = (shift poly)^[n] low ^^^ c >>> n := by
  have hsplit : c = low ^^^ (low ^^^ c) := by
    rw [← BitVec.xor_assoc, BitVec.xor_self, BitVec.zero_xor]
  have hzeros : ∀ i < n, (low ^^^ c).getLsbD i = false := by
    intro i hi
    rw [BitVec.getLsbD_xor, h i hi, Bool.xor_self]
  calc (shift poly)^[n] c
      = (shift poly)^[n] low ^^^ (shift poly)^[n] (low ^^^ c) := by rw [← iterate_shift_xor, ← hsplit]
    _ = (shift poly)^[n] low ^^^ c >>> n := by
      rw [iterate_shift_of_zeros hzeros, BitVec.ushiftRight_xor_distrib, hlow, BitVec.zero_xor]

/-- The register after one more bit of the message. -/
def feedBit (poly c : BitVec w) (bit : Bool) : BitVec w :=
  if c.getLsbD 0 ^^ bit then poly ^^^ c >>> 1 else c >>> 1

/-- The bits of a message, those of a byte from the low one up. -/
def messageBits (data : List UInt8) : List Bool :=
  data.flatMap fun b => (List.range 8).map b.toBitVec.getLsbD

/-- A register with a word added beforehand takes the bits of the word one after the other. -/
theorem iterate_shift_xor_eq (n : Nat) (c d : BitVec w) :
    (shift poly)^[n] (c ^^^ d) = ((List.range n).map d.getLsbD).foldl (feedBit poly) c ^^^ d >>> n := by
  induction n generalizing c d with
  | zero => simp
  | succ n ih =>
    have hfirst : shift poly (c ^^^ d) = feedBit poly c (d.getLsbD 0) ^^^ d >>> 1 := by
      unfold shift feedBit
      rw [BitVec.getLsbD_xor, BitVec.ushiftRight_xor_distrib]
      split
      · exact (BitVec.xor_assoc ..).symm
      · rfl
    have hrest : (List.range n).map (d >>> 1).getLsbD = (List.range n).map (d.getLsbD ∘ Nat.succ) := by
      refine List.map_congr_left fun i _ => ?_
      rw [BitVec.getLsbD_ushiftRight, Nat.add_comm]
      rfl
    rw [Function.iterate_succ_apply, hfirst, ih, hrest, List.range_succ_eq_map, List.map_cons, List.map_map,
      List.foldl_cons, ← BitVec.shiftRight_add, Nat.add_comm 1]

theorem feed_eq_foldl_feedBit (hw : 8 ≤ w) (c : BitVec w) (b : UInt8) :
    feed poly c b = ((List.range 8).map b.toBitVec.getLsbD).foldl (feedBit poly) c := by
  have hhigh : b.toBitVec.setWidth w >>> 8 = 0#w := by
    refine BitVec.eq_of_toNat_eq ?_
    have hlt := b.toNat_lt
    have hle : b.toNat % 2 ^ w ≤ b.toNat := Nat.mod_le ..
    simp only [BitVec.toNat_ushiftRight, BitVec.toNat_setWidth, UInt8.toNat_toBitVec, Nat.shiftRight_eq_div_pow,
      BitVec.toNat_ofNat, Nat.zero_mod]
    omega
  have hbits : (List.range 8).map (b.toBitVec.setWidth w).getLsbD = (List.range 8).map b.toBitVec.getLsbD := by
    refine List.map_congr_left fun i hi => ?_
    have hlt : i < w := by
      have := List.mem_range.1 hi
      omega
    simp [hlt]
  rw [feed, iterate_shift_xor_eq, hhigh, BitVec.xor_zero, hbits]

/-- The CRC takes a message bit by bit. -/
theorem crc_eq_foldl_feedBit (hw : 8 ≤ w) (data : List UInt8) :
    crc poly data = (messageBits data).foldl (feedBit poly) (BitVec.allOnes w) ^^^ BitVec.allOnes w := by
  unfold crc messageBits
  rw [List.foldl_flatMap]
  congr 2
  funext c b
  exact feed_eq_foldl_feedBit hw c b

end Crc

/-! ### Adler-32 -/

/-- The partial sums of the bytes, which start from 1. -/
def partialSums (data : List UInt8) : List Nat := ((data.map UInt8.toNat).scanl (· + ·) 1).tail

def adler32 (data : List UInt8) : Nat :=
  (partialSums data).sum % 65521 * 2 ^ 16 + (1 + (data.map UInt8.toNat).sum) % 65521

end Checksum
