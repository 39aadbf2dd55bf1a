import Mathlib.Data.Nat.Bitwise

/-!
# Serial numbers

A counter that is kept in `w` bits wraps modulo `2 ^ w`. Two such counters are compared by their two's-complement
difference, which is the true one as long as the counters are less than half the range apart (`difference_ofNat`).
Masking with `c - 1`, for a power of two `c`, sees no wrap at all (`toNat_and_mask`).
-/

namespace Serial
variable {w : Nat} {m n : Nat}

/-- The signed difference of two wrapping counters. -/
def difference (a b : BitVec w) : Int := (a - b).toInt

theorem difference_ofNat (hw : 0 < w) (hlow : n ≤ m + 2 ^ (w - 1)) (hhigh : m < n + 2 ^ (w - 1)) :
    difference (BitVec.ofNat w m) (BitVec.ofNat w n) = (m : Int) - n := by
  have hhalf : 2 ^ w = 2 * 2 ^ (w - 1) := by rw [← Nat.pow_succ', Nat.succ_eq_add_one, Nat.sub_add_cancel hw]
  rw [difference, BitVec.toInt_sub, BitVec.toInt_ofNat', BitVec.toInt_ofNat', ← Int.sub_bmod, hhalf]
  generalize 2 ^ (w - 1) = half at hlow hhigh
  exact Int.bmod_eq_of_le_mul_two (by omega) (by omega)

/-- Counters less than the range apart are told apart. -/
theorem ofNat_inj (hle : n ≤ m) (hlt : m < n + 2 ^ w) : BitVec.ofNat w m = BitVec.ofNat w n ↔ m = n := by
  constructor
  · intro h
    have hmod : m % 2 ^ w = n % 2 ^ w := by simpa using congrArg BitVec.toNat h
    have hzero : (m - n) % 2 ^ w = 0 := Nat.sub_mod_eq_zero_of_mod_eq hmod
    rw [Nat.mod_eq_of_lt (by omega)] at hzero
    omega
  · rintro rfl
    rfl

theorem toNat_and_mask {k : Nat} (hk : k ≤ w) :
    (BitVec.ofNat w n &&& BitVec.ofNat w (2 ^ k - 1)).toNat = n &&& (2 ^ k - 1) := by
  have hpow : 2 ^ k ≤ 2 ^ w := Nat.pow_le_pow_right Nat.two_pos hk
  have hmask : 2 ^ k - 1 < 2 ^ w := by have := Nat.two_pow_pos k; omega
  rw [BitVec.toNat_and, BitVec.toNat_ofNat, BitVec.toNat_ofNat, Nat.mod_eq_of_lt hmask,
    Nat.and_two_pow_sub_one_eq_mod, Nat.and_two_pow_sub_one_eq_mod, Nat.mod_mod_of_dvd _ (Nat.pow_dvd_pow 2 hk)]

end Serial
