/-
**Masks, low bits and single-bit flips on natural numbers.**

Fixed-width code rounds, aligns and walks binary trees with bit operations; proofs about it want
quotients, remainders and divisibility.  This module translates the idioms once: clearing low
bits, testing them, setting or flipping the bit just above an aligned number.

Main results:

* `Bits.and_high_mask` — clearing the low `k` bits is rounding down to a multiple of `2 ^ k`;
* `Bits.and_low_mask_eq_zero_iff` — testing the low `k` bits is testing divisibility;
* `Bits.or_two_pow_of_dvd`, `Bits.xor_two_pow_of_dvd`, `Bits.xor_two_pow_of_not_dvd`,
  `Bits.and_compl_two_pow_of_dvd` — the bit `k` of a multiple of `2 ^ k`, set, flipped and cleared;
* `Bits.or_low_mask` — filling the low bits;
* `Bits.and_mask_or`, `Bits.and_not_mask_or` — a machine word made of two disjoint fields gives
  both back, and is made of them (`Bits.and_mask_or_and_not_mask`);
* `Bits.and_mask_of_dvd`, `Bits.or_eq_add_of_dvd` — an aligned machine word as a field.
-/

import Mathlib

set_option relaxedAutoImplicit false
set_option autoImplicit false

namespace Bits

/-! ### Clearing and testing the low bits -/

/-- Clearing the low `k` bits of an `n`-bit number rounds it down to a multiple of `2 ^ k`. -/
theorem and_high_mask {x n k : ℕ} (hk : k ≤ n) (hx : x < 2 ^ n) :
    x &&& (2 ^ n - 2 ^ k) = x / 2 ^ k * 2 ^ k := by
  have hmask : 2 ^ n - 2 ^ k = (2 ^ (n - k) - 1) * 2 ^ k := by
    rw [Nat.sub_mul, one_mul, ← pow_add, Nat.sub_add_cancel hk]
  refine Nat.eq_of_testBit_eq fun i => ?_
  rw [Nat.testBit_and, hmask, Nat.testBit_mul_two_pow, Nat.testBit_mul_two_pow,
    Nat.testBit_two_pow_sub_one, Nat.testBit_div_two_pow]
  by_cases hi : k ≤ i
  · by_cases hin : i < n
    · simp [hi, show i - k < n - k by omega, Nat.sub_add_cancel hi]
    · have hzero : x.testBit i = false :=
        Nat.testBit_lt_two_pow (lt_of_lt_of_le hx (Nat.pow_le_pow_right (by decide) (by omega)))
      simp [Nat.sub_add_cancel hi, hzero]
  · simp [hi]

/-- The low `k` bits are all clear exactly on the multiples of `2 ^ k`. -/
theorem and_low_mask_eq_zero_iff {x k : ℕ} : x &&& (2 ^ k - 1) = 0 ↔ 2 ^ k ∣ x := by
  rw [Nat.and_two_pow_sub_one_eq_mod, Nat.dvd_iff_mod_eq_zero]

/-- Filling the low `k` bits reaches the last number before the next multiple of `2 ^ k`. -/
theorem or_low_mask (x k : ℕ) : x ||| (2 ^ k - 1) = x / 2 ^ k * 2 ^ k + (2 ^ k - 1) := by
  have hlt : 2 ^ k - 1 < 2 ^ k := Nat.sub_lt (Nat.two_pow_pos k) one_pos
  rw [mul_comm, Nat.two_pow_add_eq_or_of_lt hlt]
  refine Nat.eq_of_testBit_eq fun i => ?_
  rw [Nat.testBit_or, Nat.testBit_or, Nat.testBit_two_pow_mul, Nat.testBit_two_pow_sub_one,
    Nat.testBit_div_two_pow]
  by_cases hi : i < k
  · simp [hi]
  · simp [hi, Nat.sub_add_cancel (Nat.le_of_not_lt hi), Nat.le_of_not_lt hi]

/-! ### The bit above an aligned number -/

/-- Setting a bit that an aligned number has clear adds it. -/
theorem or_two_pow_of_dvd {i k : ℕ} (h : 2 ^ (k + 1) ∣ i) : i ||| 2 ^ k = i + 2 ^ k := by
  obtain ⟨q, rfl⟩ := h
  exact (Nat.two_pow_add_eq_or_of_lt (Nat.pow_lt_pow_right (by decide) (Nat.lt_succ_self k)) q).symm

/-- Flipping a bit that an aligned number has clear adds it. -/
theorem xor_two_pow_of_dvd {i k : ℕ} (h : 2 ^ (k + 1) ∣ i) : i ^^^ 2 ^ k = i + 2 ^ k := by
  rw [← or_two_pow_of_dvd h]
  obtain ⟨q, rfl⟩ := h
  refine Nat.eq_of_testBit_eq fun j => ?_
  rw [Nat.testBit_xor, Nat.testBit_or, Nat.testBit_two_pow, Nat.testBit_two_pow_mul]
  by_cases hj : k = j
  · subst hj
    simp
  · simp [hj]

/-- A multiple of `2 ^ k` that is no multiple of `2 ^ (k + 1)` lies `2 ^ k` above one. -/
theorem dvd_sub_two_pow {i k : ℕ} (h : 2 ^ k ∣ i) (hodd : ¬ 2 ^ (k + 1) ∣ i) :
    2 ^ k ≤ i ∧ 2 ^ (k + 1) ∣ i - 2 ^ k := by
  obtain ⟨q, rfl⟩ := h
  rw [pow_succ, Nat.mul_dvd_mul_iff_left (Nat.two_pow_pos k)] at hodd
  obtain ⟨r, rfl⟩ : ∃ r, q = 2 * r + 1 := ⟨q / 2, by omega⟩
  rw [mul_add, mul_one, Nat.add_sub_cancel]
  exact ⟨Nat.le_add_left _ _, ⟨r, by rw [pow_succ, mul_assoc]⟩⟩

/-- Flipping a bit that an aligned number has set subtracts it. -/
theorem xor_two_pow_of_not_dvd {i k : ℕ} (h : 2 ^ k ∣ i) (hodd : ¬ 2 ^ (k + 1) ∣ i) :
    i ^^^ 2 ^ k = i - 2 ^ k := by
  obtain ⟨hle, hdvd⟩ := dvd_sub_two_pow h hodd
  calc i ^^^ 2 ^ k = (i - 2 ^ k + 2 ^ k) ^^^ 2 ^ k := by rw [Nat.sub_add_cancel hle]
    _ = (i - 2 ^ k) ^^^ 2 ^ k ^^^ 2 ^ k := by rw [xor_two_pow_of_dvd hdvd]
    _ = i - 2 ^ k := by rw [Nat.xor_assoc, Nat.xor_self, Nat.xor_zero]

/-- Clearing the lowest bit that an aligned number can have set rounds it down to the next
alignment. -/
theorem and_compl_two_pow_of_dvd {i k n : ℕ} (h : 2 ^ k ∣ i) (hk : k < n) (hi : i < 2 ^ n) :
    i &&& (2 ^ n - 1 - 2 ^ k) = i / 2 ^ (k + 1) * 2 ^ (k + 1) := by
  rw [← and_high_mask hk hi]
  have hkn : 2 ^ k < 2 ^ n := Nat.pow_lt_pow_right (by decide) hk
  refine Nat.eq_of_testBit_eq fun j => ?_
  have hcompl : ∀ m < 2 ^ n, (2 ^ n - 1 - m).testBit j = (decide (j < n) && !m.testBit j) := by
    intro m hm
    rw [Nat.sub_sub, add_comm, Nat.testBit_two_pow_sub_succ hm]
  have hhigh : 2 ^ n - 2 ^ (k + 1) = 2 ^ n - 1 - (2 ^ (k + 1) - 1) := by
    have := Nat.two_pow_pos (k + 1)
    omega
  rw [Nat.testBit_and, Nat.testBit_and, hcompl _ hkn, hhigh, hcompl _ (by
    have : 2 ^ (k + 1) ≤ 2 ^ n := Nat.pow_le_pow_right (by decide) hk
    have := Nat.two_pow_pos (k + 1)
    omega), Nat.testBit_two_pow, Nat.testBit_two_pow_sub_one]
  by_cases hj : j < k
  · -- the bits below `k` are clear in `i` itself
    have hclear : i.testBit j = false := by
      obtain ⟨q, rfl⟩ := h
      rw [Nat.testBit_two_pow_mul]
      simp [hj]
    simp [hclear]
  · rcases Nat.eq_or_lt_of_le (Nat.le_of_not_lt hj) with rfl | hlt
    · simp
    · simp [show k ≠ j by omega, show ¬ j < k + 1 by omega]

/-! ### Fields of a machine word -/

variable {w : ℕ}

/-- The field under a mask, read back. -/
theorem and_mask_or {x y mask : BitVec w} (hx : x &&& mask = x) (hy : y &&& mask = 0) :
    (x ||| y) &&& mask = x := by
  rw [BitVec.and_comm, BitVec.and_or_distrib_left, BitVec.and_comm mask x, hx,
    BitVec.and_comm mask y, hy]
  simp

/-- The field outside a mask, read back. -/
theorem and_not_mask_or {x y mask : BitVec w} (hx : x &&& mask = x) (hy : y &&& mask = 0) :
    (x ||| y) &&& ~~~mask = y := by
  refine BitVec.eq_of_getLsbD_eq fun i hi => ?_
  have hxi := congrArg (fun z => BitVec.getLsbD z i) hx
  have hyi := congrArg (fun z => BitVec.getLsbD z i) hy
  simp only [BitVec.getLsbD_and] at hxi hyi
  simp only [BitVec.getLsbD_and, BitVec.getLsbD_or, BitVec.getLsbD_not, hi, decide_true,
    Bool.true_and]
  cases hm : mask.getLsbD i with
  | false =>
      rw [hm, Bool.and_false] at hxi
      simp [← hxi]
  | true =>
      rw [hm, Bool.and_true] at hyi
      simp [hyi]

/-- Both fields, put together again. -/
theorem and_mask_or_and_not_mask (x mask : BitVec w) : (x &&& mask) ||| (x &&& ~~~mask) = x := by
  rw [← BitVec.and_or_distrib_left, BitVec.or_comm]
  simp

/-- Clearing a field changes nothing exactly when it is clear. -/
theorem and_not_mask_eq_self_iff {x mask : BitVec w} : x &&& ~~~mask = x ↔ x &&& mask = 0 := by
  constructor
  · intro h
    rw [← h, BitVec.and_assoc, BitVec.and_comm (~~~mask)]
    simp
  · intro h
    have hsplit := and_mask_or_and_not_mask x mask
    rw [h] at hsplit
    simpa using hsplit

/-- A word below `2 ^ n` that is a multiple of `2 ^ k` lies under the mask of the bits from `k` up
to `n`. -/
theorem and_mask_of_dvd {x mask : BitVec w} {n k : ℕ} (hk : k ≤ n)
    (hmask : mask.toNat = 2 ^ n - 2 ^ k) (hx : x.toNat < 2 ^ n) (hdvd : 2 ^ k ∣ x.toNat) :
    x &&& mask = x := by
  rw [BitVec.toNat_eq, BitVec.toNat_and, hmask, and_high_mask hk hx]
  exact Nat.div_mul_cancel hdvd

/-- Filling the low bits of an aligned word is adding. -/
theorem or_eq_add_of_dvd {x y : BitVec w} {k : ℕ} (hdvd : 2 ^ k ∣ x.toNat)
    (hy : y.toNat < 2 ^ k) : (x ||| y).toNat = x.toNat + y.toNat := by
  obtain ⟨q, hq⟩ := hdvd
  rw [BitVec.toNat_or, hq, Nat.two_pow_add_eq_or_of_lt hy]

/-- A shift and a mask extract the bits from `s` up to `s + k`. -/
theorem shift_and_mask {x mask : BitVec w} {k : ℕ} (s : ℕ) (hmask : mask.toNat = 2 ^ k - 1) :
    ((x >>> s) &&& mask).toNat = x.toNat / 2 ^ s % 2 ^ k := by
  rw [BitVec.toNat_and, hmask, Nat.and_two_pow_sub_one_eq_mod, BitVec.toNat_ushiftRight,
    Nat.shiftRight_eq_div_pow]

end Bits
