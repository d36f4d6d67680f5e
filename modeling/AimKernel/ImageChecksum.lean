/-
**The checksum of the kernel image.**

`crc32` works byte by byte with a table of 256 words.  The table holds the eight shifts of each byte,
so what it computes is the remainder of the image, as a polynomial, by the generator of CRC-32.  `X`
has order `2 ^ 32 - 1` modulo this generator.  An image that passes the check of `kernreader_init`
does not pass it any more when bits within 32 places of each other are wrong, or when any two bits
are, if there are at most `2 ^ 32` of them.

Main definitions:

* `Aim.Arm.crc32Poly` — the feedback;
* `Aim.Arm.imageBits` — a buffer as a message, the lowest bit of each byte first;
* `Aim.Arm.BurstError`, `Aim.Arm.PairError` — how an image may be damaged.

Main results:

* `Aim.Arm.crc32Byte_eq`, `Aim.Arm.crc32_eq` — the table stands for the shifts of eight bits;
* `Aim.Arm.crc32_remainder` — **`crc32` is a remainder of what it was given**;
* `Aim.Arm.orderOf_root` — the order of `X`;
* `Aim.Arm.bootmain_detects` — **a kernel that was damaged like this is not entered.**
-/

import AimKernel.ArmLoader
import AimKernel.CyclicRedundancy

set_option relaxedAutoImplicit false
set_option autoImplicit false

namespace Aim.Arm

open CyclicRedundancy Polynomial

/-! ### The table -/

/-- The feedback of CRC-32. -/
def crc32Poly : BitVec 32 := 0xEDB88320

/-- `crc32_tab` holds the shifts of every byte. -/
theorem crc32Tab_getD :
    ∀ i < 256, crc32Tab.getD i 0 = shifts crc32Poly 8 (BitVec.ofNat 32 i) := by
  decide +kernel

theorem and_low_byte (x : BitVec 32) : x &&& 0xFF = (x.setWidth 8).setWidth 32 := by
  apply BitVec.eq_of_toNat_eq
  simp only [BitVec.toNat_and, BitVec.toNat_setWidth]
  rw [show (0xFF : BitVec 32).toNat = 2 ^ 8 - 1 from rfl, Nat.and_two_pow_sub_one_eq_mod]
  omega

theorem shifts_of_low_zero (c : BitVec 32) {n : ℕ} (hc : ∀ i < n, c.getLsbD i = false) :
    shifts crc32Poly n c = c >>> n := by
  induction n with
  | zero => simp [shifts]
  | succ n ih =>
      rw [shifts, ih fun i hi => hc i (by omega), shift]
      have h0 : (c >>> n).getLsbD 0 = false := by
        simpa using hc n (by omega)
      rw [h0, if_neg (by simp), BitVec.shiftRight_add]

/-- The low byte of a register, and the rest. -/
theorem split_low_byte (x : BitVec 32) : x = (x.setWidth 8).setWidth 32 ^^^ (x >>> 8) <<< 8 := by
  apply BitVec.eq_of_getLsbD_eq
  intro i hi
  by_cases hlt : i < 8
  · simp [hi, hlt]
  · simp [hi, hlt, show 8 + (i - 8) = i by omega]

/-- One byte of `crc32` is eight bits of the message. -/
theorem crc32Byte_eq (crc : BitVec 32) (b : BitVec 8) :
    crc32Byte crc b = run crc32Poly crc (lowFirst b) := by
  rw [run_lowFirst (by decide) (by decide)]
  generalize hx : crc ^^^ b.setWidth 32 = x
  have hshift : crc >>> 8 = x >>> 8 := by
    apply BitVec.eq_of_getLsbD_eq
    intro i hi
    simp [← hx]
  have hbyte : (x &&& 0xFF).toNat = (x.setWidth 8).toNat := by
    rw [and_low_byte, BitVec.toNat_setWidth]
    have := (x.setWidth 8).isLt
    omega
  have hhigh : shifts crc32Poly 8 ((x >>> 8) <<< 8) = x >>> 8 := by
    rw [shifts_of_low_zero _ fun i hi => by simp [hi]]
    apply BitVec.eq_of_getLsbD_eq
    intro i hi
    by_cases hlt : 8 + i < 32
    · simp [hlt]
    · simp [hlt, BitVec.getLsbD_of_ge x (8 + i) (by omega)]
  rw [crc32Byte, hx, hshift, hbyte, crc32Tab_getD _ (x.setWidth 8).isLt]
  conv_rhs => rw [split_low_byte x, shifts_xor (by decide), hhigh]
  rw [BitVec.ofNat_toNat]

/-! ### The remainder -/

/-- The bits of a buffer, in the order in which they go through the register. -/
def imageBits (mem : BootMemory) (buf size : ℕ) : List Bool :=
  (List.range size).flatMap fun i => lowFirst (mem (byteAddr buf i))

@[simp] theorem length_imageBits (mem : BootMemory) (buf size : ℕ) :
    (imageBits mem buf size).length = 8 * size := by
  simp [imageBits, List.length_flatMap, mul_comm]

theorem imageBits_add (mem : BootMemory) (buf m n : ℕ) :
    imageBits mem buf (m + n) = imageBits mem buf m ++ imageBits mem (byteAddr buf m) n := by
  have hadd : ∀ i, byteAddr (byteAddr buf m) i = byteAddr buf (m + i) := by
    intro i
    simp only [byteAddr, wrap32]
    omega
  rw [imageBits, List.range_add, List.flatMap_append, List.flatMap_map]
  simp only [imageBits, hadd]

/-- The loop of `crc32`. -/
theorem foldl_crc32Byte (f : ℕ → BitVec 8) (l : List ℕ) (crc : BitVec 32) :
    l.foldl (fun crc i => crc32Byte crc (f i)) crc
      = run crc32Poly crc (l.flatMap fun i => lowFirst (f i)) := by
  induction l generalizing crc with
  | nil => rfl
  | cons i l ih => rw [List.foldl_cons, ih, List.flatMap_cons, run_append, crc32Byte_eq]

theorem crc32_eq (crc : BitVec 32) (mem : BootMemory) (buf size : ℕ) :
    crc32 crc mem buf size
      = run crc32Poly (crc ^^^ 0xFFFFFFFF) (imageBits mem buf size) ^^^ 0xFFFFFFFF := by
  rw [crc32, foldl_crc32Byte, imageBits]

/-- **`crc32` is the remainder of the buffer by the generator of CRC-32**, with the bits of the
register turned over before and after; and it can be computed piece by piece. -/
theorem crc32_remainder (crc : BitVec 32) (mem : BootMemory) (buf m n : ℕ) :
    poly (crc32 crc mem buf m ^^^ 0xFFFFFFFF)
        = (X ^ (8 * m) * poly (crc ^^^ 0xFFFFFFFF) + X ^ 32 * ofBits (imageBits mem buf m))
            %ₘ generator crc32Poly
      ∧ crc32 (crc32 crc mem buf m) mem (byteAddr buf m) n = crc32 crc mem buf (m + n) := by
  constructor
  · rw [crc32_eq, BitVec.xor_assoc, BitVec.xor_self, BitVec.xor_zero, poly_run (by decide),
      length_imageBits]
  · rw [crc32_eq, crc32_eq, crc32_eq, BitVec.xor_assoc _ (0xFFFFFFFF : BitVec 32),
      BitVec.xor_self, BitVec.xor_zero, imageBits_add, run_append]

theorem crc32_injective {crc : BitVec 32} {mem mem' : BootMemory} {buf size : ℕ}
    (h : crc32 crc mem buf size = crc32 crc mem' buf size) :
    run crc32Poly (crc ^^^ 0xFFFFFFFF) (imageBits mem buf size)
      = run crc32Poly (crc ^^^ 0xFFFFFFFF) (imageBits mem' buf size) := by
  rwa [crc32_eq, crc32_eq, BitVec.xor_left_inj] at h

/-! ### The order of the generator -/

theorem crc32Poly_high : crc32Poly.getMsbD 0 = true := by decide

set_option maxRecDepth 100000 in
/-- `X` to the power `2 ^ 32 - 1`. -/
theorem power_order : power crc32Poly (List.replicate 32 true) = one 32 := by
  decide +kernel

/-- Binary digits of the quotients of `2 ^ 32 - 1` by its prime factors: `2 * k` of them, in turns of
`k` zeros and `k` ones. -/
def stripes (k : ℕ) : List Bool :=
  (List.replicate (16 / k) (List.replicate k false ++ List.replicate k true)).flatten

set_option maxRecDepth 100000 in
/-- `X` to these powers. -/
theorem power_stripes :
    ∀ k ∈ [1, 2, 4, 8, 16], power crc32Poly (stripes k) ≠ one 32 := by
  decide +kernel

theorem prime_dvd_order {p : ℕ} (hp : p.Prime) (hdvd : p ∣ 2 ^ 32 - 1) :
    ∃ k ∈ [1, 2, 4, 8, 16], p = 2 ^ k + 1 := by
  have hfactors : (2 ^ 32 - 1 : ℕ) = 3 * 5 * 17 * 257 * 65537 := by norm_num
  rw [hfactors, hp.dvd_mul, hp.dvd_mul, hp.dvd_mul, hp.dvd_mul] at hdvd
  have hone : ∀ q : ℕ, q.Prime → p ∣ q → p = q := fun q hq h =>
    (Nat.prime_dvd_prime_iff_eq hp hq).mp h
  rcases hdvd with (((h | h) | h) | h) | h
  · exact ⟨1, by simp, hone 3 (by norm_num) h⟩
  · exact ⟨2, by simp, hone 5 (by norm_num) h⟩
  · exact ⟨4, by simp, hone 17 (by norm_num) h⟩
  · exact ⟨8, by simp, hone 257 (by norm_num) h⟩
  · exact ⟨16, by simp, hone 65537 (by norm_num) h⟩

theorem number_stripes :
    ∀ k ∈ [1, 2, 4, 8, 16], number (stripes k) = (2 ^ 32 - 1) / (2 ^ k + 1) := by
  decide +kernel

/-- The generator of CRC-32 is primitive. -/
theorem orderOf_root : orderOf (AdjoinRoot.root (generator crc32Poly)) = 2 ^ 32 - 1 := by
  have hnumber : number (List.replicate 32 true) = 2 ^ 32 - 1 := by decide +kernel
  apply orderOf_eq_of_pow_and_pow_div_prime (by norm_num)
  · rw [← hnumber, root_pow_eq_one_iff (by decide)]
    exact power_order
  · intro p hp hdvd
    obtain ⟨k, hk, rfl⟩ := prime_dvd_order hp hdvd
    rw [← number_stripes k hk, Ne, root_pow_eq_one_iff (by decide)]
    exact power_stripes k hk

theorem root_pow_ne_one {k : ℕ} (hk : 0 < k) (hlt : k < 2 ^ 32 - 1) :
    AdjoinRoot.root (generator crc32Poly) ^ k ≠ 1 :=
  pow_ne_one_of_lt_orderOf hk.ne' (orderOf_root.symm ▸ hlt)

/-! ### Damaged images -/

/-- Bits are wrong within 32 places only. -/
def BurstError (sent received : List Bool) : Prop :=
  ∃ s, ∀ i : ℕ, i < s ∨ s + 32 ≤ i → received[i]? = sent[i]?

/-- Bits are wrong in two places only. -/
def PairError (sent received : List Bool) : Prop :=
  ∃ i j, ∀ k : ℕ, k ≠ i → k ≠ j → received[k]? = sent[k]?

/-- A pair of errors, or one of them alone. -/
theorem PairError.cases {sent received : List Bool} (h : PairError sent received)
    (hlen : received.length = sent.length) :
    BurstError sent received ∨ ∃ i j, i < j ∧ j < received.length ∧
      received[i]? ≠ sent[i]? ∧ received[j]? ≠ sent[j]? ∧
      ∀ k : ℕ, k ≠ i → k ≠ j → received[k]? = sent[k]? := by
  obtain ⟨i, j, hij⟩ := h
  wlog hle : i ≤ j generalizing i j
  · exact this j i (fun k hj hi => hij k hi hj) (by omega)
  by_cases hi : received[i]? = sent[i]?
  · refine .inl ⟨j, fun k hk => ?_⟩
    by_cases hki : k = i
    · rw [hki, hi]
    · exact hij k hki (by omega)
  · by_cases hj : received[j]? = sent[j]?
    · refine .inl ⟨i, fun k hk => ?_⟩
      by_cases hkj : k = j
      · rw [hkj, hj]
      · exact hij k (by omega) hkj
    · by_cases heq : i = j
      · subst heq
        exact .inl ⟨i, fun k hk => hij k (by omega) (by omega)⟩
      · refine .inr ⟨i, j, by omega, ?_, hi, hj, hij⟩
        by_contra hge
        rw [List.getElem?_eq_none (by omega), List.getElem?_eq_none (by omega)] at hj
        exact hj rfl

/-- The checksum of a damaged buffer is another one. -/
theorem crc32_ne (crc : BitVec 32) {mem mem' : BootMemory} {buf size : ℕ}
    (hne : imageBits mem' buf size ≠ imageBits mem buf size)
    (hdamage : BurstError (imageBits mem buf size) (imageBits mem' buf size) ∨
      PairError (imageBits mem buf size) (imageBits mem' buf size) ∧ size < 2 ^ 29) :
    crc32 crc mem' buf size ≠ crc32 crc mem buf size := by
  intro h
  have hrun := crc32_injective h
  have hlen : (imageBits mem' buf size).length = (imageBits mem buf size).length := by
    rw [length_imageBits, length_imageBits]
  have hburst : ¬ BurstError (imageBits mem buf size) (imageBits mem' buf size) := by
    rintro ⟨s, hs⟩
    exact run_ne_of_burst (by decide) crc32Poly_high _ hlen hne hs hrun
  rcases hdamage with hb | ⟨hp, hsize⟩
  · exact hburst hb
  · rcases hp.cases hlen with hb | ⟨i, j, hij, hj, hdi, hdj, hs⟩
    · exact hburst hb
    · refine run_ne_of_pair (by decide) crc32Poly_high _ hlen (fun k hk hklt => ?_) hij hj hdi hdj
        hs hrun
      rw [length_imageBits] at hklt
      exact root_pow_ne_one hk (by omega)

/-- **Damage within 32 bits, or to any two bits of an image of less than 512 MB, is found** before
anything is loaded. -/
theorem bootmain_detects (L : BootLayout) {mem mem' : BootMemory}
    (hok : kernreaderInit mem = .ok ()) (hlen : elfLen mem' = elfLen mem)
    (hcrc : elfCrc32 mem' = elfCrc32 mem)
    (hne : imageBits mem' elfStart (elfLen mem) ≠ imageBits mem elfStart (elfLen mem))
    (hdamage :
      BurstError (imageBits mem elfStart (elfLen mem)) (imageBits mem' elfStart (elfLen mem)) ∨
      PairError (imageBits mem elfStart (elfLen mem)) (imageBits mem' elfStart (elfLen mem)) ∧
        elfLen mem < 2 ^ 29) :
    bootmain L mem' = .error (.panic "BAD, current %x, expected %x.") := by
  have hcheck : elfLen mem ≠ 0 ∧ (crc32 0 mem elfStart (elfLen mem)).toNat = elfCrc32 mem := by
    unfold kernreaderInit at hok
    split_ifs at hok with h₀ h₁
    exact ⟨h₀, by simpa using h₁⟩
  have hbad : kernreaderInit mem' = .error (.panic "BAD, current %x, expected %x.") := by
    rw [kernreaderInit, hlen, if_neg hcheck.1, if_pos]
    rw [hcrc, ← hcheck.2]
    exact fun h => crc32_ne 0 hne hdamage (BitVec.eq_of_toNat_eq h)
  rw [bootmain, hbad]
  rfl

/-- An image of one zero byte, with its checksum. -/
def zeroImage : BootMemory := fun a =>
  if a = 0x18000 then 0x01 else if a = 0x18004 then 0x8D else if a = 0x18005 then 0xEF
    else if a = 0x18006 then 0x02 else if a = 0x18007 then 0xD2 else 0

theorem bootmain_detects_flipped :
    bootmain ⟨0x9000, 0x8100, by decide⟩ (fun a => if a = 0x20000 then 0x81 else zeroImage a)
      = .error (.panic "BAD, current %x, expected %x.") := by
  have hok : kernreaderInit zeroImage = .ok () := by decide +kernel
  refine bootmain_detects _ hok (by decide +kernel) (by decide +kernel) (by decide +kernel)
    (.inr ⟨⟨0, 7, ?_⟩, by decide +kernel⟩)
  intro k hk₀ hk₇
  by_cases hk : k < 8
  · interval_cases k <;> first | omega | decide +kernel
  · rw [List.getElem?_eq_none, List.getElem?_eq_none]
    · rw [length_imageBits, show elfLen zeroImage = 1 by decide +kernel]
      omega
    · rw [length_imageBits, show elfLen zeroImage = 1 by decide +kernel]
      omega

end Aim.Arm
