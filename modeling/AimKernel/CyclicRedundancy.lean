/-
**Cyclic redundancy checks.**

A register of `w` bits is a residue of polynomials over the field of two elements: its lowest bit is
the coefficient of `X ^ (w - 1)`, its highest one that of `1`.  To move it down by one place, and add
the feedback when a bit falls out, is to multiply by `X` modulo the generator.  So the register that
a message leaves behind is a remainder of the message, and a difference of two messages goes
undetected exactly when the generator divides it.

Main definitions:

* `CyclicRedundancy.shift`, `CyclicRedundancy.run` — the register, bit by bit;
* `CyclicRedundancy.ofBits` — the polynomial of a list of bits, highest coefficient first;
* `CyclicRedundancy.generator`, `CyclicRedundancy.residue` — the generator, and the residue that a
  register stands for;
* `CyclicRedundancy.mul`, `CyclicRedundancy.power` — arithmetic on registers.

Main results:

* `CyclicRedundancy.residue_shift`, `CyclicRedundancy.residue_injective` — registers are residues;
* `CyclicRedundancy.poly_run` — **what a message leaves in the register**;
* `CyclicRedundancy.run_eq_iff` — when two messages leave the same;
* `CyclicRedundancy.run_ne_of_burst`, `CyclicRedundancy.run_ne_of_pair` — **short bursts and pairs of
  wrong bits are detected.**
-/

import Mathlib.RingTheory.AdjoinRoot
import Mathlib.GroupTheory.OrderOfElement
import Mathlib.Algebra.CharP.Two
import Mathlib.Algebra.Field.ZMod

set_option relaxedAutoImplicit false
set_option autoImplicit false

namespace CyclicRedundancy

open Polynomial

/-! ### Bits and polynomials -/

/-- The polynomial of a list of bits, the coefficient of the highest power first. -/
noncomputable def ofBits (bits : List Bool) : (ZMod 2)[X] :=
  bits.foldl (fun p b => X * p + C (b.toNat : ZMod 2)) 0

theorem ofBits_concat (bits : List Bool) (b : Bool) :
    ofBits (bits ++ [b]) = X * ofBits bits + C (b.toNat : ZMod 2) := by
  simp [ofBits]

@[simp] theorem ofBits_nil : ofBits [] = 0 := rfl

theorem coeff_ofBits (bits : List Bool) (e : ℕ) :
    (ofBits bits).coeff e = ((bits.reverse.getD e false).toNat : ZMod 2) := by
  induction bits using List.reverseRecOn generalizing e with
  | nil => simp
  | append_singleton bits b ih =>
      rw [ofBits_concat, coeff_add]
      cases e with
      | zero => simp
      | succ e =>
          rw [coeff_X_mul, ih, coeff_C_succ, add_zero]
          simp

theorem ofBits_append (bits more : List Bool) :
    ofBits (bits ++ more) = X ^ more.length * ofBits bits + ofBits more := by
  induction more using List.reverseRecOn with
  | nil => simp
  | append_singleton more b ih =>
      rw [← List.append_assoc, ofBits_concat, ih, ofBits_concat, List.length_append]
      simp only [List.length_singleton]
      ring

theorem toNat_xor (a b : Bool) :
    (((a ^^ b).toNat : ℕ) : ZMod 2) = (a.toNat : ZMod 2) + (b.toNat : ZMod 2) := by
  cases a <;> cases b <;> decide

theorem toNat_inj {a b : Bool} (h : (a.toNat : ZMod 2) = (b.toNat : ZMod 2)) : a = b := by
  revert h
  cases a <;> cases b <;> decide

section Register

variable {w : ℕ}

/-- The bits of a register, the lowest first. -/
def lowFirst (c : BitVec w) : List Bool :=
  (List.range w).map c.getLsbD

@[simp] theorem length_lowFirst (c : BitVec w) : (lowFirst c).length = w := by
  simp [lowFirst]

/-- The polynomial of a register. -/
noncomputable def poly (c : BitVec w) : (ZMod 2)[X] :=
  ofBits (lowFirst c)

theorem coeff_poly (c : BitVec w) (e : ℕ) :
    (poly c).coeff e = ((c.getMsbD e).toNat : ZMod 2) := by
  rw [poly, coeff_ofBits]
  congr 2
  by_cases he : e < w
  · rw [List.getD_eq_getElem?_getD, List.getElem?_reverse (by simpa using he), length_lowFirst,
      lowFirst, List.getElem?_map, List.getElem?_range (by omega)]
    simp [BitVec.getMsbD, he]
  · rw [List.getD_eq_getElem?_getD, List.getElem?_eq_none (by simpa using he)]
    simp [BitVec.getMsbD, he]

theorem degree_poly_lt (c : BitVec w) : (poly c).degree < w := by
  rw [degree_lt_iff_coeff_zero]
  intro e he
  rw [coeff_poly, BitVec.getMsbD_of_ge c e he]
  rfl

theorem poly_xor (c d : BitVec w) : poly (c ^^^ d) = poly c + poly d := by
  ext e
  rw [coeff_add, coeff_poly, coeff_poly, coeff_poly, BitVec.getMsbD_xor, toNat_xor]

theorem poly_injective {c d : BitVec w} (h : poly c = poly d) : c = d := by
  apply BitVec.eq_of_getMsbD_eq
  intro e he
  have he' := congrArg (fun p => p.coeff e) h
  simp only [coeff_poly] at he'
  exact toNat_inj he'

/-! ### The register -/

/-- The register `c` moves down by one place; when the bit that falls out is set, `g` is added. -/
def shift (g c : BitVec w) : BitVec w :=
  if c.getLsbD 0 then c >>> 1 ^^^ g else c >>> 1

/-- The generator with the feedback `g`. -/
noncomputable def generator (g : BitVec w) : (ZMod 2)[X] :=
  X ^ w + poly g

theorem monic_generator (g : BitVec w) : (generator g).Monic :=
  monic_X_pow_add (degree_poly_lt g)

theorem degree_generator (g : BitVec w) : (generator g).degree = w := by
  rw [generator, degree_add_eq_left_of_degree_lt, degree_X_pow]
  rw [degree_X_pow]
  exact degree_poly_lt g

theorem poly_ushiftRight (hw : 0 < w) (c : BitVec w) :
    poly (c >>> 1) = X * poly c + C ((c.getLsbD 0).toNat : ZMod 2) * X ^ w := by
  ext e
  rw [coeff_add, coeff_C_mul, coeff_X_pow, coeff_poly, BitVec.getMsbD_ushiftRight]
  cases e with
  | zero => simp [hw.ne]
  | succ e =>
      rw [coeff_X_mul, coeff_poly]
      by_cases he : e + 1 < w
      · simp [he, he.ne]
      · by_cases hew : e + 1 = w
        · subst hew
          have h0 : c.getMsbD e = c.getLsbD 0 := by simp [BitVec.getMsbD]
          rw [h0]
          simp [CharTwo.add_self_eq_zero]
        · have h0 : c.getMsbD e = false := BitVec.getMsbD_of_ge c e (by omega)
          simp [h0, he, hew]

theorem poly_shift (hw : 0 < w) (g c : BitVec w) :
    poly (shift g c) = X * poly c + C ((c.getLsbD 0).toNat : ZMod 2) * generator g := by
  have hs := poly_ushiftRight hw c
  unfold shift generator
  cases h0 : c.getLsbD 0 with
  | false => simpa [h0] using hs
  | true =>
      rw [h0] at hs
      simp only [if_true, poly_xor, hs]
      simp [add_assoc]

/-- The residue that a register stands for. -/
noncomputable def residue (g c : BitVec w) : AdjoinRoot (generator g) :=
  AdjoinRoot.mk (generator g) (poly c)

theorem residue_xor (g c d : BitVec w) : residue g (c ^^^ d) = residue g c + residue g d := by
  rw [residue, poly_xor, map_add]
  rfl

theorem residue_shift (hw : 0 < w) (g c : BitVec w) :
    residue g (shift g c) = AdjoinRoot.root (generator g) * residue g c := by
  rw [residue, poly_shift hw, map_add, map_mul, map_mul, AdjoinRoot.mk_self, mul_zero, add_zero,
    AdjoinRoot.mk_X]
  rfl

theorem residue_injective {g c d : BitVec w} (h : residue g c = residue g d) : c = d := by
  rw [residue, residue, AdjoinRoot.mk_eq_mk, CharTwo.sub_eq_add, ← poly_xor] at h
  have h0 : poly (c ^^^ d) = 0 := by
    refine eq_zero_of_dvd_of_degree_lt h ?_
    rw [degree_generator]
    exact degree_poly_lt _
  have hx : c ^^^ d = 0#w := by
    apply poly_injective
    rw [h0]
    ext e
    simp [coeff_poly]
  exact BitVec.xor_eq_zero_iff.mp hx

/-! ### Messages -/

/-- A bit of the message is added to the lowest bit, and the register is shifted. -/
def feed (g c : BitVec w) (b : Bool) : BitVec w :=
  shift g (c ^^^ BitVec.ofNat w b.toNat)

/-- The register after the bits of a message. -/
def run (g c : BitVec w) (bits : List Bool) : BitVec w :=
  bits.foldl (feed g) c

@[simp] theorem run_nil (g c : BitVec w) : run g c [] = c := rfl

@[simp] theorem run_append (g c : BitVec w) (bits more : List Bool) :
    run g c (bits ++ more) = run g (run g c bits) more :=
  List.foldl_append

/-- The register after `n` shifts. -/
def shifts (g : BitVec w) : ℕ → BitVec w → BitVec w
  | 0, c => c
  | n + 1, c => shift g (shifts g n c)

theorem residue_shifts (hw : 0 < w) (g c : BitVec w) (n : ℕ) :
    residue g (shifts g n c) = AdjoinRoot.root (generator g) ^ n * residue g c := by
  induction n with
  | zero => simp [shifts]
  | succ n ih => rw [shifts, residue_shift hw, ih, pow_succ']; ring

theorem shifts_xor (hw : 0 < w) (g c d : BitVec w) (n : ℕ) :
    shifts g n (c ^^^ d) = shifts g n c ^^^ shifts g n d := by
  apply residue_injective (g := g)
  simp only [residue_xor, residue_shifts hw, mul_add]

theorem lowFirst_setWidth {n : ℕ} (hn : n ≤ w) (x : BitVec n) :
    lowFirst (x.setWidth w) = lowFirst x ++ List.replicate (w - n) false := by
  apply List.ext_getElem
  · simp; omega
  · intro i h₁ h₂
    simp only [length_lowFirst] at h₁
    by_cases hi : i < n
    · rw [List.getElem_append_left (by simpa using hi)]
      simp [lowFirst, h₁]
    · rw [List.getElem_append_right (by simpa using hi)]
      simp [lowFirst, h₁, BitVec.getLsbD_of_ge x i (by omega)]

theorem ofBits_replicate_false (n : ℕ) : ofBits (List.replicate n false) = 0 := by
  ext e
  rw [coeff_ofBits]
  by_cases he : e < n <;> simp [he]

theorem poly_setWidth {n : ℕ} (hn : n ≤ w) (x : BitVec n) :
    poly (x.setWidth w) = X ^ (w - n) * ofBits (lowFirst x) := by
  rw [poly, lowFirst_setWidth hn, ofBits_append, ofBits_replicate_false, List.length_replicate,
    add_zero]

theorem residue_feed (hw : 0 < w) (g c : BitVec w) (b : Bool) :
    residue g (feed g c b) = AdjoinRoot.root (generator g) * residue g c
      + AdjoinRoot.root (generator g) ^ w * AdjoinRoot.mk (generator g) (ofBits [b]) := by
  have hb : BitVec.ofNat w b.toNat = (BitVec.ofBool b).setWidth w := by
    rw [← BitVec.ofNat_toNat, BitVec.toNat_ofBool]
  have hl : lowFirst (BitVec.ofBool b) = [b] := by
    cases b <;> rfl
  rw [feed, residue_shift hw, residue_xor, mul_add, hb, residue, residue, poly_setWidth hw, hl,
    map_mul, map_pow, AdjoinRoot.mk_X, ← mul_assoc, ← pow_succ', Nat.sub_add_cancel hw]

/-- What a message leaves in the register: a residue of the message. -/
theorem residue_run (hw : 0 < w) (g c : BitVec w) (bits : List Bool) :
    residue g (run g c bits) = AdjoinRoot.root (generator g) ^ bits.length * residue g c
      + AdjoinRoot.root (generator g) ^ w * AdjoinRoot.mk (generator g) (ofBits bits) := by
  induction bits using List.reverseRecOn with
  | nil => simp
  | append_singleton bits b ih =>
      have hone : run g c (bits ++ [b]) = feed g (run g c bits) b := by
        simp [run]
      rw [hone, residue_feed hw, ih, ofBits_append, map_add, map_mul, map_pow, AdjoinRoot.mk_X,
        List.length_append]
      simp only [List.length_singleton]
      ring

/-- **A message leaves a remainder in the register.** -/
theorem poly_run (hw : 0 < w) (g c : BitVec w) (bits : List Bool) :
    poly (run g c bits)
      = (X ^ bits.length * poly c + X ^ w * ofBits bits) %ₘ generator g := by
  have hself : poly (run g c bits) %ₘ generator g = poly (run g c bits) := by
    rw [modByMonic_eq_self_iff (monic_generator g), degree_generator]
    exact degree_poly_lt _
  rw [← hself]
  apply modByMonic_eq_of_dvd_sub (monic_generator g)
  rw [← AdjoinRoot.mk_eq_mk, map_add, map_mul, map_mul, map_pow, map_pow, AdjoinRoot.mk_X]
  exact residue_run hw g c bits

/-- Several bits at once. -/
theorem run_lowFirst (hw : 0 < w) {n : ℕ} (hn : n ≤ w) (g c : BitVec w) (x : BitVec n) :
    run g c (lowFirst x) = shifts g n (c ^^^ x.setWidth w) := by
  apply residue_injective (g := g)
  have hx : residue g (x.setWidth w) = AdjoinRoot.root (generator g) ^ (w - n)
      * AdjoinRoot.mk (generator g) (ofBits (lowFirst x)) := by
    rw [residue, poly_setWidth hn, map_mul, map_pow, AdjoinRoot.mk_X]
  rw [residue_run hw, length_lowFirst, residue_shifts hw, residue_xor, hx, mul_add, ← mul_assoc,
    ← pow_add, Nat.add_sub_cancel' hn]

theorem isUnit_root {g : BitVec w} (hg : g.getMsbD 0 = true) (hw : 0 < w) :
    IsUnit (AdjoinRoot.root (generator g)) := by
  have hcoeff : (generator g).coeff 0 = 1 := by
    rw [generator, coeff_add, coeff_X_pow, coeff_poly, hg]
    simp [hw.ne]
  have hsplit := congrArg (AdjoinRoot.mk (generator g)) (divX_mul_X_add (generator g))
  rw [AdjoinRoot.mk_self, map_add, map_mul, AdjoinRoot.mk_X, hcoeff] at hsplit
  refine IsUnit.of_mul_eq_one (-AdjoinRoot.mk (generator g) (generator g).divX) ?_
  rw [mul_neg, mul_comm, neg_eq_iff_add_eq_zero]
  simpa using hsplit

theorem run_eq_iff (hw : 0 < w) {g : BitVec w} (hg : g.getMsbD 0 = true) (c : BitVec w)
    {bits more : List Bool} (hlen : bits.length = more.length) :
    run g c bits = run g c more ↔ generator g ∣ ofBits bits - ofBits more := by
  rw [← AdjoinRoot.mk_eq_mk]
  have hu := (isUnit_root hg hw).pow w
  constructor
  · intro h
    have hr := congrArg (residue g) h
    rw [residue_run hw, residue_run hw, hlen, add_right_inj] at hr
    exact hu.mul_left_cancel hr
  · intro h
    apply residue_injective (g := g)
    rw [residue_run hw, residue_run hw, hlen, h]

/-! ### Wrong bits -/

theorem coeff_ofBits_of_lt {bits : List Bool} {e : ℕ} (he : e < bits.length) :
    (ofBits bits).coeff e = (((bits[bits.length - 1 - e]?).getD false).toNat : ZMod 2) := by
  rw [coeff_ofBits, List.getD_eq_getElem?_getD, List.getElem?_reverse he]

theorem coeff_sub_of_eq {bits more : List Bool} (hlen : bits.length = more.length) {e : ℕ}
    (he : e < bits.length → bits[bits.length - 1 - e]? = more[bits.length - 1 - e]?) :
    (ofBits bits - ofBits more).coeff e = 0 := by
  rw [coeff_sub, sub_eq_zero]
  by_cases hlt : e < bits.length
  · rw [coeff_ofBits_of_lt hlt, coeff_ofBits_of_lt (hlen ▸ hlt), ← hlen, he hlt]
  · rw [coeff_ofBits, coeff_ofBits, List.getD_eq_getElem?_getD, List.getD_eq_getElem?_getD,
      List.getElem?_eq_none (by simpa using hlt),
      List.getElem?_eq_none (by simpa [← hlen] using hlt)]

theorem coeff_sub_of_ne {bits more : List Bool} (hlen : bits.length = more.length) {i : ℕ}
    (hi : i < bits.length) (hne : bits[i]? ≠ more[i]?) :
    (ofBits bits - ofBits more).coeff (bits.length - 1 - i) = 1 := by
  have hback : bits.length - 1 - (bits.length - 1 - i) = i := by omega
  rw [coeff_sub, coeff_ofBits_of_lt (by omega), coeff_ofBits_of_lt (by omega), ← hlen, hback]
  rw [List.getElem?_eq_getElem hi, List.getElem?_eq_getElem (hlen ▸ hi)] at hne ⊢
  revert hne
  cases bits[i] <;> cases more[i] <;> decide

theorem ofBits_injective {bits more : List Bool} (hlen : bits.length = more.length)
    (h : ofBits bits - ofBits more = 0) : bits = more := by
  by_contra hne
  have hi : ∃ i : ℕ, bits[i]? ≠ more[i]? := by
    by_contra hall
    exact hne (List.ext_getElem? (by simpa using hall))
  obtain ⟨i, hi⟩ := hi
  have hlt : i < bits.length := by
    by_contra hge
    rw [List.getElem?_eq_none (by omega), List.getElem?_eq_none (by omega)] at hi
    exact hi rfl
  have hone := coeff_sub_of_ne hlen hlt hi
  rw [h] at hone
  simp at hone

/-- **Wrong bits within `w` places are detected.** -/
theorem run_ne_of_burst (hw : 0 < w) {g : BitVec w} (hg : g.getMsbD 0 = true) (c : BitVec w)
    {bits more : List Bool} (hlen : bits.length = more.length) (hne : bits ≠ more) {s : ℕ}
    (hs : ∀ i, i < s ∨ s + w ≤ i → bits[i]? = more[i]?) : run g c bits ≠ run g c more := by
  rw [Ne, run_eq_iff hw hg c hlen]
  intro hdvd
  obtain ⟨q, hq⟩ : X ^ (bits.length - (s + w)) ∣ ofBits bits - ofBits more := by
    rw [X_pow_dvd_iff]
    intro e he
    exact coeff_sub_of_eq hlen fun _ => hs _ (.inr (by omega))
  have hqdeg : q.degree < w := by
    rw [degree_lt_iff_coeff_zero]
    intro e he
    have hc := coeff_sub_of_eq hlen (e := e + (bits.length - (s + w)))
      fun _ => hs _ (.inl (by omega))
    rwa [hq, coeff_X_pow_mul] at hc
  have hq0 : q = 0 := by
    refine eq_zero_of_dvd_of_degree_lt (p := generator g) ?_ ?_
    · rw [← AdjoinRoot.mk_eq_zero] at hdvd ⊢
      rw [hq, map_mul, map_pow, AdjoinRoot.mk_X] at hdvd
      exact ((isUnit_root hg hw).pow _).mul_right_eq_zero.mp hdvd
    · rwa [degree_generator]
  rw [hq0, mul_zero] at hq
  exact hne (ofBits_injective hlen hq)

theorem sub_eq_of_pair {bits more : List Bool} (hlen : bits.length = more.length) {i j : ℕ}
    (hij : i < j) (hj : j < bits.length) (hdi : bits[i]? ≠ more[i]?) (hdj : bits[j]? ≠ more[j]?)
    (hs : ∀ k, k ≠ i → k ≠ j → bits[k]? = more[k]?) :
    ofBits bits - ofBits more = X ^ (bits.length - 1 - j) * (X ^ (j - i) + 1) := by
  have hsum : X ^ (bits.length - 1 - j) * (X ^ (j - i) + 1)
      = (X ^ (bits.length - 1 - i) + X ^ (bits.length - 1 - j) : (ZMod 2)[X]) := by
    rw [mul_add, ← pow_add, mul_one]
    congr 2
    omega
  rw [hsum]
  ext e
  rw [coeff_add, coeff_X_pow, coeff_X_pow]
  by_cases hei : e = bits.length - 1 - i
  · subst hei
    rw [coeff_sub_of_ne hlen (by omega) hdi, if_pos rfl, if_neg (by omega), add_zero]
  · by_cases hej : e = bits.length - 1 - j
    · subst hej
      rw [coeff_sub_of_ne hlen hj hdj, if_neg hei, if_pos rfl, zero_add]
    · rw [if_neg hei, if_neg hej, add_zero]
      exact coeff_sub_of_eq hlen fun he => hs _ (by omega) (by omega)

/-- **Two wrong bits are detected**, as far apart as powers of the root differ from `1`. -/
theorem run_ne_of_pair (hw : 0 < w) {g : BitVec w} (hg : g.getMsbD 0 = true) (c : BitVec w)
    {bits more : List Bool} (hlen : bits.length = more.length)
    (hroot : ∀ k, 0 < k → k < bits.length → AdjoinRoot.root (generator g) ^ k ≠ 1) {i j : ℕ}
    (hij : i < j) (hj : j < bits.length) (hdi : bits[i]? ≠ more[i]?) (hdj : bits[j]? ≠ more[j]?)
    (hs : ∀ k, k ≠ i → k ≠ j → bits[k]? = more[k]?) : run g c bits ≠ run g c more := by
  rw [Ne, run_eq_iff hw hg c hlen, sub_eq_of_pair hlen hij hj hdi hdj hs, ← AdjoinRoot.mk_eq_zero]
  intro h
  rw [map_mul, map_pow, AdjoinRoot.mk_X, ((isUnit_root hg hw).pow _).mul_right_eq_zero, map_add,
    map_pow, AdjoinRoot.mk_X, map_one] at h
  refine hroot (j - i) (by omega) (by omega) ?_
  have htwo : (1 : AdjoinRoot (generator g)) + 1 = 0 := by
    have h2 := congrArg (AdjoinRoot.mk (generator g)) (CharTwo.add_self_eq_zero (1 : (ZMod 2)[X]))
    simpa using h2
  rw [eq_neg_of_add_eq_zero_left h, eq_comm]
  exact eq_neg_of_add_eq_zero_left htwo

/-! ### Powers of the root -/

/-- The product of two residues. -/
def mul (g c d : BitVec w) : BitVec w :=
  (lowFirst c).foldl (fun acc b => shift g acc ^^^ if b then d else 0#w) 0#w

/-- The register of `1`. -/
def one (w : ℕ) : BitVec w :=
  BitVec.twoPow w (w - 1)

/-- `X` to the power whose binary digits are `digits`, the highest first. -/
def power (g : BitVec w) (digits : List Bool) : BitVec w :=
  digits.foldl (fun acc b => if b then shift g (mul g acc acc) else mul g acc acc) (one w)

/-- The number with these binary digits, the highest first. -/
def number (digits : List Bool) : ℕ :=
  digits.foldl (fun n b => 2 * n + b.toNat) 0

@[simp] theorem residue_zero (g : BitVec w) : residue g 0#w = 0 := by
  have h : poly (0#w) = 0 := by
    ext e
    simp [coeff_poly]
  rw [residue, h, map_zero]

theorem residue_one (hw : 0 < w) (g : BitVec w) : residue g (one w) = 1 := by
  have h : poly (one w) = 1 := by
    ext e
    rw [coeff_poly, one, coeff_one, BitVec.getMsbD_twoPow, show w - (w - 1) - 1 = 0 by omega]
    by_cases he : e = 0 <;> simp [he, hw]
  rw [residue, h, map_one]

/-- One digit after the other, as by Horner. -/
theorem residue_horner (hw : 0 < w) (g d : BitVec w) (bits : List Bool) :
    residue g (bits.foldl (fun acc b => shift g acc ^^^ if b then d else 0#w) 0#w)
      = AdjoinRoot.mk (generator g) (ofBits bits) * residue g d := by
  induction bits using List.reverseRecOn with
  | nil => simp
  | append_singleton bits b ih =>
      rw [List.foldl_append, List.foldl_cons, List.foldl_nil, residue_xor, residue_shift hw, ih,
        ofBits_concat, map_add, map_mul, AdjoinRoot.mk_X]
      cases b <;> simp [add_mul, mul_assoc]

theorem residue_mul (hw : 0 < w) (g c d : BitVec w) :
    residue g (mul g c d) = residue g c * residue g d :=
  residue_horner hw g d (lowFirst c)

theorem residue_power (hw : 0 < w) (g : BitVec w) (digits : List Bool) :
    residue g (power g digits) = AdjoinRoot.root (generator g) ^ number digits := by
  induction digits using List.reverseRecOn with
  | nil => simp [power, number, residue_one hw]
  | append_singleton digits b ih =>
      have hp : power g (digits ++ [b]) = if b then shift g (mul g (power g digits) (power g digits))
          else mul g (power g digits) (power g digits) := by
        simp [power]
      have hn : number (digits ++ [b]) = 2 * number digits + b.toNat := by
        simp [number]
      rw [hp, hn]
      cases b with
      | false =>
          rw [if_neg (by simp), residue_mul hw, ih, ← pow_add]
          congr 1
          simp [two_mul]
      | true =>
          rw [if_pos rfl, residue_shift hw, residue_mul hw, ih, ← pow_add, ← pow_succ']
          congr 1
          simp [two_mul]

theorem root_pow_eq_one_iff (hw : 0 < w) (g : BitVec w) (digits : List Bool) :
    AdjoinRoot.root (generator g) ^ number digits = 1 ↔ power g digits = one w := by
  rw [← residue_power hw, ← residue_one hw g]
  constructor
  · exact fun h => residue_injective h
  · exact fun h => congrArg _ h

end Register

end CyclicRedundancy
