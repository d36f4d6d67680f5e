/-
**Bytes in memory, and strings.**

The kernel's C library works on bytes at 32-bit addresses.  Not every address need have a byte: an
access where there is none is a fault, so that a function which succeeds in every memory that has
what it is given touches nothing else.

Main definitions:

* `Aim.CMem`, `Aim.CMem.read`, `Aim.CMem.write` — bytes, and access to them;
* `Aim.cellAt`, `Aim.CMem.HasBytes` — the bytes from an address on;
* `Aim.CMem.Holds`, `Aim.CMem.StringAt` — given bytes, and a given string, are there;
* `Aim.CMem.strlen` — `strlen.c`.

Main results:

* `Aim.CMem.StringAt.length_lt` — a string is shorter than the memory;
* `Aim.CMem.strlen_spec` — `strlen` finds the terminating zero.
-/

import AimKernel.CArith
import AimKernel.CString
import AimKernel.ListHead

set_option relaxedAutoImplicit false
set_option autoImplicit false

namespace Aim

/-! ### Memory -/

/-- The bytes in memory. -/
abbrev CMem := Ptr → Option (BitVec 8)

/-- What the library must not do. -/
inductive CFault
  /-- An access where there is no byte. -/
  | access
  /-- A loop that does not end. -/
  | endless
  /-- `panic()`. -/
  | panic
deriving DecidableEq

/-- The address `i` bytes behind another one. -/
def cellAt (p : Ptr) (i : ℕ) : Ptr := p + BitVec.ofNat 32 i

@[simp] theorem cellAt_zero (p : Ptr) : cellAt p 0 = p := BitVec.add_zero p

theorem cellAt_cellAt (p : Ptr) (i j : ℕ) : cellAt (cellAt p i) j = cellAt p (i + j) := by
  rw [cellAt, cellAt, cellAt, BitVec.add_assoc, ← BitVec.ofNat_add]

theorem cellAt_one_add (p : Ptr) (i : ℕ) : cellAt (p + 1) i = cellAt p (i + 1) := by
  rw [Nat.add_comm, ← cellAt_cellAt]
  rfl

theorem cellAt_succ_sub_one (p : Ptr) (n : ℕ) : cellAt p (n + 1) - 1 = cellAt p n := by
  rw [← cellAt_cellAt]
  exact BitVec.add_sub_cancel _ _

/-- The addresses of a range are different. -/
theorem cellAt_injective {p : Ptr} {i j : ℕ} (hi : i < 2 ^ 32) (hj : j < 2 ^ 32)
    (h : cellAt p i = cellAt p j) : i = j := by
  rw [cellAt, cellAt, BitVec.add_right_inj] at h
  have hnat := congrArg BitVec.toNat h
  rw [BitVec.toNat_ofNat, BitVec.toNat_ofNat, Nat.mod_eq_of_lt hi, Nat.mod_eq_of_lt hj] at hnat
  exact hnat

theorem cellAt_ne {p : Ptr} {i j : ℕ} (hi : i < 2 ^ 32) (hj : j < 2 ^ 32) (hne : i ≠ j) :
    cellAt p i ≠ cellAt p j :=
  mt (cellAt_injective hi hj) hne

theorem toNat_cellAt {p : Ptr} {n i : ℕ} (hfits : p.toNat + n ≤ 2 ^ 32) (hi : i < n) :
    (cellAt p i).toNat = p.toNat + i := by
  rw [cellAt, BitVec.toNat_add, BitVec.toNat_ofNat]
  omega

namespace CMem

/-- `*p`. -/
def read (m : CMem) (p : Ptr) : Except CFault (BitVec 8) :=
  match m p with
  | some b => .ok b
  | none => .error .access

/-- `*p = b`. -/
def write (m : CMem) (p : Ptr) (b : BitVec 8) : Except CFault CMem :=
  match m p with
  | some _ => .ok (Function.update m p (some b))
  | none => .error .access

/-- There are bytes in a range. -/
def HasBytes (m : CMem) (p : Ptr) (n : ℕ) : Prop := ∀ i < n, (m (cellAt p i)).isSome

/-- The bytes are in memory, one behind the other. -/
def Holds (m : CMem) : Ptr → List (BitVec 8) → Prop
  | _, [] => True
  | p, b :: bs => m p = some b ∧ Holds m (p + 1) bs

/-- The string is in memory, with its terminating zero. -/
def StringAt (m : CMem) (p : Ptr) (s : CString) : Prop := m.Holds p (s.chars ++ [0])

/-- The loop of `strlen`, with so many rounds at most. -/
def strlenLoop (m : CMem) : ℕ → Ptr → BitVec 32 → Except CFault (BitVec 32)
  | 0, _, _ => .error .endless
  | n + 1, s, r => do
      let c ← m.read s
      if c ≠ 0 then strlenLoop m n (s + 1) (r + 1) else return r

/-- `strlen(s)`; when all bytes have been read, the same ones follow again. -/
def strlen (m : CMem) (s : Ptr) : Except CFault (BitVec 32) := strlenLoop m (2 ^ 32) s 0

/-! ### Access -/

variable {m m' : CMem} {p q : Ptr} {b : BitVec 8} {bs : List (BitVec 8)}

theorem read_eq (h : m p = some b) : m.read p = .ok b := by rw [read, h]

theorem write_eq (h : (m p).isSome) : m.write p b = .ok (Function.update m p (some b)) := by
  obtain ⟨c, hc⟩ := Option.isSome_iff_exists.mp h
  rw [write, hc]

/-- Writing makes no new bytes. -/
theorem isSome_update (h : (m p).isSome) (a : Ptr) :
    (Function.update m p (some b) a).isSome = (m a).isSome := by
  by_cases ha : a = p
  · rw [ha, Function.update_self, h]
    rfl
  · rw [Function.update_of_ne ha]

theorem Holds.get (h : m.Holds p bs) {i : ℕ} (hi : i < bs.length) :
    m (cellAt p i) = some (bs.get ⟨i, hi⟩) := by
  induction bs generalizing p i with
  | nil => exact absurd hi (Nat.not_lt_zero i)
  | cons b bs ih =>
      cases i with
      | zero =>
          rw [cellAt_zero]
          exact h.1
      | succ i =>
          rw [← cellAt_one_add]
          exact ih h.2 (Nat.lt_of_succ_lt_succ hi)

/-- The bytes are there in every memory that agrees on them. -/
theorem Holds.congr (h : m.Holds p bs)
    (hsame : ∀ i < bs.length, m' (cellAt p i) = m (cellAt p i)) : m'.Holds p bs := by
  induction bs generalizing p with
  | nil => trivial
  | cons b bs ih =>
      constructor
      · have hfirst := hsame 0 (Nat.zero_lt_succ _)
        rw [cellAt_zero] at hfirst
        rw [hfirst]
        exact h.1
      · refine ih h.2 fun i hi => ?_
        rw [cellAt_one_add]
        exact hsame (i + 1) (Nat.succ_lt_succ hi)

/-- What is in a place is determined. -/
theorem Holds.unique {bs' : List (BitVec 8)} (h : m.Holds p bs) (h' : m.Holds p bs')
    (hlength : bs.length = bs'.length) : bs = bs' := by
  refine List.ext_get hlength fun i hi hi' => ?_
  exact Option.some.inj ((h.get hi).symm.trans (h'.get hi'))

/-! ### Strings -/

variable {s t : CString}

/-- A character. -/
theorem StringAt.char (h : m.StringAt p s) {i : ℕ} (hi : i < s.chars.length) :
    m (cellAt p i) = some (s.chars.get ⟨i, hi⟩) := by
  have hlt : i < (s.chars ++ [0]).length := by
    rw [List.length_append]
    omega
  rw [Holds.get h hlt]
  simp [List.getElem_append_left hi]

/-- The terminating zero. -/
theorem StringAt.nul (h : m.StringAt p s) : m (cellAt p s.chars.length) = some 0 := by
  have hlt : s.chars.length < (s.chars ++ [0]).length := by
    rw [List.length_append]
    exact Nat.lt_succ_self _
  rw [Holds.get h hlt]
  simp

/-- No character is zero. -/
theorem StringAt.char_ne (h : m.StringAt p s) {i : ℕ} (hi : i < s.chars.length) :
    m (cellAt p i) ≠ some 0 := by
  rw [h.char hi]
  intro hzero
  exact s.no_nul (Option.some.inj hzero ▸ List.get_mem _ _)

/-- **A string is shorter than the memory**: its zero would come earlier. -/
theorem StringAt.length_lt (h : m.StringAt p s) : s.chars.length < 2 ^ 32 := by
  by_contra hlong
  have hearlier : cellAt p (s.chars.length - 2 ^ 32) = cellAt p s.chars.length := by
    rw [cellAt, cellAt, BitVec.add_right_inj]
    refine BitVec.eq_of_toNat_eq ?_
    rw [BitVec.toNat_ofNat, BitVec.toNat_ofNat]
    omega
  refine h.char_ne (by omega : s.chars.length - 2 ^ 32 < s.chars.length) ?_
  rw [hearlier]
  exact h.nul

theorem strlenLoop_spec (chars : List (BitVec 8)) :
    ∀ (n : ℕ) (p : Ptr) (r : ℕ), (0 : BitVec 8) ∉ chars → m.Holds p (chars ++ [0]) →
      chars.length < n →
      m.strlenLoop n p (BitVec.ofNat 32 r) = .ok (BitVec.ofNat 32 (r + chars.length)) := by
  induction chars with
  | nil =>
      intro n p r _ hholds hn
      cases n with
      | zero => exact absurd hn (Nat.not_lt_zero _)
      | succ n =>
          rw [strlenLoop, read_eq hholds.1, ok_bind, if_neg (not_not.mpr rfl)]
          rfl
  | cons c chars ih =>
      intro n p r hnul hholds hn
      rw [List.mem_cons, not_or] at hnul
      cases n with
      | zero => exact absurd hn (Nat.not_lt_zero _)
      | succ n =>
          have hnext : BitVec.ofNat 32 r + 1 = BitVec.ofNat 32 (r + 1) := (BitVec.ofNat_add r 1).symm
          rw [strlenLoop, read_eq hholds.1, ok_bind, if_pos (Ne.symm hnul.1), hnext,
            ih n (p + 1) (r + 1) hnul.2 hholds.2 (Nat.lt_of_succ_lt_succ hn), List.length_cons,
            Nat.add_right_comm, Nat.add_assoc]

/-- **`strlen` finds the terminating zero.** -/
theorem strlen_spec (h : m.StringAt p s) :
    m.strlen p = .ok (BitVec.ofNat 32 s.chars.length) := by
  rw [strlen, show (0 : BitVec 32) = BitVec.ofNat 32 0 from rfl,
    strlenLoop_spec s.chars (2 ^ 32) p 0 s.no_nul h h.length_lt, Nat.zero_add]

end CMem

end Aim
