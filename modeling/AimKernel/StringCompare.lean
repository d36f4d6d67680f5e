/-
**Comparing strings.**

`strcmp` finds the lengths of both strings, and compares as many bytes as the shorter one has,
together with its terminating zero.  The zero is less than any character, so that a string comes
before the longer ones that it begins; the others are in the order of their first different bytes.

Main definitions:

* `Aim.CMem.memcmp`, `Aim.CMem.strcmp` — `memcmp.c` and `strcmp.c`;
* `Aim.CMem.InString` — the bytes of a string in memory.

Main results:

* `Aim.CMem.strcmp_spec` — `strcmp` in memory refines `Aim.strcmp`, on which the list of devices
  rests;
* `Aim.strcmp_lexicographic` — **`strcmp` reads the strings only, and compares them in
  lexicographic order.**
-/

import AimKernel.CMemory
import AimKernel.DeviceList

set_option relaxedAutoImplicit false
set_option autoImplicit false

namespace Aim

/-! ### `memcmp.c` and `strcmp.c` -/

namespace CMem

/-- The loop of `memcmp`. -/
def memcmpLoop (m : CMem) : ℕ → Ptr → Ptr → Except CFault ℤ
  | 0, _, _ => .ok 0
  | n + 1, p1, p2 => do
      let b1 ← m.read p1
      let b2 ← m.read p2
      if b1 ≠ b2 then return if b1 < b2 then -1 else 1
      else memcmpLoop m n (p1 + 1) (p2 + 1)

/-- `memcmp(s1, s2, n)`. -/
def memcmp (m : CMem) (s1 s2 : Ptr) (n : BitVec 32) : Except CFault ℤ :=
  m.memcmpLoop n.toNat s1 s2

/-- `strcmp(s1, s2)`. -/
def strcmp (m : CMem) (s1 s2 : Ptr) : Except CFault ℤ := do
  let l1 ← m.strlen s1
  let l2 ← m.strlen s2
  m.memcmp s1 s2 ((if l1 < l2 then l1 else l2) + 1)

/-! ### Strings in memory -/

variable {m : CMem} {p q : Ptr} {s t : CString}

theorem memcmpLoop_spec (n : ℕ) :
    ∀ (p q : Ptr) (xs ys : List (BitVec 8)), n ≤ xs.length → n ≤ ys.length →
      m.Holds p xs → m.Holds q ys → m.memcmpLoop n p q = .ok (Aim.memcmp n xs ys) := by
  induction n with
  | zero =>
      intro p q xs ys _ _ _ _
      cases xs with
      | nil => rfl
      | cons x xs => rfl
  | succ n ih =>
      intro p q xs ys hxs hys hp hq
      cases xs with
      | nil => exact absurd hxs (Nat.not_succ_le_zero n)
      | cons x xs =>
          cases ys with
          | nil => exact absurd hys (Nat.not_succ_le_zero n)
          | cons y ys =>
              rw [memcmpLoop, read_eq hp.1, ok_bind, read_eq hq.1, ok_bind, Aim.memcmp]
              by_cases hne : x ≠ y
              · rw [if_pos hne, if_pos hne]
                rfl
              · rw [if_neg hne, if_neg hne]
                exact ih (p + 1) (q + 1) xs ys (Nat.le_of_succ_le_succ hxs)
                  (Nat.le_of_succ_le_succ hys) hp.2 hq.2

/-- Two strings that fill the memory are the same one: there is only one zero. -/
theorem StringAt.eq_of_full (hs : m.StringAt p s) (ht : m.StringAt q t)
    (hlens : s.chars.length + 1 = 2 ^ 32) (hlent : t.chars.length + 1 = 2 ^ 32) : s = t := by
  have hlength : s.chars.length = t.chars.length := by omega
  -- the zero of `t` is at some place of `s`
  have hplace : cellAt p (cellAt q t.chars.length - p).toNat = cellAt q t.chars.length := by
    rw [cellAt, BitVec.ofNat_toNat, BitVec.setWidth_eq, BitVec.add_comm, BitVec.sub_add_cancel]
  have hlast : (cellAt q t.chars.length - p).toNat = s.chars.length := by
    have hlt := (cellAt q t.chars.length - p).isLt
    by_contra hne
    refine hs.char_ne (by omega : (cellAt q t.chars.length - p).toNat < s.chars.length) ?_
    rw [hplace]
    exact ht.nul
  have hsame : p = q := by
    rw [hlast, ← hlength, cellAt, cellAt, BitVec.add_left_inj] at hplace
    exact hplace
  have hchars := Holds.unique hs (hsame ▸ ht) (by
    rw [List.length_append, List.length_append, hlength])
  cases s with
  | mk chars hnul =>
      cases t with
      | mk chars' hnul' => simpa using hchars

/-- **`strcmp` in memory** gives what it gives for the two strings. -/
theorem strcmp_spec (hs : m.StringAt p s) (ht : m.StringAt q t) :
    m.strcmp p q = .ok (Aim.strcmp s t) := by
  have hlens := hs.length_lt
  have hlent := ht.length_lt
  rw [strcmp, strlen_spec hs, ok_bind, strlen_spec ht, ok_bind, memcmp]
  by_cases hfull : s.chars.length + 1 = 2 ^ 32 ∧ t.chars.length + 1 = 2 ^ 32
  · -- the number of bytes is zero again
    have hsame := hs.eq_of_full ht hfull.1 hfull.2
    subst hsame
    have hlen : ((if BitVec.ofNat 32 s.chars.length < BitVec.ofNat 32 s.chars.length then
        BitVec.ofNat 32 s.chars.length else BitVec.ofNat 32 s.chars.length) + 1).toNat = 0 := by
      rw [ite_self, BitVec.toNat_add, BitVec.toNat_ofNat]
      show (s.chars.length % 2 ^ 32 + 1) % 2 ^ 32 = 0
      omega
    rw [hlen, memcmpLoop, strcmp_eq_zero_iff.mpr rfl]
  · have hlen : ((if BitVec.ofNat 32 s.chars.length < BitVec.ofNat 32 t.chars.length then
        BitVec.ofNat 32 s.chars.length else BitVec.ofNat 32 t.chars.length) + 1).toNat =
        min s.chars.length t.chars.length + 1 := by
      have hshorter : BitVec.ofNat 32 s.chars.length < BitVec.ofNat 32 t.chars.length ↔
          s.chars.length < t.chars.length := by
        rw [BitVec.lt_def, BitVec.toNat_ofNat, BitVec.toNat_ofNat, Nat.mod_eq_of_lt hlens,
          Nat.mod_eq_of_lt hlent]
      by_cases hlt : s.chars.length < t.chars.length
      · rw [if_pos (hshorter.mpr hlt), BitVec.toNat_add, BitVec.toNat_ofNat]
        show (s.chars.length % 2 ^ 32 + 1) % 2 ^ 32 = _
        omega
      · rw [if_neg (mt hshorter.mp hlt), BitVec.toNat_add, BitVec.toNat_ofNat]
        show (t.chars.length % 2 ^ 32 + 1) % 2 ^ 32 = _
        omega
    rw [hlen, memcmpLoop_spec _ p q _ _ (by simp) (by simp) hs ht]
    rfl

/-- The address of a byte of a string, or of its terminating zero. -/
def InString (p : Ptr) (s : CString) (a : Ptr) : Prop := ∃ i ≤ s.chars.length, a = cellAt p i

/-- A string is there in every memory that agrees on its bytes. -/
theorem StringAt.congr {m' : CMem} (h : m.StringAt p s)
    (hsame : ∀ a, InString p s a → m' a = m a) : m'.StringAt p s := by
  refine Holds.congr h fun i hi => hsame _ ⟨i, ?_, rfl⟩
  rw [List.length_append] at hi
  exact Nat.le_of_lt_succ hi

end CMem

/-! ### The law of `strcmp` -/

variable {s t : CString}

/-- **What `strcmp` is for.** -/
structure ComparesStrings (m : CMem) (p q : Ptr) (s t : CString) (r : ℤ) : Prop where
  /-- No byte but those of the strings is read: there need be no other ones. -/
  reads : ∀ m' : CMem, (∀ a, CMem.InString p s a ∨ CMem.InString q t a → m' a = m a) →
    m'.strcmp p q = .ok r
  less : r < 0 ↔ s.bytes < t.bytes
  equal : r = 0 ↔ s = t
  greater : 0 < r ↔ t.bytes < s.bytes
  antisymmetric : m.strcmp q p = .ok (-r)
  transitive : ∀ o u, m.StringAt o u → ∃ r₁ r₂, m.strcmp q o = .ok r₁ ∧ m.strcmp p o = .ok r₂ ∧
    (r ≤ 0 → r₁ ≤ 0 → r₂ ≤ 0) ∧ (r < 0 → r₁ < 0 → r₂ < 0)
  /-- The list of devices, which compares names so, gives the first device that has the name, and
  none if there is no such device. -/
  found : ∀ (l : DeviceList) (es : List Ptr), l.Holds es →
    l.fromName t = .ok (((l.devs es).find? fun d => decide ((l.device d).name = t)).getD 0)

/-- **`strcmp` reads the strings only, and compares them in lexicographic order.** -/
theorem strcmp_lexicographic {m : CMem} {p q : Ptr} (hs : m.StringAt p s) (ht : m.StringAt q t) :
    ComparesStrings m p q s t (strcmp s t) where
  reads m' hsame := CMem.strcmp_spec (hs.congr fun a ha => hsame a (Or.inl ha))
    (ht.congr fun a ha => hsame a (Or.inr ha))
  less := strcmp_neg_iff
  equal := strcmp_eq_zero_iff
  greater := strcmp_pos_iff
  antisymmetric := by rw [CMem.strcmp_spec ht hs, strcmp_swap s t]
  transitive := by
    intro o u hu
    refine ⟨strcmp t u, strcmp s u, CMem.strcmp_spec ht hu, CMem.strcmp_spec hs hu, ?_, ?_⟩
    · rw [strcmp_nonpos_iff, strcmp_nonpos_iff, strcmp_nonpos_iff]
      exact le_trans
    · rw [strcmp_neg_iff, strcmp_neg_iff, strcmp_neg_iff]
      exact lt_trans
  found l es h := l.fromName_eq h t

/-- `a` at 0, and a character above 127 at 2. -/
theorem strcmp_lexicographic_high :
    ComparesStrings (fun a => if a = 0 then some 97 else if a = 2 then some 200
        else if a = 1 ∨ a = 3 then some 0 else none) 0 2
      ⟨[97], by decide⟩ ⟨[200], by decide⟩ (strcmp ⟨[97], by decide⟩ ⟨[200], by decide⟩) :=
  strcmp_lexicographic ⟨rfl, rfl, trivial⟩ ⟨rfl, rfl, trivial⟩

end Aim
