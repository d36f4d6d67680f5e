/-
**Strings of C.**

A string is characters other than zero, behind which a terminating zero is understood.  The zero is
less than any character, so that `strcmp`, which compares as many bytes as the shorter string has
together with its zero, puts a string before the longer ones that it begins.

Main definitions:

* `Aim.CString`, `Aim.CString.bytes` — strings, and their characters as numbers;
* `Aim.strlen`, `Aim.memcmp`, `Aim.strcmp` — the functions of the C library.

Main results:

* `Aim.strcmp_neg_iff`, `Aim.strcmp_swap`, `Aim.strcmp_eq_zero_iff` — **`strcmp` is the
  lexicographic order.**
-/

import Mathlib

set_option relaxedAutoImplicit false
set_option autoImplicit false

namespace Aim

/-! ### Strings -/

/-- The characters of a C string, before its terminating zero. -/
structure CString where
  chars : List (BitVec 8)
  no_nul : (0 : BitVec 8) ∉ chars
deriving DecidableEq

/-- `strlen(s)`. -/
def strlen (s : CString) : ℕ := s.chars.length

/-- `memcmp(s1, s2, n)`. -/
def memcmp : ℕ → List (BitVec 8) → List (BitVec 8) → ℤ
  | n + 1, p1 :: s1, p2 :: s2 =>
    if p1 ≠ p2 then (if p1 < p2 then -1 else 1) else memcmp n s1 s2
  | _, _, _ => 0

/-- `strcmp(s1, s2)`. -/
def strcmp (s1 s2 : CString) : ℤ :=
  memcmp (min (strlen s1) (strlen s2) + 1) (s1.chars ++ [0]) (s2.chars ++ [0])

/-! ### The order of strings -/

/-- The characters, as numbers. -/
def CString.bytes (s : CString) : List ℕ := s.chars.map BitVec.toNat

theorem CString.bytes_injective : Function.Injective CString.bytes := by
  intro s t h
  have hchars : s.chars = t.chars :=
    List.map_injective_iff.mpr (fun _ _ => BitVec.eq_of_toNat_eq) h
  cases s with
  | mk chars hnul =>
      cases t with
      | mk chars' hnul' => simpa using hchars

theorem memcmp_neg_iff {s1 s2 : List (BitVec 8)} (h1 : (0 : BitVec 8) ∉ s1)
    (h2 : (0 : BitVec 8) ∉ s2) :
    memcmp (min s1.length s2.length + 1) (s1 ++ [0]) (s2 ++ [0]) < 0 ↔
      s1.map BitVec.toNat < s2.map BitVec.toNat := by
  have hpos : ∀ {b : BitVec 8}, (0 : BitVec 8) ≠ b → 0 < b.toNat := by
    intro b hb
    refine Nat.pos_of_ne_zero fun hzero => hb (BitVec.eq_of_toNat_eq ?_)
    rw [hzero]
    rfl
  induction s1 generalizing s2 with
  | nil =>
      cases s2 with
      | nil => simp [memcmp]
      | cons b s2 =>
          have hb : (0 : BitVec 8) ≠ b := fun heq => h2 (heq ▸ List.mem_cons_self)
          have hless : (0 : BitVec 8) < b := hpos hb
          simp only [List.nil_append, List.cons_append, memcmp, if_pos hb, if_pos hless]
          simp
  | cons a s1 ih =>
      cases s2 with
      | nil =>
          have ha : (0 : BitVec 8) ≠ a := fun heq => h1 (heq ▸ List.mem_cons_self)
          have hmore : ¬ a < (0 : BitVec 8) := Nat.not_lt_zero _
          simp only [List.nil_append, List.cons_append, memcmp, if_pos ha.symm, if_neg hmore]
          simp
      | cons b s2 =>
          rw [List.mem_cons, not_or] at h1 h2
          rw [List.length_cons, List.length_cons, Nat.add_min_add_right, List.cons_append,
            List.cons_append, memcmp, List.map_cons, List.map_cons, List.cons_lt_cons_iff]
          by_cases hab : a = b
          · subst hab
            have hrest := ih h1.2 h2.2
            rw [if_neg (not_not.mpr rfl)]
            constructor
            · exact fun h => Or.inr ⟨rfl, hrest.mp h⟩
            · intro h
              rcases h with hless | hsame
              · exact absurd hless (lt_irrefl _)
              · exact hrest.mpr hsame.2
          · have hne : a.toNat ≠ b.toNat := fun heq => hab (BitVec.eq_of_toNat_eq heq)
            rw [if_pos hab]
            by_cases hless : a < b
            · rw [if_pos hless]
              exact iff_of_true (by omega) (Or.inl hless)
            · rw [if_neg hless]
              exact iff_of_false (by omega) fun h => h.elim hless fun h => hne h.1

theorem memcmp_swap (n : ℕ) : ∀ s1 s2 : List (BitVec 8), memcmp n s2 s1 = -memcmp n s1 s2 := by
  induction n with
  | zero =>
      intro s1 s2
      simp [memcmp]
  | succ n ih =>
      intro s1 s2
      cases s1 with
      | nil =>
          cases s2 with
          | nil => rfl
          | cons b s2 => rfl
      | cons a s1 =>
          cases s2 with
          | nil => rfl
          | cons b s2 =>
              rw [memcmp, memcmp, ih]
              by_cases hab : a = b
              · subst hab
                simp
              · rw [if_pos (Ne.symm hab), if_pos hab]
                by_cases hless : a < b
                · rw [if_pos hless, if_neg (BitVec.not_lt.mpr (BitVec.le_of_lt hless))]
                  rfl
                · have hmore : b < a := by
                    have hne : a.toNat ≠ b.toNat := fun heq => hab (BitVec.eq_of_toNat_eq heq)
                    rw [BitVec.lt_def] at hless ⊢
                    omega
                  rw [if_neg hless, if_pos hmore]

/-- `memcmp` is zero for equal bytes. -/
theorem memcmp_eq_zero_iff (n : ℕ) : ∀ s1 s2 : List (BitVec 8), n ≤ s1.length → n ≤ s2.length →
    (memcmp n s1 s2 = 0 ↔ s1.take n = s2.take n) := by
  induction n with
  | zero =>
      intro s1 s2 _ _
      simp [memcmp]
  | succ n ih =>
      intro s1 s2 h1 h2
      cases s1 with
      | nil => exact absurd h1 (Nat.not_succ_le_zero n)
      | cons a s1 =>
          cases s2 with
          | nil => exact absurd h2 (Nat.not_succ_le_zero n)
          | cons b s2 =>
              have hrest := ih s1 s2 (Nat.le_of_succ_le_succ h1) (Nat.le_of_succ_le_succ h2)
              rw [memcmp, List.take_succ_cons, List.take_succ_cons, List.cons.injEq]
              by_cases hab : a = b
              · rw [if_neg (not_not.mpr hab), hrest, and_iff_right hab]
              · rw [if_pos hab]
                refine iff_of_false ?_ fun h => hab h.1
                split
                · decide
                · decide

variable {s t : CString}

/-- A negative result is the lexicographic order. -/
theorem strcmp_neg_iff : strcmp s t < 0 ↔ s.bytes < t.bytes := memcmp_neg_iff s.no_nul t.no_nul

/-- `strcmp` is antisymmetric. -/
theorem strcmp_swap (s t : CString) : strcmp t s = -strcmp s t := by
  rw [strcmp, strcmp, memcmp_swap, Nat.min_comm]

theorem strcmp_pos_iff : 0 < strcmp s t ↔ t.bytes < s.bytes := by
  rw [← strcmp_neg_iff, strcmp_swap s t]
  omega

theorem strcmp_nonpos_iff : strcmp s t ≤ 0 ↔ s.bytes ≤ t.bytes := by
  rw [← not_lt, strcmp_pos_iff, not_lt]

/-- `strcmp` tells equal strings apart from different ones. -/
theorem strcmp_eq_zero_iff : strcmp s t = 0 ↔ s = t := by
  constructor
  · intro hzero
    have hnotless : ¬ s.bytes < t.bytes := by
      rw [← strcmp_neg_iff]
      omega
    have hnotmore : ¬ t.bytes < s.bytes := by
      rw [← strcmp_pos_iff]
      omega
    exact CString.bytes_injective (le_antisymm (not_lt.mp hnotmore) (not_lt.mp hnotless))
  · rintro rfl
    have hswap := strcmp_swap s s
    omega

end Aim
