/-
**The rows that the cursor enters.**

When a newline or a full line moves the cursor to another row of the framebuffer console, `fbputc`
clears the next six rows, from the row that is entered on.  The loop stops in front of the first row
of the console, so that it does not run into the text above the cursor; when it is the first row that
is entered, it stops before it has cleared anything, and the text that was there stays.

Main definitions:

* `Aim.FbConsole.BlankRow` — a row shows nothing but the cursor;
* `Aim.FbConsole.Wraps` — the cursor comes back to the first row.

Main results:

* `Aim.entered_row_blank_iff` — **the row that is entered is blank, unless it is the first one and
  had text.**
-/

import AimKernel.FbConsole

set_option relaxedAutoImplicit false
set_option autoImplicit false

namespace Aim

open Patches

/-- The row shows only blanks, apart from a column. -/
def FbConsole.BlankRow (font : Font) (s : FbConsole) (x y : ℤ) : Prop :=
  ∀ j : ℕ, j < 80 → (j : ℤ) ≠ y → s.fb.cell s.bits (x.toNat, j) = s.fb.blank font x.toNat

/-- The character moves the cursor from the last row back to the first one. -/
def FbConsole.Wraps (s : FbConsole) (ch : ℤ) : Prop :=
  (ch = 10 ∨ ch ≠ 13 ∧ s.cony + 1 ≥ s.concols) ∧ s.conx + 1 ≥ s.conrows ∧ s.conx ≠ 0

section Rows

variable (font : Font) {s : FbConsole} {x y ch : ℕ}

/-- What the row shows that the cursor is in, next to it. -/
theorem FbConsole.At.blankRow_iff {fb : FbInfo} {f : ℕ × ℕ → Option CellImage} {bits : FbBits}
    (h : s.At fb x y) (hpatch : PatchedOn fb.InGrid (fb.cell bits) (fb.cell s.bits) f) :
    s.BlankRow font s.conx s.cony ↔
      ∀ j < 80, j ≠ y → (f (x, j)).getD (fb.cell bits (x, j)) = fb.blank font x := by
  rw [BlankRow, h.fb_eq, h.conx, h.cony, Int.toNat_natCast]
  constructor
  · intro hblank j hj hne
    rw [← hpatch (x, j) ⟨h.grid.1, hj⟩]
    exact hblank j hj (by exact_mod_cast hne)
  · intro hblank j hj hne
    rw [hpatch (x, j) ⟨h.grid.1, hj⟩]
    exact hblank j hj (by exact_mod_cast hne)

/-- The cursor is in one column. -/
theorem cursorPatch_of_ne (fb : FbInfo) (row : ℕ) {j : ℕ} (hj : j ≠ nextCol y ch) :
    cursorPatch font fb x y ch (row, j) = none := by
  rw [cursorPatch, point]
  split
  · rfl
  · exact if_neg fun h => hj (Prod.ext_iff.mp h).2

/-- Next to the cursor, a row that is entered is cleared if it is not the first one. -/
theorem putcPatch_entered (fb : FbInfo) (hleaves : LeavesRow y ch)
    (hzero : nextRow fb x y ch ≠ 0) {j : ℕ} (hj : j ≠ nextCol y ch) :
    putcPatch font fb x y ch (nextRow fb x y ch, j) = some (fb.blank font (nextRow fb x y ch)) := by
  rw [putcPatch, cursorPatch_of_ne font fb _ hj, Option.none_or, clearedPatch,
    if_pos ⟨hleaves, hzero⟩, blankRows, if_pos (by omega), Option.some_or]

/-- Next to the cursor, the first row is kept when the cursor comes back to it. -/
theorem putcPatch_wrapped (fb : FbInfo) (hx : x ≠ 0) (hzero : nextRow fb x y ch = 0) {j : ℕ}
    (hj : j ≠ nextCol y ch) : putcPatch font fb x y ch (0, j) = none := by
  have hcleared : clearedPatch font fb x y ch (0, j) = none := if_neg fun h => h.2 hzero
  have htyped : typedPatch font fb x y ch (0, j) = none := by
    rw [typedPatch, point]
    split
    · rfl
    · exact if_neg fun h => hx (Prod.ext_iff.mp h).1.symm
  rw [putcPatch, cursorPatch_of_ne font fb 0 hj, hcleared, htyped]
  rfl

/-- Coming back to the first row, in terms of the place of the cursor. -/
theorem FbConsole.At.wraps_iff {fb : FbInfo} (hs : s.At fb x y) :
    s.Wraps ch ↔ nextRow fb x y ch ≠ x ∧ nextRow fb x y ch = 0 := by
  have hrow : x < fb.pageRows * fb.pages := hs.grid.1
  have hcol : y < 80 := hs.grid.2
  have hleaves : ((ch : ℤ) = 10 ∨ (ch : ℤ) ≠ 13 ∧ s.cony + 1 ≥ s.concols) ↔ LeavesRow y ch := by
    rw [LeavesRow, hs.concols, hs.cony]
    omega
  rw [Wraps, hleaves, hs.conrows, hs.conx, hs.fb_eq, nextRow]
  by_cases hleave : LeavesRow y ch
  · rw [if_pos hleave]
    by_cases hlast : x + 1 = fb.pageRows * fb.pages
    · rw [if_pos hlast, ← hlast]
      constructor
      · intro h
        exact ⟨by omega, rfl⟩
      · intro h
        exact ⟨hleave, by omega, by omega⟩
    · rw [if_neg hlast]
      constructor
      · intro h
        omega
      · intro h
        omega
  · rw [if_neg hleave]
    constructor
    · exact fun h => absurd h.1 hleave
    · exact fun h => absurd rfl h.1

/-- **The row that one call enters.** -/
theorem FbConsole.Inv.entered_blank_iff (hs : s.Inv) {c : ℤ} (hlow : 0 ≤ c) (hhigh : c ≤ 255) :
    ∃ s', fbputc font s c = .ok s' ∧
      ((s'.conx ≠ s.conx → s'.BlankRow font s'.conx s'.cony) ↔
        (s.Wraps c → s.BlankRow font 0 (if c = 10 then s.cony else 0))) := by
  lift c to ℕ using hlow
  obtain ⟨x, y, hat⟩ := hs.at
  obtain ⟨s', hrun, hat', hpatch⟩ := hat.putc font (by omega : c < 256)
  have hmoved : s'.conx ≠ s.conx ↔ nextRow s.fb x y c ≠ x := by
    rw [hat'.conx, hat.conx]
    omega
  refine ⟨s', hrun, ?_⟩
  rw [hmoved, hat.wraps_iff, hat'.blankRow_iff font hpatch]
  by_cases hsame : nextRow s.fb x y c = x
  · -- the cursor stays in its row
    constructor
    · exact fun _ h => absurd hsame h.1
    · exact fun _ h => absurd hsame h
  have hleaves : LeavesRow y c := by
    by_contra hstays
    exact hsame (if_neg hstays)
  by_cases hzero : nextRow s.fb x y c = 0
  · -- it comes back to the first row, which is not touched
    have hcol : (if (c : ℤ) = 10 then s.cony else 0) = (nextCol y c : ℕ) := by
      rw [nextCol, hat.cony]
      by_cases hnewline : c = 10
      · rw [if_pos (by omega), if_pos hnewline]
      · rw [if_neg (by omega), if_neg hnewline, if_pos (by rw [LeavesRow] at hleaves; omega)]
        rfl
    have hkept : ∀ j, j ≠ nextCol y c → putcPatch font s.fb x y c (0, j) = none := fun j hj =>
      putcPatch_wrapped font s.fb (by omega) hzero hj
    rw [hcol, hzero]
    constructor
    · intro hblank _ j hj hne
      have hcell := hblank (by omega) j hj (by exact_mod_cast hne)
      rw [hkept j (by exact_mod_cast hne), Option.getD_none] at hcell
      exact hcell
    · intro hblank _ j hj hne
      rw [hkept j hne, Option.getD_none]
      exact hblank ⟨by omega, rfl⟩ j hj (by exact_mod_cast hne)
  · -- another row is entered, and cleared
    constructor
    · exact fun _ h => absurd h.2 hzero
    · intro _ _ j _ hne
      rw [putcPatch_entered font s.fb hleaves hzero hne]
      rfl

end Rows

/-- **The row that is entered is blank, unless it is the first one and had text**: of every call in
every run. -/
theorem entered_row_blank_iff (font : Font) {fb : FbInfo} (hd : fb.Display) (bits : FbBits) :
    ∃ s₀, startConsole font fb bits = .ok s₀ ∧ ∀ s, (fbConsole font).Reachable s₀ s →
      ∀ ch, 0 ≤ ch → ch ≤ 255 → ∃ s', fbputc font s ch = .ok s' ∧
        ((s'.conx ≠ s.conx → s'.BlankRow font s'.conx s'.cony) ↔
          (s.Wraps ch → s.BlankRow font 0 (if ch = 10 then s.cony else 0))) := by
  obtain ⟨s₀, hstart, hs₀, -⟩ := startConsole_spec font hd bits
  refine ⟨s₀, hstart, fun s hreach ch hlow hhigh => ?_⟩
  exact (hs₀.reachable font hreach).1.entered_blank_iff font hlow hhigh

/-- `A` as it is in `terminal.font`, and nothing else. -/
def fontA : Font := fun ch i j =>
  if ch = 65 then
    (([[0, 0, 1, 1, 1, 0], [0, 1, 0, 0, 0, 1], [0, 1, 0, 0, 0, 1], [0, 1, 0, 0, 0, 1],
      [0, 1, 1, 1, 1, 1], [0, 1, 0, 0, 0, 1], [0, 1, 0, 0, 0, 1]] :
      List (List (BitVec 8))).getD i []).getD j 0
  else 0

/-- Two rows. -/
def twoRows : FbInfo := ⟨480, 18, 1440⟩

theorem twoRows_display : twoRows.Display := by
  constructor
  · exact le_refl 480
  · show 9 ≤ 18
    omega
  · exact le_refl (3 * 480)
  · show 1440 * 18 ≤ 2 ^ 32
    omega

/-- The console of two rows, at its start. -/
theorem entered_row_blank_iff_newline :
    ∃ s₀, startConsole fontA twoRows (fun _ => 0) = .ok s₀ ∧
      ∃ s', fbputc fontA s₀ 10 = .ok s' ∧
        ((s'.conx ≠ s₀.conx → s'.BlankRow fontA s'.conx s'.cony) ↔
          (s₀.Wraps 10 → s₀.BlankRow fontA 0 (if (10 : ℤ) = 10 then s₀.cony else 0))) := by
  obtain ⟨s₀, hstart, hcalls⟩ := entered_row_blank_iff fontA twoRows_display fun _ => 0
  exact ⟨s₀, hstart, hcalls s₀ .init 10 (by omega) (by omega)⟩

/-- `A` is typed into the first row of two, and two newlines follow: the second one comes back to
the first row, which still shows the letter. -/
theorem not_entered_row_blank_second_pass :
    ∃ s₀ s₁ s₂ s₃, startConsole fontA twoRows (fun _ => 0) = .ok s₀ ∧
      fbputc fontA s₀ 65 = .ok s₁ ∧ fbputc fontA s₁ 10 = .ok s₂ ∧ fbputc fontA s₂ 10 = .ok s₃ ∧
      s₃.conx ≠ s₂.conx ∧ ¬ s₃.BlankRow fontA s₃.conx s₃.cony := by
  obtain ⟨s₀, hstart, hs₀, hfb₀, hx₀, hy₀⟩ := startConsole_spec fontA twoRows_display fun _ => 0
  have hcorner : twoRows.InGrid (0, 0) := ⟨by decide, by decide⟩
  have hat₀ : s₀.At twoRows 0 0 := ⟨hs₀.toReady, hfb₀, hx₀, hy₀, hcorner⟩
  -- the letter, a newline to the second row, and one back to the first
  obtain ⟨s₁, hrun₁, hat₁, hpatch₁⟩ := hat₀.putc fontA (by omega : 65 < 256)
  obtain ⟨s₂, hrun₂, hat₂, hpatch₂⟩ := hat₁.putc fontA (by omega : 10 < 256)
  obtain ⟨s₃, hrun₃, hat₃, hpatch₃⟩ := hat₂.putc fontA (by omega : 10 < 256)
  have hcell : twoRows.cell s₃.bits (0, 0) = twoRows.charImage fontA 0 65 := by
    rw [hpatch₃.kept hcorner rfl, hpatch₂.kept hcorner rfl]
    exact hpatch₁.shown hcorner rfl
  have hx₂ : s₂.conx = (1 : ℕ) := hat₂.conx
  have hx₃ : s₃.conx = (0 : ℕ) := hat₃.conx
  have hy₃ : s₃.cony = (1 : ℕ) := hat₃.cony
  refine ⟨s₀, s₁, s₂, s₃, hstart, hrun₁, hrun₂, hrun₃, by rw [hx₃, hx₂]; omega, fun hblank => ?_⟩
  rw [hx₃, hy₃] at hblank
  have hletter := hblank 0 (by omega) (by omega)
  rw [Int.toNat_natCast, hat₃.fb_eq, hcell] at hletter
  have hdot := congrFun (congrFun hletter 0) 2
  revert hdot
  decide

end Aim
