/-
**The console on the framebuffer.**

The kernel's console on the Raspberry Pi 2 has rows of 80 characters.  When the display has room for
more columns, they are used for further pages of rows: a row is drawn on the page and at the place
that a division and a remainder give.  `fbputc` draws a character, moves the cursor, clears rows
ahead of it, and draws the cursor.

Main definitions:

* `Aim.FbConsole`, `Aim.fbcondrawch`, `Aim.fbputc`, `Aim.fbconcls` — `mach_early_init.c`;
* `Aim.startConsole`, `Aim.fbConsole` — its start, and the machine that answers calls;
* `Aim.FbInfo.InGrid`, `Aim.FbInfo.cell` — the cells of the console, as pixels;
* `Aim.FbConsole.Ready`, `Aim.FbConsole.Inv` — the invariants;
* `Aim.putcPatch` — what a call of `fbputc` changes.

Main results:

* `Aim.fbcondrawch_spec` — a cell is drawn, and no other one;
* `Aim.fbputc_spec` — **what one call does**;
* `Aim.console_safe` — **the cursor stays on the console, and everything is drawn in the frame.**
-/

import AimKernel.Framebuffer
import AimKernel.Machine

set_option relaxedAutoImplicit false
set_option autoImplicit false

namespace Aim

open Patches

/-! ### `mach_early_init.c` -/

/-- `CONPAGE_COLS`. -/
def conpageCols : ℤ := 80

/-- `CONPAGE_COL_SPACE`. -/
def conpageColSpace : ℤ := 0

/-- `a / b`. -/
def intDiv (a b : ℤ) : Except FbFault ℤ := if b = 0 then .error .divZero else .ok (a.tdiv b)

/-- `a % b`. -/
def intMod (a b : ℤ) : Except FbFault ℤ := if b = 0 then .error .divZero else .ok (a.tmod b)

/-- An `int`. -/
def int32 (n : ℤ) : ℤ := n.bmod (2 ^ 32)

/-- The display, its frame, and the variables of the console. -/
structure FbConsole where
  fb : FbInfo
  bits : FbBits
  pagecols : ℤ
  conrcols : ℤ
  conrrows : ℤ
  concols : ℤ
  conrows : ℤ
  conx : ℤ
  cony : ℤ
  fbconenable : Bool

/-- `fgcolor[colorid]`. -/
def fgcolor : BitVec 32 := -1

/-- `bgcolor[colorid]`. -/
def bgcolor (colorid : ℤ) : Except FbFault (BitVec 32) :=
  if colorid = 0 then .ok 0
  else if colorid = 1 then .ok 0x404040
  else if colorid = 2 then .ok 0xffff00
  else .error .noColor

/-- `fbcondrawch(x, y, ch)`. -/
def fbcondrawch (font : Font) (s : FbConsole) (x y ch : ℤ) : Except FbFault FbConsole := do
  let pagecolid ← intDiv x s.conrrows
  let y := y + pagecolid * (conpageCols + conpageColSpace)
  let x ← intMod x s.conrrows
  let colorid := if ch = 0 then 2 else pagecolid.tmod 2
  let ch := if ch = 0 then 32 else ch
  let bg ← bgcolor colorid
  let bits ← fbdrawch s.fb font s.bits (x * 9) (y * 6) fgcolor bg ch
  return { s with bits := bits }

/-- The character is drawn, and the cursor is moved; whether it left its row is `xflag`. -/
def advance (font : Font) (s : FbConsole) (ch : ℤ) : Except FbFault (FbConsole × Bool) :=
  if ch = 10 then
    .ok ({ s with conx := s.conx + 1 }, true)
  else if ch = 13 then
    .ok ({ s with cony := 0 }, false)
  else do
    let s ← fbcondrawch font s s.conx s.cony ch
    if s.cony + 1 ≥ s.concols then
      return ({ s with cony := 0, conx := s.conx + 1 }, true)
    else
      return ({ s with cony := s.cony + 1 }, false)

/-- `for (i = 0; i < concols; i++) fbcondrawch(x, i, ' ')`. -/
def clearRow (font : Font) (s : FbConsole) (x : ℤ) : Except FbFault FbConsole :=
  (List.range s.concols.toNat).foldlM (fun s (i : ℕ) => fbcondrawch font s x i 32) s

/-- The loop over `r`, with so many rounds left. -/
def clearAhead (font : Font) : ℕ → ℤ → FbConsole → Except FbFault FbConsole
  | 0, _, s => .ok s
  | n + 1, r, s => do
      let m ← intMod (s.conx + r) s.conrows
      if m = 0 then
        return s
      else
        let s ← clearRow font s (s.conx + r)
        clearAhead font n (r + 1) s

/-- Behind the move: the cursor comes back to the console, rows are cleared, and it is drawn. -/
def settle (font : Font) (ch : ℤ) (s : FbConsole) (xflag : Bool) : Except FbFault FbConsole := do
  let s := if s.conx ≥ s.conrows then { s with conx := 0 } else s
  let s ← if xflag then clearAhead font 6 0 s else .ok s
  if ch ≠ 13 then fbcondrawch font s s.conx s.cony 0 else .ok s

/-- `fbputc(ch)`. -/
def fbputc (font : Font) (s : FbConsole) (ch : ℤ) : Except FbFault FbConsole :=
  if s.fbconenable then do
    let s ← if ch ≠ 10 then fbcondrawch font s s.conx s.cony 32 else .ok s
    let moved ← advance font s ch
    settle font ch moved.1 moved.2
  else
    .ok s

/-- `fbconcls()`. -/
def fbconcls (font : Font) (s : FbConsole) : Except FbFault FbConsole := do
  let s ← (List.range s.conrows.toNat).foldlM (fun s _ =>
    (List.range s.concols.toNat).foldlM (fun s _ => fbputc font s 32) s) s
  return { s with conx := 0, cony := 0 }

/-- `rpi2_fbdev_init()`, when `fbinit` has filled in `fb`. -/
def rpi2FbdevInit (fb : FbInfo) (bits : FbBits) : FbConsole where
  fb := fb
  bits := bits
  conrrows := (fb.height / 9 : ℕ)
  conrcols := (fb.width / 6 : ℕ)
  pagecols := (((fb.width / 6 : ℕ) : ℤ) - conpageColSpace).tdiv conpageCols
  concols := conpageCols
  conrows := int32 ((fb.height / 9 : ℕ) *
    (((fb.width / 6 : ℕ) : ℤ) - conpageColSpace).tdiv conpageCols)
  conx := 0
  cony := 0
  fbconenable := false

/-- `rpi2_fbdev_init()`, and `rpi2_fbdev_jumphandler()`, which moves `fb.bits` with the frame. -/
def startConsole (font : Font) (fb : FbInfo) (bits : FbBits) : Except FbFault FbConsole := do
  let s := rpi2FbdevInit fb bits
  let bits ← fbcls s.fb s.bits 0x000000
  fbconcls font { s with fbconenable := true, bits := bits }

/-- The calls. -/
inductive FbCall
  | putc (ch : ℤ)
  | cls

/-- The console, given characters with codes up to 255. -/
def fbConsole (font : Font) : Machine FbConsole FbCall FbFault where
  legal
    | _, .putc ch => 0 ≤ ch ∧ ch ≤ 255
    | _, .cls => True
  step
    | s, .putc ch => fbputc font s ch
    | s, .cls => fbconcls font s

/-! ### Cells -/

/-- The pixels of a cell. -/
abbrev CellImage := Fin 9 → Fin 6 → BitVec 24

namespace FbInfo

variable (fb : FbInfo)

/-- The rows of a page, and the pages. -/
def pageRows : ℕ := fb.height / 9

def pages : ℕ := fb.width / 480

/-- A cell of the console. -/
def InGrid (p : ℕ × ℕ) : Prop := p.1 < fb.pageRows * fb.pages ∧ p.2 < 80

/-- What a cell shows. -/
def cell (bits : FbBits) (p : ℕ × ℕ) : CellImage := fun i j =>
  fb.pixel bits (p.1 % fb.pageRows * 9 + i, (p.2 + p.1 / fb.pageRows * 80) * 6 + j)

/-- The background of a row. -/
def pageColor (x : ℕ) : BitVec 32 := if x / fb.pageRows % 2 = 0 then 0 else 0x404040

/-- How a character looks in a row. -/
def charImage (font : Font) (x ch : ℕ) : CellImage := fun i j =>
  glyph font fgcolor (if ch = 0 then 0xffff00 else fb.pageColor x) (if ch = 0 then 32 else ch) i j

/-- A blank. -/
def blank (font : Font) (x : ℕ) : CellImage := fb.charImage font x 32

end FbInfo

/-- The variables have the values of `rpi2_fbdev_init`, and the console is on. -/
structure FbConsole.Ready (s : FbConsole) : Prop where
  display : s.fb.Display
  conrrows : s.conrrows = s.fb.pageRows
  concols : s.concols = 80
  conrows : s.conrows = (s.fb.pageRows * s.fb.pages : ℕ)
  enabled : s.fbconenable = true

/-- The cursor is on the console. -/
structure FbConsole.Inv (s : FbConsole) : Prop extends s.Ready where
  cursor : ∃ x y : ℕ, s.conx = x ∧ s.cony = y ∧ s.fb.InGrid (x, y)

section Cells

variable (font : Font) {s : FbConsole}

theorem FbInfo.Display.pageRows_pos {fb : FbInfo} (hd : fb.Display) : 0 < fb.pageRows := by
  have hheight := hd.height
  rw [FbInfo.pageRows]
  omega

theorem FbInfo.Display.pages_pos {fb : FbInfo} (hd : fb.Display) : 0 < fb.pages := by
  have hwidth := hd.width
  rw [FbInfo.pages]
  omega

/-- A cell is in the frame. -/
theorem FbInfo.cell_in_frame (fb : FbInfo) (hpos : 0 < fb.pageRows) {p : ℕ × ℕ}
    (hp : fb.InGrid p) :
    p.1 % fb.pageRows * 9 + 9 ≤ fb.height ∧
      (p.2 + p.1 / fb.pageRows * 80) * 6 + 6 ≤ fb.width := by
  have hrow : p.1 % fb.pageRows < fb.pageRows := Nat.mod_lt _ hpos
  have hpage : p.1 / fb.pageRows < fb.pages := Nat.div_lt_of_lt_mul hp.1
  have hcol := hp.2
  have hrows : fb.pageRows = fb.height / 9 := rfl
  have hpages : fb.pages = fb.width / 480 := rfl
  constructor
  · omega
  · omega

/-- Cells have no pixel in common. -/
theorem FbInfo.cells_apart (fb : FbInfo) {p q : ℕ × ℕ} (hp : fb.InGrid p) (hq : fb.InGrid q)
    (hne : p ≠ q) :
    p.1 % fb.pageRows ≠ q.1 % fb.pageRows ∨
      p.2 + p.1 / fb.pageRows * 80 ≠ q.2 + q.1 / fb.pageRows * 80 := by
  by_contra hsame
  rw [not_or, not_not, not_not] at hsame
  have hpcol := hp.2
  have hqcol := hq.2
  have hpage : p.1 / fb.pageRows = q.1 / fb.pageRows := by omega
  have hrow : p.1 = q.1 := by
    rw [← Nat.div_add_mod p.1 fb.pageRows, ← Nat.div_add_mod q.1 fb.pageRows, hpage, hsame.1]
  refine hne (Prod.ext hrow ?_)
  omega

theorem intDiv_natCast {a b : ℕ} (hb : b ≠ 0) : intDiv a b = .ok ((a / b : ℕ) : ℤ) := by
  rw [intDiv, if_neg (by omega), Int.tdiv_eq_ediv_of_nonneg (by omega), Int.natCast_ediv]

theorem intMod_natCast {a b : ℕ} (hb : b ≠ 0) : intMod a b = .ok ((a % b : ℕ) : ℤ) := by
  rw [intMod, if_neg (by omega), Int.tmod_eq_emod_of_nonneg (by omega), Int.natCast_emod]

/-- The background of a cell. -/
theorem bgcolor_eq (fb : FbInfo) (x ch : ℕ) :
    bgcolor (if (ch : ℤ) = 0 then 2 else ((x / fb.pageRows : ℕ) : ℤ).tmod 2) =
      .ok (if ch = 0 then 0xffff00 else fb.pageColor x) := by
  rw [bgcolor]
  by_cases hch : ch = 0
  · subst hch
    rfl
  · have hid : (if (ch : ℤ) = 0 then 2 else ((x / fb.pageRows : ℕ) : ℤ).tmod 2) =
        ((x / fb.pageRows % 2 : ℕ) : ℤ) := by
      rw [if_neg (by omega), Int.tmod_eq_emod_of_nonneg (Int.natCast_nonneg _)]
      omega
    rw [hid, if_neg hch, FbInfo.pageColor]
    rcases Nat.mod_two_eq_zero_or_one (x / fb.pageRows) with hzero | hone
    · rw [hzero]
      rfl
    · rw [hone]
      rfl

/-- **A cell is drawn, and no other one.** -/
theorem fbcondrawch_spec (hs : s.Ready) {x y ch : ℕ} (hp : s.fb.InGrid (x, y)) (hch : ch < 256) :
    ∃ bits, fbcondrawch font s x y ch = .ok { s with bits := bits } ∧
      PatchedOn s.fb.InGrid (s.fb.cell s.bits) (s.fb.cell bits)
        (point (x, y) (s.fb.charImage font x ch)) := by
  have hpos := hs.display.pageRows_pos
  obtain ⟨hrow, hcol⟩ := s.fb.cell_in_frame hpos hp
  have hchar : (if (ch : ℤ) = 0 then 32 else (ch : ℤ)) = ((if ch = 0 then 32 else ch : ℕ) : ℤ) := by
    split
    · rw [if_pos (by omega)]
      rfl
    · rw [if_neg (by omega)]
  have hlt : (if ch = 0 then 32 else ch) < 256 := by
    split
    · omega
    · omega
  obtain ⟨bits, hrun, hpatch⟩ := fbdrawch_spec hs.display font s.bits fgcolor
    (if ch = 0 then 0xffff00 else s.fb.pageColor x) hrow hcol hlt
  refine ⟨bits, ?_, fun q hq => ?_⟩
  · have hx : ((x % s.fb.pageRows * 9 : ℕ) : ℤ) = ((x % s.fb.pageRows : ℕ) : ℤ) * 9 := by
      push_cast
      rfl
    have hy : (((y + x / s.fb.pageRows * 80) * 6 : ℕ) : ℤ) =
        ((y : ℤ) + ((x / s.fb.pageRows : ℕ) : ℤ) * (conpageCols + conpageColSpace)) * 6 := by
      push_cast
      rfl
    rw [hx, hy] at hrun
    rw [fbcondrawch, hs.conrrows, intDiv_natCast hpos.ne', ok_bind, intMod_natCast hpos.ne', ok_bind]
    dsimp only
    rw [bgcolor_eq, ok_bind, hchar, hrun]
    rfl
  · by_cases heq : q = (x, y)
    · subst heq
      rw [point, if_pos rfl]
      funext i j
      refine hpatch.shown ⟨by omega, by omega⟩ ?_
      rw [block, if_pos (by omega), Nat.add_sub_cancel_left, Nat.add_sub_cancel_left]
      rfl
    · obtain ⟨hqrow, hqcol⟩ := s.fb.cell_in_frame hpos hq
      have happart := s.fb.cells_apart hq hp heq
      rw [point, if_neg heq]
      funext i j
      refine hpatch.kept ⟨by omega, by omega⟩ (if_neg ?_)
      omega

/-! ### Rows -/

/-- What a run of drawing changes: cells, and nothing of the console. -/
structure FbConsole.Draws (s s' : FbConsole) (f : ℕ × ℕ → Option CellImage) : Prop where
  same : s' = { s with bits := s'.bits }
  patch : PatchedOn s.fb.InGrid (s.fb.cell s.bits) (s.fb.cell s'.bits) f

theorem FbConsole.Draws.refl (s : FbConsole) : s.Draws s fun _ => none :=
  ⟨rfl, PatchedOn.refl _ _⟩

theorem FbConsole.Draws.fb_eq {s s' : FbConsole} {f : ℕ × ℕ → Option CellImage}
    (h : s.Draws s' f) : s'.fb = s.fb := by rw [h.same]

theorem FbConsole.Draws.ready {s s' : FbConsole} {f : ℕ × ℕ → Option CellImage}
    (h : s.Draws s' f) (hs : s.Ready) : s'.Ready := by
  rw [h.same]
  exact ⟨hs.display, hs.conrrows, hs.concols, hs.conrows, hs.enabled⟩

theorem FbConsole.Draws.trans {s s₁ s₂ : FbConsole} {f g : ℕ × ℕ → Option CellImage}
    (h : s.Draws s₁ f) (h' : s₁.Draws s₂ g) : s.Draws s₂ fun p => (g p).or (f p) := by
  have hpatch := h'.patch
  rw [h.fb_eq] at hpatch
  refine ⟨?_, h.patch.trans hpatch⟩
  rw [h'.same, h.same]

theorem FbConsole.Draws.congr {s s' : FbConsole} {f g : ℕ × ℕ → Option CellImage}
    (h : s.Draws s' f) (heq : ∀ p, s.fb.InGrid p → f p = g p) : s.Draws s' g :=
  ⟨h.same, h.patch.congr heq⟩

/-- The patch of a row of blanks, and of rows of them. -/
def blankRows (font : Font) (fb : FbInfo) (x n : ℕ) : ℕ × ℕ → Option CellImage := fun p =>
  if x ≤ p.1 ∧ p.1 < x + n then some (fb.blank font p.1) else none

/-- **A row is cleared.** -/
theorem clearRow_spec (hs : s.Ready) {x : ℕ} (hx : x < s.fb.pageRows * s.fb.pages) :
    ∃ s', clearRow font s x = .ok s' ∧ s.Draws s' (blankRows font s.fb x 1) := by
  have hcols : s.concols.toNat = 80 := by
    rw [hs.concols]
    rfl
  have hstep : ∀ i < 80, ∀ t : FbConsole, (∃ bits, t = { s with bits := bits }) →
      ∃ t', fbcondrawch font t x (i : ℕ) 32 = .ok t' ∧ (∃ bits, t' = { s with bits := bits }) ∧
        PatchedOn s.fb.InGrid (s.fb.cell t.bits) (s.fb.cell t'.bits)
          (point (x, i) (s.fb.blank font x)) := by
    rintro i hi t ⟨bits, rfl⟩
    have ht : FbConsole.Ready { s with bits := bits } :=
      ⟨hs.display, hs.conrrows, hs.concols, hs.conrows, hs.enabled⟩
    obtain ⟨bits', hrun, hpatch⟩ :=
      fbcondrawch_spec font ht (⟨hx, hi⟩ : s.fb.InGrid (x, i)) (by omega : 32 < 256)
    exact ⟨_, hrun, ⟨bits', rfl⟩, hpatch⟩
  have hsucc : ∀ i < 80, ∀ p, s.fb.InGrid p →
      (if p.1 = x ∧ p.2 < i + 1 then some (s.fb.blank font x) else none) =
        (point (x, i) (s.fb.blank font x) p).or
          (if p.1 = x ∧ p.2 < i then some (s.fb.blank font x) else none) := by
    intro i _ p _
    rw [point]
    by_cases hp : p = (x, i)
    · rw [if_pos hp, if_pos (by simp [hp]), Option.some_or]
    · have hne : ¬ (p.1 = x ∧ p.2 = i) := fun h => hp (Prod.ext h.1 h.2)
      rw [if_neg hp, Option.none_or]
      by_cases hin : p.1 = x ∧ p.2 < i
      · rw [if_pos hin, if_pos (by omega)]
      · rw [if_neg hin, if_neg (by omega)]
  obtain ⟨s', hrun, ⟨bits, hbits⟩, hpatch⟩ := foldlM_patches
    (F := fun n p => if p.1 = x ∧ p.2 < n then some (s.fb.blank font x) else none) 80 hstep
    (fun p _ => if_neg (by omega)) hsucc s ⟨s.bits, rfl⟩
  refine ⟨s', ?_, ?_, hpatch.congr fun p hp => ?_⟩
  · rw [clearRow, hcols]
    exact hrun
  · rw [hbits]
  · have hcol := hp.2
    rw [blankRows]
    by_cases hrow : p.1 = x
    · rw [if_pos ⟨hrow, hcol⟩, if_pos (by omega), hrow]
    · rw [if_neg (by omega), if_neg (by omega)]

/-- **The rows ahead are cleared**: so many of them, as far as the console goes. -/
theorem clearAhead_spec (n : ℕ) :
    ∀ {s : FbConsole} {x r : ℕ}, s.Ready → s.conx = x → 0 < x + r →
      x + r ≤ s.fb.pageRows * s.fb.pages →
      ∃ s', clearAhead font n r s = .ok s' ∧ s.Draws s' (blankRows font s.fb (x + r) n) := by
  induction n with
  | zero =>
      intro s x r hs _ _ _
      exact ⟨s, rfl, (FbConsole.Draws.refl s).congr fun p _ => (if_neg (by omega)).symm⟩
  | succ n ih =>
      intro s x r hs hx hpos hle
      have hrows : s.fb.pageRows * s.fb.pages ≠ 0 := by omega
      have hmod : intMod (s.conx + r) s.conrows =
          .ok (((x + r) % (s.fb.pageRows * s.fb.pages) : ℕ) : ℤ) := by
        rw [hx, hs.conrows, ← intMod_natCast hrows]
        push_cast
        rfl
      rw [clearAhead, hmod, ok_bind]
      rcases hle.eq_or_lt with hend | hlt
      · -- the row ahead is the first one again
        rw [hend, Nat.mod_self, Nat.cast_zero, if_pos rfl]
        refine ⟨s, rfl, (FbConsole.Draws.refl s).congr fun p hp => ?_⟩
        have hrow := hp.1
        exact (if_neg (by omega)).symm
      · have hrow : s.conx + r = ((x + r : ℕ) : ℤ) := by
          rw [hx]
          push_cast
          rfl
        obtain ⟨s₁, hclear, hdraws⟩ := clearRow_spec font hs hlt
        have hnext : ((r : ℤ) + 1) = ((r + 1 : ℕ) : ℤ) := by
          push_cast
          rfl
        have hx₁ : s₁.conx = x := by
          rw [hdraws.same]
          exact hx
        obtain ⟨s', hrun, hdraws'⟩ := ih (hdraws.ready hs) hx₁ (by omega : 0 < x + (r + 1))
          (by rw [hdraws.fb_eq]; omega)
        rw [Nat.mod_eq_of_lt hlt, if_neg (by omega), hrow, hclear, ok_bind, hnext]
        refine ⟨s', hrun, (hdraws.trans hdraws').congr fun p _ => ?_⟩
        rw [hdraws.fb_eq, blankRows, blankRows, blankRows]
        by_cases hfirst : x + r ≤ p.1 ∧ p.1 < x + r + 1
        · have hlater : ¬ (x + (r + 1) ≤ p.1 ∧ p.1 < x + (r + 1) + n) := by omega
          have hboth : x + r ≤ p.1 ∧ p.1 < x + r + (n + 1) := by omega
          rw [if_neg hlater, if_pos hfirst, if_pos hboth, Option.none_or]
        · by_cases hlater : x + (r + 1) ≤ p.1 ∧ p.1 < x + (r + 1) + n
          · have hboth : x + r ≤ p.1 ∧ p.1 < x + r + (n + 1) := by omega
            rw [if_pos hlater, if_pos hboth, Option.some_or]
          · have hboth : ¬ (x + r ≤ p.1 ∧ p.1 < x + r + (n + 1)) := by omega
            rw [if_neg hlater, if_neg hfirst, if_neg hboth, Option.none_or]

/-! ### A character -/

/-- Moving the cursor is no drawing. -/
theorem FbConsole.Draws.move {s s' : FbConsole} {f : ℕ × ℕ → Option CellImage}
    (h : s.Draws s' f) (x y : ℤ) :
    FbConsole.Draws { s with conx := x, cony := y } { s' with conx := x, cony := y } f := by
  refine ⟨?_, h.patch⟩
  rw [h.same]

theorem FbConsole.Ready.move (hs : s.Ready) (x y : ℤ) :
    FbConsole.Ready { s with conx := x, cony := y } :=
  ⟨hs.display, hs.conrrows, hs.concols, hs.conrows, hs.enabled⟩

/-- The character moves the cursor out of its row. -/
def LeavesRow (y ch : ℕ) : Prop := ch = 10 ∨ ch ≠ 13 ∧ y + 1 = 80

instance (y ch : ℕ) : Decidable (LeavesRow y ch) := inferInstanceAs (Decidable (_ ∨ _))

/-- The row of the cursor behind a character. -/
def nextRow (fb : FbInfo) (x y ch : ℕ) : ℕ :=
  if LeavesRow y ch then (if x + 1 = fb.pageRows * fb.pages then 0 else x + 1) else x

/-- Its column: a newline keeps it. -/
def nextCol (y ch : ℕ) : ℕ := if ch = 10 then y else if ch = 13 ∨ y + 1 = 80 then 0 else y + 1

/-- The cell of the character; `\r` blanks the cursor. -/
def typedPatch (font : Font) (fb : FbInfo) (x y ch : ℕ) : ℕ × ℕ → Option CellImage := fun p =>
  if ch = 10 then none else point (x, y) (fb.charImage font x (if ch = 13 then 32 else ch)) p

/-- The rows that are cleared when a row is entered: six from it on, but none with the first row. -/
def clearedPatch (font : Font) (fb : FbInfo) (x y ch : ℕ) : ℕ × ℕ → Option CellImage := fun p =>
  if LeavesRow y ch ∧ nextRow fb x y ch ≠ 0 then blankRows font fb (nextRow fb x y ch) 6 p
  else none

/-- The cell of the cursor. -/
def cursorPatch (font : Font) (fb : FbInfo) (x y ch : ℕ) : ℕ × ℕ → Option CellImage := fun p =>
  if ch = 13 then none
  else point (nextRow fb x y ch, nextCol y ch) (fb.charImage font (nextRow fb x y ch) 0) p

/-- What a call of `fbputc` changes. -/
def putcPatch (font : Font) (fb : FbInfo) (x y ch : ℕ) : ℕ × ℕ → Option CellImage := fun p =>
  (cursorPatch font fb x y ch p).or
    ((clearedPatch font fb x y ch p).or (typedPatch font fb x y ch p))

/-- The character at the cursor. -/
theorem draw_cursor (hs : s.Ready) {x y ch : ℕ} (hx : s.conx = x) (hy : s.cony = y)
    (hp : s.fb.InGrid (x, y)) (hch : ch < 256) :
    ∃ s', fbcondrawch font s s.conx s.cony ch = .ok s' ∧
      s.Draws s' (point (x, y) (s.fb.charImage font x ch)) := by
  obtain ⟨bits, hrun, hpatch⟩ := fbcondrawch_spec font hs hp hch
  rw [hx, hy]
  exact ⟨_, hrun, rfl, hpatch⟩

/-- What `advance` does. -/
theorem advance_spec (hs : s.Ready) {x y ch : ℕ} (hx : s.conx = x) (hy : s.cony = y)
    (hp : s.fb.InGrid (x, y)) (hch : ch < 256) :
    ∃ s', advance font s ch = .ok (s', decide (LeavesRow y ch)) ∧
      FbConsole.Draws { s with conx := ((if LeavesRow y ch then x + 1 else x : ℕ) : ℤ)
                               cony := (nextCol y ch : ℕ) } s'
        fun p => if ch = 10 ∨ ch = 13 then none else point (x, y) (s.fb.charImage font x ch) p := by
  have hcol : y < 80 := hp.2
  rw [advance, nextCol]
  by_cases hnewline : ch = 10
  · have hleaves : LeavesRow y ch := Or.inl hnewline
    have hmoved : { s with conx := s.conx + 1 } =
        { s with conx := ((x + 1 : ℕ) : ℤ), cony := (y : ℤ) } := by
      rw [hx, ← hy]
      push_cast
      rfl
    rw [if_pos (by omega), decide_eq_true hleaves, if_pos hleaves, if_pos hnewline, hmoved]
    exact ⟨_, rfl, (FbConsole.Draws.refl _).congr fun p _ => (if_pos (Or.inl hnewline)).symm⟩
  by_cases hreturn : ch = 13
  · have hleaves : ¬ LeavesRow y ch := by
      rw [LeavesRow]
      omega
    have hmoved : { s with cony := 0 } = { s with conx := (x : ℤ), cony := ((0 : ℕ) : ℤ) } := by
      rw [← hx]
      rfl
    rw [if_neg (by omega), if_pos (by omega), decide_eq_false hleaves, if_neg hleaves,
      if_neg hnewline, if_pos (Or.inl hreturn), hmoved]
    exact ⟨_, rfl, (FbConsole.Draws.refl _).congr fun p _ => (if_pos (Or.inr hreturn)).symm⟩
  · obtain ⟨s₁, hdraw, hdraws⟩ := draw_cursor font hs hx hy hp hch
    have hcols : s₁.concols = 80 := (hdraws.ready hs).concols
    have hx₁ : s₁.conx = x := by
      rw [hdraws.same]
      exact hx
    have hy₁ : s₁.cony = y := by
      rw [hdraws.same]
      exact hy
    have hnone : ¬ (ch = 10 ∨ ch = 13) := by omega
    have hfull : s₁.cony + 1 ≥ s₁.concols ↔ y + 1 = 80 := by
      rw [hcols, hy₁]
      omega
    rw [if_neg (by omega), if_neg (by omega), if_neg hnewline, hdraw, ok_bind]
    by_cases hlast : y + 1 = 80
    · have hleaves : LeavesRow y ch := Or.inr ⟨hreturn, hlast⟩
      have hmoved : { s₁ with cony := 0, conx := s₁.conx + 1 } =
          { s₁ with conx := ((x + 1 : ℕ) : ℤ), cony := ((0 : ℕ) : ℤ) } := by
        rw [hx₁]
        push_cast
        rfl
      rw [if_pos (hfull.mpr hlast), decide_eq_true hleaves, if_pos hleaves, if_pos (Or.inr hlast),
        hmoved]
      exact ⟨_, rfl, (hdraws.move _ _).congr fun p _ => (if_neg hnone).symm⟩
    · have hleaves : ¬ LeavesRow y ch := by
        rw [LeavesRow]
        omega
      have hmoved : { s₁ with cony := s₁.cony + 1 } =
          { s₁ with conx := (x : ℤ), cony := ((y + 1 : ℕ) : ℤ) } := by
        rw [← hx₁, hy₁]
        push_cast
        rfl
      rw [if_neg (mt hfull.mp hlast), decide_eq_false hleaves, if_neg hleaves, if_neg (by omega),
        hmoved]
      exact ⟨_, rfl, (hdraws.move _ _).congr fun p _ => (if_neg hnone).symm⟩

/-- The rows behind a move are cleared, but none when it has come to the first row. -/
theorem clear_moved (xflag : Bool) (hs : s.Ready) {x : ℕ} (hx : s.conx = x)
    (hlt : x < s.fb.pageRows * s.fb.pages) :
    ∃ s', (if xflag = true then clearAhead font 6 0 s else .ok s) = .ok s' ∧
      s.Draws s' fun p =>
        if xflag = true ∧ x ≠ 0 then blankRows font s.fb x 6 p else none := by
  cases xflag with
  | false => exact ⟨s, rfl, (FbConsole.Draws.refl s).congr fun p _ => (if_neg (by simp)).symm⟩
  | true =>
      rw [if_pos rfl]
      by_cases hzero : x = 0
      · -- the remainder is zero in the first round
        have hmod : intMod (s.conx + 0) s.conrows = .ok 0 := by
          rw [hx, hzero, hs.conrows]
          exact intMod_natCast (a := 0) (by omega)
        rw [clearAhead, hmod, ok_bind, if_pos rfl]
        exact ⟨s, rfl, (FbConsole.Draws.refl s).congr fun p _ =>
          (if_neg fun h => h.2 hzero).symm⟩
      · obtain ⟨s', hrun, hdraws⟩ := clearAhead_spec font 6 hs hx (by omega : 0 < x + 0)
          (Nat.le_of_lt hlt)
        refine ⟨s', hrun, hdraws.congr fun p _ => ?_⟩
        rw [if_pos ⟨rfl, hzero⟩]
        rfl

/-- What `settle` does. -/
theorem settle_spec (ch : ℕ) (xflag : Bool) (hs : s.Ready) {x y : ℕ} (hx : s.conx = x)
    (hy : s.cony = y) (hle : x ≤ s.fb.pageRows * s.fb.pages)
    (hflag : xflag = false → x < s.fb.pageRows * s.fb.pages) (hcol : y < 80) :
    ∃ s', settle font ch s xflag = .ok s' ∧
      FbConsole.Draws
        { s with conx := ((if x = s.fb.pageRows * s.fb.pages then 0 else x : ℕ) : ℤ) } s'
        fun p => (if ch = 13 then none
          else point ((if x = s.fb.pageRows * s.fb.pages then 0 else x), y)
            (s.fb.charImage font (if x = s.fb.pageRows * s.fb.pages then 0 else x) 0) p).or
          (if xflag = true ∧ (if x = s.fb.pageRows * s.fb.pages then 0 else x) ≠ 0 then
            blankRows font s.fb (if x = s.fb.pageRows * s.fb.pages then 0 else x) 6 p else none) := by
  obtain ⟨x', hx'⟩ : ∃ x', x' = if x = s.fb.pageRows * s.fb.pages then 0 else x := ⟨_, rfl⟩
  have hrows : 0 < s.fb.pageRows * s.fb.pages :=
    Nat.mul_pos hs.display.pageRows_pos hs.display.pages_pos
  have hlt : x' < s.fb.pageRows * s.fb.pages := by
    rw [hx']
    split
    · exact hrows
    · omega
  rw [← hx']
  have hback : (if s.conx ≥ s.conrows then { s with conx := 0 } else s) =
      { s with conx := (x' : ℤ) } := by
    have hover : s.conx ≥ s.conrows ↔ x = s.fb.pageRows * s.fb.pages := by
      rw [hx, hs.conrows]
      omega
    rw [hx']
    by_cases hend : x = s.fb.pageRows * s.fb.pages
    · rw [if_pos (hover.mpr hend), if_pos hend]
      rfl
    · rw [if_neg (mt hover.mp hend), if_neg hend, ← hx]
  obtain ⟨t, ht⟩ : ∃ t : FbConsole, t = { s with conx := (x' : ℤ) } := ⟨_, rfl⟩
  have htx : t.conx = x' := by rw [ht]
  have hty : t.cony = y := by rw [ht, ← hy]
  have htfb : t.fb = s.fb := by rw [ht]
  have htr : t.Ready := by
    rw [ht]
    exact ⟨hs.display, hs.conrrows, hs.concols, hs.conrows, hs.enabled⟩
  have hsettle : settle font ch s xflag =
      (if xflag = true then clearAhead font 6 0 t else .ok t) >>= fun t =>
        if (ch : ℤ) ≠ 13 then fbcondrawch font t t.conx t.cony 0 else .ok t := by
    rw [settle, hback, ← ht]
    cases xflag with
    | false => rfl
    | true => rfl
  obtain ⟨t₁, hrun, hdraws⟩ := clear_moved font xflag htr htx (by rw [htfb]; exact hlt)
  have hx₁ : t₁.conx = x' := by rw [hdraws.same, ← htx]
  have hy₁ : t₁.cony = y := by rw [hdraws.same, ← hty]
  rw [hsettle, hrun, ok_bind, ← ht]
  by_cases hreturn : ch = 13
  · rw [if_neg (by omega)]
    refine ⟨t₁, rfl, hdraws.congr fun p _ => ?_⟩
    rw [if_pos hreturn, Option.none_or, htfb]
  · obtain ⟨t₂, hdraw, hdraws'⟩ := draw_cursor font (hdraws.ready htr) hx₁ hy₁
      (by rw [hdraws.fb_eq, htfb]; exact ⟨hlt, hcol⟩) (by omega : 0 < 256)
    rw [if_pos (by omega)]
    refine ⟨t₂, hdraw, (hdraws.trans hdraws').congr fun p _ => ?_⟩
    rw [if_neg hreturn, hdraws.fb_eq, htfb]

/-- Where the cursor comes back to. -/
theorem back_eq_nextRow (fb : FbInfo) {x : ℕ} (hx : x < fb.pageRows * fb.pages) (y ch : ℕ) :
    (if (if LeavesRow y ch then x + 1 else x) = fb.pageRows * fb.pages then 0
      else if LeavesRow y ch then x + 1 else x) = nextRow fb x y ch := by
  rw [nextRow]
  by_cases hleaves : LeavesRow y ch
  · rw [if_pos hleaves, if_pos hleaves]
  · rw [if_neg hleaves, if_neg hleaves, if_neg hx.ne]

theorem nextCol_lt {y ch : ℕ} (hy : y < 80) : nextCol y ch < 80 := by
  rw [nextCol]
  split
  · exact hy
  · split
    · omega
    · omega

/-- The cursor's cell is blanked, except by a newline. -/
theorem blank_cursor (ch : ℕ) (hs : s.Ready) {x y : ℕ} (hx : s.conx = x) (hy : s.cony = y)
    (hp : s.fb.InGrid (x, y)) :
    ∃ s₁, (if (ch : ℤ) ≠ 10 then fbcondrawch font s s.conx s.cony 32 else .ok s) = .ok s₁ ∧
      s.Draws s₁ fun p => if ch = 10 then none else point (x, y) (s.fb.blank font x) p := by
  by_cases hnewline : ch = 10
  · rw [if_neg (by omega)]
    exact ⟨s, rfl, (FbConsole.Draws.refl s).congr fun p _ => (if_pos hnewline).symm⟩
  · obtain ⟨s₁, hrun, hdraws⟩ := draw_cursor font hs hx hy hp (by omega : 32 < 256)
    rw [if_pos (by omega)]
    exact ⟨s₁, hrun, hdraws.congr fun p _ => (if_neg hnewline).symm⟩

/-- The character is drawn over the blank, and `\r` leaves it. -/
theorem typedPatch_eq (fb : FbInfo) (x y ch : ℕ) (p : ℕ × ℕ) :
    ((if ch = 10 ∨ ch = 13 then none else point (x, y) (fb.charImage font x ch) p).or
      (if ch = 10 then none else point (x, y) (fb.blank font x) p)) =
        typedPatch font fb x y ch p := by
  rw [typedPatch]
  by_cases hnewline : ch = 10
  · rw [if_pos (Or.inl hnewline), if_pos hnewline, if_pos hnewline, Option.none_or]
  · rw [if_neg hnewline, if_neg hnewline]
    by_cases hreturn : ch = 13
    · rw [if_pos (Or.inr hreturn), if_pos hreturn, Option.none_or]
      rfl
    · rw [if_neg (by omega), if_neg hreturn, point_or_point]

/-- **What one call of `fbputc` does.** -/
theorem fbputc_spec (hs : s.Ready) {x y ch : ℕ} (hx : s.conx = x) (hy : s.cony = y)
    (hp : s.fb.InGrid (x, y)) (hch : ch < 256) :
    ∃ s', fbputc font s ch = .ok s' ∧
      FbConsole.Draws { s with conx := (nextRow s.fb x y ch : ℕ), cony := (nextCol y ch : ℕ) } s'
        (putcPatch font s.fb x y ch) := by
  have hrow : x < s.fb.pageRows * s.fb.pages := hp.1
  obtain ⟨s₁, hrun₁, hdraws₁⟩ := blank_cursor font ch hs hx hy hp
  have hx₁ : s₁.conx = x := by rw [hdraws₁.same, ← hx]
  have hy₁ : s₁.cony = y := by rw [hdraws₁.same, ← hy]
  obtain ⟨s₂, hrun₂, hdraws₂⟩ := advance_spec font (hdraws₁.ready hs) hx₁ hy₁
    (by rw [hdraws₁.fb_eq]; exact hp) hch
  have hfb₂ : s₂.fb = s.fb := hdraws₂.fb_eq.trans hdraws₁.fb_eq
  have hready₂ : s₂.Ready := hdraws₂.ready ((hdraws₁.ready hs).move _ _)
  have hx₂ : s₂.conx = (if LeavesRow y ch then x + 1 else x : ℕ) := by rw [hdraws₂.same]
  have hy₂ : s₂.cony = (nextCol y ch : ℕ) := by rw [hdraws₂.same]
  obtain ⟨s₃, hrun₃, hdraws₃⟩ := settle_spec font ch (decide (LeavesRow y ch)) hready₂
    hx₂ hy₂
    (by rw [hfb₂]; split <;> omega)
    (fun h => by rw [hfb₂, if_neg (of_decide_eq_false h)]; exact hrow) (nextCol_lt hp.2)
  have hnext : (if (if LeavesRow y ch then x + 1 else x) = s₂.fb.pageRows * s₂.fb.pages then 0
      else if LeavesRow y ch then x + 1 else x) = nextRow s.fb x y ch := by
    rw [hfb₂]
    exact back_eq_nextRow s.fb hrow y ch
  have hmoved : { s₂ with conx := ((nextRow s.fb x y ch : ℕ) : ℤ) } =
      { s₂ with conx := ((nextRow s.fb x y ch : ℕ) : ℤ), cony := ((nextCol y ch : ℕ) : ℤ) } := by
    rw [← hy₂]
  rw [hnext, hmoved] at hdraws₃
  have hall := (((hdraws₁.move _ _).trans hdraws₂).move
    ((nextRow s.fb x y ch : ℕ) : ℤ) ((nextCol y ch : ℕ) : ℤ)).trans hdraws₃
  refine ⟨s₃, ?_, hall.congr fun p _ => ?_⟩
  · have hmove : (advance font s₁ ch >>= fun moved => settle font ch moved.1 moved.2) =
        .ok s₃ := by
      rw [hrun₂, ok_bind]
      exact hrun₃
    rw [fbputc, hs.enabled, if_pos rfl]
    by_cases hnewline : (ch : ℤ) ≠ 10
    · rw [if_pos hnewline] at hrun₁
      rw [if_pos hnewline, hrun₁, ok_bind]
      exact hmove
    · rw [if_neg hnewline] at hrun₁
      rw [if_neg hnewline, ← hmove]
      cases hrun₁
      rfl
  · have hsame : decide (LeavesRow y ch) = true ↔ LeavesRow y ch := decide_eq_true_iff
    rw [putcPatch, cursorPatch, clearedPatch, ← typedPatch_eq, hfb₂, hdraws₁.fb_eq,
      Option.or_assoc]
    simp only [hsame]

/-! ### Runs -/

/-- The console of a display, with the cursor in a cell. -/
structure FbConsole.At (s : FbConsole) (fb : FbInfo) (x y : ℕ) : Prop extends s.Ready where
  fb_eq : s.fb = fb
  conx : s.conx = x
  cony : s.cony = y
  grid : fb.InGrid (x, y)

theorem nextRow_lt (fb : FbInfo) {x : ℕ} (hx : x < fb.pageRows * fb.pages) (y ch : ℕ) :
    nextRow fb x y ch < fb.pageRows * fb.pages := by
  rw [nextRow]
  split
  · split
    · exact lt_of_le_of_lt (Nat.zero_le x) hx
    · omega
  · exact hx

/-- **What one call of `fbputc` does** to the cursor and to the cells. -/
theorem FbConsole.At.putc {fb : FbInfo} {x y ch : ℕ} (hs : s.At fb x y) (hch : ch < 256) :
    ∃ s', fbputc font s ch = .ok s' ∧ s'.At fb (nextRow fb x y ch) (nextCol y ch) ∧
      PatchedOn fb.InGrid (fb.cell s.bits) (fb.cell s'.bits) (putcPatch font fb x y ch) := by
  obtain ⟨hready, rfl, hx, hy, hp⟩ := hs
  obtain ⟨s', hrun, hdraws⟩ := fbputc_spec font hready hx hy hp hch
  refine ⟨s', hrun, ⟨hdraws.ready (hready.move _ _), hdraws.fb_eq, ?_, ?_,
    nextRow_lt s.fb hp.1 y ch, nextCol_lt hp.2⟩, hdraws.patch⟩
  · rw [hdraws.same]
  · rw [hdraws.same]

theorem FbConsole.Inv.at (hs : s.Inv) : ∃ x y, s.At s.fb x y := by
  obtain ⟨x, y, hx, hy, hp⟩ := hs.cursor
  exact ⟨x, y, hs.toReady, rfl, hx, hy, hp⟩

theorem FbConsole.At.inv {fb : FbInfo} {x y : ℕ} (hs : s.At fb x y) : s.Inv :=
  ⟨hs.toReady, x, y, hs.conx, hs.cony, hs.fb_eq ▸ hs.grid⟩

/-- `fbputc` keeps the cursor on the console. -/
theorem FbConsole.Inv.putc (hs : s.Inv) {ch : ℤ} (hlow : 0 ≤ ch) (hhigh : ch ≤ 255) :
    ∃ s', fbputc font s ch = .ok s' ∧ s'.Inv ∧ s'.fb = s.fb := by
  lift ch to ℕ using hlow
  obtain ⟨x, y, hat⟩ := hs.at
  obtain ⟨s', hrun, hat', -⟩ := hat.putc font (by omega : ch < 256)
  exact ⟨s', hrun, hat'.inv, hat'.fb_eq⟩

/-- `fbconcls` brings the cursor back. -/
theorem FbConsole.Inv.concls (hs : s.Inv) :
    ∃ s', fbconcls font s = .ok s' ∧ s'.Inv ∧ s'.fb = s.fb ∧ s'.conx = 0 ∧ s'.cony = 0 := by
  have hrow : ∀ t : FbConsole, t.Inv ∧ t.fb = s.fb →
      ∃ t', (List.range t.concols.toNat).foldlM (fun t _ => fbputc font t 32) t = .ok t' ∧
        t'.Inv ∧ t'.fb = s.fb := by
    intro t ht
    refine foldlM_total (fun _ t => t.Inv ∧ t.fb = s.fb) (fun _ _ t ht => ?_) _ t ht
    obtain ⟨t', hrun, ht', hfb⟩ := ht.1.putc font (by omega : (0 : ℤ) ≤ 32) (by omega)
    exact ⟨t', hrun, ht', hfb.trans ht.2⟩
  obtain ⟨s', hrun, hs', hfb⟩ := foldlM_total (fun _ t => t.Inv ∧ t.fb = s.fb)
    (fun (_ : ℕ) _ t ht => hrow t ht) (List.range s.conrows.toNat) s ⟨hs, rfl⟩
  have hpos : s'.fb.InGrid (0, 0) :=
    ⟨Nat.mul_pos hs'.display.pageRows_pos hs'.display.pages_pos, by omega⟩
  refine ⟨{ s' with conx := 0, cony := 0 }, ?_, ⟨hs'.toReady.move 0 0, 0, 0, rfl, rfl, hpos⟩, hfb,
    rfl, rfl⟩
  rw [fbconcls, hrun]
  rfl

/-- The number of rows is an `int`. -/
theorem FbInfo.Display.int32_rows {fb : FbInfo} (hd : fb.Display) :
    int32 ((fb.height / 9 : ℕ) * (((fb.width / 6 : ℕ) : ℤ) - conpageColSpace).tdiv conpageCols) =
      (fb.pageRows * fb.pages : ℕ) := by
  have hpages : (((fb.width / 6 : ℕ) : ℤ) - conpageColSpace).tdiv conpageCols = (fb.pages : ℕ) := by
    rw [conpageColSpace, conpageCols, sub_zero, Int.tdiv_eq_ediv_of_nonneg (Int.natCast_nonneg _),
      FbInfo.pages]
    omega
  have hsize : fb.pageRows * fb.pages * 12960 ≤ 2 ^ 32 := by
    have hrows : fb.pageRows * 9 ≤ fb.height := Nat.div_mul_le_self _ _
    have hcols : fb.pages * 480 ≤ fb.width := Nat.div_mul_le_self _ _
    have hpitch := hd.pitch
    calc fb.pageRows * fb.pages * 12960 = fb.pages * 480 * 3 * (fb.pageRows * 9) := by ring
      _ ≤ fb.pitch * fb.height := Nat.mul_le_mul (by omega) hrows
      _ ≤ 2 ^ 32 := hd.frame
  rw [hpages, int32, ← Nat.cast_mul]
  exact Int.bmod_eq_of_le (by omega) (by rw [FbInfo.pageRows] at hsize; omega)

/-- **The console starts.** -/
theorem startConsole_spec {fb : FbInfo} (hd : fb.Display) (bits : FbBits) :
    ∃ s, startConsole font fb bits = .ok s ∧ s.Inv ∧ s.fb = fb ∧ s.conx = 0 ∧ s.cony = 0 := by
  obtain ⟨bits', hcls, -⟩ := fbcls_spec hd bits 0x000000
  obtain ⟨s, hs⟩ : ∃ s, s = rpi2FbdevInit fb bits := ⟨_, rfl⟩
  have hfb : s.fb = fb := by rw [hs, rpi2FbdevInit]
  have hconrrows : s.conrrows = fb.pageRows := by rw [hs, rpi2FbdevInit, FbInfo.pageRows]
  have hconcols : s.concols = 80 := by rw [hs, rpi2FbdevInit, conpageCols]
  have hconrows : s.conrows = (fb.pageRows * fb.pages : ℕ) := by
    simp only [hs, rpi2FbdevInit, hd.int32_rows]
  have hgrid : fb.InGrid (0, 0) := ⟨Nat.mul_pos hd.pageRows_pos hd.pages_pos, by omega⟩
  have hcursor : s.conx = (0 : ℕ) ∧ s.cony = (0 : ℕ) := by
    rw [hs, rpi2FbdevInit]
    exact ⟨rfl, rfl⟩
  rw [← hfb] at hd hcls hconrrows hconrows hgrid
  have hinv : FbConsole.Inv { s with fbconenable := true, bits := bits' } :=
    ⟨⟨hd, hconrrows, hconcols, hconrows, rfl⟩, 0, 0, hcursor.1, hcursor.2, hgrid⟩
  obtain ⟨s', hrun, hs', hfb', hcorner⟩ := hinv.concls font
  refine ⟨s', ?_, hs', hfb'.trans hfb, hcorner⟩
  rw [startConsole, ← hs]
  have hbits : s.bits = bits := by rw [hs, rpi2FbdevInit]
  rw [hbits, hcls, ok_bind]
  exact hrun

/-- The invariant holds in every run. -/
theorem FbConsole.Inv.reachable {s₀ : FbConsole} (hs₀ : s₀.Inv)
    (h : (fbConsole font).Reachable s₀ s) : s.Inv ∧ s.fb = s₀.fb := by
  refine h.invariant (P := fun s => s.Inv ∧ s.fb = s₀.fb) ⟨hs₀, rfl⟩ ?_
  intro s r s' hs hlegal hstep
  cases r with
  | putc ch =>
      obtain ⟨t, hrun, ht, hfb⟩ := hs.1.putc font hlegal.1 hlegal.2
      cases hrun.symm.trans hstep
      exact ⟨ht, hfb.trans hs.2⟩
  | cls =>
      obtain ⟨t, hrun, ht, hfb, -⟩ := hs.1.concls font
      cases hrun.symm.trans hstep
      exact ⟨ht, hfb.trans hs.2⟩

/-- **No call draws outside the frame, or divides by zero.** -/
theorem FbConsole.Inv.safeAt (hs : s.Inv) : (fbConsole font).SafeAt s := by
  intro r hlegal
  cases r with
  | putc ch =>
      obtain ⟨t, hrun, -⟩ := hs.putc font hlegal.1 hlegal.2
      exact ⟨t, hrun⟩
  | cls =>
      obtain ⟨t, hrun, -⟩ := hs.concls font
      exact ⟨t, hrun⟩

end Cells

/-- **The cursor stays on the console, and everything is drawn in the frame**: the console starts,
and whatever it is given, no call of it fails. -/
theorem console_safe (font : Font) {fb : FbInfo} (hd : fb.Display) (bits : FbBits) :
    ∃ s₀, startConsole font fb bits = .ok s₀ ∧ ∀ s, (fbConsole font).Reachable s₀ s →
      (0 ≤ s.conx ∧ s.conx < s.conrows) ∧ (0 ≤ s.cony ∧ s.cony < s.concols) ∧
        (fbConsole font).SafeAt s := by
  obtain ⟨s₀, hstart, hs₀, -⟩ := startConsole_spec font hd bits
  refine ⟨s₀, hstart, fun s hreach => ?_⟩
  have hs := (hs₀.reachable font hreach).1
  obtain ⟨x, y, hx, hy, hrow, hcol⟩ := hs.cursor
  have hcol' : y < 80 := hcol
  have hrow' : x < s.fb.pageRows * s.fb.pages := hrow
  rw [hs.conrows, hs.concols]
  exact ⟨⟨by omega, by omega⟩, ⟨by omega, by omega⟩, hs.safeAt font⟩

/-- The smallest display. -/
theorem smallest_display : FbInfo.Display ⟨480, 9, 1440⟩ := by
  constructor
  · exact le_refl 480
  · exact le_refl 9
  · exact le_refl (3 * 480)
  · show 1440 * 9 ≤ 2 ^ 32
    omega

/-- A console of one row. -/
theorem console_safe_smallest :
    ∃ s₀, startConsole (fun _ _ _ => 0) ⟨480, 9, 1440⟩ (fun _ => 0) = .ok s₀ ∧
      ∀ s, (fbConsole fun _ _ _ => 0).Reachable s₀ s →
        (0 ≤ s.conx ∧ s.conx < s.conrows) ∧ (0 ≤ s.cony ∧ s.cony < s.concols) ∧
          (fbConsole fun _ _ _ => 0).SafeAt s :=
  console_safe _ smallest_display _

end Aim
