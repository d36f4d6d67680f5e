/-
**Drawing on the framebuffer.**

`fb.c` of the Raspberry Pi 2 draws characters of nine by six pixels on a frame that the firmware has
allocated.  A pixel is three bytes at an offset that is computed with 32 bits; it is an error to draw
one that is not in the frame.  What is drawn is described as a patch on the pixels of the frame.

Main definitions:

* `Aim.FbInfo`, `Aim.FbInfo.Display` — `struct fbinfo`, and what the firmware reports;
* `Aim.fbdrawpt`, `Aim.fbdrawch`, `Aim.fbcls` — the functions of `fb.c`;
* `Aim.FbInfo.pixel`, `Aim.FbInfo.InFrame` — the pixels;
* `Aim.glyph`, `Aim.block` — a character as pixels, and its place.

Main results:

* `Aim.fbdrawpt_spec` — a pixel of the frame is drawn, and no other one;
* `Aim.fbdrawch_spec` — **a character in the frame is drawn, and nothing else.**
-/

import AimKernel.CArith
import AimKernel.Patches

set_option relaxedAutoImplicit false
set_option autoImplicit false

namespace Aim

open Patches

/-! ### `fb.c` -/

/-- What the firmware reports of the display; `format` is always `FBFMT_R8G8B8`. -/
structure FbInfo where
  width : ℕ
  height : ℕ
  pitch : ℕ

/-- The bytes from `fb.bits` on. -/
abbrev FbBits := ℕ → BitVec 8

/-- `fbfont`, the contents of `terminal.font`. -/
abbrev Font := ℕ → ℕ → ℕ → BitVec 8

/-- What drawing must not do. -/
inductive FbFault
  /-- A pixel that is not in the frame. -/
  | outside
  /-- `/` or `%` by zero. -/
  | divZero
  /-- A character that the font does not have. -/
  | noGlyph
  /-- A colour that the console does not have. -/
  | noColor
deriving DecidableEq

/-- Where `fbdev->bits + fbdev->pitch * x + y * 3` is. -/
def pixelOffset (fb : FbInfo) (x y : ℤ) : ℕ := ((fb.pitch * x + y * 3) % 2 ^ 32).toNat

/-- The three bytes of a pixel. -/
def storePixel (bits : FbBits) (pixel : ℕ) (color : BitVec 32) : FbBits := fun a =>
  if a = pixel + 2 then color.extractLsb' 16 8
  else if a = pixel + 1 then color.extractLsb' 8 8
  else if a = pixel then color.extractLsb' 0 8
  else bits a

/-- `fbdrawpt(fbdev, x, y, color)`: `x` is the row. -/
def fbdrawpt (fb : FbInfo) (bits : FbBits) (x y : ℤ) (color : BitVec 32) : Except FbFault FbBits :=
  if 0 ≤ x ∧ x < fb.height ∧ 0 ≤ y ∧ y < fb.width then
    .ok (storePixel bits (pixelOffset fb x y) color)
  else
    .error .outside

/-- `i < 8 ? fbfont[ch][i][j] : 0`. -/
def glyphDot (font : Font) (ch : ℤ) (i j : ℕ) : Except FbFault (BitVec 8) :=
  if i < 8 then
    if 0 ≤ ch ∧ ch < 256 then .ok (font ch.toNat i j) else .error .noGlyph
  else
    .ok 0

/-- `fbdrawch(fbdev, x, y, fgcolor, bgcolor, ch)`. -/
def fbdrawch (fb : FbInfo) (font : Font) (bits : FbBits) (x y : ℤ) (fgcolor bgcolor : BitVec 32)
    (ch : ℤ) : Except FbFault FbBits :=
  (List.range 9).foldlM (fun bits i =>
    (List.range 6).foldlM (fun bits j => do
      let dot ← glyphDot font ch i j
      fbdrawpt fb bits (x + i) (y + j) (if dot ≠ 0 then fgcolor else bgcolor)) bits) bits

/-- `fbcls(fbdev, color)`. -/
def fbcls (fb : FbInfo) (bits : FbBits) (color : BitVec 32) : Except FbFault FbBits :=
  (List.range fb.height).foldlM (fun bits (drow : ℕ) =>
    (List.range fb.width).foldlM (fun bits (dcol : ℕ) => fbdrawpt fb bits drow dcol color) bits) bits

/-! ### Pixels -/

namespace FbInfo

/-- **What the firmware reports**: a display that has room for a row of text, and a frame for it in
the address space. -/
structure Display (fb : FbInfo) : Prop where
  width : 480 ≤ fb.width
  height : 9 ≤ fb.height
  pitch : 3 * fb.width ≤ fb.pitch
  frame : fb.pitch * fb.height ≤ 2 ^ 32

/-- A place is in the frame. -/
def InFrame (fb : FbInfo) (p : ℕ × ℕ) : Prop := p.1 < fb.height ∧ p.2 < fb.width

/-- What a place shows. -/
def pixel (fb : FbInfo) (bits : FbBits) (p : ℕ × ℕ) : BitVec 24 :=
  bits (fb.pitch * p.1 + p.2 * 3 + 2) ++ bits (fb.pitch * p.1 + p.2 * 3 + 1) ++
    bits (fb.pitch * p.1 + p.2 * 3)

end FbInfo

section Drawing

variable {fb : FbInfo}

/-- A pixel of the frame is in memory. -/
theorem pixelOffset_eq (hd : fb.Display) {x y : ℕ} (hp : fb.InFrame (x, y)) :
    pixelOffset fb x y = fb.pitch * x + y * 3 := by
  have hpitch := hd.pitch
  have hrow : fb.pitch * (x + 1) ≤ 2 ^ 32 :=
    le_trans (Nat.mul_le_mul_left _ hp.1) hd.frame
  have hcol : y < fb.width := hp.2
  rw [Nat.mul_succ] at hrow
  have hcast : (fb.pitch * x + y * 3 : ℤ) = ((fb.pitch * x + y * 3 : ℕ) : ℤ) := by push_cast; rfl
  rw [pixelOffset, hcast]
  omega

/-- Pixels have no byte in common. -/
theorem pixels_apart (hd : fb.Display) {p q : ℕ × ℕ} (hp : fb.InFrame p) (hq : fb.InFrame q)
    (hne : p ≠ q) :
    fb.pitch * p.1 + p.2 * 3 + 3 ≤ fb.pitch * q.1 + q.2 * 3 ∨
      fb.pitch * q.1 + q.2 * 3 + 3 ≤ fb.pitch * p.1 + p.2 * 3 := by
  have hpitch := hd.pitch
  have hpcol := hp.2
  have hqcol := hq.2
  rcases lt_trichotomy p.1 q.1 with hlt | heq | hgt
  · have hrows : fb.pitch * (p.1 + 1) ≤ fb.pitch * q.1 := Nat.mul_le_mul_left _ hlt
    rw [Nat.mul_succ] at hrows
    omega
  · have hcols : p.2 ≠ q.2 := fun h => hne (Prod.ext heq h)
    rw [heq]
    omega
  · have hrows : fb.pitch * (q.1 + 1) ≤ fb.pitch * p.1 := Nat.mul_le_mul_left _ hgt
    rw [Nat.mul_succ] at hrows
    omega

/-- The bytes of a colour. -/
theorem color_bytes (color : BitVec 32) :
    color.extractLsb' 16 8 ++ color.extractLsb' 8 8 ++ color.extractLsb' 0 8 =
      color.setWidth 24 := by
  ext j hj
  simp only [BitVec.getElem_append, BitVec.getElem_extractLsb', BitVec.getElem_setWidth]
  split
  · rw [Nat.zero_add]
  · split
    · congr 1
      omega
    · congr 1
      omega

/-- **A pixel of the frame is drawn, and no other one.** -/
theorem fbdrawpt_spec (hd : fb.Display) (bits : FbBits) {x y : ℕ} (hp : fb.InFrame (x, y))
    (color : BitVec 32) :
    ∃ bits', fbdrawpt fb bits x y color = .ok bits' ∧
      PatchedOn fb.InFrame (fb.pixel bits) (fb.pixel bits') (point (x, y) (color.setWidth 24)) := by
  have hrow : x < fb.height := hp.1
  have hcol : y < fb.width := hp.2
  refine ⟨_, if_pos (by omega), fun q hq => ?_⟩
  rw [pixelOffset_eq hd hp, FbInfo.pixel, point]
  by_cases heq : q = (x, y)
  · subst heq
    simp [storePixel, color_bytes]
  · have happart := pixels_apart hd hq hp heq
    simp only at happart
    simp only [storePixel]
    rw [if_neg heq, if_neg (by omega), if_neg (by omega), if_neg (by omega), if_neg (by omega),
      if_neg (by omega), if_neg (by omega), if_neg (by omega), if_neg (by omega),
      if_neg (by omega)]
    rfl

/-! ### Characters -/

/-- The pixels of a character. -/
def glyph (font : Font) (fgcolor bgcolor : BitVec 32) (ch i j : ℕ) : BitVec 24 :=
  (if (if i < 8 then font ch i j else 0) ≠ 0 then fgcolor else bgcolor).setWidth 24

/-- The patch of a block of pixels. -/
def block (x y h w : ℕ) (image : ℕ → ℕ → BitVec 24) : ℕ × ℕ → Option (BitVec 24) := fun p =>
  if (x ≤ p.1 ∧ p.1 < x + h) ∧ y ≤ p.2 ∧ p.2 < y + w then some (image (p.1 - x) (p.2 - y)) else none

/-- Nothing of a block without columns. -/
theorem block_zero_width (x y h : ℕ) (image : ℕ → ℕ → BitVec 24) (p : ℕ × ℕ) :
    block x y h 0 image p = none := if_neg (by omega)

theorem block_zero_height (x y w : ℕ) (image : ℕ → ℕ → BitVec 24) (p : ℕ × ℕ) :
    block x y 0 w image p = none := if_neg (by omega)

/-- One more column of a block of one row. -/
theorem block_succ_width (x y w : ℕ) (image : ℕ → ℕ → BitVec 24) (p : ℕ × ℕ) :
    block x y 1 (w + 1) image p = (point (x, y + w) (image 0 w) p).or (block x y 1 w image p) := by
  rw [block, block, point]
  by_cases hp : p = (x, y + w)
  · subst hp
    simp
  · have hcols : ¬ (p.1 = x ∧ p.2 = y + w) := fun h => hp (Prod.ext h.1 h.2)
    rw [if_neg hp, Option.none_or]
    by_cases hin : (x ≤ p.1 ∧ p.1 < x + 1) ∧ y ≤ p.2 ∧ p.2 < y + w
    · rw [if_pos hin, if_pos (by omega)]
    · rw [if_neg hin, if_neg (by omega)]

/-- One more row of a block. -/
theorem block_succ_height (x y h w : ℕ) (image : ℕ → ℕ → BitVec 24) (p : ℕ × ℕ) :
    block x y (h + 1) w image p =
      (block (x + h) y 1 w (fun _ j => image h j) p).or (block x y h w image p) := by
  rw [block, block, block]
  by_cases hrow : (x + h ≤ p.1 ∧ p.1 < x + h + 1) ∧ y ≤ p.2 ∧ p.2 < y + w
  · have hlast : p.1 - x = h := by omega
    rw [if_pos hrow, if_pos (by omega), Option.some_or, hlast]
  · rw [if_neg hrow, Option.none_or]
    by_cases hin : (x ≤ p.1 ∧ p.1 < x + h) ∧ y ≤ p.2 ∧ p.2 < y + w
    · rw [if_pos hin, if_pos (by omega)]
    · rw [if_neg hin, if_neg (by omega)]

/-- A row of a rectangle. -/
theorem drawRow_spec (hd : fb.Display) {draw : FbBits → ℕ → Except FbFault FbBits}
    {color : ℕ → BitVec 32} {x y w : ℕ} (hx : x < fb.height) (hy : y + w ≤ fb.width)
    (hdraw : ∀ j < w, ∀ bits, draw bits j = fbdrawpt fb bits x ((y : ℤ) + j) (color j))
    (bits : FbBits) :
    ∃ bits', (List.range w).foldlM draw bits = .ok bits' ∧
      PatchedOn fb.InFrame (fb.pixel bits) (fb.pixel bits')
        (block x y 1 w fun _ j => (color j).setWidth 24) := by
  have hstep : ∀ j < w, ∀ bits, True → ∃ bits', draw bits j = .ok bits' ∧ True ∧
      PatchedOn fb.InFrame (fb.pixel bits) (fb.pixel bits')
        (point (x, y + j) ((color j).setWidth 24)) := by
    intro j hj bits _
    obtain ⟨bits', hrun, hpatch⟩ :=
      fbdrawpt_spec hd bits (x := x) (y := y + j) ⟨hx, by omega⟩ (color j)
    push_cast at hrun
    exact ⟨bits', (hdraw j hj bits).trans hrun, trivial, hpatch⟩
  obtain ⟨bits', hrun, -, hpatch⟩ := foldlM_patches
    (F := fun j => block x y 1 j fun _ j => (color j).setWidth 24) w hstep
    (fun p _ => block_zero_width _ _ _ _ p) (fun j _ p _ => block_succ_width _ _ _ _ p) bits trivial
  exact ⟨bits', hrun, hpatch⟩

/-- **A rectangle in the frame is drawn, and nothing else.** -/
theorem drawRect_spec (hd : fb.Display) {draw : ℕ → FbBits → ℕ → Except FbFault FbBits}
    {color : ℕ → ℕ → BitVec 32} {x y h w : ℕ} (hx : x + h ≤ fb.height) (hy : y + w ≤ fb.width)
    (hdraw : ∀ i < h, ∀ j < w, ∀ bits,
      draw i bits j = fbdrawpt fb bits ((x : ℤ) + i) ((y : ℤ) + j) (color i j))
    (bits : FbBits) :
    ∃ bits', (List.range h).foldlM (fun bits i => (List.range w).foldlM (draw i) bits) bits =
        .ok bits' ∧
      PatchedOn fb.InFrame (fb.pixel bits) (fb.pixel bits')
        (block x y h w fun i j => (color i j).setWidth 24) := by
  have hstep : ∀ i < h, ∀ bits, True → ∃ bits',
      (List.range w).foldlM (draw i) bits = .ok bits' ∧ True ∧
      PatchedOn fb.InFrame (fb.pixel bits) (fb.pixel bits')
        (block (x + i) y 1 w fun _ j => (color i j).setWidth 24) := by
    intro i hi bits _
    have hrow : ∀ j < w, ∀ bits,
        draw i bits j = fbdrawpt fb bits ((x + i : ℕ) : ℤ) ((y : ℤ) + j) (color i j) := by
      intro j hj bits
      rw [hdraw i hi j hj bits]
      push_cast
      rfl
    obtain ⟨bits', hrun, hpatch⟩ := drawRow_spec hd (by omega) hy hrow bits
    exact ⟨bits', hrun, trivial, hpatch⟩
  obtain ⟨bits', hrun, -, hpatch⟩ := foldlM_patches
    (F := fun i => block x y i w fun i j => (color i j).setWidth 24) h hstep
    (fun p _ => block_zero_height _ _ _ _ p) (fun i _ p _ => block_succ_height _ _ _ _ _ p)
    bits trivial
  exact ⟨bits', hrun, hpatch⟩

/-- **A character in the frame is drawn, and nothing else.** -/
theorem fbdrawch_spec (hd : fb.Display) (font : Font) (bits : FbBits) (fgcolor bgcolor : BitVec 32)
    {x y ch : ℕ} (hx : x + 9 ≤ fb.height) (hy : y + 6 ≤ fb.width) (hch : ch < 256) :
    ∃ bits', fbdrawch fb font bits x y fgcolor bgcolor ch = .ok bits' ∧
      PatchedOn fb.InFrame (fb.pixel bits) (fb.pixel bits')
        (block x y 9 6 (glyph font fgcolor bgcolor ch)) := by
  refine drawRect_spec hd hx hy (fun i _ j _ bits => ?_) bits
  have hdot : glyphDot font ch i j = .ok (if i < 8 then font ch i j else 0) := by
    rw [glyphDot]
    split
    · rw [if_pos (by omega), Int.toNat_natCast]
    · rfl
  rw [hdot]
  rfl

/-- `fbcls` draws the whole frame. -/
theorem fbcls_spec (hd : fb.Display) (bits : FbBits) (color : BitVec 32) :
    ∃ bits', fbcls fb bits color = .ok bits' ∧
      ∀ p, fb.InFrame p → fb.pixel bits' p = color.setWidth 24 := by
  have hdraw : ∀ i < fb.height, ∀ j < fb.width, ∀ bits, fbdrawpt fb bits i j color =
      fbdrawpt fb bits (((0 : ℕ) : ℤ) + i) (((0 : ℕ) : ℤ) + j) color := by
    intro i _ j _ bits
    simp
  obtain ⟨bits', hrun, hpatch⟩ :=
    drawRect_spec hd (x := 0) (y := 0) (by omega) (by omega) hdraw bits
  refine ⟨bits', hrun, fun p hp => hpatch.shown hp (if_pos ?_)⟩
  have hrow : p.1 < fb.height := hp.1
  have hcol : p.2 < fb.width := hp.2
  omega

end Drawing

end Aim
