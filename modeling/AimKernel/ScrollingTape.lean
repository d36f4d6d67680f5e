/-
**Screens that scroll.**

A screen of `h` rows of `w` cells is a buffer that is typed into at a position.  When the position
leaves the buffer, all rows move up by one, and the last one becomes blank.  What a user sees is a
window on a tape that is never moved: typing writes on the tape, and the window goes down with the
cursor.

Main definitions:

* `ScrollingTape.Key` — what is typed;
* `ScrollingTape.Buffer.type` — what it does to the buffer;
* `ScrollingTape.Tape.type` — what it does to the tape;
* `ScrollingTape.Shows` — the buffer is the window of the tape.

Main results:

* `ScrollingTape.Shows.type` — **typing keeps it so**;
* `ScrollingTape.Shows.text` — the last characters of a text are in front of the cursor.
-/

import Mathlib.Logic.Function.Basic
import Mathlib.Algebra.Order.Ring.Nat
import Mathlib.Tactic.Ring

set_option relaxedAutoImplicit false
set_option autoImplicit false

namespace ScrollingTape

variable {α : Type}

/-- What is typed: a backspace leaves a character behind, too. -/
inductive Key (α : Type)
  | put (c : α)
  | newline
  | carriageReturn
  | backspace (c : α)

/-! ### The buffer -/

/-- The cells of the screen, row by row, and the position of the cursor. -/
@[ext] structure Buffer (α : Type) where
  cell : ℕ → α
  pos : ℕ

namespace Buffer

/-- The key is typed in rows of `w` cells. -/
def move (w : ℕ) (b : Buffer α) : Key α → Buffer α
  | .put c => ⟨Function.update b.cell b.pos c, b.pos + 1⟩
  | .newline => ⟨b.cell, b.pos + w - (b.pos + w) % w⟩
  | .carriageReturn => ⟨b.cell, b.pos - b.pos % w⟩
  | .backspace c => if b.pos > 0 then ⟨Function.update b.cell (b.pos - 1) c, b.pos - 1⟩ else b

/-- Behind the last cell, the rows move up. -/
def roll (w h : ℕ) (blank : α) (b : Buffer α) : Buffer α :=
  if b.pos ≥ h * w then
    ⟨fun i => if i < (h - 1) * w then b.cell (i + w) else if i < h * w then blank else b.cell i,
      b.pos - w⟩
  else
    b

/-- The key is typed, and the screen rolls if needed. -/
def type (w h : ℕ) (blank : α) (b : Buffer α) (k : Key α) : Buffer α :=
  (b.move w k).roll w h blank

end Buffer

/-! ### The tape -/

/-- Everything that was typed, the cursor, and the row at the top of the window. -/
structure Tape (α : Type) where
  cell : ℕ → α
  cursor : ℕ
  top : ℕ

namespace Tape

/-- The key is typed on the tape; a backspace stops at the top of the window. -/
def move (w : ℕ) (t : Tape α) : Key α → Tape α
  | .put c => { t with cell := Function.update t.cell t.cursor c, cursor := t.cursor + 1 }
  | .newline => { t with cursor := (t.cursor / w + 1) * w }
  | .carriageReturn => { t with cursor := t.cursor / w * w }
  | .backspace c =>
      if t.top * w < t.cursor then
        { t with cell := Function.update t.cell (t.cursor - 1) c, cursor := t.cursor - 1 }
      else
        t

/-- The window goes down with the cursor. -/
def follow (w h : ℕ) (t : Tape α) : Tape α :=
  if (t.top + h) * w ≤ t.cursor then { t with top := t.top + 1 } else t

/-- The key is typed, and the window follows. -/
def type (w h : ℕ) (t : Tape α) (k : Key α) : Tape α := (t.move w k).follow w h

/-- A tape with nothing but the screen. -/
def ofBuffer (w h : ℕ) (blank : α) (b : Buffer α) : Tape α :=
  ⟨fun i => if i < h * w then b.cell i else blank, b.pos, 0⟩

end Tape

/-! ### The window -/

variable {w h : ℕ} {blank : α} {t : Tape α} {b : Buffer α}

/-- The buffer shows the window, and behind the window the tape is blank. -/
structure Shows (w h : ℕ) (blank : α) (t : Tape α) (b : Buffer α) : Prop where
  pos : t.cursor = t.top * w + b.pos
  inside : b.pos < h * w
  cell : ∀ i < h * w, b.cell i = t.cell (t.top * w + i)
  below : ∀ i, (t.top + h) * w ≤ i → t.cell i = blank

theorem Shows.ofBuffer (hb : b.pos < h * w) : Shows w h blank (.ofBuffer w h blank b) b where
  pos := by simp [Tape.ofBuffer]
  inside := hb
  cell i hi := by simp [Tape.ofBuffer, hi]
  below i hi := by
    simp only [Tape.ofBuffer, Nat.zero_add] at hi ⊢
    rw [if_neg (by omega)]

/-- Between the typing and the scrolling, the cursor may be behind the last cell. -/
structure Moved (w h : ℕ) (blank : α) (t : Tape α) (b : Buffer α) : Prop where
  pos : t.cursor = t.top * w + b.pos
  inside : b.pos ≤ h * w
  cell : ∀ i < h * w, b.cell i = t.cell (t.top * w + i)
  below : ∀ i, (t.top + h) * w ≤ i → t.cell i = blank

theorem Moved.of_shows (hs : Shows w h blank t b) : Moved w h blank t b :=
  ⟨hs.pos, hs.inside.le, hs.cell, hs.below⟩

/-- A cell in the window is written in the buffer. -/
theorem Moved.update {pos : ℕ} (hs : Moved w h blank t b) {i : ℕ} (hi : i < h * w)
    (hpos : pos ≤ h * w) (c : α) :
    Moved w h blank
      { t with cell := Function.update t.cell (t.top * w + i) c, cursor := t.top * w + pos }
      ⟨Function.update b.cell i c, pos⟩ where
  pos := rfl
  inside := hpos
  cell j hj := by
    by_cases hji : j = i
    · subst hji
      simp
    · dsimp only
      rw [Function.update_of_ne hji, Function.update_of_ne (by omega)]
      exact hs.cell j hj
  below j hj := by
    have hadd : (t.top + h) * w = t.top * w + h * w := by ring
    dsimp only at hj ⊢
    rw [Function.update_of_ne (by omega)]
    exact hs.below j hj

/-- The cursor is set in the window. -/
theorem Moved.setCursor {pos : ℕ} (hs : Moved w h blank t b) (hpos : pos ≤ h * w) :
    Moved w h blank { t with cursor := t.top * w + pos } ⟨b.cell, pos⟩ :=
  ⟨rfl, hpos, hs.cell, hs.below⟩

theorem Shows.move (hw : 0 < w) (hs : Shows w h blank t b) (k : Key α) :
    Moved w h blank (t.move w k) (b.move w k) := by
  have hm := Moved.of_shows hs
  have hpos := hs.pos
  have hin := hs.inside
  -- the row of the cursor, in the window and on the tape
  have hrow : t.cursor / w = t.top + b.pos / w := by
    rw [hpos, Nat.mul_comm, Nat.mul_add_div hw]
  cases k with
  | put c =>
      have hu := hm.update hin (Nat.succ_le_of_lt hin) c
      rw [← hpos, show t.top * w + (b.pos + 1) = t.cursor + 1 by omega] at hu
      exact hu
  | newline =>
      have hrow' : b.pos + w - (b.pos + w) % w = (b.pos / w + 1) * w := by
        have hd := Nat.div_add_mod (b.pos + w) w
        rw [Nat.add_div_right _ hw, Nat.mul_comm] at hd
        omega
      have hle : (b.pos / w + 1) * w ≤ h * w :=
        Nat.mul_le_mul_right w ((Nat.div_lt_iff_lt_mul hw).mpr hin)
      have hc := hm.setCursor hle
      rw [show t.top * w + (b.pos / w + 1) * w = (t.cursor / w + 1) * w by rw [hrow]; ring] at hc
      rw [Buffer.move, hrow']
      exact hc
  | carriageReturn =>
      have hrow' : b.pos - b.pos % w = b.pos / w * w := by
        have hd := Nat.div_add_mod b.pos w
        rw [Nat.mul_comm] at hd
        omega
      have hle : b.pos / w * w ≤ h * w :=
        (Nat.div_mul_le_self b.pos w).trans hin.le
      have hc := hm.setCursor hle
      rw [show t.top * w + b.pos / w * w = t.cursor / w * w by rw [hrow]; ring] at hc
      rw [Buffer.move, hrow']
      exact hc
  | backspace c =>
      rw [Buffer.move, Tape.move]
      by_cases hzero : b.pos > 0
      · have hu := hm.update (i := b.pos - 1) (by omega) (show b.pos - 1 ≤ h * w by omega) c
        rw [show t.top * w + (b.pos - 1) = t.cursor - 1 by omega] at hu
        rw [if_pos hzero, if_pos (by omega)]
        exact hu
      · rw [if_neg hzero, if_neg (by omega)]
        exact hm

theorem Moved.roll (hw : 0 < w) (hh : 0 < h) (hm : Moved w h blank t b) :
    Shows w h blank (t.follow w h) (b.roll w h blank) := by
  have hpos := hm.pos
  have hin := hm.inside
  have hadd : (t.top + h) * w = t.top * w + h * w := by ring
  rw [Tape.follow, Buffer.roll]
  by_cases hend : b.pos ≥ h * w
  · rw [if_pos hend, if_pos (by omega)]
    obtain ⟨h, rfl⟩ : ∃ n, h = n + 1 := ⟨h - 1, by omega⟩
    have hrows : (h + 1) * w = h * w + w := by ring
    have htop : (t.top + 1) * w = t.top * w + w := by ring
    refine ⟨?_, ?_, fun i hi => ?_, fun i hi => hm.below i ?_⟩
    · dsimp only
      omega
    · dsimp only
      omega
    · dsimp only
      rw [Nat.add_sub_cancel, htop]
      by_cases hlast : i < h * w
      · rw [if_pos hlast, hm.cell _ (by omega)]
        congr 1
        omega
      · rw [if_neg hlast, if_pos hi, hm.below _ (by omega)]
    · have : (t.top + 1 + (h + 1)) * w = (t.top + (h + 1)) * w + w := by ring
      dsimp only at hi
      omega
  · rw [if_neg hend, if_neg (by omega)]
    exact ⟨hpos, by omega, hm.cell, hm.below⟩

/-- **The buffer shows the window of the tape after every key.** -/
theorem Shows.type (hw : 0 < w) (hh : 0 < h) (hs : Shows w h blank t b) (k : Key α) :
    Shows w h blank (t.type w h k) (b.type w h blank k) :=
  (hs.move hw k).roll hw hh

/-! ### Text -/

@[simp] theorem Tape.cursor_type_put (t : Tape α) (c : α) :
    (t.type w h (.put c)).cursor = t.cursor + 1 := by
  rw [type, follow]
  split <;> rfl

@[simp] theorem Tape.cell_type_put (t : Tape α) (c : α) :
    (t.type w h (.put c)).cell = Function.update t.cell t.cursor c := by
  rw [type, follow]
  split <;> rfl

/-- A text is written where the cursor was, and nothing else. -/
theorem Tape.typeAll_put (t : Tape α) (cs : List α) :
    ((cs.map Key.put).foldl (Tape.type w h) t).cursor = t.cursor + cs.length ∧
      ∀ i, ((cs.map Key.put).foldl (Tape.type w h) t).cell i =
        if i < t.cursor then t.cell i else (cs[i - t.cursor]?).getD (t.cell i) := by
  induction cs generalizing t with
  | nil => simp
  | cons c cs ih =>
      obtain ⟨hcur, hcell⟩ := ih (t.type w h (.put c))
      rw [List.map_cons, List.foldl_cons, List.length_cons]
      refine ⟨by rw [hcur, cursor_type_put]; omega, fun i => ?_⟩
      rw [hcell, cursor_type_put, cell_type_put]
      rcases lt_trichotomy i t.cursor with hlt | rfl | hgt
      · rw [if_pos (by omega), if_pos hlt, Function.update_of_ne (by omega)]
      · simp
      · rw [if_neg (by omega), if_neg (by omega), Function.update_of_ne (by omega),
          show i - t.cursor = i - (t.cursor + 1) + 1 by omega, List.getElem?_cons_succ]

/-- **The last characters of a text are in front of the cursor.** -/
theorem Shows.text {cs : List α}
    (hs : Shows w h blank ((cs.map Key.put).foldl (Tape.type w h) t) b) {k : ℕ}
    (hk : k < cs.length) (hpos : k < b.pos) :
    some (b.cell (b.pos - 1 - k)) = cs[cs.length - 1 - k]? := by
  obtain ⟨hcur, hcell⟩ := Tape.typeAll_put (w := w) (h := h) t cs
  have hp := hs.pos
  have hin := hs.inside
  rw [hs.cell _ (by omega), hcell, if_neg (by omega)]
  have hplace : ((cs.map Key.put).foldl (Tape.type w h) t).top * w + (b.pos - 1 - k) - t.cursor
      = cs.length - 1 - k := by omega
  rw [hplace, List.getElem?_eq_getElem (by omega), Option.getD_some]

end ScrollingTape
