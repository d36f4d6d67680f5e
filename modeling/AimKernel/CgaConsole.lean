/-
**The console of the i386 boot loader.**

A character is shown on the screen of the display adapter, and sent over the first serial port.  The
screen is memory, two bytes for a cell; to scroll, it is copied byte by byte over itself.  The
adapter has a cursor of its own, which is read when the console is set up and moved after every
character.  The serial port has room for one byte that waits for the line.  It is asked whether there
is room, but not for ever: then a byte that still waits is lost.

Main definitions:

* `Aim.Transmitter` — the line and the byte that waits for it;
* `Aim.Ports` — the adapter's and the serial port's registers;
* `Aim.cgaInit`, `Aim.cgaPutc`, `Aim.serialInit`, `Aim.serialPutc`, `Aim.bioinit`, `Aim.bputc` —
  `console.c`;
* `Aim.BootConsole.screen` — the screen as a buffer of cells;
* `Aim.cgaKey` — what a character types.

Main results:

* `Aim.BootConsole.screen_draw` — a character is typed, and nothing but the screen changes;
* `Aim.serialPutc_eq` — a character is sent behind the ones before it;
* `Aim.console_shows_tape` — **what is on the screen, at the cursor and on the line after any
  text**;
* `Aim.console_keeps_text` — **the last characters are on the screen.**
-/

import AimKernel.BootLoader
import AimKernel.ScrollingTape

set_option relaxedAutoImplicit false
set_option autoImplicit false

namespace Aim

open ScrollingTape

/-! ### Ports -/

/-- `COM1`. -/
def com1 : BitVec 16 := 0x3F8

/-- The transmitter of the serial port: what has gone over the line, the byte that waits in the
holding register, and whether the line takes it before the `k`-th time that the port is asked. -/
structure Transmitter where
  sent : List (BitVec 8)
  thr : Option (BitVec 8)
  moves : ℕ → Bool

namespace Transmitter

variable (t : Transmitter)

/-- What has gone over the line or will. -/
def text : List (BitVec 8) := t.sent ++ t.thr.toList

/-- Up to the `k`-th time that the port is asked. -/
def tick (k : ℕ) : Transmitter := if t.moves k then { t with sent := t.text, thr := none } else t

/-- A byte that still waits is lost. -/
def write (data : BitVec 8) : Transmitter := { t with thr := some data }

/-- `serial_putc` asks often enough for the line to take a byte. -/
def Prompt : Prop := ∀ n, ∃ k ≤ 12800, t.moves (n + k) = true

end Transmitter

/-- The registers behind the ports that `console.c` uses: those of the adapter, one of which is
selected, and those of the serial port, with what it answers when it is asked for its status. -/
structure Ports where
  crtcBase : BitVec 16
  crtcIndex : BitVec 8
  crtc : BitVec 8 → BitVec 8
  lcr : BitVec 8
  divisor : BitVec 8 × BitVec 8
  ier : BitVec 8
  line : Transmitter
  /-- The other bits of the line status. -/
  status : ℕ → BitVec 8
  asked : ℕ

/-- The line status: `COM_LSR_TXRDY` says that no byte waits. -/
def Ports.lineStatus (p : Ports) : BitVec 8 :=
  if p.line.thr.isNone then p.status p.asked ||| 0x20 else p.status p.asked &&& ~~~0x20

/-- Time passes until the port is asked. -/
def Ports.tick (p : Ports) : Ports := { p with line := p.line.tick p.asked }

/-- Writing to a port of `COM1`.  With the divisor latch access bit, the first two are the
divisor. -/
def serialOut (p : Ports) (port : BitVec 16) (data : BitVec 8) : Ports :=
  if port = com1 then
    if p.lcr.getLsbD 7 then { p with divisor := (data, p.divisor.2) }
    else { p with line := p.line.write data }
  else if port = com1 + 1 then
    if p.lcr.getLsbD 7 then { p with divisor := (p.divisor.1, data) } else { p with ier := data }
  else if port = com1 + 3 then
    { p with lcr := data }
  else
    p

/-- Reading from a port of `COM1`: what others than the line status answer is not used. -/
def serialIn (p : Ports) (port : BitVec 16) : BitVec 8 × Ports :=
  if port = com1 + 5 then (p.tick.lineStatus, { p.tick with asked := p.asked + 1 }) else (0xFF, p)

/-- `outb(port, data)`. -/
def outb (p : Ports) (port : BitVec 16) (data : BitVec 8) : Ports :=
  if port = p.crtcBase then { p with crtcIndex := data }
  else if port = p.crtcBase + 1 then { p with crtc := Function.update p.crtc p.crtcIndex data }
  else serialOut p port data

/-- `inb(port)`. -/
def inb (p : Ports) (port : BitVec 16) : BitVec 8 × Ports :=
  if port = p.crtcBase + 1 then (p.crtc p.crtcIndex, p) else serialIn p port

/-! ### Memory -/

/-- Bytes that are memory, and what is in them.  Others read as ones. -/
structure VideoMemory where
  present : ℕ → Bool
  bytes : BootMemory

namespace VideoMemory

def read (m : VideoMemory) (a : ℕ) : BitVec 8 := if m.present a then m.bytes a else 0xFF

def write (m : VideoMemory) (a : ℕ) (v : BitVec 8) : VideoMemory :=
  if m.present a then { m with bytes := Function.update m.bytes a v } else m

/-- A `uint16_t`. -/
def read16 (m : VideoMemory) (a : ℕ) : BitVec 16 := m.read (a + 1) ++ m.read a

def write16 (m : VideoMemory) (a : ℕ) (v : BitVec 16) : VideoMemory :=
  (m.write a (v.extractLsb' 0 8)).write (a + 1) (v.extractLsb' 8 8)

end VideoMemory

/-! ### `console.c` -/

/-- The variables, memory and ports. -/
structure BootConsole where
  addr6845 : BitVec 32
  crtBuf : ℕ
  crtPos : BitVec 16
  memory : VideoMemory
  ports : Ports

/-- `CRT_COLS`. -/
def crtCols : ℕ := 80

/-- `CRT_ROWS`. -/
def crtRows : ℕ := 25

/-- `CRT_SIZE`. -/
def crtSize : ℕ := crtRows * crtCols

/-- A register of the adapter, read and written. -/
def crtcIn (p : Ports) (addr6845 : BitVec 32) (reg : BitVec 8) : BitVec 8 × Ports :=
  inb (outb p (addr6845.setWidth 16) reg) ((addr6845 + 1).setWidth 16)

def crtcOut (p : Ports) (addr6845 : BitVec 32) (reg data : BitVec 8) : Ports :=
  outb (outb p (addr6845.setWidth 16) reg) ((addr6845 + 1).setWidth 16) data

/-- "Extract cursor location". -/
def cursorIn (p : Ports) (addr6845 : BitVec 32) : BitVec 16 × Ports :=
  let high := crtcIn p addr6845 14
  let low := crtcIn high.2 addr6845 15
  ((high.1.setWidth 32 <<< 8 ||| low.1.setWidth 32).setWidth 16, low.2)

/-- `cga_init()`. -/
def cgaInit (m : VideoMemory) (p : Ports) : BootConsole :=
  let was := m.read16 0xB8000
  let m := m.write16 0xB8000 0xA55A
  if m.read16 0xB8000 ≠ 0xA55A then
    let cursor := cursorIn p 0x3B4
    ⟨0x3B4, 0xB0000, cursor.1, m, cursor.2⟩
  else
    let cursor := cursorIn p 0x3D4
    ⟨0x3D4, 0xB8000, cursor.1, m.write16 0xB8000 was, cursor.2⟩

/-- "If no attribute given, then use black on white." -/
def withAttribute (c : BitVec 32) : BitVec 32 := if c &&& ~~~0xFF = 0 then c ||| 0x0700 else c

namespace BootConsole

variable (s : BootConsole)

/-- `crt_buf[i] = v`. -/
def putCell (i : ℕ) (v : BitVec 16) : BootConsole :=
  { s with memory := s.memory.write16 (s.crtBuf + 2 * i) v }

/-- The switch of `cga_putc`. -/
def typeChar (c : BitVec 32) : BootConsole :=
  if c &&& 0xFF = 8 then
    if s.crtPos > 0 then
      { s.putCell (s.crtPos - 1).toNat ((c &&& ~~~0xFF ||| 32).setWidth 16) with
        crtPos := s.crtPos - 1 }
    else
      s
  else if c &&& 0xFF = 10 then
    -- falls through to the carriage return
    { s with crtPos := s.crtPos + 80 - (s.crtPos + 80) % 80 }
  else if c &&& 0xFF = 13 then
    { s with crtPos := s.crtPos - s.crtPos % 80 }
  else if c &&& 0xFF = 9 then
    { s.putCell s.crtPos.toNat ((c &&& ~~~0xFF ||| 32).setWidth 16) with crtPos := s.crtPos + 1 }
  else
    { s.putCell s.crtPos.toNat (c.setWidth 16) with crtPos := s.crtPos + 1 }

end BootConsole

/-- `while (count--) { *p = *(p + CRT_COLS * sizeof(uint16_t)); p++; }`. -/
def rollBytes : ℕ → ℕ → VideoMemory → VideoMemory
  | 0, _, m => m
  | count + 1, p, m => rollBytes count (p + 1) (m.write p (m.read (p + crtCols * 2)))

namespace BootConsole

variable (s : BootConsole)

/-- `memmove(crt_buf, crt_buf + CRT_COLS, count)`. -/
def copyRows (count : ℕ) : BootConsole :=
  { s with memory := rollBytes count s.crtBuf s.memory }

/-- The first `n` rounds of the loop that clears the last row. -/
def clearCells (n : ℕ) : BootConsole :=
  (List.range n).foldl (fun (s : BootConsole) i =>
    s.putCell (crtSize - crtCols + i) (0x0700 ||| 32)) s

/-- "Roll screen if needed." -/
def rollScreen : BootConsole :=
  if s.crtPos.toNat ≥ crtSize then
    { (s.copyRows ((crtSize - crtCols) * 2)).clearCells crtCols with crtPos := s.crtPos - 80 }
  else
    s

/-- "Move that little blinky thing." -/
def moveCursor : BootConsole :=
  { s with
    ports := crtcOut (crtcOut s.ports s.addr6845 14 ((s.crtPos >>> 8).setWidth 8)) s.addr6845 15
      (s.crtPos.setWidth 8) }

/-- `cga_putc(c)`. -/
def cgaPutc (c : BitVec 32) : BootConsole :=
  ((s.typeChar (withAttribute c)).rollScreen).moveCursor

end BootConsole

/-- The loop of `serial_putc`: it ends when the port is ready, and after so many more rounds.  What
`delay` does is to take time. -/
def serialWait : ℕ → Ports → Ports
  | 0, p => (inb p (com1 + 5)).2
  | n + 1, p =>
      let r := inb p (com1 + 5)
      if r.1 &&& 0x20 = 0 then serialWait n r.2 else r.2

/-- `serial_putc(c)`. -/
def serialPutc (p : Ports) (c : BitVec 32) : Ports :=
  outb (serialWait 12800 p) com1 (c.setWidth 8)

/-- `serial_init()`; whether there is a port is not looked at again. -/
def serialInit (p : Ports) : Ports :=
  let p := outb p (com1 + 2) 0
  let p := outb p (com1 + 3) 0x80
  let p := outb p com1 (BitVec.ofNat 8 (115200 / 9600))
  let p := outb p (com1 + 1) 0
  let p := outb p (com1 + 3) (0x03 &&& ~~~0x80)
  let p := outb p (com1 + 4) 0
  let p := outb p (com1 + 1) 0x01
  let p := (inb p (com1 + 5)).2
  let p := (inb p (com1 + 2)).2
  (inb p com1).2

/-- `bioinit()`. -/
def bioinit (m : VideoMemory) (p : Ports) : BootConsole :=
  let s := cgaInit m p
  { s with ports := serialInit s.ports }

/-- `bputc(c)`. -/
def bputc (s : BootConsole) (c : BitVec 32) : BootConsole :=
  let s := s.cgaPutc c
  { s with ports := serialPutc s.ports c }

/-! ### Cells in memory -/

theorem crtCols_eq : crtCols = 80 := rfl

theorem crtSize_eq : crtSize = 2000 := rfl

namespace VideoMemory

variable {m : VideoMemory} {a b : ℕ}

@[simp] theorem present_write (m : VideoMemory) (a : ℕ) (v : BitVec 8) :
    (m.write a v).present = m.present := by
  unfold write
  split <;> rfl

@[simp] theorem present_write16 (m : VideoMemory) (a : ℕ) (v : BitVec 16) :
    (m.write16 a v).present = m.present := by
  simp [write16]

theorem bytes_write_of_ne (v : BitVec 8) (h : b ≠ a) : (m.write a v).bytes b = m.bytes b := by
  unfold write
  split
  · exact Function.update_of_ne h _ _
  · rfl

theorem bytes_write16_of_ne (v : BitVec 16) (h : b ≠ a) (h' : b ≠ a + 1) :
    (m.write16 a v).bytes b = m.bytes b := by
  rw [write16, bytes_write_of_ne _ h', bytes_write_of_ne _ h]

theorem read_write (ha : m.present a = true) (v : BitVec 8) (x : ℕ) :
    (m.write a v).read x = if x = a then v else m.read x := by
  by_cases hx : x = a
  · subst hx
    simp [read, write, ha]
  · rw [read, read, present_write, bytes_write_of_ne _ hx, if_neg hx]

theorem read16_write16 (ha : m.present a = true) (ha' : m.present (a + 1) = true)
    (v : BitVec 16) : (m.write16 a v).read16 a = v := by
  have hwide : (v.extractLsb' 8 8 ++ v.extractLsb' 0 8 : BitVec 16) = v := by
    ext i hi
    simp only [BitVec.getElem_append, BitVec.getElem_extractLsb']
    split
    · simp [BitVec.getLsbD_eq_getElem hi]
    · rw [show 8 + (i - 8) = i by omega, BitVec.getLsbD_eq_getElem hi]
  have hp : (m.write a (v.extractLsb' 0 8)).present (a + 1) = true := by simpa using ha'
  rw [read16, write16, read_write hp, if_pos rfl, read_write hp, if_neg (by omega),
    read_write ha, if_pos rfl]
  exact hwide

theorem read16_write16_of_apart (ha : m.present a = true) (ha' : m.present (a + 1) = true)
    (v : BitVec 16) (h : b + 2 ≤ a ∨ a + 2 ≤ b) : (m.write16 a v).read16 b = m.read16 b := by
  have hp : (m.write a (v.extractLsb' 0 8)).present (a + 1) = true := by simpa using ha'
  rw [read16, read16, write16, read_write hp, read_write hp, read_write ha, read_write ha,
    if_neg (by omega), if_neg (by omega), if_neg (by omega), if_neg (by omega)]

end VideoMemory

namespace BootConsole

variable {s s' s'' : BootConsole}

/-- The screen. -/
def screen (s : BootConsole) : Buffer (BitVec 16) :=
  ⟨fun i => s.memory.read16 (s.crtBuf + 2 * i), s.crtPos.toNat⟩

theorem screen_setPos (s : BootConsole) (pos : BitVec 16) :
    ({ s with crtPos := pos } : BootConsole).screen = ⟨s.screen.cell, pos.toNat⟩ := rfl

/-- There is memory for the screen. -/
def HasScreen (s : BootConsole) : Prop := ∀ i < 2 * crtSize, s.memory.present (s.crtBuf + i) = true

/-- Only the screen and its position may differ. -/
structure DrawsOnly (s s' : BootConsole) : Prop where
  addr : s'.addr6845 = s.addr6845
  ports : s'.ports = s.ports
  buf : s'.crtBuf = s.crtBuf
  present : s'.memory.present = s.memory.present
  bytes : ∀ a, a < s.crtBuf ∨ s.crtBuf + 2 * crtSize ≤ a → s'.memory.bytes a = s.memory.bytes a

theorem DrawsOnly.refl (s : BootConsole) : DrawsOnly s s := ⟨rfl, rfl, rfl, rfl, fun _ _ => rfl⟩

theorem DrawsOnly.trans (h : DrawsOnly s s') (h' : DrawsOnly s' s'') : DrawsOnly s s'' where
  addr := h'.addr.trans h.addr
  ports := h'.ports.trans h.ports
  buf := h'.buf.trans h.buf
  present := h'.present.trans h.present
  bytes a ha := (h'.bytes a (h.buf.symm ▸ ha)).trans (h.bytes a ha)

theorem DrawsOnly.setPos (h : DrawsOnly s s') (pos : BitVec 16) :
    DrawsOnly s { s' with crtPos := pos } :=
  ⟨h.addr, h.ports, h.buf, h.present, h.bytes⟩

theorem HasScreen.of_drawsOnly (hs : s.HasScreen) (h : DrawsOnly s s') : s'.HasScreen := by
  intro i hi
  rw [h.present, h.buf]
  exact hs i hi

theorem drawsOnly_putCell {i : ℕ} (hi : i < crtSize) (v : BitVec 16) :
    DrawsOnly s (s.putCell i v) where
  addr := rfl
  ports := rfl
  buf := rfl
  present := VideoMemory.present_write16 _ _ _
  bytes a ha := VideoMemory.bytes_write16_of_ne _ (by omega) (by omega)

theorem cell_putCell (hs : s.HasScreen) {i : ℕ} (hi : i < crtSize) (v : BitVec 16) :
    (s.putCell i v).screen.cell = Function.update s.screen.cell i v := by
  have hp := hs (2 * i) (by omega)
  have hp' := hs (2 * i + 1) (by omega)
  funext j
  by_cases hj : j = i
  · subst hj
    rw [Function.update_self]
    exact VideoMemory.read16_write16 hp hp' v
  · rw [Function.update_of_ne hj]
    have hbuf : (s.putCell i v).crtBuf = s.crtBuf := rfl
    exact VideoMemory.read16_write16_of_apart hp hp' v (by omega)

/-! ### Typing a character -/

/-- The key that a character is. -/
def charKey (c : BitVec 32) : Key (BitVec 16) :=
  if c &&& 0xFF = 8 then .backspace ((c &&& ~~~0xFF ||| 32).setWidth 16)
  else if c &&& 0xFF = 10 then .newline
  else if c &&& 0xFF = 13 then .carriageReturn
  else if c &&& 0xFF = 9 then .put ((c &&& ~~~0xFF ||| 32).setWidth 16)
  else .put (c.setWidth 16)

theorem screen_put (hs : s.HasScreen) (hpos : s.crtPos.toNat < crtSize) (v : BitVec 16) :
    ({ s.putCell s.crtPos.toNat v with crtPos := s.crtPos + 1 } : BootConsole).screen
      = s.screen.move crtCols (.put v) := by
  rw [crtSize_eq] at hpos
  have hcell := cell_putCell hs (i := s.crtPos.toNat) (by rw [crtSize_eq]; omega) v
  have hnext : (s.crtPos + 1).toNat = s.crtPos.toNat + 1 := by bv_omega
  rw [Buffer.move]
  exact congrArg₂ Buffer.mk hcell hnext

theorem screen_typeChar (hs : s.HasScreen) (hpos : s.crtPos.toNat < crtSize) (c : BitVec 32) :
    (s.typeChar c).screen = s.screen.move crtCols (charKey c) := by
  have hpos' := hpos
  rw [crtSize_eq] at hpos'
  rw [typeChar, charKey]
  by_cases hback : c &&& 0xFF = 8
  · rw [if_pos hback, if_pos hback, Buffer.move]
    by_cases hzero : s.crtPos > 0
    · have hprev : (s.crtPos - 1).toNat = s.crtPos.toNat - 1 := by bv_omega
      have hgt : s.screen.pos > 0 := by
        have : 0 < s.crtPos.toNat := by bv_omega
        exact this
      rw [if_pos hzero, if_pos hgt]
      have hcell := cell_putCell hs (i := (s.crtPos - 1).toNat) (by rw [crtSize_eq]; omega)
        ((c &&& ~~~0xFF ||| 32).setWidth 16)
      rw [hprev] at hcell ⊢
      exact congrArg₂ Buffer.mk hcell hprev
    · have hle : ¬ s.screen.pos > 0 := by
        have : ¬ 0 < s.crtPos.toNat := by bv_omega
        exact this
      rw [if_neg hzero, if_neg hle]
  · rw [if_neg hback, if_neg hback]
    by_cases hnewline : c &&& 0xFF = 10
    · rw [if_pos hnewline, if_pos hnewline, Buffer.move]
      refine congrArg (Buffer.mk _) ?_
      have hsum : (s.crtPos + 80).toNat = s.crtPos.toNat + 80 := by bv_omega
      have hmod : ((s.crtPos + 80) % 80).toNat = (s.crtPos.toNat + 80) % 80 := by
        rw [BitVec.toNat_umod, hsum]
        rfl
      rw [BitVec.toNat_sub_of_le, hsum, hmod]
      · rfl
      · rw [BitVec.le_def, hsum, hmod]
        exact Nat.mod_le _ _
    · rw [if_neg hnewline, if_neg hnewline]
      by_cases hreturn : c &&& 0xFF = 13
      · rw [if_pos hreturn, if_pos hreturn, Buffer.move]
        refine congrArg (Buffer.mk _) ?_
        have hmod : (s.crtPos % 80).toNat = s.crtPos.toNat % 80 := by
          rw [BitVec.toNat_umod]
          rfl
        rw [BitVec.toNat_sub_of_le, hmod]
        · rfl
        · rw [BitVec.le_def, hmod]
          exact Nat.mod_le _ _
      · rw [if_neg hreturn, if_neg hreturn]
        by_cases htab : c &&& 0xFF = 9
        · rw [if_pos htab, if_pos htab]
          exact screen_put hs hpos _
        · rw [if_neg htab, if_neg htab]
          exact screen_put hs hpos _

theorem drawsOnly_typeChar (hpos : s.crtPos.toNat < crtSize) (c : BitVec 32) :
    DrawsOnly s (s.typeChar c) := by
  unfold typeChar
  split
  · split
    next hzero => exact (drawsOnly_putCell (by bv_omega) _).setPos _
    next => exact .refl s
  · split
    · exact (DrawsOnly.refl s).setPos _
    · split
      · exact (DrawsOnly.refl s).setPos _
      · split
        · exact (drawsOnly_putCell hpos _).setPos _
        · exact (drawsOnly_putCell hpos _).setPos _

/-! ### Scrolling -/

theorem present_rollBytes (n p : ℕ) (m : VideoMemory) :
    (rollBytes n p m).present = m.present := by
  induction n generalizing p m with
  | zero => rfl
  | succ n ih => rw [rollBytes, ih, VideoMemory.present_write]

/-- The copy goes up, and reads ahead of what it has written. -/
theorem read_rollBytes {n p : ℕ} {m : VideoMemory} (hm : ∀ i < n, m.present (p + i) = true)
    (a : ℕ) : (rollBytes n p m).read a
      = if p ≤ a ∧ a < p + n then m.read (a + crtCols * 2) else m.read a := by
  induction n generalizing p m with
  | zero => rw [rollBytes, if_neg (by omega)]
  | succ n ih =>
      have hp : m.present p = true := hm 0 (by omega)
      rw [rollBytes, ih fun i hi => by
        rw [VideoMemory.present_write, show p + 1 + i = p + (i + 1) by omega]
        exact hm (i + 1) (by omega)]
      rw [VideoMemory.read_write hp, VideoMemory.read_write hp]
      have hcols : 0 < crtCols * 2 := by decide
      by_cases hin : p + 1 ≤ a ∧ a < p + 1 + n
      · rw [if_pos hin, if_neg (by omega), if_pos (by omega)]
      · rw [if_neg hin]
        by_cases hap : a = p
        · subst hap
          rw [if_pos rfl, if_pos (by omega)]
        · rw [if_neg hap, if_neg (by omega)]

theorem bytes_rollBytes_of_ne {n p : ℕ} {m : VideoMemory} {a : ℕ} (ha : a < p ∨ p + n ≤ a) :
    (rollBytes n p m).bytes a = m.bytes a := by
  induction n generalizing p m with
  | zero => rfl
  | succ n ih => rw [rollBytes, ih (by omega), VideoMemory.bytes_write_of_ne _ (by omega)]

theorem clearCells_succ (s : BootConsole) (n : ℕ) : s.clearCells (n + 1)
    = (s.clearCells n).putCell (crtSize - crtCols + n) (0x0700 ||| 32) := by
  rw [clearCells, List.range_succ, List.foldl_append]
  rfl

theorem clearCells_spec (hs : s.HasScreen) {n : ℕ} (hn : n ≤ crtCols) :
    DrawsOnly s (s.clearCells n) ∧
      ∀ i, (s.clearCells n).screen.cell i =
        if crtSize - crtCols ≤ i ∧ i < crtSize - crtCols + n then 0x0720 else s.screen.cell i := by
  induction n with
  | zero => exact ⟨.refl s, fun i => by rw [if_neg (by omega)]; rfl⟩
  | succ n ih =>
      obtain ⟨hd, hcell⟩ := ih (by omega)
      have hlt : crtSize - crtCols + n < crtSize := by rw [crtSize_eq, crtCols_eq] at *; omega
      rw [clearCells_succ]
      refine ⟨hd.trans (drawsOnly_putCell hlt _), fun i => ?_⟩
      rw [cell_putCell (hs.of_drawsOnly hd) hlt]
      by_cases hi : i = crtSize - crtCols + n
      · subst hi
        rw [Function.update_self, if_pos (by omega)]
        decide
      · rw [Function.update_of_ne hi, hcell]
        by_cases hin : crtSize - crtCols ≤ i ∧ i < crtSize - crtCols + n
        · rw [if_pos hin, if_pos (by omega)]
        · rw [if_neg hin, if_neg (by omega)]

theorem drawsOnly_copyRows (s : BootConsole) {n : ℕ} (hn : n ≤ 2 * crtSize) :
    DrawsOnly s (s.copyRows n) where
  addr := rfl
  ports := rfl
  buf := rfl
  present := present_rollBytes _ _ _
  bytes a ha := bytes_rollBytes_of_ne (by omega)

theorem cell_copyRows (hs : s.HasScreen) {n : ℕ} (hn : n = (crtSize - crtCols) * 2) (i : ℕ) :
    (s.copyRows n).screen.cell i =
      if i < crtSize - crtCols then s.screen.cell (i + crtCols) else s.screen.cell i := by
  have hread := fun a => read_rollBytes (n := n) (p := s.crtBuf)
    (fun j hj => hs j (by omega)) a
  have hcell : (s.copyRows n).screen.cell i
      = (rollBytes n s.crtBuf s.memory).read16 (s.crtBuf + 2 * i) := rfl
  rw [hcell, VideoMemory.read16, hread, hread]
  by_cases hi : i < crtSize - crtCols
  · rw [if_pos (by omega), if_pos (by omega), if_pos hi]
    have hplace : s.crtBuf + 2 * i + crtCols * 2 = s.crtBuf + 2 * (i + crtCols) := by omega
    rw [show s.crtBuf + 2 * i + 1 + crtCols * 2 = s.crtBuf + 2 * i + crtCols * 2 + 1 by omega,
      hplace]
    rfl
  · rw [if_neg (by omega), if_neg (by omega), if_neg hi]
    rfl

theorem rollScreen_spec (hs : s.HasScreen) :
    DrawsOnly s s.rollScreen ∧ s.rollScreen.screen = s.screen.roll crtCols crtRows 0x0720 := by
  have hcols := crtCols_eq
  have hsize := crtSize_eq
  rw [rollScreen, Buffer.roll]
  generalize hn : (crtSize - crtCols) * 2 = n
  by_cases hend : s.crtPos.toNat ≥ crtSize
  · have hend' : s.screen.pos ≥ crtRows * crtCols := hend
    rw [if_pos hend, if_pos hend']
    have hcopy := drawsOnly_copyRows s (n := n) (by omega)
    obtain ⟨hd, hcell⟩ := clearCells_spec (hs.of_drawsOnly hcopy) (le_refl crtCols)
    refine ⟨(hcopy.trans hd).setPos _, ?_⟩
    rw [screen_setPos]
    apply Buffer.ext
    · funext i
      dsimp only
      rw [hcell, cell_copyRows hs hn.symm]
      have hlow : (crtRows - 1) * crtCols = crtSize - crtCols := rfl
      have hall : crtRows * crtCols = crtSize := rfl
      rw [hlow, hall]
      by_cases hrow : i < crtSize - crtCols
      · rw [if_neg (by omega), if_pos hrow, if_pos hrow]
      · rw [if_neg hrow, if_neg hrow]
        by_cases hlast : i < crtSize
        · rw [if_pos (by omega), if_pos hlast]
        · rw [if_neg (by omega), if_neg hlast]
    · have hscreen : s.screen.pos = s.crtPos.toNat := rfl
      have hge : 80 ≤ s.crtPos.toNat := by omega
      have hsub : (s.crtPos - 80).toNat = s.crtPos.toNat - 80 := by bv_omega
      dsimp only
      rw [hscreen, hcols, hsub]
  · have hend' : ¬ s.screen.pos ≥ crtRows * crtCols := hend
    rw [if_neg hend, if_neg hend']
    exact ⟨.refl s, rfl⟩

/-- What a character types. -/
def cgaKey (c : BitVec 32) : Key (BitVec 16) := charKey (withAttribute c)

/-- **A character is typed on the screen, and nothing else changes** before the cursor is moved. -/
theorem screen_draw (hs : s.HasScreen) (hpos : s.crtPos.toNat < crtSize) (c : BitVec 32) :
    DrawsOnly s (s.typeChar (withAttribute c)).rollScreen ∧
      (s.typeChar (withAttribute c)).rollScreen.screen
        = s.screen.type crtCols crtRows 0x0720 (cgaKey c) := by
  have hd := drawsOnly_typeChar hpos (withAttribute c)
  obtain ⟨hd', hroll⟩ := rollScreen_spec (hs.of_drawsOnly hd)
  refine ⟨hd.trans hd', ?_⟩
  rw [hroll, Buffer.type, cgaKey, screen_typeChar hs hpos]

end BootConsole

/-! ### Registers -/

namespace Transmitter

variable (t : Transmitter)

theorem moves_tick (k : ℕ) : (t.tick k).moves = t.moves := by
  unfold tick
  split <;> rfl

theorem text_tick (k : ℕ) : (t.tick k).text = t.text := by
  unfold tick
  split
  · exact List.append_nil _
  · rfl

variable {t} in
theorem thr_tick {k : ℕ} (h : t.moves k = true) : (t.tick k).thr = none := by
  rw [tick, if_pos h]

variable {t} in
theorem text_write (h : t.thr = none) (data : BitVec 8) :
    (t.write data).text = t.text ++ [data] := by
  rw [text, text, h]
  simp [write]

/-- A byte is lost, or none. -/
theorem text_write_sublist (data : BitVec 8) :
    (t.write data).text.Sublist (t.text ++ [data]) :=
  (List.sublist_append_left t.sent t.thr.toList).append (List.Sublist.refl [data])

end Transmitter

/-- The two ports of the adapter, and none of the serial port. -/
structure CrtcAt (p : Ports) (addr6845 : BitVec 32) : Prop where
  base : addr6845.setWidth 16 = p.crtcBase
  known : addr6845 = 0x3B4 ∨ addr6845 = 0x3D4

section Registers

variable {p : Ports} {addr : BitVec 32}

theorem CrtcAt.next (h : CrtcAt p addr) :
    (addr + 1).setWidth 16 = p.crtcBase + 1 ∧ p.crtcBase + 1 ≠ p.crtcBase := by
  rw [← h.base]
  rcases h.known with rfl | rfl
  · decide
  · decide

/-- The serial port is elsewhere. -/
theorem CrtcAt.apart (h : CrtcAt p addr) {port : BitVec 16}
    (hport : 0x3F8 ≤ port.toNat) : port ≠ p.crtcBase ∧ port ≠ p.crtcBase + 1 := by
  have hbase : p.crtcBase.toNat ≤ 0x3D4 := by
    rw [← h.base]
    rcases h.known with rfl | rfl
    · decide
    · decide
  constructor
  · rintro rfl
    omega
  · rintro rfl
    bv_omega

theorem crtcOut_eq (h : CrtcAt p addr) (reg data : BitVec 8) : crtcOut p addr reg data =
    { p with crtcIndex := reg, crtc := Function.update p.crtc reg data } := by
  have hsel : outb p (addr.setWidth 16) reg = { p with crtcIndex := reg } := by
    rw [outb, if_pos h.base]
  rw [crtcOut, hsel, h.next.1, outb, if_neg h.next.2, if_pos rfl]

theorem crtcIn_eq (h : CrtcAt p addr) (reg : BitVec 8) :
    crtcIn p addr reg = (p.crtc reg, { p with crtcIndex := reg }) := by
  have hsel : outb p (addr.setWidth 16) reg = { p with crtcIndex := reg } := by
    rw [outb, if_pos h.base]
  rw [crtcIn, hsel, h.next.1, inb, if_pos rfl]

theorem cursorIn_eq (h : CrtcAt p addr) :
    cursorIn p addr = (p.crtc 14 ++ p.crtc 15, { p with crtcIndex := 15 }) := by
  have h' : CrtcAt { p with crtcIndex := 14 } addr := ⟨h.base, h.known⟩
  have hjoin : ∀ a b : BitVec 8, ((a.setWidth 32 <<< 8 ||| b.setWidth 32).setWidth 16 : BitVec 16)
      = a ++ b := by
    intro a b
    apply BitVec.eq_of_getLsbD_eq
    intro i hi
    simp only [BitVec.getLsbD_setWidth, BitVec.getLsbD_or, BitVec.getLsbD_shiftLeft,
      BitVec.getLsbD_append]
    by_cases hlow : i < 8
    · simp [hlow, hi, show i < 32 by omega]
    · simp [hlow, hi, show i < 32 by omega, show i - 8 < 32 by omega,
        BitVec.getLsbD_of_ge b i (by omega)]
  rw [cursorIn, crtcIn_eq h]
  dsimp only
  rw [crtcIn_eq h', hjoin]

theorem outb_serial (h : CrtcAt p addr) {port : BitVec 16} (hport : 0x3F8 ≤ port.toNat)
    (data : BitVec 8) : outb p port data = serialOut p port data := by
  rw [outb, if_neg (h.apart hport).1, if_neg (h.apart hport).2]

theorem inb_serial (h : CrtcAt p addr) {port : BitVec 16} (hport : 0x3F8 ≤ port.toNat) :
    inb p port = serialIn p port := by
  rw [inb, if_neg (h.apart hport).2]

theorem inb_status (h : CrtcAt p addr) :
    inb p (com1 + 5) = (p.tick.lineStatus, { p.tick with asked := p.asked + 1 }) := by
  rw [inb_serial h (by decide), serialIn, if_pos rfl]

theorem txrdy_bit : ∀ b : BitVec 8, (b ||| 0x20) &&& 0x20 ≠ 0 ∧ b &&& ~~~0x20 &&& 0x20 = 0 := by
  decide

theorem lineStatus_ready_iff (p : Ports) : p.lineStatus &&& 0x20 = 0 ↔ p.line.thr ≠ none := by
  obtain ⟨hset, hclear⟩ := txrdy_bit (p.status p.asked)
  rw [Ports.lineStatus]
  cases p.line.thr with
  | none =>
      rw [if_pos Option.isNone_none]
      exact ⟨fun h => absurd h hset, fun h => absurd rfl h⟩
  | some data =>
      rw [if_neg (by simp)]
      exact ⟨fun _ => Option.some_ne_none data, fun _ => hclear⟩

/-- The port is ready sooner or later, or it is not asked again; bytes go on, and none is lost. -/
theorem serialWait_eq (n : ℕ) : ∀ {p : Ports}, CrtcAt p addr →
    ∃ k line, 1 ≤ k ∧ k ≤ n + 1 ∧ serialWait n p = { p with asked := p.asked + k, line := line } ∧
      line.moves = p.line.moves ∧ line.text = p.line.text ∧
      ((∃ j ≤ n, p.line.moves (p.asked + j) = true) → line.thr = none) := by
  induction n with
  | zero =>
      intro p h
      refine ⟨1, p.line.tick p.asked, le_refl 1, le_refl 1, ?_, p.line.moves_tick _,
        p.line.text_tick _, ?_⟩
      · rw [serialWait, inb_status h]
        rfl
      · rintro ⟨j, hj, hmoves⟩
        obtain rfl := Nat.le_zero.mp hj
        exact Transmitter.thr_tick hmoves
  | succ n ih =>
      intro p h
      rw [serialWait, inb_status h]
      dsimp only
      by_cases hwaits : p.tick.lineStatus &&& 0x20 = 0
      · have h' : CrtcAt { p.tick with asked := p.asked + 1 } addr := ⟨h.base, h.known⟩
        obtain ⟨k, line, hk, hkn, heq, hmoves, htext, hprompt⟩ := ih h'
        refine ⟨k + 1, line, by omega, by omega, ?_, hmoves.trans (p.line.moves_tick _),
          htext.trans (p.line.text_tick _), ?_⟩
        · rw [if_pos hwaits, heq]
          dsimp only [Ports.tick]
          rw [Nat.add_assoc, Nat.add_comm 1 k]
        · -- the byte has not moved on yet
          rintro ⟨j, hj, hmove⟩
          cases j with
          | zero =>
              exact absurd (Transmitter.thr_tick hmove) ((lineStatus_ready_iff _).mp hwaits)
          | succ j =>
              refine hprompt ⟨j, by omega, ?_⟩
              dsimp only [Ports.tick]
              rw [Nat.add_assoc, Nat.add_comm 1 j, p.line.moves_tick]
              exact hmove
      · refine ⟨1, p.line.tick p.asked, le_refl 1, by omega, ?_, p.line.moves_tick _,
          p.line.text_tick _, fun _ => ?_⟩
        · rw [if_neg hwaits]
          rfl
        · exact not_not.mp fun hthr => hwaits ((lineStatus_ready_iff _).mpr hthr)

/-- **A character is sent behind the ones before it**, and none is lost when the line is prompt. -/
theorem serialPutc_eq (h : CrtcAt p addr) (hlcr : p.lcr.getLsbD 7 = false) (c : BitVec 32) :
    ∃ k line, 1 ≤ k ∧ k ≤ 12801 ∧
      serialPutc p c = { p with asked := p.asked + k, line := line } ∧
      line.moves = p.line.moves ∧ line.text.Sublist (p.line.text ++ [c.setWidth 8]) ∧
      (p.line.Prompt → line.text = p.line.text ++ [c.setWidth 8]) := by
  obtain ⟨k, line, hk, hkn, heq, hmoves, htext, hprompt⟩ := serialWait_eq 12800 h
  have h' : CrtcAt { p with asked := p.asked + k, line := line } addr := ⟨h.base, h.known⟩
  have hdata : ¬ p.lcr.getLsbD 7 = true := by
    rw [hlcr]
    exact Bool.false_ne_true
  refine ⟨k, line.write (c.setWidth 8), hk, hkn, ?_, hmoves, ?_, fun hp => ?_⟩
  · rw [serialPutc, heq, outb_serial h' (by decide), serialOut, if_pos rfl, if_neg hdata]
  · rw [← htext]
    exact line.text_write_sublist _
  · rw [← htext]
    exact Transmitter.text_write (hprompt (hp p.asked)) _

theorem serialInit_eq (h : CrtcAt p addr) : serialInit p =
    { p.tick with lcr := 0x03, divisor := (12, 0), ier := 0x01, asked := p.asked + 1 } := by
  have hout : ∀ (q : Ports) (port : BitVec 16) (data : BitVec 8), q.crtcBase = p.crtcBase →
      0x3F8 ≤ port.toNat → outb q port data = serialOut q port data := fun q port data hq hport =>
    outb_serial ⟨hq ▸ h.base, h.known⟩ hport data
  have hin : ∀ (q : Ports) (port : BitVec 16), q.crtcBase = p.crtcBase →
      0x3F8 ≤ port.toNat → inb q port = serialIn q port := fun q port hq hport =>
    inb_serial ⟨hq ▸ h.base, h.known⟩ hport
  unfold serialInit
  simp [hout, hin, serialOut, serialIn, com1, Ports.tick]

end Registers

/-! ### The adapter -/

/-- A colour adapter, or a monochrome one, with no memory where that of the other would be. -/
structure Adapter (m : VideoMemory) (p : Ports) (addr : BitVec 32) (buf : ℕ) : Prop where
  base : addr.setWidth 16 = p.crtcBase
  kind : addr = 0x3D4 ∧ buf = 0xB8000 ∨
    addr = 0x3B4 ∧ buf = 0xB0000 ∧ m.present 0xB8000 = false ∧ m.present 0xB8001 = false
  screen : ∀ i < 2 * crtSize, m.present (buf + i) = true

section Run

variable {m : VideoMemory} {p : Ports} {addr : BitVec 32} {buf : ℕ}

theorem Adapter.crtcAt (ha : Adapter m p addr buf) : CrtcAt p addr := by
  refine ⟨ha.base, ?_⟩
  rcases ha.kind with ⟨h, _⟩ | ⟨h, _⟩
  · exact .inr h
  · exact .inl h

theorem VideoMemory.write_of_absent {a : ℕ} (h : m.present a = false) (v : BitVec 8) :
    m.write a v = m := by
  rw [write, h, if_neg Bool.false_ne_true]

theorem extractLsb'_low (x y : BitVec 8) : (x ++ y).extractLsb' 0 8 = y := by
  ext i hi
  simp only [BitVec.getElem_extractLsb', BitVec.getLsbD_append]
  rw [Nat.zero_add, if_pos hi, BitVec.getLsbD_eq_getElem hi]

theorem extractLsb'_high (x y : BitVec 8) : (x ++ y).extractLsb' 8 8 = x := by
  ext i hi
  simp only [BitVec.getElem_extractLsb', BitVec.getLsbD_append]
  rw [if_neg (by omega), Nat.add_sub_cancel_left, BitVec.getLsbD_eq_getElem hi]

/-- A probed cell is put back. -/
theorem VideoMemory.write16_read16 {a : ℕ} (ha : m.present a = true)
    (ha' : m.present (a + 1) = true) (v : BitVec 16) :
    (m.write16 a v).write16 a (m.read16 a) = m := by
  have hread : m.read16 a = m.bytes (a + 1) ++ m.bytes a := by
    rw [read16, read, read, if_pos ha, if_pos ha']
  have hlow : (m.read16 a).extractLsb' 0 8 = m.bytes a := by
    rw [hread]
    exact extractLsb'_low _ _
  have hhigh : (m.read16 a).extractLsb' 8 8 = m.bytes (a + 1) := by
    rw [hread]
    exact extractLsb'_high _ _
  have hbytes : ∀ x, ((m.write16 a v).write16 a (m.read16 a)).bytes x = m.bytes x := by
    intro x
    simp only [write16, hlow, hhigh, write, ha, ha', if_true]
    by_cases hx : x = a + 1
    · rw [hx, Function.update_self]
    · rw [Function.update_of_ne hx]
      by_cases hx' : x = a
      · rw [hx', Function.update_self]
      · rw [Function.update_of_ne hx', Function.update_of_ne hx, Function.update_of_ne hx']
  have hpresent : ((m.write16 a v).write16 a (m.read16 a)).present = m.present := by simp
  calc (m.write16 a v).write16 a (m.read16 a)
      = ⟨((m.write16 a v).write16 a (m.read16 a)).present,
          ((m.write16 a v).write16 a (m.read16 a)).bytes⟩ := rfl
    _ = m := by rw [hpresent, funext hbytes]

/-- The adapter is found, memory is as it was, and the cursor is where it was. -/
theorem cgaInit_eq (ha : Adapter m p addr buf) : cgaInit m p =
    ⟨addr, buf, p.crtc 14 ++ p.crtc 15, m, { p with crtcIndex := 15 }⟩ := by
  have hcursor := cursorIn_eq ha.crtcAt
  rcases ha.kind with ⟨rfl, rfl⟩ | ⟨rfl, rfl, habs, habs'⟩
  · have hp := ha.screen 0 (by decide)
    have hp' := ha.screen 1 (by decide)
    rw [cgaInit, if_neg (not_not.mpr (VideoMemory.read16_write16 hp hp' _)), hcursor,
      VideoMemory.write16_read16 hp hp']
  · have hwrite : m.write16 0xB8000 0xA55A = m := by
      rw [VideoMemory.write16, VideoMemory.write_of_absent habs,
        VideoMemory.write_of_absent habs']
    have hread : m.read16 0xB8000 ≠ 0xA55A := by
      rw [VideoMemory.read16, VideoMemory.read, VideoMemory.read, habs, habs',
        if_neg Bool.false_ne_true, if_neg Bool.false_ne_true]
      decide
    rw [cgaInit, hwrite, if_pos hread, hcursor]

/-! ### Runs -/

/-- What was on the screen and then typed, on the tape. -/
def consoleTape (m : VideoMemory) (p : Ports) (buf : ℕ) (text : List (BitVec 32)) :
    Tape (BitVec 16) :=
  (text.map BootConsole.cgaKey).foldl (Tape.type crtCols crtRows)
    (.ofBuffer crtCols crtRows 0x0720
      ⟨fun i => m.read16 (buf + 2 * i), (p.crtc 14 ++ p.crtc 15).toNat⟩)

theorem consoleTape_concat (m : VideoMemory) (p : Ports) (buf : ℕ) (text : List (BitVec 32))
    (c : BitVec 32) : consoleTape m p buf (text ++ [c]) =
      (consoleTape m p buf text).type crtCols crtRows (BootConsole.cgaKey c) := by
  rw [consoleTape, List.map_append, List.foldl_append]
  rfl

/-- The console after a text. -/
structure AfterText (m : VideoMemory) (p : Ports) (addr : BitVec 32) (buf : ℕ)
    (text : List (BitVec 32)) (s : BootConsole) : Prop where
  addrIs : s.addr6845 = addr
  bufIs : s.crtBuf = buf
  /-- The screen shows the end of the tape. -/
  shows : Shows crtCols crtRows 0x0720 (consoleTape m p buf text) s.screen
  /-- The cursor blinks at its position. -/
  cursor : s.ports.crtc 14 ++ s.ports.crtc 15 = s.crtPos
  /-- Other memory is as it was. -/
  bytes : ∀ a, a < buf ∨ buf + 2 * crtSize ≤ a → s.memory.bytes a = m.bytes a
  present : s.memory.present = m.present
  crtcBase : s.ports.crtcBase = p.crtcBase
  moves : s.ports.line.moves = p.line.moves
  /-- Characters were sent in order, and none of them twice. -/
  ordered : s.ports.line.text.Sublist (p.line.text ++ text.map (BitVec.setWidth 8))
  /-- Every character was sent, if the line takes them in time. -/
  sent : p.line.Prompt → s.ports.line.text = p.line.text ++ text.map (BitVec.setWidth 8)
  lcr : s.ports.lcr = 0x03
  divisor : s.ports.divisor = (12, 0)
  /-- The serial port was asked a bounded number of times. -/
  asked : p.asked + 1 + text.length ≤ s.ports.asked ∧
    s.ports.asked ≤ p.asked + 1 + 12801 * text.length

theorem afterText_nil (ha : Adapter m p addr buf)
    (hcursor : (p.crtc 14 ++ p.crtc 15).toNat < crtSize) :
    AfterText m p addr buf [] (bioinit m p) := by
  have hat : CrtcAt { p with crtcIndex := 15 } addr := ⟨ha.base, ha.crtcAt.known⟩
  rw [bioinit, cgaInit_eq ha]
  dsimp only
  rw [serialInit_eq hat]
  have htext : (p.line.tick p.asked).text = p.line.text ++ [] := by
    rw [p.line.text_tick, List.append_nil]
  exact ⟨rfl, rfl, .ofBuffer hcursor, rfl, fun a _ => rfl, rfl, rfl, p.line.moves_tick _,
    htext ▸ List.Sublist.refl _, fun _ => htext, rfl, rfl, le_refl _, le_refl _⟩

theorem cursor_bytes (pos : BitVec 16) :
    (pos >>> 8).setWidth 8 ++ pos.setWidth 8 = (pos : BitVec (8 + 8)) := by
  apply BitVec.eq_of_getLsbD_eq
  intro i hi
  rw [BitVec.getLsbD_append]
  by_cases hlow : i < 8
  · simp [hlow]
  · simp [hlow, show i - 8 < 8 by omega, show 8 + (i - 8) = i by omega]

/-- One more character. -/
theorem AfterText.bputc {text : List (BitVec 32)} {s : BootConsole} (ha : Adapter m p addr buf)
    (hs : AfterText m p addr buf text s) (c : BitVec 32) :
    AfterText m p addr buf (text ++ [c]) (bputc s c) := by
  have hscreen : s.HasScreen := by
    intro i hi
    rw [hs.present, hs.bufIs]
    exact ha.screen i hi
  obtain ⟨hd, hdraw⟩ := BootConsole.screen_draw hscreen hs.shows.inside c
  generalize hdrawn : (s.typeChar (withAttribute c)).rollScreen = s₁ at hd hdraw
  have hat : CrtcAt s₁.ports s₁.addr6845 :=
    ⟨by rw [hd.addr, hd.ports, hs.addrIs, hs.crtcBase]; exact ha.base,
      by rw [hd.addr, hs.addrIs]; exact ha.crtcAt.known⟩
  have hmove : s.cgaPutc c = { s₁ with ports := { s₁.ports with
      crtcIndex := 15
      crtc := Function.update (Function.update s₁.ports.crtc 14 ((s₁.crtPos >>> 8).setWidth 8)) 15
        (s₁.crtPos.setWidth 8) } } := by
    rw [BootConsole.cgaPutc, hdrawn, BootConsole.moveCursor, crtcOut_eq hat, crtcOut_eq]
    exact ⟨hat.base, hat.known⟩
  have hlcr : s₁.ports.lcr.getLsbD 7 = false := by
    rw [hd.ports, hs.lcr]
    rfl
  obtain ⟨k, line, hk, hkn, hserial, hmoves, hordered, hsent⟩ :=
    serialPutc_eq (p := (s.cgaPutc c).ports) (by rw [hmove]; exact ⟨hat.base, hat.known⟩)
      (by rw [hmove]; exact hlcr) c
  have hline : (s.cgaPutc c).ports.line = s.ports.line := by rw [hmove, ← hd.ports]
  rw [hline] at hmoves hordered hsent
  rw [Aim.bputc, hserial, hmove]
  have hasked := hs.asked
  refine ⟨hd.addr.trans hs.addrIs, hd.buf.trans hs.bufIs, ?_, ?_, fun a hout => ?_,
    hd.present.trans hs.present, ?_, hmoves.trans hs.moves, ?_, fun hprompt => ?_, ?_, ?_, ?_⟩
  · -- the screen
    rw [consoleTape_concat]
    have htype := hs.shows.type (by decide) (by decide) (BootConsole.cgaKey c)
    rw [← hdraw] at htype
    exact htype
  · exact cursor_bytes s₁.crtPos
  · exact (hd.bytes a (by rwa [hs.bufIs])).trans (hs.bytes a hout)
  · exact (congrArg Ports.crtcBase hd.ports).trans hs.crtcBase
  · rw [List.map_append, ← List.append_assoc]
    exact hordered.trans (hs.ordered.append (List.Sublist.refl _))
  · have hprompt' : s.ports.line.Prompt := fun n => by
      rw [hs.moves]
      exact hprompt n
    dsimp only
    rw [hsent hprompt', hs.sent hprompt, List.map_append, List.append_assoc]
    rfl
  · dsimp only
    rw [hd.ports, hs.lcr]
  · dsimp only
    rw [hd.ports, hs.divisor]
  · dsimp only
    rw [hd.ports, List.length_append, List.length_singleton]
    omega

/-- **After any text** the screen shows the end of the tape that was typed, the adapter's cursor is
at its end, and every character was sent, if the line takes them in time; no other memory is
written. -/
theorem console_shows_tape (ha : Adapter m p addr buf)
    (hcursor : (p.crtc 14 ++ p.crtc 15).toNat < crtSize) (text : List (BitVec 32)) :
    AfterText m p addr buf text (text.foldl bputc (bioinit m p)) := by
  induction text using List.reverseRecOn with
  | nil => exact afterText_nil ha hcursor
  | append_singleton text c ih =>
      rw [List.foldl_append]
      exact ih.bputc ha c

/-- Characters that are not typed in a way of their own. -/
def Plain (c : BitVec 32) : Prop := c &&& 0xFF ≠ 8 ∧ c &&& 0xFF ≠ 10 ∧ c &&& 0xFF ≠ 13

/-- The cell that shows a character; a tab is a space. -/
def charCell (c : BitVec 32) : BitVec 16 :=
  if c &&& 0xFF = 9 then (withAttribute c &&& ~~~0xFF ||| 32).setWidth 16
  else (withAttribute c).setWidth 16

theorem withAttribute_low (c : BitVec 32) : withAttribute c &&& 0xFF = c &&& 0xFF := by
  unfold withAttribute
  split
  · have hzero : (0x0700 : BitVec 32) &&& 0xFF = 0#32 := by decide
    rw [BitVec.and_or_distrib_right, hzero, BitVec.or_zero]
  · rfl

theorem cgaKey_plain {c : BitVec 32} (hc : Plain c) : BootConsole.cgaKey c = .put (charCell c) := by
  obtain ⟨h8, h10, h13⟩ := hc
  rw [BootConsole.cgaKey, BootConsole.charKey, withAttribute_low, if_neg h8, if_neg h10, if_neg h13,
    charCell]
  split <;> rfl

/-- **The last characters of a text are on the screen**, as many as fit in front of the cursor. -/
theorem console_keeps_text (ha : Adapter m p addr buf)
    (hcursor : (p.crtc 14 ++ p.crtc 15).toNat < crtSize) (before text : List (BitVec 32))
    (hplain : ∀ c ∈ text, Plain c) :
    let s := (before ++ text).foldl bputc (bioinit m p)
    ∀ k, k < text.length → k < s.crtPos.toNat →
      some (s.memory.read16 (buf + 2 * (s.crtPos.toNat - 1 - k)))
        = (text.map charCell)[text.length - 1 - k]? := by
  intro s k hk hpos
  have hs := console_shows_tape ha hcursor (before ++ text)
  have hkeys : (before ++ text).map BootConsole.cgaKey
      = before.map BootConsole.cgaKey ++ (text.map charCell).map Key.put := by
    rw [List.map_append, List.map_map]
    congr 1
    exact List.map_congr_left fun c hc => cgaKey_plain (hplain c hc)
  have hshows := hs.shows
  rw [consoleTape, hkeys, List.foldl_append] at hshows
  have htext := hshows.text (k := k) (by simpa using hk) hpos
  rw [List.length_map] at htext
  rw [← htext, ← hs.bufIs]
  rfl

end Run

/-! ### A machine -/

/-- A colour adapter with the cursor in the last row, and a serial port that is asked three times
before the line takes a byte; one waits already. -/
def somePorts : Ports where
  crtcBase := 0x3D4
  crtcIndex := 0
  crtc r := if r = 14 then 0x07 else if r = 15 then 0x80 else 0
  lcr := 0
  divisor := (0, 0)
  ier := 0
  line := ⟨[], some 0x2e, fun k => k % 3 = 2⟩
  status _ := 0
  asked := 0

theorem somePorts_prompt : somePorts.line.Prompt :=
  fun n => ⟨2 - n % 3, by omega, decide_eq_true (by omega)⟩

theorem somePorts_adapter :
    Adapter ⟨fun _ => true, fun _ => 0⟩ somePorts 0x3D4 0xB8000 :=
  ⟨rfl, .inl ⟨rfl, rfl⟩, fun _ _ => rfl⟩

/-- The row under the cursor does not exist: the screen rolls.  The byte that waited goes over the
line, and the text behind it. -/
theorem console_shows_tape_newline :
    let s := [0x41, 10].foldl bputc (bioinit ⟨fun _ => true, fun _ => 0⟩ somePorts)
    AfterText ⟨fun _ => true, fun _ => 0⟩ somePorts 0x3D4 0xB8000 [0x41, 10] s ∧
      s.ports.line.text = [0x2e, 0x41, 10] := by
  have hs := console_shows_tape somePorts_adapter (by decide) [0x41, 10]
  exact ⟨hs, hs.sent somePorts_prompt⟩

theorem console_keeps_text_twice :
    let s := ([10] ++ [0x41, 0x42]).foldl bputc (bioinit ⟨fun _ => true, fun _ => 0⟩ somePorts)
    ∀ k, k < 2 → k < s.crtPos.toNat →
      some (s.memory.read16 (0xB8000 + 2 * (s.crtPos.toNat - 1 - k)))
        = ([0x41, 0x42].map charCell)[1 - k]? :=
  console_keeps_text somePorts_adapter (by decide) [10] [0x41, 0x42]
    (by simp [Plain])

end Aim
