/-
**The console of all cores.**

The cores of the Raspberry Pi 2 share one console: a screen, whose variables `fbputc` reads and
writes, and a serial line, whose UART has room for few bytes and sends them when it pleases.
`kprintf` formats its text in a buffer of its own, and `kputs` writes it, character by character,
under a spin lock; the cores run at high addresses, where the lock is taken.  Cores go on in any
order, the UART in between.  The variables of the screen are read at once when `fbputc` begins, and
written at once when it ends.

Main definitions:

* `Aim.MiniUart` — the transmitter of the UART;
* `Aim.KputsAt`, `Aim.kputsStep` — `__kputs`, `early_console_putchar` and `__uart_rpi2_putchar`;
* `Aim.kprintfString` — what `kprintf` has in its buffer;
* `Aim.consoleSections` — `kputs` of all cores.

Main results:

* `Aim.kprintfString_eq` — the text of `kprintf`;
* `Aim.console_in_turns` — **whatever the cores print, the line and the screen get one text behind
  the other, and no byte is lost**;
* `Aim.console_finishes` — **all cores can finish.**
-/

import AimKernel.ExclusiveLock
import AimKernel.FbConsole
import AimKernel.FormatBuffer

set_option relaxedAutoImplicit false
set_option autoImplicit false

namespace Aim

open ExclusiveLock

/-! ### The UART -/

/-- The bytes that wait, those that have been sent, and whether a byte was lost. -/
structure MiniUart where
  fifo : List (BitVec 8)
  sent : List (BitVec 8)
  lost : Bool

namespace MiniUart

/-- How many bytes can wait. -/
def depth : ℕ := 8

variable (u : MiniUart)

/-- `AUX_MU_LSR_REG`: whether a byte can be written, and whether none waits. -/
def lsr : BitVec 32 :=
  (if u.fifo.length < depth then 0x20 else 0) ||| (if u.fifo = [] then 0x40 else 0)

/-- Writing to `AUX_MU_IO_REG`. -/
def write (data : BitVec 32) : MiniUart :=
  if u.fifo.length < depth then { u with fifo := u.fifo ++ [data.setWidth 8] }
  else { u with lost := true }

/-- A byte is sent. -/
def shift : MiniUart := { u with fifo := u.fifo.drop 1, sent := u.sent ++ u.fifo.take 1 }

/-- All that was written. -/
def text : List (BitVec 8) := u.sent ++ u.fifo

theorem lsr_ready : u.lsr &&& 0x20 ≠ 0 ↔ u.fifo.length < depth := by
  unfold lsr
  by_cases hfull : u.fifo.length < depth
  · by_cases hempty : u.fifo = []
    · simp [hempty, depth]
    · simp [hfull, hempty]
  · by_cases hempty : u.fifo = []
    · simp [hempty, depth] at hfull
    · simp [hfull, hempty]

@[simp] theorem text_shift : u.shift.text = u.text := by
  rw [text, shift, List.append_assoc, List.take_append_drop, text]

theorem write_of_room {u : MiniUart} (h : u.fifo.length < depth) (data : BitVec 32) :
    (u.write data).text = u.text ++ [data.setWidth 8] ∧ (u.write data).lost = u.lost := by
  rw [write, if_pos h]
  exact ⟨(List.append_assoc _ _ _).symm, rfl⟩

/-- After some time there is room. -/
theorem room_after (u : MiniUart) : ∃ n, (shift^[n] u).fifo.length < depth := by
  have hlen : ∀ n, (shift^[n] u).fifo.length = u.fifo.length - n := by
    intro n
    induction n with
    | zero => rfl
    | succ n ih =>
        rw [Function.iterate_succ_apply']
        simp [shift, ih, Nat.sub_sub]
  exact ⟨u.fifo.length, by simp [hlen, depth]⟩

end MiniUart

/-! ### `kputs` -/

/-- The screen and the line. -/
structure ConsoleHw where
  screen : FbConsole
  uart : MiniUart

/-- Where a core is in `early_console_putchar`. -/
inductive PutcharAt
  /-- At `fbputc(c)`. -/
  | draw
  /-- `fbputc` is going to write the variables of the screen. -/
  | store (screen : FbConsole)
  /-- At the loop of `__uart_rpi2_putchar`. -/
  | poll
  | write

/-- Where a core is in `__kputs`. -/
inductive KputsAt
  /-- At the test of the loop, with so many characters left. -/
  | head (s : List (BitVec 8))
  /-- In `__putchar(c)`, with so many characters behind; when this is the `'\r'` of a `'\n'`, the
  `'\n'` comes next. -/
  | putchar (place : PutcharAt) (c : BitVec 8) (cr : Bool) (s : List (BitVec 8))

/-- The next step: none at the end of the string. -/
def kputsStep (font : Font) (hw : ConsoleHw) : KputsAt → Option (ConsoleHw × KputsAt)
  | .head [] => none
  | .head (c :: s) =>
      if c = 10 then some (hw, .putchar .draw 13 true s) else some (hw, .putchar .draw c false s)
  | .putchar .draw c cr s =>
      match fbputc font hw.screen c.toNat with
      | .ok screen => some (hw, .putchar (.store screen) c cr s)
      | .error _ => none
  | .putchar (.store screen) c cr s => some ({ hw with screen := screen }, .putchar .poll c cr s)
  | .putchar .poll c cr s =>
      if hw.uart.lsr &&& 0x20 ≠ 0 then some (hw, .putchar .write c cr s)
      else some (hw, .putchar .poll c cr s)
  | .putchar .write c cr s =>
      some ({ hw with uart := hw.uart.write (c.setWidth 32) },
        if cr then .putchar .draw 10 false s else .head s)

/-! ### `kprintf` -/

/-- The string in a buffer of `n` bytes. -/
def stringIn (buf : ℕ → BitVec 8) (n : ℕ) : CString where
  chars := ((List.range n).map buf).takeWhile fun c => c ≠ 0
  no_nul h := by simpa using List.mem_takeWhile_imp h

/-- What `kprintf(fmt, ...)` has in `printf_buf` for `kputs`. -/
def kprintfString (strings : Strings) (buf : ℕ → BitVec 8) (fmt : CString) (ap : VaList) :
    Except FmtFault CString := do
  let result ← vsnprintf strings buf BUFSIZ fmt ap
  return stringIn result.str BUFSIZ.toNat

/-- A call of `kputs`, or of `kprintf` with a format that does not end within a conversion; the
buffer is the one on the stack. -/
inductive ConsoleCall
  | kputs (s : CString)
  | kprintf (buf : ℕ → BitVec 8) (fmt : CString) (ap : VaList) (complete : Complete fmt)

/-- The string that `kputs` gets. -/
def ConsoleCall.string (strings : Strings) : ConsoleCall → Except FmtFault CString
  | .kputs s => .ok s
  | .kprintf buf fmt ap _ => kprintfString strings buf fmt ap

/-- Its characters. -/
def ConsoleCall.text (strings : Strings) (call : ConsoleCall) : List (BitVec 8) :=
  match call.string strings with
  | .ok s => s.chars
  | .error _ => []

/-- `kputs` of all cores, under the lock. -/
def consoleSections (font : Font) (strings : Strings) : Sections ConsoleHw KputsAt ConsoleCall where
  enter call := .head (call.text strings)
  work hw l hw' l' := kputsStep font hw l = some (hw', l')
  final l := l = .head []
  env hw hw' := hw' = { hw with uart := hw.uart.shift }

/-! ### The text of `kprintf` -/

theorem takeWhile_nul (out rest : List (BitVec 8)) :
    ((out ++ 0 :: rest).takeWhile fun c => c ≠ 0) = out.takeWhile fun c => c ≠ 0 := by
  induction out with
  | nil => rfl
  | cons c out ih => simp only [List.cons_append, List.takeWhile_cons, ih]

/-- A text with a NUL behind it, in a buffer. -/
theorem stringIn_overlay (buf : ℕ → BitVec 8) (out : List (BitVec 8)) {n : ℕ} (hn : out.length < n) :
    (stringIn (overlay buf (out ++ [0])) n).chars = out.takeWhile fun c => c ≠ 0 := by
  have htake : ((List.range n).map (overlay buf (out ++ [0]))).take (out.length + 1)
      = out ++ [0] := by
    refine List.ext_getElem (by simpa using hn) fun i h₁ h₂ => ?_
    rw [List.getElem_take, List.getElem_map, List.getElem_range, overlay,
      List.getElem?_eq_getElem h₂, Option.getD_some]
  change (((List.range n).map (overlay buf (out ++ [0]))).takeWhile fun c => c ≠ 0) = _
  rw [← List.take_append_drop (out.length + 1) ((List.range n).map _), htake, List.append_assoc]
  exact takeWhile_nul out _

/-- **`kprintf` prints what the format makes**, up to 1023 characters, and up to a NUL. -/
theorem kprintfString_eq (strings : Strings) (buf : ℕ → BitVec 8) {fmt : CString}
    (hfmt : Complete fmt) (ap : VaList) :
    ∃ out rest s, unlimited strings fmt ap = .ok (out, rest) ∧
      kprintfString strings buf fmt ap = .ok s ∧
      s.chars = (out.take 1023).takeWhile fun c => c ≠ 0 := by
  obtain ⟨st, htext, hunlimited⟩ := unlimited_of_complete strings hfmt ap
  have hstring : kprintfString strings buf fmt ap = .ok (stringIn (overlay buf
      ((formatText strings .text fmt.chars (.start ap)).1.take (capacity BUFSIZ - 1) ++ [0]))
        BUFSIZ.toNat) := by
    rw [kprintfString, vsnprintf_of_text htext]
    rfl
  refine ⟨_, _, _, hunlimited, hstring, stringIn_overlay buf _ ?_⟩
  have hcap : capacity BUFSIZ - 1 = 1023 := rfl
  have hsize : BUFSIZ.toNat = 1024 := rfl
  rw [hcap, hsize, List.length_take]
  omega

/-! ### What is still to come -/

/-- A string on the line: every newline becomes two characters. -/
def crlf (s : List (BitVec 8)) : List (BitVec 8) := s.flatMap fun c => if c = 10 then [13, 10] else [c]

theorem crlf_newline (s : List (BitVec 8)) : crlf (10 :: s) = 13 :: 10 :: crlf s := rfl

theorem crlf_other {c : BitVec 8} (hc : c ≠ 10) (s : List (BitVec 8)) :
    crlf (c :: s) = c :: crlf s := by
  rw [crlf, List.flatMap_cons, if_neg hc]
  rfl

/-- Behind the character that is being put. -/
def afterChar (cr : Bool) (s : List (BitVec 8)) : List (BitVec 8) :=
  (if cr then [10] else []) ++ crlf s

/-- What has not been written to the UART. -/
def KputsAt.toSend : KputsAt → List (BitVec 8)
  | .head s => crlf s
  | .putchar _ c cr s => c :: afterChar cr s

/-- What has not been drawn. -/
def KputsAt.toDraw : KputsAt → List (BitVec 8)
  | .head s => crlf s
  | .putchar .draw c cr s => c :: afterChar cr s
  | .putchar (.store _) c cr s => c :: afterChar cr s
  | .putchar .poll _ cr s => afterChar cr s
  | .putchar .write _ cr s => afterChar cr s

/-- `fbputc` for all characters of a text. -/
def drawText (font : Font) (screen : FbConsole) (text : List (BitVec 8)) :
    Except FbFault FbConsole :=
  text.foldlM (fun screen c => fbputc font screen c.toNat) screen

/-- What a core knows: the screen that it is going to write is that of its character, and the byte
that it is going to write has room. -/
def KputsAt.Ready (font : Font) (hw : ConsoleHw) : KputsAt → Prop
  | .head _ => True
  | .putchar .draw _ _ _ => True
  | .putchar (.store screen) c _ _ => fbputc font hw.screen c.toNat = .ok screen
  | .putchar .poll _ _ _ => True
  | .putchar .write _ _ _ => hw.uart.fifo.length < MiniUart.depth

section Kputs

variable {font : Font} {hw hw' : ConsoleHw} {l l' : KputsAt}

/-- The core after `__putchar`. -/
def nextChar (cr : Bool) (s : List (BitVec 8)) : KputsAt :=
  if cr then .putchar .draw 10 false s else .head s

theorem nextChar_spec (font : Font) (hw : ConsoleHw) (cr : Bool) (s : List (BitVec 8)) :
    (nextChar cr s).toSend = afterChar cr s ∧ (nextChar cr s).toDraw = afterChar cr s ∧
      (nextChar cr s).Ready font hw := by
  cases cr with
  | false => exact ⟨rfl, rfl, trivial⟩
  | true => exact ⟨rfl, rfl, trivial⟩

/-- What one step does: `b` is written to the UART, and `d` is drawn. -/
structure Puts (font : Font) (hw : ConsoleHw) (l : KputsAt) (hw' : ConsoleHw) (l' : KputsAt)
    (b d : List (BitVec 8)) : Prop where
  send : l.toSend = b ++ l'.toSend
  text : hw'.uart.text = hw.uart.text ++ b
  lost : hw'.uart.lost = hw.uart.lost
  draw : l.toDraw = d ++ l'.toDraw
  screen : drawText font hw.screen d = .ok hw'.screen
  inv : hw'.screen.Inv
  ready : l'.Ready font hw'

/-- **One step of `kputs`.** -/
theorem kputsStep_spec (hstep : kputsStep font hw l = some (hw', l')) (hinv : hw.screen.Inv)
    (hready : l.Ready font hw) : ∃ b d, Puts font hw l hw' l' b d := by
  cases l with
  | head s =>
      cases s with
      | nil => cases hstep
      | cons c s =>
          rw [kputsStep] at hstep
          by_cases hc : c = 10
          · rw [if_pos hc] at hstep
            cases hstep
            exact ⟨[], [], hc ▸ crlf_newline s, by simp, rfl, hc ▸ crlf_newline s, rfl, hinv,
              trivial⟩
          · rw [if_neg hc] at hstep
            cases hstep
            exact ⟨[], [], crlf_other hc s, by simp, rfl, crlf_other hc s, rfl, hinv, trivial⟩
  | putchar place c cr s =>
      cases place with
      | draw =>
          obtain ⟨screen, hdraw, -, -⟩ := hinv.putc font (Int.natCast_nonneg c.toNat)
            (by have := c.isLt; omega)
          rw [kputsStep, hdraw] at hstep
          cases hstep
          exact ⟨[], [], rfl, by simp, rfl, rfl, rfl, hinv, hdraw⟩
      | store screen =>
          cases hstep
          obtain ⟨screen', hdraw, hinv', -⟩ := hinv.putc font (Int.natCast_nonneg c.toNat)
            (by have := c.isLt; omega)
          have hready : fbputc font hw.screen c.toNat = .ok screen := hready
          have hsame : screen' = screen := Except.ok.inj (hdraw.symm.trans hready)
          refine ⟨[], [c], rfl, by simp, rfl, rfl, ?_, hsame ▸ hinv', trivial⟩
          rw [drawText, List.foldlM_cons, hready]
          rfl
      | poll =>
          rw [kputsStep] at hstep
          by_cases hroom : hw.uart.lsr &&& 0x20 ≠ 0
          · rw [if_pos hroom] at hstep
            cases hstep
            exact ⟨[], [], rfl, by simp, rfl, rfl, rfl, hinv, hw.uart.lsr_ready.mp hroom⟩
          · rw [if_neg hroom] at hstep
            cases hstep
            exact ⟨[], [], rfl, by simp, rfl, rfl, rfl, hinv, trivial⟩
      | write =>
          cases hstep
          obtain ⟨htext, hlost⟩ := MiniUart.write_of_room hready (c.setWidth 32)
          obtain ⟨hsend, hdraw, hnext⟩ := nextChar_spec font
            { hw with uart := hw.uart.write (c.setWidth 32) } cr s
          refine ⟨[c], [], ?_, ?_, hlost, ?_, rfl, hinv, hnext⟩
          · exact congrArg (c :: ·) hsend.symm
          · simpa using htext
          · exact hdraw.symm

/-! ### A call alone -/

/-- The UART sends bytes meanwhile. -/
theorem alone_shift (strings : Strings) (hw : ConsoleHw) (l : KputsAt) (n : ℕ) :
    Relation.ReflTransGen (Alone (consoleSections font strings)) (hw, l)
      ({ hw with uart := MiniUart.shift^[n] hw.uart }, l) := by
  induction n with
  | zero => exact .refl
  | succ n ih =>
      rw [Function.iterate_succ_apply']
      exact ih.tail (.env rfl)

/-- A character is put. -/
theorem alone_putchar (strings : Strings) {place : PutcharAt} {c : BitVec 8} {cr : Bool}
    {s : List (BitVec 8)} (hinv : hw.screen.Inv)
    (hready : (KputsAt.putchar place c cr s).Ready font hw) :
    ∃ hw', Relation.ReflTransGen (Alone (consoleSections font strings))
      (hw, .putchar place c cr s) (hw', nextChar cr s) ∧ hw'.screen.Inv := by
  -- from the end: writing, polling, storing, drawing
  have hwrite : ∀ hw : ConsoleHw, hw.screen.Inv → ∃ hw',
      Relation.ReflTransGen (Alone (consoleSections font strings)) (hw, .putchar .write c cr s)
        (hw', nextChar cr s) ∧ hw'.screen.Inv := fun hw hinv =>
    ⟨{ hw with uart := hw.uart.write (c.setWidth 32) }, .single (.work rfl), hinv⟩
  have hpoll : ∀ hw : ConsoleHw, hw.screen.Inv → ∃ hw',
      Relation.ReflTransGen (Alone (consoleSections font strings)) (hw, .putchar .poll c cr s)
        (hw', nextChar cr s) ∧ hw'.screen.Inv := by
    intro hw hinv
    obtain ⟨n, hroom⟩ := hw.uart.room_after
    obtain ⟨hw', hrun, hinv'⟩ := hwrite { hw with uart := MiniUart.shift^[n] hw.uart } hinv
    refine ⟨hw', (alone_shift strings hw _ n).trans (.head (.work ?_) hrun), hinv'⟩
    exact if_pos ((MiniUart.lsr_ready _).mpr hroom)
  have hstore : ∀ (hw : ConsoleHw) (screen : FbConsole), screen.Inv → ∃ hw',
      Relation.ReflTransGen (Alone (consoleSections font strings))
        (hw, .putchar (.store screen) c cr s) (hw', nextChar cr s) ∧ hw'.screen.Inv := by
    intro hw screen hinv
    obtain ⟨hw', hrun, hinv'⟩ := hpoll { hw with screen := screen } hinv
    exact ⟨hw', .head (.work rfl) hrun, hinv'⟩
  obtain ⟨screen, hdraw, hinv', -⟩ := hinv.putc font (Int.natCast_nonneg c.toNat)
    (by have := c.isLt; omega)
  cases place with
  | draw =>
      obtain ⟨hw', hrun, hinv''⟩ := hstore hw screen hinv'
      refine ⟨hw', .head (.work ?_) hrun, hinv''⟩
      change kputsStep font hw _ = _
      rw [kputsStep, hdraw]
  | store screen' =>
      have hready : fbputc font hw.screen c.toNat = .ok screen' := hready
      exact hstore hw screen' (Except.ok.inj (hdraw.symm.trans hready) ▸ hinv')
  | poll => exact hpoll hw hinv
  | write => exact hwrite hw hinv

theorem alone_draw (font : Font) (strings : Strings) (c : BitVec 8) (cr : Bool)
    (s : List (BitVec 8)) (hinv : hw.screen.Inv) :
    ∃ hw', Relation.ReflTransGen (Alone (consoleSections font strings))
      (hw, .putchar .draw c cr s) (hw', nextChar cr s) ∧ hw'.screen.Inv :=
  alone_putchar strings hinv trivial

/-- A string is put. -/
theorem alone_head (font : Font) (strings : Strings) (s : List (BitVec 8))
    (hinv : hw.screen.Inv) :
    ∃ hw', Relation.ReflTransGen (Alone (consoleSections font strings)) (hw, .head s)
      (hw', .head []) := by
  induction s generalizing hw with
  | nil => exact ⟨hw, .refl⟩
  | cons c s ih =>
      by_cases hc : c = 10
      · obtain ⟨hw₁, hrun₁, hinv₁⟩ := alone_draw font strings 13 true s hinv
        obtain ⟨hw₂, hrun₂, hinv₂⟩ := alone_draw font strings 10 false s hinv₁
        obtain ⟨hw₃, hrun₃⟩ := ih hinv₂
        exact ⟨hw₃, .head (.work (if_pos hc)) ((hrun₁.trans hrun₂).trans hrun₃)⟩
      · obtain ⟨hw₁, hrun₁, hinv₁⟩ := alone_draw font strings c false s hinv
        obtain ⟨hw₂, hrun₂⟩ := ih hinv₁
        exact ⟨hw₂, .head (.work (if_neg hc)) (hrun₁.trans hrun₂)⟩

/-- **A call ends**, from wherever it is. -/
theorem alone_kputs (strings : Strings) (hinv : hw.screen.Inv) (hready : l.Ready font hw) :
    ∃ hw', Relation.ReflTransGen (Alone (consoleSections font strings)) (hw, l)
      (hw', .head []) := by
  cases l with
  | head s => exact alone_head font strings s hinv
  | putchar place c cr s =>
      obtain ⟨hw₁, hrun₁, hinv₁⟩ := alone_putchar strings hinv hready
      cases cr with
      | false =>
          obtain ⟨hw₂, hrun₂⟩ := alone_head font strings s hinv₁
          exact ⟨hw₂, hrun₁.trans hrun₂⟩
      | true =>
          obtain ⟨hw₂, hrun₂, hinv₂⟩ := alone_draw font strings 10 false s hinv₁
          obtain ⟨hw₃, hrun₃⟩ := alone_head font strings s hinv₂
          exact ⟨hw₃, (hrun₁.trans hrun₂).trans hrun₃⟩

end Kputs

/-! ### All cores -/

section Cores

variable {ι : Type} [DecidableEq ι] {font : Font} {strings : Strings} {hw₀ : ConsoleHw}

/-- Texts on the line, one behind the other. -/
def lineText (strings : Strings) (order : List (ι × ConsoleCall)) : List (BitVec 8) :=
  order.flatMap fun p => crlf (p.2.text strings)

/-- The line and the screen got a text. -/
structure Got (font : Font) (hw₀ hw : ConsoleHw) (sent drawn : List (BitVec 8)) : Prop where
  text : hw.uart.text = hw₀.uart.text ++ sent
  screen : drawText font hw₀.screen drawn = .ok hw.screen

/-- The texts of the calls so far are on the line and on the screen; of the call whose turn it is, a
part. -/
def PrintedSoFar (font : Font) (strings : Strings) (hw₀ hw : ConsoleHw) :
    Option (ι × KputsAt) → List (ι × ConsoleCall) → Prop
  | none, order => Got font hw₀ hw (lineText strings order) (lineText strings order)
  | some (i, l), order => l.Ready font hw ∧ ∃ done call sent drawn, order = done ++ [(i, call)] ∧
      sent ++ l.toSend = crlf (call.text strings) ∧ drawn ++ l.toDraw = crlf (call.text strings) ∧
      Got font hw₀ hw (lineText strings done ++ sent) (lineText strings done ++ drawn)

theorem Got.append {hw hw' : ConsoleHw} {l l' : KputsAt} {b d sent drawn : List (BitVec 8)}
    (h : Got font hw₀ hw sent drawn) (hputs : Puts font hw l hw' l' b d) :
    Got font hw₀ hw' (sent ++ b) (drawn ++ d) where
  text := by rw [hputs.text, h.text, List.append_assoc]
  screen := by
    rw [drawText, List.foldlM_append, ← drawText, h.screen]
    exact hputs.screen

/-- The invariant of the console. -/
structure ConsoleInv (font : Font) (strings : Strings) (hw₀ hw : ConsoleHw)
    (turn : Option (ι × KputsAt)) (order : List (ι × ConsoleCall)) : Prop where
  inv : hw.screen.Inv
  lost : hw.uart.lost = hw₀.uart.lost
  printed : PrintedSoFar font strings hw₀ hw turn order

theorem KputsAt.Ready.shift {hw : ConsoleHw} {l : KputsAt} (h : l.Ready font hw) :
    l.Ready font { hw with uart := hw.uart.shift } := by
  cases l with
  | head s => trivial
  | putchar place c cr s =>
      cases place with
      | draw => trivial
      | store screen => exact h
      | poll => trivial
      | write =>
          have hroom : hw.uart.fifo.length < MiniUart.depth := h
          have hlen : hw.uart.shift.fifo.length = hw.uart.fifo.length - 1 := List.length_drop
          exact lt_of_le_of_lt (hlen.trans_le (Nat.sub_le _ _)) hroom

theorem Got.shift {hw : ConsoleHw} {sent drawn : List (BitVec 8)} (h : Got font hw₀ hw sent drawn) :
    Got font hw₀ { hw with uart := hw.uart.shift } sent drawn :=
  ⟨hw.uart.text_shift.trans h.text, h.screen⟩

omit [DecidableEq ι] in
/-- **Every section keeps the invariant of the console.** -/
theorem console_inTurns (hinv : hw₀.screen.Inv) :
    InTurns (ι := ι) (consoleSections font strings) hw₀ (ConsoleInv font strings hw₀) where
  init := ⟨hinv, rfl, (List.append_nil _).symm, rfl⟩
  begin h i call := by
    refine ⟨h.inv, h.lost, trivial, _, call, [], [], rfl, rfl, rfl, ?_⟩
    rw [List.append_nil]
    exact h.printed
  work h hstep := by
    obtain ⟨hready, done, call, sent, drawn, rfl, hsend, hdraw, hgot⟩ := h.printed
    obtain ⟨b, d, hputs⟩ := kputsStep_spec hstep h.inv hready
    refine ⟨hputs.inv, hputs.lost.trans h.lost, hputs.ready, done, call, sent ++ b, drawn ++ d, rfl,
      ?_, ?_, ?_⟩
    · rw [List.append_assoc, ← hputs.send, hsend]
    · rw [List.append_assoc, ← hputs.draw, hdraw]
    · rw [← List.append_assoc, ← List.append_assoc]
      exact hgot.append hputs
  finish h hfinal := by
    cases hfinal
    obtain ⟨-, done, call, sent, drawn, rfl, hsend, hdraw, hgot⟩ := h.printed
    refine ⟨h.inv, h.lost, ?_⟩
    have hsent : sent = crlf (call.text strings) := by simpa [KputsAt.toSend, crlf] using hsend
    have hdrawn : drawn = crlf (call.text strings) := by simpa [KputsAt.toDraw, crlf] using hdraw
    rw [hsent, hdrawn] at hgot
    simpa [PrintedSoFar, lineText] using hgot
  env h henv := by
    cases henv
    refine ⟨h.inv, h.lost, ?_⟩
    have hprinted := h.printed
    rename_i hw o order
    cases o with
    | none => exact Got.shift hprinted
    | some p =>
        obtain ⟨hready, done, call, sent, drawn, horder, hsend, hdraw, hgot⟩ := hprinted
        exact ⟨hready.shift, done, call, sent, drawn, horder, hsend, hdraw, hgot.shift⟩

variable {program : ι → List ConsoleCall} {s₀ s : State ι ConsoleHw KputsAt ConsoleCall}

/-- A run, in turns. -/
theorem console_run (hinv : hw₀.screen.Inv) (h₀ : Start program hw₀ s₀)
    (h : Relation.ReflTransGen (Step (consoleSections font strings)) s₀ s) :
    ∃ t order, Matches s t ∧ ConsoleInv font strings hw₀ s.shared t.turn order ∧
      ∀ i, tasksOf order i ++ s.todo i = program i := by
  obtain ⟨t, order, hmatch, hconsole, horder⟩ := run_in_turns (console_inTurns hinv) h₀ h
  exact ⟨t, order, hmatch, hmatch.shared ▸ hconsole, hmatch.todo ▸ horder⟩

/-- **Whatever the cores print**, in whatever order they go on: the texts of their calls are on the
line one behind the other, with those of each core in its own order, and drawn on the screen in the
same order; of the call of the one core that is inside, a part; and no byte is lost. -/
theorem console_in_turns (hinv : hw₀.screen.Inv) (hlost : hw₀.uart.lost = false)
    (h₀ : Start program hw₀ s₀)
    (h : Relation.ReflTransGen (Step (consoleSections font strings)) s₀ s) :
    ∃ order : List (ι × ConsoleCall), (∀ i, tasksOf order i ++ s.todo i = program i) ∧
      s.shared.uart.lost = false ∧
      ((∀ i l, s.place i ≠ .inside l) →
        Got font hw₀ s.shared (lineText strings order) (lineText strings order)) ∧
      ∀ i l, s.place i = .inside l → (∀ j k, s.place j = .inside k → j = i) ∧
        ∃ done call sent drawn, order = done ++ [(i, call)] ∧
          sent <+: crlf (call.text strings) ∧ drawn <+: crlf (call.text strings) ∧
          Got font hw₀ s.shared (lineText strings done ++ sent) (lineText strings done ++ drawn) := by
  obtain ⟨t, order, hmatch, hconsole, horder⟩ := console_run hinv h₀ h
  refine ⟨order, horder, hconsole.lost.trans hlost, fun hnobody => ?_, fun i l hinside => ?_⟩
  · have hprinted := hconsole.printed
    rw [hmatch.nobody_iff.mp hnobody] at hprinted
    exact hprinted
  · have hturn := (hmatch.inside i l).mp hinside
    have hprinted := hconsole.printed
    rw [hturn] at hprinted
    obtain ⟨-, done, call, sent, drawn, horder, hsend, hdraw, hgot⟩ := hprinted
    refine ⟨fun j k hjk => ?_, done, call, sent, drawn, horder, ⟨_, hsend⟩, ⟨_, hdraw⟩, hgot⟩
    have hturn' := (hmatch.inside j k).mp hjk
    rw [hturn] at hturn'
    cases hturn'
    rfl

/-- **All cores can finish**, from wherever they are: every call is made, the lock is free with
nobody inside, and all texts are printed. -/
theorem console_finishes [Fintype ι] (hinv : hw₀.screen.Inv) (h₀ : Start program hw₀ s₀)
    (h : Relation.ReflTransGen (Step (consoleSections font strings)) s₀ s) :
    ∃ s', Relation.ReflTransGen (Step (consoleSections font strings)) s s' ∧
      (∀ i, s'.todo i = []) ∧ (∀ i l, s'.place i ≠ .inside l) ∧ s'.word = 0 ∧
      ∃ order : List (ι × ConsoleCall), (∀ i, tasksOf order i = program i) ∧
        Got font hw₀ s'.shared (lineText strings order) (lineText strings order) := by
  have halone : ∀ {hw : ConsoleHw} {i : ι} {l : KputsAt} {order : List (ι × ConsoleCall)},
      ConsoleInv font strings hw₀ hw (some (i, l)) order → ∃ hw' l',
        Relation.ReflTransGen (Alone (consoleSections font strings)) (hw, l) (hw', l') ∧
          (consoleSections font strings).final l' := by
    intro hw i l order hconsole
    obtain ⟨hready, -⟩ := hconsole.printed
    obtain ⟨hw', hrun⟩ := alone_kputs strings hconsole.inv hready
    exact ⟨hw', .head [], hrun, rfl⟩
  obtain ⟨s', hrun, htodo, hplace⟩ := can_finish (console_inTurns hinv) halone h₀ h
  obtain ⟨t, order, hmatch, hconsole, horder⟩ := console_run hinv h₀ (h.trans hrun)
  have hnobody := hmatch.nobody_iff.mp hplace
  refine ⟨s', hrun, htodo, hplace, hmatch.word.mpr hnobody, order, fun i => ?_, ?_⟩
  · rw [← horder i, htodo i, List.append_nil]
  · have hprinted := hconsole.printed
    rw [hnobody] at hprinted
    exact hprinted

/-! ### Two cores -/

/-- A display of one row, and a UART that has sent nothing. -/
def smallConsole : ConsoleHw where
  screen := ⟨⟨480, 9, 1440⟩, fun _ => 0, 1, 80, 1, 80, 1, 0, 0, true⟩
  uart := ⟨[], [], false⟩

theorem smallConsole_inv : smallConsole.screen.Inv where
  display := smallest_display
  conrrows := rfl
  concols := rfl
  conrows := rfl
  enabled := rfl
  cursor := ⟨0, 0, rfl, rfl, by decide, by decide⟩

end Cores

/-- One core prints `"a\n"`, the other one prints the format `"b"`. -/
def twoCalls : Bool → List ConsoleCall
  | false => [.kputs ⟨[chr 'a', 10], by decide⟩]
  | true => [.kprintf (fun _ => 0) ⟨[chr 'b'], by decide⟩ (Stream'.const 0)
      ((complete_iff _).mpr (by decide))]

def twoCores : State Bool ConsoleHw KputsAt ConsoleCall where
  word := 0
  monitor _ := false
  place _ := .trying
  todo := twoCalls
  shared := smallConsole

theorem twoCores_start : Start twoCalls smallConsole twoCores := ⟨rfl, fun _ => rfl, rfl, rfl⟩

/-- The first core puts its first character. -/
theorem alone_first : ∃ screen, Relation.ReflTransGen (Alone (consoleSections (fun _ _ _ => 0)
    fun _ => nullText)) (smallConsole, .head [chr 'a', 10])
      (⟨screen, smallConsole.uart.write 0x61⟩, .head [10]) := by
  obtain ⟨screen, hdraw, -⟩ := smallConsole_inv.putc (fun _ _ _ => 0)
    (Int.natCast_nonneg (chr 'a').toNat) (by decide)
  have hhead : kputsStep (fun _ _ _ => 0) smallConsole (.head [chr 'a', 10])
      = some (smallConsole, .putchar .draw (chr 'a') false [10]) := by
    rw [kputsStep, if_neg (by decide : chr 'a' ≠ 10)]
  have hdraw' : kputsStep (fun _ _ _ => 0) smallConsole (.putchar .draw (chr 'a') false [10])
      = some (smallConsole, .putchar (.store screen) (chr 'a') false [10]) := by
    rw [kputsStep, hdraw]
  have hroom : smallConsole.uart.lsr &&& 0x20 ≠ 0 := by decide
  have hpoll : kputsStep (fun _ _ _ => 0) ⟨screen, smallConsole.uart⟩
      (.putchar .poll (chr 'a') false [10])
      = some (⟨screen, smallConsole.uart⟩, .putchar .write (chr 'a') false [10]) := if_pos hroom
  exact ⟨screen, .head (.work hhead) <| .head (.work hdraw') <| .head (.work rfl) <|
    .head (.work hpoll) <| .single (.work rfl)⟩

/-- The first core has put one of its two characters, when the other one finds the lock taken. -/
theorem console_in_turns_two :
    ∃ s : State Bool ConsoleHw KputsAt ConsoleCall, s.place false = .inside (.head [10]) ∧
      s.place true = .loaded false ∧ (∀ j k, s.place j = .inside k → j = false) ∧
      s.shared.uart.lost = false ∧ s.shared.uart.text = [chr 'a'] ∧
      ∃ order done call sent, (∀ i, tasksOf order i ++ s.todo i = twoCalls i) ∧
        order = done ++ [(false, call)] ∧ sent <+: crlf (call.text fun _ => nullText) ∧
        s.shared.uart.text = lineText (fun _ => nullText) done ++ sent := by
  have hload : twoCores.place false = .trying := rfl
  have htaken := (Relation.ReflTransGen.single (Step.load (S := consoleSections (fun _ _ _ => 0)
    fun _ => nullText) hload (by simp [twoCores, twoCalls]))).tail
      (.store (i := false) (t := .kputs ⟨[chr 'a', 10], by decide⟩) rfl rfl rfl)
  obtain ⟨screen, hfirst⟩ := alone_first
  have hrun := (htaken.trans (alone_steps (i := false) rfl hfirst)).tail
    (.load (i := true) rfl (List.cons_ne_nil _ _))
  obtain ⟨order, horder, hlost, -, hinside⟩ :=
    console_in_turns smallConsole_inv rfl twoCores_start hrun
  obtain ⟨halone, done, call, sent, drawn, hdone, hsent, -, hgot⟩ := hinside false _ rfl
  exact ⟨_, rfl, rfl, halone, hlost, rfl, order, done, call, sent, horder, hdone, hsent,
    hgot.text⟩

/-- Both cores can finish, also from there: nobody is inside then, and the lock is free. -/
theorem console_finishes_two :
    ∃ s : State Bool ConsoleHw KputsAt ConsoleCall, (∀ i, s.todo i = []) ∧ s.word = 0 ∧
      ∃ order : List (Bool × ConsoleCall), (∀ i, tasksOf order i = twoCalls i) ∧
        s.shared.uart.text = lineText (fun _ => nullText) order := by
  have hrun : Relation.ReflTransGen (Step (consoleSections (fun _ _ _ => 0) fun _ => nullText))
    twoCores twoCores := .refl
  obtain ⟨s, -, htodo, -, hword, order, horder, hgot⟩ :=
    console_finishes smallConsole_inv twoCores_start hrun
  exact ⟨s, htodo, hword, order, horder, hgot.text⟩

end Aim
