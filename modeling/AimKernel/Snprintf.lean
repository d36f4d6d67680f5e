/-
**Formatted output.**

`vsnprintf` scans its format once, from left to right.  `flag`, `width` and `longflag` are variables
of the whole function, every character goes through the macro `set_ch`, which returns from the
function when the buffer is full, and the argument list is read as it comes.  The model is the
function with `set_ch` as a parameter: with the macro of the source it is `vsnprintf`, and with one
that keeps everything it is what a buffer without end would receive.

Main definitions:

* `Aim.fmtCase`, `Aim.FmtState` — the cases of the switch, and the variables that live on from one
  conversion to the next;
* `Aim.printUint`, `Aim.printString` — the conversions that write more than one character;
* `Aim.scanFormat` — the loop over the format;
* `Aim.vsnprintf`, `Aim.unlimited` — the function, and its output without the limit;
* `Aim.fmtStep`, `Aim.formatText` — what a character of the format, and a format, writes.

Main results:

* `Aim.printUint_eq` — an integer conversion writes `uintText`, and its digits fit in `buf`;
* `Aim.scanFormat_eq` — **whatever `set_ch` does, the loop hands it the characters of `formatText`
  one by one.**
-/

import AimKernel.CString
import AimKernel.StoppingSink

set_option relaxedAutoImplicit false
set_option autoImplicit false

namespace Aim

open StoppingSink

/-! ### Characters and arguments -/

/-- A character of the source. -/
def chr (c : Char) : BitVec 8 := BitVec.ofNat 8 c.toNat

/-- A small number as a word. -/
theorem toNat_word {n : ℕ} (h : n < 2 ^ 32) : (BitVec.ofNat 32 n).toNat = n := by
  rw [BitVec.toNat_ofNat]
  exact Nat.mod_eq_of_lt h

/-- `FLAG_ZEROPAD`, padding with zero. -/
def FLAG_ZEROPAD : BitVec 32 := 0x002

/-- `FLAG_NEG`, negative integer. -/
def FLAG_NEG : BitVec 32 := 0x100

/-- The words of an argument list, from the next one on, as on the i386: a `long long` takes the next
two of them, the low word first. -/
abbrev VaList := Stream' (BitVec 32)

/-- The strings that pointers point to.  None of them overlaps the buffer. -/
abbrev Strings := BitVec 32 → CString

/-- `va_arg(ap, long long)`, and the rest of the list. -/
def vaLongLong (ap : VaList) : BitVec 64 × VaList := (ap.tail.head ++ ap.head, ap.tail.tail)

/-- `va_arg` by the number of `l`s: the argument is an `int`, a `long` or a `long long`, and the first
two are extended. -/
def vaGet (extend : BitVec 32 → BitVec 64) (longflag : ℕ) (ap : VaList) : BitVec 64 × VaList :=
  if longflag = 0 then (extend ap.head, ap.tail)
  else if longflag = 1 then (extend ap.head, ap.tail)
  else vaLongLong ap

/-- `getint(ap)`. -/
def getint (longflag : ℕ) (ap : VaList) : BitVec 64 × VaList :=
  vaGet (·.signExtend 64) longflag ap

/-- `getuint(ap)`. -/
def getuint (longflag : ℕ) (ap : VaList) : BitVec 64 × VaList :=
  vaGet (·.setWidth 64) longflag ap

/-- An `int` and a `long` take one word. -/
theorem vaGet_of_lt (extend : BitVec 32 → BitVec 64) {k : ℕ} (hk : k < 2) (ap : VaList) :
    vaGet extend k ap = (extend ap.head, ap.tail) := by
  rw [vaGet]
  by_cases hzero : k = 0
  · rw [if_pos hzero]
  · rw [if_neg hzero, if_pos (by omega)]

/-- A `long long` takes two words. -/
theorem vaGet_of_ge (extend : BitVec 32 → BitVec 64) {k : ℕ} (hk : 2 ≤ k) (ap : VaList) :
    vaGet extend k ap = (ap.tail.head ++ ap.head, ap.tail.tail) := by
  rw [vaGet, if_neg (by omega), if_neg (by omega), vaLongLong]

/-- `"(null)"`. -/
def nullText : CString :=
  ⟨[chr '(', chr 'n', chr 'u', chr 'l', chr 'l', chr ')'], by decide⟩

/-- The string that `%s` writes. -/
def stringArg (strings : Strings) (s : BitVec 32) : CString :=
  if s = 0 then nullText else strings s

/-! ### The cases of the switch -/

/-- The cases of `switch (*fmt)`. -/
inductive FmtCase
  | l | d | o | x | p | u | c | s | percent | zero
  | digit (value : BitVec 32)
  | other
deriving DecidableEq

/-- The case of a character. -/
def fmtCase (ch : BitVec 8) : FmtCase :=
  if ch = chr 'l' then .l
  else if ch = chr 'd' then .d
  else if ch = chr 'o' then .o
  else if ch = chr 'x' then .x
  else if ch = chr 'p' then .p
  else if ch = chr 'u' then .u
  else if ch = chr 'c' then .c
  else if ch = chr 's' then .s
  else if ch = chr '%' then .percent
  else if ch = chr '0' then .zero
  else if chr '1' ≤ ch ∧ ch ≤ chr '9' then .digit (ch.setWidth 32 - 48)
  else .other

/-- The variables of `vsnprintf` that live on from one conversion to the next.  `FLAG_NEG` is set
and taken back within `%d`. -/
structure FmtState where
  flag : BitVec 32
  width : BitVec 32
  longflag : ℕ
  ap : VaList
  not_neg : flag &&& FLAG_NEG = 0

namespace FmtState

theorem zero_not_neg : (0 : BitVec 32) &&& FLAG_NEG = 0 := rfl

/-- The variables at the beginning. -/
def start (ap : VaList) : FmtState := ⟨0, 0, 0, ap, zero_not_neg⟩

/-- `longflag++`. -/
def long (st : FmtState) : FmtState := { st with longflag := st.longflag + 1 }

/-- `flag |= FLAG_ZEROPAD`. -/
def zeropad (st : FmtState) : FmtState :=
  { st with
    flag := st.flag ||| FLAG_ZEROPAD
    not_neg := by
      rw [BitVec.and_comm, BitVec.and_or_distrib_left, BitVec.and_comm, st.not_neg]
      decide }

/-- `width *= 10; width += digit;`. -/
def addDigit (st : FmtState) (value : BitVec 32) : FmtState :=
  { st with width := st.width * 10 + value }

@[simp] theorem long_longflag (st : FmtState) : st.long.longflag = st.longflag + 1 := rfl

@[simp] theorem addDigit_width (st : FmtState) (value : BitVec 32) :
    (st.addDigit value).width = st.width * 10 + value := rfl

/-- `flag = 0; width = 0;`. -/
def reset (st : FmtState) : FmtState :=
  { st with flag := 0, width := 0, not_neg := zero_not_neg }

/-- The variables after the conversion has read its argument. -/
def afterArg (st : FmtState) : FmtCase → FmtState
  | .d => { st with ap := (getint st.longflag st.ap).2, longflag := 0 }
  | .o | .x | .u => { st with ap := (getuint st.longflag st.ap).2, longflag := 0 }
  | .p => { st with ap := (getuint 1 st.ap).2, longflag := 0 }
  | .c | .s => { st with ap := st.ap.tail }
  | _ => st

end FmtState

/-- Where the scan stands: in the text, or behind a `%` at `fmt_loop`; there also whether it is in
the loop over the digits of a width. -/
inductive Place
  | text
  | directive (inDigits : Bool)
deriving DecidableEq

/-! ### What a run may end with -/

/-- The ways in which `vsnprintf` leaves its memory. -/
inductive FmtFault
  /-- A byte behind the terminating NUL of the format is read. -/
  | overread
  /-- A byte behind `buf` is written. -/
  | digitBuffer
deriving DecidableEq

/-- The ways in which the formatting stops before its end. -/
inductive Stop (ρ : Type)
  | fault (f : FmtFault)
  /-- `set_ch` returns from the function. -/
  | returned (r : ρ)

section Formatting

variable {σ ρ : Type} (setCh : σ → BitVec 8 → Except (Stop ρ) σ)

/-! ### Integers -/

/-- The macro `digits`. -/
def digits (x : BitVec 64) : BitVec 8 :=
  if x.setWidth 8 ≤ (9 : BitVec 8) then chr '0' + x.setWidth 8 else chr 'a' + x.setWidth 8 - 10

/-- `while (uval > 0)`: the digits that are put into `buf`, where there is room for so many more. -/
def digitLoop (base : BitVec 64) : ℕ → BitVec 64 → List (BitVec 8) →
    Except FmtFault (List (BitVec 8))
  | 0, uval, buf => if uval = 0 then .ok buf else .error .digitBuffer
  | room + 1, uval, buf =>
      if uval = 0 then .ok buf
      else digitLoop base room (uval / base) (buf ++ [digits (uval % base)])

/-- `buf[buf_pos++] = ch`. -/
def putBuf (buf : List (BitVec 8)) (ch : BitVec 8) : Except FmtFault (List (BitVec 8)) :=
  if buf.length < 25 then .ok (buf ++ [ch]) else .error .digitBuffer

/-- `buf` when the digits are in. -/
def digitBuf (base uval : BitVec 64) : Except FmtFault (List (BitVec 8)) := do
  let buf ← digitLoop base 25 uval []
  if buf.length = 0 then putBuf buf (chr '0') else .ok buf

/-- `if (flag & FLAG_NEG) set_ch('-');`. -/
def putSign (flag : BitVec 32) (s : σ) : Except (Stop ρ) σ :=
  if flag &&& FLAG_NEG ≠ 0 then setCh s (chr '-') else .ok s

/-- `if (i >= buf_pos) pad else buf[i]`. -/
def bufOr (pad : Char) (buf : List (BitVec 8)) (i : ℕ) : BitVec 8 :=
  if buf.length ≤ i then chr pad else buf.getD i 0

/-- A fault of the digit buffer stops the formatting. -/
def liftFault {α : Type} : Except FmtFault α → Except (Stop ρ) α
  | .ok a => .ok a
  | .error f => .error (.fault f)

/-- `print_uint`. -/
def printUint (flag width : BitVec 32) (base uval : BitVec 64) (s : σ) : Except (Stop ρ) σ := do
  let buf ← liftFault (digitBuf base uval)
  if width = 0 then
    putSign setCh flag s >>= countdown setCh (buf.getD · 0) buf.length
  -- `flag | FLAG_ZEROPAD` is never zero: the branch that pads with blanks is dead
  else if BitVec.slt 0 width ∧ flag ||| FLAG_ZEROPAD ≠ 0 then
    putSign setCh flag s >>= countdown setCh (bufOr '0' buf) width.toNat
  else if BitVec.slt 0 width then do
    let buf ← liftFault (if flag &&& FLAG_NEG ≠ 0 then putBuf buf (chr '-') else .ok buf)
    countdown setCh (bufOr ' ' buf) width.toNat s
  else
    .ok s

/-- `case 'd'`, when the argument is read. -/
def printInt (flag width : BitVec 32) (val : BitVec 64) (s : σ) : Except (Stop ρ) σ :=
  if val.slt 0 then printUint setCh (flag ||| FLAG_NEG) width 10 (-val) s
  else printUint setCh flag width 10 val s

/-! ### Strings -/

theorem toInt_succ {len width : BitVec 32} (h : len.toInt < width.toInt) :
    (len + 1).toInt = len.toInt + 1 := by
  have hw := width.toInt_lt
  have hl := len.le_toInt
  rw [BitVec.toInt_add]
  exact Int.bmod_eq_of_le (by simp at *; omega) (by simp at *; omega)

/-- `for ( ; len < width; ++len) set_ch(' ');`. -/
def putBlanks (len width : BitVec 32) (s : σ) : Except (Stop ρ) σ :=
  if len.slt width then setCh s (chr ' ') >>= putBlanks (len + 1) width else .ok s
termination_by (width.toInt - len.toInt).toNat
decreasing_by
  have h : len.toInt < width.toInt := by simpa [BitVec.slt] using ‹len.slt width = true›
  have hsucc := toInt_succ h
  omega

/-- `case 's'`, when the argument is read. -/
def printString (width : BitVec 32) (str : CString) (s : σ) : Except (Stop ρ) σ :=
  str.chars.foldlM setCh s >>= putBlanks setCh (BitVec.ofNat 32 str.chars.length) width

/-! ### The loop over the format -/

/-- A conversion of the switch that ends behind it, up to `flag = 0; width = 0;`. -/
def convert (strings : Strings) (st : FmtState) (s : σ) : FmtCase → Except (Stop ρ) σ
  | .d => printInt setCh st.flag st.width (getint st.longflag st.ap).1 s
  | .o => printUint setCh st.flag st.width 8 (getuint st.longflag st.ap).1 s
  | .x => printUint setCh st.flag st.width 16 (getuint st.longflag st.ap).1 s
  | .p => printUint setCh (st.flag ||| FLAG_ZEROPAD) 8 16 (getuint 1 st.ap).1 s
  | .u => printUint setCh st.flag st.width 10 (getuint st.longflag st.ap).1 s
  | .c => setCh s (st.ap.head.setWidth 8)
  | .s => printString setCh st.width (stringArg strings st.ap.head) s
  | .percent => setCh s (chr '%')
  | _ => .ok s

/-- What the scan does with a character of the format: where it stands then, the variables, and what
`set_ch` has done. -/
def scanStep (strings : Strings) : Place → BitVec 8 → FmtState → σ →
    Except (Stop ρ) (Place × FmtState × σ)
  | .text, ch, st, s =>
      if ch = chr '%' then .ok (.directive false, st, s)
      else setCh s ch >>= fun s => .ok (.text, st, s)
  | .directive inDigits, ch, st, s =>
      match fmtCase ch with
      | .l => .ok (.directive false, st.long, s)
      -- in the loop over the digits, a zero is a digit
      | .zero =>
          if inDigits then .ok (.directive true, st.addDigit 0, s)
          else .ok (.directive false, st.zeropad, s)
      | .digit value => .ok (.directive true, st.addDigit value, s)
      | .other =>
          setCh s (chr '%') >>= fun s => setCh s ch >>= fun s => .ok (.text, st, s)
      | k => convert setCh strings st s k >>= fun s => .ok (.text, (st.afterArg k).reset, s)

/-- The loop over the format, of which the characters before the terminating NUL are left. -/
def scanFormat (strings : Strings) :
    Place → List (BitVec 8) → FmtState → σ → Except (Stop ρ) (FmtState × σ)
  | .text, [], st, s => .ok (st, s)
  -- the NUL behind a `%` is the default case: it is written like any character, and passed over
  | .directive _, [], _, s =>
      setCh s (chr '%') >>= fun s => setCh s 0 >>= fun _ => .error (.fault .overread)
  | place, ch :: fmt, st, s =>
      scanStep setCh strings place ch st s >>= fun r => scanFormat strings r.1 fmt r.2.1 r.2.2

end Formatting

/-! ### `vsnprintf` -/

/-- The bytes from `str` on, and `pos`. -/
structure StrBuf where
  str : ℕ → BitVec 8
  pos : BitVec 32

/-- What `vsnprintf` returns, and the bytes from `str` on. -/
structure PrintResult where
  ret : BitVec 32
  str : ℕ → BitVec 8

/-- `str[pos++] = ch`. -/
def StrBuf.put (b : StrBuf) (ch : BitVec 8) : StrBuf :=
  ⟨Function.update b.str b.pos.toNat ch, b.pos + 1⟩

/-- `set_ch(ch)`. -/
def setCh (size : BitVec 32) (b : StrBuf) (ch : BitVec 8) : Except (Stop PrintResult) StrBuf :=
  if (b.put ch).pos = size then
    .error (.returned ⟨size, Function.update (b.put ch).str (size - 1).toNat 0⟩)
  else
    .ok (b.put ch)

/-- What the caller of `vsnprintf` gets. -/
def PrintResult.ofRun : Except (Stop PrintResult) StrBuf → Except FmtFault PrintResult
  | .ok b => .ok ⟨b.pos - 1, b.str⟩
  | .error (.returned r) => .ok r
  | .error (.fault f) => .error f

/-- `vsnprintf(str, size, fmt, ap)`. -/
def vsnprintf (strings : Strings) (str : ℕ → BitVec 8) (size : BitVec 32) (fmt : CString)
    (ap : VaList) : Except FmtFault PrintResult :=
  PrintResult.ofRun (scanFormat (setCh size) strings .text fmt.chars (.start ap) ⟨str, 0⟩ >>=
    fun r => setCh size r.2 0)

/-- The output that a buffer without end would receive, without the NUL at its end, and the
arguments that are left. -/
def unlimited (strings : Strings) (fmt : CString) (ap : VaList) :
    Except FmtFault (List (BitVec 8) × VaList) :=
  match scanFormat (ρ := Empty) collect strings .text fmt.chars (.start ap) [] with
  | .ok r => .ok (r.2, r.1.ap)
  | .error (.fault f) => .error f

/-! ### What an integer conversion writes -/

/-- The digit of a value below sixteen. -/
def digitChar (n : ℕ) : BitVec 8 :=
  if n ≤ 9 then BitVec.ofNat 8 (48 + n) else BitVec.ofNat 8 (87 + n)

/-- The digits of a value, the lowest first. -/
def lowDigits (base n : ℕ) : List (BitVec 8) :=
  if n = 0 then [chr '0'] else (Nat.digits base n).map digitChar

/-- What an integer conversion writes. -/
def uintText (neg : Bool) (width : BitVec 32) (base n : ℕ) : List (BitVec 8) :=
  if width = 0 then (if neg then [chr '-'] else []) ++ (lowDigits base n).reverse
  else if BitVec.slt 0 width then
    (if neg then [chr '-'] else []) ++
      (List.range width.toNat).reverse.map (bufOr '0' (lowDigits base n))
  else []

theorem digits_eq {x : BitVec 64} (hx : x.toNat < 16) : digits x = digitChar x.toNat := by
  have hall : ∀ i : Fin 16, digits (BitVec.ofNat 64 i) = digitChar i := by decide
  simpa using hall ⟨x.toNat, hx⟩

theorem digitLoop_eq {base : BitVec 64} (hlow : 2 ≤ base.toNat) (hhigh : base.toNat ≤ 16) {room : ℕ}
    {uval : BitVec 64} (buf : List (BitVec 8)) (hfits : uval.toNat < base.toNat ^ room) :
    digitLoop base room uval buf =
      .ok (buf ++ (Nat.digits base.toNat uval.toNat).map digitChar) := by
  induction room generalizing uval buf with
  | zero =>
      have huval : uval = 0 := BitVec.eq_of_toNat_eq (by simpa using hfits)
      simp [digitLoop, huval]
  | succ room ih =>
      by_cases huval : uval = 0
      · simp [digitLoop, huval]
      · have hpos : 0 < uval.toNat :=
          Nat.pos_of_ne_zero fun h => huval (BitVec.eq_of_toNat_eq (by simpa using h))
        have hmod : (uval % base).toNat < 16 := by
          rw [BitVec.toNat_umod]
          exact lt_of_lt_of_le (Nat.mod_lt _ (by omega)) hhigh
        have hdiv : (uval / base).toNat < base.toNat ^ room := by
          rw [BitVec.toNat_udiv]
          exact Nat.div_lt_of_lt_mul (by rwa [Nat.pow_succ', ] at hfits)
        rw [digitLoop, if_neg huval, ih _ hdiv, digits_eq hmod, Nat.digits_def' hlow hpos]
        simp

/-- **The digits fit in `buf`.** -/
theorem digitBuf_eq {base : BitVec 64} (hlow : 8 ≤ base.toNat) (hhigh : base.toNat ≤ 16)
    (uval : BitVec 64) : digitBuf base uval = .ok (lowDigits base.toNat uval.toNat) := by
  have hfits : uval.toNat < base.toNat ^ 25 :=
    calc uval.toNat < 8 ^ 25 := lt_of_lt_of_le uval.isLt (by norm_num)
      _ ≤ base.toNat ^ 25 := Nat.pow_le_pow_left hlow 25
  have hloop := digitLoop_eq (by omega) hhigh [] hfits
  rw [digitBuf, hloop]
  by_cases huval : uval.toNat = 0
  · simp [huval, lowDigits, putBuf, bind, Except.bind]
  · have hne : Nat.digits base.toNat uval.toNat ≠ [] := Nat.digits_ne_nil_iff_ne_zero.mpr huval
    simp [huval, lowDigits, hne, bind, Except.bind]

section Text

variable {σ ρ : Type} (setCh : σ → BitVec 8 → Except (Stop ρ) σ)

theorem putSign_eq (flag : BitVec 32) (s : σ) :
    putSign setCh flag s =
      (if flag &&& FLAG_NEG ≠ 0 then [chr '-'] else []).foldlM setCh s := by
  unfold putSign
  split
  · rw [List.foldlM_cons]
    exact (bind_pure _).symm
  · rfl

theorem or_zeropad_ne_zero (flag : BitVec 32) : flag ||| FLAG_ZEROPAD ≠ 0 := by
  intro h
  have hand : (flag ||| FLAG_ZEROPAD) &&& FLAG_ZEROPAD = 0 := by
    rw [h]
    exact BitVec.zero_and
  rw [BitVec.and_comm, BitVec.and_or_distrib_left, BitVec.and_self] at hand
  have hbit := congrArg (BitVec.getLsbD · 1) hand
  simp [FLAG_ZEROPAD] at hbit

theorem map_getD_reverse (ds : List (BitVec 8)) :
    (List.range ds.length).reverse.map (ds.getD · 0) = ds.reverse := by
  rw [List.map_reverse]
  congr 1
  refine List.ext_getElem (by simp) fun i _ h => ?_
  simp [h]

/-- **An integer conversion writes `uintText`**, and its digits fit in `buf`. -/
theorem printUint_eq {base : BitVec 64} (hlow : 8 ≤ base.toNat) (hhigh : base.toNat ≤ 16)
    (flag width : BitVec 32) (uval : BitVec 64) (s : σ) :
    printUint setCh flag width base uval s =
      (uintText (flag &&& FLAG_NEG ≠ 0) width base.toNat uval.toNat).foldlM setCh s := by
  rw [printUint, digitBuf_eq hlow hhigh]
  have hbuf (f : List (BitVec 8) → Except (Stop ρ) σ) (buf : List (BitVec 8)) :
      (liftFault (.ok buf) >>= f) = f buf := rfl
  rw [hbuf, uintText]
  by_cases hzero : width = 0
  · rw [if_pos hzero, if_pos hzero, putSign_eq, List.foldlM_append]
    simp only [decide_eq_true_eq]
    refine congrArg (_ >>= ·) (funext fun s => ?_)
    rw [countdown_eq, map_getD_reverse]
  · rw [if_neg hzero, if_neg hzero]
    by_cases hpos : BitVec.slt 0 width
    · rw [if_pos ⟨hpos, or_zeropad_ne_zero flag⟩, if_pos hpos, putSign_eq, List.foldlM_append]
      simp only [decide_eq_true_eq]
      exact congrArg (_ >>= ·) (funext fun s => countdown_eq _ _ _ s)
    · rw [if_neg (fun h => hpos h.1), if_neg hpos, if_neg hpos]
      rfl

/-- What `%d` writes for a value. -/
def intText (width : BitVec 32) (val : BitVec 64) : List (BitVec 8) :=
  uintText (val.slt 0) width 10 val.toInt.natAbs

theorem printInt_eq {flag : BitVec 32} (hflag : flag &&& FLAG_NEG = 0) (width : BitVec 32)
    (val : BitVec 64) (s : σ) :
    printInt setCh flag width val s = (intText width val).foldlM setCh s := by
  rw [printInt, intText]
  by_cases hneg : val.slt 0
  · have hflag' : (flag ||| FLAG_NEG) &&& FLAG_NEG ≠ 0 := by
      rw [BitVec.and_comm, BitVec.and_or_distrib_left, BitVec.and_self, BitVec.and_comm, hflag]
      decide
    have hlt : val.toInt < 0 := by simpa [BitVec.slt] using hneg
    have hval : (-val).toNat = val.toInt.natAbs := by
      rw [BitVec.toNat_neg]
      rw [BitVec.toInt_eq_toNat_cond] at hlt ⊢
      have hval := val.isLt
      split at hlt
      · omega
      · rw [if_neg ‹_›]
        omega
    rw [if_pos hneg, printUint_eq setCh (by decide) (by decide), hval, hneg, decide_eq_true hflag']
    rfl
  · have hge : 0 ≤ val.toInt := by simpa [BitVec.slt] using hneg
    have hval : val.toNat = val.toInt.natAbs := by
      rw [BitVec.toInt_eq_toNat_cond] at hge ⊢
      have hval := val.isLt
      split at hge
      · rw [if_pos ‹_›]
        omega
      · omega
    rw [if_neg hneg, printUint_eq setCh (by decide) (by decide), hval, hflag,
      Bool.eq_false_iff.mpr hneg]
    rfl

/-- How many blanks follow a string. -/
def blankCount (len width : BitVec 32) : ℕ := (width.toInt - len.toInt).toNat

theorem putBlanks_eq (len width : BitVec 32) (s : σ) :
    putBlanks setCh len width s =
      (List.replicate (blankCount len width) (chr ' ')).foldlM setCh s := by
  fun_induction putBlanks setCh len width s with
  | case1 len s hlt ih =>
      have hlen : len.toInt < width.toInt := by simpa [BitVec.slt] using hlt
      have hcount : blankCount len width = blankCount (len + 1) width + 1 := by
        rw [blankCount, blankCount, toInt_succ hlen]
        omega
      rw [hcount, List.replicate_succ, List.foldlM_cons]
      exact congrArg (_ >>= ·) (funext ih)
  | case2 len s hge =>
      have hlen : width.toInt ≤ len.toInt := by simpa [BitVec.slt] using hge
      have hcount : blankCount len width = 0 := by
        rw [blankCount]
        omega
      rw [hcount]
      rfl

/-- What `%s` writes for a string. -/
def stringText (width : BitVec 32) (str : CString) : List (BitVec 8) :=
  str.chars ++
    List.replicate (blankCount (BitVec.ofNat 32 str.chars.length) width) (chr ' ')

theorem printString_eq (width : BitVec 32) (str : CString) (s : σ) :
    printString setCh width str s = (stringText width str).foldlM setCh s := by
  rw [printString, stringText, List.foldlM_append]
  exact congrArg (_ >>= ·) (funext fun s => putBlanks_eq setCh _ _ s)

/-- What a conversion writes. -/
def convertText (strings : Strings) (st : FmtState) : FmtCase → List (BitVec 8)
  | .d => intText st.width (getint st.longflag st.ap).1
  | .o => uintText false st.width 8 (getuint st.longflag st.ap).1.toNat
  | .x => uintText false st.width 16 (getuint st.longflag st.ap).1.toNat
  | .p => uintText false 8 16 (getuint 1 st.ap).1.toNat
  | .u => uintText false st.width 10 (getuint st.longflag st.ap).1.toNat
  | .c => [st.ap.head.setWidth 8]
  | .s => stringText st.width (stringArg strings st.ap.head)
  | .percent => [chr '%']
  | _ => []

theorem convert_eq (strings : Strings) (st : FmtState) (s : σ) (k : FmtCase) :
    convert setCh strings st s k = (convertText strings st k).foldlM setCh s := by
  have hpos (flag width : BitVec 32) {base : BitVec 64} (hlow : 8 ≤ base.toNat)
      (hhigh : base.toNat ≤ 16) (hflag : flag &&& FLAG_NEG = 0) (uval : BitVec 64) :
      printUint setCh flag width base uval s =
        (uintText false width base.toNat uval.toNat).foldlM setCh s := by
    rw [printUint_eq setCh hlow hhigh, hflag]
    rfl
  have hone (ch : BitVec 8) : setCh s ch = [ch].foldlM setCh s := by
    rw [List.foldlM_cons]
    exact (bind_pure _).symm
  cases k with
  | d => exact printInt_eq setCh st.not_neg _ _ s
  | o => exact hpos _ _ (by decide) (by decide) st.not_neg _
  | x => exact hpos _ _ (by decide) (by decide) st.not_neg _
  | p => exact hpos _ _ (by decide) (by decide) st.zeropad.not_neg _
  | u => exact hpos _ _ (by decide) (by decide) st.not_neg _
  | c => exact hone _
  | s => exact printString_eq setCh _ _ s
  | percent => exact hone _
  | l => rfl
  | zero => rfl
  | digit value => rfl
  | other => rfl

end Text

/-! ### What a format writes -/

/-- What the scan does with a character: the text that it writes, where it stands then, and the
variables. -/
structure FmtStep where
  text : List (BitVec 8)
  place : Place
  state : FmtState

/-- One step of the scan. -/
def fmtStep (strings : Strings) : Place → BitVec 8 → FmtState → FmtStep
  | .text, ch, st => if ch = chr '%' then ⟨[], .directive false, st⟩ else ⟨[ch], .text, st⟩
  | .directive inDigits, ch, st =>
      match fmtCase ch with
      | .l => ⟨[], .directive false, st.long⟩
      | .zero =>
          if inDigits then ⟨[], .directive true, st.addDigit 0⟩
          else ⟨[], .directive false, st.zeropad⟩
      | .digit value => ⟨[], .directive true, st.addDigit value⟩
      | .other => ⟨[chr '%', ch], .text, st⟩
      | k => ⟨convertText strings st k, .text, (st.afterArg k).reset⟩

/-- What the scan of a format writes, and the variables at its end; there are none when the scan
leaves the format. -/
def formatText (strings : Strings) : Place → List (BitVec 8) → FmtState →
    List (BitVec 8) × Option FmtState
  | .text, [], st => ([], some st)
  | .directive _, [], _ => ([chr '%', 0], none)
  | place, ch :: fmt, st =>
      let step := fmtStep strings place ch st
      let rest := formatText strings step.place fmt step.state
      (step.text ++ rest.1, rest.2)

/-- What is written for two formats, the first of which is scanned to its end. -/
theorem formatText_append {strings : Strings} {place : Place} {fmt : List (BitVec 8)}
    {st st' : FmtState} {out : List (BitVec 8)}
    (h : formatText strings place fmt st = (out, some st')) (fmt' : List (BitVec 8)) :
    formatText strings place (fmt ++ fmt') st =
      (out ++ (formatText strings .text fmt' st').1, (formatText strings .text fmt' st').2) := by
  induction fmt generalizing place st out with
  | nil =>
      cases place with
      | text =>
          cases h
          rfl
      | directive inDigits => cases h
  | cons ch fmt ih =>
      rw [formatText] at h
      obtain ⟨hout, hst⟩ := Prod.mk.inj h
      rw [List.cons_append, formatText, ih (Prod.ext rfl hst), ← hout, List.append_assoc]

section Scan

variable {σ ρ : Type} (setCh : σ → BitVec 8 → Except (Stop ρ) σ)

theorem foldlM_pair {α : Type} (a b : BitVec 8) (s : σ) (f : σ → Except (Stop ρ) α) :
    ([a, b].foldlM setCh s >>= f) = setCh s a >>= fun s => setCh s b >>= f := by
  simp only [List.foldlM_cons, List.foldlM_nil, bind_assoc, pure_bind]

/-- **One step of the loop** writes the text of the step. -/
theorem scanStep_eq (strings : Strings) (place : Place) (ch : BitVec 8) (st : FmtState) (s : σ) :
    scanStep setCh strings place ch st s =
      (fmtStep strings place ch st).text.foldlM setCh s >>= fun s =>
        .ok ((fmtStep strings place ch st).place, (fmtStep strings place ch st).state, s) := by
  cases place with
  | text =>
      rw [scanStep, fmtStep]
      by_cases hch : ch = chr '%'
      · rw [if_pos hch, if_pos hch]
        rfl
      · rw [if_neg hch, if_neg hch, List.foldlM_cons]
        exact congrArg (· >>= _) (bind_pure _).symm
  | directive inDigits =>
      rw [scanStep, fmtStep]
      cases fmtCase ch with
      | zero => cases inDigits <;> rfl
      | l | digit value => rfl
      | other => exact (foldlM_pair setCh _ _ _ _).symm
      | d | o | x | p | u | c | s | percent => exact congrArg (· >>= _) (convert_eq ..)

/-- The end of the run when the text is written. -/
def endOfRun (final : Option FmtState) (s : σ) : Except (Stop ρ) (FmtState × σ) :=
  match final with
  | some st => .ok (st, s)
  | none => .error (.fault .overread)

/-- **Whatever `set_ch` does, the loop hands it the characters of `formatText` one by one.** -/
theorem scanFormat_eq (strings : Strings) (place : Place) (fmt : List (BitVec 8)) (st : FmtState)
    (s : σ) :
    scanFormat setCh strings place fmt st s =
      (formatText strings place fmt st).1.foldlM setCh s >>=
        endOfRun (formatText strings place fmt st).2 := by
  induction fmt generalizing place st s with
  | nil =>
      cases place with
      | text => rfl
      | directive inDigits =>
          rw [scanFormat, formatText]
          exact (foldlM_pair setCh _ _ _ _).symm
  | cons ch fmt ih =>
      rw [scanFormat, scanStep_eq, formatText, List.foldlM_append, bind_assoc, bind_assoc]
      exact congrArg (_ >>= ·) (funext fun s => ih _ _ s)

end Scan

/-- The output without the limit is the text of the format. -/
theorem unlimited_eq (strings : Strings) (fmt : CString) (ap : VaList) :
    unlimited strings fmt ap =
      match (formatText strings .text fmt.chars (.start ap)).2 with
      | some st => .ok ((formatText strings .text fmt.chars (.start ap)).1, st.ap)
      | none => .error .overread := by
  rw [unlimited, scanFormat_eq, foldlM_collect]
  cases (formatText strings .text fmt.chars (.start ap)).2 with
  | some st => rfl
  | none => rfl

end Aim
