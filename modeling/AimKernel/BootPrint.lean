/-
**Scanning a format to its end.**

Both `vsnprintf` and the boot loader's `bprintf` step over the character behind a `%` before they
look for the terminating NUL again.  When this character is the NUL itself they go on behind the
format: `bprintf` when nothing stands behind the last `%`, and `vsnprintf` also when it is only
followed by digits and `l`s, unless the two characters that it writes for such an end fill the
buffer.

Main definitions:

* `Aim.writeUint`, `Aim.writeInt`, `Aim.bprintf` — the output functions of the boot loader;
* `Aim.BootItem`, `Aim.BootComplete` — the parts of its formats;
* `Aim.FilledBefore` — the buffer is full before `vsnprintf` leaves the format.

Main results:

* `Aim.bprintf_eq` — `bprintf` ends with its output, or it leaves a format that is not complete;
* `Aim.vsnprintf_returns_iff` — when `vsnprintf` returns;
* `Aim.scans_within_iff` — **when the two functions read nothing behind the format.**
-/

import AimKernel.FormatBuffer

set_option relaxedAutoImplicit false
set_option autoImplicit false

namespace Aim

/-! ### `bprintf` -/

/-- The characters given to `bputc`, and their number as the functions return it. -/
structure BootOutput where
  text : List (BitVec 8)
  cnt : BitVec 32

/-- Output after output. -/
def BootOutput.add (out out' : BootOutput) : BootOutput :=
  ⟨out.text ++ out'.text, out.cnt + out'.cnt⟩

/-- `write_char(c)`. -/
def writeChar (c : BitVec 8) : BootOutput := ⟨[c], 1⟩

/-- `write_string(s)`. -/
def writeString (s : CString) : BootOutput := ⟨s.chars, BitVec.ofNat 32 s.chars.length⟩

/-- `do { buf[p++] = u % r; u /= r; } while (u > 0);`, where `buf` has room for so many more. -/
def remainders (r : BitVec 32) : ℕ → BitVec 32 → List (BitVec 8) → Except FmtFault (List (BitVec 8))
  | 0, _, _ => .error .digitBuffer
  | room + 1, u, buf =>
      if 0 < u / r then remainders r room (u / r) (buf ++ [(u % r).setWidth 8])
      else .ok (buf ++ [(u % r).setWidth 8])

/-- `dict`. -/
def dict : List (BitVec 8) :=
  [chr '0', chr '1', chr '2', chr '3', chr '4', chr '5', chr '6', chr '7', chr '8', chr '9',
    chr 'a', chr 'b', chr 'c', chr 'd', chr 'e', chr 'f']

/-- `write_uint(u, r)`: a hexadecimal number is written with eight digits, those that have not been
computed being zero. -/
def writeUint (u r : BitVec 32) : Except FmtFault BootOutput := do
  let buf ← remainders r 20 u []
  let p := if r = 16 then 8 else buf.length
  return ⟨(List.range p).reverse.map fun i => dict.getD (buf.getD i 0).toNat 0,
    BitVec.ofNat 32 buf.length⟩

/-- `write_int(d, r)`: the sign is not counted. -/
def writeInt (d r : BitVec 32) : Except FmtFault BootOutput :=
  if d.slt 0 then do
    let w ← writeUint (-d) r
    return ⟨chr '-' :: w.text, w.cnt⟩
  else
    writeUint d r

/-- `switch (*++fmt)`: the output, and the arguments that are left. -/
def bootConvert (strings : Strings) (ch : BitVec 8) (ap : VaList) :
    Except FmtFault (BootOutput × VaList) :=
  if ch = chr 's' then .ok (writeString (strings ap.head), ap.tail)
  else if ch = chr 'd' then do
    let w ← writeInt ap.head 10
    return (w, ap.tail)
  else if ch = chr 'u' then do
    let w ← writeUint ap.head 10
    return (w, ap.tail)
  else if ch = chr 'x' ∨ ch = chr 'p' then do
    let w ← writeUint ap.head 16
    return (w, ap.tail)
  else if ch = chr 'c' then .ok (writeChar (ap.head.setWidth 8), ap.tail)
  else if ch = chr '%' then .ok (writeChar (chr '%'), ap)
  else .ok (⟨[], 0⟩, ap)

/-- `while (*fmt)`, for the characters before the terminating NUL that are left. -/
def bprintfLoop (strings : Strings) : List (BitVec 8) → VaList → BootOutput →
    Except FmtFault BootOutput
  | [], _, out => .ok out
  | [ch], _, out =>
      -- behind a `%` at the end, no case fits the NUL, and `fmt++` passes it over
      if ch = chr '%' then .error .overread else .ok (out.add (writeChar ch))
  | ch :: ch' :: fmt, ap, out =>
      if ch = chr '%' then
        bootConvert strings ch' ap >>= fun w => bprintfLoop strings fmt w.2 (out.add w.1)
      else
        bprintfLoop strings (ch' :: fmt) ap (out.add (writeChar ch))

/-- `bprintf(fmt, ...)`. -/
def bprintf (strings : Strings) (fmt : CString) (ap : VaList) : Except FmtFault BootOutput :=
  bprintfLoop strings fmt.chars ap ⟨[], 0⟩

/-! ### Its conversions fit in `buf` -/

theorem remainders_ok {r : BitVec 32} {room : ℕ} {u : BitVec 32}
    (buf : List (BitVec 8)) (hroom : 0 < room) (hu : u.toNat < r.toNat ^ room) :
    ∃ buf', remainders r room u buf = .ok buf' := by
  induction room generalizing u buf with
  | zero => omega
  | succ room ih =>
      rw [remainders]
      by_cases hdiv : 0 < u / r
      · have hquot : (u / r).toNat < r.toNat ^ room := by
          rw [BitVec.toNat_udiv]
          exact Nat.div_lt_of_lt_mul (by rwa [Nat.pow_succ'] at hu)
        have hpos : 0 < room := by
          rcases Nat.eq_zero_or_pos room with h | h
          · subst h
            have hzero : (u / r).toNat = 0 := by simpa using hquot
            rw [BitVec.lt_def, hzero] at hdiv
            exact absurd hdiv (by simp)
          · exact h
        rw [if_pos hdiv]
        exact ih _ hpos hquot
      · exact ⟨_, if_neg hdiv⟩

theorem writeUint_ok (u : BitVec 32) {r : BitVec 32} (hr : 10 ≤ r.toNat) :
    ∃ w, writeUint u r = .ok w := by
  have hu : u.toNat < r.toNat ^ 20 :=
    calc u.toNat < 10 ^ 20 := lt_of_lt_of_le u.isLt (by norm_num)
      _ ≤ r.toNat ^ 20 := Nat.pow_le_pow_left hr 20
  obtain ⟨buf, hbuf⟩ := remainders_ok [] (by omega) hu
  rw [writeUint, hbuf]
  exact ⟨_, rfl⟩

theorem writeInt_ok (d : BitVec 32) : ∃ w, writeInt d 10 = .ok w := by
  rw [writeInt]
  by_cases hneg : d.slt 0
  · obtain ⟨w, hw⟩ := writeUint_ok (-d) (r := 10) (by decide)
    rw [if_pos hneg, hw]
    exact ⟨_, rfl⟩
  · rw [if_neg hneg]
    exact writeUint_ok d (by decide)

theorem bootConvert_ok (strings : Strings) (ch : BitVec 8) (ap : VaList) :
    ∃ w, bootConvert strings ch ap = .ok w := by
  obtain ⟨wd, hwd⟩ := writeInt_ok ap.head
  obtain ⟨wu, hwu⟩ := writeUint_ok ap.head (r := 10) (by decide)
  obtain ⟨wx, hwx⟩ := writeUint_ok ap.head (r := 16) (by decide)
  rw [bootConvert, hwd, hwu, hwx]
  split_ifs <;> exact ⟨_, rfl⟩

/-! ### The end of its scan -/

/-- A part of a format of `bprintf`. -/
inductive BootItem
  | literal (ch : BitVec 8) (hch : ch ≠ chr '%')
  | conversion (ch : BitVec 8)

/-- The characters of a part. -/
def BootItem.chars : BootItem → List (BitVec 8)
  | .literal ch _ => [ch]
  | .conversion ch => [chr '%', ch]

/-- The characters are those of literals and conversions. -/
def BootParts (fmt : List (BitVec 8)) : Prop :=
  ∃ items : List BootItem, fmt = items.flatMap BootItem.chars

/-- No conversion of the format is without its character. -/
def BootComplete (fmt : CString) : Prop := BootParts fmt.chars

theorem bootParts_literal {ch : BitVec 8} (hch : ch ≠ chr '%') {fmt : List (BitVec 8)} :
    BootParts (ch :: fmt) ↔ BootParts fmt := by
  constructor
  · rintro ⟨items, hitems⟩
    cases items with
    | nil => cases hitems
    | cons item items =>
        cases item with
        | literal c hc => exact ⟨items, (List.cons.inj hitems).2⟩
        | conversion c => exact absurd (List.cons.inj hitems).1 hch
  · rintro ⟨items, rfl⟩
    exact ⟨.literal ch hch :: items, rfl⟩

theorem bootParts_conversion {ch : BitVec 8} {fmt : List (BitVec 8)} :
    BootParts (chr '%' :: ch :: fmt) ↔ BootParts fmt := by
  constructor
  · rintro ⟨items, hitems⟩
    cases items with
    | nil => cases hitems
    | cons item items =>
        cases item with
        | literal c hc => exact absurd (List.cons.inj hitems).1.symm hc
        | conversion c => exact ⟨items, (List.cons.inj (List.cons.inj hitems).2).2⟩
  · rintro ⟨items, rfl⟩
    exact ⟨.conversion ch :: items, rfl⟩

theorem not_bootParts_percent : ¬ BootParts [chr '%'] := by
  rintro ⟨items, hitems⟩
  cases items with
  | nil => cases hitems
  | cons item items =>
      cases item with
      | literal c hc => exact hc (List.cons.inj hitems).1.symm
      | conversion c => cases (List.cons.inj hitems).2

/-- The loop ends with its output, or it leaves a format with a `%` at its end. -/
theorem bprintfLoop_eq (strings : Strings) (fmt : List (BitVec 8)) (ap : VaList)
    (out : BootOutput) :
    (BootParts fmt ∧ ∃ out', bprintfLoop strings fmt ap out = .ok out') ∨
      (¬ BootParts fmt ∧ bprintfLoop strings fmt ap out = .error .overread) := by
  fun_induction bprintfLoop strings fmt ap out with
  | case1 ap out => exact .inl ⟨⟨[], rfl⟩, out, rfl⟩
  | case2 ap out => exact .inr ⟨not_bootParts_percent, rfl⟩
  | case3 ap out ch hch =>
      exact .inl ⟨(bootParts_literal hch).mpr ⟨[], rfl⟩, _, rfl⟩
  | case4 ch' fmt ap out ih =>
      obtain ⟨w, hw⟩ := bootConvert_ok strings ch' ap
      rw [bootParts_conversion, hw]
      exact ih w
  | case5 ch ch' fmt ap out hch ih =>
      rw [bootParts_literal hch]
      exact ih

/-- **`bprintf` ends with its output, or it leaves a format that is not complete.** -/
theorem bprintf_eq (strings : Strings) (fmt : CString) (ap : VaList) :
    (BootComplete fmt ∧ ∃ out, bprintf strings fmt ap = .ok out) ∨
      (¬ BootComplete fmt ∧ bprintf strings fmt ap = .error .overread) :=
  bprintfLoop_eq strings fmt.chars ap ⟨[], 0⟩

/-! ### The end of the scan of `vsnprintf` -/

/-- A modifier writes nothing. -/
theorem fmtStep_modifier (strings : Strings) {ch : BitVec 8} (h : IsModifier ch) (inDigits : Bool)
    (st : FmtState) :
    ∃ inDigits' st', fmtStep strings (.directive inDigits) ch st =
      ⟨[], .directive inDigits', st'⟩ := by
  obtain ⟨inDigits', hplace⟩ := nextPlace_modifier h inDigits
  rw [nextPlace] at hplace
  rw [fmtStep]
  cases hcase : fmtCase ch with
  | l => exact ⟨_, _, rfl⟩
  | zero =>
      cases inDigits with
      | false => exact ⟨_, _, rfl⟩
      | true => exact ⟨_, _, rfl⟩
  | digit value => exact ⟨_, _, rfl⟩
  | d | o | x | p | u | c | s | percent | other =>
      rw [hcase] at hplace
      cases hplace

theorem formatText_modifiers (strings : Strings) {mods : List (BitVec 8)}
    (h : ∀ m ∈ mods, IsModifier m) (inDigits : Bool) (st : FmtState) :
    formatText strings (.directive inDigits) mods st = ([chr '%', 0], none) := by
  induction mods generalizing inDigits st with
  | nil => rfl
  | cons m mods ih =>
      obtain ⟨inDigits', st', hstep⟩ :=
        fmtStep_modifier strings (h m List.mem_cons_self) inDigits st
      rw [formatText, hstep, ih (fun m hm => h m (List.mem_cons_of_mem _ hm))]
      rfl

/-- The format is a complete one, and a conversion of which the last character is missing. -/
structure EndsWithin (fmt pre : CString) : Prop where
  complete : Complete pre
  tail : ∃ mods : List (BitVec 8), (∀ m ∈ mods, IsModifier m) ∧
    fmt.chars = pre.chars ++ chr '%' :: mods

theorem complete_or_endsWithin (fmt : CString) : Complete fmt ∨ ∃ pre, EndsWithin fmt pre := by
  rcases (parsed fmt.chars).1 with hitems | ⟨items, mods, hmods, hfmt⟩
  · exact .inl hitems
  · refine .inr ⟨⟨items.flatMap FmtItem.chars, fun h => fmt.no_nul ?_⟩, ⟨items, rfl⟩,
      mods, hmods, hfmt⟩
    rw [hfmt]
    exact List.mem_append_left _ h

/-- The two characters that are written for the end stand behind the output of what is before. -/
theorem formatText_endsWithin (strings : Strings) {fmt pre : CString} (h : EndsWithin fmt pre)
    (ap : VaList) :
    ∃ out rest, unlimited strings pre ap = .ok (out, rest) ∧
      formatText strings .text fmt.chars (.start ap) = (out ++ [chr '%', 0], none) := by
  obtain ⟨st, htext, hunlimited⟩ := unlimited_of_complete strings h.complete ap
  obtain ⟨mods, hmods, hfmt⟩ := h.tail
  have hpercent : fmtStep strings .text (chr '%') st = ⟨[], .directive false, st⟩ := rfl
  refine ⟨_, _, hunlimited, ?_⟩
  rw [hfmt, formatText_append htext, formatText, hpercent, formatText_modifiers strings hmods]
  rfl

/-- What is written for the end of the format fills the buffer. -/
def FilledBefore (strings : Strings) (size : BitVec 32) (fmt : CString) (ap : VaList) : Prop :=
  ∃ pre out rest, EndsWithin fmt pre ∧ unlimited strings pre ap = .ok (out, rest) ∧
    capacity size ≤ out.length + 2

/-- When `vsnprintf` returns, having read nothing behind the format. -/
theorem vsnprintf_returns_iff (strings : Strings) (str : ℕ → BitVec 8) (size : BitVec 32)
    (fmt : CString) (ap : VaList) :
    (∃ r, vsnprintf strings str size fmt ap = .ok r) ↔
      Complete fmt ∨ FilledBefore strings size fmt ap := by
  constructor
  · rintro ⟨r, hrun⟩
    rcases complete_or_endsWithin fmt with hfmt | ⟨pre, hpre⟩
    · exact .inl hfmt
    · obtain ⟨out, rest, hout, htext⟩ := formatText_endsWithin strings hpre ap
      refine .inr ⟨pre, out, rest, hpre, hout, ?_⟩
      by_contra hlt
      rw [vsnprintf_of_none htext, if_pos (by simpa using hlt)] at hrun
      cases hrun
  · rintro (hfmt | ⟨pre, out, rest, hpre, hout, hfull⟩)
    · obtain ⟨st, htext, -⟩ := unlimited_of_complete strings hfmt ap
      exact ⟨_, vsnprintf_of_text htext str size⟩
    · obtain ⟨out', rest', hout', htext⟩ := formatText_endsWithin strings hpre ap
      obtain ⟨rfl, -⟩ := Prod.mk.inj (Except.ok.inj (hout.symm.trans hout'))
      exact ⟨_, (vsnprintf_of_none htext str size).trans (if_neg (by simpa using hfull))⟩

/-- **When the two functions return, having read nothing behind the format**: `vsnprintf` when the
format is complete or the buffer is filled before its end, and `bprintf` when no `%` stands at the
end of the format for itself. -/
theorem scans_within_iff (strings : Strings) (str : ℕ → BitVec 8) (size : BitVec 32)
    (fmt : CString) (ap : VaList) :
    ((∃ r, vsnprintf strings str size fmt ap = .ok r) ↔
        Complete fmt ∨ FilledBefore strings size fmt ap) ∧
      ((∃ out, bprintf strings fmt ap = .ok out) ↔ BootComplete fmt) := by
  refine ⟨vsnprintf_returns_iff strings str size fmt ap, ?_⟩
  rcases bprintf_eq strings fmt ap with ⟨hfmt, out, hrun⟩ | ⟨hfmt, hrun⟩
  · exact ⟨fun _ => hfmt, fun _ => ⟨out, hrun⟩⟩
  · rw [hrun]
    constructor
    · rintro ⟨out, hout⟩
      cases hout
    · exact fun h => absurd h hfmt

/-- Both functions read behind the format `"%"`. -/
theorem not_scans_within_percent :
    vsnprintf (fun _ => nullText) (fun _ => 0) 1024 ⟨[chr '%'], by decide⟩ (Stream'.const 0) =
        .error .overread ∧
      bprintf (fun _ => nullText) ⟨[chr '%'], by decide⟩ (Stream'.const 0) = .error .overread :=
  ⟨rfl, rfl⟩

end Aim
