/-
**The buffer of `vsnprintf`.**

A format is made of literal characters and of conversions, each a `%`, some digits and `l`s, and one
last character.  Whether a format ends within a conversion depends on its characters only.  For a
format that does not, `vsnprintf` leaves in its buffer as much of the output as there is room for,
and a NUL; but when the NUL takes the last byte it returns the size of the buffer, as it does for an
output that has been cut.

Main definitions:

* `Aim.FmtItem`, `Aim.Complete` — the parts of a format, and the formats made of them;
* `Aim.nextPlace` — where the scan stands after a character;
* `Aim.overlay` — memory with a list written to its beginning;
* `Aim.strBounded` — the buffer as a sink that stops its writer;
* `Aim.ResultTells`, `Aim.panicTruncated` — what a result should tell, and the test of `panic()`.

Main results:

* `Aim.complete_iff` — a format is complete exactly when its scan ends in the text;
* `Aim.vsnprintf_of_text`, `Aim.vsnprintf_of_none` — what `vsnprintf` returns and leaves;
* `Aim.vsnprintf_fills` — **the buffer holds the beginning of the output and a NUL, and nothing else
  is written**;
* `Aim.vsnprintf_result_iff` — **when the result tells whether the output was cut.**
-/

import AimKernel.Snprintf

set_option relaxedAutoImplicit false
set_option autoImplicit false

namespace Aim

open StoppingSink

/-! ### Complete formats -/

/-- The characters that may stand between a `%` and the end of the conversion. -/
def IsModifier (ch : BitVec 8) : Prop := ch = chr 'l' ∨ chr '0' ≤ ch ∧ ch ≤ chr '9'

instance : DecidablePred IsModifier := fun ch =>
  inferInstanceAs (Decidable (ch = chr 'l' ∨ chr '0' ≤ ch ∧ ch ≤ chr '9'))

/-- A part of a format. -/
inductive FmtItem
  | literal (ch : BitVec 8) (hch : ch ≠ chr '%')
  | conversion (mods : List (BitVec 8)) (ch : BitVec 8) (hmods : ∀ m ∈ mods, IsModifier m)
      (hch : ¬ IsModifier ch)

/-- The characters of a part. -/
def FmtItem.chars : FmtItem → List (BitVec 8)
  | .literal ch _ => [ch]
  | .conversion mods ch _ _ => chr '%' :: mods ++ [ch]

/-- The format ends with none of its conversions incomplete. -/
def Complete (fmt : CString) : Prop :=
  ∃ items : List FmtItem, fmt.chars = items.flatMap FmtItem.chars

/-- Where the scan stands after a character. -/
def nextPlace : Place → BitVec 8 → Place
  | .text, ch => if ch = chr '%' then .directive false else .text
  | .directive inDigits, ch =>
      match fmtCase ch with
      | .l => .directive false
      | .zero => .directive inDigits
      | .digit _ => .directive true
      | _ => .text

theorem fmtStep_place (strings : Strings) (place : Place) (ch : BitVec 8) (st : FmtState) :
    (fmtStep strings place ch st).place = nextPlace place ch := by
  cases place with
  | text =>
      rw [fmtStep, nextPlace]
      split <;> rfl
  | directive inDigits =>
      rw [fmtStep, nextPlace]
      cases fmtCase ch with
      | zero => cases inDigits <;> rfl
      | _ => rfl

theorem formatText_isSome (strings : Strings) (place : Place) (fmt : List (BitVec 8))
    (st : FmtState) :
    (formatText strings place fmt st).2.isSome ↔ fmt.foldl nextPlace place = .text := by
  induction fmt generalizing place st with
  | nil =>
      cases place with
      | text => simp [formatText]
      | directive inDigits => simp [formatText]
  | cons ch fmt ih =>
      rw [formatText, ih, fmtStep_place]
      rfl

/-- A modifier leaves the scan behind its `%`. -/
theorem nextPlace_modifier {ch : BitVec 8} (h : IsModifier ch) (inDigits : Bool) :
    ∃ inDigits', nextPlace (.directive inDigits) ch = .directive inDigits' := by
  have hall : ∀ (ch : BitVec 8) (b : Bool), IsModifier ch →
      nextPlace (.directive b) ch ≠ .text := by decide +kernel
  have hne := hall ch inDigits h
  cases hplace : nextPlace (.directive inDigits) ch with
  | text => exact absurd hplace hne
  | directive inDigits' => exact ⟨inDigits', rfl⟩

/-- Any other character ends the conversion. -/
theorem nextPlace_last {ch : BitVec 8} (h : ¬ IsModifier ch) (inDigits : Bool) :
    nextPlace (.directive inDigits) ch = .text := by
  have hall : ∀ (ch : BitVec 8) (b : Bool), ¬ IsModifier ch →
      nextPlace (.directive b) ch = .text := by decide +kernel
  exact hall ch inDigits h

theorem foldl_modifiers {mods : List (BitVec 8)} (h : ∀ m ∈ mods, IsModifier m) (inDigits : Bool) :
    ∃ inDigits', mods.foldl nextPlace (.directive inDigits) = .directive inDigits' := by
  induction mods generalizing inDigits with
  | nil => exact ⟨inDigits, rfl⟩
  | cons m mods ih =>
      obtain ⟨inDigits', hm⟩ := nextPlace_modifier (h m List.mem_cons_self) inDigits
      rw [List.foldl_cons, hm]
      exact ih (fun m hm => h m (List.mem_cons_of_mem _ hm)) inDigits'

theorem foldl_items (items : List FmtItem) :
    (items.flatMap FmtItem.chars).foldl nextPlace .text = .text := by
  induction items with
  | nil => rfl
  | cons item items ih =>
      rw [List.flatMap_cons, List.foldl_append]
      have hitem : item.chars.foldl nextPlace .text = .text := by
        cases item with
        | literal ch hch => exact if_neg hch
        | conversion mods ch hmods hch =>
            obtain ⟨inDigits, hm⟩ := foldl_modifiers hmods false
            have hpercent : nextPlace .text (chr '%') = .directive false := rfl
            rw [FmtItem.chars, List.cons_append, List.foldl_cons, List.foldl_append, hpercent, hm]
            exact nextPlace_last hch inDigits
      rw [hitem, ih]

/-- A list of characters is made of parts, or of parts and an incomplete conversion. -/
def Parsed (fmt : List (BitVec 8)) : Prop :=
  (∃ items : List FmtItem, fmt = items.flatMap FmtItem.chars) ∨
  ∃ (items : List FmtItem) (mods : List (BitVec 8)), (∀ m ∈ mods, IsModifier m) ∧
    fmt = items.flatMap FmtItem.chars ++ chr '%' :: mods

theorem Parsed.cons (item : FmtItem) {fmt : List (BitVec 8)} (h : Parsed fmt) :
    Parsed (item.chars ++ fmt) := by
  rcases h with ⟨items, rfl⟩ | ⟨items, mods, hmods, rfl⟩
  · exact .inl ⟨item :: items, rfl⟩
  · exact .inr ⟨item :: items, mods, hmods, by simp⟩

/-- Every list can be parsed, from the text on and behind a `%` and some modifiers. -/
theorem parsed (fmt : List (BitVec 8)) :
    Parsed fmt ∧
      ∀ mods, (∀ m ∈ mods, IsModifier m) → Parsed (chr '%' :: mods ++ fmt) := by
  induction fmt with
  | nil => exact ⟨.inl ⟨[], rfl⟩, fun mods hmods => .inr ⟨[], mods, hmods, by simp⟩⟩
  | cons ch fmt ih =>
      constructor
      · by_cases hch : ch = chr '%'
        · simpa [hch] using ih.2 [] (by simp)
        · exact ih.1.cons (.literal ch hch)
      · intro mods hmods
        by_cases hch : IsModifier ch
        · have hmods' : ∀ m ∈ mods ++ [ch], IsModifier m := by
            intro m hm
            rcases List.mem_append.mp hm with hm | hm
            · exact hmods m hm
            · exact List.mem_singleton.mp hm ▸ hch
          simpa using ih.2 (mods ++ [ch]) hmods'
        · simpa [FmtItem.chars] using ih.1.cons (.conversion mods ch hmods hch)

/-- **A format is complete exactly when its scan ends in the text.** -/
theorem complete_iff (fmt : CString) : Complete fmt ↔ fmt.chars.foldl nextPlace .text = .text := by
  constructor
  · rintro ⟨items, hitems⟩
    rw [hitems, foldl_items]
  · intro hplace
    rcases (parsed fmt.chars).1 with hitems | ⟨items, mods, hmods, hfmt⟩
    · exact hitems
    · obtain ⟨inDigits, hm⟩ := foldl_modifiers hmods false
      have hpercent : nextPlace .text (chr '%') = .directive false := rfl
      rw [hfmt, List.foldl_append, foldl_items, List.foldl_cons, hpercent, hm] at hplace
      cases hplace

/-- What a complete format writes is its output without a limit. -/
theorem unlimited_of_complete (strings : Strings) {fmt : CString} (hfmt : Complete fmt)
    (ap : VaList) :
    ∃ st, formatText strings .text fmt.chars (.start ap) =
        ((formatText strings .text fmt.chars (.start ap)).1, some st) ∧
      unlimited strings fmt ap =
        .ok ((formatText strings .text fmt.chars (.start ap)).1, st.ap) := by
  have hsome := (formatText_isSome strings .text fmt.chars (.start ap)).mpr
    ((complete_iff fmt).mp hfmt)
  obtain ⟨st, hst⟩ := Option.isSome_iff_exists.mp hsome
  refine ⟨st, Prod.ext rfl hst, ?_⟩
  rw [unlimited_eq, hst]

/-! ### The buffer -/

/-- How many characters `set_ch` takes before it has returned; `pos` is a word of 32 bits. -/
def capacity (size : BitVec 32) : ℕ := if size = 0 then 2 ^ 32 else size.toNat

/-- Memory with a list written to its beginning. -/
def overlay (str : ℕ → BitVec 8) (l : List (BitVec 8)) (i : ℕ) : BitVec 8 := l[i]?.getD (str i)

theorem update_overlay (str : ℕ → BitVec 8) (l : List (BitVec 8)) (ch : BitVec 8) :
    Function.update (overlay str l) l.length ch = overlay str (l ++ [ch]) := by
  funext i
  rcases Nat.lt_trichotomy i l.length with hlt | heq | hgt
  · rw [Function.update_of_ne (by omega), overlay, overlay, List.getElem?_append_left hlt]
  · subst heq
    simp [overlay]
  · rw [Function.update_of_ne (by omega), overlay, overlay, List.getElem?_eq_none (by omega),
      List.getElem?_eq_none (by simp; omega)]

theorem update_overlay_last (str : ℕ → BitVec 8) (l : List (BitVec 8)) (a b : BitVec 8) :
    Function.update (overlay str (l ++ [a])) l.length b = overlay str (l ++ [b]) := by
  rw [← update_overlay, Function.update_idem, update_overlay]

theorem capacity_pos (size : BitVec 32) : 0 < capacity size := by
  rw [capacity]
  split
  · omega
  · exact Nat.pos_of_ne_zero fun h => ‹size ≠ 0› (BitVec.eq_of_toNat_eq (by simpa using h))

theorem capacity_le (size : BitVec 32) : capacity size ≤ 2 ^ 32 := by
  have := size.isLt
  rw [capacity]
  split <;> omega

/-- `pos` meets `size` when the capacity is used up. -/
theorem pos_eq_size_iff {size pos : BitVec 32} (h : pos.toNat < capacity size) :
    pos + 1 = size ↔ pos.toNat + 1 = capacity size := by
  have hle := capacity_le size
  rw [← BitVec.toNat_inj, BitVec.toNat_add, capacity] at *
  have hlt := size.isLt
  by_cases hzero : size = 0
  · rw [if_pos hzero] at *
    subst hzero
    simp
    omega
  · rw [if_neg hzero] at *
    simp
    omega

theorem capacity_sub_one (size : BitVec 32) : (size - 1).toNat = capacity size - 1 := by
  rw [BitVec.toNat_sub, capacity]
  have hlt := size.isLt
  by_cases hzero : size = 0
  · rw [if_pos hzero]
    subst hzero
    rfl
  · have hpos : size.toNat ≠ 0 := fun h => hzero (BitVec.eq_of_toNat_eq (by simpa using h))
    rw [if_neg hzero]
    simp
    omega

/-- **The buffer is a sink that stops its writer.** -/
def strBounded (str : ℕ → BitVec 8) (size : BitVec 32) : Bounded (setCh size) (capacity size) where
  Stored l b := b.pos.toNat = l.length ∧ l.length < capacity size ∧ b.str = overlay str l
  Full l e := e = .returned ⟨size, overlay str (l.dropLast ++ [0])⟩
  room := by
    rintro l b ch ⟨hpos, hlt, hstr⟩ hroom
    have hnot : b.pos + 1 ≠ size := by
      rw [Ne, pos_eq_size_iff (by omega)]
      omega
    have hle := capacity_le size
    refine ⟨b.put ch, if_neg hnot, ?_, by simpa using hroom, ?_⟩
    · have hsucc : (b.pos + 1).toNat = b.pos.toNat + 1 := by
        rw [BitVec.toNat_add]
        simp
        omega
      simpa [StrBuf.put, hpos] using hsucc
    · rw [StrBuf.put, hpos, hstr, update_overlay]
  full := by
    rintro l b ch ⟨hpos, hlt, hstr⟩ hlast
    have hsize : b.pos + 1 = size := (pos_eq_size_iff (by omega)).mpr (by omega)
    have hindex : (size - 1).toNat = l.length := by
      rw [capacity_sub_one]
      omega
    refine ⟨_, if_pos hsize, ?_⟩
    rw [StrBuf.put, hpos, hstr, update_overlay, hindex, update_overlay_last]
    simp

theorem foldlM_setCh_of_lt (str : ℕ → BitVec 8) {size : BitVec 32} {out : List (BitVec 8)}
    (h : out.length < capacity size) :
    out.foldlM (setCh size) ⟨str, 0⟩ = .ok ⟨overlay str out, BitVec.ofNat 32 out.length⟩ := by
  have hstored : (strBounded str size).Stored [] ⟨str, 0⟩ := ⟨rfl, capacity_pos size, rfl⟩
  obtain ⟨⟨str', pos⟩, hrun, hpos, -, hstr⟩ := (strBounded str size).run_of_lt out hstored h
  have hword : pos = BitVec.ofNat 32 out.length := by
    have hlt := lt_of_lt_of_le h (capacity_le size)
    refine BitVec.eq_of_toNat_eq ?_
    rw [toNat_word hlt]
    simpa using hpos
  simp only [List.nil_append] at hstr
  rw [hrun, hstr, hword]

theorem foldlM_setCh_of_ge (str : ℕ → BitVec 8) {size : BitVec 32} {out : List (BitVec 8)}
    (h : capacity size ≤ out.length) :
    out.foldlM (setCh size) ⟨str, 0⟩ =
      .error (.returned ⟨size, overlay str (out.take (capacity size - 1) ++ [0])⟩) := by
  have hstored : (strBounded str size).Stored [] ⟨str, 0⟩ := ⟨rfl, capacity_pos size, rfl⟩
  obtain ⟨e, hrun, he⟩ := (strBounded str size).run_of_ge out hstored (capacity_pos size) h
  have hpos := capacity_pos size
  have hcut : (([] ++ out).take (capacity size)).dropLast = out.take (capacity size - 1) := by
    rw [List.nil_append, List.dropLast_eq_take, List.take_take, List.length_take]
    congr 1
    omega
  rw [hrun, he, hcut]

/-! ### What `vsnprintf` returns and leaves -/

/-- **What `vsnprintf` returns and leaves** for a format that is scanned to its end. -/
theorem vsnprintf_of_text {strings : Strings} {fmt : CString} {ap : VaList} {out : List (BitVec 8)}
    {st : FmtState} (h : formatText strings .text fmt.chars (.start ap) = (out, some st))
    (str : ℕ → BitVec 8) (size : BitVec 32) :
    vsnprintf strings str size fmt ap =
      .ok ⟨if out.length + 1 < capacity size then BitVec.ofNat 32 out.length else size,
        overlay str (out.take (capacity size - 1) ++ [0])⟩ := by
  have hrun : (scanFormat (setCh size) strings .text fmt.chars (.start ap) ⟨str, 0⟩ >>=
      fun r => setCh size r.2 0) = (out ++ [0]).foldlM (setCh size) ⟨str, 0⟩ := by
    rw [scanFormat_eq, h, List.foldlM_append, bind_assoc]
    refine congrArg (_ >>= ·) (funext fun b => ?_)
    rw [List.foldlM_cons]
    exact (bind_pure _).symm
  rw [vsnprintf, hrun]
  rcases Nat.lt_or_ge (out.length + 1) (capacity size) with hlt | hge
  · rw [foldlM_setCh_of_lt str (by simpa using hlt), if_pos hlt, List.take_of_length_le (by omega)]
    have hret : BitVec.ofNat 32 (out ++ [0]).length - 1 = BitVec.ofNat 32 out.length := by
      rw [List.length_append, BitVec.ofNat_add]
      exact BitVec.add_sub_cancel _ _
    rw [← hret]
    rfl
  · rw [foldlM_setCh_of_ge str (by simpa using hge), if_neg (by omega),
      List.take_append_of_le_length (by omega)]
    rfl

/-- A format that ends within a conversion is left behind unless the buffer is full before. -/
theorem vsnprintf_of_none {strings : Strings} {fmt : CString} {ap : VaList} {out : List (BitVec 8)}
    (h : formatText strings .text fmt.chars (.start ap) = (out, none)) (str : ℕ → BitVec 8)
    (size : BitVec 32) :
    vsnprintf strings str size fmt ap =
      if out.length < capacity size then .error .overread
      else .ok ⟨size, overlay str (out.take (capacity size - 1) ++ [0])⟩ := by
  rw [vsnprintf, scanFormat_eq, h]
  rcases Nat.lt_or_ge out.length (capacity size) with hlt | hge
  · rw [foldlM_setCh_of_lt str hlt, if_pos hlt]
    rfl
  · rw [foldlM_setCh_of_ge str hge, if_neg (by omega)]
    rfl

/-- The bytes of the buffer when a list has been cut to its room. -/
theorem overlay_cut (str : ℕ → BitVec 8) (out : List (BitVec 8)) {N : ℕ} (hN : 0 < N) :
    (∀ i, N ≤ i → overlay str (out.take (N - 1) ++ [0]) i = str i) ∧
    (∀ i, i < min out.length (N - 1) →
      out[i]? = some (overlay str (out.take (N - 1) ++ [0]) i)) ∧
    overlay str (out.take (N - 1) ++ [0]) (min out.length (N - 1)) = 0 := by
  refine ⟨fun i hi => ?_, fun i hi => ?_, ?_⟩
  · rw [overlay, List.getElem?_eq_none (by simp; omega)]
    rfl
  · have hlt : i < (out.take (N - 1)).length := by simpa [Nat.min_comm] using hi
    rw [overlay, List.getElem?_append_left hlt, List.getElem?_take_of_lt (by omega),
      List.getElem?_eq_getElem (by omega)]
    rfl
  · have hlen : min out.length (N - 1) = (out.take (N - 1)).length := by simp [Nat.min_comm]
    rw [overlay, hlen, List.getElem?_concat_length]
    rfl

/-- **The buffer holds the beginning of the output and a NUL, and nothing else is written**: neither
a byte behind the buffer nor one behind the 25 bytes of `buf`, where the run would have ended with a
fault. -/
theorem vsnprintf_fills (strings : Strings) (str : ℕ → BitVec 8) (size : BitVec 32) (fmt : CString)
    (ap : VaList) (hsize : size ≠ 0) (hfmt : Complete fmt) :
    ∃ out rest r, unlimited strings fmt ap = .ok (out, rest) ∧
      vsnprintf strings str size fmt ap = .ok r ∧
      (∀ i, size.toNat ≤ i → r.str i = str i) ∧
      (∀ i, i < min out.length (size.toNat - 1) → out[i]? = some (r.str i)) ∧
      r.str (min out.length (size.toNat - 1)) = 0 := by
  obtain ⟨st, htext, hunlimited⟩ := unlimited_of_complete strings hfmt ap
  have hcap : capacity size = size.toNat := if_neg hsize
  refine ⟨_, _, _, hunlimited, vsnprintf_of_text htext str size, ?_⟩
  rw [hcap]
  exact overlay_cut str _ (hcap ▸ capacity_pos size)

/-- `"%d!"` in a buffer of two bytes. -/
theorem vsnprintf_fills_two :
    ∃ out rest r,
      unlimited (fun _ => nullText) ⟨[chr '%', chr 'd', chr '!'], by decide⟩ (Stream'.const 7) =
        .ok (out, rest) ∧
      vsnprintf (fun _ => nullText) (fun _ => 1) 2 ⟨[chr '%', chr 'd', chr '!'], by decide⟩
        (Stream'.const 7) = .ok r ∧
      (∀ i, 2 ≤ i → r.str i = 1) ∧ (∀ i, i < min out.length 1 → out[i]? = some (r.str i)) ∧
      r.str (min out.length 1) = 0 :=
  vsnprintf_fills _ _ 2 _ _ (by decide) ((complete_iff _).mpr (by decide))

/-! ### Whether the output was cut -/

/-- `BUFSIZ`. -/
def BUFSIZ : BitVec 32 := 1024

/-- Whether `panic(fmt, ...)` reports that the message is truncated: `result >= BUFSIZ`. -/
def panicTruncated (strings : Strings) (buf : ℕ → BitVec 8) (fmt : CString) (ap : VaList) :
    Except FmtFault Bool := do
  let result ← vsnprintf strings buf BUFSIZ fmt ap
  return BUFSIZ.sle result.ret

/-- A result tells the length of an output that fits, and whether the output was cut. -/
def ResultTells (size ret : BitVec 32) (L : ℕ) : Prop :=
  (L < size.toNat → ret.toInt = L) ∧ ((size.toNat : ℤ) ≤ ret.toInt ↔ size.toNat ≤ L)

/-- A word as an `int`. -/
theorem toInt_eq_ite (x : BitVec 32) :
    x.toInt = if x.toNat < 2 ^ 31 then (x.toNat : ℤ) else x.toNat - 2 ^ 32 := by
  rw [BitVec.toInt_eq_toNat_cond]
  split <;> split <;> omega

/-- The result tells nothing false unless the NUL takes the last byte or the number is too large for
an `int`. -/
theorem resultTells_iff {L : ℕ} {size : BitVec 32} (hsize : size ≠ 0) :
    ResultTells size (if L + 1 < capacity size then BitVec.ofNat 32 L else size) L ↔
      L + 1 ≠ size.toNat ∧ min L size.toNat < 2 ^ 31 := by
  have hcap : capacity size = size.toNat := if_neg hsize
  have hlt := size.isLt
  rw [ResultTells, hcap]
  rcases Nat.lt_or_ge (L + 1) size.toNat with hfits | hfull
  · rw [if_pos hfits, toInt_eq_ite, toNat_word (by omega)]
    split <;> omega
  · rw [if_neg (by omega), toInt_eq_ite]
    split <;> omega

/-- The test of `panic()` is wrong only for the message whose NUL takes the last byte. -/
theorem bufsiz_sle_iff {L : ℕ} :
    BUFSIZ.sle (if L + 1 < capacity BUFSIZ then BitVec.ofNat 32 L else BUFSIZ) =
        decide (BUFSIZ.toNat ≤ L) ↔
      L + 1 ≠ BUFSIZ.toNat := by
  have hcap : capacity BUFSIZ = 1024 := rfl
  have hnat : BUFSIZ.toNat = 1024 := rfl
  have hint : BUFSIZ.toInt = 1024 := rfl
  rw [hcap, hnat, BitVec.sle, hint, decide_eq_decide]
  rcases Nat.lt_or_ge (L + 1) 1024 with hfits | hfull
  · rw [if_pos hfits, toInt_eq_ite, toNat_word (by omega)]
    split <;> omega
  · rw [if_neg (by omega), hint]
    omega

/-- The text of a format whose output without a limit is known. -/
theorem formatText_of_unlimited {strings : Strings} {fmt : CString} {ap rest : VaList}
    {out : List (BitVec 8)} (h : unlimited strings fmt ap = .ok (out, rest)) :
    ∃ st, formatText strings .text fmt.chars (.start ap) = (out, some st) := by
  rw [unlimited_eq] at h
  cases hst : (formatText strings .text fmt.chars (.start ap)).2 with
  | some st =>
      rw [hst] at h
      exact ⟨st, Prod.ext (Prod.mk.inj (Except.ok.inj h)).1 hst⟩
  | none =>
      rw [hst] at h
      cases h

/-- **When the result tells whether the output was cut**, for a buffer of any size and for the one
of `panic()`. -/
theorem vsnprintf_result_iff (strings : Strings) (str : ℕ → BitVec 8) (size : BitVec 32)
    (fmt : CString) (ap : VaList) (out : List (BitVec 8)) (rest : VaList) (hsize : size ≠ 0)
    (hout : unlimited strings fmt ap = .ok (out, rest)) :
    (∃ r, vsnprintf strings str size fmt ap = .ok r ∧
      (ResultTells size r.ret out.length ↔
        out.length + 1 ≠ size.toNat ∧ min out.length size.toNat < 2 ^ 31)) ∧
    (panicTruncated strings str fmt ap = .ok (decide (BUFSIZ.toNat ≤ out.length)) ↔
      out.length + 1 ≠ BUFSIZ.toNat) := by
  obtain ⟨st, htext⟩ := formatText_of_unlimited hout
  refine ⟨⟨_, vsnprintf_of_text htext str size, resultTells_iff hsize⟩, ?_⟩
  rw [← bufsiz_sle_iff, panicTruncated, vsnprintf_of_text htext str BUFSIZ]
  exact iff_of_eq (Except.ok.injEq _ _)

/-- `"abc"` in a buffer of five bytes. -/
theorem vsnprintf_result_iff_five :
    (∃ r, vsnprintf (fun _ => nullText) (fun _ => 0) 5 ⟨[chr 'a', chr 'b', chr 'c'], by decide⟩
        (Stream'.const 0) = .ok r ∧
      (ResultTells 5 r.ret 3 ↔ 3 + 1 ≠ 5 ∧ min 3 5 < 2 ^ 31)) ∧
    (panicTruncated (fun _ => nullText) (fun _ => 0) ⟨[chr 'a', chr 'b', chr 'c'], by decide⟩
        (Stream'.const 0) = .ok (decide (BUFSIZ.toNat ≤ 3)) ↔
      3 + 1 ≠ BUFSIZ.toNat) :=
  vsnprintf_result_iff _ _ 5 _ _ [chr 'a', chr 'b', chr 'c'] (Stream'.const 0) (by decide) rfl

/-- The result does not tell that `"abc"` fits in four bytes. -/
theorem not_result_tells_four :
    ¬ ∀ (strings : Strings) (str : ℕ → BitVec 8) (size : BitVec 32) (fmt : CString) (ap : VaList)
        (out : List (BitVec 8)) (rest : VaList), size ≠ 0 →
        unlimited strings fmt ap = .ok (out, rest) →
        ∃ r, vsnprintf strings str size fmt ap = .ok r ∧ ResultTells size r.ret out.length := by
  intro h
  obtain ⟨r, hrun, hlen, -⟩ :=
    h (fun _ => nullText) (fun _ => 0) 4 ⟨[chr 'a', chr 'b', chr 'c'], by decide⟩
      (Stream'.const 0) [chr 'a', chr 'b', chr 'c'] (Stream'.const 0) (by decide) rfl
  have hret : r.ret = 4 := congrArg PrintResult.ret (Except.ok.inj hrun).symm
  rw [hret] at hlen
  exact absurd (hlen (by decide)) (by decide)

end Aim
