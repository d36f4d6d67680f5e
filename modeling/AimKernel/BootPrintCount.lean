/-
**What the boot loader prints, and what it counts.**

`bprintf` is made of helpers that print a part and return how many characters it has.  The text is
the one that the format asks for, the smallest `int` included.  The number is not: `write_int` prints
the sign besides what it counts, and `write_uint` counts the digits that it has computed, where a
hexadecimal number is printed with eight.

Main definitions:

* `Aim.conversionText`, `Aim.BootItem.reference` — the text that a format asks for;
* `Aim.uncounted` — the characters of a conversion that are not counted;
* `Aim.AllCounted` — there are none.

Main results:

* `Aim.writeUint_eq`, `Aim.writeInt_eq`, `Aim.bootConvert_spec` — what is printed and counted;
* `Aim.bprintfLoop_spec` — a run over the format;
* `Aim.bprintf_counts_iff` — **when `bprintf` returns the number of characters that it prints.**
-/

import AimKernel.BootPrint
import AimKernel.FormatNumbers

set_option relaxedAutoImplicit false
set_option autoImplicit false

namespace Aim

/-! ### The text that a format asks for -/

/-- Whether a conversion has an argument. -/
def TakesArgument (ch : BitVec 8) : Prop :=
  ch = chr 's' ∨ ch = chr 'd' ∨ ch = chr 'u' ∨ ch = chr 'x' ∨ ch = chr 'p' ∨ ch = chr 'c'

instance (ch : BitVec 8) : Decidable (TakesArgument ch) := inferInstanceAs (Decidable (_ ∨ _))

/-- The arguments behind a conversion. -/
def argumentsAfter (ch : BitVec 8) (ap : VaList) : VaList :=
  if TakesArgument ch then ap.tail else ap

/-- The text of a conversion. -/
def conversionText (strings : Strings) (ch : BitVec 8) (arg : BitVec 32) : List (BitVec 8) :=
  if ch = chr 's' then (strings arg).chars
  else if ch = chr 'd' then signText arg.toInt ++ numeral 10 arg.toInt.natAbs
  else if ch = chr 'u' then numeral 10 arg.toNat
  else if ch = chr 'x' ∨ ch = chr 'p' then paddedNumeral 16 8 true arg.toNat
  else if ch = chr 'c' then [arg.setWidth 8]
  else if ch = chr '%' then [chr '%']
  else []

/-- The text of a format, given by its parts. -/
def BootItem.reference (strings : Strings) : List BootItem → VaList → List (BitVec 8)
  | [], _ => []
  | .literal ch _ :: items, ap => ch :: reference strings items ap
  | .conversion ch :: items, ap =>
      conversionText strings ch ap.head ++ reference strings items (argumentsAfter ch ap)

/-! ### Numbers -/

/-- The digits of a number, the lowest first; zero has one. -/
def remainderDigits (r n : ℕ) : List ℕ := if n = 0 then [0] else Nat.digits r n

theorem remainderDigits_lt {r n : ℕ} (hr : 2 ≤ r) : ∀ d ∈ remainderDigits r n, d < r := by
  intro d hd
  rw [remainderDigits] at hd
  split at hd
  · rw [List.mem_singleton] at hd
    omega
  · exact Nat.digits_lt_base (by omega) hd

theorem map_digitChar_remainderDigits (r n : ℕ) :
    (remainderDigits r n).map digitChar = lowDigits r n := by
  rw [remainderDigits, lowDigits]
  split
  · rfl
  · rfl

/-- One round of the loop takes the lowest digit. -/
theorem remainderDigits_cons {r n : ℕ} (hr : 2 ≤ r) :
    remainderDigits r n =
      n % r :: if 0 < n / r then remainderDigits r (n / r) else [] := by
  rw [remainderDigits]
  by_cases hn : n = 0
  · subst hn
    simp
  · rw [if_neg hn, Nat.digits_def' (by omega) (Nat.pos_of_ne_zero hn)]
    by_cases hq : 0 < n / r
    · rw [if_pos hq, remainderDigits, if_neg hq.ne']
    · rw [if_neg hq, Nat.eq_zero_of_not_pos hq, Nat.digits_zero]

/-- **The loop of `write_uint` computes the digits.** -/
theorem remainders_eq {r : BitVec 32} (hlow : 2 ≤ r.toNat) {room : ℕ} {u : BitVec 32}
    (buf : List (BitVec 8)) (hroom : 0 < room) (hu : u.toNat < r.toNat ^ room) :
    remainders r room u buf =
      .ok (buf ++ (remainderDigits r.toNat u.toNat).map (BitVec.ofNat 8)) := by
  induction room generalizing u buf with
  | zero => exact absurd hroom (Nat.lt_irrefl 0)
  | succ room ih =>
      have hquot : (u / r).toNat = u.toNat / r.toNat := BitVec.toNat_udiv
      have hdigit : (u % r).setWidth 8 = BitVec.ofNat 8 (u.toNat % r.toNat) := by
        refine BitVec.eq_of_toNat_eq ?_
        rw [BitVec.toNat_setWidth, BitVec.toNat_umod, BitVec.toNat_ofNat]
      have hpositive : 0 < u / r ↔ 0 < u.toNat / r.toNat := by
        rw [BitVec.lt_def, hquot]
        rfl
      rw [remainders, remainderDigits_cons hlow, hdigit]
      by_cases hdiv : 0 < u / r
      · have hlt : (u / r).toNat < r.toNat ^ room := by
          rw [hquot]
          exact Nat.div_lt_of_lt_mul (by rwa [Nat.pow_succ'] at hu)
        have hroom' : 0 < room := by
          rcases Nat.eq_zero_or_pos room with h | h
          · subst h
            have hzero := hpositive.mp hdiv
            rw [Nat.pow_zero, hquot] at hlt
            omega
          · exact h
        rw [if_pos hdiv, if_pos (hpositive.mp hdiv), ih _ hroom' hlt, hquot]
        simp
      · rw [if_neg hdiv, if_neg (mt hpositive.mpr hdiv)]
        simp

/-- The characters of the digits that have been computed, and of those that have not. -/
theorem dict_getD {ds : List ℕ} (h : ∀ d ∈ ds, d < 16) (i : ℕ) :
    dict.getD ((ds.map (BitVec.ofNat 8)).getD i 0).toNat 0 = bufOr '0' (ds.map digitChar) i := by
  have hall : ∀ d : Fin 16, dict.getD (BitVec.ofNat 8 d).toNat 0 = digitChar d := by decide
  rw [bufOr, List.length_map]
  by_cases hi : ds.length ≤ i
  · have hnone : (ds.map (BitVec.ofNat 8)).getD i 0 = 0 :=
      List.getD_eq_default _ _ (by simpa using hi)
    rw [if_pos hi, hnone]
    rfl
  · have hlt : i < ds.length := by omega
    have hsome : (ds.map (BitVec.ofNat 8)).getD i 0 = BitVec.ofNat 8 ds[i] := by simp [hlt]
    have hchar : (ds.map digitChar).getD i 0 = digitChar ds[i] := by simp [hlt]
    rw [if_neg hi, hsome, hchar]
    exact hall ⟨ds[i], h _ (List.getElem_mem hlt)⟩

/-- **What `write_uint` prints and counts.** -/
theorem writeUint_eq (u : BitVec 32) {r : BitVec 32} (hlow : 10 ≤ r.toNat) (hhigh : r.toNat ≤ 16) :
    writeUint u r = .ok
      ⟨if r = 16 then paddedNumeral 16 8 true u.toNat else numeral r.toNat u.toNat,
        BitVec.ofNat 32 (numeral r.toNat u.toNat).length⟩ := by
  have hu : u.toNat < r.toNat ^ 20 :=
    calc u.toNat < 10 ^ 20 := lt_of_lt_of_le u.isLt (by norm_num)
      _ ≤ r.toNat ^ 20 := Nat.pow_le_pow_left hlow 20
  have hdigits : ∀ d ∈ remainderDigits r.toNat u.toNat, d < 16 := fun d hd =>
    lt_of_lt_of_le (remainderDigits_lt (by omega) d hd) hhigh
  have hbuf := remainders_eq (by omega) [] (by omega) hu
  have hlen : ((remainderDigits r.toNat u.toNat).map (BitVec.ofNat 8)).length =
      (lowDigits r.toNat u.toNat).length := by
    rw [← map_digitChar_remainderDigits, List.length_map, List.length_map]
  have hlen' : (numeral r.toNat u.toNat).length = (lowDigits r.toNat u.toNat).length := by
    rw [numeral, List.length_reverse]
  have hchars : (fun i => dict.getD
      (((remainderDigits r.toNat u.toNat).map (BitVec.ofNat 8)).getD i 0).toNat 0) =
      bufOr '0' (lowDigits r.toNat u.toNat) := by
    funext i
    rw [dict_getD hdigits, map_digitChar_remainderDigits]
  have hrun : writeUint u r = .ok
      ⟨(List.range (if r = 16 then 8 else (lowDigits r.toNat u.toNat).length)).reverse.map
        (bufOr '0' (lowDigits r.toNat u.toNat)),
        BitVec.ofNat 32 (lowDigits r.toNat u.toNat).length⟩ := by
    rw [writeUint, hbuf, List.nil_append]
    simp only [bind, Except.bind, hlen, hchars]
    rfl
  rw [hrun, hlen', List.map_reverse, map_bufOr, List.reverse_append, List.reverse_replicate]
  by_cases hr : r = 16
  · subst hr
    have hshort : (lowDigits 16 u.toNat).length ≤ 8 := by
      rw [← List.length_reverse]
      exact numeral_length_le (by omega) (by omega) u.isLt
    have hpos : ¬ ((u.toNat : ℤ) < 0) := by omega
    have hsixteen : (16 : BitVec 32).toNat = 16 := rfl
    rw [if_pos rfl, if_pos rfl, hsixteen, List.take_of_length_le hshort, paddedNumeral, signText,
      if_neg hpos, if_pos rfl]
    simp [numeral]
  · rw [if_neg hr, if_neg hr, List.take_length, Nat.sub_self]
    rfl

/-- **What `write_int` prints and counts**: `-d` of the smallest value is its own amount. -/
theorem writeInt_eq (d : BitVec 32) :
    writeInt d 10 = .ok ⟨signText d.toInt ++ numeral 10 d.toInt.natAbs,
      BitVec.ofNat 32 (numeral 10 d.toInt.natAbs).length⟩ := by
  have hten : (10 : BitVec 32).toNat = 10 := rfl
  have hne : (10 : BitVec 32) ≠ 16 := by decide
  have hsign : d.slt 0 = true ↔ d.toInt < 0 := by
    rw [BitVec.slt, decide_eq_true_iff]
    rfl
  rw [writeInt, signText]
  by_cases hneg : d.toInt < 0
  · have habs : (-d).toNat = d.toInt.natAbs := by
      rw [BitVec.toNat_neg]
      rw [BitVec.toInt_eq_toNat_cond] at hneg ⊢
      have hlt := d.isLt
      split at hneg
      · omega
      · rw [if_neg (by assumption)]
        omega
    rw [if_pos (hsign.mpr hneg), if_pos hneg, writeUint_eq (-d) (by decide) (by decide), habs,
      if_neg hne, hten]
    rfl
  · have habs : d.toNat = d.toInt.natAbs := by
      rw [BitVec.toInt_eq_toNat_cond] at hneg ⊢
      have hlt := d.isLt
      split at hneg
      · rw [if_pos (by assumption)]
        omega
      · omega
    rw [if_neg (mt hsign.mp hneg), if_neg hneg, writeUint_eq d (by decide) (by decide), habs,
      if_neg hne, hten, List.nil_append]

/-! ### What is counted -/

/-- The characters of a conversion that are not counted: a sign, and the digits that have not been
computed. -/
def uncounted (ch : BitVec 8) (arg : BitVec 32) : ℕ :=
  if ch = chr 'd' then (signText arg.toInt).length
  else if ch = chr 'x' ∨ ch = chr 'p' then 8 - (numeral 16 arg.toNat).length
  else 0

/-- The characters of a format that are not counted. -/
def BootItem.uncounted : List BootItem → VaList → ℕ
  | [], _ => 0
  | .literal _ _ :: items, ap => uncounted items ap
  | .conversion ch :: items, ap =>
      Aim.uncounted ch ap.head + uncounted items (argumentsAfter ch ap)

/-- A part of the output with the text that is asked for, of which all but `k` characters have been
counted. -/
structure BootOutput.Prints (out : BootOutput) (text : List (BitVec 8)) (k : ℕ) : Prop where
  text_eq : out.text = text
  short : k ≤ text.length
  cnt_eq : out.cnt + BitVec.ofNat 32 k = BitVec.ofNat 32 text.length

theorem BootOutput.Prints.add {out out' : BootOutput} {text text' : List (BitVec 8)} {k k' : ℕ}
    (h : out.Prints text k) (h' : out'.Prints text' k') :
    (out.add out').Prints (text ++ text') (k + k') := by
  refine ⟨?_, ?_, ?_⟩
  · rw [BootOutput.add, h.text_eq, h'.text_eq]
  · rw [List.length_append]
    exact Nat.add_le_add h.short h'.short
  · have hcnt : (out.add out').cnt = out.cnt + out'.cnt := rfl
    rw [List.length_append, BitVec.ofNat_add, BitVec.ofNat_add, ← h.cnt_eq, ← h'.cnt_eq, hcnt]
    ac_rfl

/-- All characters have been counted. -/
theorem BootOutput.prints_counted (text : List (BitVec 8)) :
    BootOutput.Prints ⟨text, BitVec.ofNat 32 text.length⟩ text 0 :=
  ⟨rfl, Nat.zero_le _, BitVec.add_zero _⟩

/-- The characters in front have not been counted. -/
theorem BootOutput.prints_front (front text : List (BitVec 8)) :
    BootOutput.Prints ⟨front ++ text, BitVec.ofNat 32 text.length⟩ (front ++ text)
      front.length := by
  refine ⟨rfl, ?_, ?_⟩
  · rw [List.length_append]
    exact Nat.le_add_right _ _
  · rw [List.length_append, Nat.add_comm, BitVec.ofNat_add]

/-- The digits that a hexadecimal number is filled up with. -/
theorem paddedNumeral_eight (u : BitVec 32) :
    paddedNumeral 16 8 true u.toNat =
      List.replicate (8 - (numeral 16 u.toNat).length) (chr '0') ++ numeral 16 u.toNat := by
  have hpos : ¬ ((u.toNat : ℤ) < 0) := by omega
  rw [paddedNumeral, signText, if_neg hpos]
  simp

/-- **What a conversion prints and counts.** -/
theorem bootConvert_spec (strings : Strings) (ch : BitVec 8) (ap : VaList) :
    ∃ w, bootConvert strings ch ap = .ok (w, argumentsAfter ch ap) ∧
      w.Prints (conversionText strings ch ap.head) (uncounted ch ap.head) := by
  by_cases hs : ch = chr 's'
  · subst hs
    exact ⟨_, rfl, BootOutput.prints_counted _⟩
  by_cases hd : ch = chr 'd'
  · subst hd
    refine ⟨_, ?_, BootOutput.prints_front (signText ap.head.toInt) _⟩
    rw [bootConvert, if_neg hs, if_pos rfl, writeInt_eq]
    rfl
  by_cases hu : ch = chr 'u'
  · subst hu
    refine ⟨_, ?_, BootOutput.prints_counted (numeral 10 ap.head.toNat)⟩
    rw [bootConvert, if_neg hs, if_neg hd, if_pos rfl,
      writeUint_eq ap.head (by decide) (by decide)]
    rfl
  by_cases hx : ch = chr 'x' ∨ ch = chr 'p'
  · have htext : conversionText strings ch ap.head = paddedNumeral 16 8 true ap.head.toNat := by
      rw [conversionText, if_neg hs, if_neg hd, if_neg hu, if_pos hx]
    have hshort : uncounted ch ap.head = 8 - (numeral 16 ap.head.toNat).length := by
      rw [uncounted, if_neg hd, if_pos hx]
    have hrest : argumentsAfter ch ap = ap.tail :=
      if_pos (by rcases hx with h | h <;> simp [TakesArgument, h])
    have hprints := BootOutput.prints_front
      (List.replicate (8 - (numeral 16 ap.head.toNat).length) (chr '0'))
      (numeral 16 ap.head.toNat)
    rw [List.length_replicate, ← paddedNumeral_eight] at hprints
    rw [htext, hshort, hrest]
    refine ⟨_, ?_, hprints⟩
    rw [bootConvert, if_neg hs, if_neg hd, if_neg hu, if_pos hx,
      writeUint_eq ap.head (by decide) (by decide)]
    rfl
  by_cases hc : ch = chr 'c'
  · subst hc
    exact ⟨_, rfl, BootOutput.prints_counted [ap.head.setWidth 8]⟩
  by_cases hpercent : ch = chr '%'
  · subst hpercent
    exact ⟨_, rfl, BootOutput.prints_counted [chr '%']⟩
  · have htext : conversionText strings ch ap.head = [] := by
      rw [conversionText, if_neg hs, if_neg hd, if_neg hu, if_neg hx, if_neg hc, if_neg hpercent]
    have hshort : uncounted ch ap.head = 0 := by
      rw [uncounted, if_neg hd, if_neg hx]
    have hrest : argumentsAfter ch ap = ap :=
      if_neg (by rintro (h | h | h | h | h | h) <;> simp_all)
    rw [htext, hshort, hrest]
    refine ⟨⟨[], 0⟩, ?_, BootOutput.prints_counted []⟩
    rw [bootConvert, if_neg hs, if_neg hd, if_neg hu, if_neg hx, if_neg hc, if_neg hpercent]

/-! ### A run over the format -/

/-- **The loop prints the text that is asked for.** -/
theorem bprintfLoop_spec (strings : Strings) (items : List BootItem) (ap : VaList)
    {out : BootOutput} {text : List (BitVec 8)} {k : ℕ} (hout : out.Prints text k) :
    ∃ out', bprintfLoop strings (items.flatMap BootItem.chars) ap out = .ok out' ∧
      out'.Prints (text ++ BootItem.reference strings items ap)
        (k + BootItem.uncounted items ap) := by
  induction items generalizing ap out text k with
  | nil =>
      refine ⟨out, rfl, ?_⟩
      rw [BootItem.reference, List.append_nil]
      exact hout
  | cons item items ih =>
      cases item with
      | literal ch hch =>
          obtain ⟨out', hrun, hprints⟩ := ih ap (hout.add (BootOutput.prints_counted [ch]))
          refine ⟨out', ?_, ?_⟩
          · rw [← hrun, List.flatMap_cons, BootItem.chars, List.singleton_append]
            cases htail : items.flatMap BootItem.chars with
            | nil => exact if_neg hch
            | cons ch' fmt =>
                rw [bprintfLoop, if_neg hch]
                rfl
          · rw [List.append_assoc] at hprints
            exact hprints
      | conversion ch =>
          obtain ⟨w, hconvert, hw⟩ := bootConvert_spec strings ch ap
          obtain ⟨out', hrun, hprints⟩ := ih (argumentsAfter ch ap) (hout.add hw)
          refine ⟨out', ?_, ?_⟩
          · rw [← hrun, List.flatMap_cons, BootItem.chars, List.cons_append,
              List.singleton_append, bprintfLoop, if_pos rfl, hconvert]
            rfl
          · rw [List.append_assoc, Nat.add_assoc] at hprints
            exact hprints

/-! ### When the number is right -/

/-- A conversion of which all characters are counted: no negative number, and no hexadecimal number
with zeros in front. -/
def Counted (ch : BitVec 8) (arg : BitVec 32) : Prop :=
  (ch = chr 'd' → 0 ≤ arg.toInt) ∧ (ch = chr 'x' ∨ ch = chr 'p' → 2 ^ 28 ≤ arg.toNat)

/-- All conversions of the format are such, with the arguments that they take. -/
def AllCounted : List BootItem → VaList → Prop
  | [], _ => True
  | .literal _ _ :: items, ap => AllCounted items ap
  | .conversion ch :: items, ap =>
      Counted ch ap.head ∧ AllCounted items (argumentsAfter ch ap)

/-- Numbers of eight hexadecimal digits. -/
theorem numeral_sixteen_length (u : BitVec 32) :
    8 ≤ (numeral 16 u.toNat).length ↔ 2 ^ 28 ≤ u.toNat := by
  have hshort : (numeral 16 u.toNat).length ≤ 7 ↔ u.toNat < 16 ^ 7 := by
    rw [numeral, List.length_reverse, lowDigits]
    by_cases hu : u.toNat = 0
    · simp [hu]
    · rw [if_neg hu, List.length_map]
      exact Nat.digits_length_le_iff (by omega : 1 < 16) _
  norm_num at hshort
  omega

theorem uncounted_eq_zero_iff (ch : BitVec 8) (arg : BitVec 32) :
    uncounted ch arg = 0 ↔ Counted ch arg := by
  have hdx : chr 'd' ≠ chr 'x' := by decide
  have hdp : chr 'd' ≠ chr 'p' := by decide
  rw [uncounted, Counted]
  by_cases hd : ch = chr 'd'
  · subst hd
    rw [if_pos rfl, signText]
    by_cases hneg : arg.toInt < 0
    · simp [hneg]
    · simp [hneg, hdx, hdp]
      omega
  · by_cases hx : ch = chr 'x' ∨ ch = chr 'p'
    · rw [if_neg hd, if_pos hx, Nat.sub_eq_zero_iff_le, numeral_sixteen_length]
      simp [hd, hx]
    · simp [hd, hx]

theorem BootItem.uncounted_eq_zero_iff (items : List BootItem) (ap : VaList) :
    uncounted items ap = 0 ↔ AllCounted items ap := by
  induction items generalizing ap with
  | nil => simp [uncounted, AllCounted]
  | cons item items ih =>
      cases item with
      | literal ch hch =>
          rw [uncounted, AllCounted]
          exact ih ap
      | conversion ch =>
          rw [uncounted, AllCounted, Nat.add_eq_zero_iff, ih, Aim.uncounted_eq_zero_iff]

/-- The number is that of the characters when none is left out and an `int` can say it. -/
theorem BootOutput.Prints.toInt_cnt {out : BootOutput} {text : List (BitVec 8)} {k : ℕ}
    (h : out.Prints text k) :
    out.cnt.toInt = out.text.length ↔ k = 0 ∧ text.length < 2 ^ 31 := by
  have hcnt := congrArg BitVec.toNat h.cnt_eq
  rw [BitVec.toNat_add, BitVec.toNat_ofNat, BitVec.toNat_ofNat] at hcnt
  have hlt := out.cnt.isLt
  have hshort := h.short
  rw [h.text_eq, BitVec.toInt_eq_toNat_cond]
  constructor
  · intro heq
    split at heq
    · omega
    · omega
  · rintro ⟨rfl, hlen⟩
    rw [if_pos (by omega)]
    omega

/-- **When `bprintf` returns the number of characters that it prints**: no `%d` has a negative
argument, no `%x` and no `%p` one with less than eight digits, and an `int` can say the number.  The
text is right in any case. -/
theorem bprintf_counts_iff (strings : Strings) (items : List BootItem) (fmt : CString)
    (ap : VaList) (hfmt : fmt.chars = items.flatMap BootItem.chars) :
    ∃ out, bprintf strings fmt ap = .ok out ∧ out.text = BootItem.reference strings items ap ∧
      (out.cnt.toInt = out.text.length ↔
        AllCounted items ap ∧ (BootItem.reference strings items ap).length < 2 ^ 31) := by
  obtain ⟨out, hrun, hprints⟩ := bprintfLoop_spec strings items ap (BootOutput.prints_counted [])
  rw [List.nil_append, Nat.zero_add] at hprints
  refine ⟨out, ?_, hprints.text_eq, ?_⟩
  · rw [bprintf, hfmt]
    exact hrun
  · rw [hprints.toInt_cnt, BootItem.uncounted_eq_zero_iff]

/-- `"%d"` of 42. -/
theorem bprintf_counts_iff_decimal :
    ∃ out, bprintf (fun _ => nullText) ⟨[chr '%', chr 'd'], by decide⟩ (Stream'.const 42) =
        .ok out ∧
      out.text = BootItem.reference (fun _ => nullText) [.conversion (chr 'd')]
        (Stream'.const 42) ∧
      (out.cnt.toInt = out.text.length ↔
        AllCounted [.conversion (chr 'd')] (Stream'.const 42) ∧
          (BootItem.reference (fun _ => nullText) [.conversion (chr 'd')]
            (Stream'.const 42)).length < 2 ^ 31) :=
  bprintf_counts_iff _ [.conversion (chr 'd')] _ _ rfl

/-- `"%d"` of -1 prints two characters and returns 1; `"%x"` of 1 prints eight and returns 1. -/
theorem not_bprintf_counts :
    (∃ out, bprintf (fun _ => nullText) ⟨[chr '%', chr 'd'], by decide⟩ (Stream'.const (-1)) =
        .ok out ∧ out.text = [chr '-', chr '1'] ∧ out.cnt.toInt = 1) ∧
      ∃ out, bprintf (fun _ => nullText) ⟨[chr '%', chr 'x'], by decide⟩ (Stream'.const 1) =
        .ok out ∧ out.text = List.replicate 7 (chr '0') ++ [chr '1'] ∧ out.cnt.toInt = 1 :=
  ⟨⟨_, rfl, rfl, rfl⟩, _, rfl, rfl, rfl⟩

end Aim
