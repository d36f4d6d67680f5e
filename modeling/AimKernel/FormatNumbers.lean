/-
**Integer conversions.**

For `%d`, `%u`, `%o` and `%x` one expects the shortest numeral of the value, padded on its left to
the width, with blanks or with zeros.  `vsnprintf` computes all the digits, but when there is a width
it writes exactly as many of them as the width says, always fills up with zeros, and does not count
the sign.

Main definitions:

* `Aim.IntConv`, `Aim.argWords`, `Aim.directive` — a conversion, its argument and its format;
* `Aim.numeral`, `Aim.paddedNumeral` — what is to be written;
* `Aim.readNumeral` — the value of a text.

Main results:

* `Aim.readNumeral_paddedNumeral` — a padded numeral can be read back;
* `Aim.formatText_directive` — what the scan of a conversion writes;
* `Aim.uintText_eq_iff` — when the text is the padded numeral;
* `Aim.integer_conversion_iff` — **when an integer conversion writes what it should.**
-/

import AimKernel.FormatBuffer

set_option relaxedAutoImplicit false
set_option autoImplicit false

namespace Aim

/-! ### Numerals -/

/-- The shortest numeral. -/
def numeral (base n : ℕ) : List (BitVec 8) := (lowDigits base n).reverse

/-- The sign of a value. -/
def signText (v : ℤ) : List (BitVec 8) := if v < 0 then [chr '-'] else []

/-- The numeral of a value, with its sign, padded to a width: with zeros between the sign and the
digits, or with blanks before the sign. -/
def paddedNumeral (base w : ℕ) (zero : Bool) (v : ℤ) : List (BitVec 8) :=
  let pad := w - ((signText v).length + (numeral base v.natAbs).length)
  if zero then signText v ++ List.replicate pad (chr '0') ++ numeral base v.natAbs
  else List.replicate pad (chr ' ') ++ signText v ++ numeral base v.natAbs

/-- The value of a digit. -/
def digitValue (ch : BitVec 8) : ℕ := if ch ≤ chr '9' then ch.toNat - 48 else ch.toNat - 87

/-- The value of digits. -/
def readDigits (base : ℕ) (text : List (BitVec 8)) : ℕ :=
  text.foldl (fun n ch => base * n + digitValue ch) 0

/-- The value of a numeral behind blanks. -/
def readNumeral (base : ℕ) (text : List (BitVec 8)) : ℤ :=
  let text := text.dropWhile (· = chr ' ')
  if text.head? = some (chr '-') then -(readDigits base text.tail : ℤ) else readDigits base text

theorem digitValue_digitChar {d : ℕ} (hd : d < 16) : digitValue (digitChar d) = d := by
  have hall : ∀ d : Fin 16, digitValue (digitChar d) = d := by decide
  exact hall ⟨d, hd⟩

theorem digitChar_ne {d : ℕ} (hd : d < 16) :
    digitChar d ≠ chr ' ' ∧ digitChar d ≠ chr '-' ∧ digitChar d ≠ 0 := by
  have hall : ∀ d : Fin 16, digitChar d ≠ chr ' ' ∧ digitChar d ≠ chr '-' ∧ digitChar d ≠ 0 := by
    decide
  exact hall ⟨d, hd⟩

/-- The digits of a numeral are those of a base of at most sixteen. -/
theorem mem_numeral {base n : ℕ} (hlow : 2 ≤ base) (hhigh : base ≤ 16) {ch : BitVec 8}
    (h : ch ∈ numeral base n) : ∃ d, d < 16 ∧ ch = digitChar d := by
  rw [numeral, List.mem_reverse, lowDigits] at h
  split at h
  · exact ⟨0, by omega, List.mem_singleton.mp h⟩
  · obtain ⟨d, hd, rfl⟩ := List.mem_map.mp h
    exact ⟨d, lt_of_lt_of_le (Nat.digits_lt_base hlow hd) hhigh, rfl⟩

theorem numeral_length_pos (base n : ℕ) : 0 < (numeral base n).length := by
  rw [numeral, List.length_reverse, lowDigits]
  split
  · simp
  · rw [List.length_map]
    exact List.length_pos_iff.mpr (Nat.digits_ne_nil_iff_ne_zero.mpr ‹_›)

theorem numeral_length_le {base n k : ℕ} (hbase : 2 ≤ base) (hk : 0 < k) (hn : n < base ^ k) :
    (numeral base n).length ≤ k := by
  rw [numeral, List.length_reverse, lowDigits]
  split
  · exact hk
  · rwa [List.length_map, Nat.digits_length_le_iff hbase]

/-- A value of 64 bits has at most 22 digits. -/
theorem numeral_length_le_22 {base n : ℕ} (hbase : 8 ≤ base) (hn : n < 2 ^ 64) :
    (numeral base n).length ≤ 22 := by
  refine numeral_length_le (by omega) (by omega) ?_
  calc n < 2 ^ 64 := hn
    _ ≤ 8 ^ 22 := by norm_num
    _ ≤ base ^ 22 := Nat.pow_le_pow_left hbase 22

/-- Digits, the lowest first, are read from the end. -/
theorem foldr_digitValue (base : ℕ) {ds : List ℕ} (h : ∀ d ∈ ds, d < 16) :
    (ds.map digitChar).foldr (fun ch n => base * n + digitValue ch) 0 = Nat.ofDigits base ds := by
  induction ds with
  | nil => rfl
  | cons d ds ih =>
      rw [List.map_cons, List.foldr_cons, ih fun d hd => h d (List.mem_cons_of_mem _ hd),
        digitValue_digitChar (h d List.mem_cons_self), Nat.ofDigits_cons]
      exact Nat.add_comm _ _

theorem readDigits_numeral {base : ℕ} (hlow : 2 ≤ base) (hhigh : base ≤ 16) (n : ℕ) :
    readDigits base (numeral base n) = n := by
  rw [readDigits, numeral, List.foldl_reverse, lowDigits]
  by_cases hn : n = 0
  · subst hn
    rfl
  · have hdigits : ∀ d ∈ Nat.digits base n, d < 16 := fun d hd =>
      lt_of_lt_of_le (Nat.digits_lt_base hlow hd) hhigh
    rw [if_neg hn, foldr_digitValue base hdigits, Nat.ofDigits_digits]

theorem readDigits_zeros (base k : ℕ) (text : List (BitVec 8)) :
    readDigits base (List.replicate k (chr '0') ++ text) = readDigits base text := by
  induction k with
  | zero => rfl
  | succ k ih =>
      rw [List.replicate_succ, List.cons_append, readDigits, List.foldl_cons]
      have hzero : base * 0 + digitValue (chr '0') = 0 := by
        rw [Nat.mul_zero]
        rfl
      rw [hzero]
      exact ih

/-- Behind blanks, a text of digits is read as a number. -/
theorem readNumeral_digits {base : ℕ} (k : ℕ) {ch : BitVec 8} {text : List (BitVec 8)}
    (hblank : ch ≠ chr ' ') (hsign : ch ≠ chr '-') :
    readNumeral base (List.replicate k (chr ' ') ++ ch :: text) = readDigits base (ch :: text) := by
  have hdrop : (List.replicate k (chr ' ') ++ ch :: text).dropWhile (· = chr ' ') = ch :: text := by
    rw [List.dropWhile_append_of_pos (by simp), List.dropWhile_cons_of_neg (by simpa using hblank)]
  rw [readNumeral, hdrop]
  simp [hsign]

/-- Behind blanks, a text with a sign is read as a negative number. -/
theorem readNumeral_sign {base : ℕ} (k : ℕ) (text : List (BitVec 8)) :
    readNumeral base (List.replicate k (chr ' ') ++ chr '-' :: text) =
      -(readDigits base text : ℤ) := by
  have hdrop : (List.replicate k (chr ' ') ++ chr '-' :: text).dropWhile (· = chr ' ') =
      chr '-' :: text := by
    rw [List.dropWhile_append_of_pos (by simp), List.dropWhile_cons_of_neg (by decide)]
  rw [readNumeral, hdrop]
  rfl

/-- Blanks, a sign, zeros and a numeral. -/
theorem readNumeral_parts {base : ℕ} (hlow : 2 ≤ base) (hhigh : base ≤ 16) (k j : ℕ) (v : ℤ) :
    readNumeral base (List.replicate k (chr ' ') ++ (signText v ++
      (List.replicate j (chr '0') ++ numeral base v.natAbs))) = v := by
  have hdigits : readDigits base (List.replicate j (chr '0') ++ numeral base v.natAbs) =
      v.natAbs := by
    rw [readDigits_zeros, readDigits_numeral hlow hhigh]
  by_cases hneg : v < 0
  · rw [signText, if_pos hneg, List.singleton_append, readNumeral_sign, hdigits]
    omega
  · rw [signText, if_neg hneg, List.nil_append]
    cases htext : List.replicate j (chr '0') ++ numeral base v.natAbs with
    | nil =>
        have hpos := numeral_length_pos base v.natAbs
        rw [(List.append_eq_nil_iff.mp htext).2] at hpos
        cases hpos
    | cons ch text =>
        have hmem : ch ∈ List.replicate j (chr '0') ++ numeral base v.natAbs := by simp [htext]
        have hdigit : ∃ d, d < 16 ∧ ch = digitChar d := by
          rcases List.mem_append.mp hmem with hzero | hnumeral
          · exact ⟨0, by omega, List.eq_of_mem_replicate hzero⟩
          · exact mem_numeral hlow hhigh hnumeral
        obtain ⟨d, hd, rfl⟩ := hdigit
        rw [readNumeral_digits k (digitChar_ne hd).1 (digitChar_ne hd).2.1, ← htext, hdigits]
        omega

/-- **A padded numeral can be read back.** -/
theorem readNumeral_paddedNumeral {base : ℕ} (hlow : 2 ≤ base) (hhigh : base ≤ 16) (w : ℕ)
    (zero : Bool) (v : ℤ) : readNumeral base (paddedNumeral base w zero v) = v := by
  rw [paddedNumeral]
  cases zero with
  | true => simpa using readNumeral_parts hlow hhigh 0 _ v
  | false => simpa using readNumeral_parts hlow hhigh _ 0 v

theorem paddedNumeral_length (base w : ℕ) (zero : Bool) (v : ℤ) :
    (paddedNumeral base w zero v).length =
      max w ((signText v).length + (numeral base v.natAbs).length) := by
  rw [paddedNumeral]
  cases zero with
  | true =>
      simp only [if_true, List.length_append, List.length_replicate]
      omega
  | false =>
      simp only [Bool.false_eq_true, if_false, List.length_append, List.length_replicate]
      omega

/-! ### When the text of a conversion is the padded numeral -/

theorem map_bufOr (pad : Char) (buf : List (BitVec 8)) (w : ℕ) :
    (List.range w).map (bufOr pad buf) =
      buf.take w ++ List.replicate (w - buf.length) (chr pad) := by
  refine List.ext_getElem (by simp; omega) fun i hi _ => ?_
  rw [List.getElem_map, List.getElem_range, bufOr]
  have hiw : i < w := by simpa using hi
  rcases Nat.lt_or_ge i buf.length with hlt | hge
  · rw [if_neg (by omega), List.getElem_append_left (by simp; omega), List.getElem_take,
      List.getD_eq_getElem _ _ hlt]
  · rw [if_pos hge, List.getElem_append_right (by simp; omega), List.getElem_replicate]

/-- The sign of a width. -/
theorem slt_ofNat {w : ℕ} (hlt : w < 2 ^ 32) :
    BitVec.slt 0 (BitVec.ofNat 32 w) = true ↔ 0 < w ∧ w < 2 ^ 31 := by
  rw [BitVec.slt, decide_eq_true_iff, toInt_eq_ite (BitVec.ofNat 32 w), toNat_word hlt]
  have hzero : (0 : BitVec 32).toInt = 0 := rfl
  rw [hzero]
  split <;> omega

/-- The text of a conversion with a width: zeros, and the lowest digits. -/
theorem uintText_of_width {base w : ℕ} (hw : w ≠ 0) (hlt : w < 2 ^ 31) (v : ℤ) :
    uintText (v < 0) (BitVec.ofNat 32 w) base v.natAbs =
      signText v ++ (List.replicate (w - (numeral base v.natAbs).length) (chr '0') ++
        ((lowDigits base v.natAbs).take w).reverse) := by
  have hnat : (BitVec.ofNat 32 w).toNat = w := toNat_word (by omega)
  have hne : BitVec.ofNat 32 w ≠ 0 := fun h => hw (by rw [← hnat, h]; rfl)
  have hpos : BitVec.slt 0 (BitVec.ofNat 32 w) = true := (slt_ofNat (by omega)).mpr (by omega)
  rw [uintText, if_neg hne, if_pos hpos, hnat, signText, List.map_reverse, map_bufOr,
    List.reverse_append, List.reverse_replicate, numeral, List.length_reverse]
  simp

theorem uintText_of_zero (base : ℕ) (v : ℤ) :
    uintText (v < 0) 0 base v.natAbs = signText v ++ numeral base v.natAbs := by
  rw [uintText, if_pos rfl, signText, numeral]
  simp

theorem signText_length_le (v : ℤ) : (signText v).length ≤ 1 := by
  rw [signText]
  split <;> simp

/-- For a width above every `ssize_t`, the text is too short. -/
theorem uintText_length_lt {base w : ℕ} (hbase : 8 ≤ base) (hge : 2 ^ 31 ≤ w) {v : ℤ}
    (hv : v.natAbs < 2 ^ 64) :
    (uintText (v < 0) (BitVec.ofNat 32 w) base v.natAbs).length < w := by
  have hsign := signText_length_le v
  have hdigits := numeral_length_le_22 hbase hv
  have hmod : BitVec.ofNat 32 w = BitVec.ofNat 32 (w % 2 ^ 32) := by
    refine BitVec.eq_of_toNat_eq ?_
    simp
  rw [hmod]
  by_cases hzero : w % 2 ^ 32 = 0
  · have htext := uintText_of_zero base v
    rw [hzero]
    refine lt_of_eq_of_lt (congrArg List.length htext) ?_
    rw [List.length_append]
    omega
  · by_cases hlt : w % 2 ^ 32 < 2 ^ 31
    · rw [uintText_of_width hzero hlt]
      simp only [List.length_append, List.length_replicate, List.length_reverse, List.length_take]
      rw [numeral, List.length_reverse] at *
      omega
    · have hne : BitVec.ofNat 32 (w % 2 ^ 32) ≠ 0 := by
        intro h
        have hnat := congrArg BitVec.toNat h
        simp at hnat
        omega
      have hneg : ¬ BitVec.slt 0 (BitVec.ofNat 32 (w % 2 ^ 32)) = true := by
        rw [slt_ofNat (Nat.mod_lt _ (by omega))]
        omega
      rw [uintText, if_neg hne, if_neg hneg, List.length_nil]
      omega

/-- A numeral that is long enough is not padded. -/
theorem paddedNumeral_of_le {base w : ℕ} {v : ℤ} (zero : Bool)
    (h : w ≤ (signText v).length + (numeral base v.natAbs).length) :
    paddedNumeral base w zero v = signText v ++ numeral base v.natAbs := by
  rw [paddedNumeral, Nat.sub_eq_zero_of_le h]
  cases zero <;> simp

theorem signText_of_nonneg {v : ℤ} (h : 0 ≤ v) : signText v = [] := if_neg (by omega)

/-- When a text with a width is the padded numeral. -/
theorem uintText_of_width_eq_iff {base w : ℕ} (hw : w ≠ 0) (hlt : w < 2 ^ 31) (zero : Bool)
    (v : ℤ) :
    uintText (v < 0) (BitVec.ofNat 32 w) base v.natAbs = paddedNumeral base w zero v ↔
      w = (numeral base v.natAbs).length ∨
        zero = true ∧ 0 ≤ v ∧ (numeral base v.natAbs).length < w := by
  have hlow : (lowDigits base v.natAbs).length = (numeral base v.natAbs).length := by
    rw [numeral, List.length_reverse]
  rw [uintText_of_width hw hlt]
  constructor
  · intro heq
    have hlen := congrArg List.length heq
    rw [paddedNumeral_length] at hlen
    simp only [List.length_append, List.length_replicate, List.length_reverse,
      List.length_take, hlow] at hlen
    by_cases hneg : v < 0
    · have hsign : (signText v).length = 1 := by
        rw [signText, if_pos hneg]
        rfl
      omega
    · have hsign := signText_of_nonneg (not_lt.mp hneg)
      rw [hsign, List.length_nil] at hlen
      rcases Nat.lt_or_ge (numeral base v.natAbs).length w with hgt | hle
      · refine .inr ⟨?_, not_lt.mp hneg, hgt⟩
        by_contra hzero
        obtain ⟨m, hm⟩ : ∃ m, w - (numeral base v.natAbs).length = m + 1 :=
          ⟨w - (numeral base v.natAbs).length - 1, by omega⟩
        -- without the flag, the first character is a blank on one side and a zero on the other
        rw [paddedNumeral, if_neg hzero, hsign, List.length_nil, Nat.zero_add, hm,
          List.replicate_succ, List.replicate_succ] at heq
        exact absurd (List.cons.inj heq).1 (by decide)
      · omega
  · rintro (heq | ⟨rfl, hv, hgt⟩)
    · rw [paddedNumeral_of_le zero (by omega), heq, Nat.sub_self,
        List.take_of_length_le (by omega), numeral]
      rfl
    · rw [paddedNumeral, if_pos rfl, signText_of_nonneg hv, List.take_of_length_le (by omega),
        numeral]
      simp

/-- **When the text is the padded numeral.** -/
theorem uintText_eq_iff {base w : ℕ} (hbase : 8 ≤ base) (zero : Bool) {v : ℤ}
    (hv : v.natAbs < 2 ^ 64) :
    uintText (v < 0) (BitVec.ofNat 32 w) base v.natAbs = paddedNumeral base w zero v ↔
      w = 0 ∨ w = (numeral base v.natAbs).length ∨
        zero = true ∧ 0 ≤ v ∧ (numeral base v.natAbs).length < w ∧ w < 2 ^ 31 := by
  rcases Nat.eq_zero_or_pos w with hzero | hpos
  · subst hzero
    exact ⟨fun _ => .inl rfl, fun _ =>
      (uintText_of_zero base v).trans (paddedNumeral_of_le zero (Nat.zero_le _)).symm⟩
  · rcases Nat.lt_or_ge w (2 ^ 31) with hlt | hge
    · rw [uintText_of_width_eq_iff (by omega) hlt]
      constructor
      · rintro (heq | ⟨hzero, hv, hgt⟩)
        · exact .inr (.inl heq)
        · exact .inr (.inr ⟨hzero, hv, hgt, hlt⟩)
      · rintro (heq | heq | ⟨hzero, hv, hgt, -⟩)
        · omega
        · exact .inl heq
        · exact .inr ⟨hzero, hv, hgt⟩
    · have hdigits := numeral_length_le_22 hbase hv
      constructor
      · intro heq
        have hshort := uintText_length_lt hbase hge hv
        rw [heq, paddedNumeral_length] at hshort
        omega
      · omega

/-! ### The argument -/

/-- The integer conversions. -/
inductive IntConv
  | d | u | o | x
deriving DecidableEq

namespace IntConv

/-- The conversion character. -/
def char : IntConv → BitVec 8
  | d => chr 'd'
  | u => chr 'u'
  | o => chr 'o'
  | x => chr 'x'

/-- The base. -/
def base : IntConv → ℕ
  | d | u => 10
  | o => 8
  | x => 16

/-- The case of the switch. -/
def case : IntConv → FmtCase
  | d => .d
  | u => .u
  | o => .o
  | x => .x

end IntConv

/-- The bits of an argument: `int` and `long` have 32, `long long` has 64. -/
def argBits (k : ℕ) : ℕ := if k < 2 then 32 else 64

/-- A value of the type of the argument. -/
def InRange (k : ℕ) : IntConv → ℤ → Prop
  | .d, v => -2 ^ (argBits k - 1) ≤ v ∧ v < 2 ^ (argBits k - 1)
  | _, v => 0 ≤ v ∧ v < 2 ^ argBits k

/-- The words that the caller passes for a value. -/
def argWords (k : ℕ) (v : ℤ) : List (BitVec 32) :=
  if k < 2 then [BitVec.ofInt 32 v] else [BitVec.ofInt 32 v, BitVec.ofInt 32 (v / 2 ^ 32)]

theorem append_ofInt (v : ℤ) :
    (BitVec.ofInt 32 (v / 2 ^ 32) ++ BitVec.ofInt 32 v : BitVec 64) = BitVec.ofInt 64 v := by
  refine BitVec.eq_of_toNat_eq ?_
  rw [BitVec.toNat_append, ← Nat.shiftLeft_add_eq_or_of_lt (BitVec.isLt _)]
  simp only [BitVec.toNat_ofInt, Nat.shiftLeft_eq]
  omega

/-- The words of a value are read back when the extension of an `int` fits the value. -/
theorem vaGet_argWords {extend : BitVec 32 → BitVec 64} {k : ℕ} {v : ℤ}
    (hextend : k < 2 → extend (BitVec.ofInt 32 v) = BitVec.ofInt 64 v) (rest : VaList) :
    vaGet extend k (Stream'.appendStream' (argWords k v) rest) = (BitVec.ofInt 64 v, rest) := by
  rcases Nat.lt_or_ge k 2 with hk | hk
  · rw [argWords, if_pos hk, vaGet_of_lt extend hk]
    exact Prod.ext (hextend hk) rfl
  · rw [argWords, if_neg (by omega), vaGet_of_ge extend hk]
    exact Prod.ext (append_ofInt v) rfl

theorem getint_argWords {k : ℕ} {v : ℤ} (hv : InRange k .d v) (rest : VaList) :
    getint k (Stream'.appendStream' (argWords k v) rest) = (BitVec.ofInt 64 v, rest) := by
  obtain ⟨hlow, hhigh⟩ := hv
  refine vaGet_argWords (fun hk => BitVec.eq_of_toInt_eq ?_) rest
  rw [argBits, if_pos hk] at hlow hhigh
  rw [BitVec.toInt_signExtend_of_le (by omega), BitVec.toInt_ofInt, BitVec.toInt_ofInt,
    Int.bmod_eq_of_le (by norm_num at *; omega) (by norm_num at *; omega),
    Int.bmod_eq_of_le (by norm_num at *; omega) (by norm_num at *; omega)]

theorem getuint_argWords {k : ℕ} {v : ℤ} (hlow : 0 ≤ v) (hhigh : v < 2 ^ argBits k)
    (rest : VaList) :
    getuint k (Stream'.appendStream' (argWords k v) rest) = (BitVec.ofInt 64 v, rest) := by
  refine vaGet_argWords (fun hk => BitVec.eq_of_toNat_eq ?_) rest
  rw [argBits, if_pos hk] at hhigh
  rw [BitVec.toNat_setWidth, BitVec.toNat_ofInt, BitVec.toNat_ofInt]
  omega

theorem argBits_cases (k : ℕ) : argBits k = 32 ∨ argBits k = 64 := by
  rw [argBits]
  split
  · exact .inl rfl
  · exact .inr rfl

/-- A `long long` holds the signed values. -/
theorem bounds_of_signed {k : ℕ} {v : ℤ} (hv : InRange k .d v) : -2 ^ 63 ≤ v ∧ v < 2 ^ 63 := by
  obtain ⟨hlow, hhigh⟩ := hv
  rcases argBits_cases k with h | h
  · rw [h] at hlow hhigh
    norm_num at *
    omega
  · rw [h] at hlow hhigh
    exact ⟨hlow, hhigh⟩

/-- An `unsigned long long` holds the others. -/
theorem bound_of_unsigned {k : ℕ} {v : ℤ} (hhigh : v < 2 ^ argBits k) : v < 2 ^ 64 := by
  rcases argBits_cases k with h | h
  · rw [h] at hhigh
    norm_num at *
    omega
  · rwa [h] at hhigh

theorem natAbs_lt_of_inRange {k : ℕ} {conv : IntConv} {v : ℤ} (hv : InRange k conv v) :
    v.natAbs < 2 ^ 64 := by
  cases conv with
  | d =>
      have hbounds := bounds_of_signed hv
      omega
  | u | o | x =>
      have hbound := bound_of_unsigned hv.2
      have hlow : 0 ≤ v := hv.1
      omega

/-- What `%d` writes for a value of 64 bits. -/
theorem intText_ofInt (width : BitVec 32) {v : ℤ} (hlow : -2 ^ 63 ≤ v) (hhigh : v < 2 ^ 63) :
    intText width (BitVec.ofInt 64 v) = uintText (v < 0) width 10 v.natAbs := by
  have hint : (BitVec.ofInt 64 v).toInt = v := by
    rw [BitVec.toInt_ofInt]
    exact Int.bmod_eq_of_le (by norm_num at *; omega) (by norm_num at *; omega)
  rw [intText, BitVec.slt, hint]
  rfl

/-- What the other conversions write for a value of 64 bits. -/
theorem uintText_ofInt (width : BitVec 32) (base : ℕ) {v : ℤ} (hlow : 0 ≤ v) (hhigh : v < 2 ^ 64) :
    uintText false width base (BitVec.ofInt 64 v).toNat =
      uintText (v < 0) width base v.natAbs := by
  have hnat : (BitVec.ofInt 64 v).toNat = v.natAbs := by
    rw [BitVec.toNat_ofInt]
    omega
  rw [hnat, decide_eq_false (not_lt.mpr hlow)]

/-- The conversions but `%d` read and write an unsigned value. -/
theorem convertText_unsigned (strings : Strings) (st : FmtState) {conv : IntConv}
    (h : conv ≠ .d) :
    convertText strings st conv.case =
        uintText false st.width conv.base (getuint st.longflag st.ap).1.toNat ∧
      ((st.afterArg conv.case).reset).ap = (getuint st.longflag st.ap).2 := by
  cases conv with
  | d => exact absurd rfl h
  | u => exact ⟨rfl, rfl⟩
  | o => exact ⟨rfl, rfl⟩
  | x => exact ⟨rfl, rfl⟩

theorem inRange_unsigned {k : ℕ} {conv : IntConv} {v : ℤ} (h : conv ≠ .d)
    (hv : InRange k conv v) : 0 ≤ v ∧ v < 2 ^ argBits k := by
  cases conv with
  | d => exact absurd rfl h
  | u | o | x => exact hv

/-- What an integer conversion writes for a value, and the arguments that it leaves. -/
theorem convertText_argWords (strings : Strings) {st : FmtState} {conv : IntConv} {v : ℤ}
    {rest : VaList} (hv : InRange st.longflag conv v)
    (hap : st.ap = Stream'.appendStream' (argWords st.longflag v) rest) :
    convertText strings st conv.case = uintText (v < 0) st.width conv.base v.natAbs ∧
      ((st.afterArg conv.case).reset).ap = rest := by
  by_cases hconv : conv = .d
  · subst hconv
    have htext : convertText strings st IntConv.d.case =
      intText st.width (getint st.longflag st.ap).1 := rfl
    have hrest : ((st.afterArg IntConv.d.case).reset).ap = (getint st.longflag st.ap).2 := rfl
    obtain ⟨hlow, hhigh⟩ := bounds_of_signed hv
    rw [htext, hrest, hap, getint_argWords hv]
    exact ⟨intText_ofInt st.width hlow hhigh, rfl⟩
  · obtain ⟨htext, hrest⟩ := convertText_unsigned strings st hconv
    obtain ⟨hlow, hhigh⟩ := inRange_unsigned hconv hv
    rw [htext, hrest, hap, getuint_argWords hlow hhigh]
    exact ⟨uintText_ofInt st.width conv.base hlow (bound_of_unsigned hhigh), rfl⟩

/-! ### The format -/

/-- The digits of a width; none when there is no width. -/
def widthText (w : ℕ) : List (BitVec 8) := (Nat.digits 10 w).reverse.map digitChar

/-- The characters of a conversion with its flag, its width and its `l`s. -/
def directiveChars (zero : Bool) (w k : ℕ) (conv : IntConv) : List (BitVec 8) :=
  chr '%' :: ((if zero then [chr '0'] else []) ++
    (widthText w ++ (List.replicate k (chr 'l') ++ [conv.char])))

theorem no_nul_directiveChars (zero : Bool) (w k : ℕ) (conv : IntConv) :
    (0 : BitVec 8) ∉ directiveChars zero w k conv := by
  intro h
  have hflag : (0 : BitVec 8) ∉ (if zero then [chr '0'] else []) := by cases zero <;> decide
  have hwidth : (0 : BitVec 8) ∉ widthText w := by
    intro hmem
    obtain ⟨d, hd, hzero⟩ := List.mem_map.mp hmem
    have hlt : d < 10 := Nat.digits_lt_base (by omega) (List.mem_reverse.mp hd)
    exact (digitChar_ne (by omega)).2.2 hzero
  have hlong : (0 : BitVec 8) ∉ List.replicate k (chr 'l') := fun hmem =>
    absurd (List.eq_of_mem_replicate hmem) (by decide)
  have hconv : (0 : BitVec 8) ∉ [conv.char] := by cases conv <;> decide
  rw [directiveChars, List.mem_cons, List.mem_append, List.mem_append, List.mem_append] at h
  rcases h with h | h | h | h | h
  · exact absurd h (by decide)
  · exact hflag h
  · exact hwidth h
  · exact hlong h
  · exact hconv h

/-- A format that is one conversion. -/
def directive (zero : Bool) (w k : ℕ) (conv : IntConv) : CString :=
  ⟨directiveChars zero w k conv, no_nul_directiveChars zero w k conv⟩

/-- The last character of a conversion. -/
theorem fmtStep_conv (strings : Strings) (inDigits : Bool) (st : FmtState) (conv : IntConv) :
    fmtStep strings (.directive inDigits) conv.char st =
      ⟨convertText strings st conv.case, .text, (st.afterArg conv.case).reset⟩ := by
  have hcase : fmtCase conv.char = conv.case := by cases conv <;> decide
  rw [fmtStep, hcase]
  cases conv with
  | d | u | o | x => rfl

/-- `l`s, and the last character. -/
theorem formatText_long (strings : Strings) (inDigits : Bool) (st : FmtState) (k : ℕ)
    (conv : IntConv) :
    ∃ st' : FmtState, (st'.width = st.width ∧ st'.longflag = st.longflag + k ∧ st'.ap = st.ap) ∧
      formatText strings (.directive inDigits) (List.replicate k (chr 'l') ++ [conv.char]) st =
        (convertText strings st' conv.case, some (st'.afterArg conv.case).reset) := by
  induction k generalizing inDigits st with
  | zero =>
      refine ⟨st, ⟨rfl, rfl, rfl⟩, ?_⟩
      rw [List.replicate_zero, List.nil_append, formatText, fmtStep_conv, formatText,
        List.append_nil]
  | succ k ih =>
      obtain ⟨st', ⟨hwidth, hlong, hap⟩, htext⟩ := ih false st.long
      have hstep : fmtStep strings (.directive inDigits) (chr 'l') st =
        ⟨[], .directive false, st.long⟩ := rfl
      refine ⟨st', ⟨hwidth, hlong.trans (by simp; omega), hap⟩, ?_⟩
      rw [List.replicate_succ, List.cons_append, formatText, hstep, htext]
      rfl

/-- A digit in the loop over the digits, and a first one that is not zero. -/
theorem fmtStep_digit (strings : Strings) (st : FmtState) {d : ℕ} (hd : d < 10) {inDigits : Bool}
    (h : inDigits = true ∨ d ≠ 0) :
    fmtStep strings (.directive inDigits) (digitChar d) st =
      ⟨[], .directive true, st.addDigit (BitVec.ofNat 32 d)⟩ := by
  have hall : ∀ d : Fin 10, fmtCase (digitChar d) =
      if d.val = 0 then .zero else .digit (BitVec.ofNat 32 d) := by decide
  have hcase := hall ⟨d, hd⟩
  simp only at hcase
  rw [fmtStep, hcase]
  by_cases hzero : d = 0
  · subst hzero
    rcases h with h | h
    · subst h
      rfl
    · exact absurd rfl h
  · rw [if_neg hzero]

/-- The digits of a width behind its first one. -/
theorem formatText_digits (strings : Strings) {ds : List ℕ} (hds : ∀ d ∈ ds, d < 10)
    (fmt : List (BitVec 8)) {st : FmtState} {n : ℕ} (hwidth : st.width = BitVec.ofNat 32 n) :
    ∃ st' : FmtState, (st'.width = BitVec.ofNat 32 (ds.foldl (fun n d => n * 10 + d) n) ∧
        st'.longflag = st.longflag ∧ st'.ap = st.ap) ∧
      formatText strings (.directive true) (ds.map digitChar ++ fmt) st =
        formatText strings (.directive true) fmt st' := by
  induction ds generalizing st n with
  | nil => exact ⟨st, ⟨hwidth, rfl, rfl⟩, rfl⟩
  | cons d ds ih =>
      have hd : d < 10 := hds d List.mem_cons_self
      have hnext : (st.addDigit (BitVec.ofNat 32 d)).width = BitVec.ofNat 32 (n * 10 + d) := by
        simp [hwidth, BitVec.ofNat_add, BitVec.ofNat_mul]
      obtain ⟨st', hst', htext⟩ := ih (fun d hd => hds d (List.mem_cons_of_mem _ hd)) hnext
      refine ⟨st', hst', ?_⟩
      rw [List.map_cons, List.cons_append, formatText, fmtStep_digit strings st hd (.inl rfl),
        htext]
      rfl

/-- The value of the digits, the highest first. -/
theorem foldl_digits (w : ℕ) :
    (Nat.digits 10 w).reverse.foldl (fun n d => n * 10 + d) 0 = w := by
  rw [List.foldl_reverse]
  calc (Nat.digits 10 w).foldr (fun d n => n * 10 + d) 0
      = (Nat.digits 10 w).foldr (fun d n => d + 10 * n) 0 := by
        simp only [Nat.mul_comm, Nat.add_comm]
    _ = Nat.ofDigits 10 (Nat.digits 10 w) := (Nat.ofDigits_eq_foldr 10 _).symm
    _ = w := Nat.ofDigits_digits 10 w

/-- The first digit of a width is not zero, so that it is not taken for the flag. -/
theorem first_digit_ne_zero {w d : ℕ} {ds : List ℕ} (h : (Nat.digits 10 w).reverse = d :: ds) :
    d ≠ 0 := by
  have hw : w ≠ 0 := by
    rintro rfl
    simp at h
  have hlast := Nat.getLast_digit_ne_zero 10 hw
  have hhead : (Nat.digits 10 w).getLast (Nat.digits_ne_nil_iff_ne_zero.mpr hw) = d := by
    rw [List.getLast_eq_head_reverse]
    simp [h]
  rwa [hhead] at hlast

/-- The digits of a width. -/
theorem formatText_width (strings : Strings) (w : ℕ) (fmt : List (BitVec 8)) {st : FmtState}
    (hwidth : st.width = 0) :
    ∃ (st' : FmtState) (inDigits : Bool), (st'.width = BitVec.ofNat 32 w ∧
        st'.longflag = st.longflag ∧ st'.ap = st.ap) ∧
      formatText strings (.directive false) (widthText w ++ fmt) st =
        formatText strings (.directive inDigits) fmt st' := by
  have hvalue := foldl_digits w
  have hlt : ∀ d ∈ (Nat.digits 10 w).reverse, d < 10 := fun d hd =>
    Nat.digits_lt_base (by omega) (List.mem_reverse.mp hd)
  rw [widthText]
  cases hds : (Nat.digits 10 w).reverse with
  | nil =>
      rw [hds] at hvalue
      refine ⟨st, false, ⟨?_, rfl, rfl⟩, rfl⟩
      rw [hwidth, ← hvalue]
      rfl
  | cons d ds =>
      rw [hds] at hvalue hlt
      have hd : d < 10 := hlt d List.mem_cons_self
      have hne : d ≠ 0 := first_digit_ne_zero hds
      have hnext : (st.addDigit (BitVec.ofNat 32 d)).width = BitVec.ofNat 32 (0 * 10 + d) := by
        simp [hwidth]
      obtain ⟨st', hst', htext⟩ :=
        formatText_digits strings (fun d hd => hlt d (List.mem_cons_of_mem _ hd)) fmt hnext
      rw [List.foldl_cons] at hvalue
      rw [hvalue] at hst'
      refine ⟨st', true, hst', ?_⟩
      rw [List.map_cons, List.cons_append, formatText, fmtStep_digit strings st hd (.inr hne),
        htext]
      rfl

/-- **What the scan of a conversion writes.** -/
theorem formatText_directive (strings : Strings) (zero : Bool) (w k : ℕ) (conv : IntConv)
    (ap : VaList) :
    ∃ st : FmtState, (st.width = BitVec.ofNat 32 w ∧ st.longflag = k ∧ st.ap = ap) ∧
      formatText strings .text (directiveChars zero w k conv) (.start ap) =
        (convertText strings st conv.case, some (st.afterArg conv.case).reset) := by
  have hflag : ∃ st : FmtState, (st.width = 0 ∧ st.longflag = 0 ∧ st.ap = ap) ∧
      formatText strings .text (directiveChars zero w k conv) (.start ap) =
        formatText strings (.directive false)
          (widthText w ++ (List.replicate k (chr 'l') ++ [conv.char])) st := by
    cases zero with
    | false => exact ⟨.start ap, ⟨rfl, rfl, rfl⟩, rfl⟩
    | true => exact ⟨(FmtState.start ap).zeropad, ⟨rfl, rfl, rfl⟩, rfl⟩
  obtain ⟨st₀, ⟨hwidth₀, hlong₀, hap₀⟩, htext₀⟩ := hflag
  obtain ⟨st₁, inDigits, ⟨hwidth₁, hlong₁, hap₁⟩, htext₁⟩ :=
    formatText_width strings w (List.replicate k (chr 'l') ++ [conv.char]) hwidth₀
  obtain ⟨st₂, ⟨hwidth₂, hlong₂, hap₂⟩, htext₂⟩ := formatText_long strings inDigits st₁ k conv
  refine ⟨st₂, ⟨hwidth₂.trans hwidth₁, ?_, hap₂.trans (hap₁.trans hap₀)⟩,
    htext₀.trans (htext₁.trans htext₂)⟩
  rw [hlong₂, hlong₁, hlong₀, Nat.zero_add]

/-! ### What a conversion writes -/

/-- **What an integer conversion writes for a value.** -/
theorem unlimited_directive (strings : Strings) (zero : Bool) (w k : ℕ) {conv : IntConv} {v : ℤ}
    (hv : InRange k conv v) (rest : VaList) :
    unlimited strings (directive zero w k conv) (Stream'.appendStream' (argWords k v) rest) =
      .ok (uintText (v < 0) (BitVec.ofNat 32 w) conv.base v.natAbs, rest) := by
  obtain ⟨st, ⟨hwidth, hlong, hap⟩, htext⟩ := formatText_directive strings zero w k conv
    (Stream'.appendStream' (argWords k v) rest)
  rw [← hlong] at hv hap
  obtain ⟨hconv, hrest⟩ := convertText_argWords strings hv hap
  rw [hwidth] at hconv
  rw [unlimited_eq, directive, htext]
  exact congrArg Except.ok (Prod.ext hconv hrest)

/-- `"%p"`. -/
def pointerFormat : CString := ⟨[chr '%', chr 'p'], by decide⟩

/-- `%p` writes the eight digits of a pointer. -/
theorem unlimited_pointer (strings : Strings) (p : BitVec 32) (rest : VaList) :
    unlimited strings pointerFormat (Stream'.cons p rest) =
      .ok (paddedNumeral 16 8 true p.toNat, rest) := by
  have hp := p.isLt
  have hword : (p.setWidth 64).toNat = p.toNat := by
    rw [BitVec.toNat_setWidth]
    omega
  have hsign : decide ((p.toNat : ℤ) < 0) = false := decide_eq_false (by omega)
  have hdigits : (numeral 16 p.toNat).length ≤ 8 :=
    numeral_length_le (by omega) (by omega) (by omega)
  have htext : uintText false 8 16 p.toNat = paddedNumeral 16 8 true p.toNat := by
    have hiff : uintText ((p.toNat : ℤ) < 0) (BitVec.ofNat 32 8) 16 (p.toNat : ℤ).natAbs =
        paddedNumeral 16 8 true p.toNat ↔ _ := uintText_eq_iff (by omega) true (by omega)
    rw [hsign] at hiff
    refine hiff.mpr ?_
    rw [Int.natAbs_natCast]
    rcases hdigits.eq_or_lt with heq | hlt
    · exact .inr (.inl heq.symm)
    · exact .inr (.inr ⟨rfl, by omega, hlt, by omega⟩)
  have hstep : formatText strings .text pointerFormat.chars (.start (Stream'.cons p rest)) =
    (uintText false 8 16 (p.setWidth 64).toNat ++ [],
      some (((FmtState.start (Stream'.cons p rest)).afterArg .p).reset)) := rfl
  rw [unlimited_eq, hstep, hword, htext, List.append_nil]
  rfl

/-- **When an integer conversion writes what it should**: without a width, with the number of digits
as its width, or with the flag and a larger width for a value that is not negative. -/
theorem integer_conversion_iff (strings : Strings) (conv : IntConv) (zero : Bool) (w k : ℕ) (v : ℤ)
    (rest : VaList) (hv : InRange k conv v) :
    (∃ out,
      unlimited strings (directive zero w k conv) (Stream'.appendStream' (argWords k v) rest) =
        .ok (out, rest) ∧
      ((out = paddedNumeral conv.base w zero v ∧ readNumeral conv.base out = v) ↔
        w = 0 ∨ w = (numeral conv.base v.natAbs).length ∨
          zero = true ∧ 0 ≤ v ∧ (numeral conv.base v.natAbs).length < w ∧ w < 2 ^ 31)) ∧
    ∀ p : BitVec 32, unlimited strings pointerFormat (Stream'.cons p rest) =
      .ok (paddedNumeral 16 8 true p.toNat, rest) := by
  have hlow : 8 ≤ conv.base := by cases conv <;> decide
  have hhigh : conv.base ≤ 16 := by cases conv <;> decide
  refine ⟨⟨_, unlimited_directive strings zero w k hv rest, ?_⟩,
    fun p => unlimited_pointer strings p rest⟩
  rw [← uintText_eq_iff hlow zero (natAbs_lt_of_inRange hv)]
  constructor
  · exact And.left
  · intro heq
    rw [heq]
    exact ⟨rfl, readNumeral_paddedNumeral (by omega) hhigh w zero v⟩

/-- `"%2d"` of 42. -/
theorem integer_conversion_iff_two :
    (∃ out,
      unlimited (fun _ => nullText) (directive false 2 0 .d)
          (Stream'.appendStream' (argWords 0 42) (Stream'.const 0)) = .ok (out, Stream'.const 0) ∧
      ((out = paddedNumeral 10 2 false 42 ∧ readNumeral 10 out = 42) ↔
        2 = 0 ∨ 2 = (numeral 10 42).length ∨
          false = true ∧ 0 ≤ (42 : ℤ) ∧ (numeral 10 42).length < 2 ∧ 2 < 2 ^ 31)) ∧
    ∀ p : BitVec 32,
      unlimited (fun _ => nullText) pointerFormat (Stream'.cons p (Stream'.const 0)) =
        .ok (paddedNumeral 16 8 true p.toNat, Stream'.const 0) :=
  integer_conversion_iff _ .d false 2 0 42 _ ⟨by decide, by decide⟩

/-- `"%1d"` drops the first digit of 42. -/
theorem not_integer_conversion_one :
    unlimited (fun _ => nullText) (directive false 1 0 .d)
        (Stream'.appendStream' (argWords 0 42) (Stream'.const 0)) =
      .ok ([chr '2'], Stream'.const 0) ∧
    [chr '2'] ≠ paddedNumeral 10 1 false 42 ∧ readNumeral 10 [chr '2'] ≠ 42 := by
  refine ⟨?_, ?_, by decide⟩
  · rw [unlimited_directive _ false 1 0 (by exact ⟨by decide, by decide⟩)]
    simp [uintText, IntConv.base, lowDigits, bufOr, digitChar]
    rfl
  · simp [paddedNumeral, signText, numeral, lowDigits, digitChar, chr]

end Aim
