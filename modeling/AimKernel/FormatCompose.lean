/-
**Formats one behind the other.**

`width` and `longflag` are set back behind some conversions but not behind all of them: a conversion
that is not known leaves both, and `%c`, `%s` and `%%` leave `longflag`.  What a first format leaves
is then used by the conversions of a second one, which writes something else than it does for
itself, and may read another number of words.

Main definitions:

* `Aim.Mods`, `Aim.nextMods`, `Aim.leftMods` — the two variables, and what a format makes of them;
* `Aim.SameUse`, `Aim.Agree` — a format makes the same use of two values of the variables;
* `Aim.observe` — what is written, and the arguments that are left;
* `Aim.Composes` — two formats one behind the other do what they do for themselves.

Main results:

* `Aim.observe_cons` — one step, by the two variables and the arguments;
* `Aim.observe_of_agree`, `Aim.agree_of_observe` — **the variables are used alike exactly when no
  arguments show a difference**;
* `Aim.composes_iff` — **when formatting is compositional.**
-/

import AimKernel.FormatBuffer

set_option relaxedAutoImplicit false
set_option autoImplicit false

namespace Aim

/-! ### The variables that are left over -/

/-- `width` and `longflag`. -/
structure Mods where
  width : BitVec 32
  longflag : ℕ
deriving DecidableEq

/-- The two variables of a state. -/
def FmtState.mods (st : FmtState) : Mods := ⟨st.width, st.longflag⟩

/-- The state with the two variables and the arguments, and without a flag. -/
def FmtState.ofMods (m : Mods) (ap : VaList) : FmtState :=
  ⟨0, m.width, m.longflag, ap, zero_not_neg⟩

theorem FmtState.ap_ofMods (m : Mods) (ap : VaList) : (FmtState.ofMods m ap).ap = ap := rfl

/-- What a character of the format makes of the two variables. -/
def nextMods : Place → BitVec 8 → Mods → Mods
  | .text, _, m => m
  | .directive inDigits, ch, m =>
      match fmtCase ch with
      | .l => ⟨m.width, m.longflag + 1⟩
      | .zero => if inDigits then ⟨m.width * 10 + 0, m.longflag⟩ else m
      | .digit value => ⟨m.width * 10 + value, m.longflag⟩
      | .d | .o | .x | .u | .p => ⟨0, 0⟩
      | .c | .s | .percent => ⟨0, m.longflag⟩
      | .other => m

/-- What a format leaves of the two variables. -/
def leftMods : Place → List (BitVec 8) → Mods → Mods
  | _, [], m => m
  | place, ch :: fmt, m => leftMods (nextPlace place ch) fmt (nextMods place ch m)

/-- How many words a character of the format reads from the arguments. -/
def wordsRead : Place → BitVec 8 → Mods → ℕ
  | .text, _, _ => 0
  | .directive _, ch, m =>
      match fmtCase ch with
      | .d | .o | .x | .u => if 2 ≤ m.longflag then 2 else 1
      | .p | .c | .s => 1
      | _ => 0

/-- How many words a format reads from the arguments. -/
def wordsOf : Place → List (BitVec 8) → Mods → ℕ
  | _, [], _ => 0
  | place, ch :: fmt, m =>
      wordsRead place ch m + wordsOf (nextPlace place ch) fmt (nextMods place ch m)

/-! ### One step, by the two variables and the arguments -/

theorem fmtStep_mods (strings : Strings) (place : Place) (ch : BitVec 8) (st : FmtState) :
    (fmtStep strings place ch st).state.mods = nextMods place ch st.mods := by
  cases place with
  | text =>
      rw [fmtStep, nextMods]
      split <;> rfl
  | directive inDigits =>
      rw [fmtStep, nextMods]
      cases fmtCase ch with
      | zero => cases inDigits <;> rfl
      | _ => rfl

theorem vaGet_rest (extend : BitVec 32 → BitVec 64) (k : ℕ) (ap : VaList) :
    (vaGet extend k ap).2 = ap.drop (if 2 ≤ k then 2 else 1) := by
  rcases Nat.lt_or_ge k 2 with hk | hk
  · rw [vaGet_of_lt extend hk, if_neg (by omega)]
    rfl
  · rw [vaGet_of_ge extend hk, if_pos hk]
    rfl

theorem fmtStep_ap (strings : Strings) (place : Place) (ch : BitVec 8) (st : FmtState) :
    (fmtStep strings place ch st).state.ap = st.ap.drop (wordsRead place ch st.mods) := by
  cases place with
  | text =>
      rw [fmtStep, wordsRead]
      split <;> rfl
  | directive inDigits =>
      rw [fmtStep, wordsRead]
      cases fmtCase ch with
      | zero => cases inDigits <;> rfl
      | d | o | x | u => exact vaGet_rest _ st.longflag st.ap
      | _ => rfl

/-- The flag has no influence on what is written. -/
theorem fmtStep_text (strings : Strings) (place : Place) (ch : BitVec 8) (st : FmtState) :
    (fmtStep strings place ch st).text =
      (fmtStep strings place ch (.ofMods st.mods st.ap)).text := by
  cases place with
  | text =>
      rw [fmtStep, fmtStep]
      split <;> rfl
  | directive inDigits =>
      rw [fmtStep, fmtStep]
      cases fmtCase ch with
      | zero => cases inDigits <;> rfl
      | _ => rfl

/-- What is written from a state on, and the arguments that are left. -/
def observe (strings : Strings) (place : Place) (fmt : List (BitVec 8)) (st : FmtState) :
    List (BitVec 8) × Option VaList :=
  ((formatText strings place fmt st).1, (formatText strings place fmt st).2.map FmtState.ap)

theorem observe_step (strings : Strings) (place : Place) (ch : BitVec 8) (fmt : List (BitVec 8))
    (st : FmtState) :
    observe strings place (ch :: fmt) st =
      ((fmtStep strings place ch st).text ++
          (observe strings (nextPlace place ch) fmt (fmtStep strings place ch st).state).1,
        (observe strings (nextPlace place ch) fmt (fmtStep strings place ch st).state).2) := by
  rw [observe, formatText, fmtStep_place]
  rfl

/-- What is written depends on the two variables and on the arguments. -/
theorem observe_ofMods (strings : Strings) (place : Place) (fmt : List (BitVec 8)) (st : FmtState) :
    observe strings place fmt st = observe strings place fmt (.ofMods st.mods st.ap) := by
  induction fmt generalizing place st with
  | nil => cases place <;> rfl
  | cons ch fmt ih =>
      rw [observe_step, observe_step, fmtStep_text, ih, ih _ (fmtStep ..).state, fmtStep_mods,
        fmtStep_ap, fmtStep_mods, fmtStep_ap]
      rfl

/-- **One step, by the two variables and the arguments.** -/
theorem observe_cons (strings : Strings) (place : Place) (ch : BitVec 8) (fmt : List (BitVec 8))
    (m : Mods) (ap : VaList) :
    observe strings place (ch :: fmt) (.ofMods m ap) =
      ((fmtStep strings place ch (.ofMods m ap)).text ++
          (observe strings (nextPlace place ch) fmt
            (.ofMods (nextMods place ch m) (ap.drop (wordsRead place ch m)))).1,
        (observe strings (nextPlace place ch) fmt
          (.ofMods (nextMods place ch m) (ap.drop (wordsRead place ch m)))).2) := by
  rw [observe_step, observe_ofMods, fmtStep_mods, fmtStep_ap]
  rfl

/-! ### Using the variables alike -/

/-- A character of the format makes the same use of two values of the variables: an integer
conversion reads as many words and has the same width, or writes nothing for both; a string is
padded to the same width. -/
def SameUse : Place → BitVec 8 → Mods → Mods → Prop
  | .text, _, _, _ => True
  | .directive _, ch, m, m' =>
      match fmtCase ch with
      | .d | .o | .x | .u => (2 ≤ m.longflag ↔ 2 ≤ m'.longflag) ∧
          (m.width = m'.width ∨ m.width.toInt < 0 ∧ m'.width.toInt < 0)
      | .s => m.width = m'.width
      | _ => True

/-- The characters of a format make the same use of two values of the variables. -/
def Agree : Place → List (BitVec 8) → Mods → Mods → Prop
  | _, [], _, _ => True
  | place, ch :: fmt, m, m' =>
      SameUse place ch m m' ∧
        Agree (nextPlace place ch) fmt (nextMods place ch m) (nextMods place ch m')

theorem vaGet_congr (extend : BitVec 32 → BitVec 64) {k k' : ℕ} (h : 2 ≤ k ↔ 2 ≤ k')
    (ap : VaList) : vaGet extend k ap = vaGet extend k' ap := by
  rcases Nat.lt_or_ge k 2 with hk | hk
  · rw [vaGet_of_lt extend hk, vaGet_of_lt extend (by omega)]
  · rw [vaGet_of_ge extend hk, vaGet_of_ge extend (h.mp hk)]

/-- Nothing is written for a negative width. -/
theorem uintText_of_neg (neg : Bool) {width : BitVec 32} (h : width.toInt < 0) (base n : ℕ) :
    uintText neg width base n = [] := by
  have hne : width ≠ 0 := by
    rintro rfl
    exact absurd h (by decide)
  have hslt : ¬ BitVec.slt 0 width = true := by
    rw [BitVec.slt, decide_eq_true_iff]
    exact not_lt.mpr (le_of_lt h)
  rw [uintText, if_neg hne, if_neg hslt]

theorem uintText_congr (neg : Bool) {width width' : BitVec 32}
    (h : width = width' ∨ width.toInt < 0 ∧ width'.toInt < 0) (base n : ℕ) :
    uintText neg width base n = uintText neg width' base n := by
  rcases h with rfl | ⟨hneg, hneg'⟩
  · rfl
  · rw [uintText_of_neg neg hneg, uintText_of_neg neg hneg']

/-- An integer conversion that makes the same use of the variables writes the same. -/
theorem convertText_int (strings : Strings) {m m' : Mods} (hlong : 2 ≤ m.longflag ↔ 2 ≤ m'.longflag)
    (hwidth : m.width = m'.width ∨ m.width.toInt < 0 ∧ m'.width.toInt < 0) (ap : VaList)
    {k : FmtCase} (hk : k = .d ∨ k = .o ∨ k = .x ∨ k = .u) :
    convertText strings (.ofMods m ap) k = convertText strings (.ofMods m' ap) k := by
  have hint : getint (FmtState.ofMods m ap).longflag ap =
      getint (FmtState.ofMods m' ap).longflag ap := vaGet_congr _ hlong ap
  have huint : getuint (FmtState.ofMods m ap).longflag ap =
      getuint (FmtState.ofMods m' ap).longflag ap := vaGet_congr _ hlong ap
  have htext (neg : Bool) (base n : ℕ) :
      uintText neg (FmtState.ofMods m ap).width base n =
        uintText neg (FmtState.ofMods m' ap).width base n := uintText_congr neg hwidth base n
  rcases hk with rfl | rfl | rfl | rfl
  · rw [convertText, convertText, FmtState.ap_ofMods, FmtState.ap_ofMods, hint, intText, intText,
      htext]
  · rw [convertText, convertText, FmtState.ap_ofMods, FmtState.ap_ofMods, huint, htext]
  · rw [convertText, convertText, FmtState.ap_ofMods, FmtState.ap_ofMods, huint, htext]
  · rw [convertText, convertText, FmtState.ap_ofMods, FmtState.ap_ofMods, huint, htext]

/-- The same use has the same effect. -/
theorem step_of_sameUse (strings : Strings) {place : Place} {ch : BitVec 8} {m m' : Mods}
    (h : SameUse place ch m m') (ap : VaList) :
    (fmtStep strings place ch (.ofMods m ap)).text =
        (fmtStep strings place ch (.ofMods m' ap)).text ∧
      wordsRead place ch m = wordsRead place ch m' := by
  cases place with
  | text =>
      rw [fmtStep, fmtStep]
      exact ⟨by split <;> rfl, rfl⟩
  | directive inDigits =>
      rw [SameUse] at h
      rw [fmtStep, fmtStep, wordsRead, wordsRead]
      cases hcase : fmtCase ch with
      | zero => cases inDigits <;> exact ⟨rfl, rfl⟩
      | d | o | x | u =>
          rw [hcase] at h
          refine ⟨?_, if_congr h.1 rfl rfl⟩
          dsimp only
          apply convertText_int strings h.1 h.2 ap
          simp
      | s =>
          rw [hcase] at h
          exact ⟨congrArg (stringText · (stringArg strings ap.head)) h, rfl⟩
      | l | digit value | p | c | percent | other => exact ⟨rfl, rfl⟩

/-- A format that uses the variables alike writes the same, and reads as much. -/
theorem observe_of_agree (strings : Strings) {place : Place} {fmt : List (BitVec 8)} {m m' : Mods}
    (h : Agree place fmt m m') (ap : VaList) :
    observe strings place fmt (.ofMods m ap) = observe strings place fmt (.ofMods m' ap) := by
  induction fmt generalizing place m m' ap with
  | nil => cases place <;> rfl
  | cons ch fmt ih =>
      obtain ⟨huse, hrest⟩ := h
      obtain ⟨htext, hread⟩ := step_of_sameUse strings huse ap
      rw [observe_cons, observe_cons, htext, hread, ih hrest]

/-! ### Seeing a difference -/

/-- The arguments that a format leaves when it is scanned to its end. -/
theorem observe_rest (strings : Strings) {place : Place} {fmt : List (BitVec 8)}
    (h : fmt.foldl nextPlace place = .text) (m : Mods) (ap : VaList) :
    (observe strings place fmt (.ofMods m ap)).2 = some (ap.drop (wordsOf place fmt m)) := by
  induction fmt generalizing place m ap with
  | nil =>
      cases h
      rfl
  | cons ch fmt ih =>
      rw [observe_cons, ih h, Stream'.drop_drop]
      rfl

/-- The arguments show how many words have been read. -/
theorem drop_injective {a b : ℕ} (h : ∀ ap : VaList, ap.drop a = ap.drop b) : a = b := by
  have hhead := congrArg Stream'.head (h fun i => if i = a then 1 else 0)
  by_contra hne
  have hb : (if 0 + b = a then (1 : BitVec 32) else 0) = 0 := if_neg (by omega)
  have ha : (if 0 + a = a then (1 : BitVec 32) else 0) = 1 := if_pos (by omega)
  exact absurd ((ha.symm.trans hhead).trans hb) (by decide)

theorem uintText_length (width : BitVec 32) (base n : ℕ) :
    (uintText false width base n).length =
      if width = 0 then (lowDigits base n).length
      else if 0 < width.toInt then width.toInt.toNat else 0 := by
  rw [uintText]
  by_cases hzero : width = 0
  · rw [if_pos hzero, if_pos hzero]
    simp
  · rw [if_neg hzero, if_neg hzero]
    have hslt : BitVec.slt 0 width = true ↔ 0 < width.toInt := by
      rw [BitVec.slt, decide_eq_true_iff]
      rfl
    by_cases hpos : 0 < width.toInt
    · have hnat : width.toNat = width.toInt.toNat := by
        rw [toInt_eq_ite] at hpos ⊢
        have hlt := width.isLt
        split at hpos
        · rw [if_pos ‹_›]
          rfl
        · omega
      rw [if_pos (hslt.mpr hpos), if_pos hpos, hnat]
      simp
    · rw [if_neg (fun h => hpos (hslt.mp h)), if_neg hpos]
      rfl

/-- The texts of zero and of the base show the width, unless nothing is written. -/
theorem width_of_uintText {base : ℕ} (hbase : 2 ≤ base) {width width' : BitVec 32}
    (hzero : uintText false width base 0 = uintText false width' base 0)
    (hten : uintText false width base base = uintText false width' base base) :
    width = width' ∨ width.toInt < 0 ∧ width'.toInt < 0 := by
  have hlen₀ := congrArg List.length hzero
  have hlen₁ := congrArg List.length hten
  have hone : (lowDigits base 0).length = 1 := rfl
  have htwo : (lowDigits base base).length = 2 := by
    rw [lowDigits, if_neg (by omega), List.length_map, Nat.digits_def' (by omega) (by omega),
      Nat.div_self (by omega), Nat.digits_of_lt base 1 (by omega) (by omega)]
    rfl
  rw [uintText_length, uintText_length] at hlen₀ hlen₁
  rw [hone] at hlen₀
  rw [htwo] at hlen₁
  have heq : width = width' ↔ width.toInt = width'.toInt := BitVec.toInt_inj.symm
  have hz : width = 0 ↔ width.toInt = 0 := BitVec.toInt_inj.symm
  have hz' : width' = 0 ↔ width'.toInt = 0 := BitVec.toInt_inj.symm
  rw [heq]
  simp only [hz, hz'] at hlen₀ hlen₁
  split_ifs at hlen₀ hlen₁ <;> omega

/-- A string of so many characters. -/
def stringOf (n : ℕ) : CString :=
  ⟨List.replicate n (chr 'a'), fun h => absurd (List.eq_of_mem_replicate h) (by decide)⟩

theorem stringText_stringOf (width len : BitVec 32) :
    stringText width (stringOf len.toNat) =
      List.replicate len.toNat (chr 'a') ++
        List.replicate (width.toInt - len.toInt).toNat (chr ' ') := by
  rw [stringText, stringOf, List.length_replicate, BitVec.ofNat_toNat, BitVec.setWidth_eq]
  rfl

/-- Two formats that are padded to different widths are told apart by a string that is as long as
the one width and one that is as long as the other. -/
theorem width_le_of_string {width width' : BitVec 32} {rest rest' : Strings → List (BitVec 8)}
    (h : ∀ (strings : Strings) (p : BitVec 32), p ≠ 0 →
      stringText width (strings p) ++ rest strings =
        stringText width' (strings p) ++ rest' strings) :
    width'.toInt ≤ width.toInt := by
  by_contra hlt
  have hone : (1 : BitVec 32) ≠ 0 := by decide
  have htwo : (2 : BitVec 32) ≠ 0 := by decide
  have hlong := congrArg List.length
    (h (fun p => if p = 1 then stringOf width'.toNat else stringOf width.toNat) 1 hone)
  have hshort := congrArg List.length
    (h (fun p => if p = 1 then stringOf width'.toNat else stringOf width.toNat) 2 htwo)
  rw [if_pos rfl, stringText_stringOf, stringText_stringOf] at hlong
  rw [if_neg (by decide), stringText_stringOf, stringText_stringOf] at hshort
  simp only [List.length_append, List.length_replicate] at hlong hshort
  omega

/-- The arguments that pass a small value, whatever the type. -/
def passing (n : ℕ) : VaList := Stream'.cons (BitVec.ofNat 32 n) (Stream'.const 0)

theorem vaGet_passing {extend : BitVec 32 → BitVec 64} {n : ℕ} (hn : n < 2 ^ 32)
    (hextend : extend (BitVec.ofNat 32 n) = BitVec.ofNat 64 n) (k : ℕ) :
    (vaGet extend k (passing n)).1 = BitVec.ofNat 64 n := by
  rcases Nat.lt_or_ge k 2 with hk | hk
  · rw [vaGet_of_lt extend hk]
    exact hextend
  · rw [vaGet_of_ge extend hk]
    refine BitVec.eq_of_toNat_eq ?_
    have hword : ((0 : BitVec 32) ++ BitVec.ofNat 32 n : BitVec 64).toNat = n := by
      rw [BitVec.toNat_append, ← Nat.shiftLeft_add_eq_or_of_lt (BitVec.isLt _)]
      simp
      omega
    have hnat : (BitVec.ofNat 64 n).toNat = n := by
      rw [BitVec.toNat_ofNat]
      omega
    exact hword.trans hnat.symm

/-- An integer conversion writes the small value that is passed, in its base. -/
theorem convertText_passing (strings : Strings) {n : ℕ} (hn : n < 17) (m : Mods) {k : FmtCase}
    {base : ℕ}
    (hk : k = .d ∧ base = 10 ∨ k = .u ∧ base = 10 ∨ k = .o ∧ base = 8 ∨ k = .x ∧ base = 16) :
    convertText strings (.ofMods m (passing n)) k = uintText false m.width base n := by
  have hsign : ∀ n : Fin 17, (BitVec.ofNat 32 n).signExtend 64 = BitVec.ofNat 64 n := by decide
  have hzero : ∀ n : Fin 17, (BitVec.ofNat 32 n).setWidth 64 = BitVec.ofNat 64 n := by decide
  have hint : (getint (FmtState.ofMods m (passing n)).longflag (passing n)).1 = BitVec.ofNat 64 n :=
    vaGet_passing (by omega) (hsign ⟨n, hn⟩) _
  have huint : (getuint (FmtState.ofMods m (passing n)).longflag (passing n)).1 =
      BitVec.ofNat 64 n := vaGet_passing (by omega) (hzero ⟨n, hn⟩) _
  have hnat : (BitVec.ofNat 64 n).toNat = n := by
    rw [BitVec.toNat_ofNat]
    omega
  have hsigned : ∀ n : Fin 17, (BitVec.ofNat 64 n).slt 0 = false ∧
      (BitVec.ofNat 64 n).toInt.natAbs = n := by decide
  obtain ⟨hslt, habs⟩ := hsigned ⟨n, hn⟩
  simp only at hslt habs
  rcases hk with ⟨rfl, rfl⟩ | ⟨rfl, rfl⟩ | ⟨rfl, rfl⟩ | ⟨rfl, rfl⟩
  · rw [convertText, FmtState.ap_ofMods, hint, intText, hslt, habs]
    rfl
  · rw [convertText, FmtState.ap_ofMods, huint, hnat]
    rfl
  · rw [convertText, FmtState.ap_ofMods, huint, hnat]
    rfl
  · rw [convertText, FmtState.ap_ofMods, huint, hnat]
    rfl

/-- An integer conversion shows the width, unless nothing is written. -/
theorem width_of_convertText {m m' : Mods} {k : FmtCase} {base : ℕ}
    (hk : k = .d ∧ base = 10 ∨ k = .u ∧ base = 10 ∨ k = .o ∧ base = 8 ∨ k = .x ∧ base = 16)
    (h : ∀ strings ap, convertText strings (.ofMods m ap) k =
      convertText strings (.ofMods m' ap) k) :
    m.width = m'.width ∨ m.width.toInt < 0 ∧ m'.width.toInt < 0 := by
  have hbase : 2 ≤ base ∧ base < 17 := by
    rcases hk with h | h | h | h
    · omega
    · omega
    · omega
    · omega
  have hzero := h (fun _ => nullText) (passing 0)
  have hten := h (fun _ => nullText) (passing base)
  rw [convertText_passing _ (by omega) m hk, convertText_passing _ (by omega) m' hk] at hzero
  rw [convertText_passing _ hbase.2 m hk, convertText_passing _ hbase.2 m' hk] at hten
  exact width_of_uintText hbase.1 hzero hten

section Seen

variable {inDigits : Bool} {ch : BitVec 8} {fmt : List (BitVec 8)} {m m' : Mods}

theorem wordsOf_of_observe {place : Place} (hend : fmt.foldl nextPlace place = .text)
    (h : ∀ strings ap, observe strings place fmt (.ofMods m ap) =
      observe strings place fmt (.ofMods m' ap)) :
    wordsOf place fmt m = wordsOf place fmt m' := by
  refine drop_injective fun ap => ?_
  have hrest := congrArg Prod.snd (h (fun _ => nullText) ap)
  rw [observe_rest _ hend, observe_rest _ hend] at hrest
  exact Option.some.inj hrest

/-- What a conversion writes can be seen when it reads as much and leaves the same. -/
theorem text_of_observe {place : Place}
    (h : ∀ strings ap, observe strings place (ch :: fmt) (.ofMods m ap) =
      observe strings place (ch :: fmt) (.ofMods m' ap))
    (hmods : nextMods place ch m = nextMods place ch m')
    (hread : wordsRead place ch m = wordsRead place ch m') (strings : Strings) (ap : VaList) :
    (fmtStep strings place ch (.ofMods m ap)).text =
      (fmtStep strings place ch (.ofMods m' ap)).text := by
  have hout := congrArg Prod.fst (h strings ap)
  rw [observe_cons, observe_cons, hmods, hread] at hout
  exact List.append_cancel_right hout

/-- The use that an integer conversion makes of the variables can be seen. -/
theorem int_of_observe {k : FmtCase} {base : ℕ}
    (hk : k = .d ∧ base = 10 ∨ k = .u ∧ base = 10 ∨ k = .o ∧ base = 8 ∨ k = .x ∧ base = 16)
    (hcase : fmtCase ch = k) (hend : (ch :: fmt).foldl nextPlace (.directive inDigits) = .text)
    (h : ∀ strings ap, observe strings (.directive inDigits) (ch :: fmt) (.ofMods m ap) =
      observe strings (.directive inDigits) (ch :: fmt) (.ofMods m' ap)) :
    (2 ≤ m.longflag ↔ 2 ≤ m'.longflag) ∧
      (m.width = m'.width ∨ m.width.toInt < 0 ∧ m'.width.toInt < 0) := by
  have hmods (m : Mods) : nextMods (.directive inDigits) ch m = ⟨0, 0⟩ := by
    rw [nextMods, hcase]
    rcases hk with ⟨rfl, -⟩ | ⟨rfl, -⟩ | ⟨rfl, -⟩ | ⟨rfl, -⟩ <;> rfl
  have hread (m : Mods) :
      wordsRead (.directive inDigits) ch m = if 2 ≤ m.longflag then 2 else 1 := by
    rw [wordsRead, hcase]
    rcases hk with ⟨rfl, -⟩ | ⟨rfl, -⟩ | ⟨rfl, -⟩ | ⟨rfl, -⟩ <;> rfl
  have htext (strings : Strings) (m : Mods) (ap : VaList) :
      (fmtStep strings (.directive inDigits) ch (.ofMods m ap)).text =
        convertText strings (.ofMods m ap) k := by
    rw [fmtStep, hcase]
    rcases hk with ⟨rfl, -⟩ | ⟨rfl, -⟩ | ⟨rfl, -⟩ | ⟨rfl, -⟩ <;> rfl
  have hwords := wordsOf_of_observe hend h
  rw [wordsOf, wordsOf, hmods, hmods, hread, hread] at hwords
  refine ⟨by split_ifs at hwords <;> omega, width_of_convertText hk fun strings ap => ?_⟩
  rw [← htext, ← htext]
  refine text_of_observe h ((hmods m).trans (hmods m').symm) ?_ strings ap
  rw [hread, hread]
  omega

/-- The width of a string can be seen. -/
theorem string_le_of_observe (hcase : fmtCase ch = .s)
    (h : ∀ strings ap, observe strings (.directive inDigits) (ch :: fmt) (.ofMods m ap) =
      observe strings (.directive inDigits) (ch :: fmt) (.ofMods m' ap)) :
    m'.width.toInt ≤ m.width.toInt := by
  have hread (m : Mods) : wordsRead (.directive inDigits) ch m = 1 := by rw [wordsRead, hcase]
  have htext (strings : Strings) (m : Mods) (p : BitVec 32) (hp : p ≠ 0) :
      (fmtStep strings (.directive inDigits) ch
        (.ofMods m (Stream'.cons p (Stream'.const 0)))).text = stringText m.width (strings p) := by
    rw [fmtStep, hcase]
    exact congrArg (stringText m.width) (if_neg hp)
  have hout (strings : Strings) (p : BitVec 32) (hp : p ≠ 0) :
      stringText m.width (strings p) ++
          (observe strings (nextPlace (.directive inDigits) ch) fmt
            (.ofMods (nextMods (.directive inDigits) ch m) (Stream'.const 0))).1 =
        stringText m'.width (strings p) ++
          (observe strings (nextPlace (.directive inDigits) ch) fmt
            (.ofMods (nextMods (.directive inDigits) ch m') (Stream'.const 0))).1 := by
    have heq := congrArg Prod.fst (h strings (Stream'.cons p (Stream'.const 0)))
    rw [observe_cons, observe_cons, htext strings m p hp, htext strings m' p hp, hread,
      hread] at heq
    exact heq
  exact width_le_of_string hout

end Seen

/-- **The use that a character makes of the variables can be seen.** -/
theorem sameUse_of_observe {place : Place} {ch : BitVec 8} {fmt : List (BitVec 8)} {m m' : Mods}
    (hend : (ch :: fmt).foldl nextPlace place = .text)
    (h : ∀ strings ap, observe strings place (ch :: fmt) (.ofMods m ap) =
      observe strings place (ch :: fmt) (.ofMods m' ap)) : SameUse place ch m m' := by
  cases place with
  | text => trivial
  | directive inDigits =>
      rw [SameUse]
      cases hcase : fmtCase ch with
      | d => exact int_of_observe (.inl ⟨rfl, rfl⟩) hcase hend h
      | u => exact int_of_observe (.inr (.inl ⟨rfl, rfl⟩)) hcase hend h
      | o => exact int_of_observe (.inr (.inr (.inl ⟨rfl, rfl⟩))) hcase hend h
      | x => exact int_of_observe (.inr (.inr (.inr ⟨rfl, rfl⟩))) hcase hend h
      | s =>
          have hle := string_le_of_observe hcase h
          have hge := string_le_of_observe hcase fun strings ap => (h strings ap).symm
          exact BitVec.toInt_inj.mp (le_antisymm hge hle)
      | l | zero | digit value | p | c | percent | other => trivial

/-- Arguments of which so many words have been read are any arguments. -/
theorem exists_drop_eq (n : ℕ) (ap : VaList) :
    ∃ words : List (BitVec 32), (Stream'.appendStream' words ap).drop n = ap := by
  refine ⟨List.replicate n 0, ?_⟩
  have hdrop := Stream'.drop_append_stream (List.replicate n 0) ap
  rwa [List.length_replicate] at hdrop

/-- What stands behind a character that makes the same use of the variables cannot be told apart
either. -/
theorem observe_tail {place : Place} {ch : BitVec 8} {fmt : List (BitVec 8)} {m m' : Mods}
    (huse : SameUse place ch m m')
    (h : ∀ strings ap, observe strings place (ch :: fmt) (.ofMods m ap) =
      observe strings place (ch :: fmt) (.ofMods m' ap)) (strings : Strings) (ap : VaList) :
    observe strings (nextPlace place ch) fmt (.ofMods (nextMods place ch m) ap) =
      observe strings (nextPlace place ch) fmt (.ofMods (nextMods place ch m') ap) := by
  obtain ⟨words, hdrop⟩ := exists_drop_eq (wordsRead place ch m) ap
  obtain ⟨htext, hread⟩ := step_of_sameUse strings huse (Stream'.appendStream' words ap)
  have heq := h strings (Stream'.appendStream' words ap)
  rw [observe_cons, observe_cons, htext, ← hread, hdrop] at heq
  obtain ⟨hout, hrest⟩ := Prod.mk.inj heq
  exact Prod.ext (List.append_cancel_left hout) hrest

/-- **No difference can be seen only where the variables are used alike.** -/
theorem agree_of_observe {place : Place} {fmt : List (BitVec 8)} {m m' : Mods}
    (hend : fmt.foldl nextPlace place = .text)
    (h : ∀ strings ap, observe strings place fmt (.ofMods m ap) =
      observe strings place fmt (.ofMods m' ap)) : Agree place fmt m m' := by
  induction fmt generalizing place m m' with
  | nil => trivial
  | cons ch fmt ih =>
      have huse := sameUse_of_observe hend h
      exact ⟨huse, ih hend fun strings ap => observe_tail huse h strings ap⟩

/-! ### Composition -/

/-- One string behind the other. -/
def CString.append (s s' : CString) : CString :=
  ⟨s.chars ++ s'.chars, fun h => (List.mem_append.mp h).elim s.no_nul s'.no_nul⟩

/-- **Two formats one behind the other do what they do for themselves**: for the arguments of the
first, followed by those of the second, they write the one output and then the other. -/
def Composes (f g : CString) : Prop :=
  ∀ (strings : Strings) (ap : VaList), ∃ out rest out' rest',
    unlimited strings f ap = .ok (out, rest) ∧ unlimited strings g rest = .ok (out', rest') ∧
      unlimited strings (f.append g) ap = .ok (out ++ out', rest')

/-- What a format leaves. -/
theorem formatText_left (strings : Strings) {place : Place} {fmt : List (BitVec 8)}
    {st st' : FmtState} {out : List (BitVec 8)}
    (h : formatText strings place fmt st = (out, some st')) :
    st'.mods = leftMods place fmt st.mods ∧ st'.ap = st.ap.drop (wordsOf place fmt st.mods) := by
  induction fmt generalizing place st out with
  | nil =>
      cases place with
      | text =>
          cases h
          exact ⟨rfl, rfl⟩
      | directive inDigits => cases h
  | cons ch fmt ih =>
      rw [formatText, fmtStep_place] at h
      obtain ⟨hmods, hap⟩ := ih (Prod.ext rfl (Prod.mk.inj h).2)
      rw [fmtStep_mods] at hmods hap
      rw [fmtStep_ap, Stream'.drop_drop] at hap
      exact ⟨hmods, hap⟩

/-- A complete format for itself, by what can be seen. -/
theorem unlimited_observe (strings : Strings) {fmt : CString} (hfmt : Complete fmt) (ap : VaList) :
    ∃ out rest, unlimited strings fmt ap = .ok (out, rest) ∧
      observe strings .text fmt.chars (.ofMods ⟨0, 0⟩ ap) = (out, some rest) := by
  obtain ⟨st, htext, hunlimited⟩ := unlimited_of_complete strings hfmt ap
  refine ⟨_, _, hunlimited, ?_⟩
  have hstart : FmtState.ofMods ⟨0, 0⟩ ap = FmtState.start ap := rfl
  rw [hstart, observe, htext]
  rfl

/-- A complete format behind another one, by what can be seen. -/
theorem unlimited_append (strings : Strings) {f g : CString} (hf : Complete f) (hg : Complete g)
    (ap : VaList) :
    ∃ out rest out' rest', unlimited strings f ap = .ok (out, rest) ∧
      rest = ap.drop (wordsOf .text f.chars ⟨0, 0⟩) ∧
      unlimited strings (f.append g) ap = .ok (out ++ out', rest') ∧
      observe strings .text g.chars (.ofMods (leftMods .text f.chars ⟨0, 0⟩) rest) =
        (out', some rest') := by
  obtain ⟨st, htext, hunlimited⟩ := unlimited_of_complete strings hf ap
  obtain ⟨hmods, hap⟩ := formatText_left strings htext
  have hsome := (formatText_isSome strings .text g.chars st).mpr ((complete_iff g).mp hg)
  obtain ⟨st', hst'⟩ := Option.isSome_iff_exists.mp hsome
  refine ⟨_, _, (formatText strings .text g.chars st).1, st'.ap, hunlimited, hap, ?_, ?_⟩
  · have happend : formatText strings .text (f.append g).chars (.start ap) =
        (_, (formatText strings .text g.chars st).2) := formatText_append htext g.chars
    rw [unlimited_eq, happend, hst']
  · have hleft : leftMods .text f.chars ⟨0, 0⟩ = st.mods := hmods.symm
    rw [hleft, ← observe_ofMods, observe, hst']
    rfl

/-- The two formats compose when the second writes the same behind the first as for itself. -/
theorem composes_iff_observe {f g : CString} (hf : Complete f) (hg : Complete g) :
    Composes f g ↔ ∀ strings ap,
      observe strings .text g.chars (.ofMods (leftMods .text f.chars ⟨0, 0⟩) ap) =
        observe strings .text g.chars (.ofMods ⟨0, 0⟩ ap) := by
  constructor
  · intro h strings ap
    -- arguments of which the first format leaves the given ones
    obtain ⟨words, hwords⟩ := exists_drop_eq (wordsOf .text f.chars ⟨0, 0⟩) ap
    obtain ⟨out, rest, out', rest', hfirst, hrest, hboth, hseen⟩ :=
      unlimited_append strings hf hg (Stream'.appendStream' words ap)
    rw [hwords] at hrest
    subst hrest
    obtain ⟨out₁, rest₁, out₂, rest₂, hfirst', hsecond, hboth'⟩ :=
      h strings (Stream'.appendStream' words rest)
    obtain ⟨rfl, rfl⟩ := Prod.mk.inj (Except.ok.inj (hfirst.symm.trans hfirst'))
    obtain ⟨hout, rfl⟩ := Prod.mk.inj (Except.ok.inj (hboth.symm.trans hboth'))
    obtain rfl := List.append_cancel_left hout
    obtain ⟨out₃, rest₃, hsecond', hseen'⟩ := unlimited_observe strings hg rest
    obtain ⟨rfl, rfl⟩ := Prod.mk.inj (Except.ok.inj (hsecond.symm.trans hsecond'))
    rw [hseen, hseen']
  · intro h strings ap
    obtain ⟨out, rest, out', rest', hfirst, -, hboth, hseen⟩ :=
      unlimited_append strings hf hg ap
    obtain ⟨out₂, rest₂, hsecond, hseen'⟩ := unlimited_observe strings hg rest
    rw [h, hseen'] at hseen
    obtain ⟨rfl, hrest⟩ := Prod.mk.inj hseen
    obtain rfl := Option.some.inj hrest
    exact ⟨out, rest, out₂, rest₂, hfirst, hsecond, hboth⟩

/-- **When formatting is compositional**: when the second format makes the same use of the variables
that the first one leaves as of cleared ones. -/
theorem composes_iff {f g : CString} (hf : Complete f) (hg : Complete g) :
    Composes f g ↔ Agree .text g.chars (leftMods .text f.chars ⟨0, 0⟩) ⟨0, 0⟩ := by
  rw [composes_iff_observe hf hg]
  constructor
  · exact agree_of_observe ((complete_iff g).mp hg)
  · exact fun h strings ap => observe_of_agree strings h ap

/-- `"%s"` and `"%d"`. -/
theorem composes_iff_string :
    Composes ⟨[chr '%', chr 's'], by decide⟩ ⟨[chr '%', chr 'd'], by decide⟩ ↔
      Agree .text [chr '%', chr 'd'] (leftMods .text [chr '%', chr 's'] ⟨0, 0⟩) ⟨0, 0⟩ :=
  composes_iff ((complete_iff _).mpr (by decide)) ((complete_iff _).mpr (by decide))

/-- The width of the unknown conversion `"%5q"` is used by `"%d"`, which writes `00007`. -/
theorem not_composes_unknown :
    ¬ ∀ f g : CString, Complete f → Complete g → Composes f g := by
  intro h
  obtain ⟨out, rest, out', rest', hfirst, hsecond, hboth⟩ :=
    h ⟨[chr '%', chr '5', chr 'q'], by decide⟩ ⟨[chr '%', chr 'd'], by decide⟩
      ((complete_iff _).mpr (by decide)) ((complete_iff _).mpr (by decide)) (fun _ => nullText)
      (passing 7)
  have hout : out = [chr '%', chr 'q'] ∧ rest = passing 7 :=
    ⟨(Prod.mk.inj (Except.ok.inj hfirst)).1.symm, (Prod.mk.inj (Except.ok.inj hfirst)).2.symm⟩
  rw [hout.2] at hsecond
  have hout' : out' = [chr '7'] := (Prod.mk.inj (Except.ok.inj hsecond)).1.symm
  have hlen := congrArg List.length (Prod.mk.inj (Except.ok.inj hboth)).1
  rw [hout.1, hout'] at hlen
  exact absurd hlen (by decide)

end Aim
