/-
**Copying bytes and strings.**

`memmove` copies between ranges that may overlap: it goes up when the destination is below the
source, and down when it is above, so that no byte is read after it was written.  `strlcpy` copies
at most as many characters as the size of the destination, and puts the terminating zero behind the
last one that it copied; when the source does not fit, that is behind the destination.

Main definitions:

* `Aim.CMem.memmove`, `Aim.CMem.strlcpy` — `memmove.c` and `strlcpy.c`;
* `Aim.CMem.initdev` — `initdev` of `device.c`, which copies the name of a device;
* `Aim.CMem.Moved` — what copying changes;
* `Aim.CMem.CopiesString` — the law of `strlcpy`.

Main results:

* `Aim.CMem.copyUp_spec`, `Aim.CMem.copyDown_spec` — the two loops of `memmove`;
* `Aim.memmove_moves` — **`memmove` copies what was there, whatever the ranges**;
* `Aim.CMem.strlcpyLoop_spec` — the loop of `strlcpy`;
* `Aim.strlcpy_in_bounds_iff` — **`strlcpy` does what it should exactly when the source fits.**
-/

import AimKernel.ByteMemory
import AimKernel.CMemory

set_option relaxedAutoImplicit false
set_option autoImplicit false

namespace Aim

namespace CMem

/-! ### `memmove.c` -/

/-- `while (n--) *pdest++ = *psrc++`. -/
def copyUp : ℕ → CMem → Ptr → Ptr → Except CFault CMem
  | 0, m, _, _ => .ok m
  | n + 1, m, pdest, psrc => do
      let c ← m.read psrc
      let m ← m.write pdest c
      copyUp n m (pdest + 1) (psrc + 1)

/-- `while (n--) *--pdest = *--psrc`. -/
def copyDown : ℕ → CMem → Ptr → Ptr → Except CFault CMem
  | 0, m, _, _ => .ok m
  | n + 1, m, pdest, psrc => do
      let c ← m.read (psrc - 1)
      let m ← m.write (pdest - 1) c
      copyDown n m (pdest - 1) (psrc - 1)

/-- `memmove(dest, src, n)`: what it returns, and the memory. -/
def memmove (m : CMem) (dest src : Ptr) (n : BitVec 32) : Except CFault (Ptr × CMem) := do
  let m ←
    if dest < src then copyUp n.toNat m dest src
    else if dest > src then copyDown n.toNat m (dest + n) (src + n)
    else .ok m
  return (dest, m)

/-! ### `strlcpy.c` -/

/-- `while (dsize-- && *src) *dst++ = *src++`: the memory, and where `dst` is then. -/
def strlcpyLoop : ℕ → CMem → Ptr → Ptr → Except CFault (CMem × Ptr)
  | 0, m, dst, _ => .ok (m, dst)
  | dsize + 1, m, dst, src => do
      let c ← m.read src
      if c ≠ 0 then do
        let m ← m.write dst c
        strlcpyLoop dsize m (dst + 1) (src + 1)
      else return (m, dst)

/-- `strlcpy(dst, src, dsize)`: what it returns, and the memory. -/
def strlcpy (m : CMem) (dst src : Ptr) (dsize : BitVec 32) : Except CFault (BitVec 32 × CMem) := do
  let ret ← m.strlen src
  if dsize ≠ 0 then do
    let (m, dst) ← strlcpyLoop dsize.toNat m dst src
    let m ← m.write dst 0
    return (ret, m)
  else return (ret, m)

/-! ### `initdev` -/

/-- `*p = v`, of an `int` or a pointer. -/
def writeInt (m : CMem) (p : Ptr) (v : BitVec 32) : Except CFault CMem :=
  (List.range 4).foldlM (fun m i => m.write (cellAt p i) (v.extractLsb' (8 * i) 8)) m

/-- The size of the `struct driver` of a class. -/
def driverSize (cls : BitVec 32) : Except CFault (BitVec 32) :=
  if cls = 0 then .ok 20
  else if cls = 1 then .ok 36
  else if cls = 2 then .ok 24
  else if cls = 3 then .ok 20
  else if cls = 4 then .ok 32
  else .error .panic

/-- `initdev(dev, class, devname, devno, drv)`; `driver` is `&dev->driver`, which the compiler
places. -/
def initdev (m : CMem) (dev : Ptr) (cls : BitVec 32) (devname : Ptr) (devno : BitVec 32)
    (drv driver : Ptr) : Except CFault CMem := do
  let m ← m.writeInt (cellAt dev 64) cls
  let m ← m.writeInt (cellAt dev 68) devno
  let named ← m.strlcpy dev devname 64
  let sz ← driverSize cls
  let moved ← named.2.memmove driver drv sz
  return moved.2

/-! ### What copying changes -/

/-- `n` bytes were copied as they were, and nothing else was changed. -/
structure Moved (m m' : CMem) (dest src : Ptr) (n : ℕ) : Prop where
  copied : ∀ i < n, m' (cellAt dest i) = m (cellAt src i)
  kept : ∀ a, (∀ i < n, a ≠ cellAt dest i) → m' a = m a

variable {m m' : CMem} {dest src : Ptr}

theorem Moved.refl (m : CMem) (dest src : Ptr) : Moved m m dest src 0 :=
  ⟨fun i hi => absurd hi (Nat.not_lt_zero i), fun _ _ => rfl⟩

/-- The lowest byte is copied first. -/
theorem Moved.cons {n : ℕ} {c : BitVec 8} (hc : m src = some c)
    (hread : ∀ i < n, cellAt src (i + 1) ≠ dest) (hn : n < 2 ^ 32)
    (h : Moved (Function.update m dest (some c)) m' (dest + 1) (src + 1) n) :
    Moved m m' dest src (n + 1) := by
  constructor
  · intro i hi
    cases i with
    | zero =>
        rw [cellAt_zero, cellAt_zero, h.kept dest fun j hj => ?_, Function.update_self, hc]
        have hne := cellAt_ne (p := dest) (i := 0) (j := j + 1) (by omega) (by omega) (by omega)
        rwa [cellAt_zero, ← cellAt_one_add] at hne
    | succ i =>
        have hcopied := h.copied i (Nat.lt_of_succ_lt_succ hi)
        rw [cellAt_one_add, cellAt_one_add,
          Function.update_of_ne (hread i (Nat.lt_of_succ_lt_succ hi))] at hcopied
        exact hcopied
  · intro a ha
    rw [h.kept a fun i hi => ?_, Function.update_of_ne ?_]
    · have hfirst := ha 0 (Nat.zero_lt_succ n)
      rwa [cellAt_zero] at hfirst
    · rw [cellAt_one_add]
      exact ha (i + 1) (Nat.succ_lt_succ hi)

/-- The highest byte is copied first. -/
theorem Moved.snoc {n : ℕ} {c : BitVec 8} (hc : m (cellAt src n) = some c)
    (hread : ∀ i < n, cellAt src i ≠ cellAt dest n) (hn : n < 2 ^ 32)
    (h : Moved (Function.update m (cellAt dest n) (some c)) m' dest src n) :
    Moved m m' dest src (n + 1) := by
  constructor
  · intro i hi
    rcases Nat.lt_succ_iff_lt_or_eq.mp hi with hlt | rfl
    · rw [h.copied i hlt, Function.update_of_ne (hread i hlt)]
    · rw [h.kept _ fun j hj => cellAt_ne hn (by omega) (by omega), Function.update_self, hc]
  · intro a ha
    rw [h.kept a fun i hi => ha i (Nat.lt_succ_of_lt hi),
      Function.update_of_ne (ha n (Nat.lt_succ_self n))]

/-! ### The loops of `memmove` -/

/-- **Going up**, when no byte is read after it was written. -/
theorem copyUp_spec (n : ℕ) :
    ∀ {m : CMem} {dest src : Ptr}, m.HasBytes src n → m.HasBytes dest n → n ≤ 2 ^ 32 →
      (∀ i < n, ∀ j < i, cellAt src i ≠ cellAt dest j) →
      ∃ m', copyUp n m dest src = .ok m' ∧ Moved m m' dest src n := by
  induction n with
  | zero =>
      intro m dest src _ _ _ _
      exact ⟨m, rfl, Moved.refl m dest src⟩
  | succ n ih =>
      intro m dest src hsrc hdest hn hclean
      have hfirst := hsrc 0 (Nat.zero_lt_succ n)
      have hplace := hdest 0 (Nat.zero_lt_succ n)
      rw [cellAt_zero] at hfirst hplace
      obtain ⟨c, hc⟩ := Option.isSome_iff_exists.mp hfirst
      have hsrc' : HasBytes (Function.update m dest (some c)) (src + 1) n := by
        intro i hi
        rw [isSome_update hplace, cellAt_one_add]
        exact hsrc (i + 1) (Nat.succ_lt_succ hi)
      have hdest' : HasBytes (Function.update m dest (some c)) (dest + 1) n := by
        intro i hi
        rw [isSome_update hplace, cellAt_one_add]
        exact hdest (i + 1) (Nat.succ_lt_succ hi)
      have hclean' : ∀ i < n, ∀ j < i, cellAt (src + 1) i ≠ cellAt (dest + 1) j := by
        intro i hi j hj
        rw [cellAt_one_add, cellAt_one_add]
        exact hclean (i + 1) (Nat.succ_lt_succ hi) (j + 1) (Nat.succ_lt_succ hj)
      obtain ⟨m', hrun, hmoved⟩ := ih hsrc' hdest' (Nat.le_of_succ_le hn) hclean'
      refine ⟨m', ?_, Moved.cons hc (fun i hi => ?_) hn hmoved⟩
      · rw [copyUp, read_eq hc, ok_bind, write_eq hplace, ok_bind]
        exact hrun
      · have hne := hclean (i + 1) (Nat.succ_lt_succ hi) 0 (Nat.zero_lt_succ i)
        rwa [cellAt_zero] at hne

/-- **Going down**, when no byte is read after it was written. -/
theorem copyDown_spec (n : ℕ) :
    ∀ {m : CMem} {dest src : Ptr}, m.HasBytes src n → m.HasBytes dest n → n ≤ 2 ^ 32 →
      (∀ j < n, ∀ i < j, cellAt src i ≠ cellAt dest j) →
      ∃ m', copyDown n m (cellAt dest n) (cellAt src n) = .ok m' ∧ Moved m m' dest src n := by
  induction n with
  | zero =>
      intro m dest src _ _ _ _
      exact ⟨m, rfl, Moved.refl m dest src⟩
  | succ n ih =>
      intro m dest src hsrc hdest hn hclean
      have hplace := hdest n (Nat.lt_succ_self n)
      obtain ⟨c, hc⟩ := Option.isSome_iff_exists.mp (hsrc n (Nat.lt_succ_self n))
      have hsrc' : HasBytes (Function.update m (cellAt dest n) (some c)) src n := by
        intro i hi
        rw [isSome_update hplace]
        exact hsrc i (Nat.lt_succ_of_lt hi)
      have hdest' : HasBytes (Function.update m (cellAt dest n) (some c)) dest n := by
        intro i hi
        rw [isSome_update hplace]
        exact hdest i (Nat.lt_succ_of_lt hi)
      obtain ⟨m', hrun, hmoved⟩ := ih hsrc' hdest' (Nat.le_of_succ_le hn)
        fun j hj => hclean j (Nat.lt_succ_of_lt hj)
      refine ⟨m', ?_, Moved.snoc hc (hclean n (Nat.lt_succ_self n)) hn hmoved⟩
      rw [copyDown, cellAt_succ_sub_one, cellAt_succ_sub_one, read_eq hc, ok_bind,
        write_eq hplace, ok_bind]
      exact hrun

/-- What `memmove` does. -/
theorem memmove_spec {n : BitVec 32} (hdest : dest.toNat + n.toNat ≤ 2 ^ 32)
    (hsrc : src.toNat + n.toNat ≤ 2 ^ 32) (hread : m.HasBytes src n.toNat)
    (hwrite : m.HasBytes dest n.toNat) :
    ∃ m', m.memmove dest src n = .ok (dest, m') ∧ Moved m m' dest src n.toNat := by
  have hn := n.isLt
  have hends : ∀ p : Ptr, p + n = cellAt p n.toNat := by
    intro p
    rw [cellAt, BitVec.ofNat_toNat, BitVec.setWidth_eq]
  rcases lt_trichotomy dest.toNat src.toNat with hbelow | hsame | habove
  · -- the destination is below: a byte is written before those above it are read
    obtain ⟨m', hrun, hmoved⟩ := copyUp_spec n.toNat hread hwrite (by omega) fun i hi j hj heq => by
      have hnat := congrArg BitVec.toNat heq
      rw [toNat_cellAt hsrc hi, toNat_cellAt hdest (by omega)] at hnat
      omega
    refine ⟨m', ?_, hmoved⟩
    rw [memmove, if_pos (show dest < src from hbelow), hrun]
    rfl
  · have heq : dest = src := BitVec.eq_of_toNat_eq hsame
    subst heq
    have hirrefl : ¬ dest < dest := Nat.lt_irrefl _
    refine ⟨m, ?_, fun i _ => rfl, fun a _ => rfl⟩
    rw [memmove, if_neg hirrefl, if_neg hirrefl]
    rfl
  · -- the destination is above: the bytes below are read later
    obtain ⟨m', hrun, hmoved⟩ := copyDown_spec n.toNat hread hwrite (by omega)
      fun j hj i hi heq => by
        have hnat := congrArg BitVec.toNat heq
        rw [toNat_cellAt hsrc (by omega), toNat_cellAt hdest hj] at hnat
        omega
    refine ⟨m', ?_, hmoved⟩
    rw [memmove, if_neg (show ¬ dest < src from Nat.lt_asymm habove),
      if_pos (show dest > src from habove), hends, hends, hrun]
    rfl

/-! ### The loop of `strlcpy` -/

/-- **The loop of `strlcpy`** copies characters, up to the zero or to the size. -/
theorem strlcpyLoop_spec (n : ℕ) :
    ∀ {m : CMem} {dst src : Ptr} (xs : List (BitVec 8)), n < 2 ^ 32 → (0 : BitVec 8) ∉ xs →
      m.Holds src (xs ++ [0]) → m.HasBytes dst (min xs.length n) →
      (∀ i < min xs.length n, ∀ j < xs.length + 1, cellAt src j ≠ cellAt dst i) →
      ∃ m', strlcpyLoop n m dst src = .ok (m', cellAt dst (min xs.length n)) ∧
        Moved m m' dst src (min xs.length n) := by
  induction n with
  | zero =>
      intro m dst src xs _ _ _ _ _
      rw [Nat.min_zero, cellAt_zero]
      exact ⟨m, rfl, Moved.refl m dst src⟩
  | succ n ih =>
      intro m dst src xs hn hnul hholds hdst hapart
      cases xs with
      | nil =>
          rw [strlcpyLoop, read_eq hholds.1, ok_bind, if_neg (not_not.mpr rfl), List.length_nil,
            Nat.zero_min, cellAt_zero]
          exact ⟨m, rfl, Moved.refl m dst src⟩
      | cons c xs =>
          rw [List.mem_cons, not_or] at hnul
          rw [List.length_cons, Nat.add_min_add_right] at hdst hapart ⊢
          have hplace := hdst 0 (Nat.zero_lt_succ _)
          rw [cellAt_zero] at hplace
          have hne : ∀ j < xs.length + 1, cellAt src (j + 1) ≠ dst := by
            intro j hj
            have hfirst := hapart 0 (Nat.zero_lt_succ _) (j + 1) (Nat.succ_lt_succ hj)
            rwa [cellAt_zero] at hfirst
          have hholds' : Holds (Function.update m dst (some c)) (src + 1) (xs ++ [0]) := by
            refine Holds.congr hholds.2 fun i hi => ?_
            rw [List.length_append] at hi
            rw [cellAt_one_add, Function.update_of_ne (hne i hi)]
          have hdst' : HasBytes (Function.update m dst (some c)) (dst + 1) (min xs.length n) := by
            intro i hi
            rw [isSome_update hplace, cellAt_one_add]
            exact hdst (i + 1) (Nat.succ_lt_succ hi)
          obtain ⟨m', hrun, hmoved⟩ := ih xs (Nat.lt_of_succ_lt hn) hnul.2 hholds' hdst'
            fun i hi j hj => by
              rw [cellAt_one_add, cellAt_one_add]
              exact hapart (i + 1) (Nat.succ_lt_succ hi) (j + 1) (Nat.succ_lt_succ hj)
          rw [strlcpyLoop, read_eq hholds.1, ok_bind, if_pos (Ne.symm hnul.1), write_eq hplace,
            ok_bind]
          rw [cellAt_one_add] at hrun
          exact ⟨m', hrun, Moved.cons hholds.1 (fun i hi => hne i (by omega)) (by omega) hmoved⟩

/-! ### The law of `strlcpy` -/

/-- **The law of `strlcpy`**: the characters that have room are copied, a zero is behind them, and
nothing else is changed. -/
def CopiesString (m : CMem) (dst src : Ptr) (s : CString) (dsize : BitVec 32) : Prop :=
  ∃ m', m.strlcpy dst src dsize = .ok (BitVec.ofNat 32 s.chars.length, m') ∧
    (0 < dsize.toNat →
      (∀ i < min s.chars.length (dsize.toNat - 1), m' (cellAt dst i) = s.chars[i]?) ∧
        m' (cellAt dst (min s.chars.length (dsize.toNat - 1))) = some 0) ∧
    ∀ a, (∀ i < dsize.toNat, a ≠ cellAt dst i) → m' a = m a

variable {dst : Ptr} {s : CString} {dsize : BitVec 32}

/-- What `strlcpy` does: the loop, and the zero behind it. -/
theorem strlcpy_eq (hs : m.StringAt src s) (hsize : dsize ≠ 0)
    (hdst : m.HasBytes dst dsize.toNat)
    (hapart : ∀ i < dsize.toNat, ∀ j ≤ s.chars.length, cellAt src j ≠ cellAt dst i) :
    ∃ m₁, Moved m m₁ dst src (min s.chars.length dsize.toNat) ∧
      m.strlcpy dst src dsize =
        (m₁.write (cellAt dst (min s.chars.length dsize.toNat)) 0 >>= fun m' =>
          .ok (BitVec.ofNat 32 s.chars.length, m')) := by
  obtain ⟨m₁, hrun, hmoved⟩ := strlcpyLoop_spec dsize.toNat s.chars dsize.isLt s.no_nul hs
    (fun i hi => hdst i (by omega)) (fun i hi j hj => hapart i (by omega) j (by omega))
  refine ⟨m₁, hmoved, ?_⟩
  rw [strlcpy, strlen_spec hs, ok_bind, if_pos hsize, hrun]
  rfl

/-- **The source fits.** -/
theorem strlcpy_short (hs : m.StringAt src s) (hdst : m.HasBytes dst dsize.toNat)
    (hapart : ∀ i < dsize.toNat, ∀ j ≤ s.chars.length, cellAt src j ≠ cellAt dst i)
    (hfits : s.chars.length < dsize.toNat) : m.CopiesString dst src s dsize := by
  have hsize : dsize ≠ 0 := by
    rintro rfl
    exact absurd hfits (Nat.not_lt_zero _)
  have hn := dsize.isLt
  obtain ⟨m₁, hmoved, hrun⟩ := strlcpy_eq hs hsize hdst hapart
  have hmin : min s.chars.length dsize.toNat = s.chars.length := by omega
  have hroom : min s.chars.length (dsize.toNat - 1) = s.chars.length := by omega
  rw [hmin] at hmoved hrun
  have hplace : (m₁ (cellAt dst s.chars.length)).isSome := by
    rw [hmoved.kept _ fun i hi => cellAt_ne (by omega) (by omega) (by omega)]
    exact hdst _ hfits
  rw [write_eq hplace, ok_bind] at hrun
  refine ⟨_, hrun, fun _ => ?_, fun a ha => ?_⟩
  · rw [hroom]
    refine ⟨fun i hi => ?_, Function.update_self _ _ _⟩
    have hne : cellAt dst i ≠ cellAt dst s.chars.length :=
      cellAt_ne (by omega) (by omega) (by omega)
    rw [Function.update_of_ne hne, hmoved.copied i hi, hs.char hi, List.getElem?_eq_getElem hi]
    rfl
  · rw [Function.update_of_ne (ha _ hfits), hmoved.kept a fun i hi => ha i (by omega)]

/-- **The source does not fit**: the size is used up by characters, and the zero is behind it. -/
theorem strlcpy_long (hs : m.StringAt src s) (hsize : dsize ≠ 0)
    (hdst : m.HasBytes dst dsize.toNat)
    (hapart : ∀ i < dsize.toNat, ∀ j ≤ s.chars.length, cellAt src j ≠ cellAt dst i)
    (hlong : dsize.toNat ≤ s.chars.length) {m' : CMem} {ret : BitVec 32}
    (hrun : m.strlcpy dst src dsize = .ok (ret, m')) :
    (∀ i < dsize.toNat, m' (cellAt dst i) = s.chars[i]?) ∧
      m' (cellAt dst dsize.toNat) = some 0 ∧
      ∀ a, (∀ i ≤ dsize.toNat, a ≠ cellAt dst i) → m' a = m a := by
  have hn := dsize.isLt
  obtain ⟨m₁, hmoved, heq⟩ := strlcpy_eq hs hsize hdst hapart
  have hmin : min s.chars.length dsize.toNat = dsize.toNat := by omega
  rw [hmin] at hmoved heq
  rw [heq] at hrun
  by_cases hplace : (m₁ (cellAt dst dsize.toNat)).isSome
  · rw [write_eq hplace, ok_bind] at hrun
    cases hrun
    refine ⟨fun i hi => ?_, Function.update_self _ _ _, fun a ha => ?_⟩
    · have hne : cellAt dst i ≠ cellAt dst dsize.toNat :=
        cellAt_ne (by omega) (by omega) (by omega)
      have hi' : i < s.chars.length := by omega
      rw [Function.update_of_ne hne, hmoved.copied i hi, hs.char hi', List.getElem?_eq_getElem hi']
      rfl
    · rw [Function.update_of_ne (ha _ (le_refl _)), hmoved.kept a fun i hi => ha i (by omega)]
  · rw [Option.not_isSome_iff_eq_none] at hplace
    rw [write, hplace] at hrun
    cases hrun

/-- **`strlcpy` does what it should exactly when the source fits.** -/
theorem copiesString_iff (hs : m.StringAt src s) (hdst : m.HasBytes dst dsize.toNat)
    (hapart : ∀ i < dsize.toNat, ∀ j ≤ s.chars.length, cellAt src j ≠ cellAt dst i) :
    m.CopiesString dst src s dsize ↔ dsize = 0 ∨ s.chars.length < dsize.toNat := by
  constructor
  · rintro ⟨m', hrun, hterminated, -⟩
    by_contra hneither
    rw [not_or, not_lt] at hneither
    obtain ⟨hsize, hlong⟩ := hneither
    have hpos : 0 < dsize.toNat := by
      rw [Nat.pos_iff_ne_zero]
      exact fun hzero => hsize (BitVec.eq_of_toNat_eq hzero)
    have hchars := (strlcpy_long hs hsize hdst hapart hlong hrun).1 (dsize.toNat - 1) (by omega)
    have hzero := (hterminated hpos).2
    have hlast : dsize.toNat - 1 < s.chars.length := by omega
    rw [show min s.chars.length (dsize.toNat - 1) = dsize.toNat - 1 by omega, hchars,
      List.getElem?_eq_getElem hlast] at hzero
    exact s.no_nul (Option.some.inj hzero ▸ List.getElem_mem hlast)
  · rintro (rfl | hfits)
    · refine ⟨m, ?_, fun hpos => absurd hpos (Nat.lt_irrefl 0), fun a _ => rfl⟩
      rw [strlcpy, strlen_spec hs, ok_bind, if_neg (not_not.mpr rfl)]
      rfl
    · exact strlcpy_short hs hdst hapart hfits

/-! ### Naming a device -/

theorem writes_eq {p : Ptr} (v : ℕ → BitVec 8) (n : ℕ) (hbytes : m.HasBytes p n) :
    (List.range n).foldlM (fun m i => m.write (cellAt p i) (v i)) m =
        .ok (ByteMemory.store m (cellAt p) (fun i => some (v i)) n) ∧
      ∀ a, (ByteMemory.store m (cellAt p) (fun i => some (v i)) n a).isSome = (m a).isSome := by
  induction n with
  | zero => exact ⟨rfl, fun _ => rfl⟩
  | succ n ih =>
      obtain ⟨hrun, hsome⟩ := ih fun i hi => hbytes i (Nat.lt_succ_of_lt hi)
      have hplace := hbytes n (Nat.lt_succ_self n)
      rw [← hsome] at hplace
      constructor
      · rw [List.range_succ, List.foldlM_append, hrun, ok_bind, List.foldlM_cons, write_eq hplace]
        rfl
      · intro a
        rw [ByteMemory.store, isSome_update hplace, hsome]

/-- An `int` is stored, and nothing else is changed. -/
theorem writeInt_spec {p : Ptr} (v : BitVec 32) (hbytes : m.HasBytes p 4) :
    ∃ m', m.writeInt p v = .ok m' ∧ (∀ a, (m' a).isSome = (m a).isSome) ∧
      (∀ i < 4, m' (cellAt p i) = some (v.extractLsb' (8 * i) 8)) ∧
      ∀ a, (∀ i < 4, a ≠ cellAt p i) → m' a = m a := by
  obtain ⟨hrun, hsome⟩ := writes_eq (fun i => v.extractLsb' (8 * i) 8) 4 hbytes
  refine ⟨_, hrun, hsome, fun i hi => ?_, fun a ha => ByteMemory.store_of_ne ha⟩
  exact ByteMemory.store_apply
    (fun i hi j hj => cellAt_injective (by omega) (by omega)) hi

/-- What `initdev` is given: a device, a name, and a driver, which are apart. -/
structure DeviceArgs (m : CMem) (dev devname : Ptr) (s : CString) (drv : Ptr) (d : ℕ)
    (sz : BitVec 32) : Prop where
  device : m.HasBytes dev (d + sz.toNat)
  fits : dev.toNat + (d + sz.toNat) ≤ 2 ^ 32
  /-- `driver` comes behind `name`, `class` and `devno`. -/
  behind : 72 ≤ d
  name : m.StringAt devname s
  name_apart : ∀ i < 72, ∀ j ≤ s.chars.length, cellAt devname j ≠ cellAt dev i
  driver : m.HasBytes drv sz.toNat
  driver_fits : drv.toNat + sz.toNat ≤ 2 ^ 32
  driver_apart : ∀ i < 72, ∀ j < sz.toNat, cellAt drv j ≠ cellAt dev i

/-- The device has its name, in the room that there is for it, its class and its number. -/
structure NamesDevice (m : CMem) (dev : Ptr) (cls devno : BitVec 32) (s : CString) : Prop where
  name : ∀ i < min s.chars.length 63, m (cellAt dev i) = s.chars[i]?
  terminated : m (cellAt dev (min s.chars.length 63)) = some 0
  cls : ∀ i < 4, m (cellAt dev (64 + i)) = some (cls.extractLsb' (8 * i) 8)
  devno : ∀ i < 4, m (cellAt dev (68 + i)) = some (devno.extractLsb' (8 * i) 8)

section Initdev

variable {dev devname drv : Ptr} {d : ℕ} {sz cls : BitVec 32}

/-- The first fields, before the name is copied. -/
theorem initdev_eq (h : DeviceArgs m dev devname s drv d sz) (hcls : driverSize cls = .ok sz)
    (devno : BitVec 32) :
    ∃ m₂, DeviceArgs m₂ dev devname s drv d sz ∧
      (∀ i < 4, m₂ (cellAt dev (64 + i)) = some (cls.extractLsb' (8 * i) 8)) ∧
      (∀ i < 4, m₂ (cellAt dev (68 + i)) = some (devno.extractLsb' (8 * i) 8)) ∧
      m.initdev dev cls devname devno drv (cellAt dev d) =
        (m₂.strlcpy dev devname 64 >>= fun named =>
          named.2.memmove (cellAt dev d) drv sz >>= fun moved => .ok moved.2) := by
  have hbehind := h.behind
  have hdev : ∀ i < 72, (m (cellAt dev i)).isSome := fun i hi => h.device i (by omega)
  obtain ⟨m₁, hrun₁, hsome₁, hstored₁, hkept₁⟩ := writeInt_spec cls
    (fun i hi => by rw [cellAt_cellAt]; exact hdev _ (by omega) : m.HasBytes (cellAt dev 64) 4)
  obtain ⟨m₂, hrun₂, hsome₂, hstored₂, hkept₂⟩ := writeInt_spec devno
    (fun i hi => by rw [cellAt_cellAt, hsome₁]; exact hdev _ (by omega) :
      m₁.HasBytes (cellAt dev 68) 4)
  simp only [cellAt_cellAt] at hstored₁ hkept₁ hstored₂ hkept₂
  have hsome : ∀ a, (m₂ a).isSome = (m a).isSome := fun a => (hsome₂ a).trans (hsome₁ a)
  have hname : m₂.StringAt devname s := by
    refine Holds.congr h.name fun i hi => ?_
    rw [List.length_append] at hi
    have hi' : i ≤ s.chars.length := Nat.le_of_lt_succ hi
    rw [hkept₂ _ fun j hj => h.name_apart _ (by omega) i hi',
      hkept₁ _ fun j hj => h.name_apart _ (by omega) i hi']
  refine ⟨m₂, ⟨fun i hi => ?_, h.fits, h.behind, hname, h.name_apart, fun i hi => ?_,
    h.driver_fits, h.driver_apart⟩, fun i hi => ?_, hstored₂, ?_⟩
  · rw [hsome]
    exact h.device i hi
  · rw [hsome]
    exact h.driver i hi
  · rw [hkept₂ _ fun j hj => cellAt_ne (by omega) (by omega) (by omega), hstored₁ i hi]
  · rw [initdev, hrun₁, ok_bind, hrun₂, ok_bind, hcls]
    rfl

/-- The driver is copied behind the first fields. -/
theorem DeviceArgs.memmove_driver {m₂ m₃ : CMem} (h : DeviceArgs m₂ dev devname s drv d sz)
    (hkept : ∀ a, (∀ i < 72, a ≠ cellAt dev i) → m₃ a = m₂ a) :
    ∃ m', m₃.memmove (cellAt dev d) drv sz = .ok (cellAt dev d, m') ∧
      ∀ i < 72, m' (cellAt dev i) = m₃ (cellAt dev i) := by
  have hbehind := h.behind
  have hfits := h.fits
  have hsz := sz.isLt
  have hapart : ∀ i < 72, ∀ j < sz.toNat, cellAt (cellAt dev d) j ≠ cellAt dev i := by
    intro i hi j hj
    rw [cellAt_cellAt]
    exact cellAt_ne (by omega) (by omega) (by omega)
  have hstart : (cellAt dev d).toNat + sz.toNat ≤ 2 ^ 32 := by
    by_cases hempty : sz.toNat = 0
    · have hlt := (cellAt dev d).isLt
      omega
    · rw [toNat_cellAt h.fits (by omega : d < d + sz.toNat)]
      omega
  have hread : m₃.HasBytes drv sz.toNat := by
    intro j hj
    rw [hkept _ fun i hi => h.driver_apart i hi j hj]
    exact h.driver j hj
  have hwrite : m₃.HasBytes (cellAt dev d) sz.toNat := by
    intro j hj
    rw [hkept _ fun i hi => hapart i hi j hj, cellAt_cellAt]
    exact h.device (d + j) (by omega)
  obtain ⟨m', hrun, hmoved⟩ := memmove_spec hstart h.driver_fits hread hwrite
  exact ⟨m', hrun, fun i hi => hmoved.kept _ fun j hj => (hapart i hi j hj).symm⟩

/-- The room for the name. -/
theorem DeviceArgs.room (h : DeviceArgs m dev devname s drv d sz) :
    m.HasBytes dev (64 : BitVec 32).toNat ∧
      ∀ i < (64 : BitVec 32).toNat, ∀ j ≤ s.chars.length, cellAt devname j ≠ cellAt dev i := by
  have hbehind := h.behind
  have hsize : (64 : BitVec 32).toNat = 64 := rfl
  rw [hsize]
  exact ⟨fun i hi => h.device i (by omega), fun i hi => h.name_apart i (by omega)⟩

/-- A name that fits stays in its room. -/
theorem initdev_names (h : DeviceArgs m dev devname s drv d sz) (hcls : driverSize cls = .ok sz)
    (devno : BitVec 32) (hfits : s.chars.length < 64) :
    ∃ m', m.initdev dev cls devname devno drv (cellAt dev d) = .ok m' ∧
      NamesDevice m' dev cls devno s := by
  obtain ⟨m₂, h₂, hstored, hnumber, hinitdev⟩ := initdev_eq h hcls devno
  obtain ⟨hroom, hapart⟩ := h₂.room
  obtain ⟨m₃, hnaming, hterminated, hkept⟩ := strlcpy_short h₂.name hroom hapart hfits
  obtain ⟨hchars, hzero⟩ := hterminated (by decide)
  have hsize : (64 : BitVec 32).toNat = 64 := rfl
  rw [hsize] at hchars hzero hkept
  have hbehind : ∀ i < 72, 64 ≤ i → m₃ (cellAt dev i) = m₂ (cellAt dev i) := by
    intro i hi hge
    exact hkept _ fun j hj => cellAt_ne (by omega) (by omega) (by omega)
  obtain ⟨m₄, hmove, hfields⟩ := h₂.memmove_driver fun a ha =>
    hkept a fun i hi => ha i (by omega)
  rw [hinitdev, hnaming, ok_bind, hmove, ok_bind]
  refine ⟨m₄, rfl, fun i hi => ?_, ?_, fun i hi => ?_, fun i hi => ?_⟩
  · rw [hfields i (by omega), hchars i hi]
  · rw [hfields _ (by omega), hzero]
  · rw [hfields _ (by omega), hbehind _ (by omega) (by omega), hstored i hi]
  · rw [hfields _ (by omega), hbehind _ (by omega) (by omega), hnumber i hi]

/-- A longer one is not terminated there. -/
theorem initdev_overruns (h : DeviceArgs m dev devname s drv d sz)
    (hcls : driverSize cls = .ok sz) (devno : BitVec 32) (hlong : 64 ≤ s.chars.length)
    (hrun : m.initdev dev cls devname devno drv (cellAt dev d) = .ok m') :
    m' (cellAt dev 63) ≠ some 0 := by
  obtain ⟨m₂, h₂, -, -, hinitdev⟩ := initdev_eq h hcls devno
  obtain ⟨hroom, hapart⟩ := h₂.room
  rw [hinitdev] at hrun
  obtain ⟨named, hnaming, hrest⟩ := bind_eq_ok.mp hrun
  obtain ⟨hchars, -, hkept⟩ := strlcpy_long h₂.name (by decide) hroom hapart hlong hnaming
  have hsize : (64 : BitVec 32).toNat = 64 := rfl
  rw [hsize] at hchars hkept
  obtain ⟨m₄, hmove, hfields⟩ := h₂.memmove_driver fun a ha =>
    hkept a fun i hi => ha i (by omega)
  rw [hmove, ok_bind] at hrest
  cases hrest
  have hlast : 63 < s.chars.length := by omega
  intro hzero
  have hchar : m₄ (cellAt dev 63) = some 0 := hzero
  rw [hfields 63 (by omega), hchars 63 (by omega), List.getElem?_eq_getElem hlast] at hchar
  exact s.no_nul (Option.some.inj hchar ▸ List.getElem_mem hlast)

/-- **`initdev` names a device exactly when the name fits.** -/
theorem initdev_iff (h : DeviceArgs m dev devname s drv d sz) (hcls : driverSize cls = .ok sz)
    (devno : BitVec 32) :
    (∃ m', m.initdev dev cls devname devno drv (cellAt dev d) = .ok m' ∧
      NamesDevice m' dev cls devno s) ↔ s.chars.length < 64 := by
  constructor
  · rintro ⟨m', hrun, hnamed⟩
    by_contra hlong
    have hlast : min s.chars.length 63 = 63 := by omega
    refine initdev_overruns h hcls devno (not_lt.mp hlong) hrun ?_
    rw [← hlast]
    exact hnamed.terminated
  · exact initdev_names h hcls devno

end Initdev

end CMem

/-- **`memmove` copies what was there, whatever the ranges**: they may overlap, or be the same. -/
theorem memmove_moves {m : CMem} {dest src : Ptr} {n : BitVec 32}
    (hdest : dest.toNat + n.toNat ≤ 2 ^ 32) (hsrc : src.toNat + n.toNat ≤ 2 ^ 32)
    (hread : m.HasBytes src n.toNat) (hwrite : m.HasBytes dest n.toNat) :
    ∃ m', m.memmove dest src n = .ok (dest, m') ∧
      (∀ i < n.toNat, m' (cellAt dest i) = m (cellAt src i)) ∧
      ∀ a, (∀ i < n.toNat, a ≠ cellAt dest i) → m' a = m a := by
  obtain ⟨m', hrun, hmoved⟩ := CMem.memmove_spec hdest hsrc hread hwrite
  exact ⟨m', hrun, hmoved.copied, hmoved.kept⟩

/-- Seven bytes, moved up by one: the ranges overlap. -/
theorem memmove_moves_up :
    ∃ m', CMem.memmove (fun a => some (a.setWidth 8)) 1 0 6 = .ok (1, m') ∧
      (∀ i < (6 : BitVec 32).toNat, m' (cellAt 1 i) = some ((cellAt 0 i).setWidth 8)) ∧
      ∀ a, (∀ i < (6 : BitVec 32).toNat, a ≠ cellAt 1 i) → m' a = some (a.setWidth 8) :=
  memmove_moves (by decide) (by decide) (fun _ _ => rfl) fun _ _ => rfl

/-- **`strlcpy` stays in the destination exactly when the source fits**, or there is no destination;
and the name of a device stays in it exactly when it has less than 64 characters. -/
theorem strlcpy_in_bounds_iff {m : CMem} {dst src : Ptr} {s : CString} {dsize : BitVec 32}
    (hs : m.StringAt src s) (hdst : m.HasBytes dst dsize.toNat)
    (hapart : ∀ i < dsize.toNat, ∀ j ≤ s.chars.length, cellAt src j ≠ cellAt dst i) :
    (m.CopiesString dst src s dsize ↔ dsize = 0 ∨ s.chars.length < dsize.toNat) ∧
      ∀ (dev drv : Ptr) (d : ℕ) (sz cls devno : BitVec 32),
        m.DeviceArgs dev src s drv d sz → CMem.driverSize cls = .ok sz →
          ((∃ m', m.initdev dev cls src devno drv (cellAt dev d) = .ok m' ∧
            m'.NamesDevice dev cls devno s) ↔ s.chars.length < 64) :=
  ⟨CMem.copiesString_iff hs hdst hapart, fun _ _ _ _ _ devno h hcls =>
    CMem.initdev_iff h hcls devno⟩

/-- `ab` in memory, with other bytes around it. -/
def twoLetters : CMem := fun a =>
  if a = 0 then some 97 else if a = 1 then some 98 else if a = 2 then some 0 else some 1

theorem twoLetters_hasBytes (p : Ptr) (n : ℕ) : twoLetters.HasBytes p n := by
  intro i _
  rw [twoLetters]
  split
  · rfl
  · split
    · rfl
    · split
      · rfl
      · rfl

/-- A character device at `0x1000` gets the name `ab`, and its driver from `0x2000`. -/
theorem twoLetters_deviceArgs :
    twoLetters.DeviceArgs 0x1000 0 ⟨[97, 98], by decide⟩ 0x2000 72 36 where
  device := twoLetters_hasBytes _ _
  fits := by decide
  behind := Nat.le_refl 72
  name := ⟨rfl, rfl, rfl, trivial⟩
  name_apart := by decide +kernel
  driver := twoLetters_hasBytes _ _
  driver_fits := by decide
  driver_apart := by decide +kernel

/-- Two characters have room in four bytes, and in the name of a device. -/
theorem strlcpy_in_bounds_iff_letters :
    twoLetters.CopiesString 16 0 ⟨[97, 98], by decide⟩ 4 ∧
      ∃ m', twoLetters.initdev 0x1000 1 0 5 0x2000 (cellAt 0x1000 72) = .ok m' ∧
        m'.NamesDevice 0x1000 1 5 ⟨[97, 98], by decide⟩ := by
  have hstring : twoLetters.StringAt 0 ⟨[97, 98], by decide⟩ := ⟨rfl, rfl, rfl, trivial⟩
  have hapart : ∀ i < (4 : BitVec 32).toNat, ∀ j ≤ 2, cellAt 0 j ≠ cellAt 16 i := by decide
  obtain ⟨hcopies, hnames⟩ := strlcpy_in_bounds_iff hstring (twoLetters_hasBytes 16 _) hapart
  have hshort : ([97, 98] : List (BitVec 8)).length < 64 := by decide
  exact ⟨hcopies.mpr (Or.inr (by decide)),
    (hnames 0x1000 0x2000 72 36 1 5 twoLetters_deviceArgs rfl).mpr hshort⟩

/-- Two characters are copied into two bytes: the zero is written to the third one. -/
theorem not_strlcpy_in_bounds :
    ∃ m', twoLetters.strlcpy 16 0 2 = .ok (2, m') ∧ twoLetters 18 = some 1 ∧ m' 18 = some 0 ∧
      ¬ twoLetters.CopiesString 16 0 ⟨[97, 98], by decide⟩ 2 := by
  have hstring : twoLetters.StringAt 0 ⟨[97, 98], by decide⟩ := ⟨rfl, rfl, rfl, trivial⟩
  have hroom := twoLetters_hasBytes 16 (2 : BitVec 32).toNat
  have hapart : ∀ i < (2 : BitVec 32).toNat, ∀ j ≤ 2, cellAt 0 j ≠ cellAt 16 i := by decide
  obtain ⟨m₁, hmoved, hrun⟩ := CMem.strlcpy_eq hstring (by decide) hroom hapart
  have hkept : m₁ 18 = some 1 := hmoved.kept 18 (by decide)
  have hwrite : m₁.write 18 0 = .ok (Function.update m₁ 18 (some 0)) :=
    CMem.write_eq (by rw [hkept]; rfl)
  refine ⟨Function.update m₁ 18 (some 0), ?_, rfl, Function.update_self _ _ _, ?_⟩
  · rw [hrun]
    show (m₁.write 18 0 >>= fun m' => _) = _
    rw [hwrite]
    rfl
  · rw [CMem.copiesString_iff hstring hroom hapart]
    decide

end Aim
