/-
**The boot page tables of the i386 and the ARM port.**

`page_index_init` links four second-level tables into the first-level table, clears them and fills
in the queued early mappings, one 2 MB page at a time.  Both ports do this with the same loops: the
i386 with PAE descriptors, the ARM with the long descriptors of LPAE.  The second-level tables are
found again through the masked descriptors of the first level.

The tables are 64-bit words in memory.  Before the MMU is on, pointers are physical addresses.

Main definitions:

* `Aim.Words`, `Aim.BootTables` — memory, and where the linker put the tables;
* `Aim.PageFormat` — what the descriptors of a port look like; `Aim.I386.format` and
  `Aim.Armv7a.format` are the two ports;
* `Aim.pageIndexClear`, `Aim.pageIndexEarlyMap`, `Aim.pageIndexInit` — the code;
* `Aim.TablesHold` — the tables are linked, and the second-level tables, read as one array, hold
  given descriptors.

Main results:

* `Aim.pageIndexEarlyMap_spec` — **what one mapping writes**;
* `Aim.pageIndexInit_spec` — **after `page_index_init` the tables hold exactly the mappings of the
  queue.**
-/

import AimKernel.EarlyMapping

set_option relaxedAutoImplicit false
set_option autoImplicit false

namespace Aim

/-! ### Addresses and descriptors -/

/-- `ADDR2PTR(x)`. -/
def addr2ptr (x : BitVec 64) : BitVec 32 := x.setWidth 32

/-- `PGINDEX_FN(x)`. -/
def pgindexFn (x : BitVec 64) : BitVec 64 := (x >>> 30) &&& ((1 <<< 2 : BitVec 64) - 1)

/-- `PGMID_FN(x)`. -/
def pgmidFn (x : BitVec 64) : BitVec 64 := (x >>> 21) &&& ((1 <<< 9 : BitVec 64) - 1)

/-- `PAGE_FN(x)`. -/
def pageFn (x : BitVec 64) : BitVec 64 := x &&& ~~~((1 <<< 12 : BitVec 64) - 1)

/-- `WKPGINDEX(pgindex)`: the table that a first-level descriptor points to. -/
def wkpgindex (pgindex : BitVec 64) : BitVec 32 := addr2ptr (pageFn pgindex)

/-- `&base[i]` for an array of 64-bit words. -/
def elem (base : BitVec 32) (i : BitVec 64) : BitVec 32 := base + 8 * i.setWidth 32

/-- The 64-bit words in memory, by address. -/
abbrev Words := ℕ → BitVec 64

/-- `*p = v`. -/
def Words.set (m : Words) (p : BitVec 32) (v : BitVec 64) : Words := Function.update m p.toNat v

/-- Where the linker put `__boot_page_index` and `__boot_page_mid_all`. -/
structure BootTables where
  index : BitVec 32
  mid : BitVec 32
  index_aligned : 2 ^ 5 ∣ index.toNat
  mid_aligned : 2 ^ 12 ∣ mid.toNat
  index_fits : index.toNat + 32 ≤ 2 ^ 32
  mid_fits : mid.toNat + 4 * 4096 ≤ 2 ^ 32
  disjoint : index.toNat + 32 ≤ mid.toNat ∨ mid.toNat + 4 * 4096 ≤ index.toNat

/-- `__boot_page_mid_all[i]`. -/
def BootTables.midTable (t : BootTables) (i : ℕ) : BitVec 32 := t.mid + BitVec.ofNat 32 (4096 * i)

/-- The descriptors of a port. -/
structure PageFormat where
  /-- `MKPGINDEX(pgmid)`. -/
  mkpgindex : BitVec 32 → BitVec 64
  /-- The 2 MB descriptor that `page_index_early_map` writes for a physical address, once the type
  of the mapping is known. -/
  mkpgmid : BitVec 32 → Outcome (BitVec 64 → BitVec 64)

/-! ### The code -/

/-- `page_index_clear`. -/
def pageIndexClear (F : PageFormat) (t : BootTables) (m : Words) : Words :=
  let m := (List.range 4).foldl
    (fun m i => m.set (elem t.index (BitVec.ofNat 64 i)) (F.mkpgindex (t.midTable i))) m
  fun a => if t.mid.toNat ≤ a ∧ a < t.mid.toNat + 4 * 4096 then 0 else m a

/-- The loop of `page_index_early_map`: `stop` is `paddr + size`, `mk` makes the descriptor. -/
def earlyMapLoop (bootPageIndex : BitVec 32) (mk : BitVec 64 → BitVec 64) (stop : BitVec 64) :
    ℕ → BitVec 64 → BitVec 64 → Words → Outcome Words
  | 0, _, _, _ => .error .hang
  | fuel + 1, pa, va, m =>
    if pa < stop then
      let pgmid := wkpgindex (m (elem bootPageIndex (pgindexFn va)).toNat)
      earlyMapLoop bootPageIndex mk stop fuel (pa + Arch.bigPageSize) (va + Arch.bigPageSize)
        (m.set (elem pgmid (pgmidFn va)) (mk pa))
    else .ok m

/-- `page_index_early_map`.  The loop makes one round for each 2 MB. -/
def pageIndexEarlyMap (F : PageFormat) (bootPageIndex : BitVec 32) (paddr : BitVec 64)
    (vaddr size type : BitVec 32) (m : Words) : Outcome (ℤ × Words) := do
  assert (bigPageOff paddr = 0) "BIGPAGE_OFF(paddr) == 0"
  assert (bigPageOff (ptr2addr vaddr) = 0) "BIGPAGE_OFF(PTR2ADDR(vaddr)) == 0"
  assert (bigPageOff (size.setWidth 64) = 0) "BIGPAGE_OFF(size) == 0"
  let mk ← F.mkpgmid type
  let m ← earlyMapLoop bootPageIndex mk (paddr + size.setWidth 64) (size.toNat / 2 ^ 21 + 1) paddr
    (ptr2addr vaddr) m
  return (0, m)

/-- `early_mapping_next`: the pointers to entries are positions in the queue, `NULL` is `none`. -/
def EarlyMappings.next (s : EarlyMappings) (base : Option (Fin s.queue.length)) :
    Option (Fin s.queue.length) :=
  let next := match base with
    | none => 0
    | some i => i.val + 1
  if h : next < s.queue.length then some ⟨next, h⟩ else none

/-- The loop of `page_index_init` over the entries of the queue. -/
def pageIndexInitLoop (F : PageFormat) (bootPageIndex : BitVec 32) (s : EarlyMappings) :
    ℕ → Option (Fin s.queue.length) → Words → Outcome (ℤ × Words)
  | _, none, m => .ok (0, m)
  | 0, some _, _ => .error .hang
  | fuel + 1, some mapping, m => do
    let entry := s.queue.get mapping
    let (ret, m) ← pageIndexEarlyMap F bootPageIndex entry.paddr entry.vaddr entry.size entry.type m
    if ret = eof then
      return (eof, m)
    pageIndexInitLoop F bootPageIndex s fuel (s.next (some mapping)) m

/-- `page_index_init`, on `__boot_page_index`. -/
def pageIndexInit (F : PageFormat) (t : BootTables) (s : EarlyMappings) (m : Words) :
    Outcome (ℤ × Words) :=
  pageIndexInitLoop F t.index s s.queue.length (s.next none) (pageIndexClear F t m)

/-! ### The two ports -/

namespace I386

/-- `PGINDEX_P`. -/
def PGINDEX_P : BitVec 64 := 1 <<< 0

/-- `PGMID_P`. -/
def PGMID_P : BitVec 64 := 1 <<< 0

/-- `PGMID_RW`. -/
def PGMID_RW : BitVec 64 := 1 <<< 1

/-- `PGMID_PS`. -/
def PGMID_PS : BitVec 64 := 1 <<< 7

/-- `MKPGINDEX(pgmid)`. -/
def mkpgindex (pgmid : BitVec 32) : BitVec 64 := ptr2addr pgmid ||| PGINDEX_P

/-- `MKPGMID_BIG(pa)`. -/
def mkpgmidBig (pa : BitVec 64) : BitVec 64 := pa ||| PGMID_P ||| PGMID_PS

/-- The i386 with PAE: every mapping is writable, whatever its type. -/
def format : PageFormat where
  mkpgindex := mkpgindex
  mkpgmid _ := .ok fun pa => mkpgmidBig pa ||| PGMID_RW

/-- `page_index_clear`. -/
def pageIndexClear : BootTables → Words → Words := Aim.pageIndexClear format

/-- `page_index_early_map`. -/
def pageIndexEarlyMap := Aim.pageIndexEarlyMap format

/-- `page_index_init`. -/
def pageIndexInit := Aim.pageIndexInit format

end I386

namespace Armv7a

/-- `PGTABLEENTRY_P`. -/
def PGTABLEENTRY_P : BitVec 64 := 0b11

/-- `PGBLOCKENTRY_P`. -/
def PGBLOCKENTRY_P : BitVec 64 := 0b01

/-- `AP_SYSRW`. -/
def AP_SYSRW : BitVec 64 := 0b00

/-- `SH_OUTER`. -/
def SH_OUTER : BitVec 64 := 0b10

/-- `SH_INNER`. -/
def SH_INNER : BitVec 64 := 0b11

/-- `MAIR_NORMAL_IDX`. -/
def MAIR_NORMAL_IDX : BitVec 64 := 0b000

/-- `MAIR_DEVICE_IDX`. -/
def MAIR_DEVICE_IDX : BitVec 64 := 0b001

/-- `MAIR_FRAMEBUFFER_IDX`. -/
def MAIR_FRAMEBUFFER_IDX : BitVec 64 := 0b010

/-- `MKS1LA(nG, AF, SH, AP, NS, AttrIndx)`. -/
def mks1la (nG AF SH AP NS AttrIndx : BitVec 64) : BitVec 64 :=
  (nG <<< 11) ||| (AF <<< 10) ||| (SH <<< 8) ||| (AP <<< 6) ||| (NS <<< 5) ||| (AttrIndx <<< 2)

/-- `MKS1UA(SoftUse, XN, PXN, ContHint)`. -/
def mks1ua (SoftUse XN PXN ContHint : BitVec 64) : BitVec 64 :=
  (SoftUse <<< 55) ||| (XN <<< 54) ||| (PXN <<< 53) ||| (ContHint <<< 52)

/-- `MKPGINDEX(pgmid)`. -/
def mkpgindex (pgmid : BitVec 32) : BitVec 64 := ptr2addr pgmid ||| PGTABLEENTRY_P

/-- `MKPGMID_BIG(pa, SH, AttrIndx)`. -/
def mkpgmidBig (SH AttrIndx pa : BitVec 64) : BitVec 64 :=
  pa ||| PGBLOCKENTRY_P ||| mks1ua 0 0 0 0 ||| mks1la 0 1 SH AP_SYSRW 0 AttrIndx

/-- The ARM with LPAE: the type decides shareability and memory attributes. -/
def format : PageFormat where
  mkpgindex := mkpgindex
  mkpgmid type :=
    if type = EarlyMapping.memory then .ok (mkpgmidBig SH_INNER MAIR_NORMAL_IDX)
    else if type = EarlyMapping.device then .ok (mkpgmidBig SH_OUTER MAIR_DEVICE_IDX)
    else if type = EarlyMapping.framebuffer then .ok (mkpgmidBig SH_OUTER MAIR_FRAMEBUFFER_IDX)
    else .error (.panic "unknown mapping type %d")

/-- `page_index_clear`. -/
def pageIndexClear : BootTables → Words → Words := Aim.pageIndexClear format

/-- `page_index_early_map`. -/
def pageIndexEarlyMap := Aim.pageIndexEarlyMap format

/-- `page_index_init`. -/
def pageIndexInit := Aim.pageIndexInit format

end Armv7a

/-! ### Addresses of descriptors -/

theorem toNat_pgindexFn (x : BitVec 64) : (pgindexFn x).toNat = x.toNat / 2 ^ 30 % 2 ^ 2 :=
  Bits.shift_and_mask 30 (by decide)

theorem toNat_pgmidFn (x : BitVec 64) : (pgmidFn x).toNat = x.toNat / 2 ^ 21 % 2 ^ 9 :=
  Bits.shift_and_mask 21 (by decide)

theorem toNat_elem {base : BitVec 32} {i : BitVec 64} (h : base.toNat + 8 * i.toNat < 2 ^ 32) :
    (elem base i).toNat = base.toNat + 8 * i.toNat := by
  have hi : (i.setWidth 32).toNat = i.toNat := by
    rw [BitVec.toNat_setWidth]
    exact Nat.mod_eq_of_lt (by omega)
  have hmul : (8 * i.setWidth 32).toNat = 8 * i.toNat := by
    rw [BitVec.toNat_mul, hi]
    exact Nat.mod_eq_of_lt (by simp; omega)
  rw [elem, BitVec.toNat_add, hmul]
  exact Nat.mod_eq_of_lt h

theorem BootTables.toNat_midTable (t : BootTables) {i : ℕ} (hi : i < 4) :
    (t.midTable i).toNat = t.mid.toNat + 4096 * i := by
  have := t.mid_fits
  rw [midTable, BitVec.toNat_add, BitVec.toNat_ofNat, Nat.mod_eq_of_lt (show 4096 * i < 2 ^ 32 by omega)]
  exact Nat.mod_eq_of_lt (by omega)

theorem BootTables.midTable_aligned (t : BootTables) {i : ℕ} (hi : i < 4) :
    2 ^ 12 ∣ (t.midTable i).toNat := by
  rw [t.toNat_midTable hi]
  exact Nat.dvd_add t.mid_aligned (dvd_mul_right _ _)

/-- The first-level descriptors lead back to the tables they were made from. -/
def PageFormat.Links (F : PageFormat) : Prop :=
  ∀ p : BitVec 32, 2 ^ 12 ∣ p.toNat → wkpgindex (F.mkpgindex p) = p

/-- Masking removes the low bits that were set in the address of a page. -/
theorem wkpgindex_or {p : BitVec 32} {low : BitVec 64} (hp : 2 ^ 12 ∣ p.toNat)
    (hlow : low &&& ~~~((1 <<< 12 : BitVec 64) - 1) = 0) :
    wkpgindex (ptr2addr p ||| low) = p := by
  have hpage : ptr2addr p &&& ~~~((1 <<< 12 : BitVec 64) - 1) = ptr2addr p :=
    Bits.and_mask_of_dvd (n := 64) (k := 12) (by decide) (by decide) (ptr2addr p).isLt
      (by rwa [toNat_ptr2addr])
  rw [wkpgindex, pageFn, Bits.and_mask_or hpage hlow, addr2ptr, ptr2addr,
    BitVec.setWidth_setWidth_of_le _ (by decide), BitVec.setWidth_eq]

theorem I386.format_links : I386.format.Links := fun _ hp => wkpgindex_or hp (by decide)

theorem Armv7a.format_links : Armv7a.format.Links := fun _ hp => wkpgindex_or hp (by decide)

/-! ### The tables as one array -/

/-- The second-level tables are linked and hold the descriptors `f`: the four tables lie one after
the other, so the descriptor of the `n`-th 2 MB page of the address space is the `n`-th word. -/
structure TablesHold (F : PageFormat) (t : BootTables) (m : Words) (f : ℕ → BitVec 64) : Prop where
  linked : ∀ i < 4, m (t.index.toNat + 8 * i) = F.mkpgindex (t.midTable i)
  entries : ∀ n < 2048, m (t.mid.toNat + 8 * n) = f n

theorem TablesHold.congr {F : PageFormat} {t : BootTables} {m : Words} {f g : ℕ → BitVec 64}
    (h : TablesHold F t m f) (hfg : ∀ n < 2048, f n = g n) : TablesHold F t m g :=
  ⟨h.linked, fun n hn => (h.entries n hn).trans (hfg n hn)⟩

theorem TablesHold.set {F : PageFormat} {t : BootTables} {m : Words} {f : ℕ → BitVec 64}
    (h : TablesHold F t m f) {n : ℕ} (hn : n < 2048) {p : BitVec 32} (v : BitVec 64)
    (hp : p.toNat = t.mid.toNat + 8 * n) : TablesHold F t (m.set p v) (Function.update f n v) := by
  have hdisjoint := t.disjoint
  constructor
  · intro i hi
    rw [Words.set, Function.update_of_ne (by omega)]
    exact h.linked i hi
  · intro k hk
    rcases eq_or_ne k n with rfl | hne
    · rw [Words.set, hp, Function.update_self, Function.update_self]
    · rw [Words.set, Function.update_of_ne (by omega), Function.update_of_ne hne]
      exact h.entries k hk

/-- Storing one word after the other. -/
theorem foldl_set_apply {base : BitVec 32} {v : ℕ → BitVec 64} {m : Words} :
    ∀ k, base.toNat + 8 * k ≤ 2 ^ 32 → ∀ i < k,
      (List.range k).foldl (fun m i => m.set (elem base (BitVec.ofNat 64 i)) (v i)) m
        (base.toNat + 8 * i) = v i := by
  intro k
  induction k with
  | zero => exact fun _ i hi => absurd hi (Nat.not_lt_zero i)
  | succ k ih =>
      intro hfits i hi
      have hk : (BitVec.ofNat 64 k).toNat = k := by
        rw [BitVec.toNat_ofNat]
        exact Nat.mod_eq_of_lt (by omega)
      have haddr : (elem base (BitVec.ofNat 64 k)).toNat = base.toNat + 8 * k := by
        rw [toNat_elem (by omega), hk]
      rw [List.range_succ, List.foldl_append, List.foldl_cons, List.foldl_nil, Words.set, haddr]
      rcases Nat.lt_succ_iff_lt_or_eq.1 hi with hlt | rfl
      · rw [Function.update_of_ne (by omega)]
        exact ih (by omega) i hlt
      · rw [Function.update_self]

/-- After `page_index_clear` the tables are linked and empty. -/
theorem tablesHold_clear (F : PageFormat) (t : BootTables) (m : Words) :
    TablesHold F t (pageIndexClear F t m) fun _ => 0 := by
  have hdisjoint := t.disjoint
  constructor
  · intro i hi
    rw [pageIndexClear]
    dsimp only
    rw [if_neg (by omega)]
    exact foldl_set_apply 4 (by have := t.index_fits; omega) i hi
  · intro n hn
    rw [pageIndexClear]
    dsimp only
    rw [if_pos (by omega)]

/-- The code finds the descriptor of a 2 MB page through the first-level table. -/
theorem TablesHold.slot {F : PageFormat} {t : BootTables} {m : Words} {f : ℕ → BitVec 64}
    (h : TablesHold F t m f) (hF : F.Links) {va : BitVec 64} {n : ℕ} (hn : n < 2048)
    (hva : va.toNat = n * 2 ^ 21) :
    (elem (wkpgindex (m (elem t.index (pgindexFn va)).toNat)) (pgmidFn va)).toNat =
      t.mid.toNat + 8 * n := by
  have hindex : (pgindexFn va).toNat = n / 512 := by
    rw [toNat_pgindexFn]
    omega
  have hmid : (pgmidFn va).toNat = n % 512 := by
    rw [toNat_pgmidFn]
    omega
  have hfits := t.index_fits
  have hmfits := t.mid_fits
  have htable := t.toNat_midTable (show n / 512 < 4 by omega)
  have haddr : (elem t.index (pgindexFn va)).toNat = t.index.toNat + 8 * (n / 512) := by
    rw [toNat_elem (by omega), hindex]
  rw [haddr, h.linked _ (by omega), hF _ (t.midTable_aligned (by omega)), toNat_elem (by omega),
    hmid, htable]
  omega

/-! ### One mapping -/

/-- **What the loop writes**: one descriptor for each of the `k` pages from page `n` on. -/
theorem earlyMapLoop_spec {F : PageFormat} (hF : F.Links) {t : BootTables}
    {mk : BitVec 64 → BitVec 64} {stop : BitVec 64} :
    ∀ k fuel n pa va m f, k < fuel → n + k ≤ 2048 → va.toNat = n * 2 ^ 21 →
      stop.toNat = pa.toNat + k * 2 ^ 21 → TablesHold F t m f →
      ∃ m', earlyMapLoop t.index mk stop fuel pa va m = .ok m' ∧ TablesHold F t m' fun j =>
        if n ≤ j ∧ j < n + k then mk (pa + BitVec.ofNat 64 ((j - n) * 2 ^ 21)) else f j := by
  intro k
  induction k with
  | zero =>
      intro fuel n pa va m f hfuel _ _ hstop h
      obtain ⟨fuel, rfl⟩ : ∃ fuel', fuel = fuel' + 1 := ⟨fuel - 1, by omega⟩
      have hdone : ¬ pa < stop := by
        rw [BitVec.lt_def]
        omega
      refine ⟨m, by rw [earlyMapLoop, if_neg hdone], h.congr fun j _ => ?_⟩
      rw [if_neg (by omega)]
  | succ k ih =>
      intro fuel n pa va m f hfuel hn hva hstop h
      obtain ⟨fuel, rfl⟩ : ∃ fuel', fuel = fuel' + 1 := ⟨fuel - 1, by omega⟩
      have hbig : Arch.bigPageSize.toNat = 2 ^ 21 := by decide
      have hstop' := stop.isLt
      have hmore : pa < stop := by
        rw [BitVec.lt_def]
        omega
      have hva' : (va + Arch.bigPageSize).toNat = (n + 1) * 2 ^ 21 := by
        rw [BitVec.toNat_add, hbig]
        omega
      have hpa' : stop.toNat = (pa + Arch.bigPageSize).toNat + k * 2 ^ 21 := by
        rw [BitVec.toNat_add, hbig]
        omega
      have hset := h.set (show n < 2048 by omega) (mk pa) (h.slot hF (by omega) hva)
      obtain ⟨m', hloop, h'⟩ := ih fuel (n + 1) _ _ _ _ (by omega) (by omega) hva' hpa' hset
      refine ⟨m', by rw [earlyMapLoop, if_pos hmore]; exact hloop, h'.congr fun j _ => ?_⟩
      rcases Nat.lt_trichotomy j n with hlt | rfl | hgt
      · rw [if_neg (by omega), if_neg (by omega), Function.update_of_ne (by omega)]
      · rw [if_neg (by omega), if_pos (by omega), Function.update_self, Nat.sub_self, Nat.zero_mul]
        simp
      · by_cases hj : j < n + (k + 1)
        · have hsteps : (j - n) * 2 ^ 21 = 2 ^ 21 + (j - (n + 1)) * 2 ^ 21 := by omega
          rw [if_pos (by omega), if_pos (by omega), hsteps, BitVec.ofNat_add, BitVec.add_assoc]
          rfl
        · rw [if_neg (by omega), if_neg (by omega), Function.update_of_ne (by omega)]

namespace EarlyMapping

/-- The number of the first 2 MB page of the virtual range. -/
def firstPage (e : EarlyMapping) : ℕ := e.vaddr.toNat / 2 ^ 21

/-- The `j`-th 2 MB page of the address space lies in the virtual range. -/
def HasPage (e : EarlyMapping) (j : ℕ) : Prop :=
  e.firstPage ≤ j ∧ j < e.firstPage + e.size.toNat / 2 ^ 21

instance (e : EarlyMapping) (j : ℕ) : Decidable (e.HasPage j) :=
  inferInstanceAs (Decidable (_ ∧ _))

/-- The physical address of that page. -/
def pagePaddr (e : EarlyMapping) (j : ℕ) : BitVec 64 :=
  e.paddr + BitVec.ofNat 64 ((j - e.firstPage) * 2 ^ 21)

end EarlyMapping

/-- What a port asks of the entries of the queue: valid, inside the 32-bit address space, physical
addresses below `2 ^ 36`. -/
structure EarlyMapping.Mappable (e : EarlyMapping) : Prop where
  valid : e.valid = true
  fits : e.stop ≤ 2 ^ 32
  paddr_lt : e.paddr.toNat < 2 ^ 36

/-- **What one mapping writes.** -/
theorem pageIndexEarlyMap_spec {F : PageFormat} (hF : F.Links) {t : BootTables} {m : Words}
    {f : ℕ → BitVec 64} {e : EarlyMapping} {mk : BitVec 64 → BitVec 64} (he : e.Mappable)
    (hmk : F.mkpgmid e.type = .ok mk) (h : TablesHold F t m f) :
    ∃ m', pageIndexEarlyMap F t.index e.paddr e.vaddr e.size e.type m = .ok (0, m') ∧
      TablesHold F t m' fun j => if e.HasPage j then mk (e.pagePaddr j) else f j := by
  obtain ⟨hpaddr, hvaddr, hsize⟩ := EarlyMapping.valid_iff.1 he.valid
  have hfits := he.fits
  rw [EarlyMapping.stop] at hfits
  have hsize' := toNat_ptr2addr e.size
  rw [ptr2addr] at hsize'
  have hstop : (e.paddr + e.size.setWidth 64).toNat =
      e.paddr.toNat + e.size.toNat / 2 ^ 21 * 2 ^ 21 := by
    rw [BitVec.toNat_add, hsize', Nat.div_mul_cancel hsize]
    exact Nat.mod_eq_of_lt (by have := he.paddr_lt; omega)
  obtain ⟨m', hloop, h'⟩ := earlyMapLoop_spec hF (e.size.toNat / 2 ^ 21)
    (e.size.toNat / 2 ^ 21 + 1) e.firstPage e.paddr (ptr2addr e.vaddr) m f (Nat.lt_succ_self _)
    (by rw [EarlyMapping.firstPage]; omega)
    (by rw [toNat_ptr2addr, EarlyMapping.firstPage, Nat.div_mul_cancel hvaddr]) hstop h
  refine ⟨m', ?_, h'⟩
  rw [pageIndexEarlyMap, assert_bind (bigPageOff_eq_zero_iff.2 hpaddr),
    assert_bind (bigPageOff_eq_zero_iff.2 (by rwa [toNat_ptr2addr])),
    assert_bind (bigPageOff_eq_zero_iff.2 (by rwa [hsize'])), hmk, ok_bind, hloop]
  rfl

/-! ### The whole queue -/

/-- The cursor that points to entry `k`, if there is one. -/
def EarlyMappings.cursor (s : EarlyMappings) (k : ℕ) : Option (Fin s.queue.length) :=
  if h : k < s.queue.length then some ⟨k, h⟩ else none

/-- The loop of `page_index_init` visits the entries in order: what each of them preserves holds
at the end. -/
theorem pageIndexInitLoop_spec {F : PageFormat} {bootPageIndex : BitVec 32} {s : EarlyMappings}
    (I : ℕ → Words → Prop)
    (hstep : ∀ (k : Fin s.queue.length) m, I k m → ∃ m', pageIndexEarlyMap F bootPageIndex
      (s.queue.get k).paddr (s.queue.get k).vaddr (s.queue.get k).size (s.queue.get k).type m =
        .ok (0, m') ∧ I (k + 1) m') :
    ∀ fuel k m, k + fuel = s.queue.length → I k m →
      ∃ m', pageIndexInitLoop F bootPageIndex s fuel (s.cursor k) m = .ok (0, m') ∧
        I s.queue.length m' := by
  intro fuel
  induction fuel with
  | zero =>
      intro k m hk h
      rw [EarlyMappings.cursor, dif_neg (by omega)]
      exact ⟨m, rfl, by rwa [← hk, Nat.add_zero]⟩
  | succ fuel ih =>
      intro k m hk h
      have hlt : k < s.queue.length := by omega
      obtain ⟨m₁, hmap, h₁⟩ := hstep ⟨k, hlt⟩ m h
      obtain ⟨m', hloop, h'⟩ := ih (k + 1) m₁ (by omega) h₁
      refine ⟨m', ?_, h'⟩
      rw [EarlyMappings.cursor, dif_pos hlt, pageIndexInitLoop]
      dsimp only
      rw [hmap, ok_bind]
      exact hloop

/-- The descriptors for the entries of a queue: those of an entry's pages map the entry, those of
all other pages are zero. -/
structure Filled (F : PageFormat) (queue : List EarlyMapping) (f : ℕ → BitVec 64) : Prop where
  mapped : ∀ e ∈ queue, ∀ mk, F.mkpgmid e.type = .ok mk →
    ∀ j, e.HasPage j → f j = mk (e.pagePaddr j)
  clear : ∀ j, (∀ e ∈ queue, ¬ e.HasPage j) → f j = 0

theorem filled_nil (F : PageFormat) : Filled F [] fun _ => 0 :=
  ⟨by simp, fun _ _ => rfl⟩

/-- A mapping that shares no page with the others is added to them. -/
theorem Filled.append {F : PageFormat} {queue : List EarlyMapping} {f : ℕ → BitVec 64}
    {e : EarlyMapping} {mk : BitVec 64 → BitVec 64} (h : Filled F queue f)
    (hmk : F.mkpgmid e.type = .ok mk) (hnew : ∀ q ∈ queue, ∀ j, q.HasPage j → ¬ e.HasPage j) :
    Filled F (queue ++ [e]) fun j => if e.HasPage j then mk (e.pagePaddr j) else f j := by
  constructor
  · intro q hq mk' hmk' j hj
    rcases List.mem_append.1 hq with hq | hq
    · rw [if_neg (hnew q hq j hj)]
      exact h.mapped q hq mk' hmk' j hj
    · obtain rfl := List.mem_singleton.1 hq
      rw [hmk] at hmk'
      rw [if_pos hj, Except.ok.inj hmk']
  · intro j hj
    rw [if_neg (hj e (by simp))]
    exact h.clear j fun q hq => hj q (by simp [hq])

/-- Entries that do not clash share no page. -/
theorem EarlyMapping.not_hasPage {e q : EarlyMapping} (he : e.valid = true) (hq : q.valid = true)
    (hclash : ¬ e.Clash q) {j : ℕ} (hj : q.HasPage j) : ¬ e.HasPage j := by
  intro hj'
  obtain ⟨-, hev, hes⟩ := EarlyMapping.valid_iff.1 he
  obtain ⟨-, hqv, hqs⟩ := EarlyMapping.valid_iff.1 hq
  obtain ⟨h1, h2⟩ := hj
  obtain ⟨h3, h4⟩ := hj'
  rw [EarlyMapping.firstPage] at h1 h2 h3 h4
  refine hclash ⟨?_, ?_, ?_, ?_⟩
  · rintro hzero
    rw [hzero] at h4
    simp at h4
    omega
  · rintro hzero
    rw [hzero] at h2
    simp at h2
    omega
  · rw [EarlyMapping.stop]
    omega
  · rw [EarlyMapping.stop]
    omega

/-- An entry clashes with none of those before it. -/
theorem not_clash_take {queue : List EarlyMapping}
    (hdisjoint : queue.Pairwise fun q e => ¬ e.Clash q) (k : Fin queue.length) :
    ∀ q ∈ queue.take k, ¬ (queue.get k).Clash q := by
  intro q hq
  obtain ⟨i, hi, rfl⟩ := List.mem_take_iff_getElem.1 hq
  exact List.pairwise_iff_getElem.1 hdisjoint i k (by omega) k.isLt (by omega)

/-- **After `page_index_init` the tables hold exactly the mappings of the queue.** -/
theorem pageIndexInit_spec {F : PageFormat} (hF : F.Links) (t : BootTables) (s : EarlyMappings)
    (m : Words) (hqueue : ∀ e ∈ s.queue, e.Mappable)
    (hdisjoint : s.queue.Pairwise fun q e => ¬ e.Clash q)
    (hmk : ∀ e ∈ s.queue, ∃ mk, F.mkpgmid e.type = .ok mk) :
    ∃ m' f, pageIndexInit F t s m = .ok (0, m') ∧ TablesHold F t m' f ∧ Filled F s.queue f := by
  have hstep : ∀ (k : Fin s.queue.length) m,
      (∃ f, TablesHold F t m f ∧ Filled F (s.queue.take k) f) →
      ∃ m', pageIndexEarlyMap F t.index (s.queue.get k).paddr (s.queue.get k).vaddr
          (s.queue.get k).size (s.queue.get k).type m = .ok (0, m') ∧
        ∃ f, TablesHold F t m' f ∧ Filled F (s.queue.take (k + 1)) f := by
    rintro k m ⟨f, htables, hfilled⟩
    have hmem : s.queue.get k ∈ s.queue := List.get_mem _ _
    obtain ⟨mk, hmk⟩ := hmk _ hmem
    obtain ⟨m', hmap, htables'⟩ := pageIndexEarlyMap_spec hF (hqueue _ hmem) hmk htables
    refine ⟨m', hmap, _, htables', ?_⟩
    rw [List.take_add_one, List.getElem?_eq_getElem k.isLt, Option.toList_some]
    refine hfilled.append hmk fun q hq j hj => ?_
    exact EarlyMapping.not_hasPage (hqueue _ hmem).valid
      (hqueue q (List.mem_of_mem_take hq)).valid (not_clash_take hdisjoint k q hq) hj
  obtain ⟨m', hloop, f, htables, hfilled⟩ := pageIndexInitLoop_spec
    (fun k m => ∃ f, TablesHold F t m f ∧ Filled F (s.queue.take k) f) hstep s.queue.length 0
    (pageIndexClear F t m) (Nat.zero_add _)
    ⟨_, tablesHold_clear F t m, by rw [List.take_zero]; exact filled_nil F⟩
  rw [List.take_length] at hfilled
  exact ⟨m', f, hloop, htables, hfilled⟩

end Aim
