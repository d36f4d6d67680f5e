/-
**What the boot page tables translate.**

The MMU walks the boot page tables in two levels: the top two bits of a virtual address select a
first-level descriptor, the next nine a descriptor of the table it points to.  After
`page_index_init` the walk sends every address that an early mapping covers to the physical address
the mapping asks for, with the attributes of the mapping's type, and finds nothing at every other
address.

The walks are those of the processor manuals: four page-directory pointers and 2 MB pages for PAE
on the i386, the level 1 and level 2 descriptors of the long format on the ARM.

Main definitions:

* `Aim.Translation` — what a walk of two levels finds;
* `Aim.I386.walk`, `Aim.Armv7a.walk` — the walks of the two processors;
* `Aim.I386.attributes`, `Aim.Armv7a.attributes` — the attribute bits of a mapping type;
* `Aim.Translates` — a walk implements a queue of mappings.

Main results:

* `Aim.I386.walk_eq`, `Aim.Armv7a.walk_eq` — the walk reads the descriptor of the address's 2 MB
  page;
* `Aim.I386.decodes`, `Aim.Armv7a.decodes` — decoding a descriptor gives back what it was made
  from;
* `Aim.pageIndexInit_translates` — **after `page_index_init` both processors translate exactly the
  queue.**
-/

import AimKernel.BootPageTables

set_option relaxedAutoImplicit false
set_option autoImplicit false

namespace Aim

/-! ### Walks -/

/-- What a walk of two levels finds: nothing, a table of the third level, or a page with its
attributes. -/
inductive Translation
  | notPresent
  | thirdLevel
  | page (pa attributes : BitVec 64)
deriving DecidableEq, Repr

namespace I386

/-- Bits 51 to 12 of a descriptor: the address of a table. -/
def tableMask : BitVec 64 := 0x000FFFFFFFFFF000

/-- Bits 51 to 21 of a descriptor: the address of a 2 MB page. -/
def pageMask : BitVec 64 := 0x000FFFFFFFE00000

/-- A page-directory entry: bit 0 is the present bit, bit 7 the page-size bit. -/
def translate (pde : BitVec 64) (va : BitVec 32) : Translation :=
  if pde.getLsbD 0 = false then .notPresent
  else if pde.getLsbD 7 = false then .thirdLevel
  else .page ((pde &&& pageMask) ||| bigPageOff (ptr2addr va)) (pde &&& ~~~pageMask)

/-- The walk of a processor with PAE. -/
def walk (cr3 : BitVec 32) (m : Words) (va : BitVec 32) : Translation :=
  let pdpte := m (cr3.toNat + 8 * (va.toNat / 2 ^ 30))
  if pdpte.getLsbD 0 = false then .notPresent
  else translate (m ((pdpte &&& tableMask).toNat + 8 * (va.toNat / 2 ^ 21 % 2 ^ 9))) va

/-- Present, writable, 2 MB. -/
def attributes (_ : BitVec 32) : BitVec 64 := 0x83

end I386

namespace Armv7a

/-- Bits 39 to 12 of a descriptor: the address of a table. -/
def tableMask : BitVec 64 := 0x000000FFFFFFF000

/-- Bits 39 to 30 of a descriptor: the address of a 1 GB block. -/
def block1Mask : BitVec 64 := 0x000000FFC0000000

/-- Bits 39 to 21 of a descriptor: the address of a 2 MB block. -/
def block2Mask : BitVec 64 := 0x000000FFFFE00000

/-- A level 2 descriptor: the two low bits tell blocks (01) from tables (11). -/
def translate (desc : BitVec 64) (va : BitVec 32) : Translation :=
  if desc &&& 0b11 = 0b01 then
    .page ((desc &&& block2Mask) ||| bigPageOff (ptr2addr va)) (desc &&& ~~~block2Mask)
  else if desc &&& 0b11 = 0b11 then .thirdLevel
  else .notPresent

/-- The walk of a processor with LPAE. -/
def walk (ttbr0 : BitVec 32) (m : Words) (va : BitVec 32) : Translation :=
  let desc := m (ttbr0.toNat + 8 * (va.toNat / 2 ^ 30))
  if desc &&& 0b11 = 0b11 then
    translate (m ((desc &&& tableMask).toNat + 8 * (va.toNat / 2 ^ 21 % 2 ^ 9))) va
  else if desc &&& 0b11 = 0b01 then
    .page ((desc &&& block1Mask) ||| (ptr2addr va &&& 0x3FFFFFFF)) (desc &&& ~~~block1Mask)
  else .notPresent

/-- A block with the access flag set; memory is inner shareable with memory attributes 0, devices
and frame buffers are outer shareable with attributes 1 and 2. -/
def attributes (type : BitVec 32) : BitVec 64 :=
  if type = EarlyMapping.memory then 0x701
  else if type = EarlyMapping.device then 0x605
  else 0x609

end Armv7a

/-! ### Decoding descriptors -/

/-- Where the second-level descriptor of an address lies. -/
theorem BootTables.descriptor_addr (t : BootTables) (va : BitVec 32) :
    (ptr2addr (t.midTable (va.toNat / 2 ^ 30))).toNat + 8 * (va.toNat / 2 ^ 21 % 2 ^ 9) =
      t.mid.toNat + 8 * (va.toNat / 2 ^ 21) := by
  have hva := va.isLt
  rw [toNat_ptr2addr, t.toNat_midTable (by omega)]
  omega

/-- The address of a second-level table fits the address field of a descriptor. -/
theorem BootTables.midTable_and_mask (t : BootTables) {i n : ℕ} {mask : BitVec 64} (hi : i < 4)
    (hn : 32 ≤ n) (hmask : mask.toNat = 2 ^ n - 2 ^ 12) :
    ptr2addr (t.midTable i) &&& mask = ptr2addr (t.midTable i) := by
  refine Bits.and_mask_of_dvd (by omega) hmask ?_ ?_
  · rw [toNat_ptr2addr]
    exact lt_of_lt_of_le (t.midTable i).isLt (Nat.pow_le_pow_right (by decide) hn)
  · rw [toNat_ptr2addr]
    exact t.midTable_aligned hi

/-- Decoding the descriptor that a port makes for an aligned physical address gives back the
address, and the attributes of the type. -/
def Decodes (F : PageFormat) (translate : BitVec 64 → BitVec 32 → Translation)
    (attributes : BitVec 32 → BitVec 64) (type : BitVec 32) : Prop :=
  ∃ mk, F.mkpgmid type = .ok mk ∧ ∀ pa : BitVec 64, 2 ^ 21 ∣ pa.toNat → pa.toNat < 2 ^ 40 →
    ∀ va, translate (mk pa) va = .page (pa ||| bigPageOff (ptr2addr va)) (attributes type)

/-- A bit that is clear in the address field of an address. -/
theorem and_low_eq_zero {x mask low : BitVec 64} (hx : x &&& mask = x) (hlow : mask &&& low = 0) :
    x &&& low = 0 := by
  rw [← hx, BitVec.and_assoc, hlow]
  simp

namespace I386

/-- The walk reads the descriptor of the address's 2 MB page. -/
theorem walk_eq {t : BootTables} {m : Words} {f : ℕ → BitVec 64} (h : TablesHold format t m f)
    (va : BitVec 32) : walk t.index m va = translate (f (va.toNat / 2 ^ 21)) va := by
  have hva := va.isLt
  have hi : va.toNat / 2 ^ 30 < 4 := by omega
  have hpdpte : m (t.index.toNat + 8 * (va.toNat / 2 ^ 30)) =
      ptr2addr (t.midTable (va.toNat / 2 ^ 30)) ||| PGINDEX_P := h.linked _ hi
  have hpresent : ¬ (ptr2addr (t.midTable (va.toNat / 2 ^ 30)) ||| PGINDEX_P).getLsbD 0 = false := by
    simp [PGINDEX_P]
  rw [walk, hpdpte, if_neg hpresent, Bits.and_mask_or (t.midTable_and_mask (n := 52) hi (by decide)
    (by decide)) (by decide), t.descriptor_addr, h.entries _ (by omega)]

/-- Decoding a descriptor gives back what it was made from. -/
theorem decodes (type : BitVec 32) : Decodes format translate attributes type := by
  refine ⟨fun pa => mkpgmidBig pa ||| PGMID_RW, rfl, fun pa hdvd hpa va => ?_⟩
  have hbits : mkpgmidBig pa ||| PGMID_RW = pa ||| 0x83 := by
    rw [mkpgmidBig, BitVec.or_assoc, BitVec.or_assoc]
    rfl
  have hfield : pa &&& pageMask = pa :=
    Bits.and_mask_of_dvd (n := 52) (k := 21) (by decide) (by decide) (by omega) hdvd
  dsimp only
  rw [hbits, translate, if_neg (by simp), if_neg (by simp),
    Bits.and_mask_or hfield (by decide), Bits.and_not_mask_or hfield (by decide), attributes]

theorem translate_zero (va : BitVec 32) : translate 0 va = .notPresent := by
  simp [translate]

end I386

namespace Armv7a

/-- The walk reads the descriptor of the address's 2 MB page. -/
theorem walk_eq {t : BootTables} {m : Words} {f : ℕ → BitVec 64} (h : TablesHold format t m f)
    (va : BitVec 32) : walk t.index m va = translate (f (va.toNat / 2 ^ 21)) va := by
  have hva := va.isLt
  have hi : va.toNat / 2 ^ 30 < 4 := by omega
  have hdesc : m (t.index.toNat + 8 * (va.toNat / 2 ^ 30)) =
      ptr2addr (t.midTable (va.toNat / 2 ^ 30)) ||| PGTABLEENTRY_P := h.linked _ hi
  have hfield : ptr2addr (t.midTable (va.toNat / 2 ^ 30)) &&& tableMask =
      ptr2addr (t.midTable (va.toNat / 2 ^ 30)) :=
    t.midTable_and_mask (n := 40) hi (by decide) (by decide)
  have htable : (ptr2addr (t.midTable (va.toNat / 2 ^ 30)) ||| PGTABLEENTRY_P) &&& 0b11 = 0b11 := by
    rw [BitVec.and_comm, BitVec.and_or_distrib_left, BitVec.and_comm,
      and_low_eq_zero hfield (by decide)]
    decide
  rw [walk, hdesc, if_pos htable, Bits.and_mask_or hfield (by decide), t.descriptor_addr,
    h.entries _ (by omega)]

/-- Decoding a block descriptor. -/
theorem translate_or {pa low : BitVec 64} (hdvd : 2 ^ 21 ∣ pa.toNat) (hpa : pa.toNat < 2 ^ 40)
    (hlow : low &&& block2Mask = 0) (hblock : low &&& 0b11 = 0b01) (va : BitVec 32) :
    translate (pa ||| low) va = .page (pa ||| bigPageOff (ptr2addr va)) low := by
  have hfield : pa &&& block2Mask = pa :=
    Bits.and_mask_of_dvd (n := 40) (k := 21) (by decide) (by decide) hpa hdvd
  have hbits : (pa ||| low) &&& 0b11 = 0b01 := by
    rw [BitVec.and_comm, BitVec.and_or_distrib_left, BitVec.and_comm,
      and_low_eq_zero hfield (by decide), BitVec.and_comm, hblock]
    decide
  rw [translate, if_pos hbits, Bits.and_mask_or hfield hlow, Bits.and_not_mask_or hfield hlow]

/-- Each of the three types has its descriptor. -/
theorem decodes {type : BitVec 32} (htype : type = EarlyMapping.memory ∨
      type = EarlyMapping.device ∨ type = EarlyMapping.framebuffer) :
    Decodes format translate attributes type := by
  have hor : ∀ SH AttrIndx pa, mkpgmidBig SH AttrIndx pa =
      pa ||| (PGBLOCKENTRY_P ||| (mks1ua 0 0 0 0 ||| mks1la 0 1 SH AP_SYSRW 0 AttrIndx)) := by
    intro SH AttrIndx pa
    rw [mkpgmidBig, BitVec.or_assoc, BitVec.or_assoc]
  rcases htype with rfl | rfl | rfl
  · refine ⟨mkpgmidBig SH_INNER MAIR_NORMAL_IDX, rfl, fun pa hdvd hpa va => ?_⟩
    rw [hor, translate_or hdvd hpa (by decide) (by decide)]
    rfl
  · refine ⟨mkpgmidBig SH_OUTER MAIR_DEVICE_IDX, rfl, fun pa hdvd hpa va => ?_⟩
    rw [hor, translate_or hdvd hpa (by decide) (by decide)]
    rfl
  · refine ⟨mkpgmidBig SH_OUTER MAIR_FRAMEBUFFER_IDX, rfl, fun pa hdvd hpa va => ?_⟩
    rw [hor, translate_or hdvd hpa (by decide) (by decide)]
    rfl

theorem translate_zero (va : BitVec 32) : translate 0 va = .notPresent := by
  simp [translate]

end Armv7a

/-! ### The queue, translated -/

/-- The virtual range of an entry. -/
def EarlyMapping.Covers (e : EarlyMapping) (va : BitVec 32) : Prop :=
  e.vaddr.toNat ≤ va.toNat ∧ va.toNat < e.stop

/-- A walk sends every address that an entry covers where the entry maps it, with the attributes of
the entry's type, and finds nothing at an address that no entry covers. -/
def Translates (walk : BitVec 32 → Translation) (attributes : BitVec 32 → BitVec 64)
    (queue : List EarlyMapping) : Prop :=
  ∀ va, (∀ e ∈ queue, e.Covers va →
      walk va = .page (e.paddr + ptr2addr (va - e.vaddr)) (attributes e.type)) ∧
    ((∀ e ∈ queue, ¬ e.Covers va) → walk va = .notPresent)

/-- Addresses are covered by 2 MB pages. -/
theorem EarlyMapping.hasPage_iff {e : EarlyMapping} (he : e.valid = true) (va : BitVec 32) :
    e.HasPage (va.toNat / 2 ^ 21) ↔ e.Covers va := by
  obtain ⟨-, hvaddr, hsize⟩ := EarlyMapping.valid_iff.1 he
  rw [HasPage, Covers, firstPage, stop]
  omega

/-- The page of a covered address is mapped to an aligned physical address; with the offset in the
page it is the address the entry asks for. -/
theorem EarlyMapping.pagePaddr_spec {e : EarlyMapping} (he : e.Mappable) {va : BitVec 32}
    (hva : e.Covers va) :
    2 ^ 21 ∣ (e.pagePaddr (va.toNat / 2 ^ 21)).toNat ∧
      (e.pagePaddr (va.toNat / 2 ^ 21)).toNat < 2 ^ 40 ∧
      e.pagePaddr (va.toNat / 2 ^ 21) ||| bigPageOff (ptr2addr va) =
        e.paddr + ptr2addr (va - e.vaddr) := by
  obtain ⟨hpaddr, hvaddr, -⟩ := EarlyMapping.valid_iff.1 he.valid
  obtain ⟨hlow, -⟩ := hva
  have hpa := he.paddr_lt
  have hlt := va.isLt
  have hpage : (e.pagePaddr (va.toNat / 2 ^ 21)).toNat =
      e.paddr.toNat + (va.toNat / 2 ^ 21 - e.vaddr.toNat / 2 ^ 21) * 2 ^ 21 := by
    rw [pagePaddr, firstPage, BitVec.toNat_add, BitVec.toNat_ofNat]
    omega
  have hoff : (bigPageOff (ptr2addr va)).toNat = va.toNat % 2 ^ 21 := by
    have hmask : (Arch.bigPageSize - 1).toNat = 2 ^ 21 - 1 := by decide
    rw [bigPageOff, BitVec.toNat_and, hmask, Nat.and_two_pow_sub_one_eq_mod, toNat_ptr2addr]
  have hdvd : 2 ^ 21 ∣ (e.pagePaddr (va.toNat / 2 ^ 21)).toNat := by
    rw [hpage]
    exact Nat.dvd_add hpaddr (dvd_mul_left _ _)
  refine ⟨hdvd, by omega, BitVec.eq_of_toNat_eq ?_⟩
  rw [Bits.or_eq_add_of_dvd hdvd (by omega), hpage, hoff, BitVec.toNat_add, toNat_ptr2addr,
    BitVec.toNat_sub_of_le (BitVec.le_def.2 hlow)]
  omega

/-- Filled tables translate the queue. -/
theorem Filled.translates {F : PageFormat} {translate : BitVec 64 → BitVec 32 → Translation}
    {attributes : BitVec 32 → BitVec 64} {queue : List EarlyMapping} {f : ℕ → BitVec 64}
    (h : Filled F queue f) (hqueue : ∀ e ∈ queue, e.Mappable)
    (hdecode : ∀ e ∈ queue, Decodes F translate attributes e.type)
    (hzero : ∀ va, translate 0 va = .notPresent) :
    Translates (fun va => translate (f (va.toNat / 2 ^ 21)) va) attributes queue := by
  refine fun va => ⟨fun e he hva => ?_, fun hnone => ?_⟩
  · obtain ⟨mk, hmk, htranslate⟩ := hdecode e he
    obtain ⟨hdvd, hlt, haddr⟩ := EarlyMapping.pagePaddr_spec (hqueue e he) hva
    have hpage := (EarlyMapping.hasPage_iff (hqueue e he).valid va).2 hva
    dsimp only
    rw [h.mapped e he mk hmk _ hpage, htranslate _ hdvd hlt, haddr]
  · have hclear := h.clear (va.toNat / 2 ^ 21) fun e he hpage =>
      hnone e he ((EarlyMapping.hasPage_iff (hqueue e he).valid va).1 hpage)
    dsimp only
    rw [hclear, hzero]

/-- **After `page_index_init` both processors translate exactly the queue.**  The ARM port needs
the entries to have one of the three types it knows. -/
theorem pageIndexInit_translates (t : BootTables) (s : EarlyMappings) (m : Words)
    (hqueue : ∀ e ∈ s.queue, e.Mappable)
    (hdisjoint : s.queue.Pairwise fun q e => ¬ e.Clash q) :
    (∃ m', I386.pageIndexInit t s m = .ok (0, m') ∧
      Translates (I386.walk t.index m') I386.attributes s.queue) ∧
    ((∀ e ∈ s.queue, e.type = EarlyMapping.memory ∨ e.type = EarlyMapping.device ∨
        e.type = EarlyMapping.framebuffer) →
      ∃ m', Armv7a.pageIndexInit t s m = .ok (0, m') ∧
        Translates (Armv7a.walk t.index m') Armv7a.attributes s.queue) := by
  constructor
  · have hdecode : ∀ e ∈ s.queue, Decodes I386.format I386.translate I386.attributes e.type :=
      fun e _ => I386.decodes e.type
    obtain ⟨m', f, hinit, htables, hfilled⟩ := pageIndexInit_spec I386.format_links t s m hqueue
      hdisjoint fun e he => let ⟨mk, hmk, _⟩ := hdecode e he; ⟨mk, hmk⟩
    refine ⟨m', hinit, ?_⟩
    rw [funext (I386.walk_eq htables)]
    exact hfilled.translates hqueue hdecode I386.translate_zero
  · intro htypes
    have hdecode : ∀ e ∈ s.queue,
        Decodes Armv7a.format Armv7a.translate Armv7a.attributes e.type :=
      fun e he => Armv7a.decodes (htypes e he)
    obtain ⟨m', f, hinit, htables, hfilled⟩ := pageIndexInit_spec Armv7a.format_links t s m hqueue
      hdisjoint fun e he => let ⟨mk, hmk, _⟩ := hdecode e he; ⟨mk, hmk⟩
    refine ⟨m', hinit, ?_⟩
    rw [funext (Armv7a.walk_eq htables)]
    exact hfilled.translates hqueue hdecode Armv7a.translate_zero

/-- Tables at fixed addresses. -/
def lowBootTables : BootTables where
  index := 0x1000
  mid := 0x2000
  index_aligned := by decide
  mid_aligned := by decide
  index_fits := by decide
  mid_fits := by decide
  disjoint := by decide

/-- Low memory mapped at 0 and at `KERN_BASE`, and a device at the top of the address space. -/
def bootQueue : List EarlyMapping :=
  [⟨0, 0, 0x1000000, EarlyMapping.memory⟩, ⟨0, Arch.kernBase, 0x7e000000, EarlyMapping.memory⟩,
    ⟨0x3f000000, 0xffe00000, 0x200000, EarlyMapping.device⟩]

theorem pageIndexInit_translates_bootQueue :
    (∃ m', I386.pageIndexInit lowBootTables ⟨bootQueue, 0, 0⟩ (fun _ => 0) = .ok (0, m') ∧
      Translates (I386.walk lowBootTables.index m') I386.attributes bootQueue) ∧
    ∃ m', Armv7a.pageIndexInit lowBootTables ⟨bootQueue, 0, 0⟩ (fun _ => 0) = .ok (0, m') ∧
      Translates (Armv7a.walk lowBootTables.index m') Armv7a.attributes bootQueue := by
  have hqueue : ∀ e ∈ bootQueue, e.Mappable := by
    have hall : ∀ e ∈ bootQueue, e.valid = true ∧ e.stop ≤ 2 ^ 32 ∧ e.paddr.toNat < 2 ^ 36 := by
      decide
    exact fun e he => ⟨(hall e he).1, (hall e he).2.1, (hall e he).2.2⟩
  have hdisjoint : bootQueue.Pairwise fun q e => ¬ e.Clash q := by
    unfold EarlyMapping.Clash
    decide
  have htypes : ∀ e ∈ bootQueue, e.type = EarlyMapping.memory ∨ e.type = EarlyMapping.device ∨
      e.type = EarlyMapping.framebuffer := by decide
  obtain ⟨hi386, harm⟩ := pageIndexInit_translates lowBootTables ⟨bootQueue, 0, 0⟩ (fun _ => 0)
    hqueue hdisjoint
  exact ⟨hi386, harm htypes⟩

end Aim
