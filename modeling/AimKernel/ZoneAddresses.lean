/-
**Addresses in large zones.**

`buddy_pmalloc__malloc` adds the product `page_size * index` to the 64-bit base, and
`buddy_pmalloc__get_free_bytes` returns `free_page_count * page_size`; both products are of 32-bit
`size_t` values.  A zone of 4 GB or more, which PAE allows for `ZONE_HIGHMEM`, has blocks whose
offset does not fit.  This module says exactly in which states, and in which zones, the results
are right.

Main definitions:

* `Aim.BuddyRun.AddressesExact` — addresses and free bytes are right in a state;
* `Aim.BuddyRun.OffsetsFit` — the products that matter in a state fit 32 bits.

Main results:

* `Aim.BuddyRun.addressesExact_iff` — **the results are right exactly when the products fit**;
* `Aim.zone_addresses_exact_iff` — **they are always right exactly in zones below 4 GB**.
-/

import AimKernel.MemoryZones

set_option relaxedAutoImplicit false
set_option autoImplicit false

namespace Aim

open DyadicBlocks BuddyPmalloc

namespace BuddyRun

/-- The address that `malloc` would return next is the exact base address of the block, `free`
would act on the same block, no block in use has this address, and the number of free bytes is
exact. -/
structure AddressesExact (s : BuddyRun) : Prop where
  malloc : ∀ size i b', s.Legal (.malloc size) → s.alloc.mallocPage size = .ok (some i, b') →
    s.alloc.malloc size = .ok (s.alloc.base + s.alloc.pageSize * i, b') ∧
      b'.pageIndex (s.alloc.base + s.alloc.pageSize * i) = i ∧
      ∀ j ∈ s.live, s.alloc.base + s.alloc.pageSize * i ≠ s.alloc.base + s.alloc.pageSize * j
  freeBytes : s.alloc.getFreeBytes = s.alloc.freePageCount * s.alloc.pageSize

/-- There are less than 4 GB of free pages, and the block at the head of each list starts at an
offset below 4 GB. -/
structure OffsetsFit (s : BuddyRun) : Prop where
  free : s.alloc.freePageCount * s.alloc.pageSize < 2 ^ 32
  head : ∀ o ≤ s.alloc.maxOrder, ∀ i, (s.alloc.list o).head? = some i →
    s.alloc.pageSize * i < 2 ^ 32

variable {n m : ℕ} {b₀ : BuddyPmalloc} {s : BuddyRun} {P : Pool n m}

/-- A request for `2 ^ o` pages takes the block at the head of the list of order `o`. -/
theorem Inv.mallocPage_head (h : Inv b₀ s P) (hp : Params b₀.base b₀.pageSize) {o i : ℕ}
    (ho : o ≤ s.alloc.maxOrder) (hi : (s.alloc.list o).head? = some i) :
    s.Legal (.malloc (2 ^ o * s.alloc.pageSize)) ∧
      ∃ b', s.alloc.mallocPage (2 ^ o * s.alloc.pageSize) = .ok (some i, b') := by
  have hpos := (h.params hp).pos
  have hm := h.models.fits.order_lt
  have hom : o ≤ m := h.models.fits.maxOrder_eq ▸ ho
  have hlt : (2 : ℕ) ^ o < 2 ^ 31 := Nat.pow_lt_pow_right (by decide) (by omega)
  have hquot : (2 ^ o * s.alloc.pageSize + s.alloc.pageSize - 1) / s.alloc.pageSize = 2 ^ o := by
    rw [Nat.add_sub_assoc hpos, Nat.add_comm, Nat.add_mul_div_right _ _ hpos,
      Nat.div_eq_of_lt (by omega), zero_add]
  have hpages : s.alloc.pagesFor (2 ^ o * s.alloc.pageSize) = 2 ^ o := by
    rw [pagesFor_eq (h.params hp).widths (by rw [hquot]; exact hlt), hquot]
  have horder : s.alloc.orderFor (2 ^ o * s.alloc.pageSize) = o := by
    rw [orderFor, hpages, Nat.clog_pow 2 o (by decide)]
  refine ⟨?_, ?_⟩
  · show (2 ^ o * s.alloc.pageSize + s.alloc.pageSize - 1) / s.alloc.pageSize < 2 ^ 31
    rw [hquot]
    exact hlt
  · have hmem := (h.models.tracks.mem_list o i).1 (List.mem_of_mem_head? hi)
    have hcard : 2 ^ o ≤ P.freeCells.card := by
      rw [P.card_freeCells]
      exact Finset.single_le_sum (f := fun B : Block => 2 ^ B.order) (fun _ _ => Nat.zero_le _) hmem
    exact ⟨_, mallocPage_of_findBlock_some (by rw [hpages]; exact hlt.le)
      (by rw [horder]; exact findBlock_of_head ho hi) (h.models.tracks.free_page _ hmem).1
      (by rw [hpages, h.models.free_count]; exact hcard)⟩

/-- **The results are right exactly when the products fit.**  The base must leave room for the
pool in the address space. -/
theorem addressesExact_iff (h : Inv b₀ s P) (hp : Params b₀.base b₀.pageSize)
    (hroom : b₀.base + b₀.pageSize * n ≤ 2 ^ 64) : s.AddressesExact ↔ s.OffsetsFit := by
  have hps := h.params hp
  rw [← h.setup.base, ← h.setup.pageSize] at hroom
  constructor
  · intro hexact
    refine ⟨?_, ?_⟩
    · rw [← hexact.freeBytes]
      exact Nat.mod_lt _ (by decide)
    · intro o ho i hi
      obtain ⟨hlegal, b', hrun⟩ := h.mallocPage_head hp ho hi
      have hcnt : s.alloc.pagesFor (2 ^ o * s.alloc.pageSize) ≤ 2 ^ 31 := by
        rw [pagesFor_eq hps.widths hlegal]
        exact le_of_lt hlegal
      obtain ⟨P', ha⟩ := allocated_of_mallocPage h.models hcnt hrun
      have haddr := (hexact.malloc _ i b' hlegal hrun).1
      rw [malloc_of_mallocPage_some hrun ha.setup] at haddr
      have hret : s.alloc.retAddr i = s.alloc.base + s.alloc.pageSize * i :=
        (Prod.mk.inj (Except.ok.inj haddr)).1
      -- the address computed is at most the base plus the truncated product
      have hle : s.alloc.retAddr i ≤ s.alloc.base + wrap32 (s.alloc.pageSize * i) :=
        Nat.mod_le _ _
      have hlt : wrap32 (s.alloc.pageSize * i) < 2 ^ 32 := Nat.mod_lt _ (by decide)
      omega
  · intro hfit
    refine ⟨?_, wrap32_of_lt hfit.free⟩
    intro size i b' hlegal hrun
    have hcnt : s.alloc.pagesFor size ≤ 2 ^ 31 := by
      rw [pagesFor_eq hps.widths hlegal]
      exact le_of_lt hlegal
    obtain ⟨P', ha⟩ := allocated_of_mallocPage h.models hcnt hrun
    obtain ⟨o, ho, hhead⟩ := ha.head_list
    have hlt := hfit.head o ho i hhead
    have hin : i < n := ha.index_lt
    have hn := h.models.fits.count_lt
    have hmul : s.alloc.pageSize * i < s.alloc.pageSize * n := Nat.mul_lt_mul_of_pos_left hin hps.pos
    have haddr : s.alloc.pageAddr i = s.alloc.base + s.alloc.pageSize * i :=
      wrap64_of_lt (by omega)
    rw [← haddr]
    refine ⟨?_, ?_, ?_⟩
    · rw [malloc_of_mallocPage_some hrun ha.setup, retAddr_eq_pageAddr hlt]
    · have hps' : Params b'.base b'.pageSize := by rwa [ha.setup.base, ha.setup.pageSize]
      rw [← ha.setup.pageAddr_eq]
      exact pageIndex_pageAddr hps'.widths (by omega)
    · intro j hj heq
      obtain ⟨Y, hY, rfl⟩ := h.mem_used hj
      have hij : i = Y.index := by
        rw [haddr] at heq
        exact Nat.eq_of_mul_eq_mul_left hps.pos (Nat.add_left_cancel heq)
      exact ha.index_ne hY hij.symm

end BuddyRun

/-! ### Zones -/

section Zones

variable {map : List MachineMemoryMap} {kernStartLow kernEndLow : ℕ} {zones : ZoneId → Zone}

/-- Every zone starts on a page boundary in the low 2 GB and has pages of 4 KB. -/
theorem zone_params (h : archInitPmmZone map kernStartLow kernEndLow = .ok zones) (z : ZoneId) :
    Params (zones z).base (zones z).pageSize ∧ (zones z).pageSize = 2 ^ 12 ∧
      (zones z).base ≤ Arch.ktop - Arch.koffset := by
  obtain ⟨normalTop, maxPhysmem, hb⟩ := boundaries_of_archInitPmmZone h
  have hpow : ∃ k ≤ 31, Arch.pageSize = 2 ^ k := ⟨12, by decide, rfl⟩
  cases z with
  | dma =>
      rw [hb.dma]
      exact ⟨⟨hpow, dvd_zero _, by decide⟩, rfl, by decide⟩
  | normal =>
      rw [hb.normal]
      exact ⟨⟨hpow, pageSize_dvd_dmaStop, (by decide : 0x1000000 < 2 ^ 64)⟩, rfl,
        (by decide : 0x1000000 ≤ Arch.ktop - Arch.koffset)⟩
  | highmem =>
      rw [hb.highmem]
      have hle := hb.normalTop_le
      refine ⟨⟨hpow, hb.normalTop_dvd, ?_⟩, rfl, hle⟩
      exact lt_of_le_of_lt hle (by decide)

/-- **Addresses are right exactly in zones below 4 GB.**  For every zone set up from a memory map
and every allocator built over it: in a reachable state the results are right exactly when the
offsets of that state fit, and they are right in all reachable states exactly when the zone has less
than 4 GB. -/
theorem zone_addresses_exact_iff {valloc : ℕ → ℕ} {b₀ : BuddyPmalloc} {z : ZoneId}
    (hzones : archInitPmmZone map kernStartLow kernEndLow = .ok zones)
    (hctor : ctor valloc (zones z).base (zones z).pageSize (zones z).pageCount = .ok b₀) :
    (∀ s, buddyMachine.Reachable (BuddyRun.start b₀) s → (s.AddressesExact ↔ s.OffsetsFit)) ∧
    ((∀ s, buddyMachine.Reachable (BuddyRun.start b₀) s → s.AddressesExact) ↔
      (zones z).pageCount * (zones z).pageSize < 2 ^ 32) := by
  obtain ⟨hparams, hsize, hbase⟩ := zone_params hzones z
  obtain ⟨hmodels₀, hbase₀, hsize₀, -⟩ := models_of_ctor hctor
  have hcount := ctor_count_lt hctor
  have hroom : b₀.base + b₀.pageSize * (zones z).pageCount ≤ 2 ^ 64 := by
    have : (2 : ℕ) ^ 12 * (zones z).pageCount < 2 ^ 12 * 2 ^ 31 := by omega
    have : Arch.ktop - Arch.koffset = 0x7E000000 := rfl
    rw [hbase₀, hsize₀, hsize]
    omega
  have hiff : ∀ s, buddyMachine.Reachable (BuddyRun.start b₀) s →
      (s.AddressesExact ↔ s.OffsetsFit) := by
    intro s hs
    obtain ⟨P, hP⟩ := BuddyRun.Reachable.inv hparams hctor hs
    exact BuddyRun.addressesExact_iff hP (by rwa [hbase₀, hsize₀]) hroom
  refine ⟨hiff, ?_, ?_⟩
  · -- the client may free every page, and then all bytes of the zone are free
    intro hall
    obtain ⟨s, hs, hfree, P, hP, -⟩ := BuddyRun.exists_reachable_all_free hparams hctor
    have hfit := ((hiff s hs).1 (hall s hs)).free
    rwa [hfree, hP.setup.pageSize, hsize₀] at hfit
  · intro hlt s hs
    obtain ⟨P, hP⟩ := BuddyRun.Reachable.inv hparams hctor hs
    have hpage : s.alloc.pageSize = (zones z).pageSize := hP.setup.pageSize.trans hsize₀
    have hle : ∀ i ≤ (zones z).pageCount, s.alloc.pageSize * i < 2 ^ 32 := by
      intro i hi
      rw [hpage, Nat.mul_comm]
      exact lt_of_le_of_lt (Nat.mul_le_mul_right _ hi) hlt
    refine (hiff s hs).2 ⟨?_, fun o ho i hi => ?_⟩
    · rw [hP.models.free_count, Nat.mul_comm]
      exact hle _ (card_freeCells_le P)
    · have hmem := (hP.models.tracks.mem_list o i).1 (List.mem_of_mem_head? hi)
      exact hle i (P.tiling.index_lt (P.free_mem hmem)).le

/-- In the 16 MB of `ZONE_DMA` all is well. -/
theorem zone_addresses_exact_dma :
    ∃ (zones : ZoneId → Zone) (b₀ : BuddyPmalloc),
      ctor (fun _ => 1) (zones .dma).base (zones .dma).pageSize (zones .dma).pageCount = .ok b₀ ∧
      ∀ s, buddyMachine.Reachable (BuddyRun.start b₀) s → s.AddressesExact := by
  obtain ⟨zones, hzones, hb⟩ := archInitPmmZone_spec [⟨0, 0x2000000, 1⟩] 0x1000000 0x1100000
  have hcount : (zones .dma).pageCount = 0x1000 := by
    rw [hb.dma]
    decide
  obtain ⟨b₀, hctor, -⟩ := ctor_spec (fun _ => 1) (zones .dma).base (zones .dma).pageSize
    (show (zones .dma).pageCount < 2 ^ 31 by rw [hcount]; decide) one_ne_zero
  refine ⟨zones, b₀, hctor, ((zone_addresses_exact_iff hzones hctor).2.2 ?_)⟩
  rw [hcount, hb.dma]
  decide

/-- Once only one page is free, `malloc` finds it. -/
theorem head_of_single_free {n m : ℕ} {b : BuddyPmalloc} {P : Pool n m} (h : Models b P) {i : ℕ}
    (hfree : P.freeCells = {i}) : (b.list 0).head? = some i := by
  have hone : ∀ B ∈ P.free, B = ⟨i, 0⟩ := by
    intro B hB
    have hsub : B.cells ⊆ {i} := hfree ▸ Finset.subset_biUnion_of_mem Block.cells hB
    have hcard := Finset.card_le_card hsub
    rw [Block.card_cells, Finset.card_singleton] at hcard
    have horder : B.order = 0 := by
      by_contra hne
      have := Nat.one_lt_two_pow hne
      omega
    exact Block.ext (Finset.mem_singleton.1 (hsub B.index_mem_cells)) horder
  have hi : i ∈ P.freeCells := by
    rw [hfree]
    exact Finset.mem_singleton_self i
  obtain ⟨B, hB, -⟩ := mem_cellsOf.1 hi
  have hmem : i ∈ b.list 0 := (h.tracks.mem_list 0 i).2 (hone B hB ▸ hB)
  cases hlist : b.list 0 with
  | nil => simp [hlist] at hmem
  | cons j l =>
      have hj := hone _ ((h.tracks.mem_list 0 j).1 (by simp [hlist]))
      rw [List.head?_cons, (Block.mk.inj hj).1]

/-- A machine with 8 GB of memory: once only the page at the 4 GB offset of `ZONE_HIGHMEM` is free,
`malloc` returns the base of the zone, which belongs to another block in use. -/
theorem zone_address_alias :
    ∃ (zones : ZoneId → Zone) (b₀ : BuddyPmalloc) (s : BuddyRun) (b' : BuddyPmalloc),
      archInitPmmZone [⟨0, 0x200000000, 1⟩] 0x1000000 0x1100000 = .ok zones ∧
      ctor (fun _ => 1) (zones .highmem).base (zones .highmem).pageSize
        (zones .highmem).pageCount = .ok b₀ ∧
      buddyMachine.Reachable (BuddyRun.start b₀) s ∧
      s.alloc.mallocPage 4096 = .ok (some 0x100000, b') ∧
      s.alloc.malloc 4096 = .ok (s.alloc.base, b') ∧ 0 ∈ s.live ∧ ¬ s.AddressesExact := by
  obtain ⟨zones, hzones, hb⟩ := archInitPmmZone_spec [⟨0, 0x200000000, 1⟩] 0x1000000 0x1100000
  have hhigh : zones .highmem = ⟨0x7E000000, 0x182000000, 0x1000⟩ := by
    rw [hb.highmem]
    decide
  have hcount : (zones .highmem).pageCount = 0x182000 := by
    rw [hhigh]
    decide
  obtain ⟨hparams, -, -⟩ := zone_params hzones .highmem
  obtain ⟨b₀, hctor⟩ : ∃ b₀, ctor (fun _ => 1) (zones .highmem).base (zones .highmem).pageSize
      (zones .highmem).pageCount = .ok b₀ := by
    have hlt : (zones .highmem).pageCount < 2 ^ 31 := by
      rw [hcount]
      decide
    obtain ⟨b₀, hctor, -⟩ := ctor_spec (fun _ => 1) (zones .highmem).base (zones .highmem).pageSize
      hlt one_ne_zero
    exact ⟨b₀, hctor⟩
  obtain ⟨hmodels₀, hbase₀, hsize₀, -⟩ := models_of_ctor hctor
  have hparams₀ : Params b₀.base b₀.pageSize := by rwa [hbase₀, hsize₀]
  have hinv₀ := BuddyRun.inv_start hctor
  set P₀ := Pool.allUsed (zones .highmem).pageCount b₀.maxOrder with hP₀
  have hmem : ∀ i < 0x182000, i ∈ (BuddyRun.start b₀).live := by
    intro i hi
    show i ∈ Finset.range b₀.pageCount
    rw [hmodels₀.fits.pageCount_eq, hcount]
    exact Finset.mem_range.2 hi
  have hX : (⟨0x100000, 0⟩ : Block) ∈ P₀.used := by
    refine Finset.mem_image.2 ⟨0x100000, ?_, rfl⟩
    rw [hcount]
    exact Finset.mem_range.2 (by decide)
  obtain ⟨b₁, P₁, hfree, hrel⟩ := hinv₀.free hparams₀ hX
  set s : BuddyRun := ⟨b₁, (BuddyRun.start b₀).live.erase 0x100000⟩ with hs
  have hinv : BuddyRun.Inv b₀ s P₁ := hinv₀.release hX hrel
  have hstep : (BuddyRun.start b₀).step (.free 0x100000) = .ok s := by
    rw [BuddyRun.step, hfree]
    rfl
  have hreach : buddyMachine.Reachable (BuddyRun.start b₀) s :=
    .step (r := .free 0x100000) .init (hmem _ (by decide)) hstep
  have hcells : P₁.freeCells = {0x100000} := by
    rw [Pool.freeCells_of_erase hX hrel.used_eq]
    ext p
    simp [P₀, Pool.allUsed, Pool.freeCells, cellsOf]
    omega
  have hbase : s.alloc.base = 0x7E000000 := by rw [hinv.setup.base, hbase₀, hhigh]
  have hsize : s.alloc.pageSize = 0x1000 := by rw [hinv.setup.pageSize, hsize₀, hhigh]
  obtain ⟨hlegal, b', hrun⟩ := hinv.mallocPage_head hparams₀ (Nat.zero_le _)
    (head_of_single_free hinv.models hcells)
  rw [hsize] at hlegal hrun
  have hcnt : s.alloc.pagesFor (2 ^ 0 * 0x1000) ≤ 2 ^ 31 := by
    rw [pagesFor, hsize]
    decide
  obtain ⟨P', ha⟩ := allocated_of_mallocPage hinv.models hcnt hrun
  have haddr := malloc_of_mallocPage_some hrun ha.setup
  have hret : s.alloc.retAddr 0x100000 = s.alloc.base := by
    rw [retAddr, hbase, hsize]
    decide
  rw [hret] at haddr
  refine ⟨zones, b₀, s, b', hzones, hctor, hreach, hrun, haddr, ?_, ?_⟩
  · exact Finset.mem_erase.2 ⟨by decide, hmem 0 (by decide)⟩
  · intro hexact
    have haddr' := (hexact.malloc _ _ _ hlegal hrun).1
    have := (Prod.mk.inj (Except.ok.inj (haddr.symm.trans haddr'))).1
    rw [hbase, hsize] at this
    exact absurd this (by decide)

end Zones

end Aim
