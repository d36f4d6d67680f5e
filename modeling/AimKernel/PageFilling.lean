/-
**What the page interface fills in.**

`alloc_pages` fills new pages with zeros if it is asked to, and `free_pages` fills pages with junk
unless it is asked not to.  Both call `pmemset`, which goes through the pages one by one and ends
when the size has come down to zero.  The allocator behind them takes any size, and keeps the size
it was asked for; `pmemset` is only right for whole pages, as many as the block has.

Main definitions:

* `Aim.FillsWithin` — a run comes back and changes no byte outside a set;
* `Aim.PageFills` — what `alloc_pages` and `free_pages` should do about a request.

Main results:

* `Aim.pmemset_reaches` — `pmemset` writes to address zero if it is asked for enough;
* `Aim.page_fills_iff` — **for which sizes the interface keeps to the block**.
-/

import AimKernel.PageApi
import AimKernel.ZeroedAllocation

set_option relaxedAutoImplicit false
set_option autoImplicit false

namespace Aim

open DyadicBlocks BuddyPmalloc

/-! ### The bytes that are written -/

/-- From `2 ^ 32` pages on it goes through all of memory, and writes to address zero. -/
theorem pmemset_reaches {paddr : ℕ} (hpage : Arch.pageSize ∣ paddr) :
    ∃ x < 2 ^ 44, pageByte paddr x = 0 := by
  refine ⟨(2 ^ 33 - Arch.koffset - paddr % 2 ^ 32) % 2 ^ 32,
    (Nat.mod_lt _ (by decide)).trans (by decide), ?_⟩
  rw [pageByte_of_dvd hpage]
  simp only [pa2kva, wrap32, Arch.koffset]
  omega

/-- A round for each page is needed. -/
theorem pmemsetLoop_short (b : ℕ) : ∀ (fuel : ℕ) (mem : Memory) (paddr k : ℕ), fuel ≤ k →
    k < 2 ^ 52 → pmemsetLoop b fuel mem paddr (Arch.pageSize * k) = .error .hang := by
  intro fuel
  induction fuel with
  | zero => exact fun _ _ _ _ _ => rfl
  | succ fuel ih =>
      intro mem paddr k hfuel hk
      obtain ⟨j, rfl⟩ : ∃ j, k = j + 1 := ⟨k - 1, by omega⟩
      rw [pmemsetLoop_succ b fuel mem paddr hk]
      exact ih _ _ j (by omega) (by omega)

/-- **The number of rounds** is that of the pages, if these are whole. -/
theorem pmemsetLoop_rounds_iff {size : ℕ} (hsize : size < 2 ^ 64) :
    (∀ (b : ℕ) (mem : Memory) (paddr fuel : ℕ),
        (∃ mem', pmemsetLoop b fuel mem paddr size = .ok mem') ↔
          (size + Arch.pageSize - 1) / Arch.pageSize < fuel) ↔ Arch.pageSize ∣ size := by
  constructor
  · intro hrounds
    by_contra hodd
    obtain ⟨mem', hrun⟩ := (hrounds 0 (fun _ => 0) 0 _).2 (Nat.lt_succ_self _)
    rw [pmemsetLoop_hang 0 _ _ _ _ hodd hsize] at hrun
    cases hrun
  · rintro ⟨k, rfl⟩ b mem paddr fuel
    have hk : k < 2 ^ 52 := by
      simp only [Arch.pageSize] at hsize
      omega
    have hceil : (Arch.pageSize * k + Arch.pageSize - 1) / Arch.pageSize = k := by
      simp only [Arch.pageSize]
      omega
    rw [hceil]
    constructor
    · rintro ⟨mem', hrun⟩
      by_contra hle
      rw [pmemsetLoop_short b fuel mem paddr k (not_lt.1 hle) hk] at hrun
      cases hrun
    · intro hlt
      obtain ⟨mem', hrun, -⟩ := pmemsetLoop_spec b k fuel mem paddr hlt hk
      exact ⟨mem', hrun⟩

/-! ### What the interface should do -/

/-- A run comes back, whatever is in memory, and changes no byte outside `S`. -/
def FillsWithin (run : Memory → Outcome Memory) (S : ℕ → Prop) : Prop :=
  ∀ mem, ∃ mem', run mem = .ok mem' ∧ ∀ y, ¬ S y → mem' y = mem y

/-- Memory after `alloc_pages`. -/
def memoryAfterAlloc (pages : Pages) (b : BuddyPmalloc) (mem : Memory) : Outcome Memory := do
  let r ← allocPages pmmAdapter pages ⟨b, mem⟩
  return r.2.2.mem

/-- Memory after `free_pages`. -/
def memoryAfterFree (pages : Pages) (b : BuddyPmalloc) (mem : Memory) : Outcome Memory := do
  let s ← freePages pmmAdapter pages ⟨b, mem⟩
  return s.mem

/-- **What the interface should do about a request** that the allocator answers with the block at
`i`: `alloc_pages`, and `free_pages` as long as the block is out, write only to that block, and
`pmemset` needs one round a page. -/
structure PageFills (b₀ : BuddyPmalloc) (s : BuddyRun) (pages : Pages) (i : ℕ) : Prop where
  alloc : FillsWithin (memoryAfterAlloc pages s.alloc)
    (blockMem b₀ ⟨i, s.alloc.orderFor pages.size⟩).Covers
  free : ∀ t, buddyService.Reachable (BuddyRun.start b₀) t → i ∈ t.live →
    t.alloc.pages i = s.alloc.claimPage pages.size → ∀ flags, flags &&& gfpUnsafe = 0 →
      FillsWithin (memoryAfterFree ⟨b₀.pageAddr i, pages.size, flags⟩ t.alloc)
        (blockMem b₀ ⟨i, s.alloc.orderFor pages.size⟩).Covers
  rounds : ∀ (b : ℕ) (mem : Memory) (paddr fuel : ℕ),
    (∃ mem', pmemsetLoop b fuel mem paddr pages.size = .ok mem') ↔
      (pages.size + Arch.pageSize - 1) / Arch.pageSize < fuel

/-! ### The exact condition -/

section Exact

variable {b₀ : BuddyPmalloc} {n : ℕ}

/-- The bytes of the first pages of a block are in the block. -/
theorem DirectMapped.covers_pageByte (h : DirectMapped b₀ n) {X : Block}
    (hX : X.index + 2 ^ X.order ≤ n) {x : ℕ} (hx : x < Arch.pageSize * 2 ^ X.order) :
    (blockMem b₀ X).Covers (pageByte (b₀.pageAddr X.index) x) := by
  have hpos := Nat.two_pow_pos X.order
  have hlt : X.index < n := by omega
  obtain ⟨haddr, -⟩ := h.pageAddr_eq hlt
  have htop := h.top
  have hdvd : Arch.pageSize ∣ b₀.pageAddr X.index := by
    rw [haddr]
    exact dvd_add h.dvd (dvd_mul_right _ _)
  have hle : Arch.pageSize * (X.index + 2 ^ X.order) ≤ Arch.pageSize * n :=
    Nat.mul_le_mul_left _ hX
  rw [Nat.mul_add] at hle
  have hval : pageByte (b₀.pageAddr X.index) x =
      Arch.koffset + (b₀.base + Arch.pageSize * X.index) + x := by
    rw [pageByte_of_dvd hdvd, haddr]
    simp only [pa2kva, wrap32, Arch.ktop, Arch.koffset] at htop ⊢
    omega
  rw [MemBlock.Covers, blockMem, h.toNat_pagePtr hlt, hval]
  simp only
  omega

/-- It is a zone as the page interface has it. -/
theorem DirectMapped.zone (h : DirectMapped b₀ n) : PageClients.Zone b₀ n where
  params := h.params
  pageSize := h.pageSize
  pool := by
    have htop := h.top
    rw [h.pageSize, Nat.mul_comm]
    simp only [Arch.ktop, Arch.koffset] at htop
    omega

/-- Address zero is in no block. -/
theorem DirectMapped.not_covers_zero (h : DirectMapped b₀ n) {X : Block} (hX : X.index < n) :
    ¬ (blockMem b₀ X).Covers 0 := by
  intro hcov
  have hlow := hcov.1
  rw [blockMem, h.toNat_pagePtr hX] at hlow
  simp only [Arch.koffset] at hlow
  omega

/-- **When filling keeps to a block**: for whole pages, no more than the block has. -/
theorem fillsWithin_iff (h : DirectMapped b₀ n) {X : Block} (hX : X.index + 2 ^ X.order ≤ n)
    {size b : ℕ} (hsize : size < 2 ^ 64)
    (hfits : Arch.pageSize ∣ size → size < 2 ^ 44 → size ≤ Arch.pageSize * 2 ^ X.order) :
    FillsWithin (fun mem => pmemset mem (b₀.pageAddr X.index) b size) (blockMem b₀ X).Covers ↔
      Arch.pageSize ∣ size ∧ size < 2 ^ 44 := by
  have hlt : X.index < n := by
    have hpos := Nat.two_pow_pos X.order
    omega
  constructor
  · intro hfill
    -- a byte at address zero that is not the filling
    obtain ⟨mem', hfilled, hkept⟩ := hfill fun _ => b + 1
    have hrun : pmemset (fun _ => b + 1) (b₀.pageAddr X.index) b size = .ok mem' := hfilled
    have hdvd : Arch.pageSize ∣ size := by
      by_contra hodd
      rw [pmemset_hang _ _ _ hodd hsize] at hrun
      cases hrun
    refine ⟨hdvd, ?_⟩
    by_contra hlarge
    have hpage : Arch.pageSize ∣ b₀.pageAddr X.index := by
      rw [(h.pageAddr_eq hlt).1]
      exact dvd_add h.dvd (dvd_mul_right _ _)
    obtain ⟨x, hx, hzero⟩ := pmemset_reaches hpage
    obtain ⟨mem₁, hrun₁, hbytes⟩ := pmemset_spec (fun _ => b + 1) (b₀.pageAddr X.index) b hdvd
      hsize
    obtain rfl := Except.ok.inj (hrun.symm.trans hrun₁)
    have hbyte := hbytes x (by omega)
    rw [hzero, hkept 0 (h.not_covers_zero hlt)] at hbyte
    omega
  · rintro ⟨hdvd, hsmall⟩ mem
    obtain ⟨mem', hrun, -⟩ := pmemset_spec mem (b₀.pageAddr X.index) b hdvd hsize
    refine ⟨mem', hrun, fun y hy => pmemset_frame hdvd hsize hrun fun x hx heq => hy ?_⟩
    rw [heq]
    exact h.covers_pageByte hX (hx.trans_le (hfits hdvd hsmall))

/-- What `alloc_pages` does to memory is what `pmemset` does. -/
theorem memoryAfterAlloc_eq {pages : Pages} (hzero : pages.flags &&& gfpZero ≠ 0)
    {b b' : BuddyPmalloc} {paddr : ℕ}
    (hrun : allocAdapter pages b = .ok (0, { pages with paddr := paddr }, b')) :
    memoryAfterAlloc pages b = fun mem => pmemset mem paddr 0 pages.size := by
  funext mem
  rw [memoryAfterAlloc, allocPages_zeroing hrun hzero]
  cases pmemset mem paddr 0 pages.size <;> rfl

/-- And so for `free_pages`. -/
theorem memoryAfterFree_eq {pages : Pages} (hsafe : pages.flags &&& gfpUnsafe = 0)
    {b b' : BuddyPmalloc} (hrun : freeAdapter pages b = .ok b') :
    memoryAfterFree pages b = fun mem => pmemset mem pages.paddr junkByte pages.size := by
  funext mem
  have hadapter : pmmAdapter.free pages b = .ok b' := hrun
  rw [memoryAfterFree, freePages, fillJunk, if_pos hsafe]
  simp only [hadapter]
  cases pmemset mem pages.paddr junkByte pages.size <;> rfl

variable {valloc : ℕ → ℕ} {base : ℕ} {s : BuddyRun} {pages : Pages} {i : ℕ} {b' : BuddyPmalloc}

/-- **When filling is safe.**  The allocator answers a request of any size; the filling of the block
ends and stays in the block exactly when the size is a whole number of pages, fewer than `2 ^ 32`. -/
theorem page_fills_iff (hctor : ctor valloc base Arch.pageSize n = .ok b₀)
    (hzone : DirectMapped b₀ n) (hs : buddyService.Reachable (BuddyRun.start b₀) s)
    (hsize : pages.size < 2 ^ 64) (hzero : pages.flags &&& gfpZero ≠ 0)
    (hrun : s.alloc.mallocPage pages.size = .ok (some i, b')) :
    PageFills b₀ s pages i ↔ Arch.pageSize ∣ pages.size ∧ pages.size < 2 ^ 44 := by
  obtain ⟨-, hbase, hpage, -⟩ := models_of_ctor hctor
  have hw₀ : Widths b₀.base b₀.pageSize := hzone.params.widths
  have hw : Widths base Arch.pageSize := by rwa [hbase, hpage] at hw₀
  have hz := hzone.zone
  obtain ⟨P, hP⟩ := BuddyRun.Service.inv hw hctor hs
  obtain ⟨P', ha⟩ := allocated_of_mallocPage hP.models (pagesFor_le_of_mallocPage hrun) hrun
  set X : Block := ⟨i, s.alloc.orderFor pages.size⟩ with hX
  have hstop : X.index + 2 ^ X.order ≤ n := P'.tiling.stop_le X (P'.used_mem ha.mem_used)
  have hfits : Arch.pageSize ∣ pages.size → pages.size < 2 ^ 44 →
      pages.size ≤ Arch.pageSize * 2 ^ X.order := by
    rintro ⟨k, hk⟩ hsmall
    have hcount : (pages.size + s.alloc.pageSize - 1) / s.alloc.pageSize < 2 ^ 32 := by
      rw [hP.setup.pageSize, hpage, hk]
      simp only [Arch.pageSize] at hk ⊢
      omega
    have hblock := le_block_of_pagesFor (hP.widths hw₀) hcount
    rwa [hP.setup.pageSize, hpage, Nat.mul_comm] at hblock
  have halloc := memoryAfterAlloc_eq hzero (PageClients.allocAdapter_of_mallocPage hz hP hrun)
  constructor
  · intro hfills
    have hfill := hfills.alloc
    rw [halloc] at hfill
    exact (fillsWithin_iff hzone hstop hsize hfits).1 hfill
  · intro hcond
    refine ⟨?_, fun t ht hi hrecord flags hsafe => ?_, (pmemsetLoop_rounds_iff hsize).2 hcond.1⟩
    · rw [halloc]
      exact (fillsWithin_iff hzone hstop hsize hfits).2 hcond
    · obtain ⟨Q, hQ⟩ := BuddyRun.Service.inv hw hctor ht
      rw [hP.setup.claimPage] at hrecord
      set given : Pages := ⟨b₀.pageAddr i, pages.size, flags⟩ with hgiven
      have haddr : given.paddr = b₀.pageAddr i := rfl
      obtain ⟨b'', -, hfree⟩ := PageClients.freeAdapter_of_record hz hQ hi haddr hrecord
      rw [memoryAfterFree_eq hsafe hfree]
      exact (fillsWithin_iff hzone hstop hsize hfits).2 hcond

end Exact

/-- One page out of three is free, and it answers requests of a byte and of a page. -/
theorem exists_zone_three : ∃ b₀ s, ctor (fun _ => 1) 0x1000000 Arch.pageSize 3 = .ok b₀ ∧
    DirectMapped b₀ 3 ∧ buddyService.Reachable (BuddyRun.start b₀) s ∧
    (∃ b', s.alloc.mallocPage 1 = .ok (some 0, b')) ∧
    ∃ b', s.alloc.mallocPage 0x1000 = .ok (some 0, b') := by
  have hrun : (do
      let b ← ctor (fun _ => 1) 0x1000000 Arch.pageSize 3
      let s ← (BuddyRun.start b).step (.free 0)
      let byte ← s.alloc.mallocPage 1
      let page ← s.alloc.mallocPage 0x1000
      return (byte.1, page.1)) = Except.ok (some 0, some 0) := by decide +kernel
  obtain ⟨b₀, hctor, hrun⟩ := bind_eq_ok.1 hrun
  obtain ⟨s, hfree, hrun⟩ := bind_eq_ok.1 hrun
  obtain ⟨⟨answer, b₁⟩, hbyte, hrun⟩ := bind_eq_ok.1 hrun
  obtain ⟨⟨answer', b₂⟩, hpage, hrun⟩ := bind_eq_ok.1 hrun
  cases Except.ok.inj hrun
  obtain ⟨hmodels, hbase, hsize, -⟩ := models_of_ctor hctor
  have hlegal : (0 : ℕ) ∈ (BuddyRun.start b₀).live := by
    rw [BuddyRun.start, hmodels.fits.pageCount_eq]
    exact Finset.mem_range.2 (by omega)
  exact ⟨b₀, s, hctor, ⟨hsize, by rw [hbase]; decide, by rw [hbase]; decide⟩,
    .step (r := .free 0) .init hlegal hfree, ⟨b₁, hbyte⟩, ⟨b₂, hpage⟩⟩

/-- A whole page is filled. -/
theorem page_fills_iff_page : ∃ b₀ s, DirectMapped b₀ 3 ∧ (PageFills b₀ s ⟨0, 0x1000, gfpZero⟩ 0 ↔
    Arch.pageSize ∣ 0x1000 ∧ 0x1000 < 2 ^ 44) := by
  obtain ⟨b₀, s, hctor, hzone, hs, -, b', hpage⟩ := exists_zone_three
  have hrun : s.alloc.mallocPage (⟨0, 0x1000, gfpZero⟩ : Pages).size = .ok (some 0, b') := hpage
  exact ⟨b₀, s, hzone, page_fills_iff hctor hzone hs (by decide) (by decide) hrun⟩

/-- The allocator has a page for one byte, but `alloc_pages` never comes back. -/
theorem not_page_fills_byte : ∃ b₀ s b', ctor (fun _ => 1) 0x1000000 Arch.pageSize 3 = .ok b₀ ∧
    DirectMapped b₀ 3 ∧ buddyService.Reachable (BuddyRun.start b₀) s ∧
    s.alloc.mallocPage 1 = .ok (some 0, b') ∧
    (∀ mem, memoryAfterAlloc ⟨0, 1, gfpZero⟩ s.alloc mem = .error .hang) ∧
    ¬ PageFills b₀ s ⟨0, 1, gfpZero⟩ 0 := by
  obtain ⟨b₀, s, hctor, hzone, hs, ⟨b', hbyte⟩, -⟩ := exists_zone_three
  have hw : Widths 0x1000000 Arch.pageSize := ⟨by decide, by decide, by decide⟩
  obtain ⟨P, hP⟩ := BuddyRun.Service.inv hw hctor hs
  set pages : Pages := ⟨0, 1, gfpZero⟩ with hpages
  have hrun : s.alloc.mallocPage pages.size = .ok (some 0, b') := hbyte
  have halloc := memoryAfterAlloc_eq (by decide)
    (PageClients.allocAdapter_of_mallocPage hzone.zone hP hrun)
  have hhang : ∀ mem, memoryAfterAlloc pages s.alloc mem = .error .hang := fun mem => by
    rw [halloc]
    exact pmemset_hang _ _ _ (by decide) (by decide)
  refine ⟨b₀, s, b', hctor, hzone, hs, hbyte, hhang, fun hfills => ?_⟩
  obtain ⟨mem', hfilled, -⟩ := hfills.alloc fun _ => 0
  rw [hhang] at hfilled
  cases hfilled

end Aim
