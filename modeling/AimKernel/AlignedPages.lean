/-
**When `alloc_aligned_pages` does what it is for.**

`alloc_aligned_pages` asks for `align - PAGE_SIZE` bytes more than it needs and frees the pieces
before and after the aligned part.  The adapter remembers one size for a block, that of the whole
request.  Freeing the piece before the aligned part is a size mismatch; so is, later on, freeing the
aligned part itself.  With `align = PAGE_SIZE` there are no pieces, and all is well.

Main definitions:

* `Aim.Reserves` — some pages were reserved at an aligned address, and the padding was not;
* `Aim.AlignedAllocation` — what `alloc_aligned_pages` is for.

Main results:

* `Aim.BuddyPmalloc.free_byteSize` — `free` never changes a recorded size;
* `Aim.allocAlignedPages_correct_iff` — **`alloc_aligned_pages` does what it is for exactly when
  there is nothing to cut off, or nothing to allocate**.
-/

import AimKernel.PageAllocator

set_option relaxedAutoImplicit false
set_option autoImplicit false

namespace Aim

open DyadicBlocks

/-! ### The recorded sizes -/

namespace BuddyPmalloc

theorem setPage_byteSize (b : BuddyPmalloc) (i : ℕ) {f : BuddyPage → BuddyPage}
    (hf : ∀ pp, (f pp).byteSize = pp.byteSize) (j : ℕ) :
    ((b.setPage i f).pages j).byteSize = (b.pages j).byteSize := by
  by_cases h : j = i
  · rw [h, setPage_pages_self, hf]
  · rw [setPage_pages_of_ne b f h]

/-- **`free` never changes a recorded size**, in whatever state it is called. -/
theorem free_byteSize {b b' : BuddyPmalloc} {ptr : ℕ} (h : b.free ptr = .ok b') :
    SameSetup b b' ∧ ∀ i, (b'.pages i).byteSize = (b.pages i).byteSize := by
  obtain ⟨-, -, h⟩ := bind_eq_ok.1 h
  obtain ⟨-, -, h⟩ := bind_eq_ok.1 h
  obtain ⟨-, -, h⟩ := bind_eq_ok.1 h
  obtain ⟨-, -, h⟩ := bind_eq_ok.1 h
  obtain ⟨-, -, h⟩ := bind_eq_ok.1 h
  obtain rfl := Except.ok.inj h
  set pp := b.pages (b.pageIndex ptr)
  obtain ⟨hpages, hs⟩ := mergeLoop_frame (b.maxOrder - pp.order) pp.order (b.pageIndex ptr)
    (b.credit pp)
  refine ⟨⟨hs.maxOrder, hs.base, hs.pageSize, hs.pageCount⟩, fun i => ?_⟩
  rw [listAdd_pages, setPage_byteSize]
  swap
  · exact fun _ => rfl
  exact congrArg (fun pages => (pages i).byteSize) hpages

end BuddyPmalloc

/-! ### The purpose -/

/-- The pages at `pages.paddr`, which is aligned, were free in `b` and no longer are in `b'`; of the
larger block taken from `b` to find them there, the padding is free again. -/
structure Reserves (b : BuddyPmalloc) (pages : Pages) (align : ℕ) (b' : BuddyPmalloc) : Prop where
  dvd : align ∣ pages.paddr
  reserved : ∃ k, pages.paddr = b.pageAddr k ∧ ∀ i, k ≤ i → i < k + pages.size / Arch.pageSize →
    b.FreePage i ∧ ¬ b'.FreePage i
  padding : ∃ bufAddr b₁, b.malloc (pages.size + align - Arch.pageSize) = .ok (bufAddr, b₁) ∧
    bufAddr ≤ pages.paddr ∧ pages.paddr ≤ bufAddr + (align - Arch.pageSize) ∧
    ∀ i, bufAddr ≤ b.pageAddr i → b.pageAddr i < bufAddr + (pages.size + align - Arch.pageSize) →
      ¬ (pages.paddr ≤ b.pageAddr i ∧ b.pageAddr i < pages.paddr + pages.size) → b'.FreePage i

/-- What `alloc_aligned_pages` is for: it fails and leaves the allocator alone, or it returns
aligned pages, and freeing them brings the free pages back. -/
def AlignedAllocation (s : PageState BuddyPmalloc) (pages : Pages) (align : ℕ) : Prop :=
  (∃ s', allocAlignedPages pmmAdapter pages align s = .ok (eof, pages, s') ∧
    s'.alloc = s.alloc) ∨
  ∃ pages' s', allocAlignedPages pmmAdapter pages align s = .ok (0, pages', s') ∧
    pages'.size = pages.size ∧ Reserves s.alloc pages' align s'.alloc ∧
    ∃ s'', freePages pmmAdapter pages' s' = .ok s'' ∧
      ∀ i, s''.alloc.FreePage i ↔ s.alloc.FreePage i

/-! ### The adapter on whole pages -/

section Aligned

open BuddyPmalloc

variable {n m : ℕ} {b : BuddyPmalloc} {P : Pool n m} {pages : Pages} {align : ℕ}

/-- Sizes and alignments the function is meant for: whole pages, and a power of two. -/
structure Request (pages : Pages) (align : ℕ) : Prop where
  dvd : Arch.pageSize ∣ pages.size
  pos : 0 < pages.size
  pow : ∃ k, align = 2 ^ k
  le : Arch.pageSize ≤ align
  limit : (pages.size + align) / Arch.pageSize < 2 ^ 31

/-- The request that `alloc_aligned_pages` makes of `alloc_pages`. -/
def bufPages (pages : Pages) (align : ℕ) : Pages :=
  { pages with size := wrap64 (pages.size + sub64 align Arch.pageSize) }

theorem bufPages_flags (pages : Pages) (align : ℕ) :
    (bufPages pages align).flags = pages.flags := by
  cases pages
  rfl

theorem Request.align_pow (h : Request pages align) :
    ∃ k, 12 ≤ k ∧ k < 43 ∧ align = 2 ^ k := by
  obtain ⟨k, rfl⟩ := h.pow
  have hle := h.le
  have hlimit := h.limit
  have hpos := h.pos
  simp only [Arch.pageSize] at hle hlimit
  refine ⟨k, ?_, ?_, rfl⟩
  · exact (Nat.pow_le_pow_iff_right (by decide)).1 (show 2 ^ 12 ≤ 2 ^ k from hle)
  · exact (Nat.pow_lt_pow_iff_right (by decide)).1 (show 2 ^ k < 2 ^ 43 by omega)

theorem Request.align_dvd (h : Request pages align) : Arch.pageSize ∣ align := by
  obtain ⟨k, hk, -, rfl⟩ := h.align_pow
  exact Nat.pow_dvd_pow 2 hk

theorem Request.buf_size (h : Request pages align) :
    (bufPages pages align).size = pages.size + align - Arch.pageSize := by
  have hle := h.le
  have hlimit := h.limit
  simp only [Arch.pageSize] at hle hlimit
  simp only [bufPages, Arch.pageSize]
  rw [sub64_of_le hle (by omega), wrap64_of_lt (by omega)]
  omega

theorem Request.buf_dvd (h : Request pages align) :
    Arch.pageSize ∣ (bufPages pages align).size := by
  rw [h.buf_size]
  exact Nat.dvd_sub (dvd_add h.dvd h.align_dvd) (dvd_refl _)

theorem Request.buf_lt (h : Request pages align) : (bufPages pages align).size < 2 ^ 43 := by
  have hlimit := h.limit
  rw [h.buf_size]
  simp only [Arch.pageSize] at *
  omega

/-- Page addresses are no error codes. -/
theorem pageAddr_ne_minusOne (hb : Params b.base Arch.pageSize) (hsize : b.pageSize = Arch.pageSize)
    (i : ℕ) : b.pageAddr i ≠ minusOne64 := by
  intro h
  have hdvd := dvd_pageAddr (b := b) (by rwa [hsize]) i
  rw [h, hsize] at hdvd
  exact absurd hdvd (by decide)

/-- Where the allocator has a block, the interface returns its address. -/
theorem allocPages_of_mallocPage (hb : Params b.base Arch.pageSize)
    (hsize : b.pageSize = Arch.pageSize) {buf : Pages} (hdvd : Arch.pageSize ∣ buf.size)
    (hlt : buf.size < 2 ^ 64) {i : ℕ} {b' : BuddyPmalloc}
    (hrun : b.mallocPage buf.size = .ok (some i, b')) (hs : SameSetup b b')
    (haddr : b.retAddr i = b.pageAddr i) (mem : Memory) :
    ∃ mem', allocPages pmmAdapter buf ⟨b, mem⟩ =
      .ok (0, ⟨b.pageAddr i, buf.size, buf.flags⟩, ⟨b', mem'⟩) := by
  refine allocPages_of_alloc ?_ hdvd hlt
  show allocAdapter buf b = _
  rw [allocAdapter, malloc_of_mallocPage_some hrun hs, haddr, ok_bind]
  simp only
  rw [if_neg (pageAddr_ne_minusOne hb hsize i)]
  rfl

/-- Where it has none, the interface fails. -/
theorem allocPages_of_mallocPage_none {buf : Pages} (hdvd : Arch.pageSize ∣ buf.size)
    (hlt : buf.size < 2 ^ 64) (hrun : b.mallocPage buf.size = .ok (none, b)) (mem : Memory) :
    ∃ mem', allocPages pmmAdapter buf ⟨b, mem⟩ = .ok (eof, buf, ⟨b, mem'⟩) := by
  refine allocPages_of_alloc ?_ hdvd hlt
  show allocAdapter buf b = _
  rw [allocAdapter, malloc, hrun]
  rfl

/-- A failed allocation is passed on. -/
theorem allocAlignedPages_of_eof {s s' : PageState BuddyPmalloc}
    (h : allocPages pmmAdapter (bufPages pages align) s = .ok (eof, bufPages pages align, s')) :
    allocAlignedPages pmmAdapter pages align s = .ok (eof, pages, s') := by
  rw [bufPages] at h
  rw [allocAlignedPages]
  simp only
  rw [h]
  rfl

/-- A successful one is trimmed. -/
theorem allocAlignedPages_of_ok {s s' : PageState BuddyPmalloc} {buf : Pages}
    (h : allocPages pmmAdapter (bufPages pages align) s = .ok (0, buf, s')) :
    allocAlignedPages pmmAdapter pages align s = (do
      let pages := { pages with paddr := alignAbove 64 buf.paddr align }
      let s ← freePadding pmmAdapter buf.flags buf.paddr pages.paddr s'
      let s ← freePadding pmmAdapter buf.flags (wrap64 (pages.paddr + pages.size))
        (wrap64 (buf.paddr + buf.size)) s
      return (0, pages, s)) := by
  rw [bufPages] at h
  rw [allocAlignedPages]
  simp only
  rw [h, ok_bind]
  simp only
  rw [if_neg (lt_irrefl _)]

/-- The adapter only lets a block go at the size it was asked for. -/
theorem getSize_of_freePages {s s' : PageState BuddyPmalloc}
    (h : freePages pmmAdapter pages s = .ok s') : s.alloc.getSize pages.paddr = pages.size := by
  have hfree : freeAdapter pages s.alloc = .ok s'.alloc := free_of_freePages h
  by_contra hne
  rw [freeAdapter, if_pos hne] at hfree
  cases hfree

/-- Trimming keeps the recorded sizes. -/
theorem freePadding_byteSize {flags start stop : ℕ} {s s' : PageState BuddyPmalloc}
    (h : freePadding pmmAdapter flags start stop s = .ok s') :
    SameSetup s.alloc s'.alloc ∧
      ∀ i, (s'.alloc.pages i).byteSize = (s.alloc.pages i).byteSize := by
  rw [freePadding] at h
  split_ifs at h with hlt
  · have hfree : freeAdapter _ s.alloc = .ok s'.alloc := free_of_freePages h
    rw [freeAdapter] at hfree
    split_ifs at hfree with hne
    exact free_byteSize hfree
  · obtain rfl := Except.ok.inj h
    exact ⟨.refl _, fun _ => rfl⟩

end Aligned

/-! ### The exact condition -/

section Exact

open BuddyPmalloc

variable {n m : ℕ} {b₀ : BuddyPmalloc} {s : BuddyRun} {P : Pool n m} {pages : Pages} {align : ℕ}

/-- The set-up of an allocator behind the adapter: pages of 4 KB, a pool of at most 4 GB. -/
structure AdapterPool (base n : ℕ) : Prop where
  params : Params base Arch.pageSize
  pool_le : n * Arch.pageSize ≤ 2 ^ 32
  stop_le : base + n * Arch.pageSize ≤ 2 ^ 63

theorem Request.pagesFor_eq {b : BuddyPmalloc} (hreq : Request pages align)
    (hb : Params b.base Arch.pageSize) (hsize : b.pageSize = Arch.pageSize) :
    b.pagesFor (bufPages pages align).size =
        (pages.size + align - Arch.pageSize) / Arch.pageSize ∧
      b.pagesFor (bufPages pages align).size ≤ 2 ^ 31 := by
  have hlt := hreq.buf_lt
  obtain ⟨k, hk⟩ := hreq.buf_dvd
  have hquot : ((bufPages pages align).size + b.pageSize - 1) / b.pageSize = k := by
    rw [hk, hsize]
    simp only [Arch.pageSize]
    omega
  have hklt : k < 2 ^ 31 := by
    rw [hk] at hlt
    simp only [Arch.pageSize] at hlt
    omega
  have hwidths : Widths b.base b.pageSize := hsize ▸ hb.widths
  rw [BuddyPmalloc.pagesFor_eq hwidths (by rwa [hquot]), hquot, ← hreq.buf_size, hk]
  refine ⟨?_, hklt.le⟩
  simp only [Arch.pageSize]
  omega

/-- Without a large enough block, the function fails and leaves the allocator alone. -/
theorem alignedAllocation_of_none (h : BuddyRun.Inv b₀ s P) (hreq : Request pages align)
    (hcnt : s.alloc.pagesFor (bufPages pages align).size ≤ 2 ^ 31)
    (hnone : ∀ B ∈ P.free, B.order < s.alloc.orderFor (bufPages pages align).size)
    (mem : Memory) : AlignedAllocation ⟨s.alloc, mem⟩ pages align := by
  obtain ⟨mem', hrun⟩ := allocPages_of_mallocPage_none (b := s.alloc) hreq.buf_dvd
    (lt_trans hreq.buf_lt (by decide)) (mallocPage_none h.models hcnt hnone) mem
  exact .inl ⟨_, allocAlignedPages_of_eof hrun, rfl⟩

/-- A block taken from a pool behind the adapter, with its address. -/
theorem AdapterPool.exists_block (hpool : AdapterPool s.alloc.base n)
    (hsize : s.alloc.pageSize = Arch.pageSize) (h : BuddyRun.Inv b₀ s P)
    (hreq : Request pages align)
    (hsome : ∃ B ∈ P.free, s.alloc.orderFor (bufPages pages align).size ≤ B.order)
    (mem : Memory) : ∃ i b' P' mem',
      Allocated s.alloc P (bufPages pages align).size i b' P' ∧ i < n ∧
      s.alloc.malloc (bufPages pages align).size = .ok (s.alloc.pageAddr i, b') ∧
      allocPages pmmAdapter (bufPages pages align) ⟨s.alloc, mem⟩ =
        .ok (0, ⟨s.alloc.pageAddr i, (bufPages pages align).size, pages.flags⟩, ⟨b', mem'⟩) := by
  obtain ⟨i, b', P', hrun, ha⟩ := mallocPage_some h.models
    (hreq.pagesFor_eq hpool.params hsize).2 hsome
  have hi := ha.index_lt
  have haddr : s.alloc.retAddr i = s.alloc.pageAddr i :=
    retAddr_eq_of_pool (hsize ▸ hpool.params.pos) (hsize ▸ hpool.pool_le) hi
  obtain ⟨mem', hmem⟩ := allocPages_of_mallocPage hpool.params hsize hreq.buf_dvd
    (lt_trans hreq.buf_lt (by decide)) hrun ha.setup haddr mem
  rw [bufPages_flags] at hmem
  exact ⟨i, b', P', mem', ha, hi, haddr ▸ malloc_of_mallocPage_some hrun ha.setup, hmem⟩

theorem AdapterPool.pageAddr_lt {b : BuddyPmalloc} (hpool : AdapterPool b.base n)
    (hsize : b.pageSize = Arch.pageSize) {i : ℕ} (hi : i ≤ n) :
    b.pageAddr i = b.base + Arch.pageSize * i ∧ b.pageAddr i ≤ 2 ^ 63 := by
  have hstop := hpool.stop_le
  have hmul : Arch.pageSize * i ≤ n * Arch.pageSize := by
    rw [Nat.mul_comm]
    exact Nat.mul_le_mul_right _ hi
  have heq : b.pageAddr i = b.base + Arch.pageSize * i := by
    rw [pageAddr, hsize, wrap64_of_lt (by omega)]
  exact ⟨heq, by omega⟩

/-- The block that was taken is still found under its address. -/
theorem AdapterPool.pageIndex_allocated (hpool : AdapterPool s.alloc.base n)
    (hsize : s.alloc.pageSize = Arch.pageSize) (h : BuddyRun.Inv b₀ s P) {size i : ℕ}
    {b' : BuddyPmalloc} {P' : Pool n m} (ha : Allocated s.alloc P size i b' P') (hi : i < n) :
    Params b'.base b'.pageSize ∧ b'.pageIndex (s.alloc.pageAddr i) = i := by
  have hcount := h.models.fits.count_lt
  have hparams : Params b'.base b'.pageSize := by
    rw [ha.setup.base, ha.setup.pageSize, hsize]
    exact hpool.params
  refine ⟨hparams, ?_⟩
  rw [← ha.setup.pageAddr_eq]
  exact pageIndex_pageAddr hparams.widths (by omega)

/-- **With nothing to cut off**, the function does what it is for. -/
theorem alignedAllocation_of_pageSize (h : BuddyRun.Inv b₀ s P)
    (hpool : AdapterPool s.alloc.base n) (hsize : s.alloc.pageSize = Arch.pageSize)
    (hreq : Request pages Arch.pageSize)
    (hsome : ∃ B ∈ P.free, s.alloc.orderFor (bufPages pages Arch.pageSize).size ≤ B.order)
    (mem : Memory) : AlignedAllocation ⟨s.alloc, mem⟩ pages Arch.pageSize := by
  obtain ⟨i, b', P', mem', ha, hi, hmalloc, hrun⟩ := hpool.exists_block hsize h hreq hsome mem
  obtain ⟨haddr, hlt⟩ := hpool.pageAddr_lt hsize hi.le
  have hbuf : (bufPages pages Arch.pageSize).size = pages.size := by
    rw [hreq.buf_size, Nat.add_sub_cancel]
  have hdvd : Arch.pageSize ∣ s.alloc.pageAddr i := hsize ▸ dvd_pageAddr (hsize ▸ hpool.params) i
  have halign : alignAbove 64 (s.alloc.pageAddr i) Arch.pageSize = s.alloc.pageAddr i :=
    alignAbove_of_dvd (k := 12) (by decide) hdvd (by omega)
  set X : Block := ⟨i, s.alloc.orderFor (bufPages pages Arch.pageSize).size⟩ with hX
  have hXmem : X ∈ P'.used := ha.mem_used
  obtain ⟨hsub, hcells⟩ := Pool.freeCells_of_insert ha.notMem ha.used_eq
  have hpages : s.alloc.pagesFor (bufPages pages Arch.pageSize).size =
      pages.size / Arch.pageSize := by
    rw [(hreq.pagesFor_eq hpool.params hsize).1, Nat.add_sub_cancel]
  have hcover : pages.size / Arch.pageSize ≤ 2 ^ X.order := by
    rw [← hpages]
    exact Nat.le_pow_clog (by decide) _
  -- the pieces to cut off are empty
  have hall : allocAlignedPages pmmAdapter pages Arch.pageSize ⟨s.alloc, mem⟩ =
      .ok (0, { pages with paddr := s.alloc.pageAddr i }, ⟨b', mem'⟩) := by
    rw [allocAlignedPages_of_ok hrun]
    simp only [halign, hbuf, freePadding, lt_irrefl, if_false, ok_bind]
    rfl
  refine .inr ⟨_, _, hall, rfl, ⟨hdvd, ⟨i, rfl, ?_⟩, ?_⟩, ?_⟩
  · intro j hij hj
    have hmem : j ∈ X.cells := by
      rw [Block.mem_cells]
      exact ⟨hij, lt_of_lt_of_le hj (Nat.add_le_add_left hcover i)⟩
    rw [h.models.tracks.freePage_iff, ha.models.tracks.freePage_iff, ← Pool.freeCells,
      ← Pool.freeCells, hcells, Finset.mem_sdiff]
    exact ⟨hsub hmem, fun hnot => hnot.2 hmem⟩
  · rw [hbuf] at hmalloc
    refine ⟨s.alloc.pageAddr i, b', ?_, le_refl _, Nat.le_add_right _ _, fun j hj hj' hout => ?_⟩
    · simp only [Nat.add_sub_cancel]
      exact hmalloc
    · simp only [Nat.add_sub_cancel] at hj' hout
      exact absurd ⟨hj, hj'⟩ hout
  · obtain ⟨hparams', hindex⟩ := hpool.pageIndex_allocated hsize h ha hi
    obtain ⟨b'', P'', hfree, hrel⟩ := free_spec ha.models hXmem
      (ha.setup.pageAddr_eq i ▸ dvd_pageAddr hparams' i) hindex
    have hadapter : freeAdapter { pages with paddr := s.alloc.pageAddr i } b' = .ok b'' := by
      rw [freeAdapter, if_neg, hfree]
      rw [not_not, getSize, hindex, ha.record]
      exact hbuf
    obtain ⟨mem'', hdone⟩ : ∃ mem'', freePages pmmAdapter { pages with paddr := s.alloc.pageAddr i }
        ⟨b', mem'⟩ = .ok ⟨b'', mem''⟩ :=
      freePages_of_free hadapter hreq.dvd (hbuf ▸ lt_trans hreq.buf_lt (by decide))
    refine ⟨_, hdone, fun j => ?_⟩
    have hused : P''.used = P.used := by
      rw [hrel.used_eq, ha.used_eq, Finset.erase_insert ha.notMem]
    rw [hrel.models.tracks.freePage_iff, h.models.tracks.freePage_iff,
      P''.free_eq_of_used_eq P hused]

/-- **With something to cut off**, the function does not do what it is for: either the adapter
panics, or the block returned cannot be freed. -/
theorem not_alignedAllocation (h : BuddyRun.Inv b₀ s P) (hpool : AdapterPool s.alloc.base n)
    (hsize : s.alloc.pageSize = Arch.pageSize) (hreq : Request pages align)
    (hlt : Arch.pageSize < align)
    (hsome : ∃ B ∈ P.free, s.alloc.orderFor (bufPages pages align).size ≤ B.order)
    (mem : Memory) : ¬ AlignedAllocation ⟨s.alloc, mem⟩ pages align := by
  obtain ⟨i, b', P', mem', ha, hi, -, hrun⟩ := hpool.exists_block hsize h hreq hsome mem
  obtain ⟨haddr, haddrlt⟩ := hpool.pageAddr_lt hsize hi.le
  obtain ⟨-, hindex⟩ := hpool.pageIndex_allocated hsize h ha hi
  have hbyte : (b'.pages i).byteSize = pages.size + align - Arch.pageSize := by
    rw [ha.record, ← hreq.buf_size]
    rfl
  have hpos := hreq.pos
  obtain ⟨k, hk, hk43, halign⟩ := hreq.align_pow
  -- whatever the function returns, it has trimmed the block at both ends
  have hok : ∀ {r : ℤ} {pages' : Pages} {s' : PageState BuddyPmalloc},
      allocAlignedPages pmmAdapter pages align ⟨s.alloc, mem⟩ = .ok (r, pages', s') →
      r = 0 ∧ pages'.paddr = alignAbove 64 (s.alloc.pageAddr i) align ∧ ∃ s₁,
        freePadding pmmAdapter pages.flags (s.alloc.pageAddr i)
          (alignAbove 64 (s.alloc.pageAddr i) align) ⟨b', mem'⟩ = .ok s₁ ∧
        SameSetup s₁.alloc s'.alloc ∧
        ∀ j, (s'.alloc.pages j).byteSize = (s₁.alloc.pages j).byteSize := by
    intro r pages' s' hres
    rw [allocAlignedPages_of_ok hrun] at hres
    obtain ⟨s₁, hs₁, hres⟩ := bind_eq_ok.1 hres
    obtain ⟨s₂, hs₂, hres⟩ := bind_eq_ok.1 hres
    have heq := Except.ok.inj hres
    have hs' : s₂ = s' := congrArg (fun t => t.2.2) heq
    refine ⟨(congrArg Prod.fst heq).symm, (congrArg (fun t => t.2.1.paddr) heq).symm, s₁, hs₁, ?_⟩
    rw [← hs']
    exact freePadding_byteSize hs₂
  rintro (⟨s', hres, -⟩ | ⟨pages', s', hres, hsz, -, s'', hfree, -⟩)
  · exact absurd (hok hres).1 (by decide)
  · obtain ⟨-, hpaddr, s₁, hs₁, hsetup, hbytes⟩ := hok hres
    have hle := Nat.le_of_dvd hpos hreq.dvd
    have hroom : s.alloc.pageAddr i + 2 ^ k ≤ 2 ^ 64 := by
      have : (2 : ℕ) ^ k ≤ 2 ^ 43 := Nat.pow_le_pow_right (by decide) hk43.le
      omega
    obtain ⟨hlow, hhigh⟩ := alignAbove_bounds (by omega) hroom
    rw [← halign] at hlow hhigh
    by_cases hfront : s.alloc.pageAddr i < alignAbove 64 (s.alloc.pageAddr i) align
    · -- the piece in front is the head of the block, recorded with its full size
      rw [freePadding, if_pos hfront] at hs₁
      have hget := getSize_of_freePages hs₁
      simp only [getSize, hindex, hbyte] at hget
      omega
    · -- without one, the aligned part is the head of the block
      rw [freePadding, if_neg hfront] at hs₁
      obtain rfl := Except.ok.inj hs₁
      have hget := getSize_of_freePages hfree
      have hpaddr' : pages'.paddr = s.alloc.pageAddr i := by omega
      have hindex' : s'.alloc.pageIndex (s.alloc.pageAddr i) = i := by
        rw [pageIndex, hsetup.base, hsetup.pageSize]
        exact hindex
      rw [hpaddr', getSize, hindex', hbytes, hbyte, hsz] at hget
      omega

/-- **When `alloc_aligned_pages` does what it is for.**  In every reachable state of the buddy
allocator behind the adapter, for every request of whole pages at a power of two of at least a page,
and whatever the flags: exactly when the alignment is a single page, or no free block is large
enough for the request with its padding. -/
theorem allocAlignedPages_correct_iff {valloc : ℕ → ℕ} {base pageCount : ℕ}
    (hpool : AdapterPool base pageCount)
    (hctor : ctor valloc base Arch.pageSize pageCount = .ok b₀)
    (hs : buddyMachine.Reachable (BuddyRun.start b₀) s) (hreq : Request pages align)
    (mem : Memory) :
    AlignedAllocation ⟨s.alloc, mem⟩ pages align ↔
      align = Arch.pageSize ∨
        ∀ o, Nat.clog 2 ((pages.size + align - Arch.pageSize) / Arch.pageSize) ≤ o →
          s.alloc.list o = [] := by
  obtain ⟨-, hbase₀, hsize₀, -⟩ := models_of_ctor hctor
  obtain ⟨P, hP⟩ := BuddyRun.Reachable.inv hpool.params hctor hs
  have hbase : s.alloc.base = base := hP.setup.base.trans hbase₀
  have hsize : s.alloc.pageSize = Arch.pageSize := hP.setup.pageSize.trans hsize₀
  rw [← hbase] at hpool
  obtain ⟨hpages, hcnt⟩ := hreq.pagesFor_eq hpool.params hsize
  have horder : Nat.clog 2 ((pages.size + align - Arch.pageSize) / Arch.pageSize) =
      s.alloc.orderFor (bufPages pages align).size := by rw [orderFor, hpages]
  rw [horder]
  have hlists : (∀ o, s.alloc.orderFor (bufPages pages align).size ≤ o → s.alloc.list o = []) ↔
      ∀ B ∈ P.free, B.order < s.alloc.orderFor (bufPages pages align).size := by
    constructor
    · intro hnil B hB
      by_contra hge
      have := (hP.models.tracks.mem_list B.order B.index).2 hB
      rw [hnil _ (not_lt.1 hge)] at this
      exact absurd this (List.not_mem_nil)
    · intro hlt o ho
      rw [List.eq_nil_iff_forall_not_mem]
      intro i hi
      exact absurd (hlt _ ((hP.models.tracks.mem_list o i).1 hi)) (not_lt.2 ho)
  rw [hlists]
  by_cases hsome : ∃ B ∈ P.free, s.alloc.orderFor (bufPages pages align).size ≤ B.order
  · have hnot : ¬ ∀ B ∈ P.free, B.order < s.alloc.orderFor (bufPages pages align).size := by
      obtain ⟨B, hB, hle⟩ := hsome
      exact fun hall => absurd (hall B hB) (not_lt.2 hle)
    rcases eq_or_lt_of_le hreq.le with rfl | hlt
    · exact ⟨fun _ => .inl rfl,
        fun _ => alignedAllocation_of_pageSize hP hpool hsize hreq hsome mem⟩
    · refine ⟨fun h => absurd h (not_alignedAllocation hP hpool hsize hreq hlt hsome mem), ?_⟩
      rintro (heq | hall)
      · exact absurd heq hlt.ne'
      · exact absurd hall hnot
  · have hnone : ∀ B ∈ P.free, B.order < s.alloc.orderFor (bufPages pages align).size :=
      fun B hB => by
        by_contra hge
        exact hsome ⟨B, hB, not_lt.1 hge⟩
    exact ⟨fun _ => .inr hnone, fun _ => alignedAllocation_of_none hP hreq hcnt hnone mem⟩

theorem adapterPool_four : AdapterPool 0x1000000 4 :=
  ⟨⟨⟨12, by decide, rfl⟩, pageSize_dvd_dmaStop, by decide⟩, by decide, by decide⟩

/-- A pool of four free pages, a request for one page at the alignment of a page. -/
theorem allocAlignedPages_correct_four :
    ∃ s : BuddyRun, s.alloc.freePageCount = 4 ∧
      AlignedAllocation ⟨s.alloc, fun _ => 0⟩ ⟨0, 0x1000, 0⟩ 0x1000 := by
  obtain ⟨b₀, hctor, -⟩ := ctor_spec (fun _ => 1) 0x1000000 Arch.pageSize
    (show 4 < 2 ^ 31 by decide) one_ne_zero
  obtain ⟨s, hs, hfree, -⟩ := BuddyRun.exists_reachable_all_free adapterPool_four.params hctor
  have hreq : Request ⟨0, 0x1000, 0⟩ 0x1000 :=
    ⟨dvd_refl _, by decide, ⟨12, rfl⟩, le_refl _, by decide⟩
  exact ⟨s, hfree,
    (allocAlignedPages_correct_iff adapterPool_four hctor hs hreq fun _ => 0).2 (.inl rfl)⟩

/-- The same pool, a request for one page at the alignment of two. -/
theorem allocAlignedPages_two_pages :
    ∃ (b₀ : BuddyPmalloc) (s : BuddyRun),
      ctor (fun _ => 1) 0x1000000 Arch.pageSize 4 = .ok b₀ ∧
      buddyMachine.Reachable (BuddyRun.start b₀) s ∧ s.alloc.freePageCount = 4 ∧
      ¬ AlignedAllocation ⟨s.alloc, fun _ => 0⟩ ⟨0, 0x1000, 0⟩ 0x2000 := by
  obtain ⟨b₀, hctor, -⟩ := ctor_spec (fun _ => 1) 0x1000000 Arch.pageSize
    (show 4 < 2 ^ 31 by decide) one_ne_zero
  obtain ⟨-, hbase₀, hsize₀, hmax⟩ := models_of_ctor hctor
  obtain ⟨s, hs, hfree, P, hP, hcells⟩ :=
    BuddyRun.exists_reachable_all_free adapterPool_four.params hctor
  have hreq : Request ⟨0, 0x1000, 0⟩ 0x2000 :=
    ⟨dvd_refl _, by decide, ⟨13, rfl⟩, by decide, by decide⟩
  have hbase : s.alloc.base = 0x1000000 := hP.setup.base.trans hbase₀
  have hsize : s.alloc.pageSize = Arch.pageSize := hP.setup.pageSize.trans hsize₀
  have hpool : AdapterPool s.alloc.base 4 := hbase ▸ adapterPool_four
  have horder : s.alloc.orderFor (bufPages ⟨0, 0x1000, 0⟩ 0x2000).size = 1 := by
    rw [orderFor, (hreq.pagesFor_eq hpool.params hsize).1]
    decide
  -- the first two pages lie in one free block
  have hmaxlog : b₀.maxOrder = 2 := by
    rw [hmax]
    decide
  have hsub : (⟨0, 1⟩ : Block).cells ⊆ P.freeCells := by
    rw [hcells]
    decide
  obtain ⟨B, hB, hBsub⟩ := P.exists_free_superset 1 0 (by decide) (by omega) hsub
  have hBorder : 1 ≤ B.order := by
    have hcard := Finset.card_le_card hBsub
    rw [Block.card_cells, Block.card_cells] at hcard
    exact (Nat.pow_le_pow_iff_right (by decide)).1 hcard
  exact ⟨b₀, s, hctor, hs, hfree, not_alignedAllocation hP hpool hsize hreq (by decide)
    ⟨B, hB, horder ▸ hBorder⟩ _⟩

end Exact

end Aim
