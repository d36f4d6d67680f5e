/-
**The bridge over the buddy allocator of the direct map.**

`koffset_pvbridge` takes pages from the buddy allocator of `ZONE_NORMAL` and adds `KOFFSET` to their
addresses; on release it subtracts `KOFFSET` again.  The zone lies below `KTOP - KOFFSET`, so neither
sum nor difference wraps, and blocks of pages without common pages are blocks of virtual memory
without common bytes.

Main definitions:

* `Aim.kva`, `Aim.koffsetPvbridge` — `pvbridge.c`;
* `Aim.DirectMapped` — a zone of pages inside the direct map;
* `Aim.BuddyOwns` — the blocks of virtual memory that are out stand for blocks in use.

Main results:

* `Aim.BuddyOwns.malloc`, `Aim.BuddyOwns.free` — **the buddy allocator, seen through the direct
  map**;
* `Aim.koffset_contract` — **the bridge keeps its contract.**
-/

import AimKernel.MemoryZones
import AimKernel.PvBridge

set_option relaxedAutoImplicit false
set_option autoImplicit false

namespace Aim

open DyadicBlocks BuddyPmalloc

/-! ### The bridge -/

/-- `PTRCAST(pa + KOFFSET)`. -/
def kva (pa : ℕ) : Ptr := BitVec.ofNat 32 (wrap64 (pa + Arch.koffset))

/-- What the bridge makes of an answer of the page allocator. -/
def bridged : ℕ × BuddyPmalloc → Ptr × BuddyPmalloc
  | (pa, b) => if pa = minusOne64 then (0, b) else (kva pa, b)

/-- `koffset_pvbridge__malloc(size)`. -/
def koffsetMalloc (size : ℕ) (b : BuddyPmalloc) : Outcome (Ptr × BuddyPmalloc) := do
  return bridged (← b.malloc size)

/-- `koffset_pvbridge__aligned_malloc(size, align)`. -/
def koffsetAlignedMalloc (size align : ℕ) (b : BuddyPmalloc) : Outcome (Ptr × BuddyPmalloc) := do
  return bridged (← b.alignedMalloc size align)

/-- `koffset_pvbridge__free(ptr)`. -/
def koffsetFree (ptr : Ptr) (b : BuddyPmalloc) : Outcome BuddyPmalloc :=
  if ptr = 0 then
    return b
  else
    b.free (sub32 ptr.toNat Arch.koffset)

/-- The bridge that `vmm_bootstrap` installs. -/
def koffsetPvbridge : PvBridge BuddyPmalloc where
  malloc := koffsetMalloc
  alignedMalloc := koffsetAlignedMalloc
  free := koffsetFree

/-! ### The direct map -/

/-- A zone of `n` pages inside the direct map. -/
structure DirectMapped (b : BuddyPmalloc) (n : ℕ) : Prop where
  pageSize : b.pageSize = Arch.pageSize
  dvd : Arch.pageSize ∣ b.base
  top : b.base + Arch.pageSize * n ≤ Arch.ktop - Arch.koffset

/-- The virtual address of a page. -/
def pagePtr (b : BuddyPmalloc) (index : ℕ) : Ptr := kva (b.pageAddr index)

/-- The virtual memory of a block of pages. -/
def blockMem (b : BuddyPmalloc) (X : Block) : MemBlock :=
  ⟨pagePtr b X.index, Arch.pageSize * 2 ^ X.order⟩

section DirectMap

variable {b : BuddyPmalloc} {n : ℕ}

theorem DirectMapped.params (h : DirectMapped b n) : Params b.base b.pageSize := by
  have htop := h.top
  simp only [Arch.ktop, Arch.koffset] at htop
  refine ⟨⟨12, by decide, by rw [h.pageSize]; rfl⟩, ?_, by omega⟩
  rw [h.pageSize]
  exact h.dvd

/-- Addition of `KOFFSET` does not wrap. -/
theorem toNat_kva {pa : ℕ} (h : pa < Arch.ktop - Arch.koffset) :
    (kva pa).toNat = Arch.koffset + pa := by
  simp only [Arch.ktop, Arch.koffset] at h ⊢
  rw [kva, wrap64_of_lt (by simp only [Arch.koffset]; omega), BitVec.toNat_ofNat]
  simp only [Arch.koffset]
  omega

/-- **Subtraction of `KOFFSET` gives the physical address back.** -/
theorem sub32_kva {pa : ℕ} (h : pa < Arch.ktop - Arch.koffset) :
    sub32 (kva pa).toNat Arch.koffset = pa := by
  rw [toNat_kva h, sub32_of_le (Nat.le_add_right _ _), Nat.add_sub_cancel_left]
  simp only [Arch.ktop, Arch.koffset] at h ⊢
  omega

theorem kva_ne_zero {pa : ℕ} (h : pa < Arch.ktop - Arch.koffset) : kva pa ≠ 0 := by
  intro hzero
  have hval := toNat_kva h
  rw [hzero] at hval
  simp only [Arch.koffset] at hval
  exact absurd hval (by simp; omega)

theorem DirectMapped.pageAddr_eq (h : DirectMapped b n) {i : ℕ} (hi : i < n) :
    b.pageAddr i = b.base + Arch.pageSize * i ∧ b.pageAddr i < Arch.ktop - Arch.koffset := by
  have htop := h.top
  have hstep : Arch.pageSize * i + Arch.pageSize ≤ Arch.pageSize * n := by
    calc Arch.pageSize * i + Arch.pageSize = Arch.pageSize * (i + 1) := by
          rw [Nat.mul_add, Nat.mul_one]
      _ ≤ Arch.pageSize * n := Nat.mul_le_mul_left _ hi
  have hpos : 0 < Arch.pageSize := by decide
  have hlt : b.base + Arch.pageSize * i < 2 ^ 64 := by
    simp only [Arch.ktop, Arch.koffset] at htop
    omega
  rw [pageAddr, h.pageSize, wrap64_of_lt hlt]
  exact ⟨rfl, by omega⟩

theorem DirectMapped.toNat_pagePtr (h : DirectMapped b n) {i : ℕ} (hi : i < n) :
    (pagePtr b i).toNat = Arch.koffset + (b.base + Arch.pageSize * i) := by
  obtain ⟨heq, hlt⟩ := h.pageAddr_eq hi
  rw [pagePtr, toNat_kva hlt, heq]

theorem DirectMapped.dvd_pagePtr (h : DirectMapped b n) {i : ℕ} (hi : i < n) :
    Arch.pageSize ∣ (pagePtr b i).toNat := by
  rw [h.toNat_pagePtr hi]
  exact dvd_add (by decide) (dvd_add h.dvd (dvd_mul_right _ _))

theorem DirectMapped.pagePtr_inj (h : DirectMapped b n) {i j : ℕ} (hi : i < n) (hj : j < n)
    (hij : pagePtr b i = pagePtr b j) : i = j := by
  have hval := congrArg BitVec.toNat hij
  rw [h.toNat_pagePtr hi, h.toNat_pagePtr hj] at hval
  simp only [Arch.pageSize] at hval
  omega

/-- The page that a byte of a block is in. -/
theorem DirectMapped.mem_cells_of_covers (h : DirectMapped b n) {X : Block} (hX : X.index < n)
    {a : ℕ} (ha : (blockMem b X).Covers a) :
    (a - (Arch.koffset + b.base)) / Arch.pageSize ∈ X.cells := by
  obtain ⟨hlow, hhigh⟩ := ha
  rw [blockMem, h.toNat_pagePtr hX] at hlow hhigh
  rw [Block.mem_cells]
  simp only [Arch.pageSize] at hlow hhigh ⊢
  omega

/-- Blocks without common pages have no common bytes. -/
theorem DirectMapped.blockMem_apart (h : DirectMapped b n) {X Y : Block} (hX : X.index < n)
    (hY : Y.index < n) (hdisjoint : Disjoint X.cells Y.cells) :
    (blockMem b X).Apart (blockMem b Y) := fun _ haX haY =>
  Finset.disjoint_left.1 hdisjoint (h.mem_cells_of_covers hX haX) (h.mem_cells_of_covers hY haY)

/-- Memory below the zone is in no page of it. -/
theorem DirectMapped.notCovers_of_le (h : DirectMapped b n) {c : MemBlock}
    (hle : c.start.toNat + c.size ≤ Arch.koffset + b.base) {X : Block} (hX : X.index < n) {a : ℕ}
    (ha : c.Covers a) : ¬ (blockMem b X).Covers a := by
  intro hcov
  have hlow := hcov.1
  have hhigh := ha.2
  rw [blockMem, h.toNat_pagePtr hX] at hlow
  omega

end DirectMap

/-! ### The buddy allocator through the direct map -/

/-- The blocks `L` of virtual memory are out: each stands for a block in use of the pool, and the
reserved memory is in blocks in use that stand for none of them, or outside the zone. -/
structure BuddyOwns {n m : ℕ} (b₀ : BuddyPmalloc) (reserved : MemBlock) (b : BuddyPmalloc)
    (P : Pool n m) (L : Multiset MemBlock) : Prop where
  models : Models b P
  setup : SameSetup b₀ b
  starts : (L.map MemBlock.start).Nodup
  blocks : ∀ c ∈ L, ∃ X ∈ P.used, c.start = pagePtr b₀ X.index ∧ c.size ≤ (blockMem b₀ X).size
  reserved : ∀ a i, reserved.Covers a → i < n → (blockMem b₀ ⟨i, 0⟩).Covers a →
    ∃ X ∈ P.used, i ∈ X.cells ∧ pagePtr b₀ X.index ∉ L.map MemBlock.start

namespace BuddyOwns

variable {n m : ℕ} {b₀ : BuddyPmalloc} {reserved : MemBlock} {b : BuddyPmalloc} {P : Pool n m}
  {L : Multiset MemBlock}

/-- A block that is out is part of a block in use. -/
theorem sub_blockMem {c : MemBlock} {X : Block} (hstart : c.start = pagePtr b₀ X.index)
    (hsize : c.size ≤ (blockMem b₀ X).size) {a : ℕ} (ha : c.Covers a) : (blockMem b₀ X).Covers a := by
  obtain ⟨hlow, hhigh⟩ := ha
  refine ⟨by rwa [blockMem, ← hstart], ?_⟩
  have hstart' : (blockMem b₀ X).start = c.start := hstart.symm
  rw [hstart']
  omega

/-- A new block in use is apart from what is out and from what is reserved. -/
theorem apart_new (h : BuddyOwns b₀ reserved b P L) (hzone : DirectMapped b₀ n) {X : Block}
    (hX : X ∉ P.used) {P' : Pool n m} (hused : P'.used = insert X P.used) :
    ∀ c ∈ reserved ::ₘ L, (blockMem b₀ X).Apart c := by
  have hXmem : X ∈ P'.used := hused ▸ Finset.mem_insert_self X P.used
  have hXn := P'.tiling.index_lt (P'.used_mem hXmem)
  have hdisjoint : ∀ Y ∈ P.used, Disjoint X.cells Y.cells := by
    intro Y hY
    have hYmem : Y ∈ P'.used := hused ▸ Finset.mem_insert_of_mem hY
    exact P'.tiling.pairwiseDisjoint (P'.used_mem hXmem) (P'.used_mem hYmem)
      fun heq => hX (heq ▸ hY)
  intro c hc a haX hac
  have hcell := hzone.mem_cells_of_covers hXn haX
  rcases Multiset.mem_cons.1 hc with rfl | hc
  · have hlt := P'.tiling.mem_cells_lt (P'.used_mem hXmem) hcell
    -- the byte is in the page of its own
    have hpage : (blockMem b₀ ⟨(a - (Arch.koffset + b₀.base)) / Arch.pageSize, 0⟩).Covers a := by
      have hlow := haX.1
      rw [blockMem, hzone.toNat_pagePtr hXn] at hlow
      rw [MemBlock.Covers, blockMem, hzone.toNat_pagePtr hlt]
      simp only [Arch.pageSize] at hlow ⊢
      omega
    obtain ⟨Y, hY, hYcell, -⟩ := h.reserved a _ hac hlt hpage
    exact Finset.disjoint_left.1 (hdisjoint Y hY) hcell hYcell
  · obtain ⟨Y, hY, hstart, hsize⟩ := h.blocks c hc
    have hYn := P.tiling.index_lt (P.used_mem hY)
    exact hzone.blockMem_apart hXn hYn (hdisjoint Y hY) a haX (sub_blockMem hstart hsize hac)

/-- Nothing is out of the pool yet, and the reserved memory is in none of its free pages. -/
theorem of_models (hmodels : Models b P) (hsetup : SameSetup b₀ b)
    (hreserved : ∀ a i, reserved.Covers a → i < n → (blockMem b₀ ⟨i, 0⟩).Covers a → ¬ b.FreePage i) :
    BuddyOwns b₀ reserved b P 0 where
  models := hmodels
  setup := hsetup
  starts := by simp
  blocks c hc := absurd hc (Multiset.notMem_zero c)
  reserved a i hres hi hcov := by
    have hnot := hreserved a i hres hi hcov
    rw [hmodels.tracks.freePage_iff] at hnot
    rcases P.used_or_free hi with hused | hfree
    · obtain ⟨X, hX, hcell⟩ := mem_cellsOf.1 hused
      exact ⟨X, hX, hcell, by simp⟩
    · exact absurd hfree hnot

/-- **`malloc`, seen through the direct map**: it fails and changes nothing, or it hands out a new
block. -/
theorem malloc (h : BuddyOwns b₀ reserved b P L) (hzone : DirectMapped b₀ n) {size : ℕ}
    (hcnt : b₀.pagesFor size ≤ 2 ^ 31) (hsize : size ≤ Arch.pageSize * b₀.pagesFor size) :
    b.malloc size = .ok (minusOne64, b) ∨ ∃ i b' P', i < n ∧
      b.malloc size = .ok (b₀.pageAddr i, b') ∧
      (∀ c ∈ reserved ::ₘ L, MemBlock.Apart ⟨pagePtr b₀ i, size⟩ c) ∧
      BuddyOwns (n := n) (m := m) b₀ reserved b' P' (⟨pagePtr b₀ i, size⟩ ::ₘ L) := by
  have hpages : b.pagesFor size = b₀.pagesFor size := by
    rw [pagesFor, pagesFor, h.setup.pageSize]
  rcases mallocPage_spec h.models (hpages.symm ▸ hcnt) with ⟨hrun, -⟩ | ⟨i, b', P', hrun, ha⟩
  · left
    rw [BuddyPmalloc.malloc, hrun]
    rfl
  · right
    set X : Block := ⟨i, b.orderFor size⟩ with hX
    have hXmem : X ∈ P'.used := ha.mem_used
    have hin : i < n := ha.index_lt
    have hpool : n * b.pageSize ≤ 2 ^ 32 := by
      have htop := hzone.top
      rw [h.setup.pageSize, hzone.pageSize, Nat.mul_comm]
      simp only [Arch.ktop, Arch.koffset] at htop
      omega
    have hpos : 0 < b.pageSize := by
      rw [h.setup.pageSize]
      exact hzone.params.pos
    have hfits : size ≤ (blockMem b₀ X).size := by
      refine hsize.trans (Nat.mul_le_mul_left _ ?_)
      rw [← hpages]
      exact Nat.le_pow_clog (by decide) _
    have hsub : ∀ a, MemBlock.Covers ⟨pagePtr b₀ i, size⟩ a → (blockMem b₀ X).Covers a :=
      fun a ha => sub_blockMem (c := ⟨pagePtr b₀ i, size⟩) (X := X) rfl hfits ha
    have hapart := h.apart_new hzone ha.notMem ha.used_eq
    have hfresh : ∀ Y ∈ P.used, pagePtr b₀ Y.index ≠ pagePtr b₀ i := by
      intro Y hY heq
      exact ha.index_ne hY (hzone.pagePtr_inj (P.tiling.index_lt (P.used_mem hY)) hin heq)
    have hnew : pagePtr b₀ i ∉ L.map MemBlock.start := by
      intro hmem
      obtain ⟨c, hc, hstart⟩ := Multiset.mem_map.1 hmem
      obtain ⟨Y, hY, hYstart, -⟩ := h.blocks c hc
      exact hfresh Y hY (hYstart.symm.trans hstart)
    refine ⟨i, b', P', hin, ?_, fun c hc => (hapart c hc).mono hsub, ha.models,
      h.setup.trans ha.setup, ?_, ?_, ?_⟩
    · rw [malloc_of_mallocPage_some hrun ha.setup, retAddr_eq_of_pool hpos hpool hin,
        h.setup.pageAddr_eq]
    · rw [Multiset.map_cons, Multiset.nodup_cons]
      exact ⟨hnew, h.starts⟩
    · refine Multiset.forall_mem_cons.2 ⟨⟨X, hXmem, rfl, hfits⟩, fun c hc => ?_⟩
      obtain ⟨Y, hY, hY'⟩ := h.blocks c hc
      exact ⟨Y, ha.used_eq ▸ Finset.mem_insert_of_mem hY, hY'⟩
    · intro a j hres hj hcov
      obtain ⟨Y, hY, hcell, hnot⟩ := h.reserved a j hres hj hcov
      refine ⟨Y, ha.used_eq ▸ Finset.mem_insert_of_mem hY, hcell, ?_⟩
      rw [Multiset.map_cons, Multiset.mem_cons, not_or]
      exact ⟨hfresh Y hY, hnot⟩

/-- **`free`, seen through the direct map**: a block that is out goes back by its physical
address. -/
theorem free {c : MemBlock} (h : BuddyOwns b₀ reserved b P (c ::ₘ L)) (hzone : DirectMapped b₀ n) :
    ∃ i b' P', i < n ∧ c.start = pagePtr b₀ i ∧ b.free (b₀.pageAddr i) = .ok b' ∧
      BuddyOwns (n := n) (m := m) b₀ reserved b' P' L := by
  obtain ⟨X, hX, hstart, -⟩ := h.blocks c (Multiset.mem_cons_self c L)
  have hXn := P.tiling.index_lt (P.used_mem hX)
  have hparams : Params b.base b.pageSize := by
    rw [h.setup.base, h.setup.pageSize]
    exact hzone.params
  have hcount := h.models.fits.count_lt
  obtain ⟨b', P', hrun, hr⟩ := free_spec h.models hX (dvd_pageAddr hparams X.index)
    (pageIndex_pageAddr hparams.widths (by omega))
  have hnodup := h.starts
  rw [Multiset.map_cons, Multiset.nodup_cons] at hnodup
  -- the other blocks stand for other blocks in use
  have hkeep : ∀ Y ∈ P.used, pagePtr b₀ Y.index ≠ c.start → Y ∈ P'.used := by
    intro Y hY hne
    rw [hr.used_eq]
    refine Finset.mem_erase.2 ⟨?_, hY⟩
    rintro rfl
    exact hne hstart.symm
  refine ⟨X.index, b', P', hXn, hstart, ?_, hr.models, h.setup.trans hr.setup, hnodup.2, ?_, ?_⟩
  · rw [← h.setup.pageAddr_eq]
    exact hrun
  · intro d hd
    obtain ⟨Y, hY, hdstart, hdsize⟩ := h.blocks d (Multiset.mem_cons_of_mem hd)
    refine ⟨Y, hkeep Y hY ?_, hdstart, hdsize⟩
    rw [← hdstart]
    exact fun heq => hnodup.1 (heq ▸ Multiset.mem_map_of_mem _ hd)
  · intro a j hres hj hcov
    obtain ⟨Y, hY, hcell, hnot⟩ := h.reserved a j hres hj hcov
    rw [Multiset.map_cons, Multiset.mem_cons, not_or] at hnot
    exact ⟨Y, hkeep Y hY hnot.1, hcell, hnot.2⟩

/-- A client may use less of a block than it is out with. -/
theorem shrink {p : Ptr} {size size' : ℕ} (h : BuddyOwns b₀ reserved b P (⟨p, size⟩ ::ₘ L))
    (hle : size' ≤ size) : BuddyOwns b₀ reserved b P (⟨p, size'⟩ ::ₘ L) where
  models := h.models
  setup := h.setup
  starts := by
    have hstarts := h.starts
    rwa [Multiset.map_cons] at hstarts ⊢
  blocks := by
    obtain ⟨⟨X, hX, hstart, hsize⟩, hrest⟩ := Multiset.forall_mem_cons.1 h.blocks
    exact Multiset.forall_mem_cons.2 ⟨⟨X, hX, hstart, hle.trans hsize⟩, hrest⟩
  reserved a i hres hi hcov := by
    obtain ⟨X, hX, hcell, hnot⟩ := h.reserved a i hres hi hcov
    rw [Multiset.map_cons] at hnot
    exact ⟨X, hX, hcell, by rwa [Multiset.map_cons]⟩

end BuddyOwns

/-- The number of bytes that a request takes is below `2 ^ 31` pages. -/
def FewPages (size : ℕ) : Prop := (size + Arch.pageSize - 1) / Arch.pageSize < 2 ^ 31

theorem FewPages.pagesFor {b : BuddyPmalloc} {n size : ℕ} (h : FewPages size)
    (hzone : DirectMapped b n) :
    b.pagesFor size ≤ 2 ^ 31 ∧ size ≤ Arch.pageSize * b.pagesFor size := by
  have hpages : b.pagesFor size = (size + Arch.pageSize - 1) / Arch.pageSize := by
    have hfew : (size + b.pageSize - 1) / b.pageSize < 2 ^ 31 := by
      rw [hzone.pageSize]
      exact h
    rw [pagesFor_eq hzone.params.widths hfew, hzone.pageSize]
  rw [hpages]
  refine ⟨le_of_lt h, ?_⟩
  simp only [Arch.pageSize]
  omega

namespace BuddyOwns

variable {n m : ℕ} {b₀ : BuddyPmalloc} {reserved : MemBlock} {b : BuddyPmalloc} {P : Pool n m}
  {L : Multiset MemBlock}

/-- **`aligned_malloc`, seen through the direct map.** -/
theorem alignedMalloc (h : BuddyOwns b₀ reserved b P L) (hzone : DirectMapped b₀ n)
    {size align : ℕ} (halign : b₀.alignedSize size align = .ok (max align size))
    (hpages : FewPages (max align size)) :
    b.alignedMalloc size align = .ok (minusOne64, b) ∨ ∃ i b' P', i < n ∧
      b.alignedMalloc size align = .ok (b₀.pageAddr i, b') ∧
      (∀ c ∈ reserved ::ₘ L, MemBlock.Apart ⟨pagePtr b₀ i, size⟩ c) ∧
      BuddyOwns (n := n) (m := m) b₀ reserved b' P' (⟨pagePtr b₀ i, size⟩ ::ₘ L) := by
  have hrun : b.alignedMalloc size align = b.malloc (max align size) := by
    rw [BuddyPmalloc.alignedMalloc, h.setup.alignedSize, halign, ok_bind]
  obtain ⟨hcnt, hfits⟩ := hpages.pagesFor hzone
  rw [hrun]
  rcases h.malloc hzone hcnt hfits with hnone | ⟨i, b', P', hi, hsome, hapart, howns⟩
  · exact Or.inl hnone
  · refine Or.inr ⟨i, b', P', hi, hsome, fun c hc => (hapart c hc).mono fun a ha => ?_,
      howns.shrink (le_max_right align size)⟩
    have hle := le_max_right align size
    exact ⟨ha.1, lt_of_lt_of_le ha.2 (Nat.add_le_add_left hle _)⟩

end BuddyOwns

/-! ### The contract -/

section Contract

variable {n m : ℕ} {b₀ b b' : BuddyPmalloc}

theorem bridged_minusOne (b : BuddyPmalloc) : bridged (minusOne64, b) = (0, b) := rfl

theorem bridged_pageAddr (hzone : DirectMapped b₀ n) {i : ℕ} (hi : i < n) (b : BuddyPmalloc) :
    bridged (b₀.pageAddr i, b) = (pagePtr b₀ i, b) := by
  have hlt := (hzone.pageAddr_eq hi).2
  have hne : b₀.pageAddr i ≠ minusOne64 := by
    intro heq
    rw [heq] at hlt
    exact absurd hlt (by decide)
  rw [bridged, if_neg hne, pagePtr]

theorem koffsetFree_pagePtr (hzone : DirectMapped b₀ n) {i : ℕ} (hi : i < n) (b : BuddyPmalloc) :
    koffsetFree (pagePtr b₀ i) b = b.free (b₀.pageAddr i) := by
  have hlt := (hzone.pageAddr_eq hi).2
  rw [koffsetFree, pagePtr, if_neg (kva_ne_zero hlt), sub32_kva hlt]

/-- Some pool of `n` pages has the blocks `L` out. -/
def PoolOwns (b₀ : BuddyPmalloc) (n m : ℕ) (reserved : MemBlock) (b : BuddyPmalloc)
    (L : Multiset MemBlock) : Prop := ∃ P : Pool n m, BuddyOwns b₀ reserved b P L

/-- **The bridge keeps its contract.** -/
theorem koffset_contract (hzone : DirectMapped b₀ n) (m : ℕ) (reserved : MemBlock) :
    BridgeContract koffsetPvbridge Arch.pageSize reserved (PoolOwns b₀ n m reserved) where
  alignedMalloc := by
    rintro b L size ⟨P, h⟩ hpos hsize
    have hpages : FewPages (max Arch.pageSize size) := by
      simp only [FewPages, Arch.pageSize]
      omega
    have hpow : Arch.pageSize = 2 ^ 12 := rfl
    have halign : b₀.alignedSize size Arch.pageSize = .ok (max Arch.pageSize size) :=
      alignedSize_eq hpow (by decide) hzone.dvd
    rcases h.alignedMalloc hzone halign hpages with
      hrun | ⟨i, b', P', hi, hrun, hapart, howns⟩
    · refine ⟨0, b, ?_, Or.inl ⟨rfl, P, h⟩⟩
      show koffsetAlignedMalloc size Arch.pageSize b = _
      rw [koffsetAlignedMalloc, hrun, ok_bind, bridged_minusOne]
      rfl
    · refine ⟨pagePtr b₀ i, b', ?_, Or.inr ⟨kva_ne_zero (hzone.pageAddr_eq hi).2,
        hzone.dvd_pagePtr hi, hapart, P', howns⟩⟩
      show koffsetAlignedMalloc size Arch.pageSize b = _
      rw [koffsetAlignedMalloc, hrun, ok_bind, bridged_pageAddr hzone hi]
      rfl
  free := by
    rintro b c L ⟨P, h⟩
    obtain ⟨i, b', P', hi, hstart, hrun, howns⟩ := h.free hzone
    refine ⟨b', ?_, P', howns⟩
    show koffsetFree c.start b = _
    rw [hstart, koffsetFree_pagePtr hzone hi, hrun]
  freeNull _ := rfl

variable {m : ℕ} {reserved : MemBlock} {L : Multiset MemBlock}

/-- `malloc` of the allocator below the bridge, with what is out. -/
theorem BlocksOut.buddyMalloc
    (h : BlocksOut (PoolOwns b₀ n m reserved) Arch.pageSize reserved b L) (hzone : DirectMapped b₀ n)
    {size : ℕ} (hpages : FewPages size) :
    b.malloc size = .ok (minusOne64, b) ∨ ∃ i b', i < n ∧ b.malloc size = .ok (b₀.pageAddr i, b') ∧
      BlocksOut (PoolOwns b₀ n m reserved) Arch.pageSize reserved b' (⟨pagePtr b₀ i, size⟩ ::ₘ L) := by
  obtain ⟨P, hP⟩ := h.owns
  obtain ⟨hcnt, hfits⟩ := hpages.pagesFor hzone
  rcases hP.malloc hzone hcnt hfits with hnone | ⟨i, b', P', hi, hsome, hapart, howns⟩
  · exact Or.inl hnone
  · exact Or.inr ⟨i, b', hi, hsome, h.cons (kva_ne_zero (hzone.pageAddr_eq hi).2)
      (hzone.dvd_pagePtr hi) hapart ⟨P', howns⟩⟩

/-- `aligned_malloc` of the allocator below the bridge, with what is out. -/
theorem BlocksOut.buddyAlignedMalloc
    (h : BlocksOut (PoolOwns b₀ n m reserved) Arch.pageSize reserved b L) (hzone : DirectMapped b₀ n)
    {size align : ℕ} (halign : b₀.alignedSize size align = .ok (max align size))
    (hpages : FewPages (max align size)) :
    b.alignedMalloc size align = .ok (minusOne64, b) ∨
      ∃ i b', i < n ∧ b.alignedMalloc size align = .ok (b₀.pageAddr i, b') ∧
        BlocksOut (PoolOwns b₀ n m reserved) Arch.pageSize reserved b'
          (⟨pagePtr b₀ i, size⟩ ::ₘ L) := by
  obtain ⟨P, hP⟩ := h.owns
  rcases hP.alignedMalloc hzone halign hpages with
    hnone | ⟨i, b', P', hi, hsome, hapart, howns⟩
  · exact Or.inl hnone
  · exact Or.inr ⟨i, b', hi, hsome, h.cons (kva_ne_zero (hzone.pageAddr_eq hi).2)
      (hzone.dvd_pagePtr hi) hapart ⟨P', howns⟩⟩

/-- `free` of the allocator below the bridge, with what is out. -/
theorem BlocksOut.buddyFree {c : MemBlock}
    (h : BlocksOut (PoolOwns b₀ n m reserved) Arch.pageSize reserved b (c ::ₘ L))
    (hzone : DirectMapped b₀ n) : ∃ i b', i < n ∧ c.start = pagePtr b₀ i ∧
      b.free (b₀.pageAddr i) = .ok b' ∧
      BlocksOut (PoolOwns b₀ n m reserved) Arch.pageSize reserved b' L := by
  obtain ⟨P, hP⟩ := h.owns
  obtain ⟨i, b', P', hi, hstart, hrun, howns⟩ := hP.free hzone
  exact ⟨i, b', hi, hstart, hrun, h.tail ⟨P', howns⟩⟩

end Contract

end Aim
