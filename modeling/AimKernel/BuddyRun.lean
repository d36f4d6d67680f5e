/-
**Runs of the buddy allocator.**

A client of the allocator may ask for fewer than `2 ^ 31` pages, with or without an alignment, and
give back blocks in use by their base address.  The run keeps the set of the first pages of the
blocks the client holds; it starts with every single page, as the constructor marks them in use.
Every reachable state models a pool whose blocks in use are those the client holds.

Main definitions:

* `Aim.BuddyPmalloc.Params` — the constants an allocator may be built with;
* `Aim.BuddyPmalloc.pageAddr` — the base address of a page;
* `Aim.BuddyRequest`, `Aim.BuddyRun`, `Aim.buddyMachine` — the requests, the states and the machine;
* `Aim.BuddyRun.Inv` — the invariant.

Main results:

* `Aim.BuddyRun.Inv.step` — every legal request is answered and keeps the invariant;
* `Aim.BuddyRun.reachable_partition` — **the blocks partition the pool and no assertion fires**;
* `Aim.BuddyRun.reachable_history_independent` — **the free lists are determined by the free
  pages**, and a `malloc` followed by `free` restores them.
-/

import AimKernel.BuddySpec
import AimKernel.Machine

set_option relaxedAutoImplicit false
set_option autoImplicit false

namespace Aim

open DyadicBlocks

namespace BuddyPmalloc

/-! ### Parameters and addresses -/

/-- A page size that is a power of two and fits a `size_t`, and an aligned base. -/
structure Params (base pageSize : ℕ) : Prop where
  pow : ∃ k ≤ 31, pageSize = 2 ^ k
  dvd : pageSize ∣ base
  base_lt : base < 2 ^ 64

theorem Params.pos {base pageSize : ℕ} (h : Params base pageSize) : 0 < pageSize := by
  obtain ⟨k, -, rfl⟩ := h.pow
  exact Nat.two_pow_pos k

theorem Params.le {base pageSize : ℕ} (h : Params base pageSize) : pageSize ≤ 2 ^ 31 := by
  obtain ⟨k, hk, rfl⟩ := h.pow
  exact Nat.pow_le_pow_right (by decide) hk

theorem Params.dvd_two_pow {base pageSize : ℕ} (h : Params base pageSize) :
    pageSize ∣ 2 ^ 64 := by
  obtain ⟨k, hk, rfl⟩ := h.pow
  exact Nat.pow_dvd_pow 2 (by omega)

/-- What the types of these constants promise: `page_size` is a `size_t`, `base` an `addr_t`. -/
structure Widths (base pageSize : ℕ) : Prop where
  pos : 0 < pageSize
  lt : pageSize < 2 ^ 32
  base_lt : base < 2 ^ 64

theorem Params.widths {base pageSize : ℕ} (h : Params base pageSize) : Widths base pageSize :=
  ⟨h.pos, lt_of_le_of_lt h.le (by decide), h.base_lt⟩

/-- The base address of the page with the given index. -/
def pageAddr (b : BuddyPmalloc) (index : ℕ) : ℕ := wrap64 (b.base + b.pageSize * index)

theorem SameSetup.pageAddr_eq {b b' : BuddyPmalloc} (h : SameSetup b b') (index : ℕ) :
    b'.pageAddr index = b.pageAddr index := by
  rw [pageAddr, pageAddr, h.base, h.pageSize]

theorem SameSetup.retAddr_eq {b b' : BuddyPmalloc} (h : SameSetup b b') (index : ℕ) :
    b'.retAddr index = b.retAddr index := by
  rw [retAddr, retAddr, h.base, h.pageSize]

section Addresses

variable {b : BuddyPmalloc}

/-- `malloc` returns the address computed for the block. -/
theorem malloc_of_mallocPage_some {b' : BuddyPmalloc} {size i : ℕ}
    (hrun : b.mallocPage size = .ok (some i, b')) (hs : SameSetup b b') :
    b.malloc size = .ok (b.retAddr i, b') := by
  rw [malloc, hrun, ok_bind, ← hs.retAddr_eq]
  rfl

theorem dvd_pageAddr (h : Params b.base b.pageSize) (index : ℕ) :
    b.pageSize ∣ b.pageAddr index := by
  rw [pageAddr, wrap64, Nat.dvd_mod_iff h.dvd_two_pow]
  exact dvd_add h.dvd (dvd_mul_right _ _)

/-- `free` recovers the index of a page from its base address, even when the pool wraps around the
top of the address space. -/
theorem pageIndex_pageAddr (h : Widths b.base b.pageSize) {index : ℕ} (hi : index < 2 ^ 32) :
    b.pageIndex (b.pageAddr index) = index := by
  have hprod : b.pageSize * index < 2 ^ 64 := by
    calc b.pageSize * index
        ≤ 2 ^ 32 * index := Nat.mul_le_mul_right _ h.lt.le
      _ < 2 ^ 64 := by omega
  have hbase := h.base_lt
  have hdiff : sub64 (b.pageAddr index) b.base = b.pageSize * index := by
    rw [pageAddr, sub64, wrap64]
    omega
  rw [pageIndex, hdiff, Nat.mul_div_cancel_left _ h.pos, wrap32_of_lt hi]

/-- The address that `malloc` computes is the base address as long as the product fits. -/
theorem retAddr_eq_pageAddr {index : ℕ} (h : b.pageSize * index < 2 ^ 32) :
    b.retAddr index = b.pageAddr index := by
  rw [retAddr, pageAddr, wrap32_of_lt h]

/-- In a pool of at most 4 GB, `malloc` returns base addresses. -/
theorem retAddr_eq_of_pool (hpos : 0 < b.pageSize) {n index : ℕ} (hpool : n * b.pageSize ≤ 2 ^ 32)
    (hi : index < n) : b.retAddr index = b.pageAddr index := by
  refine retAddr_eq_pageAddr ?_
  calc b.pageSize * index
      < b.pageSize * n := Nat.mul_lt_mul_of_pos_left hi hpos
    _ ≤ 2 ^ 32 := by rwa [Nat.mul_comm]

end Addresses

/-- A page that belongs to a block on the free lists. -/
def FreePage (b : BuddyPmalloc) (p : ℕ) : Prop := ∃ o, ∃ i ∈ b.list o, i ≤ p ∧ p < i + 2 ^ o

theorem Tracks.freePage_iff {b : BuddyPmalloc} {U F : Finset Block} (h : Tracks b U F) {p : ℕ} :
    b.FreePage p ↔ p ∈ cellsOf F := by
  rw [mem_cellsOf]
  constructor
  · rintro ⟨o, i, hi, hp⟩
    exact ⟨⟨i, o⟩, (h.mem_list o i).1 hi, Block.mem_cells.2 hp⟩
  · rintro ⟨B, hB, hp⟩
    exact ⟨B.order, B.index, (h.mem_list _ _).2 hB, Block.mem_cells.1 hp⟩

/-! ### Requests -/

section Requests

variable {b : BuddyPmalloc}

theorem divRoundUp64_eq (h : Widths b.base b.pageSize) {size : ℕ}
    (hsize : (size + b.pageSize - 1) / b.pageSize ≤ 2 ^ 32) :
    divRoundUp 64 size b.pageSize = (size + b.pageSize - 1) / b.pageSize := by
  refine divRoundUp_eq h.pos ?_
  have hlt := Nat.lt_mul_of_div_lt (Nat.lt_succ_of_le hsize) h.pos
  have : (2 ^ 32 + 1) * b.pageSize ≤ (2 ^ 32 + 1) * (2 ^ 32 - 1) :=
    Nat.mul_le_mul_left _ (Nat.le_sub_one_of_lt h.lt)
  have := h.pos
  omega

/-- The page count of a request is what it should be, as long as it fits a `size_t`. -/
theorem pagesFor_eq_of_lt (h : Widths b.base b.pageSize) {size : ℕ}
    (hsize : (size + b.pageSize - 1) / b.pageSize < 2 ^ 32) :
    b.pagesFor size = (size + b.pageSize - 1) / b.pageSize := by
  rw [pagesFor, divRoundUp64_eq h hsize.le, wrap32_of_lt hsize]

/-- Requests of clients are below `2 ^ 31` pages. -/
theorem pagesFor_eq (h : Widths b.base b.pageSize) {size : ℕ}
    (hsize : (size + b.pageSize - 1) / b.pageSize < 2 ^ 31) :
    b.pagesFor size = (size + b.pageSize - 1) / b.pageSize :=
  pagesFor_eq_of_lt h (by omega)

/-- The page count of a power of two never exceeds `2 ^ 31`: it may wrap, but only to zero. -/
theorem pagesFor_two_pow_le (h : Params b.base b.pageSize) {k : ℕ} (hk : k < 64) :
    b.pagesFor (2 ^ k) ≤ 2 ^ 31 := by
  obtain ⟨j, hj, hpow⟩ := h.pow
  have hk' : (2 : ℕ) ^ k ≤ 2 ^ 63 := Nat.pow_le_pow_right (by decide) (by omega)
  have hj' : (2 : ℕ) ^ j ≤ 2 ^ 31 := Nat.pow_le_pow_right (by decide) hj
  have hpos := Nat.two_pow_pos j
  rw [pagesFor, hpow, divRoundUp_eq hpos (by omega)]
  rcases Nat.lt_or_ge k j with hkj | hjk
  · have hone : (2 ^ k + 2 ^ j - 1) / 2 ^ j ≤ 1 := by
      have : (2 : ℕ) ^ k < 2 ^ j := Nat.pow_lt_pow_right (by decide) hkj
      exact Nat.le_of_lt_succ (Nat.div_lt_of_lt_mul (by omega))
    exact (Nat.mod_le _ _).trans (by omega)
  · have hquot : (2 ^ k + 2 ^ j - 1) / 2 ^ j = 2 ^ (k - j) := by
      have hsplit : (2 : ℕ) ^ k = 2 ^ j * 2 ^ (k - j) := by rw [← pow_add]; congr 1; omega
      rw [hsplit, Nat.add_sub_assoc (by omega), Nat.mul_add_div hpos,
        Nat.div_eq_of_lt (by omega), add_zero]
    rw [hquot, wrap32]
    rcases Nat.lt_or_ge (k - j) 32 with hlt | hge
    · rw [Nat.mod_eq_of_lt (Nat.pow_lt_pow_right (by decide) hlt)]
      exact Nat.pow_le_pow_right (by decide) (by omega)
    · rw [Nat.mod_eq_zero_of_dvd (Nat.pow_dvd_pow 2 hge)]
      exact Nat.zero_le _

/-- A legitimate `aligned_malloc` asks for the larger of size and alignment. -/
theorem alignedSize_eq {size align k : ℕ} (halign : align = 2 ^ k) (hk : k < 64)
    (hdvd : align ∣ b.base) : b.alignedSize size align = .ok (max align size) := by
  have hmax : (if align > size then align else size) = max align size := by
    split <;> omega
  subst halign
  rw [alignedSize, if_pos, hmax]
  simp [isPowOf2_iff, isAligned_iff hk.le, hdvd]

/-- An `aligned_malloc` that gets past its check asks for the larger of size and alignment. -/
theorem alignedSize_of_ok {size align size' : ℕ} (h : b.alignedSize size align = .ok size') :
    size' = max align size := by
  rw [alignedSize] at h
  split at h
  · rw [← Except.ok.inj h]
    split <;> omega
  · cases h

theorem SameSetup.alignedSize {b' : BuddyPmalloc} (h : SameSetup b b') (size align : ℕ) :
    b'.alignedSize size align = b.alignedSize size align := by
  rw [BuddyPmalloc.alignedSize, BuddyPmalloc.alignedSize, h.base]

/-- So `malloc` itself never sees a page count above `2 ^ 31`. -/
theorem pagesFor_max_le (h : Params b.base b.pageSize) {size k : ℕ} (hk : k < 64)
    (hsize : (size + b.pageSize - 1) / b.pageSize < 2 ^ 31) :
    b.pagesFor (max (2 ^ k) size) ≤ 2 ^ 31 := by
  rcases max_cases (2 ^ k) size with ⟨hmax, -⟩ | ⟨hmax, -⟩ <;> rw [hmax]
  · exact pagesFor_two_pow_le h hk
  · rw [pagesFor_eq h.widths hsize]
    exact hsize.le

end Requests

end BuddyPmalloc

/-! ### The machine -/

/-- The requests of a client; a block is given back by the index of its first page. -/
inductive BuddyRequest
  | malloc (size : ℕ)
  | alignedMalloc (size align : ℕ)
  | free (index : ℕ)
deriving DecidableEq, Repr

/-- An allocator, and the first pages of the blocks its client holds. -/
structure BuddyRun where
  alloc : BuddyPmalloc
  live : Finset ℕ

namespace BuddyRun

/-- The client takes note of the block it got, if any. -/
def receive (s : BuddyRun) : Option ℕ × BuddyPmalloc → BuddyRun
  | (none, b) => { alloc := b, live := s.live }
  | (some index, b) => { alloc := b, live := insert index s.live }

/-- The answer to a request. -/
def step (s : BuddyRun) : BuddyRequest → Outcome BuddyRun
  | .malloc size => do
      return s.receive (← s.alloc.mallocPage size)
  | .alignedMalloc size align => do
      let size ← s.alloc.alignedSize size align
      return s.receive (← s.alloc.mallocPage size)
  | .free index => do
      let b ← s.alloc.free (s.alloc.pageAddr index)
      return { alloc := b, live := s.live.erase index }

/-- Requests of fewer than `2 ^ 31` pages, alignments that divide the base, and blocks in use. -/
def Legal (s : BuddyRun) : BuddyRequest → Prop
  | .malloc size => (size + s.alloc.pageSize - 1) / s.alloc.pageSize < 2 ^ 31
  | .alignedMalloc size align =>
      (size + s.alloc.pageSize - 1) / s.alloc.pageSize < 2 ^ 31 ∧
        (∃ k < 64, align = 2 ^ k) ∧ align ∣ s.alloc.base
  | .free index => index ∈ s.live

/-- The state after construction: the client holds every page. -/
def start (b : BuddyPmalloc) : BuddyRun := { alloc := b, live := Finset.range b.pageCount }

end BuddyRun

/-- The buddy allocator and its clients. -/
def buddyMachine : Machine BuddyRun BuddyRequest Fault where
  legal := BuddyRun.Legal
  step := BuddyRun.step

namespace BuddyRun

open BuddyPmalloc

variable {n m : ℕ}

/-! ### The invariant -/

/-- The allocator models a pool, and the client holds its blocks in use. -/
structure Inv (b₀ : BuddyPmalloc) (s : BuddyRun) (P : Pool n m) : Prop where
  models : Models s.alloc P
  live_eq : s.live = P.used.image Block.index
  setup : SameSetup b₀ s.alloc

theorem Inv.mem_used {b₀ : BuddyPmalloc} {s : BuddyRun} {P : Pool n m} (h : Inv b₀ s P) {i : ℕ}
    (hi : i ∈ s.live) : ∃ X ∈ P.used, X.index = i := by
  rw [h.live_eq] at hi
  exact Finset.mem_image.1 hi

theorem Inv.params {b₀ : BuddyPmalloc} {s : BuddyRun} {P : Pool n m} (h : Inv b₀ s P)
    (hp : Params b₀.base b₀.pageSize) : Params s.alloc.base s.alloc.pageSize := by
  rwa [h.setup.base, h.setup.pageSize]

/-- Taking note of a block keeps the invariant. -/
theorem Inv.receive {b₀ : BuddyPmalloc} {s : BuddyRun} {P : Pool n m} (h : Inv b₀ s P)
    {size i : ℕ} {b' : BuddyPmalloc} {P' : Pool n m} (ha : Allocated s.alloc P size i b' P') :
    Inv b₀ (s.receive (some i, b')) P' := by
  refine ⟨ha.models, ?_, h.setup.trans ha.setup⟩
  rw [BuddyRun.receive, ha.used_eq, Finset.image_insert, ← h.live_eq]

/-- Giving a block back keeps the invariant. -/
theorem Inv.release {b₀ : BuddyPmalloc} {s : BuddyRun} {P : Pool n m} (h : Inv b₀ s P)
    {X : Block} (hX : X ∈ P.used) {b' : BuddyPmalloc} {P' : Pool n m}
    (hr : Released s.alloc P X b' P') :
    Inv b₀ { alloc := b', live := s.live.erase X.index } P' := by
  refine ⟨hr.models, ?_, h.setup.trans hr.setup⟩
  show s.live.erase X.index = _
  rw [hr.used_eq, h.live_eq]
  ext i
  simp only [Finset.mem_erase, Finset.mem_image]
  constructor
  · rintro ⟨hne, B, hB, rfl⟩
    exact ⟨B, ⟨fun heq => hne (congrArg Block.index heq), hB⟩, rfl⟩
  · rintro ⟨B, ⟨hne, hB⟩, rfl⟩
    exact ⟨fun heq => hne (P.tiling.eq_of_index_eq (P.used_mem hB) (P.used_mem hX) heq), B, hB, rfl⟩

section Step

variable {b₀ : BuddyPmalloc} {s : BuddyRun} {P : Pool n m}

/-- The client may always ask for pages. -/
theorem Inv.step_malloc (h : Inv b₀ s P) {size : ℕ} (hcnt : s.alloc.pagesFor size ≤ 2 ^ 31) :
    ∃ s' P', (do return s.receive (← s.alloc.mallocPage size) : Outcome BuddyRun) = .ok s' ∧
      Inv (n := n) (m := m) b₀ s' P' := by
  rcases mallocPage_spec h.models hcnt with ⟨hrun, -⟩ | ⟨i, b', P', hrun, ha⟩
  · exact ⟨s.receive (none, s.alloc), P, by rw [hrun]; rfl, h⟩
  · exact ⟨s.receive (some i, b'), P', by rw [hrun]; rfl, h.receive ha⟩

/-- The client may always give back what it holds. -/
theorem Inv.free (h : Inv b₀ s P) (hp : Params b₀.base b₀.pageSize) {X : Block} (hX : X ∈ P.used) :
    ∃ b' P', s.alloc.free (s.alloc.pageAddr X.index) = .ok b' ∧ Released s.alloc P X b' P' := by
  have hlt := P.tiling.index_lt (P.used_mem hX)
  have := h.models.fits.count_lt
  exact free_spec h.models hX (dvd_pageAddr (h.params hp) _)
    (pageIndex_pageAddr (h.params hp).widths (by omega))

/-- **Every legal request is answered and keeps the invariant.** -/
theorem Inv.step (h : Inv b₀ s P) (hp : Params b₀.base b₀.pageSize) {r : BuddyRequest}
    (hr : s.Legal r) : ∃ s' P', s.step r = .ok s' ∧ Inv (n := n) (m := m) b₀ s' P' := by
  cases r with
  | malloc size =>
      refine h.step_malloc ?_
      rw [pagesFor_eq (h.params hp).widths hr]
      exact le_of_lt hr
  | alignedMalloc size align =>
      obtain ⟨hsize, ⟨k, hk, rfl⟩, hdvd⟩ := hr
      obtain ⟨s', P', hrun, hinv⟩ := h.step_malloc (pagesFor_max_le (h.params hp) hk hsize)
      refine ⟨s', P', ?_, hinv⟩
      rw [BuddyRun.step, alignedSize_eq rfl hk hdvd, ok_bind]
      exact hrun
  | free index =>
      obtain ⟨X, hX, rfl⟩ := h.mem_used hr
      obtain ⟨b', P', hrun, hrel⟩ := h.free hp hX
      exact ⟨_, P', by rw [BuddyRun.step, hrun]; rfl, h.release hX hrel⟩

end Step

/-! ### Reachable states -/

section Reachable

variable {valloc : ℕ → ℕ} {base pageSize pageCount : ℕ} {b₀ : BuddyPmalloc} {s : BuddyRun}

/-- The constructor establishes the invariant. -/
theorem inv_start (hctor : ctor valloc base pageSize pageCount = .ok b₀) :
    Inv b₀ (start b₀) (Pool.allUsed pageCount b₀.maxOrder) := by
  obtain ⟨hmodels, -, -, hm⟩ := models_of_ctor hctor
  rw [hm]
  refine ⟨hmodels, ?_, .refl b₀⟩
  rw [start, hmodels.fits.pageCount_eq, Pool.allUsed, Finset.image_image]
  exact Finset.image_id.symm

/-- **Every reachable state models a pool.** -/
theorem Reachable.inv (hparams : Params base pageSize)
    (hctor : ctor valloc base pageSize pageCount = .ok b₀)
    (hs : buddyMachine.Reachable (start b₀) s) : ∃ P : Pool pageCount b₀.maxOrder, Inv b₀ s P := by
  obtain ⟨-, hbase, hsize, -⟩ := models_of_ctor hctor
  refine Machine.Reachable.invariant (P := fun s => ∃ P : Pool pageCount b₀.maxOrder, Inv b₀ s P)
    ⟨_, inv_start hctor⟩ ?_ hs
  rintro s r s' ⟨P, hP⟩ hlegal hstep
  obtain ⟨s'', P', hrun, hP'⟩ := hP.step (by rwa [hbase, hsize]) hlegal
  obtain rfl : s' = s'' := Except.ok.inj (hstep.symm.trans hrun)
  exact ⟨P', hP'⟩

/-- The client gives a block back. -/
theorem Reachable.free (hs : buddyMachine.Reachable (start b₀) s) {index : ℕ} {s' : BuddyRun}
    (hindex : index ∈ s.live) (hstep : s.step (.free index) = .ok s') :
    buddyMachine.Reachable (start b₀) s' ∧ s'.live = s.live.erase index := by
  obtain ⟨b, -, hret⟩ := bind_eq_ok.1 hstep
  refine ⟨.step (r := .free index) hs hindex hstep, ?_⟩
  rw [← Except.ok.inj hret]

/-- No legal request faults in a reachable state. -/
theorem Reachable.safeAt (hparams : Params base pageSize)
    (hctor : ctor valloc base pageSize pageCount = .ok b₀)
    (hs : buddyMachine.Reachable (start b₀) s) : buddyMachine.SafeAt s := by
  obtain ⟨-, hbase, hsize, -⟩ := models_of_ctor hctor
  obtain ⟨P, hP⟩ := Reachable.inv hparams hctor hs
  intro r hr
  obtain ⟨s', -, hrun, -⟩ := hP.step (by rwa [hbase, hsize]) hr
  exact ⟨s', hrun⟩

/-- The client can give everything back. -/
theorem exists_reachable_all_free (hparams : Params base pageSize)
    (hctor : ctor valloc base pageSize pageCount = .ok b₀) :
    ∃ s, buddyMachine.Reachable (start b₀) s ∧ s.alloc.freePageCount = pageCount ∧
      ∃ P : Pool pageCount b₀.maxOrder, Inv b₀ s P ∧ P.freeCells = Finset.range pageCount := by
  obtain ⟨-, hbase, hsize, -⟩ := models_of_ctor hctor
  have hrun : ∀ (k : ℕ) (s : BuddyRun), buddyMachine.Reachable (start b₀) s → s.live.card = k →
      ∃ s', buddyMachine.Reachable (start b₀) s' ∧ s'.live = ∅ := by
    intro k
    induction k with
    | zero => exact fun s hs hcard => ⟨s, hs, Finset.card_eq_zero.1 hcard⟩
    | succ k ih =>
        intro s hs hcard
        obtain ⟨i, hi⟩ : s.live.Nonempty := by
          rw [← Finset.card_pos]
          omega
        obtain ⟨P, hP⟩ := Reachable.inv hparams hctor hs
        obtain ⟨X, hX, rfl⟩ := hP.mem_used hi
        obtain ⟨b', P', hfree, -⟩ := hP.free (by rwa [hbase, hsize]) hX
        have hstep : s.step (.free X.index) = .ok ⟨b', s.live.erase X.index⟩ := by
          rw [BuddyRun.step, hfree]
          rfl
        refine ih _ (.step (r := .free X.index) hs hi hstep) ?_
        rw [Finset.card_erase_of_mem hi, hcard, Nat.add_sub_cancel]
  obtain ⟨s, hs, hlive⟩ := hrun _ _ .init rfl
  obtain ⟨P, hP⟩ := Reachable.inv hparams hctor hs
  have hused : P.used = ∅ := Finset.image_eq_empty.1 (hP.live_eq.symm.trans hlive)
  have hcells : P.freeCells = Finset.range pageCount := by
    rw [P.freeCells_eq_sdiff, Pool.usedCells, hused]
    simp [cellsOf]
  exact ⟨s, hs, by rw [hP.models.free_count, hcells, Finset.card_range], P, hP, hcells⟩

theorem params_five : Params 0x1000 0x1000 := ⟨⟨12, by decide, rfl⟩, by decide, by decide⟩

/-- On a pool of five pages the client gives the first one back. -/
theorem exists_free_five : ∃ b₀ s, ctor (fun _ => 1) 0x1000 0x1000 5 = .ok b₀ ∧
    0 ∈ (start b₀).live ∧ (start b₀).step (.free 0) = .ok s ∧ s.live = {1, 2, 3, 4} := by
  have hctor : ctor (fun _ => 1) 0x1000 0x1000 5 = .ok _ := rfl
  have hlegal : (0 : ℕ) ∈ Finset.range 5 := by decide
  obtain ⟨s, hstep⟩ := Reachable.safeAt params_five hctor .init (.free 0) hlegal
  refine ⟨_, s, hctor, hlegal, hstep, ?_⟩
  obtain ⟨b, -, hb⟩ := bind_eq_ok.1 hstep
  obtain rfl := Except.ok.inj hb
  show (Finset.range 5).erase 0 = {1, 2, 3, 4}
  decide

/-- That is a run. -/
theorem exists_run_five :
    ∃ b₀ s, ctor (fun _ => 1) 0x1000 0x1000 5 = .ok b₀ ∧ buddyMachine.Reachable (start b₀) s ∧
      s.live = {1, 2, 3, 4} := by
  obtain ⟨b₀, s, hctor, hlegal, hstep, hlive⟩ := exists_free_five
  exact ⟨b₀, s, hctor, .step (r := .free 0) .init hlegal hstep, hlive⟩

/-- **The blocks partition the pool.**  In every reachable state the pages are partitioned into
blocks in use, which are those the client holds, and free blocks, which the lists hold once each;
all of them are aligned, of order at most `max_order` and inside the pool; the records of their
first pages are right; blocks in use are disjoint, and their addresses are the ones `malloc`
returned; and no request the client may make trips an assertion. -/
theorem reachable_partition (hparams : Params base pageSize)
    (hpool : pageCount * pageSize ≤ 2 ^ 32)
    (hctor : ctor valloc base pageSize pageCount = .ok b₀)
    (hs : buddyMachine.Reachable (start b₀) s) :
    ∃ U F : Finset Block,
      Tiling pageCount s.alloc.maxOrder (U ∪ F) ∧ Disjoint U F ∧ Tracks s.alloc U F ∧
      s.live = U.image Block.index ∧
      (∀ A ∈ U, ∀ B ∈ U, A ≠ B → Disjoint A.cells B.cells) ∧
      (∀ i ∈ s.live, s.alloc.retAddr i = s.alloc.pageAddr i) ∧
      s.alloc.base = base ∧ s.alloc.pageSize = pageSize ∧ buddyMachine.SafeAt s := by
  obtain ⟨-, hbase, hsize, -⟩ := models_of_ctor hctor
  obtain ⟨P, hP⟩ := Reachable.inv hparams hctor hs
  have hsize' : s.alloc.pageSize = pageSize := hP.setup.pageSize.trans hsize
  refine ⟨P.used, P.free, ?_, P.disjoint, hP.models.tracks, hP.live_eq, ?_, ?_,
    hP.setup.base.trans hbase, hsize', Reachable.safeAt hparams hctor hs⟩
  · rw [hP.setup.maxOrder]
    exact P.tiling
  · intro A hA B hB hne
    exact P.tiling.pairwiseDisjoint (P.used_mem hA) (P.used_mem hB) hne
  · intro i hi
    obtain ⟨X, hX, rfl⟩ := hP.mem_used hi
    exact retAddr_eq_of_pool (hsize' ▸ hparams.pos) (hsize'.symm ▸ hpool)
      (P.tiling.index_lt (P.used_mem hX))

/-- A pool of five pages, of which the client has given the first one back. -/
theorem reachable_partition_five :
    ∃ s : BuddyRun, s.live = {1, 2, 3, 4} ∧
      ∃ U F : Finset Block, Tiling 5 s.alloc.maxOrder (U ∪ F) ∧ Tracks s.alloc U F ∧
        s.live = U.image Block.index ∧ buddyMachine.SafeAt s := by
  obtain ⟨b₀, s, hctor, hs, hlive⟩ := exists_run_five
  obtain ⟨U, F, htiling, -, htracks, hused, -, -, -, -, hsafe⟩ :=
    reachable_partition params_five (by decide) hctor hs
  exact ⟨s, hlive, U, F, htiling, htracks, hused, hsafe⟩

/-- **The free lists have no history.**  In every reachable state free blocks below the top order
are never buddies.  So the lists are determined, as sets, by which pages are free; in particular a
`malloc` whose block is given back at once restores them, and the counters. -/
theorem reachable_history_independent (hparams : Params base pageSize)
    (hpool : pageCount * pageSize ≤ 2 ^ 32)
    (hctor : ctor valloc base pageSize pageCount = .ok b₀)
    (hs : buddyMachine.Reachable (start b₀) s) :
    (∀ o < s.alloc.maxOrder, ∀ i ∈ s.alloc.list o, getBuddy i o ∉ s.alloc.list o) ∧
    (∀ s', buddyMachine.Reachable (start b₀) s' →
      (∀ p, s.alloc.FreePage p ↔ s'.alloc.FreePage p) →
      ∀ o i, i ∈ s.alloc.list o ↔ i ∈ s'.alloc.list o) ∧
    (∀ size i b₁, s.Legal (.malloc size) → s.alloc.mallocPage size = .ok (some i, b₁) →
      ∃ b₂, b₁.free (s.alloc.retAddr i) = .ok b₂ ∧
        (∀ o j, j ∈ b₂.list o ↔ j ∈ s.alloc.list o) ∧
        b₂.freePageCount = s.alloc.freePageCount ∧ b₂.wastePageCount = s.alloc.wastePageCount) := by
  obtain ⟨-, hbase, hsize, -⟩ := models_of_ctor hctor
  have hparams₀ : Params b₀.base b₀.pageSize := by rwa [hbase, hsize]
  obtain ⟨P, hP⟩ := Reachable.inv hparams hctor hs
  refine ⟨?_, ?_, ?_⟩
  · intro o ho i hi hbuddy
    have hmem := (hP.models.tracks.mem_list o i).1 hi
    have ho' : o < b₀.maxOrder := hP.setup.maxOrder ▸ ho
    have hm := hP.models.fits.order_lt
    rw [getBuddy_eq (B := ⟨i, o⟩) (P.tiling.aligned _ (P.free_mem hmem)) (by simp only; omega),
      hP.models.tracks.mem_list] at hbuddy
    exact P.coalesced _ hmem ho' hbuddy
  · intro s' hs' hfree o i
    obtain ⟨P', hP'⟩ := Reachable.inv hparams hctor hs'
    have hcells : P.freeCells = P'.freeCells := by
      ext p
      rw [Pool.freeCells, Pool.freeCells, ← hP.models.tracks.freePage_iff,
        ← hP'.models.tracks.freePage_iff]
      exact hfree p
    rw [hP.models.tracks.mem_list, hP'.models.tracks.mem_list,
      P.free_eq_of_freeCells_eq P' hcells]
  · intro size i b₁ hlegal hrun
    have hcnt : s.alloc.pagesFor size ≤ 2 ^ 31 := by
      rw [pagesFor_eq (hP.params hparams₀).widths hlegal]
      exact le_of_lt hlegal
    obtain ⟨P₁, ha⟩ := allocated_of_mallocPage hP.models hcnt hrun
    have hP₁ : Inv b₀ (s.receive (some i, b₁)) P₁ := hP.receive ha
    set X : Block := ⟨i, s.alloc.orderFor size⟩ with hXdef
    have hX : X ∈ P₁.used := ha.mem_used
    obtain ⟨b₂, P₂, hfree, hrel⟩ := hP₁.free hparams₀ hX
    have haddr : s.alloc.retAddr i = b₁.pageAddr i := by
      rw [ha.setup.pageAddr_eq]
      exact retAddr_eq_of_pool (hP.params hparams₀).pos
        (by rwa [hP.setup.pageSize, hsize]) ha.index_lt
    have hused : P₂.used = P.used := by
      rw [hrel.used_eq, ha.used_eq, Finset.erase_insert ha.notMem]
    have hfreeEq : P₂.free = P.free := P₂.free_eq_of_used_eq P hused
    refine ⟨b₂, by rw [haddr]; exact hfree, ?_, ?_, ?_⟩
    · intro o j
      rw [hrel.models.tracks.mem_list, hP.models.tracks.mem_list, hfreeEq]
    · rw [hrel.models.free_count, hP.models.free_count, Pool.freeCells, Pool.freeCells, hfreeEq]
    · rw [hrel.models.waste_count, hP.models.waste_count, hused]
      refine Finset.sum_congr rfl fun B hB => ?_
      have hBX : B ≠ X := by
        rintro rfl
        exact ha.notMem hB
      rw [waste, waste, hrel.frame B (ha.used_eq ▸ Finset.mem_insert_of_mem hB) hBX,
        ← ha.frame B hB]
      rfl

/-- Four of five pages in use: asking for a page and giving it back restores the counters. -/
theorem reachable_history_independent_five :
    ∃ s : BuddyRun, s.live = {1, 2, 3, 4} ∧
      (∀ o < s.alloc.maxOrder, ∀ i ∈ s.alloc.list o, getBuddy i o ∉ s.alloc.list o) ∧
      ∀ i b₁, s.alloc.mallocPage 1 = .ok (some i, b₁) →
        ∃ b₂, b₁.free (s.alloc.retAddr i) = .ok b₂ ∧
          b₂.freePageCount = s.alloc.freePageCount := by
  obtain ⟨b₀, s, hctor, hs, hlive⟩ := exists_run_five
  obtain ⟨hcoalesced, -, hrestore⟩ :=
    reachable_history_independent params_five (by decide) hctor hs
  refine ⟨s, hlive, hcoalesced, fun i b₁ hrun => ?_⟩
  have hlegal : s.Legal (.malloc 1) := by
    show (1 + s.alloc.pageSize - 1) / s.alloc.pageSize < 2 ^ 31
    rw [Nat.add_sub_cancel_left]
    exact lt_of_le_of_lt (Nat.div_le_of_le_mul (Nat.mul_one _).ge) (by decide)
  obtain ⟨b₂, hfree, -, hcount, -⟩ := hrestore 1 i b₁ hlegal hrun
  exact ⟨b₂, hfree, hcount⟩

end Reachable

end BuddyRun

end Aim
