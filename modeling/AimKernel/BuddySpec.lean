/-
**What the methods of the buddy allocator do to a pool.**

An allocator state *models* a `DyadicBlocks.Pool` when it tracks the blocks of the pool and its counters
are right.  A pool is determined by its blocks in use, so the methods are described by what they do
to those: `malloc` adds one block, `free` removes one.

Main definitions:

* `Aim.BuddyPmalloc.Models` — the state models the pool;
* `Aim.BuddyPmalloc.SameSetup` — two states were set up with the same constants;
* `Aim.BuddyPmalloc.pagesFor`, `Aim.BuddyPmalloc.orderFor` — the pages and the order of a request.

Main results:

* `Aim.BuddyPmalloc.ctor_spec` — the constructor models the pool of single pages in use;
* `Aim.BuddyPmalloc.mallocPage_none`, `Aim.BuddyPmalloc.mallocPage_some`,
  `Aim.BuddyPmalloc.mallocPage_spec` — **allocation**;
* `Aim.BuddyPmalloc.free_spec` — **release**.
-/

import AimKernel.BuddyLoops

set_option relaxedAutoImplicit false
set_option autoImplicit false

namespace Aim

namespace BuddyPmalloc

open DyadicBlocks

variable {n m : ℕ}

/-! ### States that model a pool -/

/-- The pages of a block beyond those the caller asked for. -/
def waste (b : BuddyPmalloc) (B : Block) : ℕ := 2 ^ B.order - (b.pages B.index).curPageCount

/-- The lists, the head records and the counters describe the pool. -/
structure Models (b : BuddyPmalloc) (P : Pool n m) : Prop where
  fits : Fits b n m
  tracks : Tracks b P.used P.free
  cur_le : ∀ B ∈ P.used, (b.pages B.index).curPageCount ≤ 2 ^ B.order
  free_count : b.freePageCount = P.freeCells.card
  waste_count : b.wastePageCount = ∑ B ∈ P.used, b.waste B

/-- Two states set up with the same constants. -/
structure SameSetup (b b' : BuddyPmalloc) : Prop where
  maxOrder : b'.maxOrder = b.maxOrder
  base : b'.base = b.base
  pageSize : b'.pageSize = b.pageSize
  pageCount : b'.pageCount = b.pageCount

theorem SameSetup.refl (b : BuddyPmalloc) : SameSetup b b := ⟨rfl, rfl, rfl, rfl⟩

theorem SameSetup.trans {b₁ b₂ b₃ : BuddyPmalloc} (h₁ : SameSetup b₁ b₂) (h₂ : SameSetup b₂ b₃) :
    SameSetup b₁ b₃ :=
  ⟨h₂.1.trans h₁.1, h₂.2.trans h₁.2, h₂.3.trans h₁.3, h₂.4.trans h₁.4⟩

theorem Fits.of_sameSetup {b b' : BuddyPmalloc} (h : Fits b n m) (hs : SameSetup b b') :
    Fits b' n m :=
  ⟨hs.pageCount.trans h.pageCount_eq, hs.maxOrder.trans h.maxOrder_eq, h.count_lt, h.order_lt⟩

/-- No more pages are wasted than there are. -/
theorem sum_waste_le (b : BuddyPmalloc) (P : Pool n m) : ∑ B ∈ P.used, b.waste B ≤ n := by
  calc ∑ B ∈ P.used, b.waste B
      ≤ ∑ B ∈ P.used, 2 ^ B.order := Finset.sum_le_sum fun B _ => Nat.sub_le _ _
    _ ≤ n := by
      have := P.sum_sizes
      omega

theorem card_freeCells_le (P : Pool n m) : P.freeCells.card ≤ n := by
  have := P.sum_sizes
  rw [P.card_freeCells]
  omega

theorem Models.used_order_lt {b : BuddyPmalloc} {P : Pool n m} (h : Models b P) {B : Block}
    (hB : B ∈ P.used) : B.order < 31 :=
  lt_of_le_of_lt (P.tiling.order_le B (P.used_mem hB)) h.fits.order_lt

/-! ### Construction -/

/-- The constructor comes back only for fewer than `2 ^ 31` pages: for more, `1 << order` never
exceeds the page count. -/
theorem ctor_count_lt {valloc : ℕ → ℕ} {base pageSize pageCount : ℕ} {b : BuddyPmalloc}
    (h : ctor valloc base pageSize pageCount = .ok b) : pageCount < 2 ^ 31 := by
  by_contra hge
  obtain ⟨k, hk, -⟩ := bind_eq_ok.1 h
  obtain ⟨hk32, hstop, -⟩ := leastShift_eq_ok.1 hk
  rw [decide_eq_true_iff, shl1] at hstop
  refine hstop (le_trans (Nat.pow_le_pow_right (by decide) ?_) (not_lt.1 hge))
  omega

/-- **The constructor**: every page is a block of its own, in use. -/
theorem ctor_spec (valloc : ℕ → ℕ) (base pageSize : ℕ) {pageCount : ℕ} (hcount : pageCount < 2 ^ 31)
    (hvalloc : valloc (wrap32 (sizeofBuddyPage * pageCount)) ≠ 0) :
    ∃ b, ctor valloc base pageSize pageCount = .ok b ∧
      Models b (Pool.allUsed pageCount (Nat.log 2 pageCount)) ∧ b.base = base ∧
      b.pageSize = pageSize := by
  rw [ctor, leastShift_lt hcount, ok_bind, if_neg hvalloc]
  refine ⟨_, rfl, ?_, rfl, rfl⟩
  · have hlog : Nat.log 2 pageCount < 31 := by
      rcases Nat.eq_zero_or_pos pageCount with h | hpos
      · simp [h]
      · exact Nat.log_lt_of_lt_pow (by omega) hcount
    have hpage : ∀ B ∈ (Pool.allUsed pageCount (Nat.log 2 pageCount)).used,
        B.order = 0 ∧ B.index < pageCount := by
      intro B hB
      obtain ⟨i, hi, rfl⟩ := Finset.mem_image.1 hB
      exact ⟨rfl, Finset.mem_range.1 hi⟩
    refine ⟨⟨rfl, rfl, hcount, hlog⟩, ⟨?_, ?_, ?_, ?_⟩, ?_, ?_, ?_⟩
    · intro o i
      simp [Pool.allUsed]
    · exact fun o => List.nodup_nil
    · intro B hB
      simp [hpage B hB]
    · exact fun B hB => absurd hB (Finset.notMem_empty B)
    · intro B hB
      simp [hpage B hB]
    · simp [Pool.allUsed, Pool.freeCells, cellsOf]
    · refine (Finset.sum_eq_zero fun B hB => ?_).symm
      simp [waste, hpage B hB]

/-- Whenever the constructor comes back, it has done so. -/
theorem models_of_ctor {valloc : ℕ → ℕ} {base pageSize pageCount : ℕ} {b : BuddyPmalloc}
    (h : ctor valloc base pageSize pageCount = .ok b) :
    Models b (Pool.allUsed pageCount (Nat.log 2 pageCount)) ∧ b.base = base ∧
      b.pageSize = pageSize ∧ b.maxOrder = Nat.log 2 pageCount := by
  have hcount := ctor_count_lt h
  have hvalloc : valloc (wrap32 (sizeofBuddyPage * pageCount)) ≠ 0 := by
    intro h0
    rw [ctor, leastShift_lt hcount, ok_bind, if_pos h0] at h
    cases h
  obtain ⟨b', hb', hmodels, hbase, hsize⟩ := ctor_spec valloc base pageSize hcount hvalloc
  obtain rfl : b = b' := Except.ok.inj (h.symm.trans hb')
  exact ⟨hmodels, hbase, hsize, hmodels.fits.maxOrder_eq⟩

/-! ### Allocation -/

/-- The number of pages a request is rounded up to. -/
def pagesFor (b : BuddyPmalloc) (size : ℕ) : ℕ := wrap32 (divRoundUp 64 size b.pageSize)

/-- The order of the block that answers a request. -/
def orderFor (b : BuddyPmalloc) (size : ℕ) : ℕ := Nat.clog 2 (b.pagesFor size)

theorem findBlock_eq_none {b : BuddyPmalloc} {t : ℕ} :
    b.findBlock t = none ↔ ∀ o, t ≤ o → o ≤ b.maxOrder → b.list o = [] := by
  simp only [findBlock, List.findSome?_eq_none_iff, List.mem_range'_1, Option.map_eq_none_iff,
    List.head?_eq_none_iff]
  constructor
  · exact fun h o hto ho => h o ⟨hto, by omega⟩
  · exact fun h o ho => h o ho.1 (by omega)

theorem findBlock_eq_some {b : BuddyPmalloc} {t o i : ℕ} (h : b.findBlock t = some (o, i)) :
    t ≤ o ∧ o ≤ b.maxOrder ∧ (b.list o).head? = some i := by
  obtain ⟨o', hmem, hhead⟩ := List.exists_of_findSome?_eq_some h
  obtain ⟨i', hi', heq⟩ := Option.map_eq_some_iff.1 hhead
  obtain ⟨rfl, rfl⟩ := Prod.mk.inj heq
  rw [List.mem_range'_1] at hmem
  exact ⟨hmem.1, by omega, hi'⟩

/-- The list of the least order is the first one looked at. -/
theorem findBlock_of_head {b : BuddyPmalloc} {o i : ℕ} (ho : o ≤ b.maxOrder)
    (h : (b.list o).head? = some i) : b.findBlock o = some (o, i) := by
  rw [findBlock, show b.maxOrder + 1 - o = b.maxOrder - o + 1 by omega, List.range'_succ,
    List.findSome?_cons, h]
  rfl

/-- The record `malloc` writes for a block. -/
def claimPage (b : BuddyPmalloc) (size : ℕ) : BuddyPage where
  inUse := true
  order := b.orderFor size
  byteSize := size
  curPageCount := b.pagesFor size

/-- The state in which `malloc`, having found a block at `i`, starts to split it. -/
def claim (b : BuddyPmalloc) (size i : ℕ) : BuddyPmalloc :=
  let b' := b.setPage i fun _ => b.claimPage size
  listDel { b' with
    wastePageCount := wrap32 (b.wastePageCount + sub32 (shl1 (b.orderFor size)) (b.pagesFor size))
    freePageCount := sub32 b.freePageCount (shl1 (b.orderFor size)) } i

theorem claim_pages_self (b : BuddyPmalloc) (size i : ℕ) :
    (b.claim size i).pages i = b.claimPage size :=
  setPage_pages_self b i fun _ => b.claimPage size

theorem claim_pages_of_ne (b : BuddyPmalloc) (size : ℕ) {i j : ℕ} (h : j ≠ i) :
    (b.claim size i).pages j = b.pages j :=
  setPage_pages_of_ne b (fun _ => b.claimPage size) h

theorem mallocPage_of_findBlock_none {b : BuddyPmalloc} {size : ℕ} (hcnt : b.pagesFor size ≤ 2 ^ 31)
    (hfind : b.findBlock (b.orderFor size) = none) : b.mallocPage size = .ok (none, b) := by
  rw [mallocPage, ← pagesFor, leastShift_le hcnt, ok_bind, ← orderFor, hfind]
  rfl

theorem mallocPage_of_findBlock_some {b : BuddyPmalloc} {size o i : ℕ}
    (hcnt : b.pagesFor size ≤ 2 ^ 31) (hfind : b.findBlock (b.orderFor size) = some (o, i))
    (huse : (b.pages i).inUse = false) (hfree : b.freePageCount ≥ b.pagesFor size) :
    b.mallocPage size = .ok (some i, splitLoop (b.orderFor size) i o (b.claim size i)) := by
  rw [mallocPage, ← pagesFor, leastShift_le hcnt, ok_bind, ← orderFor, hfind]
  simp only
  rw [assert_bind huse, assert_bind hfree]
  rfl

section Allocation

variable {b : BuddyPmalloc} {P : Pool n m} {size : ℕ}

/-- Without a free block of the order of the request or above, `malloc` fails and changes
nothing. -/
theorem mallocPage_none (h : Models b P) (hcnt : b.pagesFor size ≤ 2 ^ 31)
    (hnone : ∀ B ∈ P.free, B.order < b.orderFor size) : b.mallocPage size = .ok (none, b) := by
  refine mallocPage_of_findBlock_none hcnt (findBlock_eq_none.2 fun o hto _ => ?_)
  rw [List.eq_nil_iff_forall_not_mem]
  intro i hi
  exact absurd (hnone _ ((h.tracks.mem_list o i).1 hi)) (not_lt.2 hto)

/-- What a successful allocation of a block at `i` leaves behind. -/
structure Allocated (b : BuddyPmalloc) (P : Pool n m) (size i : ℕ) (b' : BuddyPmalloc)
    (P' : Pool n m) : Prop where
  models : Models b' P'
  setup : SameSetup b b'
  /-- The block comes from the head of a list. -/
  head_list : ∃ o ≤ b.maxOrder, (b.list o).head? = some i
  notMem : (⟨i, b.orderFor size⟩ : Block) ∉ P.used
  used_eq : P'.used = insert ⟨i, b.orderFor size⟩ P.used
  record : b'.pages i = b.claimPage size
  /-- The records of the other blocks in use are left alone. -/
  frame : ∀ B ∈ P.used, b'.pages B.index = b.pages B.index

theorem Allocated.mem_used {i : ℕ} {b' : BuddyPmalloc} {P' : Pool n m}
    (ha : Allocated b P size i b' P') : (⟨i, b.orderFor size⟩ : Block) ∈ P'.used :=
  ha.used_eq ▸ Finset.mem_insert_self _ P.used

theorem Allocated.index_lt {i : ℕ} {b' : BuddyPmalloc} {P' : Pool n m}
    (ha : Allocated b P size i b' P') : i < n :=
  P'.tiling.index_lt (P'.used_mem ha.mem_used)

/-- The new block starts where no other block in use does. -/
theorem Allocated.index_ne {i : ℕ} {b' : BuddyPmalloc} {P' : Pool n m}
    (ha : Allocated b P size i b' P') {Y : Block} (hY : Y ∈ P.used) : Y.index ≠ i := by
  intro heq
  have hYmem : Y ∈ P'.used := ha.used_eq ▸ Finset.mem_insert_of_mem hY
  have hYX : Y = ⟨i, b.orderFor size⟩ :=
    P'.tiling.eq_of_index_eq (P'.used_mem hYmem) (P'.used_mem ha.mem_used) heq
  exact ha.notMem (hYX ▸ hY)

/-- Of the free blocks that are large enough, the search finds one at the head of its list. -/
theorem findBlock_of_free (h : Models b P) {t : ℕ} (hsome : ∃ B ∈ P.free, t ≤ B.order) :
    ∃ o i, b.findBlock t = some (o, i) ∧ t ≤ o ∧ o ≤ b.maxOrder ∧ (b.list o).head? = some i ∧
      (⟨i, o⟩ : Block) ∈ P.free := by
  obtain ⟨⟨o, i⟩, hfind⟩ : ∃ p, b.findBlock t = some p := by
    refine Option.ne_none_iff_exists'.1 fun hnone => ?_
    obtain ⟨B, hB, hBo⟩ := hsome
    have hempty := findBlock_eq_none.1 hnone B.order hBo (by
      rw [h.fits.maxOrder_eq]
      exact P.tiling.order_le B (P.free_mem hB))
    have := (h.tracks.mem_list B.order B.index).2 hB
    simp [hempty] at this
  obtain ⟨hto, hom, hhead⟩ := findBlock_eq_some hfind
  exact ⟨o, i, hfind, hto, hom, hhead, (h.tracks.mem_list o i).1 (List.mem_of_mem_head? hhead)⟩

variable (size) in
/-- Taking a free block out of its list leaves a state that tracks the other blocks. -/
theorem tracks_claim (h : Models b P) {X : Block} (hX : X ∈ P.free) :
    Tracks (b.claim size X.index) P.used (P.free.erase X) ∧
      ∀ B ∈ P.used ∪ P.free.erase X, B.index ≠ X.index := by
  have hne : ∀ B ∈ P.used ∪ P.free.erase X, B.index ≠ X.index := by
    intro B hB hBi
    have hBT : B ∈ P.used ∪ P.free := Finset.union_subset_union_right (Finset.erase_subset _ _) hB
    have heq := P.tiling.eq_of_index_eq hBT (P.free_mem hX) hBi
    subst heq
    rcases Finset.mem_union.1 hB with hB | hB
    · exact Finset.disjoint_left.1 P.disjoint hB hX
    · exact Finset.notMem_erase _ _ hB
  have hunique : ∀ B ∈ P.free, B.index = X.index → B = X := fun B hB hBi =>
    P.tiling.eq_of_index_eq (P.free_mem hB) (P.free_mem hX) hBi
  exact ⟨(h.tracks.popFree hunique).congr rfl
    fun B hB => claim_pages_of_ne b size (hne B hB), hne⟩

/-- One more block in use: the counters of `malloc` are those of the larger set. -/
theorem Models.insertUsed (h : Models b P) {P' : Pool n m} {X : Block} {b' : BuddyPmalloc}
    (hfit : Fits b' n m) (htr : Tracks b' P'.used P'.free) (hnot : X ∉ P.used)
    (hused : P'.used = insert X P.used) (hcur : (b'.pages X.index).curPageCount ≤ 2 ^ X.order)
    (hframe : ∀ B ∈ P.used, b'.pages B.index = b.pages B.index)
    (hfree : b'.freePageCount = sub32 b.freePageCount (shl1 X.order))
    (hwaste : b'.wastePageCount = wrap32 (b.wastePageCount +
      sub32 (shl1 X.order) (b'.pages X.index).curPageCount)) : Models b' P' := by
  have hX : X ∈ P'.used := hused ▸ Finset.mem_insert_self X P.used
  have hn := h.fits.count_lt
  have hXm := (P'.tiling.order_le X (P'.used_mem hX)).trans_lt h.fits.order_lt
  have hlt : (2 : ℕ) ^ X.order < 2 ^ 31 := Nat.pow_lt_pow_right (by decide) hXm
  have hshl : shl1 X.order = 2 ^ X.order := shl1_of_lt (by omega)
  refine ⟨hfit, htr, ?_, ?_, ?_⟩
  · rw [hused]
    intro B hB
    rcases Finset.mem_insert.1 hB with rfl | hB
    · exact hcur
    · rw [hframe B hB]
      exact h.cur_le B hB
  · have hsum := Pool.card_freeCells_of_insert hnot hused
    have := card_freeCells_le P
    rw [hfree, h.free_count, hshl, sub32_of_le (by omega) (by omega)]
    omega
  · have hsame : ∑ B ∈ P.used, b'.waste B = ∑ B ∈ P.used, b.waste B :=
      Finset.sum_congr rfl fun B hB => by rw [waste, waste, hframe B hB]
    have hle := sum_waste_le b' P'
    rw [hused, Finset.sum_insert hnot, hsame] at hle ⊢
    rw [hwaste, h.waste_count, hshl, sub32_of_le hcur (by omega), ← waste,
      wrap32_of_lt (by omega), add_comm]

/-- With a free block of the order of the request or above, `malloc` succeeds. -/
theorem mallocPage_some (h : Models b P) (hcnt : b.pagesFor size ≤ 2 ^ 31)
    (hsome : ∃ B ∈ P.free, b.orderFor size ≤ B.order) :
    ∃ i b' P', b.mallocPage size = .ok (some i, b') ∧ Allocated b P size i b' P' := by
  obtain ⟨o, i, hfind, hto, hom, hhead, hX⟩ := findBlock_of_free h hsome
  set t := b.orderFor size with ht
  have hcntt : b.pagesFor size ≤ 2 ^ t := Nat.le_pow_clog (by decide) _
  -- the free pages include those of the block found
  have hcard : 2 ^ o ≤ P.freeCells.card := by
    rw [P.card_freeCells]
    exact Finset.single_le_sum (f := fun B : Block => 2 ^ B.order) (fun _ _ => Nat.zero_le _) hX
  have hto' : (2 : ℕ) ^ t ≤ 2 ^ o := Nat.pow_le_pow_right (by decide) hto
  have hrun := mallocPage_of_findBlock_some hcnt hfind (h.tracks.free_page _ hX).1 (by
    rw [h.free_count]
    omega)
  -- the block is taken out of the pool and split
  obtain ⟨htr, hne⟩ := tracks_claim size h hX
  have hfit : Fits (b.claim size i) n m := h.fits.of_sameSetup ⟨rfl, rfl, rfl, rfl⟩
  obtain ⟨Φ, htr', hhole, hused, hcells, hs, hpages⟩ :=
    splitLoop_spec o (b.claim size i) (P.takeFree ⟨i, o⟩ hX) hfit htr rfl hto
  set b' := splitLoop t i o (b.claim size i) with hb'
  have hrecord : b'.pages i = b.claimPage size := by
    rw [hpages i (.inl rfl), claim_pages_self]
  have hnot : (⟨i, t⟩ : Block) ∉ P.used := by
    have := Φ.hole_not_used
    rwa [hhole, hused] at this
  have hused' : Φ.fillUsed.used = insert ⟨i, t⟩ P.used := by
    show insert Φ.hole Φ.used = _
    rw [hhole, hused]
    rfl
  have hframe : ∀ B ∈ P.used, b'.pages B.index = b.pages B.index := by
    intro B hB
    have hBX : B.index ∉ (⟨i, o⟩ : Block).cells := index_not_mem_hole (P.takeFree _ hX)
      (Finset.mem_union_left _ hB)
    rw [hpages _ (.inr hBX), claim_pages_of_ne b size (hne B (Finset.mem_union_left _ hB))]
  have htr₂ : Tracks b' Φ.fillUsed.used Φ.fillUsed.free := by
    refine htr'.pushUsed (X := Φ.hole) ?_
    rw [hhole, hrecord]
    exact ⟨rfl, rfl⟩
  have hmodels : Models b' Φ.fillUsed :=
    h.insertUsed (hfit.congr hs) htr₂ hnot hused' (by rw [hrecord]; exact hcntt) hframe
      hs.freePageCount (by rw [hs.wastePageCount, hrecord]; rfl)
  exact ⟨i, b', Φ.fillUsed, hrun, hmodels,
    ⟨hs.maxOrder, hs.base, hs.pageSize, hs.pageCount⟩, ⟨o, hom, hhead⟩, hnot, hused', hrecord,
    hframe⟩

/-- **Allocation** either fails for want of a large enough free block and changes nothing, or puts
one block of the order of the request in use. -/
theorem mallocPage_spec (h : Models b P) (hcnt : b.pagesFor size ≤ 2 ^ 31) :
    (b.mallocPage size = .ok (none, b) ∧ ∀ B ∈ P.free, B.order < b.orderFor size) ∨
      ∃ i b' P', b.mallocPage size = .ok (some i, b') ∧ Allocated b P size i b' P' := by
  by_cases hsome : ∃ B ∈ P.free, b.orderFor size ≤ B.order
  · exact .inr (mallocPage_some h hcnt hsome)
  · have hnone : ∀ B ∈ P.free, B.order < b.orderFor size := fun B hB => by
      by_contra hge
      exact hsome ⟨B, hB, not_lt.1 hge⟩
    exact .inl ⟨mallocPage_none h hcnt hnone, hnone⟩

theorem allocated_of_mallocPage (h : Models b P) (hcnt : b.pagesFor size ≤ 2 ^ 31) {i : ℕ}
    {b' : BuddyPmalloc} (hrun : b.mallocPage size = .ok (some i, b')) :
    ∃ P', Allocated b P size i b' P' := by
  rcases mallocPage_spec h hcnt with ⟨hrun', -⟩ | ⟨i', b'', P', hrun', ha⟩
  · cases hrun.symm.trans hrun'
  · cases hrun.symm.trans hrun'
    exact ⟨P', ha⟩

end Allocation

/-! ### Release -/

section Release

variable {b : BuddyPmalloc} {P : Pool n m} {X : Block}

/-- The counters after a block with the record `pp` has been given back. -/
def credit (b : BuddyPmalloc) (pp : BuddyPage) : BuddyPmalloc :=
  { b with
    freePageCount := wrap32 (b.freePageCount + shl1 pp.order)
    wastePageCount := sub32 b.wastePageCount (sub32 (shl1 pp.order) pp.curPageCount) }

/-- What the release of the block `X` leaves behind. -/
structure Released (b : BuddyPmalloc) (P : Pool n m) (X : Block) (b' : BuddyPmalloc)
    (P' : Pool n m) : Prop where
  models : Models b' P'
  setup : SameSetup b b'
  used_eq : P'.used = P.used.erase X
  /-- The records of the other blocks in use are left alone. -/
  frame : ∀ B ∈ P.used, B ≠ X → b'.pages B.index = b.pages B.index

/-- The counters after the release of `X`. -/
theorem Models.credit_counts (h : Models b P) (hX : X ∈ P.used) :
    (b.credit (b.pages X.index)).freePageCount = P.freeCells.card + 2 ^ X.order ∧
      P.freeCells.card + 2 ^ X.order ≤ n ∧
      (b.credit (b.pages X.index)).wastePageCount = ∑ B ∈ P.used.erase X, b.waste B := by
  have hord := (h.tracks.used_page X hX).2
  have hn := h.fits.count_lt
  have hlt : (2 : ℕ) ^ X.order < 2 ^ 31 :=
    Nat.pow_lt_pow_right (by decide) (h.used_order_lt hX)
  have hshl : shl1 X.order = 2 ^ X.order := shl1_of_lt ((h.used_order_lt hX).trans (by decide))
  -- the pages in use and the free ones together are at most `n`
  have hroom : P.freeCells.card + 2 ^ X.order ≤ n := by
    have hsum := P.sum_sizes
    have := Finset.single_le_sum (f := fun B : Block => 2 ^ B.order)
      (fun _ _ => Nat.zero_le _) hX
    rw [P.card_freeCells]
    omega
  have hsum : b.waste X + ∑ B ∈ P.used.erase X, b.waste B = ∑ B ∈ P.used, b.waste B :=
    Finset.add_sum_erase P.used b.waste hX
  have hle := sum_waste_le b P
  refine ⟨?_, hroom, ?_⟩
  · show wrap32 (b.freePageCount + shl1 (b.pages X.index).order) = _
    rw [hord, hshl, h.free_count, wrap32_of_lt (by omega)]
  · show sub32 b.wastePageCount (sub32 (shl1 (b.pages X.index).order) _) = _
    rw [hord, hshl, h.waste_count, sub32_of_le (h.cur_le X hX) (by omega), ← waste,
      sub32_of_le (by omega) (by omega), ← hsum, Nat.add_sub_cancel_left]

/-- One block in use less: the counters of `free` are those of the smaller set. -/
theorem Models.eraseUsed (h : Models b P) (hX : X ∈ P.used) {P' : Pool n m} {b' : BuddyPmalloc}
    (hused : P'.used = P.used.erase X) (hfit : Fits b' n m) (htr : Tracks b' P'.used P'.free)
    (hframe : ∀ B ∈ P.used, B ≠ X → b'.pages B.index = b.pages B.index)
    (hs : SameScalars (b.credit (b.pages X.index)) b') : Models b' P' := by
  obtain ⟨hfree, -, hwaste⟩ := h.credit_counts hX
  refine ⟨hfit, htr, ?_, ?_, ?_⟩
  · intro B hB
    obtain ⟨hne, hB⟩ := Finset.mem_erase.1 (hused ▸ hB)
    rw [hframe B hB hne]
    exact h.cur_le B hB
  · rw [hs.freePageCount, hfree, Pool.card_freeCells_of_erase hX hused]
  · have hsame : ∀ B ∈ P.used.erase X, b'.waste B = b.waste B := by
      intro B hB
      obtain ⟨hne, hB⟩ := Finset.mem_erase.1 hB
      rw [waste, waste, hframe B hB hne]
    rw [hs.wastePageCount, hwaste, hused, Finset.sum_congr rfl hsame]

/-- **Release** of a block in use gives its pages back. -/
theorem free_spec (h : Models b P) (hX : X ∈ P.used) {ptr : ℕ} (haligned : b.pageSize ∣ ptr)
    (hindex : b.pageIndex ptr = X.index) :
    ∃ b' P', b.free ptr = .ok b' ∧ Released b P X b' P' := by
  obtain ⟨huse, hord⟩ := h.tracks.used_page X hX
  have hXT := P.used_mem hX
  have hXn := P.tiling.index_lt hXT
  have hshl : shl1 X.order = 2 ^ X.order := shl1_of_lt ((h.used_order_lt hX).trans (by decide))
  obtain ⟨hfree₁, hroom, -⟩ := h.credit_counts hX
  have hfit : Fits (b.credit (b.pages X.index)) n m := h.fits.of_sameSetup ⟨rfl, rfl, rfl, rfl⟩
  have htr : Tracks (b.credit (b.pages X.index)) (P.takeUsed X hX).used (P.takeUsed X hX).free :=
    (h.tracks.popUsed X).congr rfl fun B _ => rfl
  obtain ⟨Φ, b₂, hrun, htr₂, hused, hcells, hs, hpages, -, hdone⟩ :=
    mergeLoop_spec _ _ (P.takeUsed X hX) hfit htr rfl
  have hused' : (Φ.fillFree hdone).used = P.used.erase X := hused
  set f : BuddyPage → BuddyPage := fun pp => { pp with inUse := false, order := Φ.hole.order }
    with hf
  have hheads : ∀ B ∈ Φ.used ∪ Φ.free, B.index ≠ Φ.hole.index := fun B hB heq =>
    index_not_mem_hole Φ hB (heq ▸ Φ.hole.index_mem_cells)
  have hs' : SameScalars (b.credit (b.pages X.index))
      ((b₂.setPage Φ.hole.index f).listAdd Φ.hole.index Φ.hole.order) :=
    (hs.trans (sameScalars_setPage b₂ _ f)).trans (sameScalars_listAdd _ _ _)
  have hframe : ∀ B ∈ P.used, B ≠ X →
      ((b₂.setPage Φ.hole.index f).listAdd Φ.hole.index Φ.hole.order).pages B.index =
        b.pages B.index := by
    intro B hB hne
    have hBΦ : B ∈ Φ.used := hused.symm ▸ Finset.mem_erase.2 ⟨hne, hB⟩
    rw [listAdd_pages, setPage_pages_of_ne b₂ f (hheads B (Finset.mem_union_left _ hBΦ)), hpages]
    rfl
  refine ⟨_, Φ.fillFree hdone, ?_,
    h.eraseUsed hX hused' (hfit.congr hs') (htr₂.pushFree hheads f ⟨rfl, rfl⟩) hframe hs',
    ⟨hs'.maxOrder, hs'.base, hs'.pageSize, hs'.pageCount⟩, hused', hframe⟩
  rw [free, hindex, assert_bind (roundDown_eq_self_iff.2 haligned)]
  simp only
  rw [assert_bind (by rw [hord, hshl, Bits.and_low_mask_eq_zero_iff]
                      exact P.tiling.aligned X hXT),
    assert_bind (by rwa [h.fits.pageCount_eq]), assert_bind huse]
  rw [assert_bind (by
    show (b.credit (b.pages X.index)).freePageCount ≤ b.pageCount
    rw [hfree₁, h.fits.pageCount_eq]
    exact hroom)]
  have hrun' : mergeLoop (b.maxOrder - (b.pages X.index).order) (b.pages X.index).order X.index
      (b.credit (b.pages X.index)) = (Φ.hole.order, Φ.hole.index, b₂) := by
    rw [hord, h.fits.maxOrder_eq]
    exact hrun
  rw [credit] at hrun'
  rw [hrun']
  rfl

end Release

end BuddyPmalloc

end Aim
