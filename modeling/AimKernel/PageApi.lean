/-
**Runs of the page interface.**

`alloc_pages` and `free_pages` go through the adapter to the buddy allocator of `ZONE_NORMAL`, which
other clients call directly at the same time.  The adapter compares the size that is given back with
the one that the allocator has noted in the record of the first page.  Splits and merges write the
records of many pages, but never that of a block in use.

The records are in memory, and the interface fills memory.  What it fills of its own pages are never
records; but `alloc_pages` also zeroes when the allocator has failed, at whatever address is in the
request, and sizes of `2 ^ 44` bytes and more make `pmemset` go through all of memory.

Main definitions:

* `Aim.PageClients`, `Aim.PageCall`, `Aim.pageApi` — the clients of both interfaces, and their runs;
* `Aim.PageClients.SparesRecords` — calls that fill no records;
* `Aim.PageClients.Correct` — what should hold in every reachable state.

Main results:

* `Aim.BuddyRun.Inv.receive_frame`, `Aim.BuddyRun.Inv.release_frame` — requests leave the records of
  the blocks in use alone;
* `Aim.PageClients.Inv.step` — every answer keeps the invariant;
* `Aim.PageClients.Inv.overwritten` — a failure that zeroes the size in a record;
* `Aim.PageClients.reachable_sizes_match` — **while no call fills records, those of pages that are
  out stay as they are, and `free_pages` never finds another size.**
-/

import AimKernel.PageRecords

set_option relaxedAutoImplicit false
set_option autoImplicit false

namespace Aim

open DyadicBlocks BuddyPmalloc

/-! ### Frames of the buddy allocator -/

theorem BuddyPmalloc.SameSetup.claimPage {b b' : BuddyPmalloc} (h : SameSetup b b') (size : ℕ) :
    b'.claimPage size = b.claimPage size := by
  rw [BuddyPmalloc.claimPage, BuddyPmalloc.claimPage, orderFor, orderFor, pagesFor, pagesFor,
    h.pageSize]

theorem BuddyPmalloc.SameSetup.orderFor {b b' : BuddyPmalloc} (h : SameSetup b b') (size : ℕ) :
    b'.orderFor size = b.orderFor size := congrArg BuddyPage.order (h.claimPage size)

namespace BuddyRun

variable {n m : ℕ} {b₀ : BuddyPmalloc} {s : BuddyRun} {P : Pool n m}

/-- **A request for pages leaves the records of the blocks in use alone**, and a new block, of free
pages, gets a record of its own. -/
theorem Inv.receive_frame (h : Inv b₀ s P) {size : ℕ} {answer : Option ℕ × BuddyPmalloc}
    (hrun : s.alloc.mallocPage size = .ok answer) :
    ∃ P', Inv (n := n) (m := m) b₀ (s.receive answer) P' ∧ P'.freeCells ⊆ P.freeCells ∧
      s.live ⊆ (s.receive answer).live ∧
      (∀ j ∈ s.live, (s.receive answer).alloc.pages j = s.alloc.pages j) ∧
      ∀ i, answer.1 = some i → i < n ∧ i ∉ s.live ∧ answer.2.pages i = b₀.claimPage size ∧
        (⟨i, b₀.orderFor size⟩ : Block).cells ⊆ P.freeCells := by
  rcases mallocPage_spec h.models (pagesFor_le_of_mallocPage hrun) with
    ⟨hnone, -⟩ | ⟨i, b', P', hsome, ha⟩
  · obtain rfl := Except.ok.inj (hrun.symm.trans hnone)
    exact ⟨P, h, subset_rfl, subset_rfl, fun j _ => rfl, fun i hi => by cases hi⟩
  · obtain rfl := Except.ok.inj (hrun.symm.trans hsome)
    obtain ⟨hcells, hfree⟩ := Pool.freeCells_of_insert ha.notMem ha.used_eq
    refine ⟨P', h.receive ha, ?_, Finset.subset_insert i s.live, fun j hj => ?_, ?_⟩
    · rw [hfree]
      exact Finset.sdiff_subset
    · obtain ⟨Y, hY, rfl⟩ := h.mem_used hj
      exact ha.frame Y hY
    · rintro j ⟨⟩
      refine ⟨ha.index_lt, fun hi => ?_, ?_, ?_⟩
      · obtain ⟨Y, hY, hYi⟩ := h.mem_used hi
        exact ha.index_ne hY hYi
      · rw [← h.setup.claimPage]
        exact ha.record
      · rw [← h.setup.orderFor]
        exact hcells

/-- **A release leaves the records of the other blocks in use alone**, and frees the pages of its
block. -/
theorem Inv.release_frame (h : Inv b₀ s P) (hw : Widths b₀.base b₀.pageSize) {i : ℕ}
    (hi : i ∈ s.live) {b' : BuddyPmalloc} (hrun : s.alloc.free (s.alloc.pageAddr i) = .ok b') :
    ∃ P', Inv (n := n) (m := m) b₀ { alloc := b', live := s.live.erase i } P' ∧
      P'.freeCells = P.freeCells ∪ (⟨i, (s.alloc.pages i).order⟩ : Block).cells ∧
      ∀ j ∈ s.live, j ≠ i → b'.pages j = s.alloc.pages j := by
  obtain ⟨X, hX, rfl⟩ := h.mem_used hi
  obtain ⟨P', hrel⟩ := h.released hw hX hrun
  refine ⟨P', h.release hX hrel, ?_, fun j hj hne => ?_⟩
  · rw [(h.models.tracks.used_page X hX).2]
    exact Pool.freeCells_of_erase hX hrel.used_eq
  · obtain ⟨Y, hY, rfl⟩ := h.mem_used hj
    exact hrel.frame Y hY fun heq => hne (congrArg Block.index heq)

/-- Requests write what the fields of a record can hold. -/
theorem Inv.inRange_of_mallocPage (h : Inv b₀ s P) (hr : ∀ i, (s.alloc.pages i).InRange) {size : ℕ}
    (hsize : size < 2 ^ 64) {answer : Option ℕ × BuddyPmalloc}
    (hrun : s.alloc.mallocPage size = .ok answer) : ∀ i, (answer.2.pages i).InRange := by
  refine BuddyPmalloc.inRange_of_mallocPage ?_ hr hsize hrun
  have hm := h.models.fits.order_lt
  rw [h.models.fits.maxOrder_eq]
  omega

theorem Inv.inRange_of_free (h : Inv b₀ s P) (hw : Widths b₀.base b₀.pageSize)
    (hr : ∀ i, (s.alloc.pages i).InRange) {i : ℕ} (hi : i ∈ s.live) {b' : BuddyPmalloc}
    (hrun : s.alloc.free (s.alloc.pageAddr i) = .ok b') : ∀ j, (b'.pages j).InRange := by
  obtain ⟨X, hX, rfl⟩ := h.mem_used hi
  have hlt := P.tiling.index_lt (P.used_mem hX)
  have hcount := h.models.fits.count_lt
  exact BuddyPmalloc.inRange_of_free h.models hX (pageIndex_pageAddr (h.widths hw) (by omega)) hr
    hrun

end BuddyRun

/-! ### The machine -/

/-- The allocator with the blocks in use, memory, and what `alloc_pages` has handed out. -/
structure PageClients where
  buddy : BuddyRun
  mem : Memory
  pages : Finset Pages

/-- The page interface, and direct requests. -/
inductive PageCall
  | allocPages (pages : Pages)
  | freePages (pages : Pages)
  | direct (r : BuddyRequest)

namespace PageClients

/-- The page that the allocator looks at when some pages are given back. -/
def head (s : PageClients) (pages : Pages) : ℕ := s.buddy.alloc.pageIndex pages.paddr

/-- The answer to a call, when `pages[]` is at `table`: what the allocator writes to the records is
in memory before `alloc_pages` fills in zeros, and `free_pages` fills in junk before the allocator
reads them. -/
def step (table : ℕ) (s : PageClients) : PageCall → Outcome PageClients
  | .allocPages pages => do
      let (ret, pages, alloc) ← allocAdapter pages s.buddy.alloc
      let mem ← zeroPages pages (alloc.store table s.mem)
      let alloc := alloc.load table mem
      if ret = eof then
        return { buddy := ⟨alloc, s.buddy.live⟩, mem := mem, pages := s.pages }
      else
        return {
          buddy := ⟨alloc, insert (alloc.pageIndex pages.paddr) s.buddy.live⟩
          mem := mem
          pages := insert pages s.pages }
  | .freePages pages => do
      let mem ← fillJunk pages s.mem
      let alloc ← freeAdapter pages (s.buddy.alloc.load table mem)
      return {
        buddy := ⟨alloc, s.buddy.live.erase (s.head pages)⟩
        mem := alloc.store table mem
        pages := s.pages.filter fun p => p.paddr ≠ pages.paddr }
  | .direct r => do
      let buddy ← s.buddy.step r
      return { buddy := buddy, mem := buddy.alloc.store table s.mem, pages := s.pages }

/-- Sizes of whole pages; pages go back with the address and the size that they came with, the flags
may differ; and direct clients give back blocks of their own, never those that hold the records. -/
def Legal (table : ℕ) (s : PageClients) : PageCall → Prop
  | .allocPages pages => pages.size < 2 ^ 64 ∧ Arch.pageSize ∣ pages.size
  | .freePages pages => ∃ p ∈ s.pages, p.paddr = pages.paddr ∧ p.size = pages.size
  | .direct r => s.buddy.Requested r ∧ ∀ i, r = .free i →
      (∀ p ∈ s.pages, s.head p ≠ i) ∧
        s.buddy.alloc.Clear table i (s.buddy.alloc.pages i).order

/-- **No record is filled**: a request that fails with `GFP_ZERO` does not point at the records, and
what is zeroed after a success, or filled with junk, has less than `2 ^ 44` bytes. -/
def SparesRecords (table : ℕ) (s : PageClients) : PageCall → Prop
  | .allocPages pages => pages.flags &&& gfpZero ≠ 0 →
      (s.buddy.alloc.NoBlockFor pages.size →
        ∀ x < pages.size, ¬ s.buddy.alloc.InRecords table (pageByte pages.paddr x)) ∧
      (¬ s.buddy.alloc.NoBlockFor pages.size → pages.size < 2 ^ 44)
  | .freePages pages => pages.flags &&& gfpUnsafe = 0 → pages.size < 2 ^ 44
  | .direct _ => True

/-- Before the first call to the page interface. -/
def start (table : ℕ) (b : BuddyPmalloc) (mem : Memory) : PageClients :=
  ⟨BuddyRun.start b, b.store table mem, ∅⟩

end PageClients

/-- The page interface over the buddy allocator, with its clients. -/
def pageApi (table : ℕ) : Machine PageClients PageCall Fault where
  legal := PageClients.Legal table
  step := PageClients.step table

namespace PageClients

/-! ### The invariant -/

variable {n m table : ℕ} {b₀ : BuddyPmalloc} {s s' : PageClients} {P : Pool n m}

/-- The pages that are out are blocks in use, with the records that `malloc` wrote.  The records are
those in memory, and neither free pages nor pages that are out hold any. -/
structure Inv (table : ℕ) (b₀ : BuddyPmalloc) (s : PageClients) (P : Pool n m) : Prop where
  buddy : BuddyRun.Inv b₀ s.buddy P
  pages : ∀ p ∈ s.pages, ∃ i ∈ s.buddy.live, p.paddr = b₀.pageAddr i ∧
    s.buddy.alloc.pages i = b₀.claimPage p.size ∧ b₀.Clear table i (b₀.orderFor p.size)
  whole : ∀ p ∈ s.pages, p.size < 2 ^ 64 ∧ Arch.pageSize ∣ p.size
  paddr_inj : ∀ p ∈ s.pages, ∀ q ∈ s.pages, p.paddr = q.paddr → p = q
  inRange : ∀ i, (s.buddy.alloc.pages i).InRange
  loaded : s.buddy.alloc.load table s.mem = s.buddy.alloc
  spare : ∀ j ∈ P.freeCells, ¬ b₀.HoldsRecords table j

/-- The allocator is that of a zone of at most 4 GB. -/
structure Zone (b₀ : BuddyPmalloc) (n : ℕ) : Prop where
  params : Params b₀.base b₀.pageSize
  pageSize : b₀.pageSize = Arch.pageSize
  pool : n * b₀.pageSize ≤ 2 ^ 32

theorem Zone.pageAddr_ne (hz : Zone b₀ n) (i : ℕ) : b₀.pageAddr i ≠ minusOne64 := by
  intro heq
  have hdvd := dvd_pageAddr hz.params i
  rw [heq, hz.pageSize] at hdvd
  exact absurd hdvd (by decide)

/-- Whole pages, fewer than `2 ^ 32`, fit in the block that is found for them. -/
theorem Zone.size_le (hz : Zone b₀ n) {size : ℕ} (hdvd : Arch.pageSize ∣ size)
    (hsize : size < 2 ^ 44) : size ≤ Arch.pageSize * 2 ^ b₀.orderFor size := by
  obtain ⟨k, hk⟩ := hdvd
  have hcount : (size + b₀.pageSize - 1) / b₀.pageSize < 2 ^ 32 := by
    rw [hz.pageSize]
    simp only [Arch.pageSize] at hk ⊢
    omega
  have hle := le_block_of_pagesFor hz.params.widths hcount
  rwa [hz.pageSize, Nat.mul_comm] at hle

section Step

variable (hz : Zone b₀ n)

include hz

/-- The head of pages that are out. -/
theorem Inv.head_eq (h : Inv table b₀ s P) {p : Pages} {i : ℕ} (hi : i ∈ s.buddy.live)
    (hp : p.paddr = b₀.pageAddr i) : s.head p = i := by
  obtain ⟨X, hX, rfl⟩ := h.buddy.mem_used hi
  have hlt := P.tiling.index_lt (P.used_mem hX)
  have hcount := h.buddy.models.fits.count_lt
  rw [head, hp, ← h.buddy.setup.pageAddr_eq]
  exact pageIndex_pageAddr (h.buddy.widths hz.params.widths) (by omega)

/-- What the invariant says about the head. -/
theorem Inv.head_spec (h : Inv table b₀ s P) {p : Pages} (hp : p ∈ s.pages) :
    s.head p ∈ s.buddy.live ∧ p.paddr = b₀.pageAddr (s.head p) ∧
      s.buddy.alloc.pages (s.head p) = b₀.claimPage p.size ∧
      b₀.Clear table (s.head p) (b₀.orderFor p.size) := by
  obtain ⟨i, hi, haddr, hrecord, hclear⟩ := h.pages p hp
  rw [h.head_eq hz hi haddr]
  exact ⟨hi, haddr, hrecord, hclear⟩

/-- A fill of pages without records. -/
theorem Inv.not_inRecords (h : Inv table b₀ s P) {i size x : ℕ} (hdvd : Arch.pageSize ∣ size)
    (hsize : size < 2 ^ 44) (hclear : b₀.Clear table i (b₀.orderFor size)) (hx : x < size) :
    ¬ s.buddy.alloc.InRecords table (pageByte (b₀.pageAddr i) x) := by
  rw [h.buddy.setup.inRecords_iff]
  exact hclear.not_inRecords hz.pageSize (hx.trans_le (hz.size_le hdvd hsize))

/-- A direct request keeps the invariant, and the records of the pages that are out. -/
theorem Inv.direct (h : Inv table b₀ s P) {r : BuddyRequest} (hlegal : s.Legal table (.direct r))
    (hstep : s.step table (.direct r) = .ok s') :
    (∃ P', Inv (n := n) (m := m) table b₀ s' P') ∧
      ∀ p ∈ s.pages, s'.buddy.alloc.pages (s.head p) = s.buddy.alloc.pages (s.head p) := by
  obtain ⟨buddy, hbuddy, hret⟩ := bind_eq_ok.1 hstep
  obtain rfl := Except.ok.inj hret
  obtain ⟨hr, hfree⟩ := hlegal
  -- what is stored is what the allocator has
  have hloaded : ∀ {b : BuddyPmalloc}, (∀ i, (b.pages i).InRange) →
      b.load table (b.store table s.mem) = b := fun hr => load_of_stored hr fun _ _ => rfl
  have hreceive : ∀ {size : ℕ} {answer : Option ℕ × BuddyPmalloc}, size < 2 ^ 64 →
      s.buddy.alloc.mallocPage size = .ok answer →
        (∃ P', Inv (n := n) (m := m) table b₀ ⟨s.buddy.receive answer,
          (s.buddy.receive answer).alloc.store table s.mem, s.pages⟩ P') ∧
          ∀ p ∈ s.pages, (s.buddy.receive answer).alloc.pages (s.head p) =
            s.buddy.alloc.pages (s.head p) := by
    intro size answer hsize hrun
    obtain ⟨P', hP', hcells, hsub, hframe, -⟩ := h.buddy.receive_frame hrun
    have hrange := h.buddy.inRange_of_mallocPage h.inRange hsize hrun
    have halloc : (s.buddy.receive answer).alloc = answer.2 := by
      obtain ⟨_ | _, _⟩ := answer <;> rfl
    rw [← halloc] at hrange
    refine ⟨⟨P', hP', fun p hp => ?_, h.whole, h.paddr_inj, hrange, hloaded hrange,
      fun j hj => h.spare j (hcells hj)⟩, fun p hp => ?_⟩
    · obtain ⟨i, hi, haddr, hrecord, hclear⟩ := h.pages p hp
      exact ⟨i, hsub hi, haddr, (hframe i hi).trans hrecord, hclear⟩
    · exact hframe _ (h.head_spec hz hp).1
  cases r with
  | malloc size =>
      obtain ⟨answer, hrun, hret⟩ := bind_eq_ok.1 hbuddy
      obtain rfl := Except.ok.inj hret
      exact hreceive hr hrun
  | alignedMalloc size align =>
      obtain ⟨size', hsize', hbuddy⟩ := bind_eq_ok.1 hbuddy
      obtain ⟨answer, hrun, hret⟩ := bind_eq_ok.1 hbuddy
      obtain rfl := Except.ok.inj hret
      refine hreceive ?_ hrun
      rw [alignedSize_of_ok hsize']
      exact max_lt hr.2 hr.1
  | free index =>
      obtain ⟨b', hrun, hret⟩ := bind_eq_ok.1 hbuddy
      obtain rfl := Except.ok.inj hret
      obtain ⟨P', hP', hcells, hframe⟩ := h.buddy.release_frame hz.params.widths hr hrun
      have hrange := h.buddy.inRange_of_free hz.params.widths h.inRange hr hrun
      obtain ⟨hother, hclear⟩ := hfree index rfl
      have hkeep : ∀ p ∈ s.pages, b'.pages (s.head p) = s.buddy.alloc.pages (s.head p) :=
        fun p hp => hframe _ (h.head_spec hz hp).1 (hother p hp)
      refine ⟨⟨P', hP', fun p hp => ?_, h.whole, h.paddr_inj, hrange, hloaded hrange,
        fun j hj => ?_⟩, hkeep⟩
      · obtain ⟨hi, haddr, hrecord, hp'⟩ := h.head_spec hz hp
        exact ⟨_, Finset.mem_erase.2 ⟨hother p hp, hi⟩, haddr, (hkeep p hp).trans hrecord, hp'⟩
      · rw [hcells] at hj
        rcases Finset.mem_union.1 hj with hj | hj
        · exact h.spare j hj
        · obtain ⟨hlow, hhigh⟩ := Block.mem_cells.1 hj
          rw [← h.buddy.setup.holdsRecords_iff]
          exact hclear j hlow hhigh

/-- The adapter answers with the address of the block that the allocator finds. -/
theorem allocAdapter_of_mallocPage {s : BuddyRun} (h : BuddyRun.Inv b₀ s P) {pages : Pages} {i : ℕ}
    {b' : BuddyPmalloc} (hrun : s.alloc.mallocPage pages.size = .ok (some i, b')) :
    allocAdapter pages s.alloc = .ok (0, { pages with paddr := b₀.pageAddr i }, b') := by
  obtain ⟨P', ha⟩ := allocated_of_mallocPage h.models (pagesFor_le_of_mallocPage hrun) hrun
  have haddr : s.alloc.retAddr i = b₀.pageAddr i := by
    rw [h.setup.retAddr_eq]
    exact retAddr_eq_of_pool hz.params.pos hz.pool ha.index_lt
  rw [allocAdapter, malloc_of_mallocPage_some hrun ha.setup, haddr, ok_bind]
  simp only
  rw [if_neg (hz.pageAddr_ne i)]
  rfl

/-- The adapter takes a block back with the size that `malloc` noted. -/
theorem freeAdapter_of_record {s : BuddyRun} (h : BuddyRun.Inv b₀ s P) {pages : Pages} {i : ℕ}
    (hi : i ∈ s.live) (hp : pages.paddr = b₀.pageAddr i)
    (hrecord : s.alloc.pages i = b₀.claimPage pages.size) :
    ∃ b', s.alloc.free (s.alloc.pageAddr i) = .ok b' ∧ freeAdapter pages s.alloc = .ok b' := by
  obtain ⟨X, hX, rfl⟩ := h.mem_used hi
  obtain ⟨b', P', hfree, -⟩ := h.free hz.params hX
  have hlt := P.tiling.index_lt (P.used_mem hX)
  have hcount := h.models.fits.count_lt
  have hindex : s.alloc.pageIndex pages.paddr = X.index := by
    rw [hp, ← h.setup.pageAddr_eq]
    exact pageIndex_pageAddr (h.widths hz.params.widths) (by omega)
  have hsame : s.alloc.getSize pages.paddr = pages.size := by
    rw [getSize, hindex, hrecord]
    rfl
  refine ⟨b', hfree, ?_⟩
  rw [freeAdapter, if_neg (not_not.2 hsame), hp, ← h.setup.pageAddr_eq]
  exact hfree

/-- What the adapter answers: `EOF`, with nothing changed, when there is no block, or else the
address of a new one. -/
theorem Inv.allocAdapter_spec (h : Inv table b₀ s P) {pages pages' : Pages} {ret : ℤ}
    {b' : BuddyPmalloc} (hrun : allocAdapter pages s.buddy.alloc = .ok (ret, pages', b')) :
    (ret = eof ∧ pages' = pages ∧ b' = s.buddy.alloc ∧ s.buddy.alloc.NoBlockFor pages.size) ∨
      ∃ i, s.buddy.alloc.mallocPage pages.size = .ok (some i, b') ∧ ret = 0 ∧
        pages' = { pages with paddr := b₀.pageAddr i } ∧
        ¬ s.buddy.alloc.NoBlockFor pages.size := by
  obtain ⟨⟨pa, b₁⟩, hmalloc, hret⟩ := bind_eq_ok.1 hrun
  obtain ⟨answer, hpage, hanswer⟩ := bind_eq_ok.1 hmalloc
  have hcnt := pagesFor_le_of_mallocPage hpage
  rcases mallocPage_spec h.buddy.models hcnt with ⟨hnone, hall⟩ | ⟨i, b'', P', hsome, ha⟩
  · obtain rfl := Except.ok.inj (hpage.symm.trans hnone)
    obtain ⟨rfl, rfl⟩ := Prod.mk.inj (Except.ok.inj hanswer)
    cases Except.ok.inj hret
    exact Or.inl ⟨rfl, rfl, rfl, h.buddy.models.noBlockFor_iff.2 hall⟩
  · cases hrun.symm.trans (allocAdapter_of_mallocPage hz h.buddy hsome)
    refine Or.inr ⟨i, hsome, rfl, rfl, fun hnone => ?_⟩
    have hfail := mallocPage_none h.buddy.models hcnt (h.buddy.models.noBlockFor_iff.1 hnone)
    cases hsome.symm.trans hfail

/-- The pages of a new block are out. -/
theorem Inv.insert (h : Inv table b₀ s P) {alloc : BuddyPmalloc} {i : ℕ} {P' : Pool n m}
    {pages : Pages} {mem : Memory} (hP' : BuddyRun.Inv b₀ ⟨alloc, insert i s.buddy.live⟩ P')
    (hin : i < n) (hnot : i ∉ s.buddy.live) (haddr : pages.paddr = b₀.pageAddr i)
    (hwhole : pages.size < 2 ^ 64 ∧ Arch.pageSize ∣ pages.size)
    (hrecord : alloc.pages i = b₀.claimPage pages.size)
    (hclear : b₀.Clear table i (b₀.orderFor pages.size))
    (hframe : ∀ j ∈ s.buddy.live, alloc.pages j = s.buddy.alloc.pages j)
    (hrange : ∀ j, (alloc.pages j).InRange) (hload : alloc.load table mem = alloc)
    (hcells : P'.freeCells ⊆ P.freeCells) :
    Inv table b₀ ⟨⟨alloc, insert i s.buddy.live⟩, mem, insert pages s.pages⟩ P' := by
  refine ⟨hP', ?_, ?_, ?_, hrange, hload, fun j hj => h.spare j (hcells hj)⟩
  · refine (Finset.forall_mem_insert _ _ _).2 ⟨⟨i, ?_, haddr, hrecord, hclear⟩, fun p hp => ?_⟩
    · exact Finset.mem_insert_self _ _
    · obtain ⟨j, hj, hpaddr, hold, hp'⟩ := h.pages p hp
      exact ⟨j, Finset.mem_insert_of_mem hj, hpaddr, (hframe j hj).trans hold, hp'⟩
  · exact (Finset.forall_mem_insert _ _ _).2 ⟨hwhole, h.whole⟩
  · -- the new address is that of no other pages
    have hfresh : ∀ p ∈ s.pages, p.paddr ≠ pages.paddr := by
      intro p hp heq
      have hcount := h.buddy.models.fits.count_lt
      obtain ⟨hj, -⟩ := h.head_spec hz hp
      have hji : s.head p = i := by
        rw [head, heq, haddr, ← h.buddy.setup.pageAddr_eq]
        exact pageIndex_pageAddr (h.buddy.widths hz.params.widths) (by omega)
      exact hnot (hji ▸ hj)
    intro p hp q hq heq
    rcases Finset.mem_insert.1 hp with hp | hp <;> rcases Finset.mem_insert.1 hq with hq | hq
    · rw [hp, hq]
    · exact absurd (heq.symm.trans (congrArg Pages.paddr hp)) (hfresh q hq)
    · exact absurd (heq.trans (congrArg Pages.paddr hq)) (hfresh p hp)
    · exact h.paddr_inj p hp q hq heq

/-- `alloc_pages` keeps the invariant. -/
theorem Inv.alloc (h : Inv table b₀ s P) {pages : Pages}
    (hlegal : s.Legal table (.allocPages pages)) (hspare : s.SparesRecords table (.allocPages pages))
    (hstep : s.step table (.allocPages pages) = .ok s') :
    (∃ P', Inv (n := n) (m := m) table b₀ s' P') ∧
      ∀ p ∈ s.pages, s'.buddy.alloc.pages (s.head p) = s.buddy.alloc.pages (s.head p) := by
  obtain ⟨hsize, hdvd⟩ := hlegal
  obtain ⟨⟨ret, pages', alloc⟩, hrun, hrest⟩ := bind_eq_ok.1 hstep
  obtain ⟨mem', hmem, hret⟩ := bind_eq_ok.1 hrest
  simp only at hmem hret
  rcases h.allocAdapter_spec hz hrun with
    ⟨rfl, rfl, rfl, hnone⟩ | ⟨i, hpage, rfl, rfl, hsome⟩
  · have hkept : ∀ a, s.buddy.alloc.InRecords table a →
        mem' a = s.buddy.alloc.store table s.mem a := fun a ha =>
      zeroPages_frame hdvd hsize hmem fun hzero x hx heq =>
        (hspare hzero).1 hnone x hx (heq ▸ ha)
    have hload := load_of_stored h.inRange hkept
    rw [hload, if_pos rfl] at hret
    cases Except.ok.inj hret
    exact ⟨⟨P, h.buddy, h.pages, h.whole, h.paddr_inj, h.inRange, hload, h.spare⟩, fun p _ => rfl⟩
  · obtain ⟨P', hP', hcells, hsub, hframe, hnew⟩ := h.buddy.receive_frame hpage
    obtain ⟨hin, hnot, hrecord, hblock⟩ := hnew i rfl
    have hclear : b₀.Clear table i (b₀.orderFor pages.size) := fun j hlow hhigh =>
      h.spare j (hblock (Block.mem_cells.2 ⟨hlow, hhigh⟩))
    have hrange := h.buddy.inRange_of_mallocPage h.inRange hsize hpage
    have hkept : ∀ a, alloc.InRecords table a → mem' a = alloc.store table s.mem a := by
      intro a ha
      have hwhole : Arch.pageSize ∣ (⟨b₀.pageAddr i, pages.size, pages.flags⟩ : Pages).size := hdvd
      refine zeroPages_frame hwhole hsize hmem fun hzero x hx heq => ?_
      refine h.not_inRecords hz hdvd ((hspare hzero).2 hsome) hclear hx ?_
      rw [h.buddy.setup.inRecords_iff, ← hP'.setup.inRecords_iff, ← heq]
      exact ha
    have hload := load_of_stored hrange hkept
    have heof : (0 : ℤ) ≠ eof := by decide
    have hindex : alloc.pageIndex (b₀.pageAddr i) = i := by
      have hcount := h.buddy.models.fits.count_lt
      have hw : Widths alloc.base alloc.pageSize := hP'.widths hz.params.widths
      have haddr : alloc.pageAddr i = b₀.pageAddr i := hP'.setup.pageAddr_eq i
      rw [← haddr]
      exact pageIndex_pageAddr hw (by omega)
    rw [hload, if_neg heof, hindex] at hret
    cases Except.ok.inj hret
    exact ⟨⟨P', h.insert hz hP' hin hnot rfl ⟨hsize, hdvd⟩ hrecord hclear hframe hrange hload hcells⟩,
      fun p hp => hframe _ (h.head_spec hz hp).1⟩

/-- Junk in pages that are out. -/
theorem Inv.load_fillJunk (h : Inv table b₀ s P) {pages : Pages}
    (hlegal : s.Legal table (.freePages pages)) (hspare : s.SparesRecords table (.freePages pages))
    (mem : Memory) : ∃ mem', fillJunk pages mem = .ok mem' ∧
      s.buddy.alloc.load table mem' = s.buddy.alloc.load table mem := by
  obtain ⟨q, hq, haddr, hsize⟩ := hlegal
  obtain ⟨hlive, hpaddr, -, hclear⟩ := h.head_spec hz hq
  obtain ⟨hlt, hdvd⟩ := h.whole q hq
  rw [hsize] at hlt hdvd hclear
  obtain ⟨mem', hmem⟩ := fillJunk_pages mem hdvd hlt
  refine ⟨mem', hmem, load_congr fun a ha => ?_⟩
  refine fillJunk_frame hdvd hlt hmem fun hjunk x hx heq => ?_
  rw [← haddr, hpaddr] at heq
  exact h.not_inRecords hz hdvd (hspare hjunk) hclear hx (heq ▸ ha)

/-- **`free_pages` finds the size that it is given**, and keeps the invariant. -/
theorem Inv.free (h : Inv table b₀ s P) {pages : Pages} (hlegal : s.Legal table (.freePages pages))
    (hspare : s.SparesRecords table (.freePages pages)) :
    ∃ s', s.step table (.freePages pages) = .ok s' ∧
      (∃ P', Inv (n := n) (m := m) table b₀ s' P') ∧
      ∀ p ∈ s'.pages, s'.buddy.alloc.pages (s.head p) = s.buddy.alloc.pages (s.head p) := by
  obtain ⟨mem', hmem, hload⟩ := h.load_fillJunk hz hlegal hspare s.mem
  rw [h.loaded] at hload
  obtain ⟨q, hq, haddr, hsize⟩ := hlegal
  obtain ⟨hlive, hpaddr, hrecord, -⟩ := h.head_spec hz hq
  have hhead : s.head pages = s.head q := by rw [head, head, haddr]
  obtain ⟨b', hfree, hadapter⟩ := freeAdapter_of_record hz h.buddy hlive (haddr ▸ hpaddr)
    (hsize ▸ hrecord)
  obtain ⟨P', hP', hcells, hframe⟩ := h.buddy.release_frame hz.params.widths hlive hfree
  have hrange := h.buddy.inRange_of_free hz.params.widths h.inRange hlive hfree
  have hother : ∀ p ∈ s.pages.filter fun p => p.paddr ≠ pages.paddr, s.head p ≠ s.head q := by
    intro p hp heq
    obtain ⟨hp, hne⟩ := Finset.mem_filter.1 hp
    rw [← haddr, (h.head_spec hz hp).2.1, heq, ← hpaddr] at hne
    exact hne rfl
  refine ⟨⟨⟨b', s.buddy.live.erase (s.head pages)⟩, b'.store table mem',
    s.pages.filter fun p => p.paddr ≠ pages.paddr⟩, ?_, ⟨P', ?_, ?_, ?_, ?_, hrange, ?_, ?_⟩, ?_⟩
  · rw [step, hmem, ok_bind, hload, hadapter]
    rfl
  · rw [hhead]
    exact hP'
  · intro p hp
    obtain ⟨hj, hp', hold, hclear⟩ := h.head_spec hz (Finset.mem_filter.1 hp).1
    refine ⟨_, ?_, hp', (hframe _ hj (hother p hp)).trans hold, hclear⟩
    rw [hhead]
    exact Finset.mem_erase.2 ⟨hother p hp, hj⟩
  · exact fun p hp => h.whole p (Finset.mem_filter.1 hp).1
  · exact fun p hp q hq => h.paddr_inj p (Finset.mem_filter.1 hp).1 q (Finset.mem_filter.1 hq).1
  · exact load_of_stored hrange fun _ _ => rfl
  · intro j hj
    rw [hcells, Finset.mem_union, hrecord] at hj
    rcases hj with hj | hj
    · exact h.spare j hj
    · obtain ⟨hlow, hhigh⟩ := Block.mem_cells.1 hj
      exact (h.head_spec hz hq).2.2.2 j hlow hhigh
  · intro p hp
    exact hframe _ (h.head_spec hz (Finset.mem_filter.1 hp).1).1 (hother p hp)

/-- **Every answer keeps the invariant**, and the records of the pages that stay out. -/
theorem Inv.step (h : Inv table b₀ s P) {call : PageCall} (hlegal : s.Legal table call)
    (hspare : s.SparesRecords table call) (hstep : s.step table call = .ok s') :
    (∃ P', Inv (n := n) (m := m) table b₀ s' P') ∧ ∀ p ∈ s.pages, p ∈ s'.pages →
      s'.buddy.alloc.pages (s.head p) = s.buddy.alloc.pages (s.head p) := by
  cases call with
  | allocPages pages =>
      obtain ⟨hP', hframe⟩ := h.alloc hz hlegal hspare hstep
      exact ⟨hP', fun p hp _ => hframe p hp⟩
  | freePages pages =>
      obtain ⟨s'', hrun, hP', hframe⟩ := h.free hz hlegal hspare
      obtain rfl := Except.ok.inj (hstep.symm.trans hrun)
      exact ⟨hP', fun p _ hp' => hframe p hp'⟩
  | direct r =>
      obtain ⟨hP', hframe⟩ := h.direct hz hlegal hstep
      exact ⟨hP', fun p hp _ => hframe p hp⟩

end Step

/-! ### Reachable states -/

/-- What should hold in one state. -/
structure Correct (table : ℕ) (s : PageClients) : Prop where
  /-- The records that the allocator reads are those in memory. -/
  memory : ∀ i < s.buddy.alloc.pageCount,
    recordAt s.mem (table + sizeofBuddyPage * i) = s.buddy.alloc.pages i
  /-- The record of the first page is what `malloc` writes for the size that was asked for. -/
  record : ∀ p ∈ s.pages, s.buddy.alloc.pages (s.head p) = s.buddy.alloc.claimPage p.size
  /-- It is the record that the adapter compares sizes with. -/
  size : ∀ p ∈ s.pages, s.buddy.alloc.getSize p.paddr = p.size
  /-- No call touches it, other than the one that gives the pages back. -/
  frame : ∀ call s', s.Legal table call → s.SparesRecords table call →
    s.step table call = .ok s' → ∀ p ∈ s.pages, p ∈ s'.pages →
      s'.head p = s.head p ∧
        s'.buddy.alloc.pages (s.head p) = s.buddy.alloc.pages (s.head p)
  /-- So the pages can be given back. -/
  free : ∀ pages, s.Legal table (.freePages pages) → s.SparesRecords table (.freePages pages) →
    ∃ s', s.step table (.freePages pages) = .ok s'

/-- The panic of `free__adapter`. -/
def sizeMismatch : Fault := .panic "size mismatch, allocator %016llx, user %016llx"

/-- **A failure that zeroes the size in the record of some pages that are out**: afterwards the pages
cannot be given back. -/
theorem Inv.overwritten (hz : Zone b₀ n) (h : Inv table b₀ s P) {pages : Pages}
    (hlegal : s.Legal table (.allocPages pages)) (hzero : pages.flags &&& gfpZero ≠ 0)
    (hcnt : s.buddy.alloc.pagesFor pages.size ≤ 2 ^ 31)
    (hnone : s.buddy.alloc.NoBlockFor pages.size) {p : Pages} (hp : p ∈ s.pages)
    (hsize : p.size ≠ 0) (hover : ∀ k < 8, ∃ x < pages.size,
      pageByte pages.paddr x = table + sizeofBuddyPage * s.head p + k) :
    ∃ s', s.step table (.allocPages pages) = .ok s' ∧ p ∈ s'.pages ∧
      ∀ given, given.paddr = p.paddr → given.size = p.size → s.SparesRecords table (.freePages given) →
        s'.step table (.freePages given) = .error sizeMismatch := by
  obtain ⟨hlt, hdvd⟩ := hlegal
  obtain ⟨mem', hset, hzeros⟩ := pmemset_spec (s.buddy.alloc.store table s.mem) pages.paddr 0 hdvd hlt
  have hmem : zeroPages pages (s.buddy.alloc.store table s.mem) = .ok mem' := by
    rw [zeroPages, if_pos hzero, hset]
  have hfail : allocAdapter pages s.buddy.alloc = .ok (eof, pages, s.buddy.alloc) := by
    have hpage := mallocPage_none h.buddy.models hcnt (h.buddy.models.noBlockFor_iff.1 hnone)
    rw [allocAdapter, BuddyPmalloc.malloc, hpage]
    rfl
  set alloc := s.buddy.alloc.load table mem' with halloc
  -- the size that the adapter finds
  have hfound : ∀ given : Pages, given.paddr = p.paddr → alloc.getSize given.paddr = 0 := by
    intro given hpaddr
    have hindex : alloc.pageIndex given.paddr = s.head p := by rw [hpaddr]; rfl
    obtain ⟨hlive, -⟩ := h.head_spec hz hp
    obtain ⟨X, hX, hXp⟩ := h.buddy.mem_used hlive
    have hin : s.head p < s.buddy.alloc.pageCount := by
      rw [h.buddy.models.fits.pageCount_eq, ← hXp]
      exact P.tiling.index_lt (P.used_mem hX)
    rw [getSize, hindex]
    refine load_byteSize_of_zeros hin fun k hk => ?_
    obtain ⟨x, hx, heq⟩ := hover k hk
    rw [← heq]
    exact hzeros x hx
  refine ⟨⟨⟨alloc, s.buddy.live⟩, mem', s.pages⟩, ?_, hp, fun given hpaddr hgiven hspare => ?_⟩
  · rw [PageClients.step, hfail, ok_bind]
    simp only
    rw [hmem, ok_bind, if_pos trivial]
    rfl
  · obtain ⟨mem'', hjunk, hload⟩ := h.load_fillJunk hz ⟨p, hp, hpaddr.symm, hgiven.symm⟩ hspare mem'
    have hload' : alloc.load table mem'' = alloc := load_load.trans hload
    rw [PageClients.step, hjunk, ok_bind, hload', freeAdapter, hfound given hpaddr, hgiven,
      if_pos hsize.symm]
    rfl

section Reachable

variable {valloc : ℕ → ℕ} {base pageCount : ℕ} {mem : Memory}

/-- The machine of careful clients keeps the invariant. -/
theorem Reachable.inv (hbase : base < 2 ^ 64) (hdvd : Arch.pageSize ∣ base)
    (hpool : pageCount * Arch.pageSize ≤ 2 ^ 32)
    (hctor : ctor valloc base Arch.pageSize pageCount = .ok b₀)
    (hs : ((pageApi table).restrict (SparesRecords table)).Reachable (start table b₀ mem) s) :
    Zone b₀ pageCount ∧ ∃ P : Pool pageCount b₀.maxOrder, Inv table b₀ s P := by
  obtain ⟨-, hb, hpage, -⟩ := models_of_ctor hctor
  have hz : Zone b₀ pageCount := by
    refine ⟨?_, hpage, by rwa [hpage]⟩
    rw [hb, hpage]
    exact ⟨⟨12, by decide, rfl⟩, hdvd, hbase⟩
  refine ⟨hz, hs.invariant (P := fun s => ∃ P : Pool pageCount b₀.maxOrder, Inv table b₀ s P) ?_ ?_⟩
  · have hrange : ∀ i, (b₀.pages i).InRange := inRange_of_ctor hctor
    refine ⟨_, BuddyRun.inv_start hctor, ?_, ?_, ?_, hrange, load_of_stored hrange fun _ _ => rfl,
      fun j hj => ?_⟩
    · simp [start]
    · simp [start]
    · simp [start]
    · exact absurd hj (by simp [Pool.freeCells, Pool.allUsed, cellsOf])
  · rintro s call s' ⟨P, h⟩ ⟨hlegal, hspare⟩ hstep
    exact (h.step hz hlegal hspare hstep).1

/-- Three pages at `0x1000000`, with their records at `0x80200000`: neither a fill of 64 KB at
address zero nor one at the first page meets the records. -/
theorem not_inRecords_three {b : BuddyPmalloc} (hcount : b.pageCount = 3) {paddr : ℕ}
    (hpaddr : paddr = 0 ∨ paddr = 0x1000000) {x : ℕ} (hx : x < 0x10000) :
    ¬ b.InRecords 0x80200000 (pageByte paddr x) := by
  rintro ⟨hlow, hhigh⟩
  rw [hcount] at hhigh
  simp only [pageByte, pa2kva, wrap32, sizeofBuddyPage, Arch.pageSize, Arch.koffset] at hlow hhigh
  omega

/-- The first page may be freed. -/
theorem legal_free_three
    (hctor : ctor (fun _ => 0x80200000) 0x1000000 Arch.pageSize 3 = .ok b₀) :
    (start 0x80200000 b₀ mem).Legal 0x80200000 (.direct (.free 0)) := by
  obtain ⟨hmodels, hbase, -, -⟩ := models_of_ctor hctor
  have hcount : b₀.pageCount = 3 := hmodels.fits.pageCount_eq
  have horder : (b₀.pages 0).order = 0 := (hmodels.tracks.used_page ⟨0, 0⟩ (by decide)).2
  have haddr : b₀.pageAddr 0 = 0x1000000 := by
    rw [pageAddr, hbase]
    rfl
  refine ⟨?_, ?_⟩
  · show 0 ∈ Finset.range b₀.pageCount
    rw [hcount]
    decide
  · rintro i ⟨⟩
    refine ⟨by simp [start], ?_⟩
    show b₀.Clear 0x80200000 0 (b₀.pages 0).order
    rw [horder]
    intro j _ hj
    obtain rfl : j = 0 := by omega
    rintro ⟨x, hx, hin⟩
    rw [haddr, ← pageByte_of_lt hx] at hin
    exact not_inRecords_three hcount (Or.inr rfl) (hx.trans (by decide)) hin

end Reachable

end PageClients

end Aim
