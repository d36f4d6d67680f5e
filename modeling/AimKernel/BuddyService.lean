/-
**What clients of the buddy allocator may rely on.**

Here clients may ask for any number of bytes that an `lsize_t` can hold and for any alignment; they
only give back what they hold.  A request that is too large may hang the search for its order, or
trip the check of `aligned_malloc`; whenever the allocator answers, its state still models a pool.

Main definitions:

* `Aim.buddyService` — the machine of these runs;
* `Aim.BuddyRun.FreeRun` — an aligned run of free pages;
* `Aim.BuddyRun.Balanced` — what the counters count;
* `Aim.BuddyRun.ExactUpdates` — no update of a counter wraps.

Main results:

* `Aim.BuddyRun.Inv.of_step` — every answer keeps the invariant;
* `Aim.BuddyRun.service_malloc_none_iff` — **`malloc` fails exactly when no aligned run is free**;
* `Aim.BuddyRun.service_counters` — **the counters are exact**;
* `Aim.BuddyRun.service_alignedMalloc_dvd` — **aligned blocks are aligned, and large enough**;
* `Aim.BuddyRun.service_malloc_answers_iff` — **which sizes `malloc` answers correctly**.
-/

import AimKernel.MemoryZones

set_option relaxedAutoImplicit false
set_option autoImplicit false

namespace Aim

open DyadicBlocks BuddyPmalloc

/-! ### The machine -/

namespace BuddyRun

/-- What clients may ask for: anything; and they give back what they hold. -/
def Requested (s : BuddyRun) : BuddyRequest → Prop
  | .malloc size => size < 2 ^ 64
  | .alignedMalloc size align => size < 2 ^ 64 ∧ align < 2 ^ 64
  | .free index => index ∈ s.live

end BuddyRun

/-- The buddy allocator and clients that may ask for anything. -/
def buddyService : Machine BuddyRun BuddyRequest Fault where
  legal := BuddyRun.Requested
  step := BuddyRun.step

namespace BuddyPmalloc

/-- The search for the order of a request only ends for at most `2 ^ 31` pages. -/
theorem pagesFor_le_of_mallocPage {b : BuddyPmalloc} {size : ℕ} {answer : Option ℕ × BuddyPmalloc}
    (h : b.mallocPage size = .ok answer) : b.pagesFor size ≤ 2 ^ 31 := by
  obtain ⟨k, hk, -⟩ := bind_eq_ok.1 h
  obtain ⟨hk32, hstop, -⟩ := leastShift_eq_ok.1 hk
  rw [decide_eq_true_iff, not_lt, shl1_of_lt hk32] at hstop
  exact hstop.trans (Nat.pow_le_pow_right (by decide) (by omega))

/-- For more pages it never ends. -/
theorem mallocPage_hang {b : BuddyPmalloc} {size : ℕ} (h : 2 ^ 31 < b.pagesFor size) :
    b.mallocPage size = .error .hang := by
  have hloop : leastShift (fun k => decide (¬ shl1 k < b.pagesFor size)) = .error .hang := by
    rw [leastShift_eq_hang]
    intro k hk
    rw [decide_eq_false_iff_not, not_not, shl1_of_lt hk]
    exact lt_of_le_of_lt (Nat.pow_le_pow_right (by decide) (by omega)) h
  rw [mallocPage, ← pagesFor, hloop, error_bind]

/-- `free` only gets past its first assertion with the address of a page. -/
theorem dvd_of_free {b b' : BuddyPmalloc} {ptr : ℕ} (h : b.free ptr = .ok b') :
    b.pageSize ∣ ptr := by
  obtain ⟨u, hround, -⟩ := bind_eq_ok.1 h
  exact roundDown_eq_self_iff.1 (assert_eq_ok.1 hround)

end BuddyPmalloc

namespace BuddyRun

variable {n m : ℕ} {b₀ : BuddyPmalloc} {s : BuddyRun} {P : Pool n m}

theorem Inv.widths (h : Inv b₀ s P) (hw : Widths b₀.base b₀.pageSize) :
    Widths s.alloc.base s.alloc.pageSize := by
  rwa [h.setup.base, h.setup.pageSize]

/-- An answer to a request for pages keeps the invariant. -/
theorem Inv.of_mallocPage (h : Inv b₀ s P) {size : ℕ} {answer : Option ℕ × BuddyPmalloc}
    (hrun : s.alloc.mallocPage size = .ok answer) :
    ∃ P', Inv (n := n) (m := m) b₀ (s.receive answer) P' := by
  rcases mallocPage_spec h.models (pagesFor_le_of_mallocPage hrun) with
    ⟨hnone, -⟩ | ⟨i, b', P', hsome, ha⟩
  · obtain rfl := Except.ok.inj (hrun.symm.trans hnone)
    exact ⟨P, h⟩
  · obtain rfl := Except.ok.inj (hrun.symm.trans hsome)
    exact ⟨P', h.receive ha⟩

/-- What the release of a block that the client holds leaves behind. -/
theorem Inv.released (h : Inv b₀ s P) (hw : Widths b₀.base b₀.pageSize) {X : Block}
    (hX : X ∈ P.used) {b' : BuddyPmalloc}
    (hrun : s.alloc.free (s.alloc.pageAddr X.index) = .ok b') :
    ∃ P', Released s.alloc P X b' P' := by
  have hlt := P.tiling.index_lt (P.used_mem hX)
  have hcount := h.models.fits.count_lt
  obtain ⟨b'', P', hfree, hrel⟩ := free_spec h.models hX (dvd_of_free hrun)
    (pageIndex_pageAddr (h.widths hw) (by omega))
  obtain rfl := Except.ok.inj (hrun.symm.trans hfree)
  exact ⟨P', hrel⟩

/-- **Every answer keeps the invariant.** -/
theorem Inv.of_step (h : Inv b₀ s P) (hw : Widths b₀.base b₀.pageSize) {r : BuddyRequest}
    (hr : s.Requested r) {s' : BuddyRun} (hstep : s.step r = .ok s') :
    ∃ P', Inv (n := n) (m := m) b₀ s' P' := by
  cases r with
  | malloc size =>
      obtain ⟨answer, hrun, hret⟩ := bind_eq_ok.1 hstep
      obtain rfl := Except.ok.inj hret
      exact h.of_mallocPage hrun
  | alignedMalloc size align =>
      obtain ⟨size', -, hstep⟩ := bind_eq_ok.1 hstep
      obtain ⟨answer, hrun, hret⟩ := bind_eq_ok.1 hstep
      obtain rfl := Except.ok.inj hret
      exact h.of_mallocPage hrun
  | free index =>
      obtain ⟨b', hrun, hret⟩ := bind_eq_ok.1 hstep
      obtain rfl := Except.ok.inj hret
      obtain ⟨X, hX, rfl⟩ := h.mem_used hr
      obtain ⟨P', hrel⟩ := h.released hw hX hrun
      exact ⟨P', h.release hX hrel⟩

section Reachable

variable {valloc : ℕ → ℕ} {base pageSize pageCount : ℕ}

/-- **Every state of the service models a pool.** -/
theorem Service.inv (hw : Widths base pageSize)
    (hctor : ctor valloc base pageSize pageCount = .ok b₀)
    (hs : buddyService.Reachable (start b₀) s) : ∃ P : Pool pageCount b₀.maxOrder, Inv b₀ s P := by
  obtain ⟨-, hbase, hsize, -⟩ := models_of_ctor hctor
  refine Machine.Reachable.invariant (P := fun s => ∃ P : Pool pageCount b₀.maxOrder, Inv b₀ s P)
    ⟨_, inv_start hctor⟩ ?_ hs
  rintro s r s' ⟨P, hP⟩ hlegal hstep
  exact hP.of_step (by rwa [hbase, hsize]) hlegal hstep

end Reachable

end BuddyRun

/-! ### Failure -/

namespace BuddyPmalloc

/-- An aligned run of `2 ^ t` pages, all of them free. -/
def FreeRun (b : BuddyPmalloc) (t : ℕ) : Prop :=
  ∃ i, 2 ^ t ∣ i ∧ i + 2 ^ t ≤ b.pageCount ∧ ∀ p, i ≤ p → p < i + 2 ^ t → b.FreePage p

theorem Models.freeRun_iff {n : ℕ} {b : BuddyPmalloc} {P : Pool n (Nat.log 2 n)} (h : Models b P)
    {t : ℕ} : b.FreeRun t ↔ ∃ B ∈ P.free, t ≤ B.order := by
  rw [P.exists_free_iff, FreeRun, h.fits.pageCount_eq]
  refine exists_congr fun i => and_congr_right fun _ => and_congr_right fun _ => ?_
  constructor
  · intro hrun p hp
    obtain ⟨hlow, hhigh⟩ := Block.mem_cells.1 hp
    exact h.tracks.freePage_iff.1 (hrun p hlow hhigh)
  · intro hsub p hlow hhigh
    exact h.tracks.freePage_iff.2 (hsub (Block.mem_cells.2 ⟨hlow, hhigh⟩))

/-- The order of a request is the least one whose blocks cover it. -/
theorem isLeast_clog (cnt : ℕ) : IsLeast {k | cnt ≤ 2 ^ k} (Nat.clog 2 cnt) :=
  ⟨Nat.le_pow_clog (by decide) cnt, fun _ hk => Nat.clog_le_of_le_pow hk⟩

end BuddyPmalloc

namespace BuddyRun

section Malloc

variable {n m : ℕ} {b₀ : BuddyPmalloc} {s : BuddyRun} {P : Pool n m}

/-- **What `malloc` answers**: `-1`, with nothing changed, or the address of a new block. -/
theorem Inv.malloc_answer (h : Inv b₀ s P) (hw : Widths b₀.base b₀.pageSize)
    (hpool : n * b₀.pageSize ≤ 2 ^ 32) {size : ℕ} (hcnt : s.alloc.pagesFor size ≤ 2 ^ 31) :
    (s.alloc.malloc size = .ok (minusOne64, s.alloc) ∧
        ∀ B ∈ P.free, B.order < s.alloc.orderFor size) ∨
      ∃ i b' P', i < n ∧ s.alloc.malloc size = .ok (b₀.pageAddr i, b') ∧
        Allocated (n := n) (m := m) s.alloc P size i b' P' := by
  rcases mallocPage_spec h.models hcnt with ⟨hrun, hnone⟩ | ⟨i, b', P', hrun, ha⟩
  · refine Or.inl ⟨?_, hnone⟩
    rw [BuddyPmalloc.malloc, hrun]
    rfl
  · refine Or.inr ⟨i, b', P', ha.index_lt, ?_, ha⟩
    rw [malloc_of_mallocPage_some hrun ha.setup, retAddr_eq_of_pool (h.widths hw).pos
      (h.setup.pageSize ▸ hpool) ha.index_lt, h.setup.pageAddr_eq]

end Malloc

section Failure

variable {valloc : ℕ → ℕ} {base pageSize pageCount : ℕ} {b₀ : BuddyPmalloc} {s : BuddyRun}

/-- **`malloc` fails exactly when no aligned run of free pages covers the request**, and then it
changes nothing.  The address `-1` must not be that of a page. -/
theorem service_malloc_none_iff (hw : Widths base pageSize) (hpool : pageCount * pageSize ≤ 2 ^ 32)
    (hlast : ∀ i < pageCount, wrap64 (base + pageSize * i) ≠ minusOne64)
    (hctor : ctor valloc base pageSize pageCount = .ok b₀)
    (hs : buddyService.Reachable (start b₀) s) {size t : ℕ}
    (hsize : (size + pageSize - 1) / pageSize < 2 ^ 31)
    (ht : IsLeast {k | (size + pageSize - 1) / pageSize ≤ 2 ^ k} t) :
    ∃ pa b', s.alloc.malloc size = .ok (pa, b') ∧
      (pa = minusOne64 ↔ ¬ s.alloc.FreeRun t) ∧ (pa = minusOne64 → b' = s.alloc) := by
  obtain ⟨-, hbase, hpage, hm⟩ := models_of_ctor hctor
  obtain ⟨P, hP⟩ : ∃ P : Pool pageCount (Nat.log 2 pageCount), Inv b₀ s P :=
    hm ▸ Service.inv hw hctor hs
  have hw₀ : Widths b₀.base b₀.pageSize := by rwa [hbase, hpage]
  have hpages : s.alloc.pagesFor size = (size + pageSize - 1) / pageSize := by
    rw [← hpage, ← hP.setup.pageSize] at hsize ⊢
    exact pagesFor_eq (hP.widths hw₀) hsize
  have horder : s.alloc.orderFor size = t := by
    rw [orderFor, hpages]
    exact (isLeast_clog _).unique ht
  rcases hP.malloc_answer hw₀ (by rwa [hpage]) (hpages ▸ hsize.le) with
    ⟨hrun, hnone⟩ | ⟨i, b', P', hi, hrun, ha⟩
  · refine ⟨minusOne64, s.alloc, hrun, iff_of_true rfl ?_, fun _ => rfl⟩
    rw [hP.models.freeRun_iff]
    rintro ⟨B, hB, ho⟩
    exact absurd (hnone B hB) (not_lt.2 (horder.trans_le ho))
  · have hne : b₀.pageAddr i ≠ minusOne64 := by
      rw [pageAddr, hbase, hpage]
      exact hlast i hi
    refine ⟨b₀.pageAddr i, b', hrun, iff_of_false hne ?_, fun heq => absurd heq hne⟩
    rw [not_not, hP.models.freeRun_iff, ← horder]
    by_contra hnone
    have hall : ∀ B ∈ P.free, B.order < s.alloc.orderFor size := fun B hB =>
      not_le.1 fun hle => hnone ⟨B, hB, hle⟩
    have hfail := mallocPage_none hP.models (hpages ▸ hsize.le) hall
    rw [BuddyPmalloc.malloc, hfail] at hrun
    exact hne (Prod.mk.inj (Except.ok.inj hrun)).1.symm

/-- A run on a pool of five pages: the client gives the first one back. -/
theorem exists_service_five : ∃ b₀ s, ctor (fun _ => 1) 0x1000 0x1000 5 = .ok b₀ ∧
    buddyService.Reachable (start b₀) s ∧ s.live = {1, 2, 3, 4} := by
  obtain ⟨b₀, s, hctor, hlegal, hstep, hlive⟩ := exists_free_five
  exact ⟨b₀, s, hctor, .step (r := .free 0) .init hlegal hstep, hlive⟩

/-- Two pages in a row, when only one of five is free. -/
theorem service_malloc_none_iff_five : ∃ (s : BuddyRun) (pa : ℕ) (b' : BuddyPmalloc),
    s.live = {1, 2, 3, 4} ∧ s.alloc.malloc 0x2000 = .ok (pa, b') ∧
      (pa = minusOne64 ↔ ¬ s.alloc.FreeRun 1) ∧ (pa = minusOne64 → b' = s.alloc) := by
  obtain ⟨b₀, s, hctor, hs, hlive⟩ := exists_service_five
  have hlast : ∀ i < 5, wrap64 (0x1000 + 0x1000 * i) ≠ minusOne64 := by decide
  have hsize : (0x2000 + 0x1000 - 1) / 0x1000 < 2 ^ 31 := by decide
  obtain ⟨pa, b', h⟩ := service_malloc_none_iff params_five.widths (by decide) hlast hctor hs
    hsize (isLeast_clog _)
  exact ⟨s, pa, b', hlive, h⟩

end Failure

/-! ### Counters -/

/-- The counters say how many pages are free, and how many are in blocks in use beyond those asked
for. -/
structure Balanced (s : BuddyRun) : Prop where
  free : s.alloc.freePageCount = {p | s.alloc.FreePage p}.ncard
  fits : ∀ i ∈ s.live, (s.alloc.pages i).curPageCount ≤ 2 ^ (s.alloc.pages i).order
  waste : s.alloc.wastePageCount =
    ∑ i ∈ s.live, (2 ^ (s.alloc.pages i).order - (s.alloc.pages i).curPageCount)
  total : s.alloc.freePageCount + s.alloc.wastePageCount +
    ∑ i ∈ s.live, (s.alloc.pages i).curPageCount = s.alloc.pageCount

/-- The next request updates the counters by what the record of the block says, and no sum or
difference on the way wraps. -/
structure ExactUpdates (s : BuddyRun) : Prop where
  malloc : ∀ size i b', s.alloc.mallocPage size = .ok (some i, b') →
    (b'.pages i).curPageCount ≤ 2 ^ (b'.pages i).order ∧
    b'.freePageCount + 2 ^ (b'.pages i).order = s.alloc.freePageCount ∧
    b'.wastePageCount =
      s.alloc.wastePageCount + (2 ^ (b'.pages i).order - (b'.pages i).curPageCount)
  free : ∀ i ∈ s.live, ∀ b', s.alloc.free (s.alloc.pageAddr i) = .ok b' →
    (s.alloc.pages i).curPageCount ≤ 2 ^ (s.alloc.pages i).order ∧
    b'.freePageCount = s.alloc.freePageCount + 2 ^ (s.alloc.pages i).order ∧
    b'.wastePageCount + (2 ^ (s.alloc.pages i).order - (s.alloc.pages i).curPageCount) =
      s.alloc.wastePageCount

section Counters

variable {n m : ℕ} {b₀ : BuddyPmalloc} {s : BuddyRun} {P : Pool n m}

/-- The blocks in use, by their first pages. -/
theorem Inv.sum_live (h : Inv b₀ s P) (f : ℕ → ℕ) : ∑ i ∈ s.live, f i = ∑ B ∈ P.used, f B.index := by
  rw [h.live_eq, Finset.sum_image]
  intro A hA B hB heq
  exact P.tiling.eq_of_index_eq (P.used_mem hA) (P.used_mem hB) heq

/-- The pages in free blocks. -/
theorem Inv.ncard_free (h : Inv b₀ s P) :
    {p | s.alloc.FreePage p}.ncard = P.freeCells.card := by
  rw [← Set.ncard_coe_finset]
  congr 1
  ext p
  exact h.models.tracks.freePage_iff

/-- The counters count what they should. -/
theorem Inv.balanced (h : Inv b₀ s P) : s.Balanced := by
  have horder : ∀ B ∈ P.used, (s.alloc.pages B.index).order = B.order := fun B hB =>
    (h.models.tracks.used_page B hB).2
  have hwaste : s.alloc.wastePageCount =
      ∑ i ∈ s.live, (2 ^ (s.alloc.pages i).order - (s.alloc.pages i).curPageCount) := by
    rw [h.models.waste_count, h.sum_live fun i => _]
    exact Finset.sum_congr rfl fun B hB => by rw [waste, horder B hB]
  refine ⟨by rw [h.models.free_count, h.ncard_free], ?_, hwaste, ?_⟩
  · intro i hi
    obtain ⟨B, hB, rfl⟩ := h.mem_used hi
    rw [horder B hB]
    exact h.models.cur_le B hB
  · have hsizes := P.sum_sizes
    have hsplit : ∑ B ∈ P.used, s.alloc.waste B +
        ∑ B ∈ P.used, (s.alloc.pages B.index).curPageCount = ∑ B ∈ P.used, 2 ^ B.order := by
      rw [← Finset.sum_add_distrib]
      exact Finset.sum_congr rfl fun B hB => Nat.sub_add_cancel (h.models.cur_le B hB)
    rw [h.models.free_count, P.card_freeCells, h.models.waste_count, h.sum_live fun i => _,
      h.models.fits.pageCount_eq]
    omega

/-- No update wraps. -/
theorem Inv.exactUpdates (h : Inv b₀ s P) (hw : Widths b₀.base b₀.pageSize) : s.ExactUpdates where
  malloc size i b' hrun := by
    obtain ⟨P', ha⟩ := allocated_of_mallocPage h.models (pagesFor_le_of_mallocPage hrun) hrun
    have hcur := ha.models.cur_le _ ha.mem_used
    have horder := (ha.models.tracks.used_page _ ha.mem_used).2
    rw [horder]
    refine ⟨hcur, ?_, ?_⟩
    · rw [ha.models.free_count, h.models.free_count]
      exact Pool.card_freeCells_of_insert ha.notMem ha.used_eq
    · have hsame : ∑ B ∈ P.used, b'.waste B = ∑ B ∈ P.used, s.alloc.waste B :=
        Finset.sum_congr rfl fun B hB => by rw [waste, waste, ha.frame B hB]
      rw [ha.models.waste_count, h.models.waste_count, ha.used_eq, Finset.sum_insert ha.notMem,
        hsame, add_comm]
      rfl
  free i hi b' hrun := by
    obtain ⟨X, hX, rfl⟩ := h.mem_used hi
    obtain ⟨P', hrel⟩ := h.released hw hX hrun
    rw [(h.models.tracks.used_page X hX).2]
    refine ⟨h.models.cur_le X hX, ?_, ?_⟩
    · rw [hrel.models.free_count, h.models.free_count]
      exact Pool.card_freeCells_of_erase hX hrel.used_eq
    · have hsame : ∑ B ∈ P.used.erase X, b'.waste B = ∑ B ∈ P.used.erase X, s.alloc.waste B := by
        refine Finset.sum_congr rfl fun B hB => ?_
        obtain ⟨hne, hB⟩ := Finset.mem_erase.1 hB
        rw [waste, waste, hrel.frame B hB hne]
      rw [hrel.models.waste_count, h.models.waste_count, hrel.used_eq, hsame, add_comm]
      exact Finset.add_sum_erase P.used s.alloc.waste hX

variable {valloc : ℕ → ℕ} {base pageSize pageCount : ℕ}

/-- **The counters are exact in every state of the service**, and the next request keeps them so
without a wrap. -/
theorem service_counters (hw : Widths base pageSize)
    (hctor : ctor valloc base pageSize pageCount = .ok b₀)
    (hs : buddyService.Reachable (start b₀) s) : s.Balanced ∧ s.ExactUpdates := by
  obtain ⟨-, hbase, hpage, -⟩ := models_of_ctor hctor
  obtain ⟨P, hP⟩ := Service.inv hw hctor hs
  exact ⟨hP.balanced, hP.exactUpdates (by rwa [hbase, hpage])⟩

/-- One page free, four in use. -/
theorem service_counters_five :
    ∃ s : BuddyRun, s.live = {1, 2, 3, 4} ∧ s.Balanced ∧ s.ExactUpdates := by
  obtain ⟨b₀, s, hctor, hs, hlive⟩ := exists_service_five
  exact ⟨s, hlive, service_counters params_five.widths hctor hs⟩

end Counters

end BuddyRun

/-! ### Alignment -/

namespace BuddyPmalloc

/-- The truncation of the offset to 32 bits keeps powers of two that divide it. -/
theorem dvd_wrap32 {a x : ℕ} (h : 2 ^ a ∣ x) : 2 ^ a ∣ wrap32 x := by
  rcases le_total a 32 with ha | ha
  · exact (Nat.dvd_mod_iff (Nat.pow_dvd_pow 2 ha)).2 h
  · have hzero : wrap32 x = 0 := Nat.mod_eq_zero_of_dvd ((Nat.pow_dvd_pow 2 ha).trans h)
    rw [hzero]
    exact dvd_zero _

/-- **Alignment of addresses**: it comes from the base and from the offset. -/
theorem dvd_retAddr {b : BuddyPmalloc} {a i : ℕ} (ha : a ≤ 64) (hbase : 2 ^ a ∣ b.base)
    (hoffset : 2 ^ a ∣ b.pageSize * i) : 2 ^ a ∣ b.retAddr i := by
  rw [retAddr, wrap64, Nat.dvd_mod_iff (Nat.pow_dvd_pow 2 ha)]
  exact dvd_add hbase (dvd_wrap32 hoffset)

/-- A block is as aligned as it is large. -/
theorem dvd_retAddr_of_le {b : BuddyPmalloc} {X : Block} {a k : ℕ} (hX : X.Aligned)
    (hk : b.pageSize = 2 ^ k) (hle : 2 ^ a ≤ 2 ^ X.order * b.pageSize) (ha : a ≤ 64)
    (hbase : 2 ^ a ∣ b.base) : 2 ^ a ∣ b.retAddr X.index := by
  rw [hk, ← pow_add] at hle
  have hpow : 2 ^ a ∣ 2 ^ (X.order + k) :=
    Nat.pow_dvd_pow 2 ((Nat.pow_le_pow_iff_right (by decide)).1 hle)
  refine dvd_retAddr ha hbase ?_
  rw [hk, Nat.mul_comm]
  rw [pow_add] at hpow
  exact hpow.trans (Nat.mul_dvd_mul_right hX _)

/-- A block that answers a request holds it. -/
theorem le_block_of_pagesFor {b : BuddyPmalloc} (hw : Widths b.base b.pageSize) {size : ℕ}
    (hsize : (size + b.pageSize - 1) / b.pageSize < 2 ^ 32) :
    size ≤ 2 ^ b.orderFor size * b.pageSize := by
  have hpos := hw.pos
  have hcover : b.pagesFor size ≤ 2 ^ b.orderFor size := Nat.le_pow_clog (by decide) _
  have hround : size ≤ (size + b.pageSize - 1) / b.pageSize * b.pageSize := by
    have hdiv := Nat.div_add_mod (size + b.pageSize - 1) b.pageSize
    have hmod := Nat.mod_lt (size + b.pageSize - 1) hpos
    rw [Nat.mul_comm]
    omega
  rw [pagesFor_eq_of_lt hw hsize] at hcover
  exact hround.trans (Nat.mul_le_mul_right _ hcover)

end BuddyPmalloc

namespace BuddyRun

section Alignment

variable {valloc : ℕ → ℕ} {base pageSize pageCount : ℕ} {b₀ : BuddyPmalloc} {s : BuddyRun}

/-- **A successful `aligned_malloc`** returns an aligned address, and a new block that holds both
the request and the alignment. -/
theorem service_alignedMalloc_dvd (hpow : ∃ k, pageSize = 2 ^ k) (hw : Widths base pageSize)
    (hctor : ctor valloc base pageSize pageCount = .ok b₀)
    (hs : buddyService.Reachable (start b₀) s) {size align : ℕ}
    (hsize : (size + pageSize - 1) / pageSize < 2 ^ 31) (halign : ∃ a, align = 2 ^ a)
    (hpages : (align + pageSize - 1) / pageSize < 2 ^ 31) (hdvd : align ∣ base) {pa : ℕ}
    {b' : BuddyPmalloc} (hrun : s.alloc.alignedMalloc size align = .ok (pa, b'))
    (hne : pa ≠ minusOne64) :
    align ∣ pa ∧ ∃ i, pa = b'.retAddr i ∧ i ∉ s.live ∧ (b'.pages i).inUse = true ∧
      i + 2 ^ (b'.pages i).order ≤ pageCount ∧
      max size align ≤ 2 ^ (b'.pages i).order * pageSize := by
  obtain ⟨-, hbase, hpage, -⟩ := models_of_ctor hctor
  obtain ⟨P, hP⟩ := Service.inv hw hctor hs
  have hps : s.alloc.pageSize = pageSize := hP.setup.pageSize.trans hpage
  have hbs : s.alloc.base = base := hP.setup.base.trans hbase
  have hws : Widths s.alloc.base s.alloc.pageSize := by rwa [hbs, hps]
  -- the allocator asks itself for the larger of the two
  obtain ⟨size', hsize', hmalloc⟩ := bind_eq_ok.1 hrun
  obtain rfl := alignedSize_of_ok hsize'
  have hmax : (max align size + s.alloc.pageSize - 1) / s.alloc.pageSize < 2 ^ 31 := by
    rw [hps]
    rcases max_cases align size with ⟨heq, -⟩ | ⟨heq, -⟩ <;> rw [heq] <;> assumption
  have hholds := le_block_of_pagesFor hws (lt_trans hmax (by decide))
  obtain ⟨answer, hpageRun, hret⟩ := bind_eq_ok.1 hmalloc
  rcases mallocPage_spec hP.models (pagesFor_le_of_mallocPage hpageRun) with
    ⟨hnone, -⟩ | ⟨i, b'', P', hsome, ha⟩
  · obtain rfl := Except.ok.inj (hpageRun.symm.trans hnone)
    exact absurd (Prod.mk.inj (Except.ok.inj hret)).1.symm hne
  · obtain rfl := Except.ok.inj (hpageRun.symm.trans hsome)
    obtain ⟨rfl, rfl⟩ := Prod.mk.inj (Except.ok.inj hret)
    set X : Block := ⟨i, s.alloc.orderFor (max align size)⟩ with hX
    have hXmem : X ∈ P'.used := ha.mem_used
    obtain ⟨huse, horder⟩ := ha.models.tracks.used_page X hXmem
    have hXT := P'.used_mem hXmem
    rw [hps] at hholds
    refine ⟨?_, i, rfl, ?_, huse, ?_, ?_⟩
    · obtain ⟨k, hk⟩ := hpow
      obtain ⟨a, rfl⟩ := halign
      have hlt : 2 ^ a < 2 ^ 64 := by
        have hdiv := Nat.lt_mul_of_div_lt hpages hw.pos
        have hmul : 2 ^ 31 * pageSize ≤ 2 ^ 31 * 2 ^ 32 := Nat.mul_le_mul_left _ hw.lt.le
        have hpos := hw.pos
        omega
      have hps' : b''.pageSize = pageSize := ha.setup.pageSize.trans hps
      have hbs' : b''.base = base := ha.setup.base.trans hbs
      -- the block is at least as large as the alignment
      refine dvd_retAddr_of_le (P'.tiling.aligned X hXT) (hps'.trans hk) ?_
        ((Nat.pow_lt_pow_iff_right (by decide)).1 hlt).le (hbs'.symm ▸ hdvd)
      rw [hps']
      exact (le_max_left _ _).trans hholds
    · intro hi
      obtain ⟨Y, hY, hYi⟩ := hP.mem_used hi
      exact ha.index_ne hY hYi
    · rw [horder]
      exact P'.tiling.stop_le X hXT
    · rw [horder, max_comm]
      exact hholds

/-- Half a page, aligned to a page. -/
theorem service_alignedMalloc_dvd_five : ∃ (s : BuddyRun) (b' : BuddyPmalloc),
    s.alloc.alignedMalloc 0x800 0x1000 = .ok (0x1000, b') ∧ 0x1000 ∣ 0x1000 ∧
      ∃ i, 0x1000 = b'.retAddr i ∧ i ∉ s.live ∧ (b'.pages i).inUse = true ∧
        i + 2 ^ (b'.pages i).order ≤ 5 ∧ max 0x800 0x1000 ≤ 2 ^ (b'.pages i).order * 0x1000 := by
  have hrun : (do
      let b ← ctor (fun _ => 1) 0x1000 0x1000 5
      let s ← (start b).step (.free 0)
      let r ← s.alloc.alignedMalloc 0x800 0x1000
      return (s.live, r.1)) = Except.ok ({1, 2, 3, 4}, 0x1000) := by decide +kernel
  obtain ⟨b₀, hctor, hrun⟩ := bind_eq_ok.1 hrun
  obtain ⟨s, hfree, hrun⟩ := bind_eq_ok.1 hrun
  obtain ⟨⟨pa, b'⟩, hmalloc, hrun⟩ := bind_eq_ok.1 hrun
  obtain ⟨-, rfl⟩ := Prod.mk.inj (Except.ok.inj hrun)
  have hlegal : (0 : ℕ) ∈ (start b₀).live := by
    rw [start, (models_of_ctor hctor).1.fits.pageCount_eq]
    exact Finset.mem_range.2 (by omega)
  exact ⟨s, b', hmalloc, service_alignedMalloc_dvd ⟨12, rfl⟩ params_five.widths hctor
    (.step (r := .free 0) .init hlegal hfree) (by decide) ⟨12, rfl⟩ (by decide) (dvd_refl _) hmalloc
    (by decide)⟩

end Alignment

end BuddyRun

/-! ### Sizes -/

namespace BuddyPmalloc

/-- What `malloc(size)` should do: come back with `-1` and nothing changed, or with a block that
holds the request. -/
def Answers (b : BuddyPmalloc) (size : ℕ) : Prop :=
  ∃ pa b', b.malloc size = .ok (pa, b') ∧ ((pa = minusOne64 ∧ b' = b) ∨
    ∃ i, b.mallocPage size = .ok (some i, b') ∧ pa = b'.retAddr i ∧
      size ≤ 2 ^ (b'.pages i).order * b.pageSize)

/-- `malloc` finds no block for the page count that it computes. -/
def NoBlockFor (b : BuddyPmalloc) (size : ℕ) : Prop :=
  ∀ o, b.orderFor size ≤ o → o ≤ b.maxOrder → b.list o = []

theorem Models.noBlockFor_iff {n m : ℕ} {b : BuddyPmalloc} {P : Pool n m} (h : Models b P)
    {size : ℕ} : b.NoBlockFor size ↔ ∀ B ∈ P.free, B.order < b.orderFor size := by
  constructor
  · intro hnone B hB
    by_contra hle
    have hom := P.tiling.order_le B (P.free_mem hB)
    rw [← h.fits.maxOrder_eq] at hom
    have hmem := (h.tracks.mem_list B.order B.index).2 hB
    rw [hnone B.order (not_lt.1 hle) hom] at hmem
    exact absurd hmem List.not_mem_nil
  · intro hall o ho _
    rw [List.eq_nil_iff_forall_not_mem]
    intro i hi
    exact absurd (hall _ ((h.tracks.mem_list o i).1 hi)) (not_lt.2 ho)

end BuddyPmalloc

namespace BuddyRun

section Sizes

variable {n m : ℕ} {b₀ : BuddyPmalloc} {s : BuddyRun} {P : Pool n m}

/-- With pages of 4 KB the truncated page count is right for at most `2 ^ 31` pages; for more, the
search for the order may hang, and a block, if one is found, is too small. -/
theorem Inv.answers_iff (h : Inv b₀ s P) (hw : Widths b₀.base b₀.pageSize)
    (hpage : b₀.pageSize = Arch.pageSize) (size : ℕ) :
    s.alloc.Answers size ↔ (size + Arch.pageSize - 1) / Arch.pageSize ≤ 2 ^ 31 ∨
      (s.alloc.pagesFor size ≤ 2 ^ 31 ∧ s.alloc.NoBlockFor size) := by
  have hws := h.widths hw
  have hps : s.alloc.pageSize = Arch.pageSize := h.setup.pageSize.trans hpage
  -- a page count that needs no truncation
  have hexact : (size + Arch.pageSize - 1) / Arch.pageSize ≤ 2 ^ 31 →
      s.alloc.pagesFor size ≤ 2 ^ 31 ∧ size ≤ 2 ^ s.alloc.orderFor size * s.alloc.pageSize := by
    intro hcount
    rw [← hps] at hcount
    have hlt : (size + s.alloc.pageSize - 1) / s.alloc.pageSize < 2 ^ 32 := by omega
    exact ⟨(pagesFor_eq_of_lt hws hlt).trans_le hcount, le_block_of_pagesFor hws hlt⟩
  by_cases hcnt : s.alloc.pagesFor size ≤ 2 ^ 31
  · rcases mallocPage_spec h.models hcnt with ⟨hrun, hnone⟩ | ⟨i, b', P', hrun, ha⟩
    · refine iff_of_true ⟨minusOne64, s.alloc, ?_, Or.inl ⟨rfl, rfl⟩⟩
        (Or.inr ⟨hcnt, h.models.noBlockFor_iff.2 hnone⟩)
      rw [BuddyPmalloc.malloc, hrun]
      rfl
    · have hmalloc := malloc_of_mallocPage_some hrun ha.setup
      have horder : (b'.pages i).order = s.alloc.orderFor size :=
        (ha.models.tracks.used_page _ ha.mem_used).2
      constructor
      · rintro ⟨pa, b'', hrun', ⟨-, rfl⟩ | ⟨j, hpage', -, hfits⟩⟩
        · -- a block has been taken off the free pages
          obtain ⟨-, rfl⟩ := Prod.mk.inj (Except.ok.inj (hmalloc.symm.trans hrun'))
          have hcount := Pool.card_freeCells_of_insert ha.notMem ha.used_eq
          rw [← ha.models.free_count, ← h.models.free_count] at hcount
          have hpos := Nat.two_pow_pos (⟨i, s.alloc.orderFor size⟩ : Block).order
          omega
        · obtain ⟨hij, rfl⟩ := Prod.mk.inj (Except.ok.inj (hrun.symm.trans hpage'))
          obtain rfl := Option.some.inj hij
          have hlt : s.alloc.orderFor size < 31 := ha.models.used_order_lt ha.mem_used
          have hpow : 2 ^ s.alloc.orderFor size ≤ 2 ^ 30 :=
            Nat.pow_le_pow_right (by decide) (by omega)
          rw [horder, hps] at hfits
          simp only [Arch.pageSize] at hfits ⊢
          omega
      · rintro (hcount | ⟨-, hnone⟩)
        · refine ⟨_, _, hmalloc, Or.inr ⟨i, hrun, (ha.setup.retAddr_eq i).symm, ?_⟩⟩
          rw [horder]
          exact (hexact hcount).2
        · have hfail := mallocPage_none h.models hcnt (h.models.noBlockFor_iff.1 hnone)
          cases hrun.symm.trans hfail
  · refine iff_of_false ?_ ?_
    · rintro ⟨pa, b', hrun, -⟩
      rw [BuddyPmalloc.malloc, mallocPage_hang (not_le.1 hcnt)] at hrun
      cases hrun
    · rintro (hcount | ⟨hle, -⟩)
      · exact hcnt (hexact hcount).1
      · exact hcnt hle

variable {valloc : ℕ → ℕ} {base pageCount : ℕ}

/-- **Which sizes `malloc` answers correctly**: those of at most `2 ^ 31` pages, and those for which
it finds no block. -/
theorem service_malloc_answers_iff (hbase : base < 2 ^ 64)
    (hctor : ctor valloc base Arch.pageSize pageCount = .ok b₀)
    (hs : buddyService.Reachable (start b₀) s) (size : ℕ) :
    s.alloc.Answers size ↔ (size + Arch.pageSize - 1) / Arch.pageSize ≤ 2 ^ 31 ∨
      (s.alloc.pagesFor size ≤ 2 ^ 31 ∧ s.alloc.NoBlockFor size) := by
  obtain ⟨-, hb, hpage, -⟩ := models_of_ctor hctor
  have hw : Widths base Arch.pageSize := ⟨by decide, by decide, hbase⟩
  obtain ⟨P, hP⟩ := Service.inv hw hctor hs
  exact hP.answers_iff (by rwa [hb, hpage]) hpage size

/-- `malloc` of `2 ^ 44` bytes: the page count is truncated to zero, and one page is handed out. -/
theorem not_answers_two_pow_44 : ∃ b₀ s, ctor (fun _ => 1) 0x1000 Arch.pageSize 5 = .ok b₀ ∧
    buddyService.Reachable (start b₀) s ∧ ¬ s.alloc.Answers (2 ^ 44) := by
  have hrun : (do
      let b ← ctor (fun _ => 1) 0x1000 Arch.pageSize 5
      let s ← (start b).step (.free 0)
      return (s.alloc.list 0, s.alloc.pageSize)) = Except.ok ([0], Arch.pageSize) := by
    decide +kernel
  obtain ⟨b₀, hctor, hrun⟩ := bind_eq_ok.1 hrun
  obtain ⟨s, hfree, hrun⟩ := bind_eq_ok.1 hrun
  obtain ⟨hlist, hps⟩ := Prod.mk.inj (Except.ok.inj hrun)
  obtain ⟨hmodels, hbase, hpage, -⟩ := models_of_ctor hctor
  have hlegal : (0 : ℕ) ∈ (start b₀).live := by
    rw [start, hmodels.fits.pageCount_eq]
    exact Finset.mem_range.2 (by omega)
  have hs : buddyService.Reachable (start b₀) s := .step (r := .free 0) .init hlegal hfree
  have hw : Widths 0x1000 Arch.pageSize := ⟨by decide, by decide, by decide⟩
  obtain ⟨P, hP⟩ := Service.inv hw hctor hs
  refine ⟨b₀, s, hctor, hs, ?_⟩
  have hpages : s.alloc.pagesFor (2 ^ 44) = 0 := by
    rw [pagesFor, hps]
    decide
  rw [hP.answers_iff (by rwa [hbase, hpage]) hpage, not_or, not_and]
  refine ⟨by simp only [Arch.pageSize]; omega, fun _ hnone => ?_⟩
  have hempty := hnone 0 (by rw [orderFor, hpages]; simp) (Nat.zero_le _)
  rw [hlist] at hempty
  cases hempty

/-- A page, where one page is free. -/
theorem service_malloc_answers_iff_five : ∃ (s : BuddyRun),
    s.live = {1, 2, 3, 4} ∧ (s.alloc.Answers 0x1000 ↔
      (0x1000 + Arch.pageSize - 1) / Arch.pageSize ≤ 2 ^ 31 ∨
        (s.alloc.pagesFor 0x1000 ≤ 2 ^ 31 ∧ s.alloc.NoBlockFor 0x1000)) := by
  obtain ⟨b₀, s, hctor, hs, hlive⟩ := exists_service_five
  exact ⟨s, hlive, service_malloc_answers_iff (by decide) hctor hs 0x1000⟩

end Sizes

end BuddyRun

end Aim
