/-
**What `free` can tell from the record of a page.**

`free` believes the `in_use` flag of the page that it is given.  The flag is cleared at the head of
the block that the loop of `free` has merged, and nowhere else: a block that is merged into a lower
buddy leaves its own flag set, although its page heads nothing any more, and a second `free` of it
passes.  Without such merges the flags are set at the heads of blocks in use and at no other page.

Main definitions:

* `Aim.BuddyPmalloc.MergesDown` — releasing the block merges it into a lower one;
* `Aim.BuddyRun.OnlyHeads` — `free` only accepts blocks in use.

Main results:

* `Aim.BuddyPmalloc.pages_of_free` — `free` writes one record, that of the merged block;
* `Aim.BuddyRun.FlagsExact.of_step` — without downward merges the flags stay exact;
* `Aim.BuddyRun.service_onlyHeads` — **`free` catches every illegitimate address in runs without
  downward merges**, and misses one after each such merge.
-/

import AimKernel.BuddyService

set_option relaxedAutoImplicit false
set_option autoImplicit false

namespace Aim

open DyadicBlocks BuddyPmalloc

namespace BuddyPmalloc

/-! ### The flags after a request -/

theorem splitLoop_inUse {t i p : ℕ} : ∀ (o : ℕ) (b : BuddyPmalloc),
    ((splitLoop t i o b).pages p).inUse = true → (b.pages p).inUse = true := by
  intro o
  induction o with
  | zero => exact fun b h => h
  | succ o ih =>
      intro b h
      rw [splitLoop] at h
      split at h
      · have hnext := ih _ h
        split at hnext
        · -- the flag of the higher half has just been cleared
          by_cases hp : p = getHighIndex i o
          · rw [hp, listAdd_pages, setPage_pages_self] at hnext
            cases hnext
          · rwa [listAdd_pages, setPage_pages_of_ne b _ hp] at hnext
        · exact hnext
      · exact h

/-- **`malloc` sets one flag**, that of the block it hands out. -/
theorem inUse_of_mallocPage {b b' : BuddyPmalloc} {size i p : ℕ}
    (hrun : b.mallocPage size = .ok (some i, b')) (hp : (b'.pages p).inUse = true) :
    p = i ∨ (b.pages p).inUse = true := by
  obtain ⟨t, -, hrun⟩ := bind_eq_ok.1 hrun
  cases hfind : b.findBlock t with
  | none =>
      rw [hfind] at hrun
      cases hrun
  | some block =>
      obtain ⟨o, j⟩ := block
      rw [hfind] at hrun
      obtain ⟨-, -, hrun⟩ := bind_eq_ok.1 hrun
      obtain ⟨-, -, hrun⟩ := bind_eq_ok.1 hrun
      obtain ⟨hij, rfl⟩ := Prod.mk.inj (Except.ok.inj hrun)
      obtain rfl := Option.some.inj hij
      by_cases hpj : p = j
      · exact Or.inl hpj
      · have hold := splitLoop_inUse o _ hp
        exact Or.inr (by rwa [listDel_pages, setPage_pages_of_ne b _ hpj] at hold)

/-! ### The flags after a release -/

/-- What the assertions of `free` look at. -/
theorem free_of_record {b : BuddyPmalloc} {ptr i : ℕ} (hdvd : b.pageSize ∣ ptr)
    (hindex : b.pageIndex ptr = i) (haligned : 2 ^ (b.pages i).order ∣ i)
    (horder : (b.pages i).order < 32) (hi : i < b.pageCount) (huse : (b.pages i).inUse = true)
    (hcount : wrap32 (b.freePageCount + 2 ^ (b.pages i).order) ≤ b.pageCount) :
    ∃ b', b.free ptr = .ok b' := by
  rw [free, hindex, assert_bind (roundDown_eq_self_iff.2 hdvd)]
  simp only
  rw [shl1_of_lt horder, assert_bind ((Bits.and_low_mask_eq_zero_iff).2 haligned), assert_bind hi,
    assert_bind huse, assert_bind hcount]
  exact ⟨_, rfl⟩

section Release

variable {n m : ℕ} {b b' : BuddyPmalloc} {P : Pool n m} {X : Block}

/-- **`free` writes one record**, that of the block `M` that the released block ends up in. -/
theorem pages_of_free (h : Models b P) (hX : X ∈ P.used) {ptr : ℕ}
    (hindex : b.pageIndex ptr = X.index) (hrun : b.free ptr = .ok b') :
    ∃ M : Block, M.Aligned ∧ M.order ≤ m ∧ M.index + 2 ^ M.order ≤ n ∧ X.cells ⊆ M.cells ∧
      M.cells ⊆ P.freeCells ∪ X.cells ∧
      b'.pages = Function.update b.pages M.index
        { b.pages M.index with inUse := false, order := M.order } ∧ M.index ∈ b'.list M.order := by
  obtain ⟨huse, hord⟩ := h.tracks.used_page X hX
  have hfit : Fits (b.credit (b.pages X.index)) n m := h.fits.of_sameSetup ⟨rfl, rfl, rfl, rfl⟩
  have htr : Tracks (b.credit (b.pages X.index)) (P.takeUsed X hX).used (P.takeUsed X hX).free :=
    (h.tracks.popUsed X).congr rfl fun B _ => rfl
  obtain ⟨Φ, b₂, hloop, -, -, hcells, -, hpages, hsub, -⟩ :=
    mergeLoop_spec _ _ (P.takeUsed X hX) hfit htr rfl
  refine ⟨Φ.hole, Φ.hole_aligned, Φ.tiling.order_le _ Φ.hole_mem, Φ.tiling.stop_le _ Φ.hole_mem,
    hsub, ?_, ?_⟩
  · rw [← P.takeUsed_cells X hX, ← hcells]
    exact Finset.subset_union_right
  · have hloop' : mergeLoop (b.maxOrder - (b.pages X.index).order) (b.pages X.index).order X.index
        (b.credit (b.pages X.index)) = (Φ.hole.order, Φ.hole.index, b₂) := by
      rw [hord, h.fits.maxOrder_eq]
      exact hloop
    rw [credit] at hloop'
    obtain ⟨-, -, hrun⟩ := bind_eq_ok.1 hrun
    obtain ⟨-, -, hrun⟩ := bind_eq_ok.1 hrun
    obtain ⟨-, -, hrun⟩ := bind_eq_ok.1 hrun
    obtain ⟨-, -, hrun⟩ := bind_eq_ok.1 hrun
    obtain ⟨-, -, hrun⟩ := bind_eq_ok.1 hrun
    rw [hindex, hloop'] at hrun
    obtain rfl := Except.ok.inj hrun
    refine ⟨?_, ?_⟩
    · rw [listAdd_pages]
      show Function.update b₂.pages _ _ = _
      rw [hpages]
      rfl
    · simp [listAdd]

/-- The pages of the block at `i` fill, together with free pages, an aligned block that the pool has
room for and that starts lower. -/
def MergesDown (b : BuddyPmalloc) (i : ℕ) : Prop :=
  ∃ k ≤ b.maxOrder, i / 2 ^ k * 2 ^ k < i ∧ i / 2 ^ k * 2 ^ k + 2 ^ k ≤ b.pageCount ∧
    ∀ p, i / 2 ^ k * 2 ^ k ≤ p → p < i / 2 ^ k * 2 ^ k + 2 ^ k →
      b.FreePage p ∨ (i ≤ p ∧ p < i + 2 ^ (b.pages i).order)

/-- The merged block starts lower exactly when the free pages allow it. -/
theorem mergesDown_iff (h : Models b P) (hX : X ∈ P.used) {P' : Pool n m}
    (hrel : Released b P X b' P') {M : Block} (hM : M ∈ P'.free) (hsub : X.cells ⊆ M.cells) :
    b.MergesDown X.index ↔ M.index < X.index := by
  have hXM := hsub X.index_mem_cells
  have hMal := P'.tiling.aligned M (P'.free_mem hM)
  have hcells := Pool.freeCells_of_erase hX hrel.used_eq
  -- the pages that are free now are those that were, and those of the block
  have hfree : ∀ p, p ∈ P'.freeCells ↔
      b.FreePage p ∨ (X.index ≤ p ∧ p < X.index + 2 ^ (b.pages X.index).order) := by
    intro p
    rw [hcells, Finset.mem_union, h.tracks.freePage_iff, (h.tracks.used_page X hX).2,
      Block.mem_cells]
    rfl
  constructor
  · rintro ⟨k, hk, hlt, -, hall⟩
    rw [h.fits.maxOrder_eq] at hk
    set D : Block := ⟨X.index / 2 ^ k * 2 ^ k, k⟩ with hD
    have hDsub : D.cells ⊆ P'.freeCells := by
      intro p hp
      obtain ⟨hlow, hhigh⟩ := Block.mem_cells.1 hp
      exact (hfree p).2 (hall p hlow hhigh)
    obtain ⟨B, hB, hDB⟩ := P'.exists_free_superset k D.index (Dvd.intro_left _ rfl) hk hDsub
    have hXD : X.index ∈ D.cells :=
      Block.mem_cells.2 ⟨Nat.div_mul_le_self _ _, Nat.lt_div_mul_add (Nat.two_pow_pos k)⟩
    obtain rfl : B = M := P'.tiling.eq_of_meet B (P'.free_mem hB) M (P'.free_mem hM) X.index
      (hDB hXD) hXM
    exact lt_of_le_of_lt (Block.mem_cells.1 (hDB D.index_mem_cells)).1 hlt
  · intro hlt
    have hindex : X.index / 2 ^ M.order * 2 ^ M.order = M.index := by
      rw [(Block.mem_cells_iff hMal).1 hXM, Nat.div_mul_cancel hMal]
    refine ⟨M.order, ?_, ?_⟩
    · rw [h.fits.maxOrder_eq]
      exact P'.tiling.order_le M (P'.free_mem hM)
    · rw [hindex, h.fits.pageCount_eq]
      refine ⟨hlt, P'.tiling.stop_le M (P'.free_mem hM), fun p hlow hhigh => ?_⟩
      exact (hfree p).1 (mem_cellsOf.2 ⟨M, hM, Block.mem_cells.2 ⟨hlow, hhigh⟩⟩)

end Release

end BuddyPmalloc

/-! ### Runs -/

namespace BuddyRun

/-- The flags are set at the heads of blocks in use, and at no other page. -/
def FlagsExact (s : BuddyRun) : Prop :=
  ∀ i < s.alloc.pageCount, (s.alloc.pages i).inUse = true → i ∈ s.live

/-- **`free` accepts blocks in use only**, of all page-aligned addresses inside the pool. -/
def OnlyHeads (s : BuddyRun) : Prop :=
  ∀ ptr b', s.alloc.base ≤ ptr → ptr < s.alloc.base + s.alloc.pageCount * s.alloc.pageSize →
    ptr < 2 ^ 64 → s.alloc.pageSize ∣ ptr → s.alloc.free ptr = .ok b' →
      ∃ i ∈ s.live, ptr = s.alloc.pageAddr i

/-- No block that is given back merges into a lower one. -/
def NoDownwardMerge (s : BuddyRun) : BuddyRequest → Prop
  | .free index => ¬ s.alloc.MergesDown index
  | _ => True

section Step

variable {n m : ℕ} {b₀ : BuddyPmalloc} {s s' : BuddyRun} {P : Pool n m}

/-- A release, with the block that it has merged. -/
theorem Inv.merged (h : Inv b₀ s P) (hw : Widths b₀.base b₀.pageSize) {i : ℕ} (hi : i ∈ s.live)
    {b' : BuddyPmalloc} (hrun : s.alloc.free (s.alloc.pageAddr i) = .ok b') :
    ∃ (M : Block) (P' : Pool n m), Models b' P' ∧ M ∈ P'.free ∧
      (s.alloc.MergesDown i ↔ M.index < i) ∧ M.index ≤ i ∧
      b'.pages = Function.update s.alloc.pages M.index
        { s.alloc.pages M.index with inUse := false, order := M.order } := by
  obtain ⟨X, hX, rfl⟩ := h.mem_used hi
  obtain ⟨P', hrel⟩ := h.released hw hX hrun
  have hlt := P.tiling.index_lt (P.used_mem hX)
  have hcount := h.models.fits.count_lt
  have hindex := pageIndex_pageAddr (h.widths hw) (show X.index < 2 ^ 32 by omega)
  obtain ⟨M, -, -, -, hsub, -, hpages, hlist⟩ := pages_of_free h.models hX hindex hrun
  have hM : M ∈ P'.free := (hrel.models.tracks.mem_list _ _).1 hlist
  exact ⟨M, P', hrel.models, hM, mergesDown_iff h.models hX hrel hM hsub,
    (Block.mem_cells.1 (hsub X.index_mem_cells)).1, hpages⟩

/-- A request for pages keeps the flags exact. -/
theorem FlagsExact.receive (hf : s.FlagsExact) (h : Inv b₀ s P) {size : ℕ}
    {answer : Option ℕ × BuddyPmalloc} (hrun : s.alloc.mallocPage size = .ok answer) :
    (s.receive answer).FlagsExact := by
  rcases mallocPage_spec h.models (pagesFor_le_of_mallocPage hrun) with
    ⟨hnone, -⟩ | ⟨i, b', P', hsome, ha⟩
  · obtain rfl := Except.ok.inj (hrun.symm.trans hnone)
    exact hf
  · obtain rfl := Except.ok.inj (hrun.symm.trans hsome)
    intro p hp huse
    rcases inUse_of_mallocPage hrun huse with rfl | hold
    · exact Finset.mem_insert_self _ _
    · refine Finset.mem_insert_of_mem (hf p ?_ hold)
      rw [← ha.setup.pageCount]
      exact hp

/-- **Without downward merges the flags stay exact.** -/
theorem FlagsExact.of_step (hf : s.FlagsExact) (h : Inv b₀ s P) (hw : Widths b₀.base b₀.pageSize)
    {r : BuddyRequest} (hr : s.Requested r) (hmerge : s.NoDownwardMerge r)
    (hstep : s.step r = .ok s') : s'.FlagsExact := by
  cases r with
  | malloc size =>
      obtain ⟨answer, hrun, hret⟩ := bind_eq_ok.1 hstep
      obtain rfl := Except.ok.inj hret
      exact hf.receive h hrun
  | alignedMalloc size align =>
      obtain ⟨size', -, hstep⟩ := bind_eq_ok.1 hstep
      obtain ⟨answer, hrun, hret⟩ := bind_eq_ok.1 hstep
      obtain rfl := Except.ok.inj hret
      exact hf.receive h hrun
  | free index =>
      obtain ⟨b', hrun, hret⟩ := bind_eq_ok.1 hstep
      obtain rfl := Except.ok.inj hret
      obtain ⟨M, P', hmodels, -, hdown, hle, hpages⟩ := h.merged hw hr hrun
      -- the block is the lower one in every merge, so the flag that is cleared is its own
      have hMi : M.index = index := le_antisymm hle (not_lt.1 fun hlt => hmerge (hdown.2 hlt))
      intro p hp huse
      rw [hmodels.fits.pageCount_eq, ← h.models.fits.pageCount_eq] at hp
      simp only at huse
      rw [hpages, hMi] at huse
      by_cases hpi : p = index
      · rw [hpi, Function.update_self] at huse
        cases huse
      · rw [Function.update_of_ne hpi] at huse
        exact Finset.mem_erase.2 ⟨hpi, hf p hp huse⟩

/-- Exact flags are all that `free` needs. -/
theorem FlagsExact.onlyHeads (hf : s.FlagsExact) (h : Inv b₀ s P)
    (hw : Widths b₀.base b₀.pageSize) (hdvd : b₀.pageSize ∣ b₀.base) : s.OnlyHeads := by
  intro ptr b' hlow hhigh hptr hpage hrun
  obtain ⟨-, -, hrun⟩ := bind_eq_ok.1 hrun
  obtain ⟨-, -, hrun⟩ := bind_eq_ok.1 hrun
  obtain ⟨_, hrange, hrun⟩ := bind_eq_ok.1 hrun
  obtain ⟨_, huse, -⟩ := bind_eq_ok.1 hrun
  have hindex := hf _ (assert_eq_ok.1 hrange) (assert_eq_ok.1 huse)
  refine ⟨_, hindex, ?_⟩
  -- the address is that of the page it is in
  have hws := h.widths hw
  rw [← h.setup.pageSize, ← h.setup.base] at hdvd
  have hcount := h.models.fits.count_lt
  rw [← h.models.fits.pageCount_eq] at hcount
  have hquot : (ptr - s.alloc.base) / s.alloc.pageSize < 2 ^ 31 := by
    refine lt_trans (Nat.div_lt_of_lt_mul ?_) hcount
    rw [Nat.mul_comm]
    omega
  have hval : s.alloc.pageIndex ptr = (ptr - s.alloc.base) / s.alloc.pageSize := by
    rw [pageIndex, sub64_of_le hlow hptr, wrap32_of_lt (by omega)]
  rw [pageAddr, hval, Nat.mul_div_cancel' (Nat.dvd_sub hpage hdvd), Nat.add_sub_cancel' hlow,
    wrap64_of_lt hptr]

/-- The pages of the pool are inside it, at different addresses. -/
theorem Inv.pageAddr_mem (h : Inv b₀ s P) (hw : Widths b₀.base b₀.pageSize)
    (hroom : b₀.base + n * b₀.pageSize ≤ 2 ^ 64) {i : ℕ} (hi : i < n) :
    s.alloc.base ≤ s.alloc.pageAddr i ∧
      s.alloc.pageAddr i < s.alloc.base + s.alloc.pageCount * s.alloc.pageSize ∧
      s.alloc.pageAddr i < 2 ^ 64 := by
  rw [← h.setup.base, ← h.setup.pageSize] at hroom
  have hlt : s.alloc.base + s.alloc.pageSize * i < s.alloc.base + n * s.alloc.pageSize := by
    rw [Nat.mul_comm n]
    exact Nat.add_lt_add_left (Nat.mul_lt_mul_of_pos_left hi (h.widths hw).pos) _
  rw [pageAddr, wrap64_of_lt (hlt.trans_le hroom), h.models.fits.pageCount_eq]
  exact ⟨Nat.le_add_right _ _, hlt, hlt.trans_le hroom⟩

theorem Inv.pageAddr_inj (h : Inv b₀ s P) (hw : Widths b₀.base b₀.pageSize) {i j : ℕ} (hi : i < n)
    (hj : j < n) (heq : s.alloc.pageAddr i = s.alloc.pageAddr j) : i = j := by
  have hcount := h.models.fits.count_lt
  have hindex := congrArg s.alloc.pageIndex heq
  rwa [pageIndex_pageAddr (h.widths hw) (by omega), pageIndex_pageAddr (h.widths hw) (by omega)]
    at hindex

/-- **After a downward merge the flag of the old head is stale**, and `free` of it passes, provided
that the counter has room. -/
theorem Inv.not_onlyHeads (h : Inv b₀ s P) (hw : Widths b₀.base b₀.pageSize)
    (hroom : b₀.base + n * b₀.pageSize ≤ 2 ^ 64) {i : ℕ} (hi : i ∈ s.live)
    (hmerge : s.alloc.MergesDown i) (hstep : s.step (.free i) = .ok s')
    (hfits : s'.alloc.freePageCount + 2 ^ (s.alloc.pages i).order ≤ n) : ¬ s'.OnlyHeads := by
  obtain ⟨b', hrun, hret⟩ := bind_eq_ok.1 hstep
  obtain ⟨M, -, -, -, hdown, -, hpages⟩ := h.merged hw hi hrun
  obtain ⟨X, hX, rfl⟩ := h.mem_used hi
  obtain ⟨huse, hord⟩ := h.models.tracks.used_page X hX
  obtain ⟨P', hrel⟩ := h.released hw hX hrun
  have h' : Inv b₀ s' P' := Except.ok.inj hret ▸ h.release hX hrel
  obtain rfl := Except.ok.inj hret
  have hXn := P.tiling.index_lt (P.used_mem hX)
  have hcount := h.models.fits.count_lt
  have horder := h.models.used_order_lt hX
  -- the record of the old head is as it was
  have hrecord : b'.pages X.index = s.alloc.pages X.index := by
    rw [hpages, Function.update_of_ne (hdown.1 hmerge).ne']
  have hdvd : b'.pageSize ∣ b'.pageAddr X.index := by
    rw [hrel.setup.pageAddr_eq, hrel.setup.pageSize]
    exact dvd_of_free hrun
  have hpass : ∃ b'', b'.free (b'.pageAddr X.index) = .ok b'' := by
    refine free_of_record hdvd (pageIndex_pageAddr (h'.widths hw) (by omega)) ?_ ?_ ?_ ?_ ?_
    · rw [hrecord, hord]
      exact P.tiling.aligned X (P.used_mem hX)
    · rw [hrecord, hord]
      omega
    · rw [h'.models.fits.pageCount_eq]
      exact hXn
    · rw [hrecord]
      exact huse
    · rw [hrecord, h'.models.fits.pageCount_eq]
      exact (Nat.mod_le _ _).trans hfits
  obtain ⟨b'', hpass⟩ := hpass
  intro honly
  obtain ⟨hlow, hhigh, hptr⟩ := h'.pageAddr_mem hw hroom hXn
  obtain ⟨j, hj, heq⟩ := honly _ b'' hlow hhigh hptr hdvd hpass
  obtain ⟨hne, hj⟩ := Finset.mem_erase.1 hj
  obtain ⟨Y, hY, rfl⟩ := h.mem_used hj
  exact hne (h'.pageAddr_inj hw hXn (P.tiling.index_lt (P.used_mem hY)) heq).symm

end Step

section Reachable

variable {valloc : ℕ → ℕ} {base pageSize pageCount : ℕ} {b₀ : BuddyPmalloc}

/-- At the start every page is a block in use. -/
theorem flagsExact_start (b₀ : BuddyPmalloc) : (start b₀).FlagsExact := by
  intro i hi _
  rwa [start, Finset.mem_range]

/-- **`free` accepts blocks in use only, in every run without downward merges**; and right after a
downward merge it accepts an address that heads no block in use, unless there are not enough pages
in use for its counter. -/
theorem service_onlyHeads (hw : Widths base pageSize) (hdvd : pageSize ∣ base)
    (hroom : base + pageCount * pageSize ≤ 2 ^ 64)
    (hctor : ctor valloc base pageSize pageCount = .ok b₀) :
    (∀ s, (buddyService.restrict NoDownwardMerge).Reachable (start b₀) s → s.OnlyHeads) ∧
      ∀ s i s', buddyService.Reachable (start b₀) s → i ∈ s.live → s.alloc.MergesDown i →
        s.step (.free i) = .ok s' →
        s'.alloc.freePageCount + 2 ^ (s.alloc.pages i).order ≤ pageCount → ¬ s'.OnlyHeads := by
  obtain ⟨-, hbase, hpage, -⟩ := models_of_ctor hctor
  rw [← hbase, ← hpage] at hw hdvd hroom
  constructor
  · intro s hs
    obtain ⟨P, hP⟩ := Service.inv (hbase ▸ hpage ▸ hw) hctor hs.mono
    have hflags : s.FlagsExact ∧ ∃ P : Pool pageCount b₀.maxOrder, Inv b₀ s P := by
      refine hs.invariant
        (P := fun s => s.FlagsExact ∧ ∃ P : Pool pageCount b₀.maxOrder, Inv b₀ s P)
        ⟨flagsExact_start b₀, _, inv_start hctor⟩ ?_
      rintro s r s' ⟨hf, P, hP⟩ ⟨hr, hmerge⟩ hstep
      exact ⟨hf.of_step hP hw hr hmerge hstep, hP.of_step hw hr hstep⟩
    exact hflags.1.onlyHeads hP hw hdvd
  · intro s i s' hs hi hmerge hstep hfits
    obtain ⟨P, hP⟩ := Service.inv (hbase ▸ hpage ▸ hw) hctor hs
    exact hP.not_onlyHeads hw hroom hi hmerge hstep hfits

/-- A pool of three pages: pages 0 and 1 are given back in this order and merge, and a second
release of page 1 passes. -/
theorem double_free_of_page_one : ∃ b₀ s, ctor (fun _ => 1) 0x1000 0x1000 3 = .ok b₀ ∧
    buddyService.Reachable (start b₀) s ∧ 1 ∉ s.live ∧
      (∃ b', s.alloc.free (s.alloc.pageAddr 1) = .ok b' ∧ b'.freePageCount = 3) ∧ ¬ s.OnlyHeads := by
  have hrun : (do
      let b ← ctor (fun _ => 1) 0x1000 0x1000 3
      let s₁ ← (start b).step (.free 0)
      let s₂ ← s₁.step (.free 1)
      let b' ← s₂.alloc.free 0x2000
      return (s₁.live, s₂.live, b'.freePageCount)) = Except.ok ({1, 2}, {2}, 3) := by
    decide +kernel
  obtain ⟨b₀, hctor, hrun⟩ := bind_eq_ok.1 hrun
  obtain ⟨s₁, hfree₁, hrun⟩ := bind_eq_ok.1 hrun
  obtain ⟨s₂, hfree₂, hrun⟩ := bind_eq_ok.1 hrun
  obtain ⟨b', hfree₃, hrun⟩ := bind_eq_ok.1 hrun
  obtain ⟨hlive₁, hrun⟩ := Prod.mk.inj (Except.ok.inj hrun)
  obtain ⟨hlive₂, hfree⟩ := Prod.mk.inj hrun
  obtain ⟨hmodels, hbase, hpage, -⟩ := models_of_ctor hctor
  have hlegal₁ : 0 ∈ (start b₀).live := by
    rw [start, hmodels.fits.pageCount_eq]
    exact Finset.mem_range.2 (by omega)
  have hlegal₂ : 1 ∈ s₁.live := by
    rw [hlive₁]
    decide
  have hs : buddyService.Reachable (start b₀) s₂ :=
    .step (r := .free 1) (.step (r := .free 0) .init hlegal₁ hfree₁) hlegal₂ hfree₂
  have hw : Widths b₀.base b₀.pageSize := by
    rw [hbase, hpage]
    exact params_five.widths
  obtain ⟨P, hP⟩ := Service.inv params_five.widths hctor hs
  have haddr : ∀ i, s₂.alloc.pageAddr i = wrap64 (0x1000 + 0x1000 * i) := fun i => by
    rw [hP.setup.pageAddr_eq, pageAddr, hbase, hpage]
  refine ⟨b₀, s₂, hctor, hs, by rw [hlive₂]; decide, ⟨b', ?_, hfree⟩, fun honly => ?_⟩
  · rw [haddr]
    exact hfree₃
  · -- the address of page 1 is inside the pool, and not that of page 2
    have hroom : b₀.base + 3 * b₀.pageSize ≤ 2 ^ 64 := by
      rw [hbase, hpage]
      decide
    obtain ⟨hlow, hhigh, hptr⟩ := hP.pageAddr_mem hw hroom (show 1 < 3 by omega)
    obtain ⟨i, hi, heq⟩ := honly (s₂.alloc.pageAddr 1) b' hlow hhigh hptr
      (by rw [hP.setup.pageSize, hpage, haddr]; decide) (by rw [haddr]; exact hfree₃)
    rw [hlive₂, Finset.mem_singleton] at hi
    rw [hi, haddr, haddr] at heq
    exact absurd heq (by decide)

/-- A pool of five pages. -/
theorem service_onlyHeads_five : ∃ b₀, ctor (fun _ => 1) 0x1000 0x1000 5 = .ok b₀ ∧
    (∀ s, (buddyService.restrict NoDownwardMerge).Reachable (start b₀) s → s.OnlyHeads) ∧
      ∀ s i s', buddyService.Reachable (start b₀) s → i ∈ s.live → s.alloc.MergesDown i →
        s.step (.free i) = .ok s' →
        s'.alloc.freePageCount + 2 ^ (s.alloc.pages i).order ≤ 5 → ¬ s'.OnlyHeads := by
  obtain ⟨b₀, -, hctor, -⟩ := exists_service_five
  exact ⟨b₀, hctor, service_onlyHeads params_five.widths (by decide) (by decide) hctor⟩

end Reachable

end BuddyRun

end Aim
