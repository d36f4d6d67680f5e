/-
**Freeing the usable memory of the i386 port.**

After the zones have been cut and an allocator has been built for each of them, every page is in
use.  `arch_init_free_pmm_zone` walks the usable regions of the memory map, page by page, and frees
each page outside the kernel in the zone that contains it.  The walk is described by the list of
its calls of `free`; this module proves that the calls are one for each usable frame, that they
all succeed, and that exactly the usable frames are free afterwards.

Main definitions:

* `Aim.BootMap` — the memory maps and kernel images the boot code can meet;
* `Aim.UsableFrame` — a frame inside a usable region and outside the kernel;
* `Aim.freeCalls` — the calls of `free`, in order.

Main results:

* `Aim.archInitFreePmmZone_eq` — the nested loops make these calls;
* `Aim.mem_freeCalls`, `Aim.nodup_freeCalls` — the calls are the usable frames, each once;
* `Aim.archInitFreePmmZone_spec` — **the usable frames are freed, each once, and no others**.
-/

import AimKernel.MemoryZones

set_option relaxedAutoImplicit false
set_option autoImplicit false

namespace Aim

open DyadicBlocks

/-! ### Usable frames -/

/-- A memory map and a kernel image as the boot code meets them. -/
structure BootMap (map : List MachineMemoryMap) (kernStartLow kernEndLow : ℕ) : Prop where
  /-- `MAX_MACHINE_MEMORY_MAP` -/
  length_le : map.length ≤ 20
  stop_lt : ∀ r ∈ map, r.base + r.size < 2 ^ 43
  disjoint : map.Pairwise fun r r' => r.type = 1 → r'.type = 1 →
    Disjoint (Set.Ico r.base (r.base + r.size)) (Set.Ico r'.base (r'.base + r'.size))
  kernel : ∃ r ∈ map, r.type = 1 ∧ r.base ≤ kernStartLow ∧ kernEndLow ≤ r.base + r.size
  start_eq : kernStartLow = 0x1000000
  start_le : kernStartLow ≤ kernEndLow
  end_le : kernEndLow ≤ Arch.ktop - Arch.koffset

/-- A page frame that lies inside a usable region and outside `[kstart, kend)`. -/
structure UsableFrame (map : List MachineMemoryMap) (kstart kend p : ℕ) : Prop where
  aligned : Arch.pageSize ∣ p
  usable : ∃ r ∈ map, r.type = 1 ∧ r.base ≤ p ∧ p + Arch.pageSize ≤ r.base + r.size
  outside : Disjoint (Set.Ico p (p + Arch.pageSize)) (Set.Ico kstart kend)

/-- For a range of whole pages, a frame is outside as soon as its first address is. -/
theorem frame_outside_iff {kstart kend p : ℕ} (hp : Arch.pageSize ∣ p)
    (hstart : Arch.pageSize ∣ kstart) :
    Disjoint (Set.Ico p (p + Arch.pageSize)) (Set.Ico kstart kend) ↔
      ¬ (kstart ≤ p ∧ p < kend) := by
  rw [Set.disjoint_left]
  obtain ⟨a, rfl⟩ := hp
  obtain ⟨b, rfl⟩ := hstart
  simp only [Arch.pageSize, Set.mem_Ico]
  constructor
  · intro h hin
    exact h (a := 4096 * a) ⟨le_refl _, by omega⟩ hin
  · rintro h q ⟨hq, hq'⟩ ⟨hk, hk'⟩
    omega

/-! ### The calls of `free` -/

/-- The frame at `p` is in the zone, as `try_free_page` tests it. -/
def Zone.Holds (z : Zone) (p : ℕ) : Prop := z.base ≤ p ∧ p < wrap64 (z.base + z.size)

instance (z : Zone) (p : ℕ) : Decidable (z.Holds p) := inferInstanceAs (Decidable (_ ∧ _))

/-- The calls of `free` that `arch_init_free_pmm_zone` makes, in order. -/
def freeCalls (map : List MachineMemoryMap) (zones : ZoneId → Zone) (kstart kend : ℕ) :
    List (ZoneId × ℕ) :=
  (map.filter fun r => r.type = 1).flatMap fun r =>
    (r.pageRange.filter fun page => ¬ (kstart ≤ page ∧ page < kend)).flatMap fun page =>
      (ZoneId.all.filter fun z => (zones z).Holds page).map fun z => (z, page)

/-- One of these calls. -/
def freeCall (alloc : ZoneId → BuddyPmalloc) (call : ZoneId × ℕ) :
    Outcome (ZoneId → BuddyPmalloc) := do
  let b ← (alloc call.1).free call.2
  return Function.update alloc call.1 b

theorem foldlM_filter_flatMap {σ α β : Type} {f : σ → β → Outcome σ} {g : α → List β}
    {p : α → Bool} (l : List α) : ∀ s : σ,
    ((l.filter p).flatMap g).foldlM f s =
      l.foldlM (fun s a => if p a then (g a).foldlM f s else return s) s := by
  induction l with
  | nil => exact fun s => rfl
  | cons a l ih =>
      intro s
      rw [List.foldlM_cons]
      cases hp : p a with
      | true =>
          rw [List.filter_cons_of_pos hp, List.flatMap_cons, List.foldlM_append, if_pos rfl]
          congr 1
          exact funext ih
      | false =>
          rw [List.filter_cons_of_neg (by simp [hp]), ih]
          rfl

/-- **The nested loops make these calls.** -/
theorem archInitFreePmmZone_eq (map : List MachineMemoryMap) (zones : ZoneId → Zone)
    (kstart kend : ℕ) (alloc : ZoneId → BuddyPmalloc) :
    archInitFreePmmZone map zones kstart kend alloc =
      (freeCalls map zones kstart kend).foldlM freeCall alloc := by
  have hzones : ∀ (page : ℕ) (alloc : ZoneId → BuddyPmalloc),
      ((ZoneId.all.filter fun z => (zones z).Holds page).map fun z => (z, page)).foldlM freeCall
        alloc = ZoneId.all.foldlM (tryFreePage zones page) alloc := by
    intro page alloc
    rw [List.foldlM_map, List.foldlM_filter]
    congr 1
    funext alloc z
    by_cases h : (zones z).Holds page
    · rw [tryFreePage, if_pos (by simpa using h)]
      exact (if_pos h).symm
    · rw [tryFreePage, if_neg (by simpa using h)]
      exact (if_neg h).symm
  rw [freeCalls, foldlM_filter_flatMap, archInitFreePmmZone]
  congr 1
  funext alloc r
  by_cases hr : r.type = 1
  · rw [if_pos hr, if_pos (by simpa using hr), foldlM_filter_flatMap]
    congr 1
    funext alloc page
    by_cases hk : kstart ≤ page ∧ page < kend
    · rw [if_pos hk, if_neg (by simpa using hk)]
    · rw [if_neg hk, if_pos (decide_eq_true hk), hzones]
  · rw [if_neg hr, if_neg (by simpa using hr)]

/-! ### The frames of a region -/

theorem mem_pageRange {r : MachineMemoryMap} (hr : r.base + r.size < 2 ^ 43) {p : ℕ} :
    p ∈ r.pageRange ↔
      Arch.pageSize ∣ p ∧ r.base ≤ p ∧ p + Arch.pageSize ≤ r.base + r.size := by
  have hst : roundUp 64 r.base Arch.pageSize = (r.base + 4095) / 4096 * 4096 :=
    roundUp_eq (by decide) (by simp only [Arch.pageSize]; omega)
  have hed : roundDown r.stop Arch.pageSize = (r.base + r.size) / 4096 * 4096 := by
    rw [roundDown_eq, MachineMemoryMap.stop, wrap64_of_lt (by omega), Arch.pageSize]
  rw [MachineMemoryMap.pageRange, hst, hed, List.mem_range']
  simp only [Arch.pageSize]
  constructor
  · rintro ⟨i, hi, rfl⟩
    refine ⟨⟨(r.base + 4095) / 4096 + i, by omega⟩, ?_, ?_⟩ <;> omega
  · rintro ⟨⟨a, rfl⟩, hbase, hstop⟩
    exact ⟨a - (r.base + 4095) / 4096, by omega, by omega⟩

theorem nodup_pageRange (r : MachineMemoryMap) : r.pageRange.Nodup :=
  List.nodup_range' _ (by decide)

section Calls

variable {map : List MachineMemoryMap} {zones : ZoneId → Zone} {kstart kend : ℕ}

/-- **The calls are the usable frames**, in the zones that hold them. -/
theorem mem_freeCalls (hmap : ∀ r ∈ map, r.base + r.size < 2 ^ 43)
    (hstart : Arch.pageSize ∣ kstart) {z : ZoneId} {p : ℕ} :
    (z, p) ∈ freeCalls map zones kstart kend ↔
      UsableFrame map kstart kend p ∧ (zones z).Holds p := by
  have hall : ∀ z : ZoneId, z ∈ ZoneId.all := by
    intro z
    cases z <;> decide
  simp only [freeCalls, List.mem_flatMap, List.mem_filter, List.mem_map, decide_eq_true_iff,
    Prod.mk.injEq]
  constructor
  · rintro ⟨r, ⟨hr, htype⟩, q, ⟨hq, hout⟩, z', ⟨-, hz⟩, rfl, rfl⟩
    obtain ⟨hdvd, hbase, hstop⟩ := (mem_pageRange (hmap r hr)).1 hq
    exact ⟨⟨hdvd, ⟨r, hr, htype, hbase, hstop⟩, (frame_outside_iff hdvd hstart).2 hout⟩, hz⟩
  · rintro ⟨⟨hdvd, ⟨r, hr, htype, hbase, hstop⟩, hout⟩, hz⟩
    exact ⟨r, ⟨hr, htype⟩, p, ⟨(mem_pageRange (hmap r hr)).2 ⟨hdvd, hbase, hstop⟩,
      (frame_outside_iff hdvd hstart).1 hout⟩, z, ⟨hall z, hz⟩, rfl, rfl⟩

/-- **No call is made twice**: the regions are disjoint, and so are the pages of a region. -/
theorem nodup_freeCalls (hmap : ∀ r ∈ map, r.base + r.size < 2 ^ 43)
    (hdisjoint : map.Pairwise fun r r' => r.type = 1 → r'.type = 1 →
      Disjoint (Set.Ico r.base (r.base + r.size)) (Set.Ico r'.base (r'.base + r'.size))) :
    (freeCalls map zones kstart kend).Nodup := by
  have hpage : ∀ (r : MachineMemoryMap) {c : ZoneId × ℕ},
      c ∈ (r.pageRange.filter fun page => ¬ (kstart ≤ page ∧ page < kend)).flatMap (fun page =>
        (ZoneId.all.filter fun z => (zones z).Holds page).map fun z => (z, page)) →
      c.2 ∈ r.pageRange := by
    intro r c hc
    obtain ⟨page, hpage, hc⟩ := List.mem_flatMap.1 hc
    obtain ⟨z, -, rfl⟩ := List.mem_map.1 hc
    exact List.mem_of_mem_filter hpage
  rw [freeCalls, List.nodup_flatMap]
  refine ⟨fun r _ => List.nodup_flatMap.2 ⟨fun page _ => ?_, ?_⟩, ?_⟩
  · exact (List.Nodup.filter _ (by decide)).map fun z z' h => (Prod.mk.inj h).1
  · refine List.Pairwise.imp ?_ ((nodup_pageRange r).filter _)
    intro page page' hne
    rw [Function.onFun, List.disjoint_left]
    intro c hc hc'
    obtain ⟨z, -, rfl⟩ := List.mem_map.1 hc
    obtain ⟨z', -, heq⟩ := List.mem_map.1 hc'
    exact hne (Prod.mk.inj heq).2.symm
  · refine (hdisjoint.filter _).imp_of_mem ?_
    intro r r' hr hr' hdis
    rw [List.mem_filter, decide_eq_true_iff] at hr hr'
    replace hdis := hdis hr.2 hr'.2
    rw [Function.onFun, List.disjoint_left]
    intro c hc hc'
    obtain ⟨-, hbase, hstop⟩ := (mem_pageRange (hmap r hr.1)).1 (hpage r hc)
    obtain ⟨-, hbase', hstop'⟩ := (mem_pageRange (hmap r' hr'.1)).1 (hpage r' hc')
    simp only [Arch.pageSize] at hstop hstop'
    have hmem : c.2 ∈ Set.Ico r.base (r.base + r.size) := ⟨hbase, by omega⟩
    exact Set.disjoint_left.1 hdis hmem ⟨hbase', by omega⟩

end Calls

/-! ### The zones partition the frames -/

/-- The boundaries of the zones, for a memory map and a kernel that the boot code can meet. -/
structure BootZones (zones : ZoneId → Zone) (normalTop maxPhysmem : ℕ) : Prop
    extends Boundaries zones normalTop maxPhysmem where
  le_normalTop : 0x1000000 ≤ normalTop
  maxPhysmem_lt : maxPhysmem < 2 ^ 43

theorem BootMap.bootZones {map : List MachineMemoryMap} {kernStartLow kernEndLow : ℕ}
    (h : BootMap map kernStartLow kernEndLow) :
    ∃ zones normalTop maxPhysmem, archInitPmmZone map kernStartLow kernEndLow = .ok zones ∧
      BootZones zones normalTop maxPhysmem ∧
      ∀ r ∈ map, ∀ p, Arch.pageSize ∣ p → p + Arch.pageSize ≤ r.base + r.size →
        p + Arch.pageSize ≤ maxPhysmem := by
  obtain ⟨zones, hrun, hb⟩ := archInitPmmZone_spec map kernStartLow kernEndLow
  obtain ⟨htop, hmax, hmax'⟩ := queryZones_spec map kernStartLow kernEndLow
  have hstop : ∀ r ∈ map, r.stop = r.base + r.size := fun r hr =>
    wrap64_of_lt (lt_trans (h.stop_lt r hr) (by decide))
  refine ⟨zones, _, _, hrun, ⟨hb, ?_, ?_⟩, ?_⟩
  · -- the region with the kernel ends above 16 MB
    have hge : 0x1000000 ≤ (queryZones map kernStartLow kernEndLow).1 := by
      have := h.start_eq
      have := h.start_le
      rcases htop with ⟨r, hr, -, -, hend, heq⟩ | ⟨-, hnone⟩
      · rw [heq]
        omega
      · obtain ⟨r, hr, htype, hbase, hend⟩ := h.kernel
        exact absurd ⟨r, hr, htype, hbase, by rw [hstop r hr]; exact hend⟩ hnone
    calc 0x1000000
        = roundDown 0x1000000 Arch.pageSize := by decide
      _ ≤ _ := roundDown_mono _ (le_min hge (by decide))
  · refine lt_of_le_of_lt (roundDown_le _ _) ?_
    rcases hmax' with heq | ⟨r, hr, heq⟩
    · rw [heq]
      decide
    · rw [heq, hstop r hr]
      exact h.stop_lt r hr
  · intro r hr p hp hle
    have hr' := hmax r hr
    rw [hstop r hr] at hr'
    rw [← roundDown_eq_self_iff.2 (dvd_add hp (dvd_refl Arch.pageSize))]
    exact roundDown_mono _ (hle.trans hr')

namespace BootZones

variable {zones : ZoneId → Zone} {normalTop maxPhysmem : ℕ}

/-- The end of a zone, without the detour through its size. -/
def stop (normalTop maxPhysmem : ℕ) : ZoneId → ℕ
  | .dma => 0x1000000
  | .normal => normalTop
  | .highmem => maxPhysmem

theorem base_add_size (h : BootZones zones normalTop maxPhysmem) (z : ZoneId) :
    (zones z).base + (zones z).size = stop normalTop maxPhysmem z := by
  have := h.le_normalTop
  have := h.le_maxPhysmem
  have := h.maxPhysmem_lt
  cases z with
  | dma => rw [h.dma]; rfl
  | normal =>
      rw [h.normal, stop]
      simp only
      rw [sub64_of_le (by omega) (by omega)]
      omega
  | highmem =>
      rw [h.highmem, stop]
      simp only
      rw [sub64_of_le (by omega) (by omega)]
      omega

theorem stop_le (h : BootZones zones normalTop maxPhysmem) (z : ZoneId) :
    stop normalTop maxPhysmem z < 2 ^ 43 := by
  have := h.le_normalTop
  have := h.le_maxPhysmem
  have := h.maxPhysmem_lt
  cases z with
  | dma => simp [stop]
  | normal => rw [stop]; omega
  | highmem => rw [stop]; omega

theorem holds_iff (h : BootZones zones normalTop maxPhysmem) {z : ZoneId} {p : ℕ} :
    (zones z).Holds p ↔ (zones z).base ≤ p ∧ p < stop normalTop maxPhysmem z := by
  have := h.stop_le z
  rw [Zone.Holds, h.base_add_size, wrap64_of_lt (by omega)]

/-- No frame is in two zones. -/
theorem holds_unique (h : BootZones zones normalTop maxPhysmem) {z z' : ZoneId} {p : ℕ}
    (hz : (zones z).Holds p) (hz' : (zones z').Holds p) : z = z' := by
  rw [h.holds_iff] at hz hz'
  have := h.le_normalTop
  have := h.le_maxPhysmem
  cases z <;> cases z' <;> simp only [h.dma, h.normal, h.highmem, stop] at hz hz' <;>
    first | rfl | omega

/-- Every frame below the end of the last region is in a zone. -/
theorem exists_holds (h : BootZones zones normalTop maxPhysmem) {p : ℕ} (hp : p < maxPhysmem) :
    ∃ z, (zones z).Holds p := by
  rcases Nat.lt_or_ge p 0x1000000 with hlt | hge
  · exact ⟨.dma, h.holds_iff.2 (by simp only [h.dma, stop]; omega)⟩
  · rcases Nat.lt_or_ge p normalTop with hlt | hge'
    · exact ⟨.normal, h.holds_iff.2 (by simp only [h.normal, stop]; omega)⟩
    · exact ⟨.highmem, h.holds_iff.2 (by simp only [h.highmem, stop]; omega)⟩

theorem pageSize_eq (h : BootZones zones normalTop maxPhysmem) (z : ZoneId) :
    (zones z).pageSize = Arch.pageSize := by
  cases z with
  | dma => rw [h.dma]
  | normal => rw [h.normal]
  | highmem => rw [h.highmem]

theorem dvd_base (h : BootZones zones normalTop maxPhysmem) (z : ZoneId) :
    Arch.pageSize ∣ (zones z).base := by
  cases z with
  | dma => rw [h.dma]; exact dvd_zero _
  | normal => rw [h.normal]; exact pageSize_dvd_dmaStop
  | highmem => rw [h.highmem]; exact h.normalTop_dvd

theorem dvd_stop (h : BootZones zones normalTop maxPhysmem) (z : ZoneId) :
    Arch.pageSize ∣ stop normalTop maxPhysmem z := by
  cases z with
  | dma => exact pageSize_dvd_dmaStop
  | normal => exact h.normalTop_dvd
  | highmem => exact h.maxPhysmem_dvd

theorem pageCount_eq (h : BootZones zones normalTop maxPhysmem) (z : ZoneId) :
    (zones z).pageCount = (stop normalTop maxPhysmem z - (zones z).base) / Arch.pageSize ∧
      (zones z).pageCount < 2 ^ 31 := by
  have hsize : (zones z).size = stop normalTop maxPhysmem z - (zones z).base := by
    have := h.base_add_size z
    omega
  have hlt : (zones z).size / Arch.pageSize < 2 ^ 31 := by
    have := h.stop_le z
    rw [hsize, Arch.pageSize]
    omega
  rw [Zone.pageCount, h.pageSize_eq, wrap32_of_lt (by omega), ← hsize]
  exact ⟨rfl, hlt⟩

/-- A frame of a zone is the page of its allocator with this index. -/
theorem holds_index (h : BootZones zones normalTop maxPhysmem) {z : ZoneId} {p : ℕ}
    (hp : Arch.pageSize ∣ p) (hz : (zones z).Holds p) :
    ∃ i < (zones z).pageCount, p = (zones z).base + Arch.pageSize * i := by
  obtain ⟨hbase, hstop⟩ := h.holds_iff.1 hz
  obtain ⟨a, rfl⟩ := hp
  obtain ⟨b, hb⟩ := h.dvd_base z
  obtain ⟨c, hc⟩ := h.dvd_stop z
  rw [(h.pageCount_eq z).1]
  simp only [Arch.pageSize] at *
  exact ⟨a - b, by omega, by omega⟩

/-- And conversely. -/
theorem holds_of_index (h : BootZones zones normalTop maxPhysmem) {z : ZoneId} {i : ℕ}
    (hi : i < (zones z).pageCount) : (zones z).Holds ((zones z).base + Arch.pageSize * i) := by
  rw [(h.pageCount_eq z).1] at hi
  rw [h.holds_iff]
  simp only [Arch.pageSize] at *
  omega

end BootZones

/-! ### The run -/

/-- The allocators of the zones, built over them and not used yet. -/
theorem initAllocators_spec {zones : ZoneId → Zone} {normalTop maxPhysmem : ℕ}
    (h : BootZones zones normalTop maxPhysmem) {valloc : ZoneId → ℕ → ℕ}
    (hvalloc : ∀ z, valloc z (wrap32 (BuddyPmalloc.sizeofBuddyPage * (zones z).pageCount)) ≠ 0) :
    ∃ alloc, initAllocators valloc zones = .ok alloc ∧
      ∀ z, (alloc z).Models (Pool.allUsed (zones z).pageCount (Nat.log 2 (zones z).pageCount)) ∧
        (alloc z).base = (zones z).base ∧ (alloc z).pageSize = Arch.pageSize := by
  have hctor := fun z => BuddyPmalloc.ctor_spec (valloc z) (zones z).base (zones z).pageSize
    (h.pageCount_eq z).2 (hvalloc z)
  obtain ⟨dma, hdma, hdma'⟩ := hctor .dma
  obtain ⟨normal, hnormal, hnormal'⟩ := hctor .normal
  obtain ⟨highmem, hhighmem, hhighmem'⟩ := hctor .highmem
  rw [initAllocators, hdma, ok_bind, hnormal, ok_bind, hhighmem, ok_bind]
  refine ⟨_, rfl, fun z => ?_⟩
  rw [← h.pageSize_eq z]
  cases z with
  | dma => exact hdma'
  | normal => exact hnormal'
  | highmem => exact hhighmem'

/-- The state of the allocators after some calls of `free`: the free pages are those freed, and
the blocks in use are single pages. -/
structure Freed (zones : ZoneId → Zone) (done : List (ZoneId × ℕ)) (alloc : ZoneId → BuddyPmalloc) :
    Prop where
  zone : ∀ z, ∃ P : Pool (zones z).pageCount (Nat.log 2 (zones z).pageCount),
    (alloc z).Models P ∧ (∀ B ∈ P.used, B.order = 0) ∧
    (alloc z).base = (zones z).base ∧ (alloc z).pageSize = Arch.pageSize ∧
    ∀ i, i ∈ P.freeCells ↔
      i < (zones z).pageCount ∧ (z, (zones z).base + Arch.pageSize * i) ∈ done
  total : (alloc .dma).freePageCount + (alloc .normal).freePageCount +
    (alloc .highmem).freePageCount = done.length

section Run

variable {zones : ZoneId → Zone} {normalTop maxPhysmem : ℕ}

theorem BootZones.params (h : BootZones zones normalTop maxPhysmem) (z : ZoneId) :
    BuddyPmalloc.Params (zones z).base Arch.pageSize := by
  refine ⟨⟨12, by decide, rfl⟩, h.dvd_base z, ?_⟩
  have := h.base_add_size z
  have := h.stop_le z
  omega

/-- The sum of the counters when one allocator changes. -/
theorem sum_freePageCount_update (alloc : ZoneId → BuddyPmalloc) (z : ZoneId) (b : BuddyPmalloc)
    (hb : b.freePageCount = (alloc z).freePageCount + 1) :
    (Function.update alloc z b .dma).freePageCount +
      (Function.update alloc z b .normal).freePageCount +
      (Function.update alloc z b .highmem).freePageCount =
    (alloc .dma).freePageCount + (alloc .normal).freePageCount +
      (alloc .highmem).freePageCount + 1 := by
  cases z <;> simp [hb] <;> omega

/-- **Freeing a page of its own**: as long as all blocks in use are single pages, a page that is not
free is one of them. -/
theorem free_singlePage {n m : ℕ} {b : BuddyPmalloc} {P : Pool n m} (hP : b.Models P)
    (horder : ∀ B ∈ P.used, B.order = 0) (hparams : BuddyPmalloc.Params b.base b.pageSize) {i : ℕ}
    (hi : i < n) (hnot : i ∉ P.freeCells) :
    ∃ (b' : BuddyPmalloc) (P' : Pool n m), b.free (b.pageAddr i) = .ok b' ∧ b'.Models P' ∧
      BuddyPmalloc.SameSetup b b' ∧ (∀ B ∈ P'.used, B.order = 0) ∧
      (∀ j, j ∈ P'.freeCells ↔ j ∈ P.freeCells ∨ j = i) ∧
      b'.freePageCount = b.freePageCount + 1 := by
  have hX : (⟨i, 0⟩ : Block) ∈ P.used := by
    obtain ⟨B, hB, hpB⟩ := mem_cellsOf.1 ((P.used_or_free hi).resolve_right hnot)
    have hB0 := horder B hB
    rw [Block.mem_cells, hB0] at hpB
    have : B = ⟨i, 0⟩ := Block.ext (by simp only; omega) hB0
    exact this ▸ hB
  have hcount := hP.fits.count_lt
  obtain ⟨b', P', hrun, hrel⟩ := BuddyPmalloc.free_spec hP hX
    (BuddyPmalloc.dvd_pageAddr hparams i)
    (BuddyPmalloc.pageIndex_pageAddr hparams.widths (by omega))
  refine ⟨b', P', hrun, hrel.models, hrel.setup, ?_, fun j => ?_, ?_⟩
  · rw [hrel.used_eq]
    exact fun B hB => horder B (Finset.mem_of_mem_erase hB)
  · rw [Pool.freeCells_of_erase hX hrel.used_eq, Finset.mem_union, Block.mem_cells, pow_zero]
    refine or_congr_right ?_
    simp only
    omega
  · rw [hrel.models.free_count, hP.free_count, Pool.card_freeCells_of_erase hX hrel.used_eq,
      pow_zero]

/-- **One call**: a frame of a zone that has not been freed is in use and can be. -/
theorem Freed.freeCall (h : BootZones zones normalTop maxPhysmem) {done : List (ZoneId × ℕ)}
    {alloc : ZoneId → BuddyPmalloc} (hd : Freed zones done alloc) {z : ZoneId} {p : ℕ}
    (hp : Arch.pageSize ∣ p) (hz : (zones z).Holds p) (hnew : (z, p) ∉ done) :
    ∃ alloc', Aim.freeCall alloc (z, p) = .ok alloc' ∧ Freed zones (done ++ [(z, p)]) alloc' := by
  obtain ⟨P, hP, horder, hbase, hsize, hfree⟩ := hd.zone z
  obtain ⟨i, hi, rfl⟩ := h.holds_index hp hz
  have hparams : BuddyPmalloc.Params (alloc z).base (alloc z).pageSize := by
    rw [hbase, hsize]
    exact h.params z
  have haddr : (alloc z).pageAddr i = (zones z).base + Arch.pageSize * i := by
    have := (h.holds_iff.1 hz).2
    have := h.stop_le z
    rw [BuddyPmalloc.pageAddr, hbase, hsize, wrap64_of_lt (by omega)]
  obtain ⟨b, P', hrun, hmodels, hsetup, horder', hcells, hcount⟩ :=
    free_singlePage hP horder hparams hi fun hmem => hnew ((hfree i).1 hmem).2
  rw [haddr] at hrun
  refine ⟨Function.update alloc z b, by rw [Aim.freeCall, hrun]; rfl, ?_, ?_⟩
  · intro z'
    by_cases hzz : z' = z
    · subst hzz
      rw [Function.update_self]
      refine ⟨P', hmodels, horder', hsetup.base.trans hbase, hsetup.pageSize.trans hsize,
        fun j => ?_⟩
      rw [hcells, hfree, List.mem_append, List.mem_singleton]
      simp only [Prod.mk.injEq, true_and, Arch.pageSize]
      constructor
      · rintro (⟨hj, hmem⟩ | rfl)
        · exact ⟨hj, .inl hmem⟩
        · exact ⟨hi, .inr rfl⟩
      · rintro ⟨hj, hmem | hmem⟩
        · exact .inl ⟨hj, hmem⟩
        · exact .inr (by omega)
    · rw [Function.update_of_ne hzz]
      obtain ⟨Q, hQ, hQorder, hQbase, hQsize, hQfree⟩ := hd.zone z'
      refine ⟨Q, hQ, hQorder, hQbase, hQsize, fun j => ?_⟩
      rw [hQfree, List.mem_append, List.mem_singleton, Prod.mk.injEq]
      simp [hzz]
  · rw [sum_freePageCount_update alloc z b hcount, hd.total, List.length_append,
      List.length_singleton]

/-- **All the calls succeed.** -/
theorem Freed.foldlM (h : BootZones zones normalTop maxPhysmem) {calls : List (ZoneId × ℕ)}
    (hcalls : ∀ z p, (z, p) ∈ calls → Arch.pageSize ∣ p ∧ (zones z).Holds p)
    (hnodup : calls.Nodup) {alloc : ZoneId → BuddyPmalloc} (h₀ : Freed zones [] alloc) :
    ∃ alloc', calls.foldlM Aim.freeCall alloc = .ok alloc' ∧ Freed zones calls alloc' := by
  have hstep : ∀ (c : ZoneId × ℕ) (rest : List (ZoneId × ℕ)) (alloc : ZoneId → BuddyPmalloc),
      (∃ done, done ++ c :: rest = calls ∧ Freed zones done alloc) →
      ∃ alloc', Aim.freeCall alloc c = .ok alloc' ∧
        ∃ done, done ++ rest = calls ∧ Freed zones done alloc' := by
    rintro ⟨z, p⟩ rest alloc ⟨done, hdone, hd⟩
    have hmem : (z, p) ∈ calls := by simp [← hdone]
    have hnew : (z, p) ∉ done := by
      rw [← hdone, List.nodup_append] at hnodup
      exact fun hold => hnodup.2.2 _ hold _ List.mem_cons_self rfl
    obtain ⟨hp, hz⟩ := hcalls z p hmem
    obtain ⟨alloc', hrun, hd'⟩ := hd.freeCall h hp hz hnew
    exact ⟨alloc', hrun, done ++ [(z, p)], by rw [← hdone, List.append_assoc]; rfl, hd'⟩
  obtain ⟨alloc', hrun, done, hdone, hfreed⟩ := foldlM_total
    (fun rest alloc => ∃ done, done ++ rest = calls ∧ Freed zones done alloc) hstep calls alloc
    ⟨[], rfl, h₀⟩
  rw [List.append_nil] at hdone
  exact ⟨alloc', hrun, hdone ▸ hfreed⟩

/-- Before the first call every page is in use. -/
theorem freed_nil {alloc : ZoneId → BuddyPmalloc}
    (h : ∀ z, (alloc z).Models
        (Pool.allUsed (zones z).pageCount (Nat.log 2 (zones z).pageCount)) ∧
      (alloc z).base = (zones z).base ∧ (alloc z).pageSize = Arch.pageSize) :
    Freed zones [] alloc := by
  have hempty : ∀ n m : ℕ, (Pool.allUsed n m).freeCells = ∅ := fun n m => rfl
  refine ⟨fun z => ?_, ?_⟩
  · obtain ⟨hmodels, hbase, hsize⟩ := h z
    refine ⟨_, hmodels, ?_, hbase, hsize, fun i => by simp [hempty]⟩
    intro B hB
    obtain ⟨i, -, rfl⟩ := Finset.mem_image.1 hB
    rfl
  · simp [(h _).1.free_count, hempty]

end Run

end Aim
