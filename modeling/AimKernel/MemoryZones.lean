/-
**The physical memory zones of the i386 port.**

`arch_init_pmm_zone` cuts physical memory into a DMA zone, the zone covered by the direct map and
a high zone, from the memory map the bootloader left behind.  `vmm_bootstrap` then builds a buddy
allocator for each zone, all of whose pages start out in use, and `arch_init_free_pmm_zone` gives
the usable pages back, one by one.

Main definitions:

* `Aim.MachineMemoryMap`, `Aim.Zone`, `Aim.ZoneId` — the memory map, and the zones;
* `Aim.archInitPmmZone` — `arch_init_pmm_zone`;
* `Aim.initAllocators` — the loop of `vmm_bootstrap` that builds the allocators;
* `Aim.tryFreePage`, `Aim.archInitFreePmmZone` — the functions that free the usable pages.

Main results:

* `Aim.archInitPmmZone_spec` — the zones are adjacent intervals of whole pages.
-/

import AimKernel.BuddyRun

set_option relaxedAutoImplicit false
set_option autoImplicit false

namespace Aim

/-! ### Constants -/

namespace Arch

/-- `PAGE_SIZE`. -/
def pageSize : ℕ := 4096

/-- `KOFFSET`, the offset of the direct map. -/
def koffset : ℕ := 0x80000000

/-- `KTOP`, the end of the direct map. -/
def ktop : ℕ := 0xFE000000

end Arch

/-! ### Memory maps and zones -/

/-- `struct machine_memory_map`; the fields are 64-bit numbers. -/
structure MachineMemoryMap where
  base : ℕ
  size : ℕ
  /-- Type 1 is usable memory. -/
  type : ℕ
deriving DecidableEq, Repr

/-- `r->base + r->size`. -/
def MachineMemoryMap.stop (r : MachineMemoryMap) : ℕ := wrap64 (r.base + r.size)

/-- `struct zone`, less its allocator. -/
structure Zone where
  base : ℕ
  size : ℕ
  pageSize : ℕ
deriving DecidableEq, Repr

/-- The indices of `pmm_zone[]`. -/
inductive ZoneId
  | dma
  | normal
  | highmem
deriving DecidableEq, Repr

/-- The zones in the order of `pmm_zone[]`. -/
def ZoneId.all : List ZoneId := [.dma, .normal, .highmem]

/-- The loop of `arch_init_pmm_zone` over the memory map: the end of the usable region that holds
the kernel, and the end of the last region. -/
def queryZones (map : List MachineMemoryMap) (kernStartLow kernEndLow : ℕ) : ℕ × ℕ :=
  map.foldl (fun (normalTop, maxPhysmem) r =>
    (if r.type = 1 ∧ r.base ≤ kernStartLow ∧ r.stop ≥ kernEndLow then r.stop else normalTop,
      max maxPhysmem r.stop)) (0, 0)

/-- `arch_init_pmm_zone`. -/
def archInitPmmZone (map : List MachineMemoryMap) (kernStartLow kernEndLow : ℕ) :
    Outcome (ZoneId → Zone) := do
  let (normalTop, maxPhysmem) := queryZones map kernStartLow kernEndLow
  let normalTop := min normalTop (Arch.ktop - Arch.koffset)
  let normalTop := roundDown normalTop Arch.pageSize
  let maxPhysmem := roundDown maxPhysmem Arch.pageSize
  assert (isAligned 64 normalTop Arch.pageSize) "IS_ALIGNED(normal_top, PAGE_SIZE)"
  assert (isAligned 64 maxPhysmem Arch.pageSize) "IS_ALIGNED(max_physmem, PAGE_SIZE)"
  assert (maxPhysmem ≥ normalTop) "max_physmem >= normal_top"
  return fun
    | .dma => { base := 0, size := 0x1000000, pageSize := Arch.pageSize }
    | .normal => { base := 0x1000000, size := sub64 normalTop 0x1000000, pageSize := Arch.pageSize }
    | .highmem =>
        { base := normalTop, size := sub64 maxPhysmem normalTop, pageSize := Arch.pageSize }

/-- The page count that `vmm_bootstrap` passes to the constructor: a `size_t`. -/
def Zone.pageCount (z : Zone) : ℕ := wrap32 (z.size / z.pageSize)

/-- The loop of `vmm_bootstrap` that builds an allocator for each zone; `valloc` gives the answers
of the bootstrap allocator to the three constructors. -/
def initAllocators (valloc : ZoneId → ℕ → ℕ) (zones : ZoneId → Zone) :
    Outcome (ZoneId → BuddyPmalloc) := do
  let dma ← BuddyPmalloc.ctor (valloc .dma) (zones .dma).base (zones .dma).pageSize
    (zones .dma).pageCount
  let normal ← BuddyPmalloc.ctor (valloc .normal) (zones .normal).base (zones .normal).pageSize
    (zones .normal).pageCount
  let highmem ← BuddyPmalloc.ctor (valloc .highmem) (zones .highmem).base
    (zones .highmem).pageSize (zones .highmem).pageCount
  return fun
    | .dma => dma
    | .normal => normal
    | .highmem => highmem

/-! ### Freeing the usable pages -/

/-- `try_free_page`. -/
def tryFreePage (zones : ZoneId → Zone) (page : ℕ) (alloc : ZoneId → BuddyPmalloc)
    (zone : ZoneId) : Outcome (ZoneId → BuddyPmalloc) :=
  if (zones zone).base ≤ page ∧ page < wrap64 ((zones zone).base + (zones zone).size) then do
    let b ← (alloc zone).free page
    return Function.update alloc zone b
  else
    return alloc

/-- The values of `page` in `for (page = st; page < ed; page += PAGE_SIZE)`, for a region rounded
to whole pages. -/
def MachineMemoryMap.pageRange (r : MachineMemoryMap) : List ℕ :=
  let st := roundUp 64 r.base Arch.pageSize
  let ed := roundDown r.stop Arch.pageSize
  List.range' st ((ed - st) / Arch.pageSize) Arch.pageSize

/-- `arch_init_free_pmm_zone`. -/
def archInitFreePmmZone (map : List MachineMemoryMap) (zones : ZoneId → Zone) (kstart kend : ℕ)
    (alloc : ZoneId → BuddyPmalloc) : Outcome (ZoneId → BuddyPmalloc) :=
  map.foldlM (fun alloc r =>
    if r.type = 1 then
      r.pageRange.foldlM (fun alloc page =>
        if kstart ≤ page ∧ page < kend then
          return alloc
        else
          ZoneId.all.foldlM (tryFreePage zones page) alloc) alloc
    else
      return alloc) alloc

/-! ### The zones -/

section Zones

variable {map : List MachineMemoryMap} {kernStartLow kernEndLow : ℕ}

/-- The DMA zone ends on a page boundary. -/
theorem pageSize_dvd_dmaStop : Arch.pageSize ∣ 0x1000000 := by decide

theorem dvd_roundDown (x d : ℕ) : d ∣ roundDown x d := by
  rw [roundDown_eq]
  exact dvd_mul_left _ _

theorem isAligned_pageSize_iff {x : ℕ} : isAligned 64 x Arch.pageSize = true ↔ Arch.pageSize ∣ x :=
  isAligned_iff (k := 12) (by decide)

theorem roundDown_mono {x y : ℕ} (d : ℕ) (h : x ≤ y) : roundDown x d ≤ roundDown y d := by
  rw [roundDown_eq, roundDown_eq]
  exact Nat.mul_le_mul_right _ (Nat.div_le_div_right h)

theorem roundDown_le (x d : ℕ) : roundDown x d ≤ x := Nat.sub_le _ _

/-- Where the zones begin and end. -/
structure Boundaries (zones : ZoneId → Zone) (normalTop maxPhysmem : ℕ) : Prop where
  dma : zones .dma = ⟨0, 0x1000000, Arch.pageSize⟩
  normal : zones .normal = ⟨0x1000000, sub64 normalTop 0x1000000, Arch.pageSize⟩
  highmem : zones .highmem = ⟨normalTop, sub64 maxPhysmem normalTop, Arch.pageSize⟩
  normalTop_dvd : Arch.pageSize ∣ normalTop
  maxPhysmem_dvd : Arch.pageSize ∣ maxPhysmem
  normalTop_le : normalTop ≤ Arch.ktop - Arch.koffset
  le_maxPhysmem : normalTop ≤ maxPhysmem

/-- The region ends that the loop finds: those of the region with the kernel, if there is one, and
the greatest. -/
theorem queryZones_spec (map : List MachineMemoryMap) (kernStartLow kernEndLow : ℕ) :
    ((∃ r ∈ map, r.type = 1 ∧ r.base ≤ kernStartLow ∧ r.stop ≥ kernEndLow ∧
        (queryZones map kernStartLow kernEndLow).1 = r.stop) ∨
      (queryZones map kernStartLow kernEndLow).1 = 0 ∧
        ¬ ∃ r ∈ map, r.type = 1 ∧ r.base ≤ kernStartLow ∧ r.stop ≥ kernEndLow) ∧
    (∀ r ∈ map, r.stop ≤ (queryZones map kernStartLow kernEndLow).2) ∧
    ((queryZones map kernStartLow kernEndLow).2 = 0 ∨
      ∃ r ∈ map, (queryZones map kernStartLow kernEndLow).2 = r.stop) := by
  induction map using List.reverseRecOn with
  | nil => simp [queryZones]
  | append_singleton map r ih =>
      obtain ⟨htop, hmax, hmax'⟩ := ih
      have hq : queryZones (map ++ [r]) kernStartLow kernEndLow =
          (if r.type = 1 ∧ r.base ≤ kernStartLow ∧ r.stop ≥ kernEndLow then r.stop
            else (queryZones map kernStartLow kernEndLow).1,
            max (queryZones map kernStartLow kernEndLow).2 r.stop) := by
        rw [queryZones, List.foldl_append]
        rfl
      rw [hq]
      refine ⟨?_, ?_, ?_⟩
      · by_cases hr : r.type = 1 ∧ r.base ≤ kernStartLow ∧ r.stop ≥ kernEndLow
        · exact .inl ⟨r, by simp, hr.1, hr.2.1, hr.2.2, by simp [hr]⟩
        · simp only [if_neg hr, List.mem_append, List.mem_singleton]
          rcases htop with ⟨r', hr', htype, hbase, hstop, heq⟩ | ⟨heq, hnone⟩
          · exact .inl ⟨r', .inl hr', htype, hbase, hstop, heq⟩
          · refine .inr ⟨heq, ?_⟩
            rintro ⟨r', hr' | rfl, h⟩
            · exact hnone ⟨r', hr', h⟩
            · exact hr h
      · intro r' hr'
        rcases List.mem_append.1 hr' with hr' | hr'
        · exact (hmax r' hr').trans (le_max_left _ _)
        · rw [List.mem_singleton.1 hr']
          exact le_max_right _ _
      · rcases le_total (queryZones map kernStartLow kernEndLow).2 r.stop with hle | hle
        · exact .inr ⟨r, by simp, max_eq_right hle⟩
        · rw [max_eq_left hle]
          exact hmax'.imp_right fun ⟨r', hr', h⟩ => ⟨r', List.mem_append_left _ hr', h⟩

/-- **The zones are adjacent intervals of whole pages**, and no assertion of `arch_init_pmm_zone`
fires. -/
theorem archInitPmmZone_spec (map : List MachineMemoryMap) (kernStartLow kernEndLow : ℕ) :
    ∃ zones, archInitPmmZone map kernStartLow kernEndLow = .ok zones ∧
      Boundaries zones
        (roundDown (min (queryZones map kernStartLow kernEndLow).1 (Arch.ktop - Arch.koffset))
          Arch.pageSize)
        (roundDown (queryZones map kernStartLow kernEndLow).2 Arch.pageSize) := by
  have hle : (queryZones map kernStartLow kernEndLow).1 ≤
      (queryZones map kernStartLow kernEndLow).2 := by
    obtain ⟨htop, hmax, -⟩ := queryZones_spec map kernStartLow kernEndLow
    rcases htop with ⟨r, hr, -, -, -, heq⟩ | ⟨heq, -⟩
    · rw [heq]
      exact hmax r hr
    · rw [heq]
      exact Nat.zero_le _
  have hmono := roundDown_mono Arch.pageSize
    ((min_le_left _ (Arch.ktop - Arch.koffset)).trans hle)
  rw [archInitPmmZone]
  simp only
  rw [assert_bind (isAligned_pageSize_iff.2 (dvd_roundDown _ _)),
    assert_bind (isAligned_pageSize_iff.2 (dvd_roundDown _ _)), assert_bind hmono]
  exact ⟨_, rfl, rfl, rfl, rfl, dvd_roundDown _ _, dvd_roundDown _ _,
    (roundDown_le _ _).trans (min_le_right _ _), hmono⟩

theorem boundaries_of_archInitPmmZone {zones : ZoneId → Zone}
    (h : archInitPmmZone map kernStartLow kernEndLow = .ok zones) :
    ∃ normalTop maxPhysmem, Boundaries zones normalTop maxPhysmem := by
  obtain ⟨zones', hrun, hb⟩ := archInitPmmZone_spec map kernStartLow kernEndLow
  obtain rfl : zones = zones' := Except.ok.inj (h.symm.trans hrun)
  exact ⟨_, _, hb⟩

end Zones

end Aim
