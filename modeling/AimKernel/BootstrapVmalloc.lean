/-
**The bootstrap allocator.**

Before there are zones, `vmm_bootstrap` takes memory from the end of the kernel, a page boundary at a
time, and builds a buddy allocator for each zone in it.  How much there is has been worked out by
`copy_memory_map` before paging was on.  Sizes, addresses and the limit are 32-bit numbers, memory
maps have 64-bit numbers.  What is handed out is filled with junk first, so that it must be mapped;
the junk itself is not modelled, as nothing reads it.

Main definitions:

* `Aim.copyMemoryMap` — the part of `copy_memory_map` that sets `size_after_kernel`;
* `Aim.BootstrapVmalloc` — `bootstrap.c`;
* `Aim.bootZones` — the loop of `vmm_bootstrap`, with the memory it was given;
* `Aim.WindowInside`, `Aim.BootsWell` — what both should do.

Main results:

* `Aim.window_inside_iff` — **when the window behind the kernel is mapped**;
* `Aim.boots_well_iff` — **when the allocators of all zones get memory of their own.**
-/

import AimKernel.MemoryZones

set_option relaxedAutoImplicit false
set_option autoImplicit false

namespace Aim

/-! ### The memory map -/

/-- `MAX_MACHINE_MEMORY_MAP`. -/
def Arch.maxMachineMemoryMap : ℕ := 20

/-- What the bootloader leaves at `0x10000`. -/
structure BootMemoryMap where
  sign : String
  regions : List MachineMemoryMap

/-- The test for the usable region with the kernel. -/
def MachineMemoryMap.HoldsKernel (r : MachineMemoryMap) (kernStartLow kernEndLow : ℕ) : Prop :=
  r.type = 1 ∧ r.base ≤ kernStartLow ∧ r.stop ≥ kernEndLow

instance (r : MachineMemoryMap) (kernStartLow kernEndLow : ℕ) :
    Decidable (r.HoldsKernel kernStartLow kernEndLow) :=
  inferInstanceAs (Decidable (_ ∧ _ ∧ _))

/-- The loop of `copy_memory_map` that finds the memory behind the kernel: `freemem` is a `size_t`. -/
def freeAfterKernel (map : List MachineMemoryMap) (kernStartLow kernEndLow : ℕ) : ℕ :=
  map.foldl (fun freemem r =>
    if r.HoldsKernel kernStartLow kernEndLow then wrap32 (sub64 r.stop kernEndLow) else freemem) 0

/-- `copy_memory_map`: `mach_mem_map` and `size_after_kernel`. -/
def copyMemoryMap (m : BootMemoryMap) (kernStartLow kernEndLow : ℕ) :
    Outcome (List MachineMemoryMap × ℕ) :=
  if m.sign ≠ "_AIM_MEMORY_MAP" then
    .error (.panic "no memory map at 0x10000!")
  else if m.regions.length > Arch.maxMachineMemoryMap then
    .error (.panic "too many memory regions!")
  else
    let freemem :=
      min (Arch.ktop - Arch.koffset) (freeAfterKernel m.regions kernStartLow kernEndLow)
    if freemem = 0 then
      .error (.panic "no free memory after kernel!")
    else
      .ok (m.regions, freemem)

/-- The last usable region with the kernel. -/
def kernelRegion (map : List MachineMemoryMap) (kernStartLow kernEndLow : ℕ) :
    Option MachineMemoryMap :=
  (map.filter fun r => r.HoldsKernel kernStartLow kernEndLow).getLast?

/-- All bytes of an interval of physical memory are in a region. -/
def MachineMemoryMap.Contains (r : MachineMemoryMap) (start stop : ℕ) : Prop :=
  r.base ≤ start ∧ stop ≤ r.base + r.size

/-- **Where the window behind the kernel should be**: below `KTOP`, with its physical image in the
usable region that contains the kernel. -/
structure WindowInside (map : List MachineMemoryMap) (kernStartLow kernEndLow size : ℕ) : Prop where
  mapped : kernEndLow + Arch.koffset + size ≤ Arch.ktop
  usable : ∃ r ∈ map, r.type = 1 ∧ r.Contains kernStartLow kernEndLow ∧
    r.Contains kernEndLow (kernEndLow + size)

section Window

variable {m : BootMemoryMap} {map : List MachineMemoryMap} {kernStartLow kernEndLow size : ℕ}

theorem kernelRegion_append (map : List MachineMemoryMap) (r : MachineMemoryMap)
    (kernStartLow kernEndLow : ℕ) : kernelRegion (map ++ [r]) kernStartLow kernEndLow =
      if r.HoldsKernel kernStartLow kernEndLow then some r
      else kernelRegion map kernStartLow kernEndLow := by
  rw [kernelRegion, kernelRegion, List.filter_append]
  by_cases hr : r.HoldsKernel kernStartLow kernEndLow <;> simp [hr]

/-- The loop stops with the last of these regions. -/
theorem freeAfterKernel_eq (map : List MachineMemoryMap) (kernStartLow kernEndLow : ℕ) :
    freeAfterKernel map kernStartLow kernEndLow =
      (kernelRegion map kernStartLow kernEndLow).elim 0 fun r =>
        wrap32 (sub64 r.stop kernEndLow) := by
  induction map using List.reverseRecOn with
  | nil => simp [freeAfterKernel, kernelRegion]
  | append_singleton map r ih =>
      rw [freeAfterKernel, List.foldl_append, List.foldl_cons, List.foldl_nil, ← freeAfterKernel,
        kernelRegion_append, ih]
      by_cases hr : r.HoldsKernel kernStartLow kernEndLow
      · rw [if_pos hr, if_pos hr, Option.elim_some]
      · rw [if_neg hr, if_neg hr]

/-- What `copy_memory_map` has found when it does not panic. -/
theorem copyMemoryMap_eq_ok (h : copyMemoryMap m kernStartLow kernEndLow = .ok (map, size)) :
    map = m.regions ∧ 0 < size ∧
      ∃ r, kernelRegion map kernStartLow kernEndLow = some r ∧
        size = min (Arch.ktop - Arch.koffset) (wrap32 (r.stop - kernEndLow)) ∧
        r ∈ map ∧ r.HoldsKernel kernStartLow kernEndLow := by
  unfold copyMemoryMap at h
  split at h
  · cases h
  split at h
  · cases h
  simp only at h
  split at h
  · cases h
  · next hpos =>
      obtain ⟨rfl, rfl⟩ := Prod.mk.inj (Except.ok.inj h)
      refine ⟨rfl, Nat.pos_of_ne_zero hpos, ?_⟩
      rw [freeAfterKernel_eq] at hpos ⊢
      cases hr : kernelRegion m.regions kernStartLow kernEndLow with
      | none => simp [hr] at hpos
      | some r =>
          have hmem := List.mem_of_getLast? hr
          obtain ⟨hin, hholds⟩ := List.mem_filter.1 hmem
          have hholds := of_decide_eq_true hholds
          have hstop : r.stop < 2 ^ 64 := Nat.mod_lt _ (by decide)
          refine ⟨r, rfl, ?_, hin, hholds⟩
          rw [Option.elim_some, sub64_of_le hholds.2.2 hstop]

/-- **When the window behind the kernel is mapped.**  Its physical image is always usable. -/
theorem window_inside_iff (hkern : kernStartLow ≤ kernEndLow)
    (h : copyMemoryMap m kernStartLow kernEndLow = .ok (map, size)) :
    WindowInside map kernStartLow kernEndLow size ↔ kernEndLow = 0 ∨
      ∃ r, kernelRegion map kernStartLow kernEndLow = some r ∧
        kernEndLow + (r.stop - kernEndLow) % 2 ^ 32 ≤ Arch.ktop - Arch.koffset := by
  obtain ⟨-, hpos, r, hr, hsize, hin, htype, hbase, hstop⟩ := copyMemoryMap_eq_ok h
  rw [wrap32] at hsize
  simp only [Arch.ktop, Arch.koffset] at hsize ⊢
  constructor
  · intro hinside
    have hmapped := hinside.mapped
    simp only [Arch.ktop, Arch.koffset] at hmapped
    rcases Nat.eq_zero_or_pos kernEndLow with hzero | hend
    · exact Or.inl hzero
    · exact Or.inr ⟨r, hr, by omega⟩
  · intro hcond
    have hle : r.stop ≤ r.base + r.size := Nat.mod_le _ _
    refine ⟨?_, r, hin, htype, ⟨hbase, hstop.trans hle⟩, hbase.trans hkern, by omega⟩
    simp only [Arch.ktop, Arch.koffset]
    rcases hcond with hzero | ⟨r', hr', hlow⟩
    · omega
    · obtain rfl := Option.some.inj (hr.symm.trans hr')
      omega

end Window

/-- A kernel at 1 MB in 128 MB of memory. -/
theorem window_inside_iff_128MB : ∃ size,
    copyMemoryMap ⟨"_AIM_MEMORY_MAP", [⟨0x100000, 0x7F00000, 1⟩]⟩ 0x100000 0x200000 =
      .ok ([⟨0x100000, 0x7F00000, 1⟩], size) ∧
    (WindowInside [⟨0x100000, 0x7F00000, 1⟩] 0x100000 0x200000 size ↔ 0x200000 = 0 ∨
      ∃ r, kernelRegion [⟨0x100000, 0x7F00000, 1⟩] 0x100000 0x200000 = some r ∧
        0x200000 + (r.stop - 0x200000) % 2 ^ 32 ≤ Arch.ktop - Arch.koffset) := by
  have hrun : copyMemoryMap ⟨"_AIM_MEMORY_MAP", [⟨0x100000, 0x7F00000, 1⟩]⟩ 0x100000 0x200000 =
      .ok ([⟨0x100000, 0x7F00000, 1⟩], 0x7E00000) := by decide +kernel
  exact ⟨0x7E00000, hrun, window_inside_iff (by decide) hrun⟩

/-- With 2 GB of memory the window ends 2 MB above `KTOP`. -/
theorem not_window_inside_2GB : ∃ size,
    copyMemoryMap ⟨"_AIM_MEMORY_MAP", [⟨0x100000, 0x7FF00000, 1⟩]⟩ 0x100000 0x200000 =
      .ok ([⟨0x100000, 0x7FF00000, 1⟩], size) ∧
    ¬ WindowInside [⟨0x100000, 0x7FF00000, 1⟩] 0x100000 0x200000 size := by
  refine ⟨0x7DE00000 + 0x200000, by decide +kernel, fun hinside => ?_⟩
  exact absurd hinside.mapped (by decide)

/-! ### The allocator -/

/-- The bytes from `start` on are mapped: memory is there twice, from address 0 and from `KOFFSET`
on. -/
def BootMapped (start size : ℕ) : Prop :=
  ∀ a, start ≤ a → a < start + size →
    a < Arch.ktop - Arch.koffset ∨ (Arch.koffset ≤ a ∧ a < Arch.ktop)

theorem bootMapped_iff {start size : ℕ} : BootMapped start size ↔ size = 0 ∨
    start + size ≤ Arch.ktop - Arch.koffset ∨
      (Arch.koffset ≤ start ∧ start + size ≤ Arch.ktop) := by
  simp only [BootMapped, Arch.ktop, Arch.koffset]
  constructor
  · intro h
    by_contra hnot
    have hfirst := h start le_rfl (by omega)
    have hlast := h (start + size - 1) (by omega) (by omega)
    -- a range that starts in the lower copy and ends in the higher one has the gap in it
    have hgap := h 0x7E000000
    omega
  · intro h a hlow hhigh
    omega

instance (start size : ℕ) : Decidable (BootMapped start size) :=
  decidable_of_iff _ bootMapped_iff.symm

/-- `memset(ret, 0xCD, size)`. -/
def fillNew (ret size : ℕ) : Outcome Unit :=
  if BootMapped ret size then .ok () else .error .pageFault

/-- `struct bootstrap_vmalloc`: addresses have 32 bits. -/
structure BootstrapVmalloc where
  base : ℕ
  cur : ℕ
  limit : ℕ

namespace BootstrapVmalloc

/-- `bootstrap_vmalloc__ctor(base, max_size)`. -/
def ctor (base maxSize : ℕ) : BootstrapVmalloc where
  base := base
  cur := base
  limit := wrap32 (base + maxSize)

/-- `bootstrap_vmalloc__malloc(size)`, zero being `NULL`. -/
def malloc (v : BootstrapVmalloc) (size : ℕ) : Outcome (ℕ × BootstrapVmalloc) :=
  -- `cur` is rounded up even if there is no room
  let v := { v with cur := roundUp 32 v.cur Arch.pageSize }
  if wrap32 (v.cur + size) > v.limit then .ok (0, v)
  else do
    fillNew v.cur size
    return (v.cur, { v with cur := wrap32 (v.cur + size) })

/-- `bootstrap_vmalloc__area()`. -/
def area (v : BootstrapVmalloc) : ℕ := sub32 v.cur v.base

section Malloc

variable {v : BootstrapVmalloc} {p size : ℕ} (hround : roundUp 32 v.cur Arch.pageSize = p)

include hround

theorem malloc_refused (h : wrap32 (p + size) > v.limit) :
    v.malloc size = .ok (0, { v with cur := p }) := by
  rw [malloc, hround]
  exact if_pos h

theorem malloc_granted (h : ¬ wrap32 (p + size) > v.limit) (hmapped : BootMapped p size) :
    v.malloc size = .ok (p, { v with cur := wrap32 (p + size) }) := by
  rw [malloc, hround]
  simp only
  rw [if_neg h, fillNew, if_pos hmapped]
  rfl

theorem malloc_fault (h : ¬ wrap32 (p + size) > v.limit) (hmapped : ¬ BootMapped p size) :
    v.malloc size = .error .pageFault := by
  rw [malloc, hround]
  simp only
  rw [if_neg h, fillNew, if_neg hmapped]
  rfl

end Malloc

end BootstrapVmalloc

/-! ### Booting -/

/-- `sizeof(struct buddy_pmalloc)` on the i386: two pointers, `MAX_BUDDY_ORDER` list heads, a `short`
with padding, a 64-bit base and four `size_t`. -/
def sizeofBuddyPmalloc : ℕ := 4 + 4 + 64 * 8 + 4 + 8 + 4 * 4

/-- Memory that was handed out: where, and for how many bytes. -/
structure Grant where
  start : ℕ
  size : ℕ
deriving DecidableEq, Repr

/-- An address in memory that was handed out. -/
def Grant.Covers (g : Grant) (a : ℕ) : Prop := g.start ≤ a ∧ a < g.start + g.size

/-- The bootstrap allocator, and what it has handed out, the latest first. -/
structure BootState where
  vmalloc : BootstrapVmalloc
  grants : List Grant

/-- Taking note of what was handed out. -/
def BootState.receive (s : BootState) (size : ℕ) :
    Outcome (ℕ × BootstrapVmalloc) → Outcome ℕ × BootState
  | .error e => (.error e, s)
  | .ok (ptr, v) =>
      if ptr = 0 then (.ok 0, ⟨v, s.grants⟩) else (.ok ptr, ⟨v, ⟨ptr, size⟩ :: s.grants⟩)

/-- `malloc` for a structure of `size` bytes in exact arithmetic: `size` is converted to `size_t`. -/
def BootState.request (s : BootState) (size : ℕ) : Outcome ℕ × BootState :=
  s.receive size (s.vmalloc.malloc (wrap32 size))

/-- A fault leaves the state as it is. -/
def andThen {α β : Type} (r : Outcome α × BootState) (f : α → BootState → Outcome β × BootState) :
    Outcome β × BootState :=
  match r with
  | (.error e, s) => (.error e, s)
  | (.ok a, s) => f a s

/-- `buddy_pmalloc__ctor` for a zone.  Its loop over the orders comes before its request. -/
def ctorZone (z : Zone) (s : BootState) : Outcome BuddyPmalloc × BootState :=
  andThen (leastShift fun k => decide (¬ shl1 (k + 1) ≤ z.pageCount), s) fun _ s =>
    andThen (s.request (BuddyPmalloc.sizeofBuddyPage * z.pageCount)) fun ptr s =>
      (BuddyPmalloc.ctor (fun _ => ptr) z.base z.pageSize z.pageCount, s)

/-- The allocator for one zone. -/
def bootZone (z : Zone) (s : BootState) : Outcome BuddyPmalloc × BootState :=
  andThen (s.request sizeofBuddyPmalloc) fun bpa s =>
    if bpa = 0 then (.error (.panic "can't alloc memory for zone %d"), s) else ctorZone z s

/-- The loop of `vmm_bootstrap` over the zones. -/
def bootZones : List Zone → BootState → Outcome (List BuddyPmalloc) × BootState
  | [], s => (.ok [], s)
  | z :: zs, s =>
      andThen (bootZone z s) fun b s => andThen (bootZones zs s) fun bs s => (.ok (b :: bs), s)

/-- The start of `vmm_bootstrap`, up to the allocators of the zones. -/
def vmmBootstrap (zones : ZoneId → Zone) (kernEndLow sizeAfterKernel : ℕ) :
    Outcome (List BuddyPmalloc) × BootState :=
  bootZones (ZoneId.all.map zones)
    ⟨BootstrapVmalloc.ctor (kernEndLow + Arch.koffset) sizeAfterKernel, []⟩

/-- **What the loop should do** with a window of memory: whatever it hands out starts at a page and
is in the window, apart from the rest; it comes back, with every structure handed out and in the
area, or it panics. -/
structure BootsWell (zones : List Zone) (base window : ℕ)
    (run : Outcome (List BuddyPmalloc) × BootState) : Prop where
  aligned : ∀ g ∈ run.2.grants, Arch.pageSize ∣ g.start
  inside : ∀ g ∈ run.2.grants, base ≤ g.start ∧ g.start + g.size ≤ base + window
  apart : run.2.grants.Pairwise fun g h => ∀ a, g.Covers a → ¬ h.Covers a
  ends : ∀ e, run.1 = .error e → ∃ msg, e = .panic msg
  all : ∀ bs, run.1 = .ok bs →
    run.2.grants.reverse.map Grant.size = zones.flatMap (fun z =>
      [sizeofBuddyPmalloc, BuddyPmalloc.sizeofBuddyPage * z.pageCount]) ∧
    ∀ g ∈ run.2.grants, g.start + g.size ≤ base + run.2.vmalloc.area

/-! ### One request -/

/-- The next page boundary. -/
def pageCeil (x : ℕ) : ℕ := (x + Arch.pageSize - 1) / Arch.pageSize * Arch.pageSize

/-- A structure fits below `stop`, at the first page boundary from `cur` on, and below `KTOP`, if it
has any bytes. -/
def FitsBelow (stop cur size : ℕ) : Prop :=
  pageCeil cur + size ≤ stop ∧ (size = 0 ∨ pageCeil cur + size ≤ Arch.ktop)

/-- The end of the structure is above `stop` modulo `2 ^ 32`, or there is no page boundary left, and
what is filled instead, from address 0 on, is mapped. -/
def Refused (stop cur size : ℕ) : Prop :=
  stop < (pageCeil cur + size) % 2 ^ 32 ∨
    (pageCeil cur = 2 ^ 32 ∧ size % 2 ^ 32 ≤ Arch.ktop - Arch.koffset)

/-- Memory handed out in a window. -/
structure Placed (base stop : ℕ) (grants : List Grant) : Prop where
  aligned : ∀ g ∈ grants, Arch.pageSize ∣ g.start
  inside : ∀ g ∈ grants, base ≤ g.start ∧ g.start + g.size ≤ stop
  apart : grants.Pairwise fun g h => ∀ a, g.Covers a → ¬ h.Covers a

/-- What holds between two requests. -/
structure BootInv (base stop : ℕ) (s : BootState) : Prop where
  base_eq : s.vmalloc.base = base
  limit_eq : s.vmalloc.limit = stop
  base_high : Arch.koffset ≤ base
  stop_lt : stop < 2 ^ 32
  base_le : base ≤ s.vmalloc.cur
  cur_le : s.vmalloc.cur ≤ stop
  placed : Placed base s.vmalloc.cur s.grants

section Request

variable {base stop size : ℕ} {s : BootState}

theorem dvd_pageCeil (x : ℕ) : Arch.pageSize ∣ pageCeil x := dvd_mul_left _ _

theorem le_pageCeil (x : ℕ) : x ≤ pageCeil x := by
  simp only [pageCeil, Arch.pageSize]
  omega

theorem pageCeil_le {x : ℕ} (h : x < 2 ^ 32) : pageCeil x ≤ 2 ^ 32 := by
  simp only [pageCeil, Arch.pageSize]
  omega

theorem roundUp_pageSize {x : ℕ} (h : x < 2 ^ 32) :
    roundUp 32 x Arch.pageSize = pageCeil x % 2 ^ 32 := by
  simp only [roundUp, divRoundUp, pageCeil, Arch.pageSize]
  omega

theorem Placed.mono {stop' : ℕ} {grants : List Grant} (h : Placed base stop grants)
    (hle : stop ≤ stop') : Placed base stop' grants where
  aligned := h.aligned
  inside g hg := ⟨(h.inside g hg).1, (h.inside g hg).2.trans hle⟩
  apart := h.apart

theorem BootState.request_fault {e : Fault} (h : s.vmalloc.malloc (wrap32 size) = .error e) :
    s.request size = (.error e, s) := by
  rw [request, h, receive]

theorem BootState.request_null {v : BootstrapVmalloc}
    (h : s.vmalloc.malloc (wrap32 size) = .ok (0, v)) :
    s.request size = (.ok 0, ⟨v, s.grants⟩) := by
  rw [request, h, receive, if_pos rfl]

theorem BootState.request_some {ptr : ℕ} {v : BootstrapVmalloc}
    (h : s.vmalloc.malloc (wrap32 size) = .ok (ptr, v)) (hne : ptr ≠ 0) :
    s.request size = (.ok ptr, ⟨v, ⟨ptr, size⟩ :: s.grants⟩) := by
  rw [request, h, receive, if_neg hne]

/-- Nothing is ever taken back. -/
theorem BootState.grants_request (s : BootState) (size : ℕ) :
    s.grants <:+ (s.request size).2.grants := by
  cases hmalloc : s.vmalloc.malloc (wrap32 size) with
  | error e =>
      rw [request_fault hmalloc]
  | ok answer =>
      obtain ⟨ptr, v⟩ := answer
      by_cases hnull : ptr = 0
      · subst hnull
        rw [request_null hmalloc]
      · rw [request_some hmalloc hnull]
        exact List.suffix_cons _ _

/-- **A structure that fits** is handed out behind all others. -/
theorem BootInv.request_of_fits (h : BootInv base stop s)
    (hfits : FitsBelow stop s.vmalloc.cur size) :
    ∃ s', s.request size = (.ok (pageCeil s.vmalloc.cur), s') ∧ pageCeil s.vmalloc.cur ≠ 0 ∧
      BootInv base stop s' ∧ s'.vmalloc.cur = pageCeil s.vmalloc.cur + size ∧
      s'.grants = ⟨pageCeil s.vmalloc.cur, size⟩ :: s.grants := by
  have hstop := h.stop_lt
  have hhigh := h.base_high
  have hbase := h.base_le
  have hcur := le_pageCeil s.vmalloc.cur
  obtain ⟨hfits, htop⟩ := hfits
  have hmapped : BootMapped (pageCeil s.vmalloc.cur) size := by
    rw [bootMapped_iff]
    exact htop.imp_right fun htop => Or.inr ⟨hhigh.trans (hbase.trans hcur), htop⟩
  simp only [Arch.koffset] at hhigh
  have hround : roundUp 32 s.vmalloc.cur Arch.pageSize = pageCeil s.vmalloc.cur := by
    rw [roundUp_pageSize (h.cur_le.trans_lt hstop), Nat.mod_eq_of_lt (by omega)]
  have hsize : wrap32 size = size := wrap32_of_lt (by omega)
  have hsum : wrap32 (pageCeil s.vmalloc.cur + size) = pageCeil s.vmalloc.cur + size :=
    wrap32_of_lt (by omega)
  have hne : pageCeil s.vmalloc.cur ≠ 0 := by omega
  refine ⟨⟨{ s.vmalloc with cur := pageCeil s.vmalloc.cur + size },
    ⟨pageCeil s.vmalloc.cur, size⟩ :: s.grants⟩, ?_, hne, ?_, rfl, rfl⟩
  · refine BootState.request_some ?_ hne
    rw [hsize, BootstrapVmalloc.malloc_granted hround ?_ hmapped, hsum]
    rw [hsum, h.limit_eq]
    exact not_lt.2 hfits
  · refine ⟨h.base_eq, h.limit_eq, h.base_high, hstop, by simp only; omega, hfits, ?_⟩
    have hold := h.placed.mono (hcur.trans (Nat.le_add_right _ size))
    refine ⟨?_, ?_, List.pairwise_cons.2 ⟨fun g hg a hnew hg' => ?_, hold.apart⟩⟩
    · exact List.forall_mem_cons.2 ⟨dvd_pageCeil _, hold.aligned⟩
    · exact List.forall_mem_cons.2 ⟨⟨hbase.trans hcur, le_rfl⟩, hold.inside⟩
    · -- what was handed out before ends at `cur`
      have hend := (h.placed.inside g hg).2
      have hlow := hnew.1
      have hhigh := hg'.2
      simp only at hlow
      omega

/-- The sum that is compared with the limit. -/
theorem wrap32_pageCeil_add (cur size : ℕ) :
    wrap32 (pageCeil cur % 2 ^ 32 + wrap32 size) = (pageCeil cur + size) % 2 ^ 32 := by
  simp only [wrap32]
  omega

/-- **A structure that is refused** changes no grant. -/
theorem BootInv.request_of_refused (h : BootInv base stop s)
    (hrefused : Refused stop s.vmalloc.cur size) :
    ∃ s', s.request size = (.ok 0, s') ∧ s'.grants = s.grants := by
  have hlt := h.cur_le.trans_lt h.stop_lt
  have hround := roundUp_pageSize hlt
  have hsum := wrap32_pageCeil_add s.vmalloc.cur size
  have hnull : ∃ v, s.vmalloc.malloc (wrap32 size) = .ok (0, v) := by
    by_cases habove : wrap32 (pageCeil s.vmalloc.cur % 2 ^ 32 + wrap32 size) > s.vmalloc.limit
    · exact ⟨_, BootstrapVmalloc.malloc_refused hround habove⟩
    · rcases hrefused with habove' | ⟨htop, hlow⟩
      · refine absurd ?_ habove
        rwa [hsum, h.limit_eq]
      · rw [htop, Nat.mod_self] at hround habove
        refine ⟨_, BootstrapVmalloc.malloc_granted hround habove (bootMapped_iff.2 ?_)⟩
        exact Or.inr (Or.inl (by rwa [Nat.zero_add, wrap32]))
  obtain ⟨v, hv⟩ := hnull
  exact ⟨⟨v, s.grants⟩, BootState.request_null hv, rfl⟩

/-- Boot stops other than by a panic, or memory out of the window is handed out. -/
def Lost {α : Type} (stop : ℕ) (run : Outcome α × BootState) : Prop :=
  (∃ e, run.1 = .error e ∧ ∀ msg, e ≠ .panic msg) ∨ ∃ g ∈ run.2.grants, stop < g.start + g.size

/-- **Any other structure** cannot be filled, or it is handed out and reaches out of the window. -/
theorem BootInv.request_of_not (h : BootInv base stop s)
    (hfits : ¬ FitsBelow stop s.vmalloc.cur size)
    (hrefused : ¬ Refused stop s.vmalloc.cur size) : Lost stop (s.request size) := by
  obtain ⟨hbelow, htop⟩ := not_or.1 hrefused
  have hstop := h.stop_lt
  have hhigh := h.base_high
  have hbase := h.base_le
  have hcur := le_pageCeil s.vmalloc.cur
  have hceil := pageCeil_le (h.cur_le.trans_lt h.stop_lt)
  have hround := roundUp_pageSize (h.cur_le.trans_lt h.stop_lt)
  have hlimit : ¬ wrap32 (pageCeil s.vmalloc.cur % 2 ^ 32 + wrap32 size) > s.vmalloc.limit := by
    rwa [wrap32_pageCeil_add, h.limit_eq]
  by_cases hmapped : BootMapped (pageCeil s.vmalloc.cur % 2 ^ 32) (wrap32 size)
  · -- what was filled is in the higher copy, and less than the structure
    have hrun := BootstrapVmalloc.malloc_granted hround hlimit hmapped
    rw [bootMapped_iff] at hmapped
    simp only [FitsBelow, Arch.ktop, Arch.koffset, wrap32] at hfits htop hhigh hmapped
    have hlow : pageCeil s.vmalloc.cur % 2 ^ 32 = pageCeil s.vmalloc.cur := by omega
    have hne : pageCeil s.vmalloc.cur % 2 ^ 32 ≠ 0 := by omega
    refine Or.inr ⟨⟨pageCeil s.vmalloc.cur % 2 ^ 32, size⟩, ?_, ?_⟩
    · rw [BootState.request_some hrun hne]
      exact List.mem_cons_self
    · show stop < pageCeil s.vmalloc.cur % 2 ^ 32 + size
      omega
  · exact Or.inl ⟨_, congrArg Prod.fst (BootState.request_fault
      (BootstrapVmalloc.malloc_fault hround hlimit hmapped)), fun msg hmsg => by cases hmsg⟩

end Request

/-! ### The zones -/

/-- How the allocator deals with a structure: it fits, and `next` holds behind it, or it is
refused. -/
def Handled (stop cur size : ℕ) (next : ℕ → Prop) : Prop :=
  (FitsBelow stop cur size → next (pageCeil cur + size)) ∧
    (¬ FitsBelow stop cur size → Refused stop cur size)

/-- What a zone must be like: its array is not reached, or it has fewer than `2 ^ 31` pages; and the
first structure that does not fit, in exact arithmetic, is refused. -/
def ManagesZone (stop cur : ℕ) (z : Zone) (next : ℕ → Prop) : Prop :=
  Handled stop cur sizeofBuddyPmalloc fun cur =>
    z.pageCount < 2 ^ 31 ∧ Handled stop cur (BuddyPmalloc.sizeofBuddyPage * z.pageCount) next

/-- **What the zones must be like.** -/
def Manages (stop : ℕ) : ℕ → List Zone → Prop
  | _, [] => True
  | cur, z :: zs => ManagesZone stop cur z fun cur => Manages stop cur zs

section Zones

variable {base stop : ℕ} {s s' : BootState} {z : Zone}

theorem bootZone_refused (h : s.request sizeofBuddyPmalloc = (.ok 0, s')) :
    bootZone z s = (.error (.panic "can't alloc memory for zone %d"), s') := by
  rw [bootZone, h, andThen, if_pos rfl]

theorem bootZone_granted {ptr : ℕ} (h : s.request sizeofBuddyPmalloc = (.ok ptr, s'))
    (hne : ptr ≠ 0) : bootZone z s = ctorZone z s' := by
  rw [bootZone, h, andThen, if_neg hne]

/-- For too many pages the constructor never comes to its request. -/
theorem ctorZone_hang (h : 2 ^ 31 ≤ z.pageCount) : ctorZone z s = (.error .hang, s) := by
  have hloop : leastShift (fun k => decide (¬ shl1 (k + 1) ≤ z.pageCount)) = .error .hang := by
    rw [leastShift_eq_hang]
    intro k _
    rw [decide_eq_false_iff_not, not_not, shl1]
    exact (Nat.pow_le_pow_right (by decide) (by omega)).trans h
  rw [ctorZone, hloop, andThen]

/-- For any other number it does. -/
theorem ctorZone_eq (hcount : z.pageCount < 2 ^ 31) (s : BootState) :
    ctorZone z s = andThen (s.request (BuddyPmalloc.sizeofBuddyPage * z.pageCount)) fun ptr s =>
      (BuddyPmalloc.ctor (fun _ => ptr) z.base z.pageSize z.pageCount, s) := by
  rw [ctorZone, leastShift_lt hcount, andThen]

theorem ctorZone_refused (hcount : z.pageCount < 2 ^ 31)
    (h : s.request (BuddyPmalloc.sizeofBuddyPage * z.pageCount) = (.ok 0, s')) :
    ∃ msg, ctorZone z s = (.error (.panic msg), s') := by
  rw [ctorZone_eq hcount, h, andThen, BuddyPmalloc.ctor, leastShift_lt hcount, ok_bind, if_pos rfl]
  exact ⟨_, rfl⟩

theorem ctorZone_granted {ptr : ℕ} (hcount : z.pageCount < 2 ^ 31)
    (h : s.request (BuddyPmalloc.sizeofBuddyPage * z.pageCount) = (.ok ptr, s')) (hne : ptr ≠ 0) :
    ∃ b, ctorZone z s = (.ok b, s') := by
  obtain ⟨b, hb, -⟩ := BuddyPmalloc.ctor_spec (fun _ => ptr) z.base z.pageSize hcount hne
  rw [ctorZone_eq hcount, h, andThen, hb]
  exact ⟨b, rfl⟩

/-- The request of the constructor ends all that it hands out. -/
theorem ctorZone_snd (hcount : z.pageCount < 2 ^ 31) (s : BootState) :
    (ctorZone z s).2 = (s.request (BuddyPmalloc.sizeofBuddyPage * z.pageCount)).2 := by
  rw [ctorZone_eq hcount]
  rcases s.request (BuddyPmalloc.sizeofBuddyPage * z.pageCount) with ⟨_ | ptr, s'⟩ <;> rfl

/-- What is lost with one request is lost for the rest. -/
theorem Lost.andThen {α β : Type} {r : Outcome α × BootState}
    {f : α → BootState → Outcome β × BootState} (h : Lost stop r)
    (hf : ∀ a s, s.grants <:+ (f a s).2.grants) : Lost stop (andThen r f) := by
  obtain ⟨answer, s'⟩ := r
  cases answer with
  | error e =>
      rcases h with ⟨e', he', hne⟩ | hout
      · cases he'
        exact Or.inl ⟨e, rfl, hne⟩
      · exact Or.inr hout
  | ok a =>
      rcases h with ⟨e', he', -⟩ | ⟨g, hg, hout⟩
      · cases he'
      · exact Or.inr ⟨g, (hf a s').mem hg, hout⟩

theorem grants_ctorZone (z : Zone) (s : BootState) : s.grants <:+ (ctorZone z s).2.grants := by
  rcases le_or_gt (2 ^ 31) z.pageCount with hlarge | hcount
  · rw [ctorZone_hang hlarge]
  · rw [ctorZone_snd hcount]
    exact s.grants_request _

/-- After a zone, too, nothing is taken back. -/
theorem grants_bootZone (z : Zone) (s : BootState) : s.grants <:+ (bootZone z s).2.grants := by
  have hfirst := s.grants_request sizeofBuddyPmalloc
  cases hrun : s.request sizeofBuddyPmalloc with
  | mk answer s' =>
      rw [hrun] at hfirst
      cases answer with
      | error e =>
          rw [bootZone, hrun, Aim.andThen]
          exact hfirst
      | ok ptr =>
          by_cases hnull : ptr = 0
          · subst hnull
            rw [bootZone_refused hrun]
            exact hfirst
          · rw [bootZone_granted hrun hnull]
            exact hfirst.trans (grants_ctorZone z s')

/-- A fault in one zone ends the loop. -/
theorem bootZones_error {e : Fault} {zs : List Zone} (h : bootZone z s = (.error e, s')) :
    bootZones (z :: zs) s = (.error e, s') := by
  rw [bootZones, h]
  rfl

theorem bootZones_ok {b : BuddyPmalloc} {zs : List Zone} (h : bootZone z s = (.ok b, s')) :
    bootZones (z :: zs) s = ((bootZones zs s').1.map (b :: ·), (bootZones zs s').2) := by
  rw [bootZones, h]
  cases hrest : bootZones zs s' with
  | mk answer s'' =>
      cases answer with
      | error e => rw [andThen, hrest]; rfl
      | ok bs => rw [andThen, hrest]; rfl

theorem grants_bootZones : ∀ (zs : List Zone) (s : BootState),
    s.grants <:+ (bootZones zs s).2.grants := by
  intro zs
  induction zs with
  | nil => exact fun s => List.suffix_rfl
  | cons z zs ih =>
      intro s
      have hzone := grants_bootZone z s
      cases hrun : bootZone z s with
      | mk answer s' =>
          rw [hrun] at hzone
          cases answer with
          | error e =>
              rw [bootZones_error hrun]
              exact hzone
          | ok b =>
              rw [bootZones_ok hrun]
              exact hzone.trans (ih s')

theorem handled_of_fits {cur size : ℕ} {next : ℕ → Prop} (h : FitsBelow stop cur size) :
    Handled stop cur size next ↔ next (pageCeil cur + size) :=
  ⟨fun hh => hh.1 h, fun hn => ⟨fun _ => hn, fun hnot => absurd h hnot⟩⟩

theorem handled_of_not_fits {cur size : ℕ} {next : ℕ → Prop} (h : ¬ FitsBelow stop cur size) :
    Handled stop cur size next ↔ Refused stop cur size :=
  ⟨fun hh => hh.2 h, fun hr => ⟨fun hfits => absurd hfits h, fun _ => hr⟩⟩

/-- The constructor for a zone. -/
theorem BootInv.ctorZone_cases (h : BootInv base stop s) (hcount : z.pageCount < 2 ^ 31) :
    (∃ b s', ctorZone z s = (.ok b, s') ∧ BootInv base stop s' ∧
      s'.grants.map Grant.size =
        BuddyPmalloc.sizeofBuddyPage * z.pageCount :: s.grants.map Grant.size ∧
      ∀ next, Handled stop s.vmalloc.cur (BuddyPmalloc.sizeofBuddyPage * z.pageCount) next ↔
        next s'.vmalloc.cur) ∨
    (∃ msg s', ctorZone z s = (.error (.panic msg), s') ∧ s'.grants = s.grants ∧
      ∀ next, Handled stop s.vmalloc.cur (BuddyPmalloc.sizeofBuddyPage * z.pageCount) next) ∨
    (Lost stop (ctorZone z s) ∧
      ∀ next, ¬ Handled stop s.vmalloc.cur (BuddyPmalloc.sizeofBuddyPage * z.pageCount) next) := by
  by_cases hfits : FitsBelow stop s.vmalloc.cur (BuddyPmalloc.sizeofBuddyPage * z.pageCount)
  · left
    obtain ⟨s', hrun, hne, hinv, hcur, hgrants⟩ := h.request_of_fits hfits
    obtain ⟨b, heq⟩ := ctorZone_granted hcount hrun hne
    refine ⟨b, s', heq, hinv, by rw [hgrants]; rfl, fun next => ?_⟩
    rw [handled_of_fits hfits, hcur]
  · right
    by_cases hrefused : Refused stop s.vmalloc.cur (BuddyPmalloc.sizeofBuddyPage * z.pageCount)
    · obtain ⟨s', hrun, hgrants⟩ := h.request_of_refused hrefused
      obtain ⟨msg, heq⟩ := ctorZone_refused hcount hrun
      exact Or.inl ⟨msg, s', heq, hgrants, fun next => (handled_of_not_fits hfits).2 hrefused⟩
    · refine Or.inr ⟨?_, fun next => by rwa [handled_of_not_fits hfits]⟩
      rw [ctorZone_eq hcount]
      exact (h.request_of_not hfits hrefused).andThen fun _ _ => List.suffix_rfl

/-- **One zone.** -/
theorem BootInv.bootZone_cases (h : BootInv base stop s) (z : Zone) :
    (∃ b s', bootZone z s = (.ok b, s') ∧ BootInv base stop s' ∧
      s'.grants.map Grant.size = BuddyPmalloc.sizeofBuddyPage * z.pageCount ::
        sizeofBuddyPmalloc :: s.grants.map Grant.size ∧
      ∀ next, ManagesZone stop s.vmalloc.cur z next ↔ next s'.vmalloc.cur) ∨
    (∃ msg s', bootZone z s = (.error (.panic msg), s') ∧ Placed base stop s'.grants ∧
      ∀ next, ManagesZone stop s.vmalloc.cur z next) ∨
    (Lost stop (bootZone z s) ∧ ∀ next, ¬ ManagesZone stop s.vmalloc.cur z next) := by
  simp only [ManagesZone]
  by_cases hfits : FitsBelow stop s.vmalloc.cur sizeofBuddyPmalloc
  · obtain ⟨s₁, hrun, hne, hinv, hcur, hgrants⟩ := h.request_of_fits hfits
    have hsizes : s₁.grants.map Grant.size = sizeofBuddyPmalloc :: s.grants.map Grant.size := by
      rw [hgrants]
      rfl
    rw [bootZone_granted hrun hne]
    simp only [handled_of_fits hfits, ← hcur]
    rcases le_or_gt (2 ^ 31) z.pageCount with hlarge | hcount
    · refine Or.inr (Or.inr ⟨Or.inl ⟨.hang, ?_, fun msg hmsg => by cases hmsg⟩,
        fun next hh => absurd hh.1 (not_lt.2 hlarge)⟩)
      rw [ctorZone_hang hlarge]
    · simp only [hcount, true_and]
      rcases hinv.ctorZone_cases hcount with
        ⟨b, s', heq, hinv', hsizes', hnext⟩ | ⟨msg, s', heq, hsame, hnext⟩ | hlost
      · rw [hsizes] at hsizes'
        exact Or.inl ⟨b, s', heq, hinv', hsizes', hnext⟩
      · refine Or.inr (Or.inl ⟨msg, s', heq, ?_, hnext⟩)
        rw [hsame]
        exact hinv.placed.mono hinv.cur_le
      · exact Or.inr (Or.inr hlost)
  · right
    by_cases hrefused : Refused stop s.vmalloc.cur sizeofBuddyPmalloc
    · obtain ⟨s', hrun, hgrants⟩ := h.request_of_refused hrefused
      refine Or.inl ⟨_, s', bootZone_refused hrun, ?_,
        fun next => (handled_of_not_fits hfits).2 hrefused⟩
      rw [hgrants]
      exact h.placed.mono h.cur_le
    · refine Or.inr ⟨?_, fun next => by rwa [handled_of_not_fits hfits]⟩
      refine (h.request_of_not hfits hrefused).andThen fun ptr s' => ?_
      split
      · exact List.suffix_rfl
      · exact grants_ctorZone z s'

/-- What is lost stays lost. -/
theorem Lost.bootZones {zs : List Zone} (h : Lost stop (bootZone z s)) :
    Lost stop (bootZones (z :: zs) s) := by
  refine h.andThen fun b s' => ?_
  have hrest := grants_bootZones zs s'
  rcases hrun : Aim.bootZones zs s' with ⟨_ | bs, s''⟩ <;> rw [hrun] at hrest <;> exact hrest

/-- **The loop over the zones.** -/
theorem BootInv.bootZones_cases : ∀ (zs : List Zone) (s : BootState), BootInv base stop s →
    (∃ bs s', bootZones zs s = (.ok bs, s') ∧ BootInv base stop s' ∧
      s'.grants.reverse.map Grant.size = s.grants.reverse.map Grant.size ++ zs.flatMap (fun z =>
        [sizeofBuddyPmalloc, BuddyPmalloc.sizeofBuddyPage * z.pageCount]) ∧
      Manages stop s.vmalloc.cur zs) ∨
    (∃ msg s', bootZones zs s = (.error (.panic msg), s') ∧ Placed base stop s'.grants ∧
      Manages stop s.vmalloc.cur zs) ∨
    (Lost stop (bootZones zs s) ∧ ¬ Manages stop s.vmalloc.cur zs) := by
  intro zs
  induction zs with
  | nil =>
      intro s h
      exact Or.inl ⟨[], s, rfl, h, by simp, trivial⟩
  | cons z zs ih =>
      intro s h
      rcases h.bootZone_cases z with
        ⟨b, s₁, hzone, hinv, hsizes, hnext⟩ | ⟨msg, s', hzone, hplaced, hnext⟩ | ⟨hlost, hnext⟩
      · rw [bootZones_ok hzone]
        simp only [Manages, hnext]
        rcases ih s₁ hinv with
          ⟨bs, s', hrest, hinv', hsizes', hman⟩ | ⟨msg, s', hrest, hplaced, hman⟩ | ⟨hlost, hman⟩
        · rw [hrest]
          refine Or.inl ⟨b :: bs, s', rfl, hinv', ?_, hman⟩
          rw [hsizes', List.map_reverse, hsizes, List.flatMap_cons]
          simp
        · rw [hrest]
          exact Or.inr (Or.inl ⟨msg, s', rfl, hplaced, hman⟩)
        · refine Or.inr (Or.inr ⟨?_, hman⟩)
          rcases hlost with ⟨e, he, hne⟩ | hbad
          · refine Or.inl ⟨e, ?_, hne⟩
            rw [he]
            rfl
          · exact Or.inr hbad
      · exact Or.inr (Or.inl ⟨msg, s', bootZones_error hzone, hplaced, hnext _⟩)
      · exact Or.inr (Or.inr ⟨hlost.bootZones, hnext _⟩)

/-- Before the first request. -/
theorem bootInv_start {window : ℕ} (hhigh : Arch.koffset ≤ base) (hstop : base + window < 2 ^ 32) :
    BootInv base (base + window) ⟨BootstrapVmalloc.ctor base window, []⟩ where
  base_eq := rfl
  limit_eq := wrap32_of_lt hstop
  base_high := hhigh
  stop_lt := hstop
  base_le := le_rfl
  cur_le := Nat.le_add_right _ _
  placed := ⟨by simp, by simp, List.Pairwise.nil⟩

/-- A window that ends at 4 GB or above has a limit below its base: the first request fails. -/
theorem bootZones_of_wrap {window : ℕ} {zs : List Zone} (hbase : base < 2 ^ 32)
    (hwindow : window < 2 ^ 32) (hwrap : 2 ^ 32 ≤ base + window) :
    ∃ msg v, bootZones (z :: zs) ⟨BootstrapVmalloc.ctor base window, []⟩ =
      (.error (.panic msg), ⟨v, []⟩) := by
  have hround := roundUp_pageSize hbase
  have hceil := le_pageCeil base
  have hlimit : (BootstrapVmalloc.ctor base window).limit = base + window - 2 ^ 32 := by
    simp only [BootstrapVmalloc.ctor, wrap32]
    omega
  have hnull : ∃ v, (BootstrapVmalloc.ctor base window).malloc (wrap32 sizeofBuddyPmalloc) =
      .ok (0, v) := by
    by_cases habove : wrap32 (pageCeil base % 2 ^ 32 + wrap32 sizeofBuddyPmalloc) >
        (BootstrapVmalloc.ctor base window).limit
    · exact ⟨_, BootstrapVmalloc.malloc_refused hround habove⟩
    · -- only at the very end of the address space, where the next page is the first one
      have hzero : pageCeil base % 2 ^ 32 = 0 := by
        rw [hlimit] at habove
        simp only [wrap32, sizeofBuddyPmalloc, pageCeil, Arch.pageSize] at habove ⊢
        omega
      rw [hzero] at hround habove
      exact ⟨_, BootstrapVmalloc.malloc_granted hround habove (by decide)⟩
  obtain ⟨v, hv⟩ := hnull
  exact ⟨_, v, bootZones_error (bootZone_refused (BootState.request_null hv))⟩

/-- **When the allocators of all zones get memory of their own**, whatever the zones are.  A window
that ends at 4 GB or above makes boot panic; otherwise the sizes and sums of the code, modulo
`2 ^ 32`, must not hide that a structure does not fit, in the window and below `KTOP`. -/
theorem boots_well_iff {m : BootMemoryMap} {map : List MachineMemoryMap}
    {kernStartLow kernEndLow size : ℕ} (zones : ZoneId → Zone)
    (hend : kernEndLow + Arch.koffset < 2 ^ 32)
    (hmap : copyMemoryMap m kernStartLow kernEndLow = .ok (map, size)) :
    BootsWell (ZoneId.all.map zones) (kernEndLow + Arch.koffset) size
        (vmmBootstrap zones kernEndLow size) ↔
      (kernEndLow + Arch.koffset + size < 2 ^ 32 →
        Manages (kernEndLow + Arch.koffset + size) (kernEndLow + Arch.koffset)
          (ZoneId.all.map zones)) := by
  have hsize : size < 2 ^ 32 := by
    obtain ⟨-, -, r, -, hsize, -⟩ := copyMemoryMap_eq_ok hmap
    rw [hsize]
    exact (min_le_left _ _).trans_lt (by decide)
  rw [vmmBootstrap]
  set base := kernEndLow + Arch.koffset with hbase
  have hkoffset : Arch.koffset ≤ base := Nat.le_add_left _ _
  rcases lt_or_ge (base + size) (2 ^ 32) with hstop | hwrap
  · rw [imp_iff_right hstop]
    have hinv : BootInv base (base + size) ⟨BootstrapVmalloc.ctor base size, []⟩ :=
      bootInv_start hkoffset hstop
    rcases hinv.bootZones_cases (ZoneId.all.map zones) with
      ⟨bs, s', hrun, hinv', hsizes, hman⟩ | ⟨msg, s', hrun, hplaced, hman⟩ | ⟨hlost, hman⟩
    · refine iff_of_true ?_ hman
      have hplaced := hinv'.placed.mono hinv'.cur_le
      rw [hrun]
      refine ⟨hplaced.aligned, hplaced.inside, hplaced.apart, fun e he => (by cases he),
        fun _ _ => ⟨hsizes, fun g hg => ?_⟩⟩
      have harea : s'.vmalloc.area = s'.vmalloc.cur - base := by
        rw [BootstrapVmalloc.area, hinv'.base_eq]
        exact sub32_of_le hinv'.base_le (hinv'.cur_le.trans_lt hstop)
      rw [harea, Nat.add_sub_cancel' hinv'.base_le]
      exact (hinv'.placed.inside g hg).2
    · refine iff_of_true ?_ hman
      rw [hrun]
      exact ⟨hplaced.aligned, hplaced.inside, hplaced.apart,
        fun e he => ⟨msg, (Except.error.inj he).symm⟩, fun bs hbs => by cases hbs⟩
    · refine iff_of_false (fun hwell => ?_) hman
      rcases hlost with ⟨e, he, hne⟩ | ⟨g, hg, hout⟩
      · obtain ⟨msg, hmsg⟩ := hwell.ends e he
        exact hne msg hmsg
      · exact absurd (hwell.inside g hg).2 (not_le.2 hout)
  · have hall : ZoneId.all.map zones = zones .dma :: [zones .normal, zones .highmem] := rfl
    rw [hall]
    obtain ⟨msg, v, hrun⟩ := bootZones_of_wrap hend hsize hwrap
    refine iff_of_true ?_ fun hstop => absurd hstop (not_lt.2 hwrap)
    rw [hrun]
    exact ⟨by simp, by simp, List.Pairwise.nil, fun e he => ⟨msg, (Except.error.inj he).symm⟩,
      fun bs hbs => by cases hbs⟩

end Zones

/-- A kernel at 1 MB in 128 MB of memory. -/
theorem boots_well_iff_128MB : ∃ zones,
    archInitPmmZone [⟨0x100000, 0x7F00000, 1⟩] 0x100000 0x200000 = .ok zones ∧
    (BootsWell (ZoneId.all.map zones) (0x200000 + Arch.koffset) 0x7E00000
        (vmmBootstrap zones 0x200000 0x7E00000) ↔
      (0x200000 + Arch.koffset + 0x7E00000 < 2 ^ 32 →
        Manages (0x200000 + Arch.koffset + 0x7E00000) (0x200000 + Arch.koffset)
          (ZoneId.all.map zones))) := by
  obtain ⟨zones, hzones, -⟩ := archInitPmmZone_spec [⟨0x100000, 0x7F00000, 1⟩] 0x100000 0x200000
  have hmap : copyMemoryMap ⟨"_AIM_MEMORY_MAP", [⟨0x100000, 0x7F00000, 1⟩]⟩ 0x100000 0x200000 =
      .ok ([⟨0x100000, 0x7F00000, 1⟩], 0x7E00000) := by decide +kernel
  exact ⟨zones, hzones, boots_well_iff zones (by decide) hmap⟩

/-- With a reserved page at `0xAAB2AAA000`, the array of `ZONE_HIGHMEM` has 178956971 entries, and
`malloc` is asked for 8 bytes. -/
theorem not_boots_well_reserved :
    ∃ zones size, copyMemoryMap ⟨"_AIM_MEMORY_MAP",
        [⟨0x100000, 0x7F00000, 1⟩, ⟨0xAAB2AAA000, 0x1000, 2⟩]⟩ 0x100000 0x200000 =
      .ok ([⟨0x100000, 0x7F00000, 1⟩, ⟨0xAAB2AAA000, 0x1000, 2⟩], size) ∧
    archInitPmmZone [⟨0x100000, 0x7F00000, 1⟩, ⟨0xAAB2AAA000, 0x1000, 2⟩] 0x100000 0x200000 =
      .ok zones ∧
    ¬ BootsWell (ZoneId.all.map zones) (0x200000 + Arch.koffset) size
      (vmmBootstrap zones 0x200000 size) := by
  have hmap : copyMemoryMap ⟨"_AIM_MEMORY_MAP",
        [⟨0x100000, 0x7F00000, 1⟩, ⟨0xAAB2AAA000, 0x1000, 2⟩]⟩ 0x100000 0x200000 =
      .ok ([⟨0x100000, 0x7F00000, 1⟩, ⟨0xAAB2AAA000, 0x1000, 2⟩], 0x7E00000) := by decide +kernel
  have hrun : (do
      let zones ← archInitPmmZone [⟨0x100000, 0x7F00000, 1⟩, ⟨0xAAB2AAA000, 0x1000, 2⟩]
        0x100000 0x200000
      return (vmmBootstrap zones 0x200000 0x7E00000).2.grants.head?) =
        Except.ok (some ⟨0x802c3000, 0x100000008⟩) := by decide +kernel
  obtain ⟨zones, hzones, hrun⟩ := bind_eq_ok.1 hrun
  refine ⟨zones, 0x7E00000, hmap, hzones, fun hwell => ?_⟩
  have hmem := List.mem_of_head? (Except.ok.inj hrun)
  exact absurd (hwell.inside _ hmem).2 (by decide)

end Aim
