/-
**The address space of the kernel.**

`early_mm_init` queues the mappings that the kernel starts with and builds the page tables from
them.  Memory appears twice, from address 0 on and from `KOFFSET` on, so that the kernel can go on
while it jumps to high addresses; the Raspberry Pi 2 adds its devices and the frame buffer, again
`KOFFSET` above their physical addresses.

On the i386 the higher copy ends at `KTOP`, which is where the zone of the allocators ends.  All
that the allocators hand out lies in it: the processor finds every byte of it, at the physical
address that the allocators mean, and different live objects never reach the same memory.

Main definitions:

* `Aim.initJmphighMapping` — `init_jmphigh_mapping`;
* `Aim.I386.earlyMmInit`, `Aim.Armv7a.earlyMmInit`, `Aim.Armv7a.machAddMapping` — `early_mm_init`
  and `mach_add_mapping`;
* `Aim.I386.kernelSpace`, `Aim.Armv7a.kernelSpace` — the address spaces that they build;
* `Aim.Armv7a.MemorySplit` — the memory of a Raspberry Pi 2, as its firmware divides it.

Main results:

* `Aim.I386.earlyMmInit_spec` — the address space of the i386;
* `Aim.I386.bootMapped_iff_kernelSpace` — it is where the bootstrap allocator may write;
* `Aim.MemoryStack.reachable_memory_mapped` — **live objects are mapped, to memory of their own, in
  every reachable state**;
* `Aim.Armv7a.earlyMmInit_maps` — **the Raspberry Pi 2 gets its address space exactly when its frame
  buffer starts at a 2 MB page.**
-/

import AimKernel.BootTranslation
import AimKernel.BootstrapVmalloc
import AimKernel.Framebuffer
import AimKernel.MemoryStack

set_option relaxedAutoImplicit false
set_option autoImplicit false

namespace Aim

/-! ### `early_mm_init` -/

/-- `ROUNDUP(size, BIGPAGE_SIZE)`, as the size of an entry: the sum is made in 64 bits, and a
`size_t` has 32. -/
def bigPages (size : ℕ) : BitVec 32 := BitVec.ofNat 32 (roundUp 64 size Arch.bigPageSize.toNat)

/-- `if (early_mapping_add(&entry) < 0) panic(fmt)`. -/
def EarlyMappings.addOrPanic (entry : EarlyMapping) (fmt : String) (s : EarlyMappings) :
    Outcome EarlyMappings := do
  let (ret, s) ← s.add entry
  if ret < 0 then
    .error (.panic fmt)
  else
    return s

/-- `init_jmphigh_mapping(lowsize, highsize)`. -/
def initJmphighMapping (lowsize highsize : ℕ) (s : EarlyMappings) : Outcome EarlyMappings := do
  let s ← s.addOrPanic ⟨0, 0, bigPages lowsize, EarlyMapping.memory⟩ "can't add lower mapping."
  s.addOrPanic ⟨0, Arch.kernBase, bigPages highsize, EarlyMapping.memory⟩
    "can't add higher mapping."

/-- What `early_mm_init` leaves: the queue, the words of the page tables, and
`size_after_kernel`. -/
structure EarlyMm where
  mappings : EarlyMappings
  words : Words
  sizeAfterKernel : ℕ

namespace I386

/-- `early_mm_init` of the i386, from where `check_cpu` has returned. -/
def earlyMmInit (t : BootTables) (map : BootMemoryMap) (kernStartLow kernEndLow : ℕ)
    (s : EarlyMappings) (m : Words) : Outcome EarlyMm := do
  let (_, freemem) ← copyMemoryMap map kernStartLow kernEndLow
  let ksize := Arch.ktop - Arch.koffset
  let s ← initJmphighMapping ksize ksize s
  -- `mmu_init` does not look at what `page_index_init` returns
  let (_, m) ← pageIndexInit t s m
  return ⟨s, m, freemem⟩

end I386

namespace Armv7a

/-- `RPI2_MAX_MEMORY`. -/
def rpi2MaxMemory : ℕ := 0x40000000

/-- `RPI2_MEMIO_BASE`. -/
def rpi2MemioBase : ℕ := 0x3F000000

/-- `RPI2_MEMIO_TOP`. -/
def rpi2MemioTop : ℕ := 0x40200000

/-- `struct meminfo`. -/
structure MemInfo where
  base : ℕ
  size : ℕ
deriving DecidableEq, Repr

/-- The mapping of the devices. -/
def deviceEntry : EarlyMapping where
  paddr := BitVec.ofNat 64 rpi2MemioBase
  vaddr := BitVec.ofNat 32 (rpi2MemioBase + Arch.koffset)
  size := BitVec.ofNat 32 (rpi2MemioTop - rpi2MemioBase)
  type := EarlyMapping.device

/-- `fbsize`, which is a product of two `unsigned int`. -/
def fbsize (fb : FbInfo) : ℕ := wrap32 (fb.height * fb.pitch)

/-- The mapping of the frame buffer at `bits`. -/
def framebufferEntry (fb : FbInfo) (bits : BitVec 32) : EarlyMapping where
  paddr := ptr2addr bits
  vaddr := bits + Arch.kernBase
  size := bigPages (fbsize fb)
  type := EarlyMapping.framebuffer

/-- `mach_add_mapping`: the queue, and `size_after_kernel`. -/
def machAddMapping (arminfo : MemInfo) (fb : FbInfo) (bits : BitVec 32) (kernEndLow : ℕ)
    (s : EarlyMappings) : Outcome (EarlyMappings × ℕ) := do
  let s ← initJmphighMapping rpi2MaxMemory arminfo.size s
  let sizeAfterKernel := sub32 (sub32 arminfo.size arminfo.base) kernEndLow
  let s ← s.addOrPanic deviceEntry "can't add device memory"
  let s ← s.addOrPanic (framebufferEntry fb bits) "can't add framebuffer memory"
  return (s, sizeAfterKernel)

/-- `early_mm_init` of the ARM. -/
def earlyMmInit (t : BootTables) (arminfo : MemInfo) (fb : FbInfo) (bits : BitVec 32)
    (kernEndLow : ℕ) (s : EarlyMappings) (m : Words) : Outcome EarlyMm := do
  let (s, sizeAfterKernel) ← machAddMapping arminfo fb bits kernEndLow s
  let (_, m) ← pageIndexInit t s m
  return ⟨s, m, sizeAfterKernel⟩

end Armv7a

/-! ### Queueing the mappings -/

section Queue

variable {queue : List EarlyMapping} {entry : EarlyMapping}

/-- A queue of explicit entries. -/
def EarlyMappings.ofQueue (queue : List EarlyMapping) : EarlyMappings :=
  { clear with queue := queue }

theorem EarlyMappings.addOrPanic_of_admits (fmt : String)
    (hs : queue.length ≤ earlyMappingQueueLength) (h : (ofQueue queue).Admits entry) :
    (ofQueue queue).addOrPanic entry fmt = .ok (ofQueue (queue ++ [entry])) := by
  rw [addOrPanic, add_of_admits hs h]
  rfl

theorem EarlyMappings.addOrPanic_of_not_admits (fmt : String)
    (hs : queue.length ≤ earlyMappingQueueLength) (h : ¬ (ofQueue queue).Admits entry) :
    (ofQueue queue).addOrPanic entry fmt = .error (.panic fmt) := by
  obtain ⟨ret, hret, hadd⟩ := add_of_not_admits hs h
  rw [addOrPanic, hadd, ok_bind]
  simp only [if_pos hret]

/-- The size of an entry is a number of 2 MB pages. -/
theorem dvd_bigPages (size : ℕ) : 2 ^ 21 ∣ (bigPages size).toNat := by
  have hbig : Arch.bigPageSize.toNat = 2 ^ 21 := by decide
  rw [bigPages, BitVec.toNat_ofNat, roundUp, hbig]
  omega

/-- It covers what was asked for, and less than a page more. -/
theorem toNat_bigPages (size : ℕ) (h : size ≤ 0xFFE00000) :
    size ≤ (bigPages size).toNat ∧ (bigPages size).toNat < size + 2 ^ 21 := by
  have hbig : Arch.bigPageSize.toNat = 2 ^ 21 := by decide
  rw [bigPages, BitVec.toNat_ofNat, hbig, roundUp_eq (by decide) (by omega)]
  omega

/-- The lower copy of memory. -/
def lowEntry (lowsize : ℕ) : EarlyMapping := ⟨0, 0, bigPages lowsize, EarlyMapping.memory⟩

/-- The higher one. -/
def highEntry (highsize : ℕ) : EarlyMapping :=
  ⟨0, Arch.kernBase, bigPages highsize, EarlyMapping.memory⟩

theorem lowEntry_valid (lowsize : ℕ) : (lowEntry lowsize).valid = true :=
  EarlyMapping.valid_iff.2 ⟨dvd_zero _, dvd_zero _, dvd_bigPages lowsize⟩

theorem highEntry_valid (highsize : ℕ) : (highEntry highsize).valid = true := by
  have hbase : 2 ^ 21 ∣ Arch.kernBase.toNat := by decide
  exact EarlyMapping.valid_iff.2 ⟨dvd_zero _, hbase, dvd_bigPages highsize⟩

theorem lowEntry_covers (lowsize : ℕ) (va : BitVec 32) :
    (lowEntry lowsize).Covers va ↔ va.toNat < (bigPages lowsize).toNat := by
  simp [EarlyMapping.Covers, EarlyMapping.stop, lowEntry]

theorem highEntry_covers (highsize : ℕ) (va : BitVec 32) : (highEntry highsize).Covers va ↔
    0x80000000 ≤ va.toNat ∧ va.toNat < 0x80000000 + (bigPages highsize).toNat :=
  Iff.rfl

/-- The lower copy maps addresses to themselves. -/
theorem lowEntry_paddr (lowsize : ℕ) (va : BitVec 32) :
    (lowEntry lowsize).paddr + ptr2addr (va - (lowEntry lowsize).vaddr) = ptr2addr va := by
  simp [lowEntry]

theorem highEntry_paddr (highsize : ℕ) (va : BitVec 32) : (highEntry highsize).paddr +
    ptr2addr (va - (highEntry highsize).vaddr) = ptr2addr (va - Arch.kernBase) := by
  simp [highEntry]

/-- **The two copies of memory are always queued**, if the lower one ends below the higher one. -/
theorem initJmphighMapping_clear (lowsize highsize : ℕ)
    (hlow : (bigPages lowsize).toNat ≤ 0x80000000) :
    initJmphighMapping lowsize highsize .clear =
      .ok (.ofQueue [lowEntry lowsize, highEntry highsize]) := by
  have hbase : Arch.kernBase.toNat = 0x80000000 := by decide
  have hzero : (0 : BitVec 32).toNat = 0 := rfl
  have hfirst : (EarlyMappings.ofQueue []).Admits (lowEntry lowsize) := by
    refine ⟨by decide, lowEntry_valid lowsize, fun q hq => ?_⟩
    cases hq
  have hsecond : (EarlyMappings.ofQueue [lowEntry lowsize]).Admits (highEntry highsize) := by
    refine ⟨by simp [EarlyMappings.ofQueue, earlyMappingQueueLength], highEntry_valid highsize,
      fun q hq hrec => ?_⟩
    obtain rfl := List.mem_singleton.1 hq
    rw [EarlyMapping.Recognised, EarlyMapping.stop, EarlyMapping.stop] at hrec
    dsimp only [lowEntry, highEntry] at hrec
    rw [hbase, hzero] at hrec
    omega
  rw [initJmphighMapping, ← lowEntry, ← highEntry]
  change (EarlyMappings.ofQueue []).addOrPanic _ _ >>= _ = _
  rw [EarlyMappings.addOrPanic_of_admits _ (by simp) hfirst, ok_bind]
  exact EarlyMappings.addOrPanic_of_admits _ (by simp [earlyMappingQueueLength]) hsecond

end Queue

/-! ### Walking the tables -/

/-- What `page_index_init` builds from a queue, on a port whose walks read the descriptors of 2 MB
pages. -/
theorem pageIndexInit_walks {F : PageFormat} (hF : F.Links)
    {walk : BitVec 32 → Words → BitVec 32 → Translation}
    {translate : BitVec 64 → BitVec 32 → Translation} {attributes : BitVec 32 → BitVec 64}
    (hwalk : ∀ t m f, TablesHold F t m f → ∀ va,
      walk t.index m va = translate (f (va.toNat / 2 ^ 21)) va)
    (hzero : ∀ va, translate 0 va = .notPresent) (t : BootTables) (s : EarlyMappings) (m : Words)
    (hqueue : ∀ e ∈ s.queue, e.Mappable)
    (hdisjoint : s.queue.Pairwise fun q e => ¬ e.Clash q)
    (hdecode : ∀ e ∈ s.queue, Decodes F translate attributes e.type) :
    ∃ m', pageIndexInit F t s m = .ok (0, m') ∧ Translates (walk t.index m') attributes s.queue := by
  obtain ⟨m', f, hinit, htables, hfilled⟩ := pageIndexInit_spec hF t s m hqueue hdisjoint
    fun e he => let ⟨mk, hmk, _⟩ := hdecode e he; ⟨mk, hmk⟩
  refine ⟨m', hinit, ?_⟩
  rw [funext (hwalk t m' f htables)]
  exact hfilled.translates hqueue hdecode hzero

/-! ### The i386 -/

namespace I386

/-- Memory from 0 on and again from `KOFFSET` on, up to `KTOP`. -/
def kernelSpace (va : BitVec 32) : Translation :=
  if va.toNat < Arch.ktop - Arch.koffset then
    .page (ptr2addr va) 0x83
  else if Arch.koffset ≤ va.toNat ∧ va.toNat < Arch.ktop then
    .page (ptr2addr (va - Arch.kernBase)) 0x83
  else
    .notPresent

/-- The queue of `early_mm_init`. -/
def kernelQueue : List EarlyMapping :=
  [lowEntry (Arch.ktop - Arch.koffset), highEntry (Arch.ktop - Arch.koffset)]

theorem kernelQueue_mappable : ∀ e ∈ kernelQueue, e.Mappable := by
  have hall : ∀ e ∈ kernelQueue, e.valid = true ∧ e.stop ≤ 2 ^ 32 ∧ e.paddr.toNat < 2 ^ 36 := by
    decide
  exact fun e he => ⟨(hall e he).1, (hall e he).2.1, (hall e he).2.2⟩

theorem kernelQueue_disjoint : kernelQueue.Pairwise fun q e => ¬ e.Clash q := by
  unfold EarlyMapping.Clash
  decide

/-- Both copies of memory, and nothing else. -/
theorem kernelSpace_of_translates {walk : BitVec 32 → Translation}
    (h : Translates walk attributes kernelQueue) (va : BitVec 32) : walk va = kernelSpace va := by
  have hsize : (bigPages (Arch.ktop - Arch.koffset)).toNat = 0x7E000000 := by decide
  obtain ⟨hmapped, hunmapped⟩ := h va
  have hlow : (lowEntry (Arch.ktop - Arch.koffset)).Covers va ↔ va.toNat < 0x7E000000 := by
    rw [lowEntry_covers, hsize]
  have hhigh : (highEntry (Arch.ktop - Arch.koffset)).Covers va ↔
      0x80000000 ≤ va.toNat ∧ va.toNat < 0xFE000000 := by
    rw [highEntry_covers, hsize]
  rw [kernelSpace, Arch.ktop, Arch.koffset]
  by_cases hva : va.toNat < 0x7E000000
  · rw [if_pos hva, hmapped _ (by simp [kernelQueue]) (hlow.2 hva), lowEntry_paddr, attributes]
  · rw [if_neg hva]
    by_cases hva' : 0x80000000 ≤ va.toNat ∧ va.toNat < 0xFE000000
    · rw [if_pos hva', hmapped _ (by simp [kernelQueue]) (hhigh.2 hva'), highEntry_paddr, attributes]
    · rw [if_neg hva']
      refine hunmapped fun e he => ?_
      rcases List.mem_pair.1 he with rfl | rfl
      · exact mt hlow.1 hva
      · exact mt hhigh.1 hva'

/-- **What `early_mm_init` builds on the i386**, if it finds the kernel in the memory map. -/
theorem earlyMmInit_spec (t : BootTables) (m : Words) {bootMap : BootMemoryMap}
    {map : List MachineMemoryMap} {kernStartLow kernEndLow size : ℕ}
    (hmap : copyMemoryMap bootMap kernStartLow kernEndLow = .ok (map, size)) :
    ∃ mm, earlyMmInit t bootMap kernStartLow kernEndLow .clear m = .ok mm ∧
      mm.sizeAfterKernel = size ∧ ∀ va, walk t.index mm.words va = kernelSpace va := by
  have hqueue := initJmphighMapping_clear (Arch.ktop - Arch.koffset) (Arch.ktop - Arch.koffset)
    (by decide)
  obtain ⟨m', hinit, hwalks⟩ := pageIndexInit_walks format_links (fun _ _ _ h => walk_eq h)
    translate_zero t (.ofQueue kernelQueue) m kernelQueue_mappable kernelQueue_disjoint
    fun e _ => decodes e.type
  refine ⟨⟨.ofQueue kernelQueue, m', size⟩, ?_, rfl, kernelSpace_of_translates hwalks⟩
  rw [earlyMmInit, hmap, ok_bind]
  dsimp only
  rw [hqueue, ok_bind, ← kernelQueue, I386.pageIndexInit, hinit]
  rfl

/-- What the bootstrap allocator may fill is what the processor finds. -/
theorem bootMapped_iff_kernelSpace {start size : ℕ} (h : start + size ≤ 2 ^ 32) :
    BootMapped start size ↔ ∀ a, start ≤ a → a < start + size →
      kernelSpace (BitVec.ofNat 32 a) ≠ .notPresent := by
  refine forall_congr' fun a => imp_congr_right fun _ => imp_congr_right fun hstop => ?_
  have ha : (BitVec.ofNat 32 a).toNat = a := by
    rw [BitVec.toNat_ofNat]
    omega
  rw [kernelSpace, ha]
  by_cases hlow : a < Arch.ktop - Arch.koffset
  · simp [hlow]
  · by_cases hhigh : Arch.koffset ≤ a ∧ a < Arch.ktop
    · simp [hlow, hhigh]
    · simp [hlow, hhigh]

/-- The higher copy of memory, by the physical address. -/
theorem kernelSpace_high {a : ℕ} (hlow : Arch.koffset ≤ a) (hhigh : a < Arch.ktop) :
    kernelSpace (BitVec.ofNat 32 a) = .page (BitVec.ofNat 64 (a - Arch.koffset)) 0x83 := by
  simp only [Arch.koffset, Arch.ktop] at hlow hhigh
  have ha : (BitVec.ofNat 32 a).toNat = a := by
    rw [BitVec.toNat_ofNat]
    omega
  have hbase : Arch.kernBase.toNat = 0x80000000 := by decide
  have hpaddr : ptr2addr (BitVec.ofNat 32 a - Arch.kernBase) = BitVec.ofNat 64 (a - 0x80000000) := by
    refine BitVec.eq_of_toNat_eq ?_
    rw [toNat_ptr2addr, BitVec.toNat_sub, ha, hbase, BitVec.toNat_ofNat]
    omega
  rw [kernelSpace, Arch.ktop, Arch.koffset, ha, if_neg (by omega), if_pos ⟨hlow, hhigh⟩, hpaddr]

end I386

/-! ### The memory of the allocators -/

/-- **The memory behind the live objects**, for the walk of a processor: every byte is mapped to a
byte of the zone, no two objects reach the same byte, and the pages of the adapter are those at
their physical address. -/
structure MemoryStack.ReachesMemory (walk : BitVec 32 → Translation) (zbase pageCount : ℕ)
    (s : MemoryStack) : Prop where
  mapped : ∀ b ∈ s.ranges, ∀ a, b.Covers a → ∃ pa, walk (BitVec.ofNat 32 a) = .page pa 0x83 ∧
    zbase ≤ pa.toNat ∧ pa.toNat < zbase + Arch.pageSize * pageCount
  apart : ∀ b c, ({b, c} : Multiset MemBlock) ≤ s.ranges → ∀ x y, b.Covers x → c.Covers y →
    walk (BitVec.ofNat 32 x) ≠ walk (BitVec.ofNat 32 y)
  pages : ∀ pages ∈ s.pages, ∀ i < pages.size,
    walk (kva pages.paddr + BitVec.ofNat 32 i) = .page (BitVec.ofNat 64 (pages.paddr + i)) 0x83

namespace MemoryStack

variable {b₀ : BuddyPmalloc} {n m : ℕ} {base : Ptr} {s : MemoryStack} {slubs : Finset Ptr}
  {xs : SlubList → List Ptr}

/-- What the bridge has handed out is in the zone. -/
theorem covers_zone_of_owns (hzone : DirectMapped b₀ n) {reserved : MemBlock} {b : BuddyPmalloc}
    {L : Multiset MemBlock} (h : PoolOwns b₀ n m reserved b L) {c : MemBlock} (hc : c ∈ L) {a : ℕ}
    (ha : c.Covers a) :
    Arch.koffset + b₀.base ≤ a ∧ a < Arch.koffset + b₀.base + Arch.pageSize * n := by
  obtain ⟨P, hP⟩ := h
  obtain ⟨X, hX, hstart, hsize⟩ := hP.blocks c hc
  have hcov := BuddyOwns.sub_blockMem hstart hsize ha
  have hXn := P.tiling.index_lt (P.used_mem hX)
  have hcell := P.tiling.mem_cells_lt (P.used_mem hX) (hzone.mem_cells_of_covers hXn hcov)
  have hlow := hcov.1
  rw [blockMem, hzone.toNat_pagePtr hXn] at hlow
  simp only [Arch.pageSize] at hcell hlow ⊢
  omega

/-- **Live objects are in the zone.** -/
theorem Inv.covers_zone (h : Inv b₀ n m base s slubs xs) (hzone : DirectMapped b₀ n) {b : MemBlock}
    (hb : b ∈ s.ranges) {a : ℕ} (ha : b.Covers a) :
    Arch.koffset + b₀.base ≤ a ∧ a < Arch.koffset + b₀.base + Arch.pageSize * n := by
  have hout := h.out.owns
  rw [ranges, Multiset.mem_add] at hb
  by_cases hodd : b ∈ s.objects ∧ ¬ slubBlockSize ∣ b.start.toNat
  · -- a slot is in the page of its slub
    have hsmall := SlubClients.mem_small.2 hodd
    refine covers_zone_of_owns hzone hout ?_ (h.clients.covers_page hsmall ha)
    exact Multiset.mem_add.2 (Or.inl (mem_slubBlocks.2 ⟨(h.clients.mem_slots hsmall).1, rfl⟩))
  · refine covers_zone_of_owns hzone hout ?_ ha
    rw [Multiset.mem_add, Multiset.mem_add]
    rcases hb with hb | hb
    · refine Or.inr (Or.inl (Multiset.mem_filter.2 ⟨hb, ?_⟩))
      by_contra hnot
      exact hodd ⟨hb, hnot⟩
    · exact Or.inr (Or.inr hb)

/-- In the address space of the kernel the objects reach their memory. -/
theorem Inv.reachesMemory (h : Inv b₀ n m base s slubs xs) (hzone : DirectMapped b₀ n)
    {walk : BitVec 32 → Translation} (hwalk : ∀ va, walk va = I386.kernelSpace va) :
    s.ReachesMemory walk b₀.base n := by
  have htop := hzone.top
  simp only [Arch.ktop, Arch.koffset] at htop
  have hpage : ∀ b ∈ s.ranges, ∀ a, b.Covers a → Arch.koffset ≤ a ∧ a < Arch.ktop ∧
      walk (BitVec.ofNat 32 a) = .page (BitVec.ofNat 64 (a - Arch.koffset)) 0x83 := by
    intro b hb a ha
    obtain ⟨hlow, hhigh⟩ := h.covers_zone hzone hb ha
    have hlow' : Arch.koffset ≤ a := le_trans (Nat.le_add_right _ _) hlow
    have hhigh' : a < Arch.ktop := by
      simp only [Arch.ktop, Arch.koffset] at hhigh ⊢
      omega
    exact ⟨hlow', hhigh', (hwalk _).trans (I386.kernelSpace_high hlow' hhigh')⟩
  refine ⟨fun b hb a ha => ?_, fun b c hbc x y hx hy heq => ?_, fun pages hp i hi => ?_⟩
  · obtain ⟨hlow, hhigh⟩ := h.covers_zone hzone hb ha
    obtain ⟨-, -, hwalk⟩ := hpage b hb a ha
    refine ⟨_, hwalk, ?_⟩
    rw [BitVec.toNat_ofNat]
    simp only [Arch.koffset] at hlow hhigh ⊢
    omega
  · -- equal pages make equal addresses, and the objects have no common byte
    have hb := Multiset.mem_of_le hbc (Multiset.mem_cons_self b {c})
    have hc := Multiset.mem_of_le hbc (Multiset.mem_cons_of_mem (Multiset.mem_singleton_self c))
    obtain ⟨hxlow, hxhigh, hxwalk⟩ := hpage b hb x hx
    obtain ⟨hylow, hyhigh, hywalk⟩ := hpage c hc y hy
    rw [hxwalk, hywalk, Translation.page.injEq] at heq
    have hnat := congrArg BitVec.toNat heq.1
    rw [BitVec.toNat_ofNat, BitVec.toNat_ofNat] at hnat
    simp only [Arch.koffset, Arch.ktop] at hxlow hxhigh hylow hyhigh hnat
    obtain rfl : x = y := by omega
    exact (h.clients.pairwiseApart b c hbc) x hx hy
  · obtain ⟨j, hj, haddr⟩ := h.paddr pages hp
    have hlt := (hzone.pageAddr_eq hj).2
    rw [← haddr] at hlt
    have hkva := toNat_kva hlt
    have hmem : pages.mem ∈ s.ranges :=
      Multiset.mem_add.2 (Or.inr (Multiset.mem_add.2 (Or.inr (Multiset.mem_map_of_mem _ hp))))
    have hcov : pages.mem.Covers ((kva pages.paddr).toNat + i) := by
      refine ⟨Nat.le_add_right _ _, ?_⟩
      change (kva pages.paddr).toNat + i < (kva pages.paddr).toNat + pages.size
      omega
    obtain ⟨-, -, hwalk⟩ := hpage _ hmem _ hcov
    rw [BitVec.ofNat_add, BitVec.ofNat_toNat, BitVec.setWidth_eq] at hwalk
    rw [hwalk, hkva, Nat.add_assoc, Nat.add_sub_cancel_left]

variable {valloc : ℕ → ℕ} {zbase pageCount : ℕ} {zone : BuddyRun} {bootMap : BootMemoryMap}
  {map : List MachineMemoryMap} {kernStartLow kernEndLow size : ℕ}

/-- **In every reachable state live objects are mapped, to memory of their own**, in the address
space that `early_mm_init` has built. -/
theorem reachable_memory_mapped
    (hctor : BuddyPmalloc.ctor valloc zbase Arch.pageSize pageCount = .ok b₀)
    (hdvd : Arch.pageSize ∣ zbase)
    (htop : zbase + Arch.pageSize * pageCount ≤ Arch.ktop - Arch.koffset)
    (hzone : buddyMachine.Reachable (BuddyRun.start b₀) zone)
    (hfits : base.toNat + (headsBlock base).size ≤ 2 ^ 32)
    (hheads : ∀ a i, (headsBlock base).Covers a → i < pageCount → (blockMem b₀ ⟨i, 0⟩).Covers a →
      ¬ zone.alloc.FreePage i)
    (hmap : copyMemoryMap bootMap kernStartLow kernEndLow = .ok (map, size))
    (t : BootTables) (words : Words) :
    ∃ mm, I386.earlyMmInit t bootMap kernStartLow kernEndLow .clear words = .ok mm ∧
      ∀ links levelIdx s, stackMachine.Reachable (start base links levelIdx zone.alloc) s →
        s.ReachesMemory (I386.walk t.index mm.words) zbase pageCount := by
  obtain ⟨-, hbase, hsize, -⟩ := BuddyPmalloc.models_of_ctor hctor
  have hdirect : DirectMapped b₀ pageCount := ⟨hsize, hbase ▸ hdvd, hbase ▸ htop⟩
  obtain ⟨P, hP⟩ := BuddyRun.Reachable.inv (hbase ▸ hsize ▸ hdirect.params) hctor hzone
  obtain ⟨mm, hinit, -, hwalk⟩ := I386.earlyMmInit_spec t words hmap
  refine ⟨mm, hinit, fun links levelIdx s hs => ?_⟩
  have hinv : ∃ slubs xs, Inv b₀ pageCount b₀.maxOrder base s slubs xs := by
    refine hs.invariant (P := fun s => ∃ slubs xs, Inv b₀ pageCount b₀.maxOrder base s slubs xs)
      ⟨_, _, inv_start hP.models hP.setup hfits hheads⟩ ?_
    rintro s call s' ⟨slubs, xs, h⟩ hlegal hstep
    exact h.step hdirect hlegal hstep
  obtain ⟨slubs, xs, h⟩ := hinv
  exact hbase ▸ h.reachesMemory hdirect hwalk

/-- A slot, a block and a page, from three pages at 16 MB, behind a kernel at 1 MB. -/
theorem reachable_memory_mapped_three_pages : ∃ (s : MemoryStack) (mm : EarlyMm),
    (s.objects, s.blocks, s.pages) =
      ({⟨0x81002c00, 1024⟩}, {⟨0x81000000, 4096⟩}, {⟨0x1001000, 4096, 0⟩}) ∧
    I386.earlyMmInit lowBootTables ⟨"_AIM_MEMORY_MAP", [⟨0x100000, 0x7F00000, 1⟩]⟩ 0x100000 0x200000
      .clear (fun _ => 0) = .ok mm ∧
    s.ReachesMemory (I386.walk lowBootTables.index mm.words) 0x1000000 3 := by
  obtain ⟨b₀, zone, s, hctor, hzone, hheads, hs, hlive⟩ := exists_run_three_pages
  have hmap : copyMemoryMap ⟨"_AIM_MEMORY_MAP", [⟨0x100000, 0x7F00000, 1⟩]⟩ 0x100000 0x200000 =
      .ok ([⟨0x100000, 0x7F00000, 1⟩], 0x7E00000) := by decide
  obtain ⟨mm, hinit, hmapped⟩ := reachable_memory_mapped hctor (by decide) (by decide) hzone
    (by decide) hheads hmap lowBootTables fun _ => 0
  exact ⟨s, mm, hlive, hinit, hmapped _ _ s hs⟩

end MemoryStack

/-! ### The Raspberry Pi 2 -/

namespace Armv7a

/-- **The memory of a Raspberry Pi 2**, as its firmware divides it: first that of the ARM, then that
of the VideoCore with the frame in it, then the devices. -/
structure MemorySplit (arminfo vcinfo : MemInfo) (fb : FbInfo) (bits : BitVec 32) : Prop where
  arm_base : arminfo.base = 0
  arm_top : arminfo.size ≤ vcinfo.base
  vc_top : vcinfo.base + vcinfo.size ≤ rpi2MemioBase
  frame_base : vcinfo.base ≤ bits.toNat
  frame_top : bits.toNat + fb.height * fb.pitch ≤ vcinfo.base + vcinfo.size

/-- What is above `KOFFSET`, by the physical address. -/
def attributesAt (arminfo : MemInfo) (fb : FbInfo) (bits : BitVec 32) (pa : ℕ) :
    Option (BitVec 64) :=
  if pa < (bigPages arminfo.size).toNat then some (attributes EarlyMapping.memory)
  else if rpi2MemioBase ≤ pa ∧ pa < rpi2MemioTop then some (attributes EarlyMapping.device)
  else if bits.toNat ≤ pa ∧ pa < bits.toNat + (bigPages (fbsize fb)).toNat then
    some (attributes EarlyMapping.framebuffer)
  else none

/-- The lowest 1 GB from 0 on as memory; memory, the devices and the frame buffer from `KOFFSET`
on. -/
def kernelSpace (arminfo : MemInfo) (fb : FbInfo) (bits va : BitVec 32) : Translation :=
  if va.toNat < rpi2MaxMemory then
    .page (ptr2addr va) (attributes EarlyMapping.memory)
  else if Arch.koffset ≤ va.toNat then
    match attributesAt arminfo fb bits (va.toNat - Arch.koffset) with
    | some attr => .page (ptr2addr (va - Arch.kernBase)) attr
    | none => .notPresent
  else
    .notPresent

/-- The queue of `mach_add_mapping`. -/
def kernelQueue (arminfo : MemInfo) (fb : FbInfo) (bits : BitVec 32) : List EarlyMapping :=
  [lowEntry rpi2MaxMemory, highEntry arminfo.size, deviceEntry, framebufferEntry fb bits]

section Split

variable {arminfo vcinfo : MemInfo} {fb : FbInfo} {bits : BitVec 32}

theorem MemorySplit.fbsize_eq (h : MemorySplit arminfo vcinfo fb bits) :
    fbsize fb = fb.height * fb.pitch ∧ bits.toNat + fbsize fb ≤ rpi2MemioBase := by
  have hframe := h.frame_top
  have hvc := h.vc_top
  simp only [rpi2MemioBase] at hvc ⊢
  rw [fbsize, wrap32_of_lt (by omega)]
  omega

/-- Where memory ends, and where the frame buffer ends, in whole pages. -/
theorem MemorySplit.pages (h : MemorySplit arminfo vcinfo fb bits) :
    (bigPages arminfo.size).toNat ≤ rpi2MemioBase ∧ (2 ^ 21 ∣ bits.toNat →
      (bigPages arminfo.size).toNat ≤ bits.toNat ∧
      bits.toNat + (bigPages (fbsize fb)).toNat ≤ rpi2MemioBase) := by
  obtain ⟨-, hframe⟩ := h.fbsize_eq
  have harm := h.arm_top
  have hvc := h.vc_top
  have hbase := h.frame_base
  simp only [rpi2MemioBase] at hvc hframe ⊢
  have hmem := toNat_bigPages arminfo.size (by omega)
  have hfb := toNat_bigPages (fbsize fb) (by omega)
  have hmem' := dvd_bigPages arminfo.size
  have hfb' := dvd_bigPages (fbsize fb)
  omega

/-- A mapping of physical memory `KOFFSET` above its address. -/
theorem high_paddr (e : EarlyMapping) (pa va : BitVec 32) (hpaddr : e.paddr = ptr2addr pa)
    (hvaddr : e.vaddr = pa + Arch.kernBase) (hpa : pa.toNat < 0x80000000) :
    (e.Covers va ↔ 0x80000000 + pa.toNat ≤ va.toNat ∧
      va.toNat < 0x80000000 + pa.toNat + e.size.toNat) ∧
    (e.Covers va → e.paddr + ptr2addr (va - e.vaddr) = ptr2addr (va - Arch.kernBase)) := by
  have hbase : Arch.kernBase.toNat = 0x80000000 := by decide
  have hva := va.isLt
  have hstart : e.vaddr.toNat = 0x80000000 + pa.toNat := by
    rw [hvaddr, BitVec.toNat_add, hbase]
    omega
  have hcovers : e.Covers va ↔ 0x80000000 + pa.toNat ≤ va.toNat ∧
      va.toNat < 0x80000000 + pa.toNat + e.size.toNat := by
    rw [EarlyMapping.Covers, EarlyMapping.stop, hstart]
  refine ⟨hcovers, fun hcov => BitVec.eq_of_toNat_eq ?_⟩
  have hle := (hcovers.1 hcov).1
  rw [hpaddr, BitVec.toNat_add, toNat_ptr2addr, toNat_ptr2addr, toNat_ptr2addr, BitVec.toNat_sub,
    BitVec.toNat_sub, hstart, hbase]
  omega

/-- The four mappings are those of the address space. -/
theorem kernelSpace_of_translates (h : MemorySplit arminfo vcinfo fb bits)
    (hdvd : 2 ^ 21 ∣ bits.toNat) {walk : BitVec 32 → Translation}
    (hwalk : Translates walk attributes (kernelQueue arminfo fb bits)) (va : BitVec 32) :
    walk va = kernelSpace arminfo fb bits va := by
  obtain ⟨hmem, hframe⟩ := h.pages
  obtain ⟨hbelow, habove⟩ := hframe hdvd
  obtain ⟨hmapped, hunmapped⟩ := hwalk va
  simp only [rpi2MemioBase] at hmem habove
  have hmax : (bigPages rpi2MaxMemory).toNat = 0x40000000 := by decide
  have hlow : (lowEntry rpi2MaxMemory).Covers va ↔ va.toNat < 0x40000000 := by
    rw [lowEntry_covers, hmax]
  have hhigh := highEntry_covers arminfo.size va
  obtain ⟨hdevice, hdevice'⟩ := high_paddr deviceEntry 0x3F000000 va rfl rfl (by decide)
  obtain ⟨hfb, hfb'⟩ := high_paddr (framebufferEntry fb bits) bits va rfl rfl (by omega)
  have hdeviceSize : deviceEntry.size.toNat = 0x1200000 := by decide
  have hdeviceBase : (0x3F000000 : BitVec 32).toNat = 0x3F000000 := rfl
  rw [hdeviceBase, hdeviceSize] at hdevice
  have hfbSize : (framebufferEntry fb bits).size = bigPages (fbsize fb) := rfl
  rw [hfbSize] at hfb
  have hcovered : ∀ e ∈ kernelQueue arminfo fb bits, e.Covers va → va.toNat < 0x40000000 ∨
      0x80000000 ≤ va.toNat ∧ (va.toNat - 0x80000000 < (bigPages arminfo.size).toNat ∨
        0x3F000000 ≤ va.toNat - 0x80000000 ∧ va.toNat - 0x80000000 < 0x40200000 ∨
        bits.toNat ≤ va.toNat - 0x80000000 ∧
          va.toNat - 0x80000000 < bits.toNat + (bigPages (fbsize fb)).toNat) := by
    intro e he hcov
    simp only [kernelQueue, List.mem_cons, List.not_mem_nil, or_false] at he
    rcases he with rfl | rfl | rfl | rfl
    · exact Or.inl (hlow.1 hcov)
    · have hcov := hhigh.1 hcov
      omega
    · have hcov := hdevice.1 hcov
      omega
    · have hcov := hfb.1 hcov
      omega
  rw [kernelSpace, rpi2MaxMemory, Arch.koffset]
  by_cases hva : va.toNat < 0x40000000
  · rw [if_pos hva, hmapped _ (by simp [kernelQueue]) (hlow.2 hva), lowEntry_paddr]
    rfl
  rw [if_neg hva]
  by_cases hva' : 0x80000000 ≤ va.toNat
  · rw [if_pos hva', attributesAt, rpi2MemioBase, rpi2MemioTop]
    by_cases hram : va.toNat - 0x80000000 < (bigPages arminfo.size).toNat
    · rw [if_pos hram, hmapped _ (by simp [kernelQueue]) (hhigh.2 (by omega)), highEntry_paddr]
      rfl
    rw [if_neg hram]
    by_cases hio : 0x3F000000 ≤ va.toNat - 0x80000000 ∧ va.toNat - 0x80000000 < 0x40200000
    · have hcov := hdevice.2 (by omega)
      rw [if_pos hio, hmapped _ (by simp [kernelQueue]) hcov, hdevice' hcov]
      rfl
    rw [if_neg hio]
    by_cases hframe : bits.toNat ≤ va.toNat - 0x80000000 ∧
        va.toNat - 0x80000000 < bits.toNat + (bigPages (fbsize fb)).toNat
    · have hcov := hfb.2 (by omega)
      rw [if_pos hframe, hmapped _ (by simp [kernelQueue]) hcov, hfb' hcov]
      rfl
    rw [if_neg hframe]
    exact hunmapped fun e he hcov => by have := hcovered e he hcov; omega
  · rw [if_neg hva']
    exact hunmapped fun e he hcov => by have := hcovered e he hcov; omega

/-- The ends of the four mappings. -/
theorem MemorySplit.stops (h : MemorySplit arminfo vcinfo fb bits) :
    (lowEntry rpi2MaxMemory).stop = 0x40000000 ∧
    (highEntry arminfo.size).stop ≤ deviceEntry.vaddr.toNat ∧
    deviceEntry.vaddr.toNat = 0xBF000000 ∧ deviceEntry.stop = 0xC0200000 ∧
    (framebufferEntry fb bits).vaddr.toNat = 0x80000000 + bits.toNat ∧
    (2 ^ 21 ∣ bits.toNat → (highEntry arminfo.size).stop ≤ (framebufferEntry fb bits).vaddr.toNat ∧
      (framebufferEntry fb bits).stop ≤ deviceEntry.vaddr.toNat) := by
  obtain ⟨hmem, hpages⟩ := h.pages
  obtain ⟨-, hframe⟩ := h.fbsize_eq
  have hbase : Arch.kernBase.toNat = 0x80000000 := by decide
  have hdevice : deviceEntry.vaddr.toNat = 0xBF000000 := by decide
  simp only [rpi2MemioBase] at hmem hpages hframe
  have hhigh : (highEntry arminfo.size).stop = 0x80000000 + (bigPages arminfo.size).toNat := rfl
  have hfb : (framebufferEntry fb bits).vaddr.toNat = 0x80000000 + bits.toNat := by
    rw [framebufferEntry, BitVec.toNat_add, hbase]
    omega
  have hstop : (framebufferEntry fb bits).stop =
      (framebufferEntry fb bits).vaddr.toNat + (bigPages (fbsize fb)).toNat := rfl
  refine ⟨by decide, by omega, hdevice, by decide, hfb, fun hdvd => ?_⟩
  have hpages := hpages hdvd
  omega

/-- The queue takes the devices. -/
theorem MemorySplit.admits_device (h : MemorySplit arminfo vcinfo fb bits) :
    (EarlyMappings.ofQueue [lowEntry rpi2MaxMemory, highEntry arminfo.size]).Admits
      deviceEntry := by
  obtain ⟨hlow, hhigh, hdevice, -⟩ := h.stops
  have hzero : (lowEntry rpi2MaxMemory).vaddr.toNat = 0 := rfl
  have hbase : (highEntry arminfo.size).vaddr.toNat = 0x80000000 := rfl
  refine ⟨by simp [EarlyMappings.ofQueue, earlyMappingQueueLength], by decide,
    fun q hq hrec => ?_⟩
  rw [EarlyMapping.Recognised] at hrec
  rcases List.mem_pair.1 hq with rfl | rfl
  · omega
  · omega

/-- It takes the frame buffer exactly when it starts at a 2 MB page. -/
theorem MemorySplit.admits_framebuffer (h : MemorySplit arminfo vcinfo fb bits) :
    (EarlyMappings.ofQueue [lowEntry rpi2MaxMemory, highEntry arminfo.size, deviceEntry]).Admits
      (framebufferEntry fb bits) ↔ 2 ^ 21 ∣ bits.toNat := by
  obtain ⟨hlow, -, hdevice, hdeviceStop, hfb, hstops⟩ := h.stops
  have hzero : (lowEntry rpi2MaxMemory).vaddr.toNat = 0 := rfl
  have hbase : (highEntry arminfo.size).vaddr.toNat = 0x80000000 := rfl
  constructor
  · rintro ⟨-, hvalid, -⟩
    have hpaddr := (EarlyMapping.valid_iff.1 hvalid).1
    rwa [framebufferEntry, toNat_ptr2addr] at hpaddr
  · intro hdvd
    obtain ⟨hhigh, hframe⟩ := hstops hdvd
    have hle : (framebufferEntry fb bits).vaddr.toNat ≤ (framebufferEntry fb bits).stop :=
      Nat.le_add_right _ _
    refine ⟨by simp [EarlyMappings.ofQueue, earlyMappingQueueLength],
      EarlyMapping.valid_iff.2 ⟨?_, ?_, ?_⟩, fun q hq hrec => ?_⟩
    · rwa [framebufferEntry, toNat_ptr2addr]
    · rw [hfb]
      omega
    · exact dvd_bigPages (fbsize fb)
    · rw [EarlyMapping.Recognised] at hrec
      simp only [EarlyMappings.ofQueue, List.mem_cons, List.not_mem_nil, or_false] at hq
      rcases hq with rfl | rfl | rfl
      · omega
      · omega
      · omega

/-- The page tables can be built from this queue. -/
theorem MemorySplit.kernelQueue_spec (h : MemorySplit arminfo vcinfo fb bits)
    (hdvd : 2 ^ 21 ∣ bits.toNat) :
    (∀ e ∈ kernelQueue arminfo fb bits, e.Mappable) ∧
    ((kernelQueue arminfo fb bits).Pairwise fun q e => ¬ e.Clash q) ∧
    ∀ e ∈ kernelQueue arminfo fb bits, Decodes format translate attributes e.type := by
  obtain ⟨hlow, hhigh, hdevice, hdeviceStop, hfb, hstops⟩ := h.stops
  obtain ⟨hhigh', hframe⟩ := hstops hdvd
  have hvalid := (h.admits_framebuffer.2 hdvd).2.1
  have hzero : (lowEntry rpi2MaxMemory).vaddr.toNat = 0 := rfl
  have hbase : (highEntry arminfo.size).vaddr.toNat = 0x80000000 := rfl
  have hpaddr : (framebufferEntry fb bits).paddr.toNat < 2 ^ 36 := by
    rw [framebufferEntry, toNat_ptr2addr]
    exact lt_trans bits.isLt (by decide)
  refine ⟨fun e he => ?_, ?_, fun e he => ?_⟩
  · simp only [kernelQueue, List.mem_cons, List.not_mem_nil, or_false] at he
    rcases he with rfl | rfl | rfl | rfl
    · exact ⟨lowEntry_valid _, by omega, by decide⟩
    · exact ⟨highEntry_valid _, by omega, by simp [highEntry]⟩
    · exact ⟨by decide, by omega, by decide⟩
    · exact ⟨hvalid, by omega, hpaddr⟩
  · simp only [kernelQueue, List.pairwise_cons, List.mem_cons, List.not_mem_nil, or_false,
      forall_eq_or_imp, forall_eq, EarlyMapping.Clash, false_implies, implies_true,
      List.Pairwise.nil, and_true]
    omega
  · simp only [kernelQueue, List.mem_cons, List.not_mem_nil, or_false] at he
    rcases he with rfl | rfl | rfl | rfl
    · exact decodes (Or.inl rfl)
    · exact decodes (Or.inl rfl)
    · exact decodes (Or.inr (Or.inl rfl))
    · exact decodes (Or.inr (Or.inr rfl))

/-- What `mach_add_mapping` queues. -/
theorem MemorySplit.machAddMapping_eq (h : MemorySplit arminfo vcinfo fb bits) (kernEndLow : ℕ) :
    machAddMapping arminfo fb bits kernEndLow .clear =
      if 2 ^ 21 ∣ bits.toNat then
        .ok (.ofQueue (kernelQueue arminfo fb bits), sub32 (sub32 arminfo.size 0) kernEndLow)
      else .error (.panic "can't add framebuffer memory") := by
  have hdevice := EarlyMappings.addOrPanic_of_admits "can't add device memory"
    (by simp [earlyMappingQueueLength]) h.admits_device
  rw [machAddMapping, initJmphighMapping_clear _ _ (by decide), ok_bind]
  dsimp only
  rw [hdevice, ok_bind, h.arm_base]
  by_cases hdvd : 2 ^ 21 ∣ bits.toNat
  · rw [if_pos hdvd]
    have hframe := EarlyMappings.addOrPanic_of_admits "can't add framebuffer memory"
      (by simp [earlyMappingQueueLength]) (h.admits_framebuffer.2 hdvd)
    exact congrArg (· >>= _) hframe
  · rw [if_neg hdvd]
    have hframe := EarlyMappings.addOrPanic_of_not_admits "can't add framebuffer memory"
      (by simp [earlyMappingQueueLength]) (mt h.admits_framebuffer.1 hdvd)
    exact congrArg (· >>= _) hframe

/-- `early_mm_init` with a frame buffer that starts at a 2 MB page. -/
theorem MemorySplit.earlyMmInit_aligned (h : MemorySplit arminfo vcinfo fb bits)
    (hdvd : 2 ^ 21 ∣ bits.toNat) (t : BootTables) (kernEndLow : ℕ) (words : Words) :
    ∃ mm, earlyMmInit t arminfo fb bits kernEndLow .clear words = .ok mm ∧
      ∀ va, walk t.index mm.words va = kernelSpace arminfo fb bits va := by
  obtain ⟨hmappable, hdisjoint, hdecodes⟩ := h.kernelQueue_spec hdvd
  obtain ⟨m', hinit, hwalks⟩ := pageIndexInit_walks format_links (fun _ _ _ h => walk_eq h)
    translate_zero t (.ofQueue (kernelQueue arminfo fb bits)) words hmappable hdisjoint hdecodes
  refine ⟨⟨.ofQueue (kernelQueue arminfo fb bits), m', sub32 (sub32 arminfo.size 0) kernEndLow⟩,
    ?_, kernelSpace_of_translates h hdvd hwalks⟩
  rw [earlyMmInit, h.machAddMapping_eq, if_pos hdvd, ok_bind]
  dsimp only
  rw [pageIndexInit, hinit]
  rfl

/-- `early_mm_init` with a frame buffer that starts somewhere else. -/
theorem MemorySplit.earlyMmInit_unaligned (h : MemorySplit arminfo vcinfo fb bits)
    (hdvd : ¬ 2 ^ 21 ∣ bits.toNat) (t : BootTables) (kernEndLow : ℕ) (words : Words) :
    earlyMmInit t arminfo fb bits kernEndLow .clear words =
      .error (.panic "can't add framebuffer memory") := by
  rw [earlyMmInit, h.machAddMapping_eq, if_neg hdvd, error_bind]

/-- **The Raspberry Pi 2 gets its address space exactly when its frame buffer starts at a 2 MB
page**; otherwise the kernel stops. -/
theorem earlyMmInit_maps (h : MemorySplit arminfo vcinfo fb bits) (t : BootTables)
    (kernEndLow : ℕ) (words : Words) :
    (2 ^ 21 ∣ bits.toNat → ∃ mm, earlyMmInit t arminfo fb bits kernEndLow .clear words = .ok mm ∧
      ∀ va, walk t.index mm.words va = kernelSpace arminfo fb bits va) ∧
    (¬ 2 ^ 21 ∣ bits.toNat → earlyMmInit t arminfo fb bits kernEndLow .clear words =
      .error (.panic "can't add framebuffer memory")) :=
  ⟨fun hdvd => h.earlyMmInit_aligned hdvd t kernEndLow words,
    fun hdvd => h.earlyMmInit_unaligned hdvd t kernEndLow words⟩

end Split

/-- 948 MB for the ARM, 60 MB for the VideoCore, and a frame of 1440 times 900 pixels. -/
theorem earlyMmInit_maps_frame : ∃ mm,
    earlyMmInit lowBootTables ⟨0, 0x3B400000⟩ ⟨1440, 900, 4320⟩ 0x3D800000 0x200000 .clear
      (fun _ => 0) = .ok mm ∧
    ∀ va, walk lowBootTables.index mm.words va =
      kernelSpace ⟨0, 0x3B400000⟩ ⟨1440, 900, 4320⟩ 0x3D800000 va := by
  have hsplit : MemorySplit ⟨0, 0x3B400000⟩ ⟨0x3B400000, 0x3C00000⟩ ⟨1440, 900, 4320⟩ 0x3D800000 :=
    ⟨rfl, by decide, by decide, by decide, by decide⟩
  exact (earlyMmInit_maps hsplit lowBootTables 0x200000 fun _ => 0).1 (by decide)

end Armv7a

end Aim
