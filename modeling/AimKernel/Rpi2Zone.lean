/-
**Freeing the usable memory of the Raspberry Pi 2.**

The Raspberry Pi 2 has one zone, and no memory map: `mach_init_free_pmm_zone` walks the zone page by
page and frees what is outside the kernel.  It compares addresses with the end of the kernel the
other way round than `arch_init_free_pmm_zone` of the i386 does.

Main definitions:

* `Aim.machInitFreePmmZone` — `mach_init_free_pmm_zone`;
* `Aim.machFreedPages` — the pages that it frees, in order;
* `Aim.FreesOutside` — what it should do.

Main results:

* `Aim.machInitFreePmmZone_eq` — the loop frees these pages;
* `Aim.machInitFreePmmZone_spec` — what is free afterwards;
* `Aim.frees_outside_iff` — **when these are the pages outside the kernel.**
-/

import AimKernel.ZoneFree

set_option relaxedAutoImplicit false
set_option autoImplicit false

namespace Aim

open DyadicBlocks

/-! ### The loop -/

/-- `mach_init_pmm_zone`: `ZONE_NORMAL` is all of the memory that the firmware reports. -/
def machInitPmmZone (base size : ℕ) : Zone where
  base := base
  size := size
  pageSize := Arch.pageSize

/-- The test in `mach_init_free_pmm_zone`. -/
def MachFrees (kstart kend pa : ℕ) : Prop := pa < kstart ∨ pa > kend

instance (kstart kend pa : ℕ) : Decidable (MachFrees kstart kend pa) :=
  inferInstanceAs (Decidable (pa < kstart ∨ pa > kend))

/-- The loop of `mach_init_free_pmm_zone`; `pa` is an `lsize_t`, so a loop that has not ended after
`2 ^ 64` rounds never will. -/
def machFreeLoop (z : Zone) (kstart kend : ℕ) : ℕ → ℕ → BuddyPmalloc → Outcome BuddyPmalloc
  | 0, _, _ => .error .hang
  | fuel + 1, pa, b =>
      if pa < wrap64 (z.base + z.size) then
        if MachFrees kstart kend pa then do
          let b ← b.free pa
          machFreeLoop z kstart kend fuel (wrap64 (pa + z.pageSize)) b
        else
          machFreeLoop z kstart kend fuel (wrap64 (pa + z.pageSize)) b
      else
        .ok b

/-- `mach_init_free_pmm_zone`. -/
def machInitFreePmmZone (z : Zone) (kstart kend : ℕ) (b : BuddyPmalloc) : Outcome BuddyPmalloc := do
  assert (kstart % z.pageSize = 0) "kstart % z->page_size == 0"
  assert (kend % z.pageSize = 0) "kend % z->page_size == 0"
  machFreeLoop z kstart kend (2 ^ 64 + 1) z.base b

/-- The pages that the loop frees, in order. -/
def machFreedPages (z : Zone) (kstart kend : ℕ) : List ℕ :=
  (List.range' z.base (z.size / z.pageSize) z.pageSize).filter fun pa => MachFrees kstart kend pa

/-- A zone of whole pages, and a kernel of whole pages inside it. -/
structure WholePages (z : Zone) (kstart kend : ℕ) : Prop where
  pageSize : z.pageSize = Arch.pageSize
  base_dvd : Arch.pageSize ∣ z.base
  size_dvd : Arch.pageSize ∣ z.size
  stop_lt : z.base + z.size < 2 ^ 64
  kstart_dvd : Arch.pageSize ∣ kstart
  kend_dvd : Arch.pageSize ∣ kend
  base_le : z.base ≤ kstart
  start_le : kstart ≤ kend
  end_le : kend ≤ z.base + z.size

/-- **What `mach_init_free_pmm_zone` should do** over a new allocator: all calls succeed, the pages of
the zone outside `[kstart, kend)` are free afterwards and no others, and these are the pages that the
i386 port frees for this one region, whatever zones it has there. -/
structure FreesOutside (z : Zone) (kstart kend : ℕ) (b₀ : BuddyPmalloc) : Prop where
  run : ∃ b, machInitFreePmmZone z kstart kend b₀ = .ok b ∧ ∀ i, b.FreePage i ↔
    i < z.size / Arch.pageSize ∧
      ¬ (kstart ≤ z.base + Arch.pageSize * i ∧ z.base + Arch.pageSize * i < kend)
  same : ∀ zones : ZoneId → Zone,
    (∀ p, z.base ≤ p → p < z.base + z.size → ∃ zone, (zones zone).Holds p) →
      ∀ p, p ∈ machFreedPages z kstart kend ↔
        ∃ zone, (zone, p) ∈ freeCalls [⟨z.base, z.size, 1⟩] zones kstart kend

section Loop

variable {z : Zone} {kstart kend : ℕ}

/-- The loop, from any page on. -/
theorem machFreeLoop_eq (hstop : z.base + z.size < 2 ^ 64) (hpos : 0 < z.pageSize) :
    ∀ (k fuel pa : ℕ) (b : BuddyPmalloc), k < fuel → pa + z.pageSize * k = z.base + z.size →
      machFreeLoop z kstart kend fuel pa b =
        ((List.range' pa k z.pageSize).filter fun pa => MachFrees kstart kend pa).foldlM
          BuddyPmalloc.free b := by
  intro k
  induction k with
  | zero =>
      intro fuel pa b hfuel hend
      obtain ⟨f, rfl⟩ : ∃ f, fuel = f + 1 := ⟨fuel - 1, by omega⟩
      rw [machFreeLoop, wrap64_of_lt hstop, if_neg (by omega)]
      rfl
  | succ k ih =>
      intro fuel pa b hfuel hend
      obtain ⟨f, rfl⟩ : ∃ f, fuel = f + 1 := ⟨fuel - 1, by omega⟩
      rw [Nat.mul_succ] at hend
      have hnext : wrap64 (pa + z.pageSize) = pa + z.pageSize := wrap64_of_lt (by omega)
      have hrest := fun b => ih f (pa + z.pageSize) b (by omega) (by omega)
      rw [machFreeLoop, wrap64_of_lt hstop, if_pos (by omega), hnext, List.range'_succ]
      by_cases hfrees : MachFrees kstart kend pa
      · rw [if_pos hfrees, List.filter_cons_of_pos (by simpa using hfrees), List.foldlM_cons]
        congr 1
        exact funext hrest
      · rw [if_neg hfrees, List.filter_cons_of_neg (by simpa using hfrees)]
        exact hrest b

/-- **The loop frees these pages.** -/
theorem machInitFreePmmZone_eq (h : WholePages z kstart kend) (b : BuddyPmalloc) :
    machInitFreePmmZone z kstart kend b =
      (machFreedPages z kstart kend).foldlM BuddyPmalloc.free b := by
  have hpos : 0 < z.pageSize := by
    rw [h.pageSize]
    decide
  have hkstart : kstart % z.pageSize = 0 := by
    rw [h.pageSize]
    exact Nat.mod_eq_zero_of_dvd h.kstart_dvd
  have hkend : kend % z.pageSize = 0 := by
    rw [h.pageSize]
    exact Nat.mod_eq_zero_of_dvd h.kend_dvd
  have hpages : z.pageSize * (z.size / z.pageSize) = z.size := by
    rw [h.pageSize]
    exact Nat.mul_div_cancel' h.size_dvd
  have hfuel : z.size / z.pageSize < 2 ^ 64 + 1 := by
    have hle := Nat.div_le_self z.size z.pageSize
    have hstop := h.stop_lt
    omega
  rw [machInitFreePmmZone, assert_bind hkstart, assert_bind hkend, machFreedPages]
  exact machFreeLoop_eq h.stop_lt hpos _ _ _ b hfuel (by rw [hpages])

/-! ### What is free afterwards -/

/-- An address of a page of the zone. -/
theorem mem_pages (h : WholePages z kstart kend) {p : ℕ} :
    p ∈ List.range' z.base (z.size / z.pageSize) z.pageSize ↔
      ∃ i < z.size / Arch.pageSize, p = z.base + Arch.pageSize * i := by
  rw [List.mem_range', h.pageSize]

theorem mem_machFreedPages (h : WholePages z kstart kend) {p : ℕ} :
    p ∈ machFreedPages z kstart kend ↔
      (∃ i < z.size / Arch.pageSize, p = z.base + Arch.pageSize * i) ∧ MachFrees kstart kend p := by
  rw [machFreedPages, List.mem_filter, mem_pages h, decide_eq_true_iff]

/-- The state of the allocator after some pages have been freed: these are the free ones, and the
blocks in use are single pages. -/
structure PagesFreed (z : Zone) (done : List ℕ) (b : BuddyPmalloc) : Prop where
  pool : ∃ P : Pool (z.size / Arch.pageSize) (Nat.log 2 (z.size / Arch.pageSize)),
    b.Models P ∧ (∀ B ∈ P.used, B.order = 0) ∧ b.base = z.base ∧ b.pageSize = Arch.pageSize ∧
      ∀ i, i ∈ P.freeCells ↔ i < z.size / Arch.pageSize ∧ z.base + Arch.pageSize * i ∈ done

/-- **One page.** -/
theorem PagesFreed.free (h : WholePages z kstart kend) {done : List ℕ} {b : BuddyPmalloc}
    (hd : PagesFreed z done b) {i : ℕ} (hi : i < z.size / Arch.pageSize)
    (hnew : z.base + Arch.pageSize * i ∉ done) :
    ∃ b', b.free (z.base + Arch.pageSize * i) = .ok b' ∧
      PagesFreed z (done ++ [z.base + Arch.pageSize * i]) b' := by
  obtain ⟨P, hP, horder, hbase, hsize, hfree⟩ := hd.pool
  have hstop := h.stop_lt
  have hpages := Nat.mul_div_cancel' h.size_dvd
  have hparams : BuddyPmalloc.Params b.base b.pageSize := by
    rw [hbase, hsize]
    exact ⟨⟨12, by decide, rfl⟩, h.base_dvd, by omega⟩
  have haddr : b.pageAddr i = z.base + Arch.pageSize * i := by
    have hlt : Arch.pageSize * i < Arch.pageSize * (z.size / Arch.pageSize) :=
      Nat.mul_lt_mul_of_pos_left hi (by decide)
    rw [BuddyPmalloc.pageAddr, hbase, hsize, wrap64_of_lt (by omega)]
  obtain ⟨b', P', hrun, hmodels, hsetup, horder', hcells, -⟩ :=
    free_singlePage hP horder hparams hi fun hmem => hnew ((hfree i).1 hmem).2
  rw [haddr] at hrun
  refine ⟨b', hrun, P', hmodels, horder', hsetup.base.trans hbase, hsetup.pageSize.trans hsize,
    fun j => ?_⟩
  rw [hcells, hfree, List.mem_append, List.mem_singleton]
  constructor
  · rintro (⟨hj, hmem⟩ | rfl)
    · exact ⟨hj, .inl hmem⟩
    · exact ⟨hi, .inr rfl⟩
  · rintro ⟨hj, hmem | hmem⟩
    · exact .inl ⟨hj, hmem⟩
    · simp only [Arch.pageSize] at hmem
      exact .inr (by omega)

/-- **The run.** -/
theorem machInitFreePmmZone_spec (h : WholePages z kstart kend) {b₀ : BuddyPmalloc}
    {valloc : ℕ → ℕ}
    (hctor : BuddyPmalloc.ctor valloc z.base z.pageSize (z.size / z.pageSize) = .ok b₀) :
    ∃ b, machInitFreePmmZone z kstart kend b₀ = .ok b ∧ ∀ i, b.FreePage i ↔
      i < z.size / Arch.pageSize ∧ MachFrees kstart kend (z.base + Arch.pageSize * i) := by
  rw [h.pageSize] at hctor
  have hstart : PagesFreed z [] b₀ := by
    obtain ⟨hmodels, hbase, hsize, -⟩ := BuddyPmalloc.models_of_ctor hctor
    have hempty : (Pool.allUsed (z.size / Arch.pageSize)
        (Nat.log 2 (z.size / Arch.pageSize))).freeCells = ∅ := rfl
    refine ⟨_, hmodels, fun B hB => ?_, hbase, hsize, fun i => by simp [hempty]⟩
    obtain ⟨i, -, rfl⟩ := Finset.mem_image.1 hB
    rfl
  have hnodup : (machFreedPages z kstart kend).Nodup := by
    refine List.Nodup.filter _ (List.nodup_range' _ ?_)
    rw [h.pageSize]
    decide
  have hstep : ∀ (p : ℕ) (rest : List ℕ) (b : BuddyPmalloc),
      (∃ done, done ++ p :: rest = machFreedPages z kstart kend ∧ PagesFreed z done b) →
      ∃ b', b.free p = .ok b' ∧
        ∃ done, done ++ rest = machFreedPages z kstart kend ∧ PagesFreed z done b' := by
    rintro p rest b ⟨done, hdone, hd⟩
    have hmem : p ∈ machFreedPages z kstart kend := by simp [← hdone]
    have hnew : p ∉ done := by
      rw [← hdone, List.nodup_append] at hnodup
      exact fun hold => hnodup.2.2 _ hold _ List.mem_cons_self rfl
    obtain ⟨⟨i, hi, rfl⟩, -⟩ := (mem_machFreedPages h).1 hmem
    obtain ⟨b', hrun, hd'⟩ := hd.free h hi hnew
    exact ⟨b', hrun, done ++ [z.base + Arch.pageSize * i], by rw [← hdone, List.append_assoc]; rfl,
      hd'⟩
  obtain ⟨b, hrun, done, hdone, hfreed⟩ := foldlM_total
    (fun rest b => ∃ done, done ++ rest = machFreedPages z kstart kend ∧ PagesFreed z done b) hstep
    (machFreedPages z kstart kend) b₀ ⟨[], rfl, hstart⟩
  rw [List.append_nil] at hdone
  subst hdone
  refine ⟨b, by rw [machInitFreePmmZone_eq h, hrun], fun i => ?_⟩
  obtain ⟨P, hP, -, -, -, hfree⟩ := hfreed.pool
  rw [hP.tracks.freePage_iff, ← Pool.freeCells, hfree, mem_machFreedPages h]
  constructor
  · exact fun hi => ⟨hi.1, hi.2.2⟩
  · exact fun hi => ⟨hi.1, ⟨i, hi.1, rfl⟩, hi.2⟩

/-! ### The i386 port -/

/-- The pages that the i386 port looks at in this region. -/
theorem WholePages.pageRange_eq (h : WholePages z kstart kend) :
    MachineMemoryMap.pageRange ⟨z.base, z.size, 1⟩ =
      List.range' z.base (z.size / Arch.pageSize) Arch.pageSize := by
  have hstop := h.stop_lt
  obtain ⟨a, ha⟩ := h.base_dvd
  obtain ⟨c, hc⟩ := h.size_dvd
  simp only [Arch.pageSize] at ha hc
  have hst : roundUp 64 z.base Arch.pageSize = z.base := by
    simp only [roundUp, divRoundUp, Arch.pageSize]
    omega
  have hed : roundDown (wrap64 (z.base + z.size)) Arch.pageSize = z.base + z.size := by
    rw [wrap64_of_lt hstop, roundDown_eq_self_iff]
    exact dvd_add h.base_dvd h.size_dvd
  rw [MachineMemoryMap.pageRange, MachineMemoryMap.stop, hst, hed, Nat.add_sub_cancel_left]

/-- The pages that the i386 port frees for this region. -/
theorem mem_freeCalls_single (h : WholePages z kstart kend) {zones : ZoneId → Zone}
    (hzones : ∀ p, z.base ≤ p → p < z.base + z.size → ∃ zone, (zones zone).Holds p) {p : ℕ} :
    (∃ zone, (zone, p) ∈ freeCalls [⟨z.base, z.size, 1⟩] zones kstart kend) ↔
      (∃ i < z.size / Arch.pageSize, p = z.base + Arch.pageSize * i) ∧
        ¬ (kstart ≤ p ∧ p < kend) := by
  have hall : ∀ zone : ZoneId, zone ∈ ZoneId.all := by
    intro zone
    cases zone <;> decide
  have hcalls : ∀ zone, (zone, p) ∈ freeCalls [⟨z.base, z.size, 1⟩] zones kstart kend ↔
      ((∃ i < z.size / Arch.pageSize, p = z.base + Arch.pageSize * i) ∧
        ¬ (kstart ≤ p ∧ p < kend)) ∧ (zones zone).Holds p := by
    intro zone
    rw [freeCalls, List.filter_cons_of_pos rfl, List.filter_nil, List.flatMap_cons,
      List.flatMap_nil, List.append_nil, h.pageRange_eq]
    simp only [List.mem_flatMap, List.mem_filter, List.mem_map, decide_eq_true_iff, Prod.mk.injEq,
      List.mem_range']
    constructor
    · rintro ⟨q, ⟨hq, hout⟩, zone', ⟨-, hholds⟩, rfl, rfl⟩
      exact ⟨⟨hq, hout⟩, hholds⟩
    · rintro ⟨⟨hp, hout⟩, hholds⟩
      exact ⟨p, ⟨hp, hout⟩, zone, ⟨hall zone, hholds⟩, rfl, rfl⟩
  simp only [hcalls, exists_and_left, and_iff_left_iff_imp]
  rintro ⟨⟨i, hi, rfl⟩, -⟩
  have hlt : Arch.pageSize * i < Arch.pageSize * (z.size / Arch.pageSize) :=
    Nat.mul_lt_mul_of_pos_left hi (by decide)
  rw [Nat.mul_div_cancel' h.size_dvd] at hlt
  exact hzones _ (Nat.le_add_right _ _) (by omega)

/-- The two tests agree on the pages of the zone exactly when the kernel ends with it: otherwise they
differ on the page behind the kernel. -/
theorem machFrees_iff (h : WholePages z kstart kend) :
    (∀ i < z.size / Arch.pageSize, MachFrees kstart kend (z.base + Arch.pageSize * i) ↔
        ¬ (kstart ≤ z.base + Arch.pageSize * i ∧ z.base + Arch.pageSize * i < kend)) ↔
      kend = z.base + z.size := by
  have hpages := Nat.mul_div_cancel' h.size_dvd
  have hend := h.end_le
  have hstart := h.start_le
  have hbase := h.base_le
  simp only [MachFrees]
  constructor
  · intro hsame
    obtain ⟨a, ha⟩ := h.base_dvd
    obtain ⟨c, hc⟩ := h.kend_dvd
    by_contra hne
    simp only [Arch.pageSize] at hsame hpages ha hc
    have hpage : z.base + 4096 * (c - a) = kend := by omega
    have hbehind := hsame (c - a) (by omega)
    rw [hpage] at hbehind
    omega
  · intro hkend i hi
    have hlt : Arch.pageSize * i < Arch.pageSize * (z.size / Arch.pageSize) :=
      Nat.mul_lt_mul_of_pos_left hi (by decide)
    omega

/-- **When the pages outside the kernel are freed**: the page right behind the kernel never is, so
there must be none. -/
theorem frees_outside_iff (h : WholePages z kstart kend) {b₀ : BuddyPmalloc} {valloc : ℕ → ℕ}
    (hctor : BuddyPmalloc.ctor valloc z.base z.pageSize (z.size / z.pageSize) = .ok b₀) :
    FreesOutside z kstart kend b₀ ↔ kend = z.base + z.size := by
  obtain ⟨b, hrun, hfree⟩ := machInitFreePmmZone_spec h hctor
  rw [← machFrees_iff h]
  constructor
  · intro houtside i hi
    obtain ⟨b', hrun', hfree'⟩ := houtside.run
    obtain rfl := Except.ok.inj (hrun.symm.trans hrun')
    have hiff := (hfree i).symm.trans (hfree' i)
    simpa only [hi, true_and] using hiff
  · intro hsame
    refine ⟨⟨b, hrun, fun i => ?_⟩, fun zones hzones p => ?_⟩
    · rw [hfree]
      exact and_congr_right fun hi => hsame i hi
    · rw [mem_machFreedPages h, mem_freeCalls_single h hzones]
      refine and_congr_right fun hp => ?_
      obtain ⟨i, hi, rfl⟩ := hp
      exact hsame i hi

end Loop

/-- A zone of 16 pages, with the kernel in the last three. -/
theorem frees_outside_iff_last : ∃ b₀, FreesOutside (machInitPmmZone 0 0x10000) 0xD000 0x10000 b₀ ↔
    0x10000 = (machInitPmmZone 0 0x10000).base + (machInitPmmZone 0 0x10000).size := by
  have hwhole : WholePages (machInitPmmZone 0 0x10000) 0xD000 0x10000 := by
    constructor <;> decide
  have hcount : 16 < 2 ^ 31 := by decide
  obtain ⟨b₀, hctor, -⟩ := BuddyPmalloc.ctor_spec (fun _ => 1) (machInitPmmZone 0 0x10000).base
    (machInitPmmZone 0 0x10000).pageSize hcount (by decide)
  exact ⟨b₀, frees_outside_iff hwhole hctor⟩

/-- A kernel in pages 1 and 2 of 16: page 3 is not freed. -/
theorem not_frees_outside_low : ∃ b₀,
    BuddyPmalloc.ctor (fun _ => 1) 0 Arch.pageSize 16 = .ok b₀ ∧
      WholePages (machInitPmmZone 0 0x10000) 0x1000 0x3000 ∧
      ¬ FreesOutside (machInitPmmZone 0 0x10000) 0x1000 0x3000 b₀ := by
  have hwhole : WholePages (machInitPmmZone 0 0x10000) 0x1000 0x3000 := by
    constructor <;> decide
  have hcount : 16 < 2 ^ 31 := by decide
  obtain ⟨b₀, hctor, -⟩ := BuddyPmalloc.ctor_spec (fun _ => 1) 0 Arch.pageSize hcount (by decide)
  refine ⟨b₀, hctor, hwhole, fun houtside => ?_⟩
  obtain ⟨b, hrun, hfree⟩ := machInitFreePmmZone_spec hwhole hctor
  obtain ⟨b', hrun', hfree'⟩ := houtside.run
  obtain rfl := Except.ok.inj (hrun.symm.trans hrun')
  have hthree : b.FreePage 3 := (hfree' 3).2 (by decide)
  exact absurd ((hfree 3).1 hthree).2 (by decide)

end Aim
