/-
**The splitting and merging loops of the buddy allocator, on dyadic pools.**

The lists and the records of the block heads *track* a family of used and a family of free blocks.
This module proves that the loops of `malloc` and `free` do to the tracked families what
`DyadicBlocks.Focus.split` and `DyadicBlocks.Focus.merge` do to a focus, whose hole is the block the loop works
on.  The records of pages that head no block are never read in a way that matters: the buddy page
that `free` inspects is a block head by `DyadicBlocks.Focus.exists_head`.

Main definitions:

* `Aim.BuddyPmalloc.Tracks` — the lists and head records describe the used and the free blocks;
* `Aim.BuddyPmalloc.Fits` — the constants of the allocator fit the machine's shifts;
* `Aim.BuddyPmalloc.SameScalars` — two states differ in pages and lists only.

Main results:

* `Aim.BuddyPmalloc.getBuddy_eq`, `Aim.BuddyPmalloc.getLowIndex_eq`,
  `Aim.BuddyPmalloc.getHighIndex_eq` — the index macros are the block operations;
* `Aim.BuddyPmalloc.splitLoop_spec`, `Aim.BuddyPmalloc.mergeLoop_spec` — **the loops on a focus**.
-/

import AimKernel.DyadicPool
import AimKernel.BuddyPmalloc

set_option relaxedAutoImplicit false
set_option autoImplicit false

namespace Aim

namespace BuddyPmalloc

open DyadicBlocks

/-! ### The index macros -/

theorem getBuddy_eq {B : Block} (hB : B.Aligned) (ho : B.order < 32) :
    getBuddy B.index B.order = B.buddy.index := by
  rw [getBuddy, shl1_of_lt ho]
  by_cases h : 2 ^ (B.order + 1) ∣ B.index
  · rw [Bits.xor_two_pow_of_dvd h]
    simp [Block.buddy, h]
  · rw [Bits.xor_two_pow_of_not_dvd hB h]
    simp [Block.buddy, h]

theorem getLowIndex_eq {B : Block} (hB : B.Aligned) (ho : B.order < 32) (hi : B.index < 2 ^ 32) :
    getLowIndex B.index B.order = B.parent.index := by
  rw [getLowIndex, shl1_of_lt ho, Bits.and_compl_two_pow_of_dvd hB ho hi]
  rfl

theorem getHighIndex_eq {B : Block} (hB : B.Aligned) (hpos : 0 < B.order) (ho : B.order ≤ 32) :
    getHighIndex B.index (B.order - 1) = B.highHalf.index := by
  have hdvd : 2 ^ (B.order - 1 + 1) ∣ B.index := by rwa [Nat.sub_add_cancel hpos]
  rw [getHighIndex, shl1_of_lt (by omega), Bits.or_two_pow_of_dvd hdvd]
  rfl

/-! ### Frames -/

/-- Two states that differ in their pages and lists only. -/
structure SameScalars (b b' : BuddyPmalloc) : Prop where
  maxOrder : b'.maxOrder = b.maxOrder
  base : b'.base = b.base
  pageSize : b'.pageSize = b.pageSize
  pageCount : b'.pageCount = b.pageCount
  freePageCount : b'.freePageCount = b.freePageCount
  wastePageCount : b'.wastePageCount = b.wastePageCount

theorem SameScalars.refl (b : BuddyPmalloc) : SameScalars b b := ⟨rfl, rfl, rfl, rfl, rfl, rfl⟩

theorem SameScalars.trans {b₁ b₂ b₃ : BuddyPmalloc} (h₁ : SameScalars b₁ b₂)
    (h₂ : SameScalars b₂ b₃) : SameScalars b₁ b₃ :=
  ⟨h₂.1.trans h₁.1, h₂.2.trans h₁.2, h₂.3.trans h₁.3, h₂.4.trans h₁.4, h₂.5.trans h₁.5,
    h₂.6.trans h₁.6⟩

theorem sameScalars_setPage (b : BuddyPmalloc) (i : ℕ) (f : BuddyPage → BuddyPage) :
    SameScalars b (b.setPage i f) := ⟨rfl, rfl, rfl, rfl, rfl, rfl⟩

theorem sameScalars_listAdd (b : BuddyPmalloc) (i o : ℕ) : SameScalars b (b.listAdd i o) :=
  ⟨rfl, rfl, rfl, rfl, rfl, rfl⟩

theorem sameScalars_listDel (b : BuddyPmalloc) (i : ℕ) : SameScalars b (b.listDel i) :=
  ⟨rfl, rfl, rfl, rfl, rfl, rfl⟩

@[simp] theorem listAdd_pages (b : BuddyPmalloc) (i o : ℕ) : (b.listAdd i o).pages = b.pages := rfl

@[simp] theorem listDel_pages (b : BuddyPmalloc) (i : ℕ) : (b.listDel i).pages = b.pages := rfl

@[simp] theorem setPage_list (b : BuddyPmalloc) (i : ℕ) (f : BuddyPage → BuddyPage) :
    (b.setPage i f).list = b.list := rfl

theorem setPage_pages_self (b : BuddyPmalloc) (i : ℕ) (f : BuddyPage → BuddyPage) :
    (b.setPage i f).pages i = f (b.pages i) := by
  simp [setPage]

theorem setPage_pages_of_ne (b : BuddyPmalloc) {i j : ℕ} (f : BuddyPage → BuddyPage)
    (h : j ≠ i) : (b.setPage i f).pages j = b.pages j := by
  simp [setPage, h]

/-! ### Tracking blocks -/

/-- The constants of an allocator of `n` pages with top order `m`, both small enough for the
machine's shifts. -/
structure Fits (b : BuddyPmalloc) (n m : ℕ) : Prop where
  pageCount_eq : b.pageCount = n
  maxOrder_eq : b.maxOrder = m
  count_lt : n < 2 ^ 31
  order_lt : m < 31

theorem Fits.congr {b b' : BuddyPmalloc} {n m : ℕ} (h : Fits b n m) (hs : SameScalars b b') :
    Fits b' n m :=
  ⟨hs.pageCount.trans h.pageCount_eq, hs.maxOrder.trans h.maxOrder_eq, h.count_lt, h.order_lt⟩

/-- The lists hold the free blocks, and the records of block heads are up to date. -/
structure Tracks (b : BuddyPmalloc) (U F : Finset Block) : Prop where
  mem_list : ∀ o i, i ∈ b.list o ↔ (⟨i, o⟩ : Block) ∈ F
  nodup : ∀ o, (b.list o).Nodup
  used_page : ∀ B ∈ U, (b.pages B.index).inUse = true ∧ (b.pages B.index).order = B.order
  free_page : ∀ B ∈ F, (b.pages B.index).inUse = false ∧ (b.pages B.index).order = B.order

namespace Tracks

variable {b : BuddyPmalloc} {U F : Finset Block}

/-- Only the lists and the head records matter. -/
theorem congr {b' : BuddyPmalloc} (h : Tracks b U F) (hlist : b'.list = b.list)
    (hpages : ∀ B ∈ U ∪ F, b'.pages B.index = b.pages B.index) : Tracks b' U F := by
  refine ⟨?_, ?_, ?_, ?_⟩
  · simpa [hlist] using h.mem_list
  · simpa [hlist] using h.nodup
  · intro B hB
    rw [hpages B (Finset.mem_union_left _ hB)]
    exact h.used_page B hB
  · intro B hB
    rw [hpages B (Finset.mem_union_right _ hB)]
    exact h.free_page B hB

/-- Writing to the record of a page that heads no block. -/
theorem setPage (h : Tracks b U F) {i : ℕ} (hi : ∀ B ∈ U ∪ F, B.index ≠ i)
    (f : BuddyPage → BuddyPage) : Tracks (b.setPage i f) U F :=
  h.congr rfl fun B hB => setPage_pages_of_ne b f (hi B hB)

/-- Putting a block on the list of its order. -/
theorem pushFree (h : Tracks b U F) {X : Block} (hX : ∀ B ∈ U ∪ F, B.index ≠ X.index)
    (f : BuddyPage → BuddyPage)
    (hf : (f (b.pages X.index)).inUse = false ∧ (f (b.pages X.index)).order = X.order) :
    Tracks ((b.setPage X.index f).listAdd X.index X.order) U (insert X F) := by
  have hset := h.setPage hX f
  have hnew : ∀ o, (⟨X.index, o⟩ : Block) ∉ F := fun o hmem =>
    hX _ (Finset.mem_union_right _ hmem) rfl
  refine ⟨?_, ?_, ?_, ?_⟩
  · intro o i
    rw [Finset.mem_insert, ← h.mem_list]
    by_cases ho : o = X.order
    · subst ho
      simp [listAdd, Block.ext_iff]
    · simp [listAdd, Block.ext_iff, ho]
  · intro o
    by_cases ho : o = X.order
    · subst ho
      simpa [listAdd, h.mem_list, hnew] using h.nodup X.order
    · simpa [listAdd, ho] using h.nodup o
  · exact hset.used_page
  · intro B hB
    rcases Finset.mem_insert.1 hB with rfl | hB
    · rw [listAdd_pages, setPage_pages_self]
      exact hf
    · exact hset.free_page B hB

/-- Taking a block off its list. -/
theorem popFree (h : Tracks b U F) {X : Block} (hX : ∀ B ∈ F, B.index = X.index → B = X) :
    Tracks (b.listDel X.index) U (F.erase X) := by
  refine ⟨?_, ?_, h.used_page, fun B hB => h.free_page B (Finset.mem_of_mem_erase hB)⟩
  · intro o i
    simp only [listDel]
    rw [(h.nodup o).mem_erase_iff, Finset.mem_erase, h.mem_list]
    constructor
    · rintro ⟨hne, hmem⟩
      exact ⟨fun heq => hne (congrArg Block.index heq), hmem⟩
    · rintro ⟨hne, hmem⟩
      exact ⟨fun heq => hne (hX _ hmem heq), hmem⟩
  · exact fun o => (h.nodup o).erase _

/-- Counting a block whose record says so as used. -/
theorem pushUsed (h : Tracks b U F) {X : Block}
    (hX : (b.pages X.index).inUse = true ∧ (b.pages X.index).order = X.order) :
    Tracks b (insert X U) F := by
  refine ⟨h.mem_list, h.nodup, ?_, h.free_page⟩
  intro B hB
  rcases Finset.mem_insert.1 hB with rfl | hB
  · exact hX
  · exact h.used_page B hB

theorem popUsed (h : Tracks b U F) (X : Block) : Tracks b (U.erase X) F :=
  ⟨h.mem_list, h.nodup, fun B hB => h.used_page B (Finset.mem_of_mem_erase hB), h.free_page⟩

end Tracks

/-! ### The splitting loop -/

section Loops

variable {n m : ℕ}

/-- A block of the pool heads no page of the hole. -/
theorem index_not_mem_hole (Φ : Focus n m) {B : Block} (hB : B ∈ Φ.used ∪ Φ.free) :
    B.index ∉ Φ.hole.cells := by
  intro hmem
  have heq := Φ.eq_hole_of_meet (Finset.mem_insert_of_mem hB) B.index_mem_cells hmem
  rw [heq, Finset.mem_union] at hB
  exact hB.elim Φ.hole_not_used Φ.hole_not_free

/-- One round of the splitting loop halves the hole. -/
theorem splitLoop_succ {t i o : ℕ} {b : BuddyPmalloc} {Φ : Focus n m} (hfit : Fits b n m)
    (hhole : Φ.hole = ⟨i, o + 1⟩) (ht : t ≤ o) :
    splitLoop t i (o + 1) b = splitLoop t i o
      ((b.setPage Φ.hole.highHalf.index fun pp => { pp with inUse := false, order := o }).listAdd
        Φ.hole.highHalf.index o) := by
  have hal : (⟨i, o + 1⟩ : Block).Aligned := hhole ▸ Φ.hole_aligned
  have horder := Φ.tiling.order_le _ Φ.hole_mem
  have hstop := Φ.tiling.stop_le _ Φ.hole_mem
  simp only [hhole] at horder hstop
  have hm := hfit.order_lt
  have hindex : getHighIndex i o = Φ.hole.highHalf.index := by
    rw [hhole]
    exact getHighIndex_eq hal (Nat.succ_pos o) (by simp only; omega)
  have hlt : Φ.hole.highHalf.index < b.pageCount := by
    have hpos := Nat.two_pow_pos o
    rw [hfit.pageCount_eq, hhole]
    simp only [Block.highHalf, Nat.add_sub_cancel]
    rw [pow_succ] at hstop
    omega
  simp only [splitLoop]
  rw [if_pos (by omega), hindex, if_pos hlt]

/-- **The splitting loop**: the hole shrinks to the target order around the same head, the rest
of it becomes free, and the records outside the hole and at its head are untouched. -/
theorem splitLoop_spec {t i : ℕ} : ∀ (o : ℕ) (b : BuddyPmalloc) (Φ : Focus n m), Fits b n m →
    Tracks b Φ.used Φ.free → Φ.hole = ⟨i, o⟩ → t ≤ o →
    ∃ Φ' : Focus n m, Tracks (splitLoop t i o b) Φ'.used Φ'.free ∧ Φ'.hole = ⟨i, t⟩ ∧
      Φ'.used = Φ.used ∧ Φ'.cells = Φ.cells ∧ SameScalars b (splitLoop t i o b) ∧
      ∀ j, j = i ∨ j ∉ Φ.hole.cells → (splitLoop t i o b).pages j = b.pages j := by
  intro o
  induction o with
  | zero =>
      intro b Φ _ htr hhole ht
      obtain rfl : t = 0 := Nat.le_zero.1 ht
      exact ⟨Φ, htr, hhole, rfl, rfl, .refl b, fun j _ => rfl⟩
  | succ o ih =>
      intro b Φ hfit htr hhole ht
      rcases Nat.lt_or_ge o t with hlt | hle
      · obtain rfl : t = o + 1 := by omega
        have hdone : splitLoop (o + 1) i (o + 1) b = b := by simp [splitLoop]
        rw [hdone]
        exact ⟨Φ, htr, hhole, rfl, rfl, .refl b, fun j _ => rfl⟩
      · have hpos : 0 < Φ.hole.order := by rw [hhole]; exact Nat.succ_pos o
        have hhigh : Φ.hole.highHalf.order = o := by rw [hhole]; rfl
        have hhighmem : Φ.hole.highHalf.index ∈ Φ.hole.cells := by
          rw [Block.cells_halves Φ.hole_aligned hpos]
          exact Finset.mem_union_right _ (Block.index_mem_cells _)
        have hhighne : Φ.hole.highHalf.index ≠ i := by
          have := Nat.two_pow_pos o
          rw [hhole]
          simp [Block.highHalf]
        rw [splitLoop_succ hfit hhole hle]
        set f : BuddyPage → BuddyPage := fun pp => { pp with inUse := false, order := o } with hf
        set b₁ := (b.setPage Φ.hole.highHalf.index f).listAdd Φ.hole.highHalf.index o with hb₁
        have hs₁ : SameScalars b b₁ := (sameScalars_setPage b _ f).trans (sameScalars_listAdd _ _ _)
        have htr₁ : Tracks b₁ (Φ.split hpos).used (Φ.split hpos).free := by
          have := htr.pushFree (X := Φ.hole.highHalf)
            (fun B hB heq => index_not_mem_hole Φ hB (heq ▸ hhighmem)) f ⟨rfl, hhigh.symm⟩
          rwa [hhigh] at this
        obtain ⟨Φ', htr', hhole', hused', hcells', hs', hpages'⟩ := ih b₁ (Φ.split hpos)
          (hfit.congr hs₁) htr₁ (by simp [Focus.split, Block.lowHalf, hhole]) hle
        refine ⟨Φ', htr', hhole', hused', hcells'.trans (Φ.split_cells hpos), hs₁.trans hs', ?_⟩
        intro j hj
        have hjhigh : j ≠ Φ.hole.highHalf.index := by
          rintro rfl
          exact hj.elim hhighne fun h => h hhighmem
        have hjlow : j = i ∨ j ∉ (Φ.split hpos).hole.cells := by
          refine hj.imp_right fun h h' => h ?_
          rw [Block.cells_halves Φ.hole_aligned hpos]
          exact Finset.mem_union_left _ h'
        rw [hpages' j hjlow, hb₁, listAdd_pages, setPage_pages_of_ne b f hjhigh]

/-! ### The merging loop -/

/-- The merging loop writes no record. -/
theorem mergeLoop_frame : ∀ (fuel order index : ℕ) (b : BuddyPmalloc),
    (mergeLoop fuel order index b).2.2.pages = b.pages ∧
      SameScalars b (mergeLoop fuel order index b).2.2 := by
  intro fuel
  induction fuel with
  | zero => exact fun order index b => ⟨rfl, .refl b⟩
  | succ fuel ih =>
      intro order index b
      rw [mergeLoop]
      split_ifs
      · exact ⟨rfl, .refl b⟩
      · exact ⟨rfl, .refl b⟩
      · exact ⟨rfl, .refl b⟩
      · obtain ⟨hpages, hs⟩ :=
          ih (order + 1) (getLowIndex index order) (b.listDel (getBuddy index order))
        exact ⟨hpages, (sameScalars_listDel b _).trans hs⟩

/-- **The merging loop**: the hole absorbs free buddies until it cannot grow any more; no record
is written. -/
theorem mergeLoop_spec : ∀ (fuel : ℕ) (b : BuddyPmalloc) (Φ : Focus n m), Fits b n m →
    Tracks b Φ.used Φ.free → fuel = m - Φ.hole.order →
    ∃ (Φ' : Focus n m) (b' : BuddyPmalloc),
      mergeLoop fuel Φ.hole.order Φ.hole.index b = (Φ'.hole.order, Φ'.hole.index, b') ∧
      Tracks b' Φ'.used Φ'.free ∧ Φ'.used = Φ.used ∧ Φ'.cells = Φ.cells ∧ SameScalars b b' ∧
      b'.pages = b.pages ∧ Φ.hole.cells ⊆ Φ'.hole.cells ∧
      (Φ'.hole.order < m → Φ'.hole.buddy ∉ Φ'.free) := by
  intro fuel
  induction fuel with
  | zero =>
      intro b Φ _ htr hfuel
      exact ⟨Φ, b, rfl, htr, rfl, rfl, .refl b, rfl, subset_rfl, fun h => by omega⟩
  | succ fuel ih =>
      intro b Φ hfit htr hfuel
      have hal := Φ.hole_aligned
      have horder : Φ.hole.order < 32 := by
        have := hfit.order_lt
        omega
      have hindex : Φ.hole.index < 2 ^ 32 := by
        have := Φ.tiling.index_lt Φ.hole_mem
        have := hfit.count_lt
        omega
      -- in the four cases where the loop stops, the buddy is no free block
      have hstop : Φ.hole.buddy ∉ Φ.free → ∃ (Φ' : Focus n m) (b' : BuddyPmalloc),
          (Φ.hole.order, Φ.hole.index, b) = (Φ'.hole.order, Φ'.hole.index, b') ∧
          Tracks b' Φ'.used Φ'.free ∧ Φ'.used = Φ.used ∧ Φ'.cells = Φ.cells ∧
          SameScalars b b' ∧ b'.pages = b.pages ∧ Φ.hole.cells ⊆ Φ'.hole.cells ∧
          (Φ'.hole.order < m → Φ'.hole.buddy ∉ Φ'.free) :=
        fun h => ⟨Φ, b, rfl, htr, rfl, rfl, .refl b, rfl, subset_rfl, fun _ => h⟩
      simp only [mergeLoop, getBuddy_eq hal horder]
      by_cases hrange : Φ.hole.buddy.index ≥ b.pageCount
      · rw [if_pos hrange]
        refine hstop fun hmem => ?_
        have := Φ.tiling.index_lt (Φ.free_mem hmem)
        rw [hfit.pageCount_eq] at hrange
        omega
      rw [if_neg hrange]
      by_cases huse : (b.pages Φ.hole.buddy.index).inUse = true
      · rw [if_pos huse]
        refine hstop fun hmem => ?_
        rw [(htr.free_page _ hmem).1] at huse
        exact absurd huse (by decide)
      rw [if_neg huse]
      by_cases hord : (b.pages Φ.hole.buddy.index).order ≠ Φ.hole.order
      · rw [if_pos hord]
        exact hstop fun hmem => hord (htr.free_page _ hmem).2
      rw [if_neg hord, getLowIndex_eq hal horder hindex]
      rw [not_not] at hord
      -- the record inspected is that of a block head, so it can be believed
      have hbuddy : Φ.hole.buddy ∈ Φ.free := by
        rw [ge_iff_le, not_le, hfit.pageCount_eq] at hrange
        obtain ⟨B, hB, hBindex, -⟩ := Φ.exists_head hrange
        rcases Finset.mem_union.1 hB with hB | hB
        · rw [← hBindex] at huse
          exact absurd (htr.used_page B hB).1 huse
        · have hBorder := (htr.free_page B hB).2
          rw [hBindex, hord] at hBorder
          have : B = Φ.hole.buddy := Block.ext hBindex hBorder.symm
          exact this ▸ hB
      have hm : Φ.hole.order < m := by omega
      have hunique : ∀ B ∈ Φ.free, B.index = Φ.hole.buddy.index → B = Φ.hole.buddy :=
        fun B hB => Φ.tiling.eq_of_index_eq (Φ.free_mem hB) (Φ.free_mem hbuddy)
      have hs₁ := sameScalars_listDel b Φ.hole.buddy.index
      obtain ⟨Φ', b', hrun, htr', hused', hcells', hs', hpages', hsub, hdone⟩ :=
        ih (b.listDel Φ.hole.buddy.index) (Φ.merge hbuddy hm) (hfit.congr hs₁)
          (htr.popFree hunique) (by simp only [Focus.merge, Block.parent_order]; omega)
      have hparent : Φ.hole.cells ⊆ Φ.hole.parent.cells := by
        rw [Block.cells_parent hal]
        exact Finset.subset_union_left
      exact ⟨Φ', b', hrun, htr', hused', hcells'.trans (Φ.merge_cells hbuddy hm), hs₁.trans hs',
        hpages', hparent.trans hsub, hdone⟩

end Loops

end BuddyPmalloc

end Aim
