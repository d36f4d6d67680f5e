/-
**Pools of dyadic blocks: splitting, merging and coalescing.**

A *pool* partitions the positions below `n` into aligned dyadic blocks of order at most `m`, each
of them used or free, such that no two free blocks below the top order are buddies.  An allocator
changes a pool by taking one block out and working on it while the rest stays in place; a *focus*
is a pool with such a block taken out.  The invariants are fields, so every operation carries the
proof that it keeps them.

Main definitions:

* `DyadicBlocks.Tiling` — a partition of the positions below `n`;
* `DyadicBlocks.Coalesced` — no two free blocks below the top order are buddies;
* `DyadicBlocks.Pool`, `DyadicBlocks.Focus` — pools, and pools with one block taken out;
* `DyadicBlocks.Pool.takeFree`, `DyadicBlocks.Pool.takeUsed`, `DyadicBlocks.Focus.split`, `DyadicBlocks.Focus.merge`,
  `DyadicBlocks.Focus.fillUsed`, `DyadicBlocks.Focus.fillFree` — the elementary operations.

Main results:

* `DyadicBlocks.Focus.exists_head` — the buddy position of the block taken out heads a block of the pool;
* `DyadicBlocks.Pool.exists_free_superset` — **free blocks are maximal**: a run of free positions that
  is a dyadic block lies inside one free block;
* `DyadicBlocks.Pool.free_eq_of_freeCells_eq` — **the free blocks are determined by the free positions**.
-/

import AimKernel.Dyadic

set_option relaxedAutoImplicit false
set_option autoImplicit false

namespace DyadicBlocks

/-! ### Tilings -/

/-- A partition of the positions below `n` into aligned blocks of order at most `m`. -/
structure Tiling (n m : ℕ) (T : Finset Block) : Prop where
  /-- Every block is aligned. -/
  aligned : ∀ B ∈ T, B.Aligned
  /-- No block exceeds the top order. -/
  order_le : ∀ B ∈ T, B.order ≤ m
  /-- Every block ends at or before `n`. -/
  stop_le : ∀ B ∈ T, B.index + 2 ^ B.order ≤ n
  /-- Blocks that meet are equal. -/
  eq_of_meet : ∀ A ∈ T, ∀ B ∈ T, ∀ p, p ∈ A.cells → p ∈ B.cells → A = B
  /-- Every position below `n` is covered. -/
  cover : ∀ p < n, ∃ B ∈ T, p ∈ B.cells

namespace Tiling

variable {n m : ℕ} {S T : Finset Block} {X : Block}

/-- A block of a tiling is determined by its head. -/
theorem eq_of_index_eq (hT : Tiling n m T) {A B : Block} (hA : A ∈ T) (hB : B ∈ T)
    (h : A.index = B.index) : A = B :=
  hT.eq_of_meet A hA B hB A.index A.index_mem_cells (h ▸ B.index_mem_cells)

theorem index_lt (hT : Tiling n m T) {B : Block} (hB : B ∈ T) : B.index < n :=
  lt_of_lt_of_le (Nat.lt_add_of_pos_right (Nat.two_pow_pos _)) (hT.stop_le B hB)

theorem mem_cells_lt (hT : Tiling n m T) {B : Block} (hB : B ∈ T) {p : ℕ} (hp : p ∈ B.cells) :
    p < n :=
  lt_of_lt_of_le (Block.mem_cells.1 hp).2 (hT.stop_le B hB)

theorem pairwiseDisjoint (hT : Tiling n m T) : (T : Set Block).PairwiseDisjoint Block.cells := by
  intro A hA B hB hne
  exact Finset.disjoint_left.2 fun p hpA hpB => hne (hT.eq_of_meet A hA B hB p hpA hpB)

/-- Exchanging some blocks of a tiling for blocks that partition the same positions. -/
theorem exchange {Q R : Finset Block} (hT : Tiling n m (Q ∪ S)) (hQ : Disjoint Q S)
    (haligned : ∀ B ∈ R, B.Aligned) (horder : ∀ B ∈ R, B.order ≤ m)
    (hmeet : ∀ A ∈ R, ∀ B ∈ R, ∀ p, p ∈ A.cells → p ∈ B.cells → A = B)
    (hcells : R.biUnion Block.cells = Q.biUnion Block.cells) : Tiling n m (R ∪ S) := by
  have hold : ∀ B ∈ R, ∀ p ∈ B.cells, ∃ C ∈ Q, p ∈ C.cells := by
    intro B hB p hp
    rw [← Finset.mem_biUnion, ← hcells]
    exact Finset.mem_biUnion.2 ⟨B, hB, hp⟩
  -- a new block and one left in place never meet: the latter would be one of those exchanged
  have hcross : ∀ A ∈ R, ∀ B ∈ S, ∀ p, p ∈ A.cells → p ∈ B.cells → False := by
    intro A hA B hB p hpA hpB
    obtain ⟨C, hC, hpC⟩ := hold A hA p hpA
    have hCB := hT.eq_of_meet C (Finset.mem_union_left _ hC) B (Finset.mem_union_right _ hB) p
      hpC hpB
    exact Finset.disjoint_left.1 hQ hC (hCB ▸ hB)
  refine ⟨?_, ?_, ?_, ?_, ?_⟩
  · intro B hB
    rcases Finset.mem_union.1 hB with hB | hB
    · exact haligned B hB
    · exact hT.aligned B (Finset.mem_union_right _ hB)
  · intro B hB
    rcases Finset.mem_union.1 hB with hB | hB
    · exact horder B hB
    · exact hT.order_le B (Finset.mem_union_right _ hB)
  · intro B hB
    rcases Finset.mem_union.1 hB with hB | hB
    · have hpos := Nat.two_pow_pos B.order
      have hlast : B.index + 2 ^ B.order - 1 ∈ B.cells := by
        rw [Block.mem_cells]
        omega
      obtain ⟨C, hC, hpC⟩ := hold B hB _ hlast
      have := hT.mem_cells_lt (Finset.mem_union_left _ hC) hpC
      omega
    · exact hT.stop_le B (Finset.mem_union_right _ hB)
  · intro A hA B hB p hpA hpB
    rcases Finset.mem_union.1 hA with hA | hA <;> rcases Finset.mem_union.1 hB with hB | hB
    · exact hmeet A hA B hB p hpA hpB
    · exact (hcross A hA B hB p hpA hpB).elim
    · exact (hcross B hB A hA p hpB hpA).elim
    · exact hT.eq_of_meet A (Finset.mem_union_right _ hA) B (Finset.mem_union_right _ hB) p hpA hpB
  · intro p hp
    obtain ⟨B, hB, hpB⟩ := hT.cover p hp
    rcases Finset.mem_union.1 hB with hB | hB
    · have hpQ : p ∈ Q.biUnion Block.cells := Finset.mem_biUnion.2 ⟨B, hB, hpB⟩
      rw [← hcells] at hpQ
      obtain ⟨C, hC, hpC⟩ := Finset.mem_biUnion.1 hpQ
      exact ⟨C, Finset.mem_union_left _ hC, hpC⟩
    · exact ⟨B, Finset.mem_union_right _ hB, hpB⟩

/-- **Splitting** a block of a tiling into its halves. -/
theorem split (hT : Tiling n m (insert X S)) (hX : X ∉ S) (ho : 0 < X.order) :
    Tiling n m (insert X.lowHalf (insert X.highHalf S)) := by
  have hXT : X ∈ insert X S := Finset.mem_insert_self X S
  have hal := hT.aligned X hXT
  have horder : X.order - 1 ≤ m := (Nat.sub_le _ _).trans (hT.order_le X hXT)
  rw [Finset.insert_eq] at hT
  have hR := hT.exchange (R := {X.lowHalf, X.highHalf}) (Finset.disjoint_singleton_left.2 hX)
    (by simpa using ⟨Block.lowHalf_aligned hal, Block.highHalf_aligned hal ho⟩)
    (by simpa [Block.lowHalf, Block.highHalf] using horder)
    (by
      have hne : ∀ p, p ∈ X.lowHalf.cells → p ∈ X.highHalf.cells → False := fun p hp hp' =>
        Finset.disjoint_left.1 (Block.disjoint_halves hal ho) hp hp'
      intro A hA B hB p hpA hpB
      rw [Finset.mem_insert, Finset.mem_singleton] at hA hB
      rcases hA with rfl | rfl <;> rcases hB with rfl | rfl
      · rfl
      · exact (hne p hpA hpB).elim
      · exact (hne p hpB hpA).elim
      · rfl)
    (by simp [Block.cells_halves hal ho])
  simpa [Finset.insert_union, Finset.singleton_union] using hR

/-- **Merging** a block of a tiling with its buddy. -/
theorem merge (hT : Tiling n m (insert X (insert X.buddy S))) (hX : X ∉ S) (hbuddy : X.buddy ∉ S)
    (ho : X.order < m) : Tiling n m (insert X.parent S) := by
  have hal := hT.aligned X (Finset.mem_insert_self _ _)
  have heq : insert X (insert X.buddy S) = {X, X.buddy} ∪ S := by
    rw [Finset.insert_union, Finset.singleton_union]
  rw [heq] at hT
  have hR := hT.exchange (R := {X.parent}) (by simp [hX, hbuddy])
    (by simpa using Block.parent_aligned X) (by simpa using ho)
    (fun A hA B hB _ _ _ => (Finset.mem_singleton.1 hA).trans (Finset.mem_singleton.1 hB).symm)
    (by simp [Block.cells_parent hal])
  rwa [Finset.singleton_union] at hR

/-- The tiling by single positions. -/
theorem singles (n m : ℕ) : Tiling n m ((Finset.range n).image fun i => ⟨i, 0⟩) := by
  refine ⟨?_, ?_, ?_, ?_, ?_⟩
  · intro B hB
    obtain ⟨i, -, rfl⟩ := Finset.mem_image.1 hB
    exact one_dvd i
  · intro B hB
    obtain ⟨i, -, rfl⟩ := Finset.mem_image.1 hB
    exact Nat.zero_le m
  · intro B hB
    obtain ⟨i, hi, rfl⟩ := Finset.mem_image.1 hB
    simpa [Nat.succ_le_iff] using hi
  · intro A hA B hB p hpA hpB
    obtain ⟨i, -, rfl⟩ := Finset.mem_image.1 hA
    obtain ⟨j, -, rfl⟩ := Finset.mem_image.1 hB
    simp only [Block.mem_cells, pow_zero] at hpA hpB
    congr 1
    omega
  · intro p hp
    exact ⟨⟨p, 0⟩, Finset.mem_image.2 ⟨p, Finset.mem_range.2 hp, rfl⟩, Block.index_mem_cells _⟩

end Tiling

/-! ### Pools and focuses -/

/-- No two blocks of the family below the order `m` are buddies. -/
def Coalesced (m : ℕ) (F : Finset Block) : Prop := ∀ B ∈ F, B.order < m → B.buddy ∉ F

/-- A partition into used and free blocks, the free ones coalesced. -/
structure Pool (n m : ℕ) where
  /-- The blocks in use. -/
  used : Finset Block
  /-- The free blocks. -/
  free : Finset Block
  tiling : Tiling n m (used ∪ free)
  disjoint : Disjoint used free
  coalesced : Coalesced m free

/-- A pool with one block, the `hole`, taken out. -/
structure Focus (n m : ℕ) where
  /-- The blocks in use. -/
  used : Finset Block
  /-- The free blocks. -/
  free : Finset Block
  /-- The block taken out. -/
  hole : Block
  tiling : Tiling n m (insert hole (used ∪ free))
  hole_not_used : hole ∉ used
  hole_not_free : hole ∉ free
  disjoint : Disjoint used free
  coalesced : Coalesced m free

/-- The positions of a family of blocks. -/
def cellsOf (F : Finset Block) : Finset ℕ := F.biUnion Block.cells

theorem mem_cellsOf {F : Finset Block} {p : ℕ} : p ∈ cellsOf F ↔ ∃ B ∈ F, p ∈ B.cells := by
  simp [cellsOf]

@[simp] theorem cellsOf_insert (B : Block) (F : Finset Block) :
    cellsOf (insert B F) = B.cells ∪ cellsOf F := by
  simp [cellsOf]

namespace Focus

variable {n m : ℕ}

/-- The positions that are free or in the hole. -/
def cells (Φ : Focus n m) : Finset ℕ := cellsOf Φ.free ∪ Φ.hole.cells

theorem hole_mem (Φ : Focus n m) : Φ.hole ∈ insert Φ.hole (Φ.used ∪ Φ.free) :=
  Finset.mem_insert_self _ _

theorem used_mem (Φ : Focus n m) {B : Block} (hB : B ∈ Φ.used) :
    B ∈ insert Φ.hole (Φ.used ∪ Φ.free) :=
  Finset.mem_insert_of_mem (Finset.mem_union_left _ hB)

theorem free_mem (Φ : Focus n m) {B : Block} (hB : B ∈ Φ.free) :
    B ∈ insert Φ.hole (Φ.used ∪ Φ.free) :=
  Finset.mem_insert_of_mem (Finset.mem_union_right _ hB)

theorem hole_aligned (Φ : Focus n m) : Φ.hole.Aligned := Φ.tiling.aligned _ Φ.hole_mem

/-- A block of the pool that meets the hole is the hole. -/
theorem eq_hole_of_meet (Φ : Focus n m) {B : Block} (hB : B ∈ insert Φ.hole (Φ.used ∪ Φ.free))
    {p : ℕ} (hp : p ∈ B.cells) (hp' : p ∈ Φ.hole.cells) : B = Φ.hole :=
  Φ.tiling.eq_of_meet B hB Φ.hole Φ.hole_mem p hp hp'

/-- A proper part of the hole is no block of the pool. -/
theorem not_mem_of_part (Φ : Focus n m) {B : Block} (hsub : B.cells ⊆ Φ.hole.cells)
    (hne : B ≠ Φ.hole) : B ∉ Φ.used ∧ B ∉ Φ.free := by
  have hmeet := hsub B.index_mem_cells
  exact ⟨fun h => hne (Φ.eq_hole_of_meet (Φ.used_mem h) B.index_mem_cells hmeet),
    fun h => hne (Φ.eq_hole_of_meet (Φ.free_mem h) B.index_mem_cells hmeet)⟩

theorem lowHalf_not_mem (Φ : Focus n m) (ho : 0 < Φ.hole.order) :
    Φ.hole.lowHalf ∉ Φ.used ∧ Φ.hole.lowHalf ∉ Φ.free := by
  refine Φ.not_mem_of_part ?_ ?_
  · rw [Block.cells_halves Φ.hole_aligned ho]
    exact Finset.subset_union_left
  · intro h
    have := congrArg Block.order h
    simp only [Block.lowHalf] at this
    omega

theorem highHalf_not_mem (Φ : Focus n m) (ho : 0 < Φ.hole.order) :
    Φ.hole.highHalf ∉ Φ.used ∧ Φ.hole.highHalf ∉ Φ.free := by
  refine Φ.not_mem_of_part ?_ ?_
  · rw [Block.cells_halves Φ.hole_aligned ho]
    exact Finset.subset_union_right
  · intro h
    have := congrArg Block.order h
    simp only [Block.highHalf] at this
    omega

/-- **Splitting the hole**: the second half becomes free, the first half stays out. -/
def split (Φ : Focus n m) (ho : 0 < Φ.hole.order) : Focus n m where
  used := Φ.used
  free := insert Φ.hole.highHalf Φ.free
  hole := Φ.hole.lowHalf
  tiling := by
    rw [Finset.union_insert]
    exact Φ.tiling.split (by simpa using ⟨Φ.hole_not_used, Φ.hole_not_free⟩) ho
  hole_not_used := (Φ.lowHalf_not_mem ho).1
  hole_not_free := by
    rw [Finset.mem_insert, not_or, ← Block.buddy_lowHalf Φ.hole_aligned ho]
    exact ⟨(Block.buddy_ne _ (Block.lowHalf_aligned Φ.hole_aligned)).symm,
      (Φ.lowHalf_not_mem ho).2⟩
  disjoint := Finset.disjoint_insert_right.2 ⟨(Φ.highHalf_not_mem ho).1, Φ.disjoint⟩
  coalesced := by
    have hlow := Block.lowHalf_aligned Φ.hole_aligned
    have hbuddy := Block.buddy_lowHalf Φ.hole_aligned ho
    intro B hB hBm hmem
    rcases Finset.mem_insert.1 hB with rfl | hB
    · -- the buddy of the second half is the first half, which is out of the pool
      rw [← hbuddy, Block.buddy_buddy hlow, hbuddy] at hmem
      rcases Finset.mem_insert.1 hmem with h | h
      · exact Block.buddy_ne _ hlow (hbuddy.trans h.symm)
      · exact (Φ.lowHalf_not_mem ho).2 h
    · rcases Finset.mem_insert.1 hmem with h | h
      · have hBal := Φ.tiling.aligned B (Φ.free_mem hB)
        rw [← hbuddy] at h
        have : B = Φ.hole.lowHalf := by
          rw [← Block.buddy_buddy hBal, h, Block.buddy_buddy hlow]
        exact (Φ.lowHalf_not_mem ho).2 (this ▸ hB)
      · exact Φ.coalesced B hB hBm h

theorem split_cells (Φ : Focus n m) (ho : 0 < Φ.hole.order) : (Φ.split ho).cells = Φ.cells := by
  simp only [cells, split, cellsOf_insert, Block.cells_halves Φ.hole_aligned ho]
  ext p
  simp only [Finset.mem_union]
  tauto

/-- **Merging the hole** with its free buddy. -/
def merge (Φ : Focus n m) (hbuddy : Φ.hole.buddy ∈ Φ.free) (ho : Φ.hole.order < m) :
    Focus n m where
  used := Φ.used
  free := Φ.free.erase Φ.hole.buddy
  hole := Φ.hole.parent
  tiling := by
    have hbu : Φ.hole.buddy ∉ Φ.used := fun h => Finset.disjoint_left.1 Φ.disjoint h hbuddy
    have heq : Φ.used ∪ Φ.free = insert Φ.hole.buddy (Φ.used ∪ Φ.free.erase Φ.hole.buddy) := by
      rw [← Finset.union_insert, Finset.insert_erase hbuddy]
    have hT := Φ.tiling
    rw [heq] at hT
    exact hT.merge (by simp [Φ.hole_not_used, Φ.hole_not_free]) (by simp [hbu]) ho
  hole_not_used := by
    intro h
    have hmeet : Φ.hole.index ∈ Φ.hole.parent.cells := by
      rw [Block.cells_parent Φ.hole_aligned]
      exact Finset.mem_union_left _ Φ.hole.index_mem_cells
    have := congrArg Block.order
      (Φ.eq_hole_of_meet (Φ.used_mem h) hmeet Φ.hole.index_mem_cells)
    simp at this
  hole_not_free := by
    intro h
    have hmeet : Φ.hole.index ∈ Φ.hole.parent.cells := by
      rw [Block.cells_parent Φ.hole_aligned]
      exact Finset.mem_union_left _ Φ.hole.index_mem_cells
    have := congrArg Block.order
      (Φ.eq_hole_of_meet (Φ.free_mem (Finset.mem_of_mem_erase h)) hmeet Φ.hole.index_mem_cells)
    simp at this
  disjoint := Φ.disjoint.mono_right (Finset.erase_subset _ _)
  coalesced := fun B hB hBm h =>
    Φ.coalesced B (Finset.mem_of_mem_erase hB) hBm (Finset.mem_of_mem_erase h)

theorem merge_cells (Φ : Focus n m) (hbuddy : Φ.hole.buddy ∈ Φ.free) (ho : Φ.hole.order < m) :
    (Φ.merge hbuddy ho).cells = Φ.cells := by
  have hfree : cellsOf Φ.free = Φ.hole.buddy.cells ∪ cellsOf (Φ.free.erase Φ.hole.buddy) := by
    rw [← cellsOf_insert, Finset.insert_erase hbuddy]
  simp only [cells, merge, hfree, Block.cells_parent Φ.hole_aligned]
  ext p
  simp only [Finset.mem_union]
  tauto

/-- **The buddy position of the hole heads a block of the pool**, of at most the order of the
hole: alignment leaves no larger block that could cover it. -/
theorem exists_head (Φ : Focus n m) (hlt : Φ.hole.buddy.index < n) :
    ∃ B ∈ Φ.used ∪ Φ.free, B.index = Φ.hole.buddy.index ∧ B.order ≤ Φ.hole.order := by
  have hal := Φ.hole_aligned
  have hbal := Block.buddy_aligned hal
  obtain ⟨B, hB, hpB⟩ := Φ.tiling.cover _ hlt
  have hBal := Φ.tiling.aligned B hB
  have hne : B ≠ Φ.hole := by
    rintro rfl
    exact Finset.disjoint_left.1 (Block.disjoint_buddy hal) hpB (Block.index_mem_cells _)
  have horder : B.order ≤ Φ.hole.order := by
    by_contra hgt
    -- a larger block would contain the parent, hence the hole
    have hsub := Block.parent_subset_of_meet hbal hBal (Nat.lt_of_not_le hgt)
      (Block.index_mem_cells _) hpB
    rw [Block.parent_buddy hal, Block.cells_parent hal] at hsub
    exact hne (Φ.eq_hole_of_meet hB (hsub (Finset.mem_union_left _ Φ.hole.index_mem_cells))
      Φ.hole.index_mem_cells)
  exact ⟨B, (Finset.mem_insert.1 hB).resolve_left hne,
    Block.index_eq_of_mem hBal horder hbal hpB, horder⟩

/-- Putting the hole back in use. -/
def fillUsed (Φ : Focus n m) : Pool n m where
  used := insert Φ.hole Φ.used
  free := Φ.free
  tiling := by
    rw [Finset.insert_union]
    exact Φ.tiling
  disjoint := Finset.disjoint_insert_left.2 ⟨Φ.hole_not_free, Φ.disjoint⟩
  coalesced := Φ.coalesced

/-- Putting the hole back free, when it cannot merge. -/
def fillFree (Φ : Focus n m) (h : Φ.hole.order < m → Φ.hole.buddy ∉ Φ.free) : Pool n m where
  used := Φ.used
  free := insert Φ.hole Φ.free
  tiling := by
    rw [Finset.union_insert]
    exact Φ.tiling
  disjoint := Finset.disjoint_insert_right.2 ⟨Φ.hole_not_used, Φ.disjoint⟩
  coalesced := by
    intro B hB hBm hmem
    rcases Finset.mem_insert.1 hB with rfl | hB
    · rcases Finset.mem_insert.1 hmem with h' | h'
      · exact Block.buddy_ne _ Φ.hole_aligned h'
      · exact h hBm h'
    · rcases Finset.mem_insert.1 hmem with h' | h'
      · have hBal := Φ.tiling.aligned B (Φ.free_mem hB)
        have : Φ.hole.buddy = B := by rw [← h', Block.buddy_buddy hBal]
        exact h (by rw [← h']; exact hBm) (this ▸ hB)
      · exact Φ.coalesced B hB hBm h'

end Focus

namespace Pool

variable {n m : ℕ}

/-- The free positions. -/
def freeCells (P : Pool n m) : Finset ℕ := cellsOf P.free

/-- The positions in use. -/
def usedCells (P : Pool n m) : Finset ℕ := cellsOf P.used

theorem used_mem (P : Pool n m) {B : Block} (hB : B ∈ P.used) : B ∈ P.used ∪ P.free :=
  Finset.mem_union_left _ hB

theorem free_mem (P : Pool n m) {B : Block} (hB : B ∈ P.free) : B ∈ P.used ∪ P.free :=
  Finset.mem_union_right _ hB

/-- The pool of single positions, all of them in use. -/
def allUsed (n m : ℕ) : Pool n m where
  used := (Finset.range n).image fun i => ⟨i, 0⟩
  free := ∅
  tiling := by
    rw [Finset.union_empty]
    exact Tiling.singles n m
  disjoint := Finset.disjoint_empty_right _
  coalesced := fun B hB => absurd hB (Finset.notMem_empty B)

/-- Taking a free block out. -/
def takeFree (P : Pool n m) (B : Block) (hB : B ∈ P.free) : Focus n m where
  used := P.used
  free := P.free.erase B
  hole := B
  tiling := by
    rw [← Finset.union_insert, Finset.insert_erase hB]
    exact P.tiling
  hole_not_used := fun h => Finset.disjoint_left.1 P.disjoint h hB
  hole_not_free := Finset.notMem_erase B P.free
  disjoint := P.disjoint.mono_right (Finset.erase_subset _ _)
  coalesced := fun C hC hCm h =>
    P.coalesced C (Finset.mem_of_mem_erase hC) hCm (Finset.mem_of_mem_erase h)

/-- Taking a block in use out. -/
def takeUsed (P : Pool n m) (B : Block) (hB : B ∈ P.used) : Focus n m where
  used := P.used.erase B
  free := P.free
  hole := B
  tiling := by
    rw [← Finset.insert_union, Finset.insert_erase hB]
    exact P.tiling
  hole_not_used := Finset.notMem_erase B P.used
  hole_not_free := fun h => Finset.disjoint_left.1 P.disjoint hB h
  disjoint := P.disjoint.mono_left (Finset.erase_subset _ _)
  coalesced := P.coalesced

theorem takeUsed_cells (P : Pool n m) (B : Block) (hB : B ∈ P.used) :
    (P.takeUsed B hB).cells = P.freeCells ∪ B.cells := rfl

/-- The free positions are counted by the sizes of the free blocks. -/
theorem card_freeCells (P : Pool n m) : P.freeCells.card = ∑ B ∈ P.free, 2 ^ B.order := by
  rw [freeCells, cellsOf, Finset.card_biUnion]
  · simp
  · intro A hA B hB hne
    exact P.tiling.pairwiseDisjoint (P.free_mem hA) (P.free_mem hB) hne

/-- The positions in use are counted by the sizes of the blocks in use. -/
theorem card_usedCells (P : Pool n m) : P.usedCells.card = ∑ B ∈ P.used, 2 ^ B.order := by
  rw [usedCells, cellsOf, Finset.card_biUnion]
  · simp
  · intro A hA B hB hne
    exact P.tiling.pairwiseDisjoint (P.used_mem hA) (P.used_mem hB) hne

/-- The used and the free positions are all the positions. -/
theorem usedCells_union_freeCells (P : Pool n m) :
    P.usedCells ∪ P.freeCells = Finset.range n := by
  ext p
  simp only [Finset.mem_union, usedCells, freeCells, mem_cellsOf, Finset.mem_range]
  constructor
  · rintro (⟨B, hB, hp⟩ | ⟨B, hB, hp⟩)
    · exact P.tiling.mem_cells_lt (P.used_mem hB) hp
    · exact P.tiling.mem_cells_lt (P.free_mem hB) hp
  · intro hp
    obtain ⟨B, hB, hpB⟩ := P.tiling.cover p hp
    rcases Finset.mem_union.1 hB with hB | hB
    · exact .inl ⟨B, hB, hpB⟩
    · exact .inr ⟨B, hB, hpB⟩

/-- A position is used or free. -/
theorem used_or_free (P : Pool n m) {p : ℕ} (hp : p < n) : p ∈ P.usedCells ∨ p ∈ P.freeCells := by
  rw [← Finset.mem_union, P.usedCells_union_freeCells]
  exact Finset.mem_range.2 hp

theorem disjoint_usedCells_freeCells (P : Pool n m) : Disjoint P.usedCells P.freeCells := by
  rw [Finset.disjoint_left]
  intro p hp hp'
  obtain ⟨A, hA, hpA⟩ := mem_cellsOf.1 hp
  obtain ⟨B, hB, hpB⟩ := mem_cellsOf.1 hp'
  have hAB := P.tiling.eq_of_meet A (P.used_mem hA) B (P.free_mem hB) p hpA hpB
  exact Finset.disjoint_left.1 P.disjoint hA (hAB ▸ hB)

theorem freeCells_eq_sdiff (P : Pool n m) : P.freeCells = Finset.range n \ P.usedCells := by
  rw [← P.usedCells_union_freeCells, Finset.union_sdiff_cancel_left P.disjoint_usedCells_freeCells]

/-- The sizes of the blocks add up to the number of positions. -/
theorem sum_sizes (P : Pool n m) :
    ∑ B ∈ P.used, 2 ^ B.order + ∑ B ∈ P.free, 2 ^ B.order = n := by
  rw [← card_usedCells, ← card_freeCells,
    ← Finset.card_union_of_disjoint P.disjoint_usedCells_freeCells, usedCells_union_freeCells,
    Finset.card_range]

/-- The free positions that a new block in use takes away. -/
theorem freeCells_of_insert {P Q : Pool n m} {X : Block} (hX : X ∉ P.used)
    (h : Q.used = insert X P.used) :
    X.cells ⊆ P.freeCells ∧ Q.freeCells = P.freeCells \ X.cells := by
  have hXQ : X ∈ Q.used := h ▸ Finset.mem_insert_self X P.used
  have hmem : ∀ B ∈ P.used, B ∈ Q.used := fun B hB => h ▸ Finset.mem_insert_of_mem hB
  have hcells : Q.usedCells = X.cells ∪ P.usedCells := by
    rw [usedCells, h, cellsOf_insert, usedCells]
  rw [Q.freeCells_eq_sdiff, P.freeCells_eq_sdiff, hcells]
  refine ⟨fun p hp => ?_, ?_⟩
  · rw [Finset.mem_sdiff, Finset.mem_range]
    refine ⟨Q.tiling.mem_cells_lt (Q.used_mem hXQ) hp, fun hp' => ?_⟩
    obtain ⟨B, hB, hpB⟩ := mem_cellsOf.1 hp'
    have := Q.tiling.eq_of_meet X (Q.used_mem hXQ) B (Q.used_mem (hmem B hB)) p hp hpB
    exact hX (this ▸ hB)
  · rw [sdiff_sdiff_left, Finset.sup_eq_union, Finset.union_comm]

/-- The free positions that a block in use gives back. -/
theorem freeCells_of_erase {P Q : Pool n m} {X : Block} (hX : X ∈ P.used)
    (h : Q.used = P.used.erase X) : Q.freeCells = P.freeCells ∪ X.cells := by
  obtain ⟨hsub, heq⟩ := freeCells_of_insert (P := Q) (Q := P) (X := X)
    (by simp [h]) (by rw [h, Finset.insert_erase hX])
  rw [heq, Finset.sdiff_union_of_subset hsub]

theorem card_freeCells_of_insert {P Q : Pool n m} {X : Block} (hX : X ∉ P.used)
    (h : Q.used = insert X P.used) : Q.freeCells.card + 2 ^ X.order = P.freeCells.card := by
  obtain ⟨hsub, heq⟩ := freeCells_of_insert hX h
  rw [heq, ← X.card_cells, Finset.card_sdiff_add_card_eq_card hsub]

theorem card_freeCells_of_erase {P Q : Pool n m} {X : Block} (hX : X ∈ P.used)
    (h : Q.used = P.used.erase X) : Q.freeCells.card = P.freeCells.card + 2 ^ X.order :=
  (card_freeCells_of_insert (by simp [h]) (by rw [h, Finset.insert_erase hX])).symm

/-! ### Maximality of the free blocks -/

/-- **Free blocks are maximal**: a dyadic block of free positions lies inside one free block. -/
theorem exists_free_superset (P : Pool n m) :
    ∀ (o i : ℕ), 2 ^ o ∣ i → o ≤ m → (⟨i, o⟩ : Block).cells ⊆ P.freeCells →
      ∃ B ∈ P.free, (⟨i, o⟩ : Block).cells ⊆ B.cells := by
  intro o
  induction o with
  | zero =>
      intro i hi _ hsub
      obtain ⟨B, hB, hp⟩ := mem_cellsOf.1 (hsub (Block.index_mem_cells ⟨i, 0⟩))
      exact ⟨B, hB, Block.cells_subset_of_meet hi (P.tiling.aligned B (P.free_mem hB))
        (Nat.zero_le _) (Block.index_mem_cells ⟨i, 0⟩) hp⟩
  | succ o ih =>
      intro i hi hom hsub
      set C : Block := ⟨i, o + 1⟩ with hC
      have hCal : C.Aligned := hi
      have hpos : 0 < C.order := Nat.succ_pos o
      rw [Block.cells_halves hCal hpos] at hsub
      have hlow : C.lowHalf.Aligned := Block.lowHalf_aligned hCal
      have hhigh : C.highHalf.Aligned := Block.highHalf_aligned hCal hpos
      obtain ⟨A, hA, hAsub⟩ := ih _ hlow (by omega)
        (Finset.subset_union_left.trans hsub)
      obtain ⟨B, hB, hBsub⟩ := ih _ hhigh (by omega)
        (Finset.subset_union_right.trans hsub)
      have hAal := P.tiling.aligned A (P.free_mem hA)
      have hBal := P.tiling.aligned B (P.free_mem hB)
      have hmeetA := hAsub C.lowHalf.index_mem_cells
      have hmeetB := hBsub C.highHalf.index_mem_cells
      have hlowC : C.lowHalf.index ∈ C.cells := by
        rw [Block.cells_halves hCal hpos]
        exact Finset.mem_union_left _ (Block.index_mem_cells _)
      have hhighC : C.highHalf.index ∈ C.cells := by
        rw [Block.cells_halves hCal hpos]
        exact Finset.mem_union_right _ (Block.index_mem_cells _)
      by_cases hAo : C.order ≤ A.order
      · exact ⟨A, hA, Block.cells_subset_of_meet hCal hAal hAo hlowC hmeetA⟩
      by_cases hBo : C.order ≤ B.order
      · exact ⟨B, hB, Block.cells_subset_of_meet hCal hBal hBo hhighC hmeetB⟩
      -- otherwise the two halves are free blocks themselves, and buddies
      have hAeq : C.lowHalf = A := Block.eq_of_mem_of_order_eq hlow hAal
        (le_antisymm (Block.order_le_of_subset hAsub) (by simp only [Block.lowHalf]; omega))
        (Block.index_mem_cells _) hmeetA
      have hBeq : C.highHalf = B := Block.eq_of_mem_of_order_eq hhigh hBal
        (le_antisymm (Block.order_le_of_subset hBsub) (by simp only [Block.highHalf]; omega))
        (Block.index_mem_cells _) hmeetB
      have hcoal := P.coalesced A hA (by rw [← hAeq]; simp only [Block.lowHalf, hC]; omega)
      rw [← hAeq, Block.buddy_lowHalf hCal hpos, hBeq] at hcoal
      exact absurd hB hcoal

/-- **A large free block is as good as an aligned run of free cells**, up to the greatest order that
fits the pool. -/
theorem exists_free_iff (P : Pool n (Nat.log 2 n)) {o : ℕ} : (∃ B ∈ P.free, o ≤ B.order) ↔
    ∃ i, 2 ^ o ∣ i ∧ i + 2 ^ o ≤ n ∧ (⟨i, o⟩ : Block).cells ⊆ P.freeCells := by
  constructor
  · rintro ⟨B, hB, ho⟩
    have hle : 2 ^ o ≤ 2 ^ B.order := Nat.pow_le_pow_right (by decide) ho
    have hsub : (⟨B.index, o⟩ : Block).cells ⊆ B.cells :=
      Finset.Ico_subset_Ico_right (Nat.add_le_add_left hle _)
    refine ⟨B.index, (Nat.pow_dvd_pow 2 ho).trans (P.tiling.aligned B (P.free_mem hB)), ?_,
      hsub.trans fun p hp => mem_cellsOf.2 ⟨B, hB, hp⟩⟩
    exact (Nat.add_le_add_left hle _).trans (P.tiling.stop_le B (P.free_mem hB))
  · rintro ⟨i, hi, hn, hsub⟩
    have ho : o ≤ Nat.log 2 n := Nat.le_log_of_pow_le (by decide) (by omega)
    obtain ⟨B, hB, hcells⟩ := P.exists_free_superset o i hi ho hsub
    exact ⟨B, hB, Block.order_le_of_subset hcells⟩

theorem free_subset_of_freeCells_eq (P Q : Pool n m) (h : P.freeCells = Q.freeCells) :
    P.free ⊆ Q.free := by
  intro B hB
  have hBT := P.free_mem hB
  have hcells : B.cells ⊆ P.freeCells := Finset.subset_biUnion_of_mem Block.cells hB
  obtain ⟨C, hC, hBC⟩ := Q.exists_free_superset B.order B.index (P.tiling.aligned B hBT)
    (P.tiling.order_le B hBT) (h ▸ hcells)
  have hCT := Q.free_mem hC
  have hcells' : C.cells ⊆ Q.freeCells := Finset.subset_biUnion_of_mem Block.cells hC
  obtain ⟨B', hB', hCB'⟩ := P.exists_free_superset C.order C.index (Q.tiling.aligned C hCT)
    (Q.tiling.order_le C hCT) (h ▸ hcells')
  have hBB' : B = B' := P.tiling.eq_of_meet B hBT B' (P.free_mem hB') B.index B.index_mem_cells
    (hCB' (hBC B.index_mem_cells))
  have heq : B.cells = C.cells := Finset.Subset.antisymm hBC (hBB' ▸ hCB')
  have horder : B.order = C.order := by
    have := congrArg Finset.card heq
    rw [Block.card_cells, Block.card_cells] at this
    exact Nat.pow_right_injective (le_refl 2) this
  have := Block.eq_of_mem_of_order_eq (P.tiling.aligned B hBT) (Q.tiling.aligned C hCT) horder
    B.index_mem_cells (heq ▸ B.index_mem_cells)
  exact this ▸ hC

/-- **The free blocks are determined by the free positions.** -/
theorem free_eq_of_freeCells_eq (P Q : Pool n m) (h : P.freeCells = Q.freeCells) :
    P.free = Q.free :=
  Finset.Subset.antisymm (P.free_subset_of_freeCells_eq Q h) (Q.free_subset_of_freeCells_eq P h.symm)

/-- The free blocks are determined by the blocks in use. -/
theorem free_eq_of_used_eq (P Q : Pool n m) (h : P.used = Q.used) : P.free = Q.free := by
  refine P.free_eq_of_freeCells_eq Q ?_
  rw [P.freeCells_eq_sdiff, Q.freeCells_eq_sdiff, usedCells, usedCells, h]

end Pool

end DyadicBlocks
