/-
**Dyadic blocks.**

A *dyadic block* is a run of `2 ^ order` consecutive positions; it is aligned when it starts at a
multiple of its length.  Aligned blocks are the nodes of the binary tree over the positions: two
of them that meet are nested, and a block and its *buddy* are the two halves of its *parent*.
This module develops that geometry; `AimKernel/DyadicPool.lean` builds partitions out of it.

Main definitions:

* `DyadicBlocks.Block` — a block, with its `cells`;
* `DyadicBlocks.Block.parent`, `DyadicBlocks.Block.buddy` — the next larger aligned block, and the other half
  of it;
* `DyadicBlocks.Block.lowHalf`, `DyadicBlocks.Block.highHalf` — the two halves of a block.

Main results:

* `DyadicBlocks.Block.mem_cells_iff` — membership in an aligned block is equality of quotients;
* `DyadicBlocks.Block.cells_subset_of_meet` — **aligned blocks that meet are nested**;
* `DyadicBlocks.Block.cells_parent` — a parent is its two halves;
* `DyadicBlocks.Block.index_eq_of_mem` — an aligned position in a block no larger than the alignment is
  the head of that block.
-/

import AimKernel.Bits

set_option relaxedAutoImplicit false
set_option autoImplicit false

namespace DyadicBlocks

/-- A run of `2 ^ order` consecutive positions starting at `index`. -/
@[ext] structure Block where
  /-- The first position. -/
  index : ℕ
  /-- The binary logarithm of the length. -/
  order : ℕ
deriving DecidableEq, Repr

namespace Block

/-- The positions of a block. -/
def cells (B : Block) : Finset ℕ := Finset.Ico B.index (B.index + 2 ^ B.order)

/-- A block is aligned when it starts at a multiple of its length. -/
def Aligned (B : Block) : Prop := 2 ^ B.order ∣ B.index

@[simp] theorem mem_cells {B : Block} {p : ℕ} :
    p ∈ B.cells ↔ B.index ≤ p ∧ p < B.index + 2 ^ B.order := by
  simp [cells]

theorem index_mem_cells (B : Block) : B.index ∈ B.cells := by
  simp

@[simp] theorem card_cells (B : Block) : B.cells.card = 2 ^ B.order := by
  simp [cells]

theorem order_le_of_subset {A B : Block} (h : A.cells ⊆ B.cells) : A.order ≤ B.order := by
  have hcard := Finset.card_le_card h
  rw [card_cells, card_cells] at hcard
  exact (Nat.pow_le_pow_iff_right (by decide)).1 hcard

/-- **Membership in an aligned block is equality of quotients.** -/
theorem mem_cells_iff {B : Block} (hB : B.Aligned) {p : ℕ} :
    p ∈ B.cells ↔ p / 2 ^ B.order = B.index / 2 ^ B.order := by
  obtain ⟨q, hq⟩ := hB
  have hpos := Nat.two_pow_pos B.order
  rw [mem_cells, hq, Nat.mul_div_cancel_left _ hpos, Nat.div_eq_iff hpos,
    Nat.mul_comm (2 ^ B.order) q]
  omega

/-- An aligned block is determined by its order and one of its positions. -/
theorem eq_of_mem_of_order_eq {A B : Block} (hA : A.Aligned) (hB : B.Aligned)
    (ho : A.order = B.order) {p : ℕ} (hpA : p ∈ A.cells) (hpB : p ∈ B.cells) : A = B := by
  rw [mem_cells_iff hA] at hpA
  rw [mem_cells_iff hB, ← ho, hpA] at hpB
  have hindex : A.index = B.index := by
    rw [← Nat.div_mul_cancel hA, hpB, ho, Nat.div_mul_cancel hB]
  exact Block.ext hindex ho

/-- **Aligned blocks that meet are nested.** -/
theorem cells_subset_of_meet {A B : Block} (hA : A.Aligned) (hB : B.Aligned)
    (ho : A.order ≤ B.order) {p : ℕ} (hpA : p ∈ A.cells) (hpB : p ∈ B.cells) :
    A.cells ⊆ B.cells := by
  intro q hq
  rw [mem_cells_iff hA] at hpA hq
  rw [mem_cells_iff hB] at hpB ⊢
  -- the quotient by the larger power only depends on the quotient by the smaller one
  have hcoarse : ∀ r, r / 2 ^ B.order = r / 2 ^ A.order / 2 ^ (B.order - A.order) := by
    intro r
    rw [Nat.div_div_eq_div_mul, ← pow_add, Nat.add_sub_cancel' ho]
  rw [hcoarse, hq, ← hpA, ← hcoarse, hpB]

/-- An aligned position in a block no larger than the alignment is the head of that block. -/
theorem index_eq_of_mem {B : Block} (hB : B.Aligned) {p o : ℕ} (ho : B.order ≤ o)
    (hp : 2 ^ o ∣ p) (hpB : p ∈ B.cells) : B.index = p := by
  rw [mem_cells_iff hB] at hpB
  rw [← Nat.div_mul_cancel hB, ← hpB]
  exact Nat.div_mul_cancel ((Nat.pow_dvd_pow 2 ho).trans hp)

/-! ### Parents and buddies -/

/-- The aligned block of the next order around an aligned block. -/
def parent (B : Block) : Block :=
  ⟨B.index / 2 ^ (B.order + 1) * 2 ^ (B.order + 1), B.order + 1⟩

/-- The other half of the parent. -/
def buddy (B : Block) : Block :=
  ⟨if 2 ^ (B.order + 1) ∣ B.index then B.index + 2 ^ B.order else B.index - 2 ^ B.order, B.order⟩

@[simp] theorem parent_order (B : Block) : B.parent.order = B.order + 1 := rfl

@[simp] theorem buddy_order (B : Block) : B.buddy.order = B.order := rfl

theorem parent_aligned (B : Block) : B.parent.Aligned := Dvd.intro_left _ rfl

theorem buddy_aligned {B : Block} (hB : B.Aligned) : B.buddy.Aligned := by
  unfold buddy Aligned
  split
  · exact (Nat.dvd_add_right hB).2 dvd_rfl
  · exact Nat.dvd_sub hB dvd_rfl

/-- The two shapes of a block and its buddy: one starts at a multiple of twice their length, and
the other lies right behind it. -/
theorem buddy_cases {B : Block} (hB : B.Aligned) :
    (2 ^ (B.order + 1) ∣ B.index ∧ B.buddy.index = B.index + 2 ^ B.order) ∨
      (¬ 2 ^ (B.order + 1) ∣ B.index ∧ B.index = B.buddy.index + 2 ^ B.order ∧
        2 ^ (B.order + 1) ∣ B.buddy.index) := by
  by_cases h : 2 ^ (B.order + 1) ∣ B.index
  · exact .inl ⟨h, by simp [buddy, h]⟩
  · obtain ⟨hle, hdvd⟩ := Bits.dvd_sub_two_pow hB h
    have hindex : B.buddy.index = B.index - 2 ^ B.order := by simp [buddy, h]
    refine .inr ⟨h, by rw [hindex]; omega, ?_⟩
    rwa [hindex]

theorem buddy_buddy {B : Block} (hB : B.Aligned) : B.buddy.buddy = B := by
  have hpos := Nat.two_pow_pos B.order
  refine Block.ext ?_ rfl
  rcases buddy_cases hB with ⟨h, hi⟩ | ⟨h, hi, hdvd⟩
  · rcases buddy_cases (buddy_aligned hB) with ⟨h', -⟩ | ⟨-, hi', -⟩
    · -- the buddy of an even block is odd
      rw [buddy_order, hi, Nat.dvd_add_right h] at h'
      have := Nat.le_of_dvd hpos h'
      rw [pow_succ] at this
      omega
    · rw [buddy_order] at hi'
      omega
  · rcases buddy_cases (buddy_aligned hB) with ⟨-, hi'⟩ | ⟨h', -, -⟩
    · rw [hi', buddy_order, ← hi]
    · exact absurd hdvd h'

theorem buddy_ne (B : Block) (hB : B.Aligned) : B.buddy ≠ B := by
  have hpos := Nat.two_pow_pos B.order
  intro h
  have hindex := congrArg index h
  rcases buddy_cases hB with ⟨-, hi⟩ | ⟨-, hi, -⟩ <;> omega

/-- **A parent is its two halves.** -/
theorem cells_parent {B : Block} (hB : B.Aligned) :
    B.parent.cells = B.cells ∪ B.buddy.cells := by
  have hpos := Nat.two_pow_pos B.order
  have hround : ∀ i, 2 ^ (B.order + 1) ∣ i →
      i / 2 ^ (B.order + 1) * 2 ^ (B.order + 1) = i := fun i hi => Nat.div_mul_cancel hi
  ext p
  simp only [mem_cells, Finset.mem_union, parent, buddy_order, pow_succ] at *
  rcases buddy_cases hB with ⟨h, hi⟩ | ⟨-, hi, h⟩
  · rw [hround _ (by rwa [pow_succ] at h), hi]
    omega
  · have hdiv : B.index / (2 ^ B.order * 2) = B.buddy.index / (2 ^ B.order * 2) := by
      obtain ⟨q, hq⟩ := h
      rw [pow_succ] at hq
      rw [hi, hq, Nat.mul_add_div (by omega), Nat.mul_div_cancel_left _ (by omega),
        Nat.div_eq_of_lt (by omega), add_zero]
    rw [hdiv, hround _ (by rwa [pow_succ] at h), hi]
    omega

theorem disjoint_buddy {B : Block} (hB : B.Aligned) : Disjoint B.cells B.buddy.cells := by
  rw [Finset.disjoint_left]
  intro p hp hp'
  exact buddy_ne B hB (eq_of_mem_of_order_eq (buddy_aligned hB) hB rfl hp' hp)

theorem parent_buddy {B : Block} (hB : B.Aligned) : B.buddy.parent = B.parent := by
  have hB' := buddy_aligned hB
  refine eq_of_mem_of_order_eq (parent_aligned _) (parent_aligned _) rfl (p := B.index) ?_ ?_
  · rw [cells_parent hB', buddy_buddy hB]
    exact Finset.mem_union_right _ (index_mem_cells B)
  · rw [cells_parent hB]
    exact Finset.mem_union_left _ (index_mem_cells B)

/-- A strictly larger aligned block that meets `A` contains the whole parent of `A`. -/
theorem parent_subset_of_meet {A B : Block} (hA : A.Aligned) (hB : B.Aligned)
    (ho : A.order < B.order) {p : ℕ} (hpA : p ∈ A.cells) (hpB : p ∈ B.cells) :
    A.parent.cells ⊆ B.cells := by
  refine cells_subset_of_meet (parent_aligned A) hB ho (p := p) ?_ hpB
  rw [cells_parent hA]
  exact Finset.mem_union_left _ hpA

/-! ### Halves -/

/-- The first half of a block of positive order. -/
def lowHalf (B : Block) : Block := ⟨B.index, B.order - 1⟩

/-- The second half of a block of positive order. -/
def highHalf (B : Block) : Block := ⟨B.index + 2 ^ (B.order - 1), B.order - 1⟩

theorem lowHalf_aligned {B : Block} (hB : B.Aligned) : B.lowHalf.Aligned :=
  (Nat.pow_dvd_pow 2 (Nat.sub_le _ _)).trans hB

theorem buddy_lowHalf {B : Block} (hB : B.Aligned) (ho : 0 < B.order) :
    B.lowHalf.buddy = B.highHalf := by
  have hdvd : 2 ^ (B.order - 1 + 1) ∣ B.index := by rwa [Nat.sub_add_cancel ho]
  simp [buddy, lowHalf, highHalf, hdvd]

theorem parent_lowHalf {B : Block} (hB : B.Aligned) (ho : 0 < B.order) :
    B.lowHalf.parent = B := by
  cases B with
  | mk i o =>
      obtain ⟨k, rfl⟩ : ∃ k, o = k + 1 := ⟨o - 1, by simp at ho; omega⟩
      simp only [parent, lowHalf, Nat.add_sub_cancel, Block.mk.injEq, and_true]
      exact Nat.div_mul_cancel hB

theorem highHalf_aligned {B : Block} (hB : B.Aligned) (ho : 0 < B.order) : B.highHalf.Aligned :=
  buddy_lowHalf hB ho ▸ buddy_aligned (lowHalf_aligned hB)

theorem cells_halves {B : Block} (hB : B.Aligned) (ho : 0 < B.order) :
    B.cells = B.lowHalf.cells ∪ B.highHalf.cells := by
  conv_lhs => rw [← parent_lowHalf hB ho]
  rw [cells_parent (lowHalf_aligned hB), buddy_lowHalf hB ho]

theorem disjoint_halves {B : Block} (hB : B.Aligned) (ho : 0 < B.order) :
    Disjoint B.lowHalf.cells B.highHalf.cells :=
  buddy_lowHalf hB ho ▸ disjoint_buddy (lowHalf_aligned hB)

end Block

end DyadicBlocks
