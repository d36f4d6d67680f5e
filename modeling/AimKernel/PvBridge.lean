/-
**Bridges from virtual memory to pages.**

A `struct virt_pvbridge` hands out blocks of virtual memory for the allocators above it.  What these
allocators rely on is a contract: a block that the bridge hands out is aligned as asked for and
shares no byte with the blocks that are still out; a block that is out can be given back.

Main definitions:

* `Aim.MemBlock`, `Aim.MemBlock.Apart`, `Aim.PairwiseApart` — blocks of memory without common bytes;
* `Aim.PvBridge` — the methods of `struct virt_pvbridge`;
* `Aim.BridgeContract`, `Aim.BlocksOut` — the contract, and what it makes of the blocks that are out.

Main results:

* `Aim.BlocksOut.alignedMalloc`, `Aim.BlocksOut.free` — **the blocks that are out stay pairwise
  apart.**
-/

import AimKernel.ListHead

set_option relaxedAutoImplicit false
set_option autoImplicit false

namespace Aim

/-! ### Blocks of memory -/

/-- A block of memory. -/
@[ext] structure MemBlock where
  start : Ptr
  size : ℕ
deriving DecidableEq

namespace MemBlock

/-- The byte at the address `a` is in the block. -/
def Covers (b : MemBlock) (a : ℕ) : Prop := b.start.toNat ≤ a ∧ a < b.start.toNat + b.size

/-- Two blocks without a common byte. -/
def Apart (b c : MemBlock) : Prop := ∀ a, b.Covers a → ¬ c.Covers a

theorem Apart.symm {b c : MemBlock} (h : b.Apart c) : c.Apart b := fun a hc hb => h a hb hc

/-- A part of a block is apart from everything that the block is apart from. -/
theorem Apart.mono {b b' c : MemBlock} (h : b.Apart c) (hsub : ∀ a, b'.Covers a → b.Covers a) :
    b'.Apart c := fun a hb => h a (hsub a hb)

/-- A block with a byte is not apart from itself. -/
theorem not_apart_self {b : MemBlock} (h : 0 < b.size) : ¬ b.Apart b := fun hself =>
  hself b.start.toNat ⟨le_rfl, by omega⟩ ⟨le_rfl, by omega⟩

end MemBlock

/-- No two of the blocks have a common byte. -/
def PairwiseApart (L : Multiset MemBlock) : Prop :=
  ∀ b c, ({b, c} : Multiset MemBlock) ≤ L → b.Apart c

theorem PairwiseApart.mono {L L' : Multiset MemBlock} (h : PairwiseApart L) (hle : L' ≤ L) :
    PairwiseApart L' := fun b c hbc => h b c (hbc.trans hle)

theorem pairwiseApart_zero : PairwiseApart 0 := fun b c hbc => by
  have hcard := Multiset.card_le_card hbc
  simp at hcard

theorem pairwiseApart_cons {b : MemBlock} {L : Multiset MemBlock} :
    PairwiseApart (b ::ₘ L) ↔ (∀ c ∈ L, b.Apart c) ∧ PairwiseApart L := by
  constructor
  · refine fun h => ⟨fun c hc => h b c ?_, h.mono (Multiset.le_cons_self L b)⟩
    exact Multiset.cons_le_cons b (Multiset.singleton_le.2 hc)
  · rintro ⟨hb, hL⟩ c d hcd
    -- `c` and `d` are in `L`, unless one of them is `b`
    by_cases hcb : c = b
    · subst hcb
      exact hb d (Multiset.singleton_le.1 ((Multiset.cons_le_cons_iff c).1 hcd))
    · by_cases hdb : d = b
      · subst hdb
        rw [Multiset.pair_comm] at hcd
        exact (hb c (Multiset.singleton_le.1 ((Multiset.cons_le_cons_iff d).1 hcd))).symm
      · refine hL c d ((Multiset.le_cons_of_notMem ?_).1 hcd)
        simp [Ne.symm hcb, Ne.symm hdb]

/-- Blocks of two kinds: those of each kind, and those of different kinds. -/
theorem pairwiseApart_add {L L' : Multiset MemBlock} : PairwiseApart (L + L') ↔
    PairwiseApart L ∧ PairwiseApart L' ∧ ∀ b ∈ L, ∀ c ∈ L', b.Apart c := by
  induction L using Multiset.induction_on with
  | empty => simp [pairwiseApart_zero]
  | cons b L ih =>
      rw [Multiset.cons_add, pairwiseApart_cons, pairwiseApart_cons, ih, Multiset.forall_mem_cons]
      simp only [Multiset.mem_add, or_imp, forall_and]
      tauto

/-! ### Bridges -/

/-- The methods of `struct virt_pvbridge`, over the state of the allocator behind it. -/
structure PvBridge (σ : Type) where
  malloc : ℕ → σ → Outcome (Ptr × σ)
  alignedMalloc : ℕ → ℕ → σ → Outcome (Ptr × σ)
  free : Ptr → σ → Outcome σ

/-- **What an allocator relies on in the bridge below it**: `Owns s L` says that the blocks `L` are
out, and `reserved` is the memory of the allocator itself, which the bridge never hands out. -/
structure BridgeContract {σ : Type} (B : PvBridge σ) (align : ℕ) (reserved : MemBlock)
    (Owns : σ → Multiset MemBlock → Prop) : Prop where
  /-- There may be no memory; a block is aligned, and apart from the blocks that are out. -/
  alignedMalloc : ∀ {s L size}, Owns s L → 0 < size → size < 2 ^ 32 →
    ∃ p s', B.alignedMalloc size align s = .ok (p, s') ∧ ((p = 0 ∧ Owns s' L) ∨
      (p ≠ 0 ∧ align ∣ p.toNat ∧ (∀ b ∈ reserved ::ₘ L, MemBlock.Apart ⟨p, size⟩ b) ∧
        Owns s' (⟨p, size⟩ ::ₘ L)))
  /-- A block that is out can be given back. -/
  free : ∀ {s b L}, Owns s (b ::ₘ L) → ∃ s', B.free b.start s = .ok s' ∧ Owns s' L
  /-- Giving back `NULL` does nothing. -/
  freeNull : ∀ s, B.free 0 s = .ok s

/-- The blocks `L` are out, apart from each other and from the reserved memory. -/
structure BlocksOut {σ : Type} (Owns : σ → Multiset MemBlock → Prop) (align : ℕ)
    (reserved : MemBlock) (s : σ) (L : Multiset MemBlock) : Prop where
  owns : Owns s L
  apart : PairwiseApart (reserved ::ₘ L)
  aligned : ∀ b ∈ L, align ∣ b.start.toNat
  nonnull : ∀ b ∈ L, b.start ≠ 0

namespace BlocksOut

variable {σ : Type} {B : PvBridge σ} {align : ℕ} {reserved : MemBlock}
  {Owns : σ → Multiset MemBlock → Prop} {s : σ} {L : Multiset MemBlock}

/-- One more block is out. -/
theorem cons (h : BlocksOut Owns align reserved s L) {s' : σ} {b : MemBlock} (hb : b.start ≠ 0)
    (haligned : align ∣ b.start.toNat) (hapart : ∀ c ∈ reserved ::ₘ L, b.Apart c)
    (howns : Owns s' (b ::ₘ L)) : BlocksOut Owns align reserved s' (b ::ₘ L) where
  owns := howns
  apart := by
    rw [Multiset.cons_swap, pairwiseApart_cons]
    exact ⟨hapart, h.apart⟩
  aligned := Multiset.forall_mem_cons.2 ⟨haligned, h.aligned⟩
  nonnull := Multiset.forall_mem_cons.2 ⟨hb, h.nonnull⟩

/-- One block less is out. -/
theorem tail {b : MemBlock} (h : BlocksOut Owns align reserved s (b ::ₘ L)) {s' : σ}
    (howns : Owns s' L) : BlocksOut Owns align reserved s' L where
  owns := howns
  apart := h.apart.mono (Multiset.cons_le_cons reserved (Multiset.le_cons_self L b))
  aligned c hc := h.aligned c (Multiset.mem_cons_of_mem hc)
  nonnull c hc := h.nonnull c (Multiset.mem_cons_of_mem hc)

/-- **A new block keeps the blocks apart.** -/
theorem alignedMalloc (h : BlocksOut Owns align reserved s L)
    (C : BridgeContract B align reserved Owns) {size : ℕ} (hpos : 0 < size) (hsize : size < 2 ^ 32) :
    ∃ p s', B.alignedMalloc size align s = .ok (p, s') ∧
      ((p = 0 ∧ BlocksOut Owns align reserved s' L) ∨
        (p ≠ 0 ∧ BlocksOut Owns align reserved s' (⟨p, size⟩ ::ₘ L))) := by
  obtain ⟨p, s', hrun, ⟨hnull, howns⟩ | ⟨hp, haligned, hapart, howns⟩⟩ :=
    C.alignedMalloc h.owns hpos hsize
  · exact ⟨p, s', hrun, Or.inl ⟨hnull, howns, h.apart, h.aligned, h.nonnull⟩⟩
  · exact ⟨p, s', hrun, Or.inr ⟨hp, h.cons hp haligned hapart howns⟩⟩

/-- **A block that is given back is out no longer.** -/
theorem free {b : MemBlock} (h : BlocksOut Owns align reserved s (b ::ₘ L))
    (C : BridgeContract B align reserved Owns) :
    ∃ s', B.free b.start s = .ok s' ∧ BlocksOut Owns align reserved s' L := by
  obtain ⟨s', hrun, howns⟩ := C.free h.owns
  exact ⟨s', hrun, h.tail howns⟩

/-- A block that is out is apart from the others and from the reserved memory. -/
theorem apart_cons {b : MemBlock} (h : BlocksOut Owns align reserved s (b ::ₘ L)) :
    ∀ c ∈ reserved ::ₘ L, b.Apart c := by
  have hapart := h.apart
  rw [Multiset.cons_swap, pairwiseApart_cons] at hapart
  exact hapart.1

end BlocksOut

end Aim
