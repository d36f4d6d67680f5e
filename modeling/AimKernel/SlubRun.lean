/-
**Runs of the slub allocator.**

Clients ask for objects of any size, give objects back in any order, and write to the objects that
they hold; what they write may hit the very nodes that the free lists run through before and after.
A run keeps the multiset of the objects that are out, with the sizes that were asked for.

Main definitions:

* `Aim.SlubClients` — the invariant: the allocator, with the objects that are out;
* `Aim.SlubRun`, `Aim.SlubCall`, `Aim.slubMachine` — runs;
* `Aim.SlubRun.Correct` — what the allocator promises in one state.

Main results:

* `Aim.SlubClients.malloc`, `Aim.SlubClients.free`, `Aim.SlubClients.write` — **every call keeps the
  invariant**;
* `Aim.SlubClients.pairwiseApart`, `Aim.SlubClients.apart_header` — objects share no byte with each
  other, nor with the headers of slubs;
* `Aim.SlubRun.reachable_slubs_correct` — **the allocator is correct in every reachable state.**
-/

import AimKernel.KoffsetBridge
import AimKernel.SlubSpec

set_option relaxedAutoImplicit false
set_option autoImplicit false

namespace Aim

open Intrusive

/-! ### The memory of slubs -/

/-- The page of a slub. -/
def pageMem (slub : Ptr) : MemBlock := ⟨slub, slubBlockSize⟩

/-- The header of a slub. -/
def headerMem (slub : Ptr) : MemBlock := ⟨slub, sizeofSlubHeader⟩

/-- A slot of the given level. -/
def slotMem (solt : Ptr) (level : ℕ) : MemBlock := ⟨solt, 2 ^ level⟩

/-- Pages are equal or apart. -/
theorem pageMem_apart {p q : Ptr} (hp : slubBlockSize ∣ p.toNat) (hq : slubBlockSize ∣ q.toNat)
    (hne : p ≠ q) : (pageMem p).Apart (pageMem q) := by
  intro a hpa hqa
  refine hne (BitVec.eq_of_toNat_eq ?_)
  simp only [pageMem, MemBlock.Covers, slubBlockSize] at hp hq hpa hqa
  omega

theorem covers_page_of_header {p : Ptr} {a : ℕ} (h : (headerMem p).Covers a) :
    (pageMem p).Covers a := by
  simp only [headerMem, pageMem, MemBlock.Covers, sizeofSlubHeader, slubBlockSize] at h ⊢
  omega

section Slots

variable {p x y : Ptr} {level : ℕ} (hp : slubBlockSize ∣ p.toNat) (hlevel : SlubLevel level)

include hp hlevel

/-- **Slots lie inside the page of their slub.** -/
theorem covers_page_of_slot (hx : x ∈ slots p level) {a : ℕ} (h : (slotMem x level).Covers a) :
    (pageMem p).Covers a := by
  obtain ⟨-, -, hlow, hhigh⟩ := slot_spec hp hlevel hx
  simp only [slotMem, pageMem, MemBlock.Covers] at h ⊢
  omega

/-- **Slots never overlap the header.** -/
theorem slotMem_apart_header (hx : x ∈ slots p level) : (slotMem x level).Apart (headerMem p) := by
  intro a hslot hheader
  obtain ⟨-, -, hlow, -⟩ := slot_spec hp hlevel hx
  simp only [slotMem, headerMem, MemBlock.Covers] at hslot hheader
  omega

/-- **Slots are pairwise disjoint.** -/
theorem slotMem_apart (hx : x ∈ slots p level) (hy : y ∈ slots p level) (hne : x ≠ y) :
    (slotMem x level).Apart (slotMem y level) := by
  obtain ⟨i, hi, rfl⟩ := mem_slots.1 hx
  obtain ⟨j, hj, rfl⟩ := mem_slots.1 hy
  intro a hxa hya
  simp only [slotMem, MemBlock.Covers] at hxa hya
  rcases Nat.lt_trichotomy i j with hij | rfl | hij
  · have := slot_apart hp hlevel hi hj hij
    omega
  · exact hne rfl
  · have := slot_apart hp hlevel hj hi hij
    omega

end Slots

/-! ### Objects -/

variable {σ : Type}

/-- The objects that are blocks of the bridge. -/
def largeObjects (live : Multiset MemBlock) : Multiset MemBlock :=
  live.filter fun b => slubBlockSize ∣ b.start.toNat

/-- The objects that are carved from slubs. -/
def smallObjects (live : Multiset MemBlock) : Multiset MemBlock :=
  live.filter fun b => ¬ slubBlockSize ∣ b.start.toNat

/-- **The invariant**: besides the objects `live` the blocks `others` of the bridge are out. -/
structure SlubClients (Owns : σ → Multiset MemBlock → Prop) (s : SlubVmalloc σ) (slubs : Finset Ptr)
    (xs : SlubList → List Ptr) (live others : Multiset MemBlock) : Prop where
  heap : SlubHeap Owns s slubs xs ((smallObjects live).map MemBlock.start)
    (largeObjects live + others)
  /-- Slots are as large as what was asked for. -/
  fits : ∀ b ∈ smallObjects live, b.size ≤ 2 ^ s.level (SlubVmalloc.slubOf b.start)
  /-- The bridge serves the requests that are too large for slots, and no others. -/
  sizes : ∀ b ∈ live, slubBlockSize ∣ b.start.toNat ↔ 2 ^ maxSlubLevel < b.size

namespace SlubClients

variable {B : PvBridge σ} {Owns : σ → Multiset MemBlock → Prop} {s : SlubVmalloc σ}
  {slubs : Finset Ptr} {xs : SlubList → List Ptr} {live others : Multiset MemBlock}

theorem mem_small {b : MemBlock} :
    b ∈ smallObjects live ↔ b ∈ live ∧ ¬ slubBlockSize ∣ b.start.toNat := Multiset.mem_filter

theorem large_add_small (live : Multiset MemBlock) :
    largeObjects live + smallObjects live = live := Multiset.filter_add_not _ live

theorem cons_large {b : MemBlock} (h : slubBlockSize ∣ b.start.toNat) (live : Multiset MemBlock) :
    largeObjects (b ::ₘ live) = b ::ₘ largeObjects live ∧
      smallObjects (b ::ₘ live) = smallObjects live :=
  ⟨Multiset.filter_cons_of_pos (p := fun b : MemBlock => slubBlockSize ∣ b.start.toNat) live h,
    Multiset.filter_cons_of_neg (p := fun b : MemBlock => ¬ slubBlockSize ∣ b.start.toNat) live
      (not_not.2 h)⟩

theorem cons_small {b : MemBlock} (h : ¬ slubBlockSize ∣ b.start.toNat) (live : Multiset MemBlock) :
    largeObjects (b ::ₘ live) = largeObjects live ∧
      smallObjects (b ::ₘ live) = b ::ₘ smallObjects live :=
  ⟨Multiset.filter_cons_of_neg (p := fun b : MemBlock => slubBlockSize ∣ b.start.toNat) live h,
    Multiset.filter_cons_of_pos (p := fun b : MemBlock => ¬ slubBlockSize ∣ b.start.toNat) live h⟩

/-! ### Where objects are -/

/-- A small object is in a slot. -/
theorem mem_slots (h : SlubClients Owns s slubs xs live others) {b : MemBlock}
    (hb : b ∈ smallObjects live) : SlubVmalloc.slubOf b.start ∈ slubs ∧
      b.start ∈ slots (SlubVmalloc.slubOf b.start) (s.level (SlubVmalloc.slubOf b.start)) := by
  have hheld := Multiset.mem_map_of_mem MemBlock.start hb
  exact ⟨h.heap.inv.held _ hheld, h.heap.inv.mem_slots_of_held hheld⟩

theorem covers_slot (h : SlubClients Owns s slubs xs live others) {b : MemBlock}
    (hb : b ∈ smallObjects live) {a : ℕ} (ha : b.Covers a) :
    (slotMem b.start (s.level (SlubVmalloc.slubOf b.start))).Covers a :=
  ⟨ha.1, lt_of_lt_of_le ha.2 (Nat.add_le_add_left (h.fits b hb) _)⟩

theorem covers_page (h : SlubClients Owns s slubs xs live others) {b : MemBlock}
    (hb : b ∈ smallObjects live) {a : ℕ} (ha : b.Covers a) :
    (pageMem (SlubVmalloc.slubOf b.start)).Covers a := by
  obtain ⟨hp, hslot⟩ := h.mem_slots hb
  exact covers_page_of_slot (h.heap.inv.aligned _ hp) (h.heap.inv.slubLevel hp) hslot
    (h.covers_slot hb ha)

/-- The pages of slubs are apart from what else the bridge has handed out, and from the heads. -/
theorem page_apart (h : SlubClients Owns s slubs xs live others) {p : Ptr} (hp : p ∈ slubs)
    {c : MemBlock} (hc : c ∈ headsBlock s.base ::ₘ (largeObjects live + others)) :
    (pageMem p).Apart c := by
  have hmem : pageMem p ∈ slubBlocks slubs := mem_slubBlocks.2 ⟨hp, rfl⟩
  obtain ⟨hheads, hblocks⟩ := pairwiseApart_cons.1 h.heap.out.apart
  rcases Multiset.mem_cons.1 hc with rfl | hc
  · exact (hheads _ (Multiset.mem_add.2 (Or.inl hmem))).symm
  · exact (pairwiseApart_add.1 hblocks).2.2 _ hmem _ hc

/-- **Objects share no byte with the headers of slubs.** -/
theorem apart_header (h : SlubClients Owns s slubs xs live others) {b : MemBlock}
    (hb : b ∈ live + others) {p : Ptr} (hp : p ∈ slubs) : b.Apart (headerMem p) := by
  rw [← large_add_small live, add_right_comm, Multiset.mem_add] at hb
  intro a ha hheader
  have hpage := covers_page_of_header hheader
  rcases hb with hb | hb
  · exact h.page_apart hp (Multiset.mem_cons_of_mem hb) a hpage ha
  · obtain ⟨hq, hslot⟩ := h.mem_slots hb
    by_cases heq : SlubVmalloc.slubOf b.start = p
    · subst heq
      exact slotMem_apart_header (h.heap.inv.aligned _ hq) (h.heap.inv.slubLevel hq) hslot a
        (h.covers_slot hb ha) hheader
    · exact pageMem_apart (h.heap.inv.aligned _ hq) (h.heap.inv.aligned p hp) heq a
        (h.covers_page hb ha) hpage

/-- The heads are apart from the objects, and from what else the bridge has handed out. -/
theorem heads_apart (h : SlubClients Owns s slubs xs live others) {b : MemBlock}
    (hb : b ∈ live + others) : (headsBlock s.base).Apart b := by
  rw [← large_add_small live, add_right_comm, Multiset.mem_add] at hb
  rcases hb with hb | hb
  · have hapart := (pairwiseApart_cons.1 h.heap.out.apart).1
    exact hapart b (Multiset.mem_add.2 (Or.inr hb))
  · have hpage := h.page_apart (h.mem_slots hb).1 (Multiset.mem_cons_self _ _)
    exact fun a hhead ha => hpage a (h.covers_page hb ha) hhead

/-- **Objects share no byte with each other.** -/
theorem pairwiseApart (h : SlubClients Owns s slubs xs live others) :
    PairwiseApart (live + others) := by
  rw [← large_add_small live, add_right_comm, pairwiseApart_add]
  refine ⟨?_, fun b c hbc a hb hc => ?_, fun b hb c hc a ha hca => ?_⟩
  · exact (pairwiseApart_add.1 (pairwiseApart_cons.1 h.heap.out.apart).2).2.1
  · -- two small objects are in different slots, of one slub or of two
    have hbmem : b ∈ smallObjects live := Multiset.mem_of_le hbc (by simp)
    have hcmem : c ∈ smallObjects live := Multiset.mem_of_le hbc (by simp)
    have hne : b.start ≠ c.start := by
      have hnodup := Multiset.nodup_of_le (Multiset.map_le_map hbc) h.heap.inv.held_nodup
      simpa using hnodup
    obtain ⟨hp, hslot⟩ := h.mem_slots hbmem
    obtain ⟨hq, hslot'⟩ := h.mem_slots hcmem
    by_cases heq : SlubVmalloc.slubOf c.start = SlubVmalloc.slubOf b.start
    · have hcov := h.covers_slot hcmem hc
      rw [heq] at hslot' hcov
      exact slotMem_apart (h.heap.inv.aligned _ hp) (h.heap.inv.slubLevel hp) hslot hslot' hne a
        (h.covers_slot hbmem hb) hcov
    · exact pageMem_apart (h.heap.inv.aligned _ hq) (h.heap.inv.aligned _ hp) heq a
        (h.covers_page hcmem hc) (h.covers_page hbmem hb)
  · exact h.page_apart (h.mem_slots hc).1 (Multiset.mem_cons_of_mem hb) a (h.covers_page hc hca) ha

/-- **The nodes of the lists share no byte with objects.** -/
theorem node_apart (h : SlubClients Owns s slubs xs live others) {r : SlubList}
    (hr : r ∈ slubLists slubs) {x : Ptr} (hx : x ∈ r.head s.base :: xs r) {b : MemBlock}
    (hb : b ∈ live + others) : (nodeMem x).Apart b := by
  have hheader : ∀ p ∈ slubs, (∀ a, (nodeMem x).Covers a → (headerMem p).Covers a) →
      (nodeMem x).Apart b := fun p hp hsub a hxa hba =>
    h.apart_header hb hp a hba (hsub a hxa)
  rcases hr with hhome | ⟨p, hp, rfl⟩
  · rcases List.mem_cons.1 hx with rfl | hx
    · exact (h.heads_apart hb).mono fun a ha => head_covered h.heap.fits hhome ha
    · have hsize : 8 ≤ sizeofSlubHeader := by decide
      refine hheader x ((h.heap.inv.homes r hhome x).1 hx).1 fun a ha => ⟨ha.1, ?_⟩
      exact lt_of_lt_of_le ha.2 (Nat.add_le_add_left hsize _)
  · have haligned := h.heap.inv.aligned p hp
    have hlevel := h.heap.inv.slubLevel hp
    rcases List.mem_cons.1 hx with rfl | hx
    · refine hheader p hp fun a ha => ?_
      simp only [nodeMem, headerMem, MemBlock.Covers, sizeofSlubHeader, SlubList.head,
        toNat_freeList haligned] at ha ⊢
      omega
    · -- a free slot: an object is in another slot, in another page, or no slot at all
      have hslot := h.heap.inv.mem_slots_of_free hp hx
      have hsub : ∀ a, (nodeMem x).Covers a → (slotMem x (s.level p)).Covers a := by
        intro a ha
        have hpow : 2 ^ 3 ≤ 2 ^ s.level p :=
          Nat.pow_le_pow_right (by decide) (le_trans (by decide) hlevel.1)
        exact ⟨ha.1, lt_of_lt_of_le ha.2 (Nat.add_le_add_left hpow _)⟩
      intro a hxa hba
      have hpage := covers_page_of_slot haligned hlevel hslot (hsub a hxa)
      rw [← large_add_small live, add_right_comm, Multiset.mem_add] at hb
      rcases hb with hb | hb
      · exact h.page_apart hp (Multiset.mem_cons_of_mem hb) a hpage hba
      · obtain ⟨hq, hslot'⟩ := h.mem_slots hb
        by_cases heq : SlubVmalloc.slubOf b.start = p
        · have hcov := h.covers_slot hb hba
          rw [heq] at hslot' hcov
          have hne : x ≠ b.start := by
            rintro rfl
            exact h.heap.inv.held_notMem_ring (Multiset.mem_map_of_mem MemBlock.start hb) (.free p)
              (free_mem_slubLists.2 hp) (List.mem_cons_of_mem _ hx)
          exact slotMem_apart haligned hlevel hslot hslot' hne a (hsub a hxa) hcov
        · exact pageMem_apart (h.heap.inv.aligned _ hq) haligned heq a (h.covers_page hb hba) hpage

/-! ### Calls -/

/-- **`malloc`** without memory leaves all lists unchanged; an object is new, and as large as what
was asked for. -/
theorem malloc (h : SlubClients Owns s slubs xs live others)
    (C : BridgeContract B slubBlockSize (headsBlock s.base) Owns) {size : ℕ}
    (hsize : size < 2 ^ 32) : ∃ p s', SlubVmalloc.malloc B size s = .ok (p, s') ∧ s'.base = s.base ∧
      ((p = 0 ∧ s'.links = s.links ∧ s'.levelIdx = s.levelIdx ∧
          SlubClients Owns s' slubs xs live others) ∨
        (p ≠ 0 ∧ ∃ slubs' xs', slubs ⊆ slubs' ∧
          SlubClients Owns s' slubs' xs' (⟨p, size⟩ ::ₘ live) others)) := by
  obtain ⟨p, s', hrun, hbase, hres⟩ := h.heap.malloc_spec C hsize
  refine ⟨p, s', hrun, hbase, ?_⟩
  rcases hres with ⟨hp, hlinks, hidx, hheap⟩ | ⟨hp, hlarge, hdvd, hidx, hheap⟩ |
    ⟨slubs', xs', hsub, hheap, hidx, hfits⟩
  · refine Or.inl ⟨hp, hlinks, hidx, hheap, fun b hb => ?_, h.sizes⟩
    rw [SlubVmalloc.level, hidx]
    exact h.fits b hb
  · obtain ⟨hcons, hcons'⟩ := cons_large (b := ⟨p, size⟩) hdvd live
    refine Or.inr ⟨hp, slubs, xs, subset_rfl, ?_, fun b hb => ?_, ?_⟩
    · rwa [hcons, hcons', Multiset.cons_add]
    · rw [hcons'] at hb
      rw [SlubVmalloc.level, hidx]
      exact h.fits b hb
    · exact Multiset.forall_mem_cons.2 ⟨iff_of_true hdvd hlarge, h.sizes⟩
  · have hheld := hheap.inv.held p (Multiset.mem_cons_self _ _)
    have hlevel := hheap.inv.slubLevel hheld
    obtain ⟨-, hodd, -, -⟩ := slot_spec (hheap.inv.aligned _ hheld) hlevel
      (hheap.inv.mem_slots_of_held (Multiset.mem_cons_self _ _))
    obtain ⟨hcons, hcons'⟩ := cons_small (b := ⟨p, size⟩) hodd live
    have hp : p ≠ 0 := by
      rintro rfl
      exact hodd (dvd_zero _)
    refine Or.inr ⟨hp, slubs', xs', hsub, ?_, fun b hb => ?_, ?_⟩
    · rwa [hcons, hcons', Multiset.map_cons]
    · rw [hcons'] at hb
      rcases Multiset.mem_cons.1 hb with rfl | hb
      · exact hfits
      · rw [SlubVmalloc.level, hidx _ (h.mem_slots hb).1]
        exact h.fits b hb
    · have hsmall : size ≤ 2 ^ maxSlubLevel :=
        hfits.trans (Nat.pow_le_pow_right (by decide) hlevel.2)
      exact Multiset.forall_mem_cons.2 ⟨iff_of_false hodd (not_lt.2 hsmall), h.sizes⟩

/-- **`free`** of an object. -/
theorem free {b : MemBlock} (h : SlubClients Owns s slubs xs (b ::ₘ live) others)
    (C : BridgeContract B slubBlockSize (headsBlock s.base) Owns) :
    ∃ s' xs', SlubVmalloc.free B b.start s = .ok s' ∧ s'.base = s.base ∧
      SlubClients Owns s' slubs xs' live others := by
  have hsizes : ∀ c ∈ live, slubBlockSize ∣ c.start.toNat ↔ 2 ^ maxSlubLevel < c.size :=
    fun c hc => h.sizes c (Multiset.mem_cons_of_mem hc)
  by_cases hdvd : slubBlockSize ∣ b.start.toNat
  · obtain ⟨hcons, hcons'⟩ := cons_large hdvd live
    have hheap := h.heap
    rw [hcons, hcons', Multiset.cons_add] at hheap
    obtain ⟨bridge, -, hrun, hheap'⟩ := hheap.free_block C
    exact ⟨_, xs, hrun, rfl, hheap', fun c hc => h.fits c (hcons'.symm ▸ hc), hsizes⟩
  · obtain ⟨hcons, hcons'⟩ := cons_small hdvd live
    have hheap := h.heap
    rw [hcons, hcons', Multiset.map_cons] at hheap
    obtain ⟨s', xs', hrun, hbase, hidx, hheap'⟩ := hheap.free_slot B
    refine ⟨s', xs', hrun, hbase, hheap', fun c hc => ?_, hsizes⟩
    rw [SlubVmalloc.level, hidx]
    exact h.fits c (hcons'.symm ▸ Multiset.mem_cons_of_mem hc)

/-- **Writing to objects** harms nothing. -/
theorem write (h : SlubClients Owns s slubs xs live others) {links : ListHeads}
    {levelIdx : Ptr → ℕ}
    (hlinks : ∀ x, (∀ b ∈ live + others, (nodeMem x).Apart b) →
      links.next x = s.links.next x ∧ links.prev x = s.links.prev x)
    (hlevel : ∀ p, (∀ b ∈ live + others, (headerMem p).Apart b) → levelIdx p = s.levelIdx p) :
    SlubClients Owns { s with links := links, levelIdx := levelIdx } slubs xs live others := by
  have hidx : ∀ p ∈ slubs, levelIdx p = s.levelIdx p := fun p hp =>
    hlevel p fun b hb => (h.apart_header hb hp).symm
  refine ⟨⟨h.heap.inv.congr rfl (fun r hr x hx => hlinks x fun b hb => h.node_apart hr hx hb) hidx,
    h.heap.fits, h.heap.out⟩, fun b hb => ?_, h.sizes⟩
  have hfits := h.fits b hb
  rw [SlubVmalloc.level, ← hidx _ (h.mem_slots hb).1] at hfits
  exact hfits

/-- Others may take blocks from the bridge. -/
theorem takeBlock (h : SlubClients Owns s slubs xs live others) {bridge : σ} {c : MemBlock}
    (hout : BlocksOut Owns slubBlockSize (headsBlock s.base) bridge
      (c ::ₘ (slubBlocks slubs + (largeObjects live + others)))) :
    SlubClients Owns { s with bridge := bridge } slubs xs live (c ::ₘ others) := by
  refine ⟨h.heap.setBridge ?_, h.fits, h.sizes⟩
  rwa [Multiset.add_cons, Multiset.add_cons]

/-- What is out at the bridge, one of the blocks of others first. -/
theorem out_cons {c : MemBlock} (h : SlubClients Owns s slubs xs live (c ::ₘ others)) :
    BlocksOut Owns slubBlockSize (headsBlock s.base) s.bridge
      (c ::ₘ (slubBlocks slubs + (largeObjects live + others))) := by
  have hout := h.heap.out
  rwa [Multiset.add_cons, Multiset.add_cons] at hout

/-- Others may give blocks back to the bridge. -/
theorem giveBlock {c : MemBlock} (h : SlubClients Owns s slubs xs live (c ::ₘ others)) {bridge : σ}
    (hout : BlocksOut Owns slubBlockSize (headsBlock s.base) bridge
      (slubBlocks slubs + (largeObjects live + others))) :
    SlubClients Owns { s with bridge := bridge } slubs xs live others :=
  ⟨h.heap.setBridge hout, h.fits, h.sizes⟩

end SlubClients

/-! ### Runs -/

/-- The allocator, and the objects that clients hold. -/
structure SlubRun (σ : Type) where
  slub : SlubVmalloc σ
  live : Multiset MemBlock

/-- What clients do; `NULL` may be given back too. -/
inductive SlubCall
  | malloc (size : ℕ)
  | free (obj : MemBlock)
  | freeNull
  | write (links : ListHeads) (levelIdx : Ptr → ℕ)

namespace SlubRun

variable (B : PvBridge σ)

/-- The answer to a call. -/
def step (r : SlubRun σ) : SlubCall → Outcome (SlubRun σ)
  | .malloc size => do
      let (p, slub) ← SlubVmalloc.malloc B size r.slub
      if p = 0 then
        return { slub := slub, live := r.live }
      else
        return { slub := slub, live := ⟨p, size⟩ ::ₘ r.live }
  | .free obj => do
      let slub ← SlubVmalloc.free B obj.start r.slub
      return { slub := slub, live := r.live.erase obj }
  | .freeNull => do
      let slub ← SlubVmalloc.free B 0 r.slub
      return { slub := slub, live := r.live }
  | .write links levelIdx =>
      return { r with slub := { r.slub with links := links, levelIdx := levelIdx } }

/-- A `size_t` is below `2 ^ 32`; objects that are given back are out; writes are to objects. -/
def Legal (r : SlubRun σ) : SlubCall → Prop
  | .malloc size => size < 2 ^ 32
  | .free obj => obj ∈ r.live
  | .freeNull => True
  | .write links levelIdx =>
      (∀ x, (∀ b ∈ r.live, (nodeMem x).Apart b) →
        links.next x = r.slub.links.next x ∧ links.prev x = r.slub.links.prev x) ∧
      ∀ p, (∀ b ∈ r.live, (headerMem p).Apart b) → levelIdx p = r.slub.levelIdx p

/-- The constructed allocator. -/
def start (base : Ptr) (links : ListHeads) (levelIdx : Ptr → ℕ) (bridge : σ) : SlubRun σ where
  slub := SlubVmalloc.ctor base links levelIdx bridge
  live := 0

end SlubRun

/-- The slub allocator over the bridge `B`, and its clients. -/
def slubMachine (B : PvBridge σ) : Machine (SlubRun σ) SlubCall Fault where
  legal := SlubRun.Legal
  step := SlubRun.step B

namespace SlubRun

variable {B : PvBridge σ} {Owns : σ → Multiset MemBlock → Prop} {base : Ptr}
  {foreign : Multiset MemBlock}

/-- The invariant of runs. -/
structure Inv (Owns : σ → Multiset MemBlock → Prop) (base : Ptr) (foreign : Multiset MemBlock)
    (r : SlubRun σ) (slubs : Finset Ptr) (xs : SlubList → List Ptr) : Prop where
  base_eq : r.slub.base = base
  clients : SlubClients Owns r.slub slubs xs r.live foreign

section Step

variable {r : SlubRun σ} {slubs : Finset Ptr} {xs : SlubList → List Ptr}

/-- **Every legal call is answered and keeps the invariant.** -/
theorem Inv.step (h : Inv Owns base foreign r slubs xs)
    (C : BridgeContract B slubBlockSize (headsBlock base) Owns) {call : SlubCall}
    (hlegal : r.Legal call) :
    ∃ r' slubs' xs', r.step B call = .ok r' ∧ Inv Owns base foreign r' slubs' xs' := by
  obtain ⟨rfl, hclients⟩ := h
  cases call with
  | malloc size =>
      obtain ⟨p, s', hrun, hbase, ⟨hp, -, -, hclients'⟩ | ⟨hp, slubs', xs', -, hclients'⟩⟩ :=
        hclients.malloc C hlegal
      · refine ⟨⟨s', r.live⟩, slubs, xs, ?_, hbase, hclients'⟩
        rw [SlubRun.step, hrun, ok_bind]
        simp only
        rw [if_pos hp]
        rfl
      · refine ⟨⟨s', ⟨p, size⟩ ::ₘ r.live⟩, slubs', xs', ?_, hbase, hclients'⟩
        rw [SlubRun.step, hrun, ok_bind]
        simp only
        rw [if_neg hp]
        rfl
  | free obj =>
      rw [← Multiset.cons_erase hlegal] at hclients
      obtain ⟨s', xs', hrun, hbase, hclients'⟩ := hclients.free C
      exact ⟨⟨s', r.live.erase obj⟩, slubs, xs', by rw [SlubRun.step, hrun]; rfl, hbase, hclients'⟩
  | freeNull =>
      exact ⟨r, slubs, xs, by rw [SlubRun.step, SlubHeap.free_null C]; rfl, rfl, hclients⟩
  | write links levelIdx =>
      refine ⟨_, slubs, xs, rfl, rfl, hclients.write (fun x hx => hlegal.1 x fun b hb => ?_)
        fun p hp => hlegal.2 p fun b hb => ?_⟩
      · exact hx b (Multiset.mem_add.2 (Or.inl hb))
      · exact hp b (Multiset.mem_add.2 (Or.inl hb))

end Step

/-- The constructor establishes the invariant. -/
theorem inv_start (hfits : base.toNat + (headsBlock base).size ≤ 2 ^ 32) (links : ListHeads)
    (levelIdx : Ptr → ℕ) {bridge : σ}
    (hout : BlocksOut Owns slubBlockSize (headsBlock base) bridge foreign) :
    Inv Owns base foreign (start base links levelIdx bridge) ∅ fun _ => [] where
  base_eq := rfl
  clients := by
    refine ⟨?_, by simp [start, smallObjects], by simp [start]⟩
    rw [show largeObjects (start base links levelIdx bridge).live + foreign = foreign from
      zero_add foreign]
    exact slubHeap_ctor hfits links levelIdx hout

/-- **Every reachable state keeps the invariant.** -/
theorem Reachable.inv (C : BridgeContract B slubBlockSize (headsBlock base) Owns)
    (hfits : base.toNat + (headsBlock base).size ≤ 2 ^ 32) {links : ListHeads} {levelIdx : Ptr → ℕ}
    {bridge : σ} (hout : BlocksOut Owns slubBlockSize (headsBlock base) bridge foreign)
    {r : SlubRun σ} (hr : (slubMachine B).Reachable (start base links levelIdx bridge) r) :
    ∃ slubs xs, Inv Owns base foreign r slubs xs := by
  refine hr.invariant (P := fun r => ∃ slubs xs, Inv Owns base foreign r slubs xs)
    ⟨_, _, inv_start hfits links levelIdx hout⟩ ?_
  rintro s call s' ⟨slubs, xs, hinv⟩ hlegal hstep
  obtain ⟨s'', slubs', xs', hrun, hinv'⟩ := hinv.step C hlegal
  obtain rfl : s' = s'' := Except.ok.inj (hstep.symm.trans hrun)
  exact ⟨slubs', xs', hinv'⟩

/-- What the allocator promises in one state; there are the slubs `slubs`, and `xs` are the elements
of the lists. -/
structure Correct (B : PvBridge σ) (Owns : σ → Multiset MemBlock → Prop)
    (foreign : Multiset MemBlock) (r : SlubRun σ) (slubs : Finset Ptr) (xs : SlubList → List Ptr) :
    Prop where
  /-- The slubs are what the bridge has handed out, besides the objects too large for slots. -/
  out : Owns r.slub.bridge (slubBlocks slubs + (largeObjects r.live + foreign))
  /-- The elements of the lists are what the links in memory say, each once. -/
  rings : ∀ t ∈ slubLists slubs, Ring r.slub.links (t.head r.slub.base) (xs t)
  /-- The level of a slub is one of the levels that there are lists for. -/
  level : ∀ p ∈ slubs, r.slub.levelIdx p < slubTotalLevels
  /-- A slub is on the list of its level with free slots, or on the full one, and on no other. -/
  oneList : ∀ p ∈ slubs, ∀ t : SlubList, t.IsHome → (p ∈ xs t ↔
    t = if xs (.free p) = [] then .full (r.slub.levelIdx p) else .avail (r.slub.levelIdx p))
  /-- There is nothing else on these lists. -/
  onlySlubs : ∀ t : SlubList, t.IsHome → ∀ p ∈ xs t, p ∈ slubs
  /-- The free slots and the objects of a slub are exactly its slots, each once. -/
  slots : ∀ p ∈ slubs, (xs (.free p) : Multiset Ptr) +
      heldIn ((smallObjects r.live).map MemBlock.start) p = (slots p (r.slub.level p) : Multiset Ptr) ∧
    (Aim.slots p (r.slub.level p)).length = calcMaxsolts (r.slub.level p) ∧
    (Aim.slots p (r.slub.level p)).Nodup
  /-- Slots are pairwise disjoint, inside the page of the slub and behind its header. -/
  geometry : ∀ p ∈ slubs, ∀ x ∈ Aim.slots p (r.slub.level p),
    (∀ y ∈ Aim.slots p (r.slub.level p), x ≠ y →
      (slotMem x (r.slub.level p)).Apart (slotMem y (r.slub.level p))) ∧
    (∀ a, (slotMem x (r.slub.level p)).Covers a → (pageMem p).Covers a) ∧
    (slotMem x (r.slub.level p)).Apart (headerMem p)
  /-- An object from a slub is one of its slots, and that is as large as what was asked for. -/
  fits : ∀ b ∈ smallObjects r.live, SlubVmalloc.slubOf b.start ∈ slubs ∧
    b.size ≤ 2 ^ r.slub.level (SlubVmalloc.slubOf b.start)
  /-- Requests that fit a slot are served from slubs. -/
  small : ∀ b ∈ r.live, b ∈ smallObjects r.live ↔ b.size ≤ 2 ^ maxSlubLevel
  /-- No assertion fires. -/
  safe : (slubMachine B).SafeAt r
  /-- A `malloc` that returns `NULL` leaves all lists unchanged. -/
  null : ∀ size < 2 ^ 32, ∀ s', SlubVmalloc.malloc B size r.slub = .ok (0, s') →
    s'.links = r.slub.links ∧ s'.levelIdx = r.slub.levelIdx

/-- The invariant gives everything the allocator promises. -/
theorem Inv.correct {r : SlubRun σ} {slubs : Finset Ptr} {xs : SlubList → List Ptr}
    (h : Inv Owns base foreign r slubs xs)
    (C : BridgeContract B slubBlockSize (headsBlock base) Owns) :
    r.Correct B Owns foreign slubs xs where
  out := h.clients.heap.out.owns
  rings := h.clients.heap.inv.rings.ring
  level := h.clients.heap.inv.level
  oneList p hp t ht := by
    rw [h.clients.heap.inv.homes t ht p, and_iff_right hp, homeOf]
    exact eq_comm
  onlySlubs t ht p hp := ((h.clients.heap.inv.homes t ht p).1 hp).1
  slots p hp := by
    refine ⟨h.clients.heap.inv.slots p hp, ?_,
      nodup_slots (h.clients.heap.inv.aligned p hp) (h.clients.heap.inv.slubLevel hp)⟩
    rw [Aim.slots, List.length_map, List.length_range]
  geometry p hp x hx := by
    have haligned := h.clients.heap.inv.aligned p hp
    have hlevel := h.clients.heap.inv.slubLevel hp
    exact ⟨fun y hy hne => slotMem_apart haligned hlevel hx hy hne,
      fun a ha => covers_page_of_slot haligned hlevel hx ha,
      slotMem_apart_header haligned hlevel hx⟩
  fits b hb := ⟨(h.clients.mem_slots hb).1, h.clients.fits b hb⟩
  small b hb := by
    rw [SlubClients.mem_small, and_iff_right hb, h.clients.sizes b hb, not_lt]
  safe call hlegal := by
    obtain ⟨r', -, -, hrun, -⟩ := h.step C hlegal
    exact ⟨r', hrun⟩
  null size hsize s' hrun := by
    obtain ⟨rfl, hclients⟩ := h
    obtain ⟨p, s'', hrun', -, ⟨-, hlinks, hidx, -⟩ | ⟨hp, -⟩⟩ := hclients.malloc C hsize
    · obtain ⟨-, rfl⟩ := Prod.mk.inj (Except.ok.inj (hrun.symm.trans hrun'))
      exact ⟨hlinks, hidx⟩
    · obtain ⟨rfl, -⟩ := Prod.mk.inj (Except.ok.inj (hrun.symm.trans hrun'))
      exact absurd rfl hp

/-- **The slub allocator is correct in every reachable state**, over any bridge that keeps its
contract. -/
theorem reachable_slubs_correct (C : BridgeContract B slubBlockSize (headsBlock base) Owns)
    (hfits : base.toNat + (headsBlock base).size ≤ 2 ^ 32) {links : ListHeads} {levelIdx : Ptr → ℕ}
    {bridge : σ} (hout : BlocksOut Owns slubBlockSize (headsBlock base) bridge foreign)
    {r : SlubRun σ} (hr : (slubMachine B).Reachable (start base links levelIdx bridge) r) :
    ∃ slubs xs, r.Correct B Owns foreign slubs xs := by
  obtain ⟨slubs, xs, hinv⟩ := Reachable.inv C hfits hout hr
  exact ⟨slubs, xs, hinv.correct C⟩

/-- A kilobyte from the slub allocator over one page of the direct map. -/
theorem reachable_slubs_correct_one_page : ∃ (b₀ : BuddyPmalloc) (r : SlubRun BuddyPmalloc)
    (slubs : Finset Ptr) (xs : SlubList → List Ptr), r.live = {⟨0x81000c00, 1024⟩} ∧
      r.Correct koffsetPvbridge (PoolOwns b₀ 1 b₀.maxOrder (headsBlock 0x80100000)) 0 slubs xs := by
  -- the constructor marks the page in use, and it is given back before the first call
  have hrun : (do
      let b ← BuddyPmalloc.ctor (fun _ => 1) 0x1000000 4096 1
      let s ← (BuddyRun.start b).step (.free 0)
      let r ← (start 0x80100000 ⟨id, id⟩ (fun _ => 0) s.alloc).step koffsetPvbridge (.malloc 1024)
      return r.live) = Except.ok {⟨0x81000c00, 1024⟩} := rfl
  obtain ⟨b₀, hctor, hrun⟩ := bind_eq_ok.1 hrun
  obtain ⟨s, hfree, hrun⟩ := bind_eq_ok.1 hrun
  obtain ⟨r, hmalloc, hrun⟩ := bind_eq_ok.1 hrun
  obtain ⟨hmodels, hbase, hsize, -⟩ := BuddyPmalloc.models_of_ctor hctor
  have hzone : DirectMapped b₀ 1 := by
    refine ⟨hsize, ?_, ?_⟩
    · rw [hbase]
      decide
    · rw [hbase]
      decide
  have hlegal : (BuddyRun.start b₀).Legal (.free 0) := by
    show 0 ∈ Finset.range b₀.pageCount
    rw [hmodels.fits.pageCount_eq]
    decide
  obtain ⟨P, hP⟩ := BuddyRun.Reachable.inv (hbase ▸ hsize ▸ hzone.params) hctor
    (Machine.Reachable.step (r := .free 0) .init hlegal hfree)
  -- the heads of the lists are below the zone
  have hbelow : (headsBlock 0x80100000).start.toNat + (headsBlock 0x80100000).size ≤
      Arch.koffset + b₀.base := by
    rw [hbase]
    decide
  have houtside : ∀ a i, (headsBlock 0x80100000).Covers a → i < 1 →
      (blockMem b₀ ⟨i, 0⟩).Covers a → ¬ s.alloc.FreePage i := fun a i hres hi hcov =>
    absurd hcov (hzone.notCovers_of_le hbelow hi hres)
  have howns := BuddyOwns.of_models hP.models hP.setup houtside
  obtain ⟨slubs, xs, h⟩ := reachable_slubs_correct (koffset_contract hzone b₀.maxOrder _) (by decide)
    ⟨⟨P, howns⟩, pairwiseApart_cons.2 ⟨by simp, pairwiseApart_zero⟩, by simp, by simp⟩
    (.step (r := .malloc 1024) .init (by decide : 1024 < 2 ^ 32) hmalloc)
  exact ⟨b₀, r, slubs, xs, Except.ok.inj hrun, h⟩

end SlubRun

end Aim
