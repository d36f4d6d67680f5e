/-
**The memory stack of `vmm_bootstrap`.**

`vmm_bootstrap` puts the slub allocator over the bridge, and the bridge over the buddy allocator of
`ZONE_NORMAL`; the page adapter uses the same buddy allocator directly.  All three interfaces are
open to clients at any time.  Their objects are measured in bytes, slots and pages, and named by
virtual and by physical addresses; in the direct map all of them are ranges of bytes, and the
ranges of live objects share no byte.

Which layer an object goes back to depends on its address alone: slots are never multiples of the
page size, and what the bridge hands out always is.

Main definitions:

* `Aim.MemoryStack`, `Aim.StackCall`, `Aim.stackMachine` — the stack, and its runs;
* `Aim.MemoryStack.ranges` — the live objects as ranges of bytes;
* `Aim.MemoryStack.Correct` — what holds in every reachable state.

Main results:

* `Aim.MemoryStack.Inv.step` — every legal call keeps the invariant;
* `Aim.MemoryStack.reachable_ranges_apart` — **live objects of all layers are apart, and every
  pointer goes back to the layer that produced it.**
-/

import AimKernel.PageAllocator
import AimKernel.SlubRun

set_option relaxedAutoImplicit false
set_option autoImplicit false

namespace Aim

open DyadicBlocks BuddyPmalloc

/-! ### The stack -/

/-- The pages of a `struct pages` in the direct map. -/
def Pages.mem (pages : Pages) : MemBlock := ⟨kva pages.paddr, pages.size⟩

/-- The allocators, and the live objects of `g_vmalloc`, of `g_pvbridge` and of the adapter.  The
state of the bridge is that of the buddy allocator below it. -/
structure MemoryStack where
  vmalloc : SlubVmalloc BuddyPmalloc
  objects : Multiset MemBlock
  blocks : Multiset MemBlock
  pages : Multiset Pages

/-- What clients do. -/
inductive StackCall
  | malloc (size : ℕ)
  | free (obj : MemBlock)
  | freeNull
  | bridgeMalloc (size : ℕ)
  | bridgeAlignedMalloc (size align : ℕ)
  | bridgeFree (block : MemBlock)
  | bridgeFreeNull
  | allocPages (pages : Pages)
  | freePages (pages : Pages)
  | write (links : ListHeads) (levelIdx : Ptr → ℕ)

/-- The calls that check what they are asked for: the alignment, or the size that is given back. -/
def StackCall.Checked : StackCall → Prop
  | .bridgeAlignedMalloc _ _ => True
  | .freePages _ => True
  | _ => False

namespace MemoryStack

/-- The live objects as ranges of bytes. -/
def ranges (s : MemoryStack) : Multiset MemBlock := s.objects + (s.blocks + s.pages.map Pages.mem)

/-- The buddy allocator in another state. -/
def setBuddy (s : MemoryStack) (b : BuddyPmalloc) : MemoryStack :=
  { s with vmalloc := { s.vmalloc with bridge := b } }

/-- A client of the bridge takes note of the block it got, if any. -/
def receiveBlock (s : MemoryStack) (size : ℕ) : Ptr × BuddyPmalloc → MemoryStack
  | (p, b) => if p = 0 then s.setBuddy b else { s.setBuddy b with blocks := ⟨p, size⟩ ::ₘ s.blocks }

/-- The answer to a call. -/
def step (s : MemoryStack) : StackCall → Outcome MemoryStack
  | .malloc size => do
      let (p, vmalloc) ← SlubVmalloc.malloc koffsetPvbridge size s.vmalloc
      if p = 0 then
        return { s with vmalloc := vmalloc }
      else
        return { s with vmalloc := vmalloc, objects := ⟨p, size⟩ ::ₘ s.objects }
  | .free obj => do
      let vmalloc ← SlubVmalloc.free koffsetPvbridge obj.start s.vmalloc
      return { s with vmalloc := vmalloc, objects := s.objects.erase obj }
  | .freeNull => do
      let vmalloc ← SlubVmalloc.free koffsetPvbridge 0 s.vmalloc
      return { s with vmalloc := vmalloc }
  | .bridgeMalloc size => do
      return s.receiveBlock size (← koffsetMalloc size s.vmalloc.bridge)
  | .bridgeAlignedMalloc size align => do
      return s.receiveBlock size (← koffsetAlignedMalloc size align s.vmalloc.bridge)
  | .bridgeFree block => do
      let b ← koffsetFree block.start s.vmalloc.bridge
      return { s.setBuddy b with blocks := s.blocks.erase block }
  | .bridgeFreeNull => do
      let b ← koffsetFree 0 s.vmalloc.bridge
      return s.setBuddy b
  | .allocPages pages => do
      let (ret, pages, b) ← allocAdapter pages s.vmalloc.bridge
      if ret = eof then
        return s.setBuddy b
      else
        return { s.setBuddy b with pages := pages ::ₘ s.pages }
  | .freePages pages => do
      let b ← freeAdapter pages s.vmalloc.bridge
      return { s.setBuddy b with pages := s.pages.erase pages }
  | .write links levelIdx =>
      return { s with vmalloc := { s.vmalloc with links := links, levelIdx := levelIdx } }

/-- Requests, alignments included, are below `2 ^ 31` pages, and a `size_t` is below `2 ^ 32`; what
is given back is live, or `NULL`; writes are to live objects. -/
def Legal (s : MemoryStack) : StackCall → Prop
  | .malloc size => size < 2 ^ 32
  | .free obj => obj ∈ s.objects
  | .freeNull => True
  | .bridgeMalloc size => FewPages size
  | .bridgeAlignedMalloc size align => FewPages (max align size)
  | .bridgeFree block => block ∈ s.blocks
  | .bridgeFreeNull => True
  | .allocPages pages => FewPages pages.size
  | .freePages pages => pages ∈ s.pages
  | .write links levelIdx =>
      (∀ x, (∀ b ∈ s.ranges, (nodeMem x).Apart b) →
        links.next x = s.vmalloc.links.next x ∧ links.prev x = s.vmalloc.links.prev x) ∧
      ∀ p, (∀ b ∈ s.ranges, (headerMem p).Apart b) → levelIdx p = s.vmalloc.levelIdx p

/-- The stack as `vmm_bootstrap` leaves it, over the buddy allocator `b`. -/
def start (base : Ptr) (links : ListHeads) (levelIdx : Ptr → ℕ) (b : BuddyPmalloc) : MemoryStack where
  vmalloc := SlubVmalloc.ctor base links levelIdx b
  objects := 0
  blocks := 0
  pages := 0

end MemoryStack

/-- The memory stack and its clients. -/
def stackMachine : Machine MemoryStack StackCall Fault where
  legal := MemoryStack.Legal
  step := MemoryStack.step

namespace MemoryStack

variable {b₀ : BuddyPmalloc} {n m : ℕ} {base : Ptr}

/-! ### The invariant -/

/-- The slub allocator has its objects out, and the blocks and pages of the other interfaces are
out at the bridge besides. -/
structure Inv (b₀ : BuddyPmalloc) (n m : ℕ) (base : Ptr) (s : MemoryStack) (slubs : Finset Ptr)
    (xs : SlubList → List Ptr) : Prop where
  base_eq : s.vmalloc.base = base
  clients : SlubClients (PoolOwns b₀ n m (headsBlock base)) s.vmalloc slubs xs s.objects
    (s.blocks + s.pages.map Pages.mem)
  /-- The pages of the adapter are pages of the pool. -/
  paddr : ∀ pages ∈ s.pages, ∃ i < n, pages.paddr = b₀.pageAddr i

section Step

variable {s : MemoryStack} {slubs : Finset Ptr} {xs : SlubList → List Ptr}

/-- What is out at the buddy allocator. -/
theorem Inv.out (h : Inv b₀ n m base s slubs xs) :
    BlocksOut (PoolOwns b₀ n m (headsBlock base)) Arch.pageSize (headsBlock base) s.vmalloc.bridge
      (slubBlocks slubs + (largeObjects s.objects + (s.blocks + s.pages.map Pages.mem))) := by
  have hout := h.clients.heap.out
  rw [h.base_eq] at hout
  exact hout

/-- The bridge hands out a block. -/
theorem Inv.receiveBlock (h : Inv b₀ n m base s slubs xs) {c : MemBlock} {b : BuddyPmalloc}
    (hout : BlocksOut (PoolOwns b₀ n m (headsBlock base)) Arch.pageSize (headsBlock base) b
      (c ::ₘ (slubBlocks slubs + (largeObjects s.objects + (s.blocks + s.pages.map Pages.mem))))) :
    Inv b₀ n m base { s.setBuddy b with blocks := c ::ₘ s.blocks } slubs xs := by
  obtain ⟨rfl, hclients, hpaddr⟩ := h
  refine ⟨rfl, ?_, hpaddr⟩
  have htake := hclients.takeBlock hout
  rw [← Multiset.cons_add] at htake
  exact htake

/-- The bridge's answer to a request, when the allocator below it answers `pa`. -/
theorem Inv.bridge_answer (h : Inv b₀ n m base s slubs xs) (hzone : DirectMapped b₀ n) {size : ℕ}
    {answer : Outcome (ℕ × BuddyPmalloc)}
    (hanswer : answer = .ok (minusOne64, s.vmalloc.bridge) ∨ ∃ i b', i < n ∧
      answer = .ok (b₀.pageAddr i, b') ∧
        BlocksOut (PoolOwns b₀ n m (headsBlock base)) Arch.pageSize (headsBlock base) b'
          (⟨pagePtr b₀ i, size⟩ ::ₘ
            (slubBlocks slubs + (largeObjects s.objects + (s.blocks + s.pages.map Pages.mem))))) :
    ∃ s', (do return s.receiveBlock size (bridged (← answer)) : Outcome MemoryStack) = .ok s' ∧
      Inv b₀ n m base s' slubs xs := by
  rcases hanswer with rfl | ⟨i, b', hi, rfl, hout⟩
  · refine ⟨s, ?_, h⟩
    rw [ok_bind, bridged_minusOne, MemoryStack.receiveBlock, if_pos rfl]
    rfl
  · refine ⟨_, ?_, h.receiveBlock hout⟩
    rw [ok_bind, bridged_pageAddr hzone hi, MemoryStack.receiveBlock,
      if_neg (show pagePtr b₀ i ≠ 0 from kva_ne_zero (hzone.pageAddr_eq hi).2)]
    rfl

/-- The buddy allocator takes back one of the blocks of the bridge. -/
theorem Inv.bridge_free (h : Inv b₀ n m base s slubs xs) (hzone : DirectMapped b₀ n)
    {block : MemBlock} (hblock : block ∈ s.blocks) :
    ∃ i b', i < n ∧ block.start = pagePtr b₀ i ∧ s.vmalloc.bridge.free (b₀.pageAddr i) = .ok b' ∧
      Inv b₀ n m base { s.setBuddy b' with blocks := s.blocks.erase block } slubs xs := by
  obtain ⟨rfl, hclients, hpaddr⟩ := h
  rw [← Multiset.cons_erase hblock, Multiset.cons_add] at hclients
  obtain ⟨i, b', hi, hstart, hrun, hout⟩ := hclients.out_cons.buddyFree hzone
  exact ⟨i, b', hi, hstart, hrun, rfl, hclients.giveBlock hout, hpaddr⟩

/-- The adapter hands out pages. -/
theorem Inv.adapter_answer (h : Inv b₀ n m base s slubs xs) (hzone : DirectMapped b₀ n)
    {pages : Pages} (hsize : FewPages pages.size) :
    ∃ s', s.step (.allocPages pages) = .ok s' ∧ Inv b₀ n m base s' slubs xs := by
  rcases h.out.buddyMalloc hzone hsize with hnone | ⟨i, b', hi, hsome, hout⟩
  · refine ⟨s, ?_, h⟩
    rw [MemoryStack.step, allocAdapter, hnone]
    rfl
  · have hlt := (hzone.pageAddr_eq hi).2
    have hne : b₀.pageAddr i ≠ minusOne64 := by
      intro heq
      rw [heq] at hlt
      exact absurd hlt (by decide)
    obtain ⟨rfl, hclients, hpaddr⟩ := h
    have htake := hclients.takeBlock hout
    rw [← Multiset.add_cons] at htake
    refine ⟨{ s.setBuddy b' with pages := { pages with paddr := b₀.pageAddr i } ::ₘ s.pages },
      ?_, rfl, ?_, Multiset.forall_mem_cons.2 ⟨⟨i, hi, rfl⟩, hpaddr⟩⟩
    · rw [MemoryStack.step, allocAdapter, hsome, ok_bind]
      simp only
      rw [if_neg hne]
      rfl
    · show SlubClients _ _ _ _ _ (s.blocks + (_ ::ₘ s.pages).map Pages.mem)
      rw [Multiset.map_cons]
      exact htake

/-- The adapter takes back pages, unless the allocator has noted another size. -/
theorem Inv.adapter_free (h : Inv b₀ n m base s slubs xs) (hzone : DirectMapped b₀ n)
    {pages : Pages} (hpages : pages ∈ s.pages) {s' : MemoryStack}
    (hstep : s.step (.freePages pages) = .ok s') : Inv b₀ n m base s' slubs xs := by
  obtain ⟨rfl, hclients, hpaddr⟩ := h
  rw [← Multiset.cons_erase hpages, Multiset.map_cons, Multiset.add_cons] at hclients
  obtain ⟨i, b', hi, hstart, hrun, hout⟩ := hclients.out_cons.buddyFree hzone
  -- the address of the pages is that of a page of the pool, so it is the one of this page
  obtain ⟨j, hj, haddr⟩ := hpaddr pages hpages
  have hij : j = i := by
    refine hzone.pagePtr_inj hj hi ?_
    rw [← hstart, Pages.mem, haddr, pagePtr]
  subst hij
  obtain ⟨b, hfree, hret⟩ := bind_eq_ok.1 hstep
  rw [freeAdapter] at hfree
  split at hfree
  · cases hfree
  · rw [haddr] at hfree
    obtain rfl := Except.ok.inj (hfree.symm.trans hrun)
    obtain rfl := Except.ok.inj hret
    refine ⟨rfl, hclients.giveBlock hout, fun q hq => hpaddr q (Multiset.mem_of_mem_erase hq)⟩

/-- An aligned request that gets past its check. -/
theorem Inv.bridge_aligned (h : Inv b₀ n m base s slubs xs) (hzone : DirectMapped b₀ n)
    {size align size' : ℕ} (hlegal : FewPages (max align size))
    (hcheck : s.vmalloc.bridge.alignedSize size align = .ok size') :
    ∃ s', s.step (.bridgeAlignedMalloc size align) = .ok s' ∧ Inv b₀ n m base s' slubs xs := by
  obtain rfl := alignedSize_of_ok hcheck
  obtain ⟨P, hP⟩ := h.out.owns
  rw [hP.setup.alignedSize] at hcheck
  obtain ⟨s', hrun, hinv⟩ := h.bridge_answer hzone (h.out.buddyAlignedMalloc hzone hcheck hlegal)
  refine ⟨s', ?_, hinv⟩
  rw [← hrun, MemoryStack.step, koffsetAlignedMalloc]
  cases s.vmalloc.bridge.alignedMalloc size align <;> rfl

/-- **Every legal call without a check is answered and keeps the invariant.** -/
theorem Inv.answer (h : Inv b₀ n m base s slubs xs) (hzone : DirectMapped b₀ n) {call : StackCall}
    (hlegal : s.Legal call) (hcheck : ¬ call.Checked) :
    ∃ s' slubs' xs', s.step call = .ok s' ∧ Inv b₀ n m base s' slubs' xs' := by
  have C := koffset_contract hzone m (headsBlock base)
  cases call with
  | malloc size =>
      obtain ⟨rfl, hclients, hpaddr⟩ := h
      obtain ⟨p, v, hrun, hbase, ⟨hp, -, -, hclients'⟩ | ⟨hp, slubs', xs', -, hclients'⟩⟩ :=
        hclients.malloc C hlegal
      · refine ⟨{ s with vmalloc := v }, slubs, xs, ?_, hbase, hbase ▸ hclients', hpaddr⟩
        rw [MemoryStack.step, hrun, ok_bind]
        simp only
        rw [if_pos hp]
        rfl
      · refine ⟨{ s with vmalloc := v, objects := ⟨p, size⟩ ::ₘ s.objects }, slubs', xs', ?_, hbase,
          hbase ▸ hclients', hpaddr⟩
        rw [MemoryStack.step, hrun, ok_bind]
        simp only
        rw [if_neg hp]
        rfl
  | free obj =>
      obtain ⟨rfl, hclients, hpaddr⟩ := h
      rw [← Multiset.cons_erase hlegal] at hclients
      obtain ⟨v, xs', hrun, hbase, hclients'⟩ := hclients.free C
      exact ⟨{ s with vmalloc := v, objects := s.objects.erase obj }, slubs, xs',
        by rw [MemoryStack.step, hrun]; rfl, hbase, hbase ▸ hclients', hpaddr⟩
  | freeNull =>
      obtain ⟨rfl, hclients, hpaddr⟩ := h
      exact ⟨s, slubs, xs, by rw [MemoryStack.step, SlubHeap.free_null C]; rfl, rfl, hclients, hpaddr⟩
  | bridgeMalloc size =>
      obtain ⟨s', hrun, hinv⟩ := h.bridge_answer hzone (h.out.buddyMalloc hzone hlegal)
      refine ⟨s', slubs, xs, ?_, hinv⟩
      rw [← hrun, MemoryStack.step, koffsetMalloc]
      cases s.vmalloc.bridge.malloc size <;> rfl
  | bridgeAlignedMalloc size align => exact absurd trivial hcheck
  | bridgeFree block =>
      obtain ⟨i, b', hi, hstart, hrun, hinv⟩ := h.bridge_free hzone hlegal
      refine ⟨_, slubs, xs, ?_, hinv⟩
      rw [MemoryStack.step, hstart, koffsetFree_pagePtr hzone hi, hrun]
      rfl
  | bridgeFreeNull => exact ⟨s, slubs, xs, rfl, h⟩
  | allocPages pages =>
      obtain ⟨s', hrun, hinv⟩ := h.adapter_answer hzone hlegal
      exact ⟨s', slubs, xs, hrun, hinv⟩
  | freePages pages => exact absurd trivial hcheck
  | write links levelIdx =>
      obtain ⟨rfl, hclients, hpaddr⟩ := h
      exact ⟨_, slubs, xs, rfl, rfl, hclients.write hlegal.1 hlegal.2, hpaddr⟩

/-- **Every legal call keeps the invariant.** -/
theorem Inv.step (h : Inv b₀ n m base s slubs xs) (hzone : DirectMapped b₀ n) {call : StackCall}
    (hlegal : s.Legal call) {s' : MemoryStack} (hstep : s.step call = .ok s') :
    ∃ slubs' xs', Inv b₀ n m base s' slubs' xs' := by
  by_cases hcheck : call.Checked
  · cases call with
    | bridgeAlignedMalloc size align =>
        obtain ⟨answer, hanswer, -⟩ := bind_eq_ok.1 hstep
        obtain ⟨answer, hanswer, -⟩ := bind_eq_ok.1 hanswer
        obtain ⟨size', hsize', -⟩ := bind_eq_ok.1 hanswer
        obtain ⟨s'', hrun, hinv⟩ := h.bridge_aligned hzone hlegal hsize'
        obtain rfl : s' = s'' := Except.ok.inj (hstep.symm.trans hrun)
        exact ⟨slubs, xs, hinv⟩
    | freePages pages => exact ⟨slubs, xs, h.adapter_free hzone hlegal hstep⟩
    | _ => exact hcheck.elim
  · obtain ⟨s'', slubs', xs', hrun, hinv⟩ := h.answer hzone hlegal hcheck
    obtain rfl : s' = s'' := Except.ok.inj (hstep.symm.trans hrun)
    exact ⟨slubs', xs', hinv⟩

end Step

/-! ### Reachable states -/

/-- What the bridge makes of an answer goes back as the address that the allocator has answered. -/
def GoesBack (answer : Outcome (ℕ × BuddyPmalloc)) : Prop :=
  ∀ pa b', answer = .ok (pa, b') → pa ≠ minusOne64 →
    (bridged (pa, b')).1 ≠ 0 ∧ slubBlockSize ∣ (bridged (pa, b')).1.toNat ∧
      ∀ b : BuddyPmalloc, koffsetFree (bridged (pa, b')).1 b = b.free pa

/-- What holds in one state; there are the slubs `slubs`, and `xs` are the elements of the lists. -/
structure Correct (b₀ : BuddyPmalloc) (n m : ℕ) (base : Ptr) (s : MemoryStack) (slubs : Finset Ptr)
    (xs : SlubList → List Ptr) : Prop where
  /-- Live objects share no byte. -/
  apart : PairwiseApart s.ranges
  /-- They share no byte with the headers of slubs either. -/
  headers : ∀ b ∈ s.ranges, ∀ p ∈ slubs, b.Apart (headerMem p)
  /-- The slub allocator is correct, with the blocks of the other clients out besides. -/
  slub : SlubRun.Correct koffsetPvbridge (PoolOwns b₀ n m (headsBlock base))
    (s.blocks + s.pages.map Pages.mem) ⟨s.vmalloc, s.objects⟩ slubs xs
  /-- No slot of a slub is at a multiple of the size of slubs. -/
  odd : ∀ p ∈ slubs, ∀ x ∈ slots p (s.vmalloc.level p), ¬ slubBlockSize ∣ x.toNat
  /-- Everything from the bridge is. -/
  even : ∀ b ∈ slubBlocks slubs + (largeObjects s.objects + (s.blocks + s.pages.map Pages.mem)),
    slubBlockSize ∣ b.start.toNat
  /-- A slot goes back to its slub. -/
  small : ∀ b ∈ s.objects, b.size ≤ 2 ^ maxSlubLevel →
    b.start ∈ slots (SlubVmalloc.slubOf b.start)
        (s.vmalloc.level (SlubVmalloc.slubOf b.start)) ∧
      SlubVmalloc.free koffsetPvbridge b.start s.vmalloc =
        .ok (SlubVmalloc.freeSlot b.start s.vmalloc)
  /-- A block goes back to the bridge. -/
  large : ∀ b ∈ s.objects, 2 ^ maxSlubLevel < b.size →
    SlubVmalloc.free koffsetPvbridge b.start s.vmalloc = (do
      return { s.vmalloc with bridge := ← koffsetFree b.start s.vmalloc.bridge })
  /-- The bridge gives back what it was given, -/
  malloc : ∀ size, FewPages size → GoesBack (s.vmalloc.bridge.malloc size)
  /-- for aligned requests too. -/
  alignedMalloc : ∀ size align, FewPages (max align size) →
    GoesBack (s.vmalloc.bridge.alignedMalloc size align)
  /-- Only the calls that check their arguments may fail. -/
  safe : ∀ call, s.Legal call → ¬ call.Checked → ∃ s', s.step call = .ok s'

section Reachable

variable {s : MemoryStack} {slubs : Finset Ptr} {xs : SlubList → List Ptr}

/-- An answer that is `-1` or the address of a page goes back. -/
theorem goesBack_of_answer (hzone : DirectMapped b₀ n) {b : BuddyPmalloc}
    {answer : Outcome (ℕ × BuddyPmalloc)} {Q : ℕ → BuddyPmalloc → Prop}
    (h : answer = .ok (minusOne64, b) ∨
      ∃ i b', i < n ∧ answer = .ok (b₀.pageAddr i, b') ∧ Q i b') : GoesBack answer := by
  intro pa b' hanswer hne
  rcases h with hnone | ⟨i, b'', hi, hsome, -⟩
  · obtain ⟨rfl, -⟩ := Prod.mk.inj (Except.ok.inj (hanswer.symm.trans hnone))
    exact absurd rfl hne
  · obtain ⟨rfl, -⟩ := Prod.mk.inj (Except.ok.inj (hanswer.symm.trans hsome))
    rw [bridged_pageAddr hzone hi]
    exact ⟨kva_ne_zero (hzone.pageAddr_eq hi).2, hzone.dvd_pagePtr hi, koffsetFree_pagePtr hzone hi⟩

/-- The invariant gives everything else. -/
theorem Inv.correct (h : Inv b₀ n m base s slubs xs) (hzone : DirectMapped b₀ n) :
    s.Correct b₀ n m base slubs xs := by
  have C := koffset_contract hzone m (headsBlock base)
  have hslub : SlubRun.Inv (PoolOwns b₀ n m (headsBlock base)) base
      (s.blocks + s.pages.map Pages.mem) ⟨s.vmalloc, s.objects⟩ slubs xs := ⟨h.base_eq, h.clients⟩
  refine ⟨h.clients.pairwiseApart, fun b hb p hp => h.clients.apart_header hb hp, hslub.correct C,
    fun p hp x hx => ?_, h.out.aligned, fun b hb hsize => ?_, fun b hb hsize => ?_, ?_, ?_, ?_⟩
  · obtain ⟨-, hodd, -, -⟩ :=
      slot_spec (h.clients.heap.inv.aligned p hp) (h.clients.heap.inv.slubLevel hp) hx
    exact hodd
  · have hodd : ¬ slubBlockSize ∣ b.start.toNat := by
      rw [h.clients.sizes b hb, not_lt]
      exact hsize
    refine ⟨(h.clients.mem_slots (SlubClients.mem_small.2 ⟨hb, hodd⟩)).2, ?_⟩
    rw [SlubVmalloc.free, if_neg (mt isAligned_slubBlockSize.1 hodd)]
    rfl
  · rw [SlubVmalloc.free, if_pos (isAligned_slubBlockSize.2 ((h.clients.sizes b hb).2 hsize))]
    rfl
  · intro size hsize
    exact goesBack_of_answer hzone (h.out.buddyMalloc hzone hsize)
  · intro size align hsize pa b' hanswer
    obtain ⟨size', hsize', -⟩ := bind_eq_ok.1 hanswer
    obtain rfl := alignedSize_of_ok hsize'
    obtain ⟨P, hP⟩ := h.out.owns
    rw [hP.setup.alignedSize] at hsize'
    exact goesBack_of_answer hzone (h.out.buddyAlignedMalloc hzone hsize' hsize) pa b' hanswer
  · intro call hlegal hcheck
    obtain ⟨s', -, -, hrun, -⟩ := h.answer hzone hlegal hcheck
    exact ⟨s', hrun⟩

variable {valloc : ℕ → ℕ} {zbase pageCount : ℕ} {links : ListHeads} {levelIdx : Ptr → ℕ}
  {zone : BuddyRun}

/-- `vmm_bootstrap` establishes the invariant, with the heads of the lists in no free page. -/
theorem inv_start {P : Pool n m} (hmodels : Models zone.alloc P) (hsetup : SameSetup b₀ zone.alloc)
    (hfits : base.toNat + (headsBlock base).size ≤ 2 ^ 32)
    (hheads : ∀ a i, (headsBlock base).Covers a → i < n → (blockMem b₀ ⟨i, 0⟩).Covers a →
      ¬ zone.alloc.FreePage i) :
    Inv b₀ n m base (start base links levelIdx zone.alloc) ∅ fun _ => [] := by
  have hout : BlocksOut (PoolOwns b₀ n m (headsBlock base)) slubBlockSize (headsBlock base)
      zone.alloc 0 :=
    ⟨⟨P, .of_models hmodels hsetup hheads⟩, pairwiseApart_cons.2 ⟨by simp, pairwiseApart_zero⟩,
      by simp, by simp⟩
  exact ⟨rfl, (SlubRun.inv_start hfits links levelIdx hout).clients, by simp [start]⟩

/-- **In every reachable state live objects are apart, and every pointer goes back to the layer that
produced it.** -/
theorem reachable_ranges_apart
    (hctor : BuddyPmalloc.ctor valloc zbase Arch.pageSize pageCount = .ok b₀)
    (hdvd : Arch.pageSize ∣ zbase)
    (htop : zbase + Arch.pageSize * pageCount ≤ Arch.ktop - Arch.koffset)
    (hzone : buddyMachine.Reachable (BuddyRun.start b₀) zone)
    (hfits : base.toNat + (headsBlock base).size ≤ 2 ^ 32)
    (hheads : ∀ a i, (headsBlock base).Covers a → i < pageCount → (blockMem b₀ ⟨i, 0⟩).Covers a →
      ¬ zone.alloc.FreePage i)
    (hs : stackMachine.Reachable (start base links levelIdx zone.alloc) s) :
    ∃ slubs xs, s.Correct b₀ pageCount b₀.maxOrder base slubs xs := by
  obtain ⟨-, hbase, hsize, -⟩ := models_of_ctor hctor
  have hmap : DirectMapped b₀ pageCount := ⟨hsize, hbase ▸ hdvd, hbase ▸ htop⟩
  obtain ⟨P, hP⟩ := BuddyRun.Reachable.inv (hbase ▸ hsize ▸ hmap.params) hctor hzone
  have hinv : ∃ slubs xs, Inv b₀ pageCount b₀.maxOrder base s slubs xs := by
    refine hs.invariant (P := fun s => ∃ slubs xs, Inv b₀ pageCount b₀.maxOrder base s slubs xs)
      ⟨_, _, inv_start hP.models hP.setup hfits hheads⟩ ?_
    rintro s call s' ⟨slubs, xs, h⟩ hlegal hstep
    exact h.step hmap hlegal hstep
  obtain ⟨slubs, xs, h⟩ := hinv
  exact ⟨slubs, xs, h.correct hmap⟩

end Reachable

/-- A run over a zone of three pages: all are given back before the first call, and then a slot, a
block of the bridge and a page of the adapter are taken. -/
theorem exists_run_three_pages : ∃ (b₀ : BuddyPmalloc) (zone : BuddyRun) (s : MemoryStack),
    BuddyPmalloc.ctor (fun _ => 1) 0x1000000 4096 3 = .ok b₀ ∧
    buddyMachine.Reachable (BuddyRun.start b₀) zone ∧
    (∀ a i, (headsBlock 0x80100000).Covers a → i < 3 → (blockMem b₀ ⟨i, 0⟩).Covers a →
      ¬ zone.alloc.FreePage i) ∧
    stackMachine.Reachable (start 0x80100000 ⟨id, id⟩ (fun _ => 0) zone.alloc) s ∧
    (s.objects, s.blocks, s.pages) =
      ({⟨0x81002c00, 1024⟩}, {⟨0x81000000, 4096⟩}, {⟨0x1001000, 4096, 0⟩}) := by
  have hrun : (do
      let b ← BuddyPmalloc.ctor (fun _ => 1) 0x1000000 4096 3
      let z ← (BuddyRun.start b).step (.free 0)
      let z ← z.step (.free 1)
      let z ← z.step (.free 2)
      let s ← (start 0x80100000 ⟨id, id⟩ (fun _ => 0) z.alloc).step (.malloc 1024)
      let s ← s.step (.bridgeMalloc 4096)
      let s ← s.step (.allocPages ⟨0, 4096, 0⟩)
      return (s.objects, s.blocks, s.pages)) = Except.ok ({⟨0x81002c00, 1024⟩}, {⟨0x81000000, 4096⟩},
        {⟨0x1001000, 4096, 0⟩}) := by decide +kernel
  obtain ⟨b₀, hctor, hrun⟩ := bind_eq_ok.1 hrun
  obtain ⟨z₁, hfree₁, hrun⟩ := bind_eq_ok.1 hrun
  obtain ⟨z₂, hfree₂, hrun⟩ := bind_eq_ok.1 hrun
  obtain ⟨z₃, hfree₃, hrun⟩ := bind_eq_ok.1 hrun
  obtain ⟨s₁, hmalloc, hrun⟩ := bind_eq_ok.1 hrun
  obtain ⟨s₂, hblock, hrun⟩ := bind_eq_ok.1 hrun
  obtain ⟨s₃, hpages, hrun⟩ := bind_eq_ok.1 hrun
  obtain ⟨hmodels, hbase, hsize, -⟩ := BuddyPmalloc.models_of_ctor hctor
  have hlive : (BuddyRun.start b₀).live = {0, 1, 2} := by
    rw [BuddyRun.start, hmodels.fits.pageCount_eq]
    rfl
  obtain ⟨hz₁, hlive₁⟩ := BuddyRun.Reachable.free .init (by rw [hlive]; decide) hfree₁
  obtain ⟨hz₂, hlive₂⟩ := BuddyRun.Reachable.free hz₁ (by rw [hlive₁, hlive]; decide) hfree₂
  obtain ⟨hz₃, -⟩ := BuddyRun.Reachable.free hz₂ (by rw [hlive₂, hlive₁, hlive]; decide) hfree₃
  have hzone : DirectMapped b₀ 3 := ⟨hsize, by rw [hbase]; decide, by rw [hbase]; decide⟩
  have hbelow : (headsBlock 0x80100000).start.toNat + (headsBlock 0x80100000).size ≤
      Arch.koffset + b₀.base := by
    rw [hbase]
    decide
  have hpage : FewPages 4096 := by
    simp only [FewPages, Arch.pageSize]
    omega
  exact ⟨b₀, z₃, s₃, hctor, hz₃,
    fun a i hres hi hcov => absurd hcov (hzone.notCovers_of_le hbelow hi hres),
    .step (r := .allocPages ⟨0, 4096, 0⟩) (.step (r := .bridgeMalloc 4096)
      (.step (r := .malloc 1024) .init (by decide : 1024 < 2 ^ 32) hmalloc) hpage hblock)
      hpage hpages, Except.ok.inj hrun⟩

/-- A slot, a block of the bridge and a page of the adapter, from a zone of three pages. -/
theorem reachable_ranges_apart_three_pages : ∃ (b₀ : BuddyPmalloc) (s : MemoryStack)
    (slubs : Finset Ptr) (xs : SlubList → List Ptr),
    (s.objects, s.blocks, s.pages) = ({⟨0x81002c00, 1024⟩}, {⟨0x81000000, 4096⟩},
      {⟨0x1001000, 4096, 0⟩}) ∧ s.Correct b₀ 3 b₀.maxOrder 0x80100000 slubs xs := by
  obtain ⟨b₀, zone, s, hctor, hzone, hheads, hs, hlive⟩ := exists_run_three_pages
  obtain ⟨slubs, xs, h⟩ := reachable_ranges_apart hctor (by decide) (by decide) hzone (by decide)
    hheads hs
  exact ⟨b₀, s, slubs, xs, hlive, h⟩

end MemoryStack

end Aim
