/-
**What the slub allocator keeps.**

The allocator threads its lists through memory that it shares with its clients: a slub sits on one
of the fourteen lists of the allocator by the node in its header, and a free slot sits on the list
of its slub by a node in the slot itself.  The invariant names the elements of all these lists.  A
slub is on the list that its level and its free list call for, and the free slots of a slub and the
slots that clients hold are together exactly its slots.

Main definitions:

* `Aim.SlubList` — the lists, with their heads;
* `Aim.Homes` — every slub is on the list that it belongs to, and on no other;
* `Aim.SlubInv` — the invariant.

Main results:

* `Aim.SlubInv.held_notMem_ring` — the nodes in memory that a client holds are in no list;
* `Aim.SlubInv.addSlub`, `Aim.SlubInv.takeSlot_spec`, `Aim.SlubInv.freeSlot_spec` — **the
  operations on slubs keep the invariant**;
* `Aim.SlubHeap.malloc_spec`, `Aim.SlubHeap.free_slot`, `Aim.SlubHeap.free_block` — **so do
  `malloc` and `free`, over a bridge that keeps its contract**;
* `Aim.slubHeap_ctor` — the constructor establishes the invariant.
-/

import AimKernel.SlubVmalloc

set_option relaxedAutoImplicit false
set_option autoImplicit false

namespace Aim

open Intrusive

/-! ### The pages of slubs -/

/-- Rounding down finds the page that an address is in. -/
theorem slubOf_eq_iff {p x : Ptr} (h : slubBlockSize ∣ p.toNat) :
    SlubVmalloc.slubOf x = p ↔ MemBlock.Covers ⟨p, slubBlockSize⟩ x.toNat := by
  have hx := x.isLt
  have hbelow : alignBelow 64 x.toNat (2 ^ 12) = x.toNat / 2 ^ 12 * 2 ^ 12 :=
    alignBelow_eq (by decide) (by omega)
  have hslub : (SlubVmalloc.slubOf x).toNat = x.toNat / 4096 * 4096 := by
    rw [SlubVmalloc.slubOf, slubBlockSize, show 4096 = 2 ^ 12 by rfl, hbelow, BitVec.toNat_ofNat]
    omega
  rw [← BitVec.toNat_inj, hslub, MemBlock.Covers]
  simp only [slubBlockSize] at h ⊢
  omega

theorem slubOf_self {p : Ptr} (h : slubBlockSize ∣ p.toNat) : SlubVmalloc.slubOf p = p :=
  (slubOf_eq_iff h).2 ⟨le_rfl, by simp [slubBlockSize]⟩

theorem toNat_freeList {p : Ptr} (h : slubBlockSize ∣ p.toNat) :
    (p + freeListOffset).toNat = p.toNat + 8 := by
  have hp := p.isLt
  rw [BitVec.toNat_add, show freeListOffset.toNat = 8 by rfl]
  simp only [slubBlockSize] at h
  omega

theorem slubOf_freeList {p : Ptr} (h : slubBlockSize ∣ p.toNat) :
    SlubVmalloc.slubOf (p + freeListOffset) = p := by
  rw [slubOf_eq_iff h, MemBlock.Covers, toNat_freeList h]
  simp [slubBlockSize]

/-- Where a slot is. -/
theorem slot_spec {p x : Ptr} (h : slubBlockSize ∣ p.toNat) {level : ℕ} (hlevel : SlubLevel level)
    (hx : x ∈ slots p level) : SlubVmalloc.slubOf x = p ∧ ¬ slubBlockSize ∣ x.toNat ∧
      p.toNat + sizeofSlubHeader < x.toNat ∧ x.toNat + 2 ^ level ≤ p.toNat + slubBlockSize := by
  obtain ⟨i, hi, rfl⟩ := mem_slots.1 hx
  obtain ⟨hheader, -, -⟩ := slots_fit hlevel
  obtain ⟨hsolt, hend⟩ := toNat_solt h hlevel hi
  obtain ⟨hslub, hodd⟩ := slubOf_solt h hlevel hi
  exact ⟨hslub, hodd, by omega, by omega⟩

/-! ### The lists -/

/-- The lists of the allocator, and the free lists of slubs. -/
inductive SlubList
  | avail (i : ℕ)
  | full (i : ℕ)
  | free (slub : Ptr)
deriving DecidableEq

namespace SlubList

/-- Where the head of a list is. -/
def head (base : Ptr) : SlubList → Ptr
  | avail i => SlubVmalloc.avail base i
  | full i => SlubVmalloc.full base i
  | free slub => slub + freeListOffset

/-- One of the lists of the allocator, which slubs are on. -/
def IsHome : SlubList → Prop
  | avail i => i < slubTotalLevels
  | full i => i < slubTotalLevels
  | free _ => False

end SlubList

/-- The lists that there are. -/
def slubLists (slubs : Finset Ptr) : Set SlubList :=
  {r | r.IsHome ∨ ∃ p ∈ slubs, r = .free p}

theorem mem_slubLists_of_isHome {slubs : Finset Ptr} {r : SlubList} (h : r.IsHome) :
    r ∈ slubLists slubs := Or.inl h

theorem free_mem_slubLists {slubs : Finset Ptr} {p : Ptr} :
    SlubList.free p ∈ slubLists slubs ↔ p ∈ slubs := by
  constructor
  · rintro (h | ⟨q, hq, heq⟩)
    · exact h.elim
    · cases heq
      exact hq
  · exact fun h => Or.inr ⟨p, h, rfl⟩

theorem slubLists_insert (p : Ptr) (slubs : Finset Ptr) :
    slubLists (insert p slubs) = insert (SlubList.free p) (slubLists slubs) := by
  ext r
  simp only [slubLists, Set.mem_insert_iff, Finset.mem_insert, Set.mem_ofPred_eq]
  constructor
  · rintro (h | ⟨q, rfl | hq, rfl⟩)
    · exact Or.inr (Or.inl h)
    · exact Or.inl rfl
    · exact Or.inr (Or.inr ⟨q, hq, rfl⟩)
  · rintro (rfl | h | ⟨q, hq, rfl⟩)
    · exact Or.inr ⟨p, Or.inl rfl, rfl⟩
    · exact Or.inl h
    · exact Or.inr ⟨q, Or.inr hq, rfl⟩

/-- The list that a slub belongs to, when `xs` are the elements of the lists. -/
def homeOf (levelIdx : Ptr → ℕ) (xs : SlubList → List Ptr) (slub : Ptr) : SlubList :=
  if xs (.free slub) = [] then .full (levelIdx slub) else .avail (levelIdx slub)

theorem homeOf_isHome {levelIdx : Ptr → ℕ} {slub : Ptr} (h : levelIdx slub < slubTotalLevels)
    (xs : SlubList → List Ptr) : (homeOf levelIdx xs slub).IsHome := by
  unfold homeOf
  split
  · exact h
  · exact h

/-- **Every slub is on the list that it belongs to**, and on no other. -/
def Homes (slubs : Finset Ptr) (home : Ptr → SlubList) (xs : SlubList → List Ptr) : Prop :=
  ∀ r : SlubList, r.IsHome → ∀ p, p ∈ xs r ↔ p ∈ slubs ∧ home p = r

section Homes

variable {slubs : Finset Ptr} {home home' : Ptr → SlubList} {xs : SlubList → List Ptr}

/-- Nothing moves while the slubs belong where they did. -/
theorem Homes.stay {xs' : SlubList → List Ptr} (h : Homes slubs home xs)
    (hhome : ∀ p ∈ slubs, home' p = home p) (hxs : ∀ r : SlubList, r.IsHome → xs' r = xs r) :
    Homes slubs home' xs' := by
  intro r hr p
  rw [hxs r hr, h r hr p, and_congr_right_iff]
  intro hp
  rw [hhome p hp]

/-- A slub moves when it belongs elsewhere. -/
theorem Homes.move (h : Homes slubs home xs) {p : Ptr} (hp : p ∈ slubs) {r r' : SlubList}
    (hr : home p = r) (hne : r' ≠ r) {a b : List Ptr} (hxs : xs r = a ++ p :: b)
    (hnotMem : p ∉ a ++ b) (hhome : ∀ q ∈ slubs, q ≠ p → home' q = home q) (hhome' : home' p = r') :
    Homes slubs home' (Function.update (Function.update xs r (a ++ b)) r' (p :: xs r')) := by
  intro t ht q
  rcases eq_or_ne q p with rfl | hqp
  · have hq : q ∈ slubs ∧ home' q = t ↔ r' = t := by simp [hp, hhome']
    rw [hq]
    rcases eq_or_ne t r' with rfl | htr'
    · simp
    · rw [Function.update_of_ne htr']
      rcases eq_or_ne t r with rfl | htr
      · simp [hnotMem, hne]
      · rw [Function.update_of_ne htr, h t ht q, hr]
        simp [htr.symm, htr'.symm]
  · have hq : q ∈ slubs ∧ home' q = t ↔ q ∈ xs t := by
      rw [h t ht q, and_congr_right_iff]
      intro hmem
      rw [hhome q hmem hqp]
    rw [hq]
    rcases eq_or_ne t r' with rfl | htr'
    · simp [hqp]
    · rw [Function.update_of_ne htr']
      rcases eq_or_ne t r with rfl | htr
      · simp [hxs, hqp]
      · rw [Function.update_of_ne htr]

/-- A new slub. -/
theorem Homes.insert (h : Homes slubs home xs) {p : Ptr} (hp : p ∉ slubs) {r : SlubList}
    (hhome : ∀ q ∈ slubs, home' q = home q) (hhome' : home' p = r) :
    Homes (insert p slubs) home' (Function.update xs r (p :: xs r)) := by
  intro t ht q
  have hold : q ∈ xs t ↔ q ∈ slubs ∧ home' q = t := by
    rw [h t ht q, and_congr_right_iff]
    intro hmem
    rw [hhome q hmem]
  rw [Finset.mem_insert]
  rcases eq_or_ne t r with rfl | htr
  · rw [Function.update_self, List.mem_cons, hold]
    constructor
    · rintro (rfl | ⟨hq, hqt⟩)
      · exact ⟨Or.inl rfl, hhome'⟩
      · exact ⟨Or.inr hq, hqt⟩
    · rintro ⟨rfl | hq, hqt⟩
      · exact Or.inl rfl
      · exact Or.inr ⟨hq, hqt⟩
  · rw [Function.update_of_ne htr, hold]
    constructor
    · rintro ⟨hq, hqt⟩
      exact ⟨Or.inr hq, hqt⟩
    · rintro ⟨rfl | hq, hqt⟩
      · exact absurd (hqt.symm.trans hhome') htr
      · exact ⟨hq, hqt⟩

end Homes

/-! ### The invariant -/

variable {σ : Type}

/-- The level of a slub. -/
def SlubVmalloc.level (s : SlubVmalloc σ) (slub : Ptr) : ℕ := s.levelIdx slub + minSlubLevel

/-- The slots of one slub among those that are held. -/
def heldIn (held : Multiset Ptr) (slub : Ptr) : Multiset Ptr :=
  held.filter fun x => SlubVmalloc.slubOf x = slub

theorem mem_heldIn {held : Multiset Ptr} {slub x : Ptr} :
    x ∈ heldIn held slub ↔ x ∈ held ∧ SlubVmalloc.slubOf x = slub := Multiset.mem_filter

theorem heldIn_cons_self (held : Multiset Ptr) (x : Ptr) :
    heldIn (x ::ₘ held) (SlubVmalloc.slubOf x) = x ::ₘ heldIn held (SlubVmalloc.slubOf x) :=
  Multiset.filter_cons_of_pos (p := fun y => SlubVmalloc.slubOf y = SlubVmalloc.slubOf x) held rfl

theorem heldIn_cons_of_ne (held : Multiset Ptr) {x p : Ptr} (h : p ≠ SlubVmalloc.slubOf x) :
    heldIn (x ::ₘ held) p = heldIn held p :=
  Multiset.filter_cons_of_neg (p := fun y => SlubVmalloc.slubOf y = p) held h.symm

/-- **The invariant**: there are the slubs `slubs`, the lists have the elements `xs`, and clients
hold the slots `held`. -/
structure SlubInv (s : SlubVmalloc σ) (slubs : Finset Ptr) (xs : SlubList → List Ptr)
    (held : Multiset Ptr) : Prop where
  rings : Family s.links (slubLists slubs) (SlubList.head s.base) xs
  /-- Slubs are pages. -/
  aligned : ∀ p ∈ slubs, slubBlockSize ∣ p.toNat
  /-- The heads of the lists are not in the slubs. -/
  heads : ∀ r : SlubList, r.IsHome → SlubVmalloc.slubOf (r.head s.base) ∉ slubs
  level : ∀ p ∈ slubs, s.levelIdx p < slubTotalLevels
  homes : Homes slubs (homeOf s.levelIdx xs) xs
  /-- The free slots and the slots that are held are the slots of a slub, each once. -/
  slots : ∀ p ∈ slubs, (xs (.free p) : Multiset Ptr) + heldIn held p =
    (slots p (s.level p) : Multiset Ptr)
  held : ∀ x ∈ held, SlubVmalloc.slubOf x ∈ slubs

namespace SlubInv

variable {s : SlubVmalloc σ} {slubs : Finset Ptr} {xs : SlubList → List Ptr} {held : Multiset Ptr}

theorem slubLevel (h : SlubInv s slubs xs held) {p : Ptr} (hp : p ∈ slubs) :
    SlubLevel (s.level p) := by
  have hlevel := h.level p hp
  simp only [SlubLevel, SlubVmalloc.level, slubTotalLevels, minSlubLevel, maxSlubLevel] at hlevel ⊢
  omega

/-- A free slot is a slot. -/
theorem mem_slots_of_free (h : SlubInv s slubs xs held) {p x : Ptr} (hp : p ∈ slubs)
    (hx : x ∈ xs (.free p)) : x ∈ Aim.slots p (s.level p) := by
  have hmem : x ∈ (Aim.slots p (s.level p) : Multiset Ptr) := by
    rw [← h.slots p hp, Multiset.mem_add]
    exact Or.inl hx
  exact hmem

/-- A slot that is held is a slot. -/
theorem mem_slots_of_held (h : SlubInv s slubs xs held) {x : Ptr} (hx : x ∈ held) :
    x ∈ Aim.slots (SlubVmalloc.slubOf x) (s.level (SlubVmalloc.slubOf x)) := by
  have hmem : x ∈ (Aim.slots (SlubVmalloc.slubOf x) (s.level (SlubVmalloc.slubOf x)) :
      Multiset Ptr) := by
    rw [← h.slots _ (h.held x hx), Multiset.mem_add, mem_heldIn]
    exact Or.inr ⟨hx, rfl⟩
  exact hmem

/-- The nodes of the lists are in slubs, the heads of the lists of slubs apart. -/
theorem slubOf_node (h : SlubInv s slubs xs held) {r : SlubList} (hr : r ∈ slubLists slubs) {x : Ptr}
    (hx : x ∈ r.head s.base :: xs r) :
    SlubVmalloc.slubOf x ∈ slubs ∨ (r.IsHome ∧ x = r.head s.base) := by
  rcases hr with hhome | ⟨p, hp, rfl⟩
  · rcases List.mem_cons.1 hx with rfl | hx
    · exact Or.inr ⟨hhome, rfl⟩
    · have hmem := ((h.homes r hhome x).1 hx).1
      left
      rwa [slubOf_self (h.aligned x hmem)]
  · left
    rcases List.mem_cons.1 hx with rfl | hx
    · rw [SlubList.head, slubOf_freeList (h.aligned p hp)]
      exact hp
    · rw [(slot_spec (h.aligned p hp) (h.slubLevel hp) (h.mem_slots_of_free hp hx)).1]
      exact hp

/-- The nodes in a page that is no slub are in no list. -/
theorem fresh_notMem_ring (h : SlubInv s slubs xs held) {p : Ptr} (hp : p ∉ slubs)
    (hheads : ∀ r : SlubList, r.IsHome → SlubVmalloc.slubOf (r.head s.base) ≠ p) {x : Ptr}
    (hx : SlubVmalloc.slubOf x = p) : ∀ r ∈ slubLists slubs, x ∉ r.head s.base :: xs r := by
  intro r hr hmem
  rcases h.slubOf_node hr hmem with hslub | ⟨hhome, rfl⟩
  · exact hp (hx ▸ hslub)
  · exact hheads r hhome hx

/-- **The nodes in memory that a client holds are in no list.** -/
theorem held_notMem_ring (h : SlubInv s slubs xs held) {x : Ptr} (hx : x ∈ held) :
    ∀ r ∈ slubLists slubs, x ∉ r.head s.base :: xs r := by
  have hp := h.held x hx
  have haligned := h.aligned _ hp
  obtain ⟨-, hodd, hheader, -⟩ := slot_spec haligned (h.slubLevel hp) (h.mem_slots_of_held hx)
  rintro r (hhome | ⟨p, hpmem, rfl⟩) hmem
  · rcases List.mem_cons.1 hmem with rfl | hmem
    · exact h.heads r hhome hp
    · exact hodd (h.aligned x ((h.homes r hhome x).1 hmem).1)
  · -- the free lists: `x` is no head, and no free slot since it is a slot only once
    rcases List.mem_cons.1 hmem with heq | hmem
    · have hslub : SlubVmalloc.slubOf x = p := by
        rw [heq, SlubList.head, slubOf_freeList (h.aligned p hpmem)]
      rw [hslub, heq, SlubList.head, toNat_freeList (h.aligned p hpmem)] at hheader
      simp [sizeofSlubHeader] at hheader
    · have hslub := (slot_spec (h.aligned p hpmem) (h.slubLevel hpmem)
        (h.mem_slots_of_free hpmem hmem)).1
      have hnodup := nodup_slots (h.aligned p hpmem) (h.slubLevel hpmem)
      rw [← Multiset.coe_nodup, ← h.slots p hpmem, Multiset.nodup_add] at hnodup
      exact Multiset.disjoint_left.1 hnodup.2.2 hmem (mem_heldIn.2 ⟨hx, hslub⟩)

/-- No slot is held twice. -/
theorem held_nodup (h : SlubInv s slubs xs held) : held.Nodup := by
  rw [Multiset.nodup_iff_count_le_one]
  intro x
  by_cases hx : x ∈ held
  · have hp := h.held x hx
    have hnodup := nodup_slots (h.aligned _ hp) (h.slubLevel hp)
    rw [← Multiset.coe_nodup, ← h.slots _ hp, Multiset.nodup_add] at hnodup
    have hcount := Multiset.nodup_iff_count_le_one.1 hnodup.2.1 x
    rwa [heldIn, Multiset.count_filter_of_pos
      (p := fun y => SlubVmalloc.slubOf y = SlubVmalloc.slubOf x) rfl] at hcount
  · rw [Multiset.count_eq_zero_of_notMem hx]
    exact Nat.zero_le 1

/-- Writes to nodes that are in no list, and to the headers of what is no slub, do no harm. -/
theorem congr (h : SlubInv s slubs xs held) {s' : SlubVmalloc σ} (hbase : s'.base = s.base)
    (hlinks : ∀ r ∈ slubLists slubs, ∀ x ∈ r.head s.base :: xs r,
      s'.links.next x = s.links.next x ∧ s'.links.prev x = s.links.prev x)
    (hlevel : ∀ p ∈ slubs, s'.levelIdx p = s.levelIdx p) : SlubInv s' slubs xs held where
  rings := by
    rw [hbase]
    exact h.rings.congr hlinks
  aligned := h.aligned
  heads := by
    rw [hbase]
    exact h.heads
  level p hp := by
    rw [hlevel p hp]
    exact h.level p hp
  homes := by
    refine h.homes.stay (fun p hp => ?_) fun _ _ => rfl
    rw [homeOf, homeOf, hlevel p hp]
  slots p hp := by
    rw [h.slots p hp, SlubVmalloc.level, SlubVmalloc.level, hlevel p hp]
  held := h.held

/-! ### A new slub -/

/-- The elements of the lists when there is a new slub. -/
def withSlub (xs : SlubList → List Ptr) (p : Ptr) (level : ℕ) : SlubList → List Ptr :=
  Function.update (Function.update xs (.free p) (Aim.slots p level).reverse)
    (.avail (slubLevelIndex level)) (p :: xs (.avail (slubLevelIndex level)))

theorem withSlub_free (xs : SlubList → List Ptr) (p : Ptr) (level : ℕ) :
    withSlub xs p level (.free p) = (Aim.slots p level).reverse := by
  rw [withSlub, Function.update_of_ne (by simp), Function.update_self]

theorem withSlub_free_of_ne (xs : SlubList → List Ptr) {p q : Ptr} (hq : q ≠ p) (level : ℕ) :
    withSlub xs p level (.free q) = xs (.free q) := by
  rw [withSlub, Function.update_of_ne (by simp), Function.update_of_ne (by simpa using hq)]

theorem slubLevelIndex_lt {level : ℕ} (h : SlubLevel level) :
    slubLevelIndex level < slubTotalLevels := by
  obtain ⟨-, hmax⟩ := h
  simp only [slubLevelIndex, slubTotalLevels, minSlubLevel, maxSlubLevel] at hmax ⊢
  omega

/-- The slots of a slub are none of the nodes in its header. -/
theorem slots_ne_header {p x : Ptr} (haligned : slubBlockSize ∣ p.toNat) {level : ℕ}
    (hlevel : SlubLevel level) (hx : x ∈ Aim.slots p level) : x ≠ p + freeListOffset ∧ x ≠ p := by
  obtain ⟨-, -, hheader, -⟩ := slot_spec haligned hlevel hx
  constructor
  · rintro rfl
    rw [toNat_freeList haligned] at hheader
    simp [sizeofSlubHeader] at hheader
  · rintro rfl
    omega

/-- The two nodes in the header of a slub. -/
theorem slub_ne_freeList {p : Ptr} (haligned : slubBlockSize ∣ p.toNat) : p ≠ p + freeListOffset := by
  intro heq
  have hval := congrArg BitVec.toNat heq
  rw [toNat_freeList haligned] at hval
  omega

/-- The lists when a new slub is filled with slots and linked in. -/
theorem rings_addSlub (h : SlubInv s slubs xs held) {p : Ptr} (haligned : slubBlockSize ∣ p.toNat)
    (hp : p ∉ slubs) (hheads : ∀ r : SlubList, r.IsHome → SlubVmalloc.slubOf (r.head s.base) ≠ p)
    {level : ℕ} (hlevel : SlubLevel level) :
    Family ((SlubVmalloc.fillFreeList (s.links.listInit (p + freeListOffset)) p level).listAdd p
        (SlubVmalloc.avail s.base (slubLevelIndex level)))
      (slubLists (insert p slubs)) (SlubList.head s.base) (withSlub xs p level) := by
  have hnew : SlubList.free p ∉ slubLists slubs := fun hmem => hp (free_mem_slubLists.1 hmem)
  have hne : ∀ r ∈ slubLists slubs, r ≠ .free p := fun r hr heq => hnew (heq ▸ hr)
  have havail : SlubList.avail (slubLevelIndex level) ∈ slubLists slubs :=
    mem_slubLists_of_isHome (slubLevelIndex_lt hlevel)
  have hfresh : ∀ x, SlubVmalloc.slubOf x = p → ∀ r ∈ slubLists slubs,
      x ∉ r.head s.base :: xs r := fun x hx => h.fresh_notMem_ring hp hheads hx
  have hsingle : Family _ (insert (.free p) (slubLists slubs)) (SlubList.head s.base)
      (Function.update xs (.free p) []) :=
    h.rings.single hnew (hfresh _ (slubOf_freeList haligned))
  have hslots : ∀ x ∈ Aim.slots p level, ∀ r ∈ insert (.free p) (slubLists slubs),
      x ∉ r.head s.base :: Function.update xs (.free p) [] r := by
    intro x hx r hr
    rcases Set.mem_insert_iff.1 hr with rfl | hr
    · rw [Function.update_self, List.mem_singleton]
      exact (slots_ne_header haligned hlevel hx).1
    · rw [Function.update_of_ne (hne r hr)]
      exact hfresh x (slot_spec haligned hlevel hx).1 r hr
  have hfill := hsingle.foldl_insertFirst (Set.mem_insert _ _) (nodup_slots haligned hlevel) hslots
  rw [Function.update_idem, Function.update_self, List.append_nil] at hfill
  have hslub : ∀ r ∈ insert (.free p) (slubLists slubs),
      p ∉ r.head s.base :: Function.update xs (.free p) (Aim.slots p level).reverse r := by
    intro r hr
    rcases Set.mem_insert_iff.1 hr with rfl | hr
    · rw [Function.update_self, List.mem_cons, List.mem_reverse]
      rintro (heq | hmem)
      · exact slub_ne_freeList haligned heq
      · exact (slots_ne_header haligned hlevel hmem).2 rfl
    · rw [Function.update_of_ne (hne r hr)]
      exact hfresh p (slubOf_self haligned) r hr
  have hadd := hfill.insertFirst (Set.mem_insert_of_mem _ havail) hslub
  rw [Function.update_of_ne (hne _ havail)] at hadd
  rw [slubLists_insert]
  exact hadd

/-- The new slub is on the list that it belongs to. -/
theorem homes_addSlub (h : SlubInv s slubs xs held) {p : Ptr} (hp : p ∉ slubs) {level : ℕ}
    (hlevel : SlubLevel level) : Homes (insert p slubs)
      (homeOf (Function.update s.levelIdx p (slubLevelIndex level)) (withSlub xs p level))
      (withSlub xs p level) := by
  have hne : ∀ r : SlubList, r.IsHome → r ≠ .free p := by
    rintro r hr rfl
    exact hr.elim
  have hstay : Homes slubs (homeOf s.levelIdx xs)
      (Function.update xs (.free p) (Aim.slots p level).reverse) :=
    h.homes.stay (fun _ _ => rfl) fun r hr => Function.update_of_ne (hne r hr) _ _
  have hold : ∀ q ∈ slubs, homeOf (Function.update s.levelIdx p (slubLevelIndex level))
      (withSlub xs p level) q = homeOf s.levelIdx xs q := by
    intro q hq
    have hqp : q ≠ p := fun heq => hp (heq ▸ hq)
    rw [homeOf, homeOf, withSlub_free_of_ne xs hqp, Function.update_of_ne hqp]
  have hnew : homeOf (Function.update s.levelIdx p (slubLevelIndex level)) (withSlub xs p level) p =
      .avail (slubLevelIndex level) := by
    obtain ⟨-, -, hpos⟩ := slots_fit hlevel
    rw [homeOf, withSlub_free, Function.update_self, if_neg]
    intro hnil
    have hlen := congrArg List.length hnil
    rw [List.length_reverse, Aim.slots, List.length_map, List.length_range, List.length_nil] at hlen
    omega
  have hinsert := hstay.insert hp hold hnew
  rwa [Function.update_of_ne (by simp)] at hinsert

/-- **A new slub is listed with all its slots free.** -/
theorem addSlub (h : SlubInv s slubs xs held) {p : Ptr} (haligned : slubBlockSize ∣ p.toNat)
    (hp : p ∉ slubs) (hheads : ∀ r : SlubList, r.IsHome → SlubVmalloc.slubOf (r.head s.base) ≠ p)
    {level : ℕ} (hlevel : SlubLevel level) {s' : SlubVmalloc σ} (hbase : s'.base = s.base)
    (hlinks : s'.links = (SlubVmalloc.fillFreeList (s.links.listInit (p + freeListOffset)) p
      level).listAdd p (SlubVmalloc.avail s.base (slubLevelIndex level)))
    (hidx : s'.levelIdx = Function.update s.levelIdx p (slubLevelIndex level)) :
    SlubInv s' (insert p slubs) (withSlub xs p level) held where
  rings := by
    rw [hbase, hlinks]
    exact h.rings_addSlub haligned hp hheads hlevel
  aligned := (Finset.forall_mem_insert ..).2 ⟨haligned, h.aligned⟩
  heads r hr hmem := by
    rw [hbase] at hmem
    rcases Finset.mem_insert.1 hmem with heq | hmem
    · exact hheads r hr heq
    · exact h.heads r hr hmem
  level q hq := by
    rw [hidx]
    rcases eq_or_ne q p with rfl | hqp
    · rw [Function.update_self]
      exact slubLevelIndex_lt hlevel
    · rw [Function.update_of_ne hqp]
      exact h.level q (Finset.mem_of_mem_insert_of_ne hq hqp)
  homes := by
    rw [hidx]
    exact h.homes_addSlub hp hlevel
  slots q hq := by
    rw [SlubVmalloc.level, hidx]
    rcases eq_or_ne q p with rfl | hqp
    · -- nobody holds a slot of the new slub yet
      have hnone : heldIn held q = 0 :=
        Multiset.filter_eq_nil.2 fun x hx heq => hp (heq ▸ h.held x hx)
      have hback : slubLevelIndex level + minSlubLevel = level := Nat.sub_add_cancel hlevel.1
      rw [withSlub_free, hnone, add_zero, Function.update_self, hback]
      exact Multiset.coe_eq_coe.2 (List.reverse_perm _)
    · rw [withSlub_free_of_ne xs hqp, Function.update_of_ne hqp]
      exact h.slots q (Finset.mem_of_mem_insert_of_ne hq hqp)
  held x hx := Finset.mem_insert_of_mem (h.held x hx)

/-! ### Slots that come and go -/

/-- A slub that has free slots is the first of its list; its slots are of the level of the list. -/
theorem of_mem_avail (h : SlubInv s slubs xs held) {i : ℕ} (hi : i < slubTotalLevels) {p : Ptr}
    (hp : p ∈ xs (.avail i)) : p ∈ slubs ∧ xs (.free p) ≠ [] ∧ s.levelIdx p = i := by
  obtain ⟨hmem, hhome⟩ := (h.homes (.avail i) hi p).1 hp
  rw [homeOf] at hhome
  by_cases hempty : xs (.free p) = []
  · rw [if_pos hempty] at hhome
    cases hhome
  · rw [if_neg hempty] at hhome
    cases hhome
    exact ⟨hmem, hempty, rfl⟩

/-- The free list of one slub changes, and the slub changes lists if it has to. -/
theorem setFree (h : SlubInv s slubs xs held) {p : Ptr} {xs' : SlubList → List Ptr}
    {held' : Multiset Ptr} {s' : SlubVmalloc σ} (hbase : s'.base = s.base)
    (hidx : s'.levelIdx = s.levelIdx)
    (hrings : Family s'.links (slubLists slubs) (SlubList.head s.base) xs')
    (hhomes : Homes slubs (homeOf s.levelIdx xs') xs')
    (hfree : ∀ q, q ≠ p → xs' (.free q) = xs (.free q))
    (hslots : (xs' (.free p) : Multiset Ptr) + heldIn held' p =
      (xs (.free p) : Multiset Ptr) + heldIn held p)
    (hother : ∀ q, q ≠ p → heldIn held' q = heldIn held q)
    (hheld : ∀ x ∈ held', SlubVmalloc.slubOf x ∈ slubs) : SlubInv s' slubs xs' held' where
  rings := by
    rw [hbase]
    exact hrings
  aligned := h.aligned
  heads := by
    rw [hbase]
    exact h.heads
  level := by
    rw [hidx]
    exact h.level
  homes := by
    rw [hidx]
    exact hhomes
  slots q hq := by
    rw [SlubVmalloc.level, hidx]
    rcases eq_or_ne q p with rfl | hqp
    · rw [hslots]
      exact h.slots q hq
    · rw [hfree q hqp, hother q hqp]
      exact h.slots q hq
  held := hheld

/-- A slub stays on its list when its free list has not become empty, and was not. -/
theorem homes_setFree (h : SlubInv s slubs xs held) {p : Ptr} {free : List Ptr}
    (hempty : free = [] ↔ xs (.free p) = []) :
    Homes slubs (homeOf s.levelIdx (Function.update xs (.free p) free))
      (Function.update xs (.free p) free) := by
  refine h.homes.stay (fun q _ => ?_) fun r hr => Function.update_of_ne ?_ _ _
  · rcases eq_or_ne q p with rfl | hqp
    · simp only [homeOf, Function.update_self, hempty]
    · rw [homeOf, homeOf, Function.update_of_ne (by simpa using hqp)]
  · rintro rfl
    exact hr.elim

/-- A slub changes lists when its free list becomes empty, or was. -/
theorem exists_move (h : SlubInv s slubs xs held) {p : Ptr} (hp : p ∈ slubs) {free : List Ptr}
    {l : ListHeads} (hrings : Family l (slubLists slubs) (SlubList.head s.base)
      (Function.update xs (.free p) free)) {r t : SlubList} (hr : homeOf s.levelIdx xs p = r)
    (ht : homeOf s.levelIdx (Function.update xs (.free p) free) p = t) (hne : t ≠ r) :
    ∃ xs', Family ((l.listDel p).listAdd p (t.head s.base)) (slubLists slubs)
        (SlubList.head s.base) xs' ∧
      (∀ q, xs' (.free q) = Function.update xs (.free p) free (.free q)) ∧
      Homes slubs (homeOf s.levelIdx xs') xs' := by
  have hnotFree : ∀ u : SlubList, u.IsHome → ∀ q, u ≠ .free q := by
    rintro u hu q rfl
    exact hu.elim
  have hrhome : r.IsHome := hr ▸ homeOf_isHome (h.level p hp) _
  have hthome : t.IsHome := ht ▸ homeOf_isHome (h.level p hp) _
  have hold : Function.update xs (.free p) free r = xs r :=
    Function.update_of_ne (hnotFree r hrhome p) _ _
  obtain ⟨a, b, hab⟩ := List.append_of_mem ((h.homes r hrhome p).2 ⟨hp, hr⟩)
  have hnotMem : p ∉ a ++ b := by
    have hnodup := (List.nodup_cons.1 (h.rings.ring r (mem_slubLists_of_isHome hrhome)).nodup).2
    rw [hab, List.nodup_middle] at hnodup
    exact (List.nodup_cons.1 hnodup).1
  have hmove := hrings.move (mem_slubLists_of_isHome hrhome) (mem_slubLists_of_isHome hthome) hne
    (hold.trans hab)
  refine ⟨_, hmove, fun q => ?_, ?_⟩
  · rw [Function.update_of_ne (hnotFree t hthome q).symm,
      Function.update_of_ne (hnotFree r hrhome q).symm]
  · -- only `p` belongs elsewhere now
    have hstay : Homes slubs (homeOf s.levelIdx xs) (Function.update xs (.free p) free) :=
      h.homes.stay (fun _ _ => rfl) fun u hu => Function.update_of_ne (hnotFree u hu p) _ _
    refine hstay.move hp hr hne (hold.trans hab) hnotMem (fun q hq hqp => ?_) ?_
    · rw [homeOf, homeOf, Function.update_of_ne (hnotFree t hthome q).symm,
        Function.update_of_ne (hnotFree r hrhome q).symm, Function.update_of_ne (by simpa using hqp)]
    · rw [homeOf, Function.update_of_ne (hnotFree t hthome p).symm,
        Function.update_of_ne (hnotFree r hrhome p).symm]
      exact ht

/-- **Taking a slot** from a slub that has free ones succeeds. -/
theorem takeSlot_spec (h : SlubInv s slubs xs held) {i : ℕ} (hi : i < slubTotalLevels)
    (havail : xs (.avail i) ≠ []) : ∃ x s' xs', SlubVmalloc.takeSlot i s = .ok (x, s') ∧
      SlubInv s' slubs xs' (x ::ₘ held) ∧ s'.levelIdx (SlubVmalloc.slubOf x) = i ∧
      s'.base = s.base ∧ s'.levelIdx = s.levelIdx ∧ s'.bridge = s.bridge := by
  obtain ⟨p, rest, hrest⟩ := List.exists_cons_of_ne_nil havail
  obtain ⟨hp, hempty, hidx⟩ := h.of_mem_avail hi (hrest ▸ List.mem_cons_self)
  obtain ⟨x, ys, hfree⟩ := List.exists_cons_of_ne_nil hempty
  have hx := h.mem_slots_of_free hp (hfree ▸ List.mem_cons_self)
  have hslub : SlubVmalloc.slubOf x = p := (slot_spec (h.aligned p hp) (h.slubLevel hp) hx).1
  have hfirst : s.links.next (SlubVmalloc.avail s.base i) = p := by
    have hnext := (h.rings.ring _ (mem_slubLists_of_isHome (r := .avail i) hi)).next_head
    rwa [hrest] at hnext
  have hring := h.rings.ring _ (free_mem_slubLists.2 hp)
  have hsome : s.links.listEmpty (p + freeListOffset) = false := by
    rw [← Bool.not_eq_true]
    exact fun he => hempty ((ListHeads.listEmpty_iff hring).1 he)
  have hsolt : s.links.next (p + freeListOffset) = x := by
    have hnext := hring.next_head
    rwa [hfree] at hnext
  have hremove : Family (s.links.remove x) (slubLists slubs) (SlubList.head s.base)
      (Function.update xs (.free p) ys) :=
    (h.rings.remove (a := []) (free_mem_slubLists.2 hp) hfree).1
  have hisFull : SlubVmalloc.slubIsFull (s.links.listDel x) p = true ↔ ys = [] := by
    have hiff := ListHeads.listEmpty_iff (hremove.ring _ (free_mem_slubLists.2 hp))
    rwa [Function.update_self] at hiff
  have hslots : (ys : Multiset Ptr) + heldIn (x ::ₘ held) p =
      (xs (.free p) : Multiset Ptr) + heldIn held p := by
    rw [← hslub, heldIn_cons_self, hslub, hfree, ← Multiset.cons_coe, Multiset.add_cons,
      Multiset.cons_add]
  have hother : ∀ q, q ≠ p → heldIn (x ::ₘ held) q = heldIn held q := fun q hq =>
    heldIn_cons_of_ne held (hslub.symm ▸ hq)
  have hheld : ∀ y ∈ x ::ₘ held, SlubVmalloc.slubOf y ∈ slubs :=
    Multiset.forall_mem_cons.2 ⟨hslub.symm ▸ hp, h.held⟩
  have hmalloc : SlubVmalloc.mallocFromSlub p s = .ok (x, { s with links := s.links.listDel x }) := by
    rw [SlubVmalloc.mallocFromSlub, assert_bind hsome, hsolt]
    rfl
  by_cases hys : ys = []
  · obtain ⟨xs', hrings, hfrees, hhomes⟩ := h.exists_move hp hremove
      (r := .avail i) (t := .full i) (by rw [homeOf, if_neg hempty, hidx])
      (by rw [homeOf, Function.update_self, if_pos hys, hidx]) (by simp)
    let links := ((s.links.listDel x).listDel p).listAdd p (SlubVmalloc.full s.base i)
    refine ⟨x, { s with links := links }, xs', ?_, ?_, hslub.symm ▸ hidx, rfl, rfl, rfl⟩
    · rw [SlubVmalloc.takeSlot, hfirst, hmalloc, ok_bind]
      simp only
      rw [if_pos (hisFull.2 hys)]
      rfl
    · refine h.setFree rfl rfl hrings hhomes (fun q hq => ?_) ?_ hother hheld
      · rw [hfrees, Function.update_of_ne (by simpa using hq)]
      · rw [hfrees, Function.update_self, hslots]
  · refine ⟨x, { s with links := s.links.listDel x }, Function.update xs (.free p) ys, ?_, ?_,
      hslub.symm ▸ hidx, rfl, rfl, rfl⟩
    · rw [SlubVmalloc.takeSlot, hfirst, hmalloc, ok_bind]
      simp only
      rw [if_neg (hisFull.not.2 hys)]
      rfl
    · refine h.setFree rfl rfl hremove (h.homes_setFree (by simp [hys, hempty])) (fun q hq => ?_) ?_
        hother hheld
      · rw [Function.update_of_ne (by simpa using hq)]
      · rw [Function.update_self, hslots]

/-- **Giving a slot back.** -/
theorem freeSlot_spec {x : Ptr} (h : SlubInv s slubs xs (x ::ₘ held)) :
    ∃ xs', SlubInv (SlubVmalloc.freeSlot x s) slubs xs' held ∧
      (SlubVmalloc.freeSlot x s).base = s.base ∧
      (SlubVmalloc.freeSlot x s).levelIdx = s.levelIdx ∧
      (SlubVmalloc.freeSlot x s).bridge = s.bridge := by
  have hx : x ∈ x ::ₘ held := Multiset.mem_cons_self x held
  have hp := h.held x hx
  have hadd := h.rings.insertFirst (free_mem_slubLists.2 hp) (h.held_notMem_ring hx)
  have hring := h.rings.ring _ (free_mem_slubLists.2 hp)
  have hisFull : SlubVmalloc.slubIsFull s.links (SlubVmalloc.slubOf x) = true ↔
      xs (.free (SlubVmalloc.slubOf x)) = [] := ListHeads.listEmpty_iff hring
  have hslots : ((x :: xs (.free (SlubVmalloc.slubOf x)) : List Ptr) : Multiset Ptr) +
      heldIn held (SlubVmalloc.slubOf x) = (xs (.free (SlubVmalloc.slubOf x)) : Multiset Ptr) +
        heldIn (x ::ₘ held) (SlubVmalloc.slubOf x) := by
    rw [heldIn_cons_self, ← Multiset.cons_coe, Multiset.add_cons, Multiset.cons_add]
  have hother : ∀ q, q ≠ SlubVmalloc.slubOf x → heldIn held q = heldIn (x ::ₘ held) q :=
    fun q hq => (heldIn_cons_of_ne held hq).symm
  have hheld : ∀ y ∈ held, SlubVmalloc.slubOf y ∈ slubs :=
    fun y hy => h.held y (Multiset.mem_cons_of_mem hy)
  by_cases hempty : xs (.free (SlubVmalloc.slubOf x)) = []
  · obtain ⟨xs', hrings, hfrees, hhomes⟩ := h.exists_move hp hadd
      (r := .full (s.levelIdx (SlubVmalloc.slubOf x)))
      (t := .avail (s.levelIdx (SlubVmalloc.slubOf x))) (by rw [homeOf, if_pos hempty])
      (by rw [homeOf, Function.update_self, if_neg (by simp)]) (by simp)
    rw [SlubVmalloc.freeSlot, if_pos (hisFull.2 hempty)]
    refine ⟨xs', h.setFree rfl rfl hrings hhomes (fun q hq => ?_) ?_ hother hheld, rfl, rfl, rfl⟩
    · rw [hfrees, Function.update_of_ne (by simpa using hq)]
    · rw [hfrees, Function.update_self, hslots]
  · rw [SlubVmalloc.freeSlot, if_neg (hisFull.not.2 hempty)]
    refine ⟨_, h.setFree rfl rfl hadd (h.homes_setFree (by simp [hempty])) (fun q hq => ?_) ?_
      hother hheld, rfl, rfl, rfl⟩
    · rw [Function.update_of_ne (by simpa using hq)]
    · rw [Function.update_self, hslots]

end SlubInv

/-! ### Over a bridge -/

/-- The memory of the heads of the lists. -/
def headsBlock (base : Ptr) : MemBlock := ⟨base, 8 * (2 * slubTotalLevels)⟩

/-- The blocks that slubs are in. -/
def slubBlocks (slubs : Finset Ptr) : Multiset MemBlock :=
  slubs.val.map fun p => ⟨p, slubBlockSize⟩

theorem mem_slubBlocks {slubs : Finset Ptr} {b : MemBlock} :
    b ∈ slubBlocks slubs ↔ b.start ∈ slubs ∧ b.size = slubBlockSize := by
  rw [slubBlocks, Multiset.mem_map]
  constructor
  · rintro ⟨p, hp, rfl⟩
    exact ⟨hp, rfl⟩
  · rintro ⟨hb, hsize⟩
    exact ⟨b.start, hb, MemBlock.ext rfl hsize.symm⟩

theorem slubBlocks_insert {slubs : Finset Ptr} {p : Ptr} (hp : p ∉ slubs) :
    slubBlocks (insert p slubs) = ⟨p, slubBlockSize⟩ ::ₘ slubBlocks slubs := by
  rw [slubBlocks, Finset.insert_val_of_notMem hp, Multiset.map_cons, slubBlocks]

/-- The memory of a `struct list_head`. -/
def nodeMem (node : Ptr) : MemBlock := ⟨node, 8⟩

/-- The heads of the lists are where they are reserved. -/
theorem head_covered {base : Ptr} (hfits : base.toNat + (headsBlock base).size ≤ 2 ^ 32)
    {r : SlubList} (hr : r.IsHome) {a : ℕ} (ha : (nodeMem (r.head base)).Covers a) :
    (headsBlock base).Covers a := by
  have hall : ∀ k, k < 2 * slubTotalLevels →
      (nodeMem (base + BitVec.ofNat 32 (8 * k))).Covers a → (headsBlock base).Covers a := by
    intro k hk hcov
    simp only [nodeMem, MemBlock.Covers, headsBlock, slubTotalLevels, maxSlubLevel,
      minSlubLevel] at hfits hk hcov ⊢
    rw [BitVec.toNat_add, BitVec.toNat_ofNat] at hcov
    omega
  cases r with
  | avail i =>
      have hi : i < slubTotalLevels := hr
      exact hall i (by omega) ha
  | full i =>
      have hi : i < slubTotalLevels := hr
      exact hall (slubTotalLevels + i) (by omega) ha
  | free slub => exact hr.elim

/-- The allocator over its bridge: besides the slubs the blocks `others` are out. -/
structure SlubHeap (Owns : σ → Multiset MemBlock → Prop) (s : SlubVmalloc σ) (slubs : Finset Ptr)
    (xs : SlubList → List Ptr) (held : Multiset Ptr) (others : Multiset MemBlock) : Prop where
  inv : SlubInv s slubs xs held
  fits : s.base.toNat + (headsBlock s.base).size ≤ 2 ^ 32
  out : BlocksOut Owns slubBlockSize (headsBlock s.base) s.bridge (slubBlocks slubs + others)

/-- The check that tells blocks of the bridge from slots. -/
theorem isAligned_slubBlockSize {x : Ptr} :
    isAligned 64 x.toNat slubBlockSize = true ↔ slubBlockSize ∣ x.toNat :=
  isAligned_iff (k := 12) (by decide)

namespace SlubHeap

variable {B : PvBridge σ} {Owns : σ → Multiset MemBlock → Prop} {s : SlubVmalloc σ}
  {slubs : Finset Ptr} {xs : SlubList → List Ptr} {held : Multiset Ptr} {others : Multiset MemBlock}

/-- The bridge may change while the lists do not. -/
theorem setBridge (h : SlubHeap Owns s slubs xs held others) {bridge : σ}
    {others' : Multiset MemBlock} (hout : BlocksOut Owns slubBlockSize (headsBlock s.base) bridge
      (slubBlocks slubs + others')) :
    SlubHeap Owns { s with bridge := bridge } slubs xs held others' :=
  ⟨h.inv.congr rfl (fun _ _ _ _ => ⟨rfl, rfl⟩) fun _ _ => rfl, h.fits, hout⟩

/-- A page that the bridge hands out is no slub, and no head of a list is in it. -/
theorem fresh_page (h : SlubHeap Owns s slubs xs held others) {bridge : σ} {p : Ptr}
    (hout : BlocksOut Owns slubBlockSize (headsBlock s.base) bridge
      (⟨p, slubBlockSize⟩ ::ₘ (slubBlocks slubs + others))) :
    slubBlockSize ∣ p.toNat ∧ p ∉ slubs ∧
      ∀ r : SlubList, r.IsHome → SlubVmalloc.slubOf (r.head s.base) ≠ p := by
  have haligned : slubBlockSize ∣ p.toNat := hout.aligned _ (Multiset.mem_cons_self _ _)
  have hapart := hout.apart_cons
  refine ⟨haligned, fun hp => ?_, fun r hr heq => ?_⟩
  · have hmem : (⟨p, slubBlockSize⟩ : MemBlock) ∈ slubBlocks slubs := mem_slubBlocks.2 ⟨hp, rfl⟩
    exact MemBlock.not_apart_self (by decide : 0 < slubBlockSize)
      (hapart _ (Multiset.mem_cons_of_mem (Multiset.mem_add.2 (Or.inl hmem))))
  · exact hapart _ (Multiset.mem_cons_self _ _) _ ((slubOf_eq_iff haligned).1 heq)
      (head_covered h.fits hr ⟨le_rfl, Nat.lt_add_of_pos_right (Nat.succ_pos 7)⟩)

/-- **A slub with free slots is found, or made, unless there is no memory.** -/
theorem prepareSlub_spec (h : SlubHeap Owns s slubs xs held others)
    (C : BridgeContract B slubBlockSize (headsBlock s.base) Owns) {level : ℕ}
    (hlevel : SlubLevel level) : ∃ found s', SlubVmalloc.prepareSlub B level s = .ok (found, s') ∧
      s'.base = s.base ∧
      ((found = false ∧ s'.links = s.links ∧ s'.levelIdx = s.levelIdx ∧
          SlubHeap Owns s' slubs xs held others) ∨
        (found = true ∧ ∃ slubs' xs', slubs ⊆ slubs' ∧ SlubHeap Owns s' slubs' xs' held others ∧
          xs' (.avail (slubLevelIndex level)) ≠ [] ∧
          ∀ q ∈ slubs, s'.levelIdx q = s.levelIdx q)) := by
  have hring := h.inv.rings.ring _
    (mem_slubLists_of_isHome (r := .avail (slubLevelIndex level)) (SlubInv.slubLevelIndex_lt hlevel))
  have hempty : s.links.listEmpty (SlubVmalloc.avail s.base (slubLevelIndex level)) = true ↔
      xs (.avail (slubLevelIndex level)) = [] := ListHeads.listEmpty_iff hring
  by_cases hnil : xs (.avail (slubLevelIndex level)) = []
  · have hpos : 0 < slubBlockSize := by decide
    obtain ⟨p, bridge, hrun, hres⟩ := h.out.alignedMalloc C hpos (by decide)
    rw [SlubVmalloc.prepareSlub, if_pos (hempty.2 hnil), SlubVmalloc.allocSlub,
      assert_bind hlevel.1, assert_bind hlevel.2, hrun, ok_bind]
    rcases hres with ⟨rfl, hout⟩ | ⟨hp, hout⟩
    · exact ⟨false, { s with bridge := bridge }, rfl, rfl, Or.inl ⟨rfl, rfl, rfl, h.setBridge hout⟩⟩
    · obtain ⟨haligned, hnew, hheads⟩ := h.fresh_page hout
      let filled := SlubVmalloc.fillFreeList (s.links.listInit (p + freeListOffset)) p level
      let s' : SlubVmalloc σ := { s with
        bridge := bridge
        levelIdx := Function.update s.levelIdx p (slubLevelIndex level)
        links := filled.listAdd p (SlubVmalloc.avail s.base (slubLevelIndex level)) }
      have hadd : SlubInv s' (insert p slubs) (SlubInv.withSlub xs p level) held :=
        h.inv.addSlub haligned hnew hheads hlevel rfl rfl rfl
      refine ⟨true, s', ?_, rfl, Or.inr ⟨rfl, _, _, Finset.subset_insert p slubs,
        ⟨hadd, h.fits, ?_⟩, ?_, ?_⟩⟩
      · simp only
        rw [if_neg hp, pure_bind, if_neg hp]
        rfl
      · rw [slubBlocks_insert hnew, Multiset.cons_add]
        exact hout
      · rw [SlubInv.withSlub, Function.update_self]
        exact List.cons_ne_nil _ _
      · intro q hq
        have hqp : q ≠ p := by
          rintro rfl
          exact hnew hq
        exact Function.update_of_ne hqp _ _
  · exact ⟨true, s, by rw [SlubVmalloc.prepareSlub, if_neg (hempty.not.2 hnil)]; rfl, rfl,
      Or.inr ⟨rfl, slubs, xs, subset_rfl, h, hnil, fun _ _ => rfl⟩⟩

/-- **`malloc` never faults.**  Without memory it changes nothing that clients or lists see; large
requests are blocks of the bridge; the others are slots that are large enough. -/
theorem malloc_spec (h : SlubHeap Owns s slubs xs held others)
    (C : BridgeContract B slubBlockSize (headsBlock s.base) Owns) {size : ℕ}
    (hsize : size < 2 ^ 32) : ∃ p s', SlubVmalloc.malloc B size s = .ok (p, s') ∧ s'.base = s.base ∧
      ((p = 0 ∧ s'.links = s.links ∧ s'.levelIdx = s.levelIdx ∧
          SlubHeap Owns s' slubs xs held others) ∨
        (p ≠ 0 ∧ 2 ^ maxSlubLevel < size ∧ slubBlockSize ∣ p.toNat ∧ s'.levelIdx = s.levelIdx ∧
          SlubHeap Owns s' slubs xs held (⟨p, size⟩ ::ₘ others)) ∨
        (∃ slubs' xs', slubs ⊆ slubs' ∧ SlubHeap Owns s' slubs' xs' (p ::ₘ held) others ∧
          (∀ q ∈ slubs, s'.levelIdx q = s.levelIdx q) ∧
          size ≤ 2 ^ s'.level (SlubVmalloc.slubOf p))) := by
  obtain ⟨level, hrun, hmin, hfits, hbig⟩ := slubLevel_spec hsize
  rw [SlubVmalloc.malloc, hrun, ok_bind]
  by_cases hmax : level > maxSlubLevel
  · have hpos : 0 < size := (Nat.two_pow_pos maxSlubLevel).trans (hbig hmax)
    obtain ⟨p, bridge, halloc, ⟨rfl, hout⟩ | ⟨hp, hout⟩⟩ := h.out.alignedMalloc C hpos hsize
    · refine ⟨0, { s with bridge := bridge }, ?_, rfl, Or.inl ⟨rfl, rfl, rfl, h.setBridge hout⟩⟩
      rw [if_pos hmax, halloc]
      rfl
    · refine ⟨p, { s with bridge := bridge }, ?_, rfl,
        Or.inr (Or.inl ⟨hp, hbig hmax, hout.aligned _ (Multiset.mem_cons_self _ _), rfl,
          h.setBridge ?_⟩)⟩
      · rw [if_pos hmax, halloc]
        rfl
      · rwa [Multiset.add_cons]
  · have hlevel : SlubLevel level := ⟨hmin, not_lt.1 hmax⟩
    obtain ⟨found, s₁, hprepare, hbase, hres⟩ := h.prepareSlub_spec C hlevel
    rw [if_neg hmax, hprepare, ok_bind]
    rcases hres with ⟨rfl, hlinks, hidx, h₁⟩ | ⟨rfl, slubs', xs₁, hsub, h₁, havail, hidx⟩
    · exact ⟨0, s₁, rfl, hbase, Or.inl ⟨rfl, hlinks, hidx, h₁⟩⟩
    · obtain ⟨x, s', xs', htake, hinv, hlevelIdx, hbase', hidx', hbridge⟩ :=
        h₁.inv.takeSlot_spec (SlubInv.slubLevelIndex_lt hlevel) havail
      refine ⟨x, s', ?_, hbase'.trans hbase, Or.inr (Or.inr ⟨slubs', xs', hsub, ⟨hinv, ?_, ?_⟩,
        fun q hq => ?_, ?_⟩)⟩
      · simp only [Bool.true_eq_false, if_false]
        exact htake
      · rw [hbase']
        exact h₁.fits
      · rw [hbase', hbridge]
        exact h₁.out
      · rw [hidx', hidx q hq]
      · rwa [SlubVmalloc.level, hlevelIdx, slubLevelIndex, Nat.sub_add_cancel hmin]

/-- **`free` of a slot.** -/
theorem free_slot {x : Ptr} (h : SlubHeap Owns s slubs xs (x ::ₘ held) others) (B : PvBridge σ) :
    ∃ s' xs', SlubVmalloc.free B x s = .ok s' ∧ s'.base = s.base ∧ s'.levelIdx = s.levelIdx ∧
      SlubHeap Owns s' slubs xs' held others := by
  have hx : x ∈ x ::ₘ held := Multiset.mem_cons_self x held
  have hp := h.inv.held x hx
  obtain ⟨-, hodd, -, -⟩ := slot_spec (h.inv.aligned _ hp) (h.inv.slubLevel hp)
    (h.inv.mem_slots_of_held hx)
  obtain ⟨xs', hinv, hbase, hidx, hbridge⟩ := h.inv.freeSlot_spec
  refine ⟨SlubVmalloc.freeSlot x s, xs', ?_, hbase, hidx, hinv, ?_, ?_⟩
  · rw [SlubVmalloc.free, if_neg (mt isAligned_slubBlockSize.1 hodd)]
    rfl
  · rw [hbase]
    exact h.fits
  · rw [hbase, hbridge]
    exact h.out

/-- **`free` of a block of the bridge.** -/
theorem free_block {b : MemBlock} (h : SlubHeap Owns s slubs xs held (b ::ₘ others))
    (C : BridgeContract B slubBlockSize (headsBlock s.base) Owns) :
    ∃ bridge, B.free b.start s.bridge = .ok bridge ∧
      SlubVmalloc.free B b.start s = .ok { s with bridge := bridge } ∧
      SlubHeap Owns { s with bridge := bridge } slubs xs held others := by
  have hout := h.out
  rw [Multiset.add_cons] at hout
  obtain ⟨bridge, hrun, hout'⟩ := hout.free C
  refine ⟨bridge, hrun, ?_, h.setBridge hout'⟩
  have hdvd := hout.aligned b (Multiset.mem_cons_self _ _)
  rw [SlubVmalloc.free, if_pos (isAligned_slubBlockSize.2 hdvd), hrun]
  rfl

/-- `free(NULL)` does nothing. -/
theorem free_null (C : BridgeContract B slubBlockSize (headsBlock s.base) Owns) :
    SlubVmalloc.free B 0 s = .ok s := by
  rw [SlubVmalloc.free, if_pos (isAligned_slubBlockSize.2 (dvd_zero _)), C.freeNull]
  rfl

end SlubHeap

/-! ### The constructor -/

/-- The heads of the lists of the allocator are apart. -/
theorem head_inj {base : Ptr} {r r' : SlubList} (hr : r.IsHome) (hr' : r'.IsHome)
    (h : r.head base = r'.head base) : r = r' := by
  have hadd : ∀ j k, j < 2 * slubTotalLevels → k < 2 * slubTotalLevels →
      base + BitVec.ofNat 32 (8 * j) = base + BitVec.ofNat 32 (8 * k) → j = k := by
    intro j k hj hk hjk
    have hval := congrArg BitVec.toNat ((BitVec.add_right_inj base).1 hjk)
    simp only [slubTotalLevels, maxSlubLevel, minSlubLevel] at hj hk
    rw [BitVec.toNat_ofNat, BitVec.toNat_ofNat] at hval
    omega
  cases r with
  | avail i =>
      have hi : i < slubTotalLevels := hr
      cases r' with
      | avail j =>
          have hj : j < slubTotalLevels := hr'
          rw [hadd i j (by omega) (by omega) h]
      | full j =>
          have hj : j < slubTotalLevels := hr'
          have := hadd i (slubTotalLevels + j) (by omega) (by omega) h
          omega
      | free slub => exact hr'.elim
  | full i =>
      have hi : i < slubTotalLevels := hr
      cases r' with
      | avail j =>
          have hj : j < slubTotalLevels := hr'
          have := hadd (slubTotalLevels + i) j (by omega) (by omega) h
          omega
      | full j =>
          have hj : j < slubTotalLevels := hr'
          rw [Nat.add_left_cancel (hadd (slubTotalLevels + i) (slubTotalLevels + j) (by omega)
            (by omega) h)]
      | free slub => exact hr'.elim
  | free slub => exact hr.elim

/-- The lists of the first `n` levels. -/
def listsBelow (n : ℕ) : Set SlubList := {r | r.IsHome ∧ (∃ i < n, r = .avail i ∨ r = .full i)}

theorem listsBelow_succ {n : ℕ} (hn : n < slubTotalLevels) :
    listsBelow (n + 1) = insert (.full n) (insert (.avail n) (listsBelow n)) := by
  ext r
  simp only [listsBelow, Set.mem_insert_iff, Set.mem_ofPred_eq]
  constructor
  · rintro ⟨hr, i, hi, rfl | rfl⟩
    · rcases Nat.lt_succ_iff_lt_or_eq.1 hi with hi | rfl
      · exact Or.inr (Or.inr ⟨hr, i, hi, Or.inl rfl⟩)
      · exact Or.inr (Or.inl rfl)
    · rcases Nat.lt_succ_iff_lt_or_eq.1 hi with hi | rfl
      · exact Or.inr (Or.inr ⟨hr, i, hi, Or.inr rfl⟩)
      · exact Or.inl rfl
  · rintro (rfl | rfl | ⟨hr, i, hi, h⟩)
    · exact ⟨hn, n, Nat.lt_succ_self n, Or.inr rfl⟩
    · exact ⟨hn, n, Nat.lt_succ_self n, Or.inl rfl⟩
    · exact ⟨hr, i, Nat.lt_succ_of_lt hi, h⟩

/-- The loop of the constructor makes the lists empty. -/
theorem rings_ctor (base : Ptr) (links : ListHeads) : ∀ n, n ≤ slubTotalLevels →
    Family ((List.range n).foldl (fun (links : ListHeads) i =>
        (links.listInit (SlubVmalloc.avail base i)).listInit (SlubVmalloc.full base i)) links)
      (listsBelow n) (SlubList.head base) fun _ => [] := by
  intro n
  induction n with
  | zero =>
      intro _
      have hnone : listsBelow 0 = ∅ := by
        ext r
        simp [listsBelow]
      rw [hnone]
      exact Family.empty _ _ _
  | succ n ih =>
      intro hn
      have hnew : ∀ {S : Set SlubList}, (∀ r ∈ S, r.IsHome) → ∀ {t : SlubList}, t.IsHome → t ∉ S →
          ∀ r ∈ S, t.head base ∉ [r.head base] := by
        intro S hS t ht htS r hr hmem
        exact htS (head_inj ht (hS r hr) (List.mem_singleton.1 hmem) ▸ hr)
      have hold : ∀ r ∈ listsBelow n, r.IsHome := fun r hr => hr.1
      have havail : SlubList.avail n ∉ listsBelow n := by
        simp [listsBelow]
      have hfull : SlubList.full n ∉ insert (.avail n) (listsBelow n) := by
        simp [listsBelow]
      have hempty : ∀ r : SlubList, Function.update (fun _ => ([] : List Ptr)) r [] = fun _ => [] :=
        fun r => Function.update_eq_self r _
      have hfirst := (ih (Nat.le_of_succ_le hn)).single havail (hnew hold hn havail)
      rw [hempty] at hfirst
      have hold' : ∀ r ∈ insert (SlubList.avail n) (listsBelow n), r.IsHome := by
        rintro r (rfl | hr)
        · exact hn
        · exact hold r hr
      have hsecond := hfirst.single hfull (hnew hold' hn hfull)
      rw [hempty] at hsecond
      rw [List.range_succ, List.foldl_append, listsBelow_succ hn]
      exact hsecond

/-- **The constructor establishes the invariant.** -/
theorem slubHeap_ctor {Owns : σ → Multiset MemBlock → Prop} {base : Ptr}
    (hfits : base.toNat + (headsBlock base).size ≤ 2 ^ 32) (links : ListHeads) (levelIdx : Ptr → ℕ)
    {bridge : σ} {others : Multiset MemBlock}
    (hout : BlocksOut Owns slubBlockSize (headsBlock base) bridge others) :
    SlubHeap Owns (SlubVmalloc.ctor base links levelIdx bridge) ∅ (fun _ => []) 0 others where
  inv := by
    have hlists : slubLists ∅ = listsBelow slubTotalLevels := by
      ext r
      simp only [slubLists, listsBelow, Set.mem_ofPred_eq]
      cases r with
      | avail i => simp [SlubList.IsHome]
      | full i => simp [SlubList.IsHome]
      | free slub => simp [SlubList.IsHome]
    constructor
    · rw [hlists]
      exact rings_ctor base links slubTotalLevels le_rfl
    · simp
    · simp
    · simp
    · intro r hr p
      simp
    · simp
    · simp
  fits := hfits
  out := by
    rw [show slubBlocks ∅ = 0 by rfl, zero_add]
    exact hout

end Aim
