/-
**The slub allocator.**

`slub_vmalloc` serves small requests from *slubs*: pages that it takes from a page bridge and cuts
into slots of one power-of-two size.  A slub starts with a header; its free slots are linked through
the slots themselves.  For each size there is a list of slubs with free slots and a list of full
ones.  Requests above 1 KB go to the bridge; their pointers are multiples of the page size, those of
slots never are, and `free` tells them apart by that.

Main definitions:

* `Aim.SlubVmalloc` — the allocator, with the memory that holds its lists and headers;
* `Aim.SlubVmalloc.ctor`, `Aim.SlubVmalloc.malloc`, `Aim.SlubVmalloc.free` — `slub.c`;
* `Aim.slots` — the slots of a slub.

Main results:

* `Aim.toNat_solt` — **slots lie behind the header and inside the page**;
* `Aim.slubOf_solt` — slots are never page aligned, and their slub is found by rounding down;
* `Aim.slot_apart` — slots do not overlap;
* `Aim.slubLevel_spec` — the level of a request has slots that are large enough.
-/

import AimKernel.PvBridge

set_option relaxedAutoImplicit false
set_option autoImplicit false

namespace Aim

/-! ### Constants -/

/-- `SLUB_BLOCK_SIZE`. -/
def slubBlockSize : ℕ := 4096

/-- `MIN_SLUB_LEVEL`. -/
def minSlubLevel : ℕ := 4

/-- `MAX_SLUB_LEVEL`. -/
def maxSlubLevel : ℕ := 10

/-- `SLUB_LEVEL_INDEX(x)`. -/
def slubLevelIndex (x : ℕ) : ℕ := x - minSlubLevel

/-- `SLUB_TOTAL_LEVELS`. -/
def slubTotalLevels : ℕ := maxSlubLevel - minSlubLevel + 1

/-- `sizeof(struct slub_header)`: two list heads and an `int`. -/
def sizeofSlubHeader : ℕ := 20

/-- `CALC_MAXSOLTS(level)`. -/
def calcMaxsolts (level : ℕ) : ℕ := (slubBlockSize - sizeofSlubHeader) / 2 ^ level

/-- `SOLTS_OFFSET(level)`. -/
def soltsOffset (level : ℕ) : ℕ := alignAbove 32 sizeofSlubHeader (2 ^ level)

/-- The offset of `free_list` in `struct slub_header`; `node` is at offset 0. -/
def freeListOffset : Ptr := 8

/-- `solts_base + solt_size * i`. -/
def solt (slub : Ptr) (level i : ℕ) : Ptr :=
  slub + BitVec.ofNat 32 (soltsOffset level) + BitVec.ofNat 32 (2 ^ level * i)

/-- The slots of a slub, in the order in which `alloc_slub` visits them. -/
def slots (slub : Ptr) (level : ℕ) : List Ptr := (List.range (calcMaxsolts level)).map (solt slub level)

/-! ### The allocator -/

/-- `struct slub_vmalloc`, with the memory that its lists and the headers of its slubs are in. -/
structure SlubVmalloc (σ : Type) where
  /-- `&M(slub_avail[0])`; `slub_full` follows `slub_avail`. -/
  base : Ptr
  links : ListHeads
  /-- The `level_idx` field of a `struct slub_header`. -/
  levelIdx : Ptr → ℕ
  /-- The state of the bridge. -/
  bridge : σ

namespace SlubVmalloc

variable {σ : Type} (B : PvBridge σ)

/-- `&M(slub_avail[i])`. -/
def avail (base : Ptr) (i : ℕ) : Ptr := base + BitVec.ofNat 32 (8 * i)

/-- `&M(slub_full[i])`. -/
def full (base : Ptr) (i : ℕ) : Ptr := base + BitVec.ofNat 32 (8 * (slubTotalLevels + i))

/-- `slub_is_full(slub)`. -/
def slubIsFull (links : ListHeads) (slub : Ptr) : Bool := links.listEmpty (slub + freeListOffset)

/-- The loop of `alloc_slub` over the slots. -/
def fillFreeList (links : ListHeads) (slub : Ptr) (level : ℕ) : ListHeads :=
  (slots slub level).foldl (fun links solt => links.listAdd solt (slub + freeListOffset)) links

/-- `alloc_slub(level)`; `NULL` is 0. -/
def allocSlub (level : ℕ) (s : SlubVmalloc σ) : Outcome (Ptr × SlubVmalloc σ) := do
  assert (level ≥ minSlubLevel) "level >= MIN_SLUB_LEVEL"
  assert (level ≤ maxSlubLevel) "level <= MAX_SLUB_LEVEL"
  let (slub, bridge) ← B.alignedMalloc slubBlockSize slubBlockSize s.bridge
  if slub = 0 then
    return (0, { s with bridge := bridge })
  else
    return (slub, { s with
      bridge := bridge
      levelIdx := Function.update s.levelIdx slub (slubLevelIndex level)
      links := fillFreeList (s.links.listInit (slub + freeListOffset)) slub level })

/-- `malloc_from_slub(slub)`. -/
def mallocFromSlub (slub : Ptr) (s : SlubVmalloc σ) : Outcome (Ptr × SlubVmalloc σ) := do
  assert (s.links.listEmpty (slub + freeListOffset) = false) "!list_empty(&slub->free_list)"
  let solt := s.links.next (slub + freeListOffset)
  return (solt, { s with links := s.links.listDel solt })

/-- `while ((1ULL << level) < size) level++;`. -/
def slubLevelFrom (size : ℕ) : ℕ → ℕ → Outcome ℕ
  | 0, _ => .error .hang
  | fuel + 1, level => if 2 ^ level < size then slubLevelFrom size fuel (level + 1) else .ok level

/-- The level of a request; a `size_t` is below `2 ^ 32`. -/
def slubLevel (size : ℕ) : Outcome ℕ := slubLevelFrom size 32 minSlubLevel

/-- The slub that a request of the given level is served from, if there is memory for it: one with
free slots, or a new one. -/
def prepareSlub (level : ℕ) (s : SlubVmalloc σ) : Outcome (Bool × SlubVmalloc σ) :=
  if s.links.listEmpty (avail s.base (slubLevelIndex level)) then do
    let (newSlub, s) ← allocSlub B level s
    if newSlub = 0 then
      return (false, s)
    else
      let head := avail s.base (slubLevelIndex level)
      return (true, { s with links := s.links.listAdd newSlub head })
  else
    return (true, s)

/-- A slot of the first slub of a level; a slub that has become full changes lists. -/
def takeSlot (levelIdx : ℕ) (s : SlubVmalloc σ) : Outcome (Ptr × SlubVmalloc σ) := do
  let slub := s.links.next (avail s.base levelIdx)
  let (ret, s) ← mallocFromSlub slub s
  if slubIsFull s.links slub then
    return (ret, { s with links := (s.links.listDel slub).listAdd slub (full s.base levelIdx) })
  else
    return (ret, s)

/-- `slub_vmalloc__malloc(size)`. -/
def malloc (size : ℕ) (s : SlubVmalloc σ) : Outcome (Ptr × SlubVmalloc σ) := do
  let level ← slubLevel size
  if level > maxSlubLevel then
    let (p, bridge) ← B.alignedMalloc size slubBlockSize s.bridge
    return (p, { s with bridge := bridge })
  else
    let (found, s) ← prepareSlub B level s
    if found = false then
      return (0, s)
    else
      takeSlot (slubLevelIndex level) s

/-- The slub that a slot is in. -/
def slubOf (ptr : Ptr) : Ptr := BitVec.ofNat 32 (alignBelow 64 ptr.toNat slubBlockSize)

/-- A slot goes back to its slub; a slub that was full changes lists. -/
def freeSlot (ptr : Ptr) (s : SlubVmalloc σ) : SlubVmalloc σ :=
  let links := s.links.listAdd ptr (slubOf ptr + freeListOffset)
  if slubIsFull s.links (slubOf ptr) then
    let head := avail s.base (s.levelIdx (slubOf ptr))
    { s with links := (links.listDel (slubOf ptr)).listAdd (slubOf ptr) head }
  else
    { s with links := links }

/-- `slub_vmalloc__free(ptr)`. -/
def free (ptr : Ptr) (s : SlubVmalloc σ) : Outcome (SlubVmalloc σ) :=
  if isAligned 64 ptr.toNat slubBlockSize then do
    let bridge ← B.free ptr s.bridge
    return { s with bridge := bridge }
  else
    return freeSlot ptr s

/-- `slub_vmalloc__ctor`. -/
def ctor (base : Ptr) (links : ListHeads) (levelIdx : Ptr → ℕ) (bridge : σ) : SlubVmalloc σ where
  base := base
  links := (List.range slubTotalLevels).foldl
    (fun links i => (links.listInit (avail base i)).listInit (full base i)) links
  levelIdx := levelIdx
  bridge := bridge

end SlubVmalloc

/-! ### Slots -/

/-- The levels of slubs. -/
def SlubLevel (level : ℕ) : Prop := minSlubLevel ≤ level ∧ level ≤ maxSlubLevel

/-- The slots fill the page behind the header. -/
theorem slots_fit {level : ℕ} (h : SlubLevel level) : sizeofSlubHeader < soltsOffset level ∧
    soltsOffset level + 2 ^ level * calcMaxsolts level = slubBlockSize ∧
    0 < calcMaxsolts level := by
  have hall : ∀ level ∈ List.range' minSlubLevel slubTotalLevels,
      sizeofSlubHeader < soltsOffset level ∧
        soltsOffset level + 2 ^ level * calcMaxsolts level = slubBlockSize ∧
        0 < calcMaxsolts level := by decide
  refine hall level (List.mem_range'_1.2 ⟨h.1, ?_⟩)
  have := h.2
  simp only [minSlubLevel, slubTotalLevels, maxSlubLevel] at this ⊢
  omega

/-- **Slots lie behind the header and inside the page.** -/
theorem toNat_solt {slub : Ptr} (haligned : slubBlockSize ∣ slub.toNat) {level i : ℕ}
    (h : SlubLevel level) (hi : i < calcMaxsolts level) :
    (solt slub level i).toNat = slub.toNat + soltsOffset level + 2 ^ level * i ∧
      soltsOffset level + 2 ^ level * i + 2 ^ level ≤ slubBlockSize := by
  obtain ⟨-, hfit, -⟩ := slots_fit h
  have hstep : 2 ^ level * i + 2 ^ level ≤ 2 ^ level * calcMaxsolts level := by
    calc 2 ^ level * i + 2 ^ level = 2 ^ level * (i + 1) := by rw [Nat.mul_add, Nat.mul_one]
      _ ≤ 2 ^ level * calcMaxsolts level := Nat.mul_le_mul_left _ hi
  have hslub := slub.isLt
  simp only [slubBlockSize] at haligned hfit ⊢
  refine ⟨?_, by omega⟩
  rw [solt, BitVec.toNat_add, BitVec.toNat_add, BitVec.toNat_ofNat, BitVec.toNat_ofNat]
  have hpos := Nat.two_pow_pos level
  omega

/-- A slot is never page aligned, and its slub is found by rounding down. -/
theorem slubOf_solt {slub : Ptr} (haligned : slubBlockSize ∣ slub.toNat) {level i : ℕ}
    (h : SlubLevel level) (hi : i < calcMaxsolts level) :
    SlubVmalloc.slubOf (solt slub level i) = slub ∧
      ¬ slubBlockSize ∣ (solt slub level i).toNat := by
  obtain ⟨hheader, -, -⟩ := slots_fit h
  obtain ⟨hsolt, hend⟩ := toNat_solt haligned h hi
  have hpos := Nat.two_pow_pos level
  have hlt := (solt slub level i).isLt
  have hbelow : alignBelow 64 (solt slub level i).toNat (2 ^ 12) =
      (solt slub level i).toNat / 2 ^ 12 * 2 ^ 12 :=
    alignBelow_eq (by decide) (by omega)
  simp only [slubBlockSize, sizeofSlubHeader] at haligned hheader hend ⊢
  refine ⟨BitVec.eq_of_toNat_eq ?_, by omega⟩
  rw [SlubVmalloc.slubOf, slubBlockSize, show 4096 = 2 ^ 12 by rfl, hbelow, BitVec.toNat_ofNat]
  omega

/-- **Slots do not overlap.** -/
theorem slot_apart {slub : Ptr} (haligned : slubBlockSize ∣ slub.toNat) {level i j : ℕ}
    (h : SlubLevel level) (hi : i < calcMaxsolts level) (hj : j < calcMaxsolts level)
    (hij : i < j) : (solt slub level i).toNat + 2 ^ level ≤ (solt slub level j).toNat := by
  obtain ⟨hsi, -⟩ := toNat_solt haligned h hi
  obtain ⟨hsj, -⟩ := toNat_solt haligned h hj
  have hstep : 2 ^ level * i + 2 ^ level ≤ 2 ^ level * j := by
    calc 2 ^ level * i + 2 ^ level = 2 ^ level * (i + 1) := by rw [Nat.mul_add, Nat.mul_one]
      _ ≤ 2 ^ level * j := Nat.mul_le_mul_left _ hij
  omega

theorem mem_slots {slub p : Ptr} {level : ℕ} :
    p ∈ slots slub level ↔ ∃ i < calcMaxsolts level, solt slub level i = p := by
  simp [slots]

theorem nodup_slots {slub : Ptr} (haligned : slubBlockSize ∣ slub.toNat) {level : ℕ}
    (h : SlubLevel level) : (slots slub level).Nodup := by
  refine List.Nodup.map_on (fun i hi j hj hij => ?_) List.nodup_range
  rw [List.mem_range] at hi hj
  have hpos := Nat.two_pow_pos level
  rcases Nat.lt_trichotomy i j with hlt | heq | hgt
  · have := slot_apart haligned h hi hj hlt
    rw [hij] at this
    omega
  · exact heq
  · have := slot_apart haligned h hj hi hgt
    rw [hij] at this
    omega

/-! ### Levels -/

theorem slubLevelFrom_spec {size : ℕ} : ∀ fuel level, size ≤ 2 ^ (level + fuel) →
    ∃ level', SlubVmalloc.slubLevelFrom size (fuel + 1) level = .ok level' ∧ level ≤ level' ∧
      size ≤ 2 ^ level' ∧ ∀ j, level ≤ j → j < level' → 2 ^ j < size := by
  intro fuel
  induction fuel with
  | zero =>
      intro level hsize
      rw [Nat.add_zero] at hsize
      refine ⟨level, ?_, le_rfl, hsize, fun j hj hlt => absurd hlt (by omega)⟩
      rw [SlubVmalloc.slubLevelFrom, if_neg (not_lt.2 hsize)]
  | succ fuel ih =>
      intro level hsize
      rw [SlubVmalloc.slubLevelFrom]
      by_cases hlt : 2 ^ level < size
      · obtain ⟨level', hrun, hle, hfits, hmin⟩ :=
          ih (level + 1) (by rwa [Nat.add_assoc, Nat.add_comm 1])
        refine ⟨level', by rw [if_pos hlt, hrun], by omega, hfits, fun j hj hjlt => ?_⟩
        rcases Nat.eq_or_lt_of_le hj with rfl | hj
        · exact hlt
        · exact hmin j hj hjlt
      · refine ⟨level, by rw [if_neg hlt], le_rfl, not_lt.1 hlt, fun j hj hjlt => ?_⟩
        omega

/-- The level of a request is the least one, from the smallest on, with slots that are large
enough. -/
theorem slubLevel_spec {size : ℕ} (hsize : size < 2 ^ 32) :
    ∃ level, SlubVmalloc.slubLevel size = .ok level ∧ minSlubLevel ≤ level ∧ size ≤ 2 ^ level ∧
      (maxSlubLevel < level → 2 ^ maxSlubLevel < size) := by
  obtain ⟨level, hrun, hle, hfits, hmin⟩ := slubLevelFrom_spec 31 minSlubLevel
    (hsize.le.trans (Nat.pow_le_pow_right (by decide) (by decide)))
  exact ⟨level, hrun, hle, hfits, fun h => hmin maxSlubLevel (by decide) h⟩

end Aim
