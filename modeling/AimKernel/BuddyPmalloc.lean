/-
**The buddy physical page allocator.**

`kern/mm/pmm/buddy.c` hands out blocks of `2 ^ order` physical pages.  Each page of the pool has a
`struct buddy_page`; only the record of the first page of a block is kept up to date, the others
hold whatever their last use left in them.  The free blocks of each order are linked through the
records of their first pages, most recently freed first.

A page is named by its index in `pages[]`, and a linked list is the list of its page indices.
`list_del` takes an entry out of whichever list it is on.  The table is only `page_count` entries
long; the model gives the entries beyond it the all-zero record.

Main definitions:

* `Aim.BuddyPage`, `Aim.BuddyPmalloc` — `struct buddy_page` and `struct buddy_pmalloc`;
* `Aim.BuddyPmalloc.ctor` — `buddy_pmalloc__ctor`;
* `Aim.BuddyPmalloc.malloc`, `Aim.BuddyPmalloc.alignedMalloc`, `Aim.BuddyPmalloc.free`,
  `Aim.BuddyPmalloc.getSize`, `Aim.BuddyPmalloc.getFreeBytes` — the methods;
* `Aim.BuddyPmalloc.splitLoop`, `Aim.BuddyPmalloc.mergeLoop` — the loops of the first and third.
-/

import AimKernel.CArith

set_option relaxedAutoImplicit false
set_option autoImplicit false

namespace Aim

/-- `struct buddy_page`, with the field of its base class `struct page`. -/
structure BuddyPage where
  /-- The size in bytes the caller asked for. -/
  byteSize : ℕ
  order : ℕ
  inUse : Bool
  /-- The number of pages the caller asked for. -/
  curPageCount : ℕ
deriving DecidableEq, Repr

/-- `struct buddy_pmalloc`. -/
structure BuddyPmalloc where
  pages : ℕ → BuddyPage
  /-- The free blocks of each order. -/
  list : ℕ → List ℕ
  maxOrder : ℕ
  base : ℕ
  pageSize : ℕ
  pageCount : ℕ
  freePageCount : ℕ
  wastePageCount : ℕ

namespace BuddyPmalloc

/-- `get_buddy(index, order)`. -/
def getBuddy (index order : ℕ) : ℕ := index ^^^ shl1 order

/-- `get_low_index(index, order)`. -/
def getLowIndex (index order : ℕ) : ℕ := index &&& (2 ^ 32 - 1 - shl1 order)

/-- `get_high_index(index, order)`. -/
def getHighIndex (index order : ℕ) : ℕ := index ||| shl1 order

/-- Writing to the record of a page. -/
def setPage (b : BuddyPmalloc) (index : ℕ) (f : BuddyPage → BuddyPage) : BuddyPmalloc :=
  { b with pages := Function.update b.pages index (f (b.pages index)) }

/-- `list_add(&pages[index].node, &list[order])`. -/
def listAdd (b : BuddyPmalloc) (index order : ℕ) : BuddyPmalloc :=
  { b with list := Function.update b.list order (index :: b.list order) }

/-- `list_del(&pages[index].node)`. -/
def listDel (b : BuddyPmalloc) (index : ℕ) : BuddyPmalloc :=
  { b with list := fun order => (b.list order).erase index }

/-! ### Construction -/

/-- `sizeof(struct buddy_page)` on the 32-bit targets. -/
def sizeofBuddyPage : ℕ := 24

/-- `buddy_pmalloc__ctor`.  `valloc` answers `malloc(size)` of the allocator passed in, zero being
`NULL`; every page starts out in use. -/
def ctor (valloc : ℕ → ℕ) (base pageSize pageCount : ℕ) : Outcome BuddyPmalloc := do
  let maxOrder ← leastShift fun k => decide (¬ shl1 (k + 1) ≤ pageCount)
  if valloc (wrap32 (sizeofBuddyPage * pageCount)) = 0 then
    throw (.panic "can't alloc memory for buddy physical memory allocator!")
  return {
    pages := fun i =>
      if i < pageCount then { byteSize := 0, order := 0, inUse := true, curPageCount := 1 }
      else { byteSize := 0, order := 0, inUse := false, curPageCount := 0 }
    list := fun _ => []
    maxOrder := maxOrder
    base := base
    pageSize := pageSize
    pageCount := pageCount
    freePageCount := 0
    wastePageCount := 0 }

/-! ### Allocation -/

/-- The first entry of the first list that is not empty, from `list[targetOrder]` upwards. -/
def findBlock (b : BuddyPmalloc) (targetOrder : ℕ) : Option (ℕ × ℕ) :=
  (List.range' targetOrder (b.maxOrder + 1 - targetOrder)).findSome? fun order =>
    (b.list order).head?.map fun index => (order, index)

/-- `while (order > target_order)`: the block at `index` is halved, the second halves go to the
lists. -/
def splitLoop (targetOrder index : ℕ) : ℕ → BuddyPmalloc → BuddyPmalloc
  | 0, b => b
  | order + 1, b =>
      if order + 1 > targetOrder then
        let highIndex := getHighIndex index order
        let b :=
          if highIndex < b.pageCount then
            (b.setPage highIndex fun pp => { pp with inUse := false, order := order }).listAdd
              highIndex order
          else b
        splitLoop targetOrder index order b
      else b

/-- `buddy_pmalloc__malloc` up to the address computation: the index of the first page of the
block, or nothing where the source returns `-1`. -/
def mallocPage (b : BuddyPmalloc) (size : ℕ) : Outcome (Option ℕ × BuddyPmalloc) := do
  let cnt := wrap32 (divRoundUp 64 size b.pageSize)
  let targetOrder ← leastShift fun k => decide (¬ shl1 k < cnt)
  match b.findBlock targetOrder with
  | none => return (none, b)
  | some (order, index) =>
      assert ((b.pages index).inUse = false) "pp->in_use == 0"
      assert (b.freePageCount ≥ cnt) "M(free_page_count) >= cnt"
      let b := b.setPage index fun pp =>
        { pp with inUse := true, order := targetOrder, byteSize := size, curPageCount := cnt }
      let b := { b with
        wastePageCount := wrap32 (b.wastePageCount + sub32 (shl1 targetOrder) cnt)
        freePageCount := sub32 b.freePageCount (shl1 targetOrder) }
      return (some index, splitLoop targetOrder index order (b.listDel index))

/-- The address returned for the block at `index`: the product is a `size_t`. -/
def retAddr (b : BuddyPmalloc) (index : ℕ) : ℕ := wrap64 (b.base + wrap32 (b.pageSize * index))

/-- `buddy_pmalloc__malloc`. -/
def malloc (b : BuddyPmalloc) (size : ℕ) : Outcome (ℕ × BuddyPmalloc) := do
  match ← b.mallocPage size with
  | (none, b) => return (minusOne64, b)
  | (some index, b) => return (b.retAddr index, b)

/-- The size `buddy_pmalloc__aligned_malloc` passes on, or its panic. -/
def alignedSize (b : BuddyPmalloc) (size align : ℕ) : Outcome ℕ :=
  if isPowOf2 align && isAligned 64 b.base align then
    .ok (if align > size then align else size)
  else
    .error (.panic "can't alloc memory for alignment %016llx.")

/-- `buddy_pmalloc__aligned_malloc`. -/
def alignedMalloc (b : BuddyPmalloc) (size align : ℕ) : Outcome (ℕ × BuddyPmalloc) := do
  b.malloc (← b.alignedSize size align)

/-! ### Release -/

/-- The index `(ptr - base) / page_size` of the page at an address. -/
def pageIndex (b : BuddyPmalloc) (ptr : ℕ) : ℕ := wrap32 (sub64 ptr b.base / b.pageSize)

/-- The merging loop, with `fuel` orders left below `max_order`: the block at `index` absorbs its
buddy as long as that is free and of the same order. -/
def mergeLoop : ℕ → ℕ → ℕ → BuddyPmalloc → ℕ × ℕ × BuddyPmalloc
  | 0, order, index, b => (order, index, b)
  | fuel + 1, order, index, b =>
      let buddyIndex := getBuddy index order
      if buddyIndex ≥ b.pageCount then (order, index, b)
      else if (b.pages buddyIndex).inUse then (order, index, b)
      else if (b.pages buddyIndex).order ≠ order then (order, index, b)
      else mergeLoop fuel (order + 1) (getLowIndex index order) (b.listDel buddyIndex)

/-- `buddy_pmalloc__free`. -/
def free (b : BuddyPmalloc) (ptr : ℕ) : Outcome BuddyPmalloc := do
  assert (roundDown ptr b.pageSize = ptr) "ROUNDDOWN(ptr, M(page_size)) == ptr"
  let index := b.pageIndex ptr
  let pp := b.pages index
  assert (index &&& (shl1 pp.order - 1) = 0) "(index & ((1 << pp->order) - 1)) == 0"
  assert (index < b.pageCount) "index < M(page_count)"
  assert (pp.inUse = true) "pp->in_use == 1"
  let b := { b with
    freePageCount := wrap32 (b.freePageCount + shl1 pp.order)
    wastePageCount := sub32 b.wastePageCount (sub32 (shl1 pp.order) pp.curPageCount) }
  assert (b.freePageCount ≤ b.pageCount) "M(free_page_count) <= M(page_count)"
  let (order, index, b) := mergeLoop (b.maxOrder - pp.order) pp.order index b
  return (b.setPage index fun pp => { pp with inUse := false, order := order }).listAdd index order

/-! ### Queries -/

/-- `buddy_pmalloc__get_size`. -/
def getSize (b : BuddyPmalloc) (ptr : ℕ) : ℕ := (b.pages (b.pageIndex ptr)).byteSize

/-- `buddy_pmalloc__get_free_bytes`: the product is a `size_t`. -/
def getFreeBytes (b : BuddyPmalloc) : ℕ := wrap32 (b.freePageCount * b.pageSize)

end BuddyPmalloc

end Aim
