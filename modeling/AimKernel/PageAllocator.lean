/-
**The page interface of AIM over the buddy allocator.**

`kern/mm/pmm/pmm.c` offers `alloc_pages`, `alloc_aligned_pages` and `free_pages` over whatever
`struct page_allocator` is installed, and an adapter that installs the buddy allocator of
`ZONE_NORMAL`.  The adapter compares the size a block is freed with to the size it was asked for.

`alloc_aligned_pages` asks for `align - PAGE_SIZE` bytes more than it needs and frees the pieces
before and after the aligned part.  The buddy allocator only frees whole blocks, and the adapter
panics when the sizes differ.

Main definitions:

* `Aim.Pages`, `Aim.PageAllocator` — `struct pages` and `struct page_allocator`;
* `Aim.pmemset`, `Aim.allocPages`, `Aim.allocAlignedPages`, `Aim.freePages` — the interface;
* `Aim.pmmAdapter` — the adapter;
* `Aim.pageByte` — where the bytes of a physical range are.

Main results:

* `Aim.pmemset_spec`, `Aim.pmemset_frame` — **what `pmemset` fills, and what it leaves alone**;
* `Aim.pmemset_hang` — when it never comes back;
* `Aim.allocPages_of_alloc`, `Aim.freePages_of_free` — for whole pages the interface does what the
  allocator behind it does.
-/

import AimKernel.MemoryZones

set_option relaxedAutoImplicit false
set_option autoImplicit false

namespace Aim

/-! ### The interface -/

/-- The bytes at the kernel's virtual addresses. -/
abbrev Memory := ℕ → ℕ

/-- `memset(dst, b, n)`. -/
def memset (mem : Memory) (dst b n : ℕ) : Memory := fun x =>
  if dst ≤ x ∧ x < dst + n then b else mem x

/-- `struct pages`. -/
structure Pages where
  paddr : ℕ
  size : ℕ
  flags : ℕ
deriving DecidableEq, Repr

/-- `struct page_allocator`, over the state of the allocator behind it. -/
structure PageAllocator (σ : Type) where
  alloc : Pages → σ → Outcome (ℤ × Pages × σ)
  free : Pages → σ → Outcome σ

/-- `GFP_UNSAFE`: do not fill in junk before freeing. -/
def gfpUnsafe : ℕ := 1

/-- `GFP_ZERO`: zero out the buffer after allocation. -/
def gfpZero : ℕ := 2

/-- `JUNKBYTE`. -/
def junkByte : ℕ := 0x20

/-- `pa2kva(pa)`: a pointer has 32 bits. -/
def pa2kva (pa : ℕ) : ℕ := wrap32 (wrap32 pa + Arch.koffset)

/-- The loop of `pmemset`.  The size decreases modulo `2 ^ 64` by whole pages, so a loop that has
not ended after `2 ^ 52` rounds never will. -/
def pmemsetLoop (b : ℕ) : ℕ → Memory → ℕ → ℕ → Outcome Memory
  | 0, _, _, _ => .error .hang
  | fuel + 1, mem, paddr, size =>
      if size > 0 then
        pmemsetLoop b fuel (memset mem (pa2kva paddr) b Arch.pageSize)
          (wrap64 (paddr + Arch.pageSize)) (sub64 size Arch.pageSize)
      else
        .ok mem

/-- `pmemset(paddr, b, size)`. -/
def pmemset (mem : Memory) (paddr b size : ℕ) : Outcome Memory :=
  pmemsetLoop b (2 ^ 52 + 1) mem paddr size

/-- The allocator behind the interface, and memory. -/
structure PageState (σ : Type) where
  alloc : σ
  mem : Memory

section Interface

variable {σ : Type} (allocator : PageAllocator σ)

/-- The zeros that `alloc_pages` fills in, if asked to. -/
def zeroPages (pages : Pages) (mem : Memory) : Outcome Memory :=
  if pages.flags &&& gfpZero ≠ 0 then pmemset mem pages.paddr 0 pages.size else .ok mem

/-- `alloc_pages`. -/
def allocPages (pages : Pages) (s : PageState σ) : Outcome (ℤ × Pages × PageState σ) := do
  let (result, pages, alloc) ← allocator.alloc pages s.alloc
  let mem ← zeroPages pages s.mem
  return (result, pages, { alloc := alloc, mem := mem })

/-- The junk that `free_pages` fills in, unless told not to. -/
def fillJunk (pages : Pages) (mem : Memory) : Outcome Memory :=
  if pages.flags &&& gfpUnsafe = 0 then pmemset mem pages.paddr junkByte pages.size else .ok mem

/-- `free_pages`. -/
def freePages (pages : Pages) (s : PageState σ) : Outcome (PageState σ) := do
  let mem ← fillJunk pages s.mem
  let alloc ← allocator.free pages s.alloc
  return { alloc := alloc, mem := mem }

/-- The two conditional calls of `free_pages` in `alloc_aligned_pages`, for the padding between
two addresses. -/
def freePadding (flags start stop : ℕ) (s : PageState σ) : Outcome (PageState σ) :=
  if start < stop then
    freePages allocator { paddr := start, size := stop - start, flags := flags } s
  else
    .ok s

/-- `alloc_aligned_pages`. -/
def allocAlignedPages (pages : Pages) (align : ℕ) (s : PageState σ) :
    Outcome (ℤ × Pages × PageState σ) := do
  let buf := { pages with size := wrap64 (pages.size + sub64 align Arch.pageSize) }
  let (ret, buf, s) ← allocPages allocator buf s
  if ret < 0 then
    return (ret, pages, s)
  else
    let pages := { pages with paddr := alignAbove 64 buf.paddr align }
    let s ← freePadding allocator buf.flags buf.paddr pages.paddr s
    let s ← freePadding allocator buf.flags (wrap64 (pages.paddr + pages.size))
      (wrap64 (buf.paddr + buf.size)) s
    return (0, pages, s)

end Interface

/-! ### The adapter -/

/-- `alloc__adapter`. -/
def allocAdapter (pages : Pages) (b : BuddyPmalloc) : Outcome (ℤ × Pages × BuddyPmalloc) := do
  let (pa, b) ← b.malloc pages.size
  if pa = minusOne64 then
    return (eof, pages, b)
  else
    return (0, { pages with paddr := pa }, b)

/-- `free__adapter`. -/
def freeAdapter (pages : Pages) (b : BuddyPmalloc) : Outcome BuddyPmalloc :=
  if b.getSize pages.paddr ≠ pages.size then
    .error (.panic "size mismatch, allocator %016llx, user %016llx")
  else
    b.free pages.paddr

/-- The allocator that `install_pmm_adapter` installs. -/
def pmmAdapter : PageAllocator BuddyPmalloc where
  alloc := allocAdapter
  free := freeAdapter

/-! ### Filling memory -/

/-- A byte of a physical range: `pmemset` goes through the range page by page. -/
def pageByte (paddr x : ℕ) : ℕ :=
  pa2kva (paddr + Arch.pageSize * (x / Arch.pageSize)) + x % Arch.pageSize

theorem pa2kva_wrap64 (pa : ℕ) : pa2kva (wrap64 pa) = pa2kva pa := by
  simp only [pa2kva, wrap32, wrap64]
  omega

theorem pageByte_of_lt {paddr x : ℕ} (hx : x < Arch.pageSize) :
    pageByte paddr x = pa2kva paddr + x := by
  rw [pageByte, Nat.div_eq_of_lt hx, Nat.mod_eq_of_lt hx, Nat.mul_zero, Nat.add_zero]

theorem pageByte_add (paddr x : ℕ) :
    pageByte paddr (Arch.pageSize + x) = pageByte (wrap64 (paddr + Arch.pageSize)) x := by
  have hdiv : (Arch.pageSize + x) / Arch.pageSize = x / Arch.pageSize + 1 := by
    rw [Nat.add_div_left _ (by decide)]
  have hmod : (Arch.pageSize + x) % Arch.pageSize = x % Arch.pageSize := Nat.add_mod_left _ _
  have hpage : pa2kva (wrap64 (paddr + Arch.pageSize) + Arch.pageSize * (x / Arch.pageSize)) =
      pa2kva (paddr + Arch.pageSize + Arch.pageSize * (x / Arch.pageSize)) := by
    rw [← pa2kva_wrap64, ← pa2kva_wrap64 (paddr + _ + _), wrap64, wrap64, wrap64, Nat.mod_add_mod]
  rw [pageByte, pageByte, hdiv, hmod, hpage, Nat.mul_succ, Nat.add_comm (_ * _), Nat.add_assoc]

/-- In a range that starts at a page, bytes are where addresses say. -/
theorem pageByte_of_dvd {paddr : ℕ} (hpage : Arch.pageSize ∣ paddr) (x : ℕ) :
    pageByte paddr x = pa2kva (paddr + x) := by
  obtain ⟨k, rfl⟩ := hpage
  simp only [pageByte, pa2kva, wrap32, Arch.pageSize, Arch.koffset]
  omega

/-- One round on whole pages. -/
theorem pmemsetLoop_succ (b fuel : ℕ) (mem : Memory) (paddr : ℕ) {k : ℕ} (hk : k + 1 < 2 ^ 52) :
    pmemsetLoop b (fuel + 1) mem paddr (Arch.pageSize * (k + 1)) =
      pmemsetLoop b fuel (memset mem (pa2kva paddr) b Arch.pageSize)
        (wrap64 (paddr + Arch.pageSize)) (Arch.pageSize * k) := by
  have hnext : sub64 (Arch.pageSize * (k + 1)) Arch.pageSize = Arch.pageSize * k := by
    simp only [Arch.pageSize]
    rw [sub64_of_le (by omega) (by omega)]
    omega
  rw [pmemsetLoop, if_pos (by simp only [Arch.pageSize]; omega), hnext]

/-- **The loop of `pmemset`** fills all bytes of whole pages, and no byte filled already is
changed. -/
theorem pmemsetLoop_spec (b : ℕ) : ∀ (k fuel : ℕ) (mem : Memory) (paddr : ℕ), k < fuel →
    k < 2 ^ 52 → ∃ mem', pmemsetLoop b fuel mem paddr (Arch.pageSize * k) = .ok mem' ∧
      (∀ x < Arch.pageSize * k, mem' (pageByte paddr x) = b) ∧ ∀ y, mem y = b → mem' y = b := by
  intro k
  induction k with
  | zero =>
      intro fuel mem paddr hfuel _
      obtain ⟨f, rfl⟩ : ∃ f, fuel = f + 1 := ⟨fuel - 1, by omega⟩
      exact ⟨mem, by simp [pmemsetLoop], fun x hx => absurd hx (Nat.not_lt_zero x), fun y hy => hy⟩
  | succ k ih =>
      intro fuel mem paddr hfuel hk
      obtain ⟨f, rfl⟩ : ∃ f, fuel = f + 1 := ⟨fuel - 1, by omega⟩
      obtain ⟨mem', hrun, hfill, hkeep⟩ := ih f (memset mem (pa2kva paddr) b Arch.pageSize)
        (wrap64 (paddr + Arch.pageSize)) (by omega) (by omega)
      refine ⟨mem', ?_, fun x hx => ?_, fun y hy => hkeep y ?_⟩
      · rw [pmemsetLoop_succ b f mem paddr hk]
        exact hrun
      · by_cases hpage : x < Arch.pageSize
        · -- the first page is filled in this round
          refine hkeep _ ?_
          rw [pageByte_of_lt hpage, memset, if_pos (by omega)]
        · obtain ⟨y, rfl⟩ := Nat.exists_eq_add_of_le (not_lt.1 hpage)
          rw [pageByte_add]
          refine hfill y ?_
          rw [Nat.mul_succ] at hx
          omega
      · rw [memset]
        split
        · rfl
        · exact hy

/-- **It never ends** for a size that is no multiple of the page size. -/
theorem pmemsetLoop_hang (b : ℕ) : ∀ (fuel : ℕ) (mem : Memory) (paddr size : ℕ),
    ¬ Arch.pageSize ∣ size → size < 2 ^ 64 → pmemsetLoop b fuel mem paddr size = .error .hang := by
  intro fuel
  induction fuel with
  | zero => exact fun mem paddr size _ _ => rfl
  | succ fuel ih =>
      intro mem paddr size hodd hsize
      have hpos : size > 0 := Nat.pos_of_ne_zero fun h => hodd (h ▸ dvd_zero _)
      rw [pmemsetLoop, if_pos hpos]
      refine ih _ _ _ ?_ (Nat.mod_lt _ (by decide))
      rw [sub64]
      simp only [Arch.pageSize] at hodd ⊢
      omega

/-- **`pmemset` comes back** for a whole number of pages, and has filled them. -/
theorem pmemset_spec (mem : Memory) (paddr b : ℕ) {size : ℕ} (hdvd : Arch.pageSize ∣ size)
    (hsize : size < 2 ^ 64) :
    ∃ mem', pmemset mem paddr b size = .ok mem' ∧ ∀ x < size, mem' (pageByte paddr x) = b := by
  obtain ⟨k, rfl⟩ := hdvd
  have hk : k < 2 ^ 52 := by
    simp only [Arch.pageSize] at hsize
    omega
  obtain ⟨mem', hrun, hfill, -⟩ := pmemsetLoop_spec b k (2 ^ 52 + 1) mem paddr (by omega) hk
  exact ⟨mem', hrun, hfill⟩

theorem pmemset_pages (mem : Memory) (paddr b : ℕ) {size : ℕ} (hdvd : Arch.pageSize ∣ size)
    (hsize : size < 2 ^ 64) : ∃ mem', pmemset mem paddr b size = .ok mem' := by
  obtain ⟨mem', hrun, -⟩ := pmemset_spec mem paddr b hdvd hsize
  exact ⟨mem', hrun⟩

theorem pmemset_zero (mem : Memory) (paddr b : ℕ) : pmemset mem paddr b 0 = .ok mem := by
  rw [pmemset, pmemsetLoop, if_neg (Nat.lt_irrefl 0)]

/-- No byte outside the pages is changed by the loop. -/
theorem pmemsetLoop_frame (b : ℕ) : ∀ (k fuel : ℕ) (mem mem' : Memory) (paddr : ℕ), k < 2 ^ 52 →
    pmemsetLoop b fuel mem paddr (Arch.pageSize * k) = .ok mem' →
      ∀ y, (∀ x < Arch.pageSize * k, y ≠ pageByte paddr x) → mem' y = mem y := by
  intro k
  induction k with
  | zero =>
      intro fuel mem mem' paddr _ hrun y _
      cases fuel with
      | zero => cases hrun
      | succ fuel =>
          rw [Nat.mul_zero, pmemsetLoop, if_neg (Nat.lt_irrefl 0)] at hrun
          rw [Except.ok.inj hrun]
  | succ k ih =>
      intro fuel mem mem' paddr hk hrun y hy
      cases fuel with
      | zero => cases hrun
      | succ fuel =>
          rw [pmemsetLoop_succ b fuel mem paddr hk] at hrun
          rw [Nat.mul_succ] at hy
          have hrest := ih fuel _ _ _ (by omega) hrun y fun x hx => by
            rw [← pageByte_add]
            exact hy _ (by omega)
          rw [hrest, memset, if_neg]
          -- the page of this round
          rintro ⟨hlow, hhigh⟩
          refine hy (y - pa2kva paddr) (by omega) ?_
          rw [pageByte_of_lt (by omega)]
          omega

/-- **What `pmemset` leaves alone.** -/
theorem pmemset_frame {mem mem' : Memory} {paddr b size : ℕ} (hdvd : Arch.pageSize ∣ size)
    (hsize : size < 2 ^ 64) (hrun : pmemset mem paddr b size = .ok mem') {y : ℕ}
    (hy : ∀ x < size, y ≠ pageByte paddr x) : mem' y = mem y := by
  obtain ⟨k, rfl⟩ := hdvd
  rw [pmemset] at hrun
  refine pmemsetLoop_frame b k _ mem mem' paddr ?_ hrun y hy
  simp only [Arch.pageSize] at hsize
  omega

/-- For any other size it does not come back. -/
theorem pmemset_hang (mem : Memory) (paddr b : ℕ) {size : ℕ} (hodd : ¬ Arch.pageSize ∣ size)
    (hsize : size < 2 ^ 64) : pmemset mem paddr b size = .error .hang :=
  pmemsetLoop_hang b _ mem paddr size hodd hsize

-- its bound on the number of rounds must never be unfolded
attribute [irreducible] pmemset

section Adapter

variable {σ : Type} {allocator : PageAllocator σ} {pages : Pages} {s : PageState σ}

theorem zeroPages_pages (mem : Memory) (hdvd : Arch.pageSize ∣ pages.size)
    (hsize : pages.size < 2 ^ 64) : ∃ mem', zeroPages pages mem = .ok mem' := by
  rw [zeroPages]
  by_cases hzero : pages.flags &&& gfpZero ≠ 0
  · rw [if_pos hzero]
    exact pmemset_pages mem pages.paddr 0 hdvd hsize
  · rw [if_neg hzero]
    exact ⟨mem, rfl⟩

/-- For whole pages the outcome of `alloc_pages` is that of the allocator behind it. -/
theorem allocPages_of_alloc {ret : ℤ} {pages' : Pages} {alloc' : σ}
    (h : allocator.alloc pages s.alloc = .ok (ret, pages', alloc'))
    (hdvd : Arch.pageSize ∣ pages'.size) (hsize : pages'.size < 2 ^ 64) :
    ∃ mem', allocPages allocator pages s = .ok (ret, pages', ⟨alloc', mem'⟩) := by
  obtain ⟨mem', hmem⟩ := zeroPages_pages s.mem hdvd hsize
  refine ⟨mem', ?_⟩
  rw [allocPages, h, ok_bind]
  simp only
  rw [hmem]
  rfl

/-- What the zeros leave alone. -/
theorem zeroPages_frame {mem mem' : Memory} (hdvd : Arch.pageSize ∣ pages.size)
    (hsize : pages.size < 2 ^ 64) (hrun : zeroPages pages mem = .ok mem') {y : ℕ}
    (hy : pages.flags &&& gfpZero ≠ 0 → ∀ x < pages.size, y ≠ pageByte pages.paddr x) :
    mem' y = mem y := by
  rw [zeroPages] at hrun
  split at hrun
  · next hzero => exact pmemset_frame hdvd hsize hrun (hy hzero)
  · rw [Except.ok.inj hrun]

theorem fillJunk_pages (mem : Memory) (hdvd : Arch.pageSize ∣ pages.size)
    (hsize : pages.size < 2 ^ 64) : ∃ mem', fillJunk pages mem = .ok mem' := by
  rw [fillJunk]
  by_cases hsafe : pages.flags &&& gfpUnsafe = 0
  · rw [if_pos hsafe]
    exact pmemset_pages mem pages.paddr junkByte hdvd hsize
  · rw [if_neg hsafe]
    exact ⟨mem, rfl⟩

/-- What the junk leaves alone. -/
theorem fillJunk_frame {mem mem' : Memory} (hdvd : Arch.pageSize ∣ pages.size)
    (hsize : pages.size < 2 ^ 64) (hrun : fillJunk pages mem = .ok mem') {y : ℕ}
    (hy : pages.flags &&& gfpUnsafe = 0 → ∀ x < pages.size, y ≠ pageByte pages.paddr x) :
    mem' y = mem y := by
  rw [fillJunk] at hrun
  split at hrun
  · next hjunk => exact pmemset_frame hdvd hsize hrun (hy hjunk)
  · rw [Except.ok.inj hrun]

/-- For whole pages `free_pages` succeeds whenever the allocator behind it does. -/
theorem freePages_of_free {alloc' : σ} (h : allocator.free pages s.alloc = .ok alloc')
    (hdvd : Arch.pageSize ∣ pages.size) (hsize : pages.size < 2 ^ 64) :
    ∃ mem', freePages allocator pages s = .ok ⟨alloc', mem'⟩ := by
  obtain ⟨mem', hmem⟩ := fillJunk_pages s.mem hdvd hsize
  exact ⟨mem', by rw [freePages, hmem, ok_bind, h]; rfl⟩

/-- When `free_pages` comes back, so did the allocator behind it. -/
theorem free_of_freePages {s' : PageState σ} (h : freePages allocator pages s = .ok s') :
    allocator.free pages s.alloc = .ok s'.alloc := by
  obtain ⟨mem, -, h⟩ := bind_eq_ok.1 h
  obtain ⟨alloc, halloc, h⟩ := bind_eq_ok.1 h
  obtain rfl := Except.ok.inj h
  exact halloc

end Adapter

end Aim
