/-
**Allocation with zeroing.**

`alloc_pages`, `kmalloc`, `kcalloc` and `cache_alloc` ask an allocator behind a function pointer and
then fill what they got with zeros.  None of them looks at the answer first: when the allocator
fails, the zeros go to `NULL`, or to the stale address in `struct pages`.  And `alloc_pages` goes by
the size of the request, whatever the block that it got.

Main definitions:

* `Aim.SimpleAllocator`, `Aim.CachingAllocator` — the function pointers;
* `Aim.kmalloc`, `Aim.kcalloc`, `Aim.cacheAlloc` — `vmm.c` and `vmm.h`;
* `Aim.ReturnsSafely`, `Aim.PagesSafely` — what should happen on either outcome.

Main results:

* `Aim.memset_safe_iff`, `Aim.allocPages_safe_iff` — when zeros after the
  answer do no harm, and reach far enough;
* `Aim.zeroed_allocation_safe_iff` — **exactly when each entry point is safe.**
-/

import AimKernel.PageAllocator
import AimKernel.SlubRun

set_option relaxedAutoImplicit false
set_option autoImplicit false

namespace Aim

variable {σ : Type}

/-! ### The entry points -/

/-- `alloc` of `struct simple_allocator`, over the state of the allocator behind it. -/
structure SimpleAllocator (σ : Type) where
  alloc : ℕ → ℕ → σ → Outcome (Ptr × σ)

/-- What the entry points read of `struct allocator_cache`. -/
structure AllocatorCache where
  size : ℕ
  flags : ℕ

/-- `alloc` of `struct caching_allocator`. -/
structure CachingAllocator (σ : Type) where
  alloc : AllocatorCache → σ → Outcome (Ptr × σ)

/-- `alloc_pages(pages)`; the request may be `NULL`. -/
def allocPagesAt (allocator : PageAllocator σ) (pages : Option Pages) (s : PageState σ) :
    Outcome (ℤ × Option Pages × PageState σ) :=
  match pages with
  | none => return (eof, none, s)
  | some pages => do
      let (result, pages, s) ← allocPages allocator pages s
      return (result, some pages, s)

/-- `kmalloc(size, flags)`. -/
def kmalloc (allocator : SimpleAllocator σ) (size flags : ℕ) (s : PageState σ) :
    Outcome (Ptr × PageState σ) :=
  if size > Arch.pageSize / 2 then
    .error (.panic "kmalloc: size %lu too large\n")
  else do
    let (result, alloc) ← allocator.alloc size flags s.alloc
    let mem := if flags &&& gfpZero ≠ 0 then memset s.mem result.toNat 0 size else s.mem
    return (result, { alloc := alloc, mem := mem })

/-- `kcalloc(nmemb, size, flags)`: the product is a `size_t`. -/
def kcalloc (allocator : SimpleAllocator σ) (nmemb size flags : ℕ) (s : PageState σ) :
    Outcome (Ptr × PageState σ) := do
  let (result, s) ← kmalloc allocator (wrap32 (nmemb * size)) flags s
  return (result, { s with mem := memset s.mem result.toNat 0 (wrap32 (nmemb * size)) })

/-- `cache_alloc(cache)`; the cache may be `NULL`. -/
def cacheAlloc (allocator : CachingAllocator σ) (cache : Option AllocatorCache) (s : PageState σ) :
    Outcome (Ptr × PageState σ) :=
  match cache with
  | none => return (0, s)
  | some cache => do
      let (retval, alloc) ← allocator.alloc cache s.alloc
      let mem :=
        if cache.flags &&& gfpZero ≠ 0 then memset s.mem retval.toNat 0 cache.size else s.mem
      return (retval, { alloc := alloc, mem := mem })

/-! ### The allocators behind them -/

/-- `__simple_alloc`, before an allocator is installed. -/
def dummySimpleAllocator : SimpleAllocator Unit := ⟨fun _ _ s => .ok (0, s)⟩

/-- `__caching_alloc`, before an allocator is installed. -/
def dummyCachingAllocator : CachingAllocator Unit := ⟨fun _ s => .ok (0, s)⟩

/-- `__alloc` and `__free`, before an allocator is installed. -/
def dummyPageAllocator : PageAllocator Unit :=
  ⟨fun pages s => .ok (eof, pages, s), fun _ s => .ok s⟩

/-- The allocator that `install_vmm_adapter` installs. -/
def vmallocAdapter (B : PvBridge σ) : SimpleAllocator (SlubVmalloc σ) :=
  ⟨fun size _ s => SlubVmalloc.malloc B size s⟩

/-! ### Safety -/

/-- **What an entry point should do when the allocator behind it answers `ptr`**: come back with
`ptr`; after a failure memory is as it was, and after a success with zeroing asked for, `size` bytes
of the object are zero. -/
def ReturnsSafely (run : Memory → Outcome (Ptr × PageState σ)) (ptr : Ptr) (alloc : σ)
    (zeroing : Prop) (size : ℕ) : Prop :=
  ∀ mem, ∃ mem', run mem = .ok (ptr, ⟨alloc, mem'⟩) ∧ (ptr = 0 → mem' = mem) ∧
    (ptr ≠ 0 → zeroing → ∀ x < size, mem' (ptr.toNat + x) = 0)

/-- The entry point refuses the request before it asks for memory. -/
def Refuses (run : Memory → Outcome (Ptr × PageState σ)) : Prop :=
  ∀ mem, run mem = .error (.panic "kmalloc: size %lu too large\n")

theorem memset_nothing (mem : Memory) (dst b : ℕ) : memset mem dst b 0 = mem := by
  funext x
  rw [memset, if_neg (by omega)]

theorem memset_twice (mem : Memory) (dst b n : ℕ) :
    memset (memset mem dst b n) dst b n = memset mem dst b n := by
  funext x
  simp only [memset]
  split <;> rfl

/-- **Zeros after the answer**: they must be none when there is no object, and reach to the end of
the object when there is one. -/
theorem memset_safe_iff {ptr : Ptr} {n size : ℕ} :
    (∀ mem, (ptr = 0 → memset mem ptr.toNat 0 n = mem) ∧
        (ptr ≠ 0 → ∀ x < size, memset mem ptr.toNat 0 n (ptr.toNat + x) = 0)) ↔
      (ptr = 0 ∧ n = 0) ∨ (ptr ≠ 0 ∧ size ≤ n) := by
  constructor
  · intro h
    obtain ⟨hnull, hobject⟩ := h fun _ => 1
    by_cases hptr : ptr = 0
    · refine Or.inl ⟨hptr, ?_⟩
      by_contra hn
      have hfirst := congrFun (hnull hptr) ptr.toNat
      rw [memset, if_pos (by omega)] at hfirst
      exact absurd hfirst (by decide)
    · refine Or.inr ⟨hptr, ?_⟩
      by_contra hn
      have hnext := hobject hptr n (not_le.1 hn)
      rw [memset, if_neg (by omega)] at hnext
      exact absurd hnext (by decide)
  · rintro (⟨rfl, rfl⟩ | ⟨hptr, hle⟩) mem
    · exact ⟨fun _ => memset_nothing mem _ _, fun hne => absurd rfl hne⟩
    · refine ⟨fun hnull => absurd hnull hptr, fun _ x hx => ?_⟩
      rw [memset, if_pos (by omega)]

/-- An entry point that fills in zeros if it is asked to. -/
theorem returnsSafely_iff {run : Memory → Outcome (Ptr × PageState σ)} {ptr : Ptr} {alloc : σ}
    {zeroing : Prop} [Decidable zeroing] {n size : ℕ}
    (hrun : ∀ mem, run mem =
      .ok (ptr, ⟨alloc, if zeroing then memset mem ptr.toNat 0 n else mem⟩)) :
    ReturnsSafely run ptr alloc zeroing size ↔
      ¬ zeroing ∨ (ptr = 0 ∧ n = 0) ∨ (ptr ≠ 0 ∧ size ≤ n) := by
  by_cases hz : zeroing
  · simp only [hz, if_true, not_true, false_or] at hrun ⊢
    rw [← memset_safe_iff]
    refine forall_congr' fun mem => ?_
    rw [hrun mem]
    constructor
    · rintro ⟨mem', heq, hnull, hobject⟩
      cases Except.ok.inj heq
      exact ⟨hnull, fun hptr => hobject hptr trivial⟩
    · rintro ⟨hnull, hobject⟩
      exact ⟨_, rfl, hnull, fun hptr _ => hobject hptr⟩
  · refine iff_of_true (fun mem => ⟨mem, ?_, fun _ => rfl, fun _ h => absurd h hz⟩) (Or.inl hz)
    rw [hrun, if_neg hz]

/-! ### `kmalloc`, `kcalloc`, `cache_alloc` -/

section Objects

variable {allocator : SimpleAllocator σ} {alloc alloc' : σ} {ptr : Ptr} {size flags : ℕ}

theorem kmalloc_refuses (h : size > Arch.pageSize / 2) (s : PageState σ) :
    kmalloc allocator size flags s = .error (.panic "kmalloc: size %lu too large\n") := if_pos h

theorem kmalloc_of_alloc (hsize : ¬ size > Arch.pageSize / 2)
    (halloc : allocator.alloc size flags alloc = .ok (ptr, alloc')) (mem : Memory) :
    kmalloc allocator size flags ⟨alloc, mem⟩ = .ok (ptr, ⟨alloc',
      if flags &&& gfpZero ≠ 0 then memset mem ptr.toNat 0 size else mem⟩) := by
  rw [kmalloc, if_neg hsize]
  simp only
  rw [halloc]
  rfl

/-- **`kmalloc`** is safe unless it zeroes through `NULL`. -/
theorem kmalloc_safe_iff (halloc : allocator.alloc size flags alloc = .ok (ptr, alloc')) :
    (Refuses (fun mem => kmalloc allocator size flags ⟨alloc, mem⟩) ∨
        ReturnsSafely (fun mem => kmalloc allocator size flags ⟨alloc, mem⟩) ptr alloc'
          (flags &&& gfpZero ≠ 0) size) ↔
      size > Arch.pageSize / 2 ∨ flags &&& gfpZero = 0 ∨ size = 0 ∨ ptr ≠ 0 := by
  by_cases hsize : size > Arch.pageSize / 2
  · exact iff_of_true (Or.inl fun mem => kmalloc_refuses hsize _) (Or.inl hsize)
  · have hrun := kmalloc_of_alloc hsize halloc
    have hnot : ¬ Refuses (fun mem => kmalloc allocator size flags ⟨alloc, mem⟩) := by
      intro hrefuses
      cases (hrun fun _ => 0).symm.trans (hrefuses fun _ => 0)
    rw [or_iff_right hnot, or_iff_right hsize, returnsSafely_iff hrun]
    simp only [ne_eq, not_not, le_refl, and_true]
    tauto

/-- **`kcalloc`** zeroes whatever the flags say; its product must not wrap. -/
theorem kcalloc_safe_iff {nmemb : ℕ}
    (halloc : allocator.alloc (wrap32 (nmemb * size)) flags alloc = .ok (ptr, alloc')) :
    (Refuses (fun mem => kcalloc allocator nmemb size flags ⟨alloc, mem⟩) ∨
        ReturnsSafely (fun mem => kcalloc allocator nmemb size flags ⟨alloc, mem⟩) ptr alloc' True
          (nmemb * size)) ↔
      wrap32 (nmemb * size) > Arch.pageSize / 2 ∨ (ptr = 0 ∧ wrap32 (nmemb * size) = 0) ∨
        (ptr ≠ 0 ∧ nmemb * size < 2 ^ 32) := by
  by_cases hsize : wrap32 (nmemb * size) > Arch.pageSize / 2
  · refine iff_of_true (Or.inl fun mem => ?_) (Or.inl hsize)
    simp only [kcalloc]
    rw [kmalloc_refuses hsize, error_bind]
  · have hrun : ∀ mem, kcalloc allocator nmemb size flags ⟨alloc, mem⟩ =
        .ok (ptr, ⟨alloc',
          if True then memset mem ptr.toNat 0 (wrap32 (nmemb * size)) else mem⟩) := by
      intro mem
      rw [kcalloc, kmalloc_of_alloc hsize halloc, ok_bind, if_pos trivial]
      by_cases hz : flags &&& gfpZero ≠ 0
      · simp only [if_pos hz, memset_twice]
        rfl
      · simp only [if_neg hz]
        rfl
    have hnot : ¬ Refuses (fun mem => kcalloc allocator nmemb size flags ⟨alloc, mem⟩) := by
      intro hrefuses
      cases (hrun fun _ => 0).symm.trans (hrefuses fun _ => 0)
    have hwrap : nmemb * size ≤ wrap32 (nmemb * size) ↔ nmemb * size < 2 ^ 32 := by
      rw [wrap32]
      omega
    rw [or_iff_right hnot, or_iff_right hsize, returnsSafely_iff hrun, not_true, false_or, hwrap]

end Objects

/-- **`cache_alloc`** is safe unless it zeroes through `NULL`. -/
theorem cacheAlloc_safe_iff {allocator : CachingAllocator σ} {cache : AllocatorCache}
    {alloc alloc' : σ} {ptr : Ptr} (halloc : allocator.alloc cache alloc = .ok (ptr, alloc')) :
    ReturnsSafely (fun mem => cacheAlloc allocator (some cache) ⟨alloc, mem⟩) ptr alloc'
        (cache.flags &&& gfpZero ≠ 0) cache.size ↔
      cache.flags &&& gfpZero = 0 ∨ cache.size = 0 ∨ ptr ≠ 0 := by
  have hrun : ∀ mem, cacheAlloc allocator (some cache) ⟨alloc, mem⟩ = .ok (ptr, ⟨alloc',
      if cache.flags &&& gfpZero ≠ 0 then memset mem ptr.toNat 0 cache.size else mem⟩) := by
    intro mem
    rw [cacheAlloc]
    simp only
    rw [halloc]
    rfl
  rw [returnsSafely_iff hrun]
  simp only [ne_eq, not_not, le_refl, and_true]
  tauto

/-! ### `alloc_pages` -/

section Pages

variable {allocator : PageAllocator σ} {pages : Pages} {alloc alloc' : σ} {ret : ℤ} {paddr : ℕ}

/-- **What `alloc_pages` should do when the allocator behind it answers `ret`**, with a block of
`room` bytes at `paddr` after a success: come back with this answer; after a failure memory is as it
was, and after a success with zeroing asked for, `size` bytes of the object are mapped, at the place
of the block, and zero, and all other memory is as it was. -/
def PagesSafely (allocator : PageAllocator σ) (pages : Pages) (alloc : σ) (ret : ℤ)
    (paddr room : ℕ) (alloc' : σ) : Prop :=
  ∀ mem, ∃ mem', allocPages allocator pages ⟨alloc, mem⟩ =
      .ok (ret, { pages with paddr := paddr }, ⟨alloc', mem'⟩) ∧
    (ret ≠ 0 → mem' = mem) ∧
    (ret = 0 → pages.flags &&& gfpZero ≠ 0 →
      (∀ x < pages.size, Arch.koffset + paddr + x < Arch.ktop ∧
        mem' (Arch.koffset + paddr + x) = 0) ∧
      ∀ y, ¬ (Arch.koffset + paddr ≤ y ∧ y < Arch.koffset + paddr + room) → mem' y = mem y)

/-- Below the top of the mapping, bytes are where exact arithmetic says. -/
theorem pageByte_of_mapped {paddr x : ℕ} (h : Arch.koffset + paddr + x < Arch.ktop) :
    pageByte paddr x = Arch.koffset + paddr + x := by
  simp only [pageByte, pa2kva, wrap32, Arch.koffset, Arch.ktop, Arch.pageSize] at h ⊢
  omega

theorem allocPages_plain
    (halloc : allocator.alloc pages alloc = .ok (ret, { pages with paddr := paddr }, alloc'))
    (hflags : pages.flags &&& gfpZero = 0) (mem : Memory) :
    allocPages allocator pages ⟨alloc, mem⟩ =
      .ok (ret, { pages with paddr := paddr }, ⟨alloc', mem⟩) := by
  rw [allocPages]
  simp only
  rw [halloc, ok_bind]
  simp only
  rw [zeroPages, if_neg (not_not.2 hflags)]
  rfl

theorem allocPages_zeroing
    (halloc : allocator.alloc pages alloc = .ok (ret, { pages with paddr := paddr }, alloc'))
    (hflags : pages.flags &&& gfpZero ≠ 0) (mem : Memory) :
    allocPages allocator pages ⟨alloc, mem⟩ = (do
      let mem' ← pmemset mem paddr 0 pages.size
      return (ret, { pages with paddr := paddr }, ⟨alloc', mem'⟩)) := by
  rw [allocPages]
  simp only
  rw [halloc, ok_bind]
  simp only
  rw [zeroPages, if_pos hflags]

/-- **`alloc_pages`** is safe unless it zeroes after a failure, or a size that is no whole number of
pages, or more than the block holds, or than is mapped. -/
theorem allocPages_safe_iff
    (halloc : allocator.alloc pages alloc = .ok (ret, { pages with paddr := paddr }, alloc'))
    (hsize : pages.size < 2 ^ 64) (room : ℕ) :
    PagesSafely allocator pages alloc ret paddr room alloc' ↔
      pages.flags &&& gfpZero = 0 ∨ pages.size = 0 ∨ (ret = 0 ∧ Arch.pageSize ∣ pages.size ∧
        pages.size ≤ room ∧ Arch.koffset + paddr + pages.size ≤ Arch.ktop) := by
  by_cases hflags : pages.flags &&& gfpZero = 0
  · exact iff_of_true (fun mem => ⟨mem, allocPages_plain halloc hflags mem, fun _ => rfl,
      fun _ hzero => absurd hflags hzero⟩) (Or.inl hflags)
  · rw [or_iff_right hflags]
    have hrun := allocPages_zeroing halloc hflags
    constructor
    · intro hsafe
      by_cases hne : pages.size = 0
      · exact Or.inl hne
      -- a memory of ones shows every zero that is written
      obtain ⟨mem', heq, hkept, hobject⟩ := hsafe fun _ => 1
      rw [hrun] at heq
      have hdvd : Arch.pageSize ∣ pages.size := by
        by_contra hodd
        rw [pmemset_hang _ _ _ hodd hsize, error_bind] at heq
        cases heq
      obtain ⟨mem, hset, hzeros⟩ := pmemset_spec (fun _ => 1) paddr 0 hdvd hsize
      rw [hset] at heq
      cases Except.ok.inj heq
      have hret : ret = 0 := by
        by_contra hfail
        have hfirst := hzeros 0 (Nat.pos_of_ne_zero hne)
        rw [hkept hfail] at hfirst
        exact absurd hfirst Nat.one_ne_zero
      obtain ⟨hbytes, houtside⟩ := hobject hret hflags
      refine Or.inr ⟨hret, hdvd, ?_, ?_⟩
      · by_contra hlarge
        -- the byte behind the block
        have hbyte := (hbytes room (not_le.1 hlarge)).2
        rw [houtside _ (by omega)] at hbyte
        exact absurd hbyte Nat.one_ne_zero
      · have hlast := (hbytes (pages.size - 1) (by omega)).1
        omega
    · rintro (hzero | ⟨hret, hdvd, hroom, htop⟩) mem
      · refine ⟨mem, ?_, fun _ => rfl, fun _ _ => ⟨fun x hx => ?_, fun y _ => rfl⟩⟩
        · rw [hrun, hzero, pmemset_zero]
          rfl
        · omega
      · obtain ⟨mem', hset, hzeros⟩ := pmemset_spec mem paddr 0 hdvd hsize
        have hbyte : ∀ x < pages.size, pageByte paddr x = Arch.koffset + paddr + x :=
          fun x hx => pageByte_of_mapped (by omega)
        refine ⟨mem', ?_, fun hne => absurd hret hne, fun _ _ => ⟨fun x hx => ⟨by omega, ?_⟩, ?_⟩⟩
        · rw [hrun, hset]
          rfl
        · rw [← hbyte x hx]
          exact hzeros x hx
        · intro y hy
          refine pmemset_frame hdvd hsize hset fun x hx heq => hy ?_
          rw [heq, hbyte x hx]
          omega

end Pages

/-! ### All four -/

/-- **Zeroing after the call.**  None of the four looks at the answer before it zeroes.
`alloc_pages` is safe exactly when it does not zero, has nothing to zero, or got a block that holds
the request, whole pages and mapped;
`kmalloc` and `cache_alloc` exactly when they do not zero, have nothing to zero, or got an object;
`kcalloc`, which always zeroes, when there is nothing to zero in `NULL`, and the product does not
wrap if there is an object.  Requests that `kmalloc` refuses never reach the allocator. -/
theorem zeroed_allocation_safe_iff {τ ρ : Type} (pageAllocator : PageAllocator σ)
    (simpleAllocator : SimpleAllocator τ) (cachingAllocator : CachingAllocator ρ) :
    (∀ pages alloc ret paddr room alloc', pages.size < 2 ^ 64 →
      pageAllocator.alloc pages alloc = .ok (ret, { pages with paddr := paddr }, alloc') →
        (PagesSafely pageAllocator pages alloc ret paddr room alloc' ↔
          pages.flags &&& gfpZero = 0 ∨ pages.size = 0 ∨
            (ret = 0 ∧ Arch.pageSize ∣ pages.size ∧ pages.size ≤ room ∧
              Arch.koffset + paddr + pages.size ≤ Arch.ktop))) ∧
    (∀ size flags alloc ptr alloc',
      simpleAllocator.alloc size flags alloc = .ok (ptr, alloc') →
        (Refuses (fun mem => kmalloc simpleAllocator size flags ⟨alloc, mem⟩) ∨
            ReturnsSafely (fun mem => kmalloc simpleAllocator size flags ⟨alloc, mem⟩) ptr alloc'
              (flags &&& gfpZero ≠ 0) size ↔
          size > Arch.pageSize / 2 ∨ flags &&& gfpZero = 0 ∨ size = 0 ∨ ptr ≠ 0)) ∧
    (∀ nmemb size flags alloc ptr alloc',
      simpleAllocator.alloc (wrap32 (nmemb * size)) flags alloc = .ok (ptr, alloc') →
        (Refuses (fun mem => kcalloc simpleAllocator nmemb size flags ⟨alloc, mem⟩) ∨
            ReturnsSafely (fun mem => kcalloc simpleAllocator nmemb size flags ⟨alloc, mem⟩) ptr
              alloc' True (nmemb * size) ↔
          wrap32 (nmemb * size) > Arch.pageSize / 2 ∨ (ptr = 0 ∧ wrap32 (nmemb * size) = 0) ∨
            (ptr ≠ 0 ∧ nmemb * size < 2 ^ 32))) ∧
    (∀ cache alloc ptr alloc', cachingAllocator.alloc cache alloc = .ok (ptr, alloc') →
        (ReturnsSafely (fun mem => cacheAlloc cachingAllocator (some cache) ⟨alloc, mem⟩) ptr alloc'
            (cache.flags &&& gfpZero ≠ 0) cache.size ↔
          cache.flags &&& gfpZero = 0 ∨ cache.size = 0 ∨ ptr ≠ 0)) ∧
    (∀ s, allocPagesAt pageAllocator none s = .ok (eof, none, s)) ∧
    ∀ s, cacheAlloc cachingAllocator none s = .ok (0, s) :=
  ⟨fun _ _ _ _ room _ hsize halloc => allocPages_safe_iff halloc hsize room,
    fun _ _ _ _ _ halloc => kmalloc_safe_iff halloc,
    fun _ _ _ _ _ _ halloc => kcalloc_safe_iff halloc,
    fun _ _ _ _ halloc => cacheAlloc_safe_iff halloc, fun _ => rfl, fun _ => rfl⟩

/-- A page for the page interface over three pages, and a kilobyte for `kmalloc` over one. -/
theorem zeroed_allocation_safe_one_page :
    (∃ b b' : BuddyPmalloc,
      PagesSafely pmmAdapter ⟨0, 0x1000, gfpZero⟩ b 0 0x1000000 0x1000 b') ∧
    ∃ s s' : SlubVmalloc BuddyPmalloc,
      Refuses (fun mem => kmalloc (vmallocAdapter koffsetPvbridge) 1024 gfpZero ⟨s, mem⟩) ∨
        ReturnsSafely (fun mem => kmalloc (vmallocAdapter koffsetPvbridge) 1024 gfpZero ⟨s, mem⟩)
          0x81000c00 s' (gfpZero &&& gfpZero ≠ 0) 1024 := by
  have hpages : (do
      let b ← BuddyPmalloc.ctor (fun _ => 1) 0x1000000 Arch.pageSize 3
      let s ← (BuddyRun.start b).step (.free 0)
      let r ← pmmAdapter.alloc ⟨0, 0x1000, gfpZero⟩ s.alloc
      return (r.1, r.2.1)) = Except.ok (0, ⟨0x1000000, 0x1000, gfpZero⟩) := by decide +kernel
  obtain ⟨b₀, -, hpages⟩ := bind_eq_ok.1 hpages
  obtain ⟨b, -, hpages⟩ := bind_eq_ok.1 hpages
  obtain ⟨⟨ret, pages, b'⟩, halloc, hpages⟩ := bind_eq_ok.1 hpages
  cases Except.ok.inj hpages
  have hobject : (do
      let b ← BuddyPmalloc.ctor (fun _ => 1) 0x1000000 4096 1
      let s ← (BuddyRun.start b).step (.free 0)
      let r ← (vmallocAdapter koffsetPvbridge).alloc 1024 gfpZero
        (SlubRun.start 0x80100000 ⟨id, id⟩ (fun _ => 0) s.alloc).slub
      return r.1) = Except.ok 0x81000c00 := by decide +kernel
  obtain ⟨b₁, -, hobject⟩ := bind_eq_ok.1 hobject
  obtain ⟨s₁, -, hobject⟩ := bind_eq_ok.1 hobject
  obtain ⟨⟨ptr, s'⟩, hmalloc, hobject⟩ := bind_eq_ok.1 hobject
  obtain rfl := Except.ok.inj hobject
  obtain ⟨hsafe, hkmalloc, -⟩ := zeroed_allocation_safe_iff pmmAdapter
    (vmallocAdapter koffsetPvbridge) dummyCachingAllocator
  exact ⟨⟨_, b', (hsafe _ _ _ _ _ _ (by decide) halloc).2
      (Or.inr (Or.inr ⟨rfl, by decide, by decide, by decide⟩))⟩,
    _, s', (hkmalloc _ _ _ _ _ hmalloc).2 (Or.inr (Or.inr (Or.inr (by decide))))⟩

/-- An allocator with one object of sixteen bytes. -/
def sixteenBytes : SimpleAllocator Unit := ⟨fun _ _ s => .ok (0x81000000, s)⟩

/-- When allocation fails, all four write zeros: to `NULL`, or to where the request points.  The
installed allocator has one page for `2 ^ 44` bytes, and `0x10000001 * 16` wraps to 16. -/
theorem zeroes_after_failure :
    ¬ PagesSafely dummyPageAllocator ⟨0, 0x1000, gfpZero⟩ () eof 0 0 () ∧
    (∃ b b' : BuddyPmalloc, pmmAdapter.alloc ⟨0, 2 ^ 44, gfpZero⟩ b =
        .ok (0, ⟨0x1000000, 2 ^ 44, gfpZero⟩, b') ∧ (b'.pages 0).order = 0 ∧
      ¬ PagesSafely pmmAdapter ⟨0, 2 ^ 44, gfpZero⟩ b 0 0x1000000 0x1000 b') ∧
    (¬ Refuses (fun mem => kmalloc dummySimpleAllocator 16 gfpZero ⟨(), mem⟩) ∧
      ¬ ReturnsSafely (fun mem => kmalloc dummySimpleAllocator 16 gfpZero ⟨(), mem⟩) 0 ()
        (gfpZero &&& gfpZero ≠ 0) 16) ∧
    (¬ Refuses (fun mem => kcalloc dummySimpleAllocator 1 16 0 ⟨(), mem⟩) ∧
      ¬ ReturnsSafely (fun mem => kcalloc dummySimpleAllocator 1 16 0 ⟨(), mem⟩) 0 () True
        (1 * 16)) ∧
    (¬ Refuses (fun mem => kcalloc sixteenBytes 0x10000001 16 0 ⟨(), mem⟩) ∧
      ¬ ReturnsSafely (fun mem => kcalloc sixteenBytes 0x10000001 16 0 ⟨(), mem⟩) 0x81000000 () True
        (0x10000001 * 16)) ∧
    ¬ ReturnsSafely (fun mem => cacheAlloc dummyCachingAllocator (some ⟨16, gfpZero⟩) ⟨(), mem⟩)
      0 () (gfpZero &&& gfpZero ≠ 0) 16 := by
  have hrun : (do
      let b ← BuddyPmalloc.ctor (fun _ => 1) 0x1000000 Arch.pageSize 3
      let s ← (BuddyRun.start b).step (.free 0)
      let r ← pmmAdapter.alloc ⟨0, 2 ^ 44, gfpZero⟩ s.alloc
      return (r.1, r.2.1, (r.2.2.pages 0).order)) =
        Except.ok (0, ⟨0x1000000, 2 ^ 44, gfpZero⟩, 0) := by decide +kernel
  obtain ⟨b₀, -, hrun⟩ := bind_eq_ok.1 hrun
  obtain ⟨s, -, hrun⟩ := bind_eq_ok.1 hrun
  obtain ⟨⟨ret, pages, b'⟩, halloc, hrun⟩ := bind_eq_ok.1 hrun
  obtain ⟨rfl, hanswer⟩ := Prod.mk.inj (Except.ok.inj hrun)
  obtain ⟨rfl, horder⟩ := Prod.mk.inj hanswer
  refine ⟨fun h => ?_, ⟨s.alloc, b', halloc, horder, fun h => ?_⟩, not_or.1 fun h => ?_,
    not_or.1 fun h => ?_, not_or.1 fun h => ?_, fun h => ?_⟩
  · exact absurd ((allocPages_safe_iff rfl (by decide) 0).1 h) (by decide)
  · exact absurd ((allocPages_safe_iff halloc (by decide) 0x1000).1 h) (by decide)
  · exact absurd ((kmalloc_safe_iff rfl).1 h) (by decide)
  · exact absurd ((kcalloc_safe_iff rfl).1 h) (by decide)
  · exact absurd ((kcalloc_safe_iff rfl).1 h) (by decide)
  · exact absurd ((cacheAlloc_safe_iff rfl).1 h) (by decide)

end Aim
