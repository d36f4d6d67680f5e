/-
**The queue of early mappings.**

Before the kernel has an allocator, drivers and boot code queue the mappings they want in the boot
page tables: explicit entries with `early_mapping_add`, and entries at the two bump pointers
`mem_top` and `kmmap_top` with `early_mapping_add_memory` and `early_mapping_add_kmmap`.  One
pairwise test, `OVERLAP`, decides whether a new entry collides with a queued one.

The test sees an overlap exactly when the two entries start at different addresses and the lower
one ends below the top of the address space; two entries that start at the same address, or a
lower entry that ends at or past the top, go unnoticed.

Main definitions:

* `Aim.EarlyMapping`, `Aim.EarlyMappings` — `struct early_mapping`, and the queue with its tops;
* `Aim.EarlyMappings.add`, `Aim.EarlyMappings.addMemory`, `Aim.EarlyMappings.addKmmap` — the
  functions of `early_kmmap.c`;
* `Aim.EarlyMappings.run` — a sequence of calls, from `early_mapping_clear` on;
* `Aim.EarlyMapping.Clash`, `Aim.EarlyMapping.Recognised` — two entries that overlap, and two
  whose overlap the test sees.

Main results:

* `Aim.overlap_iff` — what `OVERLAP` tests;
* `Aim.EarlyMappings.step_spec` — a call refuses and changes nothing, or appends its entry;
* `Aim.EarlyMappings.run_sound_iff` — **the queue stays free of overlaps exactly when every
  overlap offered to it is one that the test sees.**
-/

import AimKernel.CArith

set_option relaxedAutoImplicit false
set_option autoImplicit false

namespace Aim

/-! ### Addresses -/

namespace Arch

/-- `BIGPAGE_SIZE`. -/
def bigPageSize : BitVec 64 := 1 <<< 21

/-- `KERN_BASE`. -/
def kernBase : BitVec 32 := 0x80000000

/-- `KMMAP_BASE`. -/
def kmmapBase : BitVec 32 := 0xf0000000

/-- `RESERVED_BASE`. -/
def reservedBase : BitVec 32 := 0xfffff000

end Arch

/-- `PTR2ADDR(x)`. -/
def ptr2addr (p : BitVec 32) : BitVec 64 := p.setWidth 64

/-- `BIGPAGE_OFF(x)`. -/
def bigPageOff (x : BitVec 64) : BitVec 64 := x &&& (Arch.bigPageSize - 1)

/-- `OVERLAP(st1, len1, st2, len2)`, on pointers. -/
def overlap (st1 len1 st2 len2 : BitVec 32) : Bool :=
  (decide (st1 > st2) && decide (st1 < st2 + len2)) ||
    (decide (st2 > st1) && decide (st2 < st1 + len1))

@[simp] theorem toNat_ptr2addr (p : BitVec 32) : (ptr2addr p).toNat = p.toNat := by
  rw [ptr2addr, BitVec.toNat_setWidth]
  exact Nat.mod_eq_of_lt (lt_trans p.isLt (by decide))

theorem bigPageOff_eq_zero_iff {x : BitVec 64} : bigPageOff x = 0 ↔ 2 ^ 21 ∣ x.toNat := by
  have hmask : (Arch.bigPageSize - 1).toNat = 2 ^ 21 - 1 := by decide
  rw [← Bits.and_low_mask_eq_zero_iff, bigPageOff, BitVec.toNat_eq, BitVec.toNat_and, hmask]
  rfl

/-! ### The data -/

/-- `struct early_mapping`. -/
structure EarlyMapping where
  paddr : BitVec 64
  vaddr : BitVec 32
  size : BitVec 32
  type : BitVec 32
deriving DecidableEq, Repr

namespace EarlyMapping

/-- `EARLY_MAPPING_MEMORY`: linear memory mappings. -/
def memory : BitVec 32 := 0

/-- `EARLY_MAPPING_KMMAP`: entries placed by `early_mapping_add_kmmap`. -/
def kmmap : BitVec 32 := 1

/-- `EARLY_MAPPING_DEVICE`. -/
def device : BitVec 32 := 4

/-- `EARLY_MAPPING_FRAMEBUFFER`. -/
def framebuffer : BitVec 32 := 5

/-- `early_mapping_valid`: early mappings use 2 MB pages. -/
def valid (entry : EarlyMapping) : Bool :=
  decide (bigPageOff entry.paddr = 0) && decide (bigPageOff (ptr2addr entry.vaddr) = 0) &&
    decide (bigPageOff (entry.size.setWidth 64) = 0)

theorem valid_iff {entry : EarlyMapping} : entry.valid = true ↔
    2 ^ 21 ∣ entry.paddr.toNat ∧ 2 ^ 21 ∣ entry.vaddr.toNat ∧ 2 ^ 21 ∣ entry.size.toNat := by
  have hsize := toNat_ptr2addr entry.size
  rw [ptr2addr] at hsize
  rw [valid, Bool.and_eq_true, Bool.and_eq_true, decide_eq_true_iff, decide_eq_true_iff,
    decide_eq_true_iff, bigPageOff_eq_zero_iff, bigPageOff_eq_zero_iff, bigPageOff_eq_zero_iff,
    toNat_ptr2addr, hsize, and_assoc]

/-- The end of the virtual range, in exact arithmetic. -/
def stop (entry : EarlyMapping) : ℕ := entry.vaddr.toNat + entry.size.toNat

/-- Two entries of non-zero size whose virtual ranges overlap. -/
def Clash (e q : EarlyMapping) : Prop :=
  e.size ≠ 0 ∧ q.size ≠ 0 ∧ e.vaddr.toNat < q.stop ∧ q.vaddr.toNat < e.stop

/-- The lower entry reaches past the start of the higher one and ends below the top of the address
space. -/
def Recognised (e q : EarlyMapping) : Prop :=
  (q.vaddr.toNat < e.vaddr.toNat ∧ e.vaddr.toNat < q.stop ∧ q.stop < 2 ^ 32) ∨
    (e.vaddr.toNat < q.vaddr.toNat ∧ q.vaddr.toNat < e.stop ∧ e.stop < 2 ^ 32)

end EarlyMapping

/-- One half of the test: the sum wraps exactly when the lower range ends at or past the top. -/
theorem lt_add_iff {st1 st2 len2 : BitVec 32} (h : st2.toNat < st1.toNat) :
    st1 < st2 + len2 ↔
      st1.toNat < st2.toNat + len2.toNat ∧ st2.toNat + len2.toNat < 2 ^ 32 := by
  have h1 := st1.isLt
  have h2 := st2.isLt
  have h3 := len2.isLt
  rw [BitVec.lt_def, BitVec.toNat_add]
  omega

/-- **What `OVERLAP` tests.** -/
theorem overlap_iff {e q : EarlyMapping} :
    overlap e.vaddr e.size q.vaddr q.size = true ↔ e.Recognised q := by
  simp only [overlap, EarlyMapping.Recognised, EarlyMapping.stop, Bool.or_eq_true,
    Bool.and_eq_true, decide_eq_true_iff, gt_iff_lt]
  rw [BitVec.lt_def, BitVec.lt_def]
  constructor
  · rintro (⟨hlt, h⟩ | ⟨hlt, h⟩)
    · exact Or.inl ⟨hlt, (lt_add_iff hlt).1 h⟩
    · exact Or.inr ⟨hlt, (lt_add_iff hlt).1 h⟩
  · rintro (⟨hlt, h⟩ | ⟨hlt, h⟩)
    · exact Or.inl ⟨hlt, (lt_add_iff hlt).2 h⟩
    · exact Or.inr ⟨hlt, (lt_add_iff hlt).2 h⟩

/-- `queue` with its first `queue_size` entries, `mem_top` and `kmmap_top`. -/
structure EarlyMappings where
  queue : List EarlyMapping
  memTop : BitVec 32
  kmmapTop : BitVec 32
deriving DecidableEq, Repr

/-! ### The operations -/

/-- `EARLY_MAPPING_QUEUE_LENGTH`. -/
def earlyMappingQueueLength : ℕ := 10

/-- `ENOMEM`. -/
def ENOMEM : ℤ := 12

/-- `EINVAL`. -/
def EINVAL : ℤ := 22

namespace EarlyMappings

/-- `early_mapping_clear`. -/
def clear : EarlyMappings where
  queue := []
  memTop := Arch.kernBase
  kmmapTop := Arch.kmmapBase

/-- `early_mapping_add`. -/
def add (s : EarlyMappings) (entry : EarlyMapping) : Outcome (ℤ × EarlyMappings) := do
  assert (s.queue.length ≤ earlyMappingQueueLength) "queue_size <= EARLY_MAPPING_QUEUE_LENGTH"
  if s.queue.length = earlyMappingQueueLength then
    return (-ENOMEM, s)
  if entry.valid = false then
    return (-EINVAL, s)
  if s.queue.any fun q => overlap entry.vaddr entry.size q.vaddr q.size then
    return (-EINVAL, s)
  return (0, { s with queue := s.queue ++ [entry] })

/-- The entry that `early_mapping_add_memory` builds; its size is cut at `KMMAP_BASE`. -/
def memoryEntry (s : EarlyMappings) (base : BitVec 64) (size : BitVec 32) : EarlyMapping where
  paddr := base
  vaddr := s.memTop
  size := if size > Arch.kmmapBase - s.memTop then Arch.kmmapBase - s.memTop else size
  type := EarlyMapping.memory

/-- `early_mapping_add_memory`. -/
def addMemory (s : EarlyMappings) (base : BitVec 64) (size : BitVec 32) :
    Outcome (BitVec 32 × EarlyMappings) :=
  if s.memTop ≥ Arch.kmmapBase then
    return (0, s)
  else do
    let (ret, s') ← s.add (s.memoryEntry base size)
    if ret < 0 then
      return (0, s')
    return ((s.memoryEntry base size).size,
      { s' with memTop := s'.memTop + (s.memoryEntry base size).size })

/-- The entry that `early_mapping_add_kmmap` builds. -/
def kmmapEntry (s : EarlyMappings) (base : BitVec 64) (size : BitVec 32) : EarlyMapping where
  paddr := base
  vaddr := s.kmmapTop
  size := size
  type := EarlyMapping.kmmap

/-- `early_mapping_add_kmmap`; `NULL` is 0. -/
def addKmmap (s : EarlyMappings) (base : BitVec 64) (size : BitVec 32) :
    Outcome (BitVec 32 × EarlyMappings) :=
  if s.kmmapTop ≥ Arch.reservedBase then
    return (0, s)
  else if size > Arch.reservedBase - s.kmmapTop then
    return (0, s)
  else do
    let (ret, s') ← s.add (s.kmmapEntry base size)
    if ret < 0 then
      return (0, s')
    return ((s.kmmapEntry base size).vaddr, { s' with kmmapTop := s'.kmmapTop + size })

end EarlyMappings

/-! ### Runs -/

/-- The calls that early boot code makes. -/
inductive MappingCall
  | add (entry : EarlyMapping)
  | addMemory (base : BitVec 64) (size : BitVec 32)
  | addKmmap (base : BitVec 64) (size : BitVec 32)
deriving DecidableEq, Repr

/-- What a call returns. -/
inductive MappingReply
  | code (ret : ℤ)
  | size (n : BitVec 32)
  | ptr (p : BitVec 32)
deriving DecidableEq, Repr

/-- The caller is told that nothing was mapped. -/
def MappingCall.Refused : MappingCall → MappingReply → Prop
  | .add _, reply => ∃ ret < 0, reply = .code ret
  | .addMemory _ size, reply => size ≠ 0 ∧ reply = .size 0
  | .addKmmap _ _, reply => reply = .ptr 0

namespace EarlyMappings

/-- One call. -/
def step (s : EarlyMappings) : MappingCall → Outcome (MappingReply × EarlyMappings)
  | .add entry => do
    let (ret, s) ← s.add entry
    return (.code ret, s)
  | .addMemory base size => do
    let (n, s) ← s.addMemory base size
    return (.size n, s)
  | .addKmmap base size => do
    let (p, s) ← s.addKmmap base size
    return (.ptr p, s)

/-- A sequence of calls after `early_mapping_clear`. -/
def run (calls : List MappingCall) : Outcome EarlyMappings :=
  calls.foldlM (fun s call => do
    let answer ← s.step call
    return answer.2) clear

/-- The entry that a call offers to the queue. -/
def offer (s : EarlyMappings) : MappingCall → Option EarlyMapping
  | .add entry => some entry
  | .addMemory base size =>
    if s.memTop ≥ Arch.kmmapBase then none else some (s.memoryEntry base size)
  | .addKmmap base size =>
    if s.kmmapTop ≥ Arch.reservedBase ∨ size > Arch.reservedBase - s.kmmapTop then none
    else some (s.kmmapEntry base size)

/-- The queue takes an entry. -/
def Admits (s : EarlyMappings) (entry : EarlyMapping) : Prop :=
  s.queue.length ≠ earlyMappingQueueLength ∧ entry.valid = true ∧
    ∀ q ∈ s.queue, ¬ entry.Recognised q

/-! ### One call -/

/-- What holds between calls, whatever is offered. -/
structure Inv (s : EarlyMappings) : Prop where
  capacity : s.queue.length ≤ earlyMappingQueueLength
  valid : ∀ q ∈ s.queue, q.valid = true
  top : Arch.kmmapBase ≤ s.kmmapTop

theorem inv_clear : Inv clear := ⟨by decide, by simp [clear], by decide⟩

/-- `early_mapping_add` appends an entry that the queue admits. -/
theorem add_of_admits {s : EarlyMappings} {entry : EarlyMapping}
    (hs : s.queue.length ≤ earlyMappingQueueLength) (h : s.Admits entry) :
    s.add entry = .ok (0, { s with queue := s.queue ++ [entry] }) := by
  obtain ⟨hroom, hvalid, hclear⟩ := h
  have hany : (s.queue.any fun q => overlap entry.vaddr entry.size q.vaddr q.size) = false := by
    rw [List.any_eq_false]
    intro q hq hover
    exact hclear q hq (overlap_iff.1 hover)
  rw [add, assert_bind hs, if_neg hroom, if_neg (by simp [hvalid]), if_neg (by simp [hany])]
  rfl

/-- It refuses every other entry with a negative code. -/
theorem add_of_not_admits {s : EarlyMappings} {entry : EarlyMapping}
    (hs : s.queue.length ≤ earlyMappingQueueLength) (h : ¬ s.Admits entry) :
    ∃ ret < 0, s.add entry = .ok (ret, s) := by
  rw [add, assert_bind hs]
  by_cases hfull : s.queue.length = earlyMappingQueueLength
  · exact ⟨-ENOMEM, by decide, by rw [if_pos hfull]; rfl⟩
  · refine ⟨-EINVAL, by decide, ?_⟩
    rw [if_neg hfull]
    by_cases hvalid : entry.valid = false
    · rw [if_pos hvalid]
      rfl
    · have hany : (s.queue.any fun q => overlap entry.vaddr entry.size q.vaddr q.size) = true := by
        by_contra hnone
        refine h ⟨hfull, by simpa using hvalid, fun q hq hrec => hnone ?_⟩
        exact List.any_eq_true.2 ⟨q, hq, overlap_iff.2 hrec⟩
      rw [if_neg hvalid, if_pos hany]
      rfl

/-- Below the base of the kernel maps there is room for a memory mapping. -/
theorem memoryEntry_size_ne_zero {s : EarlyMappings} {base : BitVec 64} {size : BitVec 32}
    (htop : ¬ s.memTop ≥ Arch.kmmapBase) (hsize : size ≠ 0) : (s.memoryEntry base size).size ≠ 0 := by
  rw [memoryEntry]
  dsimp only
  split
  · have hbase : Arch.kmmapBase.toNat = 0xf0000000 := by decide
    intro h
    bv_omega
  · exact hsize

/-- The bump of `kmmap_top` stays above its base. -/
theorem kmmapBase_le_add {top size : BitVec 32} (hbase : Arch.kmmapBase ≤ top)
    (htop : ¬ top ≥ Arch.reservedBase) (hsize : ¬ size > Arch.reservedBase - top) :
    Arch.kmmapBase ≤ top + size := by
  simp only [Arch.kmmapBase, Arch.reservedBase, ge_iff_le, gt_iff_lt] at *
  bv_omega

/-- An admitted entry keeps the queue within its capacity and valid. -/
theorem Inv.append {s s' : EarlyMappings} {entry : EarlyMapping} (hs : Inv s)
    (h : s.Admits entry) (hqueue : s'.queue = s.queue ++ [entry])
    (htop : Arch.kmmapBase ≤ s'.kmmapTop) : Inv s' := by
  have hcap := hs.capacity
  have hroom := h.1
  refine ⟨?_, ?_, htop⟩
  · rw [hqueue, List.length_append, List.length_singleton]
    omega
  · intro q hq
    rw [hqueue, List.mem_append, List.mem_singleton] at hq
    rcases hq with hq | rfl
    · exact hs.valid q hq
    · exact h.2.1

/-- The outcome of a call. -/
def Answered (s : EarlyMappings) (call : MappingCall) (reply : MappingReply)
    (s' : EarlyMappings) : Prop :=
  ((∀ e, s.offer call = some e → ¬ s.Admits e) ∧ s' = s) ∨
    ∃ e, s.offer call = some e ∧ s.Admits e ∧ s'.queue = s.queue ++ [e] ∧ Inv s' ∧
      ¬ call.Refused reply

theorem step_add {s : EarlyMappings} (hs : Inv s) (entry : EarlyMapping) :
    ∃ reply s', s.step (.add entry) = .ok (reply, s') ∧
      s.Answered (.add entry) reply s' := by
  by_cases h : s.Admits entry
  · refine ⟨.code 0, { s with queue := s.queue ++ [entry] }, ?_, Or.inr
      ⟨entry, rfl, h, rfl, hs.append h rfl hs.top, ?_⟩⟩
    · rw [step, add_of_admits hs.capacity h]
      rfl
    · rintro ⟨ret, hret, ⟨⟩⟩
      exact absurd hret (by decide)
  · obtain ⟨ret, hret, hadd⟩ := add_of_not_admits hs.capacity h
    refine ⟨.code ret, s, ?_, Or.inl ⟨?_, rfl⟩⟩
    · rw [step, hadd]
      rfl
    · rintro e ⟨⟩
      exact h

theorem step_addMemory {s : EarlyMappings} (hs : Inv s) (base : BitVec 64) (size : BitVec 32) :
    ∃ reply s', s.step (.addMemory base size) = .ok (reply, s') ∧
      s.Answered (.addMemory base size) reply s' := by
  by_cases htop : s.memTop ≥ Arch.kmmapBase
  · refine ⟨.size 0, s, ?_, Or.inl ⟨?_, rfl⟩⟩
    · rw [step, addMemory, if_pos htop]
      rfl
    · intro e he
      rw [offer, if_pos htop] at he
      cases he
  · have hoffer : s.offer (.addMemory base size) = some (s.memoryEntry base size) := by
      rw [offer, if_neg htop]
    by_cases h : s.Admits (s.memoryEntry base size)
    · refine ⟨.size (s.memoryEntry base size).size,
        ⟨s.queue ++ [s.memoryEntry base size], s.memTop + (s.memoryEntry base size).size,
          s.kmmapTop⟩, ?_, Or.inr ⟨_, hoffer, h, rfl, hs.append h rfl hs.top, ?_⟩⟩
      · rw [step, addMemory, if_neg htop, add_of_admits hs.capacity h]
        rfl
      · rintro ⟨hsize, hreply⟩
        exact memoryEntry_size_ne_zero htop hsize (MappingReply.size.inj hreply)
    · obtain ⟨ret, hret, hadd⟩ := add_of_not_admits hs.capacity h
      refine ⟨.size 0, s, ?_, Or.inl ⟨?_, rfl⟩⟩
      · rw [step, addMemory, if_neg htop, hadd, ok_bind]
        simp only [if_pos hret]
        rfl
      · intro e he
        rw [hoffer] at he
        cases he
        exact h

theorem step_addKmmap {s : EarlyMappings} (hs : Inv s) (base : BitVec 64) (size : BitVec 32) :
    ∃ reply s', s.step (.addKmmap base size) = .ok (reply, s') ∧
      s.Answered (.addKmmap base size) reply s' := by
  by_cases hnone : s.kmmapTop ≥ Arch.reservedBase ∨ size > Arch.reservedBase - s.kmmapTop
  · refine ⟨.ptr 0, s, ?_, Or.inl ⟨?_, rfl⟩⟩
    · rw [step, addKmmap]
      rcases hnone with htop | hsize
      · rw [if_pos htop]
        rfl
      · rw [if_pos hsize, ite_self]
        rfl
    · intro e he
      rw [offer, if_pos hnone] at he
      cases he
  · have hoffer : s.offer (.addKmmap base size) = some (s.kmmapEntry base size) := by
      rw [offer, if_neg hnone]
    obtain ⟨htop, hsize⟩ := not_or.1 hnone
    by_cases h : s.Admits (s.kmmapEntry base size)
    · refine ⟨.ptr s.kmmapTop,
        ⟨s.queue ++ [s.kmmapEntry base size], s.memTop, s.kmmapTop + size⟩, ?_,
        Or.inr ⟨_, hoffer, h, rfl, hs.append h rfl (kmmapBase_le_add hs.top htop hsize), ?_⟩⟩
      · rw [step, addKmmap, if_neg htop, if_neg hsize, add_of_admits hs.capacity h]
        rfl
      · intro hreply
        have hzero : s.kmmapTop = 0 := MappingReply.ptr.inj hreply
        have hbase := hs.top
        rw [hzero] at hbase
        exact absurd hbase (by decide)
    · obtain ⟨ret, hret, hadd⟩ := add_of_not_admits hs.capacity h
      refine ⟨.ptr 0, s, ?_, Or.inl ⟨?_, rfl⟩⟩
      · rw [step, addKmmap, if_neg htop, if_neg hsize, hadd, ok_bind]
        simp only [if_pos hret]
        rfl
      · intro e he
        rw [hoffer] at he
        cases he
        exact h

/-- **A call refuses and changes nothing, or appends the entry it offers.** -/
theorem step_spec {s : EarlyMappings} (hs : Inv s) (call : MappingCall) :
    ∃ reply s', s.step call = .ok (reply, s') ∧ s.Answered call reply s' := by
  cases call with
  | add entry => exact step_add hs entry
  | addMemory base size => exact step_addMemory hs base size
  | addKmmap base size => exact step_addKmmap hs base size

theorem Answered.inv {s s' : EarlyMappings} {call : MappingCall} {reply : MappingReply}
    (h : s.Answered call reply s') (hs : Inv s) : Inv s' := by
  rcases h with ⟨-, rfl⟩ | ⟨e, -, -, -, hs', -⟩
  · exact hs
  · exact hs'

/-- A call that is refused, or that adds no entry, changes nothing. -/
theorem Answered.unchanged {s s' : EarlyMappings} {call : MappingCall} {reply : MappingReply}
    (h : s.Answered call reply s') (hcall : call.Refused reply ∨ s'.queue = s.queue) : s' = s := by
  rcases h with ⟨-, rfl⟩ | ⟨e, -, -, hqueue, -, hnot⟩
  · rfl
  · rcases hcall with hcall | hcall
    · exact absurd hcall hnot
    · rw [hqueue] at hcall
      simp at hcall

/-! ### Runs -/

/-- The virtual ranges of the entries of non-zero size are pairwise disjoint, every entry is valid
and the queue is within its capacity. -/
structure Sound (s : EarlyMappings) : Prop where
  disjoint : s.queue.Pairwise fun q e => ¬ e.Clash q
  valid : ∀ q ∈ s.queue, q.valid = true
  capacity : s.queue.length ≤ earlyMappingQueueLength

/-- The run succeeds, ends in a sound queue, and on the way no call that is refused or that adds
no entry has changed anything. -/
def RunSound (calls : List MappingCall) : Prop :=
  (∃ s, run calls = .ok s ∧ s.Sound) ∧
    ∀ before call after, calls = before ++ call :: after → ∀ s reply s', run before = .ok s →
      s.step call = .ok (reply, s') → (call.Refused reply ∨ s'.queue = s.queue) → s' = s

/-- If the queue has room, and the offered entry is valid and overlaps an entry of the queue, then
the overlap of the offered entry with some entry of the queue shows: the two start at different
addresses, and the lower one ends below the top of the address space. -/
def Recognises (s : EarlyMappings) (call : MappingCall) : Prop :=
  ∀ e, s.offer call = some e → s.queue.length ≠ earlyMappingQueueLength → e.valid = true →
    (∃ q ∈ s.queue, e.Clash q) → ∃ q ∈ s.queue, e.Recognised q

theorem run_nil : run [] = .ok clear := rfl

theorem run_append (calls : List MappingCall) (call : MappingCall) :
    run (calls ++ [call]) = run calls >>= fun s => s.step call >>= fun answer => .ok answer.2 := by
  simp only [run, List.foldlM_append, List.foldlM_cons, List.foldlM_nil, bind_pure]
  rfl

/-- Every run succeeds. -/
theorem exists_run (calls : List MappingCall) : ∃ s, run calls = .ok s ∧ Inv s := by
  induction calls using List.reverseRecOn with
  | nil => exact ⟨clear, run_nil, inv_clear⟩
  | append_singleton calls call ih =>
      obtain ⟨s, hrun, hs⟩ := ih
      obtain ⟨reply, s', hstep, hanswer⟩ := step_spec hs call
      refine ⟨s', ?_, hanswer.inv hs⟩
      rw [run_append, hrun, ok_bind, hstep, ok_bind]

/-- One more call keeps the queue sound exactly when its overlap, if there is one, shows. -/
theorem sound_step_iff {s s' : EarlyMappings} {call : MappingCall} {reply : MappingReply}
    (hs : Inv s) (h : s.Answered call reply s') :
    s'.Sound ↔ s.Sound ∧ s.Recognises call := by
  rcases h with ⟨hnone, rfl⟩ | ⟨e, hoffer, hadmits, hqueue, hs', -⟩
  · -- the offered entry, if any, is refused: by the test, when the queue has room for it
    refine ⟨fun hsound => ⟨hsound, fun e hoffer hroom hvalid _ => ?_⟩, And.left⟩
    by_contra hclear
    push Not at hclear
    exact hnone e hoffer ⟨hroom, hvalid, hclear⟩
  · constructor
    · intro hsound
      have hdisjoint := hsound.disjoint
      rw [hqueue, List.pairwise_append] at hdisjoint
      obtain ⟨hold, -, hcross⟩ := hdisjoint
      refine ⟨⟨hold, hs.valid, hs.capacity⟩, fun e' hoffer' _ _ hclash => ?_⟩
      rw [hoffer] at hoffer'
      obtain rfl := Option.some.inj hoffer'
      obtain ⟨q, hq, hclash⟩ := hclash
      exact absurd hclash (hcross q hq e (List.mem_singleton_self e))
    · rintro ⟨hsound, hrec⟩
      refine ⟨?_, hs'.valid, hs'.capacity⟩
      rw [hqueue, List.pairwise_append]
      refine ⟨hsound.disjoint, List.pairwise_singleton _ _, fun q hq e' he' hclash => ?_⟩
      obtain rfl := List.mem_singleton.1 he'
      obtain ⟨q', hq', hrec'⟩ := hrec e' hoffer hadmits.1 hadmits.2.1 ⟨q, hq, hclash⟩
      exact hadmits.2.2 q' hq' hrec'

/-- Every overlap offered during a run shows. -/
def RunRecognises (calls : List MappingCall) : Prop :=
  ∀ before call after, calls = before ++ call :: after → ∀ s, run before = .ok s →
    s.Recognises call

/-- A property of the moments of a longer run. -/
theorem forall_moment_append {P : List MappingCall → MappingCall → Prop}
    {calls : List MappingCall} {call : MappingCall} :
    (∀ before c after, calls ++ [call] = before ++ c :: after → P before c) ↔
      (∀ before c after, calls = before ++ c :: after → P before c) ∧ P calls call := by
  constructor
  · intro h
    refine ⟨fun before c after heq => h before c (after ++ [call]) ?_, h calls call [] rfl⟩
    rw [heq, List.append_assoc, List.cons_append]
  · rintro ⟨hold, hnew⟩ before c after heq
    rcases List.eq_nil_or_concat after with rfl | ⟨after, c', rfl⟩
    · obtain ⟨rfl, hc⟩ := List.append_inj' heq rfl
      obtain rfl := List.singleton_inj.1 hc
      exact hnew
    · rw [List.concat_eq_append, ← List.cons_append, ← List.append_assoc] at heq
      exact hold before c after (List.append_inj_left' heq rfl)

/-- **The queue stays free of overlaps exactly when every overlap offered to it is one that the
test sees.**  Everything else holds of every run: entries are valid, the queue stays within its
capacity, and a refused call changes nothing. -/
theorem run_sound_iff (calls : List MappingCall) : RunSound calls ↔ RunRecognises calls := by
  induction calls using List.reverseRecOn with
  | nil =>
      refine ⟨fun _ before call after heq => ?_, fun _ => ⟨⟨clear, run_nil, ?_⟩, ?_⟩⟩
      · simp at heq
      · exact ⟨List.Pairwise.nil, inv_clear.valid, inv_clear.capacity⟩
      · intro before call after heq
        simp at heq
  | append_singleton calls call ih =>
      obtain ⟨s, hrun, hs⟩ := exists_run calls
      obtain ⟨reply, s', hstep, hanswer⟩ := step_spec hs call
      have hrun' : run (calls ++ [call]) = .ok s' := by
        rw [run_append, hrun, ok_bind, hstep, ok_bind]
      have hunchanged : ∀ t reply t', run calls = .ok t → t.step call = .ok (reply, t') →
          (call.Refused reply ∨ t'.queue = t.queue) → t' = t := by
        intro t reply₁ t' ht hstep₁
        obtain rfl := Except.ok.inj (hrun.symm.trans ht)
        obtain ⟨rfl, rfl⟩ := Prod.mk.inj (Except.ok.inj (hstep.symm.trans hstep₁))
        exact hanswer.unchanged
      calc RunSound (calls ++ [call])
          ↔ s'.Sound ∧ ∀ before c after, calls ++ [call] = before ++ c :: after →
              ∀ t reply t', run before = .ok t → t.step c = .ok (reply, t') →
                (c.Refused reply ∨ t'.queue = t.queue) → t' = t := by
            simp [RunSound, hrun']
        _ ↔ (s.Sound ∧ s.Recognises call) ∧ ∀ before c after, calls = before ++ c :: after →
              ∀ t reply t', run before = .ok t → t.step c = .ok (reply, t') →
                (c.Refused reply ∨ t'.queue = t.queue) → t' = t := by
            rw [sound_step_iff hs hanswer, forall_moment_append]
            exact and_congr_right fun _ => and_iff_left hunchanged
        _ ↔ RunSound calls ∧ s.Recognises call := by
            rw [RunSound, hrun]
            simp only [Except.ok.injEq, exists_eq_left']
            tauto
        _ ↔ RunRecognises calls ∧ ∀ t, run calls = .ok t → t.Recognises call := by
            rw [ih, hrun]
            simp
        _ ↔ RunRecognises (calls ++ [call]) := by
            rw [RunRecognises, RunRecognises, forall_moment_append]

/-- The same 2 MB entry added twice is queued twice. -/
theorem run_twice_not_sound :
    ¬ RunSound [.add ⟨0, 0, 0x200000, EarlyMapping.memory⟩,
      .add ⟨0, 0, 0x200000, EarlyMapping.memory⟩] := by
  rintro ⟨⟨s, hrun, hsound⟩, -⟩
  have htwice : run [.add ⟨0, 0, 0x200000, EarlyMapping.memory⟩,
      .add ⟨0, 0, 0x200000, EarlyMapping.memory⟩] =
      .ok ⟨[⟨0, 0, 0x200000, EarlyMapping.memory⟩, ⟨0, 0, 0x200000, EarlyMapping.memory⟩],
        Arch.kernBase, Arch.kmmapBase⟩ := by decide
  obtain rfl := Except.ok.inj (htwice.symm.trans hrun)
  have hdisjoint := hsound.disjoint
  simp only [List.pairwise_cons, List.mem_singleton, forall_eq] at hdisjoint
  exact hdisjoint.1 (by unfold EarlyMapping.Clash EarlyMapping.stop; decide)

end EarlyMappings

end Aim
