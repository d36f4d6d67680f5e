/-
**The records of the buddy allocator in memory.**

`pages[]` is an array of `struct buddy_page`, which the constructor asks an allocator for.  The
functions that fill pages reach it through the same addresses as any other memory.  Here are the
bytes of a record, and an allocator that reads its records from memory; the links of the free lists,
which are in the records as well, stay lists of indices.

Main definitions:

* `Aim.BuddyPage.byte`, `Aim.recordAt` — a record as bytes, and the record at an address;
* `Aim.BuddyPmalloc.store`, `Aim.BuddyPmalloc.load` — writing the records and reading them;
* `Aim.BuddyPage.InRange` — what the fields can hold;
* `Aim.BuddyPmalloc.HoldsRecords`, `Aim.BuddyPmalloc.Clear` — pages that records are on, and blocks
  without such pages.

Main results:

* `Aim.BuddyPmalloc.load_of_stored` — **records are read as written** from memory that differs only
  elsewhere;
* `Aim.BuddyPmalloc.inRange_of_mallocPage`, `Aim.BuddyPmalloc.inRange_of_free` — requests write
  nothing that the fields cannot hold.
-/

import AimKernel.ByteMemory
import AimKernel.PageAllocator
import AimKernel.StaleRecords

set_option relaxedAutoImplicit false
set_option autoImplicit false

namespace Aim

open DyadicBlocks BuddyPmalloc ByteMemory

/-! ### One record -/

/-- The bytes of `struct buddy_page`, those of the links left out. -/
def BuddyPage.byte (pp : BuddyPage) (k : ℕ) : Option ℕ :=
  if k < 8 then some (byteOf pp.byteSize k)
  else if k < 16 then none
  else if k < 18 then some (byteOf pp.order (k - 16))
  else if k < 20 then some (byteOf pp.inUse.toNat (k - 18))
  else some (byteOf pp.curPageCount (k - 20))

/-- The record at an address.  No order is negative. -/
def recordAt (mem : Memory) (a : ℕ) : BuddyPage where
  byteSize := readNat mem a 8
  order := readNat mem (a + 16) 2
  inUse := decide (readNat mem (a + 18) 2 ≠ 0)
  curPageCount := readNat mem (a + 20) 4

/-- `byte_size` is an `lsize_t`, `order` a `short`, `cur_page_count` a `size_t`. -/
structure BuddyPage.InRange (pp : BuddyPage) : Prop where
  byteSize : pp.byteSize < 2 ^ 64
  order : pp.order < 2 ^ 15
  curPageCount : pp.curPageCount < 2 ^ 32

section Record

variable {mem mem' : Memory} {a : ℕ} {pp : BuddyPage}

theorem recordAt_congr (h : ∀ k < sizeofBuddyPage, mem' (a + k) = mem (a + k)) :
    recordAt mem' a = recordAt mem a := by
  have hfield : ∀ c w, c + w ≤ sizeofBuddyPage → readNat mem' (a + c) w = readNat mem (a + c) w :=
    fun c w hcw => readNat_congr w _ fun k hk => by
      rw [Nat.add_assoc]
      exact h (c + k) (by omega)
  rw [recordAt, recordAt, ← Nat.add_zero a, hfield 0 8 (by decide), Nat.add_zero,
    hfield 16 2 (by decide), hfield 18 2 (by decide), hfield 20 4 (by decide)]

/-- **A record is read as written.** -/
theorem recordAt_of_bytes (hr : pp.InRange)
    (h : ∀ k < sizeofBuddyPage, ∀ v, pp.byte k = some v → mem (a + k) = v) :
    recordAt mem a = pp := by
  have hsize : readNat mem a 8 = pp.byteSize := by
    rw [readNat_of_bytes 8 a pp.byteSize fun k hk => h k (by rw [sizeofBuddyPage]; omega) _ ?_]
    · exact Nat.mod_eq_of_lt hr.byteSize
    · rw [BuddyPage.byte, if_pos hk]
  have horder : readNat mem (a + 16) 2 = pp.order := by
    rw [readNat_of_bytes 2 (a + 16) pp.order fun k hk => ?_]
    · exact Nat.mod_eq_of_lt (hr.order.trans (by decide))
    · rw [Nat.add_assoc]
      refine h (16 + k) (by rw [sizeofBuddyPage]; omega) _ ?_
      rw [BuddyPage.byte, if_neg (by omega), if_neg (by omega), if_pos (by omega),
        Nat.add_sub_cancel_left]
  have huse : readNat mem (a + 18) 2 = pp.inUse.toNat := by
    rw [readNat_of_bytes 2 (a + 18) pp.inUse.toNat fun k hk => ?_]
    · exact Nat.mod_eq_of_lt (lt_of_le_of_lt pp.inUse.toNat_le (by decide))
    · rw [Nat.add_assoc]
      refine h (18 + k) (by rw [sizeofBuddyPage]; omega) _ ?_
      rw [BuddyPage.byte, if_neg (by omega), if_neg (by omega), if_neg (by omega),
        if_pos (by omega), Nat.add_sub_cancel_left]
  have hcount : readNat mem (a + 20) 4 = pp.curPageCount := by
    rw [readNat_of_bytes 4 (a + 20) pp.curPageCount fun k hk => ?_]
    · exact Nat.mod_eq_of_lt hr.curPageCount
    · rw [Nat.add_assoc]
      refine h (20 + k) (by rw [sizeofBuddyPage]; omega) _ ?_
      rw [BuddyPage.byte, if_neg (by omega), if_neg (by omega), if_neg (by omega),
        if_neg (by omega), Nat.add_sub_cancel_left]
  have hflag : decide (pp.inUse.toNat ≠ 0) = pp.inUse := by
    cases pp.inUse <;> rfl
  rw [recordAt, hsize, horder, huse, hcount, hflag]

end Record

/-! ### The array -/

namespace BuddyPmalloc

/-- The bytes of `pages[]`, which starts at `table`. -/
def InRecords (b : BuddyPmalloc) (table a : ℕ) : Prop :=
  table ≤ a ∧ a < table + sizeofBuddyPage * b.pageCount

instance (b : BuddyPmalloc) (table a : ℕ) : Decidable (b.InRecords table a) := instDecidableAnd

/-- Memory with the records as the allocator has them. -/
def store (b : BuddyPmalloc) (table : ℕ) (mem : Memory) : Memory := fun a =>
  if b.InRecords table a then
    ((b.pages ((a - table) / sizeofBuddyPage)).byte ((a - table) % sizeofBuddyPage)).getD (mem a)
  else mem a

/-- The allocator with the records as they are in memory. -/
def load (b : BuddyPmalloc) (table : ℕ) (mem : Memory) : BuddyPmalloc :=
  { b with pages := fun i =>
      if i < b.pageCount then recordAt mem (table + sizeofBuddyPage * i) else b.pages i }

/-- A page of the pool on which there are records. -/
def HoldsRecords (b : BuddyPmalloc) (table j : ℕ) : Prop :=
  ∃ x < Arch.pageSize, b.InRecords table (pa2kva (b.pageAddr j) + x)

/-- No page of a block has records on it. -/
def Clear (b : BuddyPmalloc) (table index order : ℕ) : Prop :=
  ∀ j, index ≤ j → j < index + 2 ^ order → ¬ b.HoldsRecords table j

section Array

variable {b b' : BuddyPmalloc} {table : ℕ} {mem mem' : Memory}

theorem SameSetup.inRecords_iff (h : SameSetup b b') {a : ℕ} :
    b'.InRecords table a ↔ b.InRecords table a := by
  rw [InRecords, InRecords, h.pageCount]

theorem SameSetup.holdsRecords_iff (h : SameSetup b b') {j : ℕ} :
    b'.HoldsRecords table j ↔ b.HoldsRecords table j := by
  simp only [HoldsRecords, h.inRecords_iff, h.pageAddr_eq]

theorem inRecords_byte {i k : ℕ} (hi : i < b.pageCount) (hk : k < sizeofBuddyPage) :
    b.InRecords table (table + sizeofBuddyPage * i + k) := by
  have hle : sizeofBuddyPage * (i + 1) ≤ sizeofBuddyPage * b.pageCount := Nat.mul_le_mul_left _ hi
  rw [Nat.mul_succ] at hle
  constructor <;> omega

theorem store_byte {i k v : ℕ} (hi : i < b.pageCount) (hk : k < sizeofBuddyPage)
    (hv : (b.pages i).byte k = some v) :
    b.store table mem (table + sizeofBuddyPage * i + k) = v := by
  have hoff : table + sizeofBuddyPage * i + k - table = sizeofBuddyPage * i + k := by omega
  rw [store, if_pos (inRecords_byte hi hk), hoff, Nat.mul_add_div (by decide), Nat.mul_add_mod,
    Nat.div_eq_of_lt hk, Nat.mod_eq_of_lt hk, Nat.add_zero, hv]
  rfl

/-- Only the bytes of the records matter. -/
theorem load_congr (h : ∀ a, b.InRecords table a → mem' a = mem a) :
    b.load table mem' = b.load table mem := by
  have hpages : ∀ i, (b.load table mem').pages i = (b.load table mem).pages i := by
    intro i
    by_cases hi : i < b.pageCount
    · simp only [load, if_pos hi]
      exact recordAt_congr fun k hk => h _ (inRecords_byte hi hk)
    · simp only [load, if_neg hi]
  rw [load, load]
  congr 1
  exact funext hpages

/-- **The records are read as written**, from memory that differs only elsewhere. -/
theorem load_of_stored (hr : ∀ i, (b.pages i).InRange)
    (h : ∀ a, b.InRecords table a → mem' a = b.store table mem a) : b.load table mem' = b := by
  have hpages : ∀ i, (b.load table mem').pages i = b.pages i := by
    intro i
    by_cases hi : i < b.pageCount
    · simp only [load, if_pos hi]
      refine recordAt_of_bytes (hr i) fun k hk v hv => ?_
      rw [h _ (inRecords_byte hi hk), store_byte hi hk hv]
    · simp only [load, if_neg hi]
  rw [load]
  congr 1
  exact funext hpages

/-- In a pool of whole pages, a physical range that starts at a page is where its pages are. -/
theorem pageByte_pageAddr (hpage : b.pageSize = Arch.pageSize) (i x : ℕ) :
    pageByte (b.pageAddr i) x =
      pa2kva (b.pageAddr (i + x / Arch.pageSize)) + x % Arch.pageSize := by
  have hnext : pa2kva (b.pageAddr i + Arch.pageSize * (x / Arch.pageSize)) =
      pa2kva (b.pageAddr (i + x / Arch.pageSize)) := by
    rw [← pa2kva_wrap64, pageAddr, pageAddr, hpage, Nat.mul_add, wrap64, wrap64, wrap64,
      Nat.mod_add_mod, Nat.add_assoc]
  rw [pageByte, hnext]

/-- **Filling a block without records leaves the records alone.** -/
theorem Clear.not_inRecords {i o : ℕ} (h : b.Clear table i o) (hpage : b.pageSize = Arch.pageSize)
    {x : ℕ} (hx : x < Arch.pageSize * 2 ^ o) :
    ¬ b.InRecords table (pageByte (b.pageAddr i) x) := by
  rw [pageByte_pageAddr hpage]
  exact fun hin => h (i + x / Arch.pageSize) (Nat.le_add_right _ _)
    (Nat.add_lt_add_left (Nat.div_lt_of_lt_mul hx) i) ⟨_, Nat.mod_lt _ (by decide), hin⟩

/-- What was read before does not matter. -/
theorem load_load : (b.load table mem).load table mem' = b.load table mem' := by
  have hpages : ∀ i, ((b.load table mem).load table mem').pages i = (b.load table mem').pages i := by
    intro i
    by_cases hi : i < b.pageCount
    · simp only [load, if_pos hi]
    · simp only [load, if_neg hi]
  rw [load, load]
  congr 1
  exact funext hpages

/-- Where all eight bytes of `byte_size` are zero, the record says so. -/
theorem load_byteSize_of_zeros {i : ℕ} (hi : i < b.pageCount)
    (h : ∀ k < 8, mem (table + sizeofBuddyPage * i + k) = 0) :
    ((b.load table mem).pages i).byteSize = 0 := by
  simp only [load, if_pos hi]
  exact readNat_of_zeros h

end Array

/-! ### What is written to the fields -/

/-- The constructor writes what the fields can hold. -/
theorem inRange_of_ctor {valloc : ℕ → ℕ} {base pageSize pageCount : ℕ} {b : BuddyPmalloc}
    (h : ctor valloc base pageSize pageCount = .ok b) : ∀ i, (b.pages i).InRange := by
  rw [ctor, leastShift_lt (ctor_count_lt h), ok_bind] at h
  split at h
  · cases h
  · obtain rfl := Except.ok.inj h
    intro i
    simp only
    split <;> exact ⟨by decide, by decide, by decide⟩

/-- The records of the first halves keep their fields, and orders only decrease. -/
theorem splitLoop_inRange {t i : ℕ} : ∀ (o : ℕ) (b : BuddyPmalloc), o ≤ 2 ^ 15 →
    (∀ p, (b.pages p).InRange) → ∀ p, ((splitLoop t i o b).pages p).InRange := by
  intro o
  induction o with
  | zero => exact fun b _ h => h
  | succ o ih =>
      intro b ho h
      rw [splitLoop]
      split
      · refine ih _ (by omega) fun p => ?_
        split
        · rw [listAdd_pages]
          by_cases hp : p = getHighIndex i o
          · obtain ⟨hsize, -, hcount⟩ := h p
            rw [hp] at hsize hcount
            rw [hp, setPage_pages_self]
            exact ⟨hsize, ho, hcount⟩
          · rw [setPage_pages_of_ne b _ hp]
            exact h p
        · exact h p
      · exact h

section Requests

variable {n m : ℕ} {b b' : BuddyPmalloc} {P : Pool n m}

/-- **`malloc` writes what the fields can hold.** -/
theorem inRange_of_mallocPage (horder : b.maxOrder < 32) (hr : ∀ p, (b.pages p).InRange)
    {size : ℕ} (hsize : size < 2 ^ 64) {answer : Option ℕ}
    (hrun : b.mallocPage size = .ok (answer, b')) : ∀ p, (b'.pages p).InRange := by
  obtain ⟨t, ht, hrun⟩ := bind_eq_ok.1 hrun
  cases hfind : b.findBlock t with
  | none =>
      rw [hfind] at hrun
      cases Except.ok.inj hrun
      exact hr
  | some block =>
      obtain ⟨o, j⟩ := block
      rw [hfind] at hrun
      obtain ⟨-, -, hrun⟩ := bind_eq_ok.1 hrun
      obtain ⟨-, -, hrun⟩ := bind_eq_ok.1 hrun
      obtain ⟨-, rfl⟩ := Prod.mk.inj (Except.ok.inj hrun)
      have ht32 : t < 32 := (leastShift_eq_ok.1 ht).1
      obtain ⟨-, ho, -⟩ := findBlock_eq_some hfind
      refine splitLoop_inRange o _ (by omega) fun p => ?_
      rw [listDel_pages]
      by_cases hp : p = j
      · rw [hp, setPage_pages_self]
        exact ⟨hsize, ht32.trans (by decide), Nat.mod_lt _ (by decide)⟩
      · rw [setPage_pages_of_ne b _ hp]
        exact hr p

/-- And so does `free`. -/
theorem inRange_of_free (h : Models b P) {X : Block} (hX : X ∈ P.used) {ptr : ℕ}
    (hindex : b.pageIndex ptr = X.index) (hr : ∀ p, (b.pages p).InRange)
    (hrun : b.free ptr = .ok b') : ∀ p, (b'.pages p).InRange := by
  obtain ⟨M, -, horder, -, -, -, hpages, -⟩ := pages_of_free h hX hindex hrun
  have hm := h.fits.order_lt
  intro p
  rw [hpages]
  by_cases hp : p = M.index
  · rw [hp, Function.update_self]
    exact ⟨(hr _).byteSize, by show M.order < 2 ^ 15; omega, (hr _).curPageCount⟩
  · rw [Function.update_of_ne hp]
    exact hr p

end Requests

end BuddyPmalloc

end Aim
