/-
**Cells of memory, and words in them.**

A memory is a function from addresses to cells.  A block is given by the addresses of its cells, in
order, so that addresses may be numbers, machine words, or anything else, and may wrap.  Storing and
copying go through a block cell by cell; when the cells are apart, the result has a closed form.

The second part is about bytes at 32-bit addresses, and little-endian words of 32 bits in them, at
any alignment: words that overlap see each other's bytes.  The third is about numbers of any width,
little-endian as well, where addresses and bytes are numbers.

Main definitions:

* `ByteMemory.store`, `ByteMemory.copy` — writing given values, and what is read on the way;
* `ByteMemory.putWord`, `ByteMemory.getWord`, `ByteMemory.putWords` — words, and words in a row;
* `ByteMemory.byteOf`, `ByteMemory.readNat` — the bytes of a number, and the number in some bytes.

Main results:

* `ByteMemory.store_of_ne`, `ByteMemory.store_apply` — what a store changes;
* `ByteMemory.copy_of_ne` — what a copy keeps;
* `ByteMemory.copy_eq_store` — copying away from what is still to be read is storing;
* `ByteMemory.getWord_putWord`, `ByteMemory.getWord_putWords` — words are read as written;
* `ByteMemory.getWord_putWord_halves` — a word whose lower half was overwritten;
* `ByteMemory.readNat_of_bytes` — **numbers are read as written**, as far as the width goes.
-/

import Mathlib.Algebra.Group.Nat.Defs
import Mathlib.Logic.Function.Basic
import Mathlib.Order.Basic

set_option relaxedAutoImplicit false
set_option autoImplicit false

namespace ByteMemory

variable {α β : Type} [DecidableEq α]

/-- Writing `v 0, …, v (n - 1)` to `dst 0, …, dst (n - 1)`, in this order. -/
def store (mem : α → β) (dst : ℕ → α) (v : ℕ → β) : ℕ → α → β
  | 0 => mem
  | n + 1 => Function.update (store mem dst v n) (dst n) (v n)

/-- Copying `src 0, …, src (n - 1)` to `dst 0, …, dst (n - 1)`, in this order: a cell that was
written may be read later. -/
def copy (mem : α → β) (dst src : ℕ → α) : ℕ → α → β
  | 0 => mem
  | n + 1 => Function.update (copy mem dst src n) (dst n) (copy mem dst src n (src n))

variable {mem : α → β} {dst src : ℕ → α} {v : ℕ → β} {n : ℕ}

/-- Other cells are kept. -/
theorem store_of_ne {a : α} (h : ∀ i < n, a ≠ dst i) : store mem dst v n a = mem a := by
  induction n with
  | zero => rfl
  | succ n ih =>
      rw [store, Function.update_of_ne (h n (Nat.lt_succ_self n))]
      exact ih fun i hi => h i (Nat.lt_succ_of_lt hi)

/-- Cells of a block that does not meet itself hold what was stored. -/
theorem store_apply (hinj : ∀ i < n, ∀ j < n, dst i = dst j → i = j) {i : ℕ} (hi : i < n) :
    store mem dst v n (dst i) = v i := by
  induction n with
  | zero => exact absurd hi (Nat.not_lt_zero i)
  | succ n ih =>
      rw [store]
      rcases Nat.lt_succ_iff_lt_or_eq.1 hi with hlt | rfl
      · have hne : dst i ≠ dst n := fun heq =>
          Nat.ne_of_lt hlt (hinj i hi n (Nat.lt_succ_self n) heq)
        rw [Function.update_of_ne hne]
        exact ih (fun j hj k hk => hinj j (Nat.lt_succ_of_lt hj) k (Nat.lt_succ_of_lt hk)) hlt
      · exact Function.update_self _ _ _

/-- Copying keeps other cells, too. -/
theorem copy_of_ne {a : α} (h : ∀ i < n, a ≠ dst i) : copy mem dst src n a = mem a := by
  induction n with
  | zero => rfl
  | succ n ih =>
      rw [copy, Function.update_of_ne (h n (Nat.lt_succ_self n))]
      exact ih fun i hi => h i (Nat.lt_succ_of_lt hi)

/-- Copying is storing what the source held, when no cell of it is read after it was written. -/
theorem copy_eq_store (h : ∀ i < n, ∀ j < i, src i ≠ dst j) :
    copy mem dst src n = store mem dst (fun i => mem (src i)) n := by
  induction n with
  | zero => rfl
  | succ n ih =>
      have hn := Nat.lt_succ_self n
      rw [copy, store, ih fun i hi => h i (Nat.lt_succ_of_lt hi), store_of_ne (h n hn)]

/-! ### Little-endian words -/

section Words

variable {mem mem' : BitVec 32 → BitVec 8} {a b x : BitVec 32}

/-- `x` is one of the `n` cells from `a` on; blocks may wrap. -/
def Within (a : BitVec 32) (n : ℕ) (x : BitVec 32) : Prop := (x - a).toNat < n

/-- Writing a word. -/
def putWord (mem : BitVec 32 → BitVec 8) (a v : BitVec 32) : BitVec 32 → BitVec 8 := fun x =>
  if (x - a).toNat < 4 then v.extractLsb' (8 * (x - a).toNat) 8 else mem x

/-- Reading a word. -/
def getWord (mem : BitVec 32 → BitVec 8) (a : BitVec 32) : BitVec 32 :=
  mem (a + 3) ++ mem (a + 2) ++ mem (a + 1) ++ mem a

/-- Writing words in a row. -/
def putWords (mem : BitVec 32 → BitVec 8) (a : BitVec 32) :
    List (BitVec 32) → BitVec 32 → BitVec 8
  | [] => mem
  | v :: vs => putWords (putWord mem a v) (a + 4) vs

theorem putWord_of_not_within {v : BitVec 32} (h : ¬ Within a 4 x) : putWord mem a v x = mem x :=
  if_neg h

theorem putWord_add {v : BitVec 32} {i : ℕ} (hi : i < 4) :
    putWord mem a v (a + BitVec.ofNat 32 i) = v.extractLsb' (8 * i) 8 := by
  have hsub : (a + BitVec.ofNat 32 i - a).toNat = i := by bv_omega
  rw [putWord, hsub, if_pos hi]

/-- A word is its four bytes. -/
theorem getWord_eq {v : BitVec 32}
    (h : ∀ i < 4, mem (a + BitVec.ofNat 32 i) = v.extractLsb' (8 * i) 8) : getWord mem a = v := by
  have h0 : mem a = v.extractLsb' 0 8 := by
    have := h 0 (by decide)
    rwa [BitVec.add_zero] at this
  have h1 : mem (a + 1) = v.extractLsb' 8 8 := h 1 (by decide)
  have h2 : mem (a + 2) = v.extractLsb' 16 8 := h 2 (by decide)
  have h3 : mem (a + 3) = v.extractLsb' 24 8 := h 3 (by decide)
  rw [getWord, h0, h1, h2, h3]
  ext j hj
  simp only [BitVec.getElem_append, BitVec.getElem_extractLsb']
  split
  · rw [Nat.zero_add]
    exact BitVec.getLsbD_eq_getElem hj
  · split
    · rw [← BitVec.getLsbD_eq_getElem hj]
      congr 1
      omega
    · split
      · rw [← BitVec.getLsbD_eq_getElem hj]
        congr 1
        omega
      · rw [← BitVec.getLsbD_eq_getElem hj]
        congr 1
        omega

theorem getWord_congr (h : ∀ x, Within a 4 x → mem' x = mem x) : getWord mem' a = getWord mem a := by
  have hcell : ∀ i < 4, mem' (a + BitVec.ofNat 32 i) = mem (a + BitVec.ofNat 32 i) := by
    intro i hi
    refine h _ ?_
    rw [Within]
    bv_omega
  have h0 : mem' a = mem a := by
    have := hcell 0 (by decide)
    rwa [BitVec.add_zero] at this
  have h1 : mem' (a + 1) = mem (a + 1) := hcell 1 (by decide)
  have h2 : mem' (a + 2) = mem (a + 2) := hcell 2 (by decide)
  have h3 : mem' (a + 3) = mem (a + 3) := hcell 3 (by decide)
  rw [getWord, getWord, h0, h1, h2, h3]

/-- A word is read as it was written. -/
theorem getWord_putWord (mem : BitVec 32 → BitVec 8) (a v : BitVec 32) :
    getWord (putWord mem a v) a = v :=
  getWord_eq fun _ hi => putWord_add hi

/-- A word that is apart is kept. -/
theorem getWord_putWord_of_apart {v : BitVec 32} (h : 4 ≤ (b - a).toNat) (h' : 4 ≤ (a - b).toNat) :
    getWord (putWord mem a v) b = getWord mem b := by
  refine getWord_congr fun x hx => putWord_of_not_within ?_
  rw [Within] at hx ⊢
  bv_omega

/-- A word whose lower half was overwritten by a word two bytes below. -/
theorem getWord_putWord_halves (mem : BitVec 32 → BitVec 8) (a v w : BitVec 32) :
    getWord (putWord (putWord mem (a + 2) v) a w) (a + 2) =
      v.extractLsb' 16 16 ++ w.extractLsb' 16 16 := by
  refine getWord_eq fun i hi => ?_
  by_cases hlow : i < 2
  · -- a byte of the word below
    have hplace : a + 2 + BitVec.ofNat 32 i = a + BitVec.ofNat 32 (2 + i) := by bv_omega
    rw [hplace, putWord_add (by omega)]
    ext k hk
    simp only [BitVec.getElem_extractLsb', BitVec.getLsbD_append, BitVec.getLsbD_extractLsb']
    rw [if_pos (by omega), decide_eq_true (by omega), Bool.true_and]
    congr 1
    omega
  · have hout : ¬ Within a 4 (a + 2 + BitVec.ofNat 32 i) := by
      rw [Within]
      bv_omega
    rw [putWord_of_not_within hout, putWord_add hi]
    ext k hk
    simp only [BitVec.getElem_extractLsb', BitVec.getLsbD_append, BitVec.getLsbD_extractLsb']
    rw [if_neg (by omega), decide_eq_true (by omega), Bool.true_and]
    congr 1
    omega

/-- Other cells are kept. -/
theorem putWords_of_not_within {vs : List (BitVec 32)} :
    ∀ {mem : BitVec 32 → BitVec 8} {a : BitVec 32}, 4 * vs.length ≤ 2 ^ 32 →
      ¬ Within a (4 * vs.length) x → putWords mem a vs x = mem x := by
  induction vs with
  | nil => exact fun _ _ => rfl
  | cons v vs ih =>
      intro mem a hlen hx
      rw [List.length_cons] at hlen hx
      rw [Within] at hx
      rw [putWords, ih (by omega) (by rw [Within]; bv_omega), putWord_of_not_within]
      rw [Within]
      omega

/-- Words in a row are read as they were written. -/
theorem getWord_putWords {vs : List (BitVec 32)} :
    ∀ {mem : BitVec 32 → BitVec 8} {a : BitVec 32} {i : ℕ} (hi : i < vs.length),
      4 * vs.length ≤ 2 ^ 32 → getWord (putWords mem a vs) (a + BitVec.ofNat 32 (4 * i)) = vs[i] := by
  induction vs with
  | nil => exact fun hi _ => absurd hi (Nat.not_lt_zero _)
  | cons v vs ih =>
      intro mem a i hi hlen
      rw [List.length_cons] at hi hlen
      cases i with
      | zero =>
          have hkept : getWord (putWords (putWord mem a v) (a + 4) vs) a =
              getWord (putWord mem a v) a := by
            refine getWord_congr fun x hx => putWords_of_not_within (by omega) ?_
            rw [Within] at hx ⊢
            bv_omega
          rw [Nat.mul_zero, BitVec.add_zero, putWords, hkept]
          exact getWord_putWord mem a v
      | succ i =>
          have hplace : a + BitVec.ofNat 32 (4 * (i + 1)) = a + 4 + BitVec.ofNat 32 (4 * i) := by
            bv_omega
          rw [hplace, putWords]
          exact ih (by omega) (by omega)

/-- A word apart from a row is kept. -/
theorem getWord_putWords_of_apart {vs : List (BitVec 32)} (hlen : 4 * vs.length ≤ 2 ^ 32)
    (h : ∀ x, Within b 4 x → ¬ Within a (4 * vs.length) x) :
    getWord (putWords mem a vs) b = getWord mem b :=
  getWord_congr fun x hx => putWords_of_not_within hlen (h x hx)

end Words

/-! ### Little-endian numbers -/

section Numbers

variable {mem mem' : ℕ → ℕ}

/-- Byte `k` of a number. -/
def byteOf (v k : ℕ) : ℕ := v / 256 ^ k % 256

/-- The number in the `n` bytes from `a` on. -/
def readNat (mem : ℕ → ℕ) : ℕ → ℕ → ℕ
  | _, 0 => 0
  | a, n + 1 => mem a + 256 * readNat mem (a + 1) n

theorem byteOf_succ (v k : ℕ) : byteOf v (k + 1) = byteOf (v / 256) k := by
  rw [byteOf, byteOf, Nat.pow_succ', Nat.div_div_eq_div_mul]

theorem readNat_congr : ∀ (n a : ℕ), (∀ k < n, mem' (a + k) = mem (a + k)) →
    readNat mem' a n = readNat mem a n := by
  intro n
  induction n with
  | zero => exact fun _ _ => rfl
  | succ n ih =>
      intro a h
      have hfirst : mem' a = mem a := h 0 (Nat.succ_pos n)
      have hrest := ih (a + 1) fun k hk => by
        rw [Nat.add_right_comm]
        exact h (k + 1) (Nat.succ_lt_succ hk)
      rw [readNat, readNat, hfirst, hrest]

/-- **Numbers are read as written**, up to the width. -/
theorem readNat_of_bytes : ∀ (n a v : ℕ), (∀ k < n, mem (a + k) = byteOf v k) →
    readNat mem a n = v % 256 ^ n := by
  intro n
  induction n with
  | zero => exact fun _ v _ => (Nat.mod_one v).symm
  | succ n ih =>
      intro a v h
      have hfirst : mem a = v % 256 := by
        rw [← Nat.add_zero a, h 0 (Nat.succ_pos n), byteOf, Nat.pow_zero, Nat.div_one]
      have hrest := ih (a + 1) (v / 256) fun k hk => by
        rw [Nat.add_right_comm, ← byteOf_succ]
        exact h (k + 1) (Nat.succ_lt_succ hk)
      rw [readNat, hfirst, hrest, Nat.pow_succ', Nat.mod_mul]

/-- In zeros there is the number zero. -/
theorem readNat_of_zeros {n a : ℕ} (h : ∀ k < n, mem (a + k) = 0) : readNat mem a n = 0 := by
  rw [readNat_of_bytes n a 0 fun k hk => by rw [h k hk, byteOf, Nat.zero_div], Nat.zero_mod]

end Numbers

end ByteMemory
