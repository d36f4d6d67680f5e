/-
**Stacks of words in memory.**

A stack grows down: to push a word is to write it below the stack pointer and to move the stack
pointer there.  The words on a stack are read from the stack pointer up.  Addresses have 32 bits and
may wrap; a stack may lie anywhere as long as it does not reach around the whole address space.

Main definitions:

* `WordStack.Holds` — the words from an address up;
* `WordStack.Pushed` — words were pushed, and nothing else was written.

Main results:

* `WordStack.Pushed.push` — **one more word**;
* `WordStack.Pushed.above` — the words that were there before;
* `WordStack.Holds.congr`, `WordStack.Holds.set` — what the words depend on, and writing one of them.
-/

import AimKernel.ByteMemory

set_option relaxedAutoImplicit false
set_option autoImplicit false

namespace WordStack

open ByteMemory

variable {mem mem' mem₀ : BitVec 32 → BitVec 8} {sp top : BitVec 32} {ws : List (BitVec 32)}

/-- The words from `sp` up. -/
def Holds (mem : BitVec 32 → BitVec 8) : BitVec 32 → List (BitVec 32) → Prop
  | _, [] => True
  | sp, w :: ws => getWord mem sp = w ∧ Holds mem (sp + 4) ws

theorem Holds.head {w : BitVec 32} (h : Holds mem sp (w :: ws)) : getWord mem sp = w := h.1

theorem Holds.tail {w : BitVec 32} (h : Holds mem sp (w :: ws)) : Holds mem (sp + 4) ws := h.2

/-- Some words up. -/
theorem Holds.drop (h : Holds mem sp ws) (n : ℕ) :
    Holds mem (sp + BitVec.ofNat 32 (4 * n)) (ws.drop n) := by
  induction n generalizing sp ws with
  | zero => simpa using h
  | succ n ih =>
      cases ws with
      | nil => exact trivial
      | cons w ws =>
          rw [show sp + BitVec.ofNat 32 (4 * (n + 1)) = sp + 4 + BitVec.ofNat 32 (4 * n) by bv_omega]
          exact ih h.tail

/-- A word in place. -/
theorem Holds.get (h : Holds mem sp ws) {n : ℕ} {w : BitVec 32} (hn : ws[n]? = some w) :
    getWord mem (sp + BitVec.ofNat 32 (4 * n)) = w := by
  have hdrop := h.drop n
  rw [List.drop_eq_getElem?_toList_append, hn] at hdrop
  exact hdrop.head

theorem Holds.append {more : List (BitVec 32)} :
    ∀ {sp : BitVec 32} {ws : List (BitVec 32)}, Holds mem sp (ws ++ more) ↔
      Holds mem sp ws ∧ Holds mem (sp + BitVec.ofNat 32 (4 * ws.length)) more := by
  intro sp ws
  induction ws generalizing sp with
  | nil => simp [Holds]
  | cons w ws ih =>
      rw [List.cons_append, Holds, ih, Holds, List.length_cons, and_assoc,
        show sp + BitVec.ofNat 32 (4 * (ws.length + 1)) = sp + 4 + BitVec.ofNat 32 (4 * ws.length) by
          bv_omega]

/-- The words depend on their own bytes. -/
theorem Holds.congr (h : Holds mem sp ws) (hlen : 4 * ws.length ≤ 2 ^ 32)
    (heq : ∀ x, Within sp (4 * ws.length) x → mem' x = mem x) : Holds mem' sp ws := by
  induction ws generalizing sp with
  | nil => exact trivial
  | cons w ws ih =>
      rw [List.length_cons] at hlen heq
      refine ⟨?_, ih h.tail (by omega) fun x hx => heq x ?_⟩
      · rw [← h.head]
        refine getWord_congr fun x hx => heq x ?_
        rw [Within] at hx ⊢
        omega
      · rw [Within] at hx ⊢
        bv_omega

/-- A word is written over. -/
theorem Holds.set (h : Holds mem sp ws) (hlen : 4 * ws.length ≤ 2 ^ 32) {n : ℕ} (hn : n < ws.length)
    (v : BitVec 32) : Holds (putWord mem (sp + BitVec.ofNat 32 (4 * n)) v) sp (ws.set n v) := by
  induction ws generalizing sp n with
  | nil => exact absurd hn (Nat.not_lt_zero n)
  | cons w ws ih =>
      rw [List.length_cons] at hlen hn
      cases n with
      | zero =>
          rw [Nat.mul_zero, BitVec.add_zero, List.set_cons_zero]
          refine ⟨getWord_putWord _ _ _, h.tail.congr (by omega) fun x hx => ?_⟩
          refine putWord_of_not_within ?_
          rw [Within] at hx ⊢
          bv_omega
      | succ n =>
          rw [show sp + BitVec.ofNat 32 (4 * (n + 1)) = sp + 4 + BitVec.ofNat 32 (4 * n) by bv_omega,
            List.set_cons_succ]
          refine ⟨?_, ih h.tail (by omega) (by omega)⟩
          rw [← h.head]
          refine getWord_congr fun x hx => putWord_of_not_within ?_
          rw [Within] at hx ⊢
          bv_omega

/-- Words were pushed from `top` down, and nothing else was written. -/
structure Pushed (mem₀ : BitVec 32 → BitVec 8) (top : BitVec 32) (mem : BitVec 32 → BitVec 8)
    (sp : BitVec 32) (ws : List (BitVec 32)) : Prop where
  pointer : sp = top - BitVec.ofNat 32 (4 * ws.length)
  holds : Holds mem sp ws
  frame : ∀ x, ¬ Within sp (4 * ws.length) x → mem x = mem₀ x

theorem Pushed.nil (mem : BitVec 32 → BitVec 8) (top : BitVec 32) : Pushed mem top mem top [] where
  pointer := by simp
  holds := trivial
  frame _ _ := rfl

/-- **One more word.** -/
theorem Pushed.push (h : Pushed mem₀ top mem sp ws) (hlen : 4 * (ws.length + 1) ≤ 2 ^ 32)
    (v : BitVec 32) : Pushed mem₀ top (putWord mem (sp - 4) v) (sp - 4) (v :: ws) where
  pointer := by
    rw [h.pointer, List.length_cons]
    bv_omega
  holds := by
    refine ⟨getWord_putWord _ _ _, ?_⟩
    rw [show sp - 4 + 4 = sp by bv_omega]
    refine h.holds.congr (by omega) fun x hx => putWord_of_not_within ?_
    rw [Within] at hx ⊢
    bv_omega
  frame x hx := by
    rw [List.length_cons, Within] at hx
    rw [putWord_of_not_within (by rw [Within]; omega)]
    refine h.frame x ?_
    rw [Within]
    bv_omega

/-- The words that were there are still there, above those that were pushed. -/
theorem Pushed.above (h : Pushed mem₀ top mem sp ws) {more : List (BitVec 32)}
    (hmore : Holds mem₀ top more) (hlen : 4 * (ws.length + more.length) ≤ 2 ^ 32) :
    Holds mem sp (ws ++ more) := by
  have hplace : sp + BitVec.ofNat 32 (4 * ws.length) = top := by
    rw [h.pointer]
    exact BitVec.sub_add_cancel _ _
  refine Holds.append.mpr ⟨h.holds, ?_⟩
  rw [hplace]
  refine hmore.congr (by omega) fun x hx => h.frame x ?_
  rw [h.pointer]
  rw [Within] at hx ⊢
  bv_omega

/-- What was pushed lies below `top`. -/
theorem Pushed.frame_below (h : Pushed mem₀ top mem sp ws) {d : ℕ} (hd : 4 * ws.length ≤ d)
    {x : BitVec 32} (hx : ¬ Within (top - BitVec.ofNat 32 d) d x) :
    mem x = mem₀ x := by
  refine h.frame x ?_
  rw [h.pointer]
  rw [Within] at hx ⊢
  bv_omega

end WordStack
