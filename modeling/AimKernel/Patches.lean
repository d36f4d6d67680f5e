/-
**Places that are painted over.**

A program that draws changes a few places of what it draws on, and keeps the others.  A *patch* says
which places these are, and what they show afterwards: it has a value, or none, for each place.  Only
the places of a given region count.

Main definitions:

* `PatchedOn` — the new view is the old one with a patch put in;
* `point` — the patch of one place.

Main results:

* `PatchedOn.trans` — a patch over a patch;
* `foldlM_patches` — **the patch of a loop** whose rounds may fail.
-/

import Mathlib.Data.List.Basic

set_option relaxedAutoImplicit false
set_option autoImplicit false

namespace Patches

variable {α β : Type}

/-- In the region, the new view is the old one with the values of the patch. -/
def PatchedOn (D : α → Prop) (old new : α → β) (f : α → Option β) : Prop :=
  ∀ a, D a → new a = (f a).getD (old a)

/-- The patch of one place. -/
def point [DecidableEq α] (a : α) (b : β) : α → Option β := fun x => if x = a then some b else none

section Rules

variable {D : α → Prop} {old mid new : α → β} {f g : α → Option β}

/-- Nothing is painted. -/
theorem PatchedOn.refl (D : α → Prop) (old : α → β) : PatchedOn D old old fun _ => none :=
  fun _ _ => rfl

/-- The later patch is over the earlier one. -/
theorem PatchedOn.trans (h : PatchedOn D old mid f) (h' : PatchedOn D mid new g) :
    PatchedOn D old new fun a => (g a).or (f a) := by
  intro a ha
  rw [h' a ha, h a ha]
  show (g a).getD ((f a).getD (old a)) = ((g a).or (f a)).getD (old a)
  cases g a with
  | none => rfl
  | some b => rfl

/-- Only the values in the region count. -/
theorem PatchedOn.congr (h : PatchedOn D old new f) (heq : ∀ a, D a → f a = g a) :
    PatchedOn D old new g := by
  intro a ha
  rw [h a ha, heq a ha]

/-- A place without a value is kept. -/
theorem PatchedOn.kept (h : PatchedOn D old new f) {a : α} (ha : D a) (hnone : f a = none) :
    new a = old a := by
  rw [h a ha, hnone]
  rfl

/-- A place with a value shows it. -/
theorem PatchedOn.shown (h : PatchedOn D old new f) {a : α} {b : β} (ha : D a)
    (hsome : f a = some b) : new a = b := by
  rw [h a ha, hsome]
  rfl

/-- One place painted twice. -/
theorem point_or_point [DecidableEq α] (a : α) (b c : β) (x : α) :
    (point a b x).or (point a c x) = point a b x := by
  rw [point, point]
  split
  · rfl
  · rfl

end Rules

/-- **The patch of a loop**: `F n` is the patch of the first `n` rounds, of which the last one is on
top. -/
theorem foldlM_patches {σ ε : Type} {D : α → Prop} {view : σ → α → β} {step : σ → ℕ → Except ε σ}
    {f F : ℕ → α → Option β} {I : σ → Prop} (n : ℕ)
    (hstep : ∀ i < n, ∀ s, I s →
      ∃ s', step s i = .ok s' ∧ I s' ∧ PatchedOn D (view s) (view s') (f i))
    (hzero : ∀ a, D a → F 0 a = none)
    (hsucc : ∀ i < n, ∀ a, D a → F (i + 1) a = (f i a).or (F i a)) (s : σ) (hs : I s) :
    ∃ s', (List.range n).foldlM step s = .ok s' ∧ I s' ∧ PatchedOn D (view s) (view s') (F n) := by
  induction n with
  | zero =>
      refine ⟨s, rfl, hs, (PatchedOn.refl D (view s)).congr fun a ha => ?_⟩
      rw [hzero a ha]
  | succ n ih =>
      obtain ⟨s₁, hrun, hs₁, hpatch₁⟩ := ih (fun i hi => hstep i (Nat.lt_succ_of_lt hi))
        fun i hi => hsucc i (Nat.lt_succ_of_lt hi)
      obtain ⟨s', hlast, hs', hpatch⟩ := hstep n (Nat.lt_succ_self n) s₁ hs₁
      refine ⟨s', ?_, hs', (hpatch₁.trans hpatch).congr fun a ha => ?_⟩
      · rw [List.range_succ, List.foldlM_append, hrun]
        show List.foldlM step s₁ [n] = .ok s'
        rw [List.foldlM_cons, hlast]
        rfl
      · rw [hsucc n (Nat.lt_succ_self n) a ha]

end Patches
