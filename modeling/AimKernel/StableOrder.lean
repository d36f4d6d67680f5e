/-
**Lists kept in the stable order of a key.**

A container that inserts every new element behind the elements whose key is not greater is, at any
time, the stable sort of its elements: ordered by key, and among equal keys by the time of
insertion.  Insertion times are not kept anywhere; they are the order of a second list, to which
elements are appended and from which they are removed.

Main definitions:

* `StableOrder.insertByKey`, `StableOrder.eraseLast` — insertion, and removal of the last copy of
  an element;
* `StableOrder.IsStableSort` — one list is the stable sort of another.

Main results:

* `StableOrder.IsStableSort.insertByKey`, `StableOrder.IsStableSort.eraseLast` — **both operations
  keep the stable order**;
* `StableOrder.IsStableSort.perm` — a stable sort is a permutation.
-/

import Mathlib

set_option relaxedAutoImplicit false
set_option autoImplicit false

namespace StableOrder

variable {α κ : Type} [LinearOrder κ]

/-! ### The operations -/

/-- Insertion in front of the first element with a greater key. -/
def insertByKey (key : α → κ) (x : α) : List α → List α
  | [] => [x]
  | y :: l => if key x < key y then x :: y :: l else y :: insertByKey key x l

/-- Removal of the last copy of an element. -/
def eraseLast [DecidableEq α] (x : α) : List α → List α
  | [] => []
  | y :: l => if x ∈ l then y :: eraseLast x l else if y = x then l else y :: l

theorem insertByKey_eq (key : α → κ) (x : α) (l : List α) :
    insertByKey key x l = l.takeWhile (fun y => decide (key y ≤ key x)) ++
      x :: l.dropWhile fun y => decide (key y ≤ key x) := by
  induction l with
  | nil => rfl
  | cons y l ih =>
      rw [insertByKey, List.takeWhile_cons, List.dropWhile_cons]
      by_cases h : key x < key y
      · simp [h, not_le.2 h]
      · simp [h, not_lt.1 h, ih]

theorem mem_insertByKey {key : α → κ} {x z : α} {l : List α} :
    z ∈ insertByKey key x l ↔ z = x ∨ z ∈ l := by
  induction l with
  | nil => simp [insertByKey]
  | cons y l ih =>
      rw [insertByKey]
      split
      · simp
      · simp [ih, or_left_comm]

section EraseLast

variable [DecidableEq α]

theorem eraseLast_of_not_mem {x : α} {l : List α} (h : x ∉ l) : eraseLast x l = l := by
  cases l with
  | nil => rfl
  | cons y l =>
      rw [List.mem_cons, not_or] at h
      rw [eraseLast, if_neg h.2, if_neg (Ne.symm h.1)]

theorem eraseLast_append {x : α} {pre post : List α} (h : x ∉ post) :
    eraseLast x (pre ++ x :: post) = pre ++ post := by
  induction pre with
  | nil => simp [eraseLast, h]
  | cons y pre ih => simp [eraseLast, ih]

/-- Removing the last copy or the first makes no difference to the elements that are left. -/
theorem eraseLast_perm (x : α) (l : List α) : (eraseLast x l).Perm (l.erase x) := by
  induction l with
  | nil => exact List.Perm.refl _
  | cons y l ih =>
      rw [eraseLast, List.erase_cons]
      by_cases hmem : x ∈ l
      · rw [if_pos hmem]
        by_cases hy : y = x
        · subst hy
          simp only [beq_self_eq_true, if_true]
          exact (ih.cons y).trans (List.perm_cons_erase hmem).symm
        · simpa [hy] using ih.cons y
      · rw [if_neg hmem]
        by_cases hy : y = x
        · simp [hy]
        · simp [hy, List.erase_of_not_mem hmem]

theorem eraseLast_sublist (x : α) (l : List α) : (eraseLast x l).Sublist l := by
  induction l with
  | nil => exact List.Sublist.refl _
  | cons y l ih =>
      rw [eraseLast]
      split
      · exact ih.cons_cons y
      · split
        · exact List.sublist_cons_self y l
        · exact List.Sublist.refl _

theorem filter_eraseLast (p : α → Bool) (x : α) (l : List α) :
    (eraseLast x l).filter p = if p x then eraseLast x (l.filter p) else l.filter p := by
  induction l with
  | nil => simp [eraseLast]
  | cons y l ih =>
      rw [eraseLast, List.filter_cons]
      by_cases hmem : x ∈ l
      · rw [if_pos hmem, List.filter_cons, ih]
        cases hx : p x with
        | false => simp
        | true =>
            cases hy : p y with
            | false => simp
            | true => simp [eraseLast, hmem, hx]
      · rw [if_neg hmem]
        by_cases hyx : y = x
        · subst hyx
          rw [if_pos rfl]
          cases hy : p y with
          | false => simp
          | true => simp [eraseLast, hmem]
        · rw [if_neg hyx, List.filter_cons]
          cases hx : p x with
          | false => simp
          | true =>
              have hnot : x ∉ (y :: l).filter p := by
                simp [Ne.symm hyx, hmem]
              rw [List.filter_cons] at hnot
              rw [if_pos rfl, eraseLast_of_not_mem hnot]

end EraseLast

/-! ### Stable sorts -/

/-- `l` is the stable sort of `live`: ordered by key, elements with equal keys in the order that
they have in `live`. -/
structure IsStableSort (key : α → κ) (l live : List α) : Prop where
  sorted : l.Pairwise fun a b => key a ≤ key b
  stable : ∀ k, l.filter (fun a => decide (key a = k)) = live.filter fun a => decide (key a = k)

theorem isStableSort_nil (key : α → κ) : IsStableSort key ([] : List α) [] :=
  ⟨List.Pairwise.nil, fun _ => rfl⟩

namespace IsStableSort

variable {key : α → κ} {l live : List α}

/-- A stable sort is a permutation. -/
theorem perm [DecidableEq α] (h : IsStableSort key l live) : l.Perm live := by
  rw [List.perm_iff_count]
  intro a
  have hcount := congrArg (List.count a) (h.stable (key a))
  rwa [List.count_filter (by simp), List.count_filter (by simp)] at hcount

/-- Only the keys of the elements matter. -/
theorem congr [DecidableEq α] {key' : α → κ} (h : IsStableSort key l live) (hkey : ∀ a ∈ live, key' a = key a) :
    IsStableSort key' l live := by
  have hl : ∀ a ∈ l, key' a = key a := fun a ha => hkey a (h.perm.mem_iff.1 ha)
  refine ⟨h.sorted.imp_of_mem fun ha hb hab => by rwa [hl _ ha, hl _ hb], fun k => ?_⟩
  have hfilter : ∀ m : List α, (∀ a ∈ m, key' a = key a) →
      m.filter (fun a => decide (key' a = k)) = m.filter fun a => decide (key a = k) := by
    intro m hm
    exact List.filter_congr fun a ha => by rw [hm a ha]
  rw [hfilter l hl, hfilter live hkey, h.stable k]

theorem sorted_insertByKey {x : α} (h : l.Pairwise fun a b => key a ≤ key b) :
    (StableOrder.insertByKey key x l).Pairwise fun a b => key a ≤ key b := by
  induction l with
  | nil => simp [StableOrder.insertByKey]
  | cons y l ih =>
      obtain ⟨hy, hl⟩ := List.pairwise_cons.1 h
      rw [StableOrder.insertByKey]
      by_cases hlt : key x < key y
      · rw [if_pos hlt]
        refine List.pairwise_cons.2 ⟨fun z hz => ?_, h⟩
        rcases List.mem_cons.1 hz with rfl | hz
        · exact hlt.le
        · exact hlt.le.trans (hy z hz)
      · rw [if_neg hlt]
        refine List.pairwise_cons.2 ⟨fun z hz => ?_, ih hl⟩
        rcases mem_insertByKey.1 hz with rfl | hz
        · exact not_lt.1 hlt
        · exact hy z hz

/-- The new element comes last among those with its key. -/
theorem filter_insertByKey {x : α} (h : l.Pairwise fun a b => key a ≤ key b) (k : κ) :
    (StableOrder.insertByKey key x l).filter (fun a => decide (key a = k)) =
      l.filter (fun a => decide (key a = k)) ++ [x].filter fun a => decide (key a = k) := by
  induction l with
  | nil => rfl
  | cons y l ih =>
      obtain ⟨hy, hl⟩ := List.pairwise_cons.1 h
      rw [StableOrder.insertByKey]
      by_cases hlt : key x < key y
      · rw [if_pos hlt]
        by_cases hk : key x = k
        · have hnone : (y :: l).filter (fun a => decide (key a = k)) = [] := by
            rw [List.filter_eq_nil_iff]
            intro a ha
            have hle : key y ≤ key a := by
              rcases List.mem_cons.1 ha with rfl | ha
              · exact le_rfl
              · exact hy a ha
            simpa [← hk] using (hlt.trans_le hle).ne'
          rw [List.filter_cons, hnone]
          simp [hk]
        · simp [List.filter_cons, hk]
      · rw [if_neg hlt]
        by_cases hk : key y = k
        · simp [hk, ih hl]
        · simp [hk, ih hl]

/-- **Insertion keeps the stable order.** -/
theorem insertByKey (h : IsStableSort key l live) (x : α) :
    IsStableSort key (StableOrder.insertByKey key x l) (live ++ [x]) := by
  refine ⟨sorted_insertByKey h.sorted, fun k => ?_⟩
  rw [filter_insertByKey h.sorted, h.stable k, List.filter_append]

/-- **Removal of the last copy keeps the stable order.** -/
theorem eraseLast [DecidableEq α] (h : IsStableSort key l live) (x : α) :
    IsStableSort key (StableOrder.eraseLast x l) (StableOrder.eraseLast x live) := by
  refine ⟨h.sorted.sublist (eraseLast_sublist x l), fun k => ?_⟩
  rw [filter_eraseLast, filter_eraseLast, h.stable k]

end IsStableSort

end StableOrder
