/-
**Circular doubly linked lists threaded through memory.**

An intrusive list keeps its links in the elements themselves: memory gives every node a `next` and
a `prev` field, and a list is a ring of nodes that starts and ends at a head which carries no data.
Many rings share one memory.  An operation is a handful of field writes; what has to be known about
it is which ring it changes, and that it leaves the rings it does not touch alone.

The library is about nodes of any type.

Main definitions:

* `Intrusive.Links` — the link fields of all nodes, with `setNext`, `setPrev` and the compound
  writes `insertBetween`, `join`, `remove` and `single`;
* `Intrusive.Ring` — the ring at a head, with its elements in order;
* `Intrusive.Family` — many rings in one memory.

Main results:

* `Intrusive.Ring.insert`, `Intrusive.Ring.remove`, `Intrusive.ring_single` — **what the compound
  writes do to a ring**;
* `Intrusive.Ring.insert_other`, `Intrusive.Ring.remove_other`, `Intrusive.Ring.single_other` —
  what they leave alone;
* `Intrusive.Ring.next_head`, `Intrusive.Ring.next_eq_head_iff` — what reading the fields tells;
* `Intrusive.Ring.unique` — the links determine the elements;
* `Intrusive.Family.insertFirst`, `Intrusive.Family.remove`, `Intrusive.Family.single` — **what one
  write does to all rings at once.**
-/

import Mathlib

set_option relaxedAutoImplicit false
set_option autoImplicit false

namespace Intrusive

/-- The link fields of all nodes. -/
structure Links (P : Type) where
  next : P → P
  prev : P → P

namespace Links

/-- Two nodes are neighbours. -/
def Joined {P : Type} (l : Links P) (a b : P) : Prop := l.next a = b ∧ l.prev b = a

/-! ### Writing the fields -/

section Writes

variable {P : Type} [DecidableEq P]

/-- `a->next = b`. -/
def setNext (l : Links P) (a b : P) : Links P := ⟨Function.update l.next a b, l.prev⟩

/-- `a->prev = b`. -/
def setPrev (l : Links P) (a b : P) : Links P := ⟨l.next, Function.update l.prev a b⟩

/-- Linking `x` in between two neighbours. -/
def insertBetween (l : Links P) (x p n : P) : Links P :=
  (((l.setPrev n x).setNext x n).setPrev x p).setNext p x

/-- Making two nodes neighbours. -/
def join (l : Links P) (p n : P) : Links P := (l.setPrev n p).setNext p n

/-- Making the neighbours of `x` neighbours of each other. -/
def remove (l : Links P) (x : P) : Links P := l.join (l.prev x) (l.next x)

/-- A node linked to itself. -/
def single (l : Links P) (x : P) : Links P := (l.setNext x x).setPrev x x

@[simp] theorem setNext_next_self (l : Links P) (a b : P) : (l.setNext a b).next a = b := by
  simp [setNext]

@[simp] theorem setNext_prev (l : Links P) (a b : P) : (l.setNext a b).prev = l.prev := rfl

@[simp] theorem setPrev_prev_self (l : Links P) (a b : P) : (l.setPrev a b).prev a = b := by
  simp [setPrev]

@[simp] theorem setPrev_next (l : Links P) (a b : P) : (l.setPrev a b).next = l.next := rfl

theorem setNext_next_of_ne (l : Links P) {a b c : P} (h : c ≠ a) :
    (l.setNext a b).next c = l.next c := Function.update_of_ne h _ _

theorem setPrev_prev_of_ne (l : Links P) {a b c : P} (h : c ≠ a) :
    (l.setPrev a b).prev c = l.prev c := Function.update_of_ne h _ _

theorem insertBetween_next_of_ne (l : Links P) {x p n c : P} (hx : c ≠ x) (hp : c ≠ p) :
    (l.insertBetween x p n).next c = l.next c := by
  rw [insertBetween, setNext_next_of_ne _ hp, setPrev_next, setNext_next_of_ne _ hx, setPrev_next]

theorem insertBetween_prev_of_ne (l : Links P) {x p n c : P} (hx : c ≠ x) (hn : c ≠ n) :
    (l.insertBetween x p n).prev c = l.prev c := by
  rw [insertBetween, setNext_prev, setPrev_prev_of_ne _ hx, setNext_prev, setPrev_prev_of_ne _ hn]

theorem join_next_of_ne (l : Links P) {p n c : P} (hp : c ≠ p) :
    (l.join p n).next c = l.next c := by
  rw [join, setNext_next_of_ne _ hp, setPrev_next]

theorem join_prev_of_ne (l : Links P) {p n c : P} (hn : c ≠ n) :
    (l.join p n).prev c = l.prev c := by
  rw [join, setNext_prev, setPrev_prev_of_ne _ hn]

theorem single_next_of_ne (l : Links P) {x c : P} (h : c ≠ x) :
    (l.single x).next c = l.next c := by
  rw [single, setPrev_next, setNext_next_of_ne _ h]

theorem single_prev_of_ne (l : Links P) {x c : P} (h : c ≠ x) :
    (l.single x).prev c = l.prev c := by
  rw [single, setPrev_prev_of_ne _ h, setNext_prev]

theorem joined_join (l : Links P) (p n : P) : (l.join p n).Joined p n := by
  simp [Joined, join]

theorem joined_insertBetween (l : Links P) {x p n : P} (hp : x ≠ p) (hn : x ≠ n) :
    (l.insertBetween x p n).Joined p x ∧ (l.insertBetween x p n).Joined x n := by
  refine ⟨⟨?_, ?_⟩, ?_, ?_⟩
  · simp [insertBetween]
  · simp [insertBetween]
  · rw [insertBetween, setNext_next_of_ne _ hp, setPrev_next, setNext_next_self]
  · rw [insertBetween, setNext_prev, setPrev_prev_of_ne _ hn.symm, setNext_prev, setPrev_prev_self]

theorem joined_single (l : Links P) (x : P) : (l.single x).Joined x x := by
  simp [Joined, single]

end Writes

end Links

/-! ### Paths -/

variable {P : Type}

/-- The nodes `xs` follow `a`, one after the other. -/
def Path (l : Links P) : P → List P → Prop
  | _, [] => True
  | a, x :: xs => l.Joined a x ∧ Path l x xs

theorem path_append {l : Links P} {a y : P} {xs ys : List P} :
    Path l a (xs ++ y :: ys) ↔ Path l a xs ∧ l.Joined (xs.getLastD a) y ∧ Path l y ys := by
  induction xs generalizing a with
  | nil => simp [Path]
  | cons x xs ih =>
      rw [List.cons_append, Path, Path, ih, List.getLastD_cons, and_assoc]

/-- A path survives writes to `next` fields behind its last node and to `prev` fields before its
second node. -/
theorem Path.congr {l l' : Links P} {a : P} {xs : List P} (h : Path l a xs)
    (hnext : ∀ b ∈ (a :: xs).dropLast, l'.next b = l.next b)
    (hprev : ∀ b ∈ xs, l'.prev b = l.prev b) : Path l' a xs := by
  induction xs generalizing a with
  | nil => trivial
  | cons x xs ih =>
      obtain ⟨⟨hn, hp⟩, hrest⟩ := h
      rw [List.dropLast_cons_cons] at hnext
      refine ⟨⟨?_, ?_⟩, ih hrest (fun b hb => hnext b (List.mem_cons_of_mem _ hb))
        fun b hb => hprev b (List.mem_cons_of_mem _ hb)⟩
      · rw [hnext a List.mem_cons_self, hn]
      · rw [hprev x List.mem_cons_self, hp]

/-! ### Rings -/

/-- The ring at the head `h`, with the elements `xs`. -/
structure Ring (l : Links P) (h : P) (xs : List P) : Prop where
  nodup : (h :: xs).Nodup
  path : Path l h (xs ++ [h])

/-- The nodes before and after a place in a ring, and the two halves of the ring. -/
theorem ring_iff {l : Links P} {h : P} {xs ys : List P} :
    Ring l h (xs ++ ys) ↔ (h :: (xs ++ ys)).Nodup ∧ Path l h xs ∧
      l.Joined (xs.getLastD h) (ys.headD h) ∧ Path l (ys.headD h) (ys ++ [h]).tail := by
  have hsplit : Path l h (xs ++ ys ++ [h]) ↔ Path l h xs ∧
      l.Joined (xs.getLastD h) (ys.headD h) ∧ Path l (ys.headD h) (ys ++ [h]).tail := by
    cases ys with
    | nil => rw [List.append_nil]; exact path_append
    | cons y ys => rw [List.append_assoc]; exact path_append
  exact ⟨fun hring => ⟨hring.nodup, hsplit.1 hring.path⟩, fun ⟨hn, hp⟩ => ⟨hn, hsplit.2 hp⟩⟩

theorem Ring.next_last {l : Links P} {h : P} {xs ys : List P} (hr : Ring l h (xs ++ ys)) :
    l.next (xs.getLastD h) = ys.headD h := (ring_iff.1 hr).2.2.1.1

theorem Ring.prev_first {l : Links P} {h : P} {xs ys : List P} (hr : Ring l h (xs ++ ys)) :
    l.prev (ys.headD h) = xs.getLastD h := (ring_iff.1 hr).2.2.1.2

theorem Ring.next_head {l : Links P} {h : P} {xs : List P} (hr : Ring l h xs) :
    l.next h = xs.headD h := by
  have hnext : l.next (([] : List P).getLastD h) = xs.headD h := Ring.next_last hr
  exact hnext

/-- The head follows itself exactly in the empty ring. -/
theorem Ring.next_eq_head_iff {l : Links P} {h : P} {xs : List P} (hr : Ring l h xs) :
    l.next h = h ↔ xs = [] := by
  rw [hr.next_head]
  cases xs with
  | nil => simp
  | cons x xs =>
      have hne : x ≠ h := fun heq => (List.nodup_cons.1 hr.nodup).1 (by simp [heq])
      simp [hne]

/-- The links determine the elements. -/
theorem Ring.unique {l : Links P} {h : P} {xs ys : List P} (hx : Ring l h xs) (hy : Ring l h ys) :
    xs = ys := by
  have hpaths : ∀ (xs ys : List P) (a : P), h ∉ xs → h ∉ ys → Path l a (xs ++ [h]) →
      Path l a (ys ++ [h]) → xs = ys := by
    intro xs
    induction xs with
    | nil =>
        intro ys a _ hys hpx hpy
        cases ys with
        | nil => rfl
        | cons y ys => exact absurd (by rw [← hpx.1.1, hpy.1.1]; simp) hys
    | cons x xs ih =>
        intro ys a hxs hys hpx hpy
        cases ys with
        | nil => exact absurd (by rw [← hpy.1.1, hpx.1.1]; simp) hxs
        | cons y ys =>
            obtain rfl : x = y := hpx.1.1.symm.trans hpy.1.1
            rw [ih ys x (fun hm => hxs (List.mem_cons_of_mem _ hm))
              (fun hm => hys (List.mem_cons_of_mem _ hm)) hpx.2 hpy.2]
  exact hpaths xs ys h (List.nodup_cons.1 hx.nodup).1 (List.nodup_cons.1 hy.nodup).1 hx.path hy.path

/-- A ring survives writes to other nodes. -/
theorem Ring.congr {l l' : Links P} {h : P} {xs : List P} (hr : Ring l h xs)
    (hnext : ∀ b ∈ h :: xs, l'.next b = l.next b) (hprev : ∀ b ∈ h :: xs, l'.prev b = l.prev b) :
    Ring l' h xs := by
  refine ⟨hr.nodup, hr.path.congr (fun b hb => hnext b ?_) fun b hb => hprev b ?_⟩
  · rwa [← List.cons_append, List.dropLast_concat] at hb
  · simpa [or_comm] using hb

theorem ne_getLastD_of_mem_dropLast {h b : P} {xs : List P} (hn : (h :: xs).Nodup)
    (hb : b ∈ (h :: xs).dropLast) : b ≠ xs.getLastD h := by
  induction xs generalizing h with
  | nil => simp at hb
  | cons x xs ih =>
      rw [List.dropLast_cons_cons, List.mem_cons] at hb
      rw [List.getLastD_cons]
      obtain ⟨hh, hrest⟩ := List.nodup_cons.1 hn
      rcases hb with rfl | hb
      · exact fun heq => hh (heq ▸ List.getLastD_mem_cons)
      · exact ih hrest hb

theorem headD_mem_cons {h : P} {ys : List P} : ys.headD h ∈ h :: ys := by
  cases ys <;> simp

/-- Writes to the `next` field of the node before a place, and to the `prev` field of the node
after it, leave the two halves of the ring alone. -/
theorem halves_congr {l l' : Links P} {h : P} {xs ys : List P} (hnodup : (h :: (xs ++ ys)).Nodup)
    (hfirst : Path l h xs) (hsecond : Path l (ys.headD h) (ys ++ [h]).tail)
    (hnext : ∀ b ∈ h :: (xs ++ ys), b ≠ xs.getLastD h → l'.next b = l.next b)
    (hprev : ∀ b ∈ h :: (xs ++ ys), b ≠ ys.headD h → l'.prev b = l.prev b) :
    Path l' h xs ∧ Path l' (ys.headD h) (ys ++ [h]).tail := by
  rw [← List.cons_append, List.nodup_append] at hnodup
  obtain ⟨hxs, hys, hdisjoint⟩ := hnodup
  have hlast : xs.getLastD h ∈ h :: xs := List.getLastD_mem_cons
  constructor
  · refine hfirst.congr (fun b hb => hnext b ?_ (ne_getLastD_of_mem_dropLast hxs hb))
      fun b hb => hprev b (by simp [hb]) ?_
    · have := List.mem_of_mem_dropLast hb
      simp only [List.mem_cons, List.mem_append] at this ⊢
      tauto
    · rintro rfl
      have hhead : ys.headD h ∈ h :: ys := headD_mem_cons
      rcases List.mem_cons.1 hhead with heq | hmem
      · exact (List.nodup_cons.1 hxs).1 (heq ▸ hb)
      · exact hdisjoint _ (List.mem_cons_of_mem _ hb) _ hmem rfl
  · cases ys with
    | nil => trivial
    | cons y ys =>
        refine hsecond.congr (fun b hb => ?_) fun b hb => ?_
        · have hb' : b ∈ y :: ys := by
            rwa [List.headD_cons, List.cons_append, List.tail_cons, ← List.cons_append,
              List.dropLast_concat] at hb
          refine hnext b (by simp only [List.mem_cons, List.mem_append] at hb' ⊢; tauto) ?_
          exact fun heq => hdisjoint _ hlast _ hb' heq.symm
        · have hb' : b = h ∨ b ∈ ys := by
            simpa [or_comm] using hb
          refine hprev b (by simp only [List.mem_cons, List.mem_append]; tauto) ?_
          rintro rfl
          rcases hb' with heq | hmem
          · exact hdisjoint h List.mem_cons_self _ List.mem_cons_self heq.symm
          · exact (List.nodup_cons.1 hys).1 hmem

/-! ### What the compound writes do -/

variable [DecidableEq P]

/-- **Linking a new node into a ring.** -/
theorem Ring.insert {l : Links P} {h x : P} {xs ys : List P} (hr : Ring l h (xs ++ ys))
    (hx : x ∉ h :: (xs ++ ys)) :
    Ring (l.insertBetween x (xs.getLastD h) (ys.headD h)) h (xs ++ x :: ys) := by
  obtain ⟨hnodup, hfirst, -, hsecond⟩ := ring_iff.1 hr
  have hne : ∀ b ∈ h :: (xs ++ ys), b ≠ x := fun b hb heq => hx (heq ▸ hb)
  have hp : x ≠ xs.getLastD h := by
    have hmem : xs.getLastD h ∈ h :: xs := List.getLastD_mem_cons
    refine (hne _ ?_).symm
    simp only [List.mem_cons, List.mem_append] at hmem ⊢
    tauto
  have hn : x ≠ ys.headD h := by
    have hmem : ys.headD h ∈ h :: ys := headD_mem_cons
    refine (hne _ ?_).symm
    simp only [List.mem_cons, List.mem_append] at hmem ⊢
    tauto
  obtain ⟨hfirst', hsecond'⟩ := halves_congr hnodup hfirst hsecond
    (fun b hb hlast => l.insertBetween_next_of_ne (hne b hb) hlast)
    (fun b hb hhead => l.insertBetween_prev_of_ne (hne b hb) hhead)
  obtain ⟨hpx, hxn⟩ := l.joined_insertBetween hp hn
  refine ring_iff.2 ⟨?_, hfirst', hpx, ?_⟩
  · have hperm : (h :: (xs ++ x :: ys)).Perm (x :: h :: (xs ++ ys)) :=
      (List.perm_middle.cons h).trans (List.Perm.swap x h _)
    exact hperm.nodup_iff.2 (List.nodup_cons.2 ⟨hx, hnodup⟩)
  · cases ys with
    | nil => exact ⟨hxn, trivial⟩
    | cons y ys => exact ⟨hxn, hsecond'⟩

omit [DecidableEq P] in
/-- The neighbours of a node of a ring. -/
theorem Ring.neighbours {l : Links P} {h x : P} {xs ys : List P} (hr : Ring l h (xs ++ x :: ys)) :
    l.prev x = xs.getLastD h ∧ l.next x = ys.headD h := by
  have hr' : Ring l h ((xs ++ [x]) ++ ys) := by simpa using hr
  have hnext := hr'.next_last
  rw [List.getLastD_concat] at hnext
  exact ⟨hr.prev_first, hnext⟩

/-- **Taking a node out of a ring.** -/
theorem Ring.remove {l : Links P} {h x : P} {xs ys : List P} (hr : Ring l h (xs ++ x :: ys)) :
    Ring (l.remove x) h (xs ++ ys) := by
  have hr' : Ring l h ((xs ++ [x]) ++ ys) := by simpa using hr
  obtain ⟨hp, hn⟩ := hr.neighbours
  obtain ⟨-, hfirst, -, -⟩ := ring_iff.1 hr
  obtain ⟨-, -, -, hsecond⟩ := ring_iff.1 hr'
  have hnodup : (h :: (xs ++ ys)).Nodup :=
    hr.nodup.sublist (((List.sublist_cons_self x ys).append_left xs).cons_cons h)
  rw [Links.remove, hp, hn]
  obtain ⟨hfirst', hsecond'⟩ := halves_congr hnodup hfirst hsecond
    (fun b _ hlast => l.join_next_of_ne hlast) (fun b _ hhead => l.join_prev_of_ne hhead)
  exact ring_iff.2 ⟨hnodup, hfirst', l.joined_join _ _, hsecond'⟩

/-- A node linked to itself is the head of an empty ring. -/
theorem ring_single (l : Links P) (h : P) : Ring (l.single h) h [] :=
  ⟨List.nodup_singleton h, l.joined_single h, trivial⟩

/-! ### What they leave alone -/

/-- Linking a node into one ring leaves another ring alone. -/
theorem Ring.insert_other {l : Links P} {h k x : P} {xs ys zs : List P} (hk : Ring l k zs)
    (hapart : (h :: (xs ++ ys)).Disjoint (k :: zs)) (hx : x ∉ k :: zs) :
    Ring (l.insertBetween x (xs.getLastD h) (ys.headD h)) k zs := by
  have hlast : xs.getLastD h ∈ h :: xs := List.getLastD_mem_cons
  have hhead : ys.headD h ∈ h :: ys := headD_mem_cons
  refine hk.congr (fun b hb => l.insertBetween_next_of_ne ?_ ?_)
    fun b hb => l.insertBetween_prev_of_ne ?_ ?_
  · exact fun heq => hx (heq ▸ hb)
  · rintro rfl
    refine hapart ?_ hb
    simp only [List.mem_cons, List.mem_append] at hlast ⊢
    tauto
  · exact fun heq => hx (heq ▸ hb)
  · rintro rfl
    refine hapart ?_ hb
    simp only [List.mem_cons, List.mem_append] at hhead ⊢
    tauto

/-- Taking a node out of one ring leaves another ring alone. -/
theorem Ring.remove_other {l : Links P} {h k x : P} {xs ys zs : List P} (hk : Ring l k zs)
    (hr : Ring l h (xs ++ x :: ys)) (hapart : (h :: (xs ++ x :: ys)).Disjoint (k :: zs)) :
    Ring (l.remove x) k zs := by
  obtain ⟨hp, hn⟩ := hr.neighbours
  have hlast : xs.getLastD h ∈ h :: xs := List.getLastD_mem_cons
  have hhead : ys.headD h ∈ h :: ys := headD_mem_cons
  rw [Links.remove, hp, hn]
  refine hk.congr (fun b hb => l.join_next_of_ne ?_) fun b hb => l.join_prev_of_ne ?_
  · rintro rfl
    refine hapart ?_ hb
    simp only [List.mem_cons, List.mem_append] at hlast ⊢
    tauto
  · rintro rfl
    refine hapart ?_ hb
    simp only [List.mem_cons, List.mem_append] at hhead ⊢
    tauto

/-- Linking a node to itself leaves the rings it is not in alone. -/
theorem Ring.single_other {l : Links P} {k x : P} {zs : List P} (hk : Ring l k zs)
    (hx : x ∉ k :: zs) : Ring (l.single x) k zs :=
  hk.congr (fun _ hb => l.single_next_of_ne fun heq => hx (heq ▸ hb))
    fun _ hb => l.single_prev_of_ne fun heq => hx (heq ▸ hb)

/-- Linking a new node in behind the head. -/
theorem Ring.insertFirst {l : Links P} {h x : P} {xs : List P} (hr : Ring l h xs)
    (hx : x ∉ h :: xs) : Ring (l.insertBetween x h (l.next h)) h (x :: xs) := by
  rw [hr.next_head]
  have hinsert : Ring _ h ([] ++ x :: xs) := Ring.insert hr hx
  exact hinsert

/-! ### Families of rings -/

/-- Rings with heads `h`, one for each index in `S`, without common nodes. -/
structure Family {ι : Type} (l : Links P) (S : Set ι) (h : ι → P) (xs : ι → List P) : Prop where
  ring : ∀ i ∈ S, Ring l (h i) (xs i)
  apart : ∀ i ∈ S, ∀ j ∈ S, i ≠ j → (h i :: xs i).Disjoint (h j :: xs j)

namespace Family

variable {ι : Type} {l : Links P} {S : Set ι} {h : ι → P} {xs : ι → List P}

omit [DecidableEq P] in
theorem empty (l : Links P) (h : ι → P) (xs : ι → List P) : Family l ∅ h xs :=
  ⟨fun _ hi => hi.elim, fun _ hi => hi.elim⟩

omit [DecidableEq P] in
/-- A family survives writes to other nodes. -/
theorem congr {l' : Links P} (F : Family l S h xs)
    (hsame : ∀ i ∈ S, ∀ b ∈ h i :: xs i, l'.next b = l.next b ∧ l'.prev b = l.prev b) :
    Family l' S h xs :=
  ⟨fun i hi => (F.ring i hi).congr (fun b hb => (hsame i hi b hb).1)
    fun b hb => (hsame i hi b hb).2, F.apart⟩

variable [DecidableEq ι]

/-- **A new node behind one of the heads.** -/
theorem insertFirst (F : Family l S h xs) {i : ι} (hi : i ∈ S) {x : P}
    (hx : ∀ j ∈ S, x ∉ h j :: xs j) :
    Family (l.insertBetween x (h i) (l.next (h i))) S h (Function.update xs i (x :: xs i)) := by
  have hdisjoint : ∀ j ∈ S, j ≠ i → (h i :: x :: xs i).Disjoint (h j :: xs j) := by
    intro j hj hji b hb hb'
    have hb : b = x ∨ b ∈ h i :: xs i := by
      simp only [List.mem_cons] at hb ⊢
      tauto
    rcases hb with rfl | hb
    · exact hx j hj hb'
    · exact F.apart i hi j hj hji.symm hb hb'
  constructor
  · intro j hj
    rcases eq_or_ne j i with rfl | hji
    · rw [Function.update_self]
      exact (F.ring j hj).insertFirst (hx j hj)
    · rw [Function.update_of_ne hji, (F.ring i hi).next_head]
      have hother : Ring (l.insertBetween x (([] : List P).getLastD (h i)) ((xs i).headD (h i)))
          (h j) (xs j) :=
        (F.ring j hj).insert_other (F.apart i hi j hj hji.symm) (hx j hj)
      exact hother
  · intro j hj k hk hjk
    rcases eq_or_ne j i with rfl | hji
    · rw [Function.update_self, Function.update_of_ne hjk.symm]
      exact hdisjoint k hk hjk.symm
    · rcases eq_or_ne k i with rfl | hki
      · rw [Function.update_self, Function.update_of_ne hji]
        exact (hdisjoint j hj hji).symm
      · rw [Function.update_of_ne hji, Function.update_of_ne hki]
        exact F.apart j hj k hk hjk

/-- New nodes behind one of the heads, one after the other: the last one ends up first. -/
theorem foldl_insertFirst (F : Family l S h xs) {i : ι} (hi : i ∈ S) {ys : List P}
    (hys : ys.Nodup) (hnew : ∀ y ∈ ys, ∀ j ∈ S, y ∉ h j :: xs j) :
    Family (ys.foldl (fun l y => l.insertBetween y (h i) (l.next (h i))) l) S h
      (Function.update xs i (ys.reverse ++ xs i)) := by
  induction ys generalizing l xs with
  | nil => rwa [List.foldl_nil, List.reverse_nil, List.nil_append, Function.update_eq_self]
  | cons y ys ih =>
      obtain ⟨hy, hys⟩ := List.nodup_cons.1 hys
      have hstep := ih (F.insertFirst hi (hnew y List.mem_cons_self)) hys ?_
      · rw [Function.update_self, Function.update_idem] at hstep
        rwa [List.foldl_cons, List.reverse_cons, List.append_assoc, List.singleton_append]
      · intro z hz j hj hmem
        have hz' := hnew z (List.mem_cons_of_mem _ hz) j hj
        rcases eq_or_ne j i with rfl | hji
        · rw [Function.update_self] at hmem
          simp only [List.mem_cons, not_or] at hmem hz'
          rcases hmem with hmem | rfl | hmem
          · exact hz'.1 hmem
          · exact hy hz
          · exact hz'.2 hmem
        · rw [Function.update_of_ne hji] at hmem
          exact hz' hmem

/-- **One node taken out of its ring.**  It is in no ring afterwards. -/
theorem remove (F : Family l S h xs) {i : ι} (hi : i ∈ S) {x : P} {a b : List P}
    (hxs : xs i = a ++ x :: b) :
    Family (l.remove x) S h (Function.update xs i (a ++ b)) ∧
      ∀ j ∈ S, x ∉ h j :: Function.update xs i (a ++ b) j := by
  have hring := F.ring i hi
  rw [hxs] at hring
  have hsub : ∀ j, (Function.update xs i (a ++ b) j).Sublist (xs j) := by
    intro j
    rcases eq_or_ne j i with rfl | hji
    · rw [Function.update_self, hxs]
      exact (List.sublist_cons_self x b).append_left a
    · rw [Function.update_of_ne hji]
  refine ⟨⟨fun j hj => ?_, fun j hj k hk hjk c hc hc' => ?_⟩, fun j hj => ?_⟩
  · rcases eq_or_ne j i with rfl | hji
    · rw [Function.update_self]
      exact hring.remove
    · rw [Function.update_of_ne hji]
      refine (F.ring j hj).remove_other hring ?_
      rw [← hxs]
      exact F.apart i hi j hj hji.symm
  · exact F.apart j hj k hk hjk (((hsub j).cons_cons (h j)).subset hc)
      (((hsub k).cons_cons (h k)).subset hc')
  · rcases eq_or_ne j i with rfl | hji
    · have hnodup := (List.perm_middle.cons (h j)).nodup_iff.1 hring.nodup
      rw [Function.update_self]
      intro hmem
      have hnodup' := ((List.Perm.swap x (h j) (a ++ b)).nodup_iff).1 hnodup
      exact (List.nodup_cons.1 hnodup').1 hmem
    · rw [Function.update_of_ne hji]
      refine F.apart i hi j hj hji.symm ?_
      rw [hxs]
      simp

/-- A node moved from one ring to the front of another. -/
theorem move (F : Family l S h xs) {i j : ι} (hi : i ∈ S) (hj : j ∈ S) (hij : j ≠ i) {x : P}
    {a b : List P} (hxs : xs i = a ++ x :: b) :
    Family ((l.remove x).insertBetween x (h j) ((l.remove x).next (h j))) S h
      (Function.update (Function.update xs i (a ++ b)) j (x :: xs j)) := by
  obtain ⟨hremove, hnew⟩ := F.remove hi hxs
  have hinsert := hremove.insertFirst hj hnew
  rwa [Function.update_of_ne hij] at hinsert

/-- **A new, empty ring.** -/
theorem single (F : Family l S h xs) {i : ι} (hi : i ∉ S) (hx : ∀ j ∈ S, h i ∉ h j :: xs j) :
    Family (l.single (h i)) (insert i S) h (Function.update xs i []) := by
  have hne : ∀ j ∈ S, j ≠ i := fun j hj hji => hi (hji ▸ hj)
  constructor
  · intro j hj
    rcases Set.mem_insert_iff.1 hj with rfl | hj
    · rw [Function.update_self]
      exact ring_single l (h j)
    · rw [Function.update_of_ne (hne j hj)]
      exact (F.ring j hj).single_other (hx j hj)
  · have hdisjoint : ∀ j ∈ S, [h i].Disjoint (h j :: xs j) := by
      intro j hj b hb
      rw [List.mem_singleton.1 hb]
      exact hx j hj
    intro j hj k hk hjk
    rcases Set.mem_insert_iff.1 hj with rfl | hjS
    · rcases Set.mem_insert_iff.1 hk with rfl | hkS
      · exact absurd rfl hjk
      · rw [Function.update_self, Function.update_of_ne (hne k hkS)]
        exact hdisjoint k hkS
    · rcases Set.mem_insert_iff.1 hk with rfl | hkS
      · rw [Function.update_self, Function.update_of_ne (hne j hjS)]
        exact (hdisjoint j hjS).symm
      · rw [Function.update_of_ne (hne j hjS), Function.update_of_ne (hne k hkS)]
        exact F.apart j hjS k hkS hjk

end Family

end Intrusive
