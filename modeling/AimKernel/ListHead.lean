/-
**The intrusive lists of `list.h`.**

A `struct list_head` is a pair of links inside some other structure; a list is a ring of them that
starts at a head of its own.  `for_each_entry` walks a ring by the addresses of the enclosing
structures: it stops when the node of the current entry is the head.

Main definitions:

* `Aim.Ptr`, `Aim.ListHeads` — pointers, and the `struct list_head`s in memory;
* `Aim.ListHeads.listAdd`, `Aim.ListHeads.listAddTail`, `Aim.ListHeads.listDel`,
  `Aim.ListHeads.listInit`, `Aim.ListHeads.listEmpty` — the operations;
* `Aim.ListHeads.forEachEntry` — the loop.

Main results:

* `Aim.ListHeads.forEachEntry_eq` — **on a ring the loop visits the entries in order and ends**;
* `Aim.ListHeads.scan_find` — a search stops at the first entry that it looks for, and at the
  enclosing address of the head when there is none.
-/

import AimKernel.CArith
import AimKernel.IntrusiveRing

set_option relaxedAutoImplicit false
set_option autoImplicit false

namespace Aim

open Intrusive

/-- A pointer. -/
abbrev Ptr := BitVec 32

/-- The `struct list_head`s in memory, by address. -/
abbrev ListHeads := Links Ptr

namespace ListHeads

/-! ### The operations -/

/-- `__list_add(new, prev, next)`. -/
def listAddBetween (l : ListHeads) (new prev next : Ptr) : ListHeads :=
  l.insertBetween new prev next

/-- `list_add(new, head)`, also called `list_add_after`. -/
def listAdd (l : ListHeads) (new head : Ptr) : ListHeads :=
  l.listAddBetween new head (l.next head)

/-- `list_add_tail(new, head)`, also called `list_add_before`. -/
def listAddTail (l : ListHeads) (new head : Ptr) : ListHeads :=
  l.listAddBetween new (l.prev head) head

/-- `list_del(entry)`. -/
def listDel (l : ListHeads) (entry : Ptr) : ListHeads := l.remove entry

/-- `INIT_LIST_HEAD(list)`. -/
def listInit (l : ListHeads) (list : Ptr) : ListHeads := l.single list

/-- `list_empty(head)`. -/
def listEmpty (l : ListHeads) (head : Ptr) : Bool := decide (l.next head = head)

/-- `for_each_entry(pos, head, member)` from the entry `pos` on; `member` is the offset of the
links in an entry.  The body carries a state, and breaks out of the loop with `done`. -/
def forEachEntryFrom {β : Type} (l : ListHeads) (head member : Ptr)
    (body : β → Ptr → ForInStep β) : ℕ → Ptr → β → Outcome (Ptr × β)
  | 0, _, _ => .error .hang
  | fuel + 1, pos, b =>
    if pos + member ≠ head then
      match body b pos with
      | .done b' => .ok (pos, b')
      | .yield b' => forEachEntryFrom l head member body fuel (l.next (pos + member) - member) b'
    else .ok (pos, b)

/-- `for_each_entry(pos, head, member)`: the last `pos`, and the state.  There are no more than
`2 ^ 32` entries to visit. -/
def forEachEntry {β : Type} (l : ListHeads) (head member : Ptr) (body : β → Ptr → ForInStep β)
    (b : β) : Outcome (Ptr × β) :=
  forEachEntryFrom l head member body (2 ^ 32) (l.next head - member) b

/-! ### Walking a ring -/

/-- What the loop computes from the entries of a ring; `last` is where it ends when the body never
breaks out. -/
def scan {β : Type} (body : β → Ptr → ForInStep β) (last : Ptr) : List Ptr → β → Ptr × β
  | [], b => (last, b)
  | e :: es, b =>
    match body b e with
    | .done b' => (e, b')
    | .yield b' => scan body last es b'

/-- The nodes of a list of entries. -/
def nodes (member : Ptr) (es : List Ptr) : List Ptr := es.map (· + member)

@[simp] theorem nodes_append (member : Ptr) (es es' : List Ptr) :
    nodes member (es ++ es') = nodes member es ++ nodes member es' := List.map_append

@[simp] theorem nodes_cons (member e : Ptr) (es : List Ptr) :
    nodes member (e :: es) = (e + member) :: nodes member es := rfl

theorem forEachEntryFrom_eq {β : Type} {l : ListHeads} {head member : Ptr}
    {body : β → Ptr → ForInStep β} :
    ∀ (es : List Ptr) (a : Ptr) (fuel : ℕ) (b : β), es.length < fuel → head ∉ nodes member es →
      Path l a (nodes member es ++ [head]) →
      forEachEntryFrom l head member body fuel (l.next a - member) b =
        .ok (scan body (head - member) es b) := by
  intro es
  induction es with
  | nil =>
      intro a fuel b hfuel _ hpath
      obtain ⟨fuel, rfl⟩ : ∃ fuel', fuel = fuel' + 1 := ⟨fuel - 1, by simp at hfuel; omega⟩
      have hnext : l.next a = head := hpath.1.1
      rw [hnext, forEachEntryFrom, if_neg (by simp)]
      rfl
  | cons e es ih =>
      intro a fuel b hfuel hhead hpath
      obtain ⟨fuel, rfl⟩ : ∃ fuel', fuel = fuel' + 1 := ⟨fuel - 1, by simp at hfuel; omega⟩
      have hnext : l.next a = e + member := hpath.1.1
      have hne : e + member ≠ head := fun heq => hhead (heq ▸ List.mem_cons_self)
      rw [hnext, BitVec.add_sub_cancel, forEachEntryFrom, if_pos hne, scan]
      cases body b e with
      | done b' => rfl
      | yield b' =>
          exact ih (e + member) fuel b' (by simpa using hfuel)
            (fun hmem => hhead (List.mem_cons_of_mem _ hmem)) hpath.2

/-- A ring of pointers has fewer than `2 ^ 32` elements. -/
theorem length_lt_of_nodup {h : Ptr} {xs : List Ptr} (hn : (h :: xs).Nodup) :
    xs.length < 2 ^ 32 := by
  have hfin : ((h :: xs).map BitVec.toFin).Nodup :=
    hn.map fun a b hab => BitVec.eq_of_toFin_eq hab
  have hlen := hfin.length_le_card
  rw [Fintype.card_fin, List.length_map, List.length_cons] at hlen
  omega

/-- **On a ring the loop visits the entries in order and ends.** -/
theorem forEachEntry_eq {β : Type} {l : ListHeads} {head member : Ptr} {es : List Ptr}
    (hring : Ring l head (nodes member es)) (body : β → Ptr → ForInStep β) (b : β) :
    l.forEachEntry head member body b = .ok (scan body (head - member) es b) := by
  have hlen := length_lt_of_nodup hring.nodup
  rw [nodes, List.length_map] at hlen
  exact forEachEntryFrom_eq es head (2 ^ 32) b hlen (List.nodup_cons.1 hring.nodup).1 hring.path

/-- The body of a search: it breaks out of the loop at an entry that it looks for. -/
def findBody (stop : Ptr → Bool) (_ : Unit) (pos : Ptr) : ForInStep Unit :=
  if stop pos then .done () else .yield ()

/-- A search stops at the first entry that it looks for. -/
theorem scan_find (stop : Ptr → Bool) (last : Ptr) (es : List Ptr) :
    scan (findBody stop) last es () = ((es.dropWhile fun e => !stop e).headD last, ()) := by
  induction es with
  | nil => rfl
  | cons e es ih =>
      rw [scan, findBody, List.dropWhile_cons]
      cases stop e with
      | false => simpa using ih
      | true => simp

/-! ### The operations on rings -/

theorem listEmpty_iff {l : ListHeads} {head : Ptr} {xs : List Ptr} (hring : Ring l head xs) :
    l.listEmpty head = true ↔ xs = [] := by
  rw [listEmpty, decide_eq_true_iff, hring.next_eq_head_iff]

/-- `list_add_before` puts the new node before the node that it is given, or last when it is given
the head. -/
theorem ring_listAddTail {l : ListHeads} {head new : Ptr} {xs ys : List Ptr}
    (hring : Ring l head (xs ++ ys)) (hnew : new ∉ head :: (xs ++ ys)) :
    Ring (l.listAddTail new (ys.headD head)) head (xs ++ new :: ys) := by
  rw [listAddTail, listAddBetween, hring.prev_first]
  exact hring.insert hnew

/-- `list_del` takes the node out. -/
theorem ring_listDel {l : ListHeads} {head entry : Ptr} {xs ys : List Ptr}
    (hring : Ring l head (xs ++ entry :: ys)) : Ring (l.listDel entry) head (xs ++ ys) :=
  hring.remove

end ListHeads

end Aim
