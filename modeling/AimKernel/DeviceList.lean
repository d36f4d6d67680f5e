/-
**The device index as a sorted list.**

`devlist.c` keeps the devices of the kernel on an intrusive list sorted by device number.  Adding a
device allocates an entry and walks the list to the first entry with a greater number; removing one
walks the whole list, looking for the entry and for devices connected to it at once; the look-ups
walk to the first match.  When a walk finds nothing its cursor is the address that encloses the
list head as if the head were an entry.

Main definitions:

* `Aim.Device`, `Aim.DeviceList` — `struct device`, and the list with the entries in memory;
* `Aim.DeviceList.add`, `Aim.DeviceList.remove`, `Aim.DeviceList.fromId`, `Aim.DeviceList.fromName`
  — the functions of `devlist.c`;
* `Aim.DeviceList.Holds` — the list holds given entries.

Main results:

* `Aim.DeviceList.add_spec`, `Aim.DeviceList.remove_spec`, `Aim.DeviceList.fromId_eq`,
  `Aim.DeviceList.fromName_eq` — **what each of the functions does.**
-/

import AimKernel.CString
import AimKernel.ListHead
import AimKernel.StableOrder

set_option relaxedAutoImplicit false
set_option autoImplicit false

namespace Aim

open Intrusive StableOrder

/-! ### Devices -/

/-- What the index reads of a `struct device`. -/
structure Device where
  name : CString
  devno : BitVec 32
  /-- `NULL` is 0. -/
  bus : Ptr
deriving DecidableEq

/-- The list, and what is in memory. -/
structure DeviceList where
  /-- `&__head`. -/
  head : Ptr
  links : ListHeads
  /-- The `dev` field of a `struct device_entry`. -/
  dev : Ptr → Ptr
  /-- The devices, by address. -/
  device : Ptr → Device

namespace DeviceList

/-- The offset of `node` in `struct device_entry`. -/
def node : Ptr := 4

/-- `__cmp(a, b)`. -/
def cmp (s : DeviceList) (a b : Ptr) : ℤ :=
  if (s.device (s.dev a)).devno > (s.device (s.dev b)).devno then 1
  else if (s.device (s.dev a)).devno < (s.device (s.dev b)).devno then -1
  else 0

/-- `this->dev = dev`. -/
def setDev (s : DeviceList) (this dev : Ptr) : DeviceList :=
  { s with dev := Function.update s.dev this dev }

/-- The loop of `__add`, which stops at the first entry that belongs behind `this`, and the
insertion in front of that entry. -/
def insertEntry (s : DeviceList) (this : Ptr) : Outcome DeviceList := do
  let (tmp, _) ← s.links.forEachEntry s.head node
    (ListHeads.findBody fun tmp => decide (s.cmp tmp this > 0)) ()
  return { s with links := s.links.listAddTail (this + node) (tmp + node) }

/-- `__add(dev)`; `this` is the answer of `kmalloc`. -/
def add (s : DeviceList) (dev this : Ptr) : Outcome (ℤ × DeviceList) :=
  if this = 0 then
    return (eof, s)
  else do
    let s ← (s.setDev this dev).insertEntry this
    return (0, s)

/-- The body of the loop of `__remove(dev)`: `this`, and whether it jumped to `ret`. -/
def removeBody (s : DeviceList) (dev : Ptr) (b : Ptr × Bool) (tmp : Ptr) :
    ForInStep (Ptr × Bool) :=
  if (s.device (s.dev tmp)).bus = dev then .done (b.1, true)
  else if s.dev tmp = dev then .yield (tmp, false)
  else .yield (b.1, false)

/-- `__remove(dev)`; the second component is the entry passed to `kfree`. -/
def remove (s : DeviceList) (dev : Ptr) : Outcome (ℤ × Option Ptr × DeviceList) := do
  let (_, this, connected) ← s.links.forEachEntry s.head node (s.removeBody dev) (0, false)
  if connected then
    return (eof, none, s)
  if this ≠ 0 then
    return (0, some this, { s with links := s.links.listDel (this + node) })
  return (eof, none, s)

/-- `__from_id(devno)`. -/
def fromId (s : DeviceList) (devno : BitVec 32) : Outcome Ptr := do
  let (tmp, _) ← s.links.forEachEntry s.head node
    (ListHeads.findBody fun tmp => decide ((s.device (s.dev tmp)).devno = devno)) ()
  return if tmp + node ≠ s.head then s.dev tmp else 0

/-- `__from_name(name)`. -/
def fromName (s : DeviceList) (name : CString) : Outcome Ptr := do
  let (tmp, _) ← s.links.forEachEntry s.head node
    (ListHeads.findBody fun tmp => decide (strcmp (s.device (s.dev tmp)).name name = 0)) ()
  return if tmp + node ≠ s.head then s.dev tmp else 0

/-! ### The entries of the list -/

/-- The list holds the entries `es`, in this order. -/
structure Holds (s : DeviceList) (es : List Ptr) : Prop where
  ring : Ring s.links s.head (ListHeads.nodes node es)
  nonnull : 0 ∉ es

/-- The devices of the entries. -/
def devs (s : DeviceList) (es : List Ptr) : List Ptr := es.map s.dev

/-- The key of the list. -/
def key (s : DeviceList) (d : Ptr) : ℕ := (s.device d).devno.toNat

theorem node_mem_iff {e : Ptr} {es : List Ptr} : e + node ∈ ListHeads.nodes node es ↔ e ∈ es := by
  simp [ListHeads.nodes]

theorem Holds.node_ne_head {s : DeviceList} {es : List Ptr} (h : s.Holds es) {e : Ptr}
    (he : e ∈ es) : e + node ≠ s.head :=
  fun heq => (List.nodup_cons.1 h.ring.nodup).1 (heq ▸ node_mem_iff.2 he)

theorem Holds.nodup {s : DeviceList} {es : List Ptr} (h : s.Holds es) : es.Nodup :=
  List.Nodup.of_map _ (List.nodup_cons.1 h.ring.nodup).2

/-- The entry that a search ends at, when it finds nothing, encloses the head. -/
theorem headD_add_node (s : DeviceList) (es : List Ptr) :
    es.headD (s.head - node) + node = (ListHeads.nodes node es).headD s.head := by
  cases es with
  | nil => simp [ListHeads.nodes]
  | cons e es => rfl

/-! ### The look-ups -/

/-- A search for a device that satisfies `p`. -/
theorem search_eq {s : DeviceList} {es : List Ptr} (h : s.Holds es) (p : Ptr → Bool) :
    ∃ tmp, s.links.forEachEntry s.head node (ListHeads.findBody fun tmp => p (s.dev tmp)) () =
        .ok (tmp, ()) ∧
      (if tmp + node ≠ s.head then s.dev tmp else 0) = ((s.devs es).find? p).getD 0 := by
  refine ⟨(es.dropWhile fun e => !p (s.dev e)).headD (s.head - node), ?_, ?_⟩
  · rw [ListHeads.forEachEntry_eq h.ring, ListHeads.scan_find]
  · rw [devs, List.find?_eq_head?_dropWhile_not, List.dropWhile_map]
    cases hdrop : es.dropWhile ((fun d => !p d) ∘ s.dev) with
    | nil =>
        have hdrop' : es.dropWhile (fun e => !p (s.dev e)) = [] := hdrop
        rw [hdrop']
        simp
    | cons e rest =>
        have hdrop' : es.dropWhile (fun e => !p (s.dev e)) = e :: rest := hdrop
        have hmem : e ∈ es := (List.dropWhile_sublist _).subset (hdrop ▸ List.mem_cons_self)
        rw [hdrop', List.headD_cons, if_pos (h.node_ne_head hmem)]
        rfl

/-- `__from_id` returns the first device with the number, or `NULL`. -/
theorem fromId_eq {s : DeviceList} {es : List Ptr} (h : s.Holds es) (devno : BitVec 32) :
    s.fromId devno = .ok (((s.devs es).find? fun d => decide ((s.device d).devno = devno)).getD 0) := by
  obtain ⟨tmp, hloop, htmp⟩ := search_eq h fun d => decide ((s.device d).devno = devno)
  rw [fromId, hloop, ← htmp]
  rfl

/-- `__from_name` returns the first device with the name, or `NULL`. -/
theorem fromName_eq {s : DeviceList} {es : List Ptr} (h : s.Holds es) (name : CString) :
    s.fromName name = .ok (((s.devs es).find? fun d => decide ((s.device d).name = name)).getD 0) := by
  obtain ⟨tmp, hloop, htmp⟩ :=
    search_eq h fun d => decide (strcmp (s.device d).name name = 0)
  rw [fromName, hloop]
  simp only [strcmp_eq_zero_iff] at htmp
  rw [← htmp]
  rfl

/-! ### Adding a device -/

/-- Where the loop of `__add` stops: in front of the first entry with a greater number. -/
theorem cmp_gt_iff (s : DeviceList) (a b : Ptr) :
    s.cmp a b > 0 ↔ ¬ s.key (s.dev a) ≤ s.key (s.dev b) := by
  rw [cmp, key, key]
  simp only [gt_iff_lt, BitVec.lt_def]
  split
  · simp only [Int.zero_lt_one, true_iff]
    omega
  · split
    · simp only [Int.reduceNeg, Int.reduceLT, false_iff, not_not]
      omega
    · simp only [lt_self_iff_false, false_iff, not_not]
      omega

/-- Without memory for an entry `__add` fails and changes nothing. -/
theorem add_null (s : DeviceList) (dev : Ptr) : s.add dev 0 = .ok (eof, s) := by
  rw [add, if_pos rfl]
  rfl

theorem devs_setDev {s : DeviceList} {es : List Ptr} {this : Ptr} (hnew : this ∉ es) (dev : Ptr) :
    (s.setDev this dev).devs es = s.devs es := by
  refine List.map_congr_left fun e he => Function.update_of_ne ?_ _ _
  rintro rfl
  exact hnew he

/-- The loop and the insertion: the entries up to the cursor, the new one, the entries from the
cursor on. -/
theorem insertEntry_eq {s : DeviceList} {es : List Ptr} (h : s.Holds es) {this : Ptr}
    (hthis : this ≠ 0) (hnew : this ∉ es) (hhead : this + node ≠ s.head) :
    ∃ l pre post, s.insertEntry this = .ok { s with links := l } ∧ es = pre ++ post ∧
      Holds { s with links := l } (pre ++ this :: post) ∧
      s.devs (pre ++ this :: post) = insertByKey s.key (s.dev this) (s.devs es) := by
  have hstop : (fun e => !decide (s.cmp e this > 0)) =
      (fun d => decide (s.key d ≤ s.key (s.dev this))) ∘ s.dev := by
    funext e
    simp only [cmp_gt_iff, Function.comp_apply, decide_not, Bool.not_not]
  have hloop : s.links.forEachEntry s.head node
      (ListHeads.findBody fun tmp => decide (s.cmp tmp this > 0)) () =
      .ok ((es.dropWhile fun e => !decide (s.cmp e this > 0)).headD (s.head - node), ()) := by
    rw [ListHeads.forEachEntry_eq h.ring, ListHeads.scan_find]
  rw [hstop] at hloop
  obtain ⟨pre, post, hsplit, hpre, hpost⟩ : ∃ pre post, es = pre ++ post ∧
      pre = es.takeWhile ((fun d => decide (s.key d ≤ s.key (s.dev this))) ∘ s.dev) ∧
      post = es.dropWhile ((fun d => decide (s.key d ≤ s.key (s.dev this))) ∘ s.dev) :=
    ⟨_, _, List.takeWhile_append_dropWhile.symm, rfl, rfl⟩
  rw [← hpost] at hloop
  have hring : Ring s.links s.head (ListHeads.nodes node pre ++ ListHeads.nodes node post) := by
    have hes := h.ring
    rwa [hsplit, ListHeads.nodes_append] at hes
  have hfresh : this + node ∉
      s.head :: (ListHeads.nodes node pre ++ ListHeads.nodes node post) := by
    rw [List.mem_cons, List.mem_append, node_mem_iff, node_mem_iff, ← List.mem_append, ← hsplit]
    exact not_or.2 ⟨hhead, hnew⟩
  refine ⟨_, pre, post, bind_eq_ok.2 ⟨_, hloop, rfl⟩, hsplit, ⟨?_, ?_⟩, ?_⟩
  · have hadd := ListHeads.ring_listAddTail hring hfresh
    rw [headD_add_node, ListHeads.nodes_append, ListHeads.nodes_cons]
    exact hadd
  · have hes := h.nonnull
    rw [hsplit, List.mem_append, not_or] at hes
    rw [List.mem_append, List.mem_cons, not_or, not_or]
    exact ⟨hes.1, hthis.symm, hes.2⟩
  · rw [insertByKey_eq, devs, devs, List.takeWhile_map, List.dropWhile_map, ← hpre, ← hpost]
    simp

/-- **`__add` inserts the device behind those with numbers that are not greater.** -/
theorem add_spec {s : DeviceList} {es : List Ptr} (h : s.Holds es) {dev this : Ptr}
    (hthis : this ≠ 0) (hnew : this ∉ es) (hhead : this + node ≠ s.head) :
    ∃ s' es', s.add dev this = .ok (0, s') ∧ s'.Holds es' ∧ s'.head = s.head ∧
      s'.device = s.device ∧ (∀ e, e ∈ es' → e = this ∨ e ∈ es) ∧
      s'.devs es' = insertByKey s.key dev (s.devs es) := by
  have hset : (s.setDev this dev).Holds es := ⟨h.ring, h.nonnull⟩
  obtain ⟨l, pre, post, hinsert, hsplit, hholds, hdevs⟩ := insertEntry_eq hset hthis hnew hhead
  refine ⟨_, _, ?_, hholds, rfl, rfl, ?_, ?_⟩
  · rw [add, if_neg hthis, hinsert]
    rfl
  · intro e he
    rw [hsplit, List.mem_append]
    rw [List.mem_append, List.mem_cons] at he
    tauto
  · have hthis' : (s.setDev this dev).dev this = dev := Function.update_self _ _ _
    rw [hthis', devs_setDev hnew] at hdevs
    exact hdevs

/-! ### Removing a device -/

/-- A device that is connected to `dev` makes the loop of `__remove` jump out. -/
theorem scan_connected {s : DeviceList} {dev last : Ptr} {es : List Ptr} (b : Ptr × Bool)
    (h : ∃ e ∈ es, (s.device (s.dev e)).bus = dev) :
    (ListHeads.scan (s.removeBody dev) last es b).2.2 = true := by
  induction es generalizing b with
  | nil => simp at h
  | cons e es ih =>
      rw [ListHeads.scan, removeBody]
      by_cases hbus : (s.device (s.dev e)).bus = dev
      · rw [if_pos hbus]
      · have hrest : ∃ e ∈ es, (s.device (s.dev e)).bus = dev := by
          obtain ⟨e', he', hbus'⟩ := h
          rcases List.mem_cons.1 he' with rfl | he'
          · exact absurd hbus' hbus
          · exact ⟨e', he', hbus'⟩
        rw [if_neg hbus]
        by_cases hdev : s.dev e = dev
        · rw [if_pos hdev]
          exact ih _ hrest
        · rw [if_neg hdev]
          exact ih _ hrest

/-- Otherwise the loop ends with the last entry of `dev`. -/
theorem scan_unconnected {s : DeviceList} {dev last : Ptr} {es : List Ptr} (this : Ptr)
    (h : ∀ e ∈ es, (s.device (s.dev e)).bus ≠ dev) :
    ListHeads.scan (s.removeBody dev) last es (this, false) =
      (last, (es.filter fun e => decide (s.dev e = dev)).getLastD this, false) := by
  induction es generalizing this with
  | nil => rfl
  | cons e es ih =>
      obtain ⟨he, hes⟩ := List.forall_mem_cons.1 h
      rw [ListHeads.scan, removeBody, if_neg he, List.filter_cons]
      by_cases hdev : s.dev e = dev
      · rw [if_pos hdev, if_pos (by simpa using hdev), List.getLastD_cons]
        exact ih e hes
      · rw [if_neg hdev, if_neg (by simpa using hdev)]
        exact ih this hes

/-- The last element that satisfies a test splits a list. -/
theorem exists_last_split {α : Type} {p : α → Bool} {l : List α} (h : ∃ a ∈ l, p a = true) (d : α) :
    ∃ pre x post, l = pre ++ x :: post ∧ p x = true ∧ (∀ a ∈ post, p a = false) ∧
      (l.filter p).getLastD d = x := by
  induction l using List.reverseRecOn with
  | nil => simp at h
  | append_singleton l x ih =>
      cases hx : p x with
      | true => exact ⟨l, x, [], rfl, hx, by simp, by simp [List.filter_append, hx]⟩
      | false =>
          have hl : ∃ a ∈ l, p a = true := by
            obtain ⟨a, ha, hpa⟩ := h
            rcases List.mem_append.1 ha with ha | ha
            · exact ⟨a, ha, hpa⟩
            · obtain rfl := List.mem_singleton.1 ha
              simp [hx] at hpa
          obtain ⟨pre, y, post, rfl, hy, hpost, hlast⟩ := ih hl
          refine ⟨pre, y, post ++ [x], by simp, hy, ?_, ?_⟩
          · intro a ha
            rcases List.mem_append.1 ha with ha | ha
            · exact hpost a ha
            · obtain rfl := List.mem_singleton.1 ha
              exact hx
          · rw [List.filter_append, List.filter_singleton, hx]
            simpa using hlast

theorem mem_devs {s : DeviceList} {es : List Ptr} {d : Ptr} :
    d ∈ s.devs es ↔ ∃ e ∈ es, s.dev e = d := List.mem_map

/-- `__remove` fails and changes nothing when a listed device is connected to `dev`, or when `dev`
is not listed. -/
theorem remove_fails {s : DeviceList} {es : List Ptr} (h : s.Holds es) {dev : Ptr}
    (hfail : (∃ d ∈ s.devs es, (s.device d).bus = dev) ∨ dev ∉ s.devs es) :
    s.remove dev = .ok (eof, none, s) := by
  rw [remove, ListHeads.forEachEntry_eq h.ring, ok_bind]
  by_cases hbus : ∃ e ∈ es, (s.device (s.dev e)).bus = dev
  · have hconnected : (ListHeads.scan (s.removeBody dev) (s.head - node) es (0, false)).2.2 = true :=
      scan_connected _ hbus
    simp only [if_pos hconnected]
    rfl
  · have hmem : dev ∉ s.devs es := by
      rcases hfail with ⟨d, hd, hdbus⟩ | hmem
      · obtain ⟨e, he, rfl⟩ := mem_devs.1 hd
        exact absurd ⟨e, he, hdbus⟩ hbus
      · exact hmem
    have hnone : es.filter (fun e => decide (s.dev e = dev)) = [] := by
      rw [List.filter_eq_nil_iff]
      intro e he
      simpa using fun heq => hmem (mem_devs.2 ⟨e, he, heq⟩)
    push Not at hbus
    rw [scan_unconnected 0 hbus, hnone]
    rfl

/-- **`__remove` takes out the last entry of a listed device that no listed device is connected
to.** -/
theorem remove_spec {s : DeviceList} {es : List Ptr} (h : s.Holds es) {dev : Ptr}
    (hmem : dev ∈ s.devs es) (hbus : ∀ d ∈ s.devs es, (s.device d).bus ≠ dev) :
    ∃ s' es' this, s.remove dev = .ok (0, some this, s') ∧ s'.Holds es' ∧ s'.head = s.head ∧
      s'.device = s.device ∧ (∀ e ∈ es', e ∈ es ∧ e ≠ this) ∧
      s'.devs es' = eraseLast dev (s.devs es) := by
  have hes : ∀ e ∈ es, (s.device (s.dev e)).bus ≠ dev := fun e he =>
    hbus _ (mem_devs.2 ⟨e, he, rfl⟩)
  obtain ⟨e₀, he₀, hdev₀⟩ := mem_devs.1 hmem
  obtain ⟨pre, this, post, rfl, hthis, hpost, hlast⟩ :=
    exists_last_split (p := fun e => decide (s.dev e = dev)) ⟨e₀, he₀, by simpa using hdev₀⟩ 0
  have hnonnull : this ≠ 0 := by
    rintro rfl
    exact h.nonnull (List.mem_append_right _ List.mem_cons_self)
  have hring : Ring s.links s.head
      (ListHeads.nodes node pre ++ (this + node) :: ListHeads.nodes node post) := by
    have hes := h.ring
    rwa [ListHeads.nodes_append, ListHeads.nodes_cons] at hes
  have hnodup := List.nodup_middle.1 h.nodup
  refine ⟨{ s with links := s.links.listDel (this + node) }, pre ++ post, this, ?_, ⟨?_, ?_⟩, rfl,
    rfl, ?_, ?_⟩
  · rw [remove, ListHeads.forEachEntry_eq h.ring, ok_bind, scan_unconnected 0 hes, hlast]
    simp only [Bool.false_eq_true, if_false, if_pos hnonnull]
    rfl
  · have hdel := ListHeads.ring_listDel hring
    rwa [← ListHeads.nodes_append] at hdel
  · have hzero := h.nonnull
    simp only [List.mem_append, List.mem_cons, not_or] at hzero ⊢
    exact ⟨hzero.1, hzero.2.2⟩
  · intro e he
    refine ⟨?_, ?_⟩
    · simp only [List.mem_append, List.mem_cons] at he ⊢
      tauto
    · rintro rfl
      exact (List.nodup_cons.1 hnodup).1 he
  · have hdev : s.dev this = dev := by simpa using hthis
    have hnot : dev ∉ s.devs post := by
      intro hd
      obtain ⟨e, he, heq⟩ := mem_devs.1 hd
      simpa [heq] using hpost e he
    rw [devs, devs, List.map_append, List.map_append, List.map_cons, hdev]
    exact (eraseLast_append hnot).symm

end DeviceList

end Aim
