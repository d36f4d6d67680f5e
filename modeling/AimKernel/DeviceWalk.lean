/-
**Walking the device index.**

`for_each_device` keeps the entry that it is at in a cursor of its own.  `__next` compares this entry
with the list head, but it is the node inside the entry that is the head when the walk is over: the
cursor is then four bytes below the head, and what `__next` returns is the word that happens to be
there.

Main definitions:

* `Aim.DeviceList.next` — `__next`;
* `Aim.DeviceList.forEachDevice` — the devices that the loop sees.

Main results:

* `Aim.DeviceList.forEachDeviceFrom_eq`, `Aim.DeviceList.forEachDeviceFrom_hang` — the walk from an
  entry on, by what is below the head;
* `Aim.DeviceList.device_walk_iff` — **when the loop sees each device once and ends.**
-/

import AimKernel.DeviceList

set_option relaxedAutoImplicit false
set_option autoImplicit false

namespace Aim

open Intrusive

namespace DeviceList

/-! ### The walk -/

/-- `__next(dev, savep)`: the device, and the cursor `*savep`. -/
def next (s : DeviceList) (dev save : Ptr) : Outcome (Ptr × Ptr) := do
  let save ←
    if dev = 0 then
      pure (s.links.next s.head - node)
    else do
      assert (s.dev save = dev) "((struct device_entry *)(*savep))->dev == dev"
      pure (s.links.next (save + node) - node)
  if save = s.head then
    return (0, save)
  else
    return (s.dev save, save)

/-- The rest of `for_each_device(dev, savep)`: the devices that its body sees.  What `__next` returns
depends on the cursor alone, so a loop that has not ended after `2 ^ 32` rounds never will. -/
def forEachDeviceFrom (s : DeviceList) : ℕ → Ptr → Ptr → Outcome (List Ptr)
  | 0, _, _ => .error .hang
  | fuel + 1, dev, save =>
      if dev ≠ 0 then do
        let r ← s.next dev save
        let rest ← forEachDeviceFrom s fuel r.1 r.2
        return dev :: rest
      else
        return []

/-- `for_each_device(dev, savep)`; `save` is what was in the cursor before. -/
def forEachDevice (s : DeviceList) (save : Ptr) : Outcome (List Ptr) := do
  let r ← s.next 0 save
  s.forEachDeviceFrom (2 ^ 32 + 1) r.1 r.2

section Walk

variable {s : DeviceList} {es : List Ptr}

/-- The entry that encloses the head is not at the head. -/
theorem head_sub_node_ne (s : DeviceList) : s.head - node ≠ s.head := by
  simp only [node]
  bv_omega

/-- The entry after one of the list: the next one, or that which encloses the head. -/
theorem Holds.next_entry (h : s.Holds es) {pre post : List Ptr} {e : Ptr}
    (hsplit : es = pre ++ e :: post) :
    s.links.next (e + node) - node = post.headD (s.head - node) := by
  have hring : Ring s.links s.head
      (ListHeads.nodes node (pre ++ [e]) ++ ListHeads.nodes node post) := by
    rw [← ListHeads.nodes_append, List.append_assoc]
    exact hsplit ▸ h.ring
  have hlast := hring.next_last
  rw [← headD_add_node, ListHeads.nodes_append] at hlast
  simp only [ListHeads.nodes, List.map_cons, List.map_nil, List.getLastD_concat] at hlast
  rw [hlast, BitVec.add_sub_cancel]

/-- The first entry. -/
theorem Holds.first_entry (h : s.Holds es) :
    s.links.next s.head - node = es.headD (s.head - node) := by
  rw [h.ring.next_head, ← headD_add_node, BitVec.add_sub_cancel]

/-- A first call. -/
theorem next_null {save' : Ptr} (hnext : s.links.next s.head - node = save') (hne : save' ≠ s.head)
    (save : Ptr) : s.next 0 save = .ok (s.dev save', save') := by
  rw [next, if_pos rfl, hnext]
  exact if_neg hne

/-- A later call. -/
theorem next_dev {dev save save' : Ptr} (hdev : dev ≠ 0) (hsave : s.dev save = dev)
    (hnext : s.links.next (save + node) - node = save') (hne : save' ≠ s.head) :
    s.next dev save = .ok (s.dev save', save') := by
  rw [next, if_neg hdev, assert_bind hsave, hnext]
  exact if_neg hne

/-- A cursor that is not at the address of the head. -/
theorem headD_ne_head (hhead : s.head ∉ es) : es.headD (s.head - node) ≠ s.head := by
  cases es with
  | nil => exact s.head_sub_node_ne
  | cons e es =>
      rintro heq
      exact hhead (heq ▸ List.mem_cons_self)

theorem dev_ne_zero (hdevs : 0 ∉ s.devs es) {e : Ptr} (he : e ∈ es) : s.dev e ≠ 0 :=
  fun heq => hdevs (heq ▸ List.mem_map_of_mem he)

/-- A call with an entry of the list. -/
theorem Holds.next_eq (h : s.Holds es) (hhead : s.head ∉ es) (hdevs : 0 ∉ s.devs es)
    {pre post : List Ptr} {e : Ptr} (hsplit : es = pre ++ e :: post) :
    s.next (s.dev e) e =
      .ok (s.dev (post.headD (s.head - node)), post.headD (s.head - node)) := by
  have hmem : e ∈ es := by simp [hsplit]
  have hpost : s.head ∉ post := fun hin => hhead (by simp [hsplit, hin])
  exact next_dev (dev_ne_zero hdevs hmem) rfl (h.next_entry hsplit) (headD_ne_head hpost)

/-- **The walk from an entry on**, when the word below the head is zero. -/
theorem forEachDeviceFrom_eq (h : s.Holds es) (hhead : s.head ∉ es) (hdevs : 0 ∉ s.devs es)
    (hword : s.dev (s.head - node) = 0) : ∀ (post pre : List Ptr) (e : Ptr) (fuel : ℕ),
      es = pre ++ e :: post → post.length + 1 < fuel →
        s.forEachDeviceFrom fuel (s.dev e) e = .ok (s.devs (e :: post)) := by
  intro post
  induction post with
  | nil =>
      intro pre e fuel hsplit hfuel
      obtain ⟨f, rfl⟩ : ∃ f, fuel = f + 2 := ⟨fuel - 2, by simp at hfuel; omega⟩
      have hdev : s.dev e ≠ 0 := dev_ne_zero hdevs (by simp [hsplit])
      rw [forEachDeviceFrom, if_pos hdev, h.next_eq hhead hdevs hsplit, ok_bind]
      simp only [List.headD_nil]
      rw [hword, forEachDeviceFrom, if_neg (not_not.2 rfl)]
      rfl
  | cons e' post ih =>
      intro pre e fuel hsplit hfuel
      obtain ⟨f, rfl⟩ : ∃ f, fuel = f + 1 := ⟨fuel - 1, by omega⟩
      have hdev : s.dev e ≠ 0 := dev_ne_zero hdevs (by simp [hsplit])
      have hrest := ih (pre ++ [e]) e' f (by simp [hsplit]) (by simpa using hfuel)
      rw [forEachDeviceFrom, if_pos hdev, h.next_eq hhead hdevs hsplit, ok_bind]
      simp only [List.headD_cons]
      rw [hrest]
      rfl

/-- **Otherwise the walk never ends**: the word below the head passes for a device, and behind it comes
the first entry again. -/
theorem forEachDeviceFrom_hang (h : s.Holds es) (hhead : s.head ∉ es) (hdevs : 0 ∉ s.devs es)
    (hword : s.dev (s.head - node) ≠ 0) : ∀ (fuel : ℕ) (e : Ptr), e ∈ (s.head - node) :: es →
      s.forEachDeviceFrom fuel (s.dev e) e = .error .hang := by
  intro fuel
  induction fuel with
  | zero => exact fun _ _ => rfl
  | succ fuel ih =>
      intro e he
      have hdev : s.dev e ≠ 0 := by
        rcases List.mem_cons.1 he with rfl | he
        · exact hword
        · exact dev_ne_zero hdevs he
      obtain ⟨e', he', hnext⟩ : ∃ e' ∈ (s.head - node) :: es,
          s.next (s.dev e) e = .ok (s.dev e', e') := by
        rcases List.mem_cons.1 he with rfl | he
        · refine ⟨es.headD (s.head - node), headD_mem_cons, next_dev hword rfl ?_
            (headD_ne_head hhead)⟩
          rw [BitVec.sub_add_cancel]
          exact h.first_entry
        · obtain ⟨pre, post, hsplit⟩ := List.append_of_mem he
          refine ⟨post.headD (s.head - node), ?_, h.next_eq hhead hdevs hsplit⟩
          have hmem : post.headD (s.head - node) ∈ (s.head - node) :: post := headD_mem_cons
          rcases List.mem_cons.1 hmem with heq | hin
          · rw [heq]
            exact List.mem_cons_self
          · rw [hsplit]
            exact List.mem_cons_of_mem _ (List.mem_append_right _ (List.mem_cons_of_mem _ hin))
      rw [forEachDeviceFrom, if_pos hdev, hnext, ok_bind, ih e' he', error_bind]

/-- **When the loop sees each device once and ends.**  The word below the list head must be zero. -/
theorem device_walk_iff (h : s.Holds es) (hhead : s.head ∉ es) (hdevs : 0 ∉ s.devs es) :
    (∀ save, s.forEachDevice save = .ok (s.devs es)) ↔ s.dev (s.head - node) = 0 := by
  have hfirst : ∀ save, s.next 0 save =
      .ok (s.dev (es.headD (s.head - node)), es.headD (s.head - node)) :=
    next_null h.first_entry (headD_ne_head hhead)
  constructor
  · intro hwalk
    by_contra hword
    have hrun := hwalk 0
    rw [forEachDevice, hfirst, ok_bind,
      forEachDeviceFrom_hang h hhead hdevs hword _ _ headD_mem_cons] at hrun
    cases hrun
  · intro hword save
    rw [forEachDevice, hfirst, ok_bind]
    cases es with
    | nil =>
        simp only [List.headD_nil]
        rw [hword, forEachDeviceFrom, if_neg (not_not.2 rfl)]
        rfl
    | cons e post =>
        have hlen := ListHeads.length_lt_of_nodup h.ring.nodup
        simp only [ListHeads.nodes, List.length_map, List.length_cons] at hlen
        exact forEachDeviceFrom_eq h hhead hdevs hword post [] e _ rfl (by omega)

end Walk

/-- A list with the entry `0x80300000`, or without entries; `word` is what is below the head. -/
def oneDevice (word : Ptr) (links : ListHeads) : DeviceList where
  head := 0x80200000
  links := links
  dev := fun e => if e = 0x80300000 then 0x80400000 else word
  device := fun _ => ⟨⟨[], List.not_mem_nil⟩, 0, 0⟩

/-- One device, over zeros. -/
theorem device_walk_iff_one : ∃ s : DeviceList, s.Holds [0x80300000] ∧
    ((∀ save, s.forEachDevice save = .ok [0x80400000]) ↔ s.dev (s.head - node) = 0) := by
  have hempty : Ring (ListHeads.listInit ⟨id, id⟩ 0x80200000) (0x80200000 : Ptr) ([] ++ []) :=
    ring_single ⟨id, id⟩ 0x80200000
  have hnew : 0x80300000 + node ∉ (0x80200000 : Ptr) :: ([] ++ []) := by decide
  have hholds : (oneDevice 0 _).Holds [0x80300000] :=
    ⟨ListHeads.ring_listAddTail hempty hnew, by decide⟩
  exact ⟨_, hholds, device_walk_iff hholds (by decide) (by decide)⟩

/-- An empty list over a word that is not zero: `dev_next(NULL, &save)` returns this word. -/
theorem not_device_walk_empty : ∃ s : DeviceList, s.Holds [] ∧
    s.next 0 0 = .ok (0x80400000, 0x801ffffc) ∧
    ¬ ∀ save, s.forEachDevice save = .ok (s.devs []) := by
  have hholds : (oneDevice 0x80400000 (ListHeads.listInit ⟨id, id⟩ 0x80200000)).Holds [] :=
    ⟨ring_single ⟨id, id⟩ (0x80200000 : Ptr), by decide⟩
  have hnext := next_null hholds.first_entry (headD_ne_head List.not_mem_nil)
  refine ⟨_, hholds, hnext 0, fun hwalk => ?_⟩
  have hrun := hwalk 0
  rw [forEachDevice, hnext, ok_bind, forEachDeviceFrom_hang hholds List.not_mem_nil (by decide)
    (by decide) _ _ headD_mem_cons] at hrun
  cases hrun

end DeviceList

end Aim
