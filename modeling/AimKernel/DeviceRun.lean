/-
**Runs of the device index.**

Drivers add and remove devices in any order; the allocator may refuse an entry, and devices that are
not listed, or the names of listed ones, may change in between.  A run keeps books beside the list:
the entries that the allocator has handed out, the listed devices in the order of their insertion,
and the multisets of devices that were added and removed with success.

Main definitions:

* `Aim.DeviceRun`, `Aim.DeviceCall`, `Aim.deviceMachine` — runs of the index;
* `Aim.DeviceList.Lists` — the devices on the list;
* `Aim.DeviceRun.Correct` — what the index promises in one state;
* `Aim.DeviceRun.BusListed` — a call that adds a device only once its bus is listed.

Main results:

* `Aim.DeviceRun.Inv.step` — one call keeps the invariant;
* `Aim.DeviceRun.reachable_correct` — **the index is correct in every reachable state, and keeps
  every bus listed when devices are added after their buses.**
-/

import AimKernel.DeviceList
import AimKernel.Machine

set_option relaxedAutoImplicit false
set_option autoImplicit false

namespace Aim

open Intrusive StableOrder

/-! ### Runs -/

/-- The devices on the list, in order. -/
def DeviceList.Lists (s : DeviceList) (l : List Ptr) : Prop :=
  ∃ es, Ring s.links s.head (ListHeads.nodes DeviceList.node es) ∧ l = s.devs es

/-- The list, and the books beside it. -/
structure DeviceRun where
  list : DeviceList
  /-- The entries that `kmalloc` has handed out and `kfree` has not taken back. -/
  allocated : List Ptr
  /-- The listed devices, in the order of their insertion. -/
  live : List Ptr
  /-- The successful adds. -/
  adds : Multiset Ptr
  /-- The successful removes. -/
  removes : Multiset Ptr

/-- What happens to the index. -/
inductive DeviceCall
  /-- `dev_add(dev)`, with the answer of `kmalloc`. -/
  | add (dev answer : Ptr)
  /-- `dev_remove(dev)`. -/
  | remove (dev : Ptr)
  /-- A `struct device` is written. -/
  | write (dev : Ptr) (d : Device)

namespace DeviceRun

/-- One call. -/
def step (r : DeviceRun) : DeviceCall → Outcome DeviceRun
  | .add dev answer => do
    let (ret, list) ← r.list.add dev answer
    if ret = 0 then
      return ⟨list, answer :: r.allocated, r.live ++ [dev], dev ::ₘ r.adds, r.removes⟩
    return { r with list := list }
  | .remove dev => do
    let (ret, freed, list) ← r.list.remove dev
    if ret = 0 then
      return ⟨list, r.allocated.filter fun e => decide (some e ≠ freed), eraseLast dev r.live,
        r.adds, dev ::ₘ r.removes⟩
    return { r with list := list }
  | .write dev d =>
    return { r with list := { r.list with device := Function.update r.list.device dev d } }

/-- `dev_add` takes a device, and `kmalloc` answers with `NULL` or with memory that is not in use;
the number and the bus of a listed device never change. -/
def Legal (r : DeviceRun) : DeviceCall → Prop
  | .add dev answer => dev ≠ 0 ∧
    (answer = 0 ∨ answer ∉ r.allocated ∧ answer + DeviceList.node ≠ r.list.head)
  | .remove _ => True
  | .write dev d => dev ∈ r.live →
    d.devno = (r.list.device dev).devno ∧ d.bus = (r.list.device dev).bus

/-- The empty list. -/
def start (head : Ptr) (links : ListHeads) (dev : Ptr → Ptr) (device : Ptr → Device) : DeviceRun where
  list := { head := head, links := links.listInit head, dev := dev, device := device }
  allocated := []
  live := []
  adds := 0
  removes := 0

end DeviceRun

/-- The index and its callers. -/
def deviceMachine : Machine DeviceRun DeviceCall Fault where
  legal := DeviceRun.Legal
  step := DeviceRun.step

namespace DeviceRun

/-! ### The invariant -/

/-- The list is a ring of allocated entries, and the stable sort of the listed devices. -/
structure Inv (r : DeviceRun) (es : List Ptr) : Prop where
  holds : r.list.Holds es
  allocated : ∀ e ∈ es, e ∈ r.allocated
  sorted : IsStableSort r.list.key (r.list.devs es) r.live
  nonnull : 0 ∉ r.live
  books : (r.live : Multiset Ptr) + r.removes = r.adds

theorem inv_start (head : Ptr) (links : ListHeads) (dev : Ptr → Ptr) (device : Ptr → Device) :
    Inv (start head links dev device) [] :=
  ⟨⟨ring_single links head, List.not_mem_nil⟩, by simp, isStableSort_nil _, List.not_mem_nil, rfl⟩

theorem Inv.mem_devs_iff {r : DeviceRun} {es : List Ptr} (h : r.Inv es) {d : Ptr} :
    d ∈ r.list.devs es ↔ d ∈ r.live := h.sorted.perm.mem_iff

/-- Adding a device keeps the invariant. -/
theorem Inv.step_add {r : DeviceRun} {es : List Ptr} (h : r.Inv es) {dev answer : Ptr}
    (hlegal : r.Legal (.add dev answer)) :
    ∃ r' es', r.step (.add dev answer) = .ok r' ∧ r'.Inv es' ∧ r'.list.device = r.list.device ∧
      (r'.live = if answer = 0 then r.live else r.live ++ [dev]) ∧ r'.list.head = r.list.head ∧
      ∀ e ∈ r'.allocated, e = answer ∨ e ∈ r.allocated := by
  obtain ⟨hdev, hanswer⟩ := hlegal
  by_cases hnull : answer = 0
  · subst hnull
    refine ⟨r, es, ?_, h, rfl, (if_pos rfl).symm, rfl, fun e he => Or.inr he⟩
    rw [step, DeviceList.add_null]
    rfl
  · obtain ⟨hfresh, hhead⟩ := hanswer.resolve_left hnull
    obtain ⟨list, es', hadd, hholds, hsame, hdevice, hmem, hdevs⟩ := DeviceList.add_spec h.holds hnull
      (fun he => hfresh (h.allocated _ he)) hhead
    have hkey : list.key = r.list.key := by
      funext d
      rw [DeviceList.key, DeviceList.key, hdevice]
    refine ⟨_, es', by rw [step, hadd]; rfl, ⟨hholds, ?_, ?_, ?_, ?_⟩, hdevice,
      (if_neg hnull).symm, hsame, fun e he => List.mem_cons.mp he⟩
    · intro e he
      rcases hmem e he with rfl | he
      · exact List.mem_cons_self
      · exact List.mem_cons_of_mem _ (h.allocated e he)
    · have hsorted := h.sorted.insertByKey dev
      rwa [← hdevs, ← hkey] at hsorted
    · simp only [List.mem_append, List.mem_singleton, not_or]
      exact ⟨h.nonnull, hdev.symm⟩
    · rw [← h.books, ← Multiset.coe_add, Multiset.coe_singleton, Multiset.add_comm _ {dev},
        Multiset.singleton_add, Multiset.cons_add]

/-- Removing a device keeps the invariant. -/
theorem Inv.step_remove {r : DeviceRun} {es : List Ptr} (h : r.Inv es) (dev : Ptr) :
    ∃ r' es', r.step (.remove dev) = .ok r' ∧ r'.Inv es' ∧ r'.list.device = r.list.device ∧
      (((dev ∈ r.live → ∃ d ∈ r.live, (r.list.device d).bus = dev) ∧ r'.live = r.live) ∨
        (∀ d ∈ r.live, (r.list.device d).bus ≠ dev) ∧ r'.live = eraseLast dev r.live) := by
  by_cases hfail : (∃ d ∈ r.list.devs es, (r.list.device d).bus = dev) ∨ dev ∉ r.list.devs es
  · refine ⟨r, es, ?_, h, rfl, Or.inl ⟨fun hdev => ?_, rfl⟩⟩
    · rw [step, DeviceList.remove_fails h.holds hfail]
      rfl
    · obtain ⟨d, hd, hbus⟩ := hfail.resolve_right (not_not.mpr (h.mem_devs_iff.2 hdev))
      exact ⟨d, h.mem_devs_iff.1 hd, hbus⟩
  · rw [not_or, not_not] at hfail
    obtain ⟨hbus, hmem⟩ := hfail
    push Not at hbus
    obtain ⟨list, es', this, hremove, hholds, -, hdevice, hrest, hdevs⟩ :=
      DeviceList.remove_spec h.holds hmem hbus
    have hkey : list.key = r.list.key := by
      funext d
      rw [DeviceList.key, DeviceList.key, hdevice]
    refine ⟨_, es', by rw [step, hremove]; rfl, ⟨hholds, ?_, ?_, ?_, ?_⟩, hdevice,
      Or.inr ⟨fun d hd => hbus d (h.mem_devs_iff.2 hd), rfl⟩⟩
    · intro e he
      obtain ⟨he, hne⟩ := hrest e he
      exact List.mem_filter.2 ⟨h.allocated e he, by simpa using hne⟩
    · have hsorted := h.sorted.eraseLast dev
      rwa [← hdevs, ← hkey] at hsorted
    · exact fun hzero => h.nonnull ((eraseLast_sublist dev r.live).subset hzero)
    · have hlive : dev ∈ r.live := h.mem_devs_iff.1 hmem
      have hperm : (dev :: eraseLast dev r.live).Perm r.live :=
        ((eraseLast_perm dev r.live).cons dev).trans (List.perm_cons_erase hlive).symm
      rw [← h.books, Multiset.add_cons, ← Multiset.cons_add, Multiset.cons_coe,
        Multiset.coe_eq_coe.2 hperm]

/-- Writing a device keeps the invariant. -/
theorem Inv.step_write {r : DeviceRun} {es : List Ptr} (h : r.Inv es) {dev : Ptr} {d : Device}
    (hlegal : r.Legal (.write dev d)) :
    ∃ r', r.step (.write dev d) = .ok r' ∧ r'.Inv es ∧ r'.live = r.live ∧
      ∀ x ∈ r.live, (r'.list.device x).bus = (r.list.device x).bus := by
  have hsame : ∀ x ∈ r.live, (Function.update r.list.device dev d x).devno =
      (r.list.device x).devno ∧ (Function.update r.list.device dev d x).bus =
      (r.list.device x).bus := by
    intro x hx
    by_cases hxdev : x = dev
    · subst hxdev
      rw [Function.update_self]
      exact hlegal hx
    · rw [Function.update_of_ne hxdev]
      exact ⟨rfl, rfl⟩
  refine ⟨_, rfl, ⟨⟨h.holds.ring, h.holds.nonnull⟩, h.allocated, ?_, h.nonnull, h.books⟩, rfl,
    fun x hx => (hsame x hx).2⟩
  exact h.sorted.congr fun x hx => congrArg BitVec.toNat (hsame x hx).1

/-- **One call keeps the invariant.** -/
theorem Inv.step {r r' : DeviceRun} {es : List Ptr} (h : r.Inv es) {call : DeviceCall}
    (hlegal : r.Legal call) (hstep : r.step call = .ok r') : ∃ es', r'.Inv es' := by
  cases call with
  | add dev answer =>
      obtain ⟨r₁, es', hr₁, h', -⟩ := h.step_add hlegal
      obtain rfl := Except.ok.inj (hr₁.symm.trans hstep)
      exact ⟨es', h'⟩
  | remove dev =>
      obtain ⟨r₁, es', hr₁, h', -⟩ := h.step_remove dev
      obtain rfl := Except.ok.inj (hr₁.symm.trans hstep)
      exact ⟨es', h'⟩
  | write dev d =>
      obtain ⟨r₁, hr₁, h', -⟩ := h.step_write hlegal
      obtain rfl := Except.ok.inj (hr₁.symm.trans hstep)
      exact ⟨es, h'⟩

theorem Reachable.inv {head : Ptr} {links : ListHeads} {dev : Ptr → Ptr} {device : Ptr → Device}
    {r : DeviceRun} (h : deviceMachine.Reachable (start head links dev device) r) :
    ∃ es, r.Inv es :=
  h.invariant (P := fun r => ∃ es, r.Inv es) ⟨[], inv_start head links dev device⟩
    fun _ _ _ ⟨_, hs⟩ hlegal hstep => hs.step hlegal hstep

/-! ### Correctness -/

/-- What the index promises in one state; `l` are the devices on the list. -/
structure Correct (r : DeviceRun) (l : List Ptr) : Prop where
  /-- Sorted by number. -/
  sorted : l.Pairwise fun a b => (r.list.device a).devno ≤ (r.list.device b).devno
  /-- Devices with equal numbers are in the order of their insertion. -/
  stable : ∀ n, l.filter (fun d => decide ((r.list.device d).devno = n)) =
    r.live.filter fun d => decide ((r.list.device d).devno = n)
  /-- The successful adds less the successful removes. -/
  multiset : (l : Multiset Ptr) = r.adds - r.removes ∧ r.removes ≤ r.adds
  /-- `dev_add` fails without memory only, and then changes nothing. -/
  add : ∀ dev answer, r.Legal (.add dev answer) → ∃ ret list,
    r.list.add dev answer = .ok (ret, list) ∧ (ret = 0 ↔ answer ≠ 0) ∧ (ret ≠ 0 → list = r.list)
  /-- `dev_remove` succeeds exactly on a listed device that is the bus of no listed device, and
  changes nothing when it fails. -/
  remove : ∀ dev, ∃ ret freed list, r.list.remove dev = .ok (ret, freed, list) ∧
    (ret = 0 ↔ dev ∈ l ∧ ∀ d ∈ l, (r.list.device d).bus ≠ dev) ∧ (ret ≠ 0 → list = r.list)
  /-- `dev_from_id` returns the first match, and `NULL` exactly when there is none. -/
  fromId : ∀ n, r.list.fromId n =
      .ok ((l.find? fun d => decide ((r.list.device d).devno = n)).getD 0) ∧
    (r.list.fromId n = .ok 0 ↔ ∀ d ∈ l, (r.list.device d).devno ≠ n)
  /-- `dev_from_name` returns the first match, and `NULL` exactly when there is none. -/
  fromName : ∀ name, r.list.fromName name =
      .ok ((l.find? fun d => decide ((r.list.device d).name = name)).getD 0) ∧
    (r.list.fromName name = .ok 0 ↔ ∀ d ∈ l, (r.list.device d).name ≠ name)

/-- A search among devices that are not `NULL` finds `NULL` exactly when it finds nothing. -/
theorem find_getD_eq_zero_iff {l : List Ptr} (hl : 0 ∉ l) (p : Ptr → Bool) :
    (l.find? p).getD 0 = 0 ↔ ∀ d ∈ l, p d = false := by
  cases hfind : l.find? p with
  | none =>
      rw [List.find?_eq_none] at hfind
      simpa using hfind
  | some d =>
      have hd := List.mem_of_find?_eq_some hfind
      have hp := List.find?_some hfind
      refine ⟨fun hzero => ?_, fun hall => ?_⟩
      · rw [Option.getD_some] at hzero
        exact absurd (hzero ▸ hd) hl
      · rw [hall d hd] at hp
        cases hp

/-- The invariant gives everything the index promises. -/
theorem Inv.correct {r : DeviceRun} {es : List Ptr} (h : r.Inv es) : r.Correct (r.list.devs es) where
  sorted := h.sorted.sorted
  stable n := by
    have hstable := h.sorted.stable n.toNat
    simpa only [DeviceList.key, BitVec.toNat_inj] using hstable
  multiset := by
    rw [Multiset.coe_eq_coe.2 h.sorted.perm, ← h.books]
    exact ⟨(add_tsub_cancel_right _ _).symm, Multiset.le_add_left _ _⟩
  add dev answer hlegal := by
    by_cases hnull : answer = 0
    · subst hnull
      exact ⟨eof, r.list, DeviceList.add_null r.list dev, by decide, fun _ => rfl⟩
    · obtain ⟨hfresh, hhead⟩ := hlegal.2.resolve_left hnull
      have hadd : ∃ list, r.list.add dev answer = .ok (0, list) := by
        obtain ⟨list, -, hadd, -⟩ := DeviceList.add_spec h.holds hnull
          (fun he => hfresh (h.allocated _ he)) hhead
        exact ⟨list, hadd⟩
      obtain ⟨list, hadd⟩ := hadd
      exact ⟨0, list, hadd, ⟨fun _ => hnull, fun _ => rfl⟩, fun hne => absurd rfl hne⟩
  remove dev := by
    by_cases hfail : (∃ d ∈ r.list.devs es, (r.list.device d).bus = dev) ∨ dev ∉ r.list.devs es
    · refine ⟨eof, none, r.list, DeviceList.remove_fails h.holds hfail, ?_, fun _ => rfl⟩
      refine ⟨fun heof => absurd heof (by decide), ?_⟩
      rintro ⟨hmem, hbus⟩
      rcases hfail with ⟨d, hd, hdbus⟩ | hnot
      · exact absurd hdbus (hbus d hd)
      · exact absurd hmem hnot
    · rw [not_or, not_not] at hfail
      obtain ⟨hbus, hmem⟩ := hfail
      push Not at hbus
      obtain ⟨list, -, this, hremove, -⟩ := DeviceList.remove_spec h.holds hmem hbus
      exact ⟨0, some this, list, hremove, ⟨fun _ => ⟨hmem, hbus⟩, fun _ => rfl⟩,
        fun hne => absurd rfl hne⟩
  fromId n := by
    have hzero : 0 ∉ r.list.devs es := fun hz => h.nonnull (h.mem_devs_iff.1 hz)
    refine ⟨DeviceList.fromId_eq h.holds n, ?_⟩
    rw [DeviceList.fromId_eq h.holds n, Except.ok.injEq, find_getD_eq_zero_iff hzero]
    simp
  fromName name := by
    have hzero : 0 ∉ r.list.devs es := fun hz => h.nonnull (h.mem_devs_iff.1 hz)
    refine ⟨DeviceList.fromName_eq h.holds name, ?_⟩
    rw [DeviceList.fromName_eq h.holds name, Except.ok.injEq, find_getD_eq_zero_iff hzero]
    simp

/-! ### Buses -/

/-- Devices are added after their buses. -/
def BusListed (r : DeviceRun) : DeviceCall → Prop
  | .add dev _ => (r.list.device dev).bus = 0 ∨
    ∃ l, r.list.Lists l ∧ (r.list.device dev).bus ∈ l
  | _ => True

theorem Inv.lists {r : DeviceRun} {es : List Ptr} (h : r.Inv es) :
    r.list.Lists (r.list.devs es) := ⟨es, h.holds.ring, rfl⟩

/-- The links determine the devices on the list. -/
theorem Inv.eq_of_lists {r : DeviceRun} {es l : List Ptr} (h : r.Inv es) (hl : r.list.Lists l) :
    l = r.list.devs es := by
  obtain ⟨es', hring, rfl⟩ := hl
  have hnodes := hring.unique h.holds.ring
  have hinj : Function.Injective fun e : Ptr => e + DeviceList.node := fun a b hab => by
    simpa using hab
  rw [List.map_injective_iff.2 hinj hnodes]

/-- The bus of every listed device is `NULL` or listed. -/
def NoDanglingBus (r : DeviceRun) : Prop :=
  ∀ d ∈ r.live, (r.list.device d).bus = 0 ∨ (r.list.device d).bus ∈ r.live

/-- One call that adds a device only after its bus leaves no bus dangling. -/
theorem NoDanglingBus.step {r r' : DeviceRun} {es : List Ptr} (h : r.NoDanglingBus) (hinv : r.Inv es)
    {call : DeviceCall} (hlegal : r.Legal call) (hbus : r.BusListed call)
    (hstep : r.step call = .ok r') : r'.NoDanglingBus := by
  cases call with
  | add dev answer =>
      obtain ⟨r₁, es', hr₁, -, hdevice, hlive, -, -⟩ := hinv.step_add hlegal
      obtain rfl := Except.ok.inj (hr₁.symm.trans hstep)
      have hdev : (r.list.device dev).bus = 0 ∨ (r.list.device dev).bus ∈ r.live := by
        rcases hbus with hzero | ⟨l, hl, hmem⟩
        · exact Or.inl hzero
        · rw [hinv.eq_of_lists hl, hinv.mem_devs_iff] at hmem
          exact Or.inr hmem
      have hall : ∀ d, d ∈ r.live ∨ d = dev →
          (r.list.device d).bus = 0 ∨ (r.list.device d).bus ∈ r.live := by
        rintro d (hd | rfl)
        · exact h d hd
        · exact hdev
      intro d hd
      rw [hdevice]
      by_cases hnull : answer = 0
      · rw [if_pos hnull] at hlive
        rw [hlive] at hd ⊢
        exact h d hd
      · rw [if_neg hnull] at hlive
        rw [hlive, List.mem_append, List.mem_singleton] at hd
        rw [hlive, List.mem_append]
        exact (hall d hd).imp_right Or.inl
  | remove dev =>
      obtain ⟨r₁, es', hr₁, -, hdevice, hlive⟩ := hinv.step_remove dev
      obtain rfl := Except.ok.inj (hr₁.symm.trans hstep)
      intro d hd
      rw [hdevice]
      rcases hlive with ⟨-, hlive⟩ | ⟨hnone, hlive⟩
      · rw [hlive] at hd ⊢
        exact h d hd
      · rw [hlive] at hd ⊢
        have hd' := (eraseLast_sublist dev r.live).subset hd
        refine (h d hd').imp_right fun hmem => ?_
        rw [(eraseLast_perm dev r.live).mem_iff]
        exact (List.mem_erase_of_ne (hnone d hd')).2 hmem
  | write dev d =>
      obtain ⟨r₁, hr₁, -, hlive, hsame⟩ := hinv.step_write hlegal
      obtain rfl := Except.ok.inj (hr₁.symm.trans hstep)
      intro x hx
      rw [hlive] at hx
      rw [hlive, hsame x hx]
      exact h x hx

/-- **The index is correct in every reachable state.**  When every device was added with a `NULL`
bus or after its bus, the bus of every listed device is `NULL` or listed. -/
theorem reachable_correct (head : Ptr) (links : ListHeads) (dev : Ptr → Ptr)
    (device : Ptr → Device) (r : DeviceRun) :
    (deviceMachine.Reachable (start head links dev device) r →
      ∃ l, r.list.Lists l ∧ r.Correct l) ∧
    ((deviceMachine.restrict BusListed).Reachable (start head links dev device) r →
      ∃ l, r.list.Lists l ∧
        ∀ d ∈ l, (r.list.device d).bus = 0 ∨ (r.list.device d).bus ∈ l) := by
  refine ⟨fun hr => ?_, fun hr => ?_⟩
  · obtain ⟨es, hinv⟩ := Reachable.inv hr
    exact ⟨_, hinv.lists, hinv.correct⟩
  · have hboth : (∃ es, r.Inv es) ∧ r.NoDanglingBus := by
      refine hr.invariant (P := fun r => (∃ es, r.Inv es) ∧ r.NoDanglingBus)
        ⟨⟨[], inv_start head links dev device⟩, fun d hd => absurd hd List.not_mem_nil⟩ ?_
      rintro s call s' ⟨⟨es, hinv⟩, hbus⟩ hlegal hstep
      exact ⟨hinv.step hlegal.1 hstep, hbus.step hinv hlegal.1 hlegal.2 hstep⟩
    obtain ⟨⟨es, hinv⟩, hbus⟩ := hboth
    refine ⟨_, hinv.lists, fun d hd => ?_⟩
    rw [hinv.mem_devs_iff] at hd ⊢
    exact hbus d hd

/-- All devices have the same name, and number 5; the one at `0x1000` is the bus of the others. -/
def busDevices (name : CString) (dev : Ptr) : Device := ⟨name, 5, if dev = 0x1000 then 0 else 0x1000⟩

/-- The run that adds the bus and two devices on it, and removes the first of these. -/
theorem reachable_correct_bus : ∃ (r : DeviceRun) (l l' : List Ptr), r.live = [0x1000, 0x1800] ∧
    (r.list.Lists l ∧ r.Correct l) ∧
    (r.list.Lists l' ∧ ∀ d ∈ l', (r.list.device d).bus = 0 ∨ (r.list.device d).bus ∈ l') := by
  have hlegal₁ : (start 0x100 ⟨id, id⟩ id (busDevices ⟨[], List.not_mem_nil⟩)).Legal
      (.add 0x1000 0x2000) :=
    ⟨by decide, Or.inr ⟨List.not_mem_nil, by decide⟩⟩
  obtain ⟨r₁, es₁, hstep₁, hinv₁, hdevice₁, hlive₁, hhead₁, hallocated₁⟩ :=
    (inv_start _ _ _ _).step_add hlegal₁
  have hone : r₁.live = [0x1000] := hlive₁
  have hlegal₂ : r₁.Legal (.add 0x1400 0x2100) := by
    refine ⟨by decide, Or.inr ⟨fun he => ?_, by rw [hhead₁]; decide⟩⟩
    simpa [start] using hallocated₁ _ he
  have hbus₂ : r₁.BusListed (.add 0x1400 0x2100) := by
    refine Or.inr ⟨_, hinv₁.lists, ?_⟩
    rw [hinv₁.mem_devs_iff, hdevice₁, hone]
    exact List.mem_singleton_self _
  obtain ⟨r₂, es₂, hstep₂, hinv₂, hdevice₂, hlive₂, hhead₂, hallocated₂⟩ := hinv₁.step_add hlegal₂
  have htwo : r₂.live = [0x1000, 0x1400] := by rw [hlive₂, hone]; rfl
  have hlegal₃ : r₂.Legal (.add 0x1800 0x2200) := by
    refine ⟨by decide, Or.inr ⟨fun he => ?_, by rw [hhead₂, hhead₁]; decide⟩⟩
    have hold := (hallocated₂ _ he).resolve_left (by decide)
    simpa [start] using hallocated₁ _ hold
  have hbus₃ : r₂.BusListed (.add 0x1800 0x2200) := by
    refine Or.inr ⟨_, hinv₂.lists, ?_⟩
    rw [hinv₂.mem_devs_iff, hdevice₂, hdevice₁, htwo]
    exact List.mem_cons_self
  obtain ⟨r₃, es₃, hstep₃, hinv₃, hdevice₃, hlive₃, -, -⟩ := hinv₂.step_add hlegal₃
  have hthree : r₃.live = [0x1000, 0x1400, 0x1800] := by rw [hlive₃, htwo]; rfl
  obtain ⟨r₄, es₄, hstep₄, -, -, hlive₄⟩ := hinv₃.step_remove 0x1400
  have hnot : ¬ ∃ d ∈ r₃.live, (r₃.list.device d).bus = 0x1400 := by
    rintro ⟨d, hd, hbus⟩
    rw [hdevice₃, hdevice₂, hdevice₁] at hbus
    have hnever : (busDevices ⟨[], List.not_mem_nil⟩ d).bus ≠ 0x1400 := by
      unfold busDevices
      split <;> decide
    exact hnever hbus
  have hlast : r₄.live = [0x1000, 0x1800] := by
    rcases hlive₄ with ⟨hon, -⟩ | ⟨-, hlive₄⟩
    · exact absurd (hon (by rw [hthree]; decide)) hnot
    · rw [hlive₄, hthree]
      decide
  have hreach₁ : (deviceMachine.restrict BusListed).Reachable _ r₁ :=
    .step (r := .add 0x1000 0x2000) .init ⟨hlegal₁, Or.inl rfl⟩ hstep₁
  have hreach₂ : (deviceMachine.restrict BusListed).Reachable _ r₂ :=
    .step (r := .add 0x1400 0x2100) hreach₁ ⟨hlegal₂, hbus₂⟩ hstep₂
  have hreach₃ : (deviceMachine.restrict BusListed).Reachable _ r₃ :=
    .step (r := .add 0x1800 0x2200) hreach₂ ⟨hlegal₃, hbus₃⟩ hstep₃
  have hreach : (deviceMachine.restrict BusListed).Reachable _ r₄ :=
    .step (r := .remove 0x1400) hreach₃ ⟨trivial, trivial⟩ hstep₄
  obtain ⟨l, hl⟩ := (reachable_correct _ _ _ _ r₄).1 hreach.mono
  obtain ⟨l', hl'⟩ := (reachable_correct _ _ _ _ r₄).2 hreach
  exact ⟨r₄, l, l', hlast, hl, hl'⟩

end DeviceRun

end Aim
