/-
**The Raspberry Pi 2 until its address space is there.**

`mach_early_init` asks the VideoCore how the memory is divided and for a frame buffer, and
`early_mm_init` then queues the mappings and builds the page tables.  What the kernel gets to know
comes from the VideoCore alone: the address space is the one for the answers of the VideoCore, and
where an answer is missing or is not what was asked for, the kernel stops with the message for it.

Main definitions:

* `Aim.Armv7a.rpi2DetectMemory`, `Aim.Armv7a.machEarlyInit` — `mach_early_init.c`;
* `Aim.Armv7a.earlyBoot` — `mach_early_init`, and then `early_mm_init`;
* `Aim.Armv7a.bootDialogue` — what is asked and answered on the way.

Main results:

* `Aim.Armv7a.machEarlyInit_spec` — `mach_early_init` is its dialogue;
* `Aim.Armv7a.earlyBoot_maps` — **the address space is the one for the answers.**
-/

import AimKernel.KernelSpace
import AimKernel.PropertyMailbox

set_option relaxedAutoImplicit false
set_option autoImplicit false

namespace Aim

open TaggedMessage

namespace Armv7a

/-! ### `mach_early_init.c` -/

/-- `MAILBOX_PROP_ARMMEMORY`. -/
def propArmmemory : BitVec 32 := 0x00010005

/-- `MAILBOX_PROP_VCMEMORY`. -/
def propVcmemory : BitVec 32 := 0x00010006

/-- What stops the machine early. -/
inductive EarlyFault
  /-- In `mailbox.c`. -/
  | mailbox (f : MailFault)
  /-- Anywhere else. -/
  | kernel (f : Fault)

/-- What `mach_early_init` gets to know, and what is left behind. -/
structure EarlyInfo (σ : Type) where
  arminfo : MemInfo
  vcinfo : MemInfo
  fb : FbDevice
  state : PropertyState σ

/-- The bytes of a `struct meminfo`. -/
def memInfoOf (bs : Bytes) : MemInfo := ⟨(wordOf bs).toNat, (wordOf (bs.drop 4)).toNat⟩

section Source

variable {σ : Type} (vc : VideoCore σ) (pa addr : BitVec 32)

/-- `rpi2_detect_memory`; `arminfo` and `vcinfo` are zeros before. -/
def rpi2DetectMemory (s : PropertyState σ) :
    Except EarlyFault (MemInfo × MemInfo × PropertyState σ) := do
  let ⟨⟨r, arminfo, s⟩, _⟩ ← (askPropertyTag vc pa addr s propArmmemory
    (bytesOf 0 ++ bytesOf 0) 0 8).mapError .mailbox
  if r < 0 then
    throw (.kernel (.panic "can't get memory info for ARM"))
  let ⟨⟨r, vcinfo, s⟩, _⟩ ← (askPropertyTag vc pa addr s propVcmemory
    (bytesOf 0 ++ bytesOf 0) 0 8).mapError .mailbox
  if r < 0 then
    throw (.kernel (.panic "can't get memory info for VideoCore"))
  if wordOf arminfo ≠ 0 then
    throw (.kernel (.assertion "arminfo.base == 0"))
  return (memInfoOf arminfo, memInfoOf vcinfo, s)

/-- `mach_early_init`; `fb` is zeros before, and `junk` is what is on the stack. -/
def machEarlyInit (s : PropertyState σ) (junk : BitVec 32) :
    Except EarlyFault (EarlyInfo σ) := do
  let (arminfo, vcinfo, s) ← rpi2DetectMemory vc pa addr s
  let ⟨r, fb, s⟩ ← (fbinit vc pa addr s junk).mapError .mailbox
  if r < 0 then
    throw (.kernel (.panic "can't init framebuffer"))
  return ⟨arminfo, vcinfo, fb.getD ⟨0, ⟨0, 0, 0⟩⟩, s⟩

/-- `mach_early_init`, and then `early_mm_init`. -/
def earlyBoot (t : BootTables) (kernEndLow : ℕ) (s : PropertyState σ) (junk : BitVec 32)
    (words : Words) : Except EarlyFault (EarlyInfo σ × EarlyMm) := do
  let info ← machEarlyInit vc pa addr s junk
  let mm ← (earlyMmInit t info.arminfo info.fb.info info.fb.bits kernEndLow .clear words).mapError
    .kernel
  return (info, mm)

end Source

/-! ### The dialogue -/

section Dialogue

variable {σ : Type} (exchange : σ → List Tag → σ × Option (List Tag))

/-- **The dialogue of `rpi2_detect_memory`**: the two parts of the memory. -/
def memoryDialogue (s : σ) : σ × Except Fault (MemInfo × MemInfo) :=
  match askTag exchange s (question propArmmemory (by decide)) with
  | (s, none) => (s, .error (.panic "can't get memory info for ARM"))
  | (s, some arm) =>
      match askTag exchange s (question propVcmemory (by decide)) with
      | (s, none) => (s, .error (.panic "can't get memory info for VideoCore"))
      | (s, some vc) =>
          if wordOf arm.value ≠ 0 then (s, .error (.assertion "arminfo.base == 0"))
          else (s, .ok (memInfoOf arm.value, memInfoOf vc.value))

/-- **The dialogue of `mach_early_init`**: the two parts of the memory, and the frame buffer. -/
def bootDialogue (junk : BitVec 32) (s : σ) : σ × Except Fault (MemInfo × MemInfo × FbDevice) :=
  match memoryDialogue exchange s with
  | (s, .error e) => (s, .error e)
  | (s, .ok (arminfo, vcinfo)) =>
      match fbDialogue exchange junk s with
      | (s, none) => (s, .error (.panic "can't init framebuffer"))
      | (s, some fb) => (s, .ok (arminfo, vcinfo, fb))

end Dialogue

section Boot

variable {σ : Type} {vc : VideoCore σ} {exchange : σ → List Tag → σ × Option (List Tag)}
  {pa addr : BitVec 32}

theorem memInfoOf_take {bs : Bytes} (h : 8 ≤ bs.length) : memInfoOf (bs.take 8) = memInfoOf bs := by
  rw [take_two_words h, memInfoOf, wordOf_bytesOf_append, ← Nat.zero_add 4, drop_bytesOf_append,
    List.drop_zero, wordOf_bytesOf]
  rfl

/-- `rpi2_detect_memory` is its dialogue. -/
theorem rpi2DetectMemory_spec (hmeans : vc.Means exchange) (hpa : premapAddr addr = pa)
    (haligned : pa &&& 0xF = 0) (s : PropertyState σ) :
    ∃ s', s'.core = (memoryDialogue exchange s.core).1 ∧
      rpi2DetectMemory vc pa addr s = match (memoryDialogue exchange s.core).2 with
        | .ok (arminfo, vcinfo) => .ok (arminfo, vcinfo, s')
        | .error e => .error (.kernel e) := by
  have hzeros : (bytesOf 0 ++ bytesOf 0).length = 8 := rfl
  obtain ⟨s₁, hcore₁, hask₁⟩ := askQuestion_spec hmeans hpa haligned s
    (show propArmmemory ≠ 0 by decide) _ hzeros (by decide)
  rw [rpi2DetectMemory, memoryDialogue]
  rcases harm : askTag exchange s.core (question propArmmemory (by decide)) with ⟨core₁, _ | arm⟩
  · rw [harm] at hcore₁ hask₁
    rw [hask₁]
    exact ⟨s₁, hcore₁, rfl⟩
  rw [harm] at hcore₁ hask₁
  obtain ⟨hlong₁, size₁, hask₁⟩ := hask₁
  obtain ⟨s₂, hcore₂, hask₂⟩ := askQuestion_spec hmeans hpa haligned s₁
    (show propVcmemory ≠ 0 by decide) _ hzeros (by decide)
  rw [hcore₁] at hcore₂ hask₂
  dsimp only at hcore₂ hask₂ ⊢
  rw [hask₁, Except.mapError, ok_bind]
  simp only [lt_irrefl, if_false]
  rcases hvc : askTag exchange core₁ (question propVcmemory (by decide)) with ⟨core₂, _ | vcmem⟩
  · rw [hvc] at hcore₂ hask₂
    rw [hask₂]
    exact ⟨s₂, hcore₂, rfl⟩
  rw [hvc] at hcore₂ hask₂
  obtain ⟨hlong₂, size₂, hask₂⟩ := hask₂
  have hbase : wordOf (arm.value.take 8) = wordOf arm.value := by
    rw [take_two_words hlong₁, wordOf_bytesOf_append]
  rw [hask₂, Except.mapError, ok_bind]
  simp only [lt_irrefl, if_false]
  rw [hbase, memInfoOf_take hlong₁, memInfoOf_take hlong₂]
  by_cases hzero : wordOf arm.value ≠ 0
  · rw [if_pos hzero, if_pos hzero]
    exact ⟨s₂, hcore₂, rfl⟩
  · rw [if_neg hzero, if_neg hzero]
    exact ⟨s₂, hcore₂, rfl⟩

/-- `mach_early_init` is its dialogue. -/
theorem machEarlyInit_spec (hmeans : vc.Means exchange) (hpa : premapAddr addr = pa)
    (haligned : pa &&& 0xF = 0) (s : PropertyState σ) (junk : BitVec 32) :
    ∃ s', s'.core = (bootDialogue exchange junk s.core).1 ∧
      machEarlyInit vc pa addr s junk = match (bootDialogue exchange junk s.core).2 with
        | .ok (arminfo, vcinfo, fb) => .ok ⟨arminfo, vcinfo, fb, s'⟩
        | .error e => .error (.kernel e) := by
  obtain ⟨s₁, hcore₁, hdetect⟩ := rpi2DetectMemory_spec hmeans hpa haligned s
  rw [machEarlyInit, bootDialogue, hdetect]
  rcases hmemory : memoryDialogue exchange s.core with ⟨core₁, e | ⟨arminfo, vcinfo⟩⟩
  · rw [hmemory] at hcore₁
    exact ⟨s₁, hcore₁, rfl⟩
  rw [hmemory] at hcore₁
  obtain ⟨s₂, hcore₂, hinit⟩ := fbinit_spec hmeans hpa haligned s₁ junk
  rw [hcore₁] at hcore₂ hinit
  dsimp only at hcore₂ hinit ⊢
  rw [ok_bind, hinit]
  rcases hfb : fbDialogue exchange junk core₁ with ⟨core₂, _ | fb⟩
  · rw [hfb] at hcore₂
    exact ⟨s₂, hcore₂, rfl⟩
  · rw [hfb] at hcore₂
    exact ⟨s₂, hcore₂, rfl⟩

/-- **The address space is the one for the answers**: whatever the VideoCore answers, the kernel stops
with the message for the answer that is missing or wrong, or it has the address space for the memory
and the frame buffer that it was told of. -/
theorem earlyBoot_maps (hmeans : vc.Means exchange) (hpa : premapAddr addr = pa)
    (haligned : pa &&& 0xF = 0) (s : PropertyState σ) (junk : BitVec 32) (t : BootTables)
    (kernEndLow : ℕ) (words : Words) :
    (∀ e, (bootDialogue exchange junk s.core).2 = .error e →
      earlyBoot vc pa addr t kernEndLow s junk words = .error (.kernel e)) ∧
    ∀ arminfo vcinfo fb, (bootDialogue exchange junk s.core).2 = .ok (arminfo, vcinfo, fb) →
      MemorySplit arminfo vcinfo fb.info fb.bits →
      (2 ^ 21 ∣ fb.bits.toNat → ∃ s' mm,
        earlyBoot vc pa addr t kernEndLow s junk words = .ok (⟨arminfo, vcinfo, fb, s'⟩, mm) ∧
        ∀ va, walk t.index mm.words va = kernelSpace arminfo fb.info fb.bits va) ∧
      (¬ 2 ^ 21 ∣ fb.bits.toNat → earlyBoot vc pa addr t kernEndLow s junk words =
        .error (.kernel (.panic "can't add framebuffer memory"))) := by
  obtain ⟨s', -, hinit⟩ := machEarlyInit_spec hmeans hpa haligned s junk
  rw [earlyBoot, hinit]
  constructor
  · intro e he
    rw [he]
    rfl
  · intro arminfo vcinfo fb hok hsplit
    rw [hok]
    dsimp only
    rw [ok_bind]
    constructor
    · intro hdvd
      obtain ⟨mm, hmm, hwalks⟩ := hsplit.earlyMmInit_aligned hdvd t kernEndLow words
      refine ⟨s', mm, ?_, hwalks⟩
      rw [hmm]
      rfl
    · intro hdvd
      rw [hsplit.earlyMmInit_unaligned hdvd t kernEndLow words]
      rfl

end Boot

/-! ### A Raspberry Pi -/

/-- The values of a VideoCore with 60 MB of its own behind the 948 MB of the ARM, and with a frame of
1440 times 900 pixels. -/
def piValues (id : BitVec 32) : Bytes :=
  if id = propArmmemory then bytesOf 0 ++ bytesOf 0x3B400000
  else if id = propVcmemory then bytesOf 0x3B400000 ++ bytesOf 0x3C00000
  else if id = fbGetdisplaysize then bytesOf 1440 ++ bytesOf 900
  else if id = fbAllocbuffer then bytesOf 0xFD800000 ++ bytesOf 3888000
  else if id = fbGetpitch then bytesOf 4320
  else []

/-- A question for two words. -/
theorem askTag_pair {values : BitVec 32 → Bytes} {id v w : BitVec 32} (hid : id ≠ 0)
    (h : values id = bytesOf v ++ bytesOf w) :
    ∃ t, askTag (tableExchange values) () (question id hid) = ((), some t) ∧
      wordOf t.value = v ∧ wordOf (t.value.drop 4) = w := by
  have hlength : (bytesOf v ++ bytesOf w).length = 8 := rfl
  obtain ⟨rest, hvalue⟩ := answerTag_question values hid (by rw [h, hlength]; decide)
  refine ⟨_, askTag_table values () _, ?_, ?_⟩
  · rw [hvalue, h, List.append_assoc, wordOf_bytesOf_append]
  · rw [hvalue, h, List.append_assoc, ← Nat.zero_add 4, drop_bytesOf_append, List.drop_zero,
      wordOf_bytesOf_append]

/-- A question for a word. -/
theorem askTag_word {values : BitVec 32 → Bytes} {id v : BitVec 32} (hid : id ≠ 0)
    (h : values id = bytesOf v) :
    ∃ t, askTag (tableExchange values) () (question id hid) = ((), some t) ∧
      wordOf t.value = v := by
  obtain ⟨rest, hvalue⟩ := answerTag_question values hid (by rw [h, length_bytesOf]; decide)
  refine ⟨_, askTag_table values () _, ?_⟩
  rw [hvalue, h, wordOf_bytesOf_append]

/-- What the kernel is told of the memory. -/
theorem memoryDialogue_pi : memoryDialogue (tableExchange piValues) () =
    ((), .ok (⟨0, 0x3B400000⟩, ⟨0x3B400000, 0x3C00000⟩)) := by
  obtain ⟨arm, harm, hbase, hsize⟩ := askTag_pair
    (show propArmmemory ≠ 0 by decide) (show piValues propArmmemory = _ from rfl)
  obtain ⟨vcmem, hvc, hvcbase, hvcsize⟩ := askTag_pair
    (show propVcmemory ≠ 0 by decide) (show piValues propVcmemory = _ from rfl)
  rw [memoryDialogue, harm]
  dsimp only
  rw [hvc]
  dsimp only
  rw [hbase, if_neg (by decide), memInfoOf, memInfoOf, hbase, hsize, hvcbase, hvcsize]
  rfl

/-- The frame buffer that the kernel is told of. -/
theorem fbDialogue_pi (junk : BitVec 32) : fbDialogue (tableExchange piValues) junk () =
    ((), some ⟨0x3D800000, ⟨1440, 900, 4320⟩⟩) := by
  obtain ⟨display, hdisplay, hwidth, hheight⟩ := askTag_pair
    (show fbGetdisplaysize ≠ 0 by decide) (show piValues fbGetdisplaysize = _ from rfl)
  obtain ⟨pitch, hpitch, hword⟩ := askTag_word
    (show fbGetpitch ≠ 0 by decide) (show piValues fbGetpitch = _ from rfl)
  have hanswer : tableExchange piValues () (fbTags 1440 900 junk) =
      ((), some [answerTag piValues (pairTag fbSetdisplaysize 8 1440 900 (by decide)),
        answerTag piValues (pairTag fbSetbuffersize 8 1440 900 (by decide)),
        answerTag piValues (wordTag fbSetdepth 4 24 (by decide)),
        answerTag piValues (pairTag fbAllocbuffer 4 (1024 * 1024 * 2) junk (by decide))]) := rfl
  have hframe : (answerTag piValues (pairTag fbAllocbuffer 4 (1024 * 1024 * 2) junk
      (by decide))).value = bytesOf 0xFD800000 ++ bytesOf 3888000 := rfl
  have hgranted : Granted 1440 900
      (answerTag piValues (pairTag fbSetdisplaysize 8 1440 900 (by decide)))
      (answerTag piValues (pairTag fbSetbuffersize 8 1440 900 (by decide)))
      (answerTag piValues (wordTag fbSetdepth 4 24 (by decide)))
      (answerTag piValues (pairTag fbAllocbuffer 4 (1024 * 1024 * 2) junk (by decide))) := by
    rw [Granted, hframe]
    decide
  rw [fbDialogue, hdisplay]
  dsimp only
  rw [hwidth, hheight, hanswer]
  dsimp only
  rw [if_pos hgranted, hpitch]
  dsimp only
  rw [hword, hframe, wordOf_bytesOf_append]
  rfl

/-- What the kernel is told. -/
theorem bootDialogue_pi (junk : BitVec 32) :
    (bootDialogue (tableExchange piValues) junk ()).2 =
      .ok (⟨0, 0x3B400000⟩, ⟨0x3B400000, 0x3C00000⟩, ⟨0x3D800000, ⟨1440, 900, 4320⟩⟩) := by
  rw [bootDialogue, memoryDialogue_pi]
  dsimp only
  rw [fbDialogue_pi]

/-- A Raspberry Pi gets its address space. -/
theorem earlyBoot_maps_pi : ∃ s' mm,
    earlyBoot (VideoCore.ofExchange (tableExchange piValues) (fun _ => 3) fun _ => 5) 0x10000
      0x80010000 lowBootTables 0x200000 ⟨(), List.replicate propertyBufsize 0, List.length_replicate⟩
      0 (fun _ => 0) =
        .ok (⟨⟨0, 0x3B400000⟩, ⟨0x3B400000, 0x3C00000⟩, ⟨0x3D800000, ⟨1440, 900, 4320⟩⟩, s'⟩, mm) ∧
    ∀ va, walk lowBootTables.index mm.words va =
      kernelSpace ⟨0, 0x3B400000⟩ ⟨1440, 900, 4320⟩ 0x3D800000 va := by
  have hsplit : MemorySplit ⟨0, 0x3B400000⟩ ⟨0x3B400000, 0x3C00000⟩ ⟨1440, 900, 4320⟩ 0x3D800000 :=
    ⟨rfl, by decide, by decide, by decide, by decide⟩
  have hmeans := VideoCore.ofExchange_means (tableExchange_answers piValues) (fun _ => 3) fun _ => 5
  exact ((earlyBoot_maps hmeans (by decide) (by decide)
    ⟨(), List.replicate propertyBufsize 0, List.length_replicate⟩ 0 lowBootTables 0x200000
    fun _ => 0).2 _ _ _ (bootDialogue_pi 0) hsplit).1 (by decide)

end Armv7a

end Aim
