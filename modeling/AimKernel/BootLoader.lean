/-
**The boot loader reads the kernel.**

`bootmain` reads the first 4096 bytes of the kernel file into `elfbuf`, and then, for each program
header it finds there, the bytes of the segment to their physical address, with zeros behind them.
The disk is read sector by sector, through a buffer of the BIOS and a buffer of the boot loader.
Buffers are in memory like everything else: the headers are read again and again while segments are
written.

Main definitions:

* `Aim.BootLayout` — where the linker put the boot loader;
* `Aim.readsect`, `Aim.kernreaderReadfile` — `kernreader.c`;
* `Aim.loadSegments`, `Aim.bootmain` — `bootmain.c`;
* `Aim.Loaded` — a segment is where its header wants it.

Main results:

* `Aim.kernreaderReadfile_spec` — the bytes of the file, and nothing else but the buffers;
* `Aim.loadSegments_spec` — the run over a program header table;
* `Aim.bootmain_loads` — **every segment is loaded when the kernel is entered**.
-/

import AimKernel.ByteMemory
import AimKernel.CArith
import Mathlib.Data.Set.Basic

set_option relaxedAutoImplicit false
set_option autoImplicit false

namespace Aim

open ByteMemory

/-! ### Memory -/

/-- Bytes by physical address. -/
abbrev BootMemory := ℕ → BitVec 8

/-- Byte `i` of a block: addresses have 32 bits. -/
def byteAddr (p i : ℕ) : ℕ := wrap32 (p + i)

/-- `bmemset(s, c, n)`. -/
def bmemset (mem : BootMemory) (s : ℕ) (c : BitVec 8) (n : ℕ) : BootMemory :=
  store mem (byteAddr s) (fun _ => c) n

/-- `bmemcpy(dest, src, n)`. -/
def bmemcpy (mem : BootMemory) (dest src n : ℕ) : BootMemory :=
  copy mem (byteAddr dest) (byteAddr src) n

/-- A `uint16_t` in memory. -/
def word16 (mem : BootMemory) (p : ℕ) : ℕ :=
  (mem p).toNat + (mem (p + 1)).toNat * 2 ^ 8

/-- A `uint32_t` in memory. -/
def word32 (mem : BootMemory) (p : ℕ) : ℕ :=
  word16 mem p + word16 mem (p + 2) * 2 ^ 16

/-! ### Reading the disk -/

/-- `SECTSIZE`. -/
def sectSize : ℕ := 512

/-- The buffer below 64K that the BIOS reads to. -/
def lowBuffer : ℕ := 0x1000

/-- `mbr`. -/
def mbr : ℕ := 0x7c00

/-- `CGA_BUF`, the text screen that `bprintf` and `bputc` print to. -/
def cgaBuf : ℕ := 0xB8000

/-- The bytes of the text screen: `CRT_SIZE` characters and their colours. -/
def cgaBytes : ℕ := 2 * (80 * 25)

/-- Where the linker put the boot loader, and what else of memory it uses. -/
structure BootLayout where
  elfbuf : ℕ
  sectbuf : ℕ
  bprintf : ℕ
  /-- What reading a sector may change besides its buffer: the low buffer, the stack, registers that
  real mode saves, the text screen. -/
  scratch : Set ℕ
  /-- All memory of the boot loader. -/
  own : Set ℕ
  -- one past the end is an address, too
  elfbuf_fits : elfbuf + 4096 < 2 ^ 32
  sectbuf_fits : sectbuf + sectSize ≤ 2 ^ 32
  low_scratch : ∀ i < sectSize, lowBuffer + i ∈ scratch
  cga_scratch : ∀ i < cgaBytes, cgaBuf + i ∈ scratch
  sectbuf_scratch : ∀ i < sectSize, sectbuf + i ∉ scratch
  elfbuf_scratch : ∀ i < 4096, elfbuf + i ∉ scratch
  buffers : sectbuf + sectSize ≤ elfbuf ∨ elfbuf + 4096 ≤ sectbuf
  scratch_own : ∀ a ∈ scratch, a ∈ own
  sectbuf_own : ∀ i < sectSize, sectbuf + i ∈ own
  elfbuf_own : ∀ i < 4096, elfbuf + i ∈ own
  mbr_own : ∀ i < sectSize, mbr + i ∈ own

/-- `readsect_realmode(lowaddr, sect)`: whether the BIOS could read the sector. -/
abbrev ReadsectRealmode := ℕ → ℕ → BootMemory → Bool × BootMemory

section Reader

variable (L : BootLayout) (readsectRealmode : ReadsectRealmode)

/-- `readsect(dst, sect)`, without the `bputc('.')` at its end, which goes to the text screen. -/
def readsect (dst sect : ℕ) (mem : BootMemory) : Outcome BootMemory :=
  let mem := bmemset mem lowBuffer (-1) sectSize
  let (ok, mem) := readsectRealmode lowBuffer sect mem
  if ok then
    .ok (bmemcpy mem dst lowBuffer sectSize)
  else
    .error (.panic "can't read disk in real mode.")

/-- `KERNEL_ELF_PART_ID`. -/
def kernelElfPartId : ℕ := 1

/-- The sector that the kernel's partition starts at. -/
def kernelLba (mem : BootMemory) : ℕ := word32 mem (mbr + 0x1BE + 0x10 * kernelElfPartId + 0x8)

/-- `kernreader_init()`: `kdiskoffset`. -/
def kernreaderInit (mem : BootMemory) : ℕ := wrap32 (kernelLba mem * sectSize)

/-- The loop of `kernreader_readfile`, one sector a round. -/
def readfileLoop : ℕ → BootMemory → ℕ → ℕ → ℕ → ℕ → Outcome BootMemory
  | 0, _, _, _, _, _ => .error .hang
  | fuel + 1, mem, buf, size, skip, offset =>
      if size ≠ 0 then do
        let cursize := if size < sectSize then size else sectSize
        let mem ← readsect readsectRealmode L.sectbuf offset mem
        let mem := bmemcpy mem buf (wrap32 (L.sectbuf + skip)) (sub32 cursize skip)
        readfileLoop fuel mem (wrap32 (buf + sub32 cursize skip)) (sub32 size cursize) 0
          (wrap32 (offset + 1))
      else
        .ok mem

/-- `kernreader_readfile(buf, size, offset)`. -/
def kernreaderReadfile (kdiskoffset : ℕ) (mem : BootMemory) (buf size offset : ℕ) :
    Outcome BootMemory :=
  let offset := wrap32 (offset + kdiskoffset)
  let skip := offset % sectSize
  let offset := offset / sectSize
  let size := wrap32 (size + skip)
  -- a round takes at least one byte
  readfileLoop L readsectRealmode (size + 1) mem buf size skip offset

/-! ### Program headers -/

/-- What `bootmain` uses of `struct elf32_phdr`. -/
structure ElfPhdr where
  pOffset : ℕ
  pVaddr : ℕ
  pPaddr : ℕ
  pFilesz : ℕ
  pMemsz : ℕ
deriving DecidableEq, Repr

/-- The program header at an address. -/
def phdrAt (mem : BootMemory) (ph : ℕ) : ElfPhdr where
  pOffset := word32 mem (ph + 4)
  pVaddr := word32 mem (ph + 8)
  pPaddr := word32 mem (ph + 12)
  pFilesz := word32 mem (ph + 16)
  pMemsz := word32 mem (ph + 20)

/-- `sizeof(elf_phdr)`. -/
def sizeofPhdr : ℕ := 32

/-- Whether the magic is that of an ELF file. -/
def elfMagic (mem : BootMemory) (elf : ℕ) : Bool :=
  mem elf = 0x7f && mem (elf + 1) = 0x45 && mem (elf + 2) = 0x4c && mem (elf + 3) = 0x46

/-- `elf->e_entry`. -/
def eEntry (mem : BootMemory) (elf : ℕ) : ℕ := word32 mem (elf + 24)

/-- `elf->e_phoff`. -/
def ePhoff (mem : BootMemory) (elf : ℕ) : ℕ := word32 mem (elf + 28)

/-- `elf->e_phnum`. -/
def ePhnum (mem : BootMemory) (elf : ℕ) : ℕ := word16 mem (elf + 44)

/-- "Adjust entry if necessary": the address in the loaded segment. -/
def adjustEntry (entry : ℕ) (ph : ElfPhdr) : ℕ :=
  if ph.pVaddr ≤ entry ∧ entry < wrap32 (ph.pVaddr + ph.pMemsz) then
    wrap32 (sub32 entry ph.pVaddr + ph.pPaddr)
  else
    entry

/-- "Load": the bytes from the file, and zeros behind them. -/
def loadSegment (kdiskoffset : ℕ) (mem : BootMemory) (ph : ℕ) : Outcome BootMemory := do
  let pa := (phdrAt mem ph).pPaddr
  let mem ← kernreaderReadfile L readsectRealmode kdiskoffset mem pa (phdrAt mem ph).pFilesz
    (phdrAt mem ph).pOffset
  if (phdrAt mem ph).pMemsz > (phdrAt mem ph).pFilesz then
    return bmemset mem (wrap32 (pa + (phdrAt mem ph).pFilesz)) 0
      (sub32 (phdrAt mem ph).pMemsz (phdrAt mem ph).pFilesz)
  else
    return mem

/-- The loop of `bootmain` over the program headers. -/
def loadSegments (kdiskoffset : ℕ) : ℕ → BootMemory → ℕ → ℕ → ℕ → Outcome (ℕ × BootMemory)
  | 0, _, _, _, _ => .error .hang
  | fuel + 1, mem, ph, eph, entry =>
      if ph < eph then do
        let mem ← loadSegment L readsectRealmode kdiskoffset mem ph
        loadSegments kdiskoffset fuel mem (wrap32 (ph + sizeofPhdr)) eph
          (adjustEntry entry (phdrAt mem ph))
      else
        .ok (entry, mem)

/-- The `JMP bprintf` that is left at the start of the MBR for the kernel. -/
def bprintfHack (mem : BootMemory) : BootMemory :=
  let joffset := sub32 L.bprintf (mbr + 5)
  let mem := Function.update mem mbr 0xE9
  store mem (byteAddr (mbr + 1)) (fun i => BitVec.ofNat 8 (joffset / 2 ^ (8 * i))) 4

/-- `bootmain()`, from the ELF loader on: the address it jumps to, and memory at the jump, where the
text screen is that of before: what is printed is left out. -/
def bootmain (mem : BootMemory) : Outcome (ℕ × BootMemory) := do
  let kdiskoffset := kernreaderInit mem
  let mem ← kernreaderReadfile L readsectRealmode kdiskoffset mem L.elfbuf 4096 0
  if elfMagic mem L.elfbuf then
    let ph := wrap32 (L.elfbuf + ePhoff mem L.elfbuf)
    let phnum := ePhnum mem L.elfbuf
    let eph := wrap32 (ph + sizeofPhdr * phnum)
    if phnum = 0 then
      .error (.panic "no program headers in ELF file!")
    else
      let (entry, mem) ← loadSegments L readsectRealmode kdiskoffset (phnum + 1) mem ph eph
        (eEntry mem L.elfbuf)
      return (entry, bprintfHack L mem)
  else
    .error (.panic "ELF magic mismatch!")

end Reader

/-! ### What the string instructions do -/

theorem byteAddr_of_fits {p n i : ℕ} (hfits : p + n ≤ 2 ^ 32) (hi : i < n) : byteAddr p i = p + i :=
  wrap32_of_lt (by omega)

/-- The bytes of a block are different ones, also when it wraps. -/
theorem byteAddr_injective {p n i j : ℕ} (hn : n ≤ 2 ^ 32) (hi : i < n) (hj : j < n)
    (h : byteAddr p i = byteAddr p j) : i = j := by
  rw [byteAddr, byteAddr, wrap32, wrap32] at h
  omega

theorem store_byteAddr (mem : BootMemory) {p n : ℕ} (v : ℕ → BitVec 8) (hfits : p + n ≤ 2 ^ 32) :
    (∀ i < n, store mem (byteAddr p) v n (p + i) = v i) ∧
      ∀ a, (a < p ∨ p + n ≤ a) → store mem (byteAddr p) v n a = mem a := by
  constructor
  · intro i hi
    rw [← byteAddr_of_fits hfits hi]
    refine store_apply (fun j hj k hk heq => ?_) hi
    rw [byteAddr_of_fits hfits hj, byteAddr_of_fits hfits hk] at heq
    exact Nat.add_left_cancel heq
  · intro a ha
    refine store_of_ne fun i hi heq => ?_
    rw [byteAddr_of_fits hfits hi] at heq
    omega

/-- `bmemset` in a block that does not wrap. -/
theorem bmemset_spec (mem : BootMemory) {s n : ℕ} (c : BitVec 8) (hfits : s + n ≤ 2 ^ 32) :
    (∀ i < n, bmemset mem s c n (s + i) = c) ∧
      ∀ a, (a < s ∨ s + n ≤ a) → bmemset mem s c n a = mem a :=
  store_byteAddr mem _ hfits

/-- `bmemcpy` between blocks that do not wrap and are apart. -/
theorem bmemcpy_spec (mem : BootMemory) {dest src n : ℕ} (hdest : dest + n ≤ 2 ^ 32)
    (hsrc : src + n ≤ 2 ^ 32) (hapart : ∀ i < n, ∀ j < n, src + i ≠ dest + j) :
    (∀ i < n, bmemcpy mem dest src n (dest + i) = mem (src + i)) ∧
      ∀ a, (a < dest ∨ dest + n ≤ a) → bmemcpy mem dest src n a = mem a := by
  have hcopy : bmemcpy mem dest src n =
      store mem (byteAddr dest) (fun i => mem (byteAddr src i)) n := by
    refine copy_eq_store fun i hi j hj => ?_
    rw [byteAddr_of_fits hsrc hi, byteAddr_of_fits hdest (hj.trans hi)]
    exact hapart i hi j (hj.trans hi)
  obtain ⟨hin, hout⟩ := store_byteAddr mem (fun i => mem (byteAddr src i)) hdest
  rw [hcopy]
  refine ⟨fun i hi => ?_, hout⟩
  rw [hin i hi, byteAddr_of_fits hsrc hi]

/-! ### Reading a part of the file -/

section Reading

variable {L : BootLayout} {readsectRealmode : ReadsectRealmode} {disk : ℕ → BitVec 8}

/-- **`readsect_realmode` delivers the sector that was asked for**, for all sectors that 32-bit
offsets reach, and keeps all other memory but its scratch memory. -/
def Delivers (L : BootLayout) (readsectRealmode : ReadsectRealmode) (disk : ℕ → BitVec 8) : Prop :=
  ∀ sect mem, sect < 2 ^ 23 → ∃ mem', readsectRealmode lowBuffer sect mem = (true, mem') ∧
    (∀ i < sectSize, mem' (lowBuffer + i) = disk (sectSize * sect + i)) ∧
    ∀ a, a ∉ L.scratch → mem' a = mem a

/-- What reading the disk may change. -/
def BootLayout.Work (L : BootLayout) (a : ℕ) : Prop :=
  a ∈ L.scratch ∨ (L.sectbuf ≤ a ∧ a < L.sectbuf + sectSize)

theorem BootLayout.Work.own {a : ℕ} (h : L.Work a) : a ∈ L.own := by
  rcases h with h | ⟨hle, hlt⟩
  · exact L.scratch_own a h
  · obtain ⟨i, rfl⟩ := Nat.exists_eq_add_of_le hle
    exact L.sectbuf_own i (by omega)

theorem BootLayout.elfbuf_not_work {i : ℕ} (hi : i < 4096) : ¬ L.Work (L.elfbuf + i) := by
  rintro (h | ⟨hle, hlt⟩)
  · exact L.elfbuf_scratch i hi h
  · have hbuffers := L.buffers
    omega

/-- One sector. -/
theorem readsect_spec (hdisk : Delivers L readsectRealmode disk) {sect : ℕ} (hsect : sect < 2 ^ 23)
    (mem : BootMemory) : ∃ mem', readsect readsectRealmode L.sectbuf sect mem = .ok mem' ∧
      (∀ i < sectSize, mem' (L.sectbuf + i) = disk (sectSize * sect + i)) ∧
      ∀ a, ¬ L.Work a → mem' a = mem a := by
  obtain ⟨-, hcleared⟩ := bmemset_spec mem (s := lowBuffer) (n := sectSize) (-1) (by decide)
  obtain ⟨mem₁, hread, hbytes, hkept⟩ := hdisk sect (bmemset mem lowBuffer (-1) sectSize) hsect
  -- the low buffer is scratch memory, the buffer of the boot loader is not
  have hapart : ∀ i < sectSize, ∀ j < sectSize, lowBuffer + i ≠ L.sectbuf + j :=
    fun i hi j hj heq => L.sectbuf_scratch j hj (heq ▸ L.low_scratch i hi)
  obtain ⟨hcopied, hother⟩ := bmemcpy_spec mem₁ L.sectbuf_fits
    (by decide : lowBuffer + sectSize ≤ 2 ^ 32) hapart
  refine ⟨bmemcpy mem₁ L.sectbuf lowBuffer sectSize, ?_, fun i hi => ?_, fun a ha => ?_⟩
  · simp only [readsect, hread, if_true]
  · rw [hcopied i hi, hbytes i hi]
  · have hscratch : a ∉ L.scratch := fun h => ha (Or.inl h)
    have hbuf : a < L.sectbuf ∨ L.sectbuf + sectSize ≤ a := by
      by_contra h
      exact ha (Or.inr (by omega))
    have hlow : a < lowBuffer ∨ lowBuffer + sectSize ≤ a := by
      by_contra h
      obtain ⟨i, rfl⟩ := Nat.exists_eq_add_of_le (by omega : lowBuffer ≤ a)
      exact hscratch (L.low_scratch i (by omega))
    rw [hother a hbuf, hkept a hscratch, hcleared a hlow]

/-- Reading has written `n` bytes from `buf` on, and besides them only what reading the disk may
change. -/
structure BootLayout.Wrote (L : BootLayout) (mem mem' : BootMemory) (buf n : ℕ)
    (bytes : ℕ → BitVec 8) : Prop where
  bytes : ∀ i < n, mem' (buf + i) = bytes i
  kept : ∀ a, ¬ L.Work a → (a < buf ∨ buf + n ≤ a) → mem' a = mem a

/-- The same for a place that may wrap, and that may be in the way of reading. -/
structure BootLayout.Brought (L : BootLayout) (mem mem' : BootMemory) (buf n : ℕ)
    (bytes : ℕ → BitVec 8) : Prop where
  bytes : (∀ i < n, ¬ L.Work (byteAddr buf i)) → ∀ i < n, mem' (byteAddr buf i) = bytes i
  kept : ∀ a, ¬ L.Work a → (∀ i < n, a ≠ byteAddr buf i) → mem' a = mem a

theorem BootLayout.Brought.wrote {mem mem' : BootMemory} {buf n : ℕ} {bytes : ℕ → BitVec 8}
    (h : L.Brought mem mem' buf n bytes) (hfits : buf + n ≤ 2 ^ 32)
    (hwork : ∀ i < n, ¬ L.Work (buf + i)) : L.Wrote mem mem' buf n bytes := by
  constructor
  · intro i hi
    rw [← byteAddr_of_fits hfits hi]
    refine h.bytes (fun j hj => ?_) i hi
    rw [byteAddr_of_fits hfits hj]
    exact hwork j hj
  · intro a ha hout
    refine h.kept a ha fun i hi heq => ?_
    rw [byteAddr_of_fits hfits hi] at heq
    omega

/-- Two parts that follow each other. -/
theorem BootLayout.Brought.append {mem mem₁ mem' : BootMemory} {buf n m : ℕ}
    {bytes : ℕ → BitVec 8} (h : L.Brought mem mem₁ buf n bytes)
    (h' : L.Brought mem₁ mem' (wrap32 (buf + n)) m fun i => bytes (n + i))
    (hlen : n + m ≤ 2 ^ 32) : L.Brought mem mem' buf (n + m) bytes := by
  have hplace : ∀ i, byteAddr (wrap32 (buf + n)) i = byteAddr buf (n + i) := by
    intro i
    rw [byteAddr, byteAddr, wrap32, wrap32, wrap32]
    omega
  constructor
  · intro hwork i hi
    by_cases hi' : i < n
    · rw [h'.kept _ (hwork i hi), h.bytes (fun j hj => hwork j (by omega)) i hi']
      intro j hj heq
      rw [hplace] at heq
      have hsame := byteAddr_injective hlen hi (by omega) heq
      omega
    · obtain ⟨j, rfl⟩ := Nat.exists_eq_add_of_le (not_lt.1 hi')
      rw [← hplace]
      refine h'.bytes (fun k hk => ?_) j (by omega)
      rw [hplace]
      exact hwork (n + k) (by omega)
  · intro a ha hout
    rw [h'.kept a ha, h.kept a ha fun i hi => hout i (by omega)]
    intro i hi heq
    rw [hplace] at heq
    exact hout (n + i) (by omega) heq

/-- One round: the part of a sector that is wanted. -/
theorem readfile_round (hdisk : Delivers L readsectRealmode disk) (mem : BootMemory)
    (buf skip cursize sect : ℕ) (hcur : cursize ≤ sectSize) (hskip : skip ≤ cursize)
    (hsect : sect < 2 ^ 23) :
    ∃ mem₁ mem', readsect readsectRealmode L.sectbuf sect mem = .ok mem₁ ∧
      bmemcpy mem₁ buf (wrap32 (L.sectbuf + skip)) (sub32 cursize skip) = mem' ∧
      L.Brought mem mem' buf (cursize - skip) fun i => disk (sectSize * sect + skip + i) := by
  have hsectbuf := L.sectbuf_fits
  have hss : sectSize = 512 := rfl
  obtain ⟨mem₁, hread, hbytes, hkept⟩ := readsect_spec hdisk hsect mem
  have hlen : sub32 cursize skip = cursize - skip :=
    sub32_of_le hskip (hcur.trans_lt (by decide))
  have hsrc : ∀ i < cursize - skip,
      byteAddr (wrap32 (L.sectbuf + skip)) i = L.sectbuf + (skip + i) := by
    intro i hi
    rw [byteAddr, wrap32, wrap32]
    omega
  refine ⟨mem₁, _, hread, rfl, fun hwork i hi => ?_, fun a ha hout => ?_⟩
  · -- the wanted bytes are in the buffer of the boot loader, where `buf` is not
    have hapart : ∀ i < cursize - skip, ∀ j < i,
        byteAddr (wrap32 (L.sectbuf + skip)) i ≠ byteAddr buf j := by
      intro i hi j hj heq
      refine hwork j (hj.trans hi) (Or.inr ?_)
      rw [← heq, hsrc i hi]
      omega
    have hinj : ∀ i < cursize - skip, ∀ j < cursize - skip, byteAddr buf i = byteAddr buf j →
        i = j := fun i hi j hj => byteAddr_injective (by omega) hi hj
    rw [hlen, bmemcpy, copy_eq_store hapart, store_apply hinj hi, hsrc i hi,
      hbytes (skip + i) (by omega), Nat.add_assoc]
  · rw [hlen, bmemcpy, copy_of_ne hout, hkept a ha]

/-- **The loop of `kernreader_readfile`**: rounds before have left `size` bytes, of which the first
`skip` are not wanted. -/
theorem readfileLoop_spec (hdisk : Delivers L readsectRealmode disk) (fuel : ℕ) :
    ∀ (mem : BootMemory) (buf size skip sect : ℕ), size < fuel → size < 2 ^ 32 → skip ≤ size →
      skip < sectSize → sectSize * sect + size ≤ 2 ^ 32 →
      ∃ mem', readfileLoop L readsectRealmode fuel mem buf size skip sect = .ok mem' ∧
        L.Brought mem mem' buf (size - skip) fun i => disk (sectSize * sect + skip + i) := by
  induction fuel with
  | zero => exact fun _ _ size _ _ hfuel => absurd hfuel (Nat.not_lt_zero size)
  | succ fuel ih =>
      intro mem buf size skip sect hfuel hsize hskip hskip' hdiskoff
      by_cases hdone : size = 0
      · subst hdone
        exact ⟨mem, if_neg (by simp), fun _ i hi => absurd hi (by omega), fun a _ _ => rfl⟩
      · obtain ⟨cur, hcur⟩ : ∃ cur, cur = if size < sectSize then size else sectSize := ⟨_, rfl⟩
        have hcases : (size < sectSize ∧ cur = size) ∨ (sectSize ≤ size ∧ cur = sectSize) := by
          split at hcur
          · exact Or.inl ⟨by omega, hcur⟩
          · exact Or.inr ⟨by omega, hcur⟩
        have hss : sectSize = 512 := rfl
        have hmul : sectSize * sect = 512 * sect := rfl
        have hmul' : sectSize * (sect + 1) = 512 * sect + 512 := rfl
        have hlen : sub32 cur skip = cur - skip := sub32_of_le (by omega) (by omega)
        have hrest : sub32 size cur = size - cur := sub32_of_le (by omega) hsize
        have hnext : wrap32 (sect + 1) = sect + 1 := wrap32_of_lt (by omega)
        obtain ⟨mem₁, mem₂, hread, hcopy, hround⟩ :=
          readfile_round hdisk mem buf skip cur sect (by omega) (by omega) (by omega)
        -- the rest begins with a sector, so nothing of it is skipped
        obtain ⟨mem', hrun, hbrought⟩ := ih mem₂ (wrap32 (buf + (cur - skip))) (size - cur) 0
          (sect + 1) (by omega) (by omega) (by omega) (by omega) (by omega)
        refine ⟨mem', ?_, ?_⟩
        · rw [readfileLoop, if_pos hdone]
          simp only [← hcur]
          rw [hread, ok_bind, hcopy, hlen, hrest, hnext]
          exact hrun
        · have hsum : cur - skip + (size - cur) = size - skip := by omega
          rw [← hsum]
          refine hround.append ⟨fun hwork i hi => ?_, hbrought.kept⟩ (by omega)
          rw [hbrought.bytes hwork i hi]
          congr 1
          omega

/-- **`kernreader_readfile`** brings the bytes it is asked for, wherever the destination is. -/
theorem kernreaderReadfile_brought (hdisk : Delivers L readsectRealmode disk)
    (kdiskoffset : ℕ) (mem : BootMemory) (buf size offset : ℕ)
    (hdiskoff : kdiskoffset + (offset + size) ≤ 2 ^ 32) (hsize : size + sectSize ≤ 2 ^ 32) :
    ∃ mem', kernreaderReadfile L readsectRealmode kdiskoffset mem buf size offset = .ok mem' ∧
      L.Brought mem mem' buf size fun i => disk (kdiskoffset + (offset + i)) := by
  obtain ⟨o, ho⟩ : ∃ o, o = wrap32 (offset + kdiskoffset) := ⟨_, rfl⟩
  have hss : sectSize = 512 := rfl
  have hskip : o % sectSize < sectSize := Nat.mod_lt _ (by decide)
  have hsplit : sectSize * (o / sectSize) + o % sectSize = o := Nat.div_add_mod o sectSize
  have hle : o + size ≤ 2 ^ 32 ∧ (size ≠ 0 → o = kdiskoffset + offset) := by
    rw [ho, wrap32]
    omega
  have hlen : wrap32 (size + o % sectSize) = size + o % sectSize := wrap32_of_lt (by omega)
  have hwanted : size + o % sectSize - o % sectSize = size := Nat.add_sub_cancel _ _
  obtain ⟨mem', hrun, hbytes, hkept⟩ := readfileLoop_spec hdisk (size + o % sectSize + 1) mem buf
    (size + o % sectSize) (o % sectSize) (o / sectSize) (Nat.lt_succ_self _) (by omega) (by omega)
    hskip (by omega)
  rw [hwanted] at hbytes hkept
  refine ⟨mem', ?_, fun hwork i hi => ?_, hkept⟩
  · rw [kernreaderReadfile]
    simp only [← ho]
    rw [hlen]
    exact hrun
  · rw [hbytes hwork i hi, hsplit, hle.2 (by omega), Nat.add_assoc]

/-- **`kernreader_readfile`** brings the bytes it is asked for, and changes nothing else but what
reading the disk may change. -/
theorem kernreaderReadfile_spec (hdisk : Delivers L readsectRealmode disk)
    (kdiskoffset : ℕ) (mem : BootMemory) (buf size offset : ℕ)
    (hdiskoff : kdiskoffset + (offset + size) ≤ 2 ^ 32) (hsize : size + sectSize ≤ 2 ^ 32)
    (hfits : buf + size ≤ 2 ^ 32) (hwork : ∀ i < size, ¬ L.Work (buf + i)) :
    ∃ mem', kernreaderReadfile L readsectRealmode kdiskoffset mem buf size offset = .ok mem' ∧
      L.Wrote mem mem' buf size fun i => disk (kdiskoffset + (offset + i)) := by
  obtain ⟨mem', hrun, hbrought⟩ :=
    kernreaderReadfile_brought hdisk kdiskoffset mem buf size offset hdiskoff hsize
  exact ⟨mem', hrun, hbrought.wrote hfits hwork⟩

end Reading

/-! ### The header table -/

theorem word16_congr {mem mem' : BootMemory} {p q : ℕ} (h : ∀ i < 2, mem' (p + i) = mem (q + i)) :
    word16 mem' p = word16 mem q := by
  rw [word16, word16, h 1 (by decide), show mem' p = mem q from h 0 (by decide)]

theorem word32_congr {mem mem' : BootMemory} {p q : ℕ} (h : ∀ i < 4, mem' (p + i) = mem (q + i)) :
    word32 mem' p = word32 mem q := by
  have hlow : word16 mem' p = word16 mem q := word16_congr fun i hi => h i (by omega)
  have hhigh : word16 mem' (p + 2) = word16 mem (q + 2) := by
    refine word16_congr fun i hi => ?_
    rw [Nat.add_assoc, Nat.add_assoc]
    exact h (2 + i) (by omega)
  rw [word32, word32, hlow, hhigh]

theorem word32_lt (mem : BootMemory) (p : ℕ) : word32 mem p < 2 ^ 32 := by
  have h0 := (mem p).isLt
  have h1 := (mem (p + 1)).isLt
  have h2 := (mem (p + 2)).isLt
  have h3 := (mem (p + 2 + 1)).isLt
  rw [word32, word16, word16]
  omega

/-- A header is made of the bytes at its place. -/
theorem phdrAt_congr {mem mem' : BootMemory} {p q : ℕ}
    (h : ∀ i < sizeofPhdr, mem' (p + i) = mem (q + i)) : phdrAt mem' p = phdrAt mem q := by
  have hword : ∀ k, k + 4 ≤ sizeofPhdr → word32 mem' (p + k) = word32 mem (q + k) := by
    intro k hk
    refine word32_congr fun i hi => ?_
    rw [Nat.add_assoc, Nat.add_assoc]
    exact h (k + i) (by omega)
  simp only [phdrAt, hword _ (by decide : 4 + 4 ≤ sizeofPhdr),
    hword _ (by decide : 8 + 4 ≤ sizeofPhdr), hword _ (by decide : 12 + 4 ≤ sizeofPhdr),
    hword _ (by decide : 16 + 4 ≤ sizeofPhdr), hword _ (by decide : 20 + 4 ≤ sizeofPhdr)]

/-- A header in a buffer that is kept. -/
theorem phdrAt_kept {mem mem' : BootMemory} {elfbuf k : ℕ}
    (hbuf : ∀ i < 4096, mem' (elfbuf + i) = mem (elfbuf + i)) (hk : k + sizeofPhdr ≤ 4096) :
    phdrAt mem' (elfbuf + k) = phdrAt mem (elfbuf + k) := by
  refine phdrAt_congr fun i hi => ?_
  rw [Nat.add_assoc]
  exact hbuf (k + i) (by omega)

/-- The program header table of a file: all entries have the size of an ELF32 program header. -/
def phdrs (file : BootMemory) : List ElfPhdr :=
  (List.range (ePhnum file 0)).map fun i => phdrAt file (ePhoff file 0 + sizeofPhdr * i)

/-- These headers are in memory from `ph` on. -/
def TableAt (mem : BootMemory) : ℕ → List ElfPhdr → Prop
  | _, [] => True
  | ph, h :: hs => phdrAt mem ph = h ∧ TableAt mem (ph + sizeofPhdr) hs

theorem TableAt.congr {mem mem' : BootMemory} {hs : List ElfPhdr} :
    ∀ {ph : ℕ}, TableAt mem ph hs → (∀ i < sizeofPhdr * hs.length, mem' (ph + i) = mem (ph + i)) →
      TableAt mem' ph hs := by
  induction hs with
  | nil => exact fun _ _ => trivial
  | cons h hs ih =>
      intro ph htable hsame
      rw [List.length_cons, Nat.mul_succ] at hsame
      refine ⟨?_, ih htable.2 fun i hi => ?_⟩
      · rw [← htable.1]
        exact phdrAt_congr fun i hi => hsame i (by omega)
      · rw [Nat.add_assoc]
        exact hsame (sizeofPhdr + i) (by omega)

/-- Headers read one after the other. -/
theorem tableAt_map {mem : BootMemory} {f : ℕ → ElfPhdr} :
    ∀ (n k p : ℕ), (∀ i < n, phdrAt mem (p + sizeofPhdr * i) = f (k + i)) →
      TableAt mem p ((List.range' k n).map f) := by
  intro n
  induction n with
  | zero => exact fun _ _ _ => trivial
  | succ n ih =>
      intro k p h
      rw [List.range'_succ, List.map_cons]
      refine ⟨h 0 (Nat.succ_pos n), ih (k + 1) (p + sizeofPhdr) fun i hi => ?_⟩
      have hnext := h (i + 1) (by omega)
      have hplace : p + sizeofPhdr * (i + 1) = p + sizeofPhdr + sizeofPhdr * i := by
        rw [Nat.mul_succ]
        omega
      rwa [hplace, Nat.add_comm i 1, ← Nat.add_assoc] at hnext

/-! ### Loading the segments -/

section Loading

variable {L : BootLayout} {readsectRealmode : ReadsectRealmode} {disk : ℕ → BitVec 8}
  {kdiskoffset : ℕ}

/-- The memory that a segment wants. -/
def ElfPhdr.Covers (h : ElfPhdr) (a : ℕ) : Prop :=
  h.pPaddr ≤ a ∧ a < h.pPaddr + max h.pFilesz h.pMemsz

/-- **A segment is where its header wants it**: its bytes of the file, and zeros behind them. -/
def Loaded (mem : BootMemory) (file : ℕ → BitVec 8) (h : ElfPhdr) : Prop :=
  (∀ i < h.pFilesz, mem (h.pPaddr + i) = file (h.pOffset + i)) ∧
    ∀ i, h.pFilesz ≤ i → i < h.pMemsz → mem (h.pPaddr + i) = 0

/-- A segment that does not wrap, on the disk or in memory, and leaves the boot loader alone. -/
structure Loadable (L : BootLayout) (kdiskoffset : ℕ) (h : ElfPhdr) : Prop where
  fits : h.pPaddr + max h.pFilesz h.pMemsz ≤ 2 ^ 32
  offset : kdiskoffset + (h.pOffset + h.pFilesz) ≤ 2 ^ 32
  own : ∀ a ∈ L.own, ¬ h.Covers a

theorem Loaded.congr {mem mem' : BootMemory} {file : ℕ → BitVec 8} {h : ElfPhdr}
    (hl : Loaded mem file h) (hsame : ∀ a, h.Covers a → mem' a = mem a) : Loaded mem' file h := by
  refine ⟨fun i hi => ?_, fun i hle hlt => ?_⟩
  · rw [hsame _ ⟨by omega, by omega⟩]
    exact hl.1 i hi
  · rw [hsame _ ⟨by omega, by omega⟩]
    exact hl.2 i hle hlt

/-- The MBR keeps a segment from being as long as memory. -/
theorem Loadable.size {h : ElfPhdr} (hh : Loadable L kdiskoffset h) :
    max h.pFilesz h.pMemsz + sectSize ≤ 2 ^ 32 := by
  have hmbr := hh.own _ (L.mbr_own 0 (by decide))
  have hfits := hh.fits
  simp only [ElfPhdr.Covers, mbr, sectSize] at hmbr ⊢
  omega

/-- One segment. -/
theorem loadSegment_spec (hdisk : Delivers L readsectRealmode disk) {mem : BootMemory} {k : ℕ}
    {h : ElfPhdr} (hk : k + sizeofPhdr ≤ 4096) (hph : phdrAt mem (L.elfbuf + k) = h)
    (hh : Loadable L kdiskoffset h) :
    ∃ mem', loadSegment L readsectRealmode kdiskoffset mem (L.elfbuf + k) = .ok mem' ∧
      Loaded mem' (fun o => disk (kdiskoffset + o)) h ∧
      ∀ a, ¬ L.Work a → ¬ h.Covers a → mem' a = mem a := by
  have hfits := hh.fits
  have hsize := hh.size
  obtain ⟨mem₁, hread, hbytes, hkept⟩ := kernreaderReadfile_spec hdisk kdiskoffset mem h.pPaddr
    h.pFilesz h.pOffset hh.offset (by omega) (by omega)
    fun i hi hwork => hh.own _ hwork.own ⟨by omega, by omega⟩
  -- the header is still there
  have hbuf : ∀ i < 4096, mem₁ (L.elfbuf + i) = mem (L.elfbuf + i) := by
    intro i hi
    refine hkept _ (L.elfbuf_not_work hi) ?_
    have hout := hh.own _ (L.elfbuf_own i hi)
    simp only [ElfPhdr.Covers] at hout
    omega
  have hph₁ : phdrAt mem₁ (L.elfbuf + k) = h := (phdrAt_kept hbuf hk).trans hph
  have hstep : loadSegment L readsectRealmode kdiskoffset mem (L.elfbuf + k) =
      .ok (if h.pMemsz > h.pFilesz then
        bmemset mem₁ (wrap32 (h.pPaddr + h.pFilesz)) 0 (sub32 h.pMemsz h.pFilesz) else mem₁) := by
    rw [loadSegment, hph, hread, ok_bind, hph₁]
    split <;> rfl
  rw [hstep]
  refine ⟨_, rfl, ?_⟩
  by_cases hzero : h.pMemsz > h.pFilesz
  · have hstart : wrap32 (h.pPaddr + h.pFilesz) = h.pPaddr + h.pFilesz :=
      wrap32_of_lt (by omega)
    have hlen : sub32 h.pMemsz h.pFilesz = h.pMemsz - h.pFilesz :=
      sub32_of_le (by omega) (by simp only [sectSize] at hsize; omega)
    obtain ⟨hzeros, hother⟩ := bmemset_spec mem₁ (s := h.pPaddr + h.pFilesz)
      (n := h.pMemsz - h.pFilesz) 0 (by omega)
    rw [if_pos hzero, hstart, hlen]
    refine ⟨⟨fun i hi => ?_, fun i hle hlt => ?_⟩, fun a ha hout => ?_⟩
    · rw [hother _ (Or.inl (by omega)), hbytes i hi]
    · obtain ⟨j, rfl⟩ := Nat.exists_eq_add_of_le hle
      rw [← Nat.add_assoc]
      exact hzeros j (by omega)
    · simp only [ElfPhdr.Covers] at hout
      rw [hother a (by omega), hkept a ha (by omega)]
  · rw [if_neg hzero]
    refine ⟨⟨fun i hi => ?_, fun i hle hlt => absurd hlt (by omega)⟩, fun a ha hout => ?_⟩
    · exact hbytes i hi
    · refine hkept a ha ?_
      simp only [ElfPhdr.Covers] at hout
      omega

/-- Segments that do not share memory. -/
def ElfPhdr.Apart (g h : ElfPhdr) : Prop := ∀ a, ¬ (g.Covers a ∧ h.Covers a)

/-- **The loop over the headers**, by induction on those that are left: memory that they do not
want is kept, in particular the segments before.  So segments that do not share memory are all
loaded in the end. -/
theorem loadSegments_spec (hdisk : Delivers L readsectRealmode disk) {hs : List ElfPhdr} :
    ∀ (fuel k entry : ℕ) (mem : BootMemory), hs.length < fuel → k + sizeofPhdr * hs.length ≤ 4096 →
      TableAt mem (L.elfbuf + k) hs → (∀ h ∈ hs, Loadable L kdiskoffset h) →
      ∃ mem', loadSegments L readsectRealmode kdiskoffset fuel mem (L.elfbuf + k)
          (L.elfbuf + k + sizeofPhdr * hs.length) entry = .ok (hs.foldl adjustEntry entry, mem') ∧
        (hs.Pairwise ElfPhdr.Apart →
          ∀ h ∈ hs, Loaded mem' (fun o => disk (kdiskoffset + o)) h) ∧
        ∀ a, ¬ L.Work a → (∀ h ∈ hs, ¬ h.Covers a) → mem' a = mem a := by
  induction hs with
  | nil =>
      intro fuel k entry mem hfuel _ _ _
      obtain ⟨f, rfl⟩ : ∃ f, fuel = f + 1 := ⟨fuel - 1, by omega⟩
      refine ⟨mem, ?_, fun _ h hh => absurd hh List.not_mem_nil, fun a _ _ => rfl⟩
      rw [loadSegments, if_neg (by simp)]
      rfl
  | cons h hs ih =>
      intro fuel k entry mem hfuel hk htable hload
      obtain ⟨f, rfl⟩ : ∃ f, fuel = f + 1 := ⟨fuel - 1, by omega⟩
      rw [List.length_cons] at hfuel
      rw [List.length_cons, Nat.mul_succ] at hk
      have hh := hload h List.mem_cons_self
      obtain ⟨mem₁, hseg, hloaded, hkept⟩ := loadSegment_spec hdisk (by omega) htable.1 hh
      -- the table is memory of the boot loader
      have hbuf : ∀ i < 4096, mem₁ (L.elfbuf + i) = mem (L.elfbuf + i) := fun i hi =>
        hkept _ (L.elfbuf_not_work hi) (hh.own _ (L.elfbuf_own i hi))
      have hphdr : phdrAt mem₁ (L.elfbuf + k) = h :=
        (phdrAt_kept hbuf (by omega)).trans htable.1
      have htable₁ : TableAt mem₁ (L.elfbuf + (k + sizeofPhdr)) hs := by
        rw [← Nat.add_assoc]
        refine htable.2.congr fun i hi => ?_
        rw [Nat.add_assoc, Nat.add_assoc]
        exact hbuf _ (by omega)
      obtain ⟨mem', hrun, hall, hframe⟩ := ih f (k + sizeofPhdr) (adjustEntry entry h) mem₁
        (by omega) (by omega) htable₁ fun g hg => hload g (List.mem_cons_of_mem _ hg)
      have hfits := L.elfbuf_fits
      have hss : sizeofPhdr = 32 := rfl
      refine ⟨mem', ?_, ?_, ?_⟩
      · have hnext : wrap32 (L.elfbuf + k + sizeofPhdr) = L.elfbuf + (k + sizeofPhdr) := by
          rw [Nat.add_assoc]
          exact wrap32_of_lt (by omega)
        rw [loadSegments, if_pos (by rw [List.length_cons, Nat.mul_succ]; omega), hseg, ok_bind, hphdr,
          hnext, List.foldl_cons, ← hrun, List.length_cons, Nat.mul_succ]
        congr 1
        omega
      · intro hapart g hg
        obtain ⟨hfirst, hrest⟩ := List.pairwise_cons.1 hapart
        rcases List.mem_cons.1 hg with rfl | hg
        · -- later segments are elsewhere
          refine hloaded.congr fun a ha => hframe a (fun hwork => hh.own a hwork.own ha) ?_
          exact fun g hg hcov => hfirst g hg a ⟨ha, hcov⟩
        · exact hall hrest g hg
      · intro a ha hout
        rw [hframe a ha fun g hg => hout g (List.mem_cons_of_mem _ hg),
          hkept a ha (hout h List.mem_cons_self)]

end Loading

/-! ### `bootmain` -/

section Bootmain

variable {L : BootLayout} {readsectRealmode : ReadsectRealmode} {disk : ℕ → BitVec 8}
  {mem : BootMemory}

/-- Where the kernel's partition starts on the disk, in bytes. -/
def kernelOffset (mem : BootMemory) : ℕ := kernelLba mem * sectSize

/-- The file on the kernel's partition. -/
def kernelFile (mem : BootMemory) (disk : ℕ → BitVec 8) : ℕ → BitVec 8 :=
  fun o => disk (kernelOffset mem + o)

/-- **What is asked of the file on the kernel's partition**: an ELF file with its program headers
among the first 4096 bytes, whose segments can be loaded. -/
structure Startable (L : BootLayout) (mem : BootMemory) (disk : ℕ → BitVec 8) : Prop where
  partition : kernelOffset mem + 4096 ≤ 2 ^ 32
  magic : elfMagic (kernelFile mem disk) 0 = true
  table : ePhoff (kernelFile mem disk) 0 + sizeofPhdr * ePhnum (kernelFile mem disk) 0 ≤ 4096
  load : ∀ h ∈ phdrs (kernelFile mem disk), Loadable L (kernelOffset mem) h

/-- A file whose segments do not share memory either. -/
structure Bootable (L : BootLayout) (mem : BootMemory) (disk : ℕ → BitVec 8) : Prop
    extends Startable L mem disk where
  apart : (phdrs (kernelFile mem disk)).Pairwise ElfPhdr.Apart

/-- The ELF header, once the start of the file is in `elfbuf`. -/
theorem elfHeader_congr {mem₁ : BootMemory} {file : ℕ → BitVec 8} {elfbuf : ℕ}
    (hbuf : ∀ i < 4096, mem₁ (elfbuf + i) = file i) :
    elfMagic mem₁ elfbuf = elfMagic file 0 ∧ eEntry mem₁ elfbuf = eEntry file 0 ∧
      ePhoff mem₁ elfbuf = ePhoff file 0 ∧ ePhnum mem₁ elfbuf = ePhnum file 0 := by
  have hword : ∀ k, k + 4 ≤ 4096 → word32 mem₁ (elfbuf + k) = word32 file (0 + k) := by
    intro k hk
    refine word32_congr fun i hi => ?_
    rw [Nat.add_assoc, Nat.add_assoc, Nat.zero_add]
    exact hbuf _ (by omega)
  have hfirst : mem₁ elfbuf = file 0 := hbuf 0 (by decide)
  refine ⟨?_, hword 24 (by decide), hword 28 (by decide), word16_congr fun i hi => ?_⟩
  · simp only [elfMagic, hfirst, hbuf 1 (by decide), hbuf 2 (by decide), hbuf 3 (by decide),
      Nat.zero_add]
  · rw [Nat.add_assoc, Nat.add_assoc, Nat.zero_add]
    exact hbuf _ (by omega)

/-- The program headers, once the start of the file is in `elfbuf`. -/
theorem tableAt_phdrs {mem₁ : BootMemory} {file : ℕ → BitVec 8} {elfbuf : ℕ}
    (hbuf : ∀ i < 4096, mem₁ (elfbuf + i) = file i)
    (htable : ePhoff file 0 + sizeofPhdr * ePhnum file 0 ≤ 4096) :
    TableAt mem₁ (elfbuf + ePhoff file 0) (phdrs file) := by
  rw [phdrs, List.range_eq_range']
  refine tableAt_map _ 0 _ fun i hi => phdrAt_congr fun j hj => ?_
  have hle : sizeofPhdr * (i + 1) ≤ sizeofPhdr * ePhnum file 0 := Nat.mul_le_mul_left _ hi
  rw [Nat.mul_succ] at hle
  have hplace : elfbuf + ePhoff file 0 + sizeofPhdr * i + j =
      elfbuf + (ePhoff file 0 + sizeofPhdr * i + j) := by omega
  rw [Nat.zero_add, hplace]
  exact hbuf _ (by omega)

/-- The hack for the kernel's `bprintf` stays in the MBR. -/
theorem bprintfHack_of_not_own {a : ℕ} (ha : a ∉ L.own) : bprintfHack L mem a = mem a := by
  have hfits : mbr + 1 + 4 ≤ 2 ^ 32 := by decide
  have hne : ∀ i < 5, a ≠ mbr + i := by
    rintro i hi rfl
    exact ha (L.mbr_own i (hi.trans (by decide)))
  have hfirst : a ≠ mbr := hne 0 (by decide)
  rw [bprintfHack, store_of_ne fun i hi => ?_, Function.update_of_ne hfirst]
  rw [byteAddr_of_fits hfits hi, Nat.add_assoc]
  exact hne (1 + i) (by omega)

/-- **How `bootmain` ends**: it refuses a file without segments, and jumps into the kernel of all
others, loaded if its segments do not share memory. -/
theorem bootmain_spec (hdisk : Delivers L readsectRealmode disk) (hb : Startable L mem disk) :
    (ePhnum (kernelFile mem disk) 0 = 0 → bootmain L readsectRealmode mem =
        .error (.panic "no program headers in ELF file!")) ∧
      (ePhnum (kernelFile mem disk) 0 ≠ 0 → ∃ mem', bootmain L readsectRealmode mem =
          .ok ((phdrs (kernelFile mem disk)).foldl adjustEntry (eEntry (kernelFile mem disk) 0), mem') ∧
        ((phdrs (kernelFile mem disk)).Pairwise ElfPhdr.Apart →
          ∀ h ∈ phdrs (kernelFile mem disk), Loaded mem' (kernelFile mem disk) h)) := by
  have hpart := hb.partition
  have hkdisk : kernreaderInit mem = kernelOffset mem := wrap32_of_lt (by
    show kernelOffset mem < 2 ^ 32
    omega)
  obtain ⟨mem₁, hread, hbytes, -⟩ := kernreaderReadfile_spec hdisk (kernelOffset mem) mem L.elfbuf
    4096 0 (by rwa [Nat.zero_add]) (by decide) (Nat.le_of_lt L.elfbuf_fits)
    fun i hi => L.elfbuf_not_work hi
  have hbuf : ∀ i < 4096, mem₁ (L.elfbuf + i) = kernelFile mem disk i := by
    intro i hi
    rw [hbytes i hi, kernelFile, Nat.zero_add]
  obtain ⟨hmagic, hentry, hphoff, hphnum⟩ := elfHeader_congr hbuf
  rw [hb.magic] at hmagic
  have hfits := L.elfbuf_fits
  have htable := hb.table
  have hph : wrap32 (L.elfbuf + ePhoff (kernelFile mem disk) 0) =
      L.elfbuf + ePhoff (kernelFile mem disk) 0 := wrap32_of_lt (by omega)
  have heph : wrap32 (L.elfbuf + ePhoff (kernelFile mem disk) 0 +
        sizeofPhdr * ePhnum (kernelFile mem disk) 0) =
      L.elfbuf + ePhoff (kernelFile mem disk) 0 + sizeofPhdr * ePhnum (kernelFile mem disk) 0 :=
    wrap32_of_lt (by omega)
  have hmain : bootmain L readsectRealmode mem =
      (if ePhnum (kernelFile mem disk) 0 = 0 then .error (.panic "no program headers in ELF file!")
      else do
        let (entry, mem) ← loadSegments L readsectRealmode (kernelOffset mem)
          (ePhnum (kernelFile mem disk) 0 + 1) mem₁ (L.elfbuf + ePhoff (kernelFile mem disk) 0)
          (L.elfbuf + ePhoff (kernelFile mem disk) 0 + sizeofPhdr * ePhnum (kernelFile mem disk) 0)
          (eEntry (kernelFile mem disk) 0)
        return (entry, bprintfHack L mem)) := by
    rw [bootmain, hkdisk, hread, ok_bind, if_pos hmagic, hphoff, hphnum, hentry, hph]
    simp only [heph]
  have hlen : (phdrs (kernelFile mem disk)).length = ePhnum (kernelFile mem disk) 0 := by
    rw [phdrs, List.length_map, List.length_range]
  constructor
  · intro hnone
    rw [hmain, if_pos hnone]
  · intro hsome
    obtain ⟨mem₂, hrun, hloaded, -⟩ := loadSegments_spec hdisk
      (ePhnum (kernelFile mem disk) 0 + 1) (ePhoff (kernelFile mem disk) 0)
      (eEntry (kernelFile mem disk) 0) mem₁ (by omega) (by rwa [hlen])
      (tableAt_phdrs hbuf htable) hb.load
    rw [hlen] at hrun
    refine ⟨bprintfHack L mem₂, ?_, fun hapart h hh => ?_⟩
    · rw [hmain, if_neg hsome, hrun]
      rfl
    · refine (hloaded hapart h hh).congr fun a ha => bprintfHack_of_not_own fun hown => ?_
      exact (hb.load h hh).own a hown ha

/-- **The kernel is loaded.**  Whatever the order and number of its program headers, `bootmain`
reaches the jump if there is one, and at the jump every segment is where its header wants it: its
bytes of the file, and zeros behind them. -/
theorem bootmain_loads (hdisk : Delivers L readsectRealmode disk) (hb : Bootable L mem disk) :
    (ePhnum (kernelFile mem disk) 0 ≠ 0 →
        ∃ entry mem', bootmain L readsectRealmode mem = .ok (entry, mem')) ∧
      ∀ entry mem', bootmain L readsectRealmode mem = .ok (entry, mem') →
        ∀ h ∈ phdrs (kernelFile mem disk), Loaded mem' (kernelFile mem disk) h := by
  obtain ⟨hrefused, hreached⟩ := bootmain_spec hdisk hb.toStartable
  constructor
  · intro hsome
    obtain ⟨mem', hrun, -⟩ := hreached hsome
    exact ⟨_, mem', hrun⟩
  · intro entry mem' hrun
    by_cases hnone : ePhnum (kernelFile mem disk) 0 = 0
    · rw [hrefused hnone] at hrun
      cases hrun
    · obtain ⟨mem₂, hrun₂, hloaded⟩ := hreached hnone
      rw [hrun₂] at hrun
      cases Except.ok.inj hrun
      exact hloaded hb.apart

end Bootmain

/-! ### A kernel of two segments -/

/-- A layout with the buffers behind the text of the boot loader. -/
def lowLayout : BootLayout where
  elfbuf := 0x9000
  sectbuf := 0xa000
  bprintf := 0x8100
  scratch := { a | (0x1000 ≤ a ∧ a < 0x1200) ∨ (0x7000 ≤ a ∧ a < 0x7c00) ∨
    (0xB8000 ≤ a ∧ a < 0xB8FA0) }
  own := { a | (0x1000 ≤ a ∧ a < 0x1200) ∨ (0x7000 ≤ a ∧ a < 0xb000) ∨
    (0xB8000 ≤ a ∧ a < 0xB8FA0) }
  elfbuf_fits := by decide
  sectbuf_fits := by decide
  low_scratch := fun i hi => Or.inl ⟨by simp [lowBuffer], by simp [lowBuffer, sectSize] at *; omega⟩
  cga_scratch := fun i hi =>
    Or.inr (Or.inr ⟨by simp [cgaBuf], by simp [cgaBuf, cgaBytes] at *; omega⟩)
  sectbuf_scratch := fun i hi h => by
    rw [sectSize] at hi
    rcases h with ⟨-, h⟩ | ⟨-, h⟩ | ⟨h, -⟩ <;> omega
  elfbuf_scratch := fun i hi h => by
    rcases h with ⟨-, h⟩ | ⟨-, h⟩ | ⟨h, -⟩ <;> omega
  buffers := Or.inr (by decide)
  scratch_own := fun a h => by
    rcases h with h | h | h
    · exact Or.inl h
    · exact Or.inr (Or.inl ⟨h.1, by omega⟩)
    · exact Or.inr (Or.inr h)
  sectbuf_own := fun i hi => Or.inr (Or.inl ⟨by omega, by simp [sectSize] at hi; omega⟩)
  elfbuf_own := fun i hi => Or.inr (Or.inl ⟨by omega, by omega⟩)
  mbr_own := fun i hi =>
    Or.inr (Or.inl ⟨by simp [mbr]; omega, by simp [mbr, sectSize] at *; omega⟩)

/-- A partition that starts at sector 1, with a kernel of three bytes for two segments. -/
def twoSegments (o : ℕ) : BitVec 8 :=
  [0x7f, 0x45, 0x4c, 0x46, 0, 0, 0, 0, 0, 0, 0, 0, 0, 0, 0, 0, 0, 0, 0, 0, 0, 0, 0, 0,
    -- `e_entry`, `e_phoff`, `e_phnum`
    0, 0, 0x10, 0x80, 52, 0, 0, 0, 0, 0, 0, 0, 0, 0, 0, 0, 0, 0, 0, 0, 2, 0, 0, 0, 0, 0, 0, 0,
    -- `0x80100000` at `0x100000`: two bytes, and zeros up to four
    1, 0, 0, 0, 116, 0, 0, 0, 0, 0, 0x10, 0x80, 0, 0, 0x10, 0, 2, 0, 0, 0, 4, 0, 0, 0, 7, 0, 0, 0,
    0, 0, 0, 0,
    -- `0x80200000` at `0x200000`: one byte
    1, 0, 0, 0, 118, 0, 0, 0, 0, 0, 0x20, 0x80, 0, 0, 0x20, 0, 1, 0, 0, 0, 1, 0, 0, 0, 7, 0, 0, 0,
    0, 0, 0, 0, 0xab, 0xcd, 0xef].getD (o - 512) 0

/-- Memory with a partition table. -/
def partitioned : BootMemory := fun a => if a = 0x7dd6 then 1 else 0

/-- A BIOS that reads. -/
def biosRead (disk : ℕ → BitVec 8) : ReadsectRealmode := fun low sect mem =>
  (true, fun a => if low ≤ a ∧ a < low + sectSize then disk (sectSize * sect + (a - low)) else mem a)

theorem biosRead_delivers (disk : ℕ → BitVec 8) : Delivers lowLayout (biosRead disk) disk := by
  refine fun sect mem _ => ⟨_, rfl, fun i hi => ?_, fun a ha => if_neg fun h => ha (Or.inl h)⟩
  rw [if_pos ⟨by omega, by omega⟩, Nat.add_sub_cancel_left]

theorem bootable_twoSegments : Bootable lowLayout partitioned twoSegments := by
  have htable : phdrs (kernelFile partitioned twoSegments) =
      [⟨116, 0x80100000, 0x100000, 2, 4⟩, ⟨118, 0x80200000, 0x200000, 1, 1⟩] := by decide +kernel
  refine ⟨⟨by decide +kernel, by decide +kernel, by decide +kernel, ?_⟩, ?_⟩
  · rw [htable]
    have hoffset : kernelOffset partitioned = 512 := by decide +kernel
    intro h hh
    have hlow : ∀ a ∈ lowLayout.own, a < 0x100000 := by
      rintro a (⟨-, ha⟩ | ⟨-, ha⟩ | ⟨-, ha⟩) <;> omega
    rcases List.mem_pair.1 hh with rfl | rfl
    · refine ⟨by decide, by rw [hoffset]; decide, fun a ha hcov => ?_⟩
      exact absurd (hlow a ha) (not_lt.2 (le_trans (by decide) hcov.1))
    · refine ⟨by decide, by rw [hoffset]; decide, fun a ha hcov => ?_⟩
      exact absurd (hlow a ha) (not_lt.2 (le_trans (by decide) hcov.1))
  · rw [htable]
    refine List.pairwise_pair.2 fun a ⟨hg, hh⟩ => ?_
    have hlt := hg.2.trans_le (show _ ≤ 0x200000 by decide)
    exact absurd (hh.1.trans_lt hlt) (lt_irrefl _)

/-- Two bytes and two zeros, and one byte. -/
theorem bootmain_loads_two : ∃ entry mem',
    bootmain lowLayout (biosRead twoSegments) partitioned = .ok (entry, mem') ∧
      Loaded mem' (kernelFile partitioned twoSegments) ⟨116, 0x80100000, 0x100000, 2, 4⟩ := by
  obtain ⟨hreach, hloaded⟩ := bootmain_loads (biosRead_delivers twoSegments) bootable_twoSegments
  obtain ⟨entry, mem', hrun⟩ := hreach (by decide +kernel)
  exact ⟨entry, mem', hrun, hloaded entry mem' hrun _ (by decide +kernel)⟩

end Aim
