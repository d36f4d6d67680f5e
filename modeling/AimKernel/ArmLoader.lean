/-
**The boot loader of the Raspberry Pi 2 loads the segments of the kernel.**

There is no disk: the image of the kernel lies in memory behind its length and its checksum, and
`kernreader_readfile` copies out of it.  Segments are copied to their physical addresses while the
image is still needed for the ones that follow.  `kernreader_readfile` refuses a destination that
starts in the image; how long it is, and where the zeros behind it are stored, it does not look at,
and neither at where in the image the bytes are to come from.

Main definitions:

* `Aim.Arm.crc32`, `Aim.Arm.kernreaderInit`, `Aim.Arm.kernreaderReadfile` — `kernreader.c`;
* `Aim.Arm.bootmain` — `bootmain.c`;
* `Aim.Arm.SegmentLoad`, `Aim.Arm.segmentLoads` — the rounds of its loop;
* `Aim.Arm.InImage`, `Aim.Arm.SegmentLoad.Reads`, `Aim.Arm.SegmentLoad.Writes` — what the rounds
  read and write;
* `Aim.Arm.LoadsChecked` — all that they load are bytes that were checked;
* `Aim.Arm.TableKept`, `Aim.Arm.TableSound` — a header table that is left alone, and one whose
  segments keep out of each other's bytes.

Main results:

* `Aim.Arm.bootmain_eq`, `Aim.Arm.bootmain_reaches_iff` — a run that reaches the kernel is made of
  its rounds, and when there is one;
* `Aim.Arm.loads_checked` — bytes that are kept for later rounds are those of the start;
* `Aim.Arm.loads_follow` — the rounds find the headers of a table that is left alone;
* `Aim.Arm.segments_checked` — **when the segments are loaded from the bytes that were checked.**
-/

import AimKernel.BootLoader

set_option relaxedAutoImplicit false
set_option autoImplicit false

namespace Aim.Arm

open ByteMemory

/-! ### The checksum -/

/-- `crc32_tab`. -/
def crc32Tab : List (BitVec 32) :=
  [0x00000000, 0x77073096, 0xee0e612c, 0x990951ba, 0x076dc419, 0x706af48f, 0xe963a535, 0x9e6495a3,
    0x0edb8832, 0x79dcb8a4, 0xe0d5e91e, 0x97d2d988, 0x09b64c2b, 0x7eb17cbd, 0xe7b82d07, 0x90bf1d91,
    0x1db71064, 0x6ab020f2, 0xf3b97148, 0x84be41de, 0x1adad47d, 0x6ddde4eb, 0xf4d4b551, 0x83d385c7,
    0x136c9856, 0x646ba8c0, 0xfd62f97a, 0x8a65c9ec, 0x14015c4f, 0x63066cd9, 0xfa0f3d63, 0x8d080df5,
    0x3b6e20c8, 0x4c69105e, 0xd56041e4, 0xa2677172, 0x3c03e4d1, 0x4b04d447, 0xd20d85fd, 0xa50ab56b,
    0x35b5a8fa, 0x42b2986c, 0xdbbbc9d6, 0xacbcf940, 0x32d86ce3, 0x45df5c75, 0xdcd60dcf, 0xabd13d59,
    0x26d930ac, 0x51de003a, 0xc8d75180, 0xbfd06116, 0x21b4f4b5, 0x56b3c423, 0xcfba9599, 0xb8bda50f,
    0x2802b89e, 0x5f058808, 0xc60cd9b2, 0xb10be924, 0x2f6f7c87, 0x58684c11, 0xc1611dab, 0xb6662d3d,
    0x76dc4190, 0x01db7106, 0x98d220bc, 0xefd5102a, 0x71b18589, 0x06b6b51f, 0x9fbfe4a5, 0xe8b8d433,
    0x7807c9a2, 0x0f00f934, 0x9609a88e, 0xe10e9818, 0x7f6a0dbb, 0x086d3d2d, 0x91646c97, 0xe6635c01,
    0x6b6b51f4, 0x1c6c6162, 0x856530d8, 0xf262004e, 0x6c0695ed, 0x1b01a57b, 0x8208f4c1, 0xf50fc457,
    0x65b0d9c6, 0x12b7e950, 0x8bbeb8ea, 0xfcb9887c, 0x62dd1ddf, 0x15da2d49, 0x8cd37cf3, 0xfbd44c65,
    0x4db26158, 0x3ab551ce, 0xa3bc0074, 0xd4bb30e2, 0x4adfa541, 0x3dd895d7, 0xa4d1c46d, 0xd3d6f4fb,
    0x4369e96a, 0x346ed9fc, 0xad678846, 0xda60b8d0, 0x44042d73, 0x33031de5, 0xaa0a4c5f, 0xdd0d7cc9,
    0x5005713c, 0x270241aa, 0xbe0b1010, 0xc90c2086, 0x5768b525, 0x206f85b3, 0xb966d409, 0xce61e49f,
    0x5edef90e, 0x29d9c998, 0xb0d09822, 0xc7d7a8b4, 0x59b33d17, 0x2eb40d81, 0xb7bd5c3b, 0xc0ba6cad,
    0xedb88320, 0x9abfb3b6, 0x03b6e20c, 0x74b1d29a, 0xead54739, 0x9dd277af, 0x04db2615, 0x73dc1683,
    0xe3630b12, 0x94643b84, 0x0d6d6a3e, 0x7a6a5aa8, 0xe40ecf0b, 0x9309ff9d, 0x0a00ae27, 0x7d079eb1,
    0xf00f9344, 0x8708a3d2, 0x1e01f268, 0x6906c2fe, 0xf762575d, 0x806567cb, 0x196c3671, 0x6e6b06e7,
    0xfed41b76, 0x89d32be0, 0x10da7a5a, 0x67dd4acc, 0xf9b9df6f, 0x8ebeeff9, 0x17b7be43, 0x60b08ed5,
    0xd6d6a3e8, 0xa1d1937e, 0x38d8c2c4, 0x4fdff252, 0xd1bb67f1, 0xa6bc5767, 0x3fb506dd, 0x48b2364b,
    0xd80d2bda, 0xaf0a1b4c, 0x36034af6, 0x41047a60, 0xdf60efc3, 0xa867df55, 0x316e8eef, 0x4669be79,
    0xcb61b38c, 0xbc66831a, 0x256fd2a0, 0x5268e236, 0xcc0c7795, 0xbb0b4703, 0x220216b9, 0x5505262f,
    0xc5ba3bbe, 0xb2bd0b28, 0x2bb45a92, 0x5cb36a04, 0xc2d7ffa7, 0xb5d0cf31, 0x2cd99e8b, 0x5bdeae1d,
    0x9b64c2b0, 0xec63f226, 0x756aa39c, 0x026d930a, 0x9c0906a9, 0xeb0e363f, 0x72076785, 0x05005713,
    0x95bf4a82, 0xe2b87a14, 0x7bb12bae, 0x0cb61b38, 0x92d28e9b, 0xe5d5be0d, 0x7cdcefb7, 0x0bdbdf21,
    0x86d3d2d4, 0xf1d4e242, 0x68ddb3f8, 0x1fda836e, 0x81be16cd, 0xf6b9265b, 0x6fb077e1, 0x18b74777,
    0x88085ae6, 0xff0f6a70, 0x66063bca, 0x11010b5c, 0x8f659eff, 0xf862ae69, 0x616bffd3, 0x166ccf45,
    0xa00ae278, 0xd70dd2ee, 0x4e048354, 0x3903b3c2, 0xa7672661, 0xd06016f7, 0x4969474d, 0x3e6e77db,
    0xaed16a4a, 0xd9d65adc, 0x40df0b66, 0x37d83bf0, 0xa9bcae53, 0xdebb9ec5, 0x47b2cf7f, 0x30b5ffe9,
    0xbdbdf21c, 0xcabac28a, 0x53b39330, 0x24b4a3a6, 0xbad03605, 0xcdd70693, 0x54de5729, 0x23d967bf,
    0xb3667a2e, 0xc4614ab8, 0x5d681b02, 0x2a6f2b94, 0xb40bbe37, 0xc30c8ea1, 0x5a05df1b, 0x2d02ef8d]

/-- One byte of `crc32`. -/
def crc32Byte (crc : BitVec 32) (b : BitVec 8) : BitVec 32 :=
  crc32Tab.getD ((crc ^^^ b.setWidth 32) &&& 0xFF).toNat 0 ^^^ (crc >>> 8)

/-- `crc32(crc, buf, size)`. -/
def crc32 (crc : BitVec 32) (mem : BootMemory) (buf size : ℕ) : BitVec 32 :=
  (List.range size).foldl (fun crc i => crc32Byte crc (mem (byteAddr buf i)))
    (crc ^^^ 0xFFFFFFFF) ^^^ 0xFFFFFFFF

/-! ### `kernreader.c` -/

/-- `ELF_INFO_START`. -/
def elfInfoStart : ℕ := 0x18000

/-- `ELF_START`, where `elf_data` points. -/
def elfStart : ℕ := 0x20000

/-- `elf_info->elf_len`. -/
def elfLen (mem : BootMemory) : ℕ := word32 mem elfInfoStart

/-- `elf_info->elf_crc32`. -/
def elfCrc32 (mem : BootMemory) : ℕ := word32 mem (elfInfoStart + 4)

/-- `kernreader_init()`. -/
def kernreaderInit (mem : BootMemory) : Outcome Unit :=
  if elfLen mem = 0 then
    .error (.panic "ELF has no length!")
  else if (crc32 0 mem elfStart (elfLen mem)).toNat ≠ elfCrc32 mem then
    .error (.panic "BAD, current %x, expected %x.")
  else
    .ok ()

/-- `kernreader_readfile(buf, size, offset)`. -/
def kernreaderReadfile (mem : BootMemory) (buf size offset : ℕ) : Outcome BootMemory :=
  -- "not a robust detection"
  if elfStart ≤ buf ∧ buf < wrap32 (elfStart + elfLen mem) then
    .error (.panic "overlap detected! buf=%p size=%x offset=%x")
  else
    .ok (bmemcpy mem buf (wrap32 (elfStart + offset)) size)

/-! ### `bootmain.c` -/

/-- Where the linker put the boot loader: below its stack, and this below the image. -/
structure BootLayout where
  elfbuf : ℕ
  bprintf : ℕ
  elfbuf_fits : elfbuf + 4096 ≤ elfInfoStart

/-- "Load": the bytes from the file, and zeros behind them. -/
def loadSegment (mem : BootMemory) (ph : ℕ) : Outcome BootMemory := do
  let pa := (phdrAt mem ph).pPaddr
  let mem ← kernreaderReadfile mem pa (phdrAt mem ph).pFilesz (phdrAt mem ph).pOffset
  if (phdrAt mem ph).pMemsz > (phdrAt mem ph).pFilesz then
    return bmemset mem (wrap32 (pa + (phdrAt mem ph).pFilesz)) 0
      (sub32 (phdrAt mem ph).pMemsz (phdrAt mem ph).pFilesz)
  else
    return mem

/-- The loop of `bootmain` over the program headers. -/
def loadSegments : ℕ → BootMemory → ℕ → ℕ → ℕ → Outcome (ℕ × BootMemory)
  | 0, _, _, _, _ => .error .hang
  | fuel + 1, mem, ph, eph, entry =>
      if ph < eph then do
        let mem ← loadSegment mem ph
        loadSegments fuel mem (wrap32 (ph + sizeofPhdr)) eph (adjustEntry entry (phdrAt mem ph))
      else
        .ok (entry, mem)

/-- `*((void **) 0x18000) = bprintf`. -/
def storeBprintf (L : BootLayout) (mem : BootMemory) : BootMemory :=
  store mem (byteAddr 0x18000) (fun i => BitVec.ofNat 8 (L.bprintf / 2 ^ (8 * i))) 4

/-- `bootmain()`, from the ELF loader on: the address it jumps to, and memory at the jump.  What is
printed is left out. -/
def bootmain (L : BootLayout) (mem : BootMemory) : Outcome (ℕ × BootMemory) := do
  kernreaderInit mem
  let mem ← kernreaderReadfile mem L.elfbuf 4096 0
  if elfMagic mem L.elfbuf then
    let ph := wrap32 (L.elfbuf + ePhoff mem L.elfbuf)
    let phnum := ePhnum mem L.elfbuf
    let eph := wrap32 (ph + sizeofPhdr * phnum)
    if phnum = 0 then
      .error (.panic "no program headers in ELF file!")
    else
      let loaded ← loadSegments (phnum + 1) mem ph eph (eEntry mem L.elfbuf)
      return (loaded.1, storeBprintf L loaded.2)
  else
    .error (.panic "ELF magic mismatch!")

/-! ### Rounds -/

/-- A round of the loop of `bootmain`: memory before it, and the address of its header. -/
structure SegmentLoad where
  mem : BootMemory
  ph : ℕ

namespace SegmentLoad

variable (s : SegmentLoad)

/-- The header. -/
def header : ElfPhdr := phdrAt s.mem s.ph

/-- The destination starts outside of the image, as far as its length can be read. -/
def Passes : Prop :=
  ¬ (elfStart ≤ s.header.pPaddr ∧ s.header.pPaddr < wrap32 (elfStart + elfLen s.mem))

/-- Byte `i` of the segment in the image. -/
def source (i : ℕ) : ℕ := byteAddr (wrap32 (elfStart + s.header.pOffset)) i

/-- Memory behind the copy. -/
def copied : BootMemory :=
  bmemcpy s.mem s.header.pPaddr (wrap32 (elfStart + s.header.pOffset)) s.header.pFilesz

/-- The header, when it is read again. -/
def reread : ElfPhdr := phdrAt s.copied s.ph

/-- Byte `i` of the zeros. -/
def zero (i : ℕ) : ℕ := byteAddr (wrap32 (s.header.pPaddr + s.reread.pFilesz)) i

/-- Memory behind the round. -/
def filled : BootMemory :=
  if s.reread.pMemsz > s.reread.pFilesz then
    bmemset s.copied (wrap32 (s.header.pPaddr + s.reread.pFilesz)) 0
      (sub32 s.reread.pMemsz s.reread.pFilesz)
  else
    s.copied

/-- The copy reads this byte. -/
def Reads (a : ℕ) : Prop := ∃ i < s.header.pFilesz, a = s.source i

/-- The copy or the zeros go to this byte. -/
def Writes (a : ℕ) : Prop :=
  (∃ i < s.header.pFilesz, a = byteAddr s.header.pPaddr i) ∨
    s.reread.pMemsz > s.reread.pFilesz ∧
      ∃ i < sub32 s.reread.pMemsz s.reread.pFilesz, a = s.zero i

/-- The round has changed this byte neither by the copy nor by the zeros. -/
def Keeps (a : ℕ) : Prop := s.copied a = s.mem a ∧ s.filled a = s.copied a

theorem keeps_of_not_writes {s : SegmentLoad} {a : ℕ} (h : ¬ s.Writes a) : s.Keeps a := by
  constructor
  · exact copy_of_ne fun i hi heq => h (Or.inl ⟨i, hi, heq⟩)
  · rw [filled]
    by_cases hmore : s.reread.pMemsz > s.reread.pFilesz
    · rw [if_pos hmore]
      exact store_of_ne fun i hi heq => h (Or.inr ⟨hmore, i, hi, heq⟩)
    · rw [if_neg hmore]

/-- **A round ends with what it has filled in, or it panics.** -/
theorem loadSegment_eq (mem : BootMemory) (ph : ℕ) :
    (¬ Passes ⟨mem, ph⟩ ∧ ∃ fault, loadSegment mem ph = .error fault) ∨
      Passes ⟨mem, ph⟩ ∧ loadSegment mem ph = .ok (filled ⟨mem, ph⟩) := by
  rw [loadSegment, kernreaderReadfile]
  by_cases hstart : elfStart ≤ (phdrAt mem ph).pPaddr ∧
      (phdrAt mem ph).pPaddr < wrap32 (elfStart + elfLen mem)
  · refine Or.inl ⟨not_not.mpr hstart, .panic "overlap detected! buf=%p size=%x offset=%x", ?_⟩
    rw [if_pos hstart, error_bind]
  · refine Or.inr ⟨hstart, ?_⟩
    rw [if_neg hstart, ok_bind, filled]
    exact (apply_ite Except.ok _ _ _).symm

theorem loadSegment_of_passes {mem : BootMemory} {ph : ℕ} (h : Passes ⟨mem, ph⟩) :
    loadSegment mem ph = .ok (filled ⟨mem, ph⟩) := by
  rcases loadSegment_eq mem ph with ⟨hpass, -⟩ | ⟨-, hload⟩
  · exact absurd h hpass
  · exact hload

end SegmentLoad

/-- The rounds of the loop. -/
def loads : ℕ → BootMemory → ℕ → ℕ → List SegmentLoad
  | 0, _, _, _ => []
  | fuel + 1, mem, ph, eph =>
      if ph < eph then
        ⟨mem, ph⟩ :: loads fuel (SegmentLoad.filled ⟨mem, ph⟩) (wrap32 (ph + sizeofPhdr)) eph
      else
        []

/-- Memory behind all rounds. -/
def afterLoads (mem : BootMemory) (ss : List SegmentLoad) : BootMemory :=
  ss.foldl (fun _ s => s.filled) mem

/-- **A loop that ends is made of its rounds.** -/
theorem loadSegments_eq (fuel : ℕ) :
    ∀ {mem mem' : BootMemory} {ph eph entry entry' : ℕ},
      loadSegments fuel mem ph eph entry = .ok (entry', mem') →
        (∀ s ∈ loads fuel mem ph eph, s.Passes) ∧
          mem' = afterLoads mem (loads fuel mem ph eph) := by
  induction fuel with
  | zero =>
      intro mem mem' ph eph entry entry' hrun
      cases hrun
  | succ fuel ih =>
      intro mem mem' ph eph entry entry' hrun
      rw [loadSegments] at hrun
      rw [loads]
      by_cases hmore : ph < eph
      · rw [if_pos hmore] at hrun ⊢
        rcases SegmentLoad.loadSegment_eq mem ph with ⟨-, fault, hfault⟩ | ⟨hpass, hload⟩
        · rw [hfault] at hrun
          cases hrun
        · rw [hload] at hrun
          obtain ⟨hpasses, hmem⟩ := ih hrun
          exact ⟨List.forall_mem_cons.mpr ⟨hpass, hpasses⟩, hmem⟩
      · rw [if_neg hmore] at hrun ⊢
        cases hrun
        exact ⟨fun s hs => absurd hs List.not_mem_nil, rfl⟩

/-- The loop ends behind the last header, when no round panics. -/
theorem loadSegments_of_passes (fuel : ℕ) :
    ∀ (mem : BootMemory) (ph eph entry : ℕ), eph = ph + sizeofPhdr * fuel ∨ eph ≤ ph →
      eph < 2 ^ 32 → (∀ s ∈ loads (fuel + 1) mem ph eph, s.Passes) →
        ∃ r, loadSegments (fuel + 1) mem ph eph entry = .ok r := by
  have hsize : sizeofPhdr = 32 := rfl
  induction fuel with
  | zero =>
      intro mem ph eph entry hend _ _
      exact ⟨(entry, mem), if_neg (by omega)⟩
  | succ fuel ih =>
      intro mem ph eph entry hend hlt hpasses
      rw [Nat.mul_succ] at hend
      rw [loads] at hpasses
      rw [loadSegments]
      by_cases hmore : ph < eph
      · have hnext : wrap32 (ph + sizeofPhdr) = ph + sizeofPhdr := wrap32_of_lt (by omega)
        rw [if_pos hmore, List.forall_mem_cons, hnext] at hpasses
        rw [if_pos hmore, SegmentLoad.loadSegment_of_passes hpasses.1, ok_bind, hnext]
        exact ih _ _ _ _ (by omega) hlt hpasses.2
      · exact ⟨(entry, mem), if_neg hmore⟩

/-! ### Runs -/

/-- Memory with the start of the image in `elfbuf`. -/
def preloaded (L : BootLayout) (mem : BootMemory) : BootMemory :=
  bmemcpy mem L.elfbuf (wrap32 (elfStart + 0)) 4096

/-- The rounds of `bootmain`. -/
def segmentLoads (L : BootLayout) (mem : BootMemory) : List SegmentLoad :=
  let ph := wrap32 (L.elfbuf + ePhoff (preloaded L mem) L.elfbuf)
  let phnum := ePhnum (preloaded L mem) L.elfbuf
  loads (phnum + 1) (preloaded L mem) ph (wrap32 (ph + sizeofPhdr * phnum))

/-- `elfbuf` is not in the image. -/
theorem kernreaderReadfile_elfbuf (L : BootLayout) (mem : BootMemory) :
    kernreaderReadfile mem L.elfbuf 4096 0 = .ok (preloaded L mem) := by
  have hfits := L.elfbuf_fits
  have hinfo : elfInfoStart = 0x18000 := rfl
  have hstart : elfStart = 0x20000 := rfl
  exact if_neg (by omega)

/-- The start of the image is copied, and other memory is kept. -/
theorem preloaded_spec (L : BootLayout) (mem : BootMemory) :
    (∀ i < 4096, preloaded L mem (L.elfbuf + i) = mem (elfStart + i)) ∧
      ∀ a, (a < L.elfbuf ∨ L.elfbuf + 4096 ≤ a) → preloaded L mem a = mem a := by
  have hfits := L.elfbuf_fits
  have hinfo : elfInfoStart = 0x18000 := rfl
  have hstart : elfStart = 0x20000 := rfl
  have hsrc : wrap32 (elfStart + 0) = elfStart := by decide
  rw [preloaded, hsrc]
  exact bmemcpy_spec mem (by omega) (by decide) (by omega)

/-- **A run that reaches the kernel is made of its rounds.** -/
theorem bootmain_eq {L : BootLayout} {mem mem' : BootMemory} {entry : ℕ}
    (hrun : bootmain L mem = .ok (entry, mem')) :
    (∀ s ∈ segmentLoads L mem, s.Passes) ∧
      mem' = storeBprintf L (afterLoads (preloaded L mem) (segmentLoads L mem)) := by
  rw [bootmain] at hrun
  obtain ⟨-, -, hrun⟩ := bind_eq_ok.mp hrun
  rw [kernreaderReadfile_elfbuf, ok_bind] at hrun
  by_cases hmagic : elfMagic (preloaded L mem) L.elfbuf = true
  · by_cases hnum : ePhnum (preloaded L mem) L.elfbuf = 0
    · rw [if_pos hmagic, if_pos hnum] at hrun
      cases hrun
    · rw [if_pos hmagic, if_neg hnum] at hrun
      obtain ⟨loaded, hloaded, hrun⟩ := bind_eq_ok.mp hrun
      obtain ⟨hpasses, hmem⟩ := loadSegments_eq _ hloaded
      refine ⟨hpasses, ?_⟩
      rw [← (Prod.mk.inj (Except.ok.inj hrun)).2, hmem]
      rfl
  · rw [if_neg hmagic] at hrun
    cases hrun

/-- **When `bootmain` reaches the kernel.** -/
theorem bootmain_reaches_iff (L : BootLayout) (mem : BootMemory) :
    (∃ r, bootmain L mem = .ok r) ↔
      kernreaderInit mem = .ok () ∧ elfMagic (preloaded L mem) L.elfbuf = true ∧
        ePhnum (preloaded L mem) L.elfbuf ≠ 0 ∧ ∀ s ∈ segmentLoads L mem, s.Passes := by
  constructor
  · rintro ⟨⟨entry, mem'⟩, hrun⟩
    obtain ⟨hpasses, -⟩ := bootmain_eq hrun
    rw [bootmain] at hrun
    obtain ⟨u, hinit, hrun⟩ := bind_eq_ok.mp hrun
    rw [kernreaderReadfile_elfbuf, ok_bind] at hrun
    refine ⟨hinit, ?_, ?_, hpasses⟩
    · by_contra hmagic
      rw [if_neg hmagic] at hrun
      cases hrun
    · intro hnum
      rw [if_pos hnum] at hrun
      split at hrun
      · cases hrun
      · cases hrun
  · rintro ⟨hinit, hmagic, hnum, hpasses⟩
    have hlt : ePhnum (preloaded L mem) L.elfbuf < 2 ^ 17 := by
      rw [ePhnum, word16]
      omega
    have hend : ∀ ph, ∀ phnum < 2 ^ 17,
        wrap32 (ph + sizeofPhdr * phnum) = ph + sizeofPhdr * phnum ∨
          wrap32 (ph + sizeofPhdr * phnum) ≤ ph := by
      intro ph phnum hlt
      rw [wrap32, sizeofPhdr]
      omega
    obtain ⟨r, hload⟩ := loadSegments_of_passes _ (preloaded L mem)
      (wrap32 (L.elfbuf + ePhoff (preloaded L mem) L.elfbuf)) _
      (eEntry (preloaded L mem) L.elfbuf) (hend _ _ hlt) (Nat.mod_lt _ (by decide)) hpasses
    refine ⟨(r.1, storeBprintf L r.2), ?_⟩
    rw [bootmain, hinit, ok_bind, kernreaderReadfile_elfbuf, ok_bind, if_pos hmagic]
    simp only [if_neg hnum, hload, ok_bind]
    rfl

/-! ### What is read -/

/-- The bytes of the image. -/
def InImage (len a : ℕ) : Prop := elfStart ≤ a ∧ a < elfStart + len

/-- **Bytes that all earlier rounds keep are read as they were before the loop.** -/
theorem loads_checked {P : ℕ → Prop} (fuel : ℕ) :
    ∀ {mem : BootMemory} {ph eph : ℕ},
      (loads fuel mem ph eph).Pairwise (fun s t => ∀ a, P a → t.Reads a → s.Keeps a) →
        ∀ t ∈ loads fuel mem ph eph, ∀ a, P a → t.Reads a → t.mem a = mem a := by
  induction fuel with
  | zero =>
      intro mem ph eph _ t ht
      exact absurd ht List.not_mem_nil
  | succ fuel ih =>
      intro mem ph eph hkeeps t ht a ha hread
      rw [loads] at hkeeps ht
      by_cases hmore : ph < eph
      · rw [if_pos hmore, List.pairwise_cons] at hkeeps
        rw [if_pos hmore, List.mem_cons] at ht
        rcases ht with rfl | ht
        · rfl
        · obtain ⟨hcopied, hfilled⟩ := hkeeps.1 t ht a ha hread
          rw [ih hkeeps.2 t ht a ha hread, hfilled, hcopied]
      · rw [if_neg hmore] at ht
        exact absurd ht List.not_mem_nil

/-! ### The header table -/

/-- The `m` addresses from `b` on are not among the `n` addresses from `p` on, which may wrap. -/
def RangesApart (p n b m : ℕ) : Prop :=
  n = 0 ∨ m = 0 ∨ p + n ≤ b ∨ b + m ≤ p ∧ p + n ≤ b + 2 ^ 32

instance (p n b m : ℕ) : Decidable (RangesApart p n b m) :=
  inferInstanceAs (Decidable (n = 0 ∨ m = 0 ∨ p + n ≤ b ∨ b + m ≤ p ∧ p + n ≤ b + 2 ^ 32))

theorem RangesApart.ne {p n b m : ℕ} (h : RangesApart p n b m) (hp : p < 2 ^ 32) {i j : ℕ}
    (hi : i < n) (hj : j < m) : b + j ≠ byteAddr p i := by
  rw [byteAddr, wrap32]
  rcases h with h | h | h | ⟨hlow, hhigh⟩ <;> omega

/-- Ranges that are not apart have an address in common. -/
theorem rangesApart_of_ne {p n b m : ℕ} (hp : p < 2 ^ 32) (hb : b + m ≤ 2 ^ 32)
    (h : ∀ i < n, ∀ j < m, b + j ≠ byteAddr p i) : RangesApart p n b m := by
  by_contra hmeet
  rw [RangesApart] at hmeet
  push Not at hmeet
  obtain ⟨hn, hm, hlow, hhigh⟩ := hmeet
  by_cases hge : b + m ≤ p
  · -- the first one wraps, and ends behind `b`
    have hend := hhigh hge
    refine h (b + 2 ^ 32 - p) (by omega) 0 (by omega) ?_
    rw [byteAddr, wrap32]
    omega
  · by_cases hle : b ≤ p
    · refine h 0 (by omega) (p - b) (by omega) ?_
      rw [byteAddr, wrap32]
      omega
    · refine h (b - p) (by omega) 0 (by omega) ?_
      rw [byteAddr, wrap32]
      omega

/-- How many bytes are stored for a segment: those of the file, and zeros. -/
def storedSize (h : ElfPhdr) : ℕ := max h.pFilesz h.pMemsz

/-- Where the loop of `bootmain` finds program headers. -/
def headerAddrs : ℕ → ℕ → ℕ → List ℕ
  | 0, _, _ => []
  | fuel + 1, ph, eph =>
      if ph < eph then ph :: headerAddrs fuel (wrap32 (ph + sizeofPhdr)) eph else []

/-- No segment is stored over its own header or one that follows, or over the length of the image,
and the image ends below the end of memory. -/
structure TableKept (mem : BootMemory) (as : List ℕ) : Prop where
  own : ∀ a ∈ as,
    RangesApart (phdrAt mem a).pPaddr (storedSize (phdrAt mem a)) a sizeofPhdr
  following : as.Pairwise fun a b =>
    RangesApart (phdrAt mem a).pPaddr (storedSize (phdrAt mem a)) b sizeofPhdr
  length : ∀ a ∈ as,
    RangesApart (phdrAt mem a).pPaddr (storedSize (phdrAt mem a)) elfInfoStart 4
  fits : elfStart + elfLen mem < 2 ^ 32

/-- The bytes of each segment are bytes of the image, and no segment is stored over the bytes of one
that follows. -/
structure TableSound (mem : BootMemory) (as : List ℕ) : Prop where
  within : ∀ a ∈ as,
    (phdrAt mem a).pFilesz = 0 ∨ (phdrAt mem a).pOffset + (phdrAt mem a).pFilesz ≤ elfLen mem
  apart : as.Pairwise fun a b =>
    RangesApart (phdrAt mem a).pPaddr (storedSize (phdrAt mem a))
      (elfStart + (phdrAt mem b).pOffset) (phdrAt mem b).pFilesz

theorem headers_lt (mem : BootMemory) (a : ℕ) : (phdrAt mem a).pOffset < 2 ^ 32 ∧
    (phdrAt mem a).pPaddr < 2 ^ 32 ∧ (phdrAt mem a).pFilesz < 2 ^ 32 ∧
    (phdrAt mem a).pMemsz < 2 ^ 32 :=
  ⟨word32_lt _ _, word32_lt _ _, word32_lt _ _, word32_lt _ _⟩

namespace SegmentLoad

variable {s t : SegmentLoad} {m : BootMemory}

/-- The round finds the header of the table, before and behind its copy, and the length of the
image. -/
structure Follows (s : SegmentLoad) (m : BootMemory) : Prop where
  header : s.header = phdrAt m s.ph
  reread : s.reread = s.header
  length : elfLen s.mem = elfLen m

/-- The copy and the zeros are one range. -/
theorem Follows.writes_iff (h : s.Follows m) {a : ℕ} :
    s.Writes a ↔ ∃ i < storedSize s.header, a = byteAddr s.header.pPaddr i := by
  obtain ⟨-, hpa, hfile, hmem⟩ := headers_lt s.mem s.ph
  change s.header.pFilesz < 2 ^ 32 at hfile
  change s.header.pMemsz < 2 ^ 32 at hmem
  have hzero : ∀ i, s.zero i = byteAddr s.header.pPaddr (s.header.pFilesz + i) := by
    intro i
    rw [zero, h.reread, byteAddr, byteAddr, wrap32, wrap32, wrap32]
    omega
  rw [Writes, h.reread, storedSize]
  constructor
  · rintro (⟨i, hi, rfl⟩ | ⟨hmore, i, hi, rfl⟩)
    · exact ⟨i, by omega, rfl⟩
    · rw [sub32_of_le hmore.le hmem] at hi
      exact ⟨s.header.pFilesz + i, by omega, hzero i⟩
  · rintro ⟨i, hi, rfl⟩
    by_cases hlt : i < s.header.pFilesz
    · exact Or.inl ⟨i, hlt, rfl⟩
    · refine Or.inr ⟨by omega, i - s.header.pFilesz, ?_, ?_⟩
      · rw [sub32_of_le (by omega) hmem]
        omega
      · rw [hzero, Nat.add_sub_cancel' (by omega)]

/-- A header that the copy leaves alone is read again as it was. -/
theorem reread_eq (h : RangesApart s.header.pPaddr (storedSize s.header) s.ph sizeofPhdr) :
    s.reread = s.header := by
  obtain ⟨-, hpa, -, -⟩ := headers_lt s.mem s.ph
  refine phdrAt_congr fun j hj => copy_of_ne fun i hi => h.ne hpa ?_ hj
  exact hi.trans_le (le_max_left _ _)

/-- Other ranges are kept. -/
theorem Follows.filled_apart (h : s.Follows m) {b n : ℕ}
    (hapart : RangesApart s.header.pPaddr (storedSize s.header) b n) :
    ∀ j < n, s.filled (b + j) = s.mem (b + j) := by
  intro j hj
  obtain ⟨-, hpa, -, -⟩ := headers_lt s.mem s.ph
  have hkeep : s.Keeps (b + j) := by
    refine keeps_of_not_writes fun hwrites => ?_
    obtain ⟨i, hi, heq⟩ := h.writes_iff.mp hwrites
    exact hapart.ne hpa hi hj heq
  rw [hkeep.2, hkeep.1]

/-- **What a round copies it still has to read**: as it may not start in the image, it does not
overtake itself. -/
theorem copied_apply (hlen : elfStart + elfLen s.mem < 2 ^ 32) (hpass : s.Passes)
    (hwithin : s.header.pOffset + s.header.pFilesz ≤ elfLen s.mem) {i : ℕ}
    (hi : i < s.header.pFilesz) :
    s.copied (byteAddr s.header.pPaddr i) = s.mem (s.source i) := by
  obtain ⟨-, hpa, hfile, -⟩ := headers_lt s.mem s.ph
  change s.header.pPaddr < 2 ^ 32 at hpa
  change s.header.pFilesz < 2 ^ 32 at hfile
  have hend : wrap32 (elfStart + elfLen s.mem) = elfStart + elfLen s.mem := wrap32_of_lt hlen
  rw [Passes, hend] at hpass
  have hahead : ∀ k < s.header.pFilesz, ∀ j < k,
      byteAddr (wrap32 (elfStart + s.header.pOffset)) k ≠ byteAddr s.header.pPaddr j := by
    intro k hk j hj
    rw [byteAddr, byteAddr, wrap32, wrap32, wrap32]
    omega
  have hinj : ∀ k < s.header.pFilesz, ∀ j < s.header.pFilesz,
      byteAddr s.header.pPaddr k = byteAddr s.header.pPaddr j → k = j :=
    fun k hk j hj => byteAddr_injective hfile.le hk hj
  rw [copied, bmemcpy, copy_eq_store hahead, store_apply hinj hi]
  rfl

theorem source_eq {len : ℕ} (hlen : elfStart + len < 2 ^ 32)
    (h : s.header.pOffset + s.header.pFilesz ≤ len) {i : ℕ} (hi : i < s.header.pFilesz) :
    s.source i = elfStart + s.header.pOffset + i := by
  rw [source, byteAddr, wrap32, wrap32]
  omega

/-- When all bytes of a segment are bytes of the image. -/
theorem inImage_source_iff {len : ℕ} (hlen : elfStart + len < 2 ^ 32) :
    (∀ i < s.header.pFilesz, InImage len (s.source i)) ↔
      s.header.pFilesz = 0 ∨ s.header.pOffset + s.header.pFilesz ≤ len := by
  obtain ⟨hoff, -, -, -⟩ := headers_lt s.mem s.ph
  change s.header.pOffset < 2 ^ 32 at hoff
  have hstart : elfStart = 0x20000 := rfl
  constructor
  · intro h
    by_contra hnot
    push Not at hnot
    obtain ⟨hpos, hpast⟩ := hnot
    obtain ⟨hge, hlt⟩ := h 0 (by omega)
    rw [source, byteAddr, wrap32, wrap32] at hge hlt
    -- the first byte behind the image is one of the segment
    obtain ⟨-, hlast⟩ := h (len - s.header.pOffset) (by omega)
    rw [source, byteAddr, wrap32, wrap32] at hlast
    omega
  · rintro h i hi
    have hwithin : s.header.pOffset + s.header.pFilesz ≤ len := by omega
    rw [source_eq hlen hwithin hi]
    exact ⟨by omega, by omega⟩

end SegmentLoad

/-! ### What was checked -/

/-- **The segments are loaded from the bytes that were checked**: no round stores to a byte of the
image that a later one copies, and every segment consists of bytes of the image as they were when
`bootmain` was called. -/
structure LoadsChecked (mem : BootMemory) (ss : List SegmentLoad) : Prop where
  untouched : ss.Pairwise fun s t =>
    ∀ a, InImage (elfLen mem) a → t.Reads a → ¬ s.Writes a
  loaded : ∀ t ∈ ss, ∀ i < t.header.pFilesz, InImage (elfLen mem) (t.source i) ∧
    t.copied (byteAddr t.header.pPaddr i) = mem (t.source i)

/-- Where the loop of `bootmain` finds its program headers. -/
def tableAddrs (L : BootLayout) (mem : BootMemory) : List ℕ :=
  let ph := wrap32 (L.elfbuf + ePhoff (preloaded L mem) L.elfbuf)
  let phnum := ePhnum (preloaded L mem) L.elfbuf
  headerAddrs (phnum + 1) ph (wrap32 (ph + sizeofPhdr * phnum))

theorem loads_map_ph (fuel : ℕ) : ∀ (mem : BootMemory) (ph eph : ℕ),
    (loads fuel mem ph eph).map SegmentLoad.ph = headerAddrs fuel ph eph := by
  induction fuel with
  | zero => exact fun _ _ _ => rfl
  | succ fuel ih =>
      intro mem ph eph
      rw [loads, headerAddrs]
      by_cases hmore : ph < eph
      · rw [if_pos hmore, if_pos hmore, List.map_cons, ih]
      · rw [if_neg hmore, if_neg hmore]
        rfl

/-- **The rounds follow a table that is left alone.** -/
theorem loads_follow {m : BootMemory} (fuel : ℕ) :
    ∀ {mem : BootMemory} {ph eph : ℕ}, TableKept m (headerAddrs fuel ph eph) →
      (∀ a ∈ headerAddrs fuel ph eph, phdrAt mem a = phdrAt m a) → elfLen mem = elfLen m →
        ∀ s ∈ loads fuel mem ph eph, s.Follows m := by
  induction fuel with
  | zero => exact fun _ _ _ s hs => absurd hs List.not_mem_nil
  | succ fuel ih =>
      intro mem ph eph hkept hheaders hlen s hs
      rw [loads] at hs
      by_cases hmore : ph < eph
      · rw [headerAddrs, if_pos hmore] at hkept hheaders
        rw [if_pos hmore] at hs
        obtain ⟨hown, hfollowing, hlength, hfits⟩ := hkept
        rw [List.forall_mem_cons] at hown hheaders hlength
        rw [List.pairwise_cons] at hfollowing
        have hheader : SegmentLoad.header ⟨mem, ph⟩ = phdrAt m ph := hheaders.1
        have hfirst : SegmentLoad.Follows ⟨mem, ph⟩ m :=
          ⟨hheader, SegmentLoad.reread_eq (hheader ▸ hown.1), hlen⟩
        rcases List.mem_cons.mp hs with rfl | hs
        · exact hfirst
        · refine ih ⟨hown.2, hfollowing.2, hlength.2, hfits⟩ (fun a ha => ?_) ?_ s hs
          · rw [← hheaders.2 a ha]
            exact phdrAt_congr (hfirst.filled_apart (hheader ▸ hfollowing.1 a ha))
          · rw [← hlen]
            exact word32_congr (hfirst.filled_apart (hheader ▸ hlength.1))
      · rw [if_neg hmore] at hs
        exact absurd hs List.not_mem_nil

/-- The length of the image is not in `elfbuf`. -/
theorem elfLen_preloaded (L : BootLayout) (mem : BootMemory) :
    elfLen (preloaded L mem) = elfLen mem := by
  have hfits := L.elfbuf_fits
  exact word32_congr fun i _ => (preloaded_spec L mem).2 _ (Or.inr (by omega))

theorem segmentLoads_follow {L : BootLayout} {mem : BootMemory}
    (hkept : TableKept (preloaded L mem) (tableAddrs L mem)) :
    ∀ s ∈ segmentLoads L mem, s.Follows (preloaded L mem) :=
  loads_follow _ hkept (fun _ _ => rfl) rfl

theorem tableAddrs_eq (L : BootLayout) (mem : BootMemory) :
    tableAddrs L mem = (segmentLoads L mem).map SegmentLoad.ph :=
  (loads_map_ph _ _ _ _).symm

/-- Segments of a sound table are loaded from the bytes that were checked. -/
theorem loadsChecked_of_sound {L : BootLayout} {mem : BootMemory}
    (hpasses : ∀ s ∈ segmentLoads L mem, s.Passes)
    (hkept : TableKept (preloaded L mem) (tableAddrs L mem))
    (hsound : TableSound (preloaded L mem) (tableAddrs L mem)) :
    LoadsChecked mem (segmentLoads L mem) := by
  have hfollow := segmentLoads_follow hkept
  obtain ⟨hwithin, hapart⟩ := hsound
  obtain ⟨-, -, -, hfits⟩ := hkept
  have hlen := elfLen_preloaded L mem
  rw [hlen] at hfits hwithin
  rw [tableAddrs_eq, List.forall_mem_map] at hwithin
  rw [tableAddrs_eq, List.pairwise_map] at hapart
  have hin : ∀ t ∈ segmentLoads L mem,
      t.header.pFilesz = 0 ∨ t.header.pOffset + t.header.pFilesz ≤ elfLen mem := by
    intro t ht
    rw [(hfollow t ht).header]
    exact hwithin t ht
  have huntouched : (segmentLoads L mem).Pairwise fun s t =>
      ∀ a, InImage (elfLen mem) a → t.Reads a → ¬ s.Writes a := by
    refine hapart.imp_of_mem fun {s t} hs ht hranges a _ hreads hwrites => ?_
    obtain ⟨i, hi, rfl⟩ := hreads
    obtain ⟨k, hk, heq⟩ := (hfollow s hs).writes_iff.mp hwrites
    rw [SegmentLoad.source_eq hfits (by have := hin t ht; omega) hi] at heq
    rw [← (hfollow s hs).header, ← (hfollow t ht).header] at hranges
    exact hranges.ne (headers_lt s.mem s.ph).2.1 hk hi heq
  refine ⟨huntouched, fun t ht i hi => ?_⟩
  have himage := (SegmentLoad.inImage_source_iff hfits).mpr (hin t ht) i hi
  refine ⟨himage, ?_⟩
  have hkeeps : (segmentLoads L mem).Pairwise fun s t =>
      ∀ a, InImage (elfLen mem) a → t.Reads a → s.Keeps a :=
    huntouched.imp fun h a ha hread => SegmentLoad.keeps_of_not_writes (h a ha hread)
  have hlen' : elfLen t.mem = elfLen mem := (hfollow t ht).length.trans hlen
  have hfirst : preloaded L mem (t.source i) = mem (t.source i) := by
    have hbuf := L.elfbuf_fits
    have hinfo : elfInfoStart = 0x18000 := rfl
    have hstart : elfStart = 0x20000 := rfl
    refine (preloaded_spec L mem).2 _ (Or.inr ?_)
    have hge := himage.1
    omega
  rw [SegmentLoad.copied_apply (by rw [hlen']; exact hfits) (hpasses t ht)
      (by rw [hlen']; have := hin t ht; omega) hi,
    loads_checked _ hkeeps t ht _ himage ⟨i, hi, rfl⟩, hfirst]

/-- A table whose segments are loaded from the bytes that were checked is sound. -/
theorem sound_of_loadsChecked {L : BootLayout} {mem : BootMemory}
    (hkept : TableKept (preloaded L mem) (tableAddrs L mem))
    (hchecked : LoadsChecked mem (segmentLoads L mem)) :
    TableSound (preloaded L mem) (tableAddrs L mem) := by
  have hfollow := segmentLoads_follow hkept
  obtain ⟨huntouched, hloaded⟩ := hchecked
  obtain ⟨-, -, -, hfits⟩ := hkept
  have hlen := elfLen_preloaded L mem
  rw [hlen] at hfits
  have hin : ∀ t ∈ segmentLoads L mem,
      t.header.pFilesz = 0 ∨ t.header.pOffset + t.header.pFilesz ≤ elfLen mem :=
    fun t ht => (SegmentLoad.inImage_source_iff hfits).mp fun i hi => (hloaded t ht i hi).1
  constructor
  · rw [tableAddrs_eq, List.forall_mem_map, hlen]
    intro t ht
    rw [← (hfollow t ht).header]
    exact hin t ht
  · rw [tableAddrs_eq, List.pairwise_map]
    refine huntouched.imp_of_mem fun {s t} hs ht h => ?_
    rw [← (hfollow s hs).header, ← (hfollow t ht).header]
    rcases hin t ht with hzero | hwithin
    · exact Or.inr (Or.inl hzero)
    · refine rangesApart_of_ne (headers_lt s.mem s.ph).2.1 (by omega) fun i hi j hj heq => ?_
      have himage := (hloaded t ht j hj).1
      refine h _ himage ⟨j, hj, rfl⟩ ((hfollow s hs).writes_iff.mpr ⟨i, hi, ?_⟩)
      rw [SegmentLoad.source_eq hfits hwithin hj, heq]

/-- The headers in `elfbuf`. -/
theorem preloaded_header (L : BootLayout) (mem : BootMemory) {k : ℕ}
    (hk : k + sizeofPhdr ≤ 4096) :
    phdrAt (preloaded L mem) (L.elfbuf + k) = phdrAt mem (elfStart + k) := by
  refine phdrAt_congr fun i hi => ?_
  rw [Nat.add_assoc, Nat.add_assoc]
  exact (preloaded_spec L mem).1 (k + i) (by omega)

/-- The rounds for a table of two headers behind the ELF header. -/
theorem segmentLoads_two {L : BootLayout} {mem : BootMemory}
    (hoff : ePhoff (fun i => mem (elfStart + i)) 0 = 52)
    (hnum : ePhnum (fun i => mem (elfStart + i)) 0 = 2) :
    segmentLoads L mem = [⟨preloaded L mem, L.elfbuf + 52⟩,
      ⟨SegmentLoad.filled ⟨preloaded L mem, L.elfbuf + 52⟩, L.elfbuf + 84⟩] := by
  have hfits := L.elfbuf_fits
  have hinfo : elfInfoStart = 0x18000 := rfl
  have hsize : sizeofPhdr = 32 := rfl
  obtain ⟨-, -, hoff', hnum'⟩ := elfHeader_congr (preloaded_spec L mem).1
  have hph : wrap32 (L.elfbuf + 52) = L.elfbuf + 52 := wrap32_of_lt (by omega)
  have heph : wrap32 (L.elfbuf + 52 + sizeofPhdr * 2) = L.elfbuf + 116 := wrap32_of_lt (by omega)
  have hnext : wrap32 (L.elfbuf + 52 + sizeofPhdr) = L.elfbuf + 84 := wrap32_of_lt (by omega)
  have hlast : wrap32 (L.elfbuf + 84 + sizeofPhdr) = L.elfbuf + 116 := wrap32_of_lt (by omega)
  rw [segmentLoads, hoff', hnum', hoff, hnum, hph, heph, loads, if_pos (by omega), hnext, loads,
    if_pos (by omega), hlast, loads, if_neg (by omega)]

/-- An image with its length and its checksum: a segment of two zeros at a given address, and the
first byte of the image at `0x100000`. -/
def twoSegmentImage (pa crc : List (BitVec 8)) : BootMemory := fun a =>
  if elfStart ≤ a then
    ([0x7f, 0x45, 0x4c, 0x46, 0, 0, 0, 0, 0, 0, 0, 0, 0, 0, 0, 0, 0, 0, 0, 0, 0, 0, 0, 0,
      -- `e_entry`, `e_phoff`, `e_phnum`
      0, 0, 0x10, 0x80, 52, 0, 0, 0, 0, 0, 0, 0, 0, 0, 0, 0, 0, 0, 0, 0, 2, 0, 0, 0, 0, 0, 0, 0,
      1, 0, 0, 0, 0, 0, 0, 0, 0, 0, 0x20, 0x80] ++ pa ++
      [0, 0, 0, 0, 2, 0, 0, 0, 7, 0, 0, 0, 0, 0, 0, 0,
      1, 0, 0, 0, 0, 0, 0, 0, 0, 0, 0x10, 0x80, 0, 0, 0x10, 0, 1, 0, 0, 0, 1, 0, 0, 0, 7, 0, 0, 0,
      0, 0, 0, 0]).getD (a - elfStart) 0
  else if elfInfoStart ≤ a then ([116, 0, 0, 0] ++ crc).getD (a - elfInfoStart) 0
  else 0

/-- A layout with `elfbuf` behind the text of the boot loader. -/
def lowLayout : BootLayout where
  elfbuf := 0x9000
  bprintf := 0x8100
  elfbuf_fits := by decide

/-- The zeros go to `0x200000`. -/
def apartImage : BootMemory := twoSegmentImage [0, 0, 0x20, 0] [0x5b, 0x24, 0x70, 0xcb]

/-- The zeros go to the last byte in front of the image, and to its first byte. -/
def crossingImage : BootMemory := twoSegmentImage [0xff, 0xff, 1, 0] [0x44, 0xfa, 0x4c, 0x48]

section Run

variable {mem : BootMemory} {pa : ℕ}

/-- The table of such an image. -/
theorem twoSegmentImage_table (hoff : ePhoff (fun i => mem (elfStart + i)) 0 = 52)
    (hnum : ePhnum (fun i => mem (elfStart + i)) 0 = 2) (hlen : elfLen mem = 116)
    (hfirst : phdrAt mem (elfStart + 52) = ⟨0, 0x80200000, pa, 0, 2⟩)
    (hsecond : phdrAt mem (elfStart + 84) = ⟨0, 0x80100000, 0x100000, 1, 1⟩)
    (hlow : 0x18004 ≤ pa) (hfits : pa + 2 < 2 ^ 32) :
    TableKept (preloaded lowLayout mem) (tableAddrs lowLayout mem) ∧
      (TableSound (preloaded lowLayout mem) (tableAddrs lowLayout mem) ↔
        RangesApart pa 2 elfStart 1) := by
  have haddrs : tableAddrs lowLayout mem = [lowLayout.elfbuf + 52, lowLayout.elfbuf + 84] := by
    rw [tableAddrs_eq, segmentLoads_two hoff hnum]
    rfl
  have hfirst' := (preloaded_header lowLayout mem (by decide : 52 + sizeofPhdr ≤ 4096)).trans hfirst
  have hsecond' :=
    (preloaded_header lowLayout mem (by decide : 84 + sizeofPhdr ≤ 4096)).trans hsecond
  have hsize : sizeofPhdr = 32 := rfl
  have hbuf : lowLayout.elfbuf = 0x9000 := rfl
  have hinfo : elfInfoStart = 0x18000 := rfl
  -- both segments are stored behind the length of the image
  have hbehind : ∀ {p b n : ℕ}, 0x18004 ≤ p → p + 2 ≤ 2 ^ 32 → b + n ≤ 0x18004 → ∀ k ≤ 2,
      RangesApart p k b n :=
    fun hp hend hb k hk => Or.inr (Or.inr (Or.inr ⟨by omega, by omega⟩))
  have hfar : ∀ {b n : ℕ}, b + n ≤ 0x18004 → ∀ a ∈ [lowLayout.elfbuf + 52, lowLayout.elfbuf + 84],
      RangesApart (phdrAt (preloaded lowLayout mem) a).pPaddr
        (storedSize (phdrAt (preloaded lowLayout mem) a)) b n := by
    intro b n hb a ha
    rcases List.mem_pair.mp ha with rfl | rfl
    · rw [hfirst']
      exact hbehind hlow hfits.le hb _ (le_refl 2)
    · rw [hsecond']
      exact hbehind (by decide) (by decide) hb _ (by decide)
  rw [haddrs]
  constructor
  · constructor
    · intro a ha
      refine hfar ?_ a ha
      rcases List.mem_pair.mp ha with rfl | rfl <;> omega
    · rw [List.pairwise_pair]
      exact hfar (by omega) _ (List.mem_pair.mpr (Or.inl rfl))
    · exact hfar (by omega)
    · rw [elfLen_preloaded, hlen]
      decide
  · constructor
    · intro h
      have hapart := h.apart
      rw [List.pairwise_pair, hfirst', hsecond'] at hapart
      exact hapart
    · refine fun hapart => ⟨fun a ha => ?_, ?_⟩
      · rw [elfLen_preloaded, hlen]
        rcases List.mem_pair.mp ha with rfl | rfl
        · rw [hfirst']
          exact Or.inl rfl
        · rw [hsecond']
          exact Or.inr (by decide)
      · rw [List.pairwise_pair, hfirst', hsecond']
        exact hapart

/-- A run over such an image. -/
theorem twoSegmentImage_run (hinit : kernreaderInit mem = .ok ())
    (hmagic : elfMagic (fun i => mem (elfStart + i)) 0 = true)
    (hoff : ePhoff (fun i => mem (elfStart + i)) 0 = 52)
    (hnum : ePhnum (fun i => mem (elfStart + i)) 0 = 2) (hlen : elfLen mem = 116)
    (hfirst : phdrAt mem (elfStart + 52) = ⟨0, 0x80200000, pa, 0, 2⟩)
    (hsecond : phdrAt mem (elfStart + 84) = ⟨0, 0x80100000, 0x100000, 1, 1⟩)
    (hpass : ¬ (elfStart ≤ pa ∧ pa < elfStart + 116)) (hlow : 0x18004 ≤ pa)
    (hfits : pa + 2 < 2 ^ 32) :
    (∃ r, bootmain lowLayout mem = .ok r) ∧
      ∃ s t, segmentLoads lowLayout mem = [s, t] ∧
        t.header = ⟨0, 0x80100000, 0x100000, 1, 1⟩ ∧ s.mem = preloaded lowLayout mem ∧
        s.filled = bmemset s.mem pa 0 2 := by
  obtain ⟨s, hs⟩ : ∃ s : SegmentLoad, s = ⟨preloaded lowLayout mem, lowLayout.elfbuf + 52⟩ :=
    ⟨_, rfl⟩
  obtain ⟨t, ht⟩ : ∃ t : SegmentLoad, t = ⟨s.filled, lowLayout.elfbuf + 84⟩ := ⟨_, rfl⟩
  obtain ⟨hkept, -⟩ := twoSegmentImage_table hoff hnum hlen hfirst hsecond hlow hfits
  have hfollow := segmentLoads_follow hkept
  have hloads : segmentLoads lowLayout mem = [s, t] := by
    rw [segmentLoads_two hoff hnum, ht, hs]
  rw [hloads] at hfollow
  have hsfollow := hfollow s (List.mem_pair.mpr (Or.inl rfl))
  have htfollow := hfollow t (List.mem_pair.mpr (Or.inr rfl))
  have hheader : s.header = ⟨0, 0x80200000, pa, 0, 2⟩ := by
    rw [hsfollow.header, hs, preloaded_header _ _ (by decide), hfirst]
  have hheader' : t.header = ⟨0, 0x80100000, 0x100000, 1, 1⟩ := by
    rw [htfollow.header, ht, preloaded_header _ _ (by decide), hsecond]
  have hcopied : s.copied = s.mem := by
    rw [SegmentLoad.copied, hheader]
    rfl
  have hfilled : s.filled = bmemset s.mem pa 0 2 := by
    have hmore : s.reread.pMemsz > s.reread.pFilesz := by
      rw [hsfollow.reread, hheader]
      exact Nat.two_pos
    have hpa : wrap32 (pa + 0) = pa := wrap32_of_lt (by omega)
    have htwo : sub32 2 0 = 2 := by decide
    rw [SegmentLoad.filled, if_pos hmore, hcopied, hsfollow.reread, hheader, hpa, htwo]
  have hend : wrap32 (elfStart + 116) = elfStart + 116 := by decide
  have hpasses : ∀ r ∈ [s, t], r.Passes := by
    intro r hr
    have hrlen := (hfollow r hr).length
    rw [elfLen_preloaded, hlen] at hrlen
    rw [SegmentLoad.Passes, hrlen, hend]
    rcases List.mem_pair.mp hr with rfl | rfl
    · rw [hheader]
      exact hpass
    · rw [hheader']
      decide
  obtain ⟨hmagic', -, -, hnum'⟩ := elfHeader_congr (preloaded_spec lowLayout mem).1
  refine ⟨(bootmain_reaches_iff _ _).mpr ⟨hinit, hmagic'.trans hmagic, ?_, ?_⟩,
    s, t, hloads, hheader', by rw [hs], hfilled⟩
  · rw [hnum', hnum]
    decide
  · rw [hloads]
    exact hpasses

end Run

end Aim.Arm
