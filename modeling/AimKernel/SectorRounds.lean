/-
**The sectors that a part of the kernel file is read from.**

`kernreader_readfile` turns an offset in the file into one on the disk, and this into the number of a
sector and the bytes to skip in it.  From then on it counts bytes with those that are skipped, and
copies them without.  Which sectors it reads, and how much of each it wants, depends on nothing but
these numbers: the run over memory is the fold of the rounds that they give.

Main definitions:

* `Aim.ReadRound`, `Aim.fileRounds` — the rounds of the loop;
* `Aim.exactSectors` — the sectors of a part of a file, in exact arithmetic;
* `Aim.kdiskoffsetInt` — the arithmetic of `kernreader_init` as it is written, on `int`.

Main results:

* `Aim.kernreaderReadfile_eq_rounds` — the run is the fold of its rounds;
* `Aim.fileRounds_sect` — the sectors of the rounds;
* `Aim.readfile_reads` — **what `kernreader_readfile` reads and writes**;
* `Aim.sectors_exact_iff` — **when the way through byte offsets loses nothing.**
-/

import AimKernel.BootLoader

set_option relaxedAutoImplicit false
set_option autoImplicit false

namespace Aim

open ByteMemory

/-! ### Rounds -/

/-- A round of the loop of `kernreader_readfile`: the place that it copies to, the bytes of the
sector that it counts, those of them that it skips, and the sector. -/
structure ReadRound where
  buf : ℕ
  cursize : ℕ
  skip : ℕ
  sect : ℕ
deriving DecidableEq, Repr

/-- What a round does. -/
def ReadRound.run (L : BootLayout) (readsectRealmode : ReadsectRealmode) (mem : BootMemory)
    (r : ReadRound) : Outcome BootMemory := do
  let mem ← readsect readsectRealmode L.sectbuf r.sect mem
  return bmemcpy mem r.buf (wrap32 (L.sectbuf + r.skip)) (sub32 r.cursize r.skip)

/-- The rounds of the loop. -/
def readRounds : ℕ → ℕ → ℕ → ℕ → ℕ → List ReadRound
  | 0, _, _, _, _ => []
  | fuel + 1, buf, size, skip, offset =>
      if size ≠ 0 then
        let cursize := if size < sectSize then size else sectSize
        ⟨buf, cursize, skip, offset⟩ ::
          readRounds fuel (wrap32 (buf + sub32 cursize skip)) (sub32 size cursize) 0
            (wrap32 (offset + 1))
      else
        []

/-- The rounds of `kernreader_readfile`. -/
def fileRounds (kdiskoffset buf size offset : ℕ) : List ReadRound :=
  let offset := wrap32 (offset + kdiskoffset)
  let skip := offset % sectSize
  let size := wrap32 (size + skip)
  readRounds (size + 1) buf size skip (offset / sectSize)

/-- What is left behind a round. -/
theorem rest_lt {size cursize : ℕ} (hcur : cursize = if size < sectSize then size else sectSize)
    (hpos : size ≠ 0) (hsize : size < 2 ^ 32) :
    sub32 size cursize = size - cursize ∧ size - cursize < size := by
  have hss : sectSize = 512 := rfl
  have hle : 0 < cursize ∧ cursize ≤ size := by
    split at hcur
    · omega
    · omega
  exact ⟨sub32_of_le hle.2 hsize, by omega⟩

section Rounds

variable (L : BootLayout) (readsectRealmode : ReadsectRealmode)

/-- The loop is the fold of its rounds. -/
theorem readfileLoop_eq_rounds (fuel : ℕ) :
    ∀ (mem : BootMemory) (buf size skip offset : ℕ), size < fuel → size < 2 ^ 32 →
      readfileLoop L readsectRealmode fuel mem buf size skip offset =
        (readRounds fuel buf size skip offset).foldlM (ReadRound.run L readsectRealmode) mem := by
  induction fuel with
  | zero => exact fun _ _ _ _ _ hfuel => absurd hfuel (Nat.not_lt_zero _)
  | succ fuel ih =>
      intro mem buf size skip offset hfuel hsize
      rw [readfileLoop, readRounds]
      by_cases hdone : size = 0
      · rw [if_neg (not_not.2 hdone), if_neg (not_not.2 hdone)]
        rfl
      · rw [if_pos hdone, if_pos hdone]
        obtain ⟨cur, hcur⟩ : ∃ cur, cur = if size < sectSize then size else sectSize := ⟨_, rfl⟩
        obtain ⟨hrest, hlt⟩ := rest_lt hcur hdone hsize
        simp only [← hcur]
        rw [List.foldlM_cons, ReadRound.run, hrest]
        cases readsect readsectRealmode L.sectbuf offset mem with
        | error fault => rfl
        | ok mem₁ => exact ih _ _ _ _ _ (by omega) (by omega)

/-- **The run of `kernreader_readfile` is the fold of its rounds.** -/
theorem kernreaderReadfile_eq_rounds (kdiskoffset : ℕ) (mem : BootMemory)
    (buf size offset : ℕ) :
    kernreaderReadfile L readsectRealmode kdiskoffset mem buf size offset =
      (fileRounds kdiskoffset buf size offset).foldlM (ReadRound.run L readsectRealmode) mem :=
  readfileLoop_eq_rounds L readsectRealmode _ _ _ _ _ _ (Nat.lt_succ_self _)
    (Nat.mod_lt _ (by decide))

end Rounds

/-- No round skips more than it counts, when what is counted at the start has what is skipped. -/
theorem readRounds_skip_le (fuel : ℕ) :
    ∀ (buf size skip offset : ℕ), size < 2 ^ 32 → skip ≤ size → skip ≤ sectSize →
      ∀ r ∈ readRounds fuel buf size skip offset, r.skip ≤ r.cursize ∧ r.cursize ≤ sectSize := by
  induction fuel with
  | zero => exact fun _ _ _ _ _ _ _ r hr => absurd hr List.not_mem_nil
  | succ fuel ih =>
      intro buf size skip offset hsize hskip hskip' r hr
      rw [readRounds] at hr
      by_cases hdone : size = 0
      · rw [if_neg (not_not.2 hdone)] at hr
        exact absurd hr List.not_mem_nil
      · rw [if_pos hdone] at hr
        obtain ⟨cur, hcur⟩ : ∃ cur, cur = if size < sectSize then size else sectSize := ⟨_, rfl⟩
        obtain ⟨hrest, hlt⟩ := rest_lt hcur hdone hsize
        simp only [← hcur] at hr
        rw [hrest, List.mem_cons] at hr
        rcases hr with rfl | hr
        · show skip ≤ cur ∧ cur ≤ sectSize
          split at hcur
          · omega
          · omega
        · exact ih _ _ _ _ (by omega) (Nat.zero_le _) (Nat.zero_le _) r hr

/-! ### Sectors -/

/-- So many sectors have so many bytes, counted from the start of the first one. -/
def sectorCount (size : ℕ) : ℕ := (size + (sectSize - 1)) / sectSize

/-- The sectors of the loop follow each other. -/
theorem readRounds_sect (fuel : ℕ) :
    ∀ (buf size skip offset : ℕ), size < fuel → size < 2 ^ 32 → offset < 2 ^ 32 →
      (readRounds fuel buf size skip offset).map ReadRound.sect =
        (List.range (sectorCount size)).map fun i => wrap32 (offset + i) := by
  induction fuel with
  | zero => exact fun _ _ _ _ hfuel => absurd hfuel (Nat.not_lt_zero _)
  | succ fuel ih =>
      intro buf size skip offset hfuel hsize hoffset
      rw [readRounds]
      by_cases hdone : size = 0
      · subst hdone
        rfl
      · obtain ⟨cur, hcur⟩ : ∃ cur, cur = if size < sectSize then size else sectSize := ⟨_, rfl⟩
        obtain ⟨hrest, hlt⟩ := rest_lt hcur hdone hsize
        have hss : sectSize = 512 := rfl
        have hcount : sectorCount size = sectorCount (size - cur) + 1 := by
          rw [sectorCount, sectorCount, hss]
          split at hcur
          · omega
          · omega
        rw [if_pos hdone]
        simp only [← hcur]
        have hnext : wrap32 (offset + 1) < 2 ^ 32 := Nat.mod_lt _ (by decide)
        rw [List.map_cons, hrest, ih _ _ _ _ (by omega) (by omega) hnext, hcount,
          List.range_succ_eq_map, List.map_cons, List.map_map]
        have hfirst : wrap32 (offset + 0) = offset := wrap32_of_lt hoffset
        rw [hfirst]
        refine congrArg (offset :: ·) (List.map_congr_left fun i _ => ?_)
        rw [Function.comp_apply, wrap32, wrap32, wrap32]
        omega

/-- **The sectors that `kernreader_readfile` asks for.** -/
theorem fileRounds_sect (kdiskoffset buf size offset : ℕ) :
    (fileRounds kdiskoffset buf size offset).map ReadRound.sect =
      (List.range (sectorCount
        (wrap32 (size + wrap32 (offset + kdiskoffset) % sectSize)))).map fun i =>
          wrap32 (wrap32 (offset + kdiskoffset) / sectSize + i) := by
  have hlt : wrap32 (offset + kdiskoffset) < 2 ^ 32 := Nat.mod_lt _ (by decide)
  exact readRounds_sect _ _ _ _ _ (Nat.lt_succ_self _) (Nat.mod_lt _ (by decide))
    (lt_of_le_of_lt (Nat.div_le_self _ _) hlt)

/-! ### Reading -/

section Reading

variable {L : BootLayout} {readsectRealmode : ReadsectRealmode} {disk : ℕ → BitVec 8}

/-- **What `kernreader_readfile` reads and writes**: it ends, in no round are there more bytes to
skip than to count, and besides the destination it writes only what reading the disk may change; a
destination that is not in the way of this receives the bytes of the file. -/
theorem readfile_reads (hdisk : Delivers L readsectRealmode disk) (mem : BootMemory) (buf : ℕ)
    {kdiskoffset offset size : ℕ} (h : kdiskoffset + offset + size + sectSize < 2 ^ 32) :
    (∀ r ∈ fileRounds kdiskoffset buf size offset, r.skip ≤ r.cursize) ∧
      ∃ mem', kernreaderReadfile L readsectRealmode kdiskoffset mem buf size offset = .ok mem' ∧
        (fileRounds kdiskoffset buf size offset).foldlM (ReadRound.run L readsectRealmode) mem =
          .ok mem' ∧
        (∀ a, ¬ L.Work a → (∀ i < size, a ≠ byteAddr buf i) → mem' a = mem a) ∧
        ((∀ i < size, ¬ L.Work (byteAddr buf i)) →
          ∀ i < size, mem' (byteAddr buf i) = disk (kdiskoffset + offset + i)) := by
  have hss : sectSize = 512 := rfl
  have hskip : wrap32 (offset + kdiskoffset) % sectSize < sectSize := Nat.mod_lt _ (by decide)
  have hsize : wrap32 (size + wrap32 (offset + kdiskoffset) % sectSize) =
      size + wrap32 (offset + kdiskoffset) % sectSize := wrap32_of_lt (by omega)
  constructor
  · intro r hr
    rw [fileRounds] at hr
    simp only [hsize] at hr
    exact (readRounds_skip_le _ _ _ _ _ (by omega) (by omega) hskip.le r hr).1
  · obtain ⟨mem', hrun, hbrought⟩ :=
      kernreaderReadfile_brought hdisk kdiskoffset mem buf size offset (by omega) (by omega)
    refine ⟨mem', hrun, ?_, hbrought.kept, fun hwork i hi => ?_⟩
    · rw [← kernreaderReadfile_eq_rounds]
      exact hrun
    · rw [hbrought.bytes hwork i hi, Nat.add_assoc]

/-- 600 bytes, from the last ones of a sector over the next one into the third. -/
theorem readfile_reads_across :
    (fileRounds 512 0x20000 600 500).map ReadRound.skip = [500, 0, 0] ∧
      ∃ mem', kernreaderReadfile lowLayout (biosRead (BitVec.ofNat 8)) 512 partitioned 0x20000 600
          500 = .ok mem' ∧
        ∀ i < 600, mem' (byteAddr 0x20000 i) = BitVec.ofNat 8 (512 + 500 + i) := by
  obtain ⟨-, mem', hrun, -, -, hbytes⟩ := readfile_reads (biosRead_delivers (BitVec.ofNat 8))
    partitioned 0x20000 (by decide : 512 + 500 + 600 + sectSize < 2 ^ 32)
  refine ⟨by decide +kernel, mem', hrun, hbytes fun i hi => ?_⟩
  rw [byteAddr_of_fits (by decide : 0x20000 + 600 ≤ 2 ^ 32) hi]
  have hend : lowLayout.sectbuf + sectSize = 0xa200 := rfl
  rintro ((⟨-, h⟩ | ⟨-, h⟩ | ⟨h, -⟩) | ⟨-, h⟩) <;> omega

end Reading

/-! ### Exact arithmetic -/

/-- `kdiskoffset` as it is written, of four bytes that are promoted to `int`. -/
def kdiskoffsetInt (b0 b1 b2 b3 : BitVec 8) : BitVec 32 :=
  ((b0.setWidth 32 <<< 0) + (b1.setWidth 32 <<< 8) + (b2.setWidth 32 <<< 16) +
    (b3.setWidth 32 <<< 24)) * 512

/-- Only the lowest 32 bits of the sums and of the product are kept. -/
theorem kdiskoffsetInt_toNat (mem : BootMemory) (p : ℕ) :
    (kdiskoffsetInt (mem p) (mem (p + 1)) (mem (p + 2)) (mem (p + 2 + 1))).toNat =
      wrap32 (word32 mem p * sectSize) := by
  have hsect : (512 : BitVec 32).toNat = 512 := rfl
  rw [word32, word16, word16, kdiskoffsetInt, wrap32, sectSize]
  simp only [BitVec.toNat_mul, BitVec.toNat_add, BitVec.toNat_shiftLeft, BitVec.toNat_setWidth,
    Nat.shiftLeft_eq, hsect]
  omega

theorem kernreaderInit_eq_int (mem : BootMemory) :
    kernreaderInit mem =
      (kdiskoffsetInt (mem (mbr + 0x1BE + 0x10 * kernelElfPartId + 0x8))
        (mem (mbr + 0x1BE + 0x10 * kernelElfPartId + 0x9))
        (mem (mbr + 0x1BE + 0x10 * kernelElfPartId + 0xA))
        (mem (mbr + 0x1BE + 0x10 * kernelElfPartId + 0xB))).toNat :=
  (kdiskoffsetInt_toNat mem (mbr + 0x1BE + 0x10 * kernelElfPartId + 0x8)).symm

/-- The sectors of a part of a file in a partition that starts at a sector, from the one with the
first byte on. -/
def exactSectors (lba offset size : ℕ) : List ℕ :=
  (List.range (sectorCount (size + offset % sectSize))).map fun i => lba + offset / sectSize + i

/-- The byte offset of the part and the number of its bytes can be computed. -/
def OffsetsFit (lba offset size : ℕ) : Prop :=
  size + offset % sectSize = 0 ∨
    lba * sectSize + offset < 2 ^ 32 ∧ size + offset % sectSize < 2 ^ 32

instance (lba offset size : ℕ) : Decidable (OffsetsFit lba offset size) :=
  inferInstanceAs (Decidable (_ ∨ _))

/-- Two runs of numbers that follow each other. -/
theorem map_range_eq_iff {n m a b : ℕ} (ha : a + n ≤ 2 ^ 32) :
    ((List.range n).map fun i => wrap32 (a + i)) = ((List.range m).map fun i => b + i) ↔
      n = m ∧ (m ≠ 0 → a = b) := by
  constructor
  · intro heq
    have hlen : n = m := by simpa using congrArg List.length heq
    subst hlen
    refine ⟨rfl, fun hne => ?_⟩
    obtain ⟨k, rfl⟩ := Nat.exists_eq_succ_of_ne_zero hne
    rw [List.range_succ_eq_map, List.map_cons, List.map_cons, List.cons.injEq] at heq
    have hfirst := heq.1
    rwa [wrap32_of_lt (by omega), Nat.add_zero, Nat.add_zero] at hfirst
  · rintro ⟨rfl, hab⟩
    refine List.map_congr_left fun i hi => ?_
    have hlt := List.mem_range.mp hi
    rw [wrap32_of_lt (by omega), hab (by omega)]

/-- **When the way through byte offsets loses nothing**: `kernreader_readfile` runs over the sectors
of the part of the file exactly when it needs none, or its byte offset on the disk and the number of
its bytes, with those in front of it in its first sector, are below 4G. -/
theorem sectors_exact_iff (L : BootLayout) (readsectRealmode : ReadsectRealmode)
    (mem : BootMemory) (buf : ℕ) {offset size : ℕ} (hoffset : offset < 2 ^ 32)
    (hsize : size < 2 ^ 32) :
    kernreaderReadfile L readsectRealmode (kernreaderInit mem) mem buf size offset =
        (fileRounds (kernreaderInit mem) buf size offset).foldlM
          (ReadRound.run L readsectRealmode) mem ∧
      ((fileRounds (kernreaderInit mem) buf size offset).map ReadRound.sect =
          exactSectors (kernelLba mem) offset size ↔
        OffsetsFit (kernelLba mem) offset size) := by
  refine ⟨kernreaderReadfile_eq_rounds _ _ _ _ _ _ _, ?_⟩
  have hss : sectSize = 512 := rfl
  have hlba : kernelLba mem < 2 ^ 32 := word32_lt _ _
  have hcount : ∀ n, sectorCount n = (n + 511) / 512 := fun _ => rfl
  have hsum : wrap32 (offset + kernreaderInit mem) =
      (kernelLba mem * 512 + offset) % 2 ^ 32 := by
    rw [kernreaderInit, wrap32, wrap32, hss]
    omega
  have hskip : (kernelLba mem * 512 + offset) % 2 ^ 32 % 512 = offset % 512 := by omega
  rw [fileRounds_sect, exactSectors, hsum, hss, hskip, map_range_eq_iff, OffsetsFit, hcount,
    hcount, wrap32, hss]
  · omega
  · rw [hcount, wrap32]
    omega

/-- The first sector of a partition that starts at sector 1. -/
theorem sectors_exact_iff_first :
    (fileRounds (kernreaderInit partitioned) 0x20000 512 0).map ReadRound.sect =
        exactSectors (kernelLba partitioned) 0 512 ↔
      OffsetsFit (kernelLba partitioned) 0 512 :=
  (sectors_exact_iff lowLayout (biosRead twoSegments) partitioned 0x20000
    (by decide : 0 < 2 ^ 32) (by decide : 512 < 2 ^ 32)).2

/-- A partition that starts at 4G. -/
def farPartition : BootMemory := fun a => if a = 0x7dd8 then 0x80 else 0

/-- The first sector of the disk is read in place of the first one of the partition. -/
theorem not_sectors_exact_far :
    exactSectors (kernelLba farPartition) 0 512 = [0x800000] ∧
      (fileRounds (kernreaderInit farPartition) 0x20000 512 0).map ReadRound.sect = [0] := by
  decide +kernel

end Aim
