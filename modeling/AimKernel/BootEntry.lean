/-
**The entry point of the kernel.**

`e_entry` is a virtual address, and `bootmain` jumps before there is paging.  So its loop over the
program headers turns the entry into the physical address of the segment it lies in.  It does so in
the variable that the remaining headers are compared with: a physical address that lies in the
virtual range of another segment is translated again, if that segment comes later.

Main definitions:

* `Aim.jumpAddress` — what the loop makes of `e_entry`;
* `Aim.ElfPhdr.CoversVirtual`, `Aim.JumpTranslates` — what the jump should go to.

Main results:

* `Aim.foldl_perm_iff` — when one step of a fold decides it in every order;
* `Aim.adjustEntry_eq_self_iff` — when a header leaves an address alone;
* `Aim.jumpAddress_correct_iff` — **exactly when the jump is right, in every order of headers.**
-/

import AimKernel.BootLoader
import Mathlib.Data.List.Perm.Basic

set_option relaxedAutoImplicit false
set_option autoImplicit false

namespace Aim

/-! ### Folds in every order -/

section Fold

variable {α β : Type} {f : β → α → β} {b : β}

/-- Items that leave the value alone. -/
theorem foldl_of_fixed {l : List α} (h : ∀ x ∈ l, f b x = b) : l.foldl f b = b := by
  induction l with
  | nil => rfl
  | cons x l ih =>
      rw [List.foldl_cons, h x List.mem_cons_self]
      exact ih fun y hy => h y (List.mem_cons_of_mem x hy)

/-- **One item decides a fold.**  If all others leave the first value alone, then the fold comes to
the same in every order exactly if they leave the second value alone, too. -/
theorem foldl_perm_iff {a : α} {rest : List α} (hrest : ∀ x ∈ rest, f b x = b) :
    (∀ l : List α, l.Perm (a :: rest) → l.foldl f b = f b a) ↔
      ∀ x ∈ rest, f (f b a) x = f b a := by
  constructor
  · intro h x hx
    -- the item, and after it the one that might move its value
    obtain ⟨s, t, rfl⟩ := List.append_of_mem hx
    have hperm : ((s ++ t) ++ [a, x]).Perm (a :: (s ++ x :: t)) := by
      have hmiddle : (x :: (s ++ t)).Perm (s ++ x :: t) := List.perm_middle.symm
      exact List.perm_append_comm.trans (hmiddle.cons a)
    have hbefore : (s ++ t).foldl f b = b := by
      refine foldl_of_fixed fun y hy => hrest y ?_
      rcases List.mem_append.1 hy with hy | hy
      · exact List.mem_append_left _ hy
      · exact List.mem_append_right _ (List.mem_cons_of_mem x hy)
    have hlast := h _ hperm
    rwa [List.foldl_append, hbefore] at hlast
  · intro h l hperm
    obtain ⟨s, t, rfl⟩ := List.append_of_mem (hperm.mem_iff.2 List.mem_cons_self)
    have hothers : (s ++ t).Perm rest :=
      (List.perm_cons a).1 (List.perm_middle.symm.trans hperm)
    rw [List.foldl_append, List.foldl_cons, foldl_of_fixed fun x hx => hrest x ?_]
    · exact foldl_of_fixed fun x hx => h x (hothers.mem_iff.1 (List.mem_append_right s hx))
    · exact hothers.mem_iff.1 (List.mem_append_left t hx)

end Fold

/-! ### The address of the jump -/

/-- What the loop of `bootmain` makes of `e_entry`. -/
def jumpAddress (hs : List ElfPhdr) (entry : ℕ) : ℕ := hs.foldl adjustEntry entry

/-- The virtual addresses of a segment. -/
def ElfPhdr.CoversVirtual (h : ElfPhdr) (x : ℕ) : Prop :=
  h.pVaddr ≤ x ∧ x < h.pVaddr + h.pMemsz

/-- The physical address of a virtual address in a segment. -/
def ElfPhdr.translate (h : ElfPhdr) (x : ℕ) : ℕ := wrap32 (x - h.pVaddr + h.pPaddr)

/-- **Where the jump should go**: to the physical address in the segment the entry lies in, and to
the entry itself if there is none. -/
def JumpTranslates (hs : List ElfPhdr) (entry jump : ℕ) : Prop :=
  (∀ h ∈ hs, h.CoversVirtual entry → jump = h.translate entry) ∧
    ((∀ h ∈ hs, ¬ h.CoversVirtual entry) → jump = entry)

/-- A program header of 32-bit words whose virtual range does not wrap. -/
structure ElfPhdr.VirtualFits (h : ElfPhdr) : Prop where
  vaddr : h.pVaddr < 2 ^ 32
  paddr : h.pPaddr < 2 ^ 32
  fits : h.pVaddr + h.pMemsz ≤ 2 ^ 32

/-- Segments that share no virtual address. -/
def ElfPhdr.VirtualApart (g h : ElfPhdr) : Prop :=
  ∀ x, ¬ (g.CoversVirtual x ∧ h.CoversVirtual x)

theorem ElfPhdr.VirtualApart.symm {g h : ElfPhdr} (hgh : g.VirtualApart h) : h.VirtualApart g :=
  fun x hx => hgh x ⟨hx.2, hx.1⟩

section Adjust

variable {h : ElfPhdr} {x : ℕ}

theorem adjustEntry_of_covers (hf : h.VirtualFits) (htop : h.pVaddr + h.pMemsz ≠ 2 ^ 32)
    (hcov : h.CoversVirtual x) : adjustEntry x h = h.translate x := by
  have hfits := hf.fits
  have hend : wrap32 (h.pVaddr + h.pMemsz) = h.pVaddr + h.pMemsz := wrap32_of_lt (by omega)
  have hlt := hcov.2
  rw [adjustEntry, if_pos ⟨hcov.1, by rw [hend]; exact hlt⟩, sub32_of_le hcov.1 (by omega)]
  rfl

theorem adjustEntry_of_not_covers (hcov : ¬ h.CoversVirtual x) :
    adjustEntry x h = x := by
  refine if_neg fun hhit => hcov ⟨hhit.1, hhit.2.trans_le ?_⟩
  exact Nat.mod_le _ _

/-- The end of a segment at the top of the address space is 0 in 32 bits. -/
theorem adjustEntry_of_top (htop : h.pVaddr + h.pMemsz = 2 ^ 32) : adjustEntry x h = x := by
  refine if_neg fun hhit => ?_
  rw [htop] at hhit
  exact absurd hhit.2 (Nat.not_lt_zero x)

theorem translate_eq_self_iff (hf : h.VirtualFits) (hcov : h.CoversVirtual x) :
    h.translate x = x ↔ h.pPaddr = h.pVaddr := by
  have hfits := hf.fits
  have hpaddr := hf.paddr
  have hle := hcov.1
  have hlt := hcov.2
  rw [ElfPhdr.translate, wrap32]
  omega

/-- **A header leaves an address alone** if it is outside its segment, or the segment is where it
is linked to, or the segment ends at the top of the address space. -/
theorem adjustEntry_eq_self_iff (hf : h.VirtualFits) :
    adjustEntry x h = x ↔
      (h.CoversVirtual x → h.pVaddr + h.pMemsz ≠ 2 ^ 32 → h.pPaddr = h.pVaddr) := by
  by_cases hcov : h.CoversVirtual x
  · by_cases htop : h.pVaddr + h.pMemsz = 2 ^ 32
    · exact iff_of_true (adjustEntry_of_top htop) fun _ hne => absurd htop hne
    · rw [adjustEntry_of_covers hf htop hcov, translate_eq_self_iff hf hcov]
      exact ⟨fun heq _ _ => heq, fun himp => himp hcov htop⟩
  · exact iff_of_true (adjustEntry_of_not_covers hcov) fun hc => absurd hc hcov

end Adjust

/-! ### The jump is right -/

section Jump

variable {hs : List ElfPhdr} {entry : ℕ}

/-- In every order of the headers the jump goes where it should. -/
def JumpCorrect (hs : List ElfPhdr) (entry : ℕ) : Prop :=
  JumpTranslates hs entry (jumpAddress hs entry) ∧
    ∀ hs' : List ElfPhdr, hs'.Perm hs → jumpAddress hs' entry = jumpAddress hs entry

/-- **Nothing is in the way**: the segment of the entry does not end at the top of the address
space, and the translated entry lies in no other segment that would translate it again. -/
def NotInTheWay (hs : List ElfPhdr) (entry : ℕ) : Prop :=
  ∀ h ∈ hs, h.CoversVirtual entry →
    (h.pVaddr + h.pMemsz = 2 ^ 32 → h.pPaddr = h.pVaddr) ∧
    ∀ g ∈ hs, g ≠ h → g.CoversVirtual (h.translate entry) → g.pVaddr + g.pMemsz ≠ 2 ^ 32 →
      g.pPaddr = g.pVaddr

/-- An entry outside all segments stays. -/
theorem jumpCorrect_of_outside (hout : ∀ h ∈ hs, ¬ h.CoversVirtual entry) :
    JumpCorrect hs entry := by
  have hstays : ∀ hs' : List ElfPhdr, hs'.Perm hs → jumpAddress hs' entry = entry :=
    fun hs' hperm => foldl_of_fixed fun h hh =>
      adjustEntry_of_not_covers (hout h (hperm.mem_iff.1 hh))
  have hjump := hstays hs (List.Perm.refl hs)
  refine ⟨⟨fun h hh hcov => absurd hcov (hout h hh), fun _ => hjump⟩, fun hs' hperm => ?_⟩
  rw [hstays hs' hperm, hjump]

/-- The segment of the entry, and the others. -/
theorem perm_cons_of_covers (hdisjoint : hs.Pairwise ElfPhdr.VirtualApart) {h : ElfPhdr}
    (hh : h ∈ hs) (hcov : h.CoversVirtual entry) :
    ∃ rest, hs.Perm (h :: rest) ∧ (∀ g ∈ rest, g.VirtualApart h) ∧
      ∀ g, g ∈ rest ↔ g ∈ hs ∧ g ≠ h := by
  obtain ⟨s, t, rfl⟩ := List.append_of_mem hh
  have hperm : (s ++ h :: t).Perm (h :: (s ++ t)) := List.perm_middle
  have hapart : ∀ g ∈ s ++ t, g.VirtualApart h := by
    have hpair := (hperm.pairwise_iff fun hxy => hxy.symm).1 hdisjoint
    exact fun g hg => ((List.pairwise_cons.1 hpair).1 g hg).symm
  refine ⟨s ++ t, hperm, hapart, fun g => ⟨fun hg => ⟨?_, ?_⟩, fun ⟨hg, hne⟩ => ?_⟩⟩
  · exact hperm.mem_iff.2 (List.mem_cons_of_mem h hg)
  · rintro rfl
    exact hapart g hg entry ⟨hcov, hcov⟩
  · exact List.mem_of_ne_of_mem hne (hperm.mem_iff.1 hg)

/-- The jump is right if every order ends with the address in the segment of the entry. -/
theorem jumpCorrect_iff_forall (hdisjoint : hs.Pairwise ElfPhdr.VirtualApart) {h : ElfPhdr}
    (hh : h ∈ hs) (hcov : h.CoversVirtual entry) : JumpCorrect hs entry ↔
      ∀ hs' : List ElfPhdr, hs'.Perm hs → jumpAddress hs' entry = h.translate entry := by
  constructor
  · intro hcorrect hs' hperm
    rw [hcorrect.2 hs' hperm]
    exact hcorrect.1.1 h hh hcov
  · intro hall
    have hjump := hall hs (List.Perm.refl hs)
    refine ⟨⟨fun g hg hcov' => ?_, fun hnone => absurd hcov (hnone h hh)⟩, fun hs' hperm => ?_⟩
    · -- no other segment covers the entry
      obtain ⟨rest, -, hapart, hrest⟩ := perm_cons_of_covers hdisjoint hh hcov
      by_cases hgh : g = h
      · rw [hgh, hjump]
      · exact absurd ⟨hcov', hcov⟩ (hapart g ((hrest g).2 ⟨hg, hgh⟩) entry)
    · rw [hall hs' hperm, hjump]

/-- A segment that ends at the top of the address space is never recognised. -/
theorem jumpCorrect_iff_of_top (hfits : ∀ h ∈ hs, h.VirtualFits)
    (hdisjoint : hs.Pairwise ElfPhdr.VirtualApart) {h : ElfPhdr} (hh : h ∈ hs)
    (hcov : h.CoversVirtual entry) (htop : h.pVaddr + h.pMemsz = 2 ^ 32) :
    JumpCorrect hs entry ↔ h.pPaddr = h.pVaddr := by
  obtain ⟨rest, hperm, hapart, -⟩ := perm_cons_of_covers hdisjoint hh hcov
  have hstays : ∀ hs' : List ElfPhdr, hs'.Perm hs → jumpAddress hs' entry = entry := by
    refine fun hs' hperm' => foldl_of_fixed fun g hg => ?_
    rcases List.mem_cons.1 ((hperm'.trans hperm).mem_iff.1 hg) with rfl | hg
    · exact adjustEntry_of_top htop
    · exact adjustEntry_of_not_covers fun hg' => hapart g hg entry ⟨hg', hcov⟩
  rw [jumpCorrect_iff_forall hdisjoint hh hcov, ← translate_eq_self_iff (hfits h hh) hcov]
  constructor
  · intro hall
    rw [← hall hs (List.Perm.refl hs)]
    exact hstays hs (List.Perm.refl hs)
  · intro heq hs' hperm'
    rw [heq]
    exact hstays hs' hperm'

/-- Below the top, the other segments must leave the translated entry alone. -/
theorem jumpCorrect_iff_of_covers (hfits : ∀ h ∈ hs, h.VirtualFits)
    (hdisjoint : hs.Pairwise ElfPhdr.VirtualApart) {h : ElfPhdr} (hh : h ∈ hs)
    (hcov : h.CoversVirtual entry) (htop : h.pVaddr + h.pMemsz ≠ 2 ^ 32) :
    JumpCorrect hs entry ↔
      ∀ g ∈ hs, g ≠ h → adjustEntry (h.translate entry) g = h.translate entry := by
  obtain ⟨rest, hperm, hapart, hrest⟩ := perm_cons_of_covers hdisjoint hh hcov
  have hfirst : ∀ g ∈ rest, adjustEntry entry g = entry := fun g hg =>
    adjustEntry_of_not_covers fun hg' => hapart g hg entry ⟨hg', hcov⟩
  have hfold := foldl_perm_iff (a := h) hfirst
  rw [adjustEntry_of_covers (hfits h hh) htop hcov] at hfold
  rw [jumpCorrect_iff_forall hdisjoint hh hcov]
  constructor
  · intro hall g hg hne
    refine hfold.1 (fun hs' hperm' => ?_) g ((hrest g).2 ⟨hg, hne⟩)
    exact hall hs' (hperm'.trans hperm.symm)
  · intro hothers hs' hperm'
    refine hfold.2 (fun g hg => ?_) hs' (hperm'.trans hperm)
    obtain ⟨hmem, hne⟩ := (hrest g).1 hg
    exact hothers g hmem hne

/-- The jump is right exactly if nothing is in the way. -/
theorem jumpCorrect_iff (hfits : ∀ h ∈ hs, h.VirtualFits)
    (hdisjoint : hs.Pairwise ElfPhdr.VirtualApart) :
    JumpCorrect hs entry ↔ NotInTheWay hs entry := by
  by_cases hout : ∀ h ∈ hs, ¬ h.CoversVirtual entry
  · exact iff_of_true (jumpCorrect_of_outside hout) fun h hh hcov => absurd hcov (hout h hh)
  · obtain ⟨h, hh, hcov⟩ : ∃ h ∈ hs, h.CoversVirtual entry := by
      by_contra hnone
      exact hout fun h hh hcov => hnone ⟨h, hh, hcov⟩
    obtain ⟨rest, -, hapart, hrest⟩ := perm_cons_of_covers hdisjoint hh hcov
    have honly : ∀ g ∈ hs, g.CoversVirtual entry → g = h := by
      intro g hg hcov'
      by_contra hne
      exact hapart g ((hrest g).2 ⟨hg, hne⟩) entry ⟨hcov', hcov⟩
    constructor
    · intro hcorrect g hg hcov'
      obtain rfl := honly g hg hcov'
      by_cases htop : g.pVaddr + g.pMemsz = 2 ^ 32
      · have hsame := (jumpCorrect_iff_of_top hfits hdisjoint hg hcov' htop).1 hcorrect
        refine ⟨fun _ => hsame, fun k hk hne hcov'' _ => ?_⟩
        -- the entry itself is in no other segment
        rw [(translate_eq_self_iff (hfits g hg) hcov').2 hsame] at hcov''
        exact absurd (honly k hk hcov'') hne
      · refine ⟨fun h => absurd h htop, fun k hk hne => ?_⟩
        exact (adjustEntry_eq_self_iff (hfits k hk)).1
          ((jumpCorrect_iff_of_covers hfits hdisjoint hg hcov' htop).1 hcorrect k hk hne)
    · intro hway
      obtain ⟨hfirst, hothers⟩ := hway h hh hcov
      by_cases htop : h.pVaddr + h.pMemsz = 2 ^ 32
      · exact (jumpCorrect_iff_of_top hfits hdisjoint hh hcov htop).2 (hfirst htop)
      · refine (jumpCorrect_iff_of_covers hfits hdisjoint hh hcov htop).2 fun g hg hne => ?_
        exact (adjustEntry_eq_self_iff (hfits g hg)).2 (hothers g hg hne)

/-- **`bootmain` jumps** to what its loop makes of `e_entry`. -/
theorem bootmain_jump {L : BootLayout} {readsectRealmode : ReadsectRealmode} {disk : ℕ → BitVec 8}
    {mem : BootMemory} (hdisk : Delivers L readsectRealmode disk) (hb : Startable L mem disk)
    {jump : ℕ} {mem' : BootMemory}
    (hrun : bootmain L readsectRealmode mem = .ok (jump, mem')) :
    jump = jumpAddress (phdrs (kernelFile mem disk)) (eEntry (kernelFile mem disk) 0) := by
  obtain ⟨hrefused, hreached⟩ := bootmain_spec hdisk hb
  by_cases hnone : ePhnum (kernelFile mem disk) 0 = 0
  · rw [hrefused hnone] at hrun
    cases hrun
  · obtain ⟨mem₂, hrun₂, -⟩ := hreached hnone
    rw [hrun₂] at hrun
    cases Except.ok.inj hrun
    rfl

/-- **When the jump is right**, for a table of segments that share no virtual address, and an
entry: `bootmain` jumps to `jumpAddress` if the file has them, and that is the right address in
every order of the headers exactly if nothing is in the way. -/
theorem jumpAddress_correct_iff (hs : List ElfPhdr) (entry : ℕ) (hfits : ∀ h ∈ hs, h.VirtualFits)
    (hdisjoint : hs.Pairwise ElfPhdr.VirtualApart) :
    (∀ (L : BootLayout) (readsectRealmode : ReadsectRealmode) (disk : ℕ → BitVec 8)
        (mem : BootMemory), Delivers L readsectRealmode disk → Startable L mem disk →
      phdrs (kernelFile mem disk) = hs → eEntry (kernelFile mem disk) 0 = entry →
      ∀ jump mem', bootmain L readsectRealmode mem = .ok (jump, mem') →
        jump = jumpAddress hs entry) ∧
    (JumpCorrect hs entry ↔ NotInTheWay hs entry) := by
  refine ⟨fun L readsectRealmode disk mem hdisk hb hphdrs hentry jump mem' hrun => ?_,
    jumpCorrect_iff hfits hdisjoint⟩
  rw [bootmain_jump hdisk hb hrun, hphdrs, hentry]

/-- The kernel of two segments is entered at the start of the first. -/
theorem jumpAddress_correct_two :
    (∃ jump mem', bootmain lowLayout (biosRead twoSegments) partitioned = .ok (jump, mem') ∧
        jump = 0x100000) ∧
      JumpCorrect [⟨116, 0x80100000, 0x100000, 2, 4⟩, ⟨118, 0x80200000, 0x200000, 1, 1⟩]
        0x80100000 := by
  have hdisk := biosRead_delivers twoSegments
  have hstart := bootable_twoSegments.toStartable
  obtain ⟨hjump, hcorrect⟩ := jumpAddress_correct_iff
    [⟨116, 0x80100000, 0x100000, 2, 4⟩, ⟨118, 0x80200000, 0x200000, 1, 1⟩] 0x80100000
    (fun h hh => by
      rcases List.mem_pair.1 hh with rfl | rfl <;> exact ⟨by decide, by decide, by decide⟩)
    (List.pairwise_pair.2 fun x ⟨hg, hh⟩ => by
      simp only [ElfPhdr.CoversVirtual] at hg hh
      omega)
  constructor
  · obtain ⟨mem', hrun, -⟩ := (bootmain_spec hdisk hstart).2 (by decide +kernel)
    refine ⟨_, mem', hrun, ?_⟩
    rw [hjump _ _ _ _ hdisk hstart (by decide +kernel) (by decide +kernel) _ mem' hrun]
    decide
  · refine hcorrect.2 fun h hh hcov => ?_
    rcases List.mem_pair.1 hh with rfl | rfl
    · refine ⟨fun htop => absurd htop (by decide), fun g hg hne hcov' _ => ?_⟩
      rcases List.mem_pair.1 hg with rfl | rfl
      · exact absurd rfl hne
      · exact absurd hcov'.1 (by decide)
    · exact absurd hcov.1 (by decide)

/-- A kernel linked to `0x80100000`, with a segment linked to the addresses it is loaded to. -/
def lowSegmentTable : List ElfPhdr :=
  [⟨0x1000, 0x80100000, 0x100000, 0x1000, 0x1000⟩, ⟨0x2000, 0x100000, 0x200000, 0x1000, 0x1000⟩]

/-- Its entry is translated twice, unless the headers are in the other order. -/
theorem translated_twice : (∀ h ∈ lowSegmentTable, h.VirtualFits) ∧
    lowSegmentTable.Pairwise ElfPhdr.VirtualApart ∧
    jumpAddress lowSegmentTable 0x80100010 = 0x200010 ∧
    jumpAddress lowSegmentTable.reverse 0x80100010 = 0x100010 ∧
    ¬ JumpCorrect lowSegmentTable 0x80100010 := by
  have hforward : jumpAddress lowSegmentTable 0x80100010 = 0x200010 := by decide
  have hbackward : jumpAddress lowSegmentTable.reverse 0x80100010 = 0x100010 := by decide
  refine ⟨fun h hh => ?_, List.pairwise_pair.2 fun x ⟨hg, hh⟩ => ?_, hforward, hbackward, ?_⟩
  · rcases List.mem_pair.1 hh with rfl | rfl <;> exact ⟨by decide, by decide, by decide⟩
  · simp only [ElfPhdr.CoversVirtual] at hg hh
    omega
  · intro hcorrect
    have hsame := hcorrect.2 _ (List.reverse_perm _)
    rw [hforward, hbackward] at hsame
    exact absurd hsame (by decide)

end Jump

end Aim
