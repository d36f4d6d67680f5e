/-
**Traps of the kernel on the i386 port.**

A gate of the interrupt descriptor table tells the processor where to go.  It pushes what it needs to
come back, and some exceptions push an error code.  `vectors.S` pushes a zero in its place otherwise,
and the number of the trap; `alltraps` pushes the registers, which completes a `struct trapframe`,
and calls `trap`.  This one does not return: it calls `trap_return`, which finds the trap frame
through its argument.

It is the kernel that is interrupted here.  For user programs there is no stack to go to yet, as
`esp0` of the task state is not set, and `alltraps` does not load the data segments of the kernel.
The kernel has to have its own ones in the segment registers, and a stack that is mapped.

Main definitions:

* `Aim.I386.Cpu`, `Aim.I386.Instr` — the processor, and the instructions that are used;
* `Aim.I386.Cpu.run` — running them, unless another exception is raised;
* `Aim.I386.setgate`, `Aim.I386.initIdt` — `arch-mmu.h` and `arch_trap.c`;
* `Aim.I386.Processor.enter`, `Aim.I386.Cpu.iret` — what the processor does;
* `Aim.I386.vectorCode`, `Aim.I386.alltraps`, `Aim.I386.trap`, `Aim.I386.trapReturn` —
  `vectors.pl`, `alltraps.S` and `arch_trap.c`;
* `Aim.I386.Processor.Ready` — the segments, the stack and the table that the kernel needs;
* `Aim.I386.Compiled` — what is known of the compiled `trap`.

Main results:

* `Aim.I386.gate_initIdt` — the gates;
* `Aim.I386.entry_spec` — the trap frame;
* `Aim.I386.trap_resumes` — **what every trap does, and that the interrupted kernel goes on as if
  nothing had happened, but for the value of a system call**;
* `Aim.I386.syscall_returns` — **`syscall` hands its arguments over and returns the value.**
-/

import AimKernel.CArith
import AimKernel.WordStack

set_option relaxedAutoImplicit false
set_option autoImplicit false

namespace Aim.I386

open ByteMemory WordStack

/-! ### The processor -/

/-- Memory, by linear address. -/
abbrev Memory := BitVec 32 → BitVec 8

inductive Reg
  | eax | ecx | edx | ebx | esp | ebp | esi | edi
deriving DecidableEq, Repr

inductive Seg
  | cs | ss | ds | es | fs | gs
deriving DecidableEq, Repr

@[ext] structure Cpu where
  regs : Reg → BitVec 32
  segs : Seg → BitVec 16
  eip : BitVec 32
  eflags : BitVec 32
  mem : Memory

/-- The instructions of `alltraps.S`, `vectors.S` and `syscall` that go on to the next one. -/
inductive Instr
  | pushImm (v : BitVec 32)
  | pushReg (r : Reg)
  | pushSeg (s : Seg)
  | pushal
  | popReg (r : Reg)
  | popSeg (s : Seg)
  | popal
  | addEsp (v : BitVec 32)
  /-- `mov disp(%esp), r`. -/
  | load (disp : BitVec 32) (r : Reg)

/-- What is left to the processor, and what its registers hold that are not used as such here: the
upper half of a word that a segment register is pushed to, the flags of an addition, the address of
the interrupt descriptor table, and which addresses the page tables let the kernel read and write. -/
structure Processor where
  upper : Memory → BitVec 32 → BitVec 16
  addFlags : Cpu → BitVec 32 → BitVec 32
  idt : BitVec 32
  mapped : BitVec 32 → Bool

/-- `SEG_KCODE << 3`. -/
def kcode : BitVec 16 := 1 <<< 3

/-- `SEG_KDATA << 3`: a segment of all addresses. -/
def kdata : BitVec 16 := 2 <<< 3

namespace Cpu

variable (c : Cpu)

/-- The current privilege level. -/
def cpl : BitVec 2 := (c.segs .cs).setWidth 2

def set (r : Reg) (v : BitVec 32) : Cpu := { c with regs := Function.update c.regs r v }

def setSeg (s : Seg) (v : BitVec 16) : Cpu := { c with segs := Function.update c.segs s v }

def push (v : BitVec 32) : Cpu :=
  { c.set .esp (c.regs .esp - 4) with mem := putWord c.mem (c.regs .esp - 4) v }

/-- The word on top of the stack. -/
def top : BitVec 32 := getWord c.mem (c.regs .esp)

/-- The word is taken from the stack. -/
def drop : Cpu := c.set .esp (c.regs .esp + 4)

/-- `pop %esp` moves the stack pointer, and then writes it. -/
def popReg (r : Reg) : Cpu := c.drop.set r c.top

def popSeg (s : Seg) : Cpu := c.drop.setSeg s (c.top.setWidth 16)

/-- A segment register as a word, when it is pushed. -/
def padded (P : Processor) (v : BitVec 16) : BitVec 32 := P.upper c.mem (c.regs .esp - 4) ++ v

/-- What an instruction does when it raises no exception. -/
def exec (P : Processor) (c : Cpu) : Instr → Cpu
  | .pushImm v => c.push v
  | .pushReg r => c.push (c.regs r)
  | .pushSeg s => c.push (c.padded P (c.segs s))
  -- the stack pointer is pushed as it was at first
  | .pushal => [Reg.eax, .ecx, .edx, .ebx, .esp, .ebp, .esi, .edi].foldl
      (fun c' r => c'.push (c.regs r)) c
  | .popReg r => c.popReg r
  | .popSeg s => c.popSeg s
  | .popal => ((((((((c.popReg .edi).popReg .esi).popReg .ebp).drop).popReg .ebx).popReg .edx).popReg
      .ecx).popReg .eax)
  | .addEsp v => { c.set .esp (c.regs .esp + v) with eflags := P.addFlags c v }
  | .load disp r => c.set r (getWord c.mem (c.regs .esp + disp))

/-- The words of memory that it reads or writes. -/
def touched : Instr → List (BitVec 32)
  | .pushImm _ | .pushReg _ | .pushSeg _ => [c.regs .esp - BitVec.ofNat 32 (4 * 1)]
  | .pushal => (List.range 8).map fun i => c.regs .esp - BitVec.ofNat 32 (4 * (i + 1))
  | .popReg _ | .popSeg _ => [c.regs .esp]
  -- the stack pointer is not read
  | .popal => [0, 1, 2, 4, 5, 6, 7].map fun i => c.regs .esp + BitVec.ofNat 32 (4 * i)
  | .addEsp _ => []
  | .load disp _ => [c.regs .esp + disp]

/-- What it loads into a segment register. -/
def loaded : Instr → List (BitVec 16)
  | .popSeg _ => [c.top.setWidth 16]
  | _ => []

/-- A word can be read and written through the segment of the stack. -/
def StackWord (P : Processor) (a : BitVec 32) : Prop :=
  c.segs .ss = kdata ∧ ∀ k < 4, P.mapped (a + BitVec.ofNat 32 k) = true

instance (P : Processor) (a : BitVec 32) : Decidable (c.StackWord P a) :=
  inferInstanceAs (Decidable (_ ∧ _))

/-- Segment registers are loaded with the segment of the kernel's data, or with none: other
descriptors are left out. -/
def Allows (P : Processor) (i : Instr) : Prop :=
  (∀ a ∈ c.touched i, c.StackWord P a) ∧ ∀ v ∈ c.loaded i, v = kdata ∨ v = 0

instance (P : Processor) (i : Instr) : Decidable (c.Allows P i) :=
  inferInstanceAs (Decidable (_ ∧ _))

/-- One instruction, or another exception. -/
def step (P : Processor) (c : Cpu) (i : Instr) : Option Cpu :=
  if c.Allows P i then some (c.exec P i) else none

/-- Instructions, one behind the other. -/
def run (P : Processor) (c : Cpu) (code : List Instr) : Option Cpu := code.foldlM (step P) c

/-- `call` of a function in C, with the address behind it.  What the compiler makes of C uses the
segments of data for those of the kernel. -/
def callC (P : Processor) (next target : BitVec 32) : Option Cpu :=
  if c.StackWord P (c.regs .esp - BitVec.ofNat 32 (4 * 1)) ∧ c.segs .ds = kdata ∧ c.segs .es = kdata
  then some { c.push next with eip := target }
  else none

/-- `ret`. -/
def ret (P : Processor) : Option Cpu :=
  if c.StackWord P (c.regs .esp) then some { c.drop with eip := c.top } else none

/-- What `iret` does within the code of the kernel. -/
def iretSame : Cpu :=
  { c.drop.drop.drop with
    eip := c.top
    segs := Function.update c.segs .cs (c.drop.top.setWidth 16)
    eflags := c.drop.drop.top }

/-- `iret`; from or to other code than that of the kernel it is left out. -/
def iret (P : Processor) : Option Cpu :=
  if (∀ i < 3, c.StackWord P (c.regs .esp + BitVec.ofNat 32 (4 * i))) ∧
      c.segs .cs = kcode ∧ c.drop.top.setWidth 16 = kcode
  then some c.iretSame
  else none

end Cpu

/-! ### Gates -/

/-- `struct gatedesc`. -/
structure Gatedesc where
  off_15_0 : BitVec 16
  cs : BitVec 16
  args : BitVec 5
  rsv1 : BitVec 3
  type : BitVec 4
  s : BitVec 1
  dpl : BitVec 2
  p : BitVec 1
  off_31_16 : BitVec 16

/-- Its two words. -/
def Gatedesc.low (g : Gatedesc) : BitVec 32 := g.cs ++ g.off_15_0

def Gatedesc.high (g : Gatedesc) : BitVec 32 :=
  g.off_31_16 ++ (g.p ++ (g.dpl ++ (g.s ++ (g.type ++ (g.rsv1 ++ g.args)))))

/-- `STS_IG32` and `STS_TG32`. -/
def stsIg32 : BitVec 4 := 0xE
def stsTg32 : BitVec 4 := 0xF

/-- `SETGATE`. -/
def setgate (istrap : Bool) (sel : BitVec 16) (off : BitVec 32) (d : BitVec 2) : Gatedesc where
  off_15_0 := (off &&& 0xFFFF).setWidth 16
  cs := sel
  args := 0
  rsv1 := 0
  type := if istrap then stsTg32 else stsIg32
  s := 0
  dpl := d
  p := 1
  off_31_16 := (off >>> 16).setWidth 16

/-- `DPL_USER`. -/
def dplUser : BitVec 2 := 3

/-- `T_SYSCALL`. -/
def tSyscall : ℕ := 0x80

/-- Where gate `i` is. -/
def gateAddr (idt : BitVec 32) (i : ℕ) : BitVec 32 := idt + BitVec.ofNat 32 (8 * i)

/-- `idt[i] = g`. -/
def putGate (idt : BitVec 32) (mem : Memory) (i : ℕ) (g : Gatedesc) : Memory :=
  putWord (putWord mem (gateAddr idt i) g.low) (gateAddr idt i + 4) g.high

/-- `init_idt()`. -/
def initIdt (idt : BitVec 32) (vectors : ℕ → BitVec 32) (mem : Memory) : Memory :=
  let mem := (List.range 256).foldl (fun mem i =>
    putGate idt mem i (setgate false kcode (vectors i) 0)) mem
  putGate idt mem tSyscall (setgate true kcode (vectors tSyscall) dplUser)

/-! ### Interrupts -/

/-- Flags that the processor clears. -/
def flTf : BitVec 32 := 0x100
def flIf : BitVec 32 := 0x200
def flNt : BitVec 32 := 0x4000
def flRf : BitVec 32 := 0x10000
def flVm : BitVec 32 := 0x20000

/-- What the processor reads from a gate. -/
def Processor.gateLow (P : Processor) (mem : Memory) (n : ℕ) : BitVec 32 :=
  getWord mem (gateAddr P.idt n)

def Processor.gateHigh (P : Processor) (mem : Memory) (n : ℕ) : BitVec 32 :=
  getWord mem (gateAddr P.idt n + 4)

/-- The gate is mapped. -/
def Processor.HasGate (P : Processor) (n : ℕ) : Prop :=
  ∀ k < 8, P.mapped (gateAddr P.idt n + BitVec.ofNat 32 k) = true

instance (P : Processor) (n : ℕ) : Decidable (P.HasGate n) :=
  inferInstanceAs (Decidable (∀ k < 8, _))

/-- The processor's part of the trap frame, in the kernel. -/
def Processor.pushState (P : Processor) (err : Option (BitVec 32)) (c : Cpu) : Cpu :=
  let c₁ := c.push c.eflags
  let c₂ := (c₁.push (c₁.padded P (c.segs .cs))).push c.eip
  match err with
  | none => c₂
  | some e => c₂.push e

/-- Taking trap `n`, or another exception.  From a user program, where the processor would go to the
stack that the task state has no address for, it is left out. -/
def Processor.enter (P : Processor) (n : ℕ) (err : Option (BitVec 32)) (c : Cpu) : Option Cpu :=
  let low := P.gateLow c.mem n
  let high := P.gateHigh c.mem n
  if c.cpl = 0 ∧ P.HasGate n ∧ low.extractLsb' 16 16 = kcode ∧
      ∀ i < 3 + err.toList.length, c.StackWord P (c.regs .esp - BitVec.ofNat 32 (4 * (i + 1)))
  then
    let c' := P.pushState err c
    some { c' with
      eip := high.extractLsb' 16 16 ++ low.extractLsb' 0 16
      segs := Function.update c'.segs .cs (low.extractLsb' 16 16)
      eflags := c.eflags &&& ~~~(flTf ||| flNt ||| flRf ||| flVm
        ||| if high.extractLsb' 8 4 = stsIg32 then flIf else 0) }
  else
    none

/-! ### `vectors.S` and `alltraps.S` -/

/-- Traps with an error code, as `vectors.pl` has them. -/
def hasErrorCode (n : ℕ) : Bool := n = 8 || (n ≥ 10 && n ≤ 14) || n = 17

/-- `vector0`, …, `vector255`. -/
def vectorCode (n : ℕ) : List Instr :=
  (if hasErrorCode n then [] else [.pushImm 0]) ++ [.pushImm (BitVec.ofNat 32 n)]

/-- `alltraps`, up to the call. -/
def alltraps : List Instr :=
  [.pushSeg .ds, .pushSeg .es, .pushSeg .fs, .pushSeg .gs, .pushal, .pushReg .esp]

/-- `trap_return`, up to `iret`. -/
def trapReturnCode : List Instr :=
  [.popReg .eax, .popReg .esp, .popal, .popSeg .gs, .popSeg .fs, .popSeg .es, .popSeg .ds,
    .addEsp 8]

/-- `trap_return`. -/
def trapReturn (P : Processor) (c : Cpu) : Option Cpu := do
  let c ← c.run P trapReturnCode
  c.iret P

/-- From the interrupt to the first instruction of `trap`. -/
def trapEntry (P : Processor) (next target : BitVec 32) (n : ℕ) (err : Option (BitVec 32))
    (c : Cpu) : Option Cpu := do
  let c ← P.enter n err c
  let c ← c.run P (vectorCode n ++ alltraps)
  c.callC P next target

/-! ### `arch_trap.c` -/

/-- What `trap` asks the rest of the kernel for. -/
inductive TrapEvent
  | syscall (number : BitVec 32) (args : List (BitVec 32))
  | interrupt (irq : BitVec 32)
deriving DecidableEq

/-- `trap(tf)`, up to the call of `trap_return`: what it asked for, and memory; or the number of the
trap that it panicked about. -/
def trap (handleSyscall : BitVec 32 → List (BitVec 32) → BitVec 32) (mem : Memory)
    (tf : BitVec 32) : Except (BitVec 32) (TrapEvent × Memory) :=
  let trapno := getWord mem (tf + 48)
  if trapno = 0x80 then
    let eax := getWord mem (tf + 28)
    let args := [getWord mem (tf + 16), getWord mem (tf + 24), getWord mem (tf + 20),
      getWord mem (tf + 4), getWord mem tf, getWord mem (tf + 8)]
    .ok (.syscall eax args, putWord mem (tf + 28) (handleSyscall eax args))
  else if trapno ≥ 32 then
    .ok (.interrupt (trapno - 32), mem)
  else
    .error trapno

/-- The compiled `trap` calls `trap_return`.  In memory it leaves what `trap` leaves, except on its
stack, where its stack pointer is, and in `data`, which stands for the data of the kernel; other
registers than those of the code and the stack segment may be anything. -/
structure Compiled (stack data : Set (BitVec 32)) (mem : Memory) (tf : BitVec 32) (c c' : Cpu) :
    Prop where
  sp : ∀ x, Within (c'.regs .esp) 8 x → x ∈ stack
  arg : getWord c'.mem (c'.regs .esp + 4) = tf
  mem : ∀ x, x ∉ stack → x ∉ data → c'.mem x = mem x
  cs : c'.segs .cs = c.segs .cs
  ss : c'.segs .ss = c.segs .ss

/-! ### The table -/

/-- The gate of a trap. -/
def idtGate (vectors : ℕ → BitVec 32) (n : ℕ) : Gatedesc :=
  if n = tSyscall then setgate true kcode (vectors n) dplUser
  else setgate false kcode (vectors n) 0

/-- The table holds the gates. -/
def IdtReady (P : Processor) (vectors : ℕ → BitVec 32) (mem : Memory) : Prop :=
  ∀ n < 256, P.gateLow mem n = (idtGate vectors n).low ∧
    P.gateHigh mem n = (idtGate vectors n).high

section Gates

variable {idt : BitVec 32} {mem : Memory} {i j : ℕ} {g : Gatedesc}

theorem getWord_putGate :
    getWord (putGate idt mem i g) (gateAddr idt i) = g.low ∧
      getWord (putGate idt mem i g) (gateAddr idt i + 4) = g.high := by
  constructor
  · rw [putGate, getWord_putWord_of_apart (by bv_omega) (by bv_omega), getWord_putWord]
  · rw [putGate, getWord_putWord]

theorem getWord_putGate_of_ne (idt : BitVec 32) (mem : Memory) (g : Gatedesc) (hi : i < 256)
    (hj : j < 256) (hne : i ≠ j) :
    getWord (putGate idt mem i g) (gateAddr idt j) = getWord mem (gateAddr idt j) ∧
      getWord (putGate idt mem i g) (gateAddr idt j + 4) = getWord mem (gateAddr idt j + 4) := by
  unfold putGate gateAddr
  constructor
  · rw [getWord_putWord_of_apart (by bv_omega) (by bv_omega),
      getWord_putWord_of_apart (by bv_omega) (by bv_omega)]
  · rw [getWord_putWord_of_apart (by bv_omega) (by bv_omega),
      getWord_putWord_of_apart (by bv_omega) (by bv_omega)]

/-- The loop of `init_idt`. -/
theorem getWord_idtLoop (idt : BitVec 32) (vectors : ℕ → BitVec 32) (mem : Memory) {m : ℕ}
    (hm : m ≤ 256) (hj : j < m) :
    let mem' := (List.range m).foldl (fun mem i =>
      putGate idt mem i (setgate false kcode (vectors i) 0)) mem
    getWord mem' (gateAddr idt j) = (setgate false kcode (vectors j) 0).low ∧
      getWord mem' (gateAddr idt j + 4) = (setgate false kcode (vectors j) 0).high := by
  induction m with
  | zero => exact absurd hj (Nat.not_lt_zero j)
  | succ m ih =>
      dsimp only at ih ⊢
      rw [List.range_succ, List.foldl_append, List.foldl_cons, List.foldl_nil]
      rcases Nat.lt_succ_iff_lt_or_eq.mp hj with hlt | rfl
      · obtain ⟨hlow, hhigh⟩ := ih (by omega) hlt
        obtain ⟨hlow', hhigh'⟩ := getWord_putGate_of_ne idt
          ((List.range m).foldl (fun mem i =>
            putGate idt mem i (setgate false kcode (vectors i) 0)) mem)
          (setgate false kcode (vectors m) 0) (i := m) (j := j) (by omega) (by omega)
          (by omega)
        exact ⟨hlow'.trans hlow, hhigh'.trans hhigh⟩
      · exact getWord_putGate

end Gates

/-- **After `init_idt` the table holds the gates.** -/
theorem gate_initIdt (P : Processor) (vectors : ℕ → BitVec 32) (mem : Memory) :
    IdtReady P vectors (initIdt P.idt vectors mem) := by
  intro n hn
  unfold Processor.gateLow Processor.gateHigh initIdt idtGate
  dsimp only
  by_cases hs : n = tSyscall
  · subst hs
    rw [if_pos rfl]
    exact getWord_putGate
  · rw [if_neg hs]
    obtain ⟨hlow, hhigh⟩ := getWord_putGate_of_ne P.idt
      ((List.range 256).foldl (fun mem i =>
        putGate P.idt mem i (setgate false kcode (vectors i) 0)) mem)
      (setgate true kcode (vectors tSyscall) dplUser) (i := tSyscall) (j := n) (by decide) hn
      (Ne.symm hs)
    obtain ⟨hlow', hhigh'⟩ := getWord_idtLoop P.idt vectors mem (le_refl 256) hn
    exact ⟨hlow.trans hlow', hhigh.trans hhigh'⟩

theorem extractLsb'_append_high {m n : ℕ} (x : BitVec m) (y : BitVec n) :
    (x ++ y).extractLsb' n m = x := by
  ext i hi
  simp only [BitVec.getElem_extractLsb', BitVec.getLsbD_append]
  rw [if_neg (by omega), Nat.add_sub_cancel_left, BitVec.getLsbD_eq_getElem hi]

theorem extractLsb'_append_right {m n i k : ℕ} (x : BitVec m) (y : BitVec n) (hik : i + k ≤ n) :
    (x ++ y).extractLsb' i k = y.extractLsb' i k := by
  ext j hj
  simp only [BitVec.getElem_extractLsb', BitVec.getLsbD_append]
  rw [if_pos (by omega)]

theorem extractLsb'_append_low {m n : ℕ} (x : BitVec m) (y : BitVec n) :
    (x ++ y).extractLsb' 0 n = y := by
  rw [extractLsb'_append_right x y (by omega), BitVec.extractLsb'_eq_self]

/-- The type of a gate, seen by the processor. -/
theorem Gatedesc.type_eq (g : Gatedesc) : g.high.extractLsb' 8 4 = g.type := by
  have hskip : g.high.extractLsb' 8 4 = (g.type ++ (g.rsv1 ++ g.args)).extractLsb' 8 4 := by
    refine (extractLsb'_append_right _ _ (by decide)).trans ?_
    refine (extractLsb'_append_right _ _ (by decide)).trans ?_
    refine (extractLsb'_append_right _ _ (by decide)).trans ?_
    exact extractLsb'_append_right _ _ (by decide)
  rw [hskip]
  exact extractLsb'_append_high _ _

/-- What the processor makes of a gate. -/
theorem setgate_decodes (istrap : Bool) (sel : BitVec 16) (off : BitVec 32) (d : BitVec 2) :
    let g := setgate istrap sel off d
    g.high.extractLsb' 16 16 ++ g.low.extractLsb' 0 16 = off ∧
      g.low.extractLsb' 16 16 = sel ∧ (g.high.extractLsb' 8 4 = stsIg32 ↔ istrap = false) := by
  intro g
  have hhigh : g.high.extractLsb' 16 16 = g.off_31_16 := extractLsb'_append_high _ _
  have hlow : g.low.extractLsb' 0 16 = g.off_15_0 := extractLsb'_append_low _ _
  have hsel : g.low.extractLsb' 16 16 = g.cs := extractLsb'_append_high _ _
  rw [hhigh, hlow, hsel, g.type_eq]
  refine ⟨?_, rfl, ?_⟩
  · have hjoin : ((off >>> 16).setWidth 16 ++ (off &&& 0xFFFF).setWidth 16 : BitVec (16 + 16))
        = off := by
      apply BitVec.eq_of_toNat_eq
      simp only [BitVec.toNat_append, BitVec.toNat_setWidth, BitVec.toNat_ushiftRight,
        BitVec.toNat_and]
      rw [show (0xFFFF : BitVec 32).toNat = 2 ^ 16 - 1 from rfl, Nat.and_two_pow_sub_one_eq_mod,
        Nat.mod_mod, Nat.shiftRight_eq_div_pow,
        Nat.mod_eq_of_lt (show off.toNat / 2 ^ 16 < 2 ^ 16 by omega),
        ← Nat.shiftLeft_add_eq_or_of_lt (Nat.mod_lt _ (by decide)), Nat.shiftLeft_eq]
      omega
    exact hjoin
  · cases istrap <;> simp [g, setgate, stsIg32, stsTg32]

/-! ### What the kernel needs -/

/-- The stack below an address, as far as it is used. -/
def below (top : BitVec 32) (d : ℕ) : Set (BitVec 32) := {x | Within (top - BitVec.ofNat 32 d) d x}

theorem mem_below {top x : BitVec 32} {d : ℕ} :
    x ∈ below top d ↔ (x - (top - BitVec.ofNat 32 d)).toNat < d := Iff.rfl

theorem below_subset {top : BitVec 32} {k d d' : ℕ} (hd : d + k ≤ d') :
    below (top - BitVec.ofNat 32 k) d ⊆ below top d' := by
  intro x hx
  rw [mem_below] at hx ⊢
  bv_omega

/-- The bytes of the table. -/
def InIdt (P : Processor) (x : BitVec 32) : Prop := Within P.idt 2048 x

/-- The kernel runs with its own segments, its table is mapped, and so is its stack for so many
bytes below the stack pointer. -/
structure Processor.Ready (P : Processor) (c : Cpu) (d : ℕ) : Prop where
  cs : c.segs .cs = kcode
  ss : c.segs .ss = kdata
  ds : c.segs .ds = kdata
  es : c.segs .es = kdata
  fs : c.segs .fs = kdata ∨ c.segs .fs = 0
  gs : c.segs .gs = kdata ∨ c.segs .gs = 0
  table : ∀ x, InIdt P x → P.mapped x = true
  stack : ∀ x ∈ below (c.regs .esp) d, P.mapped x = true
  room : d ≤ 2 ^ 32

section Ready

variable {P : Processor} {c c' : Cpu} {d : ℕ}

theorem Processor.Ready.hasGate (h : P.Ready c d) {n : ℕ} (hn : n < 256) : P.HasGate n := by
  intro k hk
  refine h.table _ ?_
  rw [InIdt, Within, gateAddr]
  bv_omega

theorem Processor.Ready.cpl (h : P.Ready c d) : c.cpl = 0 := by
  rw [Cpu.cpl, h.cs]
  rfl

/-- The stack pointer is moved down. -/
theorem Processor.Ready.move (h : P.Ready c d) (hsegs : c'.segs = c.segs) {k : ℕ} (hk : k ≤ d)
    (hsp : c'.regs .esp = c.regs .esp - BitVec.ofNat 32 k) : P.Ready c' (d - k) := by
  have hroom := h.room
  refine ⟨?_, ?_, ?_, ?_, ?_, ?_, h.table, fun x hx => h.stack x ?_, by omega⟩
  · rw [hsegs]
    exact h.cs
  · rw [hsegs]
    exact h.ss
  · rw [hsegs]
    exact h.ds
  · rw [hsegs]
    exact h.es
  · rw [hsegs]
    exact h.fs
  · rw [hsegs]
    exact h.gs
  · rw [mem_below] at hx ⊢
    rw [hsp] at hx
    bv_omega

/-- A word of the stack that is ready. -/
theorem Processor.Ready.stackWord (h : P.Ready c d) (hss : c'.segs .ss = c.segs .ss) {k : ℕ}
    (hk : 1 ≤ k) (hkd : 4 * k ≤ d) : c'.StackWord P (c.regs .esp - BitVec.ofNat 32 (4 * k)) := by
  have hroom := h.room
  refine ⟨hss.trans h.ss, fun j hj => h.stack _ ?_⟩
  rw [mem_below]
  bv_omega

end Ready

/-! ### Building the trap frame -/

/-- Words were pushed since `c₀`, and nothing else has changed but what taking a trap changes. -/
structure Saved (c₀ c : Cpu) (ws : List (BitVec 32)) : Prop where
  stack : Pushed c₀.mem (c₀.regs .esp) c.mem (c.regs .esp) ws
  regs : ∀ r, r ≠ .esp → c.regs r = c₀.regs r
  segs : ∀ s, s ≠ .cs → c.segs s = c₀.segs s

theorem Cpu.run_cons {P : Processor} {c : Cpu} {i : Instr} (h : c.Allows P i) (is : List Instr) :
    c.run P (i :: is) = (c.exec P i).run P is := by
  rw [run, List.foldlM_cons, step, if_pos h]
  rfl

section Entry

variable {P : Processor} {c₀ c : Cpu} {ws : List (BitVec 32)} {d : ℕ}

theorem Saved.refl (c : Cpu) : Saved c c [] := ⟨.nil _ _, fun _ _ => rfl, fun _ _ => rfl⟩

theorem Saved.push (h : Saved c₀ c ws) (hlen : 4 * (ws.length + 1) ≤ 2 ^ 32) (v : BitVec 32) :
    Saved c₀ (c.push v) (v :: ws) where
  stack := by
    have hp := h.stack.push hlen v
    simpa [Cpu.push, Cpu.set] using hp
  regs r hr := by
    simpa [Cpu.push, Cpu.set, hr] using h.regs r hr
  segs := h.segs

/-- There is room for more words. -/
theorem Saved.stackWord (h : Saved c₀ c ws) (hready : P.Ready c₀ d) {k : ℕ} (hk : 1 ≤ k)
    (hlen : 4 * (ws.length + k) ≤ d) :
    c.StackWord P (c.regs .esp - BitVec.ofNat 32 (4 * k)) := by
  have hword := hready.stackWord (h.segs .ss (by decide)) (k := ws.length + k) (by omega) hlen
  have haddr : c.regs .esp - BitVec.ofNat 32 (4 * k)
      = c₀.regs .esp - BitVec.ofNat 32 (4 * (ws.length + k)) := by
    rw [h.stack.pointer]
    bv_omega
  rwa [haddr]

/-- An instruction that pushes a word. -/
theorem Saved.run_push (h : Saved c₀ c ws) (hready : P.Ready c₀ d)
    (hlen : 4 * (ws.length + 1) ≤ d) {i : Instr} {v : BitVec 32} (is : List Instr)
    (htouched : c.touched i = [c.regs .esp - BitVec.ofNat 32 (4 * 1)]) (hloaded : c.loaded i = [])
    (hexec : c.exec P i = c.push v) :
    c.run P (i :: is) = (c.push v).run P is ∧ Saved c₀ (c.push v) (v :: ws) := by
  have hroom := hready.room
  constructor
  · rw [← hexec]
    refine Cpu.run_cons ⟨fun a ha => ?_, fun w hw => ?_⟩ is
    · rw [htouched, List.mem_singleton] at ha
      rw [ha]
      exact h.stackWord hready (le_refl 1) hlen
    · rw [hloaded] at hw
      exact absurd hw List.not_mem_nil
  · exact h.push (by omega) v

/-- `push` of a register. -/
theorem Saved.run_pushReg (h : Saved c₀ c ws) (hready : P.Ready c₀ d)
    (hlen : 4 * (ws.length + 1) ≤ d) {r : Reg} (hr : r ≠ .esp) (is : List Instr) :
    ∃ c' : Cpu, c.run P (.pushReg r :: is) = c'.run P is ∧ c'.segs = c.segs ∧
      c'.eflags = c.eflags ∧ Saved c₀ c' (c₀.regs r :: ws) := by
  obtain ⟨hrun, hs⟩ := h.run_push (v := c.regs r) hready hlen is (i := .pushReg r) rfl rfl rfl
  rw [h.regs r hr] at hrun hs
  exact ⟨_, hrun, rfl, rfl, hs⟩

/-- `pushl` of a data segment register. -/
theorem Saved.run_pushSeg (h : Saved c₀ c ws) (hready : P.Ready c₀ d)
    (hlen : 4 * (ws.length + 1) ≤ d) {s : Seg} (hcs : s ≠ .cs) (is : List Instr) :
    ∃ (u : BitVec 16) (c' : Cpu), c.run P (.pushSeg s :: is) = c'.run P is ∧ c'.segs = c.segs ∧
      Saved c₀ c' ((u ++ c₀.segs s) :: ws) := by
  obtain ⟨hrun, hs⟩ := h.run_push (v := P.upper c.mem (c.regs .esp - 4) ++ c.segs s) hready hlen is
    (i := .pushSeg s) rfl rfl rfl
  rw [h.segs s hcs] at hrun hs
  exact ⟨_, _, hrun, rfl, hs⟩

/-- `pushal`. -/
theorem Saved.run_pushal (h : Saved c₀ c ws) (hready : P.Ready c₀ d)
    (hlen : 4 * (ws.length + 8) ≤ d) (is : List Instr) :
    ∃ (oesp : BitVec 32) (c' : Cpu), c.run P (.pushal :: is) = c'.run P is ∧ c'.segs = c.segs ∧
      Saved c₀ c' (c₀.regs .edi :: c₀.regs .esi :: c₀.regs .ebp :: oesp :: c₀.regs .ebx ::
        c₀.regs .edx :: c₀.regs .ecx :: c₀.regs .eax :: ws) := by
  have hroom := hready.room
  have hall := (((((((h.push (by omega) (c.regs .eax)).push (by simp; omega) (c.regs .ecx)).push
    (by simp; omega) (c.regs .edx)).push (by simp; omega) (c.regs .ebx)).push (by simp; omega)
    (c.regs .esp)).push (by simp; omega) (c.regs .ebp)).push (by simp; omega) (c.regs .esi)).push
    (by simp; omega) (c.regs .edi)
  have hexec : c.exec P .pushal = (((((((c.push (c.regs .eax)).push (c.regs .ecx)).push
    (c.regs .edx)).push (c.regs .ebx)).push (c.regs .esp)).push (c.regs .ebp)).push
    (c.regs .esi)).push (c.regs .edi) := rfl
  rw [← hexec] at hall
  have hreg := fun r hr => h.regs r hr
  rw [hreg .eax (by decide), hreg .ecx (by decide), hreg .edx (by decide), hreg .ebx (by decide),
    hreg .ebp (by decide), hreg .esi (by decide), hreg .edi (by decide)] at hall
  refine ⟨c.regs .esp, c.exec P .pushal, Cpu.run_cons ⟨fun a ha => ?_, fun w hw => ?_⟩ is, rfl, hall⟩
  · obtain ⟨i, hi, rfl⟩ := List.mem_map.mp ha
    rw [List.mem_range] at hi
    exact h.stackWord hready (by omega) (by omega)
  · exact absurd hw List.not_mem_nil

/-- A trap frame: the upper halves of the words of segment registers, and the stack pointer behind
the registers, may be anything. -/
def IsTrapframe (c : Cpu) (n : ℕ) (err : Option (BitVec 32)) (ws : List (BitVec 32)) : Prop :=
  ∃ (oesp : BitVec 32) (ugs ufs ues uds ucs : BitVec 16),
    ws = [c.regs .edi, c.regs .esi, c.regs .ebp, oesp, c.regs .ebx, c.regs .edx, c.regs .ecx,
      c.regs .eax, ugs ++ c.segs .gs, ufs ++ c.segs .fs, ues ++ c.segs .es, uds ++ c.segs .ds,
      BitVec.ofNat 32 n, err.getD 0, c.eip, ucs ++ c.segs .cs, c.eflags]

theorem IsTrapframe.length {n : ℕ} {err : Option (BitVec 32)} (h : IsTrapframe c n err ws) :
    ws.length = 17 := by
  obtain ⟨oesp, ugs, ufs, ues, uds, ucs, rfl⟩ := h
  rfl

/-- The processor pushes its part, and goes on at the vector of the trap. -/
theorem enter_spec {vectors : ℕ → BitVec 32} (hready : P.Ready c d) (hd : 16 ≤ d)
    (hidt : IdtReady P vectors c.mem) {n : ℕ} (hn : n < 256) (err : Option (BitVec 32)) :
    ∃ (c' : Cpu) (ucs : BitVec 16), P.enter n err c = some c' ∧ c'.eip = vectors n ∧
      c'.segs .cs = kcode ∧
      Saved c c' (err.toList ++ [c.eip, ucs ++ c.segs .cs, c.eflags]) := by
  have hroom := hready.room
  obtain ⟨hlow, hhigh⟩ := hidt n hn
  have hgate : (P.gateHigh c.mem n).extractLsb' 16 16 ++ (P.gateLow c.mem n).extractLsb' 0 16
        = vectors n ∧ (P.gateLow c.mem n).extractLsb' 16 16 = kcode := by
    rw [hlow, hhigh, idtGate]
    split
    · have hdec := setgate_decodes true kcode (vectors n) dplUser
      exact ⟨hdec.1, hdec.2.1⟩
    · have hdec := setgate_decodes false kcode (vectors n) 0
      exact ⟨hdec.1, hdec.2.1⟩
  have hone : err.toList.length ≤ 1 := by
    cases err with
    | none => exact Nat.zero_le 1
    | some e => exact le_refl 1
  have hpush : Saved c (P.pushState err c)
      (err.toList ++ [c.eip, (c.push c.eflags).padded P (c.segs .cs), c.eflags]) := by
    have hs := (((Saved.refl c).push (by simp) c.eflags).push (by simp)
      ((c.push c.eflags).padded P (c.segs .cs))).push (by simp) c.eip
    cases err with
    | none => exact hs
    | some e => exact hs.push (by simp) e
  have hwords : ∀ i < 3 + err.toList.length,
      c.StackWord P (c.regs .esp - BitVec.ofNat 32 (4 * (i + 1))) :=
    fun i hi => hready.stackWord rfl (by omega) (by omega)
  rw [Processor.enter, if_pos ⟨hready.cpl, hready.hasGate hn, hgate.2, hwords⟩]
  refine ⟨_, P.upper (c.push c.eflags).mem ((c.push c.eflags).regs .esp - 4), rfl, hgate.1, ?_,
    hpush.stack, hpush.regs, fun s hs => ?_⟩
  · dsimp only
    rw [Function.update_self, hgate.2]
  · dsimp only
    rw [Function.update_of_ne hs]
    exact hpush.segs s hs

/-- The code of a vector completes it. -/
theorem vectorCode_spec (hready : P.Ready c₀ d) {n : ℕ} {err : Option (BitVec 32)}
    (herr : err.isSome = hasErrorCode n) (h : Saved c₀ c (err.toList ++ ws))
    (hlen : 4 * (ws.length + 2) ≤ d) (is : List Instr) :
    ∃ c', c.run P (vectorCode n ++ is) = c'.run P is ∧ c'.segs = c.segs ∧
      Saved c₀ c' (BitVec.ofNat 32 n :: err.getD 0 :: ws) := by
  rw [vectorCode, ← herr]
  cases err with
  | none =>
      have h₀ : Saved c₀ c ws := h
      obtain ⟨hrun, hs⟩ := h₀.run_push hready (by omega) (.pushImm (BitVec.ofNat 32 n) :: is)
        (i := .pushImm 0) rfl rfl rfl
      obtain ⟨hrun', hs'⟩ := hs.run_push hready (by simp; omega) is
        (i := .pushImm (BitVec.ofNat 32 n)) rfl rfl rfl
      exact ⟨_, hrun.trans hrun', rfl, hs'⟩
  | some e =>
      obtain ⟨hrun, hs⟩ := h.run_push hready (by simp; omega) is
        (i := .pushImm (BitVec.ofNat 32 n)) rfl rfl rfl
      exact ⟨_, hrun, rfl, hs⟩

/-- `alltraps` pushes the registers. -/
theorem alltraps_spec (hready : P.Ready c₀ d) (h : Saved c₀ c ws)
    (hlen : 4 * (ws.length + 13) ≤ d) :
    ∃ (oesp : BitVec 32) (ugs ufs ues uds : BitVec 16) (c' : Cpu),
      c.run P alltraps = some (c'.push (c'.regs .esp)) ∧ c'.segs = c.segs ∧
      Saved c₀ c' (c₀.regs .edi :: c₀.regs .esi :: c₀.regs .ebp :: oesp :: c₀.regs .ebx ::
        c₀.regs .edx :: c₀.regs .ecx :: c₀.regs .eax :: (ugs ++ c₀.segs .gs) ::
        (ufs ++ c₀.segs .fs) :: (ues ++ c₀.segs .es) :: (uds ++ c₀.segs .ds) :: ws) := by
  rw [alltraps]
  obtain ⟨uds, c₁, hrun₁, hsegs₁, h₁⟩ := h.run_pushSeg hready (s := .ds) (by omega) (by decide)
    [.pushSeg .es, .pushSeg .fs, .pushSeg .gs, .pushal, .pushReg .esp]
  obtain ⟨ues, c₂, hrun₂, hsegs₂, h₂⟩ := h₁.run_pushSeg hready (s := .es) (by simp; omega)
    (by decide) [.pushSeg .fs, .pushSeg .gs, .pushal, .pushReg .esp]
  obtain ⟨ufs, c₃, hrun₃, hsegs₃, h₃⟩ := h₂.run_pushSeg hready (s := .fs) (by simp; omega)
    (by decide) [.pushSeg .gs, .pushal, .pushReg .esp]
  obtain ⟨ugs, c₄, hrun₄, hsegs₄, h₄⟩ := h₃.run_pushSeg hready (s := .gs) (by simp; omega)
    (by decide) [.pushal, .pushReg .esp]
  obtain ⟨oesp, c₅, hrun₅, hsegs₅, h₅⟩ := h₄.run_pushal hready (by simp; omega) [.pushReg .esp]
  obtain ⟨hrun₆, -⟩ := h₅.run_push hready (by simp; omega) [] (i := .pushReg .esp) rfl rfl rfl
  refine ⟨oesp, ugs, ufs, ues, uds, c₅, ?_, ?_, h₅⟩
  · rw [hrun₁, hrun₂, hrun₃, hrun₄, hrun₅, hrun₆]
    rfl
  · rw [hsegs₅, hsegs₄, hsegs₃, hsegs₂, hsegs₁]

/-- Where the trap frame is. -/
def trapframeAddr (c : Cpu) : BitVec 32 := c.regs .esp - BitVec.ofNat 32 68

/-- **From the interrupt to `trap`**: a trap frame, its address, and a return address. -/
theorem entry_spec {vectors : ℕ → BitVec 32} (hready : P.Ready c d) (hd : 76 ≤ d)
    (hidt : IdtReady P vectors c.mem) {n : ℕ} (hn : n < 256) {err : Option (BitVec 32)}
    (herr : err.isSome = hasErrorCode n) (next target : BitVec 32) :
    ∃ entered c₁ frame, P.enter n err c = some entered ∧ entered.eip = vectors n ∧
      trapEntry P next target n err c = some c₁ ∧ c₁.eip = target ∧ c₁.segs .cs = kcode ∧
      IsTrapframe c n err frame ∧ Saved c c₁ (next :: trapframeAddr c :: frame) := by
  have hroom := hready.room
  obtain ⟨entered, ucs, henter, heip, hcs, hs⟩ := enter_spec hready (by omega) hidt hn err
  obtain ⟨c', hrun', hsegs', hs'⟩ := vectorCode_spec hready herr hs (by simp; omega) alltraps
  obtain ⟨oesp, ugs, ufs, ues, uds, c'', hrun'', hsegs'', hs''⟩ :=
    alltraps_spec hready hs' (by simp; omega)
  have hpushed := hs''.push (by simp) (c''.regs .esp)
  have hds : c''.segs .ds = kdata := (hs''.segs .ds (by decide)).trans hready.ds
  have hes : c''.segs .es = kdata := (hs''.segs .es (by decide)).trans hready.es
  have hcall : (c''.push (c''.regs .esp)).callC P next target
      = some { (c''.push (c''.regs .esp)).push next with eip := target } :=
    if_pos ⟨hpushed.stackWord hready (le_refl 1) (by simp; omega), hds, hes⟩
  refine ⟨entered, { (c''.push (c''.regs .esp)).push next with eip := target }, _, henter, heip, ?_,
    rfl, ?_, ⟨oesp, ugs, ufs, ues, uds, ucs, rfl⟩, ?_⟩
  · rw [trapEntry, henter]
    change ((entered.run P (vectorCode n ++ alltraps)).bind fun c => c.callC P next target) = _
    rw [hrun', hrun'']
    exact hcall
  · change c''.segs .cs = kcode
    rw [hsegs'', hsegs', hcs]
  · have hesp : c''.regs .esp = trapframeAddr c := hs''.stack.pointer
    have hsaved := hpushed.push (by simp) next
    rw [hesp] at hsaved
    rw [hesp]
    exact ⟨hsaved.stack, hsaved.regs, hsaved.segs⟩

end Entry

/-! ### `trap` -/

/-- What `trap` does about a trap: its number, the registers of the interrupted code. -/
def trapEvent (c : Cpu) (n : ℕ) : TrapEvent :=
  if n = tSyscall then
    .syscall (c.regs .eax) [c.regs .ebx, c.regs .ecx, c.regs .edx, c.regs .esi, c.regs .edi,
      c.regs .ebp]
  else
    .interrupt (BitVec.ofNat 32 (n - 32))

/-- The registers that it has afterwards. -/
def regsAfter (handleSyscall : BitVec 32 → List (BitVec 32) → BitVec 32) (c : Cpu) (n : ℕ) :
    Reg → BitVec 32 :=
  if n = tSyscall then
    Function.update c.regs .eax (handleSyscall (c.regs .eax)
      [c.regs .ebx, c.regs .ecx, c.regs .edx, c.regs .esi, c.regs .edi, c.regs .ebp])
  else
    c.regs

theorem regsAfter_esp (handleSyscall : BitVec 32 → List (BitVec 32) → BitVec 32) (c : Cpu) (n : ℕ) :
    regsAfter handleSyscall c n .esp = c.regs .esp := by
  unfold regsAfter
  split
  · exact Function.update_of_ne (by decide) _ _
  · rfl

section Trap

variable {c : Cpu} {n : ℕ} {err : Option (BitVec 32)} {mem : Memory} {tf : BitVec 32}
  {frame : List (BitVec 32)}

theorem trap_spec (handleSyscall : BitVec 32 → List (BitVec 32) → BitVec 32)
    (hframe : IsTrapframe c n err frame) (hmem : Holds mem tf frame) (hn : n < 256) :
    (n < 32 → trap handleSyscall mem tf = .error (BitVec.ofNat 32 n)) ∧
    (32 ≤ n → ∃ mem' frame', trap handleSyscall mem tf = .ok (trapEvent c n, mem') ∧
      IsTrapframe { c with regs := regsAfter handleSyscall c n } n err frame' ∧
      Holds mem' tf frame' ∧ ∀ x, ¬ Within tf 68 x → mem' x = mem x) := by
  obtain ⟨oesp, ugs, ufs, ues, uds, ucs, rfl⟩ := hframe
  have hedi := hmem.head
  have hesi : getWord mem (tf + 4) = _ := hmem.get (n := 1) rfl
  have hebp : getWord mem (tf + 8) = _ := hmem.get (n := 2) rfl
  have hebx : getWord mem (tf + 16) = _ := hmem.get (n := 4) rfl
  have hedx : getWord mem (tf + 20) = _ := hmem.get (n := 5) rfl
  have hecx : getWord mem (tf + 24) = _ := hmem.get (n := 6) rfl
  have heax : getWord mem (tf + 28) = _ := hmem.get (n := 7) rfl
  have htrapno : getWord mem (tf + 48) = _ := hmem.get (n := 12) rfl
  unfold trap
  dsimp only
  rw [hedi, hesi, hebp, hebx, hedx, hecx, heax, htrapno]
  constructor
  · intro hlt
    rw [if_neg (by bv_omega), if_neg (by bv_omega)]
  · intro hge
    by_cases hs : n = tSyscall
    · have hno : BitVec.ofNat 32 n = 0x80 := by
        rw [hs]
        rfl
      rw [if_pos hno, trapEvent, if_pos hs, regsAfter, if_pos hs]
      refine ⟨_, _, rfl, ⟨oesp, ugs, ufs, ues, uds, ucs, rfl⟩, ?_, ?_⟩
      · exact hmem.set (by simp) (n := 7) (by simp) _
      · intro x hx
        refine putWord_of_not_within ?_
        rw [Within] at hx ⊢
        bv_omega
    · have hno : BitVec.ofNat 32 n ≠ 0x80 := by
        unfold tSyscall at hs
        bv_omega
      have hirq : BitVec.ofNat 32 n - 32 = BitVec.ofNat 32 (n - 32) := by bv_omega
      rw [if_neg hno, if_pos (by bv_omega), trapEvent, if_neg hs, regsAfter, if_neg hs, hirq]
      exact ⟨mem, _, rfl, ⟨oesp, ugs, ufs, ues, uds, ucs, rfl⟩, hmem, fun _ _ => rfl⟩

end Trap

/-! ### Going back -/

section Return

variable {P : Processor} {c c' : Cpu} {w : BitVec 32} {ws : List (BitVec 32)}

@[simp] theorem drop_esp (c : Cpu) : c.drop.regs .esp = c.regs .esp + 4 := by
  simp [Cpu.drop, Cpu.set]

@[simp] theorem drop_regs (c : Cpu) {r : Reg} (hr : r ≠ .esp) : c.drop.regs r = c.regs r :=
  Function.update_of_ne hr _ _

@[simp] theorem popReg_regs (c : Cpu) {r r' : Reg} (hr : r' ≠ r) :
    (c.popReg r).regs r' = c.drop.regs r' :=
  Function.update_of_ne hr _ _

/-- A word is taken from the stack. -/
theorem holds_drop (h : Holds c.mem (c.regs .esp) (w :: ws)) :
    Holds c.drop.mem (c.drop.regs .esp) ws := by
  rw [drop_esp]
  exact h.tail

theorem holds_popReg (h : Holds c.mem (c.regs .esp) (w :: ws)) {r : Reg} (hr : r ≠ .esp) :
    Holds (c.popReg r).mem ((c.popReg r).regs .esp) ws := by
  rw [popReg_regs c hr.symm]
  exact holds_drop h

theorem popReg_self (h : Holds c.mem (c.regs .esp) (w :: ws)) (r : Reg) :
    (c.popReg r).regs r = w :=
  (Function.update_self _ _ _).trans h.head

/-- `pop` of a register. -/
theorem run_popReg (h : c.StackWord P (c.regs .esp)) (r : Reg) (is : List Instr) :
    c.run P (.popReg r :: is) = (c.popReg r).run P is :=
  Cpu.run_cons ⟨fun _ ha => List.mem_singleton.mp ha ▸ h, fun _ hv => absurd hv List.not_mem_nil⟩ is

theorem setWidth_append (u v : BitVec 16) : (u ++ v : BitVec 32).setWidth 16 = v := by
  apply BitVec.eq_of_getLsbD_eq
  intro i hi
  have happ := BitVec.getLsbD_append (x := u) (y := v) (i := i)
  rw [if_pos hi] at happ
  rw [BitVec.getLsbD_setWidth, decide_eq_true hi, Bool.true_and]
  exact happ

/-- `popl` of a segment register. -/
theorem run_popSeg {u v : BitVec 16} (h : Holds c.mem (c.regs .esp) ((u ++ v) :: ws))
    (hword : c.StackWord P (c.regs .esp)) (hv : v = kdata ∨ v = 0) (s : Seg) (is : List Instr) :
    c.run P (.popSeg s :: is) = (c.drop.setSeg s v).run P is ∧
      Holds (c.drop.setSeg s v).mem ((c.drop.setSeg s v).regs .esp) ws := by
  have htop : c.top.setWidth 16 = v := by rw [Cpu.top, h.head, setWidth_append]
  refine ⟨?_, holds_drop h⟩
  rw [← htop]
  refine Cpu.run_cons ⟨fun a ha => ?_, fun w hw => ?_⟩ is
  · exact List.mem_singleton.mp ha ▸ hword
  · rw [List.mem_singleton.mp hw, htop]
    exact hv

/-- `popal`. -/
theorem run_popal {edi esi ebp oesp ebx edx ecx eax : BitVec 32}
    (hwords : ∀ i < 8, c.StackWord P (c.regs .esp + BitVec.ofNat 32 (4 * i)))
    (h : Holds c.mem (c.regs .esp)
      (edi :: esi :: ebp :: oesp :: ebx :: edx :: ecx :: eax :: ws)) (is : List Instr) :
    ∃ c' : Cpu, c.run P (.popal :: is) = c'.run P is ∧ Holds c'.mem (c'.regs .esp) ws ∧
      c'.segs = c.segs ∧ c'.mem = c.mem ∧ c'.regs .esp = c.regs .esp + 32 ∧
      c'.regs .edi = edi ∧ c'.regs .esi = esi ∧ c'.regs .ebp = ebp ∧ c'.regs .ebx = ebx ∧
      c'.regs .edx = edx ∧ c'.regs .ecx = ecx ∧ c'.regs .eax = eax := by
  have h₁ := holds_popReg h (r := .edi) (by decide)
  have h₂ := holds_popReg h₁ (r := .esi) (by decide)
  have h₃ := holds_popReg h₂ (r := .ebp) (by decide)
  have h₄ := holds_drop h₃
  have h₅ := holds_popReg h₄ (r := .ebx) (by decide)
  have h₆ := holds_popReg h₅ (r := .edx) (by decide)
  have h₇ := holds_popReg h₆ (r := .ecx) (by decide)
  have h₈ := holds_popReg h₇ (r := .eax) (by decide)
  refine ⟨c.exec P .popal, Cpu.run_cons ⟨fun a ha => ?_, fun w hw => ?_⟩ is, h₈, rfl, rfl, ?_⟩
  · obtain ⟨i, hi, rfl⟩ := List.mem_map.mp ha
    refine hwords i ?_
    simp only [List.mem_cons, List.not_mem_nil, or_false] at hi
    omega
  · exact absurd hw List.not_mem_nil
  · simp only [Cpu.exec]
    simp [popReg_self h, popReg_self h₁, popReg_self h₂, popReg_self h₄, popReg_self h₅,
      popReg_self h₆, popReg_self h₇, BitVec.add_assoc]

/-- The segment registers, and the words above them that are not popped. -/
theorem run_popSegs {ugs ufs ues uds gs fs es ds : BitVec 16} {trapno err : BitVec 32}
    (hwords : ∀ i < 4, c.StackWord P (c.regs .esp + BitVec.ofNat 32 (4 * i)))
    (hgs : gs = kdata ∨ gs = 0) (hfs : fs = kdata ∨ fs = 0) (hes : es = kdata) (hds : ds = kdata)
    (h : Holds c.mem (c.regs .esp) ((ugs ++ gs) :: (ufs ++ fs) :: (ues ++ es) :: (uds ++ ds) ::
      trapno :: err :: ws)) :
    ∃ c' : Cpu,
      c.run P [.popSeg .gs, .popSeg .fs, .popSeg .es, .popSeg .ds, .addEsp 8] = some c' ∧
      Holds c'.mem (c'.regs .esp) ws ∧ c'.mem = c.mem ∧
      (∀ r, r ≠ .esp → c'.regs r = c.regs r) ∧ c'.regs .esp = c.regs .esp + 24 ∧
      c'.segs .gs = gs ∧ c'.segs .fs = fs ∧ c'.segs .es = es ∧ c'.segs .ds = ds ∧
      c'.segs .cs = c.segs .cs ∧ c'.segs .ss = c.segs .ss := by
  have hss := (hwords 0 (by decide)).1
  have hword : ∀ {c' : Cpu} (i : ℕ), i < 4 → c'.segs .ss = c.segs .ss →
      c'.regs .esp = c.regs .esp + BitVec.ofNat 32 (4 * i) → c'.StackWord P (c'.regs .esp) := by
    intro c' i hi hss' hesp
    rw [hesp]
    exact ⟨hss'.trans hss, (hwords i hi).2⟩
  obtain ⟨hrun₁, h₁⟩ := run_popSeg h (hword 0 (by decide) rfl (by simp)) hgs .gs
    [.popSeg .fs, .popSeg .es, .popSeg .ds, .addEsp 8]
  obtain ⟨hrun₂, h₂⟩ := run_popSeg h₁ (hword 1 (by decide) rfl (by simp [Cpu.setSeg])) hfs .fs
    [.popSeg .es, .popSeg .ds, .addEsp 8]
  obtain ⟨hrun₃, h₃⟩ := run_popSeg h₂
    (hword 2 (by decide) rfl (by simp [Cpu.setSeg, BitVec.add_assoc])) (.inl hes) .es
    [.popSeg .ds, .addEsp 8]
  obtain ⟨hrun₄, h₄⟩ := run_popSeg h₃
    (hword 3 (by decide) rfl (by simp [Cpu.setSeg, BitVec.add_assoc])) (.inl hds) .ds
    [.addEsp 8]
  generalize hlast : ((((c.drop.setSeg .gs gs).drop.setSeg .fs fs).drop.setSeg .es es).drop.setSeg
    .ds ds) = c₄ at hrun₄ h₄
  have hesp : c₄.regs .esp = c.regs .esp + 16 := by
    simp [← hlast, Cpu.setSeg, BitVec.add_assoc]
  have hrun₅ : c₄.run P [.addEsp 8] = some (c₄.exec P (.addEsp 8)) :=
    Cpu.run_cons ⟨fun _ ha => absurd ha List.not_mem_nil, fun _ hv => absurd hv List.not_mem_nil⟩ []
  refine ⟨c₄.exec P (.addEsp 8), ?_, ?_, ?_, fun r hr => ?_, ?_, ?_⟩
  · rw [hrun₁, hrun₂, hrun₃, hrun₄, hrun₅]
  · have h₅ := h₄.drop 2
    simpa [Cpu.exec, Cpu.set] using h₅
  · simp [← hlast, Cpu.exec, Cpu.set, Cpu.setSeg, Cpu.drop]
  · simp [← hlast, Cpu.exec, Cpu.set, Cpu.setSeg, hr]
  · simp only [Cpu.exec, Cpu.set, Function.update_self, hesp, BitVec.add_assoc]
    rfl
  · simp [← hlast, Cpu.exec, Cpu.set, Cpu.setSeg, Cpu.drop]

/-- `iret` to the kernel. -/
theorem iret_spec {c₀ : Cpu} {ucs : BitVec 16} (hcs₀ : c₀.segs .cs = kcode)
    (hcs : c.segs .cs = kcode)
    (hwords : ∀ i < 3, c.StackWord P (c.regs .esp + BitVec.ofNat 32 (4 * i)))
    (h : Holds c.mem (c.regs .esp) [c₀.eip, ucs ++ c₀.segs .cs, c₀.eflags]) :
    ∃ c' : Cpu, c.iret P = some c' ∧ c'.eip = c₀.eip ∧ c'.eflags = c₀.eflags ∧ c'.mem = c.mem ∧
      (∀ r, r ≠ .esp → c'.regs r = c.regs r) ∧ c'.regs .esp = c.regs .esp + 12 ∧
      c'.segs .cs = c₀.segs .cs ∧ ∀ s, s ≠ .cs → c'.segs s = c.segs s := by
  have h₁ := holds_drop h
  have h₂ := holds_drop h₁
  have hnew : c.drop.top.setWidth 16 = c₀.segs .cs := by
    rw [Cpu.top, h₁.head, setWidth_append]
  refine ⟨c.iretSame, if_pos ⟨hwords, hcs, hnew.trans hcs₀⟩, h.head, h₂.head, rfl, fun r hr => ?_,
    ?_, ?_, fun s hs => ?_⟩
  · simp [Cpu.iretSame, hr]
  · simp [Cpu.iretSame, BitVec.add_assoc]
  · simp [Cpu.iretSame, hnew]
  · simp [Cpu.iretSame, hs]

/-- **`trap_return` restores what the trap frame has.** -/
theorem trapReturn_spec {c₀ : Cpu} {d n : ℕ} {err : Option (BitVec 32)} {frame : List (BitVec 32)}
    (hready : P.Ready c₀ d) (hd : 68 ≤ d) (hframe : IsTrapframe c₀ n err frame)
    (hmem : Holds c.mem (trapframeAddr c₀) frame)
    (harg : getWord c.mem (c.regs .esp + 4) = trapframeAddr c₀)
    (hargs : ∀ x, Within (c.regs .esp) 8 x → x ∈ below (c₀.regs .esp) d)
    (hcs : c.segs .cs = kcode) (hss : c.segs .ss = kdata) :
    trapReturn P c = some { c₀ with mem := c.mem } := by
  have hroom := hready.room
  obtain ⟨oesp, ugs, ufs, ues, uds, ucs, rfl⟩ := hframe
  -- the argument becomes the stack pointer
  have hword₀ : c.StackWord P (c.regs .esp) := by
    refine ⟨hss, fun k hk => hready.stack _ (hargs _ ?_)⟩
    rw [Within]
    bv_omega
  have hword₁ : (c.popReg .eax).StackWord P ((c.popReg .eax).regs .esp) := by
    refine ⟨hss, fun k hk => hready.stack _ (hargs _ ?_)⟩
    rw [popReg_regs c (by decide), drop_esp, Within]
    bv_omega
  have hesp : ((c.popReg .eax).popReg .esp).regs .esp = trapframeAddr c₀ := by
    rw [← harg, ← drop_esp, ← popReg_regs c (r := .eax) (by decide)]
    simp [Cpu.popReg, Cpu.set, Cpu.top]
    rfl
  have hmem₀ : ((c.popReg .eax).popReg .esp).mem = c.mem := rfl
  have hsegs₀ : ((c.popReg .eax).popReg .esp).segs = c.segs := rfl
  -- the words of the trap frame are on the stack
  have hwords : ∀ {c' : Cpu} {i j : ℕ}, c'.segs .ss = kdata → i + j < 17 →
      c'.regs .esp = trapframeAddr c₀ + BitVec.ofNat 32 (4 * i) →
        c'.StackWord P (c'.regs .esp + BitVec.ofNat 32 (4 * j)) := by
    intro c' i j hss' hij hesp'
    have hplace : c'.regs .esp + BitVec.ofNat 32 (4 * j)
        = c₀.regs .esp - BitVec.ofNat 32 (4 * (17 - (i + j))) := by
      rw [hesp', trapframeAddr]
      bv_omega
    rw [hplace]
    exact hready.stackWord (hss'.trans hready.ss.symm) (by omega) (by omega)
  rw [← hesp, ← hmem₀] at hmem
  rw [trapReturn, trapReturnCode, run_popReg hword₀, run_popReg hword₁]
  generalize (c.popReg .eax).popReg .esp = c' at *
  obtain ⟨c₁, hrun₁, h₁, hsegs₁, hmem₁, hesp₁, hregs₁⟩ := run_popal (P := P)
    (fun i hi => hwords (i := 0) (by rw [hsegs₀, hss]) (by omega) (by rw [hesp]; simp)) hmem
    [.popSeg .gs, .popSeg .fs, .popSeg .es, .popSeg .ds, .addEsp 8]
  obtain ⟨c₂, hrun₂, h₂, hmem₂, hregs₂, hesp₂, hgs₂, hfs₂, hes₂, hds₂, hcs₂, hss₂⟩ :=
    run_popSegs (P := P)
      (fun i hi => hwords (i := 8) (by rw [hsegs₁, hsegs₀, hss]) (by omega) (by rw [hesp₁, hesp]; rfl))
      hready.gs hready.fs hready.es hready.ds h₁
  obtain ⟨c₃, hrun₃, heip, hflags, hmem₃, hregs₃, hesp₃, hcs₃, hsegs₃⟩ := iret_spec hready.cs
    (by rw [hcs₂, hsegs₁, hsegs₀, hcs]) (fun i hi => hwords (i := 14) (by rw [hss₂, hsegs₁, hsegs₀, hss]) (by omega)
      (by rw [hesp₂, hesp₁, hesp, BitVec.add_assoc]; rfl)) h₂
  rw [hrun₁, hrun₂]
  refine hrun₃.trans (congrArg some ?_)
  have hother : ∀ r, r ≠ .esp → c₃.regs r = c₁.regs r := fun r hr =>
    (hregs₃ r hr).trans (hregs₂ r hr)
  obtain ⟨hedi, hesi, hebp, hebx, hedx, hecx, heax⟩ := hregs₁
  apply Cpu.ext
  · funext r
    cases r with
    | eax => exact (hother _ (by decide)).trans heax
    | ecx => exact (hother _ (by decide)).trans hecx
    | edx => exact (hother _ (by decide)).trans hedx
    | ebx => exact (hother _ (by decide)).trans hebx
    | ebp => exact (hother _ (by decide)).trans hebp
    | esi => exact (hother _ (by decide)).trans hesi
    | edi => exact (hother _ (by decide)).trans hedi
    | esp =>
        dsimp only
        rw [hesp₃, hesp₂, hesp₁, hesp, trapframeAddr]
        bv_omega
  · funext s
    cases s with
    | cs => exact hcs₃
    | ss =>
        dsimp only
        rw [hsegs₃ _ (by decide), hss₂, hsegs₁, hsegs₀, hss, hready.ss]
    | ds => exact (hsegs₃ _ (by decide)).trans hds₂
    | es => exact (hsegs₃ _ (by decide)).trans hes₂
    | fs => exact (hsegs₃ _ (by decide)).trans hfs₂
    | gs => exact (hsegs₃ _ (by decide)).trans hgs₂
  · exact heip
  · exact hflags
  · rw [hmem₃, hmem₂, hmem₁, hmem₀]

end Return

/-! ### A whole trap -/

/-- **A trap**, from the interrupt until the interrupted kernel goes on: exceptions stop the kernel;
after an interrupt or a system call all registers are as they were, of which a system call has
changed `eax`; of memory, only the kernel's data and the stack below the stack pointer have been
used. -/
structure TrapRound (P : Processor) (handleSyscall : BitVec 32 → List (BitVec 32) → BitVec 32)
    (vectors : ℕ → BitVec 32) (c : Cpu) (d n : ℕ) (err : Option (BitVec 32))
    (next target : BitVec 32) (entered c₁ : Cpu) (frame : List (BitVec 32)) : Prop where
  /-- The processor goes on at the vector of the trap. -/
  enter : P.enter n err c = some entered
  vector : entered.eip = vectors n
  /-- `trap` is called with a trap frame. -/
  entry : trapEntry P next target n err c = some c₁
  target : c₁.eip = target
  sp : c₁.regs .esp = trapframeAddr c - 8
  arg : getWord c₁.mem (c₁.regs .esp + 4) = trapframeAddr c
  isFrame : IsTrapframe c n err frame
  holds : Holds c₁.mem (trapframeAddr c) frame
  stops : n < 32 → trap handleSyscall c₁.mem (trapframeAddr c) = .error (BitVec.ofNat 32 n)
  resumes : 32 ≤ n → ∃ mem, trap handleSyscall c₁.mem (trapframeAddr c) = .ok (trapEvent c n, mem) ∧
    ∀ (data : Set (BitVec 32)) (c₂ : Cpu), (∀ x, Within (trapframeAddr c) 68 x → x ∉ data) →
      Compiled (below (trapframeAddr c) (d - 68)) data mem (trapframeAddr c) c₁ c₂ →
        trapReturn P c₂ = some { c with regs := regsAfter handleSyscall c n, mem := c₂.mem } ∧
        ∀ x, x ∉ below (c.regs .esp) d → x ∉ data → c₂.mem x = c.mem x

section Round

variable {P : Processor} {handleSyscall : BitVec 32 → List (BitVec 32) → BitVec 32}
  {vectors : ℕ → BitVec 32} {c : Cpu} {d n : ℕ} {err : Option (BitVec 32)}
  {next target : BitVec 32}

theorem trapRound_spec (P : Processor) (handleSyscall : BitVec 32 → List (BitVec 32) → BitVec 32)
    (hready : P.Ready c d) (hd : 76 ≤ d) (hidt : IdtReady P vectors c.mem) (hn : n < 256)
    (herr : err.isSome = hasErrorCode n) (next target : BitVec 32) :
    ∃ entered c₁ frame,
      TrapRound P handleSyscall vectors c d n err next target entered c₁ frame := by
  have hroom := hready.room
  obtain ⟨entered, c₁, frame, henter, heip, hentry, htarget, hcs, hframe, hs⟩ :=
    entry_spec hready hd hidt hn herr next target
  have hlen := hframe.length
  have hsp : c₁.regs .esp = trapframeAddr c - 8 := by
    rw [hs.stack.pointer, List.length_cons, List.length_cons, hlen, trapframeAddr]
    bv_omega
  have harg : Holds c₁.mem (c₁.regs .esp + 4) (trapframeAddr c :: frame) := hs.stack.holds.tail
  have hplace : c₁.regs .esp + 4 + 4 = trapframeAddr c := by
    rw [hsp]
    bv_omega
  have hmem : Holds c₁.mem (trapframeAddr c) frame := hplace ▸ harg.tail
  obtain ⟨hpanic, hgo⟩ := trap_spec handleSyscall hframe hmem hn
  refine ⟨entered, c₁, frame, henter, heip, hentry, htarget, hsp, harg.head, hframe, hmem, hpanic,
    fun hge => ?_⟩
  obtain ⟨mem, frame', htrap, hframe', hmem', hkeep⟩ := hgo hge
  refine ⟨mem, htrap, fun data c₂ hdata hc => ⟨?_, fun x hx hxdata => ?_⟩⟩
  · -- the trap frame is neither on the stack of `trap` nor in the kernel's data
    have hholds : Holds c₂.mem (trapframeAddr c) frame' := by
      refine hmem'.congr (by rw [hframe'.length]; decide) fun x hx => ?_
      rw [hframe'.length] at hx
      refine hc.mem x ?_ (hdata x hx)
      rw [mem_below]
      rw [Within] at hx
      bv_omega
    have haddr : trapframeAddr { c with regs := regsAfter handleSyscall c n } = trapframeAddr c :=
      congrArg (· - BitVec.ofNat 32 68) (regsAfter_esp handleSyscall c n)
    have hready' : P.Ready { c with regs := regsAfter handleSyscall c n } (d - 0) := by
      refine hready.move ?_ (Nat.zero_le d) ?_
      · rfl
      · rw [BitVec.sub_zero]
        exact regsAfter_esp handleSyscall c n
    refine trapReturn_spec hready' (by omega) hframe' (haddr.symm ▸ hholds) (haddr.symm ▸ hc.arg)
      (fun x hx => ?_) (hc.cs.trans hcs) (hc.ss.trans ((hs.segs .ss (by decide)).trans hready.ss))
    have hx' := hc.sp x hx
    rw [mem_below, trapframeAddr] at hx'
    rw [mem_below]
    dsimp only
    rw [regsAfter_esp]
    bv_omega
  · have hout : ¬ Within (trapframeAddr c) 68 x ∧ x ∉ below (trapframeAddr c) (d - 68) := by
      rw [mem_below] at hx ⊢
      rw [Within, trapframeAddr]
      bv_omega
    rw [hc.mem x hout.2 hxdata, hkeep x hout.1]
    exact hs.stack.frame_below (by simp only [List.length_cons, hlen]; omega) hx

/-- `trap` writes nothing but the value of a system call. -/
theorem trap_mem {mem mem' : Memory} {tf : BitVec 32} {e : TrapEvent}
    (h : trap handleSyscall mem tf = .ok (e, mem')) {x : BitVec 32} (hx : ¬ Within (tf + 28) 4 x) :
    mem' x = mem x := by
  unfold trap at h
  dsimp only at h
  split at h
  · rw [← (Prod.mk.inj (Except.ok.inj h)).2]
    exact putWord_of_not_within hx
  · split at h
    · rw [← (Prod.mk.inj (Except.ok.inj h)).2]
    · cases h

/-- A compiled `trap` that calls `trap_return` from where it was entered. -/
theorem TrapRound.compiled {entered c₁ : Cpu} {frame : List (BitVec 32)} {mem : Memory}
    {e : TrapEvent} (h : TrapRound P handleSyscall vectors c d n err next target entered c₁ frame)
    (hd : 76 ≤ d) (hd' : d ≤ 2 ^ 32)
    (htrap : trap handleSyscall c₁.mem (trapframeAddr c) = .ok (e, mem)) :
    Compiled (below (trapframeAddr c) (d - 68)) ∅ mem (trapframeAddr c) c₁
      { c₁ with mem := mem } where
  sp x hx := by
    rw [h.sp, Within] at hx
    rw [mem_below]
    bv_omega
  arg := by
    rw [← h.arg]
    refine getWord_congr fun x hx => trap_mem htrap ?_
    have hsp := h.sp
    rw [Within] at hx ⊢
    bv_omega
  mem x _ _ := rfl
  cs := rfl
  ss := rfl

end Round

theorem IdtReady.congr {P : Processor} {vectors : ℕ → BitVec 32} {mem mem' : Memory}
    (h : IdtReady P vectors mem) (heq : ∀ x, InIdt P x → mem' x = mem x) :
    IdtReady P vectors mem' := by
  intro n hn
  have hsame : ∀ a, (∀ x, Within a 4 x → InIdt P x) → getWord mem' a = getWord mem a :=
    fun a ha => getWord_congr fun x hx => heq x (ha x hx)
  unfold Processor.gateLow Processor.gateHigh
  rw [hsame _ fun x hx => ?_, hsame _ fun x hx => ?_]
  · exact h n hn
  · rw [Within, gateAddr] at hx
    rw [InIdt, Within]
    bv_omega
  · rw [Within, gateAddr] at hx
    rw [InIdt, Within]
    bv_omega

/-- **Every trap of the kernel**, when the table is that of `init_idt`, the kernel runs with its own
segments and its stack is mapped. -/
theorem trap_resumes (P : Processor) (handleSyscall : BitVec 32 → List (BitVec 32) → BitVec 32)
    (vectors : ℕ → BitVec 32) (mem₀ : Memory) {c : Cpu} {d : ℕ} (hready : P.Ready c d)
    (hd : 76 ≤ d) (hidt : ∀ x, InIdt P x → c.mem x = initIdt P.idt vectors mem₀ x) {n : ℕ}
    (hn : n < 256) {err : Option (BitVec 32)} (herr : err.isSome = hasErrorCode n)
    (next target : BitVec 32) :
    ∃ entered c₁ frame,
      TrapRound P handleSyscall vectors c d n err next target entered c₁ frame :=
  trapRound_spec P handleSyscall hready hd ((gate_initIdt P vectors mem₀).congr hidt) hn herr next
    target

/-- The kernel runs at `0x400000`, with a table at `0x1000` and a stack below `0x7000`. -/
def kernelCpu : Cpu where
  regs r := if r = .esp then 0x7000 else 0
  segs s := if s = .cs then kcode else if s = .fs ∨ s = .gs then 0 else kdata
  eip := 0x400000
  eflags := 0x202
  mem x :=
    if (x - 0x1000).toNat < 2048 then
      initIdt 0x1000 (fun n => BitVec.ofNat 32 (0x100000 + n)) (fun _ => 0) x
    else if x = 0x7004 then 5
    else 0

/-- The pages below `0x8000` are mapped. -/
def lowProcessor : Processor where
  upper _ _ := 0
  addFlags c _ := c.eflags
  idt := 0x1000
  mapped x := decide (x.toNat < 0x8000)

theorem ready_kernelCpu : lowProcessor.Ready kernelCpu 0x1000 where
  cs := rfl
  ss := rfl
  ds := rfl
  es := rfl
  fs := .inr rfl
  gs := .inr rfl
  table x hx := by
    rw [InIdt, Within] at hx
    refine decide_eq_true ?_
    have hx' : (x - 0x1000).toNat < 2048 := hx
    bv_omega
  stack x hx := by
    have hx' : (x - (0x7000 - BitVec.ofNat 32 0x1000)).toNat < 0x1000 := hx
    refine decide_eq_true ?_
    bv_omega
  room := by decide

/-- The timer interrupts the kernel. -/
theorem trap_resumes_timer :
    ∃ entered c₁ c₂, lowProcessor.enter 32 none kernelCpu = some entered ∧
      entered.eip = 0x100020 ∧
      trapEntry lowProcessor 0x100500 0x100900 32 none kernelCpu = some c₁ ∧
      getWord c₁.mem (c₁.regs .esp + 4) = 0x7000 - 68 ∧
      trap (fun _ _ => 0) c₁.mem (0x7000 - 68) = .ok (.interrupt 0, c₂.mem) ∧
      trapReturn lowProcessor c₂ = some { kernelCpu with mem := c₂.mem } := by
  obtain ⟨entered, c₁, frame, h⟩ := trap_resumes lowProcessor (fun _ _ => 0)
    (fun n => BitVec.ofNat 32 (0x100000 + n)) (fun _ => 0) ready_kernelCpu (by decide)
    (fun x hx => if_pos hx) (n := 32) (by decide)
    (by decide : (none : Option (BitVec 32)).isSome = hasErrorCode 32) 0x100500 0x100900
  obtain ⟨mem, htrap, hback⟩ := h.resumes (by decide)
  have hevent : trapEvent kernelCpu 32 = .interrupt 0 := if_neg (by decide)
  rw [hevent] at htrap
  exact ⟨entered, c₁, { c₁ with mem := mem }, h.enter, h.vector, h.entry, h.arg, htrap,
    (hback ∅ _ (fun _ _ => id) (h.compiled (by decide) (by decide) htrap)).1⟩

/-! ### System calls -/

/-- Code of this privilege level may raise trap `n` by `int`. -/
def Processor.IntAllowed (P : Processor) (c : Cpu) (n : ℕ) : Prop :=
  c.cpl ≤ (P.gateHigh c.mem n).extractLsb' 13 2

/-- What `syscall` loads. -/
def syscallLoads : List (BitVec 32 × Reg) :=
  [(20, .eax), (24, .ebx), (28, .ecx), (32, .edx), (36, .esi), (40, .edi), (44, .ebp)]

/-- `syscall`, up to `int $0x80`. -/
def syscallEntry : List Instr :=
  [.pushReg .ebx, .pushReg .esi, .pushReg .edi, .pushReg .ebp] ++
    syscallLoads.map fun p => .load p.1 p.2

/-- `syscall`, behind it and up to `ret`. -/
def syscallExit : List Instr := [.popReg .ebp, .popReg .edi, .popReg .esi, .popReg .ebx]

/-- At `int $0x80`, with the address behind it. -/
def syscallInt (P : Processor) (next : BitVec 32) (c : Cpu) : Option Cpu := do
  let c ← c.run P syscallEntry
  return { c with eip := next }

/-- From there to the caller of `syscall`. -/
def syscallReturn (P : Processor) (c : Cpu) : Option Cpu := do
  let c ← c.run P syscallExit
  c.ret P

theorem dpl_eq (g : Gatedesc) : g.high.extractLsb' 13 2 = g.dpl := by
  have hskip : g.high.extractLsb' 13 2
      = (g.dpl ++ (g.s ++ (g.type ++ (g.rsv1 ++ g.args)))).extractLsb' 13 2 := by
    refine (extractLsb'_append_right _ _ (by decide)).trans ?_
    exact extractLsb'_append_right _ _ (by decide)
  rw [hskip]
  exact extractLsb'_append_high _ _

/-- **User programs may raise no trap but the system call.** -/
theorem intAllowed_iff {P : Processor} {vectors : ℕ → BitVec 32} {c : Cpu}
    (hidt : IdtReady P vectors c.mem) {n : ℕ} (hn : n < 256) :
    P.IntAllowed c n ↔ c.cpl = 0 ∨ n = tSyscall := by
  rw [Processor.IntAllowed, (hidt n hn).2, dpl_eq, idtGate]
  by_cases hs : n = tSyscall
  · rw [if_pos hs]
    simp only [setgate, dplUser, hs, or_true, iff_true]
    bv_omega
  · rw [if_neg hs]
    simp only [setgate, hs, or_false]
    constructor
    · intro h
      bv_omega
    · intro h
      rw [h]
      decide

section Syscall

variable {P : Processor} {c : Cpu} {d : ℕ} {ra number a₁ a₂ a₃ a₄ a₅ a₆ : BitVec 32}

/-- Loads from the stack that leave the stack pointer alone. -/
theorem run_loads (l : List (BitVec 32 × Reg)) : ∀ {c : Cpu}, (∀ p ∈ l, p.2 ≠ .esp) →
    (∀ p ∈ l, c.StackWord P (c.regs .esp + p.1)) →
    c.run P (l.map fun p => .load p.1 p.2) = some (l.foldl
      (fun c' p => c'.set p.2 (getWord c.mem (c.regs .esp + p.1))) c) := by
  induction l with
  | nil => exact fun _ _ => rfl
  | cons p l ih =>
      intro c hne hwords
      rw [List.forall_mem_cons] at hne hwords
      have hesp : (c.set p.2 (getWord c.mem (c.regs .esp + p.1))).regs .esp = c.regs .esp :=
        Function.update_of_ne hne.1.symm _ _
      have hallows : c.Allows P (.load p.1 p.2) :=
        ⟨fun a ha => List.mem_singleton.mp ha ▸ hwords.1, fun v hv => absurd hv List.not_mem_nil⟩
      rw [List.map_cons, Cpu.run_cons hallows]
      refine (ih hne.2 fun q hq => ?_).trans ?_
      · rw [Cpu.exec, hesp]
        exact hwords.2 q hq
      · rw [Cpu.exec, hesp]
        rfl

/-- The registers that the caller wants back are pushed, and the arguments are loaded. -/
theorem syscallEntry_spec (hready : P.Ready c d) (hd : 16 ≤ d)
    (hmapped : ∀ x, Within (c.regs .esp) 32 x → P.mapped x = true) (next : BitVec 32)
    (hargs : Holds c.mem (c.regs .esp) [ra, number, a₁, a₂, a₃, a₄, a₅, a₆]) :
    ∃ c' : Cpu, syscallInt P next c = some c' ∧
      Pushed c.mem (c.regs .esp) c'.mem (c'.regs .esp)
        [c.regs .ebp, c.regs .edi, c.regs .esi, c.regs .ebx] ∧
      c'.segs = c.segs ∧ c'.eflags = c.eflags ∧ c'.eip = next ∧
      c'.regs .eax = number ∧ c'.regs .ebx = a₁ ∧ c'.regs .ecx = a₂ ∧ c'.regs .edx = a₃ ∧
      c'.regs .esi = a₄ ∧ c'.regs .edi = a₅ ∧ c'.regs .ebp = a₆ := by
  have hroom := hready.room
  obtain ⟨b₁, hrun₁, hsegs₁, hflags₁, h₁⟩ := (Saved.refl c).run_pushReg hready (r := .ebx)
    (by simp; omega) (by decide)
    ([.pushReg .esi, .pushReg .edi, .pushReg .ebp] ++ syscallLoads.map fun p => .load p.1 p.2)
  obtain ⟨b₂, hrun₂, hsegs₂, hflags₂, h₂⟩ := h₁.run_pushReg hready (r := .esi) (by simp; omega)
    (by decide) ([.pushReg .edi, .pushReg .ebp] ++ syscallLoads.map fun p => .load p.1 p.2)
  obtain ⟨b₃, hrun₃, hsegs₃, hflags₃, h₃⟩ := h₂.run_pushReg hready (r := .edi) (by simp; omega)
    (by decide) ([.pushReg .ebp] ++ syscallLoads.map fun p => .load p.1 p.2)
  obtain ⟨b, hrun₄, hsegs₄, hflags₄, h₄⟩ := h₃.run_pushReg hready (r := .ebp) (by simp; omega)
    (by decide) (syscallLoads.map fun p => .load p.1 p.2)
  have hsegs : b.segs = c.segs := by rw [hsegs₄, hsegs₃, hsegs₂, hsegs₁]
  have hesp : b.regs .esp = c.regs .esp - 16 := h₄.stack.pointer
  have hargs' := h₄.stack.above hargs (by simp)
  have hwords : ∀ p ∈ syscallLoads, b.StackWord P (b.regs .esp + p.1) := by
    intro p hp
    refine ⟨by rw [hsegs]; exact hready.ss, fun k hk => hmapped _ ?_⟩
    have hdisp : 16 ≤ p.1.toNat ∧ p.1.toNat ≤ 44 := by
      simp only [syscallLoads, List.mem_cons, List.not_mem_nil, or_false] at hp
      rcases hp with rfl | rfl | rfl | rfl | rfl | rfl | rfl <;> decide
    rw [hesp, Within]
    bv_omega
  have h20 : getWord b.mem (b.regs .esp + 20) = number := hargs'.get (n := 5) rfl
  have h24 : getWord b.mem (b.regs .esp + 24) = a₁ := hargs'.get (n := 6) rfl
  have h28 : getWord b.mem (b.regs .esp + 28) = a₂ := hargs'.get (n := 7) rfl
  have h32 : getWord b.mem (b.regs .esp + 32) = a₃ := hargs'.get (n := 8) rfl
  have h36 : getWord b.mem (b.regs .esp + 36) = a₄ := hargs'.get (n := 9) rfl
  have h40 : getWord b.mem (b.regs .esp + 40) = a₅ := hargs'.get (n := 10) rfl
  have h44 : getWord b.mem (b.regs .esp + 44) = a₆ := hargs'.get (n := 11) rfl
  have hrun : c.run P syscallEntry = b.run P (syscallLoads.map fun p => .load p.1 p.2) := by
    rw [← hrun₄]
    exact hrun₁.trans (hrun₂.trans hrun₃)
  rw [syscallInt, hrun, run_loads _ (by decide) hwords]
  refine ⟨_, rfl, ?_⟩
  simp only [syscallLoads, List.foldl_cons, List.foldl_nil, Cpu.set, h20, h24, h28, h32, h36, h40,
    h44, ne_eq, reduceCtorEq, not_false_eq_true, Function.update_of_ne, Function.update_self]
  refine ⟨h₄.stack, hsegs, ?_, trivial, trivial, trivial, trivial, trivial, trivial, trivial, trivial⟩
  rw [hflags₄, hflags₃, hflags₂, hflags₁]

/-- The registers come back, and the caller goes on. -/
theorem syscallReturn_spec {ebp edi esi ebx : BitVec 32}
    (hwords : ∀ i < 5, c.StackWord P (c.regs .esp + BitVec.ofNat 32 (4 * i)))
    (h : Holds c.mem (c.regs .esp) [ebp, edi, esi, ebx, ra]) :
    ∃ c' : Cpu, syscallReturn P c = some c' ∧ c'.eip = ra ∧ c'.regs .esp = c.regs .esp + 20 ∧
      c'.regs .eax = c.regs .eax ∧ c'.regs .ebp = ebp ∧ c'.regs .edi = edi ∧ c'.regs .esi = esi ∧
      c'.regs .ebx = ebx ∧ c'.segs = c.segs ∧ c'.eflags = c.eflags ∧ c'.mem = c.mem := by
  have h₁ := holds_popReg h (r := .ebp) (by decide)
  have h₂ := holds_popReg h₁ (r := .edi) (by decide)
  have h₃ := holds_popReg h₂ (r := .esi) (by decide)
  have h₄ := holds_popReg h₃ (r := .ebx) (by decide)
  have hword : ∀ {c' : Cpu} (i : ℕ), i < 5 → c'.segs = c.segs →
      c'.regs .esp = c.regs .esp + BitVec.ofNat 32 (4 * i) → c'.StackWord P (c'.regs .esp) := by
    intro c' i hi hsegs hesp
    rw [hesp]
    exact ⟨by rw [hsegs]; exact (hwords i hi).1, (hwords i hi).2⟩
  have hw₀ : c.StackWord P (c.regs .esp) := hword 0 (by decide) rfl (by simp)
  have hw₁ : (c.popReg .ebp).StackWord P ((c.popReg .ebp).regs .esp) :=
    hword 1 (by decide) rfl (by simp)
  have hw₂ : ((c.popReg .ebp).popReg .edi).StackWord P (((c.popReg .ebp).popReg .edi).regs .esp) :=
    hword 2 (by decide) rfl (by simp [BitVec.add_assoc])
  have hw₃ : (((c.popReg .ebp).popReg .edi).popReg .esi).StackWord P
      ((((c.popReg .ebp).popReg .edi).popReg .esi).regs .esp) :=
    hword 3 (by decide) rfl (by simp [BitVec.add_assoc])
  have hw₄ : ((((c.popReg .ebp).popReg .edi).popReg .esi).popReg .ebx).StackWord P
      (((((c.popReg .ebp).popReg .edi).popReg .esi).popReg .ebx).regs .esp) :=
    hword 4 (by decide) rfl (by simp [BitVec.add_assoc])
  have hrun : c.run P syscallExit
      = some ((((c.popReg .ebp).popReg .edi).popReg .esi).popReg .ebx) := by
    rw [syscallExit, run_popReg hw₀, run_popReg hw₁, run_popReg hw₂, run_popReg hw₃]
    rfl
  rw [syscallReturn, hrun]
  refine ⟨_, if_pos hw₄, h₄.head, ?_, ?_, ?_, ?_, ?_, ?_, rfl, rfl, rfl⟩
  · simp [BitVec.add_assoc]
  · simp
  · simp [popReg_self h]
  · simp [popReg_self h₁]
  · simp [popReg_self h₂]
  · simp [popReg_self h₃]

/-- What `syscall` pops on its way back can be read: four words below the stack pointer of its
caller, and one above. -/
theorem Processor.Ready.savedWord (hready : P.Ready c d) (hd : 16 ≤ d)
    (hmapped : ∀ x, Within (c.regs .esp) 32 x → P.mapped x = true) {c' : Cpu}
    (hss : c'.segs .ss = c.segs .ss) (hesp : c'.regs .esp = c.regs .esp - 16) {i : ℕ} (hi : i < 5) :
    c'.StackWord P (c'.regs .esp + BitVec.ofNat 32 (4 * i)) := by
  rw [hesp]
  by_cases hlast : i = 4
  · refine ⟨hss.trans hready.ss, fun k hk => hmapped _ ?_⟩
    rw [Within, hlast]
    bv_omega
  · have hplace : c.regs .esp - 16 + BitVec.ofNat 32 (4 * i)
        = c.regs .esp - BitVec.ofNat 32 (4 * (4 - i)) := by bv_omega
    rw [hplace]
    exact hready.stackWord hss (by omega) (by omega)

/-- **`syscall` returns what `handle_syscall` returns for its arguments**, to its caller in the
kernel, whose registers and stack are as they were. -/
theorem syscall_returns (handleSyscall : BitVec 32 → List (BitVec 32) → BitVec 32)
    (vectors : ℕ → BitVec 32) (mem₀ : Memory) (hready : P.Ready c (d + 16)) (hd : 76 ≤ d)
    (hd' : d + 20 ≤ 2 ^ 32) (hmapped : ∀ x, Within (c.regs .esp) 32 x → P.mapped x = true)
    (hargs : Holds c.mem (c.regs .esp) [ra, number, a₁, a₂, a₃, a₄, a₅, a₆])
    (hidt : ∀ x, InIdt P x → c.mem x = initIdt P.idt vectors mem₀ x)
    (hstack : ∀ x, InIdt P x → x ∉ below (c.regs .esp) 16) (next trapNext target : BitVec 32) :
    ∃ c₀ entered c₁ frame, syscallInt P next c = some c₀ ∧ P.IntAllowed c₀ tSyscall ∧
      TrapRound P handleSyscall vectors c₀ d tSyscall none trapNext target entered c₁ frame ∧
      ∃ mem, trap handleSyscall c₁.mem (trapframeAddr c₀)
          = .ok (.syscall number [a₁, a₂, a₃, a₄, a₅, a₆], mem) ∧
        ∀ (data : Set (BitVec 32)) (c₂ : Cpu),
          -- the trap frame, what `syscall` has pushed, and its return address
          (∀ x, Within (trapframeAddr c₀) 88 x → x ∉ data) →
          Compiled (below (trapframeAddr c₀) (d - 68)) data mem (trapframeAddr c₀) c₁ c₂ →
          ∃ c₃ c₄, trapReturn P c₂ = some c₃ ∧ syscallReturn P c₃ = some c₄ ∧ c₄.eip = ra ∧
            c₄.regs .eax = handleSyscall number [a₁, a₂, a₃, a₄, a₅, a₆] ∧
            c₄.regs .esp = c.regs .esp + 4 ∧ c₄.regs .ebp = c.regs .ebp ∧
            c₄.regs .edi = c.regs .edi ∧ c₄.regs .esi = c.regs .esi ∧
            c₄.regs .ebx = c.regs .ebx ∧ c₄.segs = c.segs ∧ c₄.eflags = c.eflags ∧
            ∀ x, x ∉ below (c.regs .esp) (d + 16) → x ∉ data → c₄.mem x = c.mem x := by
  obtain ⟨c₀, hint, hpush, hsegs, hflags, heip, heax, hebx, hecx, hedx, hesi, hedi, hebp⟩ :=
    syscallEntry_spec hready (by omega) hmapped next hargs
  have hesp : c₀.regs .esp = c.regs .esp - 16 := hpush.pointer
  have hframe₀ : ∀ x, x ∉ below (c.regs .esp) 16 → c₀.mem x = c.mem x := fun x hx =>
    hpush.frame_below (d := 16) (by simp) hx
  have hready₀ : P.Ready c₀ d := by
    have hmove : P.Ready c₀ (d + 16 - 16) := hready.move hsegs (by omega) hesp
    rwa [Nat.add_sub_cancel] at hmove
  have htable : IdtReady P vectors c₀.mem :=
    (gate_initIdt P vectors mem₀).congr fun x hx =>
      (hframe₀ x (hstack x hx)).trans (hidt x hx)
  obtain ⟨entered, c₁, frame, hround⟩ := trapRound_spec P handleSyscall hready₀ hd htable
    (n := tSyscall) (by decide)
    (by decide : (none : Option (BitVec 32)).isSome = hasErrorCode tSyscall) trapNext target
  obtain ⟨mem, htrap, hback⟩ := hround.resumes (by decide)
  have hevent : trapEvent c₀ tSyscall = .syscall number [a₁, a₂, a₃, a₄, a₅, a₆] := by
    rw [trapEvent, if_pos rfl, heax, hebx, hecx, hedx, hesi, hedi, hebp]
  rw [hevent] at htrap
  refine ⟨c₀, entered, c₁, frame, hint, (intAllowed_iff htable (by decide)).mpr (.inr rfl), hround,
    mem, htrap, fun data c₂ hdata hc => ?_⟩
  have htf : trapframeAddr c₀ = c.regs .esp - 84 := by
    rw [trapframeAddr, hesp]
    bv_omega
  obtain ⟨hc₃, hkeep⟩ := hback data c₂ (fun x hx => hdata x (by rw [Within] at hx ⊢; omega)) hc
  have hsaved : Holds c₀.mem (c₀.regs .esp)
      [c.regs .ebp, c.regs .edi, c.regs .esi, c.regs .ebx, ra] := by
    have hreturn : Holds c.mem (c.regs .esp) [ra] := ⟨hargs.head, trivial⟩
    exact hpush.above hreturn (by simp)
  have hsaved₂ : Holds c₂.mem (c₀.regs .esp)
      [c.regs .ebp, c.regs .edi, c.regs .esi, c.regs .ebx, ra] := by
    refine hsaved.congr (by simp) fun x hx => hkeep x ?_ (hdata x ?_)
    · simp only [List.length_cons, List.length_nil, Within] at hx
      rw [mem_below]
      bv_omega
    · simp only [List.length_cons, List.length_nil, Within] at hx
      rw [Within, trapframeAddr]
      bv_omega
  have hregs : ∀ r, r ≠ .eax → regsAfter handleSyscall c₀ tSyscall r = c₀.regs r := by
    intro r hr
    rw [regsAfter, if_pos rfl, Function.update_of_ne hr]
  have hret : regsAfter handleSyscall c₀ tSyscall .eax =
      handleSyscall number [a₁, a₂, a₃, a₄, a₅, a₆] := by
    rw [regsAfter, if_pos rfl, Function.update_self, heax, hebx, hecx, hedx, hesi, hedi, hebp]
  -- behind `trap_return`
  obtain ⟨c₃, hc₃'⟩ : ∃ c₃ : Cpu, c₃ =
      { c₀ with regs := regsAfter handleSyscall c₀ tSyscall, mem := c₂.mem } := ⟨_, rfl⟩
  rw [← hc₃'] at hc₃
  have hsp : c₃.regs .esp = c₀.regs .esp := by
    rw [hc₃']
    exact hregs .esp (by decide)
  have hmem₃ : c₃.mem = c₂.mem := by rw [hc₃']
  have hsegs₃ : c₃.segs = c.segs := by rw [hc₃', hsegs]
  have hwords : ∀ i < 5, c₃.StackWord P (c₃.regs .esp + BitVec.ofNat 32 (4 * i)) := fun i hi =>
    hready.savedWord (by omega) hmapped (by rw [hsegs₃]) (hsp.trans hesp) hi
  obtain ⟨c₄, hret₄, heip₄, hesp₄, heax₄, hebp₄, hedi₄, hesi₄, hebx₄, hsegs₄, hflags₄, hmem₄⟩ :=
    syscallReturn_spec hwords (by rwa [hsp, hmem₃])
  refine ⟨c₃, c₄, hc₃, hret₄, heip₄, ?_, ?_, hebp₄, hedi₄, hesi₄, hebx₄, hsegs₄.trans hsegs₃, ?_,
    fun x hx hxdata => ?_⟩
  · rw [heax₄, hc₃']
    exact hret
  · have hback : ∀ p : BitVec 32, p - 16 + 20 = p + 4 := fun p => by bv_omega
    rw [hesp₄, hsp, hesp, hback]
  · rw [hflags₄, hc₃', hflags]
  · have hout : x ∉ below (c.regs .esp) 16 ∧ x ∉ below (c₀.regs .esp) d := by
      rw [hesp]
      refine ⟨fun h => hx ?_, fun h => hx (below_subset (k := 16) (by omega) h)⟩
      exact below_subset (k := 0) (d := 16) (by omega) (by simpa using h)
    rw [hmem₄, hmem₃, ← hframe₀ x hout.1]
    exact hkeep x hout.2 hxdata

end Syscall

/-- A system call of the kernel: number 5, and six zeros. -/
theorem syscall_returns_kernel :
    ∃ c₀ c₁ c₂ c₃ c₄, syscallInt lowProcessor 0x100400 kernelCpu = some c₀ ∧
      trapEntry lowProcessor 0x100500 0x100900 tSyscall none c₀ = some c₁ ∧
      trapReturn lowProcessor c₂ = some c₃ ∧ syscallReturn lowProcessor c₃ = some c₄ ∧
      c₄.eip = 0 ∧ c₄.regs .eax = 11 ∧ c₄.regs .esp = 0x7004 := by
  have hargs : Holds kernelCpu.mem (kernelCpu.regs .esp) [0, 5, 0, 0, 0, 0, 0, 0] := by
    refine ⟨?_, ?_, ?_, ?_, ?_, ?_, ?_, ?_, trivial⟩ <;> decide +kernel
  obtain ⟨c₀, entered, c₁, frame, hint, -, hround, mem, htrap, hback⟩ :=
    syscall_returns (fun number args => number + BitVec.ofNat 32 args.length)
      (fun n => BitVec.ofNat 32 (0x100000 + n)) (fun _ => 0) (d := 0x1000 - 16) ready_kernelCpu
      (by decide) (by decide)
      (fun x hx => by
        have hx' : (x - 0x7000).toNat < 32 := hx
        refine decide_eq_true ?_
        bv_omega)
      hargs (fun x hx => if_pos hx)
      (fun x hx => by
        have hx' : (x - 0x1000).toNat < 2048 := hx
        show ¬ (x - (0x7000 - BitVec.ofNat 32 16)).toNat < 16
        bv_omega) 0x100400 0x100500 0x100900
  obtain ⟨c₃, c₄, hreturn, hexit, heip, heax, hesp, -⟩ := hback ∅ { c₁ with mem := mem }
    (fun _ _ => id) (hround.compiled (by decide) (by decide) htrap)
  exact ⟨c₀, c₁, _, c₃, c₄, hint, hround.entry, hreturn, hexit, heip, heax, hesp⟩

end Aim.I386
