/-
**Traps on the ARM port.**

An exception takes the processor to a mode with its own `sp`, `lr` and `spsr`.  The six words at
that `sp` are a temporary frame, with which `enter_sys` goes back to SYS mode, and there it builds
the `struct trapframe` on the interrupted stack.  `trap_return` goes the other way through SVC mode.

The temporary frame has `r0` at offset 18 and the vector at offset 16, so the vector is written over
the lower half of `r0`.  And `msr spsr` without fields writes the first and the last byte of `spsr`
only.

Main definitions:

* `Aim.Arm.Cpu` — registers, banked registers and memory;
* `Aim.Arm.takeException` — what the processor does;
* `Aim.Arm.exception`, `Aim.Arm.enterSys`, `Aim.Arm.trapReturn` — `alltraps.S`, instruction by
  instruction;
* `Aim.Arm.RoundTrip` — what building a trap frame and returning from it should do.

Main results:

* `Aim.Arm.enterSys_spec` — the trap frame that is built;
* `Aim.Arm.trapReturn_spec` — what is resumed from a trap frame;
* `Aim.Arm.roundTrip_iff` — **exactly which states survive a trap.**
-/

import AimKernel.ByteMemory
import Mathlib.Data.List.OfFn

set_option relaxedAutoImplicit false
set_option autoImplicit false

namespace Aim.Arm

open ByteMemory

/-! ### The processor -/

/-- The modes that have registers of their own; SYS mode uses those of USR mode. -/
inductive Mode
  | usr
  | fiq
  | irq
  | svc
  | abt
  | und
deriving DecidableEq, Repr

/-- `MODE_MASK`. -/
def modeMask : BitVec 32 := 0x1F

/-- `MODE_SVC`. -/
def modeSvc : BitVec 32 := 0x13

/-- `MODE_SYS`. -/
def modeSys : BitVec 32 := 0x1F

/-- The mode bits of a mode. -/
def Mode.bits : Mode → BitVec 32
  | .usr => 0x10
  | .fiq => 0x11
  | .irq => 0x12
  | .svc => 0x13
  | .abt => 0x17
  | .und => 0x1B

/-- The registers that a `psr` selects. -/
def Mode.ofPsr (psr : BitVec 32) : Mode :=
  if psr &&& modeMask = Mode.fiq.bits then .fiq
  else if psr &&& modeMask = Mode.irq.bits then .irq
  else if psr &&& modeMask = Mode.svc.bits then .svc
  else if psr &&& modeMask = Mode.abt.bits then .abt
  else if psr &&& modeMask = Mode.und.bits then .und
  else .usr

/-- The banked registers of a mode. -/
structure Bank where
  sp : BitVec 32
  lr : BitVec 32
  spsr : BitVec 32

/-- The processor.  FIQ mode has its own `r8` to `r12`, too, but nothing here uses those. -/
structure Cpu where
  r : Fin 13 → BitVec 32
  bank : Mode → Bank
  pc : BitVec 32
  cpsr : BitVec 32
  mem : BitVec 32 → BitVec 8

/-- Where the code stops. -/
inductive Stop
  /-- `b spin`. -/
  | spin
  /-- `ldm` or `stm` at an address that is no multiple of four. -/
  | alignment
deriving DecidableEq, Repr

namespace Cpu

variable (c : Cpu)

/-- The current mode. -/
def mode : Mode := Mode.ofPsr c.cpsr

/-- `sp`. -/
def sp : BitVec 32 := (c.bank c.mode).sp

/-- `lr`. -/
def lr : BitVec 32 := (c.bank c.mode).lr

/-- `spsr`. -/
def spsr : BitVec 32 := (c.bank c.mode).spsr

/-- Writing `r0` to `r12`. -/
def setR (i : Fin 13) (v : BitVec 32) : Cpu := { c with r := Function.update c.r i v }

/-- Writing banked registers of a mode. -/
def setBank (m : Mode) (b : Bank) : Cpu := { c with bank := Function.update c.bank m b }

/-- Writing `sp`. -/
def setSp (v : BitVec 32) : Cpu := c.setBank c.mode { c.bank c.mode with sp := v }

/-- Writing `lr`. -/
def setLr (v : BitVec 32) : Cpu := c.setBank c.mode { c.bank c.mode with lr := v }

/-- `msr cpsr_c`: the mode and the interrupt masks. -/
def msrCpsrC (v : BitVec 32) : Cpu :=
  { c with cpsr := (c.cpsr &&& 0xFFFFFF00) ||| (v &&& 0xFF) }

/-- `msr spsr` without fields: the assembler takes the flags and the control byte. -/
def msrSpsr (v : BitVec 32) : Cpu :=
  c.setBank c.mode { c.bank c.mode with spsr := (v &&& 0xFF0000FF) ||| (c.spsr &&& 0x00FFFF00) }

/-- `ldr`; any alignment will do. -/
def ldr (a : BitVec 32) : BitVec 32 := getWord c.mem a

/-- `str`. -/
def str (v a : BitVec 32) : Cpu := { c with mem := putWord c.mem a v }

/-- The first `n` registers, stored from `a` on. -/
def storeRegs (a : BitVec 32) (n : ℕ) : Cpu :=
  { c with mem := putWords c.mem a ((List.ofFn c.r).take n) }

/-- The first `n` registers, loaded from `a` on. -/
def loadRegs (a : BitVec 32) (n : ℕ) : Cpu :=
  { c with
    r := fun i => if i.val < n then getWord c.mem (a + BitVec.ofNat 32 (4 * i)) else c.r i }

/-- `stmia a, {r0, …}`. -/
def stmia (a : BitVec 32) (n : ℕ) : Except Stop Cpu :=
  if a.toNat % 4 = 0 then .ok (c.storeRegs a n) else .error .alignment

/-- `ldmia a, {r0, …}`. -/
def ldmia (a : BitVec 32) (n : ℕ) : Except Stop Cpu :=
  if a.toNat % 4 = 0 then .ok (c.loadRegs a n) else .error .alignment

end Cpu

/-! ### Exceptions -/

/-- The exception vectors that are used. -/
inductive Vector
  | und
  | svc
  | pabt
  | dabt
  | irq
  | fiq
deriving DecidableEq, Repr

/-- `VCT_UND`, …, `VCT_FIQ`. -/
def Vector.vct : Vector → BitVec 32
  | .und => 0x04
  | .svc => 0x08
  | .pabt => 0x0C
  | .dabt => 0x10
  | .irq => 0x18
  | .fiq => 0x1C

/-- The mode an exception is taken to. -/
def Vector.mode : Vector → Mode
  | .und => .und
  | .svc => .svc
  | .pabt => .abt
  | .dabt => .abt
  | .irq => .irq
  | .fiq => .fiq

/-- The T bit of a `psr`: Thumb instructions. -/
def thumb (psr : BitVec 32) : Bool := psr.getLsbD 5

/-- What the processor adds to the return address. -/
def Vector.lrOffset (psr : BitVec 32) : Vector → BitVec 32
  | .und => if thumb psr then 2 else 4
  | .svc => 0
  | .pabt => 4
  | .dabt => 8
  | .irq => 4
  | .fiq => 4

/-- Taking an exception.  `masks` stands for all bits of the new `cpsr` but the mode. -/
def takeException (v : Vector) (masks : BitVec 32) (c : Cpu) : Cpu :=
  let c' := c.setBank v.mode
    { c.bank v.mode with lr := c.pc + v.lrOffset c.cpsr, spsr := c.cpsr }
  { c' with cpsr := (masks &&& ~~~modeMask) ||| v.mode.bits }

/-! ### `alltraps.S` -/

/-- `ENTERSYS`, up to the branch. -/
def entersysMacro (vector : BitVec 32) (c : Cpu) : Cpu :=
  let c := c.str (c.r 0) (c.sp + 18)
  let c := c.setR 0 vector
  c.str (c.r 0) (c.sp + 16)

/-- `exception_04` to `exception_1C`. -/
def exception (v : Vector) (c : Cpu) : Cpu :=
  match v with
  | .und => entersysMacro v.vct (c.setLr (c.lr - 4))
  | .svc => entersysMacro v.vct c
  | .pabt => entersysMacro v.vct (c.setLr (c.lr - 4))
  | .dabt => entersysMacro v.vct (c.setLr (c.lr - 8))
  | .irq => entersysMacro v.vct (c.setLr (c.lr - 4))
  | .fiq => entersysMacro v.vct (c.setLr (c.lr - 4))

/-- The start of `enter_sys`: the first words of the temporary frame. -/
def saveTempFrame (c : Cpu) : Cpu :=
  let c := c.setR 0 c.spsr
  let c := c.str (c.r 0) (c.sp + 12)
  let c := c.str c.lr (c.sp + 8)
  let c := c.setR 0 (c.bank .usr).lr
  let c := c.str (c.r 0) (c.sp + 4)
  let c := c.setR 0 (c.bank .usr).sp
  let c := c.str (c.r 0) c.sp
  c.setR 0 c.sp

/-- "Enter SYS", with the mode that was interrupted in `lr`. -/
def switchToSys (c : Cpu) : Cpu :=
  let c := c.msrCpsrC (0xC0 ||| modeSys)
  let c := c.setLr (c.ldr (c.r 0 + 12))
  c.setLr (c.lr &&& modeMask)

/-- `stack_switched`, up to the call of `trap`. -/
def stackSwitched (c : Cpu) : Except Stop Cpu := do
  let c := c.setSp (c.sp - 18 * 4)
  let c := c.setLr (c.r 0)
  let c := c.setR 0 (c.ldr (c.lr + 18))
  let c ← c.stmia c.sp 13
  let c ← c.ldmia c.lr 5
  let c := c.setLr (c.sp + 13 * 4)
  let c ← c.stmia c.lr 5
  return c.setR 0 c.sp

/-- `enter_sys`; the flags that `cmp` leaves are not used again. -/
def enterSys (c : Cpu) : Except Stop Cpu :=
  let c := switchToSys (saveTempFrame c)
  if c.lr = modeSys then stackSwitched c else .error .spin

/-- The start of `trap_return`: `sp` and `lr` of SYS mode. -/
def restoreSys (c : Cpu) : Cpu :=
  let c := c.msrCpsrC (0xC0 ||| modeSys)
  let c := c.setSp (c.ldr (c.r 0 + 13 * 4))
  c.setLr (c.ldr (c.r 0 + 14 * 4))

/-- "Enter SVC", with `spsr` and `lr` from the trap frame. -/
def switchToSvc (c : Cpu) : Cpu :=
  let c := c.msrCpsrC (0xC0 ||| modeSvc)
  let c := c.setR 1 (c.ldr (c.r 0 + 16 * 4))
  let c := c.msrSpsr (c.r 1)
  c.setLr (c.ldr (c.r 0 + 15 * 4))

/-- `movs pc, lr`. -/
def movsPcLr (c : Cpu) : Cpu := { c with pc := c.lr, cpsr := c.spsr }

/-- `trap_return`. -/
def trapReturn (c : Cpu) : Except Stop Cpu := do
  let c := switchToSvc (restoreSys c)
  let c ← c.ldmia (c.r 0) 13
  return movsPcLr c

/-! ### Reading the registers back -/

namespace Cpu

variable (c : Cpu) (v a : BitVec 32) (i : Fin 13) (m : Mode) (b : Bank)

@[simp] theorem setR_r : (c.setR i v).r = Function.update c.r i v := rfl
@[simp] theorem setR_bank : (c.setR i v).bank = c.bank := rfl
@[simp] theorem setR_mem : (c.setR i v).mem = c.mem := rfl
@[simp] theorem setR_mode : (c.setR i v).mode = c.mode := rfl
@[simp] theorem setR_sp : (c.setR i v).sp = c.sp := rfl
@[simp] theorem setR_lr : (c.setR i v).lr = c.lr := rfl
@[simp] theorem setR_spsr : (c.setR i v).spsr = c.spsr := rfl

@[simp] theorem str_r : (c.str v a).r = c.r := rfl
@[simp] theorem str_bank : (c.str v a).bank = c.bank := rfl
@[simp] theorem str_mem : (c.str v a).mem = putWord c.mem a v := rfl
@[simp] theorem str_mode : (c.str v a).mode = c.mode := rfl
@[simp] theorem str_sp : (c.str v a).sp = c.sp := rfl
@[simp] theorem str_lr : (c.str v a).lr = c.lr := rfl

@[simp] theorem setBank_bank : (c.setBank m b).bank = Function.update c.bank m b := rfl

@[simp] theorem setSp_r : (c.setSp v).r = c.r := rfl
@[simp] theorem setSp_mem : (c.setSp v).mem = c.mem := rfl
@[simp] theorem setSp_mode : (c.setSp v).mode = c.mode := rfl

@[simp] theorem setSp_sp : (c.setSp v).sp = v := by
  rw [sp, setSp_mode, setSp, setBank_bank, Function.update_self]

@[simp] theorem setLr_r : (c.setLr v).r = c.r := rfl
@[simp] theorem setLr_mem : (c.setLr v).mem = c.mem := rfl
@[simp] theorem setLr_mode : (c.setLr v).mode = c.mode := rfl

@[simp] theorem setLr_lr : (c.setLr v).lr = v := by
  rw [lr, setLr_mode, setLr, setBank_bank, Function.update_self]

@[simp] theorem setLr_sp : (c.setLr v).sp = c.sp := by
  rw [sp, setLr_mode, setLr, setBank_bank, Function.update_self, sp]

@[simp] theorem setLr_spsr : (c.setLr v).spsr = c.spsr := by
  rw [spsr, setLr_mode, setLr, setBank_bank, Function.update_self, spsr]

theorem setLr_self : c.setLr c.lr = c := by
  rw [setLr, setBank, lr, Function.update_eq_self]

/-- The registers of the other modes are kept. -/
theorem setSp_bank_of_ne (h : m ≠ c.mode) : (c.setSp v).bank m = c.bank m := by
  rw [setSp, setBank_bank, Function.update_of_ne h]

theorem setLr_bank_of_ne (h : m ≠ c.mode) : (c.setLr v).bank m = c.bank m := by
  rw [setLr, setBank_bank, Function.update_of_ne h]

@[simp] theorem msrSpsr_mode : (c.msrSpsr v).mode = c.mode := rfl

@[simp] theorem msrSpsr_spsr :
    (c.msrSpsr v).spsr = (v &&& 0xFF0000FF) ||| (c.spsr &&& 0x00FFFF00) := by
  rw [spsr, msrSpsr_mode, msrSpsr, setBank_bank, Function.update_self]

theorem msrSpsr_bank_of_ne (h : m ≠ c.mode) : (c.msrSpsr v).bank m = c.bank m := by
  rw [msrSpsr, setBank_bank, Function.update_of_ne h]

@[simp] theorem storeRegs_bank (n : ℕ) : (c.storeRegs a n).bank = c.bank := rfl
@[simp] theorem storeRegs_mode (n : ℕ) : (c.storeRegs a n).mode = c.mode := rfl
@[simp] theorem storeRegs_sp (n : ℕ) : (c.storeRegs a n).sp = c.sp := rfl
@[simp] theorem storeRegs_lr (n : ℕ) : (c.storeRegs a n).lr = c.lr := rfl

@[simp] theorem loadRegs_bank (n : ℕ) : (c.loadRegs a n).bank = c.bank := rfl
@[simp] theorem loadRegs_mode (n : ℕ) : (c.loadRegs a n).mode = c.mode := rfl
@[simp] theorem loadRegs_sp (n : ℕ) : (c.loadRegs a n).sp = c.sp := rfl

@[simp] theorem msrCpsrC_bank : (c.msrCpsrC v).bank = c.bank := rfl

/-- `msr cpsr_c` selects the mode. -/
theorem msrCpsrC_mode : (c.msrCpsrC v).mode = Mode.ofPsr v := by
  have hbits : (c.cpsr &&& 0xFFFFFF00 ||| v &&& 0xFF) &&& modeMask = v &&& modeMask := by
    rw [BitVec.and_or_distrib_right, BitVec.and_assoc, BitVec.and_assoc,
      show 0xFFFFFF00 &&& modeMask = 0#32 by decide, show 0xFF &&& modeMask = modeMask by decide,
      BitVec.and_zero, BitVec.zero_or]
  rw [mode, msrCpsrC]
  simp only [Mode.ofPsr, hbits]

end Cpu

/-- The modes of exceptions have registers of their own. -/
theorem Vector.mode_ne_usr (v : Vector) : v.mode ≠ .usr := by
  cases v <;> decide

/-- Taking an exception selects the mode. -/
theorem takeException_mode (v : Vector) (masks : BitVec 32) (c : Cpu) :
    (takeException v masks c).mode = v.mode := by
  have hbits : (masks &&& ~~~modeMask ||| v.mode.bits) &&& modeMask = v.mode.bits := by
    rw [BitVec.and_or_distrib_right, BitVec.and_assoc, BitVec.not_and_self,
      BitVec.ofNat_eq_ofNat, BitVec.and_zero, BitVec.zero_or]
    cases v <;> decide
  rw [Cpu.mode, takeException]
  simp only [Mode.ofPsr, hbits]
  cases v <;> rfl

/-! ### The temporary frame -/

/-- The address that is resumed: the stub for undefined instructions expects that these have four
bytes. -/
def resumeAddress (v : Vector) (c : Cpu) : BitVec 32 :=
  if v = .und ∧ thumb c.cpsr = true then c.pc - 2 else c.pc

/-- `lr` in an exception, once it has been corrected. -/
theorem takeException_setLr (v : Vector) (masks : BitVec 32) (c : Cpu) {x : BitVec 32} :
    ((takeException v masks c).setLr x).bank =
      Function.update c.bank v.mode ⟨(c.bank v.mode).sp, x, c.cpsr⟩ := by
  rw [Cpu.setLr, takeException_mode, Cpu.setBank_bank]
  simp only [takeException, Cpu.setBank_bank, Function.update_self, Function.update_idem]

/-- The stub of a vector corrects `lr`, and writes the last two words of the temporary frame. -/
theorem exception_eq (v : Vector) (masks : BitVec 32) (c : Cpu) :
    exception v (takeException v masks c) =
      entersysMacro v.vct ((takeException v masks c).setLr (resumeAddress v c)) := by
  have hlr : (takeException v masks c).lr = c.pc + v.lrOffset c.cpsr := by
    rw [Cpu.lr, takeException_mode]
    simp only [takeException, Cpu.setBank_bank, Function.update_self]
  cases v with
  | und =>
      rw [exception, hlr, resumeAddress, Vector.lrOffset]
      by_cases ht : thumb c.cpsr = true
      · rw [if_pos ht, if_pos ⟨rfl, ht⟩, show c.pc + 2 - 4 = c.pc - 2 by bv_omega]
      · rw [if_neg ht, if_neg fun h => ht h.2, BitVec.add_sub_cancel]
  | svc =>
      rw [Vector.lrOffset, BitVec.ofNat_eq_ofNat, BitVec.add_zero] at hlr
      rw [exception, resumeAddress, if_neg (by simp), ← hlr, Cpu.setLr_self]
  | pabt =>
      rw [exception, hlr, resumeAddress, if_neg (by simp), Vector.lrOffset, BitVec.add_sub_cancel]
  | dabt =>
      rw [exception, hlr, resumeAddress, if_neg (by simp), Vector.lrOffset, BitVec.add_sub_cancel]
  | irq =>
      rw [exception, hlr, resumeAddress, if_neg (by simp), Vector.lrOffset, BitVec.add_sub_cancel]
  | fiq =>
      rw [exception, hlr, resumeAddress, if_neg (by simp), Vector.lrOffset, BitVec.add_sub_cancel]

/-- **What the vectors leave**: the banked registers, and the last two words of the temporary
frame. -/
theorem exception_spec (v : Vector) (masks : BitVec 32) (c : Cpu) :
    ∃ c₁, exception v (takeException v masks c) = c₁ ∧ c₁.mode = v.mode ∧
      c₁.r = Function.update c.r 0 v.vct ∧
      c₁.bank = Function.update c.bank v.mode ⟨(c.bank v.mode).sp, resumeAddress v c, c.cpsr⟩ ∧
      c₁.mem = putWord (putWord c.mem ((c.bank v.mode).sp + 18) (c.r 0))
        ((c.bank v.mode).sp + 16) v.vct := by
  have hsp : (takeException v masks c).sp = (c.bank v.mode).sp := by
    rw [Cpu.sp, takeException_mode]
    simp only [takeException, Cpu.setBank_bank, Function.update_self]
  refine ⟨_, exception_eq v masks c, ?_, rfl, ?_, ?_⟩
  · simp [entersysMacro, takeException_mode]
  · simp [entersysMacro, takeException_setLr]
  · simp only [entersysMacro, Cpu.str_mem, Cpu.setR_mem, Cpu.setLr_mem, Cpu.setR_sp, Cpu.str_sp,
      Cpu.setLr_sp, Cpu.setR_r, Function.update_self, hsp]
    rfl

/-- The first four words of the temporary frame. -/
def tempFrame (c : Cpu) : BitVec 32 → BitVec 8 :=
  putWord (putWord (putWord (putWord c.mem (c.sp + 12) c.spsr) (c.sp + 8) c.lr) (c.sp + 4)
    (c.bank .usr).lr) c.sp (c.bank .usr).sp

theorem saveTempFrame_spec (c : Cpu) : (saveTempFrame c).mode = c.mode ∧
    (saveTempFrame c).r = Function.update c.r 0 c.sp ∧ (saveTempFrame c).bank = c.bank ∧
    (saveTempFrame c).mem = tempFrame c := by
  refine ⟨rfl, ?_, rfl, ?_⟩
  · simp [saveTempFrame]
  · simp [saveTempFrame, tempFrame]

theorem switchToSys_spec (c : Cpu) : (switchToSys c).mode = .usr ∧ (switchToSys c).r = c.r ∧
    (switchToSys c).mem = c.mem ∧ (switchToSys c).sp = (c.bank .usr).sp ∧
    (switchToSys c).lr = getWord c.mem (c.r 0 + 12) &&& modeMask ∧
    ∀ m ≠ .usr, (switchToSys c).bank m = c.bank m := by
  have hmode : (c.msrCpsrC (0xC0 ||| modeSys)).mode = .usr := by
    rw [Cpu.msrCpsrC_mode]
    decide
  refine ⟨?_, rfl, rfl, ?_, ?_, fun m hm => ?_⟩
  · simp only [switchToSys, Cpu.setLr_mode, hmode]
  · simp only [switchToSys, Cpu.setLr_sp]
    rw [Cpu.sp, hmode, Cpu.msrCpsrC_bank]
  · simp only [switchToSys, Cpu.setLr_lr]
    rfl
  · rw [switchToSys, Cpu.setLr_bank_of_ne _ _ _ (by rwa [Cpu.setLr_mode, hmode]),
      Cpu.setLr_bank_of_ne _ _ _ (by rwa [hmode]), Cpu.msrCpsrC_bank]

/-- The registers that go to the trap frame. -/
def savedRegs (c : Cpu) : List (BitVec 32) :=
  List.ofFn (Function.update c.r 0 (getWord c.mem (c.r 0 + 18)))

/-- The words behind them: the temporary frame without its last word. -/
def savedWords (mem : BitVec 32 → BitVec 8) (a : BitVec 32) : List (BitVec 32) :=
  [getWord mem a, getWord mem (a + 4), getWord mem (a + 8), getWord mem (a + 12),
    getWord mem (a + 16)]

/-- **`stack_switched`** builds the trap frame below `sp`, if `stm` can write there. -/
theorem stackSwitched_spec (c : Cpu) (hmode : c.mode = .usr) (hlr : (c.r 0).toNat % 4 = 0) :
    (c.sp.toNat % 4 ≠ 0 → stackSwitched c = .error .alignment) ∧
      (c.sp.toNat % 4 = 0 → ∃ c₂, stackSwitched c = .ok c₂ ∧ c₂.r 0 = c.sp - 72 ∧
        (∀ m ≠ .usr, c₂.bank m = c.bank m) ∧
        c₂.mem = putWords (putWords c.mem (c.sp - 72) (savedRegs c)) (c.sp - 72 + 52)
          (savedWords (putWords c.mem (c.sp - 72) (savedRegs c)) (c.r 0))) := by
  obtain ⟨c₁, hc₁⟩ : ∃ c₁, c₁ = ((c.setSp (c.sp - 18 * 4)).setLr (c.r 0)).setR 0
    (getWord c.mem (c.r 0 + 18)) := ⟨_, rfl⟩
  have hsp₁ : c₁.sp = c.sp - 72 := by
    rw [hc₁, Cpu.setR_sp, Cpu.setLr_sp, Cpu.setSp_sp]
    rfl
  have hlr₁ : c₁.lr = c.r 0 := by
    rw [hc₁, Cpu.setR_lr, Cpu.setLr_lr]
  have hregs : List.ofFn c₁.r = savedRegs c := by
    rw [hc₁]
    rfl
  have hrun : stackSwitched c = (do
      let c ← c₁.stmia (c.sp - 72) 13
      let c ← c.ldmia c.lr 5
      let c := c.setLr (c.sp + 13 * 4)
      let c ← c.stmia c.lr 5
      return c.setR 0 c.sp) := by
    rw [← hsp₁, hc₁]
    simp only [stackSwitched, Cpu.setLr_lr, Cpu.setSp_r, Cpu.ldr, Cpu.setLr_mem,
      Cpu.setSp_mem]
  constructor
  · intro hsp
    rw [hrun, Cpu.stmia, if_neg (by bv_omega)]
    rfl
  · intro hsp
    have hstep₁ : c₁.stmia (c.sp - 72) 13 = .ok (c₁.storeRegs (c.sp - 72) 13) :=
      if_pos (by bv_omega)
    obtain ⟨c₂, hc₂⟩ : ∃ c₂, c₂ = c₁.storeRegs (c.sp - 72) 13 := ⟨_, rfl⟩
    have hmem₂ : c₂.mem = putWords c.mem (c.sp - 72) (savedRegs c) := by
      rw [hc₂, Cpu.storeRegs, hregs, hc₁]
      rfl
    have hstep₂ : c₂.ldmia (c.r 0) 5 = .ok (c₂.loadRegs (c.r 0) 5) := if_pos hlr
    obtain ⟨c₃, hc₃⟩ : ∃ c₃, c₃ = (c₂.loadRegs (c.r 0) 5).setLr (c.sp - 72 + 52) := ⟨_, rfl⟩
    have hwords : (List.ofFn c₃.r).take 5 = savedWords c₂.mem (c.r 0) := by
      rw [hc₃]
      simp [Cpu.loadRegs, savedWords, List.ofFn_succ]
    have hstep₃ : c₃.stmia (c.sp - 72 + 52) 5 = .ok (c₃.storeRegs (c.sp - 72 + 52) 5) :=
      if_pos (by bv_omega)
    refine ⟨(c₃.storeRegs (c.sp - 72 + 52) 5).setR 0 (c.sp - 72), ?_, ?_, fun m hm => ?_, ?_⟩
    · have hlr₂ : c₂.lr = c.r 0 := by rw [hc₂, Cpu.storeRegs_lr, hlr₁]
      have hsp₂ : c₂.sp = c.sp - 72 := by rw [hc₂, Cpu.storeRegs_sp, hsp₁]
      have hsp₃ : c₃.sp = c.sp - 72 := by rw [hc₃, Cpu.setLr_sp, Cpu.loadRegs_sp, hsp₂]
      have hlr₃ : c₃.lr = c.sp - 72 + 52 := by rw [hc₃, Cpu.setLr_lr]
      rw [hrun, hstep₁, ← hc₂]
      show (c₂.ldmia c₂.lr 5 >>= _) = _
      rw [hlr₂, hstep₂]
      show (((c₂.loadRegs (c.r 0) 5).setLr ((c₂.loadRegs (c.r 0) 5).sp + 13 * 4)).stmia _ 5 >>= _) = _
      rw [Cpu.loadRegs_sp, hsp₂, show (13 * 4 : BitVec 32) = 52 by decide, ← hc₃, hlr₃, hstep₃]
      show Except.ok ((c₃.storeRegs (c.sp - 72 + 52) 5).setR 0 c₃.sp) = _
      rw [hsp₃]
    · rw [Cpu.setR_r, Function.update_self]
    · have hm' : m ≠ c.mode := hmode ▸ hm
      have hm₁ : m ≠ (c.setSp (c.sp - 18 * 4)).mode := hm'
      have hm₂ : m ≠ (c₂.loadRegs (c.r 0) 5).mode := by
        rwa [Cpu.loadRegs_mode, hc₂, Cpu.storeRegs_mode, hc₁]
      rw [Cpu.setR_bank, Cpu.storeRegs_bank, hc₃, Cpu.setLr_bank_of_ne _ _ _ hm₂,
        Cpu.loadRegs_bank, hc₂, Cpu.storeRegs_bank, hc₁, Cpu.setR_bank,
        Cpu.setLr_bank_of_ne _ _ _ hm₁, Cpu.setSp_bank_of_ne _ _ _ hm']
    · rw [← hmem₂, ← hwords, hc₃]
      rfl

/-! ### What is in the frames -/

/-- `enter_sys` leaves what is above its four words alone. -/
theorem getWord_tempFrame_of_apart (c : Cpu) {x : BitVec 32} (hlow : 16 ≤ (x - c.sp).toNat)
    (hhigh : (x - c.sp).toNat + 4 ≤ 2 ^ 32) : getWord (tempFrame c) x = getWord c.mem x := by
  obtain ⟨a, ha⟩ : ∃ a, a = c.sp := ⟨_, rfl⟩
  rw [← ha] at hlow hhigh
  rw [tempFrame, ← ha]
  rw [getWord_putWord_of_apart (by bv_omega) (by bv_omega),
    getWord_putWord_of_apart (by bv_omega) (by bv_omega),
    getWord_putWord_of_apart (by bv_omega) (by bv_omega),
    getWord_putWord_of_apart (by bv_omega) (by bv_omega)]

/-- The temporary frame: four words from `enter_sys`, and two that were there before. -/
theorem tempFrame_words (c : Cpu) : getWord (tempFrame c) c.sp = (c.bank .usr).sp ∧
    getWord (tempFrame c) (c.sp + 4) = (c.bank .usr).lr ∧
    getWord (tempFrame c) (c.sp + 8) = c.lr ∧ getWord (tempFrame c) (c.sp + 12) = c.spsr ∧
    getWord (tempFrame c) (c.sp + 16) = getWord c.mem (c.sp + 16) ∧
    getWord (tempFrame c) (c.sp + 18) = getWord c.mem (c.sp + 18) := by
  have habove : (c.sp + 16 - c.sp).toNat = 16 ∧ (c.sp + 18 - c.sp).toNat = 18 := by
    generalize c.sp = a
    constructor
    · bv_omega
    · bv_omega
  have hlower := getWord_tempFrame_of_apart c (x := c.sp + 16)
    (by rw [habove.1]) (by rw [habove.1]; omega)
  have hupper := getWord_tempFrame_of_apart c (x := c.sp + 18)
    (by rw [habove.2]; omega) (by rw [habove.2]; omega)
  obtain ⟨a, ha⟩ : ∃ a, a = c.sp := ⟨_, rfl⟩
  rw [tempFrame, ← ha] at hlower hupper ⊢
  refine ⟨?_, ?_, ?_, ?_, hlower, hupper⟩
  · rw [getWord_putWord]
  · rw [getWord_putWord_of_apart (by bv_omega) (by bv_omega), getWord_putWord]
  · rw [getWord_putWord_of_apart (by bv_omega) (by bv_omega),
      getWord_putWord_of_apart (by bv_omega) (by bv_omega), getWord_putWord]
  · rw [getWord_putWord_of_apart (by bv_omega) (by bv_omega),
      getWord_putWord_of_apart (by bv_omega) (by bv_omega),
      getWord_putWord_of_apart (by bv_omega) (by bv_omega), getWord_putWord]

/-- What a `struct trapframe` in memory holds. -/
structure FrameHolds (mem : BitVec 32 → BitVec 8) (tf : BitVec 32) (r : Fin 13 → BitVec 32)
    (sp lr pc psr vector : BitVec 32) : Prop where
  regs : ∀ i : Fin 13, getWord mem (tf + BitVec.ofNat 32 (4 * i)) = r i
  sp : getWord mem (tf + 13 * 4) = sp
  lr : getWord mem (tf + 14 * 4) = lr
  pc : getWord mem (tf + 15 * 4) = pc
  psr : getWord mem (tf + 16 * 4) = psr
  vector : getWord mem (tf + 17 * 4) = vector

/-- Two rows of words that follow each other. -/
theorem frameHolds_putWords (mem : BitVec 32 → BitVec 8) (tf : BitVec 32) (r : Fin 13 → BitVec 32)
    (sp lr pc psr vector : BitVec 32) :
    FrameHolds (putWords (putWords mem tf (List.ofFn r)) (tf + 52) [sp, lr, pc, psr, vector]) tf r
      sp lr pc psr vector := by
  have hwords : ∀ j (hj : j < [sp, lr, pc, psr, vector].length), getWord (putWords
      (putWords mem tf (List.ofFn r)) (tf + 52) [sp, lr, pc, psr, vector])
        (tf + 52 + BitVec.ofNat 32 (4 * j)) = [sp, lr, pc, psr, vector][j] :=
    fun j hj => getWord_putWords hj (by simp)
  refine ⟨fun i => ?_, ?_, ?_, ?_, ?_, ?_⟩
  · have hlen : (List.ofFn r).length = 13 := List.length_ofFn
    rw [getWord_putWords_of_apart (by simp), getWord_putWords (by omega) (by omega)]
    · exact List.getElem_ofFn _
    · intro x hx
      rw [Within] at hx ⊢
      simp only [List.length_cons, List.length_nil]
      have hi := i.isLt
      bv_omega
  · rw [show tf + 13 * 4 = tf + 52 + BitVec.ofNat 32 (4 * 0) by bv_omega]
    exact hwords 0 (by simp)
  · rw [show tf + 14 * 4 = tf + 52 + BitVec.ofNat 32 (4 * 1) by bv_omega]
    exact hwords 1 (by simp)
  · rw [show tf + 15 * 4 = tf + 52 + BitVec.ofNat 32 (4 * 2) by bv_omega]
    exact hwords 2 (by simp)
  · rw [show tf + 16 * 4 = tf + 52 + BitVec.ofNat 32 (4 * 3) by bv_omega]
    exact hwords 3 (by simp)
  · rw [show tf + 17 * 4 = tf + 52 + BitVec.ofNat 32 (4 * 4) by bv_omega]
    exact hwords 4 (by simp)

/-- `r0` as it comes back from the temporary frame: the vector is over its lower half. -/
def restoredR0 (v : Vector) (r0 : BitVec 32) : BitVec 32 :=
  r0.extractLsb' 16 16 ++ v.vct.extractLsb' 16 16

/-- The temporary frame of a mode, apart from the stack below the interrupted `sp`. -/
structure TrapStack (v : Vector) (c : Cpu) : Prop where
  aligned : (c.bank v.mode).sp.toNat % 4 = 0
  apart : ∀ x, Within (c.bank v.mode).sp 24 x → ¬ Within ((c.bank .usr).sp - 72) 72 x

/-- What the temporary frame at `a` holds.  The last word is over the upper half of the one
before. -/
structure TempFrameHolds (mem : BitVec 32 → BitVec 8) (a sp lr pc psr vector r0 : BitVec 32) :
    Prop where
  sp : getWord mem a = sp
  lr : getWord mem (a + 4) = lr
  pc : getWord mem (a + 8) = pc
  psr : getWord mem (a + 12) = psr
  vector : getWord mem (a + 16) = vector
  r0 : getWord mem (a + 18) = r0

/-- A trap frame that is written elsewhere leaves the temporary frame as it is. -/
theorem TempFrameHolds.savedWords_putWords {mem : BitVec 32 → BitVec 8}
    {a sp lr pc psr vector r0 : BitVec 32} (h : TempFrameHolds mem a sp lr pc psr vector r0)
    {tf : BitVec 32} (hapart : ∀ x, Within a 24 x → ¬ Within tf 72 x)
    (r : Fin 13 → BitVec 32) :
    savedWords (putWords mem tf (List.ofFn r)) a = [sp, lr, pc, psr, vector] := by
  have hkept : ∀ d : BitVec 32, d.toNat + 4 ≤ 24 →
      getWord (putWords mem tf (List.ofFn r)) (a + d) = getWord mem (a + d) := by
    intro d hd
    refine getWord_putWords_of_apart (by simp) fun x hx => ?_
    have hout := hapart x
    simp only [Within, List.length_ofFn] at hx hout ⊢
    bv_omega
  have hkept₀ : getWord (putWords mem tf (List.ofFn r)) a = getWord mem a := by
    have h₀ := hkept 0#32 (by decide)
    rwa [BitVec.add_zero] at h₀
  rw [savedWords, hkept₀, hkept 4 (by decide), hkept 8 (by decide), hkept 12 (by decide),
    hkept 16 (by decide), h.sp, h.lr, h.pc, h.psr, h.vector]

/-- **The state in SYS mode**, before `stack_switched`: `r0` has the temporary frame. -/
theorem switchToSys_exception (v : Vector) (masks : BitVec 32) (c : Cpu) :
    ∃ c₃, switchToSys (saveTempFrame (exception v (takeException v masks c))) = c₃ ∧
      c₃.mode = .usr ∧ c₃.r = Function.update c.r 0 (c.bank v.mode).sp ∧
      c₃.sp = (c.bank .usr).sp ∧ c₃.lr = c.cpsr &&& modeMask ∧
      (c₃.bank .svc).spsr = (if v = .svc then c.cpsr else (c.bank .svc).spsr) ∧
      TempFrameHolds c₃.mem (c.bank v.mode).sp (c.bank .usr).sp (c.bank .usr).lr
        (resumeAddress v c) c.cpsr v.vct (restoredR0 v (c.r 0)) := by
  obtain ⟨c₁, hexc, hmode₁, hr₁, hbank₁, hmem₁⟩ := exception_spec v masks c
  have hsp₁ : c₁.sp = (c.bank v.mode).sp := by
    rw [Cpu.sp, hmode₁, hbank₁, Function.update_self]
  have hlr₁ : c₁.lr = resumeAddress v c := by
    rw [Cpu.lr, hmode₁, hbank₁, Function.update_self]
  have hspsr₁ : c₁.spsr = c.cpsr := by
    rw [Cpu.spsr, hmode₁, hbank₁, Function.update_self]
  have husr₁ : c₁.bank .usr = c.bank .usr := by
    rw [hbank₁, Function.update_of_ne v.mode_ne_usr.symm]
  -- four words are from `enter_sys`, and two from the vector
  obtain ⟨hw0, hw4, hw8, hw12, hw16, hw18⟩ := tempFrame_words c₁
  rw [hmem₁, hsp₁, getWord_putWord] at hw16
  have hplace : (c.bank v.mode).sp + 18 = (c.bank v.mode).sp + 16 + 2 := by bv_omega
  rw [hmem₁, hsp₁, hplace, getWord_putWord_halves, ← hplace] at hw18
  rw [hsp₁, husr₁] at hw0 hw4
  rw [hsp₁, hlr₁] at hw8
  rw [hsp₁, hspsr₁] at hw12
  obtain ⟨-, hr₂, hbank₂, hmem₂⟩ := saveTempFrame_spec c₁
  obtain ⟨hmode₃, hr₃, hmem₃, hsp₃, hlr₃, hbank₃⟩ := switchToSys_spec (saveTempFrame c₁)
  refine ⟨_, by rw [hexc], hmode₃, ?_, ?_, ?_, ?_, ?_⟩
  · rw [hr₃, hr₂, hr₁, Function.update_idem, hsp₁]
  · rw [hsp₃, hbank₂, husr₁]
  · rw [hlr₃, hr₂, hmem₂, Function.update_self, hsp₁, hw12]
  · rw [hbank₃ .svc (by decide), hbank₂, hbank₁]
    cases v <;> rfl
  · rw [hmem₃, hmem₂]
    exact ⟨hw0, hw4, hw8, hw12, hw16, hw18⟩

/-- **Building the trap frame**, from the state that was interrupted in SYS mode. -/
theorem enterSys_spec (v : Vector) (masks : BitVec 32) (c : Cpu)
    (hsys : c.cpsr &&& modeMask = modeSys) (hstack : TrapStack v c) :
    ((c.bank .usr).sp.toNat % 4 ≠ 0 →
        enterSys (exception v (takeException v masks c)) = .error .alignment) ∧
      ((c.bank .usr).sp.toNat % 4 = 0 → ∃ c₂,
        enterSys (exception v (takeException v masks c)) = .ok c₂ ∧
          c₂.r 0 = (c.bank .usr).sp - 72 ∧
          (c₂.bank .svc).spsr = (if v = .svc then c.cpsr else (c.bank .svc).spsr) ∧
          FrameHolds c₂.mem (c₂.r 0) (Function.update c.r 0 (restoredR0 v (c.r 0)))
            (c.bank .usr).sp (c.bank .usr).lr (resumeAddress v c) c.cpsr v.vct) := by
  obtain ⟨c₃, hc₃, hmode₃, hr₃, hsp₃, hlr₃, hspsr₃, htemp⟩ := switchToSys_exception v masks c
  have hr0 : c₃.r 0 = (c.bank v.mode).sp := by rw [hr₃, Function.update_self]
  have hrun : enterSys (exception v (takeException v masks c)) = stackSwitched c₃ := by
    rw [enterSys, hc₃]
    exact if_pos (hlr₃.trans hsys)
  obtain ⟨hunaligned, haligned⟩ := stackSwitched_spec c₃ hmode₃ (hr0 ▸ hstack.aligned)
  rw [hrun]
  rw [hsp₃] at hunaligned haligned
  refine ⟨hunaligned, fun hsp => ?_⟩
  obtain ⟨c₂, hok, hr0', hbank, hmem⟩ := haligned hsp
  have hregs : savedRegs c₃ = List.ofFn (Function.update c.r 0 (restoredR0 v (c.r 0))) := by
    rw [savedRegs, hr0, hr₃, Function.update_idem, htemp.r0]
  rw [hregs, hr0, htemp.savedWords_putWords hstack.apart] at hmem
  refine ⟨c₂, hok, hr0', ?_, ?_⟩
  · rw [hbank .svc (by decide), hspsr₃]
  · rw [hmem, hr0']
    exact frameHolds_putWords _ _ _ _ _ _ _ _

/-! ### Returning -/

theorem restoreSys_spec (c : Cpu) : (restoreSys c).r = c.r ∧ (restoreSys c).mem = c.mem ∧
    (restoreSys c).bank .svc = c.bank .svc ∧
    ((restoreSys c).bank .usr).sp = getWord c.mem (c.r 0 + 13 * 4) ∧
    ((restoreSys c).bank .usr).lr = getWord c.mem (c.r 0 + 14 * 4) := by
  have hmode : (c.msrCpsrC (0xC0 ||| modeSys)).mode = .usr := by
    rw [Cpu.msrCpsrC_mode]
    decide
  obtain ⟨x, hx⟩ : ∃ x, x = getWord c.mem (c.r 0 + 13 * 4) := ⟨_, rfl⟩
  have hmode' : ((c.msrCpsrC (0xC0 ||| modeSys)).setSp x).mode = .usr := hmode
  have hrun : restoreSys c = ((c.msrCpsrC (0xC0 ||| modeSys)).setSp x).setLr
      (getWord c.mem (c.r 0 + 14 * 4)) := by
    rw [hx]
    rfl
  rw [hrun, ← hx]
  refine ⟨rfl, rfl, ?_, ?_, ?_⟩
  · rw [Cpu.setLr_bank_of_ne _ _ _ (by rw [hmode']; decide),
      Cpu.setSp_bank_of_ne _ _ _ (by rw [hmode]; decide), Cpu.msrCpsrC_bank]
  · rw [← hmode']
    exact (Cpu.setLr_sp _ _).trans (Cpu.setSp_sp _ _)
  · rw [← hmode']
    exact Cpu.setLr_lr _ _

theorem switchToSvc_spec (c : Cpu) : (switchToSvc c).r = Function.update c.r 1
      (getWord c.mem (c.r 0 + 16 * 4)) ∧ (switchToSvc c).mem = c.mem ∧
    (switchToSvc c).bank .usr = c.bank .usr ∧
    (switchToSvc c).lr = getWord c.mem (c.r 0 + 15 * 4) ∧
    (switchToSvc c).spsr = (getWord c.mem (c.r 0 + 16 * 4) &&& 0xFF0000FF) |||
      ((c.bank .svc).spsr &&& 0x00FFFF00) := by
  have hmode : (c.msrCpsrC (0xC0 ||| modeSvc)).mode = .svc := by
    rw [Cpu.msrCpsrC_mode]
    decide
  obtain ⟨y, hy⟩ : ∃ y, y = getWord c.mem (c.r 0 + 16 * 4) := ⟨_, rfl⟩
  have hrun : switchToSvc c = (((c.msrCpsrC (0xC0 ||| modeSvc)).setR 1 y).msrSpsr y).setLr
      (getWord c.mem (c.r 0 + 15 * 4)) := by
    rw [hy]
    rfl
  have hother : Mode.usr ≠ ((c.msrCpsrC (0xC0 ||| modeSvc)).setR 1 y).mode := by
    rw [Cpu.setR_mode, hmode]
    decide
  have hother' : Mode.usr ≠ (((c.msrCpsrC (0xC0 ||| modeSvc)).setR 1 y).msrSpsr y).mode := hother
  rw [hrun, ← hy]
  refine ⟨rfl, rfl, ?_, Cpu.setLr_lr _ _, ?_⟩
  · rw [Cpu.setLr_bank_of_ne _ _ _ hother', Cpu.msrSpsr_bank_of_ne _ _ _ hother, Cpu.setR_bank,
      Cpu.msrCpsrC_bank]
  · rw [Cpu.setLr_spsr, Cpu.msrSpsr_spsr, Cpu.setR_spsr, Cpu.spsr, hmode, Cpu.msrCpsrC_bank]

/-- **`trap_return`** resumes what the trap frame holds, except for the middle bytes of the `psr`,
which are those of `spsr_svc`. -/
theorem trapReturn_spec {c : Cpu} {r : Fin 13 → BitVec 32} {sp lr pc psr vector : BitVec 32}
    (haligned : (c.r 0).toNat % 4 = 0) (h : FrameHolds c.mem (c.r 0) r sp lr pc psr vector) :
    ∃ c₃, trapReturn c = .ok c₃ ∧ c₃.r = r ∧ (c₃.bank .usr).sp = sp ∧ (c₃.bank .usr).lr = lr ∧
      c₃.pc = pc ∧ c₃.cpsr = (psr &&& 0xFF0000FF) ||| ((c.bank .svc).spsr &&& 0x00FFFF00) := by
  obtain ⟨hr₁, hmem₁, hsvc₁, hsp₁, hlr₁⟩ := restoreSys_spec c
  obtain ⟨hr₂, hmem₂, husr₂, hlr₂, hspsr₂⟩ := switchToSvc_spec (restoreSys c)
  obtain ⟨c₂, hc₂⟩ : ∃ c₂, c₂ = switchToSvc (restoreSys c) := ⟨_, rfl⟩
  rw [← hc₂] at hr₂ hmem₂ husr₂ hlr₂ hspsr₂
  rw [hmem₁, hr₁] at hr₂ hlr₂ hspsr₂
  rw [hmem₁] at hmem₂
  have hr0 : c₂.r 0 = c.r 0 := by rw [hr₂, Function.update_of_ne (by decide)]
  refine ⟨movsPcLr (c₂.loadRegs (c.r 0) 13), ?_, ?_, ?_, ?_, ?_, ?_⟩
  · have hload : c₂.ldmia (c.r 0) 13 = .ok (c₂.loadRegs (c.r 0) 13) := if_pos haligned
    rw [trapReturn, ← hc₂, hr0, hload]
    rfl
  · funext i
    show (if i.val < 13 then getWord c₂.mem (c.r 0 + BitVec.ofNat 32 (4 * i)) else c₂.r i) = r i
    rw [if_pos i.isLt, hmem₂, h.regs i]
  · show (c₂.bank .usr).sp = sp
    rw [husr₂, hsp₁, h.sp]
  · show (c₂.bank .usr).lr = lr
    rw [husr₂, hlr₁, h.lr]
  · show c₂.lr = pc
    rw [hlr₂, h.pc]
  · show c₂.spsr = _
    rw [hspsr₂, h.psr, hsvc₁]

/-! ### The round trip -/

/-- The state of SYS mode that was interrupted is resumed. -/
structure Resumes (c c₃ : Cpu) : Prop where
  regs : c₃.r = c.r
  sp : (c₃.bank .usr).sp = (c.bank .usr).sp
  lr : (c₃.bank .usr).lr = (c.bank .usr).lr
  pc : c₃.pc = c.pc
  psr : c₃.cpsr = c.cpsr

/-- `trap` calls `trap_return` on the trap frame it was given, unmodified.  It may have used all
registers and any other memory, but not `spsr` of SVC mode. -/
structure Returned (c₂ c₂' : Cpu) : Prop where
  tf : c₂'.r 0 = c₂.r 0
  frame : ∀ x, Within (c₂.r 0) 72 x → c₂'.mem x = c₂.mem x
  spsr : (c₂'.bank .svc).spsr = (c₂.bank .svc).spsr

/-- **What a trap should do**: `trap` is called with a trap frame of the interrupted state, and
returning from it resumes that state. -/
def RoundTrip (v : Vector) (masks : BitVec 32) (c : Cpu) : Prop :=
  ∃ c₂, enterSys (exception v (takeException v masks c)) = .ok c₂ ∧
    FrameHolds c₂.mem (c₂.r 0) c.r (c.bank .usr).sp (c.bank .usr).lr c.pc c.cpsr v.vct ∧
    ∀ c₂', Returned c₂ c₂' → ∃ c₃, trapReturn c₂' = .ok c₃ ∧ Resumes c c₃

/-- **What survives a trap**: `stm` can write below `sp`; `r0` has nothing in its lower half; the
middle bytes of the `psr` are those that SVC mode has from before; and the address of an undefined
instruction is that of an ARM instruction. -/
structure Survives (v : Vector) (c : Cpu) : Prop where
  sp : (c.bank .usr).sp.toNat % 4 = 0
  r0 : (c.r 0).toNat % 2 ^ 16 = 0
  psr : v ≠ .svc → c.cpsr &&& 0x00FFFF00 = (c.bank .svc).spsr &&& 0x00FFFF00
  pc : ¬ (v = .und ∧ thumb c.cpsr = true)

theorem restoredR0_eq_self_iff (v : Vector) (x : BitVec 32) :
    restoredR0 v x = x ↔ x.toNat % 2 ^ 16 = 0 := by
  have hvct : v.vct.extractLsb' 16 16 = 0#16 := by cases v <;> decide
  have hlt := x.isLt
  rw [restoredR0, hvct, ← BitVec.toNat_inj, BitVec.toNat_append, BitVec.extractLsb'_toNat]
  simp only [BitVec.toNat_ofNat, Nat.shiftRight_eq_div_pow, Nat.shiftLeft_eq, Nat.zero_mod,
    Nat.or_zero]
  omega

/-- A `psr` put together from two. -/
theorem mergedPsr_eq_iff (p s : BitVec 32) :
    (p &&& 0xFF0000FF) ||| (s &&& 0x00FFFF00) = p ↔ p &&& 0x00FFFF00 = s &&& 0x00FFFF00 := by
  constructor
  · intro h
    calc p &&& 0x00FFFF00 = ((p &&& 0xFF0000FF) ||| (s &&& 0x00FFFF00)) &&& 0x00FFFF00 := by rw [h]
      _ = s &&& 0x00FFFF00 := by
        rw [BitVec.and_or_distrib_right, BitVec.and_assoc, BitVec.and_assoc,
          show (0xFF0000FF : BitVec 32) &&& 0x00FFFF00 = 0#32 by decide, BitVec.and_zero,
          BitVec.zero_or, BitVec.and_self]
  · intro h
    rw [← h, ← BitVec.and_or_distrib_left,
      show (0xFF0000FF : BitVec 32) ||| 0x00FFFF00 = BitVec.allOnes 32 by decide,
      BitVec.and_allOnes]

theorem resumeAddress_eq_iff (v : Vector) (c : Cpu) :
    resumeAddress v c = c.pc ↔ ¬ (v = .und ∧ thumb c.cpsr = true) := by
  rw [resumeAddress]
  split
  · refine iff_of_false (fun h => ?_) (not_not.2 ‹_›)
    bv_omega
  · exact iff_of_true rfl ‹_›

theorem FrameHolds.congr {mem mem' : BitVec 32 → BitVec 8} {tf : BitVec 32}
    {r : Fin 13 → BitVec 32} {sp lr pc psr vector : BitVec 32}
    (h : FrameHolds mem tf r sp lr pc psr vector) (hsame : ∀ x, Within tf 72 x → mem' x = mem x) :
    FrameHolds mem' tf r sp lr pc psr vector := by
  have hword : ∀ d : BitVec 32, d.toNat + 4 ≤ 72 → getWord mem' (tf + d) = getWord mem (tf + d) := by
    intro d hd
    refine getWord_congr fun x hx => hsame x ?_
    rw [Within] at hx ⊢
    bv_omega
  refine ⟨fun i => ?_, ?_, ?_, ?_, ?_, ?_⟩
  · have hi := i.isLt
    rw [hword _ (by bv_omega), h.regs i]
  · rw [hword _ (by decide), h.sp]
  · rw [hword _ (by decide), h.lr]
  · rw [hword _ (by decide), h.pc]
  · rw [hword _ (by decide), h.psr]
  · rw [hword _ (by decide), h.vector]

section RoundTrip

variable {v : Vector} {masks : BitVec 32} {c : Cpu}

/-- Any return from the trap frame that was built. -/
theorem trapReturn_of_enterSys (hsys : c.cpsr &&& modeMask = modeSys) (hstack : TrapStack v c)
    (hsp : (c.bank .usr).sp.toNat % 4 = 0) :
    ∃ c₂, enterSys (exception v (takeException v masks c)) = .ok c₂ ∧
      FrameHolds c₂.mem (c₂.r 0) (Function.update c.r 0 (restoredR0 v (c.r 0)))
        (c.bank .usr).sp (c.bank .usr).lr (resumeAddress v c) c.cpsr v.vct ∧
      ∀ c₂', Returned c₂ c₂' → ∃ c₃, trapReturn c₂' = .ok c₃ ∧
        c₃.r = Function.update c.r 0 (restoredR0 v (c.r 0)) ∧
        (c₃.bank .usr).sp = (c.bank .usr).sp ∧ (c₃.bank .usr).lr = (c.bank .usr).lr ∧
        c₃.pc = resumeAddress v c ∧
        c₃.cpsr = (c.cpsr &&& 0xFF0000FF) |||
          ((if v = .svc then c.cpsr else (c.bank .svc).spsr) &&& 0x00FFFF00) := by
  obtain ⟨c₂, hok, htf, hspsr, hframe⟩ := (enterSys_spec v masks c hsys hstack).2 hsp
  refine ⟨c₂, hok, hframe, fun c₂' hret => ?_⟩
  have haligned : (c₂'.r 0).toNat % 4 = 0 := by
    rw [hret.tf, htf]
    bv_omega
  have hframe' := hframe.congr hret.frame
  rw [← hret.tf] at hframe'
  rw [← hspsr, ← hret.spsr]
  exact trapReturn_spec haligned hframe'

/-- Nothing else survives. -/
theorem survives_of_roundTrip (hsys : c.cpsr &&& modeMask = modeSys) (hstack : TrapStack v c)
    (h : RoundTrip v masks c) : Survives v c := by
  obtain ⟨c₂', hok', -, hall⟩ := h
  have hsp : (c.bank .usr).sp.toNat % 4 = 0 := by
    by_contra hsp
    rw [(enterSys_spec v masks c hsys hstack).1 hsp] at hok'
    cases hok'
  obtain ⟨c₂, hok, -, hreturn⟩ := trapReturn_of_enterSys hsys hstack hsp
  obtain rfl : c₂' = c₂ := Except.ok.inj (hok'.symm.trans hok)
  have hret : Returned c₂' c₂' := ⟨rfl, fun _ _ => rfl, rfl⟩
  obtain ⟨c₃', hrun', hres⟩ := hall c₂' hret
  obtain ⟨c₃, hrun, hr, -, -, hpc, hpsr⟩ := hreturn c₂' hret
  obtain rfl : c₃' = c₃ := Except.ok.inj (hrun'.symm.trans hrun)
  refine ⟨hsp, ?_, fun hv => ?_, ?_⟩
  · have hr0 := congrFun (hr.symm.trans hres.regs) 0
    rw [Function.update_self] at hr0
    exact (restoredR0_eq_self_iff v (c.r 0)).1 hr0
  · rw [if_neg hv] at hpsr
    exact (mergedPsr_eq_iff _ _).1 (hpsr.symm.trans hres.psr)
  · exact (resumeAddress_eq_iff v c).1 (hpc.symm.trans hres.pc)

/-- These states survive. -/
theorem roundTrip_of_survives (hsys : c.cpsr &&& modeMask = modeSys) (hstack : TrapStack v c)
    (h : Survives v c) : RoundTrip v masks c := by
  obtain ⟨c₂, hok, hframe, hreturn⟩ := trapReturn_of_enterSys hsys hstack h.sp
  have hregs : Function.update c.r 0 (restoredR0 v (c.r 0)) = c.r := by
    rw [(restoredR0_eq_self_iff v (c.r 0)).2 h.r0, Function.update_eq_self]
  have hpc := (resumeAddress_eq_iff v c).2 h.pc
  have hpsr : (c.cpsr &&& 0xFF0000FF) |||
      ((if v = .svc then c.cpsr else (c.bank .svc).spsr) &&& 0x00FFFF00) = c.cpsr := by
    rw [mergedPsr_eq_iff]
    by_cases hv : v = .svc
    · rw [if_pos hv]
    · rw [if_neg hv, h.psr hv]
  rw [hregs, hpc] at hframe
  rw [hregs, hpc, hpsr] at hreturn
  refine ⟨c₂, hok, hframe, fun c₂' hret => ?_⟩
  obtain ⟨c₃, hrun, hr, hsp, hlr, hpc', hcpsr⟩ := hreturn c₂' hret
  exact ⟨c₃, hrun, hr, hsp, hlr, hpc', hcpsr⟩

/-- **Exactly which states survive a trap.** -/
theorem roundTrip_iff (v : Vector) (masks : BitVec 32) (c : Cpu)
    (hsys : c.cpsr &&& modeMask = modeSys) (hstack : TrapStack v c) :
    RoundTrip v masks c ↔ Survives v c :=
  ⟨survives_of_roundTrip hsys hstack, roundTrip_of_survives hsys hstack⟩

end RoundTrip

/-- A processor in SYS mode. -/
def sysCpu (r0 psr : BitVec 32) : Cpu where
  r := fun i => if i = 0 then r0 else 7
  bank := fun m => ⟨if m = .usr then 0x8000 else 0x9000, 0, modeSvc⟩
  pc := 0x10000
  cpsr := psr
  mem := fun _ => 0

theorem trapStack_sysCpu (v : Vector) (r0 psr : BitVec 32) : TrapStack v (sysCpu r0 psr) := by
  have hsp : ((sysCpu r0 psr).bank v.mode).sp = 0x9000 := if_neg v.mode_ne_usr
  have husr : ((sysCpu r0 psr).bank .usr).sp = 0x8000 := rfl
  refine ⟨by rw [hsp]; decide, fun x hx hx' => ?_⟩
  rw [hsp, Within] at hx
  rw [husr, Within] at hx'
  bv_omega

/-- An interrupt with `r0` at a multiple of `2 ^ 16` is survived. -/
theorem roundTrip_high_half : RoundTrip .irq 0 (sysCpu 0x80100000 modeSys) :=
  (roundTrip_iff .irq 0 (sysCpu 0x80100000 modeSys) (by decide) (trapStack_sysCpu _ _ _)).2
    ⟨by decide, by decide, fun _ => by decide, fun h => by cases h.1⟩

/-- An interrupt with 1 in `r0` is not, and neither is one with the GE flags in the `psr`. -/
theorem r0_and_psr_corrupted :
    (sysCpu 1 modeSys).cpsr &&& modeMask = modeSys ∧ TrapStack .irq (sysCpu 1 modeSys) ∧
    ¬ RoundTrip .irq 0 (sysCpu 1 modeSys) ∧
    (sysCpu 0 (modeSys ||| 0xF0000)).cpsr &&& modeMask = modeSys ∧
    TrapStack .irq (sysCpu 0 (modeSys ||| 0xF0000)) ∧
    ¬ RoundTrip .irq 0 (sysCpu 0 (modeSys ||| 0xF0000)) := by
  have hstack := trapStack_sysCpu .irq
  refine ⟨by decide, hstack _ _, fun h => ?_, by decide, hstack _ _, fun h => ?_⟩
  · have hr0 := (survives_of_roundTrip (by decide) (hstack _ _) h).r0
    exact absurd hr0 (by decide)
  · have hpsr := (survives_of_roundTrip (by decide) (hstack _ _) h).psr (by decide)
    exact absurd hpsr (by decide)

end Aim.Arm
