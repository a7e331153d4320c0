import Uvisor.ContextStack

/-!
# Interrupts that are served by boxes

An interrupt that a box owns is served on the stack of that box: the monitor
forges an exception frame below the saved stack pointer of the box, switches
to the box and returns from the exception into the handler. When the handler
returns, a supervisor call stacks one more frame, which the monitor discards
before it switches back. The hardware's stacking and unstacking of frames is
part of the model: a stack pointer that is not a multiple of eight is aligned
by one more word, and bit 9 of the stacked program status register says so.
-/

namespace Uvisor.Interrupts

open Context

/-- CONTEXT_SWITCH_EXC_SF_BYTES. -/
def excSfBytes : Word := 32

/-- NVIC_OFFSET. -/
def nvicOffset : Word := 16

/-- Memory by word address. -/
abbrev Memory := Word → Word

/-- Entry of the unprivileged vector table. -/
structure IsrVector where
  /-- Box that owns the interrupt. -/
  id : ℕ
  /-- Handler, null when none is registered. -/
  hdlr : Word

/-- Constants of a booted system. -/
structure Platform where
  /-- Number of boxes. -/
  boxCount : ℕ
  /-- NVIC_VECTORS. -/
  nvicVectors : ℕ
  /-- Whether an interrupt has the default handler, and so is not the
  monitor's own. -/
  isrIsDefault : ℕ → Bool

/-! ## Exception frames -/

/-- Whether one more word is needed to align a stack pointer. -/
def alignmentWords (sp : Word) : Word := if sp &&& 4 ≠ 0 then 1 else 0

/-- Copy words between two frames. -/
def copyWords (mem : Memory) (dst src : Word) : ℕ → Memory
  | 0 => mem
  | i+1 =>
    let copied := copyWords mem dst src i
    Function.update copied (dst+4*BitVec.ofNat 32 i) (copied (src+4*BitVec.ofNat 32 i))

/-- Forge a frame below the saved stack pointer of the destination. -/
def contextForgeExcSf (srcSp : Word) (dstId : ℕ) (dstFn dstLr xpsr : Word) (nargs : ℕ)
    (mem : Memory) (s : Context.State) : Word × Memory :=
  let words := alignmentWords (s.sp dstId)
  let dstSp := s.sp dstId-(excSfBytes+words*4)
  let mem := copyWords mem dstSp srcSp nargs
  let mem := Function.update mem (dstSp+16) 0
  let mem := Function.update mem (dstSp+20) (dstLr ||| 1)
  let mem := Function.update mem (dstSp+24) (dstFn ||| 1)
  (dstSp, Function.update mem (dstSp+28) (xpsr ||| (words <<< 9)))

/-- Save the stack pointer that remains when a frame is discarded. The
alignment is looked up in bit 2 of the stacked status register. -/
def contextDiscardExcSf (dstId : ℕ) (dstSp : Word) (mem : Memory) (s : Context.State) :
    Context.State :=
  let words := alignmentWords (mem (dstSp+28))
  s.setSp dstId (dstSp+excSfBytes+words*4)

/-- The hardware's stacking of a frame: the registers, with the status register
of code in thread mode, whose exception number is zero. -/
def stackFrame (sp : Word) (registers : ℕ → Word) (flags : Word) (mem : Memory) : Word × Memory :=
  let words := alignmentWords sp
  let frame := sp-(excSfBytes+words*4)
  let stacked : Memory := fun address =>
    if address-frame < 28 then registers ((address-frame).toNat/4) else mem address
  (frame, Function.update stacked (frame+28) ((flags &&& ~~~(0x3FF : Word)) ||| (words <<< 9)))

/-- The stack pointer after the hardware has unstacked a frame. -/
def unstackFrame (frame : Word) (mem : Memory) : Word :=
  frame+excSfBytes+(if mem (frame+28) &&& 0x200 ≠ 0 then 4 else 0)

/-! ## The interrupt gateway -/

/-- Whether an interrupt exists and is not the monitor's own. -/
def virqDefaultCheck (sys : Platform) (irqn : ℕ) : Bool :=
  irqn < sys.nvicVectors && sys.isrIsDefault irqn

/-- An interrupt that passes the check exists. -/
theorem lt_of_virqDefaultCheck {sys : Platform} {irqn : ℕ} (h : virqDefaultCheck sys irqn = true) :
    irqn < sys.nvicVectors := by
  unfold virqDefaultCheck at h
  rw [Bool.and_eq_true, decide_eq_true_eq] at h
  exact h.1

/-- Number of the interrupt that is being served, from the stacked status
register. -/
def irqNumber (svcSp : Word) (mem : Memory) : ℕ :=
  ((mem (svcSp+28) &&& 0x1FF)-nvicOffset).toNat

/-- Switch to the owner of an interrupt. The stack pointer of the interrupted
code is the process stack pointer. -/
def virqGatewayContextSwitchIn (sys : Platform) (vectors : ℕ → IsrVector) (svcSp svcPc : Word)
    (mem : Memory) (s : Context.State) : Option (Word × Memory × Context.State) :=
  let ipsr := mem (svcSp+28)
  let irqn := irqNumber svcSp mem
  let dstId := (vectors irqn).id
  let dstFn := (vectors irqn).hdlr
  if virqDefaultCheck sys irqn = false then none
  else if dstFn = 0 then none
  else
    let forged := contextForgeExcSf s.psp dstId dstFn (svcPc+2) (ipsr &&& ~~~(0x1FF : Word)) 0 mem s
    (contextSwitchIn sys.boxCount .functionIsr dstId s.psp forged.1 s).map fun s =>
      (forged.1, forged.2, s)

/-- Go back to the interrupted box. -/
def virqGatewayContextSwitchOut (svcSp msp : Word) (mem : Memory) (s : Context.State) :
    Option (Memory × Context.State) :=
  let mem := Function.update mem (msp+24) (mem (svcSp+24))
  let s := contextDiscardExcSf s.activeBox svcSp mem s
  (contextSwitchOut .functionIsr s).map fun out => (mem, out.2)

end Uvisor.Interrupts
