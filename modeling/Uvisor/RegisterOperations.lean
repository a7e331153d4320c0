import Mathlib.Tactic.IntervalCases
import Uvisor.RegisterGateway

/-!
# The operations of the register macros

The macros of the library build a gateway whose operation packs its type, its
width and whether it is shared in sixteen bits, and pass a value on the stack.
The monitor unpacks the operation and carries it out on as many bytes as the
register has. What the macros document is what is left in these bytes.
-/

namespace Uvisor.RegisterOperations

open ArmMpu (Word)
open BoxEnumeration (UvisorConfig)
open ByteMemory RegisterGateway

/-! ## The macros -/

/-- UVISOR_RGW_OP. -/
def rgwOp (type : BitVec 16) (width : ℕ) (shared : Bool) : BitVec 16 :=
  (type &&& 0x00FF#16) ||| ((BitVec.ofNat 16 width <<< 8) &&& 0x3F00#16) |||
    ((BitVec.ofNat 16 shared.toNat <<< 15) &&& 0x8000#16)

/-- What the macros say about a register and its box. -/
structure Target where
  /-- Address of the box's entry in the table of configurations. -/
  boxPtr : Word
  /-- UVISOR_RGW_SHARED or UVISOR_RGW_EXCLUSIVE. -/
  shared : Bool
  /-- Address of the register. -/
  address : Word
  /-- Size of the register's type. -/
  width : ℕ

/-- A call of a gateway with the value that is passed, if any. -/
structure Call where
  /-- The gateway. -/
  gateway : Gateway
  /-- The first argument. -/
  argument : Option Word

/-- uvisor_read. -/
def uvisorRead (target : Target) (op : BitVec 16) (mask : Word) : Call where
  gateway := ⟨gatewayMagic, target.boxPtr, target.address, mask,
    rgwOp op target.width target.shared⟩
  argument := none

/-- uvisor_write. -/
def uvisorWrite (target : Target) (value : Word) (op : BitVec 16) (mask : Word) : Call where
  gateway := ⟨gatewayMagic, target.boxPtr, target.address, mask,
    rgwOp op target.width target.shared⟩
  argument := some value

/-- UVISOR_BITS_GET. -/
def uvisorBitsGet (target : Target) (mask : Word) : Call := uvisorRead target opReadAnd mask

/-- UVISOR_BITS_SET. -/
def uvisorBitsSet (target : Target) (mask : Word) : Call :=
  uvisorWrite target mask opWriteOr mask

/-- UVISOR_BITS_CLEAR. -/
def uvisorBitsClear (target : Target) (mask : Word) : Call :=
  uvisorWrite target 0x00000000 opWriteAnd mask

/-- UVISOR_BITS_SET_VALUE. -/
def uvisorBitsSetValue (target : Target) (mask value : Word) : Call :=
  uvisorWrite target value opWriteReplace mask

/-- UVISOR_BITS_TOGGLE. -/
def uvisorBitsToggle (target : Target) (mask : Word) : Call :=
  uvisorWrite target 0xFFFFFFFF opWriteXor mask

/-! ## What they document -/

/-- The macros. -/
inductive BitsMacro where
  | get
  | set
  | clear
  | setValue (value : Word)
  | toggle

/-- The call that a macro expands to. -/
def BitsMacro.call (bits : BitsMacro) (target : Target) (mask : Word) : Call :=
  match bits with
  | .get => uvisorBitsGet target mask
  | .set => uvisorBitsSet target mask
  | .clear => uvisorBitsClear target mask
  | .setValue value => uvisorBitsSetValue target mask value
  | .toggle => uvisorBitsToggle target mask

/-- What a macro makes of the contents of a register. -/
def BitsMacro.documented (bits : BitsMacro) (contents mask : Word) : Word :=
  match bits with
  | .get => contents &&& mask
  | .set => contents ||| mask
  | .clear => contents &&& ~~~mask
  | .setValue value => (contents &&& ~~~mask) ||| (value &&& mask)
  | .toggle => contents ^^^ mask

/-- A value cut off at the width of a register. -/
def truncated (width : ℕ) (value : Word) : Word := (value.setWidth (8*width)).setWidth 32

/-- The documented value is returned on the stack, and no register is written. -/
structure Returns (target : Target) (svcSp value : Word) (m m' : Memory 32)
    (accesses : List Access) : Prop where
  /-- The value after the conversion to the type of the register. -/
  result : truncated target.width (read m' svcSp 4) = truncated target.width value
  /-- Only the word on the stack changes. -/
  frame : ∀ other, 4 ≤ offset svcSp other → m' other = m other
  /-- No register is written. -/
  reads : ∀ access ∈ accesses, access.writes = false

/-- The documented value is left in the register. -/
structure Leaves (target : Target) (mask value : Word) (m m' : Memory 32) : Prop where
  /-- The register holds the value. -/
  result : (read m' target.address target.width : Word) = truncated target.width value
  /-- Bits of the register outside the mask are kept. -/
  outside : ∀ j, mask.getLsbD j = false →
    (read m' target.address target.width : Word).getLsbD j =
      (read m target.address target.width : Word).getLsbD j
  /-- Bytes outside the register are kept. -/
  frame : ∀ other, target.width ≤ offset target.address other → m' other = m other

/-- A macro has done what it documents. -/
def Implements (bits : BitsMacro) (target : Target) (mask svcSp : Word) (m m' : Memory 32)
    (accesses : List Access) : Prop :=
  let value := bits.documented (read m target.address target.width) mask
  match bits with
  | .get => Returns target svcSp value m m' accesses
  | _ => Leaves target mask value m m'

/-! ## Packing and unpacking -/

section Operations

variable {u : UvisorConfig} {activeBox : ℕ} {svcSp svcPc result mask : Word} {m : Memory 32}
  {g : Gateway} {bits : BitsMacro} {target : Target}

/-- The type of a packed operation. -/
theorem opType_rgwOp (type : BitVec 16) (width : ℕ) (shared : Bool) :
    opType (rgwOp type width shared) = type &&& 0x00FF := by
  unfold opType rgwOp
  generalize BitVec.ofNat 16 width = w
  generalize BitVec.ofNat 16 shared.toNat = s
  ext i hi
  interval_cases i <;> simp

/-- The width of a packed operation. -/
theorem opWidth_rgwOp (type : BitVec 16) (width : ℕ) (shared : Bool) :
    opWidth (rgwOp type width shared) = width%64 := by
  have hfield : (rgwOp type width shared &&& 0x3F00) >>> 8 = BitVec.ofNat 16 width &&& 0x3F := by
    unfold rgwOp
    generalize BitVec.ofNat 16 width = w
    generalize BitVec.ofNat 16 shared.toNat = s
    ext i hi
    interval_cases i <;> simp
  unfold opWidth
  rw [hfield, BitVec.toNat_and, BitVec.toNat_ofNat]
  have hmask : (0x3F : BitVec 16).toNat = 2^6-1 := rfl
  rw [hmask, Nat.and_two_pow_sub_one_eq_mod]
  omega

/-- Whether a packed operation is shared. -/
theorem opShared_rgwOp (type : BitVec 16) (width : ℕ) (shared : Bool) :
    opShared (rgwOp type width shared) = shared := by
  have hfield : rgwOp type width shared &&& (0x8000 : BitVec 16) =
      BitVec.ofNat 16 shared.toNat <<< 15 := by
    unfold rgwOp
    generalize BitVec.ofNat 16 width = w
    generalize BitVec.ofNat 16 shared.toNat = s
    ext i hi
    interval_cases i <;> simp
  unfold opShared
  rw [hfield]
  cases shared <;> rfl

/-- An accepted gateway whose operation reads. -/
theorem perform_returned (hg : gatewayAt m svcPc = g) (haccepted : Accepted u activeBox svcPc g)
    (heffect : combine (opType g.operation) (read m g.address (opWidth g.operation)) g.mask
      (read m svcSp 4) = some (.returned result)) :
    registerGatewayPerformOperation u activeBox svcSp svcPc m =
      ⟨[⟨false, g.address, opWidth g.operation⟩], some (write m svcSp 4 result)⟩ := by
  unfold registerGatewayPerformOperation
  dsimp only
  rw [hg, if_neg (not_not.mpr haccepted.1), if_neg (not_not.mpr haccepted.2), heffect]

/-- An accepted gateway whose operation writes. -/
theorem perform_stored (hg : gatewayAt m svcPc = g) (haccepted : Accepted u activeBox svcPc g)
    (heffect : combine (opType g.operation) (read m g.address (opWidth g.operation)) g.mask
      (read m svcSp 4) = some (.stored result)) :
    registerGatewayPerformOperation u activeBox svcSp svcPc m =
      ⟨[⟨false, g.address, opWidth g.operation⟩, ⟨true, g.address, opWidth g.operation⟩],
        some (write m g.address (opWidth g.operation) result)⟩ := by
  unfold registerGatewayPerformOperation
  dsimp only
  rw [hg, if_neg (not_not.mpr haccepted.1), if_neg (not_not.mpr haccepted.2), heffect]

/-! ## The macros do what they document -/

/-- The documented effect of a macro. -/
def BitsMacro.effect (bits : BitsMacro) (contents mask : Word) : Effect :=
  match bits with
  | .get => .returned (bits.documented contents mask)
  | _ => .stored (bits.documented contents mask)

theorem effect_of_writes (hwrites : bits ≠ .get) (contents : Word) :
    bits.effect contents mask = .stored (bits.documented contents mask) := by
  cases bits with
  | get => exact absurd rfl hwrites
  | _ => rfl

theorem implements_of_leaves {m' : Memory 32} {accesses : List Access} (hwrites : bits ≠ .get)
    (h : Leaves target mask (bits.documented (read m target.address target.width) mask) m m') :
    Implements bits target mask svcSp m m' accesses := by
  cases bits with
  | get => exact absurd rfl hwrites
  | _ => exact h

/-- The operation that a macro packs has its documented effect on the value
that the macro passes. -/
theorem combine_call {value : Word}
    (hargument : ∀ passed ∈ (bits.call target mask).argument, value = passed) (contents : Word) :
    combine (opType (bits.call target mask).gateway.operation) contents mask value =
      some (bits.effect contents mask) := by
  cases bits with
  | get =>
    rw [BitsMacro.call, uvisorBitsGet, uvisorRead, opType_rgwOp]
    rfl
  | set =>
    have hvalue : value = mask := hargument mask rfl
    rw [BitsMacro.call, uvisorBitsSet, uvisorWrite, opType_rgwOp, hvalue]
    change some (Effect.stored (contents ||| (mask &&& mask))) = _
    rw [BitVec.and_self]
    rfl
  | clear =>
    have hvalue : value = 0 := hargument 0 rfl
    rw [BitsMacro.call, uvisorBitsClear, uvisorWrite, opType_rgwOp, hvalue]
    change some (Effect.stored (contents &&& (0 ||| ~~~mask))) = _
    rw [show (0 : Word) ||| ~~~mask = ~~~mask from BitVec.zero_or]
    rfl
  | setValue passed =>
    have hvalue : value = passed := hargument passed rfl
    rw [BitsMacro.call, uvisorBitsSetValue, uvisorWrite, opType_rgwOp, hvalue]
    rfl
  | toggle =>
    have hvalue : value = 0xFFFFFFFF := hargument _ rfl
    rw [BitsMacro.call, uvisorBitsToggle, uvisorWrite, opType_rgwOp, hvalue]
    change some (Effect.stored (contents ^^^ (BitVec.allOnes 32 &&& mask))) = _
    rw [BitVec.allOnes_and]
    rfl

/-- The bits outside the mask are kept by what is written. -/
theorem documented_getLsbD (hwrites : bits ≠ .get) {contents : Word} {j : ℕ}
    (hmask : mask.getLsbD j = false) :
    (bits.documented contents mask).getLsbD j = contents.getLsbD j := by
  cases bits with
  | get => exact absurd rfl hwrites
  | set => rw [BitsMacro.documented, BitVec.getLsbD_or, hmask, Bool.or_false]
  | clear =>
    rw [BitsMacro.documented, BitVec.getLsbD_and, BitVec.getLsbD_not, hmask]
    by_cases hj : j < 32
    · simp [hj]
    · simp [hj, BitVec.getLsbD_of_ge contents j (by omega)]
  | setValue value =>
    rw [BitsMacro.documented, BitVec.getLsbD_or, BitVec.getLsbD_and, BitVec.getLsbD_and,
      BitVec.getLsbD_not, hmask]
    by_cases hj : j < 32
    · simp [hj]
    · simp [hj, BitVec.getLsbD_of_ge contents j (by omega)]
  | toggle => rw [BitsMacro.documented, BitVec.getLsbD_xor, hmask, Bool.xor_false]

theorem truncated_getLsbD {width : ℕ} {value : Word} (j : ℕ) :
    (truncated width value).getLsbD j = (decide (j < 8*width) && value.getLsbD j) := by
  unfold truncated
  by_cases hj : j < 32
  · simp [hj]
  · simp [hj, BitVec.getLsbD_of_ge value j (by omega)]

/-- A read of a register has no bits beyond its width. -/
theorem read_getLsbD_of_ge {address : Word} {width j : ℕ} (h : 8*width ≤ j) :
    (read m address width : Word).getLsbD j = false := by
  by_cases hj : j < 32
  · simp [getLsbD_read m address width hj, show ¬j < 8*width by omega]
  · exact BitVec.getLsbD_of_ge _ _ (by omega)

/-- What is left when a documented value has been written to a register. -/
theorem leaves_of_write (hwidth : target.width ≤ 2^32) (hwrites : bits ≠ .get) :
    Leaves target mask (bits.documented (read m target.address target.width) mask) m
      (write m target.address target.width
        (bits.documented (read m target.address target.width) mask)) := by
  have hresult : (read (write m target.address target.width
      (bits.documented (read m target.address target.width) mask)) target.address target.width :
      Word) = truncated target.width (bits.documented (read m target.address target.width) mask) :=
    read_write hwidth
  refine ⟨hresult, fun j hmask => ?_, fun other hother => write_of_le hother⟩
  rw [hresult, truncated_getLsbD, documented_getLsbD hwrites hmask]
  by_cases hj : j < 8*target.width
  · simp [hj]
  · simp [hj, read_getLsbD_of_ge (m := m) (not_lt.mp hj)]

/-- One execution on the gateway of a macro does what the macro documents: the
value is left in the register, or returned, bits outside the mask and bytes
outside the width are kept, and a read operation writes no register. -/
theorem macro_implements (bits : BitsMacro) (target : Target) (mask : Word)
    (hwidth : target.width = 1 ∨ target.width = 2 ∨ target.width = 4)
    (hg : gatewayAt m svcPc = (bits.call target mask).gateway)
    (hargument : ∀ passed ∈ (bits.call target mask).argument, read m svcSp 4 = passed)
    (hcheck : registerGatewayCheck u activeBox svcPc (gatewayAt m svcPc) = 0) :
    ∃ m', (registerGatewayPerformOperation u activeBox svcSp svcPc m).mem = some m' ∧
      Implements bits target mask svcSp m m'
        (registerGatewayPerformOperation u activeBox svcSp svcPc m).accesses := by
  have haddress : (bits.call target mask).gateway.address = target.address := by
    cases bits <;> rfl
  have hmask : (bits.call target mask).gateway.mask = mask := by cases bits <;> rfl
  have hopWidth : opWidth (bits.call target mask).gateway.operation = target.width := by
    have hpacked : opWidth (bits.call target mask).gateway.operation = target.width%64 := by
      cases bits <;> exact opWidth_rgwOp _ _ _
    omega
  have haccepted : Accepted u activeBox svcPc (bits.call target mask).gateway := by
    refine ⟨hg ▸ hcheck, ?_⟩
    rw [hopWidth]
    omega
  have heffect : combine (opType (bits.call target mask).gateway.operation)
      (read m (bits.call target mask).gateway.address
        (opWidth (bits.call target mask).gateway.operation))
      (bits.call target mask).gateway.mask (read m svcSp 4) =
        some (bits.effect (read m target.address target.width) mask) := by
    rw [haddress, hmask, hopWidth]
    exact combine_call hargument _
  by_cases hreads : bits = .get
  · subst hreads
    rw [perform_returned hg haccepted heffect]
    refine ⟨_, rfl, ?_, fun other hother => write_of_le hother, by simp⟩
    rw [read_write_self (by decide) (by decide)]
  · rw [effect_of_writes hreads] at heffect
    rw [perform_stored hg haccepted heffect, haddress, hopWidth]
    exact ⟨_, rfl, implements_of_leaves hreads (leaves_of_write (by omega) hreads)⟩

/-! ## Setting a bit -/

/-- The first word of the peripherals, for the public box. -/
def sampleTarget : Target := ⟨0x80000, false, 0x40000000, 4⟩

/-- A memory with a gateway that sets the lowest bit, and its argument on the
stack. -/
def setMemory : Memory 32 :=
  write (storeGateway 0x1000 (uvisorBitsSet sampleTarget 1).gateway fun _ => 0) 0x20001000 4
    (1 : Word)

theorem setMemory_implements :
    ∃ m', (registerGatewayPerformOperation (BoxAgreement.threeConfigs 64 4096) 0 0x20001000 0x1000
        setMemory).mem = some m' ∧
      Implements .set sampleTarget 1 0x20001000 setMemory m'
        (registerGatewayPerformOperation (BoxAgreement.threeConfigs 64 4096) 0 0x20001000 0x1000
          setMemory).accesses :=
  macro_implements .set sampleTarget 1 (by decide) (by decide)
    (fun _ hpassed => Option.some.inj hpassed ▸ by decide) (by decide)

end Operations

end Uvisor.RegisterOperations
