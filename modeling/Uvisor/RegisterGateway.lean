import Uvisor.ArmMpu
import Uvisor.BoxAgreement
import Uvisor.ByteMemory

/-!
# Register gateways

A register gateway is a structure in public flash that names a register, an
operation and the box that may carry it out. The monitor checks where the
structure lies, whom it belongs to and where its register is, and then accesses
the register for the box. The owner is the index of a pointer in the table of
configurations, in eight bits, and the register is checked at its first byte.
Registers and stacks are bytes of one memory.
-/

namespace Uvisor.RegisterGateway

open ArmMpu (Word)
open BoxEnumeration (UvisorConfig publicFlashAddr)
open ByteMemory

/-! ## Gateways -/

/-- UVISOR_REGISTER_GATEWAY_MAGIC. -/
def gatewayMagic : Word := 0xF7F3A89E

/-- Size of TRegisterGateway, which is packed. -/
def gatewaySize : ℕ := 24

/-- The fields of TRegisterGateway that are read. -/
structure Gateway where
  /-- magic. -/
  magic : Word
  /-- box_ptr, the address of an entry in the table of configurations. -/
  boxPtr : Word
  /-- address of the register. -/
  address : Word
  /-- mask. -/
  mask : Word
  /-- operation, with the type, the width and whether the gateway is shared. -/
  operation : BitVec 16
  deriving DecidableEq

/-- The gateway at an address. -/
def gatewayAt (m : Memory 32) (addr : Word) : Gateway where
  magic := read m (addr+4) 4
  boxPtr := read m (addr+8) 4
  address := read m (addr+12) 4
  mask := read m (addr+16) 4
  operation := read m (addr+20) 2

/-- The type of an operation. -/
def opType (operation : BitVec 16) : BitVec 16 := operation &&& 0x00FF

/-- The width of an operation in bytes. -/
def opWidth (operation : BitVec 16) : ℕ := ((operation &&& 0x3F00) >>> 8).toNat

/-- Whether an operation is shared between the boxes. -/
def opShared (operation : BitVec 16) : Bool := operation &&& 0x8000 ≠ 0

/-! ## The check -/

/-- The box whose entry in the table a pointer is, in eight bits. -/
def boxIdOf (u : UvisorConfig) (boxPtr : Word) : ℕ :=
  (Rpc.wordPtrDiff boxPtr.toNat u.cfgtblPtrStart%256).toNat

/-- register_gateway_check. -/
def registerGatewayCheck (u : UvisorConfig) (activeBox : ℕ) (addr : Word) (g : Gateway) : ℤ :=
  if !publicFlashAddr u addr.toNat ||
      !publicFlashAddr u (addr+BitVec.ofNat 32 gatewaySize-1).toNat then -1
  else if g.magic ≠ gatewayMagic then -2
  else if g.boxPtr.toNat < u.cfgtblPtrStart then -3
  else if !opShared g.operation && boxIdOf u g.boxPtr ≠ activeBox then -4
  else if g.address &&& 0xFC000000 ≠ 0x40000000 ∧ g.address &&& 0xFFFFF000 ≠ 0xE00FF000 then -5
  else 0

/-! ## The operation -/

/-- A privileged access to a register. -/
structure Access where
  /-- Whether the register is written. -/
  writes : Bool
  /-- Address of its first byte. -/
  address : Word
  /-- Number of bytes. -/
  bytes : ℕ
  deriving DecidableEq

/-- What an operation makes of the contents of a register. -/
inductive Effect where
  /-- The result is stored to the stack of the box. -/
  | returned (result : Word)
  /-- The result is stored to the register. -/
  | stored (result : Word)

/-- UVISOR_RGW_OP_READ. -/
def opRead : BitVec 16 := 0

/-- UVISOR_RGW_OP_READ_AND. -/
def opReadAnd : BitVec 16 := 1

/-- UVISOR_RGW_OP_WRITE. -/
def opWrite : BitVec 16 := 2

/-- UVISOR_RGW_OP_WRITE_AND. -/
def opWriteAnd : BitVec 16 := 3

/-- UVISOR_RGW_OP_WRITE_OR. -/
def opWriteOr : BitVec 16 := 4

/-- UVISOR_RGW_OP_WRITE_XOR. -/
def opWriteXor : BitVec 16 := 5

/-- UVISOR_RGW_OP_WRITE_REPLACE. -/
def opWriteReplace : BitVec 16 := 6

/-- The operations, by their types. -/
def combine (type : BitVec 16) (result mask value : Word) : Option Effect :=
  if type = opRead then some (.returned result)
  else if type = opReadAnd then some (.returned (result &&& mask))
  else if type = opWrite then some (.stored value)
  else if type = opWriteAnd then some (.stored (result &&& (value ||| ~~~mask)))
  else if type = opWriteOr then some (.stored (result ||| (value &&& mask)))
  else if type = opWriteXor then some (.stored (result ^^^ (value &&& mask)))
  else if type = opWriteReplace then some (.stored ((result &&& ~~~mask) ||| (value &&& mask)))
  else none

/-- The privileged accesses of an operation, and the memory after it unless it
halts. -/
structure Run where
  /-- The accesses in order. -/
  accesses : List Access
  /-- The memory that is left. -/
  mem : Option (Memory 32)

/-- register_gateway_perform_operation. -/
def registerGatewayPerformOperation (u : UvisorConfig) (activeBox : ℕ) (svcSp svcPc : Word)
    (m : Memory 32) : Run :=
  let g := gatewayAt m svcPc
  if registerGatewayCheck u activeBox svcPc g ≠ 0 then ⟨[], none⟩
  else
    let value : Word := read m svcSp 4
    let width := opWidth g.operation
    if ¬(width = 4 ∨ width = 2 ∨ width = 1) then ⟨[], none⟩
    else
      let result : Word := read m g.address width
      match combine (opType g.operation) result g.mask value with
      | none => ⟨[⟨false, g.address, width⟩], none⟩
      | some (.returned result) =>
        ⟨[⟨false, g.address, width⟩], some (write m svcSp 4 result)⟩
      | some (.stored result) =>
        ⟨[⟨false, g.address, width⟩, ⟨true, g.address, width⟩],
          some (write m g.address width result)⟩

/-! ## Where and for whom -/

/-- The peripherals with their aliases, and the ROM table. -/
def Allowed (addr : ℕ) : Prop :=
  0x40000000 ≤ addr ∧ addr < 0x44000000 ∨ 0xE00FF000 ≤ addr ∧ addr < 0xE0100000

/-- The accesses go to allowed registers, and to those of the active box unless
the gateway is shared. -/
structure Confined (u : UvisorConfig) (activeBox : ℕ) (g : Gateway) (accesses : List Access) :
    Prop where
  /-- Every byte of every access is allowed. -/
  bytes : ∀ access ∈ accesses, ∀ i < access.bytes, Allowed (access.address.toNat+i)
  /-- A gateway that is not shared names the entry of the active box. -/
  owner : accesses ≠ [] → opShared g.operation = false →
    g.boxPtr.toNat = u.cfgtblPtrStart+4*activeBox

/-- A gateway whose register is accessed. -/
def Accepted (u : UvisorConfig) (activeBox : ℕ) (addr : Word) (g : Gateway) : Prop :=
  registerGatewayCheck u activeBox addr g = 0 ∧
    (opWidth g.operation = 4 ∨ opWidth g.operation = 2 ∨ opWidth g.operation = 1)

/-- The register ends where the allowed ones end. -/
def Fits (g : Gateway) : Prop :=
  g.address.toNat+opWidth g.operation ≤ 0x44000000 ∨
    0xE00FF000 ≤ g.address.toNat ∧ g.address.toNat+opWidth g.operation ≤ 0xE0100000

/-- A pointer to one of the first 256 entries of the table. -/
def NearEntry (u : UvisorConfig) (boxPtr : Word) : Prop :=
  boxPtr.toNat < u.cfgtblPtrStart+4*256 ∧ (boxPtr.toNat-u.cfgtblPtrStart)%4 = 0

section Checks

variable {u : UvisorConfig} {activeBox : ℕ} {addr svcSp svcPc : Word} {g : Gateway} {m : Memory 32}

/-- A word whose high bits are those of an aligned one lies in its range. -/
theorem and_highBits_eq_iff {start : Word} {k : ℕ} (hstart : 2^k ∣ start.toNat) (address : Word) :
    address &&& (BitVec.allOnes 32 <<< k) = start ↔
      start.toNat ≤ address.toNat ∧ address.toNat < start.toNat+2^k := by
  have hshift : address &&& (BitVec.allOnes 32 <<< k) = (address >>> k) <<< k := by
    refine BitVec.eq_of_getLsbD_eq fun i hi => ?_
    rw [BitVec.getLsbD_and, BitVec.getLsbD_shiftLeft, BitVec.getLsbD_shiftLeft,
      BitVec.getLsbD_ushiftRight, BitVec.getLsbD_allOnes]
    by_cases hlow : i < k
    · simp [hlow]
    · simp [hlow, hi, show i-k < 32 by omega, Nat.add_sub_cancel' (not_lt.mp hlow)]
  have hpos : 0 < 2^k := Nat.two_pow_pos k
  have hle : address.toNat/2^k*2^k ≤ address.toNat := Nat.div_mul_le_self _ _
  have hvalue : (address &&& (BitVec.allOnes 32 <<< k)).toNat = address.toNat/2^k*2^k := by
    rw [hshift, BitVec.toNat_shiftLeft, BitVec.toNat_ushiftRight, Nat.shiftRight_eq_div_pow,
      Nat.shiftLeft_eq, Nat.mod_eq_of_lt (lt_of_le_of_lt hle address.isLt)]
  obtain ⟨q, hq⟩ := hstart
  rw [← BitVec.toNat_inj, hvalue, hq, Nat.mul_comm (2^k) q,
    Nat.mul_right_cancel_iff hpos, Nat.div_eq_iff hpos]
  omega

/-- The first byte of a register in the peripherals. -/
theorem periph_mask_iff (address : Word) : address &&& 0xFC000000 = 0x40000000 ↔
    0x40000000 ≤ address.toNat ∧ address.toNat < 0x44000000 :=
  and_highBits_eq_iff (k := 26) (by decide) address

/-- The first byte of a register in the ROM table. -/
theorem romTable_mask_iff (address : Word) : address &&& 0xFFFFF000 = 0xE00FF000 ↔
    0xE00FF000 ≤ address.toNat ∧ address.toNat < 0xE0100000 :=
  and_highBits_eq_iff (k := 12) (by decide) address

/-- The owner of a gateway is the entry of its pointer, modulo 256. -/
theorem boxIdOf_eq (h : u.cfgtblPtrStart ≤ g.boxPtr.toNat) :
    boxIdOf u g.boxPtr = (g.boxPtr.toNat-u.cfgtblPtrStart)/4%256 := by
  have hlt := g.boxPtr.isLt
  have hstart := u.start_le_end
  have hend := u.end_lt
  have hwrap : Rpc.wrap (g.boxPtr.toNat+2^32-u.cfgtblPtrStart) =
      g.boxPtr.toNat-u.cfgtblPtrStart := by
    unfold Rpc.wrap
    omega
  unfold boxIdOf Rpc.wordPtrDiff
  rw [hwrap]
  dsimp only
  split_ifs <;> omega

/-- What a gateway that passes the check says. -/
theorem check_spec (h : registerGatewayCheck u activeBox addr g = 0) :
    u.cfgtblPtrStart ≤ g.boxPtr.toNat ∧
      (opShared g.operation = true ∨ boxIdOf u g.boxPtr = activeBox) ∧ Allowed g.address.toNat := by
  unfold registerGatewayCheck at h
  split_ifs at h with hflash hmagic hptr hbox haddress
  refine ⟨not_lt.mp hptr, ?_, ?_⟩
  · by_contra hnone
    rw [not_or] at hnone
    exact hbox (by simp [hnone.1, hnone.2])
  · rw [Allowed, ← periph_mask_iff, ← romTable_mask_iff]
    by_contra hnone
    exact haddress (not_or.mp hnone)

/-- Whether all bytes of a register are allowed, given its first one. -/
theorem allowed_bytes_iff (hfirst : Allowed g.address.toNat)
    (hwidth : opWidth g.operation = 4 ∨ opWidth g.operation = 2 ∨ opWidth g.operation = 1) :
    (∀ i < opWidth g.operation, Allowed (g.address.toNat+i)) ↔ Fits g := by
  unfold Allowed at hfirst
  constructor
  · intro h
    have hlast := h (opWidth g.operation-1) (by omega)
    unfold Allowed at hlast
    unfold Fits
    omega
  · intro hfits i hi
    unfold Fits at hfits
    unfold Allowed
    omega

/-- Whether a pointer is the entry of the box that its identifier names. -/
theorem entry_iff_near (hptr : u.cfgtblPtrStart ≤ g.boxPtr.toNat)
    (hbox : boxIdOf u g.boxPtr = activeBox) :
    g.boxPtr.toNat = u.cfgtblPtrStart+4*activeBox ↔ NearEntry u g.boxPtr := by
  rw [boxIdOf_eq hptr] at hbox
  unfold NearEntry
  omega

/-! ## The accesses -/

/-- A gateway that is not accepted reaches no register. -/
theorem accesses_of_not_accepted (h : ¬Accepted u activeBox svcPc (gatewayAt m svcPc)) :
    (registerGatewayPerformOperation u activeBox svcSp svcPc m).accesses = [] := by
  unfold registerGatewayPerformOperation
  dsimp only
  by_cases hcheck : registerGatewayCheck u activeBox svcPc (gatewayAt m svcPc) = 0
  · have hwidth := fun hw => h ⟨hcheck, hw⟩
    rw [if_neg (not_not.mpr hcheck), if_pos hwidth]
  · rw [if_pos hcheck]

/-- An accepted gateway reads its register, and then reaches no other one. -/
theorem accesses_of_accepted (svcSp : Word)
    (h : Accepted u activeBox svcPc (gatewayAt m svcPc)) :
    ∃ rest, (registerGatewayPerformOperation u activeBox svcSp svcPc m).accesses =
        ⟨false, (gatewayAt m svcPc).address, opWidth (gatewayAt m svcPc).operation⟩ :: rest ∧
      ∀ access ∈ rest, access =
        ⟨true, (gatewayAt m svcPc).address, opWidth (gatewayAt m svcPc).operation⟩ := by
  unfold registerGatewayPerformOperation
  dsimp only
  rw [if_neg (not_not.mpr h.1), if_neg (not_not.mpr h.2)]
  split
  · exact ⟨[], rfl, by simp⟩
  · exact ⟨[], rfl, by simp⟩
  · exact ⟨_, rfl, by simp⟩

/-- Every gateway of every box only reaches allowed registers of its owner
exactly when, if it is accepted, its register ends inside the allowed range and
it is shared or its pointer is one of the first 256 entries. -/
theorem confined_iff (u : UvisorConfig) (activeBox : ℕ) (svcSp svcPc : Word) (m : Memory 32) :
    Confined u activeBox (gatewayAt m svcPc)
        (registerGatewayPerformOperation u activeBox svcSp svcPc m).accesses ↔
      (Accepted u activeBox svcPc (gatewayAt m svcPc) → Fits (gatewayAt m svcPc) ∧
        (opShared (gatewayAt m svcPc).operation = true ∨
          NearEntry u (gatewayAt m svcPc).boxPtr)) := by
  by_cases haccepted : Accepted u activeBox svcPc (gatewayAt m svcPc)
  · obtain ⟨rest, haccesses, hrest⟩ := accesses_of_accepted svcSp haccepted
    obtain ⟨hptr, howner, hfirst⟩ := check_spec haccepted.1
    rw [haccesses, forall_prop_of_true haccepted, ← allowed_bytes_iff hfirst haccepted.2]
    constructor
    · intro h
      refine ⟨h.bytes _ (List.mem_cons_self ..), ?_⟩
      cases hshared : opShared (gatewayAt m svcPc).operation with
      | true => exact Or.inl rfl
      | false =>
        have hbox := howner.resolve_left (by simp [hshared])
        exact Or.inr ((entry_iff_near hptr hbox).mp (h.owner (List.cons_ne_nil _ _) hshared))
    · rintro ⟨hbytes, hnear⟩
      constructor
      · intro access hmem
        rcases List.mem_cons.mp hmem with rfl | hmem
        · exact hbytes
        · rw [hrest access hmem]
          exact hbytes
      · intro _ hshared
        have hexclusive : ¬opShared (gatewayAt m svcPc).operation = true := by simp [hshared]
        exact (entry_iff_near hptr (howner.resolve_left hexclusive)).mpr
          (hnear.resolve_left hexclusive)
  · rw [accesses_of_not_accepted haccepted]
    refine iff_of_true ⟨by simp, fun hne => absurd rfl hne⟩ fun h => absurd h haccepted

/-! ## An exclusive gateway whose pointer is far away -/

/-- A memory with the fields of a gateway from an address on. -/
def storeGateway (addr : Word) (g : Gateway) (m : Memory 32) : Memory 32 :=
  write (write (write (write (write m (addr+4) 4 g.magic) (addr+8) 4 g.boxPtr) (addr+12) 4
    g.address) (addr+16) 4 g.mask) (addr+20) 2 g.operation

/-- A read of the first peripheral register, for the box whose entry is 1024
bytes after the start of the table. -/
def farGateway : Memory 32 :=
  storeGateway 0x1000 ⟨gatewayMagic, 0x80400, 0x40000000, 0xFFFFFFFF, 0x0400⟩ fun _ => 0

/-- The public box may use a gateway whose pointer is not its entry. -/
theorem confined_fails : ¬Confined (BoxAgreement.threeConfigs 64 4096) 0
    (gatewayAt farGateway 0x1000)
    (registerGatewayPerformOperation (BoxAgreement.threeConfigs 64 4096) 0 0x20001000 0x1000
      farGateway).accesses := by
  intro h
  have hne : (registerGatewayPerformOperation (BoxAgreement.threeConfigs 64 4096) 0 0x20001000
      0x1000 farGateway).accesses ≠ [] := by decide
  have howner := h.owner hne (by decide)
  revert howner
  decide

end Checks

end Uvisor.RegisterGateway
