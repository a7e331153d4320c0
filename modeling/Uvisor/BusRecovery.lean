import Uvisor.AclSlices
import Uvisor.BoxAgreement
import Uvisor.ByteMemory

/-!
# Recovery from bus faults

A box that may not access a register gets a bus fault. The monitor goes back
over the instructions before the fault until it finds a load or a store with
the registers r0 and r1, and carries it out with its own privileges, at the
address in the stacked r0. An access that the bus refuses, or a program counter
outside of the public flash, is a missing result: the monitor does not return.
-/

namespace Uvisor.BusRecovery

open ArmMpu (Word MpuRegion taclUread taclUwrite)
open BoxEnumeration (UvisorConfig publicFlashAddr)
open BoxMemory (Table)
open AclSlices (vmpuRegionFindForAddress)
open ByteMemory

/-! ## Access rights -/

/-- The address of SCB->SCR. -/
def scbScr : Word := 0xE000ED10

/-- VMPU_PERIPH_BITBAND_ALIAS_TO_ADDR. -/
def periphBitbandAliasToAddr (aliasAddr : Word) : Word :=
  (((aliasAddr-0x42000000) >>> 5) &&& ~~~0x3)+0x40000000

/-- VMPU_SRAM_BITBAND_ALIAS_TO_ADDR. -/
def sramBitbandAliasToAddr (aliasAddr : Word) : Word :=
  (((aliasAddr-0x22000000) >>> 5) &&& ~~~0x3)+0x20000000

/-- vmpu_fault_find_region: the region of the active box, or else of box 0. -/
def vmpuFaultFindRegion (t : Table) (activeBox : ℕ) (faultAddr : Word) : Option MpuRegion :=
  let own := if activeBox ≠ 0 then vmpuRegionFindForAddress t activeBox faultAddr else none
  (own.or (vmpuRegionFindForAddress t 0 faultAddr)).map t.mpuRegion

/-- The address that a bit-band alias stands for. -/
def physicalAddr (faultAddr : Word) : Word :=
  if 0x42000000 ≤ faultAddr ∧ faultAddr ≤ 0x43FFFFFF then periphBitbandAliasToAddr faultAddr
  else if 0x22000000 ≤ faultAddr ∧ faultAddr ≤ 0x23FFFFFF then sramBitbandAliasToAddr faultAddr
  else faultAddr

/-- vmpu_fault_find_acl on ARMv7-M. -/
def vmpuFaultFindAcl (t : Table) (activeBox : ℕ) (faultAddr size : Word) : Word :=
  if faultAddr = scbScr then taclUwrite ||| taclUread
  else
    let faultAddr := physicalAddr faultAddr
    match vmpuFaultFindRegion t activeBox faultAddr with
    | none => 0
    | some region => if region.ends < faultAddr+size then 0 else region.acl

/-! ## Instructions -/

/-- The loads and stores that are recognised. -/
inductive Instruction where
  | str
  | strh
  | strb
  | ldr
  | ldrh
  | ldrb
  deriving DecidableEq

/-- The encoding with the address in r0, the source in r1 and the destination in
r0. -/
def Instruction.opcode : Instruction → BitVec 16
  | .str => 0x6001
  | .strh => 0x8001
  | .strb => 0x7001
  | .ldr => 0x6800
  | .ldrh => 0x8800
  | .ldrb => 0x7800

/-- Number of bytes that are accessed. -/
def Instruction.bytes : Instruction → ℕ
  | .str | .ldr => 4
  | .strh | .ldrh => 2
  | .strb | .ldrb => 1

/-- Whether memory is written. -/
def Instruction.stores : Instruction → Bool
  | .str | .strh | .strb => true
  | .ldr | .ldrh | .ldrb => false

/-- The right that an access needs. -/
def Instruction.right (i : Instruction) : Word := if i.stores then taclUwrite else taclUread

/-- The store with the given upper eight bits. -/
def upperStore (upper : BitVec 16) : Option Instruction :=
  if upper = 0x60 then some .str
  else if upper = 0x80 then some .strh
  else if upper = 0x70 then some .strb
  else none

/-- The load with the given upper eight bits. -/
def upperLoad (upper : BitVec 16) : Option Instruction :=
  if upper = 0x68 then some .ldr
  else if upper = 0x88 then some .ldrh
  else if upper = 0x78 then some .ldrb
  else none

/-! ## The recovery -/

/-- Which accesses the bus and the memory protection let pass. -/
structure Bus where
  /-- Unprivileged reads of some bytes. -/
  reads : Word → ℕ → Bool
  /-- Unprivileged writes of some bytes. -/
  writes : Word → ℕ → Bool
  /-- Privileged accesses of an instruction. -/
  privileged : Instruction → Word → Bool

/-- The memory, and what has been carried out with the monitor's privileges. -/
structure State where
  /-- Bytes of flash, memory, stacks and peripherals. -/
  mem : Memory 32
  /-- The privileged accesses so far, with their addresses. -/
  executed : List (Instruction × Word)

/-- vmpu_unpriv_uint16_read and vmpu_unpriv_uint32_read. -/
def unprivRead {v : ℕ} (bus : Bus) (s : State) (addr : Word) (bytes : ℕ) : Option (BitVec v) :=
  if bus.reads addr bytes then some (read s.mem addr bytes) else none

/-- vmpu_unpriv_uint32_write. -/
def unprivWrite (bus : Bus) (s : State) (addr value : Word) : Option State :=
  if bus.writes addr 4 then some {s with mem := write s.mem addr 4 value} else none

/-- A store to the address in r0 with the monitor's privileges. -/
def privStore (bus : Bus) (s : State) (i : Instruction) (r0 r1 : Word) : Option State :=
  if bus.privileged i r0 then some ⟨write s.mem r0 i.bytes r1, s.executed ++ [(i, r0)]⟩ else none

/-- A load from the address in r0 with the monitor's privileges. -/
def privLoad (bus : Bus) (s : State) (i : Instruction) (r0 : Word) : Option (Word × State) :=
  if bus.privileged i r0 then some (read s.mem r0 i.bytes, ⟨s.mem, s.executed ++ [(i, r0)]⟩)
  else none

/-- What becomes of an opcode. -/
inductive Outcome where
  /-- The access is not permitted. -/
  | error
  /-- It is no load or store that is recognised. -/
  | next
  /-- It has been carried out. -/
  | found
  deriving DecidableEq

/-- Test an opcode: first its lower eight bits, then the access rights, and then
its upper eight bits. -/
def parseOpcode (findAcl : Word → Word → Word) (bus : Bus) (sp : Word) (opcode : BitVec 16)
    (s : State) : Option (Outcome × State) :=
  if opcode &&& 0xFF = 0x01 then
    (unprivRead bus s sp 4).bind fun r0 =>
      (unprivRead bus s (sp+4) 4).bind fun r1 =>
        if findAcl r0 4 &&& taclUwrite = 0 then some (.error, s)
        else
          match upperStore (opcode >>> 8) with
          | some i => (privStore bus s i r0 r1).map fun s => (.found, s)
          | none => some (.next, s)
  else if opcode &&& 0xFF = 0x00 then
    (unprivRead bus s sp 4).bind fun r0 =>
      if findAcl r0 4 &&& taclUread = 0 then some (.error, s)
      else
        match upperLoad (opcode >>> 8) with
        | some i =>
          (privLoad bus s i r0).bind fun (r1, s) =>
            (unprivWrite bus s sp r1).map fun s => (.found, s)
        | none => some (.next, s)
  else some (.next, s)

/-- The loop over the instructions, with the passes that are left: the counter
if an instruction was found. -/
def scanOpcodes (findAcl : Word → Word → Word) (bus : Bus) (pc sp : Word) (cntMax : ℕ) :
    ℕ → ℕ → State → Option (Option ℕ × State)
  | 0, _, _ => none
  | fuel+1, cnt, s =>
    (unprivRead bus s (pc-(BitVec.ofNat 32 cnt <<< 1)) 2).bind fun opcode =>
      (parseOpcode findAcl bus sp opcode s).bind fun
        | (.error, s) => some (none, s)
        | (.found, s) => some (some (cnt+1), s)
        | (.next, s) =>
          if cnt+1 < cntMax then scanOpcodes findAcl bus pc sp cntMax fuel (cnt+1) s
          else some (none, s)

/-- UVISOR_NOP_CNT. -/
def uvisorNopCnt : ℕ := 5

/-- SCB_CFSR_MMARVALID_Msk | SCB_CFSR_DACCVIOL_Msk, a precise fault. -/
def preciseFault : Word := 0x82

/-- SCB_CFSR_IMPRECISERR_Msk >> 8, an imprecise fault. -/
def impreciseFault : Word := 0x04

/-- The number of instructions that the loop is bounded by. -/
def cntMaxFor (faultStatus : Word) : Option ℕ :=
  if faultStatus = preciseFault then some 0
  else if faultStatus = impreciseFault then some uvisorNopCnt
  else none

/-- vmpu_fault_recovery_bus. The address of the fault is not used. -/
def vmpuFaultRecoveryBus (findAcl : Word → Word → Word) (bus : Bus) (u : UvisorConfig)
    (pc sp _faultAddr faultStatus : Word) (s : State) : Option (ℤ × State) :=
  if !publicFlashAddr u pc.toNat then none
  else
    match cntMaxFor faultStatus with
    | none => some (-1, s)
    | some cntMax =>
      (scanOpcodes findAcl bus pc sp cntMax (cntMax+1) 0 s).bind fun
        | (none, s) => some (-1, s)
        | (some cnt, s) =>
          (unprivWrite bus s (sp+24) (pc+(BitVec.ofNat 32 (uvisorNopCnt+2-cnt) <<< 1))).map fun s =>
            (0, s)

/-! ## One permitted access -/

/-- The stacked r0. -/
def stackedR0 (m : Memory 32) (sp : Word) : Word := read m sp 4

/-- The stacked r1. -/
def stackedR1 (m : Memory 32) (sp : Word) : Word := read m (sp+4) 4

/-- The address of the instruction that is tested in some pass. -/
def scanned (pc : Word) (i : ℕ) : Word := pc-2*BitVec.ofNat 32 i

/-- The opcode that is tested in some pass. -/
def opcodeAt (m : Memory 32) (pc : Word) (i : ℕ) : BitVec 16 := read m (scanned pc i) 2

/-- Number of instructions that are looked at. -/
def scanLimit (faultStatus : Word) : ℕ := if faultStatus = preciseFault then 1 else uvisorNopCnt

/-- The memory after an instruction at the stacked r0. A load puts its result
into the stacked r0. -/
def performed (i : Instruction) (sp : Word) (m : Memory 32) : Memory 32 :=
  if i.stores then write m (stackedR0 m sp) i.bytes (stackedR1 m sp)
  else write m sp 4 (read m (stackedR0 m sp) i.bytes : Word)

/-- The first instruction that is recognised has been carried out once, with the
rights of its address, and the stacked program counter goes on after it. -/
structure Emulated (findAcl : Word → Word → Word) (pc sp faultStatus : Word) (s t : State)
    (i : ℕ) (instruction : Instruction) : Prop where
  /-- It is among the instructions that are looked at. -/
  limit : i < scanLimit faultStatus
  /-- No instruction that was looked at before is recognised. -/
  first : ∀ j < i, ∀ other : Instruction, other.opcode ≠ opcodeAt s.mem pc j
  /-- The instruction is. -/
  recognised : instruction.opcode = opcodeAt s.mem pc i
  /-- The access is permitted at the address in the stacked r0. -/
  permitted : findAcl (stackedR0 s.mem sp) 4 &&& instruction.right ≠ 0
  /-- It is carried out once. -/
  executed : t.executed = s.executed ++ [(instruction, stackedR0 s.mem sp)]
  /-- Nothing else is written but the stacked program counter. -/
  memory : t.mem = write (performed instruction sp s.mem) (sp+24) 4
    (scanned pc i+2*(BitVec.ofNat 32 uvisorNopCnt+1))
  /-- The stacked program counter. -/
  resume : read t.mem (sp+24) 4 = scanned pc i+2*(BitVec.ofNat 32 uvisorNopCnt+1)
  /-- The result of a load. -/
  loaded : instruction.stores = false →
    stackedR0 t.mem sp = read s.mem (stackedR0 s.mem sp) instruction.bytes

/-! ## Opcodes -/

section Opcodes

variable {opcode : BitVec 16}

/-- An opcode is made of its two bytes. -/
theorem opcode_eq_of_bytes {lower upper : ℕ}
    (hl : opcode &&& 0xFF = BitVec.ofNat 16 lower) (hu : opcode >>> 8 = BitVec.ofNat 16 upper) :
    opcode = BitVec.ofNat 16 (256*upper+lower) := by
  have hmask : (opcode &&& 0xFF).toNat = opcode.toNat%256 := by
    rw [BitVec.toNat_and]
    exact Nat.and_two_pow_sub_one_eq_mod _ 8
  have hshift : (opcode >>> 8).toNat = opcode.toNat/256 := by
    rw [BitVec.toNat_ushiftRight, Nat.shiftRight_eq_div_pow]
  rw [hl, BitVec.toNat_ofNat] at hmask
  rw [hu, BitVec.toNat_ofNat] at hshift
  apply BitVec.eq_of_toNat_eq
  rw [BitVec.toNat_ofNat]
  omega

theorem upperStore_spec {i : Instruction} (hl : opcode &&& 0xFF = 0x01)
    (h : upperStore (opcode >>> 8) = some i) : i.stores = true ∧ i.opcode = opcode := by
  unfold upperStore at h
  split_ifs at h with hstr hstrh hstrb
  · obtain rfl := Option.some.inj h
    exact ⟨rfl, (opcode_eq_of_bytes hl hstr).symm⟩
  · obtain rfl := Option.some.inj h
    exact ⟨rfl, (opcode_eq_of_bytes hl hstrh).symm⟩
  · obtain rfl := Option.some.inj h
    exact ⟨rfl, (opcode_eq_of_bytes hl hstrb).symm⟩

theorem upperLoad_spec {i : Instruction} (hl : opcode &&& 0xFF = 0x00)
    (h : upperLoad (opcode >>> 8) = some i) : i.stores = false ∧ i.opcode = opcode := by
  unfold upperLoad at h
  split_ifs at h with hldr hldrh hldrb
  · obtain rfl := Option.some.inj h
    exact ⟨rfl, (opcode_eq_of_bytes hl hldr).symm⟩
  · obtain rfl := Option.some.inj h
    exact ⟨rfl, (opcode_eq_of_bytes hl hldrh).symm⟩
  · obtain rfl := Option.some.inj h
    exact ⟨rfl, (opcode_eq_of_bytes hl hldrb).symm⟩

/-- The six encodings are found by their bytes. -/
theorem opcode_bytes (i : Instruction) :
    if i.stores then i.opcode &&& 0xFF = 0x01 ∧ upperStore (i.opcode >>> 8) = some i
    else i.opcode &&& 0xFF = 0x00 ∧ upperLoad (i.opcode >>> 8) = some i := by
  cases i <;> decide

end Opcodes

/-! ## One opcode -/

section Parsing

variable {findAcl : Word → Word → Word} {bus : Bus} {sp : Word} {opcode : BitVec 16}
  {s t : State} {outcome : Outcome}

theorem unprivRead_spec {v bytes : ℕ} {addr : Word} {value : BitVec v}
    (h : unprivRead bus s addr bytes = some value) : value = read s.mem addr bytes := by
  unfold unprivRead at h
  split_ifs at h
  exact (Option.some.inj h).symm

theorem unprivWrite_spec {addr value : Word} (h : unprivWrite bus s addr value = some t) :
    t = {s with mem := write s.mem addr 4 value} := by
  unfold unprivWrite at h
  split_ifs at h
  exact (Option.some.inj h).symm

/-- What a test of an opcode says and does. -/
inductive Parsed (findAcl : Word → Word → Word) (sp : Word) (opcode : BitVec 16) (s t : State) :
    Outcome → Prop where
  | error (hsame : t = s) : Parsed findAcl sp opcode s t .error
  | next (hsame : t = s) (hnone : ∀ i : Instruction, i.opcode ≠ opcode) :
      Parsed findAcl sp opcode s t .next
  | found (i : Instruction) (hopcode : i.opcode = opcode)
      (hpermitted : findAcl (stackedR0 s.mem sp) 4 &&& i.right ≠ 0)
      (hstate : t = ⟨performed i sp s.mem, s.executed ++ [(i, stackedR0 s.mem sp)]⟩) :
      Parsed findAcl sp opcode s t .found

/-- A store is carried out if the rights allow it. -/
theorem parse_store (hl : opcode &&& 0xFF = 0x01)
    (h : parseOpcode findAcl bus sp opcode s = some (outcome, t)) :
    Parsed findAcl sp opcode s t outcome := by
  rw [parseOpcode, if_pos hl] at h
  obtain ⟨r0, hr0, h⟩ := Option.bind_eq_some_iff.mp h
  obtain ⟨r1, hr1, h⟩ := Option.bind_eq_some_iff.mp h
  obtain rfl := unprivRead_spec hr0
  obtain rfl := unprivRead_spec hr1
  split_ifs at h with hacl
  · obtain ⟨rfl, rfl⟩ := Prod.mk.inj (Option.some.inj h)
    exact .error rfl
  split at h
  · rename_i i hupper
    obtain ⟨hstores, hopcode⟩ := upperStore_spec hl hupper
    obtain ⟨stored, hstored, h⟩ := Option.map_eq_some_iff.mp h
    obtain ⟨rfl, rfl⟩ := Prod.mk.inj h
    unfold privStore at hstored
    split_ifs at hstored
    obtain rfl := Option.some.inj hstored
    refine .found i hopcode ?_ ?_
    · rwa [Instruction.right, if_pos hstores]
    · rw [performed, if_pos hstores]
      rfl
  · rename_i hupper
    obtain ⟨rfl, rfl⟩ := Prod.mk.inj (Option.some.inj h)
    refine .next rfl fun i hi => ?_
    have hbytes := opcode_bytes i
    rw [hi, hl, hupper] at hbytes
    split_ifs at hbytes
    · cases hbytes.2
    · exact absurd hbytes.1 (by decide)

/-- So is a load. -/
theorem parse_load (hl : opcode &&& 0xFF = 0x00)
    (h : parseOpcode findAcl bus sp opcode s = some (outcome, t)) :
    Parsed findAcl sp opcode s t outcome := by
  rw [parseOpcode, hl, if_neg (by decide), if_pos rfl] at h
  obtain ⟨r0, hr0, h⟩ := Option.bind_eq_some_iff.mp h
  obtain rfl := unprivRead_spec hr0
  split_ifs at h with hacl
  · obtain ⟨rfl, rfl⟩ := Prod.mk.inj (Option.some.inj h)
    exact .error rfl
  split at h
  · rename_i i hupper
    obtain ⟨hloads, hopcode⟩ := upperLoad_spec hl hupper
    obtain ⟨⟨r1, loaded⟩, hloaded, h⟩ := Option.bind_eq_some_iff.mp h
    obtain ⟨written, hwritten, h⟩ := Option.map_eq_some_iff.mp h
    obtain ⟨rfl, rfl⟩ := Prod.mk.inj h
    unfold privLoad at hloaded
    split_ifs at hloaded
    obtain ⟨rfl, rfl⟩ := Prod.mk.inj (Option.some.inj hloaded)
    have hnot : ¬i.stores = true := Bool.eq_false_iff.mp hloads
    refine .found i hopcode ?_ ?_
    · rwa [Instruction.right, if_neg hnot]
    · rw [unprivWrite_spec hwritten, performed, if_neg hnot]
      rfl
  · rename_i hupper
    obtain ⟨rfl, rfl⟩ := Prod.mk.inj (Option.some.inj h)
    refine .next rfl fun i hi => ?_
    have hbytes := opcode_bytes i
    rw [hi, hl, hupper] at hbytes
    split_ifs at hbytes
    · exact absurd hbytes.1 (by decide)
    · cases hbytes.2

theorem parseOpcode_spec (h : parseOpcode findAcl bus sp opcode s = some (outcome, t)) :
    Parsed findAcl sp opcode s t outcome := by
  by_cases hstore : opcode &&& 0xFF = 0x01
  · exact parse_store hstore h
  by_cases hload : opcode &&& 0xFF = 0x00
  · exact parse_load hload h
  rw [parseOpcode, if_neg hstore, if_neg hload] at h
  obtain ⟨rfl, rfl⟩ := Prod.mk.inj (Option.some.inj h)
  refine .next rfl fun i hi => ?_
  have hbytes := opcode_bytes i
  rw [hi] at hbytes
  split_ifs at hbytes
  · exact hstore hbytes.1
  · exact hload hbytes.1

end Parsing

/-! ## The loop -/

section Scanning

variable {findAcl : Word → Word → Word} {bus : Bus} {u : UvisorConfig}
  {pc sp faultAddr faultStatus : Word} {s t : State} {fuel cnt cntMax : ℕ} {result : Option ℕ}

theorem shiftLeft_one (n : ℕ) : BitVec.ofNat 32 n <<< 1 = 2*BitVec.ofNat 32 n := by
  apply BitVec.eq_of_toNat_eq
  rw [BitVec.toNat_shiftLeft, BitVec.toNat_mul, Nat.shiftLeft_eq, Nat.mul_comm]
  rfl

/-- The loop changes nothing unless it finds an instruction, and that is the
first one that is recognised. -/
theorem scanOpcodes_spec
    (h : scanOpcodes findAcl bus pc sp cntMax fuel cnt s = some (result, t)) :
    (result = none ∧ t = s) ∨ ∃ i, cnt ≤ i ∧ (i = cnt ∨ i < cntMax) ∧ result = some (i+1) ∧
      (∀ j, cnt ≤ j → j < i → ∀ other : Instruction, other.opcode ≠ opcodeAt s.mem pc j) ∧
      Parsed findAcl sp (opcodeAt s.mem pc i) s t .found := by
  induction fuel generalizing cnt with
  | zero => cases h
  | succ fuel ih =>
    rw [scanOpcodes] at h
    obtain ⟨opcode, hread, hpass⟩ := Option.bind_eq_some_iff.mp h
    have hopcode : opcode = opcodeAt s.mem pc cnt := by
      rw [unprivRead_spec hread, shiftLeft_one]
      rfl
    obtain ⟨⟨outcome, parsed⟩, hparse, hrest⟩ := Option.bind_eq_some_iff.mp hpass
    have hparsed := parseOpcode_spec hparse
    rw [hopcode] at hparsed
    cases outcome with
    | error =>
      obtain ⟨rfl, rfl⟩ := Prod.mk.inj (Option.some.inj hrest)
      cases hparsed with
      | error hsame => exact .inl ⟨rfl, hsame⟩
    | found =>
      obtain ⟨rfl, rfl⟩ := Prod.mk.inj (Option.some.inj hrest)
      refine .inr ⟨cnt, le_rfl, .inl rfl, rfl, fun j hge hlt => ?_, hparsed⟩
      exact absurd hlt (not_lt.mpr hge)
    | next =>
      cases hparsed with
      | next hsame hnone =>
        obtain rfl := hsame
        dsimp only at hrest
        by_cases hmore : cnt+1 < cntMax
        · rw [if_pos hmore] at hrest
          rcases ih hrest with hnothing | ⟨i, hge, hlt, hresult, hfirst, hfound⟩
          · exact .inl hnothing
          · refine .inr ⟨i, by omega, .inr (by omega), hresult, fun j hj hji => ?_, hfound⟩
            rcases Nat.eq_or_lt_of_le hj with rfl | hlow
            · exact hnone
            · exact hfirst j hlow hji
        · rw [if_neg hmore] at hrest
          obtain ⟨rfl, rfl⟩ := Prod.mk.inj (Option.some.inj hrest)
          exact .inl ⟨rfl, rfl⟩

/-- The stacked r0 and the stacked program counter are apart. -/
theorem apart_stackedPc (sp : Word) {i : ℕ} (hi : i < 4) :
    4 ≤ offset (sp+24) (sp+BitVec.ofNat 32 i) := by
  have hsub : sp+BitVec.ofNat 32 i-(sp+24) = BitVec.ofNat 32 i-24 := by bv_omega
  rw [offset, hsub]
  interval_cases i <;> decide

/-- The resume address counts from the fault, and also from the instruction. -/
theorem resume_eq (pc : Word) {i : ℕ} (hi : i < uvisorNopCnt) :
    pc+(BitVec.ofNat 32 (uvisorNopCnt+2-(i+1)) <<< 1) =
      scanned pc i+2*(BitVec.ofNat 32 uvisorNopCnt+1) := by
  have hdistance : BitVec.ofNat 32 (uvisorNopCnt+2-(i+1)) <<< 1 =
      2*(BitVec.ofNat 32 uvisorNopCnt+1)-2*BitVec.ofNat 32 i := by
    unfold uvisorNopCnt at hi ⊢
    interval_cases i <;> decide
  rw [hdistance, scanned]
  bv_omega

theorem scanLimit_of_cntMaxFor (hmax : cntMaxFor faultStatus = some cntMax) {i : ℕ}
    (hi : i = 0 ∨ i < cntMax) : i < scanLimit faultStatus ∧ i < uvisorNopCnt := by
  unfold cntMaxFor at hmax
  unfold scanLimit
  split_ifs at hmax with hprecise himprecise
  · obtain rfl := Option.some.inj hmax
    rw [if_pos hprecise]
    unfold uvisorNopCnt
    omega
  · obtain rfl := Option.some.inj hmax
    rw [if_neg hprecise]
    unfold uvisorNopCnt at *
    omega

/-- A recovery that returns has carried out the first instruction that is
recognised, or it has changed nothing. -/
theorem recovery_spec {code : ℤ}
    (h : vmpuFaultRecoveryBus findAcl bus u pc sp faultAddr faultStatus s = some (code, t)) :
    (code = 0 ∧ ∃ i instruction, Emulated findAcl pc sp faultStatus s t i instruction) ∨
      (code = -1 ∧ t = s) := by
  unfold vmpuFaultRecoveryBus at h
  split_ifs at h with hpublic
  split at h
  · obtain ⟨rfl, rfl⟩ := Prod.mk.inj (Option.some.inj h)
    exact .inr ⟨rfl, rfl⟩
  rename_i cntMax hmax
  obtain ⟨⟨result, after⟩, hscan, hreturn⟩ := Option.bind_eq_some_iff.mp h
  rcases scanOpcodes_spec hscan with ⟨rfl, rfl⟩ | ⟨i, -, hlimit, rfl, hfirst, hparsed⟩
  · obtain ⟨rfl, rfl⟩ := Prod.mk.inj (Option.some.inj hreturn)
    exact .inr ⟨rfl, rfl⟩
  obtain ⟨resumed, hwrite, hreturn⟩ := Option.map_eq_some_iff.mp hreturn
  obtain ⟨rfl, rfl⟩ := Prod.mk.inj hreturn
  obtain ⟨hbelow, hcount⟩ := scanLimit_of_cntMaxFor hmax hlimit
  cases hparsed with
  | found instruction hopcode hpermitted hstate =>
    have hmem : resumed.mem = write (performed instruction sp s.mem) (sp+24) 4
        (scanned pc i+2*(BitVec.ofNat 32 uvisorNopCnt+1)) := by
      rw [unprivWrite_spec hwrite, resume_eq pc hcount, hstate]
    refine .inl ⟨rfl, i, instruction, hbelow, fun j hj => hfirst j (Nat.zero_le j) hj, hopcode,
      hpermitted, ?_, hmem, ?_, fun hloads => ?_⟩
    · rw [unprivWrite_spec hwrite, hstate]
    · rw [hmem]
      exact read_write_self (by decide) (by decide)
    · rw [stackedR0, hmem, read_write_of_apart fun i hi => apart_stackedPc sp hi, performed,
        if_neg (Bool.eq_false_iff.mp hloads)]
      exact read_write_self (by decide) (by decide)

/-- Nothing is refused by this bus. -/
structure Open (bus : Bus) : Prop where
  /-- Reads pass. -/
  reads : ∀ addr bytes, bus.reads addr bytes = true
  /-- Writes pass. -/
  writes : ∀ addr bytes, bus.writes addr bytes = true
  /-- Privileged accesses pass. -/
  privileged : ∀ i addr, bus.privileged i addr = true

theorem parseOpcode_returns (findAcl : Word → Word → Word) (sp : Word) (h : Open bus)
    (opcode : BitVec 16) (s : State) :
    (parseOpcode findAcl bus sp opcode s).isSome = true := by
  unfold parseOpcode unprivRead privStore privLoad unprivWrite
  simp only [h.reads, h.writes, h.privileged, if_true, Option.bind_some, Option.map_some]
  split_ifs
  · rfl
  · split <;> rfl
  · rfl
  · split <;> rfl
  · rfl

theorem scanOpcodes_returns (findAcl : Word → Word → Word) (pc sp : Word) (h : Open bus)
    (fuel cnt cntMax : ℕ) (hfuel : 0 < fuel) (hrest : cntMax ≤ cnt+fuel) (s : State) :
    (scanOpcodes findAcl bus pc sp cntMax fuel cnt s).isSome = true := by
  induction fuel generalizing cnt s with
  | zero => exact absurd hfuel (lt_irrefl 0)
  | succ fuel ih =>
    rw [scanOpcodes, unprivRead, if_pos (h.reads _ _), Option.bind_some]
    obtain ⟨⟨outcome, t⟩, hparse⟩ := Option.isSome_iff_exists.mp
      (parseOpcode_returns findAcl sp h
        (read s.mem (pc-(BitVec.ofNat 32 cnt <<< 1)) 2) s)
    rw [hparse, Option.bind_some]
    cases outcome with
    | error => rfl
    | found => rfl
    | next =>
      dsimp only
      split_ifs with hmore
      · exact ih (cnt+1) (by omega) (by omega) t
      · rfl

/-- The recovery returns for every program counter in public flash, unless an
access is refused. -/
theorem recovery_returns (h : Open bus) (hpublic : publicFlashAddr u pc.toNat = true) (s : State) :
    (vmpuFaultRecoveryBus findAcl bus u pc sp faultAddr faultStatus s).isSome = true := by
  unfold vmpuFaultRecoveryBus
  rw [hpublic, if_neg (by decide)]
  split
  · rfl
  rename_i cntMax _
  obtain ⟨⟨result, t⟩, hscan⟩ := Option.isSome_iff_exists.mp
    (scanOpcodes_returns findAcl pc sp h (cntMax+1) 0 cntMax (Nat.succ_pos cntMax) (by omega) s)
  rw [hscan, Option.bind_some]
  cases result with
  | none => rfl
  | some cnt =>
    dsimp only
    rw [unprivWrite, if_pos (h.writes _ _)]
    rfl

/-- On ARMv7-M, whatever the regions of the boxes are, a recovery that returns
zero has carried out one permitted access, and one that returns an error has
changed nothing. -/
theorem recovery_emulates {table : Table} {activeBox : ℕ} {code : ℤ}
    (h : vmpuFaultRecoveryBus (vmpuFaultFindAcl table activeBox) bus u pc sp faultAddr faultStatus
      s = some (code, t)) :
    (code = 0 ∧ ∃ i instruction,
        Emulated (vmpuFaultFindAcl table activeBox) pc sp faultStatus s t i instruction) ∨
      (code = -1 ∧ t = s) :=
  recovery_spec h

end Scanning

/-- A store and two instructions that do nothing, and a stack with the address
of SCB->SCR in r0. -/
def storeThenNops : Memory 32 := fun addr =>
  if addr = 0x1000 then 0x01 else if addr = 0x1001 then 0x60
  else if addr = 0x1003 ∨ addr = 0x1005 then 0xBF
  else if addr = 0x20001000 then 0x10 else if addr = 0x20001001 then 0xED
  else if addr = 0x20001003 then 0xE0 else if addr = 0x20001004 then 0x04
  else 0

/-- The store is found two instructions before an imprecise fault. -/
theorem recovery_emulates_store :
    ∃ t, vmpuFaultRecoveryBus (vmpuFaultFindAcl AclSlices.emptyTable 1)
      ⟨fun _ _ => true, fun _ _ => true, fun _ _ => true⟩ (BoxAgreement.threeConfigs 64 4096)
      0x1004 0x20001000 0 impreciseFault ⟨storeThenNops, []⟩ = some (0, t) ∧
    ∃ i instruction, Emulated (vmpuFaultFindAcl AclSlices.emptyTable 1) 0x1004 0x20001000
      impreciseFault ⟨storeThenNops, []⟩ t i instruction := by
  have hrun : ((vmpuFaultRecoveryBus (vmpuFaultFindAcl AclSlices.emptyTable 1)
      ⟨fun _ _ => true, fun _ _ => true, fun _ _ => true⟩ (BoxAgreement.threeConfigs 64 4096)
      0x1004 0x20001000 0 impreciseFault ⟨storeThenNops, []⟩).map Prod.fst) = some 0 := by
    decide +kernel
  obtain ⟨⟨code, t⟩, ht, rfl⟩ := Option.map_eq_some_iff.mp hrun
  refine ⟨t, ht, ?_⟩
  rcases recovery_emulates ht with ⟨-, hemulated⟩ | ⟨hcode, -⟩
  · exact hemulated
  · exact absurd hcode (by decide)

end Uvisor.BusRecovery
