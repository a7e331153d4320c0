import Uvisor.BoxEnumeration
import Uvisor.RegionEncoding

/-!
# The memory of a secure box on ARMv7-M

One region holds the BSS sections and the stack of a box. Its eight subregions
are shared out: the first ones go to the BSS sections, the one after them is
disabled, and the stack has the others. The size of the region leaves a margin
of two subregions, one for the guard and one for the rounding. Sizes come from
a table in flash, and the arithmetic is that of 32-bit words.
-/

namespace Uvisor.BoxMemory

open ArmMpu MpuIsolation MpuPriority PageSubregions FaultRecovery RegionEncoding
open BoxEnumeration AlignedRegions

/-! ## The table of regions -/

/-- MPU_ACL_COUNT. -/
def mpuAclCount : ℕ := 64

/-- UVISOR_TACL_STACK. -/
def taclStack : Word := 0x0040

/-- UVISOR_TACLDEF_STACK. -/
def tacldefStack : Word := taclStack ||| taclUread ||| taclUwrite ||| taclSread ||| taclSwrite

/-- The regions of one box in the table. -/
structure MpuRegionSlice where
  /-- Index of the first region, once there is one. -/
  regions : Option ℕ
  /-- Number of regions. -/
  count : ℕ

/-- The regions of all boxes. -/
structure Table where
  /-- g_mpu_region_count. -/
  mpuRegionCount : ℕ
  /-- g_mpu_region. -/
  mpuRegion : ℕ → MpuRegion
  /-- g_mpu_box_region. -/
  mpuBoxRegion : ℕ → MpuRegionSlice

/-- Index of the first region of a box, which may be the next one. -/
def Table.firstIndex (t : Table) (boxId : ℕ) : ℕ :=
  (t.mpuBoxRegion boxId).regions.getD t.mpuRegionCount

/-- Index after the last region of a box. -/
def Table.nextIndex (t : Table) (boxId : ℕ) : ℕ :=
  t.firstIndex boxId+(t.mpuBoxRegion boxId).count

/-- Write a region after the last one of a box. -/
def Table.store (t : Table) (boxId : ℕ) (region : MpuRegion) : Table where
  mpuRegionCount := t.mpuRegionCount+1
  mpuRegion := Function.update t.mpuRegion (t.nextIndex boxId) region
  mpuBoxRegion := Function.update t.mpuBoxRegion boxId
    ⟨some (t.firstIndex boxId), (t.mpuBoxRegion boxId).count+1⟩

/-- The region that was last added for a box. -/
def Table.lastRegion (t : Table) (boxId : ℕ) : MpuRegion := t.mpuRegion (t.nextIndex boxId-1)

/-- vmpu_region_add_static_acl. It reports the rounded size of the region. -/
def vmpuRegionAddStaticAcl (boxCount boxId : ℕ) (start size acl aclHwSpec : Word) (t : Table) :
    Option (Word × Table) :=
  if mpuAclCount ≤ t.mpuRegionCount then none
  else if boxCount ≤ boxId then none
  else if (t.mpuRegion (t.nextIndex boxId)).config ≠ 0 then none
  else
    (translateAcl start size acl aclHwSpec).map fun (region, roundedSize) =>
      (roundedSize, t.store boxId region)

/-! ## Subregions -/

/-- Why vmpu_acl_sram halts. -/
inductive Halt where
  /-- slots_ctx underrun. -/
  | bssUnderrun
  /-- slots_stack underrun. -/
  | stackUnderrun
  /-- The region cannot be added. -/
  | region
  deriving DecidableEq

/-- Variables of the memory protection. -/
structure State where
  /-- box_mem_pos, zero before the first call. -/
  boxMemPos : Word
  /-- The regions of the boxes. -/
  table : Table

/-- UVISOR_MIN_STACK. -/
def minStack (stackSize : ℕ) : ℕ := if stackSize < minStackSize then minStackSize else stackSize

/-- Where the next region may start. -/
def memPos (bssBoxesStart : ℕ) (s : State) : Word :=
  if s.boxMemPos = 0 then BitVec.ofNat 32 bssBoxesStart else s.boxMemPos

/-- Subregions for the BSS sections. -/
def slotsForBss (bssSize subregionSize : ℕ) : ℕ := (bssSize+subregionSize-1)%2^32/subregionSize

/-- Subregions for the stack, as a signed number. -/
def slotsForStack (slotsForBss : ℕ) : ℤ := if slotsForBss ≠ 0 then 8-slotsForBss-1 else 8

/-- A signed number of subregions, times their size. -/
def slotsSize (slots : ℤ) (subregionSize : ℕ) : ℕ := (slots*subregionSize%2^32).toNat

/-- The specification that disables the subregion after the BSS sections. The
shift takes the low byte of its amount. -/
def guardSpec (slotsForBss : ℕ) : Word :=
  if slotsForBss ≠ 0 then (1 : Word) <<< (slotsForBss%256) else 0

/-- vmpu_acl_sram: start of the BSS and stack pointer. -/
def vmpuAclSram (bssBoxesStart boxCount : ℕ) (s : State) (boxId bssSize stackSize : ℕ) :
    Except Halt (ℕ × ℕ × State) :=
  let stackSize := minStack stackSize
  let (boxMemPos, regionSize) :=
    aclSramRegionSize (memPos bssBoxesStart s).toNat bssSize stackSize
  let subregionSize := regionSize/8
  let slots := slotsForBss bssSize subregionSize
  if slotsSize slots subregionSize < bssSize then .error .bssUnderrun
  else if slotsSize (slotsForStack slots) subregionSize < stackSize then .error .stackUnderrun
  else
    let bssStart := if slots ≠ 0 then boxMemPos else 0
    let stackPointer := ((boxMemPos+regionSize)%2^32+2^32-8)%2^32
    match vmpuRegionAddStaticAcl boxCount boxId (BitVec.ofNat 32 boxMemPos)
      (BitVec.ofNat 32 regionSize) tacldefStack (guardSpec slots) s.table with
    | none => .error .region
    | some (regionSize, table) =>
      .ok (bssStart, stackPointer, ⟨BitVec.ofNat 32 boxMemPos+regionSize, table⟩)

/-! ## The size of a region -/

/-- Bytes of the region for a number of bytes, if the sizes do not wrap. -/
def regionBytes (total : ℕ) : ℕ := 2^max 8 (Nat.clog 2 (total*8/6))

section Sizes

variable {bssSize stackSize total n pos : ℕ}

theorem regionBits_eq (hn : n ≠ 0) (hlt : n < 2^32) : regionBits n = max 5 (Nat.clog 2 n) := by
  have hlog : n.log2 < 32 := (Nat.log2_lt hn).mpr hlt
  have hpow : 2^n.log2%2^32 = 2^n.log2 :=
    Nat.mod_eq_of_lt (Nat.pow_lt_pow_right (by decide) hlog)
  unfold regionBits
  simp only [if_neg hn, hpow, ceilLog_eq_clog hn]
  split_ifs <;> omega

theorem le_regionBytes (total : ℕ) : 256 ≤ regionBytes total := by
  have hlog : 2^8 ≤ regionBytes total := Nat.pow_le_pow_right (by decide) (le_max_left _ _)
  exact hlog

theorem dvd_regionBytes (total : ℕ) : 8 ∣ regionBytes total := by
  have hlog : 2^3 ∣ regionBytes total := Nat.pow_dvd_pow 2 (le_trans (by decide) (le_max_left _ _))
  exact hlog

/-- Six of the eight subregions hold all bytes. -/
theorem total_le_regionBytes (total : ℕ) : total ≤ 6*(regionBytes total/8) := by
  have hclog : total*8/6 ≤ regionBytes total := AlignedRegions.le_two_pow_max_clog _ _
  obtain ⟨subregionSize, hsub⟩ := dvd_regionBytes total
  omega

/-- A region is no larger than a power of two that holds four thirds of the
bytes. -/
theorem regionBytes_le {bits : ℕ} (hbits : 8 ≤ bits) (h : total*8/6 ≤ 2^bits) :
    regionBytes total ≤ 2^bits :=
  Nat.pow_le_pow_right (by decide) (max_le hbits (Nat.clog_le_of_le_pow h))

/-- The logarithm of the size of a region that is an eighth of the address
space at most. -/
theorem regionBits_lt (h : total < 2^29) : max 8 (Nat.clog 2 (total*8/6)) ≤ 30 :=
  max_le (by decide) (Nat.clog_le_of_le_pow (by omega))

/-- The region that is laid out for a number of bytes. The multiplication by
eight wraps at an eighth of the address space. -/
theorem aclSramRegionSize_eq (hpos : pos < 2^32) (hne : (stackSize+bssSize)%2^29 ≠ 0) :
    aclSramRegionSize pos bssSize stackSize =
      (alignUp pos (regionBytes ((stackSize+bssSize)%2^29))%2^32,
        regionBytes ((stackSize+bssSize)%2^29)) := by
  have hwrap : (stackSize+bssSize)*8%2^32 = (stackSize+bssSize)%2^29*8 := by omega
  have hlt : (stackSize+bssSize)%2^29 < 2^29 := Nat.mod_lt _ (by decide)
  unfold aclSramRegionSize
  rw [hwrap]
  generalize (stackSize+bssSize)%2^29 = total at *
  have hbits := regionBits_lt hlt
  have hlog : (if regionBits (total*8/6) < 8 then 8 else regionBits (total*8/6)) =
      max 8 (Nat.clog 2 (total*8/6)) := by
    rw [regionBits_eq (by omega) (by omega)]
    split_ifs <;> omega
  have hsize : 2^max 8 (Nat.clog 2 (total*8/6))%2^32 = regionBytes total :=
    Nat.mod_eq_of_lt (Nat.pow_lt_pow_right (by decide) (by omega))
  simp only [hlog, hsize, alignUp]
  split_ifs with haligned
  · rfl
  · rw [Nat.mod_eq_of_lt hpos]

/-- Nothing is laid out for no bytes. -/
theorem aclSramRegionSize_zero (pos : ℕ) (hzero : (stackSize+bssSize)%2^29 = 0) :
    (aclSramRegionSize pos bssSize stackSize).2 = 0 := by
  have hwrap : (stackSize+bssSize)*8%2^32 = 0 := by omega
  unfold aclSramRegionSize
  rw [hwrap]
  rfl

end Sizes

/-! ## A call that does not halt -/

section Calls

variable {bssBoxesStart boxCount boxId bssSize stackSize bssStart stackPointer : ℕ} {s t : State}

/-- Bytes that the size of a region is computed from. -/
def sizedTotal (bssSize stackSize : ℕ) : ℕ := (minStack stackSize+bssSize)%2^29

/-- Size of a region. -/
def sramBytes (bssSize stackSize : ℕ) : ℕ := regionBytes (sizedTotal bssSize stackSize)

/-- Subregions for the BSS sections. -/
def sramSlots (bssSize stackSize : ℕ) : ℕ := slotsForBss bssSize (sramBytes bssSize stackSize/8)

/-- Address of a region, from a position on. -/
def sramStart (pos : Word) (bssSize stackSize : ℕ) : ℕ :=
  alignUp pos.toNat (sramBytes bssSize stackSize)%2^32

/-- The region that is added for a box. -/
def sramRegion (pos : Word) (bssSize stackSize : ℕ) : MpuRegion where
  start := BitVec.ofNat 32 (sramStart pos bssSize stackSize)
  ends := BitVec.ofNat 32 (sramStart pos bssSize stackSize)+
    BitVec.ofNat 32 (sramBytes bssSize stackSize)
  config := attributes (rasrApPrwUrw ||| rasrXn)
    (max 8 (Nat.clog 2 (sizedTotal bssSize stackSize*8/6)))
    (guardSpec (sramSlots bssSize stackSize))
  acl := tacldefStack

/-- What a call that does not halt has done, from a position and a table. -/
structure Placed (pos : Word) (table : Table) (boxId bssSize stackSize bssStart stackPointer : ℕ)
    (t : State) : Prop where
  /-- There were bytes to lay out. -/
  total_ne : sizedTotal bssSize stackSize ≠ 0
  /-- The subregions for the BSS sections are large enough in 32 bits. -/
  bss : bssSize ≤ slotsSize (sramSlots bssSize stackSize) (sramBytes bssSize stackSize/8)
  /-- So are those for the stack. -/
  stack : minStack stackSize ≤
    slotsSize (slotsForStack (sramSlots bssSize stackSize)) (sramBytes bssSize stackSize/8)
  /-- The BSS sections start where the region starts. -/
  bssStart : bssStart =
    if sramSlots bssSize stackSize ≠ 0 then sramStart pos bssSize stackSize else 0
  /-- The stack pointer is eight bytes below the end of the region. -/
  stackPointer : stackPointer =
    ((sramStart pos bssSize stackSize+sramBytes bssSize stackSize)%2^32+2^32-8)%2^32
  /-- The entry of the table after the last region of the box was not in use. -/
  unused : (table.mpuRegion (table.nextIndex boxId)).config = 0
  /-- The region has been added for the box. -/
  table_eq : t.table = table.store boxId (sramRegion pos bssSize stackSize)
  /-- The next region starts after it. -/
  boxMemPos : t.boxMemPos = (sramRegion pos bssSize stackSize).ends

/-- A region that has been added is the last one of its box. -/
theorem lastRegion_store (table : Table) (boxId : ℕ) (region : MpuRegion) :
    (table.store boxId region).lastRegion boxId = region := by
  have hindex : (table.store boxId region).nextIndex boxId-1 = table.nextIndex boxId := by
    simp only [Table.nextIndex, Table.firstIndex, Table.store, Function.update_self,
      Option.getD_some]
    omega
  rw [Table.lastRegion, hindex]
  exact Function.update_self _ _ _

theorem Placed.region {pos : Word} {table : Table}
    (h : Placed pos table boxId bssSize stackSize bssStart stackPointer t) :
    t.table.lastRegion boxId = sramRegion pos bssSize stackSize := by
  rw [h.table_eq]
  exact lastRegion_store _ _ _

/-- There is room for a region of a box. -/
def Table.HasRoom (t : Table) (boxCount boxId : ℕ) : Prop :=
  t.mpuRegionCount < mpuAclCount ∧ boxId < boxCount ∧ (t.mpuRegion (t.nextIndex boxId)).config = 0

/-- Regions that can be translated are added while there is room. -/
theorem vmpuRegionAddStaticAcl_eq {start size acl aclHwSpec rounded : Word} {region : MpuRegion}
    (boxCount boxId : ℕ) (table : Table)
    (htranslate : translateAcl start size acl aclHwSpec = some (region, rounded)) :
    (table.HasRoom boxCount boxId ∧ vmpuRegionAddStaticAcl boxCount boxId start size acl aclHwSpec
        table = some (rounded, table.store boxId region)) ∨
      (¬table.HasRoom boxCount boxId ∧
        vmpuRegionAddStaticAcl boxCount boxId start size acl aclHwSpec table = none) := by
  unfold vmpuRegionAddStaticAcl Table.HasRoom
  split_ifs with hfull hbox hused
  · exact .inr ⟨fun h => not_lt.mpr hfull h.1, rfl⟩
  · exact .inr ⟨fun h => not_lt.mpr hbox h.2.1, rfl⟩
  · exact .inr ⟨fun h => hused h.2.2, rfl⟩
  · refine .inl ⟨⟨not_le.mp hfull, not_le.mp hbox, not_not.mp hused⟩, ?_⟩
    rw [htranslate]
    rfl

theorem sizedTotal_lt (bssSize stackSize : ℕ) : sizedTotal bssSize stackSize < 2^29 :=
  Nat.mod_lt _ (by decide)

theorem sramBytes_le (bssSize stackSize : ℕ) : sramBytes bssSize stackSize ≤ 2^30 :=
  Nat.pow_le_pow_right (by decide) (regionBits_lt (sizedTotal_lt bssSize stackSize))

/-- The word for the size of a region. -/
theorem ofNat_sramBytes (bssSize stackSize : ℕ) :
    BitVec.ofNat 32 (sramBytes bssSize stackSize) =
      (1 : Word) <<< max 8 (Nat.clog 2 (sizedTotal bssSize stackSize*8/6)) := by
  have hbits := regionBits_lt (sizedTotal_lt bssSize stackSize)
  apply BitVec.eq_of_toNat_eq
  rw [one_shiftLeft_toNat (by omega), BitVec.toNat_ofNat]
  exact Nat.mod_eq_of_lt (Nat.pow_lt_pow_right (by decide) (by omega))

/-- The region starts at a multiple of its size. -/
theorem dvd_sramStart (pos : Word) (bssSize stackSize : ℕ) :
    sramBytes bssSize stackSize ∣ sramStart pos bssSize stackSize := by
  have hbits := regionBits_lt (sizedTotal_lt bssSize stackSize)
  have hword : sramBytes bssSize stackSize ∣ 2^32 := Nat.pow_dvd_pow 2 (by omega)
  exact (Nat.dvd_mod_iff hword).mpr (dvd_alignUp _ _)

theorem sramStart_toNat (pos : Word) (bssSize stackSize : ℕ) :
    (BitVec.ofNat 32 (sramStart pos bssSize stackSize)).toNat = sramStart pos bssSize stackSize := by
  rw [BitVec.toNat_ofNat]
  exact Nat.mod_eq_of_lt (Nat.mod_lt _ (by decide))

/-- The translation of the region of a box. -/
theorem translateAcl_sram (pos : Word) (bssSize stackSize : ℕ) :
    translateAcl (BitVec.ofNat 32 (sramStart pos bssSize stackSize))
        (BitVec.ofNat 32 (sramBytes bssSize stackSize)) tacldefStack
        (guardSpec (sramSlots bssSize stackSize)) =
      some (sramRegion pos bssSize stackSize, BitVec.ofNat 32 (sramBytes bssSize stackSize)) := by
  have hbits := regionBits_lt (sizedTotal_lt bssSize stackSize)
  have hdvd : 2^max 8 (Nat.clog 2 (sizedTotal bssSize stackSize*8/6)) ∣
      (BitVec.ofNat 32 (sramStart pos bssSize stackSize)).toNat := by
    rw [sramStart_toNat]
    exact dvd_sramStart pos bssSize stackSize
  rw [sramRegion, ofNat_sramBytes]
  exact translateAcl_twoPow (by decide) (by omega) (by omega) hdvd

/-- The region is enabled. -/
theorem enabled_sramRegion (pos : Word) (bssSize stackSize : ℕ) :
    (registers (sramRegion pos bssSize stackSize)).enabled = true := by
  simp [Region.enabled, registers, sramRegion, attributes, rasrEnable]

/-- What a call does when there are bytes to lay out. -/
theorem vmpuAclSram_eq (hne : sizedTotal bssSize stackSize ≠ 0) :
    vmpuAclSram bssBoxesStart boxCount s boxId bssSize stackSize =
      if slotsSize (sramSlots bssSize stackSize) (sramBytes bssSize stackSize/8) < bssSize then
        .error .bssUnderrun
      else if slotsSize (slotsForStack (sramSlots bssSize stackSize))
          (sramBytes bssSize stackSize/8) < minStack stackSize then .error .stackUnderrun
      else
        match vmpuRegionAddStaticAcl boxCount boxId
          (BitVec.ofNat 32 (sramStart (memPos bssBoxesStart s) bssSize stackSize))
          (BitVec.ofNat 32 (sramBytes bssSize stackSize)) tacldefStack
          (guardSpec (sramSlots bssSize stackSize)) s.table with
        | none => .error .region
        | some (regionSize, table) =>
          .ok (if sramSlots bssSize stackSize ≠ 0 then
              sramStart (memPos bssBoxesStart s) bssSize stackSize else 0,
            ((sramStart (memPos bssBoxesStart s) bssSize stackSize+sramBytes bssSize stackSize)%2^32
              +2^32-8)%2^32,
            ⟨BitVec.ofNat 32 (sramStart (memPos bssBoxesStart s) bssSize stackSize)+regionSize,
              table⟩) := by
  have hsize := aclSramRegionSize_eq (memPos bssBoxesStart s).isLt hne
  simp only [vmpuAclSram, hsize]
  rfl

/-- Without bytes to lay out a call halts. -/
theorem vmpuAclSram_zero (hzero : sizedTotal bssSize stackSize = 0) :
    vmpuAclSram bssBoxesStart boxCount s boxId bssSize stackSize =
      .error (if 0 < bssSize then .bssUnderrun else .stackUnderrun) := by
  have hbytes := aclSramRegionSize_zero (memPos bssBoxesStart s).toNat hzero
  have hnone : ∀ slots : ℤ, slotsSize slots 0 = 0 := fun slots => by simp [slotsSize]
  have hstack : 0 < minStack stackSize := by
    unfold minStack minStackSize
    split_ifs <;> omega
  unfold vmpuAclSram
  simp only [hbytes, Nat.zero_div, hnone, if_pos hstack]
  split_ifs <;> rfl

/-- A call that passes both checks halts only when there is no room. -/
theorem vmpuAclSram_checked (hne : sizedTotal bssSize stackSize ≠ 0)
    (hbss : bssSize ≤ slotsSize (sramSlots bssSize stackSize) (sramBytes bssSize stackSize/8))
    (hstack : minStack stackSize ≤
      slotsSize (slotsForStack (sramSlots bssSize stackSize)) (sramBytes bssSize stackSize/8)) :
    (s.table.HasRoom boxCount boxId ∧ ∃ bssStart stackPointer t,
        vmpuAclSram bssBoxesStart boxCount s boxId bssSize stackSize =
          .ok (bssStart, stackPointer, t) ∧
        Placed (memPos bssBoxesStart s) s.table boxId bssSize stackSize bssStart stackPointer t) ∨
      (¬s.table.HasRoom boxCount boxId ∧
        vmpuAclSram bssBoxesStart boxCount s boxId bssSize stackSize = .error .region) := by
  rw [vmpuAclSram_eq hne, if_neg (not_lt.mpr hbss), if_neg (not_lt.mpr hstack)]
  rcases vmpuRegionAddStaticAcl_eq boxCount boxId s.table
    (translateAcl_sram (memPos bssBoxesStart s) bssSize stackSize) with
    ⟨hroom, hadd⟩ | ⟨hroom, hadd⟩
  · rw [hadd]
    exact .inl ⟨hroom, _, _, _, rfl, hne, hbss, hstack, rfl, rfl, hroom.2.2, rfl, rfl⟩
  · rw [hadd]
    exact .inr ⟨hroom, rfl⟩

theorem vmpuAclSram_placed
    (h : vmpuAclSram bssBoxesStart boxCount s boxId bssSize stackSize =
      .ok (bssStart, stackPointer, t)) :
    Placed (memPos bssBoxesStart s) s.table boxId bssSize stackSize bssStart stackPointer t := by
  have hne : sizedTotal bssSize stackSize ≠ 0 := fun hzero => by
    rw [vmpuAclSram_zero hzero] at h
    cases h
  have hbss : ¬slotsSize (sramSlots bssSize stackSize) (sramBytes bssSize stackSize/8) <
      bssSize := fun hlt => by
    rw [vmpuAclSram_eq hne, if_pos hlt] at h
    cases h
  have hstack : ¬slotsSize (slotsForStack (sramSlots bssSize stackSize))
      (sramBytes bssSize stackSize/8) < minStack stackSize := fun hlt => by
    rw [vmpuAclSram_eq hne, if_neg hbss, if_pos hlt] at h
    cases h
  rcases @vmpuAclSram_checked bssBoxesStart boxCount boxId bssSize stackSize s hne
    (not_lt.mp hbss) (not_lt.mp hstack) with ⟨-, _, _, _, hok, hplaced⟩ | ⟨-, herror⟩
  · obtain ⟨rfl, hrest⟩ := Prod.mk.inj (Except.ok.inj (h.symm.trans hok))
    obtain ⟨rfl, rfl⟩ := Prod.mk.inj hrest
    exact hplaced
  · cases h.symm.trans herror

end Calls

end Uvisor.BoxMemory
