import Uvisor.BoxMemory

/-!
# Subregions of a secure box

Six of the eight subregions of a box hold the bytes that were asked for. The
BSS sections round up to whole subregions, the next one is disabled, and what
is left above it is never smaller than the stack. The two checks of
vmpu_acl_sram cannot fail unless the arithmetic wraps.
-/

namespace Uvisor.BoxSubregions

open ArmMpu MpuIsolation PageSubregions FaultRecovery RegionEncoding AlignedRegions BoxMemory

/-! ## Statement -/

/-- The memory of a box is shared out between its BSS sections and its stack. -/
structure SharedOut (region : MpuRegion) (bssStart bssSize stackSize stackPointer : ℕ) : Prop where
  /-- The region is a power of two of bytes and aligned to its size. -/
  bytes : ∃ bits, 8 ≤ bits ∧ (registers region).bytes = 2^bits ∧
    2^bits ∣ region.start.toNat ∧ region.ends.toNat = region.start.toNat+2^bits
  /-- The BSS sections start where the region starts. -/
  start : bssStart = region.start.toNat
  /-- The stack is not larger than the region. -/
  stack : region.start.toNat+stackSize ≤ region.ends.toNat
  /-- One subregion is disabled. The BSS sections are below it, the stack ends
  with the region and is above it, and the stack pointer is in the last one. -/
  subregions : ∃ guard < 7,
    (∀ j < 8, (registers region).subregionEnabled j = true ↔ j ≠ guard) ∧
    (∀ address : Word, bssStart ≤ address.toNat → address.toNat < bssStart+bssSize →
      (registers region).hits address = true ∧ (registers region).subregionOf address < guard) ∧
    (∀ address : Word, region.ends.toNat-stackSize ≤ address.toNat →
      address.toNat < region.ends.toNat →
      (registers region).hits address = true ∧ guard < (registers region).subregionOf address) ∧
    (registers region).hits (BitVec.ofNat 32 stackPointer) = true ∧
      (registers region).subregionOf (BitVec.ofNat 32 stackPointer) = 7

/-! ## Shares -/

section Shares

variable {bssSize stackSize subregionSize slots : ℕ}

theorem slotsSize_natCast (slots subregionSize : ℕ) :
    slotsSize slots subregionSize = slots*subregionSize%2^32 := by
  unfold slotsSize
  rw [← Nat.cast_mul]
  norm_cast

/-- Up to seven subregions for the BSS sections, and one more, the stack has
the others. -/
theorem slotsForStack_natCast (hpos : 0 < slots) (hle : slots ≤ 7) :
    slotsForStack slots = ((7-slots : ℕ) : ℤ) := by
  rw [slotsForStack, if_pos hpos.ne']
  omega

/-- The BSS sections round up to whole subregions. -/
theorem slotsForBss_spec (hsub : 0 < subregionSize) (h : bssSize+subregionSize-1 < 2^32) :
    bssSize ≤ slotsForBss bssSize subregionSize*subregionSize ∧
      slotsForBss bssSize subregionSize*subregionSize < bssSize+subregionSize := by
  rw [slotsForBss, Nat.mod_eq_of_lt h]
  have hdiv := Nat.div_add_mod' (bssSize+subregionSize-1) subregionSize
  have hmod := Nat.mod_lt (bssSize+subregionSize-1) hsub
  omega

/-- If six subregions hold all bytes, the BSS sections, the guard and the stack
fit into eight. -/
theorem shares (hbss : 0 < bssSize) (hstack : 0 < stackSize)
    (htotal : stackSize+bssSize ≤ 6*subregionSize) (hsub : subregionSize ≤ 2^27) :
    0 < slotsForBss bssSize subregionSize ∧ slotsForBss bssSize subregionSize < 7 ∧
      bssSize ≤ slotsForBss bssSize subregionSize*subregionSize ∧
      (slotsForBss bssSize subregionSize+1)*subregionSize+stackSize ≤ 8*subregionSize := by
  obtain ⟨hlow, hhigh⟩ := slotsForBss_spec (by omega : 0 < subregionSize)
    (show bssSize+subregionSize-1 < 2^32 by omega)
  generalize slotsForBss bssSize subregionSize = slots at *
  have hpos : 0 < slots := by
    rcases Nat.eq_zero_or_pos slots with rfl | hpos
    · omega
    · exact hpos
  have hlt : slots < 7 := Nat.lt_of_mul_lt_mul_right (a := subregionSize) (by omega)
  have hnext : (slots+1)*subregionSize = slots*subregionSize+subregionSize := Nat.succ_mul _ _
  exact ⟨hpos, hlt, hlow, by omega⟩

/-- The first check holds. -/
theorem bss_le_slotsSize (hlow : bssSize ≤ slots*subregionSize) (hslots : slots < 7)
    (hsub : subregionSize ≤ 2^27) : bssSize ≤ slotsSize slots subregionSize := by
  have hmul : slots*subregionSize ≤ 7*2^27 := Nat.mul_le_mul hslots.le hsub
  rw [slotsSize_natCast, Nat.mod_eq_of_lt (by omega)]
  exact hlow

/-- The second check holds. -/
theorem stack_le_slotsSize (hpos : 0 < slots) (hslots : slots < 7) (hsub : subregionSize ≤ 2^27)
    (hhigh : (slots+1)*subregionSize+stackSize ≤ 8*subregionSize) :
    stackSize ≤ slotsSize (slotsForStack slots) subregionSize := by
  have hmul : (7-slots)*subregionSize ≤ 7*2^27 := Nat.mul_le_mul (Nat.sub_le _ _) hsub
  have hsplit : (7-slots)*subregionSize+(slots+1)*subregionSize = 8*subregionSize := by
    rw [← Nat.add_mul]
    congr 1
    omega
  rw [slotsForStack_natCast hpos hslots.le, slotsSize_natCast, Nat.mod_eq_of_lt (by omega)]
  omega

/-- The guard is the subregion after the BSS sections. -/
theorem guardSpec_getLsbD {j : ℕ} (hpos : 0 < slots) (hslots : slots < 8) (hj : j < 8) :
    (guardSpec slots).getLsbD j = decide (j = slots) := by
  have hall : ∀ slots < 8, 0 < slots → ∀ j < 8,
      (guardSpec slots).getLsbD j = decide (j = slots) := by
    decide
  exact hall slots hslots hpos j hj

end Shares

/-! ## The region of a box -/

section Region

variable {bssSize stackSize : ℕ} {pos : Word}

/-- The permissions of the memory of a box. -/
theorem vmpuMapAcl_stack : vmpuMapAcl tacldefStack = some (rasrApPrwUrw ||| rasrXn) := by decide

theorem sramBytes_eq_mul (bssSize stackSize : ℕ) :
    sramBytes bssSize stackSize = 8*(sramBytes bssSize stackSize/8) :=
  (Nat.mul_div_cancel' (dvd_regionBytes _)).symm

/-- The size field of the region. -/
theorem bytes_sramRegion (pos : Word) (bssSize stackSize : ℕ) :
    (registers (sramRegion pos bssSize stackSize)).bytes = sramBytes bssSize stackSize := by
  have hbits := regionBits_lt (sizedTotal_lt bssSize stackSize)
  exact attributes_bytes vmpuMapAcl_stack (by omega) (by omega) _ _

theorem subregionEnabled_sramRegion {j : ℕ} (hj : j < 8) :
    (registers (sramRegion pos bssSize stackSize)).subregionEnabled j =
      !(guardSpec (sramSlots bssSize stackSize)).getLsbD j := by
  have hbits := regionBits_lt (sizedTotal_lt bssSize stackSize)
  exact attributes_subregion vmpuMapAcl_stack (by omega) _ _ hj

/-- Addresses of the region hit it outside its guard. -/
theorem sramRegion_within (pos address : Word) (hpos : 0 < sramSlots bssSize stackSize)
    (hslots : sramSlots bssSize stackSize < 8)
    (hlow : sramStart pos bssSize stackSize ≤ address.toNat)
    (hhigh : address.toNat < sramStart pos bssSize stackSize+sramBytes bssSize stackSize) :
    (registers (sramRegion pos bssSize stackSize)).subregionOf address =
        (address.toNat-sramStart pos bssSize stackSize)/(sramBytes bssSize stackSize/8) ∧
      ((registers (sramRegion pos bssSize stackSize)).hits address = true ↔
        (address.toNat-sramStart pos bssSize stackSize)/(sramBytes bssSize stackSize/8) ≠
          sramSlots bssSize stackSize) := by
  have hbits := regionBits_lt (sizedTotal_lt bssSize stackSize)
  have hlarge : 256 ≤ sramBytes bssSize stackSize := le_regionBytes _
  have height := sramBytes_eq_mul bssSize stackSize
  have hbytes := bytes_sramRegion pos bssSize stackSize
  have hstart : (registers (sramRegion pos bssSize stackSize)).address.toNat =
      sramStart pos bssSize stackSize := sramStart_toNat pos bssSize stackSize
  have hdvd' : (registers (sramRegion pos bssSize stackSize)).bytes ∣
      (registers (sramRegion pos bssSize stackSize)).address.toNat := by
    rw [hbytes, hstart]
    exact dvd_sramStart pos bssSize stackSize
  have hpos' : 0 < (registers (sramRegion pos bssSize stackSize)).bytes := by
    rw [hbytes]
    omega
  have hcovers : (registers (sramRegion pos bssSize stackSize)).covers address = true := by
    rw [covers_iff hdvd' hpos', hbytes, hstart]
    exact ⟨hlow, hhigh⟩
  have hsubregion := subregionOf_eq hdvd' hpos' hcovers
  have hsize : (registers (sramRegion pos bssSize stackSize)).subregionBytes =
      sramBytes bssSize stackSize/8 := congrArg (·/8) hbytes
  rw [hstart, hsize] at hsubregion
  have hindex : (address.toNat-sramStart pos bssSize stackSize)/(sramBytes bssSize stackSize/8) <
      8 := Nat.div_lt_of_lt_mul (by omega)
  refine ⟨hsubregion, ?_⟩
  rw [Region.hits, Region.keeps, enabled_sramRegion, hcovers, hsubregion, hbytes,
    decide_eq_false (not_lt.mpr hlarge), subregionEnabled_sramRegion hindex,
    guardSpec_getLsbD hpos hslots hindex]
  simp

end Region

/-! ## Sharing out -/

section Sharing

variable {bssBoxesStart boxCount boxId bssSize stackSize bssStart stackPointer : ℕ}
  {pos : Word} {table : Table} {s t : BoxMemory.State}

theorem minStack_pos (stackSize : ℕ) : 0 < minStack stackSize := by
  unfold minStack BoxEnumeration.minStackSize
  split_ifs <;> omega

/-- Where nothing wraps, the shares of a box fit into its subregions. -/
theorem sramShares (hbss : 0 < bssSize) (hfit : 8*(bssSize+minStack stackSize) < 2^32) :
    sizedTotal bssSize stackSize ≠ 0 ∧ sramBytes bssSize stackSize/8 ≤ 2^27 ∧
      0 < sramSlots bssSize stackSize ∧ sramSlots bssSize stackSize < 7 ∧
      bssSize ≤ sramSlots bssSize stackSize*(sramBytes bssSize stackSize/8) ∧
      (sramSlots bssSize stackSize+1)*(sramBytes bssSize stackSize/8)+minStack stackSize ≤
        8*(sramBytes bssSize stackSize/8) := by
  have hstack := minStack_pos stackSize
  have htotal : sizedTotal bssSize stackSize = minStack stackSize+bssSize :=
    Nat.mod_eq_of_lt (by omega)
  have hsix : minStack stackSize+bssSize ≤ 6*(sramBytes bssSize stackSize/8) :=
    htotal ▸ total_le_regionBytes _
  have hsub : sramBytes bssSize stackSize/8 ≤ 2^27 := by
    have hle := sramBytes_le bssSize stackSize
    omega
  exact ⟨by omega, hsub, shares hbss hstack hsix hsub⟩

/-- The bytes below a guard are in subregions below it. -/
theorem index_lt {offset guard subregionSize : ℕ} (h : offset < guard*subregionSize) :
    offset/subregionSize < guard :=
  Nat.div_lt_of_lt_mul (by rwa [Nat.mul_comm])

/-- The bytes above a guard are in subregions above it. -/
theorem lt_index {offset guard subregionSize : ℕ} (hsub : 0 < subregionSize)
    (h : (guard+1)*subregionSize ≤ offset) : guard < offset/subregionSize :=
  (Nat.le_div_iff_mul_le hsub).mpr h

/-- What a call has done, where nothing wraps. -/
theorem sharedOut_of_placed (hbss : 0 < bssSize) (hfit : 8*(bssSize+minStack stackSize) < 2^32)
    (hwrap : alignUp pos.toNat (sramBytes bssSize stackSize)+sramBytes bssSize stackSize < 2^32)
    (h : Placed pos table boxId bssSize stackSize bssStart stackPointer t) :
    SharedOut (t.table.lastRegion boxId) bssStart bssSize (minStack stackSize) stackPointer := by
  obtain ⟨-, -, hslots, hseven, hlow, hhigh⟩ := sramShares hbss hfit
  have hnext : (sramSlots bssSize stackSize+1)*(sramBytes bssSize stackSize/8) =
      sramSlots bssSize stackSize*(sramBytes bssSize stackSize/8)+sramBytes bssSize stackSize/8 :=
    Nat.succ_mul _ _
  have hlarge : 256 ≤ sramBytes bssSize stackSize := le_regionBytes _
  have height := sramBytes_eq_mul bssSize stackSize
  have hsub : 0 < sramBytes bssSize stackSize/8 := by omega
  have hstart : sramStart pos bssSize stackSize = alignUp pos.toNat (sramBytes bssSize stackSize) :=
    Nat.mod_eq_of_lt (by omega)
  have hstartNat := sramStart_toNat pos bssSize stackSize
  have hends : (sramRegion pos bssSize stackSize).ends.toNat =
      sramStart pos bssSize stackSize+sramBytes bssSize stackSize := by
    rw [sramRegion, BitVec.toNat_add, hstartNat, BitVec.toNat_ofNat,
      Nat.mod_eq_of_lt (by omega : sramBytes bssSize stackSize < 2^32), Nat.mod_eq_of_lt (by omega)]
  have hsp : stackPointer = sramStart pos bssSize stackSize+sramBytes bssSize stackSize-8 := by
    rw [h.stackPointer]
    omega
  have hpointer : (BitVec.ofNat 32 stackPointer).toNat = stackPointer := by
    rw [BitVec.toNat_ofNat]
    exact Nat.mod_eq_of_lt (by omega)
  have hbase : bssStart = sramStart pos bssSize stackSize := by
    rw [h.bssStart, if_pos hslots.ne']
  rw [h.region]
  refine ⟨⟨_, le_max_left _ _, bytes_sramRegion pos bssSize stackSize, ?_, ?_⟩, ?_, ?_,
    sramSlots bssSize stackSize, hseven, fun j hj => ?_, fun address hfrom hto => ?_,
    fun address hfrom hto => ?_, ?_⟩
  · exact hstartNat ▸ dvd_sramStart pos bssSize stackSize
  · exact hends.trans (congrArg (·+sramBytes bssSize stackSize) hstartNat.symm)
  · exact hbase.trans hstartNat.symm
  · rw [hends, show (sramRegion pos bssSize stackSize).start.toNat = _ from hstartNat]
    omega
  · rw [subregionEnabled_sramRegion hj, guardSpec_getLsbD hslots (by omega) hj]
    simp
  · obtain ⟨hindex, hhits⟩ := sramRegion_within pos address hslots (by omega)
      (by omega) (by omega)
    have hbelow := index_lt (show address.toNat-sramStart pos bssSize stackSize <
      sramSlots bssSize stackSize*(sramBytes bssSize stackSize/8) by omega)
    exact ⟨hhits.mpr hbelow.ne, hindex ▸ hbelow⟩
  · rw [hends] at hfrom hto
    obtain ⟨hindex, hhits⟩ := sramRegion_within pos address hslots (by omega)
      (by omega) (by omega)
    have habove := lt_index hsub (show (sramSlots bssSize stackSize+1)*
      (sramBytes bssSize stackSize/8) ≤ address.toNat-sramStart pos bssSize stackSize by omega)
    exact ⟨hhits.mpr habove.ne', hindex ▸ habove⟩
  · obtain ⟨hindex, hhits⟩ := sramRegion_within pos
      (BitVec.ofNat 32 stackPointer) hslots (by omega) (by omega) (by omega)
    have hlast : (stackPointer-sramStart pos bssSize stackSize)/
        (sramBytes bssSize stackSize/8) = 7 := by
      rw [Nat.div_eq_iff hsub]
      omega
    rw [hpointer, hlast] at hindex hhits
    exact ⟨hhits.mpr hseven.ne', hindex⟩

/-- For every position and every pair of sizes that does not wrap, vmpu_acl_sram
never runs out of subregions. It halts exactly when there is no room for another
region, and else the memory of the box is shared out between its BSS sections
and its stack. -/
theorem vmpuAclSram_sharesOut (hbss : 0 < bssSize)
    (hfit : 8*(bssSize+minStack stackSize) < 2^32)
    (hwrap : alignUp (memPos bssBoxesStart s).toNat (sramBytes bssSize stackSize)+
      sramBytes bssSize stackSize < 2^32) :
    (s.table.HasRoom boxCount boxId → ∃ bssStart stackPointer t,
      vmpuAclSram bssBoxesStart boxCount s boxId bssSize stackSize =
        .ok (bssStart, stackPointer, t) ∧
      SharedOut (t.table.lastRegion boxId) bssStart bssSize (minStack stackSize) stackPointer) ∧
    (¬s.table.HasRoom boxCount boxId →
      vmpuAclSram bssBoxesStart boxCount s boxId bssSize stackSize = .error .region) := by
  obtain ⟨hne, hsub, hslots, hseven, hlow, hhigh⟩ := sramShares hbss hfit
  have hfirst := bss_le_slotsSize hlow hseven hsub
  have hsecond := stack_le_slotsSize hslots hseven hsub hhigh
  rcases @vmpuAclSram_checked bssBoxesStart boxCount boxId bssSize stackSize s hne hfirst hsecond
    with ⟨hroom, bssStart, stackPointer, t, hok, hplaced⟩ | ⟨hfull, herror⟩
  · exact ⟨fun _ => ⟨bssStart, stackPointer, t, hok, sharedOut_of_placed hbss hfit hwrap hplaced⟩,
      fun hfull => absurd hroom hfull⟩
  · exact ⟨fun hroom => absurd hroom hfull, fun _ => herror⟩

end Sharing

/-! ## The first box of a boot -/

/-- Variables before the first call. -/
def firstCall : BoxMemory.State where
  boxMemPos := 0
  table := ⟨0, fun _ => ⟨0, 0, 0, 0⟩, fun _ => ⟨none, 0⟩⟩

theorem firstCall_sharesOut :
    ∃ bssStart stackPointer t,
      vmpuAclSram 0x20008004 2 firstCall 1 200 0 = .ok (bssStart, stackPointer, t) ∧
      SharedOut (t.table.lastRegion 1) bssStart 200 (minStack 0) stackPointer :=
  (vmpuAclSram_sharesOut (by decide) (by decide) (by decide)).1 ⟨by decide, by decide, rfl⟩

end Uvisor.BoxSubregions
