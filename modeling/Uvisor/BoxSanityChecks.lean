import Uvisor.BoxSubregions

/-!
# The sanity checks for the memory of a secure box

The sizes in a configuration table are words that nobody has checked. The bytes
are multiplied by eight before the region is sized, so that an eighth of the
address space is lost for large tables, and the signed count of subregions for
the stack becomes a huge unsigned product. The two checks let such tables pass.
-/

namespace Uvisor.BoxSanityChecks

open ArmMpu MpuIsolation RegionEncoding AlignedRegions BoxMemory BoxSubregions

/-! ## Statement -/

/-- An address lies in a region, counted from its start. -/
def InRegion (region : MpuRegion) (address : Word) : Prop :=
  address-region.start < region.ends-region.start

/-- The bytes of the BSS sections and those of the stack lie in a region, and
do not overlap. -/
structure Contained (region : MpuRegion) (bssStart bssSize stackSize : ℕ) : Prop where
  /-- The BSS sections lie in the region. -/
  bss : ∀ i < bssSize, InRegion region (BitVec.ofNat 32 bssStart+BitVec.ofNat 32 i)
  /-- The stack below the end of the region lies in it. -/
  stack : ∀ i < stackSize, InRegion region (region.ends-BitVec.ofNat 32 (i+1))
  /-- They have no byte in common. -/
  apart : ∀ i < bssSize, ∀ j < stackSize,
    BitVec.ofNat 32 bssStart+BitVec.ofNat 32 i ≠ region.ends-BitVec.ofNat 32 (j+1)

/-! ## Containment -/

section Containment

variable {region : MpuRegion} {bssStart bssSize stackSize bytes : ℕ}

/-- A byte counted from the start. -/
theorem inRegion_start_iff (hends : region.ends = region.start+BitVec.ofNat 32 bytes)
    (hbytes : bytes < 2^32) {i : ℕ} (hi : i < 2^32) :
    InRegion region (region.start+BitVec.ofNat 32 i) ↔ i < bytes := by
  have hoffset : ∀ n, region.start+BitVec.ofNat 32 n-region.start = BitVec.ofNat 32 n := fun n => by
    rw [BitVec.add_comm, BitVec.add_sub_cancel]
  rw [InRegion, hends, hoffset, hoffset, BitVec.lt_def, BitVec.toNat_ofNat, BitVec.toNat_ofNat,
    Nat.mod_eq_of_lt hi, Nat.mod_eq_of_lt hbytes]

/-- A byte counted from the end, by its place from the start. -/
theorem ends_sub (hends : region.ends = region.start+BitVec.ofNat 32 bytes) {i k : ℕ}
    (hk : k+(i+1) = bytes ∨ k+(i+1) = bytes+2^32) :
    region.ends-BitVec.ofNat 32 (i+1) = region.start+BitVec.ofNat 32 k := by
  have hsum : BitVec.ofNat 32 bytes = BitVec.ofNat 32 k+BitVec.ofNat 32 (i+1) := by
    rw [← BitVec.ofNat_add]
    rcases hk with hk | hk
    · rw [hk]
    · rw [hk, BitVec.ofNat_add]
      exact (BitVec.add_zero _).symm
  rw [hends, hsum, ← BitVec.add_assoc, BitVec.add_sub_cancel]

theorem inRegion_ends_iff (hends : region.ends = region.start+BitVec.ofNat 32 bytes)
    (hbytes : bytes < 2^32) {i : ℕ} (hi : i < 2^32) :
    InRegion region (region.ends-BitVec.ofNat 32 (i+1)) ↔ i < bytes := by
  rcases Nat.lt_or_ge i bytes with hlt | hge
  · rw [ends_sub hends (k := bytes-(i+1)) (.inl (by omega)),
      inRegion_start_iff hends hbytes (by omega)]
    omega
  · rw [ends_sub hends (k := bytes+2^32-(i+1)) (.inr (by omega)),
      inRegion_start_iff hends hbytes (by omega)]
    omega

/-- The sizes have to fit into the region together. -/
theorem contained_iff (hends : region.ends = region.start+BitVec.ofNat 32 bytes)
    (hbytes : bytes < 2^32) (hbss : bssSize < 2^32) (hstack : stackSize < 2^32)
    (hstart : bssSize ≠ 0 → BitVec.ofNat 32 bssStart = region.start) :
    Contained region bssStart bssSize stackSize ↔ bssSize+stackSize ≤ bytes := by
  constructor
  · intro h
    have hstackLe : stackSize ≤ bytes := by
      by_contra hlt
      exact absurd ((inRegion_ends_iff hends hbytes hbytes).mp (h.stack bytes (by omega)))
        (lt_irrefl _)
    rcases Nat.eq_zero_or_pos bssSize with rfl | hpos
    · omega
    have hbase := hstart hpos.ne'
    have hbssLe : bssSize ≤ bytes := by
      by_contra hlt
      have hin := h.bss bytes (by omega)
      rw [hbase] at hin
      exact absurd ((inRegion_start_iff hends hbytes hbytes).mp hin) (lt_irrefl _)
    -- Otherwise the last byte of the BSS sections is one of the stack.
    by_contra hlt
    refine h.apart (bssSize-1) (by omega) (bytes-bssSize) (by omega) ?_
    rw [hbase, ends_sub hends (.inl (by omega : bssSize-1+(bytes-bssSize+1) = bytes))]
  · intro hle
    refine ⟨fun i hi => ?_, fun i hi => ?_, fun i hi j hj heq => ?_⟩
    · rw [hstart (by omega)]
      exact (inRegion_start_iff hends hbytes (by omega)).mpr (by omega)
    · exact (inRegion_ends_iff hends hbytes (by omega)).mpr (by omega)
    · rw [hstart (by omega),
        ends_sub hends (.inl (by omega : bytes-(j+1)+(j+1) = bytes))] at heq
      have hoffset := congrArg BitVec.toNat ((BitVec.add_right_inj _).mp heq)
      rw [BitVec.toNat_ofNat, BitVec.toNat_ofNat, Nat.mod_eq_of_lt (by omega),
        Nat.mod_eq_of_lt (by omega)] at hoffset
      omega

end Containment

/-! ## Sizes that fit -/

section Sizes

variable {bssSize stackSize : ℕ}

theorem minStack_eq (stackSize : ℕ) : minStack stackSize = max stackSize 1024 := by
  unfold minStack BoxEnumeration.minStackSize
  split_ifs <;> omega

/-- Few bytes get a small region, whatever was lost above them. -/
theorem sramBytes_le_of_few (h : sizedTotal bssSize stackSize ≤ 1024) :
    sramBytes bssSize stackSize ≤ 2^11 :=
  regionBytes_le (by decide) (by omega)

/-- The bytes fit into the region that is computed for them exactly when
nothing is lost, or when what is left gives the largest region. -/
theorem fits_iff :
    bssSize+stackSize ≤ sramBytes bssSize stackSize ↔
      bssSize+minStack stackSize < 2^29 ∨
        (7*2^27 < bssSize+minStack stackSize ∧ bssSize+minStack stackSize < 2^30) := by
  have hmin := minStack_eq stackSize
  have htotal : sizedTotal bssSize stackSize = (minStack stackSize+bssSize)%2^29 := rfl
  have hlarge := sramBytes_le bssSize stackSize
  have hfew := @sramBytes_le_of_few bssSize stackSize
  have hsix : sizedTotal bssSize stackSize ≤ 6*(sramBytes bssSize stackSize/8) :=
    total_le_regionBytes _
  constructor
  · intro hfit
    by_contra hout
    by_cases hhuge : 2^30 ≤ bssSize+minStack stackSize
    · have := hfew (by omega)
      omega
    · have hhalf : sramBytes bssSize stackSize ≤ 2^29 := regionBytes_le (by decide) (by omega)
      have := hfew (by omega)
      omega
  · rintro (hsmall | ⟨hlow, hhigh⟩)
    · omega
    · have hfull : 2^30 ≤ sramBytes bssSize stackSize := by
        refine Nat.pow_le_pow_right (by decide) (le_max_of_le_right ?_)
        exact (Nat.lt_clog_iff_pow_lt (by decide)).mpr (by omega)
      omega

end Sizes

/-! ## The checks -/

section Checks

variable {bssBoxesStart boxCount boxId bssSize stackSize bssStart stackPointer : ℕ}
  {s t : BoxMemory.State}

/-- What fits into the region of a box is contained in it. -/
theorem contained_iff_fits (hbss : bssSize < 2^32) (hstack : stackSize < 2^32)
    (h : Placed (memPos bssBoxesStart s) s.table boxId bssSize stackSize bssStart stackPointer t) :
    Contained (t.table.lastRegion boxId) bssStart bssSize stackSize ↔
      bssSize+stackSize ≤ sramBytes bssSize stackSize := by
  have hlarge := sramBytes_le bssSize stackSize
  rw [h.region]
  refine contained_iff rfl (by omega) hbss hstack fun hne => ?_
  have hslots : sramSlots bssSize stackSize ≠ 0 := fun hzero => by
    have hcheck := h.bss
    have hnone : slotsSize (0 : ℕ) (sramBytes bssSize stackSize/8) = 0 := by simp [slotsSize]
    rw [hzero, hnone] at hcheck
    exact hne (Nat.le_zero.mp hcheck)
  rw [h.bssStart, if_pos hslots]
  rfl

/-- For all sizes that a table may contain and that vmpu_acl_sram does not halt
for, the BSS sections and the stack lie in the region of the box and do not
overlap exactly when less than an eighth of the address space is asked for, or
less than a quarter but more than seven eighths of that. -/
theorem contained_iff_window (hbss : bssSize < 2^32) (hstack : stackSize < 2^32)
    (h : vmpuAclSram bssBoxesStart boxCount s boxId bssSize stackSize =
      .ok (bssStart, stackPointer, t)) :
    Contained (t.table.lastRegion boxId) bssStart bssSize stackSize ↔
      bssSize+minStack stackSize < 2^29 ∨
        (7*2^27 < bssSize+minStack stackSize ∧ bssSize+minStack stackSize < 2^30) :=
  (contained_iff_fits hbss hstack (vmpuAclSram_placed h)).trans fits_iff

theorem firstCall_contained :
    ∃ bssStart stackPointer t,
      vmpuAclSram 0x20008004 2 firstCall 1 200 0 = .ok (bssStart, stackPointer, t) ∧
      (Contained (t.table.lastRegion 1) bssStart 200 0 ↔
        200+minStack 0 < 2^29 ∨ (7*2^27 < 200+minStack 0 ∧ 200+minStack 0 < 2^30)) := by
  rcases @vmpuAclSram_checked 0x20008004 2 1 200 0 firstCall (by decide) (by decide) (by decide)
    with ⟨-, bssStart, stackPointer, t, hok, -⟩ | ⟨hfull, -⟩
  · exact ⟨bssStart, stackPointer, t, hok, contained_iff_window (by decide) (by decide) hok⟩
  · exact absurd ⟨by decide, by decide, rfl⟩ hfull

/-- A table with half a gigabyte of BSS sections passes both checks, and gets a
region of two kilobytes. -/
theorem halfGigabyte_not_contained :
    ∃ bssStart stackPointer t,
      vmpuAclSram 0x20000000 2 firstCall 1 (2^29) 1024 = .ok (bssStart, stackPointer, t) ∧
      ¬Contained (t.table.lastRegion 1) bssStart (2^29) 1024 := by
  rcases @vmpuAclSram_checked 0x20000000 2 1 (2^29) 1024 firstCall (by decide) (by decide)
    (by decide) with ⟨-, bssStart, stackPointer, t, hok, hplaced⟩ | ⟨hfull, -⟩
  · refine ⟨bssStart, stackPointer, t, hok, fun h => ?_⟩
    rw [contained_iff_fits (by decide) (by decide) hplaced, fits_iff] at h
    exact absurd h (by decide)
  · exact absurd ⟨by decide, by decide, rfl⟩ hfull

end Checks

end Uvisor.BoxSanityChecks
