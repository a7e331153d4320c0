import Uvisor.AlignedRegions
import Uvisor.FaultRecovery

/-!
# The encoding of regions on ARMv7-M

A region is recorded twice: as a range of addresses, which the monitor looks
up, and as the contents of two registers, which the unit enforces. The
translation rounds the size to a power of two, takes its logarithm into the
size field and the hardware's specification into the bits that disable
subregions, and halts when the start is not a multiple of the rounded size.
-/

namespace Uvisor.RegionEncoding

open ArmMpu MpuIsolation MpuPriority PageSubregions FaultRecovery

/-! ## Translation and decoding -/

/-- vmpu_region_translate_acl with its result, the rounded size. -/
def translateAcl (start size acl aclHwSpec : Word) : Option (MpuRegion × Word) :=
  (roundedBits size acl).bind fun bits =>
    (vmpuRegionTranslateAcl start size acl aclHwSpec).map fun region => (region, (1 : Word) <<< bits)

/-- Write a region to the two registers, as a slot of the unit is set. -/
def program (region : MpuRegion) (slot : ℕ) (m : Mpu) : Mpu :=
  (m.writeRbar (BitVec.ofNat 32 slot ||| rbarValid ||| region.start)).writeRasr region.config

/-- Whether an address lies in the range of a region, minus its disabled
subregions, by the fields of its registers. -/
def decodes (r : Region) (address : Word) : Bool :=
  r.enabled && r.covers address && r.subregionEnabled (r.subregionOf address)

/-- The registers of a region encode its range of addresses, minus the
subregions that a specification disables. -/
structure Encodes (region : MpuRegion) (size aclHwSpec : Word) : Prop where
  /-- The base address and the attributes are read back from the registers. -/
  programmed : ∀ (m : Mpu), ∀ slot < 16,
    (program region slot m).regions = Function.update m.regions slot (registers region)
  /-- The size field. -/
  bytes : (registers region).bytes = size.toNat
  /-- The range has that size. -/
  ends : region.ends.toNat = region.start.toNat+size.toNat
  /-- It is aligned to its size. -/
  aligned : size.toNat ∣ region.start.toNat
  /-- The addresses that the fields describe. -/
  decodes_iff : ∀ address, decodes (registers region) address = true ↔
    region.start ≤ address ∧ address < region.ends ∧
      aclHwSpec.getLsbD ((address-region.start).toNat/(size.toNat/8)) = false
  /-- They are those that the unit matches, except that it knows no subregions
  of regions with less than 256 bytes. -/
  hits : 256 ≤ size.toNat ∨ aclHwSpec &&& 0xFF = 0 →
    ∀ address, (registers region).hits address = decodes (registers region) address

/-! ## Sizes -/

section Sizes

variable {start size acl aclHwSpec : Word} {bits : ℕ}

theorem one_shiftLeft_eq_iff (hbits : bits < 32) :
    (1 : Word) <<< bits = size ↔ 2^bits = size.toNat := by
  rw [← BitVec.toNat_inj, one_shiftLeft_toNat hbits]

/-- The logarithm of the region size is rounded up, to five at least. -/
theorem vmpuRegionBits_eq (hsize : size ≠ 0) :
    vmpuRegionBits size = some (max alignmentBits (Nat.clog 2 size.toNat)) := by
  have hnat : size.toNat ≠ 0 := fun h => hsize (BitVec.eq_of_toNat_eq h)
  have hlog : size.toNat.log2 < 32 := (Nat.log2_lt hnat).mpr size.isLt
  have hceil := AlignedRegions.ceilLog_eq_clog hnat
  have hexact : ((1 : Word) <<< size.toNat.log2 ≠ size) = (2^size.toNat.log2 ≠ size.toNat) :=
    propext (not_congr (one_shiftLeft_eq_iff hlog))
  unfold vmpuRegionBits vmpuBits
  rw [if_neg hsize, if_neg hsize]
  simp only [Nat.add_sub_cancel, hexact, hceil]
  congr 1
  split_ifs <;> omega

/-- Sizes that are not rounded down are rounded up, and the other way round. -/
theorem roundedBits_spec (h : roundedBits size acl = some bits) :
    (acl &&& taclSizeRoundDown = 0 → size.toNat ≤ 2^bits) ∧
      (acl &&& taclSizeRoundDown ≠ 0 → 2^bits ≤ size.toNat) := by
  obtain ⟨up, hup, h⟩ := Option.bind_eq_some_iff.mp h
  have hsize : size ≠ 0 := by
    rintro rfl
    cases hup
  rw [vmpuRegionBits_eq hsize] at hup
  obtain rfl := Option.some.inj hup
  have hle : size.toNat ≤ 2^max alignmentBits (Nat.clog 2 size.toNat) :=
    AlignedRegions.le_two_pow_max_clog _ _
  split_ifs at h with hbits hrounded hnone hdown hsmall
  · obtain rfl := Option.some.inj h
    refine ⟨fun hzero => absurd hzero hdown, fun _ => ?_⟩
    have hclog : max alignmentBits (Nat.clog 2 size.toNat) = Nat.clog 2 size.toNat := by
      unfold alignmentBits at *
      omega
    rw [hclog] at hsmall ⊢
    refine (Nat.pow_pred_clog_lt_self (by decide) ?_).le
    by_contra hone
    rw [Nat.clog_of_right_le_one (not_lt.mp hone)] at hsmall
    exact hsmall (by decide)
  · obtain rfl := Option.some.inj h
    exact ⟨fun _ => hle, fun hset => absurd hset hdown⟩
  · obtain rfl := Option.some.inj h
    have heq := (one_shiftLeft_eq_iff (not_le.mp hbits)).mp (not_not.mp hrounded)
    exact ⟨fun _ => hle, fun _ => heq.le⟩

/-- A power of two needs no rounding. -/
theorem roundedBits_twoPow (hfive : 5 ≤ bits) (hbits : bits < 32) :
    roundedBits ((1 : Word) <<< bits) acl = some bits := by
  have hne : (1 : Word) <<< bits ≠ 0 := by
    intro hzero
    have hone := one_shiftLeft_toNat hbits
    rw [hzero] at hone
    exact absurd hone.symm (Nat.two_pow_pos bits).ne'
  have hlog : max alignmentBits (Nat.clog 2 ((1 : Word) <<< bits).toNat) = bits := by
    rw [one_shiftLeft_toNat hbits, Nat.clog_pow 2 bits (by decide)]
    exact max_eq_right hfive
  rw [roundedBits, vmpuRegionBits_eq hne, hlog, Option.bind_some, if_neg (not_le.mpr hbits),
    if_neg (not_not.mpr rfl)]

end Sizes

/-! ## Attributes -/

section Attributes

variable {start size acl aclHwSpec : Word} {bits : ℕ}

/-- The permissions are not among the bits that disable subregions. -/
theorem vmpuMapAcl_subregions {config : Word} (h : vmpuMapAcl acl = some config) {j : ℕ}
    (hj : j < 8) : config.getLsbD (8+j) = false := by
  have hbits : config &&& 0xFF00 = 0 := by
    unfold vmpuMapAcl at h
    dsimp only at h
    split_ifs at h <;> cases h <;> decide
  have hmask : (0xFF00 : Word).getLsbD (8+j) = true := by
    interval_cases j <;> decide
  have hbit : (config &&& 0xFF00).getLsbD (8+j) = false := by
    rw [hbits]
    exact BitVec.getLsbD_zero
  rwa [BitVec.getLsbD_and, hmask, Bool.and_true] at hbit

/-- Bits of the specification disable subregions. -/
theorem attributes_subregion {config : Word} (h : vmpuMapAcl acl = some config) (hbits : bits < 32)
    (region aclHwSpec : Word) {j : ℕ} (hj : j < 8) :
    Region.subregionEnabled ⟨region, attributes config bits aclHwSpec⟩ j = !aclHwSpec.getLsbD j := by
  have hconfig := vmpuMapAcl_subregions h hj
  have hsize : (rasrEnable ||| (BitVec.ofNat 32 (bits-1) <<< 1)).getLsbD (8+j) = false := by
    interval_cases j <;> interval_cases bits <;> decide
  have hspec : ((aclHwSpec <<< 8) &&& 0xFF00).getLsbD (8+j) = aclHwSpec.getLsbD j := by
    have hmask : (0xFF00 : Word).getLsbD (8+j) = true := by
      interval_cases j <;> decide
    rw [BitVec.getLsbD_and, hmask, BitVec.getLsbD_shiftLeft, Bool.and_true]
    simp only [show 8+j < 32 by omega, show ¬8+j < 8 by omega, decide_true, decide_false,
      Bool.not_false, Bool.true_and, Nat.add_sub_cancel_left]
  rw [Region.subregionEnabled, attributes, BitVec.getLsbD_or, BitVec.or_assoc, BitVec.getLsbD_or,
    hconfig, hsize, hspec, Bool.false_or, Bool.false_or]

/-- The size and the disabled subregions are not among the permissions. -/
theorem attributes_permissions {config : Word} (hbits : bits < 32) :
    (attributes config bits aclHwSpec).extractLsb' 24 3 = config.extractLsb' 24 3 := by
  have hspec : ((aclHwSpec <<< 8) &&& 0xFF00).extractLsb' 24 3 = 0 := field_eq_zero (by decide)
  have hsize : (rasrEnable ||| (BitVec.ofNat 32 (bits-1) <<< 1)).extractLsb' 24 3 = 0 := by
    interval_cases bits <;> decide
  rw [attributes, BitVec.extractLsb'_or, BitVec.or_assoc, BitVec.extractLsb'_or, hspec, hsize]
  simp

/-- What a translation that does not halt returns. -/
theorem translateAcl_spec {region : MpuRegion} {returned : Word}
    (h : translateAcl start size acl aclHwSpec = some (region, returned)) :
    ∃ bits config, roundedBits size acl = some bits ∧ vmpuMapAcl acl = some config ∧
      2^bits ∣ start.toNat ∧ returned = (1 : Word) <<< bits ∧
      region = ⟨start, start+(1 : Word) <<< bits, attributes config bits aclHwSpec, acl⟩ := by
  obtain ⟨bits, hbits, h⟩ := Option.bind_eq_some_iff.mp h
  obtain ⟨translated, htranslated, h⟩ := Option.map_eq_some_iff.mp h
  obtain ⟨rfl, rfl⟩ := Prod.mk.inj h
  obtain ⟨bits', config, hbits', hconfig, hdvd, hregion⟩ :=
    vmpuRegionTranslateAcl_spec htranslated
  obtain rfl := Option.some.inj (hbits.symm.trans hbits')
  exact ⟨bits, config, hbits, hconfig, hdvd, rfl, hregion⟩

/-- An aligned power of two is translated as it is. -/
theorem translateAcl_twoPow {config : Word} (hconfig : vmpuMapAcl acl = some config)
    (hfive : 5 ≤ bits) (hbits : bits < 32) (hdvd : 2^bits ∣ start.toNat) :
    translateAcl start ((1 : Word) <<< bits) acl aclHwSpec =
      some (⟨start, start+(1 : Word) <<< bits, attributes config bits aclHwSpec, acl⟩,
        (1 : Word) <<< bits) := by
  have haligned : ¬start &&& ((1 : Word) <<< bits-1) ≠ 0 :=
    not_not.mpr ((and_lowBits_eq_zero_iff hbits).mpr hdvd)
  simp only [translateAcl, vmpuRegionTranslateAcl, roundedBits_twoPow hfive hbits,
    Option.bind_some, if_neg haligned, hconfig, Option.map_some]
  rfl

end Attributes

/-! ## The encoding -/

section Encoding

variable {start size acl aclHwSpec returned : Word} {region : MpuRegion}

theorem translated_of_translateAcl
    (h : translateAcl start size acl aclHwSpec = some (region, returned)) : Translated region := by
  obtain ⟨bits, -, h⟩ := Option.bind_eq_some_iff.mp h
  obtain ⟨translated, htranslated, h⟩ := Option.map_eq_some_iff.mp h
  obtain ⟨rfl, -⟩ := Prod.mk.inj h
  exact ⟨start, size, acl, aclHwSpec, htranslated⟩

/-- Writing an aligned region to a slot sets the registers of the slot. -/
theorem program_regions (haligned : region.start &&& 0x1F = 0) (m : Mpu) {slot : ℕ}
    (hslot : slot < 16) :
    (program region slot m).regions = Function.update m.regions slot (registers region) := by
  simp only [program, writeRbar_valid hslot haligned, Mpu.writeRasr, Function.update_self,
    Function.update_idem, registers]

/-- The unit matches what the fields describe when the subregions are large
enough, or all enabled. -/
theorem hits_eq_decodes {r : Region}
    (h : 256 ≤ r.bytes ∨ ∀ j < 8, r.subregionEnabled j = true) (hpos : 8 ≤ r.bytes)
    (hwhole : r.bytes = 8*r.subregionBytes) (address : Word) :
    r.hits address = decodes r address := by
  have hindex : r.subregionOf address < 8 := by
    rw [Region.subregionOf, hwhole]
    exact Nat.div_lt_of_lt_mul (Nat.lt_of_lt_of_le (Nat.mod_lt _ (by omega)) (by omega))
  have hkeeps : r.keeps address = r.subregionEnabled (r.subregionOf address) := by
    rcases h with hlarge | hall
    · rw [Region.keeps, decide_eq_false (by omega), Bool.false_or]
    · rw [Region.keeps, hall _ hindex, Bool.or_true]
  rw [Region.hits, decodes, hkeeps]

/-- The addresses that the fields of a translated region describe. -/
theorem decodes_attributes_iff {config : Word} {bits : ℕ} (hconfig : vmpuMapAcl acl = some config)
    (hfive : 5 ≤ bits) (hbits : bits < 32) (hdvd : 2^bits ∣ start.toNat)
    (address : Word) :
    decodes ⟨start, attributes config bits aclHwSpec⟩ address = true ↔
      start.toNat ≤ address.toNat ∧ address.toNat < start.toNat+2^bits ∧
        aclHwSpec.getLsbD ((address-start).toNat/(2^bits/8)) = false := by
  have hpos : 0 < 2^bits := Nat.two_pow_pos bits
  have hbytes := attributes_bytes hconfig hfive hbits start aclHwSpec
  have henabled : Region.enabled ⟨start, attributes config bits aclHwSpec⟩ = true := by
    simp [Region.enabled, attributes, rasrEnable]
  have hcovers := @covers_iff address ⟨start, attributes config bits aclHwSpec⟩
    (hbytes ▸ hdvd) (hbytes ▸ hpos)
  rw [hbytes] at hcovers
  rw [decodes, henabled, Bool.true_and, Bool.and_eq_true, hcovers, and_assoc]
  refine and_congr_right fun hlow => and_congr_right fun hhigh => ?_
  have hoffset : (address-start).toNat = address.toNat-start.toNat := BitVec.toNat_sub_of_le hlow
  have hindex : Region.subregionOf ⟨start, attributes config bits aclHwSpec⟩ address =
      (address-start).toNat/(2^bits/8) := by
    rw [subregionOf_eq (hbytes ▸ hdvd) (hbytes ▸ hpos) (hcovers.mpr ⟨hlow, hhigh⟩), hoffset]
    exact congrArg (fun bytes => (address.toNat-start.toNat)/(bytes/8)) hbytes
  have height : 2^bits = 8*(2^bits/8) :=
    (Nat.mul_div_cancel' ((Nat.pow_dvd_pow_iff_le_right (by decide : 1 < 2)).mpr
      (show 3 ≤ bits by omega))).symm
  have hinside : address.toNat < start.toNat+2^bits := hhigh
  have hlt : (address-start).toNat/(2^bits/8) < 8 := by
    refine Nat.div_lt_of_lt_mul ?_
    rw [hoffset, Nat.mul_comm]
    omega
  rw [hindex, attributes_subregion hconfig hbits start aclHwSpec hlt, Bool.not_eq_true']

/-- Every translation that does not halt encodes the range that it records.
Without rounding down the range has all the bytes that were asked for, and with
rounding down it has no others. -/
theorem translateAcl_encodes
    (h : translateAcl start size acl aclHwSpec = some (region, returned))
    (hend : start.toNat+returned.toNat < 2^32) :
    Encodes region returned aclHwSpec ∧ region.start = start ∧
      (acl &&& taclSizeRoundDown = 0 → start.toNat+size.toNat ≤ region.ends.toNat) ∧
      (acl &&& taclSizeRoundDown ≠ 0 → region.ends.toNat ≤ start.toNat+size.toNat) := by
  have haligned := translated_aligned (translated_of_translateAcl h)
  obtain ⟨bits, config, hbits, hconfig, hdvd, rfl, rfl⟩ := translateAcl_spec h
  obtain ⟨hfive, hlt⟩ := roundedBits_range hbits
  obtain ⟨hup, hdown⟩ := roundedBits_spec hbits
  have hone := one_shiftLeft_toNat hlt
  have hbytes : (registers ⟨start, start+(1 : Word) <<< bits,
      attributes config bits aclHwSpec, acl⟩).bytes = 2^bits :=
    attributes_bytes hconfig hfive hlt start aclHwSpec
  rw [hone] at hend
  have hends : (start+(1 : Word) <<< bits).toNat = start.toNat+2^bits := by
    rw [BitVec.toNat_add, hone, Nat.mod_eq_of_lt hend]
  refine ⟨⟨fun m slot hslot => program_regions haligned m hslot, hbytes.trans hone.symm,
    hends.trans (by rw [hone]), hone ▸ hdvd, fun address => ?_, fun hlarge address => ?_⟩, rfl,
    fun hnone => ?_, fun hset => ?_⟩
  · rw [hone, BitVec.le_def, BitVec.lt_def, hends]
    exact decodes_attributes_iff hconfig hfive hlt hdvd address
  · have height : 8 ∣ 2^bits := (Nat.pow_dvd_pow_iff_le_right (by decide : 1 < 2)).mpr
      (show 3 ≤ bits by omega)
    refine hits_eq_decodes ?_ (hbytes ▸ Nat.le_of_dvd (Nat.two_pow_pos bits) height) ?_ address
    · rw [hbytes]
      refine hlarge.imp (fun hsize => hone ▸ hsize) fun hclear j hj => ?_
      have hbit : aclHwSpec.getLsbD j = (aclHwSpec &&& 0xFF).getLsbD j := by
        have hmask : (0xFF : Word).getLsbD j = true := by
          interval_cases j <;> decide
        rw [BitVec.getLsbD_and, hmask, Bool.and_true]
      have hdisabled := attributes_subregion hconfig hlt start aclHwSpec hj
      rw [hbit, hclear] at hdisabled
      exact hdisabled.trans (congrArg not BitVec.getLsbD_zero)
    · change _ = 8*(Region.bytes _/8)
      rw [hbytes, Nat.mul_div_cancel' height]
  · exact hends ▸ Nat.add_le_add_left (hup hnone) _
  · exact hends ▸ Nat.add_le_add_left (hdown hset) _

end Encoding

/-! ## A region of a kilobyte -/

/-- The region of a thousand bytes with two disabled subregions. -/
def kilobyte : MpuRegion := ⟨0x20000000, 0x20000400, 0x13000313, tacldefData⟩

theorem kilobyte_encodes :
    Encodes kilobyte 1024 3 ∧ kilobyte.start = 0x20000000 ∧
      (tacldefData &&& taclSizeRoundDown = 0 →
        (0x20000000 : Word).toNat+(1000 : Word).toNat ≤ kilobyte.ends.toNat) ∧
      (tacldefData &&& taclSizeRoundDown ≠ 0 →
        kilobyte.ends.toNat ≤ (0x20000000 : Word).toNat+(1000 : Word).toNat) :=
  translateAcl_encodes (by rfl) (by decide)

end Uvisor.RegionEncoding
