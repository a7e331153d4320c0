import Uvisor.RegionEncoding

/-!
# The window to public memory on ARMv7-M

At boot one region makes the public memory accessible. It starts where the
memory starts and has its size, rounded up to a power of two. The monitor's
own variables and the page heap come first and are left out by disabled
subregions, so the page heap has to end at a multiple of an eighth of the
region. A missing result means that the system halts.
-/

namespace Uvisor.PublicMemory

open ArmMpu MpuIsolation MpuPriority PageSubregions FaultRecovery RegionEncoding

/-! ## The boot -/

/-- UVISOR_TACLDEF_SECURE_CONST. -/
def tacldefSecureConst : Word := taclUread ||| taclSread ||| taclSizeRoundUp

/-- The linker's symbols that the static regions are made from. -/
structure LinkerConfig where
  /-- FLASH_ORIGIN. -/
  flashOrigin : Word
  /-- End of secure flash. -/
  secureEnd : Word
  /-- Start of public memory. -/
  publicSramStart : Word
  /-- End of public memory. -/
  publicSramEnd : Word
  /-- End of the page heap. -/
  pageEnd : Word
  /-- Page size. -/
  pageSize : Word

/-- Set a static region, and report its rounded size. -/
def vmpuMpuSetStaticAcl (index : ℕ) (start size acl aclHwSpec : Word) (s : ArmMpu.State) :
    Option (Word × ArmMpu.State) :=
  if regionsStatic ≤ index then none
  else
    (translateAcl start size acl aclHwSpec).map fun (region, roundedSize) =>
      (roundedSize, {s with
        mpu := program region index s.mpu
        mpuPriority := Function.update s.mpuPriority index 255})

/-- Size of the region of public memory. The shift by the width of a word is
not defined. -/
def totalSize (l : LinkerConfig) : Option Word :=
  (vmpuRegionBits (l.publicSramEnd-l.publicSramStart)).bind fun bits =>
    if 32 ≤ bits then none else some ((1 : Word) <<< bits)

/-- Set the static regions. -/
def vmpuArchInitHw (l : LinkerConfig) (s : ArmMpu.State) : Option ArmMpu.State :=
  (vmpuMpuSetStaticAcl 0 l.flashOrigin (l.secureEnd-l.flashOrigin)
      (tacldefSecureConst ||| taclExecute) 0 s).bind fun (_, s) =>
    (totalSize l).bind fun totalSize =>
      let subregionsSize := totalSize/8
      let protectedSize := l.pageEnd-l.publicSramStart
      if protectedSize % subregionsSize ≠ 0 then none
      else
        let subregionsDisableMask := ((1 : Word) <<< (protectedSize/subregionsSize)-1) &&& 0xFF
        (vmpuMpuSetStaticAcl 1 l.publicSramStart totalSize (tacldefData ||| taclExecute)
            subregionsDisableMask s).bind fun (_, s) =>
          if subregionsSize < l.pageSize then none else some s

/-! ## The window -/

/-- Whether a region grants an access without privileges. -/
def exposes (r : Region) (address : Word) (access : Access) : Bool :=
  r.hits address && r.permits access

/-- End of the window: the size of public memory is rounded up to a power of
two. -/
def windowEnd (l : LinkerConfig) : ℕ :=
  l.publicSramStart.toNat+2^Nat.clog 2 (l.publicSramEnd.toNat-l.publicSramStart.toNat)

section Window

variable {l : LinkerConfig} {s t : ArmMpu.State}

theorem vmpuMpuSetStaticAcl_spec {index : ℕ} {start size acl aclHwSpec rounded : Word}
    (h : vmpuMpuSetStaticAcl index start size acl aclHwSpec s = some (rounded, t)) :
    ∃ region, translateAcl start size acl aclHwSpec = some (region, rounded) ∧
      t.mpu.regions = Function.update s.mpu.regions index (registers region) := by
  unfold vmpuMpuSetStaticAcl at h
  split_ifs at h with hindex
  obtain ⟨⟨region, size⟩, htranslate, h⟩ := Option.map_eq_some_iff.mp h
  obtain ⟨rfl, rfl⟩ := Prod.mk.inj h
  refine ⟨region, htranslate, program_regions ?_ _ ?_⟩
  · exact translated_aligned (translated_of_translateAcl htranslate)
  · exact Nat.lt_of_lt_of_le (not_le.mp hindex) (by decide)

/-- The size of the region is that of public memory, rounded up. -/
theorem totalSize_spec {total : Word} (hsize : 256 ≤ (l.publicSramEnd-l.publicSramStart).toNat)
    (h : totalSize l = some total) :
    8 ≤ Nat.clog 2 (l.publicSramEnd-l.publicSramStart).toNat ∧
      Nat.clog 2 (l.publicSramEnd-l.publicSramStart).toNat < 32 ∧
      total = (1 : Word) <<< Nat.clog 2 (l.publicSramEnd-l.publicSramStart).toNat := by
  have hne : l.publicSramEnd-l.publicSramStart ≠ 0 := by
    intro hzero
    rw [hzero] at hsize
    exact absurd hsize (by decide)
  have hlog : 8 ≤ Nat.clog 2 (l.publicSramEnd-l.publicSramStart).toNat := by
    calc 8 = Nat.clog 2 (2^8) := (Nat.clog_pow 2 8 (by decide)).symm
      _ ≤ _ := Nat.clog_mono_right 2 hsize
  obtain ⟨bits, hbits, h⟩ := Option.bind_eq_some_iff.mp h
  rw [vmpuRegionBits_eq hne, max_eq_right (by unfold alignmentBits; omega)] at hbits
  obtain rfl := Option.some.inj hbits
  split_ifs at h with hlt
  exact ⟨hlog, not_le.mp hlt, (Option.some.inj h).symm⟩

/-- Bits of a mask with the given number of low bits. -/
theorem lowBits_getLsbD {n j : ℕ} (hn : n ≤ 8) (hj : j < 8) :
    (((1 : Word) <<< n-1) &&& 0xFF).getLsbD j = decide (j < n) := by
  have hall : ∀ n < 9, ∀ j < 8, (((1 : Word) <<< n-1) &&& 0xFF).getLsbD j = decide (j < n) := by
    decide
  exact hall n (Nat.lt_succ_of_le hn) j hj

/-- The region of public memory, whose first subregions are disabled. -/
theorem vmpuArchInitHw_spec
    (hsize : 256 ≤ (l.publicSramEnd-l.publicSramStart).toNat) (h : vmpuArchInitHw l s = some t) :
    ∃ bits n config, bits = Nat.clog 2 (l.publicSramEnd-l.publicSramStart).toNat ∧ 8 ≤ bits ∧
      bits < 32 ∧ (l.pageEnd-l.publicSramStart).toNat = n*(2^bits/8) ∧
      2^bits ∣ l.publicSramStart.toNat ∧
      vmpuMapAcl (tacldefData ||| taclExecute) = some config ∧
      t.mpu.regions 1 =
        ⟨l.publicSramStart, attributes config bits (((1 : Word) <<< n-1) &&& 0xFF)⟩ := by
  obtain ⟨⟨rounded₀, s₀⟩, -, h⟩ := Option.bind_eq_some_iff.mp h
  obtain ⟨total, htotal, h⟩ := Option.bind_eq_some_iff.mp h
  obtain ⟨hlog, hlt, rfl⟩ := totalSize_spec hsize htotal
  generalize Nat.clog 2 (l.publicSramEnd-l.publicSramStart).toNat = bits at *
  dsimp only at h
  split at h
  · cases h
  rename_i haligned
  obtain ⟨⟨rounded, s₁⟩, hset, h⟩ := Option.bind_eq_some_iff.mp h
  split_ifs at h
  obtain rfl := Option.some.inj h
  obtain ⟨region, htranslate, hregions⟩ := vmpuMpuSetStaticAcl_spec hset
  obtain ⟨bits', config, hbits', hconfig, hdvd, -, rfl⟩ := translateAcl_spec htranslate
  rw [roundedBits_twoPow (by omega) hlt] at hbits'
  obtain rfl := Option.some.inj hbits'
  have height : ((1 : Word) <<< bits/8).toNat = 2^bits/8 := by
    rw [BitVec.toNat_udiv, one_shiftLeft_toNat hlt]
    rfl
  have hzero := congrArg BitVec.toNat (not_not.mp haligned)
  rw [BitVec.toNat_umod, height] at hzero
  refine ⟨bits, ((l.pageEnd-l.publicSramStart)/((1 : Word) <<< bits/8)).toNat, config, rfl, hlog,
    hlt, ?_, hdvd, hconfig, ?_⟩
  · rw [BitVec.toNat_udiv, height]
    exact (Nat.div_mul_cancel (Nat.dvd_of_mod_eq_zero hzero)).symm
  · rw [hregions, Function.update_self]
    rfl

/-- It grants everything behind the disabled subregions. -/
theorem exposes_attributes_iff {start config : Word} {bits n : ℕ}
    (hconfig : vmpuMapAcl (tacldefData ||| taclExecute) = some config) (hlog : 8 ≤ bits)
    (hlt : bits < 32) (hdvd : 2^bits ∣ start.toNat) (hn : n ≤ 8) (address : Word)
    (access : Access) :
    exposes ⟨start, attributes config bits (((1 : Word) <<< n-1) &&& 0xFF)⟩ address access = true ↔
      start.toNat+n*(2^bits/8) ≤ address.toNat ∧ address.toNat < start.toNat+2^bits := by
  have height : 2^bits = 8*(2^bits/8) :=
    (Nat.mul_div_cancel' ((Nat.pow_dvd_pow_iff_le_right (by decide : 1 < 2)).mpr
      (show 3 ≤ bits by omega))).symm
  have hlarge : 2^8 ≤ 2^bits := Nat.pow_le_pow_right (by decide) hlog
  have hbytes : Region.bytes
      ⟨start, attributes config bits (((1 : Word) <<< n-1) &&& 0xFF)⟩ = 2^bits :=
    attributes_bytes hconfig (by omega) hlt start _
  have hpermits : Region.permits
      ⟨start, attributes config bits (((1 : Word) <<< n-1) &&& 0xFF)⟩ access = true := by
    obtain rfl := Option.some.inj ((show vmpuMapAcl (tacldefData ||| taclExecute) =
      some rasrApPrwUrw by decide).symm.trans hconfig)
    cases access <;> simp only [Region.permits, attributes_permissions hlt] <;> decide
  rw [exposes, hpermits, Bool.and_true, hits_eq_decodes (.inl (hbytes ▸ hlarge))
    (hbytes ▸ le_trans (by decide) hlarge) (hbytes.trans (hbytes ▸ height)),
    decodes_attributes_iff hconfig (by omega) hlt hdvd]
  generalize 2^bits/8 = subregionsSize at *
  have hpos : 0 < subregionsSize := by omega
  constructor
  · rintro ⟨hlow, hhigh, henabled⟩
    have hoffset : (address-start).toNat = address.toNat-start.toNat :=
      BitVec.toNat_sub_of_le hlow
    have hindex : (address-start).toNat/subregionsSize < 8 :=
      Nat.div_lt_of_lt_mul (by rw [hoffset, Nat.mul_comm]; omega)
    rw [lowBits_getLsbD hn hindex, decide_eq_false_iff_not, not_lt,
      Nat.le_div_iff_mul_le hpos] at henabled
    exact ⟨by omega, hhigh⟩
  · rintro ⟨hlow, hhigh⟩
    have hstart : start.toNat ≤ address.toNat := by omega
    have hoffset : (address-start).toNat = address.toNat-start.toNat :=
      BitVec.toNat_sub_of_le hstart
    have hindex : (address-start).toNat/subregionsSize < 8 :=
      Nat.div_lt_of_lt_mul (by rw [hoffset, Nat.mul_comm]; omega)
    refine ⟨hstart, hhigh, ?_⟩
    rw [lowBits_getLsbD hn hindex, decide_eq_false_iff_not, not_lt, Nat.le_div_iff_mul_le hpos]
    omega

/-- After a boot that does not halt the region of public memory grants access
to everything from the end of the page heap to the end of the window, and to
nothing else. The window has all of public memory behind the page heap. -/
theorem window_exact (hstart : l.publicSramStart ≤ l.pageEnd) (hend : l.pageEnd ≤ l.publicSramEnd)
    (hsize : 256 ≤ (l.publicSramEnd-l.publicSramStart).toNat)
    (h : vmpuArchInitHw l s = some t) :
    (∀ address access, exposes (t.mpu.regions 1) address access = true ↔
      l.pageEnd.toNat ≤ address.toNat ∧ address.toNat < windowEnd l) ∧
    l.publicSramEnd.toNat ≤ windowEnd l := by
  have hle : l.publicSramStart.toNat ≤ l.pageEnd.toNat := hstart
  have hle' : l.pageEnd.toNat ≤ l.publicSramEnd.toNat := hend
  have hsram : (l.publicSramEnd-l.publicSramStart).toNat =
      l.publicSramEnd.toNat-l.publicSramStart.toNat :=
    BitVec.toNat_sub_of_le (BitVec.le_def.mpr (hle.trans hle'))
  have hprotected : (l.pageEnd-l.publicSramStart).toNat =
      l.pageEnd.toNat-l.publicSramStart.toNat := BitVec.toNat_sub_of_le hstart
  obtain ⟨bits, n, config, hbits, hlog, hlt, hn, hdvd, hconfig, hregion⟩ :=
    vmpuArchInitHw_spec hsize h
  have hwindow : windowEnd l = l.publicSramStart.toNat+2^bits := by
    rw [windowEnd, hbits, hsram]
  have hcovers : (l.publicSramEnd-l.publicSramStart).toNat ≤ 2^bits :=
    hbits ▸ Nat.le_pow_clog (by decide) _
  have height : 2^bits = 8*(2^bits/8) :=
    (Nat.mul_div_cancel' ((Nat.pow_dvd_pow_iff_le_right (by decide : 1 < 2)).mpr
      (show 3 ≤ bits by omega))).symm
  have hcount : n ≤ 8 := by
    have hpos : 0 < 2^bits/8 := by
      have := Nat.two_pow_pos bits
      omega
    refine Nat.le_of_mul_le_mul_right (c := 2^bits/8) ?_ hpos
    omega
  refine ⟨fun address access => ?_, by omega⟩
  rw [hregion, exposes_attributes_iff hconfig hlog hlt hdvd hcount, hwindow]
  omega

end Window

/-! ## A memory of 96 kilobytes -/

/-- A device whose page heap ends after two of six subregions. -/
def sixSubregions : LinkerConfig where
  flashOrigin := 0
  secureEnd := 0x80000
  publicSramStart := 0x20000000
  publicSramEnd := 0x20018000
  pageEnd := 0x20008000
  pageSize := 0x1000

/-- The unit after a reset. -/
def resetState : ArmMpu.State where
  activeBox := 0
  mpu := ⟨0, fun _ => ⟨0, 0⟩⟩
  mpuSlot := regionsStatic
  mpuPriority := fun _ => 0
  alloc := ⟨fun _ _ => 0, fun _ => 0, 0, fun _ => 0, fun _ => 0⟩

theorem window_exact_sixSubregions :
    ∃ t, vmpuArchInitHw sixSubregions resetState = some t ∧
      (∀ address access, exposes (t.mpu.regions 1) address access = true ↔
        sixSubregions.pageEnd.toNat ≤ address.toNat ∧ address.toNat < windowEnd sixSubregions) ∧
      sixSubregions.publicSramEnd.toNat ≤ windowEnd sixSubregions := by
  have hboot : (vmpuArchInitHw sixSubregions resetState).isSome := by decide
  obtain ⟨t, ht⟩ := Option.isSome_iff_exists.mp hboot
  exact ⟨t, ht, window_exact (by decide) (by decide) (by decide) ht⟩

end Uvisor.PublicMemory
