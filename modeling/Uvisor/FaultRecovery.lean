import Uvisor.MpuPriority
import Uvisor.PageSubregions

/-!
# Recovery from faults on ARMv7-M

A recovery loads a region with the address of the fault, and the access is
tried again. The region is chosen by its first and last address only. Its
permissions, its disabled subregions and the regions in higher slots can deny
the access again, and then the same fault comes back for ever.
-/

namespace Uvisor.FaultRecovery

open PageAllocator ArmMpu MpuIsolation MpuPriority PageSubregions Execution

/-! ## When a recovery helps -/

/-- The slot that the round robin replaces next. -/
def replacedSlot (s : ArmMpu.State) (priority : ℕ) : ℕ := (pushSearch s priority).slot

/-- A region in the slot of the next push lets an access pass: no region above
the slot decides, and then the new region or one below it allows the access, or
a region above the slot has allowed it before. -/
def Passes (s : ArmMpu.State) (priority : ℕ) (region : Region) (address : Word) (access : Access) :
    Prop :=
  (Unshadowed s.mpu.regions address (replacedSlot s priority) regionsMax ∧
      if region.keeps address then region.permits access = true
      else grantsBelow s.mpu.regions address access (replacedSlot s priority) = true) ∨
    ¬Unshadowed s.mpu.regions address (replacedSlot s priority) regionsMax ∧
      s.mpu.grants address access = true

/-- What a recovery needs. A region of pages grants every access, unless a
region above its slot denies it. Another region grants what its permissions
allow in the subregions that are not disabled. -/
def Helps (cfg : Config) (g : Geometry) (faultAddr : Word) (access : Access) (s : ArmMpu.State) :
    Prop :=
  match getActiveMaskForAddress g s.activeBox s.alloc faultAddr.toNat with
  | .ok _ =>
    Unshadowed s.mpu.regions faultAddr (replacedSlot s 100) regionsMax ∨
      s.mpu.grants faultAddr access = true
  | .error _ => ∀ region, vmpuFaultFindRegion cfg faultAddr s = some region →
    Passes s 3 (registers region) faultAddr access

/-! ## Regions -/

section Regions

variable {cfg : Config} {g : Geometry} {s : ArmMpu.State} {region : MpuRegion} {address : Word}
  {start size acl aclHwSpec : Word} {bits : ℕ}

/-- The permissions are not in the size field. -/
theorem vmpuMapAcl_sizeField {config : Word} (h : vmpuMapAcl acl = some config) :
    config.extractLsb' 1 5 = 0 := by
  unfold vmpuMapAcl at h
  dsimp only at h
  split_ifs at h <;> cases h <;> decide

theorem one_shiftLeft_toNat (hbits : bits < 32) : ((1 : Word) <<< bits).toNat = 2^bits := by
  rw [BitVec.toNat_shiftLeft, Nat.shiftLeft_eq]
  change 1*2^bits%2^32 = 2^bits
  rw [Nat.one_mul]
  exact Nat.mod_eq_of_lt (Nat.pow_lt_pow_right (by decide) hbits)

/-- The attributes of a region. -/
def attributes (config : Word) (bits : ℕ) (aclHwSpec : Word) : Word :=
  config ||| rasrEnable ||| (BitVec.ofNat 32 (bits-1) <<< 1) ||| ((aclHwSpec <<< 8) &&& 0xFF00)

/-- A field outside of a mask is zero. -/
theorem field_eq_zero {value mask : Word} {first len : ℕ} (h : mask.extractLsb' first len = 0) :
    (value &&& mask).extractLsb' first len = 0 := by
  rw [BitVec.extractLsb'_and, h]
  exact BitVec.and_zero

/-- The size field. -/
theorem attributes_bytes {config : Word} (h : vmpuMapAcl acl = some config) (hfive : 5 ≤ bits)
    (hbits : bits < 32) (region aclHwSpec : Word) :
    Region.bytes ⟨region, attributes config bits aclHwSpec⟩ = 2^bits := by
  have hflags := vmpuMapAcl_sizeField h
  have hspec : ((aclHwSpec <<< 8) &&& 0xFF00).extractLsb' 1 5 = 0 := field_eq_zero (by decide)
  have hfield : (attributes config bits aclHwSpec).extractLsb' 1 5 = BitVec.ofNat 5 (bits-1) := by
    simp only [attributes, BitVec.extractLsb'_or, hflags, hspec]
    interval_cases bits <;> decide
  simp only [Region.bytes, hfield, BitVec.toNat_ofNat]
  rw [Nat.mod_eq_of_lt (by omega), Nat.sub_add_cancel (by omega)]

/-- The low bits of the multiples of a power of two are clear. -/
theorem and_lowBits_eq_zero_iff (hbits : bits < 32) :
    start &&& ((1 : Word) <<< bits-1) = 0 ↔ 2^bits ∣ start.toNat := by
  have hmask : ((1 : Word) <<< bits-1).toNat = 2^bits-1 := by
    have hone := one_shiftLeft_toNat hbits
    have hpos : 0 < 2^bits := Nat.two_pow_pos bits
    rw [BitVec.toNat_sub_of_le (BitVec.le_def.mpr (by rw [hone]; exact hpos)), hone]
    rfl
  rw [← BitVec.toNat_inj, BitVec.toNat_and, hmask, Nat.and_two_pow_sub_one_eq_mod]
  exact (Nat.dvd_iff_mod_eq_zero).symm

/-- What a translation that does not halt gives. -/
theorem vmpuRegionTranslateAcl_spec
    (h : vmpuRegionTranslateAcl start size acl aclHwSpec = some region) :
    ∃ bits config, roundedBits size acl = some bits ∧ vmpuMapAcl acl = some config ∧
      2^bits ∣ start.toNat ∧
      region = ⟨start, start+(1 : Word) <<< bits, attributes config bits aclHwSpec, acl⟩ := by
  obtain ⟨bits, hbits, h⟩ := Option.bind_eq_some_iff.mp h
  dsimp only at h
  split_ifs at h with haligned
  obtain ⟨config, hconfig, rfl⟩ := Option.map_eq_some_iff.mp h
  exact ⟨bits, config, hbits, hconfig,
    (and_lowBits_eq_zero_iff (roundedBits_range hbits).2).mp (not_not.mp haligned), rfl⟩

/-- Size and alignment of a translated region. -/
theorem translated_registers (h : Translated region) :
    ∃ bits, 5 ≤ bits ∧ bits < 32 ∧ (registers region).bytes = 2^bits ∧
      2^bits ∣ region.start.toNat ∧ region.ends = region.start+(1 : Word) <<< bits ∧
      (registers region).enabled = true := by
  obtain ⟨start, size, acl, aclHwSpec, h⟩ := h
  obtain ⟨bits, config, hbits, hconfig, hdvd, rfl⟩ := vmpuRegionTranslateAcl_spec h
  obtain ⟨hlow, hhigh⟩ := roundedBits_range hbits
  refine ⟨bits, hlow, hhigh, attributes_bytes hconfig hlow hhigh _ _, hdvd, rfl, ?_⟩
  simp [registers, Region.enabled, attributes, rasrEnable]

/-- A region that is found covers the address. -/
theorem found_covers (htranslated : Translated region) (hlow : region.start ≤ address)
    (hhigh : address < region.ends) :
    (registers region).enabled = true ∧ (registers region).covers address = true := by
  obtain ⟨bits, hfive, hbits, hbytes, hdvd, hends, henabled⟩ := translated_registers htranslated
  refine ⟨henabled, (covers_iff (hbytes ▸ hdvd) (hbytes ▸ Nat.two_pow_pos _)).mpr ⟨hlow, ?_⟩⟩
  have hone := one_shiftLeft_toNat hbits
  have hto : address.toNat < region.ends.toNat := hhigh
  rw [hends, BitVec.toNat_add, hone] at hto
  rw [hbytes]
  exact lt_of_lt_of_le hto (Nat.mod_le _ _)

theorem found_spec (h : vmpuFaultFindRegion cfg address s = some region) :
    Translated region ∧ (registers region).enabled = true ∧
      (registers region).covers address = true := by
  have hfind : ∃ box, vmpuRegionFindForAddress cfg box address = some region := by
    unfold vmpuFaultFindRegion at h
    split at h
    · rcases Option.or_eq_some_iff.mp h with hown | ⟨-, hpublic⟩
      · exact ⟨_, hown⟩
      · exact ⟨_, hpublic⟩
    · exact ⟨_, h⟩
  obtain ⟨box, hbox⟩ := hfind
  have hmem := translated_of_mem (List.mem_of_find?_eq_some hbox)
  have hinside := List.find?_some hbox
  rw [Bool.and_eq_true, decide_eq_true_eq, decide_eq_true_eq] at hinside
  exact ⟨hmem, found_covers hmem hinside.1 hinside.2⟩

end Regions

/-! ## Recoveries -/

section Recoveries

variable {cfg : Config} {g : Geometry} {s t : ArmMpu.State} {region : MpuRegion} {faultAddr : Word}
  {access : Access} {k : ℕ}

/-- What a push does to an access in the region. -/
theorem push_grants_iff (hslot : regionsStatic ≤ s.mpuSlot ∧ s.mpuSlot < regionsMax)
    (hregion : Translated region) (henabled : (registers region).enabled = true)
    (hcovers : (registers region).covers faultAddr = true) (priority : ℕ) :
    (vmpuMpuPush region priority s).mpu.grants faultAddr access = true ↔
      Passes s priority (registers region) faultAddr access := by
  obtain ⟨hrange, hregions, -⟩ := push_spec hslot hregion priority
  have hnumber : (vmpuMpuPush region priority s).mpuSlot = replacedSlot s priority := by
    rw [vmpuMpuPush_eq]
    rfl
  rw [hnumber] at hrange hregions
  change (vmpuMpuPush region priority s).mpu.regions =
    Function.update s.mpu.regions (replacedSlot s priority) (registers region) at hregions
  have hhits : (registers region).hits faultAddr = (registers region).keeps faultAddr := by
    rw [Region.hits, henabled, hcovers]
    rfl
  rw [Mpu.grants, hregions, Passes]
  by_cases hshadow : Unshadowed s.mpu.regions faultAddr (replacedSlot s priority) regionsMax
  · rw [grantsBelow_unshadowed hrange.2 hshadow, hhits]
    by_cases hkeeps : (registers region).keeps faultAddr = true
    · simp only [if_pos hkeeps, hshadow, not_true_eq_false, true_and, false_and, or_false]
    · simp only [if_neg hkeeps, hshadow, not_true_eq_false, true_and, false_and, or_false]
  · rw [grantsBelow_shadowed hshadow]
    simp only [hshadow, not_false_eq_true, true_and, false_and, false_or, Mpu.grants]

/-- The page of an address that has a mask. -/
theorem getActiveMask_page (hg : HeapLayout g) {alloc : PageAllocator.State} {box : BoxId}
    {mask : BitVec 8} {index page : ℕ}
    (h : getActiveMaskForAddress g box alloc faultAddr.toNat = .ok (mask, index, page)) :
    InOwnPage g alloc box faultAddr := by
  obtain ⟨hlt, hpage, hown⟩ := activePage_ok hg (getActiveMask_ok h).1
  exact ⟨page, ⟨hlt, (hg.getPageFromAddress_iff hlt).mp hpage⟩, hown⟩

/-- The region that is loaded for a page of the active box has the address in
an enabled subregion. -/
theorem pages_hit (hg : HeapLayout g) (hsize : g.pageSize = 2^k) (hlow : 10 ≤ k) (hk : k ≤ 28)
    (hround : 2^(k+3) ∣ g.headEndRounded) {map : PageMap} {page : ℕ} (hin : InPage g page faultAddr)
    (hown : mapGet g map page = true) :
    Region.hits ⟨groupStart g (position g page/8),
      pageAttributes k ((map 0 >>> (position g page/8*8)).setWidth 8)⟩ faultAddr = true := by
  have hlt := position_lt hg hin.1
  rw [Region.hits, Bool.and_eq_true, Bool.and_eq_true]
  refine ⟨⟨by simp [Region.enabled, pageAttributes], group_covers hg hsize hlow hk hround hin⟩, ?_⟩
  rw [Region.keeps, subregionOf_group hg hsize hlow hk hround hin, Bool.or_eq_true]
  right
  rw [subregionEnabled_pageAttributes hlow hk _ _ (Nat.mod_lt _ (by decide)),
    mask_getLsbD _ (by omega) (Nat.mod_lt _ (by decide))]
  have hsplit : position g page/8*8+position g page%8 = position g page := by omega
  rw [hsplit]
  exact hown

/-- It grants every access. -/
theorem pages_permit (hlow : 10 ≤ k) (hk : k ≤ 28) (start : Word) (mask : BitVec 8) :
    Region.permits ⟨start, pageAttributes k mask⟩ access = true := by
  have hfield : (pageAttributes k mask).extractLsb' 24 3 = 3 := by
    have hdisabled : (((~~~(mask.setWidth 32)) <<< 8 : Word) &&& 0xFF00).extractLsb' 24 3 = 0 := by
      ext i hi
      interval_cases i <;> simp
    simp only [pageAttributes, BitVec.extractLsb'_or, hdisabled]
    interval_cases k <;> decide
  cases access <;> simp only [Region.permits, hfield] <;> decide

/-- After a recovery an access is granted exactly under this condition. -/
theorem recovery_grants_iff (hg : HeapLayout g) (hsize : g.pageSize = 2^k) (hlow : 10 ≤ k)
    (hhigh : k ≤ 29) (hround : k ≤ 28 → 2^(k+3) ∣ g.headEndRounded)
    (hslot : regionsStatic ≤ s.mpuSlot ∧ s.mpuSlot < regionsMax) {faultStatus : Word}
    (hs : vmpuFaultRecoveryMpu cfg g faultAddr faultStatus s = some (true, t)) :
    t.mpu.grants faultAddr access = true ↔ Helps cfg g faultAddr access s := by
  unfold vmpuFaultRecoveryMpu at hs
  split at hs
  · cases hs
  unfold Helps
  split at hs
  · rename_i mask index page hmask
    rw [hmask]
    dsimp only
    obtain ⟨page', hin, hown, hmask'⟩ := getActiveMaskForAddress_page hg (getActiveMask_page hg hmask)
    obtain ⟨rfl, rfl, rfl⟩ : mask = _ ∧ index = _ ∧ page = _ := by
      have heq := Except.ok.inj (hmask.symm.trans hmask')
      simpa only [Prod.mk.injEq] using heq
    obtain ⟨⟨more, u⟩, hpush, heq⟩ := Option.map_eq_some_iff.mp hs
    obtain ⟨-, rfl⟩ := Prod.mk.inj heq
    obtain ⟨region, hregion, hu⟩ := Option.map_eq_some_iff.mp hpush
    obtain ⟨-, rfl⟩ := Prod.mk.inj hu
    have htranslated : Translated region := ⟨_, _, _, _, hregion⟩
    rw [hsize] at hregion
    obtain ⟨hk, hstart, hconfig⟩ := translate_pages hlow hhigh hregion
    have hlast : pageMapCount*4-1 = 3 := rfl
    have hregisters : registers region = ⟨groupStart g (position g page/8), pageAttributes k
        ((s.alloc.ownerMap s.activeBox 0 >>> (position g page/8*8)).setWidth 8)⟩ := by
      rw [registers, hstart, hconfig, hlast, groupStart, hsize]
    obtain ⟨henabled, hcovers, hkeeps⟩ : (registers region).enabled = true ∧
        (registers region).covers faultAddr = true ∧ (registers region).keeps faultAddr = true := by
      have hhit := pages_hit hg hsize hlow hk (hround hk) hin hown
      rw [← hregisters, Region.hits, Bool.and_eq_true, Bool.and_eq_true] at hhit
      exact ⟨hhit.1.1, hhit.1.2, hhit.2⟩
    have hpermit : (registers region).permits access = true := by
      rw [hregisters]
      exact pages_permit hlow hk _ _
    set u : ArmMpu.State := {s with alloc := pageAllocatorRegisterFault g page s.alloc} with hu
    have hiff := @push_grants_iff u region faultAddr access hslot htranslated henabled hcovers 100
    rw [hiff, Passes, if_pos hkeeps, and_iff_left hpermit, or_and_left,
      and_iff_right (Classical.em _)]
    exact Iff.rfl
  · rename_i error herror
    rw [herror]
    dsimp only
    split at hs
    · cases hs
    · rename_i region hregion
      obtain ⟨-, rfl⟩ := Prod.mk.inj (Option.some.inj hs)
      obtain ⟨htranslated, henabled, hcovers⟩ := found_spec hregion
      rw [push_grants_iff hslot htranslated henabled hcovers]
      constructor
      · intro h region' hregion'
        obtain rfl := Option.some.inj (hregion.symm.trans hregion')
        exact h
      · exact fun h => h region hregion

end Recoveries

/-! ## Every run -/

section Runs

variable {cfg : Config} {g : Geometry} {s t : ArmMpu.State} {faultAddr faultStatus : Word}
  {access : Access}

/-- In every run the heap ends at a multiple of eight pages after rounding. -/
theorem headEndRounded_reachable
    (h : Reachable (Initial cfg g) (step cfg g) (fun _ _ => True) s) {k : ℕ}
    (hsize : g.pageSize = 2^k) (hk : k ≤ 28) : 2^(k+3) ∣ g.headEndRounded :=
  h.invariant (fun _ => 2^(k+3) ∣ g.headEndRounded)
    (fun s hi => by
      have hbooted : Booted g ⟨s.alloc, fun _ => none⟩ := hi.2.2.2.2.2
      exact hbooted.dvd_headEndRounded hsize hk)
    fun _ _ _ hi _ _ => hi

/-- In every state that a run reaches, a recovery that reports success leaves
the access granted exactly if what it loads helps. -/
theorem recovery_grants (h : Reachable (Initial cfg g) (step cfg g) (fun _ _ => True) s)
    (hs : vmpuFaultRecoveryMpu cfg g faultAddr faultStatus s = some (true, t)) :
    t.mpu.grants faultAddr access = true ↔ Helps cfg g faultAddr access s := by
  obtain ⟨hg, hinv⟩ := inv_reachable h
  obtain ⟨k, hlow, hhigh, hsize⟩ := hg.pageSize_eq
  exact recovery_grants_iff hg hsize hlow hhigh (headEndRounded_reachable h hsize)
    ⟨hinv.slot_low, hinv.slot_high⟩ hs

/-- Box 1 has taken a page. The first access to it is recovered from. -/
theorem recovery_grants_fourPages :
    ∃ s t, exec (step twoBoxes fourPages) [.switch 1, .malloc (tableOf [0])] bootedState = some s ∧
      vmpuFaultRecoveryMpu twoBoxes fourPages 0x20001010 cfsrDataAccess s = some (true, t) ∧
      t.mpu.grants 0x20001010 .write = true := by
  have hrun : ((exec (step twoBoxes fourPages) [.switch 1, .malloc (tableOf [0])] bootedState).bind
      fun s => (vmpuFaultRecoveryMpu twoBoxes fourPages 0x20001010 cfsrDataAccess s).map fun out =>
        (out.1, (getActiveMaskForAddress fourPages s.activeBox s.alloc 0x20001010).toBool,
          (List.range regionsMax).all fun i => !(s.mpu.regions i).hits 0x20001010)) =
      some (true, true, true) := by decide +kernel
  obtain ⟨s, hs, hfault⟩ := Option.bind_eq_some_iff.mp hrun
  obtain ⟨⟨recovered, t⟩, ht, hfacts⟩ := Option.map_eq_some_iff.mp hfault
  simp only [Prod.mk.injEq] at hfacts
  obtain ⟨rfl, hmask, hmiss⟩ := hfacts
  have hreach := exec_reachable (Reachable.start initial_bootedState) hs
  refine ⟨s, t, hs, ht, (recovery_grants hreach ht).mpr ?_⟩
  unfold Helps
  change match getActiveMaskForAddress fourPages s.activeBox s.alloc 0x20001010 with
    | .ok _ => _ | .error _ => _
  split
  · left
    intro i hi _
    simpa using List.all_eq_true.mp hmiss i (List.mem_range.mpr hi)
  · rename_i herror
    rw [herror] at hmask
    cases hmask

/-- Two boxes: box 0 with a peripheral and box 1 with a stack. A disabled
subregion separates the stack from the data below it. -/
def guardedBoxes : Config where
  boxCount := 2
  regions := fun box =>
    if box = 0 then [(someRegion 0x40000000 0x1000).get somePeripheral_isSome]
    else if box = 1 then
      [(vmpuRegionTranslateAcl 0x20008000 0x400
        (0x40 ||| taclUread ||| taclUwrite ||| taclSread ||| taclSwrite) (1 <<< 1)).get (by decide)]
    else []
  static := fun _ => ⟨0, 0⟩
  translated := by
    intro box region hregion
    split at hregion
    · obtain rfl := List.mem_singleton.mp hregion
      exact ⟨_, _, _, _, (Option.some_get (by decide)).symm⟩
    · split at hregion
      · obtain rfl := List.mem_singleton.mp hregion
        exact ⟨_, _, _, _, (Option.some_get (by decide)).symm⟩
      · exact absurd hregion List.not_mem_nil

theorem initial_guardedBoxes : Initial guardedBoxes fourPages bootedState :=
  initial_of_noStatic fun _ => rfl

/-- The stack of box 1 overflows into that subregion. The recovery reports
success, the access is still denied, and so it goes on. -/
theorem recovery_grants_fails :
    ∃ s t u, Reachable (Initial guardedBoxes fourPages) (step guardedBoxes fourPages)
        (fun _ _ => True) s ∧
      vmpuFaultRecoveryMpu guardedBoxes fourPages 0x20008080 cfsrDataAccess s = some (true, t) ∧
      t.mpu.grants 0x20008080 .write = false ∧
      vmpuFaultRecoveryMpu guardedBoxes fourPages 0x20008080 cfsrDataAccess t = some (true, u) ∧
      u.mpu.grants 0x20008080 .write = false := by
  have hrun : ((exec (step guardedBoxes fourPages) [.switch 1] bootedState).bind fun s =>
      (vmpuFaultRecoveryMpu guardedBoxes fourPages 0x20008080 cfsrDataAccess s).bind fun t =>
        (vmpuFaultRecoveryMpu guardedBoxes fourPages 0x20008080 cfsrDataAccess t.2).map fun u =>
          (t.1, t.2.mpu.grants 0x20008080 .write, u.1, u.2.mpu.grants 0x20008080 .write)) =
      some (true, false, true, false) := by decide +kernel
  obtain ⟨s, hs, hfault⟩ := Option.bind_eq_some_iff.mp hrun
  obtain ⟨⟨recovered, t⟩, ht, hagain⟩ := Option.bind_eq_some_iff.mp hfault
  obtain ⟨⟨again, u⟩, hu, hfacts⟩ := Option.map_eq_some_iff.mp hagain
  simp only [Prod.mk.injEq] at hfacts
  obtain ⟨rfl, hdenied, rfl, hstill⟩ := hfacts
  exact ⟨s, t, u, exec_reachable (Reachable.start initial_guardedBoxes) hs, ht, hdenied, hu, hstill⟩

end Runs

end Uvisor.FaultRecovery
