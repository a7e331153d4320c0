import Uvisor.AipsExclusive
import Uvisor.BandedLayout
import Uvisor.KinetisAcls
import Uvisor.KinetisIsolation
import Uvisor.Virq

/-!
# Boot on Kinetis

Every region is compared with all that have been recorded before it, so an item
of an access control list cannot overlap the stack of a box or its BSS sections.
A descriptor grants another 32 bytes after its region. The bands between the
boxes are larger, so where the memory has room for all boxes only an item that
ends exactly where a region starts can open some of it to another box.
-/

namespace Uvisor.KinetisBoot

open PageAllocator (Geometry BoxId layout)
open KinetisMpu KinetisDescriptors KinetisIsolation BoxIsolation Execution
open ArmMpu (Word MpuRegion)
open AlignedRegions BoxEnumeration AclSlices KinetisAcls
open BandedLayout hiding boxRegions
open BoxMemory (Table)
open BandedMemory (RegionTable kinetisTable bandedDriver taclPeripheral stackBandSize)
open BoxPlacement (isIrq)

/-! ## The unit -/

/-- The linker's symbols for the parts of memory that every box can access. -/
structure PublicSymbols where
  /-- FLASH_ORIGIN. -/
  flashOrigin : Word
  /-- secure_end. -/
  secureEnd : Word
  /-- page_end. -/
  pageEnd : Word
  /-- sram_end. -/
  sramEnd : Word

/-- UVISOR_TACL_BACKGROUND. -/
def taclBackground : Word := 0x7D0

/-- The DMA bus masters may read. -/
def dmaRead : Word := (1 <<< 20) ||| (1 <<< 14)

/-- The DMA bus masters may write. -/
def dmaWrite : Word := (1 <<< 19) ||| (1 <<< 13)

/-- Access rights for flash. -/
def taclFlash : Word :=
  ArmMpu.taclSread ||| ArmMpu.taclSexecute ||| ArmMpu.taclUread ||| ArmMpu.taclUexecute ||| taclUser

/-- Access rights for public memory. -/
def taclPublic : Word :=
  ArmMpu.taclSread ||| ArmMpu.taclSwrite ||| ArmMpu.taclUread ||| ArmMpu.taclUwrite |||
    ArmMpu.taclUexecute ||| taclUser

/-- vmpu_mpu_init, with the value of SCB->SHCSR. -/
def vmpuMpuInit (shcsr : Word) : Word := shcsr ||| 0x70000

/-- vmpu_mem_init. What is on the stack during a call is given. -/
def vmpuMemInit (sym : PublicSymbols) (uninitialised : ℕ → MpuRegion) (s : KinetisMpu.State) :
    Option KinetisMpu.State :=
  (vmpuMpuSetStaticAcl 1 sym.flashOrigin (sym.secureEnd-sym.flashOrigin) taclFlash dmaRead
    (uninitialised 1) s).bind fun (_, s) =>
  (vmpuMpuSetStaticAcl 2 sym.pageEnd (sym.sramEnd-sym.pageEnd) taclPublic (dmaRead ||| dmaWrite)
    (uninitialised 2) s).map Prod.snd

/-- vmpu_mpu_lock. RGDAAC[0] is another address of the access rights of the
background descriptor. -/
def vmpuMpuLock (s : KinetisMpu.State) : KinetisMpu.State :=
  {s with words := Function.update s.words 0 {s.words 0 with permissions := taclBackground}}

/-- vmpu_arch_init. -/
def vmpuArchInit (sym : PublicSymbols) (uninitialised : ℕ → MpuRegion)
    (s : Word × KinetisMpu.State) : Option (Word × KinetisMpu.State) :=
  let (shcsr, s) := s
  let shcsr := vmpuMpuInit shcsr
  (vmpuMemInit sym uninitialised s).map fun s => (shcsr, vmpuMpuLock s)

/-- The symbols are those of full descriptors. -/
structure PublicSymbols.Aligned (sym : PublicSymbols) : Prop where
  /-- Start of flash. -/
  flashOrigin : sym.flashOrigin.toNat%32 = 0
  /-- End of flash. -/
  secureEnd : sym.secureEnd.toNat%32 = 0
  /-- End of the page heap. -/
  pageEnd : sym.pageEnd.toNat%32 = 0
  /-- End of memory. -/
  sramEnd : sym.sramEnd.toNat%32 = 0

section Unit

variable {sym : PublicSymbols} {uninitialised : ℕ → MpuRegion} {shcsr shcsr' : Word}
  {s t : KinetisMpu.State} {address : Word}

/-- The descriptor of the memory from one symbol to another. -/
theorem translate_between {first last acl aclHwSpec : Word} (hfirst : first.toNat%32 = 0)
    (hlast : last.toNat%32 = 0) :
    vmpuRegionTranslateAcl first (last-first) acl aclHwSpec =
      some (⟨first, last, vmpuMapAcl acl aclHwSpec, acl⟩, last-first) := by
  have hstart : first%32 = 0 := (SauConfiguration.mod_eq_zero_iff first).mpr hfirst
  have hsize : (last-first)%32 = 0 := by
    rw [SauConfiguration.mod_eq_zero_iff, BitVec.toNat_sub]
    omega
  rw [vmpuRegionTranslateAcl, roundedSize, if_pos hsize, Option.bind_some,
    if_neg (not_not.mpr hstart), BitVec.add_comm, BitVec.sub_add_cancel]

/-- The static descriptors: the background, flash, and public memory. -/
theorem vmpuArchInit_words (haligned : sym.Aligned)
    (h : vmpuArchInit sym uninitialised (shcsr, s) = some (shcsr', t)) :
    (t.words 0).permissions = taclBackground ∧
      ((t.words 1).startAddr, (t.words 1).endAddr) = (sym.flashOrigin, sym.secureEnd) ∧
      ((t.words 2).startAddr, (t.words 2).endAddr) = (sym.pageEnd, sym.sramEnd) := by
  have hinit : (vmpuMemInit sym uninitialised s).map (fun s => (vmpuMpuInit shcsr, vmpuMpuLock s)) =
      some (shcsr', t) := h
  obtain ⟨u, hmem, hlock⟩ := Option.map_eq_some_iff.mp hinit
  obtain ⟨-, rfl⟩ := Prod.mk.inj hlock
  obtain ⟨⟨rounded, first⟩, hflash, hmem⟩ := Option.bind_eq_some_iff.mp hmem
  obtain ⟨⟨rounded', last⟩, hpublic, rfl⟩ := Option.map_eq_some_iff.mp hmem
  rw [vmpuMpuSetStaticAcl, if_neg (by decide),
    translate_between haligned.flashOrigin haligned.secureEnd] at hflash
  rw [vmpuMpuSetStaticAcl, if_neg (by decide),
    translate_between haligned.pageEnd haligned.sramEnd] at hpublic
  obtain ⟨-, rfl⟩ := Prod.mk.inj (Option.some.inj hflash)
  obtain ⟨-, rfl⟩ := Prod.mk.inj (Option.some.inj hpublic)
  refine ⟨?_, ?_, ?_⟩
  · simp [vmpuMpuLock]
  · simp [vmpuMpuLock, programSlot, descriptor, Function.update_of_ne]
  · simp [vmpuMpuLock, programSlot, descriptor, Function.update_of_ne]

/-- What the static descriptors grant: flash and public memory, each with the 32
bytes after it. -/
theorem static_within (haligned : sym.Aligned)
    (h : vmpuArchInit sym uninitialised (shcsr, s) = some (shcsr', t)) {i : ℕ}
    (hi : i < regionsStatic) (hgrants : Grants (t.words i) address) :
    address.toNat < sym.secureEnd.toNat+32 ∨ sym.pageEnd.toNat ≤ address.toNat := by
  obtain ⟨hbackground, hflash, hpublic⟩ := vmpuArchInit_words haligned h
  obtain ⟨-, hrights, hlow, hhigh⟩ := hgrants
  rw [BitVec.le_def] at hlow hhigh
  obtain rfl | rfl | rfl : i = 0 ∨ i = 1 ∨ i = 2 := by
    have hthree : regionsStatic = 3 := rfl
    omega
  · -- the background has no rights for users
    rw [hbackground] at hrights
    exact absurd (by decide) hrights
  · obtain ⟨-, hends⟩ := Prod.mk.inj hflash
    rw [hends, or_mask_toNat haligned.secureEnd] at hhigh
    exact .inl (by omega)
  · obtain ⟨hstart, -⟩ := Prod.mk.inj hpublic
    rw [hstart, and_mask_toNat haligned.pageEnd] at hlow
    exact .inr hlow

end Unit

/-! ## The boxes -/

/-- What the bridges do for an item: vmpu_aips_add has to return 1. -/
def aipsAdd (fuel boxCount boxId : ℕ) (start size acl : Word) (maps : AipsAdd.Bitmaps) :
    Option AipsAdd.Bitmaps :=
  AipsExclusive.step fuel boxCount maps ⟨boxId, start, size, acl⟩

/-- The regions, the bridges, and the virtual interrupts. -/
abbrev Tables : Type := (Table × AipsAdd.Bitmaps) × Virq.State

/-- The table of regions, beside the virtual interrupts. -/
def bootTable (fuel boxCount : ℕ) : RegionTable Tables where
  regionAddStaticAcl := fun boxId start size acl m =>
    ((kinetisTable (aipsAdd fuel boxCount) boxCount).regionAddStaticAcl boxId start size acl
      m.1).map fun s => (s, m.2)
  lastRegion := fun m boxId =>
    (kinetisTable (aipsAdd fuel boxCount) boxCount).lastRegion m.1 boxId

/-- What an item of an access control list adds for a box. -/
def bootAddAcl (fuel boxCount : ℕ) (sys : Virq.Platform) (boxId : ℕ) (item : AclItem)
    (m : Tables) : Option Tables :=
  if isIrq item then (Virq.virqAclAdd sys boxId item.param1 m.2).map fun virq => (m.1, virq)
  else
    (bootTable fuel boxCount).regionAddStaticAcl boxId (BitVec.ofNat 32 item.param1)
      (BitVec.ofNat 32 item.param2) (BitVec.ofNat 32 item.acl ||| taclUser) m

/-- The driver on Kinetis. -/
def bootDriver (fuel : ℕ) (asserts : Bool) (u : UvisorConfig) (sys : Virq.Platform) :
    Driver (BandedMemory.State Tables) :=
  bandedDriver (bootTable fuel (boxCount u)) asserts u (bootAddAcl fuel (boxCount u) sys)

/-- A region with the given values that has been translated. -/
def Translated (region : MpuRegion) (start size acl : Word) : Prop :=
  ∃ rounded, vmpuRegionTranslateAcl start size (memoryAcl acl) 0 = some (region, rounded)

/-- A region that an item of an access control list asks for. -/
def ItemRegion (item : AclItem) (region : MpuRegion) : Prop :=
  isIrq item = false ∧
    Translated region (BitVec.ofNat 32 item.param1) (BitVec.ofNat 32 item.param2)
      (BitVec.ofNat 32 item.acl ||| taclUser)

/-- The table while the regions of a box are added, each compared with all that
have been recorded. -/
structure Comparing (boxId : ℕ) (t : Table) : Prop extends Filling boxId t where
  /-- No two entries overlap. -/
  entries : Entries t
  /-- No entry is in two slices. -/
  slices : ∀ b b', b ≠ b' → Disjoint (slice t b) (slice t b')

section Boxes

variable {fuel count boxId : ℕ} {start size acl : Word} {m m' : Tables} {t : Table}

theorem Comparing.next (h : Comparing boxId t) : Comparing (boxId+1) t :=
  ⟨h.toFilling.next, h.entries, h.slices⟩

theorem comparing_empty : Comparing 0 emptyTable :=
  ⟨NoRegions.filling fun _ => rfl, entries_empty, owned_empty.apart⟩

/-- A region is added behind those of the box, or the call is for no memory. -/
theorem comparing_add (h : Comparing boxId m.1.1)
    (hs : (bootTable fuel count).regionAddStaticAcl boxId start size acl m = some m') :
    Comparing boxId m'.1.1 ∧
      Appended boxId (fun region => Translated region start size acl ∧
        region.start = start ∧ region.ends = start+size) m.1.1 m'.1.1 ∧
      (acl &&& taclPeripheral = 0 → size ≠ 0 →
        memoryAcl acl &&& (taclUacl ||| taclSacl) ≠ 0 →
        ∃ region ∈ boxRegions m'.1.1 boxId, region.start = start ∧ region.ends = start+size) := by
  obtain ⟨s, hadd, rfl⟩ := Option.map_eq_some_iff.mp hs
  have hcall : KinetisAcls.step (aipsAdd fuel count) count m.1 ⟨boxId, start, size, acl, 0⟩ =
      some s := hadd
  rcases step_translated hcall with ⟨hskip, heq⟩ |
    ⟨-, region, rounded, htranslate, haccepted, heq⟩
  · dsimp only
    rw [heq]
    exact ⟨h, .refl boxId _ _, fun hmemory hsize haccess =>
      absurd ⟨hmemory, hsize, haccess⟩ hskip⟩
  · obtain ⟨hfilling, happended⟩ := h.toFilling.store region
    have hentries : Entries (m.1.1.store boxId region) := h.entries.store haccepted
    have hslices : Sliced (m.1.1.store boxId region) :=
      Sliced.store ⟨h.bounded, h.slices⟩ h.last region
    dsimp only
    rw [heq]
    refine ⟨⟨hfilling, hentries, hslices.apart⟩, happended.mono fun other hother => ?_,
      fun _ _ _ => ⟨region, ?_, haccepted.start, haccepted.ends⟩⟩
    · rw [hother]
      exact ⟨⟨rounded, htranslate⟩, haccepted.start, haccepted.ends⟩
    · rw [boxRegions_store_self]
      exact List.mem_append_right _ List.mem_cons_self

end Boxes

section Registering

variable {fuel : ℕ} {asserts : Bool} {u : UvisorConfig} {sys : Virq.Platform} {psp n index : ℕ}
  {s t : BandedMemory.State Tables} {reg : Registration}

/-- An item of an access control list adds what it asks for. -/
theorem comparing_addAcl {item : AclItem} (h : Comparing n s.table.1.1)
    (hs : (bootDriver fuel asserts u sys).addAcl s n item = some t) :
    Comparing n t.table.1.1 ∧ Appended n (ItemRegion item) s.table.1.1 t.table.1.1 := by
  obtain ⟨m, hadd, rfl⟩ := Option.map_eq_some_iff.mp hs
  unfold bootAddAcl at hadd
  split_ifs at hadd with hirq
  · obtain ⟨virq, -, rfl⟩ := Option.map_eq_some_iff.mp hadd
    exact ⟨h, .refl n _ _⟩
  · obtain ⟨hcomparing, happended, -⟩ := comparing_add h hadd
    exact ⟨hcomparing, happended.mono fun region hregion => ⟨by simpa using hirq, hregion.1⟩⟩

theorem comparing_addAclsFrom {count region : ℕ} {acls : List AclItem}
    (h : Comparing n s.table.1.1)
    (hs : addAclsFrom (bootDriver fuel asserts u sys) u n count region s = some (acls, t)) :
    Comparing n t.table.1.1 ∧
      Appended n (fun region => ∃ item ∈ acls, ItemRegion item region)
        s.table.1.1 t.table.1.1 := by
  induction count generalizing region acls s with
  | zero =>
    obtain ⟨-, rfl⟩ := Prod.mk.inj (Option.some.inj hs)
    exact ⟨h, .refl n _ _⟩
  | succ count ih =>
    simp only [addAclsFrom] at hs
    split at hs
    · cases hs
    split at hs
    · cases hs
    rename_i s₁ hitem
    split at hs
    · cases hs
    rename_i rest s₂ hrest
    obtain ⟨rfl, rfl⟩ := Prod.mk.inj (Option.some.inj hs)
    obtain ⟨hcomparing, happended⟩ := comparing_addAcl h hitem
    obtain ⟨hcomparing', happended'⟩ := ih hcomparing hrest
    refine ⟨hcomparing', (happended.mono fun added hadded =>
      ⟨_, List.mem_cons_self, hadded⟩).trans (happended'.mono fun added hadded => ?_)⟩
    obtain ⟨item, hmem, hregion⟩ := hadded
    exact ⟨item, List.mem_cons_of_mem _ hmem, hregion⟩

theorem comparing_peripherals {config : BoxConfig} {acls : List AclItem}
    (h : Comparing n s.table.1.1)
    (hs : configureBoxPeripherals (bootDriver fuel asserts u sys) u s n config = some (acls, t)) :
    Comparing n t.table.1.1 ∧
      Appended n (fun region => ∃ item ∈ acls, ItemRegion item region)
        s.table.1.1 t.table.1.1 := by
  unfold configureBoxPeripherals at hs
  split at hs
  · obtain ⟨-, rfl⟩ := Prod.mk.inj (Option.some.inj hs)
    exact ⟨h, .refl n _ _⟩
  · exact comparing_addAclsFrom h hs

/-- A region that a registered box has: its stack, its BSS sections, or an item
of its access control list. -/
def Asked (u : UvisorConfig) (boxId : ℕ) (reg : Registration) (region : MpuRegion) : Prop :=
  (boxId ≠ 0 ∧ (∃ span ∈ BandedLayout.boxRegions u reg, SpanRegion span region) ∧
    ∃ start size acl, Translated region start size acl) ∨
    ∃ item ∈ reg.acls, ItemRegion item region

/-- The regions of a registered box. -/
structure RegionsOf (u : UvisorConfig) (boxId : ℕ) (reg : Registration)
    (regions : List MpuRegion) : Prop where
  /-- Each of them has been asked for. -/
  asked : ∀ region ∈ regions, Asked u boxId reg region
  /-- The stack and the BSS sections are among them. -/
  spans : boxId ≠ 0 → ∀ span ∈ BandedLayout.boxRegions u reg, span.size ≠ 0 →
    ∃ region ∈ regions, SpanRegion span region

theorem spanRegion_of_eq {region : MpuRegion} {start size : Word}
    (h : region.start = start ∧ region.ends = start+size) :
    SpanRegion ⟨start.toNat, size.toNat⟩ region := by
  simp [SpanRegion, h.1, h.2]

/-- The stack of a secure box and its BSS sections are added in this order. -/
theorem registerBox_spans (hn : n ≠ 0)
    (hs : registerBox (bootDriver fuel asserts u sys) u psp s n index = some (reg, t)) :
    ∃ s₁ added start size bss bssSize,
      BandedLayout.boxRegions u reg =
        [⟨start.toNat, size.toNat⟩, ⟨bss.toNat, bssSize.toNat⟩] ∧
      (bootTable fuel (boxCount u)).regionAddStaticAcl n start size BoxMemory.tacldefStack
        s.table = some added ∧
      (bootTable fuel (boxCount u)).regionAddStaticAcl n bss bssSize ArmMpu.tacldefData added =
        some s₁.table ∧
      configureBoxPeripherals (bootDriver fuel asserts u sys) u s₁ n (configAt u index) =
        some (reg.acls, t) := by
  obtain ⟨s₁, hregistered⟩ := registerBox_registered hs
  obtain ⟨added, hstack, hbss, -, hstart, -⟩ := vmpuAclSram_adds (hregistered.aclSram hn)
  have hstackBytes : (regionRoundUp (BitVec.ofNat 32
      (BoxMemory.minStack (configAt u index).stackSize))).toNat = stackBytes u index%2^32 :=
    regionRoundUp_toNat _
  have hbssStart : (BitVec.ofNat 32 reg.bss).toNat = reg.bss := by
    rw [BitVec.toNat_ofNat]
    exact Nat.mod_eq_of_lt (hstart ▸ BitVec.isLt _)
  refine ⟨s₁, added, _, _, _, _, ?_, hstack, hbss, hregistered.peripherals⟩
  rw [BandedLayout.boxRegions, (registerBox_added hn hs).stackRegion_eq, bssRegion,
    hregistered.bssSize, hstackBytes, hbssStart]

/-- One pass of the loop adds for the box what it asks for. -/
theorem comparing_registerBox (h : Comparing n s.table.1.1)
    (hnone : boxRegions s.table.1.1 n = [])
    (hs : registerBox (bootDriver fuel asserts u sys) u psp s n index = some (reg, t)) :
    Comparing n t.table.1.1 ∧
      (∀ b, b ≠ n → boxRegions t.table.1.1 b = boxRegions s.table.1.1 b) ∧
      RegionsOf u n reg (boxRegions t.table.1.1 n) := by
  by_cases hn : n = 0
  · subst hn
    obtain ⟨s₁, hregistered⟩ := registerBox_registered hs
    obtain rfl := hregistered.public_eq
    obtain ⟨hcomparing, happended⟩ := comparing_peripherals h hregistered.peripherals
    obtain ⟨items, hitems, hasked⟩ := happended.regions
    refine ⟨hcomparing, happended.others, fun region hmem => ?_, fun hzero => absurd rfl hzero⟩
    rw [hitems, hnone] at hmem
    exact .inr (hasked region hmem)
  obtain ⟨s₁, added, start, size, bss, bssSize, hspans, hstack, hbss, hperipherals⟩ :=
    registerBox_spans hn hs
  obtain ⟨hcomparing₁, happended₁, hrecorded₁⟩ := comparing_add h hstack
  obtain ⟨hcomparing₂, happended₂, hrecorded₂⟩ := comparing_add hcomparing₁ hbss
  obtain ⟨hcomparing₃, happended₃⟩ := comparing_peripherals hcomparing₂ hperipherals
  obtain ⟨stackRegions, hstacks, hstackNew⟩ := happended₁.regions
  obtain ⟨bssRegions, hsections, hsectionNew⟩ := happended₂.regions
  obtain ⟨items, hitems, hitemNew⟩ := happended₃.regions
  refine ⟨hcomparing₃, fun b hb => ((happended₃.others b hb).trans
    (happended₂.others b hb)).trans (happended₁.others b hb), fun region hmem => ?_,
    fun _ span hspan hsize => ?_⟩
  · rw [hitems, hsections, hstacks, hnone, List.nil_append] at hmem
    have hown : ∀ start size acl, ⟨start.toNat, size.toNat⟩ ∈ BandedLayout.boxRegions u reg →
        Translated region start size acl ∧ region.start = start ∧ region.ends = start+size →
        Asked u n reg region := fun start size acl hspan hregion =>
      .inl ⟨hn, ⟨_, hspan, spanRegion_of_eq hregion.2⟩, start, size, acl, hregion.1⟩
    rcases List.mem_append.mp hmem with hmem | hmem
    · rcases List.mem_append.mp hmem with hmem | hmem
      · exact hown start size _ (by simp [hspans]) (hstackNew region hmem)
      · exact hown bss bssSize _ (by simp [hspans]) (hsectionNew region hmem)
    · exact .inr (hitemNew region hmem)
  · rw [hspans, List.mem_cons, List.mem_singleton] at hspan
    rw [hitems]
    rcases hspan with rfl | rfl
    · obtain ⟨region, hmem, hregion⟩ := hrecorded₁ (by decide)
        (fun hzero => hsize (by rw [hzero]; rfl)) (by decide)
      rw [hsections]
      exact ⟨region, List.mem_append_left _ (List.mem_append_left _ hmem),
        spanRegion_of_eq hregion⟩
    · obtain ⟨region, hmem, hregion⟩ := hrecorded₂ (by decide)
        (fun hzero => hsize (by rw [hzero]; rfl)) (by decide)
      exact ⟨region, List.mem_append_left _ hmem, spanRegion_of_eq hregion⟩

/-- The boxes before an identifier have the regions that they have asked for. -/
theorem comparing_registerBoxes {order : ℕ → ℕ} {regs : ℕ → Option Registration}
    (h : s.table.1.1 = emptyTable)
    (hs : registerBoxes (bootDriver fuel asserts u sys) u psp order s n = some (regs, t)) :
    Comparing n t.table.1.1 ∧ (∀ b, n ≤ b → boxRegions t.table.1.1 b = []) ∧
      ∀ b < n, ∃ reg, regs b = some reg ∧ RegionsOf u b reg (boxRegions t.table.1.1 b) := by
  induction n generalizing regs t with
  | zero =>
    obtain ⟨-, rfl⟩ := Prod.mk.inj (Option.some.inj hs)
    rw [h]
    exact ⟨comparing_empty, fun b _ => boxRegions_nil rfl, fun b hb => absurd hb (Nat.not_lt_zero b)⟩
  | succ n ih =>
    obtain ⟨before, s₁, reg, hbefore, hreg, rfl⟩ := registerBoxes_succ hs
    obtain ⟨hcomparing, hnone, hasked⟩ := ih hbefore
    obtain ⟨hnext, hothers, hbox⟩ := comparing_registerBox hcomparing (hnone n le_rfl) hreg
    refine ⟨hnext.next, fun b hb => ?_, fun b hb => ?_⟩
    · rw [hothers b (by omega)]
      exact hnone b (by omega)
    · by_cases hsame : b = n
      · subst hsame
        rw [Function.update_self]
        exact ⟨reg, rfl, hbox⟩
      · rw [hothers b hsame, Function.update_of_ne hsame]
        exact hasked b (by omega)

end Registering

/-! ## Isolation -/

/-- Where the linker has put the memory for secure boxes: behind flash, before
public memory, and outside the page heap. -/
structure Placed (u : UvisorConfig) (sym : PublicSymbols) (g : Geometry) : Prop where
  /-- All symbols are those of full descriptors. -/
  aligned : sym.Aligned
  /-- Flash ends before the boxes. -/
  flash : sym.secureEnd.toNat ≤ u.bssBoxesStart
  /-- Public memory starts behind them. -/
  pageEnd : u.bssBoxesEnd ≤ sym.pageEnd.toNat
  /-- The page heap is elsewhere. -/
  pages : g.heapEnd ≤ u.bssBoxesStart ∨ u.bssBoxesEnd ≤ g.heapStart
  /-- The boxes are inside the address space. -/
  boxes : u.bssBoxesEnd < 2^32

/-- A boot that has registered a number of boxes. -/
structure Booted (asserts : Bool) (u : UvisorConfig) (sys : Virq.Platform) (psp : ℕ)
    (sym : PublicSymbols) (order : ℕ → ℕ) (n : ℕ) (s : KinetisMpu.State)
    (regs : ℕ → Option Registration) (t : BandedMemory.State Tables) : Prop where
  /-- The static descriptors have been set up. -/
  arch : ∃ uninitialised before shcsr,
    vmpuArchInit sym uninitialised before = some (shcsr, s)
  /-- Then the boxes have been registered. -/
  boxes : ∃ fuel bridges virq, registerBoxes (bootDriver fuel asserts u sys) u psp order
    ⟨0, (emptyTable, bridges), virq⟩ n = some (regs, t)

/-- An item of the access control list of a box ends at an address. -/
def ItemEndsAt (regs : ℕ → Option Registration) (box : BoxId) (ends : ℕ) : Prop :=
  ∃ reg item region, regs box.val = some reg ∧ item ∈ reg.acls ∧ ItemRegion item region ∧
    region.ends.toNat = ends

section Isolation

variable {asserts : Bool} {u : UvisorConfig} {sys : Virq.Platform} {psp n : ℕ}
  {sym : PublicSymbols} {order : ℕ → ℕ} {s : KinetisMpu.State}
  {regs : ℕ → Option Registration} {t : BandedMemory.State Tables} {g : Geometry}
  {r : Run KinetisMpu.State} {address : Word}

theorem Booted.comparing (h : Booted asserts u sys psp sym order n s regs t) :
    Comparing n t.table.1.1 ∧ (∀ b, n ≤ b → boxRegions t.table.1.1 b = []) ∧
      ∀ b < n, ∃ reg, regs b = some reg ∧ RegionsOf u b reg (boxRegions t.table.1.1 b) := by
  obtain ⟨fuel, bridges, virq, hboxes⟩ := h.boxes
  exact comparing_registerBoxes (s := ⟨0, (emptyTable, bridges), virq⟩) rfl hboxes

theorem Booted.asked (h : Booted asserts u sys psp sym order n s regs t) {b : ℕ}
    {region : MpuRegion} (hmem : region ∈ boxRegions t.table.1.1 b) :
    ∃ reg, b < n ∧ regs b = some reg ∧ Asked u b reg region := by
  obtain ⟨-, hnone, hregions⟩ := h.comparing
  rcases Nat.lt_or_ge b n with hlt | hge
  · obtain ⟨reg, hreg, hof⟩ := hregions b hlt
    exact ⟨reg, hlt, hreg, hof.asked region hmem⟩
  · rw [hnone b hge] at hmem
    cases hmem

/-- The static descriptors and the regions of the boxes after a boot. -/
def bootConfig (h : Booted asserts u sys psp sym order n s regs t) : KinetisIsolation.Config where
  static := s.words
  regions b := boxRegions t.table.1.1 b.val
  translated b region hmem := by
    obtain ⟨reg, -, -, ⟨-, -, start, size, acl, rounded, hregion⟩ |
      ⟨item, -, -, rounded, hregion⟩⟩ := h.asked hmem
    · exact .inr ⟨_, _, _, _, rounded, hregion⟩
    · exact .inr ⟨_, _, _, _, rounded, hregion⟩

/-- An entry of a slice. -/
theorem exists_entry {table : Table} {b : ℕ} {region : MpuRegion}
    (hmem : region ∈ boxRegions table b) :
    ∃ i ∈ slice table b, table.mpuRegion i = region := by
  obtain ⟨k, hk, rfl⟩ := List.mem_map.mp hmem
  have hlt := List.mem_range.mp hk
  exact ⟨_, mem_slice_iff.mpr ⟨Nat.le_add_right _ _, Nat.add_lt_add_left hlt _⟩, rfl⟩

/-- The regions of two boxes have no byte in common, and each has some. -/
theorem Comparing.apart {table : Table} (h : Comparing n table) {a b : ℕ} (hne : a ≠ b)
    {region region' : MpuRegion} (hmem : region ∈ boxRegions table a)
    (hmem' : region' ∈ boxRegions table b) :
    Disjoint (regionBytes region) (regionBytes region') ∧ (regionBytes region).Nonempty := by
  obtain ⟨i, hi, rfl⟩ := exists_entry hmem
  obtain ⟨j, hj, rfl⟩ := exists_entry hmem'
  refine ⟨h.entries.apart i j fun heq => ?_, h.entries.inhabited a i hi⟩
  exact Finset.disjoint_left.mp (h.slices a b hne) hi (heq ▸ hj)

/-- The bytes of a region of memory. -/
theorem SpanRegion.bounds {span : Span} {region : MpuRegion} (h : SpanRegion span region)
    (hends : span.ends < 2^32) :
    region.start.toNat = span.start ∧ region.ends.toNat = span.ends := by
  unfold Span.ends at hends ⊢
  have hstart : (BitVec.ofNat 32 span.start).toNat = span.start := by
    rw [BitVec.toNat_ofNat]
    exact Nat.mod_eq_of_lt (by omega)
  refine ⟨by rw [h.1, hstart], ?_⟩
  rw [h.2, BitVec.toNat_add, hstart, BitVec.toNat_ofNat]
  omega

/-- A region that reaches an address after its end, and that has no byte of the
region with the address, ends where that one starts. -/
theorem ends_eq_start {region own : MpuRegion} (hdisjoint : Disjoint (regionBytes region)
    (regionBytes own)) (hnonempty : (regionBytes region).Nonempty)
    (haligned : region.start.toNat%32 = 0 ∧ region.ends.toNat%32 = 0)
    (hown : own.start.toNat%32 = 0) (hnear : NearRegion region address)
    (hlow : own.start.toNat ≤ address.toNat) (hhigh : address.toNat < own.ends.toNat) :
    region.ends.toNat = own.start.toNat := by
  obtain ⟨-, hfirst, hlast⟩ := hnear
  have hforward : region.start.toNat ≤ region.ends.toNat := by omega
  have hinhabited : region.start.toNat < region.ends.toNat := by
    obtain ⟨byte, hbyte⟩ := hnonempty
    rw [regionBytes, regionEnd_of_le hforward, Set.mem_Ico] at hbyte
    omega
  have hbefore : ¬own.start.toNat < region.ends.toNat := fun hover => by
    have hmem : max region.start.toNat own.start.toNat ∈ regionBytes region := by
      rw [regionBytes, regionEnd_of_le hforward, Set.mem_Ico]
      omega
    refine Set.disjoint_left.mp hdisjoint hmem ?_
    rw [regionBytes, regionEnd_of_le (by omega), Set.mem_Ico]
    omega
  omega

/-- A region of another box that grants an address in the memory of a secure box
is an item that ends where this memory starts. -/
theorem itemEndsAt_of_near (h : Booted asserts u sys psp sym order n s regs t)
    (hbanded : Banded u regs n) (hend : u.bssBoxesEnd < 2^32) {box b : BoxId}
    {reg : Registration} {span : Span} (hbox : box ≠ 0) (hreg : regs box.val = some reg)
    (hspan : span ∈ BandedLayout.boxRegions u reg) (hlow : span.start ≤ address.toNat)
    (hhigh : address.toNat < span.ends) (hne : b ≠ box) {region : MpuRegion}
    (hmem : region ∈ (bootConfig h).regions b) (hnear : NearRegion region address) :
    ItemEndsAt regs b span.start := by
  obtain ⟨fuel, bridges, virq, hboxes⟩ := h.boxes
  obtain ⟨hcomparing, -, hregions⟩ := h.comparing
  have hboxRange : 1 ≤ box.val ∧ box.val < n :=
    ⟨Nat.one_le_iff_ne_zero.mpr fun hzero => hbox (Fin.ext hzero), lt_of_registered hboxes hreg⟩
  have hspanEnd : span.ends < 2^32 := by
    have := (hbanded.inside span (mem_secureRegions hboxRange.1 hboxRange.2 hreg hspan)).2
    omega
  obtain ⟨other, hlt, hother, ⟨hb, ⟨found, hfound, hregion⟩, -⟩ | ⟨item, hitem, hregion⟩⟩ :=
    h.asked hmem
  · -- the bands are larger than what a descriptor grants after its region
    have hbRange : 1 ≤ b.val ∧ b.val < n := ⟨Nat.one_le_iff_ne_zero.mpr hb, hlt⟩
    have hsep := separate_of_banded hbanded hbRange hboxRange (fun heq => hne (Fin.ext heq))
      hother hreg hfound hspan
    have hfoundEnd := (hbanded.inside found
      (mem_secureRegions hbRange.1 hbRange.2 hother hfound)).2
    obtain ⟨hstart, hends⟩ := SpanRegion.bounds hregion (by omega)
    obtain ⟨-, hfirst, hlast⟩ := hnear
    have hband : stackBandSize.toNat = 128 := rfl
    unfold Separate Apart at hsep
    rw [hband] at hsep
    omega
  · obtain ⟨found, hfound, hof⟩ := hregions box.val hboxRange.2
    obtain rfl := Option.some.inj (hfound.symm.trans hreg)
    have hsize : span.size ≠ 0 := by
      unfold Span.ends at hhigh
      omega
    obtain ⟨own, hown, hownSpan⟩ := hof.spans (by omega) span hspan hsize
    obtain ⟨hstart, hends⟩ := SpanRegion.bounds hownSpan hspanEnd
    obtain ⟨hdisjoint, hnonempty⟩ := hcomparing.apart (fun heq => hne (Fin.ext heq)) hmem hown
    have haligned := @aligned_translated (bootConfig h) b region hmem
    have hownAligned := (@aligned_translated (bootConfig h) box own hown).1
    refine ⟨other, item, region, hother, hitem, hregion, ?_⟩
    rw [← hstart]
    exact ends_eq_start hdisjoint hnonempty haligned hownAligned hnear (by omega) (by omega)

/-- No page grants an address behind the first band. -/
theorem not_nearPage (hplaced : Placed u sym g) (hg : Aligned g)
    (hlow : u.bssBoxesStart+128 ≤ address.toNat) (hhigh : address.toNat < u.bssBoxesEnd)
    {page : ℕ} (hpage : page < g.countTotal) : ¬NearPage g page address := by
  rw [NearPage, hg.pageOrigin_eq hpage, ← pageStart_succ]
  have hend := hg.wellFormed.heapEnd_eq
  have hlast := @pageStart_mono g (page+1) g.countTotal hpage
  have hfirst := @pageStart_mono g 0 page (Nat.zero_le _)
  have hzero : pageStart g 0 = g.heapStart := by
    simp [pageStart]
  have htotal : pageStart g g.countTotal = g.heapEnd := by
    rw [pageStart, hend]
  have hpages := hplaced.pages
  omega

end Isolation

/-! ## Two secure boxes -/

section Device

open BoxAgreement (threeConfigs)
open BoxPlacement (threeBoxes noOwners)

/-- Flash of 512 kilobytes, and public memory behind the pages. -/
def bootSymbols : PublicSymbols := ⟨0, 0x80000, 0x20007000, 0x20010000⟩

/-- Four pages behind the boxes. -/
def bootPages : Geometry := layout .kinetis 0x20007000 0x20006000 1024

theorem bootSymbols_placed : Placed (threeConfigs 64 4096) bootSymbols bootPages where
  aligned := ⟨rfl, rfl, rfl, rfl⟩
  flash := by decide
  pageEnd := by decide
  pages := .inr (by decide)
  boxes := by decide

/-- The unit before the boot. -/
def resetUnit : Word × KinetisMpu.State :=
  (0, ⟨0, fun _ => ⟨0, 0, 0, 0⟩, 3, fun _ => 0, PageAllocator.booted.alloc, []⟩)

/-- The unit with the static descriptors. -/
def archUnit : KinetisMpu.State :=
  ((vmpuArchInit bootSymbols (fun _ => ⟨0, 0, 0, 0⟩) resetUnit).map Prod.snd).getD resetUnit.2

/-- The boxes that are registered then. -/
def bootBoxes : (ℕ → Option Registration) × BandedMemory.State Tables :=
  (registerBoxes (bootDriver 0 false (threeConfigs 64 4096) threeBoxes) (threeConfigs 64 4096) 0
    (fun i => i) ⟨0, (emptyTable, AipsAdd.noPeripherals), noOwners⟩ 3).getD
      (fun _ => none, ⟨0, (emptyTable, AipsAdd.noPeripherals), noOwners⟩)

theorem threeConfigs_booted :
    Booted false (threeConfigs 64 4096) threeBoxes 0 bootSymbols (fun i => i) 3 archUnit
      bootBoxes.1 bootBoxes.2 where
  arch := by
    have harch : (vmpuArchInit bootSymbols (fun _ => ⟨0, 0, 0, 0⟩) resetUnit).isSome := by decide
    obtain ⟨⟨shcsr, s⟩, hs⟩ := Option.isSome_iff_exists.mp harch
    refine ⟨_, _, shcsr, hs.trans ?_⟩
    rw [archUnit, hs]
    rfl
  boxes := by
    have hboxes : (registerBoxes (bootDriver 0 false (threeConfigs 64 4096) threeBoxes)
        (threeConfigs 64 4096) 0 (fun i => i)
        ⟨0, (emptyTable, AipsAdd.noPeripherals), noOwners⟩ 3).isSome := by
      decide +kernel
    obtain ⟨pair, hpair⟩ := Option.isSome_iff_exists.mp hboxes
    refine ⟨0, AipsAdd.noPeripherals, noOwners, ?_⟩
    rw [bootBoxes, hpair]
    rfl

/-- The unit when the page heap has been initialized. -/
def bootRun : Run KinetisMpu.State :=
  ⟨{archUnit with log := []}, fun _ => none⟩

/-- The regions that the boot has set up. -/
def bootedRegions : KinetisIsolation.Config := bootConfig threeConfigs_booted

theorem bootRun_initial :
    Initial (protection bootedRegions bootPages) bootPages .kinetis bootRun where
  good := ⟨by decide +kernel, fun _ _ => rfl⟩
  boots := ⟨PageAllocator.smallDevice, 0x20006000, 0x20007000, 0x400, 1024,
    PageAllocator.booted.alloc, rfl⟩
  holder := rfl
  opens w hw := by
    obtain ⟨i, hlow, hhigh, rfl, hvalid⟩ := hw
    have hinvalid : ∀ i : Fin regionsMax, regionsStatic ≤ i.val →
        valid (archUnit.words i.val) = false := by decide +kernel
    exact absurd ((hinvalid ⟨i, hhigh⟩ hlow).symm.trans hvalid) (by decide)

end Device

end Uvisor.KinetisBoot
