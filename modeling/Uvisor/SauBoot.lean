import Uvisor.BandedLayout
import Uvisor.SauIsolation

/-!
# Boot on ARMv8-M

The static regions are set up first, then the boxes are registered one after the
other, and every region that a box ever has comes from there: its stack, its BSS
sections, and the items of its access control list. Where the memory for secure
boxes has room for them, nothing but such an item can open the memory of a box
to another one, in any run after the boot.
-/

namespace Uvisor.SauBoot

open PageAllocator ArmSau SauBuffers SauPriority BoxIsolation Execution SauConfiguration
open ArmMpu (Word MpuRegion tacldefData taclSexecute taclUexecute taclUread taclUwrite)
open AlignedRegions BoxEnumeration BoxMemory BandedMemory BandedLayout
open BoxPlacement (isIrq taclUser)
open KinetisMpu (regionRoundUp roundedSize)
open SauIsolation (InRegion covers attribution regionEnabled)

/-! ## The unit -/

/-- The linker's symbols for the parts of memory that every box can access. -/
structure PublicSymbols where
  /-- flash_start. -/
  flashStart : Word
  /-- flash_end. -/
  flashEnd : Word
  /-- __uvisor_entry_points_start__. -/
  entryPointsStart : Word
  /-- __uvisor_entry_points_end__. -/
  entryPointsEnd : Word
  /-- page_end. -/
  pageEnd : Word
  /-- sram_end. -/
  sramEnd : Word

/-- The registers that the port sets up. -/
structure Registers where
  /-- SCB->AIRCR. -/
  aircr : Word
  /-- SCB->SHCSR. -/
  shcsr : Word
  /-- SAU->TYPE. -/
  sauType : Word
  /-- SAU->CTRL. -/
  sauCtrl : Word

/-- vmpu_mpu_init. -/
def vmpuMpuInit (registers : Registers) : Option Registers :=
  if BitVec.ofNat 32 regionsMax ≠ registers.sauType &&& 0xFF then none
  else some {registers with sauCtrl := 0}

/-- vmpu_mpu_lock. -/
def vmpuMpuLock (registers : Registers) : Registers := {registers with sauCtrl := 1}

/-- The value of AIRCR: the key, prioritized secure exceptions, and the
endianness and the priority grouping as they are. -/
def aircrValue (aircr : Word) : Word :=
  (0x5FA <<< 16) ||| (aircr &&& (1 <<< 15)) ||| (1 <<< 14) ||| (aircr &&& (7 <<< 8))

/-- The faults that are enabled in SHCSR. -/
def shcsrFaults : Word := (1 <<< 19) ||| (1 <<< 18) ||| (1 <<< 17) ||| (1 <<< 16)

/-- Any access by the user. -/
def taclPublic : Word := taclUexecute ||| taclUread ||| taclUwrite

/-- A call that sets up a static region. -/
structure StaticCall where
  /-- Slot. -/
  index : ℕ
  /-- First byte. -/
  start : Word
  /-- Bytes. -/
  size : Word
  /-- Access rights. -/
  acl : Word
  /-- Further attributes. -/
  aclHwSpec : Word

/-- The calls of vmpu_arch_init: flash before the entry points, the entry points,
flash after them, and public memory. -/
def staticCalls (sym : PublicSymbols) : List StaticCall :=
  [⟨0, sym.flashStart, sym.entryPointsStart-sym.flashStart, taclPublic, 0⟩,
    ⟨1, sym.entryPointsStart, sym.entryPointsEnd-sym.entryPointsStart,
      taclSexecute ||| taclUexecute, 2⟩,
    ⟨2, sym.entryPointsEnd, sym.flashEnd-sym.entryPointsEnd, taclPublic, 0⟩,
    ⟨3, sym.pageEnd, sym.sramEnd-sym.pageEnd, taclPublic, 0⟩]

/-- Make a list of calls. What is on the stack during a call is given. -/
def setStaticAcls (uninitialised : ℕ → MpuRegion) : List StaticCall → Config → Option Config
  | [], c => some c
  | call :: calls, c =>
    (vmpuMpuSetStaticAcl call.index call.start call.size call.acl call.aclHwSpec
      (uninitialised call.index) c).bind fun (_, c) => setStaticAcls uninitialised calls c

/-- vmpu_arch_init. -/
def vmpuArchInit (sym : PublicSymbols) (uninitialised : ℕ → MpuRegion)
    (s : Registers × Config) : Option (Registers × Config) :=
  let (registers, c) := s
  let registers :=
    {registers with
      aircr := aircrValue registers.aircr
      shcsr := registers.shcsr ||| shcsrFaults}
  (vmpuMpuInit registers).bind fun registers =>
    (setStaticAcls uninitialised (staticCalls sym) c).map fun c => (vmpuMpuLock registers, c)

section Unit

variable {sym : PublicSymbols} {uninitialised : ℕ → MpuRegion} {c c' : Config}

/-- The region of a call, with a start and a size that need no rounding. -/
def StaticCall.region (call : StaticCall) : MpuRegion :=
  ⟨call.start, call.start+call.size, vmpuMapAcl call.acl ||| (call.aclHwSpec &&& sauRlarNsc),
    call.acl⟩

/-- A call has a start and a size of full descriptors. -/
def StaticCall.Aligned (call : StaticCall) : Prop := call.start%32 = 0 ∧ call.size%32 = 0

theorem translate_aligned {start size acl aclHwSpec : Word} (hstart : start%32 = 0)
    (hsize : size%32 = 0) :
    vmpuRegionTranslateAcl start size acl aclHwSpec =
      some (⟨start, start+size, vmpuMapAcl acl ||| (aclHwSpec &&& sauRlarNsc), acl⟩, size) := by
  rw [vmpuRegionTranslateAcl, roundedSize, if_pos hsize, Option.bind_some,
    if_neg (not_not.mpr hstart)]

/-- What the calls leave as it is. -/
structure StaticFrame (c c' : Config) : Prop where
  /-- The round robin. -/
  slot : c'.unit.mpuSlot = c.unit.mpuSlot
  /-- The active box. -/
  activeBox : c'.unit.activeBox = c.unit.activeBox
  /-- The page allocator. -/
  alloc : c'.unit.alloc = c.unit.alloc
  /-- The number of regions of the boxes. -/
  count : c'.mpuRegionCount = c.mpuRegionCount
  /-- The regions of the boxes. -/
  table : c'.mpuRegion = c.mpuRegion
  /-- The slices of the boxes. -/
  slices : c'.mpuBoxRegion = c.mpuBoxRegion

theorem setStaticAcls_spec {calls : List StaticCall}
    (h : setStaticAcls uninitialised calls c = some c')
    (hdistinct : (calls.map StaticCall.index).Nodup) (haligned : ∀ call ∈ calls, call.Aligned) :
    StaticFrame c c' ∧
      (∀ call ∈ calls, c'.unit.sau.regions call.index = programmed call.region) ∧
      ∀ i, i ∉ calls.map StaticCall.index → c'.unit.sau.regions i = c.unit.sau.regions i := by
  induction calls generalizing c with
  | nil =>
    obtain rfl := Option.some.inj h
    exact ⟨⟨rfl, rfl, rfl, rfl, rfl, rfl⟩, fun _ hmem => absurd hmem List.not_mem_nil,
      fun _ _ => rfl⟩
  | cons call calls ih =>
    obtain ⟨⟨rounded, first⟩, hset, h⟩ := Option.bind_eq_some_iff.mp h
    obtain ⟨hnotmem, hrest⟩ := List.nodup_cons.mp hdistinct
    obtain ⟨hstart, hsize⟩ := haligned call List.mem_cons_self
    unfold vmpuMpuSetStaticAcl at hset
    rw [translate_aligned hstart hsize] at hset
    split_ifs at hset
    obtain ⟨-, rfl⟩ := Prod.mk.inj (Option.some.inj hset)
    obtain ⟨hframe, hheld, hothers⟩ :=
      ih h hrest fun other hmem => haligned other (List.mem_cons_of_mem _ hmem)
    refine ⟨⟨hframe.slot, hframe.activeBox, hframe.alloc, hframe.count, hframe.table,
      hframe.slices⟩, fun other hmem => ?_, fun i hi => ?_⟩
    · rcases List.mem_cons.mp hmem with rfl | hmem
      · rw [hothers _ hnotmem]
        dsimp only
        rw [vmpuSauAddRegion_regions, Function.update_self]
        rfl
      · exact hheld other hmem
    · rw [List.map_cons, List.mem_cons, not_or] at hi
      rw [hothers i hi.2]
      dsimp only
      rw [vmpuSauAddRegion_regions, Function.update_of_ne hi.1]

/-- The symbols are those of full descriptors. -/
structure PublicSymbols.Aligned (sym : PublicSymbols) : Prop where
  /-- Start of flash. -/
  flashStart : sym.flashStart%32 = 0
  /-- End of flash. -/
  flashEnd : sym.flashEnd%32 = 0
  /-- Start of the entry points. -/
  entryPointsStart : sym.entryPointsStart%32 = 0
  /-- End of the entry points. -/
  entryPointsEnd : sym.entryPointsEnd%32 = 0
  /-- End of the page heap. -/
  pageEnd : sym.pageEnd%32 = 0
  /-- End of memory. -/
  sramEnd : sym.sramEnd%32 = 0

theorem sub_aligned {x y : Word} (hx : x%32 = 0) (hy : y%32 = 0) : (x-y)%32 = 0 := by
  rw [mod_eq_zero_iff] at hx hy ⊢
  rw [BitVec.toNat_sub]
  omega

theorem staticCalls_aligned (h : sym.Aligned) : ∀ call ∈ staticCalls sym, call.Aligned := by
  simp only [staticCalls, List.forall_mem_cons, List.not_mem_nil, false_implies, implies_true,
    and_true]
  exact ⟨⟨h.flashStart, sub_aligned h.entryPointsStart h.flashStart⟩,
    ⟨h.entryPointsStart, sub_aligned h.entryPointsEnd h.entryPointsStart⟩,
    ⟨h.entryPointsEnd, sub_aligned h.flashEnd h.entryPointsEnd⟩,
    ⟨h.pageEnd, sub_aligned h.sramEnd h.pageEnd⟩⟩

/-- The unit is enabled, and its static slots hold the regions of the calls. -/
theorem vmpuArchInit_spec {registers registers' : Registers} (haligned : sym.Aligned)
    (h : vmpuArchInit sym uninitialised (registers, c) = some (registers', c')) :
    registers'.sauCtrl = 1 ∧ StaticFrame c c' ∧
      ∀ i < regionsStatic, ∃ call ∈ staticCalls sym,
        c'.unit.sau.regions i = programmed call.region := by
  obtain ⟨middle, -, h⟩ := Option.bind_eq_some_iff.mp h
  obtain ⟨last, hcalls, hlast⟩ := Option.map_eq_some_iff.mp h
  obtain ⟨rfl, rfl⟩ := Prod.mk.inj hlast
  obtain ⟨hframe, hheld, -⟩ := setStaticAcls_spec hcalls (by simp [staticCalls])
    (staticCalls_aligned haligned)
  refine ⟨rfl, hframe, fun i hi => ?_⟩
  have hindex : ∃ call ∈ staticCalls sym, call.index = i := by
    rw [regionsStatic] at hi
    interval_cases i <;> simp [staticCalls]
  obtain ⟨call, hmem, rfl⟩ := hindex
  exact ⟨call, hmem, hheld call hmem⟩

end Unit

/-! ## The boxes -/

/-- The table of regions, beside the virtual interrupts. -/
def bootTable (boxCount : ℕ) : RegionTable (Config × Virq.State) where
  regionAddStaticAcl := fun boxId start size acl m =>
    ((sauTable boxCount).regionAddStaticAcl boxId start size acl m.1).map fun c => (c, m.2)
  lastRegion := fun m boxId => (sauTable boxCount).lastRegion m.1 boxId

/-- What an item of an access control list adds for a box. -/
def bootAddAcl (boxCount : ℕ) (sys : Virq.Platform) (boxId : ℕ) (item : AclItem)
    (m : Config × Virq.State) : Option (Config × Virq.State) :=
  if isIrq item then (Virq.virqAclAdd sys boxId item.param1 m.2).map fun virq => (m.1, virq)
  else
    (bootTable boxCount).regionAddStaticAcl boxId (BitVec.ofNat 32 item.param1)
      (BitVec.ofNat 32 item.param2) (BitVec.ofNat 32 item.acl ||| taclUser) m

/-- The driver on ARMv8-M. -/
def bootDriver (asserts : Bool) (u : UvisorConfig) (sys : Virq.Platform) :
    Driver (BandedMemory.State (Config × Virq.State)) :=
  bandedDriver (bootTable (boxCount u)) asserts u (bootAddAcl (boxCount u) sys)

/-- A region with the given values that has been translated. -/
def Translated (region : MpuRegion) (start size acl : Word) : Prop :=
  ∃ rounded, vmpuRegionTranslateAcl start size acl 0 = some (region, rounded)

/-- A region that an item of an access control list asks for. -/
def ItemRegion (item : AclItem) (region : MpuRegion) : Prop :=
  isIrq item = false ∧
    Translated region (BitVec.ofNat 32 item.param1) (BitVec.ofNat 32 item.param2)
      (BitVec.ofNat 32 item.acl ||| taclUser)

/-- The table while the regions of a box are added. -/
structure Filling (boxId : ℕ) (c : Config) : Prop where
  /-- A box without a slice has no entries. -/
  empty : ∀ b, (c.mpuBoxRegion b).regions = none → (c.mpuBoxRegion b).count = 0
  /-- The slices end before the first free entry. -/
  bound : ∀ b, ∀ base ∈ (c.mpuBoxRegion b).regions,
    base+(c.mpuBoxRegion b).count ≤ c.mpuRegionCount
  /-- The slice of the box ends there. -/
  last : ∀ b : BoxId, b.val = boxId → ∀ base ∈ (c.mpuBoxRegion b).regions,
    base+(c.mpuBoxRegion b).count = c.mpuRegionCount
  /-- The boxes after it have no slice. -/
  later : ∀ b : BoxId, boxId < b.val → c.mpuBoxRegion b = ⟨none, 0⟩
  /-- The free entries are zero. -/
  free : ∀ i, c.mpuRegionCount ≤ i → c.mpuRegion i = ⟨0, 0, 0, 0⟩

/-- Regions have been added for a box, and every new one is of a kind. -/
structure Extended (boxId : ℕ) (new : MpuRegion → Prop) (c c' : Config) : Prop where
  /-- The other boxes have the same regions. -/
  others : ∀ b : BoxId, b.val ≠ boxId → c'.boxRegions b = c.boxRegions b
  /-- The regions of the box. -/
  regions : ∀ b : BoxId, b.val = boxId → ∀ region ∈ c'.boxRegions b,
    region ∈ c.boxRegions b ∨ new region

section Boxes

variable {boxId count : ℕ} {c c' : Config} {new new' : MpuRegion → Prop}

theorem Extended.refl (boxId : ℕ) (new : MpuRegion → Prop) (c : Config) :
    Extended boxId new c c :=
  ⟨fun _ _ => rfl, fun _ _ _ hmem => .inl hmem⟩

theorem Extended.trans {c'' : Config} (h : Extended boxId new c c')
    (h' : Extended boxId new c' c'') : Extended boxId new c c'' where
  others b hb := (h'.others b hb).trans (h.others b hb)
  regions b hb region hmem := by
    rcases h'.regions b hb region hmem with hbefore | hnew
    · exact h.regions b hb region hbefore
    · exact .inr hnew

theorem Extended.mono (h : Extended boxId new c c') (himp : ∀ region, new region → new' region) :
    Extended boxId new' c c' where
  others := h.others
  regions b hb region hmem := (h.regions b hb region hmem).imp_right (himp region)

/-- One region is added behind those of the box. -/
theorem filling_add {start size acl : Word} (h : Filling boxId c)
    (hs : (sauTable count).regionAddStaticAcl boxId start size acl c = some c') :
    Filling boxId c' ∧ Extended boxId
      (fun region => region = ⟨0, 0, 0, 0⟩ ∨ Translated region start size acl) c c' := by
  simp only [sauTable] at hs
  split at hs
  swap
  · cases hs
  rename_i hbox
  obtain ⟨⟨rounded, added⟩, hadd, rfl⟩ := Option.map_eq_some_iff.mp hs
  unfold SauConfiguration.vmpuRegionAddStaticAcl at hadd
  dsimp only at hadd
  split_ifs at hadd
  obtain ⟨-, rfl⟩ := Prod.mk.inj (Option.some.inj hadd)
  -- the written entry is the first free one
  have hindex : (c.mpuBoxRegion ⟨boxId, hbox⟩).regions.getD c.mpuRegionCount+
      (c.mpuBoxRegion ⟨boxId, hbox⟩).count = c.mpuRegionCount := by
    cases hregions : (c.mpuBoxRegion ⟨boxId, hbox⟩).regions with
    | none => rw [h.empty _ hregions, Option.getD_none, Nat.add_zero]
    | some base => exact h.last _ rfl base hregions
  have hother : ∀ b : BoxId, b.val ≠ boxId → b ≠ ⟨boxId, hbox⟩ :=
    fun b hb heq => hb (congrArg Fin.val heq)
  refine ⟨⟨fun b hb => ?_, fun b base hbase => ?_, fun b hb base hbase => ?_, fun b hb => ?_,
    fun i hi => ?_⟩, ⟨fun b hb => ?_, fun b hb region hmem => ?_⟩⟩
  · by_cases hsame : b.val = boxId
    · obtain rfl : b = ⟨boxId, hbox⟩ := Fin.ext hsame
      simp at hb
    · simp only [Function.update_of_ne (hother b hsame)] at hb ⊢
      exact h.empty b hb
  · by_cases hsame : b.val = boxId
    · obtain rfl : b = ⟨boxId, hbox⟩ := Fin.ext hsame
      simp only [Function.update_self, Option.mem_some_iff] at hbase ⊢
      omega
    · simp only [Function.update_of_ne (hother b hsame)] at hbase ⊢
      have := h.bound b base hbase
      omega
  · obtain rfl : b = ⟨boxId, hbox⟩ := Fin.ext hb
    simp only [Function.update_self, Option.mem_some_iff] at hbase ⊢
    omega
  · simp only [Function.update_of_ne (hother b (by omega))]
    exact h.later b hb
  · dsimp only at hi ⊢
    rw [Function.update_of_ne (by omega)]
    exact h.free i (by omega)
  · exact boxRegions_below (h.empty b)
      (fun base hbase => (h.bound b base hbase).trans hindex.ge)
      (Function.update_of_ne (hother b hb) ..) rfl
  · obtain rfl : b = ⟨boxId, hbox⟩ := Fin.ext hb
    rw [boxRegions_append (c := c) ?_ rfl rfl (Function.update_self ..) rfl] at hmem
    · rcases List.mem_append.mp hmem with hbefore | hlast
      · exact .inl hbefore
      · right
        rw [List.mem_singleton.mp hlast, hindex, h.free _ le_rfl]
        cases htranslate : vmpuRegionTranslateAcl start size acl 0 with
        | none => exact .inl rfl
        | some pair => exact .inr ⟨pair.2, htranslate⟩
    · cases hregions : (c.mpuBoxRegion ⟨boxId, hbox⟩).regions with
      | none => exact .inl (h.empty _ hregions)
      | some base => exact .inr rfl

/-- The next box has no region yet. -/
theorem Filling.next (h : Filling boxId c) : Filling (boxId+1) c where
  empty := h.empty
  bound := h.bound
  last b hb base hbase := by
    rw [h.later b (by omega)] at hbase
    cases hbase
  later b hb := h.later b (by omega)
  free := h.free

/-- No region has been added yet. -/
structure NoRegions (c : Config) : Prop where
  /-- No entry is in use. -/
  count : c.mpuRegionCount = 0
  /-- The table is zero. -/
  table : ∀ i, c.mpuRegion i = ⟨0, 0, 0, 0⟩
  /-- No box has a slice. -/
  slices : ∀ b, c.mpuBoxRegion b = ⟨none, 0⟩

theorem NoRegions.filling (h : NoRegions c) : Filling 0 c where
  empty b _ := by rw [h.slices b]
  bound b base hbase := by
    rw [h.slices b] at hbase
    cases hbase
  last b _ base hbase := by
    rw [h.slices b] at hbase
    cases hbase
  later b _ := h.slices b
  free i _ := h.table i

theorem NoRegions.boxRegions_eq (h : NoRegions c) (b : BoxId) : c.boxRegions b = [] := by
  rw [Config.boxRegions, h.slices b]
  rfl

end Boxes

section Registering

variable {asserts : Bool} {u : UvisorConfig} {sys : Virq.Platform} {psp n index : ℕ}
  {s t : BandedMemory.State (Config × Virq.State)} {reg : Registration}

/-- The items of an access control list add what they ask for. -/
theorem filling_addAclsFrom {count region : ℕ} {acls : List AclItem}
    (h : Filling n s.table.1)
    (hs : addAclsFrom (bootDriver asserts u sys) u n count region s = some (acls, t)) :
    Filling n t.table.1 ∧ Extended n
      (fun region => region = ⟨0, 0, 0, 0⟩ ∨ ∃ item ∈ acls, ItemRegion item region)
      s.table.1 t.table.1 := by
  induction count generalizing region acls s with
  | zero =>
    obtain ⟨rfl, rfl⟩ := Prod.mk.inj (Option.some.inj hs)
    exact ⟨h, .refl n _ _⟩
  | succ count ih =>
    simp only [addAclsFrom] at hs
    split at hs
    · cases hs
    split at hs
    · cases hs
    rename_i s₁ hitem
    split at hs
    · cases hs
    rename_i rest s₂ hrest
    obtain ⟨rfl, rfl⟩ := Prod.mk.inj (Option.some.inj hs)
    have hfirst : Filling n s₁.table.1 ∧ Extended n
        (fun added => added = ⟨0, 0, 0, 0⟩ ∨ ItemRegion (u.aclItem region) added)
        s.table.1 s₁.table.1 := by
      obtain ⟨⟨c, virq⟩, hadd, rfl⟩ := Option.map_eq_some_iff.mp hitem
      unfold bootAddAcl at hadd
      split_ifs at hadd with hirq
      · obtain ⟨virq', -, heq⟩ := Option.map_eq_some_iff.mp hadd
        obtain ⟨rfl, rfl⟩ := Prod.mk.inj heq
        exact ⟨h, .refl n _ _⟩
      · obtain ⟨c', hregion, heq⟩ := Option.map_eq_some_iff.mp hadd
        obtain ⟨rfl, rfl⟩ := Prod.mk.inj heq
        obtain ⟨hfilling, hextended⟩ := filling_add h hregion
        exact ⟨hfilling, hextended.mono fun added hadded =>
          hadded.imp_right fun htranslated => ⟨by simpa using hirq, htranslated⟩⟩
    obtain ⟨hfilling, hextended⟩ := ih hfirst.1 hrest
    refine ⟨hfilling, (hfirst.2.mono fun added hadded => ?_).trans
      (hextended.mono fun added hadded => ?_)⟩
    · exact hadded.imp_right fun hitem => ⟨_, List.mem_cons_self, hitem⟩
    · refine hadded.imp_right fun hitem => ?_
      obtain ⟨item, hmem, hregion⟩ := hitem
      exact ⟨item, List.mem_cons_of_mem _ hmem, hregion⟩

theorem filling_peripherals {config : BoxConfig} {acls : List AclItem}
    (h : Filling n s.table.1)
    (hs : configureBoxPeripherals (bootDriver asserts u sys) u s n config = some (acls, t)) :
    Filling n t.table.1 ∧ Extended n
      (fun region => region = ⟨0, 0, 0, 0⟩ ∨ ∃ item ∈ acls, ItemRegion item region)
      s.table.1 t.table.1 := by
  unfold configureBoxPeripherals at hs
  split at hs
  · obtain ⟨rfl, rfl⟩ := Prod.mk.inj (Option.some.inj hs)
    exact ⟨h, .refl n _ _⟩
  · exact filling_addAclsFrom h hs

/-- A region that a registered box has: an empty entry, its stack, its BSS
sections, or an item of its access control list. -/
def Asked (u : UvisorConfig) (boxId : ℕ) (reg : Registration) (region : MpuRegion) : Prop :=
  region = ⟨0, 0, 0, 0⟩ ∨
    (boxId ≠ 0 ∧ (∃ span ∈ BandedLayout.boxRegions u reg, SpanRegion span region) ∧
      ∃ start size acl, Translated region start size acl) ∨
    ∃ item ∈ reg.acls, ItemRegion item region

/-- A rounded size is not rounded again. -/
theorem spanRegion_of_translated {region : MpuRegion} {start acl : Word} {size : ℕ}
    (h : Translated region start (regionRoundUp (BitVec.ofNat 32 size)) acl) :
    SpanRegion ⟨start.toNat, (regionRoundUp (BitVec.ofNat 32 size)).toNat⟩ region := by
  obtain ⟨rounded, h⟩ := h
  have haligned : regionRoundUp (BitVec.ofNat 32 size)%32 = 0 :=
    (mod_eq_zero_iff _).mpr (Nat.mod_eq_zero_of_dvd (regionRoundUp_dvd size))
  obtain ⟨full, hfull, h⟩ := Option.bind_eq_some_iff.mp h
  rw [roundedSize, if_pos haligned] at hfull
  obtain rfl := Option.some.inj hfull
  split_ifs at h
  obtain ⟨rfl, -⟩ := Prod.mk.inj (Option.some.inj h)
  simp [SpanRegion]

/-- One pass of the loop adds for the box what it asks for. -/
theorem filling_registerBox (h : Filling n s.table.1)
    (hs : registerBox (bootDriver asserts u sys) u psp s n index = some (reg, t)) :
    Filling n t.table.1 ∧ Extended n (Asked u n reg) s.table.1 t.table.1 := by
  obtain ⟨s₁, hregistered⟩ := registerBox_registered hs
  have hsram : Filling n s₁.table.1 ∧ Extended n (Asked u n reg) s.table.1 s₁.table.1 := by
    rcases Nat.eq_zero_or_pos n with rfl | hn
    · rw [hregistered.public_eq]
      exact ⟨h, .refl 0 _ _⟩
    · obtain ⟨added, hstack, hbss, -, hstart, -⟩ :=
        vmpuAclSram_adds (hregistered.aclSram hn.ne')
      have hspan := (registerBox_added hn.ne' hs).stackRegion_eq
      obtain ⟨c₁, haddStack, rfl⟩ := Option.map_eq_some_iff.mp hstack
      obtain ⟨c₂, haddBss, heq⟩ := Option.map_eq_some_iff.mp hbss
      obtain ⟨hfilling, hextended⟩ := filling_add h haddStack
      obtain ⟨hfilling', hextended'⟩ := filling_add hfilling haddBss
      rw [← heq]
      refine ⟨hfilling', (hextended.mono fun region hregion => ?_).trans
        (hextended'.mono fun region hregion => ?_)⟩
      · refine hregion.imp_right fun htranslated => .inl ⟨hn.ne', ⟨stackRegion u reg,
          List.mem_cons_self, ?_⟩, _, _, _, htranslated⟩
        have hregion := spanRegion_of_translated htranslated
        rw [regionRoundUp_toNat] at hregion
        rw [hspan]
        exact hregion
      · refine hregion.imp_right fun htranslated => .inl ⟨hn.ne', ⟨bssRegion reg,
          List.mem_cons_of_mem _ List.mem_cons_self, ?_⟩, _, _, _, htranslated⟩
        have hregion := spanRegion_of_translated htranslated
        rw [← hregistered.bssSize, BitVec.toNat_ofNat,
          Nat.mod_eq_of_lt (hstart ▸ BitVec.isLt _)] at hregion
        exact hregion
  obtain ⟨hfilling, hextended⟩ := filling_peripherals hsram.1 hregistered.peripherals
  refine ⟨hfilling, hsram.2.trans (hextended.mono fun region hregion => ?_)⟩
  exact hregion.imp_right .inr

/-- Every region of a box has been asked for. -/
theorem boxRegions_asked {order : ℕ → ℕ} {regs : ℕ → Option Registration}
    (h : NoRegions s.table.1)
    (hs : registerBoxes (bootDriver asserts u sys) u psp order s n = some (regs, t)) :
    Filling n t.table.1 ∧ (∀ b : BoxId, n ≤ b.val → t.table.1.boxRegions b = []) ∧
      ∀ b, ∀ region ∈ t.table.1.boxRegions b,
        ∃ reg, regs b.val = some reg ∧ Asked u b.val reg region := by
  induction n generalizing regs t with
  | zero =>
    obtain ⟨-, rfl⟩ := Prod.mk.inj (Option.some.inj hs)
    refine ⟨h.filling, fun b _ => h.boxRegions_eq b, fun b region hmem => ?_⟩
    rw [h.boxRegions_eq b] at hmem
    cases hmem
  | succ n ih =>
    obtain ⟨before, s₁, reg, hbefore, hreg, rfl⟩ := registerBoxes_succ hs
    obtain ⟨hfilling, hnone, hasked⟩ := ih hbefore
    obtain ⟨hnext, hextended⟩ := filling_registerBox hfilling hreg
    refine ⟨hnext.next, fun b hb => ?_, fun b region hmem => ?_⟩
    · rw [hextended.others b (by omega)]
      exact hnone b (by omega)
    by_cases hb : b.val = n
    · rcases hextended.regions b hb region hmem with hold | hnew
      · rw [hnone b hb.ge] at hold
        cases hold
      · rw [hb, Function.update_self]
        exact ⟨reg, rfl, hnew⟩
    · rw [hextended.others b hb] at hmem
      rw [Function.update_of_ne hb]
      exact hasked b region hmem

end Registering

/-! ## Isolation -/

/-- Where the linker has put the memory for secure boxes: behind flash, before
public memory, and outside the page heap. -/
structure Placed (u : UvisorConfig) (sym : PublicSymbols) (g : Geometry) : Prop where
  /-- All symbols are those of full descriptors. -/
  aligned : sym.Aligned
  /-- There is flash before the entry points. -/
  entryPoints : sym.flashStart.toNat < sym.entryPointsStart.toNat
  /-- The entry points end behind their start. -/
  entryPointsEnd : sym.entryPointsStart.toNat ≤ sym.entryPointsEnd.toNat
  /-- They end inside flash. -/
  flashEnd : sym.entryPointsEnd.toNat ≤ sym.flashEnd.toNat
  /-- Flash ends before the boxes. -/
  flash : sym.flashEnd.toNat ≤ u.bssBoxesStart
  /-- Public memory starts behind them. -/
  pageEnd : u.bssBoxesEnd ≤ sym.pageEnd.toNat
  /-- It does not end before it starts. -/
  sramEnd : sym.pageEnd.toNat ≤ sym.sramEnd.toNat
  /-- The page heap is elsewhere. -/
  pages : g.heapEnd ≤ u.bssBoxesStart ∨ u.bssBoxesEnd ≤ g.heapStart
  /-- The boxes are inside the address space. -/
  boxes : u.bssBoxesEnd < 2^32

/-- An address in the memory for secure boxes. -/
def InBoxes (u : UvisorConfig) (address : Word) : Prop :=
  u.bssBoxesStart ≤ address.toNat ∧ address.toNat < u.bssBoxesEnd

section Windows

variable {u : UvisorConfig} {sym : PublicSymbols} {g : Geometry} {address : Word}

/-- The bytes between two symbols. -/
theorem between_of_inRegion {first last acl aclHwSpec : Word} {index : ℕ} (hpos : 0 < last.toNat)
    (h : InRegion (StaticCall.region ⟨index, first, last-first, acl, aclHwSpec⟩) address) :
    first.toNat ≤ address.toNat ∧ address.toNat < last.toNat := by
  obtain ⟨-, hfirst, hlast⟩ := h
  have hends : first+(last-first) = last := by
    rw [BitVec.add_comm, BitVec.sub_add_cancel]
  simp only [StaticCall.region, hends, BitVec.le_def] at hfirst hlast
  have hpred : (last-1).toNat = last.toNat-1 :=
    AlignedWords.toNat_pred fun hzero => by simp [hzero] at hpos
  omega

/-- No static region has an address of the boxes. -/
theorem static_outside (h : Placed u sym g) (hin : InBoxes u address) {call : StaticCall}
    (hcall : call ∈ staticCalls sym) : ¬InRegion call.region address := by
  obtain ⟨hlow, hhigh⟩ := hin
  have hentry := h.entryPoints
  have hentryEnd := h.entryPointsEnd
  have hflashEnd := h.flashEnd
  have hflash := h.flash
  have hpageEnd := h.pageEnd
  have hsramEnd := h.sramEnd
  intro hregion
  simp only [staticCalls, List.mem_cons, List.not_mem_nil, or_false] at hcall
  rcases hcall with rfl | rfl | rfl | rfl
  · have := between_of_inRegion (by omega) hregion
    omega
  · have := between_of_inRegion (by omega) hregion
    omega
  · have := between_of_inRegion (by omega) hregion
    omega
  · have := between_of_inRegion (by omega) hregion
    omega

/-- The unit matches the bytes of the region of a call. -/
theorem covers_static {call : StaticCall} (h : call.Aligned) :
    covers (programmed call.region) address = true ↔ InRegion call.region address := by
  have htranslate := @translate_aligned call.start call.size call.acl call.aclHwSpec h.1 h.2
  obtain ⟨hstart, hends, hconfig⟩ := vmpuRegionTranslateAcl_spec htranslate
  exact SauIsolation.covers_of_holds (holds_programmed hstart hends hconfig)

/-- No page has an address of the boxes. -/
theorem page_outside (h : Placed u sym g) (hg : KinetisDescriptors.Aligned g)
    (hin : InBoxes u address) {page : ℕ} (hpage : page < g.countTotal) :
    ¬KinetisDescriptors.InPage g page address := by
  rw [KinetisDescriptors.InPage, hg.pageOrigin_eq hpage, ← KinetisDescriptors.pageStart_succ]
  obtain ⟨hlow, hhigh⟩ := hin
  have hend := hg.wellFormed.heapEnd_eq
  have hlast := @KinetisDescriptors.pageStart_mono g (page+1) g.countTotal hpage
  have hfirst := @KinetisDescriptors.pageStart_mono g 0 page (Nat.zero_le _)
  have hzero : KinetisDescriptors.pageStart g 0 = g.heapStart := by
    simp [KinetisDescriptors.pageStart]
  have htotal : KinetisDescriptors.pageStart g g.countTotal = g.heapEnd := by
    rw [KinetisDescriptors.pageStart, hend]
  have hpages := h.pages
  omega

/-- A region that is that of a part of memory has its bytes. -/
theorem inSpan_of_inRegion {span : Span} {region : MpuRegion} (h : SpanRegion span region)
    (hends : span.ends < 2^32) (hpos : 0 < span.start) (hin : InRegion region address) :
    span.start ≤ address.toNat ∧ address.toNat < span.ends := by
  obtain ⟨-, hfirst, hlast⟩ := hin
  rw [h.1, BitVec.le_def, BitVec.toNat_ofNat] at hfirst
  unfold Span.ends at hends ⊢
  have hsum : (BitVec.ofNat 32 span.start+BitVec.ofNat 32 span.size).toNat =
      span.start+span.size := by
    rw [BitVec.toNat_add, BitVec.toNat_ofNat, BitVec.toNat_ofNat]
    omega
  rw [h.2, BitVec.le_def, AlignedWords.toNat_pred ?_, hsum] at hlast
  · omega
  · intro hzero
    rw [hzero] at hsum
    change 0 = _ at hsum
    omega

end Windows

/-- A boot that has registered a number of boxes. -/
structure Booted (asserts : Bool) (u : UvisorConfig) (sys : Virq.Platform) (psp : ℕ)
    (sym : PublicSymbols) (order : ℕ → ℕ) (n : ℕ) (c : Config) (regs : ℕ → Option Registration)
    (t : BandedMemory.State (Config × Virq.State)) : Prop where
  /-- The static regions have been set up. -/
  arch : ∃ uninitialised registers registers' c₀, NoRegions c₀ ∧
    vmpuArchInit sym uninitialised (registers, c₀) = some (registers', c)
  /-- Then the boxes have been registered. -/
  boxes : ∃ virq, registerBoxes (bootDriver asserts u sys) u psp order ⟨0, c, virq⟩ n =
    some (regs, t)

section Isolation

variable {asserts : Bool} {u : UvisorConfig} {sys : Virq.Platform} {psp n : ℕ}
  {sym : PublicSymbols} {order : ℕ → ℕ} {c : Config} {regs : ℕ → Option Registration}
  {t : BandedMemory.State (Config × Virq.State)} {g : Geometry} {r : Run ArmSau.State}

theorem Booted.noRegions (h : Booted asserts u sys psp sym order n c regs t)
    (haligned : sym.Aligned) : NoRegions c := by
  obtain ⟨uninitialised, registers, registers', c₀, hnone, harch⟩ := h.arch
  obtain ⟨-, hframe, -⟩ := vmpuArchInit_spec haligned harch
  exact ⟨hframe.count.trans hnone.count, fun i => hframe.table ▸ hnone.table i,
    fun b => hframe.slices ▸ hnone.slices b⟩

theorem Booted.asked (h : Booted asserts u sys psp sym order n c regs t)
    (haligned : sym.Aligned) {b : BoxId} {region : MpuRegion}
    (hmem : region ∈ t.table.1.boxRegions b) :
    ∃ reg, regs b.val = some reg ∧ Asked u b.val reg region := by
  obtain ⟨virq, hboxes⟩ := h.boxes
  exact (boxRegions_asked (h.noRegions haligned) hboxes).2.2 b region hmem

/-- The static regions and the regions of the boxes after a boot. -/
def bootConfig (h : Booted asserts u sys psp sym order n c regs t) (haligned : sym.Aligned) :
    SauIsolation.Config where
  static := c.unit.sau.regions
  regions := t.table.1.boxRegions
  translated b region hmem := by
    obtain ⟨reg, -, hzero | ⟨-, -, start, size, acl, rounded, hregion⟩ | ⟨item, -, -, rounded,
      hregion⟩⟩ := h.asked haligned hmem
    · exact .inl hzero
    · exact .inr ⟨start, size, acl, 0, rounded, hregion⟩
    · exact .inr ⟨_, _, _, 0, rounded, hregion⟩

/-- An item of the access control list of a box opens an address. -/
def ItemOpens (regs : ℕ → Option Registration) (box : BoxId) (address : Word) : Prop :=
  ∃ reg item region, regs box.val = some reg ∧ item ∈ reg.acls ∧ ItemRegion item region ∧
    InRegion region address

/-- A region that has an address in the memory of another box has been asked for
by an item of an access control list. -/
theorem itemOpens_of_region (h : Booted asserts u sys psp sym order n c regs t)
    (hplaced : Placed u sym g) (hbanded : Banded u regs n) {box : BoxId} {reg : Registration}
    {span : Span} {address : Word} (hbox : box ≠ 0) (hreg : regs box.val = some reg)
    (hspan : span ∈ BandedLayout.boxRegions u reg) (hlow : span.start ≤ address.toNat)
    (hhigh : address.toNat < span.ends) {b : BoxId} (hne : b ≠ box) {region : MpuRegion}
    (hmem : region ∈ t.table.1.boxRegions b) (hin : InRegion region address) :
    ItemOpens regs b address := by
  obtain ⟨virq, hboxes⟩ := h.boxes
  obtain ⟨other, hother, hzero | ⟨hb, ⟨found, hfound, hregion⟩, -⟩ | ⟨item, hitem, hregion⟩⟩ :=
    h.asked hplaced.aligned hmem
  · rw [hzero] at hin
    exact absurd hin.1 (by decide)
  · have hval : ∀ {b : BoxId}, b ≠ 0 → 1 ≤ b.val := fun hb =>
      Nat.one_le_iff_ne_zero.mpr fun hzero => hb (Fin.ext hzero)
    have hbRange : 1 ≤ b.val ∧ b.val < n :=
      ⟨Nat.one_le_iff_ne_zero.mpr hb, lt_of_registered hboxes hother⟩
    have hboxRange : 1 ≤ box.val ∧ box.val < n := ⟨hval hbox, lt_of_registered hboxes hreg⟩
    have hsep := separate_of_banded hbanded hbRange hboxRange (fun heq => hne (Fin.ext heq))
      hother hreg hfound hspan
    obtain ⟨hstart, hends⟩ := hbanded.inside found
      (mem_secureRegions hbRange.1 hbRange.2 hother hfound)
    have hentry := hplaced.entryPoints
    have hentryEnd := hplaced.entryPointsEnd
    have hflashEnd := hplaced.flashEnd
    have hflash := hplaced.flash
    have hboxesEnd := hplaced.boxes
    have hbytes := inSpan_of_inRegion hregion (by omega) (by omega) hin
    unfold Separate Apart at hsep
    omega
  · exact ⟨other, item, region, hother, hitem, hregion, hin⟩

end Isolation

/-! ## Two secure boxes -/

section Device

open BoxAgreement (threeConfigs)
open BoxPlacement (threeBoxes noOwners)

/-- Entry points in flash, and public memory behind the pages. -/
def bootSymbols : PublicSymbols := ⟨0, 0x100000, 0x4000, 0x4100, 0x20007000, 0x20010000⟩

/-- Four pages behind the boxes. -/
def bootPages : Geometry := layout .armv8m 0x20007000 0x20006000 1024

theorem bootSymbols_placed : Placed (threeConfigs 64 4096) bootSymbols bootPages where
  aligned := ⟨rfl, rfl, rfl, rfl, rfl, rfl⟩
  entryPoints := by decide
  entryPointsEnd := by decide
  flashEnd := by decide
  flash := by decide
  pageEnd := by decide
  sramEnd := by decide
  pages := .inr (by decide)
  boxes := by decide

/-- The registers and the unit before the boot. -/
def resetUnit : Registers × Config := (⟨0, 0, 8, 0⟩, unprogrammed.config)

/-- The unit with the static regions. -/
def archConfig : Config :=
  ((vmpuArchInit bootSymbols (fun _ => ⟨0, 0, 0, 0⟩) resetUnit).map Prod.snd).getD resetUnit.2

/-- The boxes that are registered then. -/
def bootBoxes : (ℕ → Option Registration) × BandedMemory.State (Config × Virq.State) :=
  (registerBoxes (bootDriver false (threeConfigs 64 4096) threeBoxes) (threeConfigs 64 4096) 0
    (fun i => i) ⟨0, archConfig, noOwners⟩ 3).getD (fun _ => none, ⟨0, archConfig, noOwners⟩)

theorem threeConfigs_booted :
    Booted false (threeConfigs 64 4096) threeBoxes 0 bootSymbols (fun i => i) 3 archConfig
      bootBoxes.1 bootBoxes.2 where
  arch := by
    have harch : (vmpuArchInit bootSymbols (fun _ => ⟨0, 0, 0, 0⟩) resetUnit).isSome := by decide
    obtain ⟨⟨registers, c⟩, hc⟩ := Option.isSome_iff_exists.mp harch
    refine ⟨_, _, registers, _, ⟨rfl, fun _ => rfl, fun _ => rfl⟩, hc.trans ?_⟩
    rw [archConfig, hc]
    rfl
  boxes := by
    have hboxes : (registerBoxes (bootDriver false (threeConfigs 64 4096) threeBoxes)
        (threeConfigs 64 4096) 0 (fun i => i) ⟨0, archConfig, noOwners⟩ 3).isSome := by
      decide +kernel
    obtain ⟨pair, hpair⟩ := Option.isSome_iff_exists.mp hboxes
    refine ⟨noOwners, ?_⟩
    rw [bootBoxes, hpair]
    rfl

/-- The unit when the page heap has been initialized. -/
def bootRun : Run ArmSau.State := ⟨{archConfig.unit with alloc := booted.alloc}, fun _ => none⟩

/-- The regions that the boot has set up. -/
def bootedRegions : SauIsolation.Config :=
  bootConfig threeConfigs_booted bootSymbols_placed.aligned

theorem bootRun_initial :
    Initial (SauIsolation.protection bootedRegions bootPages) bootPages .armv8m bootRun where
  good := ⟨by decide +kernel, fun _ _ => rfl⟩
  boots := ⟨smallDevice, 0x20006000, 0x20007000, 0x400, 1024, booted.alloc, rfl⟩
  holder := rfl
  opens w hw := by
    obtain ⟨i, hlow, hhigh, rfl, henabled⟩ := hw
    have hdisabled : ∀ i : Fin regionsMax, regionsStatic ≤ i.val →
        regionEnabled (archConfig.unit.sau.regions i.val).rlar = false := by decide +kernel
    exact absurd ((hdisabled ⟨i, hhigh⟩ hlow).symm.trans henabled) (by decide)

end Device

end Uvisor.SauBoot
