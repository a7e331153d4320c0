import Mathlib.Data.List.Find
import Uvisor.AlignedWords
import Uvisor.KinetisMpu
import Uvisor.SauBuffers
import Uvisor.SauPriority

/-!
# Configurations of the security attribution unit

Static regions are set at boot, and the regions of the boxes are added to a
table of which each box has a slice. The end of a region is exclusive in the
table and inclusive in the unit, and the check of a buffer takes the limit of
the unit as exclusive again. A buffer that ends at the last byte of a static
region is therefore refused, while one that ends at the last byte of a region
of a box is not. A missing result means that the system halts.
-/

namespace Uvisor.SauConfiguration

open PageAllocator ArmSau SauBuffers SauPriority Execution
open AlignedWords (and_not_of_and_eq_zero toNat_and_not_low)
open ArmMpu (Word MpuRegion)
open KinetisMpu (taclUacl roundedSize)

/-! ## Programming -/

/-- SAU_ACL_COUNT. -/
def sauAclCount : ℕ := 64

/-- Access rights of the unit. Any access by the user enables the region. -/
def vmpuMapAcl (acl : Word) : Word := if acl &&& taclUacl ≠ 0 then sauRlarEnable else 0

/-- A region with the given access rights and its rounded size, if its start is
aligned. -/
def vmpuRegionTranslateAcl (start size acl aclHwSpec : Word) : Option (MpuRegion × Word) :=
  (roundedSize size acl).bind fun size =>
    if start % 32 ≠ 0 then none
    else some (⟨start, start+size, vmpuMapAcl acl ||| (aclHwSpec &&& sauRlarNsc), acl⟩, size)

/-- The regions of one box in the table. -/
structure MpuRegionSlice where
  /-- Index of the first region, once there is one. -/
  regions : Option ℕ
  /-- Number of regions. -/
  count : ℕ

/-- The unit and the regions of the boxes. -/
structure Config where
  /-- Variables of the memory protection. -/
  unit : ArmSau.State
  /-- g_mpu_region_count. -/
  mpuRegionCount : ℕ
  /-- g_mpu_region. -/
  mpuRegion : ℕ → MpuRegion
  /-- g_mpu_box_region. -/
  mpuBoxRegion : BoxId → MpuRegionSlice

/-- Set a static region, and report its rounded size. When the access rights
cannot be translated, the region has what was on the stack. -/
def vmpuMpuSetStaticAcl (index : ℕ) (start size acl aclHwSpec : Word) (uninitialised : MpuRegion)
    (c : Config) : Option (Word × Config) :=
  if regionsStatic ≤ index then none
  else
    let translated := vmpuRegionTranslateAcl start size acl aclHwSpec
    let region := (translated.map Prod.fst).getD uninitialised
    some ((translated.map Prod.snd).getD 0, {c with unit := vmpuSauAddRegion region index 255 c.unit})

/-- Add a region to the slice of a box, and report its rounded size. When the
access rights cannot be translated, the entry stays as it is. -/
def vmpuRegionAddStaticAcl (boxCount : ℕ) (boxId : BoxId) (start size acl aclHwSpec : Word)
    (c : Config) : Option (Word × Config) :=
  if sauAclCount ≤ c.mpuRegionCount then none
  else if boxCount ≤ boxId.val then none
  else
    let box := c.mpuBoxRegion boxId
    let regions := box.regions.getD c.mpuRegionCount
    let index := regions+box.count
    if (c.mpuRegion index).config ≠ 0 then none
    else
      let translated := vmpuRegionTranslateAcl start size acl aclHwSpec
      let region := (translated.map Prod.fst).getD (c.mpuRegion index)
      some ((translated.map Prod.snd).getD 0,
        { c with
          mpuRegionCount := c.mpuRegionCount+1
          mpuRegion := Function.update c.mpuRegion index region
          mpuBoxRegion := Function.update c.mpuBoxRegion boxId ⟨some regions, box.count+1⟩ })

/-- The entries of the slice of a box. -/
def Config.boxRegions (c : Config) (boxId : BoxId) : List MpuRegion :=
  (List.range (c.mpuBoxRegion boxId).count).map fun i =>
    c.mpuRegion ((c.mpuBoxRegion boxId).regions.getD 0+i)

/-- vmpu_buffer_access_is_ok, with the registers and the table of a
configuration. -/
def Config.bufferAccessIsOk (c : Config) (boxId : BoxId) (addr size : Word) : Bool :=
  (vmpuBufferAccessIsOk c.boxRegions boxId addr size c.unit.sau).1

/-! ## Runs -/

/-- A configuration with what has been asked for. -/
structure Run where
  /-- The configuration. -/
  config : Config
  /-- The region that each static slot was last set to. -/
  static : ℕ → Option MpuRegion
  /-- The regions that have been added for each box, in order. -/
  added : BoxId → List MpuRegion

/-- What happens to the configuration. -/
inductive Call where
  /-- vmpu_mpu_set_static_acl. -/
  | setStaticAcl (index : ℕ) (start size acl aclHwSpec : Word) (uninitialised : MpuRegion)
  /-- vmpu_region_add_static_acl. -/
  | addStaticAcl (boxId : BoxId) (start size acl aclHwSpec : Word)
  /-- vmpu_mpu_invalidate. -/
  | invalidate
  /-- vmpu_mpu_push. -/
  | push (region : MpuRegion) (priority : ℕ)

/-- What a slot of the unit holds, as a region. -/
def heldRegion (held : SauRegion) : MpuRegion :=
  ⟨regionFirst held, regionLast held+1, held.rlar, 0⟩

/-- One call. A static slot that was set without a translation has the region
that its registers hold. -/
def step (boxCount : ℕ) (r : Run) : Call → Option Run
  | .setStaticAcl index start size acl aclHwSpec uninitialised =>
    (vmpuMpuSetStaticAcl index start size acl aclHwSpec uninitialised r.config).map
      fun (_, config) =>
        let translated := (vmpuRegionTranslateAcl start size acl aclHwSpec).map Prod.fst
        let held := heldRegion (config.unit.sau.regions index)
        ⟨config, Function.update r.static index (some (translated.getD held)), r.added⟩
  | .addStaticAcl boxId start size acl aclHwSpec =>
    (vmpuRegionAddStaticAcl boxCount boxId start size acl aclHwSpec r.config).map
      fun (_, config) =>
        let translated := (vmpuRegionTranslateAcl start size acl aclHwSpec).map Prod.fst
        let added := r.added boxId ++ translated.toList
        ⟨config, r.static, Function.update r.added boxId added⟩
  | .invalidate => some {r with config.unit := vmpuMpuInvalidate r.config.unit}
  | .push region priority =>
    some {r with config.unit := (vmpuMpuPush region priority r.config.unit).2}

/-- Nothing has been programmed yet. -/
structure Initial (r : Run) : Prop where
  /-- The round robin stands at its first slot. -/
  slot : r.config.unit.mpuSlot = regionsStatic
  /-- The static slots are disabled. -/
  disabled : ∀ slot < regionsStatic,
    vmpuRegionIsNs (r.config.unit.sau.regions slot).rlar = false
  /-- No region has been added to the table. -/
  count : r.config.mpuRegionCount = 0
  /-- The table is zero. -/
  table : ∀ i, r.config.mpuRegion i = ⟨0, 0, 0, 0⟩
  /-- No box has a slice. -/
  slices : ∀ boxId, r.config.mpuBoxRegion boxId = ⟨none, 0⟩
  /-- No static slot has been set. -/
  static : ∀ slot, r.static slot = none
  /-- No region has been added for a box. -/
  added : ∀ boxId, r.added boxId = []

/-- Configurations that calls in any order can program. -/
def Programmed (boxCount : ℕ) (r : Run) : Prop :=
  Reachable Initial (step boxCount) (fun _ _ => True) r

/-! ## Statements -/

/-- Address after the last byte of a region, which may be the end of memory. -/
def regionEnd (region : MpuRegion) : ℕ :=
  region.start.toNat+(region.ends-region.start).toNat

/-- A region has all bytes of a buffer. -/
def HasBytes (region : MpuRegion) (start size : ℕ) : Prop :=
  BytesWithin region.start.toNat (regionEnd region) start size

/-- One of the static regions is non-secure and has all bytes of a buffer. -/
def InsideStatic (r : Run) (start size : ℕ) : Prop :=
  ∃ slot < regionsStatic, ∃ region ∈ r.static slot,
    vmpuRegionIsNs region.config = true ∧ HasBytes region start size

/-- The first region added for a box that is non-secure and contains the start
of a buffer has all its bytes. -/
def InsideBox (r : Run) (boxId : BoxId) (start size : ℕ) : Prop :=
  ∃ region ∈ (r.added boxId).find? fun region =>
      region.start.toNat ≤ start && start < regionEnd region && vmpuRegionIsNs region.config,
    HasBytes region start size

/-- A buffer lies inside a static region, or a region of box 0 or of the box. -/
def Inside (r : Run) (boxId : BoxId) (addr size : Word) : Prop :=
  InsideStatic r addr.toNat size.toNat ∨ InsideBox r 0 addr.toNat size.toNat ∨
    InsideBox r boxId addr.toNat size.toNat

/-- One of the static regions is non-secure and has all bytes of a buffer and
the byte after it. -/
def RoomInStatic (r : Run) (start size : ℕ) : Prop :=
  ∃ slot < regionsStatic, ∃ region ∈ r.static slot, vmpuRegionIsNs region.config = true ∧
    region.start.toNat ≤ start ∧ start+size ≤ (region.ends-1).toNat

/-- The first entry in the slice of a box whose range of words has the start of
a buffer is non-secure and has all its bytes. -/
def RoomInSlice (c : Config) (boxId : BoxId) (start : Word) (size : ℕ) : Prop :=
  ∃ region ∈ vmpuRegionFindForAddress c.boxRegions boxId start,
    vmpuRegionIsNs region.config = true ∧ start.toNat+size ≤ region.ends.toNat

/-- At its non-secure address, a buffer does not end at the last byte of its
static region, or lies in an entry of box 0 or of the box. -/
def Room (r : Run) (boxId : BoxId) (addr size : Word) : Prop :=
  RoomInStatic r (nsAlias addr).toNat size.toNat ∨
    RoomInSlice r.config 0 (nsAlias addr) size.toNat ∨
    RoomInSlice r.config boxId (nsAlias addr) size.toNat

/-! ## Registers -/

section Registers

variable {region : MpuRegion} {start size acl aclHwSpec rounded : Word}

/-- A slot of the unit holds a region. -/
structure Holds (held : SauRegion) (region : MpuRegion) : Prop where
  /-- Both are non-secure, or neither is. -/
  ns : vmpuRegionIsNs held.rlar = vmpuRegionIsNs region.config
  /-- The base of the slot is the start of the region. -/
  first : regionFirst held = region.start
  /-- The limit of the slot is the last address of the region. -/
  last : regionLast held = region.ends-1

theorem toNat_and_mask (value : Word) : (value &&& 0x1F).toNat = value.toNat%32 := by
  rw [BitVec.toNat_and]
  exact Nat.and_two_pow_sub_one_eq_mod value.toNat 5

theorem and_mask_eq_zero_iff {value : Word} : value &&& 0x1F = 0 ↔ value.toNat%32 = 0 := by
  rw [← toNat_and_mask]
  exact ⟨fun h => by rw [h]; rfl, fun h => BitVec.eq_of_toNat_eq h⟩

theorem mod_eq_zero_iff (value : Word) : value%32 = 0 ↔ value.toNat%32 = 0 := by
  rw [← BitVec.toNat_inj, BitVec.toNat_umod]
  rfl

theorem regionRoundDown_toNat (size : Word) :
    (KinetisMpu.regionRoundDown size).toNat = size.toNat/32*32 := by
  have hmask : (0x1F : Word).toNat = 2^5-1 := rfl
  exact toNat_and_not_low hmask

theorem aligned_regionRoundDown (size : Word) : (KinetisMpu.regionRoundDown size).toNat%32 = 0 := by
  rw [regionRoundDown_toNat]
  omega

theorem aligned_roundedSize (h : roundedSize size acl = some rounded) : rounded.toNat%32 = 0 := by
  unfold roundedSize at h
  split_ifs at h with hfull hdown hup
  · obtain rfl := Option.some.inj h
    exact (mod_eq_zero_iff size).mp hfull
  · obtain rfl := Option.some.inj h
    exact aligned_regionRoundDown size
  · obtain rfl := Option.some.inj h
    exact aligned_regionRoundDown (size+31)

/-- A region that has been translated is aligned and has no attributes but the
two that the unit knows. -/
theorem vmpuRegionTranslateAcl_spec
    (h : vmpuRegionTranslateAcl start size acl aclHwSpec = some (region, rounded)) :
    region.start.toNat%32 = 0 ∧ region.ends.toNat%32 = 0 ∧ region.config &&& ~~~0x3 = 0 := by
  obtain ⟨full, hfull, h⟩ := Option.bind_eq_some_iff.mp h
  split_ifs at h with hstart
  obtain ⟨rfl, rfl⟩ := Prod.mk.inj (Option.some.inj h)
  have hstart' := (mod_eq_zero_iff start).mp (not_not.mp hstart)
  have hfull' := aligned_roundedSize hfull
  refine ⟨hstart', ?_, ?_⟩
  · change (start+full).toNat%32 = 0
    rw [BitVec.toNat_add]
    omega
  · change (vmpuMapAcl acl ||| (aclHwSpec &&& sauRlarNsc)) &&& ~~~0x3 = 0
    have hns : aclHwSpec &&& sauRlarNsc &&& ~~~0x3 = 0 := by
      rw [BitVec.and_assoc, show sauRlarNsc &&& ~~~0x3 = 0 from by decide]
      exact BitVec.and_zero
    have hmap : vmpuMapAcl acl &&& ~~~0x3 = 0 := by
      unfold vmpuMapAcl
      split_ifs <;> decide
    rw [BitVec.and_or_distrib_right, hns, hmap, BitVec.or_self]

/-- The five low bits of the last address of an aligned region are set. -/
theorem pred_and_mask {ends : Word} (h : ends.toNat%32 = 0) : (ends-1) &&& 0x1F = 0x1F := by
  have hlow : (ends-1).toNat%32 = 31 := by
    rw [BitVec.toNat_sub]
    change (2^32-1+ends.toNat)%2^32%32 = 31
    omega
  exact BitVec.eq_of_toNat_eq ((toNat_and_mask _).trans hlow)

/-- A limit that is written is read back as the last address. -/
theorem limit_read_back {config last : Word} (hconfig : config &&& ~~~0x3 = 0)
    (hlast : last &&& 0x1F = 0x1F) :
    (config ||| last &&& ~~~0x1F) &&& ~~~0x1C ||| 0x1F = last := by
  refine BitVec.eq_of_getLsbD_eq fun i hi => ?_
  have hconfig' := congrArg (fun w : Word => w.getLsbD i) hconfig
  have hlast' := congrArg (fun w : Word => w.getLsbD i) hlast
  have hunused : ((0x1C : Word) &&& 0x1F).getLsbD i = (0x1C : Word).getLsbD i := rfl
  have hattributes : ((0x3 : Word) &&& 0x1F).getLsbD i = (0x3 : Word).getLsbD i := rfl
  simp only [BitVec.getLsbD_or, BitVec.getLsbD_and, BitVec.getLsbD_not, decide_eq_true hi,
    Bool.true_and, BitVec.ofNat_eq_ofNat, BitVec.getLsbD_zero] at *
  cases hmask : (0x1F#32).getLsbD i
  · -- above the attributes only the limit has bits
    simp only [hmask, Bool.and_false] at hunused hattributes
    simp only [← hattributes, Bool.not_false, Bool.and_true] at hconfig'
    simp only [← hunused, hconfig', Bool.false_or, Bool.not_false, Bool.and_true, Bool.or_false]
  · simp only [hmask, Bool.and_true] at hlast'
    rw [hlast', Bool.or_true]

/-- An attribute that is written is read back. -/
theorem flag_read_back {config last flag : Word} (hmask : flag &&& 0x1F = flag)
    (hunused : flag &&& 0x1C = 0) :
    (config ||| last &&& ~~~0x1F) &&& ~~~0x1C &&& flag = config &&& flag := by
  have hlast : last &&& ~~~0x1F &&& flag = 0 := by
    rw [← hmask, BitVec.and_assoc, ← BitVec.and_assoc (~~~0x1F), BitVec.and_comm (~~~0x1F)]
    rw [BitVec.and_assoc flag, show ~~~(0x1F : Word) &&& 0x1F = 0 from by decide]
    simp
  rw [BitVec.and_assoc, BitVec.and_comm (~~~0x1C), and_not_of_and_eq_zero hunused]
  rw [BitVec.and_or_distrib_right, hlast]
  exact BitVec.or_zero

/-- A region that has been translated is held by the slot it is loaded into. -/
theorem holds_programmed (hstart : region.start.toNat%32 = 0) (hends : region.ends.toNat%32 = 0)
    (hconfig : region.config &&& ~~~0x3 = 0) : Holds (programmed region) region where
  ns := by
    have hflag : ∀ flag : Word, flag &&& 0x1F = flag →
        flag &&& 0x1C = 0 →
        (programmed region).rlar &&& flag = region.config &&& flag :=
      fun flag hmask hunused => flag_read_back hmask hunused
    rw [vmpuRegionIsNs, vmpuRegionIsNs, hflag sauRlarNsc (by decide) (by decide),
      hflag sauRlarEnable (by decide) (by decide)]
  first := by
    have hbase := and_not_of_and_eq_zero (and_mask_eq_zero_iff.mpr hstart)
    change region.start &&& ~~~0x1F &&& ~~~0x1F = region.start
    rw [hbase, hbase]
  last := limit_read_back hconfig (pred_and_mask hends)

/-- A slot holds what is read from it. -/
theorem holds_heldRegion (held : SauRegion) : Holds held (heldRegion held) where
  ns := rfl
  first := rfl
  last := (BitVec.add_sub_cancel _ _).symm

end Registers

/-! ## The invariant -/

section Invariant

variable {boxCount : ℕ} {r r' : Run} {call : Call}

/-- A static slot holds the region that it was set to, or is disabled. -/
def SlotHolds (static : Option MpuRegion) (held : SauRegion) : Prop :=
  match static with
  | none => vmpuRegionIsNs held.rlar = false
  | some region => Holds held region

/-- The static slots hold what has been asked for. -/
structure Inv (r : Run) : Prop where
  /-- The round robin is past the static slots. -/
  slot : regionsStatic ≤ r.config.unit.mpuSlot ∧ r.config.unit.mpuSlot < regionsMax
  /-- Every static slot holds its region. -/
  holds : ∀ slot < regionsStatic, SlotHolds (r.static slot) (r.config.unit.sau.regions slot)

theorem inv_initial (h : Initial r) : Inv r where
  slot := by
    rw [h.slot]
    decide
  holds slot hslot := by
    rw [h.static slot]
    exact h.disabled slot hslot

/-- What a call for a static slot does. -/
theorem setStaticAcl_step {index : ℕ} {start size acl aclHwSpec : Word} {uninitialised : MpuRegion}
    (hs : step boxCount r (.setStaticAcl index start size acl aclHwSpec uninitialised) = some r') :
    let translated := (vmpuRegionTranslateAcl start size acl aclHwSpec).map Prod.fst
    let unit := vmpuSauAddRegion (translated.getD uninitialised) index 255 r.config.unit
    let held := heldRegion (unit.sau.regions index)
    r' = ⟨{r.config with unit := unit},
      Function.update r.static index (some (translated.getD held)), r.added⟩ := by
  obtain ⟨⟨rounded, config⟩, hset, rfl⟩ := Option.map_eq_some_iff.mp hs
  unfold vmpuMpuSetStaticAcl at hset
  split_ifs at hset
  obtain ⟨-, rfl⟩ := Prod.mk.inj (Option.some.inj hset)
  rfl

/-- What a call for a region of a box does. -/
theorem addStaticAcl_step {boxId : BoxId} {start size acl aclHwSpec : Word}
    (hs : step boxCount r (.addStaticAcl boxId start size acl aclHwSpec) = some r') :
    let translated := (vmpuRegionTranslateAcl start size acl aclHwSpec).map Prod.fst
    let box := r.config.mpuBoxRegion boxId
    let regions := box.regions.getD r.config.mpuRegionCount
    let index := regions+box.count
    r.config.mpuRegionCount < sauAclCount ∧
      r' = ⟨⟨r.config.unit, r.config.mpuRegionCount+1,
        Function.update r.config.mpuRegion index (translated.getD (r.config.mpuRegion index)),
        Function.update r.config.mpuBoxRegion boxId ⟨some regions, box.count+1⟩⟩, r.static,
        Function.update r.added boxId (r.added boxId ++ translated.toList)⟩ := by
  obtain ⟨⟨rounded, config⟩, hadd, rfl⟩ := Option.map_eq_some_iff.mp hs
  unfold vmpuRegionAddStaticAcl at hadd
  split_ifs at hadd with hfull
  dsimp only at hadd
  split_ifs at hadd
  obtain ⟨-, rfl⟩ := Prod.mk.inj (Option.some.inj hadd)
  exact ⟨not_le.mp hfull, rfl⟩

theorem Inv.setStaticAcl (h : Inv r) {index : ℕ} {start size acl aclHwSpec : Word}
    {uninitialised : MpuRegion}
    (hs : step boxCount r (.setStaticAcl index start size acl aclHwSpec uninitialised) = some r') :
    Inv r' := by
  obtain rfl := setStaticAcl_step hs
  refine ⟨h.slot, fun slot hslot => ?_⟩
  dsimp only
  rw [vmpuSauAddRegion_regions]
  by_cases hsame : slot = index
  · subst hsame
    simp only [Function.update_self]
    cases htranslate : vmpuRegionTranslateAcl start size acl aclHwSpec with
    | none => exact holds_heldRegion _
    | some translated =>
      obtain ⟨hstart, hends, hconfig⟩ := vmpuRegionTranslateAcl_spec htranslate
      exact holds_programmed hstart hends hconfig
  · simp only [Function.update_of_ne hsame]
    exact h.holds slot hslot

theorem invalidateSlot_regions (s : ArmSau.State) {i slot : ℕ} (hne : i ≠ slot) :
    (invalidateSlot s slot).sau.regions i = s.sau.regions i := by
  simp [invalidateSlot, Sau.writeRnr, Sau.writeRbar, Sau.writeRlar, hne]

/-- Other slots than the static ones are disabled. -/
theorem vmpuMpuInvalidate_regions (s : ArmSau.State) {i : ℕ} (hi : i < regionsStatic) :
    (vmpuMpuInvalidate s).sau.regions i = s.sau.regions i := by
  have hfold : ∀ (slots : List ℕ) (s : ArmSau.State), (∀ slot ∈ slots, i ≠ slot) →
      (slots.foldl invalidateSlot s).sau.regions i = s.sau.regions i := by
    intro slots
    induction slots with
    | nil => exact fun _ _ => rfl
    | cons slot slots ih =>
      intro s hne
      rw [List.foldl_cons, ih _ fun other hother => hne other (List.mem_cons_of_mem _ hother)]
      exact invalidateSlot_regions s (hne slot List.mem_cons_self)
  refine hfold _ _ fun slot hslot => ?_
  have := (List.mem_range'_1.mp hslot).1
  omega

theorem Inv.step (h : Inv r) (hs : step boxCount r call = some r') : Inv r' := by
  cases call with
  | setStaticAcl index start size acl aclHwSpec uninitialised => exact h.setStaticAcl hs
  | addStaticAcl boxId start size acl aclHwSpec =>
    obtain ⟨-, rfl⟩ := addStaticAcl_step hs
    exact ⟨h.slot, h.holds⟩
  | invalidate =>
    obtain rfl := Option.some.inj hs
    refine ⟨?_, fun slot hslot => ?_⟩
    · change regionsStatic ≤ (vmpuMpuInvalidate r.config.unit).mpuSlot ∧
        (vmpuMpuInvalidate r.config.unit).mpuSlot < regionsMax
      rw [(vmpuMpuInvalidate_spec _).1]
      exact loadedSlot_range 3
    · change SlotHolds (r.static slot) ((vmpuMpuInvalidate r.config.unit).sau.regions slot)
      rw [vmpuMpuInvalidate_regions _ hslot]
      exact h.holds slot hslot
  | push region priority =>
    obtain rfl := Option.some.inj hs
    have hrange := (@pushSlot_cases r.config.unit priority h.slot).1
    refine ⟨?_, fun slot hslot => ?_⟩
    · dsimp only
      rw [vmpuMpuPush_mpuSlot]
      exact hrange
    · dsimp only
      rw [vmpuMpuPush_regions, Function.update_of_ne (by omega)]
      exact h.holds slot hslot

theorem Programmed.inv (h : Programmed boxCount r) : Inv r :=
  Reachable.invariant Inv (fun _ => inv_initial) (fun _ _ _ h _ hs => h.step hs) h

end Invariant

/-! ## Completeness -/

section Completeness

variable {boxCount : ℕ} {r : Run} {boxId : BoxId} {addr start size : Word}

/-- The search of the static regions misses a buffer that ends with the last
byte of a region. -/
theorem staticHolds_iff (h : Inv r) (hsize : size ≠ 0) (hroom : start.toNat+size.toNat ≤ 2^32) :
    StaticHolds r.config.unit.sau start (start+size-1) ↔
      RoomInStatic r start.toNat size.toNat := by
  have hpos := toNat_pos hsize
  refine exists_congr fun slot => and_congr_right fun hslot => ?_
  have hholds := h.holds slot hslot
  rw [valueInRange_iff, valueInRange_iff, lastByte_toNat hsize hroom]
  cases hstatic : r.static slot with
  | none =>
    rw [hstatic] at hholds
    refine iff_of_false (fun hns => ?_) (fun hnone => ?_)
    · rw [SlotHolds.eq_def] at hholds
      exact absurd (hns.1.symm.trans hholds) (by decide)
    · obtain ⟨region, hregion, -⟩ := hnone
      cases hregion
  | some region =>
    rw [hstatic] at hholds
    obtain ⟨hns, hfirst, hlast⟩ : Holds _ _ := hholds
    rw [hns, hfirst, hlast]
    constructor
    · rintro ⟨hns, hstart, hend⟩
      exact ⟨region, rfl, hns, hstart.1, by omega⟩
    · rintro ⟨_, ⟨⟩, hns, hstart, hend⟩
      exact ⟨hns, ⟨hstart, by omega⟩, by omega, by omega⟩

/-- The regions of a box are searched up to their last byte. -/
theorem ownRegionIsOk_iff (hsize : size ≠ 0) (hroom : start.toNat+size.toNat ≤ 2^32) :
    ownRegionIsOk r.config.boxRegions boxId start (start+size-1) = true ↔
      RoomInSlice r.config boxId start size.toNat := by
  have hpos := toNat_pos hsize
  have hlast := lastByte_toNat hsize hroom
  have horder : ¬start+size-1 < start := by
    rw [BitVec.lt_def, hlast]
    omega
  rw [ownRegionIsOk, if_neg horder, RoomInSlice]
  cases hfind : vmpuRegionFindForAddress r.config.boxRegions boxId start with
  | none => simp
  | some region =>
    have hfound := List.find?_some hfind
    rw [Bool.and_eq_true, decide_eq_true_eq, decide_eq_true_eq, BitVec.le_def] at hfound
    simp only [Bool.and_eq_true, valueInRange_iff, hlast, Option.mem_some_iff, exists_eq_left']
    constructor
    · rintro ⟨hrange, hns⟩
      exact ⟨hns, by omega⟩
    · rintro ⟨hns, hend⟩
      exact ⟨⟨by omega, by omega⟩, hns⟩

theorem nsAlias_le (addr : Word) : (nsAlias addr).toNat ≤ addr.toNat := by
  rw [nsAlias, BitVec.toNat_and]
  exact Nat.and_le_left

/-- What the check accepts in a configuration that calls have programmed. -/
theorem bufferAccessIsOk_iff (h : Programmed boxCount r) (hsize : size ≠ 0)
    (hroom : addr.toNat+size.toNat ≤ 2^32) :
    r.config.bufferAccessIsOk boxId addr size = true ↔ Room r boxId addr size := by
  have halias : (nsAlias addr).toNat+size.toNat ≤ 2^32 := by
    have := nsAlias_le addr
    omega
  rw [Config.bufferAccessIsOk, vmpuBufferAccessIsOk_iff, staticHolds_iff h.inv hsize halias,
    ownRegionIsOk_iff hsize halias, ownRegionIsOk_iff hsize halias, Room]

/-- Nothing is programmed yet. -/
def unprogrammed : Run :=
  ⟨⟨⟨0, ⟨0, fun _ => ⟨0, 0⟩⟩, regionsStatic, fun _ => 0,
    ⟨fun _ _ => 0, fun _ => 0, 0, fun _ => 0, fun _ => 0⟩⟩, 0, fun _ => ⟨0, 0, 0, 0⟩,
    fun _ => ⟨none, 0⟩⟩, fun _ => none, fun _ => []⟩

/-- Public memory of 64 KiB is unlocked, and box 1 gets a region of 256 bytes. -/
def unlockCalls : List Call :=
  [.setStaticAcl 3 0x20010000 0x10000 taclUacl 0 ⟨0, 0, 0, 0⟩,
    .addStaticAcl 1 0x20008000 0x100 taclUacl 0]

/-- What these calls program. -/
def unlockedRun : Run := (exec (step maxBoxes) unlockCalls unprogrammed).getD unprogrammed

theorem unlockedRun_programmed : Programmed maxBoxes unlockedRun := by
  have hdisabled : vmpuRegionIsNs 0 = false := by decide
  have hinitial : Initial unprogrammed :=
    ⟨rfl, fun _ _ => hdisabled, rfl, fun _ => rfl, fun _ => rfl, fun _ => rfl, fun _ => rfl⟩
  have hexec : exec (step maxBoxes) unlockCalls unprogrammed = some unlockedRun := rfl
  exact exec_reachable (.start hinitial) hexec

end Completeness

/-! ## Slices without gaps -/

section Slices

variable {boxCount : ℕ} {r r' : Run} {call : Call} {boxId : BoxId}

/-- The regions of a box are added one after the other, with none of another
box in between. -/
def Contiguous (r : Run) : Call → Prop
  | .addStaticAcl boxId _ _ _ _ =>
    ∀ base ∈ (r.config.mpuBoxRegion boxId).regions,
      base+(r.config.mpuBoxRegion boxId).count = r.config.mpuRegionCount
  | _ => True

/-- A region whose range of words is not empty. -/
def inhabited (region : MpuRegion) : Bool := region.start < region.ends

/-- The slices lie one behind the other in the table, and each of them has what
has been added for its box. -/
structure Tabled (r : Run) : Prop where
  /-- A box without a slice has no entries. -/
  empty : ∀ b, (r.config.mpuBoxRegion b).regions = none → (r.config.mpuBoxRegion b).count = 0
  /-- The slices end before the first free entry. -/
  bound : ∀ b, ∀ base ∈ (r.config.mpuBoxRegion b).regions,
    base+(r.config.mpuBoxRegion b).count ≤ r.config.mpuRegionCount
  /-- The table has no more entries than there is space for. -/
  count : r.config.mpuRegionCount ≤ sauAclCount
  /-- The free entries are zero. -/
  free : ∀ i, r.config.mpuRegionCount ≤ i → r.config.mpuRegion i = ⟨0, 0, 0, 0⟩
  /-- The slices have the regions of their boxes, up to empty ones. -/
  entries : ∀ b, (r.config.boxRegions b).filter inhabited = (r.added b).filter inhabited

theorem tabled_initial (h : Initial r) : Tabled r where
  empty b _ := by rw [h.slices b]
  bound b base hbase := by
    rw [h.slices b] at hbase
    cases hbase
  count := by
    rw [h.count]
    exact Nat.zero_le _
  free i _ := h.table i
  entries b := by
    rw [h.added b, Config.boxRegions, h.slices b]
    rfl

/-- A new entry behind a slice is appended to the regions of its box. -/
theorem boxRegions_append {c c' : Config} {base index count : ℕ} {region : MpuRegion}
    (hbase : count = 0 ∨ (c.mpuBoxRegion boxId).regions = some base)
    (hcount : (c.mpuBoxRegion boxId).count = count) (hindex : base+count = index)
    (hslice : c'.mpuBoxRegion boxId = ⟨some base, count+1⟩)
    (htable : c'.mpuRegion = Function.update c.mpuRegion index region) :
    c'.boxRegions boxId = c.boxRegions boxId ++ [region] := by
  rw [Config.boxRegions, Config.boxRegions, hslice, htable, hcount, List.range_succ, List.map_append]
  congr 1
  · refine List.map_congr_left fun i hi => ?_
    have hi' := List.mem_range.mp hi
    have hregions := hbase.resolve_left (by omega)
    rw [hregions, Option.getD_some, Function.update_of_ne (by omega)]
  · simp [hindex]

/-- The entries of a slice below the written one are kept. -/
theorem boxRegions_below {c c' : Config} {index : ℕ} {region : MpuRegion}
    (hempty : (c.mpuBoxRegion boxId).regions = none → (c.mpuBoxRegion boxId).count = 0)
    (hbound : ∀ base ∈ (c.mpuBoxRegion boxId).regions,
      base+(c.mpuBoxRegion boxId).count ≤ index)
    (hslice : c'.mpuBoxRegion boxId = c.mpuBoxRegion boxId)
    (htable : c'.mpuRegion = Function.update c.mpuRegion index region) :
    c'.boxRegions boxId = c.boxRegions boxId := by
  rw [Config.boxRegions, Config.boxRegions, hslice, htable]
  refine List.map_congr_left fun i hi => Function.update_of_ne ?_ ..
  have hi' := List.mem_range.mp hi
  cases hregions : (c.mpuBoxRegion boxId).regions with
  | none =>
    have := hempty hregions
    omega
  | some base =>
    have := hbound base hregions
    rw [Option.getD_some]
    omega

theorem Tabled.addStaticAcl (h : Tabled r) {start size acl aclHwSpec : Word}
    (ha : Contiguous r (.addStaticAcl boxId start size acl aclHwSpec))
    (hs : step boxCount r (.addStaticAcl boxId start size acl aclHwSpec) = some r') :
    Tabled r' := by
  obtain ⟨hroom, rfl⟩ := addStaticAcl_step hs
  -- the written entry is the first free one
  have hindex : (r.config.mpuBoxRegion boxId).regions.getD r.config.mpuRegionCount+
      (r.config.mpuBoxRegion boxId).count = r.config.mpuRegionCount := by
    cases hregions : (r.config.mpuBoxRegion boxId).regions with
    | none => rw [h.empty boxId hregions, Option.getD_none, Nat.add_zero]
    | some base => exact ha base hregions
  rw [hindex, h.free _ le_rfl]
  refine ⟨fun b hb => ?_, fun b base hbase => ?_, by dsimp only; omega, fun i hi => ?_,
    fun b => ?_⟩
  · by_cases hsame : b = boxId
    · subst hsame
      simp at hb
    · simp only [Function.update_of_ne hsame] at hb ⊢
      exact h.empty b hb
  · by_cases hsame : b = boxId
    · subst hsame
      simp only [Function.update_self, Option.mem_some_iff] at hbase ⊢
      omega
    · simp only [Function.update_of_ne hsame] at hbase ⊢
      have := h.bound b base hbase
      omega
  · dsimp only at hi ⊢
    rw [Function.update_of_ne (by omega)]
    exact h.free i (by omega)
  · by_cases hsame : b = boxId
    · subst hsame
      dsimp only
      rw [boxRegions_append (c := r.config) ?_ rfl hindex (Function.update_self ..) rfl]
      · rw [Function.update_self, List.filter_append, List.filter_append, h.entries b]
        congr 1
        cases (vmpuRegionTranslateAcl start size acl aclHwSpec).map Prod.fst <;> rfl
      · cases hregions : (r.config.mpuBoxRegion b).regions with
        | none => exact .inl (h.empty b hregions)
        | some base => exact .inr rfl
    · dsimp only
      rw [Function.update_of_ne hsame, ← h.entries b]
      exact congrArg _ (boxRegions_below (h.empty b) (h.bound b) (Function.update_of_ne hsame ..) rfl)

/-- The unit and the table are independent of each other. -/
theorem Tabled.withUnit (h : Tabled r) {unit : ArmSau.State}
    (hconfig : r'.config = {r.config with unit := unit}) (hadded : r'.added = r.added) :
    Tabled r' := by
  obtain ⟨config, static, added⟩ := r'
  obtain rfl := hconfig
  obtain rfl := hadded
  exact ⟨h.empty, h.bound, h.count, h.free, h.entries⟩

theorem Tabled.step (h : Tabled r) (ha : Contiguous r call)
    (hs : step boxCount r call = some r') : Tabled r' := by
  cases call with
  | setStaticAcl index start size acl aclHwSpec uninitialised =>
    obtain rfl := setStaticAcl_step hs
    exact h.withUnit rfl rfl
  | addStaticAcl boxId start size acl aclHwSpec => exact h.addStaticAcl ha hs
  | invalidate =>
    obtain rfl := Option.some.inj hs
    exact h.withUnit rfl rfl
  | push region priority =>
    obtain rfl := Option.some.inj hs
    exact h.withUnit rfl rfl

/-- In a run without gaps a box is searched in the regions that have been added
for it. -/
theorem find_boxRegions (h : Reachable Initial (step boxCount) Contiguous r) (address : Word) :
    vmpuRegionFindForAddress r.config.boxRegions boxId address =
      (r.added boxId).find? fun region => region.start ≤ address && address < region.ends := by
  have htabled := Reachable.invariant Tabled (fun _ => tabled_initial)
    (fun _ _ _ h ha hs => h.step ha hs) h
  have hfilter : ∀ regions : List MpuRegion,
      (regions.filter inhabited).find? (fun region =>
          region.start ≤ address && address < region.ends) =
        regions.find? fun region => region.start ≤ address && address < region.ends := by
    intro regions
    rw [List.find?_filter]
    refine congrArg (regions.find? ·) (funext fun region => ?_)
    by_cases hhas : region.start ≤ address ∧ address < region.ends
    · have hlt : region.start < region.ends := BitVec.lt_def.mpr
        (lt_of_le_of_lt (BitVec.le_def.mp hhas.1) (BitVec.lt_def.mp hhas.2))
      simp [hhas, inhabited, hlt]
    · rw [not_and] at hhas
      by_cases hstart : region.start ≤ address
      · simp [hstart, hhas hstart]
      · simp [hstart]
  rw [vmpuRegionFindForAddress, ← hfilter, htabled.entries boxId, hfilter]

/-- A buffer in the first region of a box that contains its start is accepted up
to the last byte of the region, if no region reaches the end of memory. -/
theorem roomInSlice_of_contiguous (h : Reachable Initial (step boxCount) Contiguous r)
    (hends : ∀ region ∈ r.added boxId, regionEnd region < 2^32) {start : Word} {size : ℕ}
    {region : MpuRegion} (hsize : 0 < size)
    (hfind : (r.added boxId).find? (fun region =>
      region.start.toNat ≤ start.toNat && start.toNat < regionEnd region) = some region)
    (hns : vmpuRegionIsNs region.config = true) (hbytes : HasBytes region start.toNat size) :
    RoomInSlice r.config boxId start size := by
  have hend : ∀ region ∈ r.added boxId, regionEnd region = region.ends.toNat := by
    intro region hregion
    have hlt := hends region hregion
    have heq : region.start+(region.ends-region.start) = region.ends := by
      rw [BitVec.add_comm, BitVec.sub_add_cancel]
    rw [← congrArg BitVec.toNat heq, BitVec.toNat_add]
    exact (Nat.mod_eq_of_lt hlt).symm
  refine ⟨region, ?_, hns, ?_⟩
  · rw [find_boxRegions h, Option.mem_def, ← hfind]
    refine List.find?_congr fun region hregion => ?_
    rw [hend region hregion]
    simp [BitVec.le_def, BitVec.lt_def]
  · have hlast := (hbytes (size-1) (by omega)).2
    rw [hend region (List.mem_of_find?_eq_some hfind)] at hlast
    omega

/-- In a run without gaps, what has been added for box 0 or for the box can be
accessed up to its last byte. -/
theorem box_buffer_accepted {b : BoxId} {addr size : Word}
    (h : Reachable Initial (step boxCount) Contiguous r) (hbox : b = 0 ∨ b = boxId)
    (hends : ∀ region ∈ r.added b, regionEnd region < 2^32) (halias : nsAlias addr = addr)
    (hsize : size ≠ 0) (hroom : addr.toNat+size.toNat ≤ 2^32) {region : MpuRegion}
    (hfind : (r.added b).find? (fun region =>
      region.start.toNat ≤ addr.toNat && addr.toNat < regionEnd region) = some region)
    (hns : vmpuRegionIsNs region.config = true)
    (hbytes : HasBytes region addr.toNat size.toNat) :
    r.config.bufferAccessIsOk boxId addr size = true := by
  have hprogrammed : Programmed boxCount r := h.mono fun _ _ _ => trivial
  have hslice := roomInSlice_of_contiguous h hends (toNat_pos hsize) hfind hns hbytes
  rw [bufferAccessIsOk_iff hprogrammed hsize hroom, Room, halias]
  rcases hbox with rfl | rfl
  · exact .inr (.inl hslice)
  · exact .inr (.inr hslice)

end Slices

end Uvisor.SauConfiguration
