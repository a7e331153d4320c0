import Uvisor.BoxMemory
import Uvisor.SauConfiguration

/-!
# The memory of a secure box on ARMv8-M and Kinetis

The stack of a box and its BSS sections have a region each, with sizes that are
rounded up to 32 bytes. A band that belongs to no box follows every region. The
position of the next region is kept between the calls and is never compared
with the end of the memory for secure boxes. A missing result means that the
system halts.
-/

namespace Uvisor.BandedMemory

open ArmMpu (Word MpuRegion tacldefData)
open BoxEnumeration BoxMemory
open KinetisMpu (regionRoundUp taclUacl taclSacl taclUser)

/-! ## Placing the regions of a box -/

/-- UVISOR_STACK_BAND_SIZE. -/
def stackBandSize : Word := 128

/-- What a port offers to vmpu_acl_sram. -/
structure RegionTable (μ : Type) where
  /-- vmpu_region_add_static_acl without a hardware specification: box, start,
  size and access rights. -/
  regionAddStaticAcl : ℕ → Word → Word → Word → μ → Option μ
  /-- The region that was last added for a box. -/
  lastRegion : μ → ℕ → MpuRegion

/-- Variables of the memory protection. -/
structure State (μ : Type) where
  /-- g_box_mem_pos, zero before the first call. -/
  boxMemPos : Word
  /-- The regions of the boxes. -/
  table : μ

section Placing

variable {μ : Type} (table : RegionTable μ)

/-- Where the next region starts. The first one leaves a band. -/
def memPos (bssBoxesStart : ℕ) (boxMemPos : Word) : Word :=
  if boxMemPos = 0 then regionRoundUp (BitVec.ofNat 32 bssBoxesStart)+stackBandSize else boxMemPos

/-- vmpu_acl_sram: start of the BSS and stack pointer. Assertions are compiled
for debugging only. -/
def vmpuAclSram (asserts : Bool) (bssBoxesStart : ℕ) (s : State μ)
    (boxId bssSize stackSize : ℕ) : Option (ℕ × ℕ × State μ) :=
  let boxMemPos := memPos bssBoxesStart s.boxMemPos
  let stackSize := regionRoundUp (BitVec.ofNat 32 (minStack stackSize))
  (table.regionAddStaticAcl boxId boxMemPos stackSize tacldefStack s.table).bind fun t =>
    let boxMemPos := boxMemPos+stackSize
    let stackPointer := boxMemPos
    let boxMemPos := boxMemPos+stackBandSize
    if asserts && bssSize = 0 then none
    else
      let bssSize := regionRoundUp (BitVec.ofNat 32 bssSize)
      let bssStart := boxMemPos
      (table.regionAddStaticAcl boxId boxMemPos bssSize tacldefData t).map fun t =>
        (bssStart.toNat, stackPointer.toNat, ⟨boxMemPos+(bssSize+stackBandSize), t⟩)

/-- The memory protection of a port, whose access control lists may change its
tables. -/
def bandedDriver (asserts : Bool) (u : UvisorConfig)
    (addAcl : ℕ → AclItem → μ → Option μ) : Driver (State μ) where
  aclSram := vmpuAclSram table asserts u.bssBoxesStart
  addAcl := fun s boxId item => (addAcl boxId item s.table).map fun t => {s with table := t}

end Placing

/-! ## ARMv8-M -/

/-- The table of regions on ARMv8-M. -/
def sauTable (boxCount : ℕ) : RegionTable SauConfiguration.Config where
  regionAddStaticAcl := fun boxId start size acl c =>
    if h : boxId < PageAllocator.maxBoxes then
      (SauConfiguration.vmpuRegionAddStaticAcl boxCount ⟨boxId, h⟩ start size acl 0 c).map Prod.snd
    else none
  lastRegion := fun c boxId =>
    if h : boxId < PageAllocator.maxBoxes then
      let box := c.mpuBoxRegion ⟨boxId, h⟩
      c.mpuRegion (box.regions.getD c.mpuRegionCount+box.count-1)
    else ⟨0, 0, 0, 0⟩

/-! ## Kinetis -/

/-- UVISOR_MAX_ACLS. -/
def maxAcls : ℕ := 16

/-- UVISOR_TACL_PERIPHERAL. -/
def taclPeripheral : Word := 0x0200

/-- UVISOR_TACL_SHARED. -/
def taclShared : Word := 0x0400

/-- vmpu_mem_overlap. -/
def vmpuMemOverlap (s₁ e₁ s₂ e₂ : Word) : Bool :=
  e₁ < s₁ || e₂ < s₂ || (s₁ ≤ s₂ && s₂ < e₁) || (s₁ < e₂ && e₂ ≤ e₁) || (s₂ ≤ s₁ && e₁ ≤ e₂)

/-- vmpu_region_add_static_acl_internal. It reports one for an empty region, and
zero for an overlap. -/
def vmpuRegionAddStaticAclInternal (boxCount boxId : ℕ) (start size acl aclHwSpec : Word)
    (t : Table) : Option (Word × Table) :=
  if size = 0 ∨ acl &&& (taclUacl ||| taclSacl) = 0 then some (1, t)
  else if maxAcls ≤ t.mpuRegionCount then none
  else if boxCount ≤ boxId then none
  else if (List.range t.mpuRegionCount).any fun i =>
      let region := t.mpuRegion i
      vmpuMemOverlap start (start+size) region.start region.ends &&
        !(region.acl &&& taclShared ≠ 0 && acl &&& taclShared ≠ 0) then some (0, t)
  else if (t.mpuRegion (t.nextIndex boxId)).config ≠ 0 then none
  else
    let translated := KinetisMpu.vmpuRegionTranslateAcl start size acl aclHwSpec
    let region := (translated.map Prod.fst).getD (t.mpuRegion (t.nextIndex boxId))
    some ((translated.map Prod.snd).getD 0, t.store boxId region)

/-- vmpu_region_add_static_acl. Peripherals are added to the bridges, which are
no memory. -/
def vmpuRegionAddStaticAcl {π : Type} (aipsAdd : ℕ → Word → Word → Word → π → Option π)
    (boxCount boxId : ℕ) (start size acl aclHwSpec : Word) (s : Table × π) :
    Option (Word × Table × π) :=
  if boxCount ≤ boxId then none
  else if start &&& 0x1F ≠ 0 then none
  else if acl &&& taclPeripheral ≠ 0 then
    (aipsAdd boxId start size acl s.2).map fun bridges => (size, s.1, bridges)
  else
    (vmpuRegionAddStaticAclInternal boxCount boxId start size
        ((acl &&& tacldefStack) ||| taclStack ||| taclUser) aclHwSpec s.1).bind fun (size, t) =>
      if size = 0 then none else some (size, t, s.2)

/-- The table of regions on Kinetis. -/
def kinetisTable {π : Type} (aipsAdd : ℕ → Word → Word → Word → π → Option π) (boxCount : ℕ) :
    RegionTable (Table × π) where
  regionAddStaticAcl := fun boxId start size acl s =>
    (vmpuRegionAddStaticAcl aipsAdd boxCount boxId start size acl 0 s).map Prod.snd
  lastRegion := fun s boxId => s.1.lastRegion boxId

/-! ## What is recorded -/

section Recording

variable {μ : Type}

/-- A port records the regions of full descriptors that are added for memory. -/
def Records (table : RegionTable μ) : Prop :=
  ∀ boxId start size acl m m', (acl = tacldefStack ∨ acl = tacldefData) → start % 32 = 0 →
    size ≠ 0 → size % 32 = 0 → table.regionAddStaticAcl boxId start size acl m = some m' →
    (table.lastRegion m' boxId).start = start ∧ (table.lastRegion m' boxId).ends = start+size

theorem sauTable_records (boxCount : ℕ) : Records (sauTable boxCount) := by
  intro boxId start size acl c c' _ hstart hne hsize h
  simp only [sauTable] at h ⊢
  split at h
  · rename_i hbox
    rw [dif_pos hbox]
    obtain ⟨⟨rounded, added⟩, hadd, rfl⟩ := Option.map_eq_some_iff.mp h
    have htranslate : SauConfiguration.vmpuRegionTranslateAcl start size acl 0 =
        some (⟨start, start+size, SauConfiguration.vmpuMapAcl acl ||| (0 &&& SauBuffers.sauRlarNsc),
          acl⟩, size) := by
      simp only [SauConfiguration.vmpuRegionTranslateAcl, KinetisMpu.roundedSize, if_pos hsize,
        Option.bind_some, if_neg (not_not.mpr hstart)]
    unfold SauConfiguration.vmpuRegionAddStaticAcl at hadd
    dsimp only at hadd
    split_ifs at hadd
    rw [htranslate] at hadd
    obtain ⟨-, rfl⟩ := Prod.mk.inj (Option.some.inj hadd)
    simp [Function.update_self, ← Nat.add_assoc]
  · cases h

theorem kinetisTable_records {π : Type} (aipsAdd : ℕ → Word → Word → Word → π → Option π)
    (boxCount : ℕ) : Records (kinetisTable aipsAdd boxCount) := by
  intro boxId start size acl s s' hacl hstart hne hsize h
  obtain ⟨⟨rounded, added⟩, hadd, rfl⟩ := Option.map_eq_some_iff.mp h
  have hmemory : ¬acl &&& taclPeripheral ≠ 0 := by
    rcases hacl with rfl | rfl <;> decide
  have haccess : ((acl &&& tacldefStack) ||| taclStack ||| taclUser) &&& (taclUacl ||| taclSacl) ≠
      0 := by
    rcases hacl with rfl | rfl <;> decide
  unfold vmpuRegionAddStaticAcl at hadd
  split_ifs at hadd
  obtain ⟨⟨returned, t⟩, hinternal, hadd⟩ := Option.bind_eq_some_iff.mp hadd
  dsimp only at hadd
  split_ifs at hadd with hreturned
  obtain ⟨rfl, rfl⟩ := Prod.mk.inj (Option.some.inj hadd)
  unfold vmpuRegionAddStaticAclInternal at hinternal
  rw [if_neg (not_or.mpr ⟨hne, haccess⟩)] at hinternal
  split_ifs at hinternal
  · obtain ⟨rfl, -⟩ := Prod.mk.inj (Option.some.inj hinternal)
    exact absurd rfl hreturned
  · obtain ⟨-, rfl⟩ := Prod.mk.inj (Option.some.inj hinternal)
    simp only [kinetisTable, lastRegion_store, KinetisMpu.vmpuRegionTranslateAcl,
      KinetisMpu.roundedSize, if_pos hsize, Option.bind_some, if_neg (not_not.mpr hstart),
      Option.map_some, Option.getD_some, and_self]

end Recording

end Uvisor.BandedMemory
