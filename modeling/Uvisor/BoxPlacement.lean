import Uvisor.BoxOrder
import Uvisor.BoxSubregions
import Uvisor.Virq

/-!
# Where the boxes are placed on ARMv7-M

The order of the boxes is chosen by an estimate of the memory that their
regions take. The regions are added later, box by box, by calls that carry the
position in a variable and look at no limit. Between two calls the access
control lists of a box are added to the same table of regions.
-/

namespace Uvisor.BoxPlacement

open Context (Word)
open ArmMpu (MpuRegion)
open PageAllocator (Port)
open AlignedRegions PermutationSearch BoxEnumeration BoxMemory BoxOrder

/-! ## Driver -/

/-- UVISOR_TACL_USER. -/
def taclUser : Word := 0x0800

/-- UVISOR_TACL_IRQ. -/
def taclIrq : Word := 0x1000

/-- Whether an item of an access control list is an interrupt. -/
def isIrq (item : AclItem) : Bool := BitVec.ofNat 32 item.acl &&& taclIrq ≠ 0

/-- What vmpu_acl_sram and the functions that add items to the lists of a box do
on ARMv7-M: to the variables of the memory protection and to those of the
virtual interrupts. -/
def boxDriver (u : UvisorConfig) (sys : Virq.Platform) : Driver (BoxMemory.State × Virq.State) where
  aclSram := fun (s, virq) boxId bssSize stackSize =>
    match vmpuAclSram u.bssBoxesStart (boxCount u) s boxId bssSize stackSize with
    | .ok (bssStart, stackPointer, s) => some (bssStart, stackPointer, s, virq)
    | .error _ => none
  addAcl := fun (s, virq) boxId item =>
    if BitVec.ofNat 32 item.acl &&& taclIrq ≠ 0 then
      (Virq.virqAclAdd sys boxId item.param1 virq).map fun virq => (s, virq)
    else
      (vmpuRegionAddStaticAcl (boxCount u) boxId (BitVec.ofNat 32 item.param1)
        (BitVec.ofNat 32 item.param2) (BitVec.ofNat 32 item.acl ||| taclUser) 0 s.table).map
        fun (_, table) => ({s with table}, virq)

/-! ## Regions that stay -/

/-- The first region of a box, which is the one for its memory. -/
def firstRegion (t : Table) (boxId : ℕ) : Option MpuRegion :=
  (t.mpuBoxRegion boxId).regions.map t.mpuRegion

/-- Regions have been added for a box and none was lost. -/
structure Extends (boxId : ℕ) (t t' : Table) : Prop where
  /-- The first regions stay. -/
  first : ∀ other region, firstRegion t other = some region → region.config ≠ 0 →
    firstRegion t' other = some region
  /-- Other boxes have no more regions than before. -/
  others : ∀ other, other ≠ boxId → t'.mpuBoxRegion other = t.mpuBoxRegion other

theorem Extends.refl (boxId : ℕ) (t : Table) : Extends boxId t t :=
  ⟨fun _ _ h _ => h, fun _ _ => rfl⟩

theorem Extends.trans {boxId : ℕ} {t₁ t₂ t₃ : Table} (h : Extends boxId t₁ t₂)
    (h' : Extends boxId t₂ t₃) : Extends boxId t₁ t₃ where
  first := fun other region hregion hconfig =>
    h'.first other region (h.first other region hregion hconfig) hconfig
  others := fun other hother => (h'.others other hother).trans (h.others other hother)

section Tables

variable {t : Table} {boxId : ℕ}

/-- An entry that is not in use is written. -/
theorem extends_store (hunused : (t.mpuRegion (t.nextIndex boxId)).config = 0)
    (region : MpuRegion) : Extends boxId t (t.store boxId region) := by
  refine ⟨fun other found hfound hconfig => ?_, fun other hother => ?_⟩
  · obtain ⟨index, hindex, rfl⟩ := Option.map_eq_some_iff.mp hfound
    have hused : index ≠ t.nextIndex boxId := fun heq => hconfig (heq ▸ hunused)
    have hregions : ((t.store boxId region).mpuBoxRegion other).regions = some index := by
      by_cases hother : other = boxId
      · subst hother
        simp only [Table.store, Function.update_self, Table.firstIndex, hindex, Option.getD_some]
      · simp only [Table.store, Function.update_of_ne hother, hindex]
    rw [firstRegion, hregions, Option.map_some]
    exact congrArg some (Function.update_of_ne hused _ _)
  · exact Function.update_of_ne hother _ _

/-- The first region that is added for a box. -/
theorem firstRegion_store (hnone : t.mpuBoxRegion boxId = ⟨none, 0⟩) (region : MpuRegion) :
    firstRegion (t.store boxId region) boxId = some region := by
  simp [firstRegion, Table.store, Table.nextIndex, Table.firstIndex, hnone]

theorem vmpuRegionAddStaticAcl_extends {count : ℕ} {start size acl aclHwSpec rounded : Word}
    {t' : Table}
    (h : vmpuRegionAddStaticAcl count boxId start size acl aclHwSpec t = some (rounded, t')) :
    Extends boxId t t' := by
  unfold vmpuRegionAddStaticAcl at h
  split_ifs at h with hfull hbox hused
  obtain ⟨⟨region, size⟩, -, h⟩ := Option.map_eq_some_iff.mp h
  obtain ⟨-, rfl⟩ := Prod.mk.inj h
  exact extends_store (not_not.mp hused) region

end Tables

/-! ## Peripherals -/

section Peripherals

variable {u : UvisorConfig} {sys : Virq.Platform} {boxId : ℕ}
  {m m' : BoxMemory.State × Virq.State}

/-- Items of an access control list do not move the position. -/
theorem addAcl_extends {item : AclItem} (h : (boxDriver u sys).addAcl m boxId item = some m') :
    m'.1.boxMemPos = m.1.boxMemPos ∧ Extends boxId m.1.table m'.1.table := by
  obtain ⟨s, virq⟩ := m
  simp only [boxDriver] at h
  split_ifs at h
  · obtain ⟨virq', -, rfl⟩ := Option.map_eq_some_iff.mp h
    exact ⟨rfl, Extends.refl boxId _⟩
  · obtain ⟨⟨rounded, table⟩, hadd, rfl⟩ := Option.map_eq_some_iff.mp h
    exact ⟨rfl, vmpuRegionAddStaticAcl_extends hadd⟩

theorem configureBoxPeripherals_extends {config : BoxConfig} {acls : List AclItem}
    (h : configureBoxPeripherals (boxDriver u sys) u m boxId config = some (acls, m')) :
    m'.1.boxMemPos = m.1.boxMemPos ∧ Extends boxId m.1.table m'.1.table := by
  refine configureBoxPeripherals_rel
    (R := fun m m' => m'.1.boxMemPos = m.1.boxMemPos ∧ Extends boxId m.1.table m'.1.table)
    (fun _ => ⟨rfl, Extends.refl boxId _⟩) ?_ (fun _ _ _ => addAcl_extends) h
  rintro a b c ⟨hpos, hextends⟩ ⟨hpos', hextends'⟩
  exact ⟨hpos'.trans hpos, hextends.trans hextends'⟩

end Peripherals

/-! ## Placement -/

/-- Where the estimate has the region of a box. -/
def boxSpan (u : UvisorConfig) (order : ℕ → ℕ) (boxId : ℕ) : Span where
  start := alignUp (boxesEnd u (secureBoxes boxId order)) (boxBytes u (order boxId))
  size := boxBytes u (order boxId)

/-- A region is where the estimate has that of a box. -/
structure PlacedAt (u : UvisorConfig) (order : ℕ → ℕ) (boxId : ℕ) (region : MpuRegion) : Prop where
  /-- It is in use. -/
  used : region.config ≠ 0
  /-- Its start. -/
  start : region.start.toNat = (boxSpan u order boxId).start
  /-- Its end. -/
  ends : region.ends.toNat = (boxSpan u order boxId).ends

/-- The first boxes are placed as the estimate has them. -/
structure Placement (u : UvisorConfig) (order : ℕ → ℕ) (n : ℕ) (s : BoxMemory.State) : Prop where
  /-- The position is that of the estimate. -/
  pos : (memPos u.bssBoxesStart s).toNat = boxesEnd u (secureBoxes n order)
  /-- So are the regions of the secure boxes. -/
  regions : ∀ boxId, 1 ≤ boxId → boxId < n →
    ∃ region, firstRegion s.table boxId = some region ∧ PlacedAt u order boxId region
  /-- The other boxes have no regions yet. -/
  fresh : ∀ boxId, n ≤ boxId → s.table.mpuBoxRegion boxId = ⟨none, 0⟩

section Placing

variable {u : UvisorConfig} {sys : Virq.Platform} {order : ℕ → ℕ} {n psp : ℕ}
  {s t : BoxMemory.State}

/-- Access control lists do not move what is placed. -/
theorem Placement.extends (h : Placement u order (n+1) s) (hpos : t.boxMemPos = s.boxMemPos)
    (hextends : Extends n s.table t.table) : Placement u order (n+1) t where
  pos := by
    rw [memPos, hpos]
    exact h.pos
  regions := fun boxId hfirst hlast => by
    obtain ⟨region, hregion, hat⟩ := h.regions boxId hfirst hlast
    exact ⟨region, hextends.first boxId region hregion hat.used, hat⟩
  fresh := fun boxId hle => (hextends.others boxId (by omega)).trans (h.fresh boxId (by omega))

theorem secureBoxes_succ (hn : 1 ≤ n) (order : ℕ → ℕ) :
    secureBoxes (n+1) order = secureBoxes n order ++ [order n] := by
  obtain ⟨k, rfl⟩ : ∃ k, n = k+1 := ⟨n-1, by omega⟩
  rw [secureBoxes, secureBoxes, Nat.add_sub_cancel, Nat.add_sub_cancel, List.range'_concat,
    List.map_append, List.map_singleton]
  congr 3
  omega

/-- The layout of one more box. -/
theorem boxesEnd_succ (hn : 1 ≤ n) (u : UvisorConfig) (order : ℕ → ℕ) :
    boxesEnd u (secureBoxes (n+1) order) = (boxSpan u order n).ends := by
  rw [secureBoxes_succ hn, boxesEnd, List.map_append, layoutEnd_append]
  rfl

/-- The layout grows with the boxes. -/
theorem boxesEnd_mono (u : UvisorConfig) (order : ℕ → ℕ) {first last : ℕ} (hfirst : 1 ≤ first)
    (hle : first ≤ last) :
    boxesEnd u (secureBoxes first order) ≤ boxesEnd u (secureBoxes last order) := by
  induction last, hle using Nat.le_induction with
  | base => exact le_rfl
  | succ last hle ih =>
    refine ih.trans ?_
    rw [secureBoxes_succ (hfirst.trans hle), boxesEnd, boxesEnd, List.map_append, layoutEnd_append]
    exact le_layoutEnd (le_alignUp_boxes u [order last])

theorem secureBoxes_subset {first last : ℕ} (hle : first ≤ last) {index : ℕ}
    (h : index ∈ secureBoxes first order) : index ∈ secureBoxes last order := by
  obtain ⟨boxId, hbox, rfl⟩ := List.mem_map.mp h
  rw [List.mem_range'_1] at hbox
  exact List.mem_map.mpr ⟨boxId, List.mem_range'_1.mpr (by omega), rfl⟩

/-- A call for an accepted box places it where the estimate has it. -/
theorem Placement.aclSram (hn : 1 ≤ n) (hfit : NoOverflow u (secureBoxes (n+1) order))
    (hstack : minStackSize ≤ (configAt u (order n)).stackSize) (h : Placement u order n s)
    {bssStart stackPointer : ℕ}
    (hplaced : Placed (memPos u.bssBoxesStart s) s.table n (configAt u (order n)).bss.total
      (configAt u (order n)).stackSize bssStart stackPointer t) :
    Placement u order (n+1) t := by
  have hmem : order n ∈ secureBoxes (n+1) order := by
    rw [secureBoxes_succ hn]
    exact List.mem_append_right _ (List.mem_singleton_self _)
  have htotal := hfit.total _ hmem
  have hends := hfit.ends
  rw [boxesEnd_succ hn] at hends
  have hsized : sizedTotal (configAt u (order n)).bss.total (configAt u (order n)).stackSize =
      boxTotal u (order n) := by
    rw [sizedTotal, minStack, if_neg (not_lt.mpr hstack), total_eq]
    unfold boxTotal at htotal ⊢
    omega
  have hbytes : sramBytes (configAt u (order n)).bss.total (configAt u (order n)).stackSize =
      (boxSpan u order n).size := by
    rw [sramBytes, hsized]
    rfl
  have hlarge : 256 ≤ (boxSpan u order n).size := le_regionBytes _
  have hstart : sramStart (memPos u.bssBoxesStart s) (configAt u (order n)).bss.total
      (configAt u (order n)).stackSize = (boxSpan u order n).start := by
    rw [sramStart, hbytes, h.pos]
    exact Nat.mod_eq_of_lt (Nat.lt_of_le_of_lt (Nat.le_add_right _ _) hends)
  have hat : PlacedAt u order n (sramRegion (memPos u.bssBoxesStart s)
      (configAt u (order n)).bss.total (configAt u (order n)).stackSize) := by
    refine ⟨fun hzero => ?_, (sramStart_toNat _ _ _).trans hstart, ?_⟩
    · have henabled := enabled_sramRegion (memPos u.bssBoxesStart s)
        (configAt u (order n)).bss.total (configAt u (order n)).stackSize
      rw [ArmMpu.Region.enabled, PageSubregions.registers, hzero] at henabled
      exact absurd henabled (by simp)
    · rw [sramRegion, BitVec.toNat_add, sramStart_toNat, hstart, hbytes, BitVec.toNat_ofNat]
      unfold Span.ends at hends ⊢
      rw [Nat.mod_eq_of_lt (by omega : (boxSpan u order n).size < 2^32), Nat.mod_eq_of_lt hends]
  have hfree := h.fresh n le_rfl
  refine ⟨?_, fun boxId hfirst hlast => ?_, fun boxId hle => ?_⟩
  · have hne : t.boxMemPos ≠ 0 := fun hzero => by
      have hnat := hat.ends
      rw [← hplaced.boxMemPos, hzero] at hnat
      unfold Span.ends at hnat
      have hzeroNat : (0 : Word).toNat = 0 := rfl
      omega
    rw [memPos, if_neg hne, hplaced.boxMemPos, hat.ends, boxesEnd_succ hn]
  · rw [hplaced.table_eq]
    by_cases hbox : boxId = n
    · subst hbox
      exact ⟨_, firstRegion_store hfree _, hat⟩
    · obtain ⟨region, hregion, hat⟩ := h.regions boxId hfirst (by omega)
      exact ⟨region, (extends_store hplaced.unused _).first boxId region hregion hat.used, hat⟩
  · rw [hplaced.table_eq, (extends_store hplaced.unused _).others boxId (by omega)]
    exact h.fresh boxId (by omega)

/-- One pass of the loop places one box. -/
theorem Placement.registerBox {virq virq' : Virq.State} {reg : Registration}
    (hfit : NoOverflow u (secureBoxes (n+1) order)) (h : Placement u order n s)
    (hreg : registerBox (boxDriver u sys) u psp (s, virq) n (order n) = some (reg, t, virq')) :
    Placement u order (n+1) t := by
  obtain ⟨m₁, hregistered⟩ := registerBox_registered hreg
  obtain ⟨hpos, hextends⟩ := configureBoxPeripherals_extends hregistered.peripherals
  refine Placement.extends ?_ hpos hextends
  rcases Nat.eq_zero_or_pos n with rfl | hn
  · -- The public box has no region of its own.
    rw [hregistered.public_eq]
    exact ⟨h.pos, fun boxId hfirst hlast => by omega, fun boxId _ => h.fresh boxId (Nat.zero_le _)⟩
  · have hsram := hregistered.aclSram hn.ne'
    simp only [boxDriver] at hsram
    split at hsram
    · rename_i bssStart sp s' hok
      obtain ⟨-, hrest⟩ := Prod.mk.inj (Option.some.inj hsram)
      obtain ⟨-, rfl⟩ := Prod.mk.inj hrest
      exact h.aclSram hn hfit (hregistered.stack_le hn.ne') (vmpuAclSram_placed hok)
    · cases hsram

theorem NoOverflow.mono {first last : ℕ} (hfirst : 1 ≤ first) (hle : first ≤ last)
    (h : NoOverflow u (secureBoxes last order)) : NoOverflow u (secureBoxes first order) where
  total := fun index hindex => h.total index (secureBoxes_subset hle hindex)
  shift := fun index hindex => h.shift index (secureBoxes_subset hle hindex)
  ends := Nat.lt_of_le_of_lt (boxesEnd_mono u order hfirst hle) h.ends

/-- The loop places the boxes one after the other. -/
theorem registerBoxes_placement {m m' : BoxMemory.State × Virq.State} {count : ℕ}
    {regs : ℕ → Option Registration} (hfit : NoOverflow u (secureBoxes count order))
    (h : Placement u order 0 m.1) (hle : n ≤ count)
    (hregs : registerBoxes (boxDriver u sys) u psp order m n = some (regs, m')) :
    Placement u order n m'.1 := by
  induction n generalizing regs m' with
  | zero =>
    obtain ⟨-, rfl⟩ := Prod.mk.inj (Option.some.inj hregs)
    exact h
  | succ n ih =>
    obtain ⟨before, ⟨s₁, virq₁⟩, reg, hbefore, hreg, -⟩ := registerBoxes_succ hregs
    exact Placement.registerBox (NoOverflow.mono (by omega) hle hfit) (ih (by omega) hbefore) hreg

end Placing

/-! ## The estimate -/

section Estimate

variable {u : UvisorConfig} {sys : Virq.Platform} {order : ℕ → ℕ} {psp : ℕ}
  {m m' : BoxMemory.State × Virq.State} {regs : ℕ → Option Registration}

/-- Variables before the boxes are enumerated. -/
def Cleared (s : BoxMemory.State) : Prop :=
  s.boxMemPos = 0 ∧ ∀ boxId, s.table.mpuBoxRegion boxId = ⟨none, 0⟩

/-- Where the order of the boxes is chosen without a halt, their estimate fits
into the memory for secure boxes. -/
theorem estimate_le (hstart : u.bssBoxesStart ≤ u.bssBoxesEnd) (hend : u.bssBoxesEnd < 2^32)
    {count : ℕ} (horder : vmpuOrderBoxes .armv7m u count = some order) :
    sramSize u (count-1) order ≤ u.bssBoxesEnd-u.bssBoxesStart := by
  unfold vmpuOrderBoxes at horder
  dsimp only at horder
  split at horder
  · cases horder
  rename_i hfits
  cases hn : count-1 with
  | zero =>
    rw [hn] at horder
    cases horder
  | succ n =>
    rw [hn] at horder hfits
    obtain ⟨-, hcost, -⟩ := search_spec horder
    rw [hcost] at hfits
    unfold PageAllocator.wordSub at hfits
    omega

/-- The estimate of the order that is chosen is what the calls consume, up to
every box. The region of every secure box is in the memory for secure boxes,
and the regions of different boxes are disjoint. -/
theorem regions_match_estimate (hstart : u.bssBoxesStart ≤ u.bssBoxesEnd)
    (hend : u.bssBoxesEnd < 2^32) (hcleared : Cleared m.1)
    (horder : vmpuOrderBoxes .armv7m u (boxCount u) = some order)
    (hfit : NoOverflow u (secureBoxes (boxCount u) order))
    (hregs : registerBoxes (boxDriver u sys) u psp order m (boxCount u) = some (regs, m')) :
    (memPos u.bssBoxesStart m'.1).toNat =
        u.bssBoxesStart+sramSize u (boxCount u-1) order ∧
      (∀ boxId, 1 ≤ boxId → boxId < boxCount u → ∃ region,
        firstRegion m'.1.table boxId = some region ∧
        u.bssBoxesStart ≤ region.start.toNat ∧ region.start.toNat < region.ends.toNat ∧
        region.ends.toNat ≤ u.bssBoxesEnd) ∧
      ∀ first last, 1 ≤ first → first < last → last < boxCount u → ∀ region region',
        firstRegion m'.1.table first = some region → firstRegion m'.1.table last = some region' →
        region.ends.toNat ≤ region'.start.toNat := by
  have hzero : Placement u order 0 m.1 := by
    refine ⟨?_, fun boxId _ hlast => by omega, fun boxId _ => hcleared.2 boxId⟩
    rw [memPos, if_pos hcleared.1, BitVec.toNat_ofNat]
    exact Nat.mod_eq_of_lt (by omega)
  have hplacement := registerBoxes_placement hfit hzero le_rfl hregs
  have hestimate := sramSize_eq hfit
  have hle := estimate_le hstart hend horder
  have hbase := le_boxesEnd u (secureBoxes (boxCount u) order)
  rw [hestimate, consumption] at hle ⊢
  refine ⟨by rw [hplacement.pos]; omega, fun boxId hfirst hlast => ?_,
    fun first last hfirst hlt hlast region region' hregion hregion' => ?_⟩
  · obtain ⟨region, hregion, hat⟩ := hplacement.regions boxId hfirst hlast
    have hends : boxesEnd u (secureBoxes (boxId+1) order) ≤
        boxesEnd u (secureBoxes (boxCount u) order) := boxesEnd_mono u order (by omega) hlast
    rw [boxesEnd_succ hfirst] at hends
    have hlow := le_boxesEnd u (secureBoxes boxId order)
    have hpos : 0 < boxBytes u (order boxId) := lt_of_lt_of_le (by decide) (le_regionBytes _)
    have hup : boxesEnd u (secureBoxes boxId order) ≤ (boxSpan u order boxId).start :=
      le_alignUp _ hpos
    have hsize : (boxSpan u order boxId).ends =
        (boxSpan u order boxId).start+boxBytes u (order boxId) := rfl
    exact ⟨region, hregion, by rw [hat.start]; omega, by rw [hat.start, hat.ends]; omega,
      by rw [hat.ends]; omega⟩
  · obtain ⟨_, hfound, hat⟩ := hplacement.regions first hfirst (by omega)
    obtain rfl := Option.some.inj (hregion.symm.trans hfound)
    obtain ⟨_, hfound', hat'⟩ := hplacement.regions last (by omega) hlast
    obtain rfl := Option.some.inj (hregion'.symm.trans hfound')
    have hmono : boxesEnd u (secureBoxes (first+1) order) ≤ boxesEnd u (secureBoxes last order) :=
      boxesEnd_mono u order (by omega) hlt
    rw [boxesEnd_succ hfirst] at hmono
    have hpos : 0 < boxBytes u (order last) := lt_of_lt_of_le (by decide) (le_regionBytes _)
    rw [hat.ends, hat'.start]
    exact hmono.trans (le_alignUp _ hpos)

end Estimate

/-! ## Two secure boxes that change places -/

open BoxAgreement BoxSubregions

/-- Three boxes, four interrupts and six priority bits. -/
def threeBoxes : Virq.Platform where
  boxCount := 3
  nvicVectors := 4
  isrIsDefault := fun _ => true
  prioBits := 6
  prioBits_ge := by decide
  prioBits_le := by decide
  boxCount_le := by decide

/-- Variables of the interrupts when the boxes are enumerated. -/
def noOwners : Virq.State where
  activeBox := 0
  vectors := fun _ => ⟨⟨Virq.boxIdInvalid, 0⟩, false⟩
  counter := fun _ => 0
  nvic := ⟨fun _ => false, fun _ => false, fun _ => 0⟩

theorem threeConfigs_match_estimate :
    ∃ order regs m',
      vmpuOrderBoxes .armv7m (threeConfigs 64 4096) 3 = some order ∧
      registerBoxes (boxDriver (threeConfigs 64 4096) threeBoxes) (threeConfigs 64 4096) 0 order
        (firstCall, noOwners) 3 = some (regs, m') ∧
      (memPos 0x20002000 m'.1).toNat =
          0x20002000+sramSize (threeConfigs 64 4096) 2 order ∧
        (∀ boxId, 1 ≤ boxId → boxId < 3 → ∃ region, firstRegion m'.1.table boxId = some region ∧
          0x20002000 ≤ region.start.toNat ∧ region.start.toNat < region.ends.toNat ∧
          region.ends.toNat ≤ 0x20006000) ∧
        ∀ first last, 1 ≤ first → first < last → last < 3 → ∀ region region',
          firstRegion m'.1.table first = some region → firstRegion m'.1.table last = some region' →
          region.ends.toNat ≤ region'.start.toNat := by
  have horder : (vmpuOrderBoxes .armv7m (threeConfigs 64 4096) 3).isSome := by decide
  obtain ⟨order, horder⟩ := Option.isSome_iff_exists.mp horder
  obtain ⟨σ, hσ, hchosen, -⟩ := vmpuOrderBoxes_eq (by decide : 2 ≤ 3) threeConfigs_noOverflow
  have hboot : ∀ f ∈ leaves 2 1 (fun i : ℕ => i),
      (registerBoxes (boxDriver (threeConfigs 64 4096) threeBoxes) (threeConfigs 64 4096) 0 f
        (firstCall, noOwners) 3).isSome := by decide
  rw [hchosen] at horder
  split_ifs at horder with hfits
  obtain rfl := Option.some.inj horder
  obtain ⟨⟨regs, m'⟩, hregs⟩ := Option.isSome_iff_exists.mp
    (hboot σ (mem_leaves_iff.mpr ⟨σ, hσ, rfl⟩))
  exact ⟨σ, regs, m', by rw [hchosen, if_neg hfits], hregs,
    regions_match_estimate (by decide) (by decide) ⟨rfl, fun _ => rfl⟩
      (by rw [show boxCount (threeConfigs 64 4096) = 3 by decide, hchosen, if_neg hfits])
      (threeConfigs_noOverflow σ hσ) hregs⟩

end Uvisor.BoxPlacement
