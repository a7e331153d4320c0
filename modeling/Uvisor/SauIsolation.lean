import Uvisor.BoxIsolation
import Uvisor.KinetisDescriptors
import Uvisor.SauConfiguration

/-!
# Memory isolation on ARMv8-M

All boxes run in the non-secure state, so a box can access an address if the
security attribution unit does not take it for secure. An address is secure by
default, and also where two regions overlap. In every run what is left are the
static regions, the regions of the active box and of box 0, and pages that the
active box may use.
-/

namespace Uvisor.SauIsolation

open PageAllocator ArmSau SauBuffers SauPriority BoxIsolation Execution
open ArmMpu (Word MpuRegion)
open KinetisDescriptors (Aligned InPage aligned_of_init pageStart pageStart_succ)
open SauConfiguration (vmpuRegionTranslateAcl vmpuRegionTranslateAcl_spec flag_read_back
  Holds holds_programmed)

/-! ## Security attribution -/

/-- Whether a region of the unit is enabled. -/
def regionEnabled (rlar : Word) : Bool := rlar &&& sauRlarEnable = sauRlarEnable

/-- Whether a region of the unit matches an address. -/
def covers (region : SauRegion) (address : Word) : Bool :=
  regionEnabled region.rlar && regionFirst region ≤ address && address ≤ regionLast region

/-- Who can access an address. -/
inductive Security where
  | secure
  | nonSecureCallable
  | nonSecure
  deriving DecidableEq

/-- The attribution of an address. If several regions match it is secure. -/
def attribution (sau : Sau) (address : Word) : Security :=
  match (List.range regionsMax).filter fun i => covers (sau.regions i) address with
  | [i] =>
    if (sau.regions i).rlar &&& sauRlarNsc = 0 then .nonSecure else .nonSecureCallable
  | _ => .secure

/-- An address that is not secure matches some region. -/
theorem exists_covers {sau : Sau} {address : Word} (h : attribution sau address ≠ .secure) :
    ∃ i < regionsMax, covers (sau.regions i) address = true := by
  unfold attribution at h
  split at h
  · rename_i i hsingle
    have hmem : i ∈ (List.range regionsMax).filter fun i => covers (sau.regions i) address := by
      rw [hsingle]
      exact List.mem_cons_self
    obtain ⟨hi, hcovers⟩ := List.mem_filter.mp hmem
    exact ⟨i, List.mem_range.mp hi, hcovers⟩
  · exact absurd rfl h

/-! ## The unit -/

/-- The regions that have been set up at boot. An entry of the table whose access
rights could not be translated is zero. -/
structure Config where
  /-- What the static slots hold. -/
  static : ℕ → SauRegion
  /-- Regions of the boxes. -/
  regions : BoxId → List MpuRegion
  /-- The regions have been translated. -/
  translated : ∀ boxId, ∀ region ∈ regions boxId, region = ⟨0, 0, 0, 0⟩ ∨
    ∃ start size acl aclHwSpec rounded,
      vmpuRegionTranslateAcl start size acl aclHwSpec = some (region, rounded)

/-- The region of a page. -/
def pageSlot (g : Geometry) (page : ℕ) : SauRegion :=
  programmed (pageRegion (pageOrigin g page) ((pageOrigin g page+g.pageSize)%2^32))

/-- The security attribution unit as a protection of boxes. -/
def protection (cfg : Config) (g : Geometry) : Protection ArmSau.State SauRegion where
  activeBox s := s.activeBox
  alloc s := s.alloc
  setAlloc alloc s := {s with alloc}
  switch dstBox s := vmpuSwitch cfg.regions g dstBox {s with activeBox := dstBox}
  fault faultAddr s :=
    let (recovered, s) := vmpuFaultRecoveryMpu cfg.regions g faultAddr s
    if recovered then some s else none
  invalidate s := vmpuMpuInvalidate s
  Opens s w :=
    ∃ i, regionsStatic ≤ i ∧ i < regionsMax ∧ s.sau.regions i = w ∧ regionEnabled w.rlar = true
  Listed boxId w := ∃ region ∈ cfg.regions boxId, w = programmed region
  pageWindow page := pageSlot g page
  Good s := (regionsStatic ≤ s.mpuSlot ∧ s.mpuSlot < regionsMax) ∧
    ∀ i < regionsStatic, s.sau.regions i = cfg.static i

section Unit

variable {cfg : Config} {g : Geometry} {s t : ArmSau.State} {w : SauRegion}

/-- What a sequence of pushes does to the unit. -/
structure Pushed (cfg : Config) (g : Geometry) (loads : Loads) (s t : ArmSau.State) : Prop where
  /-- The static slots stay as they are. -/
  good : (protection cfg g).Good t
  /-- The active box is the same. -/
  activeBox : t.activeBox = s.activeBox
  /-- So is the page allocator. -/
  alloc : t.alloc = s.alloc
  /-- What has been opened has been pushed. -/
  opens : ∀ w, (protection cfg g).Opens t w → (protection cfg g).Opens s w ∨
    ∃ load ∈ loads, w = programmed load.1

theorem pushed_push (h : (protection cfg g).Good s) (load : MpuRegion × ℕ) :
    Pushed cfg g [load] s (vmpuMpuPush load.1 load.2 s).2 := by
  obtain ⟨hslot, hstatic⟩ := h
  have hrange := (@pushSlot_cases s load.2 hslot).1
  obtain ⟨hbox, halloc⟩ := vmpuMpuPush_frame load.1 load.2 s
  refine ⟨⟨?_, fun i hi => ?_⟩, hbox, halloc, ?_⟩
  · rw [vmpuMpuPush_mpuSlot]
    exact hrange
  · rw [vmpuMpuPush_regions, Function.update_of_ne (by omega)]
    exact hstatic i hi
  · rintro w ⟨i, hlow, hhigh, hheld, henabled⟩
    rw [vmpuMpuPush_regions] at hheld
    by_cases hsame : i = pushSlot s load.2
    · rw [hsame, Function.update_self] at hheld
      exact .inr ⟨load, List.mem_cons_self, hheld.symm⟩
    · rw [Function.update_of_ne hsame] at hheld
      exact .inl ⟨i, hlow, hhigh, hheld, henabled⟩

theorem pushed_pushLoads (h : (protection cfg g).Good s) (loads : Loads) :
    Pushed cfg g loads s (pushLoads loads s) := by
  induction loads generalizing s with
  | nil => exact ⟨h, rfl, rfl, fun _ hw => .inl hw⟩
  | cons load loads ih =>
    have hfirst := pushed_push h load
    have hrest := ih hfirst.good
    refine ⟨hrest.good, hrest.activeBox.trans hfirst.activeBox,
      hrest.alloc.trans hfirst.alloc, fun w hw => ?_⟩
    rcases hrest.opens w hw with hbefore | ⟨other, hmem, rfl⟩
    · rcases hfirst.opens w hbefore with hopen | ⟨other, hmem, rfl⟩
      · exact .inl hopen
      · exact .inr ⟨other, List.mem_cons.mpr (.inl (List.mem_singleton.mp hmem)), rfl⟩
    · exact .inr ⟨other, List.mem_cons_of_mem _ hmem, rfl⟩

/-- An invalidation keeps the static slots and disables the others. -/
theorem vmpuMpuInvalidate_regions (s : ArmSau.State) (i : ℕ) :
    (vmpuMpuInvalidate s).sau.regions i =
      if regionsStatic ≤ i ∧ i < regionsMax then ⟨0, 0⟩ else s.sau.regions i := by
  refine foldl_range'_writes (fun s : ArmSau.State => s.sau.regions i) ⟨0, 0⟩ (fun s slot => ?_)
    regionsStatic (regionsMax-regionsStatic) {s with mpuSlot := regionsStatic}
  by_cases hi : i = slot
  · subst hi
    simp [invalidateSlot, Sau.writeRnr, Sau.writeRbar, Sau.writeRlar]
  · simp [invalidateSlot, Sau.writeRnr, Sau.writeRbar, Sau.writeRlar, hi]

theorem not_opens_invalidated : ¬(protection cfg g).Opens (vmpuMpuInvalidate s) w := by
  rintro ⟨i, hlow, hhigh, hheld, henabled⟩
  rw [vmpuMpuInvalidate_regions, if_pos ⟨hlow, hhigh⟩] at hheld
  rw [← hheld] at henabled
  cases henabled

theorem good_invalidated (h : (protection cfg g).Good s) (boxId : BoxId) :
    (protection cfg g).Good (vmpuMpuInvalidate {s with activeBox := boxId}) := by
  obtain ⟨hslot, -⟩ := vmpuMpuInvalidate_spec {s with activeBox := boxId}
  refine ⟨hslot ▸ loadedSlot_range 3, fun i hi => ?_⟩
  rw [vmpuMpuInvalidate_regions, if_neg (by omega)]
  exact h.2 i hi

/-- What a context switch loads. -/
theorem vmpuSwitch_loads {dstBox : BoxId} (h : vmpuSwitch cfg.regions g dstBox s = some t) :
    ∃ loads, t = pushLoads loads (vmpuMpuInvalidate s) ∧
      ∀ load ∈ loads, load.1 ∈ cfg.regions dstBox ∨ load ∈ pageLoads g s.activeBox s.alloc := by
  obtain ⟨-, -, hbox, halloc⟩ := vmpuMpuInvalidate_spec s
  by_cases hdst : dstBox = 0
  · subst hdst
    simp only [vmpuSwitch, ne_eq, not_true_eq_false, if_false, Option.some.injEq] at h
    rw [pushWhile_pushPages] at h
    refine ⟨_, h.symm, fun load hmem => ?_⟩
    rw [switchLoads, hbox, halloc] at hmem
    rcases List.mem_append.mp hmem with hpage | hother
    · exact .inr hpage
    · obtain ⟨region, hregion, rfl⟩ := List.mem_map.mp hother
      exact .inl hregion
  · simp only [vmpuSwitch, ne_eq, hdst, not_false_eq_true, if_true] at h
    cases hregions : cfg.regions dstBox with
    | nil =>
      rw [hregions] at h
      cases h
    | cons stack others =>
      rw [hregions] at h
      simp only [Option.some.injEq, pushWhile_pushPages] at h
      obtain ⟨hbox', halloc'⟩ := vmpuMpuPush_frame stack 255 (vmpuMpuInvalidate s)
      rw [switchLoads, hbox', halloc', hbox, halloc] at h
      refine ⟨(stack, 255) :: _, h.symm, fun load hmem => ?_⟩
      rcases List.mem_cons.mp hmem with rfl | hmem
      · exact .inl List.mem_cons_self
      rcases List.mem_append.mp hmem with hpage | hother
      · exact .inr hpage
      · obtain ⟨region, hregion, rfl⟩ := List.mem_map.mp hother
        exact .inl (List.mem_cons_of_mem _ hregion)

/-- The load of a page opens the window of a page of the box. -/
theorem mayOpen_pageLoads {boxId : BoxId} {alloc : PageAllocator.State} {load : MpuRegion × ℕ}
    (h : load ∈ pageLoads g boxId alloc) :
    (protection cfg g).MayOpen g boxId alloc (programmed load.1) := by
  obtain ⟨page, hpage, rfl⟩ := List.mem_map.mp h
  exact .inr (.inr ⟨page, hpage, rfl⟩)

/-- The region that is found for a fault is one of the active box or of box 0. -/
theorem vmpuFaultFindRegion_mem {faultAddr : Word} {region : MpuRegion}
    (h : vmpuFaultFindRegion cfg.regions faultAddr s = some region) :
    region ∈ cfg.regions s.activeBox ∨ region ∈ cfg.regions 0 := by
  unfold vmpuFaultFindRegion at h
  split at h
  · rcases Option.or_eq_some_iff.mp h with hown | ⟨-, hpublic⟩
    · exact .inl (List.mem_of_find?_eq_some hown)
    · exact .inr (List.mem_of_find?_eq_some hpublic)
  · exact .inr (List.mem_of_find?_eq_some h)

/-- What a fault that is recovered from loads. -/
theorem fault_cases (hg : g.WellFormed) {faultAddr : Word}
    (h : (protection cfg g).fault faultAddr s = some t) :
    ∃ (alloc : PageAllocator.State) (load : MpuRegion × ℕ), SamePages s.alloc alloc ∧
      t = (vmpuMpuPush load.1 load.2 {s with alloc}).2 ∧
      (protection cfg g).MayOpen g s.activeBox s.alloc (programmed load.1) := by
  have hrecovered : vmpuFaultRecoveryMpu cfg.regions g faultAddr s = (true, t) := by
    dsimp only [protection] at h
    split at h
    · rename_i hrecovered
      exact Prod.ext hrecovered (Option.some.inj h)
    · cases h
  unfold vmpuFaultRecoveryMpu at hrecovered
  split at hrecovered
  · rename_i startAddr endAddr page hpage
    obtain ⟨-, rfl⟩ := Prod.mk.inj hrecovered
    obtain ⟨hactive, rfl, rfl⟩ := getActiveRegion_ok hg hpage
    exact ⟨ArmMpu.pageAllocatorRegisterFault g page s.alloc, (_, 100),
      samePages_registerFault g page s.alloc, rfl, .inr (.inr ⟨page, hactive, rfl⟩)⟩
  · split at hrecovered
    · cases hrecovered
    · rename_i region hfind
      obtain ⟨-, rfl⟩ := Prod.mk.inj hrecovered
      refine ⟨s.alloc, (region, 3), .refl s.alloc, rfl, ?_⟩
      rcases vmpuFaultFindRegion_mem hfind with hown | hpublic
      · exact .inl ⟨region, hown, rfl⟩
      · exact .inr (.inl ⟨region, hpublic, rfl⟩)

/-- The unit opens nothing but what it may. -/
theorem protection_lawful (cfg : Config) (hg : g.WellFormed) : (protection cfg g).Lawful g where
  switch_frame := by
    intro boxId s t hgood hs
    obtain ⟨loads, rfl, -⟩ := vmpuSwitch_loads hs
    obtain ⟨-, -, hbox, halloc⟩ := vmpuMpuInvalidate_spec {s with activeBox := boxId}
    have hpushed := pushed_pushLoads (good_invalidated hgood boxId) loads
    exact ⟨hpushed.good, hpushed.activeBox.trans hbox, hpushed.alloc.trans halloc⟩
  switch_opens := by
    intro boxId s t w hgood hs hw
    obtain ⟨loads, rfl, hloads⟩ := vmpuSwitch_loads hs
    rcases (pushed_pushLoads (good_invalidated hgood boxId) loads).opens w hw with
      hbefore | ⟨load, hmem, rfl⟩
    · exact absurd hbefore not_opens_invalidated
    · rcases hloads load hmem with hregion | hpage
      · exact .inl ⟨load.1, hregion, rfl⟩
      · exact mayOpen_pageLoads hpage
  fault_frame := by
    intro address s t hgood hs
    obtain ⟨alloc, load, hsame, rfl, -⟩ := fault_cases hg hs
    have hpushed := @pushed_push cfg g {s with alloc} hgood load
    refine ⟨hpushed.good, hpushed.activeBox, ?_⟩
    change SamePages s.alloc (vmpuMpuPush load.1 load.2 {s with alloc}).2.alloc
    rw [hpushed.alloc]
    exact hsame
  fault_opens := by
    intro address s t w hgood hs hw
    obtain ⟨alloc, load, -, rfl, hmay⟩ := fault_cases hg hs
    rcases (@pushed_push cfg g {s with alloc} hgood load).opens w hw with
      hbefore | ⟨other, hmem, rfl⟩
    · exact .inl hbefore
    · obtain rfl := List.mem_singleton.mp hmem
      exact .inr hmay
  invalidate_frame := by
    intro s hgood
    obtain ⟨-, -, hbox, halloc⟩ := vmpuMpuInvalidate_spec s
    exact ⟨good_invalidated hgood s.activeBox, hbox, halloc⟩
  invalidate_opens := not_opens_invalidated
  setAlloc_frame := fun hgood => ⟨hgood, rfl, rfl⟩
  setAlloc_opens := fun hw => hw

end Unit

/-! ## Addresses -/

section Addresses

variable {cfg : Config} {g : Geometry} {address : Word}

/-- A region of the unit is enabled as the region that it was loaded with. -/
theorem enabled_programmed (region : MpuRegion) :
    regionEnabled (programmed region).rlar = regionEnabled region.config := by
  have hflag : (programmed region).rlar &&& sauRlarEnable = region.config &&& sauRlarEnable :=
    flag_read_back (by decide) (by decide)
  unfold regionEnabled
  rw [hflag]

/-- The bytes of a region. -/
def InRegion (region : MpuRegion) (address : Word) : Prop :=
  regionEnabled region.config = true ∧ region.start ≤ address ∧ address ≤ region.ends-1

theorem covers_of_holds {region : MpuRegion} (h : Holds (programmed region) region) :
    covers (programmed region) address = true ↔ InRegion region address := by
  unfold covers InRegion
  rw [enabled_programmed, h.first, h.last]
  simp [and_assoc]

/-- The unit matches the bytes of the regions of a box. -/
theorem covers_listed {boxId : BoxId} {region : MpuRegion} (hmem : region ∈ cfg.regions boxId) :
    covers (programmed region) address = true ↔ InRegion region address := by
  rcases cfg.translated boxId region hmem with rfl | ⟨start, size, acl, aclHwSpec, rounded, h⟩
  · exact covers_of_holds (holds_programmed rfl rfl rfl)
  · obtain ⟨hstart, hends, hconfig⟩ := vmpuRegionTranslateAcl_spec h
    exact covers_of_holds (holds_programmed hstart hends hconfig)

/-- It matches the bytes of a page. -/
theorem covers_pageSlot (hg : Aligned g) {page : ℕ} (hpage : page < g.countTotal) :
    covers (pageSlot g page) address = true ↔ InPage g page address := by
  have hlt := hg.pageStart_lt hpage.le
  have hnext := @Aligned.pageStart_lt g (page+1) hg hpage
  have hlarge := hg.pageSize_large
  have hends : (pageOrigin g page+g.pageSize)%2^32 = pageStart g (page+1) := by
    rw [hg.pageOrigin_eq hpage, ← pageStart_succ, Nat.mod_eq_of_lt hnext]
  have hstart : (BitVec.ofNat 32 (pageStart g page)).toNat = pageStart g page := by
    rw [BitVec.toNat_ofNat, Nat.mod_eq_of_lt hlt]
  have hend : (BitVec.ofNat 32 (pageStart g (page+1))).toNat = pageStart g (page+1) := by
    rw [BitVec.toNat_ofNat, Nat.mod_eq_of_lt hnext]
  have hholds : Holds (pageSlot g page)
      (pageRegion (pageOrigin g page) ((pageOrigin g page+g.pageSize)%2^32)) := by
    refine holds_programmed ?_ ?_ (show (1 : Word) &&& ~~~0x3 = 0 by decide)
    · rw [hg.pageOrigin_eq hpage, pageRegion, hstart]
      exact hg.pageStart_aligned page
    · rw [hends, pageRegion, hend]
      exact hg.pageStart_aligned (page+1)
  rw [pageSlot, covers_of_holds hholds, hends, hg.pageOrigin_eq hpage]
  have hlast : (BitVec.ofNat 32 (pageStart g (page+1))-1).toNat = pageStart g (page+1)-1 := by
    have hpos : BitVec.ofNat 32 (pageStart g (page+1)) ≠ 0 := by
      intro hzero
      have hvalue := congrArg BitVec.toNat hzero
      rw [hend, pageStart_succ] at hvalue
      change pageStart g page+g.pageSize = 0 at hvalue
      omega
    rw [AlignedWords.toNat_pred hpos, hend]
  have hsucc := pageStart_succ g page
  simp only [InRegion, pageRegion, InPage, hg.pageOrigin_eq hpage, BitVec.le_def, hstart, hlast]
  constructor
  · rintro ⟨-, hfirst, hle⟩
    omega
  · rintro ⟨hfirst, hle⟩
    exact ⟨rfl, hfirst, by omega⟩

end Addresses

/-! ## Isolation -/

section Isolation

variable {cfg : Config} {g : Geometry} {r : Run ArmSau.State}

/-- A boot aligns the pages. -/
theorem aligned_of_boots {alloc : PageAllocator.State} (h : Boots g .armv8m alloc) :
    Aligned g := by
  obtain ⟨c, heapStart, heapEnd, pageSizeAddr, pageSize, before, hinit⟩ := h
  have hport : init .armv8m c heapStart heapEnd pageSizeAddr pageSize before =
      init .kinetis c heapStart heapEnd pageSizeAddr pageSize before := rfl
  exact aligned_of_init (hport ▸ hinit)

/-- Runs of the unit of a page heap. -/
def Reached (cfg : Config) (g : Geometry) (r : Run ArmSau.State) : Prop :=
  Reachable (Initial (protection cfg g) g .armv8m) (step (protection cfg g) g)
    (Permitted (protection cfg g) g) r

theorem boots_of_reached (h : Reached cfg g r) : ∃ alloc, Boots g .armv8m alloc := by
  refine h.invariant (fun _ => ∃ alloc, Boots g .armv8m alloc)
    (fun _ hinit => ⟨_, hinit.boots⟩) fun _ _ _ hboots _ _ => hboots

/-- An address is in a static region, in a region of the active box or of box 0,
or in a page that the active box may use. -/
def Accounted (cfg : Config) (g : Geometry) (r : Run ArmSau.State) (address : Word) : Prop :=
  (∃ i < regionsStatic, covers (cfg.static i) address = true) ∨
    (∃ region, (region ∈ cfg.regions r.unit.activeBox ∨ region ∈ cfg.regions 0) ∧
      InRegion region address) ∨
    ∃ page < g.countTotal, InPage g page address ∧ MayUse r.holder r.unit.activeBox page

/-- What holds in a run. -/
theorem inv_of_reached (h : Reached cfg g r) :
    Aligned g ∧ BoxIsolation.Inv (protection cfg g) g .armv8m r := by
  obtain ⟨alloc, hboots⟩ := boots_of_reached h
  have haligned := aligned_of_boots hboots
  exact ⟨haligned, inv_reachable (protection_lawful cfg haligned.wellFormed) h⟩

/-- An address that a box can access is accounted for. -/
theorem accounted_of_access (h : Reached cfg g r) {address : Word}
    (haccess : attribution r.unit.sau address ≠ .secure) : Accounted cfg g r address := by
  obtain ⟨haligned, hinv⟩ := inv_of_reached h
  obtain ⟨i, hi, hcovers⟩ := exists_covers haccess
  by_cases hstatic : i < regionsStatic
  · exact .inl ⟨i, hstatic, hinv.good.2 i hstatic ▸ hcovers⟩
  · have henabled : regionEnabled (r.unit.sau.regions i).rlar = true := by
      unfold covers at hcovers
      simp only [Bool.and_eq_true] at hcovers
      exact hcovers.1.1
    rcases hinv.isolated _ ⟨i, Nat.not_lt.mp hstatic, hi, rfl, henabled⟩ with
      ⟨region, hmem, hregion⟩ | ⟨region, hmem, hregion⟩ | ⟨page, hpage, hwindow, huse⟩
    · rw [hregion] at hcovers
      exact .inr (.inl ⟨region, .inl hmem, (covers_listed hmem).mp hcovers⟩)
    · rw [hregion] at hcovers
      exact .inr (.inl ⟨region, .inr hmem, (covers_listed hmem).mp hcovers⟩)
    · have hslot : r.unit.sau.regions i = pageSlot g page := hwindow
      rw [hslot] at hcovers
      exact .inr (.inr ⟨page, hpage, (covers_pageSlot haligned hpage).mp hcovers, huse⟩)

/-- An address is in one page at most. -/
theorem inPage_unique (hg : Aligned g) {page other : ℕ} {address : Word}
    (hpage : page < g.countTotal) (hother : other < g.countTotal) (hin : InPage g page address)
    (hin' : InPage g other address) : other = page := by
  rw [InPage, hg.pageOrigin_eq hpage, ← pageStart_succ] at hin
  rw [InPage, hg.pageOrigin_eq hother, ← pageStart_succ] at hin'
  by_contra hne
  rcases Nat.lt_or_gt_of_ne hne with hbefore | hafter
  · have hmono := @KinetisDescriptors.pageStart_mono g (other+1) page hbefore
    omega
  · have hmono := @KinetisDescriptors.pageStart_mono g (page+1) other hafter
    omega

/-- No static region and no region of a box is where an address is. -/
def OutsideRegions (cfg : Config) (boxId : BoxId) (address : Word) : Prop :=
  (∀ i < regionsStatic, covers (cfg.static i) address = false) ∧
    ∀ region, region ∈ cfg.regions boxId ∨ region ∈ cfg.regions 0 → ¬InRegion region address

end Isolation

/-! ## A small device -/

/-- Box 1 has its stack, and no static region is enabled. -/
def smallConfig : Config where
  static _ := ⟨0, 0⟩
  regions boxId := if boxId = 1 then [⟨0x20008000, 0x20008400, 1, 0x3⟩] else []
  translated boxId region hmem := by
    split at hmem
    · obtain rfl := List.mem_singleton.mp hmem
      exact .inr ⟨0x20008000, 0x400, 0x3, 0, 0x400, rfl⟩
    · cases hmem

/-- The unit after a boot. -/
def bootedUnit : Run ArmSau.State := ⟨⟨0, ⟨0, fun _ => ⟨0, 0⟩⟩, 4, fun _ => 0, booted.alloc⟩,
  fun _ => none⟩

theorem bootedUnit_initial : Initial (protection smallConfig sauPages) sauPages .armv8m bootedUnit where
  good := ⟨by decide, fun _ _ => rfl⟩
  boots := ⟨smallDevice, 0x20001000, 0x20002000, 0x400, 1024, booted.alloc, rfl⟩
  holder := rfl
  opens w hw := by
    obtain ⟨i, -, -, rfl, henabled⟩ := hw
    exact absurd (show regionEnabled 0 = true from henabled) (by decide)

/-- Box 1 gets a page and accesses it. -/
def pageAccess : List BoxIsolation.Action :=
  [.switch 1, .malloc ⟨1024, 1, fun _ => 0⟩, .fault 0x20001010]

theorem pageAccess_permitted : ∀ a ∈ pageAccess, ∀ r : Run ArmSau.State,
    Permitted (protection smallConfig sauPages) sauPages r a := by
  intro a ha r call hcall
  simp only [pageAccess, List.mem_cons, List.not_mem_nil, or_false] at ha
  rcases ha with rfl | rfl | rfl
  · cases hcall
  · obtain rfl := Option.mem_some_iff.mp hcall
    trivial
  · cases hcall

end Uvisor.SauIsolation
