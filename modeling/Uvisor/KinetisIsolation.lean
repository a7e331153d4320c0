import Uvisor.BoxIsolation
import Uvisor.KinetisDescriptors
import Uvisor.SauConfiguration

/-!
# Memory isolation on Kinetis

A box can access an address if some valid descriptor grants it to the user mode
of the core. In every run these are the static descriptors, those of regions of
the active box, and those of pages that the active box may use. Each grants
another 32 bytes after its end.
-/

namespace Uvisor.KinetisIsolation

open PageAllocator KinetisMpu KinetisSlots KinetisDescriptors BoxIsolation Execution
open ArmMpu (Word MpuRegion)

/-! ## The unit -/

/-- VLD, the bit of a valid descriptor. -/
def valid (d : Descriptor) : Bool := d.control &&& 1 ≠ 0

/-- A descriptor grants an address to the user mode of the core. -/
def Grants (d : Descriptor) (address : Word) : Prop :=
  valid d = true ∧ d.permissions &&& 0x7 ≠ 0 ∧ Enforces d address

instance (d : Descriptor) (address : Word) : Decidable (Grants d address) :=
  inferInstanceAs (Decidable (_ ∧ _ ∧ _))

/-- Some descriptor of the unit grants an address. -/
def Accessible (s : KinetisMpu.State) (address : Word) : Prop :=
  ∃ i < regionsMax, Grants (s.words i) address

/-- The regions that have been set up at boot. An entry of the table whose access
rights could not be translated is zero. -/
structure Config where
  /-- What the static descriptors hold. -/
  static : ℕ → Descriptor
  /-- Regions of the boxes. -/
  regions : BoxId → List MpuRegion
  /-- The regions have been translated. -/
  translated : ∀ boxId, ∀ region ∈ regions boxId, region = ⟨0, 0, 0, 0⟩ ∨
    ∃ start size acl aclHwSpec rounded,
      vmpuRegionTranslateAcl start size acl aclHwSpec = some (region, rounded)

/-- The memory protection unit as a protection of boxes. -/
def protection (cfg : Config) (g : Geometry) : Protection KinetisMpu.State Descriptor where
  activeBox s := s.activeBox
  alloc s := s.alloc
  setAlloc alloc s := {s with alloc}
  switch dstBox s := vmpuMemSwitch cfg.regions g dstBox {s with activeBox := dstBox}
  fault faultAddr s :=
    let (recovered, s) := vmpuFaultRecoveryMpu g faultAddr s
    if recovered then some s else none
  invalidate s := vmpuMpuInvalidate s
  Opens s w := ∃ i, regionsStatic ≤ i ∧ i < regionsMax ∧ s.words i = w ∧ valid w = true
  Listed boxId w := boxId ≠ 0 ∧ ∃ region ∈ cfg.regions boxId, w = descriptor region
  pageWindow page := pageDescriptor g page
  Good s := (regionsStatic ≤ s.mpuSlot ∧ s.mpuSlot ≤ regionsMax) ∧
    ∀ i < regionsStatic, s.words i = cfg.static i

/-! ## The search for a slot -/

section Searches

variable {mpuPriority : ℕ → ℕ} {priority start : ℕ} {st : Search}

/-- The slots of a search are not static. -/
structure InRange (st : Search) : Prop where
  /-- g_mpu_slot. -/
  slot : regionsStatic ≤ st.slot ∧ st.slot ≤ regionsMax
  /-- The slot that was looked at last. -/
  viable : regionsStatic ≤ st.viable ∧ st.viable ≤ regionsMax

theorem nextSlot_range {slot : ℕ} (h : regionsStatic ≤ slot) :
    regionsStatic ≤ nextSlot slot ∧ nextSlot slot ≤ regionsMax := by
  have hnext := @RoundRobin.next_range regionsStatic (regionsMax+1) slot h (by decide)
  rw [nextSlot_eq]
  omega

theorem inRange_iterate {passes : ℕ} {result : Search} (h : InRange st)
    (hresult : iterate (searchBody mpuPriority priority start) passes st = some result) :
    InRange result := by
  induction passes generalizing st with
  | zero => cases hresult
  | succ passes ih =>
    simp only [iterate, searchBody] at hresult
    split_ifs at hresult with hfound hback
    · obtain rfl := Option.some.inj hresult
      exact ⟨h.slot, h.viable⟩
    · exact ih ⟨nextSlot_range h.slot.1, h.slot⟩ hresult
    · obtain rfl := Option.some.inj hresult
      exact ⟨nextSlot_range h.slot.1, h.slot⟩

theorem inRange_search (hstart : regionsStatic ≤ start ∧ start ≤ regionsMax) :
    InRange (search mpuPriority priority start) :=
  inRange_iterate ⟨hstart, hstart⟩ (iterate_search hstart)

end Searches

/-! ## What the unit opens -/

section Unit

variable {cfg : Config} {g : Geometry} {s t : KinetisMpu.State} {w : Descriptor}

/-- What a sequence of pushes does to the unit. -/
structure Pushed (cfg : Config) (g : Geometry) (loads : List (MpuRegion × ℕ))
    (s t : KinetisMpu.State) : Prop where
  /-- The static descriptors stay as they are. -/
  good : (protection cfg g).Good t
  /-- What has been opened has been pushed. -/
  opens : ∀ w, (protection cfg g).Opens t w → (protection cfg g).Opens s w ∨
    ∃ load ∈ loads, w = descriptor load.1

theorem pushed_push (h : (protection cfg g).Good s) (load : MpuRegion × ℕ) :
    Pushed cfg g [load] s (vmpuMpuPush load.1 load.2 s).2 := by
  obtain ⟨hslot, hstatic⟩ := h
  have hrange := @inRange_search s.mpuPriority (MpuPriority.upgraded load.2) s.mpuSlot hslot
  have heq := congrArg Prod.snd (vmpuMpuPush_eq load.1 load.2 s)
  have hwritten : ∃ slot, regionsStatic ≤ slot ∧ (vmpuMpuPush load.1 load.2 s).2.words =
      Function.update s.words slot (descriptor load.1) := by
    rw [heq]
    refine ⟨_, ?_, rfl⟩
    split
    · exact hrange.slot.1
    · exact hrange.viable.1
  obtain ⟨slot, hlow, hwords⟩ := hwritten
  refine ⟨⟨?_, fun i hi => ?_⟩, ?_⟩
  · rw [heq]
    dsimp only
    split
    · exact nextSlot_range hrange.slot.1
    · exact hrange.slot
  · rw [hwords, Function.update_of_ne (by omega)]
    exact hstatic i hi
  · rintro w ⟨i, hi, hi', hheld, hvalid⟩
    rw [hwords] at hheld
    by_cases hsame : i = slot
    · rw [hsame, Function.update_self] at hheld
      exact .inr ⟨load, List.mem_cons_self, hheld.symm⟩
    · rw [Function.update_of_ne hsame] at hheld
      exact .inl ⟨i, hi, hi', hheld, hvalid⟩

theorem pushed_pushLoads (h : (protection cfg g).Good s) (loads : List (MpuRegion × ℕ)) :
    Pushed cfg g loads s (pushLoads loads s) := by
  induction loads generalizing s with
  | nil => exact ⟨h, fun _ hw => .inl hw⟩
  | cons load loads ih =>
    have hfirst := pushed_push h load
    have hrest := ih hfirst.good
    refine ⟨hrest.good, fun w hw => ?_⟩
    rcases hrest.opens w hw with hbefore | ⟨other, hmem, rfl⟩
    · rcases hfirst.opens w hbefore with hopen | ⟨other, hmem, rfl⟩
      · exact .inl hopen
      · exact .inr ⟨other, List.mem_cons.mpr (.inl (List.mem_singleton.mp hmem)), rfl⟩
    · exact .inr ⟨other, List.mem_cons_of_mem _ hmem, rfl⟩

/-- An invalidation keeps the static descriptors and makes the others invalid. -/
theorem vmpuMpuInvalidate_words (s : KinetisMpu.State) :
    (∀ i < regionsStatic, (vmpuMpuInvalidate s).words i = s.words i) ∧
      ∀ i, regionsStatic ≤ i → i < regionsMax → ((vmpuMpuInvalidate s).words i).control = 0 := by
  have hcontrol : ∀ i, ((vmpuMpuInvalidate s).words i).control =
      if regionsStatic ≤ i ∧ i < regionsMax then 0 else (s.words i).control := by
    intro i
    refine foldl_range'_writes (fun s : KinetisMpu.State => (s.words i).control) 0
      (fun s slot => ?_) regionsStatic (regionsMax-regionsStatic)
      {s with mpuSlot := regionsStatic}
    by_cases hi : i = slot
    · subst hi
      simp [invalidateSlot]
    · simp [invalidateSlot, hi]
  refine ⟨fun i hi => ?_, fun i hlow hhigh => (hcontrol i).trans (if_pos ⟨hlow, hhigh⟩)⟩
  have hkept : ∀ slots : List ℕ, (∀ slot ∈ slots, regionsStatic ≤ slot) →
      ∀ s : KinetisMpu.State, (slots.foldl invalidateSlot s).words i = s.words i := by
    intro slots hslots
    induction slots with
    | nil => exact fun _ => rfl
    | cons slot slots ih =>
      intro s
      have hslot := hslots slot List.mem_cons_self
      rw [List.foldl_cons, ih fun other hother => hslots other (List.mem_cons_of_mem _ hother)]
      exact Function.update_of_ne (by omega) _ _
  exact hkept _ (fun slot hslot => (List.mem_range'_1.mp hslot).1) {s with mpuSlot := regionsStatic}

theorem not_opens_invalidated : ¬(protection cfg g).Opens (vmpuMpuInvalidate s) w := by
  rintro ⟨i, hlow, hhigh, rfl, hvalid⟩
  rw [valid, (vmpuMpuInvalidate_words s).2 i hlow hhigh] at hvalid
  exact absurd hvalid (by decide)

theorem good_invalidated (h : (protection cfg g).Good s) (boxId : BoxId) :
    (protection cfg g).Good (vmpuMpuInvalidate {s with activeBox := boxId}) := by
  obtain ⟨hslot, -, -⟩ := vmpuMpuInvalidate_spec {s with activeBox := boxId}
  refine ⟨?_, fun i hi => ?_⟩
  · rw [hslot]
    decide
  · rw [(vmpuMpuInvalidate_words _).1 i hi]
    exact h.2 i hi

theorem vmpuMpuInvalidate_frame (s : KinetisMpu.State) :
    (vmpuMpuInvalidate s).activeBox = s.activeBox ∧ (vmpuMpuInvalidate s).alloc = s.alloc :=
  ⟨@foldl_keeps _ _ _ invalidateSlot KinetisMpu.State.activeBox (fun _ _ => rfl) _ _,
    @foldl_keeps _ _ _ invalidateSlot KinetisMpu.State.alloc (fun _ _ => rfl) _ _⟩

/-- What a context switch loads. -/
theorem vmpuMemSwitch_eq {dstBox : BoxId} (h : vmpuMemSwitch cfg.regions g dstBox s = some t) :
    t = pushLoads (switchLoads cfg.regions g dstBox s) (vmpuMpuInvalidate s) := by
  have hcalls := vmpuMemSwitch_calls h
  rw [switchCalls, exec, KinetisSlots.step, Option.bind_some, exec_pushCalls] at hcalls
  exact (Option.some.inj hcalls).symm

/-- What a switch loads may be open for the box. -/
theorem mayOpen_switchLoads {dstBox : BoxId} {load : MpuRegion × ℕ}
    (h : load ∈ switchLoads cfg.regions g dstBox s) (hactive : s.activeBox = dstBox) :
    (protection cfg g).MayOpen g dstBox s.alloc (descriptor load.1) := by
  rw [switchLoads, hactive] at h
  rcases List.mem_append.mp h with hregion | hpage
  · obtain ⟨region, hmem, rfl⟩ := List.mem_map.mp hregion
    split at hmem
    · cases hmem
    · rename_i hdst
      exact .inl ⟨hdst, region, hmem, rfl⟩
  · obtain ⟨page, hmem, rfl⟩ := List.mem_map.mp hpage
    exact .inr (.inr ⟨page, hmem, rfl⟩)

/-- What a fault that is recovered from loads. -/
theorem fault_cases (hg : g.WellFormed) {faultAddr : Word}
    (h : (protection cfg g).fault faultAddr s = some t) :
    ∃ page ∈ activePages g s.activeBox s.alloc, ∃ alloc, SamePages s.alloc alloc ∧
      t = (vmpuMpuPush (pageRegion (pageOrigin g page) ((pageOrigin g page+g.pageSize)%2^32)) 100
        {s with alloc}).2 := by
  have hrecovered : vmpuFaultRecoveryMpu g faultAddr s = (true, t) := by
    dsimp only [protection] at h
    split at h
    · rename_i hrecovered
      exact Prod.ext hrecovered (Option.some.inj h)
    · cases h
  unfold vmpuFaultRecoveryMpu at hrecovered
  split at hrecovered
  · rename_i startAddr endAddr page hpage
    obtain ⟨hactive, rfl, rfl⟩ := getActiveRegion_ok hg hpage
    unfold vmpuMemPushPageAcl at hrecovered
    split at hrecovered
    · cases hrecovered
    · obtain ⟨-, rfl⟩ := Prod.mk.inj hrecovered
      exact ⟨page, hactive, _, samePages_registerFault g page s.alloc, rfl⟩
  · cases hrecovered

/-- The unit opens nothing but what it may. -/
theorem protection_lawful (cfg : Config) (hg : g.WellFormed) : (protection cfg g).Lawful g where
  switch_frame := by
    intro boxId s t hgood hs
    obtain rfl := vmpuMemSwitch_eq hs
    obtain ⟨hbox, halloc⟩ := pushLoads_frame
      (switchLoads cfg.regions g boxId {s with activeBox := boxId})
      (vmpuMpuInvalidate {s with activeBox := boxId})
    obtain ⟨hbox', halloc'⟩ := vmpuMpuInvalidate_frame {s with activeBox := boxId}
    exact ⟨(pushed_pushLoads (good_invalidated hgood boxId) _).good, hbox.trans hbox',
      halloc.trans halloc'⟩
  switch_opens := by
    intro boxId s t w hgood hs hw
    obtain rfl := vmpuMemSwitch_eq hs
    rcases (pushed_pushLoads (good_invalidated hgood boxId) _).opens w hw with
      hbefore | ⟨load, hmem, rfl⟩
    · exact absurd hbefore not_opens_invalidated
    · exact @mayOpen_switchLoads cfg g {s with activeBox := boxId} boxId load hmem rfl
  fault_frame := by
    intro address s t hgood hs
    obtain ⟨page, -, alloc, hsame, rfl⟩ := fault_cases hg hs
    have hpushed := @pushed_push cfg g {s with alloc} hgood
      (pageRegion (pageOrigin g page) ((pageOrigin g page+g.pageSize)%2^32), 100)
    obtain ⟨hbox, halloc⟩ := vmpuMpuPush_frame
      (pageRegion (pageOrigin g page) ((pageOrigin g page+g.pageSize)%2^32)) 100 {s with alloc}
    refine ⟨hpushed.good, hbox, ?_⟩
    change SamePages s.alloc (vmpuMpuPush _ 100 {s with alloc}).2.alloc
    rw [halloc]
    exact hsame
  fault_opens := by
    intro address s t w hgood hs hw
    obtain ⟨page, hpage, alloc, -, rfl⟩ := fault_cases hg hs
    rcases (@pushed_push cfg g {s with alloc} hgood
      (pageRegion (pageOrigin g page) ((pageOrigin g page+g.pageSize)%2^32), 100)).opens w hw with
      hbefore | ⟨load, hmem, rfl⟩
    · exact .inl hbefore
    · obtain rfl := List.mem_singleton.mp hmem
      exact .inr (.inr (.inr ⟨page, hpage, rfl⟩))
  invalidate_frame := by
    intro s hgood
    obtain ⟨hbox, halloc⟩ := vmpuMpuInvalidate_frame s
    exact ⟨good_invalidated hgood s.activeBox, hbox, halloc⟩
  invalidate_opens := not_opens_invalidated
  setAlloc_frame := fun hgood => ⟨hgood, rfl, rfl⟩
  setAlloc_opens := fun hw => hw

end Unit

/-! ## Addresses -/

section Addresses

variable {cfg : Config} {g : Geometry} {address : Word}

/-- The bytes of a region that users have rights for, and the 32 bytes after it. -/
def NearRegion (region : MpuRegion) (address : Word) : Prop :=
  region.config &&& 0x7 ≠ 0 ∧ region.start.toNat ≤ address.toNat ∧
    address.toNat < region.ends.toNat+32

/-- The bytes of a page, and the 32 bytes after it. -/
def NearPage (g : Geometry) (page : ℕ) (address : Word) : Prop :=
  pageOrigin g page ≤ address.toNat ∧ address.toNat < pageOrigin g page+g.pageSize+32

/-- A region that has been translated is aligned. -/
theorem aligned_translated {boxId : BoxId} {region : MpuRegion}
    (hmem : region ∈ cfg.regions boxId) :
    region.start.toNat%32 = 0 ∧ region.ends.toNat%32 = 0 := by
  rcases cfg.translated boxId region hmem with rfl | ⟨start, size, acl, aclHwSpec, rounded, h⟩
  · exact ⟨rfl, rfl⟩
  · obtain ⟨full, hfull, h⟩ := Option.bind_eq_some_iff.mp h
    split_ifs at h with hstart
    obtain ⟨rfl, rfl⟩ := Prod.mk.inj (Option.some.inj h)
    have hstart' := (SauConfiguration.mod_eq_zero_iff start).mp (not_not.mp hstart)
    have hfull' := SauConfiguration.aligned_roundedSize hfull
    refine ⟨hstart', ?_⟩
    change (start+full).toNat%32 = 0
    rw [BitVec.toNat_add]
    omega

/-- What the descriptor of a region of a box grants. -/
theorem grants_listed {boxId : BoxId} {region : MpuRegion} (hmem : region ∈ cfg.regions boxId) :
    Grants (descriptor region) address ↔ NearRegion region address := by
  obtain ⟨hstart, hends⟩ := aligned_translated hmem
  have hvalid : valid (descriptor region) = true := show decide ((1 : Word) &&& 1 ≠ 0) = true by decide
  have henforced : Enforces (descriptor region) address ↔
      region.start.toNat ≤ address.toNat ∧ address.toNat < region.ends.toNat+32 := by
    simp only [descriptor, Enforces, BitVec.le_def, and_mask_toNat hstart, or_mask_toNat hends]
    omega
  unfold Grants NearRegion
  rw [henforced]
  exact ⟨fun h => h.2, fun h => ⟨hvalid, h⟩⟩

/-- What the descriptor of a page grants. -/
theorem grants_pageDescriptor (hg : Aligned g) {page : ℕ} (hpage : page < g.countTotal) :
    Grants (pageDescriptor g page) address ↔ NearPage g page address := by
  have hvalid : valid (pageDescriptor g page) = true := show decide ((1 : Word) &&& 1 ≠ 0) = true by decide
  have hrights : (pageDescriptor g page).permissions &&& 0x7 ≠ 0 := by
    change (0x1E : Word) &&& 0x7 ≠ 0
    decide
  have henforced := @enforces_pageDescriptor g page address hg hpage
  rw [pageStart_succ, ← hg.pageOrigin_eq hpage] at henforced
  unfold Grants NearPage
  rw [← henforced]
  exact ⟨fun h => h.2.2, fun h => ⟨hvalid, hrights, h⟩⟩

end Addresses

/-! ## Isolation -/

section Isolation

variable {cfg : Config} {g : Geometry} {r : Run KinetisMpu.State}

/-- Nothing after the last descriptor or the last priority has been accessed. -/
def WithinEnds (s : KinetisMpu.State) : Prop := ∀ access ∈ s.log, access.index < regionsMax

/-- Runs of the unit of a page heap that stay within the ends of its tables. -/
def Reached (cfg : Config) (g : Geometry) (r : Run KinetisMpu.State) : Prop :=
  Reachable (Initial (protection cfg g) g .kinetis) (step (protection cfg g) g)
    (fun r a => Permitted (protection cfg g) g r a ∧
      ∀ r' ∈ step (protection cfg g) g r a, WithinEnds r'.unit) r

theorem aligned_of_boots {alloc : PageAllocator.State} (h : Boots g .kinetis alloc) :
    Aligned g := by
  obtain ⟨_, _, _, _, _, _, hinit⟩ := h
  exact aligned_of_init hinit

/-- What holds in a run. -/
theorem inv_of_reached (h : Reached cfg g r) :
    Aligned g ∧ BoxIsolation.Inv (protection cfg g) g .kinetis r := by
  have hboots : ∃ alloc, Boots g .kinetis alloc :=
    h.invariant (fun _ => ∃ alloc, Boots g .kinetis alloc)
      (fun _ hinit => ⟨_, hinit.boots⟩) fun _ _ _ hboots _ _ => hboots
  obtain ⟨alloc, hboots⟩ := hboots
  have haligned := aligned_of_boots hboots
  exact ⟨haligned, inv_reachable (protection_lawful cfg haligned.wellFormed)
    (h.mono fun _ _ hallowed => hallowed.1)⟩

/-- A descriptor that is not static grants what the active box may use. -/
theorem accounted_of_grants (h : Reached cfg g r) {address : Word} {i : ℕ}
    (hlow : regionsStatic ≤ i) (hhigh : i < regionsMax)
    (hgrants : Grants (r.unit.words i) address) :
    (r.unit.activeBox ≠ 0 ∧
      ∃ region ∈ cfg.regions r.unit.activeBox, NearRegion region address) ∨
      ∃ page < g.countTotal, NearPage g page address ∧
        MayUse r.holder r.unit.activeBox page := by
  obtain ⟨haligned, hinv⟩ := inv_of_reached h
  rcases hinv.isolated _ ⟨i, hlow, hhigh, rfl, hgrants.1⟩ with
    ⟨hactive, region, hmem, hregion⟩ | ⟨hzero, -⟩ | ⟨page, hpage, hwindow, huse⟩
  · rw [hregion] at hgrants
    exact .inl ⟨hactive, region, hmem, (grants_listed hmem).mp hgrants⟩
  · exact absurd rfl hzero
  · have hslot : r.unit.words i = pageDescriptor g page := hwindow
    rw [hslot] at hgrants
    exact .inr ⟨page, hpage, (grants_pageDescriptor haligned hpage).mp hgrants, huse⟩

end Isolation

/-! ## A small device -/

/-- Box 1 has its stack, and no static descriptor is valid. -/
def smallConfig : Config where
  static _ := ⟨0, 0, 0, 0⟩
  regions boxId := if boxId = 1 then [⟨0x20008000, 0x20008400, 0x1E, 0x836⟩] else []
  translated boxId region hmem := by
    split at hmem
    · obtain rfl := List.mem_singleton.mp hmem
      exact .inr ⟨0x20008000, 0x400, 0x836, 0, 0x400, rfl⟩
    · cases hmem

/-- The unit after a boot. -/
def bootedUnit : Run KinetisMpu.State where
  unit := ⟨0, fun _ => ⟨0, 0, 0, 0⟩, 3, fun _ => 0, {booted.alloc with countFree := 8}, []⟩
  holder _ := none

theorem bootedUnit_initial :
    Initial (protection smallConfig eightPages) eightPages .kinetis bootedUnit where
  good := ⟨by decide, fun _ _ => rfl⟩
  boots := ⟨smallDevice, 0x20002000, 0x20004000, 0x400, 1024, booted.alloc, rfl⟩
  holder := rfl
  opens w hw := by
    obtain ⟨i, -, -, rfl, hvalid⟩ := hw
    exact absurd (show valid ⟨0, 0, 0, 0⟩ = true from hvalid) (by decide)

instance (s : KinetisMpu.State) : Decidable (WithinEnds s) :=
  inferInstanceAs (Decidable (∀ access ∈ s.log, access.index < regionsMax))

instance (s : KinetisMpu.State) (address : Word) : Decidable (Accessible s address) :=
  inferInstanceAs (Decidable (∃ i < regionsMax, Grants (s.words i) address))

instance (g : Geometry) : ∀ sys call, Decidable (PageOwnership.NoForeignFree g sys call)
  | _, .malloc _ _ => inferInstanceAs (Decidable True)
  | sys, .free box table => inferInstanceAs (Decidable (box = 0 ∨
      ∀ i < tableSize table.pageCount, Frees g box table sys.alloc i →
        sys.holder (entry g table i) ≠ some 0))

instance (cfg : Config) (g : Geometry) (r : Run KinetisMpu.State) (a : Action) :
    Decidable (Permitted (protection cfg g) g r a ∧
      ∀ r' ∈ step (protection cfg g) g r a, WithinEnds r'.unit) :=
  inferInstanceAs (Decidable ((∀ call ∈ a.allocatorCall _, PageOwnership.NoForeignFree _ _ call) ∧
    ∀ r' ∈ step (protection cfg g) g r a, WithinEnds r'.unit))

/-- Box 1 gets a page and accesses it. -/
def pageAccess : List Action := [.switch 1, .malloc ⟨1024, 1, fun _ => 0⟩, .fault 0x20002010]

end Uvisor.KinetisIsolation
