import Uvisor.AclSlices
import Uvisor.BoxPlacement
import Uvisor.PublicMemory

/-!
# Boot on ARMv7-M

Every region that a box ever has comes from the boot: the one for its memory,
and those of its access control list. In the runs after it a region of another
kind is a part of the page heap. Where the order of the boxes was chosen without
a halt, the memory of a secure box is closed to every other box, and the guard
in it to the box itself, unless an item of an access control list opens it.
-/

namespace Uvisor.MpuBoot

open PageAllocator hiding Table State step
open ArmMpu MpuIsolation PageSubregions FaultRecovery RegionEncoding Execution
open AlignedRegions BoxEnumeration BoxMemory BoxOrder BoxPlacement AclSlices
open MpuPriority (Translated translated_aligned translated_of_mem)

/-! ## What is loaded -/

/-- A part of the page heap: aligned, with subregions. -/
def HeapPart (r : Region) : Prop := 256 ≤ r.bytes ∧ r.bytes ∣ r.address.toNat

/-- A region of the active box or of box 0, or a part of the page heap. -/
def Kind (cfg : Config) (box : BoxId) (r : Region) : Prop :=
  (∃ region, (region ∈ cfg.regions box ∨ region ∈ cfg.regions 0) ∧ r = registers region) ∨
    HeapPart r

/-- All regions that are loaded and enabled are of these kinds. -/
structure Kinds (cfg : Config) (s : ArmMpu.State) : Prop where
  /-- The round robin is on a slot that is not static. -/
  slot : regionsStatic ≤ s.mpuSlot ∧ s.mpuSlot < regionsMax
  /-- The slots. -/
  slots : ∀ i, regionsStatic ≤ i → i < regionsMax → (s.mpu.regions i).enabled = true →
    Kind cfg s.activeBox (s.mpu.regions i)

section Kinds

variable {cfg : Config} {g : Geometry} {s t : ArmMpu.State}

/-- A loaded region is that of its registers. -/
theorem registers_of_loaded {r : Region} {regions : List MpuRegion} (h : Loaded r regions) :
    ∃ region ∈ regions, r = registers region := by
  obtain ⟨region, hmem, haddress, hrasr⟩ := h
  refine ⟨region, hmem, ?_⟩
  rw [registers, ← haddress, ← hrasr]

/-- The kinds together with what a load leaves alone. -/
def KindsFrom (cfg : Config) (s t : ArmMpu.State) : Prop :=
  Kinds cfg t ∧ t.activeBox = s.activeBox

theorem KindsFrom.trans {u : ArmMpu.State} (h : KindsFrom cfg s t) (h' : KindsFrom cfg t u) :
    KindsFrom cfg s u :=
  ⟨h'.1, h'.2.trans h.2⟩

/-- A push of a region of one of the kinds. -/
theorem Kinds.push (h : Kinds cfg s) {region : MpuRegion} (htranslated : Translated region)
    (hkind : Kind cfg s.activeBox (registers region)) (priority : ℕ) :
    KindsFrom cfg s (vmpuMpuPush region priority s) := by
  obtain ⟨slot, hlow, hhigh, hslot, hregions, hactive, -⟩ :=
    vmpuMpuPush_spec (translated_aligned htranslated) priority h.slot.1 h.slot.2
  refine ⟨⟨hslot ▸ ⟨hlow, hhigh⟩, fun i hi hi' henabled => ?_⟩, hactive⟩
  rw [hregions] at henabled ⊢
  rw [hactive]
  by_cases hsame : i = slot
  · subst hsame
    rw [Function.update_self]
    exact hkind
  · rw [Function.update_of_ne hsame] at henabled ⊢
    exact h.slots i hi hi' henabled

/-- The regions of a box are of these kinds when it is active, or is box 0. -/
theorem Kinds.pushAll (h : Kinds cfg s) {box : BoxId} (hbox : box = s.activeBox ∨ box = 0)
    {regions : List MpuRegion} (hregions : ∀ region ∈ regions, region ∈ cfg.regions box)
    (priority : ℕ) : KindsFrom cfg s (pushAll priority regions s) := by
  induction regions generalizing s with
  | nil => exact ⟨h, rfl⟩
  | cons region regions ih =>
    have hmem := hregions region List.mem_cons_self
    have hkind : Kind cfg s.activeBox (registers region) := by
      rcases hbox with rfl | rfl
      · exact .inl ⟨region, .inl hmem, rfl⟩
      · exact .inl ⟨region, .inr hmem, rfl⟩
    have hpush := h.push (translated_of_mem hmem) hkind priority
    exact hpush.trans (ih hpush.1 (by rw [hpush.2]; exact hbox)
      fun r hr => hregions r (List.mem_cons_of_mem _ hr))

/-- Eight pages are a part of the page heap. -/
theorem Kinds.pushPages (hg : HeapLayout g) (h : Kinds cfg s) {mask : BitVec 8} {index : ℕ}
    {more : Bool} (hs : vmpuMemPushPageAclIterator g mask index s = some (more, t)) :
    KindsFrom cfg s t := by
  obtain ⟨region, hregion, heq⟩ := Option.map_eq_some_iff.mp hs
  obtain ⟨-, rfl⟩ := Prod.mk.inj heq
  obtain ⟨k, hlow, hhigh, hsize⟩ := hg.pageSize_eq
  have htranslated : Translated region := ⟨_, _, _, _, hregion⟩
  rw [hsize] at hregion
  obtain ⟨hk, -, hconfig⟩ := translate_pages hlow hhigh hregion
  refine h.push htranslated (.inr ?_) 100
  obtain ⟨bits, -, -, hbytes, hdvd, -, -⟩ := translated_registers htranslated
  have hpages : (registers region).bytes = 2^(k+3) := by
    rw [registers, hconfig]
    exact bytes_pageAttributes hlow hk _
  refine ⟨?_, hbytes ▸ hdvd⟩
  rw [hpages]
  calc 256 = 2^8 := rfl
    _ ≤ 2^(k+3) := Nat.pow_le_pow_right (by decide) (by omega)

theorem Kinds.pageMasks (hg : HeapLayout g) (h : Kinds cfg s) {octets ii : ℕ}
    (hs : iteratePageMasks g (vmpuMemPushPageAclIterator g) octets ii s = some t) :
    KindsFrom cfg s t := by
  induction octets generalizing ii s with
  | zero =>
    obtain rfl := Option.some.inj hs
    exact ⟨h, rfl⟩
  | succ octets ih =>
    simp only [iteratePageMasks] at hs
    split at hs
    · obtain ⟨⟨more, u⟩, hpush, hs⟩ := Option.bind_eq_some_iff.mp hs
      have hu := h.pushPages hg hpush
      dsimp only at hs
      split at hs
      · exact hu.trans (ih hu.1 hs)
      · obtain rfl := Option.some.inj hs
        exact hu
    · exact ih h hs

/-- After an invalidation any box may be active. -/
theorem kinds_invalidated (cfg : Config) (s : ArmMpu.State) : Kinds cfg (vmpuMpuInvalidate s) := by
  obtain ⟨hslot, -, -, -, hdisabled⟩ := vmpuMpuInvalidate_spec s
  refine ⟨by rw [hslot]; decide, fun i hi hi' henabled => ?_⟩
  rw [hdisabled i hi hi'] at henabled
  cases henabled

theorem kinds_switch (hg : HeapLayout g) {dstBox : BoxId}
    (hs : vmpuSwitch cfg g dstBox {s with activeBox := dstBox} = some t) : Kinds cfg t := by
  have hinvalid := kinds_invalidated cfg {s with activeBox := dstBox}
  have hactive := (vmpuMpuInvalidate_spec {s with activeBox := dstBox}).2.1
  rcases vmpuSwitch_cases hs with ⟨-, region, rest, u, hbox, hmasks, rfl⟩ | ⟨-, u, hmasks, rfl⟩
  · have hmem : ∀ r ∈ region :: rest, r ∈ cfg.regions dstBox := fun r hr => hbox ▸ hr
    have hfirst := hmem region List.mem_cons_self
    have hpush := hinvalid.push (translated_of_mem hfirst)
      (.inl ⟨region, .inl (by rw [hactive]; exact hfirst), rfl⟩) 255
    have hpages := hpush.trans (hpush.1.pageMasks hg hmasks)
    exact (hpages.1.pushAll (.inl (hpages.2.trans hactive).symm)
      (fun r hr => hmem r (List.mem_cons_of_mem _ hr)) 2).1
  · have hpages := hinvalid.pageMasks hg hmasks
    have hown := hpages.1.pushAll (.inl (hpages.2.trans hactive).symm) (fun r hr => hr) 2
    exact (hown.1.pushAll (.inr rfl) (fun r hr => hr) 1).1

theorem Kinds.fault (hg : HeapLayout g) (h : Kinds cfg s) {faultAddr faultStatus : Word}
    {recovered : Bool}
    (hs : vmpuFaultRecoveryMpu cfg g faultAddr faultStatus s = some (recovered, t)) :
    Kinds cfg t := by
  unfold vmpuFaultRecoveryMpu at hs
  split at hs
  · obtain ⟨-, rfl⟩ := Prod.mk.inj (Option.some.inj hs)
    exact h
  · split at hs
    · rename_i mask index page hmask
      obtain ⟨⟨more, u⟩, hpush, heq⟩ := Option.map_eq_some_iff.mp hs
      obtain ⟨-, rfl⟩ := Prod.mk.inj heq
      have hcounted : Kinds cfg {s with alloc := pageAllocatorRegisterFault g page s.alloc} :=
        ⟨h.slot, h.slots⟩
      exact (hcounted.pushPages hg hpush).1
    · split at hs
      · obtain ⟨-, rfl⟩ := Prod.mk.inj (Option.some.inj hs)
        exact h
      · rename_i region hregion
        obtain ⟨-, rfl⟩ := Prod.mk.inj (Option.some.inj hs)
        obtain ⟨box, hbox, hmem⟩ := vmpuFaultFindRegion_mem hregion
        have hkind : Kind cfg s.activeBox (registers region) := by
          rcases hbox with rfl | rfl
          · exact .inl ⟨region, .inl hmem, rfl⟩
          · exact .inl ⟨region, .inr hmem, rfl⟩
        exact (h.push (translated_of_mem hmem) hkind 3).1

theorem kinds_step (hg : HeapLayout g) {a : Action} (h : Kinds cfg s)
    (hs : step cfg g s a = some t) : Kinds cfg t := by
  cases a with
  | switch dstBox =>
    simp only [MpuIsolation.step] at hs
    split at hs
    · exact kinds_switch hg hs
    · cases hs
  | fault faultAddr faultStatus =>
    simp only [MpuIsolation.step] at hs
    split at hs
    · rename_i u hrecovered
      obtain rfl := Option.some.inj hs
      exact h.fault hg hrecovered
    · cases hs
  | malloc table =>
    obtain rfl := Option.some.inj hs
    exact ⟨h.slot, h.slots⟩
  | free table =>
    obtain rfl := Option.some.inj hs
    exact ⟨h.slot, h.slots⟩
  | invalidate =>
    obtain rfl := Option.some.inj hs
    exact kinds_invalidated cfg s

theorem kinds_initial (h : Initial cfg g s) : Kinds cfg s := by
  obtain ⟨hactive, hlow, hhigh, -, hdynamic, -⟩ := h
  refine ⟨⟨hlow, hhigh⟩, fun i hi hi' henabled => ?_⟩
  obtain ⟨region, hmem, heq⟩ := registers_of_loaded (hdynamic i hi hi' henabled)
  exact .inl ⟨region, .inr hmem, heq⟩

end Kinds

/-! ## Accesses -/

section Accesses

variable {cfg : Config} {g : Geometry} {s : ArmMpu.State} {address : Word} {access : Access}

/-- Some region decides when an access is granted. -/
theorem exposes_of_grants {regions : ℕ → Region} {n : ℕ}
    (h : grantsBelow regions address access n = true) :
    ∃ i < n, PublicMemory.exposes (regions i) address access = true := by
  induction n with
  | zero => cases h
  | succ n ih =>
    simp only [grantsBelow] at h
    split at h
    · rename_i hhits
      exact ⟨n, Nat.lt_succ_self n, by rw [PublicMemory.exposes, hhits, h]; rfl⟩
    · obtain ⟨i, hi, hexposes⟩ := ih h
      exact ⟨i, Nat.lt_succ_of_lt hi, hexposes⟩

/-- An address in a part of the page heap is in one of the pages that the part
gives access to. -/
theorem inPage_of_hits {r : Region} (hpart : HeapPart r) (hpages : PageRegion g s r)
    (hhits : r.hits address = true) :
    ∃ page, InPage g page address ∧
      (mapGet g (s.alloc.ownerMap s.activeBox) page = true ∨
        mapGet g s.alloc.usageMap page = false) := by
  obtain ⟨hlarge, hdvd⟩ := hpart
  simp only [Region.hits, Region.keeps, Bool.and_eq_true, Bool.or_eq_true,
    decide_eq_true_eq] at hhits
  obtain ⟨⟨-, hcovers⟩, hkeeps⟩ := hhits
  obtain ⟨hlow, hhigh⟩ := (covers_iff hdvd (by omega)).mp hcovers
  have hsub := subregionOf_eq hdvd (by omega) hcovers
  have hbytes : r.subregionBytes = r.bytes/8 := rfl
  have hpow : 8 ∣ r.bytes := by
    have hthree : 2^3 ∣ r.bytes := by
      refine (Nat.pow_dvd_pow_iff_le_right (by decide : 1 < 2)).mpr ?_
      by_contra hlt
      have hsmall : r.bytes ≤ 2^3 := Nat.pow_le_pow_right (by decide) (by omega)
      omega
    exact hthree
  have hindex : r.subregionOf address < 8 := by
    rw [hsub]
    exact Nat.div_lt_of_lt_mul (by omega)
  obtain ⟨page, hpage, hstart, hsize, huse⟩ :=
    hpages _ hindex (hkeeps.resolve_left (by omega))
  refine ⟨page, ⟨hpage, ?_⟩, huse⟩
  have hpos : 0 < r.subregionBytes := by omega
  have hdiv := Nat.div_add_mod (address.toNat-r.address.toNat) r.subregionBytes
  have hmod := Nat.mod_lt (address.toNat-r.address.toNat) hpos
  rw [Nat.mul_comm, ← hsub] at hdiv
  have hword := address.isLt
  rw [Region.subregionStart, Nat.mod_eq_of_lt (by omega)] at hstart
  rw [← hstart, ← hsize]
  omega

/-- An address is in a static region, in a region of the active box or of box 0,
or in a page that the active box owns or that nobody uses. -/
def Accounted (cfg : Config) (g : Geometry) (s : ArmMpu.State) (address : Word) (access : Access) :
    Prop :=
  (∃ i < regionsStatic, PublicMemory.exposes (cfg.static i) address access = true) ∨
    (∃ region, (region ∈ cfg.regions s.activeBox ∨ region ∈ cfg.regions 0) ∧
      PublicMemory.exposes (registers region) address access = true) ∨
    ∃ page, InPage g page address ∧
      (mapGet g (s.alloc.ownerMap s.activeBox) page = true ∨
        mapGet g s.alloc.usageMap page = false)

/-- In every run what the unit grants is accounted for. -/
theorem accounted_of_grants
    (h : Reachable (Initial cfg g) (step cfg g) (fun _ _ => True) s)
    (hgrants : s.mpu.grants address access = true) : Accounted cfg g s address access := by
  obtain ⟨hg, hinv⟩ := inv_reachable h
  have hkinds : Kinds cfg s := (h.invariant (fun s => HeapLayout g ∧ Kinds cfg s)
    (fun _ hinit => ⟨(inv_initial hinit).1, kinds_initial hinit⟩)
    fun _ _ _ hi _ hs => ⟨hi.1, kinds_step hi.1 hi.2 hs⟩).2
  obtain ⟨i, hi, hexposes⟩ := exposes_of_grants hgrants
  by_cases hstatic : i < regionsStatic
  · exact .inl ⟨i, hstatic, hinv.isolated.static i hstatic ▸ hexposes⟩
  have hhits : (s.mpu.regions i).hits address = true := by
    rw [PublicMemory.exposes, Bool.and_eq_true] at hexposes
    exact hexposes.1
  have henabled : (s.mpu.regions i).enabled = true := by
    simp only [Region.hits, Bool.and_eq_true] at hhits
    exact hhits.1.1
  have hloaded : ∀ box, box = s.activeBox ∨ box = 0 → Loaded (s.mpu.regions i) (cfg.regions box) →
      Accounted cfg g s address access := by
    intro box hbox hloaded
    obtain ⟨region, hmem, heq⟩ := registers_of_loaded hloaded
    refine .inr (.inl ⟨region, ?_, heq ▸ hexposes⟩)
    rcases hbox with rfl | rfl
    · exact .inl hmem
    · exact .inr hmem
  rcases hinv.isolated.dynamic i (not_lt.mp hstatic) hi henabled with hown | hzero | hpages
  · exact hloaded _ (.inl rfl) hown
  · exact hloaded _ (.inr rfl) hzero
  · rcases hkinds.slots i (not_lt.mp hstatic) hi henabled with ⟨region, hmem, heq⟩ | hpart
    · exact .inr (.inl ⟨region, hmem, heq ▸ hexposes⟩)
    · exact .inr (.inr (inPage_of_hits hpart hpages hhits))

end Accesses

/-! ## The boxes -/

/-- A region that an item of an access control list asks for. -/
def ItemRegion (item : AclItem) (region : MpuRegion) : Prop :=
  isIrq item = false ∧ ∃ rounded, translateAcl (BitVec.ofNat 32 item.param1)
    (BitVec.ofNat 32 item.param2) (BitVec.ofNat 32 item.acl ||| taclUser) 0 = some (region, rounded)

section Boxes

variable {boxId : ℕ} {t : Table}

/-- The first region of a box with regions. -/
theorem firstRegion_eq (h : Bounded t) {first : MpuRegion} {rest : List MpuRegion}
    (hregions : boxRegions t boxId = first :: rest) : firstRegion t boxId = some first := by
  cases hslice : (t.mpuBoxRegion boxId).regions with
  | none =>
    rw [boxRegions, h.empty boxId hslice] at hregions
    cases hregions
  | some base =>
    have hhead := congrArg List.head? hregions
    rw [boxRegions] at hhead
    cases hcount : (t.mpuBoxRegion boxId).count with
    | zero =>
      rw [hcount] at hhead
      cases hhead
    | succ count =>
      rw [hcount, List.range_succ_eq_map, List.map_cons, List.head?_cons, List.head?_cons,
        Table.firstIndex, hslice] at hhead
      rw [firstRegion, hslice]
      exact hhead

end Boxes

section Registering

variable {u : UvisorConfig} {sys : Virq.Platform} {psp n index : ℕ} {order : ℕ → ℕ}
  {m m' : BoxMemory.State × Virq.State} {reg : Registration} {regs : ℕ → Option Registration}

/-- An item of an access control list adds what it asks for. -/
theorem filling_addAcl {item : AclItem} (h : Filling n m.1.table)
    (hs : (boxDriver u sys).addAcl m n item = some m') :
    Filling n m'.1.table ∧ Appended n (ItemRegion item) m.1.table m'.1.table := by
  obtain ⟨s, virq⟩ := m
  simp only [boxDriver] at hs
  split_ifs at hs with hirq
  · obtain ⟨virq', -, rfl⟩ := Option.map_eq_some_iff.mp hs
    exact ⟨h, .refl n _ _⟩
  · obtain ⟨⟨rounded, table⟩, hadd, rfl⟩ := Option.map_eq_some_iff.mp hs
    unfold BoxMemory.vmpuRegionAddStaticAcl at hadd
    split_ifs at hadd
    obtain ⟨⟨region, size⟩, htranslate, heq⟩ := Option.map_eq_some_iff.mp hadd
    obtain ⟨-, rfl⟩ := Prod.mk.inj heq
    obtain ⟨hfilling, happended⟩ := h.store region
    refine ⟨hfilling, happended.mono fun other hother => ?_⟩
    rw [hother]
    exact ⟨by simpa [isIrq] using hirq, size, htranslate⟩

theorem filling_addAclsFrom {count region : ℕ} {acls : List AclItem} (h : Filling n m.1.table)
    (hs : addAclsFrom (boxDriver u sys) u n count region m = some (acls, m')) :
    Filling n m'.1.table ∧
      Appended n (fun region => ∃ item ∈ acls, ItemRegion item region) m.1.table m'.1.table := by
  induction count generalizing region acls m with
  | zero =>
    obtain ⟨-, rfl⟩ := Prod.mk.inj (Option.some.inj hs)
    exact ⟨h, .refl n _ _⟩
  | succ count ih =>
    simp only [addAclsFrom] at hs
    split at hs
    · cases hs
    split at hs
    · cases hs
    rename_i m₁ hitem
    split at hs
    · cases hs
    rename_i rest m₂ hrest
    obtain ⟨rfl, rfl⟩ := Prod.mk.inj (Option.some.inj hs)
    obtain ⟨hfilling, happended⟩ := filling_addAcl h hitem
    obtain ⟨hfilling', happended'⟩ := ih hfilling hrest
    refine ⟨hfilling', (happended.mono fun other hother => ⟨_, List.mem_cons_self, hother⟩).trans
      (happended'.mono fun other hother => ?_)⟩
    obtain ⟨item, hmem, hregion⟩ := hother
    exact ⟨item, List.mem_cons_of_mem _ hmem, hregion⟩

theorem filling_peripherals {config : BoxConfig} {acls : List AclItem} (h : Filling n m.1.table)
    (hs : configureBoxPeripherals (boxDriver u sys) u m n config = some (acls, m')) :
    Filling n m'.1.table ∧
      Appended n (fun region => ∃ item ∈ acls, ItemRegion item region) m.1.table m'.1.table := by
  unfold configureBoxPeripherals at hs
  split at hs
  · obtain ⟨-, rfl⟩ := Prod.mk.inj (Option.some.inj hs)
    exact ⟨h, .refl n _ _⟩
  · exact filling_addAclsFrom h hs

/-- The regions of a registered box: the one for its memory, unless it is the
public box, and those of the items of its access control list. -/
def Asked (u : UvisorConfig) (boxId index : ℕ) (reg : Registration) (regions : List MpuRegion) :
    Prop :=
  ∃ items, (∀ region ∈ items, ∃ item ∈ reg.acls, ItemRegion item region) ∧
    if boxId = 0 then regions = items
    else ∃ pos, regions = sramRegion pos (configAt u index).bss.total
      (configAt u index).stackSize :: items

/-- One pass of the loop adds for the box what it asks for. -/
theorem filling_registerBox (h : Filling n m.1.table) (hnone : boxRegions m.1.table n = [])
    (hs : registerBox (boxDriver u sys) u psp m n index = some (reg, m')) :
    Filling n m'.1.table ∧ (∀ b, b ≠ n → boxRegions m'.1.table b = boxRegions m.1.table b) ∧
      Asked u n index reg (boxRegions m'.1.table n) := by
  obtain ⟨m₁, hregistered⟩ := registerBox_registered hs
  rcases Nat.eq_zero_or_pos n with rfl | hn
  · have hsame := hregistered.public_eq
    rw [← hsame] at h hnone ⊢
    obtain ⟨hfilling, happended⟩ := filling_peripherals h hregistered.peripherals
    obtain ⟨added, hadded, hitems⟩ := happended.regions
    exact ⟨hfilling, happended.others, added, hitems, hadded.trans (by rw [hnone]; rfl)⟩
  · have hsram := hregistered.aclSram hn.ne'
    obtain ⟨s, virq⟩ := m
    simp only [boxDriver] at hsram
    split at hsram
    swap
    · cases hsram
    rename_i bssStart sp s' hok
    obtain ⟨-, hrest⟩ := Prod.mk.inj (Option.some.inj hsram)
    obtain ⟨-, hm₁⟩ := Prod.mk.inj hrest
    have hplaced := vmpuAclSram_placed hok
    obtain ⟨hfilling, happended⟩ := h.store (sramRegion (BoxMemory.memPos u.bssBoxesStart s)
      (configAt u index).bss.total (configAt u index).stackSize)
    have htable : m₁.1.table = s.table.store n (sramRegion (BoxMemory.memPos u.bssBoxesStart s)
        (configAt u index).bss.total (configAt u index).stackSize) := by
      rw [← hm₁]
      exact hplaced.table_eq
    rw [← htable] at hfilling happended
    obtain ⟨hfilling', happended'⟩ := filling_peripherals hfilling hregistered.peripherals
    obtain ⟨added, hadded, hitems⟩ := happended'.regions
    refine ⟨hfilling', fun b hb => (happended'.others b hb).trans (happended.others b hb),
      added, hitems, ?_⟩
    rw [if_neg hn.ne']
    refine ⟨BoxMemory.memPos u.bssBoxesStart s, ?_⟩
    rw [hadded, htable, boxRegions_store_self]
    dsimp only at hnone
    rw [hnone]
    rfl

/-- The boxes before an identifier have the regions that they have asked for. -/
theorem boxRegions_asked (h : NoRegions m.1.table)
    (hs : registerBoxes (boxDriver u sys) u psp order m n = some (regs, m')) :
    Filling n m'.1.table ∧ (∀ b, n ≤ b → boxRegions m'.1.table b = []) ∧
      ∀ b, b < n → ∃ reg, regs b = some reg ∧
        Asked u b (order b) reg (boxRegions m'.1.table b) := by
  induction n generalizing regs m' with
  | zero =>
    obtain ⟨-, rfl⟩ := Prod.mk.inj (Option.some.inj hs)
    exact ⟨h.filling, fun b _ => boxRegions_nil (h b), fun b hb => absurd hb (Nat.not_lt_zero b)⟩
  | succ n ih =>
    obtain ⟨before, m₁, reg, hbefore, hreg, rfl⟩ := registerBoxes_succ hs
    obtain ⟨hfilling, hnone, hasked⟩ := ih hbefore
    obtain ⟨hnext, hothers, hbox⟩ := filling_registerBox hfilling (hnone n le_rfl) hreg
    refine ⟨hnext.next, fun b hb => ?_, fun b hb => ?_⟩
    · rw [hothers b (by omega)]
      exact hnone b (by omega)
    · by_cases hsame : b = n
      · subst hsame
        rw [Function.update_self]
        exact ⟨reg, rfl, hbox⟩
      · rw [hothers b hsame, Function.update_of_ne hsame]
        exact hasked b (by omega)

end Registering

/-! ## The static regions -/

section Static

variable {l : PublicMemory.LinkerConfig} {s t : ArmMpu.State} {address : Word} {access : Access}

/-- End of the region of flash: its size is rounded up to a power of two. -/
def flashEnd (l : PublicMemory.LinkerConfig) : ℕ :=
  l.flashOrigin.toNat+2^max alignmentBits (Nat.clog 2 (l.secureEnd-l.flashOrigin).toNat)

/-- Sizes that are not rounded down. -/
theorem roundedBits_up {size acl : Word} {bits : ℕ} (hacl : acl &&& taclSizeRoundDown = 0)
    (h : roundedBits size acl = some bits) :
    bits = max alignmentBits (Nat.clog 2 size.toNat) := by
  obtain ⟨up, hup, h⟩ := Option.bind_eq_some_iff.mp h
  have hsize : size ≠ 0 := by
    rintro rfl
    cases hup
  rw [vmpuRegionBits_eq hsize] at hup
  obtain rfl := Option.some.inj hup
  split_ifs at h with hbits hrounded hnone hdown hsmall
  · exact absurd hacl hdown
  · exact (Option.some.inj h).symm
  · exact (Option.some.inj h).symm

/-- An access that a region grants is to one of its bytes. -/
theorem within_of_exposes {region : MpuRegion} (h : Translated region)
    (hexposes : PublicMemory.exposes (registers region) address access = true) :
    region.start.toNat ≤ address.toNat ∧
      address.toNat < region.start.toNat+(registers region).bytes := by
  obtain ⟨bits, -, -, hbytes, hdvd, -, -⟩ := translated_registers h
  simp only [PublicMemory.exposes, Region.hits, Bool.and_eq_true] at hexposes
  obtain ⟨⟨⟨-, hcovers⟩, -⟩, -⟩ := hexposes
  have hpos : 0 < (registers region).bytes := hbytes ▸ Nat.two_pow_pos bits
  exact (covers_iff (r := registers region) (hbytes ▸ hdvd) hpos).mp hcovers

/-- The static regions grant access to flash, and to memory behind the page heap. -/
theorem static_within (hstart : l.publicSramStart ≤ l.pageEnd) (hend : l.pageEnd ≤ l.publicSramEnd)
    (hsize : 256 ≤ (l.publicSramEnd-l.publicSramStart).toNat)
    (h : PublicMemory.vmpuArchInitHw l s = some t) {i : ℕ} (hi : i < regionsStatic)
    (hexposes : PublicMemory.exposes (t.mpu.regions i) address access = true) :
    address.toNat < flashEnd l ∨
      l.pageEnd.toNat ≤ address.toNat ∧ address.toNat < PublicMemory.windowEnd l := by
  have hle : l.publicSramStart.toNat ≤ l.pageEnd.toNat := hstart
  have hle' : l.pageEnd.toNat ≤ l.publicSramEnd.toNat := hend
  obtain rfl | rfl : i = 0 ∨ i = 1 := by
    have htwo : regionsStatic = 2 := rfl
    omega
  · left
    obtain ⟨⟨rounded, s₀⟩, hflash, h⟩ := Option.bind_eq_some_iff.mp h
    obtain ⟨total, -, h⟩ := Option.bind_eq_some_iff.mp h
    dsimp only at h
    split at h
    · cases h
    obtain ⟨⟨rounded', s₁⟩, hsram, h⟩ := Option.bind_eq_some_iff.mp h
    dsimp only at h
    split_ifs at h
    obtain rfl := Option.some.inj h
    obtain ⟨region, htranslate, hregions⟩ := PublicMemory.vmpuMpuSetStaticAcl_spec hflash
    obtain ⟨region', -, hregions'⟩ := PublicMemory.vmpuMpuSetStaticAcl_spec hsram
    rw [hregions', Function.update_of_ne (by decide), hregions, Function.update_self] at hexposes
    have hwithin := (within_of_exposes (translated_of_translateAcl htranslate) hexposes).2
    obtain ⟨bits, config, hbits, hconfig, -, -, rfl⟩ := translateAcl_spec htranslate
    obtain ⟨hfive, hlt⟩ := roundedBits_range hbits
    have hbytes : (registers ⟨l.flashOrigin, l.flashOrigin+(1 : Word) <<< bits,
        attributes config bits 0, PublicMemory.tacldefSecureConst ||| taclExecute⟩).bytes =
        2^bits := attributes_bytes hconfig hfive hlt _ _
    rw [hbytes, roundedBits_up (by decide) hbits] at hwithin
    exact hwithin
  · right
    obtain ⟨bits, n, config, hbits, hlog, hlt, hn, hdvd, hconfig, hregion⟩ :=
      PublicMemory.vmpuArchInitHw_spec hsize h
    have hsram : (l.publicSramEnd-l.publicSramStart).toNat =
        l.publicSramEnd.toNat-l.publicSramStart.toNat :=
      BitVec.toNat_sub_of_le (BitVec.le_def.mpr (hle.trans hle'))
    have hprotected : (l.pageEnd-l.publicSramStart).toNat =
        l.pageEnd.toNat-l.publicSramStart.toNat := BitVec.toNat_sub_of_le hstart
    have hcovers : (l.publicSramEnd-l.publicSramStart).toNat ≤ 2^bits :=
      hbits ▸ Nat.le_pow_clog (by decide) _
    have height : 2^bits = 8*(2^bits/8) :=
      (Nat.mul_div_cancel' ((Nat.pow_dvd_pow_iff_le_right (by decide : 1 < 2)).mpr
        (show 3 ≤ bits by omega))).symm
    have hcount : n ≤ 8 := by
      have hpos : 0 < 2^bits/8 := by
        have := Nat.two_pow_pos bits
        omega
      refine Nat.le_of_mul_le_mul_right (c := 2^bits/8) ?_ hpos
      omega
    rw [hregion, PublicMemory.exposes_attributes_iff hconfig hlog hlt hdvd hcount] at hexposes
    rw [PublicMemory.windowEnd, ← hsram, ← hbits]
    omega

end Static

/-! ## Isolation -/

/-- Where the linker has put the memory for secure boxes: behind flash, outside
the window to public memory, and outside the page heap. -/
structure Outside (u : UvisorConfig) (l : PublicMemory.LinkerConfig) (g : Geometry) : Prop where
  /-- The memory does not end before it starts. -/
  boxes : u.bssBoxesStart ≤ u.bssBoxesEnd
  /-- It is inside the address space. -/
  boxesEnd : u.bssBoxesEnd < 2^32
  /-- Public memory starts before the page heap ends. -/
  sramStart : l.publicSramStart ≤ l.pageEnd
  /-- It does not end before. -/
  sramEnd : l.pageEnd ≤ l.publicSramEnd
  /-- It is large enough for subregions. -/
  sramSize : 256 ≤ (l.publicSramEnd-l.publicSramStart).toNat
  /-- Flash ends before the boxes. -/
  flash : flashEnd l ≤ u.bssBoxesStart
  /-- The window to public memory is elsewhere. -/
  window : PublicMemory.windowEnd l ≤ u.bssBoxesStart ∨ u.bssBoxesEnd ≤ l.pageEnd.toNat
  /-- So is the page heap. -/
  pages : g.heapEnd ≤ u.bssBoxesStart ∨ u.bssBoxesEnd ≤ g.heapStart

/-- A boot that has not halted. -/
structure Booted (u : UvisorConfig) (sys : Virq.Platform) (psp : ℕ) (l : PublicMemory.LinkerConfig)
    (order : ℕ → ℕ) (s : ArmMpu.State) (regs : ℕ → Option Registration)
    (m : BoxMemory.State × Virq.State) : Prop where
  /-- The static regions have been set. -/
  arch : ∃ before, PublicMemory.vmpuArchInitHw l before = some s
  /-- The order of the boxes has been chosen. -/
  chosen : vmpuOrderBoxes .armv7m u (boxCount u) = some order
  /-- The regions of the boxes have been added in that order. -/
  boxes : ∃ before, Cleared before.1 ∧
    registerBoxes (boxDriver u sys) u psp order before (boxCount u) = some (regs, m)

/-- A region that has been asked for has been translated. -/
theorem Asked.translated {u : UvisorConfig} {boxId index : ℕ} {reg : Registration}
    {regions : List MpuRegion} (h : Asked u boxId index reg regions) {region : MpuRegion}
    (hmem : region ∈ regions) : Translated region := by
  obtain ⟨items, hitems, hregions⟩ := h
  have hitem : region ∈ items → Translated region := fun hmem => by
    obtain ⟨item, -, -, rounded, htranslate⟩ := hitems region hmem
    exact translated_of_translateAcl htranslate
  split_ifs at hregions
  · exact hitem (hregions ▸ hmem)
  · obtain ⟨pos, rfl⟩ := hregions
    rcases List.mem_cons.mp hmem with rfl | hmem
    · exact translated_of_translateAcl (translateAcl_sram _ _ _)
    · exact hitem hmem

/-- An item of the access control list of a box opens an address. -/
def ItemOpens (regs : ℕ → Option Registration) (box : BoxId) (address : Word) (access : Access) :
    Prop :=
  ∃ reg item region, regs box.val = some reg ∧ item ∈ reg.acls ∧ ItemRegion item region ∧
    PublicMemory.exposes (registers region) address access = true

/-- An address in the memory of a box, as the estimate has placed it. -/
def InBox (u : UvisorConfig) (order : ℕ → ℕ) (boxId : ℕ) (address : Word) : Prop :=
  (boxSpan u order boxId).start ≤ address.toNat ∧ address.toNat < (boxSpan u order boxId).ends

/-- An address in the subregion between the BSS sections of a box and its stack. -/
def InGuard (u : UvisorConfig) (order : ℕ → ℕ) (boxId : ℕ) (address : Word) : Prop :=
  0 < slotsForBss (configAt u (order boxId)).bss.total (boxBytes u (order boxId)/8) ∧
    (address.toNat-(boxSpan u order boxId).start)/(boxBytes u (order boxId)/8) =
      slotsForBss (configAt u (order boxId)).bss.total (boxBytes u (order boxId)/8)

section Isolation

variable {u : UvisorConfig} {sys : Virq.Platform} {psp : ℕ} {l : PublicMemory.LinkerConfig}
  {order : ℕ → ℕ} {s₀ s : ArmMpu.State} {regs : ℕ → Option Registration}
  {m : BoxMemory.State × Virq.State} {g : Geometry} {address : Word} {access : Access}

theorem Booted.asked (h : Booted u sys psp l order s₀ regs m) :
    (∀ b, boxCount u ≤ b → boxRegions m.1.table b = []) ∧
      ∀ b, b < boxCount u → ∃ reg, regs b = some reg ∧
        Asked u b (order b) reg (boxRegions m.1.table b) := by
  obtain ⟨before, hcleared, hregs⟩ := h.boxes
  exact (boxRegions_asked hcleared.2 hregs).2

/-- The regions that a boot has set up. -/
def bootConfig (h : Booted u sys psp l order s₀ regs m) : Config where
  boxCount := boxCount u
  regions := fun b => boxRegions m.1.table b.val
  static := s₀.mpu.regions
  translated b region hmem := by
    rcases lt_or_ge b.val (boxCount u) with hlt | hge
    · obtain ⟨reg, -, hasked⟩ := h.asked.2 b.val hlt
      exact hasked.translated hmem
    · rw [h.asked.1 b.val hge] at hmem
      cases hmem

theorem Booted.placement (h : Booted u sys psp l order s₀ regs m) (hplaced : Outside u l g)
    (hfit : NoOverflow u (secureBoxes (boxCount u) order)) :
    Placement u order (boxCount u) m.1 := by
  obtain ⟨before, hcleared, hregs⟩ := h.boxes
  refine registerBoxes_placement hfit ?_ le_rfl hregs
  refine ⟨?_, fun boxId _ hlast => by omega, fun boxId _ => hcleared.2 boxId⟩
  have hword := hplaced.boxes.trans_lt hplaced.boxesEnd
  rw [memPos, if_pos hcleared.1, BitVec.toNat_ofNat]
  exact Nat.mod_eq_of_lt hword

/-- The boxes are laid out one after the other. -/
theorem boxSpan_ends_le (u : UvisorConfig) (order : ℕ → ℕ) {first last : ℕ} (hfirst : 1 ≤ first)
    (hlt : first < last) : (boxSpan u order first).ends ≤ (boxSpan u order last).start := by
  have hmono : boxesEnd u (secureBoxes (first+1) order) ≤ boxesEnd u (secureBoxes last order) :=
    boxesEnd_mono u order (by omega) hlt
  rw [boxesEnd_succ hfirst] at hmono
  exact hmono.trans (le_alignUp _ (lt_of_lt_of_le (by decide) (le_regionBytes _)))

/-- Two boxes have no byte in common. -/
theorem eq_of_inBox {a b : ℕ} (ha : 1 ≤ a) (hb : 1 ≤ b) (hin : InBox u order a address)
    (hin' : InBox u order b address) : a = b := by
  obtain ⟨hlow, hhigh⟩ := hin
  obtain ⟨hlow', hhigh'⟩ := hin'
  rcases lt_trichotomy a b with hlt | heq | hgt
  · have := boxSpan_ends_le u order ha hlt
    omega
  · exact heq
  · have := boxSpan_ends_le u order hb hgt
    omega

/-- The boxes are in the memory for secure boxes. -/
theorem Booted.inside (h : Booted u sys psp l order s₀ regs m) (hplaced : Outside u l g)
    (hfit : NoOverflow u (secureBoxes (boxCount u) order)) {boxId : ℕ} (hfirst : 1 ≤ boxId)
    (hlast : boxId < boxCount u) (hin : InBox u order boxId address) :
    u.bssBoxesStart ≤ address.toNat ∧ address.toNat < u.bssBoxesEnd := by
  have hle := estimate_le hplaced.boxes hplaced.boxesEnd h.chosen
  rw [sramSize_eq hfit, consumption] at hle
  have hbase := le_boxesEnd u (secureBoxes (boxCount u) order)
  have hlow := le_boxesEnd u (secureBoxes boxId order)
  have hup : boxesEnd u (secureBoxes boxId order) ≤ (boxSpan u order boxId).start :=
    le_alignUp _ (lt_of_lt_of_le (by decide) (le_regionBytes _))
  have hends : boxesEnd u (secureBoxes (boxId+1) order) ≤
      boxesEnd u (secureBoxes (boxCount u) order) := boxesEnd_mono u order (by omega) hlast
  rw [boxesEnd_succ hfirst] at hends
  obtain ⟨hstart, hend⟩ := hin
  have hboxes := hplaced.boxes
  omega

/-- The region for the memory of a box is where the estimate has it. -/
theorem sram_of_placedAt {boxId bssSize stackSize : ℕ} {pos : Word}
    (h : PlacedAt u order boxId (sramRegion pos bssSize stackSize)) :
    sramStart pos bssSize stackSize = (boxSpan u order boxId).start ∧
      sramBytes bssSize stackSize = boxBytes u (order boxId) := by
  have hstart := h.start
  have hends := h.ends
  rw [show (sramRegion pos bssSize stackSize).start.toNat = _ from
    sramStart_toNat pos bssSize stackSize] at hstart
  refine ⟨hstart, ?_⟩
  have hle := sramBytes_le bssSize stackSize
  have hpos : 256 ≤ sramBytes bssSize stackSize := le_regionBytes _
  have hword : (boxSpan u order boxId).ends < 2^32 := hends ▸ BitVec.isLt _
  have hsize : (boxSpan u order boxId).ends =
      (boxSpan u order boxId).start+boxBytes u (order boxId) := rfl
  rw [sramRegion, BitVec.toNat_add, sramStart_toNat, BitVec.toNat_ofNat, hstart] at hends
  omega

/-- What a region of a box gives access to: the memory of the box without its
guard, or what an item of its access control list opens. -/
theorem Booted.opens (h : Booted u sys psp l order s₀ regs m) (hplaced : Outside u l g)
    (hfit : NoOverflow u (secureBoxes (boxCount u) order)) {box : BoxId} {region : MpuRegion}
    (hmem : region ∈ boxRegions m.1.table box.val)
    (hexposes : PublicMemory.exposes (registers region) address access = true) :
    ItemOpens regs box address access ∨
      (1 ≤ box.val ∧ box.val < boxCount u ∧ InBox u order box.val address ∧
        ¬InGuard u order box.val address) := by
  rcases lt_or_ge box.val (boxCount u) with hlt | hge
  swap
  · rw [h.asked.1 box.val hge] at hmem
    cases hmem
  obtain ⟨reg, hreg, items, hitems, hregions⟩ := h.asked.2 box.val hlt
  have hitem : region ∈ items → ItemOpens regs box address access := fun hmem => by
    obtain ⟨item, hlist, hregion⟩ := hitems region hmem
    exact ⟨reg, item, region, hreg, hlist, hregion, hexposes⟩
  split_ifs at hregions with hzero
  · exact .inl (hitem (hregions ▸ hmem))
  obtain ⟨pos, hregions⟩ := hregions
  rw [hregions] at hmem
  rcases List.mem_cons.mp hmem with rfl | hmem
  swap
  · exact .inl (hitem hmem)
  have hfirst : 1 ≤ box.val := Nat.one_le_iff_ne_zero.mpr hzero
  obtain ⟨before, hcleared, hregs⟩ := h.boxes
  obtain ⟨found, hfound, hat⟩ := (h.placement hplaced hfit).regions box.val hfirst hlt
  have hfilling := (boxRegions_asked hcleared.2 hregs).1
  obtain rfl := Option.some.inj (hfound.symm.trans (firstRegion_eq hfilling.bounded hregions))
  obtain ⟨hstart, hbytes⟩ := sram_of_placedAt hat
  obtain ⟨hlow, hhigh⟩ := within_of_exposes
    (translated_of_translateAcl (translateAcl_sram _ _ _)) hexposes
  rw [show (sramRegion pos (configAt u (order box.val)).bss.total
    (configAt u (order box.val)).stackSize).start.toNat = _ from sramStart_toNat _ _ _]
    at hlow hhigh
  rw [BoxSubregions.bytes_sramRegion] at hhigh
  refine .inr ⟨hfirst, hlt, ⟨hstart ▸ hlow, ?_⟩, fun ⟨hpos, hguard⟩ => ?_⟩
  · have hsize : (boxSpan u order box.val).size = _ := hbytes.symm
    rw [Span.ends, ← hstart, hsize]
    exact hhigh
  -- the guard is the disabled subregion
  rw [← hbytes] at hpos hguard
  rw [← hstart] at hguard
  have hindex : (address.toNat-sramStart pos (configAt u (order box.val)).bss.total
      (configAt u (order box.val)).stackSize)/(sramBytes (configAt u (order box.val)).bss.total
        (configAt u (order box.val)).stackSize/8) < 8 := by
    have height := BoxSubregions.sramBytes_eq_mul (configAt u (order box.val)).bss.total
      (configAt u (order box.val)).stackSize
    exact Nat.div_lt_of_lt_mul (by omega)
  have hhits : (registers (sramRegion pos (configAt u (order box.val)).bss.total
      (configAt u (order box.val)).stackSize)).hits address = true := by
    rw [PublicMemory.exposes, Bool.and_eq_true] at hexposes
    exact hexposes.1
  have hslots : sramSlots (configAt u (order box.val)).bss.total
      (configAt u (order box.val)).stackSize < 8 := hguard.symm.trans_lt hindex
  exact (BoxSubregions.sramRegion_within pos address hpos hslots hlow hhigh).2.mp hhits hguard

/-- After a boot that does not halt, nothing in the memory of a secure box can be
accessed in any run while another box is active, and its guard not at all,
unless an item of the access control list of the active box or of box 0 opens
it. -/
theorem memory_closed_after_boot (h : Booted u sys psp l order s₀ regs m)
    (hplaced : Outside u l g) (hfit : NoOverflow u (secureBoxes (boxCount u) order))
    (hreach : Reachable (Initial (bootConfig h) g) (step (bootConfig h) g) (fun _ _ => True) s)
    {box : BoxId} (hbox : 1 ≤ box.val) (hcount : box.val < boxCount u)
    (hin : InBox u order box.val address)
    (hclosed : s.activeBox ≠ box ∨ InGuard u order box.val address)
    (hactive : ¬ItemOpens regs s.activeBox address access)
    (hpublic : ¬ItemOpens regs 0 address access) :
    s.mpu.grants address access = false := by
  obtain ⟨hlow, hhigh⟩ := h.inside hplaced hfit hbox hcount hin
  by_contra hgrants
  have hflash := hplaced.flash
  rcases accounted_of_grants hreach (by simpa using hgrants) with ⟨i, hi, hexposes⟩ |
    ⟨region, hregions, hexposes⟩ | ⟨page, ⟨hpage, hfrom, hto⟩, -⟩
  · obtain ⟨before, harch⟩ := h.arch
    have hwindow := hplaced.window
    rcases static_within hplaced.sramStart hplaced.sramEnd hplaced.sramSize harch hi hexposes with
      hwithin | hwithin
    · omega
    · omega
  · rcases hregions with hown | hzero
    · rcases h.opens hplaced hfit hown hexposes with hitem | ⟨hfirst, -, hin', hguard⟩
      · exact hactive hitem
      · have hsame : s.activeBox = box := Fin.ext (eq_of_inBox hfirst hbox hin' hin)
        rcases hclosed with hother | hguard'
        · exact hother hsame
        · exact hguard (hsame ▸ hguard')
    · rcases h.opens hplaced hfit hzero hexposes with hitem | ⟨hfirst, -⟩
      · exact hpublic hitem
      · exact absurd hfirst (by decide)
  · obtain ⟨horigin, hend⟩ := (inv_reachable hreach).1.pageOrigin_eq hpage
    have hpages := hplaced.pages
    have hfirst : g.heapStart ≤ g.heapStart+page*g.pageSize := Nat.le_add_right _ _
    omega

end Isolation

/-! ## Two secure boxes -/

section Device

open BoxAgreement (threeConfigs)
open PageAllocator (smallDevice fourPages booted)

/-- Flash of 512 kilobytes, and public memory of 64 kilobytes that the page heap
and the boxes are a part of. -/
def bootLinker : PublicMemory.LinkerConfig where
  flashOrigin := 0
  secureEnd := 0x80000
  publicSramStart := 0x20000000
  publicSramEnd := 0x20010000
  pageEnd := 0x20008000
  pageSize := 0x400

theorem bootLinker_outside : Outside (threeConfigs 64 4096) bootLinker fourPages where
  boxes := by decide
  boxesEnd := by decide
  sramStart := by decide
  sramEnd := by decide
  sramSize := by decide
  flash := by decide
  window := .inr (by decide)
  pages := .inl (by decide)

/-- The unit with the static regions. -/
def archState : ArmMpu.State :=
  (PublicMemory.vmpuArchInitHw bootLinker PublicMemory.resetState).getD PublicMemory.resetState

/-- The order that is chosen. -/
def bootOrder : ℕ → ℕ := (vmpuOrderBoxes .armv7m (threeConfigs 64 4096) 3).getD fun i => i

/-- The boxes that are registered then. -/
def bootBoxes : (ℕ → Option Registration) × BoxMemory.State × Virq.State :=
  (registerBoxes (boxDriver (threeConfigs 64 4096) threeBoxes) (threeConfigs 64 4096) 0 bootOrder
    (BoxSubregions.firstCall, noOwners) 3).getD (fun _ => none, BoxSubregions.firstCall, noOwners)

theorem threeConfigs_booted :
    Booted (threeConfigs 64 4096) threeBoxes 0 bootLinker bootOrder archState bootBoxes.1
      bootBoxes.2 where
  arch := by
    have harch : (PublicMemory.vmpuArchInitHw bootLinker PublicMemory.resetState).isSome := by
      decide
    obtain ⟨s, hs⟩ := Option.isSome_iff_exists.mp harch
    exact ⟨_, hs.trans (by rw [archState, hs]; rfl)⟩
  chosen := by
    have horder : (vmpuOrderBoxes .armv7m (threeConfigs 64 4096) 3).isSome := by decide
    obtain ⟨order, horder⟩ := Option.isSome_iff_exists.mp horder
    rw [show boxCount (threeConfigs 64 4096) = 3 by decide, bootOrder, horder]
    rfl
  boxes := by
    have hboxes : (registerBoxes (boxDriver (threeConfigs 64 4096) threeBoxes)
        (threeConfigs 64 4096) 0 bootOrder (BoxSubregions.firstCall, noOwners) 3).isSome := by
      decide +kernel
    obtain ⟨pair, hpair⟩ := Option.isSome_iff_exists.mp hboxes
    refine ⟨(BoxSubregions.firstCall, noOwners), ⟨rfl, fun _ => rfl⟩, ?_⟩
    rw [show boxCount (threeConfigs 64 4096) = 3 by decide, bootBoxes, hpair]
    rfl

theorem bootOrder_noOverflow :
    NoOverflow (threeConfigs 64 4096)
      (secureBoxes (boxCount (threeConfigs 64 4096)) bootOrder) where
  total := by decide +kernel
  shift := by decide +kernel
  ends := by decide +kernel

/-- The regions that the boot has set up. -/
def bootedRegions : Config := bootConfig threeConfigs_booted

/-- The unit when the page heap has been initialized. -/
def bootState : ArmMpu.State := {archState with alloc := booted.alloc}

theorem bootState_initial : Initial bootedRegions fourPages bootState := by
  refine ⟨by decide, by decide, by decide, fun i _ => rfl, fun i hi hi' henabled => ?_,
    smallDevice, 0x20001000, 0x20002000, 0x400, 1024, booted.alloc, rfl⟩
  have hdisabled : ∀ i, i < regionsMax → regionsStatic ≤ i →
      (archState.mpu.regions i).enabled = false := by
    decide +kernel
  exact absurd ((hdisabled i hi' hi).symm.trans henabled) Bool.false_ne_true

/-- Box 1 is active after a boot. It can write its stack, but it can neither read
its guard nor the BSS sections of box 2. -/
theorem memory_closed_twoBoxes :
    ∃ s, exec (step bootedRegions fourPages) [.switch 1] bootState = some s ∧
      s.activeBox = 1 ∧ s.mpu.grants 0x20003800 .write = true ∧
      s.mpu.grants 0x20003480 .read = false ∧ s.mpu.grants 0x20004080 .read = false := by
  have hrun : ((exec (step bootedRegions fourPages) [.switch 1] bootState).map fun s =>
      (s.activeBox, s.mpu.grants 0x20003800 .write)) = some (1, true) := by
    decide +kernel
  obtain ⟨s, hs, haccess⟩ := Option.map_eq_some_iff.mp hrun
  obtain ⟨hactive, haccess⟩ := Prod.mk.inj haccess
  have hreach := exec_reachable (Reachable.start bootState_initial) hs
  have hnone : ∀ b : BoxId, b.val < 3 → (bootBoxes.1 b.val).map (fun reg => reg.acls.length) =
      some 0 := by
    decide +kernel
  have hitems : ∀ b : BoxId, b.val < 3 → ∀ address,
      ¬ItemOpens bootBoxes.1 b address .read := by
    rintro b hb address ⟨found, item, region, hfound, hitem, -⟩
    have hlength := hnone b hb
    rw [hfound] at hlength
    rw [List.eq_nil_of_length_eq_zero (Option.some.inj hlength)] at hitem
    cases hitem
  refine ⟨s, hs, hactive, haccess, ?_, ?_⟩
  · exact memory_closed_after_boot threeConfigs_booted bootLinker_outside bootOrder_noOverflow
      hreach (by decide : 1 ≤ (1 : BoxId).val) (by decide) (by unfold InBox; decide +kernel)
      (.inr (by unfold InGuard; decide +kernel)) (hactive ▸ hitems 1 (by decide) _)
      (hitems 0 (by decide) _)
  · exact memory_closed_after_boot threeConfigs_booted bootLinker_outside bootOrder_noOverflow
      hreach (by decide : 1 ≤ (2 : BoxId).val) (by decide) (by unfold InBox; decide +kernel)
      (.inl (hactive ▸ by decide)) (hactive ▸ hitems 1 (by decide) _) (hitems 0 (by decide) _)

end Device

end Uvisor.MpuBoot
