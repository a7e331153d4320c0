import Uvisor.MpuIsolation

/-!
# Regions of highest priority on ARMv7-M

A context switch loads the stack of the destination with the highest priority,
and then the other regions of the box. Faults load further regions. Nothing
tests whether the slot that a search falls back to has the highest priority:
it never has, because a search falls back to the slot that was loaded last.
-/

namespace Uvisor.MpuPriority

open PageAllocator ArmMpu MpuIsolation Execution

/-! ## Runs -/

/-- A region that has been made from access rights, as all regions are. -/
def Translated (region : MpuRegion) : Prop :=
  ∃ start size acl aclHwSpec, vmpuRegionTranslateAcl start size acl aclHwSpec = some region

/-- The memory protection with the region of highest priority. -/
structure Run where
  /-- Variables of the memory protection. -/
  unit : ArmMpu.State
  /-- Slot and region of the push with the highest priority, if there has been
  one since the last invalidation. -/
  pinned : Option (ℕ × MpuRegion)
  /-- Number of pushes since the last invalidation. -/
  pushes : ℕ

/-- What happens to the unit. A switch is an invalidation followed by pushes. -/
inductive Action where
  /-- All slots that are not static are disabled. -/
  | invalidate
  /-- A region is loaded. -/
  | push (region : MpuRegion) (priority : ℕ)
  /-- Another box becomes active, or the page allocator does something. -/
  | others (activeBox : BoxId) (alloc : PageAllocator.State)

/-- One step. -/
def step (r : Run) : Action → Option Run
  | .invalidate => some ⟨vmpuMpuInvalidate r.unit, none, 0⟩
  | .push region priority =>
    let unit := vmpuMpuPush region priority r.unit
    some ⟨unit, if priority = 255 then some (unit.mpuSlot, region) else r.pinned, r.pushes+1⟩
  | .others activeBox alloc => some {r with unit := {r.unit with activeBox, alloc}}

/-- The highest priority is given to the first region after an invalidation
only. -/
def Proper (r : Run) : Action → Prop
  | .push region priority =>
    Translated region ∧ (priority < 255 ∨ priority = 255 ∧ r.pushes = 0)
  | .invalidate | .others _ _ => True

/-- Nothing has been loaded since the start. -/
structure Initial (r : Run) : Prop where
  /-- The round robin stands at its first slot. -/
  slot : r.unit.mpuSlot = regionsStatic
  /-- Nothing has a priority. -/
  priorities : ∀ i, regionsStatic ≤ i → i < regionsMax → r.unit.mpuPriority i = 0
  /-- Nothing has the highest priority. -/
  pinned : r.pinned = none
  /-- Nothing has been loaded. -/
  pushes : r.pushes = 0

/-! ## The search for a slot -/

section Searches

variable {s : ArmMpu.State} {region : MpuRegion} {priority : ℕ}

/-- Priority 0 is upgraded. -/
def upgraded (priority : ℕ) : ℕ := if priority = 0 then 1 else priority

theorem upgraded_pos (priority : ℕ) : 0 < upgraded priority := by
  unfold upgraded
  split <;> omega

/-- The loop of a push, from the slot of the last push. -/
def pushBody (s : ArmMpu.State) (priority : ℕ) :
    RoundRobin.Search → Flow RoundRobin.Search :=
  RoundRobin.searchBody regionsStatic regionsMax s.mpuPriority (upgraded priority) s.mpuSlot

/-- The search of a push. -/
def pushSearch (s : ArmMpu.State) (priority : ℕ) : RoundRobin.Search :=
  RoundRobin.search regionsStatic regionsMax s.mpuPriority (upgraded priority) s.mpuSlot

/-- A push loads the region into the slot that its search ends at. -/
theorem vmpuMpuPush_eq (region : MpuRegion) (priority : ℕ) (s : ArmMpu.State) :
    vmpuMpuPush region priority s = loadSlot region (upgraded priority) (pushSearch s priority).slot
      {s with mpuSlot := (pushSearch s priority).slot} := by
  unfold vmpuMpuPush
  simp only [searchSlot_eq]
  rfl

/-- The loop of a push ends, with the slot that is loaded. -/
theorem push_terminates (hslot : regionsStatic ≤ s.mpuSlot ∧ s.mpuSlot < regionsMax) :
    Terminates (pushBody s priority) ⟨s.mpuSlot, false⟩ :=
  ⟨regionsMax-regionsStatic, by
    rw [pushBody, RoundRobin.iterate_search hslot]
    rfl⟩

theorem translated_aligned (h : Translated region) : region.start &&& 0x1F = 0 := by
  obtain ⟨start, size, acl, aclHwSpec, h⟩ := h
  exact translate_aligned h

/-- What a push does: region and priority of one slot that is not static. -/
theorem push_spec (hslot : regionsStatic ≤ s.mpuSlot ∧ s.mpuSlot < regionsMax)
    (hregion : Translated region) (priority : ℕ) :
    let slot := (vmpuMpuPush region priority s).mpuSlot
    (regionsStatic ≤ slot ∧ slot < regionsMax) ∧
      (vmpuMpuPush region priority s).mpu.regions =
        Function.update s.mpu.regions slot ⟨region.start, region.config⟩ ∧
      (vmpuMpuPush region priority s).mpuPriority =
        Function.update s.mpuPriority slot (upgraded priority) := by
  have hrange := (@RoundRobin.search_spec _ _ (upgraded priority) _ s.mpuPriority hslot).1
  have hsmall : regionsMax < 16 := by decide
  rw [vmpuMpuPush_eq]
  refine ⟨hrange, ?_, rfl⟩
  exact loadSlot_regions (Nat.lt_trans hrange.2 hsmall) (translated_aligned hregion) _

end Searches

/-! ## The invariant -/

section Invariant

variable {cfg : Config} {g : Geometry} {r r' : Run}

/-- All slots but those in question are free. -/
def FreeBut (mpuPriority : ℕ → ℕ) (occupied : ℕ → Prop) : Prop :=
  ∀ i, regionsStatic ≤ i → i < regionsMax → ¬occupied i → mpuPriority i = 0

/-- The region of highest priority is in its slot. The round robin is past it,
unless nothing else has been loaded yet. -/
structure PinnedAt (r : Run) (slot : ℕ) (region : MpuRegion) : Prop where
  /-- The slot is not static. -/
  range : regionsStatic ≤ slot ∧ slot < regionsMax
  /-- The slot holds the region. -/
  resident : r.unit.mpu.regions slot = ⟨region.start, region.config⟩
  /-- The slot has the highest priority. -/
  priority : r.unit.mpuPriority slot = 255
  /-- The slot is not the one that was loaded last, or is the only one. -/
  passed : r.unit.mpuSlot ≠ slot ∨ FreeBut r.unit.mpuPriority (· = slot)

/-- The invariant of the runs. -/
structure Inv (r : Run) : Prop where
  /-- The round robin is past the static slots. -/
  slot : regionsStatic ≤ r.unit.mpuSlot ∧ r.unit.mpuSlot < regionsMax
  /-- After an invalidation all slots are free. -/
  fresh : r.pushes = 0 → FreeBut r.unit.mpuPriority (fun _ => False)
  /-- The region of highest priority stays where it was loaded. -/
  pinned : ∀ slot region, r.pinned = some (slot, region) → PinnedAt r slot region

/-- An invalidation frees all slots. -/
theorem vmpuMpuInvalidate_priority (s : ArmMpu.State) :
    FreeBut (vmpuMpuInvalidate s).mpuPriority (fun _ => False) := by
  intro i hlow hhigh _
  refine (foldl_range'_writes (fun s : ArmMpu.State => s.mpuPriority i) 0 (fun s slot => ?_)
    regionsStatic (regionsMax-regionsStatic) _).trans (if_pos ⟨hlow, hhigh⟩)
  exact Function.update_apply s.mpuPriority slot 0 i

theorem inv_initial (h : Initial r) : Inv r where
  slot := by
    rw [h.slot]
    decide
  fresh _ i hlow hhigh _ := h.priorities i hlow hhigh
  pinned slot region hpinned := by
    rw [h.pinned] at hpinned
    cases hpinned

theorem Inv.invalidate (r : Run) : Inv ⟨vmpuMpuInvalidate r.unit, none, 0⟩ where
  slot := by
    rw [(vmpuMpuInvalidate_spec r.unit).1]
    decide
  fresh _ := vmpuMpuInvalidate_priority r.unit
  pinned slot region hpinned := by cases hpinned

/-- After an invalidation the search takes the next slot. -/
theorem Inv.push_highest (h : Inv r) (hfresh : r.pushes = 0) {region : MpuRegion}
    (hregion : Translated region) :
    Inv ⟨vmpuMpuPush region 255 r.unit, some ((vmpuMpuPush region 255 r.unit).mpuSlot, region),
      r.pushes+1⟩ := by
  obtain ⟨hrange, hregions, hpriority⟩ := push_spec h.slot hregion 255
  refine ⟨hrange, fun hzero => absurd hzero (Nat.succ_ne_zero _), fun slot region' hpinned => ?_⟩
  obtain ⟨rfl, rfl⟩ := Prod.mk.inj (Option.some.inj hpinned)
  refine ⟨hrange, ?_, ?_, .inr fun i hlow hhigh hne => ?_⟩
  · rw [hregions, Function.update_self]
  · rw [hpriority, Function.update_self]
    rfl
  · rw [hpriority, Function.update_of_ne hne]
    exact h.fresh hfresh i hlow hhigh not_false

/-- A push of lower priority leaves the region of highest priority alone. -/
theorem Inv.push_lower (h : Inv r) {region : MpuRegion} {priority : ℕ} (hlower : priority < 255)
    (hregion : Translated region) :
    Inv ⟨vmpuMpuPush region priority r.unit, r.pinned, r.pushes+1⟩ := by
  obtain ⟨hrange, hregions, hpriority⟩ := push_spec h.slot hregion priority
  refine ⟨hrange, fun hzero => absurd hzero (Nat.succ_ne_zero _), fun slot pinned hpinned => ?_⟩
  have hp := h.pinned slot pinned hpinned
  have hupgraded : upgraded priority < 255 := by
    unfold upgraded
    split <;> omega
  have hne : (vmpuMpuPush region priority r.unit).mpuSlot ≠ slot := by
    intro heq
    rw [vmpuMpuPush_eq] at heq
    change (pushSearch r.unit priority).slot = slot at heq
    obtain ⟨-, hfound, hround⟩ :=
      @RoundRobin.search_spec _ _ (upgraded priority) _ r.unit.mpuPriority h.slot
    cases hresult : (pushSearch r.unit priority).found with
    | true =>
      -- A slot that is found has a lower priority.
      have hlow := hfound hresult
      change r.unit.mpuPriority (pushSearch r.unit priority).slot < upgraded priority at hlow
      rw [heq, hp.priority] at hlow
      omega
    | false =>
      -- The search is back at the slot that was loaded last, and no slot is free.
      obtain ⟨hback, hfull⟩ := hround hresult
      change (pushSearch r.unit priority).slot = r.unit.mpuSlot at hback
      rcases hp.passed with hpassed | hfree
      · exact hpassed (hback.symm.trans heq)
      · have hpos := upgraded_pos priority
        have hother : ∀ i, regionsStatic ≤ i → i < regionsMax → i ≠ slot → False := by
          intro i hlow hhigh hi
          have hzero := hfree i hlow hhigh hi
          have hge := hfull i hlow hhigh
          omega
        by_cases htwo : slot = 2
        · exact hother 3 (by decide) (by decide) (by omega)
        · exact hother 2 (by decide) (by decide) (Ne.symm htwo)
  refine ⟨hp.range, ?_, ?_, .inl hne⟩
  · rw [hregions, Function.update_of_ne hne.symm]
    exact hp.resident
  · rw [hpriority, Function.update_of_ne hne.symm]
    exact hp.priority

theorem inv_step {a : Action} (h : Inv r) (hproper : Proper r a) (hs : step r a = some r') :
    Inv r' := by
  cases a with
  | invalidate =>
    obtain rfl := Option.some.inj hs
    exact Inv.invalidate r
  | push region priority =>
    obtain rfl := Option.some.inj hs
    obtain ⟨hregion, hlower | ⟨rfl, hfresh⟩⟩ := hproper
    · have hne : priority ≠ 255 := by omega
      simpa [hne] using h.push_lower hlower hregion
    · exact h.push_highest hfresh hregion
  | others activeBox alloc =>
    obtain rfl := Option.some.inj hs
    exact ⟨h.slot, h.fresh, fun slot region hp =>
      ⟨(h.pinned slot region hp).range, (h.pinned slot region hp).resident,
        (h.pinned slot region hp).priority, (h.pinned slot region hp).passed⟩⟩

theorem inv_reachable (h : Reachable Initial step Proper r) : Inv r :=
  h.invariant Inv (fun _ => inv_initial) fun _ _ _ hi hproper hs => inv_step hi hproper hs

end Invariant

/-! ## Switches and faults are runs -/

section Calls

variable {cfg : Config} {g : Geometry} {r : Run} {t : ArmMpu.State}

/-- A run goes on to a state with some region of highest priority. -/
def GoesOn (pinned : Option (ℕ × MpuRegion)) (t : ArmMpu.State) : Prop :=
  ∃ r, Reachable Initial step Proper r ∧ r.unit = t ∧ r.pinned = pinned

/-- A push of lower priority goes on. -/
theorem GoesOn.push {pinned : Option (ℕ × MpuRegion)} (h : GoesOn pinned t) {region : MpuRegion}
    (hregion : Translated region) {priority : ℕ} (hlower : priority < 255) :
    GoesOn pinned (vmpuMpuPush region priority t) := by
  obtain ⟨r, hr, rfl, rfl⟩ := h
  have hne : priority ≠ 255 := by omega
  exact ⟨_, hr.step (a := .push region priority) ⟨hregion, .inl hlower⟩ rfl, rfl, if_neg hne⟩

theorem GoesOn.pushAll {pinned : Option (ℕ × MpuRegion)} (h : GoesOn pinned t)
    {regions : List MpuRegion} (hregions : ∀ region ∈ regions, Translated region) {priority : ℕ}
    (hlower : priority < 255) : GoesOn pinned (pushAll priority regions t) := by
  induction regions generalizing t with
  | nil => exact h
  | cons region regions ih =>
    obtain ⟨hfirst, hrest⟩ := List.forall_mem_cons.mp hregions
    exact ih (h.push hfirst hlower) hrest

/-- A group of pages is one region. -/
theorem GoesOn.pushPages {pinned : Option (ℕ × MpuRegion)} (h : GoesOn pinned t) {mask : BitVec 8}
    {index : ℕ} {out : Bool × ArmMpu.State}
    (hs : vmpuMemPushPageAclIterator g mask index t = some out) : GoesOn pinned out.2 := by
  obtain ⟨region, hregion, rfl⟩ := Option.map_eq_some_iff.mp hs
  exact h.push ⟨_, _, _, _, hregion⟩ (by decide)

theorem GoesOn.pageMasks {pinned : Option (ℕ × MpuRegion)} {octets ii : ℕ} {t' : ArmMpu.State}
    (h : GoesOn pinned t)
    (hs : iteratePageMasks g (vmpuMemPushPageAclIterator g) octets ii t = some t') :
    GoesOn pinned t' := by
  induction octets generalizing ii t with
  | zero =>
    obtain rfl := Option.some.inj hs
    exact h
  | succ octets ih =>
    simp only [iteratePageMasks] at hs
    split at hs
    · obtain ⟨⟨more, u⟩, hpush, hs⟩ := Option.bind_eq_some_iff.mp hs
      have hu := h.pushPages hpush
      dsimp only at hs hu
      split at hs
      · exact ih hu hs
      · obtain rfl := Option.some.inj hs
        exact hu
    · exact ih h hs

theorem translated_of_mem {box : BoxId} {region : MpuRegion} (h : region ∈ cfg.regions box) :
    Translated region := cfg.translated box region h

/-- Another box becomes active, or the page allocator does something. -/
theorem GoesOn.others {pinned : Option (ℕ × MpuRegion)} (h : GoesOn pinned t) (activeBox : BoxId)
    (alloc : PageAllocator.State) : GoesOn pinned {t with activeBox, alloc} := by
  obtain ⟨r, hr, rfl, rfl⟩ := h
  have hnext : Reachable Initial step Proper {r with unit := {r.unit with activeBox, alloc}} :=
    .step (a := .others activeBox alloc) hr trivial rfl
  exact ⟨_, hnext, rfl, rfl⟩

/-- An invalidation leaves no region of highest priority. -/
theorem GoesOn.invalidate {pinned : Option (ℕ × MpuRegion)} (h : GoesOn pinned t) :
    GoesOn none (vmpuMpuInvalidate t) := by
  obtain ⟨r, hr, rfl, -⟩ := h
  have hnext : Reachable Initial step Proper ⟨vmpuMpuInvalidate r.unit, none, 0⟩ :=
    .step (a := .invalidate) hr trivial rfl
  exact ⟨_, hnext, rfl, rfl⟩

/-- After an invalidation a region can have the highest priority. -/
theorem GoesOn.highest {pinned : Option (ℕ × MpuRegion)} (h : GoesOn pinned t) {region : MpuRegion}
    (hregion : Translated region) :
    GoesOn (some ((vmpuMpuPush region 255 (vmpuMpuInvalidate t)).mpuSlot, region))
      (vmpuMpuPush region 255 (vmpuMpuInvalidate t)) := by
  obtain ⟨r, hr, rfl, -⟩ := h
  have hfresh : Reachable Initial step Proper ⟨vmpuMpuInvalidate r.unit, none, 0⟩ :=
    .step (a := .invalidate) hr trivial rfl
  have hpushed : Reachable Initial step Proper
      ⟨vmpuMpuPush region 255 (vmpuMpuInvalidate r.unit),
        some ((vmpuMpuPush region 255 (vmpuMpuInvalidate r.unit)).mpuSlot, region), 1⟩ :=
    .step (a := .push region 255) hfresh ⟨hregion, .inr ⟨rfl, rfl⟩⟩ rfl
  exact ⟨_, hpushed, rfl, rfl⟩

/-- A switch is a run, in which the first region of a box other than box 0 gets
the highest priority. -/
theorem switch_goesOn (h : Reachable Initial step Proper r) {dstBox : BoxId}
    (hs : vmpuSwitch cfg g dstBox {r.unit with activeBox := dstBox} = some t) :
    ∃ pinned, GoesOn pinned t ∧ (dstBox ≠ 0 → ∃ slot region,
      (cfg.regions dstBox).head? = some region ∧ pinned = some (slot, region)) := by
  have htranslated : ∀ region ∈ cfg.regions dstBox, Translated region :=
    fun region hmem => translated_of_mem hmem
  have hself : GoesOn r.pinned r.unit := ⟨r, h, rfl, rfl⟩
  have hactive := hself.others dstBox r.unit.alloc
  rcases vmpuSwitch_cases hs with ⟨-, region, rest, u, hbox, hmasks, rfl⟩ | ⟨hdst, u, hmasks, rfl⟩
  · rw [hbox] at htranslated ⊢
    obtain ⟨hfirst, hrest⟩ := List.forall_mem_cons.mp htranslated
    have hpages := (hactive.highest hfirst).pageMasks hmasks
    exact ⟨_, hpages.pushAll hrest (by decide), fun _ => ⟨_, region, rfl, rfl⟩⟩
  · have hpages := hactive.invalidate.pageMasks hmasks
    have hown := hpages.pushAll htranslated (show 2 < 255 by decide)
    exact ⟨_, hown.pushAll (fun region hmem => translated_of_mem hmem) (by decide),
      fun hne => absurd hdst hne⟩

/-- The recovery from a fault is a run, in which nothing new gets the highest
priority. -/
theorem fault_goesOn (h : Reachable Initial step Proper r) {faultAddr faultStatus : Word}
    {recovered : Bool}
    (hs : vmpuFaultRecoveryMpu cfg g faultAddr faultStatus r.unit = some (recovered, t)) :
    GoesOn r.pinned t := by
  have hself : GoesOn r.pinned r.unit := ⟨r, h, rfl, rfl⟩
  unfold vmpuFaultRecoveryMpu at hs
  split at hs
  · obtain ⟨-, rfl⟩ := Prod.mk.inj (Option.some.inj hs)
    exact hself
  · split at hs
    · rename_i mask index page hmask
      obtain ⟨⟨more, u⟩, hpush, heq⟩ := Option.map_eq_some_iff.mp hs
      obtain ⟨-, rfl⟩ := Prod.mk.inj heq
      exact (hself.others r.unit.activeBox
        (pageAllocatorRegisterFault g page r.unit.alloc)).pushPages hpush
    · split at hs
      · obtain ⟨-, rfl⟩ := Prod.mk.inj (Option.some.inj hs)
        exact hself
      · rename_i region hregion
        obtain ⟨-, rfl⟩ := Prod.mk.inj (Option.some.inj hs)
        obtain ⟨box, -, hmem⟩ := vmpuFaultFindRegion_mem hregion
        exact hself.push (translated_of_mem hmem) (by decide)

end Calls

/-! ## Every run -/

section Runs

variable {cfg : Config} {g : Geometry} {r : Run}

/-- In every run a region that was loaded with the highest priority after the
last invalidation is still in its slot. Every push ends its search and loads
its region into the slot whose priority it sets, which is not static. Switches
and recoveries from faults are such runs. -/
theorem highest_priority_resident (h : Reachable Initial step Proper r) :
    (∀ slot region, r.pinned = some (slot, region) →
      r.unit.mpu.regions slot = ⟨region.start, region.config⟩ ∧ r.unit.mpuPriority slot = 255) ∧
    (∀ region priority, Translated region →
      Terminates (pushBody r.unit priority) ⟨r.unit.mpuSlot, false⟩ ∧
      ∃ slot, regionsStatic ≤ slot ∧ slot < regionsMax ∧
        (vmpuMpuPush region priority r.unit).mpu.regions =
          Function.update r.unit.mpu.regions slot ⟨region.start, region.config⟩ ∧
        (vmpuMpuPush region priority r.unit).mpuPriority =
          Function.update r.unit.mpuPriority slot (upgraded priority)) ∧
    (∀ dstBox t, vmpuSwitch cfg g dstBox {r.unit with activeBox := dstBox} = some t →
      ∃ pinned, GoesOn pinned t ∧ (dstBox ≠ 0 → ∃ slot region,
        (cfg.regions dstBox).head? = some region ∧ pinned = some (slot, region))) ∧
    ∀ faultAddr faultStatus recovered t,
      vmpuFaultRecoveryMpu cfg g faultAddr faultStatus r.unit = some (recovered, t) →
        GoesOn r.pinned t := by
  have hinv := inv_reachable h
  refine ⟨fun slot region hpinned => ?_, fun region priority hregion => ?_,
    fun dstBox t hs => switch_goesOn h hs, fun _ _ _ _ hs => fault_goesOn h hs⟩
  · have hp := hinv.pinned slot region hpinned
    exact ⟨hp.resident, hp.priority⟩
  · obtain ⟨hrange, hregions, hpriority⟩ := push_spec hinv.slot hregion priority
    exact ⟨push_terminates hinv.slot, _, hrange.1, hrange.2, hregions, hpriority⟩

/-- The unit right after the boot. -/
def bootedRun : Run := ⟨bootedState, none, 0⟩

theorem bootedRun_initial : Initial bootedRun := ⟨rfl, fun _ _ _ => rfl, rfl, rfl⟩

/-- Seven regions that are loaded after a switch to box 1 leave its stack in its
slot. -/
theorem highest_priority_resident_twoBoxes :
    ∃ t region slot, vmpuSwitch twoBoxes fourPages 1 {bootedState with activeBox := 1} = some t ∧
      (twoBoxes.regions 1).head? = some region ∧
      (pushAll 3 (List.replicate 7 region) t).mpu.regions slot = ⟨region.start, region.config⟩ := by
  have hrun : (vmpuSwitch twoBoxes fourPages 1 {bootedState with activeBox := 1}).isSome = true := by
    decide +kernel
  obtain ⟨t, ht⟩ := Option.isSome_iff_exists.mp hrun
  have hstart : Reachable Initial step Proper bootedRun := .start bootedRun_initial
  have hswitch := (@highest_priority_resident twoBoxes fourPages _ hstart).2.2.1 1 t ht
  obtain ⟨pinned, hgoes, hpinned⟩ := hswitch
  obtain ⟨slot, region, hhead, rfl⟩ := hpinned (by decide)
  have htranslated : Translated region := translated_of_mem (List.mem_of_mem_head? hhead)
  have hmore := hgoes.pushAll (fun region' (hmem : region' ∈ List.replicate 7 region) =>
    (List.eq_of_mem_replicate hmem).symm ▸ htranslated) (show 3 < 255 by decide)
  obtain ⟨r, hr, hunit, hr_pinned⟩ := hmore
  have hresident := (@highest_priority_resident twoBoxes fourPages r hr).1 slot region hr_pinned
  rw [hunit] at hresident
  exact ⟨t, region, slot, ht, hhead, hresident.1⟩

end Runs

end Uvisor.MpuPriority
