import Uvisor.ArmSau
import Uvisor.MpuPriority

/-!
# Regions of highest priority on ARMv8-M

A context switch loads the stack of the destination with the highest priority,
and then the pages and the other regions of the box. A search that finds no
slot of lower priority falls back to the slot after its start, and nothing
tests whether that is the slot of the stack. After a switch it is, as soon as
the switch has more regions to load than there are slots.
-/

namespace Uvisor.SauPriority

open PageAllocator ArmSau Execution
open ArmMpu (Word MpuRegion)
open MpuPriority (upgraded upgraded_pos)

/-! ## Runs -/

/-- The memory protection with the region of highest priority. -/
structure Run where
  /-- Variables of the memory protection. -/
  unit : ArmSau.State
  /-- Slot and region of the push with the highest priority, if the last switch
  had one. -/
  pinned : Option (ℕ × MpuRegion)

/-- What happens to the unit. -/
inductive Action where
  /-- A context switch. -/
  | switch (dstBox : BoxId)
  /-- A fault at an address. -/
  | fault (faultAddr : Word)
  /-- A region is loaded. -/
  | push (region : MpuRegion) (priority : ℕ)
  /-- Another box becomes active, or the page allocator does something. -/
  | others (activeBox : BoxId) (alloc : PageAllocator.State)

/-- The region that a switch loads with the highest priority, and its slot. -/
def stackOf (regions : BoxId → List MpuRegion) (dstBox : BoxId) (s : ArmSau.State) :
    Option (ℕ × MpuRegion) :=
  if dstBox = 0 then none
  else (regions dstBox).head?.map fun region =>
    ((vmpuMpuPush region 255 (vmpuMpuInvalidate s)).2.mpuSlot, region)

/-- One step. After a switch all pushes have a lower priority. -/
def step (regions : BoxId → List MpuRegion) (g : Geometry) (r : Run) : Action → Option Run
  | .switch dstBox => (vmpuSwitch regions g dstBox r.unit).map fun unit =>
    ⟨unit, stackOf regions dstBox r.unit⟩
  | .fault faultAddr => some {r with unit := (vmpuFaultRecoveryMpu regions g faultAddr r.unit).2}
  | .push region priority =>
    if priority < 255 then some {r with unit := (vmpuMpuPush region priority r.unit).2} else none
  | .others activeBox alloc => some {r with unit := {r.unit with activeBox, alloc}}

/-- Nothing has been loaded since the start. -/
structure Initial (r : Run) : Prop where
  /-- The round robin stands at its first slot. -/
  slot : r.unit.mpuSlot = regionsStatic
  /-- Nothing has a priority. -/
  priorities : ∀ i, regionsStatic ≤ i → i < regionsMax → r.unit.mpuPriority i = 0
  /-- Nothing has the highest priority. -/
  pinned : r.pinned = none

/-- What the unit holds of a region. -/
def programmed (region : MpuRegion) : SauRegion :=
  ⟨region.start &&& ~~~(0x1F : Word), sauRlar region.config region.ends &&& ~~~(0x1C : Word)⟩

/-- The region of highest priority is still in the slot that it was loaded into. -/
def Resident (r : Run) : Prop :=
  ∀ slot region, r.pinned = some (slot, region) →
    r.unit.sau.regions slot = programmed region ∧ r.unit.mpuPriority slot = 255

/-- Some slot has a lower priority than a push, or the slot that the push falls
back to does not have the highest. -/
def Keeps (s : ArmSau.State) (priority : ℕ) : Prop :=
  (∃ i < regionsMax, regionsStatic ≤ i ∧ s.mpuPriority i < upgraded priority) ∨
    s.mpuPriority (RoundRobin.next regionsStatic regionsMax s.mpuSlot) ≠ 255

/-- The priority of what a fault loads, if it loads anything. -/
def faultPriority (regions : BoxId → List MpuRegion) (g : Geometry) (faultAddr : Word)
    (s : ArmSau.State) : Option ℕ :=
  match getActiveRegionForAddress g s.activeBox s.alloc faultAddr.toNat with
  | .ok _ => some 100
  | .error _ => (vmpuFaultFindRegion regions faultAddr s).map fun _ => 3

/-- A switch has no more regions to load than there are slots, and a push finds
a slot that it may take. -/
def Meets (regions : BoxId → List MpuRegion) (g : Geometry) (r : Run) : Action → Prop
  | .switch dstBox => dstBox ≠ 0 →
    (activePages g r.unit.activeBox r.unit.alloc).length+(regions dstBox).length ≤
      regionsMax-regionsStatic
  | .fault faultAddr => ∀ priority ∈ faultPriority regions g faultAddr r.unit, Keeps r.unit priority
  | .push _ priority => Keeps r.unit priority
  | .others _ _ => True

/-! ## The search for a slot -/

section Pushes

variable {s : ArmSau.State} {region : MpuRegion} {priority : ℕ}

theorem vmpuSauAddRegion_regions (region : MpuRegion) (slot priority : ℕ) (s : ArmSau.State) :
    (vmpuSauAddRegion region slot priority s).sau.regions =
      Function.update s.sau.regions slot (programmed region) := by
  funext i
  by_cases hi : i = slot
  · subst hi
    simp [vmpuSauAddRegion, Sau.writeRnr, Sau.writeRbar, Sau.writeRlar, programmed]
  · simp [vmpuSauAddRegion, Sau.writeRnr, Sau.writeRbar, Sau.writeRlar, hi]

/-- The slot that a push loads. -/
def pushSlot (s : ArmSau.State) (priority : ℕ) : ℕ :=
  let search :=
    RoundRobin.search regionsStatic regionsMax s.mpuPriority (upgraded priority) s.mpuSlot
  if search.found then search.slot else RoundRobin.next regionsStatic regionsMax search.slot

/-- A push loads its slot, and always succeeds. -/
theorem vmpuMpuPush_eq (region : MpuRegion) (priority : ℕ) (s : ArmSau.State) :
    vmpuMpuPush region priority s =
      (true, vmpuSauAddRegion region (pushSlot s priority) (upgraded priority)
        {s with mpuSlot := pushSlot s priority}) := by
  have hupgraded : (if priority = 0 then 1 else priority) = upgraded priority := rfl
  simp only [vmpuMpuPush, pushSlot, hupgraded]
  split <;> rfl

@[simp] theorem vmpuMpuPush_fst : (vmpuMpuPush region priority s).1 = true := by
  rw [vmpuMpuPush_eq]

@[simp] theorem vmpuMpuPush_mpuSlot :
    (vmpuMpuPush region priority s).2.mpuSlot = pushSlot s priority := by
  rw [vmpuMpuPush_eq]
  rfl

@[simp] theorem vmpuMpuPush_mpuPriority :
    (vmpuMpuPush region priority s).2.mpuPriority =
      Function.update s.mpuPriority (pushSlot s priority) (upgraded priority) := by
  rw [vmpuMpuPush_eq]
  rfl

@[simp] theorem vmpuMpuPush_regions :
    (vmpuMpuPush region priority s).2.sau.regions =
      Function.update s.sau.regions (pushSlot s priority) (programmed region) := by
  rw [vmpuMpuPush_eq, vmpuSauAddRegion_regions]

/-- A push takes a slot of lower priority, or falls back to the slot after the
one that was loaded last. -/
theorem pushSlot_cases (hslot : regionsStatic ≤ s.mpuSlot ∧ s.mpuSlot < regionsMax) :
    (regionsStatic ≤ pushSlot s priority ∧ pushSlot s priority < regionsMax) ∧
      (s.mpuPriority (pushSlot s priority) < upgraded priority ∨
        pushSlot s priority = RoundRobin.next regionsStatic regionsMax s.mpuSlot ∧
          ∀ i, regionsStatic ≤ i → i < regionsMax → upgraded priority ≤ s.mpuPriority i) := by
  obtain ⟨hrange, hfound, hround⟩ :=
    @RoundRobin.search_spec _ _ (upgraded priority) _ s.mpuPriority hslot
  unfold pushSlot
  cases hresult : (RoundRobin.search regionsStatic regionsMax s.mpuPriority (upgraded priority)
      s.mpuSlot).found with
  | true =>
    simp only [hresult, if_true]
    exact ⟨hrange, .inl (hfound hresult)⟩
  | false =>
    obtain ⟨hback, hfull⟩ := hround hresult
    simp only [hresult, Bool.false_eq_true, if_false]
    rw [hback]
    exact ⟨RoundRobin.next_range hslot.1 (by decide), .inr ⟨rfl, hfull⟩⟩

/-- A push takes the very next slot if that has a lower priority. -/
theorem pushSlot_next (hslot : regionsStatic ≤ s.mpuSlot ∧ s.mpuSlot < regionsMax)
    (h : s.mpuPriority (RoundRobin.next regionsStatic regionsMax s.mpuSlot) < upgraded priority) :
    pushSlot s priority = RoundRobin.next regionsStatic regionsMax s.mpuSlot := by
  simp only [pushSlot, RoundRobin.search_next hslot h, if_true]

theorem upgraded_lt (h : priority < 255) : upgraded priority < 255 := by
  unfold upgraded
  split <;> omega

end Pushes

/-! ## The invariant -/

section Invariant

variable {regions : BoxId → List MpuRegion} {g : Geometry} {r r' : Run} {s : ArmSau.State}

/-- The round robin is past the static slots, and no slot but those in question
has the highest priority. -/
structure LowerBut (pinned : ℕ → Prop) (s : ArmSau.State) : Prop where
  /-- The slot that was loaded last. -/
  slot : regionsStatic ≤ s.mpuSlot ∧ s.mpuSlot < regionsMax
  /-- The other slots. -/
  lower : ∀ i, regionsStatic ≤ i → i < regionsMax → ¬pinned i → s.mpuPriority i < 255

/-- The region of highest priority is in its slot, and no other slot has the
highest priority. -/
structure Inv (r : Run) : Prop where
  /-- All slots but that of the stack. -/
  others : LowerBut (fun i => ∃ region, r.pinned = some (i, region)) r.unit
  /-- The slot of the stack is not static. -/
  range : ∀ slot region, r.pinned = some (slot, region) → regionsStatic ≤ slot ∧ slot < regionsMax
  /-- The stack is in its slot. -/
  resident : Resident r

theorem LowerBut.push {pinned : ℕ → Prop} (h : LowerBut pinned s) {region : MpuRegion}
    {priority : ℕ} (hlower : priority < 255) :
    LowerBut pinned (vmpuMpuPush region priority s).2 where
  slot := by
    rw [vmpuMpuPush_mpuSlot]
    exact (pushSlot_cases h.slot).1
  lower i hlow hhigh hi := by
    rw [vmpuMpuPush_mpuPriority]
    by_cases heq : i = pushSlot s priority
    · rw [heq, Function.update_self]
      exact upgraded_lt hlower
    · rw [Function.update_of_ne heq]
      exact h.lower i hlow hhigh hi

/-- A push of lower priority keeps the stack if and only if it finds a slot that
it may take. -/
theorem push_resident (h : Inv r) {region : MpuRegion} {priority : ℕ} (hlower : priority < 255) :
    Resident {r with unit := (vmpuMpuPush region priority r.unit).2} ↔ Keeps r.unit priority := by
  obtain ⟨hrange, hcases⟩ := @pushSlot_cases r.unit priority h.others.slot
  have hupgraded := upgraded_lt hlower
  constructor
  · intro hresident
    by_contra hkeeps
    simp only [Keeps, not_or, not_exists, not_and, not_lt, ne_eq, not_not] at hkeeps
    obtain ⟨hfull, hnext⟩ := hkeeps
    have hslot : pushSlot r.unit priority = RoundRobin.next regionsStatic regionsMax r.unit.mpuSlot := by
      rcases hcases with hfound | ⟨hslot, -⟩
      · have hge := hfull _ hrange.2 hrange.1
        omega
      · exact hslot
    -- Only the stack has the highest priority.
    have hpinned : ∃ region, r.pinned = some (pushSlot r.unit priority, region) := by
      by_contra hother
      have hlt := h.others.lower _ hrange.1 hrange.2 hother
      rw [hslot, hnext] at hlt
      omega
    obtain ⟨stack, hstack⟩ := hpinned
    have hpriority := (hresident _ stack hstack).2
    rw [vmpuMpuPush_mpuPriority, Function.update_self] at hpriority
    omega
  · intro hkeeps slot stack hstack
    obtain ⟨hresident, hpriority⟩ := h.resident slot stack hstack
    have hne : slot ≠ pushSlot r.unit priority := by
      rintro rfl
      rcases hcases with hfound | ⟨hslot, hfull⟩
      · omega
      · rcases hkeeps with ⟨i, hhigh, hlow, hi⟩ | hnext
        · have hge := hfull i hlow hhigh
          omega
        · rw [← hslot] at hnext
          exact hnext hpriority
    constructor
    · rw [vmpuMpuPush_regions, Function.update_of_ne hne]
      exact hresident
    · rw [vmpuMpuPush_mpuPriority, Function.update_of_ne hne]
      exact hpriority

theorem Inv.push (h : Inv r) {region : MpuRegion} {priority : ℕ} (hlower : priority < 255)
    (hkeeps : Keeps r.unit priority) :
    Inv {r with unit := (vmpuMpuPush region priority r.unit).2} :=
  ⟨h.others.push hlower, h.range, (push_resident h hlower).mpr hkeeps⟩

end Invariant

/-! ## Context switches -/

section Switches

variable {regions : BoxId → List MpuRegion} {g : Geometry} {s : ArmSau.State}
  {stack : MpuRegion}

/-- The slot after some pushes into free slots. -/
def loadedSlot (pushes : ℕ) : ℕ := regionsStatic+(pushes+1)%(regionsMax-regionsStatic)

theorem loadedSlot_range (pushes : ℕ) :
    regionsStatic ≤ loadedSlot pushes ∧ loadedSlot pushes < regionsMax := by
  simp only [loadedSlot, regionsStatic, regionsMax]
  omega

theorem next_loadedSlot (pushes : ℕ) :
    RoundRobin.next regionsStatic regionsMax (loadedSlot pushes) = loadedSlot (pushes+1) := by
  by_cases hlast : regionsMax ≤ loadedSlot pushes+1
  · rw [RoundRobin.next, if_pos hlast]
    simp only [loadedSlot, regionsStatic, regionsMax] at hlast ⊢
    omega
  · rw [RoundRobin.next, if_neg hlast]
    simp only [loadedSlot, regionsStatic, regionsMax] at hlast ⊢
    omega

theorem loadedSlot_inj {i j : ℕ} (hi : i < 4) (hj : j < 4) (h : loadedSlot i = loadedSlot j) :
    i = j := by
  simp only [loadedSlot, regionsStatic, regionsMax] at h
  omega

/-- Every slot of the round robin is reached within one round. -/
theorem exists_loadedSlot {i : ℕ} (hlow : regionsStatic ≤ i) (hhigh : i < regionsMax) :
    ∃ j < 4, i = loadedSlot j := by
  simp only [loadedSlot, regionsStatic, regionsMax] at hlow hhigh ⊢
  exact ⟨(i+3)%4, by omega, by omega⟩

/-- An invalidation frees all slots. -/
theorem vmpuMpuInvalidate_spec (s : ArmSau.State) :
    (vmpuMpuInvalidate s).mpuSlot = loadedSlot 3 ∧
      (∀ i, regionsStatic ≤ i → i < regionsMax → (vmpuMpuInvalidate s).mpuPriority i = 0) ∧
      (vmpuMpuInvalidate s).activeBox = s.activeBox ∧ (vmpuMpuInvalidate s).alloc = s.alloc := by
  refine ⟨rfl, fun i hlow hhigh => ?_, rfl, rfl⟩
  refine (foldl_range'_writes (fun s : ArmSau.State => s.mpuPriority i) 0 (fun s slot => ?_)
    regionsStatic (regionsMax-regionsStatic) _).trans (if_pos ⟨hlow, hhigh⟩)
  exact Function.update_apply s.mpuPriority slot 0 i

/-- The stack has been loaded after an invalidation, and some regions of lower
priority after it. -/
structure Filled (stack : MpuRegion) (pushes floor : ℕ) (s : ArmSau.State) : Prop where
  /-- The slot that was loaded last. -/
  slot : s.mpuSlot = loadedSlot pushes
  /-- The stack is in the first slot. -/
  resident : s.sau.regions (loadedSlot 0) = programmed stack
  /-- The first slot has the highest priority. -/
  priority : s.mpuPriority (loadedSlot 0) = 255
  /-- The other regions have at least some priority. -/
  filled : ∀ i, 0 < i → i ≤ pushes →
    floor ≤ s.mpuPriority (loadedSlot i) ∧ s.mpuPriority (loadedSlot i) < 255
  /-- The rest is free. -/
  free : ∀ i, pushes < i → i < 4 → s.mpuPriority (loadedSlot i) = 0

/-- After an invalidation the stack gets the first slot. -/
theorem Filled.invalidated (stack : MpuRegion) (s : ArmSau.State) :
    Filled stack 0 254 (vmpuMpuPush stack 255 (vmpuMpuInvalidate s)).2 := by
  obtain ⟨hslot, hfree, -⟩ := vmpuMpuInvalidate_spec s
  have hrange := loadedSlot_range 3
  have hnext : RoundRobin.next regionsStatic regionsMax (vmpuMpuInvalidate s).mpuSlot =
      loadedSlot 0 := by
    rw [hslot]
    exact next_loadedSlot 3
  have hzero := hfree (loadedSlot 0) (loadedSlot_range 0).1 (loadedSlot_range 0).2
  have hpush : pushSlot (vmpuMpuInvalidate s) 255 = loadedSlot 0 := by
    rw [← hnext]
    refine pushSlot_next (by rw [hslot]; exact hrange) ?_
    rw [hnext, hzero]
    decide
  refine ⟨?_, ?_, ?_, fun i hpos hi => by omega, fun i hpos hi => ?_⟩
  · rw [vmpuMpuPush_mpuSlot, hpush]
  · rw [vmpuMpuPush_regions, hpush, Function.update_self]
  · rw [vmpuMpuPush_mpuPriority, hpush, Function.update_self]
    rfl
  · have hne : loadedSlot i ≠ loadedSlot 0 := fun h => by
      have h0 := loadedSlot_inj hi (by omega) h
      omega
    rw [vmpuMpuPush_mpuPriority, hpush, Function.update_of_ne hne]
    exact hfree _ (loadedSlot_range i).1 (loadedSlot_range i).2

/-- A further region gets the next slot while there is a free one. -/
theorem Filled.push {pushes floor priority : ℕ} (h : Filled stack pushes floor s)
    (hpushes : pushes < 3) (hpriority : 0 < priority) (hfloor : priority ≤ floor)
    (hlower : priority < 255) (region : MpuRegion) :
    Filled stack (pushes+1) priority (vmpuMpuPush region priority s).2 := by
  have hupgraded : upgraded priority = priority := if_neg (by omega)
  have hpush : pushSlot s priority = loadedSlot (pushes+1) := by
    rw [← next_loadedSlot, ← h.slot]
    refine pushSlot_next (by rw [h.slot]; exact loadedSlot_range pushes) ?_
    rw [h.slot, next_loadedSlot, h.free _ (by omega) (by omega), hupgraded]
    exact hpriority
  have hne : ∀ i < 4, i ≠ pushes+1 → loadedSlot i ≠ loadedSlot (pushes+1) :=
    fun i hi hi' heq => hi' (loadedSlot_inj hi (by omega) heq)
  refine ⟨?_, ?_, ?_, fun i hpos hi => ?_, fun i hpos hi => ?_⟩
  · rw [vmpuMpuPush_mpuSlot, hpush]
  · rw [vmpuMpuPush_regions, hpush, Function.update_of_ne (hne 0 (by omega) (by omega))]
    exact h.resident
  · rw [vmpuMpuPush_mpuPriority, hpush, Function.update_of_ne (hne 0 (by omega) (by omega))]
    exact h.priority
  · rw [vmpuMpuPush_mpuPriority, hpush, hupgraded]
    by_cases hlast : i = pushes+1
    · rw [hlast, Function.update_self]
      exact ⟨Nat.le_refl _, hlower⟩
    · rw [Function.update_of_ne (hne i (by omega) hlast)]
      have hfilled := h.filled i hpos (by omega)
      exact ⟨by omega, hfilled.2⟩
  · rw [vmpuMpuPush_mpuPriority, hpush, Function.update_of_ne (hne i hi (by omega))]
    exact h.free i (by omega) hi

/-- No slot has the highest priority any more. -/
def Lost (s : ArmSau.State) : Prop := LowerBut (fun _ => False) s

theorem Lost.push (h : Lost s) {region : MpuRegion} {priority : ℕ} (hlower : priority < 255) :
    Lost (vmpuMpuPush region priority s).2 :=
  LowerBut.push h hlower

/-- When all slots are filled, the next region of no higher priority gets the
slot of the stack. -/
theorem Filled.push_full {floor priority : ℕ} (h : Filled stack 3 floor s)
    (hpriority : 0 < priority) (hfloor : priority ≤ floor) (hlower : priority < 255)
    (region : MpuRegion) : Lost (vmpuMpuPush region priority s).2 := by
  have hupgraded : upgraded priority = priority := if_neg (by omega)
  have hslot : regionsStatic ≤ s.mpuSlot ∧ s.mpuSlot < regionsMax := by
    rw [h.slot]
    exact loadedSlot_range 3
  have hfull : ∀ i, regionsStatic ≤ i → i < regionsMax → priority ≤ s.mpuPriority i := by
    intro i hlow hhigh
    obtain ⟨j, hj, rfl⟩ := exists_loadedSlot hlow hhigh
    rcases Nat.eq_zero_or_pos j with rfl | hpos
    · rw [h.priority]
      omega
    · have hfilled := h.filled j hpos (by omega)
      omega
  have hpush : pushSlot s priority = loadedSlot 0 := by
    obtain ⟨hrange, hfound | ⟨hnext, -⟩⟩ := @pushSlot_cases s priority hslot
    · have hge := hfull _ hrange.1 hrange.2
      omega
    · rw [hnext, h.slot]
      exact next_loadedSlot 3
  refine ⟨?_, fun i hlow hhigh _ => ?_⟩
  · rw [vmpuMpuPush_mpuSlot, hpush]
    exact loadedSlot_range 0
  · obtain ⟨j, hj, rfl⟩ := exists_loadedSlot hlow hhigh
    rw [vmpuMpuPush_mpuPriority, hpush, hupgraded]
    rcases Nat.eq_zero_or_pos j with rfl | hpos
    · rw [Function.update_self]
      exact hlower
    · have hne : loadedSlot j ≠ loadedSlot 0 := fun heq => by
        have h0 := loadedSlot_inj hj (by omega) heq
        omega
      rw [Function.update_of_ne hne]
      exact (h.filled j hpos (by omega)).2

/-- Regions with their priorities. -/
abbrev Loads := List (MpuRegion × ℕ)

/-- Load regions one after the other. -/
def pushLoads (loads : Loads) (s : ArmSau.State) : ArmSau.State :=
  loads.foldl (fun s load => (vmpuMpuPush load.1 load.2 s).2) s

/-- No region comes after one of lower priority, and none has the highest. -/
def Descending (floor : ℕ) (loads : Loads) : Prop :=
  loads.Pairwise (fun a b => b.2 ≤ a.2) ∧ ∀ load ∈ loads, 0 < load.2 ∧ load.2 ≤ floor ∧ load.2 < 255

theorem Lost.pushLoads (h : Lost s) {loads : Loads} (hloads : ∀ load ∈ loads, load.2 < 255) :
    Lost (pushLoads loads s) := by
  induction loads generalizing s with
  | nil => exact h
  | cons load loads ih =>
    obtain ⟨hload, hrest⟩ := List.forall_mem_cons.mp hloads
    exact ih (h.push hload) hrest

/-- The stack stays in its slot if there are slots for all other regions, and
loses it otherwise. -/
theorem Filled.pushLoads {pushes floor : ℕ} (h : Filled stack pushes floor s)
    (hpushes : pushes ≤ 3) {loads : Loads} (hloads : Descending floor loads) :
    (pushes+loads.length ≤ 3 → ∃ rest, Filled stack (pushes+loads.length) rest (pushLoads loads s)) ∧
      (3 < pushes+loads.length → Lost (pushLoads loads s)) := by
  induction loads generalizing s pushes floor with
  | nil => exact ⟨fun _ => ⟨floor, h⟩, fun hlt => by simp at hlt; omega⟩
  | cons load loads ih =>
    obtain ⟨hpairs, hall⟩ := hloads
    obtain ⟨hafter, hpairs⟩ := List.pairwise_cons.mp hpairs
    obtain ⟨⟨hpos, hle, hlower⟩, hrest⟩ := List.forall_mem_cons.mp hall
    rw [List.length_cons]
    by_cases hfree : pushes < 3
    · have hpush := h.push hfree hpos hle hlower load.1
      have hdescending : Descending load.2 loads :=
        ⟨hpairs, fun other hmem => ⟨(hrest other hmem).1, hafter other hmem, (hrest other hmem).2.2⟩⟩
      have hcount : pushes+(loads.length+1) = pushes+1+loads.length := by omega
      rw [hcount]
      exact ih hpush hfree hdescending
    · obtain rfl : pushes = 3 := by omega
      refine ⟨fun hle => by omega, fun _ => ?_⟩
      exact (h.push_full hpos hle hlower load.1).pushLoads fun other hmem => (hrest other hmem).2.2

/-- The regions of the pages of a box. -/
def pageLoads (g : Geometry) (box : BoxId) (alloc : PageAllocator.State) : Loads :=
  (activePages g box alloc).map fun page =>
    (pageRegion (pageOrigin g page) ((pageOrigin g page+g.pageSize)%2^32), 100)

theorem pushPages_eq (g : Geometry) (s : ArmSau.State) :
    pushPages g s = pushLoads (pageLoads g s.activeBox s.alloc) s := by
  have hmore : ∀ startAddr endAddr ii s,
      (vmpuMemPushPageAclIterator startAddr endAddr ii s).1 = true :=
    fun _ _ _ _ => vmpuMpuPush_fst
  rw [pushPages, iterateActivePages_forward hmore, pageLoads, pushLoads, List.foldl_map]
  rfl

theorem pushWhile_eq (priority : ℕ) (others : List MpuRegion) (s : ArmSau.State) :
    pushWhile priority others s = pushLoads (others.map fun region => (region, priority)) s := by
  induction others generalizing s with
  | nil => rfl
  | cons region others ih =>
    simp only [pushWhile, vmpuMpuPush_fst, if_true]
    exact ih _

/-- What a switch loads after the stack: the pages and then the other regions. -/
def switchLoads (g : Geometry) (s : ArmSau.State) (others : List MpuRegion) (priority : ℕ) : Loads :=
  pageLoads g s.activeBox s.alloc ++ others.map fun region => (region, priority)

theorem switchLoads_descending (g : Geometry) (s : ArmSau.State) (others : List MpuRegion)
    {priority : ℕ} (hpos : 0 < priority) (hle : priority ≤ 100) :
    Descending 254 (switchLoads g s others priority) := by
  have hpages : ∀ load ∈ pageLoads g s.activeBox s.alloc, load.2 = 100 := by
    intro load hmem
    obtain ⟨page, -, rfl⟩ := List.mem_map.mp hmem
    rfl
  have hothers : ∀ load ∈ others.map (fun region => (region, priority)), load.2 = priority := by
    intro load hmem
    obtain ⟨region, -, rfl⟩ := List.mem_map.mp hmem
    rfl
  refine ⟨List.pairwise_append.mpr ⟨?_, ?_, fun a ha b hb => ?_⟩, fun load hmem => ?_⟩
  · refine List.pairwise_of_forall_mem_list fun a ha b hb => ?_
    rw [hpages a ha, hpages b hb]
  · refine List.pairwise_of_forall_mem_list fun a ha b hb => ?_
    rw [hothers a ha, hothers b hb]
  · rw [hpages a ha, hothers b hb]
    exact hle
  · rcases List.mem_append.mp hmem with hmem | hmem
    · rw [hpages load hmem]
      decide
    · rw [hothers load hmem]
      omega

theorem vmpuMpuPush_frame (region : MpuRegion) (priority : ℕ) (s : ArmSau.State) :
    (vmpuMpuPush region priority s).2.activeBox = s.activeBox ∧
      (vmpuMpuPush region priority s).2.alloc = s.alloc := by
  rw [vmpuMpuPush_eq]
  exact ⟨rfl, rfl⟩

theorem pushLoads_frame (loads : Loads) (s : ArmSau.State) :
    (pushLoads loads s).activeBox = s.activeBox ∧ (pushLoads loads s).alloc = s.alloc := by
  have hbox : ∀ (s : ArmSau.State) (load : MpuRegion × ℕ),
      (vmpuMpuPush load.1 load.2 s).2.activeBox = s.activeBox :=
    fun s load => (vmpuMpuPush_frame load.1 load.2 s).1
  have halloc : ∀ (s : ArmSau.State) (load : MpuRegion × ℕ),
      (vmpuMpuPush load.1 load.2 s).2.alloc = s.alloc :=
    fun s load => (vmpuMpuPush_frame load.1 load.2 s).2
  exact ⟨foldl_keeps ArmSau.State.activeBox hbox loads s, foldl_keeps ArmSau.State.alloc halloc loads s⟩

/-- The pages and then further regions. -/
theorem pushWhile_pushPages (g : Geometry) (s : ArmSau.State) (others : List MpuRegion)
    (priority : ℕ) :
    pushWhile priority others (pushPages g s) = pushLoads (switchLoads g s others priority) s := by
  rw [pushWhile_eq, pushPages_eq, switchLoads, pushLoads, pushLoads, pushLoads, List.foldl_append]

/-- Free slots do not have the highest priority. -/
theorem vmpuMpuInvalidate_lost (s : ArmSau.State) : Lost (vmpuMpuInvalidate s) where
  slot := by
    rw [(vmpuMpuInvalidate_spec s).1]
    exact loadedSlot_range 3
  lower i hlow hhigh _ := by
    rw [(vmpuMpuInvalidate_spec s).2.1 i hlow hhigh]
    decide

theorem Filled.inv {pushes floor : ℕ} (h : Filled stack pushes floor s) :
    Inv ⟨s, some (loadedSlot 0, stack)⟩ where
  others := by
    refine ⟨by rw [h.slot]; exact loadedSlot_range pushes, fun i hlow hhigh hi => ?_⟩
    obtain ⟨j, hj, rfl⟩ := exists_loadedSlot hlow hhigh
    have hpos : 0 < j := by
      rcases Nat.eq_zero_or_pos j with rfl | hpos
      · exact absurd ⟨stack, rfl⟩ hi
      · exact hpos
    by_cases hfilled : j ≤ pushes
    · exact (h.filled j hpos hfilled).2
    · change s.mpuPriority (loadedSlot j) < 255
      rw [h.free j (by omega) hj]
      decide
  range slot region hpinned := by
    obtain ⟨rfl, rfl⟩ := Prod.mk.inj (Option.some.inj hpinned)
    exact loadedSlot_range 0
  resident slot region hpinned := by
    obtain ⟨rfl, rfl⟩ := Prod.mk.inj (Option.some.inj hpinned)
    exact ⟨h.resident, h.priority⟩

theorem Lost.inv (h : Lost s) : Inv ⟨s, none⟩ :=
  ⟨⟨h.slot, fun i hlow hhigh _ => h.lower i hlow hhigh not_false⟩, nofun, nofun⟩

/-- A switch ends with the stack in its slot if and only if there are slots for
all regions that it loads. -/
theorem switch_resident {r r' : Run} {dstBox : BoxId}
    (hs : step regions g r (.switch dstBox) = some r') :
    (Meets regions g r (.switch dstBox) → Inv r') ∧
      (Resident r' → Meets regions g r (.switch dstBox)) := by
  obtain ⟨unit, hunit, rfl⟩ := Option.map_eq_some_iff.mp hs
  by_cases hdst : dstBox = 0
  · subst hdst
    simp only [vmpuSwitch, ne_eq, not_true_eq_false, if_false, Option.some.injEq] at hunit
    rw [pushWhile_pushPages] at hunit
    have hlost : Lost unit := by
      rw [← hunit]
      refine (vmpuMpuInvalidate_lost r.unit).pushLoads fun load hmem => ?_
      exact ((switchLoads_descending g _ (regions 0) (by decide) (by decide)).2 load hmem).2.2
    exact ⟨fun _ => hlost.inv, fun _ h => absurd rfl h⟩
  · simp only [vmpuSwitch, ne_eq, hdst, not_false_eq_true, if_true] at hunit
    cases hregions : regions dstBox with
    | nil =>
      rw [hregions] at hunit
      cases hunit
    | cons stack others =>
      rw [hregions] at hunit
      simp only [Option.some.injEq, pushWhile_pushPages] at hunit
      have hfilled := Filled.invalidated stack r.unit
      obtain ⟨hbox, halloc⟩ := vmpuMpuPush_frame stack 255 (vmpuMpuInvalidate r.unit)
      obtain ⟨-, -, hbox', halloc'⟩ := vmpuMpuInvalidate_spec r.unit
      have hstack : stackOf regions dstBox r.unit = some (loadedSlot 0, stack) := by
        rw [stackOf, if_neg hdst, hregions, List.head?_cons, Option.map_some, hfilled.slot]
      have hcount : (switchLoads g (vmpuMpuPush stack 255 (vmpuMpuInvalidate r.unit)).2 others
          2).length = (activePages g r.unit.activeBox r.unit.alloc).length+others.length := by
        rw [switchLoads, List.length_append, pageLoads, List.length_map, List.length_map, hbox,
          halloc, hbox', halloc']
      obtain ⟨hfree, hfull⟩ := hfilled.pushLoads (Nat.zero_le 3)
        (switchLoads_descending g (vmpuMpuPush stack 255 (vmpuMpuInvalidate r.unit)).2 others
          (show 0 < 2 by decide) (by decide))
      rw [hcount, hunit] at hfree hfull
      have hmax : regionsMax-regionsStatic = 4 := rfl
      simp only [Meets, hregions, List.length_cons, hmax, hstack]
      constructor
      · intro hmeets
        have hle := hmeets hdst
        obtain ⟨rest, hrest⟩ := hfree (by omega)
        exact hrest.inv
      · intro hresident _
        by_contra hmore
        have hlost := hfull (by omega)
        have hpriority := (hresident _ _ rfl).2
        have hlt := hlost.lower _ (loadedSlot_range 0).1 (loadedSlot_range 0).2 not_false
        change unit.mpuPriority (loadedSlot 0) = 255 at hpriority
        omega

end Switches

/-! ## The stack stays -/

section Runs

variable {regions : BoxId → List MpuRegion} {g : Geometry} {r r' : Run}

theorem inv_initial (h : Initial r) : Inv r where
  others := by
    refine ⟨by rw [h.slot]; decide, fun i hlow hhigh _ => ?_⟩
    rw [h.priorities i hlow hhigh]
    decide
  range slot region hpinned := by
    rw [h.pinned] at hpinned
    cases hpinned
  resident slot region hpinned := by
    rw [h.pinned] at hpinned
    cases hpinned

/-- Other changes do not touch the unit. -/
theorem Inv.frame (h : Inv r) (activeBox : BoxId) (alloc : PageAllocator.State) :
    Inv {r with unit := {r.unit with activeBox, alloc}} :=
  ⟨⟨h.others.slot, h.others.lower⟩, h.range, h.resident⟩

/-- A step keeps the stack if and only if it meets the condition, and then it
keeps the invariant. -/
theorem step_resident (h : Inv r) {a : Action} (hs : step regions g r a = some r') :
    (Meets regions g r a → Inv r') ∧ (Resident r' → Meets regions g r a) := by
  cases a with
  | switch dstBox => exact switch_resident hs
  | fault faultAddr =>
    obtain rfl := Option.some.inj hs
    simp only [vmpuFaultRecoveryMpu, Meets, faultPriority]
    cases hpage : getActiveRegionForAddress g r.unit.activeBox r.unit.alloc faultAddr.toNat with
    | ok found =>
      obtain ⟨startAddr, endAddr, page⟩ := found
      have hcounted := h.frame r.unit.activeBox
        (ArmMpu.pageAllocatorRegisterFault g page r.unit.alloc)
      constructor
      · intro hkeeps
        exact hcounted.push (show 100 < 255 by decide) (hkeeps 100 rfl)
      · rintro hresident priority ⟨⟩
        exact (push_resident hcounted (show 100 < 255 by decide)).mp hresident
    | error e =>
      cases hfind : vmpuFaultFindRegion regions faultAddr r.unit with
      | none => exact ⟨fun _ => h, fun _ priority hnone => nomatch hnone⟩
      | some region =>
        constructor
        · intro hkeeps
          exact h.push (show 3 < 255 by decide) (hkeeps 3 rfl)
        · rintro hresident priority ⟨⟩
          exact (push_resident h (show 3 < 255 by decide)).mp hresident
  | push region priority =>
    simp only [step] at hs
    split at hs
    · rename_i hlower
      obtain rfl := Option.some.inj hs
      exact ⟨fun hkeeps => h.push hlower hkeeps, (push_resident h hlower).mp⟩
    · cases hs
  | others activeBox alloc =>
    obtain rfl := Option.some.inj hs
    exact ⟨fun _ => h.frame activeBox alloc, fun _ => trivial⟩

theorem inv_reachable (h : Reachable Initial (step regions g) (Meets regions g) r) : Inv r :=
  h.invariant Inv (fun _ => inv_initial) fun _ _ _ hi hmeets hs => (step_resident hi hs).1 hmeets

/-- In a run whose switches have enough slots and whose pushes find one that
they may take, the region of highest priority stays in its slot. The next step
keeps it there if and only if it is of this kind. -/
theorem stack_resident (h : Reachable Initial (step regions g) (Meets regions g) r) :
    Resident r ∧ ∀ a r', step regions g r a = some r' → (Resident r' ↔ Meets regions g r a) := by
  have hinv := inv_reachable h
  refine ⟨hinv.resident, fun a r' hs => ?_⟩
  obtain ⟨hkeeps, hmeets⟩ := step_resident hinv hs
  exact ⟨hmeets, fun h => (hkeeps h).resident⟩

/-! ### A small device -/

instance (s : ArmSau.State) (priority : ℕ) : Decidable (Keeps s priority) :=
  inferInstanceAs (Decidable ((∃ i < regionsMax,
    regionsStatic ≤ i ∧ s.mpuPriority i < upgraded priority) ∨ _ ≠ _))

instance (regions : BoxId → List MpuRegion) (g : Geometry) (r : Run) (a : Action) :
    Decidable (Meets regions g r a) :=
  match a with
  | .switch dstBox => inferInstanceAs (Decidable (dstBox ≠ 0 → _ ≤ _))
  | .fault faultAddr => inferInstanceAs (Decidable (∀ priority ∈ faultPriority regions g faultAddr
      r.unit, Keeps r.unit priority))
  | .push _ priority => inferInstanceAs (Decidable (Keeps r.unit priority))
  | .others _ _ => inferInstanceAs (Decidable True)

/-- A page heap of four pages. -/
def sauPages : Geometry := layout .armv8m 0x20002000 0x20001000 1024

/-- Box 0 has a peripheral, box 1 its stack and its context. -/
def sauBoxes (box : BoxId) : List MpuRegion :=
  if box = 0 then [⟨0x40000000, 0x40001000, 1, 0x16⟩]
  else if box = 1 then [⟨0x20008000, 0x20008400, 1, 0x36⟩, ⟨0x20008800, 0x20008C00, 1, 0x36⟩]
  else []

/-- The first pages belong to box 1. -/
def pagesTaken (pages : ℕ) : PageAllocator.State :=
  (List.range pages).foldl (takePage sauPages 1) booted.alloc

/-- Nothing has been loaded yet. -/
def bootedRun : Run := ⟨⟨0, ⟨0, fun _ => ⟨0, 0⟩⟩, 4, fun _ => 0, booted.alloc⟩, none⟩

theorem bootedRun_initial : Initial bootedRun := ⟨rfl, fun _ _ _ => rfl, rfl⟩

/-- With one page the stack of box 1 keeps its slot, also when box 1 accesses the
peripheral. -/
theorem stack_resident_onePage : ∃ r,
    execWithin (step sauBoxes sauPages) (Meets sauBoxes sauPages)
      [.others 1 (pagesTaken 1), .switch 1, .fault 0x40000010] bootedRun = some r ∧
      r.pinned.isSome ∧ Resident r := by
  have hrun : ((execWithin (step sauBoxes sauPages) (Meets sauBoxes sauPages)
      [.others 1 (pagesTaken 1), .switch 1, .fault 0x40000010] bootedRun).map fun r =>
        r.pinned.isSome) = some true := by decide +kernel
  obtain ⟨r, hr, hpinned⟩ := Option.map_eq_some_iff.mp hrun
  have hreachable := execWithin_reachable (Reachable.start bootedRun_initial) hr
  exact ⟨r, hr, hpinned, (stack_resident hreachable).1⟩

/-- With three pages the switch itself replaces the stack of box 1. -/
theorem stack_resident_fails :
    ¬∀ r, Reachable Initial (step sauBoxes sauPages) (fun _ _ => True) r → Resident r := by
  intro h
  have hrun : ((exec (step sauBoxes sauPages) [.others 1 (pagesTaken 3), .switch 1]
      bootedRun).bind fun r => r.pinned.map fun pinned =>
        r.unit.mpuPriority pinned.1) = some 2 := by decide +kernel
  obtain ⟨r, hr, hpinned⟩ := Option.bind_eq_some_iff.mp hrun
  obtain ⟨⟨slot, region⟩, hslot, hpriority⟩ := Option.map_eq_some_iff.mp hpinned
  have hresident := h r (exec_reachable (Reachable.start bootedRun_initial) hr)
  have hhighest := (hresident slot region hslot).2
  rw [hpriority] at hhighest
  cases hhighest

end Runs

end Uvisor.SauPriority
