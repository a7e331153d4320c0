import Uvisor.KinetisMpu
import Uvisor.MpuPriority

/-!
# Slots of the Kinetis unit

The slot of the round robin is incremented after each push, and it wraps around
only when it is past the number of slots. Between two invalidations the pushes
fill the free slots one after the other. Eight of them stay within bounds. The
ninth leaves a slot that does not exist, and the next one looks at it.
-/

namespace Uvisor.KinetisSlots

open PageAllocator KinetisMpu Execution
open ArmMpu (Word MpuRegion)
open MpuPriority (upgraded upgraded_pos)

/-! ## Runs -/

/-- The functions that access the unit. -/
inductive Call where
  | invalidate
  | setStaticAcl (index : ℕ) (start size acl aclHwSpec : Word) (uninitialised : MpuRegion)
  | push (region : MpuRegion) (priority : ℕ)

/-- One call. -/
def step (s : KinetisMpu.State) : Call → Option KinetisMpu.State
  | .invalidate => some (vmpuMpuInvalidate s)
  | .setStaticAcl index start size acl aclHwSpec uninitialised =>
    (vmpuMpuSetStaticAcl index start size acl aclHwSpec uninitialised s).map Prod.snd
  | .push region priority => some (vmpuMpuPush region priority s).2

/-- Nothing has been loaded since the start. -/
structure Initial (s : KinetisMpu.State) : Prop where
  /-- The round robin stands at its first slot. -/
  slot : s.mpuSlot = regionsStatic
  /-- Nothing has a priority. -/
  priorities : ∀ i, regionsStatic ≤ i → i < regionsMax → s.mpuPriority i = 0
  /-- Nothing has been accessed. -/
  log : s.log = []

/-- What is expected after a call. -/
structure Safe (call : Call) (s : KinetisMpu.State) : Prop where
  /-- The slot of the round robin exists and is not static. -/
  slot : regionsStatic ≤ s.mpuSlot ∧ s.mpuSlot < regionsMax
  /-- Only entries that exist have been accessed. -/
  indices : ∀ access ∈ s.log, access.index < regionsMax
  /-- Static slots have been written by one function only. -/
  static : ∀ index caller, Access.word index caller ∈ s.log → index < regionsStatic →
    caller = .setStaticAcl
  /-- A region that has been pushed is in a slot that exists. -/
  programmed : ∀ region priority, call = .push region priority →
    ∃ i, regionsStatic ≤ i ∧ i < regionsMax ∧ s.words i = descriptor region

/-- Every call of a run is safe. -/
def AllSafe (s₀ : KinetisMpu.State) (calls : List Call) : Prop :=
  ∀ before call after, calls = before ++ call :: after →
    ∀ s t, exec step before s₀ = some s → step s call = some t → Safe call t

/-- Between two invalidations there are no more pushes than slots, less one. The
system halts at a static region that does not exist. -/
def PushesWithin : ℕ → List Call → Prop
  | _, [] => True
  | _, .invalidate :: calls => PushesWithin 0 calls
  | pushes, .setStaticAcl index _ _ _ _ _ :: calls =>
    index < regionsStatic → PushesWithin pushes calls
  | pushes, .push _ _ :: calls =>
    pushes+1 < regionsMax-regionsStatic ∧ PushesWithin (pushes+1) calls

/-! ## The loop of a push -/

section Loops

variable {mpuPriority : ℕ → ℕ} {priority start : ℕ} {st : Search}

theorem nextSlot_eq (slot : ℕ) :
    nextSlot slot = RoundRobin.next regionsStatic (regionsMax+1) slot := rfl

/-- The loop of a push ends within one round over the slots and the entry after
the last one. -/
theorem iterate_searchBody (hslot : regionsStatic ≤ st.slot ∧ st.slot ≤ regionsMax)
    (hstart : regionsStatic ≤ start ∧ start ≤ regionsMax) {passes : ℕ}
    (hpasses : RoundRobin.distance regionsStatic (regionsMax+1) start st.slot ≤ passes) :
    (iterate (searchBody mpuPriority priority start) passes st).isSome = true := by
  induction passes generalizing st with
  | zero =>
    have hpos := @RoundRobin.distance_pos regionsStatic (regionsMax+1) start st.slot (by omega)
    omega
  | succ passes ih =>
    by_cases hfound : mpuPriority st.slot < priority
    · simp only [iterate, searchBody, if_pos hfound, Option.isSome_some]
    · by_cases hback : nextSlot st.slot ≠ start
      · simp only [iterate, searchBody, if_neg hfound, if_pos hback]
        have hnext := @RoundRobin.next_range regionsStatic (regionsMax+1) st.slot hslot.1 (by decide)
        rw [nextSlot_eq] at hback
        have hcloser := @RoundRobin.distance_next regionsStatic (regionsMax+1) start st.slot
          ⟨hslot.1, by omega⟩ ⟨hstart.1, by omega⟩ hback
        rw [nextSlot_eq]
        have hrange : regionsStatic ≤ RoundRobin.next regionsStatic (regionsMax+1) st.slot ∧
            RoundRobin.next regionsStatic (regionsMax+1) st.slot ≤ regionsMax :=
          ⟨hnext.1, by omega⟩
        have hless : RoundRobin.distance regionsStatic (regionsMax+1) start
            (RoundRobin.next regionsStatic (regionsMax+1) st.slot) ≤ passes := by omega
        exact ih hrange hless
      · simp only [iterate, searchBody, if_neg hfound, if_neg hback, Option.isSome_some]

/-- The search of a push is the result of its loop. -/
theorem iterate_search (hstart : regionsStatic ≤ start ∧ start ≤ regionsMax) :
    iterate (searchBody mpuPriority priority start) (regionsMax-regionsStatic+1)
      (searchStart start) = some (search mpuPriority priority start) := by
  have hdistance : RoundRobin.distance regionsStatic (regionsMax+1) start start ≤
      regionsMax-regionsStatic+1 := by
    rw [RoundRobin.distance_start]
    omega
  have hsome := @iterate_searchBody mpuPriority priority start (searchStart start) hstart hstart _
    hdistance
  obtain ⟨result, hresult⟩ := Option.isSome_iff_exists.mp hsome
  rw [search, hresult, Option.getD_some]

/-- A search ends at once if the slot it begins at has a lower priority. -/
theorem search_free (h : mpuPriority start < priority) :
    search mpuPriority priority start = ⟨start, start, true, [start]⟩ := by
  simp [search, iterate, searchBody, searchStart, h]

end Loops

/-! ## One call -/

section Calls

variable {s t : KinetisMpu.State} {pushes : ℕ}

/-- Some regions have been pushed into free slots since the last invalidation. -/
structure Inv (pushes : ℕ) (s : KinetisMpu.State) : Prop where
  /-- There is a slot left. -/
  room : pushes < regionsMax-regionsStatic
  /-- The round robin stands after the slots that have been used. -/
  slot : s.mpuSlot = regionsStatic+pushes
  /-- The slots from there on are free. -/
  free : ∀ i, regionsStatic+pushes ≤ i → i < regionsMax → s.mpuPriority i = 0
  /-- Only entries that exist have been accessed. -/
  indices : ∀ access ∈ s.log, access.index < regionsMax
  /-- Static slots have been written by one function only. -/
  static : ∀ index caller, Access.word index caller ∈ s.log → index < regionsStatic →
    caller = .setStaticAcl

theorem Inv.range (h : Inv pushes s) : regionsStatic ≤ s.mpuSlot ∧ s.mpuSlot < regionsMax := by
  have hpushes := h.room
  rw [h.slot]
  omega

/-- After other calls than pushes nothing more is expected. -/
theorem Inv.safe (h : Inv pushes s) {call : Call}
    (hcall : ∀ region priority, call ≠ .push region priority) : Safe call s :=
  ⟨h.range, h.indices, h.static, fun region priority heq => absurd heq (hcall region priority)⟩

theorem inv_initial (h : Initial s) : Inv 0 s where
  room := by decide
  slot := h.slot
  free i hlow hhigh := h.priorities i hlow hhigh
  indices access hmem := by
    rw [h.log] at hmem
    cases hmem
  static index caller hmem := by
    rw [h.log] at hmem
    cases hmem

/-- An invalidation frees the slots that are not static, and accesses no others. -/
theorem vmpuMpuInvalidate_spec (s : KinetisMpu.State) :
    (vmpuMpuInvalidate s).mpuSlot = regionsStatic ∧
      (∀ i, regionsStatic ≤ i → i < regionsMax → (vmpuMpuInvalidate s).mpuPriority i = 0) ∧
      (vmpuMpuInvalidate s).log = s.log ++
        (List.range' regionsStatic (regionsMax-regionsStatic)).flatMap fun slot =>
          [.word slot .invalidate, .priority slot] := by
  have hlog : ∀ (slots : List ℕ) (s : KinetisMpu.State), (slots.foldl invalidateSlot s).log =
      s.log ++ slots.flatMap fun slot => [.word slot .invalidate, .priority slot] := by
    intro slots
    induction slots with
    | nil => exact fun s => (List.append_nil _).symm
    | cons slot slots ih =>
      intro s
      rw [List.foldl_cons, ih, List.flatMap_cons, ← List.append_assoc]
      rfl
  refine ⟨@foldl_keeps _ _ _ invalidateSlot KinetisMpu.State.mpuSlot (fun _ _ => rfl) _ _, fun i hlow hhigh => ?_,
    hlog (List.range' regionsStatic (regionsMax-regionsStatic)) _⟩
  refine (foldl_range'_writes (fun s : KinetisMpu.State => s.mpuPriority i) 0 (fun s slot => ?_)
    regionsStatic (regionsMax-regionsStatic) _).trans (if_pos ⟨hlow, hhigh⟩)
  exact Function.update_apply s.mpuPriority slot 0 i

theorem Inv.invalidate (h : Inv pushes s) : Inv 0 (vmpuMpuInvalidate s) := by
  obtain ⟨hslot, hfree, hlog⟩ := vmpuMpuInvalidate_spec s
  have hnew : ∀ access ∈ (List.range' regionsStatic (regionsMax-regionsStatic)).flatMap
      (fun slot => [Access.word slot .invalidate, .priority slot]),
      regionsStatic ≤ access.index ∧ access.index < regionsMax := by
    intro access hmem
    obtain ⟨slot, hslot, haccess⟩ := List.mem_flatMap.mp hmem
    rw [List.mem_range'_1] at hslot
    have hindex : access.index = slot := by
      rcases List.mem_cons.mp haccess with rfl | haccess
      · rfl
      · rw [List.mem_singleton.mp haccess]
        rfl
    rw [hindex]
    omega
  refine ⟨by decide, hslot, hfree, fun access hmem => ?_, fun index caller hmem hstatic => ?_⟩
  · rw [hlog] at hmem
    rcases List.mem_append.mp hmem with hmem | hmem
    · exact h.indices access hmem
    · exact (hnew access hmem).2
  · rw [hlog] at hmem
    rcases List.mem_append.mp hmem with hmem | hmem
    · exact h.static index caller hmem hstatic
    · have hlow := (hnew _ hmem).1
      change regionsStatic ≤ index at hlow
      omega

/-- A static region is set without a change of the round robin. -/
theorem Inv.setStaticAcl (h : Inv pushes s) {index : ℕ} {region : MpuRegion}
    (hindex : index < regionsStatic) :
    Inv pushes (programSlot .setStaticAcl region index 255 s) where
  room := h.room
  slot := h.slot
  free i hlow hhigh := by
    have hne : i ≠ index := by omega
    exact (Function.update_of_ne hne ..).trans (h.free i hlow hhigh)
  indices access hmem := by
    have hmax : regionsStatic < regionsMax := by decide
    rcases List.mem_append.mp hmem with hmem | hmem
    · exact h.indices access hmem
    · simp only [List.mem_cons, List.not_mem_nil, or_false] at hmem
      rcases hmem with rfl | rfl <;> exact Nat.lt_trans hindex hmax
  static slot caller hmem hstatic := by
    rcases List.mem_append.mp hmem with hmem | hmem
    · exact h.static slot caller hmem hstatic
    · simp only [List.mem_cons, List.not_mem_nil, or_false, reduceCtorEq, Access.word.injEq] at hmem
      exact hmem.2

/-- The search of a push. -/
def pushSearch (s : KinetisMpu.State) (priority : ℕ) : Search :=
  search s.mpuPriority (upgraded priority) s.mpuSlot

/-- A push loads its region into the slot that was found, or into the last one
that was looked at. -/
theorem vmpuMpuPush_eq (region : MpuRegion) (priority : ℕ) (s : KinetisMpu.State) :
    vmpuMpuPush region priority s =
      let result := pushSearch s priority
      (true,
        {programSlot .push region (if result.found then result.slot else result.viable)
          (upgraded priority) {s with log := s.log ++ result.reads.map .priority} with
            mpuSlot := if result.found then nextSlot result.slot else result.slot}) := by
  unfold vmpuMpuPush
  change (if (pushSearch s priority).found then _ else _) = _
  by_cases hfound : (pushSearch s priority).found = true
  · simp only [if_pos hfound]
    rfl
  · simp only [if_neg hfound]
    rfl

/-- A push into a free slot takes that slot and moves on. -/
theorem vmpuMpuPush_free {region : MpuRegion} {priority : ℕ} (h : s.mpuPriority s.mpuSlot = 0) :
    vmpuMpuPush region priority s =
      (true, {programSlot .push region s.mpuSlot (upgraded priority)
        {s with log := s.log ++ [.priority s.mpuSlot]} with mpuSlot := nextSlot s.mpuSlot}) := by
  have hlower : s.mpuPriority s.mpuSlot < upgraded priority := by
    rw [h]
    exact upgraded_pos priority
  rw [vmpuMpuPush_eq, pushSearch, search_free hlower]
  rfl

/-- A push is safe if and only if it does not take the last slot. -/
theorem Inv.push (h : Inv pushes s) (region : MpuRegion) (priority : ℕ) :
    (pushes+1 < regionsMax-regionsStatic → Inv (pushes+1) (vmpuMpuPush region priority s).2 ∧
      Safe (.push region priority) (vmpuMpuPush region priority s).2) ∧
      (Safe (.push region priority) (vmpuMpuPush region priority s).2 →
        pushes+1 < regionsMax-regionsStatic) := by
  obtain ⟨hlow, hhigh⟩ := h.range
  have hpushes := h.room
  have hnext : nextSlot s.mpuSlot = regionsStatic+(pushes+1) := by
    rw [nextSlot, if_neg (by omega), h.slot, Nat.add_assoc]
  rw [vmpuMpuPush_free (h.free _ (by rw [h.slot]) hhigh), hnext]
  constructor
  · intro hless
    have hindices : ∀ access ∈ s.log ++ [Access.priority s.mpuSlot] ++
        [.word s.mpuSlot .push, .priority s.mpuSlot], access.index < regionsMax := by
      intro access hmem
      simp only [List.mem_append, List.mem_cons, List.not_mem_nil, or_false] at hmem
      rcases hmem with (hmem | rfl) | rfl | rfl
      · exact h.indices access hmem
      all_goals exact hhigh
    have hstatic : ∀ index caller, Access.word index caller ∈ s.log ++ [.priority s.mpuSlot] ++
        [.word s.mpuSlot .push, .priority s.mpuSlot] → index < regionsStatic →
          caller = .setStaticAcl := by
      intro index caller hmem hstatic
      simp only [List.mem_append, List.mem_cons, List.not_mem_nil, or_false, reduceCtorEq,
        Access.word.injEq] at hmem
      rcases hmem with hmem | ⟨rfl, -⟩
      · exact h.static index caller hmem hstatic
      · omega
    have hslot : regionsStatic ≤ regionsStatic+(pushes+1) ∧ regionsStatic+(pushes+1) < regionsMax := by
      omega
    refine ⟨⟨hless, rfl, fun i hi hi' => ?_, hindices, hstatic⟩, ⟨hslot, hindices, hstatic, ?_⟩⟩
    · have hne : i ≠ s.mpuSlot := by
        rw [h.slot]
        omega
      exact (Function.update_of_ne hne ..).trans (h.free i (by omega) hi')
    · rintro _ _ ⟨⟩
      exact ⟨s.mpuSlot, hlow, hhigh, Function.update_self ..⟩
  · intro hsafe
    have hslot := hsafe.slot.2
    change regionsStatic+(pushes+1) < regionsMax at hslot
    omega

end Calls

/-! ## All runs -/

section Runs

variable {s₀ s t : KinetisMpu.State} {pushes : ℕ}

theorem allSafe_cons {call : Call} {calls : List Call} :
    AllSafe s (call :: calls) ↔ ∀ t, step s call = some t → Safe call t ∧ AllSafe t calls := by
  constructor
  · intro h t ht
    refine ⟨h [] call calls rfl s t rfl ht, fun before later after heq u v hu hv => ?_⟩
    refine h (call :: before) later after (by rw [heq]; rfl) u v ?_ hv
    rw [exec, ht, Option.bind_some, hu]
  · intro h before later after heq u v hu hv
    cases before with
    | nil =>
      obtain ⟨rfl, rfl⟩ := List.cons.inj heq
      obtain rfl := Option.some.inj hu
      exact (h v hv).1
    | cons first before =>
      obtain ⟨rfl, rfl⟩ := List.cons.inj heq
      obtain ⟨t, ht, hu⟩ := Option.bind_eq_some_iff.mp hu
      exact (h t ht).2 before later after rfl u v hu hv

theorem Inv.allSafe (h : Inv pushes s) (calls : List Call) :
    AllSafe s calls ↔ PushesWithin pushes calls := by
  induction calls generalizing s pushes with
  | nil => exact ⟨fun _ => trivial, fun _ before call after heq => by simp at heq⟩
  | cons call calls ih =>
    rw [allSafe_cons]
    cases call with
    | invalidate =>
      have hnext := h.invalidate
      constructor
      · intro hall
        exact (ih hnext).mp (hall _ rfl).2
      · rintro hwithin t ⟨⟩
        exact ⟨hnext.safe nofun, (ih hnext).mpr hwithin⟩
    | setStaticAcl index start size acl aclHwSpec uninitialised =>
      by_cases hindex : regionsStatic ≤ index
      · have hhalts : step s (.setStaticAcl index start size acl aclHwSpec uninitialised) = none := by
          simp only [step, vmpuMpuSetStaticAcl, if_pos hindex, Option.map_none]
        constructor
        · intro _ hlow
          omega
        · intro _ t ht
          rw [hhalts] at ht
          cases ht
      · have hlow : index < regionsStatic := by omega
        have hstep : step s (.setStaticAcl index start size acl aclHwSpec uninitialised) =
            some (programSlot .setStaticAcl (((vmpuRegionTranslateAcl start size acl aclHwSpec).map
              Prod.fst).getD uninitialised) index 255 s) := by
          simp only [step, vmpuMpuSetStaticAcl, if_neg hindex, Option.map_some]
        constructor
        · intro hall _
          exact (ih (h.setStaticAcl hlow)).mp (hall _ hstep).2
        · intro hwithin t ht
          obtain rfl := Option.some.inj (hstep.symm.trans ht)
          exact ⟨(h.setStaticAcl hlow).safe nofun, (ih (h.setStaticAcl hlow)).mpr (hwithin hlow)⟩
    | push region priority =>
      obtain ⟨hless, hsafe⟩ := h.push region priority
      constructor
      · intro hall
        obtain ⟨hcall, hrest⟩ := hall _ rfl
        exact ⟨hsafe hcall, (ih (hless (hsafe hcall)).1).mp hrest⟩
      · rintro ⟨hwithin, hrest⟩ t ⟨⟩
        exact ⟨(hless hwithin).2, (ih (hless hwithin).1).mpr hrest⟩

/-- All calls of a run are safe if and only if there are at most eight pushes
between two invalidations. -/
theorem slots_bounded (h : Initial s₀) (calls : List Call) :
    AllSafe s₀ calls ↔ PushesWithin 0 calls :=
  (inv_initial h).allSafe calls

end Runs

/-! ## Context switches and faults are runs -/

section Switches

variable {regions : BoxId → List MpuRegion} {g : Geometry} {dstBox : BoxId}
  {s t : KinetisMpu.State}

/-- Regions that are pushed with their priorities. -/
def pushCalls (loads : List (MpuRegion × ℕ)) : List Call :=
  loads.map fun load => .push load.1 load.2

/-- What a context switch pushes: the regions of its destination unless that is
box 0, and then the pages of the active box. -/
def switchLoads (regions : BoxId → List MpuRegion) (g : Geometry) (dstBox : BoxId)
    (s : KinetisMpu.State) : List (MpuRegion × ℕ) :=
  (if dstBox = 0 then [] else regions dstBox).map (fun region => (region, 255)) ++
    (activePages g s.activeBox s.alloc).map fun page =>
      (pageRegion (pageOrigin g page) ((pageOrigin g page+g.pageSize)%2^32), 100)

/-- The calls of a context switch. -/
def switchCalls (regions : BoxId → List MpuRegion) (g : Geometry) (dstBox : BoxId)
    (s : KinetisMpu.State) : List Call :=
  .invalidate :: pushCalls (switchLoads regions g dstBox s)

@[simp] theorem vmpuMpuPush_fst {region : MpuRegion} {priority : ℕ} :
    (vmpuMpuPush region priority s).1 = true := by
  rw [vmpuMpuPush_eq]

theorem vmpuMpuPush_frame (region : MpuRegion) (priority : ℕ) (s : KinetisMpu.State) :
    (vmpuMpuPush region priority s).2.activeBox = s.activeBox ∧
      (vmpuMpuPush region priority s).2.alloc = s.alloc := by
  rw [vmpuMpuPush_eq]
  exact ⟨rfl, rfl⟩

/-- Push regions one after the other. -/
def pushLoads (loads : List (MpuRegion × ℕ)) (s : KinetisMpu.State) : KinetisMpu.State :=
  loads.foldl (fun s load => (vmpuMpuPush load.1 load.2 s).2) s

theorem pushLoads_frame (loads : List (MpuRegion × ℕ)) (s : KinetisMpu.State) :
    (pushLoads loads s).activeBox = s.activeBox ∧ (pushLoads loads s).alloc = s.alloc := by
  have hbox : ∀ (s : KinetisMpu.State) (load : MpuRegion × ℕ),
      (vmpuMpuPush load.1 load.2 s).2.activeBox = s.activeBox :=
    fun s load => (vmpuMpuPush_frame load.1 load.2 s).1
  have halloc : ∀ (s : KinetisMpu.State) (load : MpuRegion × ℕ),
      (vmpuMpuPush load.1 load.2 s).2.alloc = s.alloc :=
    fun s load => (vmpuMpuPush_frame load.1 load.2 s).2
  exact ⟨foldl_keeps KinetisMpu.State.activeBox hbox loads s, foldl_keeps KinetisMpu.State.alloc halloc loads s⟩

theorem exec_pushCalls (loads : List (MpuRegion × ℕ)) (s : KinetisMpu.State) :
    exec step (pushCalls loads) s = some (pushLoads loads s) := by
  induction loads generalizing s with
  | nil => rfl
  | cons load loads ih => exact ih _

theorem pushWhile_eq (priority : ℕ) (others : List MpuRegion) (s : KinetisMpu.State) :
    pushWhile priority others s = pushLoads (others.map fun region => (region, priority)) s := by
  induction others generalizing s with
  | nil => rfl
  | cons region others ih =>
    simp only [pushWhile, vmpuMpuPush_fst, if_true]
    exact ih _

theorem pushPages_eq (g : Geometry) (s : KinetisMpu.State) :
    pushPages g s = pushLoads ((activePages g s.activeBox s.alloc).map fun page =>
      (pageRegion (pageOrigin g page) ((pageOrigin g page+g.pageSize)%2^32), 100)) s := by
  have hmore : ∀ startAddr endAddr ii s,
      (vmpuMemPushPageAclIterator startAddr endAddr ii s).1 = true :=
    fun _ _ _ _ => vmpuMpuPush_fst
  rw [pushPages, iterateActivePages_forward hmore, pushLoads, List.foldl_map]
  rfl

/-- A context switch is a run. -/
theorem vmpuMemSwitch_calls (h : vmpuMemSwitch regions g dstBox s = some t) :
    exec step (switchCalls regions g dstBox s) s = some t := by
  rw [switchCalls, exec, step, Option.bind_some, exec_pushCalls, ← h]
  by_cases hdst : dstBox = 0
  · simp only [vmpuMemSwitch, ne_eq, hdst, not_true_eq_false, if_false, pushPages_eq, switchLoads,
      if_true, List.map_nil, List.nil_append]
    rfl
  · simp only [vmpuMemSwitch, vmpuRegionGetForBox, ne_eq, hdst, not_false_eq_true, if_true] at h ⊢
    split at h
    · cases h
    · rename_i hsome
      rw [if_neg hsome, Option.map_some, pushPages_eq, pushWhile_eq, switchLoads, if_neg hdst]
      obtain ⟨hbox, halloc⟩ := pushLoads_frame
        ((regions dstBox).map fun region => (region, 255)) (vmpuMpuInvalidate s)
      rw [hbox, halloc, pushLoads, pushLoads, pushLoads, ← List.foldl_append]
      rfl

/-- The recovery from a page fault is a push, or nothing. -/
theorem vmpuFaultRecoveryMpu_calls (g : Geometry) (faultAddr : Word) (s : KinetisMpu.State) :
    ∃ loads : List (MpuRegion × ℕ), loads.length ≤ 1 ∧
      exec step (pushCalls loads) {s with alloc := (vmpuFaultRecoveryMpu g faultAddr s).2.alloc} =
        some (vmpuFaultRecoveryMpu g faultAddr s).2 := by
  simp only [vmpuFaultRecoveryMpu]
  cases getActiveRegionForAddress g s.activeBox s.alloc faultAddr.toNat with
  | error e => exact ⟨[], by decide, rfl⟩
  | ok found =>
    obtain ⟨startAddr, endAddr, page⟩ := found
    simp only [vmpuMemPushPageAcl]
    split
    · exact ⟨[], by decide, rfl⟩
    · refine ⟨[(pageRegion startAddr endAddr, 100)], Nat.le_refl 1, ?_⟩
      rw [exec_pushCalls, vmpuMemPushPageAclIterator, (vmpuMpuPush_frame ..).2]
      rfl

theorem pushesWithin_pushCalls (loads : List (MpuRegion × ℕ)) {pushes : ℕ}
    (h : pushes < regionsMax-regionsStatic) :
    PushesWithin pushes (pushCalls loads) ↔ pushes+loads.length < regionsMax-regionsStatic := by
  induction loads generalizing pushes with
  | nil => exact ⟨fun _ => h, fun _ => trivial⟩
  | cons load loads ih =>
    have hcount : pushes+(load :: loads).length = pushes+1+loads.length := by
      rw [List.length_cons]
      omega
    rw [hcount]
    constructor
    · rintro ⟨hless, hrest⟩
      exact (ih hless).mp hrest
    · intro hless
      have hone : pushes+1 < regionsMax-regionsStatic := by omega
      exact ⟨hone, (ih hone).mpr hless⟩

/-- A context switch is safe if and only if it loads no more than eight regions
and pages. -/
theorem switch_safe {pushes : ℕ} (h : Inv pushes s) :
    AllSafe s (switchCalls regions g dstBox s) ↔
      (if dstBox = 0 then [] else regions dstBox).length+
        (activePages g s.activeBox s.alloc).length < regionsMax-regionsStatic := by
  rw [h.allSafe, switchCalls, PushesWithin, pushesWithin_pushCalls _ (by decide), switchLoads,
    List.length_append, List.length_map, List.length_map, Nat.zero_add]

/-! ### A small device -/

/-- A page heap of eight pages. -/
def eightPages : Geometry := layout .kinetis 0x20004000 0x20002000 1024

/-- Box 1 has its stack and its context. -/
def kinetisBoxes (box : BoxId) : List MpuRegion :=
  if box = 1 then [⟨0x20008000, 0x20008400, 0x1E, 0x36⟩, ⟨0x20008800, 0x20008C00, 0x1E, 0x36⟩]
  else []

/-- The first pages belong to box 1, which is active. Nothing has been loaded. -/
def unitWithPages (pages : ℕ) : KinetisMpu.State where
  activeBox := 1
  words _ := ⟨0, 0, 0, 0⟩
  mpuSlot := regionsStatic
  mpuPriority _ := 0
  alloc := (List.range pages).foldl (takePage eightPages 1) booted.alloc
  log := []

theorem unitWithPages_initial (pages : ℕ) : Initial (unitWithPages pages) :=
  ⟨rfl, fun _ _ _ => rfl, rfl⟩

/-- With six pages all calls of a switch to box 1 are safe. -/
theorem slots_bounded_sixPages :
    AllSafe (unitWithPages 6) (switchCalls kinetisBoxes eightPages 1 (unitWithPages 6)) := by
  rw [slots_bounded (unitWithPages_initial 6), switchCalls, PushesWithin,
    pushesWithin_pushCalls _ (by decide)]
  decide +kernel

/-- With seven pages the switch leaves a slot that does not exist, and the next
page fault writes the descriptor after the last one. -/
theorem slots_bounded_fails :
    (¬∀ calls, AllSafe (unitWithPages 7) calls) ∧
      ∃ t, vmpuMemSwitch kinetisBoxes eightPages 1 (unitWithPages 7) = some t ∧
        t.mpuSlot = regionsMax ∧
        Access.word regionsMax .push ∈ (vmpuFaultRecoveryMpu eightPages 0x20002000 t).2.log := by
  constructor
  · intro h
    have hswitch := h (switchCalls kinetisBoxes eightPages 1 (unitWithPages 7))
    rw [switch_safe (inv_initial (unitWithPages_initial 7))] at hswitch
    revert hswitch
    decide +kernel
  · have hrun : ((vmpuMemSwitch kinetisBoxes eightPages 1 (unitWithPages 7)).map fun t =>
        (t.mpuSlot, decide (Access.word regionsMax .push ∈
          (vmpuFaultRecoveryMpu eightPages 0x20002000 t).2.log))) = some (regionsMax, true) := by
      decide +kernel
    obtain ⟨t, ht, hfacts⟩ := Option.map_eq_some_iff.mp hrun
    obtain ⟨hslot, hlog⟩ := Prod.mk.inj hfacts
    exact ⟨t, ht, hslot, of_decide_eq_true hlog⟩

end Switches

end Uvisor.KinetisSlots
