import Uvisor.CyclicCounter
import Uvisor.Scheduler

/-!
# The rounds of the scheduler on ARMv8-M

The boxes are cycled through by a counter that is reduced modulo their number
whenever it is increased. Its first value is not reduced: it is box 1 also on a
system that has only box 0, and then the first tick halts. On every other system
all ticks dispatch a box that exists, in rounds that leave none out.
-/

namespace Uvisor.SchedulerRounds

open Execution Scheduler CyclicCounter

/-! ## Runs -/

/-- The system with the boxes that have been dispatched, the first one first. -/
structure System where
  /-- Variables and registers. -/
  state : State
  /-- Values of dst_box_id. -/
  dispatched : List ℕ

/-- What happens to the system. -/
inductive Action where
  /-- The tick of the scheduler. -/
  | tick (fuel : ℕ) (reg : SavedReg)
  /-- Anything else happens, in the active box or in the rest of the monitor. -/
  | others (ctx : Context.State) (special : SpecialReg) (ipc : Ipc.Memory)
    (virq : SecureVirq.State) (sau : ArmSau.State)

/-- One step. -/
def step (sys : Platform) (r : System) : Action → Option System
  | .tick fuel reg =>
    (schedulerTick sys fuel reg r.state).map fun out =>
      ⟨out.2, if r.state.expires timeSliceMs then r.dispatched ++ [r.state.nextBoxId]
        else r.dispatched⟩
  | .others ctx special ipc virq sau =>
    some {r with state := {r.state with ctx, special, ipc, virq, sau}}

/-- The rest of the monitor switches between boxes that exist. -/
def Allowed (sys : Platform) (_ : System) : Action → Prop
  | .tick _ _ => True
  | .others ctx _ _ _ _ => ctx.activeBox < sys.boxCount

/-- Box 0 is active, and the boxes have been given their run-time. -/
structure Booted (sys : Platform) (r : System) : Prop where
  /-- g_active_box. -/
  active : r.state.ctx.activeBox = 0
  /-- g_next_box_id. -/
  next : r.state.nextBoxId = 1
  /-- What box_init leaves in remaining_ms. -/
  budgets : ∀ box < sys.boxCount, (r.state.currentStates box).remainingMs = timeSliceMs
  /-- No box has been dispatched. -/
  dispatched : r.dispatched = []

/-- States of the runs. -/
abbrev Runs (sys : Platform) : System → Prop := Reachable (Booted sys) (step sys) (Allowed sys)

/-- Every box is known to the allocator of pages, and every secure box has been
given a region. -/
structure BoxesLoaded (sys : Platform) : Prop where
  /-- The number of boxes is below UVISOR_MAX_BOXES. -/
  count : sys.boxCount ≤ PageAllocator.maxBoxes
  /-- Stack and context. -/
  regions : ∀ box : PageAllocator.BoxId, box ≠ 0 → box.val < sys.boxCount → sys.regions box ≠ []

/-- What makes the ticks a round robin through the boxes. -/
structure RoundRobin (sys : Platform) : Prop where
  /-- What a tick is going to dispatch is a box. -/
  next : ∀ r, Runs sys r → r.state.expires timeSliceMs = true → r.state.nextBoxId < sys.boxCount
  /-- What has been dispatched is a box. -/
  dispatched : ∀ r, Runs sys r → ∀ box ∈ r.dispatched, box < sys.boxCount
  /-- The context switch of a tick accepts both boxes. -/
  checks : ∀ r, Runs sys r → r.state.expires timeSliceMs = true → ∀ srcSp dstSp,
    Context.contextSwitchIn sys.boxCount .unboundThread (r.state.nextBoxId%256) srcSp dstSp
      r.state.ctx ≠ none
  /-- A tick enters what it dispatches. The number of boxes is a byte. -/
  enters : sys.boxCount ≤ 256 → ∀ r, Runs sys r → ∀ fuel reg out,
    schedulerTick sys fuel reg r.state = some out → out.2.ctx.activeBox = r.state.nextBoxId
  /-- A tick returns if it can drain the queue of the active box. -/
  returns : BoxesLoaded sys → ∀ r, Runs sys r → ∀ fuel reg,
    Ipc.ipcDrainQueue sys.ipc r.state.ctx.activeBox fuel r.state.ipc ≠ none →
    schedulerTick sys fuel reg r.state ≠ none
  /-- In each round every box is dispatched once. -/
  rounds : ∀ r, Runs sys r → ∀ before window after,
    r.dispatched = before ++ window ++ after → window.length = sys.boxCount →
    window.Perm (List.range sys.boxCount)

/-! ## What a tick does -/

section Ticks

variable {sys : Platform} {s t : State} {fuel dstId : ℕ} {reg reg' : SavedReg}

/-- What a switch between boxes that exist does. -/
theorem contextSwitchIn_cases {srcSp dstSp : Context.Word}
    (hactive : s.ctx.activeBox < sys.boxCount) (hdst : dstId < sys.boxCount)
    (h : contextSwitchIn sys dstId srcSp dstSp s = some t) :
    ∃ virq sau, t = {s with ctx := Context.switched dstId s.ctx, virq, sau} := by
  unfold contextSwitchIn at h
  rw [Context.contextSwitchIn_unboundThread hactive hdst, Option.bind_some] at h
  dsimp only at h
  split_ifs at h
  · exact ⟨s.virq, s.sau, (Option.some.inj h).symm⟩
  · obtain ⟨sau, -, ht⟩ := Option.map_eq_some_iff.mp h
    exact ⟨_, sau, ht.symm⟩

theorem vmpuSwitch_ne_none {regions : PageAllocator.BoxId → List ArmMpu.MpuRegion}
    {g : PageAllocator.Geometry} {dstBox : PageAllocator.BoxId} {sau : ArmSau.State}
    (h : dstBox ≠ 0 → regions dstBox ≠ []) : ArmSau.vmpuSwitch regions g dstBox sau ≠ none := by
  unfold ArmSau.vmpuSwitch
  by_cases hbox : dstBox ≠ 0
  · rw [if_pos hbox]
    cases hregions : regions dstBox with
    | nil => exact absurd hregions (h hbox)
    | cons region others => exact Option.some_ne_none _
  · rw [if_neg hbox]
    exact Option.some_ne_none _

/-- The memory protection of a box that has been loaded can be configured. -/
theorem contextSwitchIn_ne_none (hsys : BoxesLoaded sys) {srcSp dstSp : Context.Word}
    (hactive : s.ctx.activeBox < sys.boxCount) (hdst : dstId < sys.boxCount) :
    contextSwitchIn sys dstId srcSp dstSp s ≠ none := by
  have hmax := Nat.lt_of_lt_of_le hdst hsys.count
  unfold contextSwitchIn
  rw [Context.contextSwitchIn_unboundThread hactive hdst, Option.bind_some]
  dsimp only
  by_cases hsame : s.ctx.activeBox = dstId
  · rw [if_pos hsame]
    exact Option.some_ne_none _
  · rw [if_neg hsame, dif_pos hmax, ne_eq, Option.map_eq_none_iff]
    exact vmpuSwitch_ne_none fun hbox => hsys.regions _ hbox hdst

/-- A box that has all of its run-time uses it up in one tick. -/
theorem expires_of_budget (h : (s.currentStates s.ctx.activeBox).remainingMs = timeSliceMs) :
    s.expires timeSliceMs = true := by
  unfold State.expires
  rw [h]
  decide

/-- What the tick does then. -/
theorem schedulerTick_of_budget
    (h : (s.currentStates s.ctx.activeBox).remainingMs = timeSliceMs) :
    schedulerTick sys fuel reg s =
      (dispatch sys fuel s.nextBoxId s.ctx.activeBox reg
        {s.setRemaining s.ctx.activeBox 0 with nextBoxId := (s.nextBoxId+1)%sys.boxCount}).map
        fun out => (out.1, out.2.setRemaining s.ctx.activeBox timeSliceMs) := by
  unfold schedulerTick schedulerDeltaAdd
  dsimp only
  rw [expires_of_budget h, if_pos rfl, h]
  rfl

/-- Saving the registers of a box keeps its run-time. -/
@[simp] theorem savedState_remainingMs (special : SpecialReg) (src : CurrentState) :
    (savedState reg special src).remainingMs = src.remainingMs := by
  unfold savedState
  dsimp only
  split <;> rfl

/-- The byte that is passed on is the number of a box if the destination is. -/
theorem mod_lt_of_lt {box count : ℕ} (h : box < count) : box%256 < count :=
  Nat.lt_of_le_of_lt (Nat.mod_le _ _) h

/-- What a dispatch does to the variables of the scheduler. -/
theorem dispatch_counters {dstBoxId srcBoxId : ℕ} (hactive : s.ctx.activeBox < sys.boxCount)
    (hdst : dstBoxId < sys.boxCount)
    (h : dispatch sys fuel dstBoxId srcBoxId reg s = some (reg', t)) :
    t.ctx.activeBox = dstBoxId%256 ∧ t.nextBoxId = s.nextBoxId ∧
      ∀ box, (t.currentStates box).remainingMs = (s.currentStates box).remainingMs := by
  have hbyte := mod_lt_of_lt hdst
  have hstates := (dispatch_cases h).1
  unfold dispatch at h
  obtain ⟨ipc, -, h⟩ := Option.bind_eq_some_iff.mp h
  obtain ⟨u, hu, hout⟩ := Option.map_eq_some_iff.mp h
  obtain ⟨virq, sau, rfl⟩ := contextSwitchIn_cases (by exact hactive) hbyte hu
  cases hout
  refine ⟨Context.switched_activeBox _ _, rfl, fun box => ?_⟩
  rw [hstates]
  by_cases hbox : box = srcBoxId
  · rw [hbox, Function.update_self, savedState_remainingMs]
  · rw [Function.update_of_ne hbox]

/-- A dispatch returns if the IPC does. -/
theorem dispatch_ne_none (hsys : BoxesLoaded sys) {dstBoxId srcBoxId : ℕ}
    (hactive : s.ctx.activeBox < sys.boxCount) (hdst : dstBoxId < sys.boxCount)
    (hipc : Ipc.ipcDrainQueue sys.ipc s.ctx.activeBox fuel s.ipc ≠ none) :
    dispatch sys fuel dstBoxId srcBoxId reg s ≠ none := by
  have hbyte := mod_lt_of_lt hdst
  obtain ⟨ipc, hdrained⟩ := Option.ne_none_iff_exists'.mp hipc
  unfold dispatch
  rw [hdrained, Option.bind_some, ne_eq, Option.map_eq_none_iff]
  exact contextSwitchIn_ne_none hsys hactive hbyte

/-- A switch to a box that does not exist halts. -/
theorem contextSwitchIn_invalid (hdst : sys.boxCount ≤ dstId) {srcSp dstSp : Context.Word} :
    contextSwitchIn sys dstId srcSp dstSp s = none := by
  have hnone : Context.contextSwitchIn sys.boxCount .unboundThread dstId srcSp dstSp s.ctx =
      none := by
    unfold Context.contextSwitchIn
    cases Context.sourceBox sys.boxCount .unboundThread dstId s.ctx with
    | none => rfl
    | some srcId => simp [Context.vmpuIsBoxIdValid, Nat.not_lt.mpr hdst]
  unfold contextSwitchIn
  rw [hnone, Option.bind_none]

theorem dispatch_invalid {dstBoxId srcBoxId : ℕ} (hdst : sys.boxCount ≤ dstBoxId%256) :
    dispatch sys fuel dstBoxId srcBoxId reg s = none := by
  unfold dispatch
  cases Ipc.ipcDrainQueue sys.ipc s.ctx.activeBox fuel s.ipc with
  | none => rfl
  | some ipc =>
    rw [Option.bind_some]
    dsimp only
    rw [contextSwitchIn_invalid hdst, Option.map_none]

end Ticks

/-! ## What holds in every run -/

section Rounds

variable {sys : Platform} {r t : System}

/-- Invariant of the runs. The counter has gone on from box 1 by one for each
dispatch, and no run-time has been used up in part. -/
structure Inv (sys : Platform) (r : System) : Prop where
  /-- The active box exists. -/
  active : r.state.ctx.activeBox < sys.boxCount
  /-- Every box has all of its run-time. -/
  budgets : ∀ box < sys.boxCount, (r.state.currentStates box).remainingMs = timeSliceMs
  /-- Where the counter stands. -/
  next : r.state.nextBoxId = (1+r.dispatched.length)%sys.boxCount
  /-- Where it has been. -/
  dispatched : r.dispatched = cycle sys.boxCount 1 r.dispatched.length

/-- The invariant holds after the boot if there is a second box. -/
theorem Booted.inv (h : Booted sys r) (hcount : 2 ≤ sys.boxCount) : Inv sys r where
  active := by
    rw [h.active]
    omega
  budgets := h.budgets
  next := by
    rw [h.next, h.dispatched]
    exact (Nat.mod_eq_of_lt hcount).symm
  dispatched := by
    rw [h.dispatched]
    rfl

theorem Inv.count_pos (h : Inv sys r) : 0 < sys.boxCount := Nat.zero_lt_of_lt h.active

theorem Inv.next_lt (h : Inv sys r) : r.state.nextBoxId < sys.boxCount := by
  rw [h.next]
  exact Nat.mod_lt _ h.count_pos

theorem Inv.budget (h : Inv sys r) :
    (r.state.currentStates r.state.ctx.activeBox).remainingMs = timeSliceMs :=
  h.budgets _ h.active

/-- The run-time that a tick takes away is given back after the dispatch. -/
theorem remainingMs_setRemaining_twice {s : State} {box i : ℕ} {ms : Context.Word}
    (h : (s.currentStates i).remainingMs = timeSliceMs) {t : State}
    (ht : (t.currentStates i).remainingMs = ((s.setRemaining box ms).currentStates i).remainingMs) :
    ((t.setRemaining box timeSliceMs).currentStates i).remainingMs = timeSliceMs := by
  unfold State.setRemaining at ht ⊢
  dsimp only at ht ⊢
  by_cases hi : i = box
  · rw [hi, Function.update_self]
  · rw [Function.update_of_ne hi, ht, Function.update_of_ne hi, h]

theorem Inv.step (h : Inv sys r) {a : Action} (ha : Allowed sys r a)
    (hs : step sys r a = some t) : Inv sys t := by
  cases a with
  | tick fuel reg =>
    obtain ⟨out, htick, rfl⟩ := Option.map_eq_some_iff.mp hs
    rw [schedulerTick_of_budget h.budget] at htick
    obtain ⟨mid, hd, rfl⟩ := Option.map_eq_some_iff.mp htick
    obtain ⟨hactive, hnext, hbudgets⟩ := dispatch_counters (by exact h.active) h.next_lt hd
    rw [expires_of_budget h.budget, if_pos rfl]
    exact {
      active := hactive.trans_lt (mod_lt_of_lt h.next_lt)
      budgets := fun box hbox => remainingMs_setRemaining_twice (h.budgets box hbox) (hbudgets box)
      next := by
        show mid.2.nextBoxId = _
        rw [hnext, List.length_append, List.length_singleton, h.next, Nat.mod_add_mod]
        rfl
      dispatched := by
        rw [List.length_append, List.length_singleton, cycle_succ, ← h.dispatched, ← h.next] }
  | others ctx special ipc virq sau =>
    cases hs
    exact ⟨ha, h.budgets, h.next, h.dispatched⟩

theorem inv_runs (hcount : 2 ≤ sys.boxCount) (h : Runs sys r) : Inv sys r :=
  h.invariant (Inv sys) (fun _ hboot => hboot.inv hcount) fun _ _ _ hinv ha hs => hinv.step ha hs

/-- Where a system with box 0 only stays. -/
structure Stuck (r : System) : Prop where
  /-- Box 0 is active. -/
  active : r.state.ctx.activeBox = 0
  /-- Box 1 is the next one. -/
  next : r.state.nextBoxId = 1
  /-- Box 0 has all of its run-time. -/
  budget : (r.state.currentStates 0).remainingMs = timeSliceMs

theorem Stuck.tick (h : Stuck r) (hcount : sys.boxCount = 1) (fuel : ℕ) (reg : SavedReg) :
    schedulerTick sys fuel reg r.state = none := by
  have hbudget := h.budget
  rw [← h.active] at hbudget
  rw [schedulerTick_of_budget hbudget, h.next, dispatch_invalid hcount.le, Option.map_none]

/-- On a system with box 0 only no tick ever returns. -/
theorem schedulerTick_oneBox (hcount : sys.boxCount = 1) (h : Runs sys r) (fuel : ℕ)
    (reg : SavedReg) : schedulerTick sys fuel reg r.state = none := by
  refine Stuck.tick (h.invariant Stuck ?_ ?_) hcount fuel reg
  · intro s hboot
    exact ⟨hboot.active, hboot.next, hboot.budgets 0 (by omega)⟩
  · intro s a t hstuck ha hs
    cases a with
    | tick fuel reg =>
      rw [SchedulerRounds.step, hstuck.tick hcount] at hs
      cases hs
    | others ctx special ipc virq sau =>
      have hactive : ctx.activeBox < sys.boxCount := ha
      cases hs
      exact ⟨by dsimp only; omega, hstuck.next, hstuck.budget⟩

/-- With two boxes or more the scheduler goes round. -/
theorem roundRobin_of_two_le (hcount : 2 ≤ sys.boxCount) : RoundRobin sys where
  next _ hr _ := (inv_runs hcount hr).next_lt
  dispatched r hr box hbox := by
    have hinv := inv_runs hcount hr
    rw [hinv.dispatched] at hbox
    exact lt_of_mem_cycle hinv.count_pos hbox
  checks r hr _ srcSp dstSp := by
    have hinv := inv_runs hcount hr
    rw [Context.contextSwitchIn_unboundThread hinv.active (mod_lt_of_lt hinv.next_lt)]
    exact Option.some_ne_none _
  enters hbyte r hr fuel reg out htick := by
    have hinv := inv_runs hcount hr
    rw [schedulerTick_of_budget hinv.budget] at htick
    obtain ⟨mid, hd, rfl⟩ := Option.map_eq_some_iff.mp htick
    have hactive := (dispatch_counters (by exact hinv.active) hinv.next_lt hd).1
    rwa [Nat.mod_eq_of_lt (hinv.next_lt.trans_le hbyte)] at hactive
  returns hsys r hr fuel reg hipc := by
    have hinv := inv_runs hcount hr
    rw [schedulerTick_of_budget hinv.budget, ne_eq, Option.map_eq_none_iff]
    exact dispatch_ne_none hsys hinv.active hinv.next_lt hipc
  rounds r hr before window after hwindow hround := by
    have hinv := inv_runs hcount hr
    rw [hinv.dispatched] at hwindow
    exact perm_of_slice hwindow hround

/-- A system after its boot, with any number of boxes. -/
def bootedRounds : System where
  state := {bootedSystem.state with currentStates := fun _ => {(default : CurrentState) with
    remainingMs := timeSliceMs}}
  dispatched := []

theorem bootedRounds_booted (sys : Platform) : Booted sys bootedRounds :=
  ⟨rfl, rfl, fun _ _ => rfl, rfl⟩

/-- The scheduler is a round robin exactly if there is a second box. -/
theorem roundRobin_iff (sys : Platform) : RoundRobin sys ↔ 2 ≤ sys.boxCount := by
  constructor
  · intro h
    exact h.next _ (.start (bootedRounds_booted sys)) (expires_of_budget rfl)
  · exact roundRobin_of_two_le

/-- A system with box 0 only. -/
def oneBox : Platform := {twoBoxes with boxCount := 1}

/-- The tick dispatches box 1, which does not exist, and halts. -/
theorem roundRobin_fails_oneBox : 1 ≤ oneBox.boxCount ∧ ¬RoundRobin oneBox := by
  refine ⟨by decide, fun h => ?_⟩
  have hnext := h.next _ (.start (bootedRounds_booted oneBox)) (expires_of_budget rfl)
  exact absurd hnext (by decide)

end Rounds

end Uvisor.SchedulerRounds
