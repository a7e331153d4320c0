import Mathlib.Data.List.Pairwise
import Uvisor.Threads

/-!
# The binding of threads to boxes over runs

A run creates threads, destroys them and switches between them in any order,
and between the calls anything may happen to the active box and to memory. A
thread is live from its creation until a call that destroys it. A live thread
has a slot of its own and a switch to it activates the box in which it was
created, as long as every creation finds a free slot and an allocator.
-/

namespace Uvisor.ThreadBinding

open Context Threads Execution

/-- A thread that has been created and not been destroyed. -/
structure Live where
  /-- The context that was returned for the thread. -/
  context : Word
  /-- Box that was active when it was created. -/
  box : ℕ

/-- The monitor's variables and the live threads. -/
structure State where
  /-- Variables of the monitor. -/
  monitor : Monitor
  /-- Live threads. -/
  live : List Live

/-- Calls on threads, and anything that happens between them. -/
inductive Action where
  | create (c : Word)
  | destroy (c : Word)
  | switch (c : Word)
  | other (ctx : Context.State)

/-- One step; there is no result when the monitor halts. -/
def step (boxCount : ℕ) (table : Table) (s : State) : Action → Option State
  | .create c =>
    let (context, monitor) := threadCreate table c s.monitor
    some ⟨monitor, ⟨context, s.monitor.ctx.activeBox⟩ :: s.live⟩
  | .destroy c =>
    let live :=
      if isOwned table c s.monitor then s.live.filter (fun l => l.context ≠ c) else s.live
    some ⟨threadDestroy table c s.monitor, live⟩
  | .switch c => (threadSwitch table boxCount c s.monitor).map fun monitor => ⟨monitor, s.live⟩
  | .other ctx =>
    if vmpuIsBoxIdValid boxCount ctx.activeBox then some ⟨{s.monitor with ctx := ctx}, s.live⟩
    else none

/-- A thread is created only when a slot is free and when the argument or the
heap of the active box is an allocator. -/
def Permitted (table : Table) (s : State) : Action → Prop
  | .create c =>
    (findFree table s.monitor).isSome = true ∧
      (c ≠ 0 ∨ (s.monitor.ctx.index s.monitor.ctx.uvisorBoxContext).heap ≠ 0)
  | _ => True

/-- A box is active and there are no threads. -/
def Initial (boxCount : ℕ) (table : Table) (s : State) : Prop :=
  s.monitor.ctx.activeBox < boxCount ∧ (∀ ii < table.maxCount, (s.monitor.thread ii).allocator = 0) ∧
    s.live = []

/-- Whatever box is active, a switch to a live thread activates the box of the
thread; and no two live threads have the same context. -/
def Bound (boxCount : ℕ) (table : Table) (s : State) : Prop :=
  (∀ l ∈ s.live, ∀ ctx, ctx.activeBox < boxCount →
    ∃ t, threadSwitch table boxCount l.context {s.monitor with ctx := ctx} = some t ∧
      t.ctx.activeBox = l.box) ∧
    s.live.Pairwise fun l l' => l.context ≠ l'.context

/-! ## The invariant -/

/-- A live thread is recorded in a slot of the table. -/
def Recorded (boxCount : ℕ) (table : Table) (thread : ℕ → UvisorThreadContext) (l : Live) : Prop :=
  ∃ ii < table.maxCount, l.context = table.slot ii ∧ (thread ii).allocator ≠ 0 ∧
    (thread ii).processId = l.box ∧ l.box < boxCount

/-- What holds between the steps. -/
structure Inv (boxCount : ℕ) (table : Table) (s : State) : Prop where
  /-- A box is active. -/
  activeBox : s.monitor.ctx.activeBox < boxCount
  /-- Every live thread has a slot. -/
  recorded : ∀ l ∈ s.live, Recorded boxCount table s.monitor.thread l
  /-- Every used slot is that of a live thread. -/
  used : ∀ ii < table.maxCount, (s.monitor.thread ii).allocator ≠ 0 →
    ∃ l ∈ s.live, l.context = table.slot ii
  /-- No two live threads have the same context. -/
  distinct : s.live.Pairwise fun l l' => l.context ≠ l'.context

variable {boxCount : ℕ} {table : Table} {s t : State}

theorem inv_initial (h : Initial boxCount table s) : Inv boxCount table s := by
  obtain ⟨hactive, hfree, hnone⟩ := h
  refine ⟨hactive, ?_, fun ii hii hused => absurd (hfree ii hii) hused, ?_⟩
  · rw [hnone]
    exact fun l hl => absurd hl List.not_mem_nil
  · rw [hnone]
    exact List.Pairwise.nil

/-- A change of another slot leaves a thread's record alone. -/
theorem Recorded.update {thread : ℕ → UvisorThreadContext} {l : Live} {jj : ℕ}
    {context : UvisorThreadContext} (h : Recorded boxCount table thread l)
    (hjj : jj < table.maxCount) (hne : l.context ≠ table.slot jj) :
    Recorded boxCount table (Function.update thread jj context) l := by
  obtain ⟨ii, hii, hcontext, hrecord⟩ := h
  have hother : ii ≠ jj := by
    rintro rfl
    exact hne hcontext
  exact ⟨ii, hii, hcontext, by rw [Function.update_of_ne hother]; exact hrecord⟩

/-- A live thread does not have a free slot. -/
theorem Inv.context_ne (h : Inv boxCount table s) {ii : ℕ} (hii : ii < table.maxCount)
    (hfree : (s.monitor.thread ii).allocator = 0) {l : Live} (hl : l ∈ s.live) :
    l.context ≠ table.slot ii := by
  intro heq
  obtain ⟨jj, hjj, hcontext, hused, -⟩ := h.recorded l hl
  have hsame : jj = ii := Table.slot_injective hjj hii (hcontext.symm.trans heq)
  subst hsame
  exact hused hfree

theorem Inv.create (h : Inv boxCount table s) {c : Word} (ha : Permitted table s (.create c))
    (hs : step boxCount table s (.create c) = some t) : Inv boxCount table t := by
  obtain ⟨ii, hfind⟩ := Option.isSome_iff_exists.mp ha.1
  obtain ⟨hii, hfree, -⟩ := findFree_eq_some_iff.mp hfind
  simp only [step, threadCreate, hfind, Option.some.injEq] at hs
  subst hs
  refine ⟨h.activeBox, ?_, ?_, ?_⟩
  · intro l hl
    rcases List.mem_cons.mp hl with rfl | hl
    · refine ⟨ii, hii, rfl, ?_, ?_, h.activeBox⟩
      · dsimp only
        rw [Function.update_self]
        change (if c ≠ 0 then c else _) ≠ 0
        split
        · assumption
        · rename_i hnull
          exact ha.2.resolve_left hnull
      · dsimp only
        rw [Function.update_self]
    · exact (h.recorded l hl).update hii (h.context_ne hii hfree hl)
  · intro jj hjj hused
    by_cases hsame : jj = ii
    · exact ⟨_, List.mem_cons_self, by rw [hsame]⟩
    · dsimp only at hused
      rw [Function.update_of_ne hsame] at hused
      obtain ⟨l, hl, hcontext⟩ := h.used jj hjj hused
      exact ⟨l, List.mem_cons_of_mem _ hl, hcontext⟩
  · exact List.pairwise_cons.mpr
      ⟨fun l hl => (h.context_ne hii hfree hl).symm, h.distinct⟩

theorem Inv.destroy (h : Inv boxCount table s) {c : Word}
    (hs : step boxCount table s (.destroy c) = some t) : Inv boxCount table t := by
  simp only [step, Option.some.injEq] at hs
  subst hs
  cases howned : isOwned table c s.monitor with
  | false =>
    have hsame : threadDestroy table c s.monitor = s.monitor := by
      simp [threadDestroy, howned]
    simp only [Bool.false_eq_true, if_false, hsame]
    exact h
  | true =>
    obtain ⟨ii, hii, rfl, -, -⟩ := isOwned_iff.mp howned
    simp only [if_true, threadDestroy, if_neg (Table.slot_ne hii), howned, Table.slotAt_slot hii]
    refine ⟨h.activeBox, ?_, ?_, h.distinct.filter _⟩
    · intro l hl
      obtain ⟨hl, hne⟩ := List.mem_filter.mp hl
      exact (h.recorded l hl).update hii (of_decide_eq_true hne)
    · intro jj hjj hused
      dsimp only at hused
      have hother : jj ≠ ii := by
        rintro rfl
        rw [Function.update_self] at hused
        exact hused rfl
      rw [Function.update_of_ne hother] at hused
      obtain ⟨l, hl, hcontext⟩ := h.used jj hjj hused
      refine ⟨l, List.mem_filter.mpr ⟨hl, decide_eq_true ?_⟩, hcontext⟩
      rw [hcontext]
      exact fun heq => hother (Table.slot_injective hjj hii heq)

/-- Between the steps every context is either that of a live thread, which a
switch goes to, or does not cause a switch. -/
theorem Inv.threadSwitch (h : Inv boxCount table s) (c : Word) {ctx : Context.State}
    (hctx : ctx.activeBox < boxCount) :
    threadSwitch table boxCount c {s.monitor with ctx := ctx} = some {s.monitor with ctx := ctx} ∨
    ∃ l ∈ s.live, l.context = c ∧ ∃ t,
      threadSwitch table boxCount c {s.monitor with ctx := ctx} = some t ∧
        t.thread = s.monitor.thread ∧ t.ctx.activeBox = l.box ∧ l.box < boxCount := by
  by_cases hunused : ∀ ii < table.maxCount, c = table.slot ii →
      (s.monitor.thread ii).allocator = 0
  · exact .inl (threadSwitch_unused hunused)
  · push Not at hunused
    obtain ⟨ii, hii, rfl, hused⟩ := hunused
    obtain ⟨l, hl, hcontext⟩ := h.used ii hii hused
    obtain ⟨jj, hjj, hslot, -, hbox, hlt⟩ := h.recorded l hl
    have hsame : jj = ii := Table.slot_injective hjj hii (hslot.symm.trans hcontext)
    subst hsame
    obtain ⟨t, ht, hthread, hactive⟩ := threadSwitch_used
      (s := {s.monitor with ctx := ctx}) hctx hii hused (by rw [hbox]; exact hlt)
    exact .inr ⟨l, hl, hcontext, t, ht, hthread, hactive.trans hbox, hlt⟩

theorem inv_step {a : Action} (h : Inv boxCount table s) (ha : Permitted table s a)
    (hs : step boxCount table s a = some t) : Inv boxCount table t := by
  cases a with
  | create c => exact h.create ha hs
  | destroy c => exact h.destroy hs
  | switch c =>
    obtain ⟨monitor, hmonitor, rfl⟩ := Option.map_eq_some_iff.mp hs
    rcases h.threadSwitch c h.activeBox with hsame | ⟨l, -, -, t', ht', hthread, hactive, hlt⟩
    · have heq : monitor = s.monitor := Option.some.inj (hmonitor.symm.trans hsame)
      exact heq ▸ h
    · have heq : monitor = t' := Option.some.inj (hmonitor.symm.trans ht')
      subst heq
      exact ⟨hactive ▸ hlt, hthread ▸ h.recorded, hthread ▸ h.used, h.distinct⟩
  | other ctx =>
    simp only [step] at hs
    split at hs
    · rename_i hvalid
      simp only [Option.some.injEq] at hs
      subst hs
      exact ⟨of_decide_eq_true hvalid, h.recorded, h.used, h.distinct⟩
    · cases hs

/-- The invariant implies the binding. -/
theorem Inv.bound (h : Inv boxCount table s) : Bound boxCount table s := by
  refine ⟨fun l hl ctx hctx => ?_, h.distinct⟩
  obtain ⟨ii, hii, hcontext, hused, hbox, hlt⟩ := h.recorded l hl
  obtain ⟨t, ht, -, hactive⟩ := threadSwitch_used
    (s := {s.monitor with ctx := ctx}) hctx hii hused (by rw [hbox]; exact hlt)
  exact ⟨t, hcontext ▸ ht, hactive.trans hbox⟩

/-- A thread whose context does not cause a switch is not bound to its box when
there is another one. -/
theorem not_bound_of_unused {l : Live} (hcount : 1 < boxCount) (hl : l ∈ s.live)
    (hunused : ∀ ii < table.maxCount, l.context = table.slot ii →
      (s.monitor.thread ii).allocator = 0) : ¬Bound boxCount table s := by
  intro hbound
  obtain ⟨box, hbox, hne⟩ : ∃ box < boxCount, box ≠ l.box := by
    by_cases hzero : l.box = 0
    · exact ⟨1, hcount, by omega⟩
    · exact ⟨0, by omega, by omega⟩
  let ctx : Context.State := {s.monitor.ctx with activeBox := box}
  obtain ⟨t, ht, hactive⟩ := hbound.1 l hl ctx hbox
  have hidle : threadSwitch table boxCount l.context {s.monitor with ctx := ctx} =
      some {s.monitor with ctx := ctx} := threadSwitch_unused hunused
  have hsame : {s.monitor with ctx := ctx} = t := Option.some.inj (hidle.symm.trans ht)
  subst hsame
  exact hne hactive

/-- With at least two boxes every other creation breaks the binding. -/
theorem Inv.bound_create_iff (h : Inv boxCount table s) (hcount : 1 < boxCount) {c : Word}
    (hs : step boxCount table s (.create c) = some t) :
    Bound boxCount table t ↔ Permitted table s (.create c) := by
  refine ⟨fun hbound => ?_, fun ha => (h.create ha hs).bound⟩
  cases hfind : findFree table s.monitor with
  | none =>
    have hfull := findFree_eq_none_iff.mp hfind
    simp only [step, threadCreate, hfind, Option.some.injEq] at hs
    subst hs
    refine absurd hbound ?_
    by_cases hvalid : ∃ ii < table.maxCount, c = table.slot ii
    · obtain ⟨ii, hii, rfl⟩ := hvalid
      obtain ⟨l, hl, hcontext⟩ := h.used ii hii (hfull ii hii)
      exact fun hbound => (List.pairwise_cons.mp hbound.2).1 l hl hcontext.symm
    · push Not at hvalid
      exact not_bound_of_unused hcount List.mem_cons_self
        fun ii hii heq => absurd heq (hvalid ii hii)
  | some ii =>
    obtain ⟨hii, -, -⟩ := findFree_eq_some_iff.mp hfind
    refine ⟨by rw [hfind]; rfl, ?_⟩
    by_contra hnull
    push Not at hnull
    obtain ⟨rfl, hheap⟩ := hnull
    simp only [step, threadCreate, hfind, Option.some.injEq] at hs
    subst hs
    refine not_bound_of_unused hcount List.mem_cons_self (fun jj hjj heq => ?_) hbound
    have hsame : ii = jj := Table.slot_injective hii hjj heq
    subst hsame
    simpa using hheap

/-! ## Runs under the condition -/

/-- In every run in which each creation finds a free slot and an allocator, a
switch to a live thread activates the box in which the thread was created, and
no two live threads share a slot. With at least two boxes any other creation
ends that. -/
theorem threads_bound
    (h : Reachable (Initial boxCount table) (step boxCount table) (Permitted table) s) :
    Bound boxCount table s ∧
    (1 < boxCount → ∀ c t, step boxCount table s (.create c) = some t →
      (Bound boxCount table t ↔ Permitted table s (.create c))) := by
  have hinv : Inv boxCount table s := h.invariant (Inv boxCount table) (fun _ => inv_initial)
    fun _ _ _ hi ha hs => inv_step hi ha hs
  exact ⟨hinv.bound, fun hcount c t hs => hinv.bound_create_iff hcount hs⟩

/-- The table of the default size, in the monitor's memory. -/
def defaultTable : Table := ⟨0x20000100, 16, by decide, by decide⟩

/-- Box 0 is active, all indices have the given heap, and there are no
threads. -/
def bootedState (heap : Word) : State :=
  ⟨⟨⟨0, 0, fun _ => ⟨0, .functionIsr, 0⟩, fun b => ⟨0, 0x1000*BitVec.ofNat 32 b⟩,
    fun _ => ⟨0, heap, 0, 0⟩, 0, 0, 0⟩, fun _ => ⟨0, 0⟩⟩, []⟩

theorem initial_bootedState (heap : Word) : Initial 2 defaultTable (bootedState heap) :=
  ⟨Nat.zero_lt_two, fun _ _ => rfl, rfl⟩

/-- Two threads that are created without an allocator, before their box has a
heap, share the first slot. -/
theorem threads_not_bound :
    ∃ s t, step 2 defaultTable (bootedState 0) (.create 0) = some s ∧
      step 2 defaultTable s (.create 0) = some t ∧
      t.live.map Live.context = [0x20000100, 0x20000100] := by
  have hrun : (((step 2 defaultTable (bootedState 0) (.create 0)).bind fun s =>
      step 2 defaultTable s (.create 0)).map fun t => t.live.map Live.context) =
        some [0x20000100, 0x20000100] := by decide +kernel
  obtain ⟨t, ht, hlive⟩ := Option.map_eq_some_iff.mp hrun
  obtain ⟨s, hs, ht⟩ := Option.bind_eq_some_iff.mp ht
  exact ⟨s, t, hs, ht, hlive⟩

/-- A thread of box 0 is bound to its box when it gets the heap of the box. -/
theorem threads_bound_one :
    ∃ s, step 2 defaultTable (bootedState 0x30000000) (.create 0) = some s ∧
      Bound 2 defaultTable s := by
  have hrun : (step 2 defaultTable (bootedState 0x30000000) (.create 0)).isSome = true := rfl
  obtain ⟨s, hs⟩ := Option.isSome_iff_exists.mp hrun
  have hstart : Reachable (Initial 2 defaultTable) (step 2 defaultTable) (Permitted defaultTable)
      (bootedState 0x30000000) := Reachable.start (initial_bootedState 0x30000000)
  have hiff := (threads_bound hstart).2 (by decide) 0 s hs
  exact ⟨s, hs, hiff.mpr ⟨by decide, .inr (by decide)⟩⟩

end Uvisor.ThreadBinding
