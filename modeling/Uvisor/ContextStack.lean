import Uvisor.Context

/-!
# Nested context switches undo each other

A run nests function-bound switches in any pattern, while the code that runs
between them moves the process stack pointer as it likes. Beside the
variables of the monitor it remembers the state before every switch-in that
is still outstanding. Every switch-out then restores what was remembered.
-/

namespace Uvisor.ContextStack

open Context Execution

/-- A switch-in that has not been undone. -/
structure Outstanding where
  /-- The state before the switch-in. -/
  before : Context.State
  /-- Stack pointer of the source, as given to the switch-in. -/
  srcSp : Word

/-- The monitor's variables and the switches that are outstanding, the last
one first. -/
structure State where
  /-- Variables of the monitor. -/
  ctx : Context.State
  /-- Outstanding switch-ins. -/
  outstanding : List Outstanding

/-- Steps of the monitor and of the code that runs in between. -/
inductive Action where
  | switchIn (contextType : SwitchType) (dstId : ℕ) (srcSp dstSp : Word)
  | switchOut (contextType : SwitchType)
  | run (psp : Word)

/-- One step; there is no result when the monitor halts. -/
def step (boxCount : ℕ) (s : State) : Action → Option State
  | .switchIn contextType dstId srcSp dstSp =>
    (contextSwitchIn boxCount contextType dstId srcSp dstSp s.ctx).map fun ctx =>
      ⟨ctx, ⟨s.ctx, srcSp⟩ :: s.outstanding⟩
  | .switchOut contextType =>
    (contextSwitchOut contextType s.ctx).map fun out => ⟨out.2, s.outstanding.tail⟩
  | .run psp => some ⟨{s.ctx with psp := psp}, s.outstanding⟩

/-- Only function-bound switches are taken. -/
def FunctionBound (_ : State) : Action → Prop
  | .switchIn contextType _ _ _ => contextType.isFunctionBound = true
  | .switchOut contextType => contextType.isFunctionBound = true
  | .run _ => True

instance (s : State) (a : Action) : Decidable (FunctionBound s a) := by
  cases a <;> unfold FunctionBound <;> infer_instance

/-- A box is active, the context pointer points to its index, and no switch-in
is outstanding. -/
def Initial (boxCount : ℕ) (s : State) : Prop :=
  s.ctx.activeBox < boxCount ∧ s.ctx.uvisorBoxContext = s.ctx.bss s.ctx.activeBox ∧
    s.ctx.contextP = 0 ∧ s.outstanding = []

/-- The very first switch, to box 0, brings such a state about. -/
theorem first_initial {boxCount : ℕ} {ctx ctx' : Context.State}
    (hactive : boxCount ≤ ctx.activeBox) (hp : ctx.contextP = 0)
    (h : contextSwitchIn boxCount .unboundFirst 0 0 0 ctx = some ctx') :
    Initial boxCount ⟨ctx', []⟩ := by
  have hsource : sourceBox boxCount .unboundFirst 0 ctx = some 0 := by
    simp [sourceBox, vmpuIsBoxIdValid, Nat.not_lt.mpr hactive]
  simp only [contextSwitchIn, hsource] at h
  split at h
  · cases h
  rename_i hvalid
  simp only [ne_eq, not_true_eq_false, false_or, if_true, SwitchType.isFunctionBound,
    reduceCtorEq, decide_false, Bool.or_self, Bool.false_eq_true, if_false,
    Option.some.injEq] at h
  subst h
  have hcount : boxCount ≠ 0 := by simpa [vmpuIsBoxIdValid] using hvalid
  exact ⟨Nat.pos_of_ne_zero hcount, rfl, hp, rfl⟩

/-! ## The invariant -/

/-- The stack of previous states holds the sources of the outstanding
switch-ins. -/
def Stacked (previousStates : ℕ → PreviousState) : List Outstanding → Prop
  | [] => True
  | o :: rest =>
    ((previousStates rest.length).srcId = o.before.activeBox ∧
      (previousStates rest.length).srcSp = o.srcSp) ∧ Stacked previousStates rest

/-- Writes above the stack do not matter. -/
theorem Stacked.congr {prev prev' : ℕ → PreviousState} {l : List Outstanding}
    (h : Stacked prev l) (hsame : ∀ i < l.length, prev' i = prev i) : Stacked prev' l := by
  induction l with
  | nil => trivial
  | cons o rest ih =>
    refine ⟨?_, ih h.2 fun i hi => hsame i (by simp only [List.length_cons]; omega)⟩
    rw [hsame rest.length (by simp)]
    exact h.1

/-- A state that an outstanding switch-in came from differs from the present
one in ways that its switch-out undoes. -/
structure Undoable (ctx before : Context.State) : Prop where
  /-- Memory does not move. -/
  bss : ctx.bss = before.bss
  /-- Every box keeps its reentrancy pointer. -/
  reent : ∀ b, ctx.reent b = before.reent b
  /-- The context pointer pointed to the index of the active box. -/
  uvisorBoxContext : before.uvisorBoxContext = before.bss before.activeBox

/-- What holds between the steps. -/
structure Inv (boxCount : ℕ) (s : State) : Prop where
  /-- A box is active. -/
  activeBox : s.ctx.activeBox < boxCount
  /-- The context pointer points to its index. -/
  uvisorBoxContext : s.ctx.uvisorBoxContext = s.ctx.bss s.ctx.activeBox
  /-- The stack is as high as switch-ins are outstanding. -/
  contextP : s.ctx.contextP = s.outstanding.length
  /-- The stack holds their sources. -/
  stacked : Stacked s.ctx.previousStates s.outstanding
  /-- All sources are boxes. -/
  sources : ∀ o ∈ s.outstanding, o.before.activeBox < boxCount
  /-- All of them can be undone. -/
  undoable : ∀ o ∈ s.outstanding, Undoable s.ctx o.before

variable {boxCount : ℕ} {s t : State}

theorem inv_initial (h : Initial boxCount s) : Inv boxCount s := by
  obtain ⟨hactive, hptr, hp, hnone⟩ := h
  refine ⟨hactive, hptr, by rw [hp, hnone]; rfl, ?_, ?_, ?_⟩
  · rw [hnone]
    trivial
  · rw [hnone]
    exact fun o ho => absurd ho List.not_mem_nil
  · rw [hnone]
    exact fun o ho => absurd ho List.not_mem_nil

/-- What can be undone before a switch can be undone after it. -/
theorem Undoable.trans {ctx ctx' before : Context.State} (h : Undoable ctx before)
    (hbss : ctx'.bss = ctx.bss) (hreent : ∀ b, ctx'.reent b = ctx.reent b) :
    Undoable ctx' before :=
  ⟨hbss.trans h.bss, fun b => (hreent b).trans (h.reent b), h.uvisorBoxContext⟩

theorem Inv.switchIn (h : Inv boxCount s) {contextType : SwitchType} {dstId : ℕ}
    {srcSp dstSp : Word} (hbound : contextType.isFunctionBound = true)
    (hs : step boxCount s (.switchIn contextType dstId srcSp dstSp) = some t) :
    Inv boxCount t := by
  obtain ⟨ctx, hctx, rfl⟩ := Option.map_eq_some_iff.mp hs
  have he := contextSwitchIn_entered hbound h.activeBox hctx
  refine ⟨he.activeBox ▸ he.dst_lt, ?_, ?_, ⟨?_, ?_⟩, ?_, ?_⟩
  · rw [he.activeBox]
    exact he.uvisorBoxContext h.uvisorBoxContext
  · simp [he.contextP, h.contextP]
  · rw [← h.contextP]
    change (ctx.previousStates s.ctx.contextP).srcId = _ ∧ _
    rw [he.pushed]
    exact ⟨rfl, rfl⟩
  · refine h.stacked.congr fun i hi => he.previousStates i ?_
    rw [h.contextP]
    omega
  · intro o ho
    rcases List.mem_cons.mp ho with rfl | ho
    · exact h.activeBox
    · exact h.sources o ho
  · intro o ho
    rcases List.mem_cons.mp ho with rfl | ho
    · exact ⟨he.bss, he.reent, h.uvisorBoxContext⟩
    · exact (h.undoable o ho).trans he.bss he.reent

/-- A switch-out with something outstanding undoes the last switch-in. -/
theorem Inv.switchOut (h : Inv boxCount s) {contextType : SwitchType} {o : Outstanding}
    {rest : List Outstanding} (hbound : contextType.isFunctionBound = true)
    (ho : s.outstanding = o :: rest) :
    ∃ t, step boxCount s (.switchOut contextType) = some t ∧ t.outstanding = rest ∧
      Inv boxCount t ∧ t.ctx.activeBox = o.before.activeBox ∧ t.ctx.psp = o.srcSp := by
  have hlen : s.ctx.contextP = rest.length+1 := by rw [h.contextP, ho, List.length_cons]
  obtain ⟨ctx, hout, hl⟩ := contextSwitchOut_left (s := s.ctx) hbound (by omega)
  have htop : s.ctx.contextP-1 = rest.length := by omega
  rw [htop] at hl
  have hstacked := h.stacked
  have hsources := h.sources
  have hundoable := h.undoable
  rw [ho] at hstacked hsources hundoable
  obtain ⟨⟨hsrc, hsp⟩, hrest⟩ := hstacked
  have hbss : ctx.bss = s.ctx.bss := by
    funext b
    simp only [State.bss, hl.currentStates]
  refine ⟨⟨ctx, rest⟩, by simp [step, hout, ho], rfl, ?_, hl.activeBox.trans hsrc,
    hl.psp.trans hsp⟩
  refine ⟨?_, ?_, ?_, ?_, fun o ho => hsources o (List.mem_cons_of_mem _ ho), ?_⟩
  · change ctx.activeBox < boxCount
    rw [hl.activeBox, hsrc]
    exact hsources o List.mem_cons_self
  · change ctx.uvisorBoxContext = ctx.bss ctx.activeBox
    rw [hl.uvisorBoxContext h.uvisorBoxContext, hbss, hl.activeBox]
  · change ctx.contextP = rest.length
    rw [hl.contextP, htop]
  · change Stacked ctx.previousStates rest
    rw [hl.previousStates]
    exact hrest
  · exact fun o' ho' => (hundoable o' (List.mem_cons_of_mem _ ho')).trans hbss hl.reent

/-- The saved stack pointers have no part in the invariant. -/
theorem Inv.setSp {ctx : Context.State} {l : List Outstanding} (h : Inv boxCount ⟨ctx, l⟩)
    (box : ℕ) (sp : Word) : Inv boxCount ⟨ctx.setSp box sp, l⟩ := by
  have hbss := setSp_bss ctx box sp
  refine ⟨h.activeBox, ?_, h.contextP, h.stacked, h.sources, fun o ho => ?_⟩
  · change ctx.uvisorBoxContext = (ctx.setSp box sp).bss ctx.activeBox
    rw [hbss]
    exact h.uvisorBoxContext
  · refine (h.undoable o ho).trans hbss fun b => ?_
    apply reent_congr
    · rfl
    · exact hbss
    · rfl
    · rfl

theorem inv_step {a : Action} (h : Inv boxCount s) (ha : FunctionBound s a)
    (hs : step boxCount s a = some t) : Inv boxCount t := by
  cases a with
  | switchIn contextType dstId srcSp dstSp => exact h.switchIn ha hs
  | switchOut contextType =>
    cases ho : s.outstanding with
    | nil =>
      have hp : s.ctx.contextP = 0 := by rw [h.contextP, ho]; rfl
      simp only [step, contextSwitchOut, contextStatePop, hp, if_true, Option.map_none,
        ite_self] at hs
      cases hs
    | cons o rest =>
      obtain ⟨t', ht, -, hinv, -, -⟩ := h.switchOut ha ho
      rw [ht, Option.some.injEq] at hs
      exact hs ▸ hinv
  | run psp =>
    simp only [step, Option.some.injEq] at hs
    subst hs
    exact ⟨h.activeBox, h.uvisorBoxContext, h.contextP, h.stacked, h.sources,
      fun o ho => (h.undoable o ho).trans rfl fun _ => rfl⟩

/-- Everything that a switch-out restores. -/
structure Restored (o : Outstanding) (ctx : Context.State) : Prop where
  /-- The active box. -/
  activeBox : ctx.activeBox = o.before.activeBox
  /-- The stack pointer given to the switch-in. -/
  psp : ctx.psp = o.srcSp
  /-- The context pointer. -/
  uvisorBoxContext : ctx.uvisorBoxContext = o.before.uvisorBoxContext
  /-- The reentrancy pointer of the C library. -/
  newlibImpurePtr : ctx.newlibImpurePtr = o.before.newlibImpurePtr

/-- In every run the stack of previous states is as high as switch-ins are
outstanding, the context pointer points to the index of the active box, every
switch-out restores what its switch-in changed, and a switch-in to a box halts
only at the maximum depth. -/
theorem stack_discipline (h : Reachable (Initial boxCount) (step boxCount) FunctionBound s) :
    s.ctx.contextP = s.outstanding.length ∧
    s.ctx.uvisorBoxContext = s.ctx.bss s.ctx.activeBox ∧
    (∀ o rest contextType, s.outstanding = o :: rest → contextType.isFunctionBound = true →
      ∃ t, step boxCount s (.switchOut contextType) = some t ∧ t.outstanding = rest ∧
        Restored o t.ctx) ∧
    (∀ contextType dstId srcSp dstSp, contextType.isFunctionBound = true → dstId < boxCount →
      s.outstanding.length < contextMaxDepth →
      ∃ t, step boxCount s (.switchIn contextType dstId srcSp dstSp) = some t ∧
        t.outstanding = ⟨s.ctx, srcSp⟩ :: s.outstanding) := by
  have hinv : Inv boxCount s := h.invariant (Inv boxCount) (fun _ => inv_initial)
    fun _ _ _ hi ha hs => inv_step hi ha hs
  refine ⟨hinv.contextP, hinv.uvisorBoxContext, ?_, ?_⟩
  · intro o rest contextType ho hbound
    obtain ⟨t, ht, hrest, htinv, hactive, hpsp⟩ := hinv.switchOut hbound ho
    have hu := hinv.undoable o (ho ▸ List.mem_cons_self)
    obtain ⟨ctx, hout, hl⟩ := contextSwitchOut_left (s := s.ctx) hbound
      (by rw [hinv.contextP, ho]; simp)
    have hctx : t.ctx = ctx := by
      simp only [step, hout, Option.map_some, Option.some.injEq] at ht
      exact ht ▸ rfl
    have hreent : ∀ b, t.ctx.reent b = o.before.reent b := fun b => by
      rw [hctx, hl.reent b, hu.reent b]
    have hbss : t.ctx.bss = o.before.bss := by
      funext b
      rw [hctx, ← hu.bss]
      simp only [State.bss, hl.currentStates]
    refine ⟨t, ht, hrest, hactive, hpsp, ?_, ?_⟩
    · rw [htinv.uvisorBoxContext, hu.uvisorBoxContext, hbss, hactive]
    · rw [← State.reent_active, ← State.reent_active, hactive, hreent]
  · intro contextType dstId srcSp dstSp hbound hdst hlen
    obtain ⟨ctx, hctx⟩ : ∃ ctx,
        contextSwitchIn boxCount contextType dstId srcSp dstSp s.ctx = some ctx :=
      contextSwitchIn_some hbound hinv.activeBox hdst (hinv.contextP ▸ hlen)
    exact ⟨_, by rw [step, hctx]; rfl, rfl⟩

/-- Box 0 is active; the memory of a box starts at a multiple of 4 KiB. -/
def bootedState : State :=
  ⟨⟨0, 0, fun _ => ⟨0, .functionIsr, 0⟩, fun b => ⟨0, BitVec.ofNat 32 (0x1000*b)⟩,
    fun _ => ⟨0, 0, 0, 0⟩, 0, 0x20000100, 0x3000⟩, []⟩

/-- An interrupt of box 1 is interrupted by one of box 0, then both end. -/
theorem stack_discipline_nested :
    ∃ s t : State, execWithin (step 2) FunctionBound
        [.switchIn .functionIsr 1 0x2FC0 0x1FC0, .run 0x1F80,
          .switchIn .functionIsr 0 0x1F80 0x3FC0] bootedState = some s ∧
      step 2 s (.switchOut .functionIsr) = some t ∧ t.ctx.activeBox = 1 ∧ t.ctx.psp = 0x1F80 := by
  have hinitial : Initial 2 bootedState := ⟨by decide, rfl, rfl, rfl⟩
  have hrun : ((execWithin (step 2) FunctionBound
      [.switchIn .functionIsr 1 0x2FC0 0x1FC0, .run 0x1F80,
        .switchIn .functionIsr 0 0x1F80 0x3FC0] bootedState).map fun s =>
      s.outstanding.map fun o => (o.before.activeBox, o.srcSp)) =
        some [(1, 0x1F80), (0, 0x2FC0)] := by decide
  obtain ⟨s, hs, hout⟩ := Option.map_eq_some_iff.mp hrun
  have hreach : Reachable (Initial 2) (step 2) FunctionBound s :=
    execWithin_reachable (Reachable.start hinitial) hs
  cases hlist : s.outstanding with
  | nil => simp [hlist] at hout
  | cons o rest =>
    rw [hlist, List.map_cons, List.cons.injEq, Prod.mk.injEq] at hout
    obtain ⟨t, ht, -, hr⟩ := (stack_discipline hreach).2.2.1 o rest .functionIsr hlist rfl
    exact ⟨s, t, hs, ht, hr.activeBox.trans hout.1.1, hr.psp.trans hout.1.2⟩

end Uvisor.ContextStack
