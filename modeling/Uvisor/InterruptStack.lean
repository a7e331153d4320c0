import Uvisor.Interrupts

/-!
# The saved stack pointers over nested interrupts

A run nests interrupts in any pattern, while the code that runs in between
moves the process stack pointer and writes memory as it likes; a handler
comes back with the stack pointer it was entered with. The discard of the
last frame gives the destination its saved stack pointer back, if that was
aligned. The source's is overwritten when its state is pushed, and nothing
restores it.
-/

namespace Uvisor.InterruptStack

open Context Interrupts Execution

/-! ## Runs -/

/-- An interrupt whose handler has not returned. -/
structure Outstanding where
  /-- The state before the switch-in. -/
  before : Context.State
  /-- Owner of the interrupt. -/
  dstId : ℕ
  /-- Stack pointer with which the handler was entered. -/
  entrySp : Word

/-- The monitor's variables, memory, and the interrupts that are being served,
the last one first. -/
structure State where
  /-- Variables of the monitor. -/
  ctx : Context.State
  /-- Memory. -/
  mem : Memory
  /-- The unprivileged vector table. -/
  vectors : ℕ → IsrVector
  /-- Interrupts that are being served. -/
  outstanding : List Outstanding

/-- Steps of the monitor and of the code that runs in between. -/
inductive Action where
  /-- Code runs, and interrupts are registered. -/
  | run (psp : Word) (mem : Memory) (vectors : ℕ → IsrVector)
  /-- An interrupt arrives. -/
  | enter (svcSp svcPc : Word)
  /-- The last handler returns. -/
  | leave (registers : ℕ → Word) (flags msp : Word)

/-- One step. The switch-in ends with the return from the exception into the
handler; the switch-out begins with the handler's return, from where the
supervisor call stacks its frame. The main stack is not written by that. -/
def step (sys : Platform) (s : State) : Action → Option State
  | .run psp mem vectors => some {s with ctx := {s.ctx with psp := psp}, mem := mem, vectors := vectors}
  | .enter svcSp svcPc =>
    (virqGatewayContextSwitchIn sys s.vectors svcSp svcPc s.mem s.ctx).map fun (frame, mem, ctx) =>
      let entrySp := unstackFrame frame mem
      let dstId := (s.vectors (irqNumber svcSp s.mem)).id
      ⟨{ctx with psp := entrySp}, mem, s.vectors, ⟨s.ctx, dstId, entrySp⟩ :: s.outstanding⟩
  | .leave registers flags msp =>
    match s.outstanding with
    | [] => none
    | o :: rest =>
      let (frame, mem) := stackFrame o.entrySp registers flags s.mem
      if msp+24 = frame+28 then none
      else
        (virqGatewayContextSwitchOut frame msp mem {s.ctx with psp := frame}).map fun (mem, ctx) =>
          ⟨ctx, mem, s.vectors, rest⟩

/-- Owner of the interrupt that arrives. -/
def owner (s : State) (svcSp : Word) : ℕ := (s.vectors (irqNumber svcSp s.mem)).id

/-- An interrupt arrives when its owner is the active box, or when the process
stack pointer is the saved one of the active box; and the saved stack pointer
of the owner is aligned. -/
def Conserving (s : State) : Action → Prop
  | .enter svcSp _ =>
    (s.ctx.activeBox = owner s svcSp ∨ s.ctx.psp = s.ctx.sp s.ctx.activeBox) ∧
      s.ctx.sp (owner s svcSp) &&& 4 = 0
  | _ => True

/-- No interrupt is being served, and the saved stack pointers are the given
ones. -/
def Initial (sys : Platform) (reserved : ℕ → Word) (s : State) : Prop :=
  ContextStack.Initial sys.boxCount ⟨s.ctx, []⟩ ∧ s.outstanding = [] ∧
    ∀ b, s.ctx.sp b = reserved b

/-! ## Frames -/

/-- The saved stack pointer after the frame that was stacked below a stack
pointer has been discarded. -/
def discarded (sp : Word) : Word := sp-alignmentWords sp*4

theorem alignmentWords_eq (sp : Word) : alignmentWords sp = if sp.getLsbD 2 then 1 else 0 := by
  have htwo : (4 : Word) = BitVec.twoPow 32 2 := by decide
  unfold alignmentWords
  rw [htwo, BitVec.and_twoPow]
  cases sp.getLsbD 2 <;> decide

/-- Bit 2 of a word, as a number. -/
theorem alignmentWords_toNat (sp : Word) : (alignmentWords sp).toNat = sp.toNat/4%2 := by
  rw [alignmentWords_eq, BitVec.getLsbD, Nat.testBit_eq_decide_div_mod_eq]
  by_cases hbit : sp.toNat/4%2 = 1
  · simp [hbit]
  · simp only [hbit, decide_false, Bool.false_eq_true, if_false]
    change 0 = _
    omega

/-- An aligned stack pointer needs no further word. -/
theorem alignmentWords_of_aligned {sp : Word} (h : sp &&& 4 = 0) : alignmentWords sp = 0 :=
  if_neg fun hne => hne h

/-- Any other one is moved by the alignment. -/
theorem discarded_eq_iff (sp : Word) : discarded sp = sp ↔ sp &&& 4 = 0 := by
  constructor
  · intro h
    by_contra hne
    have hone : alignmentWords sp = 1 := if_pos hne
    rw [discarded, hone] at h
    bv_omega
  · intro h
    rw [discarded, alignmentWords_of_aligned h]
    bv_omega

/-- A discard after the hardware's stacking forgets the alignment word: the
status register of thread mode has bit 2 clear. -/
theorem discard_stackFrame (dstId : ℕ) (sp : Word) (registers : ℕ → Word) (flags msp : Word)
    (mem : Memory) (s : Context.State)
    (hmsp : msp+24 ≠ (stackFrame sp registers flags mem).1+28) :
    contextDiscardExcSf dstId (stackFrame sp registers flags mem).1
      (Function.update (stackFrame sp registers flags mem).2 (msp+24)
        ((stackFrame sp registers flags mem).2 ((stackFrame sp registers flags mem).1+24))) s =
      s.setSp dstId (discarded sp) := by
  have hbit : alignmentWords ((flags &&& ~~~(0x3FF : Word)) ||| (alignmentWords sp <<< 9)) = 0 := by
    rw [alignmentWords_eq]
    simp
  simp only [contextDiscardExcSf, Function.update_of_ne hmsp.symm]
  simp only [stackFrame, Function.update_self, hbit, discarded, excSfBytes]
  congr 1
  bv_omega

/-- Bit 9 of a status register into which an alignment has been entered. -/
theorem and_bit_nine (xpsr words : Word) :
    (xpsr ||| (words <<< 9)) &&& 0x200 ≠ 0 ↔ xpsr.getLsbD 9 = true ∨ words.getLsbD 0 = true := by
  have htwo : (0x200 : Word) = BitVec.twoPow 32 9 := by decide
  have hne : BitVec.twoPow 32 9 ≠ 0#32 := by decide
  have hbit : (xpsr ||| (words <<< 9)).getLsbD 9 = (xpsr.getLsbD 9 || words.getLsbD 0) := by simp
  rw [htwo, BitVec.and_twoPow, hbit]
  cases xpsr.getLsbD 9 <;> cases words.getLsbD 0 <;> simp [hne]

/-- A handler is entered with the saved stack pointer of its box, up to one
word that the discard takes away again. -/
theorem discarded_unstack_forge (srcSp : Word) (dstId : ℕ) (dstFn dstLr xpsr : Word)
    (mem : Memory) (s : Context.State) :
    discarded (unstackFrame (contextForgeExcSf srcSp dstId dstFn dstLr xpsr 0 mem s).1
      (contextForgeExcSf srcSp dstId dstFn dstLr xpsr 0 mem s).2) = discarded (s.sp dstId) := by
  simp only [contextForgeExcSf, unstackFrame, Function.update_self, excSfBytes, and_bit_nine]
  generalize s.sp dstId = sp
  have hwords := alignmentWords_toNat sp
  by_cases hp : sp.toNat/4%2 = 1
  · have hone : alignmentWords sp = 1 := by
      apply BitVec.eq_of_toNat_eq
      rw [hwords, hp]
      rfl
    have hentry : sp-(32+alignmentWords sp*4)+32+4 = sp := by
      rw [hone]
      bv_omega
    rw [if_pos (.inr (by rw [hone]; decide)), hentry]
  · have hzero : alignmentWords sp = 0 := by
      apply BitVec.eq_of_toNat_eq
      rw [hwords]
      change _ = 0
      omega
    have hbase : sp-(32+alignmentWords sp*4)+32 = sp := by
      rw [hzero]
      bv_omega
    rw [hbase]
    split
    · have hone : alignmentWords (sp+4) = 1 := by
        apply BitVec.eq_of_toNat_eq
        rw [alignmentWords_toNat]
        change (sp+4).toNat/4%2 = 1
        bv_omega
      rw [discarded, hone, discarded, hzero]
      bv_omega
    · congr 1
      bv_omega

/-! ## The invariant -/

/-- Without an interrupt the saved stack pointers are the reserved ones. With
one, that of its owner is to be replaced by the discard of the handler's last
frame, and all others are as before. -/
def Chain (reserved : ℕ → Word) (ctx : Context.State) : List Outstanding → Prop
  | [] => ∀ b, ctx.sp b = reserved b
  | o :: rest =>
    ctx.activeBox = o.dstId ∧ (∀ b, b ≠ o.dstId → ctx.sp b = o.before.sp b) ∧
      discarded o.entrySp = o.before.sp o.dstId ∧ Chain reserved o.before rest

/-- What holds between the steps. -/
structure Inv (sys : Platform) (reserved : ℕ → Word) (s : State) : Prop where
  /-- The switches nest. -/
  nest : ContextStack.Inv sys.boxCount
    ⟨s.ctx, s.outstanding.map fun o => ⟨o.before, o.before.psp⟩⟩
  /-- The saved stack pointers are accounted for. -/
  chain : Chain reserved s.ctx s.outstanding

variable {sys : Platform} {reserved : ℕ → Word} {s t : State}

/-- A chain depends on the active box and the saved stack pointers only. -/
theorem Chain.congr {ctx ctx' : Context.State} {l : List Outstanding}
    (h : Chain reserved ctx l) (hactive : ctx'.activeBox = ctx.activeBox)
    (hsp : ∀ b, ctx'.sp b = ctx.sp b) : Chain reserved ctx' l := by
  cases l with
  | nil => exact fun b => (hsp b).trans (h b)
  | cons o rest =>
    exact ⟨hactive.trans h.1, fun b hb => (hsp b).trans (h.2.1 b hb), h.2.2⟩

/-- A box whose handlers have all returned has its reserved stack pointer. -/
theorem Chain.sp_eq_reserved {ctx : Context.State} {l : List Outstanding} (h : Chain reserved ctx l)
    {b : ℕ} (hb : ∀ o ∈ l, o.dstId ≠ b) : ctx.sp b = reserved b := by
  induction l generalizing ctx with
  | nil => exact h b
  | cons o rest ih =>
    obtain ⟨-, hsame, -, hrest⟩ := h
    rw [hsame b (Ne.symm (hb o List.mem_cons_self))]
    exact ih hrest fun o' ho' => hb o' (List.mem_cons_of_mem _ ho')

theorem inv_initial (h : Initial sys reserved s) : Inv sys reserved s := by
  obtain ⟨hctx, hnone, hsp⟩ := h
  constructor
  · rw [hnone]
    exact ContextStack.inv_initial hctx
  · rw [hnone]
    exact hsp

/-- The switches for interrupts are bound to a function. -/
theorem isrBound : SwitchType.functionIsr.isFunctionBound = true := rfl

/-- What the arrival of an interrupt does. -/
structure Entering (sys : Platform) (s : State) (svcSp : Word) (t : State) : Prop where
  /-- The interrupt is remembered with the handler's stack pointer, which the
  last discard turns into the aligned saved one. -/
  outstanding : ∃ entrySp, t.outstanding = ⟨s.ctx, owner s svcSp, entrySp⟩ :: s.outstanding ∧
    discarded entrySp = discarded (s.ctx.sp (owner s svcSp))
  /-- The owner is active. -/
  activeBox : t.ctx.activeBox = owner s svcSp
  /-- The interrupted code's stack pointer is saved for its box. -/
  sp : ∀ b, t.ctx.sp b = if b = s.ctx.activeBox then s.ctx.psp else s.ctx.sp b
  /-- The switches nest. -/
  nest : ContextStack.Inv sys.boxCount
    ⟨t.ctx, t.outstanding.map fun o => ⟨o.before, o.before.psp⟩⟩

/-- An interrupt arrives with the frame forged for its owner, and the switch to
the owner returns. -/
theorem enter_some {svcSp svcPc : Word} (hs : step sys s (.enter svcSp svcPc) = some t) :
    ∃ xpsr frame mem ctx entrySp,
      contextForgeExcSf s.ctx.psp (owner s svcSp) (s.vectors (irqNumber svcSp s.mem)).hdlr
        (svcPc+2) xpsr 0 s.mem s.ctx = (frame, mem) ∧
      contextSwitchIn sys.boxCount .functionIsr (owner s svcSp) s.ctx.psp frame s.ctx = some ctx ∧
      entrySp = unstackFrame frame mem ∧
      t = ⟨{ctx with psp := entrySp}, mem, s.vectors,
        ⟨s.ctx, owner s svcSp, entrySp⟩ :: s.outstanding⟩ := by
  obtain ⟨⟨frame, mem, ctx⟩, hin, rfl⟩ := Option.map_eq_some_iff.mp hs
  unfold virqGatewayContextSwitchIn at hin
  dsimp only at hin
  split at hin
  · cases hin
  split at hin
  · cases hin
  obtain ⟨ctx', hctx, heq⟩ := Option.map_eq_some_iff.mp hin
  simp only [Prod.mk.injEq] at heq
  obtain ⟨rfl, rfl, rfl⟩ := heq
  exact ⟨_, _, _, _, _, rfl, hctx, rfl, rfl⟩

theorem enter_spec {svcSp svcPc : Word}
    (hnest : ContextStack.Inv sys.boxCount
      ⟨s.ctx, s.outstanding.map fun o => ⟨o.before, o.before.psp⟩⟩)
    (hs : step sys s (.enter svcSp svcPc) = some t) : Entering sys s svcSp t := by
  obtain ⟨xpsr, frame, mem, ctx, entrySp, hforged, hctx, rfl, rfl⟩ := enter_some hs
  have he := contextSwitchIn_entered isrBound hnest.activeBox hctx
  have hswitch := hnest.switchIn isrBound
    (by rw [ContextStack.step, hctx]; rfl)
  obtain ⟨rfl, rfl⟩ := Prod.mk.inj hforged
  refine ⟨⟨_, rfl, discarded_unstack_forge _ _ _ _ _ _ _⟩, he.activeBox, he.sp, ?_⟩
  exact ContextStack.inv_step hswitch (a := .run _) trivial rfl

/-- What the return of the last handler does. -/
structure Leaving (sys : Platform) (s : State) (o : Outstanding) (rest : List Outstanding)
    (t : State) : Prop where
  /-- The interrupt is forgotten. -/
  outstanding : t.outstanding = rest
  /-- The interrupted box is active again. -/
  activeBox : t.ctx.activeBox = o.before.activeBox
  /-- The active box gets the stack pointer that remains after the discard. -/
  sp : ∀ b, t.ctx.sp b = if b = s.ctx.activeBox then discarded o.entrySp else s.ctx.sp b
  /-- The switches nest. -/
  nest : ContextStack.Inv sys.boxCount
    ⟨t.ctx, rest.map fun o => ⟨o.before, o.before.psp⟩⟩

theorem leave_spec {registers : ℕ → Word} {flags msp : Word} {o : Outstanding}
    {rest : List Outstanding}
    (hnest : ContextStack.Inv sys.boxCount
      ⟨s.ctx, s.outstanding.map fun o => ⟨o.before, o.before.psp⟩⟩)
    (ho : s.outstanding = o :: rest)
    (hs : step sys s (.leave registers flags msp) = some t) : Leaving sys s o rest t := by
  simp only [step, ho] at hs
  split at hs
  · cases hs
  rename_i hmsp
  obtain ⟨⟨mem, ctx⟩, hout, rfl⟩ := Option.map_eq_some_iff.mp hs
  simp only [virqGatewayContextSwitchOut, discard_stackFrame _ _ _ _ _ _ _ hmsp] at hout
  obtain ⟨⟨previous, ctx'⟩, hctx, heq⟩ := Option.map_eq_some_iff.mp hout
  simp only [Prod.mk.injEq] at heq
  obtain ⟨-, rfl⟩ := heq
  rw [ho] at hnest
  let stacked : Context.State :=
    {s.ctx with psp := (stackFrame o.entrySp registers flags s.mem).1}
  let moved : Context.State := stacked.setSp s.ctx.activeBox (discarded o.entrySp)
  have hstacked : ContextStack.Inv sys.boxCount
      ⟨stacked, (o :: rest).map fun o => ⟨o.before, o.before.psp⟩⟩ :=
    ContextStack.inv_step hnest (a := .run _) trivial rfl
  have hmoved := hstacked.setSp s.ctx.activeBox (discarded o.entrySp)
  obtain ⟨t, ht, hrest, hinv, hactive, -⟩ :=
    hmoved.switchOut isrBound rfl
  have hp : moved.contextP ≠ 0 := by
    have hheight := hmoved.contextP
    change moved.contextP = (rest.map _).length+1 at hheight
    omega
  obtain ⟨left, hleft, hl⟩ := contextSwitchOut_left isrBound hp
  have hsame : left = ctx' := by
    have heq := hleft.symm.trans hctx
    simp only [Option.some.injEq, Prod.mk.injEq] at heq
    exact heq.2
  subst hsame
  have htctx : t.ctx = left := by
    have heq : (contextSwitchOut .functionIsr moved).map (fun out =>
        (⟨out.2, rest.map fun o => ⟨o.before, o.before.psp⟩⟩ : ContextStack.State)) = some t := ht
    rw [hleft] at heq
    simp only [Option.map_some, Option.some.injEq] at heq
    exact heq ▸ rfl
  refine ⟨rfl, ?_, fun b => ?_, ?_⟩
  · exact htctx ▸ hactive
  · change (left.currentStates b).sp = _
    rw [hl.currentStates]
    exact setSp_sp stacked _ _ b
  · have hcopy : t = ⟨left, rest.map fun o => ⟨o.before, o.before.psp⟩⟩ := by
      rw [← htctx, ← hrest]
    exact hcopy ▸ hinv

/-- An arrival under the condition changes no saved stack pointer but the
owner's. -/
theorem Entering.conserved {svcSp svcPc : Word} (he : Entering sys s svcSp t)
    (ha : Conserving s (.enter svcSp svcPc)) {b : ℕ} (hb : b ≠ owner s svcSp) :
    t.ctx.sp b = s.ctx.sp b := by
  rw [he.sp]
  split
  · rename_i hactive
    subst hactive
    exact ha.1.resolve_left hb
  · rfl

theorem inv_enter {svcSp svcPc : Word} (h : Inv sys reserved s)
    (ha : Conserving s (.enter svcSp svcPc))
    (hs : step sys s (.enter svcSp svcPc) = some t) : Inv sys reserved t := by
  have he := enter_spec h.nest hs
  obtain ⟨entrySp, hout, hentry⟩ := he.outstanding
  refine ⟨he.nest, ?_⟩
  rw [hout]
  refine ⟨he.activeBox, fun b hb => he.conserved ha hb, ?_, h.chain⟩
  exact hentry.trans ((discarded_eq_iff _).mpr ha.2)

/-- The last handler's return makes all saved stack pointers what they were
before its interrupt. -/
theorem Leaving.restored {o : Outstanding} {rest : List Outstanding}
    (hl : Leaving sys s o rest t) (hchain : Chain reserved s.ctx (o :: rest)) (b : ℕ) :
    t.ctx.sp b = o.before.sp b := by
  obtain ⟨hactive, hsame, hentry, -⟩ := hchain
  rw [hl.sp, hactive]
  split
  · rename_i hb
    rw [hentry, hb]
  · rename_i hb
    exact hsame b hb

theorem inv_leave {registers : ℕ → Word} {flags msp : Word} (h : Inv sys reserved s)
    (hs : step sys s (.leave registers flags msp) = some t) : Inv sys reserved t := by
  cases ho : s.outstanding with
  | nil => simp [step, ho] at hs
  | cons o rest =>
    have hl := leave_spec h.nest ho hs
    have hchain := h.chain
    rw [ho] at hchain
    constructor
    · rw [hl.outstanding]
      exact hl.nest
    · rw [hl.outstanding]
      exact hchain.2.2.2.congr hl.activeBox (hl.restored hchain)

theorem inv_step {a : Action} (h : Inv sys reserved s) (ha : Conserving s a)
    (hs : step sys s a = some t) : Inv sys reserved t := by
  cases a with
  | run psp mem vectors =>
    simp only [step, Option.some.injEq] at hs
    subst hs
    exact ⟨ContextStack.inv_step h.nest (a := .run psp) trivial rfl,
      h.chain.congr rfl fun _ => rfl⟩
  | enter svcSp svcPc => exact inv_enter h ha hs
  | leave registers flags msp => exact inv_leave h hs

/-! ## One interrupt -/

/-- An interrupt that no other one interrupts leaves the saved stack pointers
as they were just when it arrives under the condition. -/
theorem pair_conserves_iff {svcSp svcPc psp : Word} {mem : Memory} {vectors : ℕ → IsrVector}
    {registers : ℕ → Word} {flags msp : Word} {entered ran left : State}
    (hnest : ContextStack.Inv sys.boxCount
      ⟨s.ctx, s.outstanding.map fun o => ⟨o.before, o.before.psp⟩⟩)
    (henter : step sys s (.enter svcSp svcPc) = some entered)
    (hrun : step sys entered (.run psp mem vectors) = some ran)
    (hleave : step sys ran (.leave registers flags msp) = some left) :
    (∀ b, left.ctx.sp b = s.ctx.sp b) ↔ Conserving s (.enter svcSp svcPc) := by
  have he := enter_spec hnest henter
  obtain ⟨entrySp, hout, hentry⟩ := he.outstanding
  simp only [step, Option.some.injEq] at hrun
  have hactive : ran.ctx.activeBox = owner s svcSp := by
    rw [← he.activeBox, ← hrun]
  have hsp : ∀ b, ran.ctx.sp b = if b = s.ctx.activeBox then s.ctx.psp else s.ctx.sp b := by
    intro b
    rw [← he.sp b, ← hrun]
    rfl
  have hran : ContextStack.Inv sys.boxCount
      ⟨ran.ctx, ran.outstanding.map fun o => ⟨o.before, o.before.psp⟩⟩ := by
    rw [← hrun]
    exact ContextStack.inv_step he.nest (a := .run psp) trivial rfl
  have hl := leave_spec hran (by rw [← hrun]; exact hout) hleave
  have hleft : ∀ b, left.ctx.sp b = if b = owner s svcSp then discarded (s.ctx.sp (owner s svcSp))
      else if b = s.ctx.activeBox then s.ctx.psp else s.ctx.sp b := by
    intro b
    rw [hl.sp b, hactive, hsp b, ← hentry]
  constructor
  · intro hall
    constructor
    · by_cases hsame : s.ctx.activeBox = owner s svcSp
      · exact .inl hsame
      · right
        have hsource := hall s.ctx.activeBox
        rwa [hleft, if_neg hsame, if_pos rfl] at hsource
    · have hdst := hall (owner s svcSp)
      rw [hleft, if_pos rfl] at hdst
      exact (discarded_eq_iff _).mp hdst
  · rintro ⟨hsource, haligned⟩ b
    rw [hleft]
    split
    · rename_i hb
      rw [hb]
      exact (discarded_eq_iff _).mpr haligned
    · split
      · rename_i hb hactive'
        subst hactive'
        exact hsource.resolve_left hb
      · rfl

/-- An address within the frame that ends at a stack pointer. -/
def InFrame (sp address : Word) : Prop := sp-1-address < excSfBytes

/-- No other word is written when a frame is forged without arguments. -/
theorem forge_unchanged {srcSp : Word} {dstId : ℕ} {dstFn dstLr xpsr : Word} {mem : Memory}
    {ctx : Context.State} {address : Word} (haligned : ctx.sp dstId &&& 4 = 0)
    (haddress : ¬InFrame (ctx.sp dstId) address) :
    (contextForgeExcSf srcSp dstId dstFn dstLr xpsr 0 mem ctx).2 address = mem address := by
  have hwords := alignmentWords_of_aligned haligned
  simp only [InFrame, excSfBytes] at haddress
  simp only [contextForgeExcSf, copyWords, hwords, excSfBytes]
  generalize ctx.sp dstId = sp at haddress ⊢
  rw [Function.update_of_ne (by bv_omega), Function.update_of_ne (by bv_omega),
    Function.update_of_ne (by bv_omega), Function.update_of_ne (by bv_omega)]

/-- An interrupt changes memory within the frame below the saved stack pointer
of its owner only. -/
theorem enter_frame {svcSp svcPc : Word} (hs : step sys s (.enter svcSp svcPc) = some t)
    (haligned : s.ctx.sp (owner s svcSp) &&& 4 = 0) {address : Word}
    (haddress : ¬InFrame (s.ctx.sp (owner s svcSp)) address) :
    t.mem address = s.mem address := by
  obtain ⟨xpsr, frame, mem, ctx, entrySp, hforged, -, rfl, rfl⟩ := enter_some hs
  obtain ⟨-, rfl⟩ := Prod.mk.inj hforged
  exact forge_unchanged haligned haddress

/-! ## Runs under the condition -/

/-- In every run in which all interrupts arrive under the condition, a
handler's return makes every saved stack pointer what it was before its
interrupt; between the interrupts they are the reserved ones, and an interrupt
of a box with no handler underway changes memory only in the frame below the
reserved one of the box. For an interrupt that no other one interrupts the
condition is also necessary. -/
theorem saved_sp_conserved
    (h : Reachable (Initial sys reserved) (step sys) Conserving s) :
    (∀ o rest registers flags msp t, s.outstanding = o :: rest →
      step sys s (.leave registers flags msp) = some t →
      t.outstanding = rest ∧ ∀ b, t.ctx.sp b = o.before.sp b) ∧
    (s.outstanding = [] → ∀ b, s.ctx.sp b = reserved b) ∧
    (∀ svcSp svcPc t address, Conserving s (.enter svcSp svcPc) →
      (∀ o ∈ s.outstanding, o.dstId ≠ owner s svcSp) →
      step sys s (.enter svcSp svcPc) = some t → t.mem address ≠ s.mem address →
      InFrame (reserved (owner s svcSp)) address) ∧
    (∀ svcSp svcPc psp mem vectors registers flags msp entered ran left,
      step sys s (.enter svcSp svcPc) = some entered →
      step sys entered (.run psp mem vectors) = some ran →
      step sys ran (.leave registers flags msp) = some left →
      ((∀ b, left.ctx.sp b = s.ctx.sp b) ↔ Conserving s (.enter svcSp svcPc))) := by
  have hinv : Inv sys reserved s := h.invariant (Inv sys reserved) (fun _ => inv_initial)
    fun _ _ _ hi ha hs => inv_step hi ha hs
  refine ⟨?_, ?_, ?_, ?_⟩
  · intro o rest registers flags msp t ho hs
    have hl := leave_spec hinv.nest ho hs
    exact ⟨hl.outstanding, hl.restored (ho ▸ hinv.chain)⟩
  · intro hnone b
    exact hinv.chain.sp_eq_reserved (by rw [hnone]; exact fun o ho => absurd ho List.not_mem_nil)
  · intro svcSp svcPc t address ha howner hs hchanged
    have hsp : s.ctx.sp (owner s svcSp) = reserved (owner s svcSp) :=
      hinv.chain.sp_eq_reserved howner
    rw [← hsp]
    by_contra hfar
    exact hchanged (enter_frame hs ha.2 hfar)
  · intro svcSp svcPc psp mem vectors registers flags msp entered ran left henter hrun hleave
    exact pair_conserves_iff hinv.nest henter hrun hleave

/-- Two boxes and two interrupts. -/
def twoBoxes : Platform := ⟨2, 2, fun _ => true⟩

/-- Box 0 is active and runs with the given stack pointer; each box has 64 KiB
of stack below its saved one. Box 1 serves the first interrupt and box 0 the
second. -/
def bootedState (psp : Word) : State where
  ctx := ⟨0, 0, fun _ => ⟨0, .functionIsr, 0⟩,
    fun b => ⟨0x10000*(BitVec.ofNat 32 b+1), 0x1000*BitVec.ofNat 32 b⟩, fun _ => ⟨0, 0, 0, 0⟩, 0,
    0, psp⟩
  mem := fun address => if address = 0x8000001C then 16 else if address = 0x8000011C then 17 else 0
  vectors := fun irqn => ⟨1-irqn, 0x401⟩
  outstanding := []

/-- An interrupt arrives from a stack that is not that of a saved context, its
handler returns, and the interrupted box has lost its saved stack pointer. The
box then fills its stack further, and the frame of its own interrupt is put on
top of what it stored. -/
theorem saved_sp_not_conserved :
    ∃ s t u v, step twoBoxes (bootedState 0x9000) (.enter 0x80000000 0x300) = some s ∧
      step twoBoxes s (.leave (fun _ => 0) 0 0x90000000) = some t ∧
      step twoBoxes t (.run 0x8F00 t.mem t.vectors) = some u ∧
      step twoBoxes u (.enter 0x80000100 0x300) = some v ∧
      t.outstanding = [] ∧ (bootedState 0x9000).ctx.sp 0 = 0x10000 ∧ t.ctx.sp 0 = 0x9000 ∧
      u.ctx.activeBox = 0 ∧ u.ctx.psp = 0x8F00 ∧ u.mem 0x8FF8 = 0 ∧ v.mem 0x8FF8 = 0x401 := by
  have hrun : (((step twoBoxes (bootedState 0x9000) (.enter 0x80000000 0x300)).bind fun s =>
      (step twoBoxes s (.leave (fun _ => 0) 0 0x90000000)).bind fun t =>
      (step twoBoxes t (.run 0x8F00 t.mem t.vectors)).bind fun u =>
      (step twoBoxes u (.enter 0x80000100 0x300)).map fun v => (t, u, v)).map fun (t, u, v) =>
        ((t.outstanding.length, t.ctx.sp 0, u.ctx.activeBox), u.ctx.psp, u.mem 0x8FF8,
          v.mem 0x8FF8)) =
      some ((0, 0x9000, 0), 0x8F00, 0, 0x401) := by decide +kernel
  obtain ⟨⟨t, u, v⟩, hsteps, hvalues⟩ := Option.map_eq_some_iff.mp hrun
  obtain ⟨s, hs, hsteps⟩ := Option.bind_eq_some_iff.mp hsteps
  obtain ⟨t', ht, hsteps⟩ := Option.bind_eq_some_iff.mp hsteps
  obtain ⟨u', hu, hsteps⟩ := Option.bind_eq_some_iff.mp hsteps
  obtain ⟨v', hv, heq⟩ := Option.map_eq_some_iff.mp hsteps
  simp only [Prod.mk.injEq] at heq hvalues
  obtain ⟨rfl, rfl, rfl⟩ := heq
  obtain ⟨⟨hnone, hsp, hactive⟩, hpsp, hbefore, hafter⟩ := hvalues
  exact ⟨s, t', u', v', hs, ht, hu, hv, List.eq_nil_of_length_eq_zero hnone, rfl, hsp, hactive,
    hpsp, hbefore, hafter⟩

/-- An interrupt that arrives in the saved context of box 0 conserves all saved
stack pointers. -/
theorem saved_sp_conserved_twoBoxes :
    ∃ s t, step twoBoxes (bootedState 0x10000) (.enter 0x80000000 0x300) = some s ∧
      step twoBoxes s (.leave (fun _ => 0) 0 0x90000000) = some t ∧
      ∀ b, t.ctx.sp b = (bootedState 0x10000).ctx.sp b := by
  have hrun : ((step twoBoxes (bootedState 0x10000) (.enter 0x80000000 0x300)).bind fun s =>
      step twoBoxes s (.leave (fun _ => 0) 0 0x90000000)).isSome = true := by decide +kernel
  obtain ⟨t, ht⟩ := Option.isSome_iff_exists.mp hrun
  obtain ⟨s, hs, ht⟩ := Option.bind_eq_some_iff.mp ht
  have hinitial : Initial twoBoxes (bootedState 0x10000).ctx.sp (bootedState 0x10000) :=
    ⟨⟨by decide, rfl, rfl, rfl⟩, rfl, fun _ => rfl⟩
  have hpair := (saved_sp_conserved (Reachable.start hinitial)).2.2.2 _ _ _ _ _ _ _ _ _ _ _ hs rfl
    ht
  exact ⟨s, t, hs, ht, hpair.mpr ⟨.inr (by decide), by decide⟩⟩

end Uvisor.InterruptStack
