import Mathlib.Data.List.Range
import Uvisor.Context

/-!
# Threads and the boxes that own them

The monitor keeps a table with one slot for each thread of the host's
operating system. A slot records the box that was active when the thread was
created and the allocator of the thread, and a null allocator marks the slot
as free. A thread's context is the address of its slot. Switching to a thread
switches to its box. The drains at the start of a thread switch change neither
the table nor the active box and have models of their own.
-/

namespace Uvisor.Threads

open Context Execution

/-- Per thread, the allocator and the box that the thread belongs to. -/
structure UvisorThreadContext where
  /-- Allocator of the thread; null in a free slot. -/
  allocator : Word
  /-- Box that the thread belongs to. -/
  processId : ℕ

/-- sizeof(UvisorThreadContext). -/
def contextBytes : Word := 8

/-- Place and size of the table of threads. -/
structure Table where
  /-- Address of the table. -/
  thread : Word
  /-- UVISOR_EXPORT_TABLE_THREADS_MAX_COUNT. -/
  maxCount : ℕ
  /-- The table is an object of the program. -/
  thread_ne : thread ≠ 0
  /-- It ends before the last address. -/
  fits : thread.toNat+8*maxCount < 2^32

/-- Variables that the calls on threads read and write. -/
structure Monitor where
  /-- Variables of the context switches. -/
  ctx : Context.State
  /-- The table of threads. -/
  thread : ℕ → UvisorThreadContext

variable {boxCount : ℕ} (table : Table)

/-- Address of a slot. -/
def Table.slot (ii : ℕ) : Word := table.thread+contextBytes*BitVec.ofNat 32 ii

/-- Slot at an address. -/
def Table.slotAt (context : Word) : ℕ := (context.toNat-table.thread.toNat)/8

/-- The context pointer points into the table and is aligned to a context. -/
def threadCtxValid (context : Word) : Bool :=
  if context < table.thread ∨ table.thread+contextBytes*BitVec.ofNat 32 table.maxCount ≤ context
  then false
  else (context-table.thread)%contextBytes = 0

/-- The first free slot. -/
def findFree (s : Monitor) : Option ℕ :=
  (List.range table.maxCount).find? fun ii => (s.thread ii).allocator = 0

/-- Take a free slot for a new thread of the active box, and return its
context. Without a free slot the argument itself is returned. -/
def threadCreate (c : Word) (s : Monitor) : Word × Monitor :=
  let index := s.ctx.index s.ctx.uvisorBoxContext
  match findFree table s with
  | some ii =>
    let created := ⟨if c ≠ 0 then c else index.heap, s.ctx.activeBox⟩
    (table.slot ii, {s with thread := Function.update s.thread ii created})
  | none => (c, s)

/-- The context is valid and used, and its thread belongs to the active box. -/
def isOwned (c : Word) (s : Monitor) : Bool :=
  let context := s.thread (table.slotAt c)
  threadCtxValid table c && context.allocator ≠ 0 && context.processId = s.ctx.activeBox

/-- Release the slot of a thread of the active box. -/
def threadDestroy (c : Word) (s : Monitor) : Monitor :=
  if c = 0 then s
  else if isOwned table c s then
    let ii := table.slotAt c
    {s with thread := Function.update s.thread ii {s.thread ii with allocator := 0}}
  else s

/-- Copy the allocator of a thread into the index of the active box, once the
heap of the box has been initialized. -/
def setActiveHeap (allocator : Word) (ctx : Context.State) : Context.State :=
  let index := ctx.index ctx.uvisorBoxContext
  if index.activeHeap ≠ 0 then
    let updated := {index with activeHeap := allocator}
    {ctx with index := Function.update ctx.index ctx.uvisorBoxContext updated}
  else ctx

/-- Switch to a thread, and to its box when another one is active. -/
def threadSwitch (boxCount : ℕ) (c : Word) (s : Monitor) : Option Monitor :=
  if c = 0 then some s
  else
    let context := s.thread (table.slotAt c)
    if threadCtxValid table c = false ∨ context.allocator = 0 then some s
    else
      let switchedIn :=
        if context.processId ≠ s.ctx.activeBox then
          contextSwitchIn boxCount .unboundThread context.processId 0 0 s.ctx
        else some s.ctx
      switchedIn.map fun ctx => {s with ctx := setActiveHeap context.allocator ctx}

/-! ## Slots and their addresses -/

section Slots

variable {table} {ii jj : ℕ} {c : Word}

theorem Table.slot_toNat (hii : ii ≤ table.maxCount) :
    (table.slot ii).toNat = table.thread.toNat+8*ii := by
  have hfits := table.fits
  have hsmall : ii < 2^32 := by omega
  have hbytes : contextBytes.toNat = 8 := rfl
  simp only [Table.slot, BitVec.toNat_add, BitVec.toNat_mul, BitVec.toNat_ofNat,
    Nat.mod_eq_of_lt hsmall, hbytes]
  omega

/-- Different slots have different addresses. -/
theorem Table.slot_injective (hii : ii < table.maxCount) (hjj : jj < table.maxCount)
    (h : table.slot ii = table.slot jj) : ii = jj := by
  have hnat := congrArg BitVec.toNat h
  rw [Table.slot_toNat hii.le, Table.slot_toNat hjj.le] at hnat
  omega

/-- No slot is at the null pointer. -/
theorem Table.slot_ne (hii : ii < table.maxCount) : table.slot ii ≠ 0 := by
  intro h
  have hnat := congrArg BitVec.toNat h
  rw [Table.slot_toNat hii.le] at hnat
  have hzero : table.thread.toNat = 0 := by
    change table.thread.toNat+8*ii = 0 at hnat
    omega
  exact table.thread_ne (BitVec.eq_of_toNat_eq hzero)

@[simp] theorem Table.slotAt_slot (hii : ii < table.maxCount) :
    table.slotAt (table.slot ii) = ii := by
  rw [Table.slotAt, Table.slot_toNat hii.le]
  omega

/-- The valid contexts are the addresses of the slots. -/
theorem threadCtxValid_iff :
    threadCtxValid table c = true ↔ ∃ ii < table.maxCount, c = table.slot ii := by
  have hfits := table.fits
  have hend : (table.thread+contextBytes*BitVec.ofNat 32 table.maxCount).toNat =
      table.thread.toNat+8*table.maxCount := Table.slot_toNat le_rfl
  unfold threadCtxValid
  constructor
  · intro h
    split at h
    · cases h
    rename_i hbounds
    rw [BitVec.lt_def, BitVec.le_def, hend] at hbounds
    have hmod : (c-table.thread)%contextBytes = 0 := of_decide_eq_true h
    have hmod : (c.toNat-table.thread.toNat)%8 = 0 := by
      have hnat := congrArg BitVec.toNat hmod
      rw [BitVec.toNat_umod, BitVec.toNat_sub_of_le (by rw [BitVec.le_def]; omega)] at hnat
      exact hnat
    refine ⟨(c.toNat-table.thread.toNat)/8, by omega, BitVec.eq_of_toNat_eq ?_⟩
    rw [Table.slot_toNat (by omega)]
    omega
  · rintro ⟨ii, hii, rfl⟩
    have hinside : ¬(table.slot ii < table.thread ∨
        table.thread+contextBytes*BitVec.ofNat 32 table.maxCount ≤ table.slot ii) := by
      rw [BitVec.lt_def, BitVec.le_def, hend, Table.slot_toNat hii.le]
      omega
    rw [if_neg hinside]
    refine decide_eq_true (BitVec.eq_of_toNat_eq ?_)
    rw [BitVec.toNat_umod, BitVec.toNat_sub_of_le, Table.slot_toNat hii.le]
    · change (table.thread.toNat+8*ii-table.thread.toNat)%8 = 0
      omega
    · rw [BitVec.le_def, Table.slot_toNat hii.le]
      omega

end Slots

/-! ## The calls -/

section Calls

variable {table} {ii : ℕ} {c : Word} {s t : Monitor}

theorem findFree_eq_some_iff : findFree table s = some ii ↔
    ii < table.maxCount ∧ (s.thread ii).allocator = 0 ∧
      ∀ jj < ii, (s.thread jj).allocator ≠ 0 := by
  simp only [findFree, List.find?_range_eq_some, decide_eq_true_eq, List.mem_range,
    Bool.not_eq_true', decide_eq_false_iff_not]
  tauto

theorem findFree_eq_none_iff : findFree table s = none ↔
    ∀ ii < table.maxCount, (s.thread ii).allocator ≠ 0 := by
  simp [findFree]

/-- A thread context owned by the active box is that of a used slot. -/
theorem isOwned_iff : isOwned table c s = true ↔
    ∃ ii < table.maxCount, c = table.slot ii ∧ (s.thread ii).allocator ≠ 0 ∧
      (s.thread ii).processId = s.ctx.activeBox := by
  simp only [isOwned, Bool.and_eq_true, threadCtxValid_iff, decide_eq_true_eq]
  constructor
  · rintro ⟨⟨⟨ii, hii, rfl⟩, hused⟩, hbox⟩
    rw [Table.slotAt_slot hii] at hused hbox
    exact ⟨ii, hii, rfl, hused, hbox⟩
  · rintro ⟨ii, hii, rfl, hused, hbox⟩
    rw [Table.slotAt_slot hii]
    exact ⟨⟨⟨ii, hii, rfl⟩, hused⟩, hbox⟩

@[simp] theorem setActiveHeap_activeBox (allocator : Word) (ctx : Context.State) :
    (setActiveHeap allocator ctx).activeBox = ctx.activeBox := by
  unfold setActiveHeap
  dsimp only
  split <;> rfl

/-- A switch to a context that is not that of a used slot does nothing. -/
theorem threadSwitch_unused (hc : ∀ ii < table.maxCount, c = table.slot ii →
    (s.thread ii).allocator = 0) : threadSwitch table boxCount c s = some s := by
  unfold threadSwitch
  dsimp only
  split
  · rfl
  · rw [if_pos]
    cases hvalid : threadCtxValid table c with
    | false => exact .inl rfl
    | true =>
      obtain ⟨ii, hii, rfl⟩ := threadCtxValid_iff.mp hvalid
      rw [Table.slotAt_slot hii]
      exact .inr (hc ii hii rfl)

/-- A switch to the context of a used slot activates the box in that slot. -/
theorem threadSwitch_used (hactive : s.ctx.activeBox < boxCount) (hii : ii < table.maxCount)
    (hused : (s.thread ii).allocator ≠ 0) (hbox : (s.thread ii).processId < boxCount) :
    ∃ t, threadSwitch table boxCount (table.slot ii) s = some t ∧ t.thread = s.thread ∧
      t.ctx.activeBox = (s.thread ii).processId := by
  have hvalid : threadCtxValid table (table.slot ii) = true := threadCtxValid_iff.mpr ⟨ii, hii, rfl⟩
  simp only [threadSwitch, if_neg (Table.slot_ne hii), Table.slotAt_slot hii, hvalid, hused,
    Bool.true_eq_false, or_self, if_false]
  split
  · rw [contextSwitchIn_unboundThread hactive hbox]
    exact ⟨_, rfl, rfl, by simp⟩
  · rename_i hsame
    exact ⟨_, rfl, rfl, by simp [not_not.mp hsame]⟩

end Calls

end Uvisor.Threads
