import Uvisor.IpcMemory

/-!
# What the IPC drain has validated

The drain asks whether a box may access a range before it uses the structures
that it finds there, but not always: the entries of a queue are used without a
question, and receive requests are compared with a send request before they are
looked at. Here the drain records what it touches, and with it all ranges that
have been accepted by then. It also records its steps with the memory that each
of them finds.
-/

namespace Uvisor.IpcAccesses

open Execution RpcMemory PoolAccesses IpcMemory

/-- Constants of a booted system. -/
structure Platform where
  /-- Number of boxes. -/
  boxCount : ℕ
  /-- The active box. -/
  activeBox : ℤ
  /-- Start of the memory of each box. -/
  bss : ℤ → Word
  /-- vmpu_buffer_access_is_ok. -/
  bufferAccessIsOk : ℤ → Word → Word → Bool

/-! ## Memory with a record of accesses -/

/-- A step that uses objects which have not just been validated. -/
inductive Operation where
  | dequeueFirst (box : ℤ) (queue : Word)
  | enqueue (box : ℤ) (queue : Word) (slot : BitVec 8)
  | free (box : ℤ) (queue : Word) (slot : BitVec 8)
  | dequeue (box : ℤ) (queue : Word) (slot : BitVec 8)
  | follow (box : ℤ) (pool : Word) (slot : BitVec 8)
  | recvMatch (sendBox recvBox : ℤ) (sendIo recvIo : Word)
  | deliver (sender receiver : Party) (sendIo recvIo : Word)

/-- The objects that a step is about to use meet a condition. -/
def Operation.Ok (ok : Range → Prop) (mem : Memory) : Operation → Prop
  | .dequeueFirst box queue => DequeueFirstOk ok box queue mem
  | .enqueue box queue slot => EnqueueOk ok box queue slot mem
  | .free box queue slot => FreeOk ok box queue slot mem
  | .dequeue box queue slot => DequeueOk ok box queue slot mem
  | .follow box pool slot => ok (entryObject box pool slot)
  | .recvMatch sendBox recvBox sendIo recvIo => MatchOk ok mem sendBox recvBox sendIo recvIo
  | .deliver sender receiver sendIo recvIo => DeliverOk ok mem sender receiver sendIo recvIo

/-- An object that is used. -/
structure Access where
  /-- The object. -/
  object : Range
  /-- What has been accepted before. -/
  accepted : List Range

/-- A step, and what it finds. -/
structure Step where
  /-- The operation. -/
  operation : Operation
  /-- Memory before it. -/
  mem : Memory
  /-- What has been accepted before. -/
  accepted : List Range

/-- Memory with the accepted ranges, the accesses and the steps so far. -/
structure Run where
  /-- Memory. -/
  mem : Memory
  /-- Ranges that vmpu_buffer_access_is_ok has accepted. -/
  accepted : List Range
  /-- Objects that have been used. -/
  accesses : List Access
  /-- Steps. -/
  steps : List Step

/-- Every object has been accepted before its use, for the box that has supplied
the pointer to it. -/
def Run.Validated (r : Run) : Prop := ∀ a ∈ r.accesses, Covers a.accepted a.object

/-- Every step has found objects that have been accepted. -/
def Run.Covered (r : Run) : Prop := ∀ s ∈ r.steps, s.operation.Ok (Covers s.accepted) s.mem

/-- Use an object. -/
def Run.touch (r : Run) (object : Range) : Run :=
  {r with accesses := r.accesses ++ [⟨object, r.accepted⟩]}

/-- Write to memory. -/
def Run.write (r : Run) (f : Memory → Memory) : Run := {r with mem := f r.mem}

/-- Take a step. -/
def Run.perform {β : Type} (r : Run) (operation : Operation) (f : Trace → β × Trace) : β × Run :=
  let out := f ⟨r.mem, []⟩
  (out.1,
    { mem := out.2.mem
      accepted := r.accepted
      accesses := r.accesses ++ out.2.objects.map fun object => ⟨object, r.accepted⟩
      steps := r.steps ++ [⟨operation, r.mem, r.accepted⟩] })

/-- uvisor_pool_queue_try_dequeue_first. -/
def Run.tryDequeueFirst (r : Run) (box : ℤ) (queue : Word) : BitVec 8 × Run :=
  r.perform (.dequeueFirst box queue) (IpcMemory.tryDequeueFirst box queue)

/-- put_it_back. Nothing depends on its status. -/
def Run.putItBack (r : Run) (box : ℤ) (queue : Word) (slot : BitVec 8) : Run :=
  (r.perform (.enqueue box queue slot) (tryEnqueue box queue slot)).2

/-- uvisor_pool_queue_try_free. Nothing depends on the slot that it returns. -/
def Run.tryFree (r : Run) (box : ℤ) (queue : Word) (slot : BitVec 8) : Run :=
  (r.perform (.free box queue slot) (IpcMemory.tryFree box queue slot)).2

/-- uvisor_pool_queue_try_dequeue. -/
def Run.tryDequeue (r : Run) (box : ℤ) (queue : Word) (slot : BitVec 8) : BitVec 8 × Run :=
  r.perform (.dequeue box queue slot) (IpcMemory.tryDequeue box queue slot)

/-! ## Validation -/

/-- vmpu_buffer_access_is_ok, with a record of what it accepts. -/
def Run.bufferAccessIsOk (sys : Platform) (box : ℤ) (start len : Word) (r : Run) : Bool × Run :=
  if sys.bufferAccessIsOk box start len then
    (true, {r with accepted := r.accepted ++ [⟨box, start, len.toNat⟩]})
  else (false, r)

/-- A further check, if the first one has succeeded. -/
def andThen (first : Bool × Run) (second : Run → Bool × Run) : Bool × Run :=
  if first.1 then second first.2 else first

/-- ipc_is_ok. -/
def ipcIsOk (sys : Platform) (box : ℤ) (ipc : Word) (r : Run) : Bool × Run :=
  if ipc = 0 then (false, r) else r.bufferAccessIsOk sys box ipc (BitVec.ofNat 32 Ipc.ipcSize)

/-- ipc_io_array_is_ok. -/
def ipcIoArrayIsOk (sys : Platform) (box : ℤ) (array : Word) (r : Run) : Bool × Run :=
  if array = 0 then (false, r)
  else r.bufferAccessIsOk sys box array (BitVec.ofNat 32 (Ipc.ioSize*Ipc.ipcSlots))

/-- pool_queue_is_ok. -/
def poolQueueIsOk (sys : Platform) (box : ℤ) (queue : Word) (r : Run) : Bool × Run :=
  if queue = 0 then (false, r)
  else
    andThen (r.bufferAccessIsOk sys box queue (BitVec.ofNat 32 queueBytes)) fun r =>
      let pool := queuePool r.mem queue
      if pool = 0 then (false, r)
      else
        andThen (r.bufferAccessIsOk sys box pool (BitVec.ofNat 32 poolBytes)) fun r =>
          r.bufferAccessIsOk sys box (poolArray r.mem pool)
            (poolStride r.mem pool*(poolNum r.mem pool).zeroExtend 32)

/-- ipc_io_is_ok. -/
def ipcIoIsOk (sys : Platform) (box : ℤ) (io : Word) (r : Run) : Bool × Run :=
  if io = 0 then (false, r)
  else
    andThen (r.bufferAccessIsOk sys box io (BitVec.ofNat 32 Ipc.ioSize)) fun r =>
      let r := r.touch (ioObject box io)
      let desc := ioDesc r.mem io
      if desc = 0 then (false, r)
      else
        andThen (r.bufferAccessIsOk sys box desc (BitVec.ofNat 32 Ipc.descSize)) fun r =>
          let r := r.touch (descObject box desc)
          r.bufferAccessIsOk sys box (ioMsg r.mem io) (descLen r.mem desc)

/-- The three checks made on a box before its requests are looked at. -/
def structuresAreOk (sys : Platform) (p : Party) (queue array : Word) (r : Run) : Bool × Run :=
  andThen (ipcIsOk sys p.box p.ipc r) fun r =>
    andThen (poolQueueIsOk sys p.box queue r) (ipcIoArrayIsOk sys p.box array)

/-! ## The walk over receive requests -/

/-- Variables of find_first. -/
structure Walk where
  /-- Memory with its records. -/
  run : Run
  /-- The slot to look at. -/
  slot : BitVec 8

/-- One pass of the loop of find_first. -/
def walkBody (sender receiver : Party) (sendIo pool : Word) (w : Walk) : Pass Walk :=
  if w.slot ≠ slotInvalid then
    let recvIo := receiver.recvIo w.slot
    let matched := w.run.perform (.recvMatch sender.box receiver.box sendIo recvIo)
      (recvMatch sender.box receiver.box sendIo recvIo)
    if matched.1 then .stop ⟨matched.2.write fun mem => store8 mem (pool+15) 0, w.slot⟩
    else
      let next := matched.2.perform (.follow receiver.box pool w.slot)
        (follow receiver.box pool w.slot)
      .next ⟨next.2, next.1⟩
  else .stop w

/-- uvisor_pool_queue_try_find_first, and whether it has come to its end. -/
def tryFindFirst (fuel : ℕ) (sender receiver : Party) (sendIo : Word) (r : Run) : Bool × Walk :=
  let pool := queuePool r.mem receiver.recvQueue
  if poolLock r.mem pool = 0 then
    let r := r.write fun mem => acquired mem pool
    let walked := attempt (walkBody sender receiver sendIo (queuePool r.mem receiver.recvQueue)) fuel
      ⟨r, queueHead r.mem receiver.recvQueue⟩
    if walked.1 then
      (true, {walked.2 with run := walked.2.run.write fun mem => store8 mem (pool+15) 0})
    else walked
  else (true, ⟨r, slotInvalid⟩)

/-! ## The drain -/

/-- Variables of the draining loop. -/
structure DrainState where
  /-- Memory with its records. -/
  run : Run
  /-- First slot seen, or -1. -/
  firstSlot : ℤ

/-- Put the send request back. -/
def putSendBack (sender : Party) (sendSlot : BitVec 8) (st : DrainState) : DrainState :=
  {st with run := st.run.putItBack sender.box sender.sendQueue sendSlot}

/-- The part of a pass after a receive request has been dequeued. Only a
delivery forgets the first slot. -/
def fulfil (sys : Platform) (sender receiver : Party) (sendSlot recvSlot : BitVec 8)
    (st : DrainState) : DrainState :=
  let recvIo := receiver.recvIo recvSlot
  let inspected := ipcIoIsOk sys receiver.box recvIo st.run
  if inspected.1 = false then putSendBack sender sendSlot {st with run := inspected.2}
  else
    let sendIo := sender.sendIo sendSlot
    let delivered := inspected.2.perform (.deliver sender receiver sendIo recvIo)
      (ipcDeliver sender receiver sendIo recvIo)
    if delivered.1 ≠ 0 then
      let st := putSendBack sender sendSlot {st with run := delivered.2}
      {st with run := st.run.putItBack receiver.box receiver.recvQueue recvSlot}
    else
      let run := delivered.2.tryFree sender.box sender.sendQueue sendSlot
      ⟨run.tryFree receiver.box receiver.recvQueue recvSlot,
        if st.firstSlot = sendSlot.toNat then -1 else st.firstSlot⟩

/-- The part of a pass that looks for a receive request in a known box. -/
def matchReceiver (sys : Platform) (fuel : ℕ) (sender receiver : Party) (sendSlot : BitVec 8)
    (st : DrainState) : Pass DrainState :=
  let checked := structuresAreOk sys receiver receiver.recvQueue receiver.recvArray st.run
  if checked.1 = false then .next (putSendBack sender sendSlot {st with run := checked.2})
  else
    let found := tryFindFirst fuel sender receiver (sender.sendIo sendSlot) checked.2
    let run := found.2.run
    if found.1 = false then .cut {st with run}
    else if poolNum run.mem (queuePool run.mem receiver.recvQueue) ≤ found.2.slot then
      .next (putSendBack sender sendSlot {st with run})
    else
      let dequeued := run.tryDequeue receiver.box receiver.recvQueue found.2.slot
      let run := dequeued.2
      if poolNum run.mem (queuePool run.mem receiver.recvQueue) ≤ dequeued.1 then
        .next (putSendBack sender sendSlot {st with run})
      else .next (fulfil sys sender receiver sendSlot dequeued.1 {st with run})

/-- The part of a pass after a send request has been dequeued that is not the
first one again. -/
def offer (sys : Platform) (fuel : ℕ) (sender : Party) (sendSlot : BitVec 8) (st : DrainState) :
    Pass DrainState :=
  let sendIo := sender.sendIo sendSlot
  let inspected := ipcIoIsOk sys sender.box sendIo st.run
  if inspected.1 = false then .next {st with run := inspected.2}
  else
    let run := inspected.2.touch (ioObject sender.box sendIo)
    let sendDesc := ioDesc run.mem sendIo
    if ioState run.mem sendIo ≠ ioStateReadyToSend then
      .next (putSendBack sender sendSlot {st with run})
    else
      let run := run.touch (descObject sender.box sendDesc)
      let recvBox := descBoxId run.mem sendDesc
      if recvBox < 0 ∨ (sys.boxCount : ℤ) ≤ recvBox then .next {st with run}
      else
        let receiver : Party := ⟨recvBox, uvisorIpc run.mem (sys.bss recvBox)⟩
        matchReceiver sys fuel sender receiver sendSlot {st with run}

/-- One pass of the loop of ipc_drain_queue. -/
def ipcDrainBody (sys : Platform) (fuel : ℕ) (sender : Party) (st : DrainState) :
    Pass DrainState :=
  let dequeued := st.run.tryDequeueFirst sender.box sender.sendQueue
  let sendSlot := dequeued.1
  let run := dequeued.2
  if poolNum run.mem (queuePool run.mem sender.sendQueue) ≤ sendSlot then .stop {st with run}
  else if st.firstSlot = -1 then offer sys fuel sender sendSlot ⟨run, sendSlot.toNat⟩
  else if sendSlot.toNat = st.firstSlot then .stop (putSendBack sender sendSlot {st with run})
  else offer sys fuel sender sendSlot {st with run}

/-- ipc_drain_queue, with fuel for each of its loops. -/
def ipcDrainQueue (sys : Platform) (fuel : ℕ) (mem : Memory) : Run :=
  let sender : Party := ⟨sys.activeBox, uvisorIpc mem (sys.bss sys.activeBox)⟩
  let checked := structuresAreOk sys sender sender.sendQueue sender.sendArray ⟨mem, [], [], []⟩
  if checked.1 = false then checked.2
  else (attempt (ipcDrainBody sys fuel sender) fuel ⟨checked.2, -1⟩).2.run

/-! ## What a step leaves behind -/

/-- All objects have been accepted before their use exactly if the steps have
found them so. -/
def Run.Explained (r : Run) : Prop := r.Validated ↔ r.Covered

/-- A run that is explained and still knows what has been accepted. -/
structure Kept (known : List Range) (r : Run) : Prop where
  /-- The run is explained. -/
  explained : r.Explained
  /-- What has been accepted stays accepted. -/
  accepted : known ⊆ r.accepted

section Steps

variable {sys : Platform} {known : List Range} {r : Run} {box : ℤ} {object : Range}

theorem Kept.covers (h : Kept known r) (hknown : Covers known object) : Covers r.accepted object :=
  hknown.mono h.accepted

theorem Run.Explained.kept (h : r.Explained) : Kept r.accepted r := ⟨h, List.Subset.refl _⟩

theorem Kept.trans {r' : Run} (h : Kept known r) (h' : Kept r.accepted r') : Kept known r' :=
  ⟨h'.explained, List.Subset.trans h.accepted h'.accepted⟩

theorem Kept.write (h : Kept known r) (f : Memory → Memory) : Kept known (r.write f) :=
  ⟨h.explained, h.accepted⟩

/-- The use of an object that has been accepted. -/
theorem Kept.touch (h : Kept known r) (hcovered : Covers r.accepted object) :
    Kept known (r.touch object) := by
  refine ⟨?_, h.accepted⟩
  have hvalidated : (r.touch object).Validated ↔ r.Validated := by
    simp [Run.Validated, Run.touch, or_imp, forall_and, hcovered]
  exact hvalidated.trans h.explained

/-- A step accounts for the objects that it uses. -/
theorem Kept.perform {β : Type} {operation : Operation} {f : Trace → β × Trace}
    (h : Kept known r) (hf : (f ⟨r.mem, []⟩).2.All (Covers r.accepted) ↔
      Trace.All (Covers r.accepted) ⟨r.mem, []⟩ ∧ operation.Ok (Covers r.accepted) r.mem) :
    Kept known (r.perform operation f).2 := by
  refine ⟨?_, h.accepted⟩
  have huntouched : Trace.All (Covers r.accepted) ⟨r.mem, []⟩ := by simp [Trace.All]
  have hvalidated : (r.perform operation f).2.Validated ↔
      r.Validated ∧ (f ⟨r.mem, []⟩).2.All (Covers r.accepted) := by
    simp [Run.Validated, Run.perform, Trace.All, or_imp, forall_and]
  have hcovered : (r.perform operation f).2.Covered ↔
      r.Covered ∧ operation.Ok (Covers r.accepted) r.mem := by
    simp [Run.Covered, Run.perform, or_imp, forall_and]
  rw [and_iff_right huntouched] at hf
  exact hvalidated.trans ((and_congr h.explained hf).trans hcovered.symm)

theorem Kept.tryDequeueFirst (h : Kept known r) (queue : Word) :
    Kept known (r.tryDequeueFirst box queue).2 := h.perform (tryDequeueFirst_all _ box queue)

theorem Kept.putItBack (h : Kept known r) (queue : Word) (slot : BitVec 8) :
    Kept known (r.putItBack box queue slot) := h.perform (tryEnqueue_all _ box queue slot)

theorem Kept.tryFree (h : Kept known r) (queue : Word) (slot : BitVec 8) :
    Kept known (r.tryFree box queue slot) := h.perform (tryFree_all _ box queue slot)

theorem Kept.tryDequeue (h : Kept known r) (queue : Word) (slot : BitVec 8) :
    Kept known (r.tryDequeue box queue slot).2 := h.perform (tryDequeue_all _ box queue slot)

theorem Kept.follow (h : Kept known r) (pool : Word) (slot : BitVec 8) :
    Kept known (r.perform (.follow box pool slot) (IpcMemory.follow box pool slot)).2 :=
  h.perform (follow_all _ box pool slot)

/-- A step of the walk. What it uses of the sender's request needs no further
check. -/
theorem Kept.recvMatch (h : Kept known r) {sendBox : ℤ} {sendIo : Word}
    (hsend : Covers known (ioObject sendBox sendIo)) (recvIo : Word) :
    Kept known (r.perform (.recvMatch sendBox box sendIo recvIo)
      (IpcMemory.recvMatch sendBox box sendIo recvIo)).2 := by
  refine h.perform ?_
  rw [recvMatch_all, and_iff_right (h.covers hsend)]
  exact Iff.rfl

/-- A delivery. Both requests have been accepted, and the descriptor of the
receiver. -/
theorem Kept.deliver (h : Kept known r) (sender receiver : Party) {sendIo recvIo : Word}
    (hsend : Covers r.accepted (ioObject sender.box sendIo))
    (hrecv : Covers r.accepted (ioObject receiver.box recvIo))
    (hdesc : Covers r.accepted (descObject receiver.box (ioDesc r.mem recvIo))) :
    Kept known (r.perform (.deliver sender receiver sendIo recvIo)
      (ipcDeliver sender receiver sendIo recvIo)).2 := by
  refine h.perform ?_
  rw [ipcDeliver_all ⟨r.mem, []⟩ sender receiver hsend hrecv hdesc]
  exact Iff.rfl

end Steps

/-! ## What a check leaves behind -/

section Checks

variable {sys : Platform} {known : List Range} {r : Run} {box : ℤ} {io : Word}

theorem Kept.bufferAccessIsOk (h : Kept known r) (start len : Word) :
    Kept known (r.bufferAccessIsOk sys box start len).2 := by
  unfold Run.bufferAccessIsOk
  split
  · exact ⟨h.explained, fun range hrange => List.mem_append_left _ (h.accepted hrange)⟩
  · exact h

/-- A range that is accepted is known from then on. -/
theorem bufferAccessIsOk_covers {start len : Word}
    (hok : (r.bufferAccessIsOk sys box start len).1 = true) :
    Covers (r.bufferAccessIsOk sys box start len).2.accepted ⟨box, start, len.toNat⟩ := by
  unfold Run.bufferAccessIsOk at hok ⊢
  split at hok
  · rename_i haccepted
    rw [if_pos haccepted]
    exact ⟨_, List.mem_append_right _ (List.mem_singleton_self _), Range.has_self _⟩
  · cases hok

@[simp] theorem bufferAccessIsOk_mem (start len : Word) :
    (r.bufferAccessIsOk sys box start len).2.mem = r.mem := by
  unfold Run.bufferAccessIsOk
  split <;> rfl

theorem Kept.andThen {first : Bool × Run} {second : Run → Bool × Run} (h : Kept known first.2)
    (hsecond : first.1 = true → Kept known (second first.2).2) :
    Kept known (andThen first second).2 := by
  unfold IpcAccesses.andThen
  split
  · rename_i hok
    exact hsecond hok
  · exact h

theorem andThen_ok {first : Bool × Run} {second : Run → Bool × Run}
    (hok : (andThen first second).1 = true) :
    first.1 = true ∧ andThen first second = second first.2 := by
  unfold andThen at hok ⊢
  split at hok
  · rename_i hfirst
    exact ⟨hfirst, if_pos hfirst⟩
  · rename_i hfirst
    exact absurd hok hfirst

theorem Kept.ipcIsOk (h : Kept known r) (ipc : Word) : Kept known (ipcIsOk sys box ipc r).2 := by
  unfold IpcAccesses.ipcIsOk
  split
  · exact h
  · exact h.bufferAccessIsOk _ _

theorem Kept.poolQueueIsOk (h : Kept known r) (queue : Word) :
    Kept known (poolQueueIsOk sys box queue r).2 := by
  unfold IpcAccesses.poolQueueIsOk
  split
  · exact h
  · refine (h.bufferAccessIsOk _ _).andThen fun _ => ?_
    dsimp only
    split
    · exact h.bufferAccessIsOk _ _
    · exact ((h.bufferAccessIsOk _ _).bufferAccessIsOk _ _).andThen fun _ =>
        ((h.bufferAccessIsOk _ _).bufferAccessIsOk _ _).bufferAccessIsOk _ _

theorem Kept.ipcIoArrayIsOk (h : Kept known r) (array : Word) :
    Kept known (ipcIoArrayIsOk sys box array r).2 := by
  unfold IpcAccesses.ipcIoArrayIsOk
  split
  · exact h
  · exact h.bufferAccessIsOk _ _

theorem Kept.structuresAreOk (h : Kept known r) (p : Party) (queue array : Word) :
    Kept known (structuresAreOk sys p queue array r).2 :=
  (h.ipcIsOk _).andThen fun _ =>
    ((h.ipcIsOk _).poolQueueIsOk _).andThen fun _ =>
      ((h.ipcIsOk _).poolQueueIsOk _).ipcIoArrayIsOk _

/-- The request and then its descriptor are accepted before they are read. -/
theorem Kept.ipcIoIsOk (h : Kept known r) : Kept known (ipcIoIsOk sys box io r).2 := by
  unfold IpcAccesses.ipcIoIsOk
  split
  · exact h
  · have hio : Kept known (r.bufferAccessIsOk sys box io (BitVec.ofNat 32 Ipc.ioSize)).2 :=
      h.bufferAccessIsOk _ _
    refine hio.andThen fun hok => ?_
    have hread := hio.touch (bufferAccessIsOk_covers hok)
    dsimp only
    split
    · exact hread
    · refine (hread.bufferAccessIsOk _ _).andThen fun hok => ?_
      exact ((hread.bufferAccessIsOk _ _).touch (bufferAccessIsOk_covers hok)).bufferAccessIsOk _ _

theorem accepted_subset (start len : Word) :
    r.accepted ⊆ (r.bufferAccessIsOk sys box start len).2.accepted := by
  unfold Run.bufferAccessIsOk
  split
  · exact List.subset_append_left _ _
  · exact List.Subset.refl _

/-- A use in between makes no difference. -/
theorem touch_accepted_subset (object : Range) (start len : Word) :
    r.accepted ⊆ ((r.touch object).bufferAccessIsOk sys box start len).2.accepted :=
  @accepted_subset sys (r.touch object) box start len

/-- A request that passes is known from then on, and so is its descriptor. -/
theorem ipcIoIsOk_covers (hok : (ipcIoIsOk sys box io r).1 = true) :
    (ipcIoIsOk sys box io r).2.mem = r.mem ∧
      Covers (ipcIoIsOk sys box io r).2.accepted (ioObject box io) ∧
      Covers (ipcIoIsOk sys box io r).2.accepted (descObject box (ioDesc r.mem io)) := by
  unfold ipcIoIsOk at hok ⊢
  split at hok
  · cases hok
  · rename_i hio
    obtain ⟨hfirst, hrest⟩ := andThen_ok hok
    rw [hrest] at hok
    rw [if_neg hio, hrest]
    have hcovered := bufferAccessIsOk_covers hfirst
    have hmem := @bufferAccessIsOk_mem sys r box io (BitVec.ofNat 32 Ipc.ioSize)
    dsimp only at hok ⊢
    split at hok
    · cases hok
    · rename_i hdesc
      obtain ⟨hsecond, hlast⟩ := andThen_ok hok
      rw [if_neg hdesc, hlast]
      have hdescribed := bufferAccessIsOk_covers hsecond
      refine ⟨?_, ?_, ?_⟩
      · rw [bufferAccessIsOk_mem]
        exact (bufferAccessIsOk_mem _ _).trans hmem
      · exact (hcovered.mono (touch_accepted_subset _ _ _)).mono (touch_accepted_subset _ _ _)
      · rw [← hmem]
        exact hdescribed.mono (touch_accepted_subset _ _ _)

end Checks

/-! ## What a pass leaves behind -/

section Passes

variable {sys : Platform} {known : List Range} {sender receiver : Party}
  {sendSlot recvSlot : BitVec 8} {st : DrainState}

/-- A pass of the walk. The send request has been accepted long ago. -/
theorem walkBody_kept {sendIo : Word} (hsend : Covers known (ioObject sender.box sendIo))
    (pool : Word) (w : Walk) (h : Kept known w.run) :
    Kept known (walkBody sender receiver sendIo pool w).state.run := by
  unfold walkBody
  split
  · have hmatched := @Kept.recvMatch _ _ receiver.box h _ _ hsend (receiver.recvIo w.slot)
    dsimp only
    split
    · exact hmatched.write fun mem => store8 mem (pool+15) 0
    · exact hmatched.follow _ _
  · exact h

theorem tryFindFirst_kept (fuel : ℕ) {sendIo : Word}
    (hsend : Covers known (ioObject sender.box sendIo)) {r : Run} (h : Kept known r) :
    Kept known (tryFindFirst fuel sender receiver sendIo r).2.run := by
  unfold tryFindFirst
  dsimp only
  split
  · have hwalked (pool : Word) (slot : BitVec 8) (f : Memory → Memory) :
        Kept known (attempt (walkBody sender receiver sendIo pool) fuel ⟨r.write f, slot⟩).2.run :=
      attempt_invariant (fun w : Walk => Kept known w.run) (walkBody_kept hsend pool) fuel (h.write f)
    split
    · exact (hwalked _ _ _).write fun mem =>
        store8 mem (queuePool r.mem receiver.recvQueue+15) 0
    · exact hwalked _ _ _
  · exact h

/-- After a receive request has been dequeued, it is looked at, and only then
used. -/
theorem fulfil_kept (hsend : Covers known (ioObject sender.box (sender.sendIo sendSlot)))
    (h : Kept known st.run) :
    Kept known (fulfil sys sender receiver sendSlot recvSlot st).run := by
  have hinspected : Kept known
      (ipcIoIsOk sys receiver.box (receiver.recvIo recvSlot) st.run).2 := h.ipcIoIsOk
  unfold fulfil
  dsimp only
  split
  · exact hinspected.putItBack _ _
  · rename_i hok
    obtain ⟨hmem, hrecv, hdesc⟩ := ipcIoIsOk_covers ((Bool.not_eq_false _).mp hok)
    rw [← hmem] at hdesc
    have hdelivered := hinspected.deliver sender receiver (hinspected.covers hsend) hrecv hdesc
    split
    · exact (hdelivered.putItBack _ _).putItBack _ _
    · exact (hdelivered.tryFree _ _).tryFree _ _

theorem matchReceiver_kept (fuel : ℕ)
    (hsend : Covers known (ioObject sender.box (sender.sendIo sendSlot)))
    (h : Kept known st.run) :
    Kept known (matchReceiver sys fuel sender receiver sendSlot st).state.run := by
  have hchecked : Kept known
      (structuresAreOk sys receiver receiver.recvQueue receiver.recvArray st.run).2 :=
    h.structuresAreOk _ _ _
  have hfound := @tryFindFirst_kept _ sender receiver fuel _ hsend _ hchecked
  unfold matchReceiver
  dsimp only
  split
  · exact hchecked.putItBack _ _
  · split
    · exact hfound
    · split
      · exact hfound.putItBack _ _
      · split
        · exact (hfound.tryDequeue _ _).putItBack _ _
        · rw [Pass.state]
          exact fulfil_kept hsend (hfound.tryDequeue _ _)

/-- A send request is looked at before anything else. -/
theorem offer_kept (fuel : ℕ) (h : Kept known st.run) :
    Kept known (offer sys fuel sender sendSlot st).state.run := by
  have hinspected : Kept known
      (ipcIoIsOk sys sender.box (sender.sendIo sendSlot) st.run).2 := h.ipcIoIsOk
  unfold offer
  dsimp only
  split
  · exact hinspected
  · rename_i hok
    obtain ⟨hmem, hsend, hdesc⟩ := ipcIoIsOk_covers ((Bool.not_eq_false _).mp hok)
    rw [← hmem] at hdesc
    have hread := hinspected.touch hsend
    split
    · exact hread.putItBack _ _
    · have hdescribed := hread.touch hdesc
      split
      · exact hdescribed
      · exact hdescribed.trans (matchReceiver_kept fuel hsend hdescribed.explained.kept)

/-- A pass over send requests. -/
theorem ipcDrainBody_kept (fuel : ℕ) (st : DrainState) (h : Kept known st.run) :
    Kept known (ipcDrainBody sys fuel sender st).state.run := by
  have hdequeued : Kept known (st.run.tryDequeueFirst sender.box sender.sendQueue).2 :=
    h.tryDequeueFirst _
  unfold ipcDrainBody
  dsimp only
  split
  · exact hdequeued
  · split
    · exact offer_kept fuel hdequeued
    · split
      · exact hdequeued.putItBack _ _
      · exact offer_kept fuel hdequeued

end Passes

/-! ## The whole drain -/

section Drain

variable (sys : Platform) (mem : Memory)

/-- Whatever the drain uses, it has been accepted before. -/
def AccessesValidated : Prop := ∀ fuel, (ipcDrainQueue sys fuel mem).Validated

/-- In every step that the drain takes, the entries of the queue, the receive
request and its descriptor, or the descriptor of the sender and both buffers have
been accepted. -/
def StepsCovered : Prop := ∀ fuel, (ipcDrainQueue sys fuel mem).Covered

theorem ipcDrainQueue_explained (fuel : ℕ) : (ipcDrainQueue sys fuel mem).Explained := by
  have hstart : Kept [] ⟨mem, [], [], []⟩ :=
    ⟨by simp [Run.Explained, Run.Validated, Run.Covered], List.nil_subset _⟩
  have hchecked (p : Party) : Kept []
      (structuresAreOk sys p p.sendQueue p.sendArray ⟨mem, [], [], []⟩).2 :=
    hstart.structuresAreOk _ _ _
  unfold ipcDrainQueue
  dsimp only
  split
  · exact (hchecked _).explained
  · have hdrained (sender : Party) {r : Run} (hr : Kept [] r) (firstSlot : ℤ) :
        Kept [] (attempt (ipcDrainBody sys fuel sender) fuel ⟨r, firstSlot⟩).2.run :=
      attempt_invariant (fun st : DrainState => Kept [] st.run) (ipcDrainBody_kept fuel) fuel hr
    exact (hdrained _ (hchecked _) _).explained

instance (r : Run) : Decidable r.Validated :=
  inferInstanceAs (Decidable (∀ a ∈ r.accesses, Covers a.accepted a.object))

/-- Two boxes with 4 KiB of memory each. -/
def twoBoxes : Platform where
  boxCount := 2
  activeBox := 0
  bss box := if box = 0 then 0x20001000 else 0x20002000
  bufferAccessIsOk box start len :=
    let bss : ℕ := if box = 0 then 0x20001000 else 0x20002000
    bss ≤ start.toNat && start.toNat+len.toNat ≤ bss+0x1000

/-- Box 0 has queued a send request for box 1, and box 1 a receive request for it
that is in a given state. Everything is where the initialization of the boxes has
put it. -/
def queuedPair (recvState : Word) : Memory := fun address =>
  if address < 0x20001100 then wordsAt 0x20001000 [0, 0, 0, 0, 0x20001100] address
  else if address < 0x20001800 then
    wordsAt 0x20001100 [BitVec.ofNat 32 PoolQueue.poolQueueMagic, 0, 0x2000110C,
      BitVec.ofNat 32 PoolQueue.poolMagic, 0x2000113C, 12, 0x00FF0110, 0xFFFF, 0, 0, 0, 0, 0, 0, 0,
      0x20001800, 0x20001900, 2] address
  else if address < 0x20002000 then wordsAt 0x20001800 [1, 5, 4, 1] address
  else if address < 0x200021FC then wordsAt 0x20002000 [0, 0, 0, 0, 0x20002100] address
  else if address < 0x20002800 then
    wordsAt 0x200021FC [BitVec.ofNat 32 PoolQueue.poolQueueMagic, 0, 0x20002208,
      BitVec.ofNat 32 PoolQueue.poolMagic, 0x20002238, 12, 0x00FF0110, 0xFFFF, 0, 0, 0, 0, 0, 0, 0,
      0x20002800, 0x20002900, recvState] address
  else wordsAt 0x20002800 [255, 5, 16, 1] address

/-- That of a request that is not ready is not read. -/
example : (ipcDrainQueue twoBoxes 3 (queuedPair 1)).Validated := by decide +kernel

end Drain

end Uvisor.IpcAccesses
