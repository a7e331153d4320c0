import Uvisor.Ipc
import Uvisor.PoolOperations
import Uvisor.QueueRotation

/-!
# When draining the IPC send queue ends

A pass of the drain is a pass of a rotation that forgets the remembered slot
when it delivers it. What becomes of a send request depends only on the
descriptors and on the receive requests still queued. The two drop paths do
not forget the slot; a dropped first request therefore leaves the loop without
a stop as long as another request stays in the queue.
-/

namespace Uvisor.IpcTermination

open PoolQueue PoolInvariant PoolOperations Ipc Execution QueueRotation

/-! ## Description of the queues -/

/-- Lists that describe the pools of one box. -/
structure BoxLists where
  /-- Free send slots. -/
  sendFree : List ℕ
  /-- Send requests in queue order. -/
  send : List ℕ
  /-- Free receive slots. -/
  recvFree : List ℕ
  /-- Receive requests in queue order. -/
  recv : List ℕ

/-- The pools of a box are well formed, and nobody holds its locks. -/
structure DescribesBox (ipc : BoxIpc) (d : BoxLists) : Prop where
  /-- The send pool and its queue. -/
  send : Represents ipc.sendQueue d.sendFree (fun _ => d.send)
  /-- The receive pool and its queue. -/
  recv : Represents ipc.recvQueue d.recvFree (fun _ => d.recv)
  /-- The send lock is free. -/
  send_lock : ipc.sendQueue.pool.spinlock = false
  /-- The receive lock is free. -/
  recv_lock : ipc.recvQueue.pool.spinlock = false
  /-- The token lock is free. -/
  tokens_lock : ipc.tokensLock = false

/-- Every box of the system is described. -/
def Describes (sys : Platform) (mem : Memory) (d : ℕ → BoxLists) : Prop :=
  ∀ b < sys.boxCount, DescribesBox (mem.box b) (d b)

/-- The requests and the headers of the receive queues are the same. -/
def SameRequests (mem mem' : Memory) : Prop :=
  ∀ b, (mem'.box b).sendIo = (mem.box b).sendIo ∧ (mem'.box b).recvIo = (mem.box b).recvIo ∧
    header (mem'.box b).recvQueue = header (mem.box b).recvQueue

section Writes

variable {sys : Platform} {mem mem₀ : Memory} {d : ℕ → BoxLists}

/-- Replacing the state of one box by a described one. -/
theorem Describes.setBox (h : Describes sys mem d) {b : ℕ} {ipc : BoxIpc} {l : BoxLists}
    (hb : DescribesBox ipc l) : Describes sys (mem.setBox b ipc) (Function.update d b l) := by
  intro c hc
  by_cases hcb : c = b
  · subst hcb
    simpa [Memory.setBox] using hb
  · simpa [Memory.setBox, hcb] using h c hc

theorem SameRequests.setBox (h : SameRequests mem₀ mem) {b : ℕ} {ipc : BoxIpc}
    (hsend : ipc.sendIo = (mem.box b).sendIo) (hrecv : ipc.recvIo = (mem.box b).recvIo)
    (hheader : header ipc.recvQueue = header (mem.box b).recvQueue) :
    SameRequests mem₀ (mem.setBox b ipc) := by
  intro c
  by_cases hcb : c = b
  · subst hcb
    simpa [Memory.setBox, hsend, hrecv, hheader] using h c
  · simpa [Memory.setBox, hcb] using h c

/-- A send request has been dequeued, and its fate is still open. -/
structure Carrying (sys : Platform) (mem₀ mem : Memory) (d : ℕ → BoxLists) (sendBox slot : ℕ) :
    Prop where
  /-- The queues without the request. -/
  describes : Describes sys mem d
  /-- The request's slot is held. -/
  held : Held (mem.box sendBox).sendQueue (d sendBox).sendFree (fun _ => (d sendBox).send) slot
  /-- Nothing else has been rewritten. -/
  same : SameRequests mem₀ mem

variable {sendBox slot : ℕ}

/-- The first request of the send queue is taken out. -/
theorem dequeue_carrying (h : Describes sys mem d) (hb : sendBox < sys.boxCount)
    (hsame : SameRequests mem₀ mem) {rest : List ℕ} (hq : (d sendBox).send = slot :: rest) :
    (uvisorPoolQueueTryDequeueFirst (mem.box sendBox).sendQueue ()).1 = slot ∧
      slot < (mem.box sendBox).sendQueue.pool.num ∧
      Carrying sys mem₀
        (mem.setSendQueue sendBox
          (uvisorPoolQueueTryDequeueFirst (mem.box sendBox).sendQueue ()).2)
        (Function.update d sendBox {d sendBox with send := rest}) sendBox slot := by
  have hbox := h sendBox hb
  obtain ⟨hslot, hr, hh⟩ := tryDequeueFirst_cons hbox.send hbox.send_lock (q := ()) hq
  rw [update_unit] at hr hh
  refine ⟨hslot, hbox.send.lists_lt () slot (by simp [hq]), ?_, ?_, ?_⟩
  · exact h.setBox ⟨hr, hbox.recv, by simp [hbox.send_lock], hbox.recv_lock, hbox.tokens_lock⟩
  · simpa [Memory.setSendQueue, Memory.setBox] using hh
  · exact hsame.setBox rfl rfl rfl

/-- A request put back is the last one of its queue. -/
theorem Carrying.putSendBack (h : Carrying sys mem₀ mem d sendBox slot)
    (hb : sendBox < sys.boxCount) :
    Describes sys (putSendBack mem sendBox slot)
        (Function.update d sendBox {d sendBox with send := (d sendBox).send ++ [slot]}) ∧
      SameRequests mem₀ (Ipc.putSendBack mem sendBox slot) := by
  have hbox := h.describes sendBox hb
  have hr := (tryEnqueue_held hbox.send hbox.send_lock () h.held).2
  rw [update_unit] at hr
  refine ⟨?_, h.same.setBox rfl rfl rfl⟩
  exact h.describes.setBox
    ⟨hr, hbox.recv, by simp [hbox.send_lock], hbox.recv_lock, hbox.tokens_lock⟩

/-- Rewriting the receive queue of a box keeps the request carried. -/
theorem Carrying.setRecvQueue (h : Carrying sys mem₀ mem d sendBox slot) {c : ℕ}
    (hc : c < sys.boxCount) {q : PoolQueues Unit} {free recv : List ℕ}
    (hr : Represents q free (fun _ => recv)) (hlock : q.pool.spinlock = false)
    (hheader : header q = header (mem.box c).recvQueue) :
    Carrying sys mem₀ (mem.setRecvQueue c q)
      (Function.update d c {d c with recvFree := free, recv := recv}) sendBox slot := by
  have hbox := h.describes c hc
  refine ⟨?_, ?_, h.same.setBox rfl rfl hheader⟩
  · exact h.describes.setBox ⟨hbox.send, hr, hbox.send_lock, hlock, hbox.tokens_lock⟩
  · by_cases hcb : sendBox = c
    · subst hcb
      simpa [Memory.setRecvQueue, Memory.setBox] using h.held
    · simpa [Memory.setRecvQueue, Memory.setBox, hcb] using h.held

/-- Two states of a box differ in their token sets at most. -/
structure SameQueues (ipc ipc' : BoxIpc) : Prop where
  /-- The send queue is the same. -/
  sendQueue : ipc'.sendQueue = ipc.sendQueue
  /-- The send requests are the same. -/
  sendIo : ipc'.sendIo = ipc.sendIo
  /-- The receive queue is the same. -/
  recvQueue : ipc'.recvQueue = ipc.recvQueue
  /-- The receive requests are the same. -/
  recvIo : ipc'.recvIo = ipc.recvIo
  /-- The token lock is the same. -/
  tokensLock : ipc'.tokensLock = ipc.tokensLock

/-- With both locks free a delivery succeeds. It rewrites one descriptor and
the completed tokens, and releases what it acquired. -/
theorem ipcDeliver_spec {recvBox : ℕ} (sendIo recvIo : Io)
    (hsend : (mem.box sendBox).tokensLock = false) (hrecv : (mem.box recvBox).tokensLock = false) :
    (ipcDeliver sendBox recvBox sendIo recvIo mem).1 = 0 ∧
      (ipcDeliver sendBox recvBox sendIo recvIo mem).2.desc =
        Function.update mem.desc recvIo.desc {mem.desc recvIo.desc with
          boxId := sendBox, len := (mem.desc sendIo.desc).len} ∧
      ∀ b, SameQueues (mem.box b) ((ipcDeliver sendBox recvBox sendIo recvIo mem).2.box b) := by
  by_cases hbox : recvBox = sendBox
  · subst hbox
    simp only [ipcDeliver, uvisorSpinTrylock, hsend, if_true, Bool.true_eq_false, if_false, ne_eq,
      not_true_eq_false, false_and]
    refine ⟨trivial, rfl, fun b => ?_⟩
    by_cases hb : b = recvBox
    · subst hb
      constructor <;> simp [Memory.setTokensLock, Memory.setBox, transfer, Memory.completeToken,
        uvisorSpinUnlock, hsend]
    · constructor <;> simp [Memory.setTokensLock, Memory.setBox, transfer, Memory.completeToken, hb]
  · have hlock : ((mem.setTokensLock sendBox true).box recvBox).tokensLock = false := by
      simpa [Memory.setTokensLock, Memory.setBox, hbox] using hrecv
    simp only [ipcDeliver, uvisorSpinTrylock, hsend, hlock, if_true, Bool.true_eq_false, if_false,
      ne_eq, hbox, not_false_eq_true, and_false]
    refine ⟨trivial, rfl, fun b => ?_⟩
    by_cases hs : b = sendBox
    · subst hs
      constructor <;> simp [Memory.setTokensLock, Memory.setBox, transfer, Memory.completeToken,
        uvisorSpinUnlock, hsend, Ne.symm hbox]
    · by_cases hr : b = recvBox
      · subst hr
        constructor <;> simp [Memory.setTokensLock, Memory.setBox, transfer, Memory.completeToken,
          uvisorSpinUnlock, hrecv, hbox]
      · constructor <;> simp [Memory.setTokensLock, Memory.setBox, transfer, Memory.completeToken,
          hs, hr]

/-- Rewriting tokens, descriptors and buffers keeps the request carried. -/
theorem Carrying.tokens (h : Carrying sys mem₀ mem d sendBox slot) {mem' : Memory}
    (hbox : ∀ b, SameQueues (mem.box b) (mem'.box b)) : Carrying sys mem₀ mem' d sendBox slot := by
  refine ⟨fun b hb => ?_, ?_, fun b => ?_⟩
  · have hold := h.describes b hb
    constructor
    · rw [(hbox b).sendQueue]
      exact hold.send
    · rw [(hbox b).recvQueue]
      exact hold.recv
    · rw [(hbox b).sendQueue]
      exact hold.send_lock
    · rw [(hbox b).recvQueue]
      exact hold.recv_lock
    · rw [(hbox b).tokensLock]
      exact hold.tokens_lock
  · rw [(hbox sendBox).sendQueue]
    exact h.held
  · rw [(hbox b).sendIo, (hbox b).recvIo, (hbox b).recvQueue]
    exact h.same b

/-- The slot of a completed send request returns to its pool. -/
theorem Carrying.freeSend (h : Carrying sys mem₀ mem d sendBox slot) (hb : sendBox < sys.boxCount) :
    Describes sys
        (mem.setSendQueue sendBox (uvisorPoolTryFree (mem.box sendBox).sendQueue slot).2)
        (Function.update d sendBox {d sendBox with sendFree := slot :: (d sendBox).sendFree}) ∧
      SameRequests mem₀
        (mem.setSendQueue sendBox (uvisorPoolTryFree (mem.box sendBox).sendQueue slot).2) := by
  have hbox := h.describes sendBox hb
  obtain ⟨-, hr⟩ := tryFree_held hbox.send hbox.send_lock h.held
  refine ⟨?_, h.same.setBox rfl rfl rfl⟩
  exact h.describes.setBox
    ⟨hr, hbox.recv, by simp [hbox.send_lock], hbox.recv_lock, hbox.tokens_lock⟩

/-- The slot of a completed receive request returns to its pool. -/
theorem Describes.freeRecv (h : Describes sys mem d) {c recvSlot : ℕ} (hc : c < sys.boxCount)
    (hheld : Held (mem.box c).recvQueue (d c).recvFree (fun _ => (d c).recv) recvSlot) :
    Describes sys (mem.setRecvQueue c (uvisorPoolTryFree (mem.box c).recvQueue recvSlot).2)
      (Function.update d c {d c with recvFree := recvSlot :: (d c).recvFree}) := by
  have hbox := h c hc
  obtain ⟨-, hr⟩ := tryFree_held hbox.recv hbox.recv_lock hheld
  exact h.setBox ⟨hbox.send, hr, hbox.send_lock, by simp [hbox.recv_lock], hbox.tokens_lock⟩

/-- The requests in the queues of two descriptions are the same. -/
def SameLists (d d' : ℕ → BoxLists) : Prop :=
  ∀ b, (d' b).send = (d b).send ∧ (d' b).recv = (d b).recv

theorem SameLists.update (d : ℕ → BoxLists) (b : ℕ) {l : BoxLists} (hsend : l.send = (d b).send)
    (hrecv : l.recv = (d b).recv) : SameLists d (Function.update d b l) := by
  intro c
  by_cases hcb : c = b
  · subst hcb
    simp [hsend, hrecv]
  · simp [hcb]

/-- Freeing a completed pair changes no queue. -/
theorem Carrying.freePair (h : Carrying sys mem₀ mem d sendBox slot) {c recvSlot : ℕ}
    (hb : sendBox < sys.boxCount) (hc : c < sys.boxCount)
    (hheld : Held (mem.box c).recvQueue (d c).recvFree (fun _ => (d c).recv) recvSlot) :
    ∃ d', Describes sys (freePair sendBox slot c recvSlot mem) d' ∧
      SameRequests mem₀ (Ipc.freePair sendBox slot c recvSlot mem) ∧ SameLists d d' := by
  obtain ⟨hsent, hsame⟩ := h.freeSend hb
  have hheld' : Held ((mem.setSendQueue sendBox
      (uvisorPoolTryFree (mem.box sendBox).sendQueue slot).2).box c).recvQueue
      (Function.update d sendBox {d sendBox with sendFree := slot :: (d sendBox).sendFree} c).recvFree
      (fun _ => (Function.update d sendBox
        {d sendBox with sendFree := slot :: (d sendBox).sendFree} c).recv) recvSlot := by
    by_cases hcs : c = sendBox
    · subst hcs
      simpa [Memory.setSendQueue, Memory.setBox] using hheld
    · simpa [Memory.setSendQueue, Memory.setBox, hcs] using hheld
  have hlists := SameLists.update d sendBox
    (l := {d sendBox with sendFree := slot :: (d sendBox).sendFree}) rfl rfl
  refine ⟨_, hsent.freeRecv hc hheld', hsame.setBox rfl rfl (by simp), fun b => ?_⟩
  have hlists' := SameLists.update (Function.update d sendBox
    {d sendBox with sendFree := slot :: (d sendBox).sendFree}) c
    (l := {Function.update d sendBox {d sendBox with sendFree := slot :: (d sendBox).sendFree} c with
      recvFree := recvSlot :: (Function.update d sendBox
        {d sendBox with sendFree := slot :: (d sendBox).sendFree} c).recvFree}) rfl rfl
  exact ⟨(hlists' b).1.trans (hlists b).1, (hlists' b).2.trans (hlists b).2⟩

end Writes

/-! ## The fate of a send request -/

/-- What the fate of send requests depends on. -/
structure World where
  /-- Receive requests still queued in each box. -/
  recv : ℕ → List ℕ
  /-- Descriptors by address. -/
  desc : ℕ → Desc

/-- Whether a receive request of a box takes the message of a send request. -/
def accepts (mem : Memory) (sendBox slot recvBox : ℕ) (desc : ℕ → Desc) (recvSlot : ℕ) : Bool :=
  let recvIo := (mem.box recvBox).recvIo recvSlot
  recvMatch sendBox (desc ((mem.box sendBox).sendIo slot).desc) (desc recvIo.desc) recvIo.state

/-- A receive request that is not the receiver's own does not take the
message; any other one does. -/
def take (sys : Platform) (mem : Memory) (sendBox slot recvBox recvSlot : ℕ) (w : World) :
    Fate × World :=
  let recvIo := (mem.box recvBox).recvIo recvSlot
  if ipcIoIsOk sys recvBox (recvIoAddress sys recvBox recvSlot) recvIo w.desc = false then (.kept, w)
  else
    (.delivered, ⟨w.recv, Function.update w.desc recvIo.desc {w.desc recvIo.desc with
      boxId := sendBox, len := (w.desc ((mem.box sendBox).sendIo slot).desc).len}⟩)

/-- A request with a good receiver is offered to the first receive request
that matches it, which is used up in any case. -/
def receive (sys : Platform) (mem : Memory) (sendBox slot recvBox : ℕ) (w : World) :
    Fate × World :=
  match (w.recv recvBox).find? (accepts mem sendBox slot recvBox w.desc) with
  | none => (.kept, w)
  | some recvSlot =>
    take sys mem sendBox slot recvBox recvSlot
      ⟨Function.update w.recv recvBox ((w.recv recvBox).erase recvSlot), w.desc⟩

/-- A request that is not the sender's own or goes to no known box is dropped;
one that is not ready, or whose receiver is not in order, is kept. -/
def handle (sys : Platform) (mem : Memory) (sendBox : ℕ) (w : World) (slot : ℕ) : Fate × World :=
  let sendIo := (mem.box sendBox).sendIo slot
  let recvBox := (w.desc sendIo.desc).boxId
  if ipcIoIsOk sys sendBox (sendIoAddress sys sendBox slot) sendIo w.desc = false then (.dropped, w)
  else if sendIo.state ≠ .readyToSend then (.kept, w)
  else if recvBox < 0 ∨ (sys.boxCount : ℤ) ≤ recvBox then (.dropped, w)
  else if receiverIsOk sys recvBox.toNat (mem.box recvBox.toNat).recvQueue = false then (.kept, w)
  else receive sys mem sendBox slot recvBox.toNat w

/-! ## Passes as rotations -/

section Passes

variable {sys : Platform} {mem mem₀ : Memory} {d : ℕ → BoxLists} {sendBox slot : ℕ}

/-- Memory that corresponds to a queue of send requests and a world. -/
def Shows (sys : Platform) (mem₀ : Memory) (sendBox : ℕ) (mem : Memory) (queue : List ℕ)
    (w : World) : Prop :=
  ∃ d, Describes sys mem d ∧ SameRequests mem₀ mem ∧ queue = (d sendBox).send ∧
    (∀ c < sys.boxCount, w.recv c = (d c).recv) ∧ w.desc = mem.desc

/-- The send queue after a request has met its fate. -/
def queueAfter (rest : List ℕ) (slot : ℕ) : Fate → List ℕ
  | .kept => rest ++ [slot]
  | .delivered | .dropped => rest

/-- The first slot after a request has met its fate. -/
def firstAfter (firstSlot : ℤ) (slot : ℕ) : Fate → ℤ
  | .delivered => if firstSlot = slot then -1 else firstSlot
  | .kept | .dropped => firstSlot

/-- A request put back stays last in the queue and changes nothing else. -/
theorem Carrying.shows_kept (h : Carrying sys mem₀ mem d sendBox slot) (hb : sendBox < sys.boxCount)
    {w : World} (hw : ∀ c < sys.boxCount, w.recv c = (d c).recv) (hdesc : w.desc = mem.desc) :
    Shows sys mem₀ sendBox (Ipc.putSendBack mem sendBox slot) ((d sendBox).send ++ [slot]) w := by
  obtain ⟨hd, hsame⟩ := h.putSendBack hb
  refine ⟨_, hd, hsame, by simp, fun c hc => ?_, hdesc⟩
  by_cases hcb : c = sendBox
  · subst hcb
    simpa using hw c hc
  · simpa [hcb] using hw c hc

/-- The part of a pass after a receive request has been dequeued. -/
theorem fulfil_spec (h : Carrying sys mem₀ mem d sendBox slot) (hb : sendBox < sys.boxCount)
    {recvBox recvSlot : ℕ} (hc : recvBox < sys.boxCount)
    (hheld : Held (mem.box recvBox).recvQueue (d recvBox).recvFree (fun _ => (d recvBox).recv)
      recvSlot) {w : World} (hw : ∀ c < sys.boxCount, w.recv c = (d c).recv)
    (hdesc : w.desc = mem.desc) (firstSlot : ℤ) :
    ∃ mem', fulfil sys sendBox slot recvBox recvSlot firstSlot mem =
        ⟨mem', firstAfter firstSlot slot (take sys mem₀ sendBox slot recvBox recvSlot w).1⟩ ∧
      Shows sys mem₀ sendBox mem'
        (queueAfter (d sendBox).send slot (take sys mem₀ sendBox slot recvBox recvSlot w).1)
        (take sys mem₀ sendBox slot recvBox recvSlot w).2 := by
  obtain ⟨hstatus, hnew, hqueues⟩ := ipcDeliver_spec ((mem₀.box sendBox).sendIo slot)
    ((mem₀.box recvBox).recvIo recvSlot) (h.describes sendBox hb).tokens_lock
    (h.describes recvBox hc).tokens_lock
  unfold fulfil take
  rw [(h.same sendBox).1, (h.same recvBox).2.1, hdesc]
  dsimp only
  by_cases hok : ipcIoIsOk sys recvBox (recvIoAddress sys recvBox recvSlot)
      ((mem₀.box recvBox).recvIo recvSlot) mem.desc = false
  · rw [if_pos hok, if_pos hok]
    exact ⟨_, rfl, h.shows_kept hb hw hdesc⟩
  · rw [if_neg hok, if_neg hok, if_neg (not_not.mpr hstatus)]
    obtain ⟨d', hd', hsame, hlists⟩ := (h.tokens hqueues).freePair hb hc
      ((hqueues recvBox).recvQueue ▸ hheld)
    exact ⟨_, rfl, d', hd', hsame, (hlists sendBox).1.symm,
      fun c hcc => (hw c hcc).trans (hlists c).2.symm, hnew.symm⟩

/-- The part of a pass that looks for a receive request. -/
theorem matchReceiver_spec (h : Carrying sys mem₀ mem d sendBox slot) (hb : sendBox < sys.boxCount)
    {recvBox : ℕ} (hc : recvBox < sys.boxCount) {w : World}
    (hw : ∀ c < sys.boxCount, w.recv c = (d c).recv) (hdesc : w.desc = mem.desc) (firstSlot : ℤ)
    (hok : receiverIsOk sys recvBox (mem.box recvBox).recvQueue = true) :
    ∃ mem', matchReceiver sys sendBox slot recvBox firstSlot mem =
        .next ⟨mem', firstAfter firstSlot slot (receive sys mem₀ sendBox slot recvBox w).1⟩ ∧
      Shows sys mem₀ sendBox mem'
        (queueAfter (d sendBox).send slot (receive sys mem₀ sendBox slot recvBox w).1)
        (receive sys mem₀ sendBox slot recvBox w).2 := by
  have hbox := h.describes recvBox hc
  have hquery : (fun s => recvMatch sendBox (mem.desc ((mem.box sendBox).sendIo slot).desc)
      (mem.desc ((mem.box recvBox).recvIo s).desc) ((mem.box recvBox).recvIo s).state) =
      accepts mem₀ sendBox slot recvBox w.desc := by
    funext s
    rw [accepts, hdesc, (h.same sendBox).1, (h.same recvBox).2.1]
  have hfind := tryFindFirst_spec hbox.recv hbox.recv_lock ()
    (accepts mem₀ sendBox slot recvBox w.desc)
  have hself : mem.setRecvQueue recvBox (mem.box recvBox).recvQueue = mem := by
    simp [Memory.setRecvQueue, Memory.setBox]
  unfold matchReceiver
  simp only [hok, Bool.true_eq_false, if_false, hquery, hfind, hself]
  unfold receive
  rw [hw recvBox hc]
  cases hf : (d recvBox).recv.find? (accepts mem₀ sendBox slot recvBox w.desc) with
  | none =>
    have hnum := hbox.recv.num_lt
    have hge : (mem.box recvBox).recvQueue.pool.num ≤ slotInvalid := by
      simp only [poolMaxValid, slotInvalid] at hnum ⊢
      omega
    simp only [Option.getD_none, if_pos hge]
    exact ⟨_, rfl, h.shows_kept hb hw hdesc⟩
  | some recvSlot =>
    have hmem : recvSlot ∈ (d recvBox).recv := List.mem_of_find?_eq_some hf
    have hlt : ¬(mem.box recvBox).recvQueue.pool.num ≤ recvSlot :=
      Nat.not_le.mpr (hbox.recv.lists_lt () recvSlot hmem)
    obtain ⟨hslot, hr, hh⟩ := tryDequeue_mem hbox.recv hbox.recv_lock (q := ()) hmem
    rw [update_unit] at hr hh
    have hcarry := h.setRecvQueue hc hr (by simp [hbox.recv_lock]) (by simp)
    obtain ⟨mem', hstep, hshows⟩ := fulfil_spec hcarry hb hc
      (by simpa [Memory.setRecvQueue, Memory.setBox] using hh : Held _ _ _ recvSlot)
      (w := ⟨Function.update w.recv recvBox ((w.recv recvBox).erase recvSlot), w.desc⟩)
      (fun c hcc => by
        by_cases hcr : c = recvBox
        · subst hcr
          simp [hw c hcc]
        · simp [hcr, hw c hcc]) hdesc firstSlot
    have hsend : (Function.update d recvBox {d recvBox with
        recv := (d recvBox).recv.erase recvSlot} sendBox).send = (d sendBox).send := by
      by_cases hbr : sendBox = recvBox
      · subst hbr
        simp
      · simp [hbr]
    rw [hsend, hw recvBox hc] at hshows
    rw [hw recvBox hc] at hstep
    simp only [Option.getD_some, if_neg hlt, hslot, hstep]
    exact ⟨mem', rfl, hshows⟩

/-- The checks on a receiver only read header fields. -/
theorem receiverIsOk_congr (sys : Platform) (box : ℕ) {m m' : PoolQueues Unit}
    (h : header m' = header m) :
    receiverIsOk sys box m' = receiverIsOk sys box m := by
  have hq := congrFun h ()
  have hpool : (m'.queue ()).pool = (m.queue ()).pool := congrArg Header.pool hq
  have harray : m'.pool.array = m.pool.array := congrArg Header.array hq
  have hstride : m'.pool.stride = m.pool.stride := congrArg Header.stride hq
  have hnum : m'.pool.num = m.pool.num := congrArg Header.num hq
  rw [receiverIsOk, receiverIsOk, poolQueueIsOk, poolQueueIsOk, hpool, harray, hstride, hnum]

/-- The part of a pass after a send request has been dequeued. -/
theorem offer_spec (h : Carrying sys mem₀ mem d sendBox slot) (hb : sendBox < sys.boxCount)
    {w : World} (hw : ∀ c < sys.boxCount, w.recv c = (d c).recv) (hdesc : w.desc = mem.desc)
    (firstSlot : ℤ) :
    ∃ mem', offer sys sendBox slot firstSlot mem =
        .next ⟨mem', firstAfter firstSlot slot (handle sys mem₀ sendBox w slot).1⟩ ∧
      Shows sys mem₀ sendBox mem'
        (queueAfter (d sendBox).send slot (handle sys mem₀ sendBox w slot).1)
        (handle sys mem₀ sendBox w slot).2 := by
  have hdropped : Shows sys mem₀ sendBox mem (d sendBox).send w :=
    ⟨d, h.describes, h.same, rfl, hw, hdesc⟩
  have hkept := h.shows_kept hb hw hdesc
  unfold offer handle
  rw [(h.same sendBox).1, ← hdesc]
  dsimp only
  by_cases hio : ipcIoIsOk sys sendBox (sendIoAddress sys sendBox slot)
      ((mem₀.box sendBox).sendIo slot) w.desc = false
  · rw [if_pos hio, if_pos hio]
    exact ⟨_, rfl, hdropped⟩
  rw [if_neg hio, if_neg hio]
  by_cases hstate : ((mem₀.box sendBox).sendIo slot).state ≠ .readyToSend
  · rw [if_pos hstate, if_pos hstate]
    exact ⟨_, rfl, hkept⟩
  rw [if_neg hstate, if_neg hstate]
  set recvBox := (w.desc ((mem₀.box sendBox).sendIo slot).desc).boxId
  by_cases hknown : recvBox < 0 ∨ (sys.boxCount : ℤ) ≤ recvBox
  · rw [if_pos hknown, if_pos hknown]
    exact ⟨_, rfl, hdropped⟩
  rw [if_neg hknown, if_neg hknown]
  have hc : recvBox.toNat < sys.boxCount := by omega
  have hsame := receiverIsOk_congr sys recvBox.toNat (h.same recvBox.toNat).2.2
  cases hok : receiverIsOk sys recvBox.toNat (mem₀.box recvBox.toNat).recvQueue with
  | false =>
    rw [hok] at hsame
    rw [if_pos rfl, matchReceiver]
    dsimp only
    rw [if_pos hsame]
    exact ⟨_, rfl, hkept⟩
  | true =>
    rw [hok] at hsame
    rw [if_neg (by simp)]
    exact matchReceiver_spec h hb hc hw hdesc firstSlot hsame

/-- The remembered slot as the loop stores it. -/
def firstSlotOf : Option ℕ → ℤ
  | none => -1
  | some slot => slot

/-- A state of the drain seen as a state of the rotation. -/
def Rotates (sys : Platform) (mem₀ : Memory) (sendBox : ℕ) (st : DrainState) (rot : State ℕ World) :
    Prop :=
  Shows sys mem₀ sendBox st.mem rot.queue rot.world ∧ st.firstSlot = firstSlotOf rot.first

theorem firstSlotOf_eq_iff (first : Option ℕ) (slot : ℕ) :
    firstSlotOf first = slot ↔ first = some slot := by
  cases first with
  | none => simp [firstSlotOf]
  | some f =>
    rw [firstSlotOf, Option.some.injEq]
    omega

/-- A pass that gets no slot breaks and changes nothing. -/
theorem ipcDrainBody_invalid (hnum : (mem.box sendBox).sendQueue.pool.num < poolMaxValid)
    (hnone : uvisorPoolQueueTryDequeueFirst (mem.box sendBox).sendQueue () =
      (slotInvalid, (mem.box sendBox).sendQueue)) (firstSlot : ℤ) :
    ipcDrainBody sys sendBox ⟨mem, firstSlot⟩ = .stop ⟨mem, firstSlot⟩ := by
  have hge : (mem.box sendBox).sendQueue.pool.num ≤ slotInvalid := by
    simp only [poolMaxValid, slotInvalid] at hnum ⊢
    omega
  have hself : mem.setSendQueue sendBox (mem.box sendBox).sendQueue = mem := by
    simp [Memory.setSendQueue, Memory.setBox]
  simp only [ipcDrainBody, hnone, if_pos hge, hself]

/-- A pass over an empty send queue breaks. -/
theorem pass_empty (h : Describes sys mem d) (hb : sendBox < sys.boxCount)
    (hq : (d sendBox).send = []) (firstSlot : ℤ) :
    ipcDrainBody sys sendBox ⟨mem, firstSlot⟩ = .stop ⟨mem, firstSlot⟩ := by
  have hbox := h sendBox hb
  have hnil := tryDequeueFirst_nil hbox.send hbox.send_lock (q := ()) hq
  exact ipcDrainBody_invalid hbox.send.num_lt hnil firstSlot

/-- A pass takes the first request out, and stops if it is the remembered
one. -/
theorem pass_cons (h : Describes sys mem d) (hb : sendBox < sys.boxCount)
    (hsame : SameRequests mem₀ mem) {rest : List ℕ} (hq : (d sendBox).send = slot :: rest)
    (first : Option ℕ) :
    ∃ mem₁, mem₁.desc = mem.desc ∧
      Carrying sys mem₀ mem₁ (Function.update d sendBox {d sendBox with send := rest}) sendBox slot ∧
      ipcDrainBody sys sendBox ⟨mem, firstSlotOf first⟩ =
        if first = some slot then .stop ⟨putSendBack mem₁ sendBox slot, firstSlotOf first⟩
        else offer sys sendBox slot (firstSlotOf (some (first.getD slot))) mem₁ := by
  obtain ⟨hslot, hlt, hcarry⟩ := dequeue_carrying h hb hsame hq
  refine ⟨mem.setSendQueue sendBox (uvisorPoolQueueTryDequeueFirst (mem.box sendBox).sendQueue ()).2,
    rfl, hcarry, ?_⟩
  unfold ipcDrainBody
  dsimp only
  rw [hslot, if_neg (Nat.not_le.mpr hlt)]
  cases first with
  | none =>
    have hnone : firstSlotOf none = -1 := rfl
    rw [if_pos hnone, if_neg (by simp)]
    rfl
  | some f =>
    have hf : ¬firstSlotOf (some f) = -1 := by
      simp only [firstSlotOf]
      omega
    rw [if_neg hf]
    have hiff := firstSlotOf_eq_iff (some f) slot
    by_cases hfs : some f = some slot
    · rw [if_pos (hiff.mpr hfs).symm, if_pos hfs]
    · rw [if_neg (fun he => hfs (hiff.mp he.symm)), if_neg hfs]
      rfl

/-- A pass of the drain is a pass of the rotation. -/
theorem ipcDrainBody_rotates (hb : sendBox < sys.boxCount) (st : DrainState) (rot : State ℕ World)
    (h : Rotates sys mem₀ sendBox st rot) :
    Flow.Related (Rotates sys mem₀ sendBox) (ipcDrainBody sys sendBox st)
      (body true (handle sys mem₀ sendBox) rot) := by
  rcases st with ⟨mem, firstSlot⟩
  rcases rot with ⟨queue, world, first⟩
  obtain ⟨⟨d, hd, hsame, hqueue, hw, hdesc⟩, hfirst⟩ := h
  dsimp only at hqueue hw hdesc hfirst
  subst hqueue hfirst
  cases hq : (d sendBox).send with
  | nil =>
    rw [pass_empty hd hb hq]
    exact ⟨⟨d, hd, hsame, hq.symm, hw, hdesc⟩, rfl⟩
  | cons slot rest =>
    obtain ⟨mem₁, hmem₁, hcarry, hbody⟩ := pass_cons hd hb hsame hq first
    have hw₁ : ∀ c < sys.boxCount, world.recv c =
        (Function.update d sendBox {d sendBox with send := rest} c).recv := by
      intro c hc
      by_cases hcb : c = sendBox
      · subst hcb
        simpa using hw c hc
      · simpa [hcb] using hw c hc
    have hdesc₁ : world.desc = mem₁.desc := hdesc.trans hmem₁.symm
    have hrest : (Function.update d sendBox {d sendBox with send := rest} sendBox).send = rest := by
      simp
    rw [hbody, body]
    dsimp only
    by_cases hseen : first = some slot
    · rw [if_pos hseen, if_pos hseen]
      have hkept := hcarry.shows_kept hb hw₁ hdesc₁
      rw [hrest] at hkept
      exact ⟨hkept, rfl⟩
    · obtain ⟨mem', hoffer, hshows⟩ := offer_spec hcarry hb hw₁ hdesc₁
        (firstSlotOf (some (first.getD slot)))
      rw [hrest] at hshows
      rw [if_neg hseen, if_neg hseen, hoffer]
      cases hfate : (handle sys mem₀ sendBox world slot).1 with
      | delivered =>
        rw [hfate] at hshows
        refine ⟨hshows, ?_⟩
        simp only [firstAfter, true_and, firstSlotOf_eq_iff]
        split_ifs <;> rfl
      | dropped =>
        rw [hfate] at hshows
        exact ⟨hshows, rfl⟩
      | kept =>
        rw [hfate] at hshows
        exact ⟨hshows, rfl⟩

end Passes

/-- The drain reaches a break exactly when the rotation does. -/
theorem terminates_iff_rotation {sys : Platform} {sendBox : ℕ} (hb : sendBox < sys.boxCount)
    {mem : Memory} {d : ℕ → BoxLists} (h : Describes sys mem d) :
    Terminates (ipcDrainBody sys sendBox) ⟨mem, -1⟩ ↔
      Terminates (body true (handle sys mem sendBox))
        ⟨(d sendBox).send, ⟨fun c => (d c).recv, mem.desc⟩, none⟩ :=
  terminates_iff_of_related (ipcDrainBody_rotates hb)
    ⟨⟨d, h, fun _ => ⟨rfl, rfl, rfl⟩, rfl, fun _ _ => rfl, rfl⟩, rfl⟩

/-- The loop of the drain reaches a break exactly when the first request that
is not delivered goes back to the queue, or there is no such request, or all
requests behind it leave the queue as well. -/
theorem ipcDrainQueue_terminates_iff {sys : Platform} {sendBox : ℕ} (hb : sendBox < sys.boxCount)
    {mem : Memory} {d : ℕ → BoxLists} (h : Describes sys mem d) :
    Terminates (ipcDrainBody sys sendBox) ⟨mem, -1⟩ ↔
      StopsForgetting (handle sys mem sendBox) (d sendBox).send
        ⟨fun c => (d c).recv, mem.desc⟩ := by
  rw [terminates_iff_rotation hb h]
  exact terminates_forgetting_iff ((h sendBox hb).send.nodup ())

/-! ## Two requests without a receiver -/

/-- Lists of a freshly initialized box. -/
def initialLists : BoxLists := ⟨List.range ipcSlots, [], List.range ipcSlots, []⟩

/-- A freshly initialized box is well formed, with all slots free. -/
theorem ipcBoxInit_describes {sys : Platform} {box : ℕ} {ipc ipc' : BoxIpc}
    (h : ipcBoxInit sys box ipc = some ipc') : DescribesBox ipc' initialLists := by
  obtain rfl := Option.some.inj h
  refine ⟨?_, ?_, rfl, rfl, rfl⟩
  · exact poolInit_represents (by decide) (by decide) fun _ => by simp
  · exact poolInit_represents (by decide) (by decide) fun _ => by simp

/-- Two boxes that may access all of the memory in question. -/
def twoBoxes : Platform where
  boxCount := 2
  ipc := fun b => 0x20000000+0x1000*b
  bufferAccessIsOk := fun _ _ _ => true

/-- Memory of a box before its initialization is all zero. -/
def zeroIpc : BoxIpc :=
  let entry : Entry := ⟨0, 0⟩
  let pool : Pool := ⟨0, 0, 0, 0, 0, 0, false, fun _ => entry⟩
  let queues : PoolQueues Unit := ⟨pool, fun _ => ⟨0, 0, 0, 0⟩⟩
  let io : Io := ⟨0, 0, .invalid⟩
  ⟨queues, fun _ => io, queues, fun _ => io, false, 0, 0⟩

/-- A box of the small system after its initialization. -/
def bootedIpc (b : ℕ) : BoxIpc := (ipcBoxInit twoBoxes b zeroIpc).getD zeroIpc

theorem bootedIpc_describes (b : ℕ) : DescribesBox (bootedIpc b) initialLists :=
  ipcBoxInit_describes (rfl : ipcBoxInit twoBoxes b zeroIpc = some (bootedIpc b))

/-- Box 0 has posted two send requests; no receive request is posted. -/
def postedMemory (first second : ℤ) : Memory where
  box := Function.update bootedIpc 0 {bootedIpc 0 with
    sendQueue := (queueFresh ())^[2] (bootedIpc 0).sendQueue
    sendIo := fun slot => ⟨0x20000800+0x20*slot, 0x20000810+0x20*slot, .readyToSend⟩}
  desc := fun address => ⟨if address = 0x20000800 then first else second, 1, 4, 1⟩
  byte := fun _ => 0

/-- Lists of the boxes with these requests. -/
def postedLists : ℕ → BoxLists :=
  Function.update (fun _ => initialLists) 0
    {initialLists with sendFree := List.range' 2 14, send := [0, 1]}

theorem postedMemory_describes (first second : ℤ) :
    Describes twoBoxes (postedMemory first second) postedLists := by
  intro b _
  have hboot := bootedIpc_describes b
  by_cases hb : b = 0
  · subst hb
    obtain ⟨hsend, hlock⟩ := queueFresh_iterate [0, 1] (List.range' 2 14) hboot.send
      hboot.send_lock ()
    rw [update_unit] at hsend
    simp only [postedMemory, postedLists, Function.update_self]
    exact ⟨hsend, hboot.recv, hlock, hboot.recv_lock, hboot.tokens_lock⟩
  · simpa [postedMemory, postedLists, hb] using hboot

/-- The first request waits for a receiver and comes round. -/
theorem ipcDrainQueue_terminates_waiting :
    Terminates (ipcDrainBody twoBoxes 0) ⟨postedMemory 1 9, -1⟩ := by
  rw [ipcDrainQueue_terminates_iff (by decide) (postedMemory_describes 1 9)]
  have hkept : (handle twoBoxes (postedMemory 1 9) 0
      ⟨fun c => (postedLists c).recv, (postedMemory 1 9).desc⟩ 0).1 = .kept := by decide
  change StopsForgetting _ [0, 1] _
  simp only [StopsForgetting, hkept]

/-- The first request goes to an unknown box and is dropped; the second one
waits for a receiver and goes round for ever. -/
theorem ipcDrainQueue_diverges_unknown :
    Describes twoBoxes (postedMemory 9 1) postedLists ∧
      ¬Terminates (ipcDrainBody twoBoxes 0) ⟨postedMemory 9 1, -1⟩ := by
  have hd := postedMemory_describes 9 1
  have hnd : (postedLists 0).send.Nodup := by decide
  refine ⟨hd, ?_⟩
  rw [terminates_iff_rotation (by decide) hd, terminates_forgetting_iff hnd]
  set w : World := ⟨fun c => (postedLists c).recv, (postedMemory 9 1).desc⟩
  have hdropped : (handle twoBoxes (postedMemory 9 1) 0 w 0) = (.dropped, w) := rfl
  have hkept : ∀ slot ∈ [1], handle twoBoxes (postedMemory 9 1) 0 w slot = (.kept, w) := by
    intro slot hslot
    obtain rfl := List.mem_singleton.mp hslot
    rfl
  change ¬StopsForgetting _ [0, 1] w
  simp only [StopsForgetting, hdropped]
  exact not_exhausts_of_kept hkept (by simp)

end Uvisor.IpcTermination
