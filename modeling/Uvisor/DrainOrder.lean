import Uvisor.MessageOrder
import Uvisor.IpcPasses

/-!
# Both drains put their first element behind the others

A drain of the send requests of a box goes round its queue as a drain of
outgoing messages does. Nothing promises the order of the queue: the first
element that was put back ends up last. Two calls that were queued one after
the other can be delivered the other way round in a later drain.
-/

namespace Uvisor.DrainOrder

open PoolQueue PoolInvariant PoolOperations Execution RotationOrder

/-! ## Send requests -/

section Requests

open Ipc IpcPasses
open IpcTermination (BoxLists)

variable {sys : Platform} {sendBox : ℕ} {mem : Memory}

/-- Send requests of a box in queue order. -/
def sendSlots (mem : Memory) (sendBox : ℕ) : List ℕ := queueSlots (mem.box sendBox).sendQueue ()

/-- The lock of the send pool of a box. -/
def sendLock (mem : Memory) (b : ℕ) : Bool := (mem.box b).sendQueue.pool.spinlock

theorem sendLock_setSendQueue {b c : ℕ} {q : PoolQueues Unit}
    (h : q.pool.spinlock = sendLock mem b) : sendLock (mem.setSendQueue b q) c = sendLock mem c := by
  rw [sendLock, setSendQueue_sendQueue]
  split_ifs with hc
  · rw [h, hc]
  · rfl

theorem sendLock_setRecvQueue (b c : ℕ) (q : PoolQueues Unit) :
    sendLock (mem.setRecvQueue b q) c = sendLock mem c := by
  rw [sendLock, setRecvQueue_sendQueue]
  rfl

theorem sendLock_putSendBack (b slot c : ℕ) :
    sendLock (putSendBack mem b slot) c = sendLock mem c :=
  sendLock_setSendQueue (uvisorPoolQueueTryEnqueue_spinlock ..)

/-- A delivery does not touch the send pools. -/
theorem sendLock_ipcDeliver (recvBox : ℕ) (sendIo recvIo : Io) (c : ℕ) :
    sendLock (ipcDeliver sendBox recvBox sendIo recvIo mem).2 c = sendLock mem c := by
  by_cases h : (mem.box sendBox).tokensLock = true ∨ (mem.box recvBox).tokensLock = true
  · rw [ipcDeliver_refused sendIo recvIo h]
  · rw [not_or, Bool.not_eq_true, Bool.not_eq_true] at h
    rw [ipcDeliver_delivers sendIo recvIo h.1 h.2]
    rfl

theorem sendLock_fulfil (slot recvBox recvSlot : ℕ) (firstSlot : ℤ) (c : ℕ) :
    sendLock (fulfil sys sendBox slot recvBox recvSlot firstSlot mem).mem c = sendLock mem c := by
  unfold fulfil
  dsimp only
  split_ifs
  · exact sendLock_putSendBack ..
  · simp only [putRecvBack, sendLock_setRecvQueue, sendLock_putSendBack, sendLock_ipcDeliver]
  all_goals
    simp only [freePair, sendLock_setRecvQueue]
    rw [sendLock_setSendQueue (uvisorPoolTryFree_spinlock ..), sendLock_ipcDeliver]

theorem sendLock_matchReceiver {slot recvBox : ℕ} {firstSlot : ℤ} {out : DrainState}
    (h : matchReceiver sys sendBox slot recvBox firstSlot mem = .next out) (c : ℕ) :
    sendLock out.mem c = sendLock mem c := by
  unfold matchReceiver at h
  dsimp only at h
  split_ifs at h
  · cases h
    exact sendLock_putSendBack ..
  · split at h
    · cases h
    · split_ifs at h
      · cases h
        rw [sendLock_putSendBack, sendLock_setRecvQueue]
      · cases h
        rw [sendLock_putSendBack, sendLock_setRecvQueue, sendLock_setRecvQueue]
      · cases h
        rw [sendLock_fulfil, sendLock_setRecvQueue, sendLock_setRecvQueue]

theorem sendLock_offer {slot : ℕ} {firstSlot : ℤ} {out : DrainState}
    (h : offer sys sendBox slot firstSlot mem = .next out) (c : ℕ) :
    sendLock out.mem c = sendLock mem c := by
  unfold offer at h
  dsimp only at h
  split_ifs at h
  · cases h
    rfl
  · cases h
    exact sendLock_putSendBack ..
  · cases h
    rfl
  · exact sendLock_matchReceiver h c

/-- An iteration leaves the locks of the send pools as they are. -/
theorem sendLock_next {firstSlot : ℤ} {out : DrainState}
    (h : ipcDrainBody sys sendBox ⟨mem, firstSlot⟩ = .next out) (c : ℕ) :
    sendLock out.mem c = sendLock mem c := by
  have hdequeue : sendLock (mem.setSendQueue sendBox
      (uvisorPoolQueueTryDequeueFirst (mem.box sendBox).sendQueue ()).2) c = sendLock mem c :=
    sendLock_setSendQueue (uvisorPoolQueueTryDequeueFirst_spinlock ..)
  unfold ipcDrainBody at h
  dsimp only at h
  split_ifs at h
  · exact (sendLock_offer h c).trans hdequeue
  · exact (sendLock_offer h c).trans hdequeue

/-- While the lock of the queue is held, an iteration stops and changes nothing. -/
theorem ipcDrainBody_locked {d : ℕ → BoxLists} (hb : sendBox < sys.boxCount)
    (hd : Queued sys mem d) (hlock : sendLock mem sendBox = true) (firstSlot : ℤ) :
    ipcDrainBody sys sendBox ⟨mem, firstSlot⟩ = .stop ⟨mem, firstSlot⟩ := by
  have hfail : uvisorPoolQueueTryDequeueFirst (mem.box sendBox).sendQueue () =
      (slotInvalid, (mem.box sendBox).sendQueue) := withTrylock_of_held hlock
  exact IpcTermination.ipcDrainBody_invalid (hd sendBox hb).1.num_lt hfail firstSlot

/-- What holds whenever control is at the head of the loop of a drain. -/
def AtHead (sys : Platform) (sendBox : ℕ) (locked : Bool) (send : List ℕ) (st : DrainState) :
    Prop :=
  ∃ d first, Queued sys st.mem d ∧ Tracked send (d sendBox).send first ∧
    (send ⊆ (d sendBox).send → st.firstSlot = Option.elim first (-1) Nat.cast) ∧
    sendLock st.mem sendBox = locked ∧ (locked = true → (d sendBox).send = send)

/-- A request that an iteration handles stays in the queue, behind the others,
or leaves it. -/
theorem send_of_outcome {d d' : ℕ → BoxLists} {slot : ℕ} {rest : List ℕ} {mem' : Memory}
    (h : Outcome sys mem d sendBox slot rest
      (fun b s => Transferred mem d sendBox slot rest b s mem' d') mem' d') :
    (d' sendBox).send = rest ++ [slot] ∨ (d' sendBox).send = rest := by
  cases h with
  | dropped why only lists => exact Or.inr (by simp [lists])
  | kept why only lists once => exact Or.inl (by simp [lists])
  | lost recvBox recvSlot pair why only lists once => exact Or.inl (by simp [lists])
  | blocked recvBox recvSlot pair why only lists once => exact Or.inl (by simp [lists])
  | delivered recvBox recvSlot pair done => exact Or.inr (by simp [done.lists])

/-- An iteration that goes round again tracks the queue. -/
theorem atHead_next (hb : sendBox < sys.boxCount) {locked : Bool} {send : List ℕ}
    {st st' : DrainState} (h : AtHead sys sendBox locked send st)
    (hbody : ipcDrainBody sys sendBox st = .next st') : AtHead sys sendBox locked send st' := by
  obtain ⟨mem, firstSlot⟩ := st
  obtain ⟨d, first, hd, htracked, hfirst, hlock, -⟩ := h
  have hlock' := (sendLock_next hbody sendBox).trans hlock
  have hfree : locked ≠ true := by
    rintro rfl
    rw [ipcDrainBody_locked hb hd hlock] at hbody
    cases hbody
  obtain ⟨mem', d', hd', hiter⟩ := ipcDrainBody_iteration hb hd firstSlot
  rw [hbody] at hiter
  cases hiter with
  | handled slot rest firstSlot' head unseen outcome remembered =>
    have hnodup := (hd sendBox hb).1.nodup ()
    rw [head] at hnodup htracked hfirst
    rcases send_of_outcome outcome with hsend | hsend
    · refine ⟨d', some (first.getD slot), hd', ?_, fun hall => ?_, hlock',
        fun hl => absurd hl hfree⟩
      · rw [hsend]
        refine htracked.putBack fun hall => ?_
        rintro rfl
        exact unseen (hfirst hall)
      · rw [hsend] at hall remembered
        have hrem := remembered.resolve_right fun he => by simpa using congrArg List.length he
        have hold := hfirst (subset_putBack.mp hall)
        change firstSlot = _ at hold
        change firstSlot' = _
        rw [hrem, hold]
        cases first <;> simp
    · refine ⟨d', none, hd', ?_, fun hall => ?_, hlock',
        fun hl => absurd hl hfree⟩
      · rw [hsend]
        exact htracked.leave hnodup _
      · rw [hsend] at hall
        exact absurd hall (htracked.missed hnodup)

/-- A call of ipc_drain_queue after which all send requests are still queued
has rotated the queue by one. It has left the queue alone if that is not in
order or its lock is held. -/
theorem ipcDrainQueue_rotates (hb : sendBox < sys.boxCount) {mem' : Memory}
    (h : ∃ d, Queued sys mem d) {fuel : ℕ}
    (hrun : ipcDrainQueue sys sendBox fuel mem = some mem')
    (hall : sendSlots mem sendBox ⊆ sendSlots mem' sendBox) :
    sendSlots mem' sendBox =
      if senderIsOk sys sendBox (mem.box sendBox).sendQueue = true ∧
          (mem.box sendBox).sendQueue.pool.spinlock = false then (sendSlots mem sendBox).rotate 1
      else sendSlots mem sendBox := by
  obtain ⟨d, hd⟩ := h
  have hslots : ∀ {m : Memory} {e}, Queued sys m e → sendSlots m sendBox = (e sendBox).send :=
    fun he => Represents.queueSlots_eq (he sendBox hb).1 ()
  unfold ipcDrainQueue at hrun
  split_ifs at hrun with hok
  · obtain rfl := Option.some.inj hrun
    rw [if_neg (by simp [hok])]
  rw [Bool.not_eq_false] at hok
  obtain ⟨last, hlast, rfl⟩ := Option.map_eq_some_iff.mp hrun
  obtain ⟨st, hvisits, hstop⟩ := visits_of_iterate hlast
  rw [hslots hd] at hall ⊢
  have hentry : AtHead sys sendBox (sendLock mem sendBox) (d sendBox).send ⟨mem, -1⟩ :=
    ⟨d, none, hd, .start _, fun _ => rfl, rfl, fun _ => rfl⟩
  obtain ⟨d₁, first, hd₁, htracked, hfirst, hlock, hlocked⟩ :=
    hvisits.invariant (AtHead sys sendBox (sendLock mem sendBox) (d sendBox).send) hentry
      fun _ _ hi hbody => atHead_next hb hi hbody
  obtain ⟨mem₁, firstSlot⟩ := st
  cases hheld : sendLock mem sendBox with
  | true =>
    rw [if_neg fun hboth => by simp [sendLock, hboth.2] at hheld]
    rw [ipcDrainBody_locked hb hd₁ (hlock.trans hheld)] at hstop
    cases hstop
    rw [hslots hd₁, hlocked hheld]
  | false =>
    rw [if_pos ⟨hok, hheld⟩]
    obtain ⟨mem₂, d₂, hd₂, hiter⟩ := ipcDrainBody_iteration hb hd₁ firstSlot
    rw [hstop] at hiter
    cases hiter with
    | idle why same lists =>
      have hempty : (d₁ sendBox).send = [] := by
        refine why.resolve_right fun hlock' => ?_
        rw [sendLock] at hlock
        rw [hlock', hheld] at hlock
        cases hlock
      rw [hslots hd₂, lists, hempty] at hall ⊢
      simp [List.subset_nil.mp hall]
    | cameRound slot rest head seen only lists =>
      have heq : (d₂ sendBox).send = rest ++ [slot] := by simp [lists]
      rw [hslots hd₂, heq] at hall ⊢
      rw [head] at htracked hfirst
      have hsome : first = some slot := by
        have hf := hfirst (subset_putBack.mp hall)
        cases first with
        | none =>
          have hneg : (-1 : ℤ) = slot := hf.symm.trans seen
          omega
        | some f =>
          have hcast : (f : ℤ) = slot := hf.symm.trans seen
          rw [Int.ofNat.inj hcast]
      rw [hsome] at htracked
      exact htracked.cameRound ((hd sendBox hb).1.nodup ()) hall

end Requests

/-! ## A callee without room -/

section Full

open Rpc RpcApi RpcLibrary RpcDescription MessageOrder
open RpcSystem (Locks)

/-- Boxes in which box 0 has queued two calls of box 1, whose pool is full. -/
def fullBoxes : Boxes :=
  let first := populated ((bootedBoxes 0).outgoing.messages 0) ⟨1, 2, 3, 4, 0x2000⟩ 0x800 0
  let second := populated ((bootedBoxes 0).outgoing.messages 1) ⟨5, 6, 7, 8, 0x2000⟩ 0x1000 1
  let boxes := bootedBoxes.setOutgoing 0 ((queueFresh ())^[2] (bootedBoxes 0).outgoing.queues)
  let boxes := boxes.setIncoming 1 ((queueFresh .todo)^[8] (bootedBoxes 1).incoming.queues)
  (boxes.setOutgoingMessage 0 0 first).setOutgoingMessage 0 1 second

/-- Lists of the boxes with the full pool. -/
def fullLists : ℕ → BoxLists :=
  let d := Function.update (fun _ => initialLists) 0
    {initialLists with outFree := [2, 3, 4, 5, 6, 7], out := [0, 1]}
  Function.update d 1 {d 1 with
    inFree := [], incoming := Function.update (d 1).incoming .todo [0, 1, 2, 3, 4, 5, 6, 7]}

theorem fullBoxes_describes : Describes threeBoxes fullBoxes fullLists :=
  RpcDrain.queuedCalls_describes _ _ [0, 1, 2, 3, 4, 5, 6, 7] [] rfl

theorem fullBoxes_wellFormed : WellFormed threeBoxes fullBoxes fullLists :=
  ⟨⟨fun _ => false, fun _ => false⟩, fullBoxes, rfl, fullBoxes_describes⟩

/-- The calls were queued one after the other, and nothing has been delivered. -/
def fullState : State := ⟨fullBoxes, id, 2, [], none⟩

theorem fullState_initial : Initial threeBoxes 0 fullState where
  boxes := ⟨fullLists, fullBoxes_wellFormed⟩
  stamps := by decide
  clock := by decide
  delivered := rfl
  drain := rfl

/-- Box 1 handles all calls that it has received. -/
def relieved (boxes : Boxes) : Boxes := boxes.setIncoming 1 (bootedBoxes 1).incoming.queues

theorem relieved_wellFormed {boxes : Boxes} (h : ∃ d, WellFormed threeBoxes boxes d) :
    ∃ d, WellFormed threeBoxes (relieved boxes) d := by
  obtain ⟨d, locks, boxes₀, rfl, hd⟩ := h
  have hboot := bootedBoxes_describes 1 (by decide)
  refine ⟨_, ⟨locks.outgoing, Function.update locks.incoming 1 false⟩,
    boxes₀.setIncoming 1 (bootedBoxes 1).incoming.queues, ?_,
    hd.setIncoming hboot.incoming hboot.incoming_lock⟩
  funext b
  by_cases hb : b = 1
  · subst hb
    simp [relieved, Locks.set, Boxes.setIncoming]
  · simp [relieved, Locks.set, Boxes.setIncoming, hb]

theorem fullBoxes_rotates :
    ∃ boxes', drainMessageQueue threeBoxes 0 3 fullBoxes = some boxes' ∧
      outgoingSlots boxes' 0 = [1, 0] := by
  have hrun : (drainMessageQueue threeBoxes 0 3 fullBoxes).map (outgoingSlots · 0) =
      some [1, 0] := by decide +kernel
  exact Option.map_eq_some_iff.mp hrun

theorem fullBoxes_outgoingSlots : outgoingSlots fullBoxes 0 = [0, 1] := by decide

/-- The calls are queued and box 1 has room. -/
theorem relievedState_initial :
    Initial threeBoxes 0 {fullState with boxes := relieved fullBoxes} where
  boxes := relieved_wellFormed ⟨fullLists, fullBoxes_wellFormed⟩
  stamps := by decide
  clock := by decide
  delivered := rfl
  drain := rfl

theorem relieved_proper {st : State} (h : ∃ d, WellFormed threeBoxes st.boxes d) :
    Proper threeBoxes 0 st (.others (relieved st.boxes)) := by
  have hsame : (relieved st.boxes 0).outgoing = (st.boxes 0).outgoing := by
    simp [relieved, Boxes.setIncoming]
  refine ⟨relieved_wellFormed h, ?_, fun slot _ => by rw [hsame]⟩
  simp only [outgoingSlots, hsame]

end Full

/-! ## Messages and requests -/

section Order

open Rpc MessageOrder RpcDescription

/-- The order in which the drains leave and deliver what is queued. Messages of
a caller to one callee are delivered in the order in which they were queued, as
long as no earlier drain has put its first message behind another one for the
same callee. A drain that delivers and drops nothing rotates its queue by one;
it leaves a queue alone that is not in order or whose lock is held. -/
theorem drain_order {sys : Rpc.Platform} {ipc : Ipc.Platform} {caller sendBox : ℕ}
    (hc : caller < sys.boxCount) (hb : sendBox < ipc.boxCount) :
    (∀ st, Reachable (Initial sys caller) (step sys caller)
        (fun st action => Proper sys caller st action ∧ Careful sys caller st action) st →
      InOrder st.delivered ∧
        ∀ action st', Proper sys caller st action → step sys caller st action = some st' →
          InOrder st'.delivered) ∧
    (∀ boxes boxes' fuel, (∃ d, WellFormed sys boxes d) →
      drainMessageQueue sys caller fuel boxes = some boxes' →
      outgoingSlots boxes caller ⊆ outgoingSlots boxes' caller →
      outgoingSlots boxes' caller =
        if isValidQueue sys (sys.outgoingQueue caller) (boxes caller).outgoing.queues () caller =
            true ∧ (boxes caller).outgoing.queues.pool.spinlock = false then
          (outgoingSlots boxes caller).rotate 1
        else outgoingSlots boxes caller) ∧
    ∀ mem mem' fuel, (∃ d, IpcPasses.Queued ipc mem d) →
      Ipc.ipcDrainQueue ipc sendBox fuel mem = some mem' →
      sendSlots mem sendBox ⊆ sendSlots mem' sendBox →
      sendSlots mem' sendBox =
        if Ipc.senderIsOk ipc sendBox (mem.box sendBox).sendQueue = true ∧
            (mem.box sendBox).sendQueue.pool.spinlock = false then
          (sendSlots mem sendBox).rotate 1
        else sendSlots mem sendBox :=
  ⟨fun _ h => delivered_inOrder hc h,
    fun _ _ _ h hrun hall => drainMessageQueue_rotates hc h hrun hall,
    fun _ _ _ h hrun hall => ipcDrainQueue_rotates hb h hrun hall⟩

/-- In a run of the small system that starts with room in box 1, both messages
arrive in order. While box 1 is full, a drain rotates the queue, as it does
with two send requests that no receive request matches. -/
theorem drain_order_small :
    (∃ st, exec (step threeBoxes 0) [.drain, .pass, .pass]
        {fullState with boxes := relieved fullBoxes} = some st ∧
      st.delivered = [(1, 0), (1, 1)] ∧ InOrder st.delivered) ∧
    (∃ boxes', drainMessageQueue threeBoxes 0 3 fullBoxes = some boxes' ∧
      outgoingSlots boxes' 0 = (outgoingSlots fullBoxes 0).rotate 1) ∧
    ∃ mem', Ipc.ipcDrainQueue IpcTermination.twoBoxes 0 3 (IpcTermination.postedMemory 1 1) =
        some mem' ∧
      sendSlots mem' 0 = (sendSlots (IpcTermination.postedMemory 1 1) 0).rotate 1 := by
  obtain ⟨horder, hmessages, hrequests⟩ :=
    @drain_order threeBoxes IpcTermination.twoBoxes 0 0 (by decide) (by decide)
  refine ⟨?_, ?_, ?_⟩
  · have hrun : ((exec (step threeBoxes 0) [.drain, .pass, .pass]
        {fullState with boxes := relieved fullBoxes}).map State.delivered) =
          some [(1, 0), (1, 1)] := by decide +kernel
    obtain ⟨st, hrun, hdelivered⟩ := Option.map_eq_some_iff.mp hrun
    refine ⟨st, hrun, hdelivered, ?_⟩
    obtain ⟨st₁, hdrain, hrest⟩ := Option.bind_eq_some_iff.mp hrun
    obtain ⟨st₂, hpass, hrest⟩ := Option.bind_eq_some_iff.mp hrest
    obtain ⟨st₃, hlast, hrest⟩ := Option.bind_eq_some_iff.mp hrest
    obtain rfl := Option.some.inj hrest
    have hfirst : st₁.drain = some (-1) := by
      simp only [step, fullState] at hdrain
      split_ifs at hdrain
      obtain rfl := Option.some.inj hdrain
      rfl
    have hreach₁ : Reachable (Initial threeBoxes 0) (step threeBoxes 0)
        (fun st action => Proper threeBoxes 0 st action ∧ Careful threeBoxes 0 st action) st₁ :=
      .step (a := .drain) (.start relievedState_initial) ⟨trivial, trivial⟩ hdrain
    have hallowed : Proper threeBoxes 0 st₁ .pass ∧ Careful threeBoxes 0 st₁ .pass := by
      refine ⟨trivial, fun slot rest _ hseen => ?_⟩
      rw [hfirst] at hseen
      have hneg : (-1 : ℤ) = slot := Option.some.inj hseen
      omega
    exact (horder st₂ (hreach₁.step hallowed hpass)).2 .pass st₃ trivial hlast
  · obtain ⟨boxes', hrun, hslots⟩ := fullBoxes_rotates
    refine ⟨boxes', hrun, ?_⟩
    have hrotated := hmessages fullBoxes boxes' 3 ⟨_, fullBoxes_wellFormed⟩ hrun
      (by rw [hslots, fullBoxes_outgoingSlots]; decide)
    rwa [if_pos (by decide)] at hrotated
  · have hrun : ((Ipc.ipcDrainQueue IpcTermination.twoBoxes 0 3
        (IpcTermination.postedMemory 1 1)).map (sendSlots · 0)) = some [1, 0] := by decide +kernel
    obtain ⟨mem', hrun, hslots⟩ := Option.map_eq_some_iff.mp hrun
    have hposted : sendSlots (IpcTermination.postedMemory 1 1) 0 = [0, 1] := by decide
    refine ⟨mem', hrun, ?_⟩
    have hrotated := hrequests _ mem' 3 ⟨IpcTermination.postedLists, fun b hb =>
        let h := IpcTermination.postedMemory_describes 1 1 b hb
        ⟨h.send, h.recv⟩⟩ hrun (by rw [hslots, hposted]; decide)
    rwa [if_pos (by decide)] at hrotated

/-- While box 1 is full, a drain puts the messages in each other's place. Once
it has made room, the second call arrives before the first one. -/
theorem drain_order_fails :
    (∃ st, Reachable (Initial threeBoxes 0) (step threeBoxes 0) (Proper threeBoxes 0) st ∧
      ¬InOrder st.delivered) ∧
    ∃ boxes', WellFormed threeBoxes fullBoxes fullLists ∧
      drainMessageQueue threeBoxes 0 3 fullBoxes = some boxes' ∧
      outgoingSlots fullBoxes 0 = [0, 1] ∧ outgoingSlots boxes' 0 = [1, 0] := by
  constructor
  · have hrun : ((exec (step threeBoxes 0) [.drain, .pass, .pass, .pass] fullState).bind
        fun st => (exec (step threeBoxes 0) [.others (relieved st.boxes), .drain, .pass, .pass]
          st).map State.delivered) = some [(1, 1), (1, 0)] := by
      decide +kernel
    obtain ⟨st, hfirst, hrest⟩ := Option.bind_eq_some_iff.mp hrun
    obtain ⟨st', hrest, hdelivered⟩ := Option.map_eq_some_iff.mp hrest
    obtain ⟨st₁, hothers, hrest⟩ := Option.bind_eq_some_iff.mp hrest
    have hdrains : ∀ {n : ℕ}, ∀ action ∈ Action.drain :: List.replicate n Action.pass,
        ∀ st, Proper threeBoxes 0 st action := by
      intro n action haction st
      rcases List.mem_cons.mp haction with rfl | haction
      · trivial
      · rw [List.eq_of_mem_replicate haction]
        trivial
    have hreach : Reachable (Initial threeBoxes 0) (step threeBoxes 0) (Proper threeBoxes 0) st :=
      exec_reachable_of_allowed (hdrains (n := 3)) (.start fullState_initial) hfirst
    have hreach₁ := hreach.step (relieved_proper (reachable_wellFormed (by decide) hreach)) hothers
    refine ⟨st', exec_reachable_of_allowed (hdrains (n := 2)) hreach₁ hrest, ?_⟩
    rw [hdelivered]
    intro horder
    have hlt := List.rel_of_pairwise_cons horder (by simp : ((1, 0) : ℤ × ℕ) ∈ [(1, 0)]) rfl
    omega
  · obtain ⟨boxes', hrun, hslots⟩ := fullBoxes_rotates
    exact ⟨boxes', fullBoxes_wellFormed, hrun, fullBoxes_outgoingSlots, hslots⟩

end Order

end Uvisor.DrainOrder
