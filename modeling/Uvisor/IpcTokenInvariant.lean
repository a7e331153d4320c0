import Uvisor.IpcTokens

/-!
# The life cycle of an IPC token

A token is free, in use or complete, and goes round this cycle in its history.
Whoever holds a token, a thread on its way through ipc_io, a queued request or
a delivered one, is its only holder in the box. The token lock keeps threads
of a box out of each other's critical sections, and a delivery out of all of
them.
-/

namespace Uvisor.IpcTokenInvariant

open PoolQueue PoolInvariant PoolOperations Ipc IpcTermination IpcPasses IpcDelivery IpcTokens
  Execution

/-! ## Histories -/

/-- What has become of a token. -/
inductive Phase where
  /-- Nobody uses it. -/
  | free
  /-- It is allocated, and its request has not been delivered. -/
  | busy
  /-- Its request has been delivered, and no wait has returned it. -/
  | done
  deriving DecidableEq

/-- What an event does to a token, given by its bit. There is no result when
the event is out of turn. -/
def Event.advance (i : ℕ) : Event → Phase → Option Phase
  | .allocated token, phase =>
    if token.testBit i = true then (if phase = .free then some .busy else none) else some phase
  | .completed token, phase =>
    if token.testBit i = true then (if phase = .busy then some .done else none) else some phase
  | .reported doneTokens, phase =>
    if doneTokens.testBit i = true then (if phase = .done then some .free else none) else some phase

/-- What a history makes of a token. There is no result when the token has
left its cycle. -/
def phase (i : ℕ) : List Event → Option Phase
  | [] => some .free
  | event :: log => (phase i log).bind (Event.advance i event)

/-- Whether an event completes a token. -/
def Event.completes (i : ℕ) : Event → Bool
  | .completed token => token.testBit i
  | _ => false

/-- Whether an event reports a token. -/
def Event.reports (i : ℕ) : Event → Bool
  | .reported doneTokens => doneTokens.testBit i
  | _ => false

/-- On its cycle, a token has been reported as often as it has been completed,
not counting a completion still to be reported. -/
theorem completions_eq_reports {i : ℕ} {log : List Event} {p : Phase} (h : phase i log = some p) :
    log.countP (Event.completes i) =
      log.countP (Event.reports i)+if p = .done then 1 else 0 := by
  induction log generalizing p with
  | nil =>
    obtain rfl := Option.some.inj h
    rfl
  | cons event log ih =>
    obtain ⟨q, hq, hp⟩ := Option.bind_eq_some_iff.mp h
    have hrest := ih hq
    cases event with
    | allocated token =>
      have hc : Event.completes i (.allocated token) = false := rfl
      have hr : Event.reports i (.allocated token) = false := rfl
      rw [List.countP_cons, List.countP_cons, hc, hr, hrest]
      simp only [Event.advance] at hp
      split_ifs at hp with hbit hfree
      · obtain rfl := Option.some.inj hp
        simp [hfree]
      · obtain rfl := Option.some.inj hp
        simp
    | completed token =>
      have hr : Event.reports i (.completed token) = false := rfl
      rw [List.countP_cons, List.countP_cons, hr, hrest]
      simp only [Event.advance] at hp
      split_ifs at hp with hbit hbusy
      · obtain rfl := Option.some.inj hp
        simp [hbusy, Event.completes, hbit]
      · obtain rfl := Option.some.inj hp
        simp [Event.completes, hbit]
    | reported doneTokens =>
      have hc : Event.completes i (.reported doneTokens) = false := rfl
      rw [List.countP_cons, List.countP_cons, hc, hrest]
      simp only [Event.advance] at hp
      split_ifs at hp with hbit hdone
      · obtain rfl := Option.some.inj hp
        simp [hdone, Event.reports, hbit]
      · obtain rfl := Option.some.inj hp
        simp [Event.reports, hbit]

/-! ## Holders of tokens -/

/-- Whoever may hold a token. -/
inductive Holder where
  /-- A thread in ipc_io. -/
  | thread (t : ℕ)
  /-- A queued request. -/
  | queued (q : Request)
  /-- A delivered request, known by its descriptor. -/
  | delivered (box address : ℕ)

/-- A token that is held. -/
structure Holding where
  /-- Box of the token. -/
  box : ℕ
  /-- The token. -/
  token : ℕ
  /-- Descriptor that carries it, once it has been written there. -/
  desc : Option ℕ

/-- What a thread holds. -/
def pcHolding (box : ℕ) (mem : Memory) : Pc → Option Holding
  | .marked _ token => if token = 0 then none else some ⟨box, token, none⟩
  | .claiming _ token => some ⟨box, token, none⟩
  | .naming _ token _ => some ⟨box, token, none⟩
  | .filling call _ => some ⟨box, (mem.desc call.desc).token, some call.desc⟩
  | .posting call _ => some ⟨box, (mem.desc call.desc).token, some call.desc⟩
  | _ => none

/-- The slots of the send or the receive requests of a box in queue order. -/
def slots (mem : Memory) (box : ℕ) (receives : Bool) : List ℕ :=
  queueSlots (queueOf (mem.box box) receives) ()

/-- What a holder holds. -/
def holding (sys : Platform) (owner : ℕ → ℕ) (st : State) : Holder → Option Holding
  | .thread t => pcHolding (owner t) st.mem (st.pc t)
  | .queued q =>
    if q.box < sys.boxCount ∧ q.slot ∈ slots st.mem q.box q.receives then
      some ⟨q.box, (q.desc st.mem).token, some (q.io st.mem).desc⟩
    else none
  | .delivered box address =>
    if box < sys.boxCount ∧ address ∈ st.delivered box then
      some ⟨box, (st.mem.desc address).token, some address⟩
    else none

section Holdings

variable {sys : Platform} {owner : ℕ → ℕ} {st : State} {q : Request}

theorem holding_queued (h : q.box < sys.boxCount ∧ q.slot ∈ slots st.mem q.box q.receives) :
    holding sys owner st (.queued q) = some ⟨q.box, (q.desc st.mem).token, some (q.io st.mem).desc⟩ :=
  if_pos h

theorem holding_queued_eq_some {g : Holding} (h : holding sys owner st (.queued q) = some g) :
    (q.box < sys.boxCount ∧ q.slot ∈ slots st.mem q.box q.receives) ∧
      g = ⟨q.box, (q.desc st.mem).token, some (q.io st.mem).desc⟩ := by
  simp only [holding] at h
  split_ifs at h with hq
  exact ⟨hq, (Option.some.inj h).symm⟩

theorem holding_queued_eq_none (h : ¬(q.box < sys.boxCount ∧
    q.slot ∈ slots st.mem q.box q.receives)) : holding sys owner st (.queued q) = none := if_neg h

theorem holding_delivered {b address : ℕ} (h : b < sys.boxCount ∧ address ∈ st.delivered b) :
    holding sys owner st (.delivered b address) =
      some ⟨b, (st.mem.desc address).token, some address⟩ :=
  if_pos h

theorem holding_delivered_eq_some {b address : ℕ} {g : Holding}
    (h : holding sys owner st (.delivered b address) = some g) :
    (b < sys.boxCount ∧ address ∈ st.delivered b) ∧
      g = ⟨b, (st.mem.desc address).token, some address⟩ := by
  simp only [holding] at h
  split_ifs at h with hmem
  exact ⟨hmem, (Option.some.inj h).symm⟩

end Holdings

/-- No outstanding request uses a descriptor. -/
def Unused (sys : Platform) (owner : ℕ → ℕ) (st : State) (address : ℕ) : Prop :=
  ∀ u h, holding sys owner st u = some h → h.desc ≠ some address

/-- Honest boxes use a descriptor for one outstanding request at a time: a
request becomes outstanding with the write of its token, and no token is
overwritten before. -/
def Proper (sys : Platform) (owner : ℕ → ℕ) (st : State) : Action → Prop
  | .run thread => ∀ call token slot, st.pc thread = .naming call token slot →
    Unused sys owner st call.desc
  | .describe address desc =>
    desc.token = (st.mem.desc address).token ∨ Unused sys owner st address
  | _ => True

/-! ## The invariant -/

/-- What a thread has in hand in a critical section. -/
inductive Hand where
  /-- Nothing. -/
  | empty
  /-- A token that it has found. -/
  | found (token : ℕ)
  /-- Completed tokens that it will free. -/
  | met (completed : ℕ)
  /-- Completed tokens that it has freed and not yet reported. -/
  | freed (completed : ℕ)

/-- What a thread has in hand. -/
def hand : Pc → Hand
  | .marking _ token => .found token
  | .freeing _ completed => .met completed
  | .leaving _ completed true => .freed completed
  | _ => .empty

/-- Whether a thread holds the token lock of its box. -/
def critical : Pc → Bool
  | .scanning _ | .marking _ _ | .marked _ _ | .reading _ | .freeing _ _ | .leaving _ _ _ => true
  | _ => false

/-- The slot that a thread holds. -/
def slotOf : Pc → Option (Bool × ℕ)
  | .naming call _ slot => some (call.receives, slot)
  | .filling call slot => some (call.receives, slot)
  | .posting call slot => some (call.receives, slot)
  | _ => none

section Invariant

variable (sys : Platform) (owner : ℕ → ℕ) (st : State)

/-- A token is allocated. -/
def Allocated (b i : ℕ) : Prop := (st.mem.box b).allocatedTokens.testBit i = true

/-- A token is complete. -/
def Completed (b i : ℕ) : Prop := (st.mem.box b).completedTokens.testBit i = true

/-- A successful wait is about to report a token. -/
def InHand (b i : ℕ) : Prop :=
  ∃ t completed, owner t = b ∧ hand (st.pc t) = .freed completed ∧ completed.testBit i = true

/-- Threads in a critical section hold the lock, one in each box. -/
structure Exclusive : Prop where
  /-- The lock is acquired. -/
  locked : ∀ t, critical (st.pc t) = true → (st.mem.box (owner t)).tokensLock = true
  /-- Nobody else is in a critical section. -/
  unique : ∀ t t', owner t = owner t' → critical (st.pc t) = true →
    critical (st.pc t') = true → t = t'

/-- The token sets agree with each other, with the threads and with the
history. -/
structure Bits : Prop where
  /-- Complete tokens are allocated. -/
  subset : ∀ b < sys.boxCount, ∀ i, Completed st b i → Allocated st b i
  /-- Tokens in hand are not. -/
  inHand : ∀ b < sys.boxCount, ∀ i, InHand owner st b i → ¬Allocated st b i
  /-- A token that has been found is free. -/
  found : ∀ t token, hand (st.pc t) = .found token →
    token = 0 ∨ ∃ i < 32, token = 2^i ∧ ¬Allocated st (owner t) i
  /-- Tokens that will be freed are complete. -/
  met : ∀ t completed, hand (st.pc t) = .met completed →
    ∀ i, completed.testBit i = true → Completed st (owner t) i
  /-- A token that is neither allocated nor in hand is free. -/
  free : ∀ b < sys.boxCount, ∀ i, ¬Allocated st b i → ¬InHand owner st b i →
    phase i (st.log b) = some .free
  /-- A token that is allocated and not complete is busy. -/
  busy : ∀ b < sys.boxCount, ∀ i, Allocated st b i → ¬Completed st b i →
    phase i (st.log b) = some .busy
  /-- A token that is complete or in hand is done. -/
  done : ∀ b < sys.boxCount, ∀ i, Completed st b i ∨ InHand owner st b i →
    phase i (st.log b) = some .done

/-- Status of a token in the hands of a holder. -/
def Status : Holder → ℕ → ℕ → Prop
  | .delivered _ _, b, i => Completed st b i ∨ InHand owner st b i
  | _, b, i => Allocated st b i ∧ ¬Completed st b i

/-- Every token has one holder, and every descriptor one request. -/
structure Holders : Prop where
  /-- A token has one holder in its box. -/
  token : ∀ u v g h, holding sys owner st u = some g → holding sys owner st v = some h →
    g.box = h.box → g.token = h.token → u = v
  /-- A descriptor has one holder. -/
  desc : ∀ u v g h address, holding sys owner st u = some g → holding sys owner st v = some h →
    g.desc = some address → h.desc = some address → u = v
  /-- A token is one bit, and delivered requests are complete. -/
  status : ∀ u h, holding sys owner st u = some h →
    h.box < sys.boxCount ∧ ∃ i < 32, h.token = 2^i ∧ Status owner st u h.box i
  /-- No delivered request is on record twice. -/
  nodup : ∀ b < sys.boxCount, (st.delivered b).Nodup

/-- Free slots of the send or the receive pool. -/
def freeOf (l : BoxLists) (receives : Bool) : List ℕ :=
  if receives = true then l.recvFree else l.sendFree

/-- Requests in the send or the receive queue. -/
def listOf (l : BoxLists) (receives : Bool) : List ℕ :=
  if receives = true then l.recv else l.send

/-- The pools are well formed, and threads hold slots of their own. -/
structure Pools (d : ℕ → BoxLists) : Prop where
  /-- The pools are well formed. -/
  queued : Queued sys st.mem d
  /-- The slot of a thread is in no list. -/
  held : ∀ t receives slot, slotOf (st.pc t) = some (receives, slot) →
    Held (queueOf (st.mem.box (owner t)) receives) (freeOf (d (owner t)) receives)
      (fun _ => listOf (d (owner t)) receives) slot
  /-- No other thread has it. -/
  distinct : ∀ t t' x, owner t = owner t' → slotOf (st.pc t) = some x →
    slotOf (st.pc t') = some x → t = t'
  /-- A request that will be queued has been filled in. -/
  filled : ∀ t call slot, st.pc t = .posting call slot →
    (Request.io st.mem ⟨owner t, call.receives, slot⟩).desc = call.desc

/-- The invariant of the system. -/
structure Invariant : Prop where
  /-- Critical sections exclude each other. -/
  exclusive : Exclusive owner st
  /-- The token sets are in order. -/
  bits : Bits sys owner st
  /-- The holders are in order. -/
  holders : Holders sys owner st
  /-- The pools are in order. -/
  pools : ∃ d, Pools sys owner st d

end Invariant

/-! ## Steps that leave the requests alone -/

/-- Tokens and locks apart, the memory is the same. -/
structure SameEntries (mem mem' : Memory) : Prop where
  /-- The descriptors are the same. -/
  desc : mem'.desc = mem.desc
  /-- The send queues are the same. -/
  sendQueue : ∀ b, (mem'.box b).sendQueue = (mem.box b).sendQueue
  /-- The send requests are the same. -/
  sendIo : ∀ b, (mem'.box b).sendIo = (mem.box b).sendIo
  /-- The receive queues are the same. -/
  recvQueue : ∀ b, (mem'.box b).recvQueue = (mem.box b).recvQueue
  /-- The receive requests are the same. -/
  recvIo : ∀ b, (mem'.box b).recvIo = (mem.box b).recvIo

theorem SameEntries.refl (mem : Memory) : SameEntries mem mem :=
  ⟨rfl, fun _ => rfl, fun _ => rfl, fun _ => rfl, fun _ => rfl⟩

theorem sameEntries_setBox {mem : Memory} {b : ℕ} {ipc : BoxIpc}
    (hsendQueue : ipc.sendQueue = (mem.box b).sendQueue) (hsendIo : ipc.sendIo = (mem.box b).sendIo)
    (hrecvQueue : ipc.recvQueue = (mem.box b).recvQueue)
    (hrecvIo : ipc.recvIo = (mem.box b).recvIo) : SameEntries mem (mem.setBox b ipc) :=
  ⟨rfl, setBox_field BoxIpc.sendQueue hsendQueue, setBox_field BoxIpc.sendIo hsendIo,
    setBox_field BoxIpc.recvQueue hrecvQueue, setBox_field BoxIpc.recvIo hrecvIo⟩

/-- Tokens are in the same descriptors, and descriptors in the same requests. -/
structure SameHeld (sys : Platform) (mem mem' : Memory) : Prop where
  /-- The tokens of the descriptors are the same. -/
  token : ∀ address, (mem'.desc address).token = (mem.desc address).token
  /-- The queues are the same. -/
  queue : ∀ b < sys.boxCount, ∀ receives, slots mem' b receives = slots mem b receives
  /-- The descriptors of queued requests are the same. -/
  desc : ∀ q : Request, q.box < sys.boxCount → q.slot ∈ slots mem q.box q.receives →
    (q.io mem').desc = (q.io mem).desc

theorem SameEntries.sameHeld {mem mem' : Memory} (h : SameEntries mem mem') (sys : Platform) :
    SameHeld sys mem mem' where
  token address := by rw [h.desc]
  queue b _ receives := by simp only [slots, queueOf, h.sendQueue, h.recvQueue]
  desc q _ _ := by simp only [Request.io, h.sendIo, h.recvIo]

section Frame

variable {sys : Platform} {owner : ℕ → ℕ} {st st' : State} {t : ℕ} {pc : Pc} {mem : Memory}

@[simp] theorem goto_pc_self : (st.goto t pc mem).pc t = pc := Function.update_self ..

theorem goto_pc_of_ne {u : ℕ} (h : u ≠ t) : (st.goto t pc mem).pc u = st.pc u :=
  Function.update_of_ne h ..

@[simp] theorem goto_mem : (st.goto t pc mem).mem = mem := rfl

@[simp] theorem goto_log : (st.goto t pc mem).log = st.log := rfl

@[simp] theorem goto_delivered : (st.goto t pc mem).delivered = st.delivered := rfl

/-- A property of all positions after a step of one thread. -/
theorem goto_cases {P : ℕ → Pc → Prop} (mem : Memory) (hself : P t pc) (hother : ∀ u, u ≠ t → P u (st.pc u))
    (u : ℕ) : P u ((st.goto t pc mem).pc u) := by
  by_cases hu : u = t
  · rw [hu, goto_pc_self]
    exact hself
  · rw [goto_pc_of_ne hu]
    exact hother u hu

/-- What a thread holds depends on the tokens of descriptors only. -/
theorem pcHolding_congr (hmem : ∀ address, (mem.desc address).token = (st.mem.desc address).token)
    (b : ℕ) (pc : Pc) : pcHolding b mem pc = pcHolding b st.mem pc := by
  cases pc <;> simp only [pcHolding, hmem]

/-- Other threads and all requests hold what they held. -/
theorem holding_goto_of_ne (hmem : SameHeld sys st.mem mem) {u : Holder} (hu : u ≠ .thread t) :
    holding sys owner (st.goto t pc mem) u = holding sys owner st u := by
  cases u with
  | thread u =>
    have hne : u ≠ t := fun he => hu (by rw [he])
    simp only [holding, goto_mem, goto_pc_of_ne hne, pcHolding_congr hmem.token]
  | queued q =>
    by_cases hq : q.box < sys.boxCount ∧ q.slot ∈ slots st.mem q.box q.receives
    · have hq' : q.box < sys.boxCount ∧
          q.slot ∈ slots (st.goto t pc mem).mem q.box q.receives := by
        rwa [goto_mem, hmem.queue q.box hq.1]
      rw [holding_queued hq, holding_queued hq', goto_mem, Request.desc, Request.desc,
        hmem.desc q hq.1 hq.2, hmem.token]
    · have hq' : ¬(q.box < sys.boxCount ∧
          q.slot ∈ slots (st.goto t pc mem).mem q.box q.receives) := by
        rintro ⟨hb, hmem'⟩
        rw [goto_mem, hmem.queue q.box hb] at hmem'
        exact hq ⟨hb, hmem'⟩
      rw [holding_queued_eq_none hq, holding_queued_eq_none hq']
  | delivered b address => simp only [holding, goto_mem, goto_delivered, hmem.token]

/-- A thread that holds nothing new leaves the holders as they were. -/
theorem holding_goto (hmem : SameHeld sys st.mem mem) (hpc : pcHolding (owner t) st.mem pc = none ∨
      pcHolding (owner t) st.mem pc = pcHolding (owner t) st.mem (st.pc t)) {u : Holder}
    {g : Holding} (h : holding sys owner (st.goto t pc mem) u = some g) :
    holding sys owner st u = some g := by
  by_cases hu : u = .thread t
  · subst hu
    simp only [holding, goto_mem, goto_pc_self, pcHolding_congr hmem.token] at h ⊢
    rcases hpc with hpc | hpc
    · rw [hpc] at h
      cases h
    · rwa [← hpc]
  · rwa [holding_goto_of_ne hmem hu] at h

/-- Tokens that go from one holder to another, or are given up, stay in order
when no two holders have theirs from the same one. -/
theorem Holders.of_moved (h : Holders sys owner st) (Was : Holder → Holder → Prop)
    (hwas : ∀ u g, holding sys owner st' u = some g → ∃ v, Was u v ∧ holding sys owner st v = some g)
    (hinj : ∀ u u' v g g', holding sys owner st' u = some g → holding sys owner st' u' = some g' →
      Was u v → Was u' v → u = u')
    (hstatus : ∀ u v g i, holding sys owner st' u = some g → Was u v → g.token = 2^i →
      Status owner st v g.box i → Status owner st' u g.box i)
    (hnodup : ∀ b < sys.boxCount, (st'.delivered b).Nodup) : Holders sys owner st' where
  token u u' g g' hg hg' hbox htoken := by
    obtain ⟨v, hv, hgv⟩ := hwas u g hg
    obtain ⟨v', hv', hgv'⟩ := hwas u' g' hg'
    obtain rfl := h.token v v' g g' hgv hgv' hbox htoken
    exact hinj u u' v g g' hg hg' hv hv'
  desc u u' g g' address hg hg' ha ha' := by
    obtain ⟨v, hv, hgv⟩ := hwas u g hg
    obtain ⟨v', hv', hgv'⟩ := hwas u' g' hg'
    obtain rfl := h.desc v v' g g' address hgv hgv' ha ha'
    exact hinj u u' v g g' hg hg' hv hv'
  status u g hg := by
    obtain ⟨v, hv, hgv⟩ := hwas u g hg
    obtain ⟨hbox, i, hi, htoken, hs⟩ := h.status v g hgv
    exact ⟨hbox, i, hi, htoken, hstatus u v g i hg hv htoken hs⟩
  nodup := hnodup

/-- Fewer holders stay in order when the status of the rest is kept. -/
theorem Holders.of_less (h : Holders sys owner st)
    (hless : ∀ u g, holding sys owner st' u = some g → holding sys owner st u = some g)
    (hstatus : ∀ u g i, holding sys owner st' u = some g → g.token = 2^i →
      Status owner st u g.box i → Status owner st' u g.box i)
    (hnodup : ∀ b < sys.boxCount, (st'.delivered b).Nodup) : Holders sys owner st' :=
  h.of_moved Eq (fun u g hg => ⟨u, rfl, hless u g hg⟩) (fun _ _ _ _ _ _ _ hu hv => hu.trans hv.symm)
    (fun u _ g i hg hv htoken hs => hstatus u g i hg htoken (hv ▸ hs)) hnodup

/-- A thread without a slot leaves the pools in order. -/
theorem Pools.goto {d : ℕ → BoxLists} (h : Pools sys owner st d) (hmem : SameEntries st.mem mem)
    (hslot : slotOf pc = none) : Pools sys owner (st.goto t pc mem) d := by
  have hqueue : ∀ b receives, queueOf (mem.box b) receives = queueOf (st.mem.box b) receives := by
    intro b receives
    simp only [queueOf, hmem.sendQueue, hmem.recvQueue]
  have hless : ∀ u x, slotOf ((st.goto t pc mem).pc u) = some x → slotOf (st.pc u) = some x :=
    goto_cases (P := fun u pc => ∀ x, slotOf pc = some x → slotOf (st.pc u) = some x) mem
      (fun x hx => by rw [hslot] at hx; cases hx) (fun u _ x hx => hx)
  refine ⟨fun b hb => ?_, fun u receives slot hx => ?_, fun u v x ho hx hy => ?_, ?_⟩
  · rw [goto_mem, hmem.sendQueue, hmem.recvQueue]
    exact h.queued b hb
  · rw [goto_mem, hqueue]
    exact h.held u receives slot (hless u _ hx)
  · exact h.distinct u v x ho (hless u x hx) (hless v x hy)
  · refine goto_cases (P := fun u pc => ∀ call slot, pc = .posting call slot →
      (Request.io mem ⟨owner u, call.receives, slot⟩).desc = call.desc) mem ?_ ?_
    · rintro call slot rfl
      cases hslot
    · intro u _ call slot hu
      have hio := h.filled u call slot hu
      simpa only [Request.io, hmem.sendIo, hmem.recvIo] using hio

/-- The holder of the lock stays in its critical section, or a thread stays
outside. -/
theorem Exclusive.stay (h : Exclusive owner st) (hcritical : critical pc = critical (st.pc t))
    (hlock : ∀ b, (mem.box b).tokensLock = (st.mem.box b).tokensLock) :
    Exclusive owner (st.goto t pc mem) := by
  have hsame : ∀ u, critical ((st.goto t pc mem).pc u) = critical (st.pc u) :=
    goto_cases (P := fun u pc => critical pc = critical (st.pc u)) mem hcritical fun _ _ => rfl
  refine ⟨fun u hu => ?_, fun u v ho hu hv => ?_⟩
  · rw [goto_mem, hlock]
    exact h.locked u (hsame u ▸ hu)
  · exact h.unique u v ho (hsame u ▸ hu) (hsame v ▸ hv)

theorem tokensLock_setTokensLock (mem : Memory) (b c : ℕ) (acquired : Bool) :
    ((mem.setTokensLock b acquired).box c).tokensLock =
      if c = b then acquired else (mem.box c).tokensLock := by
  by_cases hc : c = b
  · subst hc
    simp [Memory.setTokensLock, Memory.setBox]
  · simp [Memory.setTokensLock, Memory.setBox, hc]

/-- A thread enters when the lock is free. -/
theorem Exclusive.acquire (h : Exclusive owner st)
    (hfree : (st.mem.box (owner t)).tokensLock = false) :
    Exclusive owner (st.goto t pc (st.mem.setTokensLock (owner t) true)) := by
  have hout : ∀ u, owner u = owner t → critical (st.pc u) = false := by
    intro u hu
    rw [← Bool.not_eq_true]
    intro hc
    have hl := h.locked u hc
    rw [hu, hfree] at hl
    cases hl
  refine ⟨fun u hu => ?_, fun u v ho hu hv => ?_⟩
  · rw [goto_mem, tokensLock_setTokensLock]
    split_ifs with hb
    · rfl
    · have hne : u ≠ t := fun he => hb (by rw [he])
      rw [goto_pc_of_ne hne] at hu
      exact h.locked u hu
  · by_cases hut : u = t
    · by_cases hvt : v = t
      · rw [hut, hvt]
      · rw [goto_pc_of_ne hvt, hout v (by rw [← ho, hut])] at hv
        cases hv
    · rw [goto_pc_of_ne hut] at hu
      by_cases hvt : v = t
      · rw [hout u (by rw [ho, hvt])] at hu
        cases hu
      · rw [goto_pc_of_ne hvt] at hv
        exact h.unique u v ho hu hv

/-- The holder of the lock leaves. -/
theorem Exclusive.release (h : Exclusive owner st) (hin : critical (st.pc t) = true)
    (hpc : critical pc = false) :
    Exclusive owner (st.goto t pc (st.mem.setTokensLock (owner t) false)) := by
  have hold : ∀ u, critical ((st.goto t pc (st.mem.setTokensLock (owner t) false)).pc u) = true →
      u ≠ t ∧ critical (st.pc u) = true := by
    intro u hu
    by_cases hut : u = t
    · rw [hut, goto_pc_self, hpc] at hu
      cases hu
    · rw [goto_pc_of_ne hut] at hu
      exact ⟨hut, hu⟩
  refine ⟨fun u hu => ?_, fun u v ho hu hv => h.unique u v ho (hold u hu).2 (hold v hv).2⟩
  obtain ⟨hne, hc⟩ := hold u hu
  rw [goto_mem, tokensLock_setTokensLock, if_neg]
  · exact h.locked u hc
  · exact fun ho => hne (h.unique u t ho hc hin)

/-- Tokens in hand stay there while no thread frees or reports any. -/
theorem inHand_goto (mem : Memory) (hold : ∀ c, hand (st.pc t) ≠ .freed c)
    (hnew : ∀ c, hand pc ≠ .freed c) (b i : ℕ) : InHand owner (st.goto t pc mem) b i ↔ InHand owner st b i := by
  constructor
  · rintro ⟨u, c, ho, hc, hbit⟩
    by_cases hu : u = t
    · rw [hu, goto_pc_self] at hc
      exact absurd hc (hnew c)
    · rw [goto_pc_of_ne hu] at hc
      exact ⟨u, c, ho, hc, hbit⟩
  · rintro ⟨u, c, ho, hc, hbit⟩
    have hu : u ≠ t := fun he => hold c (he ▸ hc)
    exact ⟨u, c, ho, by rwa [goto_pc_of_ne hu], hbit⟩

/-- The token sets are the same in two states. -/
structure SameTokens (st st' : State) : Prop where
  /-- The allocated tokens are the same. -/
  allocated : ∀ b, (st'.mem.box b).allocatedTokens = (st.mem.box b).allocatedTokens
  /-- The completed tokens are the same. -/
  completed : ∀ b, (st'.mem.box b).completedTokens = (st.mem.box b).completedTokens

/-- Bits stay in order in a step that writes no token sets. -/
theorem Bits.of_same (h : Bits sys owner st) (hsame : SameTokens st st')
    (hlog : st'.log = st.log) (hin : ∀ b i, InHand owner st' b i ↔ InHand owner st b i)
    (hfound : ∀ t token, hand (st'.pc t) = .found token →
      token = 0 ∨ ∃ i < 32, token = 2^i ∧ ¬Allocated st (owner t) i)
    (hmet : ∀ t completed, hand (st'.pc t) = .met completed →
      ∀ i, completed.testBit i = true → Completed st (owner t) i) : Bits sys owner st' := by
  have ha : ∀ b i, Allocated st' b i ↔ Allocated st b i := by
    intro b i
    rw [Allocated, Allocated, hsame.allocated]
  have hc : ∀ b i, Completed st' b i ↔ Completed st b i := by
    intro b i
    rw [Completed, Completed, hsame.completed]
  constructor
  · intro b hb i
    rw [ha, hc]
    exact h.subset b hb i
  · intro b hb i
    rw [ha, hin]
    exact h.inHand b hb i
  · intro t token htoken
    simpa only [ha] using hfound t token htoken
  · intro t completed hcompleted i
    rw [hc]
    exact hmet t completed hcompleted i
  · intro b hb i
    rw [ha, hin, hlog]
    exact h.free b hb i
  · intro b hb i
    rw [ha, hc, hlog]
    exact h.busy b hb i
  · intro b hb i
    rw [hc, hin, hlog]
    exact h.done b hb i

/-- A status is kept where tokens and hands are. -/
theorem status_of_same (hsame : SameTokens st st')
    (hin : ∀ b i, InHand owner st' b i ↔ InHand owner st b i) {u : Holder} {b i : ℕ}
    (h : Status owner st u b i) : Status owner st' u b i := by
  cases u with
  | thread u => simpa only [Status, Allocated, Completed, hsame.allocated, hsame.completed] using h
  | queued q => simpa only [Status, Allocated, Completed, hsame.allocated, hsame.completed] using h
  | delivered c a => simpa only [Status, Completed, hin, hsame.completed] using h

/-- Bits stay in order in a step of a thread that writes no token sets and has
no more in hand than it may have. -/
theorem Bits.goto (h : Bits sys owner st) (hsame : SameTokens st (st.goto t pc mem))
    (hold : ∀ c, hand (st.pc t) ≠ .freed c) (hnew : ∀ c, hand pc ≠ .freed c)
    (hfound : ∀ token, hand pc = .found token →
      token = 0 ∨ ∃ i < 32, token = 2^i ∧ ¬Allocated st (owner t) i)
    (hmet : ∀ completed, hand pc = .met completed →
      ∀ i, completed.testBit i = true → Completed st (owner t) i) :
    Bits sys owner (st.goto t pc mem) := by
  refine h.of_same hsame rfl (inHand_goto mem hold hnew) ?_ ?_
  · exact goto_cases (P := fun u pc => ∀ token, hand pc = .found token → token = 0 ∨
      ∃ i < 32, token = 2^i ∧ ¬Allocated st (owner u) i) mem hfound fun u _ => h.found u
  · exact goto_cases (P := fun u pc => ∀ completed, hand pc = .met completed →
      ∀ i, completed.testBit i = true → Completed st (owner u) i) mem hmet fun u _ => h.met u

/-- A step of a thread that neither frees nor reports tokens. -/
theorem Invariant.goto (h : Invariant sys owner st)
    (hexclusive : Exclusive owner (st.goto t pc mem)) (hmem : SameHeld sys st.mem mem)
    (hsame : SameTokens st (st.goto t pc mem)) (hold : ∀ c, hand (st.pc t) ≠ .freed c)
    (hnew : ∀ c, hand pc ≠ .freed c)
    (hfound : ∀ token, hand pc = .found token →
      token = 0 ∨ ∃ i < 32, token = 2^i ∧ ¬Allocated st (owner t) i)
    (hmet : ∀ completed, hand pc = .met completed →
      ∀ i, completed.testBit i = true → Completed st (owner t) i)
    (hpc : pcHolding (owner t) st.mem pc = none ∨
      pcHolding (owner t) st.mem pc = pcHolding (owner t) st.mem (st.pc t))
    (hpools : ∃ d, Pools sys owner (st.goto t pc mem) d) :
    Invariant sys owner (st.goto t pc mem) := by
  refine ⟨hexclusive, h.bits.goto hsame hold hnew hfound hmet, ?_, hpools⟩
  exact h.holders.of_less (fun u g => holding_goto hmem hpc)
    (fun u g i _ _ => status_of_same hsame (inHand_goto mem hold hnew)) h.holders.nodup

end Frame

/-! ## Steps that write token sets -/

section Tokens

variable {sys : Platform} {owner : ℕ → ℕ} {st : State} {t : ℕ} {log : List Event} {i : ℕ}

/-- A history goes on as before for tokens that an event does not touch. -/
theorem phase_untouched {event : Event} (h : ∀ p, Event.advance i event p = some p) :
    phase i (event :: log) = phase i log := by
  rw [phase]
  cases phase i log with
  | none => rfl
  | some p => exact h p

theorem phase_allocated_of_not {token : ℕ} (h : ¬token.testBit i = true) :
    phase i (.allocated token :: log) = phase i log :=
  phase_untouched fun p => by rw [Event.advance, if_neg h]

theorem phase_reported_of_not {doneTokens : ℕ} (h : ¬doneTokens.testBit i = true) :
    phase i (.reported doneTokens :: log) = phase i log :=
  phase_untouched fun p => by rw [Event.advance, if_neg h]

theorem phase_completed_of_not {token : ℕ} (h : ¬token.testBit i = true) :
    phase i (.completed token :: log) = phase i log :=
  phase_untouched fun p => by rw [Event.advance, if_neg h]

/-- What a thread has in hand, it has in a critical section. -/
theorem critical_of_freed {pc : Pc} {completed : ℕ} (h : hand pc = .freed completed) :
    critical pc = true := by
  cases pc with
  | leaving call c met => rfl
  | _ => cases h

theorem critical_of_found {pc : Pc} {token : ℕ} (h : hand pc = .found token) :
    critical pc = true := by
  cases pc with
  | marking call c => rfl
  | leaving call c met => rfl
  | _ => cases h

theorem critical_of_met {pc : Pc} {completed : ℕ} (h : hand pc = .met completed) :
    critical pc = true := by
  cases pc with
  | freeing call c => rfl
  | leaving call c met => rfl
  | _ => cases h

/-- Nobody has tokens in hand while another thread is in a critical section. -/
theorem Exclusive.not_inHand (h : Exclusive owner st) (hin : critical (st.pc t) = true)
    (hempty : ∀ c, hand (st.pc t) ≠ .freed c) : ¬InHand owner st (owner t) i := by
  rintro ⟨u, c, ho, hc, -⟩
  obtain rfl := h.unique u t ho (critical_of_freed hc) hin
  exact hempty c hc

theorem testBit_of_two_pow {token j : ℕ} (h : token = 2^j) :
    token.testBit i = true ↔ i = j := by
  rw [h, Nat.testBit_two_pow]
  simp [eq_comm]

/-- The tokens of the box after a thread has marked one. -/
theorem allocated_marked (mem : Memory) (b c token : ℕ) :
    ((mem.setBox b {mem.box b with
        allocatedTokens := (mem.box b).allocatedTokens ||| token}).box c).allocatedTokens.testBit i =
      true ↔ (mem.box c).allocatedTokens.testBit i = true ∨ c = b ∧ token.testBit i = true := by
  by_cases hc : c = b
  · subst hc
    simp [Memory.setBox, Nat.testBit_or]
  · simp [Memory.setBox, hc]

/-- A thread allocates the token that it has found. -/
theorem Invariant.mark (h : Invariant sys owner st) (howner : owner t < sys.boxCount)
    {call : IoCall} {token : ℕ} (hpc : st.pc t = .marking call token) :
    Invariant sys owner ((st.goto t (.marked call token) (st.mem.setBox (owner t)
      {st.mem.box (owner t) with
        allocatedTokens := (st.mem.box (owner t)).allocatedTokens ||| token})).record (owner t)
      (.allocated token)) := by
  set mem' := st.mem.setBox (owner t) {st.mem.box (owner t) with
    allocatedTokens := (st.mem.box (owner t)).allocatedTokens ||| token}
  set st' := (st.goto t (.marked call token) mem').record (owner t) (.allocated token)
  have hcritical : critical (st.pc t) = true := by rw [hpc]; rfl
  have hentries : SameEntries st.mem mem' := sameEntries_setBox rfl rfl rfl rfl
  have hnone : ∀ i, ¬InHand owner st (owner t) i := fun i =>
    h.exclusive.not_inHand hcritical (by rw [hpc]; intro c hc; cases hc)
  have hin : ∀ b i, InHand owner st' b i ↔ InHand owner st b i := fun b i =>
    inHand_goto mem' (by rw [hpc]; intro c hc; cases hc) (by intro c hc; cases hc) b i
  have ha : ∀ b i, Allocated st' b i ↔ Allocated st b i ∨ b = owner t ∧ token.testBit i = true :=
    fun b i => allocated_marked st.mem (owner t) b token
  have hc : ∀ b i, Completed st' b i ↔ Completed st b i := by
    intro b i
    have hsame : (st'.mem.box b).completedTokens = (st.mem.box b).completedTokens :=
      setBox_field BoxIpc.completedTokens (by rfl) b
    rw [Completed, Completed, hsame]
  have hfresh : ∀ i, token.testBit i = true → ¬Allocated st (owner t) i := by
    intro i hbit
    rcases h.bits.found t token (by rw [hpc]; rfl) with h0 | ⟨j, -, htoken, hfree⟩
    · rw [h0, Nat.zero_testBit] at hbit
      cases hbit
    · rwa [(testBit_of_two_pow htoken).mp hbit]
  have hlog : ∀ b i, ¬(b = owner t ∧ token.testBit i = true) →
      phase i (st'.log b) = phase i (st.log b) := by
    intro b i hnot
    by_cases hb : b = owner t
    · have hbit : ¬token.testBit i = true := fun hbit => hnot ⟨hb, hbit⟩
      rw [hb]
      simpa [st', State.record] using phase_allocated_of_not hbit
    · simp [st', State.record, hb]
  obtain ⟨d, hpools⟩ := h.pools
  have hholders : ∀ u g, holding sys owner st' u = some g →
      holding sys owner st u = some g ∨
        u = .thread t ∧ g = ⟨owner t, token, none⟩ ∧ token ≠ 0 := by
    intro u g hg
    by_cases hu : u = .thread t
    · subst hu
      have hself : holding sys owner st' (.thread t) =
          pcHolding (owner t) mem' (.marked call token) := by
        simp only [holding, st', State.record, goto_pc_self, goto_mem]
      rw [hself, pcHolding] at hg
      split_ifs at hg with h0
      exact Or.inr ⟨rfl, (Option.some.inj hg).symm, h0⟩
    · exact Or.inl ((holding_goto_of_ne (hentries.sameHeld sys) hu).symm.trans hg)
  have hstatus : ∀ u b i, ¬(b = owner t ∧ token.testBit i = true) → Status owner st u b i →
      Status owner st' u b i := by
    intro u b i hnot hs
    cases u with
    | thread u => exact ⟨(ha b i).mpr (Or.inl hs.1), fun hcc => hs.2 ((hc b i).mp hcc)⟩
    | queued q => exact ⟨(ha b i).mpr (Or.inl hs.1), fun hcc => hs.2 ((hc b i).mp hcc)⟩
    | delivered c a => exact hs.imp (hc b i).mpr (hin b i).mpr
  -- Nobody else holds the token: it would be allocated or in hand.
  have hother : ∀ u g, holding sys owner st u = some g → ¬(g.box = owner t ∧ g.token = token) := by
    rintro u g hg ⟨hbox, rfl⟩
    obtain ⟨hb, i, -, htoken, hs⟩ := h.holders.status u g hg
    rw [hbox] at hs hb
    have hfree := hfresh i ((testBit_of_two_pow htoken).mpr rfl)
    cases u with
    | thread u => exact hfree hs.1
    | queued q => exact hfree hs.1
    | delivered c a => exact hs.elim (fun hcc => hfree (h.bits.subset _ hb i hcc)) (hnone i)
  refine ⟨?_, ⟨?_, ?_, ?_, ?_, ?_, ?_, ?_⟩, ⟨?_, ?_, ?_, h.holders.nodup⟩, d, ?_⟩
  · have hstay : Exclusive owner (st.goto t (.marked call token) mem') :=
      h.exclusive.stay (by rw [hpc]; rfl) (setBox_field BoxIpc.tokensLock rfl)
    exact ⟨hstay.locked, hstay.unique⟩
  · intro b hb i hcc
    exact (ha b i).mpr (Or.inl (h.bits.subset b hb i ((hc b i).mp hcc)))
  · intro b hb i hhand hall
    rw [hin] at hhand
    rcases (ha b i).mp hall with hall | ⟨rfl, -⟩
    · exact h.bits.inHand b hb i hhand hall
    · exact hnone i hhand
  · refine goto_cases (P := fun u pc => ∀ τ, hand pc = .found τ →
      τ = 0 ∨ ∃ i < 32, τ = 2^i ∧ ¬Allocated st' (owner u) i) mem' ?_ ?_
    · intro τ hτ
      cases hτ
    · intro u hu τ hτ
      refine (h.bits.found u τ hτ).imp_right fun ⟨i, hi, he, hfree⟩ => ⟨i, hi, he, fun hall => ?_⟩
      rcases (ha _ i).mp hall with hall | ⟨ho, -⟩
      · exact hfree hall
      · exact hu (h.exclusive.unique u t ho (critical_of_found hτ) hcritical)
  · refine goto_cases (P := fun u pc => ∀ c, hand pc = .met c →
      ∀ i, c.testBit i = true → Completed st' (owner u) i) mem' ?_ ?_
    · intro c hcc
      cases hcc
    · intro u hu c hcc i hbit
      exact (hc _ i).mpr (h.bits.met u c hcc i hbit)
  · intro b hb i hall hhand
    rw [ha, not_or] at hall
    rw [hlog b i hall.2]
    exact h.bits.free b hb i hall.1 (fun hh => hhand ((hin b i).mpr hh))
  · intro b hb i hall hcc
    rw [hc] at hcc
    by_cases hnew : b = owner t ∧ token.testBit i = true
    · obtain ⟨rfl, hbit⟩ := hnew
      have hfree := h.bits.free _ hb i (hfresh i hbit) (hnone i)
      simp [st', State.record, phase, hfree, Event.advance, hbit]
    · rw [hlog b i hnew]
      exact h.bits.busy b hb i (((ha b i).mp hall).resolve_right hnew) hcc
  · intro b hb i hdone
    rw [hc, hin] at hdone
    have hnot : ¬(b = owner t ∧ token.testBit i = true) := by
      rintro ⟨rfl, hbit⟩
      exact hdone.elim (fun hcc => hfresh i hbit (h.bits.subset _ hb i hcc)) (hnone i)
    rw [hlog b i hnot]
    exact h.bits.done b hb i hdone
  · intro u v g k hg hk hbox htoken
    rcases hholders u g hg with hg | ⟨rfl, rfl, -⟩
    · rcases hholders v k hk with hk | ⟨rfl, rfl, -⟩
      · exact h.holders.token u v g k hg hk hbox htoken
      · exact absurd ⟨hbox, htoken⟩ (hother u g hg)
    · rcases hholders v k hk with hk | ⟨rfl, rfl, -⟩
      · exact absurd ⟨hbox.symm, htoken.symm⟩ (hother v k hk)
      · rfl
  · intro u v g k address hg hk hga hka
    rcases hholders u g hg with hg | ⟨rfl, rfl, -⟩
    · rcases hholders v k hk with hk | ⟨rfl, rfl, -⟩
      · exact h.holders.desc u v g k address hg hk hga hka
      · cases hka
    · cases hga
  · intro u g hg
    rcases hholders u g hg with hg | ⟨rfl, rfl, h0⟩
    · obtain ⟨hb, i, hi, htoken, hs⟩ := h.holders.status u g hg
      refine ⟨hb, i, hi, htoken, hstatus u g.box i ?_ hs⟩
      rintro ⟨hbox, hbit⟩
      rcases h.bits.found t token (by rw [hpc]; rfl) with h0 | ⟨j, -, hj, -⟩
      · rw [h0, Nat.zero_testBit] at hbit
        cases hbit
      · rw [(testBit_of_two_pow hj).mp hbit] at htoken
        exact hother u g hg ⟨hbox, htoken.trans hj.symm⟩
    · obtain ⟨j, hj, htoken, -⟩ := (h.bits.found t token (by rw [hpc]; rfl)).resolve_left h0
      have hbit : token.testBit j = true := (testBit_of_two_pow htoken).mpr rfl
      refine ⟨howner, j, hj, htoken, (ha _ j).mpr (Or.inr ⟨rfl, hbit⟩), fun hcc => ?_⟩
      exact hfresh j hbit (h.bits.subset _ howner j ((hc _ j).mp hcc))
  · have hpools' : Pools sys owner (st.goto t (.marked call token) mem') d :=
      hpools.goto hentries rfl
    exact ⟨hpools'.queued, hpools'.held, hpools'.distinct, hpools'.filled⟩

/-- The token sets after a thread has freed completed tokens. -/
theorem tokens_freed (mem : Memory) (b c completed : ℕ) :
    let mem' := mem.setBox b (ipcFreeAllocatedCompletedTokens (mem.box b) completed)
    ((mem'.box c).allocatedTokens.testBit i = true ↔
        (mem.box c).allocatedTokens.testBit i = true ∧ ¬(c = b ∧ completed.testBit i = true)) ∧
      ((mem'.box c).completedTokens.testBit i = true ↔
        (mem.box c).completedTokens.testBit i = true ∧ ¬(c = b ∧ completed.testBit i = true)) := by
  by_cases hc : c = b
  · subst hc
    simp [Memory.setBox, ipcFreeAllocatedCompletedTokens]
  · simp [Memory.setBox, hc]

/-- A successful wait frees its tokens, which it then has in hand. -/
theorem Invariant.free (h : Invariant sys owner st) (howner : owner t < sys.boxCount)
    {call : WaitCall} {completed : ℕ} (hpc : st.pc t = .freeing call completed) :
    Invariant sys owner (st.goto t (.leaving call completed true) (st.mem.setBox (owner t)
      (ipcFreeAllocatedCompletedTokens (st.mem.box (owner t)) completed))) := by
  set mem' := st.mem.setBox (owner t)
    (ipcFreeAllocatedCompletedTokens (st.mem.box (owner t)) completed)
  set st' := st.goto t (.leaving call completed true) mem'
  have hcritical : critical (st.pc t) = true := by rw [hpc]; rfl
  have hentries : SameEntries st.mem mem' := sameEntries_setBox rfl rfl rfl rfl
  have hnone : ∀ i, ¬InHand owner st (owner t) i := fun i =>
    h.exclusive.not_inHand hcritical (by rw [hpc]; intro c hc; cases hc)
  have hmet : ∀ i, completed.testBit i = true → Completed st (owner t) i :=
    h.bits.met t completed (by rw [hpc]; rfl)
  have ha : ∀ b i, Allocated st' b i ↔
      Allocated st b i ∧ ¬(b = owner t ∧ completed.testBit i = true) :=
    fun b i => (tokens_freed st.mem (owner t) b completed).1
  have hc : ∀ b i, Completed st' b i ↔
      Completed st b i ∧ ¬(b = owner t ∧ completed.testBit i = true) :=
    fun b i => (tokens_freed st.mem (owner t) b completed).2
  have hin : ∀ b i, InHand owner st' b i ↔
      InHand owner st b i ∨ b = owner t ∧ completed.testBit i = true := by
    intro b i
    constructor
    · rintro ⟨u, c, ho, hu, hbit⟩
      by_cases hut : u = t
      · subst hut
        rw [goto_pc_self] at hu
        cases hu
        exact Or.inr ⟨ho.symm, hbit⟩
      · rw [goto_pc_of_ne hut] at hu
        exact Or.inl ⟨u, c, ho, hu, hbit⟩
    · rintro (⟨u, c, ho, hu, hbit⟩ | ⟨rfl, hbit⟩)
      · have hut : u ≠ t := by
          rintro rfl
          rw [hpc] at hu
          cases hu
        exact ⟨u, c, ho, by rwa [goto_pc_of_ne hut], hbit⟩
      · exact ⟨t, completed, rfl, by rw [goto_pc_self]; rfl, hbit⟩
  have hdone : ∀ b i, Completed st' b i ∨ InHand owner st' b i ↔
      Completed st b i ∨ InHand owner st b i := by
    intro b i
    rw [hc, hin]
    constructor
    · rintro (⟨hcc, -⟩ | hh | ⟨rfl, hbit⟩)
      · exact Or.inl hcc
      · exact Or.inr hh
      · exact Or.inl (hmet i hbit)
    · rintro (hcc | hh)
      · by_cases hfreed : b = owner t ∧ completed.testBit i = true
        · exact Or.inr (Or.inr hfreed)
        · exact Or.inl ⟨hcc, hfreed⟩
      · exact Or.inr (Or.inl hh)
  have hbusy : ∀ b i, Allocated st' b i ∧ ¬Completed st' b i ↔
      Allocated st b i ∧ ¬Completed st b i := by
    intro b i
    rw [ha, hc]
    constructor
    · rintro ⟨⟨hall, hnot⟩, hcc⟩
      exact ⟨hall, fun hcomp => hcc ⟨hcomp, hnot⟩⟩
    · rintro ⟨hall, hcc⟩
      refine ⟨⟨hall, ?_⟩, fun hcomp => hcc hcomp.1⟩
      rintro ⟨rfl, hbit⟩
      exact hcc (hmet i hbit)
  obtain ⟨d, hpools⟩ := h.pools
  refine ⟨?_, ⟨?_, ?_, ?_, ?_, ?_, ?_, ?_⟩, ?_, d, hpools.goto hentries rfl⟩
  · exact h.exclusive.stay (by rw [hpc]; rfl) (setBox_field BoxIpc.tokensLock rfl)
  · intro b hb i hcc
    obtain ⟨hcc, hnot⟩ := (hc b i).mp hcc
    exact (ha b i).mpr ⟨h.bits.subset b hb i hcc, hnot⟩
  · intro b hb i hhand hall
    obtain ⟨hall, hnot⟩ := (ha b i).mp hall
    exact ((hin b i).mp hhand).elim (fun hh => h.bits.inHand b hb i hh hall) hnot
  · refine goto_cases (P := fun u pc => ∀ τ, hand pc = .found τ →
      τ = 0 ∨ ∃ i < 32, τ = 2^i ∧ ¬Allocated st' (owner u) i) mem' ?_ ?_
    · intro τ hτ
      cases hτ
    · intro u _ τ hτ
      exact (h.bits.found u τ hτ).imp_right fun ⟨i, hi, he, hfree⟩ =>
        ⟨i, hi, he, fun hall => hfree ((ha _ i).mp hall).1⟩
  · refine goto_cases (P := fun u pc => ∀ c, hand pc = .met c →
      ∀ i, c.testBit i = true → Completed st' (owner u) i) mem' ?_ ?_
    · intro c hcc
      cases hcc
    · intro u hu c hcc i hbit
      refine (hc _ i).mpr ⟨h.bits.met u c hcc i hbit, fun ⟨ho, _⟩ => ?_⟩
      exact hu (h.exclusive.unique u t ho (critical_of_met hcc) hcritical)
  · intro b hb i hall hhand
    rw [hin, not_or] at hhand
    exact h.bits.free b hb i (fun hh => hall ((ha b i).mpr ⟨hh, hhand.2⟩)) hhand.1
  · intro b hb i hall hcc
    obtain ⟨hall, hcc⟩ := (hbusy b i).mp ⟨hall, hcc⟩
    exact h.bits.busy b hb i hall hcc
  · intro b hb i hh
    exact h.bits.done b hb i ((hdone b i).mp hh)
  · refine h.holders.of_less (fun u g => holding_goto (hentries.sameHeld sys) (Or.inl rfl)) ?_ h.holders.nodup
    intro u g i _ _ hs
    cases u with
    | thread u => exact (hbusy _ i).mpr hs
    | queued q => exact (hbusy _ i).mpr hs
    | delivered b a => exact (hdone _ i).mpr hs

/-- A successful wait reports its tokens and returns. -/
theorem Invariant.report (h : Invariant sys owner st) (howner : owner t < sys.boxCount)
    {call : WaitCall} {completed : ℕ} (hpc : st.pc t = .leaving call completed true) :
    Invariant sys owner ((st.goto t .idle (st.mem.setTokensLock (owner t) false)).report (owner t)
      completed) := by
  set mem' := st.mem.setTokensLock (owner t) false
  set st' := (st.goto t .idle mem').report (owner t) completed
  have hcritical : critical (st.pc t) = true := by rw [hpc]; rfl
  have hentries : SameEntries st.mem mem' := sameEntries_setBox rfl rfl rfl rfl
  have ha : ∀ b i, Allocated st' b i ↔ Allocated st b i := by
    intro b i
    have hsame : (st'.mem.box b).allocatedTokens = (st.mem.box b).allocatedTokens :=
      setBox_field BoxIpc.allocatedTokens (by rfl) b
    rw [Allocated, Allocated, hsame]
  have hc : ∀ b i, Completed st' b i ↔ Completed st b i := by
    intro b i
    have hsame : (st'.mem.box b).completedTokens = (st.mem.box b).completedTokens :=
      setBox_field BoxIpc.completedTokens (by rfl) b
    rw [Completed, Completed, hsame]
  have hhand : ∀ i, InHand owner st (owner t) i ↔ completed.testBit i = true := by
    intro i
    constructor
    · rintro ⟨u, c, ho, hu, hbit⟩
      obtain rfl := h.exclusive.unique u t ho (critical_of_freed hu) hcritical
      rw [hpc] at hu
      cases hu
      exact hbit
    · intro hbit
      exact ⟨t, completed, rfl, by rw [hpc]; rfl, hbit⟩
  have hin : ∀ b i, InHand owner st' b i ↔ InHand owner st b i ∧ b ≠ owner t := by
    intro b i
    constructor
    · rintro ⟨u, c, ho, hu, hbit⟩
      have hut : u ≠ t := by
        rintro rfl
        simp only [st', State.report, State.record, goto_pc_self] at hu
        cases hu
      have hu : hand (st.pc u) = .freed c := by
        simpa only [st', State.report, State.record, goto_pc_of_ne hut] using hu
      refine ⟨⟨u, c, ho, hu, hbit⟩, fun hb => ?_⟩
      exact hut (h.exclusive.unique u t (by rw [ho, hb]) (critical_of_freed hu) hcritical)
    · rintro ⟨⟨u, c, ho, hu, hbit⟩, hb⟩
      have hut : u ≠ t := fun he => hb (by rw [← ho, he])
      refine ⟨u, c, ho, ?_, hbit⟩
      simpa only [st', State.report, State.record, goto_pc_of_ne hut] using hu
  have hlog : ∀ b i, ¬(b = owner t ∧ completed.testBit i = true) →
      phase i (st'.log b) = phase i (st.log b) := by
    intro b i hnot
    by_cases hb : b = owner t
    · have hbit : ¬completed.testBit i = true := fun hbit => hnot ⟨hb, hbit⟩
      rw [hb]
      simpa [st', State.report, State.record] using phase_reported_of_not hbit
    · simp [st', State.report, State.record, hb]
  have hnot : ∀ b < sys.boxCount, ∀ i, Allocated st b i →
      ¬(b = owner t ∧ completed.testBit i = true) := by
    rintro b hb i hall ⟨rfl, hbit⟩
    exact h.bits.inHand _ hb i ((hhand i).mpr hbit) hall
  have hpcs : ∀ u, hand (st'.pc u) ≠ .empty → u ≠ t ∧ hand (st'.pc u) = hand (st.pc u) := by
    intro u hu
    have hut : u ≠ t := by
      rintro rfl
      simp only [st', State.report, State.record, goto_pc_self] at hu
      exact hu rfl
    exact ⟨hut, by simp only [st', State.report, State.record, goto_pc_of_ne hut]⟩
  obtain ⟨d, hpools⟩ := h.pools
  refine ⟨?_, ⟨?_, ?_, ?_, ?_, ?_, ?_, ?_⟩, ?_, d, ?_⟩
  · have hout : Exclusive owner (st.goto t .idle mem') := h.exclusive.release hcritical rfl
    exact ⟨hout.locked, hout.unique⟩
  · intro b hb i hcc
    exact (ha b i).mpr (h.bits.subset b hb i ((hc b i).mp hcc))
  · intro b hb i hh hall
    exact h.bits.inHand b hb i ((hin b i).mp hh).1 ((ha b i).mp hall)
  · intro u τ hτ
    obtain ⟨-, hu⟩ := hpcs u (by rw [hτ]; intro he; cases he)
    simpa only [ha] using h.bits.found u τ (hu ▸ hτ)
  · intro u c hcc
    obtain ⟨-, hu⟩ := hpcs u (by rw [hcc]; intro he; cases he)
    simpa only [hc] using h.bits.met u c (hu ▸ hcc)
  · intro b hb i hall hh
    rw [ha] at hall
    by_cases hreport : b = owner t ∧ completed.testBit i = true
    · obtain ⟨rfl, hbit⟩ := hreport
      have hdone := h.bits.done _ hb i (Or.inr ((hhand i).mpr hbit))
      simp [st', State.report, State.record, phase, hdone, Event.advance, hbit]
    · rw [hlog b i hreport]
      refine h.bits.free b hb i hall fun hold => hh ((hin b i).mpr ⟨hold, ?_⟩)
      rintro rfl
      exact hreport ⟨rfl, (hhand i).mp hold⟩
  · intro b hb i hall hcc
    rw [ha] at hall
    rw [hlog b i (hnot b hb i hall)]
    exact h.bits.busy b hb i hall (fun hcomp => hcc ((hc b i).mpr hcomp))
  · intro b hb i hdone
    rcases hdone with hcc | hh
    · rw [hc] at hcc
      rw [hlog b i (hnot b hb i (h.bits.subset b hb i hcc))]
      exact h.bits.done b hb i (Or.inl hcc)
    · obtain ⟨hh, hb'⟩ := (hin b i).mp hh
      rw [hlog b i (fun he => hb' he.1)]
      exact h.bits.done b hb i (Or.inr hh)
  · have hdelivered : ∀ b a, a ∈ st'.delivered b → a ∈ st.delivered b ∧
        (b = owner t → (st.mem.desc a).token &&& completed = 0) := by
      intro b a hmem
      by_cases hb : b = owner t
      · subst hb
        simpa [st', State.report, State.record, mem', Memory.setTokensLock, Memory.setBox] using hmem
      · exact ⟨by simpa [st', State.report, State.record, hb] using hmem, fun he => absurd he hb⟩
    have hgoto : ∀ u g, holding sys owner (st.goto t .idle mem') u = some g →
        holding sys owner st u = some g := fun u g => holding_goto (hentries.sameHeld sys) (Or.inl rfl)
    refine h.holders.of_less (fun u g hg => ?_) (fun u g i hg htoken hs => ?_) (fun b hb => ?_)
    · cases u with
      | thread u => exact hgoto _ g hg
      | queued q => exact hgoto _ g hg
      | delivered b a =>
        obtain ⟨hmem, rfl⟩ := holding_delivered_eq_some hg
        exact holding_delivered ⟨hmem.1, (hdelivered b a hmem.2).1⟩
    · cases u with
      | thread u => exact ⟨(ha _ i).mpr hs.1, fun hcc => hs.2 ((hc _ i).mp hcc)⟩
      | queued q => exact ⟨(ha _ i).mpr hs.1, fun hcc => hs.2 ((hc _ i).mp hcc)⟩
      | delivered b a =>
        obtain ⟨hmem, rfl⟩ := holding_delivered_eq_some hg
        rcases hs with hcc | hh
        · exact Or.inl ((hc b i).mpr hcc)
        · refine Or.inr ((hin b i).mpr ⟨hh, ?_⟩)
          rintro rfl
          -- A request whose token is reported is no longer outstanding.
          have hzero := (hdelivered _ a hmem.2).2 rfl
          have hbit := (hhand i).mp hh
          have htoken' : (st.mem.desc a).token = 2^i := htoken
          have hbits := congrArg (Nat.testBit · i) hzero
          simp [htoken', Nat.testBit_and, hbit] at hbits
    · by_cases hbo : b = owner t
      · subst hbo
        simpa [st', State.report, State.record] using (h.holders.nodup _ hb).filter _
      · simpa [st', State.report, State.record, hbo] using h.holders.nodup b hb
  · have hpools' : Pools sys owner (st.goto t .idle mem') d := hpools.goto hentries rfl
    exact ⟨hpools'.queued, hpools'.held, hpools'.distinct, hpools'.filled⟩

end Tokens

end Uvisor.IpcTokenInvariant
