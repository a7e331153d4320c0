import Uvisor.RpcApi
import Uvisor.PoolOperations

/-!
# Boxes described by lists of slots

The pools of every box are described by their free lists and queue lists. A
write to the memory of one box changes the description of that box in one
place only, and none of them touches the header fields that validation
looks at. Waking up handlers only writes semaphores.
-/

namespace Uvisor.RpcDescription

open PoolQueue PoolInvariant PoolOperations Rpc RpcApi

/-- Lists that describe the pools of one box. -/
structure BoxLists where
  /-- Free outgoing slots. -/
  outFree : List ℕ
  /-- Messages waiting to be sent. -/
  out : List ℕ
  /-- Free incoming slots. -/
  inFree : List ℕ
  /-- Messages in the todo and in the done queue. -/
  incoming : IncomingName → List ℕ
  /-- Free function groups. -/
  groupFree : List ℕ
  /-- Function groups in use. -/
  groups : List ℕ

/-- The pools of a box are well formed, and nobody holds the locks of its
message pools. -/
structure DescribesBox (rpc : BoxRpc) (d : BoxLists) : Prop where
  /-- The outgoing pool and its queue. -/
  outgoing : Represents rpc.outgoing.queues d.outFree (fun _ => d.out)
  /-- The incoming pool and its two queues. -/
  incoming : Represents rpc.incoming.queues d.inFree d.incoming
  /-- The function group pool and its queue. -/
  fnGroups : Represents rpc.fnGroups.queues d.groupFree (fun _ => d.groups)
  /-- The outgoing lock is free. -/
  outgoing_lock : rpc.outgoing.queues.pool.spinlock = false
  /-- The incoming lock is free. -/
  incoming_lock : rpc.incoming.queues.pool.spinlock = false

/-- Every box of the system is described. -/
def Describes (sys : Platform) (boxes : Boxes) (d : ℕ → BoxLists) : Prop :=
  ∀ b < sys.boxCount, DescribesBox (boxes b) (d b)

/-! ## Fields after a write -/

section Fields

variable (boxes : Boxes) (b slot c : ℕ) (msg : Message)

/-- A projection that a write to one box does not change is the same in all
boxes. -/
theorem proj_update {β : Type} (proj : BoxRpc → β) {rpc : BoxRpc}
    (h : proj rpc = proj (boxes b)) : proj (Function.update boxes b rpc c) = proj (boxes c) := by
  by_cases hc : c = b
  · subst hc
    rw [Function.update_self, h]
  · rw [Function.update_of_ne hc]

/-- A projection that a write to one box replaces. -/
theorem proj_update_ite {β : Type} (proj : BoxRpc → β) {rpc : BoxRpc} {value : β}
    (h : proj rpc = value) :
    proj (Function.update boxes b rpc c) = if c = b then value else proj (boxes c) := by
  by_cases hc : c = b
  · subst hc
    rw [Function.update_self, h, if_pos rfl]
  · rw [Function.update_of_ne hc, if_neg hc]

/-- A message array in which a write to one box replaces one message. -/
theorem proj_update_message (proj : BoxRpc → ℕ → Message) {rpc : BoxRpc}
    (h : proj rpc = Function.update (proj (boxes b)) slot msg) (s : ℕ) :
    proj (Function.update boxes b rpc c) s =
      if c = b ∧ s = slot then msg else proj (boxes c) s := by
  by_cases hc : c = b
  · subst hc
    rw [Function.update_self, h]
    by_cases hs : s = slot
    · subst hs
      simp
    · simp [hs]
  · rw [Function.update_of_ne hc, if_neg fun hh => hc hh.1]

@[simp] theorem setOutgoing_queues (q : PoolQueues Unit) :
    (boxes.setOutgoing b q c).outgoing.queues =
      if c = b then q else (boxes c).outgoing.queues :=
  proj_update_ite boxes b c (fun rpc => rpc.outgoing.queues) rfl

@[simp] theorem setOutgoing_messages (q : PoolQueues Unit) :
    (boxes.setOutgoing b q c).outgoing.messages = (boxes c).outgoing.messages :=
  proj_update boxes b c (fun rpc => rpc.outgoing.messages) rfl

@[simp] theorem setOutgoing_incoming (q : PoolQueues Unit) :
    (boxes.setOutgoing b q c).incoming = (boxes c).incoming :=
  proj_update boxes b c BoxRpc.incoming rfl

@[simp] theorem setOutgoing_fnGroups (q : PoolQueues Unit) :
    (boxes.setOutgoing b q c).fnGroups = (boxes c).fnGroups :=
  proj_update boxes b c BoxRpc.fnGroups rfl

@[simp] theorem setOutgoing_resultCounter (q : PoolQueues Unit) :
    (boxes.setOutgoing b q c).resultCounter = (boxes c).resultCounter :=
  proj_update boxes b c BoxRpc.resultCounter rfl

@[simp] theorem setIncoming_queues (q : PoolQueues IncomingName) :
    (boxes.setIncoming b q c).incoming.queues =
      if c = b then q else (boxes c).incoming.queues :=
  proj_update_ite boxes b c (fun rpc => rpc.incoming.queues) rfl

@[simp] theorem setIncoming_messages (q : PoolQueues IncomingName) :
    (boxes.setIncoming b q c).incoming.messages = (boxes c).incoming.messages :=
  proj_update boxes b c (fun rpc => rpc.incoming.messages) rfl

@[simp] theorem setIncoming_outgoing (q : PoolQueues IncomingName) :
    (boxes.setIncoming b q c).outgoing = (boxes c).outgoing :=
  proj_update boxes b c BoxRpc.outgoing rfl

@[simp] theorem setIncoming_fnGroups (q : PoolQueues IncomingName) :
    (boxes.setIncoming b q c).fnGroups = (boxes c).fnGroups :=
  proj_update boxes b c BoxRpc.fnGroups rfl

@[simp] theorem setIncoming_resultCounter (q : PoolQueues IncomingName) :
    (boxes.setIncoming b q c).resultCounter = (boxes c).resultCounter :=
  proj_update boxes b c BoxRpc.resultCounter rfl

@[simp] theorem setOutgoingMessage_queues :
    (boxes.setOutgoingMessage b slot msg c).outgoing.queues = (boxes c).outgoing.queues :=
  proj_update boxes b c (fun rpc => rpc.outgoing.queues) rfl

@[simp] theorem setOutgoingMessage_messages (s : ℕ) :
    (boxes.setOutgoingMessage b slot msg c).outgoing.messages s =
      if c = b ∧ s = slot then msg else (boxes c).outgoing.messages s :=
  proj_update_message boxes b slot c msg (fun rpc => rpc.outgoing.messages) rfl s

@[simp] theorem setOutgoingMessage_incoming :
    (boxes.setOutgoingMessage b slot msg c).incoming = (boxes c).incoming :=
  proj_update boxes b c BoxRpc.incoming rfl

@[simp] theorem setOutgoingMessage_fnGroups :
    (boxes.setOutgoingMessage b slot msg c).fnGroups = (boxes c).fnGroups :=
  proj_update boxes b c BoxRpc.fnGroups rfl

@[simp] theorem setOutgoingMessage_resultCounter :
    (boxes.setOutgoingMessage b slot msg c).resultCounter = (boxes c).resultCounter :=
  proj_update boxes b c BoxRpc.resultCounter rfl

@[simp] theorem setIncomingMessage_queues :
    (boxes.setIncomingMessage b slot msg c).incoming.queues = (boxes c).incoming.queues :=
  proj_update boxes b c (fun rpc => rpc.incoming.queues) rfl

@[simp] theorem setIncomingMessage_messages (s : ℕ) :
    (boxes.setIncomingMessage b slot msg c).incoming.messages s =
      if c = b ∧ s = slot then msg else (boxes c).incoming.messages s :=
  proj_update_message boxes b slot c msg (fun rpc => rpc.incoming.messages) rfl s

@[simp] theorem setIncomingMessage_outgoing :
    (boxes.setIncomingMessage b slot msg c).outgoing = (boxes c).outgoing :=
  proj_update boxes b c BoxRpc.outgoing rfl

@[simp] theorem setIncomingMessage_fnGroups :
    (boxes.setIncomingMessage b slot msg c).fnGroups = (boxes c).fnGroups :=
  proj_update boxes b c BoxRpc.fnGroups rfl

@[simp] theorem setIncomingMessage_resultCounter :
    (boxes.setIncomingMessage b slot msg c).resultCounter = (boxes c).resultCounter :=
  proj_update boxes b c BoxRpc.resultCounter rfl

@[simp] theorem setFnGroups_fnGroups (groups : FnGroups) :
    (boxes.setFnGroups b groups c).fnGroups = if c = b then groups else (boxes c).fnGroups :=
  proj_update_ite boxes b c BoxRpc.fnGroups rfl

@[simp] theorem setFnGroups_outgoing (groups : FnGroups) :
    (boxes.setFnGroups b groups c).outgoing = (boxes c).outgoing :=
  proj_update boxes b c BoxRpc.outgoing rfl

@[simp] theorem setFnGroups_incoming (groups : FnGroups) :
    (boxes.setFnGroups b groups c).incoming = (boxes c).incoming :=
  proj_update boxes b c BoxRpc.incoming rfl

@[simp] theorem setFnGroups_resultCounter (groups : FnGroups) :
    (boxes.setFnGroups b groups c).resultCounter = (boxes c).resultCounter :=
  proj_update boxes b c BoxRpc.resultCounter rfl

end Fields

/-! ## Descriptions after a write -/

section Writes

variable {sys : Platform} {boxes : Boxes} {d : ℕ → BoxLists}

/-- Only the queue structures of a box enter its description. -/
theorem DescribesBox.congr {rpc rpc' : BoxRpc} {l : BoxLists} (h : DescribesBox rpc l)
    (ho : rpc'.outgoing.queues = rpc.outgoing.queues)
    (hi : rpc'.incoming.queues = rpc.incoming.queues)
    (hf : rpc'.fnGroups.queues = rpc.fnGroups.queues) : DescribesBox rpc' l := by
  refine ⟨?_, ?_, ?_, ?_, ?_⟩
  · rw [ho]
    exact h.outgoing
  · rw [hi]
    exact h.incoming
  · rw [hf]
    exact h.fnGroups
  · rw [ho]
    exact h.outgoing_lock
  · rw [hi]
    exact h.incoming_lock

/-- Writes outside the queue structures leave the description alone. -/
theorem Describes.congr {boxes' : Boxes} (h : Describes sys boxes d)
    (ho : ∀ b, (boxes' b).outgoing.queues = (boxes b).outgoing.queues)
    (hi : ∀ b, (boxes' b).incoming.queues = (boxes b).incoming.queues)
    (hf : ∀ b, (boxes' b).fnGroups.queues = (boxes b).fnGroups.queues) :
    Describes sys boxes' d :=
  fun b hb => (h b hb).congr (ho b) (hi b) (hf b)

/-- New outgoing structures are described by new outgoing lists. -/
theorem Describes.setOutgoing (h : Describes sys boxes d) {b : ℕ} {q : PoolQueues Unit}
    {free out : List ℕ} (hq : Represents q free (fun _ => out))
    (hl : q.pool.spinlock = false) :
    Describes sys (boxes.setOutgoing b q)
      (Function.update d b {d b with outFree := free, out := out}) := by
  intro c hc
  have hd := h c hc
  by_cases hcb : c = b
  · subst hcb
    rw [Function.update_self]
    exact ⟨by simpa using hq, by simpa using hd.incoming, by simpa using hd.fnGroups,
      by simpa using hl, by simpa using hd.incoming_lock⟩
  · rw [Function.update_of_ne hcb]
    exact hd.congr (by simp [hcb]) (by simp) (by simp)

/-- New incoming structures are described by new incoming lists. -/
theorem Describes.setIncoming (h : Describes sys boxes d) {b : ℕ} {q : PoolQueues IncomingName}
    {free : List ℕ} {lists : IncomingName → List ℕ} (hq : Represents q free lists)
    (hl : q.pool.spinlock = false) :
    Describes sys (boxes.setIncoming b q)
      (Function.update d b {d b with inFree := free, incoming := lists}) := by
  intro c hc
  have hd := h c hc
  by_cases hcb : c = b
  · subst hcb
    rw [Function.update_self]
    exact ⟨by simpa using hd.outgoing, by simpa using hq, by simpa using hd.fnGroups,
      by simpa using hd.outgoing_lock, by simpa using hl⟩
  · rw [Function.update_of_ne hcb]
    exact hd.congr (by simp) (by simp [hcb]) (by simp)

end Writes

/-! ## Validation after a write -/

/-- Validation of a queue reads header fields only. -/
theorem isValidQueue_congr {ι : Type} (sys : Platform) (address boxId : ℕ)
    {m m' : PoolQueues ι} {name : ι} (h : header m' name = header m name) :
    isValidQueue sys address m' name boxId = isValidQueue sys address m name boxId := by
  simp only [header, Header.mk.injEq] at h
  obtain ⟨hmagic, hpool, hpoolMagic, harray, hstride, hnum⟩ := h
  simp only [isValidQueue, hmagic, hpool, hpoolMagic, harray, hstride, hnum]

/-! ## Waking up handlers -/

/-- What waking up leaves alone in a function group: all but its semaphore. -/
def SameGroup (group group' : FnGroup) : Prop :=
  group'.fnPtrArray = group.fnPtrArray ∧ group'.fnCount = group.fnCount

/-- What waking up the handlers of a function does to the groups: they keep
their functions, and the semaphores of those that contain the function are
then available. -/
structure Posted (sys : Platform) (function : ℕ) (l : List ℕ) (groups groups' : FnGroups) :
    Prop where
  /-- The queue structures. -/
  queues : groups'.queues = groups.queues
  /-- The functions of the groups. -/
  same : ∀ s, SameGroup (groups.fnGroups s) (groups'.fnGroups s)
  /-- No count is lost. -/
  semaphore_le : ∀ s, (groups.fnGroups s).semaphore ≤ (groups'.fnGroups s).semaphore
  /-- Groups with the function are posted to. -/
  available : ∀ s ∈ l, ∀ i < (groups.fnGroups s).fnCount,
    sys.fnPtr (groups.fnGroups s).fnPtrArray i = function → 0 < (groups'.fnGroups s).semaphore

theorem semaphorePost_le (count : ℕ) : count ≤ semaphorePost count := by
  unfold semaphorePost
  split <;> omega

theorem semaphorePost_pos (count : ℕ) : 0 < semaphorePost count := by
  unfold semaphorePost semaphoreMaxCount
  split <;> omega

/-- Posting writes the semaphore only, and makes it available if the function
is among those looked at. -/
theorem postFnGroup_spec (sys : Platform) (function : ℕ) (group : FnGroup) (n : ℕ) :
    SameGroup group (postFnGroup sys function group n).1 ∧
      group.semaphore ≤ (postFnGroup sys function group n).1.semaphore ∧
      ∀ i < n, sys.fnPtr group.fnPtrArray i = function →
        0 < (postFnGroup sys function group n).1.semaphore := by
  induction n with
  | zero => exact ⟨⟨rfl, rfl⟩, Nat.le_refl _, fun i hi => absurd hi (Nat.not_lt_zero i)⟩
  | succ n ih =>
    obtain ⟨hsame, hle, hpos⟩ := ih
    unfold postFnGroup
    dsimp only
    split
    · refine ⟨hsame, ?_, fun i _ _ => semaphorePost_pos _⟩
      exact hle.trans (semaphorePost_le _)
    · rename_i hne
      refine ⟨hsame, hle, fun i hi hf => ?_⟩
      by_cases hin : i = n
      · exact absurd (hin ▸ hf) hne
      · exact hpos i (by omega) hf

/-- A walk over a threaded list of groups ends, and posts on the way only. -/
theorem wakeUpFrom_linked (sys : Platform) (function : ℕ) {before : ℕ} {l : List ℕ} {fuel : ℕ}
    {groups : FnGroups} {posted : ℕ} (hfuel : l.length < fuel)
    (hl : LinkedList.Linked groups.queues.pool.next groups.queues.pool.prev before l slotInvalid)
    (hlt : ∀ s ∈ l, s < groups.queues.pool.num) (hnum : groups.queues.pool.num < poolMaxValid) :
    ∃ woken, wakeUpFrom sys function fuel (l.headD slotInvalid) groups posted = some woken ∧
      Posted sys function l groups woken.1 := by
  induction l generalizing before fuel groups posted with
  | nil =>
    obtain ⟨fuel, rfl⟩ := Nat.exists_eq_succ_of_ne_zero (by omega : fuel ≠ 0)
    have hend : ¬slotInvalid < groups.queues.pool.num := by
      simp only [poolMaxValid, slotInvalid] at *
      omega
    refine ⟨(groups, posted), ?_, rfl, fun s => ⟨rfl, rfl⟩, fun s => Nat.le_refl _, ?_⟩
    · rw [List.headD_nil, wakeUpFrom, if_neg hend]
    · intro s hs
      cases hs
  | cons s l ih =>
    obtain ⟨fuel, rfl⟩ := Nat.exists_eq_succ_of_ne_zero (by omega : fuel ≠ 0)
    rw [List.length_cons] at hfuel
    have hs : s < groups.queues.pool.num := hlt s (by simp)
    let out := postFnGroup sys function (groups.fnGroups s) (groups.fnGroups s).fnCount
    let groups' : FnGroups := ⟨groups.queues, Function.update groups.fnGroups s out.1⟩
    obtain ⟨woken, hw, hp⟩ : ∃ woken,
        wakeUpFrom sys function fuel (l.headD slotInvalid) groups' (posted+out.2) = some woken ∧
          Posted sys function l groups' woken.1 :=
      ih (by omega) hl.2.2 (fun t ht => hlt t (by simp [ht])) hnum
    obtain ⟨hsame, hle, hpos⟩ := postFnGroup_spec sys function (groups.fnGroups s)
      (groups.fnGroups s).fnCount
    have hself : groups'.fnGroups s = out.1 := Function.update_self _ _ _
    have hother : ∀ t, t ≠ s → groups'.fnGroups t = groups.fnGroups t :=
      fun t ht => Function.update_of_ne ht _ _
    refine ⟨woken, ?_, hp.queues, fun t => ?_, fun t => ?_, fun t ht i hi hf => ?_⟩
    · rw [← hl.2.1] at hw
      rw [List.headD_cons, wakeUpFrom, if_pos hs]
      exact hw
    · have ht := hp.same t
      by_cases hts : t = s
      · subst hts
        rw [hself] at ht
        exact ⟨ht.1.trans hsame.1, ht.2.trans hsame.2⟩
      · rwa [hother t hts] at ht
    · have ht := hp.semaphore_le t
      by_cases hts : t = s
      · subst hts
        rw [hself] at ht
        exact hle.trans ht
      · rwa [hother t hts] at ht
    · by_cases hts : t = s
      · subst hts
        have hle' := hp.semaphore_le t
        rw [hself] at hle'
        exact Nat.lt_of_lt_of_le (hpos i hi hf) hle'
      · rcases List.mem_cons.mp ht with he | ht
        · exact absurd he hts
        · have ha := hp.available t ht i
          rw [hother t hts] at ha
          exact ha hi hf

/-- Waking up the handlers of a well-formed box ends, and posts only. -/
theorem wakeUpHandlersForTarget_some (sys : Platform) (function : ℕ) {groups : FnGroups}
    {free l : List ℕ} (h : Represents groups.queues free (fun _ => l)) :
    ∃ woken, wakeUpHandlersForTarget sys function groups = some woken ∧
      Posted sys function l groups woken.1 := by
  have hlen := h.length_le ()
  have hnum := h.num_lt
  unfold wakeUpHandlersForTarget
  rw [h.head ()]
  refine wakeUpFrom_linked sys function ?_ (h.linked ()) (h.lists_lt ()) hnum
  simp only [poolMaxValid] at hnum
  omega

/-! ## Initialization -/

/-- Lists of a freshly initialized box. -/
def initialLists : BoxLists :=
  ⟨List.range outgoingMessageSlots, [], List.range incomingMessageSlots, fun _ => [],
    List.range fnGroupSlots, []⟩

/-- A freshly initialized box is well formed, with all slots free. -/
theorem initialize_describes (layout : Layout) (rpc : BoxRpc) :
    DescribesBox (uvisorInitializeRpcQueues layout rpc) initialLists := by
  refine ⟨?_, ?_, ?_, rfl, rfl⟩
  · exact poolInit_represents (by decide) (by decide) fun _ => by simp
  · refine poolInit_represents (by decide) (by decide) fun i => ?_
    cases i with
    | todo => simp [uvisorPoolQueueInit]
    | done => simp [uvisorPoolQueueInit]
  · exact poolInit_represents (by decide) (by decide) fun _ => by simp

/-! ## A small system -/

/-- Three boxes, whose gateways all lead to one function of box 1. -/
def threeBoxes : Platform where
  flashStart := 0
  secureStart := 0x100000
  cfgtblPtrStart := 0x1000
  boxCount := 3
  bss := fun b => 0x20000000+0x1000*b
  bssSize := fun _ => 0x1000
  gateway := fun _ => ⟨ldrPcPcImmOpcode 0 16, gatewayMagicAsync, 0x1004, 0x3000, 0x4000⟩
  fnPtr := fun _ _ => 0x3000
  outgoingQueue := fun b => 0x20000000+0x1000*b
  incomingQueue := fun name b =>
    match name with
    | .todo => 0x20000010+0x1000*b
    | .done => 0x20000020+0x1000*b

/-- Placement of the RPC structures in the boxes of the small system. -/
def smallLayout (b : ℕ) : Layout :=
  let base := 0x20000000+0x1000*b
  ⟨base+0x40, base+0x100, base+0x80, base+0x400, base+0xC0, base+0x700, 64, 16⟩

/-- Memory of a box before its initialization is all zero. -/
def zeroBox : BoxRpc :=
  let entry : Entry := ⟨0, 0⟩
  let pool : Pool := ⟨0, 0, 0, 0, 0, 0, false, fun _ => entry⟩
  let queue : Queue := ⟨0, 0, 0, 0⟩
  let msg : Message := ⟨0, 0, 0, 0, 0, 0, 0, 0, 0, .invalid, 0⟩
  ⟨⟨⟨pool, fun _ => queue⟩, fun _ => msg⟩, ⟨⟨pool, fun _ => queue⟩, fun _ => msg⟩,
    ⟨⟨pool, fun _ => queue⟩, fun _ => ⟨0, 0, 0⟩⟩, 0⟩

/-- The boxes of the small system after their initialization. -/
def bootedBoxes : Boxes := fun b => uvisorInitializeRpcQueues (smallLayout b) zeroBox

theorem bootedBoxes_describes : Describes threeBoxes bootedBoxes (fun _ => initialLists) :=
  fun b _ => initialize_describes (smallLayout b) zeroBox

end Uvisor.RpcDescription
