import Uvisor.IpcPasses

/-!
# Delivery between honest boxes

Honest boxes use a descriptor and a buffer for one outstanding request at a
time. A delivery then leaves exactly the message in the receive buffer, goes
to the first receive request that fits, and touches no other request. The
boxes stay honest, so that this holds in every iteration of a drain.
-/

namespace Uvisor.IpcDelivery

open PoolQueue PoolInvariant PoolOperations Ipc IpcTermination IpcPasses Execution

/-! ## Outstanding requests -/

/-- A request of a box. -/
@[ext] structure Request where
  /-- Box that has posted it. -/
  box : ℕ
  /-- Whether it is a receive request. -/
  receives : Bool
  /-- Its slot. -/
  slot : ℕ
  deriving DecidableEq

/-- The entry of a request. -/
def Request.io (mem : Memory) (q : Request) : Io :=
  if q.receives = true then (mem.box q.box).recvIo q.slot else (mem.box q.box).sendIo q.slot

/-- The descriptor of a request. -/
def Request.desc (mem : Memory) (q : Request) : Desc := mem.desc (q.io mem).desc

/-- Whether an address is in the buffer of a request. -/
def Request.Covers (mem : Memory) (q : Request) (address : ℕ) : Prop :=
  (q.io mem).msg ≤ address ∧ address < (q.io mem).msg+(q.desc mem).len

/-- Whether a request is in the queue of its box. -/
def Request.Outstanding (sys : Platform) (d : ℕ → BoxLists) (q : Request) : Prop :=
  q.box < sys.boxCount ∧ q.slot ∈ if q.receives = true then (d q.box).recv else (d q.box).send

/-- Honest boxes use a descriptor and a buffer for one outstanding request at
a time, and post receive requests ready to receive. -/
structure Honest (sys : Platform) (mem : Memory) (d : ℕ → BoxLists) : Prop where
  /-- The descriptors are distinct. -/
  desc : ∀ p q : Request, p ≠ q → p.Outstanding sys d → q.Outstanding sys d →
    (p.io mem).desc ≠ (q.io mem).desc
  /-- The buffers do not overlap. -/
  buffer : ∀ (p q : Request) (address : ℕ), p ≠ q → p.Outstanding sys d → q.Outstanding sys d →
    p.Covers mem address → ¬q.Covers mem address
  /-- Receive requests are ready. -/
  ready : ∀ q : Request, q.Outstanding sys d → q.receives = true →
    (q.io mem).state = .readyToRecv

/-- A request is still outstanding, with the same entry, descriptor and
message. -/
structure Intact (sys : Platform) (mem mem' : Memory) (d' : ℕ → BoxLists) (q : Request) : Prop where
  /-- It is in the queue of its box. -/
  outstanding : q.Outstanding sys d'
  /-- Its entry is the same. -/
  io : q.io mem' = q.io mem
  /-- Its descriptor is the same. -/
  desc : q.desc mem' = q.desc mem
  /-- Its buffer is the same. -/
  byte : ∀ address, q.Covers mem address → mem'.byte address = mem.byte address

/-! ## Deliveries -/

section Deliveries

variable (sys : Platform) (mem : Memory) (d : ℕ → BoxLists) (sendBox slot : ℕ) (rest : List ℕ)

/-- A message has been delivered between honest boxes. -/
structure Delivered (recvBox recvSlot : ℕ) (mem' : Memory) (d' : ℕ → BoxLists) : Prop extends
    Transferred mem d sendBox slot rest recvBox recvSlot mem' d' where
  /-- No earlier receive request fits. -/
  first : ∃ before after, (d recvBox).recv = before ++ recvSlot :: after ∧ ∀ other ∈ before,
    ¬Fits sendBox (mem.desc ((mem.box sendBox).sendIo slot).desc)
      (mem.desc ((mem.box recvBox).recvIo other).desc)
  /-- The receive buffer starts with the message, which is as it was. -/
  copied : ∀ i < (mem.desc ((mem.box sendBox).sendIo slot).desc).len,
    mem'.byte (((mem.box recvBox).recvIo recvSlot).msg+i) =
        mem'.byte (((mem.box sendBox).sendIo slot).msg+i) ∧
      mem'.byte (((mem.box sendBox).sendIo slot).msg+i) =
        mem.byte (((mem.box sendBox).sendIo slot).msg+i)
  /-- No other byte is written. -/
  elsewhere : ∀ address, ¬(((mem.box recvBox).recvIo recvSlot).msg ≤ address ∧
      address < ((mem.box recvBox).recvIo recvSlot).msg+
        (mem.desc ((mem.box sendBox).sendIo slot).desc).len) →
    mem'.byte address = mem.byte address
  /-- The receive descriptor names the sender and the length. -/
  received : (mem'.desc ((mem.box recvBox).recvIo recvSlot).desc).boxId = sendBox ∧
    (mem'.desc ((mem.box recvBox).recvIo recvSlot).desc).len =
      (mem.desc ((mem.box sendBox).sendIo slot).desc).len
  /-- The send descriptor is as it was. -/
  source : mem'.desc ((mem.box sendBox).sendIo slot).desc =
    mem.desc ((mem.box sendBox).sendIo slot).desc
  /-- All other requests are as they were. -/
  intact : ∀ q : Request, q.Outstanding sys d → q ≠ ⟨sendBox, false, slot⟩ →
    q ≠ ⟨recvBox, true, recvSlot⟩ → Intact sys mem mem' d' q

end Deliveries

section Proofs

variable {sys : Platform} {mem mem' : Memory} {d d' : ℕ → BoxLists}
  {sendBox slot recvBox recvSlot : ℕ} {rest : List ℕ}

/-- A request other than the pair stays in its queue. -/
theorem outstanding_of_pair {q : Request} (hs : (d sendBox).send = slot :: rest)
    (hsend : ∀ b, (d' b).send = if b = sendBox then rest else (d b).send)
    (hrecv : ∀ b, (d' b).recv = if b = recvBox then (d recvBox).recv.erase recvSlot else (d b).recv)
    (hq : q.Outstanding sys d) (hqs : q ≠ ⟨sendBox, false, slot⟩)
    (hqr : q ≠ ⟨recvBox, true, recvSlot⟩) : q.Outstanding sys d' := by
  rcases q with ⟨box, receives, slot'⟩
  obtain ⟨hbox, hmem⟩ := hq
  refine ⟨hbox, ?_⟩
  cases receives with
  | true =>
    simp only [if_true] at hmem ⊢
    rw [hrecv]
    split_ifs with he
    · subst he
      exact (List.mem_erase_of_ne fun hslot => hqr (by rw [hslot])).mpr hmem
    · exact hmem
  | false =>
    simp only [Bool.false_eq_true, if_false] at hmem ⊢
    rw [hsend]
    split_ifs with he
    · subst he
      rw [hs] at hmem
      exact (List.mem_cons.mp hmem).resolve_left fun hslot => hqs (by rw [hslot])
    · exact hmem

/-- Bytes of the destination of a copy. -/
theorem memcpy_dst (byte : ℕ → UInt8) (dst src len : ℕ) {i : ℕ} (hi : i < len) :
    memcpy byte dst src len (dst+i) = byte (src+i) := by
  rw [memcpy, if_pos ⟨by omega, by omega⟩, Nat.add_sub_cancel_left]

/-- Bytes outside the destination of a copy. -/
theorem memcpy_other (byte : ℕ → UInt8) (dst src len : ℕ) {address : ℕ}
    (h : ¬(dst ≤ address ∧ address < dst+len)) : memcpy byte dst src len address = byte address := by
  rw [memcpy, if_neg h]

/-- A transfer between honest boxes is a delivery. -/
theorem Honest.delivered (hh : Honest sys mem d) (hb : sendBox < sys.boxCount)
    (hs : (d sendBox).send = slot :: rest)
    (hpair : Matched sys mem d sendBox slot recvBox recvSlot)
    (ht : Transferred mem d sendBox slot rest recvBox recvSlot mem' d') :
    Delivered sys mem d sendBox slot rest recvBox recvSlot mem' d' := by
  have hsend : Request.Outstanding sys d ⟨sendBox, false, slot⟩ := ⟨hb, by simp [hs]⟩
  have hrecv : Request.Outstanding sys d ⟨recvBox, true, recvSlot⟩ :=
    ⟨hpair.known, by simp [hpair.mem_recv]⟩
  -- What is written lies in the receive buffer.
  have hroom := hpair.fits.room
  have hkept : ∀ (q : Request) (address : ℕ), q ≠ ⟨recvBox, true, recvSlot⟩ →
      q.Outstanding sys d → q.Covers mem address → mem'.byte address = mem.byte address := by
    intro q address hne hq hcovers
    rw [ht.byte]
    refine memcpy_other _ _ _ _ fun hwritten => ?_
    exact hh.buffer q _ address hne hq hrecv hcovers
      ⟨hwritten.1, lt_of_lt_of_le hwritten.2 (Nat.add_le_add_left hroom _)⟩
  have hdescs : ∀ q : Request, q ≠ ⟨recvBox, true, recvSlot⟩ → q.Outstanding sys d →
      mem'.desc (q.io mem).desc = mem.desc (q.io mem).desc := by
    intro q hne hq
    rw [ht.desc]
    exact Function.update_of_ne (hh.desc q _ hne hq hrecv) _ _
  have hio : ∀ q : Request, q.io mem' = q.io mem := by
    intro q
    simp only [Request.io, ht.same.sendIo, ht.same.recvIo]
  obtain ⟨before, after, hlist, hearlier⟩ := hpair.first
  refine ⟨ht, ⟨before, after, hlist, fun other hother => ?_⟩, fun i hi => ?_, ?_, ?_, ?_, ?_⟩
  · exact hearlier other hother
      (hh.ready ⟨recvBox, true, other⟩ ⟨hpair.known, by simp [hlist, hother]⟩ rfl)
  · have hsource := hkept ⟨sendBox, false, slot⟩ (((mem.box sendBox).sendIo slot).msg+i) (by simp)
      hsend ⟨Nat.le_add_right _ _, Nat.add_lt_add_left hi _⟩
    refine ⟨?_, hsource⟩
    rw [hsource, ht.byte]
    exact memcpy_dst _ _ _ _ hi
  · intro address ha
    rw [ht.byte]
    exact memcpy_other _ _ _ _ ha
  · rw [ht.desc, Function.update_self]
    exact ⟨rfl, rfl⟩
  · exact hdescs ⟨sendBox, false, slot⟩ (by simp) hsend
  · intro q hq hqs hqr
    refine ⟨?_, hio q, ?_, fun address ha => hkept q address hqr hq ha⟩
    · have hlists := ht.lists
      exact outstanding_of_pair hs (fun b => by simp [hlists]) (fun b => by simp [hlists]) hq hqs hqr
    · rw [Request.desc, hio]
      exact hdescs q hqr hq

/-! ## Iterations and drains -/

/-- Requests that are left with their entries and descriptors keep the boxes
honest. -/
theorem Honest.of_left (h : Honest sys mem d) (hleft : ∀ q : Request, q.Outstanding sys d' →
      q.Outstanding sys d ∧ q.io mem' = q.io mem ∧ q.desc mem' = q.desc mem) :
    Honest sys mem' d' where
  desc p q hne hp hq := by
    obtain ⟨hp, hpio, -⟩ := hleft p hp
    obtain ⟨hq, hqio, -⟩ := hleft q hq
    rw [hpio, hqio]
    exact h.desc p q hne hp hq
  buffer p q address hne hp hq := by
    obtain ⟨hp, hpio, hpdesc⟩ := hleft p hp
    obtain ⟨hq, hqio, hqdesc⟩ := hleft q hq
    unfold Request.Covers
    rw [hpio, hpdesc, hqio, hqdesc]
    exact h.buffer p q address hne hp hq
  ready q hq hreceives := by
    obtain ⟨hq, hqio, -⟩ := hleft q hq
    rw [hqio]
    exact h.ready q hq hreceives

/-- Smaller queues without any other write keep the boxes honest. -/
theorem Honest.of_onlyQueues (h : Honest sys mem d) (honly : OnlyQueues mem mem')
    (hsend : ∀ b, (d' b).send ⊆ (d b).send) (hrecv : ∀ b, (d' b).recv ⊆ (d b).recv) :
    Honest sys mem' d' := by
  refine h.of_left fun q hq => ?_
  have hio : q.io mem' = q.io mem := by
    simp only [Request.io, honly.sendIo, honly.recvIo]
  refine ⟨⟨hq.1, ?_⟩, hio, by rw [Request.desc, Request.desc, hio, honly.desc]⟩
  have hmem := hq.2
  split_ifs with hreceives
  · rw [if_pos hreceives] at hmem
    exact hrecv _ hmem
  · rw [if_neg hreceives] at hmem
    exact hsend _ hmem

/-- The boxes stay honest whatever becomes of a request. -/
theorem Honest.of_outcome (hd : Queued sys mem d) (hh : Honest sys mem d)
    (hs : (d sendBox).send = slot :: rest) (hnew : slot ∉ rest)
    (h : Outcome sys mem d sendBox slot rest
      (fun b s => Delivered sys mem d sendBox slot rest b s mem' d') mem' d') :
    Honest sys mem' d' := by
  have hback : ∀ b, (if b = sendBox then rest ++ [slot] else (d b).send) ⊆ (d b).send := by
    intro b s hmem
    split_ifs at hmem with hb
    · subst hb
      rw [hs]
      simpa [or_comm] using hmem
    · exact hmem
  have hrest : ∀ b, (if b = sendBox then rest else (d b).send) ⊆ (d b).send := by
    intro b s hmem
    split_ifs at hmem with hb
    · subst hb
      rw [hs]
      exact List.mem_cons_of_mem _ hmem
    · exact hmem
  cases h with
  | dropped why only lists =>
    subst lists
    exact hh.of_onlyQueues only (fun b => by simpa using hrest b) (fun b => by simp)
  | kept why only lists once =>
    subst lists
    exact hh.of_onlyQueues only (fun b => by simpa using hback b) (fun b => by simp)
  | lost recvBox recvSlot pair why only lists once =>
    subst lists
    refine hh.of_onlyQueues only (fun b => by simpa using hback b) (fun b s hmem => ?_)
    simp only [withRecv_recv] at hmem
    split_ifs at hmem with hb
    · subst hb
      exact List.mem_of_mem_erase hmem
    · simpa using hmem
  | blocked recvBox recvSlot pair why only lists once =>
    subst lists
    refine hh.of_onlyQueues only (fun b => by simpa using hback b) (fun b s hmem => ?_)
    simp only [withRecv_recv] at hmem
    split_ifs at hmem with hb
    · subst hb
      rcases List.mem_append.mp hmem with hmem | hmem
      · exact List.mem_of_mem_erase hmem
      · rw [List.mem_singleton.mp hmem]
        exact pair.mem_recv
    · simpa using hmem
  | delivered recvBox recvSlot pair done =>
    refine hh.of_left fun q hq => ?_
    have hlists := done.lists
    subst hlists
    rcases q with ⟨box, receives, s⟩
    obtain ⟨hbox, hmem⟩ := hq
    dsimp only at hbox hmem
    have hother : Request.Outstanding sys d ⟨box, receives, s⟩ ∧
        (⟨box, receives, s⟩ : Request) ≠ ⟨sendBox, false, slot⟩ ∧
        (⟨box, receives, s⟩ : Request) ≠ ⟨recvBox, true, recvSlot⟩ := by
      cases receives with
      | true =>
        simp only [if_true, withRecv_recv, withSend_recv] at hmem
        refine ⟨⟨hbox, ?_⟩, by simp, fun he => ?_⟩
        · split_ifs at hmem with hb
          · subst hb
            exact List.mem_of_mem_erase hmem
          · exact hmem
        · cases he
          rw [if_pos rfl] at hmem
          exact ((hd recvBox pair.known).2.nodup ()).not_mem_erase hmem
      | false =>
        simp only [Bool.false_eq_true, if_false, withRecv_send, withSend_send] at hmem
        refine ⟨⟨hbox, hrest box hmem⟩, fun he => ?_, by simp⟩
        cases he
        rw [if_pos rfl] at hmem
        exact hnew hmem
    have hintact := done.intact _ hother.1 hother.2.1 hother.2.2
    exact ⟨hother.1, hintact.io, hintact.desc⟩

/-- Every iteration from well-formed queues of honest boxes leaves such queues.
Its deliveries have all the effects of a delivery and no other one. -/
theorem honest_iteration (hb : sendBox < sys.boxCount) (hd : Queued sys mem d)
    (hh : Honest sys mem d) (firstSlot : ℤ) :
    ∃ mem' d', Queued sys mem' d' ∧ Honest sys mem' d' ∧ Iteration sys mem d sendBox firstSlot
      (fun slot rest b s => Delivered sys mem d sendBox slot rest b s mem' d') mem' d'
      (ipcDrainBody sys sendBox ⟨mem, firstSlot⟩) := by
  obtain ⟨mem', d', hd', hiter⟩ := ipcDrainBody_iteration hb hd firstSlot
  have hnodup := (hd sendBox hb).1.nodup ()
  refine ⟨mem', d', hd', ?_⟩
  generalize ipcDrainBody sys sendBox ⟨mem, firstSlot⟩ = out at hiter ⊢
  cases hiter with
  | idle why same lists =>
    refine ⟨?_, .idle why same lists⟩
    rwa [same, lists]
  | cameRound slot rest head seen only lists =>
    refine ⟨hh.of_onlyQueues only (fun b s hmem => ?_) (fun b => by simp [lists]),
      .cameRound slot rest head seen only lists⟩
    rw [lists, withSend_send] at hmem
    split_ifs at hmem with hbb
    · rw [hbb, head]
      simpa [or_comm] using hmem
    · exact hmem
  | handled slot rest firstSlot' head unseen outcome first =>
    have hout : Outcome sys mem d sendBox slot rest
        (fun b s => Delivered sys mem d sendBox slot rest b s mem' d') mem' d' := by
      cases outcome with
      | dropped why only lists => exact .dropped why only lists
      | kept why only lists once => exact .kept why only lists once
      | lost recvBox recvSlot pair why only lists once =>
        exact .lost recvBox recvSlot pair why only lists once
      | blocked recvBox recvSlot pair why only lists once =>
        exact .blocked recvBox recvSlot pair why only lists once
      | delivered recvBox recvSlot pair done =>
        exact .delivered recvBox recvSlot pair (hh.delivered hb head pair done)
    have hnew : slot ∉ rest := (List.nodup_cons.mp (head ▸ hnodup)).1
    exact ⟨hh.of_outcome hd head hnew hout,
      .handled slot rest firstSlot' head unseen hout first⟩

end Proofs

section Drains

variable {sys : Platform} {sendBox : ℕ}

/-- An iteration of the drain that does not end it. -/
def iteration (sys : Platform) (sendBox : ℕ) (st : DrainState) (_ : Unit) : Option DrainState :=
  match ipcDrainBody sys sendBox st with
  | .next st' => some st'
  | _ => none

/-- The queues are well formed and the boxes honest. -/
def InOrder (sys : Platform) (st : DrainState) : Prop :=
  ∃ d, Queued sys st.mem d ∧ Honest sys st.mem d

/-- All iterations of a drain find well-formed queues of honest boxes. -/
theorem inOrder_reachable (hb : sendBox < sys.boxCount) {st : DrainState}
    (h : Reachable (InOrder sys) (iteration sys sendBox) (fun _ _ => True) st) :
    InOrder sys st := by
  refine Reachable.invariant (InOrder sys) (fun _ h => h) ?_ h
  rintro ⟨mem, firstSlot⟩ a t ⟨d, hd, hh⟩ - hstep
  obtain ⟨mem', d', hd', hh', hiter⟩ := honest_iteration hb hd hh firstSlot
  unfold iteration at hstep
  split at hstep
  · rename_i st' hbody
    rw [hbody] at hiter
    cases hiter with
    | handled slot rest firstSlot' head unseen outcome first =>
      obtain rfl := Option.some.inj hstep
      exact ⟨d', hd', hh'⟩
  · cases hstep

/-- From well-formed queues of honest boxes, every iteration of a drain drops,
keeps or delivers the first send request as described. -/
theorem delivery_contract (hb : sendBox < sys.boxCount) {st : DrainState}
    (h : Reachable (InOrder sys) (iteration sys sendBox) (fun _ _ => True) st) :
    ∃ d mem' d', Queued sys st.mem d ∧ Queued sys mem' d' ∧
      Iteration sys st.mem d sendBox st.firstSlot
        (fun slot rest b s => Delivered sys st.mem d sendBox slot rest b s mem' d') mem' d'
        (ipcDrainBody sys sendBox st) := by
  obtain ⟨d, hd, hh⟩ := inOrder_reachable hb h
  obtain ⟨mem', d', hd', -, hiter⟩ := honest_iteration hb hd hh st.firstSlot
  exact ⟨d, mem', d', hd, hd', hiter⟩

end Drains

/-! ## A pair of requests -/

/-- Box 0 has posted a send request and box 1 a receive request for it. -/
def pairedMemory : Memory where
  box := Function.update
    (Function.update bootedIpc 0 {bootedIpc 0 with
      sendQueue := queueFresh () (bootedIpc 0).sendQueue
      sendIo := fun _ => ⟨0x20000800, 0x20000810, .readyToSend⟩})
    1 {bootedIpc 1 with
      recvQueue := queueFresh () (bootedIpc 1).recvQueue
      recvIo := fun _ => ⟨0x20001800, 0x20001810, .readyToRecv⟩}
  desc := fun address =>
    if address = 0x20000800 then ⟨1, 7, 4, 1⟩ else ⟨boxIdInvalid, 7, 8, 2⟩
  byte := fun address => if address = 0x20000810 then 42 else 0

/-- Lists of the boxes with these requests. -/
def pairedLists : ℕ → BoxLists :=
  withRecv (withSend (fun _ => initialLists) 0 (List.range' 1 15) [0]) 1 (List.range' 1 15) [0]

theorem pairedMemory_queued : Queued twoBoxes pairedMemory pairedLists := by
  intro b hb
  have hboot := bootedIpc_describes b
  obtain ⟨hsend, -⟩ := queueFresh_spec hboot.send hboot.send_lock ()
  obtain ⟨hrecv, -⟩ := queueFresh_spec hboot.recv hboot.recv_lock ()
  rw [update_unit] at hsend hrecv
  have hcases : b = 0 ∨ b = 1 := by
    change b < 2 at hb
    omega
  rcases hcases with rfl | rfl
  · exact ⟨hsend, hboot.recv⟩
  · exact ⟨hboot.send, hrecv⟩

/-- The only outstanding requests are these two. -/
theorem pairedLists_outstanding {q : Request} (h : q.Outstanding twoBoxes pairedLists) :
    q = ⟨0, false, 0⟩ ∨ q = ⟨1, true, 0⟩ := by
  rcases q with ⟨box, receives, slot⟩
  obtain ⟨hbox, hmem⟩ := h
  have hcases : box = 0 ∨ box = 1 := by
    change box < 2 at hbox
    omega
  rcases hcases with rfl | rfl
  · cases receives with
    | true => simp [pairedLists, initialLists] at hmem
    | false => simpa [pairedLists] using hmem
  · cases receives with
    | true => simpa [pairedLists] using hmem
    | false => simp [pairedLists, initialLists] at hmem

theorem pairedMemory_honest : Honest twoBoxes pairedMemory pairedLists where
  desc p q hne hp hq := by
    rcases pairedLists_outstanding hp with rfl | rfl <;>
      rcases pairedLists_outstanding hq with rfl | rfl
    · exact absurd rfl hne
    · decide
    · decide
    · exact absurd rfl hne
  buffer p q address hne hp hq hp' hq' := by
    have hsend : (⟨0, false, 0⟩ : Request).Covers pairedMemory address →
        address < 0x20000814 := fun h => h.2
    have hrecv : (⟨1, true, 0⟩ : Request).Covers pairedMemory address →
        0x20001810 ≤ address := fun h => h.1
    rcases pairedLists_outstanding hp with rfl | rfl <;>
      rcases pairedLists_outstanding hq with rfl | rfl
    · exact hne rfl
    · exact absurd (hsend hp') (by have := hrecv hq'; omega)
    · exact absurd (hsend hq') (by have := hrecv hp'; omega)
    · exact hne rfl
  ready q hq hreceives := by
    rcases pairedLists_outstanding hq with rfl | rfl
    · cases hreceives
    · rfl

/-- The contract at the start of the drain of box 0. -/
theorem delivery_contract_paired : ∃ d mem' d', Queued twoBoxes pairedMemory d ∧
    Queued twoBoxes mem' d' ∧ Iteration twoBoxes pairedMemory d 0 (-1)
      (fun slot rest b s => Delivered twoBoxes pairedMemory d 0 slot rest b s mem' d') mem' d'
      (ipcDrainBody twoBoxes 0 ⟨pairedMemory, -1⟩) := by
  have hstart : Reachable (InOrder twoBoxes) (iteration twoBoxes 0) (fun _ _ => True)
      ⟨pairedMemory, -1⟩ := .start ⟨pairedLists, pairedMemory_queued, pairedMemory_honest⟩
  exact delivery_contract (by decide) hstart

/-- In this system the message arrives and both tokens are complete. -/
example : (iteration twoBoxes 0 ⟨pairedMemory, -1⟩ ()).map (fun st =>
    (st.mem.byte 0x20001810, (st.mem.box 0).completedTokens, (st.mem.box 1).completedTokens)) =
      some (42, 1, 2) := by
  decide

end Uvisor.IpcDelivery
