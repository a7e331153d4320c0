import Uvisor.Rpc

/-!
# Message queues as bytes in the memory of a box

The queues that the monitor drains lie in memory that belongs to a box, so
each field of the queue and of its pool is whatever the box has put there:
the pointers, the stride and the number of slots too. Before the queue is
used its parts are compared with the limits of that memory, in arithmetic
modulo the address space and with the stride that the pool states. Messages
are then found with the size of a message as the stride.
-/

namespace Uvisor.RpcMemory

open PoolQueue

/-- A register or a word of memory. -/
abbrev Word := BitVec 32

/-- The bytes of memory. -/
abbrev Memory := Word → BitVec 8

/-! ## Layout -/

/-- A byte in memory. -/
def load8 (mem : Memory) (address : Word) : BitVec 8 := mem address

/-- A word in memory, least significant byte first. -/
def load32 (mem : Memory) (address : Word) : Word :=
  mem (address+3) ++ mem (address+2) ++ mem (address+1) ++ mem address

/-- Size of uvisor_pool_queue_t. -/
def queueBytes : ℕ := 12

/-- Size of uvisor_pool_t without the management array. -/
def poolBytes : ℕ := 16

/-- Size of uvisor_pool_queue_entry_t. -/
def entryBytes : ℕ := 2

/-- Size of uvisor_rpc_message_t. -/
def messageBytes : ℕ := 76

/-- Magic number of a queue. -/
def queueMagic (mem : Memory) (queue : Word) : Word := load32 mem queue

/-- First queued slot. -/
def queueHead (mem : Memory) (queue : Word) : BitVec 8 := load8 mem (queue+4)

/-- Last queued slot. -/
def queueTail (mem : Memory) (queue : Word) : BitVec 8 := load8 mem (queue+5)

/-- Pointer to the pool. -/
def queuePool (mem : Memory) (queue : Word) : Word := load32 mem (queue+8)

/-- Magic number of a pool. -/
def poolMagicAt (mem : Memory) (pool : Word) : Word := load32 mem pool

/-- Pointer to the data slots. -/
def poolArray (mem : Memory) (pool : Word) : Word := load32 mem (pool+4)

/-- Stated distance between data slots. -/
def poolStride (mem : Memory) (pool : Word) : Word := load32 mem (pool+8)

/-- Number of slots. -/
def poolNum (mem : Memory) (pool : Word) : BitVec 8 := load8 mem (pool+12)

/-- Number of slots that are not free. -/
def poolNumAllocated (mem : Memory) (pool : Word) : BitVec 8 := load8 mem (pool+13)

/-- First slot of the free list. -/
def poolFirstFree (mem : Memory) (pool : Word) : BitVec 8 := load8 mem (pool+14)

/-- Flag of the spinlock. -/
def poolLock (mem : Memory) (pool : Word) : BitVec 8 := load8 mem (pool+15)

/-- Address of an entry of the management array. -/
def managementEntry (pool : Word) (slot : ℕ) : Word :=
  pool+BitVec.ofNat 32 poolBytes+BitVec.ofNat 32 (entryBytes*slot)

/-- Address of a message, found as the drains find it. -/
def messageAt (array : Word) (slot : ℕ) : Word := array+BitVec.ofNat 32 (messageBytes*slot)

/-! ## Validation -/

/-- Whether a range starts and ends in the memory of a box. -/
def belongsToBox (bss bssSize start size : Word) : Bool :=
  bss ≤ start && start+size ≤ bss+bssSize

/-- Whether a queue, its pool and both arrays belong to a box. -/
def isValidQueue (mem : Memory) (bss bssSize queue : Word) : Bool :=
  let pool := queuePool mem queue
  let num := (poolNum mem pool).zeroExtend 32
  if !belongsToBox bss bssSize queue 12 then false
  else if queueMagic mem queue ≠ BitVec.ofNat 32 poolQueueMagic then false
  else if !belongsToBox bss bssSize pool 16 then false
  else if poolMagicAt mem pool ≠ BitVec.ofNat 32 poolMagic then false
  else if !belongsToBox bss bssSize (managementEntry pool 0) (2*num) then false
  else belongsToBox bss bssSize (poolArray mem pool) (poolStride mem pool*num)

/-! ## The queue as a typed value -/

/-- An entry of the management array. -/
def entryView (mem : Memory) (pool : Word) (slot : ℕ) : Entry where
  next := (load8 mem (managementEntry pool slot)).toNat
  prev := (load8 mem (managementEntry pool slot+1)).toNat

/-- The pool that a queue points to. -/
def poolView (mem : Memory) (pool : Word) : Pool where
  magic := (poolMagicAt mem pool).toNat
  array := (poolArray mem pool).toNat
  stride := (poolStride mem pool).toNat
  num := (poolNum mem pool).toNat
  numAllocated := (poolNumAllocated mem pool).toNat
  firstFree := (poolFirstFree mem pool).toNat
  spinlock := poolLock mem pool != 0
  managementArray := entryView mem pool

/-- A queue with its pool. -/
def queueView (mem : Memory) (queue : Word) : PoolQueues Unit where
  pool := poolView mem (queuePool mem queue)
  queue := fun _ =>
    { magic := (queueMagic mem queue).toNat
      head := (queueHead mem queue).toNat
      tail := (queueTail mem queue).toNat
      pool := (queuePool mem queue).toNat }

/-! ## What the check accepts -/

section Accepted

variable {mem : Memory} {bss bssSize queue start size : Word}

theorem belongsToBox_iff :
    belongsToBox bss bssSize start size = true ↔ bss.toNat ≤ start.toNat ∧
      (start.toNat+size.toNat)%2^32 ≤ (bss.toNat+bssSize.toNat)%2^32 := by
  simp [belongsToBox, BitVec.le_def]

/-- The checks, each about one part of the queue. All sums are taken modulo the
address space. -/
structure Passes (mem : Memory) (bss bssSize queue pool : Word) : Prop where
  /-- The queue. -/
  queueIn : belongsToBox bss bssSize queue 12 = true
  /-- Magic number of the queue. -/
  queueSigned : queueMagic mem queue = BitVec.ofNat 32 poolQueueMagic
  /-- The pool. -/
  poolIn : belongsToBox bss bssSize pool 16 = true
  /-- Magic number of the pool. -/
  poolSigned : poolMagicAt mem pool = BitVec.ofNat 32 poolMagic
  /-- The management array. -/
  entriesIn :
    belongsToBox bss bssSize (managementEntry pool 0) (2*(poolNum mem pool).zeroExtend 32) = true
  /-- The data slots at their stated distance. -/
  arrayIn : belongsToBox bss bssSize (poolArray mem pool)
    (poolStride mem pool*(poolNum mem pool).zeroExtend 32) = true

theorem isValidQueue_iff : isValidQueue mem bss bssSize queue = true ↔
    Passes mem bss bssSize queue (queuePool mem queue) := by
  unfold isValidQueue
  dsimp only
  constructor
  · intro h
    split_ifs at h with hqueue hmagic hpool hsigned hentries
    simp only [Bool.not_eq_true', Bool.not_eq_false] at hqueue hpool hentries
    exact ⟨hqueue, not_not.mp hmagic, hpool, not_not.mp hsigned, hentries, h⟩
  · rintro ⟨hqueue, hmagic, hpool, hsigned, hentries, harray⟩
    simp only [hqueue, hmagic, hpool, hsigned, hentries, harray, Bool.not_true, ne_eq,
      not_true_eq_false, if_false, Bool.false_eq_true]

theorem numWord_toNat (num : BitVec 8) : (num.zeroExtend 32).toNat = num.toNat := by
  have := num.isLt
  simp only [BitVec.truncate_eq_setWidth, BitVec.toNat_setWidth]
  omega

theorem entriesSize_toNat (num : BitVec 8) : (2*num.zeroExtend 32).toNat = 2*num.toNat := by
  have := num.isLt
  rw [BitVec.toNat_mul, numWord_toNat]
  change 2*num.toNat%2^32 = _
  omega

theorem firstEntry_toNat (pool : Word) : (managementEntry pool 0).toNat = (pool.toNat+16)%2^32 := by
  simp [managementEntry, poolBytes]

/-- Words are compared as the numbers they stand for. -/
theorem toNat_eq_iff {word : Word} {n : ℕ} (hn : n < 2^32) :
    word.toNat = n ↔ word = BitVec.ofNat 32 n := by
  rw [← BitVec.toNat_inj, BitVec.toNat_ofNat, Nat.mod_eq_of_lt hn]

/-- The check of the typed model is the check of the bytes it stands for. -/
theorem isValidQueue_view (sys : Rpc.Platform) (boxId : ℕ) (hbss : sys.bss boxId = bss.toNat)
    (hsize : sys.bssSize boxId = bssSize.toNat) :
    Rpc.isValidQueue sys queue.toNat (queueView mem queue) () boxId =
      isValidQueue mem bss bssSize queue := by
  have hqueueMagic : poolQueueMagic < 2^32 := by decide
  have hpoolMagic : poolMagic < 2^32 := by decide
  have h12 : (12 : Word).toNat = 12 := rfl
  have h16 : (16 : Word).toNat = 16 := rfl
  rw [Bool.eq_iff_iff, isValidQueue_iff]
  unfold Rpc.isValidQueue Rpc.wrap
  simp only [queueView, poolView, hbss, hsize, Bool.and_eq_true, decide_eq_true_eq,
    toNat_eq_iff hqueueMagic, toNat_eq_iff hpoolMagic]
  constructor
  · rintro ⟨⟨⟨⟨⟨hqueue, hmagic⟩, hpool⟩, hsigned⟩, hentries⟩, harray⟩
    exact ⟨belongsToBox_iff.mpr hqueue, hmagic, belongsToBox_iff.mpr hpool, hsigned,
      belongsToBox_iff.mpr (by rwa [firstEntry_toNat, entriesSize_toNat]),
      belongsToBox_iff.mpr (by rwa [BitVec.toNat_mul, numWord_toNat])⟩
  · rintro ⟨hqueue, hmagic, hpool, hsigned, hentries, harray⟩
    rw [belongsToBox_iff] at hqueue hpool hentries harray
    rw [firstEntry_toNat, entriesSize_toNat] at hentries
    rw [BitVec.toNat_mul, numWord_toNat] at harray
    exact ⟨⟨⟨⟨⟨hqueue, hmagic⟩, hpool⟩, hsigned⟩, hentries⟩, harray⟩

end Accepted

/-! ## Where the parts of an accepted queue lie -/

/-- Whether the memory of a box has an address. -/
def InBox (bss bssSize address : Word) : Prop :=
  bss.toNat ≤ address.toNat ∧ address.toNat < bss.toNat+bssSize.toNat

/-- The memory of a box has each byte of an object. -/
def ObjectIn (bss bssSize start : Word) (len : ℕ) : Prop :=
  ∀ k < len, InBox bss bssSize (start+BitVec.ofNat 32 k)

/-- The memory of a box has the queue, its pool, and the entry and the message
of each slot. -/
structure Contained (mem : Memory) (bss bssSize queue pool : Word) : Prop where
  /-- The queue. -/
  queueIn : ObjectIn bss bssSize queue queueBytes
  /-- The pool. -/
  poolIn : ObjectIn bss bssSize pool poolBytes
  /-- The management array. -/
  entriesIn : ∀ slot < (poolNum mem pool).toNat,
    ObjectIn bss bssSize (managementEntry pool slot) entryBytes
  /-- The messages, at the stride of the drains. -/
  messagesIn : ∀ slot < (poolNum mem pool).toNat,
    ObjectIn bss bssSize (messageAt (poolArray mem pool) slot) messageBytes

/-- The check accepts a queue only if the box has all of it. -/
def Sound (mem : Memory) (bss bssSize queue : Word) : Prop :=
  isValidQueue mem bss bssSize queue = true →
    Contained mem bss bssSize queue (queuePool mem queue)

/-- The queue and the pool with its entries end below the end of the address
space, and there is room for all messages of the size that the drains use. -/
structure Fits (mem : Memory) (bss bssSize queue pool : Word) : Prop where
  /-- The end of the queue does not wrap. -/
  queueEnd : queue.toNat+queueBytes < 2^32
  /-- The end of the pool and of its entries does not wrap. -/
  poolEnd : pool.toNat+poolBytes+entryBytes*(poolNum mem pool).toNat < 2^32
  /-- The messages end in the memory of the box. -/
  messagesEnd : poolNum mem pool = 0 ∨
    (poolArray mem pool).toNat+messageBytes*(poolNum mem pool).toNat ≤ bss.toNat+bssSize.toNat

section Bounds

variable {mem : Memory} {bss bssSize queue pool start : Word} {len : ℕ}

/-- An object is in the memory of a box exactly if it is empty, or starts there
and ends both there and in the address space. -/
theorem objectIn_iff :
    ObjectIn bss bssSize start len ↔ len = 0 ∨ bss.toNat ≤ start.toNat ∧
      start.toNat+len ≤ bss.toNat+bssSize.toNat ∧ start.toNat+len ≤ 2^32 := by
  have hstart := start.isLt
  have hsize := bssSize.isLt
  have hbyte : ∀ k, (start+BitVec.ofNat 32 k).toNat = (start.toNat+k)%2^32 := by
    intro k
    rw [BitVec.toNat_add, BitVec.toNat_ofNat, Nat.add_mod_mod]
  constructor
  · intro hall
    refine or_iff_not_imp_left.mpr fun hlen => ?_
    have hfirst := hall 0 (by omega)
    have hlast := hall (len-1) (by omega)
    unfold InBox at hfirst hlast
    rw [hbyte] at hfirst hlast
    by_cases hwrap : start.toNat+len ≤ 2^32
    · omega
    · -- The last byte of the address space and the first one are in no box.
      have htop := hall (2^32-1-start.toNat) (by omega)
      have hzero := hall (2^32-start.toNat) (by omega)
      unfold InBox at htop hzero
      rw [hbyte] at htop hzero
      omega
  · intro hends k hk
    unfold InBox
    rw [hbyte]
    omega

/-- The memory of a box that has a valid queue ends in the address space. -/
theorem Passes.end_lt (h : Passes mem bss bssSize queue pool) :
    bss.toNat+bssSize.toNat < 2^32 := by
  have hpool := belongsToBox_iff.mp h.poolIn
  have hentries := belongsToBox_iff.mp h.entriesIn
  have h16 : (16 : Word).toNat = 16 := rfl
  have hbss := bss.isLt
  have hsize := bssSize.isLt
  rw [h16] at hpool
  rw [firstEntry_toNat] at hentries
  omega

/-- The elements of an array are in the memory of a box exactly if the array
is. -/
theorem forall_objectIn_iff (hlen : 0 < len) (n : ℕ) :
    (∀ slot < n, ObjectIn bss bssSize (start+BitVec.ofNat 32 (len*slot)) len) ↔
      ObjectIn bss bssSize start (len*n) := by
  have hbyte : ∀ slot k, start+BitVec.ofNat 32 (len*slot)+BitVec.ofNat 32 k =
      start+BitVec.ofNat 32 (len*slot+k) := by
    intro slot k
    rw [BitVec.ofNat_add, BitVec.add_assoc]
  constructor
  · intro hall k hk
    have hin := hall (k/len) (Nat.div_lt_of_lt_mul hk) (k%len) (Nat.mod_lt _ hlen)
    rwa [hbyte, Nat.div_add_mod] at hin
  · intro hall slot hslot k hk
    rw [hbyte]
    refine hall _ ?_
    calc len*slot+k < len*slot+len := Nat.add_lt_add_left hk _
      _ = len*(slot+1) := (Nat.mul_succ len slot).symm
      _ ≤ len*n := Nat.mul_le_mul_left len hslot

/-- An accepted queue is where it should be exactly if no end wraps and the
messages fit. -/
theorem Passes.contained_iff (h : Passes mem bss bssSize queue pool) :
    Contained mem bss bssSize queue pool ↔ Fits mem bss bssSize queue pool := by
  have hend := h.end_lt
  have hnum := (poolNum mem pool).isLt
  have hqueue := belongsToBox_iff.mp h.queueIn
  have hpool := belongsToBox_iff.mp h.poolIn
  have hentries := belongsToBox_iff.mp h.entriesIn
  have harray := (belongsToBox_iff.mp h.arrayIn).1
  have hfirst := firstEntry_toNat pool
  have h12 : (12 : Word).toNat = 12 := rfl
  have h16 : (16 : Word).toNat = 16 := rfl
  rw [h12, Nat.mod_eq_of_lt hend] at hqueue
  rw [h16, Nat.mod_eq_of_lt hend] at hpool
  rw [hfirst, entriesSize_toNat, Nat.mod_eq_of_lt hend] at hentries
  have hbase : managementEntry pool 0 = pool+BitVec.ofNat 32 poolBytes := BitVec.add_zero _
  have hslots : (∀ slot < (poolNum mem pool).toNat,
      ObjectIn bss bssSize (managementEntry pool slot) entryBytes) ↔
        ObjectIn bss bssSize (managementEntry pool 0) (entryBytes*(poolNum mem pool).toNat) := by
    rw [hbase]
    exact forall_objectIn_iff (by decide) _
  have hmessages : (∀ slot < (poolNum mem pool).toNat,
      ObjectIn bss bssSize (messageAt (poolArray mem pool) slot) messageBytes) ↔
        ObjectIn bss bssSize (poolArray mem pool) (messageBytes*(poolNum mem pool).toNat) :=
    forall_objectIn_iff (by decide) _
  have hzero : poolNum mem pool = 0 ↔ (poolNum mem pool).toNat = 0 := BitVec.toNat_inj.symm
  constructor
  · rintro ⟨hq, hp, he, hm⟩
    rw [objectIn_iff] at hq hp
    rw [hslots, objectIn_iff, hfirst] at he
    rw [hmessages, objectIn_iff] at hm
    simp only [queueBytes, poolBytes, entryBytes, messageBytes] at hq hp he hm
    refine ⟨?_, ?_, ?_⟩
    · unfold queueBytes
      omega
    · unfold poolBytes entryBytes
      omega
    · rw [hzero]
      unfold messageBytes
      omega
  · rintro ⟨hq, hp, hm⟩
    rw [hzero] at hm
    unfold queueBytes at hq
    unfold poolBytes entryBytes at hp
    unfold messageBytes at hm
    refine ⟨objectIn_iff.mpr ?_, objectIn_iff.mpr ?_, hslots.mpr (objectIn_iff.mpr ?_),
      hmessages.mpr (objectIn_iff.mpr ?_)⟩
    · unfold queueBytes
      omega
    · unfold poolBytes
      omega
    · rw [hfirst]
      unfold entryBytes
      omega
    · unfold messageBytes
      omega

/-- The check is sound exactly if it refuses the queue, or no end wraps and the
messages fit. -/
theorem isValidQueue_sound_iff (mem : Memory) (bss bssSize queue : Word) :
    Sound mem bss bssSize queue ↔ ¬Passes mem bss bssSize queue (queuePool mem queue) ∨
      Fits mem bss bssSize queue (queuePool mem queue) := by
  unfold Sound
  rw [isValidQueue_iff]
  constructor
  · intro hsound
    by_cases hpasses : Passes mem bss bssSize queue (queuePool mem queue)
    · exact .inr (hpasses.contained_iff.mp (hsound hpasses))
    · exact .inl hpasses
  · rintro (hrefused | hfits) hpasses
    · exact absurd hpasses hrefused
    · exact hpasses.contained_iff.mpr hfits

/-- Memory that holds the given words from an address on. -/
def wordsAt (base : Word) (words : List Word) : Memory := fun address =>
  let offset := (address-base).toNat
  (words.getD (offset/4) 0).extractLsb' (8*(offset%4)) 8

/-- The queue of a box with 4 KiB of memory. Its pool says that there are eight
slots, that they lie at the last word of this memory, and that they are all at
the same place. -/
def stackedSlots : Memory :=
  wordsAt 0x20001000 [BitVec.ofNat 32 poolQueueMagic, 0xFFFF, 0x2000100C,
    BitVec.ofNat 32 poolMagic, 0x20001FFC, 0, 8]

/-- The queue is accepted, and the first message ends outside the box. -/
theorem stackedSlots_accepted :
    isValidQueue stackedSlots 0x20001000 0x1000 0x20001000 = true ∧
      ¬ObjectIn 0x20001000 0x1000 (messageAt (poolArray stackedSlots 0x2000100C) 0) messageBytes ∧
      ¬Sound stackedSlots 0x20001000 0x1000 0x20001000 := by
  have hvalid : isValidQueue stackedSlots 0x20001000 0x1000 0x20001000 = true := by decide
  have hout : ¬ObjectIn 0x20001000 0x1000 (messageAt (poolArray stackedSlots 0x2000100C) 0)
      messageBytes := by
    have harray : (messageAt (poolArray stackedSlots 0x2000100C) 0).toNat = 0x20001FFC := by decide
    rw [objectIn_iff, harray]
    decide
  have hpool : queuePool stackedSlots 0x20001000 = 0x2000100C := by decide
  have hnum : 0 < (poolNum stackedSlots 0x2000100C).toNat := by decide
  refine ⟨hvalid, hout, fun hsound => hout ?_⟩
  have hcontained := hsound hvalid
  rw [hpool] at hcontained
  exact hcontained.messagesIn 0 hnum

end Bounds

end Uvisor.RpcMemory
