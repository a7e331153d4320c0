import Uvisor.PoolAccesses
import Uvisor.PoolOperations

/-!
# Initialization of a pool and its queue, byte by byte

The number of slots arrives as a word, is compared with the reserved slot
numbers, is stored in a byte and counts a loop with an index of one byte.
The entry behind the last one is patched at an index that is one below the
number of slots, modulo the address space. The status of the pool is not the
status of the queue. Memory is addressed through its non-secure alias, so
taking that alias of a pointer changes nothing.
-/

namespace Uvisor.PoolInit

open RpcMemory PoolAccesses PoolInvariant

/-! ## Memory with a record of writes -/

/-- Memory, and the addresses of the bytes written so far. -/
structure Logged where
  /-- Memory. -/
  mem : Memory
  /-- Addresses of writes. -/
  writes : List Word

/-- Write a byte. -/
def Logged.store8 (t : Logged) (address : Word) (value : BitVec 8) : Logged :=
  ⟨PoolAccesses.store8 t.mem address value, t.writes ++ [address]⟩

/-- Write a word, least significant byte first. -/
def Logged.store32 (t : Logged) (address value : Word) : Logged :=
  let t := t.store8 address (value.extractLsb' 0 8)
  let t := t.store8 (address+1) (value.extractLsb' 8 8)
  let t := t.store8 (address+2) (value.extractLsb' 16 8)
  t.store8 (address+3) (value.extractLsb' 24 8)

/-! ## Initialization -/

/-- UVISOR_POOL_MAX_VALID. -/
def poolMaxValid : BitVec 8 := 0xFC

/-- The loop over the entries. Its index is a byte; below the reserved slot
numbers it does not wrap. -/
def fillEntries (pool num : Word) (hnum : num < poolMaxValid.zeroExtend 32) (i : BitVec 8)
    (t : Logged) : Logged :=
  if i.zeroExtend 32 < num then
    let t := t.store8 (managementEntry pool i.toNat) (i+1)
    let t := t.store8 (managementEntry pool i.toNat+1) slotIsFree
    fillEntries pool num hnum (i+1) t
  else t
termination_by num.toNat-i.toNat
decreasing_by
  unfold poolMaxValid at hnum
  bv_omega

/-- uvisor_pool_init. -/
def uvisorPoolInit (pool array stride num : Word) (t : Logged) : ℤ × Logged :=
  if hnum : poolMaxValid.zeroExtend 32 ≤ num then (-1, t)
  else
    let t := t.store32 pool (BitVec.ofNat 32 PoolQueue.poolMagic)
    let t := t.store32 (pool+4) array
    let t := t.store32 (pool+8) stride
    let t := t.store8 (pool+12) (num.setWidth 8)
    let t := t.store8 (pool+13) 0
    let t := t.store8 (pool+14) 0
    let t := fillEntries pool num (BitVec.not_le.mp hnum) 0 t
    let t := t.store8 (managementEntry pool (num-1).toNat) slotInvalid
    (0, t.store8 (pool+15) 0)

/-- uvisor_pool_queue_init. -/
def uvisorPoolQueueInit (queue pool array stride num : Word) (t : Logged) : ℤ × Logged :=
  let t := (uvisorPoolInit pool array stride num t).2
  let t := t.store32 queue (BitVec.ofNat 32 PoolQueue.poolQueueMagic)
  let t := t.store8 (queue+4) slotInvalid
  let t := t.store8 (queue+5) slotInvalid
  (0, t.store32 (queue+8) pool)

/-! ## Bytes after the writes -/

/-- The pool with its entries has an address. -/
def InPool (pool : Word) (num : ℕ) (address : Word) : Prop :=
  ∃ k < poolBytes+entryBytes*num, address = pool+BitVec.ofNat 32 k

/-- The queue has an address. -/
def InQueue (queue address : Word) : Prop := ∃ k < queueBytes, address = queue+BitVec.ofNat 32 k

section Bytes

variable {mem : Memory} {t : Logged} {pool num address value : Word}

/-- Bytes at different offsets are different. -/
theorem offset_ne {base : Word} {i j : ℕ} (hi : i < 2^32) (hj : j < 2^32) (hne : i ≠ j) :
    base+BitVec.ofNat 32 i ≠ base+BitVec.ofNat 32 j := by
  rw [ne_eq, BitVec.add_right_inj, ← BitVec.toNat_inj, BitVec.toNat_ofNat, BitVec.toNat_ofNat,
    Nat.mod_eq_of_lt hi, Nat.mod_eq_of_lt hj]
  exact hne

theorem load8_store8 (b : Word) (v : BitVec 8) :
    load8 (store8 mem address v) b = if b = address then v else load8 mem b :=
  Function.update_apply ..

@[simp] theorem store8_mem (v : BitVec 8) :
    (t.store8 address v).mem = store8 t.mem address v := rfl

@[simp] theorem store8_writes (v : BitVec 8) :
    (t.store8 address v).writes = t.writes ++ [address] := rfl

/-- A word leaves all bytes but its four alone. -/
theorem store32_ne {b : Word} (hne : ∀ k < 4, b ≠ address+BitVec.ofNat 32 k) :
    load8 (t.store32 address value).mem b = load8 t.mem b := by
  have h0 : b ≠ address := by simpa using hne 0 (by decide)
  have h1 : b ≠ address+1 := hne 1 (by decide)
  have h2 : b ≠ address+2 := hne 2 (by decide)
  have h3 : b ≠ address+3 := hne 3 (by decide)
  simp only [Logged.store32, store8_mem, load8_store8, h0, h1, h2, h3, if_false]

/-- The bytes of a word make up the word. -/
theorem bytes_append (value : Word) : value.extractLsb' 24 8 ++ value.extractLsb' 16 8 ++
    value.extractLsb' 8 8 ++ value.extractLsb' 0 8 = value := by
  ext i hi
  simp only [BitVec.getElem_append, BitVec.getElem_extractLsb']
  grind

/-- A word can be read back. -/
theorem store32_self : load32 (t.store32 address value).mem address = value := by
  have hne : ∀ i < 4, ∀ j < 4, i ≠ j → address+BitVec.ofNat 32 i ≠ address+BitVec.ofNat 32 j :=
    fun i hi j hj => offset_ne (by omega) (by omega)
  have hfirst : ∀ j < 4, j ≠ 0 → address ≠ address+BitVec.ofNat 32 j := fun j hj hj0 => by
    simpa using hne 0 (by decide) j hj hj0.symm
  have h01 : address ≠ address+1 := hfirst 1 (by decide) (by decide)
  have h02 : address ≠ address+2 := hfirst 2 (by decide) (by decide)
  have h03 : address ≠ address+3 := hfirst 3 (by decide) (by decide)
  have h12 : address+1 ≠ address+2 := hne 1 (by decide) 2 (by decide) (by decide)
  have h13 : address+1 ≠ address+3 := hne 1 (by decide) 3 (by decide) (by decide)
  have h23 : address+2 ≠ address+3 := hne 2 (by decide) 3 (by decide) (by decide)
  have hload : load32 (t.store32 address value).mem address =
      load8 (t.store32 address value).mem (address+3) ++
        load8 (t.store32 address value).mem (address+2) ++
        load8 (t.store32 address value).mem (address+1) ++
        load8 (t.store32 address value).mem address := rfl
  rw [hload]
  simp only [Logged.store32, store8_mem, load8_store8, h01, h02, h03, h12, h13, h23, if_true,
    if_false]
  exact bytes_append value

/-- Offsets add up. -/
theorem offset_add (base : Word) (i j : ℕ) :
    base+BitVec.ofNat 32 i+BitVec.ofNat 32 j = base+BitVec.ofNat 32 (i+j) := by
  rw [BitVec.ofNat_add, BitVec.add_assoc]

/-- A word is written byte by byte. -/
theorem store32_written {base : Word} {i : ℕ} {b : Word}
    (h : b ∈ (t.store32 (base+BitVec.ofNat 32 i) value).writes) :
    b ∈ t.writes ∨ ∃ k < i+4, b = base+BitVec.ofNat 32 k := by
  simp only [Logged.store32, store8_writes, List.mem_append, List.mem_singleton] at h
  rcases h with (((h | rfl) | rfl) | rfl) | rfl
  · exact .inl h
  · exact .inr ⟨i, by omega, rfl⟩
  · exact .inr ⟨i+1, by omega, offset_add base i 1⟩
  · exact .inr ⟨i+2, by omega, offset_add base i 2⟩
  · exact .inr ⟨i+3, by omega, offset_add base i 3⟩

/-- Entries lie behind the header. -/
theorem managementEntry_eq (slot : ℕ) :
    managementEntry pool slot = pool+BitVec.ofNat 32 (poolBytes+entryBytes*slot) := by
  rw [managementEntry, BitVec.ofNat_add, BitVec.add_assoc]

theorem managementEntry_succ (slot : ℕ) :
    managementEntry pool slot+1 = pool+BitVec.ofNat 32 (poolBytes+entryBytes*slot+1) := by
  rw [managementEntry_eq, BitVec.ofNat_add _ 1, BitVec.add_assoc]
  rfl

end Bytes

/-! ## The loop over the entries -/

section Loop

variable {pool num : Word}

/-- What the loop from an index on leaves behind. -/
structure Filled (pool num : Word) (i : ℕ) (t t' : Logged) : Prop where
  /-- The entries that are left point to the next one and are free. -/
  entries : ∀ s, i ≤ s → s < num.toNat →
    entryView t'.mem pool s = ⟨s+1, PoolQueue.slotIsFree⟩
  /-- All other bytes are as they were. -/
  others : ∀ address, (∀ s, i ≤ s → s < num.toNat →
    address ≠ managementEntry pool s ∧ address ≠ managementEntry pool s+1) →
      load8 t'.mem address = load8 t.mem address
  /-- Only entries are written. -/
  written : ∀ address ∈ t'.writes, address ∈ t.writes ∨ InPool pool num.toNat address

/-- Bytes of entries below the reserved slot numbers are apart. -/
theorem entry_ne {s s' : ℕ} (hs : s < 2^8) (hs' : s' < 2^8) :
    managementEntry pool s ≠ managementEntry pool s'+1 := by
  rw [managementEntry_succ, managementEntry_eq]
  unfold poolBytes entryBytes
  apply offset_ne <;> omega

theorem entry_inj {s s' : ℕ} (hs : s < 2^8) (hs' : s' < 2^8) (hne : s ≠ s') :
    managementEntry pool s ≠ managementEntry pool s' ∧
      managementEntry pool s+1 ≠ managementEntry pool s'+1 := by
  rw [managementEntry_succ, managementEntry_succ, managementEntry_eq, managementEntry_eq]
  unfold poolBytes entryBytes
  constructor <;> apply offset_ne <;> omega

theorem inPool_entry {s n : ℕ} (hs : s < n) :
    InPool pool n (managementEntry pool s) ∧ InPool pool n (managementEntry pool s+1) := by
  refine ⟨⟨_, ?_, managementEntry_eq s⟩, ⟨_, ?_, managementEntry_succ s⟩⟩ <;>
    unfold poolBytes entryBytes <;> omega

/-- The loop fills the entries from its index on. -/
theorem fillEntries_filled (hnum : num < poolMaxValid.zeroExtend 32) (i : BitVec 8) (t : Logged) :
    Filled pool num i.toNat t (fillEntries pool num hnum i t) := by
  have hlt : num.toNat < 252 := hnum
  induction i, t using fillEntries.induct pool num hnum with
  | case1 i t hi t1 t2 ih =>
    have hi' : i.toNat < num.toNat := by
      rwa [BitVec.lt_def, numWord_toNat] at hi
    have hsucc : (i+1).toNat = i.toNat+1 := by bv_omega
    rw [fillEntries, if_pos hi]
    rw [hsucc] at ih
    have hself : load8 t2.mem (managementEntry pool i.toNat) = i+1 ∧
        load8 t2.mem (managementEntry pool i.toNat+1) = PoolAccesses.slotIsFree := by
      have hne : managementEntry pool i.toNat ≠ managementEntry pool i.toNat+1 :=
        entry_ne i.isLt i.isLt
      simp only [t2, t1, store8_mem, load8_store8, hne, if_true, if_false, and_self]
    refine ⟨fun s hs hsn => ?_, fun address hne => ?_, fun address ha => ?_⟩
    · rcases Nat.eq_or_lt_of_le hs with rfl | hs
      · -- The entry of this pass is not written again.
        have hkept : load8 (fillEntries pool num hnum (i+1) t2).mem
            (managementEntry pool i.toNat) = load8 t2.mem (managementEntry pool i.toNat) :=
          ih.others _ fun s hs hsn => ⟨(entry_inj (by omega) (by omega) (by omega)).1,
            entry_ne (by omega) (by omega)⟩
        have hkept' : load8 (fillEntries pool num hnum (i+1) t2).mem
            (managementEntry pool i.toNat+1) = load8 t2.mem (managementEntry pool i.toNat+1) :=
          ih.others _ fun s hs hsn => ⟨(entry_ne (by omega) (by omega)).symm,
            (entry_inj (by omega) (by omega) (by omega)).2⟩
        unfold entryView
        rw [hkept, hkept', hself.1, hself.2, hsucc]
        rfl
      · exact ih.entries s hs hsn
    · obtain ⟨hne1, hne2⟩ := hne i.toNat (Nat.le_refl _) hi'
      have hkept := ih.others address fun s hs hsn => hne s (Nat.le_of_succ_le hs) hsn
      rw [hkept]
      simp only [t2, t1, store8_mem, load8_store8, hne1, hne2, if_false]
    · rcases ih.written address ha with ha | ha
      · simp only [t2, t1, store8_writes, List.mem_append, List.mem_singleton] at ha
        rcases ha with (ha | rfl) | rfl
        · exact .inl ha
        · exact .inr (inPool_entry hi').1
        · exact .inr (inPool_entry hi').2
      · exact .inr ha
  | case2 i t hi =>
    have hi' : num.toNat ≤ i.toNat := by
      rwa [BitVec.lt_def, numWord_toNat, Nat.not_lt] at hi
    rw [fillEntries, if_neg hi]
    exact ⟨fun s hs hsn => by omega, fun _ _ => rfl, fun _ ha => .inl ha⟩

end Loop

/-! ## The initialized pool -/

section Pool

variable {pool array stride num : Word} {t : Logged}

/-- A pool that has just been initialized. -/
structure Fresh (pool num : Word) (mem : Memory) : Prop where
  /-- The number of slots fits its byte. -/
  num_eq : (poolNum mem pool).toNat = num.toNat
  /-- Nothing is allocated. -/
  count : (poolNumAllocated mem pool).toNat = 0
  /-- The free list starts with the first slot, if there is one. -/
  first : (poolFirstFree mem pool).toNat = if num.toNat = 0 then PoolQueue.slotInvalid else 0
  /-- Each entry is free and points to the next one, if there is one. -/
  entries : ∀ s < num.toNat, entryView mem pool s =
    ⟨if s+1 = num.toNat then PoolQueue.slotInvalid else s+1, PoolQueue.slotIsFree⟩

/-- The fields of a pool that are written before its entries. -/
def header (pool array stride num : Word) (t : Logged) : Logged :=
  let t := t.store32 pool (BitVec.ofNat 32 PoolQueue.poolMagic)
  let t := t.store32 (pool+4) array
  let t := t.store32 (pool+8) stride
  let t := t.store8 (pool+12) (num.setWidth 8)
  let t := t.store8 (pool+13) 0
  t.store8 (pool+14) 0

theorem uvisorPoolInit_eq (hnum : ¬poolMaxValid.zeroExtend 32 ≤ num) :
    uvisorPoolInit pool array stride num t =
      (0, ((fillEntries pool num (BitVec.not_le.mp hnum) 0 (header pool array stride num t)).store8
        (managementEntry pool (num-1).toNat) slotInvalid).store8 (pool+15) 0) :=
  dif_neg hnum

/-- The entry before the first one lies on the start of the free list. -/
theorem patched_entry : managementEntry pool (num-1).toNat =
    if num.toNat = 0 then pool+14 else managementEntry pool (num.toNat-1) := by
  split
  · rename_i hzero
    obtain rfl : num = 0 := BitVec.eq_of_toNat_eq hzero
    change pool+16+BitVec.ofNat 32 (2*(0-1 : Word).toNat) = pool+14
    rw [BitVec.add_assoc]
    rfl
  · rename_i hpos
    have hpred : (num-1).toNat = num.toNat-1 := by bv_omega
    rw [hpred]

/-- The header is apart from the entries. -/
theorem header_ne {k s : ℕ} (hk : k < 16) (hs : s < 2^8) :
    pool+BitVec.ofNat 32 k ≠ managementEntry pool s ∧
      pool+BitVec.ofNat 32 k ≠ managementEntry pool s+1 := by
  rw [managementEntry_succ, managementEntry_eq]
  unfold poolBytes entryBytes
  constructor <;> apply offset_ne <;> omega

/-- The patch changes one byte, and the lock another one. -/
theorem uvisorPoolInit_load8 (hnum : ¬poolMaxValid.zeroExtend 32 ≤ num) {address : Word}
    (hlock : address ≠ pool+15) :
    load8 (uvisorPoolInit pool array stride num t).2.mem address =
      if address = (if num.toNat = 0 then pool+14 else managementEntry pool (num.toNat-1))
      then slotInvalid
      else load8 (fillEntries pool num (BitVec.not_le.mp hnum) 0
        (header pool array stride num t)).mem address := by
  rw [uvisorPoolInit_eq hnum, ← patched_entry]
  simp only [store8_mem, load8_store8, hlock, if_false]

/-- The header but for the patch. -/
theorem uvisorPoolInit_header (hnum : ¬poolMaxValid.zeroExtend 32 ≤ num) {k : ℕ} (hk : k < 15)
    (hpatch : num.toNat = 0 → k ≠ 14) :
    load8 (uvisorPoolInit pool array stride num t).2.mem (pool+BitVec.ofNat 32 k) =
      load8 (header pool array stride num t).mem (pool+BitVec.ofNat 32 k) := by
  have hlt : num.toNat < 252 := BitVec.not_le.mp hnum
  have hfilled : Filled pool num 0 (header pool array stride num t) _ :=
    fillEntries_filled (BitVec.not_le.mp hnum) 0 _
  have hlock : pool+BitVec.ofNat 32 k ≠ pool+15 :=
    offset_ne (j := 15) (by omega) (by decide) (by omega)
  rw [uvisorPoolInit_load8 hnum hlock, if_neg]
  · exact hfilled.others _ fun s _ hs => header_ne (by omega) (by omega)
  · split
    · rename_i hzero
      exact offset_ne (j := 14) (by omega) (by decide) (hpatch hzero)
    · exact (header_ne (by omega) (by omega)).1

/-- A pool is initialized below the reserved slot numbers. -/
theorem uvisorPoolInit_fresh (hnum : ¬poolMaxValid.zeroExtend 32 ≤ num) :
    Fresh pool num (uvisorPoolInit pool array stride num t).2.mem := by
  have hlt : num.toNat < 252 := BitVec.not_le.mp hnum
  have h1213 : pool+12 ≠ pool+13 := offset_ne (i := 12) (j := 13) (by decide) (by decide) (by decide)
  have h1214 : pool+12 ≠ pool+14 := offset_ne (i := 12) (j := 14) (by decide) (by decide) (by decide)
  have h1314 : pool+13 ≠ pool+14 := offset_ne (i := 13) (j := 14) (by decide) (by decide) (by decide)
  refine ⟨?_, ?_, ?_, fun s hs => ?_⟩
  · have hbyte : poolNum (uvisorPoolInit pool array stride num t).2.mem pool = num.setWidth 8 := by
      refine (uvisorPoolInit_header hnum (k := 12) (by decide)
        (fun _ => by decide)).trans ?_
      change load8 (header pool array stride num t).mem (pool+12) = _
      simp only [header, store8_mem, load8_store8, h1213, h1214, if_true, if_false]
    rw [hbyte, BitVec.toNat_setWidth]
    omega
  · have hbyte : poolNumAllocated (uvisorPoolInit pool array stride num t).2.mem pool = 0 := by
      refine (uvisorPoolInit_header hnum (k := 13) (by decide)
        (fun _ => by decide)).trans ?_
      change load8 (header pool array stride num t).mem (pool+13) = _
      simp only [header, store8_mem, load8_store8, h1314, if_true, if_false]
    rw [hbyte]
    rfl
  · have hlock : pool+14 ≠ pool+15 :=
      offset_ne (i := 14) (j := 15) (by decide) (by decide) (by decide)
    split
    · rename_i hzero
      have hbyte : poolFirstFree (uvisorPoolInit pool array stride num t).2.mem pool =
          slotInvalid := by
        rw [poolFirstFree, uvisorPoolInit_load8 hnum hlock, if_pos hzero, if_pos rfl]
      rw [hbyte]
      rfl
    · rename_i hpos
      have hbyte : poolFirstFree (uvisorPoolInit pool array stride num t).2.mem pool = 0 := by
        refine (uvisorPoolInit_header hnum (k := 14) (by decide)
          (fun hzero => absurd hzero hpos)).trans ?_
        change load8 (header pool array stride num t).mem (pool+14) = _
        simp only [header, store8_mem, load8_store8, if_true]
      rw [hbyte]
      rfl
  · have hpos : num.toNat ≠ 0 := by omega
    have hfilled : Filled pool num 0 (header pool array stride num t) _ :=
      fillEntries_filled (BitVec.not_le.mp hnum) 0 _
    have hentry := hfilled.entries s (Nat.zero_le s) hs
    have hlock : managementEntry pool s ≠ pool+15 ∧ managementEntry pool s+1 ≠ pool+15 :=
      ⟨(header_ne (k := 15) (by decide) (by omega)).1.symm,
        (header_ne (k := 15) (by decide) (by omega)).2.symm⟩
    have hstate : managementEntry pool s+1 ≠ managementEntry pool (num.toNat-1) :=
      (entry_ne (by omega) (by omega)).symm
    unfold entryView at hentry ⊢
    obtain ⟨hnext, hprev⟩ := PoolQueue.Entry.mk.inj hentry
    rw [uvisorPoolInit_load8 hnum hlock.1, uvisorPoolInit_load8 hnum hlock.2, if_neg hpos,
      if_neg hstate, hprev]
    by_cases hlast : s+1 = num.toNat
    · have hs1 : num.toNat-1 = s := by omega
      rw [hs1, if_pos rfl, if_pos hlast]
      rfl
    · rw [if_neg (entry_inj (by omega) (by omega) (by omega)).1, if_neg hlast, hnext]

theorem header_written {address : Word} (h : address ∈ (header pool array stride num t).writes) :
    address ∈ t.writes ∨ ∃ k < poolBytes, address = pool+BitVec.ofNat 32 k := by
  have hwiden : ∀ n ≤ poolBytes, (∃ k < n, address = pool+BitVec.ofNat 32 k) →
      ∃ k < poolBytes, address = pool+BitVec.ofNat 32 k := by
    rintro n hn ⟨k, hk, rfl⟩
    exact ⟨k, Nat.lt_of_lt_of_le hk hn, rfl⟩
  simp only [header, store8_writes, List.mem_append, List.mem_singleton] at h
  rcases h with ((h | rfl) | rfl) | rfl
  · rcases store32_written (i := 8) h with h | h
    · rcases store32_written (i := 4) h with h | h
      · rw [← BitVec.add_zero pool] at h
        rcases store32_written (i := 0) h with h | h
        · exact .inl h
        · exact .inr (hwiden _ (by decide) h)
      · exact .inr (hwiden _ (by decide) h)
    · exact .inr (hwiden _ (by decide) h)
  · exact .inr ⟨12, by decide, rfl⟩
  · exact .inr ⟨13, by decide, rfl⟩
  · exact .inr ⟨14, by decide, rfl⟩

/-- Only the pool and its entries are written. -/
theorem uvisorPoolInit_written : ∀ address ∈ (uvisorPoolInit pool array stride num t).2.writes,
    address ∈ t.writes ∨ InPool pool num.toNat address := by
  have hheader : ∀ k < 16, InPool pool num.toNat (pool+BitVec.ofNat 32 k) := fun k hk =>
    ⟨k, by unfold poolBytes; omega, rfl⟩
  intro address ha
  by_cases hnum : poolMaxValid.zeroExtend 32 ≤ num
  · rw [uvisorPoolInit, dif_pos hnum] at ha
    exact .inl ha
  · rw [uvisorPoolInit_eq hnum, patched_entry] at ha
    simp only [store8_writes, List.mem_append, List.mem_singleton] at ha
    rcases ha with (ha | rfl) | rfl
    · rcases (fillEntries_filled (BitVec.not_le.mp hnum) 0 _).written address ha with ha | ha
      · rcases header_written ha with ha | ⟨k, hk, rfl⟩
        · exact .inl ha
        · exact .inr (hheader k hk)
      · exact .inr ha
    · split
      · exact .inr (hheader 14 (by decide))
      · exact .inr (inPool_entry (by omega)).1
    · exact .inr (hheader 15 (by decide))

end Pool

/-! ## The initialized queue -/

section Queue

variable {mem : Memory} {queue pool array stride num : Word}

/-- The queue is apart from its pool and the entries of that. -/
def Apart (queue pool : Word) (num : ℕ) : Prop :=
  ∀ i < queueBytes, ∀ j < poolBytes+entryBytes*num,
    queue+BitVec.ofNat 32 i ≠ pool+BitVec.ofNat 32 j

/-- Success means a pool in order with as many free slots as asked for and an
empty queue, and all writes go to the pool, its entries and the queue. -/
def Usable (queue pool num : Word) (out : ℤ × Logged) : Prop :=
  (out.1 = 0 → ∃ free, Represents (queueView out.2.mem queue) free (fun _ => []) ∧
    free.length = num.toNat) ∧
  ∀ address ∈ out.2.writes, InPool pool num.toNat address ∨ InQueue queue address

/-- Bytes of the pool are not touched by the queue. -/
theorem uvisorPoolQueueInit_pool (t : Logged) (hapart : Apart queue pool num.toNat) {k : ℕ}
    (hk : k < poolBytes+entryBytes*num.toNat) :
    load8 (uvisorPoolQueueInit queue pool array stride num t).2.mem (pool+BitVec.ofNat 32 k) =
      load8 (uvisorPoolInit pool array stride num t).2.mem (pool+BitVec.ofNat 32 k) := by
  have hne : ∀ i < 12, pool+BitVec.ofNat 32 k ≠ queue+BitVec.ofNat 32 i :=
    fun i hi => (hapart i hi k hk).symm
  have h4 : pool+BitVec.ofNat 32 k ≠ queue+4 := hne 4 (by decide)
  have h5 : pool+BitVec.ofNat 32 k ≠ queue+5 := hne 5 (by decide)
  unfold uvisorPoolQueueInit
  dsimp only
  rw [store32_ne fun i hi => ?_, store8_mem, load8_store8, if_neg h5, store8_mem, load8_store8,
    if_neg h4, store32_ne fun i hi => hne i (by omega)]
  exact (offset_add queue 8 i).symm ▸ hne (8+i) (by omega)

/-- Fields of the queue. -/
theorem uvisorPoolQueueInit_queue (t : Logged) :
    queueHead (uvisorPoolQueueInit queue pool array stride num t).2.mem queue = slotInvalid ∧
      queueTail (uvisorPoolQueueInit queue pool array stride num t).2.mem queue = slotInvalid ∧
      queuePool (uvisorPoolQueueInit queue pool array stride num t).2.mem queue = pool := by
  have hne : ∀ i < 8, ∀ k < 4, queue+BitVec.ofNat 32 i ≠ queue+8+BitVec.ofNat 32 k := by
    intro i hi k hk
    exact (offset_add queue 8 k).symm ▸ offset_ne (by omega) (by omega) (by omega)
  have h45 : queue+4 ≠ queue+5 := offset_ne (i := 4) (j := 5) (by decide) (by decide) (by decide)
  have hhead : queueHead (uvisorPoolQueueInit queue pool array stride num t).2.mem queue = _ :=
    store32_ne (hne 4 (by decide))
  have htail : queueTail (uvisorPoolQueueInit queue pool array stride num t).2.mem queue = _ :=
    store32_ne (hne 5 (by decide))
  refine ⟨hhead.trans ?_, htail.trans ?_, store32_self⟩
  · exact (load8_store8_ne slotInvalid h45).trans (load8_store8_self ..)
  · exact load8_store8_self ..

/-- The description of a fresh pool only depends on its bytes. -/
theorem Fresh.congr {mem' : Memory} (h : Fresh pool num mem)
    (hbytes : ∀ k < poolBytes+entryBytes*num.toNat,
      load8 mem' (pool+BitVec.ofNat 32 k) = load8 mem (pool+BitVec.ofNat 32 k)) :
    Fresh pool num mem' := by
  have hheader : ∀ k < 16, load8 mem' (pool+BitVec.ofNat 32 k) =
      load8 mem (pool+BitVec.ofNat 32 k) := fun k hk => hbytes k (by unfold poolBytes; omega)
  have hnum : poolNum mem' pool = poolNum mem pool := hheader 12 (by decide)
  have hcount : poolNumAllocated mem' pool = poolNumAllocated mem pool := hheader 13 (by decide)
  have hfirst : poolFirstFree mem' pool = poolFirstFree mem pool := hheader 14 (by decide)
  refine ⟨hnum ▸ h.num_eq, hcount ▸ h.count, hfirst ▸ h.first, fun s hs => ?_⟩
  rw [← h.entries s hs]
  unfold entryView
  rw [managementEntry_succ, managementEntry_eq, hbytes, hbytes] <;>
    unfold poolBytes entryBytes <;> omega

/-- A fresh pool with an empty queue is in order. -/
theorem Fresh.represents (h : Fresh pool num mem) (hnum : num.toNat < 252)
    (hpool : queuePool mem queue = pool) (hhead : queueHead mem queue = slotInvalid)
    (htail : queueTail mem queue = slotInvalid) :
    Represents (queueView mem queue) (List.range num.toNat) (fun _ => []) := by
  have hview : (queueView mem queue).pool.num = num.toNat := by
    rw [← h.num_eq, ← hpool]
    rfl
  have hfirst : (queueView mem queue).pool.firstFree = _ := hpool.symm ▸ h.first
  have hcount : (queueView mem queue).pool.numAllocated = _ := hpool.symm ▸ h.count
  have hentries : ∀ s < num.toNat, (queueView mem queue).pool.managementArray s = _ :=
    hpool.symm ▸ h.entries
  rw [← hview] at hnum hfirst hentries ⊢
  refine PoolOperations.represents_range hnum hfirst hcount (fun s hs => ?_)
    (fun s hs => ?_) (fun _ => ⟨congrArg BitVec.toNat hhead, congrArg BitVec.toNat htail⟩)
  · exact congrArg PoolQueue.Entry.next (hentries s hs)
  · exact congrArg PoolQueue.Entry.prev (hentries s hs)

/-- All writes stay in the pool, its entries and the queue, also when the pool
is refused. -/
theorem uvisorPoolQueueInit_written : ∀ address ∈
    (uvisorPoolQueueInit queue pool array stride num ⟨mem, []⟩).2.writes,
      InPool pool num.toNat address ∨ InQueue queue address := by
  intro address ha
  have hwiden : ∀ n ≤ queueBytes, (∃ k < n, address = queue+BitVec.ofNat 32 k) →
      InQueue queue address := by
    rintro n hn ⟨k, hk, rfl⟩
    exact ⟨k, Nat.lt_of_lt_of_le hk hn, rfl⟩
  rcases store32_written (i := 8) ha with ha | ha
  · simp only [store8_writes, List.mem_append, List.mem_singleton] at ha
    rcases ha with (ha | rfl) | rfl
    · rw [← BitVec.add_zero queue] at ha
      rcases store32_written (i := 0) ha with ha | ha
      · rcases uvisorPoolInit_written address ha with ha | ha
        · exact absurd ha (List.not_mem_nil)
        · exact .inl ha
      · exact .inr (hwiden _ (by decide) ha)
    · exact .inr ⟨4, by decide, rfl⟩
    · exact .inr ⟨5, by decide, rfl⟩
  · exact .inr (hwiden _ (by decide) ha)

/-- Below the reserved slot numbers the pool is in order, all its slots are
free, and the queue is empty. -/
theorem uvisorPoolQueueInit_represents (hnum : num.toNat < 252)
    (hapart : Apart queue pool num.toNat) (t : Logged) :
    Represents (queueView (uvisorPoolQueueInit queue pool array stride num t).2.mem queue)
      (List.range num.toNat) (fun _ => []) := by
  have hfresh : Fresh pool num (uvisorPoolInit pool array stride num t).2.mem :=
    uvisorPoolInit_fresh (BitVec.not_le.mpr hnum)
  obtain ⟨hhead, htail, hpool⟩ := uvisorPoolQueueInit_queue t
  exact (hfresh.congr fun k hk => uvisorPoolQueueInit_pool t hapart hk).represents hnum hpool
    hhead htail

/-- The initialization keeps its promise exactly below the reserved slot
numbers. Above them it reports success all the same. -/
theorem uvisorPoolQueueInit_usable_iff (hapart : num < 252 → Apart queue pool num.toNat) :
    Usable queue pool num (uvisorPoolQueueInit queue pool array stride num ⟨mem, []⟩) ↔
      num < 252 := by
  constructor
  · rintro ⟨hsuccess, -⟩
    obtain ⟨free, hrep, hlength⟩ := hsuccess rfl
    have hcount := hrep.allocated
    have hbelow := hrep.num_lt
    unfold PoolQueue.poolMaxValid at hbelow
    rw [BitVec.lt_def]
    change num.toNat < 252
    omega
  · intro hnum
    refine ⟨fun _ => ⟨List.range num.toNat, ?_, List.length_range⟩, uvisorPoolQueueInit_written⟩
    exact uvisorPoolQueueInit_represents hnum (hapart hnum) _

/-- A queue directly before its pool of eight slots. -/
theorem uvisorPoolQueueInit_eight :
    Usable 0x20001000 0x2000100C 8
      (uvisorPoolQueueInit 0x20001000 0x2000100C 0x20001100 76 8 ⟨fun _ => 0xAA, []⟩) := by
  refine (uvisorPoolQueueInit_usable_iff fun _ i hi j hj => ?_).mpr (by decide)
  have hj : j < 32 := hj
  have hi : i < 12 := hi
  bv_omega

/-- No pool has 252 slots, and yet its initialization succeeds. -/
theorem uvisorPoolQueueInit_refused_pool :
    ¬Usable 0x20001000 0x2000100C 252
      (uvisorPoolQueueInit 0x20001000 0x2000100C 0x20001200 76 252 ⟨fun _ => 0, []⟩) := by
  rintro ⟨hsuccess, -⟩
  obtain ⟨free, hrep, hlength⟩ := hsuccess rfl
  have hcount := hrep.allocated
  have hbelow : _ < 252 := hrep.num_lt
  have hasked : (252 : Word).toNat = 252 := rfl
  omega

end Queue

end Uvisor.PoolInit
