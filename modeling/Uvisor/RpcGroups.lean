import Uvisor.RpcAccesses
import Uvisor.RpcApi

/-!
# The walk over the function groups of a callee

The monitor follows the links of a queue that lies in the memory of the callee,
from its head for as long as they are below the number of slots that the pool
states. Nothing bounds the number of steps, and nothing compares a link with
the number of groups in the array. The hook that posts to a semaphore is a
parameter; here it leaves alone what the walk reads.
-/

namespace Uvisor.RpcGroups

open Execution LinkedList RpcMemory PoolAccesses RpcAccesses

/-! ## What the walk reads -/

/-- A function group. -/
def fnGroupAt (array : Word) (slot : BitVec 8) : Word :=
  array+BitVec.ofNat 32 (fnGroupBytes*slot.toNat)

/-- Number of functions of a group. -/
def fnCount (mem : Memory) (array : Word) (slot : BitVec 8) : Word :=
  load32 mem (fnGroupAt array slot+4)

/-- The walk finds the same pool, links and numbers of functions. -/
structure SameWalk (queue array : Word) (mem mem' : Memory) : Prop where
  /-- The pool. -/
  pool : queuePool mem' queue = queuePool mem queue
  /-- Number of slots. -/
  num : poolNum mem' (queuePool mem queue) = poolNum mem (queuePool mem queue)
  /-- Links. -/
  next : ∀ slot < poolNum mem (queuePool mem queue),
    entryNext mem' (queuePool mem queue) slot = entryNext mem (queuePool mem queue) slot
  /-- Numbers of functions. -/
  count : ∀ slot < poolNum mem (queuePool mem queue),
    fnCount mem' array slot = fnCount mem array slot

/-- Posting to the semaphore of a group does not touch what the walk reads. -/
def PostSpares (sys : Platform) (queue array : Word) (mem : Memory) : Prop :=
  ∀ slot < poolNum mem (queuePool mem queue), ∀ mem', SameWalk queue array mem mem' →
    SameWalk queue array mem (sys.semaphorePost (fnGroupAt array slot+8) mem')

/-- The group that a step of the walk has looked at. -/
def visited : Operation → Option (BitVec 8)
  | .follow _ slot => some slot
  | _ => none

/-- The groups that a walk has looked at. -/
def groupSlots (r : Run) : List (BitVec 8) := r.calls.filterMap fun c => visited c.operation

/-- The walk over the groups of a box, in the given memory. -/
def walk (sys : Platform) (fuel : ℕ) (function : Word) (boxId : ℤ) (mem : Memory) : Bool × Walk :=
  wakeUpHandlersForTarget sys fuel function boxId ⟨⟨mem, []⟩, []⟩

/-- The walk ends after at most as many groups as the pool has slots, and looks
at groups of the array only. -/
structure WalkBounded (sys : Platform) (function : Word) (boxId : ℤ) (mem : Memory) : Prop where
  /-- The walk ends. -/
  ends : ∃ fuel, (walk sys fuel function boxId mem).1 = true ∧
    (groupSlots (walk sys fuel function boxId mem).2.run).length ≤
      (poolNum mem (queuePool mem (fnGroupQueue mem (sys.bss boxId)))).toNat
  /-- The groups are in the array. -/
  within : ∀ fuel, ∀ slot ∈ groupSlots (walk sys fuel function boxId mem).2.run,
    slot.toNat < RpcApi.fnGroupSlots

/-- The links from the head of a queue come to a number that is no slot of the
pool, by way of groups of the array. -/
def GroupsLinked (queue : Word) (mem : Memory) : Prop :=
  let pool := queuePool mem queue
  ∃ path last, Follows (entryNext mem pool) (· < poolNum mem pool) (queueHead mem queue) path last ∧
    poolNum mem pool ≤ last ∧ ∀ slot ∈ path, slot.toNat < RpcApi.fnGroupSlots

/-! ## One group -/

section Groups

variable {sys : Platform} {queue array function : Word} {mem : Memory}

/-- The search through the functions of a group. -/
theorem search_same (hpost : PostSpares sys queue array mem) {slot : BitVec 8}
    (hslot : slot < poolNum mem (queuePool mem queue)) (fnPtrArray : Word) (fuel : ℕ) {st : Search}
    (h : SameWalk queue array mem st.mem) :
    SameWalk queue array mem
      (attempt (searchBody sys function (fnGroupAt array slot) fnPtrArray) fuel st).2.mem := by
  refine attempt_invariant (fun st : Search => SameWalk queue array mem st.mem)
    (fun st hst => ?_) fuel h
  unfold searchBody
  split
  · split
    · exact hpost slot hslot st.mem hst
    · exact hst
  · exact hst

/-- The search ends after the last function. -/
theorem search_ends (hpost : PostSpares sys queue array mem) {slot : BitVec 8}
    (hslot : slot < poolNum mem (queuePool mem queue)) (fnPtrArray : Word) {fuel : ℕ} {st : Search}
    (h : SameWalk queue array mem st.mem) (hi : st.i.toNat ≤ (fnCount mem array slot).toNat)
    (hfuel : (fnCount mem array slot).toNat < fuel+st.i.toNat) :
    (attempt (searchBody sys function (fnGroupAt array slot) fnPtrArray) fuel st).1 = true := by
  induction fuel generalizing st with
  | zero => omega
  | succ fuel ih =>
    have hcount : load32 st.mem (fnGroupAt array slot+4) = fnCount mem array slot :=
      h.count slot hslot
    rw [attempt, searchBody, hcount]
    by_cases hlt : st.i < fnCount mem array slot
    · have hsucc : (st.i+1).toNat = st.i.toNat+1 := by bv_omega
      have hlt' : st.i.toNat < (fnCount mem array slot).toNat := hlt
      rw [if_pos hlt]
      split_ifs with hfound
      · exact ih (hpost slot hslot st.mem h) (by dsimp only; omega) (by dsimp only; omega)
      · exact ih h (by dsimp only; omega) (by dsimp only; omega)
    · rw [if_neg hlt]

/-- A pass that gets through a group goes on with the next one. -/
theorem wakeUpBody_next (hpost : PostSpares sys queue array mem) (fuel : ℕ) {st : Walk}
    (h : SameWalk queue array mem st.run.mem)
    (hslot : st.slot < poolNum mem (queuePool mem queue)) :
    (∃ st', wakeUpBody sys fuel function queue array st = .cut st' ∧ fuel < 2^32 ∧
      groupSlots st'.run = groupSlots st.run) ∨
    ∃ st', wakeUpBody sys fuel function queue array st = .next st' ∧
      SameWalk queue array mem st'.run.mem ∧
      st'.slot = entryNext mem (queuePool mem queue) st.slot ∧
      groupSlots st'.run = groupSlots st.run ++ [st.slot] := by
  have hbound : st.slot < poolNum st.run.mem (queuePool st.run.mem queue) := by
    rw [h.pool, h.num]
    exact hslot
  unfold wakeUpBody
  rw [if_pos hbound]
  dsimp only
  split
  · rename_i hcut
    refine .inl ⟨_, rfl, ?_, rfl⟩
    by_contra hfuel
    have hcount := (fnCount mem array st.slot).isLt
    have hends : (attempt (searchBody sys function (fnGroupAt array st.slot)
        (load32 st.run.mem (fnGroupAt array st.slot))) fuel ⟨st.run.mem, 0, st.numPosted⟩).1 =
          true :=
      search_ends hpost hslot _ h (Nat.zero_le _) (by dsimp only; omega)
    exact absurd (hcut.symm.trans hends) Bool.false_ne_true
  · have hsame : SameWalk queue array mem (attempt (searchBody sys function
        (fnGroupAt array st.slot) (load32 st.run.mem (fnGroupAt array st.slot))) fuel
          ⟨st.run.mem, 0, st.numPosted⟩).2.mem := search_same hpost hslot _ fuel h
    refine .inr ⟨_, rfl, hsame, ?_, ?_⟩
    · rw [← hsame.next st.slot hslot, ← hsame.pool]
      rfl
    · simp [groupSlots, Run.follow, Run.perform, Run.write, visited]

/-- The walk follows the links of the queue, and ends only where they leave the
pool. -/
theorem attempt_follows (hpost : PostSpares sys queue array mem) (inner fuel : ℕ) {st : Walk}
    (h : SameWalk queue array mem st.run.mem) :
    ∃ path last, Follows (entryNext mem (queuePool mem queue))
        (· < poolNum mem (queuePool mem queue)) st.slot path last ∧
      groupSlots (attempt (wakeUpBody sys inner function queue array) fuel st).2.run =
        groupSlots st.run ++ path ∧
      ((attempt (wakeUpBody sys inner function queue array) fuel st).1 = true →
        ¬last < poolNum mem (queuePool mem queue)) := by
  induction fuel generalizing st with
  | zero => exact ⟨[], st.slot, .here _, (List.append_nil _).symm, fun hends => by cases hends⟩
  | succ fuel ih =>
    rw [attempt]
    by_cases hslot : st.slot < poolNum mem (queuePool mem queue)
    · rcases wakeUpBody_next hpost inner h hslot with
        ⟨st', hpass, -, hslots⟩ | ⟨st', hpass, hsame, hnext, hslots⟩
      · rw [hpass]
        exact ⟨[], st.slot, .here _, by rw [hslots, List.append_nil], fun hends => by cases hends⟩
      · rw [hpass]
        obtain ⟨path, last, hfollows, hpath, hends⟩ := ih hsame
        refine ⟨st.slot :: path, last, .more hslot (hnext ▸ hfollows), ?_, hends⟩
        rw [hpath, hslots, List.append_assoc, List.singleton_append]
    · have hout : wakeUpBody sys inner function queue array st = .stop st := by
        rw [wakeUpBody, if_neg]
        rwa [h.pool, h.num]
      rw [hout]
      exact ⟨[], st.slot, .here _, (List.append_nil _).symm, fun _ => hslot⟩

/-- The walk ends when the links leave the pool. -/
theorem attempt_ends (hpost : PostSpares sys queue array mem) {inner : ℕ} (hinner : 2^32 ≤ inner)
    {path : List (BitVec 8)} {last : BitVec 8} {fuel : ℕ} {st : Walk}
    (h : SameWalk queue array mem st.run.mem)
    (hpath : Follows (entryNext mem (queuePool mem queue))
      (· < poolNum mem (queuePool mem queue)) st.slot path last)
    (hlast : ¬last < poolNum mem (queuePool mem queue)) (hfuel : path.length < fuel) :
    (attempt (wakeUpBody sys inner function queue array) fuel st).1 = true := by
  generalize hstart : st.slot = start at hpath
  induction hpath generalizing st fuel with
  | here slot =>
    subst hstart
    cases fuel with
    | zero => exact absurd hfuel (Nat.not_lt_zero _)
    | succ fuel =>
      have hout : wakeUpBody sys inner function queue array st = .stop st := by
        rw [wakeUpBody, if_neg]
        rwa [h.pool, h.num]
      rw [attempt, hout]
  | more hslot _ ih =>
    subst hstart
    cases fuel with
    | zero => exact absurd hfuel (Nat.not_lt_zero _)
    | succ fuel =>
      rcases wakeUpBody_next hpost inner h hslot with
        ⟨_, -, hsmall, -⟩ | ⟨st', hpass, hsame, hnext, -⟩
      · omega
      · rw [attempt, hpass]
        rw [List.length_cons] at hfuel
        exact ih hsame hlast (by omega) hnext

end Groups

/-! ## The whole walk -/

section Walks

variable {sys : Platform} {function : Word} {boxId : ℤ} {mem : Memory}

/-- The length of a walk that ends. -/
theorem path_length_le {next : BitVec 8 → BitVec 8} {num start last : BitVec 8}
    {path : List (BitVec 8)} (h : Follows next (· < num) start path last) (hlast : ¬last < num) :
    path.length ≤ num.toNat := by
  have hnodup : (path.map BitVec.toNat).Nodup :=
    (h.nodup hlast).map fun _ _ => BitVec.eq_of_toNat_eq
  have hsub : path.map BitVec.toNat ⊆ List.range num.toNat := by
    intro n hn
    obtain ⟨slot, hslot, rfl⟩ := List.mem_map.mp hn
    exact List.mem_range.mpr (h.mem hslot)
  simpa using (hnodup.subperm hsub).length_le

/-- The groups that the walk looks at. -/
theorem walk_follows
    (hpost : PostSpares sys (fnGroupQueue mem (sys.bss boxId)) (fnGroupArray mem (sys.bss boxId)) mem)
    (fuel : ℕ) :
    ∃ path last, Follows (entryNext mem (queuePool mem (fnGroupQueue mem (sys.bss boxId))))
        (· < poolNum mem (queuePool mem (fnGroupQueue mem (sys.bss boxId))))
        (queueHead mem (fnGroupQueue mem (sys.bss boxId))) path last ∧
      groupSlots (walk sys fuel function boxId mem).2.run = path ∧
      ((walk sys fuel function boxId mem).1 = true →
        ¬last < poolNum mem (queuePool mem (fnGroupQueue mem (sys.bss boxId)))) := by
  obtain ⟨path, last, hpath, hslots, hends⟩ := @attempt_follows _ _ _ function _ hpost fuel fuel
    ⟨⟨⟨mem, []⟩, []⟩, queueHead mem (fnGroupQueue mem (sys.bss boxId)), 0⟩
    ⟨rfl, rfl, fun _ _ => rfl, fun _ _ => rfl⟩
  exact ⟨path, last, hpath, hslots, hends⟩

/-- Whatever the memory of the callee holds, the walk over its function groups is
bounded exactly if the links of the queue leave the pool by way of groups of the
array. -/
theorem walkBounded_iff
    (hpost : PostSpares sys (fnGroupQueue mem (sys.bss boxId)) (fnGroupArray mem (sys.bss boxId))
      mem) :
    WalkBounded sys function boxId mem ↔ GroupsLinked (fnGroupQueue mem (sys.bss boxId)) mem := by
  constructor
  · rintro ⟨⟨fuel, hends, -⟩, hwithin⟩
    obtain ⟨path, last, hpath, rfl, hlast⟩ := @walk_follows _ function _ _ hpost fuel
    exact ⟨_, last, hpath, BitVec.not_lt.mp (hlast hends), hwithin fuel⟩
  · rintro ⟨path, last, hpath, hlast, harray⟩
    have hout := BitVec.not_lt.mpr hlast
    refine ⟨⟨2^32+path.length+1, ?_, ?_⟩, fun fuel slot hslot => ?_⟩
    · exact attempt_ends hpost (by omega) ⟨rfl, rfl, fun _ _ => rfl, fun _ _ => rfl⟩ hpath hout
        (by omega)
    · obtain ⟨_, last', hpath', rfl, -⟩ := @walk_follows _ function _ _ hpost (2^32+path.length+1)
      exact (hpath.initial hout hpath').length_le.trans (path_length_le hpath hout)
    · obtain ⟨_, last', hpath', rfl, -⟩ := @walk_follows _ function _ _ hpost fuel
      exact harray slot ((hpath.initial hout hpath').subset hslot)

end Walks

section Sample

/-- The structures for remote calls of the box of the small system, with one
function group in the queue. The argument is the first word of the entries. -/
def groupMemory (entries : Word) : Memory := fun address =>
  if address < 0x20001600 then wordsAt 0x20001000 [0, 0, 0, 0x20001100] address
  else wordsAt 0x20001624 [BitVec.ofNat 32 PoolQueue.poolQueueMagic, 0, 0x20001630,
    BitVec.ofNat 32 PoolQueue.poolMagic, 0x20001650, 44, 8, entries, 0, 0, 0, 0x3000, 1] address

theorem groupMemory_spares (entries : Word) (queue array : Word) :
    PostSpares sampleSystem queue array (groupMemory entries) := fun _ _ _ hsame => hsame

/-- The only group is the last one. -/
theorem walkBounded_groupMemory : WalkBounded sampleSystem 0x3000 1 (groupMemory 0xFFFF) := by
  refine (walkBounded_iff (groupMemory_spares _ _ _)).mpr ⟨[0], 255, ?_, by decide, ?_⟩
  · exact .more (by decide) (.here 255)
  · intro slot hslot
    rw [List.mem_singleton.mp hslot]
    decide

/-- The only group points to itself. -/
theorem walkBounded_fails_groupMemory :
    ¬WalkBounded sampleSystem 0x3000 1 (groupMemory 0xFF00) := by
  rintro ⟨⟨fuel, hends, -⟩, -⟩
  obtain ⟨path, last, hpath, -, hlast⟩ :=
    @walk_follows sampleSystem 0x3000 1 _ (groupMemory_spares _ _ _) fuel
  have hhead : queueHead (groupMemory 0xFF00)
      (fnGroupQueue (groupMemory 0xFF00) (sampleSystem.bss 1)) = 0 := by decide
  have hloop : entryNext (groupMemory 0xFF00) (queuePool (groupMemory 0xFF00)
      (fnGroupQueue (groupMemory 0xFF00) (sampleSystem.bss 1))) 0 = 0 := by decide
  have hnum : 0 < poolNum (groupMemory 0xFF00) (queuePool (groupMemory 0xFF00)
      (fnGroupQueue (groupMemory 0xFF00) (sampleSystem.bss 1))) := by decide
  rw [hhead] at hpath
  have hkept := hpath.not_of_loop hloop hnum
  exact hlast hends hkept

end Sample

end Uvisor.RpcGroups
