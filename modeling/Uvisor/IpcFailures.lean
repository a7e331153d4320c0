import Uvisor.IpcTokenRuns
import Mathlib.Algebra.BigOperators.Group.List.Basic

/-!
# Calls of ipc_send and ipc_recv that fail

A call allocates a token and then a slot, each under a lock of its own, and
gives up when it gets none. What the steps of a call change is told apart from
what others do in between: the bits it sets in allocated_tokens, the slots it
takes from the pool, and whether it writes to its descriptor. A call that
returns an error is recorded with what it has changed. The memory at the start
is any memory.
-/

namespace Uvisor.IpcFailures

open PoolQueue PoolOperations Ipc IpcTermination IpcPasses IpcTokens IpcTokenInvariant IpcTokenLifecycle
  IpcTokenRuns Execution

/-! ## What a call changes -/

/-- What the steps of a call have changed so far. -/
structure Effects where
  /-- Bits set in allocated_tokens. -/
  tokens : ℕ
  /-- Slots taken from the pool. -/
  slots : List ℕ
  /-- Whether the descriptor has been written to. -/
  wrote : Bool
  deriving DecidableEq

/-- Slots of a pool that are free no more. -/
def taken (pool pool' : Pool) : List ℕ :=
  (List.range pool.num).filter fun slot => pool.prev slot = slotIsFree ∧ pool'.prev slot ≠ slotIsFree

/-- One more step of a call, from the memory before and after. -/
def Effects.after (e : Effects) (box : ℕ) (call : IoCall) (mem mem' : Memory) : Effects where
  tokens := e.tokens ||| ipcFreeTokens (mem'.box box).allocatedTokens (mem.box box).allocatedTokens
  slots := e.slots ++ taken (queueOf (mem.box box) call.receives).pool
    (queueOf (mem'.box box) call.receives).pool
  wrote := e.wrote || mem'.desc call.desc ≠ mem.desc call.desc

/-- A call that has returned an error. -/
structure Failure where
  /-- Its variable new_token. -/
  newToken : ℕ
  /-- The token set of its box when it returns. -/
  allocatedTokens : ℕ
  /-- What it has changed. -/
  effects : Effects
  deriving DecidableEq

/-- The call has left neither a bit nor a slot of its own behind, and has not
written to its descriptor. -/
def Failure.Atomic (f : Failure) : Prop :=
  f.effects.tokens &&& f.allocatedTokens = 0 ∧ f.effects.slots = [] ∧ f.effects.wrote = false

/-- The number of tokens and slots that are missing for later requests. -/
def Failure.reduction (f : Failure) : ℕ :=
  ((List.range 32).filter (f.effects.tokens &&& f.allocatedTokens).testBit).length+
    f.effects.slots.length

/-- The call has allocated a token, has found no slot, and its token is still
allocated. -/
def Failure.Starved (f : Failure) : Prop := f.newToken &&& f.allocatedTokens ≠ 0

/-! ## The system with the record -/

/-- The system, what the current call of each thread has changed, and the calls
that have failed. -/
structure State where
  /-- The system. -/
  ipc : IpcTokens.State
  /-- Changes of the calls under way. -/
  effects : ℕ → Effects
  /-- Calls that have returned an error, last one first. -/
  failures : List Failure

/-- The call of ipc_send or ipc_recv that a thread is in. -/
def callOf : Pc → Option IoCall
  | .allocating call | .scanning call | .marking call _ | .marked call _ | .claiming call _
  | .naming call _ _ | .filling call _ | .posting call _ => some call
  | _ => none

/-- The two error returns of ipc_io, with the variable new_token. -/
def errorReturn : Pc → Pc → Option ℕ
  | .marked _ token, .idle | .claiming _ token, .idle => some token
  | _, _ => none

/-- A thread has gone on with its call. -/
def State.ran (s : State) (box thread : ℕ) (st' : IpcTokens.State) : State :=
  match callOf (s.ipc.pc thread) with
  | none => {s with ipc := st'}
  | some call =>
    let effects := (s.effects thread).after box call s.ipc.mem st'.mem
    let failure := (errorReturn (s.ipc.pc thread) (st'.pc thread)).map fun token =>
      ⟨token, (st'.mem.box box).allocatedTokens, effects⟩
    ⟨st', Function.update s.effects thread effects, failure.toList ++ s.failures⟩

/-- One step of the system with the record. -/
def step (sys : Platform) (owner : ℕ → ℕ) (s : State) (a : Action) : Option State :=
  (IpcTokens.step sys owner s.ipc a).map fun st' =>
    match a with
    | .io thread _ => {s with ipc := st', effects := Function.update s.effects thread ⟨0, [], false⟩}
    | .run thread => s.ran (owner thread) thread st'
    | _ => {s with ipc := st'}

/-- No thread is in a call, and no call has failed. -/
structure Initial (s : State) : Prop where
  /-- All threads are outside. -/
  pc : ∀ thread, s.ipc.pc thread = .idle
  /-- Nothing has failed. -/
  failures : s.failures = []

/-- Calls that have returned an error have left nothing behind, so that they
have not reduced the number of requests that can be outstanding. -/
def FailsAtomically (s : State) : Prop :=
  (∀ f ∈ s.failures, f.Atomic) ∧ (s.failures.map Failure.reduction).sum = 0

/-! ## One step of a call -/

/-- The token that a call would leave behind if it failed at this position. -/
def owed : Pc → Option ℕ
  | .allocating _ | .scanning _ | .marking _ _ => some 0
  | .marked _ token | .claiming _ token => some token
  | _ => none

section Changes

variable {e : Effects} {box : ℕ} {call : IoCall} {mem mem' : Memory}

theorem taken_self (pool : Pool) : taken pool pool = [] := by
  simp [taken]

theorem ipcFreeTokens_self (tokens : ℕ) : ipcFreeTokens tokens tokens = 0 := by
  simp [ipcFreeTokens]

/-- A step that changes neither tokens nor queues nor descriptors. -/
theorem after_same (htokens : (mem'.box box).allocatedTokens = (mem.box box).allocatedTokens)
    (hqueue : queueOf (mem'.box box) call.receives = queueOf (mem.box box) call.receives)
    (hdesc : mem'.desc = mem.desc) : e.after box call mem mem' = e := by
  simp [Effects.after, htokens, hqueue, hdesc, taken_self, ipcFreeTokens_self]

theorem allocated_setTokensLock (mem : Memory) (b c : ℕ) (acquired : Bool) :
    ((mem.setTokensLock b acquired).box c).allocatedTokens = (mem.box c).allocatedTokens :=
  setBox_field BoxIpc.allocatedTokens (by rfl) c

theorem queueOf_setTokensLock (mem : Memory) (b c : ℕ) (acquired receives : Bool) :
    queueOf ((mem.setTokensLock b acquired).box c) receives = queueOf (mem.box c) receives :=
  setBox_field (queueOf · receives) (by cases receives <;> rfl) c

/-- Taking or releasing the token lock changes nothing else. -/
theorem after_lock (acquired : Bool) :
    e.after box call mem (mem.setTokensLock box acquired) = e :=
  after_same (allocated_setTokensLock mem box box acquired)
    (queueOf_setTokensLock mem box box acquired call.receives) rfl

theorem allocated_setQueue (mem : Memory) (b c : ℕ) (receives : Bool) (q : PoolQueues Unit) :
    ((setQueue mem b receives q).box c).allocatedTokens = (mem.box c).allocatedTokens := by
  cases receives <;> exact setBox_field BoxIpc.allocatedTokens (by rfl) c

theorem tokensLock_setQueue (mem : Memory) (b c : ℕ) (receives : Bool) (q : PoolQueues Unit) :
    ((setQueue mem b receives q).box c).tokensLock = (mem.box c).tokensLock := by
  cases receives <;> exact setBox_field BoxIpc.tokensLock (by rfl) c

theorem desc_setQueue (mem : Memory) (b : ℕ) (receives : Bool) (q : PoolQueues Unit) :
    (setQueue mem b receives q).desc = mem.desc := by
  cases receives <;> rfl

/-- The bits that are set when a free token is allocated. -/
theorem allocated_diff {tokens token : ℕ}
    (h : token = 0 ∨ ∃ i < 32, token = 2^i ∧ tokens.testBit i = false) :
    ipcFreeTokens (tokens ||| token) tokens = token := by
  refine Nat.eq_of_testBit_eq fun j => ?_
  rw [testBit_ipcFreeTokens, Nat.testBit_or]
  rcases h with rfl | ⟨i, -, rfl, hfree⟩
  · simp
  · rw [Nat.testBit_two_pow]
    by_cases hij : i = j
    · subst hij
      simp [hfree]
    · simp [hij]

/-- An allocation that gets no slot of the pool has taken none. -/
theorem taken_of_refused {m : PoolQueues Unit} {out : ℕ × PoolQueues Unit}
    (h : uvisorPoolAllocate m = some out) (hnone : out.2.pool.num ≤ out.1) :
    taken m.pool out.2.pool = [] := by
  obtain ⟨lock, -, rfl⟩ := Option.map_eq_some_iff.mp h
  have hnum : m.pool.num ≤ m.pool.firstFree := by
    have hsame := num_of_header () (header_uvisorPoolAllocate h)
    have hfirst : (allocateSection (m.setLock lock)).1 = m.pool.firstFree := by
      by_cases hf : m.pool.firstFree = slotInvalid <;>
        simp [allocateSection, poolAlloc, PoolQueues.setLock, Pool.setLock, hf]
    rw [← hsame, ← hfirst]
    exact hnone
  have hkept : ∀ slot < m.pool.num, (allocateSection (m.setLock lock)).2.unlock.pool.prev slot =
      m.pool.prev slot := by
    intro slot hslot
    have hne : slot ≠ m.pool.firstFree := by omega
    by_cases hf : m.pool.firstFree = slotInvalid
    · simp [allocateSection, poolAlloc, PoolQueues.setLock, PoolQueues.unlock, Pool.setLock, hf,
        Pool.prev]
    · simp [allocateSection, poolAlloc, PoolQueues.setLock, PoolQueues.unlock, Pool.setLock, hf,
        Pool.prev, Pool.setNext, Pool.setPrev, hne]
  refine List.filter_eq_nil_iff.mpr fun slot hslot => ?_
  rw [hkept slot (List.mem_range.mp hslot)]
  simp

end Changes

section Steps

variable {owner : ℕ → ℕ} {st st' : IpcTokens.State} {t : ℕ}

/-- A token that a thread has found is not allocated. -/
def Found (owner : ℕ → ℕ) (st : IpcTokens.State) : Prop :=
  ∀ t call token, st.pc t = .marking call token → token = 0 ∨
    ∃ i < 32, token = 2^i ∧ (st.mem.box (owner t)).allocatedTokens.testBit i = false

/-- What a step of a thread does to positions and tokens, and what it changes
for the call that it is a step of. -/
structure Stepped (owner : ℕ → ℕ) (st st' : IpcTokens.State) (t : ℕ) : Prop where
  /-- Other threads stay. -/
  others : ∀ u, u ≠ t → st'.pc u = st.pc u
  /-- Critical sections still exclude each other. -/
  exclusive : Exclusive owner st'
  /-- Tokens are allocated and freed in critical sections. -/
  tokens : ∀ b, (st'.mem.box b).allocatedTokens = (st.mem.box b).allocatedTokens ∨
    b = owner t ∧ critical (st.pc t) = true
  /-- A token that it has found is free. -/
  found : ∀ call token, st'.pc t = .marking call token → token = 0 ∨
    ∃ i < 32, token = 2^i ∧ (st'.mem.box (owner t)).allocatedTokens.testBit i = false
  /-- Up to the claim of a slot, a call sets the bit of its token only. -/
  effects : ∀ token, owed (st'.pc t) = some token ∨
      errorReturn (st.pc t) (st'.pc t) = some token →
    ∃ call before, callOf (st.pc t) = some call ∧ owed (st.pc t) = some before ∧
      Effects.after ⟨before, [], false⟩ (owner t) call st.mem st'.mem = ⟨token, [], false⟩

/-- A step that goes on to a position without a found token. -/
theorem stepped_goto {pc : Pc} {mem : Memory} (hexclusive : Exclusive owner (st.goto t pc mem))
    (htokens : ∀ b, (mem.box b).allocatedTokens = (st.mem.box b).allocatedTokens ∨
      b = owner t ∧ critical (st.pc t) = true)
    (hfound : ∀ call token, pc = .marking call token → token = 0 ∨
      ∃ i < 32, token = 2^i ∧ (mem.box (owner t)).allocatedTokens.testBit i = false)
    (heffects : ∀ token, owed pc = some token ∨ errorReturn (st.pc t) pc = some token →
      ∃ call before, callOf (st.pc t) = some call ∧ owed (st.pc t) = some before ∧
        Effects.after ⟨before, [], false⟩ (owner t) call st.mem mem = ⟨token, [], false⟩) :
    Stepped owner st (st.goto t pc mem) t := by
  refine ⟨fun u hu => goto_pc_of_ne hu, hexclusive, htokens, ?_, ?_⟩
  · rw [goto_pc_self]
    exact hfound
  · rw [goto_pc_self]
    exact heffects

/-- A step that goes on to a position from which the call does not fail any
more. -/
theorem stepped_past {pc : Pc} {mem : Memory} (hexclusive : Exclusive owner (st.goto t pc mem))
    (htokens : ∀ b, (mem.box b).allocatedTokens = (st.mem.box b).allocatedTokens ∨
      b = owner t ∧ critical (st.pc t) = true)
    (howed : owed pc = none) (hreturn : errorReturn (st.pc t) pc = none) :
    Stepped owner st (st.goto t pc mem) t := by
  refine stepped_goto hexclusive htokens (fun call token hpc => ?_) fun token h => ?_
  · rw [hpc] at howed
    cases howed
  · rw [howed, hreturn] at h
    rcases h with h | h <;> cases h

theorem Stepped.of_eq {st'' : IpcTokens.State} (h : Stepped owner st st' t)
    (hpc : st''.pc = st'.pc) (hmem : st''.mem = st'.mem) : Stepped owner st st'' t where
  others := hpc ▸ h.others
  exclusive := ⟨fun u hu => hmem ▸ h.exclusive.locked u (hpc ▸ hu),
    fun u v ho hu hv => h.exclusive.unique u v ho (hpc ▸ hu) (hpc ▸ hv)⟩
  tokens := hmem ▸ h.tokens
  found := by
    rw [hpc, hmem]
    exact h.found
  effects := by
    rw [hpc, hmem]
    exact h.effects

theorem threadStep_stepped (hexclusive : Exclusive owner st) (hfound : Found owner st)
    (h : threadStep (owner t) st t = some st') : Stepped owner st st' t := by
  have hstay {pc : Pc} {mem : Memory} (hcritical : critical pc = critical (st.pc t))
      (hlock : ∀ b, (mem.box b).tokensLock = (st.mem.box b).tokensLock) :
      Exclusive owner (st.goto t pc mem) := hexclusive.stay hcritical hlock
  have hlock (b : ℕ) (acquired : Bool) (c : ℕ) :
      ((st.mem.setTokensLock b acquired).box c).allocatedTokens = (st.mem.box c).allocatedTokens ∨
        c = owner t ∧ critical (st.pc t) = true :=
    .inl (allocated_setTokensLock st.mem b c acquired)
  unfold threadStep at h
  cases hpc : st.pc t with
  | idle => simp [hpc] at h
  | allocating call =>
    simp only [hpc, Option.map_eq_some_iff] at h
    obtain ⟨lock, hacquired, rfl⟩ := h
    obtain ⟨hfree, rfl⟩ := spinLock_eq_some hacquired
    refine stepped_goto (hexclusive.acquire hfree) (hlock _ _) (fun _ _ h => by cases h) ?_
    rintro token (h | h)
    · rw [hpc]
      cases h
      exact ⟨call, 0, rfl, rfl, after_lock true⟩
    · rw [hpc] at h
      cases h
  | scanning call =>
    simp only [hpc, Option.some.injEq] at h
    subst h
    refine stepped_goto (hstay (by rw [hpc]; rfl) fun _ => rfl) (fun _ => .inl rfl) ?_ ?_
    · intro call token h
      cases h
      exact freeToken_spec _
    · rintro token (h | h)
      · rw [hpc]
        cases h
        exact ⟨call, 0, rfl, rfl, after_same rfl rfl rfl⟩
      · rw [hpc] at h
        cases h
  | marking call token =>
    simp only [hpc, Option.some.injEq] at h
    subst h
    have hbits := allocated_diff (hfound t call token hpc)
    refine @Stepped.of_eq owner st (st.goto t (.marked call token) _) t _
      (stepped_goto (hstay (by rw [hpc]; rfl) (setBox_field BoxIpc.tokensLock (by rfl))) ?_
        (fun _ _ h => by cases h) ?_) rfl rfl
    · intro b
      by_cases hb : b = owner t
      · exact .inr ⟨hb, by rw [hpc]; rfl⟩
      · exact .inl (by simp [Memory.setBox, hb])
    · rintro token' (h | h)
      · rw [hpc]
        cases h
        refine ⟨call, 0, rfl, rfl, ?_⟩
        have hqueue : queueOf ((st.mem.setBox (owner t) {st.mem.box (owner t) with
            allocatedTokens := (st.mem.box (owner t)).allocatedTokens ||| token}).box (owner t))
              call.receives = queueOf (st.mem.box (owner t)) call.receives :=
          setBox_field (queueOf · call.receives) (by rfl) (owner t)
        simp only [Effects.after, hqueue, taken_self]
        simp [Memory.setBox, hbits]
      · rw [hpc] at h
        cases h
  | marked call token =>
    simp only [hpc, Option.some.injEq] at h
    subst h
    have hout : critical (if token = 0 then Pc.idle else .claiming call token) = false := by
      split <;> rfl
    refine stepped_goto (hexclusive.release (by rw [hpc]; rfl) hout) (hlock _ _) ?_ ?_
    · intro call token h
      split at h <;> cases h
    · rintro token' h
      rw [hpc] at h ⊢
      refine ⟨call, token, rfl, rfl, ?_⟩
      have htoken : token' = token := by
        split at h <;> simpa [owed, errorReturn, eq_comm] using h
      rw [htoken]
      exact after_lock false
  | claiming call token =>
    simp only [hpc, Option.map_eq_some_iff] at h
    obtain ⟨out, hout, rfl⟩ := h
    refine stepped_goto (hstay ?_ (tokensLock_setQueue _ _ · _ _))
      (fun b => .inl (allocated_setQueue _ _ b _ _)) ?_ ?_
    · rw [hpc]
      split <;> rfl
    · intro call token h
      split at h <;> cases h
    · rintro token' h
      rw [hpc] at h ⊢
      by_cases hnone : out.2.pool.num ≤ out.1
      · rw [if_pos hnone] at h
        have htoken : token' = token := by simpa [owed, errorReturn, eq_comm] using h
        refine ⟨call, token, rfl, rfl, ?_⟩
        have htaken := taken_of_refused hout hnone
        have hqueue : queueOf ((setQueue st.mem (owner t) call.receives out.2).box (owner t))
            call.receives = out.2 := by
          cases call.receives <;> simp [setQueue, queueOf]
        simp [Effects.after, hqueue, htaken, htoken, allocated_setQueue, ipcFreeTokens_self,
          desc_setQueue]
      · rw [if_neg hnone] at h
        rcases h with h | h <;> cases h
  | naming call token slot =>
    simp only [hpc, Option.some.injEq] at h
    subst h
    refine stepped_past (hstay (by rw [hpc]; rfl) fun _ => rfl) (fun _ => .inl rfl) rfl ?_
    rw [hpc]
    rfl
  | filling call slot =>
    simp only [hpc, Option.some.injEq] at h
    subst h
    refine stepped_past (hstay (by rw [hpc]; rfl)
      (setIo_field BoxIpc.tokensLock (fun _ => rfl) fun _ => rfl))
      (fun b => .inl (setIo_field BoxIpc.allocatedTokens (fun _ => rfl) (fun _ => rfl) b)) rfl ?_
    rw [hpc]
    rfl
  | posting call slot =>
    simp only [hpc, Option.map_eq_some_iff] at h
    obtain ⟨queues, hout, rfl⟩ := h
    refine stepped_past (hstay (by rw [hpc]; rfl) (tokensLock_setQueue _ _ · _ _))
      (fun b => .inl (allocated_setQueue _ _ b _ _)) rfl ?_
    rw [hpc]
    rfl
  | waiting call =>
    simp only [hpc, Option.map_eq_some_iff] at h
    obtain ⟨lock, hacquired, rfl⟩ := h
    obtain ⟨hfree, rfl⟩ := spinLock_eq_some hacquired
    refine stepped_past (hexclusive.acquire hfree) (hlock _ _) rfl ?_
    rw [hpc]
    rfl
  | reading call =>
    simp only [hpc, Option.some.injEq] at h
    subst h
    refine stepped_past (hstay ?_ fun _ => rfl) (fun _ => .inl rfl) ?_ ?_
    · rw [hpc]
      split <;> rfl
    · split <;> rfl
    · rw [hpc]
      split <;> rfl
  | freeing call completed =>
    simp only [hpc, Option.some.injEq] at h
    subst h
    refine stepped_past (hstay (by rw [hpc]; rfl) (setBox_field BoxIpc.tokensLock (by rfl)))
      (fun b => ?_) rfl ?_
    · by_cases hb : b = owner t
      · exact .inr ⟨hb, by rw [hpc]; rfl⟩
      · exact .inl (by simp [Memory.setBox, hb])
    · rw [hpc]
      rfl
  | leaving call completed met =>
    simp only [hpc] at h
    cases met with
    | true =>
      simp only [if_true, Option.some.injEq] at h
      subst h
      refine @Stepped.of_eq owner st (st.goto t .idle _) t _
        (stepped_past (hexclusive.release (by rw [hpc]; rfl) rfl) (hlock _ _) rfl ?_) rfl rfl
      rw [hpc]
      rfl
    | false =>
      simp only [Bool.false_eq_true, if_false, Option.some.injEq] at h
      subst h
      refine stepped_past (hexclusive.release (by rw [hpc]; rfl) ?_) (hlock _ _) ?_ ?_
      · split <;> rfl
      · split <;> rfl
      · rw [hpc]
        split <;> rfl

/-- The token sets of a thread that has found a token are left alone by all
other threads of its box. -/
theorem Stepped.keeps_found (h : Stepped owner st st' t) (hexclusive : Exclusive owner st)
    (hfound : Found owner st) : Found owner st' := by
  intro u call token hu
  by_cases hut : u = t
  · subst hut
    exact h.found call token hu
  · rw [h.others u hut] at hu
    rcases h.tokens (owner u) with hsame | ⟨hbox, hcritical⟩
    · rw [hsame]
      exact hfound u call token hu
    · exact absurd (hexclusive.unique u t hbox (by rw [hu]; rfl) hcritical) hut

end Steps

/-! ## Runs -/

section Runs

variable {sys : Platform} {owner : ℕ → ℕ} {s s' : State} {st' : IpcTokens.State} {a : Action}

/-- What the record says, as long as a call can fail. -/
structure Recorded (owner : ℕ → ℕ) (s : State) : Prop where
  /-- Critical sections exclude each other. -/
  exclusive : Exclusive owner s.ipc
  /-- Tokens that have been found are free. -/
  found : Found owner s.ipc
  /-- A call has set the bit of its token and done nothing else. -/
  effects : ∀ t token, owed (s.ipc.pc t) = some token → s.effects t = ⟨token, [], false⟩
  /-- So had the calls that have failed. -/
  failures : ∀ f ∈ s.failures, f.effects = ⟨f.newToken, [], false⟩

theorem recorded_initial (h : Initial s) : Recorded owner s := by
  refine ⟨⟨fun t ht => ?_, fun t t' _ ht => ?_⟩, fun t call token ht => ?_, fun t token ht => ?_,
    fun f hf => ?_⟩
  · rw [h.pc] at ht
    cases ht
  · rw [h.pc] at ht
    cases ht
  · rw [h.pc] at ht
    cases ht
  · rw [h.pc] at ht
    cases ht
  · rw [h.failures] at hf
    cases hf

/-- A step outside the calls that leaves the allocated tokens and the locks of
tokens alone. -/
theorem Recorded.outside (h : Recorded owner s) (hpc : st'.pc = s.ipc.pc)
    (hlock : ∀ b, (st'.mem.box b).tokensLock = (s.ipc.mem.box b).tokensLock)
    (htokens : ∀ b, (st'.mem.box b).allocatedTokens = (s.ipc.mem.box b).allocatedTokens) :
    Recorded owner {s with ipc := st'} := by
  refine ⟨⟨fun t ht => ?_, fun t t' => ?_⟩, fun t call token ht => ?_, fun t token ht => ?_,
    h.failures⟩
  · rw [hpc] at ht
    rw [hlock]
    exact h.exclusive.locked t ht
  · rw [hpc]
    exact h.exclusive.unique t t'
  · rw [hpc] at ht
    rw [htokens]
    exact h.found t call token ht
  · rw [hpc] at ht
    exact h.effects t token ht

/-- A thread begins a call. -/
theorem Recorded.begin (h : Recorded owner s) {t : ℕ} {pc : Pc} (e : Effects)
    (hidle : s.ipc.pc t = .idle) (hcritical : critical pc = false)
    (howed : ∀ token, owed pc = some token → e = ⟨token, [], false⟩) :
    Recorded owner ⟨s.ipc.goto t pc s.ipc.mem, Function.update s.effects t e, s.failures⟩ := by
  refine ⟨h.exclusive.stay (by rw [hidle, hcritical]; rfl) fun _ => rfl, fun u call token hu => ?_,
    fun u token hu => ?_, h.failures⟩
  · by_cases hut : u = t
    · rw [hut, goto_pc_self] at hu
      rw [hu] at hcritical
      cases hcritical
    · rw [goto_pc_of_ne hut] at hu
      exact h.found u call token hu
  · dsimp only
    by_cases hut : u = t
    · subst hut
      rw [goto_pc_self] at hu
      rw [Function.update_self]
      exact howed token hu
    · rw [goto_pc_of_ne hut] at hu
      rw [Function.update_of_ne hut]
      exact h.effects u token hu

/-- A thread goes on with its call. -/
theorem Recorded.ran (h : Recorded owner s) {t : ℕ} (hstep : Stepped owner s.ipc st' t) :
    Recorded owner (s.ran (owner t) t st') := by
  have hfound := hstep.keeps_found h.exclusive h.found
  unfold State.ran
  split
  · rename_i hnone
    refine ⟨hstep.exclusive, hfound, fun u token hu => ?_, h.failures⟩
    by_cases hut : u = t
    · subst hut
      obtain ⟨call, -, hcall, -⟩ := hstep.effects token (.inl hu)
      rw [hnone] at hcall
      cases hcall
    · rw [hstep.others u hut] at hu
      exact h.effects u token hu
  · rename_i call hcall
    have heffects : ∀ token, owed (st'.pc t) = some token ∨
        errorReturn (s.ipc.pc t) (st'.pc t) = some token →
        (s.effects t).after (owner t) call s.ipc.mem st'.mem = ⟨token, [], false⟩ := by
      intro token ht
      obtain ⟨call', before, hcall', hbefore, hafter⟩ := hstep.effects token ht
      obtain rfl := Option.some.inj (hcall.symm.trans hcall')
      rw [h.effects t before hbefore]
      exact hafter
    dsimp only
    refine ⟨hstep.exclusive, hfound, fun u token hu => ?_, fun f hf => ?_⟩
    · dsimp only
      by_cases hut : u = t
      · subst hut
        rw [Function.update_self]
        exact heffects token (.inl hu)
      · rw [hstep.others u hut] at hu
        rw [Function.update_of_ne hut]
        exact h.effects u token hu
    · rcases List.mem_append.mp hf with hf | hf
      · obtain ⟨token, htoken, rfl⟩ := Option.map_eq_some_iff.mp (Option.mem_toList.mp hf)
        exact heffects token (.inr htoken)
      · exact h.failures f hf

theorem recorded_step (h : Recorded owner s) (hs : step sys owner s a = some s') :
    Recorded owner s' := by
  obtain ⟨st', hst', rfl⟩ := Option.map_eq_some_iff.mp hs
  cases a with
  | io t call =>
    simp only [IpcTokens.step] at hst'
    split at hst'
    · rename_i hidle
      cases hst'
      refine h.begin _ hidle rfl fun token ht => ?_
      cases ht
      rfl
    · cases hst'
  | wait t call =>
    simp only [IpcTokens.step] at hst'
    split at hst'
    · rename_i hidle
      cases hst'
      have howed : ∀ token, owed (.waiting call) = some token →
          s.effects t = ⟨token, [], false⟩ := by
        intro token ht
        cases ht
      have hbegun := h.begin (s.effects t) hidle rfl howed
      rwa [Function.update_eq_self] at hbegun
    · cases hst'
  | run t => exact h.ran (threadStep_stepped h.exclusive h.found hst')
  | pass box firstSlot =>
    simp only [IpcTokens.step, passStep] at hst'
    split at hst'
    · have hpass {out : DrainState} (hout : ipcDrainBody sys box ⟨s.ipc.mem, firstSlot⟩ = .next out ∨
          ipcDrainBody sys box ⟨s.ipc.mem, firstSlot⟩ = .stop out) :
          Recorded owner {s with ipc := s.ipc.passed out.mem} :=
        have hsame := sameBoxes_ipcDrainBody hout
        h.outside rfl hsame.tokensLock hsame.allocatedTokens
      split at hst'
      · rename_i out hout
        cases hst'
        exact hpass (.inl hout)
      · rename_i out hout
        cases hst'
        exact hpass (.inr hout)
      · cases hst'
    · cases hst'
  | describe address desc =>
    cases hst'
    exact h.outside rfl (fun _ => rfl) fun _ => rfl
  | write address value =>
    cases hst'
    exact h.outside rfl (fun _ => rfl) fun _ => rfl
  | lockPool box receives acquired =>
    cases hst'
    exact h.outside rfl (tokensLock_setQueue _ _ · _ _) (allocated_setQueue _ _ · _ _)

end Runs

/-! ## A box that has run out -/

/-- A call of thread 0 from any IPC state of its box. -/
def calling (ipc : BoxIpc) : State where
  ipc := {bootedState with mem := bootedState.mem.setBox 0 ipc}
  effects _ := ⟨0, [], false⟩
  failures := []

theorem calling_initial (ipc : BoxIpc) : Initial (calling ipc) := ⟨fun _ => rfl, rfl⟩

/-- A call that runs to its error return. -/
def failedCall (ipc : BoxIpc) (steps : ℕ) : Option State :=
  exec (step twoBoxes (· % 2)) (.io 0 firstSend :: List.replicate steps (.run 0)) (calling ipc)

theorem failedCall_reachable {ipc : BoxIpc} {steps : ℕ} {s : State}
    (h : failedCall ipc steps = some s) :
    Reachable Initial (step twoBoxes (· % 2)) (fun _ _ => True) s :=
  exec_reachable (.start (calling_initial ipc)) h

/-- Box 0 with all tokens allocated. -/
def noToken : BoxIpc := {bootedIpc 0 with allocatedTokens := 0xFFFFFFFF}

/-- Box 0 with a request in every slot of its send queue. -/
def noSlot : BoxIpc :=
  {bootedIpc 0 with
    sendQueue := (queueFresh ())^[ipcSlots] (bootedIpc 0).sendQueue
    allocatedTokens := 0xFFFF}

end Uvisor.IpcFailures
