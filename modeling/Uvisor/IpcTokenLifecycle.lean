import Uvisor.IpcTokenInvariant

/-!
# Every IPC token goes round its cycle

The invariant of the token system holds in every run of honest boxes. The
token of a request goes with it from the thread that posts it to the queue, to
the delivered requests and back to the free tokens, and every completion is
reported once.
-/

namespace Uvisor.IpcTokenLifecycle

open PoolQueue PoolInvariant PoolOperations Ipc IpcTermination IpcPasses IpcDelivery IpcTokens
  IpcTokenInvariant Execution

/-! ## One queue of a box -/

section Queues

variable {sys : Platform} {mem : Memory} {d : ℕ → BoxLists}

/-- The lists with another send or receive pool in one box. -/
def withLists (d : ℕ → BoxLists) (b : ℕ) (receives : Bool) (free l : List ℕ) : ℕ → BoxLists :=
  if receives = true then withRecv d b free l else withSend d b free l

theorem listOf_withLists (d : ℕ → BoxLists) (b : ℕ) (receives : Bool) (free l : List ℕ) (c : ℕ)
    (receives' : Bool) : listOf (withLists d b receives free l c) receives' =
      if c = b ∧ receives' = receives then l else listOf (d c) receives' := by
  cases receives <;> cases receives' <;> simp [withLists, listOf]

theorem freeOf_withLists (d : ℕ → BoxLists) (b : ℕ) (receives : Bool) (free l : List ℕ) (c : ℕ)
    (receives' : Bool) : freeOf (withLists d b receives free l c) receives' =
      if c = b ∧ receives' = receives then free else freeOf (d c) receives' := by
  cases receives <;> cases receives' <;> simp [withLists, freeOf]

theorem queueOf_setQueue (mem : Memory) (b : ℕ) (receives : Bool) (q : PoolQueues Unit) (c : ℕ)
    (receives' : Bool) : queueOf ((setQueue mem b receives q).box c) receives' =
      if c = b ∧ receives' = receives then q else queueOf (mem.box c) receives' := by
  cases receives <;> cases receives' <;> simp [setQueue, queueOf]

theorem Queued.represents (h : Queued sys mem d) {b : ℕ} (hb : b < sys.boxCount)
    (receives : Bool) : Represents (queueOf (mem.box b) receives) (freeOf (d b) receives)
      (fun _ => listOf (d b) receives) := by
  cases receives with
  | true => exact (h b hb).2
  | false => exact (h b hb).1

theorem Queued.setQueue (h : Queued sys mem d) (b : ℕ) (receives : Bool) {q : PoolQueues Unit}
    {free l : List ℕ} (hr : Represents q free (fun _ => l)) :
    Queued sys (setQueue mem b receives q) (withLists d b receives free l) := by
  cases receives with
  | true => exact h.setRecvQueue b hr
  | false => exact h.setSendQueue b hr

theorem onlyQueues_setQueue {b : ℕ} {receives : Bool} {q : PoolQueues Unit}
    (h : header q = header (queueOf (mem.box b) receives)) :
    OnlyQueues mem (setQueue mem b receives q) := by
  cases receives with
  | true => exact onlyQueues_setRecvQueue h
  | false => exact onlyQueues_setSendQueue h

/-- The walk over a queue finds its list. -/
theorem slots_eq (h : Queued sys mem d) {b : ℕ} (hb : b < sys.boxCount) (receives : Bool) :
    slots mem b receives = listOf (d b) receives :=
  Represents.queueSlots_eq (Queued.represents h hb receives) ()

theorem setQueue_self (mem : Memory) (b : ℕ) (receives : Bool) :
    setQueue mem b receives (queueOf (mem.box b) receives) = mem := by
  cases receives <;> simp [setQueue, queueOf, Memory.setRecvQueue, Memory.setSendQueue, Memory.setBox]

/-- Queues apart, a memory with the same bounds. -/
theorem OnlyQueues.num {mem' : Memory} (h : OnlyQueues mem mem') (b : ℕ) (receives : Bool) :
    (queueOf (mem'.box b) receives).pool.num = (queueOf (mem.box b) receives).pool.num := by
  cases receives with
  | true => exact num_of_header () (h.recvHeader b)
  | false => exact num_of_header () (h.sendHeader b)

theorem OnlyQueues.io {mem' : Memory} (h : OnlyQueues mem mem') (q : Request) :
    q.io mem' = q.io mem := by
  simp only [Request.io, h.sendIo, h.recvIo]

/-- Requests in the same order hold what they held. -/
theorem OnlyQueues.sameHeld {mem' : Memory} (h : OnlyQueues mem mem')
    (hslots : ∀ b < sys.boxCount, ∀ receives, slots mem' b receives = slots mem b receives) :
    SameHeld sys mem mem' where
  token address := by rw [h.desc]
  queue := hslots
  desc q _ _ := by rw [OnlyQueues.io h]

end Queues

/-! ## Steps of ipc_io -/

section Posting

variable {sys : Platform} {owner : ℕ → ℕ} {st st' : State} {t : ℕ} {d d' : ℕ → BoxLists}

/-- Threads keep their slots when the lists stay clear of them. -/
theorem Pools.of_lists (h : Pools sys owner st d) (hd' : Queued sys st'.mem d')
    (hio : ∀ q : Request, (q.io st'.mem).desc = (q.io st.mem).desc)
    (hnum : ∀ b receives, (queueOf (st'.mem.box b) receives).pool.num =
      (queueOf (st.mem.box b) receives).pool.num)
    (hslot : ∀ u x, slotOf (st'.pc u) = some x → slotOf (st.pc u) = some x)
    (hposting : ∀ u call slot, st'.pc u = .posting call slot → st.pc u = .posting call slot)
    (hclear : ∀ u receives slot, slotOf (st'.pc u) = some (receives, slot) →
      slot ∉ freeOf (d' (owner u)) receives ∧ slot ∉ listOf (d' (owner u)) receives) :
    Pools sys owner st' d' where
  queued := hd'
  held u receives slot hu := by
    obtain ⟨hfree, hlist⟩ := hclear u receives slot hu
    exact ⟨hnum (owner u) receives ▸ (h.held u receives slot (hslot u _ hu)).1, hfree,
      fun _ => hlist⟩
  distinct u v x ho hu hv := h.distinct u v x ho (hslot u x hu) (hslot v x hv)
  filled u call slot hu := by
    rw [hio]
    exact h.filled u call slot (hposting u call slot hu)

/-- A step that writes queues only keeps the token sets. -/
theorem sameTokens_of_onlyQueues {pc : Pc} {mem : Memory} (h : OnlyQueues st.mem mem) :
    SameTokens st (st.goto t pc mem) := ⟨h.allocatedTokens, h.completedTokens⟩

/-- A thread claims a slot for its request, or gives up. -/
theorem Invariant.claim (h : Invariant sys owner st) (howner : owner t < sys.boxCount)
    {call : IoCall} {token : ℕ} (hpc : st.pc t = .claiming call token) {out : ℕ × PoolQueues Unit}
    (hout : uvisorPoolAllocate (queueOf (st.mem.box (owner t)) call.receives) = some out) :
    Invariant sys owner (st.goto t
      (if out.2.pool.num ≤ out.1 then .idle else .naming call token out.1)
      (setQueue st.mem (owner t) call.receives out.2)) := by
  obtain ⟨d, hpools⟩ := h.pools
  obtain ⟨hlock, rfl⟩ := allocate_eq_some hout
  have hr := Queued.represents hpools.queued howner call.receives
  have honly : OnlyQueues st.mem (setQueue st.mem (owner t) call.receives
      (uvisorPoolTryAllocate (queueOf (st.mem.box (owner t)) call.receives)).2) :=
    onlyQueues_setQueue (by simp)
  cases hfree : freeOf (d (owner t)) call.receives with
  | nil =>
    rw [hfree] at hr
    have hnum := hr.num_lt
    have hge : (queueOf (st.mem.box (owner t)) call.receives).pool.num ≤ slotInvalid := by
      simp only [poolMaxValid, slotInvalid] at hnum ⊢
      omega
    rw [tryAllocate_nil hr hlock, if_pos hge, setQueue_self]
    exact h.goto (h.exclusive.stay (by rw [hpc]; rfl) fun _ => rfl)
      ((SameEntries.refl st.mem).sameHeld sys) ⟨fun _ => rfl, fun _ => rfl⟩
      (by rw [hpc]; intro c hc; cases hc) (by intro c hc; cases hc) (by intro c hc; cases hc)
      (by intro c hc; cases hc) (Or.inl rfl) ⟨d, hpools.goto (SameEntries.refl st.mem) rfl⟩
  | cons slot free =>
    rw [hfree] at hr
    obtain ⟨hslot, hr', hheld⟩ := tryAllocate_cons hr hlock
    have hd' := Queued.setQueue hpools.queued (owner t) call.receives hr'
    have hlists : ∀ c receives, listOf (withLists d (owner t) call.receives free
        (listOf (d (owner t)) call.receives) c) receives = listOf (d c) receives := by
      intro c receives
      rw [listOf_withLists]
      split_ifs with hc
      · rw [hc.1, hc.2]
      · rfl
    have hslots : ∀ b < sys.boxCount, ∀ receives, slots (setQueue st.mem (owner t) call.receives
        (uvisorPoolTryAllocate (queueOf (st.mem.box (owner t)) call.receives)).2) b receives =
          slots st.mem b receives := by
      intro b hb receives
      rw [slots_eq hd' hb, slots_eq hpools.queued hb, hlists]
    rw [hslot, if_neg (Nat.not_le.mpr hheld.1)]
    refine h.goto (h.exclusive.stay (by rw [hpc]; rfl) honly.tokensLock)
      (OnlyQueues.sameHeld honly hslots) (sameTokens_of_onlyQueues honly)
      (by rw [hpc]; intro c hc; cases hc) (by intro c hc; cases hc) (by intro c hc; cases hc)
      (by intro c hc; cases hc) (Or.inr (by rw [hpc]; rfl)) ⟨_, hd', ?_, ?_, ?_⟩
    · refine goto_cases (P := fun u pc => ∀ receives s, slotOf pc = some (receives, s) →
        Held (queueOf ((setQueue st.mem (owner t) call.receives _).box (owner u)) receives)
          (freeOf (withLists d (owner t) call.receives free _ (owner u)) receives)
          (fun _ => listOf (withLists d (owner t) call.receives free _ (owner u)) receives) s)
        _ ?_ ?_
      · intro receives s hs
        obtain ⟨rfl, rfl⟩ := Prod.mk.inj (Option.some.inj hs)
        rw [queueOf_setQueue, freeOf_withLists, hlists, if_pos ⟨rfl, rfl⟩, if_pos ⟨rfl, rfl⟩]
        exact hheld
      · intro u _ receives s hs
        obtain ⟨hlt, hnotfree, hnotlist⟩ := hpools.held u receives s hs
        refine ⟨(OnlyQueues.num honly (owner u) receives) ▸ hlt, ?_, fun _ => ?_⟩
        · rw [freeOf_withLists]
          split_ifs with hc
          · rw [hc.1, hc.2, hfree] at hnotfree
            exact fun hmem => hnotfree (List.mem_cons_of_mem _ hmem)
          · exact hnotfree
        · rw [hlists]
          exact hnotlist ()
    · -- The slots of other threads were not free.
      have hnew : ∀ v, v ≠ t → owner v = owner t →
          slotOf (st.pc v) ≠ some (call.receives, slot) := by
        intro v _ ho hv
        have hnotfree := (hpools.held v call.receives slot hv).2.1
        rw [ho, hfree] at hnotfree
        exact hnotfree (List.mem_cons_self ..)
      intro u v x ho hu hv
      by_cases hut : u = t
      · by_cases hvt : v = t
        · rw [hut, hvt]
        · subst hut
          rw [goto_pc_self] at hu
          rw [goto_pc_of_ne hvt, ← hu] at hv
          exact absurd hv (hnew v hvt ho.symm)
      · rw [goto_pc_of_ne hut] at hu
        by_cases hvt : v = t
        · subst hvt
          rw [goto_pc_self] at hv
          rw [← hv] at hu
          exact absurd hu (hnew u hut ho)
        · rw [goto_pc_of_ne hvt] at hv
          exact hpools.distinct u v x ho hu hv
    · refine goto_cases (P := fun u pc => ∀ call' s, pc = .posting call' s →
        (Request.io (setQueue st.mem (owner t) call.receives _)
          ⟨owner u, call'.receives, s⟩).desc = call'.desc) _ ?_ ?_
      · intro call' s hs
        cases hs
      · intro u _ call' s hs
        rw [OnlyQueues.io honly]
        exact hpools.filled u call' s hs

/-- A descriptor that no request uses may be written. -/
theorem holding_setDesc {address : ℕ} (h : Unused sys owner st address) (desc : Desc) (u : Holder) :
    holding sys owner {st with
      mem := {st.mem with desc := Function.update st.mem.desc address desc}} u =
        holding sys owner st u := by
  cases u with
  | thread u =>
    have hu := h (.thread u)
    simp only [holding] at hu ⊢
    cases hpc : st.pc u with
    | filling call slot =>
      have hne : call.desc ≠ address := fun he => by
        refine hu ⟨owner u, (st.mem.desc call.desc).token, some call.desc⟩ (by rw [hpc]; rfl) ?_
        rw [he]
      simp only [pcHolding, Function.update_of_ne hne]
    | posting call slot =>
      have hne : call.desc ≠ address := fun he => by
        refine hu ⟨owner u, (st.mem.desc call.desc).token, some call.desc⟩ (by rw [hpc]; rfl) ?_
        rw [he]
      simp only [pcHolding, Function.update_of_ne hne]
    | _ => rfl
  | queued q =>
    by_cases hq : q.box < sys.boxCount ∧ q.slot ∈ slots st.mem q.box q.receives
    · have hne : (q.io st.mem).desc ≠ address := fun he =>
        h (.queued q) _ (holding_queued hq) (by rw [he])
      have hdesc : Request.desc {st.mem with desc := Function.update st.mem.desc address desc} q =
          q.desc st.mem := Function.update_of_ne hne ..
      rw [holding_queued hq, ← hdesc]
      exact holding_queued hq
    · rw [holding_queued_eq_none hq]
      exact holding_queued_eq_none hq
  | delivered b a =>
    simp only [holding]
    split_ifs with hmem
    · have hne : a ≠ address := fun he =>
        h (.delivered b a) _ (holding_delivered hmem) (by rw [he])
      rw [Function.update_of_ne hne]
    · rfl

/-- A thread that keeps its slot. -/
theorem slotOf_goto {pc : Pc} (mem : Memory) (h : slotOf pc = slotOf (st.pc t)) (u : ℕ) :
    slotOf ((st.goto t pc mem).pc u) = slotOf (st.pc u) :=
  goto_cases (P := fun u pc => slotOf pc = slotOf (st.pc u)) mem h (fun _ _ => rfl) u

/-- A thread writes its token to the descriptor of its request. -/
theorem Invariant.name (h : Invariant sys owner st) {call : IoCall} {token slot : ℕ}
    (hpc : st.pc t = .naming call token slot) (hunused : Unused sys owner st call.desc) :
    Invariant sys owner (st.goto t (.filling call slot) (setToken st.mem call.desc token)) := by
  set mem' := setToken st.mem call.desc token
  have hsame : SameTokens st (st.goto t (.filling call slot) mem') := ⟨fun _ => rfl, fun _ => rfl⟩
  have hold : ∀ c, hand (st.pc t) ≠ .freed c := by
    rw [hpc]
    intro c hc
    cases hc
  have hnew : ∀ c, hand (.filling call slot) ≠ .freed c := by
    intro c hc
    cases hc
  have hbefore : holding sys owner st (.thread t) = some ⟨owner t, token, none⟩ := by
    simp only [holding, hpc, pcHolding]
  have hafter : holding sys owner (st.goto t (.filling call slot) mem') (.thread t) =
      some ⟨owner t, token, some call.desc⟩ := by
    simp only [holding, goto_pc_self, goto_mem, pcHolding, mem', setToken, Function.update_self]
  have hother : ∀ u, u ≠ .thread t →
      holding sys owner (st.goto t (.filling call slot) mem') u = holding sys owner st u := by
    intro u hu
    have hgoto : holding sys owner (({st with mem := mem'} : State).goto t (.filling call slot) mem')
        u = holding sys owner {st with mem := mem'} u :=
      holding_goto_of_ne ((SameEntries.refl mem').sameHeld sys) hu
    exact hgoto.trans (holding_setDesc hunused _ u)
  have hwas : ∀ u g, holding sys owner (st.goto t (.filling call slot) mem') u = some g →
      ∃ g₀, holding sys owner st u = some g₀ ∧ g₀.box = g.box ∧ g₀.token = g.token ∧
        (g₀.desc = g.desc ∨ u = .thread t ∧ g.desc = some call.desc) := by
    intro u g hg
    by_cases hu : u = .thread t
    · subst hu
      obtain rfl := Option.some.inj (hafter.symm.trans hg)
      exact ⟨_, hbefore, rfl, rfl, Or.inr ⟨rfl, rfl⟩⟩
    · rw [hother u hu] at hg
      exact ⟨g, hg, rfl, rfl, Or.inl rfl⟩
  obtain ⟨d, hpools⟩ := h.pools
  refine ⟨h.exclusive.stay (by rw [hpc]; rfl) fun _ => rfl, h.bits.goto hsame hold hnew ?_ ?_,
    ⟨?_, ?_, ?_, h.holders.nodup⟩, d, ?_⟩
  · intro c hc
    cases hc
  · intro c hc
    cases hc
  · intro u v g k hg hk hbox htoken
    obtain ⟨g₀, hg₀, hgbox, hgtoken, -⟩ := hwas u g hg
    obtain ⟨k₀, hk₀, hkbox, hktoken, -⟩ := hwas v k hk
    exact h.holders.token u v g₀ k₀ hg₀ hk₀ (by rw [hgbox, hkbox, hbox])
      (by rw [hgtoken, hktoken, htoken])
  · intro u v g k address hg hk hga hka
    obtain ⟨g₀, hg₀, -, -, hgdesc⟩ := hwas u g hg
    obtain ⟨k₀, hk₀, -, -, hkdesc⟩ := hwas v k hk
    rcases hgdesc with hgdesc | ⟨rfl, hgdesc⟩
    · rcases hkdesc with hkdesc | ⟨rfl, hkdesc⟩
      · exact h.holders.desc u v g₀ k₀ address hg₀ hk₀ (by rw [hgdesc, hga]) (by rw [hkdesc, hka])
      · refine absurd ?_ (hunused u g₀ hg₀)
        rw [hgdesc, hga, ← hka, hkdesc]
    · rcases hkdesc with hkdesc | ⟨rfl, -⟩
      · refine absurd ?_ (hunused v k₀ hk₀)
        rw [hkdesc, hka, ← hga, hgdesc]
      · rfl
  · intro u g hg
    obtain ⟨g₀, hg₀, hbox, htoken, -⟩ := hwas u g hg
    obtain ⟨hb, i, hi, hbit, hs⟩ := h.holders.status u g₀ hg₀
    rw [hbox] at hb hs
    exact ⟨hb, i, hi, htoken ▸ hbit, status_of_same hsame (inHand_goto mem' hold hnew) hs⟩
  · have hslot : ∀ u, slotOf ((st.goto t (.filling call slot) mem').pc u) = slotOf (st.pc u) :=
      slotOf_goto mem' (by rw [hpc]; rfl)
    refine Pools.of_lists hpools hpools.queued (fun _ => rfl) (fun _ _ => rfl)
      (fun u x hx => (hslot u).symm.trans hx) ?_ ?_
    · refine goto_cases (P := fun u pc => ∀ call' s, pc = .posting call' s →
        st.pc u = .posting call' s) mem' ?_ fun u _ call' s hs => hs
      intro call' s hs
      cases hs
    · intro u receives s hs
      obtain ⟨-, hfree, hlist⟩ := hpools.held u receives s ((hslot u).symm.trans hs)
      exact ⟨hfree, hlist ()⟩

/-- A write to an entry is seen by its request only. -/
theorem io_setIo (mem : Memory) (b : ℕ) (receives : Bool) (slot : ℕ) (io : Io) (q : Request) :
    q.io (setIo mem b receives slot io) = if q = ⟨b, receives, slot⟩ then io else q.io mem := by
  rcases q with ⟨c, receives', slot'⟩
  by_cases hc : c = b
  · subst hc
    cases receives <;> cases receives' <;>
      simp [Request.io, setIo, Memory.setBox, Function.update_apply]
  · cases receives <;> cases receives' <;> simp [Request.io, setIo, Memory.setBox, hc]

/-- A write to an entry leaves everything else in the boxes alone. -/
theorem setIo_field {β : Type} (f : BoxIpc → β) {mem : Memory} {b : ℕ} {receives : Bool}
    {slot : ℕ} {io : Io} (hsend : ∀ sendIo, f {mem.box b with sendIo := sendIo} = f (mem.box b))
    (hrecv : ∀ recvIo, f {mem.box b with recvIo := recvIo} = f (mem.box b)) (c : ℕ) :
    f ((setIo mem b receives slot io).box c) = f (mem.box c) := by
  unfold setIo
  split_ifs
  · exact setBox_field f (hrecv _) c
  · exact setBox_field f (hsend _) c

/-- A thread fills in its request. -/
theorem Invariant.fill (h : Invariant sys owner st) {call : IoCall} {slot : ℕ}
    (hpc : st.pc t = .filling call slot) (state : IoState) :
    Invariant sys owner (st.goto t (.posting call slot)
      (setIo st.mem (owner t) call.receives slot ⟨call.desc, call.msg, state⟩)) := by
  obtain ⟨d, hpools⟩ := h.pools
  set mem' := setIo st.mem (owner t) call.receives slot ⟨call.desc, call.msg, state⟩
  have hdesc : mem'.desc = st.mem.desc := by
    simp only [mem', setIo, Memory.setBox]
    split_ifs <;> rfl
  have hqueue : ∀ b receives, queueOf (mem'.box b) receives = queueOf (st.mem.box b) receives :=
    fun b receives => setIo_field (fun ipc => queueOf ipc receives) (fun _ => rfl) (fun _ => rfl) b
  have hheld := hpools.held t call.receives slot (by rw [hpc]; rfl)
  have hmem : SameHeld sys st.mem mem' := by
    refine ⟨fun address => by rw [hdesc], fun b _ receives => ?_, fun q hb hq => ?_⟩
    · simp only [slots, hqueue]
    · -- The slot of a thread is not in its queue.
      rw [io_setIo, if_neg]
      rintro rfl
      rw [slots_eq hpools.queued hb] at hq
      exact hheld.2.2 () hq
  refine h.goto (h.exclusive.stay (by rw [hpc]; rfl)
      (setIo_field BoxIpc.tokensLock (fun _ => rfl) fun _ => rfl)) hmem
    ⟨setIo_field BoxIpc.allocatedTokens (fun _ => rfl) fun _ => rfl,
      setIo_field BoxIpc.completedTokens (fun _ => rfl) fun _ => rfl⟩
    (by rw [hpc]; intro c hc; cases hc) (by intro c hc; cases hc) (by intro c hc; cases hc)
    (by intro c hc; cases hc) (Or.inr (by rw [hpc]; rfl)) ⟨d, fun b hb => ?_, ?_, ?_, ?_⟩
  · have hsend : (mem'.box b).sendQueue = (st.mem.box b).sendQueue := hqueue b false
    have hrecv : (mem'.box b).recvQueue = (st.mem.box b).recvQueue := hqueue b true
    rw [goto_mem, hsend, hrecv]
    exact hpools.queued b hb
  · intro u receives s hs
    rw [slotOf_goto mem' (by rw [hpc]; rfl)] at hs
    rw [goto_mem, hqueue]
    exact hpools.held u receives s hs
  · intro u v x ho hu hv
    rw [slotOf_goto mem' (by rw [hpc]; rfl)] at hu hv
    exact hpools.distinct u v x ho hu hv
  · refine goto_cases (P := fun u pc => ∀ call' s, pc = .posting call' s →
      (Request.io mem' ⟨owner u, call'.receives, s⟩).desc = call'.desc) mem' ?_ ?_
    · intro call' s hs
      obtain ⟨rfl, rfl⟩ := Pc.posting.inj hs
      rw [io_setIo, if_pos rfl]
    · intro u hu call' s hs
      rw [io_setIo, if_neg]
      · exact hpools.filled u call' s hs
      · -- Another thread has another slot.
        intro he
        obtain ⟨ho, hreceives, hslot⟩ := Request.mk.inj he
        refine hu (hpools.distinct u t (call.receives, slot) ho ?_ (by rw [hpc]; rfl))
        rw [hs, slotOf, hreceives, hslot]

/-- A thread puts its request into the queue. -/
theorem Invariant.post (h : Invariant sys owner st) (howner : owner t < sys.boxCount)
    {call : IoCall} {slot : ℕ} (hpc : st.pc t = .posting call slot) {queues : PoolQueues Unit}
    (hout : uvisorPoolQueueEnqueue (queueOf (st.mem.box (owner t)) call.receives) () slot =
      some queues) :
    Invariant sys owner (st.goto t .idle (setQueue st.mem (owner t) call.receives queues)) := by
  obtain ⟨d, hpools⟩ := h.pools
  have hheld := hpools.held t call.receives slot (by rw [hpc]; rfl)
  have hr := Queued.represents hpools.queued howner call.receives
  obtain ⟨hlock, rfl⟩ := enqueue_eq_some (hr.lt_reserved hheld.1).1 hout
  set q : Request := ⟨owner t, call.receives, slot⟩
  set mem' := setQueue st.mem (owner t) call.receives
    (uvisorPoolQueueTryEnqueue (queueOf (st.mem.box (owner t)) call.receives) () slot).2
  have honly : OnlyQueues st.mem mem' := onlyQueues_setQueue (by simp)
  have hr' := (tryEnqueue_held hr hlock () hheld).2
  rw [update_unit] at hr'
  have hd' := Queued.setQueue hpools.queued (owner t) call.receives hr'
  have hslots : ∀ p : Request, p.box < sys.boxCount → p.slot ∈ slots mem' p.box p.receives →
      p ≠ q ∧ p.slot ∈ slots st.mem p.box p.receives ∨ p = q := by
    intro p hb hp
    rw [slots_eq hd' hb, listOf_withLists] at hp
    rw [slots_eq hpools.queued hb]
    by_cases hpq : p = q
    · exact Or.inr hpq
    · refine Or.inl ⟨hpq, ?_⟩
      split_ifs at hp with hc
      · rw [hc.1, hc.2]
        refine (List.mem_append.mp hp).resolve_right fun hs => hpq ?_
        exact Request.ext hc.1 hc.2 (List.mem_singleton.mp hs)
      · exact hp
  have hsame : SameTokens st (st.goto t .idle mem') := sameTokens_of_onlyQueues honly
  have hold : ∀ c, hand (st.pc t) ≠ .freed c := by
    rw [hpc]
    intro c hc
    cases hc
  have hnew : ∀ c, hand .idle ≠ .freed c := by
    intro c hc
    cases hc
  have hthread : holding sys owner st (.thread t) =
      some ⟨owner t, (st.mem.desc call.desc).token, some call.desc⟩ := by
    simp only [holding, hpc, pcHolding]
  have hself : holding sys owner (st.goto t .idle mem') (.thread t) = none := by
    simp only [holding, goto_pc_self, pcHolding]
  refine ⟨h.exclusive.stay (by rw [hpc]; rfl) honly.tokensLock,
    h.bits.goto hsame hold hnew (by intro c hc; cases hc) (by intro c hc; cases hc),
    h.holders.of_moved (fun u v => u = .queued q ∧ v = .thread t ∨ u ≠ .queued q ∧ v = u)
      ?_ ?_ ?_ h.holders.nodup, _, Pools.of_lists hpools hd' ?_ ?_ ?_ ?_ ?_⟩
  · intro u g hg
    cases u with
    | thread u =>
      by_cases hu : u = t
      · subst hu
        rw [hself] at hg
        cases hg
      · refine ⟨.thread u, Or.inr ⟨by simp, rfl⟩, ?_⟩
        rw [← hg]
        simp only [holding, goto_mem, goto_pc_of_ne hu]
        exact (pcHolding_congr (fun a => by rw [honly.desc]) _ _).symm
    | queued p =>
      obtain ⟨⟨hb, hp⟩, rfl⟩ := holding_queued_eq_some hg
      have hdesc : p.desc mem' = p.desc st.mem := by
        rw [Request.desc, Request.desc, OnlyQueues.io honly, honly.desc]
      rcases hslots p hb hp with ⟨hne, hp⟩ | rfl
      · refine ⟨.queued p, Or.inr ⟨by simpa using hne, rfl⟩, ?_⟩
        rw [holding_queued ⟨hb, hp⟩, goto_mem, hdesc, OnlyQueues.io honly]
      · refine ⟨.thread t, Or.inl ⟨rfl, rfl⟩, ?_⟩
        have hfilled : (q.io st.mem).desc = call.desc := hpools.filled t call slot hpc
        rw [hthread, goto_mem, hdesc, OnlyQueues.io honly, Request.desc, hfilled]
    | delivered b a =>
      obtain ⟨hmem, rfl⟩ := holding_delivered_eq_some hg
      refine ⟨.delivered b a, Or.inr ⟨by simp, rfl⟩, ?_⟩
      rw [goto_mem, honly.desc]
      exact holding_delivered hmem
  · rintro u u' v g g' hg hg' (⟨rfl, rfl⟩ | ⟨-, rfl⟩) (⟨rfl, hv⟩ | ⟨-, hv⟩)
    · rfl
    · rw [← hv, hself] at hg'
      cases hg'
    · rw [hv, hself] at hg
      cases hg
    · exact hv
  · rintro u v g i hg (⟨rfl, rfl⟩ | ⟨-, rfl⟩) - hs
    · exact status_of_same hsame (inHand_goto mem' hold hnew) (u := .queued q) hs
    · exact status_of_same hsame (inHand_goto mem' hold hnew) hs
  · intro p
    rw [goto_mem, OnlyQueues.io honly]
  · exact OnlyQueues.num honly
  · refine goto_cases (P := fun u pc => ∀ x, slotOf pc = some x → slotOf (st.pc u) = some x)
      mem' ?_ fun u _ x hx => hx
    intro x hx
    cases hx
  · refine goto_cases (P := fun u pc => ∀ call' s, pc = .posting call' s →
      st.pc u = .posting call' s) mem' ?_ fun u _ call' s hs => hs
    intro call' s hs
    cases hs
  · refine goto_cases (P := fun u pc => ∀ receives s, slotOf pc = some (receives, s) →
      s ∉ freeOf (withLists d (owner t) call.receives _ _ (owner u)) receives ∧
        s ∉ listOf (withLists d (owner t) call.receives _ _ (owner u)) receives) mem' ?_ ?_
    · intro receives s hs
      cases hs
    · intro u hu receives s hs
      obtain ⟨-, hfree, hlist⟩ := hpools.held u receives s hs
      rw [freeOf_withLists, listOf_withLists]
      split_ifs with hc
      · rw [hc.1, hc.2] at hfree hlist
        refine ⟨hfree, fun hmem => ?_⟩
        -- The slot that is queued belongs to no other thread.
        rcases List.mem_append.mp hmem with hmem | hmem
        · exact hlist () hmem
        · refine hu (hpools.distinct u t (call.receives, slot) hc.1 ?_ (by rw [hpc]; rfl))
          rw [hs, hc.2, List.mem_singleton.mp hmem]
      · exact ⟨hfree, hlist ()⟩

end Posting

/-! ## Passes of the drain -/

section Passes

variable {sys : Platform} {owner : ℕ → ℕ} {st : State} {mem mem' : Memory} {d d' : ℕ → BoxLists}

/-- The requests of a box that a pass has delivered. They were in its queues
and have left them, and their tokens are complete. -/
structure DeliveredRequests (mem mem' : Memory) (b : ℕ) (qs : List Request) : Prop where
  /-- No request is delivered twice. -/
  nodup : qs.Nodup
  /-- The requests are those of the box. -/
  box : ∀ q ∈ qs, q.box = b
  /-- They were queued. -/
  before : ∀ q ∈ qs, q.slot ∈ slots mem b q.receives
  /-- They are not queued any more. -/
  after : ∀ q ∈ qs, q.slot ∉ slots mem' b q.receives
  /-- They are on record. -/
  record : deliveredNow mem mem' b = qs.map fun q => (q.io mem).desc
  /-- Their tokens become complete, and no others. -/
  completed : ∀ i, (mem'.box b).completedTokens.testBit i = true ↔
    (mem.box b).completedTokens.testBit i = true ∨
      ∃ q ∈ qs, (q.desc mem).token.testBit i = true

/-- What a pass does to tokens and requests. -/
structure PassEffect (sys : Platform) (mem mem' : Memory) : Prop where
  /-- The tokens of the descriptors are the same. -/
  token : ∀ address, (mem'.desc address).token = (mem.desc address).token
  /-- The requests are the same. -/
  io : ∀ q : Request, q.io mem' = q.io mem
  /-- The token locks are the same. -/
  tokensLock : ∀ b, (mem'.box b).tokensLock = (mem.box b).tokensLock
  /-- The allocated tokens are the same. -/
  allocatedTokens : ∀ b, (mem'.box b).allocatedTokens = (mem.box b).allocatedTokens
  /-- Nothing enters a queue. -/
  shrink : ∀ b < sys.boxCount, ∀ receives, ∀ s ∈ slots mem' b receives, s ∈ slots mem b receives
  /-- Some requests have been delivered. -/
  delivered : ∀ b < sys.boxCount, ∃ qs, DeliveredRequests mem mem' b qs

/-- Lists that shrink: nothing enters a queue, and only what was in a queue
becomes free. -/
structure Shrinks (d d' : ℕ → BoxLists) : Prop where
  /-- Nothing enters a queue. -/
  list : ∀ b receives, ∀ s ∈ listOf (d' b) receives, s ∈ listOf (d b) receives
  /-- What becomes free was queued. -/
  free : ∀ b receives, ∀ s ∈ freeOf (d' b) receives,
    s ∈ freeOf (d b) receives ∨ s ∈ listOf (d b) receives

/-- The slots freed in between are the queued ones that are free. -/
theorem freed_eq {m m' : PoolQueues Unit} {free l free' l' : List ℕ}
    (h : Represents m free (fun _ => l)) (h' : Represents m' free' (fun _ => l'))
    (hnum : m'.pool.num = m.pool.num) : freed m m' = l.filter fun s => s ∈ free' := by
  rw [freed, Represents.queueSlots_eq h ()]
  refine List.filter_congr fun s hs => ?_
  rw [decide_eq_decide]
  constructor
  · intro hstate
    by_contra hfree
    by_cases hl : s ∈ l'
    · exact (h'.queued_state (i := ()) hl).1 hstate
    · have hd := h'.held_state s (hnum ▸ h.lists_lt () s hs) hfree (fun _ => hl)
      rw [hd] at hstate
      cases hstate
  · exact h'.free_state s

/-- Queues with the same free slots have delivered nothing. -/
theorem filter_free_eq_nil {m : PoolQueues Unit} {free l : List ℕ}
    (h : Represents m free (fun _ => l)) : l.filter (fun s => s ∈ free) = [] := by
  rw [List.filter_eq_nil_iff]
  intro s hs
  simpa using h.free_disjoint () s hs

/-- A queue with one more free slot has delivered the request in it. -/
theorem filter_free_cons {m : PoolQueues Unit} {free l : List ℕ} {slot : ℕ}
    (h : Represents m free (fun _ => l)) (hslot : slot ∈ l) :
    l.filter (fun s => s ∈ slot :: free) = [slot] := by
  have hcongr : l.filter (fun s => s ∈ slot :: free) = l.filter (fun s => s = slot) := by
    refine List.filter_congr fun s hs => ?_
    have hfree := h.free_disjoint () s hs
    simp [hfree]
  rw [hcongr, List.filter_eq, List.count_eq_one_of_mem (h.nodup ()) hslot]
  rfl

/-- Lists whose queues have been permuted or cut, with the same free slots. -/
structure Moves (d d' : ℕ → BoxLists) : Prop where
  /-- The free slots are the same. -/
  free : ∀ b receives, freeOf (d' b) receives = freeOf (d b) receives
  /-- Nothing enters a queue. -/
  list : ∀ b receives, ∀ s ∈ listOf (d' b) receives, s ∈ listOf (d b) receives

theorem Moves.refl (d : ℕ → BoxLists) : Moves d d := ⟨fun _ _ => rfl, fun _ _ _ hs => hs⟩

theorem Moves.withSend (h : Moves d d') {b : ℕ} {l : List ℕ} (hl : ∀ s ∈ l, s ∈ (d b).send) :
    Moves d (withSend d' b (d b).sendFree l) := by
  constructor
  · intro c receives
    have hfree := h.free c receives
    cases receives with
    | true => simpa [freeOf] using hfree
    | false =>
      simp only [freeOf, Bool.false_eq_true, if_false, withSend_sendFree] at hfree ⊢
      split_ifs with hc
      · rw [hc]
      · exact hfree
  · intro c receives s hs
    have hlist := h.list c receives s
    cases receives with
    | true => exact hlist (by simpa [listOf] using hs)
    | false =>
      simp only [listOf, Bool.false_eq_true, if_false, withSend_send] at hs hlist ⊢
      split_ifs at hs with hc
      · exact hc ▸ hl s hs
      · exact hlist hs

theorem Moves.withRecv (h : Moves d d') {b : ℕ} {l : List ℕ} (hl : ∀ s ∈ l, s ∈ (d b).recv) :
    Moves d (withRecv d' b (d b).recvFree l) := by
  constructor
  · intro c receives
    have hfree := h.free c receives
    cases receives with
    | false => simpa [freeOf] using hfree
    | true =>
      simp only [freeOf, if_true, withRecv_recvFree] at hfree ⊢
      split_ifs with hc
      · rw [hc]
      · exact hfree
  · intro c receives s hs
    have hlist := h.list c receives s
    cases receives with
    | false => exact hlist (by simpa [listOf] using hs)
    | true =>
      simp only [listOf, if_true, withRecv_recv] at hs hlist ⊢
      split_ifs at hs with hc
      · exact hc ▸ hl s hs
      · exact hlist hs

/-- A pass that only moves requests delivers none. -/
theorem passEffect_of_onlyQueues (hd : Queued sys mem d) (hd' : Queued sys mem' d')
    (honly : OnlyQueues mem mem') (hmoves : Moves d d') :
    PassEffect sys mem mem' ∧ Shrinks d d' := by
  have hfree := hmoves.free
  have hlist := hmoves.list
  refine ⟨⟨fun a => by rw [honly.desc], OnlyQueues.io honly, honly.tokensLock,
    honly.allocatedTokens, fun b hb receives s hs => ?_, fun b hb => ⟨[], ?_⟩⟩,
    hlist, fun b receives s hs => Or.inl (hfree b receives ▸ hs)⟩
  · rw [slots_eq hd' hb] at hs
    rw [slots_eq hd hb]
    exact hlist b receives s hs
  · have hnone : ∀ receives, freed (queueOf (mem.box b) receives) (queueOf (mem'.box b) receives) =
        [] := by
      intro receives
      rw [freed_eq (Queued.represents hd hb receives) (Queued.represents hd' hb receives)
        (OnlyQueues.num honly b receives), hfree]
      exact filter_free_eq_nil (Queued.represents hd hb receives)
    have hsend := hnone false
    have hrecv := hnone true
    simp only [queueOf, if_true, Bool.false_eq_true, if_false] at hsend hrecv
    refine ⟨List.nodup_nil, by simp, by simp, by simp, ?_, fun i => ?_⟩
    · rw [deliveredNow, hsend, hrecv]
      rfl
    · rw [honly.completedTokens]
      simp

/-- The requests that a transfer delivers in a box; both in the same box when
a box sends to itself. -/
def pairOf (sendBox slot recvBox recvSlot b : ℕ) : List Request :=
  (if b = sendBox then [⟨sendBox, false, slot⟩] else []) ++
    if b = recvBox then [⟨recvBox, true, recvSlot⟩] else []

/-- A pass that transfers a message delivers its two requests. -/
theorem passEffect_of_transferred {sendBox slot recvBox recvSlot : ℕ} {rest : List ℕ}
    (hd : Queued sys mem d) (hd' : Queued sys mem' d') (hs : (d sendBox).send = slot :: rest)
    (hpair : Matched sys mem d sendBox slot recvBox recvSlot)
    (ht : Transferred mem d sendBox slot rest recvBox recvSlot mem' d') :
    PassEffect sys mem mem' ∧ Shrinks d d' := by
  have hlists := ht.lists
  have hsend : ∀ b, (d' b).send = if b = sendBox then rest else (d b).send := by simp [hlists]
  have hsendFree : ∀ b, (d' b).sendFree =
      if b = sendBox then slot :: (d b).sendFree else (d b).sendFree := by
    intro b
    rw [hlists, withRecv_sendFree, withSend_sendFree]
    split_ifs with hb
    · rw [hb]
    · rfl
  have hrecv : ∀ b, (d' b).recv =
      if b = recvBox then (d b).recv.erase recvSlot else (d b).recv := by
    intro b
    rw [hlists, withRecv_recv, withSend_recv]
    split_ifs with hb
    · rw [hb]
    · rfl
  have hrecvFree : ∀ b, (d' b).recvFree =
      if b = recvBox then recvSlot :: (d b).recvFree else (d b).recvFree := by
    intro b
    rw [hlists, withRecv_recvFree, withSend_recvFree]
    split_ifs with hb
    · rw [hb]
    · rfl
  have hshrink : Shrinks d d' := by
    constructor
    · intro b receives s hmem
      cases receives with
      | true =>
        simp only [listOf, if_true, hrecv] at hmem ⊢
        split_ifs at hmem with hb
        · exact List.mem_of_mem_erase hmem
        · exact hmem
      | false =>
        simp only [listOf, Bool.false_eq_true, if_false, hsend] at hmem ⊢
        split_ifs at hmem with hb
        · rw [hb, hs]
          exact List.mem_cons_of_mem _ hmem
        · exact hmem
    · intro b receives s hmem
      cases receives with
      | true =>
        simp only [freeOf, listOf, if_true, hrecvFree] at hmem ⊢
        split_ifs at hmem with hb
        · rcases List.mem_cons.mp hmem with rfl | hmem
          · exact Or.inr (hb ▸ hpair.mem_recv)
          · exact Or.inl hmem
        · exact Or.inl hmem
      | false =>
        simp only [freeOf, listOf, Bool.false_eq_true, if_false, hsendFree] at hmem ⊢
        split_ifs at hmem with hb
        · rcases List.mem_cons.mp hmem with rfl | hmem
          · exact Or.inr (by rw [hb, hs]; exact List.mem_cons_self ..)
          · exact Or.inl hmem
        · exact Or.inl hmem
  refine ⟨⟨fun a => ?_, fun q => ?_, ht.same.tokensLock, ht.same.allocatedTokens,
    fun b hb receives s hmem => ?_,
    fun b hb => ⟨pairOf sendBox slot recvBox recvSlot b, ?_⟩⟩, hshrink⟩
  · rw [ht.desc, Function.update_apply]
    split_ifs with ha
    · rw [ha]
    · rfl
  · simp only [Request.io, ht.same.sendIo, ht.same.recvIo]
  · rw [slots_eq hd' hb] at hmem
    rw [slots_eq hd hb]
    exact hshrink.list b receives s hmem
  · obtain ⟨hsendRep, hrecvRep⟩ := hd b hb
    obtain ⟨hsendRep', hrecvRep'⟩ := hd' b hb
    have hslots := fun receives => slots_eq hd hb receives
    have hslots' := fun receives => slots_eq hd' hb receives
    have hfreedSend : freed (mem.box b).sendQueue (mem'.box b).sendQueue =
        if b = sendBox then [slot] else [] := by
      rw [freed_eq hsendRep hsendRep' (num_of_header () (ht.same.sendHeader b)), hsendFree]
      split_ifs with hbs
      · exact filter_free_cons hsendRep (by rw [hbs, hs]; exact List.mem_cons_self ..)
      · exact filter_free_eq_nil hsendRep
    have hfreedRecv : freed (mem.box b).recvQueue (mem'.box b).recvQueue =
        if b = recvBox then [recvSlot] else [] := by
      rw [freed_eq hrecvRep hrecvRep' (num_of_header () (ht.same.recvHeader b)), hrecvFree]
      split_ifs with hbr
      · exact filter_free_cons hrecvRep (hbr ▸ hpair.mem_recv)
      · exact filter_free_eq_nil hrecvRep
    have hmem : ∀ q, q ∈ pairOf sendBox slot recvBox recvSlot b ↔
        b = sendBox ∧ q = ⟨sendBox, false, slot⟩ ∨ b = recvBox ∧ q = ⟨recvBox, true, recvSlot⟩ := by
      intro q
      rw [pairOf]
      split_ifs <;> simp_all
    refine ⟨?_, ?_, ?_, ?_, ?_, fun i => ?_⟩
    · rw [pairOf]
      split_ifs <;> simp
    · intro q hq
      rcases (hmem q).mp hq with ⟨rfl, rfl⟩ | ⟨rfl, rfl⟩
      · rfl
      · rfl
    · intro q hq
      rw [hslots]
      rcases (hmem q).mp hq with ⟨rfl, rfl⟩ | ⟨rfl, rfl⟩
      · simp [listOf, hs]
      · simpa [listOf] using hpair.mem_recv
    · intro q hq
      rw [hslots']
      rcases (hmem q).mp hq with ⟨rfl, rfl⟩ | ⟨rfl, rfl⟩
      · have hnodup := hsendRep.nodup ()
        rw [hs] at hnodup
        simpa [listOf, hsend] using (List.nodup_cons.mp hnodup).1
      · simpa [listOf, hrecv] using (hrecvRep.nodup ()).not_mem_erase
    · rw [deliveredNow, hfreedSend, hfreedRecv, pairOf, List.map_append]
      congr 1
      · split_ifs with hbs
        · simp [Request.io, hbs]
        · rfl
      · split_ifs with hbr
        · simp [Request.io, hbr]
        · rfl
    · rw [ht.completedTokens, Nat.testBit_or, Nat.testBit_or, Bool.or_eq_true, Bool.or_eq_true,
        or_assoc]
      refine or_congr_right ?_
      constructor
      · rintro (hbit | hbit)
        · split_ifs at hbit with hbs
          · exact ⟨_, (hmem _).mpr (Or.inl ⟨hbs, rfl⟩), hbit⟩
          · rw [Nat.zero_testBit] at hbit
            cases hbit
        · split_ifs at hbit with hbr
          · exact ⟨_, (hmem _).mpr (Or.inr ⟨hbr, rfl⟩), hbit⟩
          · rw [Nat.zero_testBit] at hbit
            cases hbit
      · rintro ⟨q, hq, hbit⟩
        rcases (hmem q).mp hq with ⟨hbs, rfl⟩ | ⟨hbr, rfl⟩
        · exact Or.inl (by rw [if_pos hbs]; exact hbit)
        · exact Or.inr (by rw [if_pos hbr]; exact hbit)

/-- Every pass of a drain over well-formed queues is such a step. -/
theorem ipcDrainBody_effect {sendBox : ℕ} (hb : sendBox < sys.boxCount) (hd : Queued sys mem d)
    {firstSlot : ℤ} {out : DrainState}
    (hout : ipcDrainBody sys sendBox ⟨mem, firstSlot⟩ = .next out ∨
      ipcDrainBody sys sendBox ⟨mem, firstSlot⟩ = .stop out) :
    ∃ d', Queued sys out.mem d' ∧ PassEffect sys mem out.mem ∧ Shrinks d d' ∧
      ∀ b receives, (queueOf (out.mem.box b) receives).pool.num =
        (queueOf (mem.box b) receives).pool.num := by
  obtain ⟨mem', d', hd', hiter⟩ := ipcDrainBody_iteration hb hd firstSlot
  have hmem' : out.mem = mem' := by
    rcases hout with hout | hout
    · rw [hout] at hiter
      cases hiter
      rfl
    · rw [hout] at hiter
      cases hiter <;> rfl
  rw [hmem']
  have hqueues : OnlyQueues mem mem' → Moves d d' →
      PassEffect sys mem mem' ∧ Shrinks d d' ∧ ∀ b receives,
        (queueOf (mem'.box b) receives).pool.num = (queueOf (mem.box b) receives).pool.num := by
    intro honly hmoves
    obtain ⟨heffect, hshrink⟩ := passEffect_of_onlyQueues hd hd' honly hmoves
    exact ⟨heffect, hshrink, OnlyQueues.num honly⟩
  refine ⟨d', hd', ?_⟩
  generalize ipcDrainBody sys sendBox ⟨mem, firstSlot⟩ = flow at hiter
  have hback : ∀ {slot : ℕ} {rest : List ℕ}, (d sendBox).send = slot :: rest →
      ∀ s ∈ rest ++ [slot], s ∈ (d sendBox).send := by
    intro slot rest head s hs
    rw [head]
    simpa [or_comm] using hs
  cases hiter with
  | idle why same lists =>
    exact hqueues (by rw [same]; exact OnlyQueues.refl mem) (by rw [lists]; exact Moves.refl d)
  | cameRound slot rest head seen only lists =>
    exact hqueues only (lists ▸ (Moves.refl d).withSend (hback head))
  | handled slot rest firstSlot' head unseen outcome first =>
    have hrest : ∀ s ∈ rest, s ∈ (d sendBox).send := by
      intro s hs
      rw [head]
      exact List.mem_cons_of_mem _ hs
    cases outcome with
    | dropped why only lists => exact hqueues only (lists ▸ (Moves.refl d).withSend hrest)
    | kept why only lists once =>
      exact hqueues only (lists ▸ (Moves.refl d).withSend (hback head))
    | lost recvBox recvSlot pair why only lists once =>
      refine hqueues only (lists ▸ ((Moves.refl d).withSend (hback head)).withRecv fun s hs => ?_)
      exact List.mem_of_mem_erase hs
    | blocked recvBox recvSlot pair why only lists once =>
      refine hqueues only (lists ▸ ((Moves.refl d).withSend (hback head)).withRecv fun s hs => ?_)
      rcases List.mem_append.mp hs with hs | hs
      · exact List.mem_of_mem_erase hs
      · rw [List.mem_singleton.mp hs]
        exact pair.mem_recv
    | delivered recvBox recvSlot pair done =>
      obtain ⟨heffect, hshrink⟩ := passEffect_of_transferred hd hd' head pair done
      refine ⟨heffect, hshrink, fun b receives => ?_⟩
      cases receives with
      | true => exact num_of_header () (done.same.recvHeader b)
      | false => exact num_of_header () (done.same.sendHeader b)

end Passes

end Uvisor.IpcTokenLifecycle
