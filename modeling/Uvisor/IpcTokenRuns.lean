import Uvisor.IpcTokenLifecycle

/-!
# Runs of the token system

Every step of honest boxes keeps the token invariant: calls and returns, the
token lock, the search for a token, the passes of the monitor and the writes
of the boxes. The tokens of outstanding requests are therefore distinct in
every run, and every completion is reported once.
-/

namespace Uvisor.IpcTokenRuns

open PoolQueue PoolInvariant PoolOperations Ipc IpcTermination IpcPasses IpcDelivery IpcTokens
  IpcTokenInvariant IpcTokenLifecycle Execution

/-! ## The pass of a drain -/

/-- Completions on record that carry no token with this bit. -/
theorem phase_completions_of_not {α : Type} {f : α → ℕ} {i : ℕ} {l : List α} {log : List Event}
    (h : ∀ x ∈ l, ¬(f x).testBit i = true) :
    phase i ((l.map fun x => .completed (f x)) ++ log) = phase i log := by
  induction l with
  | nil => rfl
  | cons x l ih =>
    rw [List.map_cons, List.cons_append, phase_completed_of_not (h x (List.mem_cons_self ..))]
    exact ih fun y hy => h y (List.mem_cons_of_mem _ hy)

/-- Completions on record of which one carries a busy token. -/
theorem phase_completions_of_busy {α : Type} {f : α → ℕ} {i : ℕ} {l : List α} {log : List Event}
    (hbusy : phase i log = some .busy) (hnodup : l.Nodup) {x : α} (hx : x ∈ l)
    (hbit : (f x).testBit i = true) (hone : ∀ y ∈ l, (f y).testBit i = true → y = x) :
    phase i ((l.map fun x => .completed (f x)) ++ log) = some .done := by
  induction l with
  | nil => cases hx
  | cons y l ih =>
    obtain ⟨hy, hnodup⟩ := List.nodup_cons.mp hnodup
    rw [List.map_cons, List.cons_append]
    by_cases hyx : y = x
    · subst hyx
      have hrest : phase i ((l.map fun x => .completed (f x)) ++ log) = some .busy := by
        rw [phase_completions_of_not, hbusy]
        intro z hz hzbit
        exact hy (hone z (List.mem_cons_of_mem _ hz) hzbit ▸ hz)
      simp [phase, hrest, Event.advance, hbit]
    · have hnot : ¬(f y).testBit i = true := fun h => hyx (hone y (List.mem_cons_self ..) h)
      rw [phase_completed_of_not hnot]
      exact ih hnodup ((List.mem_cons.mp hx).resolve_left (Ne.symm hyx))
        fun z hz => hone z (List.mem_cons_of_mem _ hz)

section Pass

variable {sys : Platform} {owner : ℕ → ℕ} {st : State} {mem' : Memory} {b i : ℕ}
  {qs : List Request} {q : Request}

/-- A delivered request was held by the queue, under a busy token. -/
theorem Holders.delivered_busy (h : Holders sys owner st) (hb : b < sys.boxCount)
    (hqs : DeliveredRequests st.mem mem' b qs) (hq : q ∈ qs) :
    holding sys owner st (.queued q) =
        some ⟨b, (q.desc st.mem).token, some (q.io st.mem).desc⟩ ∧
      ∃ j < 32, (q.desc st.mem).token = 2^j ∧ Allocated st b j ∧ ¬Completed st b j := by
  have hbox := hqs.box q hq
  have hheld : holding sys owner st (.queued q) =
      some ⟨b, (q.desc st.mem).token, some (q.io st.mem).desc⟩ := by
    rw [← hbox]
    refine holding_queued ⟨hbox.symm ▸ hb, ?_⟩
    rw [hbox]
    exact hqs.before q hq
  obtain ⟨-, j, hj, htoken, hs⟩ := h.status _ _ hheld
  exact ⟨hheld, j, hj, htoken, hs⟩

/-- Whoever has the token of a delivered request is that request. -/
theorem Holders.eq_delivered (h : Holders sys owner st) (hb : b < sys.boxCount)
    (hqs : DeliveredRequests st.mem mem' b qs) (hq : q ∈ qs)
    (hbit : (q.desc st.mem).token.testBit i = true) {v : Holder} {g : Holding}
    (hg : holding sys owner st v = some g) (hbox : g.box = b) (htoken : g.token = 2^i) :
    v = .queued q := by
  obtain ⟨hheld, j, -, hj, -⟩ := Holders.delivered_busy h hb hqs hq
  obtain rfl := (testBit_of_two_pow hj).mp hbit
  exact h.token v (.queued q) g _ hg hheld hbox (htoken.trans hj.symm)

/-- The history of a box after a pass. -/
theorem passed_log (hqs : DeliveredRequests st.mem mem' b qs) : (st.passed mem').log b =
    (qs.map fun q => .completed (q.desc st.mem).token) ++ st.log b := by
  simp only [State.passed, hqs.record, List.map_map]
  rfl

/-- The delivered requests of a box after a pass. -/
theorem passed_delivered (hqs : DeliveredRequests st.mem mem' b qs) :
    (st.passed mem').delivered b = (qs.map fun q => (q.io st.mem).desc) ++ st.delivered b := by
  simp only [State.passed, hqs.record]

/-- A pass completes busy tokens only. -/
theorem Bits.passed (howner : ∀ t, owner t < sys.boxCount) (h : Bits sys owner st)
    (hh : Holders sys owner st) (heffect : PassEffect sys st.mem mem') :
    Bits sys owner (st.passed mem') := by
  have ha : ∀ b i, Allocated (st.passed mem') b i ↔ Allocated st b i := by
    intro b i
    rw [Allocated, Allocated, State.passed, heffect.allocatedTokens]
  -- What a pass says about one token of a box.
  have hone : ∀ b < sys.boxCount, ∀ i,
      ((Completed (st.passed mem') b i ↔ Completed st b i) ∧
        phase i ((st.passed mem').log b) = phase i (st.log b)) ∨
      Allocated st b i ∧ ¬Completed st b i ∧ Completed (st.passed mem') b i ∧
        phase i ((st.passed mem').log b) = some .done := by
    intro b hb i
    obtain ⟨qs, hqs⟩ := heffect.delivered b hb
    rw [passed_log hqs]
    have hcompleted : Completed (st.passed mem') b i ↔
        Completed st b i ∨ ∃ q ∈ qs, (q.desc st.mem).token.testBit i = true := hqs.completed i
    by_cases hdel : ∃ q ∈ qs, (q.desc st.mem).token.testBit i = true
    · obtain ⟨q, hq, hbit⟩ := hdel
      obtain ⟨hheld, j, -, hj, hall, hnot⟩ := Holders.delivered_busy hh hb hqs hq
      obtain rfl := (testBit_of_two_pow hj).mp hbit
      refine Or.inr ⟨hall, hnot, hcompleted.mpr (Or.inr ⟨q, hq, hbit⟩), ?_⟩
      refine phase_completions_of_busy (h.busy b hb i hall hnot) hqs.nodup hq hbit ?_
      intro p hp hpbit
      exact (Holder.queued.inj (Holders.eq_delivered hh hb hqs hp hpbit hheld rfl hj)).symm
    · refine Or.inl ⟨by rw [hcompleted, or_iff_left hdel], phase_completions_of_not ?_⟩
      exact fun q hq hbit => hdel ⟨q, hq, hbit⟩
  constructor
  · intro b hb i hc
    rw [ha]
    rcases hone b hb i with ⟨hsame, -⟩ | ⟨hall, -⟩
    · exact h.subset b hb i (hsame.mp hc)
    · exact hall
  · intro b hb i hin
    rw [ha]
    exact h.inHand b hb i hin
  · intro t token htoken
    simpa only [ha] using h.found t token htoken
  · intro t completed hcompleted i hbit
    have hc := h.met t completed hcompleted i hbit
    rcases hone (owner t) (howner t) i with ⟨hsame, -⟩ | ⟨-, hnot, -⟩
    · exact hsame.mpr hc
    · exact absurd hc hnot
  · intro b hb i hall hin
    rw [ha] at hall
    rcases hone b hb i with ⟨-, hsame⟩ | ⟨hall', -⟩
    · rw [hsame]
      exact h.free b hb i hall hin
    · exact absurd hall' hall
  · intro b hb i hall hc
    rw [ha] at hall
    rcases hone b hb i with ⟨hsame, hphase⟩ | ⟨-, -, hc', -⟩
    · rw [hphase]
      exact h.busy b hb i hall (fun hold => hc (hsame.mpr hold))
    · exact absurd hc' hc
  · intro b hb i hdone
    rcases hone b hb i with ⟨hsame, hphase⟩ | ⟨-, -, -, hphase⟩
    · rw [hphase]
      exact h.done b hb i (hdone.imp_left hsame.mp)
    · exact hphase

/-- A pass hands the tokens of delivered requests on with their descriptors. -/
theorem Holders.passed (h : Holders sys owner st) (heffect : PassEffect sys st.mem mem') :
    Holders sys owner (st.passed mem') := by
  have hcompleted : ∀ b < sys.boxCount, ∀ i, Completed st b i → Completed (st.passed mem') b i := by
    intro b hb i hc
    obtain ⟨qs, hqs⟩ := heffect.delivered b hb
    exact (hqs.completed i).mpr (Or.inl hc)
  have ha : ∀ b i, Allocated (st.passed mem') b i ↔ Allocated st b i := by
    intro b i
    rw [Allocated, Allocated, State.passed, heffect.allocatedTokens]
  have hqueued : ∀ p g, holding sys owner (st.passed mem') (.queued p) = some g →
      p.slot ∈ slots mem' p.box p.receives ∧ holding sys owner st (.queued p) = some g := by
    intro p g hg
    obtain ⟨⟨hb, hp⟩, rfl⟩ := holding_queued_eq_some hg
    refine ⟨hp, ?_⟩
    rw [holding_queued ⟨hb, heffect.shrink p.box hb p.receives p.slot hp⟩]
    simp only [State.passed, Request.desc, heffect.io, heffect.token]
  choose qs hqs using heffect.delivered
  refine h.of_moved (fun u v => u = v ∨ ∃ (p : Request) (hb : p.box < sys.boxCount),
    p ∈ qs p.box hb ∧ u = .delivered p.box (p.io st.mem).desc ∧ v = .queued p) ?_ ?_ ?_ ?_
  · intro u g hg
    cases u with
    | thread u =>
      refine ⟨.thread u, Or.inl rfl, ?_⟩
      rw [← hg]
      exact (pcHolding_congr heffect.token _ _).symm
    | queued p => exact ⟨.queued p, Or.inl rfl, (hqueued p g hg).2⟩
    | delivered b a =>
      obtain ⟨⟨hb, hmem⟩, rfl⟩ := holding_delivered_eq_some hg
      rw [passed_delivered (hqs b hb)] at hmem
      have htoken : ((st.passed mem').mem.desc a).token = (st.mem.desc a).token :=
        heffect.token a
      rw [htoken]
      rcases List.mem_append.mp hmem with hmem | hmem
      · obtain ⟨p, hp, rfl⟩ := List.mem_map.mp hmem
        obtain rfl := (hqs b hb).box p hp
        exact ⟨.queued p, Or.inr ⟨p, hb, hp, rfl, rfl⟩, (Holders.delivered_busy h hb (hqs p.box hb) hp).1⟩
      · exact ⟨.delivered b a, Or.inl rfl, holding_delivered ⟨hb, hmem⟩⟩
  · rintro u u' v g g' hg hg' (rfl | ⟨p, hb, hp, rfl, rfl⟩) (rfl | ⟨p', hb', hp', rfl, hv⟩)
    · rfl
    · subst hv
      exact absurd (hqueued p' g hg).1 ((hqs p'.box hb').after p' hp')
    · exact absurd (hqueued p g' hg').1 ((hqs p.box hb).after p hp)
    · rw [Holder.queued.inj hv]
  · rintro u v g i hg (rfl | ⟨p, hb, hp, rfl, rfl⟩) htoken hs
    · -- A token that stays with its queue or thread is not delivered.
      have hbusy : ∀ w, holding sys owner st w = some g →
          (∀ p, w = .queued p → p.slot ∈ slots mem' p.box p.receives) →
          Allocated st g.box i ∧ ¬Completed st g.box i →
          Allocated (st.passed mem') g.box i ∧ ¬Completed (st.passed mem') g.box i := by
        rintro w hw hstay ⟨hall, hnot⟩
        obtain ⟨hb, -⟩ := h.status w g hw
        refine ⟨(ha _ i).mpr hall, fun hc => ?_⟩
        rcases ((hqs g.box hb).completed i).mp hc with hc | ⟨p, hp, hbit⟩
        · exact hnot hc
        · obtain rfl := Holders.eq_delivered h hb (hqs g.box hb) hp hbit hw rfl htoken
          have hafter := (hqs g.box hb).after p hp
          rw [← (hqs g.box hb).box p hp] at hafter
          exact hafter (hstay p rfl)
      cases u with
      | thread u =>
        refine hbusy (.thread u) ?_ (by intro p hp; cases hp) hs
        rw [← hg]
        exact (pcHolding_congr heffect.token _ _).symm
      | queued p =>
        obtain ⟨hmem, hold⟩ := hqueued p g hg
        exact hbusy (.queued p) hold (fun p' hp' => Holder.queued.inj hp' ▸ hmem) hs
      | delivered b a =>
        obtain ⟨⟨hb, -⟩, rfl⟩ := holding_delivered_eq_some hg
        exact hs.imp_left (hcompleted b hb i)
    · obtain ⟨-, rfl⟩ := holding_delivered_eq_some hg
      refine Or.inl (((hqs p.box hb).completed i).mpr (Or.inr ⟨p, hp, ?_⟩))
      have htoken' : (mem'.desc (p.io st.mem).desc).token = 2^i := htoken
      rw [heffect.token] at htoken'
      exact (testBit_of_two_pow htoken').mpr rfl
  · intro b hb
    rw [passed_delivered (hqs b hb)]
    refine List.Nodup.append ?_ (h.nodup b hb) ?_
    · refine (hqs b hb).nodup.map_on fun p hp p' hp' he => ?_
      exact Holder.queued.inj (h.desc _ _ _ _ _ (Holders.delivered_busy h hb (hqs b hb) hp).1
        (Holders.delivered_busy h hb (hqs b hb) hp').1 rfl (by rw [he]))
    · intro a ha' ha''
      obtain ⟨p, hp, rfl⟩ := List.mem_map.mp ha'
      have hold : holding sys owner st (.delivered b (p.io st.mem).desc) =
          some ⟨b, (p.desc st.mem).token, some (p.io st.mem).desc⟩ := holding_delivered ⟨hb, ha''⟩
      have he := h.desc _ _ _ _ _ (Holders.delivered_busy h hb (hqs b hb) hp).1 hold rfl rfl
      cases he

/-- A pass keeps the invariant. -/
theorem Invariant.passed (howner : ∀ t, owner t < sys.boxCount) (h : Invariant sys owner st)
    (hb : b < sys.boxCount) {firstSlot : ℤ} {out : DrainState}
    (hout : ipcDrainBody sys b ⟨st.mem, firstSlot⟩ = .next out ∨
      ipcDrainBody sys b ⟨st.mem, firstSlot⟩ = .stop out) :
    Invariant sys owner (st.passed out.mem) := by
  obtain ⟨d, hpools⟩ := h.pools
  obtain ⟨d', hd', heffect, hshrink, hnum⟩ := ipcDrainBody_effect hb hpools.queued hout
  refine ⟨⟨fun t ht => ?_, h.exclusive.unique⟩, Bits.passed howner h.bits h.holders heffect,
    Holders.passed h.holders heffect, d', ?_⟩
  · rw [State.passed, heffect.tokensLock]
    exact h.exclusive.locked t ht
  · refine Pools.of_lists hpools hd' (fun q => by rw [State.passed, heffect.io]) hnum
      (fun _ _ hx => hx) (fun _ _ _ hs => hs) fun t receives slot hs => ?_
    obtain ⟨-, hfree, hlist⟩ := hpools.held t receives slot hs
    exact ⟨fun hmem => (hshrink.free _ _ _ hmem).elim hfree (hlist ()),
      fun hmem => hlist () (hshrink.list _ _ _ hmem)⟩

end Pass

/-! ## Steps of the threads -/

section Threads

variable {sys : Platform} {owner : ℕ → ℕ} {st st' : State} {t : ℕ} {pc : Pc} {mem : Memory}

/-- A step of a thread that has no tokens in hand afterwards, gives up what it
holds or keeps it, and writes no more than the token lock. -/
theorem Invariant.move (h : Invariant sys owner st)
    (hexclusive : Exclusive owner (st.goto t pc mem)) (hmem : SameEntries st.mem mem)
    (hsame : SameTokens st (st.goto t pc mem)) (hold : hand (st.pc t) = .empty)
    (hnew : hand pc = .empty)
    (hpc : pcHolding (owner t) st.mem pc = none ∨
      pcHolding (owner t) st.mem pc = pcHolding (owner t) st.mem (st.pc t))
    (hslot : slotOf pc = none) : Invariant sys owner (st.goto t pc mem) := by
  obtain ⟨d, hpools⟩ := h.pools
  refine h.goto hexclusive (hmem.sameHeld sys) hsame ?_ ?_ ?_ ?_ hpc ⟨d, hpools.goto hmem hslot⟩
  · rw [hold]
    intro c hc
    cases hc
  all_goals
    rw [hnew]
    intro c hc
    cases hc

theorem sameEntries_setTokensLock (mem : Memory) (b : ℕ) (acquired : Bool) :
    SameEntries mem (mem.setTokensLock b acquired) := sameEntries_setBox rfl rfl rfl rfl

theorem sameTokens_setTokensLock (b : ℕ) (acquired : Bool) :
    SameTokens st (st.goto t pc (st.mem.setTokensLock b acquired)) :=
  ⟨setBox_field BoxIpc.allocatedTokens rfl, setBox_field BoxIpc.completedTokens rfl⟩

/-- A thread spins for the token lock until it is free. -/
theorem spinLock_eq_some {lock acquired : Bool} (h : uvisorSpinLock lock = some acquired) :
    lock = false ∧ acquired = true := by
  cases lock with
  | true => simp [uvisorSpinLock, uvisorSpinTrylock] at h
  | false =>
    refine ⟨rfl, ?_⟩
    simpa [uvisorSpinLock, uvisorSpinTrylock] using h.symm

/-- Calls begin outside the critical sections. -/
theorem Invariant.call (h : Invariant sys owner st) (hidle : st.pc t = .idle)
    (hcritical : critical pc = false) (hnew : hand pc = .empty)
    (hpc : pcHolding (owner t) st.mem pc = none) (hslot : slotOf pc = none) :
    Invariant sys owner (st.goto t pc st.mem) :=
  Invariant.move h (h.exclusive.stay (by rw [hidle, hcritical]; rfl) fun _ => rfl)
    (SameEntries.refl st.mem) ⟨fun _ => rfl, fun _ => rfl⟩ (by rw [hidle]; rfl) hnew (Or.inl hpc)
    hslot

/-- A thread enters a critical section. -/
theorem Invariant.enter (h : Invariant sys owner st)
    (hfree : (st.mem.box (owner t)).tokensLock = false) (hold : hand (st.pc t) = .empty)
    (hnew : hand pc = .empty) (hpc : pcHolding (owner t) st.mem pc = none)
    (hslot : slotOf pc = none) :
    Invariant sys owner (st.goto t pc (st.mem.setTokensLock (owner t) true)) :=
  Invariant.move h (h.exclusive.acquire hfree) (sameEntries_setTokensLock _ _ _)
    (sameTokens_setTokensLock _ _) hold hnew (Or.inl hpc) hslot

/-- A thread leaves its critical section with what it holds. -/
theorem Invariant.leave (h : Invariant sys owner st) (hin : critical (st.pc t) = true)
    (hout : critical pc = false) (hold : hand (st.pc t) = .empty) (hnew : hand pc = .empty)
    (hpc : pcHolding (owner t) st.mem pc = none ∨
      pcHolding (owner t) st.mem pc = pcHolding (owner t) st.mem (st.pc t))
    (hslot : slotOf pc = none) :
    Invariant sys owner (st.goto t pc (st.mem.setTokensLock (owner t) false)) :=
  Invariant.move h (h.exclusive.release hin hout) (sameEntries_setTokensLock _ _ _)
    (sameTokens_setTokensLock _ _) hold hnew hpc hslot

/-- A thread finds a free token, or none. -/
theorem Invariant.scan (h : Invariant sys owner st) {call : IoCall}
    (hpc : st.pc t = .scanning call) : Invariant sys owner (st.goto t
      (.marking call (freeToken (st.mem.box (owner t)).allocatedTokens)) st.mem) := by
  obtain ⟨d, hpools⟩ := h.pools
  refine h.goto (h.exclusive.stay (by rw [hpc]; rfl) fun _ => rfl)
    ((SameEntries.refl st.mem).sameHeld sys) ⟨fun _ => rfl, fun _ => rfl⟩
    (by rw [hpc]; intro c hc; cases hc) (by intro c hc; cases hc) ?_ (by intro c hc; cases hc)
    (Or.inl rfl) ⟨d, hpools.goto (SameEntries.refl st.mem) rfl⟩
  intro token htoken
  obtain rfl := Hand.found.inj htoken
  refine (freeToken_spec _).imp_right fun ⟨i, hi, htoken, hfree⟩ => ⟨i, hi, htoken, ?_⟩
  rw [Allocated, hfree]
  simp

/-- A wait looks at the completed tokens. -/
theorem Invariant.read (h : Invariant sys owner st) {call : WaitCall}
    (hpc : st.pc t = .reading call) {completed : ℕ}
    (hcompleted : completed = (st.mem.box (owner t)).completedTokens &&& call.waitTokens) :
    Invariant sys owner (st.goto t
      (if call.cond completed = true then .freeing call completed
        else .leaving call completed false) st.mem) := by
  obtain ⟨d, hpools⟩ := h.pools
  have hstay : ∀ pc, critical pc = true → Exclusive owner (st.goto t pc st.mem) := fun pc hc =>
    h.exclusive.stay (by rw [hpc, hc]; rfl) fun _ => rfl
  split_ifs
  · refine h.goto (hstay _ rfl) ((SameEntries.refl st.mem).sameHeld sys)
      ⟨fun _ => rfl, fun _ => rfl⟩ (by rw [hpc]; intro c hc; cases hc) (by intro c hc; cases hc)
      (by intro c hc; cases hc) ?_ (Or.inl rfl) ⟨d, hpools.goto (SameEntries.refl st.mem) rfl⟩
    intro c hc i hbit
    obtain rfl := Hand.met.inj hc
    rw [hcompleted, Nat.testBit_and, Bool.and_eq_true] at hbit
    exact hbit.1
  · exact Invariant.move h (hstay _ rfl) (SameEntries.refl st.mem) ⟨fun _ => rfl, fun _ => rfl⟩
      (by rw [hpc]; rfl) rfl (Or.inl rfl) rfl

/-- Every step of a thread keeps the invariant. -/
theorem Invariant.run (h : Invariant sys owner st) (howner : owner t < sys.boxCount)
    (hproper : ∀ call token slot, st.pc t = .naming call token slot →
      Unused sys owner st call.desc)
    (hstep : threadStep (owner t) st t = some st') : Invariant sys owner st' := by
  unfold threadStep at hstep
  cases hpc : st.pc t with
  | idle => simp [hpc] at hstep
  | allocating call =>
    simp only [hpc, Option.map_eq_some_iff] at hstep
    obtain ⟨lock, hlock, rfl⟩ := hstep
    obtain ⟨hfree, rfl⟩ := spinLock_eq_some hlock
    exact Invariant.enter h hfree (by rw [hpc]; rfl) rfl rfl rfl
  | scanning call =>
    simp only [hpc, Option.some.injEq] at hstep
    exact hstep ▸ Invariant.scan h hpc
  | marking call token =>
    simp only [hpc, Option.some.injEq] at hstep
    exact hstep ▸ h.mark howner hpc
  | marked call token =>
    simp only [hpc, Option.some.injEq] at hstep
    subst hstep
    by_cases h0 : token = 0
    · rw [if_pos h0]
      exact Invariant.leave h (by rw [hpc]; rfl) rfl (by rw [hpc]; rfl) rfl (Or.inl rfl) rfl
    · rw [if_neg h0]
      refine Invariant.leave h (by rw [hpc]; rfl) rfl (by rw [hpc]; rfl) rfl (Or.inr ?_) rfl
      rw [hpc, pcHolding, pcHolding, if_neg h0]
  | claiming call token =>
    simp only [hpc, Option.map_eq_some_iff] at hstep
    obtain ⟨out, hout, rfl⟩ := hstep
    exact Invariant.claim h howner hpc hout
  | naming call token slot =>
    simp only [hpc, Option.some.injEq] at hstep
    exact hstep ▸ Invariant.name h hpc (hproper call token slot hpc)
  | filling call slot =>
    simp only [hpc, Option.some.injEq] at hstep
    exact hstep ▸ Invariant.fill h hpc _
  | posting call slot =>
    simp only [hpc, Option.map_eq_some_iff] at hstep
    obtain ⟨queues, hout, rfl⟩ := hstep
    exact Invariant.post h howner hpc hout
  | waiting call =>
    simp only [hpc, Option.map_eq_some_iff] at hstep
    obtain ⟨lock, hlock, rfl⟩ := hstep
    obtain ⟨hfree, rfl⟩ := spinLock_eq_some hlock
    exact Invariant.enter h hfree (by rw [hpc]; rfl) rfl rfl rfl
  | reading call =>
    simp only [hpc, Option.some.injEq] at hstep
    exact hstep ▸ Invariant.read h hpc rfl
  | freeing call completed =>
    simp only [hpc, Option.some.injEq] at hstep
    exact hstep ▸ h.free howner hpc
  | leaving call completed met =>
    simp only [hpc] at hstep
    cases met with
    | true =>
      simp only [if_true, Option.some.injEq] at hstep
      exact hstep ▸ h.report howner hpc
    | false =>
      simp only [Bool.false_eq_true, if_false, Option.some.injEq] at hstep
      subst hstep
      split_ifs
      · exact Invariant.leave h (by rw [hpc]; rfl) rfl (by rw [hpc]; rfl) rfl (Or.inl rfl) rfl
      · exact Invariant.leave h (by rw [hpc]; rfl) rfl (by rw [hpc]; rfl) rfl (Or.inl rfl) rfl

end Threads

/-! ## Writes of the boxes -/

section Writes

variable {sys : Platform} {owner : ℕ → ℕ} {st : State} {mem' : Memory}

/-- A write outside the requests and token sets, by anyone. -/
theorem Invariant.outside (h : Invariant sys owner st) (hboxes : SameBoxes st.mem mem')
    (hcompleted : ∀ b, (mem'.box b).completedTokens = (st.mem.box b).completedTokens)
    (hqueued : ∀ d, Queued sys st.mem d → Queued sys mem' d)
    (hless : ∀ u g, holding sys owner {st with mem := mem'} u = some g →
      holding sys owner st u = some g) : Invariant sys owner {st with mem := mem'} := by
  have hsame : SameTokens st {st with mem := mem'} := ⟨hboxes.allocatedTokens, hcompleted⟩
  obtain ⟨d, hpools⟩ := h.pools
  refine ⟨⟨fun t ht => ?_, h.exclusive.unique⟩, ?_, ?_, d, ?_⟩
  · rw [hboxes.tokensLock]
    exact h.exclusive.locked t ht
  · exact h.bits.of_same hsame rfl (fun _ _ => Iff.rfl) h.bits.found h.bits.met
  · exact h.holders.of_less hless
      (fun u g i _ _ => status_of_same hsame fun _ _ => Iff.rfl) h.holders.nodup
  · refine Pools.of_lists hpools (hqueued d hpools.queued) (fun q => ?_) (fun b receives => ?_)
      (fun _ _ hx => hx) (fun _ _ _ hs => hs) fun t receives slot hs => ?_
    · simp only [Request.io, hboxes.sendIo, hboxes.recvIo]
    · cases receives with
      | true => exact num_of_header () (hboxes.recvHeader b)
      | false => exact num_of_header () (hboxes.sendHeader b)
    · obtain ⟨-, hfree, hlist⟩ := hpools.held t receives slot hs
      exact ⟨hfree, hlist ()⟩

/-- A write outside the boxes leaves them the same. -/
theorem sameBoxes_of_box {mem : Memory} (h : mem'.box = mem.box) : SameBoxes mem mem' := by
  constructor <;> intro b <;> rw [h]

/-- A box writes a descriptor without replacing the token of a request. -/
theorem Invariant.describe (h : Invariant sys owner st) {address : ℕ} {desc : Desc}
    (hproper : desc.token = (st.mem.desc address).token ∨ Unused sys owner st address) :
    Invariant sys owner {st with
      mem := {st.mem with desc := Function.update st.mem.desc address desc}} := by
  refine Invariant.outside h (sameBoxes_of_box rfl) (fun _ => rfl) (fun _ hd => hd)
    fun u g hg => ?_
  rcases hproper with htoken | hunused
  · have hsame : ∀ a, (Function.update st.mem.desc address desc a).token =
        (st.mem.desc a).token := by
      intro a
      rw [Function.update_apply]
      split_ifs with ha
      · rw [htoken, ha]
      · rfl
    cases u with
    | thread u =>
      rw [← hg]
      exact (pcHolding_congr hsame _ _).symm
    | queued q =>
      obtain ⟨hq, rfl⟩ := holding_queued_eq_some hg
      have hq' : q.box < sys.boxCount ∧ q.slot ∈ slots st.mem q.box q.receives := hq
      rw [holding_queued hq']
      exact congrArg (fun token => some (Holding.mk q.box token (some (q.io st.mem).desc)))
        (hsame _).symm
    | delivered b a =>
      obtain ⟨hmem, rfl⟩ := holding_delivered_eq_some hg
      have hmem' : b < sys.boxCount ∧ a ∈ st.delivered b := hmem
      rw [holding_delivered hmem']
      exact congrArg (fun token => some (Holding.mk b token (some a))) (hsame a).symm
  · rw [← hg]
    exact (holding_setDesc hunused desc u).symm

/-- The lock of a pool belongs to no request. -/
theorem Invariant.lockPool (h : Invariant sys owner st) (b : ℕ) (receives acquired : Bool) :
    Invariant sys owner {st with
      mem := setQueue st.mem b receives
        ((queueOf (st.mem.box b) receives).setLock acquired)} := by
  set queues := (queueOf (st.mem.box b) receives).setLock acquired
  have honly : OnlyQueues st.mem (setQueue st.mem b receives queues) := onlyQueues_setQueue rfl
  have hqueued : ∀ d, Queued sys st.mem d → Queued sys (setQueue st.mem b receives queues) d := by
    intro d hd
    have hside : ∀ c < sys.boxCount, ∀ receives',
        Represents (queueOf ((setQueue st.mem b receives queues).box c) receives')
          (freeOf (d c) receives') (fun _ => listOf (d c) receives') := by
      intro c hc receives'
      rw [queueOf_setQueue]
      split_ifs with he
      · obtain ⟨rfl, rfl⟩ := he
        exact (Queued.represents hd hc receives').setLock acquired
      · exact Queued.represents hd hc receives'
    exact fun c hc => ⟨hside c hc false, hside c hc true⟩
  obtain ⟨d, hpools⟩ := h.pools
  refine Invariant.outside h honly.toSameBoxes honly.completedTokens hqueued fun u g hg => ?_
  have hslots : ∀ c < sys.boxCount, ∀ receives', slots (setQueue st.mem b receives queues) c
      receives' = slots st.mem c receives' := by
    intro c hc receives'
    rw [slots_eq (hqueued d hpools.queued) hc, slots_eq hpools.queued hc]
  cases u with
  | thread u =>
    rw [← hg]
    exact (pcHolding_congr (fun a => by rw [honly.desc]) _ _).symm
  | queued q =>
    obtain ⟨⟨hb, hq⟩, rfl⟩ := holding_queued_eq_some hg
    rw [hslots q.box hb] at hq
    rw [holding_queued ⟨hb, hq⟩, Request.desc, Request.desc, OnlyQueues.io honly, honly.desc]
  | delivered c a =>
    obtain ⟨hmem, rfl⟩ := holding_delivered_eq_some hg
    have hmem' : c < sys.boxCount ∧ a ∈ st.delivered c := hmem
    rw [holding_delivered hmem', honly.desc]

end Writes

/-! ## Every run -/

section Runs

variable {sys : Platform} {owner : ℕ → ℕ} {st st' : State}

/-- Freshly initialized boxes hold no tokens. -/
theorem invariant_initial (h : Initial sys st) : Invariant sys owner st := by
  have hbox : ∀ b < sys.boxCount, DescribesBox (st.mem.box b) initialLists ∧
      (st.mem.box b).allocatedTokens = 0 ∧ (st.mem.box b).completedTokens = 0 := by
    intro b hb
    obtain ⟨ipc, hinit⟩ := h.box b hb
    refine ⟨ipcBoxInit_describes hinit, ?_⟩
    have hipc := Option.some.inj hinit
    exact ⟨by rw [← hipc], by rw [← hipc]⟩
  have hnoHand : ∀ t, hand (st.pc t) = .empty := fun t => by rw [h.pc]; rfl
  have hqueued : Queued sys st.mem fun _ => initialLists := fun b hb =>
    ⟨(hbox b hb).1.send, (hbox b hb).1.recv⟩
  have hnone : ∀ u, holding sys owner st u = none := by
    intro u
    cases u with
    | thread u => simp only [holding, h.pc, pcHolding]
    | queued q =>
      refine holding_queued_eq_none ?_
      rintro ⟨hb, hq⟩
      rw [slots_eq hqueued hb] at hq
      simp only [listOf, initialLists, ite_self, List.not_mem_nil] at hq
    | delivered b a => simp only [holding, h.delivered, List.not_mem_nil, and_false, if_false]
  have hfree : ∀ b < sys.boxCount, ∀ i, ¬Allocated st b i ∧ ¬Completed st b i := by
    intro b hb i
    obtain ⟨-, hallocated, hcompleted⟩ := hbox b hb
    simp [Allocated, Completed, hallocated, hcompleted]
  refine ⟨⟨?_, ?_⟩, ⟨?_, ?_, ?_, ?_, ?_, ?_, ?_⟩, ⟨?_, ?_, ?_, ?_⟩, _, hqueued, ?_, ?_, ?_⟩
  · intro t ht
    rw [h.pc] at ht
    cases ht
  · intro t t' _ ht
    rw [h.pc] at ht
    cases ht
  · intro b hb i hc
    exact absurd hc (hfree b hb i).2
  · intro b hb i _
    exact (hfree b hb i).1
  · intro t token ht
    rw [hnoHand] at ht
    cases ht
  · intro t completed ht
    rw [hnoHand] at ht
    cases ht
  · intro b _ i _ _
    rw [h.log]
    rfl
  · intro b hb i hall
    exact absurd hall (hfree b hb i).1
  · rintro b hb i (hc | ⟨t, c, -, ht, -⟩)
    · exact absurd hc (hfree b hb i).2
    · rw [hnoHand] at ht
      cases ht
  · intro u v g k hg
    rw [hnone] at hg
    cases hg
  · intro u v g k a hg
    rw [hnone] at hg
    cases hg
  · intro u g hg
    rw [hnone] at hg
    cases hg
  · intro b _
    rw [h.delivered]
    exact List.nodup_nil
  · intro t receives slot ht
    rw [h.pc] at ht
    cases ht
  · intro t t' x _ ht
    rw [h.pc] at ht
    cases ht
  · intro t call slot ht
    rw [h.pc] at ht
    cases ht

/-- Every step of honest boxes keeps the invariant. -/
theorem invariant_step (howner : ∀ t, owner t < sys.boxCount) (h : Invariant sys owner st)
    {action : Action} (hproper : Proper sys owner st action)
    (hstep : step sys owner st action = some st') : Invariant sys owner st' := by
  cases action with
  | io t call =>
    simp only [step] at hstep
    cases hpc : st.pc t <;> simp only [hpc, Option.some.injEq, reduceCtorEq] at hstep
    exact hstep ▸ Invariant.call h hpc rfl rfl rfl rfl
  | wait t call =>
    simp only [step] at hstep
    cases hpc : st.pc t <;> simp only [hpc, Option.some.injEq, reduceCtorEq] at hstep
    exact hstep ▸ Invariant.call h hpc rfl rfl rfl rfl
  | run t => exact Invariant.run h (howner t) hproper hstep
  | pass b firstSlot =>
    simp only [step, passStep] at hstep
    split_ifs at hstep with hb
    cases hbody : ipcDrainBody sys b ⟨st.mem, firstSlot⟩ with
    | next out =>
      rw [hbody] at hstep
      exact Option.some.inj hstep ▸ Invariant.passed howner h hb (Or.inl hbody)
    | stop out =>
      rw [hbody] at hstep
      exact Option.some.inj hstep ▸ Invariant.passed howner h hb (Or.inr hbody)
    | hang =>
      rw [hbody] at hstep
      cases hstep
  | describe address desc => exact Option.some.inj hstep ▸ Invariant.describe h hproper
  | write address value =>
    obtain rfl := Option.some.inj hstep
    refine Invariant.outside h (sameBoxes_of_box rfl) (fun _ => rfl) (fun _ hd => hd)
      fun u g hg => ?_
    cases u <;> exact hg
  | lockPool b receives acquired =>
    exact Option.some.inj hstep ▸ Invariant.lockPool h b receives acquired

/-- The invariant holds in every run of honest boxes. -/
theorem invariant_reachable (howner : ∀ t, owner t < sys.boxCount)
    (h : Reachable (Initial sys) (step sys owner) (Proper sys owner) st) :
    Invariant sys owner st :=
  Reachable.invariant (Invariant sys owner) (fun _ => invariant_initial)
    (fun _ _ _ hi hp hs => invariant_step howner hi hp hs) h

end Runs

/-! ## Outstanding requests and histories -/

/-- Descriptors of the outstanding requests of a box: the queued ones, and the
delivered ones that no wait has returned. -/
def outstanding (st : State) (b : ℕ) : List ℕ :=
  (slots st.mem b false).map (fun slot => (Request.io st.mem ⟨b, false, slot⟩).desc) ++
    (slots st.mem b true).map (fun slot => (Request.io st.mem ⟨b, true, slot⟩).desc) ++
      st.delivered b

/-- Tokens of the outstanding requests of a box. -/
def outstandingTokens (st : State) (b : ℕ) : List ℕ :=
  (outstanding st b).map fun address => (st.mem.desc address).token

/-- The tokens of a box are in order, and so is their history. -/
structure InCycle (owner : ℕ → ℕ) (st : State) (b : ℕ) : Prop where
  /-- Outstanding requests hold different tokens. -/
  distinct : (outstandingTokens st b).Nodup
  /-- Each of their tokens is one bit. -/
  one_bit : ∀ token ∈ outstandingTokens st b, ∃ i < 32, token = 2^i
  /-- Complete tokens are allocated. -/
  subset : ∀ i, Completed st b i → Allocated st b i
  /-- A token that is allocated again has been reported in between. -/
  reported_between : ∀ i later middle earlier token token',
    st.log b = later ++ .allocated token' :: (middle ++ .allocated token :: earlier) →
    token.testBit i = true → token'.testBit i = true →
    ∃ event ∈ middle, Event.reports i event = true
  /-- Each token goes round its cycle, and there are as many reports as
  completions, unless the last completion is still to be reported. -/
  cycle : ∀ i, ∃ p, phase i (st.log b) = some p ∧
    (p = .done ↔ Completed st b i ∨ InHand owner st b i) ∧
    (st.log b).countP (Event.completes i) =
      (st.log b).countP (Event.reports i)+if p = .done then 1 else 0

section Outstanding

variable {sys : Platform} {owner : ℕ → ℕ} {st : State} {b i : ℕ}

/-- The beginning of a history on the cycle is on the cycle. -/
theorem phase_of_append {log : List Event} (later : List Event) {p : Phase}
    (h : phase i (later ++ log) = some p) : ∃ q, phase i log = some q := by
  induction later generalizing p with
  | nil => exact ⟨p, h⟩
  | cons event later ih =>
    obtain ⟨q, hq, -⟩ := Option.bind_eq_some_iff.mp h
    exact ih hq

/-- An allocation finds a free token and makes it busy. -/
theorem phase_allocated {log : List Event} {token : ℕ} (hbit : token.testBit i = true) {p : Phase}
    (h : phase i (.allocated token :: log) = some p) :
    phase i log = some .free ∧ p = .busy := by
  obtain ⟨q, hq, hp⟩ := Option.bind_eq_some_iff.mp h
  simp only [Event.advance, hbit, if_true] at hp
  split_ifs at hp with hfree
  exact ⟨hfree ▸ hq, (Option.some.inj hp).symm⟩

/-- Only a report frees a token. -/
theorem reports_of_freed {event : Event} {p : Phase} (hp : p ≠ .free)
    (h : Event.advance i event p = some .free) : Event.reports i event = true := by
  cases event with
  | allocated token =>
    simp only [Event.advance, hp, if_false] at h
    split_ifs at h
    exact absurd (Option.some.inj h) hp
  | completed token =>
    simp only [Event.advance] at h
    split_ifs at h
    · cases h
    · exact absurd (Option.some.inj h) hp
  | reported doneTokens =>
    simp only [Event.advance] at h
    split_ifs at h with hbit
    · exact hbit
    · exact absurd (Option.some.inj h) hp

/-- A token that becomes free has been reported. -/
theorem exists_report {log middle : List Event} {p : Phase} (hlog : phase i log = some p)
    (hp : p ≠ .free) (h : phase i (middle ++ log) = some .free) :
    ∃ event ∈ middle, Event.reports i event = true := by
  induction middle with
  | nil => exact absurd (Option.some.inj (hlog.symm.trans h)) hp
  | cons event middle ih =>
    obtain ⟨q, hq, hadvance⟩ := Option.bind_eq_some_iff.mp h
    by_cases hfree : q = .free
    · obtain ⟨e, he, hreports⟩ := ih (hfree ▸ hq)
      exact ⟨e, List.mem_cons_of_mem _ he, hreports⟩
    · exact ⟨event, List.mem_cons_self .., reports_of_freed hfree hadvance⟩

/-- Every token of a box has a phase, which is done while its completion is
still to be reported. -/
theorem Bits.phase_eq (h : Bits sys owner st) (hb : b < sys.boxCount) (i : ℕ) :
    ∃ p, phase i (st.log b) = some p ∧
      (p = .done ↔ Completed st b i ∨ InHand owner st b i) := by
  by_cases hdone : Completed st b i ∨ InHand owner st b i
  · exact ⟨.done, h.done b hb i hdone, by simp [hdone]⟩
  · rw [not_or] at hdone
    by_cases hall : Allocated st b i
    · exact ⟨.busy, h.busy b hb i hall hdone.1, by simp [hdone]⟩
    · exact ⟨.free, h.free b hb i hall hdone.2, by simp [hdone]⟩

/-- Descriptor of an outstanding request. -/
def Holder.address (mem : Memory) : Holder → ℕ
  | .thread _ => 0
  | .queued q => (q.io mem).desc
  | .delivered _ address => address

/-- The outstanding requests of a box as holders. -/
def outstandingHolders (st : State) (b : ℕ) : List Holder :=
  (slots st.mem b false).map (fun slot => .queued ⟨b, false, slot⟩) ++
    (slots st.mem b true).map (fun slot => .queued ⟨b, true, slot⟩) ++
      (st.delivered b).map (.delivered b)

theorem map_address_outstandingHolders (st : State) (b : ℕ) :
    (outstandingHolders st b).map (Holder.address st.mem) = outstanding st b := by
  simp [outstandingHolders, outstanding, Holder.address, Function.comp_def]

/-- What an outstanding request holds. -/
theorem outstanding_held (hb : b < sys.boxCount) {u : Holder}
    (hu : u ∈ outstandingHolders st b) : holding sys owner st u =
      some ⟨b, (st.mem.desc (Holder.address st.mem u)).token,
        some (Holder.address st.mem u)⟩ := by
  have hqueue : ∀ receives, u ∈ (slots st.mem b receives).map
      (fun slot => Holder.queued ⟨b, receives, slot⟩) → holding sys owner st u =
        some ⟨b, (st.mem.desc (Holder.address st.mem u)).token,
          some (Holder.address st.mem u)⟩ := by
    intro receives hmem
    obtain ⟨slot, hslot, rfl⟩ := List.mem_map.mp hmem
    exact holding_queued ⟨hb, hslot⟩
  rcases List.mem_append.mp hu with hu | hu
  · exact (List.mem_append.mp hu).elim (hqueue false) (hqueue true)
  · obtain ⟨address, hmem, rfl⟩ := List.mem_map.mp hu
    exact holding_delivered ⟨hb, hmem⟩

/-- No request is outstanding twice. -/
theorem nodup_outstandingHolders (h : Invariant sys owner st) (hb : b < sys.boxCount) :
    (outstandingHolders st b).Nodup := by
  obtain ⟨d, hpools⟩ := h.pools
  have hqueue : ∀ receives, ((slots st.mem b receives).map
      fun slot => Holder.queued ⟨b, receives, slot⟩).Nodup := by
    intro receives
    rw [slots_eq hpools.queued hb]
    refine ((Queued.represents hpools.queued hb receives).nodup ()).map fun s s' he => ?_
    exact (Request.mk.inj (Holder.queued.inj he)).2.2
  refine List.Nodup.append ((hqueue false).append (hqueue true) ?_)
    ((h.holders.nodup b hb).map fun a a' he => (Holder.delivered.inj he).2) ?_
  · intro u hu hu'
    obtain ⟨s, -, rfl⟩ := List.mem_map.mp hu
    obtain ⟨s', -, he⟩ := List.mem_map.mp hu'
    cases he
  · intro u hu hu'
    obtain ⟨a, -, rfl⟩ := List.mem_map.mp hu'
    rcases List.mem_append.mp hu with hu | hu
    all_goals
      obtain ⟨s, -, he⟩ := List.mem_map.mp hu
      cases he

/-- Outstanding requests hold different tokens, of one bit each. -/
theorem outstanding_spec (h : Invariant sys owner st) (hb : b < sys.boxCount) :
    (outstandingTokens st b).Nodup ∧ ∀ token ∈ outstandingTokens st b, ∃ i < 32, token = 2^i := by
  rw [outstandingTokens, ← map_address_outstandingHolders, List.map_map]
  constructor
  · refine (nodup_outstandingHolders h hb).map_on fun u hu v hv he => ?_
    exact h.holders.token u v _ _ (outstanding_held hb hu) (outstanding_held hb hv) rfl he
  · intro token htoken
    obtain ⟨u, hu, rfl⟩ := List.mem_map.mp htoken
    obtain ⟨-, i, hi, hbit, -⟩ := h.holders.status u _ (outstanding_held hb hu)
    exact ⟨i, hi, hbit⟩

end Outstanding

/-! ## A thread that sends -/

/-- Two freshly initialized boxes; the threads alternate between them. -/
def bootedState : State where
  mem := ⟨bootedIpc, fun _ => ⟨0, 0, 0, 0⟩, fun _ => 0⟩
  pc _ := .idle
  delivered _ := []
  log _ := []

/-- A send request of 4 bytes. -/
def firstSend : IoCall := ⟨0x20000800, 0x20000810, false⟩

/-- The state after thread 0 has allocated a token for a send request. -/
def allocatedState : Option State :=
  exec (step twoBoxes (· % 2)) [.io 0 firstSend, .run 0, .run 0, .run 0] bootedState

end Uvisor.IpcTokenRuns
