import Uvisor.RpcWaits
import Uvisor.RpcEndToEnd

/-!
# The tokens of remote procedure calls

A cookie has the number of its send, modulo 2^21, above one bit that is never
set and above its slot. Invalid cookies have that bit set. The wait that finds
the cookie in the message takes it out, so that one wait for each cookie gets
past the compare-and-swap. What the message holds otherwise follows from what
its slot was last used for, and the tokens that a wait wrongly accepts are read
off that.
-/

namespace Uvisor.RpcCookies

open PoolQueue PoolOperations Rpc RpcApi RpcDescription RpcCallers RpcWaits Execution
open RpcSystem (CallerPc CallerStep)

/-! ## The bits of a cookie -/

/-- The cookie of a slot that is not waited for. -/
def invalidCookie (slot : ℕ) : ℕ := uvisorResultBuild resultInvalidCounter slot

/-- The counter wraps after 2^21 sends. -/
theorem uvisorResultBuild_wrap (n : ℕ) {slot : ℕ} (hs : slot < 2^10) :
    uvisorResultBuild (wrap (n*resultCounterIncrement)) slot = n%2^21*2^11+slot := by
  have hwrap : wrap (n*resultCounterIncrement) = wrap (n%2^21*resultCounterIncrement) := by
    have hincrement : resultCounterIncrement = 2^11 := by decide
    rw [wrap, wrap, hincrement]
    omega
  rw [hwrap]
  exact uvisorResultBuild_counter (Nat.mod_lt _ (by decide)) hs

/-- The token of a counter and a slot is none of the invalid ones. -/
theorem cookie_ne_invalid {n slot s : ℕ} (hs : slot < outgoingMessageSlots) :
    n*2^11+slot ≠ invalidCookie s := by
  have hinvalid := invalid_mod s
  unfold outgoingMessageSlots at hs
  unfold invalidCookie
  omega

/-- The slot of the token of a counter and a slot. -/
theorem cookie_slot {n slot : ℕ} (hs : slot < outgoingMessageSlots) :
    uvisorResultSlot (n*2^11+slot) = slot := by
  unfold outgoingMessageSlots at hs
  exact uvisorResultSlot_of_mod (by omega) (by omega)

/-! ## What the messages hold -/

/-- The cookie in the message of a slot. Memory is cleared before the first use,
and only rpc_fncall_wait takes the cookie out. -/
def stored : Use → ℕ → ℕ
  | .unused, _ => 0
  | .called token, _ | .awaited token true, _ => token
  | .awaited _ false, slot => invalidCookie slot

/-- The tokens of a box and its trail agree. -/
structure CookieFits (rpc : BoxRpc) (callers : ℕ → CallerPc) (trail : Trail) : Prop where
  /-- The bound of the pool. -/
  num : rpc.outgoing.queues.pool.num = outgoingMessageSlots
  /-- The counter has been incremented once for each cookie. -/
  counter : rpc.resultCounter = wrap (trail.built.length*resultCounterIncrement)
  /-- A cookie is made of its number and its slot. -/
  built : ∀ k cookie slot, trail.built[k]? = some (cookie, slot) →
    slot < outgoingMessageSlots ∧ cookie = (k+1)%2^21*2^11+slot
  /-- A claimed slot belongs to the pool. -/
  claimed : ∀ t call sync slot, callers t = .claimed call sync slot → slot < outgoingMessageSlots
  /-- A wait past the compare-and-swap has taken the cookie out. -/
  passed : ∀ token, (∀ s, token ≠ invalidCookie s) → trail.passed token ≤ 1 ∧
    ((rpc.outgoing.messages (uvisorResultSlot token)).waitCookie = token → trail.passed token = 0)
  /-- The messages hold what their uses say. -/
  stored : ∀ slot, (rpc.outgoing.messages slot).waitCookie = stored (trail.use slot) slot

section Steps

variable {rpc rpc' : BoxRpc} {callers : ℕ → CallerPc} {trail : Trail}

/-- Steps that leave the cookies alone. -/
theorem CookieFits.keeps (h : CookieFits rpc callers trail) (hkeeps : Keeps rpc rpc')
    {callers' : ℕ → CallerPc}
    (hclaimed : ∀ t call sync slot, callers' t = .claimed call sync slot →
      slot < outgoingMessageSlots) : CookieFits rpc' callers' trail := by
  refine ⟨(num_of_header () hkeeps.header).trans h.num, hkeeps.counter.trans h.counter, h.built,
    hclaimed, fun token htoken => ?_, fun slot => (hkeeps.cookie slot).trans (h.stored slot)⟩
  rw [hkeeps.cookie]
  exact h.passed token htoken

/-- Only the thread that moves may have claimed a slot. -/
theorem CookieFits.claimed_update (h : CookieFits rpc callers trail) {t : ℕ} {pc' : CallerPc}
    (hpc : ∀ call sync slot, pc' = .claimed call sync slot → slot < outgoingMessageSlots) :
    ∀ t' call sync slot, Function.update callers t pc' t' = .claimed call sync slot →
      slot < outgoingMessageSlots := by
  intro t' call sync slot heq
  by_cases ht : t' = t
  · subst ht
    rw [Function.update_self] at heq
    exact hpc call sync slot heq
  · rw [Function.update_of_ne ht] at heq
    exact h.claimed t' call sync slot heq

/-- A new cookie. -/
theorem CookieFits.count (h : CookieFits rpc callers trail) {t slot : ℕ} {call : Call} {sync : Bool}
    (hpc : callers t = .claimed call sync slot) :
    CookieFits (nextCounter rpc).2
      (Function.update callers t (.counted call sync slot (nextCounter rpc).1))
      {trail with built := trail.built ++ [(uvisorResultBuild (nextCounter rpc).1 slot, slot)]} := by
  have hslot := h.claimed t call sync slot hpc
  have hcounter : (nextCounter rpc).1 =
      wrap ((trail.built.length+1)*resultCounterIncrement) := by
    rw [nextCounter, h.counter]
    unfold wrap
    rw [Nat.mod_add_mod, Nat.add_mul, Nat.one_mul]
  refine ⟨h.num, ?_, fun k cookie slot' hk => ?_,
    h.claimed_update fun _ _ _ heq => CallerPc.noConfusion heq, h.passed, h.stored⟩
  · rw [List.length_append, List.length_singleton]
    exact hcounter
  · rcases Nat.lt_or_ge k trail.built.length with hlt | hge
    · rw [List.getElem?_append_left hlt] at hk
      exact h.built k cookie slot' hk
    · obtain ⟨hk', hpair⟩ := List.getElem?_eq_some_iff.mp hk
      rw [List.length_append, List.length_singleton] at hk'
      obtain rfl : k = trail.built.length := by omega
      rw [List.getElem_concat_length rfl] at hpair
      cases hpair
      refine ⟨hslot, ?_⟩
      rw [hcounter]
      exact uvisorResultBuild_wrap _ (hslot.trans (by decide))

/-- A cookie is put into a message. -/
theorem CookieFits.fill (h : CookieFits rpc callers trail) {t slot counter : ℕ} {call : Call}
    {sync : Bool} :
    CookieFits (populate rpc call counter slot) (Function.update callers t (.filled sync slot))
      {trail with
        passed := Function.update trail.passed (uvisorResultBuild counter slot) 0
        use := Function.update trail.use slot (.called (uvisorResultBuild counter slot))
        fills := Function.update trail.fills slot (trail.fills slot+1)} := by
  have hmsg : ∀ s, ((populate rpc call counter slot).outgoing.messages s).waitCookie =
      if s = slot then uvisorResultBuild counter slot
      else (rpc.outgoing.messages s).waitCookie := by
    intro s
    by_cases hs : s = slot
    · subst hs
      simp [populate, writeOutgoing, populated]
    · simp [populate, writeOutgoing, hs]
  refine ⟨h.num, h.counter, h.built, h.claimed_update fun _ _ _ heq => CallerPc.noConfusion heq,
    fun token htoken => ?_, fun s => ?_⟩
  · by_cases hself : token = uvisorResultBuild counter slot
    · subst hself
      simp
    · dsimp only
      rw [Function.update_of_ne hself, hmsg]
      split
      · exact ⟨(h.passed token htoken).1, fun heq => absurd heq.symm hself⟩
      · exact h.passed token htoken
  · dsimp only
    rw [hmsg]
    split
    · rename_i hs
      subst hs
      rw [Function.update_self]
      rfl
    · rename_i hs
      rw [Function.update_of_ne hs]
      exact h.stored s

/-- The cookie is taken out of a message. -/
theorem CookieFits.wait (h : CookieFits rpc callers trail) {t result : ℕ}
    (hcookie : (rpc.outgoing.messages (uvisorResultSlot result)).waitCookie = result) :
    CookieFits (claimWait rpc result).2
      (Function.update callers t (.waiting result (uvisorResultSlot result)))
      {trail with
        passed := Function.update trail.passed result (trail.passed result+1)
        use := Function.update trail.use (uvisorResultSlot result) (.awaited result false)} := by
  have hbox : (claimWait rpc result).2 = writeOutgoing rpc (uvisorResultSlot result)
      {rpc.outgoing.messages (uvisorResultSlot result) with
        waitCookie := invalidCookie (uvisorResultSlot result)} := by
    simp [claimWait, hcookie, invalidCookie]
  have hmsg : ∀ s, ((claimWait rpc result).2.outgoing.messages s).waitCookie =
      if s = uvisorResultSlot result then invalidCookie (uvisorResultSlot result)
      else (rpc.outgoing.messages s).waitCookie := by
    intro s
    rw [hbox]
    by_cases hs : s = uvisorResultSlot result
    · rw [hs]
      simp [writeOutgoing]
    · simp [writeOutgoing, hs]
  refine ⟨by rw [hbox]; exact h.num, by rw [hbox]; exact h.counter, h.built,
    h.claimed_update fun _ _ _ heq => CallerPc.noConfusion heq, fun token htoken => ?_,
    fun s => ?_⟩
  · dsimp only
    rw [hmsg]
    by_cases hself : token = result
    · subst hself
      rw [Function.update_self, if_pos rfl, (h.passed token htoken).2 hcookie]
      exact ⟨le_rfl, fun heq => absurd heq.symm (htoken _)⟩
    · rw [Function.update_of_ne hself]
      split
      · exact ⟨(h.passed token htoken).1, fun heq => absurd heq.symm (htoken _)⟩
      · exact h.passed token htoken
  · dsimp only
    rw [hmsg]
    split
    · rename_i hs
      rw [hs, Function.update_self]
      rfl
    · rename_i hs
      rw [Function.update_of_ne hs]
      exact h.stored s

/-- The synchronous call leaves the cookie in its message. -/
theorem CookieFits.sync (h : CookieFits rpc callers trail) (slot : ℕ) :
    CookieFits rpc callers
      {trail with use := Function.update trail.use slot (trail.use slot).await} := by
  refine ⟨h.num, h.counter, h.built, h.claimed, h.passed, fun s => ?_⟩
  dsimp only
  rw [h.stored]
  by_cases hs : s = slot
  · subst hs
    rw [Function.update_self]
    cases trail.use s <;> rfl
  · rw [Function.update_of_ne hs]

/-- The tokens stay in agreement with the trail. -/
theorem CookieFits.moved (h : CookieFits rpc callers trail) {t : ℕ} {next : CallerStep}
    {pc' : CallerPc} (hmoved : Moved rpc next (callers t) rpc' pc') :
    CookieFits rpc' (Function.update callers t pc') (trail.note next (callers t) pc') := by
  generalize hpc : callers t = pc at hmoved
  cases hmoved with
  | quiet hkeeps hnote hquiet =>
    rw [(hnote trail).1]
    refine h.keeps hkeeps (h.claimed_update ?_)
    rintro call sync slot rfl
    exact hquiet.elim
  | claimed hkeeps hslot =>
    refine h.keeps hkeeps (h.claimed_update ?_)
    rintro call sync slot heq
    cases heq
    rwa [num_of_header () hkeeps.header, h.num] at hslot
  | counted => exact h.count hpc
  | filled => exact h.fill
  | synced =>
    exact (h.keeps (Keeps.refl _) (h.claimed_update fun _ _ _ heq =>
      CallerPc.noConfusion heq)).sync _
  | waited hcookie => exact h.wait hcookie

end Steps

section Runs

variable {sys : Platform} {w w' : State}

/-- The tokens of an initialized box. -/
theorem cookieFits_initial (h : Initial sys w) {b : ℕ} (hb : b < sys.boxCount) :
    CookieFits (w.system.boxes b) (w.system.callers b) (w.trails b) := by
  obtain ⟨layout, rpc, hbox, hcounter⟩ := h.system.boxes b hb
  rw [h.trails b]
  refine ⟨by rw [hbox]; rfl, ?_, fun k cookie slot hk => ?_, fun t call sync slot hpc => ?_,
    fun token _ => ⟨Nat.zero_le _, fun _ => rfl⟩, fun slot => ?_⟩
  · rw [hbox]
    exact hcounter
  · cases hk
  · rw [h.system.callers b t] at hpc
    cases hpc
  · rw [h.cleared b slot]
    rfl

/-- The agreement of tokens and trail survives every step. -/
theorem cookieFits_step {a : Action} {b : ℕ}
    (h : CookieFits (w.system.boxes b) (w.system.callers b) (w.trails b))
    (hs : step sys w a = some w') :
    CookieFits (w'.system.boxes b) (w'.system.callers b) (w'.trails b) := by
  cases step_effect hs b with
  | other hkeeps hcallers htrail _ =>
    rw [hcallers, htrail]
    exact h.keeps hkeeps h.claimed
  | caller t next pc' _ _ hmoved hcallers htrail _ =>
    rw [hcallers, htrail]
    exact h.moved hmoved
  | timeout t hboxes hcallers htrail _ =>
    rw [hboxes, hcallers, htrail]
    exact h.keeps (Keeps.refl _) (h.claimed_update fun _ _ _ heq => CallerPc.noConfusion heq)

theorem cookieFits_reachable (h : Reachable (Initial sys) (step sys) (fun _ _ => True) w) {b : ℕ}
    (hb : b < sys.boxCount) :
    CookieFits (w.system.boxes b) (w.system.callers b) (w.trails b) :=
  h.invariant (fun w => CookieFits (w.system.boxes b) (w.system.callers b) (w.trails b))
    (fun _ hinit => cookieFits_initial hinit hb) fun _ _ _ hfits _ hs => cookieFits_step hfits hs

/-- A cookie of the box is made of a number and a slot. -/
theorem CookieFits.built_eq {rpc : BoxRpc} {callers : ℕ → CallerPc} {trail : Trail}
    (h : CookieFits rpc callers trail) {cookie slot : ℕ} (hmem : (cookie, slot) ∈ trail.built) :
    ∃ n, slot < outgoingMessageSlots ∧ cookie = n*2^11+slot := by
  obtain ⟨k, hk⟩ := List.getElem?_of_mem hmem
  exact ⟨_, h.built k cookie slot hk⟩

/-- So it is none of the invalid ones. -/
theorem CookieFits.valid {rpc : BoxRpc} {callers : ℕ → CallerPc} {trail : Trail}
    (h : CookieFits rpc callers trail) {cookie slot : ℕ} (hmem : (cookie, slot) ∈ trail.built)
    (s : ℕ) : cookie ≠ invalidCookie s := by
  obtain ⟨n, hslot, rfl⟩ := h.built_eq hmem
  exact cookie_ne_invalid hslot

/-- The discipline of the cookies of a box. -/
structure Disciplined (trail : Trail) : Prop where
  /-- No cookie is an invalid one. -/
  valid : ∀ cookie slot, (cookie, slot) ∈ trail.built → ∀ s, cookie ≠ invalidCookie s
  /-- The slot of a cookie is the one that it was built for. -/
  slot : ∀ cookie slot, (cookie, slot) ∈ trail.built → uvisorResultSlot cookie = slot
  /-- The cookies of up to 2^21 consecutive sends are different. -/
  distinct : ∀ part, part <:+: trail.built → part.length ≤ 2^21 → (part.map Prod.fst).Nodup
  /-- One wait for each cookie gets past the compare-and-swap. -/
  passed : ∀ cookie slot, (cookie, slot) ∈ trail.built → trail.passed cookie ≤ 1

/-- Consecutive sends have different numbers modulo 2^21. -/
theorem CookieFits.distinct {rpc : BoxRpc} {callers : ℕ → CallerPc} {trail : Trail}
    (h : CookieFits rpc callers trail) {part : List (ℕ × ℕ)} (hpart : part <:+: trail.built)
    (hlength : part.length ≤ 2^21) : (part.map Prod.fst).Nodup := by
  obtain ⟨before, after, hbuilt⟩ := hpart
  have hnumber : ∀ i (hi : i < part.length), ∃ slot < outgoingMessageSlots,
      part[i].1 = (before.length+i+1)%2^21*2^11+slot := by
    intro i hi
    have hget : trail.built[before.length+i]? = some part[i] := by
      rw [← hbuilt, List.append_assoc, List.getElem?_append_right (Nat.le_add_right _ _),
        Nat.add_sub_cancel_left, List.getElem?_append_left hi, List.getElem?_eq_getElem hi]
    obtain ⟨hslot, hcookie⟩ := h.built _ part[i].1 part[i].2 hget
    exact ⟨_, hslot, hcookie⟩
  rw [List.nodup_iff_pairwise_ne, List.pairwise_iff_getElem]
  intro i j hi hj hij heq
  rw [List.length_map] at hi hj
  rw [List.getElem_map, List.getElem_map] at heq
  obtain ⟨slot, hslot, hcookie⟩ := hnumber i hi
  obtain ⟨slot', hslot', hcookie'⟩ := hnumber j hj
  rw [hcookie, hcookie'] at heq
  unfold outgoingMessageSlots at hslot hslot'
  have hsame : (before.length+i+1)%2^21 = (before.length+j+1)%2^21 := by omega
  omega

/-- For any number of sends by any threads of a box, the cookies of the box are
disciplined. -/
theorem cookies_disciplined (h : Reachable (Initial sys) (step sys) (fun _ _ => True) w) {b : ℕ}
    (hb : b < sys.boxCount) : Disciplined (w.trails b) := by
  have hfits := cookieFits_reachable h hb
  refine ⟨fun cookie slot hmem => hfits.valid hmem, fun cookie slot hmem => ?_,
    fun part hpart hlength => hfits.distinct hpart hlength,
    fun cookie slot hmem => (hfits.passed cookie (hfits.valid hmem)).1⟩
  obtain ⟨n, hslot, rfl⟩ := hfits.built_eq hmem
  exact cookie_slot hslot

/-! ## Waits for arbitrary tokens -/

/-- The token that rpc_fncall_async returns, which is the status of a send that
has failed. -/
def rpcFncallAsync (rpc : BoxRpc) (call : Call) : Option (ℕ × BoxRpc) :=
  (sendOutgoingRpc rpc call).map fun sent =>
    if sent.1 ≠ 0 then ((sent.1%2^32).toNat, sent.2.2) else (sent.2.1, sent.2.2)

/-- rpc_fncall_wait stays within the outgoing messages, and for everything but
the token of a call that nobody has waited for it returns at once and leaves the
memory alone. -/
def WaitSafe (rpc : BoxRpc) (trail : Trail) (result : ℕ) : Prop :=
  uvisorResultSlot result < outgoingMessageSlots ∧
    (trail.use (uvisorResultSlot result) ≠ .called result → claimWait rpc result = (false, rpc))

/-- The token is zero and its slot has never been used, or it is what is left in
the message of a call that is waited for or has been: the invalid cookie after
rpc_fncall_wait, and the cookie itself after rpc_fncall_sync. -/
def Leftover : Use → ℕ → ℕ → Prop
  | .unused, _, result => result = 0
  | .called _, _, _ => False
  | .awaited token true, _, result => result = token
  | .awaited _ false, slot, result => result = invalidCookie slot

/-- In every state of every run, rpc_fncall_wait is safe for a token exactly if
its slot exists and it is not a leftover. -/
theorem waitSafe_iff (h : Reachable (Initial sys) (step sys) (fun _ _ => True) w) {b : ℕ}
    (hb : b < sys.boxCount) (result : ℕ) :
    WaitSafe (w.system.boxes b) (w.trails b) result ↔
      uvisorResultSlot result < outgoingMessageSlots ∧
        ¬Leftover ((w.trails b).use (uvisorResultSlot result)) (uvisorResultSlot result) result := by
  have hstored := (cookieFits_reachable h hb).stored (uvisorResultSlot result)
  have hrejected : claimWait (w.system.boxes b) result = (false, w.system.boxes b) ↔
      stored ((w.trails b).use (uvisorResultSlot result)) (uvisorResultSlot result) ≠ result := by
    rw [← hstored, claimWait]
    split
    · rename_i heq
      simp [heq]
    · rename_i hne
      simp [hne]
  unfold WaitSafe
  rw [hrejected]
  refine and_congr_right fun _ => ?_
  cases (w.trails b).use (uvisorResultSlot result) with
  | unused => simp [stored, Leftover, eq_comm]
  | called token => simp [stored, Leftover]
  | awaited token sync =>
    cases sync with
    | true => simp [stored, Leftover, eq_comm]
    | false => simp [stored, Leftover, eq_comm]

end Runs

/-! ## Runs of the small system -/

section Sample

/-- The small system with empty trails. -/
def booted : State := ⟨RpcEndToEnd.bootedState, fun _ => Trail.empty, fun _ _ => none, []⟩

theorem booted_initial : Initial threeBoxes booted :=
  ⟨RpcEndToEnd.bootedState_initial, fun _ slot => by
    change (if slot < outgoingMessageSlots then _ else _ : Message).waitCookie = 0
    split <;> rfl, fun _ => rfl, fun _ _ => rfl, rfl⟩

/-- An asynchronous call of box 0. -/
def asyncCall : List Action :=
  [.run (.caller 0 0 (.claim RpcEndToEnd.sampleCall false)), .run (.caller 0 0 .count),
    .run (.caller 0 0 .fill), .run (.caller 0 0 .enqueue), .run (.caller 0 0 .readToken)]

/-- Two threads wait for the call, and one of them gets past the
compare-and-swap. -/
theorem cookies_disciplined_asyncCall : ∃ w : State, (w.trails 0).built = [(0x800, 0)] ∧
    (w.trails 0).passed 0x800 = 1 ∧ Disciplined (w.trails 0) := by
  have hrun : ((exec (step threeBoxes) (asyncCall ++ [.run (.caller 0 0 (.wait 0x800)),
      .run (.caller 0 1 (.wait 0x800))]) booted).map fun w =>
        ((w.trails 0).built, (w.trails 0).passed 0x800)) = some ([(0x800, 0)], 1) := by
    decide +kernel
  obtain ⟨w, hw, hend⟩ := Option.map_eq_some_iff.mp hrun
  obtain ⟨hbuilt, hpassed⟩ := Prod.mk.inj hend
  have hreach := exec_reachable (.start booted_initial) hw
  exact ⟨w, hbuilt, hpassed, cookies_disciplined hreach (by decide)⟩

/-- The token of an asynchronous call is safe. -/
theorem waitSafe_asyncCall : ∃ w : State, WaitSafe (w.system.boxes 0) (w.trails 0) 0x800 := by
  have hrun : ((exec (step threeBoxes) asyncCall booted).map fun w => (w.trails 0).use 0) =
      some (.called 0x800) := by decide +kernel
  obtain ⟨w, hw, huse⟩ := Option.map_eq_some_iff.mp hrun
  have hreach := exec_reachable (.start booted_initial) hw
  have hslot : uvisorResultSlot 0x800 = 0 := by decide
  refine ⟨w, (waitSafe_iff hreach (by decide) 0x800).mpr ?_⟩
  rw [hslot, huse]
  exact ⟨by decide, id⟩

/-- Eight threads of box 0 have claimed a slot each. -/
def eightClaims : List Action :=
  (List.range 8).map fun t => .run (.caller 0 t (.claim RpcEndToEnd.sampleCall false))

/-- An asynchronous call that finds no slot returns a value, and the wait for that
value goes for a message behind the array. -/
theorem waitSafe_fails_eightClaims : ∃ w : State,
    Reachable (Initial threeBoxes) (step threeBoxes) (fun _ _ => True) w ∧
    (rpcFncallAsync (w.system.boxes 0) RpcEndToEnd.sampleCall).map Prod.fst = some 0xFFFFFFFF ∧
    ¬WaitSafe (w.system.boxes 0) (w.trails 0) 0xFFFFFFFF := by
  have hrun : ((exec (step threeBoxes) eightClaims booted).map fun w =>
      (rpcFncallAsync (w.system.boxes 0) RpcEndToEnd.sampleCall).map Prod.fst) =
        some (some 0xFFFFFFFF) := by decide +kernel
  obtain ⟨w, hw, htoken⟩ := Option.map_eq_some_iff.mp hrun
  have hslot : uvisorResultSlot 0xFFFFFFFF = 255 := by decide
  refine ⟨w, exec_reachable (.start booted_initial) hw, htoken, fun hsafe => ?_⟩
  have hindex := hsafe.1
  rw [hslot] at hindex
  exact absurd hindex (by decide)

end Sample

end Uvisor.RpcCookies
