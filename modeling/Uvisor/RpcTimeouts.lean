import Uvisor.RpcCookies

/-!
# Calls whose wait has timed out

rpc_fncall_wait takes the cookie out of the message before it waits, and does
not put it back when the wait times out. Until the slot is filled again, which
takes a free in between, every other wait for the token is rejected.
-/

namespace Uvisor.RpcTimeouts

open PoolQueue Rpc RpcApi RpcDescription RpcCallers RpcWaits RpcCookies Execution
open RpcSystem (CallerPc CallerStep)

/-- Waits are for cookies that the box has built. -/
def AskedFor (w : State) : Action → Prop
  | .run (.caller box _ (.wait result)) => result ∈ (w.trails box).built.map Prod.fst
  | _ => True

/-- The slot still belongs to the call that has been waited for, and another wait
for its token gets past the compare-and-swap, after which it can obtain the
result and free the slot. -/
def Recoverable (x : Timeout) : Prop := x.began = x.ended ∧ (claimWait x.rpc x.token).1 = true

/-- A thread in rpc_fncall_wait has taken the cookie of its call out of the
message, which nobody has filled since for the same use. -/
def WaitFits (rpc : BoxRpc) (callers : ℕ → CallerPc) (trail : Trail) (waits : ℕ → Option ℕ) : Prop :=
  ∀ t use, waits t = some use → ∃ token, callers t = .waiting token (uvisorResultSlot token) ∧
    (∀ s, token ≠ invalidCookie s) ∧ use ≤ trail.fills (uvisorResultSlot token) ∧
    (trail.fills (uvisorResultSlot token) = use →
      (rpc.outgoing.messages (uvisorResultSlot token)).waitCookie =
        invalidCookie (uvisorResultSlot token))

section Steps

variable {rpc rpc' : BoxRpc} {callers : ℕ → CallerPc} {trail trail' : Trail}
  {waits : ℕ → Option ℕ}

/-- Each slot is as before, or it has been filled again, or its cookie has been
taken out. -/
def Spares (rpc rpc' : BoxRpc) (trail trail' : Trail) : Prop :=
  ∀ slot, trail.fills slot < trail'.fills slot ∨ trail'.fills slot = trail.fills slot ∧
    ((rpc'.outgoing.messages slot).waitCookie = (rpc.outgoing.messages slot).waitCookie ∨
      (rpc'.outgoing.messages slot).waitCookie = invalidCookie slot)

/-- A step of one thread leaves the waits of the others in order. -/
theorem WaitFits.update (h : WaitFits rpc callers trail waits) (hspares : Spares rpc rpc' trail trail')
    {t : ℕ} {pc' : CallerPc} {wait : Option ℕ}
    (hwait : ∀ use, wait = some use → ∃ token, pc' = .waiting token (uvisorResultSlot token) ∧
      (∀ s, token ≠ invalidCookie s) ∧ use ≤ trail'.fills (uvisorResultSlot token) ∧
      (trail'.fills (uvisorResultSlot token) = use →
        (rpc'.outgoing.messages (uvisorResultSlot token)).waitCookie =
          invalidCookie (uvisorResultSlot token))) :
    WaitFits rpc' (Function.update callers t pc') trail' (Function.update waits t wait) := by
  intro t' use huse
  by_cases ht : t' = t
  · subst ht
    rw [Function.update_self] at huse ⊢
    exact hwait use huse
  · rw [Function.update_of_ne ht] at huse ⊢
    obtain ⟨token, hpc, hvalid, hle, hcookie⟩ := h t' use huse
    refine ⟨token, hpc, hvalid, ?_, fun hfills => ?_⟩
    · rcases hspares (uvisorResultSlot token) with hmore | ⟨hsame, -⟩
      · exact hle.trans hmore.le
      · exact hle.trans hsame.ge
    · rcases hspares (uvisorResultSlot token) with hmore | ⟨hsame, hkept | htaken⟩
      · omega
      · rw [hkept]
        exact hcookie (hsame ▸ hfills)
      · exact htaken

theorem Keeps.spares (h : Keeps rpc rpc') : Spares rpc rpc' trail trail :=
  fun slot => .inr ⟨rfl, .inl (h.cookie slot)⟩

/-- The waits of a box stay in order. -/
theorem WaitFits.moved (h : WaitFits rpc callers trail waits) {t : ℕ} {next : CallerStep}
    {pc' : CallerPc} (hmoved : Moved rpc next (callers t) rpc' pc')
    (hvalid : ∀ result, next = .wait result → ∀ s, result ≠ invalidCookie s) :
    WaitFits rpc' (Function.update callers t pc') (trail.note next (callers t) pc')
      (Function.update waits t (trail.waited next pc')) := by
  generalize hpc : callers t = pc at hmoved
  cases hmoved with
  | quiet hkeeps hnote _ =>
    rw [(hnote trail).1, (hnote trail).2]
    exact h.update (Keeps.spares hkeeps) fun _ huse => by cases huse
  | claimed hkeeps _ => exact h.update (Keeps.spares hkeeps) fun _ huse => by cases huse
  | counted =>
    refine h.update (fun s => .inr ?_) fun _ huse => by cases huse
    simp [Trail.note, nextCounter]
  | @filled call sync slot counter =>
    refine h.update (fun s => ?_) fun _ huse => by cases huse
    by_cases hs : s = slot
    · subst hs
      exact .inl (by simp [Trail.note])
    · exact .inr ⟨by simp [Trail.note, hs], .inl (by simp [populate, writeOutgoing, hs])⟩
  | synced => exact h.update (fun _ => .inr ⟨rfl, .inl rfl⟩) fun _ huse => by cases huse
  | @waited result hcookie =>
    have hmsg : ∀ s, ((claimWait rpc result).2.outgoing.messages s).waitCookie =
        if s = uvisorResultSlot result then invalidCookie s
        else (rpc.outgoing.messages s).waitCookie := by
      intro s
      by_cases hs : s = uvisorResultSlot result
      · simp [claimWait, hcookie, writeOutgoing, invalidCookie, hs]
      · simp [claimWait, hcookie, writeOutgoing, hs]
    refine h.update (fun s => .inr ⟨rfl, ?_⟩) fun use huse => ?_
    · rw [hmsg]
      split
      · exact .inr rfl
      · exact .inl rfl
    · obtain rfl := Option.some.inj huse
      refine ⟨result, rfl, hvalid result rfl, le_rfl, fun _ => ?_⟩
      rw [hmsg, if_pos rfl]

end Steps

section Runs

variable {sys : Platform} {w w' : State}

/-- Cookies and waits of all boxes are in order, and no timed-out wait could have
been repeated. -/
structure Inv (sys : Platform) (w : State) : Prop where
  /-- Messages hold what their uses say. -/
  cookies : ∀ b < sys.boxCount,
    CookieFits (w.system.boxes b) (w.system.callers b) (w.trails b)
  /-- Waiting threads have taken cookies out. -/
  waits : ∀ b, WaitFits (w.system.boxes b) (w.system.callers b) (w.trails b) (w.waits b)
  /-- What has timed out is lost. -/
  lost : ∀ x ∈ w.timeouts, ¬Recoverable x

/-- A wait that times out is lost. -/
theorem stepTimeout_lost {b t : ℕ}
    (h : WaitFits (w.system.boxes b) (w.system.callers b) (w.trails b) (w.waits b))
    (hs : stepTimeout w b t = some w') :
    ∃ x, w'.timeouts = x :: w.timeouts ∧ ¬Recoverable x := by
  unfold stepTimeout at hs
  split at hs
  · rename_i token slot use hpc huse
    cases hs
    obtain ⟨token', hpc', hvalid, -, hcookie⟩ := h t use huse
    rw [hpc] at hpc'
    obtain ⟨rfl, rfl⟩ := CallerPc.waiting.inj hpc'
    refine ⟨_, rfl, fun hrecoverable => ?_⟩
    obtain ⟨hsame, hclaimed⟩ := hrecoverable
    have hheld := hcookie hsame.symm
    have hne : invalidCookie (uvisorResultSlot token) ≠ token := (hvalid _).symm
    simp [claimWait, hheld, hne] at hclaimed
  · cases hs

theorem inv_step {a : Action} (h : Inv sys w) (ha : AskedFor w a) (hs : step sys w a = some w') :
    Inv sys w' := by
  refine ⟨fun b hb => cookieFits_step (h.cookies b hb) hs, fun b => ?_, ?_⟩
  · cases step_effect hs b with
    | other hkeeps hcallers htrail hwaits =>
      rw [hcallers, htrail, hwaits]
      intro t use huse
      obtain ⟨token, hpc, hvalid, hle, hcookie⟩ := h.waits b t use huse
      exact ⟨token, hpc, hvalid, hle, fun hfills => (hkeeps.cookie _).trans (hcookie hfills)⟩
    | caller t next pc' hb haction hmoved hcallers htrail hwaits =>
      rw [hcallers, htrail, hwaits]
      refine (h.waits b).moved hmoved ?_
      rintro result rfl
      subst haction
      obtain ⟨⟨cookie, slot⟩, hmem, rfl⟩ := List.mem_map.mp ha
      exact (h.cookies b hb).valid hmem
    | timeout t hboxes hcallers htrail hwaits =>
      rw [hboxes, hcallers, htrail, hwaits]
      exact (h.waits b).update (Keeps.spares (Keeps.refl _)) fun _ huse => by cases huse
  · cases a with
    | run a =>
      obtain ⟨s, -, rfl⟩ := Option.map_eq_some_iff.mp hs
      have hsame : (w.note s a).timeouts = w.timeouts := by cases a <;> rfl
      rw [hsame]
      exact h.lost
    | timeout b t =>
      obtain ⟨x, htimeouts, hlost⟩ := stepTimeout_lost (h.waits b) hs
      rw [htimeouts]
      intro y hy
      rcases List.mem_cons.mp hy with rfl | hy
      · exact hlost
      · exact h.lost y hy

theorem inv_initial (h : Initial sys w) : Inv sys w := by
  refine ⟨fun b hb => cookieFits_initial h hb, fun b t use huse => ?_, fun x hx => ?_⟩
  · rw [h.waits b t] at huse
    cases huse
  · rw [h.timeouts] at hx
    cases hx

/-- Of the waits that have timed out in a run, none can be repeated. -/
theorem inv_reachable (h : Reachable (Initial sys) (step sys) AskedFor w) : Inv sys w :=
  h.invariant (Inv sys) (fun _ => inv_initial) fun _ _ _ => inv_step

/-- In every run, the waits that have timed out have lost nothing exactly if no
wait past the compare-and-swap has timed out. -/
theorem timeouts_recoverable_iff (h : Reachable (Initial sys) (step sys) AskedFor w) :
    (∀ x ∈ w.timeouts, Recoverable x) ↔ w.timeouts = [] := by
  have hlost := (inv_reachable h).lost
  constructor
  · intro hall
    exact List.eq_nil_iff_forall_not_mem.mpr fun x hx => hlost x hx (hall x hx)
  · intro hnone x hx
    rw [hnone] at hx
    cases hx

end Runs

/-! ## Runs of the small system -/

section Sample

instance (w : State) : (a : Action) → Decidable (AskedFor w a)
  | .run (.caller box _ (.wait result)) =>
    inferInstanceAs (Decidable (result ∈ (w.trails box).built.map Prod.fst))
  | .run (.caller _ _ (.claim _ _)) | .run (.caller _ _ .count) | .run (.caller _ _ .fill)
  | .run (.caller _ _ .enqueue) | .run (.caller _ _ .readToken) | .run (.caller _ _ .pend)
  | .run (.caller _ _ .readResult) | .run (.caller _ _ .free) | .run (.handler _ _)
  | .run (.monitor _) | .timeout _ _ => inferInstanceAs (Decidable True)

/-- An asynchronous call and a wait for it that is still going on. -/
theorem timeouts_recoverable_asyncCall : ∃ w : State, (w.waits 0 0).isSome ∧
    ∀ x ∈ w.timeouts, Recoverable x := by
  have hrun : ((execWithin (step threeBoxes) AskedFor
      (asyncCall ++ [.run (.caller 0 0 (.wait 0x800))]) booted).map fun w =>
        ((w.waits 0 0).isSome, w.timeouts.length)) = some (true, 0) := by decide +kernel
  obtain ⟨w, hw, hend⟩ := Option.map_eq_some_iff.mp hrun
  obtain ⟨hwaiting, hlength⟩ := Prod.mk.inj hend
  have hreach := execWithin_reachable (.start booted_initial) hw
  exact ⟨w, hwaiting, (timeouts_recoverable_iff hreach).mpr (List.length_eq_zero_iff.mp hlength)⟩

/-- The wait for an asynchronous call times out before the call has been
delivered, and the next wait for its token is rejected. -/
theorem timeouts_recoverable_fails : ∃ w : State,
    Reachable (Initial threeBoxes) (step threeBoxes) AskedFor w ∧
    (claimWait (w.system.boxes 0) 0x800).1 = false ∧ ¬∀ x ∈ w.timeouts, Recoverable x := by
  have hrun : ((execWithin (step threeBoxes) AskedFor
      (asyncCall ++ [.run (.caller 0 0 (.wait 0x800)), .timeout 0 0]) booted).map fun w =>
        ((claimWait (w.system.boxes 0) 0x800).1,
          w.timeouts.map fun x => (claimWait x.rpc x.token).1)) = some (false, [false]) := by
    decide +kernel
  obtain ⟨w, hw, hend⟩ := Option.map_eq_some_iff.mp hrun
  obtain ⟨hrejected, htimeouts⟩ := Prod.mk.inj hend
  refine ⟨w, execWithin_reachable (.start booted_initial) hw, hrejected, fun hall => ?_⟩
  obtain ⟨x, rest, hx, hfirst, -⟩ := List.map_eq_cons_iff.mp htimeouts
  have hclaimed := (hall x (by rw [hx]; exact List.mem_cons_self)).2
  rw [hfirst] at hclaimed
  cases hclaimed

end Sample

end Uvisor.RpcTimeouts
