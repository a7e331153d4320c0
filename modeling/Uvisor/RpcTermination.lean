import Uvisor.RpcDrain

/-!
# When draining the outgoing messages ends

Passes of the drain simulate the rotation of a queue over destinations with
room. A message is remembered once and for all, so a remembered message that
has been delivered leaves the loop without a stop as long as another one
cannot be delivered.
-/

namespace Uvisor.RpcTermination

open PoolInvariant Rpc RpcDescription RpcDrain Execution QueueRotation

variable {sys : Platform} {caller : ℕ}

/-- A state of the drain seen as a rotation over destinations with room. -/
def Rotates (sys : Platform) (caller : ℕ) (target : ℕ → Option ℕ) (st : DrainState)
    (rot : State ℕ (ℕ → ℕ)) : Prop :=
  ∃ d, Describes sys st.boxes d ∧ rot.queue = (d caller).out ∧
    (∀ c < sys.boxCount, rot.world c = (d c).inFree.length) ∧
    st.firstSlot = rot.first.elim (-1) Nat.cast ∧
    ∀ s, destination sys st.boxes caller s = target s

/-- The remembered slots correspond. -/
theorem remembered_elim (first : Option ℕ) (slot : ℕ) :
    remembered (first.elim (-1) Nat.cast) slot =
      (some (first.getD slot)).elim (-1) Nat.cast := by
  cases first with
  | none => simp [remembered]
  | some f => simp [remembered]

/-- A pass of the drain is a pass of the rotation. -/
theorem drainMessageBody_rotates (hc : caller < sys.boxCount) {target : ℕ → Option ℕ}
    (st : DrainState) (rot : State ℕ (ℕ → ℕ)) (h : Rotates sys caller target st rot) :
    Flow.Related (Rotates sys caller target) (drainMessageBody sys caller st)
      (body false (handleRoom target) rot) := by
  rcases rot with ⟨queue, world, first⟩
  obtain ⟨d, hd, hqueue, hworld, hfirst, htarget⟩ := h
  dsimp only at hqueue hworld hfirst
  subst hqueue
  cases hq : (d caller).out with
  | nil =>
    rw [pass_empty hd hc hq]
    exact ⟨d, hd, hq.symm, hworld, hfirst, htarget⟩
  | cons slot rest =>
    by_cases hseen : first = some slot
    · have hslot : st.firstSlot = slot := by
        rw [hfirst, hseen]
        rfl
      obtain ⟨hback, hfared⟩ := putBack_spec hd hc hq
      rw [pass_cons hd hc hq, if_pos hslot, body]
      simp only [if_pos hseen]
      refine ⟨_, hback, by simp, by simpa using hworld, hfirst, fun s => ?_⟩
      exact (hfared.destination_eq s).trans (htarget s)
    · have hslot : st.firstSlot ≠ slot := by
        rw [hfirst]
        cases first with
        | none =>
          intro he
          change (-1 : ℤ) = slot at he
          omega
        | some f =>
          intro he
          have hf : f = slot := Int.ofNat.inj he
          exact hseen (congrArg some hf)
      obtain ⟨boxes', d', fate, hbody, hd', hfared, hcause⟩ := pass_fares hd hc hq hslot
      have hdest := fun s => (hfared.destination_eq s).trans (htarget s)
      have hrem := remembered_elim first slot
      rw [← hfirst] at hrem
      rw [hbody, body]
      simp only [if_neg hseen]
      cases fate with
      | delivered =>
        obtain ⟨callee, hcallee, hroom⟩ := hcause
        obtain ⟨callee', fresh, free, hid, hfree, rfl, -⟩ := hfared
        have hsame : callee' = callee := by
          have he := (destination_callee hcallee).1.symm.trans hid
          omega
        subst hsame
        have hlt := (destination_callee hcallee).2
        have hpos : world callee' ≠ 0 := by
          rw [hworld callee' hlt, hfree]
          simp
        rw [htarget] at hcallee
        simp only [handleRoom, hcallee, if_neg hpos, Bool.false_eq_true, false_and, if_false]
        refine ⟨_, hd', by simp, fun c hcc => ?_, hrem, hdest⟩
        by_cases hcb : c = callee'
        · subst hcb
          have hw := hworld c hcc
          rw [hfree, List.length_cons] at hw
          simp only [Function.update_self, arriving_inFree, if_true]
          omega
        · simpa [hcb] using hworld c hcc
      | dropped =>
        obtain ⟨rfl, -⟩ := hfared
        have hnone : target slot = none := (htarget slot).symm.trans hcause
        simp only [handleRoom, hnone]
        exact ⟨_, hd', by simp, by simpa using hworld, hrem, hdest⟩
      | kept =>
        obtain ⟨callee, hcallee, hfull⟩ := hcause
        obtain ⟨rfl, -⟩ := hfared
        have hlt := (destination_callee hcallee).2
        have hzero : world callee = 0 := by
          rw [hworld callee hlt, hfull]
          rfl
        rw [htarget] at hcallee
        simp only [handleRoom, hcallee, if_pos hzero]
        exact ⟨_, hd', by simp, by simpa using hworld, hrem, hdest⟩

/-- The drain reaches a break exactly when the rotation does. -/
theorem terminates_iff_rotation (hc : caller < sys.boxCount) {boxes : Boxes} {d : ℕ → BoxLists}
    (h : Describes sys boxes d) :
    Terminates (drainMessageBody sys caller) ⟨boxes, -1⟩ ↔
      Terminates (body false (handleRoom (destination sys boxes caller)))
        ⟨(d caller).out, fun c => (d c).inFree.length, none⟩ :=
  terminates_iff_of_related (drainMessageBody_rotates hc)
    ⟨d, h, rfl, fun _ _ => rfl, rfl, fun _ => rfl⟩

/-- The loop of the drain reaches a break exactly when the callee of the first
message has no free slot, or every callee has a free slot for each of its
messages. -/
theorem drainMessageQueue_terminates_iff (hc : caller < sys.boxCount) {boxes : Boxes}
    {d : ℕ → BoxLists} (h : Describes sys boxes d) :
    Terminates (drainMessageBody sys caller) ⟨boxes, -1⟩ ↔
      (∃ slot rest callee, (d caller).out = slot :: rest ∧
        destination sys boxes caller slot = some callee ∧ (d callee).inFree = []) ∨
      ∀ callee, (d caller).out.countP (fun slot => destination sys boxes caller slot = some callee)
        ≤ (d callee).inFree.length := by
  have hnd : (d caller).out.Nodup := (h caller hc).outgoing.nodup ()
  rw [terminates_iff_rotation hc h, terminates_handleRoom_iff hnd]
  simp only [List.length_eq_zero_iff, demand]

/-- On freshly booted boxes there is nothing to drain. -/
theorem drainMessageQueue_terminates_booted :
    Terminates (drainMessageBody threeBoxes 0) ⟨bootedBoxes, -1⟩ :=
  (drainMessageQueue_terminates_iff (by decide) bootedBoxes_describes).mpr
    (Or.inr fun callee => by simp [initialLists])

/-- With two calls and one slot, the first call is delivered and the second
one goes round for ever. -/
theorem drainMessageQueue_diverges_crowded :
    Describes threeBoxes crowdedBoxes crowdedLists ∧
      (∀ slot ∈ (crowdedLists 0).out, isValidRpcGateway threeBoxes
        ((crowdedBoxes 0).outgoing.messages slot).gateway = true) ∧
      ¬Terminates (drainMessageBody threeBoxes 0) ⟨crowdedBoxes, -1⟩ := by
  have hd := crowdedBoxes_describes
  have hnd : (crowdedLists 0).out.Nodup := by decide
  refine ⟨hd, by decide, ?_⟩
  rw [terminates_iff_rotation (by decide) hd, terminates_handleRoom_iff hnd]
  rintro (⟨slot, rest, callee, hq, hdest, hroom⟩ | hroom)
  · have hslot : slot = 0 := (List.cons.inj hq).1.symm
    subst hslot
    rw [crowdedBoxes_destination 0 (by decide)] at hdest
    cases hdest
    cases hroom
  · have hdemand := hroom 1
    revert hdemand
    decide

end Uvisor.RpcTermination
