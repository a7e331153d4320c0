import Mathlib.Data.List.Pairwise
import Uvisor.AipsAdd

/-!
# Exclusive peripherals on Kinetis

A request for sharing may be granted slots that other requests share. Any other
request is granted slots that no request had before, and keeps them from the
requests that come after it. The three bitmaps are read as a history: each bit
says which of the earlier calls have been granted its slot.
-/

namespace Uvisor.AipsExclusive

open Execution KinetisAips AipsAdd
open BandedMemory (taclShared)

/-! ## Sequences of calls -/

/-- A call of vmpu_aips_add. -/
structure Call where
  /-- box_id. -/
  boxId : ℕ
  /-- start. -/
  start : Word
  /-- size. -/
  size : Word
  /-- acl. -/
  acl : Word

/-- The slots that a call goes through. -/
def Call.slots (c : Call) : Finset ℕ := Finset.Ico (firstSlot c.start) (slotEnd c.start c.size)

/-- A call without UVISOR_TACL_SHARED. -/
def Call.Exclusive (c : Call) : Prop := c.acl &&& taclShared = 0

/-- The bitmaps after calls that have all returned 1, from the first one on. -/
inductive Granted (boxCount : ℕ) : List Call → Bitmaps → Prop where
  | none : Granted boxCount [] noPeripherals
  | call {calls : List Call} {maps maps' : Bitmaps} {c : Call} (h : Granted boxCount calls maps)
      (hreturns : Returns boxCount c.boxId c.start c.size c.acl maps 1 maps') :
      Granted boxCount (calls ++ [c]) maps'

/-- Calls that have been granted a slot which one of them does not share. -/
def Apart (c d : Call) : Prop := c.Exclusive ∨ d.Exclusive → Disjoint c.slots d.slots

/-- What the bitmaps say about the calls. -/
structure History (boxCount : ℕ) (calls : List Call) (maps : Bitmaps) : Prop where
  /-- A slot of a box is one of its own calls or of a call for box 0. -/
  box : ∀ b slot, BitArray.get (maps.box b) slot = true ↔
    ∃ c ∈ calls, Receives boxCount c.boxId b ∧ slot ∈ c.slots
  /-- A slot in use is one of some call. -/
  all : ∀ slot, BitArray.get maps.all slot = true ↔ ∃ c ∈ calls, slot ∈ c.slots
  /-- An exclusive slot is one of a call that does not share it. -/
  exc : ∀ slot, BitArray.get maps.exc slot = true ↔ ∃ c ∈ calls, c.Exclusive ∧ slot ∈ c.slots

/-- No slot of an exclusive call belongs to another call or to another secure
box, and the slots of every box are known to be in use. -/
structure KeepsExclusive (calls : List Call) (maps : Bitmaps) : Prop where
  /-- A slot that is granted without sharing is granted once. -/
  once : calls.Pairwise Apart
  /-- The exclusive slots of a secure box are in no other bitmap. -/
  secure : ∀ c ∈ calls, c.Exclusive → c.boxId ≠ 0 → ∀ slot ∈ c.slots, ∀ b ≠ c.boxId,
    BitArray.get (maps.box b) slot = false
  /-- The slots of all boxes are in use. -/
  all : ∀ b slot, BitArray.get (maps.box b) slot = true → BitArray.get maps.all slot = true

section Runs

variable {boxCount : ℕ} {calls : List Call} {maps maps' : Bitmaps} {c d : Call}

/-- A disjunction over the calls, after one more of them. -/
theorem exists_mem_snoc {p : Call → Prop} :
    (∃ d ∈ calls ++ [c], p d) ↔ (∃ d ∈ calls, p d) ∨ p c := by
  simp [or_and_right, exists_or]

theorem history_none (boxCount : ℕ) : History boxCount [] noPeripherals := by
  constructor <;> simp [noPeripherals]

/-- A call adds its slots to the history. -/
theorem History.call (h : History boxCount calls maps)
    (hreturns : Returns boxCount c.boxId c.start c.size c.acl maps 1 maps') :
    History boxCount (calls ++ [c]) maps' := by
  obtain ⟨-, -, -, hadded⟩ := returns_one hreturns
  refine ⟨fun b slot => ?_, fun slot => ?_, fun slot => ?_⟩
  · rw [hadded.box, Bool.or_eq_true, h.box, decide_eq_true_eq, exists_mem_snoc]
    rfl
  · rw [hadded.all, Bool.or_eq_true, h.all, decide_eq_true_eq, exists_mem_snoc]
    rfl
  · rw [hadded.exc, Bool.or_eq_true, h.exc, decide_eq_true_eq, exists_mem_snoc]
    rfl

/-- A call is granted slots only that no other call keeps from it, and none that
another call has if it does not share them. -/
theorem History.apart (h : History boxCount calls maps)
    (hreturns : Returns boxCount c.boxId c.start c.size c.acl maps 1 maps') (hd : d ∈ calls) :
    Apart d c := by
  obtain ⟨-, -, hfree, -⟩ := returns_one hreturns
  intro hexclusive
  refine Finset.disjoint_left.mpr fun slot hslot hslot' => ?_
  have hunused := hfree slot hslot'
  rw [inUse, Bool.or_eq_false_iff, Bool.and_eq_false_iff] at hunused
  rcases hexclusive with hother | hown
  · rw [(h.exc slot).mpr ⟨d, hd, hother, hslot⟩] at hunused
    cases hunused.1
  · rw [(h.all slot).mpr ⟨d, hd, hslot⟩] at hunused
    exact hunused.2.elim Bool.noConfusion fun hshared => of_decide_eq_false hshared hown

theorem history_of_granted (h : Granted boxCount calls maps) : History boxCount calls maps := by
  induction h with
  | none => exact history_none boxCount
  | call _ hreturns ih => exact ih.call hreturns

theorem pairwise_apart (h : Granted boxCount calls maps) : calls.Pairwise Apart := by
  induction h with
  | none => exact List.Pairwise.nil
  | call h hreturns ih =>
    refine List.pairwise_append.mpr ⟨ih, List.pairwise_singleton _ _, fun d hd other hother => ?_⟩
    obtain rfl := List.mem_singleton.mp hother
    exact (history_of_granted h).apart hreturns hd

instance : Std.Symm Apart := ⟨fun _ _ h hexclusive => (h hexclusive.symm).symm⟩

/-- After every sequence of calls that have all returned 1 the exclusive slots
have been granted once, are in no other bitmap if their box is a secure one, and
every slot of a box is in use. -/
theorem keepsExclusive_of_granted (h : Granted boxCount calls maps) :
    KeepsExclusive calls maps := by
  have hhistory := history_of_granted h
  refine ⟨pairwise_apart h, fun c hc hexclusive hsecure slot hslot b hne => ?_,
    fun b slot hbox => ?_⟩
  · refine Bool.eq_false_iff.mpr fun hbox => ?_
    obtain ⟨d, hd, hreceives, hslot'⟩ := (hhistory.box b slot).mp hbox
    -- a call whose slots another box receives is not the one of this box
    have hother : c ≠ d := by
      rintro rfl
      rw [Receives, if_pos hsecure] at hreceives
      exact hne hreceives
    have hapart := (pairwise_apart h).forall hc hd hother
    exact Finset.disjoint_left.mp (hapart (.inl hexclusive)) hslot hslot'
  · obtain ⟨c, hc, -, hslot⟩ := (hhistory.box b slot).mp hbox
    exact (hhistory.all slot).mpr ⟨c, hc, hslot⟩

/-- Take a call with a number of passes, if it returns 1. -/
def step (fuel boxCount : ℕ) (maps : Bitmaps) (c : Call) : Option Bitmaps :=
  (vmpuAipsAdd fuel boxCount c.boxId c.start c.size c.acl maps).bind fun (code, maps') =>
    if code = 1 then some maps' else none

theorem granted_of_exec {fuel : ℕ} {more : List Call} (h : Granted boxCount calls maps)
    (he : exec (step fuel boxCount) more maps = some maps') :
    Granted boxCount (calls ++ more) maps' := by
  induction more generalizing calls maps with
  | nil =>
    obtain rfl := Option.some.inj he
    rwa [List.append_nil]
  | cons c more ih =>
    obtain ⟨next, hs, ht⟩ := Option.bind_eq_some_iff.mp he
    obtain ⟨⟨code, granted⟩, hadd, hone⟩ := Option.bind_eq_some_iff.mp hs
    dsimp only at hone
    split_ifs at hone with hcode
    obtain rfl := hcode
    obtain rfl := Option.some.inj hone
    have hrest := ih (h.call ⟨fuel, hadd⟩) ht
    rwa [List.append_assoc] at hrest

/-- Box 1 has two slots, and boxes 1 and 2 share a third one. -/
def sharedCalls : List Call :=
  [⟨1, 0x40002000, 0x2000, tacldefPeriph⟩, ⟨1, 0x40004000, 0x1000, tacldefPeriph ||| taclShared⟩,
    ⟨2, 0x40004000, 0x1000, tacldefPeriph ||| taclShared⟩]

theorem keepsExclusive_sharedCalls :
    ∃ maps, Granted 3 sharedCalls maps ∧ KeepsExclusive sharedCalls maps := by
  have hrun : (exec (step 3 3) sharedCalls noPeripherals).isSome = true := by decide +kernel
  obtain ⟨maps, hmaps⟩ := Option.isSome_iff_exists.mp hrun
  have hgranted : Granted 3 sharedCalls maps := granted_of_exec .none hmaps
  exact ⟨maps, hgranted, keepsExclusive_of_granted hgranted⟩

end Runs

end Uvisor.AipsExclusive
