import Uvisor.InterruptStack

/-!
# Forging and discarding exception frames

A frame is forged below the saved stack pointer of a box, with one more word
when that keeps the frame aligned. The inserted word is announced in bit 9 of
the stacked status register, into which the caller's value is merged as it is,
and the discard of a frame looks for the announcement in bit 2. The forged
frame leads back to the saved stack pointer only when the caller's value
happens to fit in both bits.
-/

namespace Uvisor.ForgedFrames

open Context Interrupts InterruptStack

/-- A frame is aligned, announces the word that aligns it exactly when there is
one, and leads back to the stack pointer that it was forged below, whether the
hardware unstacks it or the monitor discards it. -/
structure RoundTrips (frame : Word) (mem : Memory) (dstId : ℕ) (sp : Word) : Prop where
  /-- The frame is aligned to eight bytes. -/
  aligned : frame.toNat%8 = 0
  /-- Bit 9 of the stacked status register is set exactly when the frame is one
  word further below the stack pointer than its size. -/
  announced : mem (frame+28) &&& 0x200 ≠ 0 ↔ frame+excSfBytes+4 = sp
  /-- The hardware takes the frame off the stack. -/
  unstacked : unstackFrame frame mem = sp
  /-- The monitor discards the frame. -/
  discards : ∀ s, (contextDiscardExcSf dstId frame mem s).sp dstId = sp

/-- The status register fits a stack pointer: bit 2 is that of the stack
pointer, and bit 9 is set only if that bit is. -/
def Fits (xpsr sp : Word) : Prop := xpsr &&& 4 = sp &&& 4 ∧ (xpsr &&& 0x200 ≠ 0 → sp &&& 4 ≠ 0)

instance (xpsr sp : Word) : Decidable (Fits xpsr sp) := inferInstanceAs (Decidable (_ ∧ _))

/-! ## Alignment -/

section Alignment

variable {sp : Word}

/-- A mask of one bit tests that bit. -/
theorem and_twoPow_ne_zero_iff {bit : ℕ} (hne : BitVec.twoPow 32 bit ≠ 0#32) (word : Word) :
    word &&& BitVec.twoPow 32 bit ≠ 0 ↔ word.getLsbD bit = true := by
  rw [BitVec.and_twoPow]
  cases word.getLsbD bit <;> simp [hne]

theorem and_four_ne_zero_iff : sp &&& 4 ≠ 0 ↔ sp.getLsbD 2 = true :=
  and_twoPow_ne_zero_iff (by decide : BitVec.twoPow 32 2 ≠ 0#32) sp

theorem and_announcement_ne_zero_iff : sp &&& 0x200 ≠ 0 ↔ sp.getLsbD 9 = true :=
  and_twoPow_ne_zero_iff (by decide : BitVec.twoPow 32 9 ≠ 0#32) sp

/-- The frame below a stack pointer of whole words is aligned. -/
theorem frame_aligned (hsp : sp &&& 3 = 0) : (sp-(excSfBytes+alignmentWords sp*4)).toNat%8 = 0 := by
  have hlow : sp.toNat%4 = 0 := by
    have hzero := congrArg BitVec.toNat hsp
    rw [BitVec.toNat_and] at hzero
    exact (Nat.and_two_pow_sub_one_eq_mod sp.toNat 2).symm.trans hzero
  have hwords := alignmentWords_toNat sp
  rw [BitVec.toNat_sub, BitVec.toNat_add, BitVec.toNat_mul, hwords]
  change (2^32-(32+sp.toNat/4%2*4%2^32)%2^32+sp.toNat)%2^32%8 = 0
  omega

/-- The stack pointer is reached again with as many words as have been
inserted. -/
theorem frame_words_eq_iff (words : Word) :
    sp-(excSfBytes+alignmentWords sp*4)+excSfBytes+words*4 = sp ↔
      words*4 = alignmentWords sp*4 := by
  generalize alignmentWords sp*4 = inserted
  generalize words*4 = counted
  unfold excSfBytes
  constructor
  · intro h
    bv_omega
  · rintro rfl
    bv_omega

/-- Two words need the same alignment exactly when they agree in bit 2. -/
theorem alignmentWords_eq_iff {xpsr : Word} :
    alignmentWords xpsr*4 = alignmentWords sp*4 ↔ xpsr &&& 4 = sp &&& 4 := by
  have htwo : (4 : Word) = BitVec.twoPow 32 2 := by decide
  rw [alignmentWords_eq, alignmentWords_eq, htwo, BitVec.and_twoPow, BitVec.and_twoPow]
  cases xpsr.getLsbD 2 <;> cases sp.getLsbD 2 <;> decide

end Alignment

/-! ## The round trip -/

section RoundTrip

variable {xpsr sp : Word}

/-- Entering the alignment does not touch bit 2. -/
theorem merged_and_four (words : Word) : (xpsr ||| (words <<< 9)) &&& 4 = xpsr &&& 4 := by
  have htwo : (4 : Word) = BitVec.twoPow 32 2 := by decide
  have hbit : (xpsr ||| (words <<< 9)).getLsbD 2 = xpsr.getLsbD 2 := by simp
  rw [htwo, BitVec.and_twoPow, BitVec.and_twoPow, hbit]

/-- Bit 9 of the merged status register. -/
theorem merged_announces_iff :
    (xpsr ||| (alignmentWords sp <<< 9)) &&& 0x200 ≠ 0 ↔ xpsr &&& 0x200 ≠ 0 ∨ sp &&& 4 ≠ 0 := by
  have hwords : (alignmentWords sp).getLsbD 0 = true ↔ sp &&& 4 ≠ 0 := by
    rw [and_four_ne_zero_iff, alignmentWords_eq]
    cases sp.getLsbD 2 <;> decide
  rw [and_bit_nine, hwords, and_announcement_ne_zero_iff]

/-- One word has been inserted exactly when the stack pointer needs it. -/
theorem inserted_iff : sp-(excSfBytes+alignmentWords sp*4)+excSfBytes+4 = sp ↔ sp &&& 4 ≠ 0 := by
  have hone : sp-(excSfBytes+alignmentWords sp*4)+excSfBytes+4 = sp ↔
      (1 : Word)*4 = alignmentWords sp*4 := frame_words_eq_iff 1
  rw [hone, and_four_ne_zero_iff, alignmentWords_eq]
  cases sp.getLsbD 2 <;> decide

/-- A frame is announced correctly exactly when bit 9 of the caller's value
does not announce a word that is not there. -/
theorem announced_iff :
    ((xpsr ||| (alignmentWords sp <<< 9)) &&& 0x200 ≠ 0 ↔
        sp-(excSfBytes+alignmentWords sp*4)+excSfBytes+4 = sp) ↔
      (xpsr &&& 0x200 ≠ 0 → sp &&& 4 ≠ 0) := by
  rw [merged_announces_iff, inserted_iff]
  constructor
  · exact fun h hset => h.mp (.inl hset)
  · exact fun h => ⟨fun hor => hor.elim h id, .inr⟩

/-- Unstacking goes by the announcement. -/
theorem unstacked_of_announced {frame : Word} {mem : Memory}
    (hframe : frame = sp-(excSfBytes+alignmentWords sp*4))
    (h : mem (frame+28) &&& 0x200 ≠ 0 ↔ frame+excSfBytes+4 = sp) :
    unstackFrame frame mem = sp := by
  unfold unstackFrame
  by_cases hbit : mem (frame+28) &&& 0x200 ≠ 0
  · rw [if_pos hbit]
    exact h.mp hbit
  · rw [if_neg hbit]
    have hnone : ¬sp &&& 4 ≠ 0 := fun hset => hbit (h.mpr (hframe ▸ inserted_iff.mpr hset))
    have hzero : alignmentWords sp*4 = 0*4 := by rw [alignmentWords_of_aligned (not_not.mp hnone)]
    rw [hframe]
    exact (frame_words_eq_iff 0).mpr hzero.symm

/-- For every box, every saved stack pointer of whole words and every status
register, the forged frame makes the round trip exactly when the status
register fits the stack pointer. -/
theorem forged_roundTrips_iff (srcSp : Word) (dstId : ℕ) (dstFn dstLr xpsr : Word) (nargs : ℕ)
    (mem : Memory) (s : Context.State) (hsp : s.sp dstId &&& 3 = 0) :
    RoundTrips (contextForgeExcSf srcSp dstId dstFn dstLr xpsr nargs mem s).1
        (contextForgeExcSf srcSp dstId dstFn dstLr xpsr nargs mem s).2 dstId (s.sp dstId) ↔
      Fits xpsr (s.sp dstId) := by
  have hframe : (contextForgeExcSf srcSp dstId dstFn dstLr xpsr nargs mem s).1 =
      s.sp dstId-(excSfBytes+alignmentWords (s.sp dstId)*4) := rfl
  have hword : (contextForgeExcSf srcSp dstId dstFn dstLr xpsr nargs mem s).2
      ((contextForgeExcSf srcSp dstId dstFn dstLr xpsr nargs mem s).1+28) =
        xpsr ||| (alignmentWords (s.sp dstId) <<< 9) := Function.update_self _ _ _
  generalize (contextForgeExcSf srcSp dstId dstFn dstLr xpsr nargs mem s).1 = frame at *
  generalize (contextForgeExcSf srcSp dstId dstFn dstLr xpsr nargs mem s).2 = forged at *
  have hannounced : (forged (frame+28) &&& 0x200 ≠ 0 ↔ frame+excSfBytes+4 = s.sp dstId) ↔
      (xpsr &&& 0x200 ≠ 0 → s.sp dstId &&& 4 ≠ 0) := by
    rw [hword, hframe]
    exact announced_iff
  have hdiscards : (∀ t, (contextDiscardExcSf dstId frame forged t).sp dstId = s.sp dstId) ↔
      xpsr &&& 4 = s.sp dstId &&& 4 := by
    have hsaved : ∀ t, (contextDiscardExcSf dstId frame forged t).sp dstId =
        frame+excSfBytes+alignmentWords (forged (frame+28))*4 :=
      fun t => (setSp_sp t dstId _ dstId).trans (if_pos rfl)
    simp only [hsaved]
    have : Nonempty Context.State := ⟨s⟩
    rw [hword, hframe, forall_const, frame_words_eq_iff, alignmentWords_eq_iff, merged_and_four]
  constructor
  · intro h
    exact ⟨hdiscards.mp h.discards, hannounced.mp h.announced⟩
  · rintro ⟨htwo, hnine⟩
    have hflag := hannounced.mpr hnine
    exact ⟨hframe ▸ frame_aligned hsp, hflag, unstacked_of_announced hframe hflag,
      hdiscards.mpr htwo⟩

/-- The interrupt gateway clears the exception number, and with it bit 2. The
frame of an interrupt makes the round trip exactly when the saved stack pointer
is aligned and the interrupted code had no word inserted. -/
theorem interrupt_fits_iff {ipsr : Word} :
    Fits (ipsr &&& ~~~(0x1FF : Word)) sp ↔ sp &&& 4 = 0 ∧ ipsr &&& 0x200 = 0 := by
  have htwo : ipsr &&& ~~~(0x1FF : Word) &&& 4 = 0 := by
    rw [BitVec.and_assoc, show ~~~(0x1FF : Word) &&& 4 = 0 from by decide]
    exact BitVec.and_zero
  have hnine : ipsr &&& ~~~(0x1FF : Word) &&& 0x200 = ipsr &&& 0x200 := by
    rw [BitVec.and_assoc, show ~~~(0x1FF : Word) &&& 0x200 = 0x200 from by decide]
  rw [Fits, htwo, hnine, eq_comm]
  constructor
  · rintro ⟨hzero, hclear⟩
    exact ⟨hzero, not_not.mp fun hset => hclear hset hzero⟩
  · rintro ⟨hzero, hclear⟩
    exact ⟨hzero, fun hset => absurd hclear hset⟩

end RoundTrip

/-! ## A stack pointer that is not aligned -/

/-- A box with the given saved stack pointer. -/
def savedAt (sp : Word) : Context.State where
  activeBox := 0
  contextP := 0
  previousStates := fun _ => ⟨0, .functionIsr, 0⟩
  currentStates := fun _ => ⟨sp, 0⟩
  index := fun _ => ⟨0, 0, 0, 0⟩
  uvisorBoxContext := 0
  newlibImpurePtr := 0
  psp := 0

/-- Memory of zeros. -/
def zeros : Memory := fun _ => 0

/-- An aligned stack pointer and the status register of thread mode. -/
theorem forged_roundTrips_aligned :
    RoundTrips
      (contextForgeExcSf 0x20002000 1 0x1000 0x2000 0x01000000 0 zeros (savedAt 0x20001000)).1
      (contextForgeExcSf 0x20002000 1 0x1000 0x2000 0x01000000 0 zeros (savedAt 0x20001000)).2 1
      ((savedAt 0x20001000).sp 1) :=
  (forged_roundTrips_iff 0x20002000 1 0x1000 0x2000 0x01000000 0 zeros (savedAt 0x20001000)
    (by decide)).mpr (by decide)

/-- With the same status register a stack pointer that is not aligned is saved
one word too low by the discard. -/
theorem forged_roundTrips_fails :
    (savedAt 0x20001004).sp 1 &&& 3 = 0 ∧
      ¬RoundTrips
        (contextForgeExcSf 0x20002000 1 0x1000 0x2000 0x01000000 0 zeros (savedAt 0x20001004)).1
        (contextForgeExcSf 0x20002000 1 0x1000 0x2000 0x01000000 0 zeros (savedAt 0x20001004)).2 1
        ((savedAt 0x20001004).sp 1) := by
  refine ⟨by decide, fun h => ?_⟩
  have hdiscard := h.discards (savedAt 0x20001004)
  revert hdiscard
  decide

end Uvisor.ForgedFrames
