import Mathlib.Order.Interval.Finset.Nat
import Uvisor.BandedMemory
import Uvisor.BitArray
import Uvisor.KinetisAips

/-!
# Adding peripherals to the bridges of Kinetis

The slots of a peripheral are added one after the other, and the first one that
is in use ends the loop. The number of slots is the difference of two slots of
eight bits, so that a size can wrap it. A number below zero is counted down for
ever, as long as no slot is in use.
-/

namespace Uvisor.AipsAdd

open Execution KinetisAips
open ArmMpu (taclUwrite taclSizeRoundUp)
open BandedMemory (taclShared)

/-! ## Bitmaps -/

/-- The bitmaps of the peripherals. -/
structure Bitmaps where
  /-- g_aipsx_box. -/
  box : Acls
  /-- g_aipsx_all. -/
  all : ℕ → Word
  /-- g_aipsx_exc. -/
  exc : ℕ → Word

/-! ## The call -/

/-- Whether a slot is already in use, for a request with the given rights. -/
def inUse (acl : Word) (maps : Bitmaps) (slot : ℕ) : Bool :=
  BitArray.get maps.exc slot || BitArray.get maps.all slot && acl &&& taclShared = 0

/-- Add a slot to the bitmaps. The peripherals of box 0 are added to all boxes. -/
def addSlot (boxCount boxId : ℕ) (acl : Word) (maps : Bitmaps) (slot : ℕ) : Bitmaps where
  all := BitArray.set maps.all slot
  box := fun b =>
    if (if boxId ≠ 0 then b = boxId else b < boxCount) then BitArray.set (maps.box b) slot
    else maps.box b
  exc := if acl &&& taclShared = 0 then BitArray.set maps.exc slot else maps.exc

/-- Where the loop over the slots stands. -/
structure Pass where
  /-- aips_slot, of eight bits. -/
  aipsSlot : ℕ
  /-- slot_count, a signed number. -/
  slotCount : ℤ
  /-- The bitmaps. -/
  maps : Bitmaps
  /-- What is returned, once the loop is left. -/
  result : ℤ

/-- One pass of the loop. The least number of 32 bits cannot be counted down. -/
def passSlot (boxCount boxId : ℕ) (acl : Word) (p : Pass) : Flow Pass :=
  if p.slotCount = 0 then .stop {p with result := 1}
  else if p.slotCount = -2^31 then .hang
  else if inUse acl p.maps p.aipsSlot then .stop {p with result := -7}
  else .next {p with
    aipsSlot := (p.aipsSlot+1)%2^8
    slotCount := p.slotCount-1
    maps := addSlot boxCount boxId acl p.maps p.aipsSlot}

/-- AIPSx_SLOT_SIZE. -/
def slotSize : ℕ := 0x1000

/-- The checks before the loop: an error, or the first slot and the number of
slots. -/
def checkSlots (start size acl : Word) : Except ℤ (ℕ × ℤ) :=
  if ¬(aips0Base ≤ start.toNat ∧ start.toNat < aips0Base+0xFE*slotSize) then .error 0
  else if acl &&& taclUwrite = 0 then .error (-2)
  else
    let address := start.toNat-aips0Base
    let aipsSlot := address/slotSize%2^8
    if slotMax < aipsSlot then .error (-3)
    else
      let base := aips0Base ||| aipsSlot <<< 12
      if base ≠ start.toNat then .error (-4)
      else if size.toNat%slotSize ≠ 0 ∧ acl &&& taclSizeRoundUp = 0 then .error (-5)
      else
        let slotCount := (base+size.toNat+4095)%2^32/2^12%2^8
        if slotMax < slotCount then .error (-6) else .ok (aipsSlot, slotCount-aipsSlot)

/-- vmpu_aips_add with a number of passes: what is returned and the bitmaps. -/
def vmpuAipsAdd (fuel boxCount boxId : ℕ) (start size acl : Word) (maps : Bitmaps) :
    Option (ℤ × Bitmaps) :=
  match checkSlots start size acl with
  | .error code => some (code, maps)
  | .ok (aipsSlot, slotCount) =>
    (iterate (passSlot boxCount boxId acl) fuel ⟨aipsSlot, slotCount, maps, 0⟩).map fun p =>
      (p.result, p.maps)

/-- A call returns. -/
def Returns (boxCount boxId : ℕ) (start size acl : Word) (maps : Bitmaps) (code : ℤ)
    (maps' : Bitmaps) : Prop :=
  ∃ fuel, vmpuAipsAdd fuel boxCount boxId start size acl maps = some (code, maps')

/-! ## What is asked for -/

/-- The slot of an address. -/
def firstSlot (start : Word) : ℕ := (start.toNat-aips0Base)/slotSize

/-- Number of slots for a size, rounded up. -/
def slotsFor (size : Word) : ℕ := (size.toNat+(slotSize-1))/slotSize

/-- The slot after the last one, in eight bits. -/
def slotEnd (start size : Word) : ℕ := (firstSlot start+slotsFor size)%2^8

/-- Whether the slots that are added for a box are added to the bitmap of
another one. -/
def Receives (boxCount boxId b : ℕ) : Prop := if boxId ≠ 0 then b = boxId else b < boxCount

instance (boxCount boxId b : ℕ) : Decidable (Receives boxCount boxId b) :=
  inferInstanceAs (Decidable (if boxId ≠ 0 then b = boxId else b < boxCount))

/-- A call returns, and where it reports success it has added the slots of a
region, all of them below the last one, and no others. -/
def GrantsExactly (boxCount boxId : ℕ) (start size acl : Word) (maps : Bitmaps) : Prop :=
  (∃ code maps', Returns boxCount boxId start size acl maps code maps') ∧
    ∀ maps', Returns boxCount boxId start size acl maps 1 maps' →
      (∀ i < slotsFor size, firstSlot start+i < slotMax) ∧
        ∀ b slot, BitArray.get (maps'.box b) slot = (BitArray.get (maps.box b) slot ||
          decide (Receives boxCount boxId b ∧ firstSlot start ≤ slot ∧
            slot < firstSlot start+slotsFor size))

/-- A request that is refused before the loop. -/
def Refused (start size acl : Word) : Prop :=
  ¬(aips0Base ≤ start.toNat ∧ start.toNat < aips0Base+0xFE*slotSize) ∨ acl &&& taclUwrite = 0 ∨
    start.toNat%slotSize ≠ 0 ∨ (size.toNat%slotSize ≠ 0 ∧ acl &&& taclSizeRoundUp = 0) ∨
    slotMax < slotEnd start size

/-- When the number of slots is right, or when it does not matter because the
loop meets a slot in use. -/
def Counted (start size acl : Word) (maps : Bitmaps) : Prop :=
  Refused start size acl ∨ firstSlot start+slotsFor size < 2^8 ∨
    (∃ slot, firstSlot start ≤ slot ∧ slot < slotEnd start size ∧ inUse acl maps slot) ∨
    slotEnd start size < firstSlot start ∧
      (acl &&& taclShared = 0 ∨ ∃ slot < 2^8, BitArray.get maps.exc slot)

/-! ## Checks -/

section Checks

variable {start size acl : Word} {maps : Bitmaps}

theorem or_slot_eq {slot : ℕ} (hslot : slot < 2^8) :
    aips0Base ||| slot <<< 12 = aips0Base+slot*slotSize := by
  have hlt : slot <<< 12 < 2^30 := by
    rw [Nat.shiftLeft_eq]
    omega
  have hor := Nat.two_pow_add_eq_or_of_lt hlt 1
  rw [Nat.shiftLeft_eq] at hor ⊢
  exact hor.symm

theorem firstSlot_lt
    (hrange : aips0Base ≤ start.toNat ∧ start.toNat < aips0Base+0xFE*slotSize) :
    firstSlot start < slotMax := by
  unfold slotMax firstSlot slotSize aips0Base at *
  omega

/-- The number of slots is computed in eight bits of the 32-bit end. -/
theorem slotCount_eq (size : Word)
    (hrange : aips0Base ≤ start.toNat ∧ start.toNat < aips0Base+0xFE*slotSize)
    (haligned : start.toNat%slotSize = 0) :
    aips0Base+firstSlot start*slotSize = start.toNat ∧
      (start.toNat+size.toNat+4095)%2^32/2^12%2^8 = slotEnd start size := by
  unfold slotEnd slotsFor firstSlot slotSize aips0Base at *
  omega

/-- The checks before the loop fail for the refused requests. -/
theorem checkSlots_error (h : Refused start size acl) :
    ∃ code ≠ 1, checkSlots start size acl = .error code := by
  unfold checkSlots
  by_cases hrange : aips0Base ≤ start.toNat ∧ start.toNat < aips0Base+0xFE*slotSize
  case neg =>
    rw [if_pos hrange]
    exact ⟨0, by decide, rfl⟩
  rw [if_neg (not_not.mpr hrange)]
  by_cases hwrite : acl &&& taclUwrite = 0
  · rw [if_pos hwrite]
    exact ⟨-2, by decide, rfl⟩
  have hlow := firstSlot_lt hrange
  have hmod : (start.toNat-aips0Base)/slotSize%2^8 = firstSlot start :=
    Nat.mod_eq_of_lt (hlow.trans (by decide))
  rw [if_neg hwrite]
  dsimp only
  rw [hmod, or_slot_eq (hlow.trans (by decide)),
    if_neg (not_lt.mpr hlow.le)]
  by_cases hbase : aips0Base+firstSlot start*slotSize = start.toNat
  case neg =>
    rw [if_pos hbase]
    exact ⟨-4, by decide, rfl⟩
  rw [if_neg (not_not.mpr hbase)]
  by_cases hsize : size.toNat%slotSize ≠ 0 ∧ acl &&& taclSizeRoundUp = 0
  · rw [if_pos hsize]
    exact ⟨-5, by decide, rfl⟩
  have haligned : start.toNat%slotSize = 0 := by
    unfold slotSize aips0Base at *
    omega
  rw [if_neg hsize, hbase, (slotCount_eq size hrange haligned).2]
  rcases h with h | h | h | h | h
  · exact absurd hrange h
  · exact absurd h hwrite
  · exact absurd haligned h
  · exact absurd h hsize
  · rw [if_pos h]
    exact ⟨-6, by decide, rfl⟩

/-- Any other request is counted in eight bits. -/
theorem checkSlots_ok (h : ¬Refused start size acl) : checkSlots start size acl =
    .ok (firstSlot start, (slotEnd start size : ℤ)-firstSlot start) := by
  simp only [Refused, not_or, not_not] at h
  obtain ⟨hrange, hwrite, haligned, hsize, hmax⟩ := h
  have hlow := firstSlot_lt hrange
  have hmod : (start.toNat-aips0Base)/slotSize%2^8 = firstSlot start :=
    Nat.mod_eq_of_lt (hlow.trans (by decide))
  obtain ⟨hbase, hend⟩ := slotCount_eq size hrange haligned
  unfold checkSlots
  rw [if_neg (not_not.mpr hrange), if_neg hwrite]
  dsimp only
  rw [hmod, or_slot_eq (hlow.trans (by decide)), hbase,
    if_neg (not_lt.mpr hlow.le), if_neg (not_not.mpr rfl),
    if_neg hsize, hend, if_neg hmax]

end Checks

/-! ## Slots that are added -/

/-- What has become of the bitmaps when some slots were added for a box. -/
structure Added (boxCount boxId : ℕ) (acl : Word) (slots : Finset ℕ) (maps maps' : Bitmaps) :
    Prop where
  /-- The boxes that receive the slots. -/
  box : ∀ b slot, BitArray.get (maps'.box b) slot =
    (BitArray.get (maps.box b) slot || decide (Receives boxCount boxId b ∧ slot ∈ slots))
  /-- The slots are in use. -/
  all : ∀ slot, BitArray.get maps'.all slot =
    (BitArray.get maps.all slot || decide (slot ∈ slots))
  /-- They are exclusive, unless the request allows to share them. -/
  exc : ∀ slot, BitArray.get maps'.exc slot =
    (BitArray.get maps.exc slot || decide (acl &&& taclShared = 0 ∧ slot ∈ slots))

section Slots

variable {boxCount boxId : ℕ} {acl : Word} {maps maps' : Bitmaps} {slot : ℕ}

theorem Added.refl (boxCount boxId : ℕ) (acl : Word) (maps : Bitmaps) :
    Added boxCount boxId acl ∅ maps maps := by
  constructor <;> simp

/-- One slot is added. -/
theorem added_addSlot (boxCount boxId : ℕ) (acl : Word) (maps : Bitmaps) (slot : ℕ) :
    Added boxCount boxId acl {slot} maps (addSlot boxCount boxId acl maps slot) where
  box b other := by
    have hbox : (addSlot boxCount boxId acl maps slot).box b =
        if Receives boxCount boxId b then BitArray.set (maps.box b) slot else maps.box b := rfl
    rw [hbox]
    split_ifs with hreceives
    · rw [BitArray.get_set (by decide), Bool.or_comm]
      simp [hreceives, eq_comm]
    · simp [hreceives]
  all other := by
    rw [addSlot, BitArray.get_set (by decide), Bool.or_comm]
    simp [eq_comm]
  exc other := by
    have hexc : (addSlot boxCount boxId acl maps slot).exc =
        if acl &&& taclShared = 0 then BitArray.set maps.exc slot else maps.exc := rfl
    rw [hexc]
    by_cases hshared : acl &&& taclShared = 0
    · rw [if_pos hshared, BitArray.get_set (by decide), Bool.or_comm]
      simp only [hshared, true_and, Finset.mem_singleton, eq_comm]
    · rw [if_neg hshared, decide_eq_false fun h => hshared h.1, Bool.or_false]

theorem Added.trans {slots slots' : Finset ℕ} {maps'' : Bitmaps}
    (h : Added boxCount boxId acl slots maps maps')
    (h' : Added boxCount boxId acl slots' maps' maps'') :
    Added boxCount boxId acl (slots ∪ slots') maps maps'' where
  box b slot := by
    rw [h'.box, h.box, Bool.or_assoc, ← Bool.decide_or]
    simp only [Finset.mem_union, and_or_left]
  all slot := by
    rw [h'.all, h.all, Bool.or_assoc, ← Bool.decide_or]
    simp only [Finset.mem_union]
  exc slot := by
    rw [h'.exc, h.exc, Bool.or_assoc, ← Bool.decide_or]
    simp only [Finset.mem_union, and_or_left]

/-- A slot that is added does not affect the others. -/
theorem inUse_addSlot {other : ℕ} (hne : other ≠ slot) :
    inUse acl (addSlot boxCount boxId acl maps slot) other = inUse acl maps other := by
  have hadded := added_addSlot boxCount boxId acl maps slot
  rw [inUse, inUse, hadded.exc, hadded.all]
  simp [hne]

end Slots

/-! ## The loop -/

section Loop

variable {boxCount boxId : ℕ} {acl : Word} {maps : Bitmaps} {p q : Pass} {fuel : ℕ}

/-- How the loop over a number of slots ends: at the first slot in use, or after
it has added them all. -/
inductive Ends (boxCount boxId : ℕ) (acl : Word) (slots : Finset ℕ) (maps : Bitmaps) (p : Pass) :
    Prop where
  | used (slot : ℕ) (hslot : slot ∈ slots) (huse : inUse acl maps slot = true)
      (hresult : p.result = -7)
  | added (hfree : ∀ slot ∈ slots, inUse acl maps slot = false)
      (hadded : Added boxCount boxId acl slots maps p.maps) (hresult : p.result = 1)

/-- The loop ends when it starts with the number of slots up to one of them. -/
theorem loop_ends (boxCount boxId : ℕ) (acl : Word) (maps : Bitmaps) (slot n : ℕ)
    (hlast : slot+n < 2^8) (result : ℤ) :
    ∃ fuel q, iterate (passSlot boxCount boxId acl) fuel ⟨slot, n, maps, result⟩ = some q ∧
      Ends boxCount boxId acl (Finset.Ico slot (slot+n)) maps q := by
  induction n generalizing slot maps with
  | zero =>
    refine ⟨1, _, rfl, .added (fun other hother => ?_) ?_ rfl⟩
    · rw [Nat.add_zero, Finset.Ico_self] at hother
      exact absurd hother (Finset.notMem_empty other)
    · rw [Nat.add_zero, Finset.Ico_self]
      exact Added.refl _ _ _ _
  | succ n ih =>
    have hcount : ((n+1 : ℕ) : ℤ) ≠ 0 := by omega
    have hleast : ((n+1 : ℕ) : ℤ) ≠ -2^31 := by omega
    have hfirst : slot ∈ Finset.Ico slot (slot+(n+1)) := Finset.mem_Ico.mpr (by omega)
    by_cases huse : inUse acl maps slot = true
    · have hbody : passSlot boxCount boxId acl ⟨slot, (n+1 : ℕ), maps, result⟩ =
          .stop ⟨slot, (n+1 : ℕ), maps, -7⟩ := by
        rw [passSlot, if_neg hcount, if_neg hleast, if_pos huse]
      exact ⟨1, ⟨slot, (n+1 : ℕ), maps, -7⟩, by rw [iterate, hbody], .used slot hfirst huse rfl⟩
    · have hnext : ((n+1 : ℕ) : ℤ)-1 = (n : ℤ) := by omega
      have hslot : (slot+1)%2^8 = slot+1 := Nat.mod_eq_of_lt (by omega)
      have hbody : passSlot boxCount boxId acl ⟨slot, (n+1 : ℕ), maps, result⟩ =
          .next ⟨slot+1, n, addSlot boxCount boxId acl maps slot, result⟩ := by
        rw [passSlot, if_neg hcount, if_neg hleast, if_neg huse]
        simp only [hnext, hslot]
      obtain ⟨fuel, q, hrun, hends⟩ := ih (addSlot boxCount boxId acl maps slot) (slot+1)
        (by omega)
      have hsplit : ∀ other, other ∈ Finset.Ico slot (slot+(n+1)) ↔
          other = slot ∨ other ∈ Finset.Ico (slot+1) (slot+1+n) := by
        intro other
        rw [Finset.mem_Ico, Finset.mem_Ico]
        omega
      have hother : ∀ other ∈ Finset.Ico (slot+1) (slot+1+n), other ≠ slot := by
        intro other hmem
        have hle := (Finset.mem_Ico.mp hmem).1
        omega
      refine ⟨fuel+1, q, by rw [iterate, hbody]; exact hrun, ?_⟩
      cases hends with
      | used other hmem hused hresult =>
        rw [inUse_addSlot (hother other hmem)] at hused
        exact .used other ((hsplit other).mpr (.inr hmem)) hused hresult
      | added hfree hadded hresult =>
        refine .added (fun other hmem => ?_) ?_ hresult
        · rcases (hsplit other).mp hmem with rfl | hmem
          · exact Bool.eq_false_iff.mpr huse
          · rw [← inUse_addSlot (hother other hmem)]
            exact hfree other hmem
        · have hslots : Finset.Ico slot (slot+(n+1)) = {slot} ∪ Finset.Ico (slot+1) (slot+1+n) := by
            ext other
            rw [hsplit, Finset.mem_union, Finset.mem_singleton]
          rw [hslots]
          exact (added_addSlot boxCount boxId acl maps slot).trans hadded

/-- Counting down from below zero never reports success. -/
theorem result_of_neg (hneg : p.slotCount < 0)
    (h : iterate (passSlot boxCount boxId acl) fuel p = some q) : q.result = -7 := by
  induction fuel generalizing p with
  | zero => cases h
  | succ fuel ih =>
    rw [iterate, passSlot, if_neg hneg.ne] at h
    by_cases hleast : p.slotCount = -2^31
    · rw [if_pos hleast] at h
      cases h
    · rw [if_neg hleast] at h
      by_cases huse : inUse acl p.maps p.aipsSlot = true
      · rw [if_pos huse] at h
        obtain rfl := Option.some.inj h
        rfl
      · rw [if_neg huse] at h
        exact ih (show p.slotCount-1 < 0 by omega) h

/-- Slots that are not exclusively in use. -/
def freeSlots (maps : Bitmaps) : Finset ℕ :=
  (Finset.range (2^8)).filter fun slot => BitArray.get maps.exc slot = false

theorem freeSlots_card_le (maps : Bitmaps) : (freeSlots maps).card ≤ 2^8 :=
  (Finset.card_filter_le _ _).trans (Finset.card_range _).le

/-- A pass that goes round again has counted down and has found its slot free. -/
theorem passSlot_next (h : passSlot boxCount boxId acl p = .next q) :
    p.slotCount ≠ 0 ∧ inUse acl p.maps p.aipsSlot = false ∧ q.slotCount = p.slotCount-1 ∧
      q.aipsSlot = (p.aipsSlot+1)%2^8 ∧ q.maps = addSlot boxCount boxId acl p.maps p.aipsSlot := by
  unfold passSlot at h
  split_ifs at h with hzero hleast huse
  cases h
  exact ⟨hzero, Bool.eq_false_iff.mpr huse, rfl, rfl, rfl⟩

theorem passSlot_ne_hang (h : -2^31 < p.slotCount) : passSlot boxCount boxId acl p ≠ .hang := by
  unfold passSlot
  split_ifs with hzero hleast huse
  · exact fun heq => nomatch heq
  · omega
  · exact fun heq => nomatch heq
  · exact fun heq => nomatch heq

/-- An exclusive request ends below zero: no slot is added twice. -/
theorem terminates_exclusive (hacl : acl &&& taclShared = 0) (hslot : p.aipsSlot < 2^8)
    (hcount : -2^8 < p.slotCount) (hneg : p.slotCount < 0) :
    Terminates (passSlot boxCount boxId acl) p := by
  -- what the loop has counted is covered by the slots that have gone out of the free ones
  refine terminates_of_measure
    (fun p => p.aipsSlot < 2^8 ∧ p.slotCount < 0 ∧
      -2^10+((freeSlots p.maps).card : ℤ) < p.slotCount)
    (fun p => (freeSlots p.maps).card) (fun p hp => passSlot_ne_hang ?_) (fun p q hp hnext => ?_)
    ⟨hslot, hneg, ?_⟩
  · have hpos : (0 : ℤ) ≤ (freeSlots p.maps).card := Int.natCast_nonneg _
    omega
  · obtain ⟨-, hfree, hqcount, hqslot, hqmaps⟩ := passSlot_next hnext
    have hexc := (added_addSlot boxCount boxId acl p.maps p.aipsSlot).exc
    have hnot : BitArray.get p.maps.exc p.aipsSlot = false :=
      (Bool.or_eq_false_iff.mp hfree).1
    have hlt : (freeSlots q.maps).card < (freeSlots p.maps).card := by
      refine Finset.card_lt_card (Finset.ssubset_iff_of_subset ?_ |>.mpr ⟨p.aipsSlot, ?_, ?_⟩)
      · intro slot hmem
        rw [freeSlots, Finset.mem_filter, hqmaps, hexc, Bool.or_eq_false_iff] at hmem
        exact Finset.mem_filter.mpr ⟨hmem.1, hmem.2.1⟩
      · exact Finset.mem_filter.mpr ⟨Finset.mem_range.mpr hp.1, hnot⟩
      · rw [freeSlots, Finset.mem_filter, hqmaps, hexc]
        simp [hacl]
    refine ⟨⟨?_, ?_, ?_⟩, hlt⟩
    · rw [hqslot]
      exact Nat.mod_lt _ (by decide)
    · omega
    · omega
  · have hle := freeSlots_card_le p.maps
    omega

/-- A pass comes closer to a slot that is still ahead, round the end of the
slots. -/
theorem distance_succ {used slot : ℕ} (hused : used < 2^8) (hslot : slot < 2^8)
    (hne : slot ≠ used) : (used+2^8-slot)%2^8 = (used+2^8-(slot+1)%2^8)%2^8+1 := by
  rcases Nat.lt_or_ge slot used with hlt | hge
  · have hnext : (slot+1)%2^8 = slot+1 := Nat.mod_eq_of_lt (by omega)
    rw [hnext]
    omega
  · omega

/-- A slot that is exclusively in use ends the loop below zero. -/
theorem terminates_of_used {used : ℕ} (hused : used < 2^8)
    (hexc : BitArray.get p.maps.exc used = true) (hslot : p.aipsSlot < 2^8)
    (hcount : -2^8 < p.slotCount) (hneg : p.slotCount < 0) :
    Terminates (passSlot boxCount boxId acl) p := by
  -- the distance to the slot in use bounds what is still to be counted
  refine terminates_of_measure
    (fun p => p.aipsSlot < 2^8 ∧ p.slotCount < 0 ∧ BitArray.get p.maps.exc used = true ∧
      -2^10+(((used+2^8-p.aipsSlot)%2^8 : ℕ) : ℤ) < p.slotCount)
    (fun p => (used+2^8-p.aipsSlot)%2^8) (fun p hp => passSlot_ne_hang ?_)
    (fun p q hp hnext => ?_) ?_
  · omega
  · obtain ⟨-, hfree, hqcount, hqslot, hqmaps⟩ := passSlot_next hnext
    have hne : p.aipsSlot ≠ used := by
      intro heq
      rw [inUse, heq, hp.2.2.1] at hfree
      cases hfree
    have hkept : BitArray.get q.maps.exc used = true := by
      rw [hqmaps, (added_addSlot boxCount boxId acl p.maps p.aipsSlot).exc, hp.2.2.1, Bool.true_or]
    obtain ⟨hpslot, hpneg, -, hpcount⟩ := hp
    rw [hqslot, hqcount]
    rw [distance_succ hused hpslot hne] at hpcount ⊢
    generalize (used+2^8-(p.aipsSlot+1)%2^8)%2^8 = distance at hpcount ⊢
    exact ⟨⟨Nat.mod_lt _ (by decide), by omega, hkept, by omega⟩, Nat.lt_succ_self distance⟩
  · exact ⟨hslot, hneg, hexc, by omega⟩

/-- A request for sharing never ends below zero, where no slot is exclusively in
use. -/
theorem not_terminates_shared (hacl : acl &&& taclShared ≠ 0) (hslot : p.aipsSlot < 2^8)
    (hneg : p.slotCount < 0) (hexc : ∀ slot < 2^8, BitArray.get p.maps.exc slot = false) :
    ¬Terminates (passSlot boxCount boxId acl) p := by
  rintro ⟨fuel, hfuel⟩
  induction fuel generalizing p with
  | zero => cases hfuel
  | succ fuel ih =>
    have hfree : ¬inUse acl p.maps p.aipsSlot = true := by
      rw [inUse, hexc _ hslot, decide_eq_false hacl, Bool.and_false]
      exact Bool.false_ne_true
    rw [iterate, passSlot, if_neg hneg.ne] at hfuel
    split_ifs at hfuel with hleast
    · cases hfuel
    · refine ih (p := {p with
        aipsSlot := (p.aipsSlot+1)%2^8
        slotCount := p.slotCount-1
        maps := addSlot boxCount boxId acl p.maps p.aipsSlot}) (Nat.mod_lt _ (by decide))
        (show p.slotCount-1 < 0 by omega) (fun slot hlt => ?_) hfuel
      rw [(added_addSlot boxCount boxId acl p.maps p.aipsSlot).exc, hexc slot hlt,
        decide_eq_false fun h => hacl h.1]
      rfl

end Loop

/-! ## Calls -/

section Calls

variable {boxCount boxId : ℕ} {start size acl : Word} {maps maps' : Bitmaps} {code : ℤ}

/-- Where the loop starts. -/
def entryPass (start size : Word) (maps : Bitmaps) : Pass :=
  ⟨firstSlot start, (slotEnd start size : ℤ)-firstSlot start, maps, 0⟩

/-- A refused request returns an error and changes nothing. -/
theorem returns_refused (boxCount boxId : ℕ) (maps : Bitmaps) (h : Refused start size acl) :
    ∃ error ≠ 1, ∀ code maps', Returns boxCount boxId start size acl maps code maps' ↔
      code = error ∧ maps' = maps := by
  obtain ⟨error, hne, herror⟩ := checkSlots_error h
  refine ⟨error, hne, fun code maps' => ?_⟩
  simp only [Returns, vmpuAipsAdd, herror, Option.some.injEq, Prod.mk.injEq]
  exact ⟨fun ⟨_, hcode, hmaps⟩ => ⟨hcode.symm, hmaps.symm⟩,
    fun ⟨hcode, hmaps⟩ => ⟨0, hcode.symm, hmaps.symm⟩⟩

/-- Any other request returns as its loop ends. -/
theorem returns_iff (h : ¬Refused start size acl) :
    Returns boxCount boxId start size acl maps code maps' ↔
      ∃ fuel q, iterate (passSlot boxCount boxId acl) fuel (entryPass start size maps) = some q ∧
        q.result = code ∧ q.maps = maps' := by
  refine exists_congr fun fuel => ?_
  simp only [vmpuAipsAdd, checkSlots_ok h, Option.map_eq_some_iff, Prod.mk.injEq]
  rfl

theorem slotEnd_lt (start size : Word) : slotEnd start size < 2^8 := Nat.mod_lt _ (by decide)

/-- The loop over a number of slots that is not negative. -/
theorem entry_ends (boxCount boxId : ℕ) (acl : Word) (maps : Bitmaps)
    (hle : firstSlot start ≤ slotEnd start size) :
    ∃ fuel q, iterate (passSlot boxCount boxId acl) fuel (entryPass start size maps) = some q ∧
      Ends boxCount boxId acl (Finset.Ico (firstSlot start) (slotEnd start size)) maps q := by
  have hsum : firstSlot start+(slotEnd start size-firstSlot start) = slotEnd start size :=
    Nat.add_sub_cancel' hle
  have hlt := slotEnd_lt start size
  obtain ⟨fuel, q, hrun, hends⟩ := loop_ends boxCount boxId acl maps (firstSlot start)
    (slotEnd start size-firstSlot start) (by omega) 0
  rw [hsum] at hends
  rw [Int.ofNat_sub hle] at hrun
  exact ⟨fuel, q, hrun, hends⟩

/-- What a call that reports success has done: it has added the slots that were
counted, and none of them was in use. -/
theorem returns_one (h : Returns boxCount boxId start size acl maps 1 maps') :
    ¬Refused start size acl ∧ firstSlot start ≤ slotEnd start size ∧
      (∀ slot ∈ Finset.Ico (firstSlot start) (slotEnd start size), inUse acl maps slot = false) ∧
      Added boxCount boxId acl (Finset.Ico (firstSlot start) (slotEnd start size)) maps maps' := by
  by_cases hrefused : Refused start size acl
  · obtain ⟨error, hne, hreturns⟩ := returns_refused boxCount boxId maps hrefused
    exact absurd ((hreturns 1 maps').mp h).1.symm hne
  obtain ⟨fuel, q, hrun, hresult, rfl⟩ := (returns_iff hrefused).mp h
  by_cases hle : firstSlot start ≤ slotEnd start size
  · obtain ⟨fuel', q', hrun', hends⟩ := entry_ends boxCount boxId acl maps hle
    obtain rfl := iterate_unique hrun hrun'
    cases hends with
    | used slot _ _ hseven =>
      rw [hseven] at hresult
      cases hresult
    | added hfree hadded _ => exact ⟨hrefused, hle, hfree, hadded⟩
  · have hneg : (entryPass start size maps).slotCount < 0 :=
      Int.sub_neg_of_lt (Int.ofNat_lt.mpr (not_le.mp hle))
    rw [result_of_neg hneg hrun] at hresult
    cases hresult

/-- A call returns exactly when its loop ends. -/
theorem returns_of_terminates (h : ¬Refused start size acl) :
    (∃ code maps', Returns boxCount boxId start size acl maps code maps') ↔
      Terminates (passSlot boxCount boxId acl) (entryPass start size maps) := by
  simp only [returns_iff h, Terminates, Option.isSome_iff_exists]
  constructor
  · rintro ⟨code, maps', fuel, q, hrun, -⟩
    exact ⟨fuel, q, hrun⟩
  · rintro ⟨fuel, q, hrun⟩
    exact ⟨q.result, q.maps, fuel, q, hrun, rfl, rfl⟩

/-- With a number of slots that is right the call is right. -/
theorem grantsExactly_of_lt (hrefused : ¬Refused start size acl)
    (hlt : firstSlot start+slotsFor size < 2^8) :
    GrantsExactly boxCount boxId start size acl maps := by
  have hend : slotEnd start size = firstSlot start+slotsFor size := Nat.mod_eq_of_lt hlt
  have hle : firstSlot start ≤ slotEnd start size := hend ▸ Nat.le_add_right _ _
  have hmax : slotEnd start size ≤ slotMax := by
    by_contra hgt
    exact hrefused (.inr (.inr (.inr (.inr (not_le.mp hgt)))))
  refine ⟨?_, fun maps' hreturns => ⟨fun i hi => by omega, fun b slot => ?_⟩⟩
  · obtain ⟨fuel, q, hrun, -⟩ := entry_ends boxCount boxId acl maps hle
    exact ⟨q.result, q.maps, (returns_iff hrefused).mpr ⟨fuel, q, hrun, rfl, rfl⟩⟩
  · obtain ⟨-, -, -, hadded⟩ := returns_one hreturns
    rw [hadded.box, hend]
    simp only [Finset.mem_Ico]

/-- With a number of slots that has wrapped, but is not negative, the call must
meet a slot in use. -/
theorem grantsExactly_wrapped_iff (hrefused : ¬Refused start size acl)
    (hwrap : ¬firstSlot start+slotsFor size < 2^8)
    (hle : firstSlot start ≤ slotEnd start size) :
    GrantsExactly boxCount boxId start size acl maps ↔
      ∃ slot, firstSlot start ≤ slot ∧ slot < slotEnd start size ∧ inUse acl maps slot := by
  obtain ⟨fuel, q, hrun, hends⟩ := entry_ends boxCount boxId acl maps hle
  have hreturns : Returns boxCount boxId start size acl maps q.result q.maps :=
    (returns_iff hrefused).mpr ⟨fuel, q, hrun, rfl, rfl⟩
  constructor
  · intro hgrants
    cases hends with
    | used slot hslot huse _ =>
      obtain ⟨hlow, hhigh⟩ := Finset.mem_Ico.mp hslot
      exact ⟨slot, hlow, hhigh, huse⟩
    | added _ _ hresult =>
      rw [hresult] at hreturns
      have hfirst : firstSlot start < slotMax := by
        have hrange := not_not.mp fun hout => hrefused (.inl hout)
        exact firstSlot_lt hrange
      -- the slot after the last one of the bridges is among those asked for
      have hlast := (hgrants.2 q.maps hreturns).1 (slotMax-firstSlot start)
        (by unfold slotMax at *; omega)
      omega
  · rintro ⟨slot, hlow, hhigh, huse⟩
    refine ⟨⟨_, _, hreturns⟩, fun maps' hone => ?_⟩
    have hfree := (returns_one hone).2.2.1 slot (Finset.mem_Ico.mpr ⟨hlow, hhigh⟩)
    rw [hfree] at huse
    cases huse

/-- With a negative number of slots the call must end. -/
theorem grantsExactly_negative_iff (hrefused : ¬Refused start size acl)
    (hneg : slotEnd start size < firstSlot start) :
    GrantsExactly boxCount boxId start size acl maps ↔
      acl &&& taclShared = 0 ∨ ∃ slot < 2^8, BitArray.get maps.exc slot := by
  have hslot : (entryPass start size maps).aipsSlot < 2^8 := by
    have hrange := not_not.mp fun hout => hrefused (.inl hout)
    exact (firstSlot_lt hrange).trans (by decide)
  have hcount : -2^8 < (entryPass start size maps).slotCount := by
    change -2^8 < (slotEnd start size : ℤ)-firstSlot start
    change firstSlot start < 2^8 at hslot
    omega
  have hbelow : (entryPass start size maps).slotCount < 0 :=
    Int.sub_neg_of_lt (Int.ofNat_lt.mpr hneg)
  have hends : GrantsExactly boxCount boxId start size acl maps ↔
      Terminates (passSlot boxCount boxId acl) (entryPass start size maps) := by
    rw [← returns_of_terminates hrefused]
    refine ⟨And.left, fun h => ⟨h, fun maps' hone => ?_⟩⟩
    exact absurd (returns_one hone).2.1 (not_le.mpr hneg)
  rw [hends]
  constructor
  · intro hterminates
    by_contra hnone
    rw [not_or] at hnone
    refine not_terminates_shared hnone.1 hslot hbelow (fun slot hlt => ?_) hterminates
    exact Bool.eq_false_iff.mpr fun hexc => hnone.2 ⟨slot, hlt, hexc⟩
  · rintro (hacl | ⟨used, hused, hexc⟩)
    · exact terminates_exclusive hacl hslot hcount hbelow
    · exact terminates_of_used hused hexc hslot hcount hbelow

/-- A call ends and adds exactly the slots that it was asked for if and only if
the number of slots has not wrapped, or the request is refused before it is
used, or a slot in use ends the loop. -/
theorem grantsExactly_iff (boxCount boxId : ℕ) (start size acl : Word) (maps : Bitmaps) :
    GrantsExactly boxCount boxId start size acl maps ↔ Counted start size acl maps := by
  unfold Counted
  by_cases hrefused : Refused start size acl
  · refine iff_of_true ?_ (.inl hrefused)
    obtain ⟨error, hne, hreturns⟩ := returns_refused boxCount boxId maps hrefused
    exact ⟨⟨error, maps, (hreturns _ _).mpr ⟨rfl, rfl⟩⟩,
      fun maps' hone => absurd ((hreturns 1 maps').mp hone).1.symm hne⟩
  by_cases hlt : firstSlot start+slotsFor size < 2^8
  · exact iff_of_true (grantsExactly_of_lt hrefused hlt) (.inr (.inl hlt))
  simp only [hrefused, hlt, false_or]
  rcases Nat.lt_or_ge (slotEnd start size) (firstSlot start) with hneg | hle
  · rw [grantsExactly_negative_iff hrefused hneg]
    refine ⟨fun h => .inr ⟨hneg, h⟩, ?_⟩
    rintro (⟨slot, hlow, hhigh, -⟩ | ⟨-, h⟩)
    · omega
    · exact h
  · rw [grantsExactly_wrapped_iff hrefused hlt hle]
    refine ⟨.inl, ?_⟩
    rintro (h | ⟨hneg, -⟩)
    · exact h
    · omega

/-- The bitmaps before the first call. -/
def noPeripherals : Bitmaps := ⟨fun _ _ => 0, fun _ => 0, fun _ => 0⟩

/-- UVISOR_TACLDEF_PERIPH. -/
def tacldefPeriph : Word :=
  BandedMemory.taclPeripheral ||| ArmMpu.taclUread ||| taclUwrite ||| ArmMpu.taclSread |||
    ArmMpu.taclSwrite ||| taclSizeRoundUp

/-- A request for 261 slots from the first one is granted with five slots. -/
theorem grantsExactly_fails :
    slotsFor 0x105000 = 261 ∧
      (∃ maps', Returns 2 1 0x40000000 0x105000 tacldefPeriph noPeripherals 1 maps' ∧
        BitArray.get (maps'.box 1) 4 = true ∧ BitArray.get (maps'.box 1) 5 = false) ∧
      ¬GrantsExactly 2 1 0x40000000 0x105000 tacldefPeriph noPeripherals := by
  have hrun : ((vmpuAipsAdd 6 2 1 0x40000000 0x105000 tacldefPeriph noPeripherals).map fun r =>
      (r.1, BitArray.get (r.2.box 1) 4, BitArray.get (r.2.box 1) 5)) = some (1, true, false) := by
    decide +kernel
  obtain ⟨⟨code, maps'⟩, hadd, heq⟩ := Option.map_eq_some_iff.mp hrun
  simp only [Prod.mk.injEq] at heq
  obtain ⟨rfl, hfour, hfive⟩ := heq
  have hreturns : Returns 2 1 0x40000000 0x105000 tacldefPeriph noPeripherals 1 maps' := ⟨6, hadd⟩
  refine ⟨by decide +kernel, ⟨maps', hreturns, hfour, hfive⟩, fun hgrants => ?_⟩
  have hbit := (hgrants.2 maps' hreturns).2 1 5
  rw [hfive, eq_comm, Bool.or_eq_false_iff] at hbit
  exact absurd hbit.2 (by decide +kernel)

end Calls

end Uvisor.AipsAdd
