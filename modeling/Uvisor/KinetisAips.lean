import Uvisor.Execution
import Mathlib.Logic.Function.Iterate
import Mathlib.Data.List.Induction
import Mathlib.Tactic.Common

/-!
# Switching the peripheral bridges of Kinetis

The two peripheral bridges have a PACR nibble for each of their slots, eight to
a word. A box has a bitmap of the slots that it may use. A switch goes through
the bitmaps of both boxes, 32 slots at a time, and writes the words in which
the boxes differ. The registers are never read, so a switch is the list of the
words that it writes. A full rewrite is a switch from a box to itself.
-/

namespace Uvisor.KinetisAips

open Execution

/-- A register or a part of a bitmap. -/
abbrev Word := BitVec 32

/-! ## Registers -/

/-- AIPS0_BASE. -/
def aips0Base : ℕ := 0x40000000

/-- AIPS1_BASE. -/
def aips1Base : ℕ := 0x40080000

/-- Offset of PACRA. -/
def pacraOffset : ℕ := 0x20

/-- A register and the value that is written to it. -/
structure Write where
  /-- Address of the register. -/
  address : ℕ
  /-- Its new value. -/
  value : Word
  deriving DecidableEq

/-- The registers after some writes. -/
def written (memory : ℕ → Word) (writes : List Write) : ℕ → Word :=
  writes.foldl (fun memory write => Function.update memory write.address write.value) memory

/-! ## The switch -/

/-- AIPSx_SLOT_MAX. -/
def slotMax : ℕ := 0xFE

/-- AIPSx_DWORDS. -/
def dwords : ℕ := (slotMax+31)/32

/-- PACRx_DEFAULT_MASK. -/
def pacrDefaultMask : Word := 0x44444444

/-- Contents of `g_aipsx_box`, by box and by word of the bitmap. -/
abbrev Acls := ℕ → ℕ → Word

/-- Where the loops of a switch stand. -/
structure Pass where
  /-- What has been written so far. -/
  writes : List Write
  /-- The next register. -/
  ppacr : ℕ
  /-- The bitmap of the destination, shifted by what has been seen of it. -/
  dstAcl : Word
  /-- The changes in the bitmap, shifted in the same way. -/
  modAcl : Word

/-- Move one bit of a bitmap to the next nibble of a register. -/
def pushNibble (packed : Word × Word) : Word × Word :=
  (packed.1 <<< 4 ||| (packed.2 &&& 1) <<< 2, packed.2 >>> 1)

/-- Write the register of the next eight slots unless there is nothing to update. -/
def updatePacr (st : Pass) : Pass :=
  if st.modAcl.setWidth 8 = 0#8 then
    { st with
      dstAcl := st.dstAcl >>> 8
      modAcl := st.modAcl >>> 8
      ppacr := st.ppacr+4 }
  else
    let packed := pushNibble^[8] (0, st.dstAcl)
    { writes := st.writes ++ [⟨st.ppacr, packed.1 ^^^ pacrDefaultMask⟩]
      dstAcl := packed.2
      modAcl := st.modAcl >>> 8
      ppacr := st.ppacr+4 }

/-- Step over the reserved words and to the second bridge. -/
def skipReserved (i ppacr : ℕ) : ℕ :=
  if i = 1 ∨ i = 5 then ppacr+16
  else if i = 4 then aips1Base+pacraOffset
  else ppacr

/-- Apply the changes to four registers in a row. -/
def updatePacrs (writes : List Write) (ppacr : ℕ) (dstAcl modAcl : Word) : List Write × ℕ :=
  let pass := updatePacr^[4] ⟨writes, ppacr, dstAcl, modAcl⟩
  (pass.writes, pass.ppacr)

/-- Update the registers of one word of the bitmap. -/
def updateDword (acls : Acls) (srcBox dstBox : ℕ) (st : List Write × ℕ) (i : ℕ) :
    List Write × ℕ :=
  let dstAcl := acls dstBox i
  let srcAcl := acls srcBox i
  let ppacr := skipReserved i st.2
  if srcBox = dstBox then updatePacrs st.1 ppacr dstAcl 0xFFFFFFFF
  else
    let modAcl := srcAcl ^^^ dstAcl
    if modAcl = 0 then (st.1, ppacr+16) else updatePacrs st.1 ppacr dstAcl modAcl

/-- The writes of a switch from one box to another. -/
def vmpuAipsSwitch (acls : Acls) (srcBox dstBox : ℕ) : List Write :=
  ((List.range dwords).foldl (updateDword acls srcBox dstBox) ([], aips0Base+pacraOffset)).1

/-- The writes of further switches, each from the box of the one before. -/
def switches (acls : Acls) : ℕ → List ℕ → List Write
  | _, [] => []
  | srcBox, dstBox :: dstBoxes =>
    vmpuAipsSwitch acls srcBox dstBox ++ switches acls dstBox dstBoxes

/-- The writes of a run. Its first switch is a full rewrite. -/
def run (acls : Acls) (box : ℕ) (dstBoxes : List ℕ) : List Write :=
  vmpuAipsSwitch acls box box ++ switches acls box dstBoxes

/-- The box in which a run ends. -/
def lastBox (box : ℕ) (dstBoxes : List ℕ) : ℕ := dstBoxes.getLastD box

/-! ## What the bridges grant -/

/-- Whether a box may use a slot. -/
def aclBit (acls : Acls) (box slot : ℕ) : Bool := (acls box (slot/32)).getLsbD (slot%32)

/-- Address of the register of a slot. A bridge has 128 slots, and four reserved
words after its first four registers. -/
def pacrAddress (slot : ℕ) : ℕ :=
  let word := slot%128/8
  (if slot < 128 then aips0Base else aips1Base)+pacraOffset+4*word+(if word < 4 then 0 else 16)

/-- The nibble of a slot in its register, the first slot in the most significant one. -/
def nibble (value : Word) (slot : ℕ) : BitVec 4 := value.extractLsb' (4*(7-slot%8)) 4

/-! ## One register -/

section Registers

variable {acls : Acls} {srcBox dstBox : ℕ}

/-- The register of eight slots of a word of the bitmap. -/
def pacr (acl : Word) (j : ℕ) : Word := (pushNibble^[8] (0, acl >>> (8*j))).1 ^^^ pacrDefaultMask

theorem pushNibble_iterate_snd (acl : Word) (k : ℕ) :
    (pushNibble^[k] (0, acl)).2 = acl >>> k := by
  induction k with
  | zero => simp
  | succ k ih => rw [Function.iterate_succ_apply', pushNibble, ih, BitVec.shiftRight_add]

/-- The bits of a register whose first nibbles have been filled. -/
theorem pushNibble_iterate_fst (acl : Word) (k i : ℕ) :
    (pushNibble^[k] (0, acl)).1.getLsbD i =
      (decide (i < 32 ∧ i%4 = 2 ∧ i/4 < k) && acl.getLsbD (k-1-i/4)) := by
  induction k generalizing i with
  | zero => simp
  | succ k ih =>
    have hsnd := pushNibble_iterate_snd acl k
    rw [Function.iterate_succ_apply', pushNibble, hsnd]
    simp only [BitVec.getLsbD_or, BitVec.getLsbD_shiftLeft, ih]
    have hbit : ∀ n, (acl >>> k &&& 1).getLsbD n = (decide (n = 0) && acl.getLsbD k) := by
      intro n
      rw [BitVec.getLsbD_and, BitVec.getLsbD_ushiftRight]
      cases n with
      | zero => simp
      | succ n => simp
    rw [hbit]
    by_cases hlow : i < 4
    · have hdiv : i/4 = 0 := by omega
      have hmod : i%4 = i := by omega
      rcases Nat.lt_trichotomy i 2 with h | rfl | h
      · have hne : i ≠ 2 := by omega
        simp [hlow, hmod, h, hne]
      · simp
      · have h0 : i-2 ≠ 0 := by omega
        have hne : i ≠ 2 := by omega
        simp [hlow, hmod, h0, hne]
    · have hdiv : (i-4)/4 = i/4-1 := by omega
      have hmod : (i-4)%4 = i%4 := by omega
      have h0 : i-2 ≠ 0 := by omega
      have hindex : k-1-(i/4-1) = k+1-1-i/4 := by omega
      have hcond : (decide (i < 32) && decide (i-4 < 32 ∧ i%4 = 2 ∧ i/4-1 < k)) =
          decide (i < 32 ∧ i%4 = 2 ∧ i/4 < k+1) := by
        rw [← Bool.decide_and]
        exact decide_eq_decide.mpr (by omega)
      rw [hdiv, hmod, hindex, decide_eq_false hlow, decide_eq_false h0, Bool.not_false,
        Bool.and_true, ← Bool.and_assoc, hcond, Bool.false_and, Bool.and_false, Bool.or_false]

theorem nibble_getLsbD {value : Word} {slot i : ℕ} :
    (nibble value slot).getLsbD i = (decide (i < 4) && value.getLsbD (4*(7-slot%8)+i)) := by
  rw [nibble, BitVec.getLsbD_extractLsb']

/-- A slot of a register is open if its bit is set. -/
theorem nibble_pacr (acl : Word) (j slot : ℕ) :
    nibble (pacr acl j) slot = if acl.getLsbD (8*j+slot%8) then 0 else 4 := by
  apply BitVec.eq_of_getLsbD_eq
  intro i hi
  have hmask : pacrDefaultMask.getLsbD (4*(7-slot%8)+i) = decide (i = 2) := by
    have hall : ∀ n < 8, ∀ i < 4, pacrDefaultMask.getLsbD (4*(7-n)+i) = decide (i = 2) := by
      decide
    exact hall _ (Nat.mod_lt _ (by decide)) i hi
  have hposition : (4*(7-slot%8)+i)/4 = 7-slot%8 := by omega
  have hrest : (4*(7-slot%8)+i)%4 = i := by omega
  have hindex : 8*j+(8-1-(7-slot%8)) = 8*j+slot%8 := by omega
  rw [nibble_getLsbD, pacr, BitVec.getLsbD_xor, hmask, pushNibble_iterate_fst, hposition, hrest,
    BitVec.getLsbD_ushiftRight, hindex]
  have hfour : (4#4).getLsbD i = decide (i = 2) := by
    have hall : ∀ i < 4, (4#4).getLsbD i = decide (i = 2) := by decide
    exact hall i hi
  have hin : 4*(7-slot%8)+i < 32 ∧ 7-slot%8 < 8 := by omega
  by_cases h2 : i = 2
  · subst h2
    cases acl.getLsbD (8*j+slot%8) <;> simp [hin]
  · cases acl.getLsbD (8*j+slot%8) <;> simp [h2, hfour]

/-- The writes for the first eights of slots of a word of the bitmap in which
something changes. -/
def pacrWrites (ppacr : ℕ) (dstAcl modAcl : Word) (k : ℕ) : List Write :=
  ((List.range k).filter fun j => (modAcl >>> (8*j)).setWidth 8 ≠ 0#8).map fun j =>
    ⟨ppacr+4*j, pacr dstAcl j⟩

/-- A register is written if something changes, and the loop goes on to the next. -/
theorem updatePacr_eq (writes : List Write) (ppacr : ℕ) (dstAcl modAcl : Word) :
    updatePacr ⟨writes, ppacr, dstAcl, modAcl⟩ =
      ⟨writes ++ if modAcl.setWidth 8 = 0#8 then [] else [⟨ppacr, pacr dstAcl 0⟩],
        ppacr+4, dstAcl >>> 8, modAcl >>> 8⟩ := by
  by_cases hzero : modAcl.setWidth 8 = 0#8
  · simp [updatePacr, hzero]
  · have hfirst : pacr dstAcl 0 = (pushNibble^[8] (0, dstAcl)).1 ^^^ pacrDefaultMask := by
      simp [pacr]
    simp only [updatePacr, if_neg hzero, pushNibble_iterate_snd, hfirst]

theorem updatePacr_iterate (writes : List Write) (ppacr : ℕ) (dstAcl modAcl : Word) (k : ℕ) :
    updatePacr^[k] ⟨writes, ppacr, dstAcl, modAcl⟩ =
      ⟨writes ++ pacrWrites ppacr dstAcl modAcl k, ppacr+4*k, dstAcl >>> (8*k), modAcl >>> (8*k)⟩ := by
  induction k with
  | zero => simp [pacrWrites]
  | succ k ih =>
    have hshift : ∀ w : Word, w >>> (8*(k+1)) = w >>> (8*k) >>> 8 := fun w => by
      rw [← BitVec.shiftRight_add, Nat.mul_succ]
    have hlast : pacrWrites ppacr dstAcl modAcl (k+1) =
        pacrWrites ppacr dstAcl modAcl k ++
          if (modAcl >>> (8*k)).setWidth 8 = 0#8 then [] else [⟨ppacr+4*k, pacr dstAcl k⟩] := by
      simp only [pacrWrites, List.range_succ, List.filter_append, List.map_append]
      by_cases hzero : (modAcl >>> (8*k)).setWidth 8 = 0#8 <;> simp [List.filter, hzero]
    have hfirst : pacr (dstAcl >>> (8*k)) 0 = pacr dstAcl k := by simp [pacr]
    rw [Function.iterate_succ_apply', ih, updatePacr_eq, hlast, hshift, hshift, hfirst,
      List.append_assoc]
    rfl

/-- Address of the first register of a word of the bitmap. -/
def dwordAddress (i : ℕ) : ℕ :=
  (if i < 4 then aips0Base else aips1Base)+pacraOffset+16*(i%4)+(if i%4 = 0 then 0 else 16)

/-- The slots in which a switch changes something, or all of them. -/
def changes (acls : Acls) (srcBox dstBox i : ℕ) : Word :=
  if srcBox = dstBox then 0xFFFFFFFF else acls srcBox i ^^^ acls dstBox i

/-- The writes for one word of the bitmap. -/
def dwordWrites (acls : Acls) (srcBox dstBox i : ℕ) : List Write :=
  pacrWrites (dwordAddress i) (acls dstBox i) (changes acls srcBox dstBox i) 4

/-- A word of the bitmap is written when the pointer has reached its registers. -/
theorem updateDword_eq {writes : List Write} {ppacr i : ℕ}
    (h : skipReserved i ppacr = dwordAddress i) :
    updateDword acls srcBox dstBox (writes, ppacr) i =
      (writes ++ dwordWrites acls srcBox dstBox i, dwordAddress i+16) := by
  simp only [updateDword, h, dwordWrites, changes]
  by_cases hsame : srcBox = dstBox
  · simp only [if_pos hsame, updatePacrs, updatePacr_iterate]
  · simp only [if_neg hsame]
    by_cases hzero : acls srcBox i ^^^ acls dstBox i = 0
    · simp [hzero, pacrWrites]
    · simp only [if_neg hzero, updatePacrs, updatePacr_iterate]

/-- The pointer before a word of the bitmap. -/
def dwordStart : ℕ → ℕ
  | 0 => aips0Base+pacraOffset
  | i+1 => dwordAddress i+16

/-- The gaps are where the pointer skips them. -/
theorem skipReserved_dwordStart {i : ℕ} (h : i < dwords) :
    skipReserved i (dwordStart i) = dwordAddress i := by
  have hall : ∀ i < dwords, skipReserved i (dwordStart i) = dwordAddress i := by decide
  exact hall i h

/-- A switch writes the registers of the changed slots in order. -/
theorem foldl_updateDword {n : ℕ} (h : n ≤ dwords) :
    (List.range n).foldl (updateDword acls srcBox dstBox) ([], aips0Base+pacraOffset) =
      ((List.range n).flatMap (dwordWrites acls srcBox dstBox), dwordStart n) := by
  refine foldl_range_eq (fun i =>
    ((List.range i).flatMap (dwordWrites acls srcBox dstBox), dwordStart i)) rfl fun i hi => ?_
  rw [updateDword_eq (skipReserved_dwordStart (by omega)), List.range_succ, List.flatMap_append,
    List.flatMap_singleton]
  rfl

theorem vmpuAipsSwitch_eq :
    vmpuAipsSwitch acls srcBox dstBox =
      (List.range dwords).flatMap (dwordWrites acls srcBox dstBox) := by
  rw [vmpuAipsSwitch, foldl_updateDword (Nat.le_refl _)]

/-- Whether a switch writes a register. -/
def Changed (acls : Acls) (srcBox dstBox i j : ℕ) : Prop :=
  (changes acls srcBox dstBox i >>> (8*j)).setWidth 8 ≠ 0#8

theorem mem_vmpuAipsSwitch {w : Write} :
    w ∈ vmpuAipsSwitch acls srcBox dstBox ↔
      ∃ i < dwords, ∃ j < 4, Changed acls srcBox dstBox i j ∧
        w = ⟨dwordAddress i+4*j, pacr (acls dstBox i) j⟩ := by
  rw [vmpuAipsSwitch_eq]
  simp only [List.mem_flatMap, List.mem_range, dwordWrites, pacrWrites, List.mem_map,
    List.mem_filter, decide_eq_true_eq, Changed]
  constructor
  · rintro ⟨i, hi, j, ⟨hj, hchanged⟩, rfl⟩
    exact ⟨i, hi, j, hj, hchanged, rfl⟩
  · rintro ⟨i, hi, j, hj, hchanged, rfl⟩
    exact ⟨i, hi, j, ⟨hj, hchanged⟩, rfl⟩

/-- Where nothing changes, the boxes have the same register. -/
theorem pacr_eq_of_not_changed {i j : ℕ} (h : ¬Changed acls srcBox dstBox i j)
    (hne : srcBox ≠ dstBox) : pacr (acls srcBox i) j = pacr (acls dstBox i) j := by
  rw [Changed, not_not, changes, if_neg hne] at h
  have hbits : ∀ n < 8, (acls srcBox i).getLsbD (8*j+n) = (acls dstBox i).getLsbD (8*j+n) := by
    intro n hn
    have hbit := congrArg (fun w : BitVec 8 => w.getLsbD n) h
    simpa [hn] using hbit
  apply BitVec.eq_of_getLsbD_eq
  intro m hm
  simp only [pacr, BitVec.getLsbD_xor, pushNibble_iterate_fst, BitVec.getLsbD_ushiftRight]
  by_cases hin : m < 32 ∧ m%4 = 2 ∧ m/4 < 8
  · rw [hbits (8-1-m/4) (by omega)]
  · simp [hin]

/-- In a full rewrite every register counts as changed. -/
theorem changed_self {i j : ℕ} (hj : j < 4) : Changed acls dstBox dstBox i j := by
  rw [Changed, changes, if_pos rfl]
  have hall : ∀ j < 4, ((0xFFFFFFFF : Word) >>> (8*j)).setWidth 8 ≠ 0#8 := by decide
  exact hall j hj

/-- No two parts of a bitmap share a register. -/
theorem dwordAddress_inj {i j i' j' : ℕ} (hi : i < dwords) (hi' : i' < dwords) (hj : j < 4)
    (hj' : j' < 4) (h : dwordAddress i+4*j = dwordAddress i'+4*j') : i = i' ∧ j = j' := by
  have hdwords : dwords = 8 := rfl
  simp only [dwordAddress, aips0Base, aips1Base, pacraOffset] at h
  split at h <;> split at h <;> split at h <;> split at h <;> omega

end Registers

/-! ## Runs -/

section Runs

variable {acls : Acls} {memory : ℕ → Word} {writes later : List Write}

theorem written_append :
    written memory (writes ++ later) = written (written memory writes) later :=
  List.foldl_append

/-- A register that is not written keeps its value. -/
theorem written_kept {address : ℕ} (h : ∀ w ∈ writes, w.address ≠ address) :
    written memory writes address = memory address := by
  induction writes generalizing memory with
  | nil => rfl
  | cons w writes ih =>
    obtain ⟨hw, hrest⟩ := List.forall_mem_cons.mp h
    have hlater := @ih (Function.update memory w.address w.value) hrest
    rw [Function.update_of_ne hw.symm] at hlater
    exact hlater

/-- A register has the value that all writes to it agree on. -/
theorem written_value {address : ℕ} {value : Word}
    (hvalue : ∀ w ∈ writes, w.address = address → w.value = value)
    (hmem : ∃ w ∈ writes, w.address = address) : written memory writes address = value := by
  induction writes using List.reverseRecOn with
  | nil => simp at hmem
  | append_singleton writes last ih =>
    rw [written_append]
    by_cases hlast : last.address = address
    · have hlastValue := hvalue last (by simp) hlast
      subst hlast hlastValue
      exact Function.update_self ..
    · have hkept := @written_kept (written memory writes) [last] address (by simpa using hlast)
      rw [hkept]
      refine ih (fun w hw => hvalue w (List.mem_append_left _ hw)) ?_
      obtain ⟨w, hw, haddress⟩ := hmem
      rcases List.mem_append.mp hw with hw | hw
      · exact ⟨w, hw, haddress⟩
      · rw [List.mem_singleton.mp hw] at haddress
        exact absurd haddress hlast

/-- The registers grant what a box may use. -/
def Loaded (acls : Acls) (memory : ℕ → Word) (box : ℕ) : Prop :=
  ∀ i < dwords, ∀ j < 4, memory (dwordAddress i+4*j) = pacr (acls box i) j

/-- A switch from the box whose rights are loaded, or to itself, loads those of
its destination. -/
theorem switch_loaded {srcBox dstBox : ℕ} (h : srcBox = dstBox ∨ Loaded acls memory srcBox) :
    Loaded acls (written memory (vmpuAipsSwitch acls srcBox dstBox)) dstBox := by
  intro i hi j hj
  by_cases hchanged : Changed acls srcBox dstBox i j
  · refine written_value (fun w hw haddress => ?_)
      ⟨_, mem_vmpuAipsSwitch.mpr ⟨i, hi, j, hj, hchanged, rfl⟩, rfl⟩
    obtain ⟨i', hi', j', hj', -, rfl⟩ := mem_vmpuAipsSwitch.mp hw
    obtain ⟨rfl, rfl⟩ := dwordAddress_inj hi' hi hj' hj haddress
    rfl
  · have hne : srcBox ≠ dstBox := by
      rintro rfl
      exact hchanged (changed_self hj)
    rw [written_kept, (h.resolve_left hne) i hi j hj, pacr_eq_of_not_changed hchanged hne]
    intro w hw haddress
    obtain ⟨i', hi', j', hj', hchanged', rfl⟩ := mem_vmpuAipsSwitch.mp hw
    obtain ⟨rfl, rfl⟩ := dwordAddress_inj hi' hi hj' hj haddress
    exact hchanged hchanged'

/-- Further switches keep the rights of the last box loaded. -/
theorem switches_loaded {box : ℕ} {dstBoxes : List ℕ} (h : Loaded acls memory box) :
    Loaded acls (written memory (switches acls box dstBoxes)) (lastBox box dstBoxes) := by
  induction dstBoxes generalizing box memory with
  | nil => exact h
  | cons dstBox dstBoxes ih =>
    rw [switches, written_append, lastBox, List.getLastD_cons]
    exact ih (switch_loaded (.inr h))

/-- A switch writes registers of slots only. -/
theorem mem_switches {box : ℕ} {dstBoxes : List ℕ} {w : Write}
    (h : w ∈ switches acls box dstBoxes) : ∃ src dst, w ∈ vmpuAipsSwitch acls src dst := by
  induction dstBoxes generalizing box with
  | nil => cases h
  | cons dstBox dstBoxes ih =>
    rcases List.mem_append.mp h with h | h
    · exact ⟨box, dstBox, h⟩
    · exact ih h

theorem mem_run {box : ℕ} {dstBoxes : List ℕ} {w : Write} (h : w ∈ run acls box dstBoxes) :
    ∃ src dst, w ∈ vmpuAipsSwitch acls src dst := by
  rcases List.mem_append.mp h with h | h
  · exact ⟨box, box, h⟩
  · exact mem_switches h

/-- The register of a slot, as the register map has it. -/
theorem pacrAddress_eq {slot : ℕ} (h : slot < 256) :
    pacrAddress slot = dwordAddress (slot/32)+4*(slot%32/8) := by
  simp only [pacrAddress, dwordAddress, aips0Base, aips1Base]
  split <;> split <;> split <;> split <;> omega

/-- After any run the slots of both bridges are open to the last box exactly as
its bitmap says, whatever the registers held before. The run writes no other
register, and one full rewrite for that box gives the same registers. -/
theorem run_loads (acls : Acls) (memory : ℕ → Word) (box : ℕ) (dstBoxes : List ℕ) :
    let last := lastBox box dstBoxes
    (∀ slot < 256, nibble (written memory (run acls box dstBoxes) (pacrAddress slot)) slot =
      if aclBit acls last slot then 0 else 4) ∧
      (∀ w ∈ run acls box dstBoxes, ∃ slot < 256, w.address = pacrAddress slot) ∧
      written memory (run acls box dstBoxes) = written memory (vmpuAipsSwitch acls last last) := by
  intro last
  have hrun : Loaded acls (written memory (run acls box dstBoxes)) last := by
    rw [run, written_append]
    exact switches_loaded (switch_loaded (.inl rfl))
  refine ⟨fun slot hslot => ?_, fun w hw => ?_, ?_⟩
  · have hdword : slot/32 < dwords := by
      have hdwords : dwords = 8 := rfl
      omega
    have hbit : 8*(slot%32/8)+slot%8 = slot%32 := by omega
    rw [pacrAddress_eq hslot, hrun _ hdword _ (by omega), nibble_pacr, hbit, aclBit]
  · obtain ⟨src, dst, hw⟩ := mem_run hw
    obtain ⟨i, hi, j, hj, -, rfl⟩ := mem_vmpuAipsSwitch.mp hw
    have hdwords : dwords = 8 := rfl
    have hdword : (32*i+8*j)/32 = i := by omega
    have hfour : (32*i+8*j)%32/8 = j := by omega
    exact ⟨32*i+8*j, by omega, by rw [pacrAddress_eq (by omega), hdword, hfour]⟩
  · have hfull : Loaded acls (written memory (vmpuAipsSwitch acls last last)) last :=
      switch_loaded (.inl rfl)
    funext address
    by_cases hpacr : ∃ i < dwords, ∃ j < 4, address = dwordAddress i+4*j
    · obtain ⟨i, hi, j, hj, rfl⟩ := hpacr
      rw [hrun i hi j hj, hfull i hi j hj]
    · have hother : ∀ src dst, ∀ w ∈ vmpuAipsSwitch acls src dst, w.address ≠ address := by
        intro src dst w hw haddress
        obtain ⟨i, hi, j, hj, -, rfl⟩ := mem_vmpuAipsSwitch.mp hw
        exact hpacr ⟨i, hi, j, hj, haddress.symm⟩
      rw [written_kept (hother last last), written_kept]
      intro w hw
      obtain ⟨src, dst, hw⟩ := mem_run hw
      exact hother src dst w hw

end Runs

end Uvisor.KinetisAips
