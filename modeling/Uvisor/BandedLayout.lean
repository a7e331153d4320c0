import Uvisor.BandedMemory
import Uvisor.BoxSections

/-!
# Where the boxes are placed on ARMv8-M and Kinetis

The regions of the boxes follow each other from the start of the memory for
secure boxes, with a band between them. Nothing stops them at its end: they
stay inside exactly when their sizes and the bands add up to no more than the
memory has. The space that the tables reserve is computed elsewhere, when the
boxes are compiled.
-/

namespace Uvisor.BandedLayout

open ArmMpu (Word)
open PageAllocator (wordSub)
open AlignedRegions BoxEnumeration BoxMemory BandedMemory BoxOrder BoxPlacement
open KinetisMpu (regionRoundUp)

/-! ## Statement -/

/-- The region for the stack of a box. -/
def stackRegion (u : UvisorConfig) (reg : Registration) : Span :=
  let size := regionRoundUp (BitVec.ofNat 32 (minStack (configAt u reg.position).stackSize))
  ⟨wordSub reg.stackPointer size.toNat, size.toNat⟩

/-- The region for its BSS sections. -/
def bssRegion (reg : Registration) : Span :=
  ⟨reg.bss, (regionRoundUp (BitVec.ofNat 32 reg.bssSize)).toNat⟩

/-- Both regions of a box. -/
def boxRegions (u : UvisorConfig) (reg : Registration) : List Span :=
  [stackRegion u reg, bssRegion reg]

/-- The regions of the secure boxes below an identifier. -/
def secureRegions (u : UvisorConfig) (regs : ℕ → Option Registration) (n : ℕ) : List Span :=
  (List.range' 1 (n-1)).flatMap fun boxId => ((regs boxId).map (boxRegions u)).getD []

/-- There is a band between two regions. -/
def Separate (a b : Span) : Prop :=
  Apart stackBandSize.toNat a b ∨ Apart stackBandSize.toNat b a

/-- The regions of the secure boxes below an identifier lie in the memory for
secure boxes, are separate, and are as large as their tables ask for. -/
structure Banded (u : UvisorConfig) (regs : ℕ → Option Registration) (n : ℕ) : Prop where
  /-- They lie in the memory for secure boxes. -/
  inside : ∀ span ∈ secureRegions u regs n,
    u.bssBoxesStart ≤ span.start ∧ span.ends ≤ u.bssBoxesEnd
  /-- They are disjoint, with a band between any two of them. -/
  separate : (secureRegions u regs n).Pairwise Separate
  /-- They have the bytes that the tables ask for. -/
  large : ∀ boxId, 1 ≤ boxId → boxId < n → ∀ reg, regs boxId = some reg →
    (configAt u reg.position).stackSize ≤ (stackRegion u reg).size ∧
      (configAt u reg.position).bss.sizes.sum ≤ (bssRegion reg).size

/-- A region of the table is that region of memory. -/
def SpanRegion (span : Span) (region : ArmMpu.MpuRegion) : Prop :=
  region.start = BitVec.ofNat 32 span.start ∧
    region.ends = BitVec.ofNat 32 span.start+BitVec.ofNat 32 span.size

/-- A size rounded up to full descriptors, without overflow. -/
def roundUp32 (size : ℕ) : ℕ := (size+31)/32*32

/-- Bytes of the region for the stack of a box. -/
def stackBytes (u : UvisorConfig) (index : ℕ) : ℕ :=
  roundUp32 (minStack (configAt u index).stackSize)

/-- Bytes of the region for its BSS sections. -/
def bssBytes (u : UvisorConfig) (index : ℕ) : ℕ := roundUp32 (configAt u index).bss.sizes.sum

/-- Sizes of the regions of a box. -/
def regionSizes (u : UvisorConfig) (index : ℕ) : List ℕ := [stackBytes u index, bssBytes u index]

/-- Sizes of the regions of the secure boxes below an identifier. -/
def bandedSizes (u : UvisorConfig) (order : ℕ → ℕ) (n : ℕ) : List ℕ :=
  (secureBoxes n order).flatMap (regionSizes u)

/-- The first position, after a band. -/
def bandStart (u : UvisorConfig) : ℕ := roundUp32 u.bssBoxesStart+128

/-- The position after the regions, each with a band, in exact arithmetic. -/
def areaEnd (u : UvisorConfig) (order : ℕ → ℕ) (n : ℕ) : ℕ :=
  layoutEnd (fun pos _ => pos) 128 (bandStart u) (bandedSizes u order n)

/-- The regions and the bands between them fit into the memory for secure boxes.
The band after the last region may lie outside. -/
def AreaFits (u : UvisorConfig) (order : ℕ → ℕ) (n : ℕ) : Prop :=
  n ≤ 1 ∨ areaEnd u order n ≤ u.bssBoxesEnd+128

/-! ## Words -/

section Words

/-- Rounding in 32 bits. -/
theorem regionRoundUp_toNat (size : ℕ) :
    (regionRoundUp (BitVec.ofNat 32 size)).toNat = roundUp32 size%2^32 := by
  rw [regionRoundUp, SauConfiguration.regionRoundDown_toNat, BitVec.toNat_add, BitVec.toNat_ofNat]
  unfold roundUp32
  change (size%2^32+31)%2^32/32*32 = _
  omega

/-- The position before the first call. -/
theorem memPos_zero (bssBoxesStart : ℕ) :
    (memPos bssBoxesStart 0).toNat = (roundUp32 bssBoxesStart+128)%2^32 := by
  rw [BandedMemory.memPos, if_pos rfl, BitVec.toNat_add, regionRoundUp_toNat]
  change (roundUp32 bssBoxesStart%2^32+128)%2^32 = _
  omega

theorem memPos_of_ne {bssBoxesStart : ℕ} {pos : Word} (h : pos ≠ 0) :
    memPos bssBoxesStart pos = pos := if_neg h

end Words

/-! ## One box -/

section Box

variable {μ : Type} {table : RegionTable μ} {asserts : Bool} {u : UvisorConfig}
  {addAcl : ℕ → AclItem → μ → Option μ} {psp n index : ℕ} {s t : BandedMemory.State μ}
  {reg : Registration}

/-- Access control lists do not move the position. -/
theorem configureBoxPeripherals_boxMemPos {config : BoxConfig} {acls : List AclItem}
    (h : configureBoxPeripherals (bandedDriver table asserts u addAcl) u s n config =
      some (acls, t)) : t.boxMemPos = s.boxMemPos := by
  refine configureBoxPeripherals_rel (R := fun s t => t.boxMemPos = s.boxMemPos) (fun _ => rfl)
    ?_ ?_ h
  · intro a b c hab hbc
    exact hbc.trans hab
  · intro a b item hitem
    obtain ⟨m, -, rfl⟩ := Option.map_eq_some_iff.mp hitem
    rfl

/-- What vmpu_acl_sram adds, and what it returns. -/
theorem vmpuAclSram_adds {bssBoxesStart bssSize stackSize bss stackPointer : ℕ}
    (h : vmpuAclSram table asserts bssBoxesStart s n bssSize stackSize =
      some (bss, stackPointer, t)) :
    ∃ added, table.regionAddStaticAcl n (memPos bssBoxesStart s.boxMemPos)
        (regionRoundUp (BitVec.ofNat 32 (minStack stackSize))) tacldefStack s.table = some added ∧
      table.regionAddStaticAcl n (BitVec.ofNat 32 bss)
        (regionRoundUp (BitVec.ofNat 32 bssSize)) ArmMpu.tacldefData added = some t.table ∧
      stackPointer = (memPos bssBoxesStart s.boxMemPos+
        regionRoundUp (BitVec.ofNat 32 (minStack stackSize))).toNat ∧
      bss = (memPos bssBoxesStart s.boxMemPos+
        regionRoundUp (BitVec.ofNat 32 (minStack stackSize))+stackBandSize).toNat ∧
      t.boxMemPos = memPos bssBoxesStart s.boxMemPos+
        regionRoundUp (BitVec.ofNat 32 (minStack stackSize))+stackBandSize+
        (regionRoundUp (BitVec.ofNat 32 bssSize)+stackBandSize) := by
  obtain ⟨added, hstack, h⟩ := Option.bind_eq_some_iff.mp h
  dsimp only at h
  split at h
  · cases h
  obtain ⟨last, hbss, h⟩ := Option.map_eq_some_iff.mp h
  obtain ⟨rfl, hrest⟩ := Prod.mk.inj h
  obtain ⟨rfl, rfl⟩ := Prod.mk.inj hrest
  refine ⟨added, hstack, ?_, rfl, rfl, rfl⟩
  rw [BitVec.ofNat_toNat, BitVec.setWidth_eq]
  exact hbss

/-- The start of the regions of a box, and its sizes in 32 bits. -/
structure Added (u : UvisorConfig) (pos : Word) (index : ℕ) (reg : Registration) (t : Word) :
    Prop where
  /-- The table asks for a stack. -/
  stack : minStackSize ≤ (configAt u index).stackSize
  /-- It asks for a box index. -/
  boxIndex : boxIndexSize ≤ (configAt u index).bss.sizes.sum
  /-- The place of the table. -/
  position : reg.position = index
  /-- The region for the stack. -/
  stackRegion_eq : stackRegion u reg = ⟨pos.toNat, stackBytes u index%2^32⟩
  /-- The region for the BSS sections, a band after the stack. -/
  bssRegion_eq : bssRegion reg =
    ⟨(pos.toNat+stackBytes u index+128)%2^32, bssBytes u index%2^32⟩
  /-- The position after both. -/
  next : t.toNat = (pos.toNat+stackBytes u index+128+(bssBytes u index+128))%2^32

/-- One pass of the loop for a secure box. -/
theorem registerBox_added (hn : n ≠ 0)
    (h : registerBox (bandedDriver table asserts u addAcl) u psp s n index = some (reg, t)) :
    Added u (memPos u.bssBoxesStart s.boxMemPos) index reg t.boxMemPos := by
  obtain ⟨s₁, hregistered⟩ := registerBox_registered h
  have hpos := configureBoxPeripherals_boxMemPos hregistered.peripherals
  obtain ⟨-, -, -, hsp, hbss, hnext⟩ := vmpuAclSram_adds (hregistered.aclSram hn)
  have hsum : (configAt u index).bss.index ≤ (configAt u index).bss.sizes.sum :=
    Nat.le_add_right _ _
  have htotal : (regionRoundUp (BitVec.ofNat 32 (configAt u index).bss.total)).toNat =
      bssBytes u index%2^32 := by
    rw [regionRoundUp_toNat, total_eq]
    unfold bssBytes roundUp32
    omega
  have hstackSize : (regionRoundUp (BitVec.ofNat 32 (minStack
      (configAt u index).stackSize))).toNat = stackBytes u index%2^32 :=
    regionRoundUp_toNat _
  have hband : stackBandSize.toNat = 128 := rfl
  have hlt := (memPos u.bssBoxesStart s.boxMemPos).isLt
  generalize memPos u.bssBoxesStart s.boxMemPos = pos at *
  refine ⟨hregistered.stack_le hn, hregistered.boxIndex_le.trans hsum, hregistered.position,
    ?_, ?_, ?_⟩
  · have hstart : wordSub reg.stackPointer (stackBytes u index%2^32) = pos.toNat := by
      rw [hsp, BitVec.toNat_add, hstackSize]
      unfold wordSub
      omega
    rw [BandedLayout.stackRegion, hregistered.position, hstackSize, hstart]
  · have hstart : reg.bss = (pos.toNat+stackBytes u index+128)%2^32 := by
      rw [hbss, BitVec.toNat_add, BitVec.toNat_add, hband, hstackSize]
      omega
    rw [bssRegion, hregistered.bssSize, htotal, hstart]
  · rw [hpos, hnext, BitVec.toNat_add, BitVec.toNat_add, BitVec.toNat_add, BitVec.toNat_add, hband,
      hstackSize, htotal]
    omega

/-- The public box leaves the position as it is. -/
theorem registerBox_zero
    (h : registerBox (bandedDriver table asserts u addAcl) u psp s 0 index = some (reg, t)) :
    t.boxMemPos = s.boxMemPos := by
  obtain ⟨s₁, hregistered⟩ := registerBox_registered h
  rw [configureBoxPeripherals_boxMemPos hregistered.peripherals, hregistered.public_eq]

end Box

/-! ## The layout -/

section Layout

variable {u : UvisorConfig} {order : ℕ → ℕ} {n : ℕ} {regs : ℕ → Option Registration}
  {reg : Registration} {pos next : Word}

theorem areaEnd_of_le_one (u : UvisorConfig) (order : ℕ → ℕ) (hn : n ≤ 1) :
    areaEnd u order n = bandStart u := by
  have hempty : secureBoxes n order = [] := by
    rw [secureBoxes, show n-1 = 0 by omega]
    rfl
  rw [areaEnd, bandedSizes, hempty]
  rfl

theorem bandedSizes_succ (u : UvisorConfig) (order : ℕ → ℕ) (hn : 1 ≤ n) :
    bandedSizes u order (n+1) = bandedSizes u order n ++ regionSizes u (order n) := by
  rw [bandedSizes, secureBoxes_succ hn, List.flatMap_append, List.flatMap_singleton]
  rfl

theorem areaEnd_succ (u : UvisorConfig) (order : ℕ → ℕ) (hn : 1 ≤ n) :
    areaEnd u order (n+1) =
      areaEnd u order n+stackBytes u (order n)+128+bssBytes u (order n)+128 := by
  rw [areaEnd, bandedSizes_succ u order hn, layoutEnd_append]
  rfl

theorem le_areaEnd (u : UvisorConfig) (order : ℕ → ℕ) (n : ℕ) :
    bandStart u ≤ areaEnd u order n :=
  le_layoutEnd fun _ _ _ => le_rfl

/-- The regions after one more box. -/
theorem secureRegions_succ (u : UvisorConfig) (regs : ℕ → Option Registration) (hn : 1 ≤ n) :
    secureRegions u (Function.update regs n (some reg)) (n+1) =
      secureRegions u regs n ++ boxRegions u reg := by
  obtain ⟨k, rfl⟩ : ∃ k, n = k+1 := ⟨n-1, by omega⟩
  rw [secureRegions, Nat.add_sub_cancel, List.range'_concat, List.flatMap_append,
    List.flatMap_singleton, show 1+1*k = k+1 by omega, Function.update_self]
  congr 1
  refine List.flatMap_congr fun boxId hbox => ?_
  rw [List.mem_range'_1] at hbox
  rw [Function.update_of_ne (by omega)]

/-- The regions below an identifier are laid out from the first position on. -/
structure Laid (u : UvisorConfig) (order : ℕ → ℕ) (n : ℕ) (regs : ℕ → Option Registration)
    (pos : Word) : Prop where
  /-- The regions. -/
  regions : secureRegions u regs n =
    layout (fun pos _ => pos) 128 (bandStart u) (bandedSizes u order n)
  /-- The position after them, which may be the end of the address space. -/
  pos : (n ≤ 1 ∧ pos = 0) ∨ (1 < n ∧ pos.toNat = areaEnd u order n%2^32)
  /-- They have the bytes that the tables ask for. -/
  large : ∀ boxId, 1 ≤ boxId → boxId < n → ∀ reg, regs boxId = some reg →
    (configAt u reg.position).stackSize ≤ (stackRegion u reg).size ∧
      (configAt u reg.position).bss.sizes.sum ≤ (bssRegion reg).size

theorem roundUp32_ge (size : ℕ) : size ≤ roundUp32 size := by
  unfold roundUp32
  omega

/-- A secure box is laid out, if the memory has room for it. -/
theorem Laid.succ (hn : 1 ≤ n) (hend : u.bssBoxesEnd < 2^32) (h : Laid u order n regs pos)
    (hfits : areaEnd u order (n+1) ≤ u.bssBoxesEnd+128)
    (hadded : Added u (memPos u.bssBoxesStart pos) (order n) reg next) :
    Laid u order (n+1) (Function.update regs n (some reg)) next := by
  rw [areaEnd_succ u order hn] at hfits
  have hfirst := le_areaEnd u order n
  have hstart : (memPos u.bssBoxesStart pos).toNat = areaEnd u order n := by
    rcases h.pos with ⟨hone, rfl⟩ | ⟨_, hpos⟩
    · rw [memPos_zero, areaEnd_of_le_one u order hone]
      rw [areaEnd_of_le_one u order hone] at hfits
      exact Nat.mod_eq_of_lt (show bandStart u < 2^32 by omega)
    · rw [Nat.mod_eq_of_lt (by omega)] at hpos
      have hne : pos ≠ 0 := fun hzero => by
        rw [hzero] at hpos
        have hband : 128 ≤ bandStart u := Nat.le_add_left _ _
        have hzeroNat : (0 : Word).toNat = 0 := rfl
        omega
      rw [memPos_of_ne hne, hpos]
  have hstack := hadded.stackRegion_eq
  have hbss := hadded.bssRegion_eq
  rw [hstart, Nat.mod_eq_of_lt (by omega)] at hstack
  rw [hstart, Nat.mod_eq_of_lt (by omega), Nat.mod_eq_of_lt (by omega)] at hbss
  refine ⟨?_, .inr ⟨by omega, ?_⟩, fun boxId hlow hhigh found hfound => ?_⟩
  · rw [secureRegions_succ u regs hn, h.regions, bandedSizes_succ u order hn, layout_append,
      boxRegions, hstack, hbss]
    rfl
  · rw [hadded.next, hstart, areaEnd_succ u order hn, ← Nat.add_assoc]
  · by_cases hbox : boxId = n
    · subst hbox
      rw [Function.update_self] at hfound
      obtain rfl := Option.some.inj hfound
      rw [hadded.position, hstack, hbss]
      refine ⟨le_trans ?_ (roundUp32_ge _), roundUp32_ge _⟩
      unfold minStack
      split_ifs <;> omega
    · rw [Function.update_of_ne hbox] at hfound
      exact h.large boxId hlow (by omega) found hfound

/-- The region for the stack of the first secure box comes first. -/
theorem Laid.first_mem (hn : 1 < n) (h : Laid u order n regs pos) :
    ⟨bandStart u, stackBytes u (order 1)⟩ ∈ secureRegions u regs n := by
  obtain ⟨k, rfl⟩ : ∃ k, n = k+2 := ⟨n-2, by omega⟩
  rw [h.regions, bandedSizes, secureBoxes, show k+2-1 = k+1 by omega, List.range'_succ,
    List.map_cons, List.flatMap_cons]
  exact List.mem_cons_self

/-- A region that is separate from one at the first position comes after it.
There is no room below for a region of full descriptors. -/
theorem separate_first {first span : Span} (h : Separate first span)
    (hfirst : first.start = bandStart u) (hstart : u.bssBoxesStart ≤ span.start)
    (hsize : 32 ≤ span.size) : bandStart u+128 ≤ span.start := by
  have hband : stackBandSize.toNat = 128 := rfl
  unfold Separate Apart Span.ends at h
  rw [hband, hfirst] at h
  unfold bandStart roundUp32 at h ⊢
  omega

/-- A secure box that is inside the memory and separate from the others has not
been placed beyond the end of the address space. -/
theorem Laid.fits_succ (hn : 1 ≤ n) (hstart : u.bssBoxesStart < 2^32) (hend : u.bssBoxesEnd < 2^32)
    (h : Laid u order n regs pos) (hfits : AreaFits u order n)
    (hadded : Added u (memPos u.bssBoxesStart pos) (order n) reg next)
    (hbanded : Banded u (Function.update regs n (some reg)) (n+1)) :
    areaEnd u order (n+1) ≤ u.bssBoxesEnd+128 := by
  obtain ⟨hinside, hseparate, hlarge⟩ := hbanded
  rw [secureRegions_succ u regs hn] at hinside hseparate
  obtain ⟨-, hpair, hcross⟩ := List.pairwise_append.mp hseparate
  have hstackMem : stackRegion u reg ∈ boxRegions u reg := List.mem_cons_self
  have hbssMem : bssRegion reg ∈ boxRegions u reg := List.mem_cons_of_mem _ List.mem_cons_self
  obtain ⟨hstackLow, hstackHigh⟩ := hinside _ (List.mem_append_right _ hstackMem)
  obtain ⟨hbssLow, hbssHigh⟩ := hinside _ (List.mem_append_right _ hbssMem)
  obtain ⟨hstackSize, hbssSize⟩ := hlarge n hn (Nat.lt_succ_self n) reg (Function.update_self _ _ _)
  have hstack := hadded.stack
  have hindex := hadded.boxIndex
  rw [hadded.position] at hstackSize hbssSize
  have hfirst := le_areaEnd u order n
  have hband : 128 ≤ bandStart u := Nat.le_add_left _ _
  have hmin : stackBytes u (order n) = roundUp32 (configAt u (order n)).stackSize := by
    rw [stackBytes, minStack, if_neg (not_lt.mpr hstack)]
  -- Rounding has not lost the sizes.
  have hstackBytes : (stackRegion u reg).size = stackBytes u (order n) := by
    rw [hadded.stackRegion_eq] at hstackSize ⊢
    rw [hmin] at hstackSize ⊢
    unfold minStackSize at hstack
    unfold roundUp32 at hstackSize ⊢
    dsimp only at hstackSize ⊢
    omega
  have hbssBytes : (bssRegion reg).size = bssBytes u (order n) := by
    rw [hadded.bssRegion_eq] at hbssSize ⊢
    unfold boxIndexSize at hindex
    unfold bssBytes roundUp32 at hbssSize ⊢
    dsimp only at hbssSize ⊢
    omega
  have hstackPos : (stackRegion u reg).start = (memPos u.bssBoxesStart pos).toNat := by
    rw [hadded.stackRegion_eq]
  have hbssPos : (bssRegion reg).start =
      ((memPos u.bssBoxesStart pos).toNat+stackBytes u (order n)+128)%2^32 := by
    rw [hadded.bssRegion_eq]
  have hstackLarge : 32 ≤ (stackRegion u reg).size := le_trans (by decide) (hstack.trans hstackSize)
  have hbssLarge : 32 ≤ (bssRegion reg).size := le_trans (by decide) (hindex.trans hbssSize)
  -- Neither the stack nor the BSS sections start behind the end.
  have hplace : (memPos u.bssBoxesStart pos).toNat = areaEnd u order n ∧
      bandStart u+128 ≤ (bssRegion reg).start := by
    rcases h.pos with ⟨hone, rfl⟩ | ⟨hmany, hpos⟩
    · rw [memPos_zero] at hstackPos ⊢
      rw [areaEnd_of_le_one u order hone]
      have hexact : (roundUp32 u.bssBoxesStart+128)%2^32 = bandStart u := by
        unfold bandStart
        unfold roundUp32 at hstackPos ⊢
        omega
      rw [hexact] at hstackPos ⊢
      refine ⟨rfl, separate_first ?_ hstackPos hbssLow hbssLarge⟩
      exact (List.pairwise_cons.mp hpair).1 _ List.mem_cons_self
    · have hmem := h.first_mem hmany
      have hafter := separate_first (hcross _ hmem _ hstackMem) rfl hstackLow hstackLarge
      refine ⟨?_, separate_first (hcross _ hmem _ hbssMem) rfl hbssLow hbssLarge⟩
      have hroom := hfits.resolve_left (by omega)
      rw [hstackPos] at hafter
      by_cases hzero : pos = 0
      · rw [hzero, memPos_zero] at hafter
        have hle : (roundUp32 u.bssBoxesStart+128)%2^32 ≤ bandStart u := Nat.mod_le _ _
        omega
      · rw [memPos_of_ne hzero, hpos] at hafter ⊢
        omega
  obtain ⟨hat, hbssAfter⟩ := hplace
  unfold Span.ends at hstackHigh hbssHigh
  rw [areaEnd_succ u order hn]
  omega

end Layout

/-! ## All boxes -/

section Boot

variable {μ : Type} {table : RegionTable μ} {asserts : Bool} {u : UvisorConfig}
  {addAcl : ℕ → AclItem → μ → Option μ} {order : ℕ → ℕ} {psp n : ℕ}
  {m m' : BandedMemory.State μ} {regs : ℕ → Option Registration} {reg : Registration}

/-- Fewer boxes need less memory. -/
theorem AreaFits.of_succ (h : AreaFits u order (n+1)) : AreaFits u order n := by
  by_cases hn : n ≤ 1
  · exact .inl hn
  · have hroom := h.resolve_left (by omega)
    rw [areaEnd_succ u order (by omega)] at hroom
    exact .inr (by omega)

/-- The regions of fewer boxes are banded too. -/
theorem Banded.of_succ (h : Banded u (Function.update regs n (some reg)) (n+1)) :
    Banded u regs n := by
  rcases Nat.eq_zero_or_pos n with rfl | hn
  · exact ⟨fun _ hmem => absurd hmem List.not_mem_nil, List.Pairwise.nil,
      fun _ _ hlt => absurd hlt (Nat.not_lt_zero _)⟩
  · obtain ⟨hinside, hseparate, hlarge⟩ := h
    rw [secureRegions_succ u regs hn] at hinside hseparate
    refine ⟨fun span hmem => hinside span (List.mem_append_left _ hmem),
      (List.pairwise_append.mp hseparate).1, fun boxId hlow hhigh found hfound => ?_⟩
    refine hlarge boxId hlow (by omega) found ?_
    rw [Function.update_of_ne (by omega)]
    exact hfound

/-- Before a secure box has been registered there is no region. -/
theorem laid_zero (u : UvisorConfig) (order : ℕ → ℕ) (hn : n ≤ 1) : Laid u order n regs 0 where
  regions := by
    rw [secureRegions, bandedSizes, secureBoxes, show n-1 = 0 by omega]
    rfl
  pos := .inl ⟨hn, rfl⟩
  large := fun boxId hlow hhigh => by omega

/-- The loop lays out the regions, if the memory has room for them. -/
theorem registerBoxes_laid (hend : u.bssBoxesEnd < 2^32) (hpos : m.boxMemPos = 0)
    (hfits : AreaFits u order n)
    (h : registerBoxes (bandedDriver table asserts u addAcl) u psp order m n = some (regs, m')) :
    Laid u order n regs m'.boxMemPos := by
  induction n generalizing regs m' with
  | zero =>
    obtain ⟨-, rfl⟩ := Prod.mk.inj (Option.some.inj h)
    rw [hpos]
    exact laid_zero u order (Nat.zero_le _)
  | succ n ih =>
    obtain ⟨before, m₁, reg, hbefore, hreg, rfl⟩ := registerBoxes_succ h
    have hlaid := ih hfits.of_succ hbefore
    rcases Nat.eq_zero_or_pos n with rfl | hn
    · -- The public box has no region.
      obtain ⟨-, rfl⟩ := Prod.mk.inj (Option.some.inj hbefore)
      rw [registerBox_zero hreg, hpos]
      exact laid_zero u order le_rfl
    · exact hlaid.succ hn hend (hfits.resolve_left (by omega)) (registerBox_added hn.ne' hreg)

/-- Boxes that are banded have been registered with room for all of them. -/
theorem registerBoxes_fits (hstart : u.bssBoxesStart < 2^32) (hend : u.bssBoxesEnd < 2^32)
    (hpos : m.boxMemPos = 0)
    (h : registerBoxes (bandedDriver table asserts u addAcl) u psp order m n = some (regs, m'))
    (hbanded : Banded u regs n) : AreaFits u order n := by
  induction n generalizing regs m' with
  | zero => exact .inl (Nat.zero_le _)
  | succ n ih =>
    obtain ⟨before, m₁, reg, hbefore, hreg, rfl⟩ := registerBoxes_succ h
    rcases Nat.eq_zero_or_pos n with rfl | hn
    · exact .inl le_rfl
    · have hfits := ih hbefore hbanded.of_succ
      have hlaid := registerBoxes_laid hend hpos hfits hbefore
      exact .inr (hlaid.fits_succ hn hstart hend hfits (registerBox_added hn.ne' hreg) hbanded)

/-- Regions that are laid out in a memory with room for them are banded. -/
theorem Laid.banded {pos : Word} (h : Laid u order n regs pos) (hfits : AreaFits u order n) :
    Banded u regs n := by
  have hplace : ∀ size ∈ bandedSizes u order n, ∀ pos : ℕ, pos ≤ pos := fun _ _ _ => le_rfl
  refine ⟨fun span hmem => ?_, ?_, h.large⟩
  · have hn : 1 < n := by
      by_contra hn
      rw [secureRegions, show n-1 = 0 by omega] at hmem
      cases hmem
    rw [h.regions] at hmem
    obtain ⟨hlow, hhigh⟩ := layout_within hplace hmem
    have hroom := hfits.resolve_left (by omega)
    have hround := roundUp32_ge u.bssBoxesStart
    change _ ≤ areaEnd u order n at hhigh
    unfold bandStart at hlow
    omega
  · rw [h.regions]
    exact (layout_apart hplace).imp .inl

/-- The regions of the secure boxes stay inside their memory, with a band
between them and the sizes that were asked for, exactly when the rounded sizes
and the bands fit into it. -/
theorem banded_iff (hstart : u.bssBoxesStart < 2^32) (hend : u.bssBoxesEnd < 2^32)
    (hpos : m.boxMemPos = 0)
    (h : registerBoxes (bandedDriver table asserts u addAcl) u psp order m n = some (regs, m')) :
    Banded u regs n ↔ AreaFits u order n :=
  ⟨registerBoxes_fits hstart hend hpos h,
    fun hfits => (registerBoxes_laid hend hpos hfits h).banded hfits⟩

end Boot

section Apart

variable {u : UvisorConfig} {regs : ℕ → Option Registration} {order : ℕ → ℕ} {n psp : ℕ}

/-- The regions of two boxes are separate. -/
theorem separate_of_banded (h : Banded u regs n) {a b : ℕ} {reg reg' : Registration}
    (ha : 1 ≤ a ∧ a < n) (hb : 1 ≤ b ∧ b < n) (hne : a ≠ b) (hreg : regs a = some reg)
    (hreg' : regs b = some reg') {span span' : Span} (hspan : span ∈ boxRegions u reg)
    (hspan' : span' ∈ boxRegions u reg') : Separate span span' := by
  have hpairs := (List.pairwise_flatMap.mp h.separate).2
  have hsymm : Std.Symm fun a b : ℕ =>
      ∀ x ∈ ((regs a).map (boxRegions u)).getD [],
        ∀ y ∈ ((regs b).map (boxRegions u)).getD [], Separate x y :=
    ⟨fun _ _ hab x hx y hy => (hab y hy x hx).symm⟩
  have hall := hpairs.forall (List.mem_range'_1.mpr (by omega) : a ∈ List.range' 1 (n-1))
    (List.mem_range'_1.mpr (by omega) : b ∈ List.range' 1 (n-1)) hne
  rw [hreg, hreg'] at hall
  exact hall span hspan span' hspan'

/-- Only the first identifiers are registered. -/
theorem lt_of_registered {μ : Type} {drv : Driver μ} {m m' : μ} {b : ℕ} {reg : Registration}
    (h : registerBoxes drv u psp order m n = some (regs, m')) (hreg : regs b = some reg) :
    b < n := by
  induction n generalizing regs m' with
  | zero =>
    obtain ⟨rfl, -⟩ := Prod.mk.inj (Option.some.inj h)
    cases hreg
  | succ n ih =>
    obtain ⟨before, m₁, last, hbefore, -, rfl⟩ := registerBoxes_succ h
    by_cases hb : b = n
    · omega
    · rw [Function.update_of_ne hb] at hreg
      exact (ih hbefore hreg).trans (Nat.lt_succ_self n)

/-- A band comes before the first region. -/
theorem Laid.bandStart_le {pos : Word} (h : Laid u order n regs pos) {span : Span}
    (hmem : span ∈ secureRegions u regs n) : bandStart u ≤ span.start := by
  rw [h.regions] at hmem
  exact (layout_within (fun _ _ _ => le_rfl) hmem).1

end Apart

/-! ## Two secure boxes -/

section Devices

open BoxAgreement

/-- The regions of a box are among those of the secure boxes. -/
theorem mem_secureRegions {u : UvisorConfig} {regs : ℕ → Option Registration} {n boxId : ℕ}
    {reg : Registration} {span : Span} (hlow : 1 ≤ boxId) (hhigh : boxId < n)
    (hreg : regs boxId = some reg) (h : span ∈ boxRegions u reg) :
    span ∈ secureRegions u regs n := by
  refine List.mem_flatMap.mpr ⟨boxId, List.mem_range'_1.mpr (by omega), ?_⟩
  rw [hreg]
  exact h

/-- The driver on ARMv8-M. -/
def sauDriver (u : UvisorConfig) : Driver (BandedMemory.State SauConfiguration.Config) :=
  bandedDriver (sauTable (boxCount u)) false u fun boxId item c =>
    (sauTable (boxCount u)).regionAddStaticAcl boxId (BitVec.ofNat 32 item.param1)
      (BitVec.ofNat 32 item.param2) (BitVec.ofNat 32 item.acl ||| taclUser) c

/-- The driver on Kinetis, for boxes without peripherals. -/
def kinetisDriver (u : UvisorConfig) : Driver (BandedMemory.State (Table × Unit)) :=
  bandedDriver (kinetisTable (fun _ _ _ _ _ => none) (boxCount u)) false u fun boxId item c =>
    (kinetisTable (fun _ _ _ _ _ => none) (boxCount u)).regionAddStaticAcl boxId
      (BitVec.ofNat 32 item.param1) (BitVec.ofNat 32 item.param2)
      (BitVec.ofNat 32 item.acl ||| taclUser) c

/-- No region has been added on ARMv8-M. -/
def sauCall : BandedMemory.State SauConfiguration.Config :=
  ⟨0, SauConfiguration.unprogrammed.config⟩

/-- No region has been added on Kinetis. -/
def kinetisCall : BandedMemory.State (Table × Unit) := ⟨0, BoxSubregions.firstCall.table, ()⟩

theorem threeConfigs_banded :
    ∃ regs m', registerBoxes (sauDriver (threeConfigs 64 4096)) (threeConfigs 64 4096) 0
        (fun i => i) sauCall 3 = some (regs, m') ∧
      (Banded (threeConfigs 64 4096) regs 3 ↔
        AreaFits (threeConfigs 64 4096) (fun i => i) 3) := by
  have hboot : (registerBoxes (sauDriver (threeConfigs 64 4096)) (threeConfigs 64 4096) 0
      (fun i => i) sauCall 3).isSome := by decide
  obtain ⟨⟨regs, m'⟩, hregs⟩ := Option.isSome_iff_exists.mp hboot
  exact ⟨regs, m', hregs, banded_iff (by decide) (by decide) rfl hregs⟩

/-- Sections of 64 KiB reach behind the end of a memory of 16 KiB on both ports,
and boot goes on. -/
theorem largeBox_not_banded :
    (∃ regs, vmpuEnumerateBoxes (sauDriver (threeConfigs 64 65536)) (threeConfigs 64 65536) 0
        .armv8m sauCall = some regs ∧ ¬Banded (threeConfigs 64 65536) regs 3) ∧
      ∃ regs, vmpuEnumerateBoxes (kinetisDriver (threeConfigs 64 65536)) (threeConfigs 64 65536) 0
        .kinetis kinetisCall = some regs ∧ ¬Banded (threeConfigs 64 65536) regs 3 := by
  have houtside : ∀ regs : ℕ → Option Registration,
      ((regs 2).map fun reg => (reg.bss, reg.bssSize)) = some (0x20002A80, 65576) →
      ¬Banded (threeConfigs 64 65536) regs 3 := by
    intro regs hfields hbanded
    obtain ⟨reg, hreg, hfields⟩ := Option.map_eq_some_iff.mp hfields
    obtain ⟨hbss, hsize⟩ := Prod.mk.inj hfields
    have hmem : bssRegion reg ∈ secureRegions (threeConfigs 64 65536) regs 3 :=
      mem_secureRegions (by decide) (by decide) hreg (List.mem_cons_of_mem _ List.mem_cons_self)
    have hends := (hbanded.inside _ hmem).2
    rw [bssRegion, hbss, hsize] at hends
    exact absurd hends (by decide)
  constructor
  · have hboot : (vmpuEnumerateBoxes (sauDriver (threeConfigs 64 65536)) (threeConfigs 64 65536) 0
        .armv8m sauCall).map (fun regs => (regs 2).map fun reg => (reg.bss, reg.bssSize)) =
        some (some (0x20002A80, 65576)) := by decide
    obtain ⟨regs, hregs, hfields⟩ := Option.map_eq_some_iff.mp hboot
    exact ⟨regs, hregs, houtside regs hfields⟩
  · have hboot : (vmpuEnumerateBoxes (kinetisDriver (threeConfigs 64 65536))
        (threeConfigs 64 65536) 0 .kinetis kinetisCall).map
        (fun regs => (regs 2).map fun reg => (reg.bss, reg.bssSize)) =
        some (some (0x20002A80, 65576)) := by decide
    obtain ⟨regs, hregs, hfields⟩ := Option.map_eq_some_iff.mp hboot
    exact ⟨regs, hregs, houtside regs hfields⟩

end Devices

/-! ## Alignment and the tables of the ports -/

section Aligned

variable {μ : Type} {table : RegionTable μ} {asserts : Bool} {u : UvisorConfig}
  {addAcl : ℕ → AclItem → μ → Option μ} {order : ℕ → ℕ} {psp n index : ℕ}
  {s t : BandedMemory.State μ} {regs : ℕ → Option Registration} {reg : Registration}

/-- The first position is aligned, and so is every position after it. -/
theorem memPos_dvd {pos : Word} (bssBoxesStart : ℕ) (h : 32 ∣ pos.toNat) :
    32 ∣ (memPos bssBoxesStart pos).toNat := by
  by_cases hzero : pos = 0
  · rw [hzero, memPos_zero]
    unfold roundUp32
    omega
  · rw [memPos_of_ne hzero]
    exact h

theorem regionRoundUp_dvd (size : ℕ) : 32 ∣ (regionRoundUp (BitVec.ofNat 32 size)).toNat := by
  rw [regionRoundUp_toNat]
  unfold roundUp32
  omega

/-- From an aligned position the BSS sections and the next position are
aligned. -/
theorem vmpuAclSram_dvd {bssBoxesStart bssSize stackSize bss stackPointer : ℕ}
    (haligned : 32 ∣ s.boxMemPos.toNat)
    (h : vmpuAclSram table asserts bssBoxesStart s n bssSize stackSize =
      some (bss, stackPointer, t)) : 32 ∣ bss ∧ 32 ∣ t.boxMemPos.toNat := by
  obtain ⟨-, -, -, -, hbss, hnext⟩ := vmpuAclSram_adds h
  have hpos := memPos_dvd bssBoxesStart haligned
  have hstack := regionRoundUp_dvd (minStack stackSize)
  have hsize := regionRoundUp_dvd bssSize
  have hband : stackBandSize.toNat = 128 := rfl
  rw [hbss, hnext]
  simp only [BitVec.toNat_add, hband]
  omega

/-- Before every box the position is aligned. -/
theorem registerBoxes_dvd (haligned : 32 ∣ s.boxMemPos.toNat)
    (h : registerBoxes (bandedDriver table asserts u addAcl) u psp order s n = some (regs, t)) :
    32 ∣ t.boxMemPos.toNat := by
  induction n generalizing regs t with
  | zero =>
    obtain ⟨-, rfl⟩ := Prod.mk.inj (Option.some.inj h)
    exact haligned
  | succ n ih =>
    obtain ⟨before, m₁, reg, hbefore, hreg, rfl⟩ := registerBoxes_succ h
    have hpos := ih hbefore
    obtain ⟨m₂, hregistered⟩ := registerBox_registered hreg
    rw [configureBoxPeripherals_boxMemPos hregistered.peripherals]
    rcases Nat.eq_zero_or_pos n with rfl | hn
    · rw [hregistered.public_eq]
      exact hpos
    · exact (vmpuAclSram_dvd hpos (hregistered.aclSram hn.ne')).2

/-- The memory of the next box is aligned to words. -/
theorem bandedDriver_aligned (haligned : 32 ∣ s.boxMemPos.toNat) :
    BoxSections.AlignedDriver (bandedDriver table asserts u addAcl) s := by
  intro boxId bssSize stackSize bssStart stackPointer m' h
  have hdvd := (vmpuAclSram_dvd haligned h).1
  obtain ⟨-, -, -, -, hbss, -⟩ := vmpuAclSram_adds h
  exact ⟨hbss ▸ BitVec.isLt _, Dvd.dvd.trans (by decide) hdvd⟩

/-- A region of a table, as a region of memory. -/
def memorySpan (region : ArmMpu.MpuRegion) : Span where
  start := region.start.toNat
  size := (region.ends-region.start).toNat

/-- A port records the region that it has added. -/
theorem memorySpan_lastRegion (hrecords : Records table) {m m' : μ} {start size acl : Word}
    (hacl : acl = tacldefStack ∨ acl = ArmMpu.tacldefData) (hstart : 32 ∣ start.toNat)
    (hsize : 32 ∣ size.toNat) (hne : size.toNat ≠ 0)
    (h : table.regionAddStaticAcl n start size acl m = some m') :
    memorySpan (table.lastRegion m' n) = ⟨start.toNat, size.toNat⟩ := by
  have hnonzero : size ≠ 0 := fun hzero => hne (by rw [hzero]; rfl)
  have haligned : ∀ x : Word, 32 ∣ x.toNat → x%32 = 0 := fun x hx =>
    (SauConfiguration.mod_eq_zero_iff x).mpr (Nat.mod_eq_zero_of_dvd hx)
  obtain ⟨hfound, hends⟩ := hrecords n start size acl m m' hacl (haligned start hstart) hnonzero
    (haligned size hsize) h
  have hlength : start+size-start = size := by
    rw [BitVec.add_comm, BitVec.add_sub_cancel]
  rw [memorySpan, hends, hfound, hlength]

/-- A port has recorded both regions of a box whose sizes have not been lost. -/
theorem registerBox_recorded (hrecords : Records table) (hn : n ≠ 0)
    (haligned : 32 ∣ s.boxMemPos.toNat)
    (h : registerBox (bandedDriver table asserts u addAcl) u psp s n index = some (reg, t))
    (hstack : (stackRegion u reg).size ≠ 0) (hbss : (bssRegion reg).size ≠ 0) :
    ∃ added last,
      table.regionAddStaticAcl n (memPos u.bssBoxesStart s.boxMemPos)
        (BitVec.ofNat 32 (stackRegion u reg).size) tacldefStack s.table = some added ∧
      memorySpan (table.lastRegion added n) = stackRegion u reg ∧
      table.regionAddStaticAcl n (BitVec.ofNat 32 reg.bss)
        (BitVec.ofNat 32 (bssRegion reg).size) ArmMpu.tacldefData added = some last ∧
      memorySpan (table.lastRegion last n) = bssRegion reg := by
  obtain ⟨s₁, hregistered⟩ := registerBox_registered h
  have hsram := hregistered.aclSram hn
  obtain ⟨added, hadd, hadd', -, hstart, -⟩ := vmpuAclSram_adds hsram
  have hspan := (registerBox_added hn h).stackRegion_eq
  have hbssDvd := (vmpuAclSram_dvd haligned hsram).1
  have hbssNat : (BitVec.ofNat 32 reg.bss).toNat = reg.bss := by
    rw [BitVec.toNat_ofNat]
    exact Nat.mod_eq_of_lt (hstart ▸ BitVec.isLt _)
  have hstackSize : (stackRegion u reg).size =
      (regionRoundUp (BitVec.ofNat 32 (minStack (configAt u index).stackSize))).toNat := by
    rw [← hregistered.position]
    rfl
  have hbssSize : (bssRegion reg).size =
      (regionRoundUp (BitVec.ofNat 32 (configAt u index).bss.total)).toNat := by
    rw [← hregistered.bssSize]
    rfl
  have hspan' : stackRegion u reg =
      ⟨(memPos u.bssBoxesStart s.boxMemPos).toNat, (stackRegion u reg).size⟩ := by
    rw [hspan]
  have hbssSpan : bssRegion reg = ⟨reg.bss, (bssRegion reg).size⟩ := rfl
  refine ⟨added, s₁.table, ?_, ?_, ?_, ?_⟩
  · rw [hstackSize, BitVec.ofNat_toNat, BitVec.setWidth_eq]
    exact hadd
  · rw [hspan', hstackSize]
    exact memorySpan_lastRegion hrecords (.inl rfl) (memPos_dvd _ haligned) (regionRoundUp_dvd _)
      (hstackSize ▸ hstack) hadd
  · rw [hbssSize, BitVec.ofNat_toNat, BitVec.setWidth_eq]
    exact hadd'
  · rw [hbssSpan, hbssSize]
    have hfound := memorySpan_lastRegion hrecords (.inr rfl) (hbssNat.symm ▸ hbssDvd)
      (regionRoundUp_dvd _) (hbssSize ▸ hbss) hadd'
    rw [hbssNat] at hfound
    exact hfound

end Aligned

end Uvisor.BandedLayout
