import Uvisor.ArmSau

/-!
# Buffers that a box may access on ARMv8-M

Before the monitor copies from or to a buffer it asks whether the buffer lies
in one non-secure region of the box, of box 0, or of those that are set at
boot. The last byte of the buffer is computed modulo the address space. A
buffer that wraps around is refused by the search of the regions of boxes, but
not by the search of the static regions, which comes first.
-/

namespace Uvisor.SauBuffers

open PageAllocator ArmSau
open ArmMpu (Word MpuRegion)

/-! ## The check -/

/-- SECURE_ALIAS_OFFSET. -/
def secureAliasOffset : Word := 0x10000000

/-- UVISOR_GET_NS_ALIAS. -/
def nsAlias (addr : Word) : Word := addr &&& ~~~secureAliasOffset

/-- SAU_RLAR_NSC_Msk. -/
def sauRlarNsc : Word := 0x2

/-- SAU_RLAR_ENABLE_Msk. -/
def sauRlarEnable : Word := 0x1

/-- The end of the range is not in it. -/
def valueInRange (start ends value : Word) : Bool := start ≤ value && value < ends

/-- Whether a region is enabled and not callable only. -/
def vmpuRegionIsNs (rlar : Word) : Bool :=
  rlar &&& sauRlarNsc = 0 && rlar &&& sauRlarEnable = sauRlarEnable

/-- First address of a region of the unit. -/
def regionFirst (region : SauRegion) : Word := region.rbar &&& ~~~(0x1F : Word)

/-- Last address of a region of the unit. -/
def regionLast (region : SauRegion) : Word := region.rlar ||| 0x1F

/-- Search the static regions from a slot on for one that is non-secure and has
both addresses. The slot that was looked at last stays selected. -/
def searchStatic (startAddr endAddr : Word) : ℕ → ℕ → Sau → Bool × Sau
  | 0, _, sau => (false, sau)
  | slots+1, slot, sau =>
    let sau := sau.writeRnr slot
    let region := sau.regions sau.rnr
    if !vmpuRegionIsNs region.rlar then searchStatic startAddr endAddr slots (slot+1) sau
    else if valueInRange (regionFirst region) (regionLast region) startAddr &&
        valueInRange (regionFirst region) (regionLast region) endAddr then (true, sau)
    else searchStatic startAddr endAddr slots (slot+1) sau

/-- vmpu_buffer_access_is_ok_static. -/
def vmpuBufferAccessIsOkStatic (startAddr endAddr : Word) (sau : Sau) : Bool × Sau :=
  searchStatic startAddr endAddr regionsStatic 0 sau

/-- The end of vmpu_buffer_access_is_ok, about the regions of the box itself. -/
def ownRegionIsOk (regions : BoxId → List MpuRegion) (boxId : BoxId) (startAddr endAddr : Word) :
    Bool :=
  if endAddr < startAddr then false
  else
    match vmpuRegionFindForAddress regions boxId startAddr with
    | none => false
    | some region => valueInRange region.start region.ends endAddr && vmpuRegionIsNs region.config

/-- vmpu_buffer_access_is_ok for box 0, which looks at the static regions. -/
def publicBufferAccessIsOk (regions : BoxId → List MpuRegion) (addr size : Word) (sau : Sau) :
    Bool × Sau :=
  let startAddr := nsAlias addr
  let endAddr := startAddr+size-1
  let (ok, sau) := vmpuBufferAccessIsOkStatic startAddr endAddr sau
  if ok then (true, sau) else (ownRegionIsOk regions 0 startAddr endAddr, sau)

/-- vmpu_buffer_access_is_ok. For another box it first calls itself for box 0. -/
def vmpuBufferAccessIsOk (regions : BoxId → List MpuRegion) (boxId : BoxId) (addr size : Word)
    (sau : Sau) : Bool × Sau :=
  if boxId ≠ 0 then
    let startAddr := nsAlias addr
    let endAddr := startAddr+size-1
    let (ok, sau) := publicBufferAccessIsOk regions addr size sau
    if ok then (true, sau) else (ownRegionIsOk regions boxId startAddr endAddr, sau)
  else publicBufferAccessIsOk regions addr size sau

/-! ## Statements -/

/-- All bytes from an address on, without wrapping, lie in a range. -/
def BytesWithin (first ends start size : ℕ) : Prop :=
  ∀ i < size, first ≤ start+i ∧ start+i < ends

/-- A non-secure region that is static has all bytes. -/
def InStaticRegion (sau : Sau) (start size : ℕ) : Prop :=
  ∃ slot < regionsStatic, vmpuRegionIsNs (sau.regions slot).rlar = true ∧
    BytesWithin (regionFirst (sau.regions slot)).toNat ((regionLast (sau.regions slot)).toNat+1)
      start size

/-- A non-secure region of a box has all bytes. -/
def InBoxRegion (regions : BoxId → List MpuRegion) (boxId : BoxId) (start size : ℕ) : Prop :=
  ∃ region ∈ regions boxId, vmpuRegionIsNs region.config = true ∧
    BytesWithin region.start.toNat region.ends.toNat start size

/-- One non-secure region that is static or belongs to box 0 or to the box has
all bytes of a buffer, under their non-secure addresses. -/
def Accessible (regions : BoxId → List MpuRegion) (sau : Sau) (boxId : BoxId) (addr size : Word) :
    Prop :=
  InStaticRegion sau (nsAlias addr).toNat size.toNat ∨
    InBoxRegion regions 0 (nsAlias addr).toNat size.toNat ∨
    InBoxRegion regions boxId (nsAlias addr).toNat size.toNat

/-- A static non-secure region has two addresses, the second one not last. -/
def StaticHolds (sau : Sau) (startAddr endAddr : Word) : Prop :=
  ∃ slot < regionsStatic, vmpuRegionIsNs (sau.regions slot).rlar = true ∧
    valueInRange (regionFirst (sau.regions slot)) (regionLast (sau.regions slot))
      startAddr = true ∧
    valueInRange (regionFirst (sau.regions slot)) (regionLast (sau.regions slot))
      endAddr = true

/-! ## Ranges of words -/

section Ranges

variable {start ends value size : Word}

theorem valueInRange_iff :
    valueInRange start ends value = true ↔
      start.toNat ≤ value.toNat ∧ value.toNat < ends.toNat := by
  simp [valueInRange, BitVec.le_def, BitVec.lt_def]

theorem toNat_pos (hsize : size ≠ 0) : 0 < size.toNat :=
  Nat.pos_of_ne_zero fun hzero => hsize (BitVec.eq_of_toNat_eq hzero)

/-- The last byte of a buffer that does not wrap around. -/
theorem lastByte_toNat (hsize : size ≠ 0) (hroom : start.toNat+size.toNat ≤ 2^32) :
    (start+size-1).toNat = start.toNat+size.toNat-1 := by
  have hpos : 0 < size.toNat := toNat_pos hsize
  have hlt := start.isLt
  rw [BitVec.toNat_sub, BitVec.toNat_add]
  change (2^32-1+(start.toNat+size.toNat)%2^32)%2^32 = _
  omega

/-- The last byte of a buffer that wraps around is below its first byte. -/
theorem lastByte_lt (hwrap : 2^32 < start.toNat+size.toNat) :
    start+size-1 < start := by
  have hlt := start.isLt
  have hlt' := size.isLt
  rw [BitVec.lt_def, BitVec.toNat_sub, BitVec.toNat_add]
  change (2^32-1+(start.toNat+size.toNat)%2^32)%2^32 < _
  omega

/-- The bytes between two addresses of a range are in the range. -/
theorem bytesWithin_of_range (hroom : size = 0 ∨ start.toNat+size.toNat ≤ 2^32) {first last : Word}
    (hstart : first.toNat ≤ start.toNat) (hend : (start+size-1).toNat ≤ last.toNat) :
    BytesWithin first.toNat (last.toNat+1) start.toNat size.toNat := by
  intro i hi
  by_cases hsize : size = 0
  · subst hsize
    exact absurd hi (Nat.not_lt_zero i)
  · rw [lastByte_toNat hsize (hroom.resolve_left hsize)] at hend
    omega

/-- No range of addresses has the bytes of a buffer that wraps around. -/
theorem not_bytesWithin (hwrap : 2^32 < start.toNat+size.toNat) {first ends : ℕ}
    (hends : ends ≤ 2^32) : ¬BytesWithin first ends start.toNat size.toNat := by
  intro hall
  have hlt := start.isLt
  have := (hall (2^32-start.toNat) (by omega)).2
  omega

end Ranges

/-! ## The searches -/

section Searches

variable {regions : BoxId → List MpuRegion} {boxId : BoxId} {sau : Sau} {addr size : Word}
  {startAddr endAddr : Word}

/-- The search of the static regions finds one that holds both addresses, and
changes no region. -/
theorem searchStatic_spec (slots slot : ℕ) (sau : Sau) :
    ((searchStatic startAddr endAddr slots slot sau).1 = true ↔
      ∃ i < slots, vmpuRegionIsNs (sau.regions (slot+i)).rlar = true ∧
        valueInRange (regionFirst (sau.regions (slot+i)))
          (regionLast (sau.regions (slot+i))) startAddr = true ∧
        valueInRange (regionFirst (sau.regions (slot+i)))
          (regionLast (sau.regions (slot+i))) endAddr = true) ∧
      (searchStatic startAddr endAddr slots slot sau).2.regions = sau.regions := by
  induction slots generalizing slot sau with
  | zero => simp [searchStatic]
  | succ slots ih =>
    obtain ⟨hfound, hregions⟩ := ih (slot+1) (sau.writeRnr slot)
    have hstep : ∀ i, slot+1+i = slot+(i+1) := fun i => by omega
    simp only [Sau.writeRnr, hstep] at hfound hregions
    rw [searchStatic]
    simp only [Sau.writeRnr, Nat.exists_lt_succ_left, Nat.add_zero, Bool.not_eq_true',
      Bool.and_eq_true]
    split_ifs with hns hboth
    · rw [hfound]
      exact ⟨by simp [hns], hregions⟩
    · exact ⟨by simp [hboth, Bool.eq_true_of_not_eq_false hns], rfl⟩
    · rw [hfound]
      exact ⟨by simp [hboth], hregions⟩

theorem vmpuBufferAccessIsOkStatic_iff (startAddr endAddr : Word) (sau : Sau) :
    (vmpuBufferAccessIsOkStatic startAddr endAddr sau).1 = true ↔
      StaticHolds sau startAddr endAddr := by
  have hspec := (@searchStatic_spec startAddr endAddr regionsStatic 0 sau).1
  simp only [Nat.zero_add] at hspec
  exact hspec

/-- A region of a box that holds both addresses of a buffer. -/
theorem ownRegionIsOk_holds (h : ownRegionIsOk regions boxId startAddr endAddr = true) :
    startAddr ≤ endAddr ∧ ∃ region ∈ regions boxId, vmpuRegionIsNs region.config = true ∧
      region.start.toNat ≤ startAddr.toNat ∧ endAddr.toNat < region.ends.toNat := by
  unfold ownRegionIsOk at h
  split_ifs at h with horder
  split at h
  · cases h
  · rename_i region hfind
    rw [Bool.and_eq_true, valueInRange_iff] at h
    have hfound := List.find?_some hfind
    rw [Bool.and_eq_true, decide_eq_true_eq, decide_eq_true_eq, BitVec.le_def] at hfound
    exact ⟨BitVec.not_lt.mp horder, region, List.mem_of_find?_eq_some hfind, h.2, hfound.1, h.1.2⟩

/-- The check for box 0 is that of the static regions and of its own. -/
theorem publicBufferAccessIsOk_iff :
    (publicBufferAccessIsOk regions addr size sau).1 = true ↔
      StaticHolds sau (nsAlias addr) (nsAlias addr+size-1) ∨
        ownRegionIsOk regions 0 (nsAlias addr) (nsAlias addr+size-1) = true := by
  rw [← vmpuBufferAccessIsOkStatic_iff, publicBufferAccessIsOk]
  dsimp only
  split_ifs with hok
  · exact iff_of_true rfl (.inl hok)
  · exact (or_iff_right hok).symm

/-- The check for any box. -/
theorem vmpuBufferAccessIsOk_iff :
    (vmpuBufferAccessIsOk regions boxId addr size sau).1 = true ↔
      StaticHolds sau (nsAlias addr) (nsAlias addr+size-1) ∨
        ownRegionIsOk regions 0 (nsAlias addr) (nsAlias addr+size-1) = true ∨
        ownRegionIsOk regions boxId (nsAlias addr) (nsAlias addr+size-1) = true := by
  rw [vmpuBufferAccessIsOk]
  dsimp only
  by_cases hbox : boxId = 0
  · subst hbox
    rw [if_neg (not_not.mpr rfl), publicBufferAccessIsOk_iff, or_self]
  · rw [if_pos hbox, ← or_assoc, ← publicBufferAccessIsOk_iff]
    split_ifs with hok
    · exact iff_of_true rfl (.inl hok)
    · exact (or_iff_right hok).symm

end Searches

/-! ## Soundness -/

section Soundness

variable {regions : BoxId → List MpuRegion} {boxId : BoxId} {sau : Sau} {addr size : Word}

/-- A buffer between two addresses of a static region is in that region. -/
theorem inStaticRegion_of_holds
    (hroom : size = 0 ∨ (nsAlias addr).toNat+size.toNat ≤ 2^32)
    (h : StaticHolds sau (nsAlias addr) (nsAlias addr+size-1)) :
    InStaticRegion sau (nsAlias addr).toNat size.toNat := by
  obtain ⟨slot, hslot, hns, hstart, hend⟩ := h
  rw [valueInRange_iff] at hstart hend
  exact ⟨slot, hslot, hns, bytesWithin_of_range hroom hstart.1 hend.2.le⟩

/-- A buffer that the regions of a box allow is in one of them. -/
theorem inBoxRegion_of_ok
    (h : ownRegionIsOk regions boxId (nsAlias addr) (nsAlias addr+size-1) = true) :
    InBoxRegion regions boxId (nsAlias addr).toNat size.toNat := by
  obtain ⟨horder, region, hmem, hns, hstart, hend⟩ := ownRegionIsOk_holds h
  refine ⟨region, hmem, hns, ?_⟩
  have hroom : size = 0 ∨ (nsAlias addr).toNat+size.toNat ≤ 2^32 := by
    by_cases hsize : size = 0
    · exact .inl hsize
    · exact .inr (not_lt.mp fun hwrap => BitVec.not_lt.mpr horder (lastByte_lt hwrap))
  intro i hi
  have hend' : (nsAlias addr+size-1).toNat ≤ (nsAlias addr+size-1).toNat := le_rfl
  have hall := bytesWithin_of_range hroom hstart hend' i hi
  omega

/-- The bytes of a buffer that wraps around are in no region at all. -/
theorem not_accessible_of_wrap (hwrap : 2^32 < (nsAlias addr).toNat+size.toNat) :
    ¬Accessible regions sau boxId addr size := by
  have hbox : ∀ b, ¬InBoxRegion regions b (nsAlias addr).toNat size.toNat := by
    rintro b ⟨region, -, -, hall⟩
    exact not_bytesWithin hwrap region.ends.isLt.le hall
  rintro (⟨slot, -, -, hall⟩ | hpublic | hown)
  · exact not_bytesWithin hwrap (BitVec.isLt _) hall
  · exact hbox 0 hpublic
  · exact hbox boxId hown

/-- What the check allows is accessible exactly if the buffer is empty or does
not wrap around, or no static region has its first and its wrapped last
address. -/
theorem buffer_access_sound_iff (regions : BoxId → List MpuRegion) (boxId : BoxId)
    (addr size : Word) (sau : Sau) :
    ((vmpuBufferAccessIsOk regions boxId addr size sau).1 = true →
      Accessible regions sau boxId addr size) ↔
      size = 0 ∨ (nsAlias addr).toNat+size.toNat ≤ 2^32 ∨
        ¬StaticHolds sau (nsAlias addr) (nsAlias addr+size-1) := by
  rw [vmpuBufferAccessIsOk_iff]
  constructor
  · intro hsound
    by_contra hcond
    push Not at hcond
    obtain ⟨-, hwrap, hstatic⟩ := hcond
    exact not_accessible_of_wrap hwrap (hsound (.inl hstatic))
  · rintro hcond (hstatic | hpublic | hown)
    · refine .inl (inStaticRegion_of_holds ?_ hstatic)
      rcases hcond with hsize | hroom | hnone
      · exact .inl hsize
      · exact .inr hroom
      · exact absurd hstatic hnone
    · exact .inr (.inl (inBoxRegion_of_ok hpublic))
    · exact .inr (.inr (inBoxRegion_of_ok hown))

/-- Public memory of 128 KiB is unlocked for the boxes. -/
def unlockedSram : Sau :=
  ⟨0, fun slot => if slot = 3 then ⟨0x20000000, 0x2001FFE1⟩ else ⟨0, 0⟩⟩

/-- A buffer in it of nearly 4 GiB is allowed. -/
theorem huge_buffer_allowed :
    (vmpuBufferAccessIsOk (fun _ => []) 1 0x20001000 0xFFFFFFF0 unlockedSram).1 = true ∧
      ¬Accessible (fun _ => []) unlockedSram 1 0x20001000 0xFFFFFFF0 :=
  ⟨by decide, not_accessible_of_wrap (by decide)⟩

end Soundness

end Uvisor.SauBuffers
