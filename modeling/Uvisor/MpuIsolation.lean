import Mathlib.Data.Nat.ModEq
import Mathlib.Tactic.IntervalCases
import Uvisor.AlignedWords
import Uvisor.ArmMpu
import Uvisor.RoundRobin

/-!
# Memory isolation on ARMv7-M

A run switches between boxes, recovers from faults at any address and hands
out and takes back pages. At all times the loaded regions are those of the
active box, those of box 0, or a piece of the page heap in which the active
box owns every accessible page, or nobody uses it.
-/

namespace Uvisor.MpuIsolation

open PageAllocator ArmMpu Execution

/-! ## Runs -/

/-- What happens between two accesses to memory. -/
inductive Action where
  /-- A context switch to a box. -/
  | switch (dstBox : BoxId)
  /-- A fault of the memory protection that is recovered from. -/
  | fault (faultAddr faultStatus : Word)
  /-- The active box asks for pages. -/
  | malloc (table : Table)
  /-- The active box gives pages back. -/
  | free (table : Table)
  /-- The active box has its regions invalidated. -/
  | invalidate

/-- One step; there is no result when the system halts. -/
def step (cfg : Config) (g : Geometry) (s : ArmMpu.State) : Action → Option ArmMpu.State
  | .switch dstBox =>
    if dstBox.val < cfg.boxCount then vmpuSwitch cfg g dstBox {s with activeBox := dstBox} else none
  | .fault faultAddr faultStatus =>
    match vmpuFaultRecoveryMpu cfg g faultAddr faultStatus s with
    | some (true, s) => some s
    | _ => none
  | .malloc table => some {s with alloc := (malloc g s.activeBox table s.alloc).2.2}
  | .free table => some {s with alloc := (free g s.activeBox table s.alloc).2}
  | .invalidate => some (vmpuMpuInvalidate s)

/-- A loaded region is one of a list. -/
def Loaded (r : Region) (regions : List MpuRegion) : Prop :=
  ∃ region ∈ regions, r.address = region.start ∧ r.rasr = region.config

/-- All subregions of a region that are enabled are pages of the active box or
unused pages. -/
def PageRegion (g : Geometry) (s : ArmMpu.State) (r : Region) : Prop :=
  ∀ j < 8, r.subregionEnabled j = true → ∃ page < g.countTotal,
    r.subregionStart j = pageOrigin g page ∧ r.subregionBytes = g.pageSize ∧
      (mapGet g (s.alloc.ownerMap s.activeBox) page = true ∨
        mapGet g s.alloc.usageMap page = false)

/-- What the memory protection unit grants. -/
structure Isolated (cfg : Config) (g : Geometry) (s : ArmMpu.State) : Prop where
  /-- The static slots hold the static regions. -/
  static : ∀ i < regionsStatic, s.mpu.regions i = cfg.static i
  /-- Every other slot that is enabled holds a region of the active box, one of
  box 0 or pages. -/
  dynamic : ∀ i, regionsStatic ≤ i → i < regionsMax → (s.mpu.regions i).enabled = true →
    Loaded (s.mpu.regions i) (cfg.regions s.activeBox) ∨
      Loaded (s.mpu.regions i) (cfg.regions 0) ∨ PageRegion g s (s.mpu.regions i)

/-- The system has booted: box 0 is active with some of its regions loaded, and
the page heap has just been initialized. -/
def Initial (cfg : Config) (g : Geometry) (s : ArmMpu.State) : Prop :=
  s.activeBox = 0 ∧ regionsStatic ≤ s.mpuSlot ∧ s.mpuSlot < regionsMax ∧
    (∀ i < regionsStatic, s.mpu.regions i = cfg.static i) ∧
    (∀ i, regionsStatic ≤ i → i < regionsMax → (s.mpu.regions i).enabled = true →
      Loaded (s.mpu.regions i) (cfg.regions 0)) ∧
    ∃ c heapStart heapEnd pageSizeAddr pageSize before,
      init .armv7m c heapStart heapEnd pageSizeAddr pageSize before = some (g, s.alloc)

/-! ## The layout of the page heap -/

/-- Pages are powers of two, and their bits are counted down from the rounded
end of the heap. -/
structure HeapLayout (g : Geometry) : Prop where
  /-- The heap lies in the address space. -/
  wellFormed : g.WellFormed
  /-- The page size is a power of two. -/
  pageSize_eq : ∃ k, 10 ≤ k ∧ k ≤ 29 ∧ g.pageSize = 2^k
  /-- The bits of the last pages are missing as the pages up to the rounded
  end are. -/
  gap : ∃ gap, g.countTotal+gap ≤ 32 ∧ g.mapShift = 32-g.countTotal-gap ∧
    g.headEndRounded = (g.heapEnd+gap*g.pageSize)%2^32

/-- Addresses are rounded to multiples of the size. -/
theorem dvd_roundUpRegion {addr size : ℕ} : size ∣ roundUpRegion .armv7m addr size := by
  unfold roundUpRegion
  dsimp only
  split
  · exact dvd_zero size
  · rename_i hvalid
    have hpos : 0 < size := by
      rcases Nat.eq_zero_or_pos size with rfl | hpos
      · exact absurd (by decide) hvalid
      · exact hpos
    split
    · exact dvd_zero size
    · rw [regionAlignment, Nat.sub_add_cancel hpos]
      exact Nat.dvd_mul_left _ _

/-- Differences of multiples are multiples. -/
theorem dvd_wordSub {a b size : ℕ} (hword : size ∣ 2^32) (ha : size ∣ a) (hb : size ∣ b) :
    size ∣ wordSub a b := by
  unfold wordSub
  rw [Nat.dvd_mod_iff hword]
  exact Nat.dvd_sub (Nat.dvd_add ha hword) hb

/-- A boot that does not halt brings about such a layout. -/
theorem heapLayout_of_init {c : LinkerConfig} {heapStart heapEnd pageSizeAddr pageSize : UInt32}
    {s t : PageAllocator.State} {g : Geometry}
    (h : init .armv7m c heapStart heapEnd pageSizeAddr pageSize s = some (g, t)) :
    HeapLayout g := by
  have hg := init_wellFormed h
  obtain ⟨hmin, hvalid, hlayout, -⟩ := init_some h
  have hspan := layout_span_le hvalid (.inl rfl) (hlayout ▸ hg)
  rw [← hlayout] at hspan
  dsimp only at hspan
  have hsize : g.pageSize = pageSize.toNat := by rw [hlayout]; rfl
  have hvalid' := hvalid
  simp only [isRegionSizeValid, Bool.and_eq_true, decide_eq_true_eq, beq_iff_eq] at hvalid'
  obtain ⟨⟨-, hhigh⟩, hpow⟩ := hvalid'
  have hlow : 10 ≤ pageSize.toNat.log2 := by
    by_contra hlt
    have := Nat.pow_le_pow_right (by decide : 0 < 2) (by omega : pageSize.toNat.log2 ≤ 9)
    have hmin' : 1024 ≤ pageSize.toNat := hmin
    omega
  have hword : pageSize.toNat ∣ 2^32 := by
    rw [← hpow]
    exact Nat.pow_dvd_pow 2 (by omega)
  refine ⟨hg, ⟨pageSize.toNat.log2, hlow, hhigh, hsize.trans hpow.symm⟩, ?_⟩
  have hend : pageSize.toNat ∣ g.heapEnd := by
    rw [hlayout]
    dsimp only [layout]
    rw [Nat.dvd_mod_iff hword]
    refine Nat.dvd_add ?_ (Nat.dvd_mul_left _ _)
    rw [Nat.dvd_mod_iff hword]
    exact Nat.dvd_add dvd_roundUpRegion (Nat.dvd_mul_left _ _)
  have hrounded : pageSize.toNat ∣ g.headEndRounded := by
    have hround : g.headEndRounded =
        roundUpRegion .armv7m g.heapEnd (pageSize.toNat*8%2^32) := by rw [hlayout]; rfl
    rw [hround]
    refine dvd_trans ?_ dvd_roundUpRegion
    rw [Nat.dvd_mod_iff hword]
    exact Nat.dvd_mul_right _ _
  have hgap := Nat.div_mul_cancel (dvd_wordSub hword hrounded hend)
  refine ⟨wordSub g.headEndRounded g.heapEnd/pageSize.toNat, hspan, ?_, ?_⟩
  · have hshift : g.mapShift = (pageMapCount*32-g.countTotal+256-
        wordSub g.headEndRounded g.heapEnd/pageSize.toNat%256)%256 := by rw [hlayout]; rfl
    have hwords : pageMapCount*32 = 32 := rfl
    rw [hwords] at hspan hshift
    rw [hshift]
    generalize wordSub g.headEndRounded g.heapEnd/pageSize.toNat = gap at hspan ⊢
    omega
  · rw [hsize, hgap]
    have hlt := hg.heapEnd_lt
    have hlt' : g.headEndRounded < 2^32 := by
      rw [hlayout]
      exact roundUpRegion_lt _ _ _
    unfold wordSub
    omega

/-- A group of eight pages starts so far below the rounded end of the heap that
each of its subregions is the page with the same bit. -/
theorem HeapLayout.subregion_eq {g : Geometry} (h : HeapLayout g) {octet j page : ℕ}
    (hoctet : octet < 4) (hpage : page < g.countTotal)
    (hposition : position g page = octet*8+j) :
    ((BitVec.ofNat 32 g.headEndRounded-
      BitVec.ofNat 32 (g.pageSize*8)*BitVec.ofNat 32 (3-octet+1)).toNat+j*g.pageSize)%2^32 =
        pageOrigin g page := by
  obtain ⟨gap, hspan, hshift, hrounded⟩ := h.gap
  have hbit : page+32 = octet*8+j+g.countTotal+gap := by
    unfold position at hposition
    omega
  have hsplit : 3-octet+1 = 4-octet := by omega
  rw [hsplit]
  set size := BitVec.ofNat 32 (g.pageSize*8)
  set count := BitVec.ofNat 32 (4-octet)
  set start := BitVec.ofNat 32 g.headEndRounded-size*count with hstart
  have hsum : start+size*count = BitVec.ofNat 32 g.headEndRounded := by
    rw [hstart, BitVec.sub_add_cancel]
  have hnat : start.toNat+g.pageSize*8*(4-octet) ≡ g.headEndRounded [MOD 2^32] := by
    have hmod := congrArg BitVec.toNat hsum
    rw [BitVec.toNat_add, BitVec.toNat_mul, BitVec.toNat_ofNat, BitVec.toNat_ofNat,
      BitVec.toNat_ofNat] at hmod
    calc start.toNat+g.pageSize*8*(4-octet)
        ≡ start.toNat+(g.pageSize*8%2^32)*((4-octet)%2^32)%2^32 [MOD 2^32] := by
          refine Nat.ModEq.add_left _ ?_
          exact ((Nat.mod_modEq _ _).mul (Nat.mod_modEq _ _)).symm.trans (Nat.mod_modEq _ _).symm
      _ ≡ g.headEndRounded [MOD 2^32] := hmod
  have hpages : page*g.pageSize+g.pageSize*8*(4-octet) =
      g.countTotal*g.pageSize+gap*g.pageSize+j*g.pageSize := by
    have hcount : page+8*(4-octet) = g.countTotal+gap+j := by omega
    calc page*g.pageSize+g.pageSize*8*(4-octet) = (page+8*(4-octet))*g.pageSize := by ring
      _ = (g.countTotal+gap+j)*g.pageSize := by rw [hcount]
      _ = _ := by ring
  have hend : g.headEndRounded+j*g.pageSize ≡
      g.heapStart+page*g.pageSize+g.pageSize*8*(4-octet) [MOD 2^32] := by
    calc g.headEndRounded+j*g.pageSize
        ≡ g.heapEnd+gap*g.pageSize+j*g.pageSize [MOD 2^32] := by
          rw [hrounded]
          exact (Nat.mod_modEq _ _).add_right _
      _ ≡ g.heapStart+page*g.pageSize+g.pageSize*8*(4-octet) [MOD 2^32] := by
          rw [h.wellFormed.heapEnd_eq, Nat.add_assoc g.heapStart (page*g.pageSize), hpages]
          have hsum : g.heapStart+g.countTotal*g.pageSize+gap*g.pageSize+j*g.pageSize =
              g.heapStart+(g.countTotal*g.pageSize+gap*g.pageSize+j*g.pageSize) := by ring
          rw [hsum]
  refine Nat.ModEq.add_right_cancel' (g.pageSize*8*(4-octet)) ?_
  calc start.toNat+j*g.pageSize+g.pageSize*8*(4-octet)
      = start.toNat+g.pageSize*8*(4-octet)+j*g.pageSize := by ring
    _ ≡ g.headEndRounded+j*g.pageSize [MOD 2^32] := hnat.add_right _
    _ ≡ _ [MOD 2^32] := hend

/-- An address in the heap is in one of its pages. -/
theorem HeapLayout.getPageFromAddress_lt {g : Geometry} (h : HeapLayout g) {address : ℕ}
    (haddress : getPageFromAddress g address ≠ pageUnused) :
    getPageFromAddress g address < g.countTotal := by
  have hend := h.wellFormed.heapEnd_eq
  unfold getPageFromAddress at haddress ⊢
  split
  · rename_i hout
    exact absurd (if_pos hout) haddress
  · rename_i hin
    push Not at hin
    refine lt_of_le_of_lt (Nat.mod_le _ _) (Nat.div_lt_of_lt_mul ?_)
    rw [Nat.mul_comm]
    omega

/-- The pages lie one after the other in the heap. -/
theorem HeapLayout.pageOrigin_eq {g : Geometry} (h : HeapLayout g) {page : ℕ}
    (hpage : page < g.countTotal) :
    pageOrigin g page = g.heapStart+page*g.pageSize ∧
      g.heapStart+page*g.pageSize+g.pageSize ≤ g.heapEnd := by
  have hmul : page*g.pageSize+g.pageSize ≤ g.countTotal*g.pageSize := by
    rw [← Nat.succ_mul]
    exact Nat.mul_le_mul_right _ hpage
  have hpos := h.wellFormed.pageSize_pos
  have hend := h.wellFormed.heapEnd_eq
  have hword := h.wellFormed.heapEnd_lt
  refine ⟨?_, by omega⟩
  unfold pageOrigin
  exact Nat.mod_eq_of_lt (by omega)

/-- The page of an address is the one that it lies in. -/
theorem HeapLayout.getPageFromAddress_iff {g : Geometry} (h : HeapLayout g) {address page : ℕ}
    (hpage : page < g.countTotal) :
    getPageFromAddress g address = page ↔
      pageOrigin g page ≤ address ∧ address < pageOrigin g page+g.pageSize := by
  obtain ⟨horigin, hend⟩ := h.pageOrigin_eq hpage
  have hpos := h.wellFormed.pageSize_pos
  have htotal := h.wellFormed.total_le
  have hmax : pageMaxCount = 16 := rfl
  have hunused : pageUnused = 255 := rfl
  rw [horigin, getPageFromAddress]
  by_cases hout : address < g.heapStart ∨ g.heapEnd ≤ address
  · rw [if_pos hout]
    omega
  · rw [if_neg hout]
    have hsmall : (address-g.heapStart)/g.pageSize < 256 := by
      have hspan := h.wellFormed.heapEnd_eq
      have hcount : g.countTotal*g.pageSize ≤ 16*g.pageSize := Nat.mul_le_mul_right _ (by omega)
      refine Nat.lt_of_lt_of_le (Nat.div_lt_of_lt_mul (k := 16) ?_) (by decide)
      rw [Nat.mul_comm]
      omega
    rw [Nat.mod_eq_of_lt hsmall, Nat.div_eq_iff hpos]
    omega

/-! ## Regions and registers -/

/-- A region has at least 32 bytes. -/
theorem vmpuRegionBits_le {size : Word} {bits : ℕ} (h : vmpuRegionBits size = some bits) :
    5 ≤ bits := by
  unfold vmpuRegionBits at h
  split at h
  · cases h
  · dsimp only [alignmentBits] at h
    obtain rfl := Option.some.inj h
    split_ifs <;> omega

/-- The logarithm of the size of a region that can be translated. -/
theorem roundedBits_range {size acl : Word} {bits : ℕ} (h : roundedBits size acl = some bits) :
    5 ≤ bits ∧ bits < 32 := by
  obtain ⟨b, hb, h⟩ := Option.bind_eq_some_iff.mp h
  have hlow := vmpuRegionBits_le hb
  split at h
  · cases h
  rename_i hhigh
  have hkept : some b = some bits → 5 ≤ bits ∧ bits < 32 := fun heq => by
    obtain rfl := Option.some.inj heq
    omega
  split at h
  · split at h
    · cases h
    · split at h
      · split at h
        · cases h
        · rename_i hdown
          obtain rfl := Option.some.inj h
          dsimp only [alignmentBits] at hdown
          omega
      · exact hkept h
  · exact hkept h

/-- Regions start at multiples of 32 bytes. -/
theorem translate_aligned {start size acl aclHwSpec : Word} {region : MpuRegion}
    (h : vmpuRegionTranslateAcl start size acl aclHwSpec = some region) :
    region.start &&& 0x1F = 0 := by
  obtain ⟨bits, hbits, h⟩ := Option.bind_eq_some_iff.mp h
  dsimp only at h
  split at h
  · cases h
  rename_i haligned
  obtain ⟨config, -, rfl⟩ := Option.map_eq_some_iff.mp h
  have hmask : (0x1F : Word) = ((1 : Word) <<< bits-1) &&& 0x1F := by
    obtain ⟨hlow, hhigh⟩ := roundedBits_range hbits
    interval_cases bits <;> decide
  change start &&& 0x1F = 0
  rw [hmask, ← BitVec.and_assoc, not_not.mp haligned]
  exact BitVec.zero_and

/-- The size of eight pages needs no rounding. -/
theorem roundedBits_pages {k : ℕ} (hlow : 10 ≤ k) (hhigh : k ≤ 29) {bits : ℕ}
    (h : roundedBits (BitVec.ofNat 32 (2^k*8)) (tacldefData ||| taclExecute) = some bits) :
    k ≤ 28 ∧ bits = k+3 := by
  have hcases : ∀ k < 30, 10 ≤ k →
      roundedBits (BitVec.ofNat 32 (2^k*8)) (tacldefData ||| taclExecute) =
        if k ≤ 28 then some (k+3) else none := by decide
  rw [hcases k (by omega) hlow] at h
  split at h
  · rename_i hk
    exact ⟨hk, (Option.some.inj h).symm⟩
  · cases h

/-- The attributes of a region with eight pages of the page heap: full access,
the enable bit, the size and the disabled subregions. -/
def pageAttributes (k : ℕ) (mask : BitVec 8) : Word :=
  0x03000000 ||| 1 ||| (BitVec.ofNat 32 (k+2) <<< 1) |||
    (((~~~(mask.setWidth 32)) <<< 8) &&& 0xFF00)

/-- What is loaded for a group of eight pages of a heap. -/
theorem translate_pages {k : ℕ} (hlow : 10 ≤ k) (hhigh : k ≤ 29) {start : Word} {mask : BitVec 8}
    {region : MpuRegion}
    (h : vmpuRegionTranslateAcl start (BitVec.ofNat 32 (2^k*8)) (tacldefData ||| taclExecute)
      (~~~(mask.setWidth 32)) = some region) :
    k ≤ 28 ∧ region.start = start ∧ region.config = pageAttributes k mask := by
  obtain ⟨bits, hbits, h⟩ := Option.bind_eq_some_iff.mp h
  obtain ⟨hk, rfl⟩ := roundedBits_pages hlow hhigh hbits
  dsimp only at h
  split at h
  · cases h
  obtain ⟨config, hconfig, rfl⟩ := Option.map_eq_some_iff.mp h
  have hacl : vmpuMapAcl (tacldefData ||| taclExecute) = some 0x03000000 := by decide
  obtain rfl := Option.some.inj (hacl.symm.trans hconfig)
  exact ⟨hk, rfl, rfl⟩

/-- Its size field. -/
theorem sizeField_pageAttributes {k : ℕ} (hlow : 10 ≤ k) (hhigh : k ≤ 28) (mask : BitVec 8) :
    ((pageAttributes k mask).extractLsb' 1 5).toNat = k+2 := by
  have hdisabled : (((~~~(mask.setWidth 32)) <<< 8 : Word) &&& 0xFF00).extractLsb' 1 5 = 0 := by
    ext i hi
    interval_cases i <;> simp
  simp only [pageAttributes, BitVec.extractLsb'_or, hdisabled]
  interval_cases k <;> decide

theorem subregionBytes_pageAttributes {k : ℕ} (hlow : 10 ≤ k) (hhigh : k ≤ 28) (mask : BitVec 8)
    (address : Word) : Region.subregionBytes ⟨address, pageAttributes k mask⟩ = 2^k := by
  rw [Region.subregionBytes, sizeField_pageAttributes hlow hhigh]
  exact Nat.div_eq_of_eq_mul_left (by decide) (pow_add 2 k 3)

/-- Its enabled subregions. -/
theorem subregionEnabled_pageAttributes {k : ℕ} (hlow : 10 ≤ k) (hhigh : k ≤ 28) (mask : BitVec 8)
    (address : Word) {j : ℕ} (hj : j < 8) :
    Region.subregionEnabled ⟨address, pageAttributes k mask⟩ j = mask.getLsbD j := by
  have hdisabled : (((~~~(mask.setWidth 32)) <<< 8 : Word) &&& 0xFF00).getLsbD (8+j) =
      !mask.getLsbD j := by
    interval_cases j <;> simp
  have hothers : (0x03000000 ||| 1 ||| (BitVec.ofNat 32 (k+2) <<< 1) : Word).getLsbD (8+j) =
      false := by
    interval_cases k <;> interval_cases j <;> decide
  rw [Region.subregionEnabled, pageAttributes, BitVec.getLsbD_or, hothers, hdisabled]
  simp

/-! ## Loading -/

/-- The base address register takes an aligned address and the number of the
region apart again. -/
theorem writeRbar_valid {slot : ℕ} (hslot : slot < 16) {start : Word}
    (haligned : start &&& 0x1F = 0) (m : Mpu) :
    m.writeRbar (BitVec.ofNat 32 slot ||| rbarValid ||| start) =
      ⟨slot, Function.update m.regions slot {m.regions slot with address := start}⟩ := by
  have hlow : ∀ mask : Word, mask &&& 0x1F = mask → start &&& mask = 0 := by
    intro mask hmask
    rw [← hmask, BitVec.and_comm mask, ← BitVec.and_assoc, haligned]
    exact BitVec.zero_and
  have hvalid : (BitVec.ofNat 32 slot ||| rbarValid ||| start) &&& rbarValid ≠ 0 := by
    rw [BitVec.and_or_distrib_right, hlow rbarValid (by decide)]
    interval_cases slot <;> decide
  have hnumber : ((BitVec.ofNat 32 slot ||| rbarValid ||| start) &&& 0xF).toNat = slot := by
    rw [BitVec.and_or_distrib_right, hlow 0xF (by decide)]
    interval_cases slot <;> decide
  have haddress : (BitVec.ofNat 32 slot ||| rbarValid ||| start) &&& ~~~(0x1F : Word) = start := by
    have hhead : (BitVec.ofNat 32 slot ||| rbarValid) &&& ~~~(0x1F : Word) = 0 := by
      interval_cases slot <;> decide
    have hkept : start &&& ~~~(0x1F : Word) = start :=
      AlignedWords.and_not_of_and_eq_zero haligned
    rw [BitVec.and_or_distrib_right, hhead, hkept]
    exact BitVec.zero_or
  simp only [Mpu.writeRbar, if_pos hvalid, hnumber, haddress]

/-- Loading a region changes one slot. -/
theorem loadSlot_regions {region : MpuRegion} {priority slot : ℕ} (hslot : slot < 16)
    (haligned : region.start &&& 0x1F = 0) (s : ArmMpu.State) :
    (loadSlot region priority slot s).mpu.regions =
      Function.update s.mpu.regions slot ⟨region.start, region.config⟩ := by
  simp only [loadSlot, writeRbar_valid hslot haligned, Mpu.writeRasr, Function.update_self,
    Function.update_idem]

/-- The search for a slot is that of a round robin. -/
theorem searchSlot_eq {mpuPriority : ℕ → ℕ} {priority start passes slot : ℕ} :
    searchSlot mpuPriority priority start passes slot =
      (RoundRobin.searchFrom regionsStatic regionsMax mpuPriority priority start passes
        slot).slot := by
  induction passes generalizing slot with
  | zero => rfl
  | succ passes ih =>
    have hnext : RoundRobin.next regionsStatic regionsMax slot = nextSlot slot := rfl
    simp only [searchSlot, RoundRobin.searchFrom, hnext]
    by_cases hfound : mpuPriority (nextSlot slot) < priority
    · simp only [if_pos hfound]
    · by_cases hback : nextSlot slot ≠ start
      · simp only [if_neg hfound, if_pos hback]
        exact ih
      · simp only [if_neg hfound, if_neg hback]

/-- The search stays among the slots that are not static. -/
theorem searchSlot_range (mpuPriority : ℕ → ℕ) (priority : ℕ) {start : ℕ}
    (hlow : regionsStatic ≤ start) (hhigh : start < regionsMax) :
    let slot := searchSlot mpuPriority priority start (regionsMax-regionsStatic) start
    regionsStatic ≤ slot ∧ slot < regionsMax := by
  dsimp only
  rw [searchSlot_eq]
  exact (RoundRobin.search_spec ⟨hlow, hhigh⟩).1

/-- A push changes the unit in one slot that is not static, and nothing else
but the state of the round robin. -/
theorem vmpuMpuPush_spec {region : MpuRegion} (haligned : region.start &&& 0x1F = 0)
    (priority : ℕ) {s : ArmMpu.State} (hlow : regionsStatic ≤ s.mpuSlot)
    (hhigh : s.mpuSlot < regionsMax) :
    ∃ slot, regionsStatic ≤ slot ∧ slot < regionsMax ∧
      (vmpuMpuPush region priority s).mpuSlot = slot ∧
      (vmpuMpuPush region priority s).mpu.regions =
        Function.update s.mpu.regions slot ⟨region.start, region.config⟩ ∧
      (vmpuMpuPush region priority s).activeBox = s.activeBox ∧
      (vmpuMpuPush region priority s).alloc = s.alloc := by
  have hrange := searchSlot_range s.mpuPriority (if priority = 0 then 1 else priority) hlow hhigh
  have hsmall : regionsMax < 16 := by decide
  exact ⟨_, hrange.1, hrange.2, rfl, loadSlot_regions (by omega) haligned _, rfl, rfl⟩

/-- Invalidation disables all slots that are not static and restarts the round
robin. -/
theorem vmpuMpuInvalidate_spec (s : ArmMpu.State) :
    (vmpuMpuInvalidate s).mpuSlot = regionsStatic ∧
      (vmpuMpuInvalidate s).activeBox = s.activeBox ∧ (vmpuMpuInvalidate s).alloc = s.alloc ∧
      (∀ i < regionsStatic, (vmpuMpuInvalidate s).mpu.regions i = s.mpu.regions i) ∧
      ∀ i, regionsStatic ≤ i → i < regionsMax →
        ((vmpuMpuInvalidate s).mpu.regions i).enabled = false := by
  have hregions : ∀ i, (vmpuMpuInvalidate s).mpu.regions i =
      if regionsStatic ≤ i ∧ i < regionsMax then ⟨0, 0⟩ else s.mpu.regions i := by
    intro i
    refine foldl_range'_writes (fun s : ArmMpu.State => s.mpu.regions i) ⟨0, 0⟩ (fun s slot => ?_)
      regionsStatic (regionsMax-regionsStatic) {s with mpuSlot := regionsStatic}
    by_cases hi : i = slot
    · subst hi
      simp [invalidateSlot, Mpu.writeRnr, Mpu.writeRasr, Mpu.writeRbar]
    · simp [invalidateSlot, Mpu.writeRnr, Mpu.writeRasr, Mpu.writeRbar, hi]
  refine ⟨@foldl_keeps _ _ _ invalidateSlot ArmMpu.State.mpuSlot (fun _ _ => rfl) _ _,
    @foldl_keeps _ _ _ invalidateSlot ArmMpu.State.activeBox (fun _ _ => rfl) _ _,
    @foldl_keeps _ _ _ invalidateSlot ArmMpu.State.alloc (fun _ _ => rfl) _ _,
    fun i hi => ?_, fun i hlow hhigh => ?_⟩
  · rw [hregions, if_neg (by omega)]
  · rw [hregions, if_pos ⟨hlow, hhigh⟩]
    rfl

/-! ## The maps of the page allocator -/

/-- Only pages of the heap have bits in the owner maps. -/
def PagesOnly (g : Geometry) (alloc : PageAllocator.State) : Prop :=
  ∀ box, ∀ i < 32, BitArray.get (alloc.ownerMap box) i = true →
    ∃ page < g.countTotal, position g page = i

/-- A box may have access to a page that it owns or that nobody uses. -/
def MayAccess (g : Geometry) (box : BoxId) (alloc : PageAllocator.State) (page : ℕ) : Prop :=
  mapGet g (alloc.ownerMap box) page = true ∨ mapGet g alloc.usageMap page = false

section Maps

variable {g : Geometry} {box : BoxId} {table : Table} {alloc : PageAllocator.State}

theorem pagesOnly_takePage {page : ℕ} (h : PagesOnly g alloc) (hpage : page < g.countTotal) :
    PagesOnly g (takePage g box alloc page) := by
  intro b i hi hbit
  unfold takePage at hbit
  dsimp only at hbit
  split at hbit
  · rw [mapSet, BitArray.get_set (by decide), Bool.or_eq_true, decide_eq_true_eq] at hbit
    rcases hbit with hbit | hbit
    · exact ⟨page, hpage, hbit⟩
    · exact h b i hi hbit
  · exact h b i hi hbit

theorem pagesOnly_freePage {page : ℕ} (h : PagesOnly g alloc) :
    PagesOnly g (freePage g box alloc page) := by
  intro b i hi hbit
  unfold freePage at hbit
  dsimp only at hbit
  split at hbit
  · rw [mapClear, BitArray.get_clear (by decide), Bool.and_eq_true] at hbit
    exact h b i hi hbit.2
  · exact h b i hi hbit

/-- The pages handed out are pages of the heap. -/
theorem pagesOnly_malloc (hg : g.WellFormed) (h : PagesOnly g alloc) :
    PagesOnly g (malloc g box table alloc).2.2 := by
  rcases malloc_cases hg box table alloc with ⟨-, hsame⟩ | ⟨-, heq⟩
  · rw [hsame]
    exact h
  · rw [heq]
    have htaken : ∀ p ∈ pagesTaken g alloc g.countTotal 0 table.pageCount, p < g.countTotal :=
      fun p hp => mem_pagesTaken_lt hp
    generalize pagesTaken g alloc g.countTotal 0 table.pageCount = pages at htaken
    have hstart : PagesOnly g {alloc with countFree := alloc.countFree-table.pageCount} := h
    generalize {alloc with countFree := alloc.countFree-table.pageCount} = s at hstart
    clear heq h
    dsimp only
    induction pages generalizing s with
    | nil => exact hstart
    | cons p pages ih =>
      exact ih (fun q hq => htaken q (List.mem_cons_of_mem p hq)) _
        (pagesOnly_takePage hstart (htaken p List.mem_cons_self))

/-- What a call of `free` does: it takes back the pages of some first entries. -/
theorem free_eq_released (g : Geometry) (box : BoxId) (table : Table)
    (alloc : PageAllocator.State) :
    ∃ n, (free g box table alloc).2 = released g box table alloc n := by
  unfold free
  split
  · obtain ⟨n, -, -, hstate, -⟩ := freeLoop_spec g box table alloc (tableSize table.pageCount) 0
      fun j hj => absurd hj (Nat.not_lt_zero j)
    exact ⟨n, hstate⟩
  · exact ⟨0, rfl⟩

theorem pagesOnly_free (h : PagesOnly g alloc) :
    PagesOnly g (free g box table alloc).2 := by
  obtain ⟨n, hstate⟩ := free_eq_released g box table alloc
  rw [hstate]
  clear hstate
  induction n with
  | zero => exact h
  | succ n ih =>
    rw [released_succ]
    exact pagesOnly_freePage ih

/-- A call of `malloc` takes no access away from the caller. -/
theorem MayAccess.malloc (hg : g.WellFormed) {page : ℕ} (hpage : page < g.countTotal)
    (h : MayAccess g box alloc page) : MayAccess g box (malloc g box table alloc).2.2 page := by
  have htotal : g.countTotal ≤ 16 := hg.total_le
  rcases malloc_cases hg box table alloc with ⟨-, hsame⟩ | ⟨-, heq⟩
  · rw [hsame]
    exact h
  · rw [heq]
    have hlt : ∀ p ∈ pagesTaken g alloc g.countTotal 0 table.pageCount, p < 256 := fun p hp => by
      have := mem_pagesTaken_lt hp
      omega
    unfold MayAccess at h ⊢
    rw [foldl_takePage_owner hlt (by omega), foldl_takePage_usage hlt (by omega)]
    by_cases hmem : page ∈ pagesTaken g alloc g.countTotal 0 table.pageCount
    · left
      simp [hmem]
    · simpa [hmem] using h

/-- A page that the caller of `free` loses is unused. -/
theorem MayAccess.free {page : ℕ} (hpage : page < 256) (h : MayAccess g box alloc page) :
    MayAccess g box (free g box table alloc).2 page := by
  obtain ⟨n, hstate⟩ := free_eq_released g box table alloc
  rw [hstate]
  unfold MayAccess at h ⊢
  rw [released_owner alloc n hpage, released_usage alloc n hpage]
  by_cases hmem : page ∈ firstPages g table n
  · right
    simp [hmem]
  · simpa [hmem] using h

/-- The bits of a group of eight pages. -/
theorem mask_getLsbD (map : PageMap) {octet j : ℕ} (hoctet : octet < 4) (hj : j < 8) :
    ((map 0 >>> (octet*8)).setWidth 8).getLsbD j = BitArray.get map (octet*8+j) := by
  have hdiv : (octet*8+j)/32 = 0 := by omega
  have hmod : (octet*8+j)%32 = octet*8+j := by omega
  rw [BitArray.get_eq_getLsbD, hdiv, hmod]
  simp [hj]

end Maps

/-! ## The invariant -/

/-- What holds between the steps. -/
structure Inv (cfg : Config) (g : Geometry) (s : ArmMpu.State) : Prop where
  /-- The loaded regions isolate the active box. -/
  isolated : Isolated cfg g s
  /-- The round robin is past the static slots. -/
  slot_low : regionsStatic ≤ s.mpuSlot
  /-- It is on one of the slots. -/
  slot_high : s.mpuSlot < regionsMax
  /-- Only pages of the heap have bits in the owner maps. -/
  pages : PagesOnly g s.alloc

variable {cfg : Config} {g : Geometry} {s t : ArmMpu.State}

/-- The regions that may be loaded. -/
def MayLoad (cfg : Config) (g : Geometry) (s : ArmMpu.State) (r : Region) : Prop :=
  Loaded r (cfg.regions s.activeBox) ∨ Loaded r (cfg.regions 0) ∨ PageRegion g s r

/-- What may be loaded depends on the active box and the allocator only. -/
theorem MayLoad.congr {r : Region} (h : MayLoad cfg g s r) (hactive : t.activeBox = s.activeBox)
    (halloc : t.alloc = s.alloc) : MayLoad cfg g t r := by
  unfold MayLoad PageRegion at h ⊢
  rw [hactive, halloc]
  exact h

/-- The invariant together with what a load leaves alone. -/
structure LoadedFrom (cfg : Config) (g : Geometry) (s t : ArmMpu.State) : Prop where
  /-- The invariant still holds. -/
  inv : Inv cfg g t
  /-- The active box is the same. -/
  activeBox : t.activeBox = s.activeBox
  /-- So is the page allocator. -/
  alloc : t.alloc = s.alloc

theorem LoadedFrom.trans {u : ArmMpu.State} (h : LoadedFrom cfg g s t)
    (h' : LoadedFrom cfg g t u) : LoadedFrom cfg g s u :=
  ⟨h'.inv, h'.activeBox.trans h.activeBox, h'.alloc.trans h.alloc⟩

/-- A push of a region that may be loaded keeps the invariant. -/
theorem Inv.push (h : Inv cfg g s) {region : MpuRegion} (haligned : region.start &&& 0x1F = 0)
    (hload : MayLoad cfg g s ⟨region.start, region.config⟩) (priority : ℕ) :
    LoadedFrom cfg g s (vmpuMpuPush region priority s) := by
  obtain ⟨slot, hlow, hhigh, hslot, hregions, hactive, halloc⟩ :=
    vmpuMpuPush_spec haligned priority h.slot_low h.slot_high
  refine ⟨⟨⟨fun i hi => ?_, fun i hi hi' henabled => ?_⟩, hslot ▸ hlow, hslot ▸ hhigh,
    halloc ▸ h.pages⟩, hactive, halloc⟩
  · rw [hregions, Function.update_of_ne (by omega)]
    exact h.isolated.static i hi
  · change MayLoad cfg g _ _
    rw [hregions] at henabled ⊢
    by_cases hsame : i = slot
    · subst hsame
      rw [Function.update_self]
      exact hload.congr hactive halloc
    · rw [Function.update_of_ne hsame] at henabled ⊢
      exact MayLoad.congr (h.isolated.dynamic i hi hi' henabled) hactive halloc

/-- A region of a box may be loaded when the box is active, or is box 0. -/
theorem mayLoad_of_mem {box : BoxId} (hbox : box = s.activeBox ∨ box = 0) {region : MpuRegion}
    (hmem : region ∈ cfg.regions box) : MayLoad cfg g s ⟨region.start, region.config⟩ := by
  rcases hbox with rfl | rfl
  · exact .inl ⟨region, hmem, rfl, rfl⟩
  · exact .inr (.inl ⟨region, hmem, rfl, rfl⟩)

theorem aligned_of_mem {box : BoxId} {region : MpuRegion} (hmem : region ∈ cfg.regions box) :
    region.start &&& 0x1F = 0 := by
  obtain ⟨start, size, acl, aclHwSpec, htranslated⟩ := cfg.translated box region hmem
  exact translate_aligned htranslated

/-- The regions of a box may be loaded one after the other. -/
theorem Inv.pushAll (h : Inv cfg g s) {box : BoxId} (hbox : box = s.activeBox ∨ box = 0)
    {regions : List MpuRegion} (hregions : ∀ region ∈ regions, region ∈ cfg.regions box)
    (priority : ℕ) : LoadedFrom cfg g s (pushAll priority regions s) := by
  induction regions generalizing s with
  | nil => exact ⟨h, rfl, rfl⟩
  | cons region regions ih =>
    have hmem := hregions region List.mem_cons_self
    have hpush := h.push (aligned_of_mem hmem) (mayLoad_of_mem hbox hmem) priority
    exact hpush.trans (ih hpush.inv (by rw [hpush.activeBox]; exact hbox)
      fun r hr => hregions r (List.mem_cons_of_mem _ hr))

/-- A group of eight pages of the active box may be loaded. -/
theorem Inv.pushPages (hg : HeapLayout g) (h : Inv cfg g s) {octet index : ℕ}
    (hindex : octet+index = 3) {more : Bool}
    (hs : vmpuMemPushPageAclIterator g ((s.alloc.ownerMap s.activeBox 0 >>> (octet*8)).setWidth 8)
      index s = some (more, t)) : LoadedFrom cfg g s t := by
  have hoctet : octet < 4 := by omega
  obtain rfl : index = 3-octet := by omega
  obtain ⟨region, hregion, heq⟩ := Option.map_eq_some_iff.mp hs
  obtain ⟨-, rfl⟩ := Prod.mk.inj heq
  obtain ⟨k, hlow, hhigh, hsize⟩ := hg.pageSize_eq
  have haligned := translate_aligned hregion
  rw [hsize] at hregion
  obtain ⟨hk, hstart, hconfig⟩ := translate_pages hlow hhigh hregion
  refine h.push haligned (.inr (.inr fun j hj henabled => ?_)) 100
  rw [hconfig] at henabled ⊢
  rw [subregionEnabled_pageAttributes hlow hk _ _ hj, mask_getLsbD _ hoctet hj] at henabled
  obtain ⟨page, hpage, hposition⟩ := h.pages s.activeBox (octet*8+j) (by omega) henabled
  refine ⟨page, hpage, ?_, ?_, .inl ?_⟩
  · rw [Region.subregionStart, subregionBytes_pageAttributes hlow hk, ← hsize,
      ← hg.subregion_eq hoctet hpage hposition, hsize]
    exact congrArg (fun start : Word => (start.toNat+j*2^k)%2^32) hstart
  · rw [subregionBytes_pageAttributes hlow hk, hsize]
  · rw [mapGet, hposition]
    exact henabled

/-- The iteration over the groups of pages loads at most one of them. -/
theorem Inv.iteratePageMasks (hg : HeapLayout g) (h : Inv cfg g s) {octets ii : ℕ}
    (hoctets : ii+octets ≤ 4)
    (hs : iteratePageMasks g (vmpuMemPushPageAclIterator g) octets ii s = some t) :
    LoadedFrom cfg g s t := by
  induction octets generalizing ii s with
  | zero =>
    simp only [ArmMpu.iteratePageMasks, Option.some.injEq] at hs
    subst hs
    exact ⟨h, rfl, rfl⟩
  | succ octets ih =>
    have hlast : pageMapCount*4-1 = 3 := rfl
    have hword : (3-ii)/4 = 0 := by omega
    have hoctet : (3-ii)%4 = 3-ii := by omega
    simp only [ArmMpu.iteratePageMasks, hlast, hword, hoctet] at hs
    split at hs
    · obtain ⟨⟨more, u⟩, hpush, hs⟩ := Option.bind_eq_some_iff.mp hs
      have hu := h.pushPages hg (by omega) hpush
      dsimp only at hs
      split at hs
      · exact hu.trans (ih hu.inv (by omega) hs)
      · simp only [Option.some.injEq] at hs
        exact hs ▸ hu
    · exact ih h (by omega) hs

theorem Inv.pageMasks (hg : HeapLayout g) (h : Inv cfg g s)
    (hs : pageAllocatorIterateActivePageMasks g (vmpuMemPushPageAclIterator g) s = some t) :
    LoadedFrom cfg g s t := by
  have htotal : g.countTotal ≤ 16 := hg.wellFormed.total_le
  exact h.iteratePageMasks hg (by omega) hs

/-- What a context switch loads: the first region of a box other than box 0,
the pages, and then the other regions. -/
theorem vmpuSwitch_cases {dstBox : BoxId} (hs : vmpuSwitch cfg g dstBox s = some t) :
    (dstBox ≠ 0 ∧ ∃ region rest u, cfg.regions dstBox = region :: rest ∧
      pageAllocatorIterateActivePageMasks g (vmpuMemPushPageAclIterator g)
        (vmpuMpuPush region 255 (vmpuMpuInvalidate s)) = some u ∧ t = pushAll 2 rest u) ∨
    (dstBox = 0 ∧ ∃ u,
      pageAllocatorIterateActivePageMasks g (vmpuMemPushPageAclIterator g)
        (vmpuMpuInvalidate s) = some u ∧
      t = pushAll 1 (cfg.regions 0) (pushAll 2 (cfg.regions dstBox) u)) := by
  obtain ⟨regions, hregions, hs⟩ := Option.bind_eq_some_iff.mp hs
  have hbox : cfg.regions dstBox = regions := by
    unfold vmpuRegionGetForBox at hregions
    split at hregions
    · cases hregions
    · exact Option.some.inj hregions
  dsimp only at hs
  split at hs
  · rename_i hdst
    split at hs
    · cases hs
    · rename_i region rest
      obtain ⟨u, hmasks, rfl⟩ := Option.map_eq_some_iff.mp hs
      exact .inl ⟨hdst, region, rest, u, hbox, hmasks, rfl⟩
  · rename_i hdst
    obtain ⟨u, hmasks, rfl⟩ := Option.map_eq_some_iff.mp hs
    exact .inr ⟨not_not.mp hdst, u, hmasks, by rw [hbox]⟩

/-- After an invalidation any box may be active. -/
theorem Inv.invalidate (h : Inv cfg g s) (box : BoxId) :
    Inv cfg g (vmpuMpuInvalidate {s with activeBox := box}) := by
  obtain ⟨hslot, -, halloc, hstatic, hdisabled⟩ := vmpuMpuInvalidate_spec {s with activeBox := box}
  refine ⟨⟨fun i hi => (hstatic i hi).trans (h.isolated.static i hi), fun i hi hi' henabled => ?_⟩,
    hslot ▸ le_rfl, hslot ▸ by decide, halloc ▸ h.pages⟩
  rw [hdisabled i hi hi'] at henabled
  cases henabled

theorem Inv.switch (hg : HeapLayout g) (h : Inv cfg g s) {dstBox : BoxId}
    (hs : vmpuSwitch cfg g dstBox {s with activeBox := dstBox} = some t) : Inv cfg g t := by
  have hinv := h.invalidate dstBox
  have hactive := (vmpuMpuInvalidate_spec {s with activeBox := dstBox}).2.1
  rcases vmpuSwitch_cases hs with ⟨-, region, rest, u, hbox, hmasks, rfl⟩ | ⟨-, u, hmasks, rfl⟩
  · have hmem : ∀ r ∈ region :: rest, r ∈ cfg.regions dstBox := fun r hr => hbox ▸ hr
    have hfirst := hmem region List.mem_cons_self
    have hpush := hinv.push (aligned_of_mem hfirst) (mayLoad_of_mem (.inl hactive.symm) hfirst) 255
    have hpages := hpush.trans (hpush.inv.pageMasks hg hmasks)
    exact (hpages.inv.pushAll (.inl (hpages.activeBox.trans hactive).symm)
      (fun r hr => hmem r (List.mem_cons_of_mem _ hr)) 2).inv
  · have hpages := hinv.pageMasks hg hmasks
    have hown := hpages.inv.pushAll (.inl (hpages.activeBox.trans hactive).symm)
      (fun r hr => hr) 2
    exact (hown.inv.pushAll (.inr rfl) (fun r hr => hr) 1).inv

/-- A call of the page allocator leaves the unit as it is, and the pages that
are loaded are still those of the caller or unused. -/
theorem Inv.setAlloc (h : Inv cfg g s) {alloc : PageAllocator.State}
    (hpages : PagesOnly g alloc)
    (haccess : ∀ page < g.countTotal, MayAccess g s.activeBox s.alloc page →
      MayAccess g s.activeBox alloc page) : Inv cfg g {s with alloc := alloc} := by
  refine ⟨⟨h.isolated.static, fun i hi hi' henabled => ?_⟩, h.slot_low, h.slot_high, hpages⟩
  rcases h.isolated.dynamic i hi hi' henabled with hown | hpublic | hheap
  · exact .inl hown
  · exact .inr (.inl hpublic)
  · refine .inr (.inr fun j hj hj' => ?_)
    obtain ⟨page, hpage, hstart, hbytes, hold⟩ := hheap j hj hj'
    exact ⟨page, hpage, hstart, hbytes, haccess page hpage hold⟩

/-- The count of faults does not matter. -/
theorem Inv.setFaults (h : Inv cfg g s) (g' : Geometry) (page : ℕ) :
    Inv cfg g {s with alloc := pageAllocatorRegisterFault g' page s.alloc} := by
  have hsame : (pageAllocatorRegisterFault g' page s.alloc).ownerMap = s.alloc.ownerMap ∧
      (pageAllocatorRegisterFault g' page s.alloc).usageMap = s.alloc.usageMap := by
    unfold pageAllocatorRegisterFault
    split <;> exact ⟨rfl, rfl⟩
  refine h.setAlloc ?_ fun page _ hold => ?_
  · unfold PagesOnly
    rw [hsame.1]
    exact h.pages
  · unfold MayAccess
    rw [hsame.1, hsame.2]
    exact hold

/-- The active page of an address is the page the address is in, and belongs to
the active box. -/
theorem activePage_ok (hg : HeapLayout g) {box : BoxId} {alloc : PageAllocator.State}
    {address page : ℕ} (h : activePage g box alloc address = .ok page) :
    page < g.countTotal ∧ getPageFromAddress g address = page ∧
      mapGet g (alloc.ownerMap box) page = true := by
  unfold activePage at h
  dsimp only at h
  split at h
  · cases h
  rename_i hheap
  split at h
  · cases h
  rename_i hown
  obtain rfl := Except.ok.inj h
  exact ⟨hg.getPageFromAddress_lt hheap, rfl, by simpa using hown⟩

/-- An address has a mask only if it has an active page. -/
theorem getActiveMask_ok {box : BoxId} {alloc : PageAllocator.State} {address index page : ℕ}
    {mask : BitVec 8} (h : getActiveMaskForAddress g box alloc address = .ok (mask, index, page)) :
    activePage g box alloc address = .ok page ∧ index = position g page/8 ∧
      mask = (alloc.ownerMap box (position g page/32) >>>
        (position g page%32/8*8)).setWidth 8 := by
  unfold getActiveMaskForAddress at h
  cases hactive : activePage g box alloc address with
  | error e =>
    rw [hactive] at h
    cases h
  | ok page' =>
    rw [hactive] at h
    have hpair := Except.ok.inj h
    simp only [Prod.mk.injEq] at hpair
    obtain ⟨rfl, rfl, rfl⟩ := hpair
    exact ⟨rfl, rfl, rfl⟩

/-- The group of eight pages that is loaded for an address in a page of the
active box. -/
theorem getActiveMask_eq (hg : HeapLayout g) {box : BoxId} {alloc : PageAllocator.State}
    {address index page : ℕ} {mask : BitVec 8}
    (h : getActiveMaskForAddress g box alloc address = .ok (mask, index, page)) :
    index < 4 ∧ mask = (alloc.ownerMap box 0 >>> (index*8)).setWidth 8 := by
  obtain ⟨hactive, rfl, rfl⟩ := getActiveMask_ok h
  have hposition : position g page < 32 := by
    have hpage := (activePage_ok hg hactive).1
    obtain ⟨gap, hspan, hshift, -⟩ := hg.gap
    unfold position
    omega
  generalize position g page = p at hposition
  have hword : p/32 = 0 := by omega
  have hoffset : p%32/8*8 = p/8*8 := by omega
  rw [hword, hoffset]
  exact ⟨by omega, rfl⟩

/-- The region that is found for a fault is one of the active box or of box 0. -/
theorem vmpuFaultFindRegion_mem {faultAddr : Word} {region : MpuRegion}
    (h : vmpuFaultFindRegion cfg faultAddr s = some region) :
    ∃ box, (box = s.activeBox ∨ box = 0) ∧ region ∈ cfg.regions box := by
  unfold vmpuFaultFindRegion at h
  split at h
  · rcases Option.or_eq_some_iff.mp h with hown | ⟨-, hpublic⟩
    · exact ⟨s.activeBox, .inl rfl, List.mem_of_find?_eq_some hown⟩
    · exact ⟨0, .inr rfl, List.mem_of_find?_eq_some hpublic⟩
  · exact ⟨0, .inr rfl, List.mem_of_find?_eq_some h⟩

theorem Inv.fault (hg : HeapLayout g) (h : Inv cfg g s) {faultAddr faultStatus : Word}
    {recovered : Bool}
    (hs : vmpuFaultRecoveryMpu cfg g faultAddr faultStatus s = some (recovered, t)) :
    Inv cfg g t := by
  unfold vmpuFaultRecoveryMpu at hs
  split at hs
  · simp only [Option.some.injEq, Prod.mk.injEq] at hs
    exact hs.2 ▸ h
  · split at hs
    · rename_i mask index page hmask
      obtain ⟨⟨more, u⟩, hpush, heq⟩ := Option.map_eq_some_iff.mp hs
      obtain ⟨-, rfl⟩ := Prod.mk.inj heq
      obtain ⟨hoctet, rfl⟩ := getActiveMask_eq hg hmask
      have hlast : pageMapCount*4-1 = 3 := rfl
      rw [hlast] at hpush
      have hcounted := h.setFaults g page
      have howner : (pageAllocatorRegisterFault g page s.alloc).ownerMap = s.alloc.ownerMap := by
        unfold pageAllocatorRegisterFault
        split <;> rfl
      rw [← howner] at hpush
      exact (hcounted.pushPages hg (by omega) hpush).inv
    · split at hs
      · simp only [Option.some.injEq, Prod.mk.injEq] at hs
        exact hs.2 ▸ h
      · rename_i region hregion
        simp only [Option.some.injEq, Prod.mk.injEq] at hs
        obtain ⟨box, hbox, hmem⟩ := vmpuFaultFindRegion_mem hregion
        exact hs.2 ▸ (h.push (aligned_of_mem hmem) (mayLoad_of_mem hbox hmem) 3).inv

theorem inv_step (hg : HeapLayout g) {a : Action} (h : Inv cfg g s)
    (hs : step cfg g s a = some t) : Inv cfg g t := by
  have htotal : g.countTotal ≤ 16 := hg.wellFormed.total_le
  cases a with
  | switch dstBox =>
    simp only [step] at hs
    split at hs
    · exact h.switch hg hs
    · cases hs
  | fault faultAddr faultStatus =>
    simp only [step] at hs
    split at hs
    · rename_i u hrecovered
      simp only [Option.some.injEq] at hs
      exact hs ▸ h.fault hg hrecovered
    · cases hs
  | malloc table =>
    simp only [step, Option.some.injEq] at hs
    subst hs
    exact h.setAlloc (pagesOnly_malloc hg.wellFormed h.pages)
      fun page hpage hold => hold.malloc hg.wellFormed hpage
  | free table =>
    simp only [step, Option.some.injEq] at hs
    subst hs
    exact h.setAlloc (pagesOnly_free h.pages) fun page hpage hold => hold.free (by omega)
  | invalidate =>
    simp only [step, Option.some.injEq] at hs
    subst hs
    exact h.invalidate s.activeBox

theorem inv_initial (h : Initial cfg g s) : HeapLayout g ∧ Inv cfg g s := by
  obtain ⟨hactive, hlow, hhigh, hstatic, hdynamic, c, heapStart, heapEnd, pageSizeAddr, pageSize,
    before, hinit⟩ := h
  refine ⟨heapLayout_of_init hinit, ⟨hstatic, fun i hi hi' henabled => ?_⟩, hlow, hhigh, ?_⟩
  · exact .inr (.inl (hdynamic i hi hi' henabled))
  · obtain ⟨-, -, -, halloc⟩ := init_some hinit
    intro box i hi hbit
    rw [halloc] at hbit
    simp at hbit

theorem inv_reachable (h : Reachable (Initial cfg g) (step cfg g) (fun _ _ => True) s) :
    HeapLayout g ∧ Inv cfg g s :=
  h.invariant (fun s => HeapLayout g ∧ Inv cfg g s) (fun _ => inv_initial)
    fun _ _ _ hi _ hs => ⟨hi.1, inv_step hi.1 hi.2 hs⟩

/-- In every run the static slots hold the static regions, and every other slot
that is enabled holds a region of the active box, a region of box 0, or a
region of the page heap in which every enabled subregion is a page of the
active box or an unused page. -/
theorem memory_isolated
    (h : Reachable (Initial cfg g) (step cfg g) (fun _ _ => True) s) : Isolated cfg g s :=
  (inv_reachable h).2.isolated

/-- Regions of a peripheral and of a stack, with read and write access. -/
def someRegion (start size : Word) : Option MpuRegion :=
  vmpuRegionTranslateAcl start size (taclUread ||| taclUwrite ||| taclSread ||| taclSwrite) 0

/-- The peripheral of box 0. -/
theorem somePeripheral_isSome : (someRegion 0x40000000 0x1000).isSome := by decide

/-- Two boxes: box 0 with a peripheral and box 1 with its stack. -/
def twoBoxes : Config where
  boxCount := 2
  regions := fun box =>
    if box = 0 then [(someRegion 0x40000000 0x1000).get somePeripheral_isSome]
    else if box = 1 then [(someRegion 0x20008000 0x400).get (by decide)]
    else []
  static := fun _ => ⟨0, 0⟩
  translated := by
    intro box region hregion
    split at hregion
    · obtain rfl := List.mem_singleton.mp hregion
      exact ⟨_, _, _, _, (Option.some_get (by decide)).symm⟩
    · split at hregion
      · obtain rfl := List.mem_singleton.mp hregion
        exact ⟨_, _, _, _, (Option.some_get (by decide)).symm⟩
      · exact absurd hregion List.not_mem_nil

/-- Nothing has been loaded yet. -/
def bootedState : ArmMpu.State := ⟨0, ⟨0, fun _ => ⟨0, 0⟩⟩, 2, fun _ => 0, booted.alloc⟩

/-- It is an initial state of every configuration without static regions. -/
theorem initial_of_noStatic {cfg : Config} (hstatic : ∀ i, cfg.static i = ⟨0, 0⟩) :
    Initial cfg fourPages bootedState := by
  refine ⟨rfl, by decide, by decide, fun i _ => (hstatic i).symm, fun i _ _ henabled => ?_,
    smallDevice, 0x20001000, 0x20002000, 0x400, 1024, booted.alloc, rfl⟩
  simp [bootedState, Region.enabled] at henabled

theorem initial_bootedState : Initial twoBoxes fourPages bootedState :=
  initial_of_noStatic fun _ => rfl

/-- Box 1 takes a page and accesses it. -/
theorem memory_isolated_twoBoxes :
    ∃ s, exec (step twoBoxes fourPages)
        [.switch 1, .malloc (tableOf [0]), .fault 0x20001010 0x82] bootedState = some s ∧
      (s.mpu.regions 4).enabled = true ∧ Isolated twoBoxes fourPages s := by
  have hrun : ((exec (step twoBoxes fourPages)
      [.switch 1, .malloc (tableOf [0]), .fault 0x20001010 0x82] bootedState).map fun s =>
        (s.mpu.regions 4).enabled) = some true := by decide +kernel
  obtain ⟨s, hs, henabled⟩ := Option.map_eq_some_iff.mp hrun
  exact ⟨s, hs, henabled,
    memory_isolated (exec_reachable (Reachable.start initial_bootedState) hs)⟩

end Uvisor.MpuIsolation
