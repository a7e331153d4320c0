import Uvisor.MpuIsolation

/-!
# The geometry of the page heap

A boot counts the pages that fit between the rounded start and the end of the
heap, keeps at most as many as the tables have room for, and places them as
high as it can. The count is taken in eight bits, so this is right up to 255
pages. The shift of the page maps counts pages down from an end that has been
rounded to eight pages; on the ports that do not need this the rounding fails
for very large pages.
-/

namespace Uvisor.PageGeometry

open PageAllocator MpuIsolation

/-! ## Statements -/

/-- The start of the heap, rounded up to the alignment of the port. -/
def alignedStart (port : Port) (heapStart pageSize : ℕ) : ℕ :=
  let alignment := regionAlignment port pageSize
  (heapStart+(alignment-1))/alignment*alignment

/-- Number of whole pages from the rounded start on. There are none when the
rounded start is behind the end. -/
def fittingPages (port : Port) (heapStart heapEnd pageSize : ℕ) : ℕ :=
  (heapEnd-alignedStart port heapStart pageSize)/pageSize

/-- The geometry is that of the highest pages the tables have room for. -/
structure LaidOut (port : Port) (heapStart heapEnd pageSize : ℕ) (g : Geometry) : Prop where
  /-- All pages that fit are counted, up to the size of the tables. -/
  countTotal : g.countTotal = min (fittingPages port heapStart heapEnd pageSize) pageMaxCount
  /-- The pages lie in the heap. -/
  inside : ∀ address, g.heapStart ≤ address → address < g.heapEnd →
    heapStart ≤ address ∧ address < heapEnd
  /-- There is nothing but pages between their start and their end. -/
  length : g.heapEnd = g.heapStart+g.countTotal*pageSize
  /-- No higher run of as many pages, counted from the rounded start, fits. -/
  highest : ∃ skipped, g.heapStart = alignedStart port heapStart pageSize+skipped*pageSize ∧
    ∀ n, alignedStart port heapStart pageSize+(n+g.countTotal)*pageSize ≤ heapEnd → n ≤ skipped
  /-- The bits of all pages are in the page maps. -/
  position : ∀ page < g.countTotal, position g page < 32*pageMapCount
  /-- On ARMv7-M the octets of the maps are windows of eight aligned pages, and
  the bits of an octet are the pages of its window. -/
  window : port = .armv7m → ∀ page < g.countTotal,
    PageAllocator.position g page%8 = pageOrigin g page/pageSize%8 ∧
    ∀ other < g.countTotal,
      (PageAllocator.position g other/8 = PageAllocator.position g page/8 ↔
        pageOrigin g other/(pageSize*8) = pageOrigin g page/(pageSize*8))

/-- The pages can be counted in eight bits. On the ports with small alignment
either a page has at most 64 MiB, or no page fits, or the pages that are kept
and the pages between the last of them and the end of the address space have
bits in one map. -/
def Representable (port : Port) (heapStart heapEnd pageSize : ℕ) : Prop :=
  let fitting := fittingPages port heapStart heapEnd pageSize
  fitting < 256 ∧ (port = .armv7m ∨ pageSize ≤ 2^26 ∨ fitting = 0 ∨
    min fitting pageMaxCount+
      (2^32-(alignedStart port heapStart pageSize+fitting*pageSize))/pageSize ≤ 32*pageMapCount)

/-! ## The count and the place of the pages -/

section Layout

variable {port : Port} {c : LinkerConfig} {heapStart heapEnd pageSizeAddr pageSize : UInt32}
  {s t : State} {g : Geometry}

theorem regionAlignment_pos {size : ℕ} (hvalid : isRegionSizeValid port size = true) :
    0 < regionAlignment port size := by
  cases port with
  | armv7m =>
    simp only [isRegionSizeValid, Bool.and_eq_true, beq_iff_eq] at hvalid
    exact hvalid.2 ▸ Nat.two_pow_pos _
  | kinetis => exact Nat.zero_lt_succ 31
  | armv8m => exact Nat.zero_lt_succ 31

/-- Unless it halts, a boot rounds the start of the heap without overflow. -/
theorem roundUpRegion_of_init
    (h : init port c heapStart heapEnd pageSizeAddr pageSize s = some (g, t)) :
    roundUpRegion port heapStart.toNat pageSize.toNat =
      alignedStart port heapStart.toNat pageSize.toNat := by
  obtain ⟨-, hvalid, -, -⟩ := init_some h
  have hpos := regionAlignment_pos hvalid
  have hstart : roundUpRegion port heapStart.toNat pageSize.toNat ≠ 0 := by
    unfold init at h
    dsimp only at h
    split_ifs at h with _ _ _ _ _ hzero
    exact hzero
  have hlt := heapStart.toNat_lt
  unfold roundUpRegion at hstart ⊢
  dsimp only at hstart ⊢
  rw [hvalid] at hstart ⊢
  simp only [Bool.not_true, Bool.false_eq_true, if_false, Nat.sub_add_cancel hpos] at hstart ⊢
  have halign : regionAlignment port pageSize.toNat ≤ 2^32 := by
    have hsize := pageSize.toNat_lt
    cases port <;> simp only [regionAlignment] <;> omega
  split_ifs at hstart ⊢ with hover
  · exact absurd rfl hstart
  · have hsum : heapStart.toNat+(regionAlignment port pageSize.toNat-1) < 2^32 := by
      by_contra hge
      rw [Nat.mod_eq_sub_mod (not_lt.mp hge), Nat.mod_eq_of_lt (by omega)] at hover
      omega
    rw [Nat.mod_eq_of_lt hsum]
    rfl

theorem le_alignedStart (hvalid : isRegionSizeValid port pageSize.toNat = true) :
    heapStart.toNat ≤ alignedStart port heapStart.toNat pageSize.toNat := by
  have hpos := regionAlignment_pos hvalid
  unfold alignedStart
  dsimp only
  have hdiv := Nat.lt_div_mul_add hpos
    (a := heapStart.toNat+(regionAlignment port pageSize.toNat-1))
  omega

/-- The count of the pages is the number of those that fit, in eight bits. -/
theorem countPages_eq {heapEnd start pageSize : ℕ} (hpos : 0 < pageSize) (hend : heapEnd < 2^32) :
    countPages heapEnd start pageSize = (heapEnd-start)/pageSize%256 := by
  unfold countPages
  split_ifs with hnone
  · rw [Nat.div_eq_of_lt (by omega)]
  · rfl

/-- What a boot that does not halt computes from the number of fitting pages. -/
structure Counted (port : Port) (heapStart heapEnd pageSize counted : ℕ) (g : Geometry) : Prop where
  /-- At most as many pages as there is room for are kept. -/
  total_eq : g.countTotal = min counted pageMaxCount
  /-- The lowest pages are skipped. -/
  start_eq : g.heapStart =
    alignedStart port heapStart pageSize+(counted-pageMaxCount)*pageSize
  /-- The last page that is kept is the last one that is counted. -/
  end_eq : g.heapEnd = alignedStart port heapStart pageSize+counted*pageSize

theorem counted_of_init
    (h : init port c heapStart heapEnd pageSizeAddr pageSize s = some (g, t)) :
    Counted port heapStart.toNat heapEnd.toNat pageSize.toNat
      (fittingPages port heapStart.toNat heapEnd.toNat pageSize.toNat%256) g := by
  have hwell := init_wellFormed h
  obtain ⟨hmin, hvalid, hlayout, -⟩ := init_some h
  rw [roundUpRegion_of_init h] at hlayout
  have hendlt := heapEnd.toNat_lt
  have hfit := countPages_mul_le heapEnd.toNat (alignedStart port heapStart.toNat pageSize.toNat)
    pageSize.toNat
  have hcount : countPages heapEnd.toNat (alignedStart port heapStart.toNat pageSize.toNat)
      pageSize.toNat = fittingPages port heapStart.toNat heapEnd.toNat pageSize.toNat%256 :=
    countPages_eq (Nat.lt_of_lt_of_le (by decide) hmin) hendlt
  rw [hcount] at hfit
  have hstartlt : alignedStart port heapStart.toNat pageSize.toNat < 2^32 := by
    rw [← roundUpRegion_of_init h]
    exact roundUpRegion_lt _ _ _
  have hpages : g.pageSize = pageSize.toNat := by rw [hlayout]; rfl
  set counted := fittingPages port heapStart.toNat heapEnd.toNat pageSize.toNat%256
  set start := alignedStart port heapStart.toNat pageSize.toNat
  have hbound : start+counted*pageSize.toNat < 2^32 := by
    by_cases hzero : counted = 0
    · rw [hzero]
      omega
    · have := hfit hzero
      omega
  have htotal : g.countTotal = min counted pageMaxCount := by
    rw [hlayout]
    simp only [layout, hcount]
    split_ifs with hclamp <;> omega
  have hskipped : (if pageMaxCount < counted then counted-pageMaxCount else 0) =
      counted-pageMaxCount := by
    split_ifs with hclamp <;> omega
  have hsplit : (counted-pageMaxCount)*pageSize.toNat+min counted pageMaxCount*pageSize.toNat =
      counted*pageSize.toNat := by
    rw [← Nat.add_mul]
    congr 1
    omega
  have hheap : g.heapStart = start+(counted-pageMaxCount)*pageSize.toNat := by
    rw [hlayout]
    simp only [layout, hcount, hskipped]
    exact Nat.mod_eq_of_lt (by omega)
  refine ⟨htotal, hheap, ?_⟩
  rw [hwell.heapEnd_eq, hpages, hheap, htotal, Nat.add_assoc, hsplit]

/-- The pages that fit lie below the end of the heap. -/
theorem fittingPages_mul_le (port : Port) (heapStart heapEnd pageSize : ℕ)
    (hsome : fittingPages port heapStart heapEnd pageSize ≠ 0) :
    alignedStart port heapStart pageSize+fittingPages port heapStart heapEnd pageSize*pageSize ≤
      heapEnd := by
  have hmul : fittingPages port heapStart heapEnd pageSize*pageSize ≤
      heapEnd-alignedStart port heapStart pageSize := Nat.div_mul_le_self _ _
  have hlt : alignedStart port heapStart pageSize < heapEnd := by
    by_contra hge
    refine hsome ?_
    rw [fittingPages, Nat.sub_eq_zero_of_le (not_lt.mp hge), Nat.zero_div]
  omega

/-! ## The bits of the pages -/

/-- On ARMv7-M the rounded end of the heap is a multiple of eight pages. -/
theorem dvd_headEndRounded
    (h : init .armv7m c heapStart heapEnd pageSizeAddr pageSize s = some (g, t)) :
    g.pageSize*8 ∣ 2^32 ∧ g.pageSize*8 ∣ g.headEndRounded := by
  obtain ⟨k, -, hhigh, hsize⟩ := (heapLayout_of_init h).pageSize_eq
  obtain ⟨-, -, hlayout, -⟩ := init_some h
  have hround : g.headEndRounded = roundUpRegion .armv7m g.heapEnd (g.pageSize*8%2^32) := by
    rw [hlayout]
    rfl
  have height : g.pageSize*8 = 2^(k+3) := by rw [hsize, pow_add]; norm_num
  have hword : g.pageSize*8 ∣ 2^32 := height ▸ Nat.pow_dvd_pow 2 (by omega)
  refine ⟨hword, ?_⟩
  rw [hround]
  refine dvd_trans ?_ dvd_roundUpRegion
  exact (Nat.dvd_mod_iff hword).mpr dvd_rfl

/-- On ARMv7-M the heap starts with the page that has the first bit of the
pages. -/
theorem heapStart_eq_mul
    (h : init .armv7m c heapStart heapEnd pageSizeAddr pageSize s = some (g, t)) :
    ∃ first windows, g.heapStart = first*g.pageSize ∧
      ∀ page < g.countTotal, position g page+8*windows = first+page+32 := by
  have hlayout := heapLayout_of_init h
  obtain ⟨hword, hdvd⟩ := dvd_headEndRounded h
  obtain ⟨gap, hspan, hshift, hrounded⟩ := hlayout.gap
  rw [hrounded, Nat.dvd_mod_iff hword] at hdvd
  obtain ⟨windows, hwindows⟩ := hdvd
  have hsum : g.heapStart+(g.countTotal+gap)*g.pageSize = 8*windows*g.pageSize := by
    rw [hlayout.wellFormed.heapEnd_eq] at hwindows
    linarith
  have hle : g.countTotal+gap ≤ 8*windows :=
    Nat.le_of_mul_le_mul_right (by omega : (g.countTotal+gap)*g.pageSize ≤ 8*windows*g.pageSize)
      hlayout.wellFormed.pageSize_pos
  refine ⟨8*windows-(g.countTotal+gap), windows, ?_, fun page hpage => ?_⟩
  · rw [Nat.sub_mul]
    omega
  · unfold position
    omega

/-- On ARMv7-M an octet of the maps has the pages of one window. -/
theorem window_of_init
    (h : init .armv7m c heapStart heapEnd pageSizeAddr pageSize s = some (g, t)) {page : ℕ}
    (hpage : page < g.countTotal) :
    position g page%8 = pageOrigin g page/g.pageSize%8 ∧ ∀ other < g.countTotal,
      (position g other/8 = position g page/8 ↔
        pageOrigin g other/(g.pageSize*8) = pageOrigin g page/(g.pageSize*8)) := by
  have hlayout := heapLayout_of_init h
  have hpos := hlayout.wellFormed.pageSize_pos
  obtain ⟨first, windows, hfirst, hbits⟩ := heapStart_eq_mul h
  have hquotient : ∀ q < g.countTotal, pageOrigin g q/g.pageSize = first+q := by
    intro q hq
    rw [(hlayout.pageOrigin_eq hq).1, hfirst, ← Nat.add_mul, Nat.mul_div_cancel _ hpos]
  have hwindow : ∀ q < g.countTotal, pageOrigin g q/(g.pageSize*8) = (first+q)/8 := by
    intro q hq
    rw [← Nat.div_div_eq_div_mul, hquotient q hq]
  have hbit := hbits page hpage
  refine ⟨by rw [hquotient page hpage]; omega, fun other hother => ?_⟩
  have hbit' := hbits other hother
  rw [hwindow page hpage, hwindow other hother]
  omega

/-- On the other ports eight very large pages are no valid region, and the
shift then counts the pages up to the end of the address space. -/
theorem mapShift_large (hport : port ≠ .armv7m)
    (h : init port c heapStart heapEnd pageSizeAddr pageSize s = some (g, t))
    (hlarge : 2^26 < pageSize.toNat) (hend : 0 < g.heapEnd) :
    g.mapShift = (32-g.countTotal+256-(2^32-g.heapEnd)/pageSize.toNat)%256 ∧
      (2^32-g.heapEnd)/pageSize.toNat < 64 := by
  have hwell := init_wellFormed h
  obtain ⟨-, hvalid, hlayout, -⟩ := init_some h
  have hsize : 32 ≤ pageSize.toNat ∧ pageSize.toNat ≤ 2^29 ∧ pageSize.toNat%32 = 0 := by
    cases port <;> simp only [isRegionSizeValid, Bool.and_eq_true, decide_eq_true_eq,
      beq_iff_eq] at hvalid
    · exact absurd rfl hport
    · omega
    · omega
  have hinvalid : isRegionSizeValid port (pageSize.toNat*8%2^32) = false := by
    rw [Bool.eq_false_iff]
    cases port <;> simp only [isRegionSizeValid, Bool.and_eq_true, decide_eq_true_eq, beq_iff_eq,
      ne_eq]
    · exact absurd rfl hport
    · omega
    · omega
  have hrounded : g.headEndRounded = 0 := by
    have hround : g.headEndRounded = roundUpRegion port g.heapEnd (pageSize.toNat*8%2^32) := by
      rw [hlayout]
      rfl
    rw [hround, roundUpRegion, hinvalid]
    rfl
  have hgap : wordSub g.headEndRounded g.heapEnd = 2^32-g.heapEnd := by
    have := hwell.heapEnd_lt
    rw [hrounded]
    unfold wordSub
    omega
  have hsmall : (2^32-g.heapEnd)/pageSize.toNat < 64 := Nat.div_lt_of_lt_mul (by omega)
  refine ⟨?_, hsmall⟩
  have hshift : g.mapShift = (pageMapCount*32-g.countTotal+256-
      wordSub g.headEndRounded g.heapEnd/pageSize.toNat%256)%256 := by
    rw [hlayout]
    rfl
  rw [hshift, hgap, Nat.mod_eq_of_lt (by omega : (2^32-g.heapEnd)/pageSize.toNat < 256)]
  rfl

/-- With very large pages the bits are in the maps if there is room for all
pages up to the end of the address space. -/
theorem position_large_iff (hport : port ≠ .armv7m)
    (h : init port c heapStart heapEnd pageSizeAddr pageSize s = some (g, t))
    (hlarge : 2^26 < pageSize.toNat) (hend : 0 < g.heapEnd) (htotal : 0 < g.countTotal) :
    (∀ page < g.countTotal, position g page < 32*pageMapCount) ↔
      g.countTotal+(2^32-g.heapEnd)/pageSize.toNat ≤ 32*pageMapCount := by
  have hmax : g.countTotal ≤ 16 := (init_wellFormed h).total_le
  obtain ⟨hshift, hsmall⟩ := mapShift_large hport h hlarge hend
  have hwords : 32*pageMapCount = 32 := rfl
  rw [hwords]
  unfold position
  rw [hshift]
  generalize (2^32-g.heapEnd)/pageSize.toNat = gap at hsmall ⊢
  constructor
  · intro hall
    have := hall 0 htotal
    omega
  · intro hroom page hpage
    omega

end Layout

/-! ## Every boot -/

/-- The geometry of a boot is right exactly if its pages can be counted in
eight bits and their bits fit into the maps. -/
theorem init_laidOut_iff {port : Port} {c : LinkerConfig}
    {heapStart heapEnd pageSizeAddr pageSize : UInt32} {s t : State} {g : Geometry}
    (h : init port c heapStart heapEnd pageSizeAddr pageSize s = some (g, t)) :
    LaidOut port heapStart.toNat heapEnd.toNat pageSize.toNat g ↔
      Representable port heapStart.toNat heapEnd.toNat pageSize.toNat := by
  have hwell := init_wellFormed h
  have hcounted := counted_of_init h
  obtain ⟨hmin, hvalid, hlayout, -⟩ := init_some h
  have hpages : g.pageSize = pageSize.toNat := by rw [hlayout]; rfl
  have hpos : 0 < pageSize.toNat := Nat.lt_of_lt_of_le (by decide) hmin
  have hfit := fittingPages_mul_le port heapStart.toNat heapEnd.toNat pageSize.toNat
  have hlow : heapStart.toNat ≤ alignedStart port heapStart.toNat pageSize.toNat :=
    le_alignedStart hvalid
  have hmax : pageMaxCount = 16 := rfl
  unfold Representable
  dsimp only
  set fitting := fittingPages port heapStart.toNat heapEnd.toNat pageSize.toNat with hfitting
  set start := alignedStart port heapStart.toNat pageSize.toNat
  constructor
  · intro hout
    have hbyte : fitting < 256 := by
      -- With more pages either too few are counted or the lowest are kept.
      by_contra hmany
      have htotal := hout.countTotal
      rw [← hfitting, hcounted.total_eq] at htotal
      obtain ⟨skipped, hskipped, hhighest⟩ := hout.highest
      rw [hcounted.start_eq] at hskipped
      have heq : fitting%256-pageMaxCount = skipped :=
        Nat.eq_of_mul_eq_mul_right hpos (by omega)
      have hplace : start+(fitting-16+g.countTotal)*pageSize.toNat ≤ heapEnd.toNat := by
        rw [hcounted.total_eq]
        have hroom : fitting-16+min (fitting%256) pageMaxCount = fitting := by omega
        rw [hroom]
        exact hfit (by omega)
      have := hhighest _ hplace
      omega
    refine ⟨hbyte, ?_⟩
    by_cases harm : port = .armv7m
    · exact .inl harm
    by_cases hsmall : pageSize.toNat ≤ 2^26
    · exact .inr (.inl hsmall)
    by_cases hnone : fitting = 0
    · exact .inr (.inr (.inl hnone))
    have hmod : fitting%256 = fitting := Nat.mod_eq_of_lt hbyte
    have hend : g.heapEnd = start+fitting*pageSize.toNat := by rw [hcounted.end_eq, hmod]
    have htotal : g.countTotal = min fitting pageMaxCount := by rw [hcounted.total_eq, hmod]
    have hsome : 0 < fitting*pageSize.toNat := Nat.mul_pos (Nat.pos_of_ne_zero hnone) hpos
    have hroom := (position_large_iff harm h (not_le.mp hsmall) (by omega) (by omega)).mp
      hout.position
    rw [htotal, hend] at hroom
    exact .inr (.inr (.inr hroom))
  · rintro ⟨hbyte, hbits⟩
    have hmod : fitting%256 = fitting := Nat.mod_eq_of_lt hbyte
    rw [hmod] at hcounted
    have htotal := hcounted.total_eq
    have hlength := hwell.heapEnd_eq
    rw [hpages] at hlength
    refine ⟨htotal, fun address hfrom hto => ?_, hlength, ⟨fitting-pageMaxCount, hcounted.start_eq,
      fun n hn => ?_⟩, ?_, ?_⟩
    · have hstart := hcounted.start_eq
      have hend := hcounted.end_eq
      have hsome : fitting ≠ 0 := by
        rintro hzero
        rw [hzero, Nat.zero_mul] at hend
        omega
      have := hfit hsome
      omega
    · have hle : n+g.countTotal ≤ fitting := by
        rw [hfitting, fittingPages, Nat.le_div_iff_mul_le hpos]
        omega
      omega
    · by_cases hlarge : port = .armv7m ∨ pageSize.toNat ≤ 2^26
      · intro page hpage
        rw [Nat.mul_comm]
        exact init_position_lt h hlarge hpage
      · obtain ⟨harm, hlarge⟩ := not_or.mp hlarge
        rcases hbits with harm' | hsmall | hnone | hroom
        · exact absurd harm' harm
        · exact absurd hsmall hlarge
        · intro page hpage
          omega
        · intro page hpage
          have hsome : 0 < fitting*pageSize.toNat := Nat.mul_pos (by omega) hpos
          have hend := hcounted.end_eq
          rw [← hend, ← htotal] at hroom
          exact (position_large_iff harm h (not_le.mp hlarge) (by omega) (by omega)).mpr hroom
            page hpage
    · rintro rfl page hpage
      rw [← hpages]
      exact window_of_init h hpage

/-- The heap of four pages of a small device is laid out as it should be. -/
theorem init_laidOut_fourPages : LaidOut .armv7m 0x20001000 0x20002000 1024 fourPages :=
  (@init_laidOut_iff .armv7m smallDevice 0x20001000 0x20002000 0x400 1024 booted.alloc
    booted.alloc fourPages rfl).mpr ⟨by decide, .inl rfl⟩

/-- A device with 512 KiB of SRAM. -/
def largeDevice : LinkerConfig where
  flashStart := 0
  secureStart := 0x80000
  publicSramStart := 0x20000000
  publicSramEnd := 0x20080000

/-- Of a heap that has room for 260 pages of 1 KiB, only four are used. -/
theorem init_loses_pages :
    ∃ g t, init .armv7m largeDevice 0x20001000 0x20042000 0x400 1024 booted.alloc = some (g, t) ∧
      fittingPages .armv7m 0x20001000 0x20042000 1024 = 260 ∧ g.countTotal = 4 ∧
      ¬LaidOut .armv7m 0x20001000 0x20042000 1024 g := by
  refine ⟨_, _, rfl, by decide, by decide, fun hout => ?_⟩
  have htotal := hout.countTotal
  revert htotal
  decide

end Uvisor.PageGeometry
