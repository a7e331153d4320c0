import Uvisor.ArmMpuAccess
import Uvisor.MpuIsolation

/-!
# Pages and subregions

A region of the page heap has eight pages, one in each subregion. Pages are
counted from the start of the heap, bits of the page maps down from the rounded
end, and groups of eight bits from either end. For every heap an address lies
in an enabled subregion exactly if it lies in a page of the active box.
-/

namespace Uvisor.PageSubregions

open PageAllocator ArmMpu MpuIsolation Execution

/-! ## Statements -/

/-- The page allocator right after a boot on ARMv7-M that did not halt. -/
def Booted (g : Geometry) (sys : System) : Prop :=
  ∃ c heapStart heapEnd pageSizeAddr pageSize before,
    init .armv7m c heapStart heapEnd pageSizeAddr pageSize before = some (g, sys.alloc)

/-- An address lies in a page of the heap. -/
def InPage (g : Geometry) (page : ℕ) (address : Word) : Prop :=
  page < g.countTotal ∧ pageOrigin g page ≤ address.toNat ∧
    address.toNat < pageOrigin g page+g.pageSize

/-- An address lies in a page that a box may access. -/
def InOwnPage (g : Geometry) (alloc : PageAllocator.State) (box : BoxId) (address : Word) : Prop :=
  ∃ page, InPage g page address ∧ mapGet g (alloc.ownerMap box) page = true

/-- What is in the registers of a slot with a region. -/
def registers (region : MpuRegion) : Region := ⟨region.start, region.config⟩

/-- The subregions of a region of eight pages are enabled exactly where the box
has access to the page. -/
structure Agrees (g : Geometry) (alloc : PageAllocator.State) (box : BoxId) (region : MpuRegion) :
    Prop where
  /-- The region is enabled. -/
  enabled : (registers region).enabled = true
  /-- It has eight pages. -/
  bytes : (registers region).bytes = g.pageSize*8
  /-- Its subregions are enabled for the pages of the box. -/
  subregions : ∀ address, (registers region).covers address = true →
    ((registers region).subregionEnabled ((registers region).subregionOf address) = true ↔
      InOwnPage g alloc box address)

/-! ## The rounded end of the heap -/

section Layout

variable {g : Geometry} {sys : System} {k : ℕ}

theorem Booted.heapLayout (h : Booted g sys) : HeapLayout g := by
  obtain ⟨c, heapStart, heapEnd, pageSizeAddr, pageSize, before, hinit⟩ := h
  exact heapLayout_of_init hinit

/-- The end of the heap is rounded to eight pages. -/
theorem Booted.dvd_headEndRounded (h : Booted g sys) (hsize : g.pageSize = 2^k) (hk : k ≤ 28) :
    2^(k+3) ∣ g.headEndRounded := by
  obtain ⟨c, heapStart, heapEnd, pageSizeAddr, pageSize, before, hinit⟩ := h
  obtain ⟨-, -, hlayout, -⟩ := init_some hinit
  have hpages : g.pageSize = pageSize.toNat := by rw [hlayout]; rfl
  have hround : g.headEndRounded =
      roundUpRegion .armv7m g.heapEnd (pageSize.toNat*8%2^32) := by rw [hlayout]; rfl
  have height : pageSize.toNat*8%2^32 = 2^(k+3) := by
    rw [← hpages, hsize, pow_add]
    refine Nat.mod_eq_of_lt ?_
    calc 2^k*2^3 ≤ 2^28*2^3 := Nat.mul_le_mul_right _ (Nat.pow_le_pow_right (by decide) hk)
      _ < 2^32 := by decide
  rw [hround, height]
  exact dvd_roundUpRegion

/-- The maps of a run have bits for pages of the heap only. -/
theorem pagesOnly_reachable (h : Reachable (Booted g) (PageAllocator.step g) (fun _ _ => True) sys) :
    HeapLayout g ∧ PagesOnly g sys.alloc := by
  induction h with
  | start hi =>
    refine ⟨hi.heapLayout, ?_⟩
    obtain ⟨c, heapStart, heapEnd, pageSizeAddr, pageSize, before, hinit⟩ := hi
    obtain ⟨-, -, -, halloc⟩ := init_some hinit
    intro box i _ hbit
    rw [halloc] at hbit
    simp at hbit
  | @step s s' call _ _ hs ih =>
    obtain ⟨hlayout, hpages⟩ := ih
    refine ⟨hlayout, ?_⟩
    cases call with
    | malloc box table =>
      obtain rfl := Option.some.inj hs
      exact pagesOnly_malloc hlayout.wellFormed hpages
    | free box table =>
      obtain rfl := Option.some.inj hs
      exact pagesOnly_free hpages

/-- The geometry of a run is that of its boot. -/
theorem dvd_headEndRounded_reachable
    (h : Reachable (Booted g) (PageAllocator.step g) (fun _ _ => True) sys)
    (hsize : g.pageSize = 2^k) (hk : k ≤ 28) : 2^(k+3) ∣ g.headEndRounded :=
  h.invariant (fun _ => 2^(k+3) ∣ g.headEndRounded) (fun _ hi => hi.dvd_headEndRounded hsize hk)
    fun _ _ _ hi _ _ => hi

end Layout

/-! ## The region of a group of pages -/

section Groups

variable {g : Geometry} {k octet : ℕ} {alloc : PageAllocator.State} {box : BoxId} {address : Word}
  {mask : BitVec 8}

/-- Where the region of a group of eight pages starts. -/
def groupStart (g : Geometry) (octet : ℕ) : Word :=
  BitVec.ofNat 32 g.headEndRounded-
    BitVec.ofNat 32 (g.pageSize*8)*BitVec.ofNat 32 (3-octet+1)

/-- The region starts at a multiple of its size. -/
theorem dvd_groupStart (hsize : g.pageSize = 2^k) (hk : k ≤ 28)
    (hround : 2^(k+3) ∣ g.headEndRounded) : 2^(k+3) ∣ (groupStart g octet).toNat := by
  have hword : 2^(k+3) ∣ 2^32 := Nat.pow_dvd_pow 2 (by omega)
  have heq : g.pageSize*8 = 2^(k+3) := by rw [hsize, pow_add]; norm_num
  rw [groupStart, BitVec.toNat_sub, BitVec.toNat_mul, BitVec.toNat_ofNat, BitVec.toNat_ofNat, heq,
    Nat.dvd_mod_iff hword]
  refine Nat.dvd_add (Nat.dvd_sub hword ?_) ?_
  · rw [Nat.dvd_mod_iff hword]
    exact Dvd.dvd.mul_right ((Nat.dvd_mod_iff hword).mpr dvd_rfl) _
  · exact (Nat.dvd_mod_iff hword).mpr hround

/-- Different groups start at different addresses. -/
theorem groupStart_inj (hsize : g.pageSize = 2^k) (hk : k ≤ 26) {octet' : ℕ} (hoctet : octet < 4)
    (hoctet' : octet' < 4) (h : groupStart g octet = groupStart g octet') : octet = octet' := by
  have heq : g.pageSize*8 = 2^(k+3) := by rw [hsize, pow_add]; norm_num
  have hpos : 0 < 2^(k+3) := Nat.two_pow_pos _
  have hbound : 2^(k+3)*4 < 2^32 := by
    calc 2^(k+3)*4 ≤ 2^29*4 :=
          Nat.mul_le_mul_right _ (Nat.pow_le_pow_right (by decide) (by omega))
      _ < 2^32 := by decide
  have hword := congrArg BitVec.toNat ((BitVec.sub_right_inj _).mp h)
  have hnat : ∀ octet < 4, (BitVec.ofNat 32 (g.pageSize*8)*BitVec.ofNat 32 (3-octet+1)).toNat =
      2^(k+3)*(3-octet+1) := by
    intro octet hoctet
    have hmul : 2^(k+3)*(3-octet+1) ≤ 2^(k+3)*4 := Nat.mul_le_mul_left _ (by omega)
    rw [BitVec.toNat_mul, BitVec.toNat_ofNat, BitVec.toNat_ofNat, heq,
      Nat.mod_eq_of_lt (by omega : 2^(k+3) < 2^32), Nat.mod_eq_of_lt (by omega : 3-octet+1 < 2^32),
      Nat.mod_eq_of_lt (by omega)]
  rw [hnat octet hoctet, hnat octet' hoctet'] at hword
  have := Nat.eq_of_mul_eq_mul_left hpos hword
  omega

/-- An aligned region covers the addresses from its base address on. -/
theorem covers_iff {r : Region} (hdvd : r.bytes ∣ r.address.toNat) (hpos : 0 < r.bytes) :
    r.covers address = true ↔
      r.address.toNat ≤ address.toNat ∧ address.toNat < r.address.toNat+r.bytes := by
  obtain ⟨n, hn⟩ := hdvd
  rw [Region.covers, beq_iff_eq, hn, Nat.mul_div_cancel_left _ hpos, Nat.div_eq_iff hpos]
  have hswap : n*r.bytes = r.bytes*n := Nat.mul_comm _ _
  omega

/-- The subregions are counted from the base address of an aligned region. -/
theorem subregionOf_eq {r : Region} (hdvd : r.bytes ∣ r.address.toNat) (hpos : 0 < r.bytes)
    (hcovers : r.covers address = true) :
    r.subregionOf address = (address.toNat-r.address.toNat)/r.subregionBytes := by
  obtain ⟨hlow, hhigh⟩ := (covers_iff hdvd hpos).mp hcovers
  obtain ⟨n, hn⟩ := hdvd
  have hmod : address.toNat%r.bytes = address.toNat-r.address.toNat := by
    have hsplit : address.toNat = address.toNat-r.address.toNat+r.bytes*n := by omega
    rw [hsplit, Nat.add_mul_mod_self_left, Nat.mod_eq_of_lt (by omega)]
    omega
  rw [Region.subregionOf, hmod]

theorem bytes_pageAttributes (hlow : 10 ≤ k) (hk : k ≤ 28) (start : Word) :
    Region.bytes ⟨start, pageAttributes k mask⟩ = 2^(k+3) := by
  rw [Region.bytes, sizeField_pageAttributes hlow hk]

theorem position_lt (hg : HeapLayout g) {page : ℕ} (hpage : page < g.countTotal) :
    position g page < 32 := by
  obtain ⟨gap, hspan, hshift, -⟩ := hg.gap
  unfold position
  omega

/-- A page whose bit is in the group lies in the region. -/
theorem pageOrigin_group (hg : HeapLayout g) (hsize : g.pageSize = 2^k) (hk : k ≤ 28)
    (hround : 2^(k+3) ∣ g.headEndRounded) (hoctet : octet < 4) {j page : ℕ} (hj : j < 8)
    (hpage : page < g.countTotal) (hposition : position g page = octet*8+j) :
    pageOrigin g page = (groupStart g octet).toNat+j*2^k := by
  have hsub := hg.subregion_eq hoctet hpage hposition
  change ((groupStart g octet).toNat+j*g.pageSize)%2^32 = pageOrigin g page at hsub
  rw [← hsub, hsize]
  refine Nat.mod_eq_of_lt ?_
  -- A region that starts at a multiple of its size does not wrap around.
  obtain ⟨n, hn⟩ := @dvd_groupStart g k octet hsize hk hround
  obtain ⟨m, hm⟩ : 2^(k+3) ∣ 2^32 := Nat.pow_dvd_pow 2 (by omega)
  have hlt := (groupStart g octet).isLt
  have hpos : 0 < 2^(k+3) := Nat.two_pow_pos _
  have hnm : n < m := by
    rw [hn, hm] at hlt
    exact Nat.lt_of_mul_lt_mul_left hlt
  have hend : 2^(k+3)*n+2^(k+3) ≤ 2^32 := by
    rw [hm, ← Nat.mul_succ]
    exact Nat.mul_le_mul_left _ hnm
  have height : 2^(k+3) = 2^k*8 := by rw [pow_add]; norm_num
  have hinside : j*2^k+2^k ≤ 2^(k+3) := by
    rw [height, ← Nat.succ_mul, Nat.mul_comm]
    exact Nat.mul_le_mul_left _ hj
  have hbyte : 0 < 2^k := Nat.two_pow_pos _
  omega

theorem dvd_pageAttributes (hsize : g.pageSize = 2^k) (hlow : 10 ≤ k) (hk : k ≤ 28)
    (hround : 2^(k+3) ∣ g.headEndRounded) :
    Region.bytes ⟨groupStart g octet, pageAttributes k mask⟩ ∣ (groupStart g octet).toNat := by
  rw [bytes_pageAttributes hlow hk]
  exact dvd_groupStart hsize hk hround

theorem bytes_pageAttributes_pos (hlow : 10 ≤ k) (hk : k ≤ 28) :
    0 < Region.bytes ⟨groupStart g octet, pageAttributes k mask⟩ := by
  rw [bytes_pageAttributes hlow hk]
  exact Nat.two_pow_pos _

/-- The addresses of the region of a group. -/
theorem covers_group_iff (hsize : g.pageSize = 2^k) (hlow : 10 ≤ k) (hk : k ≤ 28)
    (hround : 2^(k+3) ∣ g.headEndRounded) :
    Region.covers ⟨groupStart g octet, pageAttributes k mask⟩ address = true ↔
      (groupStart g octet).toNat ≤ address.toNat ∧
        address.toNat < (groupStart g octet).toNat+2^k*8 := by
  rw [covers_iff (dvd_pageAttributes hsize hlow hk hround) (bytes_pageAttributes_pos hlow hk),
    bytes_pageAttributes hlow hk, pow_add]
  norm_num

/-- A page is in the region of the group of its bit. -/
theorem group_covers (hg : HeapLayout g) (hsize : g.pageSize = 2^k) (hlow : 10 ≤ k) (hk : k ≤ 28)
    (hround : 2^(k+3) ∣ g.headEndRounded) {page : ℕ} (hin : InPage g page address) :
    Region.covers ⟨groupStart g (position g page/8), pageAttributes k mask⟩ address = true := by
  obtain ⟨hpage, hfrom, hto⟩ := hin
  have hlt := position_lt hg hpage
  have horigin := pageOrigin_group hg hsize hk hround (by omega : position g page/8 < 4)
    (Nat.mod_lt (position g page) (by decide)) hpage (by omega)
  have hinside : position g page%8*2^k+2^k ≤ 2^k*8 := by
    rw [← Nat.succ_mul, Nat.mul_comm]
    exact Nat.mul_le_mul_left _ (Nat.mod_lt _ (by decide))
  rw [hsize] at hto
  refine (covers_group_iff hsize hlow hk hround).mpr ?_
  omega

/-- Subregions of the region of a group have the size of a page. -/
theorem subregionOf_group_eq (hsize : g.pageSize = 2^k) (hlow : 10 ≤ k) (hk : k ≤ 28)
    (hround : 2^(k+3) ∣ g.headEndRounded)
    (hcovers : Region.covers ⟨groupStart g octet, pageAttributes k mask⟩ address = true) :
    Region.subregionOf ⟨groupStart g octet, pageAttributes k mask⟩ address =
      (address.toNat-(groupStart g octet).toNat)/2^k := by
  rw [subregionOf_eq (dvd_pageAttributes hsize hlow hk hround)
    (bytes_pageAttributes_pos hlow hk) hcovers, subregionBytes_pageAttributes hlow hk]

/-- An address in a page is in the subregion with the number of its bit. -/
theorem subregionOf_group (hg : HeapLayout g) (hsize : g.pageSize = 2^k) (hlow : 10 ≤ k)
    (hk : k ≤ 28) (hround : 2^(k+3) ∣ g.headEndRounded) {page : ℕ} (hin : InPage g page address) :
    Region.subregionOf ⟨groupStart g (position g page/8), pageAttributes k mask⟩ address =
      position g page%8 := by
  have hlt := position_lt hg hin.1
  rw [subregionOf_group_eq hsize hlow hk hround (group_covers hg hsize hlow hk hround hin)]
  obtain ⟨hpage, hfrom, hto⟩ := hin
  have horigin := pageOrigin_group hg hsize hk hround (by omega : position g page/8 < 4)
    (Nat.mod_lt (position g page) (by decide)) hpage (by omega)
  rw [hsize] at hto
  refine Nat.div_eq_of_lt_le (by omega) ?_
  rw [Nat.succ_mul]
  omega

/-- An address in the region of a group is in the page with the bit of its
subregion, and in no other page. -/
theorem inPage_iff (hg : HeapLayout g) (hsize : g.pageSize = 2^k) (hlow : 10 ≤ k) (hk : k ≤ 26)
    (hround : 2^(k+3) ∣ g.headEndRounded) (hoctet : octet < 4)
    (hcovers : Region.covers ⟨groupStart g octet, pageAttributes k mask⟩ address = true)
    {page : ℕ} :
    InPage g page address ↔ page < g.countTotal ∧ position g page =
      octet*8+Region.subregionOf ⟨groupStart g octet, pageAttributes k mask⟩ address := by
  constructor
  · intro hin
    have hlt := position_lt hg hin.1
    -- The page is in the region of its own group, which is this one.
    have hsame := @group_covers g k address mask hg hsize hlow (by omega) hround page hin
    have hstart : groupStart g (position g page/8) = groupStart g octet := by
      rw [Region.covers, beq_iff_eq, bytes_pageAttributes hlow (by omega)] at hcovers hsame
      have hdvd : ∀ octet, 2^(k+3) ∣ (groupStart g octet).toNat := fun octet =>
        dvd_groupStart hsize (by omega) hround
      refine BitVec.eq_of_toNat_eq ?_
      rw [← Nat.div_mul_cancel (hdvd (position g page/8)), ← Nat.div_mul_cancel (hdvd octet)]
      exact congrArg (·*2^(k+3)) (hsame.symm.trans hcovers)
    have hgroup := groupStart_inj hsize hk (by omega) hoctet hstart
    have hsub := @subregionOf_group g k address mask hg hsize hlow (by omega) hround page hin
    rw [hgroup] at hsub
    exact ⟨hin.1, by omega⟩
  · rintro ⟨hpage, hposition⟩
    have hrange := (covers_group_iff hsize hlow (by omega) hround).mp hcovers
    rw [subregionOf_group_eq hsize hlow (by omega) hround hcovers] at hposition
    have hpage_pos : 0 < 2^k := Nat.two_pow_pos _
    set j := (address.toNat-(groupStart g octet).toNat)/2^k with hj
    have hj8 : j < 8 := Nat.div_lt_of_lt_mul (by omega)
    have hjlow : j*2^k ≤ address.toNat-(groupStart g octet).toNat := Nat.div_mul_le_self _ _
    have hjhigh : address.toNat-(groupStart g octet).toNat < j*2^k+2^k := by
      have := Nat.lt_div_mul_add hpage_pos (a := address.toNat-(groupStart g octet).toNat)
      omega
    have horigin := pageOrigin_group hg hsize (by omega) hround hoctet hj8 hpage hposition
    refine ⟨hpage, ?_, ?_⟩
    · rw [horigin]
      omega
    · rw [horigin, hsize]
      omega

/-- The region of a group has its subregions enabled for the pages of a box. -/
theorem agrees_group (hg : HeapLayout g) (hpages : PagesOnly g alloc) (hsize : g.pageSize = 2^k)
    (hlow : 10 ≤ k) (hk : k ≤ 26) (hround : 2^(k+3) ∣ g.headEndRounded) (hoctet : octet < 4)
    {region : MpuRegion} (hstart : region.start = groupStart g octet)
    (hconfig : region.config =
      pageAttributes k ((alloc.ownerMap box 0 >>> (octet*8)).setWidth 8)) :
    Agrees g alloc box region := by
  have hregisters : registers region = ⟨groupStart g octet,
      pageAttributes k ((alloc.ownerMap box 0 >>> (octet*8)).setWidth 8)⟩ := by
    rw [registers, hstart, hconfig]
  refine ⟨?_, ?_, fun address hcovers => ?_⟩
  · rw [hregisters]
    simp [Region.enabled, pageAttributes]
  · rw [hregisters, bytes_pageAttributes hlow (by omega), hsize, pow_add]
    norm_num
  · rw [hregisters] at hcovers ⊢
    have hpage := fun page => @inPage_iff g k octet address _ hg hsize hlow hk hround hoctet hcovers page
    have hj : Region.subregionOf ⟨groupStart g octet,
        pageAttributes k ((alloc.ownerMap box 0 >>> (octet*8)).setWidth 8)⟩ address < 8 := by
      rw [Region.subregionOf, bytes_pageAttributes hlow (by omega),
        subregionBytes_pageAttributes hlow (by omega), pow_add]
      exact Nat.div_lt_of_lt_mul (Nat.mod_lt _ (by positivity))
    rw [subregionEnabled_pageAttributes hlow (by omega) _ _ hj, mask_getLsbD _ hoctet hj]
    generalize Region.subregionOf ⟨groupStart g octet,
        pageAttributes k ((alloc.ownerMap box 0 >>> (octet*8)).setWidth 8)⟩ address = j at hpage hj
    constructor
    · intro hbit
      obtain ⟨page, hlt, hposition⟩ := hpages box (octet*8+j) (by omega) hbit
      refine ⟨page, (hpage page).mpr ⟨hlt, hposition⟩, ?_⟩
      rw [mapGet, hposition]
      exact hbit
    · rintro ⟨page, hin, hown⟩
      obtain ⟨-, hposition⟩ := (hpage page).mp hin
      rw [mapGet, hposition] at hown
      exact hown

/-- A multiple of a power of two has no low bits. -/
theorem and_mask_eq_zero {start : Word} {n : ℕ} (hn : n < 32) (h : 2^n ∣ start.toNat) :
    start &&& ((1 : Word) <<< n-1) = 0 := by
  have hmask : ((1 : Word) <<< n-1).toNat = 2^n-1 := by
    interval_cases n <;> decide
  refine BitVec.eq_of_toNat_eq ?_
  rw [BitVec.toNat_and, hmask, Nat.and_two_pow_sub_one_eq_mod, Nat.mod_eq_zero_of_dvd h]
  rfl

/-- Such a region can always be loaded. -/
theorem pushPages_some (hsize : g.pageSize = 2^k) (hlow : 10 ≤ k) (hk : k ≤ 26)
    (hround : 2^(k+3) ∣ g.headEndRounded) (mask : BitVec 8) (s : ArmMpu.State) :
    ∃ region, vmpuMemPushPageAclIterator g mask (3-octet) s =
        some (false, vmpuMpuPush region 100 s) ∧
      region.start = groupStart g octet ∧ region.config = pageAttributes k mask := by
  have hbits : roundedBits (BitVec.ofNat 32 (g.pageSize*8)) (tacldefData ||| taclExecute) =
      some (k+3) := by
    rw [hsize]
    interval_cases k <;> decide
  have haligned : groupStart g octet &&& ((1 : Word) <<< (k+3)-1) = 0 :=
    and_mask_eq_zero (by omega) (dvd_groupStart hsize (by omega) hround)
  have hacl : vmpuMapAcl (tacldefData ||| taclExecute) = some 0x03000000 := by decide
  have htranslate : ∃ region, vmpuRegionTranslateAcl (groupStart g octet)
      (BitVec.ofNat 32 (g.pageSize*8)) (tacldefData ||| taclExecute) (~~~(mask.setWidth 32)) =
        some region := by
    rw [vmpuRegionTranslateAcl, hbits, Option.bind_some, hacl]
    exact ⟨_, if_neg (not_not.mpr haligned)⟩
  obtain ⟨region, hregion⟩ := htranslate
  have hpush : vmpuMemPushPageAclIterator g mask (3-octet) s =
      some (false, vmpuMpuPush region 100 s) := congrArg (Option.map _) hregion
  rw [hsize] at hregion
  obtain ⟨-, hstart, hconfig⟩ := translate_pages hlow (by omega) hregion
  exact ⟨region, hpush, hstart, hconfig⟩

end Groups

/-! ## Faults and switches -/

section Calls

variable {cfg : Config} {g : Geometry} {sys : System} {s : ArmMpu.State} {k : ℕ}

/-- The region of pages, if any. -/
def loadPages (pages : Option MpuRegion) (s : ArmMpu.State) : ArmMpu.State :=
  pages.elim s fun region => vmpuMpuPush region 100 s

/-- A switch with the region of pages that it loads. -/
def switchWith (cfg : Config) (dstBox : BoxId) (pages : Option MpuRegion) (s : ArmMpu.State) :
    ArmMpu.State :=
  if dstBox ≠ 0 then
    pushAll 2 (cfg.regions dstBox).tail
      (loadPages pages (pushAll 255 (cfg.regions dstBox).head?.toList (vmpuMpuInvalidate s)))
  else
    pushAll 1 (cfg.regions 0) (pushAll 2 (cfg.regions dstBox) (loadPages pages (vmpuMpuInvalidate s)))

/-- The iteration loads the region of one group of pages, or nothing. -/
theorem iteratePageMasks_agrees (hg : HeapLayout g) (hpages : PagesOnly g s.alloc)
    (hsize : g.pageSize = 2^k) (hlow : 10 ≤ k) (hk : k ≤ 26)
    (hround : 2^(k+3) ∣ g.headEndRounded) {octets ii : ℕ} (hoctets : ii+octets ≤ 4) :
    ∃ pages, iteratePageMasks g (vmpuMemPushPageAclIterator g) octets ii s =
        some (loadPages pages s) ∧
      ∀ region ∈ pages, Agrees g s.alloc s.activeBox region := by
  induction octets generalizing ii with
  | zero => exact ⟨none, rfl, fun region h => by cases h⟩
  | succ octets ih =>
    have hlast : pageMapCount*4-1 = 3 := rfl
    have hword : (3-ii)/4 = 0 := by omega
    have hoctet : (3-ii)%4 = 3-ii := by omega
    have hindex : 3-(3-ii) = ii := by omega
    simp only [iteratePageMasks, hlast, hword, hoctet]
    split
    · obtain ⟨region, hpush, hstart, hconfig⟩ := @pushPages_some g k (3-ii) hsize hlow hk hround
        ((s.alloc.ownerMap s.activeBox 0 >>> ((3-ii)*8)).setWidth 8) s
      rw [hindex] at hpush
      refine ⟨some region, ?_, fun region' hmem => ?_⟩
      · rw [hpush]
        rfl
      · obtain rfl := Option.mem_some_iff.mp hmem
        exact agrees_group hg hpages hsize hlow hk hround (by omega) hstart hconfig
    · exact ih (by omega)

/-- A switch loads such a region, or no region of pages. -/
theorem switch_agrees (hg : HeapLayout g) (hpages : PagesOnly g s.alloc)
    (hsize : g.pageSize = 2^k) (hlow : 10 ≤ k) (hk : k ≤ 26)
    (hround : 2^(k+3) ∣ g.headEndRounded) {dstBox : BoxId} {t : ArmMpu.State}
    (hs : vmpuSwitch cfg g dstBox {s with activeBox := dstBox} = some t) :
    ∃ pages, t = switchWith cfg dstBox pages {s with activeBox := dstBox} ∧
      ∀ region ∈ pages, Agrees g s.alloc dstBox region := by
  have htotal : g.countTotal ≤ 16 := hg.wellFormed.total_le
  obtain ⟨-, hactive, halloc, -⟩ := vmpuMpuInvalidate_spec {s with activeBox := dstBox}
  set u := vmpuMpuInvalidate {s with activeBox := dstBox} with hu
  have hiterate : ∀ v : ArmMpu.State, v.alloc = s.alloc → v.activeBox = dstBox →
      ∃ pages, pageAllocatorIterateActivePageMasks g (vmpuMemPushPageAclIterator g) v =
          some (loadPages pages v) ∧ ∀ region ∈ pages, Agrees g s.alloc dstBox region := by
    intro v hv_alloc hv_active
    have := @iteratePageMasks_agrees g v k hg (hv_alloc ▸ hpages) hsize hlow hk hround
      ((g.countTotal+7)/8) 0 (by omega)
    rwa [hv_alloc, hv_active] at this
  rcases vmpuSwitch_cases hs with ⟨hdst, region, rest, v, hbox, hmasks, rfl⟩ |
    ⟨hdst, v, hmasks, rfl⟩
  · obtain ⟨pages, hload, hagrees⟩ := hiterate (vmpuMpuPush region 255 u) halloc hactive
    obtain rfl := Option.some.inj (hmasks.symm.trans hload)
    refine ⟨pages, ?_, hagrees⟩
    rw [switchWith, if_pos hdst, hbox]
    rfl
  · obtain ⟨pages, hload, hagrees⟩ := hiterate u halloc hactive
    obtain rfl := Option.some.inj (hmasks.symm.trans hload)
    refine ⟨pages, ?_, hagrees⟩
    rw [switchWith, if_neg (not_not.mpr hdst)]

/-- The page of an address and its group. -/
theorem getActiveMaskForAddress_page (hg : HeapLayout g) {alloc : PageAllocator.State}
    {box : BoxId} {address : Word} (hown : InOwnPage g alloc box address) :
    ∃ page, InPage g page address ∧ mapGet g (alloc.ownerMap box) page = true ∧
      getActiveMaskForAddress g box alloc address.toNat = .ok
        ((alloc.ownerMap box 0 >>> (position g page/8*8)).setWidth 8, position g page/8, page) := by
  obtain ⟨page, hin, hmap⟩ := hown
  have ⟨hpage, hrange⟩ := hin
  have htotal := hg.wellFormed.total_le
  have hnumber := (hg.getPageFromAddress_iff hpage).mpr hrange
  have hused : page ≠ pageUnused := by
    have hmax : pageMaxCount = 16 := rfl
    have hunused : pageUnused = 255 := rfl
    omega
  have hactive : activePage g box alloc address.toNat = .ok page := by
    simp only [activePage, hnumber]
    rw [if_neg hused, if_neg (by rw [hmap]; decide)]
  have hlt := position_lt hg hpage
  have hfirst : position g page/32 = 0 := by omega
  have hoffset : position g page%32/8*8 = position g page/8*8 := by omega
  refine ⟨page, hin, hmap, ?_⟩
  rw [getActiveMaskForAddress, hactive]
  change Except.ok _ = _
  rw [hfirst, hoffset]

/-- A fault in a page of the active box loads such a region, with the address
of the fault in it. -/
theorem fault_agrees (hg : HeapLayout g) (hpages : PagesOnly g s.alloc)
    (hsize : g.pageSize = 2^k) (hlow : 10 ≤ k) (hk : k ≤ 26)
    (hround : 2^(k+3) ∣ g.headEndRounded) {faultAddr faultStatus : Word}
    (hstatus : faultStatus = cfsrDataAccess ∨ faultStatus &&& cfsrStacking ≠ 0)
    (hown : InOwnPage g s.alloc s.activeBox faultAddr) :
    ∃ region page, vmpuFaultRecoveryMpu cfg g faultAddr faultStatus s =
        some (true, vmpuMpuPush region 100
          {s with alloc := pageAllocatorRegisterFault g page s.alloc}) ∧
      (registers region).covers faultAddr = true ∧ Agrees g s.alloc s.activeBox region := by
  obtain ⟨page, hin, -, hmask⟩ := getActiveMaskForAddress_page hg hown
  have hoctet : position g page/8 < 4 := by
    have hlt := position_lt hg hin.1
    omega
  have hlast : pageMapCount*4-1 = 3 := rfl
  obtain ⟨region, hpush, hstart, hconfig⟩ := @pushPages_some g k (position g page/8) hsize hlow hk
    hround ((s.alloc.ownerMap s.activeBox 0 >>> (position g page/8*8)).setWidth 8)
    {s with alloc := pageAllocatorRegisterFault g page s.alloc}
  refine ⟨region, page, ?_, ?_, agrees_group hg hpages hsize hlow hk hround hoctet hstart hconfig⟩
  · rw [vmpuFaultRecoveryMpu, if_neg (not_not.mpr hstatus), hmask]
    dsimp only
    rw [hlast, hpush]
    rfl
  · rw [registers, hstart, hconfig]
    exact group_covers hg hsize hlow (by omega) hround hin

end Calls

/-! ## Every run -/

section Runs

variable {cfg : Config} {g : Geometry} {sys : System}

/-- For every heap and every run of the page allocator: a fault in a page of
the active box loads a region with the address in which the enabled subregions
are exactly the pages of the box, and a switch loads no other kind of region of
pages. -/
theorem subregions_agree
    (h : Reachable (Booted g) (PageAllocator.step g) (fun _ _ => True) sys)
    (hsize : g.pageSize ≤ 2^26) {s : ArmMpu.State} (halloc : s.alloc = sys.alloc) :
    (∀ faultAddr faultStatus : Word,
      (faultStatus = cfsrDataAccess ∨ faultStatus &&& cfsrStacking ≠ 0) →
      InOwnPage g sys.alloc s.activeBox faultAddr →
      ∃ region page, vmpuFaultRecoveryMpu cfg g faultAddr faultStatus s =
          some (true, vmpuMpuPush region 100
            {s with alloc := pageAllocatorRegisterFault g page s.alloc}) ∧
        (registers region).covers faultAddr = true ∧ Agrees g sys.alloc s.activeBox region) ∧
    ∀ dstBox t, vmpuSwitch cfg g dstBox {s with activeBox := dstBox} = some t →
      ∃ pages, t = switchWith cfg dstBox pages {s with activeBox := dstBox} ∧
        ∀ region ∈ pages, Agrees g sys.alloc dstBox region := by
  obtain ⟨hg, hpages⟩ := pagesOnly_reachable h
  obtain ⟨k, hlow, -, hpow⟩ := hg.pageSize_eq
  have hk : k ≤ 26 := (Nat.pow_le_pow_iff_right (by decide)).mp (hpow ▸ hsize)
  have hround := dvd_headEndRounded_reachable h hpow (by omega)
  rw [← halloc] at hpages ⊢
  exact ⟨fun faultAddr faultStatus hstatus hown =>
      fault_agrees hg hpages hpow hlow hk hround hstatus hown,
    fun dstBox t hs => switch_agrees hg hpages hpow hlow hk hround hs⟩

/-- Box 1 has taken the first of four pages and accesses it. -/
theorem subregions_agree_fourPages :
    ∃ sys, PageAllocator.step fourPages booted (.malloc 1 (tableOf [0])) = some sys ∧
      ∃ region page, vmpuFaultRecoveryMpu twoBoxes fourPages 0x20001010 cfsrDataAccess
          {bootedState with activeBox := 1, alloc := sys.alloc} =
            some (true, vmpuMpuPush region 100 {bootedState with
              activeBox := 1
              alloc := pageAllocatorRegisterFault fourPages page sys.alloc}) ∧
        (registers region).covers 0x20001010 = true ∧ Agrees fourPages sys.alloc 1 region := by
  have hbooted : Booted fourPages booted :=
    ⟨smallDevice, 0x20001000, 0x20002000, 0x400, 1024, booted.alloc, rfl⟩
  obtain ⟨sys, hs⟩ : ∃ sys,
      PageAllocator.step fourPages booted (.malloc 1 (tableOf [0])) = some sys := ⟨_, rfl⟩
  have hreach : Reachable (Booted fourPages) (PageAllocator.step fourPages) (fun _ _ => True) sys :=
    .step (.start hbooted) trivial hs
  have hown : InOwnPage fourPages sys.alloc 1 0x20001010 := by
    obtain rfl := Option.some.inj hs
    exact ⟨0, ⟨by decide, by decide, by decide⟩, by decide +kernel⟩
  have hagree := @subregions_agree twoBoxes fourPages sys hreach (by decide)
    {bootedState with activeBox := 1, alloc := sys.alloc} rfl
  exact ⟨sys, hs, hagree.1 0x20001010 cfsrDataAccess (.inl rfl) hown⟩

end Runs

end Uvisor.PageSubregions
