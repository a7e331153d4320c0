import Uvisor.BitArray
import Uvisor.Execution
import Mathlib.Tactic.Common

/-!
# The page allocator

The page heap is cut into at most `pageMaxCount` pages of one size. A usage
map has one bit for each page in use, and every box has an owner map with one
bit for each page it may access. Pages are handed out by `malloc` and taken
back by `free`; both are supervisor calls of the active box on a page table
in its own memory. `init` runs once at boot and fixes the geometry.
-/

namespace Uvisor.PageAllocator

/-- `UVISOR_MAX_BOXES`. -/
abbrev maxBoxes : ℕ := 5

/-- `UVISOR_PAGE_MAX_COUNT`. -/
abbrev pageMaxCount : ℕ := 16

/-- `UVISOR_PAGE_SIZE_MINIMUM`. -/
abbrev pageSizeMinimum : ℕ := 1024

/-- `UVISOR_PAGE_MAP_COUNT`, the number of words in a page map. -/
abbrev pageMapCount : ℕ := (pageMaxCount+31+8)/32

/-- `UVISOR_PAGE_UNUSED`, an eight-bit page number that no page has. -/
abbrev pageUnused : ℕ := 255

instance : NeZero maxBoxes := ⟨Nat.succ_ne_zero 4⟩

/-- A box identifier; the active box always has one of these. -/
abbrev BoxId := Fin maxBoxes

/-- A map of page bits, by word. -/
abbrev PageMap := ℕ → BitVec 32

/-- The `UVISOR_ERROR_PAGE_*` codes. -/
inductive PageError where
  | ok
  | outOfMemory
  | invalidPageTable
  | invalidPageSize
  | invalidPageOrigin
  | invalidPageOwner
  | invalidPageCount
  deriving DecidableEq, Repr

/-- What `init` fixes for the rest of the run. -/
structure Geometry where
  /-- `g_page_size`. -/
  pageSize : ℕ
  /-- `g_page_heap_start`. -/
  heapStart : ℕ
  /-- `g_page_heap_end`. -/
  heapEnd : ℕ
  /-- `g_page_count_total`, an eight-bit counter. -/
  countTotal : ℕ
  /-- `g_page_map_shift`, eight bits. -/
  mapShift : ℕ
  /-- `g_page_head_end_rounded`. -/
  headEndRounded : ℕ
  deriving DecidableEq, Repr

/-- What the calls change. -/
structure State where
  /-- `g_page_owner_map`. -/
  ownerMap : BoxId → PageMap
  /-- `g_page_usage_map`. -/
  usageMap : PageMap
  /-- `g_page_count_free`, an eight-bit counter. -/
  countFree : ℕ
  /-- `g_page_fault_table`. -/
  faultTable : ℕ → ℕ
  /-- The bytes of the page heap, by address. -/
  memory : ℕ → UInt8

/-- A `UvisorPageTable` in the memory of the calling box. -/
structure Table where
  /-- The page size in bytes. -/
  pageSize : ℕ
  /-- The number of pages in the page table. -/
  pageCount : ℕ
  /-- The words found from `page_origins` on. -/
  pageOrigins : ℕ → ℕ

/-! ### Geometry -/

/-- The memory protection hardware, which decides the alignment of regions. -/
inductive Port where
  | armv7m
  | kinetis
  | armv8m
  deriving DecidableEq, Repr

/-- Difference of two 32-bit words. -/
def wordSub (a b : ℕ) : ℕ := (a+2^32-b)%2^32

/-- `vmpu_is_region_size_valid`. The bit length minus one is the base-two
logarithm, and the masked sizes are the multiples of 32. -/
def isRegionSizeValid : Port → ℕ → Bool
  | .armv7m, size => 5 ≤ size.log2 && size.log2 ≤ 29 && 2^size.log2 == size
  | .kinetis, size | .armv8m, size =>
    32 ≤ size/32*32 && size/32*32 ≤ 2^29 && size/32*32 == size

/-- The alignment used by `vmpu_round_up_region` for a valid size. -/
def regionAlignment : Port → ℕ → ℕ
  | .armv7m, size => size
  | .kinetis, _ | .armv8m, _ => 32

/-- `vmpu_round_up_region`: zero for an invalid size or when adding the mask
overflows, otherwise the low bits of the sum are masked out. -/
def roundUpRegion (port : Port) (addr size : ℕ) : ℕ :=
  if !isRegionSizeValid port size then 0
  else
    let mask := regionAlignment port size - 1
    let roundedAddr := (addr+mask)%2^32
    if roundedAddr < addr then 0 else roundedAddr/(mask+1)*(mask+1)

/-- The linker symbols the pointer checks of `init` read. -/
structure LinkerConfig where
  /-- `flash_start`. -/
  flashStart : ℕ
  /-- `secure_start`. -/
  secureStart : ℕ
  /-- `public_sram_start`. -/
  publicSramStart : ℕ
  /-- `public_sram_end`. -/
  publicSramEnd : ℕ

/-- `vmpu_public_flash_addr`. -/
def LinkerConfig.publicFlashAddr (c : LinkerConfig) (addr : ℕ) : Bool :=
  c.flashStart ≤ addr && addr ≤ wordSub c.secureStart 4

/-- `vmpu_public_sram_addr`. -/
def LinkerConfig.publicSramAddr (c : LinkerConfig) (addr : ℕ) : Bool :=
  c.publicSramStart ≤ addr && addr ≤ wordSub c.publicSramEnd 4

/-- Number of pages that fit between the aligned start and the heap end. The
quotient is stored in eight bits. -/
def countPages (heapEnd start pageSize : ℕ) : ℕ :=
  if 0xFFFFFFFF - pageSize < start ∨ heapEnd < start+pageSize then 0
  else (heapEnd-start)/pageSize%256

/-- The clamped page heap, nearest to the heap end, and the left-aligned shift
of its page maps. -/
def layout (port : Port) (heapEnd start pageSize : ℕ) : Geometry :=
  let counted := countPages heapEnd start pageSize
  let total := if pageMaxCount < counted then pageMaxCount else counted
  let skipped := if pageMaxCount < counted then counted-pageMaxCount else 0
  let first := (start+skipped*pageSize)%2^32
  let last := (first+total*pageSize)%2^32
  let rounded := roundUpRegion port last (pageSize*8%2^32)
  { pageSize := pageSize
    heapStart := first
    heapEnd := last
    countTotal := total
    mapShift := (pageMapCount*32-total+256 - wordSub rounded last/pageSize%256)%256
    headEndRounded := rounded }

/-- `page_allocator_init`, with the page size read through its pointer. A
failed sanity check halts. -/
def init (port : Port) (c : LinkerConfig) (heapStart heapEnd pageSizeAddr pageSize : UInt32)
    (s : State) : Option (Geometry × State) :=
  if pageSizeAddr = 0 ∨ !c.publicFlashAddr pageSizeAddr.toNat then none
  else if heapStart = 0 ∨ !c.publicSramAddr heapStart.toNat then none
  else if heapEnd = 0 ∨ !c.publicSramAddr heapEnd.toNat then none
  else if heapEnd < heapStart then none
  else if pageSize.toNat < pageSizeMinimum ∨ !isRegionSizeValid port pageSize.toNat then none
  else
    let start := roundUpRegion port heapStart.toNat pageSize.toNat
    if start = 0 then none
    else
      let g := layout port heapEnd.toNat start pageSize.toNat
      some (g, { s with
        ownerMap := fun _ _ => 0
        usageMap := fun _ => 0
        countFree := g.countTotal })

/-- `page_allocator_get_page_from_address`. The quotient is returned in eight
bits. -/
def getPageFromAddress (g : Geometry) (address : ℕ) : ℕ :=
  if address < g.heapStart ∨ g.heapEnd ≤ address then pageUnused
  else (address-g.heapStart)/g.pageSize%256

/-- Address of the first byte of a page. -/
def pageOrigin (g : Geometry) (page : ℕ) : ℕ := (g.heapStart+page*g.pageSize)%2^32

/-! ### Page maps -/

/-- Bit position of an eight-bit page number in the maps. -/
def position (g : Geometry) (page : ℕ) : ℕ := (page+g.mapShift)%256

/-- `page_allocator_map_set`. -/
def mapSet (g : Geometry) (map : PageMap) (page : ℕ) : PageMap :=
  BitArray.set map (position g page)

/-- `page_allocator_map_clear`. -/
def mapClear (g : Geometry) (map : PageMap) (page : ℕ) : PageMap :=
  BitArray.clear map (position g page)

/-- `page_allocator_map_get`. -/
def mapGet (g : Geometry) (map : PageMap) (page : ℕ) : Bool :=
  BitArray.get map (position g page)

/-- Different eight-bit page numbers have different bits, whatever the shift. -/
theorem position_inj (g : Geometry) {p q : ℕ} (hp : p < 256) (hq : q < 256)
    (h : position g p = position g q) : p = q := by
  unfold position at h
  omega

theorem mapGet_mapSet (g : Geometry) (map : PageMap) {p q : ℕ} (hp : p < 256) (hq : q < 256) :
    mapGet g (mapSet g map p) q = (decide (p = q) || mapGet g map q) := by
  have hiff : position g p = position g q ↔ p = q :=
    ⟨position_inj g hp hq, fun h => by rw [h]⟩
  rw [mapGet, mapSet, BitArray.get_set (by decide), decide_eq_decide.mpr hiff]
  rfl

theorem mapGet_mapClear (g : Geometry) (map : PageMap) {p q : ℕ} (hp : p < 256) (hq : q < 256) :
    mapGet g (mapClear g map p) q = (!decide (p = q) && mapGet g map q) := by
  have hiff : position g p = position g q ↔ p = q :=
    ⟨position_inj g hp hq, fun h => by rw [h]⟩
  rw [mapGet, mapClear, BitArray.get_clear (by decide), decide_eq_decide.mpr hiff]
  rfl

@[simp] theorem mapGet_zero (g : Geometry) (page : ℕ) :
    mapGet g (fun _ => 0#32) page = false :=
  BitArray.get_zero _

/-! ### Allocation -/

/-- `page_allocator_reset_faults`. -/
def resetFaults (g : Geometry) (page : ℕ) (faults : ℕ → ℕ) : ℕ → ℕ :=
  if page < g.countTotal then Function.update faults page 0 else faults

/-- Zero the entire page before handing it out. -/
def zeroPage (g : Geometry) (page : ℕ) (memory : ℕ → UInt8) : ℕ → UInt8 := fun address =>
  if pageOrigin g page ≤ address ∧ address < pageOrigin g page+g.pageSize then 0
  else memory address

/-- Hand out one page. Pages of box 0 are accessible to all other boxes. -/
def takePage (g : Geometry) (box : BoxId) (s : State) (page : ℕ) : State :=
  { s with
    usageMap := mapSet g s.usageMap page
    ownerMap := fun b =>
      if box = 0 ∨ b = box then mapSet g (s.ownerMap b) page else s.ownerMap b
    faultTable := resetFaults g page s.faultTable
    memory := zeroPage g page s.memory }

/-- The search loop of `page_allocator_malloc` from a page on, with the number
of pages still to visit and the number still required. It reports the origins
written to the page table in order. -/
def mallocLoop (g : Geometry) (box : BoxId) : ℕ → ℕ → ℕ → State → List ℕ × State
  | 0, _, _, s => ([], s)
  | n+1, page, pagesRequired, s =>
    if pagesRequired = 0 then ([], s)
    else if !mapGet g s.usageMap page then
      let rest := mallocLoop g box n (page+1) (pagesRequired-1) (takePage g box s page)
      (pageOrigin g page :: rest.1, rest.2)
    else mallocLoop g box n (page+1) pagesRequired s

/-- `page_allocator_malloc` called by a box: the returned code, the origins
written to the caller's table and the state left behind. -/
def malloc (g : Geometry) (box : BoxId) (table : Table) (s : State) :
    PageError × List ℕ × State :=
  if table.pageCount = 0 then (.invalidPageCount, [], s)
  else if table.pageSize ≠ g.pageSize then (.invalidPageSize, [], s)
  else if s.countFree < table.pageCount then (.outOfMemory, [], s)
  else
    (.ok, mallocLoop g box g.countTotal 0 table.pageCount
      { s with countFree := s.countFree-table.pageCount })

/-! ### Release -/

/-- Take back one page. Only box 0 removes it from all other boxes. -/
def freePage (g : Geometry) (box : BoxId) (s : State) (page : ℕ) : State :=
  { s with
    usageMap := mapClear g s.usageMap page
    ownerMap := fun b =>
      if box = 0 ∨ b = box then mapClear g (s.ownerMap b) page else s.ownerMap b
    countFree := (s.countFree+1)%256 }

/-- The loop of `page_allocator_free` over the remaining table entries from an
index on. -/
def freeLoop (g : Geometry) (box : BoxId) (table : Table) : ℕ → ℕ → State → PageError × State
  | 0, _, s => (.ok, s)
  | n+1, i, s =>
    let pageIndex := getPageFromAddress g (table.pageOrigins i)
    if pageIndex = pageUnused then (.invalidPageOrigin, s)
    else if mapGet g (s.ownerMap box) pageIndex then
      freeLoop g box table n (i+1) (freePage g box s pageIndex)
    else (.invalidPageOwner, s)

/-- The checks `page_allocator_free` makes before it reads any table entry. -/
def freeCheck (g : Geometry) (table : Table) (s : State) : PageError :=
  if s.countFree = g.countTotal then .invalidPageTable
  else if table.pageSize ≠ g.pageSize then .invalidPageSize
  else if table.pageCount = 0 then .invalidPageCount
  else if wordSub g.countTotal s.countFree < table.pageCount then .invalidPageTable
  else .ok

/-- The page count as the signed counter of the loop: no iterations when the
sign bit is set. -/
def tableSize (pageCount : ℕ) : ℕ := if pageCount < 2^31 then pageCount else 0

/-- `page_allocator_free` called by a box: the returned code and the state
left behind. -/
def free (g : Geometry) (box : BoxId) (table : Table) (s : State) : PageError × State :=
  if freeCheck g table s = .ok then freeLoop g box table (tableSize table.pageCount) 0 s
  else (freeCheck g table s, s)

/-! ### Access -/

/-- The page of an address that the active box may access, as both lookups of
the fault handlers compute it. -/
def activePage (g : Geometry) (box : BoxId) (s : State) (address : ℕ) : Except PageError ℕ :=
  let page := getPageFromAddress g address
  if page = pageUnused then .error .invalidPageOrigin
  else if !mapGet g (s.ownerMap box) page then .error .invalidPageOwner
  else .ok page

/-- `page_allocator_get_active_region_for_address`: start, end and page. -/
def getActiveRegionForAddress (g : Geometry) (box : BoxId) (s : State) (address : ℕ) :
    Except PageError (ℕ × ℕ × ℕ) := do
  let page ← activePage g box s address
  pure (pageOrigin g page, (pageOrigin g page+g.pageSize)%2^32, page)

/-- `page_allocator_get_active_mask_for_address`: mask, index and page. -/
def getActiveMaskForAddress (g : Geometry) (box : BoxId) (s : State) (address : ℕ) :
    Except PageError (BitVec 8 × ℕ × ℕ) := do
  let page ← activePage g box s address
  let p := position g page
  pure ((s.ownerMap box (p/32) >>> (p%32/8*8)).truncate 8, p/8, page)

end Uvisor.PageAllocator
