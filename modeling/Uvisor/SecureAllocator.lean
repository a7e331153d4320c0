import Uvisor.AlignedWords

/-!
# Allocators backed by pages

An allocator is a table of pages, each of which is a pool of the RTOS. It is
created with as many pages as a requested size is said to need, and serves a
request from the first page whose pool has room for it. The pools, the heap that
holds the table and the allocator of pages are used through their interfaces.
-/

namespace Uvisor.SecureAllocator

abbrev Word := BitVec 32

/-! ## Pages and pools -/

/-- A page table. -/
structure PageTable where
  /-- page_size. -/
  pageSize : Word
  /-- page_count. -/
  pageCount : Word
  /-- page_origins. -/
  pageOrigins : ℕ → Word

/-- The memory pools of the RTOS, over its own state. An allocation yields NULL
or a block of the requested size. -/
structure Rtx (σ : Type) where
  /-- osRtxMemoryInit. The status it returns is only printed. -/
  memoryInit : Word → Word → σ → σ
  /-- osRtxMemoryAlloc. -/
  memoryAlloc : Word → Word → σ → Word × σ
  /-- A block lies in the address space. -/
  block : ∀ mem size s, (memoryAlloc mem size s).1 ≠ 0 →
    (memoryAlloc mem size s).1.toNat+size.toNat ≤ 2^32

/-- What an allocator is created from. -/
structure Heap (σ : Type) where
  /-- uvisor_get_page_size. -/
  pageSize : Word
  /-- malloc. -/
  malloc : Word → σ → Word × σ
  /-- free. -/
  free : Word → σ → σ
  /-- uvisor_page_malloc. It fills in the origins of the pages. -/
  pageMalloc : PageTable → σ → Word × (ℕ → Word) × σ

/-- sizeof(mem_block_t). -/
def memBlockSize : Word := 8

/-- sizeof(SecureAllocatorInternal), a page table with one page. -/
def internalSize : Word := 12

/-- Size of page_origins in that table. -/
def pageOriginSize : Word := 4

/-- Two block headers. -/
def blockOverhead : Word := 2*memBlockSize

/-- What the creation of an allocator asks for. -/
structure Request where
  /-- Number of pages. -/
  pageCount : Word
  /-- Size of the allocator structure. -/
  allocatorTypeSize : Word
  deriving DecidableEq

/-- The integer part of the page count. -/
def wholePages (pageSize size : Word) : Word := size/(pageSize+blockOverhead)

/-- The page count. Another page is added for a remainder. -/
def pagesFor (pageSize size : Word) : Word :=
  let pageCount := wholePages pageSize size
  if size-pageCount*(pageSize+blockOverhead) ≠ 0 then pageCount+1 else pageCount

/-- The request of secure_allocator_create_with_pages, unless it aborts because
the largest allocation does not fit into a page. -/
def requestFor (pageSize size maximumMallocSize : Word) : Option Request :=
  let pageCount := pagesFor pageSize size
  let maximumAllocationSize := pageSize-blockOverhead
  if maximumAllocationSize < maximumMallocSize then none
  else some ⟨pageCount, internalSize+(pageCount-1)*pageOriginSize⟩

/-- secure_allocator_create_with_pages. -/
def secureAllocatorCreateWithPages {σ : Type} (heap : Heap σ) (rtx : Rtx σ)
    (size maximumMallocSize : Word) (s : σ) : Option PageTable × σ :=
  match requestFor heap.pageSize size maximumMallocSize with
  | none => (none, s)
  | some request =>
    let (allocator, s) := heap.malloc request.allocatorTypeSize s
    if allocator = 0 then (none, s)
    else
      let (status, pageOrigins, s) :=
        heap.pageMalloc ⟨heap.pageSize, request.pageCount, fun _ => 0⟩ s
      if status ≠ 0 then (none, heap.free allocator s)
      else
        let s := (List.range request.pageCount.toNat).foldl
          (fun s ii => rtx.memoryInit (pageOrigins ii) heap.pageSize s) s
        (some ⟨heap.pageSize, request.pageCount, pageOrigins⟩, s)

/-- The loop of secure_malloc, with the number of pages that may still be tried. -/
def secureMallocFrom {σ : Type} (rtx : Rtx σ) (table : PageTable) (size : Word) :
    ℕ → ℕ → σ → Word × σ
  | 0, _, s => (0, s)
  | pages+1, index, s =>
    let (mem, s) := rtx.memoryAlloc (table.pageOrigins index) size s
    if mem ≠ 0 then (mem, s) else secureMallocFrom rtx table size pages (index+1) s

/-- secure_malloc. The first pool is tried also if the allocator has no pages. -/
def secureMalloc {σ : Type} (rtx : Rtx σ) (table : PageTable) (size : Word) (s : σ) : Word × σ :=
  secureMallocFrom rtx table size (max 1 table.pageCount.toNat) 0 s

/-- The bit below the highest one. Where there is none, the shift is not defined.
The processor shifts by the low byte of the count, 254 or 255, and zero is left. -/
def secondBit (alignment : Word) : Word := (1 : Word) <<< ((31-alignment.clz-1).toNat%256)

/-- secure_aligned_alloc. -/
def secureAlignedAlloc {σ : Type} (rtx : Rtx σ) (table : PageTable) (alignment size : Word)
    (s : σ) : Word × σ :=
  if alignment &&& secondBit alignment ≠ 0 then (0, s)
  else
    let (ptr, s) := secureMalloc rtx table (size+alignment-1) s
    if ptr = 0 then (0, s)
    else ((ptr+alignment-1) &&& ~~~(alignment-1), s)

/-! ## Capacity -/

/-- The pages that are requested hold the requested size, two block headers in
each page aside, and nothing wraps on the way. -/
structure Capacity (pageSize size : Word) (request : Request) : Prop where
  /-- Page and headers. -/
  overhead : pageSize.toNat+blockOverhead.toNat < 2^32
  /-- Size of the whole pages. -/
  product : (wholePages pageSize size).toNat*(pageSize+blockOverhead).toNat < 2^32
  /-- The page for the remainder. -/
  another : (wholePages pageSize size).toNat+1 < 2^32
  /-- Size of the table beyond its first page. -/
  origins : (request.pageCount-1).toNat*pageOriginSize.toNat < 2^32
  /-- Size of the table. -/
  table : internalSize.toNat+((request.pageCount-1)*pageOriginSize).toNat < 2^32
  /-- Room in the pages. -/
  room : size.toNat ≤ request.pageCount.toNat*(pageSize.toNat-blockOverhead.toNat)

/-- Each page counts for 16 bytes more than it has, not for 16 less. The last
page makes up for it if so much of it is left. -/
def Compensated (pageSize size : Word) : Prop :=
  pageSize.toNat+16 < 2^32 ∧ 0 < size.toNat%(pageSize.toNat+16) ∧
    size.toNat%(pageSize.toNat+16)+32*(size.toNat/(pageSize.toNat+16))+16 ≤ pageSize.toNat

section Capacities

variable {pageSize size maximumMallocSize : Word} {request : Request}

theorem blockOverhead_toNat : blockOverhead.toNat = 16 := rfl

/-- What has been requested does not depend on the largest allocation. -/
theorem request_eq (h : requestFor pageSize size maximumMallocSize = some request) :
    request = ⟨pagesFor pageSize size, internalSize+(pagesFor pageSize size-1)*pageOriginSize⟩ := by
  unfold requestFor at h
  dsimp only at h
  split_ifs at h
  exact (Option.some.inj h).symm

/-- An allocator that has been created has the pages that were requested. -/
theorem secureAllocatorCreateWithPages_pages {σ : Type} {heap : Heap σ} {rtx : Rtx σ} {s t : σ}
    {table : PageTable} (h : secureAllocatorCreateWithPages heap rtx size maximumMallocSize s =
      (some table, t)) :
    ∃ request, requestFor heap.pageSize size maximumMallocSize = some request ∧
      table.pageCount = request.pageCount ∧ table.pageSize = heap.pageSize := by
  unfold secureAllocatorCreateWithPages at h
  cases hrequest : requestFor heap.pageSize size maximumMallocSize with
  | none =>
    rw [hrequest] at h
    cases h
  | some request =>
    rw [hrequest] at h
    dsimp only at h
    split_ifs at h
    · cases (Prod.mk.inj h).1
    · cases (Prod.mk.inj h).1
    · obtain rfl := Option.some.inj (Prod.mk.inj h).1
      exact ⟨request, rfl, rfl, rfl⟩

/-- Page and headers as a number. -/
theorem overhead_toNat (h : pageSize.toNat+16 < 2^32) :
    (pageSize+blockOverhead).toNat = pageSize.toNat+16 := by
  rw [BitVec.toNat_add, blockOverhead_toNat, Nat.mod_eq_of_lt h]

theorem wholePages_toNat (h : pageSize.toNat+16 < 2^32) :
    (wholePages pageSize size).toNat = size.toNat/(pageSize.toNat+16) := by
  rw [wholePages, BitVec.toNat_udiv, overhead_toNat h]

theorem remainder_toNat (size : Word) (h : pageSize.toNat+16 < 2^32) :
    (size-wholePages pageSize size*(pageSize+blockOverhead)).toNat =
      size.toNat%(pageSize.toNat+16) := by
  have hdivmod := Nat.div_add_mod' size.toNat (pageSize.toNat+16)
  have hsize := size.isLt
  have hproduct : (wholePages pageSize size*(pageSize+blockOverhead)).toNat =
      size.toNat/(pageSize.toNat+16)*(pageSize.toNat+16) := by
    rw [BitVec.toNat_mul, wholePages_toNat h, overhead_toNat h]
    exact Nat.mod_eq_of_lt (by omega)
  rw [BitVec.toNat_sub_of_le (BitVec.le_def.mpr (by omega)), hproduct]
  omega

/-- A page is added exactly if something remains. -/
theorem pagesFor_toNat (size : Word) (h : pageSize.toNat+16 < 2^32) :
    (pagesFor pageSize size).toNat =
      size.toNat/(pageSize.toNat+16)+if size.toNat%(pageSize.toNat+16) = 0 then 0 else 1 := by
  have hremainder := remainder_toNat size h
  have hdiv : size.toNat/(pageSize.toNat+16) ≤ size.toNat/16 :=
    Nat.div_le_div_left (by omega) (by decide)
  have hsize := size.isLt
  unfold pagesFor
  dsimp only
  by_cases hzero : size.toNat%(pageSize.toNat+16) = 0
  · have hnone : size-wholePages pageSize size*(pageSize+blockOverhead) = 0 :=
      BitVec.eq_of_toNat_eq (hremainder.trans hzero)
    rw [if_neg (not_not.mpr hnone), if_pos hzero, wholePages_toNat h]
    rfl
  · have hsome : size-wholePages pageSize size*(pageSize+blockOverhead) ≠ 0 := by
      intro hnone
      rw [hnone] at hremainder
      exact hzero hremainder.symm
    rw [if_pos hsome, if_neg hzero, BitVec.toNat_add, wholePages_toNat h]
    exact Nat.mod_eq_of_lt (by change _+1 < _; omega)

/-- With whole pages of 16 bytes too few each, only a remainder can help. -/
theorem room_iff {pages whole rest m : ℕ} (hpages : pages = whole+if rest = 0 then 0 else 1)
    (hpos : 0 < whole*(m+32)+rest) :
    whole*(m+32)+rest ≤ pages*m ↔ 0 < rest ∧ rest+32*whole ≤ m := by
  subst hpages
  rw [Nat.mul_add] at hpos ⊢
  split_ifs with hrest
  · rw [Nat.add_zero]
    constructor
    · intro h
      have hwhole : whole = 0 := by omega
      rw [hwhole, hrest, Nat.zero_mul, Nat.zero_mul] at hpos
      exact absurd hpos (lt_irrefl 0)
    · omega
  · rw [Nat.add_mul]
    omega

/-- When the pages have room for what is requested. -/
theorem pagesFor_room_iff (hsize : 0 < size.toNat) (hsum : pageSize.toNat+16 < 2^32)
    (hlarge : 16 ≤ pageSize.toNat) :
    size.toNat ≤ (pagesFor pageSize size).toNat*(pageSize.toNat-16) ↔
      0 < size.toNat%(pageSize.toNat+16) ∧ size.toNat%(pageSize.toNat+16)+
        32*(size.toNat/(pageSize.toNat+16)) ≤ pageSize.toNat-16 := by
  have hsplit : size.toNat/(pageSize.toNat+16)*(pageSize.toNat-16+32)+
      size.toNat%(pageSize.toNat+16) = size.toNat := by
    rw [show pageSize.toNat-16+32 = pageSize.toNat+16 by omega]
    exact Nat.div_add_mod' _ _
  have hroom := room_iff (pagesFor_toNat size hsum) (hsplit.symm ▸ hsize)
  rwa [hsplit] at hroom

/-- The capacity is provided exactly if the remainder compensates for the whole
pages. -/
theorem capacity_iff (hsize : 0 < size.toNat)
    (h : requestFor pageSize size maximumMallocSize = some request) :
    Capacity pageSize size request ↔ Compensated pageSize size := by
  obtain rfl := request_eq h
  constructor
  · intro hcapacity
    have hsum : pageSize.toNat+16 < 2^32 := hcapacity.overhead
    have hroom := hcapacity.room
    rw [blockOverhead_toNat] at hroom
    have hlarge : 16 ≤ pageSize.toNat := by
      by_contra hsmall
      rw [Nat.sub_eq_zero_of_le (by omega), Nat.mul_zero] at hroom
      omega
    obtain ⟨hrest, hwhole⟩ := (pagesFor_room_iff hsize hsum hlarge).mp hroom
    exact ⟨hsum, hrest, by omega⟩
  · rintro ⟨hsum, hrest, hwhole⟩
    have hpages := pagesFor_toNat size hsum
    rw [if_neg hrest.ne'] at hpages
    have hpred : (pagesFor pageSize size-1).toNat = size.toNat/(pageSize.toNat+16) := by
      rw [BitVec.toNat_sub_of_le (BitVec.le_def.mpr (by rw [hpages]; exact Nat.le_add_left 1 _)),
        hpages]
      rfl
    have horigins : (pagesFor pageSize size-1).toNat*pageOriginSize.toNat < 2^32 := by
      rw [hpred]
      change _*4 < _
      omega
    exact {
      overhead := hsum
      product := by
        rw [wholePages_toNat hsum, overhead_toNat hsum]
        exact (Nat.div_mul_le_self _ _).trans_lt size.isLt
      another := by
        rw [wholePages_toNat hsum]
        omega
      origins := horigins
      table := by
        rw [BitVec.toNat_mul, Nat.mod_eq_of_lt horigins, hpred]
        change 12+_*4 < _
        omega
      room := (pagesFor_room_iff hsize hsum (by omega)).mpr ⟨hrest, by omega⟩ }

/-- Half a page more than four kilobytes with 1024 bytes in each page. -/
theorem capacity_iff_fourPages : Capacity 1024 4608 ⟨5, 28⟩ ↔ Compensated 1024 4608 :=
  capacity_iff (by decide) (by decide : requestFor 1024 4608 512 = some ⟨5, 28⟩)

/-- Space for 1040 bytes is requested as one page of 1024. -/
theorem capacity_fails_onePage : requestFor 1024 1040 512 = some ⟨1, 12⟩ ∧
    ¬Capacity 1024 1040 ⟨1, 12⟩ :=
  ⟨by decide, fun h => absurd h.room (by decide)⟩

end Capacities

end Uvisor.SecureAllocator
