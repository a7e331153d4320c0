import Uvisor.PageAllocator
import Mathlib.Data.List.Range
import Mathlib.Tactic.Ring
import Mathlib.Tactic.Linarith

/-!
# What the page allocator's calls do

The geometry left by `init` keeps the heap inside the address space. Each
call is then described by the list of pages it hands out or takes back and by
the bits every later read of a map sees.
-/

namespace Uvisor.PageAllocator

/-! ### Geometry -/

/-- What every geometry left by `init` satisfies. -/
structure Geometry.WellFormed (g : Geometry) : Prop where
  /-- The page count is clamped to the table size. -/
  total_le : g.countTotal ≤ pageMaxCount
  /-- Pages are not empty. -/
  pageSize_pos : 0 < g.pageSize
  /-- The heap ends with its last page. -/
  heapEnd_eq : g.heapEnd = g.heapStart+g.countTotal*g.pageSize
  /-- The heap does not wrap around the address space. -/
  heapEnd_lt : g.heapEnd < 2^32

/-- Every page counted fits below the heap end. -/
theorem countPages_mul_le (heapEnd start pageSize : ℕ) (h : countPages heapEnd start pageSize ≠ 0) :
    start+countPages heapEnd start pageSize*pageSize ≤ heapEnd := by
  unfold countPages at h ⊢
  split at h
  · exact absurd rfl h
  · rename_i hfit
    rw [if_neg hfit]
    push Not at hfit
    have hmod : (heapEnd-start)/pageSize%256 ≤ (heapEnd-start)/pageSize := Nat.mod_le _ _
    have hdiv : (heapEnd-start)/pageSize*pageSize ≤ heapEnd-start := Nat.div_mul_le_self _ _
    have hmul := Nat.mul_le_mul_right pageSize hmod
    omega

theorem roundUpRegion_lt (port : Port) (addr size : ℕ) : roundUpRegion port addr size < 2^32 := by
  unfold roundUpRegion
  dsimp only
  split_ifs
  · decide
  · decide
  · have hdiv := Nat.div_mul_le_self
      ((addr+(regionAlignment port size-1))%2^32) (regionAlignment port size-1+1)
    have hmod := Nat.mod_lt (addr+(regionAlignment port size-1)) (by decide : 0 < 2^32)
    omega

theorem layout_wellFormed {port : Port} {heapEnd start pageSize : ℕ} (hsize : 0 < pageSize)
    (hend : heapEnd < 2^32) (hstart : start < 2^32) :
    (layout port heapEnd start pageSize).WellFormed := by
  have hfit := countPages_mul_le heapEnd start pageSize
  set counted := countPages heapEnd start pageSize with hc
  have hbound : start+counted*pageSize < 2^32 := by
    by_cases h0 : counted = 0
    · rw [h0]
      omega
    · have := hfit h0
      omega
  by_cases hclamp : pageMaxCount < counted
  · have hsplit : (counted-pageMaxCount)*pageSize+pageMaxCount*pageSize = counted*pageSize := by
      rw [← Nat.add_mul, Nat.sub_add_cancel hclamp.le]
    have hfirst : (start+(counted-pageMaxCount)*pageSize)%2^32 =
        start+(counted-pageMaxCount)*pageSize := Nat.mod_eq_of_lt (by omega)
    constructor
    · simp [layout, ← hc, hclamp]
    · simpa [layout] using hsize
    · simp only [layout, ← hc, hclamp, if_true, hfirst]
      exact Nat.mod_eq_of_lt (by omega)
    · exact Nat.mod_lt _ (by decide)
  · have hfirst : (start+0*pageSize)%2^32 = start+0*pageSize := Nat.mod_eq_of_lt (by omega)
    constructor
    · simp only [layout, ← hc, if_neg hclamp]
      omega
    · simpa [layout] using hsize
    · simp only [layout, ← hc, if_neg hclamp, hfirst]
      exact Nat.mod_eq_of_lt (by omega)
    · exact Nat.mod_lt _ (by decide)

/-- A boot that does not halt computes the layout and clears the maps. -/
theorem init_some {port : Port} {c : LinkerConfig} {heapStart heapEnd pageSizeAddr pageSize : UInt32}
    {s t : State} {g : Geometry}
    (h : init port c heapStart heapEnd pageSizeAddr pageSize s = some (g, t)) :
    pageSizeMinimum ≤ pageSize.toNat ∧ isRegionSizeValid port pageSize.toNat = true ∧
    g = layout port heapEnd.toNat (roundUpRegion port heapStart.toNat pageSize.toNat)
      pageSize.toNat ∧
    t = { s with ownerMap := fun _ _ => 0, usageMap := fun _ => 0, countFree := g.countTotal } := by
  unfold init at h
  dsimp only at h
  split_ifs at h with _ _ _ _ hsize _
  push Not at hsize
  obtain ⟨rfl, rfl⟩ := Prod.mk.inj (Option.some.inj h)
  exact ⟨hsize.1, by simpa using hsize.2, rfl, rfl⟩

theorem init_wellFormed {port : Port} {c : LinkerConfig}
    {heapStart heapEnd pageSizeAddr pageSize : UInt32} {s t : State} {g : Geometry}
    (h : init port c heapStart heapEnd pageSizeAddr pageSize s = some (g, t)) : g.WellFormed := by
  obtain ⟨hmin, -, rfl, -⟩ := init_some h
  exact layout_wellFormed (Nat.lt_of_lt_of_le (by decide) hmin) heapEnd.toNat_lt (roundUpRegion_lt _ _ _)

/-- Pages have their own origins. -/
theorem Geometry.WellFormed.pageOrigin_inj {g : Geometry} (hg : g.WellFormed) {p q : ℕ}
    (hp : p < g.countTotal) (hq : q < g.countTotal) (h : pageOrigin g p = pageOrigin g q) :
    p = q := by
  have hlt := hg.heapEnd_lt
  rw [hg.heapEnd_eq] at hlt
  have hpm := Nat.mul_le_mul_right g.pageSize hp.le
  have hqm := Nat.mul_le_mul_right g.pageSize hq.le
  unfold pageOrigin at h
  rw [Nat.mod_eq_of_lt (by omega), Nat.mod_eq_of_lt (by omega)] at h
  exact Nat.eq_of_mul_eq_mul_right hg.pageSize_pos (by omega)

/-- Rounding up a valid region either overflows close to the top of the
address space or moves by less than the region's size. -/
theorem wordSub_roundUpRegion_lt {port : Port} {addr size : ℕ} (haddr : addr < 2^32)
    (hvalid : isRegionSizeValid port size = true) :
    wordSub (roundUpRegion port addr size) addr < size := by
  have halign : 0 < regionAlignment port size ∧ regionAlignment port size ≤ size ∧
      size < 2^32 := by
    cases port <;> simp only [isRegionSizeValid, Bool.and_eq_true, decide_eq_true_eq, beq_iff_eq,
      regionAlignment] at hvalid ⊢
    · have hpow : 2^size.log2 ≤ 2^29 := Nat.pow_le_pow_right (by decide) hvalid.1.2
      have hpos : 0 < 2^size.log2 := Nat.two_pow_pos _
      omega
    · omega
    · omega
  unfold roundUpRegion
  rw [hvalid]
  set a := regionAlignment port size
  have ha : a-1+1 = a := by omega
  simp only [Bool.not_true, Bool.false_eq_true, if_false, ha, wordSub]
  split_ifs with hover
  · by_cases hsum : addr+(a-1) < 2^32
    · rw [Nat.mod_eq_of_lt hsum] at hover
      omega
    · by_cases h0 : addr = 0
      · omega
      · rw [Nat.mod_eq_of_lt (by omega)]
        omega
  · by_cases hsum : addr+(a-1) < 2^32
    · rw [Nat.mod_eq_of_lt hsum]
      have hdiv := Nat.div_add_mod (addr+(a-1)) a
      have hmod := Nat.mod_lt (addr+(a-1)) halign.1
      have hcomm : a*((addr+(a-1))/a) = (addr+(a-1))/a*a := Nat.mul_comm _ _
      rw [show (addr+(a-1))/a*a+2^32-addr = (addr+(a-1))/a*a-addr+2^32 by omega,
        Nat.add_mod_right, Nat.mod_eq_of_lt (by omega)]
      omega
    · omega

/-- Eight pages of at most 64 MiB form a valid region. -/
theorem isRegionSizeValid_eight {port : Port} {size : ℕ}
    (hvalid : isRegionSizeValid port size = true) (hsize : size ≤ 2^26) :
    isRegionSizeValid port (size*8) = true := by
  cases port <;> simp only [isRegionSizeValid, Bool.and_eq_true, decide_eq_true_eq,
    beq_iff_eq] at hvalid ⊢
  · obtain ⟨⟨hlow, -⟩, hpow⟩ := hvalid
    have hle : size.log2 ≤ 26 := by
      by_contra hgt
      have := Nat.pow_lt_pow_right (by decide : 1 < 2) (not_le.mp hgt)
      omega
    have hlog : (size*8).log2 = size.log2+3 := by
      rw [← hpow, show (2:ℕ)^size.log2*8 = 2^(size.log2+3) by rw [pow_add]; rfl, Nat.log2_two_pow,
        Nat.log2_two_pow]
    rw [hlog, pow_add, hpow]
    omega
  · omega
  · omega

/-- The pages and the gap up to the rounded heap end fit into one map. -/
theorem layout_span_le {port : Port} {heapEnd start pageSize : ℕ}
    (hvalid : isRegionSizeValid port pageSize = true)
    (hport : port = .armv7m ∨ pageSize ≤ 2^26)
    (hg : (layout port heapEnd start pageSize).WellFormed) :
    let g := layout port heapEnd start pageSize
    g.countTotal+wordSub g.headEndRounded g.heapEnd/pageSize ≤ pageMapCount*32 := by
  intro g
  have hpos : 0 < pageSize := hg.pageSize_pos
  have htotal : g.countTotal ≤ 16 := hg.total_le
  have hlast : g.heapEnd < 2^32 := hg.heapEnd_lt
  have hend : g.heapEnd = g.heapStart+g.countTotal*pageSize := hg.heapEnd_eq
  have hround : g.headEndRounded = roundUpRegion port g.heapEnd (pageSize*8%2^32) := rfl
  by_cases hsmall : pageSize ≤ 2^26
  · rw [Nat.mod_eq_of_lt (by omega)] at hround
    have hgap := wordSub_roundUpRegion_lt hlast (isRegionSizeValid_eight hvalid hsmall)
    rw [← hround] at hgap
    have hq : wordSub g.headEndRounded g.heapEnd/pageSize < 8 :=
      Nat.div_lt_of_lt_mul (by omega)
    change _ ≤ 32
    omega
  · have harm : port = .armv7m := hport.resolve_right hsmall
    subst harm
    simp only [isRegionSizeValid, Bool.and_eq_true, decide_eq_true_eq, beq_iff_eq] at hvalid
    obtain ⟨⟨-, hhigh⟩, hpow⟩ := hvalid
    have hlow : 27 ≤ pageSize.log2 := by
      by_contra hlt
      have := Nat.pow_le_pow_right (by decide : 0 < 2) (by omega : pageSize.log2 ≤ 26)
      omega
    have hbig : 2^27 ≤ pageSize := hpow ▸ Nat.pow_le_pow_right (by decide) hlow
    have hinvalid : isRegionSizeValid .armv7m (pageSize*8%2^32) = false := by
      have hk : pageSize.log2 = 27 ∨ pageSize.log2 = 28 ∨ pageSize.log2 = 29 := by omega
      rcases hk with hk | hk | hk <;> rw [← hpow, hk] <;> decide
    have hzero : g.headEndRounded = 0 := by
      rw [hround, roundUpRegion, hinvalid]
      rfl
    have hgap : wordSub 0 g.heapEnd ≤ 2^32-g.heapEnd := by
      unfold wordSub
      exact (Nat.mod_le _ _).trans (by omega)
    rw [hzero]
    change _ ≤ 32
    have hdiv := Nat.div_mul_le_self (wordSub 0 g.heapEnd) pageSize
    have hsum : (g.countTotal+wordSub 0 g.heapEnd/pageSize)*pageSize ≤ 32*2^27 := by
      rw [Nat.add_mul]
      omega
    exact Nat.le_of_mul_le_mul_right (hsum.trans (Nat.mul_le_mul_left 32 hbig)) hpos

/-- The left-aligned shift keeps the pages' bits below the end of the map. -/
theorem position_lt_of_span {total gap page : ℕ} (hspan : total+gap ≤ 32) (hpage : page < total) :
    (page+(32-total+256-gap%256)%256)%256 < 32 := by
  have hgap : gap%256 = gap := Nat.mod_eq_of_lt (by omega)
  have hshift : (32-total+256-gap)%256 = 32-total-gap := by omega
  rw [hgap, hshift]
  omega

/-- The bits of all pages lie in the maps' words: on ARMv7-M always, on the
other ports for page sizes up to 64 MiB. -/
theorem init_position_lt {port : Port} {c : LinkerConfig}
    {heapStart heapEnd pageSizeAddr pageSize : UInt32} {s t : State} {g : Geometry}
    (h : init port c heapStart heapEnd pageSizeAddr pageSize s = some (g, t))
    (hport : port = .armv7m ∨ pageSize.toNat ≤ 2^26) {page : ℕ} (hpage : page < g.countTotal) :
    position g page < pageMapCount*32 := by
  have hg := init_wellFormed h
  obtain ⟨-, hvalid, rfl, -⟩ := init_some h
  have hspan := layout_span_le hvalid hport hg
  dsimp only at hspan
  set g := layout port heapEnd.toNat (roundUpRegion port heapStart.toNat pageSize.toNat)
    pageSize.toNat
  exact position_lt_of_span hspan hpage

/-! ### Allocation -/

section Allocation

variable {g : Geometry} {box : BoxId}

theorem takePage_usage {s : State} {p q : ℕ} (hp : p < 256) (hq : q < 256) :
    mapGet g (takePage g box s p).usageMap q = (decide (p = q) || mapGet g s.usageMap q) :=
  mapGet_mapSet g s.usageMap hp hq

theorem takePage_owner {s : State} {p q : ℕ} (hp : p < 256) (hq : q < 256) (b : BoxId) :
    mapGet g ((takePage g box s p).ownerMap b) q =
      (decide (p = q ∧ (box = 0 ∨ b = box)) || mapGet g (s.ownerMap b) q) := by
  unfold takePage
  dsimp only
  split_ifs with h
  · simp [mapGet_mapSet g (s.ownerMap b) hp hq, h]
  · simp [h]

/-- The pages the search loop hands out: the lowest unused ones. -/
def pagesTaken (g : Geometry) (s : State) (n page pagesRequired : ℕ) : List ℕ :=
  ((List.range' page n).filter fun p => !mapGet g s.usageMap p).take pagesRequired

/-- The unused pages above a page do not change when it is handed out. -/
theorem pagesTaken_takePage {s : State} {n page pagesRequired : ℕ} (hn : page+1+n ≤ 256) :
    pagesTaken g (takePage g box s page) n (page+1) pagesRequired =
      pagesTaken g s n (page+1) pagesRequired := by
  unfold pagesTaken
  congr 1
  apply List.filter_congr
  intro p hp
  rw [List.mem_range'_1] at hp
  rw [takePage_usage (by omega) (by omega)]
  have hne : page ≠ p := by omega
  simp [hne]

/-- The search loop hands out the lowest unused pages and reports their
origins. -/
theorem mallocLoop_eq (n page pagesRequired : ℕ) (s : State) (hn : page+n ≤ 256) :
    mallocLoop g box n page pagesRequired s =
      ((pagesTaken g s n page pagesRequired).map (pageOrigin g),
        (pagesTaken g s n page pagesRequired).foldl (takePage g box) s) := by
  induction n generalizing page pagesRequired s with
  | zero => simp [mallocLoop, pagesTaken]
  | succ n ih =>
    rw [mallocLoop]
    split_ifs with hzero hfree
    · simp [pagesTaken, hzero]
    · obtain ⟨required, rfl⟩ := Nat.exists_eq_succ_of_ne_zero hzero
      have hcons : pagesTaken g s (n+1) page (required+1) =
          page :: pagesTaken g s n (page+1) required := by
        simp only [pagesTaken, List.range'_succ, List.filter_cons, hfree, if_true,
          List.take_succ_cons]
      rw [ih _ _ _ (by omega), Nat.succ_sub_one, pagesTaken_takePage (by omega), hcons]
      rfl
    · have hskip : pagesTaken g s (n+1) page pagesRequired =
          pagesTaken g s n (page+1) pagesRequired := by
        simp only [pagesTaken, List.range'_succ, List.filter_cons, hfree, Bool.false_eq_true,
          if_false]
      rw [ih _ _ _ (by omega), hskip]

theorem foldl_takePage_usage {pages : List ℕ} {s : State} (hpages : ∀ p ∈ pages, p < 256)
    {q : ℕ} (hq : q < 256) :
    mapGet g (pages.foldl (takePage g box) s).usageMap q =
      (decide (q ∈ pages) || mapGet g s.usageMap q) := by
  induction pages generalizing s with
  | nil => simp
  | cons p pages ih =>
    rw [List.foldl_cons, ih (fun x hx => hpages x (List.mem_cons_of_mem p hx)),
      takePage_usage (hpages p List.mem_cons_self) hq]
    by_cases h : p = q
    · simp [h]
    · simp [h, Ne.symm h]

theorem foldl_takePage_owner {pages : List ℕ} {s : State} (hpages : ∀ p ∈ pages, p < 256)
    {q : ℕ} (hq : q < 256) (b : BoxId) :
    mapGet g ((pages.foldl (takePage g box) s).ownerMap b) q =
      (decide (q ∈ pages ∧ (box = 0 ∨ b = box)) || mapGet g (s.ownerMap b) q) := by
  induction pages generalizing s with
  | nil => simp
  | cons p pages ih =>
    rw [List.foldl_cons, ih (fun x hx => hpages x (List.mem_cons_of_mem p hx)),
      takePage_owner (hpages p List.mem_cons_self) hq]
    by_cases h : p = q
    · by_cases hb : box = 0 ∨ b = box <;> simp [h, hb]
    · simp [h, Ne.symm h]

theorem foldl_takePage_countFree (pages : List ℕ) (s : State) :
    (pages.foldl (takePage g box) s).countFree = s.countFree :=
  Execution.foldl_keeps State.countFree (fun _ _ => by rw [takePage]) pages s

theorem mem_pagesTaken_lt {s : State} {n pagesRequired p : ℕ}
    (hp : p ∈ pagesTaken g s n 0 pagesRequired) : p < n := by
  have := List.mem_range'_1.mp (List.mem_of_mem_filter (List.mem_of_mem_take hp))
  omega

theorem mem_pagesTaken_unused {s : State} {n pagesRequired p : ℕ}
    (hp : p ∈ pagesTaken g s n 0 pagesRequired) : mapGet g s.usageMap p = false := by
  simpa using List.of_mem_filter (List.mem_of_mem_take hp)

theorem pagesTaken_nodup (s : State) (n pagesRequired : ℕ) :
    (pagesTaken g s n 0 pagesRequired).Nodup :=
  ((List.nodup_range' ..).filter _).sublist (List.take_sublist _ _)

/-- A call of `malloc` either fails and changes nothing, or passes all checks
and hands out the lowest unused pages. -/
theorem malloc_cases (hg : g.WellFormed) (box : BoxId) (table : Table) (s : State) :
    ((malloc g box table s).1 ≠ .ok ∧ (malloc g box table s).2 = ([], s)) ∨
    (table.pageCount ≤ s.countFree ∧
      malloc g box table s = (.ok,
        (pagesTaken g s g.countTotal 0 table.pageCount).map (pageOrigin g),
        (pagesTaken g s g.countTotal 0 table.pageCount).foldl (takePage g box)
          { s with countFree := s.countFree-table.pageCount })) := by
  have htotal : g.countTotal ≤ 16 := hg.total_le
  unfold malloc
  split_ifs with _ _ hfree
  · exact .inl ⟨PageError.noConfusion, rfl⟩
  · exact .inl ⟨PageError.noConfusion, rfl⟩
  · exact .inl ⟨PageError.noConfusion, rfl⟩
  · refine .inr ⟨not_lt.mp hfree, ?_⟩
    rw [mallocLoop_eq _ _ _ _ (by omega)]
    rfl

end Allocation

/-! ### Release -/

section Release

variable {g : Geometry} {box : BoxId} {table : Table}

/-- Page number computed for a table entry. -/
def entry (g : Geometry) (table : Table) (i : ℕ) : ℕ :=
  getPageFromAddress g (table.pageOrigins i)

theorem entry_lt (g : Geometry) (table : Table) (i : ℕ) : entry g table i < 256 := by
  unfold entry getPageFromAddress
  split_ifs
  · decide
  · exact Nat.mod_lt _ (by decide)

/-- A table entry names a page in the caller's owner map that no earlier entry
names. -/
def Releases (g : Geometry) (box : BoxId) (table : Table) (s : State) (i : ℕ) : Prop :=
  entry g table i ≠ pageUnused ∧ mapGet g (s.ownerMap box) (entry g table i) = true ∧
    ∀ j < i, entry g table j ≠ entry g table i

/-- A call of `free` gets as far as taking back the page of a table entry: its
checks pass and every entry up to this one names another page of the caller. -/
def Frees (g : Geometry) (box : BoxId) (table : Table) (s : State) (i : ℕ) : Prop :=
  freeCheck g table s = .ok ∧ i < tableSize table.pageCount ∧
    ∀ j ≤ i, Releases g box table s j

instance (s : State) (i : ℕ) : Decidable (Releases g box table s i) :=
  inferInstanceAs (Decidable (_ ∧ _ ∧ ∀ j < i, entry g table j ≠ entry g table i))

instance (s : State) (i : ℕ) : Decidable (Frees g box table s i) :=
  inferInstanceAs (Decidable (_ ∧ _ ∧ ∀ j ≤ i, Releases g box table s j))

/-- Pages of the first table entries. -/
def firstPages (g : Geometry) (table : Table) (n : ℕ) : List ℕ :=
  (List.range n).map (entry g table)

theorem firstPages_succ (n : ℕ) :
    firstPages g table (n+1) = firstPages g table n ++ [entry g table n] := by
  simp [firstPages, List.range_succ]

theorem mem_firstPages {n q : ℕ} : q ∈ firstPages g table n ↔ ∃ i < n, entry g table i = q := by
  simp [firstPages]

/-- The state after the pages of the first table entries are taken back. -/
def released (g : Geometry) (box : BoxId) (table : Table) (s : State) (n : ℕ) : State :=
  (firstPages g table n).foldl (freePage g box) s

theorem released_succ (s : State) (n : ℕ) :
    released g box table s (n+1) =
      freePage g box (released g box table s n) (entry g table n) := by
  rw [released, firstPages_succ, List.foldl_append]
  rfl

theorem freePage_owner {s : State} {p q : ℕ} (hp : p < 256) (hq : q < 256) (b : BoxId) :
    mapGet g ((freePage g box s p).ownerMap b) q =
      (!decide (p = q ∧ (box = 0 ∨ b = box)) && mapGet g (s.ownerMap b) q) := by
  unfold freePage
  dsimp only
  split_ifs with h
  · simp [mapGet_mapClear g (s.ownerMap b) hp hq, h]
  · simp [h]

theorem released_usage (s : State) (n : ℕ) {q : ℕ} (hq : q < 256) :
    mapGet g (released g box table s n).usageMap q =
      (!decide (q ∈ firstPages g table n) && mapGet g s.usageMap q) := by
  induction n with
  | zero => simp [released, firstPages]
  | succ n ih =>
    rw [released_succ, freePage, mapGet_mapClear g _ (entry_lt g table n) hq, ih, firstPages_succ]
    by_cases h : entry g table n = q
    · simp [h]
    · simp [h, Ne.symm h]

theorem released_owner (s : State) (n : ℕ) {q : ℕ} (hq : q < 256) (b : BoxId) :
    mapGet g ((released g box table s n).ownerMap b) q =
      (!decide (q ∈ firstPages g table n ∧ (box = 0 ∨ b = box)) && mapGet g (s.ownerMap b) q) := by
  induction n with
  | zero => simp [released, firstPages]
  | succ n ih =>
    rw [released_succ, freePage_owner (entry_lt g table n) hq, ih, firstPages_succ]
    by_cases h : entry g table n = q
    · by_cases hb : box = 0 ∨ b = box <;> simp [h, hb]
    · simp [h, Ne.symm h]

theorem released_countFree {s : State} {n : ℕ} (hn : s.countFree+n < 256) :
    (released g box table s n).countFree = s.countFree+n := by
  induction n with
  | zero => rfl
  | succ n ih =>
    rw [released_succ, freePage, ih (by omega)]
    exact Nat.mod_eq_of_lt hn

/-- The owner test of the loop asks for a page that was not taken back
before. -/
theorem releases_iff {s : State} {n : ℕ} :
    Releases g box table s n ↔ entry g table n ≠ pageUnused ∧
      mapGet g ((released g box table s n).ownerMap box) (entry g table n) = true := by
  rw [released_owner s n (entry_lt g table n), Releases]
  simp only [or_true, and_true, Bool.and_eq_true, Bool.not_eq_true', decide_eq_false_iff_not,
    mem_firstPages, not_exists, not_and, ne_eq]
  tauto

theorem freeLoop_succ (n i : ℕ) (s : State) :
    freeLoop g box table (n+1) i s =
      if entry g table i = pageUnused then (.invalidPageOrigin, s)
      else if mapGet g (s.ownerMap box) (entry g table i) then
        freeLoop g box table n (i+1) (freePage g box s (entry g table i))
      else (.invalidPageOwner, s) := rfl

/-- The loop takes back the pages of the longest run of entries it accepts. -/
theorem freeLoop_spec (g : Geometry) (box : BoxId) (table : Table) (s : State) (n i : ℕ)
    (hi : ∀ j < i, Releases g box table s j) :
    ∃ m, i ≤ m ∧ m ≤ i+n ∧
      (freeLoop g box table n i (released g box table s i)).2 = released g box table s m ∧
      (∀ j < m, Releases g box table s j) ∧ (m < i+n → ¬Releases g box table s m) := by
  induction n generalizing i with
  | zero => exact ⟨i, le_rfl, le_rfl, rfl, hi, fun h => absurd h (lt_irrefl i)⟩
  | succ n ih =>
    rw [freeLoop_succ]
    by_cases hrel : Releases g box table s i
    · obtain ⟨hused, hown⟩ := releases_iff.mp hrel
      have hi' : ∀ j < i+1, Releases g box table s j := by
        intro j hj
        rcases Nat.lt_succ_iff_lt_or_eq.mp hj with hlt | rfl
        · exact hi j hlt
        · exact hrel
      obtain ⟨m, him, hmn, hstate, hall, hstop⟩ := ih (i+1) hi'
      rw [released_succ] at hstate
      refine ⟨m, by omega, by omega, ?_, hall, fun h => hstop (by omega)⟩
      rw [if_neg hused, if_pos hown]
      exact hstate
    · refine ⟨i, le_rfl, by omega, ?_, hi, fun _ => hrel⟩
      split_ifs with hunused hown
      · rfl
      · exact absurd (releases_iff.mpr ⟨hunused, hown⟩) hrel
      · rfl

/-- A call of `free` takes back the pages of exactly the entries it gets to,
and never counts more free pages than there are. -/
theorem free_spec (hg : g.WellFormed) (box : BoxId) (table : Table) {s : State}
    (hfree : s.countFree ≤ g.countTotal) :
    ∃ n, s.countFree+n ≤ g.countTotal ∧
      (free g box table s).2 = released g box table s n ∧
      ∀ i, i < n ↔ Frees g box table s i := by
  have htotal : g.countTotal ≤ 16 := hg.total_le
  unfold free
  split_ifs with hcheck
  · obtain ⟨m, -, hm, hstate, hall, hstop⟩ :=
      freeLoop_spec g box table s (tableSize table.pageCount) 0 (by simp)
    refine ⟨m, ?_, hstate, fun i => ⟨fun hi => ⟨hcheck, by omega, fun j hj => hall j (by omega)⟩,
      fun ⟨_, hi, hrel⟩ => ?_⟩⟩
    · have hcount : table.pageCount ≤ g.countTotal-s.countFree := by
        have hsub : wordSub g.countTotal s.countFree = g.countTotal-s.countFree := by
          unfold wordSub
          omega
        unfold freeCheck at hcheck
        split_ifs at hcheck with _ _ _ hsize
        rw [hsub] at hsize
        exact not_lt.mp hsize
      have hsize : tableSize table.pageCount ≤ table.pageCount := by
        unfold tableSize
        split_ifs <;> omega
      omega
    · by_contra hmi
      exact hstop (by omega) (hrel m (by omega))
  · exact ⟨0, hfree, rfl, fun i => ⟨fun hi => absurd hi (Nat.not_lt_zero i),
      fun ⟨h, _⟩ => absurd h hcheck⟩⟩

end Release

/-! ### Runs -/

/-- A supervisor call of the active box. -/
inductive Call where
  /-- `page_allocator_malloc` on a table of the box. -/
  | malloc (box : BoxId) (table : Table)
  /-- `page_allocator_free` on a table of the box. -/
  | free (box : BoxId) (table : Table)

/-- The allocator and the history of its pages. -/
structure System where
  /-- The allocator's variables. -/
  alloc : State
  /-- The box of the `malloc` that handed out a page that is still in use. -/
  holder : ℕ → Option BoxId

/-- One call. A page is held by the box in whose table its origin was written
until its usage bit is cleared. -/
def step (g : Geometry) (sys : System) : Call → Option System
  | .malloc box table =>
    let result := malloc g box table sys.alloc
    some { alloc := result.2.2
           holder := fun page =>
             if page < g.countTotal ∧ pageOrigin g page ∈ result.2.1 then some box
             else sys.holder page }
  | .free box table =>
    let result := free g box table sys.alloc
    some { alloc := result.2
           holder := fun page =>
             if mapGet g result.2.usageMap page then sys.holder page else none }

/-- The allocator right after a boot that did not halt. -/
def Initial (g : Geometry) (sys : System) : Prop :=
  (∃ port c heapStart heapEnd pageSizeAddr pageSize s,
    init port c heapStart heapEnd pageSizeAddr pageSize s = some (g, sys.alloc)) ∧
  sys.holder = fun _ => none

/-- The geometry of a run never changes and is that of its boot. -/
theorem wellFormed_of_reachable {g : Geometry} {sys : System}
    {allowed : System → Call → Prop}
    (h : Execution.Reachable (Initial g) (step g) allowed sys) : g.WellFormed := by
  induction h with
  | start h =>
    obtain ⟨⟨_, _, _, _, _, _, _, hinit⟩, -⟩ := h
    exact init_wellFormed hinit
  | step _ _ _ ih => exact ih

/-- A device with 64 KiB of SRAM. -/
def smallDevice : LinkerConfig where
  flashStart := 0
  secureStart := 0x80000
  publicSramStart := 0x20000000
  publicSramEnd := 0x20010000

/-- A heap of four pages of 1 KiB. -/
def fourPages : Geometry := layout .armv7m 0x20002000 0x20001000 1024

/-- The allocator right after boot with that heap. -/
def booted : System where
  alloc :=
    { ownerMap := fun _ _ => 0
      usageMap := fun _ => 0
      countFree := 4
      faultTable := fun _ => 0
      memory := fun _ => 0 }
  holder := fun _ => none

theorem booted_initial : Initial fourPages booted :=
  ⟨⟨.armv7m, smallDevice, 0x20001000, 0x20002000, 0x400, 1024, booted.alloc, rfl⟩, rfl⟩

/-- A table asking for, or listing, the first pages of that heap. -/
def tableOf (pages : List ℕ) : Table where
  pageSize := 1024
  pageCount := pages.length
  pageOrigins := fun i => 0x20001000+1024*pages.getD i 0

end Uvisor.PageAllocator
