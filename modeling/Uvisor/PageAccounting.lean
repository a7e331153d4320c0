import Uvisor.PageOperations
import Mathlib.Data.Finset.Card

/-!
# Accounting of free pages

The counter of free pages is lowered in advance by `malloc` and raised page by
page by `free`. It stays the complement of the usage map as long as `free`
meets no page that is in the caller's owner map but not in use; each such page
is counted free a second time, and a later `malloc` then writes fewer origins
than it was asked for.
-/

namespace Uvisor.PageAccounting

open PageAllocator Execution

variable {g : Geometry} {sys : System}

/-- The eight-bit page numbers whose bit is set in a map. -/
def setPages (g : Geometry) (map : PageMap) : Finset ℕ :=
  (Finset.range 256).filter fun page => mapGet g map page = true

/-- Number of set bits of a map. -/
def setBits (g : Geometry) (map : PageMap) : ℕ := (setPages g map).card

/-- The counter agrees with the usage map, and a `malloc` that succeeds writes
as many origins of different pages as it was asked for. -/
structure Accounted (g : Geometry) (sys : System) : Prop where
  /-- The free pages are those without usage bit. -/
  balance : sys.alloc.countFree+setBits g sys.alloc.usageMap = g.countTotal
  /-- What a successful call hands out next. -/
  grants : ∀ box table, (malloc g box table sys.alloc).1 = .ok →
    (malloc g box table sys.alloc).2.1.length = table.pageCount ∧
    (malloc g box table sys.alloc).2.1.Nodup ∧
    ∀ origin ∈ (malloc g box table sys.alloc).2.1, ∃ page < g.countTotal,
      origin = pageOrigin g page

/-- No call of `free` gets to a page in the caller's owner map that is not in
use. -/
def NoStaleFree (g : Geometry) (sys : System) : Call → Prop
  | .malloc _ _ => True
  | .free box table => ∀ i < tableSize table.pageCount,
      Frees g box table sys.alloc i → mapGet g sys.alloc.usageMap (entry g table i) = true

/-- What a run without such calls maintains. -/
structure Balanced (g : Geometry) (sys : System) : Prop where
  /-- The counter is the complement of the usage map. -/
  balance : sys.alloc.countFree+setBits g sys.alloc.usageMap = g.countTotal
  /-- Only pages of the heap are in use. -/
  inside : ∀ page ∈ setPages g sys.alloc.usageMap, page < g.countTotal

theorem mem_setPages {map : PageMap} {page : ℕ} :
    page ∈ setPages g map ↔ page < 256 ∧ mapGet g map page = true := by
  simp [setPages]

theorem balanced_initial (h : Initial g sys) : Balanced g sys := by
  obtain ⟨⟨_, _, _, _, _, _, s, hinit⟩, -⟩ := h
  obtain ⟨-, -, -, halloc⟩ := init_some hinit
  have hempty : setPages g sys.alloc.usageMap = ∅ := by
    ext page
    simp [mem_setPages, halloc]
  constructor
  · rw [setBits, hempty, Finset.card_empty, halloc]
    rfl
  · simp [hempty]

/-! ### Allocation -/

/-- The unused pages of the heap are as many as the counter says. -/
theorem Balanced.unused_length (hg : g.WellFormed) (h : Balanced g sys) :
    ((List.range' 0 g.countTotal).filter fun p => !mapGet g sys.alloc.usageMap p).length =
      sys.alloc.countFree := by
  have htotal : g.countTotal ≤ 16 := hg.total_le
  have hused : ((List.range' 0 g.countTotal).filter fun p =>
      mapGet g sys.alloc.usageMap p).toFinset = setPages g sys.alloc.usageMap := by
    ext page
    rw [List.mem_toFinset, List.mem_filter, List.mem_range'_1, mem_setPages]
    constructor
    · rintro ⟨hlt, hbit⟩
      exact ⟨by omega, hbit⟩
    · rintro ⟨hlt, hbit⟩
      have := h.inside page (mem_setPages.mpr ⟨hlt, hbit⟩)
      exact ⟨by omega, hbit⟩
  have hcard : ((List.range' 0 g.countTotal).filter fun p =>
      mapGet g sys.alloc.usageMap p).length = setBits g sys.alloc.usageMap := by
    rw [setBits, ← hused, List.toFinset_card_of_nodup ((List.nodup_range' ..).filter _)]
  have hsplit := List.length_eq_length_filter_add (l := List.range' 0 g.countTotal)
    (mapGet g sys.alloc.usageMap)
  rw [List.length_range', hcard] at hsplit
  have := h.balance
  omega

/-- A call that passes the checks finds all the pages it needs. -/
theorem Balanced.pagesTaken_length (hg : g.WellFormed) (h : Balanced g sys) {n : ℕ}
    (hn : n ≤ sys.alloc.countFree) :
    (pagesTaken g sys.alloc g.countTotal 0 n).length = n := by
  rw [pagesTaken, List.length_take, h.unused_length hg]
  omega

/-- Handing out pages adds their bits to the usage map. -/
theorem setPages_taken (hg : g.WellFormed) (box : BoxId) {s : State} {n : ℕ} (t : State)
    (ht : t.usageMap = s.usageMap) :
    setPages g ((pagesTaken g s g.countTotal 0 n).foldl (takePage g box) t).usageMap =
      setPages g s.usageMap ∪ (pagesTaken g s g.countTotal 0 n).toFinset := by
  have htotal : g.countTotal ≤ 16 := hg.total_le
  have hlt : ∀ p ∈ pagesTaken g s g.countTotal 0 n, p < 256 := fun p hp => by
    have := mem_pagesTaken_lt hp
    omega
  ext page
  rw [Finset.mem_union, List.mem_toFinset, mem_setPages, mem_setPages]
  constructor
  · rintro ⟨hpage, hbit⟩
    rw [foldl_takePage_usage hlt hpage, ht] at hbit
    simp at hbit
    tauto
  · rintro (⟨hpage, hbit⟩ | hmem)
    · exact ⟨hpage, by simp [foldl_takePage_usage hlt hpage, ht, hbit]⟩
    · exact ⟨hlt page hmem, by simp [foldl_takePage_usage hlt (hlt page hmem), hmem]⟩

theorem Balanced.malloc (hg : g.WellFormed) (h : Balanced g sys) (box : BoxId) (table : Table)
    {next : System} (hs : step g sys (.malloc box table) = some next) : Balanced g next := by
  obtain rfl := Option.some.inj hs
  rcases malloc_cases hg box table sys.alloc with ⟨-, hsame⟩ | ⟨hcount, heq⟩
  · constructor
    · simpa [hsame] using h.balance
    · simpa [hsame] using h.inside
  · have hset := setPages_taken hg box (s := sys.alloc) (n := table.pageCount)
      { sys.alloc with countFree := sys.alloc.countFree-table.pageCount } rfl
    have hdisjoint : Disjoint (setPages g sys.alloc.usageMap)
        (pagesTaken g sys.alloc g.countTotal 0 table.pageCount).toFinset := by
      rw [Finset.disjoint_left]
      intro page hused hmem
      have hunused := mem_pagesTaken_unused (List.mem_toFinset.mp hmem)
      rw [(mem_setPages.mp hused).2] at hunused
      cases hunused
    rw [heq]
    constructor
    · rw [foldl_takePage_countFree, setBits, hset, Finset.card_union_of_disjoint hdisjoint,
        List.toFinset_card_of_nodup (pagesTaken_nodup _ _ _), h.pagesTaken_length hg hcount]
      have := h.balance
      unfold setBits at this
      dsimp only
      omega
    · intro page hpage
      rw [hset, Finset.mem_union, List.mem_toFinset] at hpage
      rcases hpage with hpage | hpage
      · exact h.inside page hpage
      · exact mem_pagesTaken_lt hpage

/-! ### Release -/

/-- The entries a call gets to name different pages. -/
theorem firstPages_card {box : BoxId} {table : Table} {s : State} {n : ℕ}
    (hn : ∀ i < n, Frees g box table s i) : (firstPages g table n).toFinset.card = n := by
  have hnodup : (firstPages g table n).Nodup := by
    apply List.Nodup.map_on _ List.nodup_range
    intro i hi j hj heq
    rw [List.mem_range] at hi hj
    rcases Nat.lt_trichotomy i j with hlt | rfl | hlt
    · exact absurd heq (((hn j hj).2.2 j le_rfl).2.2 i hlt)
    · rfl
    · exact absurd heq.symm (((hn i hi).2.2 i le_rfl).2.2 j hlt)
  rw [List.toFinset_card_of_nodup hnodup]
  simp [firstPages]

theorem setPages_released (box : BoxId) (table : Table) (s : State) (n : ℕ) :
    setPages g (released g box table s n).usageMap =
      setPages g s.usageMap \ (firstPages g table n).toFinset := by
  ext page
  rw [Finset.mem_sdiff, List.mem_toFinset, mem_setPages, mem_setPages]
  constructor
  · rintro ⟨hpage, hbit⟩
    rw [released_usage s n hpage] at hbit
    simp at hbit
    tauto
  · rintro ⟨⟨hpage, hbit⟩, hmem⟩
    exact ⟨hpage, by simp [released_usage s n hpage, hmem, hbit]⟩

theorem Balanced.free_le (h : Balanced g sys) : sys.alloc.countFree ≤ g.countTotal := by
  have := h.balance
  omega

/-- Every page taken back is counted once, whether it was in use or not. -/
theorem Balanced.free_spec (hg : g.WellFormed) (h : Balanced g sys) (box : BoxId) (table : Table)
    {next : System} (hs : step g sys (.free box table) = some next) :
    ∃ pages : Finset ℕ, next.alloc.countFree = sys.alloc.countFree+pages.card ∧
      setPages g next.alloc.usageMap = setPages g sys.alloc.usageMap \ pages ∧
      ∀ page, page ∈ pages ↔ ∃ i, Frees g box table sys.alloc i ∧ entry g table i = page := by
  obtain rfl := Option.some.inj hs
  have htotal : g.countTotal ≤ 16 := hg.total_le
  obtain ⟨n, hcount, hstate, hn⟩ :=
    PageAllocator.free_spec hg box table h.free_le
  refine ⟨(firstPages g table n).toFinset, ?_, ?_, fun page => ?_⟩
  · rw [firstPages_card fun i hi => (hn i).mp hi]
    dsimp only
    rw [hstate, released_countFree (by omega)]
  · dsimp only
    rw [hstate, setPages_released]
  · rw [List.mem_toFinset, mem_firstPages]
    exact exists_congr fun i => and_congr_left fun _ => hn i

theorem Balanced.free (hg : g.WellFormed) (h : Balanced g sys) (box : BoxId) (table : Table)
    (ha : NoStaleFree g sys (.free box table)) {next : System}
    (hs : step g sys (.free box table) = some next) : Balanced g next := by
  obtain ⟨pages, hcount, hset, hpages⟩ := h.free_spec hg box table hs
  have hsub : pages ⊆ setPages g sys.alloc.usageMap := by
    intro page hpage
    obtain ⟨i, hfrees, rfl⟩ := (hpages page).mp hpage
    exact mem_setPages.mpr ⟨entry_lt g table i, ha i hfrees.2.1 hfrees⟩
  constructor
  · have hcard := Finset.card_sdiff_add_card_eq_card hsub
    have hbalance := h.balance
    unfold setBits at hbalance ⊢
    rw [hcount, hset]
    omega
  · intro page hpage
    rw [hset] at hpage
    exact h.inside page (Finset.mem_sdiff.mp hpage).1

/-- A page that was not in use is counted free once too often. -/
theorem Balanced.stale_free (hg : g.WellFormed) (h : Balanced g sys) {call : Call}
    (ha : ¬NoStaleFree g sys call) {next : System} (hs : step g sys call = some next) :
    ¬Accounted g next := by
  cases call with
  | malloc box table => exact absurd trivial ha
  | free box table =>
    simp only [NoStaleFree, not_forall] at ha
    obtain ⟨i, -, hfrees, hunused⟩ := ha
    obtain ⟨pages, hcount, hset, hpages⟩ := h.free_spec hg box table hs
    have hmem : entry g table i ∈ pages := (hpages _).mpr ⟨i, hfrees, rfl⟩
    have hproper : setPages g sys.alloc.usageMap ∩ pages ⊂ pages := by
      rw [Finset.ssubset_iff_of_subset Finset.inter_subset_right]
      refine ⟨entry g table i, hmem, fun hin => hunused ?_⟩
      exact (mem_setPages.mp (Finset.mem_inter.mp hin).1).2
    intro hacc
    have hlt := Finset.card_lt_card hproper
    have hsplit := Finset.card_sdiff_add_card_inter (setPages g sys.alloc.usageMap) pages
    have hbefore := h.balance
    have hafter := hacc.balance
    unfold setBits at hbefore hafter
    rw [hcount, hset] at hafter
    omega

/-! ### Runs -/

theorem Balanced.accounted (hg : g.WellFormed) (h : Balanced g sys) : Accounted g sys := by
  constructor
  · exact h.balance
  · intro box table hok
    rcases malloc_cases hg box table sys.alloc with ⟨hfail, -⟩ | ⟨hcount, heq⟩
    · exact absurd hok hfail
    · rw [heq]
      refine ⟨by simp [h.pagesTaken_length hg hcount], ?_, ?_⟩
      · apply List.Nodup.map_on _ (pagesTaken_nodup _ _ _)
        intro p hp q hq
        exact hg.pageOrigin_inj (mem_pagesTaken_lt hp) (mem_pagesTaken_lt hq)
      · intro origin horigin
        obtain ⟨page, hpage, rfl⟩ := List.mem_map.mp horigin
        exact ⟨page, mem_pagesTaken_lt hpage, rfl⟩

theorem balanced_of_reachable (h : Reachable (Initial g) (step g) (NoStaleFree g) sys) :
    Balanced g sys := by
  have hg := wellFormed_of_reachable h
  apply h.invariant (Balanced g) fun _ => balanced_initial
  intro s call t hs ha ht
  cases call with
  | malloc box table => exact hs.malloc hg box table ht
  | free box table => exact hs.free hg box table ha ht

/-- In every run of allocator calls in which no `free` meets an unused page
the counter is right and every successful `malloc` is complete; the first call
that meets one puts the counter out of step. -/
theorem free_pages_accounted (h : Reachable (Initial g) (step g) (NoStaleFree g) sys) :
    Accounted g sys ∧ ∀ call next, step g sys call = some next →
      ¬NoStaleFree g sys call → ¬Accounted g next := by
  have hg := wellFormed_of_reachable h
  have hbalanced := balanced_of_reachable h
  exact ⟨hbalanced.accounted hg, fun call next hs ha => hbalanced.stale_free hg ha hs⟩

instance : ∀ sys call, Decidable (NoStaleFree fourPages sys call)
  | _, .malloc _ _ => inferInstanceAs (Decidable True)
  | sys, .free box table => inferInstanceAs (Decidable (∀ i < tableSize table.pageCount,
      Frees fourPages box table sys.alloc i →
        mapGet fourPages sys.alloc.usageMap (entry fourPages table i) = true))

/-- Box 1 releases a page of box 0 after a call that failed: two of the four
pages are then free and can be had. -/
theorem free_pages_accounted_shared :
    ∃ sys : System, sys.alloc.countFree = 2 ∧ Accounted fourPages sys := by
  have hrun : ((execWithin (step fourPages) (NoStaleFree fourPages)
      [.malloc 0 (tableOf [0, 0]), .malloc 2 (tableOf [0]), .free 2 (tableOf [3]),
        .free 1 (tableOf [1])] booted).map fun sys => sys.alloc.countFree) = some 2 := by decide
  rw [Option.map_eq_some_iff] at hrun
  obtain ⟨sys, hs, hfree⟩ := hrun
  exact ⟨sys, hfree, (free_pages_accounted
    (execWithin_reachable (Reachable.start booted_initial) hs)).1⟩

/-- Boxes 1 and 2 both release the same page of box 0. All four pages are then
counted free although one is in use, and a request for four pages succeeds
with three origins. -/
theorem double_free_breaks_accounting :
    ∃ g sys, Reachable (Initial g) (step g) (fun _ _ => True) sys ∧
      sys.alloc.countFree = g.countTotal ∧ mapGet g sys.alloc.usageMap 1 = true ∧
      (malloc g 1 (tableOf [0, 0, 0, 0]) sys.alloc).1 = .ok ∧
      (malloc g 1 (tableOf [0, 0, 0, 0]) sys.alloc).2.1.length = 3 ∧ ¬Accounted g sys := by
  have hrun : ((exec (step fourPages) [.malloc 0 (tableOf [0, 0]), .free 1 (tableOf [0]),
      .free 2 (tableOf [0])] booted).map fun sys =>
        (sys.alloc.countFree, mapGet fourPages sys.alloc.usageMap 1,
          (malloc fourPages 1 (tableOf [0, 0, 0, 0]) sys.alloc).1,
          (malloc fourPages 1 (tableOf [0, 0, 0, 0]) sys.alloc).2.1.length)) =
      some (4, true, .ok, 3) := by decide
  rw [Option.map_eq_some_iff] at hrun
  obtain ⟨sys, hs, hall⟩ := hrun
  simp only [Prod.mk.injEq] at hall
  obtain ⟨hfree, hused, hok, hshort⟩ := hall
  refine ⟨fourPages, sys, exec_reachable (Reachable.start booted_initial) hs, hfree, hused, hok,
    hshort, fun hacc => ?_⟩
  have hlength := (hacc.grants 1 _ hok).1
  rw [hshort] at hlength
  cases hlength

end Uvisor.PageAccounting
