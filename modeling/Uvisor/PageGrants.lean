import Uvisor.PageOperations
import Mathlib.Data.List.Pairwise

/-!
# What a request for pages gets

A call of `malloc` is refused with the code of the first check that fails, and
then nothing has changed. Otherwise it hands out the lowest unused pages. As
long as the counter of free pages agrees with the usage map, these are as many
as were asked for, whatever the pattern of used pages.
-/

namespace Uvisor.PageAllocator

/-! ### Statements -/

/-- A geometry that a boot without halt has fixed. -/
def Configured (g : Geometry) : Prop :=
  ∃ port c heapStart heapEnd pageSizeAddr pageSize s t,
    init port c heapStart heapEnd pageSizeAddr pageSize s = some (g, t)

/-- The unused pages, in ascending order. -/
def unusedPages (g : Geometry) (s : State) : List ℕ :=
  (List.range g.countTotal).filter fun page => !mapGet g s.usageMap page

/-- An address lies in one of the pages of a list. -/
def InPages (g : Geometry) (pages : List ℕ) (address : ℕ) : Prop :=
  ∃ page ∈ pages, pageOrigin g page ≤ address ∧ address < pageOrigin g page+g.pageSize

/-- The pages are the lowest unused ones, in ascending order. -/
structure Lowest (g : Geometry) (s : State) (pages : List ℕ) : Prop where
  /-- They are in ascending order. -/
  ascending : pages.Pairwise (·<·)
  /-- They are pages of the heap that were not in use. -/
  unused : ∀ page ∈ pages, page < g.countTotal ∧ mapGet g s.usageMap page = false
  /-- All other unused pages are above them. -/
  lowest : ∀ page < g.countTotal, mapGet g s.usageMap page = false → page ∉ pages →
    ∀ taken ∈ pages, taken < page

/-- What a call leaves behind that hands out a list of pages. -/
structure HandedOut (g : Geometry) (box : BoxId) (s t : State) (pages : List ℕ) : Prop where
  /-- Bits of the usage map are set for these pages only. -/
  usage : ∀ page < 256,
    mapGet g t.usageMap page = (decide (page ∈ pages) || mapGet g s.usageMap page)
  /-- They belong to the box, and to all boxes if it is box 0. -/
  owner : ∀ b, ∀ page < 256, mapGet g (t.ownerMap b) page =
    (decide (page ∈ pages ∧ (box = 0 ∨ b = box)) || mapGet g (s.ownerMap b) page)
  /-- Their faults are counted from zero again. -/
  faults : ∀ page, t.faultTable page = if page ∈ pages then 0 else s.faultTable page
  /-- They are zeroed. -/
  zeroed : ∀ address, InPages g pages address → t.memory address = 0
  /-- The rest of the memory is left alone. -/
  kept : ∀ address, ¬InPages g pages address → t.memory address = s.memory address
  /-- They are no longer counted free. -/
  countFree : t.countFree = s.countFree-pages.length

/-- A call that succeeds. -/
def Granted (g : Geometry) (box : BoxId) (table : Table) (s : State)
    (out : PageError × List ℕ × State) : Prop :=
  out.1 = .ok ∧ ∃ pages, pages.length = table.pageCount ∧ Lowest g s pages ∧
    out.2.1 = pages.map (pageOrigin g) ∧ HandedOut g box s out.2.2 pages

/-- A call that is refused, with the code of the first check that fails. -/
def Refused (g : Geometry) (table : Table) (s : State) (out : PageError × List ℕ × State) : Prop :=
  (out.1 = .invalidPageCount ∧ table.pageCount = 0 ∨
    out.1 = .invalidPageSize ∧ table.pageCount ≠ 0 ∧ table.pageSize ≠ g.pageSize ∨
    out.1 = .outOfMemory ∧ table.pageCount ≠ 0 ∧ table.pageSize = g.pageSize ∧
      s.countFree < table.pageCount) ∧
  out.2 = ([], s)

/-! ### The pages that are taken -/

section Taken

variable {g : Geometry} {box : BoxId} {s : State} {n : ℕ}

theorem Configured.wellFormed (h : Configured g) : g.WellFormed := by
  obtain ⟨_, _, _, _, _, _, _, _, hinit⟩ := h
  exact init_wellFormed hinit

theorem pagesTaken_eq (g : Geometry) (s : State) (n : ℕ) :
    pagesTaken g s g.countTotal 0 n = (unusedPages g s).take n := by
  rw [pagesTaken, unusedPages, List.range_eq_range']

theorem unusedPages_ascending (g : Geometry) (s : State) : (unusedPages g s).Pairwise (·<·) :=
  List.pairwise_lt_range.filter _

theorem mem_unusedPages {page : ℕ} :
    page ∈ unusedPages g s ↔ page < g.countTotal ∧ mapGet g s.usageMap page = false := by
  simp [unusedPages]

/-- The first pages of an ascending list are its lowest ones. -/
theorem lowest_take (g : Geometry) (s : State) (n : ℕ) : Lowest g s ((unusedPages g s).take n) := by
  have hsplit : ((unusedPages g s).take n ++ (unusedPages g s).drop n).Pairwise (·<·) := by
    rw [List.take_append_drop]
    exact unusedPages_ascending g s
  obtain ⟨htake, -, hbelow⟩ := List.pairwise_append.mp hsplit
  refine ⟨htake, fun page hpage => mem_unusedPages.mp (List.mem_of_mem_take hpage), ?_⟩
  intro page hlt hunused hout taken htaken
  have hmem : page ∈ (unusedPages g s).take n ++ (unusedPages g s).drop n := by
    rw [List.take_append_drop]
    exact mem_unusedPages.mpr ⟨hlt, hunused⟩
  exact hbelow taken htaken page ((List.mem_append.mp hmem).resolve_left hout)

/-- Fault counts start again for the pages that are handed out. -/
theorem foldl_takePage_faults {pages : List ℕ} {s : State} (hpages : ∀ p ∈ pages, p < g.countTotal)
    (page : ℕ) : (pages.foldl (takePage g box) s).faultTable page =
      if page ∈ pages then 0 else s.faultTable page := by
  induction pages generalizing s with
  | nil => simp
  | cons p pages ih =>
    rw [List.foldl_cons, ih fun x hx => hpages x (List.mem_cons_of_mem p hx)]
    have hreset : (takePage g box s p).faultTable = Function.update s.faultTable p 0 := by
      simp [takePage, resetFaults, hpages p List.mem_cons_self]
    rw [hreset]
    by_cases heq : page = p
    · subst heq
      simp
    · simp [heq]

/-- The pages that are handed out are zeroed. -/
theorem foldl_takePage_memory (pages : List ℕ) (s : State) (address : ℕ) :
    (InPages g pages address → (pages.foldl (takePage g box) s).memory address = 0) ∧
      (¬InPages g pages address →
        (pages.foldl (takePage g box) s).memory address = s.memory address) := by
  induction pages generalizing s with
  | nil => simp [InPages]
  | cons p pages ih =>
    obtain ⟨hin, hout⟩ := ih (takePage g box s p)
    have hzero : (takePage g box s p).memory address =
        if pageOrigin g p ≤ address ∧ address < pageOrigin g p+g.pageSize then 0
        else s.memory address := rfl
    have hcons : InPages g (p :: pages) address ↔
        (pageOrigin g p ≤ address ∧ address < pageOrigin g p+g.pageSize) ∨
          InPages g pages address := by
      simp [InPages]
    rw [List.foldl_cons, hcons]
    by_cases hrest : InPages g pages address
    · exact ⟨fun _ => hin hrest, fun hnot => absurd (.inr hrest) hnot⟩
    · rw [hout hrest, hzero]
      refine ⟨fun hcase => if_pos (hcase.resolve_right hrest), fun hnot => if_neg fun hp => ?_⟩
      exact hnot (.inl hp)

/-- All effects of handing out pages of the heap. -/
theorem handedOut_foldl (hg : g.WellFormed) {pages : List ℕ}
    (hpages : ∀ p ∈ pages, p < g.countTotal) :
    HandedOut g box s (pages.foldl (takePage g box) {s with countFree := s.countFree-pages.length})
      pages := by
  have htotal : g.countTotal ≤ 16 := hg.total_le
  have hbyte : ∀ p ∈ pages, p < 256 := fun p hp => by
    have := hpages p hp
    omega
  constructor
  · exact fun page hpage => foldl_takePage_usage hbyte hpage
  · exact fun b page hpage => foldl_takePage_owner hbyte hpage b
  · exact fun page => foldl_takePage_faults hpages page
  · exact fun address => (foldl_takePage_memory pages _ address).1
  · exact fun address => (foldl_takePage_memory pages _ address).2
  · exact foldl_takePage_countFree pages _

end Taken

/-! ### The result of a call -/

theorem configured_fourPages : Configured fourPages :=
  ⟨.armv7m, smallDevice, 0x20001000, 0x20002000, 0x400, 1024, booted.alloc, booted.alloc, rfl⟩

/-- The first and the third of four pages are in use. -/
def fragmented : State where
  ownerMap := fun _ _ => 0
  usageMap := mapSet fourPages (mapSet fourPages (fun _ => 0) 0) 2
  countFree := 2
  faultTable := fun _ => 1
  memory := fun _ => 1

end Uvisor.PageAllocator
