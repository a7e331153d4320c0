import Uvisor.PageOperations

/-!
# Iterating over the pages of the active box

The page allocator calls back for every page of the active box, in order of
the page numbers, until a callback asks it to stop. The protection hardware
with regions of any size gets its page regions in this way.
-/

namespace Uvisor.PageAllocator

universe u

/-- PageAllocatorIteratorDirection. -/
inductive Direction where
  | forward
  | backward
  deriving DecidableEq

section Iteration

variable {σ : Type u}

/-- The pages that are left of an iteration. A callback gets the first address
of its page, the address after its page and the pass of the loop, and reports
whether to go on. -/
def iteratePages (g : Geometry) (map : PageMap) (direction : Direction)
    (callback : ℕ → ℕ → ℕ → σ → Bool × σ) : ℕ → ℕ → ℕ → σ → ℕ × σ
  | 0, _, count, s => (count, s)
  | pages+1, ii, count, s =>
    let index := match direction with
      | .backward => g.countTotal-1-ii
      | .forward => ii
    if mapGet g map index then
      let startAddr := pageOrigin g index
      let endAddr := (startAddr+g.pageSize)%2^32
      let (more, s) := callback startAddr endAddr ii s
      if more then iteratePages g map direction callback pages (ii+1) (count+1) s
      else (count+1, s)
    else iteratePages g map direction callback pages (ii+1) count s

/-- page_allocator_iterate_active_pages: the number of pages that have been
found, and what the callbacks did. -/
def pageAllocatorIterateActivePages (g : Geometry) (box : BoxId) (alloc : State)
    (direction : Direction) (callback : ℕ → ℕ → ℕ → σ → Bool × σ) (s : σ) : ℕ × σ :=
  iteratePages g (alloc.ownerMap box) direction callback g.countTotal 0 0 s

/-- The pages of a box, in order. -/
def activePages (g : Geometry) (box : BoxId) (alloc : State) : List ℕ :=
  (List.range g.countTotal).filter fun page => mapGet g (alloc.ownerMap box) page

theorem mem_activePages {g : Geometry} {box : BoxId} {alloc : State} {page : ℕ} :
    page ∈ activePages g box alloc ↔
      page < g.countTotal ∧ mapGet g (alloc.ownerMap box) page = true := by
  simp [activePages]

/-- The first address of a page and the address after it, for a callback. -/
def onPage (g : Geometry) (callback : ℕ → ℕ → ℕ → σ → Bool × σ) (s : σ) (page : ℕ) : σ :=
  (callback (pageOrigin g page) ((pageOrigin g page+g.pageSize)%2^32) page s).2

theorem iteratePages_forward {g : Geometry} {map : PageMap} {callback : ℕ → ℕ → ℕ → σ → Bool × σ}
    (hmore : ∀ startAddr endAddr ii s, (callback startAddr endAddr ii s).1 = true)
    (pages ii count : ℕ) (s : σ) :
    iteratePages g map .forward callback pages ii count s =
      let rest := (List.range' ii pages).filter fun page => mapGet g map page
      (count+rest.length, rest.foldl (onPage g callback) s) := by
  induction pages generalizing ii count s with
  | zero => rfl
  | succ pages ih =>
    rw [iteratePages, List.range'_succ]
    by_cases hset : mapGet g map ii = true
    · simp only [if_pos hset, hmore, if_true, ih, List.filter_cons, List.length_cons,
        List.foldl_cons, Nat.add_assoc, Nat.add_comm 1]
      rfl
    · simp only [if_neg hset, ih, List.filter_cons]

/-- When no callback asks to stop, an iteration is a fold over the active pages. -/
theorem iterateActivePages_forward {g : Geometry} {box : BoxId} {alloc : State}
    {callback : ℕ → ℕ → ℕ → σ → Bool × σ}
    (hmore : ∀ startAddr endAddr ii s, (callback startAddr endAddr ii s).1 = true) (s : σ) :
    pageAllocatorIterateActivePages g box alloc .forward callback s =
      ((activePages g box alloc).length, (activePages g box alloc).foldl (onPage g callback) s) := by
  rw [pageAllocatorIterateActivePages, iteratePages_forward hmore, activePages,
    List.range_eq_range']
  simp only [Nat.zero_add]

end Iteration

end Uvisor.PageAllocator
