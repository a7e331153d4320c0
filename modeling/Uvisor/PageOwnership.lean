import Uvisor.PageOperations

/-!
# Ownership of pages

As long as no secure box releases a page of box 0, the owner maps say exactly
who holds each page: one secure box alone, or box 0 and with it everybody. A
secure box that does release such a page clears its own bit only and leaves
the page, now unused, in the maps of all others.
-/

namespace Uvisor.PageOwnership

open PageAllocator Execution

variable {g : Geometry} {sys : System}

/-- The maps agree with who holds which page. -/
structure Isolated (g : Geometry) (sys : System) : Prop where
  /-- A used page is held by one box and is accessible to that box alone, or
  to every box when box 0 holds it. -/
  used : ∀ page < g.countTotal, mapGet g sys.alloc.usageMap page = true →
    ∃ b, sys.holder page = some b ∧
      ∀ box, mapGet g (sys.alloc.ownerMap box) page = true ↔ b = 0 ∨ box = b
  /-- An unused page is accessible to nobody. -/
  unused : ∀ page < g.countTotal, mapGet g sys.alloc.usageMap page = false →
    ∀ box, mapGet g (sys.alloc.ownerMap box) page = false
  /-- No other box reaches a secure box's page. -/
  inaccessible : ∀ page b box, sys.holder page = some b → b ≠ 0 → box ≠ b →
    ∀ address, getPageFromAddress g address = page →
      getActiveRegionForAddress g box sys.alloc address = .error .invalidPageOwner ∧
      getActiveMaskForAddress g box sys.alloc address = .error .invalidPageOwner
  /-- No other box releases a secure box's page, whatever its table lists. -/
  unfreeable : ∀ page b box table, sys.holder page = some b → b ≠ 0 → box ≠ b →
    mapGet g (free g box table sys.alloc).2.usageMap page = true ∧
      mapGet g ((free g box table sys.alloc).2.ownerMap b) page = true

/-- No secure box's call of `free` gets to a page handed out to box 0. -/
def NoForeignFree (g : Geometry) (sys : System) : Call → Prop
  | .malloc _ _ => True
  | .free box table =>
    box = 0 ∨ ∀ i < tableSize table.pageCount,
      Frees g box table sys.alloc i → sys.holder (entry g table i) ≠ some 0

/-- What a run without such calls maintains, for every eight-bit page number. -/
structure Tracked (g : Geometry) (sys : System) : Prop where
  /-- No more pages are counted free than there are. -/
  free_le : sys.alloc.countFree ≤ g.countTotal
  /-- Only pages of the heap are held. -/
  holder_lt : ∀ page b, sys.holder page = some b → page < g.countTotal
  /-- A held page is used, and its owner bits follow from its holder. -/
  held : ∀ page b, sys.holder page = some b → mapGet g sys.alloc.usageMap page = true ∧
    ∀ box, mapGet g (sys.alloc.ownerMap box) page = decide (b = 0 ∨ box = b)
  /-- A page nobody holds has no bits. -/
  idle : ∀ page < 256, sys.holder page = none → mapGet g sys.alloc.usageMap page = false ∧
    ∀ box, mapGet g (sys.alloc.ownerMap box) page = false

theorem tracked_initial (h : Initial g sys) : Tracked g sys := by
  obtain ⟨⟨_, _, _, _, _, _, s, hinit⟩, hholder⟩ := h
  obtain ⟨-, -, -, halloc⟩ := init_some hinit
  constructor
  · rw [halloc]
  · simp [hholder]
  · simp [hholder]
  · intro page _ _
    simp [halloc]

/-- The origins written by a call are those of the pages it took. -/
theorem mem_origins_iff (hg : g.WellFormed) {s : State} {n page : ℕ} :
    (page < g.countTotal ∧ pageOrigin g page ∈
      (pagesTaken g s g.countTotal 0 n).map (pageOrigin g)) ↔
      page ∈ pagesTaken g s g.countTotal 0 n := by
  constructor
  · rintro ⟨hpage, hmem⟩
    obtain ⟨p, hp, heq⟩ := List.mem_map.mp hmem
    rwa [← hg.pageOrigin_inj (mem_pagesTaken_lt hp) hpage heq]
  · intro hmem
    exact ⟨mem_pagesTaken_lt hmem, List.mem_map_of_mem hmem⟩

/-- Handing out unused pages keeps the maps in step with the holders. -/
theorem Tracked.malloc (hg : g.WellFormed) (h : Tracked g sys) (box : BoxId) (table : Table)
    {next : System} (hs : step g sys (.malloc box table) = some next) : Tracked g next := by
  obtain rfl := Option.some.inj hs
  have htotal : g.countTotal ≤ 16 := hg.total_le
  rcases malloc_cases hg box table sys.alloc with ⟨-, hsame⟩ | ⟨hcount, heq⟩
  · simpa [step, hsame] using h
  · rw [heq]
    simp only [mem_origins_iff hg]
    set pages := pagesTaken g sys.alloc g.countTotal 0 table.pageCount with hpages
    have hlt : ∀ p ∈ pages, p < 256 := fun p hp => by
      have := mem_pagesTaken_lt hp
      omega
    have hfree : ∀ p ∈ pages, sys.holder p = none := by
      intro p hp
      cases hh : sys.holder p with
      | none => rfl
      | some b =>
        have hused := (h.held p b hh).1
        rw [mem_pagesTaken_unused hp] at hused
        cases hused
    constructor
    · rw [foldl_takePage_countFree]
      have := h.free_le
      dsimp only
      omega
    · intro page b hb
      dsimp only at hb
      split_ifs at hb with hmem
      · exact mem_pagesTaken_lt hmem
      · exact h.holder_lt page b hb
    · intro page b hb
      dsimp only at hb
      split_ifs at hb with hmem
      · obtain rfl := Option.some.inj hb
        have hpage := hlt page hmem
        have hidle := h.idle page hpage (hfree page hmem)
        refine ⟨by simp [foldl_takePage_usage hlt hpage, hmem], fun b => ?_⟩
        rw [foldl_takePage_owner hlt hpage]
        simp [hmem, hidle.2 b]
      · obtain ⟨hused, hown⟩ := h.held page b hb
        have hpage : page < 256 := by
          have := h.holder_lt page b hb
          omega
        refine ⟨by simp [foldl_takePage_usage hlt hpage, hused], fun b' => ?_⟩
        rw [foldl_takePage_owner hlt hpage]
        simp [hmem, hown b']
    · intro page hpage hb
      dsimp only at hb
      split_ifs at hb with hmem
      obtain ⟨hunused, hown⟩ := h.idle page hpage hb
      refine ⟨by simp [foldl_takePage_usage hlt hpage, hmem, hunused], fun b' => ?_⟩
      rw [foldl_takePage_owner hlt hpage]
      simp [hmem, hown b']

/-- A page in the map of the caller that is not box 0's is held by the caller. -/
theorem Tracked.holder_of_owner (h : Tracked g sys) {box : BoxId} {page : ℕ} (hpage : page < 256)
    (hown : mapGet g (sys.alloc.ownerMap box) page = true)
    (hforeign : box = 0 ∨ sys.holder page ≠ some 0) : sys.holder page = some box := by
  cases hh : sys.holder page with
  | none =>
    rw [(h.idle page hpage hh).2 box] at hown
    cases hown
  | some b =>
    rw [(h.held page b hh).2 box, decide_eq_true_eq] at hown
    rcases hown with rfl | rfl
    · rcases hforeign with rfl | hne
      · rfl
      · exact absurd hh hne
    · rfl

/-- Taking back pages of their own holder keeps the maps in step. -/
theorem Tracked.free (hg : g.WellFormed) (h : Tracked g sys) (box : BoxId) (table : Table)
    (ha : NoForeignFree g sys (.free box table)) {next : System}
    (hs : step g sys (.free box table) = some next) : Tracked g next := by
  obtain rfl := Option.some.inj hs
  have htotal : g.countTotal ≤ 16 := hg.total_le
  obtain ⟨n, hcount, hstate, hn⟩ := free_spec hg box table h.free_le
  rw [hstate]
  have hmine : ∀ p ∈ firstPages g table n, sys.holder p = some box := by
    intro p hp
    obtain ⟨i, hi, rfl⟩ := mem_firstPages.mp hp
    have hfrees := (hn i).mp hi
    exact h.holder_of_owner (entry_lt g table i) (hfrees.2.2 i le_rfl).2.1
      (ha.imp id fun hall => hall i hfrees.2.1 hfrees)
  constructor
  · rw [released_countFree (by omega)]
    exact hcount
  · intro page b hb
    dsimp only at hb
    split_ifs at hb
    exact h.holder_lt page b hb
  · intro page b hb
    dsimp only at hb ⊢
    split_ifs at hb with hused
    refine ⟨hused, fun b' => ?_⟩
    have hpage : page < 256 := by
      have := h.holder_lt page b hb
      omega
    rw [released_usage _ _ hpage, Bool.and_eq_true] at hused
    have hmem : page ∉ firstPages g table n := by simpa using hused.1
    rw [released_owner _ _ hpage]
    simp [hmem, (h.held page b hb).2 b']
  · intro page hpage hb
    dsimp only at hb ⊢
    split_ifs at hb with hused
    · have hidle := h.idle page hpage hb
      rw [released_usage _ _ hpage, hidle.1] at hused
      simp at hused
    · refine ⟨by simpa using hused, fun b' => ?_⟩
      rw [released_owner _ _ hpage]
      rw [released_usage _ _ hpage] at hused
      by_cases hmem : page ∈ firstPages g table n
      · have hown := (h.held page box (hmine page hmem)).2 b'
        simp [hmem, hown]
      · cases hh : sys.holder page with
        | none => simp [(h.idle page hpage hh).2 b']
        | some b => simp [hmem, (h.held page b hh).1] at hused

theorem tracked_of_reachable (h : Reachable (Initial g) (step g) (NoForeignFree g) sys) :
    Tracked g sys := by
  have hg := wellFormed_of_reachable h
  apply h.invariant (Tracked g) fun _ => tracked_initial
  intro s call t hs ha ht
  cases call with
  | malloc box table => exact hs.malloc hg box table ht
  | free box table => exact hs.free hg box table ha ht

/-- The two lookups of the fault handlers refuse a page outside the owner map
of the active box. -/
theorem lookup_refused {s : State} {box : BoxId} {address : ℕ}
    (hpage : getPageFromAddress g address ≠ pageUnused)
    (hown : mapGet g (s.ownerMap box) (getPageFromAddress g address) = false) :
    getActiveRegionForAddress g box s address = .error .invalidPageOwner ∧
      getActiveMaskForAddress g box s address = .error .invalidPageOwner := by
  have hactive : activePage g box s address = .error .invalidPageOwner := by
    unfold activePage
    dsimp only
    rw [if_neg hpage, hown]
    rfl
  unfold getActiveRegionForAddress getActiveMaskForAddress
  rw [hactive]
  exact ⟨rfl, rfl⟩

/-- Pages outside the caller's owner map keep all their bits in a call of
`free`. -/
theorem free_other (hg : g.WellFormed) {s : State} {box : BoxId} (table : Table) {page : ℕ}
    (hfree : s.countFree ≤ g.countTotal) (hpage : page < 256)
    (hown : mapGet g (s.ownerMap box) page = false) :
    mapGet g (free g box table s).2.usageMap page = mapGet g s.usageMap page ∧
      ∀ b, mapGet g ((free g box table s).2.ownerMap b) page = mapGet g (s.ownerMap b) page := by
  obtain ⟨n, -, hstate, hn⟩ := free_spec hg box table hfree
  have hmem : page ∉ firstPages g table n := by
    intro hmem
    obtain ⟨i, hi, rfl⟩ := mem_firstPages.mp hmem
    have hbit := (((hn i).mp hi).2.2 i le_rfl).2.1
    rw [hown] at hbit
    cases hbit
  rw [hstate]
  refine ⟨by simp [released_usage s n hpage, hmem], fun b => ?_⟩
  rw [released_owner s n hpage]
  simp [hmem]

/-- Maps in step with the holders isolate the boxes' pages. -/
theorem Tracked.isolated (hg : g.WellFormed) (h : Tracked g sys) : Isolated g sys := by
  have htotal : g.countTotal ≤ 16 := hg.total_le
  have hclosed : ∀ page b box, sys.holder page = some b → b ≠ 0 → box ≠ b →
      page < 16 ∧ mapGet g (sys.alloc.ownerMap box) page = false := by
    intro page b box hb hb0 hbox
    have hlt := h.holder_lt page b hb
    exact ⟨by omega, by simp [(h.held page b hb).2 box, hb0, hbox]⟩
  constructor
  · intro page hpage hused
    cases hh : sys.holder page with
    | none =>
      rw [(h.idle page (by omega) hh).1] at hused
      cases hused
    | some b => exact ⟨b, rfl, fun box => by simp [(h.held page b hh).2 box]⟩
  · intro page hpage hunused
    cases hh : sys.holder page with
    | none => exact (h.idle page (by omega) hh).2
    | some b =>
      rw [(h.held page b hh).1] at hunused
      cases hunused
  · intro page b box hb hb0 hbox address haddress
    obtain ⟨hlt, hown⟩ := hclosed page b box hb hb0 hbox
    subst haddress
    exact lookup_refused (fun heq => absurd (heq ▸ hlt) (by decide)) hown
  · intro page b box table hb hb0 hbox
    obtain ⟨hlt, hown⟩ := hclosed page b box hb hb0 hbox
    obtain ⟨hused, howner⟩ := free_other hg table h.free_le (by omega) hown
    rw [hused, howner b]
    exact ⟨(h.held page b hb).1, by simp [(h.held page b hb).2 b]⟩

/-- A secure box that releases a page of box 0 leaves it unused and yet in the
map of box 0. -/
theorem Tracked.foreign_free (hg : g.WellFormed) (h : Tracked g sys) {call : Call}
    (ha : ¬NoForeignFree g sys call) {next : System} (hs : step g sys call = some next) :
    ¬Isolated g next := by
  cases call with
  | malloc box table => exact absurd trivial ha
  | free box table =>
    simp only [NoForeignFree, not_or, not_forall, not_not] at ha
    obtain ⟨hbox, i, -, hfrees, hholder⟩ := ha
    obtain ⟨n, -, hstate, hn⟩ := free_spec hg box table h.free_le
    have hpage := entry_lt g table i
    have hmem : entry g table i ∈ firstPages g table n :=
      mem_firstPages.mpr ⟨i, (hn i).mpr hfrees, rfl⟩
    obtain rfl := Option.some.inj hs
    intro hiso
    have hunused := hiso.unused (entry g table i) (h.holder_lt _ _ hholder)
    dsimp only at hunused
    rw [hstate, released_usage _ _ hpage] at hunused
    have hzero := hunused (by simp [hmem]) 0
    rw [released_owner _ _ hpage, (h.held _ _ hholder).2 0] at hzero
    simp [hbox, Ne.symm hbox] at hzero

/-- In every run of allocator calls in which no secure box releases a page of
box 0 the maps isolate the boxes, and the first call that does so breaks the
isolation. -/
theorem ownership_isolated (h : Reachable (Initial g) (step g) (NoForeignFree g) sys) :
    Isolated g sys ∧ ∀ call next, step g sys call = some next →
      ¬NoForeignFree g sys call → ¬Isolated g next := by
  have hg := wellFormed_of_reachable h
  have htracked := tracked_of_reachable h
  exact ⟨htracked.isolated hg, fun call next hs ha => htracked.foreign_free hg ha hs⟩

instance : ∀ sys call, Decidable (NoForeignFree fourPages sys call)
  | _, .malloc _ _ => inferInstanceAs (Decidable True)
  | sys, .free box table => inferInstanceAs (Decidable (_ ∨ ∀ i < tableSize table.pageCount,
      Frees fourPages box table sys.alloc i → sys.holder (entry fourPages table i) ≠ some 0))

/-- Box 2 takes two pages between pages of box 0 and box 1, returns one of
them, and nobody else reaches the other. -/
theorem ownership_isolated_shared :
    ∃ sys : System, sys.holder 2 = some 2 ∧ sys.holder 1 = none ∧ Isolated fourPages sys := by
  have hrun : ((execWithin (step fourPages) (NoForeignFree fourPages)
      [.malloc 0 (tableOf [0]), .malloc 2 (tableOf [0, 0]), .malloc 1 (tableOf [0]),
        .free 2 (tableOf [1])] booted).map fun sys => (sys.holder 2, sys.holder 1)) =
      some (some 2, none) := by decide
  rw [Option.map_eq_some_iff] at hrun
  obtain ⟨sys, hs, hboth⟩ := hrun
  obtain ⟨hheld, hidle⟩ := Prod.mk.inj hboth
  exact ⟨sys, hheld, hidle, (ownership_isolated
    (execWithin_reachable (Reachable.start booted_initial) hs)).1⟩

/-- Box 1 releases a page of box 0. The page is then unused and still in the
owner map of box 2. -/
theorem foreign_free_breaks_isolation :
    ∃ g sys, Reachable (Initial g) (step g) (fun _ _ => True) sys ∧
      mapGet g sys.alloc.usageMap 0 = false ∧ mapGet g (sys.alloc.ownerMap 2) 0 = true ∧
      ¬Isolated g sys := by
  have hrun : ((exec (step fourPages) [.malloc 0 (tableOf [0]), .free 1 (tableOf [0])]
      booted).map fun sys => (mapGet fourPages sys.alloc.usageMap 0,
        mapGet fourPages (sys.alloc.ownerMap 2) 0)) = some (false, true) := by decide
  rw [Option.map_eq_some_iff] at hrun
  obtain ⟨sys, hs, hboth⟩ := hrun
  obtain ⟨hunused, howner⟩ := Prod.mk.inj hboth
  refine ⟨fourPages, sys, exec_reachable (Reachable.start booted_initial) hs, hunused, howner,
    fun hiso => ?_⟩
  rw [hiso.unused 0 (by decide) hunused 2] at howner
  cases howner

end Uvisor.PageOwnership
