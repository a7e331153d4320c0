import Uvisor.ActivePages
import Uvisor.ArmMpu
import Uvisor.PageOwnership

/-!
# Isolation of boxes by a protection unit

A protection unit opens windows onto the memory. Context switches and recovered
faults open windows for the regions of a box or for its pages, the active box
gets and returns pages, and its windows can all be closed. Two ports of the
memory protection are units of this kind, and what holds in their runs is
proved here for both.
-/

namespace Uvisor.BoxIsolation

open PageAllocator PageOwnership Execution

variable {σ ω : Type}

/-! ## Protection units -/

/-- A protection unit with its page heap. -/
structure Protection (σ ω : Type) where
  /-- The active box. -/
  activeBox : σ → BoxId
  /-- The page allocator. -/
  alloc : σ → PageAllocator.State
  /-- What the page allocator does to the state. -/
  setAlloc : PageAllocator.State → σ → σ
  /-- A context switch. -/
  switch : BoxId → σ → Option σ
  /-- A fault at an address that is recovered from. -/
  fault : BitVec 32 → σ → Option σ
  /-- Close the windows. -/
  invalidate : σ → σ
  /-- The windows that are open for the active box. -/
  Opens : σ → ω → Prop
  /-- The windows for the regions of a box. -/
  Listed : BoxId → ω → Prop
  /-- The window of a page. -/
  pageWindow : ℕ → ω
  /-- What the unit needs to work. -/
  Good : σ → Prop

/-- The window is for a region of the box or of box 0, or for a page of the box. -/
def Protection.MayOpen (u : Protection σ ω) (g : Geometry) (box : BoxId)
    (alloc : PageAllocator.State) (w : ω) : Prop :=
  u.Listed box w ∨ u.Listed 0 w ∨ ∃ page ∈ activePages g box alloc, w = u.pageWindow page

/-- The bookkeeping of pages is the same, but for the counts of faults. -/
structure SamePages (before after : PageAllocator.State) : Prop where
  /-- Owners. -/
  owner : after.ownerMap = before.ownerMap
  /-- Usage. -/
  usage : after.usageMap = before.usageMap
  /-- Free pages. -/
  free : after.countFree = before.countFree

theorem SamePages.refl (alloc : PageAllocator.State) : SamePages alloc alloc := ⟨rfl, rfl, rfl⟩

theorem samePages_registerFault (g : Geometry) (page : ℕ) (alloc : PageAllocator.State) :
    SamePages alloc (ArmMpu.pageAllocatorRegisterFault g page alloc) := by
  unfold ArmMpu.pageAllocatorRegisterFault
  split
  · exact ⟨rfl, rfl, rfl⟩
  · exact .refl alloc

/-- An address in a page of a box is recovered from with that page. -/
theorem getActiveRegion_ok (hg : g.WellFormed) {boxId : BoxId} {alloc : PageAllocator.State}
    {address startAddr endAddr page : ℕ}
    (h : getActiveRegionForAddress g boxId alloc address = .ok (startAddr, endAddr, page)) :
    page ∈ activePages g boxId alloc ∧ startAddr = pageOrigin g page ∧
      endAddr = (pageOrigin g page+g.pageSize)%2^32 := by
  unfold getActiveRegionForAddress activePage at h
  dsimp only at h
  split at h
  · cases h
  rename_i hheap
  split at h
  · cases h
  rename_i hown
  have hpair := Except.ok.inj h
  simp only [Prod.mk.injEq] at hpair
  obtain ⟨rfl, rfl, rfl⟩ := hpair
  refine ⟨mem_activePages.mpr ⟨?_, by simpa using hown⟩, rfl, rfl⟩
  -- An address in the heap is in one of its pages.
  have hend := hg.heapEnd_eq
  unfold getPageFromAddress at hheap ⊢
  split
  · rename_i hout
    exact absurd (if_pos hout) hheap
  · rename_i hin
    push Not at hin
    refine lt_of_le_of_lt (Nat.mod_le _ _) (Nat.div_lt_of_lt_mul ?_)
    rw [Nat.mul_comm]
    omega

/-- A unit opens nothing but what it may. -/
structure Protection.Lawful (u : Protection σ ω) (g : Geometry) : Prop where
  /-- A switch makes the box active. -/
  switch_frame : ∀ {box s t}, u.Good s → u.switch box s = some t →
    u.Good t ∧ u.activeBox t = box ∧ u.alloc t = u.alloc s
  /-- It leaves no window open but those of the box. -/
  switch_opens : ∀ {box s t w}, u.Good s → u.switch box s = some t → u.Opens t w →
    u.MayOpen g box (u.alloc s) w
  /-- A fault leaves the pages to their owners. -/
  fault_frame : ∀ {address s t}, u.Good s → u.fault address s = some t →
    u.Good t ∧ u.activeBox t = u.activeBox s ∧ SamePages (u.alloc s) (u.alloc t)
  /-- It opens windows of the active box only. -/
  fault_opens : ∀ {address s t w}, u.Good s → u.fault address s = some t → u.Opens t w →
    u.Opens s w ∨ u.MayOpen g (u.activeBox s) (u.alloc s) w
  /-- Closing the windows is no switch. -/
  invalidate_frame : ∀ {s}, u.Good s →
    u.Good (u.invalidate s) ∧ u.activeBox (u.invalidate s) = u.activeBox s ∧
      u.alloc (u.invalidate s) = u.alloc s
  /-- No window stays open. -/
  invalidate_opens : ∀ {s w}, ¬u.Opens (u.invalidate s) w
  /-- The page allocator does nothing else. -/
  setAlloc_frame : ∀ {alloc s}, u.Good s →
    u.Good (u.setAlloc alloc s) ∧ u.activeBox (u.setAlloc alloc s) = u.activeBox s ∧
      u.alloc (u.setAlloc alloc s) = alloc
  /-- It opens no window. -/
  setAlloc_opens : ∀ {alloc s w}, u.Opens (u.setAlloc alloc s) w → u.Opens s w

/-! ## Runs -/

/-- A unit, and who holds the pages. -/
structure Run (σ : Type) where
  /-- The unit. -/
  unit : σ
  /-- The box that a page in use was handed out to. -/
  holder : ℕ → Option BoxId

/-- What happens between two accesses to memory. -/
inductive Action where
  /-- A context switch to a box. -/
  | switch (dstBox : BoxId)
  /-- A fault that is recovered from. -/
  | fault (faultAddr : BitVec 32)
  /-- The active box asks for pages. -/
  | malloc (table : Table)
  /-- The active box gives pages back. -/
  | free (table : Table)
  /-- The active box has its regions invalidated. -/
  | invalidate

section Runs

variable (u : Protection σ ω) (g : Geometry)

/-- The page allocator and the holders of its pages. -/
def Run.pages (r : Run σ) : System := ⟨u.alloc r.unit, r.holder⟩

/-- The page allocator is called. -/
def Run.call (r : Run σ) (call : Call) : Option (Run σ) :=
  (PageAllocator.step g (r.pages u) call).map fun sys => ⟨u.setAlloc sys.alloc r.unit, sys.holder⟩

/-- The call of the page allocator that the active box makes. -/
def Action.allocatorCall (box : BoxId) : Action → Option Call
  | .malloc table => some (.malloc box table)
  | .free table => some (.free box table)
  | _ => none

/-- One step; there is no result when the system halts. -/
def step (r : Run σ) : Action → Option (Run σ)
  | .switch dstBox => (u.switch dstBox r.unit).map fun unit => {r with unit}
  | .fault faultAddr => (u.fault faultAddr r.unit).map fun unit => {r with unit}
  | .malloc table => r.call u g (.malloc (u.activeBox r.unit) table)
  | .free table => r.call u g (.free (u.activeBox r.unit) table)
  | .invalidate => some {r with unit := u.invalidate r.unit}

/-- A boot of a port that does not halt sets up the page heap. -/
def Boots (port : Port) (alloc : PageAllocator.State) : Prop :=
  ∃ c heapStart heapEnd pageSizeAddr pageSize before,
    init port c heapStart heapEnd pageSizeAddr pageSize before = some (g, alloc)

/-- The page heap has just been initialized, and only regions of the active box
are open. -/
structure Initial (port : Port) (r : Run σ) : Prop where
  /-- The unit works. -/
  good : u.Good r.unit
  /-- The page heap is fresh. -/
  boots : Boots g port (u.alloc r.unit)
  /-- Nobody holds a page. -/
  holder : r.holder = fun _ => none
  /-- Nothing but the regions of the active box is open. -/
  opens : ∀ w, u.Opens r.unit w → u.Listed (u.activeBox r.unit) w

/-- No secure box returns a page that box 0 holds. -/
def Permitted (r : Run σ) (a : Action) : Prop :=
  ∀ call ∈ a.allocatorCall (u.activeBox r.unit), NoForeignFree g (r.pages u) call

/-- The box may use a page that it holds, that box 0 holds or that nobody holds. -/
def MayUse (holder : ℕ → Option BoxId) (box : BoxId) (page : ℕ) : Prop :=
  holder page = none ∨ holder page = some 0 ∨ holder page = some box

/-- What is open in a run. -/
def Isolated (r : Run σ) : Prop :=
  ∀ w, u.Opens r.unit w →
    u.Listed (u.activeBox r.unit) w ∨ u.Listed 0 w ∨
      ∃ page < g.countTotal, w = u.pageWindow page ∧ MayUse r.holder (u.activeBox r.unit) page

end Runs

/-! ## The invariant -/

section Invariant

variable {u : Protection σ ω} {g : Geometry} {port : Port} {r r' : Run σ}

/-- What holds between the steps. -/
structure Inv (u : Protection σ ω) (g : Geometry) (port : Port) (r : Run σ) : Prop where
  /-- The unit works. -/
  good : u.Good r.unit
  /-- The heap is that of a boot. -/
  heap : ∃ alloc, Boots g port alloc
  /-- The maps agree with the holders. -/
  tracked : Tracked g (r.pages u)
  /-- Nothing is open that should not be. -/
  isolated : Isolated u g r

/-- The heap lies in the address space. -/
theorem Inv.wellFormed (h : Inv u g port r) : g.WellFormed := by
  obtain ⟨_, _, _, _, _, _, _, hinit⟩ := h.heap
  exact init_wellFormed hinit

/-- The maps agree with the holders also when faults have been counted. -/
theorem tracked_samePages {sys : System} {after : PageAllocator.State} (h : Tracked g sys)
    (hsame : SamePages sys.alloc after) : Tracked g ⟨after, sys.holder⟩ where
  free_le := hsame.free ▸ h.free_le
  holder_lt := h.holder_lt
  held page b hb := by
    obtain ⟨hused, hown⟩ := h.held page b hb
    exact ⟨hsame.usage ▸ hused, fun box => hsame.owner ▸ hown box⟩
  idle page hpage hb := by
    obtain ⟨hunused, hown⟩ := h.idle page hpage hb
    exact ⟨hsame.usage ▸ hunused, fun box => hsame.owner ▸ hown box⟩

/-- A page of a box is held by it or by box 0. -/
theorem mayUse_of_active {sys : System} (h : Tracked g sys) (hg : g.WellFormed) {box : BoxId}
    {page : ℕ} (hpage : page ∈ activePages g box sys.alloc) :
    page < g.countTotal ∧ MayUse sys.holder box page := by
  obtain ⟨hlt, hown⟩ := mem_activePages.mp hpage
  refine ⟨hlt, ?_⟩
  have htotal : g.countTotal ≤ 16 := hg.total_le
  cases hholder : sys.holder page with
  | none =>
    rw [(h.idle page (by omega) hholder).2 box] at hown
    cases hown
  | some b =>
    rw [(h.held page b hholder).2 box, decide_eq_true_eq] at hown
    rcases hown with rfl | rfl
    · exact .inr (.inl hholder)
    · exact .inr (.inr hholder)

/-- What may be opened for the active box is allowed. -/
theorem Inv.mayOpen (h : Inv u g port r) {box : BoxId} {w : ω}
    (hw : u.MayOpen g box (u.alloc r.unit) w) :
    u.Listed box w ∨ u.Listed 0 w ∨
      ∃ page < g.countTotal, w = u.pageWindow page ∧ MayUse r.holder box page := by
  rcases hw with hown | hpublic | ⟨page, hpage, rfl⟩
  · exact .inl hown
  · exact .inr (.inl hpublic)
  · obtain ⟨hlt, huse⟩ := mayUse_of_active h.tracked h.wellFormed hpage
    exact .inr (.inr ⟨page, hlt, rfl, huse⟩)

theorem Inv.switch (hu : u.Lawful g) (h : Inv u g port r) {dstBox : BoxId} {unit : σ}
    (hs : u.switch dstBox r.unit = some unit) : Inv u g port {r with unit} := by
  obtain ⟨hgood, hactive, halloc⟩ := hu.switch_frame h.good hs
  refine ⟨hgood, h.heap, ?_, fun w hw => ?_⟩
  · rw [Run.pages, halloc]
    exact h.tracked
  · rw [hactive]
    exact h.mayOpen (hu.switch_opens h.good hs hw)

theorem Inv.fault (hu : u.Lawful g) (h : Inv u g port r) {address : BitVec 32} {unit : σ}
    (hs : u.fault address r.unit = some unit) : Inv u g port {r with unit} := by
  obtain ⟨hgood, hactive, hsame⟩ := hu.fault_frame h.good hs
  refine ⟨hgood, h.heap, tracked_samePages h.tracked hsame, fun w hw => ?_⟩
  rw [hactive]
  rcases hu.fault_opens h.good hs hw with hold | hnew
  · exact h.isolated w hold
  · exact h.mayOpen hnew

theorem Inv.invalidate (hu : u.Lawful g) (h : Inv u g port r) :
    Inv u g port {r with unit := u.invalidate r.unit} := by
  obtain ⟨hgood, -, halloc⟩ := hu.invalidate_frame h.good
  refine ⟨hgood, h.heap, ?_, fun w hw => absurd hw hu.invalidate_opens⟩
  rw [Run.pages, halloc]
  exact h.tracked

/-- The caller of `malloc` may use what it gets, and what it could use before. -/
theorem mayUse_malloc {sys next : System} {box : BoxId} {table : Table}
    (hs : PageAllocator.step g sys (.malloc box table) = some next) {page : ℕ}
    (h : MayUse sys.holder box page) : MayUse next.holder box page := by
  obtain rfl := Option.some.inj hs
  unfold MayUse at h ⊢
  dsimp only
  split
  · exact .inr (.inr rfl)
  · exact h

/-- Who returns a page may use it until somebody else gets it. -/
theorem mayUse_free {sys next : System} {box : BoxId} {table : Table}
    (hs : PageAllocator.step g sys (.free box table) = some next) {page : ℕ}
    (h : MayUse sys.holder box page) : MayUse next.holder box page := by
  obtain rfl := Option.some.inj hs
  unfold MayUse at h ⊢
  dsimp only
  split
  · exact h
  · exact .inl rfl

theorem call_some {call : Call} (hs : r.call u g call = some r') :
    ∃ next, PageAllocator.step g (r.pages u) call = some next ∧
      r' = ⟨u.setAlloc next.alloc r.unit, next.holder⟩ := by
  obtain ⟨next, hnext, heq⟩ := Option.map_eq_some_iff.mp hs
  exact ⟨next, hnext, heq.symm⟩

/-- A call of the page allocator takes no access from its caller. -/
theorem Inv.call (hu : u.Lawful g) (h : Inv u g port r) {next : System} (htracked : Tracked g next)
    (huse : ∀ page, MayUse r.holder (u.activeBox r.unit) page →
      MayUse next.holder (u.activeBox r.unit) page) :
    Inv u g port ⟨u.setAlloc next.alloc r.unit, next.holder⟩ := by
  obtain ⟨hgood, hactive, halloc⟩ := @Protection.Lawful.setAlloc_frame _ _ u g hu next.alloc _ h.good
  refine ⟨hgood, h.heap, ?_, fun w hw => ?_⟩
  · rw [Run.pages, halloc]
    exact htracked
  · rw [hactive]
    rcases h.isolated w (hu.setAlloc_opens hw) with hown | hpublic | ⟨page, hlt, rfl, hmay⟩
    · exact .inl hown
    · exact .inr (.inl hpublic)
    · exact .inr (.inr ⟨page, hlt, rfl, huse page hmay⟩)

theorem inv_step (hu : u.Lawful g) (h : Inv u g port r) {a : Action} (ha : Permitted u g r a)
    (hs : step u g r a = some r') : Inv u g port r' := by
  cases a with
  | switch dstBox =>
    obtain ⟨unit, hunit, rfl⟩ := Option.map_eq_some_iff.mp hs
    exact h.switch hu hunit
  | fault faultAddr =>
    obtain ⟨unit, hunit, rfl⟩ := Option.map_eq_some_iff.mp hs
    exact h.fault hu hunit
  | malloc table =>
    obtain ⟨next, hnext, rfl⟩ := call_some hs
    exact h.call hu (h.tracked.malloc h.wellFormed _ table hnext)
      fun _ => mayUse_malloc hnext
  | free table =>
    obtain ⟨next, hnext, rfl⟩ := call_some hs
    exact h.call hu (h.tracked.free h.wellFormed _ table (ha _ rfl) hnext)
      fun _ => mayUse_free hnext
  | invalidate =>
    obtain rfl := Option.some.inj hs
    exact h.invalidate hu

theorem inv_initial (h : Initial u g port r) : Inv u g port r := by
  obtain ⟨c, heapStart, heapEnd, pageSizeAddr, pageSize, before, hinit⟩ := h.boots
  refine ⟨h.good, ⟨_, h.boots⟩, tracked_initial ⟨?_, h.holder⟩, fun w hw => .inl (h.opens w hw)⟩
  exact ⟨port, c, heapStart, heapEnd, pageSizeAddr, pageSize, before, hinit⟩

/-- In every run all open windows are for regions of the active box or of box 0,
or for pages that the active box may use. -/
theorem inv_reachable (hu : u.Lawful g)
    (h : Reachable (Initial u g port) (step u g) (Permitted u g) r) : Inv u g port r :=
  h.invariant (Inv u g port) (fun _ => inv_initial) fun _ _ _ hi ha hs => inv_step hu hi ha hs

end Invariant

end Uvisor.BoxIsolation
