import Uvisor.ActivePages
import Uvisor.PageSubregions

/-!
# Iterating over the octets of an owner map

The iteration takes the highest octets of the map of the active box, as many
as the pages would fill if the last page had the last bit. The bits are
shifted down by the pages that are missing up to the rounded end of the heap,
and so the lowest pages can have their bits in an octet that is left out.
-/

namespace Uvisor.PageMasks

open PageAllocator MpuIsolation PageSubregions Execution

universe u

/-! ## The iteration -/

/-- page_count_octets, the number of passes. -/
def pageCountOctets (g : Geometry) : ℕ := (g.countTotal+7)/8

/-- The octet of a pass. -/
def octetAt (g : Geometry) (direction : Direction) (ii : ℕ) : ℕ :=
  match direction with
  | .backward => pageMapCount*4-1-ii
  | .forward => (pageMapCount*4-pageCountOctets g)+ii

/-- An octet of an owner map. -/
def maskOf (map : PageMap) (index : ℕ) : BitVec 8 := (map (index/4) >>> (index%4*8)).setWidth 8

section Iteration

variable {σ : Type u}

/-- The passes that are left of an iteration. A callback gets a mask and the
number of the pass, and reports whether to go on. -/
def iterateMasks (g : Geometry) (map : PageMap) (direction : Direction)
    (callback : BitVec 8 → ℕ → σ → Bool × σ) : ℕ → ℕ → ℕ → σ → ℕ × σ
  | 0, _, count, s => (count, s)
  | octets+1, ii, count, s =>
    let mask := maskOf map (octetAt g direction ii)
    if mask ≠ 0 then
      let (more, s) := callback mask ii s
      if more then iterateMasks g map direction callback octets (ii+1) (count+1) s else (count+1, s)
    else iterateMasks g map direction callback octets (ii+1) count s

/-- page_allocator_iterate_active_page_masks: the number of masks that have
been found, and what the callbacks did. -/
def pageAllocatorIterateActivePageMasks (g : Geometry) (box : BoxId) (alloc : State)
    (direction : Direction) (callback : BitVec 8 → ℕ → σ → Bool × σ) (s : σ) : ℕ × σ :=
  iterateMasks g (alloc.ownerMap box) direction callback (pageCountOctets g) 0 0 s

/-- What the callback of a pass does. -/
def onMask (g : Geometry) (map : PageMap) (direction : Direction)
    (callback : BitVec 8 → ℕ → σ → Bool × σ) (s : σ) (ii : ℕ) : σ :=
  (callback (maskOf map (octetAt g direction ii)) ii s).2

end Iteration

/-! ## Statements -/

/-- A page of the heap that is in an owner map has its bit in an octet. -/
def Owned (g : Geometry) (map : PageMap) (octet : ℕ) : Prop :=
  ∃ page < g.countTotal, mapGet g map page = true ∧ position g page/8 = octet

instance (g : Geometry) (map : PageMap) (octet : ℕ) : Decidable (Owned g map octet) :=
  inferInstanceAs (Decidable (∃ page < g.countTotal, _))

/-- The octets with owned pages, in the order of an iteration. -/
def ownedOctets (g : Geometry) (map : PageMap) (direction : Direction) : List ℕ :=
  let octets := (List.range (pageMapCount*4)).filter fun octet => Owned g map octet
  match direction with
  | .backward => octets.reverse
  | .forward => octets

/-- With callbacks that never stop it, an iteration calls back once for every
octet with an owned page, in order, and reports how many there are. -/
def Complete (g : Geometry) (box : BoxId) (alloc : State) (direction : Direction) : Prop :=
  ∃ passes : List ℕ,
    (∀ (σ : Type) (callback : BitVec 8 → ℕ → σ → Bool × σ),
      (∀ mask ii s, (callback mask ii s).1 = true) → ∀ s,
      pageAllocatorIterateActivePageMasks g box alloc direction callback s =
        (passes.length,
          passes.foldl (onMask g (alloc.ownerMap box) direction callback) s)) ∧
    passes.map (octetAt g direction) = ownedOctets g (alloc.ownerMap box) direction

/-- An octet is among those that an iteration looks at. -/
def LookedAt (g : Geometry) (octet : ℕ) : Prop := pageMapCount*4-pageCountOctets g ≤ octet

/-- The bits of all owned pages are in the octets that an iteration looks at,
and in these octets there are no other bits without a bit of an owned page. -/
def Covered (g : Geometry) (map : PageMap) : Prop :=
  (∀ page < g.countTotal, mapGet g map page = true → LookedAt g (position g page/8)) ∧
  ∀ octet < pageMapCount*4, LookedAt g octet → maskOf map octet ≠ 0 → Owned g map octet

/-! ## The passes of an iteration -/

section Passes

variable {σ : Type u} {g : Geometry} {map : PageMap} {direction : Direction}

/-- The passes that call back. -/
def passesOf (g : Geometry) (map : PageMap) (direction : Direction) : List ℕ :=
  (List.range (pageCountOctets g)).filter fun ii => maskOf map (octetAt g direction ii) ≠ 0

theorem iterateMasks_eq {callback : BitVec 8 → ℕ → σ → Bool × σ}
    (hmore : ∀ mask ii s, (callback mask ii s).1 = true) (octets ii count : ℕ) (s : σ) :
    iterateMasks g map direction callback octets ii count s =
      let rest := (List.range' ii octets).filter fun ii => maskOf map (octetAt g direction ii) ≠ 0
      (count+rest.length, rest.foldl (onMask g map direction callback) s) := by
  induction octets generalizing ii count s with
  | zero => rfl
  | succ octets ih =>
    rw [iterateMasks, List.range'_succ]
    by_cases hset : maskOf map (octetAt g direction ii) ≠ 0
    · rw [List.filter_cons_of_pos (by simpa using hset)]
      simp only [if_pos hset, hmore, if_true, ih, List.length_cons, List.foldl_cons,
        Nat.add_assoc, Nat.add_comm 1]
      rfl
    · rw [List.filter_cons_of_neg (by simpa using hset)]
      simp only [if_neg hset, ih]

/-- Callbacks that never stop are called for the passes with a mask. -/
theorem iterateActivePageMasks_eq (g : Geometry) (box : BoxId) (alloc : State)
    (direction : Direction) {callback : BitVec 8 → ℕ → σ → Bool × σ}
    (hmore : ∀ mask ii s, (callback mask ii s).1 = true) (s : σ) :
    pageAllocatorIterateActivePageMasks g box alloc direction callback s =
      ((passesOf g (alloc.ownerMap box) direction).length,
        (passesOf g (alloc.ownerMap box) direction).foldl
          (onMask g (alloc.ownerMap box) direction callback) s) := by
  rw [pageAllocatorIterateActivePageMasks, iterateMasks_eq hmore, passesOf, List.range_eq_range']
  simp only [Nat.zero_add]

/-- Writing down the passes gives the list of them. -/
theorem foldl_record (passes log : List ℕ) :
    passes.foldl (onMask g map direction fun _ ii log => (true, log ++ [ii])) log =
      log ++ passes := by
  induction passes generalizing log with
  | nil => simp
  | cons ii passes ih => simp [List.foldl_cons, ih, onMask]

/-- A complete iteration is one whose passes have the owned octets. -/
theorem complete_iff (g : Geometry) (box : BoxId) (alloc : State) (direction : Direction) :
    Complete g box alloc direction ↔
      (passesOf g (alloc.ownerMap box) direction).map (octetAt g direction) =
        ownedOctets g (alloc.ownerMap box) direction := by
  constructor
  · rintro ⟨passes, hall, hoctets⟩
    have hrecord := hall (List ℕ) (fun _ ii log => (true, log ++ [ii])) (fun _ _ _ => rfl) []
    rw [iterateActivePageMasks_eq g box alloc direction fun _ _ _ => rfl, foldl_record,
      foldl_record, List.nil_append, List.nil_append] at hrecord
    rw [← hoctets, (Prod.mk.inj hrecord).2]
  · exact fun hoctets => ⟨_, fun _ _ hmore s =>
      iterateActivePageMasks_eq g box alloc direction hmore s, hoctets⟩

/-- The octets that an iteration looks at, with a bit. -/
def maskedOctets (g : Geometry) (map : PageMap) : List ℕ :=
  (List.range (pageMapCount*4)).filter fun octet =>
    pageMapCount*4-pageCountOctets g ≤ octet ∧ maskOf map octet ≠ 0

/-- The highest octets are the last ones of all octets. -/
theorem maskedOctets_eq (hoctets : pageCountOctets g ≤ pageMapCount*4) :
    maskedOctets g map =
      (List.range' (pageMapCount*4-pageCountOctets g) (pageCountOctets g)).filter
        fun octet => maskOf map octet ≠ 0 := by
  have hsplit : List.range (pageMapCount*4) = List.range' 0 (pageMapCount*4-pageCountOctets g) ++
      List.range' (0+(pageMapCount*4-pageCountOctets g)) (pageCountOctets g) := by
    rw [List.range_eq_range', List.range'_append_1, Nat.sub_add_cancel hoctets]
  rw [maskedOctets, hsplit, List.filter_append, Nat.zero_add]
  have hlow : (List.range' 0 (pageMapCount*4-pageCountOctets g)).filter (fun octet =>
      pageMapCount*4-pageCountOctets g ≤ octet ∧ maskOf map octet ≠ 0) = [] := by
    rw [List.filter_eq_nil_iff]
    intro octet hmem
    rw [List.mem_range'_1] at hmem
    simp only [decide_eq_true_eq, not_and]
    omega
  rw [hlow, List.nil_append]
  refine List.filter_congr fun octet hmem => ?_
  have hle := (List.mem_range'_1.mp hmem).1
  simp only [hle, true_and]

/-- Forward the octets with a bit are visited from below, backward from above. -/
theorem passesOf_octets (hoctets : pageCountOctets g ≤ pageMapCount*4) :
    (passesOf g map direction).map (octetAt g direction) =
      match direction with
      | .backward => (maskedOctets g map).reverse
      | .forward => maskedOctets g map := by
  rw [passesOf, maskedOctets_eq hoctets]
  have hcomm : ∀ l : List ℕ,
      (l.filter fun ii => maskOf map (octetAt g direction ii) ≠ 0).map (octetAt g direction) =
        (l.map (octetAt g direction)).filter fun octet => maskOf map octet ≠ 0 := by
    intro l
    rw [List.filter_map]
    rfl
  rw [hcomm]
  cases direction with
  | backward =>
    rw [← List.filter_reverse, List.reverse_range']
    congr 1
    refine List.map_congr_left fun ii _ => ?_
    change pageMapCount*4-1-ii = _
    omega
  | forward =>
    rw [List.range'_eq_map_range]
    rfl

end Passes

/-! ## Complete iterations -/

section Completeness

variable {g : Geometry} {box : BoxId} {alloc : State} {map : PageMap}

/-- A bit of an octet makes its mask nonzero, and there is no other way. -/
theorem maskOf_ne_zero_iff {octet : ℕ} (hoctet : octet < 4) :
    maskOf map octet ≠ 0 ↔ ∃ j < 8, BitArray.get map (octet*8+j) = true := by
  have hword : maskOf map octet = (map 0 >>> (octet*8)).setWidth 8 := by
    rw [maskOf, Nat.div_eq_of_lt hoctet, Nat.mod_eq_of_lt hoctet]
  rw [hword]
  constructor
  · intro hne
    by_contra hnone
    refine hne (BitVec.eq_of_getLsbD_eq fun j hj => ?_)
    rw [mask_getLsbD map hoctet hj]
    push Not at hnone
    simpa using hnone j hj
  · rintro ⟨j, hj, hbit⟩ hzero
    rw [← mask_getLsbD map hoctet hj, hzero] at hbit
    simp at hbit

/-- An octet with an owned page has a bit. -/
theorem Owned.maskOf_ne_zero {octet : ℕ} (hoctet : octet < 4) (h : Owned g map octet) :
    maskOf map octet ≠ 0 := by
  obtain ⟨page, -, hbit, hposition⟩ := h
  refine (maskOf_ne_zero_iff hoctet).mpr ⟨position g page%8, Nat.mod_lt _ (by decide), ?_⟩
  have hsplit : octet*8+position g page%8 = position g page := by omega
  rw [hsplit]
  exact hbit

/-- The octets with a bit that are looked at are the owned ones exactly if the
map is covered. -/
theorem maskedOctets_eq_iff (hg : HeapLayout g) :
    maskedOctets g map = (List.range (pageMapCount*4)).filter (fun octet => Owned g map octet) ↔
      Covered g map := by
  have hwords : pageMapCount*4 = 4 := rfl
  constructor
  · intro heq
    have hmem : ∀ octet < pageMapCount*4,
        LookedAt g octet ∧ maskOf map octet ≠ 0 ↔ Owned g map octet := by
      intro octet hoctet
      have hiff : octet ∈ maskedOctets g map ↔
          octet ∈ (List.range (pageMapCount*4)).filter fun octet => Owned g map octet := by rw [heq]
      simpa [maskedOctets, hoctet, LookedAt] using hiff
    refine ⟨fun page hpage hbit => ?_, fun octet hoctet hlooked hmask =>
      (hmem octet hoctet).mp ⟨hlooked, hmask⟩⟩
    have hlt := position_lt hg hpage
    exact ((hmem _ (by omega)).mpr ⟨page, hpage, hbit, rfl⟩).1
  · rintro ⟨hlooked, hmasks⟩
    refine List.filter_congr fun octet hmem => ?_
    have hoctet := List.mem_range.mp hmem
    refine decide_eq_decide.mpr
      ⟨fun ⟨hlow, hmask⟩ => hmasks octet hoctet hlow hmask, fun howned => ?_⟩
    refine ⟨?_, howned.maskOf_ne_zero hoctet⟩
    obtain ⟨page, hpage, hbit, rfl⟩ := howned
    exact hlooked page hpage hbit

/-- For every heap of a boot on ARMv7-M, every owner map and both directions,
an iteration is complete exactly if the map is covered. -/
theorem iteration_complete_iff {c : LinkerConfig} {heapStart heapEnd pageSizeAddr pageSize : UInt32}
    {s t : State} (h : init .armv7m c heapStart heapEnd pageSizeAddr pageSize s = some (g, t))
    (box : BoxId) (alloc : State) (direction : Direction) :
    Complete g box alloc direction ↔ Covered g (alloc.ownerMap box) := by
  have hg := heapLayout_of_init h
  have htotal : g.countTotal ≤ 16 := hg.wellFormed.total_le
  have hoctets : pageCountOctets g ≤ pageMapCount*4 := by
    change (g.countTotal+7)/8 ≤ 4
    omega
  rw [complete_iff, passesOf_octets hoctets, ← maskedOctets_eq_iff hg]
  cases direction with
  | backward => exact List.reverse_inj
  | forward => exact Iff.rfl

/-- In a run the octets that are looked at have bits of pages only. -/
theorem covered_reachable_iff {sys : System}
    (h : Reachable (Booted g) (PageAllocator.step g) (fun _ _ => True) sys) (box : BoxId) :
    Covered g (sys.alloc.ownerMap box) ↔ ∀ page < g.countTotal,
      mapGet g (sys.alloc.ownerMap box) page = true → LookedAt g (position g page/8) := by
  obtain ⟨hg, hpages⟩ := pagesOnly_reachable h
  refine ⟨fun hcovered => hcovered.1, fun hlooked => ⟨hlooked, fun octet hoctet _ hmask => ?_⟩⟩
  obtain ⟨j, hj, hbit⟩ := (maskOf_ne_zero_iff hoctet).mp hmask
  have hlt : octet < 4 := hoctet
  obtain ⟨page, hpage, hposition⟩ := hpages box (octet*8+j) (by omega) hbit
  refine ⟨page, hpage, ?_, by omega⟩
  rw [mapGet, hposition]
  exact hbit

end Completeness

/-- Box 1 has two of the four pages of a heap that ends with a multiple of
eight pages. -/
theorem iteration_complete_fourPages : ∃ sys : System,
    mapGet fourPages (sys.alloc.ownerMap 1) 1 = true ∧
      Complete fourPages 1 sys.alloc .backward := by
  have hrun : ((exec (step fourPages) [.malloc 1 (tableOf [0, 0])] booted).map fun sys =>
      (mapGet fourPages (sys.alloc.ownerMap 1) 1,
        (List.range 4).all fun page => !mapGet fourPages (sys.alloc.ownerMap 1) page ||
          decide (3 ≤ position fourPages page/8))) = some (true, true) := by decide
  obtain ⟨sys, hs, hall⟩ := Option.map_eq_some_iff.mp hrun
  simp only [Prod.mk.injEq, List.all_eq_true, List.mem_range, Bool.or_eq_true,
    Bool.not_eq_true', decide_eq_true_eq] at hall
  obtain ⟨hbit, hlooked⟩ := hall
  have hbooted : Booted fourPages booted :=
    ⟨smallDevice, 0x20001000, 0x20002000, 0x400, 1024, booted.alloc, rfl⟩
  refine ⟨sys, hbit, (@iteration_complete_iff fourPages smallDevice 0x20001000 0x20002000
    0x400 1024 booted.alloc booted.alloc rfl 1 sys.alloc .backward).mpr ?_⟩
  refine (covered_reachable_iff (exec_reachable (Reachable.start hbooted) hs) 1).mpr ?_
  intro page hpage howned
  exact (hlooked page hpage).resolve_left (by simp [howned])

/-- A heap of eight pages that ends seven pages below the next multiple of
eight pages. -/
def straddling : Geometry := layout .armv7m 0x20002400 0x20000400 1024

/-- Box 1 has a page of that heap. No callback is made. -/
theorem iteration_misses_page :
    ∃ sys, Reachable (Initial straddling) (step straddling) (fun _ _ => True) sys ∧
      mapGet straddling (sys.alloc.ownerMap 1) 0 = true ∧
      (pageAllocatorIterateActivePageMasks straddling 1 sys.alloc .backward
        (fun _ _ calls => (true, calls+1)) 0) = (0, 0) ∧
      ¬Complete straddling 1 sys.alloc .backward := by
  have hrun : ((exec (step straddling) [.malloc 1 (tableOf [0])]
      {booted with alloc := {booted.alloc with countFree := 8}}).map fun sys =>
        (mapGet straddling (sys.alloc.ownerMap 1) 0,
          pageAllocatorIterateActivePageMasks straddling 1 sys.alloc .backward
            (fun _ _ calls => (true, calls+1)) 0,
          decide (ownedOctets straddling (sys.alloc.ownerMap 1) .backward = [2]),
          decide (passesOf straddling (sys.alloc.ownerMap 1) .backward = []))) =
      some (true, (0, 0), true, true) := by decide
  obtain ⟨sys, hs, hall⟩ := Option.map_eq_some_iff.mp hrun
  simp only [Prod.mk.injEq, decide_eq_true_eq] at hall
  obtain ⟨hbit, hcalls, howned, hpasses⟩ := hall
  have hinitial : Initial straddling {booted with alloc := {booted.alloc with countFree := 8}} :=
    ⟨⟨.armv7m, smallDevice, 0x20000400, 0x20002400, 0x400, 1024, booted.alloc, rfl⟩, rfl⟩
  refine ⟨sys, exec_reachable (Reachable.start hinitial) hs, hbit, hcalls, fun hcomplete => ?_⟩
  rw [complete_iff, howned, hpasses] at hcomplete
  cases hcomplete

end Uvisor.PageMasks
