import Uvisor.AlignedWords
import Uvisor.KinetisSlots

/-!
# What a Kinetis descriptor grants

The end of a region is the address after it. The unit takes the end address of
a descriptor as the last one, with its low five bits set. So a descriptor also
grants the 32 bytes after its region, and the descriptor of a page the first
ones of the next page.
-/

namespace Uvisor.KinetisDescriptors

open PageAllocator KinetisMpu KinetisSlots
open ArmMpu (Word MpuRegion)

/-! ## Ranges -/

/-- An address is between the start of a descriptor, with low bits that are
zero, and its end, with low bits that are one. -/
def Enforces (d : Descriptor) (address : Word) : Prop :=
  d.startAddr &&& ~~~(0x1F : Word) ≤ address ∧ address ≤ d.endAddr ||| 0x1F

instance (d : Descriptor) (address : Word) : Decidable (Enforces d address) :=
  inferInstanceAs (Decidable (_ ∧ _))

/-- A descriptor grants exactly the addresses from a start to before an end. -/
def Exact (d : Descriptor) (start ends : Word) : Prop :=
  ∀ address, Enforces d address ↔ start ≤ address ∧ address < ends

/-- The end that is enforced lies below the start that is enforced. -/
def Backward (start ends : Word) : Prop := ends ||| 0x1F < start &&& ~~~(0x1F : Word)

section Ranges

variable {start ends address : Word}

theorem le_or_mask (address : Word) : address ≤ address ||| 0x1F := by
  rw [BitVec.le_def, BitVec.toNat_or]
  exact Nat.left_le_or

theorem and_mask_le (address : Word) : address &&& ~~~(0x1F : Word) ≤ address := by
  rw [BitVec.le_def, BitVec.toNat_and]
  exact Nat.and_le_left

/-- A descriptor is exact only when it grants nothing at all. -/
theorem exact_iff {d : Descriptor} (hstart : d.startAddr = start) (hends : d.endAddr = ends) :
    Exact d start ends ↔ Backward start ends := by
  subst hstart hends
  have hlow := and_mask_le d.startAddr
  have hhigh := le_or_mask d.endAddr
  simp only [Exact, Enforces, Backward, BitVec.le_def, BitVec.lt_def] at hlow hhigh ⊢
  constructor
  · intro h
    by_contra hforward
    -- The last address that is enforced is not before the end.
    have hlast := (h (d.endAddr ||| 0x1F)).mp ⟨by omega, Nat.le_refl _⟩
    omega
  · intro hbackward address
    constructor
    · rintro ⟨hfirst, hlast⟩
      omega
    · rintro ⟨hfirst, hlast⟩
      omega

/-- No region that ends after its start is of that kind. -/
theorem not_backward (h : start ≤ ends) : ¬Backward start ends := by
  have hlow := and_mask_le start
  have hhigh := le_or_mask ends
  simp only [Backward, BitVec.le_def, BitVec.lt_def] at h hlow hhigh ⊢
  omega

/-- Low bits of an aligned address. -/
theorem or_mask_toNat (h : address.toNat%32 = 0) : (address ||| 0x1F).toNat = address.toNat+31 := by
  rw [BitVec.toNat_or]
  have hshift : address.toNat = 2^5*(address.toNat/32) := by omega
  have hmask : (0x1F : Word).toNat = 31 := rfl
  rw [hmask, hshift, ← Nat.two_pow_add_eq_or_of_lt (by decide : 31 < 2^5)]

theorem and_mask_toNat (h : address.toNat%32 = 0) :
    (address &&& ~~~(0x1F : Word)).toNat = address.toNat := by
  have hmask : (0x1F : Word).toNat = 2^5-1 := rfl
  rw [AlignedWords.toNat_and_not_low hmask]
  omega

end Ranges

/-! ## Pages -/

section Pages

variable {g : Geometry} {page other : ℕ} {address : Word}

/-- Pages begin and end at multiples of 32 bytes. -/
structure Aligned (g : Geometry) : Prop where
  /-- The heap lies in the address space. -/
  wellFormed : g.WellFormed
  /-- The heap is aligned. -/
  heapStart : g.heapStart%32 = 0
  /-- Pages are aligned. -/
  pageSize : g.pageSize%32 = 0

/-- A boot that does not halt aligns the pages. -/
theorem aligned_of_init {c : LinkerConfig} {heapStart heapEnd pageSizeAddr pageSize : UInt32}
    {before after : PageAllocator.State}
    (h : init .kinetis c heapStart heapEnd pageSizeAddr pageSize before = some (g, after)) :
    Aligned g := by
  have hg := init_wellFormed h
  obtain ⟨-, hvalid, hlayout, -⟩ := init_some h
  have hsize : pageSize.toNat%32 = 0 := by
    simp only [isRegionSizeValid, Bool.and_eq_true, beq_iff_eq] at hvalid
    omega
  have hstart : roundUpRegion .kinetis heapStart.toNat pageSize.toNat%32 = 0 := by
    unfold roundUpRegion
    dsimp only [regionAlignment]
    split
    · rfl
    · split
      · rfl
      · omega
  refine ⟨hg, ?_, ?_⟩
  · rw [hlayout]
    have hskipped : ∀ skipped, skipped*pageSize.toNat%32 = 0 := fun skipped => by
      rw [Nat.mul_mod, hsize, Nat.mul_zero, Nat.zero_mod]
    have hsum := hskipped (if pageMaxCount < countPages heapEnd.toNat
      (roundUpRegion .kinetis heapStart.toNat pageSize.toNat) pageSize.toNat then
        countPages heapEnd.toNat (roundUpRegion .kinetis heapStart.toNat pageSize.toNat)
          pageSize.toNat-pageMaxCount else 0)
    dsimp only [layout]
    omega
  · rw [hlayout]
    exact hsize

/-- Address of a page, or of the end of the heap. -/
def pageStart (g : Geometry) (page : ℕ) : ℕ := g.heapStart+page*g.pageSize

theorem pageStart_succ (g : Geometry) (page : ℕ) :
    pageStart g (page+1) = pageStart g page+g.pageSize := by
  rw [pageStart, pageStart, Nat.succ_mul, Nat.add_assoc]

theorem pageStart_mono {first last : ℕ} (h : first ≤ last) : pageStart g first ≤ pageStart g last :=
  Nat.add_le_add_left (Nat.mul_le_mul_right _ h) _

theorem Aligned.pageStart_lt (h : Aligned g) (hpage : page ≤ g.countTotal) :
    pageStart g page < 2^32 := by
  have hmono := @pageStart_mono g page g.countTotal hpage
  have hend := h.wellFormed.heapEnd_eq
  have hlt := h.wellFormed.heapEnd_lt
  have hlast : pageStart g g.countTotal = g.heapEnd := hend.symm
  omega

theorem Aligned.pageStart_aligned (h : Aligned g) (page : ℕ) : pageStart g page%32 = 0 := by
  have hmul : page*g.pageSize%32 = 0 := by
    rw [Nat.mul_mod, h.pageSize, Nat.mul_zero, Nat.zero_mod]
  have hstart := h.heapStart
  rw [pageStart]
  omega

theorem Aligned.pageSize_large (h : Aligned g) : 32 ≤ g.pageSize := by
  have hpos := h.wellFormed.pageSize_pos
  have hmod := h.pageSize
  omega

theorem Aligned.pageOrigin_eq (h : Aligned g) (hpage : page < g.countTotal) :
    pageOrigin g page = pageStart g page :=
  Nat.mod_eq_of_lt (h.pageStart_lt hpage.le)

/-- The bytes of a page. -/
def InPage (g : Geometry) (page : ℕ) (address : Word) : Prop :=
  pageOrigin g page ≤ address.toNat ∧ address.toNat < pageOrigin g page+g.pageSize

/-- The descriptor that is loaded for a page. -/
def pageDescriptor (g : Geometry) (page : ℕ) : Descriptor :=
  descriptor (pageRegion (pageOrigin g page) ((pageOrigin g page+g.pageSize)%2^32))

/-- The descriptor of a page grants the page and 32 more bytes. -/
theorem enforces_pageDescriptor (h : Aligned g) (hpage : page < g.countTotal) :
    Enforces (pageDescriptor g page) address ↔
      pageStart g page ≤ address.toNat ∧ address.toNat < pageStart g (page+1)+32 := by
  have hlt := h.pageStart_lt hpage.le
  have hnext := @Aligned.pageStart_lt g (page+1) h hpage
  have hends : (pageOrigin g page+g.pageSize)%2^32 = pageStart g (page+1) := by
    rw [h.pageOrigin_eq hpage, ← pageStart_succ, Nat.mod_eq_of_lt hnext]
  have hstart : (BitVec.ofNat 32 (pageStart g page)).toNat = pageStart g page := by
    rw [BitVec.toNat_ofNat, Nat.mod_eq_of_lt hlt]
  have hend : (BitVec.ofNat 32 (pageStart g (page+1))).toNat = pageStart g (page+1) := by
    rw [BitVec.toNat_ofNat, Nat.mod_eq_of_lt hnext]
  have hlow := and_mask_toNat (by rw [hstart]; exact h.pageStart_aligned page)
  have hhigh := or_mask_toNat (by rw [hend]; exact h.pageStart_aligned (page+1))
  rw [pageDescriptor, hends, h.pageOrigin_eq hpage]
  simp only [Enforces, descriptor, pageRegion, BitVec.le_def, hlow, hhigh, hstart, hend]
  omega

/-- The descriptors of the pages of a box grant no byte of another page if and
only if no page of the box is followed by one that it does not own. -/
theorem pages_isolated_iff (h : Aligned g) (box : BoxId) (alloc : PageAllocator.State) :
    (∀ page ∈ activePages g box alloc, ∀ other < g.countTotal, other ∉ activePages g box alloc →
      ∀ address, InPage g other address → ¬Enforces (pageDescriptor g page) address) ↔
      ∀ page ∈ activePages g box alloc, page+1 < g.countTotal → page+1 ∈ activePages g box alloc := by
  have hlarge := h.pageSize_large
  constructor
  · intro hisolated page hpage hnext
    by_contra hother
    have htotal := (mem_activePages.mp hpage).1
    have hlt := h.pageStart_lt hnext.le
    have haddress : (BitVec.ofNat 32 (pageStart g (page+1))).toNat = pageStart g (page+1) := by
      rw [BitVec.toNat_ofNat, Nat.mod_eq_of_lt hlt]
    refine hisolated page hpage (page+1) hnext hother (BitVec.ofNat 32 (pageStart g (page+1))) ?_ ?_
    · rw [InPage, haddress, h.pageOrigin_eq hnext]
      omega
    · rw [enforces_pageDescriptor h htotal, haddress]
      have hmono := @pageStart_mono g page (page+1) (Nat.le_succ page)
      omega
  · intro hfollowed page hpage other htotal hother address hin henforced
    have hpageTotal := (mem_activePages.mp hpage).1
    rw [enforces_pageDescriptor h hpageTotal] at henforced
    rw [InPage, h.pageOrigin_eq htotal, ← pageStart_succ] at hin
    have hupper : other < page+2 := by
      by_contra hge
      have hmono := @pageStart_mono g (page+2) other (by omega)
      rw [pageStart_succ] at hmono
      omega
    have hlower : page < other+1 := by
      by_contra hge
      have hmono := @pageStart_mono g (other+1) page (by omega)
      omega
    have hcases : other = page ∨ other = page+1 := by omega
    rcases hcases with rfl | rfl
    · exact hother hpage
    · exact hother (hfollowed page hpage htotal)

end Pages

/-! ## What is programmed -/

section Programmed

/-- Every descriptor that is written for a region is exact only if it grants
nothing: that of a pushed region, that of a static region, and the descriptors
of the pages of a box, which grant bytes of other pages exactly when a page of
the box is followed by one that it does not own. -/
theorem descriptors_exact {c : LinkerConfig} {heapStart heapEnd pageSizeAddr pageSize : UInt32}
    {before after : PageAllocator.State} {g : Geometry}
    (h : init .kinetis c heapStart heapEnd pageSizeAddr pageSize before = some (g, after)) :
    (∀ region priority s, ∃ slot,
      (vmpuMpuPush region priority s).2.words slot = descriptor region ∧
        (Exact ((vmpuMpuPush region priority s).2.words slot) region.start region.ends ↔
          Backward region.start region.ends)) ∧
      (∀ index start size acl aclHwSpec uninitialised s rounded t,
        vmpuMpuSetStaticAcl index start size acl aclHwSpec uninitialised s = some (rounded, t) →
          let region :=
            ((vmpuRegionTranslateAcl start size acl aclHwSpec).map Prod.fst).getD uninitialised
          t.words index = descriptor region ∧
            (Exact (t.words index) region.start region.ends ↔
              Backward region.start region.ends)) ∧
      (∀ startAddr endAddr page s, ∃ slot,
        (vmpuMemPushPageAclIterator startAddr endAddr page s).2.words slot =
          descriptor (pageRegion startAddr endAddr)) ∧
      ∀ box alloc,
        (∀ page ∈ activePages g box alloc, ∀ other < g.countTotal, other ∉ activePages g box alloc →
          ∀ address, InPage g other address → ¬Enforces (pageDescriptor g page) address) ↔
          ∀ page ∈ activePages g box alloc, page+1 < g.countTotal →
            page+1 ∈ activePages g box alloc := by
  have hpushed : ∀ region priority s, ∃ slot,
      (vmpuMpuPush region priority s).2.words slot = descriptor region := by
    intro region priority s
    rw [vmpuMpuPush_eq]
    exact ⟨_, Function.update_self ..⟩
  refine ⟨fun region priority s => ?_, ?_, fun startAddr endAddr page s => ?_,
    pages_isolated_iff (aligned_of_init h)⟩
  · obtain ⟨slot, hslot⟩ := hpushed region priority s
    refine ⟨slot, hslot, ?_⟩
    rw [hslot]
    exact exact_iff rfl rfl
  · intro index start size acl aclHwSpec uninitialised s rounded t hset region
    simp only [vmpuMpuSetStaticAcl] at hset
    split at hset
    · cases hset
    · obtain ⟨-, rfl⟩ := Prod.mk.inj (Option.some.inj hset)
      have hword : (programSlot .setStaticAcl region index 255 s).words index = descriptor region :=
        Function.update_self ..
      rw [hword]
      exact ⟨rfl, exact_iff rfl rfl⟩
  · exact hpushed (pageRegion startAddr endAddr) 100 s

/-! ### A small device -/

theorem eightPages_init :
    init .kinetis smallDevice 0x20002000 0x20004000 0x400 1024 booted.alloc =
      some (eightPages, {booted.alloc with
        ownerMap := fun _ _ => 0, usageMap := fun _ => 0, countFree := 8}) := rfl

/-- Box 1 owns the first three pages, so their descriptors also grant the start
of the fourth one. -/
theorem descriptors_exact_threePages :
    ¬∀ page ∈ activePages eightPages 1 (unitWithPages 3).alloc, ∀ other < eightPages.countTotal,
      other ∉ activePages eightPages 1 (unitWithPages 3).alloc →
        ∀ address, InPage eightPages other address →
          ¬Enforces (pageDescriptor eightPages page) address := by
  rw [(descriptors_exact eightPages_init).2.2.2 1 (unitWithPages 3).alloc]
  decide +kernel

/-- After a switch to box 1, which owns the first page only, some descriptor that
is valid grants the first byte of the second page. The first address after the
stack of box 1 is granted as well. -/
theorem descriptors_exact_fails :
    ∃ t slot, vmpuMemSwitch kinetisBoxes eightPages 1 (unitWithPages 1) = some t ∧
      (t.words slot).control = 1 ∧ Enforces (t.words slot) 0x20002400 ∧
      InPage eightPages 1 0x20002400 ∧ 1 ∉ activePages eightPages 1 t.alloc ∧
      t.words 3 = descriptor ⟨0x20008000, 0x20008400, 0x1E, 0x36⟩ ∧
      ¬Exact (t.words 3) 0x20008000 0x20008400 := by
  have hrun : ((vmpuMemSwitch kinetisBoxes eightPages 1 (unitWithPages 1)).map fun t =>
      (t.words 3, t.words 5, decide (1 ∈ activePages eightPages 1 t.alloc))) =
      some (⟨0x20008000, 0x20008400, 0x1E, 1⟩, ⟨0x20002000, 0x20002400, 0x1E, 1⟩, false) := by
    decide +kernel
  obtain ⟨t, ht, hfacts⟩ := Option.map_eq_some_iff.mp hrun
  simp only [Prod.mk.injEq, decide_eq_false_iff_not] at hfacts
  obtain ⟨hstack, hpage, hnot⟩ := hfacts
  refine ⟨t, 5, ht, by rw [hpage], by rw [hpage]; decide, by unfold InPage; decide, hnot, hstack, ?_⟩
  intro hexact
  have hlast := (hexact 0x20008400).mp (by rw [hstack]; decide)
  exact absurd hlast.2 (by decide)

end Programmed

end Uvisor.KinetisDescriptors
