import Uvisor.BoxPlacement
import Mathlib.Algebra.BigOperators.Group.Finset.Basic
import Mathlib.Algebra.Order.BigOperators.Group.Finset

/-!
# The sections in a box's memory

The memory of a box holds six sections. Boot adds up their sizes as they stand
in the configuration table, records the sum and clears that many bytes. The
pointers to the sections come from a second loop, which rounds every size up to
a multiple of four.
-/

namespace Uvisor.BoxSections

open PageAllocator BoxEnumeration

/-! ## Box index -/

/-- __UVISOR_BOX_ROUND_4. -/
def uvisorBoxRound4 (size : ℕ) : ℕ := (size+3)%2^32/4*4

/-- The loop of vmpu_box_index_init: the pointers to the sections, and the
address after them. -/
def assignPointers (boxBss : ℕ) : List ℕ → List ℕ × ℕ
  | [] => ([], boxBss)
  | size :: sizes =>
    let size := uvisorBoxRound4 size
    let rest := assignPointers ((boxBss+size)%2^32) sizes
    ((if size ≠ 0 then boxBss else 0) :: rest.1, rest.2)

/-- The box index, as boot leaves it. -/
structure BoxIndex where
  /-- Pointers to the sections. -/
  pointers : List ℕ
  /-- Size of the heap. -/
  boxHeapSize : ℕ
  /-- The active heap, or zero. -/
  activeHeap : ℕ
  /-- Address of the configuration. -/
  config : ℕ

/-- vmpu_box_index_init. The heap of the public box is what is left of the heap
of the linker behind the other sections. -/
def vmpuBoxIndexInit (heapStart heapEnd boxId : ℕ) (config : BoxConfig) (address bssStart : ℕ) :
    BoxIndex :=
  let (pointers, boxBss) := assignPointers bssStart config.bss.sizes
  let bssSize := wordSub boxBss bssStart
  { pointers := if boxId = 0 then pointers.set 5 ((heapStart+bssSize)%2^32) else pointers
    boxHeapSize :=
      if boxId = 0 then wordSub (wordSub heapEnd heapStart) bssSize else config.bss.heap
    activeHeap := 0
    config := address }

/-- What is known about the memory of a box, and what has been written to it. -/
structure BoxSram where
  /-- Start of the box's memory. -/
  bss : ℕ
  /-- Size of the box's memory. -/
  bssSize : ℕ
  /-- Initial stack pointer. -/
  sp : ℕ
  /-- Start and size of what has been cleared. -/
  cleared : ℕ × ℕ
  /-- The box index. -/
  index : BoxIndex

/-- vmpu_configure_box_sram. -/
def vmpuConfigureBoxSram {μ : Type} (drv : Driver μ) (u : UvisorConfig) (psp heapEnd : ℕ) (m : μ)
    (boxId address : ℕ) : Option (BoxSram × μ) :=
  let config := u.boxConfig address
  (configureBoxSram drv u psp m boxId config).map fun (bssStart, stackPointer, m) =>
    ({ bss := bssStart
       bssSize := config.bss.total
       sp := stackPointer
       cleared := (bssStart, config.bss.total)
       index := vmpuBoxIndexInit u.heapStart heapEnd boxId config address bssStart }, m)

/-! ## Statement -/

/-- Size of a section. -/
def sizeAt (sizes : List ℕ) (i : ℕ) : ℕ := sizes.getD i 0

/-- Whether an address lies in a range, counted from its start. -/
def inRange (range : ℕ × ℕ) (address : ℕ) : Prop := wordSub (address%2^32) range.1 < range.2

/-- The sections of a box are aligned and disjoint, and those of a secure box
lie in its memory, as recorded and as cleared. -/
structure SectionsSafe (boxId : ℕ) (sizes : List ℕ) (sram : BoxSram) : Prop where
  /-- The pointers are aligned. -/
  aligned : ∀ pointer ∈ sram.index.pointers, 4 ∣ pointer
  /-- No byte belongs to two sections. -/
  apart : ∀ i j, i < j → j < sizes.length → ∀ k < sizeAt sizes i, ∀ l < sizeAt sizes j,
    (sizeAt sram.index.pointers i+k)%2^32 ≠ (sizeAt sram.index.pointers j+l)%2^32
  /-- Every byte of a section of a secure box is in the box's memory. -/
  inside : boxId ≠ 0 → ∀ i < sizes.length, ∀ k < sizeAt sizes i,
    inRange (sram.bss, sram.bssSize) (sizeAt sram.index.pointers i+k) ∧
      inRange sram.cleared (sizeAt sram.index.pointers i+k)

/-- The size rounded up to a multiple of four, without overflow. -/
def roundUp4 (size : ℕ) : ℕ := (size+3)/4*4

/-- Sum of the first sizes, rounded up. -/
def offset (size : ℕ → ℕ) : ℕ → ℕ
  | 0 => 0
  | i+1 => offset size i+roundUp4 (size i)

/-- The sizes of a secure box do not overflow, and are multiples of four up to
the last section. An index of nearly the whole address space has no pointer. -/
structure SecureSizes (bss : ℕ) (sizes : List ℕ) : Prop where
  /-- The sum of the sizes is a word. -/
  total : sizes.sum < 2^32
  /-- Sections before another one have multiples of four. -/
  multiples : ∀ i j, j < i → sizeAt sizes i ≠ 0 → 4 ∣ sizeAt sizes j
  /-- The index has a pointer, or its memory is at zero. -/
  index : bss = 0 ∨ sizeAt sizes 0 < 2^32-3

/-- No section of the public box behind the index reaches the end of the
address space, counted from the index. -/
def PublicSizes (sizes : List ℕ) : Prop :=
  ∀ i, 1 ≤ i → sizeAt sizes i ≠ 0 → offset (sizeAt sizes) i+sizeAt sizes i ≤ 2^32

/-- The sizes of a box fit. The public box needs an aligned heap too. -/
def SizesFit (u : UvisorConfig) (boxId bss : ℕ) (sizes : List ℕ) : Prop :=
  if boxId = 0 then 4 ∣ u.heapStart ∧ PublicSizes sizes else SecureSizes bss sizes

/-- The memory that a port gives to a box next is aligned to words. -/
def AlignedDriver {μ : Type} (drv : Driver μ) (m : μ) : Prop :=
  ∀ boxId bssSize stackSize bssStart stackPointer m',
    drv.aclSram m boxId bssSize stackSize = some (bssStart, stackPointer, m') →
    bssStart < 2^32 ∧ 4 ∣ bssStart

/-! ## Pointers -/

section Pointers

variable {sizes : List ℕ} {start size i : ℕ}

/-- Rounding in 32 bits. -/
theorem uvisorBoxRound4_eq (size : ℕ) : uvisorBoxRound4 size = roundUp4 size%2^32 := by
  unfold uvisorBoxRound4 roundUp4
  omega

theorem dvd_offset (s : ℕ → ℕ) (i : ℕ) : 4 ∣ offset s i := by
  induction i with
  | zero => exact Nat.dvd_zero 4
  | succ i ih => exact Nat.dvd_add ih (Nat.dvd_mul_left _ _)

theorem offset_cons (size : ℕ) (sizes : List ℕ) (i : ℕ) :
    offset (sizeAt (size :: sizes)) (i+1) = roundUp4 size+offset (sizeAt sizes) i := by
  induction i with
  | zero => exact Nat.add_comm _ _
  | succ i ih =>
    rw [offset, ih, Nat.add_assoc]
    rfl

/-- The pointer to a section, unless its rounded size is zero. -/
theorem sizeAt_assignPointers (hstart : start < 2^32) (hi : i < sizes.length) :
    sizeAt (assignPointers start sizes).1 i =
      if uvisorBoxRound4 (sizeAt sizes i) ≠ 0 then (start+offset (sizeAt sizes) i)%2^32 else 0 := by
  induction sizes generalizing start i with
  | nil => exact absurd hi (Nat.not_lt_zero _)
  | cons size sizes ih =>
    cases i with
    | zero =>
      have hoffset : (start+offset (sizeAt (size :: sizes)) 0)%2^32 = start :=
        Nat.mod_eq_of_lt hstart
      rw [hoffset]
      rfl
    | succ i =>
      have hnext : (start+uvisorBoxRound4 size)%2^32 < 2^32 := Nat.mod_lt _ (by decide)
      rw [offset_cons]
      refine (ih hnext (Nat.lt_of_succ_lt_succ hi)).trans ?_
      have hmod : ((start+uvisorBoxRound4 size)%2^32+offset (sizeAt sizes) i)%2^32 =
          (start+(roundUp4 size+offset (sizeAt sizes) i))%2^32 := by
        rw [uvisorBoxRound4_eq size]
        omega
      rw [hmod]
      rfl

/-- The address after the sections. -/
theorem assignPointers_end (hstart : start < 2^32) :
    (assignPointers start sizes).2 = (start+offset (sizeAt sizes) sizes.length)%2^32 := by
  induction sizes generalizing start with
  | nil => exact (Nat.mod_eq_of_lt hstart).symm
  | cons size sizes ih =>
    have hnext : (start+uvisorBoxRound4 size)%2^32 < 2^32 := Nat.mod_lt _ (by decide)
    rw [List.length_cons, offset_cons]
    refine (ih hnext).trans ?_
    rw [uvisorBoxRound4_eq size]
    omega

theorem length_assignPointers (start : ℕ) (sizes : List ℕ) :
    (assignPointers start sizes).1.length = sizes.length := by
  induction sizes generalizing start with
  | nil => rfl
  | cons size sizes ih => exact congrArg (·+1) (ih _)

end Pointers

/-! ## Disjoint sections -/

section Disjoint

variable {s p : ℕ → ℕ} {bss n : ℕ}

/-- Sections with a pointer start at their offset. Sections without one have no
byte, or nearly all of the address space. -/
def PointsTo (bss n : ℕ) (s p : ℕ → ℕ) : Prop := ∀ i < n, s i ≠ 0 →
  (s i < 2^32-3 ∧ p i = (bss+offset s i)%2^32) ∨ (2^32-3 ≤ s i ∧ p i = 0)

/-- No byte belongs to two sections. -/
def Apart (n : ℕ) (s p : ℕ → ℕ) : Prop := ∀ i j, i < j → j < n → ∀ k < s i, ∀ l < s j,
  (p i+k)%2^32 ≠ (p j+l)%2^32

/-- The sections up to one end inside the address space, and so does the
rounded one. -/
theorem offset_le {i : ℕ} (hzero : s 0 < 2^32)
    (h : ∀ j, 1 ≤ j → j < i → s j ≠ 0 → offset s j+s j ≤ 2^32) : offset s i ≤ 2^32 := by
  induction i with
  | zero => exact Nat.zero_le _
  | succ i ih =>
    have hle := ih fun j hfirst hlast => h j hfirst (by omega)
    obtain ⟨q, hq⟩ := dvd_offset s i
    rw [offset, roundUp4]
    rcases Nat.eq_zero_or_pos i with rfl | hi
    · rw [offset]
      omega
    · by_cases hempty : s i = 0
      · omega
      · have hends := h i hi (by omega) hempty
        omega

theorem offset_mono (s : ℕ → ℕ) {i j : ℕ} (h : i ≤ j) : offset s i ≤ offset s j := by
  induction j, h using Nat.le_induction with
  | base => exact le_rfl
  | succ j _ ih => exact ih.trans (Nat.le_add_right _ _)

/-- A section ends before the offset of the next one. -/
theorem offset_add_le (s : ℕ → ℕ) {i j : ℕ} (h : i < j) : offset s i+s i ≤ offset s j := by
  refine le_trans ?_ (offset_mono s h)
  rw [offset, roundUp4]
  omega

/-- A section that is not the first and ends inside the address space has a
pointer, and so have the ones before it. -/
theorem PointsTo.pointer (h : PointsTo bss n s p) (hfirst : 0 < s 0) {i j : ℕ} (hj : j < n)
    (hij : i ≤ j) (hpos : 0 < j) (hi : s i ≠ 0) (hne : s j ≠ 0) (hends : offset s j+s j ≤ 2^32) :
    p i = (bss+offset s i)%2^32 := by
  have hzero : s 0 ≤ offset s j := by
    have hle := offset_add_le s hpos
    omega
  refine ((h i (by omega) hi).resolve_right fun ⟨hhuge, _⟩ => ?_).2
  obtain ⟨q, hq⟩ := dvd_offset s j
  rcases Nat.lt_or_ge i j with hlt | hge
  · have hle := offset_mono s (show i+1 ≤ j from hlt)
    rw [offset, roundUp4] at hle
    omega
  · obtain rfl : i = j := by omega
    omega

/-- The sections are disjoint exactly when those behind the first one end
inside the address space. Otherwise the first byte of the first section belongs
to another one as well. -/
theorem apart_iff (hbss : bss < 2^32) (haligned : 4 ∣ bss) (hsize : ∀ i, s i < 2^32)
    (hfirst : 0 < s 0) (h : PointsTo bss n s p) :
    Apart n s p ↔ ∀ i, 1 ≤ i → i < n → s i ≠ 0 → offset s i+s i ≤ 2^32 := by
  obtain ⟨q, hq⟩ := haligned
  constructor
  · intro hapart i
    induction i using Nat.strong_induction_on with
    | _ i ih =>
      intro hpos hi hne
      by_contra hout
      have hle := offset_le (i := i) (hsize 0) fun j hjfirst hj hjne =>
        ih j hj hjfirst (by omega) hjne
      have hsmall := hsize i
      rcases h 0 (by omega) hfirst.ne' with ⟨-, hzero⟩ | ⟨hhuge, hzero⟩
      · have hbase : (bss+offset s 0)%2^32 = bss := Nat.mod_eq_of_lt hbss
        rcases h i hi hne with ⟨-, hpointer⟩ | ⟨hhuge, hpointer⟩
        · refine hapart 0 i hpos hi 0 hfirst (2^32-offset s i) (by omega) ?_
          rw [hzero, hpointer, hbase]
          omega
        · refine hapart 0 i hpos hi 0 hfirst bss (by omega) ?_
          rw [hzero, hpointer, hbase]
          omega
      · -- Every aligned address belongs to the first section.
        rcases h i hi hne with ⟨-, hpointer⟩ | ⟨-, hpointer⟩
        · obtain ⟨r, hr⟩ := dvd_offset s i
          refine hapart 0 i hpos hi (p i) (by omega) 0 (by omega) ?_
          rw [hzero]
          omega
        · refine hapart 0 i hpos hi 0 hfirst 0 (by omega) ?_
          rw [hzero, hpointer]
  · intro hends i j hij hj k hk l hl
    have hjne : s j ≠ 0 := by omega
    have hjends := hends j (by omega) hj hjne
    have hpi := h.pointer hfirst hj hij.le (by omega) (by omega : s i ≠ 0) hjne hjends
    have hpj := h.pointer hfirst hj le_rfl (by omega) hjne hjne hjends
    have hbefore := offset_add_le s hij
    rw [hpi, hpj]
    omega

end Disjoint

/-! ## Sections inside the memory of a box -/

section Inside

open Finset

variable {s p : ℕ → ℕ} {bss n : ℕ}

/-- Every byte of a section lies in the memory of the box. -/
def Inside (bss bssSize n : ℕ) (s p : ℕ → ℕ) : Prop :=
  ∀ i < n, ∀ k < s i, inRange (bss, bssSize) (p i+k)

/-- Rounding makes no sum smaller. -/
theorem sum_le_offset (s : ℕ → ℕ) (i : ℕ) : ∑ j ∈ range i, s j ≤ offset s i := by
  induction i with
  | zero => exact le_rfl
  | succ i ih =>
    rw [sum_range_succ, offset, roundUp4]
    omega

/-- It leaves a sum as it is exactly when all sizes are multiples of four. -/
theorem offset_le_sum_iff (s : ℕ → ℕ) (i : ℕ) :
    offset s i ≤ ∑ j ∈ range i, s j ↔ ∀ j < i, 4 ∣ s j := by
  induction i with
  | zero => exact ⟨fun _ j hj => absurd hj (Nat.not_lt_zero j), fun _ => le_rfl⟩
  | succ i ih =>
    have hle := sum_le_offset s i
    rw [sum_range_succ, offset, roundUp4, Nat.forall_lt_succ_right, ← ih]
    omega

/-- A section that starts at its offset and ends inside the address space lies
in the memory exactly when it ends inside of it. -/
theorem inside_section_iff (bssSize : ℕ) {start offset size : ℕ} (hstart : start = (bss+offset)%2^32)
    (hbss : bss < 2^32) (hends : offset+size ≤ 2^32) (hne : size ≠ 0) :
    (∀ k < size, inRange (bss, bssSize) (start+k)) ↔ offset+size ≤ bssSize := by
  have hplace : ∀ k < size, wordSub ((start+k)%2^32) bss = offset+k := fun k hk => by
    unfold wordSub
    omega
  constructor
  · intro h
    have hlast := h (size-1) (by omega)
    rw [inRange, hplace _ (by omega)] at hlast
    omega
  · intro h k hk
    rw [inRange, hplace k hk]
    exact lt_of_lt_of_le (by omega) h

/-- A first section without a pointer lies in a memory of its own size only if
that starts at zero. -/
theorem inside_first_iff (hbss : bss < 2^32) (haligned : 4 ∣ bss) {size : ℕ}
    (hhuge : 2^32-3 ≤ size) (hsize : size < 2^32) :
    (∀ k < size, inRange (bss, size) (0+k)) ↔ bss = 0 := by
  obtain ⟨q, hq⟩ := haligned
  unfold inRange wordSub
  constructor
  · intro h
    by_contra hne
    have hlast := h (bss-1) (by omega)
    dsimp only at hlast
    omega
  · rintro rfl k hk
    dsimp only
    omega

/-- There is a last section with bytes. -/
theorem exists_last (hn : 0 < n) (hfirst : s 0 ≠ 0) :
    ∃ last < n, s last ≠ 0 ∧ ∀ i, last < i → i < n → s i = 0 := by
  induction n, hn using Nat.le_induction with
  | base => exact ⟨0, Nat.zero_lt_one, hfirst, fun i hlow hhigh => by omega⟩
  | succ n hn ih =>
    by_cases hempty : s n = 0
    · obtain ⟨last, hlast, hne, hrest⟩ := ih
      refine ⟨last, by omega, hne, fun i hlow hhigh => ?_⟩
      rcases Nat.lt_or_ge i n with hlt | hge
      · exact hrest i hlow hlt
      · exact (show i = n by omega) ▸ hempty
    · exact ⟨n, Nat.lt_succ_self n, hempty, fun i hlow hhigh => by omega⟩

/-- Sections behind the last one add nothing. -/
theorem sum_eq_of_last {last : ℕ} (hlast : last < n) (hrest : ∀ i, last < i → i < n → s i = 0) :
    ∑ j ∈ range n, s j = ∑ j ∈ range last, s j+s last := by
  rw [← sum_range_succ]
  refine (sum_subset (range_subset_range.mpr hlast) fun i hi hout => ?_).symm
  rw [mem_range] at hi hout
  exact hrest i (by omega) hi

/-- The sections lie in a memory with the sum of their sizes and are disjoint
exactly when the sum is a word and all sizes before the last section are
multiples of four. -/
theorem apart_and_inside_iff (hbss : bss < 2^32) (haligned : 4 ∣ bss) (hsize : ∀ i, s i < 2^32)
    (hn : 0 < n) (hfirst : 0 < s 0) (h : PointsTo bss n s p) :
    Apart n s p ∧ Inside bss ((∑ j ∈ range n, s j)%2^32) n s p ↔
      ∑ j ∈ range n, s j < 2^32 ∧ (∀ i < n, ∀ j < i, s i ≠ 0 → 4 ∣ s j) ∧
        (bss = 0 ∨ s 0 < 2^32-3) := by
  rw [apart_iff hbss haligned hsize hfirst h]
  have hlt : ∀ i < n, ∑ j ∈ range i, s j+s i ≤ ∑ j ∈ range n, s j := fun i hi => by
    rw [← sum_range_succ]
    exact sum_le_sum_of_subset (range_subset_range.mpr hi)
  -- Section by section, once all of them end inside the address space.
  have hsection : (∀ i, 1 ≤ i → i < n → s i ≠ 0 → offset s i+s i ≤ 2^32) → s 0 < 2^32-3 →
      ∀ bssSize, Inside bss bssSize n s p ↔ ∀ i < n, s i ≠ 0 → offset s i+s i ≤ bssSize := by
    intro hends hindex bssSize
    refine forall₂_congr fun i hi => ?_
    by_cases hempty : s i = 0
    · simp [hempty]
    · rcases Nat.eq_zero_or_pos i with rfl | hpos
      · have hpointer := ((h 0 hi hempty).resolve_right fun hhuge => by omega).2
        have hzero : offset s 0+s 0 ≤ 2^32 := by
          rw [offset]
          omega
        simpa [hempty] using inside_section_iff bssSize hpointer hbss hzero hempty
      · have hpointer := h.pointer hfirst hi le_rfl hpos hempty hempty (hends i hpos hi hempty)
        simpa [hempty] using
          inside_section_iff bssSize hpointer hbss (hends i hpos hi hempty) hempty
  constructor
  · rintro ⟨hends, hinside⟩
    obtain ⟨last, hlast, hne, hrest⟩ := exists_last hn hfirst.ne'
    have htotal := sum_eq_of_last hlast hrest
    have hsum := sum_le_offset s last
    rcases Nat.lt_or_ge (s 0) (2^32-3) with hindex | hhuge
    · have hfits := (hsection hends hindex _).mp hinside last hlast hne
      have hmultiples := (offset_le_sum_iff s last).mp (by omega)
      refine ⟨by omega, fun i hi j hj hine => hmultiples j ?_, .inr hindex⟩
      by_contra hout
      exact hine (hrest i (by omega) hi)
    · have hempty : ∀ i, 1 ≤ i → i < n → s i = 0 := fun i hpos hi => by
        by_contra hine
        have hle := offset_mono s hpos
        have hone : offset s 1 = roundUp4 (s 0) := Nat.zero_add _
        have hi' := hends i hpos hi hine
        rw [hone, roundUp4] at hle
        omega
      have hall := sum_eq_of_last hn fun i hpos hi => hempty i hpos hi
      rw [range_zero, sum_empty, Nat.zero_add] at hall
      have hindex := hsize 0
      rw [hall, Nat.mod_eq_of_lt hindex] at hinside
      have hpointer := ((h 0 hn hfirst.ne').resolve_left fun hsmall => by omega).2
      have hzero := hinside 0 hn
      rw [hpointer, inside_first_iff hbss haligned hhuge hindex] at hzero
      refine ⟨hall ▸ hindex, fun i hi j hj hine => ?_, .inl hzero⟩
      exact absurd (hempty i (by omega) hi) hine
  · rintro ⟨htotal, hmultiples, hindex⟩
    rw [Nat.mod_eq_of_lt htotal]
    have hfits : ∀ i < n, s i ≠ 0 → offset s i+s i ≤ ∑ j ∈ range n, s j := fun i hi hine => by
      have hexact := (offset_le_sum_iff s i).mpr fun j hj => hmultiples i hi j hj hine
      have hi' := hlt i hi
      omega
    have hends : ∀ i, 1 ≤ i → i < n → s i ≠ 0 → offset s i+s i ≤ 2^32 := fun i _ hi hine =>
      (hfits i hi hine).trans htotal.le
    refine ⟨hends, ?_⟩
    rcases Nat.lt_or_ge (s 0) (2^32-3) with hsmall | hhuge
    · exact (hsection hends hsmall _).mpr hfits
    · have hzero := hindex.resolve_right (not_lt.mpr hhuge)
      have hfirstLt := hsize 0
      intro i hi
      rcases Nat.eq_zero_or_pos i with rfl | hpos
      · have hpointer := ((h 0 hn hfirst.ne').resolve_left fun hsmall => by omega).2
        have hle := hlt 0 hn
        rw [hpointer]
        intro k hk
        have hin := (inside_first_iff hbss haligned hhuge hfirstLt).mpr hzero k hk
        exact lt_of_lt_of_le hin (by dsimp only; omega)
      · intro k hk
        obtain ⟨q, hq⟩ := hmultiples i hi 0 hpos (by omega)
        omega

end Inside

/-! ## Boxes -/

section Boxes

variable {μ : Type} {drv : Driver μ} {u : UvisorConfig} {psp heapEnd boxId address start : ℕ}
  {m m' : μ} {sram : BoxSram} {sizes : List ℕ}

theorem sizeAt_of_le {i : ℕ} (h : sizes.length ≤ i) : sizeAt sizes i = 0 := by
  rw [sizeAt, List.getD_eq_getElem?_getD, List.getElem?_eq_none h]
  rfl

theorem sizeAt_set_ne (sizes : List ℕ) (size : ℕ) {i j : ℕ} (h : i ≠ j) :
    sizeAt (sizes.set i size) j = sizeAt sizes j := by
  rw [sizeAt, sizeAt, List.getD_eq_getElem?_getD, List.getD_eq_getElem?_getD,
    List.getElem?_set_ne h]

theorem sizeAt_lt (hsizes : ∀ size ∈ sizes, size < 2^32) (i : ℕ) : sizeAt sizes i < 2^32 := by
  rcases Nat.lt_or_ge i sizes.length with hi | hi
  · rw [sizeAt, List.getD_eq_getElem?_getD, List.getElem?_eq_getElem hi]
    exact hsizes _ (List.getElem_mem hi)
  · rw [sizeAt_of_le hi]
    decide

theorem sum_eq_sum_sizeAt (sizes : List ℕ) :
    sizes.sum = ∑ j ∈ Finset.range sizes.length, sizeAt sizes j := by
  induction sizes with
  | nil => rfl
  | cons size sizes ih =>
    rw [List.sum_cons, List.length_cons, Finset.sum_range_succ', ih, Nat.add_comm]
    rfl

/-- The pointers that the loop assigns. -/
theorem pointsTo_assignPointers (hstart : start < 2^32) (hsizes : ∀ size ∈ sizes, size < 2^32) :
    PointsTo start sizes.length (sizeAt sizes) (sizeAt (assignPointers start sizes).1) := by
  intro i hi hne
  have hlt := sizeAt_lt hsizes i
  rw [sizeAt_assignPointers hstart hi]
  rcases Nat.lt_or_ge (sizeAt sizes i) (2^32-3) with hsmall | hhuge
  · refine .inl ⟨hsmall, if_pos ?_⟩
    unfold uvisorBoxRound4
    omega
  · refine .inr ⟨hhuge, if_neg (not_not.mpr ?_)⟩
    unfold uvisorBoxRound4
    omega

/-- They are aligned if the first one is. -/
theorem dvd_assignPointers (hstart : start < 2^32) (haligned : 4 ∣ start) :
    ∀ pointer ∈ (assignPointers start sizes).1, 4 ∣ pointer := by
  induction sizes generalizing start with
  | nil => exact fun pointer h => absurd h List.not_mem_nil
  | cons size sizes ih =>
    have hnext : 4 ∣ (start+uvisorBoxRound4 size)%2^32 := by
      unfold uvisorBoxRound4
      omega
    refine List.forall_mem_cons.mpr ⟨?_, ih (Nat.mod_lt _ (by decide)) hnext⟩
    split_ifs
    · exact haligned
    · exact Nat.dvd_zero 4

/-- What is recorded for a box. -/
theorem vmpuConfigureBoxSram_eq
    (h : vmpuConfigureBoxSram drv u psp heapEnd m boxId address = some (sram, m')) :
    sram.bssSize = (u.boxConfig address).bss.total ∧ sram.cleared = (sram.bss, sram.bssSize) ∧
      sram.index = vmpuBoxIndexInit u.heapStart heapEnd boxId (u.boxConfig address) address
        sram.bss ∧
      ((boxId = 0 ∧ sram.bss = u.heapStart) ∨ (boxId ≠ 0 ∧ ∃ stackPointer,
        drv.aclSram m boxId (u.boxConfig address).bss.total (u.boxConfig address).stackSize =
          some (sram.bss, stackPointer, m'))) := by
  obtain ⟨⟨bssStart, stackPointer, m₁⟩, hconfigure, h⟩ := Option.map_eq_some_iff.mp h
  obtain ⟨rfl, rfl⟩ := Prod.mk.inj h
  refine ⟨rfl, rfl, rfl, ?_⟩
  unfold configureBoxSram at hconfigure
  split_ifs at hconfigure with hbox
  · obtain ⟨rfl, -⟩ := Prod.mk.inj (Option.some.inj hconfigure)
    exact .inl ⟨hbox, rfl⟩
  · exact .inr ⟨hbox, stackPointer, hconfigure⟩

/-- The heap of the public box starts behind its other sections. -/
theorem publicHeap_eq (hstart : start < 2^32) (config : BoxConfig) (heapEnd : ℕ) :
    (vmpuBoxIndexInit start heapEnd 0 config address start).pointers =
      (assignPointers start config.bss.sizes).1.set 5
        ((start+offset (sizeAt config.bss.sizes) 6)%2^32) := by
  have hend : (assignPointers start config.bss.sizes).2 =
      (start+offset (sizeAt config.bss.sizes) 6)%2^32 := assignPointers_end hstart
  have hheap : (start+wordSub (assignPointers start config.bss.sizes).2 start)%2^32 =
      (start+offset (sizeAt config.bss.sizes) 6)%2^32 := by
    rw [hend]
    unfold wordSub
    omega
  exact congrArg ((assignPointers start config.bss.sizes).1.set 5) hheap

/-- The index of an accepted configuration is not empty, and its public box has
no heap. -/
theorem sizes_of_accepted (h : checkSanityBoxCfgtbl u boxId address = true) :
    0 < sizeAt (u.boxConfig address).bss.sizes 0 ∧
      (boxId = 0 → sizeAt (u.boxConfig address).bss.sizes 5 = 0) := by
  obtain ⟨hindex, -, hpublic⟩ := sizes_of_sane h
  exact ⟨Nat.lt_of_lt_of_le (by decide) hindex, fun hbox => (hpublic hbox).2⟩

/-- The sections of the public box. -/
theorem publicSections_safe_iff (hstart : u.heapStart < 2^32)
    (hsizes : ∀ size ∈ (u.boxConfig address).bss.sizes, size < 2^32)
    (haccepted : checkSanityBoxCfgtbl u 0 address = true) (hstarts : sram.bss = u.heapStart)
    (hindex : sram.index = vmpuBoxIndexInit u.heapStart heapEnd 0 (u.boxConfig address) address
      sram.bss) :
    SectionsSafe 0 (u.boxConfig address).bss.sizes sram ↔
      4 ∣ u.heapStart ∧ PublicSizes (u.boxConfig address).bss.sizes := by
  obtain ⟨hfirst, hheap⟩ := sizes_of_accepted haccepted
  have hpointers : sram.index.pointers = (assignPointers u.heapStart
      (u.boxConfig address).bss.sizes).1.set 5
        ((u.heapStart+offset (sizeAt (u.boxConfig address).bss.sizes) 6)%2^32) := by
    rw [hindex, hstarts, publicHeap_eq hstart]
  have hlength : (u.boxConfig address).bss.sizes.length = 6 := rfl
  generalize (u.boxConfig address).bss.sizes = sizes at *
  have hlist := length_assignPointers u.heapStart sizes
  have hpoints : PointsTo u.heapStart sizes.length (sizeAt sizes)
      (sizeAt sram.index.pointers) := by
    intro i hi hne
    have hother : 5 ≠ i := fun heq => hne (heq ▸ hheap rfl)
    rw [hpointers, sizeAt_set_ne _ _ hother]
    exact pointsTo_assignPointers hstart hsizes i hi hne
  -- The pointer to the heap is always written.
  have haligned : (∀ pointer ∈ sram.index.pointers, 4 ∣ pointer) ↔ 4 ∣ u.heapStart := by
    obtain ⟨q, hq⟩ := dvd_offset (sizeAt sizes) 6
    rw [hpointers]
    constructor
    · intro h
      have hmem := h _ (List.mem_set (by omega : 5 < _) _)
      omega
    · intro h pointer hmem
      rcases List.mem_or_eq_of_mem_set hmem with hold | rfl
      · exact dvd_assignPointers hstart h pointer hold
      · omega
  have hpublic : 4 ∣ u.heapStart → (PublicSizes sizes ↔
      Apart sizes.length (sizeAt sizes) (sizeAt sram.index.pointers)) := fun h => by
    rw [apart_iff hstart h (sizeAt_lt hsizes) hfirst hpoints]
    refine forall₂_congr fun i hi => ?_
    constructor
    · exact fun h _ hne => h hne
    · refine fun h hne => h ?_ hne
      by_contra hout
      exact hne (sizeAt_of_le (by omega))
  constructor
  · intro h
    have hdvd := haligned.mp h.aligned
    exact ⟨hdvd, (hpublic hdvd).mpr h.apart⟩
  · rintro ⟨hdvd, hfits⟩
    exact ⟨haligned.mpr hdvd, (hpublic hdvd).mp hfits, fun hbox => absurd rfl hbox⟩

/-- The sections of a secure box. -/
theorem secureSections_safe_iff (hbox : boxId ≠ 0) (hstart : sram.bss < 2^32)
    (haligned : 4 ∣ sram.bss)
    (hsizes : ∀ size ∈ (u.boxConfig address).bss.sizes, size < 2^32)
    (haccepted : checkSanityBoxCfgtbl u boxId address = true)
    (hsize : sram.bssSize = (u.boxConfig address).bss.total)
    (hcleared : sram.cleared = (sram.bss, sram.bssSize))
    (hindex : sram.index = vmpuBoxIndexInit u.heapStart heapEnd boxId (u.boxConfig address) address
      sram.bss) :
    SectionsSafe boxId (u.boxConfig address).bss.sizes sram ↔
      SecureSizes sram.bss (u.boxConfig address).bss.sizes := by
  have hfirst := (sizes_of_accepted haccepted).1
  have hpointers : sram.index.pointers =
      (assignPointers sram.bss (u.boxConfig address).bss.sizes).1 := by
    rw [hindex]
    exact if_neg hbox
  have htotal : sram.bssSize =
      (∑ j ∈ Finset.range (u.boxConfig address).bss.sizes.length,
        sizeAt (u.boxConfig address).bss.sizes j)%2^32 := by
    rw [hsize, BoxOrder.total_eq, sum_eq_sum_sizeAt]
  have hlength : (u.boxConfig address).bss.sizes.length = 6 := rfl
  generalize (u.boxConfig address).bss.sizes = sizes at *
  have hpoints : PointsTo sram.bss sizes.length (sizeAt sizes) (sizeAt sram.index.pointers) := by
    rw [hpointers]
    exact pointsTo_assignPointers hstart hsizes
  have hiff := apart_and_inside_iff hstart haligned (sizeAt_lt hsizes) (by omega) hfirst hpoints
  rw [← htotal] at hiff
  have hsafe : SectionsSafe boxId sizes sram ↔
      Apart sizes.length (sizeAt sizes) (sizeAt sram.index.pointers) ∧
        Inside sram.bss sram.bssSize sizes.length (sizeAt sizes) (sizeAt sram.index.pointers) := by
    constructor
    · exact fun h => ⟨h.apart, fun i hi k hk => (h.inside hbox i hi k hk).1⟩
    · rintro ⟨hapart, hinside⟩
      refine ⟨?_, hapart, fun _ i hi k hk => ⟨hinside i hi k hk, ?_⟩⟩
      · rw [hpointers]
        exact dvd_assignPointers hstart haligned
      · rw [hcleared]
        exact hinside i hi k hk
  rw [hsafe, hiff, ← sum_eq_sum_sizeAt]
  constructor
  · rintro ⟨hsum, hmultiples, hzero⟩
    refine ⟨hsum, fun i j hj hne => hmultiples i ?_ j hj hne, hzero⟩
    by_contra hout
    exact hne (sizeAt_of_le (by omega))
  · rintro ⟨hsum, hmultiples, hzero⟩
    exact ⟨hsum, fun i _ j hj hne => hmultiples i j hj hne, hzero⟩

/-- For every accepted configuration and every port that aligns the memory of
the boxes, the sections of a box are aligned and disjoint and lie in its memory
exactly when its sizes fit. -/
theorem sections_safe_iff (hdrv : AlignedDriver drv m) (hheap : u.heapStart < 2^32)
    (hsizes : ∀ size ∈ (u.boxConfig address).bss.sizes, size < 2^32)
    (haccepted : checkSanityBoxCfgtbl u boxId address = true)
    (h : vmpuConfigureBoxSram drv u psp heapEnd m boxId address = some (sram, m')) :
    SectionsSafe boxId (u.boxConfig address).bss.sizes sram ↔
      SizesFit u boxId sram.bss (u.boxConfig address).bss.sizes := by
  obtain ⟨hsize, hcleared, hindex, hstart⟩ := vmpuConfigureBoxSram_eq h
  unfold SizesFit
  rcases hstart with ⟨rfl, hstarts⟩ | ⟨hbox, stackPointer, hsram⟩
  · rw [if_pos rfl]
    exact publicSections_safe_iff hheap hsizes haccepted hstarts hindex
  · obtain ⟨hstart, haligned⟩ := hdrv _ _ _ _ _ _ hsram
    rw [if_neg hbox]
    exact secureSections_safe_iff hbox hstart haligned hsizes haccepted hsize hcleared hindex

end Boxes

/-! ## ARMv7-M -/

open BoxPlacement BoxMemory BoxSubregions BoxAgreement

/-- The memory of a box starts at a multiple of its size. -/
theorem boxDriver_aligned (u : UvisorConfig) (sys : Virq.Platform)
    (m : BoxMemory.State × Virq.State) : AlignedDriver (boxDriver u sys) m := by
  rintro boxId bssSize stackSize bssStart stackPointer m' h
  obtain ⟨s, virq⟩ := m
  simp only [boxDriver] at h
  split at h
  · rename_i start sp t hok
    obtain ⟨rfl, -⟩ := Prod.mk.inj (Option.some.inj h)
    have hplaced := vmpuAclSram_placed hok
    have hdvd := dvd_sramStart (memPos u.bssBoxesStart s) bssSize stackSize
    have hlog : 2^8 ∣ sramBytes bssSize stackSize := Nat.pow_dvd_pow 2 (le_max_left _ _)
    have hlt : sramStart (memPos u.bssBoxesStart s) bssSize stackSize < 2^32 :=
      Nat.mod_lt _ (by decide)
    rw [hplaced.bssStart]
    split_ifs
    · exact ⟨hlt, Dvd.dvd.trans (by decide : 4 ∣ 2^8) (hlog.trans hdvd)⟩
    · exact ⟨by decide, Nat.dvd_zero 4⟩
  · cases h

theorem threeConfigs_safe :
    ∃ sram m', vmpuConfigureBoxSram (boxDriver (threeConfigs 64 4096) threeBoxes)
        (threeConfigs 64 4096) 0 0x2000A000 (firstCall, noOwners) 1 0x1100 = some (sram, m') ∧
      (SectionsSafe 1 ((threeConfigs 64 4096).boxConfig 0x1100).bss.sizes sram ↔
        SizesFit (threeConfigs 64 4096) 1 sram.bss
          ((threeConfigs 64 4096).boxConfig 0x1100).bss.sizes) := by
  have hconfigure : (vmpuConfigureBoxSram (boxDriver (threeConfigs 64 4096) threeBoxes)
      (threeConfigs 64 4096) 0 0x2000A000 (firstCall, noOwners) 1 0x1100).isSome := by decide
  obtain ⟨⟨sram, m'⟩, hsram⟩ := Option.isSome_iff_exists.mp hconfigure
  exact ⟨sram, m', hsram, sections_safe_iff (boxDriver_aligned _ _ _) (by decide) (by decide)
    (by decide) hsram⟩

/-- A device with a box that has a context of one byte and a heap. -/
def oddContext : UvisorConfig :=
  {threeConfigs 1 64 with
    boxConfig := fun address =>
      {(threeConfigs 1 64).boxConfig address with
        bss := ⟨40, 1, 0, 0, 0, if address = 0x1000 then 0 else 8⟩}}

/-- The heap ends three bytes behind the memory that was recorded and cleared
for the box. -/
theorem oddContext_not_safe :
    checkSanityBoxCfgtbl oddContext 1 0x1100 = true ∧
      ∃ sram m', vmpuConfigureBoxSram (boxDriver oddContext threeBoxes) oddContext 0 0x2000A000
          (firstCall, noOwners) 1 0x1100 = some (sram, m') ∧
        ¬SectionsSafe 1 (oddContext.boxConfig 0x1100).bss.sizes sram := by
  refine ⟨by decide, ?_⟩
  have hconfigure : (vmpuConfigureBoxSram (boxDriver oddContext threeBoxes) oddContext 0 0x2000A000
      (firstCall, noOwners) 1 0x1100).map (fun r =>
        (r.1.bss, r.1.bssSize, sizeAt r.1.index.pointers 5)) =
      some (0x20002000, 49, 0x2000202C) := by decide
  obtain ⟨⟨sram, m'⟩, hsram, hfields⟩ := Option.map_eq_some_iff.mp hconfigure
  obtain ⟨hbss, hrest⟩ := Prod.mk.inj hfields
  obtain ⟨hsize, hheap⟩ := Prod.mk.inj hrest
  refine ⟨sram, m', hsram, fun h => ?_⟩
  have hlast := (h.inside (by decide) 5 (by decide) 7 (by decide)).1
  dsimp only at hbss hsize hheap
  rw [inRange, hbss, hsize, hheap] at hlast
  exact absurd hlast (by decide)

end Uvisor.BoxSections
