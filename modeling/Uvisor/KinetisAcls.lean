import Mathlib.Order.CompletePartialOrder
import Uvisor.AclSlices
import Uvisor.BandedMemory

/-!
# Overlaps between the memory regions on Kinetis

A region is compared with all recorded ones before it is added. Flags for
sharing and for rounding are masked away before, so that no overlap is allowed
and no size is rounded. The entry that a region is written to is not checked
against the slices: it is rejected when its configuration is not zero, and
access rights that the hardware does not support have the configuration zero.
-/

namespace Uvisor.KinetisAcls

open Execution ArmMpu BoxMemory AclSlices
open KinetisMpu (taclUacl taclSacl taclUser roundedSize)
open BandedMemory (vmpuMemOverlap maxAcls taclShared taclPeripheral)

/-! ## Sequences of calls -/

section Runs

variable {π : Type} (aipsAdd : ℕ → Word → Word → Word → π → Option π) (boxCount : ℕ)

/-- Take a call. -/
def step (s : Table × π) (c : Call) : Option (Table × π) :=
  (BandedMemory.vmpuRegionAddStaticAcl aipsAdd boxCount c.boxId c.start c.size c.acl c.aclHwSpec
    s).map Prod.snd

/-- The access rights of memory as they are recorded. -/
def memoryAcl (acl : Word) : Word := (acl &&& tacldefStack) ||| taclStack ||| taclUser

/-- A call for memory that is neither empty nor fully protected. -/
def RecordsMemory (c : Call) : Prop :=
  c.acl &&& taclPeripheral = 0 ∧ c.size ≠ 0 ∧ memoryAcl c.acl &&& (taclUacl ||| taclSacl) ≠ 0

/-- Every region that is recorded goes to the end of the table: its box has no
region yet, or it has the last one. -/
def AtEnd : List Call → Table × π → Prop
  | [], _ => True
  | c :: calls, s =>
    (RecordsMemory c → s.1.nextIndex c.boxId = s.1.mpuRegionCount) ∧
      ∀ t ∈ step aipsAdd boxCount s c, AtEnd calls t

instance (c : Call) : Decidable (RecordsMemory c) :=
  inferInstanceAs (Decidable (_ ∧ _ ∧ _))

instance decidableAtEnd : ∀ calls s, Decidable (AtEnd aipsAdd boxCount calls s)
  | [], _ => inferInstanceAs (Decidable True)
  | _ :: calls, _ =>
    have : DecidablePred (AtEnd aipsAdd boxCount calls) := decidableAtEnd calls
    inferInstanceAs (Decidable (_ ∧ ∀ t ∈ step _ _ _ _, AtEnd _ _ _ t))

end Runs

/-- The addresses of a region. -/
def regionBytes (region : MpuRegion) : Set ℕ := Set.Ico region.start.toNat (regionEnd region)

/-- Two entries in the slices of boxes never overlap, be they of one box or of
two. -/
def OverlapFree (t : Table) : Prop :=
  ∀ b b', ∀ i ∈ slice t b, ∀ i' ∈ slice t b', b ≠ b' ∨ i ≠ i' →
    Disjoint (regionBytes (t.mpuRegion i)) (regionBytes (t.mpuRegion i'))

/-! ## Overlaps -/

section Overlaps

variable {s₁ e₁ s₂ e₂ : Word} {region region' : MpuRegion}

/-- What a comparison that finds no overlap says. -/
theorem not_vmpuMemOverlap (h : vmpuMemOverlap s₁ e₁ s₂ e₂ = false) :
    s₁.toNat ≤ e₁.toNat ∧ s₂.toNat ≤ e₂.toNat ∧
      Disjoint (Set.Ico s₁.toNat e₁.toNat) (Set.Ico s₂.toNat e₂.toNat) := by
  simp only [vmpuMemOverlap, Bool.or_eq_false_iff, Bool.and_eq_false_iff, decide_eq_false_iff_not,
    BitVec.lt_def, BitVec.le_def] at h
  refine ⟨by omega, by omega, Set.disjoint_left.mpr fun x hx hx' => ?_⟩
  have hx := Set.mem_Ico.mp hx
  have hx' := Set.mem_Ico.mp hx'
  omega

/-- The end of a region that does not wrap is its recorded end. -/
theorem regionEnd_of_le (h : region.start.toNat ≤ region.ends.toNat) :
    regionEnd region = region.ends.toNat := by
  rw [regionEnd, BitVec.toNat_sub_of_le (BitVec.le_def.mpr h)]
  omega

theorem disjoint_regionBytes
    (h : vmpuMemOverlap region.start region.ends region'.start region'.ends = false) :
    Disjoint (regionBytes region) (regionBytes region') := by
  obtain ⟨hle, hle', hdisjoint⟩ := not_vmpuMemOverlap h
  rwa [regionBytes, regionBytes, regionEnd_of_le hle, regionEnd_of_le hle']

/-- A free entry has no addresses. -/
theorem regionBytes_free : regionBytes ⟨0, 0, 0, 0⟩ = ∅ := Set.Ico_self _

end Overlaps

/-! ## A call that does not halt -/

section Steps

variable {π : Type} {aipsAdd : ℕ → Word → Word → Word → π → Option π} {boxCount : ℕ}
  {s s' : Table × π} {t : Table} {c : Call} {region : MpuRegion}

/-- A region that has been compared with all recorded ones. -/
structure Accepted (t : Table) (c : Call) (region : MpuRegion) : Prop where
  /-- It starts where the call says. -/
  start : region.start = c.start
  /-- So does it end, in 32 bits. -/
  ends : region.ends = c.start+c.size
  /-- It has bytes. -/
  size : c.size ≠ 0
  /-- No recorded region overlaps with it. -/
  apart : ∀ i < t.mpuRegionCount,
    vmpuMemOverlap region.start region.ends (t.mpuRegion i).start (t.mpuRegion i).ends = false

/-- Flags that memory cannot have are masked away. -/
theorem memoryAcl_and_eq_zero {flag : Word}
    (hflag : (tacldefStack ||| taclStack ||| taclUser) &&& flag = 0) (acl : Word) :
    memoryAcl acl &&& flag = 0 := by
  refine BitVec.eq_of_getLsbD_eq fun i hi => ?_
  have hbit := congrArg (BitVec.getLsbD · i) hflag
  simp only [memoryAcl, BitVec.getLsbD_and, BitVec.getLsbD_or, BitVec.ofNat_eq_ofNat,
    BitVec.getLsbD_zero] at hbit ⊢
  cases hset : flag.getLsbD i with
  | false => exact Bool.and_false _
  | true =>
    rw [hset, Bool.and_true, Bool.or_eq_false_iff, Bool.or_eq_false_iff] at hbit
    simp [hbit]

/-- Sizes are not rounded. -/
theorem roundedSize_memoryAcl {size rounded acl : Word}
    (h : roundedSize size (memoryAcl acl) = some rounded) : rounded = size := by
  unfold roundedSize at h
  rw [if_neg (not_not.mpr (memoryAcl_and_eq_zero (by decide) acl)),
    if_neg (not_not.mpr (memoryAcl_and_eq_zero (by decide) acl))] at h
  split_ifs at h
  exact (Option.some.inj h).symm

/-- A call that does not halt adds a region that has been translated and
compared, or it leaves the table as it is. -/
theorem step_translated (h : step aipsAdd boxCount s c = some s') :
    (¬RecordsMemory c ∧ s'.1 = s.1) ∨
      (RecordsMemory c ∧ ∃ region rounded,
        KinetisMpu.vmpuRegionTranslateAcl c.start c.size (memoryAcl c.acl) c.aclHwSpec =
          some (region, rounded) ∧
        Accepted s.1 c region ∧ s'.1 = s.1.store c.boxId region) := by
  obtain ⟨⟨returned, added⟩, hadd, rfl⟩ := Option.map_eq_some_iff.mp h
  unfold BandedMemory.vmpuRegionAddStaticAcl at hadd
  split_ifs at hadd with hbox halign hperipheral
  · obtain ⟨bridges, -, hadd⟩ := Option.map_eq_some_iff.mp hadd
    obtain ⟨-, rfl⟩ := Prod.mk.inj hadd
    exact .inl ⟨fun h => hperipheral h.1, rfl⟩
  obtain ⟨⟨size, t⟩, hinternal, hadd⟩ := Option.bind_eq_some_iff.mp hadd
  dsimp only at hadd
  split_ifs at hadd with hsize
  obtain ⟨-, rfl⟩ := Prod.mk.inj (Option.some.inj hadd)
  rw [show (c.acl &&& tacldefStack) ||| taclStack ||| taclUser = memoryAcl c.acl from rfl]
    at hinternal
  unfold BandedMemory.vmpuRegionAddStaticAclInternal at hinternal
  split_ifs at hinternal with hempty hfull hoverlap hused
  · obtain ⟨-, rfl⟩ := Prod.mk.inj (Option.some.inj hinternal)
    refine .inl ⟨fun ⟨_, hne, haccess⟩ => ?_, rfl⟩
    exact hempty.elim hne haccess
  · obtain ⟨rfl, -⟩ := Prod.mk.inj (Option.some.inj hinternal)
    exact absurd rfl hsize
  · obtain ⟨hreturned, rfl⟩ := Prod.mk.inj (Option.some.inj hinternal)
    obtain ⟨hne, haccess⟩ := not_or.mp hempty
    refine .inr ⟨⟨not_not.mp hperipheral, hne, haccess⟩, ?_⟩
    -- a region that cannot be translated is reported as an error
    cases htranslate : KinetisMpu.vmpuRegionTranslateAcl c.start c.size (memoryAcl c.acl)
        c.aclHwSpec with
    | none =>
      rw [htranslate] at hreturned
      exact absurd hreturned.symm hsize
    | some translated =>
      refine ⟨translated.1, translated.2, rfl, ?_, rfl⟩
      unfold KinetisMpu.vmpuRegionTranslateAcl at htranslate
      obtain ⟨rounded, hrounded, htranslate⟩ := Option.bind_eq_some_iff.mp htranslate
      obtain rfl := roundedSize_memoryAcl hrounded
      split_ifs at htranslate
      obtain rfl := Option.some.inj htranslate
      refine ⟨rfl, rfl, hne, fun i hi => ?_⟩
      have hnone := List.any_eq_false.mp (Bool.eq_false_iff.mpr hoverlap) i (List.mem_range.mpr hi)
      simp only [memoryAcl_and_eq_zero (show _ &&& taclShared = 0 by decide) c.acl] at hnone
      simpa using hnone

/-- A call that does not halt adds a region that has been compared, or it leaves
the table as it is. -/
theorem step_spec (h : step aipsAdd boxCount s c = some s') :
    (¬RecordsMemory c ∧ s'.1 = s.1) ∨
      (RecordsMemory c ∧ ∃ region, Accepted s.1 c region ∧
        s'.1 = s.1.store c.boxId region) := by
  rcases step_translated h with hskip | ⟨hrecords, region, -, -, haccepted, heq⟩
  · exact .inl hskip
  · exact .inr ⟨hrecords, region, haccepted, heq⟩

end Steps

/-! ## Entries of the table -/

/-- The entries of a table never overlap. -/
structure Entries (t : Table) : Prop extends Bounded t where
  /-- The free entries are zero. -/
  free : ∀ i, t.mpuRegionCount ≤ i → t.mpuRegion i = ⟨0, 0, 0, 0⟩
  /-- Two entries have no address in common. -/
  apart : ∀ i j, i ≠ j → Disjoint (regionBytes (t.mpuRegion i)) (regionBytes (t.mpuRegion j))
  /-- The entries in slices have addresses. -/
  inhabited : ∀ b, ∀ i ∈ slice t b, (regionBytes (t.mpuRegion i)).Nonempty

/-- No entry belongs to two boxes, and none in use belongs to no box. -/
structure Owned (t : Table) : Prop where
  /-- No entry is in two slices. -/
  apart : ∀ b b', b ≠ b' → Disjoint (slice t b) (slice t b')
  /-- Every entry in use is in a slice. -/
  covered : ∀ i < t.mpuRegionCount, ∃ b, i ∈ slice t b

/-- An entry belongs to two boxes. -/
def SharedEntry (t : Table) : Prop := ∃ b b', b ≠ b' ∧ ∃ i, i ∈ slice t b ∧ i ∈ slice t b'

section Entries

variable {t : Table} {c : Call} {region : MpuRegion}

theorem entries_empty : Entries emptyTable where
  empty _ _ := rfl
  bound _ := le_rfl
  free _ _ := rfl
  apart _ _ _ := by
    rw [show emptyTable.mpuRegion _ = ⟨0, 0, 0, 0⟩ from rfl, regionBytes_free]
    exact Set.empty_disjoint _
  inhabited b i hi := by
    rw [slice_eq_empty emptyTable b rfl] at hi
    exact absurd hi (Finset.notMem_empty i)

theorem owned_empty : Owned emptyTable where
  apart b b' _ := by
    rw [slice_eq_empty emptyTable b rfl]
    exact Finset.disjoint_empty_left _
  covered i hi := absurd hi (Nat.not_lt_zero i)

theorem Accepted.nonempty (h : Accepted t c region) : (regionBytes region).Nonempty := by
  have hsize : (region.ends-region.start).toNat ≠ 0 := by
    rw [h.ends, h.start, BitVec.add_comm, BitVec.add_sub_cancel]
    exact fun hzero => h.size (BitVec.eq_of_toNat_eq hzero)
  refine Set.nonempty_Ico.mpr ?_
  unfold regionEnd
  omega

/-- A region that has been compared has no address of another entry, also where
it wraps: then it is the first one. -/
theorem Accepted.disjoint (h : Accepted t c region) (hentries : Entries t) (i : ℕ) :
    Disjoint (regionBytes region) (regionBytes (t.mpuRegion i)) := by
  rcases Nat.lt_or_ge i t.mpuRegionCount with hi | hi
  · exact disjoint_regionBytes (h.apart i hi)
  · rw [hentries.free i hi, regionBytes_free]
    exact Set.disjoint_empty _

/-- The entries stay apart, whichever of them is written. -/
theorem Entries.store (h : Entries t) (haccepted : Accepted t c region) :
    Entries (t.store c.boxId region) where
  toBounded := h.toBounded.store c.boxId region
  free i hi := by
    have hcount : (t.store c.boxId region).mpuRegionCount = t.mpuRegionCount+1 := rfl
    have hbound := h.bound c.boxId
    rw [hcount] at hi
    rw [← h.free i (by omega)]
    exact Function.update_of_ne (by omega) _ _
  apart i j hne := by
    have hentry : ∀ k, (t.store c.boxId region).mpuRegion k =
        if k = t.nextIndex c.boxId then region else t.mpuRegion k := fun k =>
      Function.update_apply _ _ _ _
    rw [hentry, hentry]
    split_ifs with hi hj hj
    · exact absurd (hi.trans hj.symm) hne
    · exact haccepted.disjoint h j
    · exact (haccepted.disjoint h i).symm
    · exact h.apart i j hne
  inhabited b i hi := by
    have hentry : (t.store c.boxId region).mpuRegion i =
        if i = t.nextIndex c.boxId then region else t.mpuRegion i :=
      Function.update_apply _ _ _ _
    rw [hentry]
    split_ifs with hnext
    · exact haccepted.nonempty
    · rcases (mem_slice_store_iff (h.empty b) region).mp hi with hold | ⟨-, hnew⟩
      · exact h.inhabited b i hold
      · exact absurd hnew hnext

/-- A region at the end of the table belongs to its box alone. -/
theorem Owned.store (h : Owned t) (hentries : Entries t)
    (hend : t.nextIndex c.boxId = t.mpuRegionCount) (region : MpuRegion) :
    Owned (t.store c.boxId region) where
  apart := (Sliced.store ⟨hentries.toBounded, h.apart⟩ hend region).apart
  covered i hi := by
    have hcount : (t.store c.boxId region).mpuRegionCount = t.mpuRegionCount+1 := rfl
    rw [hcount] at hi
    rcases Nat.lt_or_eq_of_le (Nat.le_of_lt_succ hi) with hlt | rfl
    · obtain ⟨b, hb⟩ := h.covered i hlt
      exact ⟨b, (mem_slice_store_iff (hentries.empty b) region).mpr (.inl hb)⟩
    · exact ⟨c.boxId, (mem_slice_store_iff (hentries.empty _) region).mpr (.inr ⟨rfl, hend.symm⟩)⟩

/-- A region below the end of the table takes the entry of another box. -/
theorem Owned.sharedEntry (h : Owned t) (hentries : Entries t)
    (hend : t.nextIndex c.boxId ≠ t.mpuRegionCount) (region : MpuRegion) :
    SharedEntry (t.store c.boxId region) := by
  have hlt := lt_of_le_of_ne (hentries.bound c.boxId) hend
  obtain ⟨b, hb⟩ := h.covered _ hlt
  have hne : b ≠ c.boxId := by
    rintro rfl
    exact absurd (mem_slice_iff.mp hb).2 (lt_irrefl _)
  exact ⟨b, c.boxId, hne, t.nextIndex c.boxId,
    (mem_slice_store_iff (hentries.empty b) region).mpr (.inl hb),
    (mem_slice_store_iff (hentries.empty _) region).mpr (.inr ⟨rfl, rfl⟩)⟩

theorem SharedEntry.store (h : SharedEntry t) (hentries : Entries t) (boxId : ℕ)
    (region : MpuRegion) : SharedEntry (t.store boxId region) := by
  obtain ⟨b, b', hne, i, hi, hi'⟩ := h
  exact ⟨b, b', hne, i, (mem_slice_store_iff (hentries.empty b) region).mpr (.inl hi),
    (mem_slice_store_iff (hentries.empty b') region).mpr (.inl hi')⟩

/-- Regions in slices overlap if and only if an entry belongs to two boxes. -/
theorem overlapFree_iff (h : Entries t) : OverlapFree t ↔ ¬SharedEntry t := by
  constructor
  · rintro hfree ⟨b, b', hne, i, hi, hi'⟩
    have hself := hfree b b' i hi i hi' (.inl hne)
    exact (h.inhabited b i hi).ne_empty (disjoint_self.mp hself)
  · intro hshared b b' i hi i' hi' hdistinct
    refine h.apart i i' fun heq => ?_
    subst heq
    rcases hdistinct with hne | hne
    · exact hshared ⟨b, b', hne, i, hi, hi'⟩
    · exact hne rfl

end Entries

/-! ## Runs -/

section Overlapping

variable {π : Type} {aipsAdd : ℕ → Word → Word → Word → π → Option π} {boxCount : ℕ}
  {s t : Table × π} {calls : List Call} {c : Call}

theorem entries_step (h : Entries s.1) (hs : step aipsAdd boxCount s c = some t) :
    Entries t.1 := by
  rcases step_spec hs with ⟨-, heq⟩ | ⟨-, region, haccepted, heq⟩
  · rwa [heq]
  · rw [heq]
    exact h.store haccepted

theorem sharedEntry_exec (h : Entries s.1) (hshared : SharedEntry s.1)
    (he : exec (step aipsAdd boxCount) calls s = some t) : SharedEntry t.1 := by
  induction calls generalizing s with
  | nil =>
    obtain rfl := Option.some.inj he
    exact hshared
  | cons c calls ih =>
    obtain ⟨s', hs, ht⟩ := Option.bind_eq_some_iff.mp he
    refine ih (entries_step h hs) ?_ ht
    rcases step_spec hs with ⟨-, heq⟩ | ⟨-, region, -, heq⟩
    · rwa [heq]
    · rw [heq]
      exact hshared.store h c.boxId region

/-- The entries of the table never overlap, in any sequence of calls. -/
theorem entries_exec (h : Entries s.1) (he : exec (step aipsAdd boxCount) calls s = some t) :
    Entries t.1 := by
  induction calls generalizing s with
  | nil =>
    obtain rfl := Option.some.inj he
    exact h
  | cons c calls ih =>
    obtain ⟨s', hs, ht⟩ := Option.bind_eq_some_iff.mp he
    exact ih (entries_step h hs) ht

/-- The first region that is not added at the end of the table takes an entry
of another box, which both boxes keep. -/
theorem sharedEntry_iff (h : Entries s.1) (howned : Owned s.1)
    (he : exec (step aipsAdd boxCount) calls s = some t) :
    SharedEntry t.1 ↔ ¬AtEnd aipsAdd boxCount calls s := by
  induction calls generalizing s with
  | nil =>
    obtain rfl := Option.some.inj he
    refine iff_of_false ?_ (fun hend => hend trivial)
    rintro ⟨b, b', hne, i, hi, hi'⟩
    exact Finset.disjoint_left.mp (howned.apart b b' hne) hi hi'
  | cons c calls ih =>
    obtain ⟨s', hs, ht⟩ := Option.bind_eq_some_iff.mp he
    have hrest : AtEnd aipsAdd boxCount (c :: calls) s ↔
        (RecordsMemory c → s.1.nextIndex c.boxId = s.1.mpuRegionCount) ∧
          AtEnd aipsAdd boxCount calls s' := by
      refine and_congr_right fun _ => ⟨fun hall => hall s' hs, fun hend u hu => ?_⟩
      obtain rfl := Option.some.inj (hs.symm.trans hu)
      exact hend
    have hentries := entries_step h hs
    rw [hrest]
    rcases step_spec hs with ⟨hskip, heq⟩ | ⟨hrecords, region, -, heq⟩
    · rw [ih hentries (by rwa [heq]) ht]
      exact not_congr ⟨fun hend => ⟨fun hrecords => absurd hrecords hskip, hend⟩, And.right⟩
    · by_cases hend : s.1.nextIndex c.boxId = s.1.mpuRegionCount
      · rw [ih hentries (by rw [heq]; exact howned.store h hend region) ht]
        exact not_congr ⟨fun hat => ⟨fun _ => hend, hat⟩, And.right⟩
      · refine iff_of_true (sharedEntry_exec hentries ?_ ht) fun hat => hend (hat.1 hrecords)
        rw [heq]
        exact howned.sharedEntry h hend region

/-- In a sequence of calls that does not halt no two recorded regions overlap if
and only if every region has been recorded at the end of the table. -/
theorem overlapFree_exec_iff {bridges : π}
    (he : exec (step aipsAdd boxCount) calls (emptyTable, bridges) = some t) :
    OverlapFree t.1 ↔ AtEnd aipsAdd boxCount calls (emptyTable, bridges) := by
  rw [overlapFree_iff (entries_exec (s := (emptyTable, bridges)) entries_empty he),
    sharedEntry_iff (s := (emptyTable, bridges)) entries_empty owned_empty he, not_not]

/-- A bridge that grants nothing. -/
def noBridge (_ : ℕ) (_ _ _ : Word) (_ : Unit) : Option Unit := none

/-- Read-only regions of two boxes, which the hardware does not support, and a
second region of the first box. -/
def interleavedCalls : List Call :=
  [⟨1, 0x20000000, 0x100, taclUread, 0⟩, ⟨2, 0x20000100, 0x100, taclUread, 0⟩,
    ⟨1, 0x20000200, 0x100, tacldefStack, 0⟩]

/-- The second region of box 1 is written to the entry of box 2, which has the
configuration zero, and then it is a region of both boxes. -/
theorem overlapFree_fails : ∃ t, exec (step noBridge 3) interleavedCalls (emptyTable, ()) = some t ∧
    1 ∈ slice t.1 1 ∧ 1 ∈ slice t.1 2 ∧ (t.1.mpuRegion 1).start = 0x20000200 ∧
      ¬OverlapFree t.1 := by
  have hrun : ((exec (step noBridge 3) interleavedCalls (emptyTable, ())).map fun t =>
      (decide (1 ∈ slice t.1 1), decide (1 ∈ slice t.1 2), (t.1.mpuRegion 1).start)) =
        some (true, true, 0x20000200) := by decide +kernel
  obtain ⟨t, ht, heq⟩ := Option.map_eq_some_iff.mp hrun
  simp only [Prod.mk.injEq, decide_eq_true_eq] at heq
  obtain ⟨hfirst, hsecond, hstart⟩ := heq
  refine ⟨t, ht, hfirst, hsecond, hstart, fun hfree => ?_⟩
  have hentries := entries_exec (s := (emptyTable, ())) entries_empty ht
  exact (overlapFree_iff hentries).mp hfree ⟨1, 2, by decide, 1, hfirst, hsecond⟩

/-- Two regions for box 1, and then one for box 2. -/
def orderedCalls : List Call :=
  [⟨1, 0x20000000, 0x100, tacldefStack, 0⟩, ⟨1, 0x20000100, 0x100, taclUread, 0⟩,
    ⟨2, 0x20000200, 0x100, tacldefStack, 0⟩]

theorem overlapFree_orderedCalls :
    ∃ t, exec (step noBridge 3) orderedCalls (emptyTable, ()) = some t ∧ OverlapFree t.1 := by
  have hrun : (exec (step noBridge 3) orderedCalls (emptyTable, ())).isSome = true := by
    decide +kernel
  obtain ⟨t, ht⟩ := Option.isSome_iff_exists.mp hrun
  exact ⟨t, ht, (overlapFree_exec_iff ht).mpr (by decide +kernel)⟩

end Overlapping

end Uvisor.KinetisAcls
