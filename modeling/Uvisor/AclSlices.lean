import Mathlib.Order.Interval.Finset.Nat
import Uvisor.BoxMemory

/-!
# The slices of the region table on ARMv7-M

The regions of all boxes share one table. A box has a slice of it, which
starts where the table ended when the box got its first region, and which is
open at its end. Whether the entry after a slice belongs to another box is read
off its configuration alone. The lookup walks one slice and compares addresses
with the ends of the regions, which are words: a region up to the end of memory
has the end zero.
-/

namespace Uvisor.AclSlices

open Execution ArmMpu MpuIsolation MpuPriority PageSubregions FaultRecovery RegionEncoding BoxMemory

/-! ## Slices of a table -/

/-- The regions of a box, in the order of its slice. -/
def boxRegions (t : Table) (boxId : ℕ) : List MpuRegion :=
  (List.range (t.mpuBoxRegion boxId).count).map fun i => t.mpuRegion (t.firstIndex boxId+i)

/-- The entries of the table that are in the slice of a box. -/
def slice (t : Table) (boxId : ℕ) : Finset ℕ :=
  Finset.Ico (t.firstIndex boxId) (t.nextIndex boxId)

/-- A table whose slices end before its first free entry. -/
structure Bounded (t : Table) : Prop where
  /-- A box has a slice once it has a region. -/
  empty : ∀ b, (t.mpuBoxRegion b).regions = none → (t.mpuBoxRegion b).count = 0
  /-- The slices end before the first free entry. -/
  bound : ∀ b, t.nextIndex b ≤ t.mpuRegionCount

/-- A table whose slices are apart as well. -/
structure Sliced (t : Table) : Prop extends Bounded t where
  /-- No entry is in two slices. -/
  apart : ∀ b b', b ≠ b' → Disjoint (slice t b) (slice t b')

section Slices

variable {t : Table} {boxId other i : ℕ}

theorem mem_slice_iff : i ∈ slice t boxId ↔ t.firstIndex boxId ≤ i ∧ i < t.nextIndex boxId :=
  Finset.mem_Ico

@[simp] theorem store_firstIndex (t : Table) (boxId : ℕ) (region : MpuRegion) :
    (t.store boxId region).firstIndex boxId = t.firstIndex boxId := by
  simp [Table.store, Table.firstIndex]

@[simp] theorem store_nextIndex (t : Table) (boxId : ℕ) (region : MpuRegion) :
    (t.store boxId region).nextIndex boxId = t.nextIndex boxId+1 := by
  simp [Table.store, Table.nextIndex, Table.firstIndex, Nat.add_assoc]

/-- The slices of the other boxes are kept. -/
theorem store_mpuBoxRegion_of_ne (hne : other ≠ boxId) (region : MpuRegion) :
    (t.store boxId region).mpuBoxRegion other = t.mpuBoxRegion other :=
  Function.update_of_ne hne _ _

/-- A region that is added extends the slice of its box by one entry. -/
theorem mem_slice_store_iff
    (hempty : (t.mpuBoxRegion other).regions = none → (t.mpuBoxRegion other).count = 0)
    (region : MpuRegion) : i ∈ slice (t.store boxId region) other ↔
      i ∈ slice t other ∨ other = boxId ∧ i = t.nextIndex boxId := by
  simp only [mem_slice_iff]
  by_cases hbox : other = boxId
  · subst hbox
    have hle : t.firstIndex other ≤ t.nextIndex other := Nat.le_add_right _ _
    rw [store_firstIndex, store_nextIndex]
    omega
  · have hslice := store_mpuBoxRegion_of_ne (t := t) hbox region
    simp only [hbox, false_and, or_false, Table.nextIndex, Table.firstIndex, hslice]
    cases hregions : (t.mpuBoxRegion other).regions with
    | none =>
      rw [hempty hregions, Option.getD_none, Option.getD_none]
      omega
    | some base => rfl

/-- It is the last region of its box. -/
theorem boxRegions_store_self (t : Table) (boxId : ℕ) (region : MpuRegion) :
    boxRegions (t.store boxId region) boxId = boxRegions t boxId ++ [region] := by
  have hcount : ((t.store boxId region).mpuBoxRegion boxId).count =
      (t.mpuBoxRegion boxId).count+1 := by
    simp [Table.store]
  rw [boxRegions, boxRegions, hcount, List.range_succ, List.map_append, store_firstIndex]
  congr 1
  · refine List.map_congr_left fun i hi => Function.update_of_ne ?_ _ _
    have hlt := List.mem_range.mp hi
    unfold Table.nextIndex
    omega
  · exact congrArg ([·]) (Function.update_self _ _ _)

/-- The regions of a box are kept where no entry of its slice is written. -/
theorem boxRegions_store_of_ne (hne : other ≠ boxId)
    (hempty : (t.mpuBoxRegion other).regions = none → (t.mpuBoxRegion other).count = 0)
    (hunshared : t.nextIndex boxId ∉ slice t other) (region : MpuRegion) :
    boxRegions (t.store boxId region) other = boxRegions t other := by
  have hslice := store_mpuBoxRegion_of_ne (t := t) hne region
  rw [boxRegions, boxRegions, hslice]
  refine List.map_congr_left fun i hi => ?_
  have hlt := List.mem_range.mp hi
  have hfirst : (t.store boxId region).firstIndex other = t.firstIndex other := by
    rw [Table.firstIndex, Table.firstIndex, hslice]
    cases hregions : (t.mpuBoxRegion other).regions with
    | none =>
      rw [hempty hregions] at hlt
      exact absurd hlt (Nat.not_lt_zero i)
    | some base => rfl
  rw [hfirst]
  refine Function.update_of_ne (fun heq => hunshared ?_) _ _
  rw [mem_slice_iff, ← heq]
  unfold Table.nextIndex
  omega

/-- Slices stay below the end of the table, whichever entry is written. -/
theorem Bounded.store (h : Bounded t) (boxId : ℕ) (region : MpuRegion) :
    Bounded (t.store boxId region) where
  empty b hnone := by
    by_cases hbox : b = boxId
    · subst hbox
      simp [Table.store] at hnone
    · rw [store_mpuBoxRegion_of_ne hbox] at hnone ⊢
      exact h.empty b hnone
  bound b := by
    have hcount : (t.store boxId region).mpuRegionCount = t.mpuRegionCount+1 := rfl
    have hbound := h.bound b
    rw [hcount]
    by_cases hbox : b = boxId
    · subst hbox
      rw [store_nextIndex]
      omega
    · rw [Table.nextIndex, Table.firstIndex, store_mpuBoxRegion_of_ne hbox, hcount]
      rw [Table.nextIndex, Table.firstIndex] at hbound
      cases hregions : (t.mpuBoxRegion b).regions with
      | none => rw [h.empty b hregions, Option.getD_none, Nat.add_zero]
      | some base =>
        rw [hregions, Option.getD_some] at hbound
        rw [Option.getD_some]
        omega

/-- The entry at the end of the table is in no slice. -/
theorem Bounded.count_notMem (h : Bounded t) (b : ℕ) : t.mpuRegionCount ∉ slice t b := fun hmem =>
  absurd (mem_slice_iff.mp hmem).2 (not_lt.mpr (h.bound b))

/-- Slices stay apart when they grow at the end of the table. -/
theorem Sliced.store (h : Sliced t) (hend : t.nextIndex boxId = t.mpuRegionCount)
    (region : MpuRegion) : Sliced (t.store boxId region) where
  toBounded := h.toBounded.store boxId region
  apart b b' hne := by
    refine Finset.disjoint_left.mpr fun i hi hi' => ?_
    rw [mem_slice_store_iff (h.empty _), hend] at hi hi'
    rcases hi with hi | ⟨rfl, rfl⟩
    · rcases hi' with hi' | ⟨rfl, rfl⟩
      · exact Finset.disjoint_left.mp (h.apart b b' hne) hi hi'
      · exact h.count_notMem b hi
    · rcases hi' with hi' | ⟨rfl, -⟩
      · exact h.count_notMem b' hi'
      · exact hne rfl

/-- Before the first region no box has a slice. -/
theorem slice_eq_empty (t : Table) (boxId : ℕ) (hcount : (t.mpuBoxRegion boxId).count = 0) :
    slice t boxId = ∅ := by
  rw [slice, Table.nextIndex, hcount]
  exact Finset.Ico_self _

end Slices

/-! ## Adding regions for one box after the other -/

/-- The table while the regions of a box are added. -/
structure Filling (boxId : ℕ) (t : Table) : Prop where
  /-- The slices end before the first free entry. -/
  bounded : Bounded t
  /-- The slice of the box ends there. -/
  last : t.nextIndex boxId = t.mpuRegionCount
  /-- The boxes after it have no slice. -/
  later : ∀ b, boxId < b → t.mpuBoxRegion b = ⟨none, 0⟩

/-- Regions have been added for a box, and every one of them is of a kind. -/
structure Appended (boxId : ℕ) (new : MpuRegion → Prop) (t t' : Table) : Prop where
  /-- The other boxes have the same regions. -/
  others : ∀ b, b ≠ boxId → boxRegions t' b = boxRegions t b
  /-- The regions of the box. -/
  regions : ∃ added, boxRegions t' boxId = boxRegions t boxId ++ added ∧
    ∀ region ∈ added, new region

/-- No region has been added yet. -/
def NoRegions (t : Table) : Prop := ∀ b, t.mpuBoxRegion b = ⟨none, 0⟩

section Filling

variable {boxId b : ℕ} {t t' t'' : Table} {new new' : MpuRegion → Prop}

theorem Appended.refl (boxId : ℕ) (new : MpuRegion → Prop) (t : Table) :
    Appended boxId new t t :=
  ⟨fun _ _ => rfl, [], (List.append_nil _).symm, fun _ hmem => absurd hmem List.not_mem_nil⟩

theorem Appended.trans (h : Appended boxId new t t') (h' : Appended boxId new t' t'') :
    Appended boxId new t t'' := by
  obtain ⟨added, hadded, hnew⟩ := h.regions
  obtain ⟨added', hadded', hnew'⟩ := h'.regions
  refine ⟨fun b hb => (h'.others b hb).trans (h.others b hb), added ++ added', ?_,
    fun region hmem => ?_⟩
  · rw [hadded', hadded, List.append_assoc]
  · exact (List.mem_append.mp hmem).elim (hnew region) (hnew' region)

theorem Appended.mono (h : Appended boxId new t t') (himp : ∀ region, new region → new' region) :
    Appended boxId new' t t' := by
  obtain ⟨added, hadded, hnew⟩ := h.regions
  exact ⟨h.others, added, hadded, fun region hmem => himp region (hnew region hmem)⟩

/-- A region is added behind those of the box. -/
theorem Filling.store (h : Filling boxId t) (region : MpuRegion) :
    Filling boxId (t.store boxId region) ∧
      Appended boxId (· = region) t (t.store boxId region) := by
  refine ⟨⟨h.bounded.store boxId region, ?_, fun b hb => ?_⟩, fun b hb => ?_, [region],
    boxRegions_store_self t boxId region, fun _ hmem => List.mem_singleton.mp hmem⟩
  · rw [store_nextIndex, h.last]
    rfl
  · rw [store_mpuBoxRegion_of_ne (by omega)]
    exact h.later b hb
  · exact boxRegions_store_of_ne hb (h.bounded.empty b)
      (h.last ▸ h.bounded.count_notMem b) region

/-- The next box has no region yet. -/
theorem Filling.next (h : Filling boxId t) : Filling (boxId+1) t := by
  refine ⟨h.bounded, ?_, fun b hb => h.later b (by omega)⟩
  rw [Table.nextIndex, Table.firstIndex, h.later (boxId+1) (Nat.lt_succ_self _)]
  rfl

theorem boxRegions_nil (h : t.mpuBoxRegion b = ⟨none, 0⟩) :
    boxRegions t b = [] := by
  rw [boxRegions, h]
  rfl

theorem NoRegions.filling (h : NoRegions t) : Filling 0 t := by
  have hnext : ∀ b, t.nextIndex b = t.mpuRegionCount := fun b => by
    rw [Table.nextIndex, Table.firstIndex, h b]
    rfl
  exact ⟨⟨fun b _ => by rw [h b], fun b => (hnext b).le⟩, hnext 0, fun b _ => h b⟩

end Filling

/-! ## The lookup -/

/-- The loop of the lookup, with the entries left and the current one. -/
def findFrom (mpuRegion : ℕ → MpuRegion) (address : Word) : ℕ → ℕ → Option ℕ
  | 0, _ => none
  | count+1, region =>
    if (mpuRegion region).start ≤ address ∧ address < (mpuRegion region).ends then some region
    else findFrom mpuRegion address count (region+1)

/-- vmpu_region_find_for_address: the entry that is pointed to. -/
def vmpuRegionFindForAddress (t : Table) (boxId : ℕ) (address : Word) : Option ℕ :=
  findFrom t.mpuRegion address (t.mpuBoxRegion boxId).count (t.firstIndex boxId)

/-- Whether an address is between the recorded addresses of a region. -/
def inRange (address : Word) (region : MpuRegion) : Bool :=
  region.start ≤ address && address < region.ends

/-- Address after the last byte of a region, which may be the end of memory. -/
def regionEnd (region : MpuRegion) : ℕ := region.start.toNat+(region.ends-region.start).toNat

/-- Whether a region contains the byte at an address. -/
def contains (address : Word) (region : MpuRegion) : Bool :=
  region.start.toNat ≤ address.toNat && address.toNat < regionEnd region

theorem findFrom_eq (mpuRegion : ℕ → MpuRegion) (address : Word) (count base : ℕ) :
    findFrom mpuRegion address count base =
      (((List.range count).map fun i => mpuRegion (base+i)).findIdx? (inRange address)).map
        (base+·) := by
  induction count generalizing base with
  | zero => rfl
  | succ count ih =>
    have hshift : ((List.range count).map Nat.succ).map (fun i => mpuRegion (base+i)) =
        (List.range count).map fun i => mpuRegion (base+1+i) := by
      rw [List.map_map]
      refine List.map_congr_left fun i _ => congrArg mpuRegion ?_
      simp only [Nat.succ_eq_add_one]
      omega
    rw [findFrom, ih, List.range_succ_eq_map, List.map_cons, List.findIdx?_cons, hshift]
    simp only [Nat.add_zero]
    by_cases hin : (mpuRegion base).start ≤ address ∧ address < (mpuRegion base).ends
    · simp [inRange, hin]
    · have hout : ¬inRange address (mpuRegion base) = true := by
        simpa [inRange] using hin
      rw [if_neg hin, if_neg hout, Option.map_map]
      refine congrArg (Option.map · _) (funext fun i => ?_)
      simp only [Function.comp_apply]
      omega

/-- The lookup walks the slice of a box. -/
theorem find_eq (t : Table) (boxId : ℕ) (address : Word) :
    vmpuRegionFindForAddress t boxId address =
      ((boxRegions t boxId).findIdx? (inRange address)).map (t.firstIndex boxId+·) :=
  findFrom_eq _ _ _ _

/-! ## Sequences of calls -/

/-- A call of vmpu_region_add_static_acl. -/
structure Call where
  /-- box_id. -/
  boxId : ℕ
  /-- start. -/
  start : Word
  /-- size. -/
  size : Word
  /-- acl. -/
  acl : Word
  /-- acl_hw_spec. -/
  aclHwSpec : Word

/-- The region that a call translates its arguments to. -/
def Call.region (c : Call) : Option MpuRegion :=
  (translateAcl c.start c.size c.acl c.aclHwSpec).map Prod.fst

/-- The region of a call is not the last one of the address space. -/
def Call.InMemory (c : Call) : Prop :=
  ∀ bits ∈ roundedBits c.size c.acl, c.start.toNat+2^bits ≠ 2^32

/-- Take a call. -/
def step (boxCount : ℕ) (t : Table) (c : Call) : Option Table :=
  (vmpuRegionAddStaticAcl boxCount c.boxId c.start c.size c.acl c.aclHwSpec t).map Prod.snd

/-- The table before the first call. -/
def emptyTable : Table := ⟨0, fun _ => ⟨0, 0, 0, 0⟩, fun _ => ⟨none, 0⟩⟩

/-- The regions that calls add for a box, in order. -/
def added (calls : List Call) (boxId : ℕ) : List MpuRegion :=
  calls.filterMap fun c => if c.boxId = boxId then c.region else none

/-- A table has the regions of a sequence of calls in slices that are apart,
and its lookup finds the first region of a box that contains an address. -/
structure Separated (calls : List Call) (t : Table) : Prop where
  /-- The slice of a box has the regions that were added for it in order. -/
  regions : ∀ b, boxRegions t b = added calls b
  /-- No entry is in two slices. -/
  apart : ∀ b b', b ≠ b' → Disjoint (slice t b) (slice t b')
  /-- The slices are inside of the table. -/
  inside : ∀ b, ∀ i ∈ slice t b, i < mpuAclCount
  /-- The lookup returns the first region that contains an address. -/
  find : ∀ b address, vmpuRegionFindForAddress t b address =
    ((added calls b).findIdx? (contains address)).map (t.firstIndex b+·)

/-- What holds after a sequence of calls, wherever its regions end. -/
structure Recorded (calls : List Call) (t : Table) : Prop where
  /-- The slices are apart. -/
  sliced : Sliced t
  /-- The entries in use are those with a configuration. -/
  used : ∀ i, (t.mpuRegion i).config ≠ 0 ↔ i < t.mpuRegionCount
  /-- The table has no more entries than there is space for. -/
  count : t.mpuRegionCount ≤ mpuAclCount
  /-- The slices have the regions of their boxes. -/
  regions : ∀ b, boxRegions t b = added calls b

section Runs

variable {boxCount boxId : ℕ} {t t' : Table} {c : Call} {calls done : List Call}
  {region : MpuRegion}

theorem recorded_empty : Recorded [] emptyTable where
  sliced := {
    empty := fun _ _ => rfl
    bound := fun _ => le_rfl
    apart := fun b b' _ => by
      rw [slice_eq_empty emptyTable b rfl]
      exact Finset.disjoint_empty_left _ }
  used i := by simp [emptyTable]
  count := Nat.zero_le _
  regions _ := rfl

/-- Every region is enabled. -/
theorem region_config_ne (h : c.region = some region) : region.config ≠ 0 := by
  obtain ⟨⟨region, returned⟩, htranslate, rfl⟩ := Option.map_eq_some_iff.mp h
  obtain ⟨bits, config, -, -, -, -, rfl⟩ := translateAcl_spec htranslate
  intro hzero
  have hbit : (attributes config bits c.aclHwSpec).getLsbD 0 = true := by
    simp [attributes, rasrEnable]
  rw [show attributes config bits c.aclHwSpec = 0 from hzero] at hbit
  exact absurd hbit (by decide)

/-- What a call that does not halt has found and done. -/
theorem step_spec (h : step boxCount t c = some t') :
    ∃ region, c.region = some region ∧ t.mpuRegionCount < mpuAclCount ∧
      (t.mpuRegion (t.nextIndex c.boxId)).config = 0 ∧ t' = t.store c.boxId region := by
  obtain ⟨⟨rounded, added⟩, hadd, rfl⟩ := Option.map_eq_some_iff.mp h
  unfold vmpuRegionAddStaticAcl at hadd
  split_ifs at hadd with hfull hbox hused
  obtain ⟨⟨region, size⟩, htranslate, hadd⟩ := Option.map_eq_some_iff.mp hadd
  obtain ⟨-, rfl⟩ := Prod.mk.inj hadd
  refine ⟨region, ?_, not_le.mp hfull, not_not.mp hused, rfl⟩
  rw [Call.region, htranslate]
  rfl

theorem added_append (calls : List Call) (c : Call) (boxId : ℕ) :
    added (calls ++ [c]) boxId =
      added calls boxId ++ (if c.boxId = boxId then c.region else none).toList := by
  rw [added, List.filterMap_append, added]
  rfl

/-- A call that does not halt has found a free entry, which is the end of the
table, since the entries below are in use. -/
theorem Recorded.step (h : Recorded done t) (hs : step boxCount t c = some t') :
    Recorded (done ++ [c]) t' := by
  obtain ⟨region, hregion, hfull, hfree, rfl⟩ := step_spec hs
  have hend : t.nextIndex c.boxId = t.mpuRegionCount := by
    have hge : ¬t.nextIndex c.boxId < t.mpuRegionCount := fun hlt => (h.used _).mpr hlt hfree
    have hle := h.sliced.bound c.boxId
    omega
  refine ⟨h.sliced.store hend region, fun i => ?_, hfull, fun b => ?_⟩
  · have hcount : (t.store c.boxId region).mpuRegionCount = t.mpuRegionCount+1 := rfl
    have htable : (t.store c.boxId region).mpuRegion =
        Function.update t.mpuRegion t.mpuRegionCount region := by
      rw [← hend]
      rfl
    rw [hcount, htable]
    by_cases hi : i = t.mpuRegionCount
    · subst hi
      rw [Function.update_self]
      exact ⟨fun _ => Nat.lt_succ_self _, fun _ => region_config_ne hregion⟩
    · rw [Function.update_of_ne hi, h.used]
      omega
  · rw [added_append, ← h.regions b]
    by_cases hbox : c.boxId = b
    · subst hbox
      rw [if_pos rfl, hregion, boxRegions_store_self]
      rfl
    · rw [if_neg hbox, Option.toList_none, List.append_nil]
      refine boxRegions_store_of_ne (Ne.symm hbox) (h.sliced.empty b) ?_ region
      rw [hend]
      exact h.sliced.count_notMem b

theorem Recorded.exec (h : Recorded done t)
    (he : exec (AclSlices.step boxCount) calls t = some t') : Recorded (done ++ calls) t' := by
  induction calls generalizing done t with
  | nil =>
    obtain rfl := Option.some.inj he
    rwa [List.append_nil]
  | cons c calls ih =>
    obtain ⟨s, hs, ht⟩ := Option.bind_eq_some_iff.mp he
    have hrest := ih (h.step hs) ht
    rwa [List.append_assoc] at hrest

/-- Every sequence of calls keeps the slices. -/
theorem recorded_of_exec (he : Execution.exec (step boxCount) calls emptyTable = some t) :
    Recorded calls t := recorded_empty.exec he

/-- Every call of a sequence that does not halt has a region. -/
theorem region_of_exec (he : Execution.exec (step boxCount) calls t = some t') (hc : c ∈ calls) :
    ∃ region, c.region = some region := by
  induction calls generalizing t with
  | nil => exact absurd hc List.not_mem_nil
  | cons first calls ih =>
    obtain ⟨s, hs, ht⟩ := Option.bind_eq_some_iff.mp he
    rcases List.mem_cons.mp hc with rfl | hmem
    · obtain ⟨region, hregion, -⟩ := step_spec hs
      exact ⟨region, hregion⟩
    · exact ih ht hmem

theorem mem_added_iff : region ∈ added calls boxId ↔
    ∃ c ∈ calls, c.boxId = boxId ∧ c.region = some region := by
  rw [added, List.mem_filterMap]
  refine exists_congr fun c => and_congr_right fun _ => ?_
  split_ifs with hbox <;> simp [hbox]

end Runs

/-! ## The ends of regions -/

section Ends

variable {boxCount boxId : ℕ} {t : Table} {c : Call} {calls : List Call} {region : MpuRegion}

/-- The bytes of a region start at a multiple of their number. -/
theorem regionEnd_eq (h : c.region = some region) : ∃ bits, roundedBits c.size c.acl = some bits ∧
    region.start = c.start ∧ regionEnd region = c.start.toNat+2^bits ∧
    regionEnd region ≤ 2^32 ∧ region.ends.toNat = regionEnd region%2^32 := by
  obtain ⟨⟨region, returned⟩, htranslate, rfl⟩ := Option.map_eq_some_iff.mp h
  obtain ⟨bits, config, hbits, -, hdvd, -, rfl⟩ := translateAcl_spec htranslate
  have hlt := (roundedBits_range hbits).2
  have hone := one_shiftLeft_toNat hlt
  have hend : regionEnd ⟨c.start, c.start+(1 : Word) <<< bits, attributes config bits c.aclHwSpec,
      c.acl⟩ = c.start.toNat+2^bits := by
    rw [regionEnd, BitVec.add_comm, BitVec.add_sub_cancel, hone]
  refine ⟨bits, hbits, rfl, hend, ?_, ?_⟩
  · obtain ⟨k, hk⟩ := hdvd
    have hword : (2 : ℕ)^32 = 2^bits*2^(32-bits) := by
      rw [← Nat.pow_add, Nat.add_sub_cancel' hlt.le]
    have hstart : c.start.toNat < 2^32 := c.start.isLt
    rw [hend]
    rw [hk, hword] at hstart ⊢
    have hk' : k+1 ≤ 2^(32-bits) := Nat.lt_of_mul_lt_mul_left hstart
    calc 2^bits*k+2^bits = 2^bits*(k+1) := (Nat.mul_succ _ _).symm
      _ ≤ 2^bits*2^(32-bits) := Nat.mul_le_mul_left _ hk'
  · rw [hend, BitVec.toNat_add, hone]

/-- The bytes of a region are the addresses that the unit matches with it. -/
theorem covers_eq_contains (h : c.region = some region) (address : Word) :
    (registers region).covers address = contains address region := by
  obtain ⟨⟨translated, returned⟩, htranslate, hfirst⟩ := Option.map_eq_some_iff.mp h
  obtain rfl : translated = region := hfirst
  obtain ⟨bits, config, hbits, hconfig, hdvd, -, rfl⟩ := translateAcl_spec htranslate
  obtain ⟨hlow, hhigh⟩ := roundedBits_range hbits
  have hbytes : (registers ⟨c.start, c.start+(1 : Word) <<< bits,
      attributes config bits c.aclHwSpec, c.acl⟩).bytes = 2^bits :=
    attributes_bytes hconfig hlow hhigh c.start c.aclHwSpec
  obtain ⟨bits', hbits', -, hend, -, -⟩ := regionEnd_eq h
  obtain rfl := Option.some.inj (hbits.symm.trans hbits')
  rw [Bool.eq_iff_iff, contains, hend, Bool.and_eq_true, decide_eq_true_eq, decide_eq_true_eq]
  rw [covers_iff (hbytes ▸ hdvd) (hbytes ▸ Nat.two_pow_pos _), hbytes]
  rfl

/-- A region below the end of memory has its bytes between its addresses. -/
theorem inRange_eq_contains (h : c.region = some region) (hmemory : c.InMemory) (address : Word) :
    inRange address region = contains address region := by
  obtain ⟨bits, hbits, -, hend, hle, hends⟩ := regionEnd_eq h
  have hne : regionEnd region ≠ 2^32 := hend ▸ hmemory bits hbits
  rw [Nat.mod_eq_of_lt (lt_of_le_of_ne hle hne)] at hends
  rw [inRange, contains, ← hends]
  rfl

/-- A region up to the end of memory has the last byte, and has no address. -/
theorem contains_last (h : c.region = some region) (hmemory : ¬c.InMemory) :
    contains (BitVec.allOnes 32) region = true := by
  obtain ⟨bits, hbits, hstart, hend, -, -⟩ := regionEnd_eq h
  have hlast : c.start.toNat+2^bits = 2^32 := by
    by_contra hne
    refine hmemory fun bits' hbits' => ?_
    obtain rfl := Option.some.inj (hbits.symm.trans hbits')
    exact hne
  have hlt : c.start.toNat < 2^32 := c.start.isLt
  have hones : (BitVec.allOnes 32).toNat = 2^32-1 := rfl
  rw [contains, hstart, hend, hlast, hones, Bool.and_eq_true, decide_eq_true_eq, decide_eq_true_eq]
  omega

theorem inRange_last (region : MpuRegion) : inRange (BitVec.allOnes 32) region = false := by
  have hle : region.ends ≤ BitVec.allOnes 32 := Nat.le_of_lt_succ region.ends.isLt
  rw [inRange, decide_eq_false (BitVec.not_lt.mpr hle), Bool.and_false]

theorem findIdx?_congr {α : Type} {p q : α → Bool} {values : List α}
    (h : ∀ value ∈ values, p value = q value) : values.findIdx? p = values.findIdx? q := by
  induction values with
  | nil => rfl
  | cons value values ih =>
    rw [List.findIdx?_cons, List.findIdx?_cons, h value List.mem_cons_self,
      ih fun other hother => h other (List.mem_cons_of_mem _ hother)]

/-- The upper half of the peripherals, read and written by everyone. -/
def lastRegion : Call where
  boxId := 0
  start := 0xE0000000
  size := 0x20000000
  acl := taclUread ||| taclUwrite ||| taclSread ||| taclSwrite
  aclHwSpec := 0

/-- One region for box 1, and two for box 2. -/
def twoBoxes : List Call :=
  [⟨1, 0x20000000, 0x400, tacldefStack, 0⟩, ⟨2, 0x20000400, 0x400, tacldefStack, 0⟩,
    ⟨2, 0x20000800, 0x100, tacldefStack, 0⟩]

end Ends

end Uvisor.AclSlices
