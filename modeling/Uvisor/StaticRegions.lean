import Uvisor.KinetisMpu
import Uvisor.SauConfiguration

/-!
# Static regions that are rejected

The call that sets a static region translates the access rights into a region
and writes that to its slot. A translation that fails reports zero and leaves
the region as it was, uninitialised on the stack of the caller. The slot is
written all the same, and so is its priority. A missing result means that the
system halts.
-/

namespace Uvisor.StaticRegions

open AlignedWords (and_not_of_and_eq_zero)
open ArmMpu (Word MpuRegion taclSizeRoundUp taclSizeRoundDown)
open KinetisMpu (roundedSize regionRoundDown)
open SauBuffers SauPriority SauConfiguration

/-! ## Statement -/

section Statement

variable {σ ρ : Type}

/-- What can be seen of a memory protection unit. -/
structure View (σ ρ : Type) where
  /-- The registers. -/
  registers : σ → ρ
  /-- The priorities of the slots. -/
  priorities : σ → ℕ → ℕ
  /-- A slot holds exactly a region. -/
  holds : σ → ℕ → MpuRegion → Prop

/-- Nothing can be told apart. -/
def View.Same (view : View σ ρ) (s s' : σ) : Prop :=
  view.registers s' = view.registers s ∧ view.priorities s' = view.priorities s

/-- A call that reports zero has changed nothing, and one that reports a size
has loaded the region of that size. -/
structure Atomic (view : View σ ρ) (translated : Option (MpuRegion × Word)) (index : ℕ)
    (rounded : Word) (s s' : σ) : Prop where
  /-- Nothing has changed. -/
  rejected : rounded = 0 → view.Same s s'
  /-- The slot holds the translated region. -/
  accepted : rounded ≠ 0 → ∃ region,
    translated = some (region, rounded) ∧ view.holds s' index region

/-- A call that writes what has been translated, or else what was on the stack,
is atomic exactly if there is a size to report, or the same was there before. -/
theorem atomic_iff (view : View σ ρ) (program : MpuRegion → σ)
    {translated : Option (MpuRegion × Word)} {index : ℕ} {s : σ} {uninitialised : MpuRegion}
    (hholds : ∀ region rounded, translated = some (region, rounded) →
      view.holds (program region) index region) :
    Atomic view translated index ((translated.map Prod.snd).getD 0) s
        (program ((translated.map Prod.fst).getD uninitialised)) ↔
      (∃ region rounded, translated = some (region, rounded) ∧ rounded ≠ 0) ∨
        view.Same s (program ((translated.map Prod.fst).getD uninitialised)) := by
  constructor
  · intro h
    by_cases hzero : (translated.map Prod.snd).getD 0 = 0
    · exact .inr (h.rejected hzero)
    · obtain ⟨region, htranslated, -⟩ := h.accepted hzero
      exact .inl ⟨region, _, htranslated, hzero⟩
  · rintro (⟨region, rounded, htranslated, hne⟩ | hsame)
    · subst htranslated
      exact ⟨fun hzero => absurd hzero hne, fun _ => ⟨region, rfl, hholds region rounded rfl⟩⟩
    · refine ⟨fun _ => hsame, fun hne => ?_⟩
      cases htranslated : translated with
      | none =>
        rw [htranslated] at hne
        exact absurd rfl hne
      | some found => exact ⟨found.1, rfl, hholds found.1 found.2 htranslated⟩

end Statement

/-- The start is aligned, and the size rounded as the access rights allow is not
zero. -/
def Programmable (start size acl : Word) : Prop :=
  32 ∣ start.toNat ∧
    if 32 ∣ size.toNat then size ≠ 0
    else if acl &&& taclSizeRoundDown ≠ 0 then 32 ≤ size.toNat
    else acl &&& taclSizeRoundUp ≠ 0 ∧ size.toNat ≤ 2^32-32

/-! ## Translation -/

section Translation

variable {start size acl aclHwSpec : Word}

theorem regionRoundDown_eq_zero_iff (x : Word) : regionRoundDown x = 0 ↔ x.toNat < 32 := by
  rw [← BitVec.toNat_inj, regionRoundDown_toNat]
  change x.toNat/32*32 = 0 ↔ _
  omega

/-- The rounded size is not zero. -/
theorem programmable_iff : Programmable start size acl ↔
    start%32 = 0 ∧ ∃ rounded, roundedSize size acl = some rounded ∧ rounded ≠ 0 := by
  unfold Programmable roundedSize
  simp only [Nat.dvd_iff_mod_eq_zero, ← mod_eq_zero_iff]
  refine and_congr_right fun _ => ?_
  split_ifs with hfull hdown hup
  · simp
  · have hzero := regionRoundDown_eq_zero_iff size
    simp only [Option.some.injEq, exists_eq_left', ne_eq, hzero, not_lt]
  · have hzero := regionRoundDown_eq_zero_iff (size+31)
    have hlt := size.isLt
    have hfull' := mt (mod_eq_zero_iff size).mpr hfull
    have hsum : (size+31).toNat = (size.toNat+31)%2^32 := BitVec.toNat_add _ _
    rw [hsum] at hzero
    simp only [Option.some.injEq, exists_eq_left', ne_eq, KinetisMpu.regionRoundUp, hzero, hup,
      not_false_eq_true, true_and]
    omega
  · exact iff_of_false (fun h => hup h.1) (by simp)

/-- A translation of either port gives a size that is not zero. -/
theorem translates_iff (region : Word → MpuRegion) :
    (∃ found rounded, ((roundedSize size acl).bind fun size =>
        if start%32 ≠ 0 then none else some (region size, size)) = some (found, rounded) ∧
      rounded ≠ 0) ↔ Programmable start size acl := by
  rw [programmable_iff]
  constructor
  · rintro ⟨found, rounded, h, hne⟩
    obtain ⟨full, hfull, h⟩ := Option.bind_eq_some_iff.mp h
    split_ifs at h with hstart
    obtain ⟨-, rfl⟩ := Prod.mk.inj (Option.some.inj h)
    exact ⟨not_not.mp hstart, full, hfull, hne⟩
  · rintro ⟨hstart, full, hfull, hne⟩
    rw [hfull, Option.bind_some, if_neg (not_not.mpr hstart)]
    exact ⟨_, full, rfl, hne⟩

end Translation

/-! ## ARMv8-M -/

section Sau

variable {index : ℕ} {start size acl aclHwSpec rounded : Word} {uninitialised : MpuRegion}
  {c c' : Config}

/-- The unit on ARMv8-M. Both attributes of a region are held by its slot. -/
def sauView : View Config ArmSau.Sau where
  registers := fun c => c.unit.sau
  priorities := fun c => c.unit.mpuPriority
  holds := fun c index region =>
    Holds (c.unit.sau.regions index) region ∧
      (c.unit.sau.regions index).rlar &&& 0x3 = region.config

/-- The slot is selected and has been set to a region before. -/
structure SauSet (c : Config) (index : ℕ) (region : MpuRegion) : Prop where
  /-- The slot is selected. -/
  selected : c.unit.sau.rnr = index
  /-- It has the region. -/
  region : c.unit.sau.regions index = programmed region
  /-- It has the highest priority. -/
  priority : c.unit.mpuPriority index = 255

/-- What is written to a slot. -/
def sauWritten (start size acl aclHwSpec : Word) (uninitialised : MpuRegion) : MpuRegion :=
  ((vmpuRegionTranslateAcl start size acl aclHwSpec).map Prod.fst).getD uninitialised

theorem sau_translates_iff :
    (∃ region rounded, vmpuRegionTranslateAcl start size acl aclHwSpec = some (region, rounded) ∧
      rounded ≠ 0) ↔ Programmable start size acl :=
  translates_iff fun size => ⟨start, start+size, vmpuMapAcl acl ||| (aclHwSpec &&& sauRlarNsc), acl⟩

/-- A slot that is set to what it has does not change. -/
theorem sau_same_iff (region : MpuRegion) :
    sauView.Same c {c with unit := ArmSau.vmpuSauAddRegion region index 255 c.unit} ↔
      SauSet c index region := by
  have hregisters : (ArmSau.vmpuSauAddRegion region index 255 c.unit).sau = c.unit.sau ↔
      c.unit.sau.rnr = index ∧ c.unit.sau.regions index = programmed region := by
    have hregions := vmpuSauAddRegion_regions region index 255 c.unit
    have hrnr : (ArmSau.vmpuSauAddRegion region index 255 c.unit).sau.rnr = index := rfl
    constructor
    · intro h
      rw [h] at hregions hrnr
      exact ⟨hrnr, (congrFun hregions index).trans (Function.update_self _ _ _)⟩
    · rintro ⟨hselected, hregion⟩
      rw [← hregion, Function.update_eq_self] at hregions
      calc (ArmSau.vmpuSauAddRegion region index 255 c.unit).sau
        _ = ⟨index, c.unit.sau.regions⟩ := congrArg (ArmSau.Sau.mk index) hregions
        _ = c.unit.sau := by rw [← hselected]
  have hpriorities : Function.update c.unit.mpuPriority index 255 = c.unit.mpuPriority ↔
      c.unit.mpuPriority index = 255 := Function.update_eq_self_iff.trans eq_comm
  refine (and_congr hregisters hpriorities).trans ⟨?_, ?_⟩
  · rintro ⟨⟨hselected, hregion⟩, hpriority⟩
    exact ⟨hselected, hregion, hpriority⟩
  · rintro ⟨hselected, hregion, hpriority⟩
    exact ⟨⟨hselected, hregion⟩, hpriority⟩

/-- On ARMv8-M. -/
theorem sau_atomic_iff
    (h : SauConfiguration.vmpuMpuSetStaticAcl index start size acl aclHwSpec uninitialised c =
      some (rounded, c')) :
    Atomic sauView (vmpuRegionTranslateAcl start size acl aclHwSpec) index rounded c c' ↔
      Programmable start size acl ∨
        SauSet c index (sauWritten start size acl aclHwSpec uninitialised) := by
  unfold SauConfiguration.vmpuMpuSetStaticAcl at h
  split_ifs at h with hindex
  obtain ⟨rfl, rfl⟩ := Prod.mk.inj (Option.some.inj h)
  rw [← sau_same_iff, ← sau_translates_iff]
  refine atomic_iff sauView
    (fun region => {c with unit := ArmSau.vmpuSauAddRegion region index 255 c.unit})
    fun region rounded htranslate => ?_
  obtain ⟨hstart, hends, hconfig⟩ := vmpuRegionTranslateAcl_spec htranslate
  change Holds ((ArmSau.vmpuSauAddRegion region index 255 c.unit).sau.regions index) region ∧
    ((ArmSau.vmpuSauAddRegion region index 255 c.unit).sau.regions index).rlar &&& 0x3 =
      region.config
  rw [vmpuSauAddRegion_regions, Function.update_self]
  have hflags : (programmed region).rlar &&& 0x3 = region.config &&& 0x3 :=
    flag_read_back (by decide) (by decide)
  refine ⟨holds_programmed hstart hends hconfig, hflags.trans ?_⟩
  have hmask := and_not_of_and_eq_zero hconfig
  rw [BitVec.not_not] at hmask
  exact hmask

end Sau

/-! ## Kinetis -/

section Kinetis

variable {index : ℕ} {start size acl aclHwSpec rounded : Word} {uninitialised : MpuRegion}
  {s s' : KinetisMpu.State}

/-- The unit on Kinetis. A slot that holds a region is valid. -/
def kinetisView : View KinetisMpu.State (ℕ → KinetisMpu.Descriptor) where
  registers := fun s => s.words
  priorities := fun s => s.mpuPriority
  holds := fun s index region => s.words index = ⟨region.start, region.ends, region.config, 1⟩

/-- The slot has been set to a region before. -/
structure KinetisSet (s : KinetisMpu.State) (index : ℕ) (region : MpuRegion) : Prop where
  /-- It has the region. -/
  region : s.words index = KinetisMpu.descriptor region
  /-- It has the highest priority. -/
  priority : s.mpuPriority index = 255

/-- What is written to a slot. -/
def kinetisWritten (start size acl aclHwSpec : Word) (uninitialised : MpuRegion) : MpuRegion :=
  ((KinetisMpu.vmpuRegionTranslateAcl start size acl aclHwSpec).map Prod.fst).getD uninitialised

theorem kinetis_translates_iff :
    (∃ region rounded, KinetisMpu.vmpuRegionTranslateAcl start size acl aclHwSpec =
      some (region, rounded) ∧ rounded ≠ 0) ↔ Programmable start size acl :=
  translates_iff fun size => ⟨start, start+size, KinetisMpu.vmpuMapAcl acl aclHwSpec, acl⟩

theorem kinetis_same_iff (region : MpuRegion) :
    kinetisView.Same s (KinetisMpu.programSlot .setStaticAcl region index 255 s) ↔
      KinetisSet s index region := by
  have hregisters : Function.update s.words index (KinetisMpu.descriptor region) = s.words ↔
      s.words index = KinetisMpu.descriptor region := Function.update_eq_self_iff.trans eq_comm
  have hpriorities : Function.update s.mpuPriority index 255 = s.mpuPriority ↔
      s.mpuPriority index = 255 := Function.update_eq_self_iff.trans eq_comm
  refine (and_congr hregisters hpriorities).trans ⟨?_, ?_⟩
  · rintro ⟨hregion, hpriority⟩
    exact ⟨hregion, hpriority⟩
  · rintro ⟨hregion, hpriority⟩
    exact ⟨hregion, hpriority⟩

/-- On Kinetis. -/
theorem kinetis_atomic_iff
    (h : KinetisMpu.vmpuMpuSetStaticAcl index start size acl aclHwSpec uninitialised s =
      some (rounded, s')) :
    Atomic kinetisView (KinetisMpu.vmpuRegionTranslateAcl start size acl aclHwSpec) index rounded
        s s' ↔
      Programmable start size acl ∨
        KinetisSet s index (kinetisWritten start size acl aclHwSpec uninitialised) := by
  unfold KinetisMpu.vmpuMpuSetStaticAcl at h
  split_ifs at h with hindex
  obtain ⟨rfl, rfl⟩ := Prod.mk.inj (Option.some.inj h)
  rw [← kinetis_same_iff, ← kinetis_translates_iff]
  exact atomic_iff kinetisView
    (fun region => KinetisMpu.programSlot .setStaticAcl region index 255 s)
    fun region rounded htranslate => Function.update_self _ _ _

end Kinetis

/-! ## Both ports -/

/-- On both ports, a static region that is rejected changes nothing, and one that
is accepted is held by its slot, exactly if the access rights can be translated
to a size that is not zero, or the slot had been set to what is written. -/
theorem setStaticAcl_atomic_iff (index : ℕ) (start size acl aclHwSpec : Word)
    (uninitialised : MpuRegion) :
    (∀ c rounded c',
      SauConfiguration.vmpuMpuSetStaticAcl index start size acl aclHwSpec uninitialised c =
        some (rounded, c') →
      (Atomic sauView (vmpuRegionTranslateAcl start size acl aclHwSpec) index rounded c c' ↔
        Programmable start size acl ∨
          SauSet c index (sauWritten start size acl aclHwSpec uninitialised))) ∧
    ∀ s rounded s',
      KinetisMpu.vmpuMpuSetStaticAcl index start size acl aclHwSpec uninitialised s =
        some (rounded, s') →
      (Atomic kinetisView (KinetisMpu.vmpuRegionTranslateAcl start size acl aclHwSpec) index
          rounded s s' ↔
        Programmable start size acl ∨
          KinetisSet s index (kinetisWritten start size acl aclHwSpec uninitialised)) :=
  ⟨fun _ _ _ => sau_atomic_iff, fun _ _ _ => kinetis_atomic_iff⟩

/-- Nothing has been loaded on Kinetis. -/
def blankUnit : KinetisMpu.State :=
  ⟨0, fun _ => ⟨0, 0, 0, 0⟩, KinetisMpu.regionsStatic, fun _ => 0,
    unprogrammed.config.unit.alloc, []⟩

/-- An aligned region of 64 KiB is held by its slot. -/
theorem fullRegion_atomic :
    (∃ c', SauConfiguration.vmpuMpuSetStaticAcl 2 0x20010000 0x10000 0x0807 0 ⟨0, 0, 0, 0⟩
        unprogrammed.config = some (0x10000, c') ∧
      Atomic sauView (vmpuRegionTranslateAcl 0x20010000 0x10000 0x0807 0) 2 0x10000
        unprogrammed.config c') ∧
    ∃ s', KinetisMpu.vmpuMpuSetStaticAcl 2 0x20010000 0x10000 0x0807 0 ⟨0, 0, 0, 0⟩ blankUnit =
        some (0x10000, s') ∧
      Atomic kinetisView (KinetisMpu.vmpuRegionTranslateAcl 0x20010000 0x10000 0x0807 0) 2 0x10000
        blankUnit s' := by
  obtain ⟨hsau, hkinetis⟩ :=
    setStaticAcl_atomic_iff 2 0x20010000 0x10000 0x0807 0 ⟨0, 0, 0, 0⟩
  have hprogrammable : Programmable 0x20010000 0x10000 0x0807 := by
    unfold Programmable
    decide
  exact ⟨⟨_, rfl, (hsau unprogrammed.config _ _ rfl).mpr (.inl hprogrammable)⟩,
    ⟨_, rfl, (hkinetis blankUnit _ _ rfl).mpr (.inl hprogrammable)⟩⟩

/-- A region whose start is not aligned is rejected, and its slot is open for all
of memory on ARMv8-M and valid on Kinetis, with what was on the stack. -/
theorem misaligned_not_atomic :
    (∃ c', SauConfiguration.vmpuMpuSetStaticAcl 2 0x20010010 0x10000 0x0807 0 ⟨0, 0, 1, 0⟩
        unprogrammed.config = some (0, c') ∧
      Holds (c'.unit.sau.regions 2) ⟨0, 0, 1, 0⟩ ∧
      ¬Atomic sauView (vmpuRegionTranslateAcl 0x20010010 0x10000 0x0807 0) 2 0
        unprogrammed.config c') ∧
    ∃ s', KinetisMpu.vmpuMpuSetStaticAcl 2 0x20010010 0x10000 0x0807 0 ⟨0, 0xFFFFFFFF, 0x1F, 0⟩
        blankUnit = some (0, s') ∧
      s'.words 2 = ⟨0, 0xFFFFFFFF, 0x1F, 1⟩ ∧
      ¬Atomic kinetisView (KinetisMpu.vmpuRegionTranslateAcl 0x20010010 0x10000 0x0807 0) 2 0
        blankUnit s' := by
  refine ⟨⟨_, rfl, ⟨by decide, by decide, by decide⟩, fun h => ?_⟩,
    ⟨_, rfl, by decide, fun h => ?_⟩⟩
  · have hpriority := congrFun (h.rejected rfl).2 2
    exact absurd hpriority (by decide)
  · have hpriority := congrFun (h.rejected rfl).2 2
    exact absurd hpriority (by decide)

end Uvisor.StaticRegions
