import Uvisor.ByteMemory
import Uvisor.SauIsolation

/-!
# Accesses on behalf of a box on ARMv8-M

The monitor has to read and write memory that a caller points it to, and must
not do for a box what the box could not do itself. There is no instruction for
that, so it asks the processor about the first and the last 32 bytes that are
touched, recovers from a fault once if it has to, and then accesses the memory
with its own rights. Every byte it touches is one that the active box could
access, and when it gives up nothing has been written.
-/

namespace Uvisor.UnprivAccess

open PageAllocator ArmSau SauBuffers SauPriority BoxIsolation SauIsolation ByteMemory Execution
open AlignedWords (toNat_and_not_low)
open ArmMpu (Word MpuRegion)
open KinetisDescriptors (InPage)

/-! ## The response of the processor -/

/-- TT_RESP_S_Msk. -/
def ttRespS : Word := 1 <<< 22

/-- TT_RESP_NSRW_Msk. -/
def ttRespNsrw : Word := 1 <<< 21

/-- TT_RESP_NSR_Msk. -/
def ttRespNsr : Word := 1 <<< 20

/-- TT_RESP_RW_Msk. -/
def ttRespRw : Word := 1 <<< 19

/-- TT_RESP_R_Msk. -/
def ttRespR : Word := 1 <<< 18

/-- TT_RESP_SRVALID_Msk. -/
def ttRespSrvalid : Word := 1 <<< 17

/-- TT_RESP_SREGION_Msk. -/
def ttRespSregion : Word := 0xFF <<< 8

/-- What the memory protection of the other security state allows. -/
structure Rights where
  /-- Reads. -/
  reads : Word → Bool
  /-- Reads and writes. -/
  writes : Word → Bool

/-- The region that matches an address, if it is the only one. -/
def singleRegion (sau : Sau) (address : Word) : Option ℕ :=
  match (List.range regionsMax).filter fun i => covers (sau.regions i) address with
  | [i] => some i
  | _ => none

/-- A flag of a response. -/
def flag (mask : Word) (set : Bool) : Word := if set then mask else 0

/-- The response of the test target instruction for the other security state. -/
def tta (rights : Rights) (sau : Sau) (address : Word) : Word :=
  let ns : Bool := attribution sau address = .nonSecure
  (match singleRegion sau address with
    | some i => (BitVec.ofNat 32 i <<< 8) ||| ttRespSrvalid
    | none => 0) |||
  flag ttRespS (!ns) ||| flag ttRespNsrw (ns && rights.writes address) |||
  flag ttRespNsr (ns && rights.reads address) ||| flag ttRespRw (rights.writes address) |||
  flag ttRespR (rights.reads address)

/-! ## Tests and accesses -/

/-- The first address of the 32 bytes around an address. -/
def line (address : Word) : Word := address &&& ~~~(0x1F : Word)

/-- What holds at both ends of a range, or nothing if they are not in the same
region. -/
def vmpuUnprivTestRange (tt : Word → Word) (addr size : Word) : Word :=
  let size := if size = 0 then 1 else size
  let mask := ttRespNsrw ||| ttRespNsr ||| ttRespRw ||| ttRespR ||| ttRespS ||| ttRespSrvalid |||
    ttRespSregion
  let testAddrLower := line addr
  let testAddrUpper := line (addr+size-1)
  let responseLower := tt testAddrLower
  if testAddrLower ≠ testAddrUpper then
    let responseUpper := tt testAddrUpper
    if (responseLower ^^^ responseUpper) &&& (ttRespS ||| ttRespSrvalid ||| ttRespSregion) ≠ 0 then 0
    else (responseLower &&& responseUpper) &&& mask
  else responseLower &&& mask

/-- UVISOR_UNPRIV_ACCESS_READ. -/
def uvisorUnprivAccessRead (size : Word) : Word := size

/-- UVISOR_UNPRIV_ACCESS_WRITE. -/
def uvisorUnprivAccessWrite (size : Word) : Word := size ||| 0x80000000

/-- UVISOR_UNPRIV_ACCESS_SIZE. -/
def uvisorUnprivAccessSize (size : Word) : Word := size &&& ~~~(0x80000000 : Word)

/-- The accesses that are supported, with what they return. -/
def accessMemory (addr size data : Word) (mem : Memory 32) : Option (Word × Memory 32) :=
  if size = uvisorUnprivAccessRead 1 then some (read mem addr 1, mem)
  else if size = uvisorUnprivAccessRead 2 then some (read mem addr 2, mem)
  else if size = uvisorUnprivAccessRead 4 then some (read mem addr 4, mem)
  else if size = uvisorUnprivAccessWrite 1 then some (0, write mem addr 1 data)
  else if size = uvisorUnprivAccessWrite 2 then some (0, write mem addr 2 data)
  else if size = uvisorUnprivAccessWrite 4 then some (0, write mem addr 4 data)
  else none

/-- The unit and the memory. -/
structure State where
  /-- Variables of the memory protection. -/
  unit : ArmSau.State
  /-- The memory. -/
  mem : Memory 32

/-- The range may be read and written, and lies in one region. -/
def testPasses (rights : Rights) (sau : Sau) (addr size : Word) : Bool :=
  vmpuUnprivTestRange (tta rights sau) addr (uvisorUnprivAccessSize size) &&&
    (ttRespNsrw ||| ttRespSrvalid) = ttRespNsrw ||| ttRespSrvalid

/-- The loop of an access, with the number of faults that may still be recovered
from. There is no value when the monitor halts. -/
def accessLoop (cfg : Config) (g : Geometry) (rights : Rights) (addr size data : Word) :
    ℕ → State → Option Word × State
  | recoveries, s =>
    if testPasses rights s.unit.sau addr size then
      match accessMemory addr size data s.mem with
      | some (value, mem) => (some value, {s with mem})
      | none => (none, s)
    else
      match recoveries with
      | 0 => (none, s)
      | recoveries+1 =>
        let (recovered, unit) := vmpuFaultRecoveryMpu cfg.regions g addr s.unit
        if recovered then accessLoop cfg g rights addr size data recoveries {s with unit}
        else (none, {s with unit})

/-- vmpu_unpriv_access. The second failure of the test ends the loop. -/
def vmpuUnprivAccess (cfg : Config) (g : Geometry) (rights : Rights) (addr size data : Word)
    (s : State) : Option Word × State :=
  accessLoop cfg g rights addr size data 1 s

/-! ## Lines of 32 bytes -/

section Lines

variable {address addr : Word} {region : SauRegion} {sau : Sau}

theorem line_toNat (address : Word) : (line address).toNat = address.toNat/32*32 :=
  toNat_and_not_low (show (0x1F : Word).toNat = 2^5-1 from rfl)

/-- A region matches an address if and only if it matches the line of it. -/
theorem covers_line : covers region (line address) = covers region address := by
  have hfirst : (regionFirst region).toNat = region.rbar.toNat/32*32 :=
    toNat_and_not_low (show (0x1F : Word).toNat = 2^5-1 from rfl)
  have hlast : (regionLast region).toNat%32 = 31 := by
    have hmask : (regionLast region).toNat%2^5 = 31 := by
      rw [← BitVec.toNat_setWidth]
      have hlow : (regionLast region).setWidth 5 = 31 := by
        rw [regionLast, BitVec.setWidth_or]
        exact BitVec.or_allOnes
      rw [hlow]
      rfl
    exact hmask
  have hle : line address ≤ regionLast region ↔ address ≤ regionLast region := by
    rw [BitVec.le_def, BitVec.le_def, line_toNat]
    omega
  have hge : regionFirst region ≤ line address ↔ regionFirst region ≤ address := by
    rw [BitVec.le_def, BitVec.le_def, line_toNat, hfirst]
    omega
  unfold covers
  rw [decide_eq_decide.mpr hle, decide_eq_decide.mpr hge]

theorem singleRegion_line : singleRegion sau (line address) = singleRegion sau address := by
  unfold singleRegion
  simp only [covers_line]

theorem attribution_line : attribution sau (line address) = attribution sau address := by
  unfold attribution
  simp only [covers_line]

/-- A byte of a short range is in the first or in the last line of it. -/
theorem line_cases {bytes k : ℕ} (hk : k < bytes) (hbytes : bytes ≤ 32) :
    line (addr+BitVec.ofNat 32 k) = line addr ∨
      line (addr+BitVec.ofNat 32 k) = line (addr+BitVec.ofNat 32 bytes-1) := by
  have hlast : (addr+BitVec.ofNat 32 bytes-1).toNat = (addr.toNat+(bytes-1))%2^32 := by
    have hne : BitVec.ofNat 32 bytes ≠ 0 := fun hzero => by
      have hvalue := congrArg BitVec.toNat hzero
      rw [BitVec.toNat_ofNat, Nat.mod_eq_of_lt (by omega)] at hvalue
      change bytes = 0 at hvalue
      omega
    rw [AlignedWords.toNat_add_pred hne, BitVec.toNat_ofNat,
      Nat.mod_eq_of_lt (by omega : bytes < 2^32)]
  have hbyte : (addr+BitVec.ofNat 32 k).toNat = (addr.toNat+k)%2^32 := by
    rw [BitVec.toNat_add, BitVec.toNat_ofNat, Nat.mod_eq_of_lt (by omega : k < 2^32)]
  have hlt := addr.isLt
  rw [← BitVec.toNat_inj, ← BitVec.toNat_inj, line_toNat, line_toNat, line_toNat, hlast, hbyte]
  omega

end Lines

/-! ## The test -/

section Tests

variable {rights : Rights} {sau : Sau} {address addr size : Word} {i : ℕ}

theorem singleRegion_spec (h : singleRegion sau address = some i) :
    i < regionsMax ∧ covers (sau.regions i) address = true := by
  unfold singleRegion at h
  split at h
  · rename_i other hsingle
    obtain rfl := Option.some.inj h
    have hmem : other ∈ (List.range regionsMax).filter
        fun i => covers (sau.regions i) address := by
      rw [hsingle]
      exact List.mem_cons_self
    obtain ⟨hlt, hcovers⟩ := List.mem_filter.mp hmem
    exact ⟨List.mem_range.mp hlt, hcovers⟩
  · cases h

/-- What is not secure lies in a single region. -/
theorem singleRegion_of_nonSecure (h : attribution sau address = .nonSecure) :
    ∃ i, singleRegion sau address = some i := by
  rcases hcovering : (List.range regionsMax).filter fun i => covers (sau.regions i) address with
    _ | ⟨i, _ | ⟨j, rest⟩⟩
  · rw [attribution, hcovering] at h
    cases h
  · exact ⟨i, by rw [singleRegion, hcovering]⟩
  · rw [attribution, hcovering] at h
    cases h

/-- The response about a region with the given properties. -/
def response (single : Option ℕ) (ns reads writes : Bool) : Word :=
  (match single with
    | some i => (BitVec.ofNat 32 i <<< 8) ||| ttRespSrvalid
    | none => 0) |||
  flag ttRespS (!ns) ||| flag ttRespNsrw (ns && writes) ||| flag ttRespNsr (ns && reads) |||
  flag ttRespRw writes ||| flag ttRespR reads

theorem tta_eq (rights : Rights) (sau : Sau) (address : Word) :
    tta rights sau address = response (singleRegion sau address)
      (attribution sau address = .nonSecure) (rights.reads address) (rights.writes address) := rfl

/-- The regions of the unit, or none. -/
def regionOptions : List (Option ℕ) := none :: (List.range regionsMax).map some

theorem singleRegion_mem (sau : Sau) (address : Word) :
    singleRegion sau address ∈ regionOptions := by
  cases h : singleRegion sau address with
  | none => exact List.mem_cons_self
  | some i =>
    have hlt := (singleRegion_spec h).1
    exact List.mem_cons_of_mem _ (List.mem_map.mpr ⟨i, List.mem_range.mpr hlt, rfl⟩)

/-- The two bits that a test asks for. -/
theorem response_passes : ∀ single ∈ regionOptions, ∀ ns reads writes,
    (response single ns reads writes &&& (ttRespNsrw ||| ttRespSrvalid) =
      ttRespNsrw ||| ttRespSrvalid ↔ single.isSome ∧ ns ∧ writes) := by
  decide +kernel

/-- The bits that tell two regions apart. -/
theorem response_region : ∀ single ∈ regionOptions, ∀ other ∈ regionOptions,
    ∀ ns reads writes ns' reads' writes',
      (response single ns reads writes &&& (ttRespS ||| ttRespSrvalid ||| ttRespSregion) =
        response other ns' reads' writes' &&& (ttRespS ||| ttRespSrvalid ||| ttRespSregion) ↔
          single = other ∧ ns = ns') := by
  decide +kernel

/-- Two words both have all bits of a mask. -/
theorem and_and_eq_iff {a b mask : Word} :
    a &&& b &&& mask = mask ↔ a &&& mask = mask ∧ b &&& mask = mask := by
  simp only [BitVec.eq_of_getLsbD_eq_iff, BitVec.getLsbD_and]
  grind

/-- Two words have the same bits of a mask. -/
theorem xor_and_eq_zero_iff {a b mask : Word} :
    (a ^^^ b) &&& mask = 0 ↔ a &&& mask = b &&& mask := by
  simp only [BitVec.eq_of_getLsbD_eq_iff, BitVec.getLsbD_and, BitVec.getLsbD_xor,
    BitVec.ofNat_eq_ofNat, BitVec.getLsbD_zero]
  grind

/-- The range lies in one region, which is not secure and may be written at both
ends. -/
structure OneRegion (rights : Rights) (sau : Sau) (first last : Word) (i : ℕ) : Prop where
  /-- The region of the first byte. -/
  atFirst : singleRegion sau first = some i
  /-- The region of the last byte. -/
  atLast : singleRegion sau last = some i
  /-- It is not secure. -/
  nonSecure : attribution sau first = .nonSecure ∧ attribution sau last = .nonSecure
  /-- It may be written. -/
  writes : rights.writes (line first) = true ∧ rights.writes (line last) = true

/-- What the response about the line of an address says. -/
theorem tta_passes (rights : Rights) (sau : Sau) (address : Word) :
    tta rights sau (line address) &&& (ttRespNsrw ||| ttRespSrvalid) =
      ttRespNsrw ||| ttRespSrvalid ↔
        attribution sau address = .nonSecure ∧ rights.writes (line address) = true := by
  rw [tta_eq, response_passes _ (singleRegion_mem _ _), singleRegion_line, attribution_line,
    decide_eq_true_eq]
  constructor
  · exact fun h => h.2
  · rintro ⟨hns, hwrites⟩
    obtain ⟨i, hi⟩ := singleRegion_of_nonSecure hns
    exact ⟨by rw [hi]; rfl, hns, hwrites⟩

/-- A test passes if and only if the first and the last byte lie in one region
that is not secure, and their lines may be written. -/
theorem testPasses_iff (rights : Rights) (sau : Sau) (addr size : Word) :
    testPasses rights sau addr size = true ↔
      ∃ i, OneRegion rights sau addr (addr+(if uvisorUnprivAccessSize size = 0 then 1
        else uvisorUnprivAccessSize size)-1) i := by
  unfold testPasses vmpuUnprivTestRange
  rw [decide_eq_true_eq]
  dsimp only
  generalize addr+(if uvisorUnprivAccessSize size = 0 then 1 else uvisorUnprivAccessSize size)-1 =
    last
  have hmask : (ttRespNsrw ||| ttRespNsr ||| ttRespRw ||| ttRespR ||| ttRespS ||| ttRespSrvalid |||
      ttRespSregion) &&& (ttRespNsrw ||| ttRespSrvalid) = ttRespNsrw ||| ttRespSrvalid := by decide
  by_cases hlines : line addr = line last
  · rw [if_neg (not_not.mpr hlines), BitVec.and_assoc, hmask, tta_passes]
    have hsingle : singleRegion sau last = singleRegion sau addr := by
      rw [← singleRegion_line, ← hlines, singleRegion_line]
    have hattribution : attribution sau last = attribution sau addr := by
      rw [← attribution_line, ← hlines, attribution_line]
    constructor
    · rintro ⟨hns, hwrites⟩
      obtain ⟨i, hi⟩ := singleRegion_of_nonSecure hns
      exact ⟨i, hi, hsingle.trans hi, ⟨hns, hattribution.trans hns⟩, hwrites, hlines ▸ hwrites⟩
    · rintro ⟨i, h⟩
      exact ⟨h.nonSecure.1, h.writes.1⟩
  · rw [if_pos hlines]
    by_cases hsame : (tta rights sau (line addr) ^^^ tta rights sau (line last)) &&&
        (ttRespS ||| ttRespSrvalid ||| ttRespSregion) = 0
    · rw [if_neg (not_not.mpr hsame), BitVec.and_assoc, hmask, and_and_eq_iff, tta_passes, tta_passes]
      rw [xor_and_eq_zero_iff, tta_eq, tta_eq, response_region _ (singleRegion_mem _ _) _
        (singleRegion_mem _ _), singleRegion_line, singleRegion_line] at hsame
      constructor
      · rintro ⟨⟨hns, hwrites⟩, hns', hwrites'⟩
        obtain ⟨i, hi⟩ := singleRegion_of_nonSecure hns
        exact ⟨i, hi, hsame.1.symm.trans hi, ⟨hns, hns'⟩, hwrites, hwrites'⟩
      · rintro ⟨i, h⟩
        exact ⟨⟨h.nonSecure.1, h.writes.1⟩, h.nonSecure.2, h.writes.2⟩
    · rw [if_pos hsame]
      constructor
      · intro hzero
        exact absurd hzero (by decide)
      · rintro ⟨i, h⟩
        refine absurd ?_ hsame
        rw [xor_and_eq_zero_iff, tta_eq, tta_eq, response_region _ (singleRegion_mem _ _) _
          (singleRegion_mem _ _), singleRegion_line, singleRegion_line, attribution_line,
          attribution_line, h.atFirst, h.atLast, h.nonSecure.1, h.nonSecure.2]
        exact ⟨rfl, rfl⟩

end Tests

/-! ## Accesses -/

section Accesses

variable {cfg : Config} {g : Geometry} {rights : Rights} {addr size data value : Word}
  {s t : State}

/-- The number of bytes of a supported access. -/
def accessBytes (size : Word) : ℕ := (uvisorUnprivAccessSize size).toNat

/-- An access touches as many bytes as its size says, and only writes those. -/
theorem accessMemory_spec {mem mem' : Memory 32}
    (h : accessMemory addr size data mem = some (value, mem')) :
    0 < accessBytes size ∧ accessBytes size ≤ 4 ∧
      ∀ other, accessBytes size ≤ offset addr other → mem' other = mem other := by
  unfold accessMemory at h
  split_ifs at h with h₁ h₂ h₃ h₄ h₅ h₆
  all_goals obtain ⟨-, rfl⟩ := Prod.mk.inj (Option.some.inj h)
  · exact h₁ ▸ ⟨by decide, by decide, fun _ _ => rfl⟩
  · exact h₂ ▸ ⟨by decide, by decide, fun _ _ => rfl⟩
  · exact h₃ ▸ ⟨by decide, by decide, fun _ _ => rfl⟩
  · exact h₄ ▸ ⟨by decide, by decide, fun _ hother => write_of_le hother⟩
  · exact h₅ ▸ ⟨by decide, by decide, fun _ hother => write_of_le hother⟩
  · exact h₆ ▸ ⟨by decide, by decide, fun _ hother => write_of_le hother⟩

/-- A test that has passed is about every byte of a short access. -/
theorem nonSecure_of_passes {sau : Sau} (hpos : 0 < accessBytes size) (hle : accessBytes size ≤ 4)
    (h : testPasses rights sau addr size = true) {k : ℕ} (hk : k < accessBytes size) :
    attribution sau (addr+BitVec.ofNat 32 k) = .nonSecure := by
  obtain ⟨i, h⟩ := (testPasses_iff rights sau addr size).mp h
  have hsize : BitVec.ofNat 32 (accessBytes size) = uvisorUnprivAccessSize size :=
    BitVec.ofNat_toNat _ _
  have hne : uvisorUnprivAccessSize size ≠ 0 := by
    intro hzero
    rw [accessBytes, hzero] at hpos
    exact absurd hpos (by decide)
  rw [if_neg hne, ← hsize] at h
  rw [← attribution_line]
  rcases @line_cases addr _ _ hk (by omega) with hline | hline
  · rw [hline, attribution_line]
    exact h.nonSecure.1
  · rw [hline, attribution_line]
    exact h.nonSecure.2

/-- What the loop of an access does to a run. -/
structure Confined (cfg : Config) (g : Geometry) (addr size data : Word) (r : Run ArmSau.State)
    (mem : Memory 32) (out : Option Word × State) : Prop where
  /-- Nothing happens to the unit but a fault that is recovered from. -/
  reached : Reached cfg g ⟨out.2.unit, r.holder⟩
  /-- The active box is the same. -/
  activeBox : out.2.unit.activeBox = r.unit.activeBox
  /-- When the monitor halts, nothing has been written. -/
  halted : out.1 = none → out.2.mem = mem
  /-- Otherwise the memory has been accessed as asked for. -/
  performed : ∀ value, out.1 = some value → accessMemory addr size data mem = some (value, out.2.mem)
  /-- All bytes are ones that the active box can access. -/
  nonSecure : out.1.isSome = true → ∀ k < accessBytes size,
    attribution out.2.unit.sau (addr+BitVec.ofNat 32 k) = .nonSecure

theorem confined_halted {r : Run ArmSau.State} (h : Reached cfg g r) (mem : Memory 32) :
    Confined cfg g addr size data r mem (none, ⟨r.unit, mem⟩) :=
  ⟨h, rfl, fun _ => rfl, nofun, nofun⟩

/-- One access after a test that has passed. -/
theorem confined_passed {r : Run ArmSau.State} (h : Reached cfg g r) {mem : Memory 32}
    (hpasses : testPasses rights r.unit.sau addr size = true) {out : Option Word × State}
    (hout : out = match accessMemory addr size data mem with
      | some (value, mem) => (some value, ⟨r.unit, mem⟩)
      | none => (none, ⟨r.unit, mem⟩)) : Confined cfg g addr size data r mem out := by
  cases haccess : accessMemory addr size data mem with
  | none =>
    rw [haccess] at hout
    rw [hout]
    exact confined_halted h mem
  | some result =>
    obtain ⟨value, mem'⟩ := result
    rw [haccess] at hout
    rw [hout]
    obtain ⟨hpos, hle, -⟩ := accessMemory_spec haccess
    refine ⟨h, rfl, nofun, ?_, fun _ k hk => nonSecure_of_passes hpos hle hpasses hk⟩
    rintro _ ⟨⟩
    exact haccess

theorem accessLoop_confined {r : Run ArmSau.State} (h : Reached cfg g r) (recoveries : ℕ)
    (mem : Memory 32) :
    Confined cfg g addr size data r mem
      (accessLoop cfg g rights addr size data recoveries ⟨r.unit, mem⟩) := by
  induction recoveries generalizing r with
  | zero =>
    unfold accessLoop
    split
    · rename_i hpasses
      exact confined_passed h hpasses rfl
    · exact confined_halted h mem
  | succ recoveries ih =>
    unfold accessLoop
    split
    · rename_i hpasses
      exact confined_passed h hpasses rfl
    · -- The fault is a step of the run.
      cases hfault : vmpuFaultRecoveryMpu cfg.regions g addr r.unit with
      | mk recovered unit =>
        cases recovered with
        | false =>
          have hsame : unit = r.unit := by
            unfold vmpuFaultRecoveryMpu at hfault
            split at hfault
            · cases hfault
            · split at hfault
              · exact (Prod.mk.inj hfault).2.symm
              · cases hfault
          rw [hsame]
          exact confined_halted h mem
        | true =>
          have hstep : (protection cfg g).fault addr r.unit = some unit := by
            simp [protection, hfault]
          have hnext : Reached cfg g ⟨unit, r.holder⟩ :=
            Reachable.step (a := .fault addr) h nofun (by rw [BoxIsolation.step, hstep]; rfl)
          have hactive := ((protection_lawful cfg (inv_of_reached h).1.wellFormed).fault_frame
            (inv_of_reached h).2.good hstep).2.1
          have hrest := ih hnext
          exact ⟨hrest.reached, hrest.activeBox.trans hactive, hrest.halted, hrest.performed,
            hrest.nonSecure⟩

/-- Without recoveries the unit stays as it is. -/
theorem accessLoop_zero (s : State) :
    (accessLoop cfg g rights addr size data 0 s).2.unit = s.unit := by
  unfold accessLoop
  split
  · cases accessMemory addr size data s.mem <;> rfl
  · rfl

/-- At most one fault is recovered from. -/
theorem vmpuUnprivAccess_unit (s : State) :
    let unit := (vmpuUnprivAccess cfg g rights addr size data s).2.unit
    unit = s.unit ∨ unit = (vmpuFaultRecoveryMpu cfg.regions g addr s.unit).2 := by
  dsimp only
  unfold vmpuUnprivAccess accessLoop
  split
  · left
    cases accessMemory addr size data s.mem <;> rfl
  · right
    dsimp only
    split
    · exact accessLoop_zero _
    · rfl

end Accesses

end Uvisor.UnprivAccess
