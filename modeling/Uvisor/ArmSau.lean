import Uvisor.ActivePages
import Uvisor.ArmMpu
import Uvisor.RoundRobin

/-!
# The security attribution unit of ARMv8-M

The unit has eight regions of any multiple of 32 bytes. Four are set at boot,
the other four are loaded in a round robin with priorities. Here the round
robin takes a further slot when its search has come back to the start. A
missing result means that the code reads a region that does not exist.
-/

namespace Uvisor.ArmSau

open PageAllocator
open ArmMpu (Word MpuRegion)

/-! ## Registers -/

/-- Address registers of one region of the unit. -/
structure SauRegion where
  /-- SAU_RBAR, the base address. -/
  rbar : Word
  /-- SAU_RLAR, the limit address with attributes. -/
  rlar : Word
  deriving DecidableEq

/-- The security attribution unit. -/
structure Sau where
  /-- SAU_RNR, the region that is selected. -/
  rnr : ℕ
  /-- The regions. -/
  regions : ℕ → SauRegion

/-- Write SAU_RNR. -/
def Sau.writeRnr (value : ℕ) (sau : Sau) : Sau := {sau with rnr := value}

/-- Write SAU_RBAR of the selected region. Its low five bits read as zero. -/
def Sau.writeRbar (value : Word) (sau : Sau) : Sau :=
  let written := {sau.regions sau.rnr with rbar := value &&& ~~~(0x1F : Word)}
  {sau with regions := Function.update sau.regions sau.rnr written}

/-- Write SAU_RLAR of the selected region. The bits between the limit and the
attributes read as zero. -/
def Sau.writeRlar (value : Word) (sau : Sau) : Sau :=
  let written := {sau.regions sau.rnr with rlar := value &&& ~~~(0x1C : Word)}
  {sau with regions := Function.update sau.regions sau.rnr written}

/-- SAU_RLAR. -/
def sauRlar (config addr : Word) : Word := config ||| ((addr-1) &&& ~~~((32 : Word)-1))

/-! ## Loading of regions -/

/-- ARMv8M_SAU_REGIONS_STATIC. -/
def regionsStatic : ℕ := 4

/-- ARMv8M_SAU_REGIONS_MAX. -/
def regionsMax : ℕ := 8

/-- Variables of the memory protection. -/
structure State where
  /-- g_active_box. -/
  activeBox : BoxId
  /-- The security attribution unit. -/
  sau : Sau
  /-- g_mpu_slot. -/
  mpuSlot : ℕ
  /-- g_mpu_priority. -/
  mpuPriority : ℕ → ℕ
  /-- Variables of the page allocator. -/
  alloc : PageAllocator.State

/-- Disable one slot. -/
def invalidateSlot (s : State) (slot : ℕ) : State :=
  { s with
    sau := ((s.sau.writeRnr slot).writeRbar 0).writeRlar 0
    mpuPriority := Function.update s.mpuPriority slot 0 }

/-- Disable all slots that are not static. -/
def vmpuMpuInvalidate (s : State) : State :=
  (List.range' regionsStatic (regionsMax-regionsStatic)).foldl invalidateSlot
    {s with mpuSlot := regionsStatic}

/-- Load a region into a slot. -/
def vmpuSauAddRegion (region : MpuRegion) (slot priority : ℕ) (s : State) : State :=
  { s with
    sau := ((s.sau.writeRnr slot).writeRbar region.start).writeRlar
      (sauRlar region.config region.ends)
    mpuPriority := Function.update s.mpuPriority slot priority }

/-- Load a region into the next slot of lower priority. If there is none, the
slot after the start of the search is taken. -/
def vmpuMpuPush (region : MpuRegion) (priority : ℕ) (s : State) : Bool × State :=
  let priority := if priority = 0 then 1 else priority
  let search := RoundRobin.search regionsStatic regionsMax s.mpuPriority priority s.mpuSlot
  if search.found then
    (true, vmpuSauAddRegion region search.slot priority {s with mpuSlot := search.slot})
  else
    let slot := RoundRobin.next regionsStatic regionsMax search.slot
    (true, vmpuSauAddRegion region slot priority {s with mpuSlot := slot})

/-- Load a list of regions as long as pushes succeed. -/
def pushWhile (priority : ℕ) : List MpuRegion → State → State
  | [], s => s
  | region :: regions, s =>
    let (more, s) := vmpuMpuPush region priority s
    if more then pushWhile priority regions s else s

/-! ## Context switches and faults -/

/-- The region of a page. No part of it has access rights of its own. -/
def pageRegion (startAddr endAddr : ℕ) : MpuRegion :=
  ⟨BitVec.ofNat 32 startAddr, BitVec.ofNat 32 endAddr, 1, 0⟩

/-- Load the region of a page. -/
def vmpuMemPushPageAclIterator (startAddr endAddr _page : ℕ) (s : State) : Bool × State :=
  vmpuMpuPush (pageRegion startAddr endAddr) 100 s

/-- Load the regions of all pages of the active box. -/
def pushPages (g : Geometry) (s : State) : State :=
  (pageAllocatorIterateActivePages g s.activeBox s.alloc .forward vmpuMemPushPageAclIterator s).2

/-- Load the regions of the destination of a context switch. A box that is not
box 0 has at least one region, its stack. -/
def vmpuSwitch (regions : BoxId → List MpuRegion) (g : Geometry) (dstBox : BoxId) (s : State) :
    Option State :=
  let s := vmpuMpuInvalidate s
  if dstBox ≠ 0 then
    match regions dstBox with
    | [] => none
    | region :: others => some (pushWhile 2 others (pushPages g (vmpuMpuPush region 255 s).2))
  else some (pushWhile 1 (regions 0) (pushPages g s))

/-- The first region of a box that contains an address. -/
def vmpuRegionFindForAddress (regions : BoxId → List MpuRegion) (boxId : BoxId) (address : Word) :
    Option MpuRegion :=
  (regions boxId).find? fun region => region.start ≤ address && address < region.ends

/-- The region of the active box, or else of box 0, that contains an address. -/
def vmpuFaultFindRegion (regions : BoxId → List MpuRegion) (faultAddr : Word) (s : State) :
    Option MpuRegion :=
  if s.activeBox ≠ 0 then
    (vmpuRegionFindForAddress regions s.activeBox faultAddr).or
      (vmpuRegionFindForAddress regions 0 faultAddr)
  else vmpuRegionFindForAddress regions 0 faultAddr

/-- Try to recover from a fault, and report whether that was possible. -/
def vmpuFaultRecoveryMpu (regions : BoxId → List MpuRegion) (g : Geometry) (faultAddr : Word)
    (s : State) : Bool × State :=
  match getActiveRegionForAddress g s.activeBox s.alloc faultAddr.toNat with
  | .ok (startAddr, endAddr, page) =>
    let s := {s with alloc := ArmMpu.pageAllocatorRegisterFault g page s.alloc}
    (true, (vmpuMemPushPageAclIterator startAddr endAddr s.activeBox s).2)
  | .error _ =>
    match vmpuFaultFindRegion regions faultAddr s with
    | none => (false, s)
    | some region => (true, (vmpuMpuPush region 3 s).2)

end Uvisor.ArmSau
