import Uvisor.ActivePages
import Uvisor.ArmMpu
import Uvisor.Execution

/-!
# The memory protection unit of Kinetis

The unit has twelve region descriptors. Three are set at boot, the others are
loaded in a round robin with priorities that tests a slot before it moves on.
The model records which entries of the priorities and which descriptors are
accessed, also beyond their ends. A missing result means that the system halts.
-/

namespace Uvisor.KinetisMpu

open PageAllocator Execution
open ArmMpu (Word MpuRegion)

/-! ## Access control lists -/

/-- UVISOR_TACL_UACL. -/
def taclUacl : Word := 0x0007

/-- UVISOR_TACL_SACL. -/
def taclSacl : Word := 0x0038

/-- UVISOR_TACL_USER. -/
def taclUser : Word := 0x0800

/-- Map generic access rights to those of the unit. -/
def vmpuMapAcl (acl aclHwSpec : Word) : Word :=
  let perm := if acl &&& taclUser ≠ 0 then acl &&& taclUacl else 0
  let perm := perm ||| (aclHwSpec &&& ~~~(0x3F : Word))
  if (acl &&& taclSacl) >>> 3 = perm then perm ||| 3 <<< 3
  else
    let supervisor := acl &&& taclSacl
    if supervisor = ArmMpu.taclSread ||| ArmMpu.taclSwrite ||| ArmMpu.taclSexecute then
      perm ||| 0 <<< 3
    else if supervisor = ArmMpu.taclSread ||| ArmMpu.taclSexecute then perm ||| 1 <<< 3
    else if supervisor = ArmMpu.taclSread ||| ArmMpu.taclSwrite then perm ||| 2 <<< 3
    else 0

/-- UVISOR_REGION_ROUND_DOWN. -/
def regionRoundDown (size : Word) : Word := size &&& ~~~(0x1F : Word)

/-- UVISOR_REGION_ROUND_UP. -/
def regionRoundUp (size : Word) : Word := regionRoundDown (size+31)

/-- Size of a region in full descriptors. -/
def roundedSize (size acl : Word) : Option Word :=
  if size % 32 = 0 then some size
  else if acl &&& ArmMpu.taclSizeRoundDown ≠ 0 then some (regionRoundDown size)
  else if acl &&& ArmMpu.taclSizeRoundUp ≠ 0 then some (regionRoundUp size)
  else none

/-- A region with the given access rights and its rounded size, if its start is
aligned. -/
def vmpuRegionTranslateAcl (start size acl aclHwSpec : Word) : Option (MpuRegion × Word) :=
  (roundedSize size acl).bind fun size =>
    if start % 32 ≠ 0 then none
    else some (⟨start, start+size, vmpuMapAcl acl aclHwSpec, acl⟩, size)

/-! ## Registers -/

/-- A region descriptor. -/
structure Descriptor where
  /-- STARTADDR. -/
  startAddr : Word
  /-- ENDADDR. -/
  endAddr : Word
  /-- PERMISSIONS. -/
  permissions : Word
  /-- CONTROL, with the valid bit. -/
  control : Word
  deriving DecidableEq

/-- Which function writes a descriptor. -/
inductive Caller where
  | setStaticAcl
  | invalidate
  | push
  deriving DecidableEq

/-- An access to the priorities or to the descriptors. -/
inductive Access where
  /-- Entry of g_mpu_priority. -/
  | priority (index : ℕ)
  /-- Entry of MPU->WORD. -/
  | word (index : ℕ) (caller : Caller)
  deriving DecidableEq

/-- The entry that is accessed. -/
def Access.index : Access → ℕ
  | .priority index => index
  | .word index _ => index

/-- K64F_MPU_REGIONS_STATIC. -/
def regionsStatic : ℕ := 3

/-- K64F_MPU_REGIONS_MAX. -/
def regionsMax : ℕ := 12

/-- Variables of the memory protection. -/
structure State where
  /-- g_active_box. -/
  activeBox : BoxId
  /-- MPU->WORD, and what comes after it. -/
  words : ℕ → Descriptor
  /-- g_mpu_slot. -/
  mpuSlot : ℕ
  /-- g_mpu_priority, and what comes after it. -/
  mpuPriority : ℕ → ℕ
  /-- Variables of the page allocator. -/
  alloc : PageAllocator.State
  /-- What has been accessed so far. -/
  log : List Access

/-- The descriptor of a region. -/
def descriptor (region : MpuRegion) : Descriptor := ⟨region.start, region.ends, region.config, 1⟩

/-- Load a region into a slot. -/
def programSlot (caller : Caller) (region : MpuRegion) (slot priority : ℕ) (s : State) : State :=
  { s with
    words := Function.update s.words slot (descriptor region)
    mpuPriority := Function.update s.mpuPriority slot priority
    log := s.log ++ [.word slot caller, .priority slot] }

/-! ## Loading of regions -/

/-- Set a static region, and report its rounded size. When the access rights
cannot be translated, the region has what was on the stack. -/
def vmpuMpuSetStaticAcl (index : ℕ) (start size acl aclHwSpec : Word) (uninitialised : MpuRegion)
    (s : State) : Option (Word × State) :=
  if regionsStatic ≤ index then none
  else
    let translated := vmpuRegionTranslateAcl start size acl aclHwSpec
    let region := (translated.map Prod.fst).getD uninitialised
    some ((translated.map Prod.snd).getD 0, programSlot .setStaticAcl region index 255 s)

/-- Disable one slot. -/
def invalidateSlot (s : State) (slot : ℕ) : State :=
  { s with
    words := Function.update s.words slot {s.words slot with control := 0}
    mpuPriority := Function.update s.mpuPriority slot 0
    log := s.log ++ [.word slot .invalidate, .priority slot] }

/-- Disable all slots that are not static. -/
def vmpuMpuInvalidate (s : State) : State :=
  (List.range' regionsStatic (regionsMax-regionsStatic)).foldl invalidateSlot
    {s with mpuSlot := regionsStatic}

/-- Increment g_mpu_slot. It wraps around after the number of regions. -/
def nextSlot (slot : ℕ) : ℕ := if regionsMax < slot+1 then regionsStatic else slot+1

/-- Where a search stands. -/
structure Search where
  /-- g_mpu_slot. -/
  slot : ℕ
  /-- viable_slot. -/
  viable : ℕ
  /-- The slot has a lower priority. -/
  found : Bool
  /-- The entries of the priorities that have been read. -/
  reads : List ℕ

/-- One pass of the loop of a search. -/
def searchBody (mpuPriority : ℕ → ℕ) (priority startSlot : ℕ) (st : Search) : Flow Search :=
  let reads := st.reads ++ [st.slot]
  if mpuPriority st.slot < priority then .stop ⟨st.slot, st.viable, true, reads⟩
  else
    let slot := nextSlot st.slot
    if slot ≠ startSlot then .next ⟨slot, st.slot, false, reads⟩
    else .stop ⟨slot, st.slot, false, reads⟩

/-- Where a search begins. -/
def searchStart (startSlot : ℕ) : Search := ⟨startSlot, startSlot, false, []⟩

/-- Search for a slot of lower priority, in one round at most. -/
def search (mpuPriority : ℕ → ℕ) (priority startSlot : ℕ) : Search :=
  (iterate (searchBody mpuPriority priority startSlot) (regionsMax-regionsStatic+1)
    (searchStart startSlot)).getD (searchStart startSlot)

/-- Load a region into a slot of lower priority, or else into the last slot that
was looked at. -/
def vmpuMpuPush (region : MpuRegion) (priority : ℕ) (s : State) : Bool × State :=
  let priority := if priority = 0 then 1 else priority
  let result := search s.mpuPriority priority s.mpuSlot
  let s := {s with mpuSlot := result.slot, log := s.log ++ result.reads.map .priority}
  if result.found then
    (true, {programSlot .push region result.slot priority s with mpuSlot := nextSlot result.slot})
  else (true, programSlot .push region result.viable priority s)

/-- Load a list of regions as long as pushes succeed. -/
def pushWhile (priority : ℕ) : List MpuRegion → State → State
  | [], s => s
  | region :: regions, s =>
    let (more, s) := vmpuMpuPush region priority s
    if more then pushWhile priority regions s else s

/-! ## Context switches and faults -/

/-- The region of a page. -/
def pageRegion (startAddr endAddr : ℕ) : MpuRegion :=
  ⟨BitVec.ofNat 32 startAddr, BitVec.ofNat 32 endAddr, 0x1E, 0⟩

/-- Load the region of a page. -/
def vmpuMemPushPageAclIterator (startAddr endAddr _page : ℕ) (s : State) : Bool × State :=
  vmpuMpuPush (pageRegion startAddr endAddr) 100 s

/-- Load the region of a page that is aligned to descriptors, and report whether
that was possible. -/
def vmpuMemPushPageAcl (startAddr endAddr : ℕ) (s : State) : Bool × State :=
  if startAddr%32 ≠ 0 ∨ endAddr%32 ≠ 0 then (false, s)
  else (true, (vmpuMemPushPageAclIterator startAddr endAddr s.activeBox s).2)

/-- Regions of a box. The system halts if there are none at all. -/
def vmpuRegionGetForBox (regions : BoxId → List MpuRegion) (boxId : BoxId) :
    Option (List MpuRegion) :=
  if ∀ box, regions box = [] then none else some (regions boxId)

/-- Load the regions of all pages of the active box. -/
def pushPages (g : Geometry) (s : State) : State :=
  (pageAllocatorIterateActivePages g s.activeBox s.alloc .forward vmpuMemPushPageAclIterator s).2

/-- Load the regions of the destination of a context switch. -/
def vmpuMemSwitch (regions : BoxId → List MpuRegion) (g : Geometry) (dstBox : BoxId) (s : State) :
    Option State :=
  let s := vmpuMpuInvalidate s
  if dstBox ≠ 0 then
    (vmpuRegionGetForBox regions dstBox).map fun boxRegions =>
      pushPages g (pushWhile 255 boxRegions s)
  else some (pushPages g s)

/-- Try to recover from a fault, and report whether that was possible. -/
def vmpuFaultRecoveryMpu (g : Geometry) (faultAddr : Word) (s : State) : Bool × State :=
  match getActiveRegionForAddress g s.activeBox s.alloc faultAddr.toNat with
  | .ok (startAddr, endAddr, page) =>
    vmpuMemPushPageAcl startAddr endAddr
      {s with alloc := ArmMpu.pageAllocatorRegisterFault g page s.alloc}
  | .error _ => (false, s)

end Uvisor.KinetisMpu
