import Uvisor.PageOperations

/-!
# The memory protection unit of ARMv7-M

The unit has eight regions. Two are set at boot and never changed, the other
six are loaded from the access control lists of the boxes and from the page
heap, in a round robin with priorities. A region covers a power of two of
bytes and has eight subregions that can be disabled one by one. A missing
result means that the system halts or that the code shifts by more than the
width of a word.
-/

namespace Uvisor.ArmMpu

open PageAllocator

/-- A register or an address. -/
abbrev Word := BitVec 32

/-! ## Registers -/

/-- Address and attributes of one region of the unit. -/
structure Region where
  /-- Base address. -/
  address : Word
  /-- MPU_RASR, with access permissions, subregion disable bits, size and the
  enable bit. -/
  rasr : Word

/-- The memory protection unit. -/
structure Mpu where
  /-- MPU_RNR, the region that is selected. -/
  rnr : ℕ
  /-- The regions. -/
  regions : ℕ → Region

/-- MPU_RBAR_VALID_Msk. -/
def rbarValid : Word := 0x10

/-- Write MPU_RBAR. With the valid bit the write selects the region first. -/
def Mpu.writeRbar (value : Word) (m : Mpu) : Mpu :=
  let rnr := if value &&& rbarValid ≠ 0 then (value &&& 0xF).toNat else m.rnr
  let written := {m.regions rnr with address := value &&& ~~~(0x1F : Word)}
  ⟨rnr, Function.update m.regions rnr written⟩

/-- Write MPU_RASR of the selected region. -/
def Mpu.writeRasr (value : Word) (m : Mpu) : Mpu :=
  {m with regions := Function.update m.regions m.rnr {m.regions m.rnr with rasr := value}}

/-- Write MPU_RNR. -/
def Mpu.writeRnr (value : ℕ) (m : Mpu) : Mpu := {m with rnr := value}

/-- The enable bit. -/
def Region.enabled (r : Region) : Bool := r.rasr.getLsbD 0

/-- Size in bytes of a region's subregions, from its size field. -/
def Region.subregionBytes (r : Region) : ℕ := 2^((r.rasr.extractLsb' 1 5).toNat+1)/8

/-- Whether a subregion is not disabled. -/
def Region.subregionEnabled (r : Region) (j : ℕ) : Bool := !r.rasr.getLsbD (8+j)

/-- Address of a subregion. -/
def Region.subregionStart (r : Region) (j : ℕ) : ℕ :=
  (r.address.toNat+j*r.subregionBytes)%2^32

/-! ## Access control lists -/

/-- UVISOR_TACL_UEXECUTE. -/
def taclUexecute : Word := 0x0001
/-- UVISOR_TACL_UWRITE. -/
def taclUwrite : Word := 0x0002
/-- UVISOR_TACL_UREAD. -/
def taclUread : Word := 0x0004
/-- UVISOR_TACL_SEXECUTE. -/
def taclSexecute : Word := 0x0008
/-- UVISOR_TACL_SWRITE. -/
def taclSwrite : Word := 0x0010
/-- UVISOR_TACL_SREAD. -/
def taclSread : Word := 0x0020
/-- UVISOR_TACL_EXECUTE. -/
def taclExecute : Word := taclUexecute ||| taclSexecute
/-- UVISOR_TACL_ACCESS. -/
def taclAccess : Word :=
  taclUread ||| taclUwrite ||| taclUexecute ||| taclSread ||| taclSwrite ||| taclSexecute
/-- UVISOR_TACL_SIZE_ROUND_UP. -/
def taclSizeRoundUp : Word := 0x0080
/-- UVISOR_TACL_SIZE_ROUND_DOWN. -/
def taclSizeRoundDown : Word := 0x0100
/-- UVISOR_TACLDEF_DATA. -/
def tacldefData : Word := taclUread ||| taclUwrite ||| taclSread ||| taclSwrite ||| taclSizeRoundUp

/-- MPU_RASR_AP_PNO_UNO. -/
def rasrApPnoUno : Word := 0x00 <<< 24
/-- MPU_RASR_AP_PRW_UNO. -/
def rasrApPrwUno : Word := 0x01 <<< 24
/-- MPU_RASR_AP_PRW_URO. -/
def rasrApPrwUro : Word := 0x02 <<< 24
/-- MPU_RASR_AP_PRW_URW. -/
def rasrApPrwUrw : Word := 0x03 <<< 24
/-- MPU_RASR_AP_PRO_UNO. -/
def rasrApProUno : Word := 0x05 <<< 24
/-- MPU_RASR_AP_PRO_URO. -/
def rasrApProUro : Word := 0x06 <<< 24
/-- MPU_RASR_XN. -/
def rasrXn : Word := 0x01 <<< 28
/-- MPU_RASR_ENABLE_Msk. -/
def rasrEnable : Word := 1

/-- ARMv7M_MPU_ALIGNMENT_BITS. -/
def alignmentBits : ℕ := 5

/-- A region that is ready to be loaded. -/
structure MpuRegion where
  /-- Start address. -/
  start : Word
  /-- End address. -/
  ends : Word
  /-- Configuration for MPU_RASR. -/
  config : Word
  /-- The access rights it was made from. -/
  acl : Word

/-- Number of significant bits. -/
def vmpuBits (size : Word) : ℕ := if size = 0 then 0 else size.toNat.log2+1

/-- Logarithm of the region size, rounded up. For an empty region the shift is
not defined. -/
def vmpuRegionBits (size : Word) : Option ℕ :=
  if size = 0 then none
  else
    let bits := vmpuBits size-1
    let bits := if (1 : Word) <<< bits ≠ size then bits+1 else bits
    some (if bits < alignmentBits then alignmentBits else bits)

/-- Map generic access rights to those of the unit. -/
def vmpuMapAcl (acl : Word) : Option Word :=
  let (aclRes, flags) : Word × Word :=
    if acl &&& taclUwrite ≠ 0 then
      (taclUread ||| taclUwrite ||| taclSread ||| taclSwrite, rasrApPrwUrw)
    else if acl &&& taclUread ≠ 0 then
      if acl &&& taclSwrite ≠ 0 then (taclUread ||| taclSread ||| taclSwrite, rasrApPrwUro)
      else (taclUread ||| taclSread, rasrApProUro)
    else if acl &&& taclSwrite ≠ 0 then (taclSread ||| taclSwrite, rasrApPrwUno)
    else if acl &&& taclSread ≠ 0 then (taclSread, rasrApProUno)
    else (0, rasrApPnoUno)
  let (aclRes, flags) : Word × Word :=
    if acl &&& taclExecute ≠ 0 then (aclRes ||| taclExecute, flags) else (aclRes, flags ||| rasrXn)
  if aclRes ≠ acl &&& taclAccess then none else some flags

/-- Logarithm of the size after the rounding that the access rights allow. -/
def roundedBits (size acl : Word) : Option ℕ :=
  (vmpuRegionBits size).bind fun bits =>
    if 32 ≤ bits then none
    else if (1 : Word) <<< bits ≠ size then
      if acl &&& (taclSizeRoundUp ||| taclSizeRoundDown) = 0 then none
      else if acl &&& taclSizeRoundDown ≠ 0 then
        if bits-1 < alignmentBits then none else some (bits-1)
      else some bits
    else some bits

/-- Translate start address, size and access rights into a region. -/
def vmpuRegionTranslateAcl (start size acl aclHwSpec : Word) : Option MpuRegion :=
  (roundedBits size acl).bind fun bits =>
    let sizeRounded := (1 : Word) <<< bits
    if start &&& (sizeRounded-1) ≠ 0 then none
    else (vmpuMapAcl acl).map fun config =>
      let subregions := (aclHwSpec <<< 8) &&& 0xFF00
      { start := start
        ends := start+sizeRounded
        config := config ||| rasrEnable ||| (BitVec.ofNat 32 (bits-1) <<< 1) ||| subregions
        acl := acl }

/-- What the boot has set up. -/
structure Config where
  /-- Number of boxes. -/
  boxCount : ℕ
  /-- Regions of the boxes, in the order of their access control lists. -/
  regions : BoxId → List MpuRegion
  /-- The regions that make public flash and public memory accessible. -/
  static : ℕ → Region
  /-- All regions of boxes have been translated. -/
  translated : ∀ box, ∀ region ∈ regions box,
    ∃ start size acl aclHwSpec, vmpuRegionTranslateAcl start size acl aclHwSpec = some region

/-- Regions of a box. The system halts if there are none at all. -/
def vmpuRegionGetForBox (cfg : Config) (boxId : BoxId) : Option (List MpuRegion) :=
  if ∀ box, cfg.regions box = [] then none else some (cfg.regions boxId)

/-- The first region of a box that contains an address. -/
def vmpuRegionFindForAddress (cfg : Config) (boxId : BoxId) (address : Word) : Option MpuRegion :=
  (cfg.regions boxId).find? fun region => region.start ≤ address && address < region.ends

/-! ## Loading of regions -/

/-- ARMv7M_MPU_REGIONS_STATIC. -/
def regionsStatic : ℕ := 2

/-- ARMv7M_MPU_REGIONS_MAX. -/
def regionsMax : ℕ := 8

/-- Variables of the memory protection. -/
structure State where
  /-- g_active_box. -/
  activeBox : BoxId
  /-- The memory protection unit. -/
  mpu : Mpu
  /-- g_mpu_slot. -/
  mpuSlot : ℕ
  /-- g_mpu_priority. -/
  mpuPriority : ℕ → ℕ
  /-- Variables of the page allocator. -/
  alloc : PageAllocator.State

/-- Disable one slot. -/
def invalidateSlot (s : State) (slot : ℕ) : State :=
  {s with
    mpu := ((s.mpu.writeRnr slot).writeRasr 0).writeRbar 0
    mpuPriority := Function.update s.mpuPriority slot 0}

/-- Disable all slots that are not static. -/
def vmpuMpuInvalidate (s : State) : State :=
  (List.range' regionsStatic (regionsMax-regionsStatic)).foldl invalidateSlot
    {s with mpuSlot := regionsStatic}

/-- The next slot of the round robin. -/
def nextSlot (slot : ℕ) : ℕ := if regionsMax ≤ slot+1 then regionsStatic else slot+1

/-- Search for a slot of lower priority until the first slot is reached again.
The given number of passes is enough for one round. -/
def searchSlot (mpuPriority : ℕ → ℕ) (priority startSlot : ℕ) : ℕ → ℕ → ℕ
  | 0, slot => slot
  | passes+1, slot =>
    let slot := nextSlot slot
    if mpuPriority slot < priority then slot
    else if slot ≠ startSlot then searchSlot mpuPriority priority startSlot passes slot
    else slot

/-- Load a region into a slot. -/
def loadSlot (region : MpuRegion) (priority slot : ℕ) (s : State) : State :=
  {s with
    mpu := (s.mpu.writeRbar (BitVec.ofNat 32 slot ||| rbarValid ||| region.start)).writeRasr
      region.config
    mpuPriority := Function.update s.mpuPriority slot priority}

/-- Load a region into the next slot of lower priority. If there is none, the
search has come back to its start, and that slot is taken. -/
def vmpuMpuPush (region : MpuRegion) (priority : ℕ) (s : State) : State :=
  let priority := if priority = 0 then 1 else priority
  let slot := searchSlot s.mpuPriority priority s.mpuSlot (regionsMax-regionsStatic) s.mpuSlot
  loadSlot region priority slot {s with mpuSlot := slot}

/-- Load a list of regions. -/
def pushAll (priority : ℕ) (regions : List MpuRegion) (s : State) : State :=
  regions.foldl (fun s region => vmpuMpuPush region priority s) s

/-! ## The page heap -/

/-- Load the region with eight pages of the page heap. No further callback is
asked for. -/
def vmpuMemPushPageAclIterator (g : Geometry) (mask : BitVec 8) (index : ℕ) (s : State) :
    Option (Bool × State) :=
  let size := BitVec.ofNat 32 (g.pageSize*8)
  let start := BitVec.ofNat 32 g.headEndRounded-size*BitVec.ofNat 32 (index+1)
  (vmpuRegionTranslateAcl start size (tacldefData ||| taclExecute)
      (~~~(mask.setWidth 32))).map fun region =>
    (false, vmpuMpuPush region 100 s)

/-- Call back for the nonempty groups of eight pages of the active box, from
the highest one down, as long as the callback asks for more. -/
def iteratePageMasks (g : Geometry)
    (callback : BitVec 8 → ℕ → State → Option (Bool × State)) : ℕ → ℕ → State → Option State
  | 0, _, s => some s
  | octets+1, ii, s =>
    let index := pageMapCount*4-1-ii
    let mask := (s.alloc.ownerMap s.activeBox (index/4) >>> (index%4*8)).setWidth 8
    if mask ≠ 0 then
      (callback mask ii s).bind fun (more, s) =>
        if more then iteratePageMasks g callback octets (ii+1) s else some s
    else iteratePageMasks g callback octets (ii+1) s

/-- page_allocator_iterate_active_page_masks, backward. -/
def pageAllocatorIterateActivePageMasks (g : Geometry)
    (callback : BitVec 8 → ℕ → State → Option (Bool × State)) (s : State) : Option State :=
  iteratePageMasks g callback ((g.countTotal+7)/8) 0 s

/-- Count one more fault of a page. -/
def pageAllocatorRegisterFault (g : Geometry) (page : ℕ) (alloc : PageAllocator.State) :
    PageAllocator.State :=
  if page < g.countTotal then
    {alloc with
      faultTable := Function.update alloc.faultTable page ((alloc.faultTable page+1)%2^32)}
  else alloc

/-! ## Context switches and faults -/

/-- Load the regions of the destination of a context switch. -/
def vmpuSwitch (cfg : Config) (g : Geometry) (dstBox : BoxId) (s : State) : Option State :=
  (vmpuRegionGetForBox cfg dstBox).bind fun regions =>
    let s := vmpuMpuInvalidate s
    if dstBox ≠ 0 then
      match regions with
      | [] => none
      | region :: regions =>
        (pageAllocatorIterateActivePageMasks g (vmpuMemPushPageAclIterator g)
          (vmpuMpuPush region 255 s)).map (pushAll 2 regions)
    else
      (pageAllocatorIterateActivePageMasks g (vmpuMemPushPageAclIterator g) s).map fun s =>
        pushAll 1 (cfg.regions 0) (pushAll 2 regions s)

/-- The region of the active box, or else of box 0, that contains an address. -/
def vmpuFaultFindRegion (cfg : Config) (faultAddr : Word) (s : State) : Option MpuRegion :=
  if s.activeBox ≠ 0 then
    (vmpuRegionFindForAddress cfg s.activeBox faultAddr).or
      (vmpuRegionFindForAddress cfg 0 faultAddr)
  else vmpuRegionFindForAddress cfg 0 faultAddr

/-- SCB_CFSR_MMARVALID_Msk | SCB_CFSR_DACCVIOL_Msk. -/
def cfsrDataAccess : Word := 0x82

/-- SCB_CFSR_MSTKERR_Msk | SCB_CFSR_MUNSTKERR_Msk. -/
def cfsrStacking : Word := 0x18

/-- Try to recover from a fault, and report whether that was possible. -/
def vmpuFaultRecoveryMpu (cfg : Config) (g : Geometry) (faultAddr faultStatus : Word) (s : State) :
    Option (Bool × State) :=
  if ¬(faultStatus = cfsrDataAccess ∨ faultStatus &&& cfsrStacking ≠ 0) then some (false, s)
  else
    match getActiveMaskForAddress g s.activeBox s.alloc faultAddr.toNat with
    | .ok (mask, index, page) =>
      let s := {s with alloc := pageAllocatorRegisterFault g page s.alloc}
      (vmpuMemPushPageAclIterator g mask (pageMapCount*4-1-index) s).map fun (_, s) => (true, s)
    | .error _ =>
      match vmpuFaultFindRegion cfg faultAddr s with
      | none => some (false, s)
      | some region => some (true, vmpuMpuPush region 3 s)

end Uvisor.ArmMpu
