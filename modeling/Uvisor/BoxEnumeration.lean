import Uvisor.PageAllocator
import Uvisor.PermutationSearch
import Uvisor.Rpc
import Mathlib.Tactic.Linarith

/-!
# Enumerating the boxes at boot

The configuration pointer table in flash lists the boxes. At boot they are
registered one after the other, in an order chosen by the port: on ARMv7-M the
secure boxes are rearranged to save memory. The identifier of a box is its
place in that order. Everything that finds a box through the table later on
takes the place in the table for the identifier.
-/

namespace Uvisor.BoxEnumeration

open PageAllocator PermutationSearch

/-! ## Configuration -/

/-- UVISOR_BOX_MAGIC. -/
def boxMagic : ℕ := 0x42CFB66F

/-- UVISOR_BOX_VERSION. -/
def boxVersion : ℕ := 100

/-- UVISOR_MIN_STACK_SIZE. -/
def minStackSize : ℕ := 1024

/-- UVISOR_MAX_BOX_NAMESPACE_LENGTH. -/
def maxBoxNamespaceLength : ℕ := 37

/-- Size of a box configuration table. -/
def boxConfigSize : ℕ := 52

/-- Size of a box index. -/
def boxIndexSize : ℕ := 40

/-- Sizes of the sections that a box has in its BSS. -/
structure BssSections where
  /-- Box index. -/
  index : ℕ
  /-- Context of the box. -/
  context : ℕ
  /-- Reentrancy structure of the C library. -/
  newlibReent : ℕ
  /-- RPC queues. -/
  rpc : ℕ
  /-- IPC queues. -/
  ipc : ℕ
  /-- Heap. -/
  heap : ℕ

/-- The sizes as an array. -/
def BssSections.sizes (bss : BssSections) : List ℕ :=
  [bss.index, bss.context, bss.newlibReent, bss.rpc, bss.ipc, bss.heap]

/-- Sum of the sizes in 32 bits. -/
def BssSections.total (bss : BssSections) : ℕ :=
  bss.sizes.foldl (fun sum size => (sum+size)%2^32) 0

/-- An item of an access control list. -/
structure AclItem where
  /-- Start address, or interrupt number. -/
  param1 : ℕ
  /-- Size. -/
  param2 : ℕ
  /-- Permissions. -/
  acl : ℕ

/-- The configuration table of a box. -/
structure BoxConfig where
  /-- Identifies the structure. -/
  magic : ℕ
  /-- Version of the structure. -/
  version : ℕ
  /-- Sizes of the BSS sections. -/
  bss : BssSections
  /-- Size of the stack. -/
  stackSize : ℕ
  /-- Address of the library's own configuration, or zero. -/
  libConfig : ℕ
  /-- Address of the namespace, or zero. -/
  boxNamespace : ℕ
  /-- Address of the access control list, or zero. -/
  aclList : ℕ
  /-- Number of items in the list. -/
  aclCount : ℕ

/-- The linker's symbols and the contents of flash. The pointer table is an
array of aligned words inside the address space. -/
structure UvisorConfig where
  /-- Start of flash. -/
  flashStart : ℕ
  /-- End of flash. -/
  flashEnd : ℕ
  /-- End of public flash. -/
  secureStart : ℕ
  /-- Start of the heap of the public box. -/
  heapStart : ℕ
  /-- Start of the memory for secure boxes. -/
  bssBoxesStart : ℕ
  /-- End of the memory for secure boxes. -/
  bssBoxesEnd : ℕ
  /-- Start of the pointer table. -/
  cfgtblPtrStart : ℕ
  /-- End of the pointer table. -/
  cfgtblPtrEnd : ℕ
  /-- Entries of the pointer table. -/
  boxCfgtbl : ℕ → ℕ
  /-- Configuration found at an address. -/
  boxConfig : ℕ → BoxConfig
  /-- Access control item found at an address. -/
  aclItem : ℕ → AclItem
  /-- Byte found at an address. -/
  byte : ℕ → UInt8
  /-- The table is aligned. -/
  start_aligned : cfgtblPtrStart%4 = 0
  /-- The table does not end before it starts. -/
  start_le_end : cfgtblPtrStart ≤ cfgtblPtrEnd
  /-- The table ends inside the address space. -/
  end_lt : cfgtblPtrEnd < 2^32

/-- Number of boxes, stored in eight bits. -/
def boxCount (u : UvisorConfig) : ℕ := (u.cfgtblPtrEnd-u.cfgtblPtrStart)/4%256

/-- The configuration at a place of the pointer table. -/
def configAt (u : UvisorConfig) (index : ℕ) : BoxConfig := u.boxConfig (u.boxCfgtbl index)

/-- vmpu_flash_addr. -/
def flashAddr (u : UvisorConfig) (addr : ℕ) : Bool :=
  u.flashStart ≤ addr && addr ≤ wordSub u.flashEnd 4

/-- vmpu_public_flash_addr. -/
def publicFlashAddr (u : UvisorConfig) (addr : ℕ) : Bool :=
  u.flashStart ≤ addr && addr ≤ wordSub u.secureStart 4

/-! ## Order of the boxes -/

/-- vmpu_region_bits. The bit length of zero minus one is 255 in eight bits. -/
def regionBits (size : ℕ) : ℕ :=
  let bits := if size = 0 then 255 else size.log2
  let bits := if 2^bits%2^32 ≠ size then bits+1 else bits
  if bits < 5 then 5 else bits

/-- vmpu_acl_sram_region_size: the aligned start and the size of the region. -/
def aclSramRegionSize (regionStart bssSize stackSize : ℕ) : ℕ × ℕ :=
  let bits := regionBits ((stackSize+bssSize)*8%2^32/6)
  let regionSize := 2^(if bits < 8 then 8 else bits)%2^32
  (if regionStart%regionSize ≠ 0 then (regionStart/regionSize*regionSize+regionSize)%2^32
    else regionStart, regionSize)

/-- Memory that the secure boxes take in an order whose last place is given.
The public box is skipped. -/
def sramSize (u : UvisorConfig) (last : ℕ) (order : ℕ → ℕ) : ℕ :=
  let sramOffset := (List.range' 1 last).foldl (fun offset i =>
    let config := configAt u (order i)
    let region := aclSramRegionSize offset config.bss.total config.stackSize
    (region.1+region.2)%2^32) u.bssBoxesStart
  wordSub sramOffset u.bssBoxesStart

/-- vmpu_order_boxes. On ARMv7-M all orders of the secure boxes are searched,
starting with that of the table, and the boot halts when the best one needs
too much memory; there is no order when none was written. The other ports keep
the order of the table. -/
def vmpuOrderBoxes : Port → UvisorConfig → ℕ → Option (ℕ → ℕ)
  | .armv7m, u, count =>
    let best := search (sramSize u (count-1)) (count-1) 1 (fun i => i) (2^32-1, none)
    if wordSub u.bssBoxesEnd u.bssBoxesStart < best.1 then none else best.2
  | .kinetis, _, _ | .armv8m, _, _ => some fun i => i

/-! ## Registration -/

/-- The loop of vmpu_check_sanity_box_namespace from a length on, with the
number of characters up to the limit. The loop condition reads the next
character before its address is checked. -/
def checkNamespaceFrom (u : UvisorConfig) (boxNamespace : ℕ) : ℕ → ℕ → Bool
  | 0, _ => false
  | n+1, length =>
    if !publicFlashAddr u boxNamespace || !publicFlashAddr u (boxNamespace+length) then false
    else if u.byte (boxNamespace+length) = 0 then true
    else if n = 0 then false
    else if u.byte (boxNamespace+length+1) = 0 then true
    else checkNamespaceFrom u boxNamespace n (length+1)

/-- vmpu_check_sanity_box_namespace: whether it returns. -/
def checkSanityBoxNamespace (u : UvisorConfig) (boxNamespace : ℕ) : Bool :=
  boxNamespace = 0 || checkNamespaceFrom u boxNamespace maxBoxNamespaceLength 0

/-- vmpu_check_sanity_box_cfgtbl: whether it returns. -/
def checkSanityBoxCfgtbl (u : UvisorConfig) (boxId address : ℕ) : Bool :=
  let config := u.boxConfig address
  flashAddr u address && flashAddr u (address+(boxConfigSize-1)) &&
    config.magic = boxMagic && config.version = boxVersion &&
    boxIndexSize ≤ config.bss.index &&
    (boxId = 0 || minStackSize ≤ config.stackSize) &&
    (boxId ≠ 0 || config.stackSize = 0 && config.bss.heap = 0) &&
    checkSanityBoxNamespace u config.boxNamespace

/-- What the memory protection and interrupt drivers of a port do for a box.
There is no result when they halt. -/
structure Driver (μ : Type) where
  /-- vmpu_acl_sram: start of the BSS and stack pointer. -/
  aclSram : μ → ℕ → ℕ → ℕ → Option (ℕ × ℕ × μ)
  /-- virq_acl_add or vmpu_region_add_static_acl for one item. -/
  addAcl : μ → ℕ → AclItem → Option μ

/-- What is known about a box under its identifier. -/
structure Registration where
  /-- Place in the pointer table of the configuration that was registered. -/
  position : ℕ
  /-- Address of that configuration, kept in the box index. -/
  config : ℕ
  /-- Start of the box's memory. -/
  bss : ℕ
  /-- Size of the box's memory. -/
  bssSize : ℕ
  /-- Initial stack pointer. -/
  stackPointer : ℕ
  /-- Access control items of the box. -/
  acls : List AclItem

section Registering

variable {μ : Type} (drv : Driver μ) (u : UvisorConfig) (psp : ℕ)

/-- vmpu_configure_box_sram. The public box keeps its stack. -/
def configureBoxSram (m : μ) (boxId : ℕ) (config : BoxConfig) : Option (ℕ × ℕ × μ) :=
  if boxId = 0 then some (u.heapStart, psp, m)
  else drv.aclSram m boxId config.bss.total config.stackSize

/-- The loop of vmpu_configure_box_peripherals over the remaining items. -/
def addAclsFrom (boxId : ℕ) : ℕ → ℕ → μ → Option (List AclItem × μ)
  | 0, _, m => some ([], m)
  | n+1, region, m =>
    if !publicFlashAddr u region then none
    else
      match drv.addAcl m boxId (u.aclItem region) with
      | none => none
      | some m =>
        match addAclsFrom boxId n (region+12) m with
        | none => none
        | some (rest, m) => some (u.aclItem region :: rest, m)

/-- vmpu_configure_box_peripherals. The item count is a signed number. -/
def configureBoxPeripherals (m : μ) (boxId : ℕ) (config : BoxConfig) :
    Option (List AclItem × μ) :=
  if config.aclList = 0 then some ([], m)
  else addAclsFrom drv u boxId (if config.aclCount < 2^31 then config.aclCount else 0)
    config.aclList m

/-- One pass of the loop of vmpu_enumerate_boxes. -/
def registerBox (m : μ) (boxId index : ℕ) : Option (Registration × μ) :=
  let address := u.boxCfgtbl index
  let config := u.boxConfig address
  if !checkSanityBoxCfgtbl u boxId address then none
  else
    match configureBoxSram drv u psp m boxId config with
    | none => none
    | some (bss, stackPointer, m) =>
      match configureBoxPeripherals drv u m boxId config with
      | none => none
      | some (acls, m) => some (⟨index, address, bss, config.bss.total, stackPointer, acls⟩, m)

/-- The loop of vmpu_enumerate_boxes over the first identifiers. -/
def registerBoxes (order : ℕ → ℕ) (m : μ) : ℕ → Option ((ℕ → Option Registration) × μ)
  | 0 => some (fun _ => none, m)
  | n+1 =>
    match registerBoxes order m n with
    | none => none
    | some (regs, m) =>
      match registerBox drv u psp m n (order n) with
      | none => none
      | some (reg, m) => some (Function.update regs n (some reg), m)

/-- vmpu_enumerate_boxes: the registered boxes. -/
def vmpuEnumerateBoxes (port : Port) (m : μ) : Option (ℕ → Option Registration) :=
  if maxBoxes ≤ boxCount u then none
  else
    match vmpuOrderBoxes port u (boxCount u) with
    | none => none
    | some order => (registerBoxes drv u psp order m (boxCount u)).map Prod.fst

end Registering

/-! ### A boot that does not halt -/

section Completed

variable {μ : Type} {drv : Driver μ} {u : UvisorConfig} {psp boxId : ℕ} {m m' : μ}

/-- What an accepted configuration says about its sizes. -/
theorem sizes_of_sane {address : ℕ} (h : checkSanityBoxCfgtbl u boxId address = true) :
    boxIndexSize ≤ (u.boxConfig address).bss.index ∧
      (boxId ≠ 0 → minStackSize ≤ (u.boxConfig address).stackSize) ∧
      (boxId = 0 → (u.boxConfig address).stackSize = 0 ∧ (u.boxConfig address).bss.heap = 0) := by
  simp only [checkSanityBoxCfgtbl, Bool.and_eq_true, Bool.or_eq_true, decide_eq_true_eq] at h
  obtain ⟨⟨⟨⟨-, hindex⟩, hstack⟩, hpublic⟩, -⟩ := h
  exact ⟨hindex, hstack.resolve_left, fun hbox => hpublic.resolve_left (not_not.mpr hbox)⟩

/-- What holds for every item of an access control list holds for the list, if
it is reflexive and transitive. -/
theorem addAclsFrom_rel {R : μ → μ → Prop} (hrefl : ∀ m, R m m)
    (htrans : ∀ a b c, R a b → R b c → R a c)
    (hadd : ∀ a b item, drv.addAcl a boxId item = some b → R a b) {n region : ℕ}
    {acls : List AclItem} (h : addAclsFrom drv u boxId n region m = some (acls, m')) : R m m' := by
  induction n generalizing region acls m with
  | zero =>
    obtain ⟨-, rfl⟩ := Prod.mk.inj (Option.some.inj h)
    exact hrefl m
  | succ n ih =>
    simp only [addAclsFrom] at h
    split at h
    · cases h
    split at h
    · cases h
    rename_i m₁ hitem
    split at h
    · cases h
    rename_i rest m₂ hrest
    obtain ⟨-, rfl⟩ := Prod.mk.inj (Option.some.inj h)
    exact htrans _ _ _ (hadd _ _ _ hitem) (ih hrest)

theorem configureBoxPeripherals_rel {R : μ → μ → Prop} (hrefl : ∀ m, R m m)
    (htrans : ∀ a b c, R a b → R b c → R a c)
    (hadd : ∀ a b item, drv.addAcl a boxId item = some b → R a b) {config : BoxConfig}
    {acls : List AclItem} (h : configureBoxPeripherals drv u m boxId config = some (acls, m')) :
    R m m' := by
  unfold configureBoxPeripherals at h
  split at h
  · obtain ⟨-, rfl⟩ := Prod.mk.inj (Option.some.inj h)
    exact hrefl m
  · exact addAclsFrom_rel hrefl htrans hadd h

/-- What one pass of the loop has done. -/
structure RegisteredBox (drv : Driver μ) (u : UvisorConfig) (psp : ℕ) (m : μ) (boxId index : ℕ)
    (reg : Registration) (m₁ m' : μ) : Prop where
  /-- The configuration has been checked. -/
  sane : checkSanityBoxCfgtbl u boxId (u.boxCfgtbl index) = true
  /-- The box has got its memory. -/
  sram : configureBoxSram drv u psp m boxId (configAt u index) =
    some (reg.bss, reg.stackPointer, m₁)
  /-- Then its access control lists have been added. -/
  peripherals : configureBoxPeripherals drv u m₁ boxId (configAt u index) = some (reg.acls, m')
  /-- The place of the configuration. -/
  position : reg.position = index
  /-- The configuration. -/
  config : reg.config = u.boxCfgtbl index
  /-- The size of the memory. -/
  bssSize : reg.bssSize = (configAt u index).bss.total

theorem registerBox_registered {index : ℕ} {reg : Registration}
    (h : registerBox drv u psp m boxId index = some (reg, m')) :
    ∃ m₁, RegisteredBox drv u psp m boxId index reg m₁ m' := by
  unfold registerBox at h
  dsimp only at h
  split at h
  · cases h
  rename_i hsane
  split at h
  · cases h
  rename_i bss stackPointer m₁ hsram
  split at h
  · cases h
  rename_i acls m₂ hperipherals
  obtain ⟨rfl, rfl⟩ := Prod.mk.inj (Option.some.inj h)
  exact ⟨m₁, by simpa using hsane, hsram, hperipherals, rfl, rfl, rfl⟩

/-- The public box keeps its stack, and its memory is the heap. -/
theorem RegisteredBox.public_eq {index : ℕ} {reg : Registration} {m₁ : μ}
    (h : RegisteredBox drv u psp m 0 index reg m₁ m') : m₁ = m := by
  obtain ⟨-, hrest⟩ := Prod.mk.inj (Option.some.inj h.sram)
  exact (Prod.mk.inj hrest).2.symm

/-- A secure box gets its memory from the port. -/
theorem RegisteredBox.aclSram {index : ℕ} {reg : Registration} {m₁ : μ} (hbox : boxId ≠ 0)
    (h : RegisteredBox drv u psp m boxId index reg m₁ m') :
    drv.aclSram m boxId (configAt u index).bss.total (configAt u index).stackSize =
      some (reg.bss, reg.stackPointer, m₁) := by
  have hsram := h.sram
  rw [configureBoxSram, if_neg hbox] at hsram
  exact hsram

/-- An accepted secure box asks for a stack. -/
theorem RegisteredBox.stack_le {index : ℕ} {reg : Registration} {m₁ : μ} (hbox : boxId ≠ 0)
    (h : RegisteredBox drv u psp m boxId index reg m₁ m') :
    minStackSize ≤ (configAt u index).stackSize :=
  (sizes_of_sane h.sane).2.1 hbox

/-- An accepted box asks for a box index. -/
theorem RegisteredBox.boxIndex_le {index : ℕ} {reg : Registration} {m₁ : μ}
    (h : RegisteredBox drv u psp m boxId index reg m₁ m') :
    boxIndexSize ≤ (configAt u index).bss.index :=
  (sizes_of_sane h.sane).1

/-- The passes of the loop before the last one, and the last one. -/
theorem registerBoxes_succ {order : ℕ → ℕ} {n : ℕ} {regs : ℕ → Option Registration}
    (h : registerBoxes drv u psp order m (n+1) = some (regs, m')) :
    ∃ before m₁ reg, registerBoxes drv u psp order m n = some (before, m₁) ∧
      registerBox drv u psp m₁ n (order n) = some (reg, m') ∧
      regs = Function.update before n (some reg) := by
  simp only [registerBoxes] at h
  split at h
  · cases h
  rename_i before m₁ hbefore
  split at h
  · cases h
  rename_i reg m₂ hreg
  obtain ⟨rfl, rfl⟩ := Prod.mk.inj (Option.some.inj h)
  exact ⟨before, m₁, reg, hbefore, hreg, rfl⟩

end Completed

/-! ## Lookups through the table -/

/-- The search of box_init_context_switch_next for the next box with a
configuration of its own, over the remaining identifiers: the identifier it
switches to and the configuration it passes. -/
def nextBoxToInit (u : UvisorConfig) : ℕ → ℕ → Option (ℕ × ℕ)
  | 0, _ => none
  | n+1, dstId =>
    let libConfig := (configAt u dstId).libConfig
    if libConfig ≠ 0 then some (dstId, libConfig) else nextBoxToInit u n (dstId+1)

/-- UVISOR_ERROR codes of vmpu_box_namespace_from_id. -/
inductive NamespaceError where
  | invalidBoxId
  | bufferTooSmall
  | anonymous
  deriving DecidableEq

/-- vmpu_is_box_id_valid once the boxes are counted. The identifier is cut off
to eight bits. -/
def isBoxIdValid (u : UvisorConfig) (boxId : ℤ) : Bool := decide (boxId%256 < boxCount u)

/-- Place of the entry that an identifier indexes, in the address space. -/
def entryPosition (boxId : ℤ) : ℕ := (boxId%2^30).toNat

/-- vmpu_box_namespace_from_id: the address of the namespace that is copied. -/
def boxNamespaceFromId (u : UvisorConfig) (boxId : ℤ) (length : ℕ) : Except NamespaceError ℕ :=
  if !isBoxIdValid u boxId then .error .invalidBoxId
  else if length < maxBoxNamespaceLength then .error .bufferTooSmall
  else if (configAt u (entryPosition boxId)).boxNamespace = 0 then .error .anonymous
  else .ok (configAt u (entryPosition boxId)).boxNamespace

end Uvisor.BoxEnumeration
