import Uvisor.BoxEnumeration

/-!
# Identifiers and places in the table

A lookup through the pointer table finds the box registered under the
identifier exactly when the boxes were registered in the order of the table.
On ARMv7-M that is the case only if no other order of the secure boxes takes
less memory.
-/

namespace Uvisor.BoxAgreement

open PageAllocator PermutationSearch BoxEnumeration

variable {μ : Type} {drv : Driver μ} {u : UvisorConfig} {psp : ℕ}

/-- A box's registration is that of a configuration of the table. -/
structure Registers (u : UvisorConfig) (regs : ℕ → Option Registration) (boxId position : ℕ) :
    Prop where
  /-- Its place in the table, address and memory size are the configuration's. -/
  exists_reg : ∃ reg, regs boxId = some reg ∧ reg.position = position ∧
    reg.config = u.boxCfgtbl position ∧ reg.bssSize = (configAt u position).bss.total

theorem Registers.unique {regs : ℕ → Option Registration} {boxId p q : ℕ}
    (hp : Registers u regs boxId p) (hq : Registers u regs boxId q) : p = q := by
  obtain ⟨reg, hreg, hpos, -⟩ := hp.exists_reg
  obtain ⟨reg', hreg', hpos', -⟩ := hq.exists_reg
  rw [hreg] at hreg'
  rw [← hpos, ← hpos', Option.some.inj hreg']

/-- What a lookup through the table finds is what is registered under the
identifier that the lookup uses. -/
structure Agrees (u : UvisorConfig) (regs : ℕ → Option Registration) : Prop where
  /-- A call through a gateway goes to the box whose entry the gateway names. -/
  rpc : ∀ (sys : Rpc.Platform) (gateway : Rpc.Gateway) (position : ℕ),
    sys.cfgtblPtrStart = u.cfgtblPtrStart → sys.boxCount = boxCount u →
    1 ≤ position → position < boxCount u → gateway.boxPtr = u.cfgtblPtrStart+4*position →
    Registers u regs (Rpc.calleeBoxId sys gateway).toNat position
  /-- An initialization handler gets the configuration of the box it runs in. -/
  init : ∀ counter dstId libConfig,
    nextBoxToInit u (boxCount u-(counter+1)) (counter+1) = some (dstId, libConfig) →
    Registers u regs dstId dstId ∧ libConfig = (configAt u dstId).libConfig
  /-- The namespace of an identifier is that of the box registered under it. -/
  boxNamespace : ∀ boxId : ℕ, boxId < boxCount u → ∀ length pointer,
    boxNamespaceFromId u boxId length = .ok pointer →
      Registers u regs boxId boxId ∧ pointer = (configAt u boxId).boxNamespace

/-! ## Registered positions -/

/-- Every identifier is given to the configuration at its place in the order. -/
theorem registerBoxes_registers {order : ℕ → ℕ} {m m' : μ} {n : ℕ}
    {regs : ℕ → Option Registration} (h : registerBoxes drv u psp order m n = some (regs, m')) :
    ∀ boxId < n, Registers u regs boxId (order boxId) := by
  induction n generalizing regs m' with
  | zero =>
    intro boxId hlt
    omega
  | succ n ih =>
    obtain ⟨before, m₁, reg, hbefore, hreg, rfl⟩ := registerBoxes_succ h
    obtain ⟨_, hregistered⟩ := registerBox_registered hreg
    intro boxId hlt
    by_cases hn : boxId = n
    · subst hn
      exact ⟨reg, Function.update_self .., hregistered.position, hregistered.config,
        hregistered.bssSize⟩
    · obtain ⟨old, hold, hrest⟩ := (ih hbefore boxId (by omega)).exists_reg
      exact ⟨old, by rw [Function.update_of_ne hn, hold], hrest⟩

/-- A boot that does not halt registers the boxes in the order chosen. -/
theorem vmpuEnumerateBoxes_registers {port : Port} {m : μ} {regs : ℕ → Option Registration}
    (h : vmpuEnumerateBoxes drv u psp port m = some regs) :
    ∃ order, vmpuOrderBoxes port u (boxCount u) = some order ∧
      ∀ boxId < boxCount u, Registers u regs boxId (order boxId) := by
  unfold vmpuEnumerateBoxes at h
  split at h
  · cases h
  · split at h
    · cases h
    · rename_i order horder
      obtain ⟨⟨regs', m'⟩, hregs, rfl⟩ := Option.map_eq_some_iff.mp h
      exact ⟨order, horder, registerBoxes_registers hregs⟩

/-! ## Lookups -/

/-- Distance of a table entry from the start of the table. -/
theorem wordPtrDiff_entry {start position : ℕ} (h : position < 256) :
    Rpc.wordPtrDiff (start+4*position) start = position := by
  have hsum : start+4*position+2^32-start = 4*position+2^32 := by omega
  have hbytes : Rpc.wrap (start+4*position+2^32-start) = 4*position := by
    rw [Rpc.wrap, hsum, Nat.add_mod_right, Nat.mod_eq_of_lt]
    omega
  have hpositive : 4*position < 2^31 := by omega
  unfold Rpc.wordPtrDiff
  rw [hbytes]
  dsimp only
  rw [if_pos hpositive]
  omega

/-- The identifier computed from the address of a table entry is its place. -/
theorem calleeBoxId_tableEntry {sys : Rpc.Platform} {gateway : Rpc.Gateway} {position : ℕ}
    (hstart : sys.cfgtblPtrStart = u.cfgtblPtrStart) (hcount : sys.boxCount = boxCount u)
    (hpos : 1 ≤ position) (hlt : position < boxCount u)
    (hptr : gateway.boxPtr = u.cfgtblPtrStart+4*position) :
    Rpc.calleeBoxId sys gateway = position := by
  have hsmall : boxCount u < 256 := Nat.mod_lt _ (by decide)
  have haligned : ¬(u.cfgtblPtrStart+4*position)%4 ≠ 0 := by
    have := u.start_aligned
    omega
  have hrange : ¬((position : ℤ) < 1 ∨ (boxCount u : ℤ) ≤ position) := by omega
  unfold Rpc.calleeBoxId
  rw [hptr, hstart, hcount, if_neg haligned, wordPtrDiff_entry (by omega)]
  exact if_neg hrange

theorem nextBoxToInit_some {n dstId boxId libConfig : ℕ}
    (h : nextBoxToInit u n dstId = some (boxId, libConfig)) :
    dstId ≤ boxId ∧ boxId < dstId+n ∧ libConfig = (configAt u boxId).libConfig := by
  induction n generalizing dstId with
  | zero => cases h
  | succ n ih =>
    simp only [nextBoxToInit] at h
    split at h
    · obtain ⟨rfl, rfl⟩ := Prod.mk.inj (Option.some.inj h)
      exact ⟨le_rfl, by omega, rfl⟩
    · obtain ⟨hle, hlt, hlib⟩ := ih h
      exact ⟨by omega, by omega, hlib⟩

/-- The entry of a box is the one that its identifier indexes. -/
theorem entryPosition_eq {boxId : ℕ} (h : boxId < boxCount u) : entryPosition boxId = boxId := by
  have hsmall : boxCount u < 256 := Nat.mod_lt _ (by decide)
  unfold entryPosition
  omega

theorem boxNamespaceFromId_ok {boxId : ℕ} (hlt : boxId < boxCount u) {length pointer : ℕ}
    (h : boxNamespaceFromId u boxId length = .ok pointer) :
    pointer = (configAt u boxId).boxNamespace := by
  unfold boxNamespaceFromId at h
  rw [entryPosition_eq hlt] at h
  split_ifs at h
  exact (Except.ok.inj h).symm

/-- Lookups agree exactly when every box is registered under its place. -/
theorem agrees_iff_identity {order : ℕ → ℕ} {regs : ℕ → Option Registration}
    (hregs : ∀ boxId < boxCount u, Registers u regs boxId (order boxId)) (h0 : order 0 = 0) :
    Agrees u regs ↔ ∀ boxId < boxCount u, order boxId = boxId := by
  constructor
  · intro h boxId hlt
    by_cases hzero : boxId = 0
    · rw [hzero, h0]
    · have hentry := h.rpc
        ⟨0, 0, u.cfgtblPtrStart, boxCount u, fun _ => 0, fun _ => 0, fun _ => ⟨0, 0, 0, 0, 0⟩,
          fun _ _ => 0, fun _ => 0, fun _ _ => 0⟩
        ⟨0, 0, u.cfgtblPtrStart+4*boxId, 0, 0⟩ boxId rfl rfl (by omega) hlt rfl
      rw [calleeBoxId_tableEntry rfl rfl (by omega) hlt rfl, Int.toNat_natCast] at hentry
      exact (hregs boxId hlt).unique hentry
  · intro hid
    have hself : ∀ boxId < boxCount u, Registers u regs boxId boxId := by
      intro boxId hlt
      have hreg := hregs boxId hlt
      rwa [hid boxId hlt] at hreg
    constructor
    · intro sys gateway position hstart hcount hpos hlt hptr
      rw [calleeBoxId_tableEntry hstart hcount hpos hlt hptr, Int.toNat_natCast]
      exact hself position hlt
    · intro counter dstId libConfig hnext
      obtain ⟨hle, hlt, hlib⟩ := nextBoxToInit_some hnext
      exact ⟨hself dstId (by omega), hlib⟩
    · intro boxId hlt length pointer hok
      exact ⟨hself boxId hlt, boxNamespaceFromId_ok hlt hok⟩

/-! ## The order chosen -/

/-- The public box keeps its place, and all boxes keep theirs exactly when no
order of the secure boxes takes less memory than that of the table. -/
theorem vmpuOrderBoxes_spec {port : Port} {count : ℕ} {order : ℕ → ℕ}
    (h : vmpuOrderBoxes port u count = some order) :
    order 0 = 0 ∧ ((∀ boxId < count, order boxId = boxId) ↔
      (port = .armv7m → ∀ σ : Equiv.Perm ℕ, Moves σ 1 (count-1) →
        sramSize u (count-1) (fun i => i) ≤ sramSize u (count-1) σ)) := by
  cases port with
  | armv7m =>
    unfold vmpuOrderBoxes at h
    dsimp only at h
    split at h
    · cases h
    · cases hn : count-1 with
      | zero =>
        rw [hn] at h
        cases h
      | succ n =>
        rw [hn] at h
        obtain ⟨⟨σ, hσ, rfl⟩, -, hfirst⟩ := search_spec h
        have hzero : σ 0 = 0 := hσ 0 (Or.inl (by decide))
        refine ⟨hzero, ?_⟩
        have hid : (∀ boxId < count, σ boxId = boxId) ↔ (fun i => i) ∘ σ = fun i => i := by
          constructor
          · intro hall
            funext i
            by_cases hi : i < count
            · exact hall i hi
            · exact hσ i (Or.inr (by omega))
          · intro heq boxId _
            exact congrFun heq boxId
        simp only [forall_const]
        exact hid.trans hfirst
  | kinetis =>
    obtain rfl := Option.some.inj h
    simp
  | armv8m =>
    obtain rfl := Option.some.inj h
    simp

/-- After a boot that does not halt, lookups through the pointer table agree
with the registered identifiers exactly when the port keeps the order of the
table or no order of the secure boxes takes strictly less memory. -/
theorem box_ids_agree_iff {port : Port} {m : μ} {regs : ℕ → Option Registration}
    (h : vmpuEnumerateBoxes drv u psp port m = some regs) :
    Agrees u regs ↔ (port = .armv7m → ∀ σ : Equiv.Perm ℕ, Moves σ 1 (boxCount u-1) →
      sramSize u (boxCount u-1) (fun i => i) ≤ sramSize u (boxCount u-1) σ) := by
  obtain ⟨order, horder, hregs⟩ := vmpuEnumerateBoxes_registers h
  obtain ⟨hzero, hkept⟩ := vmpuOrderBoxes_spec horder
  rw [agrees_iff_identity hregs hzero, hkept]

/-! ## A small and a large box -/

/-- A device with a public box and two secure boxes whose BSS sizes are
given. -/
def threeConfigs (first second : ℕ) : UvisorConfig where
  flashStart := 0
  flashEnd := 0x100000
  secureStart := 0x80000
  heapStart := 0x20008000
  bssBoxesStart := 0x20002000
  bssBoxesEnd := 0x20006000
  cfgtblPtrStart := 0x80000
  cfgtblPtrEnd := 0x8000C
  boxCfgtbl := fun index => 0x1000+0x100*index
  boxConfig := fun address =>
    { magic := boxMagic
      version := boxVersion
      bss := ⟨40, if address = 0x1100 then first else if address = 0x1200 then second else 0,
        0, 0, 0, 0⟩
      stackSize := if address = 0x1000 then 0 else 1024
      libConfig := 0
      boxNamespace := 0
      aclList := 0
      aclCount := 0 }
  aclItem := fun _ => ⟨0, 0, 0⟩
  byte := fun _ => 0
  start_aligned := by decide
  start_le_end := by decide
  end_lt := by decide

/-- Drivers that place every box at one address and accept every item. -/
def plainDriver : Driver Unit := ⟨fun _ _ _ _ => some (0x20002000, 0x20003000, ()), fun _ _ _ => some ()⟩

/-- With the large box first the table's order is kept. -/
theorem box_ids_agree_large_first :
    ∃ regs, vmpuEnumerateBoxes plainDriver (threeConfigs 4096 64) 0 .armv7m () = some regs ∧
      Agrees (threeConfigs 4096 64) regs := by
  have hboot : (vmpuEnumerateBoxes plainDriver (threeConfigs 4096 64) 0 .armv7m ()).isSome := by
    decide
  obtain ⟨regs, hregs⟩ := Option.isSome_iff_exists.mp hboot
  have hall : ∀ f ∈ leaves 2 1 (fun i : ℕ => i), sramSize (threeConfigs 4096 64) 2 (fun i => i) ≤
      sramSize (threeConfigs 4096 64) 2 f := by decide
  refine ⟨regs, hregs, (box_ids_agree_iff hregs).mpr fun _ σ hσ => ?_⟩
  exact hall σ (mem_leaves_iff.mpr ⟨σ, hσ, rfl⟩)

/-- With the small box first the boxes change places: a gateway that names the
small box leads to the memory of the large one. -/
theorem small_first_disagrees :
    ∃ regs, vmpuEnumerateBoxes plainDriver (threeConfigs 64 4096) 0 .armv7m () = some regs ∧
      ¬Agrees (threeConfigs 64 4096) regs := by
  have hboot : ((vmpuEnumerateBoxes plainDriver (threeConfigs 64 4096) 0 .armv7m ()).map
      fun regs => (regs 1).map Registration.position) = some (some 2) := by decide
  obtain ⟨regs, hregs, hone⟩ := Option.map_eq_some_iff.mp hboot
  obtain ⟨reg, hreg, hpos⟩ := Option.map_eq_some_iff.mp hone
  refine ⟨regs, hregs, fun hagrees => ?_⟩
  have hentry := hagrees.rpc
    ⟨0, 0, 0x80000, 3, fun _ => 0, fun _ => 0, fun _ => ⟨0, 0, 0, 0, 0⟩,
      fun _ _ => 0, fun _ => 0, fun _ _ => 0⟩
    ⟨0, 0, 0x80004, 0, 0⟩ 1 rfl rfl (by decide) (by decide) rfl
  obtain ⟨reg', hreg', hpos', -⟩ := hentry.exists_reg
  have hid : (Rpc.calleeBoxId ⟨0, 0, 0x80000, 3, fun _ => 0, fun _ => 0, fun _ => ⟨0, 0, 0, 0, 0⟩,
      fun _ _ => 0, fun _ => 0, fun _ _ => 0⟩ ⟨0, 0, 0x80004, 0, 0⟩).toNat = 1 := by decide
  rw [hid, hreg] at hreg'
  obtain rfl := Option.some.inj hreg'
  omega

end Uvisor.BoxAgreement
