import Uvisor.BoxAgreement
import Uvisor.BoxMemory

/-!
# The best order of the secure boxes

The regions of the boxes are laid out one after the other, each aligned to its
size, and the memory that they take depends on their order. Boot searches all
orders of the secure boxes. Without secure boxes the search has no position to
start from, and leaves neither an order nor a size.
-/

namespace Uvisor.BoxOrder

open PageAllocator AlignedRegions PermutationSearch BoxEnumeration BoxMemory

/-! ## Statement -/

/-- Bytes of the stack and the BSS sections of a box. -/
def boxTotal (u : UvisorConfig) (index : ℕ) : ℕ :=
  (configAt u index).stackSize+(configAt u index).bss.sizes.sum

/-- Bytes of the region of a box. -/
def boxBytes (u : UvisorConfig) (index : ℕ) : ℕ := regionBytes (boxTotal u index)

/-- The secure boxes in an order, by their places in the table. -/
def secureBoxes (count : ℕ) (order : ℕ → ℕ) : List ℕ := (List.range' 1 (count-1)).map order

/-- Address after the regions of boxes that are laid out in an order. -/
def boxesEnd (u : UvisorConfig) (indices : List ℕ) : ℕ :=
  layoutEnd alignUp 0 u.bssBoxesStart (indices.map (boxBytes u))

/-- Memory that the secure boxes take in an order. -/
def consumption (u : UvisorConfig) (count : ℕ) (order : ℕ → ℕ) : ℕ :=
  boxesEnd u (secureBoxes count order)-u.bssBoxesStart

/-- The layout of boxes does not overflow 32 bits. -/
structure NoOverflow (u : UvisorConfig) (indices : List ℕ) : Prop where
  /-- The bytes of a box, times eight. -/
  total : ∀ index ∈ indices, boxTotal u index*8 < 2^32
  /-- The size of a region. -/
  shift : ∀ index ∈ indices, 2^regionBits (boxTotal u index*8/6) < 2^32
  /-- The address after the regions. -/
  ends : boxesEnd u indices < 2^32

/-- Memory that is available for the secure boxes. -/
def availableSramSize (u : UvisorConfig) : ℕ := wordSub u.bssBoxesEnd u.bssBoxesStart

/-- The order that is chosen keeps the public box, and no other one takes less
memory. Boot halts if no order fits. -/
structure Optimal (u : UvisorConfig) (count : ℕ) : Prop where
  /-- If an order fits, one of the best is chosen. -/
  best : (∃ σ : Equiv.Perm ℕ, Moves σ 1 (count-1) ∧ consumption u count σ ≤ availableSramSize u) →
    ∃ σ : Equiv.Perm ℕ, Moves σ 1 (count-1) ∧ vmpuOrderBoxes .armv7m u count = some ⇑σ ∧
      ∀ τ : Equiv.Perm ℕ, Moves τ 1 (count-1) → consumption u count σ ≤ consumption u count τ
  /-- If none fits, there is none. -/
  halts : (∀ σ : Equiv.Perm ℕ, Moves σ 1 (count-1) → availableSramSize u < consumption u count σ) →
    vmpuOrderBoxes .armv7m u count = none

/-! ## Costs -/

section Costs

variable {u : UvisorConfig} {indices : List ℕ} {index count pos : ℕ}

/-- Sums of sizes are taken in 32 bits. -/
theorem foldl_sum (sizes : List ℕ) (sum : ℕ) :
    sizes.foldl (fun sum size => (sum+size)%2^32) (sum%2^32) = (sum+sizes.sum)%2^32 := by
  induction sizes generalizing sum with
  | nil => rfl
  | cons size sizes ih =>
    rw [List.foldl_cons, List.sum_cons, Nat.mod_add_mod, ih, Nat.add_assoc]

theorem total_eq (bss : BssSections) : bss.total = bss.sizes.sum%2^32 := by
  rw [BssSections.total]
  exact (foldl_sum bss.sizes 0).trans (by rw [Nat.zero_add])

/-- The shift tells boxes that have bytes. -/
theorem boxTotal_ne_zero (h : 2^regionBits (boxTotal u index*8/6) < 2^32) :
    boxTotal u index ≠ 0 := fun hzero => by
  rw [hzero] at h
  exact absurd h (by decide)

/-- One step of the layout. -/
theorem aclSramRegionSize_box (hpos : pos < 2^32) (htotal : boxTotal u index*8 < 2^32)
    (hne : boxTotal u index ≠ 0) :
    aclSramRegionSize pos (configAt u index).bss.total (configAt u index).stackSize =
      (alignUp pos (boxBytes u index)%2^32, boxBytes u index) := by
  have hsum : (configAt u index).bss.total = (configAt u index).bss.sizes.sum := by
    rw [total_eq]
    unfold boxTotal at htotal
    exact Nat.mod_eq_of_lt (by omega)
  have hmod : ((configAt u index).stackSize+(configAt u index).bss.total)%2^29 =
      boxTotal u index := by
    rw [hsum]
    exact Nat.mod_eq_of_lt (by unfold boxTotal at htotal; omega)
  rw [aclSramRegionSize_eq hpos (by rw [hmod]; exact hne), hmod]
  rfl

/-- Starts are rounded up. -/
theorem le_alignUp_boxes (u : UvisorConfig) (indices : List ℕ) :
    ∀ size ∈ indices.map (boxBytes u), ∀ pos, pos ≤ alignUp pos size := by
  intro size hsize pos
  obtain ⟨index, -, rfl⟩ := List.mem_map.mp hsize
  exact le_alignUp pos (lt_of_lt_of_le (by decide) (le_regionBytes _))

/-- The loop over the boxes computes the layout, while nothing overflows. -/
theorem foldl_offsets (htotal : ∀ index ∈ indices, boxTotal u index*8 < 2^32)
    (hne : ∀ index ∈ indices, boxTotal u index ≠ 0)
    (hends : layoutEnd alignUp 0 pos (indices.map (boxBytes u)) < 2^32) :
    indices.foldl (fun offset index =>
      let region := aclSramRegionSize offset (configAt u index).bss.total
        (configAt u index).stackSize
      (region.1+region.2)%2^32) pos = layoutEnd alignUp 0 pos (indices.map (boxBytes u)) := by
  induction indices generalizing pos with
  | nil => rfl
  | cons index indices ih =>
    obtain ⟨htotalHead, htotal⟩ := List.forall_mem_cons.mp htotal
    obtain ⟨hneHead, hne⟩ := List.forall_mem_cons.mp hne
    rw [List.map_cons, layoutEnd_cons] at hends ⊢
    have hle : alignUp pos (boxBytes u index)+boxBytes u index+0 ≤ layoutEnd alignUp 0
        (alignUp pos (boxBytes u index)+boxBytes u index+0) (indices.map (boxBytes u)) :=
      le_layoutEnd (le_alignUp_boxes u indices)
    have hpos : pos ≤ alignUp pos (boxBytes u index) :=
      le_alignUp pos (lt_of_lt_of_le (by decide) (le_regionBytes _))
    rw [List.foldl_cons, aclSramRegionSize_box (by omega) htotalHead hneHead, ← ih htotal hne hends]
    dsimp only
    rw [Nat.mod_eq_of_lt (show alignUp pos (boxBytes u index) < 2^32 by omega),
      Nat.mod_eq_of_lt (by omega)]
    rfl

theorem le_boxesEnd (u : UvisorConfig) (indices : List ℕ) : u.bssBoxesStart ≤ boxesEnd u indices :=
  le_layoutEnd (le_alignUp_boxes u indices)

/-- The cost of an order is the memory that it takes. -/
theorem sramSize_eq {order : ℕ → ℕ} (h : NoOverflow u (secureBoxes count order)) :
    sramSize u (count-1) order = consumption u count order := by
  have hfold := foldl_offsets h.total (fun index hindex => boxTotal_ne_zero (h.shift index hindex))
    h.ends
  have hle := le_boxesEnd u (secureBoxes count order)
  have hlt := h.ends
  rw [secureBoxes, List.foldl_map] at hfold
  rw [sramSize, consumption, boxesEnd, secureBoxes, ← hfold]
  rw [boxesEnd, secureBoxes, ← hfold] at hle hlt
  unfold wordSub
  dsimp only at hle hlt ⊢
  omega

/-- No order takes all of the address space but one byte. -/
theorem consumption_lt {order : ℕ → ℕ} (h : NoOverflow u (secureBoxes count order))
    (hcount : 2 ≤ count) : consumption u count order < 2^32-1 := by
  have hne : (secureBoxes count order).map (boxBytes u) ≠ [] := by
    intro hnil
    have hlength := congrArg List.length hnil
    rw [secureBoxes, List.length_map, List.length_map, List.length_range', List.length_nil]
      at hlength
    omega
  have hdvd : 256 ∣ boxesEnd u (secureBoxes count order) := by
    refine dvd_layoutEnd (fun size hsize => ?_) (.inl hne)
    obtain ⟨index, -, rfl⟩ := List.mem_map.mp hsize
    exact Nat.pow_dvd_pow 2 (le_max_left 8 _)
  have hlt := h.ends
  unfold consumption
  omega

end Costs

/-! ## The search -/

section Search

variable {u : UvisorConfig} {count : ℕ}

/-- With secure boxes the search finds one of the best orders, and boot goes on
if there is enough memory for it. -/
theorem vmpuOrderBoxes_eq (hcount : 2 ≤ count)
    (h : ∀ σ : Equiv.Perm ℕ, Moves σ 1 (count-1) → NoOverflow u (secureBoxes count σ)) :
    ∃ σ : Equiv.Perm ℕ, Moves σ 1 (count-1) ∧
      vmpuOrderBoxes .armv7m u count =
        (if availableSramSize u < consumption u count σ then none else some ⇑σ) ∧
      ∀ τ : Equiv.Perm ℕ, Moves τ 1 (count-1) → consumption u count σ ≤ consumption u count τ := by
  obtain ⟨n, hn⟩ : ∃ n, count-1 = n+1 := ⟨count-2, by omega⟩
  have hcost : ∀ σ : Equiv.Perm ℕ, Moves σ 1 (count-1) →
      sramSize u (count-1) ((fun i => i) ∘ σ) = consumption u count σ :=
    fun σ hσ => sramSize_eq (h σ hσ)
  have hlimit : ∀ σ : Equiv.Perm ℕ, Moves σ 1 (n+1) →
      sramSize u (count-1) ((fun i => i) ∘ σ) < 2^32-1 := fun σ hσ => by
    rw [hcost σ (hn ▸ hσ)]
    exact consumption_lt (h σ (hn ▸ hσ)) hcount
  obtain ⟨σ, hσ, hsearch, hleast⟩ := search_least hlimit
  refine ⟨σ, hn ▸ hσ, ?_, fun τ hτ => ?_⟩
  · rw [← hcost σ (hn ▸ hσ), vmpuOrderBoxes]
    simp only [hn] at hsearch ⊢
    rw [hsearch]
    rfl
  · rw [← hcost σ (hn ▸ hσ), ← hcost τ hτ]
    exact hleast τ (hn ▸ hτ)

/-- Without secure boxes there is never an order. -/
theorem vmpuOrderBoxes_one (u : UvisorConfig) : vmpuOrderBoxes .armv7m u 1 = none := by
  unfold vmpuOrderBoxes
  dsimp only
  split_ifs <;> rfl

/-- Nothing has to be laid out then, so that there is an order that fits. -/
theorem not_optimal_one (u : UvisorConfig) : ¬Optimal u 1 := fun h => by
  obtain ⟨σ, -, hσ, -⟩ := h.best ⟨1, fun _ _ => rfl, by
    rw [show consumption u 1 (1 : Equiv.Perm ℕ) = 0 from Nat.sub_self _]
    exact Nat.zero_le _⟩
  rw [vmpuOrderBoxes_one] at hσ
  cases hσ

/-- For every table whose layouts do not overflow, the order chosen is one of
the best, and boot halts exactly if none fits, unless there is no secure box. -/
theorem optimal_iff (hcount : 1 ≤ count)
    (h : ∀ σ : Equiv.Perm ℕ, Moves σ 1 (count-1) → NoOverflow u (secureBoxes count σ)) :
    Optimal u count ↔ count ≠ 1 := by
  constructor
  · rintro hoptimal rfl
    exact not_optimal_one u hoptimal
  · intro hne
    obtain ⟨σ, hσ, heq, hleast⟩ := vmpuOrderBoxes_eq (by omega) h
    refine ⟨fun ⟨τ, hτ, hfits⟩ => ⟨σ, hσ, ?_, hleast⟩, fun hnone => ?_⟩
    · rw [heq, if_neg (not_lt.mpr ((hleast τ hτ).trans hfits))]
    · rw [heq, if_pos (hnone σ hσ)]

end Search

/-! ## Two secure boxes, and none -/

open BoxAgreement

/-- The layouts of a small and a large box do not overflow. -/
theorem threeConfigs_noOverflow (σ : Equiv.Perm ℕ) (h : Moves σ 1 2) :
    NoOverflow (threeConfigs 64 4096) (secureBoxes 3 σ) := by
  have hleaf : (fun i => i) ∘ ⇑σ ∈ leaves 2 1 (fun i : ℕ => i) := mem_leaves_iff.mpr ⟨σ, h, rfl⟩
  have htotal : ∀ f ∈ leaves 2 1 (fun i : ℕ => i), ∀ index ∈ secureBoxes 3 f,
      boxTotal (threeConfigs 64 4096) index*8 < 2^32 := by decide
  have hshift : ∀ f ∈ leaves 2 1 (fun i : ℕ => i), ∀ index ∈ secureBoxes 3 f,
      2^regionBits (boxTotal (threeConfigs 64 4096) index*8/6) < 2^32 := by decide
  have hends : ∀ f ∈ leaves 2 1 (fun i : ℕ => i),
      boxesEnd (threeConfigs 64 4096) (secureBoxes 3 f) < 2^32 := by decide
  exact ⟨htotal _ hleaf, hshift _ hleaf, hends _ hleaf⟩

theorem optimal_threeConfigs : Optimal (threeConfigs 64 4096) 3 ↔ 3 ≠ 1 :=
  optimal_iff (by decide) threeConfigs_noOverflow

/-- A device without secure boxes. -/
def onlyPublic : UvisorConfig :=
  {threeConfigs 64 4096 with
    cfgtblPtrEnd := 0x80004
    start_le_end := by decide
    end_lt := by decide}

/-- Boot halts for want of memory although there is nothing to lay out. -/
theorem onlyPublic_not_optimal : boxCount onlyPublic = 1 ∧
    (∀ σ : Equiv.Perm ℕ, NoOverflow onlyPublic (secureBoxes 1 σ)) ∧ ¬Optimal onlyPublic 1 := by
  refine ⟨by decide, fun σ => ⟨?_, ?_, ?_⟩, not_optimal_one onlyPublic⟩
  · exact fun index hindex => absurd hindex List.not_mem_nil
  · exact fun index hindex => absurd hindex List.not_mem_nil
  · exact (by decide : 0x20002000 < 2^32)

end Uvisor.BoxOrder
