import Uvisor.ArmMpu

/-!
# Accesses through the memory protection unit of ARMv7-M

An address lies in a region when its high bits are those of the base address,
and then in one of its eight subregions. The enabled region with the highest
number that has the address in a subregion that is not disabled decides about
an access without privileges. Without such a region there is no access.
-/

namespace Uvisor.ArmMpu

/-! ## Addresses -/

/-- Size in bytes of a region, from its size field. -/
def Region.bytes (r : Region) : ℕ := 2^((r.rasr.extractLsb' 1 5).toNat+1)

/-- Whether an address lies in a region. -/
def Region.covers (r : Region) (address : Word) : Bool :=
  address.toNat/r.bytes == r.address.toNat/r.bytes

/-- The subregion with an address of the region. -/
def Region.subregionOf (r : Region) (address : Word) : ℕ :=
  address.toNat%r.bytes/r.subregionBytes

/-- Whether the subregion of an address of the region is not disabled. Regions
of less than 256 bytes have no subregions. -/
def Region.keeps (r : Region) (address : Word) : Bool :=
  r.bytes < 256 || r.subregionEnabled (r.subregionOf address)

/-- Whether a region decides about an address. -/
def Region.hits (r : Region) (address : Word) : Bool :=
  r.enabled && r.covers address && r.keeps address

/-! ## Permissions -/

/-- An access to data. -/
inductive Access where
  | read
  | write
  deriving DecidableEq, Repr

/-- Whether the access permissions of a region allow an access without
privileges. -/
def Region.permits (r : Region) : Access → Bool
  | .read =>
    let ap := (r.rasr.extractLsb' 24 3).toNat
    ap == 2 || ap == 3 || ap == 6 || ap == 7
  | .write => (r.rasr.extractLsb' 24 3).toNat == 3

/-- The decision of the regions below a number. The last one is asked first. -/
def grantsBelow (regions : ℕ → Region) (address : Word) (access : Access) : ℕ → Bool
  | 0 => false
  | i+1 =>
    if (regions i).hits address then (regions i).permits access
    else grantsBelow regions address access i

/-- Whether the unit grants an access without privileges. -/
def Mpu.grants (m : Mpu) (address : Word) (access : Access) : Bool :=
  grantsBelow m.regions address access regionsMax

/-! ## Changes of one slot -/

section Decisions

variable {regions : ℕ → Region} {address : Word} {access : Access} {region : Region} {n slot : ℕ}

/-- No region from a slot up to a number decides about an address. -/
def Unshadowed (regions : ℕ → Region) (address : Word) (slot n : ℕ) : Prop :=
  ∀ i < n, slot < i → (regions i).hits address = false

/-- A region above the slot decides as before. -/
theorem grantsBelow_shadowed (h : ¬Unshadowed regions address slot n) :
    grantsBelow (Function.update regions slot region) address access n =
      grantsBelow regions address access n := by
  induction n with
  | zero => exact absurd (fun i hi => absurd hi (Nat.not_lt_zero i)) h
  | succ n ih =>
    have hslot : n ≠ slot := by
      rintro rfl
      exact h fun i hi hlow => absurd hlow (by omega)
    simp only [grantsBelow, Function.update_of_ne hslot]
    by_cases hhit : (regions n).hits address = true
    · rw [if_pos hhit, if_pos hhit]
    · rw [if_neg hhit, if_neg hhit]
      refine ih fun hall => h fun i hi hlow => ?_
      rcases Nat.lt_succ_iff_lt_or_eq.mp hi with hlt | rfl
      · exact hall i hlt hlow
      · exact Bool.eq_false_iff.mpr hhit

theorem grantsBelow_congr {regions' : ℕ → Region} (h : ∀ i < n, regions' i = regions i) :
    grantsBelow regions' address access n = grantsBelow regions address access n := by
  induction n with
  | zero => rfl
  | succ n ih =>
    simp only [grantsBelow, h n (Nat.lt_succ_self n), ih fun i hi => h i (Nat.lt_succ_of_lt hi)]

/-- Otherwise the new region decides, or one below it. -/
theorem grantsBelow_unshadowed (hslot : slot < n) (h : Unshadowed regions address slot n) :
    grantsBelow (Function.update regions slot region) address access n =
      if region.hits address then region.permits access
      else grantsBelow regions address access slot := by
  induction n with
  | zero => exact absurd hslot (Nat.not_lt_zero slot)
  | succ n ih =>
    by_cases hlast : n = slot
    · subst hlast
      have hbelow : grantsBelow (Function.update regions n region) address access n =
          grantsBelow regions address access n :=
        grantsBelow_congr fun i hi => Function.update_of_ne (Nat.ne_of_lt hi) _ _
      simp only [grantsBelow, Function.update_self, hbelow]
    · have hmiss := h n (Nat.lt_succ_self n) (by omega)
      simp only [grantsBelow, Function.update_of_ne hlast, hmiss]
      exact ih (by omega) fun i hi hlow => h i (Nat.lt_succ_of_lt hi) hlow

end Decisions

end Uvisor.ArmMpu
