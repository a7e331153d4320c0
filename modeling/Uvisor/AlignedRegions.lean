import Mathlib.Data.Nat.Log
import Mathlib.Data.List.Basic
import Mathlib.Tactic.Ring

/-!
# Regions that are laid out one after the other

Positions grow upwards. Each region starts at or after the position that the
regions before it have left, and a gap of fixed size follows it. With a start
that is rounded up to the size of the region, and sizes that are powers of two,
this is how the regions of a memory protection unit are laid out.
-/

namespace Uvisor.AlignedRegions

/-! ## Rounding -/

/-- The logarithm rounded up, from the number of significant bits. -/
theorem ceilLog_eq_clog {n : ℕ} (hn : n ≠ 0) :
    (if 2^n.log2 ≠ n then n.log2+1 else n.log2) = Nat.clog 2 n := by
  have hlog : 2^n.log2 ≤ n := Nat.log2_self_le hn
  have hnext : n < 2^(n.log2+1) := Nat.lt_log2_self
  by_cases hexact : 2^n.log2 = n
  · rw [if_neg (not_not.mpr hexact)]
    conv_rhs => rw [← hexact]
    exact (Nat.clog_pow 2 _ (by decide)).symm
  · rw [if_pos hexact]
    have hup : n.log2 < Nat.clog 2 n :=
      (Nat.lt_clog_iff_pow_lt (by decide)).mpr (lt_of_le_of_ne hlog hexact)
    have hdown : Nat.clog 2 n ≤ n.log2+1 := Nat.clog_le_of_le_pow hnext.le
    omega

/-- A number fits into the logarithm rounded up, also if that has a lower bound. -/
theorem le_two_pow_max_clog (bits n : ℕ) : n ≤ 2^max bits (Nat.clog 2 n) :=
  (Nat.le_pow_clog (by decide) n).trans (Nat.pow_le_pow_right (by decide) (le_max_right _ _))

/-- The position rounded up to a multiple of a size. -/
def alignUp (pos size : ℕ) : ℕ := if pos%size ≠ 0 then pos/size*size+size else pos

theorem le_alignUp (pos : ℕ) {size : ℕ} (hsize : 0 < size) : pos ≤ alignUp pos size := by
  unfold alignUp
  split_ifs with h
  · have hdiv := Nat.div_add_mod' pos size
    have hlt := Nat.mod_lt pos hsize
    omega
  · exact le_rfl

theorem dvd_alignUp (pos size : ℕ) : size ∣ alignUp pos size := by
  unfold alignUp
  split_ifs with h
  · exact Nat.dvd_add (Nat.dvd_mul_left _ _) (Nat.dvd_refl size)
  · exact Nat.dvd_of_mod_eq_zero (not_not.mp h)

/-! ## Layouts -/

/-- A region of memory. -/
structure Span where
  /-- Address of the first byte. -/
  start : ℕ
  /-- Number of bytes. -/
  size : ℕ

/-- Address after the last byte. -/
def Span.ends (span : Span) : ℕ := span.start+span.size

/-- Two regions are in order, with a gap between them. -/
def Apart (gap : ℕ) (a b : Span) : Prop := a.ends+gap ≤ b.start

section Layout

variable (place : ℕ → ℕ → ℕ) (gap : ℕ)

/-- The position after regions of given sizes. -/
def layoutEnd (pos : ℕ) (sizes : List ℕ) : ℕ :=
  sizes.foldl (fun pos size => place pos size+size+gap) pos

/-- The regions of given sizes from a position on. -/
def layout : ℕ → List ℕ → List Span
  | _, [] => []
  | pos, size :: sizes => ⟨place pos size, size⟩ :: layout (place pos size+size+gap) sizes

variable {place gap} {pos : ℕ} {sizes : List ℕ}

@[simp] theorem layoutEnd_nil : layoutEnd place gap pos [] = pos := rfl

@[simp] theorem layoutEnd_cons (size : ℕ) : layoutEnd place gap pos (size :: sizes) =
    layoutEnd place gap (place pos size+size+gap) sizes := rfl

theorem layoutEnd_append (others : List ℕ) : layoutEnd place gap pos (sizes ++ others) =
    layoutEnd place gap (layoutEnd place gap pos sizes) others :=
  List.foldl_append

/-- Positions do not go back. -/
theorem le_layoutEnd (hplace : ∀ size ∈ sizes, ∀ pos, pos ≤ place pos size) :
    pos ≤ layoutEnd place gap pos sizes := by
  induction sizes generalizing pos with
  | nil => exact le_rfl
  | cons size sizes ih =>
    obtain ⟨hhead, htail⟩ := List.forall_mem_cons.mp hplace
    have hrest : place pos size+size+gap ≤ layoutEnd place gap pos (size :: sizes) := ih htail
    have hstep := hhead pos
    omega

/-- Every region lies between the first and the last position, with room for
the gap after it. -/
theorem layout_within (hplace : ∀ size ∈ sizes, ∀ pos, pos ≤ place pos size) {span : Span}
    (h : span ∈ layout place gap pos sizes) :
    pos ≤ span.start ∧ span.ends+gap ≤ layoutEnd place gap pos sizes := by
  induction sizes generalizing pos with
  | nil => cases h
  | cons size sizes ih =>
    obtain ⟨hhead, htail⟩ := List.forall_mem_cons.mp hplace
    have hstep := hhead pos
    rcases List.mem_cons.mp h with rfl | hrest
    · exact ⟨hstep, le_layoutEnd htail⟩
    · obtain ⟨hstart, hends⟩ := ih htail hrest
      exact ⟨by omega, hends⟩

/-- The regions are disjoint, in order, and separated by the gap. -/
theorem layout_apart (hplace : ∀ size ∈ sizes, ∀ pos, pos ≤ place pos size) :
    (layout place gap pos sizes).Pairwise (Apart gap) := by
  induction sizes generalizing pos with
  | nil => exact List.Pairwise.nil
  | cons size sizes ih =>
    have htail := (List.forall_mem_cons.mp hplace).2
    exact List.pairwise_cons.mpr ⟨fun span h => (layout_within htail h).1, ih htail⟩

/-- With sizes that are multiples of a number, and starts rounded up to them,
the last position is a multiple of it. -/
theorem dvd_layoutEnd {d : ℕ} (hsizes : ∀ size ∈ sizes, d ∣ size) (h : sizes ≠ [] ∨ d ∣ pos) :
    d ∣ layoutEnd alignUp 0 pos sizes := by
  induction sizes generalizing pos with
  | nil => exact h.resolve_left (· rfl)
  | cons size sizes ih =>
    obtain ⟨hhead, htail⟩ := List.forall_mem_cons.mp hsizes
    have hnext : d ∣ alignUp pos size+size := Nat.dvd_add (hhead.trans (dvd_alignUp pos size)) hhead
    exact ih htail (.inr hnext)

theorem layout_append (others : List ℕ) : layout place gap pos (sizes ++ others) =
    layout place gap pos sizes ++ layout place gap (layoutEnd place gap pos sizes) others := by
  induction sizes generalizing pos with
  | nil => rfl
  | cons size sizes ih => exact congrArg (_ :: ·) ih

end Layout

end Uvisor.AlignedRegions
