import Uvisor.SecureAllocator

/-!
# Aligned allocations

An aligned block is cut out of one that is larger by the alignment. The test of
the alignment looks at one bit only, the one below the highest, so that other
words than powers of two pass it, and the size of the larger block may wrap.
-/

namespace Uvisor.AlignedAlloc

open SecureAllocator AlignedWords

/-- A pointer is aligned to a power of two, and the requested bytes from there on
lie in the block that was allocated for them. -/
structure Placed (block pointer alignment size : Word) : Prop where
  /-- The alignment. -/
  power : ∃ k, alignment.toNat = 2^k
  /-- The pointer is a multiple of it. -/
  aligned : alignment.toNat ∣ pointer.toNat
  /-- The block starts at the pointer or before. -/
  start : block.toNat ≤ pointer.toNat
  /-- The bytes end in the block. -/
  ends : pointer.toNat+size.toNat ≤ block.toNat+(size+alignment-1).toNat

/-- What secure_aligned_alloc returns is placed well, with every allocator. -/
def PlacesWell (alignment size : Word) : Prop :=
  ∀ (σ : Type) (rtx : Rtx σ) (table : PageTable) (s : σ),
    (secureAlignedAlloc rtx table alignment size s).1 ≠ 0 →
    Placed (secureMalloc rtx table (size+alignment-1) s).1
      (secureAlignedAlloc rtx table alignment size s).1 alignment size

/-- The two highest significant bits are set. -/
def StartsWithTwo (alignment : Word) : Prop :=
  1 < alignment.toNat ∧ alignment.toNat.testBit (alignment.toNat.log2-1) = true

/-- Alignments that are refused, the one that yields NULL, and powers of two with
which the size does not wrap. -/
def Suitable (alignment size : Word) : Prop :=
  StartsWithTwo alignment ∨ alignment = 0 ∨
    ((∃ k, alignment.toNat = 2^k) ∧ size.toNat+alignment.toNat ≤ 2^32)

section Allocations

variable {σ : Type} {rtx : Rtx σ} {table : PageTable} {s : σ} {alignment size : Word}

/-- A block lies in the address space. -/
theorem secureMallocFrom_block {pages index : ℕ}
    (h : (secureMallocFrom rtx table size pages index s).1 ≠ 0) :
    (secureMallocFrom rtx table size pages index s).1.toNat+size.toNat ≤ 2^32 := by
  induction pages generalizing index s with
  | zero => exact absurd rfl h
  | succ pages ih =>
    unfold secureMallocFrom at h ⊢
    dsimp only at h ⊢
    split_ifs at h ⊢ with hmem
    · exact rtx.block _ _ _ hmem
    · exact ih h

theorem secureMalloc_block (h : (secureMalloc rtx table size s).1 ≠ 0) :
    (secureMalloc rtx table size s).1.toNat+size.toNat ≤ 2^32 :=
  secureMallocFrom_block h

/-- The bit that is tested. -/
theorem secondBit_eq (h : 1 < alignment.toNat) :
    secondBit alignment = BitVec.twoPow 32 (alignment.toNat.log2-1) := by
  have hne : alignment ≠ 0 := by
    rintro rfl
    exact absurd h (by decide)
  have hclz := toNat_clz hne
  have hlog : alignment.toNat.log2 < 32 := (Nat.log2_lt (by omega)).mpr alignment.isLt
  have hpos : 0 < alignment.toNat.log2 := by
    by_contra hzero
    have hlt : alignment.toNat < 2^(alignment.toNat.log2+1) := Nat.lt_log2_self
    rw [Nat.eq_zero_of_not_pos hzero] at hlt
    omega
  have hshift : (31-alignment.clz-1 : Word).toNat = alignment.toNat.log2-1 := by
    have hbits : (31-alignment.clz : Word).toNat = alignment.toNat.log2 := by
      rw [BitVec.toNat_sub_of_le (BitVec.le_def.mpr (by rw [hclz]; exact Nat.sub_le _ _)), hclz]
      change 31-(32-1-_) = _
      omega
    rw [BitVec.toNat_sub_of_le (BitVec.le_def.mpr (by rw [hbits]; exact hpos)), hbits]
    rfl
  rw [secondBit, hshift, Nat.mod_eq_of_lt (by omega)]
  rfl

/-- Exactly the alignments that start with two set bits are refused. -/
theorem refused_iff : alignment &&& secondBit alignment ≠ 0 ↔ StartsWithTwo alignment := by
  by_cases h : 1 < alignment.toNat
  · have hlog : alignment.toNat.log2 < 32 := (Nat.log2_lt (by omega)).mpr alignment.isLt
    have hne : BitVec.twoPow 32 (alignment.toNat.log2-1) ≠ 0 := by
      intro hzero
      have hnat := congrArg BitVec.toNat hzero
      rw [BitVec.toNat_twoPow_of_lt (by omega)] at hnat
      exact absurd hnat (Nat.two_pow_pos _).ne'
    rw [secondBit_eq h, BitVec.and_twoPow, StartsWithTwo,
      BitVec.testBit_toNat]
    split_ifs with hbit
    · exact ⟨fun _ => ⟨h, hbit⟩, fun _ => hne⟩
    · exact ⟨fun hzero => absurd rfl hzero, fun hboth => absurd hboth.2 hbit⟩
  · have hsmall : alignment = 0 ∨ alignment = 1 := by
      rcases Nat.le_one_iff_eq_zero_or_eq_one.mp (not_lt.mp h) with h0 | h1
      · exact .inl (BitVec.eq_of_toNat_eq h0)
      · exact .inr (BitVec.eq_of_toNat_eq h1)
    have hnone : alignment &&& secondBit alignment = 0 := by
      rcases hsmall with rfl | rfl
      · exact BitVec.zero_and
      · decide
    exact ⟨fun hbit => absurd hnone hbit, fun hboth => absurd hboth.1 h⟩

/-- A power of two has one set bit. -/
theorem not_startsWithTwo {k : ℕ} (h : alignment.toNat = 2^k) : ¬StartsWithTwo alignment := by
  rintro ⟨hlarge, hbit⟩
  rw [h] at hlarge hbit
  rw [Nat.log2_two_pow, Nat.testBit_two_pow] at hbit
  have hk : k = k-1 := of_decide_eq_true hbit
  have hzero : k = 0 := by omega
  rw [hzero] at hlarge
  exact absurd hlarge (by decide)

/-- The pointer without the steps that lead to it. -/
theorem secureAlignedAlloc_fst (h : ¬StartsWithTwo alignment) :
    (secureAlignedAlloc rtx table alignment size s).1 =
      if (secureMalloc rtx table (size+alignment-1) s).1 = 0 then 0
      else ((secureMalloc rtx table (size+alignment-1) s).1+alignment-1) &&& ~~~(alignment-1) := by
  unfold secureAlignedAlloc
  rw [if_neg (mt refused_iff.mp h)]
  dsimp only
  split_ifs <;> rfl

/-- Any block that is larger by the alignment has an aligned block in it. -/
theorem placed_of_power {k : ℕ} {block : Word} (hpower : alignment.toNat = 2^k)
    (hsize : size.toNat+alignment.toNat ≤ 2^32)
    (hblock : block.toNat+(size+alignment-1).toNat ≤ 2^32)
    (hne : (block+alignment-1) &&& ~~~(alignment-1) ≠ 0) :
    Placed block ((block+alignment-1) &&& ~~~(alignment-1)) alignment size := by
  have hpos : 0 < alignment.toNat := hpower ▸ Nat.two_pow_pos k
  have hzero : alignment ≠ 0 := by
    rintro rfl
    exact absurd hpos (lt_irrefl 0)
  have hmask : (alignment-1).toNat = 2^k-1 := by rw [toNat_pred hzero, hpower]
  have hlarger : (size+alignment-1).toNat = size.toNat+(alignment.toNat-1) := by
    rw [toNat_add_pred hzero]
    exact Nat.mod_eq_of_lt (by omega)
  rw [hlarger] at hblock
  have hend := toNat_add_pred (y := block) hzero
  have hpointer := toNat_and_not_low (x := block+alignment-1) hmask
  -- Only an empty block can end where the address space does.
  rcases Nat.lt_or_ge (block.toNat+(alignment.toNat-1)) (2^32) with hlt | hge
  · rw [hend, ← hpower, Nat.mod_eq_of_lt hlt] at hpointer
    have hdivmod := Nat.div_add_mod' (block.toNat+(alignment.toNat-1)) alignment.toNat
    have hmod := Nat.mod_lt (block.toNat+(alignment.toNat-1)) hpos
    exact {
      power := ⟨k, hpower⟩
      aligned := by
        rw [hpointer]
        exact Nat.dvd_mul_left _ _
      start := by
        rw [hpointer]
        omega
      ends := by
        rw [hpointer, hlarger]
        omega }
  · rw [hend, show block.toNat+(alignment.toNat-1) = 2^32 by omega, Nat.mod_self, Nat.zero_div,
      Nat.zero_mul] at hpointer
    exact absurd (BitVec.eq_of_toNat_eq hpointer) hne

theorem placesWell_of_suitable (h : Suitable alignment size) : PlacesWell alignment size := by
  intro σ rtx table s hne
  rcases h with htwo | rfl | ⟨⟨k, hk⟩, hsize⟩
  · unfold secureAlignedAlloc at hne
    rw [if_pos (refused_iff.mpr htwo)] at hne
    exact absurd rfl hne
  · have hzero : ¬StartsWithTwo 0 := fun hboth => absurd hboth.1 (by decide)
    rw [secureAlignedAlloc_fst hzero] at hne
    split_ifs at hne
    · exact absurd rfl hne
    · refine absurd ?_ hne
      have hmask : ~~~((0 : Word)-1) = 0 := by decide
      rw [hmask]
      exact BitVec.and_zero
  · rw [secureAlignedAlloc_fst (not_startsWithTwo hk)] at hne ⊢
    split_ifs at hne ⊢ with hnull
    · exact absurd rfl hne
    · exact placed_of_power hk hsize (secureMalloc_block hnull) hne

/-- Pools that serve every request at address 1. -/
def firstByte : Rtx Unit where
  memoryInit _ _ s := s
  memoryAlloc _ _ s := (1, s)
  block mem size s _ := by
    have hsize := size.isLt
    change 1+size.toNat ≤ 2^32
    omega

theorem secureMalloc_firstByte (table : PageTable) (size : Word) :
    (secureMalloc firstByte table size ()).1 = 1 := by
  obtain ⟨pages, hpages⟩ := Nat.exists_eq_add_of_le' (le_max_left 1 table.pageCount.toNat)
  rw [secureMalloc, hpages]
  rfl

theorem suitable_of_placesWell (h : PlacesWell alignment size) : Suitable alignment size := by
  by_cases htwo : StartsWithTwo alignment
  · exact .inl htwo
  by_cases hzero : alignment = 0
  · exact .inr (.inl hzero)
  have hplaced := h Unit firstByte ⟨0, 0, fun _ => 0⟩ ()
  rw [secureAlignedAlloc_fst htwo, secureMalloc_firstByte, if_neg (by decide)] at hplaced
  have hcancel : (1 : Word)+alignment-1 = alignment := by
    rw [BitVec.add_comm, BitVec.add_sub_cancel]
  rw [hcancel] at hplaced
  have hall := hplaced (and_not_pred_ne_zero hzero)
  obtain ⟨k, hk⟩ := hall.power
  refine .inr (.inr ⟨⟨k, hk⟩, ?_⟩)
  have hmask : (alignment-1).toNat = 2^k-1 := by rw [toNat_pred hzero, hk]
  have hends := hall.ends
  rw [toNat_and_not_low hmask, ← hk, Nat.div_self (toNat_pos hzero), Nat.one_mul] at hends
  rw [toNat_add_pred hzero] at hends
  change _ ≤ 1+_%2^32 at hends
  have hmod := Nat.mod_lt (size.toNat+(alignment.toNat-1)) (Nat.two_pow_pos 32)
  omega

/-- Aligned allocations are placed well exactly with suitable arguments. -/
theorem placesWell_iff (alignment size : Word) :
    PlacesWell alignment size ↔ Suitable alignment size :=
  ⟨suitable_of_placesWell, placesWell_of_suitable⟩

/-- Pools with room for 1024 bytes. -/
def smallPool : Rtx Unit where
  memoryInit _ _ s := s
  memoryAlloc _ size s := (if size.toNat ≤ 1024 then 0x20001008 else 0, s)
  block mem size s h := by
    dsimp only at h ⊢
    split_ifs at h ⊢ with hsize
    · change 0x20001008+size.toNat ≤ 2^32
      omega
    · exact absurd rfl h

/-- Nine is taken for a power of two. -/
theorem placesWell_fails_nine :
    (secureAlignedAlloc smallPool ⟨1024, 1, fun _ => 0x20001000⟩ 9 8 ()).1 = 0x20001010 ∧
      ¬PlacesWell 9 8 := by
  refine ⟨by decide, fun h => ?_⟩
  have hplaced := h Unit smallPool ⟨1024, 1, fun _ => 0x20001000⟩ () (by decide)
  exact absurd hplaced.aligned (by decide)

end Allocations

end Uvisor.AlignedAlloc
