import Uvisor.AlignedWords
import Uvisor.BusRecovery

/-!
# Bit-band aliases

Each bit of the first megabyte of the SRAM and of the peripherals has a word of
its own in an alias region of 32 megabytes. Which bit of which word that is can be
computed from the distance to the start of the alias region alone: its lowest two
bits count bytes of the alias, the next five the bits of a word, and the rest
words.
-/

namespace Uvisor.BitBand

open BusRecovery (periphBitbandAliasToAddr sramBitbandAliasToAddr physicalAddr scbScr
  vmpuFaultFindAcl)
open AlignedWords

abbrev Word := BitVec 32

/-! ## Macros and functions -/

/-- A region and the region of its aliases. -/
structure Band where
  /-- First address of the region. -/
  start : Word
  /-- First alias. -/
  bitbandStart : Word
  /-- Last byte of the last alias. -/
  bitbandEnd : Word
  /-- The region begins with a whole word. -/
  aligned : start.toNat%4 = 0
  /-- So do the aliases. -/
  bitbandAligned : bitbandStart.toNat%4 = 0
  /-- One megabyte. -/
  fits : start.toNat+2^20 ≤ 2^32
  /-- 32 megabytes. -/
  bitbandSize : bitbandEnd.toNat+1 = bitbandStart.toNat+2^25

/-- The alias of a bit. -/
def Band.addrToAlias (band : Band) (addr bit : Word) : Word :=
  band.bitbandStart+32*(addr-band.start)+4*bit

/-- The address of the word that an alias stands for. -/
def Band.aliasToAddr (band : Band) (aliasAddr : Word) : Word :=
  (((aliasAddr-band.bitbandStart) >>> 5) &&& ~~~0x3)+band.start

/-- The bit of that word. -/
def Band.aliasToBit (band : Band) (aliasAddr : Word) : Word :=
  ((aliasAddr-band.bitbandStart)-((band.aliasToAddr aliasAddr-band.start) <<< 5)) >>> 2

/-- Aliases of the SRAM. -/
def sramBand : Band where
  start := 0x20000000
  bitbandStart := 0x22000000
  bitbandEnd := 0x23FFFFFF
  aligned := rfl
  bitbandAligned := rfl
  fits := by decide
  bitbandSize := by decide

/-- Aliases of the peripherals. -/
def periphBand : Band where
  start := 0x40000000
  bitbandStart := 0x42000000
  bitbandEnd := 0x43FFFFFF
  aligned := rfl
  bitbandAligned := rfl
  fits := by decide
  bitbandSize := by decide

/-- VMPU_SRAM_BITBAND_ADDR_TO_ALIAS. -/
def sramBitbandAddrToAlias : Word → Word → Word := sramBand.addrToAlias

/-- VMPU_SRAM_BITBAND_ALIAS_TO_BIT. -/
def sramBitbandAliasToBit : Word → Word := sramBand.aliasToBit

/-- VMPU_PERIPH_BITBAND_ADDR_TO_ALIAS. -/
def periphBitbandAddrToAlias : Word → Word → Word := periphBand.addrToAlias

/-- VMPU_PERIPH_BITBAND_ALIAS_TO_BIT. -/
def periphBitbandAliasToBit : Word → Word := periphBand.aliasToBit

/-- debug_aips_bitn_from_alias. -/
def debugAipsBitnFromAlias (aliasAddr aipsAddr : Word) : Word :=
  ((aliasAddr-0x42000000)-((aipsAddr-0x40000000) <<< 5)) >>> 2

/-- debug_aips_addr_from_alias. -/
def debugAipsAddrFromAlias (aliasAddr : Word) : Word :=
  ((((aliasAddr-0x42000000) >>> 2) &&& ~~~0x1F) >>> 3)+0x40000000

/-! ## Words and their distances -/

/-- A word of the region. -/
def Band.IsWord (band : Band) (addr : Word) : Prop :=
  band.start ≤ addr ∧ addr.toNat < band.start.toNat+2^20 ∧ addr.toNat%4 = 0

/-- A word of the region of the aliases. -/
def Band.IsAlias (band : Band) (aliasAddr : Word) : Prop :=
  band.bitbandStart ≤ aliasAddr ∧ aliasAddr ≤ band.bitbandEnd ∧ aliasAddr.toNat%4 = 0

/-- A translation between the words of a region with a bit each, and the words of
the region of the aliases. -/
structure Bijection (band : Band) (addrToAlias : Word → Word → Word)
    (aliasToAddr aliasToBit : Word → Word) : Prop where
  /-- The alias of a bit is one. -/
  isAlias : ∀ addr bit, band.IsWord addr → bit < 32 → band.IsAlias (addrToAlias addr bit)
  /-- The address is found again. -/
  addr : ∀ addr bit, band.IsWord addr → bit < 32 → aliasToAddr (addrToAlias addr bit) = addr
  /-- So is the bit. -/
  bit : ∀ addr bit, band.IsWord addr → bit < 32 → aliasToBit (addrToAlias addr bit) = bit
  /-- An alias stands for a bit of the region. -/
  isWord : ∀ x, band.IsAlias x → band.IsWord (aliasToAddr x) ∧ aliasToBit x < 32
  /-- The alias is found again. -/
  inverse : ∀ x, band.IsAlias x → addrToAlias (aliasToAddr x) (aliasToBit x) = x

section Distances

variable {x y : Word}

/-- Words at the same distance from a word are equal. -/
theorem eq_of_distance_eq (base : Word) (h : (x-base).toNat = (y-base).toNat) : x = y := by
  rw [← BitVec.sub_add_cancel x base, BitVec.eq_of_toNat_eq h, BitVec.sub_add_cancel]

variable (band : Band)

theorem isWord_iff : band.IsWord x ↔ (x-band.start).toNat < 2^20 ∧ (x-band.start).toNat%4 = 0 := by
  have haligned := band.aligned
  have hfits := band.fits
  have hx := x.isLt
  rw [Band.IsWord, BitVec.le_def, BitVec.toNat_sub]
  omega

theorem isAlias_iff : band.IsAlias x ↔
    (x-band.bitbandStart).toNat < 2^25 ∧ (x-band.bitbandStart).toNat%4 = 0 := by
  have haligned := band.bitbandAligned
  have hsize := band.bitbandSize
  have hx := x.isLt
  have hend := band.bitbandEnd.isLt
  rw [Band.IsAlias, BitVec.le_def, BitVec.le_def, BitVec.toNat_sub]
  omega

/-- How far the alias of a bit is from the first one. -/
theorem addrToAlias_distance (addr bit : Word) :
    (band.addrToAlias addr bit-band.bitbandStart).toNat =
      (32*(addr-band.start).toNat+4*bit.toNat)%2^32 := by
  have hcancel : band.addrToAlias addr bit-band.bitbandStart = 32*(addr-band.start)+4*bit := by
    rw [Band.addrToAlias, BitVec.add_assoc, BitVec.add_comm band.bitbandStart,
      BitVec.add_sub_cancel]
  rw [hcancel, BitVec.toNat_add, BitVec.toNat_mul, BitVec.toNat_mul, Nat.mod_add_mod,
    Nat.add_mod_mod]
  rfl

/-- Each 128 bytes of aliases stand for four bytes. -/
theorem aliasToAddr_distance (x : Word) :
    (band.aliasToAddr x-band.start).toNat = (x-band.bitbandStart).toNat/128*4 := by
  have hmask : (0x3 : Word).toNat = 2^2-1 := rfl
  rw [Band.aliasToAddr, BitVec.add_sub_cancel, toNat_and_not_low hmask,
    BitVec.toNat_ushiftRight, Nat.shiftRight_eq_div_pow]
  omega

/-- Within them, each four bytes stand for one bit. -/
theorem aliasToBit_toNat (x : Word) :
    (band.aliasToBit x).toNat = (x-band.bitbandStart).toNat%128/4 := by
  have hshift : ((band.aliasToAddr x-band.start) <<< 5).toNat =
      (x-band.bitbandStart).toNat/128*128 := by
    rw [BitVec.toNat_shiftLeft, aliasToAddr_distance, Nat.shiftLeft_eq]
    have hx := (x-band.bitbandStart).isLt
    omega
  have hle : (band.aliasToAddr x-band.start) <<< 5 ≤ x-band.bitbandStart := by
    rw [BitVec.le_def, hshift]
    exact Nat.div_mul_le_self _ _
  rw [Band.aliasToBit, BitVec.toNat_ushiftRight, BitVec.toNat_sub_of_le hle, hshift,
    Nat.shiftRight_eq_div_pow]
  omega

end Distances

/-! ## Translation of whole regions -/

section Translations

variable (band : Band)

/-- The three formulas invert each other. -/
theorem band_bijection : Bijection band band.addrToAlias band.aliasToAddr band.aliasToBit := by
  have hdistance : ∀ addr bit : Word, band.IsWord addr → bit < 32 →
      (band.addrToAlias addr bit-band.bitbandStart).toNat =
        32*(addr-band.start).toNat+4*bit.toNat := by
    intro addr bit haddr hbit
    rw [isWord_iff] at haddr
    have hlt : bit.toNat < 32 := hbit
    rw [addrToAlias_distance]
    exact Nat.mod_eq_of_lt (by omega)
  exact {
    isAlias := by
      intro addr bit haddr hbit
      have hlt : bit.toNat < 32 := hbit
      rw [isAlias_iff, hdistance addr bit haddr hbit]
      rw [isWord_iff] at haddr
      omega
    addr := by
      intro addr bit haddr hbit
      have hlt : bit.toNat < 32 := hbit
      apply eq_of_distance_eq band.start
      rw [aliasToAddr_distance, hdistance addr bit haddr hbit]
      rw [isWord_iff] at haddr
      omega
    bit := by
      intro addr bit haddr hbit
      have hlt : bit.toNat < 32 := hbit
      apply BitVec.eq_of_toNat_eq
      rw [aliasToBit_toNat, hdistance addr bit haddr hbit]
      rw [isWord_iff] at haddr
      omega
    isWord := by
      intro x hx
      rw [isAlias_iff] at hx
      rw [isWord_iff, BitVec.lt_def, aliasToAddr_distance, aliasToBit_toNat]
      change (_ ∧ _) ∧ _ < 32
      omega
    inverse := by
      intro x hx
      rw [isAlias_iff] at hx
      apply eq_of_distance_eq band.bitbandStart
      rw [addrToAlias_distance, aliasToAddr_distance, aliasToBit_toNat]
      omega }

/-- The macros that are translated with the access rights are those of the bands. -/
theorem aliasToAddr_eq : sramBand.aliasToAddr = sramBitbandAliasToAddr ∧
    periphBand.aliasToAddr = periphBitbandAliasToAddr := ⟨rfl, rfl⟩

/-- The two ways to shift and to mask give the same address. -/
theorem debugAipsAddrFromAlias_eq (x : Word) :
    debugAipsAddrFromAlias x = periphBitbandAliasToAddr x := by
  have hmask : (0x1F : Word).toNat = 2^5-1 := rfl
  have hband := aliasToAddr_distance periphBand x
  apply eq_of_distance_eq periphBand.start
  rw [← aliasToAddr_eq.2, hband, debugAipsAddrFromAlias]
  change ((((x-periphBand.bitbandStart) >>> 2) &&& ~~~0x1F) >>> 3+periphBand.start-
    periphBand.start).toNat = _
  rw [BitVec.add_sub_cancel, BitVec.toNat_ushiftRight, toNat_and_not_low hmask,
    BitVec.toNat_ushiftRight, Nat.shiftRight_eq_div_pow, Nat.shiftRight_eq_div_pow]
  omega

/-- The bit is computed from the address in the same way. -/
theorem debugAipsBitnFromAlias_eq (x : Word) :
    debugAipsBitnFromAlias x (debugAipsAddrFromAlias x) = periphBitbandAliasToBit x := by
  rw [debugAipsAddrFromAlias_eq]
  rfl

/-- The translation of bit-band aliases is a bijection for both regions, and the
debug output translates aliases of the peripherals in the same way. -/
theorem bitband_translation :
    Bijection sramBand sramBitbandAddrToAlias sramBitbandAliasToAddr sramBitbandAliasToBit ∧
      Bijection periphBand periphBitbandAddrToAlias periphBitbandAliasToAddr
        periphBitbandAliasToBit ∧
      ∀ x, debugAipsAddrFromAlias x = periphBitbandAliasToAddr x ∧
        debugAipsBitnFromAlias x (debugAipsAddrFromAlias x) = periphBitbandAliasToBit x :=
  ⟨band_bijection sramBand, band_bijection periphBand, fun x =>
    ⟨debugAipsAddrFromAlias_eq x, debugAipsBitnFromAlias_eq x⟩⟩

end Translations

/-! ## Access rights of aliases -/

section Rights

variable {x addr bit : Word} {t : BoxMemory.Table} {activeBox : ℕ}

theorem physicalAddr_sram (h : sramBand.IsAlias x) :
    physicalAddr x = sramBitbandAliasToAddr x := by
  have hfirst : 0x22000000 ≤ x := h.1
  have hlast : x ≤ 0x23FFFFFF := h.2.1
  have hnone : ¬(0x42000000 ≤ x ∧ x ≤ 0x43FFFFFF) := fun hboth =>
    absurd (BitVec.le_trans hboth.1 hlast) (by decide)
  rw [physicalAddr, if_neg hnone, if_pos ⟨hfirst, hlast⟩]

theorem physicalAddr_periph (h : periphBand.IsAlias x) :
    physicalAddr x = periphBitbandAliasToAddr x :=
  if_pos ⟨h.1, h.2.1⟩

/-- A word below the aliases stands for itself. -/
theorem physicalAddr_word (h : sramBand.IsWord x ∨ periphBand.IsWord x) : physicalAddr x = x := by
  have hrange : x.toNat < 0x22000000 ∨ 0x40000000 ≤ x.toNat ∧ x.toNat < 0x42000000 := by
    rcases h with hsram | hperiph
    · have hlt : x.toNat < 0x20000000+2^20 := hsram.2.1
      omega
    · have hle : 0x40000000 ≤ x.toNat := hperiph.1
      have hlt : x.toNat < 0x40000000+2^20 := hperiph.2.1
      omega
  have hperiph : ¬(0x42000000 ≤ x ∧ x ≤ 0x43FFFFFF) := by
    change ¬(0x42000000 ≤ x.toNat ∧ x.toNat ≤ 0x43FFFFFF)
    omega
  have hsram : ¬(0x22000000 ≤ x ∧ x ≤ 0x23FFFFFF) := by
    change ¬(0x22000000 ≤ x.toNat ∧ x.toNat ≤ 0x23FFFFFF)
    omega
  rw [physicalAddr, if_neg hperiph, if_neg hsram]

/-- No word or alias is the register with rights of its own. -/
theorem ne_scbScr (h : x ≤ 0x43FFFFFF) : x ≠ scbScr := by
  rintro rfl
  exact absurd h (by decide)

/-- A fault at an alias has the access rights of the word, in any band whose
aliases are translated when the rights are looked up. -/
theorem vmpuFaultFindAcl_alias {band : Band} (hend : band.bitbandEnd ≤ 0x43FFFFFF)
    (hbelow : band.start.toNat+2^20 ≤ 0x44000000)
    (halias : ∀ x, band.IsAlias x → physicalAddr x = band.aliasToAddr x)
    (hword : physicalAddr addr = addr) (haddr : band.IsWord addr) (hbit : bit < 32)
    (size : Word) :
    vmpuFaultFindAcl t activeBox (band.addrToAlias addr bit) size =
      vmpuFaultFindAcl t activeBox addr size := by
  have hband := band_bijection band
  have hin := hband.isAlias addr bit haddr hbit
  have hlow : addr ≤ 0x43FFFFFF := by
    have hlt := haddr.2.1
    change addr.toNat ≤ 0x43FFFFFF
    omega
  unfold vmpuFaultFindAcl
  rw [if_neg (ne_scbScr (BitVec.le_trans hin.2.1 hend)), if_neg (ne_scbScr hlow), halias _ hin,
    hband.addr addr bit haddr hbit, hword]

theorem vmpuFaultFindAcl_sram (size : Word) (haddr : sramBand.IsWord addr) (hbit : bit < 32) :
    vmpuFaultFindAcl t activeBox (sramBitbandAddrToAlias addr bit) size =
      vmpuFaultFindAcl t activeBox addr size :=
  vmpuFaultFindAcl_alias (by decide) (by decide) (fun _ => physicalAddr_sram)
    (physicalAddr_word (.inl haddr)) haddr hbit size

theorem vmpuFaultFindAcl_periph (size : Word) (haddr : periphBand.IsWord addr) (hbit : bit < 32) :
    vmpuFaultFindAcl t activeBox (periphBitbandAddrToAlias addr bit) size =
      vmpuFaultFindAcl t activeBox addr size :=
  vmpuFaultFindAcl_alias (by decide) (by decide) (fun _ => physicalAddr_periph)
    (physicalAddr_word (.inr haddr)) haddr hbit size

end Rights

end Uvisor.BitBand
