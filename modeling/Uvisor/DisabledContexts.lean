import Mathlib.Order.CompletePartialOrder
import Uvisor.Disabled

/-!
# The contexts of the boxes without uVisor

The first call of a gateway allocates the contexts one after the other, and
fills them with zeroes. No two boxes share a byte. The code of a box sees its
own context, or that of its caller when its entry was interrupted at the wrong
place.
-/

namespace Uvisor.DisabledContexts

open Execution Disabled
open ArmMpu (Word)

/-! ## The contexts -/

/-- Bytes that are allocated for a box. -/
def contextBytes (sys : Platform) (b : ℕ) : ℕ :=
  if sys.contextSize b = 0 then 0 else (regionRoundUp sys.port (sys.contextSize b)).toNat

/-- Where the context of a box starts, in exact arithmetic. -/
def contextStart (sys : Platform) (b : ℕ) : ℕ :=
  sys.bssBoxesStart.toNat+((List.range b).map (contextBytes sys)).sum

/-- The bytes of the context of a box. -/
def contextSpan (sys : Platform) (b : ℕ) : Set ℕ :=
  Set.Ico (contextStart sys b) (contextStart sys b+contextBytes sys b)

/-- The context that the code of a box is to see. -/
def contextOf (sys : Platform) (b : ℕ) : Word :=
  if b ≠ 0 ∧ b < sys.boxCount ∧ sys.contextSize b ≠ 0 then BitVec.ofNat 32 (contextStart sys b)
  else 0

/-- The first boxes have got their contexts. -/
structure Allocated (sys : Platform) (n : ℕ) (s : Globals) : Prop where
  /-- The position after them. -/
  position : s.memoryPosition.toNat = contextStart sys n
  /-- Their pointers; the others are null. -/
  pointers : ∀ b, s.psArray b = if b < n then contextOf sys b else 0
  /-- Their contexts are zero. -/
  zero : ∀ b < n, ∀ address : Word, address.toNat ∈ contextSpan sys b → s.memory address = 0
  /-- The public box has none. -/
  publicBox : 0 < n → sys.contextSize 0 = 0

section Contexts

variable {sys : Platform} {s t : Globals} {n : ℕ}

theorem contextStart_succ (sys : Platform) (b : ℕ) :
    contextStart sys (b+1) = contextStart sys b+contextBytes sys b := by
  rw [contextStart, List.range_succ, List.map_append, List.sum_append, contextStart]
  simp [Nat.add_assoc]

theorem contextStart_mono (sys : Platform) {first last : ℕ} (h : first ≤ last) :
    contextStart sys first ≤ contextStart sys last := by
  induction last, h using Nat.le_induction with
  | base => exact le_rfl
  | succ last _ ih =>
    rw [contextStart_succ]
    exact ih.trans (Nat.le_add_right _ _)

/-- No byte is in two contexts. -/
theorem contextSpan_disjoint (sys : Platform) {a b : ℕ} (hne : a ≠ b) :
    Disjoint (contextSpan sys a) (contextSpan sys b) := by
  have hordered : ∀ {a b : ℕ}, a < b → Disjoint (contextSpan sys a) (contextSpan sys b) := by
    intro a b hlt
    have hmono := contextStart_mono sys (Nat.succ_le_of_lt hlt)
    rw [Nat.succ_eq_add_one, contextStart_succ] at hmono
    refine Set.disjoint_left.mpr fun byte hmem hmem' => ?_
    obtain ⟨-, hhigh⟩ := hmem
    obtain ⟨hlow, -⟩ := hmem'
    omega
  rcases Nat.lt_or_gt_of_ne hne with hlt | hgt
  · exact hordered hlt
  · exact (hordered hgt).symm

/-- The pointers after one more of them has been written. -/
theorem pointers_update {array : ℕ → Word} (h : ∀ b, array b = if b < n then contextOf sys b else 0)
    (b : ℕ) : Function.update array n (contextOf sys n) b =
      if b < n+1 then contextOf sys b else 0 := by
  by_cases hb : b = n
  · subst hb
    rw [Function.update_self, if_pos (Nat.lt_succ_self b)]
  · rw [Function.update_of_ne hb, h b]
    have hiff : b < n ↔ b < n+1 := by omega
    simp only [hiff]

/-- One pass of the loop allocates one context. -/
theorem Allocated.next (h : Allocated sys n s) (hn : n < sys.boxCount)
    (hfits : contextStart sys (n+1) < 2^32) (hs : initBox sys s n = some t) :
    Allocated sys (n+1) t := by
  have hnext := contextStart_succ sys n
  have hposition := h.position
  unfold initBox at hs
  dsimp only at hs
  split_ifs at hs with hsize hzero
  · obtain rfl := Option.some.inj hs
    have hbytes : contextBytes sys n = 0 := if_pos hsize
    have hcontext : contextOf sys n = 0 := if_neg fun hsome => hsome.2.2 hsize
    refine ⟨?_, fun b => ?_, fun b hb address hmem => ?_, fun _ => ?_⟩
    · rw [hnext, hbytes]
      exact hposition
    · have hupdate := pointers_update h.pointers b
      rwa [hcontext] at hupdate
    · rcases Nat.lt_succ_iff_lt_or_eq.mp hb with hlt | rfl
      · exact h.zero b hlt address hmem
      · rw [contextSpan, hbytes, Nat.add_zero, Set.Ico_self] at hmem
        cases hmem
    · rcases Nat.eq_zero_or_pos n with rfl | hpos
      · exact hsize
      · exact h.publicBox hpos
  · obtain rfl := Option.some.inj hs
    have hbytes : contextBytes sys n = (regionRoundUp sys.port (sys.contextSize n)).toNat :=
      if_neg hsize
    have hcontext : contextOf sys n = s.memoryPosition := by
      rw [contextOf, if_pos ⟨hzero, hn, hsize⟩, ← hposition, BitVec.ofNat_toNat, BitVec.setWidth_eq]
    refine ⟨?_, fun b => ?_, fun b hb address hmem => ?_, fun _ => ?_⟩
    · rw [BitVec.toNat_add, hposition, ← hbytes, ← hnext]
      exact Nat.mod_eq_of_lt hfits
    · dsimp only
      rw [← hcontext]
      exact pointers_update h.pointers b
    · dsimp only
      by_cases hin : ByteMemory.offset s.memoryPosition address <
          (regionRoundUp sys.port (sys.contextSize n)).toNat
      · rw [ByteMemory.write_of_lt hin]
        simp
      · rw [ByteMemory.write_of_le (not_lt.mp hin)]
        rcases Nat.lt_succ_iff_lt_or_eq.mp hb with hlt | rfl
        · exact h.zero b hlt address hmem
        · obtain ⟨hlow, hhigh⟩ := hmem
          rw [ByteMemory.offset, BitVec.toNat_sub_of_le (BitVec.le_def.mpr (by omega))] at hin
          omega
    · exact h.publicBox (Nat.pos_of_ne_zero hzero)

/-- The loop allocates all contexts, and fills them with zeroes. -/
theorem allocated_init (hfits : contextStart sys sys.boxCount < 2^32)
    (hfirst : s.initialized = false) (hnull : ∀ b, s.psArray b = 0)
    (hs : uvisorDisabledInitContext sys s = some t) :
    Allocated sys sys.boxCount t ∧ t.initialized = true := by
  unfold uvisorDisabledInitContext at hs
  rw [if_neg (by simp [hfirst])] at hs
  obtain ⟨u, hboxes, rfl⟩ := Option.map_eq_some_iff.mp hs
  have hall : ∀ n ≤ sys.boxCount, ∀ u,
      (List.range n).foldlM (initBox sys) {s with memoryPosition := sys.bssBoxesStart} = some u →
      Allocated sys n u := by
    intro n
    induction n with
    | zero =>
      intro _ u hu
      obtain rfl := Option.some.inj hu
      exact ⟨rfl, fun b => by simp [hnull], fun b hb => absurd hb (Nat.not_lt_zero b),
        fun hzero => absurd hzero (lt_irrefl 0)⟩
    | succ n ih =>
      intro hn u hu
      rw [List.range_succ, List.foldlM_append] at hu
      obtain ⟨v, hv, hlast⟩ := Option.bind_eq_some_iff.mp hu
      rw [List.foldlM_cons] at hlast
      obtain ⟨w, hw, hnil⟩ := Option.bind_eq_some_iff.mp hlast
      obtain rfl := Option.some.inj hnil
      exact (ih (by omega) v hv).next (by omega) ((contextStart_mono sys hn).trans_lt hfits) hw
  obtain ⟨hposition, hpointers, hzero, hpublic⟩ := hall sys.boxCount le_rfl u hboxes
  exact ⟨⟨hposition, hpointers, hzero, hpublic⟩, rfl⟩

end Contexts

/-- The pointers are null before the contexts are allocated, and then every box
has its own. -/
structure Pointers (sys : Platform) (s : Globals) : Prop where
  /-- Before. -/
  before : s.initialized = false → ∀ b, s.psArray b = 0
  /-- After. -/
  after : s.initialized = true → ∀ b, s.psArray b = contextOf sys b

/-- Nothing but box 0 has been entered before the contexts are allocated. -/
def Unentered (s : State) : Prop :=
  s.globals.initialized = false → nest s.activities = [0] ∧
    ∀ a ∈ s.activities, a.pc.inWindow = false ∧ ∀ src, a.pc ≠ .left src

section Runs

variable {sys : Platform} {s t : State} {top : Activity} {rest : List Activity} {a : Action}

theorem setPointer_pointers {s t : Globals} {dst : ℕ}
    (hfits : contextStart sys sys.boxCount < 2^32) (h : Pointers sys s)
    (hs : setPointer sys dst s = some t) : Pointers sys t ∧ t.initialized = true := by
  obtain ⟨u, hinit, rfl⟩ := Option.map_eq_some_iff.mp hs
  cases hfirst : s.initialized with
  | true =>
    rw [uvisorDisabledInitContext, if_pos hfirst] at hinit
    obtain rfl := Option.some.inj hinit
    exact ⟨⟨h.before, h.after⟩, hfirst⟩
  | false =>
    obtain ⟨hallocated, hu⟩ := allocated_init hfits hfirst (h.before hfirst) hinit
    refine ⟨⟨fun hfalse => ?_, fun _ b => ?_⟩, hu⟩
    · exact absurd (hu.symm.trans hfalse) (by decide)
    · dsimp only
      rw [hallocated.pointers b]
      split_ifs with hb
      · rfl
      · rw [contextOf, if_neg fun hsome => hb hsome.2.1]

theorem pointers_effect (hfits : contextStart sys sys.boxCount < 2^32)
    (h : Pointers sys s.globals) (heffect : Effect sys s top rest a t) :
    Pointers sys t.globals := by
  cases heffect with
  | setVector hpc howner =>
    obtain ⟨-, relocated, virqPrioBits, entry, rfl, -⟩ := setOwner_spec howner
    exact ⟨h.before, h.after⟩
  | enter hpc hset => exact (setPointer_pointers hfits h hset).1
  | pop hpc hpop =>
    obtain ⟨last, below, -, -, rfl⟩ := popBox_spec hpop
    exact ⟨h.before, h.after⟩
  | _ => exact ⟨h.before, h.after⟩

theorem unentered_effect (hfits : contextStart sys sys.boxCount < 2^32)
    (hpointers : Pointers sys s.globals) (hinv : Inv s) (h : Unentered s)
    (htop : s.activities = top :: rest) (heffect : Effect sys s top rest a t) : Unentered t := by
  have hsame : ∀ {globals : Globals} {next : Activity} {requested},
      globals.initialized = s.globals.initialized → next.boxes = top.boxes →
      next.pc.inWindow = false ∧ (∀ src, next.pc ≠ .left src) →
      Unentered ⟨globals, next :: rest, requested⟩ := by
    intro globals next requested hinit hboxes hpc hfirst
    obtain ⟨hnest, hall⟩ := h (hinit.symm.trans hfirst)
    refine ⟨?_, fun activity hmem => ?_⟩
    · rw [htop] at hnest
      rw [nest_cons, hboxes, ← nest_cons]
      exact hnest
    · rcases List.mem_cons.mp hmem with rfl | hmem
      · exact hpc
      · exact hall activity (htop ▸ List.mem_cons_of_mem _ hmem)
  have htopMem : top ∈ s.activities := htop ▸ List.mem_cons_self
  cases heffect with
  | call hpc hdst => exact hsame rfl rfl ⟨rfl, fun src => by simp⟩
  | ret hpc => exact hsame rfl rfl ⟨rfl, fun src => by simp⟩
  | setVector hpc howner =>
    obtain ⟨-, relocated, virqPrioBits, entry, rfl, -⟩ := setOwner_spec howner
    exact hsame rfl rfl ⟨rfl, fun src => by simp⟩
  | enter hpc hset =>
    intro hfirst
    have hinit := (setPointer_pointers hfits hpointers hset).2
    exact absurd (hinit.symm.trans hfirst) (by decide)
  | check hpc hroom =>
    intro hfirst
    have hwindow := ((h hfirst).2 top htopMem).1
    rw [hpc] at hwindow
    cases hwindow
  | push hpc =>
    intro hfirst
    have hwindow := ((h hfirst).2 top htopMem).1
    rw [hpc] at hwindow
    cases hwindow
  | pop hpc hpop =>
    obtain ⟨last, below, hbefore, -, rfl⟩ := popBox_spec hpop
    intro hfirst
    rw [hinv.calls, (h hfirst).1] at hbefore
    cases hbefore
  | restore hpc =>
    intro hfirst
    exact absurd hpc (((h hfirst).2 top htopMem).2 _)
  | register hpc => exact hsame rfl rfl ⟨rfl, fun src => by simp⟩
  | interrupt hrelocated hentry =>
    intro hfirst
    obtain ⟨hnest, hall⟩ := h hfirst
    rw [htop] at hnest
    refine ⟨hnest, fun activity hmem => ?_⟩
    rcases List.mem_cons.mp hmem with rfl | hmem
    · exact ⟨rfl, fun src => by simp⟩
    · exact hall activity (htop ▸ hmem)

theorem pointers_reachable (hfits : contextStart sys sys.boxCount < 2^32)
    (h : Reachable Initial (step sys) (fun _ _ => True) s) :
    Pointers sys s.globals ∧ Unentered s := by
  have hall := h.invariant (fun s => Inv s ∧ Pointers sys s.globals ∧ Unentered s)
    (fun s hinit => ⟨inv_initial hinit, ⟨fun _ => hinit.psArray, fun htrue =>
      absurd (hinit.initialized.symm.trans htrue) (by decide)⟩, fun _ => ?_⟩)
    fun s a t hinv _ hs => ?_
  · exact hall.2
  · rw [hinit.activities]
    exact ⟨rfl, fun a hmem => by
      obtain rfl := List.mem_singleton.mp hmem
      exact ⟨rfl, fun src => by simp⟩⟩
  · obtain ⟨top, rest, htop, heffect⟩ := step_effect hs
    exact ⟨inv_effect hinv.1 htop heffect, pointers_effect hfits hinv.2.1 heffect,
      unentered_effect hfits hinv.2.1 hinv.1 hinv.2.2 htop heffect⟩

end Runs

/-! ## Two boxes with contexts -/

/-- Two secure boxes with contexts of 40 bytes. -/
def twoContexts : Platform where
  port := .armv8m
  boxCount := 3
  boxCount_pos := by decide
  boxCount_le := by decide
  contextSize b := if b = 0 then 0 else 40
  bssBoxesStart := 0x20002000
  nvicVectors := 8
  prioMask := 0xF0

/-- The main program before the first call. -/
def atReset : State where
  globals := ⟨0, false, fun _ => 0, fun _ => 0, 0, 0, fun _ => ⟨0, 0⟩, false, 0, fun _ => 0⟩
  activities := [⟨.body, [0], false, none⟩]
  requested := []

theorem atReset_initial : Initial atReset where
  activities := rfl
  ps := rfl
  psArray _ := rfl
  initialized := rfl
  callStack := rfl
  callSp := rfl
  vectors _ := rfl
  requested := rfl

/-- Box 1 registers a vector and returns. Its interrupt is served while box 2 is
entered, between the two steps. -/
def windowRun : List Action :=
  [.call 1, .advance, .advance, .advance, .setVector 3 0x101, .advance, .ret, .advance, .advance,
    .call 2, .advance, .interrupt 3, .advance, .advance, .advance, .ret, .advance, .advance,
    .advance, .advance]

end Uvisor.DisabledContexts
