import Uvisor.PageOperations

/-!
# All or nothing in releasing pages

The loop of `free` checks an entry of the table and takes its page back before
it looks at the next entry. An error at the first entry therefore changes
nothing, and an error at any later one leaves the earlier pages released. A
page count with the sign bit set gives a loop without passes, which reports
success.
-/

namespace Uvisor.PageAllocator

variable {g : Geometry} {box : BoxId} {table : Table} {s : State}

/-! ### Statements -/

/-- What a call leaves behind that releases all pages of its table. -/
structure GivenBack (g : Geometry) (box : BoxId) (table : Table) (s t : State) : Prop where
  /-- All entries name pages of the caller. -/
  owned : ∀ i < table.pageCount,
    entry g table i ≠ pageUnused ∧ mapGet g (s.ownerMap box) (entry g table i) = true
  /-- They name different pages. -/
  distinct : ∀ i < table.pageCount, ∀ j < i, entry g table j ≠ entry g table i
  /-- Bits of the usage map are cleared for these pages only. -/
  usage : ∀ page < 256, mapGet g t.usageMap page =
    (!decide (page ∈ firstPages g table table.pageCount) && mapGet g s.usageMap page)
  /-- So are those of the caller's owner map, and of all owner maps for box 0. -/
  owner : ∀ b, ∀ page < 256, mapGet g (t.ownerMap b) page =
    (!decide (page ∈ firstPages g table table.pageCount ∧ (box = 0 ∨ b = box)) &&
      mapGet g (s.ownerMap b) page)
  /-- The pages are counted free, in eight bits. -/
  countFree : t.countFree = (s.countFree+table.pageCount)%256

/-- A call either reports an error and has changed neither the maps nor the
counter, or it reports success and has released exactly the listed pages. -/
def AllOrNothing (g : Geometry) (box : BoxId) (table : Table) (s : State)
    (out : PageError × State) : Prop :=
  (out.1 ≠ .ok → out.2.usageMap = s.usageMap ∧ out.2.ownerMap = s.ownerMap ∧
    out.2.countFree = s.countFree) ∧
  (out.1 = .ok → GivenBack g box table s out.2)

/-! ### The loop -/

theorem released_countFree_mod (s : State) (n : ℕ) :
    (released g box table s (n+1)).countFree = (s.countFree+(n+1))%256 := by
  induction n with
  | zero => rfl
  | succ n ih =>
    rw [released_succ]
    change ((released g box table s (n+1)).countFree+1)%256 = _
    rw [ih]
    omega

/-- The loop reports success exactly if it accepts all entries. -/
theorem freeLoop_ok_iff (s : State) (n i : ℕ) (hi : ∀ j < i, Releases g box table s j) :
    (freeLoop g box table n i (released g box table s i)).1 = .ok ↔
      ∀ j < i+n, Releases g box table s j := by
  induction n generalizing i with
  | zero => exact ⟨fun _ => hi, fun _ => rfl⟩
  | succ n ih =>
    rw [freeLoop_succ]
    by_cases hrel : Releases g box table s i
    · obtain ⟨hused, hown⟩ := releases_iff.mp hrel
      have hnext : ∀ j < i+1, Releases g box table s j := by
        intro j hj
        rcases Nat.lt_succ_iff_lt_or_eq.mp hj with hlt | rfl
        · exact hi j hlt
        · exact hrel
      rw [if_neg hused, if_pos hown, ← released_succ, ih (i+1) hnext, Nat.add_right_comm,
        Nat.add_assoc]
    · have hrefused : ¬∀ j < i+(n+1), Releases g box table s j := fun hall =>
        hrel (hall i (by omega))
      split_ifs with hunused hown
      · simp [hrefused]
      · exact absurd (releases_iff.mpr ⟨hunused, hown⟩) hrel
      · simp [hrefused]

/-- A loop that accepts all entries takes back their pages. -/
theorem freeLoop_all {n : ℕ} (hall : ∀ i < n, Releases g box table s i) :
    freeLoop g box table n 0 s = (.ok, released g box table s n) := by
  have hok := (freeLoop_ok_iff s n 0 (by simp)).mpr (by simpa using hall)
  obtain ⟨m, -, hm, hstate, -, hstop⟩ := freeLoop_spec g box table s n 0 (by simp)
  have hmn : m = n := by
    by_contra hne
    exact hstop (by omega) (hall m (by omega))
  subst hmn
  exact Prod.ext hok hstate

/-- A loop that does not accept its first entry leaves at once. -/
theorem freeLoop_none {n : ℕ} (hpos : 0 < n) (hnone : ¬Releases g box table s 0) :
    (freeLoop g box table n 0 s).1 ≠ .ok ∧ (freeLoop g box table n 0 s).2 = s := by
  obtain ⟨m, -, hm, hstate, hall, -⟩ := freeLoop_spec g box table s n 0 (by simp)
  have hzero : m = 0 := by
    by_contra hne
    exact hnone (hall 0 (Nat.pos_of_ne_zero hne))
  subst hzero
  refine ⟨fun hok => ?_, hstate⟩
  have haccepted := (freeLoop_ok_iff s n 0 (by simp)).mp hok
  exact hnone (haccepted 0 (by omega))

/-- A loop that accepts its first entry takes its page from the caller. -/
theorem freeLoop_some {n : ℕ} (hpos : 0 < n) (hfirst : Releases g box table s 0) :
    mapGet g ((freeLoop g box table n 0 s).2.ownerMap box) (entry g table 0) = false := by
  obtain ⟨m, -, -, hstate, -, hstop⟩ := freeLoop_spec g box table s n 0 (by simp)
  have hm : 0 < m := by
    by_contra hzero
    obtain rfl : m = 0 := by omega
    exact hstop (by omega) hfirst
  change (freeLoop g box table n 0 s).2 = _ at hstate
  rw [hstate, released_owner s m (entry_lt g table 0)]
  have hmem : entry g table 0 ∈ firstPages g table m := mem_firstPages.mpr ⟨0, hm, rfl⟩
  simp [hmem]

/-! ### The result of a call -/

/-- All entries released means the pages of the table are given back. -/
theorem givenBack_released (hcount : 0 < table.pageCount)
    (hall : ∀ i < table.pageCount, Releases g box table s i) :
    GivenBack g box table s (released g box table s table.pageCount) := by
  obtain ⟨n, hn⟩ := Nat.exists_eq_succ_of_ne_zero hcount.ne'
  refine ⟨fun i hi => ⟨(hall i hi).1, (hall i hi).2.1⟩, fun i hi => (hall i hi).2.2,
    fun page hpage => released_usage s _ hpage, fun b page hpage => released_owner s _ hpage b, ?_⟩
  rw [hn]
  exact released_countFree_mod s n

theorem pageCount_pos (hcheck : freeCheck g table s = .ok) : 0 < table.pageCount := by
  unfold freeCheck at hcheck
  split_ifs at hcheck with _ _ hzero
  exact Nat.pos_of_ne_zero hzero

end Uvisor.PageAllocator
