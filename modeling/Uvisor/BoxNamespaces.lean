import Uvisor.BoxAgreement

/-!
# Checking, copying and finding box namespaces

At boot the monitor walks through the namespace of a box and checks where its
characters lie. Later it copies the namespace of an identifier to a buffer of
the box that asks for it. Both walks end at the same character. The first one
reads a character before it checks its address, and the identifier is checked
in eight bits and then indexes the table in full.
-/

namespace Uvisor.BoxNamespaces

open BoxEnumeration

/-! ## The walk at boot -/

/-- What the walk does to an address. -/
inductive Event where
  | checked (addr : ℕ)
  | read (addr : ℕ)
  deriving DecidableEq

/-- A walk, and whether it returns. -/
structure Walk where
  /-- What has been done, in order. -/
  events : List Event
  /-- It does not halt. -/
  returns : Bool

/-- The events of a pass that reaches the end of its body. -/
def bodyEvents (boxNamespace length : ℕ) : List Event :=
  [.checked boxNamespace, .checked (boxNamespace+length), .read (boxNamespace+length)]

/-- The loop of vmpu_check_sanity_box_namespace from a length on, with the
number of characters up to the limit. -/
def walkFrom (u : UvisorConfig) (boxNamespace : ℕ) : ℕ → ℕ → Walk
  | 0, _ => ⟨[], false⟩
  | n+1, length =>
    if !publicFlashAddr u boxNamespace then ⟨[.checked boxNamespace], false⟩
    else if !publicFlashAddr u (boxNamespace+length) then
      ⟨[.checked boxNamespace, .checked (boxNamespace+length)], false⟩
    else if u.byte (boxNamespace+length) = 0 then ⟨bodyEvents boxNamespace length, true⟩
    else if n = 0 then ⟨bodyEvents boxNamespace length, false⟩
    -- the condition of the loop
    else if u.byte (boxNamespace+length+1) = 0 then
      ⟨bodyEvents boxNamespace length ++ [.read (boxNamespace+length+1)], true⟩
    else
      let rest := walkFrom u boxNamespace n (length+1)
      ⟨bodyEvents boxNamespace length ++ .read (boxNamespace+length+1) :: rest.events,
        rest.returns⟩

/-- vmpu_check_sanity_box_namespace. -/
def vmpuCheckSanityBoxNamespace (u : UvisorConfig) (boxNamespace : ℕ) : Walk :=
  if boxNamespace = 0 then ⟨[], true⟩
  else walkFrom u boxNamespace maxBoxNamespaceLength 0

/-! ## The copy -/

/-- The loop of copy_box_namespace from a number of bytes on, with the number
of bytes up to the limit: what it writes, and its result unless it halts. -/
def copyFrom (u : UvisorConfig) (src : ℕ) (dst : BitVec 32) :
    ℕ → ℕ → List (BitVec 32 × UInt8) × Option ℕ
  | 0, _ => ([], none)
  | n+1, copied =>
    let write := (dst+BitVec.ofNat 32 copied, u.byte (src+copied))
    if u.byte (src+copied) = 0 then ([write], some (copied+1))
    else
      let rest := copyFrom u src dst n (copied+1)
      (write :: rest.1, rest.2)

/-- copy_box_namespace. -/
def copyBoxNamespace (u : UvisorConfig) (src : ℕ) (dst : BitVec 32) :
    List (BitVec 32 × UInt8) × Option ℕ :=
  copyFrom u src dst maxBoxNamespaceLength 0

/-- What a lookup reads, writes and returns. -/
structure Lookup where
  /-- Addresses of the entries of the table that are read. -/
  entries : List ℕ
  /-- Unprivileged writes of the copy. -/
  writes : List (BitVec 32 × UInt8)
  /-- The error or the number of bytes, unless it halts. -/
  outcome : Option (Except NamespaceError ℕ)

/-- Address of the entry that an identifier indexes. -/
def entryAddress (u : UvisorConfig) (boxId : ℤ) : ℕ :=
  (u.cfgtblPtrStart+4*entryPosition boxId)%2^32

/-- vmpu_box_namespace_from_id with its copy. -/
def vmpuBoxNamespaceFromId (u : UvisorConfig) (boxId : ℤ) (dst : BitVec 32) (length : ℕ) :
    Lookup :=
  match boxNamespaceFromId u boxId length with
  | .error .invalidBoxId => ⟨[], [], some (.error .invalidBoxId)⟩
  | .error .bufferTooSmall => ⟨[], [], some (.error .bufferTooSmall)⟩
  | .error .anonymous => ⟨[entryAddress u boxId], [], some (.error .anonymous)⟩
  | .ok src =>
    let copied := copyBoxNamespace u src dst
    ⟨[entryAddress u boxId, entryAddress u boxId], copied.1, copied.2.map .ok⟩

/-! ## What is expected of them -/

/-- A string and its length. -/
structure IsString (u : UvisorConfig) (src length : ℕ) : Prop where
  /-- It ends. -/
  ends : u.byte (src+length) = 0
  /-- It does not end before. -/
  nonzero : ∀ i < length, u.byte (src+i) ≠ 0

/-- An address is checked, and that before every read. -/
structure CheckedBefore (events : List Event) (addr : ℕ) : Prop where
  /-- It is checked. -/
  checked : .checked addr ∈ events
  /-- It is checked before. -/
  before : ∀ before after, events = before ++ .read addr :: after → .checked addr ∈ before

/-- A string has been copied. -/
structure Copied (u : UvisorConfig) (src length : ℕ) (dst : BitVec 32) (lookup : Lookup) :
    Prop where
  /-- The number of bytes is returned. -/
  outcome : lookup.outcome = some (.ok (length+1))
  /-- The string and its end are written. -/
  writes : lookup.writes =
    (List.range (length+1)).map fun i => (dst+BitVec.ofNat 32 i, u.byte (src+i))
  /-- They fit into the buffer. -/
  fits : length+1 ≤ maxBoxNamespaceLength

/-- The check and the copy agree on a namespace: all characters of the string
are in public flash and checked before they are read, and the box's lookups
copy the string. -/
def CheckAgrees (u : UvisorConfig) (boxNamespace : ℕ) : Prop :=
  ∃ length, IsString u boxNamespace length ∧
    (∀ i ≤ length, publicFlashAddr u (boxNamespace+i) = true ∧
      CheckedBefore (vmpuCheckSanityBoxNamespace u boxNamespace).events (boxNamespace+i)) ∧
    ∀ boxId : ℕ, boxId < boxCount u → (configAt u boxId).boxNamespace = boxNamespace →
      ∀ dst size, maxBoxNamespaceLength ≤ size →
        Copied u boxNamespace length dst (vmpuBoxNamespaceFromId u boxId dst size)

section Namespaces

variable {u : UvisorConfig} {boxNamespace src length n : ℕ} {dst : BitVec 32}

/-- The walk returns when the check of the boot does. -/
theorem walkFrom_returns (n length : ℕ) :
    (walkFrom u boxNamespace n length).returns = checkNamespaceFrom u boxNamespace n length := by
  induction n generalizing length with
  | zero => rfl
  | succ n ih =>
    rw [walkFrom, checkNamespaceFrom]
    cases publicFlashAddr u boxNamespace with
    | false => rfl
    | true =>
      cases publicFlashAddr u (boxNamespace+length) with
      | false => rfl
      | true =>
        simp only [Bool.not_true, Bool.or_self, Bool.false_eq_true, reduceIte]
        split_ifs
        · rfl
        · rfl
        · rfl
        · exact ih (length+1)

theorem vmpuCheckSanityBoxNamespace_returns :
    (vmpuCheckSanityBoxNamespace u boxNamespace).returns =
      checkSanityBoxNamespace u boxNamespace := by
  unfold vmpuCheckSanityBoxNamespace checkSanityBoxNamespace
  split_ifs with hzero
  · simp [hzero]
  · rw [walkFrom_returns]
    simp [hzero]

/-- A walk that returns has found the end of the string within the limit, and
all characters before it are in public flash. -/
theorem checkNamespaceFrom_spec (h : checkNamespaceFrom u boxNamespace n length = true) :
    ∃ k < n, u.byte (boxNamespace+length+k) = 0 ∧
      ∀ i < k, u.byte (boxNamespace+length+i) ≠ 0 ∧
        publicFlashAddr u (boxNamespace+length+i) = true := by
  induction n generalizing length with
  | zero => cases h
  | succ n ih =>
    rw [checkNamespaceFrom] at h
    split_ifs at h with hflash hzero hlimit hnext
    · exact ⟨0, Nat.succ_pos n, hzero, by simp⟩
    -- the end of the string is what the condition of the loop has read
    · rw [Bool.not_eq_true, Bool.or_eq_false_iff, Bool.not_eq_false', Bool.not_eq_false'] at hflash
      refine ⟨1, by omega, hnext, fun i hi => ?_⟩
      obtain rfl : i = 0 := by omega
      exact ⟨hzero, hflash.2⟩
    · rw [Bool.not_eq_true, Bool.or_eq_false_iff, Bool.not_eq_false', Bool.not_eq_false'] at hflash
      obtain ⟨k, hk, hend, hbefore⟩ := ih h
      refine ⟨k+1, by omega, by rwa [show boxNamespace+length+(k+1) =
        boxNamespace+(length+1)+k by omega], fun i hi => ?_⟩
      cases i with
      | zero => exact ⟨hzero, hflash.2⟩
      | succ i =>
        rw [show boxNamespace+length+(i+1) = boxNamespace+(length+1)+i by omega]
        exact hbefore i (by omega)

/-- The string that a walk has found. -/
theorem isString_of_returns (hne : boxNamespace ≠ 0)
    (h : (vmpuCheckSanityBoxNamespace u boxNamespace).returns = true) :
    ∃ length < maxBoxNamespaceLength, IsString u boxNamespace length ∧
      ∀ i < length, publicFlashAddr u (boxNamespace+i) = true := by
  rw [vmpuCheckSanityBoxNamespace_returns, checkSanityBoxNamespace] at h
  have hwalk : checkNamespaceFrom u boxNamespace maxBoxNamespaceLength 0 = true := by
    simpa [hne] using h
  obtain ⟨k, hk, hend, hbefore⟩ := checkNamespaceFrom_spec hwalk
  exact ⟨k, hk, ⟨hend, fun i hi => (hbefore i hi).1⟩, fun i hi => (hbefore i hi).2⟩

/-- A string that ends within the limit is copied with its end. -/
theorem copyFrom_spec {copied k : ℕ} (hk : k < n) (hend : u.byte (src+copied+k) = 0)
    (hnonzero : ∀ i < k, u.byte (src+copied+i) ≠ 0) :
    copyFrom u src dst n copied =
      ((List.range' copied (k+1)).map fun i => (dst+BitVec.ofNat 32 i, u.byte (src+i)),
        some (copied+k+1)) := by
  induction k generalizing n copied with
  | zero =>
    obtain ⟨n, rfl⟩ : ∃ m, n = m+1 := ⟨n-1, by omega⟩
    have hzero : u.byte (src+copied) = 0 := hend
    simp [copyFrom, hzero]
  | succ k ih =>
    obtain ⟨n, rfl⟩ : ∃ m, n = m+1 := ⟨n-1, by omega⟩
    have hfirst : u.byte (src+copied) ≠ 0 := hnonzero 0 (Nat.succ_pos k)
    have hshift : ∀ i, src+(copied+1)+i = src+copied+(i+1) := by omega
    have hrest : copyFrom u src dst n (copied+1) =
        ((List.range' (copied+1) (k+1)).map fun i => (dst+BitVec.ofNat 32 i, u.byte (src+i)),
          some (copied+1+k+1)) := by
      refine ih (by omega) ?_ fun i hi => ?_
      · rwa [hshift]
      · rw [hshift]
        exact hnonzero (i+1) (by omega)
    rw [copyFrom, if_neg hfirst, hrest, List.range'_succ (s := copied)]
    simp [Nat.add_right_comm, Nat.add_assoc]

/-- The namespace of an identifier in range is copied. -/
theorem lookup_copied {boxId : ℕ} (hlt : boxId < boxCount u)
    (hptr : (configAt u boxId).boxNamespace = boxNamespace) (hne : boxNamespace ≠ 0)
    (hlength : length < maxBoxNamespaceLength) (hstring : IsString u boxNamespace length) {size : ℕ}
    (hsize : maxBoxNamespaceLength ≤ size) :
    Copied u boxNamespace length dst (vmpuBoxNamespaceFromId u boxId dst size) := by
  have hsmall : boxCount u < 256 := Nat.mod_lt _ (by decide)
  have hvalid : isBoxIdValid u boxId = true := decide_eq_true (by omega)
  have hfound : boxNamespaceFromId u boxId size = .ok boxNamespace := by
    unfold boxNamespaceFromId
    rw [BoxAgreement.entryPosition_eq hlt, hptr, hvalid, if_neg (by decide),
      if_neg (Nat.not_lt.mpr hsize), if_neg hne]
  have hcopy : copyFrom u boxNamespace dst maxBoxNamespaceLength 0 =
      ((List.range' 0 (length+1)).map fun i => (dst+BitVec.ofNat 32 i, u.byte (boxNamespace+i)),
        some (0+length+1)) :=
    copyFrom_spec hlength hstring.ends hstring.nonzero
  unfold vmpuBoxNamespaceFromId
  rw [hfound]
  dsimp only
  rw [copyBoxNamespace, hcopy, ← List.range_eq_range']
  exact ⟨by simp, rfl, hlength⟩

theorem IsString.length_pos (h : IsString u src length) (hne : u.byte src ≠ 0) : 1 ≤ length := by
  by_contra hzero
  obtain rfl : length = 0 := by omega
  exact hne h.ends

/-- The events of a walk over the empty string. -/
theorem events_of_empty (hne : boxNamespace ≠ 0)
    (h : (vmpuCheckSanityBoxNamespace u boxNamespace).returns = true)
    (hempty : u.byte boxNamespace = 0) : publicFlashAddr u boxNamespace = true ∧
      (vmpuCheckSanityBoxNamespace u boxNamespace).events =
        [.checked boxNamespace, .checked boxNamespace, .read boxNamespace] := by
  unfold vmpuCheckSanityBoxNamespace maxBoxNamespaceLength at h ⊢
  rw [if_neg hne, walkFrom] at h ⊢
  cases hpublic : publicFlashAddr u boxNamespace with
  | false => simp [hpublic] at h
  | true => simp [hempty, bodyEvents]

/-- The walk over another string reads the second character before it checks
its address. -/
theorem events_of_nonempty (hne : boxNamespace ≠ 0)
    (h : (vmpuCheckSanityBoxNamespace u boxNamespace).returns = true)
    (hnonempty : u.byte boxNamespace ≠ 0) :
    ∃ after, (vmpuCheckSanityBoxNamespace u boxNamespace).events =
      [.checked boxNamespace, .checked boxNamespace, .read boxNamespace] ++
        .read (boxNamespace+1) :: after := by
  unfold vmpuCheckSanityBoxNamespace maxBoxNamespaceLength at h ⊢
  rw [if_neg hne, walkFrom] at h ⊢
  cases hpublic : publicFlashAddr u boxNamespace with
  | false => simp [hpublic] at h
  | true =>
    by_cases hnext : u.byte (boxNamespace+1) = 0
    · exact ⟨[], by simp [hnonempty, hnext, bodyEvents]⟩
    · exact ⟨(walkFrom u boxNamespace 36 1).events,
        by simp [hnonempty, hnext, bodyEvents]⟩

/-- When the check of a namespace returns, check and copy agree exactly when
the namespace is the empty string. -/
theorem checkAgrees_iff_empty (hne : boxNamespace ≠ 0)
    (h : (vmpuCheckSanityBoxNamespace u boxNamespace).returns = true) :
    CheckAgrees u boxNamespace ↔ u.byte boxNamespace = 0 := by
  constructor
  · rintro ⟨length, hstring, hchecked, -⟩
    by_contra hnonempty
    have hlength := hstring.length_pos hnonempty
    obtain ⟨after, hevents⟩ := events_of_nonempty hne h hnonempty
    have hbefore := (hchecked 1 hlength).2.before _ after hevents
    simp at hbefore
  · intro hempty
    obtain ⟨hpublic, hevents⟩ := events_of_empty hne h hempty
    have hstring : IsString u boxNamespace 0 := ⟨hempty, fun i hi => absurd hi (Nat.not_lt_zero i)⟩
    refine ⟨0, hstring, fun i hi => ?_, fun boxId hlt hptr dst size hsize =>
      lookup_copied hlt hptr hne (by decide) hstring hsize⟩
    obtain rfl : i = 0 := by omega
    refine ⟨hpublic, ⟨by simp [hevents], fun before after hsplit => ?_⟩⟩
    rw [hevents] at hsplit
    -- the only read is the last event
    cases before with
    | nil => simp at hsplit
    | cons first before =>
      obtain ⟨rfl, -⟩ := List.cons.inj hsplit
      exact List.mem_cons_self ..

/-- The empty string passes. -/
theorem threeConfigs_checkAgrees : CheckAgrees (BoxAgreement.threeConfigs 64 4096) 0x1000 :=
  (checkAgrees_iff_empty (by decide) (by decide)).mpr (by decide)

/-- A device whose last checkable character is not the end of a string. -/
def edgeConfig : UvisorConfig :=
  { BoxAgreement.threeConfigs 64 4096 with
    byte := fun addr => if addr = 0x7FFFC then 0x61 else 0 }

/-- The end of the string at the edge of flash is never checked. -/
theorem checkAgrees_fails : (vmpuCheckSanityBoxNamespace edgeConfig 0x7FFFC).returns = true ∧
    ¬CheckAgrees edgeConfig 0x7FFFC := by
  refine ⟨by decide, ?_⟩
  rintro ⟨length, hstring, hchecked, -⟩
  have hlength := hstring.length_pos (by decide)
  have hpublic : publicFlashAddr edgeConfig 0x7FFFD = true := (hchecked 1 hlength).1
  exact absurd hpublic (by decide)

end Namespaces

/-! ## Identifiers -/

section Identifiers

variable {u : UvisorConfig} {boxId : ℤ} {dst : BitVec 32} {length : ℕ}

/-- A lookup rejects foreign identifiers, and reads no other entry than that of
the box. -/
structure RejectsForeign (u : UvisorConfig) (boxId : ℤ) (lookup : Lookup) : Prop where
  /-- An identifier out of range is an error, and no entry is read. -/
  foreign : ¬(0 ≤ boxId ∧ boxId < boxCount u) →
    lookup.outcome = some (.error .invalidBoxId) ∧ lookup.entries = []
  /-- For an identifier in range only its entry is read. -/
  own : 0 ≤ boxId → boxId < boxCount u →
    ∀ addr ∈ lookup.entries, (addr : ℤ) = u.cfgtblPtrStart+4*boxId

/-- No other entry than the one that is indexed is read. -/
theorem entries_subset :
    ∀ addr ∈ (vmpuBoxNamespaceFromId u boxId dst length).entries, addr = entryAddress u boxId := by
  unfold vmpuBoxNamespaceFromId
  split <;> simp

/-- The entry of an identifier in range is where it is in the table. -/
theorem entryAddress_eq (hzero : 0 ≤ boxId) (hlt : boxId < boxCount u) :
    (entryAddress u boxId : ℤ) = u.cfgtblPtrStart+4*boxId := by
  have hsmall : boxCount u < 256 := Nat.mod_lt _ (by decide)
  have hcount : boxCount u ≤ (u.cfgtblPtrEnd-u.cfgtblPtrStart)/4 := Nat.mod_le _ _
  have hend := u.end_lt
  unfold entryAddress entryPosition
  omega

/-- A lookup that takes an identifier for a valid one is no error of that kind. -/
theorem outcome_of_valid (hvalid : isBoxIdValid u boxId = true) :
    (vmpuBoxNamespaceFromId u boxId dst length).outcome ≠ some (.error .invalidBoxId) := by
  have hfound : boxNamespaceFromId u boxId length ≠ .error .invalidBoxId := by
    unfold boxNamespaceFromId
    rw [hvalid, if_neg (by decide)]
    split_ifs <;> simp
  unfold vmpuBoxNamespaceFromId
  split
  · contradiction
  · simp
  · simp
  · simp

/-- Foreign identifiers are rejected exactly when the identifier is in range or
its low eight bits are not. -/
theorem rejectsForeign_iff (u : UvisorConfig) (boxId : ℤ) (dst : BitVec 32) (length : ℕ) :
    RejectsForeign u boxId (vmpuBoxNamespaceFromId u boxId dst length) ↔
      (0 ≤ boxId ∧ boxId < boxCount u) ∨ boxCount u ≤ boxId%256 := by
  constructor
  · intro h
    by_contra hboth
    rw [not_or, not_le] at hboth
    exact outcome_of_valid (decide_eq_true hboth.2) (h.foreign hboth.1).1
  · intro h
    refine ⟨fun hforeign => ?_, fun hzero hlt addr haddr => ?_⟩
    · have hinvalid : isBoxIdValid u boxId = false :=
        decide_eq_false (not_lt.mpr (h.resolve_left hforeign))
      unfold vmpuBoxNamespaceFromId boxNamespaceFromId
      rw [hinvalid]
      exact ⟨rfl, rfl⟩
    · rw [entries_subset addr haddr]
      exact entryAddress_eq hzero hlt

/-- The identifier 256 is taken for that of the public box, and an entry behind
the table is read. -/
theorem rejectsForeign_fails : ¬RejectsForeign (BoxAgreement.threeConfigs 64 4096) 256
    (vmpuBoxNamespaceFromId (BoxAgreement.threeConfigs 64 4096) 256 0x20001000 37) := by
  intro h
  have hentries := (h.foreign (by decide)).2
  exact absurd hentries (by decide)

end Identifiers

end Uvisor.BoxNamespaces
