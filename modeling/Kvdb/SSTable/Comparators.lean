import Kvdb.Engine.MemTable
import Kvdb.SSTable.Packing

/-!
# The comparators of keys and records

Each part of the engine compares keys and records with a function of its own: on entries of
the arena, on pointers with 32-bit sizes, on spans.  They all decide the order of the bytes
and the order of (key, sequence) (`comparators_agree`), an empty key with a null pointer
included.

    KeyRef.entry       the bytes behind an address and a size
    keyComparators     the three-way comparators of keys
    recordComparators  the strict comparators of records
-/

namespace Kvdb

/-- A key as the comparators get it: the bytes behind its address, which are none when it is null, and its size.  As
many bytes as the size says can be read. -/
structure KeyRef where
  data : Option (List UInt8)
  size : UInt32
  readable : size.toNat ≤ (data.getD []).length

namespace KeyRef

/-- The bytes behind the address. -/
def memory (k : KeyRef) : List UInt8 := k.data.getD []

/-- The key. -/
def entry (k : KeyRef) : ArenaEntry := .ofTake k.memory k.size

theorem length_entry (k : KeyRef) : k.entry.bytes.length = k.size.toNat := by
  show (k.memory.take k.size.toNat).length = _
  rw [List.length_take]
  exact Nat.min_eq_left k.readable

/-- As many bytes as are common to two keys. -/
theorem take_entry (k : KeyRef) {n : Nat} (hn : n ≤ k.size.toNat) : k.entry.bytes.take n = k.memory.take n := by
  show (k.memory.take k.size.toNat).take n = _
  rw [List.take_take, Nat.min_eq_left hn]

end KeyRef

/-- `std::memcmp` on the first `n` bytes. -/
def memcmpRefs (lhs rhs : KeyRef) (n : Nat) : Ordering := ArenaEntry.memcmp (lhs.memory.take n) (rhs.memory.take n)

/-! ## Keys -/

/-- `ArenaEntry::operator<`. -/
def arenaEntryLess (a b : KeyRef) : Bool :=
  let common := min a.size.toNat b.size.toNat
  if common > 0 ∧ memcmpRefs a b common ≠ .eq then memcmpRefs a b common == .lt else decide (a.size < b.size)

/-- `ArenaEntry::operator>`. -/
def arenaEntryGreater (a b : KeyRef) : Bool := arenaEntryLess b a

/-- `ArenaEntry::operator==`. -/
def arenaEntryEqual (a b : KeyRef) : Bool :=
  if a.size ≠ b.size then false else a.size == 0 || memcmpRefs a b a.size.toNat == .eq

/-- The common part of two keys, then their sizes. -/
def compareRefs (lhs rhs : KeyRef) : Ordering :=
  let common := min lhs.size.toNat rhs.size.toNat
  match if common > 0 then memcmpRefs lhs rhs common else .eq with
  | .lt => .lt
  | .gt => .gt
  | .eq => if lhs.size < rhs.size then .lt else if lhs.size > rhs.size then .gt else .eq

namespace KeyComparators

/-- `compare_keys` of `data_section.cpp`. -/
def dataSectionCompareKeys (lhs rhs : KeyRef) : Ordering := compareRefs lhs rhs

/-- `compare_keys` of `data_section_view.cpp`, on spans. -/
def dataSectionViewCompareKeys (lhs rhs : KeyRef) : Ordering := compareRefs lhs rhs

/-- `compare_bytes` of `index_section.cpp`. -/
def indexSectionCompareBytes (lhs rhs : KeyRef) : Ordering := compareRefs lhs rhs

/-- `compare_spans` of `index_section.cpp`. -/
def indexSectionCompareSpans (lhs rhs : KeyRef) : Ordering := indexSectionCompareBytes lhs rhs

/-- `compare_bytes` of `meta_section.cpp`. -/
def metaSectionCompareBytes (lhs rhs : KeyRef) : Ordering := compareRefs lhs rhs

/-- `equal_bytes` of `meta_section.cpp`. -/
def metaSectionEqualBytes (lhs rhs : KeyRef) : Bool := metaSectionCompareBytes lhs rhs == .eq

end KeyComparators

open KeyComparators

/-- The three-way comparators of keys. -/
def keyComparators : List (KeyRef → KeyRef → Ordering) :=
  [dataSectionCompareKeys, dataSectionViewCompareKeys, indexSectionCompareBytes, indexSectionCompareSpans,
    metaSectionCompareBytes]

/-- The tests of keys for equality. -/
def keyEqualities : List (KeyRef → KeyRef → Bool) := [arenaEntryEqual, metaSectionEqualBytes]

/-! ## Records -/

/-- What `VirtualNode`, `InternalRecord` and `DataSection::Payload` hold of a record. -/
structure RecordRef where
  keyEntry : KeyRef
  valueEntry : KeyRef
  type : RecType
  seqNum : UInt64

/-- The record. -/
def RecordRef.record (r : RecordRef) : InternalRecord := ⟨r.keyEntry.entry, r.valueEntry.entry, r.type, r.seqNum⟩

/-- Different keys by the keys, equal ones by the sequence numbers. -/
def keyThenSequence (a b : RecordRef) : Bool :=
  if arenaEntryEqual a.keyEntry b.keyEntry then decide (a.seqNum > b.seqNum) else arenaEntryLess a.keyEntry b.keyEntry

/-- The same key and sequence number. -/
def sameIdentity (a b : RecordRef) : Bool := arenaEntryEqual a.keyEntry b.keyEntry && a.seqNum == b.seqNum

namespace RecordComparators

/-- `VirtualNode::operator<(const VirtualNode&)`. -/
def virtualNodeLess (a b : RecordRef) : Bool := keyThenSequence a b

/-- `VirtualNode::operator>(const VirtualNode&)`. -/
def virtualNodeGreater (a b : RecordRef) : Bool := virtualNodeLess b a

/-- `VirtualNode::operator==(const VirtualNode&)`. -/
def virtualNodeEqual (a b : RecordRef) : Bool := sameIdentity a b

/-- `VirtualNode::operator<(const InternalRecord&)`. -/
def virtualNodeLessRecord (a b : RecordRef) : Bool := keyThenSequence a b

/-- `VirtualNode::operator>(const InternalRecord&)`. -/
def virtualNodeGreaterRecord (a b : RecordRef) : Bool :=
  if arenaEntryEqual a.keyEntry b.keyEntry then decide (a.seqNum < b.seqNum)
  else arenaEntryGreater a.keyEntry b.keyEntry

/-- `VirtualNode::operator==(const InternalRecord&)`. -/
def virtualNodeEqualRecord (a b : RecordRef) : Bool := sameIdentity a b

/-- `record_less` of `sstable_builder.cpp`. -/
def recordLess (a b : RecordRef) : Bool := keyThenSequence a b

/-- `internal_before` of `merge_iterator.h`. -/
def internalBefore (a b : RecordRef) : Bool :=
  if arenaEntryLess a.keyEntry b.keyEntry then true
  else if arenaEntryLess b.keyEntry a.keyEntry then false
  else decide (a.seqNum > b.seqNum)

/-- `validate_order` of `data_section.cpp`. -/
def validateOrder (previous current : RecordRef) : Except Status Unit :=
  match dataSectionCompareKeys previous.keyEntry current.keyEntry with
  | .gt => .error ⟨.invalidArgument, "data records must be appended in ascending key order"⟩
  | .eq =>
    if current.seqNum > previous.seqNum then
      .error ⟨.invalidArgument, "equal keys must be appended in descending sequence order"⟩
    else if current.seqNum = previous.seqNum then
      .error ⟨.duplicate, "duplicate internal record key and sequence number"⟩
    else .ok ()
  | .lt => .ok ()

end RecordComparators

open RecordComparators (virtualNodeLess virtualNodeGreater virtualNodeEqual virtualNodeLessRecord
  virtualNodeGreaterRecord virtualNodeEqualRecord recordLess)

/-- The strict comparators of records. -/
def recordComparators : List (RecordRef → RecordRef → Bool) :=
  [virtualNodeLess, virtualNodeLessRecord, recordLess, RecordComparators.internalBefore]

/-- The tests of records for identity. -/
def recordEqualities : List (RecordRef → RecordRef → Bool) := [virtualNodeEqual, virtualNodeEqualRecord]

/-- Key ascending, then sequence descending. -/
def Before (a b : InternalRecord) : Prop := a.key < b.key ∨ a.key = b.key ∧ b.seqNum < a.seqNum

/-! ## The order of keys -/

section

variable (a b : KeyRef)

theorem memcmpRefs_eq {n : Nat} (ha : n ≤ a.size.toNat) (hb : n ≤ b.size.toNat) :
    memcmpRefs a b n = ArenaEntry.memcmp (a.entry.bytes.take n) (b.entry.bytes.take n) := by
  rw [a.take_entry ha, b.take_entry hb, memcmpRefs]

/-- On references the comparison is that of the bytes. -/
theorem compareRefs_eq : compareRefs a b = compareKeys a.entry.bytes b.entry.bytes := by
  unfold compareRefs compareKeys
  rw [a.length_entry, b.length_entry, ← memcmpRefs_eq a b (Nat.min_le_left _ _) (Nat.min_le_right _ _)]
  have hcommon : (if min a.size.toNat b.size.toNat > 0 then memcmpRefs a b (min a.size.toNat b.size.toNat) else .eq) =
      memcmpRefs a b (min a.size.toNat b.size.toNat) := by
    by_cases h0 : min a.size.toNat b.size.toNat > 0
    · rw [if_pos h0]
    · rw [if_neg h0, Nat.eq_zero_of_not_pos h0]
      rfl
  dsimp only
  rw [hcommon]
  cases memcmpRefs a b (min a.size.toNat b.size.toNat) with
  | lt => rfl
  | gt => rfl
  | eq => simp only [UInt32.lt_iff_toNat_lt, gt_iff_lt]

theorem arenaEntryLess_iff : arenaEntryLess a b = true ↔ a.entry < b.entry := by
  rw [← compareKeys_lt_iff, ← compareRefs_eq]
  unfold arenaEntryLess compareRefs
  dsimp only
  by_cases h0 : min a.size.toNat b.size.toNat > 0
  · rw [if_pos h0]
    cases memcmpRefs a b (min a.size.toNat b.size.toNat) with
    | lt => simp [h0]
    | gt => simp [h0]
    | eq =>
      by_cases hlt : a.size < b.size
      · simp [hlt]
      · by_cases hgt : b.size < a.size
        · simp [hlt, hgt]
        · simp [hlt, hgt]
  · rw [if_neg h0, if_neg fun h => h0 h.1]
    by_cases hlt : a.size < b.size
    · simp [hlt]
    · by_cases hgt : b.size < a.size
      · simp [hlt, hgt]
      · simp [hlt, hgt]

theorem arenaEntryEqual_iff : arenaEntryEqual a b = true ↔ a.entry = b.entry := by
  rw [← compareKeys_eq_iff, ← compareRefs_eq]
  unfold arenaEntryEqual compareRefs
  dsimp only
  by_cases hsize : a.size = b.size
  · have hirrefl : ¬ b.size < b.size := fun h => by
      rw [UInt32.lt_iff_toNat_lt] at h
      omega
    rw [if_neg (not_not.mpr hsize), hsize, Nat.min_self]
    by_cases h0 : b.size = 0
    · rw [h0]
      simp
    · have hpos : b.size.toNat > 0 := by
        by_contra hzero
        exact h0 (UInt32.toNat_inj.mp (by simpa using hzero))
      rw [if_pos hpos]
      cases memcmpRefs a b b.size.toNat with
      | lt => simp [h0]
      | gt => simp [h0]
      | eq => simp [hirrefl]
  · rw [if_pos hsize]
    have hne : a.size.toNat ≠ b.size.toNat := fun h => hsize (UInt32.toNat_inj.mp h)
    constructor
    · intro h
      cases h
    · intro h
      split at h
      · cases h
      · cases h
      · split at h
        · cases h
        next h1 =>
        split at h
        · cases h
        next h2 =>
        rw [UInt32.lt_iff_toNat_lt] at h1
        rw [gt_iff_lt, UInt32.lt_iff_toNat_lt] at h2
        omega

end

theorem codes_lt_iff (l m : List UInt8) : l.map UInt8.toNat < m.map UInt8.toNat ↔
    (∃ p x y s t, l = p ++ x :: s ∧ m = p ++ y :: t ∧ x.toNat < y.toNat) ∨ l <+: m ∧ l ≠ m := by
  induction l generalizing m with
  | nil =>
    cases m with
    | nil => simp
    | cons y ys => simp
  | cons a as ih =>
    cases m with
    | nil => simp
    | cons b bs =>
      rw [List.map_cons, List.map_cons, List.cons_lt_cons_iff, ih bs, List.cons_prefix_cons]
      constructor
      · rintro (hlt | ⟨hsame, ⟨p, x, y, s, t, rfl, rfl, hxy⟩ | ⟨hfront, hne⟩⟩)
        · exact .inl ⟨[], a, b, as, bs, rfl, rfl, hlt⟩
        · obtain rfl := UInt8.toNat_inj.mp hsame
          exact .inl ⟨a :: p, x, y, s, t, rfl, rfl, hxy⟩
        · obtain rfl := UInt8.toNat_inj.mp hsame
          exact .inr ⟨⟨rfl, hfront⟩, fun h => hne (List.cons.inj h).2⟩
      · rintro (⟨p, x, y, s, t, hl, hm, hxy⟩ | ⟨⟨rfl, hfront⟩, hne⟩)
        · cases p with
          | nil =>
            cases hl
            cases hm
            exact .inl hxy
          | cons c p =>
            cases hl
            cases hm
            exact .inr ⟨rfl, .inl ⟨p, x, y, s, t, rfl, rfl, hxy⟩⟩
        · exact .inr ⟨rfl, .inr ⟨hfront, fun h => hne (by rw [h])⟩⟩

/-- The order of keys is that of the first byte that differs, as an unsigned number, a proper prefix first. -/
theorem entry_lt_iff (a b : ArenaEntry) : a < b ↔
    (∃ p x y s t, a.bytes = p ++ x :: s ∧ b.bytes = p ++ y :: t ∧ x.toNat < y.toNat) ∨
      a.bytes <+: b.bytes ∧ a.bytes ≠ b.bytes :=
  codes_lt_iff a.bytes b.bytes

theorem keyComparators_decide {compare : KeyRef → KeyRef → Ordering} (hc : compare ∈ keyComparators)
    (a b : KeyRef) :
    (compare a b = .lt ↔ a.entry < b.entry) ∧ (compare a b = .eq ↔ a.entry = b.entry) ∧
      (compare a b = .gt ↔ b.entry < a.entry) := by
  have hsame : compare a b = compareRefs a b := by
    simp only [keyComparators, List.mem_cons, List.not_mem_nil, or_false] at hc
    rcases hc with rfl | rfl | rfl | rfl | rfl
    · rfl
    · rfl
    · rfl
    · rfl
    · rfl
  rw [hsame, compareRefs_eq]
  exact ⟨compareKeys_lt_iff, compareKeys_eq_iff, compareKeys_gt_iff⟩

theorem keyEqualities_decide {equal : KeyRef → KeyRef → Bool} (he : equal ∈ keyEqualities) (a b : KeyRef) :
    equal a b = true ↔ a.entry = b.entry := by
  simp only [keyEqualities, List.mem_cons, List.not_mem_nil, or_false] at he
  rcases he with rfl | rfl
  · exact arenaEntryEqual_iff a b
  · rw [metaSectionEqualBytes, metaSectionCompareBytes, beq_iff_eq, compareRefs_eq, compareKeys_eq_iff]

/-! ## The order of records -/

section

variable (a b : RecordRef)

theorem keyThenSequence_iff : keyThenSequence a b = true ↔ Before a.record b.record := by
  unfold keyThenSequence
  by_cases hkey : arenaEntryEqual a.keyEntry b.keyEntry = true
  · have hentry := (arenaEntryEqual_iff _ _).mp hkey
    rw [if_pos hkey, decide_eq_true_eq]
    constructor
    · intro h
      exact .inr ⟨hentry, h⟩
    · rintro (h | ⟨-, h⟩)
      · exact absurd h (by show ¬ a.keyEntry.entry < b.keyEntry.entry; rw [hentry]; exact lt_irrefl _)
      · exact h
  · rw [if_neg hkey, arenaEntryLess_iff]
    constructor
    · intro h
      exact .inl h
    · rintro (h | ⟨h, -⟩)
      · exact h
      · exact absurd ((arenaEntryEqual_iff _ _).mpr h) hkey

theorem sameIdentity_iff :
    sameIdentity a b = true ↔ a.record.key = b.record.key ∧ a.record.seqNum = b.record.seqNum := by
  rw [sameIdentity, Bool.and_eq_true, arenaEntryEqual_iff, beq_iff_eq]
  rfl

theorem internalBefore_ref_iff : RecordComparators.internalBefore a b = true ↔ Before a.record b.record := by
  unfold RecordComparators.internalBefore
  by_cases hlt : arenaEntryLess a.keyEntry b.keyEntry = true
  · rw [if_pos hlt]
    exact ⟨fun _ => .inl ((arenaEntryLess_iff _ _).mp hlt), fun _ => rfl⟩
  · rw [if_neg hlt]
    rw [arenaEntryLess_iff] at hlt
    by_cases hgt : arenaEntryLess b.keyEntry a.keyEntry = true
    · rw [if_pos hgt]
      rw [arenaEntryLess_iff] at hgt
      constructor
      · intro h
        cases h
      · rintro (h | ⟨h, -⟩)
        · exact absurd h hlt
        · exact absurd h hgt.ne'
    · rw [if_neg hgt, decide_eq_true_eq]
      rw [arenaEntryLess_iff] at hgt
      have hentry : a.keyEntry.entry = b.keyEntry.entry := le_antisymm (not_lt.mp hgt) (not_lt.mp hlt)
      constructor
      · intro h
        exact .inr ⟨hentry, h⟩
      · rintro (h | ⟨-, h⟩)
        · exact absurd h hlt
        · exact h

theorem virtualNodeGreaterRecord_iff : virtualNodeGreaterRecord a b = true ↔ Before b.record a.record := by
  rw [← keyThenSequence_iff]
  unfold virtualNodeGreaterRecord keyThenSequence
  have hswap : arenaEntryEqual b.keyEntry a.keyEntry = arenaEntryEqual a.keyEntry b.keyEntry := by
    rw [Bool.eq_iff_iff, arenaEntryEqual_iff, arenaEntryEqual_iff]
    exact eq_comm
  rw [hswap]
  rfl

/-- `validate_order` on references is the one on records. -/
theorem validateOrder_ref : RecordComparators.validateOrder a b =
    DataSection.validateOrder (DataSection.Payload.ofRecord a.record) (DataSection.Payload.ofRecord b.record) := by
  unfold RecordComparators.validateOrder DataSection.validateOrder dataSectionCompareKeys
  rw [compareRefs_eq]
  rfl

theorem validateOrder_ref_iff : RecordComparators.validateOrder a b = .ok () ↔ Before a.record b.record := by
  rw [validateOrder_ref, DataSection.validateOrder_ok_iff]
  unfold DataSectionView.Precedes Before
  rw [UInt64.lt_iff_toNat_lt]
  rfl

theorem validateOrder_ref_duplicate : (∃ e, RecordComparators.validateOrder a b = .error e ∧
    e.code = .duplicate) ↔
    a.record.key = b.record.key ∧ a.record.seqNum = b.record.seqNum := by
  unfold RecordComparators.validateOrder dataSectionCompareKeys
  rw [compareRefs_eq]
  cases hc : compareKeys a.keyEntry.entry.bytes b.keyEntry.entry.bytes with
  | lt =>
    have hlt := compareKeys_lt_iff.mp hc
    simp [RecordRef.record, hlt.ne]
  | gt =>
    have hgt := compareKeys_gt_iff.mp hc
    simp [RecordRef.record, hgt.ne']
  | eq =>
    have hkey := compareKeys_eq_iff.mp hc
    dsimp only
    by_cases hlarger : b.seqNum > a.seqNum
    · have hne : a.seqNum ≠ b.seqNum := fun h => by
        rw [h, gt_iff_lt, UInt64.lt_iff_toNat_lt] at hlarger
        omega
      rw [if_pos hlarger]
      simp [RecordRef.record, hne]
    · rw [if_neg hlarger]
      by_cases hsame : b.seqNum = a.seqNum
      · rw [if_pos hsame]
        simp [RecordRef.record, hkey, hsame]
      · rw [if_neg hsame]
        simp [RecordRef.record, Ne.symm hsame]

end

/-- The order that the drivers keep. -/
theorem before_iff {a b : InternalRecord} : internalBefore a b = true ↔ Before a b := by
  rw [internalBefore_iff, Before, UInt64.lt_iff_toNat_lt]

theorem Before.trans {a b c : InternalRecord} (h : Before a b) (h' : Before b c) : Before a c :=
  before_iff.mp (internalBefore_trans (before_iff.mpr h) (before_iff.mpr h'))

theorem Before.irrefl (a : InternalRecord) : ¬ Before a a := by
  intro h
  have hbefore := before_iff.mpr h
  have hnot := internalBefore_asymm a a hbefore
  rw [hbefore] at hnot
  cases hnot

theorem before_total (a b : InternalRecord) : Before a b ∨ (a.key = b.key ∧ a.seqNum = b.seqNum) ∨
    Before b a := by
  by_cases hab : internalBefore a b = true
  · exact .inl (before_iff.mp hab)
  · by_cases hba : internalBefore b a = true
    · exact .inr (.inr (before_iff.mp hba))
    · exact .inr (.inl (same_of_not_before (by simpa using hab) (by simpa using hba)))

/-- **All orders coincide.**  Every comparator of keys decides the strict total order of the bytes, unsigned and a
proper prefix first, and every comparator of records the strict total order of key ascending, then sequence descending;
what is equal under one is equal under all. -/
theorem comparators_agree :
    (∀ a b : KeyRef,
      (arenaEntryLess a b = true ↔ a.entry < b.entry) ∧ (arenaEntryGreater a b = true ↔ b.entry < a.entry) ∧
      (∀ compare ∈ keyComparators, (compare a b = .lt ↔ a.entry < b.entry) ∧
        (compare a b = .eq ↔ a.entry = b.entry) ∧
        (compare a b = .gt ↔ b.entry < a.entry)) ∧
      ∀ equal ∈ keyEqualities, equal a b = true ↔ a.entry = b.entry) ∧
    (∀ a b : ArenaEntry, a < b ↔
      (∃ p x y s t, a.bytes = p ++ x :: s ∧ b.bytes = p ++ y :: t ∧ x.toNat < y.toNat) ∨
        a.bytes <+: b.bytes ∧ a.bytes ≠ b.bytes) ∧
    (∀ a b : RecordRef,
      (∀ less ∈ recordComparators, less a b = true ↔ Before a.record b.record) ∧
      (virtualNodeGreater a b = true ↔ Before b.record a.record) ∧
      (virtualNodeGreaterRecord a b = true ↔ Before b.record a.record) ∧
      (RecordComparators.validateOrder a b = .ok () ↔ Before a.record b.record) ∧
      (∀ equal ∈ recordEqualities,
        equal a b = true ↔ a.record.key = b.record.key ∧ a.record.seqNum = b.record.seqNum) ∧
      ((∃ e, RecordComparators.validateOrder a b = .error e ∧ e.code = .duplicate) ↔
        a.record.key = b.record.key ∧ a.record.seqNum = b.record.seqNum)) ∧
    (∀ a : InternalRecord, ¬ Before a a) ∧ (∀ a b c : InternalRecord, Before a b → Before b c →
      Before a c) ∧
    ∀ a b : InternalRecord, Before a b ∨ (a.key = b.key ∧ a.seqNum = b.seqNum) ∨ Before b a := by
  refine ⟨fun a b => ?_, entry_lt_iff, fun a b => ?_, Before.irrefl, fun _ _ _ => Before.trans, before_total⟩
  · exact ⟨arenaEntryLess_iff a b, arenaEntryLess_iff b a, fun compare hc => keyComparators_decide hc a b,
      fun equal he => keyEqualities_decide he a b⟩
  · refine ⟨?_, keyThenSequence_iff b a, virtualNodeGreaterRecord_iff a b, validateOrder_ref_iff a b, ?_,
      validateOrder_ref_duplicate a b⟩
    · intro less hl
      simp only [recordComparators, List.mem_cons, List.not_mem_nil, or_false] at hl
      rcases hl with rfl | rfl | rfl | rfl
      · exact keyThenSequence_iff a b
      · exact keyThenSequence_iff a b
      · exact keyThenSequence_iff a b
      · exact internalBefore_ref_iff a b
    · intro equal he
      simp only [recordEqualities, List.mem_cons, List.not_mem_nil, or_false] at he
      rcases he with rfl | rfl
      · exact sameIdentity_iff a b
      · exact sameIdentity_iff a b

end Kvdb
