import Mathlib.Data.List.GetD
import Kvdb.Engine.MemTable
import Kvdb.Lib.Heap
import Kvdb.Lib.Merge
import Kvdb.Lib.Pointwise
import Kvdb.Lib.Prog

/-!
# The merge iterator

`MergeIterator` (`utils/merge_iterator.cpp`): a heap of the indices of the inputs
that have a record left, ordered by these records.  An input is popped before it
moves, so the records of the inputs that wait in the heap stay as they are and the
heap stays one (`next_merging`).

The inputs are `SSTableIterator`s over the blocks of their tables; each load of a
block can fail.  Read to its end, the merge iterator yields the records of all
inputs in internal order, or, when an input fails, those of a prefix of each
(`mergeRecords_sorted`).
-/

namespace Kvdb

open Faulty Heap

/-- How the next loads of a block end; none of them fails when the list is empty. -/
abbrev Reads := List (Option Status)

/-- A record that no caller looks at. -/
def noRecord : InternalRecord := ⟨.empty, .empty, .undefined, 0⟩

/-! ## Inputs -/

/-- `SSTableIterator` over the blocks of its table. -/
structure TableIterator where
  blocks : List (List InternalRecord)
  nextBlockIndex : Nat := 0
  recordIndex : Nat := 0
  currentBlockRecords : List InternalRecord := []
  valid : Bool := false
  status : Option Status := none
deriving DecidableEq

namespace TableIterator

def emptyDataBlock : Status := ⟨.corruption, "Loaded empty data block"⟩

/-- The block that was read, behind the iterator's place. -/
def enter (it : TableIterator) : List InternalRecord → TableIterator
  | [] => { it with nextBlockIndex := it.nextBlockIndex + 1, status := some emptyDataBlock }
  | r :: rs =>
    { it with nextBlockIndex := it.nextBlockIndex + 1, currentBlockRecords := r :: rs, valid := true }

/-- `load_next_block`, of an iterator whose block was left. -/
def load (it : TableIterator) (reads : Reads) : TableIterator × Reads :=
  if it.nextBlockIndex ≥ it.blocks.length then (it, reads)
  else
    match reads.head?.join with
    | some e => ({ it with status := some e }, reads.tail)
    | none => (it.enter (it.blocks.getD it.nextBlockIndex []), reads.tail)

/-- `load_next_block`: its result is the status. -/
def loadNextBlock (it : TableIterator) (reads : Reads) : TableIterator × Reads :=
  load { it with recordIndex := 0, currentBlockRecords := [], valid := false, status := none } reads

/-- `SSTableIterator::seek_to_first`. -/
def seekToFirst (it : TableIterator) (reads : Reads) : TableIterator × Reads :=
  loadNextBlock { it with nextBlockIndex := 0 } reads

/-- `SSTableIterator::next`. -/
def next (it : TableIterator) (reads : Reads) : TableIterator × Reads :=
  if !it.valid then (it, reads)
  else if it.recordIndex + 1 < it.currentBlockRecords.length then
    ({ it with recordIndex := it.recordIndex + 1 }, reads)
  else loadNextBlock it reads

/-- `SSTableIterator::record`. -/
def record (it : TableIterator) : InternalRecord := it.currentBlockRecords.getD it.recordIndex noRecord

/-- The records of the table. -/
def records (it : TableIterator) : List InternalRecord := it.blocks.flatten

end TableIterator

/-! ## The iterator -/

structure MergeIterator where
  inputs : List TableIterator
  heap : List Nat := []
  valid : Bool := false
  status : Option Status := none
  /-- how the loads of the inputs end -/
  reads : Reads := []

namespace MergeIterator

/-- The record an input stands at. -/
def recordOf (inputs : List TableIterator) (i : Nat) : InternalRecord :=
  match inputs[i]? with
  | none => noRecord
  | some it => it.record

/-- `HeapCompare`: `a` comes after `b`. -/
def compare (inputs : List TableIterator) (a b : Nat) : Bool :=
  internalBefore (recordOf inputs b) (recordOf inputs a)

/-- `MergeIterator::record`. -/
def record (m : MergeIterator) : InternalRecord :=
  match m.heap with
  | [] => noRecord
  | top :: _ => recordOf m.inputs top

variable [HeapOps]

/-- An input with a record left goes to the heap. -/
def pushInput (inputs : List TableIterator) (heap : List Nat) (i : Nat) (it : TableIterator) : List Nat :=
  if it.valid then HeapOps.push (compare inputs) heap i else heap

/-- The loop of `build`, over the indices of the inputs. -/
def buildLoop : List Nat → Prog MergeIterator Status Unit
  | [] => modify fun m => { m with valid := !m.heap.isEmpty }
  | i :: is => fun m =>
    match m.inputs[i]? with
    | none => buildLoop is m
    | some it =>
      match it.seekToFirst m.reads with
      | (it, reads) =>
        match it.status with
        | some e => (.err e, { m with inputs := m.inputs.set i it, reads, status := some e, valid := false })
        | none =>
          buildLoop is
            { m with
              inputs := m.inputs.set i it
              heap := pushInput (m.inputs.set i it) m.heap i it
              reads
              status := none }

/-- `MergeIterator::build`. -/
def build : Prog MergeIterator Status Unit := fun m =>
  buildLoop (List.range m.inputs.length) { m with heap := [], valid := false, status := none }

/-- The input on top, advanced, goes back to the heap that is left. -/
def advance (m : MergeIterator) (top : Nat) (heap : List Nat) (it : TableIterator) :
    Outcome Status Unit × MergeIterator :=
  match it.next m.reads with
  | (it, reads) =>
    match it.status with
    | some e => (.err e, ⟨m.inputs.set top it, heap, false, some e, reads⟩)
    | none =>
      (.ok (), ⟨m.inputs.set top it, pushInput (m.inputs.set top it) heap top it,
        !(pushInput (m.inputs.set top it) heap top it).isEmpty, none, reads⟩)

/-- `MergeIterator::next`. -/
def next : Prog MergeIterator Status Unit := fun m =>
  if !m.valid then (.ok (), m)
  else
    match m.heap with
    | [] => (.ok (), m)
    | top :: rest =>
      match m.inputs[top]? with
      | none => (.ok (), m)
      | some it => advance m top (HeapOps.pop (compare m.inputs) (top :: rest)) it

/-- Reading records until the iterator is invalid. -/
def drain : Nat → MergeIterator → List InternalRecord × MergeIterator
  | 0, m => ([], m)
  | fuel + 1, m =>
    if m.valid then
      match drain fuel (next m).2 with
      | (rs, m') => (m.record :: rs, m')
    else ([], m)

end MergeIterator

/-! ## What an input has left -/

/-- Some loads went well. -/
def QuietReads (reads reads' : Reads) : Prop := ∃ used, reads = used ++ reads' ∧ ∀ x ∈ used, x = none

theorem QuietReads.refl (reads : Reads) : QuietReads reads reads := ⟨[], rfl, by simp⟩

theorem QuietReads.trans {r₁ r₂ r₃ : Reads} (h : QuietReads r₁ r₂) (h' : QuietReads r₂ r₃) :
    QuietReads r₁ r₃ := by
  obtain ⟨u, rfl, hu⟩ := h
  obtain ⟨u', rfl, hu'⟩ := h'
  refine ⟨u ++ u', (List.append_assoc _ _ _).symm, fun x hx => ?_⟩
  rcases List.mem_append.mp hx with hx | hx
  · exact hu x hx
  · exact hu' x hx

/-- Some loads went well, and the one behind them failed. -/
def FailedRead (reads : Reads) (e : Status) (reads' : Reads) : Prop := QuietReads reads (some e :: reads')

/-- Some loads went well, and the next one failed: with an error, or, when `E` holds, because the
block was empty. -/
def FailedLoad (E : Prop) (reads : Reads) (e : Status) (reads' : Reads) : Prop :=
  FailedRead reads e reads' ∨ (E ∧ e = TableIterator.emptyDataBlock ∧ QuietReads reads reads')

theorem QuietReads.failed {E : Prop} {r₁ r₂ r₃ : Reads} {e : Status} (h : QuietReads r₁ r₂)
    (h' : FailedLoad E r₂ e r₃) :
    FailedLoad E r₁ e r₃ := by
  rcases h' with h' | ⟨hE, he, h'⟩
  · exact .inl (QuietReads.trans h h')
  · exact .inr ⟨hE, he, h.trans h'⟩

namespace TableIterator

variable {E : Prop}

/-- The records from the iterator's place on. -/
def rest (it : TableIterator) : List InternalRecord :=
  if it.valid then it.currentBlockRecords.drop it.recordIndex ++ (it.blocks.drop it.nextBlockIndex).flatten else []

/-- The iterator stands in front of these records; `E` holds when it has an empty block. -/
structure Standing (E : Prop) (it : TableIterator) (l : List InternalRecord) : Prop where
  status : it.status = none
  rest : it.rest = l
  valid : it.valid = true ↔ l ≠ []
  place : it.valid = true → it.recordIndex < it.currentBlockRecords.length
  blocks : [] ∈ it.blocks → E

/-- How a move ends: in front of `l`, or with the error of a load. -/
def Moves (E : Prop) (l : List InternalRecord) (reads : Reads) (r : TableIterator × Reads) : Prop :=
  (Standing E r.1 l ∧ QuietReads reads r.2) ∨
    ∃ e, r.1.status = some e ∧ r.1.valid = false ∧ FailedLoad E reads e r.2

theorem Standing.record {it : TableIterator} {r : InternalRecord} {l : List InternalRecord}
    (h : Standing E it (r :: l)) : it.record = r := by
  have hvalid := h.valid.mpr (by simp)
  have hplace := h.place hvalid
  have hrest := h.rest
  unfold TableIterator.rest at hrest
  rw [if_pos hvalid, List.drop_eq_getElem_cons hplace, List.cons_append] at hrest
  unfold TableIterator.record
  rw [List.getD_eq_getElem _ _ hplace]
  exact (List.cons.inj hrest).1

theorem load_moves (it : TableIterator) (hE : [] ∈ it.blocks → E) (hv : it.valid = false) (hs : it.status = none)
    (hr : it.recordIndex = 0) (reads : Reads) :
    Moves E (it.blocks.drop it.nextBlockIndex).flatten reads (it.load reads) := by
  unfold load
  by_cases hend : it.nextBlockIndex ≥ it.blocks.length
  · -- no block is left
    have hdrop : it.blocks.drop it.nextBlockIndex = [] := List.drop_eq_nil_of_le hend
    rw [if_pos hend, hdrop]
    refine .inl ⟨⟨hs, ?_, ?_, ?_, hE⟩, QuietReads.refl _⟩
    · unfold rest
      rw [hv]
      rfl
    · rw [hv]
      simp
    · rw [hv]
      intro h
      cases h
  · have hlt : it.nextBlockIndex < it.blocks.length := by omega
    rw [if_neg hend]
    cases hhead : reads.head?.join with
    | some e =>
      have hreads : reads = some e :: reads.tail := by
        cases reads with
        | nil => cases hhead
        | cons x xs =>
          have hx : x = some e := hhead
          rw [hx]
          rfl
      refine .inr ⟨e, rfl, hv, .inl ?_⟩
      show QuietReads reads (some e :: reads.tail)
      rw [← hreads]
      exact QuietReads.refl _
    | none =>
      have hquiet : QuietReads reads reads.tail := by
        cases reads with
        | nil => exact QuietReads.refl _
        | cons x xs =>
          have hx : x = none := by
            cases x with
            | none => rfl
            | some e => cases hhead
          exact ⟨[x], rfl, by simp [hx]⟩
      have hblock := List.drop_eq_getElem_cons hlt
      have hget : it.blocks.getD it.nextBlockIndex [] = it.blocks.get ⟨it.nextBlockIndex, hlt⟩ :=
        List.getD_eq_getElem _ _ hlt
      dsimp only
      rw [hget]
      cases hb : it.blocks.get ⟨it.nextBlockIndex, hlt⟩ with
      | nil => exact .inr ⟨_, rfl, hv, .inr ⟨hE (hb ▸ List.get_mem it.blocks ⟨it.nextBlockIndex, hlt⟩),
        rfl, hquiet⟩⟩
      | cons r rs =>
        have hb' : it.blocks[it.nextBlockIndex] = r :: rs := hb
        rw [hb'] at hblock
        rw [hblock, List.flatten_cons]
        refine .inl ⟨⟨hs, ?_, ?_, ?_, hE⟩, hquiet⟩
        · show List.drop it.recordIndex (r :: rs) ++ (it.blocks.drop (it.nextBlockIndex + 1)).flatten = _
          rw [hr]
          rfl
        · exact ⟨fun _ => by simp, fun _ => rfl⟩
        · intro _
          show it.recordIndex < (r :: rs).length
          rw [hr, List.length_cons]
          omega

theorem loadNextBlock_moves (it : TableIterator) (hE : [] ∈ it.blocks → E) (reads : Reads) :
    Moves E (it.blocks.drop it.nextBlockIndex).flatten reads (it.loadNextBlock reads) := by
  have hload := load_moves { it with recordIndex := 0, currentBlockRecords := [], valid := false, status := none } hE
    rfl rfl rfl reads
  exact hload

theorem seekToFirst_moves {it : TableIterator} (hE : [] ∈ it.blocks → E) (reads : Reads) :
    Moves E it.records reads (it.seekToFirst reads) := by
  have hload := loadNextBlock_moves { it with nextBlockIndex := 0 } hE reads
  exact hload

theorem next_moves {it : TableIterator} {r : InternalRecord} {l : List InternalRecord} (h : Standing E it (r :: l))
    (reads : Reads) : Moves E l reads (it.next reads) := by
  have hvalid := h.valid.mpr (by simp)
  have hplace := h.place hvalid
  have hrest := h.rest
  unfold rest at hrest
  rw [if_pos hvalid, List.drop_eq_getElem_cons hplace, List.cons_append] at hrest
  have htail := (List.cons.inj hrest).2
  unfold next
  rw [if_neg (by rw [hvalid]; decide)]
  by_cases hmore : it.recordIndex + 1 < it.currentBlockRecords.length
  · rw [if_pos hmore]
    have hl : l ≠ [] := by
      rw [← htail, List.drop_eq_getElem_cons hmore, List.cons_append]
      exact List.cons_ne_nil _ _
    refine .inl ⟨⟨h.status, ?_, ?_, fun _ => hmore, h.blocks⟩, QuietReads.refl _⟩
    · show (if it.valid = true then it.currentBlockRecords.drop (it.recordIndex + 1) ++ _ else []) = l
      rw [if_pos hvalid]
      exact htail
    · exact ⟨fun _ => hl, fun _ => hvalid⟩
  · rw [if_neg hmore]
    rw [List.drop_eq_nil_of_le (by omega), List.nil_append] at htail
    rw [← htail]
    exact loadNextBlock_moves it h.blocks reads

end TableIterator

/-! ## One step of the merge -/

namespace MergeIterator

/-- The iterator stands in front of what its inputs have left. -/
structure Merging (E : Prop) (m : MergeIterator) (ls : List (List InternalRecord)) : Prop where
  inputs : List.Forall₂ (TableIterator.Standing E) m.inputs ls
  heap : IsHeap (compare m.inputs) m.heap
  nodup : m.heap.Nodup
  mem : ∀ i, i ∈ m.heap ↔ ∃ r l, ls[i]? = some (r :: l)
  valid : m.valid = !m.heap.isEmpty
  status : m.status = none

theorem compare_strictWeak (inputs : List TableIterator) : StrictWeak (compare inputs) := by
  refine ⟨fun a b h => ?_, fun a b c hab hbc => ?_⟩
  · exact internalBefore_asymm _ _ h
  · exact not_internalBefore_trans _ _ _ hab hbc

theorem recordOf_eq {E : Prop} {inputs : List TableIterator} {ls : List (List InternalRecord)}
    (h : List.Forall₂ (TableIterator.Standing E) inputs ls) {i : Nat} {r : InternalRecord} {l : List InternalRecord}
    (hi : ls[i]? = some (r :: l)) : recordOf inputs i = r := by
  rcases forall₂_getElem? h i with ⟨-, hn⟩ | ⟨it, l', hit, hl', hst⟩
  · rw [hn] at hi
    cases hi
  · rw [hl'] at hi
    cases hi
    unfold recordOf
    rw [hit]
    exact hst.record

/-- An input outside a list of indices may move without changing how these compare. -/
theorem compare_set {inputs : List TableIterator} {i : Nat} (it : TableIterator) {a b : Nat} (ha : a ≠ i)
    (hb : b ≠ i) :
    compare (inputs.set i it) a b = compare inputs a b := by
  have hget : ∀ j, j ≠ i → recordOf (inputs.set i it) j = recordOf inputs j := by
    intro j hj
    unfold recordOf
    rw [List.getElem?_set_ne (Ne.symm hj)]
  unfold compare
  rw [hget a ha, hget b hb]

variable [HeapOps] [LawfulHeap]

/-- An input that moved while it was out of the heap goes back. -/
theorem pushInput_heap {inputs : List TableIterator} {heap : List Nat} {i : Nat} (it : TableIterator)
    (hheap : IsHeap (compare inputs) heap) (hi : i ∉ heap) :
    IsHeap (compare (inputs.set i it)) (pushInput (inputs.set i it) heap i it) ∧
      ((pushInput (inputs.set i it) heap i it).Perm (if it.valid then i :: heap else heap)) := by
  have hmoved : IsHeap (compare (inputs.set i it)) heap := by
    refine hheap.congr fun a ha b hb => compare_set it ?_ ?_
    · rintro rfl
      exact hi ha
    · rintro rfl
      exact hi hb
  unfold pushInput
  by_cases hv : it.valid = true
  · rw [if_pos hv, if_pos hv]
    exact ⟨LawfulHeap.push_heap i (compare_strictWeak _) hmoved,
      LawfulHeap.push_perm i (compare_strictWeak _) hmoved⟩
  · rw [if_neg hv, if_neg hv]
    exact ⟨hmoved, List.Perm.refl _⟩

variable {E : Prop} {m : MergeIterator} {ls : List (List InternalRecord)}

omit [HeapOps] [LawfulHeap] in
theorem Merging.valid_iff (h : Merging E m ls) : m.valid = true ↔ m.heap ≠ [] := by
  rw [h.valid]
  cases m.heap with
  | nil => simp
  | cons i is => simp

omit [HeapOps] [LawfulHeap] in
/-- No input has failed. -/
theorem Merging.quiet (h : Merging E m ls) : ∀ it ∈ m.inputs, it.status = none := by
  intro it hit
  obtain ⟨l, -, hst⟩ := forall₂_right (List.Forall₂.flip h.inputs) it hit
  exact hst.status

omit [HeapOps] [LawfulHeap] in
/-- An invalid merge iterator has left all records. -/
theorem Merging.done (h : Merging E m ls) (hv : m.valid = false) : ls.flatten = [] := by
  refine List.flatten_eq_nil_iff.mpr fun l hl => ?_
  obtain ⟨i, hi⟩ := List.mem_iff_getElem?.mp hl
  cases l with
  | nil => rfl
  | cons r l =>
    have hvalid := h.valid_iff.mpr (List.ne_nil_of_mem ((h.mem i).mpr ⟨r, l, hi⟩))
    rw [hv] at hvalid
    cases hvalid

omit [HeapOps] [LawfulHeap] in
/-- A valid merge iterator is at a record that no other head comes before. -/
theorem Merging.top (h : Merging E m ls) (hv : m.valid = true) :
    ∃ top rest it r l, m.heap = top :: rest ∧ m.inputs[top]? = some it ∧ it.Standing E (r :: l) ∧
      ls[top]? = some (r :: l) ∧ m.record = r ∧
        ∀ (j : Nat) (b : InternalRecord) (u : List InternalRecord), ls[j]? = some (b :: u) →
          internalBefore b r = false := by
  have hne := h.valid_iff.mp hv
  cases hheap : m.heap with
  | nil => exact absurd hheap hne
  | cons top rest =>
    obtain ⟨r, l, htop⟩ := (h.mem top).mp (by rw [hheap]; exact List.mem_cons_self)
    rcases forall₂_getElem? h.inputs top with ⟨-, hn⟩ | ⟨it, l', hit, hl', hst⟩
    · rw [hn] at htop
      cases htop
    · rw [hl'] at htop
      cases htop
      refine ⟨top, rest, it, r, l, rfl, hit, hst, hl', ?_, fun j b u hj => ?_⟩
      · unfold record
        rw [hheap]
        exact recordOf_eq h.inputs hl'
      · have hjmem : j ∈ top :: rest := hheap ▸ (h.mem j).mpr ⟨b, u, hj⟩
        have hroot := IsHeap.head (compare_strictWeak m.inputs) (hheap ▸ h.heap) j hjmem
        unfold compare at hroot
        rw [recordOf_eq h.inputs hj, recordOf_eq h.inputs hl'] at hroot
        exact hroot

omit [HeapOps] [LawfulHeap] in
theorem mem_set_iff {ls : List (List InternalRecord)} {top : Nat} {r : InternalRecord} {l : List InternalRecord}
    (htop : ls[top]? = some (r :: l)) (i : Nat) :
    (∃ b u, (ls.set top l)[i]? = some (b :: u)) ↔ (i = top ∧ l ≠ []) ∨
      (i ≠ top ∧ ∃ b u, ls[i]? = some (b :: u)) := by
  have hlt := (List.getElem?_eq_some_iff.mp htop).1
  by_cases hi : i = top
  · subst hi
    rw [List.getElem?_set_self hlt]
    constructor
    · rintro ⟨b, u, hbu⟩
      cases hbu
      exact .inl ⟨rfl, by simp⟩
    · rintro (⟨-, hl⟩ | ⟨hne, -⟩)
      · obtain ⟨b, u, rfl⟩ := List.exists_cons_of_ne_nil hl
        exact ⟨b, u, rfl⟩
      · exact absurd rfl hne
  · rw [List.getElem?_set_ne (Ne.symm hi)]
    constructor
    · exact fun h => .inr ⟨hi, h⟩
    · rintro (⟨heq, -⟩ | ⟨-, h⟩)
      · exact absurd heq hi
      · exact h

/-- **One step.**  The least record is left behind, or the load of its input failed. -/
theorem next_merging (h : Merging E m ls) (hv : m.valid = true) :
    ∃ top r l, ls[top]? = some (r :: l) ∧ m.record = r ∧
      (∀ (j : Nat) (b : InternalRecord) (u : List InternalRecord), ls[j]? = some (b :: u) →
        internalBefore b r = false) ∧
      ((∃ m', next m = (.ok (), m') ∧ Merging E m' (ls.set top l) ∧ QuietReads m.reads m'.reads) ∨
        ∃ e m', next m = (.err e, m') ∧ m'.valid = false ∧ m'.status = some e ∧
          FailedLoad E m.reads e m'.reads ∧
          ∃ it ∈ m'.inputs, it.status = some e) := by
  obtain ⟨top, rest, it, r, l, hheap, hit, hst, htop, hrec, hmin⟩ := h.top hv
  refine ⟨top, r, l, htop, hrec, hmin, ?_⟩
  have hlt := (List.getElem?_eq_some_iff.mp hit).1
  have hnext : next m = advance m top (HeapOps.pop (compare m.inputs) (top :: rest)) it := by
    unfold next
    rw [if_neg (by rw [hv]; decide), hheap]
    dsimp only
    rw [hit]
  rw [hnext]
  have hold : IsHeap (compare m.inputs) (top :: rest) := hheap ▸ h.heap
  have hpop := LawfulHeap.pop_heap (compare_strictWeak m.inputs) hold
  have hperm := LawfulHeap.pop_perm (compare_strictWeak m.inputs) hold
  have hnodup : (top :: rest).Nodup := hheap ▸ h.nodup
  generalize HeapOps.pop (compare m.inputs) (top :: rest) = heap at hpop hperm
  have hout : top ∉ heap := fun hmem => (List.nodup_cons.mp hnodup).1 (hperm.mem_iff.mp hmem)
  have hmoves := TableIterator.next_moves hst m.reads
  unfold advance
  generalize it.next m.reads = moved at hmoves
  obtain ⟨it', reads⟩ := moved
  rcases hmoves with ⟨hst', hquiet⟩ | ⟨e, hs, hvalid, hfailed⟩
  · -- the input moved: it goes back to the heap when it has a record left
    have hstatus : it'.status = none := hst'.status
    dsimp only
    rw [hstatus]
    refine .inl ⟨_, rfl, ?_, hquiet⟩
    obtain ⟨hheap', hperm'⟩ := pushInput_heap it' hpop hout
    refine ⟨forall₂_set h.inputs hst' top, hheap', ?_, fun i => ?_, rfl, rfl⟩
    · refine hperm'.nodup_iff.mpr ?_
      have hrest : heap.Nodup := hperm.nodup_iff.mpr (List.nodup_cons.mp hnodup).2
      by_cases hv' : it'.valid = true
      · rw [if_pos hv']
        exact List.nodup_cons.mpr ⟨hout, hrest⟩
      · rw [if_neg hv']
        exact hrest
    · rw [mem_set_iff htop, hperm'.mem_iff]
      have hmem : i ∈ heap ↔ i ≠ top ∧ ∃ b u, ls[i]? = some (b :: u) := by
        rw [hperm.mem_iff, ← h.mem i, hheap]
        constructor
        · intro hi
          refine ⟨?_, List.mem_cons_of_mem top hi⟩
          rintro rfl
          exact (List.nodup_cons.mp hnodup).1 hi
        · rintro ⟨hne, hi⟩
          exact (List.mem_cons.mp hi).resolve_left hne
      by_cases hv' : it'.valid = true
      · have hl : l ≠ [] := hst'.valid.mp hv'
        rw [if_pos hv', List.mem_cons, hmem]
        constructor
        · rintro (rfl | hi)
          · exact .inl ⟨rfl, hl⟩
          · exact .inr hi
        · rintro (⟨rfl, -⟩ | hi)
          · exact .inl rfl
          · exact .inr hi
      · have hl : l = [] := by
          by_contra hne
          exact hv' (hst'.valid.mpr hne)
        rw [if_neg hv', hmem]
        constructor
        · exact .inr
        · rintro (⟨-, hne⟩ | hi)
          · exact absurd hl hne
          · exact hi
  · dsimp only at hs hvalid hfailed ⊢
    rw [hs]
    exact .inr ⟨e, _, rfl, rfl, rfl, hfailed, it', List.mem_set hlt it', hs⟩

/-! ## Building -/

omit [HeapOps] [LawfulHeap] in
theorem range'_succ_eq (i n : Nat) : List.range' i (n + 1) = i :: List.range' (i + 1) n := rfl

/-- The loop of `build`, with the first inputs at the start of their tables. -/
theorem buildLoop_merging (sought unsought : List TableIterator) (m : MergeIterator)
    (hinputs : m.inputs = sought ++ unsought) (hsought : List.Forall₂ (TableIterator.Standing E) sought ls)
    (hE : ∀ it ∈ unsought, [] ∈ it.blocks → E) (hheap : IsHeap (compare m.inputs) m.heap)
      (hnodup : m.heap.Nodup)
    (hmem : ∀ i, i ∈ m.heap ↔ ∃ r l, ls[i]? = some (r :: l)) (hstatus : m.status = none) :
    (∃ m', buildLoop (List.range' sought.length unsought.length) m = (.ok (), m') ∧
        Merging E m' (ls ++ unsought.map TableIterator.records) ∧ QuietReads m.reads m'.reads) ∨
      ∃ e m', buildLoop (List.range' sought.length unsought.length) m = (.err e, m') ∧ m'.valid = false ∧
        m'.status = some e ∧ FailedLoad E m.reads e m'.reads ∧ ∃ it ∈ m'.inputs, it.status = some e := by
  induction unsought generalizing sought ls m with
  | nil =>
    refine .inl ⟨_, rfl, ?_, QuietReads.refl _⟩
    rw [List.map_nil, List.append_nil]
    refine ⟨?_, hheap, hnodup, hmem, rfl, hstatus⟩
    show List.Forall₂ (TableIterator.Standing E) m.inputs ls
    rw [hinputs, List.append_nil]
    exact hsought
  | cons it unsought ih =>
    have hlen : sought.length = ls.length := hsought.length_eq
    have hit : m.inputs[sought.length]? = some it := by
      rw [hinputs, List.getElem?_append_right (Nat.le_refl _), Nat.sub_self]
      rfl
    have hset : ∀ it', m.inputs.set sought.length it' = (sought ++ [it']) ++ unsought := by
      intro it'
      rw [hinputs, List.set_append_right _ _ (Nat.le_refl _), Nat.sub_self, List.append_assoc]
      rfl
    have hout : sought.length ∉ m.heap := by
      intro hin
      obtain ⟨r, l, hrl⟩ := (hmem _).mp hin
      have hlt := (List.getElem?_eq_some_iff.mp hrl).1
      omega
    have hmoves := TableIterator.seekToFirst_moves (hE it List.mem_cons_self) m.reads
    rw [List.length_cons, range'_succ_eq]
    unfold buildLoop
    dsimp only
    rw [hit]
    dsimp only
    generalize it.seekToFirst m.reads = moved at hmoves
    obtain ⟨it', reads⟩ := moved
    rcases hmoves with ⟨hst, hquiet⟩ | ⟨e, hs, hvalid, hfailed⟩
    · have hs : it'.status = none := hst.status
      dsimp only
      rw [hs]
      dsimp only
      obtain ⟨hheap', hperm'⟩ := pushInput_heap it' hheap hout
      have hnext := @ih (ls ++ [it.records]) (sought ++ [it'])
        ⟨m.inputs.set sought.length it', pushInput (m.inputs.set sought.length it') m.heap sought.length it', m.valid,
          none, reads⟩ (hset it') (List.rel_append hsought (.cons hst .nil))
        (fun x hx => hE x (List.mem_cons_of_mem it hx)) hheap' ?_ ?_ rfl
      · rw [List.length_append, List.length_singleton, List.append_assoc] at hnext
        rcases hnext with ⟨m', hrun, hm', hq⟩ | ⟨e, m', hrun, hv', hs', hf, hbad⟩
        · exact .inl ⟨m', hrun, hm', hquiet.trans hq⟩
        · exact .inr ⟨e, m', hrun, hv', hs', hquiet.failed hf, hbad⟩
      · refine hperm'.nodup_iff.mpr ?_
        by_cases hv' : it'.valid = true
        · rw [if_pos hv']
          exact List.nodup_cons.mpr ⟨hout, hnodup⟩
        · rw [if_neg hv']
          exact hnodup
      · intro i
        have hget : (∃ r l, (ls ++ [it.records])[i]? = some (r :: l)) ↔
            (i = sought.length ∧ it.records ≠ []) ∨ ∃ r l, ls[i]? = some (r :: l) := by
          rw [hlen]
          rcases Nat.lt_trichotomy i ls.length with hlt | rfl | hgt
          · rw [List.getElem?_append_left hlt]
            constructor
            · exact .inr
            · rintro (⟨heq, -⟩ | h)
              · omega
              · exact h
          · rw [List.getElem?_append_right (Nat.le_refl _), Nat.sub_self, List.getElem?_eq_none (Nat.le_refl _)]
            constructor
            · rintro ⟨r, l, hrl⟩
              have hrl : it.records = r :: l := Option.some.inj hrl
              exact .inl ⟨rfl, by rw [hrl]; simp⟩
            · rintro (⟨-, hr⟩ | ⟨r, l, hrl⟩)
              · obtain ⟨r, l, hrl⟩ := List.exists_cons_of_ne_nil hr
                exact ⟨r, l, congrArg some hrl⟩
              · cases hrl
          · rw [List.getElem?_eq_none (by rw [List.length_append, List.length_singleton]; omega),
              List.getElem?_eq_none (by omega)]
            constructor
            · rintro ⟨r, l, hrl⟩
              cases hrl
            · rintro (⟨heq, -⟩ | ⟨r, l, hrl⟩)
              · omega
              · cases hrl
        rw [hget, hperm'.mem_iff, ← hmem i]
        by_cases hv' : it'.valid = true
        · have hr : it.records ≠ [] := hst.valid.mp hv'
          rw [if_pos hv', List.mem_cons]
          constructor
          · rintro (rfl | hi)
            · exact .inl ⟨rfl, hr⟩
            · exact .inr hi
          · rintro (⟨rfl, -⟩ | hi)
            · exact .inl rfl
            · exact .inr hi
        · have hr : it.records = [] := by
            by_contra hr
            exact hv' (hst.valid.mpr hr)
          rw [if_neg hv']
          constructor
          · exact .inr
          · rintro (⟨-, hr'⟩ | hi)
            · exact absurd hr hr'
            · exact hi
    · dsimp only at hs hvalid hfailed ⊢
      rw [hs]
      refine .inr ⟨e, _, rfl, rfl, rfl, hfailed, it', ?_, hs⟩
      exact List.mem_set (List.getElem?_eq_some_iff.mp hit).1 it'

/-- **Building** the iterator puts each input at the start of its table. -/
theorem build_merging (m : MergeIterator) (hE : ∀ it ∈ m.inputs, [] ∈ it.blocks → E) :
    (∃ m', build m = (.ok (), m') ∧ Merging E m' (m.inputs.map TableIterator.records) ∧
      QuietReads m.reads m'.reads) ∨
      ∃ e m', build m = (.err e, m') ∧ m'.valid = false ∧ m'.status = some e ∧
        FailedLoad E m.reads e m'.reads ∧
        ∃ it ∈ m'.inputs, it.status = some e := by
  unfold build
  rw [List.range_eq_range']
  exact buildLoop_merging [] m.inputs { m with heap := [], valid := false, status := none } rfl .nil hE isHeap_nil
    List.nodup_nil (by simp) rfl

/-! ## Reading to the end -/

/-- Reading to the end takes the least record of the inputs in each round, until all are empty or a
load fails. -/
theorem drain_drains {fuel : Nat} (h : Merging E m ls) (hfuel : ls.flatten.length ≤ fuel) :
    ∃ rest, KWay.Drains internalBefore ls (drain fuel m).1 rest ∧ (drain fuel m).2.valid = false ∧
      (((drain fuel m).2.status = none ∧ rest.flatten = [] ∧ QuietReads m.reads (drain fuel m).2.reads) ∨
        ∃ e, (drain fuel m).2.status = some e ∧ FailedLoad E m.reads e (drain fuel m).2.reads) := by
  induction fuel generalizing m ls with
  | zero =>
    have hnil : ls.flatten = [] := List.eq_nil_of_length_eq_zero (by omega)
    have hv : m.valid = false := by
      cases hv : m.valid with
      | false => rfl
      | true =>
        obtain ⟨top, r, l, htop, -, -, -⟩ := next_merging h hv
        have hl := List.flatten_eq_nil_iff.mp hnil _ (List.mem_of_getElem? htop)
        cases hl
    exact ⟨ls, .stop ls, hv, .inl ⟨h.status, hnil, QuietReads.refl _⟩⟩
  | succ fuel ih =>
    unfold drain
    cases hv : m.valid with
    | false =>
      rw [if_neg (by decide)]
      exact ⟨ls, .stop ls, hv, .inl ⟨h.status, h.done hv, QuietReads.refl _⟩⟩
    | true =>
      rw [if_pos rfl]
      obtain ⟨top, r, l, htop, hrec, hmin, hstep⟩ := next_merging h hv
      rcases hstep with ⟨m', hnext, hm', hquiet⟩ | ⟨e, m', hnext, hv', hs', hfailed, -⟩
      · rw [hnext, hrec]
        have hlen := (KWay.perm_set htop).length_eq
        rw [List.length_cons] at hlen
        obtain ⟨rest, hdrains, hvalid, hend⟩ := ih hm' (by omega)
        refine ⟨rest, .take htop hmin hdrains, hvalid, ?_⟩
        rcases hend with ⟨hs, hnil, hq⟩ | ⟨e, hs, hf⟩
        · exact .inl ⟨hs, hnil, hquiet.trans hq⟩
        · exact .inr ⟨e, hs, hquiet.failed hf⟩
      · -- the failed load ends the merge
        rw [hnext, hrec]
        have hstop : ∀ n, drain n m' = ([], m') := by
          intro n
          cases n with
          | zero => rfl
          | succ n =>
            unfold drain
            rw [if_neg (by rw [hv']; decide)]
        rw [hstop fuel]
        exact ⟨ls.set top l, .take htop hmin (.stop _), hv', .inr ⟨e, hs', hfailed⟩⟩

/-- Reading an iterator that was just built. -/
def mergeRecords (fuel : Nat) (m : MergeIterator) : List InternalRecord × MergeIterator := drain fuel (build m).2

/-- **The merge iterator is a sorted merge.**  Over inputs in internal order it yields, in internal
order, the records of all inputs; or, when a load fails, those of a prefix of each input, and it
reports the error. -/
theorem mergeRecords_sorted (m : MergeIterator)
    (hsorted : ∀ it ∈ m.inputs, KWay.Sorted internalBefore it.records) {fuel : Nat}
    (hfuel : (m.inputs.map TableIterator.records).flatten.length ≤ fuel) :
    (mergeRecords fuel m).2.valid = false ∧ KWay.Sorted internalBefore (mergeRecords fuel m).1 ∧
      (((mergeRecords fuel m).2.status = none ∧ QuietReads m.reads (mergeRecords fuel m).2.reads ∧
          (mergeRecords fuel m).1.Perm (m.inputs.map TableIterator.records).flatten) ∨
        ∃ e, (mergeRecords fuel m).2.status = some e ∧
          FailedLoad (∃ it ∈ m.inputs, [] ∈ it.blocks) m.reads e (mergeRecords fuel m).2.reads ∧
          ∃ ps, List.Forall₂ (fun p it => p <+: it.records) ps m.inputs ∧
            (mergeRecords fuel m).1.Perm ps.flatten) := by
  unfold mergeRecords
  have hE : ∀ it ∈ m.inputs, [] ∈ it.blocks → ∃ it ∈ m.inputs, [] ∈ it.blocks := fun it hit hnil =>
      ⟨it, hit, hnil⟩
  rcases build_merging m hE with ⟨m', hbuild, hm', hquiet⟩ | ⟨e, m', hbuild, hv', hs', hfailed, -⟩
  · rw [hbuild]
    dsimp only
    obtain ⟨rest, hdrains, hvalid, hend⟩ := drain_drains hm' hfuel
    have hall : ∀ l ∈ m.inputs.map TableIterator.records, KWay.Sorted internalBefore l := by
      intro l hl
      obtain ⟨it, hit, rfl⟩ := List.mem_map.mp hl
      exact hsorted it hit
    refine ⟨hvalid, hdrains.sorted internalBefore_asymm not_internalBefore_trans hall, ?_⟩
    rcases hend with ⟨hs, hnil, hq⟩ | ⟨e, hs, hf⟩
    · have hperm := hdrains.perm
      rw [hnil, List.append_nil] at hperm
      exact .inl ⟨hs, hquiet.trans hq, hperm⟩
    · obtain ⟨ps, hps, hperm⟩ := hdrains.prefixes
      exact .inr ⟨e, hs, hquiet.failed hf, ps, List.forall₂_map_right_iff.mp hps, hperm⟩
  · -- an input failed when it was put at its start: nothing is read
    rw [hbuild]
    dsimp only
    have hstop : drain fuel m' = ([], m') := by
      cases fuel with
      | zero => rfl
      | succ n =>
        unfold drain
        rw [if_neg (by rw [hv']; decide)]
    rw [hstop]
    refine ⟨hv', List.Pairwise.nil, .inr ⟨e, hs', hfailed, m.inputs.map fun _ => [], ?_, ?_⟩⟩
    · refine List.forall₂_map_left_iff.mpr ?_
      exact List.forall₂_same.mpr fun it _ => List.nil_prefix
    · have hnil : (m.inputs.map fun _ => ([] : List InternalRecord)).flatten = [] :=
        List.flatten_eq_nil_iff.mpr fun l hl => by
          obtain ⟨-, -, rfl⟩ := List.mem_map.mp hl
          rfl
      rw [hnil]

end MergeIterator

namespace MergeIterator

/-- Two inputs with a copy of one record, and one without records. -/
def copiedInputs : MergeIterator where
  inputs :=
    [{ blocks := [[⟨.ofByte 1, .ofByte 7, .put, 2⟩], [⟨.ofByte 1, .ofByte 6, .put, 1⟩]] }, { blocks := [] },
      { blocks := [[⟨.ofByte 1, .ofByte 7, .put, 2⟩]] }]

theorem mergeRecords_sorted_copied :
    (@mergeRecords sortedHeap 3 copiedInputs).2.valid = false ∧
      KWay.Sorted internalBefore (@mergeRecords sortedHeap 3 copiedInputs).1 := by
  have hsorted : ∀ it ∈ copiedInputs.inputs, KWay.Sorted internalBefore it.records := by
    unfold KWay.Sorted
    decide
  have hmerge := @mergeRecords_sorted sortedHeap sortedHeap_lawful copiedInputs hsorted 3 (by decide)
  exact ⟨hmerge.1, hmerge.2.1⟩

end MergeIterator

end Kvdb
