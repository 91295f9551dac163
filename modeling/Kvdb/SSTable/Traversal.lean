import Kvdb.SSTable.FileSections
import Kvdb.SSTable.Iterator

/-!
# Going through a table

`seek_to_first`, `next` and `record` of `SSTableIterator`.  The iterator has one block
in memory; what it has not shown yet are the rest of that block and the blocks behind
it (`Ahead`).

    seek_to_first  →  record, next, record, next, …  →  not valid, status ok

Over blocks that can be read this shows their records, one after the other
(`advanced_ok`).
-/

namespace Kvdb

open Faulty DataSection DataSectionView

namespace SSTableIterator

variable [Zlib]

/-- A call of `load_next_block` whose result becomes the status. -/
def loadBlock (dataBlockCount : Nat) (file : ReadableFile) : Prog SSTableIterator Status Unit := fun it =>
  match loadNextBlock dataBlockCount file it with
  | (.err e, it') => (.err e, { it' with status := some e })
  | (r, it') => (r, { it' with status := none })

/-- `SSTableIterator::next`. -/
def next (dataBlockCount : Nat) (file : ReadableFile) : Prog SSTableIterator Status Unit := fun it =>
  if !it.valid then (.ok (), it)
  else
    let it := { it with recordIndex := it.recordIndex + 1 }
    if it.recordIndex < it.currentBlockRecords.length then (.ok (), it)
    else loadBlock dataBlockCount file it

/-- `SSTableIterator::seek_to_first`. -/
def seekToFirst (footer : FileFooterSection) (file : ReadableFile) : Prog SSTableIterator Status Unit := fun _ =>
  loadBlock footer.dataBlockCount.toNat file { currentOffset := footer.dataOffset.toNat }

omit [Zlib] in
/-- `SSTableIterator::record`; both of its assertions hold where there is one. -/
def record (it : SSTableIterator) : Option StoredRecord :=
  if it.valid then it.currentBlockRecords[it.recordIndex]? else none

/-- `seek_to_first` and that many calls of `next`. -/
def advanced (footer : FileFooterSection) (file : ReadableFile) : Nat → Prog SSTableIterator Status Unit
  | 0 => seekToFirst footer file
  | k + 1 => do
    advanced footer file k
    next footer.dataBlockCount.toNat file

/-! ## What is ahead -/

/-- The blocks can be read from the offset on, and none is empty. -/
def Readable (file : ReadableFile) : Nat → List (List Payload) → Prop
  | _, [] => True
  | off, b :: bs => b ≠ [] ∧ (∃ off', readBlock file off = .ok (b, off')) ∧ Readable file (off + BLOCK_SIZE) bs

/-- The records that the iterator has not passed, the current one included. -/
inductive Ahead (dataBlockCount : Nat) (file : ReadableFile) : SSTableIterator → List StoredRecord → Prop
  | inside {off i j : Nat} {records : List StoredRecord} {blocks : List (List Payload)} (hj : j < records.length)
      (hblocks : Readable file off blocks) (hcount : dataBlockCount = i + blocks.length) :
      Ahead dataBlockCount file ⟨off, i, j, records, true, none⟩
        (records.drop j ++ blocks.flatten.map Payload.record)
  | past {off i j : Nat} {records : List StoredRecord} :
      Ahead dataBlockCount file ⟨off, i, j, records, false, none⟩ []

variable {dataBlockCount : Nat} {file : ReadableFile}

/-- The next block is loaded, or there is none. -/
theorem loadBlock_ahead {it : SSTableIterator} {blocks : List (List Payload)}
    (hblocks : Readable file it.currentOffset blocks) (hcount : dataBlockCount = it.nextBlockIndex + blocks.length) :
    ∃ it', loadBlock dataBlockCount file it = (.ok (), it') ∧
      Ahead dataBlockCount file it' (blocks.flatten.map Payload.record) := by
  cases blocks with
  | nil =>
    rw [List.length_nil, Nat.add_zero] at hcount
    refine ⟨⟨it.currentOffset, it.nextBlockIndex, 0, [], false, none⟩, ?_, .past⟩
    unfold loadBlock loadNextBlock
    rw [if_pos (by omega)]
  | cons b bs =>
    obtain ⟨hne, ⟨off', hread⟩, hrest⟩ := hblocks
    rw [List.length_cons] at hcount
    refine ⟨⟨it.currentOffset + BLOCK_SIZE, it.nextBlockIndex + 1, 0, b.map Payload.record, true, none⟩, ?_, ?_⟩
    · unfold loadBlock loadNextBlock
      rw [if_neg (by omega), hread]
    · have hpos : 0 < (b.map Payload.record).length := by
        rw [List.length_map]
        exact List.length_pos_of_ne_nil hne
      have hahead := @Ahead.inside _ dataBlockCount file _ _ _ _ _ hpos hrest
        (show dataBlockCount = it.nextBlockIndex + 1 + bs.length by omega)
      rw [List.drop_zero, ← List.map_append, ← List.flatten_cons] at hahead
      exact hahead

omit [Zlib] in
theorem drop_succ_append {α : Type} {l m : List α} {j : Nat} {r : α} {rs : List α} (hj : j < l.length)
    (h : l.drop j ++ m = r :: rs) : l[j]? = some r ∧ rs = l.drop (j + 1) ++ m := by
  rw [List.drop_eq_getElem_cons hj, List.cons_append] at h
  obtain ⟨rfl, rfl⟩ := List.cons.inj h
  exact ⟨List.getElem?_eq_getElem hj, rfl⟩

/-- One record is passed. -/
theorem next_ahead {it : SSTableIterator} {r : StoredRecord} {rs : List StoredRecord}
    (h : Ahead dataBlockCount file it (r :: rs)) :
    ∃ it', next dataBlockCount file it = (.ok (), it') ∧ Ahead dataBlockCount file it' rs := by
  generalize hall : r :: rs = all at h
  cases h with
  | past => cases hall
  | @inside off i j records blocks hj hblocks hcount =>
    obtain ⟨-, rfl⟩ := drop_succ_append hj hall.symm
    unfold next
    rw [if_neg (by simp)]
    dsimp only
    by_cases hmore : j + 1 < records.length
    · rw [if_pos hmore]
      exact ⟨_, rfl, .inside hmore hblocks hcount⟩
    · rw [if_neg hmore, List.drop_of_length_le (Nat.le_of_not_lt hmore), List.nil_append]
      exact loadBlock_ahead hblocks hcount

/-- What the caller sees of an iterator. -/
theorem Ahead.shows {it : SSTableIterator} {rs : List StoredRecord} (h : Ahead dataBlockCount file it rs) :
    it.record = rs.head? ∧ it.status = none ∧ (it.valid = true ↔ rs ≠ []) := by
  cases h with
  | past => exact ⟨rfl, rfl, by simp⟩
  | @inside off i j records blocks hj hblocks hcount =>
    rw [List.drop_eq_getElem_cons hj, List.cons_append]
    refine ⟨?_, rfl, by simp⟩
    exact List.getElem?_eq_getElem hj

/-- **A traversal** shows the records of the blocks, and then ends with status ok. -/
theorem advanced_ok {footer : FileFooterSection} {blocks : List (List Payload)}
    (hblocks : Readable file footer.dataOffset.toNat blocks) (hcount : footer.dataBlockCount.toNat = blocks.length)
    (it : SSTableIterator) {k : Nat} (hk : k ≤ blocks.flatten.length) :
    ∃ it', advanced footer file k it = (.ok (), it') ∧ it'.record = (blocks.flatten.map Payload.record)[k]? ∧
      it'.status = none ∧ (it'.valid = true ↔ k < blocks.flatten.length) := by
  have hrun : ∃ it', advanced footer file k it = (.ok (), it') ∧
      Ahead footer.dataBlockCount.toNat file it' ((blocks.flatten.map Payload.record).drop k) := by
    induction k with
    | zero =>
      rw [List.drop_zero]
      exact loadBlock_ahead hblocks (hcount.trans (Nat.zero_add _).symm)
    | succ k ih =>
      obtain ⟨it₁, hrun, hahead⟩ := ih (by omega)
      rw [List.drop_eq_getElem_cons (by rw [List.length_map]; omega)] at hahead
      obtain ⟨it₂, hnext, hahead⟩ := next_ahead hahead
      refine ⟨it₂, ?_, hahead⟩
      rw [advanced, bind_ok hrun, hnext]
  obtain ⟨it', hrun, hahead⟩ := hrun
  obtain ⟨hrecord, hstatus, hvalid⟩ := hahead.shows
  refine ⟨it', hrun, ?_, hstatus, ?_⟩
  · rw [hrecord, List.head?_drop]
  · rw [hvalid, Ne, List.drop_eq_nil_iff, List.length_map]
    omega

end SSTableIterator

end Kvdb
