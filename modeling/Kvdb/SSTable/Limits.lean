import Kvdb.Engine.ExactMeta
import Kvdb.SSTable.PointLookup

/-!
# What a table has room for

The table format has three limits: a record stays inside one data block, the entries of
all data blocks stay inside the one block of the index, and the smallest and the
largest key stay inside the one block of the metadata.  For records in order they are
the only ones (`written_iff`):

    a table is built and written  ↔  TableFits rs

`fillBlocks` says which data blocks the records fill.
-/

namespace Kvdb

open Faulty Bytes

namespace DataSection

open Payload

/-! ## Filling blocks -/

/-- The blocks with one more payload, in the last block where it fits. -/
def place (blocks : List (List Payload)) (p : Payload) : List (List Payload) :=
  (openBlock blocks p).1 ++ [(openBlock blocks p).2 ++ [p]]

/-- The blocks that records fill one after the other. -/
def fillBlocks (rs : List InternalRecord) : List (List Payload) := (rs.map ofRecord).foldl place []

/-- The bytes of the index entry of a block. -/
def entrySize (b : List Payload) : Nat :=
  match blockKeys b with
  | none => 0
  | some (first, last) => IndexSection.Payload.fixedDiskSize + first.size + last.size

end DataSection

open DataSection

/-- What the table format has room for. -/
structure TableFits (rs : List InternalRecord) : Prop where
  record : ∀ r ∈ rs, (Payload.ofRecord r).diskSize ≤ PAYLOAD_CAPACITY
  index : ((fillBlocks rs).map entrySize).sum ≤ IndexSection.kPayloadCapacity
  metadata : ∀ first ∈ rs.head?, ∀ last ∈ rs.getLast?,
    MetaSection.Payload.fixedDiskSize + first.key.size + last.key.size ≤ BLOCK_SIZE - MetaSection.Header.diskSize

instance (rs : List InternalRecord) : Decidable (TableFits rs) :=
  decidable_of_iff ((∀ r ∈ rs, (Payload.ofRecord r).diskSize ≤ PAYLOAD_CAPACITY) ∧
      ((fillBlocks rs).map entrySize).sum ≤ IndexSection.kPayloadCapacity ∧
      ∀ first ∈ rs.head?, ∀ last ∈ rs.getLast?, MetaSection.Payload.fixedDiskSize + first.key.size +
        last.key.size ≤
        BLOCK_SIZE - MetaSection.Header.diskSize)
    ⟨fun h => ⟨h.1, h.2.1, h.2.2⟩, fun h => ⟨h.record, h.index, h.metadata⟩⟩

namespace DataSection

open Payload DataSectionView

section

variable [Zlib] {blocks : List (List Payload)} {ps : List Payload}

/-- A block of packed records takes one more payload that follows them and fits. -/
theorem addToBlock_eq {b : List Payload} {p : Payload} (hp : Canonical p) (hall : ∀ q ∈ b, Canonical q)
    (horder : (b ++ [p]).Pairwise Precedes) (hfit : (b.map diskSize).sum + p.diskSize ≤ PAYLOAD_CAPACITY) :
    addToBlock b p = .ok (b ++ [p]) := by
  have hcap : PAYLOAD_CAPACITY = 4087 := rfl
  have hblock : BLOCK_SIZE = 4096 := rfl
  have hheader : Header.diskSize = 9 := rfl
  have hsum : ((b ++ [p]).map diskSize).sum = (b.map diskSize).sum + p.diskSize := by
    rw [List.map_append, List.sum_append, List.map_singleton, List.sum_singleton]
  have hvalid : p.validate = .ok () := (validate_ok_iff p).mpr ⟨hp, by omega⟩
  have hafter : orderAfter b.getLast? p = .ok () := by
    refine (orderAfter_ok_iff _ _).mpr fun q hq => ?_
    exact (List.pairwise_append.mp horder).2.2 q (List.mem_of_getLast? hq) p (List.mem_singleton_self p)
  have hroom : canPayloadFit b p = true := by
    rw [canPayloadFit, decide_eq_true_eq, blockDiskSize]
    omega
  have hrebuilt : rebuildHeader (b ++ [p]) = .ok (derivedHeader (b ++ [p])) := by
    refine (rebuildHeader_ok_iff _ _).mpr ⟨⟨by simp, fun q hq => ?_, by omega, horder.isChain⟩, rfl⟩
    rcases List.mem_append.mp hq with hq | hq
    · exact hall q hq
    · rw [List.mem_singleton.mp hq]
      exact hp
  rw [addToBlock, hvalid, ok_bind, hafter, ok_bind, hroom, Bool.not_true, if_neg Bool.false_ne_true, hrebuilt, ok_bind]
  rfl

omit [Zlib] in
/-- The block that takes a payload holds records of the section, and has room unless it is a new one. -/
theorem openBlock_spec (h : Packed blocks ps) (p : Payload) :
    (∀ q ∈ (openBlock blocks p).2, q ∈ ps) ∧ ((openBlock blocks p).2 ++ [p]).Sublist (ps ++ [p]) ∧
      ((openBlock blocks p).2 = [] ∨ ((openBlock blocks p).2.map diskSize).sum + p.diskSize ≤
        PAYLOAD_CAPACITY) := by
  have hcap : PAYLOAD_CAPACITY = 4087 := rfl
  have hblock : BLOCK_SIZE = 4096 := rfl
  have hheader : Header.diskSize = 9 := rfl
  unfold openBlock
  rcases List.eq_nil_or_concat blocks with rfl | ⟨bs, b, rfl⟩
  · exact ⟨by simp, by simp, .inl rfl⟩
  · rw [List.concat_eq_append] at h ⊢
    rw [List.getLast?_append, List.getLast?_singleton, Option.some_or]
    dsimp only
    have hflat : bs.flatten ++ b = ps := by
      have hf := h.flatten
      rwa [List.flatten_append, List.flatten_singleton] at hf
    by_cases hfit : canPayloadFit b p = true
    · rw [if_pos hfit]
      rw [canPayloadFit, decide_eq_true_eq, blockDiskSize] at hfit
      refine ⟨fun q hq => ?_, ?_, .inr (by dsimp only; omega)⟩
      · rw [← hflat]
        exact List.mem_append_right _ hq
      · rw [← hflat]
        exact (List.sublist_append_right _ _).append_right _
    · rw [if_neg hfit]
      exact ⟨by simp, by simp, .inl rfl⟩

/-- **A payload is added** exactly when it is one of a record that fits into a block and follows the others. -/
theorem addPayload_ok_iff (h : Packed blocks ps) (p : Payload) (blocks' : List (List Payload)) :
    addPayload blocks p = .ok blocks' ↔
      (Canonical p ∧ p.diskSize ≤ PAYLOAD_CAPACITY ∧ ∀ q ∈ ps.getLast?, Precedes q p) ∧
        blocks' = place blocks p := by
  constructor
  · intro hadd
    unfold addPayload at hadd
    obtain ⟨_, hvalid, hadd⟩ := except_bind_ok hadd
    obtain ⟨_, horder, hadd⟩ := except_bind_ok hadd
    obtain ⟨b, hb, hadd⟩ := except_bind_ok hadd
    cases hadd
    obtain ⟨rfl, -⟩ := addToBlock_ok hb
    rw [h.flatten] at horder
    obtain ⟨hcan, hsize⟩ := (validate_ok_iff p).mp hvalid
    exact ⟨⟨hcan, hsize, (orderAfter_ok_iff _ _).mp horder⟩, rfl⟩
  · rintro ⟨⟨hcan, hsize, hlast⟩, rfl⟩
    have hvalid := (validate_ok_iff p).mpr ⟨hcan, hsize⟩
    have horder : orderAfter blocks.flatten.getLast? p = .ok () := by
      rw [h.flatten]
      exact (orderAfter_ok_iff _ _).mpr hlast
    obtain ⟨hmem, hsub, hroom⟩ := openBlock_spec h p
    have hpairs : (ps ++ [p]).Pairwise Precedes := pairwise_append_last h.ordered ((orderAfter_ok_iff _ _).mpr hlast)
    have hblock : addToBlock (openBlock blocks p).2 p = .ok ((openBlock blocks p).2 ++ [p]) := by
      refine addToBlock_eq hcan (fun q hq => h.canonical q (hmem q hq)) (hpairs.sublist hsub) ?_
      rcases hroom with hnil | hroom
      · rw [hnil, List.map_nil, List.sum_nil, Nat.zero_add]
        exact hsize
      · exact hroom
    rw [addPayload, hvalid, ok_bind, horder, ok_bind, hblock, ok_bind]
    rfl

end

/-! ## Filling blocks with records -/

theorem canonical_ofRecord {r : InternalRecord} (h : r.type.isValid = true) : Canonical (ofRecord r) := by
  refine ⟨?_, rfl, rfl⟩
  cases hr : r.type with
  | put =>
    show typeIsValid r.type.toU8 = true
    rw [hr]
    rfl
  | tombstone =>
    show typeIsValid r.type.toU8 = true
    rw [hr]
    rfl
  | undefined =>
    rw [hr] at h
    cases h

theorem record_ofRecord {r : InternalRecord} (h : r.type.isValid = true) : (ofRecord r).toRecord = r := by
  show (⟨r.key, r.value, (RecType.ofU8 r.type.toU8).getD .undefined, r.seqNum⟩ : InternalRecord) = r
  rw [RecType.ofU8_toU8 h]
  rfl

theorem records_ofRecord {rs : List InternalRecord} (h : ∀ r ∈ rs, r.type.isValid = true) :
    (rs.map ofRecord).map toRecord = rs := by
  rw [List.map_map]
  exact (List.map_congr_left fun r hr => record_ofRecord (h r hr)).trans (List.map_id rs)

theorem precedes_ofRecord {r s : InternalRecord} : Precedes (ofRecord r) (ofRecord s) ↔ internalBefore r s = true :=
  internalBefore_iff.symm

end DataSection

namespace SSTable

variable [Zlib]

/-- Records in order are appended when each fits into a block. -/
theorem appendRecords_fill {t : SSTable} (hstate : t.state = .building) {ps : List Payload}
    (hpacked : Packed t.dataBlocks ps) {rs : List InternalRecord} (hvalid : ∀ r ∈ rs, r.type.isValid = true)
    (hordered : (ps ++ rs.map Payload.ofRecord).Pairwise DataSectionView.Precedes) (t' : SSTable) :
    rs.foldlM SSTable.appendRecord t = .ok t' ↔
      (∀ r ∈ rs, (Payload.ofRecord r).diskSize ≤ PAYLOAD_CAPACITY) ∧
        t' = { t with dataBlocks := (rs.map Payload.ofRecord).foldl place t.dataBlocks } := by
  induction rs generalizing t ps with
  | nil =>
    rw [List.foldlM_nil]
    constructor
    · intro h
      cases h
      exact ⟨by simp, rfl⟩
    · rintro ⟨-, rfl⟩
      rfl
  | cons r rs ih =>
    have hcan := canonical_ofRecord (hvalid r List.mem_cons_self)
    have hlast : ∀ q ∈ ps.getLast?, DataSectionView.Precedes q (Payload.ofRecord r) := fun q hq =>
      (List.pairwise_append.mp hordered).2.2 q (List.mem_of_getLast? hq) _ List.mem_cons_self
    have hiff := addPayload_ok_iff hpacked (Payload.ofRecord r)
    have hone : t.appendRecord r = (addPayload t.dataBlocks (.ofRecord r)).map fun dataBlocks =>
        { t with dataBlocks } := by
      unfold SSTable.appendRecord
      rw [if_neg (not_not.mpr hstate)]
      cases addPayload t.dataBlocks (.ofRecord r) <;> rfl
    rw [List.foldlM_cons, hone]
    rw [List.map_cons, List.append_cons] at hordered
    by_cases hsize : (Payload.ofRecord r).diskSize ≤ PAYLOAD_CAPACITY
    · have hadd := (hiff _).mpr ⟨⟨hcan, hsize, hlast⟩, rfl⟩
      rw [hadd]
      have hrest := @ih { t with dataBlocks := place t.dataBlocks (.ofRecord r) } hstate _
          (addPayload_packed hpacked hadd)
        (fun s hs => hvalid s (List.mem_cons_of_mem r hs)) hordered
      refine Iff.trans hrest ?_
      rw [List.forall_mem_cons, and_assoc, and_iff_right hsize]
      rfl
    · have hfail : ∃ e, addPayload t.dataBlocks (.ofRecord r) = .error e := by
        cases hadd : addPayload t.dataBlocks (.ofRecord r) with
        | error e => exact ⟨e, rfl⟩
        | ok blocks => exact absurd ((hiff _).mp hadd).1.2.1 hsize
      obtain ⟨e, he⟩ := hfail
      rw [he]
      constructor
      · intro h
        cases h
      · rintro ⟨hall, -⟩
        exact absurd (hall r List.mem_cons_self) hsize

end SSTable

/-! ## The index -/

namespace DataSection

open Payload DataSectionView

theorem entrySize_eq {b : List Payload} {first last : ArenaEntry} (h : blockKeys b = some (first, last)) :
    entrySize b = IndexSection.Payload.fixedDiskSize + first.size + last.size := by
  rw [entrySize, h]

theorem sum_entries {blocks : List (List Payload)} (hne : ∀ b ∈ blocks, b ≠ []) (off : Nat) :
    ((blockEntries off blocks).map IndexSection.Payload.diskSize).sum = (blocks.map entrySize).sum := by
  induction blocks generalizing off with
  | nil => rfl
  | cons b bs ih =>
    obtain ⟨first, last, -, -, hkeys⟩ := exists_blockKeys (hne b List.mem_cons_self)
    rw [blockEntries, blockEntry, hkeys, List.map_append, List.sum_append, List.map_singleton,
      List.sum_singleton, ih fun c hc => hne c (List.mem_cons_of_mem b hc), List.map_cons, List.sum_cons,
        entrySize_eq hkeys]
    rfl

theorem toNat_offset {n : Nat} (h : n < 2 ^ 64) : (UInt64.ofNat n).toNat = n := by
  rw [UInt64.toNat_ofNat', Nat.mod_eq_of_lt h]

/-- The entries of blocks in order follow one another. -/
theorem entries_chain {blocks : List (List Payload)} (hne : ∀ b ∈ blocks, b ≠ [])
    (hordered : blocks.flatten.Pairwise Precedes) {off : Nat} (hlt : off + blocks.length * BLOCK_SIZE ≤ 2 ^ 64) :
    (blockEntries off blocks).IsChain IndexSection.Next := by
  have hblock : BLOCK_SIZE = 4096 := rfl
  induction blocks generalizing off with
  | nil => exact .nil
  | cons b bs ih =>
    rw [List.length_cons] at hlt
    obtain ⟨first, last, -, hlast, hkeys⟩ := exists_blockKeys (hne b List.mem_cons_self)
    rw [List.flatten_cons, List.pairwise_append] at hordered
    have hrest := ih (fun c hc => hne c (List.mem_cons_of_mem b hc)) hordered.2.1
      (show off + BLOCK_SIZE + bs.length * BLOCK_SIZE ≤ 2 ^ 64 by rw [hblock] at hlt ⊢; omega)
    rw [blockEntries, blockEntry, hkeys, List.singleton_append]
    cases bs with
    | nil => exact .singleton _
    | cons c cs =>
      obtain ⟨first', last', hfirst', -, hkeys'⟩ := exists_blockKeys (hne c (by simp))
      rw [blockEntries, blockEntry, hkeys', List.singleton_append] at hrest ⊢
      refine List.isChain_cons_cons.mpr ⟨⟨?_, ?_⟩, hrest⟩
      · rw [List.length_cons] at hlt
        show (UInt64.ofNat (off + BLOCK_SIZE)).toNat = (UInt64.ofNat off).toNat + BLOCK_SIZE
        rw [toNat_offset (by rw [hblock] at hlt ⊢; omega), toNat_offset (by rw [hblock] at hlt; omega)]
      · have hmem : first' ∈ c := List.mem_of_head? hfirst'
        exact precedes_key (hordered.2.2 last (List.mem_of_getLast? hlast) first'
          (List.mem_flatten.mpr ⟨c, by simp, hmem⟩))

/-- The entries of packed blocks are an index, unless they are too many. -/
theorem entries_sequence {blocks : List (List Payload)} {ps : List Payload} (h : Packed blocks ps) {off : Nat}
    (hoff : off % BLOCK_SIZE = 0) (hlt : off + blocks.length * BLOCK_SIZE ≤ 2 ^ 64)
    (hfits : (blocks.map entrySize).sum ≤ IndexSection.kPayloadCapacity) :
    IndexSection.Sequence (blockEntries off blocks) := by
  have hordered : blocks.flatten.Pairwise Precedes := by
    rw [h.flatten]
    exact h.ordered
  have hsum := sum_entries h.ne off
  refine ⟨fun e he => ?_, entries_chain h.ne hordered hlt, hsum.trans_le hfits⟩
  have hle : e.diskSize ≤ ((blockEntries off blocks).map IndexSection.Payload.diskSize).sum :=
    List.single_le_sum (by simp) _ (List.mem_map_of_mem he)
  obtain ⟨i, hi⟩ := List.mem_iff_getElem?.mp he
  have hin : i < blocks.length := length_blockEntries h.ne off ▸ (List.getElem?_eq_some_iff.mp hi).1
  have hb := List.getElem?_eq_getElem hin
  obtain ⟨first, last, hfirst, hlast, hentry⟩ := blockEntries_get h.ne off hb
  rw [hi] at hentry
  cases hentry
  have hend : i * BLOCK_SIZE + BLOCK_SIZE ≤ blocks.length * BLOCK_SIZE := by
    rw [← Nat.succ_mul]
    exact Nat.mul_le_mul_right _ hin
  refine ⟨?_, by omega, ?_⟩
  · show (UInt64.ofNat (off + i * BLOCK_SIZE)).toNat % BLOCK_SIZE = 0
    have hblock : BLOCK_SIZE = 4096 := rfl
    rw [toNat_offset (by omega), Nat.add_mul_mod_self_right, hoff]
  · have hpairs : blocks[i].Pairwise Precedes := (List.pairwise_flatten.mp hordered).1 _ (List.getElem_mem hin)
    exact SSTable.head_le_key hpairs hfirst (List.mem_of_getLast? hlast)

theorem entrySize_ge {b : List Payload} (h : b ≠ []) : IndexSection.Payload.fixedDiskSize ≤ entrySize b := by
  obtain ⟨first, last, -, -, hkeys⟩ := exists_blockKeys h
  rw [entrySize_eq hkeys]
  omega

/-- An index has entries for few blocks. -/
theorem length_le_of_index {blocks : List (List Payload)} (hne : ∀ b ∈ blocks, b ≠ [])
    (hfits : (blocks.map entrySize).sum ≤ IndexSection.kPayloadCapacity) : blocks.length ≤ 255 := by
  have hmul : blocks.length * IndexSection.Payload.fixedDiskSize ≤ (blocks.map entrySize).sum := by
    clear hfits
    induction blocks with
    | nil => exact Nat.le_refl _
    | cons b bs ih =>
      have hb := entrySize_ge (hne b List.mem_cons_self)
      have hbs := ih fun c hc => hne c (List.mem_cons_of_mem b hc)
      rw [List.length_cons, List.map_cons, List.sum_cons, Nat.succ_mul]
      omega
  have hcap : IndexSection.kPayloadCapacity = 4087 := rfl
  have hfixed : IndexSection.Payload.fixedDiskSize = 16 := rfl
  rw [hfixed] at hmul
  omega

/-- Few blocks hold few records. -/
theorem length_flatten_le {blocks : List (List Payload)} (h : ∀ b ∈ blocks,
    (b.map diskSize).sum ≤ PAYLOAD_CAPACITY) :
    blocks.flatten.length ≤ blocks.length * PAYLOAD_CAPACITY := by
  have hone : ∀ b : List Payload, b.length ≤ (b.map diskSize).sum := by
    intro b
    induction b with
    | nil => exact Nat.le_refl _
    | cons p ps ih =>
      have hp : p.diskSize = 25 + p.key.size + p.value.size := rfl
      rw [List.length_cons, List.map_cons, List.sum_cons]
      omega
  induction blocks with
  | nil => exact Nat.le_of_eq (Nat.zero_mul _).symm
  | cons b bs ih =>
    have hb := (hone b).trans (h b List.mem_cons_self)
    have hbs := ih fun c hc => h c (List.mem_cons_of_mem b hc)
    rw [List.flatten_cons, List.length_append, List.length_cons, Nat.succ_mul]
    omega

end DataSection

/-! ## The metadata -/

namespace MetaSection

open DataSectionView

/-- The count of tombstones is one of records that were seen. -/
theorem Gathered.tombstones_le {s : Staged} {ps : List DataSection.Payload} {bytes : Nat} (h : Gathered s ps bytes) :
    s.payload.tombstoneCount.toNat ≤ ps.length := by
  cases hhave : s.haveRecord with
  | false =>
    obtain ⟨-, hzero⟩ := h.blank hhave
    rw [hzero]
    exact Nat.zero_le _
  | true =>
    have hsummary := h.summary
    rw [hhave, if_pos rfl] at hsummary
    have htomb : s.payload.tombstoneCount = _ := summarize_tombstones hsummary
    have hle : ((ps.map DataSection.Payload.toRecord).countP fun r => r.type = .tombstone) ≤ ps.length := by
      have hcount := @List.countP_le_length _ (fun r : InternalRecord => decide (r.type = .tombstone))
        (ps.map DataSection.Payload.toRecord)
      rwa [List.length_map] at hcount
    rw [htomb, UInt64.toNat_ofNat']
    exact (Nat.mod_le _ _).trans hle

/-- One more record is counted while there is room for the counts. -/
theorem Gathered.addRecord_ok {s : Staged} {ps : List DataSection.Payload} {bytes : Nat} (h : Gathered s ps bytes)
    {r : DataSection.Payload} (hr : Canonical r) (hlt : ps.length + 1 < 2 ^ 64) :
    ∃ t, MetaSection.addRecord s r = .ok t ∧ t.payload.dataBlockCount = s.payload.dataBlockCount := by
  obtain ⟨htype, hflags, hreserved⟩ := hr
  have hcount := h.count
  have htomb := h.tombstones_le
  have hcounted : ∃ q, countRecord s.payload r = .ok q ∧ q.dataBlockCount = s.payload.dataBlockCount := by
    unfold countRecord
    rw [if_neg (by omega)]
    by_cases ht : r.type = RecType.tombstone.toU8
    · rw [if_pos ht, if_neg (by omega)]
      exact ⟨_, rfl, rfl⟩
    · rw [if_neg ht]
      exact ⟨_, rfl, rfl⟩
  obtain ⟨q, hq, hsame⟩ := hcounted
  have hzero : ¬ (r.flags ≠ 0 ∨ r.reserved ≠ 0) := by
    rw [hflags, hreserved]
    simp
  refine ⟨⟨boundRecord { s with payload := q } r, true⟩, ?_, ?_⟩
  · rw [MetaSection.addRecord, htype, Bool.not_true, if_neg Bool.false_ne_true, if_neg hzero, hq]
    rfl
  · rw [← hsame]
    unfold boundRecord
    split
    · rfl
    · rfl

theorem Gathered.addRecords_ok {s : Staged} {ps : List DataSection.Payload} {bytes : Nat} (h : Gathered s ps bytes)
    {rs : List DataSection.Payload} (hrs : ∀ r ∈ rs, Canonical r) (hlt : ps.length + rs.length < 2 ^ 64) :
    ∃ t, rs.foldlM MetaSection.addRecord s = .ok t ∧ t.payload.dataBlockCount = s.payload.dataBlockCount := by
  induction rs generalizing s ps with
  | nil => exact ⟨s, rfl, rfl⟩
  | cons r rs ih =>
    rw [List.length_cons] at hlt
    obtain ⟨t, ht, hsame⟩ := h.addRecord_ok (hrs r List.mem_cons_self) (by omega)
    obtain ⟨t', ht', hsame'⟩ := ih (h.addRecord ht) (fun x hx => hrs x (List.mem_cons_of_mem r hx))
      (by rw [List.length_append, List.length_singleton]; omega)
    refine ⟨t', ?_, hsame'.trans hsame⟩
    rw [List.foldlM_cons, ht]
    exact ht'

/-- The loops of `rebuild` gather all records of valid blocks. -/
theorem Gathered.blocks_ok {s : Staged} {ps : List DataSection.Payload} {bytes : Nat} (h : Gathered s ps bytes)
    {blocks : List (List DataSection.Payload)} (hvalid : ∀ b ∈ blocks, DataSection.ValidBlock b)
    (hlt : ps.length + blocks.flatten.length < 2 ^ 64)
    (hbytes : bytes + (blocks.map DataSection.blockDiskSize).sum < 2 ^ 64) :
    ∃ t, blocks.foldlM MetaSection.addBlock s = .ok t ∧ t.payload.dataBlockCount = s.payload.dataBlockCount := by
  induction blocks generalizing s ps bytes with
  | nil => exact ⟨s, rfl, rfl⟩
  | cons b bs ih =>
    rw [List.flatten_cons, List.length_append] at hlt
    rw [List.map_cons, List.sum_cons] at hbytes
    have hb := hvalid b List.mem_cons_self
    have hsize := hb.diskSize_le
    have hadd : checkedAdd s.payload.dataBytes.toNat (DataSection.blockDiskSize b) =
        some (s.payload.dataBytes.toNat + DataSection.blockDiskSize b) := checkedAdd_of_lt (by rw [h.bytes]; omega)
    have hsum : (UInt64.ofNat (s.payload.dataBytes.toNat + DataSection.blockDiskSize b)).toNat =
        bytes + DataSection.blockDiskSize b := by
      rw [h.bytes, DataSection.toNat_offset (by omega)]
    obtain ⟨t, ht, hsame⟩ := (⟨h.have_iff, h.summary, h.blank, h.count, hsum⟩ : Gathered
      { s with payload := { s.payload with
          dataBytes := UInt64.ofNat (s.payload.dataBytes.toNat + DataSection.blockDiskSize b) } } ps
      (bytes + DataSection.blockDiskSize b)).addRecords_ok hb.canonical (by omega)
    have hone : MetaSection.addBlock s b = .ok t := by
      rw [MetaSection.addBlock, if_neg hb.ne, if_neg (by omega), hadd]
      exact ht
    obtain ⟨t', ht', hsame'⟩ := ih (h.addBlock hone) (fun c hc => hvalid c (List.mem_cons_of_mem b hc))
      (by rw [List.length_append]; omega) (by omega)
    refine ⟨t', ?_, hsame'.trans hsame⟩
    rw [List.foldlM_cons, hone]
    exact ht'

/-- A key behind the bounds widens them at their end. -/
theorem observe_some {low high key : ArenaEntry} (hlow : low ≤ key) (hhigh : high ≤ key) :
    observe (some (low, high)) key = some (low, key) := by
  have hnot : ¬ compareKeys key.bytes low.bytes = .lt := by
    rw [compareKeys_lt_iff]
    exact not_lt.mpr hlow
  unfold observe
  dsimp only
  rw [if_neg hnot]
  by_cases hgt : compareKeys key.bytes high.bytes = .gt
  · rw [if_pos hgt]
  · rw [if_neg hgt, le_antisymm hhigh (IndexSection.compareKeys_gt_iff'.mp hgt)]

/-- The bounds after the entries of blocks whose keys are not below them. -/
theorem observe_entries {blocks : List (List DataSection.Payload)} (hne : ∀ b ∈ blocks, b ≠ [])
    (hordered : blocks.flatten.Pairwise Precedes) {low high : ArenaEntry} (hbounds : low ≤ high)
    (hbehind : ∀ p ∈ blocks.flatten, high ≤ p.key) (off : Nat) :
    (DataSection.blockEntries off blocks).foldl
        (fun bounds entry => observe (observe bounds entry.firstKey) entry.lastKey) (some (low, high)) =
      some (low, (blocks.flatten.getLast?.map DataSection.Payload.key).getD high) := by
  induction blocks generalizing high off with
  | nil => rfl
  | cons b bs ih =>
    obtain ⟨first, last, hfirst, hlast, hkeys⟩ := DataSection.exists_blockKeys (hne b List.mem_cons_self)
    rw [List.flatten_cons] at hordered hbehind ⊢
    obtain ⟨hb, hbs, hbetween⟩ := List.pairwise_append.mp hordered
    have hmem := List.mem_of_getLast? hlast
    have hfirstKey := hbehind first (List.mem_append_left _ (List.mem_of_head? hfirst))
    have hlastKey := SSTable.head_le_key hb hfirst hmem
    have hrest := ih (fun c hc => hne c (List.mem_cons_of_mem b hc)) hbs
      (hbounds.trans (hfirstKey.trans hlastKey)) (fun p hp => precedes_key (hbetween last hmem p hp)) (off + BLOCK_SIZE)
    rw [DataSection.blockEntries, DataSection.blockEntry, hkeys, List.singleton_append, List.foldl_cons,
      observe_some (hbounds.trans hfirstKey) hfirstKey,
      observe_some ((hbounds.trans hfirstKey).trans hlastKey) hlastKey, hrest, List.getLast?_append, hlast]
    cases bs.flatten.getLast? with
    | none => rfl
    | some p => rfl

/-- The bounds of an index are the outer keys of the records. -/
theorem observedBounds_entries [Zlib] {blocks : List (List DataSection.Payload)} (hne : ∀ b ∈ blocks, b ≠ [])
    (hordered : blocks.flatten.Pairwise Precedes) {first last : DataSection.Payload}
    (hfirst : blocks.flatten.head? = some first) (hlast : blocks.flatten.getLast? = some last) (off : Nat) :
    observedBounds (.ofPayloads (DataSection.blockEntries off blocks)) = some (first.key, last.key) := by
  cases blocks with
  | nil => cases hfirst
  | cons b bs =>
    obtain ⟨first', last', hfirst', hlast', hkeys⟩ := DataSection.exists_blockKeys (hne b List.mem_cons_self)
    rw [List.flatten_cons] at hordered hfirst hlast
    obtain ⟨hb, hbs, hbetween⟩ := List.pairwise_append.mp hordered
    have hmem := List.mem_of_getLast? hlast'
    have hsame : first' = first := by
      rw [List.head?_append, hfirst'] at hfirst
      exact Option.some.inj hfirst
    subst hsame
    have hrest := observe_entries (fun c hc => hne c (List.mem_cons_of_mem b hc)) hbs
      (SSTable.head_le_key hb hfirst' hmem) (fun p hp => precedes_key (hbetween last' hmem p hp)) (off + BLOCK_SIZE)
    show (DataSection.blockEntries off (b :: bs)).foldl _ none = _
    rw [DataSection.blockEntries, DataSection.blockEntry, hkeys, List.singleton_append, List.foldl_cons]
    show (DataSection.blockEntries (off + BLOCK_SIZE) bs).foldl _
      (observe (some (first'.key, first'.key)) last'.key) = _
    have hle := SSTable.head_le_key hb hfirst' hmem
    rw [observe_some hle hle, hrest]
    rw [List.getLast?_append, hlast'] at hlast
    cases hend : bs.flatten.getLast? with
    | none =>
      rw [hend] at hlast
      cases hlast
      rfl
    | some p =>
      rw [hend] at hlast
      cases hlast
      rfl

/-- The outer keys of records in order are their least and greatest. -/
theorem summarize_outer {ps : List DataSection.Payload} (hordered : ps.Pairwise Precedes) {s : RecordSummary}
    (hs : summarize (ps.map DataSection.Payload.toRecord) = some s) {first last : DataSection.Payload}
    (hfirst : ps.head? = some first) (hlast : ps.getLast? = some last) :
    s.minKey = first.key ∧ s.maxKey = last.key := by
  obtain ⟨hin, ⟨r, hr, hmin⟩, r', hr', hmax⟩ := summarize_keys hs
  obtain ⟨p, hp, rfl⟩ := List.mem_map.mp hr
  obtain ⟨q, hq, rfl⟩ := List.mem_map.mp hr'
  have hhead := hin _ (List.mem_map_of_mem (List.mem_of_head? hfirst))
  have hend := hin _ (List.mem_map_of_mem (List.mem_of_getLast? hlast))
  refine ⟨le_antisymm hhead.1 ?_, le_antisymm ?_ hend.2⟩
  · rw [hmin]
    exact SSTable.head_le_key hordered hfirst hp
  · rw [hmax]
    exact SSTable.key_le_last hordered hlast hq

theorem length_le_flatten {blocks : List (List DataSection.Payload)} (hne : ∀ b ∈ blocks, b ≠ []) :
    blocks.length ≤ blocks.flatten.length := by
  induction blocks with
  | nil => exact Nat.le_refl _
  | cons b bs ih =>
    have hb := List.length_pos_iff.mpr (hne b List.mem_cons_self)
    have hbs := ih fun c hc => hne c (List.mem_cons_of_mem b hc)
    rw [List.flatten_cons, List.length_append, List.length_cons]
    omega

/-- The data blocks take as many bytes as their number allows. -/
theorem sum_diskSize {blocks : List (List DataSection.Payload)} (h : ∀ b ∈ blocks, DataSection.ValidBlock b) :
    blocks.length * (DataSection.Header.diskSize + DataSection.Payload.fixedPartDiskSize) ≤
        (blocks.map DataSection.blockDiskSize).sum ∧
      (blocks.map DataSection.blockDiskSize).sum ≤ blocks.length * BLOCK_SIZE := by
  induction blocks with
  | nil => exact ⟨by simp, by simp⟩
  | cons b bs ih =>
    have hb := h b List.mem_cons_self
    obtain ⟨hlow, hhigh⟩ := ih fun c hc => h c (List.mem_cons_of_mem b hc)
    have hle := hb.diskSize_le
    obtain ⟨p, qs, rfl⟩ := List.exists_cons_of_ne_nil hb.ne
    have hge : DataSection.Header.diskSize + DataSection.Payload.fixedPartDiskSize ≤
        DataSection.blockDiskSize (p :: qs) := by
      rw [DataSection.blockDiskSize, List.map_cons, List.sum_cons, DataSection.Payload.diskSize]
      omega
    rw [List.length_cons, List.map_cons, List.sum_cons, Nat.succ_mul, Nat.succ_mul]
    omega

theorem ne_zero_of_toNat_pos {a : UInt64} (h : 0 < a.toNat) : a ≠ 0 := by
  rintro rfl
  exact absurd h (Nat.lt_irrefl 0)

/-- The bounds of the data bytes do not overflow for a table of few blocks. -/
theorem Payload.validateDataBytes_of {p : Payload} (hpos : 0 < p.dataBlockCount.toNat)
    (hfew : p.dataBlockCount.toNat < 2 ^ 48)
    (hlow : p.dataBlockCount.toNat * (DataSection.Header.diskSize + DataSection.Payload.fixedPartDiskSize) ≤
      p.dataBytes.toNat)
    (hhigh : p.dataBytes.toNat ≤ p.dataBlockCount.toNat * BLOCK_SIZE) : p.validateDataBytes = .ok () := by
  have hmul : ∀ k ≤ 4096, checkedMul p.dataBlockCount.toNat k = some (p.dataBlockCount.toNat * k) := by
    intro k hk
    have hdiv : 4096 ≤ (2 ^ 64 - 1) / p.dataBlockCount.toNat := (Nat.le_div_iff_mul_le hpos).mpr (by omega)
    rw [checkedMul, if_neg]
    rintro ⟨-, hgt⟩
    omega
  rw [Payload.validateDataBytes, hmul _ (by decide), hmul _ (by decide)]
  dsimp only
  rw [if_neg (by omega)]

/-- A payload of a table with records whose counts and bounds are in order is valid. -/
theorem Payload.validate_of {p : Payload} (hsize : p.diskSize ≤ BLOCK_SIZE - Header.diskSize)
    (htomb : p.tombstoneCount.toNat ≤ p.recordCount.toNat) (hpos : 0 < p.dataBlockCount.toNat)
    (hcount : p.dataBlockCount.toNat ≤ p.recordCount.toNat) (hseqs : p.minSeqNum.toNat ≤ p.maxSeqNum.toNat)
    (hkeys : p.minKey ≤ p.maxKey) (hbytes : p.validateDataBytes = .ok ()) : p.validate = .ok () := by
  have hnot : ∀ a b : UInt64, a.toNat ≤ b.toNat → ¬ a > b := fun a b hab hgt =>
    Nat.not_lt.mpr hab (UInt64.lt_iff_toNat_lt.mp hgt)
  have hrecords : p.recordCount ≠ 0 := ne_zero_of_toNat_pos (hpos.trans_le hcount)
  have hgt : ¬ compareKeys p.minKey.bytes p.maxKey.bytes = .gt := IndexSection.compareKeys_gt_iff'.mpr hkeys
  rw [Payload.validate, if_neg (Nat.not_lt.mpr hsize), if_neg (hnot _ _ htomb), if_neg hrecords,
    Payload.validateNonempty, if_neg (ne_zero_of_toNat_pos hpos), if_neg (hnot _ _ hcount), if_neg (hnot _ _ hseqs),
    if_neg hgt, hbytes]

section

variable [Zlib] {blocks : List (List DataSection.Payload)} {ps : List DataSection.Payload}

/-- **Metadata of packed blocks.**  It can be derived when the outer keys fit beside the fixed fields. -/
theorem exists_rebuild (h : DataSection.Packed blocks ps) (hcount : ps.length < 2 ^ 48)
    {first last : DataSection.Payload}
    (hfirst : ps.head? = some first) (hlast : ps.getLast? = some last)
    (hfits : Payload.fixedDiskSize + first.key.size + last.key.size ≤ BLOCK_SIZE - Header.diskSize) (off : Nat) :
    ∃ m, rebuild blocks (.ofPayloads (DataSection.blockEntries off blocks)) = .ok m := by
  obtain rfl := h.flatten
  have hblock : BLOCK_SIZE = 4096 := rfl
  have hne : blocks.flatten ≠ [] := fun hnil => by rw [hnil] at hfirst; cases hfirst
  have hvalid : ∀ b ∈ blocks, DataSection.ValidBlock b :=
    ((DataSection.validateBlocks_ok_iff none blocks).mp ((DataSection.validateSection_ok_iff blocks).mpr h)).1
  have hlength := length_le_flatten h.ne
  have hpos : 0 < blocks.length := by
    refine List.length_pos_iff.mpr fun hnil => hne ?_
    rw [hnil]
    rfl
  obtain ⟨hlow, hhigh⟩ := sum_diskSize hvalid
  obtain ⟨t, hgather, hblocks⟩ := (gathered_start blocks.length).blocks_ok hvalid
    (by rw [List.length_nil]; omega) (by rw [hblock] at hhigh; omega)
  have hall := gather_blocks (gathered_start blocks.length) hgather
  rw [List.nil_append, Nat.zero_add] at hall
  have hhave := hall.have_iff.mpr hne
  have hsummary := hall.summary
  rw [hhave, if_pos rfl] at hsummary
  obtain ⟨hmin, hmax⟩ := summarize_outer h.ordered hsummary hfirst hlast
  have hmin : t.payload.minKey = first.key := hmin
  have hmax : t.payload.maxKey = last.key := hmax
  have htomb := hall.tombstones_le
  have hrecords := hall.count
  have hbytes := hall.bytes
  have hdata : t.payload.dataBlockCount.toNat = blocks.length := by
    rw [hblocks]
    show (UInt64.ofNat blocks.length).toNat = _
    rw [DataSection.toNat_offset (by omega)]
  have hseqs : t.payload.minSeqNum.toNat ≤ t.payload.maxSeqNum.toNat := by
    obtain ⟨hin, ⟨r, hr, -⟩, -⟩ := summarize_seqs hsummary
    exact (hin r hr).1.trans (hin r hr).2
  have hkeys : t.payload.minKey ≤ t.payload.maxKey := by
    rw [hmin, hmax]
    exact SSTable.head_le_key h.ordered hfirst (List.mem_of_getLast? hlast)
  have hsize : t.payload.diskSize ≤ BLOCK_SIZE - Header.diskSize := by
    show Payload.fixedDiskSize + t.payload.minKey.size + t.payload.maxKey.size ≤ _
    rw [hmin, hmax]
    exact hfits
  have hdataBytes : t.payload.validateDataBytes = .ok () :=
    Payload.validateDataBytes_of (by omega) (by omega) (by rw [hdata]; omega) (by rw [hdata]; omega)
  have hvalidates : t.payload.validate = .ok () :=
    Payload.validate_of hsize (by omega) (by omega) (by omega) hseqs hkeys hdataBytes
  have hentries : (IndexSection.ofPayloads (DataSection.blockEntries off blocks)).payloads.length = blocks.length :=
    DataSection.length_blockEntries h.ne off
  have hconsistent : validateIndexConsistency t.payload (.ofPayloads (DataSection.blockEntries off blocks)) =
      .ok () := by
    rw [validateIndexConsistency, if_neg (not_not.mpr (hdata.trans hentries.symm)),
      if_neg (ne_zero_of_toNat_pos (a := t.payload.recordCount) (by omega)),
      observedBounds_entries h.ne h.ordered hfirst hlast off]
    dsimp only
    rw [if_neg (not_not.mpr (compareKeys_eq_iff.mpr hmin)), if_neg (not_not.mpr (compareKeys_eq_iff.mpr hmax))]
  refine ⟨.ofPayload t.payload, ?_⟩
  rw [rebuild, if_neg (not_not.mpr hentries.symm), if_neg (by omega), hgather, ok_bind,
    hhave, if_pos rfl]
  dsimp only
  rw [hvalidates, ok_bind, hconsistent, ok_bind, (buildHeader_ok_iff _ _).mpr ⟨hvalidates, rfl⟩]
  rfl

end

end MetaSection

/-! ## Tables -/

namespace SSTable

variable [Zlib] {rs : List InternalRecord}

omit [Zlib] in
theorem validateRecords_of_ordered (h : Ordered rs) : validateRecords rs = true :=
  decide_eq_true (h.isChain.imp fun {a b} hab => internalBefore_asymm a b hab)

omit [Zlib] in
theorem pairwise_ofRecord (h : Ordered rs) : (rs.map Payload.ofRecord).Pairwise DataSectionView.Precedes :=
  List.pairwise_map.mpr (h.imp fun hab => precedes_ofRecord.mpr hab)

omit [Zlib] in
theorem outer_ofRecord {first last : InternalRecord} (hfirst : rs.head? = some first)
    (hlast : rs.getLast? = some last) :
    (rs.map Payload.ofRecord).head? = some (.ofRecord first) ∧
      (rs.map Payload.ofRecord).getLast? = some (.ofRecord last) := by
  constructor
  · rw [List.head?_map, hfirst]
    rfl
  · rw [List.getLast?_map, hlast]
    rfl

/-- The table of records that fit into blocks. -/
def filled (tableId : UInt32) (path finalPath : List UInt8) (rs : List InternalRecord) : SSTable :=
  { building path finalPath tableId with dataBlocks := fillBlocks rs }

/-- **Building a table** of records in order succeeds exactly when each fits into a data block. -/
theorem build_ok_iff {tableId : UInt32} {path finalPath : List UInt8} (hne : rs ≠ []) (hordered : Ordered rs)
    (hvalid : ∀ r ∈ rs, r.type.isValid = true) (t : SSTable) :
    SSTableBuilder.build tableId rs path finalPath = .ok (some t) ↔
      (∀ r ∈ rs, (Payload.ofRecord r).diskSize ≤ PAYLOAD_CAPACITY) ∧ t = filled tableId path finalPath rs := by
  have hfill := @appendRecords_fill _ (building path finalPath tableId) rfl [] Packed.nil rs hvalid
    (pairwise_ofRecord hordered)
  rw [SSTableBuilder.build, if_neg hne, validateRecords_of_ordered hordered, Bool.not_true, if_neg Bool.false_ne_true]
  constructor
  · intro h
    obtain ⟨t₁, hall, h⟩ := except_bind_ok h
    cases h
    exact (hfill t).mp hall
  · intro h
    rw [(hfill t).mpr h]
    rfl

/-- The blocks that records fill. -/
theorem packed_fillBlocks (hordered : Ordered rs) (hvalid : ∀ r ∈ rs, r.type.isValid = true)
    (hsize : ∀ r ∈ rs, (Payload.ofRecord r).diskSize ≤ PAYLOAD_CAPACITY) :
    Packed (fillBlocks rs) (rs.map Payload.ofRecord) := by
  have hall := (@appendRecords_fill _ (building [] [] 0) rfl [] Packed.nil rs hvalid (pairwise_ofRecord hordered) _).mpr
    ⟨hsize, rfl⟩
  exact (appendRecords_ok (fun _ _ _ h => h) hall Packed.nil).2

/-- A table of records that fit is written. -/
theorem filled_writes {tableId : UInt32} {path finalPath : List UInt8} (hne : rs ≠ []) (hordered : Ordered rs)
    (hvalid : ∀ r ∈ rs, r.type.isValid = true) (h : TableFits rs) {calls : TableCalls}
    (hready : Ready calls (filled tableId path finalPath rs)) {w : Writer Status} (hw : w.Synced) (ho : w.offset = 0)
    (hroom : w.room = none) : ∃ t' w', (filled tableId path finalPath rs).write calls w = (.ok t', w') := by
  have hpacked := packed_fillBlocks hordered hvalid h.record
  have hself : Packed (fillBlocks rs) (fillBlocks rs).flatten := hpacked.flatten ▸ hpacked
  have hblock : BLOCK_SIZE = 4096 := rfl
  have hcap : PAYLOAD_CAPACITY = 4087 := rfl
  have hblocks := length_le_of_index hpacked.ne h.index
  have hrecords := length_flatten_le hpacked.fits
  rw [hpacked.flatten, List.length_map, hcap] at hrecords
  have hes := entries_sequence hself (aligned_mod FileHeaderSection.diskSize)
    (by rw [aligned_headerSize, hblock]; omega) h.index
  obtain ⟨b, hbloom⟩ := @BloomSection.exists_rebuild _ (fillBlocks rs)
    (by rw [hpacked.flatten, List.length_map]; omega)
  have hfirst := List.head?_eq_some_head hne
  have hlast := List.getLast?_eq_some_getLast hne
  obtain ⟨hhead, htail⟩ := outer_ofRecord hfirst hlast
  obtain ⟨m, hmeta⟩ := MetaSection.exists_rebuild hpacked (by rw [List.length_map]; omega) hhead htail
    (h.metadata _ hfirst _ hlast) (aligned FileHeaderSection.diskSize)
  have hsize : ((filled tableId path finalPath rs).finished b m).footerStart + FileFooterSection.diskSize < 2 ^ 64 := by
    have hlt := ((filled tableId path finalPath rs).finished b m).footerStart_lt
    have hdata := aligned_blocksBytes
      ((validateBlocks_ok_iff none (fillBlocks rs)).mp ((validateSection_ok_iff (fillBlocks rs)).mpr hself)).1
      FileHeaderSection.diskSize
    have hend : ((filled tableId path finalPath rs).finished b m).dataEnd ≤
        aligned FileHeaderSection.diskSize + (fillBlocks rs).length * BLOCK_SIZE := hdata ▸ le_aligned _
    have hindex : ((filled tableId path finalPath rs).finished b m).indexSection.diskSize = 9 +
        ((blockEntries (aligned FileHeaderSection.diskSize) (fillBlocks rs)).map
          IndexSection.Payload.diskSize).sum := rfl
    obtain ⟨-, -, -, hmvalid, -⟩ := MetaSection.rebuild_ok hmeta
    have hm := MetaSection.Payload.validate_size hmvalid
    have hmetaSize : ((filled tableId path finalPath rs).finished b m).metaSection.diskSize =
        9 + m.payload.diskSize := rfl
    have hfits := hes.fits
    have hsizes : BloomSection.diskSize = 153 ∧ FileFooterSection.diskSize = 76 ∧
        IndexSection.kPayloadCapacity = 4087 ∧
      BLOCK_SIZE - MetaSection.Header.diskSize = 4087 := ⟨rfl, rfl, rfl, rfl⟩
    rw [aligned_headerSize, hblock] at hend
    omega
  have hfields : (FileHeaderSection.ofTableId tableId).validateFields = .ok () := rfl
  exact ⟨_, _, (emits_write hready hfields hself hes hbloom hmeta hsize).free hw ho hroom⟩

/-- **What a table has room for.**  A table of records in order is built and, while no system call fails, written
exactly when each record fits into a data block, the entries of all data blocks fit into the index and the outer keys
fit into the metadata. -/
theorem written_iff {tableId : UInt32} {path finalPath : List UInt8} (hne : rs ≠ []) (hordered : Ordered rs)
    (hvalid : ∀ r ∈ rs, r.type.isValid = true) {calls : TableCalls}
    (hready : Ready calls (filled tableId path finalPath rs)) {w : Writer Status} (hw : w.Synced) (ho : w.offset = 0)
    (hroom : w.room = none) :
    (∃ t t' w', SSTableBuilder.build tableId rs path finalPath = .ok (some t) ∧ t.write calls w = (.ok t', w')) ↔
      TableFits rs := by
  constructor
  · rintro ⟨t, t', w', hbuild, hwrite⟩
    obtain ⟨hsize, rfl⟩ := (build_ok_iff hne hordered hvalid t).mp hbuild
    obtain ⟨hwritten, -⟩ := write_ok hw ho hwrite
    have hpacked := packed_fillBlocks hordered hvalid hsize
    refine ⟨hsize, ?_, fun first hfirst last hlast => ?_⟩
    · have hfits := hwritten.sequence.fits
      rw [hwritten.index] at hfits
      exact (sum_entries hpacked.ne _).symm.trans_le hfits
    · obtain ⟨hsummary, -⟩ := MetaSection.rebuild_exact hwritten.metadata
      obtain ⟨-, -, -, hmvalid, -⟩ := MetaSection.rebuild_ok hwritten.metadata
      have hm := MetaSection.Payload.validate_size hmvalid
      have hflat : (filled tableId path finalPath rs).dataBlocks.flatten = rs.map Payload.ofRecord := hpacked.flatten
      have hnil : rs.map Payload.ofRecord ≠ [] := fun h => hne (List.map_eq_nil_iff.mp h)
      rw [hflat] at hsummary
      obtain ⟨hhead, htail⟩ := outer_ofRecord hfirst hlast
      obtain ⟨hmin, hmax⟩ := MetaSection.summarize_outer hpacked.ordered (hsummary hnil) hhead htail
      have hmin : t'.metaSection.payload.minKey = first.key := hmin
      have hmax : t'.metaSection.payload.maxKey = last.key := hmax
      rw [MetaSection.Payload.diskSize, hmin, hmax] at hm
      exact hm
  · intro h
    obtain ⟨t', w', hwrite⟩ := filled_writes hne hordered hvalid h hready hw ho hroom
    exact ⟨_, t', w', (build_ok_iff hne hordered hvalid _).mpr ⟨h.record, rfl⟩, hwrite⟩

end SSTable

end Kvdb
