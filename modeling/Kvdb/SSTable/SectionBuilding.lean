import Kvdb.SSTable.DataWriting

/-!
# Building the data section

`DataSection::add_payload` on the section in memory, whose blocks keep the headers of their
records: a record goes to the last block, to a new one, or is refused, and then the block in
front of the failure is restored.

    addRecord_refines:  the headers are always those of the records, so a call is
                        `addPayload` on the records of the blocks
    addAll_packing:     the section after any calls, and what `write` makes of it
-/

namespace Kvdb

open Faulty Bytes

namespace DataSection

open Payload DataSectionView

/-- `DataSection::DataBlock`. -/
structure DataBlock where
  header : Header
  payloads : List Payload
deriving DecidableEq

section

variable [Zlib]

namespace DataBlock

/-- `DataBlock{}`. -/
def empty : DataBlock := ⟨⟨BlockType.data.toU8, 0, crc32Init⟩, []⟩

/-- `DataBlock::rebuild_header`: on an error the header stays. -/
def rebuildHeader (b : DataBlock) : Except Status Unit × DataBlock :=
  match DataSection.rebuildHeader b.payloads with
  | .error e => (.error e, b)
  | .ok header => (.ok (), { b with header })

/-- The way back when the header of the longer block cannot be derived. -/
def popPayload (b : DataBlock) : DataBlock :=
  let popped : DataBlock := { b with payloads := b.payloads.dropLast }
  if popped.payloads ≠ [] then popped.rebuildHeader.2 else { popped with header := empty.header }

/-- The end of `add_payload`: the record is appended and the header derived anew. -/
def pushPayload (b : DataBlock) (p : Payload) : Except Status Unit × DataBlock :=
  match ({ b with payloads := b.payloads ++ [p] } : DataBlock).rebuildHeader with
  | (.ok (), b') => (.ok (), b')
  | (.error e, b') => (.error e, b'.popPayload)

/-- `DataBlock::add_payload`. -/
def addPayload (b : DataBlock) (p : Payload) : Except Status Unit × DataBlock :=
  match p.validate with
  | .error e => (.error e, b)
  | .ok () =>
    match orderAfter b.payloads.getLast? p with
    | .error e => (.error e, b)
    | .ok () =>
      if !canPayloadFit b.payloads p then
        (.error ⟨.invalidPayloadSize, "data payload does not fit in current block: block_size="
          ++ toString (blockDiskSize b.payloads) ++ ", payload_size=" ++ toString p.diskSize ++ ", capacity="
          ++ toString BLOCK_SIZE⟩, b)
      else b.pushPayload p

/-- The block of these records. -/
def ofPayloads (ps : List Payload) : DataBlock := ⟨derivedHeader ps, ps⟩

end DataBlock

/-- The last record of the last block that has one. -/
def lastPayload (blocks : List DataBlock) : Option Payload := blocks.reverse.findSome? fun b => b.payloads.getLast?

/-- The record in a block of its own. -/
def addBlockFor (blocks : List DataBlock) (p : Payload) : Except Status Unit × List DataBlock :=
  match DataBlock.empty.addPayload p with
  | (.error e, _) => (.error e, blocks)
  | (.ok (), b) => (.ok (), blocks ++ [b])

/-- `DataSection::add_payload`. -/
def addRecord (blocks : List DataBlock) (record : InternalRecord) : Except Status Unit × List DataBlock :=
  if record.key.size > 2 ^ 32 - 1 ∨ record.value.size > 2 ^ 32 - 1 then
    (.error ⟨.dataTypeOverflow, "record key/value size cannot be represented by the SSTable uint32 fields"⟩, blocks)
  else
    match (ofRecord record).validate with
    | .error e => (.error e, blocks)
    | .ok () =>
      match orderAfter (lastPayload blocks) (ofRecord record) with
      | .error e => (.error e, blocks)
      | .ok () =>
        match blocks.getLast? with
        | some b =>
          if canPayloadFit b.payloads (ofRecord record) then
            ((b.addPayload (ofRecord record)).1, blocks.dropLast ++ [(b.addPayload (ofRecord record)).2])
          else addBlockFor blocks (ofRecord record)
        | none => addBlockFor blocks (ofRecord record)

/-- The section after these calls, and the records it accepted. -/
def addAll : List DataBlock → List InternalRecord → List DataBlock × List InternalRecord
  | blocks, [] => (blocks, [])
  | blocks, r :: rs =>
    match addRecord blocks r with
    | (.error _, blocks') => addAll blocks' rs
    | (.ok (), blocks') => ((addAll blocks' rs).1, r :: (addAll blocks' rs).2)

/-! ## The headers follow the records -/

/-- The way back restores the block without the record. -/
theorem DataBlock.popPayload_push (ps : List Payload) (p : Payload) :
    (⟨derivedHeader ps, ps ++ [p]⟩ : DataBlock).popPayload = .ofPayloads ps := by
  unfold popPayload
  simp only [List.dropLast_concat]
  by_cases hne : ps ≠ []
  · rw [if_pos hne, rebuildHeader]
    cases hheader : DataSection.rebuildHeader ps with
    | error e => rfl
    | ok header =>
      obtain ⟨-, rfl⟩ := (rebuildHeader_ok_iff _ _).mp hheader
      rfl
  · rw [if_neg hne, not_not.mp hne]
    rfl

theorem DataBlock.pushPayload_eq (ps : List Payload) (p : Payload) :
    (DataBlock.ofPayloads ps).pushPayload p =
      match DataSection.rebuildHeader (ps ++ [p]) with
      | .error e => (.error e, .ofPayloads ps)
      | .ok _ => (.ok (), .ofPayloads (ps ++ [p])) := by
  unfold pushPayload rebuildHeader
  simp only [ofPayloads]
  cases hheader : DataSection.rebuildHeader (ps ++ [p]) with
  | error e =>
    dsimp only
    rw [popPayload_push, ofPayloads]
  | ok header =>
    obtain ⟨-, rfl⟩ := (rebuildHeader_ok_iff _ _).mp hheader
    rfl

/-- A block with the header of its records keeps it, and a refused record leaves no trace. -/
theorem DataBlock.addPayload_eq (ps : List Payload) (p : Payload) :
    (DataBlock.ofPayloads ps).addPayload p =
      match addToBlock ps p with
      | .error e => (.error e, .ofPayloads ps)
      | .ok qs => (.ok (), .ofPayloads qs) := by
  have hpayloads : (ofPayloads ps).payloads = ps := rfl
  unfold DataBlock.addPayload addToBlock
  rw [pushPayload_eq, hpayloads]
  cases hvalid : p.validate with
  | error e => rfl
  | ok u =>
    rw [ok_bind]
    cases horder : orderAfter ps.getLast? p with
    | error e => rfl
    | ok u =>
      rw [ok_bind]
      dsimp only
      by_cases hfull : (!canPayloadFit ps p) = true
      · rw [if_pos hfull, if_pos hfull]
      · rw [if_neg hfull, if_neg hfull]
        cases DataSection.rebuildHeader (ps ++ [p]) with
        | error e => rfl
        | ok header => rfl

omit [Zlib] in
theorem lastPayload_eq [Zlib] {bs : List (List Payload)} (hne : ∀ b ∈ bs, b ≠ []) :
    lastPayload (bs.map DataBlock.ofPayloads) = bs.flatten.getLast? := by
  rcases List.eq_nil_or_concat bs with rfl | ⟨bs, b, rfl⟩
  · rfl
  · rw [List.concat_eq_append] at hne ⊢
    obtain ⟨last, hlast⟩ := Option.ne_none_iff_exists'.mp fun hnone =>
        hne b (by simp) (List.getLast?_eq_none_iff.mp hnone)
    rw [lastPayload, List.map_append, List.reverse_append, List.map_singleton, List.reverse_singleton,
      List.singleton_append, List.findSome?_cons]
    have hpayloads : (DataBlock.ofPayloads b).payloads = b := rfl
    rw [hpayloads, List.flatten_append, List.flatten_singleton, List.getLast?_append, hlast, Option.some_or]

theorem addBlockFor_eq (bs : List (List Payload)) (p : Payload) :
    addBlockFor (bs.map DataBlock.ofPayloads) p =
      match addToBlock [] p with
      | .error e => (.error e, bs.map DataBlock.ofPayloads)
      | .ok b => (.ok (), (bs ++ [b]).map DataBlock.ofPayloads) := by
  have hadd := DataBlock.addPayload_eq [] p
  have hempty : DataBlock.empty = .ofPayloads [] := rfl
  rw [addBlockFor, hempty, hadd]
  cases addToBlock [] p with
  | error e => rfl
  | ok b =>
    dsimp only
    rw [List.map_append]
    rfl

/-- **A call on the section is one on the records of its blocks.**  The headers follow, and a refused record leaves the
section as it was. -/
theorem addRecord_refines {bs : List (List Payload)} (hne : ∀ b ∈ bs, b ≠ []) (r : InternalRecord) :
    addRecord (bs.map DataBlock.ofPayloads) r =
      match addPayload bs (ofRecord r) with
      | .error e => (.error e, bs.map DataBlock.ofPayloads)
      | .ok bs' => (.ok (), bs'.map DataBlock.ofPayloads) := by
  have hsize : ¬ (r.key.size > 2 ^ 32 - 1 ∨ r.value.size > 2 ^ 32 - 1) := by
    have hkey : r.key.size < 2 ^ 32 := r.key.size_lt
    have hvalue : r.value.size < 2 ^ 32 := r.value.size_lt
    omega
  rw [addRecord, if_neg hsize, lastPayload_eq hne, addPayload]
  cases hvalid : (ofRecord r).validate with
  | error e => rfl
  | ok u =>
    rw [ok_bind]
    dsimp only
    cases horder : orderAfter bs.flatten.getLast? (ofRecord r) with
    | error e => rfl
    | ok u =>
      rw [ok_bind]
      dsimp only
      have hfresh : addBlockFor (bs.map DataBlock.ofPayloads) (ofRecord r) =
          match addToBlock [] (ofRecord r) >>= fun b => pure (bs ++ [b]) with
          | .error e => (.error e, bs.map DataBlock.ofPayloads)
          | .ok bs' => (.ok (), bs'.map DataBlock.ofPayloads) := by
        rw [addBlockFor_eq]
        cases addToBlock [] (ofRecord r) with
        | error e => rfl
        | ok b => rfl
      rcases List.eq_nil_or_concat bs with rfl | ⟨bs₀, b, rfl⟩
      · exact hfresh
      · rw [List.concat_eq_append] at hfresh ⊢
        have hlast : ((bs₀ ++ [b]).map DataBlock.ofPayloads).getLast? = some (.ofPayloads b) := by
          rw [List.map_append, List.getLast?_append]
          rfl
        have hopen : openBlock (bs₀ ++ [b]) (ofRecord r) =
            if canPayloadFit b (ofRecord r) then (bs₀, b) else (bs₀ ++ [b], []) := by
          rw [openBlock, List.getLast?_append, List.getLast?_singleton, Option.some_or, List.dropLast_concat]
        rw [hlast, hopen]
        show (if canPayloadFit b (ofRecord r) = true then _ else _) = _
        by_cases hfit : canPayloadFit b (ofRecord r) = true
        · rw [if_pos hfit, if_pos hfit, DataBlock.addPayload_eq]
          cases addToBlock b (ofRecord r) with
          | error e => simp
          | ok b' => simp
        · rw [if_neg hfit, if_neg hfit]
          exact hfresh

/-- The section after any calls. -/
theorem addAll_packed {bs : List (List Payload)} {ps : List Payload} (h : Packed bs ps) (rs : List InternalRecord) :
    ∃ bs', (addAll (bs.map DataBlock.ofPayloads) rs).1 = bs'.map DataBlock.ofPayloads ∧
      Packed bs' (ps ++ (addAll (bs.map DataBlock.ofPayloads) rs).2.map ofRecord) := by
  induction rs generalizing bs ps with
  | nil =>
    refine ⟨bs, rfl, ?_⟩
    rw [addAll, List.map_nil, List.append_nil]
    exact h
  | cons r rs ih =>
    rw [addAll, addRecord_refines h.ne]
    cases hadd : addPayload bs (ofRecord r) with
    | error e => exact ih h
    | ok bs₁ =>
      obtain ⟨bs', heq, hpacked⟩ := ih (addPayload_packed h hadd)
      refine ⟨bs', heq, ?_⟩
      rw [List.append_assoc] at hpacked
      exact hpacked

/-! ## The places of the blocks -/

/-- The blocks stand one block apart, each without a gap inside. -/
theorem blocksBytes_at {blocks : List (List Payload)} (h : ∀ b ∈ blocks, ValidBlock b) (front : List UInt8)
    {i : Nat} {b : List Payload} (hi : blocks[i]? = some b) :
    At (front ++ blocksBytes front.length blocks) (aligned front.length + i * BLOCK_SIZE) (blockBody b) := by
  induction blocks generalizing front i with
  | nil => cases hi
  | cons c cs ih =>
    have hc := h c (by simp)
    have hedge : (front ++ alignment front.length).length = aligned front.length := by
      rw [List.length_append, aligned]
    cases i with
    | zero =>
      have hcb : c = b := Option.some.inj hi
      rw [← hcb]
      have hat := at_append (front ++ alignment front.length) (blockBody c)
        (blocksBytes (aligned front.length + (blockBody c).length) cs)
      rw [hedge, List.append_assoc] at hat
      rw [Nat.zero_mul, Nat.add_zero]
      exact hat
    | succ i =>
      have hrest := ih (fun d hd => h d (by simp [hd])) (front ++ alignment front.length ++ blockBody c) hi
      have hnext := aligned_blockBody hc front.length
      rw [List.length_append, hedge, hnext, List.append_assoc, List.append_assoc] at hrest
      rw [Nat.succ_mul, Nat.add_comm (i * BLOCK_SIZE), ← Nat.add_assoc]
      exact hrest

omit [Zlib] in
/-- The entries name the places and the outer keys of the blocks. -/
theorem blockEntries_get {blocks : List (List Payload)} (h : ∀ b ∈ blocks, b ≠ []) (off : Nat) {i : Nat}
    {b : List Payload} (hi : blocks[i]? = some b) :
    ∃ first last, b.head? = some first ∧ b.getLast? = some last ∧
      (blockEntries off blocks)[i]? = some ⟨UInt64.ofNat (off + i * BLOCK_SIZE), first.key, last.key⟩ := by
  induction blocks generalizing off i with
  | nil => cases hi
  | cons c cs ih =>
    obtain ⟨first, last, hfirst, hlast, hkeys⟩ := exists_blockKeys (h c (by simp))
    rw [blockEntries, blockEntry, hkeys]
    cases i with
    | zero =>
      cases hi
      refine ⟨first, last, hfirst, hlast, ?_⟩
      rw [Nat.zero_mul, Nat.add_zero]
      rfl
    | succ i =>
      obtain ⟨first', last', hf, hl, hget⟩ := ih (fun d hd => h d (by simp [hd])) (off + BLOCK_SIZE) hi
      refine ⟨first', last', hf, hl, ?_⟩
      rw [Nat.succ_mul, Nat.add_comm (i * BLOCK_SIZE), ← Nat.add_assoc]
      exact hget

/-- **Packing a data section.**  After any calls of `add_payload` no block is empty or larger than a block of the file,
the blocks hold the accepted records in order, strictly ordered, each under the header of its records, and a record that
is refused leaves the section as it was.  When it is written, the blocks stand one block apart without a gap inside, and
the index has one entry for each, with its place and its outer keys. -/
theorem addAll_packing (rs : List InternalRecord) :
    let built := (addAll [] rs).1
    let accepted := (addAll [] rs).2
    (∀ b ∈ built, b.payloads ≠ [] ∧ blockDiskSize b.payloads ≤ BLOCK_SIZE ∧
      b.header.payloadDiskSize.toNat = (b.payloads.map diskSize).sum ∧ b.header.crc32 = calculateCrc32 b.payloads) ∧
    built.flatMap DataBlock.payloads = accepted.map ofRecord ∧
    (built.flatMap DataBlock.payloads).Pairwise Precedes ∧
    (∀ r e section', addRecord built r = (.error e, section') → section' = built) ∧
    ∀ (w w' : Writer Status) (index : IndexSection) (dataOffset : Nat), w.Synced →
      write (built.map DataBlock.payloads) w = (.ok (index, dataOffset), w') →
        index.payloads.length = built.length ∧
        ∀ i b, built[i]? = some b →
          At w'.bytes (dataOffset + i * BLOCK_SIZE) (b.header.encode ++ b.payloads.flatMap encode) ∧
          ∃ first last, b.payloads.head? = some first ∧ b.payloads.getLast? = some last ∧
            index.payloads[i]? = some ⟨UInt64.ofNat (dataOffset + i * BLOCK_SIZE), first.key, last.key⟩ := by
  obtain ⟨bs, heq, hpacked⟩ := addAll_packed Packed.nil rs
  rw [List.map_nil] at heq hpacked
  rw [List.nil_append] at hpacked
  have hpayloads : (bs.map DataBlock.ofPayloads).map DataBlock.payloads = bs := by
    rw [List.map_map]
    exact List.map_id bs
  have hvalid : ∀ b ∈ bs, ValidBlock b :=
    ((validateBlocks_ok_iff none bs).mp ((validateSection_ok_iff bs).mpr (hpacked.flatten ▸ hpacked))).1
  dsimp only
  rw [heq, List.flatMap_def, hpayloads, hpacked.flatten]
  refine ⟨?_, rfl, hpacked.ordered, ?_, ?_⟩
  · intro b hb
    obtain ⟨ps, hps, rfl⟩ := List.mem_map.mp hb
    have hps' := hvalid ps hps
    have hfits := hps'.fits
    have hcap : PAYLOAD_CAPACITY = 4087 := rfl
    refine ⟨hps'.ne, hps'.diskSize_le, ?_, rfl⟩
    show (UInt32.ofNat (ps.map diskSize).sum).toNat = _
    rw [UInt32.toNat_ofNat', Nat.mod_eq_of_lt (by omega)]
    rfl
  · intro r e blocks' h
    rw [addRecord_refines hpacked.ne] at h
    cases hadd : addPayload bs (ofRecord r) with
    | error e' =>
      rw [hadd] at h
      cases h
      rfl
    | ok bs' =>
      rw [hadd] at h
      cases h
  · intro w w' index dataOffset hw h
    obtain ⟨hp, hseq⟩ := write_ok hw h
    obtain ⟨hvalue, -, -, hbytes⟩ := (emits_write hp hseq).ok_bytes hw rfl h
    cases hvalue
    refine ⟨by rw [List.length_map]; exact length_blockEntries hpacked.ne _, ?_⟩
    intro i b hi
    rw [List.getElem?_map] at hi
    obtain ⟨ps, hps, rfl⟩ := Option.map_eq_some_iff.mp hi
    have hstart : sectionStart w.offset bs = aligned w.offset := by
      rw [sectionStart, if_neg]
      rintro rfl
      cases hps
    rw [hstart]
    refine ⟨?_, blockEntries_get hpacked.ne _ hps⟩
    have hat := blocksBytes_at hvalid w.bytes hps
    rw [← hw, ← hbytes] at hat
    exact hat

end

/-- Two blocks, and a record between them that is refused: its key is too small. -/
theorem addAll_packing_fourRecords : let _ := documentedZlib
    ∃ index dataOffset w',
      let built := (addAll [] (fourRecords.take 3 ++ ⟨.ofByte 5, .empty, .put, 10⟩ :: fourRecords.drop 3)).1
      (addAll [] (fourRecords.take 3 ++ ⟨.ofByte 5, .empty, .put, 10⟩ :: fourRecords.drop 3)).2 = fourRecords ∧
      write (built.map DataBlock.payloads) ⟨[], 0, none, ⟨.ioError, ""⟩⟩ = (.ok (index, dataOffset), w') ∧
      index.payloads.length = 2 ∧
      ∀ i b, built[i]? = some b →
        At w'.bytes (dataOffset + i * BLOCK_SIZE) (b.header.encode ++ b.payloads.flatMap encode) := by
  intro _
  have hblocks : (addAll [] (fourRecords.take 3 ++ ⟨.ofByte 5, .empty, .put, 10⟩ :: fourRecords.drop 3)).1.map
      DataBlock.payloads = fourBlocks := by decide +kernel
  have hseq : IndexSection.Sequence (blockEntries (aligned 0) fourBlocks) :=
    ((IndexSection.validatePayloadSequence_ok_iff _ 35).mp (by decide +kernel)).1
  have hw : (⟨[], 0, none, ⟨.ioError, ""⟩⟩ : Writer Status).Synced := rfl
  have hwrite := (emits_write fourBlocks_packed hseq).free hw rfl rfl
  obtain ⟨-, -, -, -, hplaces⟩ :=
    addAll_packing (fourRecords.take 3 ++ ⟨.ofByte 5, .empty, .put, 10⟩ :: fourRecords.drop 3)
  obtain ⟨hcount, hplace⟩ := hplaces _ _ _ _ hw (hblocks ▸ hwrite)
  refine ⟨_, _, _, by decide +kernel, hblocks ▸ hwrite, ?_, fun i b hi => (hplace i b hi).1⟩
  rw [hcount]
  decide +kernel

end DataSection

end Kvdb
