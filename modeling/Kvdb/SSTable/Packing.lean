import Kvdb.SSTable.BlockParsing

/-!
# Packing records into blocks

`DataSection::add_payload` appends a record to the last block, or to a new one when
it does not fit there.  `Packed` says what the blocks of a table are after records
were appended: non-empty, within the capacity of a block, and end to end the
records, which are in strict internal order (`packRecords_packed`).
-/

namespace Kvdb

open Faulty Bytes

namespace DataSection

open Payload DataSectionView

/-! ## Appending -/

/-- The constructor of `Payload` from a record. -/
def Payload.ofRecord (r : InternalRecord) : Payload := ⟨r.key, r.value, r.type.toU8, 0, 0, r.seqNum⟩

/-- `Payload::validate`. -/
def Payload.validate (p : Payload) : Except Status Unit :=
  if !typeIsValid p.type then .error ⟨.invalidArgument, "data payload record type is invalid"⟩
  else if p.flags ≠ 0 ∨ p.reserved ≠ 0 then
    .error ⟨.invalidArgument, "data payload flags and reserved fields must be zero for SSTable version 1"⟩
  else if p.diskSize > PAYLOAD_CAPACITY then
    .error ⟨.invalidPayloadSize, "data payload exceeds block capacity: payload_size=" ++ toString p.diskSize
      ++ ", capacity=" ++ toString PAYLOAD_CAPACITY⟩
  else .ok ()

/-- `validate_order`. -/
def validateOrder (previous current : Payload) : Except Status Unit :=
  match compareKeys previous.key.bytes current.key.bytes with
  | .gt => .error ⟨.invalidArgument, "data records must be appended in ascending key order"⟩
  | .eq =>
    if current.seqNum > previous.seqNum then
      .error ⟨.invalidArgument, "equal keys must be appended in descending sequence order"⟩
    else if current.seqNum = previous.seqNum then
      .error ⟨.duplicate, "duplicate internal record key and sequence number"⟩
    else .ok ()
  | .lt => .ok ()

/-- The order check against the record in front, if there is one. -/
def orderAfter (previous : Option Payload) (current : Payload) : Except Status Unit :=
  match previous with
  | none => .ok ()
  | some previous => validateOrder previous current

/-- `DataBlock::disk_size`. -/
def blockDiskSize (ps : List Payload) : Nat := Header.diskSize + (ps.map Payload.diskSize).sum

/-- `DataBlock::can_payload_fit`. -/
def canPayloadFit (ps : List Payload) (p : Payload) : Bool := decide (blockDiskSize ps + p.diskSize ≤ BLOCK_SIZE)

/-- The loop of `DataBlock::validate`. -/
def validatePayloads : Option Payload → Nat → List Payload → Except Status Unit
  | _, _, [] => .ok ()
  | previous, payloadBytes, p :: ps => do
    p.validate
    orderAfter previous p
    if payloadBytes + p.diskSize > PAYLOAD_CAPACITY then
      .error ⟨.invalidPayloadSize, "data block exceeds physical block size: block_size="
        ++ toString (payloadBytes + p.diskSize + Header.diskSize) ++ ", capacity=" ++ toString BLOCK_SIZE⟩
    else validatePayloads (some p) (payloadBytes + p.diskSize) ps

/-- `DataBlock::validate`. -/
def validateBlock (ps : List Payload) : Except Status Unit :=
  if ps = [] then .error ⟨.invalidState, "data block cannot be written without payloads"⟩
  else validatePayloads none 0 ps

/-- `DataBlock::rebuild_header`. -/
def rebuildHeader [Zlib] (ps : List Payload) : Except Status Header := do
  validateBlock ps
  if (ps.map Payload.diskSize).sum > 2 ^ 32 - 1 then
    .error ⟨.dataTypeOverflow, "data block payload byte count cannot be represented by uint32_t"⟩
  else .ok (derivedHeader ps)

section

variable [Zlib]

/-- `DataBlock::add_payload`: the header is derived anew. -/
def addToBlock (ps : List Payload) (p : Payload) : Except Status (List Payload) := do
  p.validate
  orderAfter ps.getLast? p
  if !canPayloadFit ps p then
    .error ⟨.invalidPayloadSize, "data payload does not fit in current block: block_size="
      ++ toString (blockDiskSize ps) ++ ", payload_size=" ++ toString p.diskSize ++ ", capacity=" ++
        toString BLOCK_SIZE⟩
  else do
    let _ ← rebuildHeader (ps ++ [p])
    pure (ps ++ [p])

/-- The last block and those in front, when the payload fits there. -/
def openBlock (blocks : List (List Payload)) (p : Payload) : List (List Payload) × List Payload :=
  match blocks.getLast? with
  | some b => if canPayloadFit b p then (blocks.dropLast, b) else (blocks, [])
  | none => (blocks, [])

/-- `DataSection::add_payload`, on the payload of a record. -/
def addPayload (blocks : List (List Payload)) (p : Payload) : Except Status (List (List Payload)) := do
  p.validate
  orderAfter blocks.flatten.getLast? p
  let b ← addToBlock (openBlock blocks p).2 p
  pure ((openBlock blocks p).1 ++ [b])

/-- The records appended one by one. -/
def packFrom : List (List Payload) → List InternalRecord → Except Status (List (List Payload))
  | blocks, [] => .ok blocks
  | blocks, r :: rs => do
    let blocks ← addPayload blocks (ofRecord r)
    packFrom blocks rs

/-- The blocks of a table with these records. -/
def packRecords (rs : List InternalRecord) : Except Status (List (List Payload)) := packFrom [] rs

end

/-! ## What was appended -/

theorem validate_ok_iff (p : Payload) :
    p.validate = .ok () ↔ Canonical p ∧ p.diskSize ≤ PAYLOAD_CAPACITY := by
  unfold Payload.validate Canonical
  by_cases ht : typeIsValid p.type = true
  · rw [ht, if_neg (by decide)]
    by_cases hz : p.flags ≠ 0 ∨ p.reserved ≠ 0
    · rw [if_pos hz]
      constructor
      · intro h
        cases h
      · rintro ⟨⟨-, h1, h2⟩, -⟩
        rcases hz with hz | hz
        · exact absurd h1 hz
        · exact absurd h2 hz
    · rw [if_neg hz]
      have hzero : p.flags = 0 ∧ p.reserved = 0 := by
        constructor
        · by_contra hne
          exact hz (.inl hne)
        · by_contra hne
          exact hz (.inr hne)
      by_cases hs : p.diskSize > PAYLOAD_CAPACITY
      · rw [if_pos hs]
        constructor
        · intro h
          cases h
        · rintro ⟨-, h⟩
          omega
      · rw [if_neg hs]
        exact ⟨fun _ => ⟨⟨rfl, hzero⟩, by omega⟩, fun _ => rfl⟩
  · rw [Bool.not_eq_true] at ht
    rw [ht, if_pos (by decide)]
    constructor
    · intro h
      cases h
    · rintro ⟨⟨h, -⟩, -⟩
      cases h

theorem validateOrder_ok_iff (p q : Payload) : validateOrder p q = .ok () ↔ Precedes p q := by
  unfold validateOrder Precedes
  cases hc : compareKeys p.key.bytes q.key.bytes with
  | lt => exact ⟨fun _ => .inl (compareKeys_lt_iff.mp hc), fun _ => rfl⟩
  | gt =>
    have hlt := compareKeys_gt_iff.mp hc
    constructor
    · intro h
      cases h
    · rintro (h | ⟨h, -⟩)
      · exact absurd (hlt.trans h) (lt_irrefl _)
      · exact absurd hlt (by rw [h]; exact lt_irrefl _)
  | eq =>
    have heq := compareKeys_eq_iff.mp hc
    dsimp only
    by_cases hgt : q.seqNum > p.seqNum
    · rw [if_pos hgt]
      have hnat := UInt64.lt_iff_toNat_lt.mp hgt
      constructor
      · intro h
        cases h
      · rintro (h | ⟨-, h⟩)
        · exact absurd h (by rw [heq]; exact lt_irrefl _)
        · omega
    · rw [if_neg hgt]
      have hle : q.seqNum.toNat ≤ p.seqNum.toNat := by
        by_contra h
        exact hgt (UInt64.lt_iff_toNat_lt.mpr (by omega))
      by_cases hsame : q.seqNum = p.seqNum
      · rw [if_pos hsame]
        constructor
        · intro h
          cases h
        · rintro (h | ⟨-, h⟩)
          · exact absurd h (by rw [heq]; exact lt_irrefl _)
          · rw [hsame] at h
            omega
      · rw [if_neg hsame]
        have hne : q.seqNum.toNat ≠ p.seqNum.toNat := fun h => hsame (UInt64.toNat_inj.mp h)
        exact ⟨fun _ => .inr ⟨heq, by omega⟩, fun _ => rfl⟩

/-- The blocks of a table that received these payloads. -/
structure Packed (blocks : List (List Payload)) (ps : List Payload) : Prop where
  flatten : blocks.flatten = ps
  ne : ∀ b ∈ blocks, b ≠ []
  fits : ∀ b ∈ blocks, (b.map diskSize).sum ≤ PAYLOAD_CAPACITY
  canonical : ∀ p ∈ ps, Canonical p
  ordered : ps.Pairwise Precedes

theorem Packed.nil : Packed [] [] := ⟨rfl, by simp, by simp, by simp, List.Pairwise.nil⟩

/-- One more payload behind the last one keeps the order. -/
theorem pairwise_append_last {ps : List Payload} (h : ps.Pairwise Precedes) {p : Payload}
    (hlast : orderAfter ps.getLast? p = .ok ()) : (ps ++ [p]).Pairwise Precedes := by
  rcases List.eq_nil_or_concat ps with rfl | ⟨qs, q, rfl⟩
  · exact List.pairwise_singleton _ _
  · rw [List.concat_eq_append] at h hlast ⊢
    rw [List.getLast?_append, List.getLast?_singleton, Option.some_or] at hlast
    have hqp := (validateOrder_ok_iff q p).mp hlast
    refine List.pairwise_append.mpr ⟨h, List.pairwise_singleton _ _, fun a ha b hb => ?_⟩
    rw [List.mem_singleton.mp hb]
    rcases List.mem_append.mp ha with ha | ha
    · exact ((List.pairwise_append.mp h).2.2 a ha q (List.mem_singleton_self q)).trans hqp
    · rw [List.mem_singleton.mp ha]
      exact hqp

theorem openBlock_concat (blocks : List (List Payload)) (p : Payload) :
    (openBlock blocks p).1 ++ [(openBlock blocks p).2] = blocks ∧ (openBlock blocks p).2 ∈ blocks ∨
      openBlock blocks p = (blocks, []) := by
  unfold openBlock
  rcases List.eq_nil_or_concat blocks with rfl | ⟨bs, b, rfl⟩
  · exact .inr rfl
  · rw [List.concat_eq_append, List.getLast?_append, List.getLast?_singleton, Option.some_or]
    dsimp only
    by_cases hfit : canPayloadFit b p = true
    · rw [if_pos hfit, List.dropLast_concat]
      exact .inl ⟨rfl, by simp⟩
    · rw [if_neg hfit]
      exact .inr rfl

section

variable [Zlib]

theorem addToBlock_ok {ps qs : List Payload} {p : Payload} (h : addToBlock ps p = .ok qs) :
    qs = ps ++ [p] ∧ (qs.map diskSize).sum ≤ PAYLOAD_CAPACITY := by
  unfold addToBlock at h
  obtain ⟨-, -, h⟩ := except_bind_ok h
  obtain ⟨-, -, h⟩ := except_bind_ok h
  split at h
  · cases h
  next hfit =>
  obtain ⟨-, -, h⟩ := except_bind_ok h
  cases h
  refine ⟨rfl, ?_⟩
  rw [Bool.not_eq_true', Bool.not_eq_false, canPayloadFit, decide_eq_true_eq, blockDiskSize] at hfit
  rw [List.map_append, List.sum_append, List.map_singleton, List.sum_singleton]
  unfold PAYLOAD_CAPACITY
  omega

theorem addPayload_packed {blocks blocks' : List (List Payload)} {ps : List Payload} {p : Payload}
    (hb : Packed blocks ps) (h : addPayload blocks p = .ok blocks') : Packed blocks' (ps ++ [p]) := by
  unfold addPayload at h
  obtain ⟨_, hvalid, h⟩ := except_bind_ok h
  obtain ⟨_, horder, h⟩ := except_bind_ok h
  obtain ⟨b, hadd, h⟩ := except_bind_ok h
  cases h
  obtain ⟨rfl, hsize⟩ := addToBlock_ok hadd
  rw [hb.flatten] at horder
  have hmem : ∀ c ∈ (openBlock blocks p).1, c ∈ blocks := by
    intro c hc
    rcases openBlock_concat blocks p with ⟨heq, -⟩ | heq
    · rw [← heq]
      exact List.mem_append_left _ hc
    · rw [heq] at hc
      exact hc
  have hflat : (openBlock blocks p).1.flatten ++ (openBlock blocks p).2 = ps := by
    rw [← hb.flatten]
    rcases openBlock_concat blocks p with ⟨heq, -⟩ | heq
    · have hboth := congrArg List.flatten heq
      rw [List.flatten_append, List.flatten_singleton] at hboth
      exact hboth
    · rw [heq, List.append_nil]
  refine ⟨?_, ?_, ?_, ?_, ?_⟩
  · rw [List.flatten_append, List.flatten_singleton, ← List.append_assoc, hflat]
  · intro c hc
    rcases List.mem_append.mp hc with hc | hc
    · exact hb.ne c (hmem c hc)
    · rw [List.mem_singleton.mp hc]
      simp
  · intro c hc
    rcases List.mem_append.mp hc with hc | hc
    · exact hb.fits c (hmem c hc)
    · rw [List.mem_singleton.mp hc]
      exact hsize
  · intro q hq
    rcases List.mem_append.mp hq with hq | hq
    · exact hb.canonical q hq
    · rw [List.mem_singleton.mp hq]
      exact ((validate_ok_iff p).mp hvalid).1
  · exact pairwise_append_last hb.ordered horder

theorem packFrom_packed {blocks blocks' : List (List Payload)} {ps : List Payload} {rs : List InternalRecord}
    (hb : Packed blocks ps) (h : packFrom blocks rs = .ok blocks') : Packed blocks' (ps ++ rs.map ofRecord) := by
  induction rs generalizing blocks ps with
  | nil =>
    cases h
    rw [List.map_nil, List.append_nil]
    exact hb
  | cons r rs ih =>
    obtain ⟨blocks₁, h1, h2⟩ := except_bind_ok h
    have hrest := ih (addPayload_packed hb h1) h2
    rw [List.append_assoc] at hrest
    exact hrest

/-- The blocks of a table hold its records in order. -/
theorem packRecords_packed {blocks : List (List Payload)} {rs : List InternalRecord}
    (h : packRecords rs = .ok blocks) : Packed blocks (rs.map ofRecord) :=
  packFrom_packed Packed.nil h

end

end DataSection

end Kvdb
