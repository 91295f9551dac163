import Kvdb.SSTable.DataSectionView

/-!
# What `validate` accepts

The loop of `DataBlock::validate` accepts a payload exactly when it is the
concatenation of one or more records, each with a known type and no flags, in
strict internal order; the entries it stages are those of the records laid end to
end (`checkPayload_ok_iff`).
-/

namespace Kvdb

open Faulty Bytes DataSection DataSection.Payload

namespace DataSectionView

/-- The entry of a record at an offset of the file. -/
def metaAt (offset : Nat) (p : Payload) : RecordMeta :=
  ⟨p.key.size32, p.value.size32, p.type, p.seqNum, offset, offset + fixedPartDiskSize,
    offset + fixedPartDiskSize + p.key.bytes.length⟩

theorem metaAt_diskSize (offset : Nat) (p : Payload) : (metaAt offset p).diskSize = p.diskSize := by
  show fixedPartDiskSize + p.key.size32.toNat + p.value.size32.toNat = _
  rw [ArenaEntry.size32_toNat, ArenaEntry.size32_toNat]
  rfl

/-- The entries of records laid end to end. -/
def metasFrom : Nat → List Payload → List RecordMeta
  | _, [] => []
  | offset, p :: ps => metaAt offset p :: metasFrom (offset + p.diskSize) ps

@[simp] theorem length_metasFrom (offset : Nat) (ps : List Payload) : (metasFrom offset ps).length = ps.length := by
  induction ps generalizing offset with
  | nil => rfl
  | cons p ps ih => rw [metasFrom, List.length_cons, ih, List.length_cons]

/-- The records pass the checks of the loop behind `previous`. -/
def Accepted : Option (List UInt8 × UInt64) → List Payload → Prop
  | _, [] => True
  | previous, p :: ps =>
    checkFixed p.fixed = .ok () ∧ checkOrder previous p.key.bytes p.seqNum = .ok () ∧
      Accepted (some (p.key.bytes, p.seqNum)) ps

/-! ## One record -/

section

variable {bytes : List UInt8} {position : Nat}

theorem spanField_at {d r : List UInt8} (h : bytes.drop position = d ++ r) :
    spanField d.length bytes position = .ok (d, position + d.length) := by
  have hlen := congrArg List.length h
  rw [List.length_drop, List.length_append] at hlen
  unfold spanField
  rw [if_neg (by omega), h, List.take_left]

theorem drop_field {d r : List UInt8} (h : bytes.drop position = d ++ r) : bytes.drop (position + d.length) = r := by
  rw [← List.drop_drop, h, List.drop_left]

theorem spanField_bind {α : Type} {k : List UInt8 → SpanReader α} {d r : List UInt8} {size : Nat}
    (hsize : d.length = size) (h : bytes.drop position = d ++ r) :
    (spanField size >>= k) bytes position = k d bytes (position + d.length) := by
  subst hsize
  exact Reader.bind_ok (spanField_at h)

theorem readFixed_at {f : Fixed} {t : List UInt8} (h : bytes.drop position = f.encode ++ t) :
    readFixed bytes position = .ok (f, position + fixedPartDiskSize) := by
  unfold Fixed.encode at h
  simp only [List.append_assoc] at h
  unfold readFixed
  rw [spanField_bind (length_u32Bytes _) h]
  have h1 := drop_field h
  rw [spanField_bind (length_u32Bytes _) h1]
  have h2 := drop_field h1
  rw [spanField_bind (length_u8Bytes _) h2]
  have h3 := drop_field h2
  rw [spanField_bind (length_u32Bytes _) h3]
  have h4 := drop_field h3
  rw [spanField_bind (length_u32Bytes _) h4]
  have h5 := drop_field h4
  rw [spanField_bind (length_u64Bytes _) h5]
  simp only [u32Of_u32Bytes, u8Of_u8Bytes, u64Of_u64Bytes, length_u32Bytes, length_u8Bytes, length_u64Bytes]
  rfl

theorem parseRecord_fixed (payloadOffset : Nat) (previous : Option (List UInt8 × UInt64)) {f : Fixed} {t : List UInt8}
    (h : bytes.drop position = f.encode ++ t) :
    parseRecord payloadOffset previous bytes position =
      match checkFixed f with
      | .error e => .error e
      | .ok () => readVariable payloadOffset position previous f bytes (position + fixedPartDiskSize) := by
  have hlen := congrArg List.length h
  rw [List.length_drop, List.length_append, length_fixed] at hlen
  unfold parseRecord
  rw [if_neg (by omega), Reader.bind_ok (readFixed_at h), Reader.bind_apply]
  cases checkFixed f with
  | error e => rfl
  | ok u => rfl

/-- A record at the position. -/
theorem parseRecord_payload (payloadOffset : Nat) {previous : Option (List UInt8 × UInt64)} {p : Payload}
    {r : List UInt8} (h : bytes.drop position = p.encode ++ r) (hfixed : checkFixed p.fixed = .ok ())
    (horder : checkOrder previous p.key.bytes p.seqNum = .ok ()) :
    parseRecord payloadOffset previous bytes position =
      .ok ((metaAt (payloadOffset + position) p, p.key.bytes), position + p.diskSize) := by
  rw [encode_eq, List.append_assoc] at h
  have hrest := drop_field h
  rw [length_fixed] at hrest
  have hlen := congrArg List.length hrest
  simp only [List.length_drop, List.length_append] at hlen
  have hkey : (bytes.drop (position + fixedPartDiskSize)).take p.fixed.keySize.toNat = p.key.bytes := by
    rw [hrest, List.append_assoc]
    show List.take p.key.size32.toNat _ = _
    rw [ArenaEntry.size32_toNat, List.take_left]
  have hk : p.fixed.keySize.toNat = p.key.bytes.length := ArenaEntry.size32_toNat p.key
  have hv : p.fixed.valueSize.toNat = p.value.bytes.length := ArenaEntry.size32_toNat p.value
  rw [parseRecord_fixed payloadOffset previous h, hfixed]
  dsimp only
  unfold readVariable
  rw [if_neg (by omega), hkey]
  dsimp only
  have hseq : p.fixed.seqNum = p.seqNum := rfl
  rw [hseq, horder, hk, hv]
  dsimp only
  have hmeta : metaAt (payloadOffset + position) p =
      ⟨p.fixed.keySize, p.fixed.valueSize, p.fixed.type, p.seqNum, payloadOffset + position,
        payloadOffset + (position + fixedPartDiskSize),
        payloadOffset + (position + fixedPartDiskSize + p.key.bytes.length)⟩ := by
    unfold metaAt fixed
    simp only [Nat.add_assoc]
  have hnext : position + p.diskSize = position + fixedPartDiskSize + (p.key.bytes.length + p.value.bytes.length) := by
    unfold diskSize ArenaEntry.size
    omega
  rw [hmeta, hnext]

/-- What was parsed is a record that passes the checks. -/
theorem parseRecord_ok {payloadOffset : Nat} {previous : Option (List UInt8 × UInt64)} {m : RecordMeta}
    {key : List UInt8} {next : Nat}
    (h : parseRecord payloadOffset previous bytes position = .ok ((m, key), next)) :
    ∃ p r, bytes.drop position = p.encode ++ r ∧ checkFixed p.fixed = .ok () ∧
      checkOrder previous p.key.bytes p.seqNum = .ok () ∧ m = metaAt (payloadOffset + position) p ∧
      key = p.key.bytes ∧ next = position + p.diskSize := by
  by_cases hshort : bytes.length - position < fixedPartDiskSize
  · unfold parseRecord at h
    rw [if_pos hshort] at h
    cases h
  · obtain ⟨f, t, hft⟩ := exists_fixed (l := bytes.drop position) (by rw [List.length_drop]; omega)
    have hstep := parseRecord_fixed payloadOffset previous hft
    have hrest := drop_field hft
    rw [length_fixed] at hrest
    have hlen := congrArg List.length hrest
    rw [List.length_drop] at hlen
    cases hfixed : checkFixed f with
    | error e =>
      rw [hstep, hfixed] at h
      cases h
    | ok u =>
      by_cases hroom : f.keySize.toNat + f.valueSize.toNat ≤ t.length
      · obtain ⟨hpf, hpe⟩ := exists_payload hroom
        rw [hpe] at hft
        cases horder : checkOrder previous (f.payload t).key.bytes (f.payload t).seqNum with
        | error e =>
          rw [hstep, hfixed] at h
          dsimp only at h
          unfold readVariable at h
          rw [if_neg (by omega), hrest] at h
          dsimp only at h
          have hsame : checkOrder previous (t.take f.keySize.toNat) f.seqNum = .error e := horder
          rw [hsame] at h
          cases h
        | ok u' =>
          have hrec := parseRecord_payload payloadOffset hft (by rw [hpf]; exact hfixed) horder
          rw [hrec] at h
          cases h
          exact ⟨_, _, hft, by rw [hpf]; exact hfixed, horder, rfl, rfl, rfl⟩
      · rw [hstep, hfixed] at h
        dsimp only at h
        unfold readVariable at h
        rw [if_pos (by omega)] at h
        cases h

/-! ## The whole payload -/

theorem parseLoop_payloads (payloadOffset fuel : Nat) {previous : Option (List UInt8 × UInt64)}
    (staged : List RecordMeta) {ps : List Payload} (h : bytes.drop position = ps.flatMap encode)
    (hle : position ≤ bytes.length) (hfuel : ps.length ≤ fuel) (hok : Accepted previous ps) :
    parseLoop payloadOffset fuel previous staged bytes position =
      .ok (staged ++ metasFrom (payloadOffset + position) ps, bytes.length) := by
  induction ps generalizing fuel previous staged position with
  | nil =>
    have hlen := congrArg List.length h
    rw [List.length_drop, List.flatMap_nil, List.length_nil] at hlen
    obtain rfl : position = bytes.length := by omega
    rw [metasFrom, List.append_nil]
    cases fuel with
    | zero => rfl
    | succ fuel =>
      unfold parseLoop
      rw [if_neg (by omega)]
  | cons p ps ih =>
    rw [List.flatMap_cons] at h
    have hlen := congrArg List.length h
    rw [List.length_drop, List.length_append, length_encode] at hlen
    have hsize : fixedPartDiskSize ≤ p.diskSize := by
      unfold diskSize
      omega
    rw [fixedPartDiskSize] at hsize
    have hrest := drop_field h
    rw [length_encode] at hrest
    cases fuel with
    | zero => exact absurd hfuel (by simp)
    | succ fuel =>
      unfold parseLoop
      rw [if_pos (by omega), parseRecord_payload payloadOffset h hok.1 hok.2.1]
      show parseLoop payloadOffset fuel (some (p.key.bytes, p.seqNum)) _ bytes _ = _
      rw [ih fuel _ hrest (by omega) (by rw [List.length_cons] at hfuel; omega) hok.2.2, metasFrom, List.append_assoc,
        Nat.add_assoc]
      rfl

theorem parseLoop_ok {payloadOffset fuel : Nat} {previous : Option (List UInt8 × UInt64)} {staged ms : List RecordMeta}
    {stop : Nat} (hle : position ≤ bytes.length) (hfuel : bytes.length - position ≤ fuel)
    (h : parseLoop payloadOffset fuel previous staged bytes position = .ok (ms, stop)) :
    ∃ ps : List Payload, bytes.drop position = ps.flatMap encode ∧ Accepted previous ps ∧
      ms = staged ++ metasFrom (payloadOffset + position) ps ∧ stop = bytes.length := by
  induction fuel generalizing previous staged position with
  | zero =>
    cases h
    refine ⟨[], ?_, trivial, by rw [metasFrom, List.append_nil], by omega⟩
    rw [List.flatMap_nil, List.drop_eq_nil_iff]
    omega
  | succ fuel ih =>
    unfold parseLoop at h
    by_cases hmore : position < bytes.length
    · rw [if_pos hmore] at h
      split at h
      · cases h
      · next m key next hrec =>
        obtain ⟨p, r, hp, hfixed, horder, rfl, rfl, rfl⟩ := parseRecord_ok hrec
        have hlen := congrArg List.length hp
        rw [List.length_drop, List.length_append, length_encode] at hlen
        have hsize : fixedPartDiskSize ≤ p.diskSize := by
          unfold diskSize
          omega
        rw [fixedPartDiskSize] at hsize
        obtain ⟨ps, hps, hok, hms, hstop⟩ := ih (by omega) (by omega) h
        refine ⟨p :: ps, ?_, ⟨hfixed, horder, hok⟩, ?_, hstop⟩
        · have hrest := drop_field hp
          rw [length_encode] at hrest
          rw [hp, List.flatMap_cons, ← hps, hrest]
        · rw [hms, metasFrom, List.append_assoc, Nat.add_assoc]
          rfl
    · rw [if_neg hmore] at h
      cases h
      refine ⟨[], ?_, trivial, by rw [metasFrom, List.append_nil], by omega⟩
      rw [List.flatMap_nil, List.drop_eq_nil_iff]
      omega

end

/-! ## Order -/

/-- A record with a known type and without flags. -/
def Canonical (p : Payload) : Prop := typeIsValid p.type = true ∧ p.flags = 0 ∧ p.reserved = 0

/-- Strict internal order: key ascending, sequence number descending. -/
def Precedes (p q : Payload) : Prop := p.key < q.key ∨ (p.key = q.key ∧ q.seqNum.toNat < p.seqNum.toNat)

instance (p : Payload) : Decidable (Canonical p) := inferInstanceAs (Decidable (_ ∧ _ ∧ _))

instance (p q : Payload) : Decidable (Precedes p q) := inferInstanceAs (Decidable (_ ∨ _ ∧ _))

theorem Precedes.trans {p q r : Payload} (h : Precedes p q) (h' : Precedes q r) : Precedes p r := by
  rcases h with hlt | ⟨heq, hseq⟩
  · rcases h' with hlt' | ⟨heq', -⟩
    · exact .inl (hlt.trans hlt')
    · exact .inl (heq' ▸ hlt)
  · rcases h' with hlt' | ⟨heq', hseq'⟩
    · exact .inl (heq ▸ hlt')
    · exact .inr ⟨heq.trans heq', by omega⟩

theorem checkFixed_ok_iff (p : Payload) : checkFixed p.fixed = .ok () ↔ Canonical p := by
  have hdef : checkFixed p.fixed =
      if !typeIsValid p.type then .error ⟨.corruption, "data record has an invalid record type"⟩
      else if p.flags ≠ 0 ∨ p.reserved ≠ 0 then
        .error ⟨.corruption, "data record flags and reserved fields must be zero in version 1"⟩
      else .ok () := rfl
  rw [hdef]
  unfold Canonical
  by_cases ht : typeIsValid p.type = true
  · rw [if_neg (by simpa using ht)]
    by_cases hf : p.flags ≠ 0 ∨ p.reserved ≠ 0
    · rw [if_pos hf]
      constructor
      · intro h
        cases h
      · rintro ⟨-, h1, h2⟩
        rcases hf with h | h
        · exact absurd h1 h
        · exact absurd h2 h
    · rw [if_neg hf]
      rw [not_or, not_not, not_not] at hf
      exact ⟨fun _ => ⟨ht, hf⟩, fun _ => rfl⟩
  · rw [if_pos (by simpa using ht)]
    constructor
    · intro h
      cases h
    · rintro ⟨h, -⟩
      exact absurd h ht

theorem checkOrder_ok_iff (p q : Payload) :
    checkOrder (some (p.key.bytes, p.seqNum)) q.key.bytes q.seqNum = .ok () ↔ Precedes p q := by
  unfold checkOrder Precedes
  dsimp only
  cases hc : compareKeys p.key.bytes q.key.bytes with
  | lt =>
    have hlt := compareKeys_lt_iff.mp hc
    exact ⟨fun _ => .inl hlt, fun _ => rfl⟩
  | gt =>
    have hgt := compareKeys_gt_iff.mp hc
    constructor
    · intro h
      cases h
    · rintro (h | ⟨h, -⟩)
      · exact absurd hgt (lt_asymm h)
      · exact absurd h hgt.ne'
  | eq =>
    have heq := compareKeys_eq_iff.mp hc
    dsimp only
    by_cases hseq : q.seqNum ≥ p.seqNum
    · rw [if_pos hseq]
      have hnat := UInt64.le_iff_toNat_le.mp hseq
      constructor
      · intro h
        cases h
      · rintro (h | ⟨-, h⟩)
        · exact absurd heq h.ne
        · omega
    · rw [if_neg hseq]
      have hnat : ¬ p.seqNum.toNat ≤ q.seqNum.toNat := fun h => hseq (UInt64.le_iff_toNat_le.mpr h)
      exact ⟨fun _ => .inr ⟨heq, by omega⟩, fun _ => rfl⟩

theorem accepted_some_iff (q : Payload) (ps : List Payload) :
    Accepted (some (q.key.bytes, q.seqNum)) ps ↔
      (∀ p ∈ ps, Canonical p) ∧ ps.Pairwise Precedes ∧ ∀ p ∈ ps, Precedes q p := by
  induction ps generalizing q with
  | nil => simp [Accepted]
  | cons p ps ih =>
    rw [Accepted, checkFixed_ok_iff, checkOrder_ok_iff, ih, List.pairwise_cons]
    constructor
    · rintro ⟨hp, hqp, hall, hpw, hpp⟩
      refine ⟨?_, ⟨hpp, hpw⟩, ?_⟩
      · intro x hx
        rcases List.mem_cons.mp hx with rfl | hx
        · exact hp
        · exact hall x hx
      · intro x hx
        rcases List.mem_cons.mp hx with rfl | hx
        · exact hqp
        · exact hqp.trans (hpp x hx)
    · rintro ⟨hall, ⟨hpp, hpw⟩, hq⟩
      exact ⟨hall p (by simp), hq p (by simp), fun x hx => hall x (by simp [hx]), hpw, hpp⟩

theorem accepted_none_iff (ps : List Payload) :
    Accepted none ps ↔ (∀ p ∈ ps, Canonical p) ∧ ps.Pairwise Precedes := by
  cases ps with
  | nil => simp [Accepted]
  | cons p ps =>
    rw [Accepted, checkFixed_ok_iff, accepted_some_iff, List.pairwise_cons]
    constructor
    · rintro ⟨hp, -, hall, hpw, hpp⟩
      refine ⟨?_, hpp, hpw⟩
      intro x hx
      rcases List.mem_cons.mp hx with rfl | hx
      · exact hp
      · exact hall x hx
    · rintro ⟨hall, hpp, hpw⟩
      exact ⟨hall p (by simp), rfl, fun x hx => hall x (by simp [hx]), hpw, hpp⟩

theorem length_le_flatMap (ps : List Payload) : ps.length ≤ (ps.flatMap encode).length := by
  induction ps with
  | nil => simp
  | cons p ps ih =>
    rw [List.flatMap_cons, List.length_append, length_encode, List.length_cons, diskSize, fixedPartDiskSize]
    omega

variable [Zlib]

/-- **What `validate` accepts.** -/
theorem checkPayload_ok_iff {h : Header} {bytes : List UInt8} {ms : List RecordMeta} :
    checkPayload h bytes = .ok ms ↔
      computeCrc32 crc32Init bytes = h.header.crc32 ∧
        ∃ ps : List Payload, ps ≠ [] ∧ bytes = ps.flatMap encode ∧ (∀ p ∈ ps, Canonical p) ∧
          ps.Pairwise Precedes ∧
          ms = metasFrom h.payloadOffset ps := by
  unfold checkPayload
  constructor
  · intro hok
    split at hok
    · cases hok
    next hcrc =>
    split at hok
    · cases hok
    split at hok
    · cases hok
    · next records position hloop =>
      split at hok
      · cases hok
      next hgood =>
      cases hok
      obtain ⟨ps, hps, hacc, hms, -⟩ := parseLoop_ok (Nat.zero_le _) (by omega) hloop
      rw [List.drop_zero] at hps
      rw [List.nil_append] at hms
      obtain ⟨hcan, hpw⟩ := (accepted_none_iff ps).mp hacc
      refine ⟨not_not.mp hcrc, ps, ?_, hps, hcan, hpw, hms⟩
      rintro rfl
      exact hgood (.inl hms)
  · rintro ⟨hcrc, ps, hne, hps, hcan, hpw, rfl⟩
    have hloop : parseLoop h.payloadOffset bytes.length none [] bytes 0 =
        .ok ([] ++ metasFrom (h.payloadOffset + 0) ps, bytes.length) :=
      parseLoop_payloads h.payloadOffset bytes.length [] (by rw [List.drop_zero]; exact hps) (Nat.zero_le _)
        (by rw [hps]; exact length_le_flatMap ps) ((accepted_none_iff ps).mpr ⟨hcan, hpw⟩)
    have hlen : fixedPartDiskSize ≤ bytes.length := by
      cases ps with
      | nil => exact absurd rfl hne
      | cons p ps =>
        rw [hps, List.flatMap_cons, List.length_append, length_encode, diskSize]
        omega
    have hrecords : metasFrom h.payloadOffset ps ≠ [] := by
      intro hnil
      have := congrArg List.length hnil
      rw [length_metasFrom, List.length_nil] at this
      exact hne (List.eq_nil_of_length_eq_zero this)
    rw [if_neg (by rw [not_not]; exact hcrc), if_neg (by omega), hloop]
    dsimp only
    rw [List.nil_append, Nat.add_zero, if_neg (by simp [hrecords])]

end DataSectionView

end Kvdb
