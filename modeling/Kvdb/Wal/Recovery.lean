import Kvdb.Wal.Encoding

/-!
# What the WAL loader reads back

* `fragment_load_at`: a whole fragment is read back, wherever the padding before it starts.
* `fragment_load_cut`: a file that ends inside a fragment is at its end or reports `UnexpectedEOF`.
* `loadLoop_record`, `loadLoop_cut`: the loop over the fragments of one record, whole or cut.
* `load_log`: a file that holds whole records and then stops inside one, or in
  padding, loads as exactly those records.
-/

namespace Kvdb

open Faulty Bytes

variable [Zlib] {file : ReadableFile}

/-! ## One fragment -/

section Fields

omit [Zlib]

theorem walU8 (x : UInt8) : Decodes WAL_FILE_BLOCK_SIZE (readU8 WAL_FILE_BLOCK_SIZE) (u8Bytes x) x :=
  decodes_u8 (by decide) x

theorem walU32 (x : UInt32) : Decodes WAL_FILE_BLOCK_SIZE (readU32Le WAL_FILE_BLOCK_SIZE) (u32Bytes x) x :=
  decodes_u32 (by decide) x

theorem walU64 (x : UInt64) : Decodes WAL_FILE_BLOCK_SIZE (readU64Le WAL_FILE_BLOCK_SIZE) (u64Bytes x) x :=
  decodes_u64 (by decide) x

theorem fragmentHeader_decodes {h : FragmentHeader}
    (hs : h.headerSize = UInt32.ofNat FragmentHeader.diskSize) (ht : h.type.isValid = true) :
    Decodes WAL_FILE_BLOCK_SIZE FragmentHeader.load h.bytes h := by
  have hlen := h.length_bytes
  refine .ensureFits (by decide) (Nat.le_of_eq hlen.symm) ?_
  refine (walU32 h.fragmentCrc32).bind ((walU32 h.headerSize).bind ((walU8 h.fragmentType.toU8).bind
    ((walU8 h.type.toU8).bind ((walU64 h.seqNum).bind ((walU32 h.fragmentSize).last
    (.guard (by simp [hs]) ?_))))))
  rw [FragmentType.ofU8_toU8, RecType.ofU8_toU8 ht]
  exact decodes_pure h

theorem fileHeader_decodes (h : WALFileHeader) :
    Decodes WAL_FILE_BLOCK_SIZE WALFileHeader.readFields h.bytes h :=
  (walU32 h.magic).bind ((walU32 h.version).bind ((walU32 h.headerSize).bind ((walU64 h.walId).bind
    ((walU64 h.startSeq).bind ((walU32 h.blockSize).bind ((walU32 h.reserved).bind
    ((walU32 h.headerCrc32).last (decodes_pure h))))))))

end Fields

/-- The header is read back from any file that starts with it. -/
theorem fileHeader_load_at (hf : file.Sound) {walId : UInt32} {startSeq : UInt64}
    (hat : At file.bytes 0 (WALFileHeader.create walId startSeq).bytes) :
    WALFileHeader.load walId file 0 =
      .ok (some (WALFileHeader.create walId startSeq), WALFileHeader.diskSize) := by
  have hlen := (WALFileHeader.create walId startSeq).length_bytes
  have hne : (WALFileHeader.create walId startSeq).bytes ≠ [] := by
    intro h0
    rw [h0] at hlen
    exact absurd hlen (by decide)
  have hle := hat.end_le hne
  have hpos : 0 < WALFileHeader.diskSize := by decide
  rw [hlen] at hle
  have hread := fileHeader_decodes _ file 0 hf (.inr (by rw [hlen]; decide)) hat
  rw [hlen, Nat.zero_add] at hread
  have hp : padSize 0 WALFileHeader.diskSize WAL_FILE_BLOCK_SIZE = 0 := by decide
  have hens := ensureFitsInBlockRead_apply (show 0 < WAL_FILE_BLOCK_SIZE by decide)
    (show WALFileHeader.diskSize ≤ WAL_FILE_BLOCK_SIZE by decide) file 0
  rw [hp] at hens
  have hval : (WALFileHeader.create walId startSeq).validate walId = .ok () := by
    simp [WALFileHeader.validate, WALFileHeader.create, WALFileHeader.computeCrc32, WALFileHeader.fields]
  unfold WALFileHeader.load
  rw [hf.getFileSize]
  simp only [hens]
  rw [if_neg (by omega), if_neg (by omega), if_neg (by omega), Nat.zero_add, hread]
  simp only [hval]

theorem fragment_load_eq (hf : file.Sound) {off : Nat} (hoff : off ≤ file.bytes.length) :
    Fragment.load file off =
      if file.bytes.length ≤ fragStart off then .ok (none, file.bytes.length)
      else Fragment.loadAt file file.bytes.length (fragStart off) := by
  have hens := ensureFitsInBlockRead_apply (show 0 < WAL_FILE_BLOCK_SIZE by decide)
    (show FragmentHeader.diskSize + 1 ≤ WAL_FILE_BLOCK_SIZE by decide) file off
  have hle := le_fragStart off
  unfold Fragment.load
  rw [hf.getFileSize]
  simp only [hens]
  by_cases heq : off = file.bytes.length
  · rw [if_pos heq, if_pos (by omega), heq]
  · rw [if_neg heq, if_neg (by omega)]
    rfl

omit [Zlib] in
/-- The header of a fragment that the file holds at least up to the header's end. -/
theorem fragmentHeader_load_at (hf : file.Sound) {off : Nat} {h : FragmentHeader}
    (hs : h.headerSize = UInt32.ofNat FragmentHeader.diskSize) (ht : h.type.isValid = true)
    (hat : At file.bytes (fragStart off) h.bytes) :
    FragmentHeader.load file (fragStart off) = .ok (h, fragStart off + FragmentHeader.diskSize) := by
  have hroom := fragStart_room off
  have hlen := h.length_bytes
  rw [fragmentHeader_decodes hs ht file _ hf (.inr (by omega)) hat, hlen]

omit [Zlib] in
/-- The payload of a fragment ends at the block edge at the latest. -/
theorem payload_room (off n : Nat)
    (hroom : FragmentHeader.diskSize + n ≤ WAL_FILE_BLOCK_SIZE - fragStart off % WAL_FILE_BLOCK_SIZE) :
    n ≤ WAL_FILE_BLOCK_SIZE - (fragStart off + FragmentHeader.diskSize) % WAL_FILE_BLOCK_SIZE := by
  rcases Nat.eq_zero_or_pos n with h0 | hpos
  · omega
  · exact fits_part hroom hpos (Nat.le_refl _)

/-- A whole fragment is read back, wherever the padding before it starts. -/
theorem fragment_load_at (hf : file.Sound) {off : Nat} {f : Fragment} (hs : f.Sealed)
    (hroom : f.diskSize ≤ WAL_FILE_BLOCK_SIZE - fragStart off % WAL_FILE_BLOCK_SIZE)
    (hat : At file.bytes (fragStart off) f.bytes) :
    Fragment.load file off = .ok (some f, fragStart off + f.diskSize) := by
  have hlen := f.length_bytes
  have hsize : f.diskSize = FragmentHeader.diskSize + f.payload.length := rfl
  have hpos : FragmentHeader.diskSize = 22 := rfl
  have hne : f.bytes ≠ [] := by
    intro h0
    rw [h0] at hlen
    simp only [List.length_nil] at hlen
    omega
  have hend := hat.end_le hne
  have hle := le_fragStart off
  have hhead := fragmentHeader_load_at hf hs.headerSize hs.type (At.left hat)
  have hproom := payload_room off f.payload.length (by omega)
  have hpay : Fragment.loadPayload f.header.fragmentSize file (fragStart off + FragmentHeader.diskSize) =
      .ok (f.payload, fragStart off + f.diskSize) := by
    have hatp := At.right hat
    rw [FragmentHeader.length_bytes] at hatp
    have hread := decodes_bytes (show 0 < WAL_FILE_BLOCK_SIZE by decide) f.payload file _ hf
      (.inr hproom) hatp
    unfold Fragment.loadPayload
    rcases fitsInBlock_cases (fragStart off + FragmentHeader.diskSize) f.payload.length
      (show 0 < WAL_FILE_BLOCK_SIZE by decide) with ⟨hfit, _⟩ | ⟨_, _, hlt⟩
    · rw [hs.size, hfit]
      simp only
      split
      · next h0 =>
        have hz : f.payload.length = 0 := by rw [← hs.size, h0]; rfl
        rw [List.eq_nil_of_length_eq_zero hz, hsize, hz, Nat.add_zero]
      · rw [hread, hsize, Nat.add_assoc]
    · omega
  rw [fragment_load_eq hf (by omega), if_neg (by omega), Fragment.loadAt, if_neg (by omega), hhead]
  simp only
  rw [hs.size, if_neg (by omega), if_neg (by omega), if_neg (by omega), hpay]
  have hcrc := hs.computeCrc32
  simp [hcrc]

/-- A file that ends inside a fragment, or in the padding before it: the end, or `UnexpectedEOF`. -/
theorem fragment_load_cut (hf : file.Sound) {off : Nat} {f : Fragment} (hs : f.Sealed)
    (hroom : f.diskSize ≤ WAL_FILE_BLOCK_SIZE - fragStart off % WAL_FILE_BLOCK_SIZE)
    (hoff : off ≤ file.bytes.length) (hcut : file.bytes.length < fragStart off + f.diskSize)
    (hpre : file.bytes.drop (fragStart off) <+: f.bytes) :
    Fragment.load file off = .ok (none, file.bytes.length) ∨
      ∃ e, Fragment.load file off = .error e ∧ e.code = .unexpectedEOF := by
  have hsize : f.diskSize = FragmentHeader.diskSize + f.payload.length := rfl
  have hhlen := f.header.length_bytes
  rw [fragment_load_eq hf hoff]
  by_cases hend : file.bytes.length ≤ fragStart off
  · exact .inl (if_pos hend)
  right
  rw [if_neg hend, Fragment.loadAt]
  by_cases hshort : file.bytes.length - fragStart off < FragmentHeader.diskSize
  · rw [if_pos hshort]
    exact ⟨_, rfl, rfl⟩
  -- the header is whole, so the cut lies in the payload
  have hath : At file.bytes (fragStart off) f.header.bytes := by
    refine List.prefix_of_prefix_length_le (List.prefix_append _ f.payload) hpre ?_
    rw [List.length_drop, hhlen]
    omega
  have hproom := payload_room off f.payload.length (by omega)
  rw [if_neg hshort, fragmentHeader_load_at hf hs.headerSize hs.type hath]
  simp only
  rw [hs.size, if_neg (by omega), if_neg (by omega), if_pos (by omega)]
  exact ⟨_, rfl, rfl⟩

/-! ## One record -/

omit [Zlib] in
theorem decode_recordPayload {r : InternalRecord} (ht : r.type.isValid = true) :
    decodeRecordPayload (recordPayload r) r.seqNum r.type = .ok r := by
  have hk := r.key.size32_toNat
  have hv := r.value.size32_toNat
  have hlen : (recordPayload r).length = 8 + r.key.bytes.length + r.value.bytes.length := by
    simp [recordPayload]
    omega
  have h4 : (recordPayload r).drop 4 = u32Bytes r.value.size32 ++ (r.key.bytes ++ r.value.bytes) := by
    rw [recordPayload, List.drop_append_of_le_length (by simp), List.drop_eq_nil_of_le (by simp),
      List.nil_append]
  have h8 : (recordPayload r).drop 8 = r.key.bytes ++ r.value.bytes := by
    rw [show 8 = 4 + 4 from rfl, ← List.drop_drop, h4, List.drop_append_of_le_length (by simp),
      List.drop_eq_nil_of_le (by simp), List.nil_append]
  have hr0 : readU32Span (recordPayload r) 0 = .ok r.key.size32 := by
    rw [readU32Span, if_neg (by omega), List.drop_zero, recordPayload,
      List.take_append_of_le_length (by simp), List.take_of_length_le (by simp), u32Of_u32Bytes]
  have hr4 : readU32Span (recordPayload r) 4 = .ok r.value.size32 := by
    rw [readU32Span, if_neg (by omega), h4, List.take_append_of_le_length (by simp),
      List.take_of_length_le (by simp), u32Of_u32Bytes]
  have hkey : ArenaEntry.ofTake ((recordPayload r).drop 8) r.key.size32 = r.key := by
    apply ArenaEntry.ext_bytes
    show ((recordPayload r).drop 8).take r.key.size32.toNat = r.key.bytes
    rw [h8, hk, List.take_left]
  have hval : ArenaEntry.ofTake ((recordPayload r).drop (8 + r.key.size32.toNat)) r.value.size32 = r.value := by
    apply ArenaEntry.ext_bytes
    show ((recordPayload r).drop (8 + r.key.size32.toNat)).take r.value.size32.toNat = r.value.bytes
    rw [← List.drop_drop, h8, hk, hv, List.drop_left, List.take_length]
  rw [decodeRecordPayload, if_neg (by simp [ht]), hr0]
  simp only
  rw [hr4]
  simp only
  rw [if_neg (by rw [hk, hv, hlen]; exact fun h => h rfl), hkey, hval]

/-- The assembler when the bytes `acc` of `r` have been read. -/
def assembling (r : InternalRecord) (first : Bool) (acc : List UInt8) : LogicalRecordAssembler :=
  if first then .init else ⟨true, r.seqNum, r.type, acc⟩

theorem consume_more {r : InternalRecord} {first : Bool} {acc : List UInt8} (h1 : first = true → acc = [])
    (payload : List UInt8) :
    (assembling r first acc).consume (sealFragment (mkFragment r first false payload)) =
      .ok (none, assembling r false (acc ++ payload)) := by
  cases first with
  | true =>
    rw [h1 rfl]
    rfl
  | false => simp [assembling, LogicalRecordAssembler.consume, sealFragment, mkFragment, fragmentTypeOf]

theorem consume_last {r : InternalRecord} (ht : r.type.isValid = true) {first : Bool} {acc payload : List UInt8}
    (h1 : first = true → acc = []) (hp : acc ++ payload = recordPayload r) :
    (assembling r first acc).consume (sealFragment (mkFragment r first true payload)) =
      .ok (some r, .init) := by
  have hdec := decode_recordPayload ht
  rw [← hp] at hdec
  cases first with
  | true =>
    rw [h1 rfl, List.nil_append] at hdec
    simp [assembling, LogicalRecordAssembler.consume, sealFragment, mkFragment, fragmentTypeOf, hdec,
      LogicalRecordAssembler.init]
  | false =>
    simp [assembling, LogicalRecordAssembler.consume, sealFragment, mkFragment, fragmentTypeOf, hdec]

/-- The fragments stand in the file, one after the other from `off` on. -/
def FragsAt (b : List UInt8) : Nat → List Fragment → Prop
  | _, [] => True
  | off, f :: fs => At b (fragStart off) f.bytes ∧ FragsAt b (fragStart off + f.diskSize) fs

/-- The file ends inside one of the fragments; those before it stand in the file. -/
def FragsCut (b : List UInt8) : Nat → List Fragment → Prop
  | _, [] => False
  | off, f :: fs =>
    (At b (fragStart off) f.bytes ∧ FragsCut b (fragStart off + f.diskSize) fs) ∨
    (b.length < fragStart off + f.diskSize ∧ b.drop (fragStart off) <+: f.bytes)

/-- The result of a load that found the records `recs` and no corruption; with a torn
tail it returns the offset `good`. -/
def Recovered (header : WALFileHeader) (recs : List InternalRecord) (good : Nat)
    (res : Except Status WALLoader.LoadResult × Nat) : Prop :=
  ∃ torn message off, res = (.ok ⟨recs, some header, true, torn, false, message⟩, off) ∧
    (torn = true → off = good)

theorem loadLoop_stop (header : WALFileHeader) {s : WALLoader.State} (lf : Nat)
    (h : Fragment.load file s.offset = .ok (none, file.bytes.length) ∨
      ∃ e, Fragment.load file s.offset = .error e ∧ e.code = .unexpectedEOF) :
    Recovered header s.records s.lastGoodOffset (WALLoader.loadLoop file header (lf + 1) s) := by
  unfold WALLoader.loadLoop
  rcases h with h | ⟨e, h, hcode⟩
  · rw [h]
    cases hact : s.assembler.active with
    | true =>
      exact ⟨true, "WAL ended before the LAST fragment of a logical record", s.lastGoodOffset, rfl,
        fun _ => rfl⟩
    | false => exact ⟨false, "", file.bytes.length, rfl, fun h => by cases h⟩
  · refine ⟨true, e.message, s.lastGoodOffset, ?_, fun _ => rfl⟩
    rw [h]
    simp [isRecoverableTailError, hcode]

section Pieces

variable {r : InternalRecord} {first : Bool} {acc rest : List UInt8} {off : Nat}

/-- What one round of the writer leaves: a sealed fragment with room in its block. -/
theorem piece_spec (ht : r.type.isValid = true) (off : Nat) (first : Bool) (rest : List UInt8) :
    (sealFragment (mkFragment r first (pieceSize (fragStart off) rest.length == rest.length)
      (rest.take (pieceSize (fragStart off) rest.length)))).Sealed ∧
    (sealFragment (mkFragment r first (pieceSize (fragStart off) rest.length == rest.length)
      (rest.take (pieceSize (fragStart off) rest.length)))).diskSize =
        FragmentHeader.diskSize + pieceSize (fragStart off) rest.length := by
  have hplen : (rest.take (pieceSize (fragStart off) rest.length)).length =
      pieceSize (fragStart off) rest.length := by
    rw [List.length_take]
    exact Nat.min_eq_left (pieceSize_le _ _)
  exact ⟨sealFragment_sealed ht (hplen.trans_lt (pieceSize_lt off rest.length)) _ _,
    congrArg (FragmentHeader.diskSize + ·) hplen⟩

/-- The loop over the pieces of one record: it ends behind them with the record found. -/
theorem loadLoop_pieces (hf : file.Sound) (header : WALFileHeader) (ht : r.type.isValid = true)
    (good lf : Nat) (recs : List InternalRecord) (fuel : Nat) (hrest : rest ≠ []) (hfuel : rest.length ≤ fuel)
    (h1 : first = true → acc = []) (hp : acc ++ rest = recordPayload r)
    (hat : FragsAt file.bytes off (fragmentsOf r fuel off first rest)) :
    WALLoader.loadLoop file header (lf + (fragmentsOf r fuel off first rest).length)
        ⟨off, good, assembling r first acc, recs⟩ =
      WALLoader.loadLoop file header lf
        ⟨fragsEnd off (fragmentsOf r fuel off first rest), fragsEnd off (fragmentsOf r fuel off first rest),
          .init, recs ++ [r]⟩ := by
  -- induction along the writer's rounds; a round that takes all of `rest` is the last one
  induction fuel generalizing off first acc rest with
  | zero => exact absurd (List.eq_nil_of_length_eq_zero (by omega)) hrest
  | succ fuel ih =>
    have hpos : 0 < rest.length := List.length_pos_iff.mpr hrest
    have hn := pieceSize_pos off hpos
    have hle := pieceSize_le (fragStart off) rest.length
    obtain ⟨hsealed, hsize⟩ := piece_spec ht off first rest
    have hroom := pieceSize_room off rest.length
    simp only [fragmentsOf, hrest, if_false, FragsAt, fragsEnd, List.length_cons] at hat ⊢
    generalize hgn : pieceSize (fragStart off) rest.length = n at *
    obtain ⟨hat0, hat'⟩ := hat
    have hload := fragment_load_at hf hsealed (hsize ▸ hroom) hat0
    rw [hsize, ← Nat.add_assoc] at hload hat' ⊢
    rw [← Nat.add_assoc, WALLoader.loadLoop]
    simp only [hload]
    by_cases hlast : n = rest.length
    · -- the last piece: nothing is left for a further round
      have hdrop : rest.drop n = [] := List.drop_eq_nil_of_le (by omega)
      have hnone : fragmentsOf r fuel (fragStart off + FragmentHeader.diskSize + n) false (rest.drop n) = [] := by
        rw [hdrop]
        cases fuel <;> simp [fragmentsOf]
      have hwhole : acc ++ rest.take n = recordPayload r := by rw [List.take_of_length_le (by omega), hp]
      have hcons := consume_last ht h1 hwhole
      have hbeq : (n == rest.length) = true := by simpa using hlast
      rw [hnone, hbeq, hcons]
      rfl
    · have hbeq : (n == rest.length) = false := by simpa using hlast
      have hmore := consume_more (r := r) h1 (rest.take n)
      have hrest' : rest.drop n ≠ [] := by
        intro h0
        have := congrArg List.length h0
        rw [List.length_drop, List.length_nil] at this
        omega
      rw [hbeq, hmore]
      exact ih hrest' (by rw [List.length_drop]; omega) (fun h => by cases h)
        (by rw [List.append_assoc, List.take_append_drop, hp]) hat'

/-- The loop on a file that ends inside a record: the records before it. -/
theorem loadLoop_cut (hf : file.Sound) (header : WALFileHeader) (ht : r.type.isValid = true)
    (good lf : Nat) (recs : List InternalRecord) (fuel : Nat) (h1 : first = true → acc = [])
    (hoff : off ≤ file.bytes.length) (hlf : file.bytes.length < off + lf)
    (hcut : FragsCut file.bytes off (fragmentsOf r fuel off first rest)) :
    Recovered header recs good
      (WALLoader.loadLoop file header lf ⟨off, good, assembling r first acc, recs⟩) := by
  induction fuel generalizing off first acc rest lf with
  | zero => exact hcut.elim
  | succ fuel ih =>
    by_cases hrest : rest = []
    · simp [fragmentsOf, hrest, FragsCut] at hcut
    have hpos : 0 < rest.length := List.length_pos_iff.mpr hrest
    have hn := pieceSize_pos off hpos
    have hle := pieceSize_le (fragStart off) rest.length
    obtain ⟨hsealed, hsize⟩ := piece_spec ht off first rest
    have hroom := pieceSize_room off rest.length
    simp only [fragmentsOf, hrest, if_false, FragsCut] at hcut
    generalize hgn : pieceSize (fragStart off) rest.length = n at *
    obtain ⟨lf, rfl⟩ : ∃ k, lf = k + 1 := ⟨lf - 1, by omega⟩
    have hstart := le_fragStart off
    rcases hcut with ⟨hat0, hcut'⟩ | ⟨hlt, hpre⟩
    · have hload := fragment_load_at hf hsealed (hsize ▸ hroom) hat0
      have hend := hat0.end_le (by
        intro h0
        have := congrArg List.length h0
        rw [Fragment.length_bytes, hsize, List.length_nil] at this
        omega)
      rw [Fragment.length_bytes, hsize] at hend
      rw [hsize, ← Nat.add_assoc] at hload hcut'
      have hlast : n ≠ rest.length := by
        intro hlast
        have hdrop : rest.drop n = [] := List.drop_eq_nil_of_le (by omega)
        rw [hdrop] at hcut'
        cases fuel <;> simp [fragmentsOf, FragsCut] at hcut'
      have hbeq : (n == rest.length) = false := by simpa using hlast
      have hmore := consume_more (r := r) h1 (rest.take n)
      rw [WALLoader.loadLoop]
      simp only [hload]
      rw [hbeq, hmore]
      exact ih lf (fun h => by cases h) (by omega) (by omega) hcut'
    · have hstop := fragment_load_cut hf hsealed (hsize ▸ hroom) hoff hlt hpre
      exact loadLoop_stop header _ hstop

end Pieces

/-! ## The whole log -/

/-- The offset behind a record written at `off`. -/
def recordEnd (off : Nat) (r : InternalRecord) : Nat := fragsEnd off (recordFragments off r)

/-- The records stand in the file, one after the other from `off` to `off'`. -/
def LogAt (b : List UInt8) : Nat → List InternalRecord → Nat → Prop
  | off, [], off' => off = off'
  | off, r :: rs, off' =>
    r.type.isValid = true ∧ FragsAt b off (recordFragments off r) ∧ LogAt b (recordEnd off r) rs off'

/-- Behind `off` the file has only padding, or the beginning of a record. -/
def TailAt (b : List UInt8) (off : Nat) : Prop :=
  off ≤ b.length ∧ (b.length ≤ fragStart off ∨
    ∃ r : InternalRecord, r.type.isValid = true ∧ FragsCut b off (recordFragments off r))

omit [Zlib] in
theorem fragsAt_end_le {b : List UInt8} {fs : List Fragment} {off : Nat} (hne : fs ≠ [])
    (h : FragsAt b off fs) : fragsEnd off fs ≤ b.length := by
  induction fs generalizing off with
  | nil => exact absurd rfl hne
  | cons f fs ih =>
    obtain ⟨hat, hrest⟩ := h
    have hlen := f.length_bytes
    have hpos : f.diskSize = 22 + f.payload.length := rfl
    have hend := hat.end_le (by intro h0; rw [h0] at hlen; simp only [List.length_nil] at hlen; omega)
    cases fs with
    | nil =>
      simp only [fragsEnd]
      omega
    | cons g gs => exact ih (by simp) hrest

omit [Zlib] in
theorem recordPayload_ne_nil (r : InternalRecord) : recordPayload r ≠ [] := by
  intro h0
  have hlen := congrArg List.length h0
  simp [recordPayload] at hlen

theorem recordFragments_ne_nil (off : Nat) (r : InternalRecord) : recordFragments off r ≠ [] := by
  have hne := recordPayload_ne_nil r
  obtain ⟨n, hn⟩ : ∃ n, (recordPayload r).length = n + 1 :=
    ⟨_, (Nat.succ_pred_eq_of_pos (List.length_pos_iff.mpr hne)).symm⟩
  unfold recordFragments
  rw [hn, fragmentsOf, if_neg hne]
  simp

/-- The loop over one whole record. -/
theorem loadLoop_record (hf : file.Sound) (header : WALFileHeader) {r : InternalRecord}
    (ht : r.type.isValid = true) {off : Nat} (good lf : Nat) (recs : List InternalRecord)
    (hat : FragsAt file.bytes off (recordFragments off r)) :
    WALLoader.loadLoop file header (lf + (recordFragments off r).length) ⟨off, good, .init, recs⟩ =
      WALLoader.loadLoop file header lf ⟨recordEnd off r, recordEnd off r, .init, recs ++ [r]⟩ :=
  loadLoop_pieces hf header ht good lf recs _ (recordPayload_ne_nil r) (Nat.le_refl _) (fun _ => rfl)
    (List.nil_append _) hat

theorem loadLoop_log (hf : file.Sound) (header : WALFileHeader) {rs : List InternalRecord} {off off' : Nat}
    (hlog : LogAt file.bytes off rs off') (htail : TailAt file.bytes off') (hoff : off ≤ file.bytes.length)
    (recs : List InternalRecord) (fuel : Nat) (hfuel : file.bytes.length < off + fuel) :
    Recovered header (recs ++ rs) off' (WALLoader.loadLoop file header fuel ⟨off, off, .init, recs⟩) := by
  induction rs generalizing off recs fuel with
  | nil =>
    cases hlog
    rw [List.append_nil]
    obtain ⟨-, hpad | ⟨r, ht, hcut⟩⟩ := htail
    · obtain ⟨lf, rfl⟩ : ∃ k, fuel = k + 1 := ⟨fuel - 1, by omega⟩
      refine loadLoop_stop header _ (.inl ?_)
      rw [fragment_load_eq hf hoff, if_pos hpad]
    · exact loadLoop_cut hf header ht _ fuel recs _ (fun _ => rfl) hoff hfuel hcut
  | cons r rs ih =>
    obtain ⟨ht, hat, hlog'⟩ := hlog
    have hne := recordFragments_ne_nil off r
    have hend := fragsAt_end_le hne hat
    have hcount : off + 22 * (recordFragments off r).length ≤ fragsEnd off (recordFragments off r) :=
      fragsEnd_le (recordFragments off r) off
    obtain ⟨lf, rfl⟩ : ∃ k, fuel = k + (recordFragments off r).length :=
      ⟨fuel - (recordFragments off r).length, by omega⟩
    rw [loadLoop_record hf header ht off lf recs hat]
    have hnext := ih hlog' (show recordEnd off r ≤ file.bytes.length from hend) (recs ++ [r]) lf (by
      show file.bytes.length < fragsEnd off (recordFragments off r) + lf
      omega)
    rw [List.append_assoc] at hnext
    exact hnext

/-- A file with its header, whole records and at most the beginning of one more loads as
exactly the whole records, without corruption. -/
theorem load_log (hf : file.Sound) {walId : UInt32} {startSeq : UInt64} {rs : List InternalRecord} {off : Nat}
    (hhead : At file.bytes 0 (WALFileHeader.create walId startSeq).bytes)
    (hlog : LogAt file.bytes WALFileHeader.diskSize rs off) (htail : TailAt file.bytes off) :
    Recovered (WALFileHeader.create walId startSeq) rs off (WALLoader.load file walId) := by
  have hlen := (WALFileHeader.create walId startSeq).length_bytes
  have h40 : WALFileHeader.diskSize = 40 := rfl
  have hend := hhead.end_le (by
    intro h0
    rw [h0] at hlen
    simp only [List.length_nil] at hlen
    omega)
  rw [WALLoader.load, fileHeader_load_at hf hhead]
  exact loadLoop_log hf _ hlog htail (by omega) [] _ (by omega)

/-! ## Files made by the writer -/

section Written

variable {b : List UInt8} {off : Nat}

omit [Zlib] in
theorem fragment_bytes_ne_nil (f : Fragment) : f.bytes ≠ [] := by
  intro h0
  have hlen := f.length_bytes
  rw [h0] at hlen
  have : f.diskSize = 22 + f.payload.length := rfl
  simp only [List.length_nil] at hlen
  omega

omit [Zlib] in
theorem fragsAt_of_at {fs : List Fragment} (h : At b off (encodeFragments off fs)) : FragsAt b off fs := by
  induction fs generalizing off with
  | nil => trivial
  | cons f fs ih =>
    have hf := At.right h
    rw [length_padding] at hf
    have hrest := hf.right
    rw [Fragment.length_bytes] at hrest
    exact ⟨hf.left, ih hrest⟩

omit [Zlib] in
theorem fragsCut_of_prefix {fs : List Fragment} (hoff : off ≤ b.length)
    (hpre : b.drop off <+: encodeFragments off fs) (hlt : b.length < fragsEnd off fs) : FragsCut b off fs := by
  induction fs generalizing off with
  | nil =>
    simp only [fragsEnd] at hlt
    omega
  | cons f fs ih =>
    have hf : b.drop (fragStart off) <+: f.bytes ++ encodeFragments (fragStart off + f.diskSize) fs := by
      have h := List.IsPrefix.drop hpre (padding off (FragmentHeader.diskSize + 1) WAL_FILE_BLOCK_SIZE).length
      rw [List.drop_drop, encodeFragments, List.drop_left, length_padding] at h
      exact h
    by_cases hwhole : fragStart off + f.diskSize ≤ b.length
    · left
      have hat : At b (fragStart off) f.bytes := by
        refine List.prefix_of_prefix_length_le (List.prefix_append _ _) hf ?_
        rw [List.length_drop, Fragment.length_bytes]
        omega
      have hrest := List.IsPrefix.drop hf f.bytes.length
      rw [List.drop_drop, List.drop_left, Fragment.length_bytes] at hrest
      exact ⟨hat, ih hwhole hrest hlt⟩
    · right
      refine ⟨by omega, List.prefix_of_prefix_length_le hf (List.prefix_append _ _) ?_⟩
      rw [List.length_drop, Fragment.length_bytes]
      omega

theorem length_encodeRecord (off : Nat) (r : InternalRecord) :
    off + (encodeRecord off r).length = recordEnd off r :=
  length_encodeFragments _ off

omit [Zlib] in
theorem fragsAt_mono {fs : List Fragment} (c : List UInt8) (h : FragsAt b off fs) : FragsAt (b ++ c) off fs := by
  induction fs generalizing off with
  | nil => trivial
  | cons f fs ih => exact ⟨h.1.mono c (fragment_bytes_ne_nil f), ih h.2⟩

theorem logAt_mono {rs : List InternalRecord} {off' : Nat} (c : List UInt8) (h : LogAt b off rs off') :
    LogAt (b ++ c) off rs off' := by
  induction rs generalizing off with
  | nil => exact h
  | cons r rs ih => exact ⟨h.1, fragsAt_mono c h.2.1, ih h.2.2⟩

theorem logAt_snoc {rs : List InternalRecord} {off' : Nat} {r : InternalRecord} (h : LogAt b off rs off')
    (ht : r.type.isValid = true) (hat : FragsAt b off' (recordFragments off' r)) :
    LogAt b off (rs ++ [r]) (recordEnd off' r) := by
  induction rs generalizing off with
  | nil =>
    cases h
    exact ⟨ht, hat, rfl⟩
  | cons r' rs ih => exact ⟨h.1, h.2.1, ih h.2.2⟩

omit [Zlib] in
/-- What stands at the fragments' places depends on the offset only through the first of them. -/
theorem frags_congr {off' : Nat} (h : fragStart off = fragStart off') {fs : List Fragment} (hne : fs ≠ []) :
    (FragsAt b off fs ↔ FragsAt b off' fs) ∧ (FragsCut b off fs ↔ FragsCut b off' fs) ∧
      fragsEnd off fs = fragsEnd off' fs := by
  cases fs with
  | nil => exact absurd rfl hne
  | cons f fs => simp only [FragsAt, FragsCut, fragsEnd, h, and_self]

theorem recordFragments_congr {off' : Nat} (h : fragStart off = fragStart off') (r : InternalRecord) :
    recordFragments off r = recordFragments off' r :=
  fragmentsOf_congr h _ _ _

theorem recordEnd_congr {off' : Nat} (h : fragStart off = fragStart off') (r : InternalRecord) :
    recordEnd off r = recordEnd off' r := by
  unfold recordEnd
  rw [recordFragments_congr h r]
  exact (frags_congr (b := []) h (recordFragments_ne_nil off' r)).2.2

end Written

end Kvdb
