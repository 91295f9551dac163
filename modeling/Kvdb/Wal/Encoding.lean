import Kvdb.Wal.Log

/-!
# What the WAL writer puts into the file

The fragments of a record at an offset (`fragmentsOf`), their bytes in the file
(`encodeFragments`), and

    IsAppend (WALWriter.write r) fun off => encodeRecord off r          (write_isAppend)

so a write cut anywhere leaves a prefix of `encodeRecord off r`.  The pieces of
a record, put together again, are its payload (`payloads_fragmentsOf`).
-/

namespace Kvdb

open Faulty Bytes

variable [Zlib]

/-- Where a fragment that is to start at `off` does start. -/
def fragStart (off : Nat) : Nat :=
  off + padSize off (FragmentHeader.diskSize + 1) WAL_FILE_BLOCK_SIZE

/-- The fragment with its checksum. -/
def sealFragment (f : Fragment) : Fragment :=
  { f with header := { f.header with fragmentCrc32 := crc32Fields f.crcFields } }

/-- The payload bytes of a fragment that starts at `start`, of `len` bytes still to go. -/
def pieceSize (start len : Nat) : Nat :=
  min len (WAL_FILE_BLOCK_SIZE - start % WAL_FILE_BLOCK_SIZE - FragmentHeader.diskSize)

/-- The fragments of the rest of a record from `off` on. -/
def fragmentsOf (record : InternalRecord) : Nat → Nat → Bool → List UInt8 → List Fragment
  | 0, _, _, _ => []
  | fuel + 1, off, first, rest =>
    if rest = [] then []
    else
      let n := pieceSize (fragStart off) rest.length
      sealFragment (mkFragment record first (n == rest.length) (rest.take n)) ::
        fragmentsOf record fuel (fragStart off + FragmentHeader.diskSize + n) false (rest.drop n)

/-- The bytes of the fragments written from `off` on, with the padding before each. -/
def encodeFragments : Nat → List Fragment → List UInt8
  | _, [] => []
  | off, f :: fs =>
    padding off (FragmentHeader.diskSize + 1) WAL_FILE_BLOCK_SIZE ++
      (f.bytes ++ encodeFragments (fragStart off + f.diskSize) fs)

/-- The payload of a record whose type is valid. -/
def recordPayload (r : InternalRecord) : List UInt8 :=
  u32Bytes r.key.size32 ++ (u32Bytes r.value.size32 ++ (r.key.bytes ++ r.value.bytes))

/-- The fragments of a record written at `off`. -/
def recordFragments (off : Nat) (r : InternalRecord) : List Fragment :=
  fragmentsOf r (recordPayload r).length off true (recordPayload r)

/-- The bytes of a record written at `off`. -/
def encodeRecord (off : Nat) (r : InternalRecord) : List UInt8 := encodeFragments off (recordFragments off r)

/-! ## Room for a fragment -/

omit [Zlib] in
theorem fragStart_room (off : Nat) :
    FragmentHeader.diskSize + 1 ≤ WAL_FILE_BLOCK_SIZE - fragStart off % WAL_FILE_BLOCK_SIZE :=
  fits_after_padding (by decide)

omit [Zlib] in
theorem pieceSize_pos (off : Nat) {len : Nat} (h : 0 < len) : 0 < pieceSize (fragStart off) len := by
  have := fragStart_room off
  unfold pieceSize
  omega

omit [Zlib] in
theorem pieceSize_le (start len : Nat) : pieceSize start len ≤ len := by
  unfold pieceSize
  omega

omit [Zlib] in
theorem pieceSize_room (off len : Nat) :
    FragmentHeader.diskSize + pieceSize (fragStart off) len ≤
      WAL_FILE_BLOCK_SIZE - fragStart off % WAL_FILE_BLOCK_SIZE := by
  have := fragStart_room off
  unfold pieceSize
  omega

omit [Zlib] in
theorem pieceSize_lt (off len : Nat) : pieceSize (fragStart off) len < 2 ^ 32 := by
  have := pieceSize_room off len
  unfold WAL_FILE_BLOCK_SIZE at this
  omega

/-- A fragment that the loader accepts: its header names its size and its checksum. -/
structure Fragment.Sealed (f : Fragment) : Prop where
  headerSize : f.header.headerSize = UInt32.ofNat FragmentHeader.diskSize
  type : f.header.type.isValid = true
  size : f.header.fragmentSize.toNat = f.payload.length
  crc : f.header.fragmentCrc32 = crc32Fields f.crcFields

theorem Fragment.Sealed.computeCrc32 {f : Fragment} (h : f.Sealed) :
    f.computeCrc32 = .ok f.header.fragmentCrc32 := by
  simp [Fragment.computeCrc32, h.headerSize, h.type, h.size, h.crc]

theorem sealFragment_sealed {r : InternalRecord} {payload : List UInt8} (ht : r.type.isValid = true)
    (hlen : payload.length < 2 ^ 32) (first last : Bool) :
    (sealFragment (mkFragment r first last payload)).Sealed := by
  refine ⟨rfl, ht, ?_, rfl⟩
  show (UInt32.ofNat payload.length).toNat = payload.length
  rw [UInt32.toNat_ofNat']
  exact Nat.mod_eq_of_lt hlen

theorem mkFragment_computeCrc32 {r : InternalRecord} {payload : List UInt8} (ht : r.type.isValid = true)
    (hlen : payload.length < 2 ^ 32) (first last : Bool) :
    (mkFragment r first last payload).computeCrc32 =
      .ok (crc32Fields (mkFragment r first last payload).crcFields) := by
  have hs := sealFragment_sealed ht hlen first last
  have htype : (mkFragment r first last payload).header.type.isValid = true := hs.type
  have hsize : (mkFragment r first last payload).header.fragmentSize.toNat =
      (mkFragment r first last payload).payload.length := hs.size
  rw [Fragment.computeCrc32, if_neg (by simp [mkFragment]), if_neg (by simp [htype]),
    if_neg (by simp [hsize])]

/-! ## The writers are appends -/

omit [Zlib] in
theorem checkWalOffset_apply {w : Writer Status} (h : w.Synced) : checkWalOffset w = (.ok (), w) := by
  rw [checkWalOffset, bind_ok (get_apply w), ensure_apply]
  simp [h.symm]

omit [Zlib] in
theorem checkWalOffset_fitting : AppendsFitting WAL_FILE_BLOCK_SIZE checkWalOffset [] :=
  fun _ hw _ => checkWalOffset_apply hw

omit [Zlib] in
theorem fragmentHeader_write_fitting {h : FragmentHeader}
    (hs : h.headerSize = UInt32.ofNat FragmentHeader.diskSize) (ht : h.type.isValid = true) :
    AppendsFitting WAL_FILE_BLOCK_SIZE h.write h.bytes := by
  have hb : 0 < WAL_FILE_BLOCK_SIZE := by decide
  have field : ∀ {d : List UInt8}, d.length ≠ 0 →
      AppendsFitting WAL_FILE_BLOCK_SIZE (writeField d WAL_FILE_BLOCK_SIZE) d := by
    intro d hd
    exact writeField_fitting hb fun h0 => hd (by rw [h0]; rfl)
  have hfields := (field (d := u32Bytes h.fragmentCrc32) (by simp)).bind
    ((field (d := u32Bytes h.headerSize) (by simp)).bind
    ((field (d := u8Bytes h.fragmentType.toU8) (by simp)).bind
    ((field (d := u8Bytes h.type.toU8) (by simp)).bind
    ((field (d := u64Bytes h.seqNum) (by simp)).bind (field (d := u32Bytes h.fragmentSize) (by simp))))))
  have hlen := h.length_bytes
  exact .guard (by simp [hs]) (.guard ht (checkWalOffset_fitting.then
    (.ensureFits hb (Nat.le_of_eq hlen.symm) hfields)))

omit [Zlib] in
theorem writePayload_fitting (payload : List UInt8) :
    AppendsFitting WAL_FILE_BLOCK_SIZE (Fragment.writePayload payload) payload := by
  have hb : 0 < WAL_FILE_BLOCK_SIZE := by decide
  refine checkWalOffset_fitting.then (.ensureFits hb (Nat.le_refl _) ?_)
  split
  · next h0 =>
    subst h0
    exact fun _ _ _ => rfl
  · next h0 => exact writeField_fitting hb h0

theorem fragment_write_fitting {f : Fragment} (hf : f.Sealed) (hroom : f.diskSize ≤ WAL_FILE_BLOCK_SIZE) :
    AppendsFitting WAL_FILE_BLOCK_SIZE f.write f.bytes := by
  have hb : 0 < WAL_FILE_BLOCK_SIZE := by decide
  have hlen := f.length_bytes
  have h := (fragmentHeader_write_fitting hf.headerSize hf.type).bind
    ((writePayload_fitting f.payload).bind checkWalOffset_fitting)
  rw [List.append_nil] at h
  exact .guard (by simp [hf.size]) (.guard (by simpa using hroom)
    (checkWalOffset_fitting.then (.ensureFits hb (Nat.le_of_eq hlen.symm) h)))

theorem writePayloadLoop_isAppend {r : InternalRecord} (ht : r.type.isValid = true) (fuel : Nat) :
    ∀ (first : Bool) (rest : List UInt8), IsAppend (WALWriter.writePayloadLoop r fuel first rest)
      fun off => encodeFragments off (fragmentsOf r fuel off first rest) := by
  -- one round per fragment: padding, the fragment, and the loop again behind it
  induction fuel with
  | zero => exact fun _ _ => isAppend_pure
  | succ fuel ih =>
    intro first rest w hw
    rw [WALWriter.writePayloadLoop]
    by_cases hr : rest = []
    · simp [hr, fragmentsOf, encodeFragments]
    have hb : 0 < WAL_FILE_BLOCK_SIZE := by decide
    have hpos : 0 < rest.length := List.length_pos_iff.mpr hr
    have hpad := ensureFitsInBlock_isAppend hb
      (show FragmentHeader.diskSize + 1 ≤ WAL_FILE_BLOCK_SIZE by decide) w hw
    rw [if_neg hr, bind_ok (checkWalOffset_apply hw)]
    simp only [fragmentsOf, hr, if_false, encodeFragments]
    refine (bind_congr_append hpad hw fun w' hw' ho => ?_).trans (append_append _ _ w)
    rw [length_padding] at ho
    have ho : w'.offset = fragStart w.offset := ho
    have hroom := fragStart_room w.offset
    have hpiece := pieceSize_room w.offset rest.length
    have hplen : (rest.take (pieceSize (fragStart w.offset) rest.length)).length =
        pieceSize (fragStart w.offset) rest.length := by
      rw [List.length_take]
      exact Nat.min_eq_left (pieceSize_le _ _)
    have hlt32 := hplen.trans_lt (pieceSize_lt w.offset rest.length)
    generalize hn : pieceSize (fragStart w.offset) rest.length = n at hpiece hplen hlt32 ⊢
    have hcrc := mkFragment_computeCrc32 ht hlt32 first (n == rest.length)
    have hsealed := sealFragment_sealed ht hlt32 first (n == rest.length)
    generalize hf : mkFragment r first (n == rest.length) (rest.take n) = f at hsealed hcrc ⊢
    have hfsize : (sealFragment f).diskSize = FragmentHeader.diskSize + n := by
      subst hf
      exact congrArg (FragmentHeader.diskSize + ·) hplen
    have hwrite := fragment_write_fitting hsealed (by omega) w' hw'
      (.inr (by rw [Fragment.length_bytes, hfsize, ho]; exact hpiece))
    rw [bind_ok (get_apply w')]
    simp only [ho]
    rw [bind_ok (by rw [ensure_apply, if_pos (by simp; omega)]),
      bind_ok (by rw [ensure_apply, if_pos (by simp; omega)])]
    have hmin : min rest.length (WAL_FILE_BLOCK_SIZE - fragStart w.offset % WAL_FILE_BLOCK_SIZE -
        FragmentHeader.diskSize) = n := hn
    rw [hmin, hf, hcrc]
    refine (bind_congr_append hwrite hw' fun w'' hw'' ho'' => ?_).trans (append_append _ _ w')
    rw [bind_ok (checkWalOffset_apply hw''), ih false _ w'' hw'', ho'', Fragment.length_bytes, hfsize, ho,
      Nat.add_assoc]

omit [Zlib] in
theorem encodeRecordPayload_ok {r : InternalRecord} (ht : r.type.isValid = true) :
    encodeRecordPayload r = .ok (recordPayload r) := by
  simp [encodeRecordPayload, ht, recordPayload]

/-- A write appends the encoding of its record, whatever fault cuts it. -/
theorem write_isAppend {r : InternalRecord} (ht : r.type.isValid = true) :
    IsAppend (WALWriter.write r) fun off => encodeRecord off r := by
  intro w hw
  have hne : (!(recordPayload r).isEmpty) = true := by
    have hlen : (recordPayload r).length ≠ 0 := by simp [recordPayload]
    cases hp : recordPayload r with
    | nil => simp [hp] at hlen
    | cons => rfl
  rw [WALWriter.write, bind_ok (checkWalOffset_apply hw), encodeRecordPayload_ok ht,
    bind_ok (lift_ok _ w), WALWriter.writePayload,
    bind_ok (by rw [ensure_apply, if_pos hne]), writePayloadLoop_isAppend ht _ _ _ w hw]
  rfl

/-- A write of a record with an invalid type is refused before anything is appended. -/
theorem write_invalid {r : InternalRecord} (ht : r.type.isValid = false) {w : Writer Status} (hw : w.Synced) :
    WALWriter.write r w =
      (.err ⟨.invalidArgument, "cannot append a WAL record with an invalid record type"⟩, w) := by
  rw [WALWriter.write, bind_ok (checkWalOffset_apply hw)]
  simp [encodeRecordPayload, ht, bind_apply]

/-! ## The file header -/

/-- The header's bytes in the file. -/
def WALFileHeader.bytes (h : WALFileHeader) : List UInt8 :=
  u32Bytes h.magic ++ (u32Bytes h.version ++ (u32Bytes h.headerSize ++ (u64Bytes h.walId ++
    (u64Bytes h.startSeq ++ (u32Bytes h.blockSize ++ (u32Bytes h.reserved ++ u32Bytes h.headerCrc32))))))

omit [Zlib] in
theorem WALFileHeader.length_bytes (h : WALFileHeader) : h.bytes.length = WALFileHeader.diskSize := by
  simp [WALFileHeader.bytes, WALFileHeader.diskSize]

theorem WALFileHeader.create_selfCheck (walId : UInt32) (startSeq : UInt64) :
    (WALFileHeader.create walId startSeq).selfCheck = true := by
  simp [WALFileHeader.create, WALFileHeader.selfCheck, WALFileHeader.computeCrc32, WALFileHeader.fields]

theorem fileHeader_write_fitting {h : WALFileHeader} (hs : h.selfCheck = true) :
    AppendsFitting WAL_FILE_BLOCK_SIZE h.write h.bytes := by
  have hb : 0 < WAL_FILE_BLOCK_SIZE := by decide
  have field : ∀ {d : List UInt8}, d.length ≠ 0 →
      AppendsFitting WAL_FILE_BLOCK_SIZE (writeField d WAL_FILE_BLOCK_SIZE) d := by
    intro d hd
    exact writeField_fitting hb fun h0 => hd (by rw [h0]; rfl)
  have hfields := (field (d := u32Bytes h.magic) (by simp)).bind
    ((field (d := u32Bytes h.version) (by simp)).bind ((field (d := u32Bytes h.headerSize) (by simp)).bind
    ((field (d := u64Bytes h.walId) (by simp)).bind ((field (d := u64Bytes h.startSeq) (by simp)).bind
    ((field (d := u32Bytes h.blockSize) (by simp)).bind ((field (d := u32Bytes h.reserved) (by simp)).bind
    ((field (d := u32Bytes h.headerCrc32) (by simp)).bind checkWalOffset_fitting)))))))
  rw [List.append_nil] at hfields
  have hlen := h.length_bytes
  exact .guard hs (checkWalOffset_fitting.then (.ensureFits hb (Nat.le_of_eq hlen.symm) hfields))

/-- On an empty file `create` appends the header. -/
theorem create_apply (walId : UInt32) (startSeq : UInt64) {w : Writer Status} (hw : w.Synced)
    (h0 : w.offset = 0) :
    WALWriter.create walId startSeq w = append (WALFileHeader.create walId startSeq).bytes w := by
  refine fileHeader_write_fitting (WALFileHeader.create_selfCheck walId startSeq) w hw (.inr ?_)
  rw [h0, WALFileHeader.length_bytes]
  decide

/-! ## Offsets and lengths -/

/-- The offset behind the fragments written from `off` on. -/
def fragsEnd : Nat → List Fragment → Nat
  | off, [] => off
  | off, f :: fs => fragsEnd (fragStart off + f.diskSize) fs

omit [Zlib] in
theorem length_encodeFragments (fs : List Fragment) (off : Nat) :
    off + (encodeFragments off fs).length = fragsEnd off fs := by
  induction fs generalizing off with
  | nil => rfl
  | cons f fs ih =>
    rw [fragsEnd, ← ih]
    simp only [encodeFragments, List.length_append, length_padding, Fragment.length_bytes, fragStart]
    omega

omit [Zlib] in
theorem fragsEnd_le (fs : List Fragment) (off : Nat) :
    off + FragmentHeader.diskSize * fs.length ≤ fragsEnd off fs := by
  induction fs generalizing off with
  | nil => exact Nat.le_refl off
  | cons f fs ih =>
    have h := ih (fragStart off + f.diskSize)
    rw [fragsEnd, List.length_cons]
    simp only [fragStart, Fragment.diskSize, FragmentHeader.diskSize] at h ⊢
    omega

/-- The fragments depend on the offset only through where the first one starts. -/
theorem fragmentsOf_congr {r : InternalRecord} {off off' : Nat} (h : fragStart off = fragStart off')
    (fuel : Nat) (first : Bool) (rest : List UInt8) :
    fragmentsOf r fuel off first rest = fragmentsOf r fuel off' first rest := by
  cases fuel with
  | zero => rfl
  | succ fuel => simp only [fragmentsOf, h]

omit [Zlib] in
theorem padSize_header (off : Nat) : padSize off (FragmentHeader.diskSize + 1) WAL_FILE_BLOCK_SIZE =
    if 23 ≤ 4096 - off % 4096 then 0 else 4096 - off % 4096 := by
  simp [padSize, FragmentHeader.diskSize, WAL_FILE_BLOCK_SIZE]

omit [Zlib] in
/-- Padding that is already in the file does not move the next fragment. -/
theorem fragStart_of_padded {off k : Nat}
    (hk : k ≤ padSize off (FragmentHeader.diskSize + 1) WAL_FILE_BLOCK_SIZE) :
    fragStart (off + k) = fragStart off := by
  rw [padSize_header] at hk
  rw [fragStart, fragStart, padSize_header, padSize_header]
  split at hk
  · have hk0 : k = 0 := by omega
    subst hk0
    rfl
  · next hn =>
    rw [if_neg hn]
    by_cases hfull : k = 4096 - off % 4096
    · have hmod : (off + k) % 4096 = 0 := by omega
      rw [if_pos (by omega)]
      omega
    · have hmod : (off + k) % 4096 = off % 4096 + k := by omega
      rw [if_neg (by omega)]
      omega

omit [Zlib] in
theorem le_fragStart (off : Nat) : off ≤ fragStart off := Nat.le_add_right _ _

end Kvdb
