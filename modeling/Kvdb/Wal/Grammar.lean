import Kvdb.Wal.Streaming

/-!
# The grammar of a log

What `WALLoader::load` accepts, said without the loader.  At an offset one sees a whole
fragment, or the end of the file, or a fragment that is cut off, or bytes that are no
fragment (`Seen`).  A logical record is one FULL fragment, or FIRST MIDDLE* LAST of one
sequence number and type (`Whole`), whose joined payload encodes a record (`Encodes`).

Reading on from an offset stops with a record, at the end, torn, or corrupt (`Stops`);
there is one way only (`stops_unique`).  The loader returns the records of the longest
prefix that is a sequence of logical records, and the verdict is the one with which
reading on from there stops (`load_grammar`).
-/

namespace Kvdb.WALGrammar

open Faulty Bytes

/-! ## Fragments in a file -/

/-- A valid header stands at `start`. -/
structure HeaderAt (b : List UInt8) (start : Nat) (h : FragmentHeader) : Prop where
  headerSize : h.headerSize = UInt32.ofNat FragmentHeader.diskSize
  type : h.type.isValid = true
  bytes : At b start h.bytes

/-- So many bytes from `start` on lie in one block. -/
def InBlock (start size : Nat) : Prop := start % WAL_FILE_BLOCK_SIZE + size ≤ WAL_FILE_BLOCK_SIZE

/-- Header and payload stand at `start`, the payload inside the block. -/
structure FieldsAt (b : List UInt8) (start : Nat) (f : Fragment) : Prop where
  header : HeaderAt b start f.header
  size : f.header.fragmentSize.toNat = f.payload.length
  inBlock : InBlock start f.diskSize
  bytes : At b start f.bytes

section

variable [Zlib]

/-- What is seen where a fragment is to start at `off`. -/
inductive Sight where
  | nothing
  | cut
  | broken
  | fragment (f : Fragment)

/-- Behind the padding that `fragStart` skips the file has ended, or ends inside a header or a payload; or there are 22
bytes that are no valid header, or a payload that would cross its block, or one with another checksum; or a fragment. -/
inductive Seen (b : List UInt8) (off : Nat) : Sight → Prop where
  | nothing (h : b.length ≤ fragStart off) : Seen b off .nothing
  | headerCut (h : fragStart off < b.length) (hcut : b.length < fragStart off + FragmentHeader.diskSize) :
      Seen b off .cut
  | invalidHeader (h : fragStart off + FragmentHeader.diskSize ≤ b.length)
      (hinvalid : ∀ header, ¬HeaderAt b (fragStart off) header) : Seen b off .broken
  | crossesBlock {header : FragmentHeader} (h : HeaderAt b (fragStart off) header)
      (hcross : ¬InBlock (fragStart off) (FragmentHeader.diskSize + header.fragmentSize.toNat)) : Seen b off .broken
  | payloadCut {header : FragmentHeader} (h : HeaderAt b (fragStart off) header)
      (hin : InBlock (fragStart off) (FragmentHeader.diskSize + header.fragmentSize.toNat))
      (hcut : b.length < fragStart off + (FragmentHeader.diskSize + header.fragmentSize.toNat)) : Seen b off .cut
  | badChecksum {f : Fragment} (h : FieldsAt b (fragStart off) f)
      (hcrc : f.header.fragmentCrc32 ≠ crc32Fields f.crcFields) : Seen b off .broken
  | fragment {f : Fragment} (h : FieldsAt b (fragStart off) f)
      (hcrc : f.header.fragmentCrc32 = crc32Fields f.crcFields) : Seen b off (.fragment f)

/-- Whole fragments one after the other from `off` on. -/
inductive FragmentsAt (b : List UInt8) : Nat → List Fragment → Prop where
  | nil (off : Nat) : FragmentsAt b off []
  | cons {off : Nat} {f : Fragment} {fs : List Fragment} (h : Seen b off (.fragment f))
      (hrest : FragmentsAt b (fragStart off + f.diskSize) fs) : FragmentsAt b off (f :: fs)

end

/-! ## Logical records -/

/-- Two fragments name the same sequence number and type. -/
def SameRecord (f g : Fragment) : Prop := g.header.seqNum = f.header.seqNum ∧ g.header.type = f.header.type

/-- The fragments of one logical record. -/
inductive Whole : List Fragment → Prop where
  | full {f : Fragment} (h : f.header.fragmentType = .full) : Whole [f]
  | chain {f l : Fragment} {ms : List Fragment} (hf : f.header.fragmentType = .first)
      (hms : ∀ m ∈ ms, m.header.fragmentType = .middle ∧ SameRecord f m) (hl : l.header.fragmentType = .last)
      (hsame : SameRecord f l) : Whole (f :: (ms ++ [l]))

/-- Fragments that begin a logical record, or none. -/
inductive Open : List Fragment → Prop where
  | nil : Open []
  | chain {f : Fragment} {ms : List Fragment} (hf : f.header.fragmentType = .first)
      (hms : ∀ m ∈ ms, m.header.fragmentType = .middle ∧ SameRecord f m) : Open (f :: ms)

/-- The fragment cannot follow those of an open record: it begins a record inside another one, or continues one that
was not begun or another one. -/
inductive Violates : List Fragment → Fragment → Prop where
  | inside {g f : Fragment} {fs : List Fragment} (h : f.header.fragmentType = .full ∨
    f.header.fragmentType = .first) :
      Violates (g :: fs) f
  | unbegun {f : Fragment} (h : f.header.fragmentType = .middle ∨ f.header.fragmentType = .last) : Violates [] f
  | changed {g f : Fragment} {fs : List Fragment}
      (h : f.header.fragmentType = .middle ∨ f.header.fragmentType = .last) (hsame : ¬SameRecord g f) :
      Violates (g :: fs) f

def joined (fs : List Fragment) : List UInt8 := fs.flatMap (·.payload)

/-- The joined payload is the lengths of key and value, the key and the value; every fragment has the record's sequence
number and type. -/
structure Encodes (fs : List Fragment) (r : InternalRecord) : Prop where
  payload : joined fs = recordPayload r
  headers : ∀ f ∈ fs, f.header.seqNum = r.seqNum ∧ f.header.type = r.type

section

variable [Zlib]

/-- The bytes from the first offset to the second one are a sequence of logical records. -/
inductive Log (b : List UInt8) : Nat → List InternalRecord → Nat → Prop where
  | nil (off : Nat) : Log b off [] off
  | cons {off off' : Nat} {fs : List Fragment} {r : InternalRecord} {rs : List InternalRecord}
      (hfs : FragmentsAt b off fs) (hwhole : Whole fs) (henc : Encodes fs r) (hrest : Log b (fragsEnd off fs) rs off') :
      Log b off (r :: rs) off'

/-! ## How reading on stops -/

inductive Verdict where
  | record (r : InternalRecord) (off : Nat)
  | ended
  | torn
  | corrupt

/-- With the fragments `fs` of an open record, `off` on, reading stops at what is seen behind them. -/
inductive Ends (off : Nat) (fs : List Fragment) : Sight → Verdict → Prop where
  | ended (hfs : fs = []) : Ends off fs .nothing .ended
  | boundary (hfs : fs ≠ []) : Ends off fs .nothing .torn
  | cut : Ends off fs .cut .torn
  | broken : Ends off fs .broken .corrupt
  | violation {f : Fragment} (hv : Violates fs f) : Ends off fs (.fragment f) .corrupt
  | lengths {f : Fragment} (hwhole : Whole (fs ++ [f])) (henc : ∀ r, ¬Encodes (fs ++ [f]) r) :
      Ends off fs (.fragment f) .corrupt
  | record {f : Fragment} {r : InternalRecord} (hwhole : Whole (fs ++ [f])) (henc : Encodes (fs ++ [f]) r) :
      Ends off fs (.fragment f) (.record r (fragsEnd off (fs ++ [f])))

/-- From `off` on there are the fragments of an open record, and reading stops at what is seen behind them. -/
def Stops (b : List UInt8) (off : Nat) (v : Verdict) : Prop :=
  ∃ fs s, FragmentsAt b off fs ∧ Open fs ∧ Seen b (fragsEnd off fs) s ∧ Ends off fs s v

end

/-! ## One thing is seen -/

section

variable {b : List UInt8} {off start : Nat}

theorem HeaderAt.unique {h h' : FragmentHeader} (ha : HeaderAt b (fragStart off) h)
    (hb : HeaderAt b (fragStart off) h') :
    h = h' := by
  have hf := ReadableFile.ofBytes_sound b ""
  have hload := fragmentHeader_load_at hf ha.headerSize ha.type ha.bytes
  have hload' := fragmentHeader_load_at hf hb.headerSize hb.type hb.bytes
  rw [hload] at hload'
  cases hload'
  rfl

theorem HeaderAt.end_le {h : FragmentHeader} (ha : HeaderAt b start h) :
    start + FragmentHeader.diskSize ≤ b.length := by
  have hlen := h.length_bytes
  have hne : h.bytes ≠ [] := List.ne_nil_of_length_pos (by rw [hlen]; decide)
  have hle := ha.bytes.end_le hne
  omega

theorem FieldsAt.end_le {f : Fragment} (hf : FieldsAt b start f) : start + f.diskSize ≤ b.length := by
  have hlen := f.length_bytes
  have hsize : f.diskSize = 22 + f.payload.length := rfl
  have hne : f.bytes ≠ [] := List.ne_nil_of_length_pos (by omega)
  have hle := hf.bytes.end_le hne
  omega

theorem FieldsAt.diskSize {f : Fragment} (hf : FieldsAt b start f) :
    f.diskSize = FragmentHeader.diskSize + f.header.fragmentSize.toNat := by
  rw [hf.size]
  rfl

theorem FieldsAt.unique {f g : Fragment} (hf : FieldsAt b (fragStart off) f) (hg : FieldsAt b (fragStart off) g) :
    f = g := by
  have hheader : f.header = g.header := hf.header.unique hg.header
  have hlen : f.payload.length = g.payload.length := by rw [← hf.size, ← hg.size, hheader]
  have hatf := hf.bytes.right
  have hatg := hg.bytes.right
  rw [FragmentHeader.length_bytes] at hatf hatg
  have hpayload : f.payload = g.payload :=
    (List.prefix_of_prefix_length_le hatf hatg hlen.le).eq_of_length hlen
  cases f
  cases g
  cases hheader
  cases hpayload
  rfl

variable [Zlib]

theorem seen_unique {s s' : Sight} (h : Seen b off s) (h' : Seen b off s') : s = s' := by
  have hpos : FragmentHeader.diskSize = 22 := rfl
  cases h with
  | nothing h =>
    cases h' with
    | nothing _ => rfl
    | headerCut h₁ _ => omega
    | invalidHeader h₁ _ => omega
    | crossesBlock h₁ _ =>
      have hle := h₁.end_le
      omega
    | payloadCut h₁ _ _ =>
      have hle := h₁.end_le
      omega
    | badChecksum h₁ _ =>
      have hle := h₁.header.end_le
      omega
    | fragment h₁ _ =>
      have hle := h₁.header.end_le
      omega
  | headerCut h hcut =>
    cases h' with
    | nothing h₁ => omega
    | headerCut _ _ => rfl
    | invalidHeader h₁ _ => omega
    | crossesBlock h₁ _ =>
      have hle := h₁.end_le
      omega
    | payloadCut _ _ _ => rfl
    | badChecksum h₁ _ =>
      have hle := h₁.header.end_le
      omega
    | fragment h₁ _ =>
      have hle := h₁.header.end_le
      omega
  | invalidHeader h hinvalid =>
    cases h' with
    | nothing h₁ => omega
    | headerCut _ h₁ => omega
    | invalidHeader _ _ => rfl
    | crossesBlock _ _ => rfl
    | payloadCut h₁ _ _ => exact absurd h₁ (hinvalid _)
    | badChecksum _ _ => rfl
    | fragment h₁ _ => exact absurd h₁.header (hinvalid _)
  | @crossesBlock header h hcross =>
    cases h' with
    | nothing h₁ =>
      have hle := h.end_le
      omega
    | headerCut _ h₁ =>
      have hle := h.end_le
      omega
    | invalidHeader _ _ => rfl
    | crossesBlock _ _ => rfl
    | payloadCut h₁ hin _ =>
      cases h.unique h₁
      exact absurd hin hcross
    | badChecksum _ _ => rfl
    | fragment h₁ _ =>
      have hin := h₁.inBlock
      rw [h₁.diskSize, ← h.unique h₁.header] at hin
      exact absurd hin hcross
  | payloadCut h hin hcut =>
    cases h' with
    | nothing h₁ =>
      have hle := h.end_le
      omega
    | headerCut _ _ => rfl
    | invalidHeader _ hinvalid => exact absurd h (hinvalid _)
    | crossesBlock h₁ hcross =>
      cases h.unique h₁
      exact absurd hin hcross
    | payloadCut _ _ _ => rfl
    | badChecksum h₁ _ =>
      have hle := h₁.end_le
      rw [h₁.diskSize, ← h.unique h₁.header] at hle
      omega
    | fragment h₁ _ =>
      have hle := h₁.end_le
      rw [h₁.diskSize, ← h.unique h₁.header] at hle
      omega
  | @badChecksum f h hcrc =>
    cases h' with
    | nothing h₁ =>
      have hle := h.header.end_le
      omega
    | headerCut _ h₁ =>
      have hle := h.header.end_le
      omega
    | invalidHeader _ _ => rfl
    | crossesBlock _ _ => rfl
    | payloadCut h₁ _ hcut =>
      have hle := h.end_le
      rw [h.diskSize, h.header.unique h₁] at hle
      omega
    | badChecksum _ _ => rfl
    | fragment h₁ hcrc₁ =>
      cases h.unique h₁
      exact absurd hcrc₁ hcrc
  | @fragment f h hcrc =>
    cases h' with
    | nothing h₁ =>
      have hle := h.header.end_le
      omega
    | headerCut _ h₁ =>
      have hle := h.header.end_le
      omega
    | invalidHeader _ hinvalid => exact absurd h.header (hinvalid _)
    | crossesBlock h₁ hcross =>
      have hin := h.inBlock
      rw [h.diskSize, h.header.unique h₁] at hin
      exact absurd hin hcross
    | payloadCut h₁ _ hcut =>
      have hle := h.end_le
      rw [h.diskSize, h.header.unique h₁] at hle
      omega
    | badChecksum h₁ hcrc₁ =>
      cases h.unique h₁
      exact absurd hcrc hcrc₁
    | fragment h₁ _ =>
      cases h.unique h₁
      rfl

end

/-! ## The loader sees it -/

section

variable {file : ReadableFile} {off start : Nat}

theorem readField_inside (hf : file.Sound) {size blockSize : Nat} (hpos : 0 < size)
    (hfit : size ≤ blockSize - off % blockSize) (hin : off + size ≤ file.bytes.length) :
    ∃ d, readField size blockSize file off = .ok (d, off + size) := by
  have hens := ensureFitsInBlockRead_apply (show 0 < blockSize by omega) (show size ≤ blockSize by omega) file off
  rw [padSize_of_fits hfit, Nat.add_zero] at hens
  refine ⟨(file.bytes.drop off).take size, ?_⟩
  rw [readField, Reader.ensure_bind (by simp; omega), Reader.bind_ok hens, readExactAt, if_neg (by omega), hf.fault]
  simp only [readAt, if_pos hin]

/-- The fields of a header that the file holds are read, valid or not. -/
theorem fields_read (hf : file.Sound) (hroom : start % WAL_FILE_BLOCK_SIZE + 23 ≤ WAL_FILE_BLOCK_SIZE)
    (hin : start + 22 ≤ file.bytes.length) : ∃ crc headerSize ft t seqNum size,
      FragmentHeader.load file start = (do
        Reader.ensure (headerSize == UInt32.ofNat FragmentHeader.diskSize)
          ⟨.invalidHeader, "WAL fragment header_size is invalid"⟩
        match FragmentType.ofU8 ft with
        | none => Reader.fail ⟨.invalidBlockType, "WAL fragment type is invalid"⟩
        | some ft =>
          match RecType.ofU8 t with
          | none => Reader.fail ⟨.corruption, "WAL fragment contains an invalid record type"⟩
          | some t => pure ⟨crc, headerSize, ft, t, seqNum, size⟩ : FileReader FragmentHeader) file (start + 22) ∧
      At file.bytes start (u32Bytes crc ++ (u32Bytes headerSize ++ (u8Bytes ft ++ (u8Bytes t ++ (u64Bytes seqNum ++
        u32Bytes size))))) := by
  have hblock : WAL_FILE_BLOCK_SIZE = 4096 := rfl
  have hmod : ∀ k, k ≤ 22 → (start + k) % WAL_FILE_BLOCK_SIZE = start % WAL_FILE_BLOCK_SIZE + k := by
    intro k hk
    rw [hblock] at hroom ⊢
    omega
  have hens := ensureFitsInBlockRead_apply (show 0 < WAL_FILE_BLOCK_SIZE by decide)
    (show FragmentHeader.diskSize ≤ WAL_FILE_BLOCK_SIZE by decide) file start
  have hheader : FragmentHeader.diskSize ≤ WAL_FILE_BLOCK_SIZE - start % WAL_FILE_BLOCK_SIZE := by
    show 22 ≤ _
    omega
  rw [padSize_of_fits hheader, Nat.add_zero] at hens
  have h32 : ∀ k, k + 4 ≤ 22 → ∃ x, readU32Le WAL_FILE_BLOCK_SIZE file (start + k) =
      .ok (x, start + k + 4) := by
    intro k hk
    have hfit : 4 ≤ WAL_FILE_BLOCK_SIZE - (start + k) % WAL_FILE_BLOCK_SIZE := by
      rw [hmod k (by omega)]
      omega
    obtain ⟨d, hd⟩ := readField_inside hf (by omega) hfit (by omega)
    exact ⟨u32Of d, Reader.bind_ok hd⟩
  have h8 : ∀ k, k + 1 ≤ 22 → ∃ x, readU8 WAL_FILE_BLOCK_SIZE file (start + k) = .ok (x, start + k + 1) := by
    intro k hk
    have hfit : 1 ≤ WAL_FILE_BLOCK_SIZE - (start + k) % WAL_FILE_BLOCK_SIZE := by
      rw [hmod k (by omega)]
      omega
    obtain ⟨d, hd⟩ := readField_inside hf (by omega) hfit (by omega)
    exact ⟨u8Of d, Reader.bind_ok hd⟩
  have h64 : ∃ x, readU64Le WAL_FILE_BLOCK_SIZE file (start + 10) = .ok (x, start + 10 + 8) := by
    have hfit : 8 ≤ WAL_FILE_BLOCK_SIZE - (start + 10) % WAL_FILE_BLOCK_SIZE := by
      rw [hmod 10 (by omega)]
      omega
    obtain ⟨d, hd⟩ := readField_inside hf (by omega) hfit (by omega)
    exact ⟨u64Of d, Reader.bind_ok hd⟩
  obtain ⟨crc, h₁⟩ := h32 0 (by omega)
  obtain ⟨headerSize, h₂⟩ := h32 4 (by omega)
  obtain ⟨ft, h₃⟩ := h8 8 (by omega)
  obtain ⟨t, h₄⟩ := h8 9 (by omega)
  obtain ⟨seqNum, h₅⟩ := h64
  obtain ⟨size, h₆⟩ := h32 18 (by omega)
  have hfits : ∀ k n, k + n ≤ 22 → n ≤ WAL_FILE_BLOCK_SIZE - (start + k) % WAL_FILE_BLOCK_SIZE := by
    intro k n hk
    rw [hmod k (by omega)]
    omega
  refine ⟨crc, headerSize, ft, t, seqNum, size, ?_, ?_⟩
  · have h₀ : readU32Le WAL_FILE_BLOCK_SIZE file start = .ok (crc, start + 4) := h₁
    unfold FragmentHeader.load
    exact (Reader.bind_ok hens).trans <| (Reader.bind_ok h₀).trans <| (Reader.bind_ok h₂).trans <|
      (Reader.bind_ok h₃).trans <| (Reader.bind_ok h₄).trans <| (Reader.bind_ok h₅).trans (Reader.bind_ok h₆)
  · have a₁ := (readU32Le_fits (hfits 0 4 (by omega)) h₁).2
    have a₂ := (readU32Le_fits (hfits 4 4 (by omega)) h₂).2
    have a₃ := (readU8_fits (hfits 8 1 (by omega)) h₃).2
    have a₄ := (readU8_fits (hfits 9 1 (by omega)) h₄).2
    have a₅ := (readU64Le_fits (hfits 10 8 (by omega)) h₅).2
    have a₆ := (readU32Le_fits (hfits 18 4 (by omega)) h₆).2
    have e₅ := a₅.append (by rw [length_u64Bytes]; exact a₆)
    have e₄ := a₄.append (by rw [length_u8Bytes]; exact e₅)
    have e₃ := a₃.append (by rw [length_u8Bytes]; exact e₄)
    have e₂ := a₂.append (by rw [length_u32Bytes]; exact e₃)
    exact a₁.append (by rw [length_u32Bytes]; exact e₂)

theorem fragmentType_toU8 {x : UInt8} {ft : FragmentType} (h : FragmentType.ofU8 x = some ft) : ft.toU8 = x := by
  unfold FragmentType.ofU8 at h
  iterate 4
    split at h
    next hx =>
      cases h
      exact hx.symm
  cases h

theorem recType_toU8 {x : UInt8} {t : RecType} (h : RecType.ofU8 x = some t) : t.toU8 = x := by
  unfold RecType.ofU8 at h
  iterate 2
    split at h
    next hx =>
      cases h
      exact hx.symm
  cases h

/-- The loader of the header finds the valid header, or reports corruption. -/
theorem header_load (hf : file.Sound) (hroom : start % WAL_FILE_BLOCK_SIZE + 23 ≤ WAL_FILE_BLOCK_SIZE)
    (hin : start + 22 ≤ file.bytes.length) :
    (∃ h, FragmentHeader.load file start = .ok (h, start + 22) ∧ HeaderAt file.bytes start h) ∨
      ∃ e, FragmentHeader.load file start = .error e ∧ isRecoverableTailError e.code = false ∧
        isCorruptionError e.code = true := by
  obtain ⟨crc, headerSize, ft, t, seqNum, size, hload, hat⟩ := fields_read hf hroom hin
  rw [hload]
  cases hsize : headerSize == UInt32.ofNat FragmentHeader.diskSize with
  | false => exact .inr ⟨_, rfl, rfl, rfl⟩
  | true =>
    cases hft : FragmentType.ofU8 ft with
    | none => exact .inr ⟨_, rfl, rfl, rfl⟩
    | some ft' =>
      cases ht : RecType.ofU8 t with
      | none => exact .inr ⟨_, rfl, rfl, rfl⟩
      | some t' =>
        left
        refine ⟨⟨crc, headerSize, ft', t', seqNum, size⟩, rfl, beq_iff_eq.mp hsize, RecType.ofU8_valid ht, ?_⟩
        show At file.bytes start (u32Bytes crc ++ (u32Bytes headerSize ++ (u8Bytes ft'.toU8 ++ (u8Bytes t'.toU8 ++
          (u64Bytes seqNum ++ u32Bytes size)))))
        rw [fragmentType_toU8 hft, recType_toU8 ht]
        exact hat

theorem payload_load (hf : file.Sound) {size : UInt32} (hroom : off % WAL_FILE_BLOCK_SIZE + size.toNat ≤
    WAL_FILE_BLOCK_SIZE)
    (hin : off + size.toNat ≤ file.bytes.length) :
    ∃ d, Fragment.loadPayload size file off = .ok (d, off + size.toNat) ∧ At file.bytes off d ∧
      d.length = size.toNat := by
  have hfit : size.toNat ≤ WAL_FILE_BLOCK_SIZE - off % WAL_FILE_BLOCK_SIZE := by omega
  have hok : fitsInBlock off size.toNat WAL_FILE_BLOCK_SIZE = .ok () := by
    rcases fitsInBlock_cases off size.toNat (show 0 < WAL_FILE_BLOCK_SIZE by decide) with ⟨hok, -⟩ | ⟨-, -, hlt⟩
    · exact hok
    · omega
  unfold Fragment.loadPayload
  rw [hok]
  by_cases hzero : size = 0
  · refine ⟨[], ?_, List.nil_prefix, ?_⟩
    · rw [hzero]
      rfl
    · rw [hzero]
      rfl
  · have hne : size.toNat ≠ 0 := fun h => hzero (UInt32.toNat_inj.mp h)
    obtain ⟨d, hd⟩ := readField_inside hf (by omega) hfit hin
    obtain ⟨-, hat, hlen⟩ := readField_fits hne hfit hd
    refine ⟨d, ?_, hat, hlen⟩
    dsimp only
    rw [if_neg hzero, readBytes, Reader.ensure_bind (by decide), if_neg hne, hd]

variable [Zlib]

/-- What `Fragment::load` reports is what is seen. -/
theorem load_seen (hf : file.Sound) (hoff : off ≤ file.bytes.length) :
    (Fragment.load file off = .ok (none, file.bytes.length) ∧ Seen file.bytes off .nothing) ∨
    (∃ f, Fragment.load file off = .ok (some f, fragStart off + f.diskSize) ∧ Seen file.bytes off (.fragment f)) ∨
    (∃ e, Fragment.load file off = .error e ∧ isRecoverableTailError e.code = true ∧ Seen file.bytes off .cut) ∨
    ∃ e, Fragment.load file off = .error e ∧ isRecoverableTailError e.code = false ∧
      isCorruptionError e.code = true ∧ Seen file.bytes off .broken := by
  have hpos : FragmentHeader.diskSize = 22 := rfl
  have hblock : WAL_FILE_BLOCK_SIZE = 4096 := rfl
  have hstart := fragStart_room off
  rw [fragment_load_eq hf hoff]
  by_cases hend : file.bytes.length ≤ fragStart off
  · exact .inl ⟨if_pos hend, .nothing hend⟩
  right
  rw [if_neg hend]
  unfold Fragment.loadAt
  by_cases hshort : file.bytes.length - fragStart off < FragmentHeader.diskSize
  · rw [if_pos hshort]
    exact .inr (.inl ⟨_, rfl, rfl, .headerCut (by omega) (by omega)⟩)
  rw [if_neg hshort]
  have hroom : fragStart off % WAL_FILE_BLOCK_SIZE + 23 ≤ WAL_FILE_BLOCK_SIZE := by omega
  rcases header_load hf hroom (by omega) with ⟨h, hload, hat⟩ | ⟨e, hload, htail, hcorrupt⟩
  case inr =>
    rw [hload]
    refine .inr (.inr ⟨e, rfl, htail, hcorrupt, .invalidHeader (by omega) ?_⟩)
    intro h hat
    rw [fragmentHeader_load_at hf hat.headerSize hat.type hat.bytes] at hload
    cases hload
  rw [hload]
  have hmod : (fragStart off + 22) % WAL_FILE_BLOCK_SIZE = fragStart off % WAL_FILE_BLOCK_SIZE + 22 := by
    rw [hblock] at hroom ⊢
    omega
  dsimp only
  rw [hmod]
  by_cases hin : InBlock (fragStart off) (FragmentHeader.diskSize + h.fragmentSize.toNat)
  case neg =>
    have hcross : h.fragmentSize.toNat > WAL_FILE_BLOCK_SIZE - (fragStart off % WAL_FILE_BLOCK_SIZE + 22) := by
      unfold InBlock at hin
      omega
    rw [if_pos hcross]
    exact .inr (.inr ⟨_, rfl, rfl, rfl, .crossesBlock hat hin⟩)
  have hle : fragStart off % WAL_FILE_BLOCK_SIZE + (22 + h.fragmentSize.toNat) ≤ WAL_FILE_BLOCK_SIZE := hin
  rw [if_neg (by omega), if_neg (by omega)]
  by_cases hcut : file.bytes.length - (fragStart off + 22) < h.fragmentSize.toNat
  · rw [if_pos hcut]
    exact .inr (.inl ⟨_, rfl, rfl, .payloadCut hat hin (by omega)⟩)
  rw [if_neg hcut]
  have hpayload : ∃ d, Fragment.loadPayload h.fragmentSize file (fragStart off + 22) =
      .ok (d, fragStart off + 22 + h.fragmentSize.toNat) ∧ At file.bytes (fragStart off + 22) d ∧
        d.length = h.fragmentSize.toNat := payload_load hf (by rw [hmod]; omega) (by omega)
  obtain ⟨d, hd, hatd, hlen⟩ := hpayload
  rw [hd]
  have hfields : FieldsAt file.bytes (fragStart off) ⟨h, d⟩ := by
    refine ⟨hat, hlen.symm, ?_, ?_⟩
    · show InBlock (fragStart off) (FragmentHeader.diskSize + d.length)
      rw [hlen]
      exact hin
    · refine hat.bytes.append ?_
      rw [FragmentHeader.length_bytes]
      exact hatd
  have hcomputed : Fragment.computeCrc32 ⟨h, d⟩ = .ok (crc32Fields (Fragment.crcFields ⟨h, d⟩)) := by
    simp [Fragment.computeCrc32, hat.headerSize, hat.type, hlen]
  dsimp only
  rw [hcomputed]
  dsimp only
  by_cases hcrc : crc32Fields (Fragment.crcFields ⟨h, d⟩) = h.fragmentCrc32
  · rw [if_neg (not_not.mpr hcrc)]
    refine .inl ⟨⟨h, d⟩, ?_, .fragment hfields hcrc.symm⟩
    rw [hfields.diskSize, hpos, Nat.add_assoc]
  · rw [if_pos hcrc]
    exact .inr (.inr ⟨_, rfl, rfl, rfl, .badChecksum hfields (Ne.symm hcrc)⟩)

end

/-! ## The assembler -/

/-- The assembler behind the fragments of an open record. -/
def assembler : List Fragment → LogicalRecordAssembler
  | [] => .init
  | f :: fs => ⟨true, f.header.seqNum, f.header.type, joined (f :: fs)⟩

theorem joined_append (fs : List Fragment) (f : Fragment) : joined (fs ++ [f]) = joined fs ++ f.payload := by
  rw [joined, joined, List.flatMap_append, List.flatMap_cons, List.flatMap_nil, List.append_nil]

theorem readU32Span_ok {bytes : List UInt8} {position : Nat} {x : UInt32} (h : readU32Span bytes position = .ok x) :
    position + 4 ≤ bytes.length ∧ u32Bytes x = (bytes.drop position).take 4 := by
  unfold readU32Span at h
  split at h
  · cases h
  · cases h
    refine ⟨by omega, u32Bytes_u32Of ?_⟩
    rw [List.length_take, List.length_drop]
    omega

/-- A payload that was decoded is that of the record. -/
theorem decode_ok {payload : List UInt8} {seqNum : UInt64} {type : RecType} {r : InternalRecord}
    (h : decodeRecordPayload payload seqNum type = .ok r) :
    payload = recordPayload r ∧ r.seqNum = seqNum ∧ r.type = type := by
  unfold decodeRecordPayload at h
  split at h
  · cases h
  split at h
  · cases h
  next keySize hkey =>
  split at h
  · cases h
  next valueSize hvalue =>
  split at h
  · cases h
  next hsize =>
  cases h
  obtain ⟨-, hk⟩ := readU32Span_ok hkey
  obtain ⟨hlen, hv⟩ := readU32Span_ok hvalue
  have hfront : kRecordPayloadPrefixSize = 8 := rfl
  refine ⟨?_, rfl, rfl⟩
  have hkeySize : (ArenaEntry.ofTake (payload.drop 8) keySize).size32 = keySize := by
    apply UInt32.toNat_inj.mp
    rw [ArenaEntry.size32_toNat]
    show ((payload.drop 8).take keySize.toNat).length = _
    rw [List.length_take, List.length_drop]
    omega
  have hvalueSize : (ArenaEntry.ofTake (payload.drop (8 + keySize.toNat)) valueSize).size32 = valueSize := by
    apply UInt32.toNat_inj.mp
    rw [ArenaEntry.size32_toNat]
    show ((payload.drop (8 + keySize.toNat)).take valueSize.toNat).length = _
    rw [List.length_take, List.length_drop]
    omega
  have hrest : (payload.drop (8 + keySize.toNat)).take valueSize.toNat = payload.drop (8 + keySize.toNat) := by
    apply List.take_of_length_le
    rw [List.length_drop]
    omega
  unfold recordPayload
  dsimp only
  rw [hkeySize, hvalueSize, hk, hv, List.drop_zero]
  show payload = payload.take 4 ++ ((payload.drop 4).take 4 ++ ((payload.drop 8).take keySize.toNat ++
    (payload.drop (8 + keySize.toNat)).take valueSize.toNat))
  have hkeyDrop : payload.drop (8 + keySize.toNat) = (payload.drop 8).drop keySize.toNat := List.drop_drop.symm
  have hsizeDrop : payload.drop (4 + 4) = (payload.drop 4).drop 4 := List.drop_drop.symm
  change payload.drop 8 = _ at hsizeDrop
  rw [hrest, hkeyDrop, List.take_append_drop, hsizeDrop, List.take_append_drop, List.take_append_drop]

/-- The fragments of one record encode one record. -/
theorem Encodes.unique {fs : List Fragment} {r r' : InternalRecord} (h : Encodes fs r) (h' : Encodes fs r')
    (hne : fs ≠ []) (hvalid : ∀ f ∈ fs, f.header.type.isValid = true) : r = r' := by
  obtain ⟨f, hf⟩ := List.exists_mem_of_ne_nil fs hne
  obtain ⟨hseq, htype⟩ := h.headers f hf
  obtain ⟨hseq', htype'⟩ := h'.headers f hf
  have hr := decode_recordPayload (htype ▸ hvalid f hf)
  have hr' := decode_recordPayload (htype' ▸ hvalid f hf)
  rw [← h.payload, ← hseq, ← htype] at hr
  rw [← h'.payload, ← hseq', ← htype'] at hr'
  exact Except.ok.inj (hr.symm.trans hr')

/-- The fragments of one record decode if they encode a record. -/
theorem decode_joined {f : Fragment} {fs : List Fragment} (hsame : ∀ g ∈ fs, SameRecord f g)
    (hvalid : f.header.type.isValid = true) :
    (∃ r, decodeRecordPayload (joined (f :: fs)) f.header.seqNum f.header.type = .ok r ∧ Encodes (f :: fs) r) ∨
      ∃ e, decodeRecordPayload (joined (f :: fs)) f.header.seqNum f.header.type = .error e ∧
        ∀ r, ¬Encodes (f :: fs) r := by
  cases hd : decodeRecordPayload (joined (f :: fs)) f.header.seqNum f.header.type with
  | ok r =>
    obtain ⟨hpayload, hseq, htype⟩ := decode_ok hd
    refine .inl ⟨r, rfl, hpayload, ?_⟩
    intro g hg
    rw [hseq, htype]
    rcases List.mem_cons.mp hg with rfl | hg
    · exact ⟨rfl, rfl⟩
    · exact hsame g hg
  | error e =>
    refine .inr ⟨e, rfl, ?_⟩
    intro r hr
    obtain ⟨hseq, htype⟩ := hr.headers f List.mem_cons_self
    have hok := decode_recordPayload (htype ▸ hvalid)
    rw [← hr.payload, ← hseq, ← htype, hd] at hok
    cases hok

/-- A fragment that cannot follow is refused. -/
theorem consume_violates {fs : List Fragment} {f : Fragment} (h : Violates fs f) :
    ∃ e, (assembler fs).consume f = .error e := by
  cases h with
  | inside h =>
    rcases h with ht | ht
    · simp only [assembler, LogicalRecordAssembler.consume, ht]
      exact ⟨_, rfl⟩
    · simp only [assembler, LogicalRecordAssembler.consume, ht]
      exact ⟨_, rfl⟩
  | unbegun h =>
    rcases h with ht | ht
    · simp only [assembler, LogicalRecordAssembler.consume, LogicalRecordAssembler.init, ht]
      exact ⟨_, rfl⟩
    · simp only [assembler, LogicalRecordAssembler.consume, LogicalRecordAssembler.init, ht]
      exact ⟨_, rfl⟩
  | @changed g _ fs h hsame =>
    have hdiff : g.header.seqNum ≠ f.header.seqNum ∨ g.header.type ≠ f.header.type := by
      by_contra hno
      rw [not_or, not_not, not_not] at hno
      exact hsame ⟨hno.1.symm, hno.2.symm⟩
    rcases h with ht | ht
    · simp only [assembler, LogicalRecordAssembler.consume, ht]
      exact ⟨_, (if_neg (by decide)).trans (if_pos hdiff)⟩
    · simp only [assembler, LogicalRecordAssembler.consume, ht]
      exact ⟨_, (if_neg (by decide)).trans (if_pos hdiff)⟩

/-- What `consume` does with a fragment behind those of an open record. -/
theorem consume_cases {fs : List Fragment} {f : Fragment} (hopen : Open fs)
    (hvalid : ∀ g ∈ fs ++ [f], g.header.type.isValid = true) :
    Violates fs f ∨
    (∃ e, (assembler fs).consume f = .error e ∧ Whole (fs ++ [f]) ∧ ∀ r, ¬Encodes (fs ++ [f]) r) ∨
    ((assembler fs).consume f = .ok (none, assembler (fs ++ [f])) ∧ Open (fs ++ [f])) ∨
    ∃ r, (assembler fs).consume f = .ok (some r, .init) ∧ Whole (fs ++ [f]) ∧ Encodes (fs ++ [f]) r := by
  cases hopen with
  | nil =>
    have hf := hvalid f List.mem_cons_self
    cases ht : f.header.fragmentType with
    | full =>
      have hjoined : joined [f] = f.payload := by rw [← List.nil_append [f], joined_append]; rfl
      have hnone : ∀ g ∈ ([] : List Fragment), SameRecord f g := nofun
      rcases decode_joined hnone hf with ⟨r, hd, henc⟩ | ⟨e, hd, henc⟩
      · refine .inr (.inr (.inr ⟨r, ?_, .full ht, henc⟩))
        rw [hjoined] at hd
        simp [assembler, LogicalRecordAssembler.consume, LogicalRecordAssembler.init, ht, hd]
      · refine .inr (.inl ⟨e, ?_, .full ht, henc⟩)
        rw [hjoined] at hd
        simp [assembler, LogicalRecordAssembler.consume, LogicalRecordAssembler.init, ht, hd]
    | first =>
      refine .inr (.inr (.inl ⟨?_, .chain ht nofun⟩))
      simp [assembler, LogicalRecordAssembler.consume, LogicalRecordAssembler.init, ht, joined]
    | middle => exact .inl (.unbegun (.inl ht))
    | last => exact .inl (.unbegun (.inr ht))
  | @chain g ms hg hms =>
    have hgvalid := hvalid g List.mem_cons_self
    cases ht : f.header.fragmentType with
    | full => exact .inl (.inside (.inl ht))
    | first => exact .inl (.inside (.inr ht))
    | middle =>
      by_cases hsame : SameRecord g f
      · refine .inr (.inr (.inl ⟨?_, ?_⟩))
        · have hjoined := joined_append (g :: ms) f
          simp [assembler, LogicalRecordAssembler.consume, ht, hsame.1, hsame.2, ← hjoined]
        · refine .chain hg ?_
          intro m hm
          rcases List.mem_append.mp hm with hm | hm
          · exact hms m hm
          · rw [List.mem_singleton.mp hm]
            exact ⟨ht, hsame⟩
      · exact .inl (.changed (.inl ht) hsame)
    | last =>
      by_cases hsame : SameRecord g f
      · have hall : ∀ m ∈ ms ++ [f], SameRecord g m := by
          intro m hm
          rcases List.mem_append.mp hm with hm | hm
          · exact (hms m hm).2
          · rw [List.mem_singleton.mp hm]
            exact hsame
        have hwhole : Whole (g :: (ms ++ [f])) := .chain hg hms ht hsame
        have hjoined : joined (g :: (ms ++ [f])) = joined (g :: ms) ++ f.payload := joined_append (g :: ms) f
        rcases decode_joined hall hgvalid with ⟨r, hd, henc⟩ | ⟨e, hd, henc⟩
        · refine .inr (.inr (.inr ⟨r, ?_, hwhole, henc⟩))
          rw [hjoined] at hd
          simp [assembler, LogicalRecordAssembler.consume, ht, hsame.1, hsame.2, hd]
        · refine .inr (.inl ⟨e, ?_, hwhole, henc⟩)
          rw [hjoined] at hd
          simp [assembler, LogicalRecordAssembler.consume, ht, hsame.1, hsame.2, hd]
      · exact .inl (.changed (.inr ht) hsame)

/-! ## Fragments one after the other -/

section

variable [Zlib] {b : List UInt8} {off : Nat} {fs gs : List Fragment} {f : Fragment}

omit [Zlib] in
theorem fragsEnd_append (fs gs : List Fragment) (off : Nat) :
    fragsEnd off (fs ++ gs) = fragsEnd (fragsEnd off fs) gs := by
  induction fs generalizing off with
  | nil => rfl
  | cons f fs ih => exact ih _

omit [Zlib] in
theorem fragsEnd_snoc (fs : List Fragment) (f : Fragment) (off : Nat) :
    fragsEnd off (fs ++ [f]) = fragStart (fragsEnd off fs) + f.diskSize := fragsEnd_append fs [f] off

theorem Seen.fields (h : Seen b off (.fragment f)) : FieldsAt b (fragStart off) f := by
  cases h with
  | fragment h _ => exact h

theorem FragmentsAt.append (h : FragmentsAt b off fs) (h' : FragmentsAt b (fragsEnd off fs) gs) :
    FragmentsAt b off (fs ++ gs) := by
  induction h with
  | nil => exact h'
  | cons hf _ ih => exact .cons hf (ih h')

theorem FragmentsAt.snoc (h : FragmentsAt b off fs) (hf : Seen b (fragsEnd off fs) (.fragment f)) :
    FragmentsAt b off (fs ++ [f]) := h.append (.cons hf (.nil _))

theorem FragmentsAt.of_append (h : FragmentsAt b off (fs ++ gs)) :
    FragmentsAt b off fs ∧ FragmentsAt b (fragsEnd off fs) gs := by
  induction fs generalizing off with
  | nil => exact ⟨.nil off, h⟩
  | cons f fs ih =>
    cases h with
    | cons hf hrest =>
      obtain ⟨hfs, hgs⟩ := ih hrest
      exact ⟨.cons hf hfs, hgs⟩

theorem FragmentsAt.head (h : FragmentsAt b off (fs ++ f :: gs)) : Seen b (fragsEnd off fs) (.fragment f) := by
  cases h.of_append.2 with
  | cons hf _ => exact hf

theorem FragmentsAt.valid (h : FragmentsAt b off fs) : ∀ f ∈ fs, f.header.type.isValid = true := by
  induction h with
  | nil => exact nofun
  | cons hf _ ih =>
    intro g hg
    rcases List.mem_cons.mp hg with rfl | hg
    · exact hf.fields.header.type
    · exact ih g hg

theorem FragmentsAt.end_le (h : FragmentsAt b off fs) (hoff : off ≤ b.length) : fragsEnd off fs ≤ b.length := by
  induction h with
  | nil => exact hoff
  | cons hf _ ih => exact ih hf.fields.end_le

/-- Of two lists of fragments that stand at one offset, one goes on where the other ends. -/
theorem FragmentsAt.comparable (h : FragmentsAt b off fs) (h' : FragmentsAt b off gs) : fs <+: gs ∨ gs <+: fs := by
  induction h generalizing gs with
  | nil => exact .inl List.nil_prefix
  | cons hf _ ih =>
    cases h' with
    | nil => exact .inr List.nil_prefix
    | cons hg hrest =>
      cases seen_unique hf hg
      rcases ih hrest with hle | hle
      · exact .inl (List.cons_prefix_cons.mpr ⟨rfl, hle⟩)
      · exact .inr (List.cons_prefix_cons.mpr ⟨rfl, hle⟩)

end

/-! ## Records are told apart by their headers -/

section

variable {fs : List Fragment} {f : Fragment}

theorem Open.of_append {gs : List Fragment} (h : Open (fs ++ gs)) : Open fs := by
  cases fs with
  | nil => exact .nil
  | cons g ms =>
    cases h with
    | chain hg hms => exact .chain hg fun m hm => hms m (List.mem_append_left _ hm)

/-- A whole record is an open one with one more fragment. -/
theorem Whole.exists_open (h : Whole fs) : ∃ gs l, fs = gs ++ [l] ∧ Open gs := by
  cases h with
  | @full g _ => exact ⟨[], g, rfl, .nil⟩
  | @chain g l ms hg hms _ _ => exact ⟨g :: ms, l, rfl, .chain hg hms⟩

theorem Whole.not_open (h : Whole fs) : ¬Open fs := by
  intro hopen
  cases h with
  | full hfull =>
    cases hopen with
    | chain hfirst _ =>
      rw [hfull] at hfirst
      cases hfirst
  | @chain _ l ms hg _ hl _ =>
    cases hopen with
    | chain _ hms =>
      have hmiddle := (hms l (List.mem_append_right _ List.mem_cons_self)).1
      rw [hl] at hmiddle
      cases hmiddle

theorem Violates.not_open (h : Violates fs f) : ¬Open (fs ++ [f]) := by
  intro hopen
  cases h with
  | inside h =>
    cases hopen with
    | chain _ hms =>
      have hmiddle := (hms f (List.mem_append_right _ List.mem_cons_self)).1
      rw [hmiddle] at h
      rcases h with h | h <;> cases h
  | unbegun h =>
    cases hopen with
    | chain hfirst _ =>
      rw [hfirst] at h
      rcases h with h | h <;> cases h
  | changed _ hsame =>
    cases hopen with
    | chain _ hms => exact hsame (hms f (List.mem_append_right _ List.mem_cons_self)).2

/-- The last fragment of a whole record. -/
theorem Whole.last (h : Whole (fs ++ [f])) : (fs = [] ∧ f.header.fragmentType = .full) ∨
    ∃ g ms, fs = g :: ms ∧ f.header.fragmentType = .last ∧ SameRecord g f := by
  generalize hall : fs ++ [f] = all at h
  cases h with
  | @full g hg =>
    have hsplit : fs ++ [f] = [] ++ [g] := hall
    obtain ⟨rfl, hlast⟩ := List.append_inj' hsplit rfl
    cases hlast
    exact .inl ⟨rfl, hg⟩
  | @chain g l ms _ _ hl hsame =>
    have hsplit : fs ++ [f] = (g :: ms) ++ [l] := hall
    obtain ⟨rfl, hlast⟩ := List.append_inj' hsplit rfl
    cases hlast
    exact .inr ⟨g, ms, rfl, hl, hsame⟩

theorem Violates.not_whole (h : Violates fs f) : ¬Whole (fs ++ [f]) := by
  intro hwhole
  cases h with
  | inside h =>
    rcases hwhole.last with ⟨hnil, -⟩ | ⟨_, _, -, hl, -⟩
    · cases hnil
    · rw [hl] at h
      rcases h with h | h <;> cases h
  | unbegun h =>
    rcases hwhole.last with ⟨-, hfull⟩ | ⟨_, _, hcons, -⟩
    · rw [hfull] at h
      rcases h with h | h <;> cases h
    · cases hcons
  | changed _ hsame =>
    rcases hwhole.last with ⟨hnil, -⟩ | ⟨_, _, hcons, -, hsame'⟩
    · cases hnil
    · cases hcons
      exact hsame hsame'

end

/-! ## Reading on stops in one way -/

section

variable [Zlib] {b : List UInt8} {off : Nat} {fs gs : List Fragment}

omit [Zlib] in
/-- The fragment at which reading stops does not continue the open record. -/
theorem Ends.not_open {f : Fragment} {v : Verdict} (h : Ends off fs (.fragment f) v) : ¬Open (fs ++ [f]) := by
  cases h with
  | violation hv => exact hv.not_open
  | lengths hwhole _ => exact hwhole.not_open
  | record hwhole _ => exact hwhole.not_open

omit [Zlib] in
theorem Ends.unique {s : Sight} {v v' : Verdict} (h : Ends off fs s v) (h' : Ends off fs s v')
    (hvalid : ∀ f, s = .fragment f → ∀ g ∈ fs ++ [f], g.header.type.isValid = true) : v = v' := by
  cases h with
  | ended hfs =>
    cases h' with
    | ended _ => rfl
    | boundary hne => exact absurd hfs hne
  | boundary hne =>
    cases h' with
    | ended hfs => exact absurd hfs hne
    | boundary _ => rfl
  | cut =>
    cases h'
    rfl
  | broken =>
    cases h'
    rfl
  | violation hv =>
    cases h' with
    | violation _ => rfl
    | lengths _ _ => rfl
    | record hwhole _ => exact absurd hwhole hv.not_whole
  | lengths hwhole henc =>
    cases h' with
    | violation _ => rfl
    | lengths _ _ => rfl
    | record _ henc' => exact absurd henc' (henc _)
  | record hwhole henc =>
    cases h' with
    | violation hv => exact absurd hwhole hv.not_whole
    | lengths _ hno => exact absurd henc (hno _)
    | record _ henc' => rw [henc.unique henc' (List.concat_ne_nil _ _) (hvalid _ rfl)]

/-- An open record in front of which reading stops is not longer. -/
theorem fragments_unique {s : Sight} {v : Verdict} (hseen : Seen b (fragsEnd off fs) s) (h : Ends off fs s v)
    (hgs : FragmentsAt b off gs) (hopen : Open gs) (hle : fs <+: gs) : fs = gs := by
  obtain ⟨rest, rfl⟩ := hle
  cases rest with
  | nil => rw [List.append_nil]
  | cons f rest =>
    cases seen_unique hseen hgs.head
    rw [List.append_cons] at hopen
    exact absurd hopen.of_append h.not_open

theorem stops_unique {v v' : Verdict} (h : Stops b off v) (h' : Stops b off v') : v = v' := by
  obtain ⟨fs, s, hfs, hopen, hseen, hends⟩ := h
  obtain ⟨gs, s', hgs, hopen', hseen', hends'⟩ := h'
  have hsame : fs = gs := by
    rcases hfs.comparable hgs with hle | hle
    · exact fragments_unique hseen hends hgs hopen' hle
    · exact (fragments_unique hseen' hends' hfs hopen hle).symm
  subst hsame
  cases seen_unique hseen hseen'
  refine hends.unique hends' ?_
  rintro f rfl
  exact (hfs.snoc hseen).valid

/-- A whole record that encodes one is where reading stops. -/
theorem stops_record {r : InternalRecord} (hfs : FragmentsAt b off fs) (hwhole : Whole fs) (henc : Encodes fs r) :
    Stops b off (.record r (fragsEnd off fs)) := by
  obtain ⟨gs, l, rfl, hopen⟩ := hwhole.exists_open
  exact ⟨gs, .fragment l, hfs.of_append.1, hopen, hfs.head, .record hwhole henc⟩

/-- And the other way round. -/
theorem Stops.whole {r : InternalRecord} {e : Nat} (h : Stops b off (.record r e)) :
    ∃ fs, FragmentsAt b off fs ∧ Whole fs ∧ Encodes fs r ∧ e = fragsEnd off fs := by
  obtain ⟨fs, s, hfs, -, hseen, hends⟩ := h
  cases hends with
  | record hwhole henc => exact ⟨_, hfs.snoc hseen, hwhole, henc, rfl⟩

/-- No sequence of records from `off` on goes further than one behind which no record begins. -/
theorem Log.longest {rs rs' : List InternalRecord} {good e : Nat} (h : Log b off rs good)
    (hstop : ∀ r e, ¬Stops b good (.record r e)) (h' : Log b off rs' e) : rs' <+: rs ∧ e ≤ good := by
  induction h generalizing rs' e with
  | nil off =>
    cases h' with
    | nil => exact ⟨List.prefix_refl _, Nat.le_refl _⟩
    | cons hfs hwhole henc _ => exact absurd (stops_record hfs hwhole henc) (hstop _ _)
  | @cons off good fs r rs hfs hwhole henc hrest ih =>
    cases h' with
    | nil =>
      refine ⟨List.nil_prefix, ?_⟩
      exact (Nat.le_trans (Nat.le_add_right _ _) (fragsEnd_le fs off)).trans (ih hstop (.nil _)).2
    | cons hfs' hwhole' henc' hrest' =>
      have hsame := stops_unique (stops_record hfs hwhole henc) (stops_record hfs' hwhole' henc')
      obtain ⟨rfl, hend⟩ := Verdict.record.inj hsame
      rw [← hend] at hrest'
      obtain ⟨hle, hgood⟩ := ih hstop hrest'
      exact ⟨List.cons_prefix_cons.mpr ⟨rfl, hle⟩, hgood⟩

end

/-! ## The loader follows -/

section

variable [Zlib] {file : ReadableFile} {off : Nat}

/-- What the reader found, as a verdict. -/
def verdictOf : Found → Verdict
  | .record r off => .record r off
  | .eof _ => .ended
  | .torn _ => .torn
  | .corrupt _ => .corrupt

theorem seen_of_none {o : Nat} (hf : file.Sound) (hoff : off ≤ file.bytes.length)
    (h : Fragment.load file off = .ok (none, o)) : Seen file.bytes off .nothing ∧ o = file.bytes.length := by
  rcases load_seen hf hoff with ⟨hload, hseen⟩ | ⟨f, hload, -⟩ | ⟨e, hload, -⟩ | ⟨e, hload, -⟩
  · rw [hload] at h
    cases h
    exact ⟨hseen, rfl⟩
  all_goals
    rw [hload] at h
    cases h

theorem seen_of_fragment {f : Fragment} {o : Nat} (hf : file.Sound) (hoff : off ≤ file.bytes.length)
    (h : Fragment.load file off = .ok (some f, o)) :
    Seen file.bytes off (.fragment f) ∧ o = fragStart off + f.diskSize := by
  rcases load_seen hf hoff with ⟨hload, -⟩ | ⟨g, hload, hseen⟩ | ⟨e, hload, -⟩ | ⟨e, hload, -⟩
  case inr.inl =>
    rw [hload] at h
    cases h
    exact ⟨hseen, rfl⟩
  all_goals
    rw [hload] at h
    cases h

theorem seen_of_error {e : Status} (hf : file.Sound) (hoff : off ≤ file.bytes.length)
    (h : Fragment.load file off = .error e) :
    (isRecoverableTailError e.code = true → Seen file.bytes off .cut) ∧
      (isRecoverableTailError e.code = false → Seen file.bytes off .broken) := by
  rcases load_seen hf hoff with ⟨hload, -⟩ | ⟨g, hload, -⟩ | ⟨e', hload, htail, hseen⟩ | ⟨e', hload,
    htail, -, hseen⟩
  · rw [hload] at h
    cases h
  · rw [hload] at h
    cases h
  · rw [hload] at h
    cases h
    exact ⟨fun _ => hseen, fun hfalse => absurd (htail.symm.trans hfalse) (by decide)⟩
  · rw [hload] at h
    cases h
    exact ⟨fun htrue => absurd (htail.symm.trans htrue) (by decide), fun _ => hseen⟩

omit [Zlib] in
theorem assembler_active (fs : List Fragment) : (assembler fs).active = true ↔ fs ≠ [] := by
  cases fs with
  | nil => exact iff_of_false (by decide) (fun h => h rfl)
  | cons f fs => exact iff_of_true rfl (List.cons_ne_nil f fs)

/-- The reader that goes on behind the fragments of an open record stops as the grammar says. -/
theorem stops_of_next {fs : List Fragment} {p : Nat} {a : LogicalRecordAssembler} {found : Found} (hf : file.Sound)
    (hoff : off ≤ file.bytes.length) (hnext : Next file p a found) (hfs : FragmentsAt file.bytes off fs)
    (hopen : Open fs) (hp : p = fragsEnd off fs) (ha : a = assembler fs) :
    Stops file.bytes off (verdictOf found) := by
  induction hnext generalizing fs with
  | torn hload htail =>
    subst hp
    exact ⟨fs, .cut, hfs, hopen, (seen_of_error hf (hfs.end_le hoff) hload).1 htail, .cut⟩
  | corrupt hload htail _ =>
    subst hp
    exact ⟨fs, .broken, hfs, hopen, (seen_of_error hf (hfs.end_le hoff) hload).2 htail, .broken⟩
  | cut hload hactive =>
    subst hp ha
    have hseen := (seen_of_none hf (hfs.end_le hoff) hload).1
    exact ⟨fs, .nothing, hfs, hopen, hseen, .boundary ((assembler_active fs).mp hactive)⟩
  | eof hload hactive =>
    subst hp ha
    have hseen := (seen_of_none hf (hfs.end_le hoff) hload).1
    refine ⟨fs, .nothing, hfs, hopen, hseen, .ended ?_⟩
    by_contra hne
    rw [(assembler_active fs).mpr hne] at hactive
    cases hactive
  | @refused _ _ _ f _ hload hconsume =>
    subst hp ha
    have hseen := (seen_of_fragment hf (hfs.end_le hoff) hload).1
    have hvalid := (hfs.snoc hseen).valid
    refine ⟨fs, .fragment f, hfs, hopen, hseen, ?_⟩
    rcases consume_cases hopen hvalid with hv | ⟨_, -, hwhole, henc⟩ | ⟨hmore, -⟩ | ⟨r, hrecord, -⟩
    · exact .violation hv
    · exact .lengths hwhole henc
    · rw [hmore] at hconsume
      cases hconsume
    · rw [hrecord] at hconsume
      cases hconsume
  | @more _ _ _ _ f _ hload hconsume _ ih =>
    subst hp ha
    obtain ⟨hseen, hnext⟩ := seen_of_fragment hf (hfs.end_le hoff) hload
    have hvalid := (hfs.snoc hseen).valid
    rcases consume_cases hopen hvalid with hv | ⟨_, herror, -⟩ | ⟨hmore, hopen'⟩ | ⟨r, hrecord, -⟩
    · obtain ⟨_, herror⟩ := consume_violates hv
      rw [herror] at hconsume
      cases hconsume
    · rw [herror] at hconsume
      cases hconsume
    · rw [hmore] at hconsume
      cases hconsume
      exact ih (hfs.snoc hseen) hopen' (by rw [hnext, fragsEnd_snoc]) rfl
    · rw [hrecord] at hconsume
      cases hconsume
  | @record _ _ _ _ f r hload hconsume =>
    subst hp ha
    obtain ⟨hseen, hnext⟩ := seen_of_fragment hf (hfs.end_le hoff) hload
    have hvalid := (hfs.snoc hseen).valid
    rcases consume_cases hopen hvalid with hv | ⟨_, herror, -⟩ | ⟨hmore, -⟩ | ⟨r, hrecord, hwhole, henc⟩
    · obtain ⟨_, herror⟩ := consume_violates hv
      rw [herror] at hconsume
      cases hconsume
    · rw [herror] at hconsume
      cases hconsume
    · rw [hmore] at hconsume
      cases hconsume
    · rw [hrecord] at hconsume
      cases hconsume
      refine ⟨fs, .fragment f, hfs, hopen, hseen, ?_⟩
      rw [hnext, ← fragsEnd_snoc]
      exact .record hwhole henc

/-- The end that is found is the end of the file. -/
theorem eof_end {a : LogicalRecordAssembler} {found : Found} {o : Nat} (hf : file.Sound)
    (hoff : off ≤ file.bytes.length) (h : Next file off a found) (hfound : found = .eof o) :
      o = file.bytes.length := by
  induction h with
  | torn _ _ => cases hfound
  | corrupt _ _ _ => cases hfound
  | cut _ _ => cases hfound
  | refused _ _ => cases hfound
  | record _ _ => cases hfound
  | eof hload _ =>
    cases hfound
    exact (seen_of_none hf hoff hload).2
  | more hload _ _ ih => exact ih (fragment_load_bounds hf hoff hload).2 hfound

/-- The batch loop behind a prefix of records: the records of the rest, and the verdict at its end. -/
theorem loadLoop_grammar (hf : file.Sound) (header : WALFileHeader) (hoff : off ≤ file.bytes.length)
    (records : List InternalRecord) {fuel : Nat} (hfuel : file.bytes.length - off < fuel) :
    ∃ rs good found, Log file.bytes off rs good ∧ good ≤ file.bytes.length ∧
      (∀ r e, found ≠ .record r e) ∧ Next file good .init found ∧
      WALLoader.loadLoop file header fuel ⟨off, off, .init, records⟩ =
        (.ok (WALLoader.ended header (records ++ rs) good found).1,
          (WALLoader.ended header (records ++ rs) good found).2) := by
  induction hn : file.bytes.length - off using Nat.strong_induction_on generalizing off records fuel with
  | _ n ih =>
    obtain ⟨found, hnext⟩ := exists_next hf hoff .init
    have hstops := stops_of_next hf hoff hnext (.nil off) .nil rfl rfl
    by_cases hrecord : ∃ r e, found = .record r e
    · obtain ⟨r, e, rfl⟩ := hrecord
      obtain ⟨hlt, hle⟩ := hnext.record_bounds hf hoff rfl
      obtain ⟨fs, hfs, hwhole, henc, rfl⟩ := hstops.whole
      obtain ⟨fuel', hfuel', heq⟩ :=
        loadLoop_record_found hnext hf hoff (fun _ => rfl) header off records hfuel rfl
      obtain ⟨rs, good, found, hlog, hgood, hne, hnext', hloop⟩ :=
        ih (file.bytes.length - fragsEnd off fs) (by omega) hle (records ++ [r]) hfuel' rfl
      refine ⟨r :: rs, good, found, .cons hfs hwhole henc hlog, hgood, hne, hnext', ?_⟩
      rw [heq, hloop, List.append_assoc]
      rfl
    · have hne : ∀ r e, found ≠ .record r e := fun r e h => hrecord ⟨r, e, h⟩
      refine ⟨[], off, found, .nil off, hoff, hne, hnext, ?_⟩
      rw [List.append_nil]
      exact loadLoop_ended hnext hf hoff header off records hfuel hne

/-- **The grammar of a log.**  Behind a valid header, whatever bytes follow, the loader returns the records of the
longest prefix that is a sequence of logical records.  It reports corruption, or a torn tail, exactly when reading on
from the end of that prefix stops so, and then leaves the offset there. -/
theorem load_grammar {walId : UInt32} {header : WALFileHeader} (hf : file.Sound)
    (hh : WALFileHeader.load walId file 0 = .ok (some header, off)) :
    ∃ res good offset, WALLoader.load file walId = (.ok res, offset) ∧ res.header = some header ∧
      Log file.bytes off res.records good ∧
      (∀ rs e, Log file.bytes off rs e → rs <+: res.records ∧ e ≤ good) ∧
      (res.hadCorruption = true ↔ Stops file.bytes good .corrupt) ∧
      (res.ok = false ↔ Stops file.bytes good .corrupt) ∧
      (res.hadTornTail = true ↔ Stops file.bytes good .torn) ∧
      (res.hadCorruption = true ∨ res.hadTornTail = true → offset = good) ∧
      (res.hadCorruption = false ∧ res.hadTornTail = false → offset = file.bytes.length ∧
        Stops file.bytes good .ended) := by
  obtain ⟨-, -, hle⟩ := fileHeader_load_bounds hf hh
  obtain ⟨rs, good, found, hlog, hgood, hne, hnext, hloop⟩ :=
    loadLoop_grammar hf header hle [] (show file.bytes.length - off < file.bytes.length + 1 by omega)
  have hstops := stops_of_next hf hgood hnext (.nil good) .nil rfl rfl
  have hno : ∀ r e, ¬Stops file.bytes good (.record r e) := by
    intro r e h
    have hsame := stops_unique hstops h
    cases found with
    | record r e => exact hne r e rfl
    | eof _ => cases hsame
    | torn _ => cases hsame
    | corrupt _ => cases hsame
  rw [List.nil_append] at hloop
  refine ⟨(WALLoader.ended header rs good found).1, good, (WALLoader.ended header rs good found).2, ?_, ?_⟩
  · rw [WALLoader.load, hh]
    exact hloop
  cases found with
  | record r e => exact absurd rfl (hne r e)
  | eof o =>
    have ho : o = file.bytes.length := eof_end hf hgood hnext rfl
    have hcorrupt : ¬Stops file.bytes good .corrupt := fun h => by cases stops_unique hstops h
    have htorn : ¬Stops file.bytes good .torn := fun h => by cases stops_unique hstops h
    refine ⟨rfl, hlog, fun rs' e h => hlog.longest hno h, ?_, ?_, ?_, ?_, fun _ => ⟨ho, hstops⟩⟩
    · exact iff_of_false Bool.false_ne_true hcorrupt
    · exact iff_of_false Bool.false_ne_true.symm hcorrupt
    · exact iff_of_false Bool.false_ne_true htorn
    · rintro (h | h) <;> cases h
  | torn _ =>
    have hcorrupt : ¬Stops file.bytes good .corrupt := fun h => by cases stops_unique hstops h
    refine ⟨rfl, hlog, fun rs' e h => hlog.longest hno h, ?_, ?_, ?_, fun _ => rfl, ?_⟩
    · exact iff_of_false Bool.false_ne_true hcorrupt
    · exact iff_of_false Bool.false_ne_true.symm hcorrupt
    · exact iff_of_true rfl hstops
    · rintro ⟨-, h⟩
      cases h
  | corrupt _ =>
    have htorn : ¬Stops file.bytes good .torn := fun h => by cases stops_unique hstops h
    refine ⟨rfl, hlog, fun rs' e h => hlog.longest hno h, ?_, ?_, ?_, fun _ => rfl, ?_⟩
    · exact iff_of_true rfl hstops
    · exact iff_of_true rfl hstops
    · exact iff_of_false Bool.false_ne_true htorn
    · rintro ⟨h, -⟩
      cases h

end

/-- One record is read in front of the tail, where the log is torn. -/
theorem load_grammar_strayTail : letI := documentedZlib
    ∃ res good offset, WALLoader.load (.ofBytes strayTailLog "wal") 3 = (.ok res, offset) ∧
      res.records = [⟨.ofByte 5, .ofByte 6, .put, 1⟩] ∧ Log strayTailLog 40 res.records good ∧
      Stops strayTailLog good .torn ∧ offset = good := by
  let := documentedZlib
  have hf := ReadableFile.ofBytes_sound strayTailLog "wal"
  have hat : At strayTailLog 0 (WALFileHeader.create 3 1).bytes := List.prefix_append _ _
  obtain ⟨res, good, offset, hload, -, hlog, -, -, -, htorn, hoffset, -⟩ :=
    load_grammar hf (fileHeader_load_at hf hat)
  have hres := strayTailLog_load
  rw [hload] at hres
  obtain ⟨hrecords, htail⟩ := Prod.mk.inj (Except.ok.inj hres)
  exact ⟨res, good, offset, hload, hrecords, hlog, htorn.mp htail, hoffset (.inr htail)⟩

end Kvdb.WALGrammar
