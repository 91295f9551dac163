import Kvdb.Lib.Append
import Kvdb.Lib.Bytes
import Kvdb.Lib.Reader
import Kvdb.Utils.Status

/-!
# Block-aware file access

`utils/file_helpers` and the `blockio` part of `utils/endian_io`: a field never
crosses a block edge.  A writer that would cross it first fills the block with
`0xCD` bytes, a reader skips to the edge.  File offsets are natural numbers.

* `writeField_isAppend`: a field writer appends `padding ++ field`.
* `readField_at`: a field reader finds the field behind the same padding.
-/

namespace Kvdb

open Faulty Bytes

/-- An open file to read: its bytes, and the errors its system calls report. -/
structure ReadableFile where
  bytes : List UInt8
  path : String
  /-- the error a read at this offset reports -/
  fault : Nat → Option Status
  /-- the error `get_file_size` reports -/
  sizeFault : Option Status

namespace ReadableFile

/-- A file whose system calls all succeed. -/
def ofBytes (bytes : List UInt8) (path : String) : ReadableFile := ⟨bytes, path, fun _ => none, none⟩

def getFileSize (file : ReadableFile) : Except Status Nat :=
  match file.sizeFault with
  | none => .ok file.bytes.length
  | some e => .error e

/-- No system call on the file fails. -/
structure Sound (file : ReadableFile) : Prop where
  fault : ∀ off, file.fault off = none
  size : file.sizeFault = none

theorem ofBytes_sound (bytes : List UInt8) (path : String) : (ofBytes bytes path).Sound :=
  ⟨fun _ => rfl, rfl⟩

theorem Sound.getFileSize {file : ReadableFile} (h : file.Sound) :
    file.getFileSize = .ok file.bytes.length := by
  rw [ReadableFile.getFileSize, h.size]

end ReadableFile

abbrev FileReader := Reader ReadableFile Status

/-! ## Block arithmetic -/

/-- `fits_in_block`. -/
def fitsInBlock (offset size blockSize : Nat) : Except Status Unit :=
  if blockSize = 0 then .error ⟨.invalidArgument, "block size can't be equal to zero"⟩
  else if size = 0 then .ok ()
  else if size ≤ blockSize - offset % blockSize then .ok ()
  else .error ⟨.sizeExceedsBlockBoundary, "Size exceeds block boundary"⟩

/-- How far the next block edge is, when `size` bytes at `offset` would cross it. -/
def padSize (offset size blockSize : Nat) : Nat :=
  if size = 0 ∨ size ≤ blockSize - offset % blockSize then 0 else blockSize - offset % blockSize

/-- The bytes a writer fills the block with. -/
def padding (offset size blockSize : Nat) : List UInt8 :=
  List.replicate (padSize offset size blockSize) 0xCD

@[simp] theorem length_padding (offset size blockSize : Nat) :
    (padding offset size blockSize).length = padSize offset size blockSize := by
  simp [padding]

theorem padSize_of_fits {offset size blockSize : Nat} (h : size ≤ blockSize - offset % blockSize) :
    padSize offset size blockSize = 0 := by
  simp [padSize, h]

theorem padding_of_fits {offset size blockSize : Nat} (h : size ≤ blockSize - offset % blockSize) :
    padding offset size blockSize = [] := by
  simp [padding, padSize_of_fits h]

theorem fitsInBlock_cases (offset size : Nat) {blockSize : Nat} (hb : 0 < blockSize) :
    (fitsInBlock offset size blockSize = .ok () ∧ padSize offset size blockSize = 0) ∨
    (fitsInBlock offset size blockSize =
        .error ⟨.sizeExceedsBlockBoundary, "Size exceeds block boundary"⟩ ∧
      padSize offset size blockSize = blockSize - offset % blockSize ∧
      blockSize - offset % blockSize < size) := by
  have hb0 : blockSize ≠ 0 := by omega
  by_cases hs : size = 0
  · left
    simp [fitsInBlock, padSize, hb0, hs]
  · by_cases hle : size ≤ blockSize - offset % blockSize
    · left
      simp [fitsInBlock, padSize, hb0, hle]
    · right
      refine ⟨by simp [fitsInBlock, hb0, hs, hle], by simp [padSize, hs, hle], by omega⟩

/-- Behind the padding the bytes fit in their block. -/
theorem fits_after_padding {offset size blockSize : Nat} (hs : size ≤ blockSize) :
    size ≤ blockSize - (offset + padSize offset size blockSize) % blockSize := by
  by_cases hle : size = 0 ∨ size ≤ blockSize - offset % blockSize
  · simp only [padSize, hle, if_true, Nat.add_zero]
    omega
  · have hb : 0 < blockSize := by omega
    have hlt := Nat.mod_lt offset hb
    have hdiv := Nat.div_add_mod offset blockSize
    have hedge : offset + (blockSize - offset % blockSize) = blockSize * (offset / blockSize + 1) := by
      rw [Nat.mul_add, Nat.mul_one]
      omega
    simp only [padSize, hle, if_false]
    rw [hedge, Nat.mul_mod_right]
    omega

/-- A part of a range that fits in its block fits too. -/
theorem fits_part {offset size blockSize k m : Nat} (h : size ≤ blockSize - offset % blockSize)
    (hm : 0 < m) (hkm : k + m ≤ size) : m ≤ blockSize - (offset + k) % blockSize := by
  have hb : 0 < blockSize := by omega
  have hlt := Nat.mod_lt offset hb
  have hmod : (offset + k) % blockSize = offset % blockSize + k := by
    rw [Nat.add_mod, Nat.mod_eq_of_lt (show k < blockSize by omega), Nat.mod_eq_of_lt (by omega)]
  omega

/-! ## Writing -/

/-- `check_writer_offset`. -/
def checkWriterOffset : WriterM Status Unit := do
  let w ← Faulty.get
  ensure (w.bytes.length == w.offset)
    ⟨.invalidOffset, "writable file cursor " ++ toString w.bytes.length ++ " and tracked offset "
      ++ toString w.offset ++ " differ"⟩

/-- The loop of `align_to_block_boundary` over chunks of at most `chunk` bytes. -/
def appendPoison (chunk : Nat) : Nat → Nat → WriterM Status Unit
  | 0, _ => pure ()
  | fuel + 1, pad =>
    if pad = 0 then pure ()
    else do
      append (List.replicate (min pad chunk) 0xCD)
      appendPoison chunk fuel (pad - min pad chunk)

/-- `align_to_block_boundary` on a writable file. -/
def alignToBlockBoundary (blockSize : Nat) : WriterM Status Unit := do
  ensure (blockSize != 0) ⟨.invalidArgument, "block size can't be equal to zero"⟩
  let w ← Faulty.get
  ensure (w.offset == w.bytes.length)
    ⟨.invalidOffset, "manually tracked offset is not equal to file cursor"⟩
  if w.offset % blockSize = 0 then pure ()
  else
    appendPoison (min 4096 (blockSize - w.offset % blockSize)) (blockSize - w.offset % blockSize)
      (blockSize - w.offset % blockSize)

/-- `ensure_fits_in_block` on a writable file. -/
def ensureFitsInBlock (size blockSize : Nat) : WriterM Status Unit := do
  ensure (blockSize != 0) ⟨.invalidArgument, "block size can't be equal to zero"⟩
  let w ← Faulty.get
  ensure (w.offset == w.bytes.length)
    ⟨.invalidOffset, "manually tracked offset is not equal to file cursor"⟩
  ensure (decide (size ≤ blockSize)) ⟨.sizeExceedsBlockSize, "Size exceeds block size"⟩
  match fitsInBlock w.offset size blockSize with
  | .ok () => pure ()
  | .error e => if e.code ≠ .sizeExceedsBlockBoundary then fail e else alignToBlockBoundary blockSize

/-- `prepare_write`. -/
def prepareWrite (size blockSize : Nat) : WriterM Status Unit := do
  ensure (blockSize != 0) ⟨.invalidArgument, "block size must be greater than zero"⟩
  checkWriterOffset
  ensureFitsInBlock size blockSize

/-- The common body of the `blockio` writers: padding, then the encoded field. -/
def writeField (data : List UInt8) (blockSize : Nat) : WriterM Status Unit := do
  prepareWrite data.length blockSize
  append data

def writeU8 (value : UInt8) (blockSize : Nat) : WriterM Status Unit := writeField (u8Bytes value) blockSize

def writeU16Le (value : UInt16) (blockSize : Nat) : WriterM Status Unit :=
  writeField (u16Bytes value) blockSize

def writeU32Le (value : UInt32) (blockSize : Nat) : WriterM Status Unit :=
  writeField (u32Bytes value) blockSize

def writeU64Le (value : UInt64) (blockSize : Nat) : WriterM Status Unit :=
  writeField (u64Bytes value) blockSize

def writeBytes (data : List UInt8) (blockSize : Nat) : WriterM Status Unit := writeField data blockSize

theorem checkWriterOffset_apply {w : Writer Status} (h : w.Synced) : checkWriterOffset w = (.ok (), w) := by
  rw [checkWriterOffset, bind_ok (get_apply w), ensure_apply]
  simp [h.symm]

theorem checkWriterOffset_isAppend : IsAppend checkWriterOffset fun _ => [] :=
  fun _ hw => checkWriterOffset_apply hw

theorem appendPoison_isAppend (chunk fuel pad : Nat) (hc : 0 < chunk) (h : pad ≤ fuel) :
    IsAppend (appendPoison chunk fuel pad) fun _ => List.replicate pad 0xCD := by
  induction fuel generalizing pad with
  | zero =>
    have hp : pad = 0 := by omega
    subst hp
    exact isAppend_pure
  | succ fuel ih =>
    rw [appendPoison]
    split
    · next hp =>
      subst hp
      exact isAppend_pure
    · have hrest := ih (pad - min pad chunk) (by omega)
      refine ((isAppend_append _).bind hrest).congr fun o => ?_
      rw [List.replicate_append_replicate]
      congr 1
      omega

theorem alignToBlockBoundary_apply {blockSize : Nat} (hb : 0 < blockSize) {w : Writer Status}
    (hw : w.Synced) (hin : w.offset % blockSize ≠ 0) :
    alignToBlockBoundary blockSize w =
      append (List.replicate (blockSize - w.offset % blockSize) 0xCD) w := by
  have hb0 : (blockSize != 0) = true := by simp; omega
  have hlt := Nat.mod_lt w.offset hb
  have ho : (w.offset == w.bytes.length) = true := beq_iff_eq.mpr hw
  have hpoison := appendPoison_isAppend (min 4096 (blockSize - w.offset % blockSize)) _ _ (by omega)
    (Nat.le_refl (blockSize - w.offset % blockSize))
  rw [alignToBlockBoundary, bind_ok (by rw [ensure_apply, if_pos hb0]), bind_ok (get_apply w),
    bind_ok (by rw [ensure_apply, if_pos ho]), if_neg hin, hpoison w hw]

theorem ensureFitsInBlock_isAppend {size blockSize : Nat} (hb : 0 < blockSize) (hs : size ≤ blockSize) :
    IsAppend (ensureFitsInBlock size blockSize) fun off => padding off size blockSize := by
  intro w hw
  have hb0 : (blockSize != 0) = true := by simp; omega
  have ho : (w.offset == w.bytes.length) = true := beq_iff_eq.mpr hw
  rw [ensureFitsInBlock, bind_ok (by rw [ensure_apply, if_pos hb0]), bind_ok (get_apply w),
    bind_ok (by rw [ensure_apply, if_pos ho]), bind_ok (by rw [ensure_apply, if_pos (by simpa using hs)])]
  rcases fitsInBlock_cases w.offset size hb with ⟨hf, hp⟩ | ⟨hf, hp, hlt⟩
  · have hpad : padding w.offset size blockSize = [] := by rw [padding, hp]; rfl
    simp only [hf, hpad]
    rfl
  · have hin : w.offset % blockSize ≠ 0 := by omega
    simp only [hf, padding, hp]
    exact alignToBlockBoundary_apply hb hw hin

/-- A field writer appends the padding and the field. -/
theorem writeField_isAppend {data : List UInt8} {blockSize : Nat} (hb : 0 < blockSize)
    (hd : data.length ≤ blockSize) :
    IsAppend (writeField data blockSize) fun off => padding off data.length blockSize ++ data := by
  have hens : IsAppend (ensure (blockSize != 0)
      ⟨.invalidArgument, "block size must be greater than zero"⟩ : WriterM Status Unit) fun _ => [] := by
    intro w _
    have hb0 : (blockSize != 0) = true := by simp; omega
    rw [ensure_apply, if_pos hb0, append_nil]
  have hprep := hens.bind (checkWriterOffset_isAppend.bind (ensureFitsInBlock_isAppend hb hd))
  refine (IsAppend.bind hprep (isAppend_append data)).congr fun o => ?_
  simp

/-- Inside a range that fits in its block a field is written without padding. -/
theorem writeField_isAppend_of_fits {data : List UInt8} {blockSize : Nat} (hb : 0 < blockSize)
    {w : Writer Status} (hw : w.Synced) (hfit : data.length ≤ blockSize - w.offset % blockSize) :
    writeField data blockSize w = append data w := by
  have hp := padding_of_fits hfit
  rw [writeField_isAppend hb (by omega) w hw]
  simp only [hp, List.nil_append]

/-! ## Programs that stay inside one block -/

/-- `m` appends `d`, provided the block has room for all of it. -/
def AppendsFitting (blockSize : Nat) (m : WriterM Status Unit) (d : List UInt8) : Prop :=
  ∀ w : Writer Status, w.Synced → (d = [] ∨ d.length ≤ blockSize - w.offset % blockSize) →
    m w = append d w

section AppendsFitting

variable {blockSize : Nat} {m k : WriterM Status Unit} {d e : List UInt8}

theorem writeField_fitting (hb : 0 < blockSize) (hne : d ≠ []) :
    AppendsFitting blockSize (writeField d blockSize) d := by
  intro w hw hfit
  rcases hfit with h0 | hfit
  · exact absurd h0 hne
  · exact writeField_isAppend_of_fits hb hw hfit

theorem AppendsFitting.bind (hm : AppendsFitting blockSize m d) (hk : AppendsFitting blockSize k e) :
    AppendsFitting blockSize (m >>= fun _ => k) (d ++ e) := by
  intro w hw hfit
  have hd : d = [] ∨ d.length ≤ blockSize - w.offset % blockSize := by
    rcases hfit with h0 | hle
    · exact .inl (List.append_eq_nil_iff.mp h0).1
    · rw [List.length_append] at hle
      exact .inr (by omega)
  refine (bind_congr_append (hm w hw hd) hw fun w' hw' ho => hk w' hw' ?_).trans (append_append d e w)
  rcases List.eq_nil_or_concat e with he | ⟨_, _, he⟩
  · exact .inl he
  · have hpos : 0 < e.length := by rw [he]; simp
    rcases hfit with h0 | hle
    · exact .inl (List.append_eq_nil_iff.mp h0).2
    · rw [List.length_append] at hle
      rw [ho]
      exact .inr (fits_part hle hpos (Nat.le_refl _))

theorem AppendsFitting.then (hm : AppendsFitting blockSize m []) (hk : AppendsFitting blockSize k e) :
    AppendsFitting blockSize (m >>= fun _ => k) e :=
  hm.bind hk

/-- Asking for room that the following bytes have anyway adds no padding. -/
theorem AppendsFitting.ensureFits {size : Nat} (hb : 0 < blockSize) (hs : size ≤ d.length)
    (hk : AppendsFitting blockSize k d) :
    AppendsFitting blockSize (ensureFitsInBlock size blockSize >>= fun _ => k) d := by
  intro w hw hfit
  have hsz : size = 0 ∨ size ≤ blockSize - w.offset % blockSize := by
    rcases hfit with h0 | hle
    · rw [h0] at hs
      exact .inl (by simpa using hs)
    · exact .inr (by omega)
  have hp : padding w.offset size blockSize = [] := by simp [padding, padSize, hsz]
  have hlt := Nat.mod_lt w.offset hb
  have happ := ensureFitsInBlock_isAppend hb (show size ≤ blockSize by omega) w hw
  simp only [hp, append_nil] at happ
  rw [bind_ok happ]
  exact hk w hw hfit

theorem AppendsFitting.guard {b : Bool} {err : Status} (hb : b = true) (hk : AppendsFitting blockSize k d) :
    AppendsFitting blockSize (ensure b err >>= fun _ => k) d := by
  intro w hw hfit
  rw [bind_ok (by rw [ensure_apply, if_pos hb])]
  exact hk w hw hfit

end AppendsFitting

/-! ## Reading -/

/-- `align_to_block_boundary` and `ensure_fits_in_block` on a readable file: skip to the
block edge when `size` bytes would cross it. -/
def ensureFitsInBlockRead (size blockSize : Nat) : FileReader Unit := fun _ off =>
  if blockSize = 0 then .error ⟨.invalidArgument, "block size can't be equal to zero"⟩
  else if size > blockSize then .error ⟨.sizeExceedsBlockSize, "Size exceeds block size"⟩
  else
    match fitsInBlock off size blockSize with
    | .ok () => .ok ((), off)
    | .error e =>
      if e.code ≠ .sizeExceedsBlockBoundary then .error e
      else if off % blockSize = 0 then .ok ((), off)
      else .ok ((), off + (blockSize - off % blockSize))

/-- `ReadableFile::read_exact_at`. -/
def readExactAt (size : Nat) : FileReader (List UInt8) := fun file off =>
  if size = 0 then .ok ([], off)
  else
    match file.fault off with
    | some e => .error e
    | none =>
      match readAt file.bytes off size with
      | some d => .ok (d, off + size)
      | none =>
        .error ⟨.unexpectedEOF, "Unexpected end of file during read of " ++ toString size ++ " bytes on "
          ++ file.path⟩

/-- The common body of the `blockio` readers. -/
def readField (size blockSize : Nat) : FileReader (List UInt8) := do
  Reader.ensure (blockSize != 0) ⟨.invalidArgument, "block size must be greater than zero"⟩
  ensureFitsInBlockRead size blockSize
  readExactAt size

def readU8 (blockSize : Nat) : FileReader UInt8 := do
  let d ← readField 1 blockSize
  pure (u8Of d)

def readU16Le (blockSize : Nat) : FileReader UInt16 := do
  let d ← readField 2 blockSize
  pure (u16Of d)

def readU32Le (blockSize : Nat) : FileReader UInt32 := do
  let d ← readField 4 blockSize
  pure (u32Of d)

def readU64Le (blockSize : Nat) : FileReader UInt64 := do
  let d ← readField 8 blockSize
  pure (u64Of d)

/-- `read_bytes`. -/
def readBytes (size blockSize : Nat) : FileReader (List UInt8) := do
  Reader.ensure (blockSize != 0) ⟨.invalidArgument, "block size must be greater than zero"⟩
  if size = 0 then pure [] else readField size blockSize

theorem ensureFitsInBlockRead_apply {size blockSize : Nat} (hb : 0 < blockSize) (hs : size ≤ blockSize)
    (file : ReadableFile) (off : Nat) :
    ensureFitsInBlockRead size blockSize file off = .ok ((), off + padSize off size blockSize) := by
  have hb0 : blockSize ≠ 0 := by omega
  rw [ensureFitsInBlockRead, if_neg hb0, if_neg (by omega)]
  rcases fitsInBlock_cases off size hb with ⟨hf, hp⟩ | ⟨hf, hp, hlt⟩
  · simp [hf, hp]
  · have hin : off % blockSize ≠ 0 := by omega
    simp [hf, hp, hin]

theorem readExactAt_at {file : ReadableFile} (hf : file.Sound) {off : Nat} {d : List UInt8} (hne : d ≠ [])
    (h : At file.bytes off d) : readExactAt d.length file off = .ok (d, off + d.length) := by
  have hl : d.length ≠ 0 := by simpa using hne
  rw [readExactAt, if_neg hl, hf.fault off]
  simp [h.readAt hne]

/-- A field reader finds the field behind the padding. -/
theorem readField_at {file : ReadableFile} (hf : file.Sound) {off blockSize : Nat} {d : List UInt8}
    (hb : 0 < blockSize) (hd : d.length ≤ blockSize) (hne : d ≠ [])
    (h : At file.bytes (off + padSize off d.length blockSize) d) :
    readField d.length blockSize file off = .ok (d, off + padSize off d.length blockSize + d.length) := by
  rw [readField, Reader.ensure_bind (by simp; omega),
    Reader.bind_ok (ensureFitsInBlockRead_apply hb hd file off), readExactAt_at hf hne h]

/-- A field that was read stands behind the padding. -/
theorem readField_ok {file : ReadableFile} {off off' size blockSize : Nat} {d : List UInt8} (hb : 0 < blockSize)
    (hs : size ≤ blockSize) (h0 : size ≠ 0) (h : readField size blockSize file off = .ok (d, off')) :
    off' = off + padSize off size blockSize + size ∧
      readAt file.bytes (off + padSize off size blockSize) size = some d := by
  rw [readField, Reader.ensure_bind (by simp; omega),
    Reader.bind_ok (ensureFitsInBlockRead_apply hb hs file off), readExactAt, if_neg h0] at h
  split at h
  · cases h
  · split at h
    · next hread =>
      cases h
      exact ⟨rfl, hread⟩
    · cases h

section Fields

variable {file : ReadableFile} {off blockSize : Nat}

theorem readU8_at (hf : file.Sound) (hb : 0 < blockSize) {x : UInt8}
    (h : At file.bytes (off + padSize off 1 blockSize) (u8Bytes x)) :
    readU8 blockSize file off = .ok (x, off + padSize off 1 blockSize + 1) := by
  have hr := readField_at hf (d := u8Bytes x) hb (by simp; omega) (by simp [u8Bytes]) h
  rw [length_u8Bytes] at hr
  rw [readU8, Reader.bind_ok hr]
  simp

theorem readU16Le_at (hf : file.Sound) (hb : 2 ≤ blockSize) {x : UInt16}
    (h : At file.bytes (off + padSize off 2 blockSize) (u16Bytes x)) :
    readU16Le blockSize file off = .ok (x, off + padSize off 2 blockSize + 2) := by
  have hne : u16Bytes x ≠ [] := by
    intro h0
    simpa using congrArg List.length h0
  have hb0 : 0 < blockSize := by omega
  have hr := readField_at hf (d := u16Bytes x) hb0 (by simpa using hb) hne (by simpa using h)
  rw [length_u16Bytes] at hr
  rw [readU16Le, Reader.bind_ok hr]
  simp

theorem readU32Le_at (hf : file.Sound) (hb : 4 ≤ blockSize) {x : UInt32}
    (h : At file.bytes (off + padSize off 4 blockSize) (u32Bytes x)) :
    readU32Le blockSize file off = .ok (x, off + padSize off 4 blockSize + 4) := by
  have hne : u32Bytes x ≠ [] := by
    intro h0
    simpa using congrArg List.length h0
  have hb0 : 0 < blockSize := by omega
  have hr := readField_at hf (d := u32Bytes x) hb0 (by simpa using hb) hne (by simpa using h)
  rw [length_u32Bytes] at hr
  rw [readU32Le, Reader.bind_ok hr]
  simp

theorem readU64Le_at (hf : file.Sound) (hb : 8 ≤ blockSize) {x : UInt64}
    (h : At file.bytes (off + padSize off 8 blockSize) (u64Bytes x)) :
    readU64Le blockSize file off = .ok (x, off + padSize off 8 blockSize + 8) := by
  have hne : u64Bytes x ≠ [] := by
    intro h0
    simpa using congrArg List.length h0
  have hb0 : 0 < blockSize := by omega
  have hr := readField_at hf (d := u64Bytes x) hb0 (by simpa using hb) hne (by simpa using h)
  rw [length_u64Bytes] at hr
  rw [readU64Le, Reader.bind_ok hr]
  simp

theorem readBytes_at (hf : file.Sound) (hb : 0 < blockSize) {d : List UInt8} (hd : d.length ≤ blockSize)
    (h : At file.bytes (off + padSize off d.length blockSize) d) :
    readBytes d.length blockSize file off = .ok (d, off + padSize off d.length blockSize + d.length) := by
  rw [readBytes, Reader.ensure_bind (by simp; omega)]
  split
  · next h0 =>
    have hnil : d = [] := List.eq_nil_of_length_eq_zero h0
    subst hnil
    simp [padSize]
  · next h0 =>
    have hne : d ≠ [] := fun hnil => h0 (by rw [hnil]; rfl)
    exact readField_at hf hb hd hne h

theorem readField_fits {off' size : Nat} {d : List UInt8} (h0 : size ≠ 0)
    (hfit : size ≤ blockSize - off % blockSize)
    (h : readField size blockSize file off = .ok (d, off')) :
    off' = off + size ∧ At file.bytes off d ∧ d.length = size := by
  obtain ⟨ho, hd⟩ := readField_ok (by omega) (by omega) h0 h
  rw [padSize_of_fits hfit, Nat.add_zero] at ho hd
  exact ⟨ho, at_of_readAt hd⟩

theorem readU8_fits {off' : Nat} {x : UInt8} (hfit : 1 ≤ blockSize - off % blockSize)
    (h : readU8 blockSize file off = .ok (x, off')) : off' = off + 1 ∧ At file.bytes off (u8Bytes x) := by
  obtain ⟨d, o, hd, hx⟩ := Reader.bind_eq_ok h
  cases hx
  obtain ⟨ho, hat, hlen⟩ := readField_fits (by omega) hfit hd
  exact ⟨ho, by rw [u8Bytes_u8Of hlen]; exact hat⟩

theorem readU32Le_fits {off' : Nat} {x : UInt32} (hfit : 4 ≤ blockSize - off % blockSize)
    (h : readU32Le blockSize file off = .ok (x, off')) : off' = off + 4 ∧ At file.bytes off (u32Bytes x) := by
  obtain ⟨d, o, hd, hx⟩ := Reader.bind_eq_ok h
  cases hx
  obtain ⟨ho, hat, hlen⟩ := readField_fits (by omega) hfit hd
  exact ⟨ho, by rw [u32Bytes_u32Of hlen]; exact hat⟩

theorem readU64Le_fits {off' : Nat} {x : UInt64} (hfit : 8 ≤ blockSize - off % blockSize)
    (h : readU64Le blockSize file off = .ok (x, off')) : off' = off + 8 ∧ At file.bytes off (u64Bytes x) := by
  obtain ⟨d, o, hd, hx⟩ := Reader.bind_eq_ok h
  cases hx
  obtain ⟨ho, hat, hlen⟩ := readField_fits (by omega) hfit hd
  exact ⟨ho, by rw [u64Bytes_u64Of hlen]; exact hat⟩

theorem readBytes_fits {off' size : Nat} {d : List UInt8} (hb : 0 < blockSize)
    (hfit : size ≤ blockSize - off % blockSize) (h : readBytes size blockSize file off = .ok (d, off')) :
    off' = off + size ∧ At file.bytes off d ∧ d.length = size := by
  rw [readBytes, Reader.ensure_bind (by simp; omega)] at h
  split at h
  · next h0 =>
    cases h
    exact ⟨by omega, List.nil_prefix, h0.symm⟩
  · next h0 => exact readField_fits h0 hfit h

end Fields

/-! ## Readers that stay inside one block -/

/-- `r` reads the bytes `d` as `a`, provided they lie in one block. -/
def Decodes {α : Type} (blockSize : Nat) (r : FileReader α) (d : List UInt8) (a : α) : Prop :=
  ∀ (file : ReadableFile) (off : Nat), file.Sound → (d = [] ∨ d.length ≤ blockSize - off % blockSize) →
    At file.bytes off d → r file off = .ok (a, off + d.length)

section Decodes

variable {α β : Type} {blockSize : Nat} {d e : List UInt8}

theorem decodes_pure (a : α) : Decodes blockSize (pure a) [] a := fun _ _ _ _ _ => rfl

theorem Decodes.bind {r : FileReader α} {k : α → FileReader β} {a : α} {b : β}
    (hr : Decodes blockSize r d a) (hk : Decodes blockSize (k a) e b) :
    Decodes blockSize (r >>= k) (d ++ e) b := by
  intro file off hf hfit hat
  have hd : d = [] ∨ d.length ≤ blockSize - off % blockSize := by
    rcases hfit with h0 | hle
    · exact .inl (List.append_eq_nil_iff.mp h0).1
    · rw [List.length_append] at hle
      exact .inr (by omega)
  have he : e = [] ∨ e.length ≤ blockSize - (off + d.length) % blockSize := by
    rcases List.eq_nil_or_concat e with he | ⟨_, _, he⟩
    · exact .inl he
    · have hpos : 0 < e.length := by rw [he]; simp
      rcases hfit with h0 | hle
      · exact .inl (List.append_eq_nil_iff.mp h0).2
      · rw [List.length_append] at hle
        exact .inr (fits_part hle hpos (Nat.le_refl _))
  rw [Reader.bind_ok (hr file off hf hd hat.left), hk file _ hf he hat.right, List.length_append,
    Nat.add_assoc]

/-- The last field: what follows it reads nothing more. -/
theorem Decodes.last {r : FileReader α} {k : α → FileReader β} {a : α} {b : β}
    (hr : Decodes blockSize r d a) (hk : Decodes blockSize (k a) [] b) :
    Decodes blockSize (r >>= k) d b := by
  have h := hr.bind hk
  rw [List.append_nil] at h
  exact h

theorem Decodes.guard {b : Bool} {err : Status} {k : Unit → FileReader β} {x : β} (hb : b = true)
    (hk : Decodes blockSize (k ()) d x) : Decodes blockSize (Reader.ensure b err >>= k) d x := by
  intro file off hf hfit hat
  rw [Reader.ensure_bind hb]
  exact hk file off hf hfit hat

theorem Decodes.ensureFits {size : Nat} {k : Unit → FileReader β} {x : β} (hb : 0 < blockSize)
    (hs : size ≤ d.length) (hk : Decodes blockSize (k ()) d x) :
    Decodes blockSize (ensureFitsInBlockRead size blockSize >>= k) d x := by
  intro file off hf hfit hat
  have hsz : size = 0 ∨ size ≤ blockSize - off % blockSize := by
    rcases hfit with h0 | hle
    · rw [h0] at hs
      exact .inl (by simpa using hs)
    · exact .inr (by omega)
  have hp : padSize off size blockSize = 0 := by simp [padSize, hsz]
  have hlt := Nat.mod_lt off hb
  rw [Reader.bind_ok (ensureFitsInBlockRead_apply hb (show size ≤ blockSize by omega) file off), hp]
  exact hk file off hf hfit hat

theorem decodes_u8 (hb : 0 < blockSize) (x : UInt8) : Decodes blockSize (readU8 blockSize) (u8Bytes x) x := by
  intro file off hf hfit hat
  have hp : padSize off 1 blockSize = 0 := padSize_of_fits (by simpa [u8Bytes] using hfit)
  rw [readU8_at hf hb (by rw [hp]; exact hat), hp, length_u8Bytes]

theorem decodes_u32 (hb : 4 ≤ blockSize) (x : UInt32) :
    Decodes blockSize (readU32Le blockSize) (u32Bytes x) x := by
  intro file off hf hfit hat
  have hp : padSize off 4 blockSize = 0 := by
    rcases hfit with h0 | hle
    · exact absurd (congrArg List.length h0) (by simp)
    · exact padSize_of_fits (by simpa using hle)
  rw [readU32Le_at hf hb (by rw [hp]; exact hat), hp, length_u32Bytes]

theorem decodes_u64 (hb : 8 ≤ blockSize) (x : UInt64) :
    Decodes blockSize (readU64Le blockSize) (u64Bytes x) x := by
  intro file off hf hfit hat
  have hp : padSize off 8 blockSize = 0 := by
    rcases hfit with h0 | hle
    · exact absurd (congrArg List.length h0) (by simp)
    · exact padSize_of_fits (by simpa using hle)
  rw [readU64Le_at hf hb (by rw [hp]; exact hat), hp, length_u64Bytes]

theorem decodes_bytes (hb : 0 < blockSize) (d : List UInt8) :
    Decodes blockSize (readBytes d.length blockSize) d d := by
  intro file off hf hfit hat
  have hp : padSize off d.length blockSize = 0 := by
    rcases hfit with h0 | hle
    · simp [padSize, h0]
    · exact padSize_of_fits hle
  have hd : d.length ≤ blockSize := by
    rcases hfit with h0 | hle
    · simp [h0]
    · omega
  rw [readBytes_at hf hb hd (by rw [hp]; exact hat), hp]
  rfl

end Decodes

end Kvdb
