import Kvdb.Utils.Fields

/-!
# Writers and readers in lockstep

A sequence of `blockio` writes, and the reads of the same kinds and lengths from
the same offset.  Both sides decide about padding from the running offset alone,
so they take the same steps:

    write fs from off to off'  →  read (kinds of fs) from off  =  fs, at off'   (readSeq_writeSeq)

and no field crosses a block edge on the way.
-/

namespace Kvdb

open Faulty Bytes

/-- One value handed to a `blockio` writer. -/
inductive Field where
  | u8 (value : UInt8)
  | u16 (value : UInt16)
  | u32 (value : UInt32)
  | u64 (value : UInt64)
  | bytes (data : List UInt8)
deriving DecidableEq, Repr

/-- What a reader has to know about a field: its kind, and the length of a byte string. -/
inductive FieldKind where
  | u8
  | u16
  | u32
  | u64
  | bytes (size : Nat)
deriving DecidableEq, Repr

namespace Field

def kind : Field → FieldKind
  | u8 _ => .u8
  | u16 _ => .u16
  | u32 _ => .u32
  | u64 _ => .u64
  | bytes data => .bytes data.length

/-- The bytes of the field itself, without padding. -/
def encode : Field → List UInt8
  | u8 value => u8Bytes value
  | u16 value => u16Bytes value
  | u32 value => u32Bytes value
  | u64 value => u64Bytes value
  | bytes data => data

def write (blockSize : Nat) : Field → WriterM Status Unit
  | u8 value => writeU8 value blockSize
  | u16 value => writeU16Le value blockSize
  | u32 value => writeU32Le value blockSize
  | u64 value => writeU64Le value blockSize
  | bytes data => writeBytes data blockSize

end Field

def FieldKind.read (blockSize : Nat) : FieldKind → FileReader Field
  | u8 => do
    let value ← readU8 blockSize
    pure (.u8 value)
  | u16 => do
    let value ← readU16Le blockSize
    pure (.u16 value)
  | u32 => do
    let value ← readU32Le blockSize
    pure (.u32 value)
  | u64 => do
    let value ← readU64Le blockSize
    pure (.u64 value)
  | bytes size => do
    let data ← readBytes size blockSize
    pure (.bytes data)

/-- A sequence of writes. -/
def writeSeq (blockSize : Nat) : List Field → WriterM Status Unit
  | [] => pure ()
  | f :: fs => do
    f.write blockSize
    writeSeq blockSize fs

/-- The reads that go with it. -/
def readSeq (blockSize : Nat) : List FieldKind → FileReader (List Field)
  | [] => pure []
  | k :: ks => do
    let f ← k.read blockSize
    let fs ← readSeq blockSize ks
    pure (f :: fs)

/-- The `size` bytes at `off` lie in one block. -/
def InOneBlock (blockSize off size : Nat) : Prop :=
  size = 0 ∨ off / blockSize = (off + size - 1) / blockSize

section

variable {blockSize : Nat}

theorem inOneBlock_of_fits {off size : Nat} (hb : 0 < blockSize) (h : size ≤ blockSize - off % blockSize) :
    InOneBlock blockSize off size := by
  by_cases h0 : size = 0
  · exact .inl h0
  · right
    have hdiv := Nat.div_add_mod off blockSize
    have hlt := Nat.mod_lt off hb
    symm
    rw [Nat.div_eq_iff hb]
    have hmul : off / blockSize * blockSize = blockSize * (off / blockSize) := Nat.mul_comm _ _
    omega

/-- A byte string is not longer than a block, and a block holds every integer. -/
theorem Field.encode_le (hb : 8 ≤ blockSize) {f : Field}
    (hlen : ∀ data, f = .bytes data → data.length ≤ blockSize) : f.encode.length ≤ blockSize := by
  cases f with
  | u8 value => simp only [encode, length_u8Bytes]; omega
  | u16 value => simp only [encode, length_u16Bytes]; omega
  | u32 value => simp only [encode, length_u32Bytes]; omega
  | u64 value => simp only [encode, length_u64Bytes]; omega
  | bytes data => exact hlen data rfl

theorem Field.write_eq (f : Field) : f.write blockSize = writeField f.encode blockSize := by
  cases f <;> rfl

theorem Field.write_isAppend (hb : 0 < blockSize) {f : Field} (hf : f.encode.length ≤ blockSize) :
    IsAppend (f.write blockSize) fun off => padding off f.encode.length blockSize ++ f.encode := by
  rw [Field.write_eq]
  exact writeField_isAppend hb hf

/-- A reader of the field's kind finds the field behind the padding. -/
theorem Field.read_at (hb : 8 ≤ blockSize) {file : ReadableFile} (hs : file.Sound) {off : Nat} {f : Field}
    (hf : f.encode.length ≤ blockSize)
    (h : At file.bytes (off + padSize off f.encode.length blockSize) f.encode) :
    f.kind.read blockSize file off =
      .ok (f, off + padSize off f.encode.length blockSize + f.encode.length) := by
  cases f with
  | u8 value =>
    have hr := readU8_at hs (by omega) h
    exact Reader.bind_ok hr
  | u16 value =>
    simp only [encode, length_u16Bytes] at h ⊢
    exact Reader.bind_ok (readU16Le_at hs (by omega) h)
  | u32 value =>
    simp only [encode, length_u32Bytes] at h ⊢
    exact Reader.bind_ok (readU32Le_at hs (by omega) h)
  | u64 value =>
    simp only [encode, length_u64Bytes] at h ⊢
    exact Reader.bind_ok (readU64Le_at hs (by omega) h)
  | bytes data => exact Reader.bind_ok (readBytes_at hs (by omega) hf h)

theorem writeSeq_isAppend (hb : 0 < blockSize) {fs : List Field}
    (hfs : ∀ f ∈ fs, f.encode.length ≤ blockSize) :
    IsAppend (writeSeq blockSize fs) fun off => encodeFields blockSize off (fs.map Field.encode) := by
  induction fs with
  | nil => exact isAppend_pure
  | cons f fs ih =>
    have hrest := ih fun g hg => hfs g (List.mem_cons_of_mem f hg)
    refine ((Field.write_isAppend hb (hfs f List.mem_cons_self)).bind hrest).congr fun off => ?_
    rw [List.map_cons, encodeFields, List.append_assoc, List.length_append, length_padding, Nat.add_assoc]

/-- The readers find what stands at their offset, field by field. -/
theorem readSeq_at (hb : 8 ≤ blockSize) {file : ReadableFile} (hs : file.Sound) {fs : List Field} {off : Nat}
    (hfs : ∀ f ∈ fs, f.encode.length ≤ blockSize)
    (h : At file.bytes off (encodeFields blockSize off (fs.map Field.encode))) :
    readSeq blockSize (fs.map Field.kind) file off =
      .ok (fs, off + (encodeFields blockSize off (fs.map Field.encode)).length) := by
  induction fs generalizing off with
  | nil => rfl
  | cons f fs ih =>
    simp only [List.map_cons, encodeFields] at h ⊢
    have hpad := h.right
    rw [length_padding] at hpad
    have hf := Field.read_at hb hs (hfs f List.mem_cons_self) hpad.left
    have hrest := ih (fun g hg => hfs g (List.mem_cons_of_mem f hg)) hpad.right
    rw [readSeq, Reader.bind_ok hf, Reader.bind_ok hrest]
    simp only [Reader.pure_apply, List.length_append, length_padding, Nat.add_assoc]

/-- Writes of integers and of byte strings that a block can hold succeed on a file without faults.
Reading the same kinds and lengths back from the start gives the same values and ends where the
writer ended, and each field was put inside one block. -/
theorem readSeq_writeSeq (hb : 8 ≤ blockSize) (fs : List Field)
    (hlen : ∀ data, Field.bytes data ∈ fs → data.length ≤ blockSize) (w : Writer Status) (hw : w.Synced)
    (hr : w.room = none) :
    ∃ w', writeSeq blockSize fs w = (.ok (), w') ∧
      (∀ file : ReadableFile, file.Sound → file.bytes = w'.bytes →
        readSeq blockSize (fs.map Field.kind) file w.offset = .ok (fs, w'.offset)) ∧
      ∀ before f after, fs = before ++ f :: after →
        ∃ w₁ w₂ pad, writeSeq blockSize before w = (.ok (), w₁) ∧ f.write blockSize w₁ = (.ok (), w₂) ∧
          w₂.bytes = w₁.bytes ++ pad ++ f.encode ∧ w₂.bytes <+: w'.bytes ∧
          InOneBlock blockSize (w₁.bytes ++ pad).length f.encode.length := by
  have hb0 : 0 < blockSize := by omega
  have hfs : ∀ f ∈ fs, f.encode.length ≤ blockSize := fun f hf =>
    Field.encode_le hb fun data hd => hlen data (hd ▸ hf)
  have hwrite := (writeSeq_isAppend hb0 hfs).free hw hr
  refine ⟨_, hwrite, fun file hs hbytes => ?_, ?_⟩
  · rw [Writer.put_bytes] at hbytes
    have hat := at_append w.bytes (encodeFields blockSize w.offset (fs.map Field.encode)) []
    rw [List.append_nil, ← hbytes, ← hw] at hat
    rw [readSeq_at hb hs hfs hat, Writer.put_offset]
  · rintro before f after rfl
    have hle : ∀ g ∈ before, g.encode.length ≤ blockSize := fun g hg => hfs g (by simp [hg])
    have hbefore := (writeSeq_isAppend hb0 hle).free hw hr
    have hfle : f.encode.length ≤ blockSize := hfs f (by simp)
    have hsync := hw.put (encodeFields blockSize w.offset (before.map Field.encode)) none
    have hfield := (Field.write_isAppend hb0 hfle).free hsync rfl
    refine ⟨_, _, _, hbefore, hfield, (List.append_assoc _ _ _).symm, ?_, ?_⟩
    · -- what is written later is appended behind the field
      rw [List.map_append, List.map_cons, encodeFields_append]
      simp only [Writer.put_bytes, Writer.put_offset, encodeFields, List.append_assoc,
        List.prefix_append_right_inj, List.prefix_append]
    · rw [List.length_append, length_padding, ← hsync]
      exact inOneBlock_of_fits hb0 (fits_after_padding hfle)

end

/-- A byte string that has to move to the next block and fills most of it, an empty one, and an
integer that moves on. -/
theorem readSeq_writeSeq_padded :
    ∃ w', writeSeq 8 [.u16 513, .bytes [1, 2, 3, 4, 5, 6], .bytes [], .u8 7, .u64 9]
        ⟨[1, 2, 3], 3, none, ⟨.ioError, ""⟩⟩ = (.ok (), w') ∧
      ∀ file : ReadableFile, file.Sound → file.bytes = w'.bytes →
        readSeq 8 [.u16, .bytes 6, .bytes 0, .u8, .u64] file 3 =
          .ok ([.u16 513, .bytes [1, 2, 3, 4, 5, 6], .bytes [], .u8 7, .u64 9], w'.offset) := by
  obtain ⟨w', hwrite, hread, -⟩ :=
    readSeq_writeSeq (show 8 ≤ 8 by decide) [.u16 513, .bytes [1, 2, 3, 4, 5, 6], .bytes [], .u8 7, .u64 9]
      (by simp) ⟨[1, 2, 3], 3, none, ⟨.ioError, ""⟩⟩ rfl rfl
  exact ⟨w', hwrite, hread⟩

end Kvdb
