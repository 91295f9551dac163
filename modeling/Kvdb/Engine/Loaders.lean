import Kvdb.Engine.TableMeta
import Kvdb.SSTable.TableLoading

/-!
# Failed loads

`TableMeta::load` with the arena that its keys are copied into, beside the loaders of a
table and of its sections.  Each of them fails at many points, after no, one or several
allocations, and the loaders of the sections fail inside that of the table.  In all these
cases the arena is the one before the call (`loads_restore`): the bodies only let it grow,
and every exit goes through a rollback.
-/

namespace Kvdb

open Faulty Bytes

namespace TableMeta

/-- The fields of a table in front of its path and keys. -/
structure Fixed where
  tableId : UInt64
  level : UInt32
  minSeq : UInt64
  maxSeq : UInt64
  fileSize : UInt64
  recordCount : UInt64
  tombstoneCount : UInt64
  dataBlockCount : UInt64
  dataBytes : UInt64
  pathSize : UInt32
  smallestSize : UInt32
  largestSize : UInt32

def Fixed.read : FileReader Fixed := do
  let tableId ← readU64Le MANIFEST_BLOCK_SIZE
  let level ← readU32Le MANIFEST_BLOCK_SIZE
  let minSeq ← readU64Le MANIFEST_BLOCK_SIZE
  let maxSeq ← readU64Le MANIFEST_BLOCK_SIZE
  let fileSize ← readU64Le MANIFEST_BLOCK_SIZE
  let recordCount ← readU64Le MANIFEST_BLOCK_SIZE
  let tombstoneCount ← readU64Le MANIFEST_BLOCK_SIZE
  let dataBlockCount ← readU64Le MANIFEST_BLOCK_SIZE
  let dataBytes ← readU64Le MANIFEST_BLOCK_SIZE
  let pathSize ← readU32Le MANIFEST_BLOCK_SIZE
  let smallestSize ← readU32Le MANIFEST_BLOCK_SIZE
  let largestSize ← readU32Le MANIFEST_BLOCK_SIZE
  pure ⟨tableId, level, minSeq, maxSeq, fileSize, recordCount, tombstoneCount, dataBlockCount, dataBytes, pathSize,
    smallestSize, largestSize⟩

/-- The table of its fields, its path and its keys. -/
def Fixed.table (f : Fixed) (path smallest largest : List UInt8) : TableMeta where
  tableId := f.tableId
  level := f.level
  path := path
  minSeq := f.minSeq
  maxSeq := f.maxSeq
  fileSize := f.fileSize
  recordCount := f.recordCount
  tombstoneCount := f.tombstoneCount
  dataBlockCount := f.dataBlockCount
  dataBytes := f.dataBytes
  smallestKey := .ofTake smallest f.smallestSize
  largestKey := .ofTake largest f.largestSize

/-- `read_arena_bytes`. -/
def readArenaBytes (file : ReadableFile) (size : Nat) : LoadM (List UInt8) :=
  if size = 0 then pure []
  else do
    match ← LoadM.alloc size with
    | none => fail (.status ⟨.allocationFailed, "arena returned null for non-empty allocation"⟩)
    | some _ => LoadM.read file (readBytes size MANIFEST_BLOCK_SIZE)

/-- The part of `TableMeta::load` at its own cursor. -/
def loadAtCursor (file : ReadableFile) : LoadM TableMeta := do
  let fixed ← LoadM.read file Fixed.read
  LoadM.check
    (validateVariablePayloadSize fixed.pathSize.toNat fixed.smallestSize.toNat fixed.largestSize.toNat)
  let path ← LoadM.read file (readBytes fixed.pathSize.toNat MANIFEST_BLOCK_SIZE)
  let smallest ← readArenaBytes file fixed.smallestSize.toNat
  let largest ← readArenaBytes file fixed.largestSize.toNat
  let result := fixed.table path smallest largest
  LoadM.check result.validate
  pure result

/-- `TableMeta::load`: the caller's offset is set only behind the last check. -/
def loadInto (file : ReadableFile) : LoadM TableMeta :=
  .rollingBack do
    let s ← get
    let (result, cursor) ← LoadM.withCursor s.offset (loadAtCursor file)
    LoadM.setOffset cursor
    pure result

/-- The loader without the arena, as its fixed fields and the rest. -/
theorem load_eq : load = (do
    let f ← Fixed.read
    Reader.lift (validateVariablePayloadSize f.pathSize.toNat f.smallestSize.toNat f.largestSize.toNat)
    let path ← readBytes f.pathSize.toNat MANIFEST_BLOCK_SIZE
    let smallest ← readBytes f.smallestSize.toNat MANIFEST_BLOCK_SIZE
    let largest ← readBytes f.largestSize.toNat MANIFEST_BLOCK_SIZE
    Reader.lift (f.table path smallest largest).validate
    pure (f.table path smallest largest) : FileReader TableMeta) := by
  unfold Fixed.read
  simp only [Reader.bind_assoc, Reader.pure_bind]
  rfl

theorem readArenaBytes_ok {file : ReadableFile} {size : Nat} {d : List UInt8} {s s' : LoadState}
    (h : readArenaBytes file size s = (.ok d, s')) :
    readBytes size MANIFEST_BLOCK_SIZE file s.offset = .ok (d, s'.offset) := by
  unfold readArenaBytes at h
  by_cases hsize : size = 0
  · rw [if_pos hsize] at h
    cases h
    rw [hsize]
    rfl
  · rw [if_neg hsize] at h
    obtain ⟨pointer, s₁, halloc, h⟩ := bind_eq_ok h
    have hoffset := LoadM.alloc_offset halloc
    cases pointer with
    | none => cases h
    | some p =>
      obtain ⟨hread, -⟩ := LoadM.read_ok h
      rw [← hoffset]
      exact hread

/-- What the loader gives is what stands in the file. -/
theorem loadInto_ok {file : ReadableFile} {t : TableMeta} {s s' : LoadState} (h : loadInto file s = (.ok t, s')) :
    load file s.offset = .ok (t, s'.offset) := by
  obtain ⟨s₀, _, hs₀, h⟩ := bind_eq_ok (LoadM.rollingBack_ok.mp h)
  cases hs₀
  obtain ⟨⟨result, cursor⟩, s₁, hcursor, h⟩ := bind_eq_ok h
  cases h
  obtain ⟨u, hload, hoff, -⟩ := LoadM.withCursor_ok hcursor
  dsimp only at hload hoff
  rw [load_eq, hoff]
  obtain ⟨fixed, u₁, hfixed, hload⟩ := bind_eq_ok hload
  rw [Reader.bind_ok (LoadM.read_ok hfixed).1]
  obtain ⟨_, hsizes, hload⟩ := LoadM.check_bind_ok hload
  rw [hsizes]
  obtain ⟨path, u₂, hpath, hload⟩ := bind_eq_ok hload
  obtain ⟨smallest, u₃, hsmallest, hload⟩ := bind_eq_ok hload
  obtain ⟨largest, u₄, hlargest, hload⟩ := bind_eq_ok hload
  obtain ⟨_, hvalid, hload⟩ := LoadM.check_bind_ok hload
  cases hload
  show (readBytes _ _ >>= _) file u₁.offset = _
  rw [Reader.bind_ok (LoadM.read_ok hpath).1, Reader.bind_ok (readArenaBytes_ok hsmallest),
    Reader.bind_ok (readArenaBytes_ok hlargest), hvalid]
  rfl

end TableMeta

/-! ## Nothing is left behind -/

open LoadM

section

variable [Zlib]

theorem IndexSection.restores_loadImpl (file : ReadableFile) (indexOffset expectedIndexSize : Nat)
    (validateLayout : Bool) (firstDataBlockOffset dataBlockCount : Nat) :
    Restores (loadImpl file indexOffset expectedIndexSize validateLayout firstDataBlockOffset dataBlockCount) := by
  refine Grows.restores ((grows_check _).bind fun r => ?_)
  have hrest : Grows (do
      LoadM.check r.1.validate
      LoadM.setOffset r.2.2
      pure r.1 : LoadM IndexSection) :=
    (grows_check _).bind fun _ => (grows_setOffset _).bind fun _ => grows_pure _
  dsimp only
  split
  · exact (grows_alloc _).bind fun _ => hrest
  · exact hrest

theorem MetaSection.restores_payload (file : ReadableFile) (header : Header) : Restores (Payload.load file header) := by
  refine Grows.restores ((grows_check _).bind fun _ => (grows_read _ _).bind fun _ =>
    (grows_read _ _).bind fun fixed => ?_)
  have hrest : Grows (do
      let result ← LoadM.read file fixed.readKeys
      LoadM.ensure (result.calculateCrc32 == header.crc32) ⟨.checksumMismatch, "meta payload CRC mismatch"⟩
      LoadM.check result.validate
      pure result : LoadM Payload) :=
    (grows_read _ _).bind fun _ => (grows_ensure _ _).bind fun _ => (grows_check _).bind fun _ => grows_pure _
  refine (grows_check _).bind fun _ => ?_
  dsimp only
  split
  · exact (grows_alloc _).bind fun _ => hrest
  · exact hrest

theorem MetaSection.restores_load (file : ReadableFile) (index : IndexSection) (metaOffset : Nat) :
    Restores (load file index metaOffset) := by
  refine Grows.restores ((grows_ensure _ _).bind fun _ => (grows_setOffset _).bind fun _ => ?_)
  refine (grows_read _ _).bind fun header => (restores_payload file header).grows.bind fun payload => ?_
  exact (grows_check _).bind fun _ => grows_pure _

theorem SSTable.grows_loadSections (file : ReadableFile) : Grows (loadSections file) := by
  refine (grows_check _).bind fun header => (grows_check _).bind fun footer => (grows_check _).bind fun _ => ?_
  refine (grows_check _).bind fun view => (grows_ensure _ _).bind fun _ => (grows_check _).bind fun ends => ?_
  refine ((IndexSection.restores_loadImpl file _ _ _ _ _).grows.withCursor _).bind fun index =>
    (grows_ensure _ _).bind fun _ => ?_
  refine (grows_check _).bind fun bloom => (grows_ensure _ _).bind fun _ => ?_
  refine ((MetaSection.restores_load file _ _).grows.withCursor _).bind fun metadata =>
    (grows_ensure _ _).bind fun _ => ?_
  exact grows_pure _

end

theorem TableMeta.grows_readArenaBytes (file : ReadableFile) (size : Nat) : Grows (readArenaBytes file size) := by
  unfold readArenaBytes
  split
  · exact grows_pure []
  · refine (grows_alloc size).bind fun pointer => ?_
    cases pointer with
    | none => exact fun s => Arena.Extends.refl s.memory.arena
    | some _ => exact grows_read file _

theorem TableMeta.grows_loadAtCursor (file : ReadableFile) : Grows (loadAtCursor file) := by
  refine (grows_read _ _).bind fun fixed => (grows_check _).bind fun _ => (grows_read _ _).bind fun path => ?_
  refine (grows_readArenaBytes file _).bind fun smallest => (grows_readArenaBytes file _).bind fun largest => ?_
  exact (grows_check _).bind fun _ => grows_pure _

/-- **Failed loads.**  Whatever the file and the arena, an error of a loader leaves the arena and the caller's offset
as they were before the call. -/
theorem loads_restore [Zlib] :
    (∀ path opened, Restores (SSTable.load path opened)) ∧
      (∀ file indexOffset expectedIndexSize, Restores (IndexSection.load file indexOffset expectedIndexSize)) ∧
      (∀ file indexOffset expectedIndexSize firstDataBlockOffset dataBlockCount,
        Restores (IndexSection.loadStrict file indexOffset expectedIndexSize firstDataBlockOffset dataBlockCount)) ∧
      (∀ file index metaOffset, Restores (MetaSection.load file index metaOffset)) ∧
      ∀ file, Restores (TableMeta.loadInto file) := by
  refine ⟨fun path opened => ?_, fun file _ _ => IndexSection.restores_loadImpl file _ _ _ _ _,
    fun file _ _ _ _ => IndexSection.restores_loadImpl file _ _ _ _ _, fun file _ _ =>
      MetaSection.restores_load file _ _,
    fun file => ?_⟩
  · unfold SSTable.load
    split
    · exact fun s => ⟨rfl, rfl⟩
    · exact Grows.restores ((grows_check _).bind fun file => SSTable.grows_loadSections file)
  · refine Grows.restores (grows_get fun s => ?_)
    exact ((TableMeta.grows_loadAtCursor file).withCursor _).bind fun r => (grows_setOffset _).bind fun _ =>
      grows_pure _

end Kvdb
