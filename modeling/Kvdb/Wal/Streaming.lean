import Kvdb.Wal.Recovery

/-!
# Streaming recovery

`WALStreamingLoader`: one logical record a call, with a fresh assembler each time
and the progress kept in the loader, where `WALLoader::load` reads the whole file
with one assembler.  `Next` says, without fuel, what the reader finds from an
offset on up to the end of the record it is in.  Both loops follow it, so they
agree on every file with a valid header (`loadAll_eq_load`), however damaged the
fragments behind the header are.
-/

namespace Kvdb

open Faulty Bytes

variable [Zlib]

namespace WALStreamingLoader

/-- `WALStreamingLoader::State`. -/
inductive State where
  | closed
  | ready
  | endOfFile
  | tornTail
  | corrupted
deriving DecidableEq, Repr

/-- `WALStreamingLoader::LoadResult`. -/
structure LoadResult where
  logicalRecord : Option InternalRecord
  header : Option WALFileHeader
  reachedEof : Bool
  ok : Bool
  hadTornTail : Bool
  hadCorruption : Bool
  lastGoodOffset : Nat
  error : String
deriving DecidableEq

def LoadResult.init : LoadResult := ⟨none, none, false, true, false, false, 0, ""⟩

end WALStreamingLoader

structure WALStreamingLoader where
  file : Option ReadableFile
  result : WALStreamingLoader.LoadResult
  state : WALStreamingLoader.State
  terminalError : String

namespace WALStreamingLoader

/-- The loader before `open`. -/
def init : WALStreamingLoader := ⟨none, .init, .closed, ""⟩

/-- `open`, given the file behind the path. -/
def openFile (l : WALStreamingLoader) (file : ReadableFile) : Except Status WALStreamingLoader :=
  if l.file.isSome then .error ⟨.invariantViolation, "WAL streaming loader is already open"⟩
  else .ok ⟨some file, .init, .ready, ""⟩

/-- `validate_state`; the file is open. -/
def validateState (l : WALStreamingLoader) (file : ReadableFile) (offset : Nat) (expectedWalId : UInt32) :
    Except Status Unit :=
  if l.state ≠ .ready then
    .error ⟨.invariantViolation, "attempted to validate a terminal WAL loader state"⟩
  else
    match file.getFileSize with
    | .error e => .error e
    | .ok fileSize =>
      if offset > fileSize then
        .error ⟨.invalidOffset, "manual offset " ++ toString offset ++ " is beyond WAL file size "
          ++ toString fileSize⟩
      else
        match l.result.header with
        | none =>
          if offset ≠ 0 then
            .error ⟨.invariantViolation, "WAL header has not been loaded, but offset is " ++ toString offset⟩
          else .ok ()
        | some header =>
          if offset = 0 then
            .error ⟨.invariantViolation, "WAL header is loaded, but offset is zero"⟩
          else if header.walId ≠ expectedWalId.toUInt64 then
            .error ⟨.invariantViolation, "expected WAL id " ++ toString expectedWalId
              ++ ", but loaded WAL id is " ++ toString header.walId⟩
          else .ok ()

def resetCallResult (l : WALStreamingLoader) : WALStreamingLoader :=
  { l with result :=
      { l.result with
        logicalRecord := none
        reachedEof := false
        ok := true
        hadTornTail := false
        hadCorruption := false
        error := "" } }

def markTornTail (l : WALStreamingLoader) (message : String) : WALStreamingLoader :=
  { l with
    state := .tornTail
    terminalError := message
    result :=
      { l.result with
        ok := true
        hadTornTail := true
        hadCorruption := false
        reachedEof := false
        error := message } }

def markCorruption (l : WALStreamingLoader) (message : String) : WALStreamingLoader :=
  { l with
    state := .corrupted
    terminalError := message
    result :=
      { l.result with
        ok := false
        hadTornTail := false
        hadCorruption := true
        reachedEof := false
        error := message } }

/-- The loop of `load_next` over the fragments of one record. -/
def nextLoop (file : ReadableFile) :
    Nat → LogicalRecordAssembler → WALStreamingLoader → Nat → Except Status Unit × WALStreamingLoader × Nat
  | 0, _, l, _ => (.error ⟨.internalError, "WAL loader out of fuel"⟩, l, l.result.lastGoodOffset)
  | fuel + 1, assembler, l, offset =>
    match Fragment.load file offset with
    | .error e =>
      if isRecoverableTailError e.code then (.ok (), l.markTornTail e.message, l.result.lastGoodOffset)
      else if isCorruptionError e.code then (.ok (), l.markCorruption e.message, l.result.lastGoodOffset)
      else (.error e, l, l.result.lastGoodOffset)
    | .ok (none, offset) =>
      if assembler.active then
        (.ok (), l.markTornTail "WAL ended before the LAST fragment of a logical record",
          l.result.lastGoodOffset)
      else (.ok (), { l with state := .endOfFile, result := { l.result with reachedEof := true } }, offset)
    | .ok (some f, offset) =>
      match assembler.consume f with
      | .error e => (.ok (), l.markCorruption e.message, l.result.lastGoodOffset)
      | .ok (none, a) => nextLoop file fuel a l offset
      | .ok (some r, _) =>
        (.ok (), { l with result := { l.result with logicalRecord := some r, lastGoodOffset := offset } },
          offset)

/-- The part of `load_next` that loads the file header once, and then one record. -/
def readNext (l : WALStreamingLoader) (file : ReadableFile) (offset : Nat) (expectedWalId : UInt32) :
    Except Status Unit × WALStreamingLoader × Nat :=
  match l.result.header with
  | some _ => nextLoop file (file.bytes.length + 1) .init l offset
  | none =>
    match WALFileHeader.load expectedWalId file offset with
    | .error e =>
      if isRecoverableTailError e.code then (.ok (), l.markTornTail e.message, offset)
      else if isCorruptionError e.code then (.ok (), l.markCorruption e.message, offset)
      else (.error e, l, offset)
    | .ok (none, offset) =>
      (.ok (), l.markTornTail "WAL ended before a complete file header was read", offset)
    | .ok (some header, offset) =>
      let l := { l with result := { l.result with header := some header } }
      if header.walId ≠ expectedWalId.toUInt64 then
        (.ok (), l.markCorruption ("expected WAL id " ++ toString expectedWalId
          ++ ", but file header contains WAL id " ++ toString header.walId), offset)
      else
        nextLoop file (file.bytes.length + 1) .init
          { l with result := { l.result with lastGoodOffset := offset } } offset

/-- `load_next`: the status, the loader and the offset it leaves. -/
def loadNext (l : WALStreamingLoader) (offset : Nat) (expectedWalId : UInt32) :
    Except Status Unit × WALStreamingLoader × Nat :=
  let l := l.resetCallResult
  match l.state with
  | .closed => (.error ⟨.invariantViolation, "WAL streaming loader is not open"⟩, l, offset)
  | .endOfFile => (.ok (), { l with result := { l.result with reachedEof := true } }, offset)
  | .tornTail =>
    (.ok (), { l with result := { l.result with hadTornTail := true, error := l.terminalError } }, offset)
  | .corrupted =>
    (.ok (), { l with result :=
      { l.result with ok := false, hadCorruption := true, error := l.terminalError } }, offset)
  | .ready =>
    match l.file with
    | none => (.error ⟨.invariantViolation, "WAL streaming loader is not open"⟩, l, offset)
    | some file =>
      match l.validateState file offset expectedWalId with
      | .error e => (.error e, l, offset)
      | .ok () => l.readNext file offset expectedWalId

/-- The latest call reported a terminal state. -/
def LoadResult.terminal (r : LoadResult) : Bool := r.reachedEof || r.hadTornTail || r.hadCorruption

/-- Call `load_next` until it reports a terminal state, at most `calls` times, and collect the
records; `none` when the calls did not suffice or one of them failed. -/
def loadAll (expectedWalId : UInt32) :
    Nat → WALStreamingLoader → Nat → Option (List InternalRecord × WALStreamingLoader × Nat)
  | 0, _, _ => none
  | calls + 1, l, offset =>
    match l.loadNext offset expectedWalId with
    | (.error _, _, _) => none
    | (.ok (), l, offset) =>
      if l.result.terminal then some ([], l, offset)
      else
        (loadAll expectedWalId calls l offset).map fun (records, l', offset') =>
          (l.result.logicalRecord.toList ++ records, l', offset')

end WALStreamingLoader

/-! ## Readers on a file without faults -/

section Classified

variable {α β : Type} {file : ReadableFile}

/-- The loaders treat the error as a torn tail or as corruption. -/
def Classified (e : Status) : Prop := isRecoverableTailError e.code = true ∨ isCorruptionError e.code = true

/-- On a sound file the reader goes forwards and stays in the file, or fails with a classified error. -/
def Advances (file : ReadableFile) (r : FileReader α) : Prop :=
  ∀ off, (∃ e, r file off = .error e ∧ Classified e) ∨
    ∃ a off', r file off = .ok (a, off') ∧ off < off' ∧ off' ≤ file.bytes.length

/-- The same for what follows a first read: it may read nothing. -/
def Keeps (file : ReadableFile) (r : FileReader α) : Prop :=
  ∀ off, off ≤ file.bytes.length → (∃ e, r file off = .error e ∧ Classified e) ∨
    ∃ a off', r file off = .ok (a, off') ∧ off ≤ off' ∧ off' ≤ file.bytes.length

omit [Zlib] in
theorem Advances.keeps {r : FileReader α} (h : Advances file r) : Keeps file r := by
  intro off _
  rcases h off with he | ⟨a, off', hr, hlt, hle⟩
  · exact .inl he
  · exact .inr ⟨a, off', hr, by omega, hle⟩

omit [Zlib] in
theorem keeps_pure (a : α) : Keeps file (pure a) := fun off hoff => .inr ⟨a, off, rfl, Nat.le_refl _, hoff⟩

omit [Zlib] in
theorem keeps_fail {e : Status} (he : Classified e) : Keeps file (Reader.fail e : FileReader α) :=
  fun _ _ => .inl ⟨e, rfl, he⟩

omit [Zlib] in
theorem Advances.bind {r : FileReader α} {k : α → FileReader β} (hr : Advances file r)
    (hk : ∀ a, Keeps file (k a)) : Advances file (r >>= k) := by
  intro off
  rcases hr off with ⟨e, he, hc⟩ | ⟨a, off', ha, hlt, hle⟩
  · exact .inl ⟨e, Reader.bind_error he, hc⟩
  · rw [Reader.bind_ok ha]
    rcases hk a off' hle with he | ⟨b, off'', hb, hlt', hle'⟩
    · exact .inl he
    · exact .inr ⟨b, off'', hb, by omega, hle'⟩

omit [Zlib] in
theorem Keeps.guard {b : Bool} {e : Status} {k : Unit → FileReader β} (he : Classified e)
    (hk : Keeps file (k ())) : Keeps file (Reader.ensure b e >>= k) := by
  intro off hoff
  cases b with
  | false => exact .inl ⟨e, rfl, he⟩
  | true => exact hk off hoff

omit [Zlib] in
theorem Advances.ensureFits {size blockSize : Nat} {k : Unit → FileReader β} (hb : 0 < blockSize)
    (hs : size ≤ blockSize) (hk : Advances file (k ())) :
    Advances file (ensureFitsInBlockRead size blockSize >>= k) := by
  intro off
  rw [Reader.bind_ok (ensureFitsInBlockRead_apply hb hs file off)]
  rcases hk (off + padSize off size blockSize) with he | ⟨b, off', hb', hlt, hle⟩
  · exact .inl he
  · exact .inr ⟨b, off', hb', by omega, hle⟩

omit [Zlib] in
theorem advances_readField (hf : file.Sound) {size blockSize : Nat} (hs : 0 < size) (hle : size ≤ blockSize) :
    Advances file (readField size blockSize) := by
  intro off
  have hens := ensureFitsInBlockRead_apply (show 0 < blockSize by omega) hle file off
  rw [readField, Reader.ensure_bind (by simp; omega), Reader.bind_ok hens, readExactAt, if_neg (by omega),
    hf.fault]
  by_cases hin : off + padSize off size blockSize + size ≤ file.bytes.length
  · right
    refine ⟨_, _, by simp only [readAt, if_pos hin]; rfl, by omega, hin⟩
  · left
    simp only [readAt, if_neg hin]
    exact ⟨_, rfl, .inl rfl⟩

omit [Zlib] in
theorem advances_readU8 (hf : file.Sound) : Advances file (readU8 WAL_FILE_BLOCK_SIZE) :=
  (advances_readField hf (by decide) (by decide)).bind fun _ => keeps_pure _

omit [Zlib] in
theorem advances_readU32Le (hf : file.Sound) : Advances file (readU32Le WAL_FILE_BLOCK_SIZE) :=
  (advances_readField hf (by decide) (by decide)).bind fun _ => keeps_pure _

omit [Zlib] in
theorem advances_readU64Le (hf : file.Sound) : Advances file (readU64Le WAL_FILE_BLOCK_SIZE) :=
  (advances_readField hf (by decide) (by decide)).bind fun _ => keeps_pure _

omit [Zlib] in
theorem advances_fragmentHeader (hf : file.Sound) : Advances file FragmentHeader.load := by
  refine Advances.ensureFits (by decide) (by decide) ?_
  refine (advances_readU32Le hf).bind fun _ => ?_
  refine ((advances_readU32Le hf).bind fun _ => ?_).keeps
  refine ((advances_readU8 hf).bind fun ft => ?_).keeps
  refine ((advances_readU8 hf).bind fun t => ?_).keeps
  refine ((advances_readU64Le hf).bind fun _ => ?_).keeps
  refine ((advances_readU32Le hf).bind fun _ => ?_).keeps
  refine Keeps.guard (.inr rfl) ?_
  cases FragmentType.ofU8 ft with
  | none => exact keeps_fail (.inr rfl)
  | some _ =>
    cases RecType.ofU8 t with
    | none => exact keeps_fail (.inr rfl)
    | some _ => exact keeps_pure _

omit [Zlib] in
theorem RecType.ofU8_valid {b : UInt8} {t : RecType} (h : RecType.ofU8 b = some t) : t.isValid = true := by
  unfold RecType.ofU8 at h
  split at h
  · cases h; rfl
  · split at h
    · cases h; rfl
    · cases h

omit [Zlib] in
/-- A header that was read has a valid record type. -/
theorem fragmentHeader_load_valid {off off' : Nat} {h : FragmentHeader}
    (hl : FragmentHeader.load file off = .ok (h, off')) : h.type.isValid = true := by
  unfold FragmentHeader.load at hl
  obtain ⟨_, _, -, hl⟩ := Reader.bind_eq_ok hl
  obtain ⟨crc, _, -, hl⟩ := Reader.bind_eq_ok hl
  obtain ⟨headerSize, _, -, hl⟩ := Reader.bind_eq_ok hl
  obtain ⟨ft, _, -, hl⟩ := Reader.bind_eq_ok hl
  obtain ⟨t, _, -, hl⟩ := Reader.bind_eq_ok hl
  obtain ⟨seqNum, _, -, hl⟩ := Reader.bind_eq_ok hl
  obtain ⟨size, _, -, hl⟩ := Reader.bind_eq_ok hl
  obtain ⟨_, _, -, hl⟩ := Reader.bind_eq_ok hl
  cases hft : FragmentType.ofU8 ft with
  | none =>
    rw [hft] at hl
    cases hl
  | some _ =>
    rw [hft] at hl
    cases ht : RecType.ofU8 t with
    | none =>
      rw [ht] at hl
      cases hl
    | some _ =>
      rw [ht] at hl
      cases hl
      exact RecType.ofU8_valid ht

omit [Zlib] in
theorem keeps_loadPayload (hf : file.Sound) {size : UInt32} (hs : size.toNat ≤ WAL_FILE_BLOCK_SIZE) :
    Keeps file (Fragment.loadPayload size) := by
  intro off hoff
  unfold Fragment.loadPayload
  cases fitsInBlock off size.toNat WAL_FILE_BLOCK_SIZE with
  | error e => exact .inl ⟨_, rfl, .inr rfl⟩
  | ok u =>
    by_cases h0 : size = 0
    · simp only [if_pos h0]
      exact .inr ⟨_, _, rfl, Nat.le_refl _, hoff⟩
    · have hne : size.toNat ≠ 0 := fun h => h0 (UInt32.toNat_inj.mp h)
      have hbytes : readBytes size.toNat WAL_FILE_BLOCK_SIZE file off =
          readField size.toNat WAL_FILE_BLOCK_SIZE file off := by
        rw [readBytes, Reader.ensure_bind (by decide), if_neg hne]
      simp only [if_neg h0, hbytes]
      exact (advances_readField hf (by omega) hs).keeps off hoff

theorem classified_computeCrc32 {f : Fragment} {e : Status} (ht : f.header.type.isValid = true)
    (h : f.computeCrc32 = .error e) : Classified e := by
  unfold Fragment.computeCrc32 at h
  split at h
  · cases h; exact .inr rfl
  · split at h
    · next hi => rw [ht] at hi; cases hi
    · split at h
      · cases h; exact .inr rfl
      · cases h

/-- `Fragment::load` on a sound file: a classified error, the end of the file, or a fragment that
takes up some bytes of it. -/
theorem fragment_load_cases (hf : file.Sound) {off : Nat} (hoff : off ≤ file.bytes.length) :
    (∃ e, Fragment.load file off = .error e ∧ Classified e) ∨
    Fragment.load file off = .ok (none, file.bytes.length) ∨
    ∃ f off', Fragment.load file off = .ok (some f, off') ∧ off < off' ∧ off' ≤ file.bytes.length := by
  rw [fragment_load_eq hf hoff]
  have hstart := le_fragStart off
  split
  · exact .inr (.inl rfl)
  · unfold Fragment.loadAt
    split
    · exact .inl ⟨_, rfl, .inl rfl⟩
    · rcases advances_fragmentHeader hf (fragStart off) with ⟨e, he, hc⟩ | ⟨h, off₁, hh, hlt, hle⟩
      · rw [he]
        exact .inl ⟨e, rfl, hc⟩
      · rw [hh]
        dsimp only
        split
        · exact .inl ⟨_, rfl, .inr rfl⟩
        · split
          · exact .inl ⟨_, rfl, .inr rfl⟩
          · next hsize =>
            split
            · exact .inl ⟨_, rfl, .inl rfl⟩
            · have hfit : h.fragmentSize.toNat ≤ WAL_FILE_BLOCK_SIZE := by omega
              rcases keeps_loadPayload hf hfit off₁ hle with ⟨e, he, hc⟩ | ⟨payload, off₂, hp, hlt₂,
                hle₂⟩
              · rw [he]
                exact .inl ⟨e, rfl, hc⟩
              · rw [hp]
                dsimp only
                cases hcrc : Fragment.computeCrc32 ⟨h, payload⟩ with
                | error e =>
                  exact .inl ⟨e, rfl, classified_computeCrc32 (fragmentHeader_load_valid hh) hcrc⟩
                | ok crc =>
                  dsimp only
                  split
                  · exact .inl ⟨_, rfl, .inr rfl⟩
                  · exact .inr (.inr ⟨_, off₂, rfl, by omega, hle₂⟩)

end Classified

/-! ## What the reader finds -/

/-- The end of the record that starts at an offset, or why there is none. -/
inductive Found where
  | record (r : InternalRecord) (offset : Nat)
  | eof (offset : Nat)
  | torn (message : String)
  | corrupt (message : String)

/-- From `off` on, with the assembler `a`, the fragments of `file` lead to the given end. -/
inductive Next (file : ReadableFile) : Nat → LogicalRecordAssembler → Found → Prop where
  | torn {off : Nat} {a : LogicalRecordAssembler} {e : Status} (h : Fragment.load file off = .error e)
      (ht : isRecoverableTailError e.code = true) : Next file off a (.torn e.message)
  | corrupt {off : Nat} {a : LogicalRecordAssembler} {e : Status} (h : Fragment.load file off = .error e)
      (ht : isRecoverableTailError e.code = false) (hc : isCorruptionError e.code = true) :
      Next file off a (.corrupt e.message)
  | cut {off off' : Nat} {a : LogicalRecordAssembler} (h : Fragment.load file off = .ok (none, off'))
      (ha : a.active = true) :
      Next file off a (.torn "WAL ended before the LAST fragment of a logical record")
  | eof {off off' : Nat} {a : LogicalRecordAssembler} (h : Fragment.load file off = .ok (none, off'))
      (ha : a.active = false) : Next file off a (.eof off')
  | refused {off off' : Nat} {a : LogicalRecordAssembler} {f : Fragment} {e : Status}
      (h : Fragment.load file off = .ok (some f, off')) (hc : a.consume f = .error e) :
      Next file off a (.corrupt e.message)
  | more {off off' : Nat} {a a' : LogicalRecordAssembler} {f : Fragment} {res : Found}
      (h : Fragment.load file off = .ok (some f, off')) (hc : a.consume f = .ok (none, a'))
      (hrest : Next file off' a' res) : Next file off a res
  | record {off off' : Nat} {a a' : LogicalRecordAssembler} {f : Fragment} {r : InternalRecord}
      (h : Fragment.load file off = .ok (some f, off')) (hc : a.consume f = .ok (some r, a')) :
      Next file off a (.record r off')

section Next

variable {file : ReadableFile} {off : Nat} {a : LogicalRecordAssembler} {res : Found}

/-- A file without faults always leads to an end. -/
theorem exists_next (hf : file.Sound) (hoff : off ≤ file.bytes.length) (a : LogicalRecordAssembler) :
    ∃ res, Next file off a res := by
  induction hn : file.bytes.length - off using Nat.strong_induction_on generalizing off a with
  | _ n ih =>
    rcases fragment_load_cases hf hoff with ⟨e, he, hc⟩ | hend | ⟨f, off', hl, hlt, hle⟩
    · cases ht : isRecoverableTailError e.code with
      | true => exact ⟨_, .torn he ht⟩
      | false => exact ⟨_, .corrupt he ht (hc.resolve_left (by simp [ht]))⟩
    · cases ha : a.active with
      | true => exact ⟨_, .cut hend ha⟩
      | false => exact ⟨_, .eof hend ha⟩
    · cases hc : a.consume f with
      | error e => exact ⟨_, .refused hl hc⟩
      | ok p =>
        obtain ⟨o, a'⟩ := p
        cases o with
        | some r => exact ⟨_, .record hl hc⟩
        | none =>
          obtain ⟨res, hres⟩ := ih (file.bytes.length - off') (by omega) hle a' rfl
          exact ⟨res, .more hl hc hres⟩

theorem fragment_load_bounds (hf : file.Sound) (hoff : off ≤ file.bytes.length) {f : Fragment} {off' : Nat}
    (h : Fragment.load file off = .ok (some f, off')) : off < off' ∧ off' ≤ file.bytes.length := by
  rcases fragment_load_cases hf hoff with ⟨e, he, -⟩ | hend | ⟨f', off₁, hl, hlt, hle⟩
  · rw [he] at h
    cases h
  · rw [hend] at h
    cases h
  · rw [hl] at h
    cases h
    exact ⟨hlt, hle⟩

/-- A record ends behind its start and inside the file. -/
theorem Next.record_bounds (h : Next file off a res) (hf : file.Sound) (hoff : off ≤ file.bytes.length)
    {r : InternalRecord} {off' : Nat} (hres : res = .record r off') :
    off < off' ∧ off' ≤ file.bytes.length := by
  induction h with
  | torn _ _ => cases hres
  | corrupt _ _ _ => cases hres
  | cut _ _ => cases hres
  | eof _ _ => cases hres
  | refused _ _ => cases hres
  | record hl hc =>
    cases hres
    exact fragment_load_bounds hf hoff hl
  | more hl hc _ ih =>
    obtain ⟨hlt, hle⟩ := fragment_load_bounds hf hoff hl
    have hrest := ih hle hres
    omega

/-- An assembler without an open record is the one after `reset`. -/
def LogicalRecordAssembler.Clean (a : LogicalRecordAssembler) : Prop := a.active = false → a = .init

omit [Zlib] in
theorem consume_record {f : Fragment} {r : InternalRecord} {a' : LogicalRecordAssembler} (hclean : a.Clean)
    (h : a.consume f = .ok (some r, a')) : a' = .init := by
  unfold LogicalRecordAssembler.consume at h
  split at h
  · split at h
    · cases h
    · next hact =>
      split at h
      · cases h
      · cases h
        exact hclean (by simpa using hact)
  · split at h
    · cases h
    · cases h
  · split at h
    · cases h
    · split at h
      · cases h
      · split at h
        · cases h
        · split at h
          · cases h
          · cases h
            rfl

omit [Zlib] in
theorem consume_clean {f : Fragment} {a' : LogicalRecordAssembler} (h : a.consume f = .ok (none, a')) :
    a'.Clean := by
  have hact : a'.active = true := by
    unfold LogicalRecordAssembler.consume at h
    split at h
    · split at h
      · cases h
      · split at h
        · cases h
        · cases h
    · split at h
      · cases h
      · cases h
        rfl
    · split at h
      · cases h
      · next hactive =>
        split at h
        · cases h
        · split at h
          · cases h
            simpa using hactive
          · split at h
            · cases h
            · cases h
  intro hfalse
  rw [hact] at hfalse
  cases hfalse

/-! ## Both loops follow it -/

/-- How the streaming loader ends a call. -/
def WALStreamingLoader.settle (l : WALStreamingLoader) : Found → WALStreamingLoader × Nat
  | .record r offset =>
    ({ l with result := { l.result with logicalRecord := some r, lastGoodOffset := offset } }, offset)
  | .eof offset => ({ l with state := .endOfFile, result := { l.result with reachedEof := true } }, offset)
  | .torn message => (l.markTornTail message, l.result.lastGoodOffset)
  | .corrupt message => (l.markCorruption message, l.result.lastGoodOffset)

theorem nextLoop_eq (h : Next file off a res) (hf : file.Sound) (hoff : off ≤ file.bytes.length)
    (l : WALStreamingLoader) {fuel : Nat} (hfuel : file.bytes.length - off < fuel) :
    WALStreamingLoader.nextLoop file fuel a l off = (.ok (), l.settle res) := by
  induction h generalizing fuel with
  | torn hl ht =>
    obtain ⟨fuel, rfl⟩ : ∃ n, fuel = n + 1 := ⟨fuel - 1, by omega⟩
    simp only [WALStreamingLoader.nextLoop, hl, ht, if_true, WALStreamingLoader.settle]
  | corrupt hl ht hc =>
    obtain ⟨fuel, rfl⟩ : ∃ n, fuel = n + 1 := ⟨fuel - 1, by omega⟩
    simp [WALStreamingLoader.nextLoop, hl, ht, hc, WALStreamingLoader.settle]
  | cut hl ha =>
    obtain ⟨fuel, rfl⟩ : ∃ n, fuel = n + 1 := ⟨fuel - 1, by omega⟩
    simp only [WALStreamingLoader.nextLoop, hl, ha, if_true, WALStreamingLoader.settle]
  | eof hl ha =>
    obtain ⟨fuel, rfl⟩ : ∃ n, fuel = n + 1 := ⟨fuel - 1, by omega⟩
    simp [WALStreamingLoader.nextLoop, hl, ha, WALStreamingLoader.settle]
  | refused hl hc =>
    obtain ⟨fuel, rfl⟩ : ∃ n, fuel = n + 1 := ⟨fuel - 1, by omega⟩
    simp only [WALStreamingLoader.nextLoop, hl, hc, WALStreamingLoader.settle]
  | record hl hc =>
    obtain ⟨fuel, rfl⟩ : ∃ n, fuel = n + 1 := ⟨fuel - 1, by omega⟩
    simp only [WALStreamingLoader.nextLoop, hl, hc, WALStreamingLoader.settle]
  | more hl hc _ ih =>
    obtain ⟨fuel, rfl⟩ : ∃ n, fuel = n + 1 := ⟨fuel - 1, by omega⟩
    obtain ⟨hlt, hle⟩ := fragment_load_bounds hf hoff hl
    simp only [WALStreamingLoader.nextLoop, hl, hc]
    exact ih hle (by omega)

/-- The result with which the batch loop ends, when there is no further record. -/
def WALLoader.ended (header : WALFileHeader) (records : List InternalRecord) (good : Nat) :
    Found → WALLoader.LoadResult × Nat
  | .record _ offset => (⟨records, some header, true, false, false, ""⟩, offset)
  | .eof offset => (⟨records, some header, true, false, false, ""⟩, offset)
  | .torn message => (⟨records, some header, true, true, false, message⟩, good)
  | .corrupt message => (⟨records, some header, false, false, true, message⟩, good)

/-- The batch loop stops where the reader finds no further record. -/
theorem loadLoop_ended (h : Next file off a res) (hf : file.Sound) (hoff : off ≤ file.bytes.length)
    (header : WALFileHeader) (good : Nat) (records : List InternalRecord) {fuel : Nat}
    (hfuel : file.bytes.length - off < fuel) (hres : ∀ r off', res ≠ .record r off') :
    WALLoader.loadLoop file header fuel ⟨off, good, a, records⟩ =
      (.ok (WALLoader.ended header records good res).1, (WALLoader.ended header records good res).2) := by
  induction h generalizing fuel with
  | torn hl ht =>
    obtain ⟨fuel, rfl⟩ : ∃ n, fuel = n + 1 := ⟨fuel - 1, by omega⟩
    simp only [WALLoader.loadLoop, hl, ht, if_true, WALLoader.ended]
  | corrupt hl ht hc =>
    obtain ⟨fuel, rfl⟩ : ∃ n, fuel = n + 1 := ⟨fuel - 1, by omega⟩
    simp [WALLoader.loadLoop, hl, ht, hc, WALLoader.ended]
  | cut hl ha =>
    obtain ⟨fuel, rfl⟩ : ∃ n, fuel = n + 1 := ⟨fuel - 1, by omega⟩
    simp only [WALLoader.loadLoop, hl, ha, if_true, WALLoader.ended]
  | eof hl ha =>
    obtain ⟨fuel, rfl⟩ : ∃ n, fuel = n + 1 := ⟨fuel - 1, by omega⟩
    simp [WALLoader.loadLoop, hl, ha, WALLoader.ended]
  | refused hl hc =>
    obtain ⟨fuel, rfl⟩ : ∃ n, fuel = n + 1 := ⟨fuel - 1, by omega⟩
    simp only [WALLoader.loadLoop, hl, hc, WALLoader.ended]
  | @record _ off' _ _ _ r hl hc => exact absurd rfl (hres r off')
  | more hl hc _ ih =>
    obtain ⟨fuel, rfl⟩ : ∃ n, fuel = n + 1 := ⟨fuel - 1, by omega⟩
    obtain ⟨hlt, hle⟩ := fragment_load_bounds hf hoff hl
    simp only [WALLoader.loadLoop, hl, hc]
    exact ih hle (by omega) hres

/-- It reads on behind a record with a fresh assembler. -/
theorem loadLoop_record_found (h : Next file off a res) (hf : file.Sound) (hoff : off ≤ file.bytes.length)
    (hclean : a.Clean) (header : WALFileHeader) (good : Nat) (records : List InternalRecord) {fuel : Nat}
    (hfuel : file.bytes.length - off < fuel) {r : InternalRecord} {off' : Nat} (hres : res = .record r off') :
    ∃ fuel', file.bytes.length - off' < fuel' ∧
      WALLoader.loadLoop file header fuel ⟨off, good, a, records⟩ =
        WALLoader.loadLoop file header fuel' ⟨off', off', .init, records ++ [r]⟩ := by
  induction h generalizing fuel with
  | torn _ _ => cases hres
  | corrupt _ _ _ => cases hres
  | cut _ _ => cases hres
  | eof _ _ => cases hres
  | refused _ _ => cases hres
  | record hl hc =>
    cases hres
    obtain ⟨fuel, rfl⟩ : ∃ n, fuel = n + 1 := ⟨fuel - 1, by omega⟩
    obtain ⟨hlt, hle⟩ := fragment_load_bounds hf hoff hl
    refine ⟨fuel, by omega, ?_⟩
    have ha := consume_record hclean hc
    subst ha
    simp only [WALLoader.loadLoop, hl, hc]
  | more hl hc _ ih =>
    obtain ⟨fuel, rfl⟩ : ∃ n, fuel = n + 1 := ⟨fuel - 1, by omega⟩
    obtain ⟨hlt, hle⟩ := fragment_load_bounds hf hoff hl
    have hlater : file.bytes.length - _ < fuel := Nat.lt_of_lt_of_le (Nat.sub_lt_sub_left (by omega) hlt) (by omega)
    obtain ⟨fuel', hfuel', heq⟩ := ih hle (consume_clean hc) hlater hres
    refine ⟨fuel', hfuel', ?_⟩
    simp only [WALLoader.loadLoop, hl, hc]
    exact heq

end Next

/-! ## Agreement -/

/-- The streaming loader ended with the verdict of a batch load. -/
structure SameVerdict (r : WALLoader.LoadResult) (s : WALStreamingLoader.LoadResult) : Prop where
  header : s.header = r.header
  ok : s.ok = r.ok
  hadTornTail : s.hadTornTail = r.hadTornTail
  hadCorruption : s.hadCorruption = r.hadCorruption
  reachedEof : s.reachedEof = (!r.hadTornTail && !r.hadCorruption)
  error : s.error = r.error
  logicalRecord : s.logicalRecord = none

/-- A loader between two calls: `offset` is the end of the last record it returned. -/
structure Between (file : ReadableFile) (header : WALFileHeader) (walId : UInt32) (offset : Nat)
    (l : WALStreamingLoader) : Prop where
  opened : l.file = some file
  ready : l.state = .ready
  loaded : l.result.header = some header
  expected : header.walId = walId.toUInt64
  good : l.result.lastGoodOffset = offset
  pos : offset ≠ 0
  le : offset ≤ file.bytes.length

section Agreement

variable {file : ReadableFile} {header : WALFileHeader} {walId : UInt32} {off : Nat}
  {l : WALStreamingLoader}

theorem Between.loadNext (h : Between file header walId off l) (hf : file.Sound) {res : Found}
    (hnext : Next file off .init res) :
    l.loadNext off walId = (.ok (), l.resetCallResult.settle res) := by
  have hval : l.resetCallResult.validateState file off walId = .ok () := by
    have hle := h.le
    simp [WALStreamingLoader.validateState, WALStreamingLoader.resetCallResult, h.ready, hf.getFileSize,
      h.loaded, h.pos, h.expected, Nat.not_lt.mpr hle]
  have hread : l.resetCallResult.readNext file off walId = (.ok (), l.resetCallResult.settle res) := by
    unfold WALStreamingLoader.readNext
    have hh : l.resetCallResult.result.header = some header := h.loaded
    rw [hh]
    exact nextLoop_eq hnext hf h.le _ (by omega)
  have hstate : l.resetCallResult.state = .ready := h.ready
  have hfile : l.resetCallResult.file = some file := h.opened
  unfold WALStreamingLoader.loadNext
  simp only [hstate, hfile, hval, hread]

omit [Zlib] in
/-- After a record the loader is between two calls again. -/
theorem Between.settle_record (h : Between file header walId off l) {r : InternalRecord} {off' : Nat}
    (hlt : off < off') (hle : off' ≤ file.bytes.length) :
    Between file header walId off' (l.resetCallResult.settle (.record r off')).1 :=
  ⟨h.opened, h.ready, h.loaded, h.expected, rfl, by omega, hle⟩

/-- In a terminal state a call changes nothing. -/
theorem settle_stable (l : WALStreamingLoader) {res : Found}
    (hres : ∀ r off', res ≠ .record r off') (offset : Nat) (walId' : UInt32) :
    (l.resetCallResult.settle res).1.loadNext offset walId' =
      (.ok (), (l.resetCallResult.settle res).1, offset) := by
  cases res with
  | record r off' => exact absurd rfl (hres r off')
  | eof off' => rfl
  | torn message => rfl
  | corrupt message => rfl

omit [Zlib] in
theorem settle_verdict (h : Between file header walId off l) {res : Found}
    (hres : ∀ r off', res ≠ .record r off') (records : List InternalRecord) :
    SameVerdict (WALLoader.ended header records off res).1 (l.resetCallResult.settle res).1.result ∧
      (l.resetCallResult.settle res).2 = (WALLoader.ended header records off res).2 ∧
      (l.resetCallResult.settle res).1.result.terminal = true := by
  have hheader : l.resetCallResult.result.header = some header := h.loaded
  have hgood : l.resetCallResult.result.lastGoodOffset = off := h.good
  cases res with
  | record r off' => exact absurd rfl (hres r off')
  | eof off' => exact ⟨⟨hheader, rfl, rfl, rfl, rfl, rfl, rfl⟩, rfl, rfl⟩
  | torn message => exact ⟨⟨hheader, rfl, rfl, rfl, rfl, rfl, rfl⟩, hgood, rfl⟩
  | corrupt message => exact ⟨⟨hheader, rfl, rfl, rfl, rfl, rfl, rfl⟩, hgood, rfl⟩

/-- Between two calls the rest of the streaming load does what the rest of the batch loop does. -/
theorem loadAll_between (hf : file.Sound) (h : Between file header walId off l)
    (records : List InternalRecord) {fuel : Nat} (hfuel : file.bytes.length - off < fuel) :
    ∃ found res offEnd lEnd,
      WALLoader.loadLoop file header fuel ⟨off, off, .init, records⟩ = (.ok res, offEnd) ∧
      res.records = records ++ found ∧ SameVerdict res lEnd.result ∧
      (∀ offset walId', lEnd.loadNext offset walId' = (.ok (), lEnd, offset)) ∧
      ∀ calls, found.length < calls →
        WALStreamingLoader.loadAll walId calls l off = some (found, lEnd, offEnd) := by
  -- on the bytes left: each record that is found uses some of them up
  induction hn : file.bytes.length - off using Nat.strong_induction_on generalizing off l records fuel with
  | _ n ih =>
    obtain ⟨found, hnext⟩ := exists_next hf h.le .init
    have hcall := h.loadNext hf hnext
    by_cases hrec : ∃ r off', found = .record r off'
    · obtain ⟨r, off', rfl⟩ := hrec
      obtain ⟨hlt, hle⟩ := hnext.record_bounds hf h.le rfl
      obtain ⟨fuel', hfuel', hloop⟩ :=
        loadLoop_record_found hnext hf h.le (fun _ => rfl) header off records hfuel rfl
      obtain ⟨found, res, offEnd, lEnd, hbatch, hrecs, hverdict, hstable, hall⟩ :=
        ih (file.bytes.length - off') (by omega) (h.settle_record hlt hle) (records ++ [r]) hfuel' rfl
      refine ⟨r :: found, res, offEnd, lEnd, hloop.trans hbatch, by simp [hrecs], hverdict, hstable, ?_⟩
      intro calls hcalls
      rw [List.length_cons] at hcalls
      obtain ⟨calls, rfl⟩ : ∃ n, calls = n + 1 := ⟨calls - 1, by omega⟩
      have hrest := hall calls (by omega)
      simp only [WALStreamingLoader.loadAll, hcall]
      rw [if_neg (by simp [WALStreamingLoader.settle, WALStreamingLoader.LoadResult.terminal,
        WALStreamingLoader.resetCallResult])]
      simp only [WALStreamingLoader.settle] at hrest ⊢
      rw [hrest]
      rfl
    · have hres : ∀ r off', found ≠ .record r off' := fun r off' hr => hrec ⟨r, off', hr⟩
      obtain ⟨hverdict, hoff, hterm⟩ := settle_verdict h hres records
      refine ⟨[], _, _, _, loadLoop_ended hnext hf h.le header off records hfuel hres, ?_, hverdict,
        settle_stable l hres, ?_⟩
      · cases found <;> simp [WALLoader.ended]
      · intro calls hcalls
        obtain ⟨calls, rfl⟩ : ∃ n, calls = n + 1 := ⟨calls - 1, by rw [List.length_nil] at hcalls; omega⟩
        simp only [WALStreamingLoader.loadAll, hcall]
        rw [if_pos hterm, hoff]

/-! ## From the file header on -/

theorem WALFileHeader.validate_walId (hval : header.validate walId = .ok ()) :
    header.walId = walId.toUInt64 := by
  unfold WALFileHeader.validate at hval
  by_contra hid
  rw [if_pos hid] at hval
  split at hval
  · cases hval
  · split at hval
    · cases hval
    · split at hval
      · cases hval
      · cases hval

/-- A header that was loaded has the expected id and ends inside the file. -/
theorem fileHeader_load_bounds (hf : file.Sound)
    (hh : WALFileHeader.load walId file 0 = .ok (some header, off)) :
    header.walId = walId.toUInt64 ∧ off ≠ 0 ∧ off ≤ file.bytes.length := by
  have hadv : Advances file WALFileHeader.readFields := by
    refine (advances_readU32Le hf).bind fun _ => ?_
    refine ((advances_readU32Le hf).bind fun _ => ?_).keeps
    refine ((advances_readU32Le hf).bind fun _ => ?_).keeps
    refine ((advances_readU64Le hf).bind fun _ => ?_).keeps
    refine ((advances_readU64Le hf).bind fun _ => ?_).keeps
    refine ((advances_readU32Le hf).bind fun _ => ?_).keeps
    refine ((advances_readU32Le hf).bind fun _ => ?_).keeps
    exact ((advances_readU32Le hf).bind fun _ => keeps_pure _).keeps
  have hp : padSize 0 WALFileHeader.diskSize WAL_FILE_BLOCK_SIZE = 0 := by decide
  have hens := ensureFitsInBlockRead_apply (show 0 < WAL_FILE_BLOCK_SIZE by decide)
    (show WALFileHeader.diskSize ≤ WAL_FILE_BLOCK_SIZE by decide) file 0
  rw [hp] at hens
  unfold WALFileHeader.load at hh
  rw [hf.getFileSize] at hh
  simp only [hens] at hh
  split at hh
  · cases hh
  · split at hh
    · cases hh
    · split at hh
      · cases hh
      · rcases hadv (0 + 0) with ⟨e, he, -⟩ | ⟨h, off', hr, hlt, hle⟩
        · rw [he] at hh
          cases hh
        · rw [hr] at hh
          cases hval : h.validate walId with
          | error e => simp [hval] at hh
          | ok u =>
            simp only [hval] at hh
            cases hh
            exact ⟨WALFileHeader.validate_walId hval, by omega, hle⟩

/-- The first call loads the header and then does what a call behind the header does. -/
theorem loadNext_first (hf : file.Sound) (hh : WALFileHeader.load walId file 0 = .ok (some header, off)) :
    (⟨some file, .init, .ready, ""⟩ : WALStreamingLoader).loadNext 0 walId =
      (⟨some file, { WALStreamingLoader.LoadResult.init with header := some header, lastGoodOffset := off },
        .ready, ""⟩ : WALStreamingLoader).loadNext off walId := by
  obtain ⟨hid, hpos, hle⟩ := fileHeader_load_bounds hf hh
  simp [WALStreamingLoader.loadNext, WALStreamingLoader.resetCallResult, WALStreamingLoader.LoadResult.init,
    WALStreamingLoader.validateState, WALStreamingLoader.readNext, hf.getFileSize, hh, hid, hpos,
    Nat.not_lt.mpr hle]

/-- On a file whose header is valid, whatever bytes follow it, calling `load_next` until it reports
a terminal state gives the records of `WALLoader::load`, the same verdict and the same offset.  Further
calls report the same again. -/
theorem loadAll_eq_load (walId : UInt32) (file : ReadableFile) (hf : file.Sound) (header : WALFileHeader)
    (off : Nat) (hh : WALFileHeader.load walId file 0 = .ok (some header, off)) :
    ∃ l res offEnd lEnd, WALStreamingLoader.init.openFile file = .ok l ∧
      WALLoader.load file walId = (.ok res, offEnd) ∧
      (∀ calls, res.records.length < calls →
        WALStreamingLoader.loadAll walId calls l 0 = some (res.records, lEnd, offEnd)) ∧
      SameVerdict res lEnd.result ∧
      ∀ walId', lEnd.loadNext offEnd walId' = (.ok (), lEnd, offEnd) := by
  obtain ⟨hid, hpos, hle⟩ := fileHeader_load_bounds hf hh
  have hbetween : Between file header walId off
      ⟨some file, { WALStreamingLoader.LoadResult.init with header := some header, lastGoodOffset := off },
        .ready, ""⟩ := ⟨rfl, rfl, rfl, hid, rfl, hpos, hle⟩
  obtain ⟨found, res, offEnd, lEnd, hbatch, hrecs, hverdict, hstable, hall⟩ :=
    loadAll_between hf hbetween [] (show file.bytes.length - off < file.bytes.length + 1 by omega)
  rw [List.nil_append] at hrecs
  subst hrecs
  refine ⟨_, res, offEnd, lEnd, rfl, ?_, ?_, hverdict, hstable offEnd⟩
  · rw [WALLoader.load, hh]
    exact hbatch
  · intro calls hcalls
    rw [← hall calls hcalls]
    obtain ⟨calls, rfl⟩ : ∃ n, calls = n + 1 := ⟨calls - 1, by omega⟩
    simp only [WALStreamingLoader.loadAll, loadNext_first hf hh]

/-- A header, one record, and three bytes that are no fragment. -/
def strayTailLog : List UInt8 :=
  (WALFileHeader.create 3 1).bytes ++ (encodeRecord 40 ⟨.ofByte 5, .ofByte 6, .put, 1⟩ ++ [1, 2, 3])

omit [Zlib] in
theorem strayTailLog_load : letI := documentedZlib
    (WALLoader.load (.ofBytes strayTailLog "wal") 3).1.map (fun res => (res.records, res.hadTornTail)) =
      .ok ([⟨.ofByte 5, .ofByte 6, .put, 1⟩], true) := by
  decide +kernel

omit [Zlib] in
/-- One record is read in front of the tail. -/
theorem loadAll_eq_load_strayTail : letI := documentedZlib
    ∃ l res offEnd lEnd, WALStreamingLoader.init.openFile (.ofBytes strayTailLog "wal") = .ok l ∧
      WALLoader.load (.ofBytes strayTailLog "wal") 3 = (.ok res, offEnd) ∧
      res.records = [⟨.ofByte 5, .ofByte 6, .put, 1⟩] ∧
      (∀ calls, 1 < calls → WALStreamingLoader.loadAll 3 calls l 0 = some (res.records, lEnd, offEnd)) ∧
      SameVerdict res lEnd.result := by
  let := documentedZlib
  have hf := ReadableFile.ofBytes_sound strayTailLog "wal"
  have hat : At strayTailLog 0 (WALFileHeader.create 3 1).bytes := List.prefix_append _ _
  obtain ⟨l, res, offEnd, lEnd, hopen, hload, hall, hverdict, -⟩ :=
    loadAll_eq_load 3 _ hf _ _ (fileHeader_load_at hf hat)
  have hres := strayTailLog_load
  rw [hload] at hres
  obtain ⟨hrecords, -⟩ := Prod.mk.inj (Except.ok.inj hres)
  refine ⟨l, res, offEnd, lEnd, hopen, hload, hrecords, ?_, hverdict⟩
  intro calls hcalls
  refine hall calls ?_
  rw [hrecords]
  exact hcalls

end Agreement

end Kvdb
