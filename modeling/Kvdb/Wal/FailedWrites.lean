import Kvdb.Wal.Truncation

/-!
# Failed writes on a log that stays in use

The writer goes on with the same file after a failed write, and nothing removes
the bytes that got through.  `runWrites` is a sequence of writes, each with the
number of bytes after which it fails.  A later record is found again when each
failed write left nothing, only padding, or its whole record (`CleanRun`); one
that left a part of a fragment hides or corrupts what follows
(`not_survives_failedThenAcked`).
-/

namespace Kvdb

open Faulty Bytes

variable [Zlib]

/-- A call of `WALWriter::write`: its record, and after how many bytes the file fails. -/
structure WriteCall where
  record : InternalRecord
  failsAfter : Option Nat
deriving DecidableEq

/-- One call on the open log. -/
def WriteCall.run (c : WriteCall) (w : Writer Status) : Outcome Status Unit × Writer Status :=
  WALWriter.write c.record (w.withRoom (c.failsAfter.map fun n => ⟨n, false⟩))

/-- The calls one after the other: the records whose write returned ok, and the file. -/
def runWrites : List WriteCall → Writer Status → List InternalRecord × Writer Status
  | [], w => ([], w)
  | c :: cs, w =>
    let rest := runWrites cs (c.run w).2
    ((if (c.run w).1.isOk then [c.record] else []) ++ rest.1, rest.2)

/-- A log just created, before its first write. -/
def newLog (walId : UInt32) (startSeq : UInt64) (error : Status) : Writer Status :=
  (WALWriter.create walId startSeq (newFile error)).2

/-- Recovery finds every acknowledged record in order and no corruption; a record whose write
failed may appear. -/
def Survives (walId : UInt32) (startSeq : UInt64) (error : Status) (calls : List WriteCall) : Prop :=
  let run := runWrites calls (newLog walId startSeq error)
  ∃ res off, WALLoader.load (ReadableFile.ofBytes run.2.bytes "wal") walId = (.ok res, off) ∧
    res.ok = true ∧ res.hadCorruption = false ∧
    run.1.Sublist res.records ∧ res.records.Sublist (calls.map WriteCall.record)

/-- The call leaves its whole record, or at most padding, in a file that ends at `off`. -/
def WriteCall.Clean (c : WriteCall) (off : Nat) : Prop :=
  match c.failsAfter with
  | none => True
  | some n => c.record.type.isValid = false ∨ (encodeRecord off c.record).length ≤ n ∨
    n ≤ padSize off (FragmentHeader.diskSize + 1) WAL_FILE_BLOCK_SIZE

/-- The call puts no byte into the file. -/
def WriteCall.Silent (c : WriteCall) : Prop := c.failsAfter = some 0 ∨ c.record.type.isValid = false

/-- Each failed write left its whole record or at most padding, unless no later one puts a byte
into the file. -/
def CleanRun : List WriteCall → Writer Status → Prop
  | [], _ => True
  | c :: cs, w => (c.Clean w.offset ∧ CleanRun cs (c.run w).2) ∨ ∀ c' ∈ cs, c'.Silent

/-! ## One call -/

section Call

variable {c : WriteCall} {w : Writer Status}

theorem run_valid (hw : w.Synced) (ht : c.record.type.isValid = true) :
    c.run w = append (encodeRecord w.offset c.record)
      (w.withRoom (c.failsAfter.map fun n => ⟨n, false⟩)) :=
  write_isAppend ht _ (hw.withRoom _)

theorem run_invalid (hw : w.Synced) (ht : c.record.type.isValid = false) :
    (c.run w).1.isOk = false ∧ (c.run w).2.bytes = w.bytes ∧ (c.run w).2.offset = w.offset := by
  rw [WriteCall.run, write_invalid ht (hw.withRoom _)]
  exact ⟨rfl, rfl, rfl⟩

theorem run_synced (hw : w.Synced) : (c.run w).2.Synced := by
  cases ht : c.record.type.isValid with
  | false =>
    obtain ⟨-, hb, ho⟩ := run_invalid hw ht
    rw [Writer.Synced, hb, ho, hw]
  | true =>
    rw [run_valid hw ht]
    exact append_synced _ (hw.withRoom _)

/-- A call that returned ok put its whole record into the file. -/
theorem run_ok (hw : w.Synced) (hok : (c.run w).1.isOk = true) :
    c.record.type.isValid = true ∧ (c.run w).2.bytes = w.bytes ++ encodeRecord w.offset c.record := by
  cases ht : c.record.type.isValid with
  | false =>
    rw [(run_invalid hw ht).1] at hok
    cases hok
  | true =>
    refine ⟨rfl, ?_⟩
    rw [run_valid hw ht] at hok ⊢
    cases ha : append (encodeRecord w.offset c.record)
        (w.withRoom (c.failsAfter.map fun n => ⟨n, false⟩)) with
    | mk o w' =>
      rw [ha] at hok
      cases o with
      | ok u =>
        have hb := append_ok_bytes ha
        exact hb
      | err e => cases hok
      | crash => cases hok

/-- Whatever fails, the file keeps a prefix of the record's encoding. -/
theorem run_prefix (hw : w.Synced) :
    ∃ p, p <+: encodeRecord w.offset c.record ∧ (c.run w).2.bytes = w.bytes ++ p := by
  cases ht : c.record.type.isValid with
  | false => exact ⟨[], List.nil_prefix, by rw [(run_invalid hw ht).2.1, List.append_nil]⟩
  | true =>
    rw [run_valid hw ht]
    obtain ⟨p, hp, hb⟩ := append_prefix (encodeRecord w.offset c.record)
      (w.withRoom (c.failsAfter.map fun n => ⟨n, false⟩))
    exact ⟨p, hp, hb⟩

theorem encodeRecord_ne_nil (off : Nat) (r : InternalRecord) : encodeRecord off r ≠ [] := by
  have hne := recordFragments_ne_nil off r
  unfold encodeRecord
  cases hfs : recordFragments off r with
  | nil => exact absurd hfs hne
  | cons f fs =>
    intro h0
    have hb := fragment_bytes_ne_nil f
    simp only [encodeFragments, List.append_eq_nil_iff] at h0
    exact hb h0.2.1

/-- A silent call leaves the file as it is and does not return ok. -/
theorem run_silent (hw : w.Synced) (hs : c.Silent) :
    (c.run w).1.isOk = false ∧ (c.run w).2.bytes = w.bytes := by
  rcases hs with h0 | hinv
  · cases ht : c.record.type.isValid with
    | false =>
      obtain ⟨h1, h2, -⟩ := run_invalid hw ht
      exact ⟨h1, h2⟩
    | true =>
      rw [run_valid hw ht, append_cut (c := ⟨0, false⟩) (by simp [h0])
        (encodeRecord_ne_nil w.offset c.record) (Nat.zero_le _)]
      exact ⟨rfl, by simp⟩
  · obtain ⟨h1, h2, -⟩ := run_invalid hw hinv
    exact ⟨h1, h2⟩

/-- A clean call: the whole record is in the file, or nothing but padding came and it failed. -/
theorem run_clean (hw : w.Synced) (hc : c.Clean w.offset) :
    (c.record.type.isValid = true ∧ (c.run w).2.bytes = w.bytes ++ encodeRecord w.offset c.record) ∨
    ((c.run w).1.isOk = false ∧ ∃ k ≤ padSize w.offset (FragmentHeader.diskSize + 1) WAL_FILE_BLOCK_SIZE,
      (c.run w).2.bytes.length = w.bytes.length + k ∧ w.bytes <+: (c.run w).2.bytes) := by
  cases ht : c.record.type.isValid with
  | false =>
    obtain ⟨h1, h2, -⟩ := run_invalid hw ht
    exact .inr ⟨h1, 0, Nat.zero_le _, by rw [h2, Nat.add_zero], by rw [h2]⟩
  | true =>
    have hne := encodeRecord_ne_nil w.offset c.record
    rw [run_valid hw ht]
    cases hfa : c.failsAfter with
    | none =>
      refine .inl ⟨rfl, ?_⟩
      rw [append_free rfl]
      rfl
    | some n =>
      rw [WriteCall.Clean, hfa] at hc
      rcases hc with hinv | hwhole | hpad
      · rw [ht] at hinv
        cases hinv
      · left
        refine ⟨rfl, ?_⟩
        by_cases hlt : (encodeRecord w.offset c.record).length < n
        · rw [append_fits (c := ⟨n, false⟩) rfl hne hlt]
          rfl
        · rw [append_cut (c := ⟨n, false⟩) rfl hne (by simpa using hlt)]
          show w.bytes ++ (encodeRecord w.offset c.record).take n = _
          rw [List.take_of_length_le hwhole]
      · by_cases hlt : (encodeRecord w.offset c.record).length < n
        · left
          rw [append_fits (c := ⟨n, false⟩) rfl hne hlt]
          exact ⟨rfl, rfl⟩
        · right
          rw [append_cut (c := ⟨n, false⟩) rfl hne (by simpa using hlt)]
          refine ⟨rfl, n, hpad, ?_, List.prefix_append _ _⟩
          show (w.bytes ++ (encodeRecord w.offset c.record).take n).length = _
          rw [List.length_append, List.length_take]
          omega

end Call

/-! ## Runs -/

/-- The file holds its header and the records `rs`, whole; behind them there is at most padding. -/
structure Intact (walId : UInt32) (startSeq : UInt64) (w : Writer Status) (rs : List InternalRecord)
    (good : Nat) : Prop where
  synced : w.Synced
  header : At w.bytes 0 (WALFileHeader.create walId startSeq).bytes
  log : LogAt w.bytes WALFileHeader.diskSize rs good
  le : good ≤ w.bytes.length
  start : fragStart good = fragStart w.bytes.length

section Runs

variable {walId : UInt32} {startSeq : UInt64} {w : Writer Status} {rs : List InternalRecord} {good : Nat}

theorem Intact.tail (h : Intact walId startSeq w rs good) : TailAt w.bytes good :=
  ⟨h.le, .inl (by rw [h.start]; exact le_fragStart _)⟩

theorem header_mono {b c : List UInt8} (h : At b 0 (WALFileHeader.create walId startSeq).bytes) :
    At (b ++ c) 0 (WALFileHeader.create walId startSeq).bytes := by
  refine h.mono c fun h0 => ?_
  have hlen := (WALFileHeader.create walId startSeq).length_bytes
  rw [h0] at hlen
  exact absurd hlen (by decide)

/-- A whole record behind an intact file. -/
theorem Intact.extend (h : Intact walId startSeq w rs good) {r : InternalRecord} (ht : r.type.isValid = true)
    {w' : Writer Status} (hs : w'.Synced) (hb : w'.bytes = w.bytes ++ encodeRecord w.offset r) :
    Intact walId startSeq w' (rs ++ [r]) (recordEnd good r) := by
  have hstart : fragStart good = fragStart w.offset := by rw [h.synced, h.start]
  have hend := recordEnd_congr hstart r
  have hlen := length_encodeRecord w.offset r
  have hat : At (w.bytes ++ encodeRecord w.offset r) w.offset (encodeRecord w.offset r) := by
    have := at_append w.bytes (encodeRecord w.offset r) []
    rwa [List.append_nil, ← h.synced] at this
  have hfrags : FragsAt (w.bytes ++ encodeRecord w.offset r) good (recordFragments good r) := by
    rw [recordFragments_congr hstart r]
    exact (frags_congr hstart (recordFragments_ne_nil _ r)).1.mpr (fragsAt_of_at hat)
  have hlen' : w'.bytes.length = recordEnd good r := by
    rw [hb, List.length_append, ← h.synced, hlen, hend]
  refine ⟨hs, ?_, ?_, Nat.le_of_eq hlen'.symm, by rw [hlen']⟩
  · rw [hb]
    exact header_mono h.header
  · rw [hb]
    exact logAt_snoc (logAt_mono _ h.log) ht hfrags

/-- Padding behind an intact file. -/
theorem Intact.pad (h : Intact walId startSeq w rs good) {w' : Writer Status} (hs : w'.Synced) {k : Nat}
    (hk : k ≤ padSize w.offset (FragmentHeader.diskSize + 1) WAL_FILE_BLOCK_SIZE)
    (hlen : w'.bytes.length = w.bytes.length + k) (hpre : w.bytes <+: w'.bytes) :
    Intact walId startSeq w' rs good := by
  obtain ⟨t, ht⟩ := hpre
  have hstart : fragStart w'.bytes.length = fragStart w.bytes.length := by
    rw [hlen]
    exact fragStart_of_padded (by rw [← h.synced]; exact hk)
  refine ⟨hs, ?_, ?_, by have := h.le; omega, by rw [hstart, h.start]⟩
  · rw [← ht]
    exact header_mono h.header
  · rw [← ht]
    exact logAt_mono t h.log

theorem runWrites_silent {cs : List WriteCall} (hs : ∀ c ∈ cs, c.Silent) (hw : w.Synced) :
    (runWrites cs w).1 = [] ∧ (runWrites cs w).2.bytes = w.bytes := by
  induction cs generalizing w with
  | nil => exact ⟨rfl, rfl⟩
  | cons c cs ih =>
    obtain ⟨h1, h2⟩ := run_silent hw (hs c (by simp))
    obtain ⟨h3, h4⟩ := ih (fun c' hc' => hs c' (by simp [hc'])) (run_synced (c := c) hw)
    simp only [runWrites]
    exact ⟨by simp [h1, h3], by rw [h4, h2]⟩

/-- The beginning of a record behind an intact file. -/
theorem Intact.cut (h : Intact walId startSeq w rs good) {r : InternalRecord} (ht : r.type.isValid = true)
    {b p : List UInt8} (hb : b = w.bytes ++ p) (hp : p <+: encodeRecord w.offset r)
    (hlt : p.length < (encodeRecord w.offset r).length) :
    At b 0 (WALFileHeader.create walId startSeq).bytes ∧ LogAt b WALFileHeader.diskSize rs good ∧
      TailAt b good := by
  subst hb
  have hstart : fragStart good = fragStart w.offset := by rw [h.synced, h.start]
  have hlen : (w.bytes ++ p).length = w.offset + p.length := by rw [List.length_append, h.synced]
  have hend : w.offset + (encodeFragments w.offset (recordFragments w.offset r)).length =
      fragsEnd w.offset (recordFragments w.offset r) := length_encodeRecord w.offset r
  have hdrop : (w.bytes ++ p).drop w.offset = p := by rw [h.synced, List.drop_left]
  have hcut : FragsCut (w.bytes ++ p) w.offset (recordFragments w.offset r) := by
    refine fragsCut_of_prefix (by omega) (by rw [hdrop]; exact hp) ?_
    have hlt' : p.length < (encodeFragments w.offset (recordFragments w.offset r)).length := hlt
    omega
  refine ⟨header_mono h.header, logAt_mono p h.log, ?_, .inr ⟨r, ht, ?_⟩⟩
  · have := h.le
    rw [List.length_append]
    omega
  · rw [recordFragments_congr hstart r]
    exact (frags_congr hstart (recordFragments_ne_nil _ r)).2.1.mpr hcut

/-- The end of a run on an intact log: what is on the file is read back. -/
theorem runWrites_recovered {calls : List WriteCall} (h : Intact walId startSeq w rs good)
    (hclean : CleanRun calls w) :
    ∃ found good', Recovered (WALFileHeader.create walId startSeq) (rs ++ found) good'
        (WALLoader.load (ReadableFile.ofBytes (runWrites calls w).2.bytes "wal") walId) ∧
      (runWrites calls w).1.Sublist found ∧ found.Sublist (calls.map WriteCall.record) := by
  induction calls generalizing w rs good with
  | nil =>
    have hload := load_log (ReadableFile.ofBytes_sound w.bytes "wal") h.header h.log h.tail
    exact ⟨[], good, by rw [List.append_nil]; exact hload, List.Sublist.slnil, List.Sublist.slnil⟩
  | cons c cs ih =>
    have hsync := run_synced (c := c) h.synced
    simp only [runWrites, List.map_cons]
    rcases hclean with ⟨hc, hcs⟩ | hsilent
    · rcases run_clean h.synced hc with ⟨ht, hb⟩ | ⟨hfail, k, hk, hlen, hpre⟩
      · obtain ⟨found, good', hrec, hsub, hsub'⟩ := ih (h.extend ht hsync hb) hcs
        rw [List.append_assoc] at hrec
        refine ⟨c.record :: found, good', hrec, ?_, hsub'.cons_cons _⟩
        split
        · exact hsub.cons_cons _
        · exact hsub.cons _
      · obtain ⟨found, good', hrec, hsub, hsub'⟩ := ih (h.pad hsync hk hlen hpre) hcs
        exact ⟨found, good', hrec, by simpa [hfail] using hsub, hsub'.cons _⟩
    · -- no later byte: the call may be cut anywhere
      obtain ⟨hnone, hbytes⟩ := runWrites_silent hsilent hsync
      rw [hnone, hbytes, List.append_nil]
      obtain ⟨p, hp, hb⟩ := run_prefix (c := c) h.synced
      by_cases hok : (c.run w).1.isOk = true
      · obtain ⟨ht, hb'⟩ := run_ok h.synced hok
        have h' := h.extend ht hsync hb'
        have hload := load_log (ReadableFile.ofBytes_sound _ "wal") h'.header h'.log h'.tail
        exact ⟨[c.record], _, hload, by simp [hok], by simp⟩
      rw [show (c.run w).1.isOk = false by simpa using hok]
      cases ht : c.record.type.isValid with
      | false =>
        rw [(run_invalid h.synced ht).2.1]
        have hload := load_log (ReadableFile.ofBytes_sound w.bytes "wal") h.header h.log h.tail
        exact ⟨[], good, by rw [List.append_nil]; exact hload, by simp, by simp⟩
      | true =>
        by_cases hlt : p.length < (encodeRecord w.offset c.record).length
        · obtain ⟨h1, h2, h3⟩ := h.cut ht hb hp hlt
          have hload := load_log (ReadableFile.ofBytes_sound _ "wal") h1 h2 h3
          exact ⟨[], good, by rw [List.append_nil]; exact hload, by simp, by simp⟩
        · have hwhole : p = encodeRecord w.offset c.record := hp.eq_of_length_le (by omega)
          have h' := h.extend ht hsync (by rw [hb, hwhole])
          have hload := load_log (ReadableFile.ofBytes_sound _ "wal") h'.header h'.log h'.tail
          exact ⟨[c.record], _, hload, by simp, by simp⟩

/-- A run cut short is clean when the whole is. -/
theorem cleanRun_take {calls : List WriteCall} (h : CleanRun calls w) (n : Nat) :
    CleanRun (calls.take n) w := by
  induction calls generalizing w n with
  | nil => simpa using h
  | cons c cs ih =>
    cases n with
    | zero => trivial
    | succ n =>
      rcases h with ⟨hc, hcs⟩ | hsilent
      · exact .inl ⟨hc, ih hcs n⟩
      · exact .inr fun c' hc' => hsilent c' (List.mem_of_mem_take hc')

theorem newLog_intact (walId : UInt32) (startSeq : UInt64) (error : Status) :
    Intact walId startSeq (newLog walId startSeq error) [] WALFileHeader.diskSize := by
  have hw : (newFile error).Synced := rfl
  have hlen := (WALFileHeader.create walId startSeq).length_bytes
  have happ := create_apply walId startSeq hw rfl
  rw [append_free rfl] at happ
  have hnew : newLog walId startSeq error =
      (newFile error).put (WALFileHeader.create walId startSeq).bytes none := by rw [newLog, happ]
  have hbytes : (newLog walId startSeq error).bytes = (WALFileHeader.create walId startSeq).bytes := by
    rw [hnew]
    exact List.nil_append _
  rw [← hbytes] at hlen
  have hsync : (newLog walId startSeq error).Synced := by
    rw [hnew]
    exact hw.put _ _
  refine ⟨hsync, ?_, rfl, Nat.le_of_eq hlen.symm, by rw [hlen]⟩
  rw [hbytes, At, List.drop_zero]

/-- **Recovery after clean failures.**  In a run in which every failed write left its whole record
or at most padding (or nothing came after it), recovery after each call finds every
acknowledged record. -/
theorem survives_of_cleanRun (walId : UInt32) (startSeq : UInt64) (error : Status) (calls : List WriteCall)
    (h : CleanRun calls (newLog walId startSeq error)) (n : Nat) :
    Survives walId startSeq error (calls.take n) := by
  obtain ⟨found, good, ⟨torn, message, off, hload, -⟩, hsub, hsub'⟩ :=
    runWrites_recovered (newLog_intact walId startSeq error) (cleanRun_take h n)
  exact ⟨_, off, hload, rfl, rfl, hsub, hsub'⟩

end Runs

/-- Two writes; the first fails after `n` bytes, the second one is acknowledged. -/
def failedThenAcked (n : Nat) : List WriteCall :=
  [⟨⟨.ofByte 97, .ofByte 49, .put, 1⟩, some n⟩, ⟨⟨.ofByte 98, .ofByte 50, .put, 1⟩, none⟩]

omit [Zlib] in
/-- The first write leaves 10 of the 22 bytes of its fragment header: the loader takes the second
record's bytes for the rest and reports corruption. -/
theorem not_survives_failedThenAcked : letI := documentedZlib
    ¬ Survives 7 1 ⟨.writeFailed, "append"⟩ (failedThenAcked 10) := by
  intro h
  obtain ⟨res, off, hload, hok, -, -, -⟩ := h
  have hcorrupt : (@WALLoader.load documentedZlib (ReadableFile.ofBytes
      (@runWrites documentedZlib (failedThenAcked 10)
        (@newLog documentedZlib 7 1 ⟨.writeFailed, "append"⟩)).2.bytes "wal") 7).1.map (·.ok) =
        .ok false := by
    decide +kernel
  have hres := congrArg (fun r => r.1.map WALLoader.LoadResult.ok) hload
  have hfalse : Except.ok res.ok = (Except.ok false : Except Status Bool) := hres.symm.trans hcorrupt
  rw [hok] at hfalse
  cases hfalse

omit [Zlib] in
/-- A first write that fails with its whole record in the file does no harm. -/
theorem survives_failedThenAcked : letI := documentedZlib
    Survives 7 1 ⟨.writeFailed, "append"⟩ ((failedThenAcked 32).take 2) := by
  refine @survives_of_cleanRun documentedZlib 7 1 ⟨.writeFailed, "append"⟩ (failedThenAcked 32) ?_ 2
  refine .inl ⟨.inr (.inl ?_), .inl ⟨trivial, trivial⟩⟩
  decide +kernel

end Kvdb
