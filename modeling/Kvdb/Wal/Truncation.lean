import Kvdb.Wal.Recovery

/-!
# A truncated log

A log written without faults and then cut anywhere behind its file header loads
without corruption as exactly the records that lie wholly before the cut, and a
torn tail is reported at the end of the last of them.
-/

namespace Kvdb

open Faulty Bytes

variable [Zlib]

/-- A new file without faults, as `open_writable_file` gives it after the removal of an old one. -/
def newFile (error : Status) : Writer Status := ⟨[], 0, none, error⟩

/-- `WALWriter::write` for each of the records. -/
def writeAll : List InternalRecord → WriterM Status Unit
  | [] => pure ()
  | r :: rs => do
    WALWriter.write r
    writeAll rs

/-- `WALWriter::create`, then `WALWriter::write` for each of the records. -/
def writeLog (walId : UInt32) (startSeq : UInt64) (rs : List InternalRecord) : WriterM Status Unit := do
  WALWriter.create walId startSeq
  writeAll rs

/-- The length of the file when the first `k` of the records are written. -/
def logSize (walId : UInt32) (startSeq : UInt64) (rs : List InternalRecord) (error : Status) (k : Nat) : Nat :=
  (writeLog walId startSeq (rs.take k) (newFile error)).2.bytes.length

/-- The bytes of records written from `off` on. -/
def encodeLog : Nat → List InternalRecord → List UInt8
  | _, [] => []
  | off, r :: rs => encodeRecord off r ++ encodeLog (recordEnd off r) rs

theorem writeAll_isAppend {rs : List InternalRecord} (ht : ∀ r ∈ rs, r.type.isValid = true) :
    IsAppend (writeAll rs) fun off => encodeLog off rs := by
  induction rs with
  | nil => exact isAppend_pure
  | cons r rs ih =>
    have h := (write_isAppend (ht r (by simp))).bind (ih fun r' hr' => ht r' (by simp [hr']))
    refine h.congr fun off => ?_
    rw [length_encodeRecord, encodeLog]

theorem writeAll_ok_valid {rs : List InternalRecord} {w w' : Writer Status} (hw : w.Synced)
    (hr : w.room = none) (h : writeAll rs w = (.ok (), w')) : ∀ r ∈ rs, r.type.isValid = true := by
  induction rs generalizing w with
  | nil => simp
  | cons r rs ih =>
    rw [writeAll] at h
    obtain ⟨u, w₁, hw₁, hrest⟩ := bind_eq_ok h
    cases ht : r.type.isValid with
    | false =>
      rw [write_invalid ht hw] at hw₁
      cases hw₁
    | true =>
      rw [(write_isAppend ht).free hw hr] at hw₁
      cases hw₁
      intro r' hr'
      rcases List.mem_cons.mp hr' with rfl | hr'
      · exact ht
      · exact ih (hw.put _ _) rfl hrest r' hr'

/-- The file after a log of valid records is written. -/
theorem writeLog_apply (walId : UInt32) (startSeq : UInt64) {rs : List InternalRecord} (error : Status)
    (ht : ∀ r ∈ rs, r.type.isValid = true) :
    writeLog walId startSeq rs (newFile error) =
      (.ok (), (newFile error).put ((WALFileHeader.create walId startSeq).bytes ++
        encodeLog WALFileHeader.diskSize rs) none) := by
  have hw : (newFile error).Synced := rfl
  have hcreate := create_apply walId startSeq hw rfl
  rw [append_free rfl] at hcreate
  have hlen := (WALFileHeader.create walId startSeq).length_bytes
  rw [writeLog, bind_ok hcreate, (writeAll_isAppend ht).free (hw.put _ _) rfl, Writer.put_put,
    Writer.put_offset, hlen]
  rfl

theorem writeLog_ok_valid {walId : UInt32} {startSeq : UInt64} {rs : List InternalRecord} {error : Status}
    {w : Writer Status} (h : writeLog walId startSeq rs (newFile error) = (.ok (), w)) :
    ∀ r ∈ rs, r.type.isValid = true := by
  have hw : (newFile error).Synced := rfl
  have hcreate := create_apply walId startSeq hw rfl
  rw [append_free rfl] at hcreate
  rw [writeLog, bind_ok hcreate] at h
  exact writeAll_ok_valid (hw.put _ _) rfl h

theorem logSize_eq {walId : UInt32} {startSeq : UInt64} {rs : List InternalRecord} {error : Status}
    (ht : ∀ r ∈ rs, r.type.isValid = true) (k : Nat) :
    logSize walId startSeq rs error k =
      WALFileHeader.diskSize + (encodeLog WALFileHeader.diskSize (rs.take k)).length := by
  have hlen := (WALFileHeader.create walId startSeq).length_bytes
  rw [logSize, writeLog_apply walId startSeq error fun r hr => ht r (List.mem_of_mem_take hr)]
  simp [newFile, hlen]

/-- A cut log splits at the last record that lies wholly before the cut. -/
theorem cut_log {b : List UInt8} {rs : List InternalRecord} {off : Nat} (ht : ∀ r ∈ rs, r.type.isValid = true)
    (hoff : off ≤ b.length) (hpre : b.drop off <+: encodeLog off rs) :
    ∃ k ≤ rs.length, off + (encodeLog off (rs.take k)).length ≤ b.length ∧
      (∀ j, k < j → j ≤ rs.length → b.length < off + (encodeLog off (rs.take j)).length) ∧
      LogAt b off (rs.take k) (off + (encodeLog off (rs.take k)).length) ∧
      TailAt b (off + (encodeLog off (rs.take k)).length) := by
  induction rs generalizing off with
  | nil =>
    have hb : b.length = off := by
      have := hpre.length_le
      simp only [encodeLog, List.length_drop, List.length_nil] at this
      omega
    refine ⟨0, Nat.le_refl _, by simp [encodeLog, hoff], fun j h1 h2 => ?_, rfl, ?_⟩
    · simp only [List.length_nil] at h2
      omega
    · exact ⟨by simp [encodeLog, hoff], .inl (by have := le_fragStart off; simp [encodeLog]; omega)⟩
  | cons r rs ih =>
    have hend := length_encodeRecord off r
    by_cases hwhole : recordEnd off r ≤ b.length
    · -- the record is whole: it and the split of the rest
      have hat : At b off (encodeRecord off r) := by
        refine List.prefix_of_prefix_length_le (List.prefix_append _ _) hpre ?_
        rw [List.length_drop]
        omega
      have hrest := List.IsPrefix.drop hpre (encodeRecord off r).length
      rw [List.drop_drop, hend, encodeLog, List.drop_left] at hrest
      obtain ⟨k, hk, hle, hmax, hlog, htail⟩ := ih (fun r' hr' => ht r' (by simp [hr'])) hwhole hrest
      have hlen : ∀ j, off + (encodeLog off ((r :: rs).take (j + 1))).length =
          recordEnd off r + (encodeLog (recordEnd off r) (rs.take j)).length := by
        intro j
        rw [List.take_succ_cons, encodeLog, List.length_append, ← Nat.add_assoc, hend]
      refine ⟨k + 1, by simpa using hk, by rw [hlen]; exact hle, ?_, ?_, by rw [hlen]; exact htail⟩
      · intro j h1 h2
        obtain ⟨j, rfl⟩ : ∃ i, j = i + 1 := ⟨j - 1, by omega⟩
        rw [hlen]
        exact hmax j (by omega) (by simpa using h2)
      · rw [hlen, List.take_succ_cons]
        exact ⟨ht r (by simp), fragsAt_of_at hat, hlog⟩
    · -- the cut lies inside this record
      have hcut : FragsCut b off (recordFragments off r) := by
        refine fragsCut_of_prefix hoff ?_ (Nat.lt_of_not_le hwhole)
        refine List.prefix_of_prefix_length_le hpre (List.prefix_append _ _) ?_
        rw [List.length_drop]
        have hend' : off + (encodeFragments off (recordFragments off r)).length = recordEnd off r := hend
        omega
      refine ⟨0, Nat.zero_le _, by simp [encodeLog, hoff], ?_, rfl, by simp [encodeLog, hoff], .inr ?_⟩
      · intro j h1 _
        obtain ⟨j, rfl⟩ : ∃ i, j = i + 1 := ⟨j - 1, by omega⟩
        rw [List.take_succ_cons, encodeLog, List.length_append]
        omega
      · exact ⟨r, ht r (by simp), by simpa [encodeLog] using hcut⟩

/-- **Round trip under every truncation.**  The records of the cut log are the first `k`, where
the `k`-th record is the last one that ends before the cut. -/
theorem load_truncated_log (walId : UInt32) (startSeq : UInt64) (rs : List InternalRecord) (error : Status)
    {w : Writer Status} (hw : writeLog walId startSeq rs (newFile error) = (.ok (), w)) {n : Nat}
    (hhead : WALFileHeader.diskSize ≤ n) (hn : n ≤ w.bytes.length) (path : String) :
    ∃ k ≤ rs.length, logSize walId startSeq rs error k ≤ n ∧
      (∀ j, k < j → j ≤ rs.length → n < logSize walId startSeq rs error j) ∧
      ∃ res off, WALLoader.load (ReadableFile.ofBytes (w.bytes.take n) path) walId = (.ok res, off) ∧
        res.ok = true ∧ res.hadCorruption = false ∧ res.records = rs.take k ∧
        (res.hadTornTail = true → off = logSize walId startSeq rs error k) := by
  have ht := writeLog_ok_valid hw
  have hlen := (WALFileHeader.create walId startSeq).length_bytes
  rw [writeLog_apply walId startSeq error ht] at hw
  cases hw
  have hbytes : ((newFile error).put ((WALFileHeader.create walId startSeq).bytes ++
      encodeLog WALFileHeader.diskSize rs) none).bytes =
      (WALFileHeader.create walId startSeq).bytes ++ encodeLog WALFileHeader.diskSize rs := rfl
  rw [hbytes] at hn ⊢
  generalize hb : ((WALFileHeader.create walId startSeq).bytes ++
    encodeLog WALFileHeader.diskSize rs).take n = b
  have hblen : b.length = n := by rw [← hb, List.length_take]; omega
  have hhat : At b 0 (WALFileHeader.create walId startSeq).bytes := by
    rw [← hb]
    exact At.take (List.prefix_append _ _) (by omega)
  have hpre : b.drop WALFileHeader.diskSize <+: encodeLog WALFileHeader.diskSize rs := by
    rw [← hb, List.drop_take, ← hlen, List.drop_left]
    exact List.take_prefix _ _
  obtain ⟨k, hk, hle, hmax, hlog, htail⟩ := cut_log ht (by omega) hpre
  obtain ⟨torn, message, off, hload, htorn⟩ :=
    load_log (ReadableFile.ofBytes_sound b path) hhat hlog htail
  refine ⟨k, hk, ?_, ?_, _, off, hload, rfl, rfl, rfl, ?_⟩
  · rw [logSize_eq ht, ← hblen]
    exact hle
  · intro j h1 h2
    rw [logSize_eq ht, ← hblen]
    exact hmax j h1 h2
  · rw [logSize_eq ht]
    exact htorn

/-- A log of two records, the second cut ten bytes behind its start. -/
def twoRecords : List InternalRecord :=
  [⟨.ofByte 97, .ofByte 49, .put, 1⟩, ⟨.ofByte 98, .empty, .tombstone, 2⟩]

omit [Zlib] in
theorem load_truncated_log_twoRecords : letI := documentedZlib
    ∃ k ≤ twoRecords.length, logSize 7 1 twoRecords ⟨.writeFailed, "append"⟩ k ≤ 82 ∧
      (∀ j, k < j → j ≤ twoRecords.length → 82 < logSize 7 1 twoRecords ⟨.writeFailed, "append"⟩ j) ∧
      ∃ res off, WALLoader.load (ReadableFile.ofBytes
          ((writeLog 7 1 twoRecords (newFile ⟨.writeFailed, "append"⟩)).2.bytes.take 82) "wal") 7 =
            (.ok res, off) ∧
        res.ok = true ∧ res.hadCorruption = false ∧ res.records = twoRecords.take k ∧
        (res.hadTornTail = true → off = logSize 7 1 twoRecords ⟨.writeFailed, "append"⟩ k) := by
  have hok : (@writeLog documentedZlib 7 1 twoRecords (newFile ⟨.writeFailed, "append"⟩)).1 = .ok () := by
    decide +kernel
  have hlen : 82 ≤
      (@writeLog documentedZlib 7 1 twoRecords (newFile ⟨.writeFailed, "append"⟩)).2.bytes.length := by
    decide +kernel
  exact @load_truncated_log documentedZlib 7 1 twoRecords ⟨.writeFailed, "append"⟩ _ (run_eq hok) 82
    (by decide) hlen "wal"

end Kvdb
