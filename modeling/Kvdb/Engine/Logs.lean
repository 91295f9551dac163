import Kvdb.Engine.Engine
import Kvdb.Lib.Hoare
import Kvdb.Wal.FailedWrites

/-!
# The log files of the engine

`Readable b id rs`: recovery of the bytes `b` as the log `id` gives exactly the
records `rs`.  `Writable b id rs`: moreover a writer at the end of the file can
go on.  What each operation of the engine on a log does to these, for every
fault:

    create : ok → Writable []
    write r : Writable rs → ok → Writable (rs ++ [r]),
              a fault → Readable rs or Writable (rs ++ [r])
-/

namespace Kvdb

open Faulty Bytes

variable [Zlib]

/-- The file recovers as the records `rs`. -/
def Readable (b : List UInt8) (id : UInt32) (rs : List InternalRecord) : Prop :=
  ∃ startSeq good, At b 0 (WALFileHeader.create id startSeq).bytes ∧
    LogAt b WALFileHeader.diskSize rs good ∧ TailAt b good

/-- The file holds the records `rs` and nothing behind them. -/
def Writable (b : List UInt8) (id : UInt32) (rs : List InternalRecord) : Prop :=
  ∃ startSeq good, ∀ room error, Intact id startSeq ⟨b, b.length, room, error⟩ rs good

variable {b : List UInt8} {id : UInt32} {rs : List InternalRecord}

theorem Writable.readable (h : Writable b id rs) : Readable b id rs := by
  obtain ⟨startSeq, good, hi⟩ := h
  have h0 := hi none ⟨.ioError, ""⟩
  exact ⟨startSeq, good, h0.header, h0.log, h0.tail⟩

theorem LogAt.valid {off off' : Nat} (h : LogAt b off rs off') : ∀ r ∈ rs, r.type.isValid = true := by
  induction rs generalizing off with
  | nil => intro r hr; cases hr
  | cons x xs ih =>
    obtain ⟨hx, -, hxs⟩ := h
    intro r hr
    rcases List.mem_cons.mp hr with rfl | hr
    · exact hx
    · exact ih hxs r hr

theorem Readable.valid (h : Readable b id rs) : ∀ r ∈ rs, r.type.isValid = true := by
  obtain ⟨_, _, -, hlog, -⟩ := h
  exact hlog.valid

/-- Recovery of a readable file. -/
theorem Readable.load (h : Readable b id rs) :
    ∃ res, (WALLoader.load (ReadableFile.ofBytes b "wal") id).1 = .ok res ∧ res.ok = true ∧
      res.hadCorruption = false ∧ res.records = rs := by
  obtain ⟨startSeq, good, hhead, hlog, htail⟩ := h
  obtain ⟨torn, message, off, hload, -⟩ := load_log (ReadableFile.ofBytes_sound b "wal") hhead hlog htail
  exact ⟨_, by rw [hload], rfl, rfl, rfl⟩

/-- A file recovers as one list of records. -/
theorem Readable.unique {rs' : List InternalRecord} (h : Readable b id rs) (h' : Readable b id rs') : rs = rs' := by
  obtain ⟨res, hload, -, -, hres⟩ := h.load
  obtain ⟨res', hload', -, -, hres'⟩ := h'.load
  rw [hload] at hload'
  cases hload'
  rw [← hres, ← hres']

theorem Intact.writable {startSeq : UInt64} {w : Writer Status} {good : Nat} (h : Intact id startSeq w rs good) :
    Writable w.bytes id rs :=
  ⟨startSeq, good, fun _ _ => ⟨rfl, h.header, h.log, h.le, h.start⟩⟩

/-- The append met a fault that is reported. -/
def Reported (room : Option Cut) : Prop := ∃ c, room = some c ∧ c.crash = false

omit [Zlib] in
theorem append_err {data : List UInt8} {w w' : Writer Status} {s : Status} (h : append data w = (.err s, w')) :
    Reported w.room := by
  unfold append at h
  split at h
  · cases h
  · split at h
    · cases h
    · next c hc =>
      split at h
      · cases h
      · cases hcrash : c.crash with
        | true => rw [hcrash] at h; cases h
        | false => exact ⟨c, hc, hcrash⟩

/-- The append met the loss of the process. -/
def Lost (room : Option Cut) : Prop := ∃ c, room = some c ∧ c.crash = true

omit [Zlib] in
theorem append_crash {data : List UInt8} {w w' : Writer Status} (h : append data w = (.crash, w')) : Lost w.room := by
  unfold append at h
  split at h
  · cases h
  · split at h
    · cases h
    · next c hc =>
      split at h
      · cases h
      · cases hcrash : c.crash with
        | true => exact ⟨c, hc, hcrash⟩
        | false => rw [hcrash] at h; cases h

/-- A write to a log, whatever happens in it. -/
theorem Writable.write (h : Writable b id rs) {r : InternalRecord} (ht : r.type.isValid = true)
    (room : Option Cut) (error : Status) :
    Ends (fun _ file => Writable file.bytes id (rs ++ [r]))
      (fun file => Reported room ∧ (Readable file.bytes id rs ∨ Writable file.bytes id (rs ++ [r])))
      (fun file => Lost room ∧ (Readable file.bytes id rs ∨ Writable file.bytes id (rs ++ [r])))
      (WALWriter.write r ⟨b, b.length, room, error⟩) := by
  obtain ⟨startSeq, good, hi⟩ := h
  have h0 := hi room error
  have hw : (⟨b, b.length, room, error⟩ : Writer Status).Synced := rfl
  rw [write_isAppend ht _ hw]
  have hsync := append_synced (encodeRecord b.length r) hw
  obtain ⟨p, hp, hb⟩ := append_prefix (encodeRecord b.length r) ⟨b, b.length, room, error⟩
  have hcut : Readable (append (encodeRecord b.length r) ⟨b, b.length, room, error⟩).2.bytes id rs ∨
      Writable (append (encodeRecord b.length r) ⟨b, b.length, room, error⟩).2.bytes id (rs ++ [r]) := by
    by_cases hlt : p.length < (encodeRecord b.length r).length
    · obtain ⟨h1, h2, h3⟩ := h0.cut ht hb hp hlt
      exact .inl ⟨startSeq, good, h1, h2, h3⟩
    · have hwhole : p = encodeRecord b.length r := hp.eq_of_length_le (by omega)
      exact .inr (h0.extend ht hsync (by rw [hb, hwhole])).writable
  match hr : append (encodeRecord b.length r) ⟨b, b.length, room, error⟩ with
  | (.ok u, file) =>
    rw [hr] at hsync
    exact (h0.extend ht hsync (append_ok_bytes hr)).writable
  | (.err e, file) =>
    rw [hr] at hcut
    exact ⟨append_err hr, hcut⟩
  | (.crash, file) =>
    rw [hr] at hcut
    exact ⟨append_crash hr, hcut⟩

theorem newLog_bytes (id : UInt32) (startSeq : UInt64) (error : Status) :
    (newLog id startSeq error).bytes = (WALFileHeader.create id startSeq).bytes := by
  have happ := create_apply id startSeq (w := newFile error) rfl rfl
  rw [append_free rfl] at happ
  rw [newLog, happ]
  exact List.nil_append _

/-- A file header and nothing else. -/
theorem writable_header (id : UInt32) (startSeq : UInt64) :
    Writable (WALFileHeader.create id startSeq).bytes id [] := by
  obtain ⟨error⟩ : Nonempty Status := ⟨⟨.ioError, ""⟩⟩
  have hw := (newLog_intact id startSeq error).writable
  rwa [newLog_bytes] at hw

/-- A new log is its header; what a lost process leaves is the start of it. -/
theorem create_ends (id : UInt32) (startSeq : UInt64) (room : Option Cut) (error : Status) :
    Ends (fun _ file => file.bytes = (WALFileHeader.create id startSeq).bytes) (fun _ => Reported room)
      (fun file => Lost room ∧ file.bytes <+: (WALFileHeader.create id startSeq).bytes)
      (WALWriter.create id startSeq ⟨[], 0, room, error⟩) := by
  have hw : (⟨[], 0, room, error⟩ : Writer Status).Synced := rfl
  rw [create_apply id startSeq hw rfl]
  match hr : append (WALFileHeader.create id startSeq).bytes ⟨[], 0, room, error⟩ with
  | (.ok u, file) => exact (append_ok_bytes hr).trans (List.nil_append _)
  | (.err e, file) => exact append_err hr
  | (.crash, file) =>
    obtain ⟨p, hp, hb⟩ := append_prefix (WALFileHeader.create id startSeq).bytes ⟨[], 0, room, error⟩
    rw [hr] at hb
    have hfile : file.bytes = p := hb.trans (List.nil_append _)
    refine ⟨append_crash hr, ?_⟩
    rw [hfile]
    exact hp

end Kvdb
