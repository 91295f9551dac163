import Kvdb.Engine.Invariant

/-!
# States of a database

* `DiskOk n d v`: the disk `d`, opened with `n` levels, recovers to the map `v`.
* `Live n e d v`: the open engine `e` over `d` answers with `v`, and so does the disk.

After a failed flush the engine stays open in one of two more states:

* `Poisoned`: the manifest's outcome is uncertain; writes still go to the log.
* `Stopped`: the log could not be closed; nothing is written any more.
-/

namespace Kvdb

open Faulty Bytes Recency

variable [Zlib]

/-- The manifest on disk replays to this version. -/
structure Persisted (n : Nat) (d : Disk EditLog) (lm : LevelManager) (c : StagedCounters) : Prop where
  dir : d.dir = true
  edits : ∃ edits, d.manifest = some ⟨edits⟩ ∧ replay n edits = .ok (lm, c)

/-- The log that the version selects, with its records. -/
structure Selects (d : Disk EditLog) (c : StagedCounters) (rs : List InternalRecord) : Prop where
  walId : c.currentWalId.toNat < 2 ^ 32
  log : ∃ b, d.wals c.currentWalId.toUInt32 = some b ∧ Readable b c.currentWalId.toUInt32 rs
  seq_lt : ∀ r ∈ rs, r.seqNum.toNat < 2 ^ 64 - 1

def DiskOk (n : Nat) (d : Disk EditLog) (v : View) : Prop :=
  ∃ lm c rs, Persisted n d lm c ∧ Selects d c rs ∧ Shown lm c d.tables rs v

/-- An open engine with valid options and `n` levels. -/
structure Opened (n : Nat) (e : Engine LogObject) : Prop where
  opened : e.opened = true
  closed : e.closed = false
  options : e.options.validate = .ok ()
  limit : e.options.compaction.maxLevels.toNat = n
  levelCount : e.levels.levelCount = n

/-- The engine's log is open and holds the records `rs`; the version `c` on disk selects it. -/
structure Logging (e : Engine LogObject) (d : Disk EditLog) (c : StagedCounters) (rs : List InternalRecord) : Prop where
  wal : e.wal = some ⟨e.currentWalId, true⟩
  walId : c.currentWalId = e.currentWalId.toUInt64
  log : ∃ b, d.wals e.currentWalId = some b ∧ Writable b e.currentWalId rs
  seq_lt : ∀ r ∈ rs, r.seqNum.toNat < e.nextSequence.toNat
  next_le : c.nextSequenceNumber.toNat ≤ e.nextSequence.toNat

structure Live (n : Nat) (e : Engine LogObject) (d : Disk EditLog) (v : View) : Prop where
  opened : Opened n e
  manifest : e.manifest = some ⟨false⟩
  persisted : Persisted n d e.levels e.counters
  log : ∃ rs, Logging e d e.counters rs ∧ Shown e.levels e.counters d.tables rs v ∧
    MemOk e.mem (tableRecs e.levels d.tables) rs v

/-- The manifest's last append failed.  The flush is tried again with the same generation and
the same id, so the table it wrote, which may be installed on disk, does not change. -/
structure Poisoned (n : Nat) (e : Engine LogObject) (d : Disk EditLog) (v : View) : Prop where
  opened : Opened n e
  manifest : e.manifest = some ⟨true⟩
  fresh : ∀ r ∈ e.mem.mutableTable, r.seqNum.toNat < e.nextSequence.toNat
  pending : ∃ oldest rest, e.mem.immutableTables = oldest :: rest ∧
    d.tables e.counters.nextTableId.toUInt32 = some oldest.table
  log : ∃ lm c rs, Persisted n d lm c ∧ Logging e d c rs ∧ Shown lm c d.tables rs v

structure Stopped (n : Nat) (e : Engine LogObject) (d : Disk EditLog) (v : View) : Prop where
  opened : Opened n e
  manifest : e.manifest = some ⟨false⟩
  persisted : Persisted n d e.levels e.counters
  wal : ∃ id, e.wal = some ⟨id, false⟩
  mutableTable : e.mem.mutableTable = []
  immutableTables : e.mem.immutableTables = []
  log : ∃ rs, Selects d e.counters rs ∧ Shown e.levels e.counters d.tables rs v

/-- An engine that is still open after a failed call. -/
def Failed (n : Nat) (e : Engine LogObject) (d : Disk EditLog) (v : View) : Prop :=
  Live n e d v ∨ Poisoned n e d v ∨ Stopped n e d v

/-! ## The disk below an open engine -/

theorem Logging.selects {e : Engine LogObject} {d : Disk EditLog} {c : StagedCounters} {rs : List InternalRecord}
    (h : Logging e d c rs) : Selects d c rs := by
  obtain ⟨b, hb, hw⟩ := h.log
  refine ⟨?_, ⟨b, ?_, ?_⟩, fun r hr => ?_⟩
  · rw [h.walId, UInt32.toNat_toUInt64]
    exact UInt32.toNat_lt _
  · rw [h.walId, UInt32.toUInt32_toUInt64]
    exact hb
  · rw [h.walId, UInt32.toUInt32_toUInt64]
    exact hw.readable
  · have h1 := h.seq_lt r hr
    have h2 := e.nextSequence.toNat_lt
    omega

theorem Live.diskOk {n : Nat} {e : Engine LogObject} {d : Disk EditLog} {v : View} (h : Live n e d v) :
    DiskOk n d v := by
  obtain ⟨rs, hlog, hshown, -⟩ := h.log
  exact ⟨_, _, rs, h.persisted, hlog.selects, hshown⟩

theorem Poisoned.diskOk {n : Nat} {e : Engine LogObject} {d : Disk EditLog} {v : View} (h : Poisoned n e d v) :
    DiskOk n d v := by
  obtain ⟨lm, c, rs, hp, hlog, hshown⟩ := h.log
  exact ⟨lm, c, rs, hp, hlog.selects, hshown⟩

theorem Stopped.diskOk {n : Nat} {e : Engine LogObject} {d : Disk EditLog} {v : View} (h : Stopped n e d v) :
    DiskOk n d v := by
  obtain ⟨rs, hsel, hshown⟩ := h.log
  exact ⟨_, _, rs, h.persisted, hsel, hshown⟩

theorem Failed.diskOk {n : Nat} {e : Engine LogObject} {d : Disk EditLog} {v : View} (h : Failed n e d v) :
    DiskOk n d v := by
  rcases h with h | h | h
  · exact h.diskOk
  · exact h.diskOk
  · exact h.diskOk

theorem Failed.opened {n : Nat} {e : Engine LogObject} {d : Disk EditLog} {v : View} (h : Failed n e d v) :
    Opened n e := by
  rcases h with h | h | h
  · exact h.opened
  · exact h.opened
  · exact h.opened

end Kvdb
