import Kvdb.Engine.Compacting

/-!
# Flushes of the engine

A flush of the oldest generation, step by step: the table file, the new log when
it is the last generation, the commit, and the switch to the new log.  From a
live engine every end is covered: it is live again, it is one of the states of a
failed flush, or the process is lost and the disk still shows the map.

One end is not: a commit that selects the new log, fails, and is in the file all
the same (`NoLoss`).
-/

namespace Kvdb

open Faulty Bytes Recency

/-- No compaction's commit fails, and no failed commit of a new log is whole in the file. -/
structure NoLoss (P : Permits) : Prop where
  compactCommit : ∀ k s, ¬ P .compactCommit (.err k s)
  flushSwitch : ∀ k s, P .flushSwitch (.err k s) → k = 0

variable [Zlib] {n : Nat} {e e' : Engine LogObject} {d d' : Disk EditLog} {v : View}

/-! ## Changes that keep a state -/

omit [Zlib] in
theorem Persisted.congr {lm : LevelManager} {c : StagedCounters} (h : Persisted n d lm c) (hdir : d'.dir = d.dir)
    (hm : d'.manifest = d.manifest) : Persisted n d' lm c :=
  ⟨hdir.trans h.dir, by rw [hm]; exact h.edits⟩

theorem Logging.setWal {c : StagedCounters} {rs : List InternalRecord} (h : Logging e d c rs) {id : UInt32}
    (hid : id ≠ e.currentWalId) (b : Option (List UInt8)) : Logging e (d.setWal id b) c rs := by
  refine { h with log := ?_ }
  rw [Disk.setWal_wals_ne d (Ne.symm hid)]
  exact h.log

theorem Live.setWal (h : Live n e d v) {id : UInt32} (hid : id ≠ e.currentWalId) (b : Option (List UInt8)) :
    Live n e (d.setWal id b) v := by
  obtain ⟨rs, hlog, hshown, hmem⟩ := h.log
  exact ⟨h.opened, h.manifest, h.persisted.congr rfl rfl, rs, hlog.setWal hid b, hshown, hmem⟩

theorem Poisoned.setWal (h : Poisoned n e d v) {id : UInt32} (hid : id ≠ e.currentWalId) (b : Option (List UInt8)) :
    Poisoned n e (d.setWal id b) v := by
  obtain ⟨lm, c, rs, hp, hlog, hshown⟩ := h.log
  exact ⟨h.opened, h.manifest, h.fresh, h.pending, lm, c, rs, hp.congr rfl rfl, hlog.setWal hid b, hshown⟩

theorem Live.files (h : Live n e d v) {files : UInt32 → Option (List InternalRecord)}
    (heq : ∀ level, ∀ t ∈ e.levels.tables level, files t.tableId.toUInt32 = d.tables t.tableId.toUInt32) :
    Live n e { d with tables := files } v := by
  obtain ⟨rs, hlog, hshown, hmem⟩ := h.log
  obtain ⟨hs, hset⟩ := hshown.congr_files heq
  refine ⟨h.opened, h.manifest, h.persisted.congr rfl rfl, rs, ⟨hlog.wal, hlog.walId, hlog.log, hlog.seq_lt,
    hlog.next_le⟩, hs, ?_⟩
  rw [hset]
  exact hmem

theorem Live.ready (h : Live n e d v) : Ready n e d := by
  obtain ⟨rs, -, hshown, -⟩ := h.log
  exact ⟨h.opened, h.manifest, h.persisted, rs, v, hshown⟩

theorem Live.freeze (h : Live n e d v) : Live n { e with mem := e.mem.freezeMutable } d v := by
  obtain ⟨rs, hlog, hshown, hmem⟩ := h.log
  exact ⟨⟨h.opened.opened, h.opened.closed, h.opened.options, h.opened.limit, h.opened.levelCount⟩, h.manifest,
    h.persisted, rs, ⟨hlog.wal, hlog.walId, hlog.log, hlog.seq_lt, hlog.next_le⟩, hshown, hmem.freeze⟩

theorem Live.shrinks (h : Live n e d v) (hs : Shrinks n e d e' d') : Live n e' d' v := by
  obtain ⟨rs, hlog, hshown, hmem⟩ := h.log
  have hr := hs.ready h.ready
  have hwal : e'.wal = e.wal := by rw [hs.engine]
  have hcur : e'.currentWalId = e.currentWalId := by rw [hs.engine]
  have hnext : e'.nextSequence = e.nextSequence := by rw [hs.engine]
  have hmem' : e'.mem = e.mem := by rw [hs.engine]
  refine ⟨hr.opened, hr.manifest, hr.persisted, rs, ⟨?_, ?_, ?_, ?_, ?_⟩, hs.shown rs v hshown, ?_⟩
  · rw [hwal, hcur]
    exact hlog.wal
  · rw [hs.walId, hcur]
    exact hlog.walId
  · rw [hs.wals, hcur]
    exact hlog.log
  · rw [hnext]
    exact hlog.seq_lt
  · rw [hs.nextSequence, hnext]
    exact hlog.next_le
  · rw [hmem']
    exact hs.mem _ rs v hmem

theorem Stopped.shrinks (h : Stopped n e d v) (hs : Shrinks n e d e' d') (hr : Ready n e d) : Stopped n e' d' v := by
  obtain ⟨rs, hsel, hshown⟩ := h.log
  have hr' := hs.ready hr
  have hwal : e'.wal = e.wal := by rw [hs.engine]
  have hmem : e'.mem = e.mem := by rw [hs.engine]
  refine ⟨hr'.opened, hr'.manifest, hr'.persisted, ?_, ?_, ?_, rs, ⟨?_, ?_, hsel.seq_lt⟩, hs.shown rs v hshown⟩
  · rw [hwal]
    exact h.wal
  · rw [hmem]
    exact h.mutableTable
  · rw [hmem]
    exact h.immutableTables
  · rw [hs.walId]
    exact hsel.walId
  · rw [hs.walId, hs.wals]
    exact hsel.log

/-! ## The table -/

/-- The disk with the table file of a generation. -/
def Disk.setTable (d : Disk EditLog) (id : UInt32) (records : List InternalRecord) : Disk EditLog :=
  { d with tables := Function.update d.tables id (some records) }

/-- The metadata of a flushed generation. -/
structure Describes (t : TableMeta) (id : UInt32) (records : List InternalRecord) : Prop where
  id : t.tableId = id.toUInt64
  level : t.level = 0
  bounds : ∃ s, summarize records = some s ∧ t.smallestKey = s.minKey ∧ t.largestKey = s.maxKey

omit [Zlib] in
theorem buildTable_some [TableFormat] {records built : List InternalRecord}
    (h : buildTable records = .ok (some built)) : built = records := by
  unfold buildTable at h
  split at h
  · cases h
  · split at h
    · cases h
    · obtain ⟨_, -, h⟩ := except_bind_ok h
      cases h
      rfl

section

variable [EngineEnv] {P : Permits}

omit [Zlib] in
theorem writeOldest_triple (hP : TableFaults P) (id : UInt32) (records : List InternalRecord) (e : Engine LogObject)
    (d : Disk EditLog) :
    Triple P (Engine.writeOldest id records) e d
      (fun t e' d' => e' = e ∧ d' = d.setTable id records ∧ Describes t id records)
      (fun e' d' => e' = e ∧ (d' = d ∨ d' = d.setTable id records))
      (fun _ d' => d' = d ∨ d' = d.setTable id records) := by
  refine triple_lift (fun _ _ => ⟨rfl, .inl rfl⟩) fun built hbuilt => ?_
  split
  · exact triple_fail ⟨rfl, .inl rfl⟩
  next summary hsum =>
  have hrec : summarize records = some summary := by
    cases built with
    | none => cases hsum
    | some b =>
      rw [buildTable_some hbuilt] at hsum
      exact hsum
  refine Triple.bind (Q := fun _ e' d' => e' = e ∧ d' = d.setTable id records) ?_ ?_
  · refine triple_onTables hP.flushTable fun faults => ?_
    refine ends_lift_bind (fun _ _ => ⟨rfl, .inl rfl⟩) fun layout _ => ?_
    have hor : ∀ s : TableStore, s.files = d.tables ∨ s.files = Function.update d.tables id (some records) →
        { d with tables := s.files } = d ∨ { d with tables := s.files } = d.setTable id records := by
      rintro s (hs | hs)
      · exact .inl (by rw [hs])
      · exact .inr (by rw [hs]; rfl)
    refine Ends.bind (R := fun _ s => s.files = Function.update d.tables id (some records)) ?_ ?_
    · exact (setFile_ends id (some records) ⟨d.tables, faults⟩).mono (fun _ _ h => h)
        (fun s h => ⟨rfl, hor s h⟩) hor
    · intro _ s hs
      refine ends_pure ⟨rfl, ?_⟩
      rw [hs]
      rfl
  rintro layout e₁ d₁ ⟨rfl, rfl⟩
  refine triple_return (fun _ _ => ⟨rfl, .inr rfl⟩) fun t ht => ?_
  obtain ⟨hid, hlevel, hmin, hmax⟩ := makeTableMeta_ok ht
  exact ⟨rfl, rfl, hid, hlevel, summary, hrec, hmin, hmax⟩

/-! ## The commit -/

omit [EngineEnv] in
/-- The file of the next table is no installed one. -/
theorem Live.setTable (h : Live n e d v) (hid : e.counters.nextTableId.toNat ≤ 2 ^ 32 - 1)
    (records : List InternalRecord) : Live n e (d.setTable e.counters.nextTableId.toUInt32 records) v := by
  obtain ⟨rs, -, hshown, -⟩ := h.log
  exact h.files fun level t ht => Function.update_of_ne (hshown.catalog.next_file hid ht) _ _

omit [Zlib] [EngineEnv] in
theorem toUInt32_toUInt64_of_lt {x : UInt64} (h : x.toNat ≤ 2 ^ 32 - 1) : x.toUInt32.toUInt64 = x := by
  apply UInt64.toNat_inj.mp
  rw [UInt32.toNat_toUInt64, UInt64.toNat_toUInt32]
  exact Nat.mod_eq_of_lt (by omega)

/-- What a flush's edit does to the tables, staged on the version of a live engine. -/
structure FlushStaged (e : Engine LogObject) (d : Disk EditLog) (rs : List InternalRecord) (v : View)
    (oldest : ImmutableTable) (edit : VersionEdit) (lm : LevelManager) (c : StagedCounters) : Prop where
  shown : Shown lm c d.tables rs v
  recs : tableRecs lm d.tables = tableRecs e.levels d.tables ∪ Kvdb.recs oldest.table
  next : c.nextSequenceNumber = e.nextSequence
  walId : c.currentWalId = edit.currentWalId.getD e.counters.currentWalId
  levelCount : lm.levelCount = e.levels.levelCount

omit [EngineEnv] in
theorem flushStaged {oldest : ImmutableTable} {rest : List ImmutableTable}
    (hi : e.mem.immutableTables = oldest :: rest) (hid : e.counters.nextTableId.toNat ≤ 2 ^ 32 - 1)
    {t : TableMeta} (ht : Describes t e.counters.nextTableId.toUInt32 oldest.table) {edit : VersionEdit}
    (hadd : edit.newTables = [t]) (hdel : edit.deletedTables = [])
    (hseq : edit.nextSequenceNumber = some e.nextSequence) {lm : LevelManager} {c : StagedCounters}
    (hst : stageApply e.levels e.counters edit = .ok (lm, c)) {rs : List InternalRecord}
    (hlog : Logging e d e.counters rs) (hshown : Shown e.levels e.counters d.tables rs v)
    (hmem : MemOk e.mem (tableRecs e.levels d.tables) rs v) :
    let d₁ := d.setTable e.counters.nextTableId.toUInt32 oldest.table
    FlushStaged e d₁ rs v oldest edit lm c := by
  intro d₁
  have hs := stageApply_ok_iff.mp hst
  have hnext : c.nextSequenceNumber = e.nextSequence := by
    rw [(stageCounter_ok hs.nextSequenceNumber).1, hseq]
    rfl
  have hold : oldest ∈ e.mem.immutableTables := by rw [hi]; exact List.mem_cons_self
  obtain ⟨hsh, hset⟩ := hshown.flush (hmem.oldest_ordered hold) (hmem.oldest_logged hold) (hmem.oldest_newer hi)
    (ht.id.trans (toUInt32_toUInt64_of_lt hid)) (by omega) ht.level ht.bounds hadd hdel hst
    (by rw [hnext]; exact hlog.seq_lt) rfl
  have hsame : tableRecs e.levels d₁.tables = tableRecs e.levels d.tables :=
    (hshown.congr_files fun level u hu => Function.update_of_ne (hshown.catalog.next_file hid hu) _ _).2
  refine ⟨hsh, ?_, hnext, (stageCounter_ok hs.currentWalId).1, stageApply_levelCount hst⟩
  rw [hsame]
  exact hset

/-- What is left to do with a generation whose table is written, and how it ends. -/
def FlushEnds (P : Permits) (n : Nat) (v : View) (m : EngineM EditLog LogObject Unit) (mem : MemTable)
    (e : Engine LogObject) (d : Disk EditLog) : Prop :=
  Triple P m e d (fun _ e' d' => Live n e' d' v ∧ e'.mem = mem) (fun e' d' => NoLoss P → Failed n e' d' v)
    (fun _ d' => NoLoss P → DiskOk n d' v)

/-- A generation whose table is written. -/
structure Written (n : Nat) (e : Engine LogObject) (d : Disk EditLog) (v : View) (oldest : ImmutableTable)
    (rest : List ImmutableTable) (t : TableMeta) : Prop where
  live : Live n e d v
  queue : e.mem.immutableTables = oldest :: rest
  id_le : e.counters.nextTableId.toNat ≤ 2 ^ 32 - 1
  table : Describes t e.counters.nextTableId.toUInt32 oldest.table
  file : d.tables e.counters.nextTableId.toUInt32 = some oldest.table

variable {oldest : ImmutableTable} {rest : List ImmutableTable} {t : TableMeta}

omit [EngineEnv] in
theorem Written.staged (h : Written n e d v oldest rest t) {edit : VersionEdit}
    (hadd : edit.newTables = [t]) (hdel : edit.deletedTables = [])
    (hseq : edit.nextSequenceNumber = some e.nextSequence) {lm : LevelManager} {c : StagedCounters}
    (hst : stageApply e.levels e.counters edit = .ok (lm, c)) :
    ∃ rs, Logging e d e.counters rs ∧ MemOk e.mem (tableRecs e.levels d.tables) rs v ∧
      FlushStaged e d rs v oldest edit lm c := by
  obtain ⟨rs, hlog, hshown, hmem⟩ := h.live.log
  have hself : d.setTable e.counters.nextTableId.toUInt32 oldest.table = d := by
    unfold Disk.setTable
    rw [← h.file, Function.update_eq_self]
  have hf := flushStaged h.queue h.id_le h.table hadd hdel hseq hst hlog hshown hmem
  rw [hself] at hf
  exact ⟨rs, hlog, hmem, hf⟩

omit [Zlib] [EngineEnv] in
theorem retireOldest_apply {m : MemTable} (hi : m.immutableTables = oldest :: rest) :
    m.retireOldestImmutable oldest.generationId = some { m with immutableTables := rest } := by
  unfold MemTable.retireOldestImmutable
  rw [hi]
  simp

omit [EngineEnv] in
/-- A failed commit that did not select a new log. -/
theorem Written.poisoned (h : Written n e d v oldest rest t) {edit : VersionEdit}
    (hadd : edit.newTables = [t]) (hdel : edit.deletedTables = [])
    (hseq : edit.nextSequenceNumber = some e.nextSequence) {lm : LevelManager} {c : StagedCounters}
    (hst : stageApply e.levels e.counters edit = .ok (lm, c)) {k : Nat}
    (hwal : k ≠ 0 → edit.currentWalId = none) :
    Poisoned n { e with manifest := some ⟨true⟩ } (if k = 0 then d else d.logged edit) v := by
  obtain ⟨rs, hlog, hmem, hf⟩ := h.staged hadd hdel hseq hst
  have ho := h.live.opened
  have hfresh : ∀ r ∈ e.mem.mutableTable, r.seqNum.toNat < e.nextSequence.toNat := by
    intro r hr
    refine hlog.seq_lt r (hmem.logged (MemTable.mem_records.mpr ⟨e.mem.mutableTable, ?_, hr⟩))
    exact List.mem_append.mpr (.inr List.mem_cons_self)
  refine ⟨⟨ho.opened, ho.closed, ho.options, ho.limit, ho.levelCount⟩, rfl, hfresh,
    ⟨oldest, rest, h.queue, ?_⟩, ?_⟩
  · split
    · exact h.file
    · exact h.file
  · split
    · obtain ⟨rs', hlog', hshown', -⟩ := h.live.log
      exact ⟨_, _, rs', h.live.persisted, ⟨hlog'.wal, hlog'.walId, hlog'.log, hlog'.seq_lt, hlog'.next_le⟩,
        hshown'⟩
    · next hk =>
      refine ⟨lm, c, rs, h.live.persisted.commit hst, ⟨hlog.wal, ?_, hlog.log, hlog.seq_lt, ?_⟩, hf.shown⟩
      · rw [hf.walId, hwal hk]
        exact hlog.walId
      · rw [hf.next]

omit [EngineEnv] in
theorem flushKeeping_ends (h : Written n e d v oldest rest t) :
    FlushEnds P n v (Engine.flushKeeping oldest (Engine.flushEdit t e.counters.nextTableId e.nextSequence))
      { e.mem with immutableTables := rest } e d := by
  set edit := Engine.flushEdit t e.counters.nextTableId e.nextSequence
  have hadd : edit.newTables = [t] := rfl
  have hdel : edit.deletedTables = [] := rfl
  have hseq : edit.nextSequenceNumber = some e.nextSequence := rfl
  refine Triple.bind (Q := fun _ e' d' => ∃ lm c, stageApply e.levels e.counters edit = .ok (lm, c) ∧
    e' = { e with levels := lm, counters := c } ∧ d' = d.logged edit) ?_ ?_
  · refine triple_commit h.live.manifest (fun hp => by cases hp) (fun _ _ _ => .inl h.live) ?_ ?_ ?_
    · intro _ lm c hst
      exact ⟨lm, c, hst, rfl, rfl⟩
    · intro _ lm c hst k s _ _
      exact .inr (.inl (h.poisoned rfl rfl rfl hst fun _ => rfl))
    · intro _ lm c hst
      obtain ⟨rs, hlog, -, hf⟩ := h.staged hadd hdel hseq hst
      refine ⟨fun _ => h.live.diskOk, fun _ => ⟨lm, c, rs, h.live.persisted.commit hst, ?_, hf.shown⟩⟩
      have hsel := hlog.selects
      have hwal : c.currentWalId = e.counters.currentWalId := hf.walId
      exact ⟨by rw [hwal]; exact hsel.walId, by rw [hwal]; exact hsel.log, hsel.seq_lt⟩
  rintro _ e₁ d₁ ⟨lm, c, hst, rfl, rfl⟩
  obtain ⟨rs, hlog, hmem, hf⟩ := h.staged hadd hdel hseq hst
  refine triple_get fun f => ?_
  rw [show ({ engine := { e with levels := lm, counters := c }, disk := d.logged edit, faults := f } :
    World EditLog LogObject).engine.mem = e.mem from rfl, retireOldest_apply h.queue]
  refine triple_set ⟨?_, rfl⟩
  have ho := h.live.opened
  refine ⟨⟨ho.opened, ho.closed, ho.options, ho.limit, hf.levelCount.trans ho.levelCount⟩, h.live.manifest,
    h.live.persisted.commit hst, rs, ⟨hlog.wal, ?_, hlog.log, hlog.seq_lt, ?_⟩, hf.shown, ?_⟩
  · exact hf.walId.trans hlog.walId
  · show c.nextSequenceNumber.toNat ≤ _
    rw [hf.next]
  · show MemOk _ (tableRecs lm d.tables) rs v
    rw [hf.recs]
    exact hmem.retire h.queue

/-! ## The last generation -/

/-- The version after the last generation went to the tables, with an empty log. -/
structure Switched (n : Nat) (d : Disk EditLog) (v : View) (id : UInt32) (e : Engine LogObject) (lm : LevelManager)
    (c : StagedCounters) : Prop where
  persisted : Persisted n d lm c
  walId : c.currentWalId = id.toUInt64
  log : ∃ b, d.wals id = some b ∧ Writable b id []
  next : c.nextSequenceNumber = e.nextSequence
  shown : Shown lm c d.tables [] v
  levelCount : lm.levelCount = e.levels.levelCount

omit [EngineEnv] in
theorem Written.switched (h : Written n e d v oldest [] t) (hmut : e.mem.mutableTable = []) {id : UInt32}
    {b : List UInt8} (hb : d.wals id = some b) (hw : Writable b id []) {edit : VersionEdit}
    (hadd : edit.newTables = [t]) (hdel : edit.deletedTables = [])
    (hseq : edit.nextSequenceNumber = some e.nextSequence) (hid : edit.currentWalId = some id.toUInt64)
    {lm : LevelManager} {c : StagedCounters} (hst : stageApply e.levels e.counters edit = .ok (lm, c)) :
    Switched n (d.logged edit) v id e lm c := by
  obtain ⟨rs, hlog, hmem, hf⟩ := h.staged hadd hdel hseq hst
  have hshows : Shows (tableRecs lm d.tables) v := by
    rw [hf.recs]
    exact (hmem.retire h.queue).tables_show hmut rfl
  refine ⟨h.live.persisted.commit hst, ?_, ⟨b, hb, hw⟩, hf.next, hf.shown.truncate hshows, hf.levelCount⟩
  rw [hf.walId, hid]
  rfl

omit [EngineEnv] in
theorem Switched.selects {id : UInt32} {lm : LevelManager} {c : StagedCounters} (h : Switched n d v id e lm c) :
    Selects d c [] := by
  obtain ⟨b, hb, hw⟩ := h.log
  refine ⟨?_, ⟨b, ?_, ?_⟩, fun r hr => by cases hr⟩
  · rw [h.walId, UInt32.toNat_toUInt64]
    exact UInt32.toNat_lt _
  · rw [h.walId, UInt32.toUInt32_toUInt64]
    exact hb
  · rw [h.walId, UInt32.toUInt32_toUInt64]
    exact hw.readable

omit [Zlib] [EngineEnv] in
theorem succ_ne_self (id : UInt32) : id + 1 ≠ id := by
  intro h
  simp at h

omit [EngineEnv] in
/-- Every end of the commit that selects the new log, and of what undoes it. -/
theorem commitSwitch_triple (h : Written n e d v oldest [] t) (hmut : e.mem.mutableTable = []) {b : List UInt8}
    (hb : d.wals (e.currentWalId + 1) = some b) (hw : Writable b (e.currentWalId + 1) []) {edit : VersionEdit}
    (hadd : edit.newTables = [t]) (hdel : edit.deletedTables = [])
    (hseq : edit.nextSequenceNumber = some e.nextSequence)
    (hid : edit.currentWalId = some (e.currentWalId + 1).toUInt64) :
    Triple P (orElse (commitManifest .flushSwitch edit) (Engine.undoReplacement (e.currentWalId + 1))) e d
      (fun _ e' d' => ∃ lm c, Switched n d' v (e.currentWalId + 1) e lm c ∧
        e' = { e with levels := lm, counters := c })
      (fun e' d' => NoLoss P → Failed n e' d' v) (fun _ d' => NoLoss P → DiskOk n d' v) := by
  refine Triple.orElse (F := fun e' d' => e'.currentWalId = e.currentWalId ∧
    (NoLoss P → Live n e' d' v ∨ Poisoned n e' d' v)) ?_ ?_
  · refine triple_commit h.live.manifest (fun hp => by cases hp) (fun _ _ => ⟨rfl, fun _ => .inl h.live⟩) ?_ ?_ ?_
    · intro _ lm c hst
      exact ⟨lm, c, h.switched hmut hb hw hadd hdel hseq hid hst, rfl⟩
    · intro _ lm c hst k s hp
      refine ⟨rfl, fun hno => .inr (h.poisoned hadd hdel hseq hst fun hk => ?_)⟩
      exact absurd (hno.flushSwitch k s hp) hk
    · intro _ lm c hst
      have hs := h.switched hmut hb hw hadd hdel hseq hid hst
      exact ⟨fun _ => h.live.diskOk, fun _ => ⟨lm, c, [], hs.persisted, hs.selects, hs.shown⟩⟩
  · rintro s e₁ d₁ ⟨hcur, hend⟩
    have hne : e.currentWalId + 1 ≠ e₁.currentWalId := by
      rw [hcur]
      exact succ_ne_self _
    have hset : ∀ b', NoLoss P → Live n e₁ (d₁.setWal (e.currentWalId + 1) b') v ∨
        Poisoned n e₁ (d₁.setWal (e.currentWalId + 1) b') v := by
      intro b' hno
      rcases hend hno with hl | hp
      · exact .inl (hl.setWal hne b')
      · exact .inr (hp.setWal hne b')
    have hfailed : ∀ d', (Live n e₁ d' v ∨ Poisoned n e₁ d' v) → Failed n e₁ d' v := by
      rintro d' (hl | hp)
      · exact .inl hl
      · exact .inr (.inl hp)
    refine Triple.bind (Q := fun _ e' d' => e' = e₁ ∧ d' = d₁) ?_ ?_
    · refine Triple.ignore (triple_touch ⟨rfl, rfl⟩ (fun _ _ _ => ⟨rfl, rfl⟩) fun hno => ?_)
      exact (hfailed _ (hend hno)).diskOk
    rintro _ e₂ d₂ ⟨rfl, rfl⟩
    refine Triple.bind (Q := fun _ e' d' => e' = e₂ ∧ ∃ b', d' = d₂.setWal (e.currentWalId + 1) b') ?_ ?_
    · refine Triple.ignore (triple_removeWal ⟨rfl, _, rfl⟩ (fun _ b' => ⟨rfl, b', rfl⟩) fun b' hno => ?_)
      exact (hfailed _ (hset b' hno)).diskOk
    rintro _ e₃ d₃ ⟨rfl, b', rfl⟩
    exact triple_fail fun hno => hfailed _ (hset b' hno)

omit [EngineEnv] in
theorem switchWal_triple {id old : UInt32} (hne : old ≠ id) {lm : LevelManager} {c : StagedCounters}
    (hs : Switched n d v id e lm c) (ho : Opened n e) (hm : e.manifest = some ⟨false⟩)
      (hwal : e.wal = some ⟨old, true⟩)
    {mem : MemTable} (hmut : mem.mutableTable = []) (hi : mem.immutableTables = []) :
    FlushEnds P n v (Engine.switchWal ⟨id, true⟩ old) mem { e with levels := lm, counters := c, mem := mem } d := by
  have hdisk : DiskOk n d v := ⟨lm, c, [], hs.persisted, hs.selects, hs.shown⟩
  have hlevels := hs.levelCount.trans ho.levelCount
  have hstopped : Stopped n { e with levels := lm, counters := c, mem := mem, wal := some ⟨old, false⟩ } d v :=
    ⟨⟨ho.opened, ho.closed, ho.options, ho.limit, hlevels⟩, hm, hs.persisted, ⟨old, rfl⟩, hmut, hi, [],
      hs.selects,
      hs.shown⟩
  have hlive : Live n { e with levels := lm, counters := c, mem := mem, wal := some ⟨id, true⟩, currentWalId := id }
      d v := by
    refine ⟨⟨ho.opened, ho.closed, ho.options, ho.limit, hlevels⟩, hm, hs.persisted, [],
      ⟨rfl, hs.walId, hs.log, (fun r hr => by cases hr), ?_⟩, hs.shown, hs.shown.memOk hi ?_ ?_⟩
    · rw [hs.next]
    · show Ordered mem.mutableTable
      rw [hmut]
      exact List.Pairwise.nil
    · show mem.mutableTable.Perm []
      rw [hmut]
  refine Triple.bind (Q := fun _ e' d' => d' = d ∧
    e' = { e with levels := lm, counters := c, mem := mem, wal := some ⟨old, false⟩ }) ?_ ?_
  · refine triple_get fun f => ?_
    simp only [hwal, if_true]
    refine triple_modify (triple_touch ⟨rfl, ?_⟩ (fun _ _ _ _ => .inr (.inr ?_)) fun _ => hdisk)
    · rfl
    · exact hstopped
  rintro _ e₁ d₁ ⟨rfl, rfl⟩
  refine triple_modify (triple_removeWal ⟨?_, rfl⟩ (fun _ b _ => .inl ?_) fun b _ => ?_)
  · exact hlive.setWal hne none
  · exact hlive.setWal hne b
  · exact (hlive.setWal hne b).diskOk

omit [EngineEnv] in
theorem flushSwitching_ends (h : Written n e d v oldest [] t) (hmut : e.mem.mutableTable = []) :
    FlushEnds P n v (Engine.flushSwitching oldest (Engine.flushEdit t e.counters.nextTableId e.nextSequence))
      { e.mem with immutableTables := [] } e d := by
  refine triple_get fun f => triple_ensure (fun _ _ => .inl h.live) fun _ => ?_
  have hne : e.currentWalId + 1 ≠ e.currentWalId := succ_ne_self _
  have hset : ∀ b, Live n e (d.setWal (e.currentWalId + 1) b) v := h.live.setWal hne
  refine (triple_removeWal (Q := fun _ e' d' => e' = e ∧ d' = d.setWal (e.currentWalId + 1) none) ⟨rfl, rfl⟩
    (fun _ b _ => .inl (hset b)) fun b _ => (hset b).diskOk).bind ?_
  rintro _ e₁ d₁ ⟨rfl, rfl⟩
  refine Triple.bind (Q := fun r e' d' => r = ⟨e₁.currentWalId + 1, true⟩ ∧ e' = e₁ ∧
    ∃ b, Writable b (e₁.currentWalId + 1) [] ∧ d' = d.setWal (e₁.currentWalId + 1) (some b)) ?_ ?_
  · refine triple_createWal (fun b hw => ⟨rfl, rfl, b, hw, by simp⟩) (fun _ b _ => ?_) fun b _ => ?_
    · rw [Disk.setWal_setWal]
      exact .inl (hset b)
    · rw [Disk.setWal_setWal]
      exact (hset b).diskOk
  rintro replacement e₂ d₂ ⟨rfl, rfl, b, hw, rfl⟩
  have hwritten : Written n e₂ (d.setWal (e₂.currentWalId + 1) (some b)) v oldest [] t :=
    ⟨hset _, h.queue, h.id_le, h.table, h.file⟩
  refine (commitSwitch_triple hwritten hmut (Disk.setWal_wals _ _ _) hw rfl rfl rfl rfl).bind ?_
  rintro _ e₃ d₃ ⟨lm, c, hs, rfl⟩
  refine Triple.bind (Q := fun _ e' d' => d' = d₃ ∧
    e' = { e₂ with levels := lm, counters := c, mem := { e₂.mem with immutableTables := [] } }) ?_ ?_
  · refine triple_get fun f => ?_
    rw [show ({ engine := { e₂ with levels := lm, counters := c }, disk := d₃, faults := f } :
      World EditLog LogObject).engine.mem = e₂.mem from rfl, retireOldest_apply h.queue]
    exact triple_set ⟨rfl, rfl⟩
  rintro _ e₄ d₄ ⟨rfl, rfl⟩
  obtain ⟨rs, hlog, -, -⟩ := h.live.log
  exact switchWal_triple hne.symm hs h.live.opened h.live.manifest hlog.wal hmut rfl

/-! ## Flushes -/

theorem flushGeneration_ends (hP : TableFaults P) (h : Live n e d v) (hi : e.mem.immutableTables = oldest :: rest)
    (hmut : e.mem.mutableTable = []) :
    FlushEnds P n v (Engine.flushGeneration oldest) { e.mem with immutableTables := rest } e d := by
  refine triple_get fun f => triple_ensure (fun _ _ => .inl h) fun hid => ?_
  have hid' : e.counters.nextTableId.toNat ≤ 2 ^ 32 - 1 := by
    rw [Bool.and_eq_true, decide_eq_true_iff] at hid
    exact hid.2
  have hset := h.setTable hid' oldest.table
  refine Triple.bind ((writeOldest_triple hP e.counters.nextTableId.toUInt32 oldest.table e d).mono
    (fun _ _ _ hq => hq) ?_ ?_) ?_
  · rintro e₁ d₁ ⟨rfl, rfl | rfl⟩ _
    · exact .inl h
    · exact .inl hset
  · rintro e₁ d₁ (rfl | rfl) _
    · exact h.diskOk
    · exact hset.diskOk
  rintro t e₁ d₁ ⟨rfl, rfl, ht⟩
  have hw : Written n e₁ (d.setTable e₁.counters.nextTableId.toUInt32 oldest.table) v oldest rest t :=
    ⟨hset, hi, hid', ht, Function.update_self _ _ _⟩
  split
  · next hone =>
    have hrest : rest = [] := by
      have hlen : (oldest :: rest).length = 1 := by
        rw [← hi]
        exact hone
      simpa using hlen
    subst hrest
    exact flushSwitching_ends hw hmut
  · exact flushKeeping_ends hw

/-- Every end of a program is covered; with a result the state is in `S`. -/
def Retains (P : Permits) (n : Nat) (v : View) (m : EngineM EditLog LogObject Unit)
    (S : Engine LogObject → Disk EditLog → Prop) (e : Engine LogObject) (d : Disk EditLog) : Prop :=
  Triple P m e d (fun _ => S) (fun e' d' => NoLoss P → Failed n e' d' v) (fun _ d' => NoLoss P → DiskOk n d' v)

theorem flushLoop_keeps (hP : TableFaults P) (rounds : Nat) (h : Live n e d v) (hmut : e.mem.mutableTable = []) :
    Retains P n v (Engine.flushLoop rounds) (fun e' d' => Live n e' d' v) e d := by
  induction rounds generalizing e d with
  | zero => exact triple_pure h
  | succ rounds ih =>
    refine triple_get fun f => ?_
    split
    · refine Triple.bind (Q := fun _ e' d' => Live n e' d' v ∧ e'.mem.mutableTable = []) ?_ ?_
      · refine triple_get fun f => ?_
        dsimp only
        split
        · exact triple_pure ⟨h, hmut⟩
        · next oldest rest hi =>
          refine (flushGeneration_ends hP h hi hmut).mono ?_ (fun _ _ he => he) fun _ _ hc => hc
          rintro _ e₁ d₁ ⟨hl, hmem⟩
          refine ⟨hl, ?_⟩
          rw [hmem]
          exact hmut
      · rintro _ e₁ d₁ ⟨hl, hm⟩
        exact ih hl hm
    · exact triple_pure h

omit [Zlib] [EngineEnv] in
theorem triple_ensureOpen {α : Type} {k : Unit → EngineM EditLog LogObject α}
    {Q : α → Engine LogObject → Disk EditLog → Prop} {E C : Engine LogObject → Disk EditLog → Prop}
      (ho : e.opened = true)
    (hc : e.closed = false) (hk : Triple P (k ()) e d Q E C) : Triple P (Engine.ensureOpen >>= k) e d Q E C := by
  refine Triple.bind (Q := fun _ e' d' => e' = e ∧ d' = d) ?_ ?_
  · refine triple_get fun f => triple_ensure ?_ fun _ => triple_check ?_ fun _ => ⟨rfl, rfl⟩
    · rw [hc]
      simp
    · rw [ho]
      simp
  · rintro _ e₁ d₁ ⟨rfl, rfl⟩
    exact hk

omit [Zlib] [EngineEnv] in
theorem MemTable.mutableTable_freeze (m : MemTable) : m.freezeMutable.mutableTable = [] := by
  unfold MemTable.freezeMutable
  split
  · next h => exact h
  · rfl

theorem maybeCompact_live (hP : TableFaults P) (h : Live n e d v) :
    Retains P n v Engine.maybeCompactUnlocked (fun e' d' => Live n e' d' v) e d := by
  refine (maybeCompact_compacts hP h.ready).mono (fun _ _ _ hs => h.shrinks hs)
    (fun _ _ he hno => .inl (h.shrinks (he hno.compactCommit))) ?_
  rintro _ d₁ ⟨e₁, hs⟩ _
  exact (h.shrinks hs).diskOk

theorem flushUnlocked_live (hP : TableFaults P) (h : Live n e d v) :
    Retains P n v Engine.flushUnlocked (fun e' d' => Live n e' d' v) e d := by
  refine triple_ensureOpen h.opened.opened h.opened.closed (triple_modify (triple_get fun f => ?_))
  refine (flushLoop_keeps hP _ h.freeze e.mem.mutableTable_freeze).bind fun _ e₁ d₁ h₁ => ?_
  exact maybeCompact_live hP h₁

omit [EngineEnv] in
theorem Stopped.ready (h : Stopped n e d v) : Ready n e d := by
  obtain ⟨rs, -, hshown⟩ := h.log
  exact ⟨h.opened, h.manifest, h.persisted, rs, v, hshown⟩

/-- There is nothing to flush any more. -/
theorem flushUnlocked_stopped (hP : TableFaults P) (h : Stopped n e d v) :
    Retains P n v Engine.flushUnlocked (fun e' d' => Stopped n e' d' v) e d := by
  refine triple_ensureOpen h.opened.opened h.opened.closed (triple_modify (triple_get fun f => ?_))
  have hmem : e.mem.freezeMutable = e.mem := if_pos h.mutableTable
  rw [hmem, show ({ e with mem := e.mem } : Engine LogObject) = e from rfl]
  have hzero : e.mem.immutableCount = 0 := by
    unfold MemTable.immutableCount
    rw [h.immutableTables]
    rfl
  dsimp only
  rw [hzero]
  refine Triple.bind (Q := fun _ e' d' => e' = e ∧ d' = d) (triple_pure ⟨rfl, rfl⟩) ?_
  rintro _ e₁ d₁ ⟨rfl, rfl⟩
  refine (maybeCompact_compacts hP h.ready).mono (fun _ _ _ hs => h.shrinks hs h.ready)
    (fun _ _ he hno => .inr (.inr (h.shrinks (he hno.compactCommit) h.ready))) ?_
  rintro _ d₂ ⟨e₂, hs⟩ _
  exact (h.shrinks hs h.ready).diskOk

/-! ## With an uncertain manifest -/

omit [EngineEnv] in
theorem commit_refused {site : Site} {edit : VersionEdit} (hm : e.manifest = some ⟨true⟩)
    {Q : Unit → Engine LogObject → Disk EditLog → Prop} {E C : Engine LogObject → Disk EditLog → Prop}
      (h : E e d) :
    Triple P (commitManifest site edit) e d Q E C :=
  triple_commit hm (fun _ => h) (fun hp => by cases hp) (fun hp => by cases hp) (fun hp => by cases hp)
    fun hp => by cases hp

omit [EngineEnv] in
theorem Poisoned.freeze (h : Poisoned n e d v) : Poisoned n { e with mem := e.mem.freezeMutable } d v := by
  obtain ⟨lm, c, rs, hp, hlog, hshown⟩ := h.log
  obtain ⟨oldest, rest, hi, hfile⟩ := h.pending
  refine ⟨⟨h.opened.opened, h.opened.closed, h.opened.options, h.opened.limit, h.opened.levelCount⟩,
    h.manifest, ?_, ?_,
    lm, c, rs, hp, ⟨hlog.wal, hlog.walId, hlog.log, hlog.seq_lt, hlog.next_le⟩, hshown⟩
  · intro r hr
    rw [e.mem.mutableTable_freeze] at hr
    cases hr
  · by_cases h0 : e.mem.mutableTable = []
    · have heq : e.mem.freezeMutable = e.mem := if_pos h0
      exact ⟨oldest, rest, by rw [heq]; exact hi, hfile⟩
    · refine ⟨oldest, rest ++ [⟨e.mem.nextGenerationId, e.mem.mutableTable⟩], ?_, hfile⟩
      simp [MemTable.freezeMutable, h0, hi]

omit [EngineEnv] in
theorem flushSwitching_poisoned (h : Poisoned n e d v) (oldest : ImmutableTable) (edit : VersionEdit) :
    Retains P n v (Engine.flushSwitching oldest edit) (fun _ _ => False) e d := by
  refine triple_get fun f => triple_ensure (fun _ _ => .inr (.inl h)) fun _ => ?_
  have hset : ∀ b, Poisoned n e (d.setWal (e.currentWalId + 1) b) v := h.setWal (succ_ne_self _)
  refine (triple_removeWal (Q := fun _ e' d' => e' = e ∧ ∃ b, d' = d.setWal (e.currentWalId + 1) b)
    ⟨rfl, _, rfl⟩
    (fun _ b _ => .inr (.inl (hset b))) fun b _ => (hset b).diskOk).bind ?_
  rintro _ e₁ d₁ ⟨rfl, b₁, rfl⟩
  refine Triple.bind (Q := fun r e' d' => e' = e₁ ∧ ∃ b, d' = d.setWal (e₁.currentWalId + 1) b) ?_ ?_
  · refine triple_createWal (fun b _ => ⟨rfl, some b, by simp⟩) (fun _ b _ => ?_) fun b _ => ?_
    · rw [Disk.setWal_setWal]
      exact .inr (.inl (hset b))
    · rw [Disk.setWal_setWal]
      exact (hset b).diskOk
  rintro replacement e₂ d₂ ⟨rfl, b₂, rfl⟩
  refine Triple.bind (Q := fun _ _ _ => False) ?_ fun _ _ _ h => h.elim
  refine Triple.orElse (F := fun e' d' => e' = e₂ ∧ d' = d.setWal (e₂.currentWalId + 1) b₂)
    (commit_refused h.manifest ⟨rfl, rfl⟩) ?_
  rintro s e₃ d₃ ⟨rfl, rfl⟩
  refine Triple.bind (Q := fun _ e' d' => e' = e₃ ∧ d' = d.setWal (e₃.currentWalId + 1) b₂) ?_ ?_
  · exact Triple.ignore (triple_touch ⟨rfl, rfl⟩ (fun _ _ _ => ⟨rfl, rfl⟩) fun _ => (hset b₂).diskOk)
  rintro _ e₄ d₄ ⟨rfl, rfl⟩
  refine Triple.bind (Q := fun _ e' d' => e' = e₄ ∧ ∃ b, d' = d.setWal (e₄.currentWalId + 1) b) ?_ ?_
  · refine Triple.ignore (triple_removeWal ⟨rfl, none, by simp⟩ (fun _ b => ⟨rfl, b, by simp⟩) fun b _ => ?_)
    rw [Disk.setWal_setWal]
    exact (hset b).diskOk
  rintro _ e₅ d₅ ⟨rfl, b₃, rfl⟩
  exact triple_fail fun _ => .inr (.inl (hset b₃))

theorem flushGeneration_poisoned (hP : TableFaults P) (h : Poisoned n e d v)
    (hi : e.mem.immutableTables = oldest :: rest) :
    Retains P n v (Engine.flushGeneration oldest) (fun _ _ => False) e d := by
  have hfailed : Failed n e d v := .inr (.inl h)
  refine triple_get fun f => triple_ensure (fun _ _ => hfailed) fun _ => ?_
  -- the table is written a second time, with the same records
  have hsame : d.setTable e.counters.nextTableId.toUInt32 oldest.table = d := by
    obtain ⟨oldest', rest', hi', hfile⟩ := h.pending
    rw [hi] at hi'
    cases hi'
    unfold Disk.setTable
    rw [← hfile, Function.update_eq_self]
  refine Triple.bind (Q := fun _ e' d' => e' = e ∧ d' = d)
    ((writeOldest_triple hP e.counters.nextTableId.toUInt32 oldest.table e d).mono ?_ ?_ ?_) ?_
  · rintro t e₁ d₁ ⟨rfl, rfl, -⟩
    exact ⟨rfl, hsame⟩
  · rintro e₁ d₁ ⟨rfl, rfl | rfl⟩ _
    · exact hfailed
    · rw [hsame]
      exact hfailed
  · rintro e₁ d₁ (rfl | rfl) _
    · exact h.diskOk
    · rw [hsame]
      exact h.diskOk
  rintro t e₁ d₁ ⟨rfl, rfl⟩
  split
  · exact flushSwitching_poisoned h _ _
  · refine Triple.bind (Q := fun _ _ _ => False) ?_ fun _ _ _ h => h.elim
    exact commit_refused h.manifest fun _ => hfailed

/-- No flush succeeds any more. -/
theorem flushUnlocked_poisoned (hP : TableFaults P) (h : Poisoned n e d v) :
    Retains P n v Engine.flushUnlocked (fun _ _ => False) e d := by
  refine triple_ensureOpen h.opened.opened h.opened.closed (triple_modify (triple_get fun f => ?_))
  have hf := h.freeze
  obtain ⟨oldest, rest, hi, -⟩ := hf.pending
  have hcount : e.mem.freezeMutable.immutableCount = rest.length + 1 := by
    unfold MemTable.immutableCount
    rw [show e.mem.freezeMutable.immutableTables = _ from hi]
    rfl
  have hhas : e.mem.freezeMutable.hasImmutable = true := by
    unfold MemTable.hasImmutable
    rw [show e.mem.freezeMutable.immutableTables = _ from hi]
    rfl
  dsimp only
  rw [hcount]
  refine Triple.bind (Q := fun _ _ _ => False) ?_ fun _ _ _ h => h.elim
  refine triple_get fun f => ?_
  dsimp only
  rw [if_pos hhas]
  refine Triple.bind (Q := fun _ _ _ => False) ?_ fun _ _ _ h => h.elim
  refine triple_get fun f => ?_
  rw [show ({ engine := { e with mem := e.mem.freezeMutable }, disk := d, faults := f } :
    World EditLog LogObject).engine.mem.immutableTables = oldest :: rest from hi]
  exact flushGeneration_poisoned hP hf hi

/-- Every end of a flush of an open engine. -/
theorem flushUnlocked_failed (hP : TableFaults P) (h : Failed n e d v) :
    Retains P n v Engine.flushUnlocked (fun e' d' => Failed n e' d' v) e d := by
  rcases h with h | h | h
  · exact (flushUnlocked_live hP h).mono (fun _ _ _ hq => .inl hq) (fun _ _ he => he) fun _ _ hc => hc
  · exact (flushUnlocked_poisoned hP h).mono (fun _ _ _ hq => hq.elim) (fun _ _ he => he) fun _ _ hc => hc
  · exact (flushUnlocked_stopped hP h).mono (fun _ _ _ hq => .inr (.inr hq)) (fun _ _ he => he) fun _ _ hc => hc

end

end Kvdb
