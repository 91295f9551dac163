import Kvdb.Engine.ManifestBytes
import Kvdb.Engine.MapSemantics
import Kvdb.Engine.TableBytes

/-!
# What a flush has room for

A flush turns each frozen generation into a table and an edit of the manifest.  On a
file system without faults it succeeds with a generation exactly when

* the next table id and, for the last generation, the next WAL id exist,
* the generation fits into a table (`TableFits`), and
* the path and the outer keys of the table fit into a manifest entry.

A write checks none of this.  The proofs are about the edits of the manifest; the
result is about its bytes (`flush_iff_room`), for flushes whose edits lay no field
across the edge of a block.
-/

namespace Kvdb

open Faulty Bytes DataSectionView

/-! ## A table and its metadata -/

/-- The path and the outer keys of a table fit into a manifest entry. -/
def MetaFits (dir : List UInt8) (tableId : UInt32) (rs : List InternalRecord) : Prop :=
  ∀ first ∈ rs.head?, ∀ last ∈ rs.getLast?,
    (makeTablePath tableId dir).length + first.key.size + last.key.size ≤ MAX_TABLE_META_VARIABLE_BYTES

instance (dir : List UInt8) (tableId : UInt32) (rs : List InternalRecord) : Decidable (MetaFits dir tableId rs) :=
  inferInstanceAs (Decidable (∀ first ∈ rs.head?, ∀ last ∈ rs.getLast?, _))

/-- The metadata that a flush gives the table of a generation. -/
def tableMetaOf [Zlib] (dir : List UInt8) (tableId : UInt32) (rs : List InternalRecord) : Option TableMeta := do
  let summary ← summarize rs
  let (t, _) ← (writeTable dir tableId rs).toOption
  (makeTableMeta tableId 0 t.layout summary).toOption

section

variable [Zlib] {dir : List UInt8} {tableId : UInt32} {rs : List InternalRecord}

/-- What an engine takes from a finished table is the summary of its records. -/
theorem writeTable_summary {t : SSTable} {bytes : List UInt8} (hne : rs ≠ []) (hordered : Ordered rs)
    (hvalid : ∀ r ∈ rs, r.type.isValid = true) (h : writeTable dir tableId rs = .ok (t, bytes)) {s : RecordSummary}
    (hs : summarize rs = some s) :
    t.path = makeTablePath tableId dir ∧ t.metaSection.payload.summary = s ∧
      t.metaSection.payload.minKey = s.minKey ∧ t.metaSection.payload.maxKey = s.maxKey ∧
      ∀ level, t.makeTableMeta level = Kvdb.makeTableMeta tableId level t.layout s := by
  obtain ⟨built, w, hbuilt, hwrite, -⟩ := writeTable_ok hordered hne h
  obtain ⟨hsize, rfl⟩ := (SSTable.build_ok_iff hne hordered hvalid built).mp hbuilt
  have hw : blankFile.Synced := rfl
  obtain ⟨hwritten, -⟩ := SSTable.write_ok hw rfl hwrite
  have hpacked := SSTable.packed_fillBlocks hordered hvalid hsize
  obtain ⟨hsummary, -⟩ := MetaSection.rebuild_exact hwritten.metadata
  have hflat : (SSTable.filled tableId (makeTmpTablePath tableId dir) (makeTablePath tableId dir)
      rs).dataBlocks.flatten =
      rs.map DataSection.Payload.ofRecord := hpacked.flatten
  rw [hflat, DataSection.records_ofRecord hvalid, hs] at hsummary
  have heq := Option.some.inj (hsummary fun hnil => hne (List.map_eq_nil_iff.mp hnil))
  refine ⟨hwritten.path, heq.symm, ?_, ?_, fun level => ?_⟩
  · rw [heq]
    rfl
  · rw [heq]
    rfl
  · unfold SSTable.makeTableMeta
    rw [← heq, hwritten.header.2]
    rfl

omit [Zlib] in
theorem makeTableMeta_valid {level : UInt32} {layout : TableLayout} {s : RecordSummary} {m : TableMeta}
    (h : makeTableMeta tableId level layout s = .ok m) : m.path = layout.path ∧ m.validate = .ok () := by
  obtain ⟨_, hvalid, h⟩ := except_bind_ok h
  cases h
  exact ⟨rfl, hvalid⟩

omit [Zlib] in
/-- The outer keys of records in order. -/
theorem summarize_outer (hordered : Ordered rs) (hvalid : ∀ r ∈ rs, r.type.isValid = true) {s : RecordSummary}
    (hs : summarize rs = some s) {first last : InternalRecord} (hfirst : rs.head? = some first)
    (hlast : rs.getLast? = some last) : s.minKey = first.key ∧ s.maxKey = last.key := by
  obtain ⟨hhead, htail⟩ := SSTable.outer_ofRecord hfirst hlast
  refine MetaSection.summarize_outer (SSTable.pairwise_ofRecord hordered) ?_ hhead htail
  rw [DataSection.records_ofRecord hvalid]
  exact hs

/-- **A table and its metadata** are there exactly when the format and the manifest have room for them. -/
theorem described_iff (hne : rs ≠ []) (hordered : Ordered rs) (hvalid : ∀ r ∈ rs, r.type.isValid = true)
    {s : RecordSummary} (hs : summarize rs = some s) :
    (∃ t bytes m, writeTable dir tableId rs = .ok (t, bytes) ∧ makeTableMeta tableId 0 t.layout s = .ok m) ↔
      TableFits rs ∧ MetaFits dir tableId rs := by
  have hfirst := List.head?_eq_some_head hne
  have hlast := List.getLast?_eq_some_getLast hne
  obtain ⟨hmin, hmax⟩ := summarize_outer hordered hvalid hs hfirst hlast
  constructor
  · rintro ⟨t, bytes, m, hwrite, hm⟩
    refine ⟨(writeTable_ok_iff hne hordered hvalid).mp ⟨_, hwrite⟩, ?_⟩
    obtain ⟨hpath, -⟩ := writeTable_summary hne hordered hvalid hwrite hs
    obtain ⟨hmpath, hvalid'⟩ := makeTableMeta_valid hm
    obtain ⟨-, -, hmmin, hmmax⟩ := makeTableMeta_ok hm
    have hlen := TableMeta.variable_le (TableMeta.validate_path hvalid').2
    intro x hx y hy
    rw [hfirst] at hx
    rw [hlast] at hy
    cases hx
    cases hy
    rwa [hmpath, show t.layout.path = makeTablePath tableId dir from hpath, hmmin, hmmax, hmin, hmax] at hlen
  · rintro ⟨hfits, hmeta⟩
    obtain ⟨⟨t, bytes⟩, hwrite⟩ := (writeTable_ok_iff hne hordered hvalid).mpr hfits
    obtain ⟨hpath, -, htmin, htmax, hmake⟩ := writeTable_summary hne hordered hvalid hwrite hs
    obtain ⟨built, w, hbuilt, hwritten, -⟩ := writeTable_ok hordered hne hwrite
    have hw : blankFile.Synced := rfl
    cases hm : t.makeTableMeta 0 with
    | ok m =>
      rw [hmake] at hm
      exact ⟨t, bytes, m, hwrite, hm⟩
    | error e =>
      have herr := (SSTable.write_ok hw rfl hwritten).1.makeTableMeta_error hm
      have hle := hmeta _ hfirst _ hlast
      rw [hpath, htmin, htmax, hmin, hmax] at herr
      omega

end

/-! ## Runs without faults -/

/-- A world in which no operation fails. -/
def World.still {φ ω : Type} (e : Engine ω) (d : Disk φ) : World φ ω := ⟨e, d, fun _ => []⟩

section

variable {φ ω : Type} (e : Engine ω) (d : Disk φ)

theorem fault_still (site : Site) : (World.still e d).fault site = .none := rfl

@[simp] theorem pop_still (site : Site) : (World.still e d).pop site = .still e d := by
  unfold World.pop World.still
  congr 1
  exact Function.update_eq_self site _

@[simp] theorem fileOp_still (site : Site) (g : Disk φ → Disk φ) :
    fileOp site g (.still e d) = (.ok (), .still e (g d)) := by
  unfold fileOp
  rw [fault_still, pop_still]
  rfl

@[simp] theorem touch_still (site : Site) : touch site (.still e d) = (.ok (), .still e d) := fileOp_still e d site id

@[simp] theorem modifyEngine_still (g : Engine ω → Engine ω) :
    modifyEngine g (.still e d) = (.ok (), .still (g e) d) := rfl

/-- An append at the end of a WAL file that succeeds on a file without faults. -/
theorem appendWal_still (site : Site) (id : UInt32) {m : WriterM Status Unit} {b : List UInt8} {w : Writer Status}
    (hb : (d.wals id).getD [] = b) (hm : m ⟨b, b.length, none, ⟨.writeFailed, "append"⟩⟩ = (.ok (), w)) :
    appendWal site id m (.still e d) = (.ok (), .still e (d.setWal id (some w.bytes))) := by
  subst hb
  unfold appendWal
  rw [pop_still, fault_still]
  have hrun : m ⟨((World.still e d).disk.wals id).getD [], (((World.still e d).disk.wals id).getD []).length,
      Fault.none.cut, Fault.none.error⟩ = (.ok (), w) := hm
  rw [hrun]
  rfl

theorem createWal_still [Zlib] (site : Site) (id : UInt32) (startSeq : UInt64) : ∃ b, Writable b id [] ∧
    createWal site id startSeq (.still e d) = (.ok ⟨id, true⟩, .still e (d.setWal id (some b))) := by
  refine ⟨_, writable_header id startSeq, ?_⟩
  have hw : (⟨[], 0, none, ⟨.writeFailed, "append"⟩⟩ : Writer Status).Synced := rfl
  have hcreate := (create_apply id startSeq hw rfl).trans (append_free rfl)
  have hsame : d.setWal id (some (WALFileHeader.create id startSeq).bytes) =
      ((d.setWal id none).setWal id (some [])).setWal id (some (WALFileHeader.create id startSeq).bytes) := by
    rw [Disk.setWal_setWal, Disk.setWal_setWal]
  have hempty : (((d.setWal id none).setWal id (some [])).wals id).getD [] = [] := by
    rw [Disk.setWal_wals]
    exact Option.getD_some
  have happend := appendWal_still e ((d.setWal id none).setWal id (some [])) site id hempty hcreate
  rw [hsame]
  unfold createWal
  refine (bind_ok (fileOp_still e d site _)).trans ((bind_ok (fileOp_still e _ site _)).trans ?_)
  refine (bind_ok happend).trans ((bind_ok (touch_still e _ site)).trans ?_)
  rw [pure_apply]
  have hbytes : (Writer.put (⟨[], 0, none, ⟨.writeFailed, "append"⟩⟩ : Writer Status)
      (WALFileHeader.create id startSeq).bytes none).bytes = (WALFileHeader.create id startSeq).bytes :=
        List.nil_append _
  rw [hbytes]

end

/-- A commit that the version and the encoding accept. -/
theorem commit_still [Zlib] {e : Engine LogObject} {d : Disk EditLog} (site : Site) {edit : VersionEdit}
    {lm : LevelManager} {c : StagedCounters} {header : EditHeader} (hm : e.manifest = some ⟨false⟩)
    (hst : stageApply e.levels e.counters edit = .ok (lm, c)) (hprep : edit.prepare = .ok header) :
    commitManifest site edit (.still e d) = (.ok (), .still { e with levels := lm, counters := c }
      (d.logged edit)) := by
  unfold commitManifest onManifest
  rw [pop_still, fault_still]
  simp only [World.still, hm, ManifestStore.commit, Bool.false_eq_true, if_false, hst, hprep, EditLog.append,
    one_ne_zero]
  simp only [Disk.logged, ← hm]

/-! ## The edit of a flush -/

/-- The edit of a flush, with the next WAL when it switches to one. -/
def switchEdit (t : TableMeta) (nextTableId nextSequence : UInt64) (walId : Option UInt64) : VersionEdit :=
  { Engine.flushEdit t nextTableId nextSequence with currentWalId := walId }

theorem stageCounter_some {value current : UInt64} (name : String) (h : current.toNat ≤ value.toNat) :
    stageCounter (some value) name current = .ok value :=
  if_neg fun hlt => Nat.not_lt.mpr h (UInt64.lt_iff_toNat_lt.mp hlt)

section

variable {lm : LevelManager} {c : StagedCounters} {t : TableMeta} {seq : UInt64} {walId : Option UInt64}

theorem switchEdit_valid (hid : t.tableId ≠ 0) (hnext : c.nextTableId.toNat ≤ 2 ^ 32 - 1) (hseq : seq ≠ 0)
    (hwal : ∀ w ∈ walId, w ≠ 0) : (switchEdit t c.nextTableId seq walId).validate = .ok () := by
  have hsucc : c.nextTableId + 1 ≠ 0 := by
    intro h0
    have h0' := congrArg UInt64.toNat h0
    rw [UInt64.toNat_add] at h0'
    have h1 : (1 : UInt64).toNat = 1 := rfl
    have hz : (0 : UInt64).toNat = 0 := rfl
    omega
  have hwal' : walId ≠ some 0 := fun h => hwal 0 h rfl
  have hcount : ∀ name, checkedU32Count 0 name = .ok 0 ∧ checkedU32Count 1 name = .ok 1 := fun name =>
      ⟨rfl, rfl⟩
  unfold VersionEdit.validate
  have htables : (switchEdit t c.nextTableId seq walId).newTables = [t] := rfl
  have hdeleted : (switchEdit t c.nextTableId seq walId).deletedTables = [] := rfl
  rw [htables, hdeleted]
  simp only [List.length_nil, List.length_singleton, (hcount _).1, (hcount _).2, ok_bind, switchEdit, Engine.flushEdit,
    Option.some.injEq, hsucc, hseq, hwal', if_false, List.any_nil, List.any_cons, Bool.or_false, beq_iff_eq, hid,
    Bool.false_eq_true]

/-- **The edit of a flush is accepted** by the version it extends. -/
theorem stageApply_switchEdit (hc : Catalog lm c) (hid : t.tableId = c.nextTableId) (hlevel : t.level = 0)
    (hcount : 0 < lm.levelCount) (hrange : t.smallestKey ≤ t.largestKey) (hnext : c.nextTableId.toNat ≤ 2 ^ 32 - 1)
    (hseq : c.nextSequenceNumber.toNat ≤ seq.toNat) (hwal : ∀ w ∈ walId, c.currentWalId.toNat ≤ w.toNat) :
    ∃ lm', stageApply lm c (switchEdit t c.nextTableId seq walId) =
      .ok (lm', ⟨c.nextTableId + 1, walId.getD c.currentWalId, seq⟩) := by
  have hpos : ∀ {a b : UInt64}, a ≠ 0 → a.toNat ≤ b.toNat → b ≠ 0 := by
    rintro a b ha hab rfl
    exact ha (UInt64.toNat_inj.mp (Nat.le_zero.mp hab))
  have hfresh : ∀ level, ∀ u ∈ lm.tables level, u.tableId ≠ t.tableId := by
    intro level u hu heq
    have := hc.id_lt level u hu
    rw [heq, hid] at this
    omega
  have hne : t.tableId ≠ 0 := by rw [hid]; exact hc.nextTableId
  obtain ⟨lm', hadd⟩ := addTable_succeeds_zero hne hfresh (by rw [hlevel]; exact hcount) hrange hlevel
  have hsucc : (c.nextTableId + 1).toNat = c.nextTableId.toNat + 1 := by
    rw [UInt64.toNat_add]
    have h1 : (1 : UInt64).toNat = 1 := rfl
    omega
  have hwalle : c.currentWalId.toNat ≤ (walId.getD c.currentWalId).toNat := by
    cases walId with
    | none => exact le_refl _
    | some w => exact hwal w rfl
  refine ⟨lm', stageApply_ok_iff.mpr ⟨?_, ⟨lm, rfl, ?_⟩, ?_, stageCounter_some _ hseq, ?_, ?_⟩⟩
  · exact switchEdit_valid hne hnext (hpos hc.nextSequenceNumber hseq) fun w hw => hpos hc.currentWalId (hwal w hw)
  · show ([t].foldlM (fun lm t => lm.addTable t) lm) = .ok lm'
    rw [List.foldlM_cons, hadd]
    rfl
  · show stageTableId (switchEdit t c.nextTableId seq walId) c.nextTableId = .ok (c.nextTableId + 1)
    unfold stageTableId
    dsimp only [switchEdit, Engine.flushEdit]
    rw [if_neg]
    intro hlt
    have := UInt64.lt_iff_toNat_lt.mp hlt
    omega
  · cases walId with
    | none => rfl
    | some w => exact stageCounter_some _ (hwal w rfl)
  · refine (hc.structured.addTable hadd).manifestInv ?_ (hpos hc.currentWalId hwalle)
      (hpos hc.nextSequenceNumber hseq) ?_
    · exact hpos hc.nextTableId (by rw [hsucc]; omega)
    · intro level u hu
      show u.tableId.toNat < (c.nextTableId + 1).toNat
      rcases (LevelManager.mem_addTable hadd level u).mp hu with hu | ⟨rfl, -⟩
      · have := hc.id_lt level u hu
        omega
      · rw [hid, hsucc]
        omega

theorem prepare_switchEdit [Zlib] (hmeta : t.validate = .ok ())
    (hvalid : (switchEdit t c.nextTableId seq walId).validate = .ok ()) :
    ∃ header, (switchEdit t c.nextTableId seq walId).prepare = .ok header := by
  refine prepare_of_payloadSize ?_
  have hlen := TableMeta.variable_le (TableMeta.validate_path hmeta).2
  have hmax : MAX_TABLE_META_VARIABLE_BYTES = 65536 := rfl
  have hsize : (UInt32.ofNat t.fields.flatten.length).toNat ≤ 65616 := by
    rw [UInt32.toNat_ofNat', t.flatten_fields_length]
    exact (Nat.mod_le _ _).trans (by omega)
  obtain ⟨k, hk, hopt⟩ : ∃ k ≤ 8, (if (switchEdit t c.nextTableId seq walId).currentWalId.isSome then 8
      else 0) = k := by
    cases walId with
    | none => exact ⟨0, by omega, rfl⟩
    | some w => exact ⟨8, by omega, rfl⟩
  have hadd : ∀ a b : Nat, a ≤ 2 ^ 32 → b ≤ 2 ^ 32 → checkedAddU64 a b "version edit payload" = .ok (a + b) :=
    fun a b ha hb => if_neg (by omega)
  have hmin : MIN_PAYLOAD_SIZE = 12 := rfl
  have hlimit : MANIFEST_MAX_EDIT_SIZE = 67108864 := rfl
  unfold VersionEdit.payloadSize
  rw [hvalid, ok_bind, hopt]
  simp only [switchEdit, Engine.flushEdit, Option.isSome_some, if_true, List.length_nil, Nat.zero_mul, List.foldlM_cons,
    List.foldlM_nil]
  rw [hadd _ _ (by omega) (by omega), ok_bind, TableMeta.diskSize_ok hmeta]
  simp only [ok_bind]
  rw [hadd _ _ (by omega) (by omega)]
  show (if _ then _ else _ : Except Status UInt32).isOk = true
  rw [if_neg (by omega)]
  rfl

end

/-! ## Writing the table of a generation -/

/-- The environment of an engine with its tables in `dir`. -/
@[reducible] def fileEnv [Zlib] (dir : List UInt8) (memoryUsage : List InternalRecord → Nat) (compactRounds : Nat) :
    EngineEnv where
  toTableFormat := tableFormat dir
  memoryUsage
  compactRounds

section

variable [Zlib] [EngineEnv] {dir : List UInt8}

/-- Appending record by record is one run of the builder. -/
theorem appendRecords_tableFormat (hformat : EngineEnv.toTableFormat = tableFormat dir)
    {done rest : List InternalRecord}
    {t : SSTable} (hdone : done.foldlM SSTable.appendRecord (.building [] [] 0) = .ok t) :
    appendRecords done rest = .ok () ↔ ∃ t', rest.foldlM SSTable.appendRecord t = .ok t' := by
  induction rest generalizing done t with
  | nil => exact ⟨fun _ => ⟨t, rfl⟩, fun _ => rfl⟩
  | cons r rest ih =>
    have happend : TableFormat.appendRecord done r = (t.appendRecord r >>= fun _ => pure ()) := by
      rw [hformat]
      show (done.foldlM SSTable.appendRecord (.building [] [] 0) >>= fun t => t.appendRecord r >>= fun _ => pure ()) = _
      rw [hdone]
      rfl
    rw [appendRecords, happend, List.foldlM_cons]
    cases hr : t.appendRecord r with
    | error e => exact ⟨fun h => (by cases h), fun ⟨_, h⟩ => (by cases h)⟩
    | ok t₁ =>
      have hdone' : (done ++ [r]).foldlM SSTable.appendRecord (.building [] [] 0) = .ok t₁ := by
        rw [List.foldlM_append, hdone, ok_bind, List.foldlM_cons, hr]
        rfl
      exact ih hdone'

theorem buildTable_iff (hformat : EngineEnv.toTableFormat = tableFormat dir) {rs : List InternalRecord}
    (hne : rs ≠ [])
    (hordered : Ordered rs) (hvalid : ∀ r ∈ rs, r.type.isValid = true) :
    buildTable rs = .ok (some rs) ↔ ∀ r ∈ rs, (DataSection.Payload.ofRecord r).diskSize ≤ PAYLOAD_CAPACITY := by
  have hfill := SSTable.appendRecords_fill (t := .building [] [] 0) rfl DataSection.Packed.nil hvalid
    (SSTable.pairwise_ofRecord hordered)
  have happend := @appendRecords_tableFormat _ _ dir hformat [] rs (.building [] [] 0) rfl
  rw [buildTable, if_neg hne, SSTable.validateRecords_of_ordered hordered, Bool.not_true, if_neg Bool.false_ne_true]
  constructor
  · intro h
    obtain ⟨_, hall, -⟩ := except_bind_ok h
    obtain ⟨t', ht'⟩ := happend.mp hall
    exact ((hfill t').mp ht').1
  · intro h
    rw [happend.mpr ⟨_, (hfill _).mpr ⟨h, rfl⟩⟩]
    rfl

theorem layout_iff (hformat : EngineEnv.toTableFormat = tableFormat dir) {id : UInt32} {rs : List InternalRecord}
    {layout : TableLayout} :
    TableFormat.layout id rs = .ok layout ↔ ∃ t bytes, writeTable dir id rs = .ok (t, bytes) ∧
      t.layout = layout := by
  rw [hformat]
  show (writeTable dir id rs >>= fun p => pure p.1.layout) = .ok layout ↔ _
  constructor
  · intro h
    obtain ⟨⟨t, bytes⟩, hwrite, h⟩ := except_bind_ok h
    cases h
    exact ⟨t, bytes, hwrite, rfl⟩
  · rintro ⟨t, bytes, hwrite, rfl⟩
    rw [hwrite]
    rfl

omit [Zlib] in
theorem onTables_write_still (site : Site) (id : UInt32) (rs : List InternalRecord) (e : Engine LogObject)
    (d : Disk EditLog) :
    onTables site (TableStore.write id rs) (.still e d) =
      match TableFormat.layout id rs with
      | .ok layout => (.ok layout, .still e (d.setTable id rs))
      | .error x => (.err x, .still e d) := by
  have hfaults : Function.update (fun _ : Site => ([] : List Fault)) site [] = fun _ => [] :=
      Function.update_eq_self site _
  unfold onTables TableStore.write
  cases hlayout : TableFormat.layout id rs with
  | error x =>
    show (_, ({ engine := e, disk := d, faults := Function.update (fun _ => []) site [] } : World EditLog
      LogObject)) = _
    rw [hfaults]
    rfl
  | ok layout =>
    show (_, ({ engine := e, disk := d.setTable id rs, faults := Function.update (fun _ => []) site [] } :
      World EditLog LogObject)) = _
    rw [hfaults]
    rfl

/-- **The table of a generation is written** exactly when there is room for it and its metadata. -/
theorem writeOldest_still (hformat : EngineEnv.toTableFormat = tableFormat dir) {id : UInt32} {rs : List InternalRecord}
    (hne : rs ≠ []) (hordered : Ordered rs) (hvalid : ∀ r ∈ rs, r.type.isValid = true) (e : Engine LogObject)
    (d : Disk EditLog) :
    if TableFits rs ∧ MetaFits dir id rs then
      ∃ t, tableMetaOf dir id rs = some t ∧ Describes t id rs ∧ t.validate = .ok () ∧
        Engine.writeOldest id rs (.still e d) = (.ok t, .still e (d.setTable id rs))
    else ∃ x w, Engine.writeOldest id rs (.still e d) = (.err x, w) := by
  obtain ⟨s, hs⟩ : ∃ s, summarize rs = some s := by
    cases rs with
    | nil => exact absurd rfl hne
    | cons r rs => exact ⟨_, rfl⟩
  have hdesc := @described_iff _ dir id rs hne hordered hvalid s hs
  split
  · next hfits =>
    obtain ⟨t, bytes, m, hwrite, hm⟩ := hdesc.mpr hfits
    have hbuild := (buildTable_iff hformat hne hordered hvalid).mpr hfits.1.record
    have hlayout := (layout_iff hformat).mpr ⟨t, bytes, hwrite, rfl⟩
    obtain ⟨hid, hlevel, hmin, hmax⟩ := makeTableMeta_ok hm
    have hof : tableMetaOf dir id rs = some m := by
      unfold tableMetaOf
      rw [hs, hwrite]
      exact congrArg Except.toOption hm
    refine ⟨m, hof, ⟨hid, hlevel, s, hs, hmin, hmax⟩, (makeTableMeta_valid hm).2, ?_⟩
    rw [Engine.writeOldest, hbuild, bind_ok (lift_ok _ _), Option.bind_some, hs]
    have hput := onTables_write_still .flushTable id rs e d
    rw [hlayout] at hput
    exact (bind_ok hput).trans (by rw [hm]; rfl)
  · next hfits =>
    unfold Engine.writeOldest
    match hbuild : buildTable rs with
    | .error x => exact ⟨x, _, bind_err (lift_error _ _)⟩
    | .ok none => exact ⟨_, _, rfl⟩
    | .ok (some built) =>
      obtain rfl := buildTable_some hbuild
      rw [bind_ok (lift_ok _ _), Option.bind_some, hs]
      have hput := onTables_write_still .flushTable id built e d
      cases hlayout : TableFormat.layout id built with
      | error x =>
        rw [hlayout] at hput
        exact ⟨x, _, bind_err hput⟩
      | ok layout =>
        rw [hlayout] at hput
        cases hm : makeTableMeta id 0 layout s with
        | error x => exact ⟨x, _, (bind_ok hput).trans (by rw [hm]; rfl)⟩
        | ok m =>
          obtain ⟨t, bytes, hwrite, rfl⟩ := (layout_iff hformat).mp hlayout
          exact absurd (hdesc.mp ⟨t, bytes, m, hwrite, hm⟩) hfits

/-! ## Flushing the oldest generation -/

variable {n : Nat} {e : Engine LogObject} {d : Disk EditLog} {v : View} {oldest : ImmutableTable}
  {rest : List ImmutableTable}

/-- There is room for the oldest generation. -/
structure Room (dir : List UInt8) (e : Engine LogObject) (oldest : ImmutableTable) (rest : List ImmutableTable) :
    Prop where
  tableId : e.counters.nextTableId.toNat ≤ 2 ^ 32 - 1
  table : TableFits oldest.table
  metadata : MetaFits dir e.counters.nextTableId.toUInt32 oldest.table
  walId : rest = [] → e.currentWalId.toNat ≠ 2 ^ 32 - 1

instance (dir : List UInt8) (e : Engine LogObject) (oldest : ImmutableTable) (rest : List ImmutableTable) :
    Decidable (Room dir e oldest rest) :=
  decidable_of_iff (e.counters.nextTableId.toNat ≤ 2 ^ 32 - 1 ∧ TableFits oldest.table ∧
      MetaFits dir e.counters.nextTableId.toUInt32 oldest.table ∧ (rest = [] → e.currentWalId.toNat ≠ 2 ^ 32 - 1))
    ⟨fun ⟨h1, h2, h3, h4⟩ => ⟨h1, h2, h3, h4⟩, fun ⟨h1, h2, h3, h4⟩ => ⟨h1, h2, h3, h4⟩⟩

/-- The edit that the flush of a generation commits; the last one selects the next WAL. -/
def generationEdit (t : TableMeta) (nextTableId nextSequence : UInt64) (walId : UInt32) (last : Bool) : VersionEdit :=
  switchEdit t nextTableId nextSequence (if last then some (walId + 1).toUInt64 else none)

/-- The engine after the flush of its oldest generation. -/
structure Flushed (dir : List UInt8) (n : Nat) (v : View) (oldest : ImmutableTable) (rest : List ImmutableTable)
    (e e' : Engine LogObject) (d d' : Disk EditLog) : Prop where
  live : Live n e' d' v
  mem : e'.mem = { e.mem with immutableTables := rest }
  options : e'.options = e.options
  nextTableId : e'.counters.nextTableId = e.counters.nextTableId + 1
  nextSequence : e'.nextSequence = e.nextSequence
  walId : rest ≠ [] → e'.currentWalId = e.currentWalId
  log : ∃ t, tableMetaOf dir e.counters.nextTableId.toUInt32 oldest.table = some t ∧
    (generationEdit t e.counters.nextTableId e.nextSequence e.currentWalId rest.isEmpty).Valid ∧
    d'.manifest = some ⟨EditLog.editsOf d.manifest ++
      [generationEdit t e.counters.nextTableId e.nextSequence e.currentWalId rest.isEmpty]⟩

omit [EngineEnv] in
/-- A generation has records, in order and of the two types. -/
theorem Live.generation (h : Live n e d v) (ht : oldest ∈ e.mem.immutableTables) :
    oldest.table ≠ [] ∧ Ordered oldest.table ∧ ∀ r ∈ oldest.table, r.type.isValid = true := by
  obtain ⟨rs, -, hshown, hmem⟩ := h.log
  exact ⟨hmem.nonempty oldest ht, hmem.oldest_ordered ht, fun r hr =>
    hshown.valid r (.inr (hmem.oldest_logged ht hr))⟩

omit [EngineEnv] in
theorem Live.levels_pos (h : Live n e d v) : 0 < e.levels.levelCount := by
  have htwo : 2 ≤ e.options.compaction.maxLevels.toNat :=
    (CompactionOptions.validate_ok (schedulerOptions_valid h.opened.options)).1
  have hlimit := h.opened.limit
  have hcount := h.opened.levelCount
  omega

omit [EngineEnv] in
/-- The commit of a flush is accepted. -/
theorem Live.accepts_edit (h : Live n e d v) {t : TableMeta}
    (ht : Describes t e.counters.nextTableId.toUInt32 oldest.table)
    (hvalid : t.validate = .ok ()) (hid : e.counters.nextTableId.toNat ≤ 2 ^ 32 - 1) {walId : Option UInt64}
    (hwal : ∀ w ∈ walId, e.counters.currentWalId.toNat ≤ w.toNat) :
    ∃ lm header, stageApply e.levels e.counters (switchEdit t e.counters.nextTableId e.nextSequence walId) =
        .ok (lm, ⟨e.counters.nextTableId + 1, walId.getD e.counters.currentWalId, e.nextSequence⟩) ∧
      (switchEdit t e.counters.nextTableId e.nextSequence walId).prepare = .ok header := by
  obtain ⟨rs, hlog, hshown, -⟩ := h.log
  have htid : t.tableId = e.counters.nextTableId := ht.id.trans (toUInt32_toUInt64_of_lt hid)
  obtain ⟨s, hs, hmin, hmax⟩ := ht.bounds
  have hrange : t.smallestKey ≤ t.largestKey := by
    obtain ⟨hin, ⟨r, hr, heq⟩, -⟩ := summarize_keys hs
    rw [hmin, hmax, heq]
    exact (hin r hr).2
  obtain ⟨lm, hst⟩ := stageApply_switchEdit hshown.catalog htid ht.level h.levels_pos hrange hid hlog.next_le hwal
  obtain ⟨header, hprep⟩ := prepare_switchEdit hvalid (stageApply_ok_iff.mp hst).valid
  exact ⟨lm, header, hst, hprep⟩

omit [Zlib] [EngineEnv] in
theorem retireOldest_still (hi : e.mem.immutableTables = oldest :: rest) :
    Engine.retireOldest oldest.generationId (.still e d) =
      (.ok (), .still { e with mem := { e.mem with immutableTables := rest } } d) := by
  have hretire : (World.still e d).engine.mem.retireOldestImmutable oldest.generationId =
      some { e.mem with immutableTables := rest } := retireOldest_apply hi
  unfold Engine.retireOldest
  rw [bind_ok (get_apply _), hretire]
  rfl

omit [EngineEnv] in
theorem flushKeeping_still (h : Live n e d v) (hi : e.mem.immutableTables = oldest :: rest) {t : TableMeta}
    (ht : Describes t e.counters.nextTableId.toUInt32 oldest.table) (hvalid : t.validate = .ok ())
    (hid : e.counters.nextTableId.toNat ≤ 2 ^ 32 - 1) :
    (switchEdit t e.counters.nextTableId e.nextSequence none).Valid ∧ ∃ lm,
      Engine.flushKeeping oldest (Engine.flushEdit t e.counters.nextTableId e.nextSequence) (.still e d) =
      (.ok (), .still
        { e with
          levels := lm
          counters := ⟨e.counters.nextTableId + 1, e.counters.currentWalId, e.nextSequence⟩
          mem := { e.mem with immutableTables := rest } }
        (d.logged (Engine.flushEdit t e.counters.nextTableId e.nextSequence))) := by
  obtain ⟨lm, header, hst, hprep⟩ := @Live.accepts_edit _ n e d v oldest h t ht hvalid hid none
      fun w hw => by cases hw
  refine ⟨(VersionEdit.prepare_ok hprep).1, lm, ?_⟩
  unfold Engine.flushKeeping
  have hcommit := @commit_still _ e d .flushCommit _ _ _ _ h.manifest hst hprep
  exact (bind_ok hcommit).trans (retireOldest_still hi)

omit [Zlib] [EngineEnv] in
theorem switchWal_still {id : UInt32} (hwal : e.wal = some ⟨id, true⟩) (replacement : WALHandle) :
    Engine.switchWal replacement id (.still e d) =
      (.ok (), .still { e with wal := some replacement, currentWalId := replacement.walId } (d.setWal id none)) := by
  have hclose : Engine.closeWal .flushClose (.still e d) =
      (.ok (), .still { e with wal := some ⟨id, false⟩ } d) := by
    unfold Engine.closeWal
    rw [bind_ok (get_apply _), show (World.still e d).engine.wal = _ from hwal]
    exact (bind_ok (modifyEngine_still e d _)).trans (touch_still _ d _)
  unfold Engine.switchWal
  exact (bind_ok hclose).trans ((bind_ok (modifyEngine_still _ d _)).trans (fileOp_still _ d _ _))

omit [EngineEnv] in
theorem flushSwitching_still (h : Live n e d v) (hi : e.mem.immutableTables = [oldest]) {t : TableMeta}
    (ht : Describes t e.counters.nextTableId.toUInt32 oldest.table) (hvalid : t.validate = .ok ())
    (hid : e.counters.nextTableId.toNat ≤ 2 ^ 32 - 1) (hwal : e.currentWalId.toNat ≠ 2 ^ 32 - 1) :
    (switchEdit t e.counters.nextTableId e.nextSequence (some (e.currentWalId + 1).toUInt64)).Valid ∧
    ∃ lm d', d'.manifest = some ⟨EditLog.editsOf d.manifest ++
        [switchEdit t e.counters.nextTableId e.nextSequence (some (e.currentWalId + 1).toUInt64)]⟩ ∧
      Engine.flushSwitching oldest (Engine.flushEdit t e.counters.nextTableId e.nextSequence) (.still e d) =
      (.ok (), .still
        { e with
          levels := lm
          counters := ⟨e.counters.nextTableId + 1, (e.currentWalId + 1).toUInt64, e.nextSequence⟩
          mem := { e.mem with immutableTables := [] }
          wal := some ⟨e.currentWalId + 1, true⟩
          currentWalId := e.currentWalId + 1 } d') := by
  obtain ⟨rs, hlog, hshown, -⟩ := h.log
  have hsucc : (e.currentWalId + 1).toNat = e.currentWalId.toNat + 1 := by
    rw [UInt32.toNat_add, UInt32.toNat_one]
    have := e.currentWalId.toNat_lt
    omega
  obtain ⟨lm, header, hst, hprep⟩ := @Live.accepts_edit _ n e d v oldest h t ht hvalid hid
    (some (e.currentWalId + 1).toUInt64) (by
    intro w hw
    cases hw
    rw [hlog.walId, UInt32.toNat_toUInt64, UInt32.toNat_toUInt64, hsucc]
    omega)
  obtain ⟨b, -, hcreate⟩ := createWal_still e (d.setWal (e.currentWalId + 1) none) .flushCreate (e.currentWalId + 1)
    e.nextSequence
  have hcommit := @commit_still _ e ((d.setWal (e.currentWalId + 1) none).setWal (e.currentWalId + 1) (some b))
    .flushSwitch _ _ _ _ h.manifest hst hprep
  have hretire := retireOldest_still (e := { e with
    levels := lm
    counters := ⟨e.counters.nextTableId + 1, (e.currentWalId + 1).toUInt64, e.nextSequence⟩ })
    (d := ((d.setWal (e.currentWalId + 1) none).setWal (e.currentWalId + 1) (some b)).logged
      (switchEdit t e.counters.nextTableId e.nextSequence (some (e.currentWalId + 1).toUInt64))) hi
  have hswitch := switchWal_still (e := { e with
    levels := lm
    counters := ⟨e.counters.nextTableId + 1, (e.currentWalId + 1).toUInt64, e.nextSequence⟩
    mem := { e.mem with immutableTables := [] } })
    (d := ((d.setWal (e.currentWalId + 1) none).setWal (e.currentWalId + 1) (some b)).logged
      (switchEdit t e.counters.nextTableId e.nextSequence (some (e.currentWalId + 1).toUInt64))) hlog.wal
    ⟨e.currentWalId + 1, true⟩
  refine ⟨(VersionEdit.prepare_ok hprep).1, lm,
    (((d.setWal (e.currentWalId + 1) none).setWal (e.currentWalId + 1) (some b)).logged
      (switchEdit t e.counters.nextTableId e.nextSequence (some (e.currentWalId + 1).toUInt64))).setWal
        e.currentWalId none,
    rfl, ?_⟩
  unfold Engine.flushSwitching
  rw [bind_ok (get_apply _)]
  have hcheck : ((World.still e d).engine.currentWalId.toNat != 2 ^ 32 - 1) = true := by simpa [World.still] using hwal
  refine (ensure_bind_true hcheck).trans ?_
  refine (bind_ok (fileOp_still e d .flushRemove _)).trans ((bind_ok hcreate).trans ?_)
  exact (bind_ok (orElse_ok hcommit)).trans ((bind_ok hretire).trans hswitch)

/-- The flush of a generation first asks for a table id. -/
theorem flushGeneration_start (hne : e.counters.nextTableId ≠ 0) :
    Engine.flushGeneration oldest (.still e d) =
      if e.counters.nextTableId.toNat ≤ 2 ^ 32 - 1 then
        (Engine.writeOldest e.counters.nextTableId.toUInt32 oldest.table >>= fun t =>
          if e.mem.immutableCount = 1 then
            Engine.flushSwitching oldest (Engine.flushEdit t e.counters.nextTableId e.nextSequence)
          else Engine.flushKeeping oldest (Engine.flushEdit t e.counters.nextTableId e.nextSequence)) (.still e d)
      else (.err ⟨.invariantViolation, "table ID space is exhausted"⟩, .still e d) := by
  have hnext : (e.counters.nextTableId != 0) = true := by simpa using hne
  have hself : (World.still e d).engine = e := rfl
  unfold Engine.flushGeneration
  rw [bind_ok (get_apply _), hself]
  by_cases hid : e.counters.nextTableId.toNat ≤ 2 ^ 32 - 1
  · rw [if_pos hid]
    exact ensure_bind_true (by rw [hnext, decide_eq_true hid]; rfl)
  · rw [if_neg hid]
    exact ensure_bind_false (by rw [decide_eq_false hid, Bool.and_false])

omit [EngineEnv] in
theorem flushSwitching_exhausted (hwal : e.currentWalId.toNat = 2 ^ 32 - 1) (edit : VersionEdit) :
    ∃ x w, Engine.flushSwitching oldest edit (World.still e d) = (.err x, w) := by
  refine ⟨⟨.invariantViolation, "WAL ID space is exhausted"⟩, .still e d, ?_⟩
  unfold Engine.flushSwitching
  rw [bind_ok (get_apply _)]
  exact ensure_bind_false (by simpa [World.still] using hwal)

/-- **The flush of a generation** succeeds exactly when there is room for it. -/
theorem flushGeneration_still (hformat : EngineEnv.toTableFormat = tableFormat dir) (h : Live n e d v)
    (hi : e.mem.immutableTables = oldest :: rest) (hmut : e.mem.mutableTable = []) :
    if Room dir e oldest rest then
      ∃ e' d', Engine.flushGeneration oldest (.still e d) = (.ok (), .still e' d') ∧
        Flushed dir n v oldest rest e e' d d'
    else ∃ x w, Engine.flushGeneration oldest (.still e d) = (.err x, w) := by
  have hold : oldest ∈ e.mem.immutableTables := by
    rw [hi]
    exact List.mem_cons_self
  obtain ⟨hne, hordered, htypes⟩ := h.generation hold
  have hends := flushGeneration_ends (P := fun _ _ => True) ⟨fun _ => trivial, fun _ => trivial, fun _ =>
      trivial⟩ h hi hmut
  have hlive : ∀ {e' : Engine LogObject} {d' : Disk EditLog}, Engine.flushGeneration oldest (.still e d) =
      (.ok (), .still e' d') → Live n e' d' v := fun hrun =>
    ((hends (fun _ => []) fun _ x hx => by cases hx).ok hrun).2.1
  have hcount : e.mem.immutableCount = 1 ↔ rest = [] := by
    unfold MemTable.immutableCount
    rw [hi]
    simp
  have htable := @writeOldest_still _ _ dir hformat e.counters.nextTableId.toUInt32 _ hne hordered htypes e d
  obtain ⟨rs, -, hshown, -⟩ := h.log
  rw [flushGeneration_start hshown.catalog.nextTableId] at hlive ⊢
  -- the table id, then the table, then one of the two commits
  by_cases hid : e.counters.nextTableId.toNat ≤ 2 ^ 32 - 1
  · rw [if_pos hid] at hlive ⊢
    by_cases hfits : TableFits oldest.table ∧ MetaFits dir e.counters.nextTableId.toUInt32 oldest.table
    · rw [if_pos hfits] at htable
      obtain ⟨t, hof, ht, hvalid, hwrite⟩ := htable
      have hset := h.setTable hid oldest.table
      rw [bind_ok hwrite] at hlive ⊢
      by_cases hrest : rest = []
      · subst hrest
        rw [if_pos (hcount.mpr rfl)] at hlive ⊢
        by_cases hwal : e.currentWalId.toNat = 2 ^ 32 - 1
        · rw [if_neg fun hroom => hroom.walId rfl hwal]
          exact flushSwitching_exhausted hwal _
        · rw [if_pos ⟨hid, hfits.1, hfits.2, fun _ => hwal⟩]
          obtain ⟨hedit, lm, d', hlog, hswitch⟩ := flushSwitching_still hset hi ht hvalid hid hwal
          exact ⟨_, d', hswitch, hlive hswitch, rfl, rfl, rfl, rfl, fun hne => absurd rfl hne, t, hof, hedit, hlog⟩
      · rw [if_neg fun hone => hrest (hcount.mp hone)] at hlive ⊢
        rw [if_pos ⟨hid, hfits.1, hfits.2, fun hnil => absurd hnil hrest⟩]
        obtain ⟨hedit, lm, hkeep⟩ := flushKeeping_still hset hi ht hvalid hid
        have hlast : rest.isEmpty = false := List.isEmpty_eq_false_iff.mpr hrest
        refine ⟨_, _, hkeep, hlive hkeep, rfl, rfl, rfl, rfl, fun _ => rfl, t, hof, ?_, ?_⟩
        · rw [hlast]
          exact hedit
        · rw [hlast]
          rfl
    · rw [if_neg hfits] at htable
      rw [if_neg fun hroom => hfits ⟨hroom.table, hroom.metadata⟩]
      obtain ⟨x, w, hwrite⟩ := htable
      exact ⟨x, w, bind_err hwrite⟩
  · rw [if_neg fun hroom => hid hroom.tableId, if_neg hid]
    exact ⟨_, _, rfl⟩

/-! ## Flushing every generation -/

/-- There is room for all generations. -/
structure RoomForAll (dir : List UInt8) (nextTableId walId : Nat) (gens : List (List InternalRecord)) : Prop where
  tableIds : nextTableId + gens.length ≤ 2 ^ 32
  walId : walId ≠ 2 ^ 32 - 1
  tables : ∀ p ∈ gens.zipIdx nextTableId, TableFits p.1 ∧ MetaFits dir (UInt32.ofNat p.2) p.1

instance (dir : List UInt8) (nextTableId walId : Nat) (gens : List (List InternalRecord)) :
    Decidable (RoomForAll dir nextTableId walId gens) :=
  decidable_of_iff (nextTableId + gens.length ≤ 2 ^ 32 ∧ walId ≠ 2 ^ 32 - 1 ∧
      ∀ p ∈ gens.zipIdx nextTableId, TableFits p.1 ∧ MetaFits dir (UInt32.ofNat p.2) p.1)
    ⟨fun ⟨h1, h2, h3⟩ => ⟨h1, h2, h3⟩, fun ⟨h1, h2, h3⟩ => ⟨h1, h2, h3⟩⟩

omit [Zlib] [EngineEnv] in
/-- Room for all generations is room for one after the other. -/
theorem roomForAll_cons {nextTableId walId : Nat} {g : List InternalRecord} {gens : List (List InternalRecord)} :
    RoomForAll dir nextTableId walId (g :: gens) ↔
      nextTableId ≤ 2 ^ 32 - 1 ∧ TableFits g ∧ MetaFits dir (UInt32.ofNat nextTableId) g ∧
        walId ≠ 2 ^ 32 - 1 ∧
        (gens ≠ [] → RoomForAll dir (nextTableId + 1) walId gens) := by
  constructor
  · rintro ⟨hids, hwal, htables⟩
    rw [List.length_cons] at hids
    rw [List.zipIdx_cons] at htables
    obtain ⟨hfits, hmeta⟩ := htables (g, nextTableId) List.mem_cons_self
    exact ⟨by omega, hfits, hmeta, hwal, fun _ => ⟨by omega, hwal, fun p hp =>
      htables p (List.mem_cons_of_mem _ hp)⟩⟩
  · rintro ⟨hid, hfits, hmeta, hwal, hrest⟩
    by_cases hnil : gens = []
    · subst hnil
      refine ⟨?_, hwal, fun p hp => ?_⟩
      · rw [List.length_singleton]
        omega
      · rw [List.zipIdx_cons, List.zipIdx_nil, List.mem_singleton] at hp
        subst hp
        exact ⟨hfits, hmeta⟩
    · obtain ⟨hids, -, htables⟩ := hrest hnil
      refine ⟨?_, hwal, fun p hp => ?_⟩
      · rw [List.length_cons]
        omega
      · rw [List.zipIdx_cons] at hp
        rcases List.mem_cons.mp hp with rfl | hp
        · exact ⟨hfits, hmeta⟩
        · exact htables p hp

omit [EngineEnv] in
/-- The edits that a flush of some generations commits. -/
def flushEdits (dir : List UInt8) (nextTableId nextSequence : UInt64) (walId : UInt32) :
    List (List InternalRecord) → List VersionEdit
  | [] => []
  | g :: gens =>
    (tableMetaOf dir nextTableId.toUInt32 g).toList.map
        (fun t => generationEdit t nextTableId nextSequence walId gens.isEmpty) ++
      flushEdits dir (nextTableId + 1) nextSequence walId gens

/-- The engine after a flush of all generations. -/
structure AllFlushed (dir : List UInt8) (n : Nat) (v : View) (e e' : Engine LogObject) (d d' : Disk EditLog) :
    Prop where
  live : Live n e' d' v
  immutableTables : e'.mem.immutableTables = []
  mutableTable : e'.mem.mutableTable = []
  options : e'.options = e.options
  log : EditLog.editsOf d'.manifest = EditLog.editsOf d.manifest ++ flushEdits dir e.counters.nextTableId e.nextSequence
    e.currentWalId (e.mem.immutableTables.map ImmutableTable.table)
  valid : ∀ edit ∈ flushEdits dir e.counters.nextTableId e.nextSequence e.currentWalId
    (e.mem.immutableTables.map ImmutableTable.table), edit.Valid

omit [EngineEnv] in
/-- Room for all generations is room for the oldest, and after its flush for the rest. -/
theorem Flushed.roomForAll_iff {e' : Engine LogObject} {d' : Disk EditLog} (hroom : Room dir e oldest rest)
    (hf : Flushed dir n v oldest rest e e' d d') :
    (rest ≠ [] → RoomForAll dir e'.counters.nextTableId.toNat e'.currentWalId.toNat
      (rest.map ImmutableTable.table)) ↔
      RoomForAll dir e.counters.nextTableId.toNat e.currentWalId.toNat
        (oldest.table :: rest.map ImmutableTable.table) := by
  have hsucc : e'.counters.nextTableId.toNat = e.counters.nextTableId.toNat + 1 := by
    have hid := hroom.tableId
    rw [hf.nextTableId, UInt64.toNat_add, show (1 : UInt64).toNat = 1 from rfl]
    omega
  rw [hsucc]
  constructor
  · intro hall
    refine roomForAll_cons.mpr ⟨hroom.tableId, hroom.table, hroom.metadata, ?_, fun hne => ?_⟩
    · by_cases hnil : rest = []
      · exact hroom.walId hnil
      · rw [← hf.walId hnil]
        exact (hall hnil).walId
    · have hnil : rest ≠ [] := fun h0 => hne (by rw [h0]; rfl)
      rw [← hf.walId hnil]
      exact hall hnil
  · intro hall hnil
    obtain ⟨-, -, -, -, htail⟩ := roomForAll_cons.mp hall
    rw [hf.walId hnil]
    exact htail fun h0 => hnil (List.map_eq_nil_iff.mp h0)

/-- One round of the loop flushes the oldest generation. -/
theorem flushLoop_cons (hi : e.mem.immutableTables = oldest :: rest) :
    Engine.flushLoop (oldest :: rest).length (.still e d) =
      (Engine.flushGeneration oldest >>= fun _ => Engine.flushLoop rest.length) (.still e d) := by
  have hhas : (World.still e d).engine.mem.hasImmutable = true := by
    show e.mem.hasImmutable = true
    unfold MemTable.hasImmutable
    rw [hi]
    rfl
  have hold : Engine.flushOldestImmutable (.still e d) = Engine.flushGeneration oldest (.still e d) := by
    unfold Engine.flushOldestImmutable
    rw [bind_ok (get_apply _), show (World.still e d).engine.mem.immutableTables = _ from hi]
  rw [List.length_cons, Engine.flushLoop, bind_ok (get_apply _), if_pos hhas, bind_apply, bind_apply, hold]

/-- **The flush of all generations** succeeds exactly when there is room for them. -/
theorem flushLoop_still (hformat : EngineEnv.toTableFormat = tableFormat dir) (h : Live n e d v)
    (hmut : e.mem.mutableTable = []) {queue : List ImmutableTable} (hi : e.mem.immutableTables = queue) :
    if queue ≠ [] → RoomForAll dir e.counters.nextTableId.toNat e.currentWalId.toNat
      (queue.map ImmutableTable.table) then
      ∃ e' d', Engine.flushLoop queue.length (.still e d) = (.ok (), .still e' d') ∧ AllFlushed dir n v e e' d d'
    else ∃ x w, Engine.flushLoop queue.length (.still e d) = (.err x, w) := by
  induction queue generalizing e d with
  | nil =>
    rw [if_pos fun hne => absurd rfl hne]
    refine ⟨e, d, rfl, h, hi, hmut, rfl, ?_, ?_⟩
    · rw [hi]
      exact (List.append_nil _).symm
    · rw [hi]
      intro edit hedit
      cases hedit
  | cons oldest rest ih =>
    have hgen := flushGeneration_still hformat h hi hmut
    have hcons : (oldest :: rest ≠ [] → RoomForAll dir e.counters.nextTableId.toNat e.currentWalId.toNat
        ((oldest :: rest).map ImmutableTable.table)) ↔
          RoomForAll dir e.counters.nextTableId.toNat e.currentWalId.toNat
            (oldest.table :: rest.map ImmutableTable.table) :=
      ⟨fun h => h (List.cons_ne_nil _ _), fun h _ => h⟩
    rw [flushLoop_cons hi]
    by_cases hroom : Room dir e oldest rest
    · rw [if_pos hroom] at hgen
      obtain ⟨e₁, d₁, hrun, hf⟩ := hgen
      have hmem : e₁.mem.mutableTable = [] ∧ e₁.mem.immutableTables = rest := by
        rw [hf.mem]
        exact ⟨hmut, rfl⟩
      have hrest := ih hf.live hmem.1 hmem.2
      rw [bind_ok hrun]
      by_cases hall : rest ≠ [] → RoomForAll dir e₁.counters.nextTableId.toNat e₁.currentWalId.toNat
          (rest.map ImmutableTable.table)
      · rw [if_pos hall] at hrest
        rw [if_pos (hcons.mpr ((hf.roomForAll_iff hroom).mp hall))]
        obtain ⟨e₂, d₂, hrun₂, hall₂⟩ := hrest
        obtain ⟨t, hof, hedit, hlog⟩ := hf.log
        have hedits : flushEdits dir e.counters.nextTableId e.nextSequence e.currentWalId
            (e.mem.immutableTables.map ImmutableTable.table) =
              generationEdit t e.counters.nextTableId e.nextSequence e.currentWalId rest.isEmpty ::
                flushEdits dir e₁.counters.nextTableId e₁.nextSequence e₁.currentWalId
                  (e₁.mem.immutableTables.map ImmutableTable.table) := by
          rw [hi, hmem.2, List.map_cons, flushEdits, hof, hf.nextTableId, hf.nextSequence]
          by_cases hnil : rest = []
          · subst hnil
            rfl
          · rw [hf.walId hnil, List.isEmpty_map]
            rfl
        refine ⟨e₂, d₂, hrun₂, hall₂.live, hall₂.immutableTables, hall₂.mutableTable,
          hall₂.options.trans hf.options, ?_, ?_⟩
        · rw [hall₂.log, hlog, hedits]
          exact List.append_assoc _ _ _
        · rw [hedits]
          intro edit hmem'
          rcases List.mem_cons.mp hmem' with rfl | hmem'
          · exact hedit
          · exact hall₂.valid edit hmem'
      · rw [if_neg hall] at hrest
        rw [if_neg fun h => hall ((hf.roomForAll_iff hroom).mpr (hcons.mp h))]
        exact hrest
    · rw [if_neg hroom] at hgen
      obtain ⟨x, w, hrun⟩ := hgen
      rw [if_neg]
      · exact ⟨x, w, bind_err hrun⟩
      · intro hall
        obtain ⟨hid, hfits, hmeta, hwal, -⟩ := roomForAll_cons.mp (hcons.mp hall)
        exact hroom ⟨hid, hfits, hmeta, fun _ => hwal⟩

end

section

variable {φ ω : Type} [Zlib] [ManifestStore φ ω] [EngineEnv] {e : Engine ω} {d : Disk φ}

omit [Zlib] [ManifestStore φ ω] [EngineEnv] in
theorem ensureOpen_still (hclosed : e.closed = false) (hopened : e.opened = true) :
    Engine.ensureOpen (World.still e d) = (.ok (), .still e d) := by
  have hopen : (!(World.still e d).engine.closed) = true := by
    show (!e.closed) = true
    rw [hclosed]
    rfl
  unfold Engine.ensureOpen
  rw [bind_ok (get_apply _)]
  refine (ensure_bind_true hopen).trans ?_
  rw [ensure_apply, if_pos (show (World.still e d).engine.opened = true from hopened)]

/-- A flush first makes a table of every generation, and then compacts. -/
theorem flush_start (hclosed : e.closed = false) (hopened : e.opened = true) :
    Engine.flush (.still e d) =
      (Engine.flushLoop e.mem.freezeMutable.immutableCount >>= fun _ => Engine.maybeCompactUnlocked)
        (.still { e with mem := e.mem.freezeMutable } d) :=
  bind_ok (ensureOpen_still hclosed hopened)

omit [Zlib] in
theorem maybeCompact_idle (hoff : e.options.compaction.enableBackgroundCompaction = false) :
    Engine.maybeCompactUnlocked (World.still e d) = (.ok (), .still e d) := by
  unfold Engine.maybeCompactUnlocked
  rw [bind_ok (get_apply _), if_neg]
  · rfl
  · show ¬ e.options.compaction.enableBackgroundCompaction = true
    rw [hoff]
    exact Bool.false_ne_true

end

/-! ## Flushing over the bytes of the manifest -/

/-- Table ids, WAL ids, the table format and the manifest have room for everything in memory. -/
def FlushFits {ω : Type} (dir : List UInt8) (e : Engine ω) : Prop :=
  e.mem.freezeMutable.immutableTables ≠ [] →
    RoomForAll dir e.counters.nextTableId.toNat e.currentWalId.toNat
      (e.mem.freezeMutable.immutableTables.map ImmutableTable.table)

section

variable [Zlib] {dir : List UInt8}

/-- The edits of a flush, one behind the other from the end of the manifest on, have no field that crosses the edge
of a block. -/
structure FlushLands (dir : List UInt8) (w : World (List UInt8) Manifest) : Prop where
  fields : FitsAt MANIFEST_BLOCK_SIZE (w.disk.manifest.getD []).length
    ((flushEdits dir w.engine.counters.nextTableId w.engine.nextSequence w.engine.currentWalId
      (w.engine.mem.freezeMutable.immutableTables.map ImmutableTable.table)).flatMap VersionEdit.record)

theorem editsFit_of_fitsAt {off : Nat} {edits : List VersionEdit} (hvalid : ∀ edit ∈ edits, edit.Valid)
    (h : FitsAt MANIFEST_BLOCK_SIZE off (edits.flatMap VersionEdit.record)) : EditsFit off edits := by
  induction edits generalizing off with
  | nil => trivial
  | cons edit edits ih =>
    rw [List.flatMap_cons, fitsAt_append] at h
    exact ⟨hvalid edit List.mem_cons_self, h.1, ih (fun x hx => hvalid x (List.mem_cons_of_mem _ hx)) h.2⟩

variable [EngineEnv] {n : Nat} {v : View} {w : World (List UInt8) Manifest} {w' : World EditLog LogObject}

/-- The flush of all generations over the bytes. -/
theorem flushLoop_bytes (hformat : EngineEnv.toTableFormat = tableFormat dir) (hrel : (logOf True).Rel w w')
    (hlive : Live n w'.engine w'.disk v) :
    let queue := w.engine.mem.freezeMutable.immutableTables
    let start : World (List UInt8) Manifest := .still { w.engine with mem := w.engine.mem.freezeMutable } w.disk
    (FlushFits dir w.engine → FlushLands dir w → ∃ e d e' d',
      Engine.flushLoop queue.length start = (.ok (), .still e d) ∧
      (logOf False).Rel (.still e d) (.still e' d') ∧
      AllFlushed dir n v { w'.engine with mem := w'.engine.mem.freezeMutable } e' w'.disk d') ∧
    (¬ FlushFits dir w.engine → ∃ x t, Engine.flushLoop queue.length start = (.err x, t)) := by
  obtain ⟨⟨he, hd⟩, -, ht, -⟩ := hrel
  intro queue start
  have hmem : w'.engine.mem = w.engine.mem := by
    rw [he]
    rfl
  have hloop := @flushLoop_still _ _ dir n _ w'.disk v hformat hlive.freeze w'.engine.mem.mutableTable_freeze queue
    (by rw [hmem])
  have hfits : (queue ≠ [] → RoomForAll dir w'.engine.counters.nextTableId.toNat w'.engine.currentWalId.toNat
      (queue.map ImmutableTable.table)) ↔ FlushFits dir w.engine := by
    rw [he]
    exact Iff.rfl
  have hsim : Simulates (logOf False) (Engine.flushLoop queue.length) (Engine.flushLoop queue.length) :=
    Engine.simulates_flushLoop queue.length
  have hstart : (logOf False).Rel start (.still { w'.engine with mem := w'.engine.mem.freezeMutable } w'.disk) := by
    refine ⟨⟨?_, hd⟩, ?_, ht, fun _ => rfl⟩
    · show ({ w'.engine with mem := w'.engine.mem.freezeMutable } : Engine LogObject) = _
      rw [he]
      rfl
    · funext site
      show [] = otherFaults (fun _ => []) site
      unfold otherFaults
      split <;> rfl
  constructor
  · intro hroom hlands
    obtain ⟨e', d', hrun, hall⟩ := (if_pos (hfits.mpr hroom)).mp hloop
    have hgood : EditsFit ManifestHeader.diskSize (EditLog.editsOf d'.manifest) := by
      have hm : w'.engine.manifest = some ⟨false⟩ := hlive.manifest
      unfold Tracks at ht
      cases hm' : w.engine.manifest with
      | none =>
        rw [he, Engine.asLog, hm'] at hm
        cases hm
      | some m =>
        rw [hm'] at ht
        obtain ⟨k, edits, hlog, hrec⟩ := ht
        have hlength : (w.disk.manifest.getD []).length = ManifestHeader.diskSize + (editsBytes edits).length :=
          hrec.fileLength_eq
        rw [hall.log, hlog, show EditLog.editsOf (some ⟨edits⟩) = edits from rfl]
        refine editsFit_append.mpr ⟨hrec.fit, editsFit_of_fitsAt hall.valid ?_⟩
        rw [← hlength]
        rw [he]
        exact hlands.fields
    obtain ⟨t, hbytes, hrel'⟩ := hsim.of_good hstart hrun fun hbad => hbad id hgood
    have hstill : t = .still t.engine t.disk := by
      unfold World.still
      rw [← hrel'.2.2.2 id]
    rw [hstill] at hbytes hrel'
    exact ⟨_, _, e', d', hbytes, hrel', hall⟩
  · intro hroom
    exact hsim.of_err id hstart ((if_neg fun h => hroom (hfits.mp h)).mp hloop)

omit [EngineEnv] in
theorem isOpen_of_log (hrel : (logOf True).Rel w w') (hlive : Live n w'.engine w'.disk v) :
    w.engine.closed = false ∧ w.engine.opened = true := by
  have hclosed := hlive.opened.closed
  have hopened := hlive.opened.opened
  rw [hrel.1.1] at hclosed hopened
  exact ⟨hclosed, hopened⟩

/-- A flush without room is an error. -/
theorem flush_noRoom {o : DBOptions} {exists_ : Bool} {f : Site → List Fault} {cs : List Call}
    (hformat : EngineEnv.toTableFormat = tableFormat dir)
    (h : session cs ⟨{ options := o }, Disk.empty exists_, f⟩ = (.ok (), w)) (hroom : ¬ FlushFits dir w.engine) :
    ∃ x w', Engine.flush (.still w.engine w.disk) = (.err x, w') := by
  obtain ⟨w', hlog, hrel⟩ := session_log h
  obtain ⟨n, v, -, hlive, -⟩ := session_up hlog
  obtain ⟨hclosed, hopened⟩ := isOpen_of_log hrel hlive
  obtain ⟨x, t, hrun⟩ := (flushLoop_bytes hformat hrel hlive).2 hroom
  exact ⟨x, t, (flush_start hclosed hopened).trans (bind_err hrun)⟩

end

/-! ## A flush with room -/

theorem fitsAt_of_le {blockSize off : Nat} {ds : List (List UInt8)} (h : off + ds.flatten.length ≤ blockSize) :
    FitsAt blockSize off ds := by
  induction ds generalizing off with
  | nil => trivial
  | cons d ds ih =>
    rw [List.flatten_cons, List.length_append] at h
    refine ⟨?_, ih (by omega)⟩
    by_cases hd : d = []
    · exact .inl hd
    · have hpos := List.length_pos_iff.mpr hd
      rw [Nat.mod_eq_of_lt (by omega)]
      exact .inr (by omega)

section

variable [Zlib]

/-- The size of a flush's edit. -/
theorem length_switchEdit_le (t : TableMeta) (nextTableId nextSequence : UInt64) (walId : Option UInt64) :
    (switchEdit t nextTableId nextSequence walId).record.flatten.length ≤
      124 + t.path.length + t.smallestKey.size + t.largestKey.size := by
  have htable := t.flatten_fields_length
  rw [VersionEdit.length_record]
  cases walId with
  | none =>
    simp [switchEdit, Engine.flushEdit, VersionEdit.fields, VersionEdit.counterFields, VersionEdit.countFields,
      VersionEdit.optFields, EditHeader.diskSize, htable]
    omega
  | some walId =>
    simp [switchEdit, Engine.flushEdit, VersionEdit.fields, VersionEdit.counterFields, VersionEdit.countFields,
      VersionEdit.optFields, EditHeader.diskSize, htable]
    omega

/-- The path and the outer keys in the metadata of a generation's table. -/
theorem tableMetaOf_outer {dir : List UInt8} {tableId : UInt32} {rs : List InternalRecord} (hordered : Ordered rs)
    (hvalid : ∀ r ∈ rs, r.type.isValid = true) {first last : InternalRecord} (hfirst : rs.head? = some first)
    (hlast : rs.getLast? = some last) {m : TableMeta} (h : tableMetaOf dir tableId rs = some m) :
    m.path = makeTablePath tableId dir ∧ m.smallestKey = first.key ∧ m.largestKey = last.key := by
  have hne : rs ≠ [] := by
    rintro rfl
    cases hfirst
  unfold tableMetaOf at h
  obtain ⟨s, hs, h⟩ := Option.bind_eq_some_iff.mp h
  obtain ⟨⟨t, bytes⟩, hwrite, h⟩ := Option.bind_eq_some_iff.mp h
  have hwrite' : writeTable dir tableId rs = .ok (t, bytes) := by
    cases hw : writeTable dir tableId rs with
    | error e =>
      rw [hw] at hwrite
      cases hwrite
    | ok p =>
      rw [hw] at hwrite
      cases hwrite
      rfl
  cases hm : makeTableMeta tableId 0 t.layout s with
  | error e =>
    dsimp only at h
    rw [hm] at h
    cases h
  | ok m' =>
    dsimp only at h
    rw [hm] at h
    cases h
    obtain ⟨hpath, -⟩ := writeTable_summary hne hordered hvalid hwrite' hs
    obtain ⟨-, -, hmin, hmax⟩ := makeTableMeta_ok hm
    obtain ⟨hmin', hmax'⟩ := summarize_outer hordered hvalid hs hfirst hlast
    exact ⟨(makeTableMeta_valid hm).1.trans hpath, hmin.trans hmin', hmax.trans hmax'⟩

end

/-- Tables in the directory "d", and memory that is never full. -/
@[reducible] def roomyEnv : EngineEnv := @fileEnv documentedZlib [100] (fun _ => 0) 8

/-- A new database, with the bytes of its manifest. -/
def newBytes : World (List UInt8) Manifest := ⟨{ options := plainOptions }, Disk.empty false, fun _ => []⟩

/-- Writes of two keys, one of them empty, and a removal. -/
def fewWrites : List Call := [.put [97] [1], .put [] [2], .remove [97]]

/-- The database after these writes. -/
def writtenWorld : World (List UInt8) Manifest :=
  (@session documentedZlib roomyEnv _ _ (@byteStore documentedZlib) fewWrites newBytes).2

theorem writtenWorld_ok :
    @session documentedZlib roomyEnv _ _ (@byteStore documentedZlib) fewWrites newBytes = (.ok (), writtenWorld) :=
  run_eq (by decide +kernel)

theorem writtenWorld_fits : FlushFits [100] writtenWorld.engine := by
  have hroom : RoomForAll [100] writtenWorld.engine.counters.nextTableId.toNat writtenWorld.engine.currentWalId.toNat
      (writtenWorld.engine.mem.freezeMutable.immutableTables.map ImmutableTable.table) := by
    decide +kernel
  exact fun _ => hroom

/-- The only generation of that database begins with the empty key and ends with a short one. -/
theorem writtenWorld_generation :
    (writtenWorld.engine.mem.freezeMutable.immutableTables.map ImmutableTable.table).length = 1 ∧
      ∀ rs ∈ writtenWorld.engine.mem.freezeMutable.immutableTables.map ImmutableTable.table,
        (rs.Pairwise fun a b => internalBefore a b = true) ∧ (∀ r ∈ rs, r.type.isValid = true) ∧
          rs.head?.map (fun r => r.key.size) = some 0 ∧ rs.getLast?.map (fun r => r.key.size) = some 1 := by
  decide +kernel

theorem writtenWorld_manifest : (writtenWorld.disk.manifest.getD []).length = 24 ∧
    (makeTablePath writtenWorld.engine.counters.nextTableId.toUInt32 [100]).length ≤ 100 := by
  decide +kernel

theorem writtenWorld_lands : @FlushLands documentedZlib [100] writtenWorld := by
  let _ := documentedZlib
  have hgeneration := writtenWorld_generation
  have hmanifest := writtenWorld_manifest
  constructor
  generalize writtenWorld.engine = e at hgeneration hmanifest ⊢
  generalize writtenWorld.disk.manifest.getD [] = b at hmanifest ⊢
  obtain ⟨hcount, hall⟩ := hgeneration
  obtain ⟨hfile, hpath⟩ := hmanifest
  obtain ⟨rs, hgens⟩ := List.length_eq_one_iff.mp hcount
  obtain ⟨hordered, hvalid, hhead, htail⟩ := hall rs (by rw [hgens]; exact List.mem_singleton_self _)
  obtain ⟨first, hfirst, hfirstSize⟩ := Option.map_eq_some_iff.mp hhead
  obtain ⟨last, hlast, hlastSize⟩ := Option.map_eq_some_iff.mp htail
  rw [hgens, flushEdits, flushEdits, List.append_nil, hfile]
  cases hmeta : tableMetaOf [100] e.counters.nextTableId.toUInt32 rs with
  | none => trivial
  | some t =>
    obtain ⟨htpath, hmin, hmax⟩ := tableMetaOf_outer hordered hvalid hfirst hlast hmeta
    have hle := length_switchEdit_le t e.counters.nextTableId e.nextSequence (some (e.currentWalId + 1).toUInt64)
    rw [htpath, hmin, hmax] at hle
    refine fitsAt_of_le ?_
    show 24 + ((generationEdit t _ _ _ true).record ++ []).flatten.length ≤ MANIFEST_BLOCK_SIZE
    rw [List.append_nil, show MANIFEST_BLOCK_SIZE = 4096 from rfl]
    unfold generationEdit
    rw [if_pos rfl]
    omega

theorem fewWrites_values : valueOf (mutations fewWrites) [] = some [2] ∧
    valueOf (mutations fewWrites) [97] = none := by
  decide

section

variable [Zlib]

/-- A fragment adds its header and less than one header of padding to its payload. -/
theorem fragsEnd_fragmentsOf_le (r : InternalRecord) (fuel off : Nat) (first : Bool) (rest : List UInt8) :
    fragsEnd off (fragmentsOf r fuel off first rest) ≤ off + 45 * rest.length := by
  induction fuel generalizing off first rest with
  | zero => exact Nat.le_add_right _ _
  | succ fuel ih =>
    rw [fragmentsOf]
    split
    · exact Nat.le_add_right _ _
    next hne =>
    have hpos : 0 < rest.length := List.length_pos_iff.mpr hne
    have hpiece := pieceSize_pos off hpos
    have hle := pieceSize_le (fragStart off) rest.length
    have hpad := padSize_header off
    have hih := ih (fragStart off + FragmentHeader.diskSize + pieceSize (fragStart off) rest.length) false
      (rest.drop (pieceSize (fragStart off) rest.length))
    rw [List.length_drop] at hih
    have hsize : FragmentHeader.diskSize = 22 := rfl
    have hstart : fragStart off ≤ off + 22 := by
      unfold fragStart
      rw [hpad]
      split <;> omega
    have hfrag : (sealFragment (mkFragment r first (pieceSize (fragStart off) rest.length == rest.length)
        (rest.take (pieceSize (fragStart off) rest.length)))).diskSize =
          FragmentHeader.diskSize + pieceSize (fragStart off) rest.length := by
      show FragmentHeader.diskSize + (rest.take _).length = _
      rw [List.length_take, Nat.min_eq_left hle]
    dsimp only
    rw [fragsEnd, hfrag, ← Nat.add_assoc]
    omega

theorem length_encodeRecord_le (off : Nat) (r : InternalRecord) :
    (encodeRecord off r).length ≤ 45 * (8 + r.key.size + r.value.size) := by
  have hlen : (recordPayload r).length = 8 + r.key.size + r.value.size := by
    simp [recordPayload, ArenaEntry.size]
    omega
  have hend := length_encodeFragments (recordFragments off r) off
  have hle : fragsEnd off (recordFragments off r) ≤ off + 45 * (recordPayload r).length :=
    fragsEnd_fragmentsOf_le r _ off true _
  unfold encodeRecord
  omega

variable {φ ω : Type} [ManifestStore φ ω] [EngineEnv] {e : Engine ω} {d : Disk φ}

omit [Zlib] [ManifestStore φ ω] [EngineEnv] in
theorem withWal_still {id : UInt32} (hwal : e.wal = some ⟨id, true⟩) (k : WALHandle → EngineM φ ω Unit) :
    Engine.withWal k (.still e d) = k ⟨id, true⟩ (.still e d) := by
  unfold Engine.withWal
  rw [bind_ok (get_apply _), show (World.still e d).engine.wal = _ from hwal]

omit [Zlib] [ManifestStore φ ω] [EngineEnv] in
theorem syncOnWrite_still {id : UInt32} (hwal : e.wal = some ⟨id, true⟩) :
    Engine.syncOnWrite (World.still e d) = (.ok (), .still e d) := by
  unfold Engine.syncOnWrite
  rw [bind_ok (get_apply _)]
  split
  · rw [withWal_still hwal]
    exact (ensure_bind_true rfl).trans (touch_still e d _)
  · rfl

omit [Zlib] [ManifestStore φ ω] [EngineEnv] in
theorem applyRecord_still {r : InternalRecord} {m : MemTable} (hm : e.mem.apply r = .ok m) :
    Engine.applyRecord r (World.still e d) = (.ok (), .still { e with mem := m } d) := by
  unfold Engine.applyRecord
  refine (bind_ok (touch_still e d _)).trans ?_
  rw [bind_ok (get_apply _), show (World.still e d).engine.mem.apply r = _ from hm]
  rfl

omit [Zlib] [ManifestStore φ ω] [EngineEnv] in
theorem walOffset_still {id : UInt32} (hwal : e.wal = some ⟨id, true⟩) :
    Engine.walOffset (.still e d) = ((d.wals id).getD []).length := by
  unfold Engine.walOffset
  rw [show (World.still e d).engine.wal = _ from hwal]
  rfl

/-- Below the two limits a write flushes nothing. -/
theorem maybeFlush_idle (husage : EngineEnv.memoryUsage e.mem.mutableTable < e.options.memtable.sizeLimit)
    (hwal : Engine.walOffset (.still e d) < e.options.wal.fileSizeLimit) :
    Engine.maybeFlushUnlocked (.still e d) = (.ok (), .still e d) := by
  unfold Engine.maybeFlushUnlocked
  rw [bind_ok (get_apply _), if_neg]
  · rfl
  · rw [Bool.or_eq_true, decide_eq_true_iff, decide_eq_true_iff]
    rintro (husage' | hwal')
    · exact absurd husage (Nat.not_lt.mpr husage')
    · exact absurd hwal (Nat.not_lt.mpr hwal')

/-- **A write asks only for room in memory and in the log.**  It is acknowledged, whatever the table format has room
for. -/
theorem put_still (hclosed : e.closed = false) (hopened : e.opened = true) {walId : UInt32}
    (hopen : e.wal = some ⟨walId, true⟩) {key value : List UInt8} {k x : ArenaEntry}
    (hk : ArenaEntry.makeEntry key = some k) (hx : ArenaEntry.makeEntry value = some x)
    (hseq : e.nextSequence.toNat ≠ 2 ^ 64 - 1) {m : MemTable}
      (hm : e.mem.apply ⟨k, x, .put, e.nextSequence⟩ = .ok m)
    (husage : EngineEnv.memoryUsage m.mutableTable < e.options.memtable.sizeLimit)
    (hwal : Engine.walOffset (.still e d) + 45 * (8 + k.size + x.size) < e.options.wal.fileSizeLimit) :
    ∃ d', Engine.put key value (.still e d) =
      (.ok (), .still { e with mem := m, nextSequence := e.nextSequence + 1 } d') := by
  generalize hget : (d.wals walId).getD [] = b
  have hstart : (⟨b, b.length, none, ⟨.writeFailed, "append"⟩⟩ : Writer Status).Synced := rfl
  have hwrite := (write_isAppend (r := ⟨k, x, .put, e.nextSequence⟩) rfl _ hstart).trans (append_free rfl)
  have happend := appendWal_still e d .putAppend walId hget hwrite
  obtain ⟨b', hb', hlen⟩ : ∃ b', appendWal .putAppend walId (WALWriter.write ⟨k, x, .put, e.nextSequence⟩)
      (.still e d) = (.ok (), .still e (d.setWal walId (some b'))) ∧
        b'.length ≤ b.length + 45 * (8 + k.size + x.size) := by
    refine ⟨_, happend, ?_⟩
    have hle := length_encodeRecord_le b.length ⟨k, x, .put, e.nextSequence⟩
    show (b ++ encodeRecord b.length ⟨k, x, .put, e.nextSequence⟩).length ≤ _
    rw [List.length_append]
    exact Nat.add_le_add_left hle _
  refine ⟨d.setWal walId (some b'), ?_⟩
  have hoffset : Engine.walOffset (.still e d) = b.length := by rw [walOffset_still hopen, hget]
  have hlog' : Engine.withWal (fun wal => writeWal .putAppend wal ⟨k, x, .put, e.nextSequence⟩) (.still e d) =
      (.ok (), .still e (d.setWal walId (some b'))) :=
    (withWal_still hopen _).trans ((ensure_bind_true rfl).trans hb')
  have hidle := maybeFlush_idle (e := { e with mem := m, nextSequence := e.nextSequence + 1 })
    (d := d.setWal walId (some b')) husage (by
    refine (walOffset_still hopen).trans_lt ?_
    rw [Disk.setWal_wals, Option.getD_some]
    show b'.length < e.options.wal.fileSizeLimit
    omega)
  have hkey : Engine.makeEntry key = .ok k := by rw [Engine.makeEntry, hk]
  have hvalue : Engine.makeEntry value = .ok x := by rw [Engine.makeEntry, hx]
  unfold Engine.put Engine.putImpl
  refine (bind_ok (ensureOpen_still hclosed hopened)).trans ((ensure_bind_true rfl).trans ?_)
  rw [bind_ok (get_apply _)]
  refine (ensure_bind_true (by simpa [World.still] using hseq)).trans ?_
  rw [hkey, bind_ok (lift_ok _ _), if_neg (by decide), hvalue, bind_ok (lift_ok _ _)]
  refine (bind_ok hlog').trans ((bind_ok (syncOnWrite_still hopen)).trans ?_)
  exact (bind_ok (applyRecord_still hm)).trans ((bind_ok (modifyEngine_still _ _ _)).trans hidle)

end

/-! ## A value that is written and never flushed -/

section

variable [Zlib] [EngineEnv] {dir : List UInt8}

/-- A record in memory for which no data block has room makes every flush fail. -/
theorem flush_fails {o : DBOptions} {exists_ : Bool} {f : Site → List Fault} {cs : List Call}
    {w : World (List UInt8) Manifest} (hformat : EngineEnv.toTableFormat = tableFormat dir)
    (h : session cs ⟨{ options := o }, Disk.empty exists_, f⟩ = (.ok (), w)) {r : InternalRecord}
    (hr : r ∈ w.engine.mem.mutableTable) (hbig : PAYLOAD_CAPACITY < (DataSection.Payload.ofRecord r).diskSize) :
    ∃ x w', Engine.flush (.still w.engine w.disk) = (.err x, w') := by
  refine flush_noRoom hformat h fun hroom => ?_
  have hne : w.engine.mem.mutableTable ≠ [] := List.ne_nil_of_mem hr
  have hgens : w.engine.mem.freezeMutable.immutableTables =
      w.engine.mem.immutableTables ++ [⟨w.engine.mem.nextGenerationId, w.engine.mem.mutableTable⟩] := by
    rw [MemTable.freezeMutable, if_neg hne]
  have hmem : w.engine.mem.mutableTable ∈ w.engine.mem.freezeMutable.immutableTables.map ImmutableTable.table := by
    rw [hgens, List.map_append]
    exact List.mem_append.mpr (.inr List.mem_cons_self)
  obtain ⟨i, hi, hget⟩ := List.mem_iff_getElem.mp hmem
  have hqueue : w.engine.mem.freezeMutable.immutableTables ≠ [] := by
    rw [hgens]
    simp
  have htable := (hroom hqueue).tables
    (w.engine.mem.mutableTable, w.engine.counters.nextTableId.toNat + i) (by
      rw [List.mk_mem_zipIdx_iff_le_and_getElem?_sub, Nat.add_sub_cancel_left]
      exact ⟨Nat.le_add_right _ _, by rw [List.getElem?_eq_getElem hi, hget]⟩)
  exact absurd (htable.1.record r hr) (Nat.not_le.mpr hbig)

end

/-- A value for which a data block has no room, not even with a key of one byte. -/
def longValue : List UInt8 := List.replicate 4062 0

theorem length_longValue : longValue.length = 4062 := List.length_replicate

/-- A new database after its open. -/
def opened : World (List UInt8) Manifest :=
  (@Engine.«open» (List UInt8) Manifest documentedZlib (@byteStore documentedZlib) newBytes).2

theorem opened_ok :
    @Engine.«open» (List UInt8) Manifest documentedZlib (@byteStore documentedZlib) newBytes = (.ok (), opened) :=
  run_eq (by decide +kernel)

theorem opened_still : opened = .still opened.engine opened.disk := by
  -- one evaluation of the open for all sites
  have hsites : ∀ site ∈ ([.putAppend, .putSync, .putApply, .flushTable, .flushRemove, .flushCreate, .flushUndo,
      .flushCommit, .flushSwitch, .flushClose, .flushDrop, .compactTables, .compactCommit, .compactDrop, .openDirs,
      .openManifest, .openHeader, .openCreate, .openRemove, .openReplace, .openWrite, .openSync, .openUndo, .openCommit,
      .openDrop, .closeWal, .closeManifest] : List Site), opened.faults site = [] := by
    decide +kernel
  have hfaults : opened.faults = fun _ => [] := by
    funext site
    exact hsites site (by cases site <;> decide)
  rw [World.still, ← hfaults]

theorem opened_empty : opened.engine.mem.mutableTable = [] ∧ opened.engine.mem.immutableTables = [] ∧
    opened.engine.nextSequence = 1 ∧ opened.engine.options = plainOptions ∧ Engine.walOffset opened ≤ 100 ∧
    opened.engine.closed = false ∧ opened.engine.opened = true ∧ opened.engine.wal = some ⟨1, true⟩ := by
  decide +kernel

/-- The value is acknowledged, and leaves a record for which no data block has room. -/
theorem longValue_acknowledged : letI := documentedZlib; letI := roomyEnv
    ∃ (w : World (List UInt8) Manifest) (r : InternalRecord), session [.put [97] longValue] newBytes = (.ok (), w) ∧
      r ∈ w.engine.mem.mutableTable ∧ PAYLOAD_CAPACITY < (DataSection.Payload.ofRecord r).diskSize := by
  let _ := documentedZlib
  let _ := roomyEnv
  obtain ⟨hmut, -, hseq, hoptions, hoffset, hclosed, hopened, hwal⟩ := opened_empty
  obtain ⟨k, hk⟩ : ∃ k, ArenaEntry.makeEntry [97] = some k := ⟨_, rfl⟩
  obtain ⟨x, hx, hbytes⟩ : ∃ x, ArenaEntry.makeEntry longValue = some x ∧ x.bytes = longValue := by
    have hlt : longValue.length < 2 ^ 32 := by
      rw [length_longValue]
      omega
    exact ⟨⟨longValue, hlt⟩, dif_pos hlt, rfl⟩
  have hksize : k.size = 1 := by
    cases hk
    rfl
  have hxsize : x.size = 4062 := by rw [ArenaEntry.size, hbytes, length_longValue]
  have hm : opened.engine.mem.apply ⟨k, x, .put, opened.engine.nextSequence⟩ =
      .ok { opened.engine.mem with mutableTable := [⟨k, x, .put, opened.engine.nextSequence⟩] } := by
    rw [MemTable.apply, hmut]
    rfl
  obtain ⟨d, hput⟩ := put_still hclosed hopened hwal (d := opened.disk) hk hx (by rw [hseq]; decide) hm (by
    rw [hoptions]
    exact Nat.succ_pos _) (by
    rw [← opened_still, hksize, hxsize, hoptions]
    have hlimit : plainOptions.wal.fileSizeLimit = 67108864 := rfl
    omega)
  rw [← opened_still] at hput
  refine ⟨_, ⟨k, x, .put, opened.engine.nextSequence⟩, (bind_ok opened_ok).trans (bind_ok hput),
    List.mem_cons_self, ?_⟩
  show 4087 < 25 + k.size + x.size
  rw [hksize, hxsize]
  omega

end Kvdb
