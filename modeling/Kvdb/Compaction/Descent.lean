import Kvdb.Compaction.Visibility

/-!
# Compactions descend

A compaction may write more tables than it read and more bytes than it read, on
a level that was full before.  What goes down is where the records are: each
record weighs as much as there are levels from its own to the last
(`compactionWeight`).  The outputs have no record that the inputs do not have, so
a record of an overlapping table keeps its weight at most, and a record of a
source table loses a level at least; and there is one (`Compacted.weight_lt`).
-/

namespace Kvdb

variable {lm lm' : LevelManager} {c c' : StagedCounters} {files files' : UInt32 → Option (List InternalRecord)}

/-- Every table has a file, under its 32-bit id, with at least one record. -/
def HoldRecords (lm : LevelManager) (files : UInt32 → Option (List InternalRecord)) : Prop :=
  ∀ level, ∀ t ∈ lm.tables level,
    t.tableId.toNat < 2 ^ 32 ∧ ∃ rs, files t.tableId.toUInt32 = some rs ∧ rs ≠ []

theorem FilesMatch.holdRecords (h : FilesMatch lm files) : HoldRecords lm files := by
  intro level t ht
  obtain ⟨rs, hrs⟩ := h level t ht
  obtain ⟨s, hs, -⟩ := hrs.bounds
  refine ⟨hrs.id_lt, rs, hrs.file, ?_⟩
  rintro rfl
  cases hs

theorem HoldRecords.congr (h : HoldRecords lm files)
    (heq : ∀ level, ∀ t ∈ lm.tables level, files' t.tableId.toUInt32 = files t.tableId.toUInt32) :
    HoldRecords lm files' := by
  intro level t ht
  rw [heq level t ht]
  exact h level t ht

/-! ## Weights -/

def recordCount (files : UInt32 → Option (List InternalRecord)) (t : TableMeta) : Nat :=
  ((files t.tableId.toUInt32).getD []).length

/-- The records of a table, each as often as there are levels from its own to the last. -/
def tableWeight (levelCount : Nat) (files : UInt32 → Option (List InternalRecord)) (t : TableMeta) : Nat :=
  recordCount files t * (levelCount - t.level.toNat)

def compactionWeight (lm : LevelManager) (files : UInt32 → Option (List InternalRecord)) : Nat :=
  (lm.levels.flatten.map (tableWeight lm.levelCount files)).sum

theorem HoldRecords.recordCount_pos (h : HoldRecords lm files) {level : Nat} {t : TableMeta}
    (ht : t ∈ lm.tables level) : 0 < recordCount files t := by
  obtain ⟨-, rs, hrs, hne⟩ := h level t ht
  unfold recordCount
  rw [hrs]
  exact List.length_pos_iff.mpr hne

theorem recordCount_congr {t : TableMeta} (h : files' t.tableId.toUInt32 = files t.tableId.toUInt32) :
    recordCount files' t = recordCount files t := by
  unfold recordCount
  rw [h]

theorem tableWeight_congr {levelCount : Nat} {t : TableMeta}
    (h : files' t.tableId.toUInt32 = files t.tableId.toUInt32) :
    tableWeight levelCount files' t = tableWeight levelCount files t := by
  unfold tableWeight
  rw [recordCount_congr h]

theorem compactionWeight_congr
    (heq : ∀ level, ∀ t ∈ lm.tables level, files' t.tableId.toUInt32 = files t.tableId.toUInt32) :
    compactionWeight lm files' = compactionWeight lm files := by
  unfold compactionWeight
  refine congrArg List.sum (List.map_congr_left fun t ht => ?_)
  obtain ⟨level, hlevel⟩ := LevelManager.mem_flatten.mp ht
  exact tableWeight_congr (heq level t hlevel)

/-- An installed table weighs something: it is at most on the last level. -/
theorem compactionWeight_pos (hs : Structured lm) (h : HoldRecords lm files) {level : Nat} {t : TableMeta}
    (ht : t ∈ lm.tables level) : 0 < compactionWeight lm files := by
  refine List.sum_pos_iff_exists_pos_nat.mpr
    ⟨tableWeight lm.levelCount files t, List.mem_map_of_mem (LevelManager.mem_flatten.mpr ⟨level, ht⟩), ?_⟩
  have hlevel := LevelManager.mem_tables_level ht
  rw [← hs.level_eq level t ht] at hlevel
  exact Nat.mul_pos (h.recordCount_pos ht) (Nat.sub_pos_of_lt hlevel)

/-- The weight of tables of one level. -/
theorem sum_tableWeight {levelCount : Nat} {level : UInt32} {ts : List TableMeta} (h : ∀ t ∈ ts, t.level = level) :
    (ts.map (tableWeight levelCount files)).sum = (ts.map (recordCount files)).sum * (levelCount - level.toNat) := by
  induction ts with
  | nil => simp
  | cons t ts ih =>
    have hrest := ih fun u hu => h u (List.mem_cons_of_mem t hu)
    rw [List.map_cons, List.sum_cons, hrest, List.map_cons, List.sum_cons, Nat.add_mul, tableWeight,
      h t List.mem_cons_self]

/-! ## Records of the inputs and of the outputs -/

theorem sum_recordCount_read {ts : List TableMeta} {inputs : List (List InternalRecord)}
    (h : List.Forall₂ (fun t rs => files t.tableId.toUInt32 = some rs) ts inputs) :
    (ts.map (recordCount files)).sum = inputs.flatten.length := by
  induction h with
  | nil => rfl
  | @cons t rs ts inputs hrs _ ih =>
    have hcount : recordCount files t = rs.length := by
      unfold recordCount
      rw [hrs]
      rfl
    rw [List.map_cons, List.sum_cons, ih, List.flatten_cons, List.length_append, hcount]

theorem sum_recordCount_made {target : UInt32} {outs : List Output} {ts : List TableMeta}
    (h : List.Forall₂ (Made target) outs ts) (hstored : ∀ o ∈ outs, files o.1 = some o.2) :
    (ts.map (recordCount files)).sum = (outs.flatMap Prod.snd).length := by
  induction h with
  | nil => rfl
  | @cons o t outs ts hot _ ih =>
    have hcount : recordCount files t = o.2.length := by
      unfold recordCount
      rw [hot.id32, hstored o List.mem_cons_self]
      rfl
    have hrest := ih fun o' ho' => hstored o' (List.mem_cons_of_mem o ho')
    rw [List.map_cons, List.sum_cons, hrest, List.flatMap_cons, List.length_append, hcount]

theorem newestRecords_length_le (current : Option ArenaEntry) (rs : List InternalRecord) :
    (newestRecords current rs).length ≤ rs.length := by
  induction rs generalizing current with
  | nil => exact Nat.le_refl _
  | cons r rest ih =>
    rw [newestRecords]
    split
    · exact (ih current).trans (Nat.le_succ _)
    · exact Nat.succ_le_succ (ih (some r.key))

/-- A job writes no more records than it reads. -/
theorem compactedRecords_length_le (p : CompactionPlan) (lm : LevelManager) (inputs : List (List InternalRecord)) :
    (compactedRecords p lm inputs).length ≤ inputs.flatten.length := by
  have hkept : (compactedRecords p lm inputs).length ≤
      (newestRecords none (KWay.mergeAll internalBefore inputs)).length := List.length_filter_le _ _
  have hnewest := newestRecords_length_le none (KWay.mergeAll internalBefore inputs)
  have hmerged := (@KWay.mergeAll_perm _ internalBefore inputs).length_eq
  omega

/-! ## One compaction -/

section

variable {p : CompactionPlan} {next' : UInt64} {inputs : List (List InternalRecord)} {outs : List Output}
  {edit : VersionEdit}

theorem Structured.nodup_flatten (hs : Structured lm) : lm.levels.flatten.Nodup := hs.ids.of_map _

/-- The inputs are installed tables, each named once. -/
theorem Selected.inputs_nodup (hs : Structured lm) (hsel : Selected lm p) : p.inputs.Nodup := by
  refine List.nodup_append.mpr ⟨(hs.nodup_tables _).sublist hsel.source,
    (hs.nodup_tables _).sublist hsel.overlapping, ?_⟩
  rintro t ht u hu rfl
  have hsame := hs.level_unique (hsel.source.subset ht) (hsel.overlapping.subset hu) rfl
  have htl := hsel.target_toNat
  omega

/-- The tables of a level manager: the inputs, and those that are none. -/
theorem Selected.split (hs : Structured lm) (hsel : Selected lm p) :
    lm.levels.flatten.Perm (p.inputs ++ lm.levels.flatten.filter fun t => decide (t ∉ p.inputs)) := by
  refine (List.perm_ext_iff_of_nodup hs.nodup_flatten ?_).mpr fun t => ?_
  · refine List.nodup_append.mpr ⟨hsel.inputs_nodup hs, hs.nodup_flatten.filter _, ?_⟩
    rintro t ht u hu rfl
    exact of_decide_eq_true (List.mem_filter.mp hu).2 ht
  · rw [List.mem_append, List.mem_filter, decide_eq_true_iff]
    constructor
    · intro ht
      by_cases hin : t ∈ p.inputs
      · exact .inl hin
      · exact .inr ⟨ht, hin⟩
    · rintro (hin | ⟨ht, -⟩)
      · exact LevelManager.mem_flatten.mpr (hsel.inputs_level hin)
      · exact ht

theorem Compacted.new_nodup (hcomp : Compacted p lm c.nextTableId next' files files' inputs outs edit) :
    edit.newTables.Nodup := by
  have hids := hcomp.ascending
  have hmade := hcomp.made
  generalize edit.newTables = ts at hmade
  clear hcomp
  induction hmade with
  | nil => exact List.nodup_nil
  | @cons o t outs ts hot hrest ih =>
    obtain ⟨hfirst, hids⟩ := List.pairwise_cons.mp hids
    refine List.nodup_cons.mpr ⟨fun hmem => ?_, ih hids⟩
    obtain ⟨o', ho', hmade'⟩ := forall₂_right hrest t hmem
    have hlt := hfirst o' ho'
    rw [← hot.id_toNat, ← hmade'.id_toNat] at hlt
    exact Nat.lt_irrefl _ hlt

/-- The tables after the edit: the outputs, and the tables that were no inputs. -/
theorem Compacted.split (hc : Catalog lm c) (hsel : Selected lm p)
    (hcomp : Compacted p lm c.nextTableId next' files files' inputs outs edit)
    (hst : stageApply lm c edit = .ok (lm', c')) :
    lm'.levels.flatten.Perm (edit.newTables ++ lm.levels.flatten.filter fun t => decide (t ∉ p.inputs)) := by
  have hs := hc.structured
  have hmem := hcomp.mem_after hc hsel hst
  refine (List.perm_ext_iff_of_nodup (hs.stageApply hst).nodup_flatten ?_).mpr fun t => ?_
  · refine List.nodup_append.mpr ⟨hcomp.new_nodup, hs.nodup_flatten.filter _, ?_⟩
    rintro t ht u hu rfl
    obtain ⟨level, hlevel⟩ := LevelManager.mem_flatten.mp (List.mem_filter.mp hu).1
    have hold := hc.id_lt level t hlevel
    have hnew := (hcomp.new_ids ht).1
    omega
  · rw [LevelManager.mem_flatten, List.mem_append, List.mem_filter, LevelManager.mem_flatten, decide_eq_true_iff]
    constructor
    · rintro ⟨level, ht⟩
      rcases (hmem level t).mp ht with ⟨hold, hout⟩ | ⟨hnew, -⟩
      · exact .inr ⟨⟨level, hold⟩, hout⟩
      · exact .inl hnew
    · rintro (hnew | ⟨⟨level, hold⟩, hout⟩)
      · exact ⟨p.targetLevel.toNat, (hmem _ t).mpr (.inr ⟨hnew, rfl⟩)⟩
      · exact ⟨level, (hmem level t).mpr (.inl ⟨hold, hout⟩)⟩

theorem Compacted.holdRecords (hc : Catalog lm c) (hsel : Selected lm p) (hrec : HoldRecords lm files)
    (hcomp : Compacted p lm c.nextTableId next' files files' inputs outs edit)
    (hst : stageApply lm c edit = .ok (lm', c')) : HoldRecords lm' files' := by
  intro level t ht
  rcases (hcomp.mem_after hc hsel hst level t).mp ht with ⟨hold, -⟩ | ⟨hnew, -⟩
  · rw [hcomp.below t.tableId.toUInt32 ?_]
    · exact hrec level t hold
    · rw [UInt64.toNat_toUInt32]
      exact Nat.lt_of_le_of_lt (Nat.mod_le _ _) (hc.id_lt level t hold)
  · obtain ⟨o, ho, hmade⟩ := forall₂_right hcomp.made t hnew
    obtain ⟨s, hs, -⟩ := hmade.bounds
    rw [hmade.id_toNat, hmade.id32, hcomp.stored o ho]
    refine ⟨o.1.toNat_lt, o.2, rfl, fun hnil => ?_⟩
    rw [hnil] at hs
    cases hs

/-- **A compaction makes the levels lighter.** -/
theorem Compacted.weight_lt (hc : Catalog lm c) (hsel : Selected lm p) (htarget : p.targetLevel.toNat < lm.levelCount)
    (hrec : HoldRecords lm files) (hcomp : Compacted p lm c.nextTableId next' files files' inputs outs edit)
    (hst : stageApply lm c edit = .ok (lm', c')) (hcount : lm'.levelCount = lm.levelCount) :
    compactionWeight lm' files' < compactionWeight lm files := by
  have hs := hc.structured
  have htl := hsel.target_toNat
  have hdist : lm.levelCount - p.sourceLevel.toNat = (lm.levelCount - p.targetLevel.toNat) + 1 := by omega
  generalize hd : lm.levelCount - p.targetLevel.toNat = d at hdist
  -- both sides have the tables that were no inputs in common
  have hbefore : compactionWeight lm files = (p.inputs.map (tableWeight lm.levelCount files)).sum +
      ((lm.levels.flatten.filter fun t => decide (t ∉ p.inputs)).map (tableWeight lm.levelCount files)).sum := by
    unfold compactionWeight
    rw [((hsel.split hs).map _).sum_nat, List.map_append, List.sum_append]
  have hafter : compactionWeight lm' files' = (edit.newTables.map (tableWeight lm.levelCount files')).sum +
      ((lm.levels.flatten.filter fun t => decide (t ∉ p.inputs)).map (tableWeight lm.levelCount files)).sum := by
    unfold compactionWeight
    rw [hcount, ((hcomp.split hc hsel hst).map _).sum_nat, List.map_append, List.sum_append]
    refine congrArg _ (congrArg List.sum (List.map_congr_left fun t ht => tableWeight_congr (hcomp.below _ ?_)))
    obtain ⟨level, hlevel⟩ := LevelManager.mem_flatten.mp (List.mem_filter.mp ht).1
    rw [UInt64.toNat_toUInt32]
    exact Nat.lt_of_le_of_lt (Nat.mod_le _ _) (hc.id_lt level t hlevel)
  have houtputs : (edit.newTables.map (tableWeight lm.levelCount files')).sum =
      (compactedRecords p lm inputs).length * d := by
    rw [sum_tableWeight fun t ht => hcomp.new_level ht, sum_recordCount_made hcomp.made hcomp.stored, hcomp.records, hd]
  have hlevel : ∀ {level : UInt32} {ts : List TableMeta}, ts.Sublist (lm.tables level.toNat) → ∀ t ∈ ts,
      t.level = level :=
    fun hsub t ht => UInt32.toNat_inj.mp (hc.level_eq _ t (hsub.subset ht))
  have hinputs : (p.inputs.map (tableWeight lm.levelCount files)).sum =
      inputs.flatten.length * d + (p.sourceTables.map (recordCount files)).sum := by
    have hsplit := sum_recordCount_read hcomp.read
    rw [CompactionPlan.inputs, List.map_append, List.sum_append] at hsplit ⊢
    rw [sum_tableWeight (hlevel hsel.source), sum_tableWeight (hlevel hsel.overlapping), hd, hdist, ← hsplit,
      Nat.mul_succ, Nat.add_mul]
    omega
  have hsource : 0 < (p.sourceTables.map (recordCount files)).sum := by
    obtain ⟨t, ht⟩ := List.exists_mem_of_ne_nil _ hsel.source_ne
    exact List.sum_pos_iff_exists_pos_nat.mpr
      ⟨recordCount files t, List.mem_map_of_mem ht, hrec.recordCount_pos (hsel.source.subset ht)⟩
  have hle := Nat.mul_le_mul_right d (compactedRecords_length_le p lm inputs)
  omega

end

/-! ## Jobs -/

/-- A job that succeeds has an edit: it deletes the source tables at least. -/
theorem run_edit [TableFormat] {p : CompactionPlan} (hne : p.sourceTables ≠ []) {next : UInt64}
    {store store' : TableStore} {result : Option VersionEdit}
    (h : CompactionJob.run p lm next store = (.ok result, store')) : ∃ edit, result = some edit := by
  unfold CompactionJob.run at h
  split at h
  · cases h
  split at h
  · cases h
  have hends := merge_ends p lm next store
  split at h
  · next u s hm =>
    obtain ⟨_, _, -, hp, -⟩ := hends.ok hm
    have hdeleted : s.deletedTables ≠ [] := by
      rw [hp.deletedTables]
      unfold CompactionPlan.deletedTables
      intro hnil
      exact hne (List.map_eq_nil_iff.mp (List.append_eq_nil_iff.mp hnil).1)
    rw [if_neg fun hno => hdeleted hno.1] at h
    cases h
    exact ⟨_, rfl⟩
  · split at h
    · cases h
    · cases h
  · cases h

end Kvdb
