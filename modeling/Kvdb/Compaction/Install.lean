import Kvdb.Compaction.Run
import Kvdb.Compaction.Selection
import Kvdb.Engine.Lookup

/-!
# Installing a compaction

The edit of a run fits into the levels it was made from.  The outputs have the
records of the inputs, so their ranges lie in the range of the plan, which no
table that stays on the target level touches, and they follow each other in key
order; so the removals and additions of the edit succeed one by one
(`stageApply_compacted`).

    compaction_installable: every plan of the scheduler or of `compact_range`
    validates, is current, and the edit of its run is accepted
-/

namespace Kvdb

open Faulty

/-! ## Removing -/

theorem removeTable_succeeds {lm : LevelManager} (hs : Structured lm) {level : UInt32} {t : TableMeta}
    (ht : t ∈ lm.tables level.toNat) : ∃ lm', lm.removeTable t.tableId level = .ok lm' := by
  have hcount := LevelManager.mem_tables_level ht
  have hone : (lm.tables level.toNat).filter (fun u => u.tableId == t.tableId) = [t] := by
    have hnodup := (hs.nodup_tables level.toNat).filter fun u => u.tableId == t.tableId
    have hmem : ∀ u, u ∈ (lm.tables level.toNat).filter (fun u => u.tableId == t.tableId) ↔ u = t := by
      intro u
      rw [List.mem_filter]
      constructor
      · rintro ⟨hu, hid⟩
        exact hs.unique hu ht (by simpa using hid)
      · rintro rfl
        exact ⟨ht, by simp⟩
    exact List.perm_singleton.mp ((List.perm_ext_iff_of_nodup hnodup (List.nodup_singleton t)).mpr
      fun u => by rw [hmem, List.mem_singleton])
  unfold LevelManager.removeTable
  rw [if_neg (hs.id_ne _ t ht), if_neg (by omega), hone]
  exact ⟨_, rfl⟩

/-- Entries with different ids that name installed tables can all be removed. -/
theorem removeTables_succeed {lm : LevelManager} (hs : Structured lm) {ds : List DeletedTable}
    (hmem : ∀ d ∈ ds, ∃ t ∈ lm.tables d.level.toNat, t.tableId = d.tableId)
    (hnodup : (ds.map DeletedTable.tableId).Nodup) :
    ∃ lm', ds.foldlM (fun lm d => lm.removeTable d.tableId d.level) lm = Except.ok lm' := by
  induction ds generalizing lm with
  | nil => exact ⟨lm, rfl⟩
  | cons d ds ih =>
    rw [List.map_cons, List.nodup_cons] at hnodup
    obtain ⟨t, ht, hid⟩ := hmem d (by simp)
    obtain ⟨lm₁, h₁⟩ := removeTable_succeeds hs ht
    rw [hid] at h₁
    have hrest : ∀ d' ∈ ds, ∃ t ∈ lm₁.tables d'.level.toNat, t.tableId = d'.tableId := by
      intro d' hd'
      obtain ⟨u, hu, huid⟩ := hmem d' (by simp [hd'])
      refine ⟨u, (LevelManager.mem_removeTable h₁ _ _).mpr ⟨hu, fun ⟨heq, _⟩ => ?_⟩, huid⟩
      rw [huid] at heq
      exact hnodup.1 (heq ▸ List.mem_map_of_mem hd')
    obtain ⟨lm', h'⟩ := ih (hs.removeTable h₁) hrest hnodup.2
    refine ⟨lm', ?_⟩
    rw [List.foldlM_cons, h₁]
    exact h'

/-! ## Adding -/

theorem rangesOverlap_of_apart {t u : TableMeta} (h : t.Apart u) :
    rangesOverlap t.smallestKey t.largestKey u.smallestKey u.largestKey = false := by
  rw [← Bool.not_eq_true, rangesOverlap_iff, not_and_or, not_le, not_le]
  exact h

/-- What a new table needs to fit into a level below L0. -/
structure Fits (lm : LevelManager) (m : TableMeta) : Prop where
  id_ne : m.tableId ≠ 0
  level_lt : m.level.toNat < lm.levelCount
  level_ne : m.level ≠ 0
  range : m.smallestKey ≤ m.largestKey
  fresh : ∀ level, ∀ t ∈ lm.tables level, t.tableId ≠ m.tableId
  apart : ∀ t ∈ lm.tables m.level.toNat, t.Apart m

theorem findIdx?_fresh {lm : LevelManager} {m : TableMeta}
    (h : ∀ level, ∀ t ∈ lm.tables level, t.tableId ≠ m.tableId) :
    lm.levels.findIdx? (fun ts => ts.any fun t => t.tableId == m.tableId) = none := by
  refine List.findIdx?_eq_none_iff.mpr fun ts hts => ?_
  rw [List.any_eq_false]
  intro t ht
  obtain ⟨level, hlevel⟩ := LevelManager.mem_flatten.mp (List.mem_flatten.mpr ⟨ts, hts, ht⟩)
  simpa using h level t hlevel

/-- L0 takes every new table. -/
theorem addTable_succeeds_zero {lm : LevelManager} {m : TableMeta} (hid : m.tableId ≠ 0)
    (hfresh : ∀ level, ∀ t ∈ lm.tables level, t.tableId ≠ m.tableId) (hlevel : m.level.toNat < lm.levelCount)
    (hrange : m.smallestKey ≤ m.largestKey) (h0 : m.level = 0) : ∃ lm', lm.addTable m = .ok lm' := by
  unfold LevelManager.addTable
  rw [if_neg hid, if_neg (by omega), if_neg (by rw [Bool.not_eq_true, lt_eq_false_iff]; exact hrange),
    findIdx?_fresh hfresh]
  dsimp only
  rw [if_pos h0]
  exact ⟨_, rfl⟩

theorem addTable_succeeds {lm : LevelManager} {m : TableMeta} (h : Fits lm m) :
    ∃ lm', lm.addTable m = .ok lm' := by
  have hfind := findIdx?_fresh h.fresh
  unfold LevelManager.addTable
  rw [if_neg h.id_ne, if_neg (by have := h.level_lt; omega),
    if_neg (by rw [Bool.not_eq_true, lt_eq_false_iff]; exact h.range), hfind]
  simp only
  rw [if_neg h.level_ne]
  generalize hb : (lm.tables m.level.toNat).takeWhile (fun t => t.smallestKey.lt m.smallestKey) = before
  generalize ha : (lm.tables m.level.toNat).dropWhile (fun t => t.smallestKey.lt m.smallestKey) = after
  have hafter : ∃ lm', LevelManager.addSorted.addBefore lm m before after = .ok lm' := by
    unfold LevelManager.addSorted.addBefore
    cases hfirst : after.head? with
    | none => exact ⟨_, rfl⟩
    | some u =>
      have hu : u ∈ lm.tables m.level.toNat := by
        refine (List.dropWhile_sublist fun t => t.smallestKey.lt m.smallestKey).subset ?_
        rw [ha]
        exact List.mem_of_head? hfirst
      simp only [rangesOverlap_of_apart (h.apart u hu).symm]
      exact ⟨_, rfl⟩
  unfold LevelManager.addSorted
  cases hlast : before.getLast? with
  | none => exact hafter
  | some u =>
    have hu : u ∈ lm.tables m.level.toNat := by
      refine (List.takeWhile_sublist fun t => t.smallestKey.lt m.smallestKey).subset ?_
      rw [hb]
      exact List.mem_of_getLast? hlast
    simp only [rangesOverlap_of_apart (h.apart u hu)]
    exact hafter

/-- Tables that fit and do not get in each other's way can all be added. -/
theorem addTables_succeed {lm : LevelManager} {ts : List TableMeta} (hfits : ∀ m ∈ ts, Fits lm m)
    (hpw : ts.Pairwise fun t u => t.tableId ≠ u.tableId ∧ t.Apart u) :
    ∃ lm', ts.foldlM (fun lm t => lm.addTable t) lm = Except.ok lm' := by
  induction ts generalizing lm with
  | nil => exact ⟨lm, rfl⟩
  | cons m ts ih =>
    obtain ⟨hm, hts⟩ := List.pairwise_cons.mp hpw
    obtain ⟨lm₁, h₁⟩ := addTable_succeeds (hfits m (by simp))
    have hmem := LevelManager.mem_addTable h₁
    have hcount : lm₁.levelCount = lm.levelCount := by
      obtain ⟨-, -, -, -, before, after, -, rfl⟩ := LevelManager.addTable_ok h₁
      exact LevelManager.levelCount_setTables _ _ _
    have hrest : ∀ u ∈ ts, Fits lm₁ u := by
      intro u hu
      have hf := hfits u (by simp [hu])
      refine ⟨hf.id_ne, hcount ▸ hf.level_lt, hf.level_ne, hf.range, ?_, ?_⟩
      · intro level t ht
        rcases (hmem level t).mp ht with ht | ⟨rfl, -⟩
        · exact hf.fresh level t ht
        · exact (hm u hu).1
      · intro t ht
        rcases (hmem _ t).mp ht with ht | ⟨rfl, -⟩
        · exact hf.apart t ht
        · exact (hm u hu).2
    obtain ⟨lm', h'⟩ := ih hrest hts
    refine ⟨lm', ?_⟩
    rw [List.foldlM_cons, h₁]
    exact h'

/-! ## Outputs -/

/-- The records a job read are those of the files of its inputs. -/
theorem mem_inputs {p : CompactionPlan} {files : UInt32 → Option (List InternalRecord)}
    {inputs : List (List InternalRecord)}
    (h : List.Forall₂ (fun t rs => files t.tableId.toUInt32 = some rs) p.inputs inputs) {r : InternalRecord} :
    r ∈ inputs.flatten ↔ ∃ t ∈ p.inputs, ∃ rs, files t.tableId.toUInt32 = some rs ∧ r ∈ rs := by
  generalize p.inputs = ts at h
  induction h with
  | nil => simp
  | @cons t rs ts inputs hrs _ ih =>
    rw [List.flatten_cons, List.mem_append, ih]
    constructor
    · rintro (hr | ⟨u, hu, rs', hrs', hr⟩)
      · exact ⟨t, by simp, rs, hrs, hr⟩
      · exact ⟨u, by simp [hu], rs', hrs', hr⟩
    · rintro ⟨u, hu, rs', hrs', hr⟩
      rcases List.mem_cons.mp hu with rfl | hu
      · rw [hrs] at hrs'
        cases hrs'
        exact .inl hr
      · exact .inr ⟨u, hu, rs', hrs', hr⟩

section

variable {lm : LevelManager} {c : StagedCounters} {files files' : UInt32 → Option (List InternalRecord)}
  {p : CompactionPlan} {next next' : UInt64} {inputs : List (List InternalRecord)} {outs : List Output}
  {edit : VersionEdit}

theorem Selected.inputs_mem (hsel : Selected lm p) {t : TableMeta} (ht : t ∈ p.inputs) :
    (t ∈ p.sourceTables ∧ t ∈ lm.tables p.sourceLevel.toNat) ∨
      (t ∈ p.overlappingTables ∧ t ∈ lm.tables p.targetLevel.toNat) := by
  rcases List.mem_append.mp ht with ht | ht
  · exact .inl ⟨ht, hsel.source.subset ht⟩
  · exact .inr ⟨ht, hsel.overlapping.subset ht⟩

theorem Selected.inputs_stored (hsel : Selected lm p) (hf : FilesMatch lm files) {t : TableMeta}
    (ht : t ∈ p.inputs) : ∃ rs, Stored files t rs := by
  rcases hsel.inputs_mem ht with ⟨-, ht⟩ | ⟨-, ht⟩
  · exact hf _ t ht
  · exact hf _ t ht

/-- The merged records are in internal order. -/
theorem inputs_sorted (hsel : Selected lm p) (hf : FilesMatch lm files)
    (hread : List.Forall₂ (fun t rs => files t.tableId.toUInt32 = some rs) p.inputs inputs) :
    KWay.Sorted internalBefore (KWay.mergeAll internalBefore inputs) := by
  refine KWay.mergeAll_sorted internalBefore_asymm not_internalBefore_trans fun rs hrs => ?_
  obtain ⟨t, ht, hfile⟩ := forall₂_right hread rs hrs
  obtain ⟨rs', hstored⟩ := hsel.inputs_stored hf ht
  rw [hstored.file] at hfile
  cases hfile
  exact hstored.ordered.sorted

/-- What the outputs receive: the newest record of each key of the inputs, in key order, but no
tombstone when nothing lies deeper. -/
structure Kept (p : CompactionPlan) (lm : LevelManager) (inputs : List (List InternalRecord))
    (K : List InternalRecord) : Prop where
  mem : ∀ r ∈ K, r ∈ inputs.flatten
  ascending : K.Pairwise fun a b => a.key < b.key
  newest : ∀ r ∈ K, ∀ x ∈ inputs.flatten, x.key = r.key → x.seqNum.toNat ≤ r.seqNum.toNat
  covers : ∀ x ∈ inputs.flatten, (∃ r ∈ K, r.key = x.key) ∨
    (isBottommostDestination lm p.targetLevel = true ∧
      ∃ r ∈ inputs.flatten, r.key = x.key ∧ r.type = .tombstone ∧
        ∀ y ∈ inputs.flatten, y.key = r.key → y.seqNum.toNat ≤ r.seqNum.toNat)

theorem compactedRecords_kept (hsel : Selected lm p) (hf : FilesMatch lm files)
    (hread : List.Forall₂ (fun t rs => files t.tableId.toUInt32 = some rs) p.inputs inputs) :
    Kept p lm inputs (compactedRecords p lm inputs) := by
  obtain ⟨hN, hcov⟩ := newestRecords_none (inputs_sorted hsel hf hread)
  have hperm : (KWay.mergeAll internalBefore inputs).Perm inputs.flatten := KWay.mergeAll_perm inputs
  have hmem : ∀ r, r ∈ KWay.mergeAll internalBefore inputs ↔ r ∈ inputs.flatten := fun r => hperm.mem_iff
  unfold compactedRecords
  refine ⟨?_, ?_, ?_, ?_⟩
  · intro r hr
    exact (hmem r).mp (hN.mem r (List.mem_filter.mp hr).1)
  · exact hN.ascending.filter _
  · intro r hr x hx hk
    exact hN.newest r (List.mem_filter.mp hr).1 x ((hmem x).mpr hx) hk
  · intro x hx
    obtain ⟨r, hr, hk⟩ := hcov x ((hmem x).mpr hx)
    by_cases hkeep : compactionKeepNewestRecord r.type (isBottommostDestination lm p.targetLevel) = true
    · exact .inl ⟨r, List.mem_filter.mpr ⟨hr, hkeep⟩, hk⟩
    · refine .inr ?_
      unfold compactionKeepNewestRecord at hkeep
      rw [Bool.not_eq_true, Bool.not_eq_false', Bool.and_eq_true, decide_eq_true_iff] at hkeep
      exact ⟨hkeep.2, r, (hmem r).mp (hN.mem r hr), hk, hkeep.1,
        fun y hy hyk => hN.newest r hr y ((hmem y).mpr hy) hyk⟩

/-- Each output has records, and those of the plan's range. -/
theorem Compacted.output (hcomp : Compacted p lm next next' files files' inputs outs edit) {o : Output}
    (ho : o ∈ outs) :
    ∀ r ∈ o.2, r ∈ compactedRecords p lm inputs := by
  intro r hr
  rw [← hcomp.records]
  exact List.mem_flatMap.mpr ⟨o, ho, hr⟩

theorem Compacted.key_mem (hsel : Selected lm p) (hf : FilesMatch lm files)
    (hcomp : Compacted p lm next next' files files' inputs outs edit) {r : InternalRecord}
    (hr : r ∈ compactedRecords p lm inputs) : p.smallestKey ≤ r.key ∧ r.key ≤ p.largestKey := by
  have hin := (compactedRecords_kept hsel hf hcomp.read).mem r hr
  obtain ⟨t, ht, rs, hrs, hr⟩ := (mem_inputs hcomp.read).mp hin
  obtain ⟨rs', hstored⟩ := hsel.inputs_stored hf ht
  rw [hstored.file] at hrs
  cases hrs
  obtain ⟨hlow, hhigh⟩ := hstored.key_mem hr
  obtain ⟨hlow', hhigh'⟩ := hsel.covers t (List.mem_append.mp ht)
  exact ⟨hlow'.trans hlow, hhigh.trans hhigh'⟩

theorem Made.range {target : UInt32} {o : Output} {t : TableMeta} (h : Made target o t) :
    t.smallestKey ≤ t.largestKey := by
  obtain ⟨s, hs, hmin, hmax⟩ := h.bounds
  obtain ⟨hin, ⟨r, hr, -⟩, -⟩ := summarize_keys hs
  rw [hmin, hmax]
  exact (hin r hr).1.trans (hin r hr).2

/-- The bounds of an output are keys of its records. -/
theorem Made.bounds_mem {target : UInt32} {o : Output} {t : TableMeta} (h : Made target o t) :
    (∃ r ∈ o.2, t.smallestKey = r.key) ∧ ∃ r ∈ o.2, t.largestKey = r.key := by
  obtain ⟨s, hs, hmin, hmax⟩ := h.bounds
  obtain ⟨-, hlow, hhigh⟩ := summarize_keys hs
  rw [hmin, hmax]
  exact ⟨hlow, hhigh⟩

theorem Compacted.new_inside (hsel : Selected lm p) (hf : FilesMatch lm files)
    (hcomp : Compacted p lm next next' files files' inputs outs edit) {t : TableMeta} (ht : t ∈ edit.newTables) :
    p.smallestKey ≤ t.smallestKey ∧ t.largestKey ≤ p.largestKey := by
  obtain ⟨o, ho, hmade⟩ := forall₂_right hcomp.made t ht
  obtain ⟨⟨r, hr, hlow⟩, ⟨r', hr', hhigh⟩⟩ := hmade.bounds_mem
  rw [hlow, hhigh]
  exact ⟨(hcomp.key_mem hsel hf (hcomp.output ho r hr)).1, (hcomp.key_mem hsel hf (hcomp.output ho r' hr')).2⟩

/-- The outputs follow each other in key order. -/
theorem Compacted.new_ordered (hsel : Selected lm p) (hf : FilesMatch lm files)
    (hcomp : Compacted p lm next next' files files' inputs outs edit) :
    edit.newTables.Pairwise fun t u => t.tableId.toNat < u.tableId.toNat ∧ t.largestKey < u.smallestKey := by
  have hasc := (compactedRecords_kept hsel hf hcomp.read).ascending
  rw [← hcomp.records] at hasc
  have hrecs := (List.pairwise_flatMap.mp hasc).2
  have hids := hcomp.ascending
  have hmade := hcomp.made
  generalize edit.newTables = ts at hmade
  clear hcomp hasc
  induction hmade with
  | nil => exact List.Pairwise.nil
  | @cons o t outs ts hot hrest ih =>
    obtain ⟨h1, hrecs⟩ := List.pairwise_cons.mp hrecs
    obtain ⟨h2, hids⟩ := List.pairwise_cons.mp hids
    refine List.pairwise_cons.mpr ⟨fun u hu => ?_, ih hrecs hids⟩
    obtain ⟨o', ho', hou⟩ := forall₂_right hrest u hu
    refine ⟨?_, ?_⟩
    · rw [hot.id_toNat, hou.id_toNat]
      exact h2 o' ho'
    · obtain ⟨r, hr, hhigh⟩ := hot.bounds_mem.2
      obtain ⟨r', hr', hlow⟩ := hou.bounds_mem.1
      rw [hhigh, hlow]
      exact h1 o' ho' r hr r' hr'

/-! ## Staging the edit -/

theorem foldl_max_lt {ns : List Nat} {a b : Nat} (ha : a < b) (hns : ∀ n ∈ ns, n < b) : ns.foldl max a < b := by
  induction ns generalizing a with
  | nil => exact ha
  | cons n ns ih =>
    rw [List.foldl_cons]
    have hn := hns n (by simp)
    exact ih (by omega) fun m hm => hns m (by simp [hm])

/-- When no id of an edit is new, the table counter stays. -/
theorem stageTableId_old {e : VersionEdit} {next : UInt64} (hnone : e.nextTableId = none) (hpos : 0 < next.toNat)
    (hids : ∀ id ∈ e.tableIds, id.toNat < next.toNat) : stageTableId e next = .ok next := by
  have hlt : (maxTableIdSeen e).toNat < next.toNat := by
    rw [maxTableIdSeen, toNat_foldl_max]
    refine foldl_max_lt hpos fun n hn => ?_
    obtain ⟨id, hid, rfl⟩ := List.mem_map.mp hn
    exact hids id hid
  simp only [stageTableId, hnone]
  rw [if_neg (by rw [ge_iff_le, uint64_le_iff]; omega)]

theorem toNat_pos {x : UInt64} (h : x ≠ 0) : 0 < x.toNat :=
  Nat.pos_of_ne_zero fun h0 => h (UInt64.toNat_inj.mp h0)

theorem CompactionPlan.mem_deletedTables {p : CompactionPlan} {d : DeletedTable} :
    d ∈ p.deletedTables ↔ (∃ t ∈ p.sourceTables, d = ⟨p.sourceLevel, t.tableId⟩) ∨
      ∃ t ∈ p.overlappingTables, d = ⟨p.targetLevel, t.tableId⟩ := by
  simp only [CompactionPlan.deletedTables, List.mem_append, List.mem_map, eq_comm]

/-- The inputs that an edit deletes are installed, and each is named once. -/
theorem Selected.deleted_mem (hsel : Selected lm p) :
    ∀ d ∈ p.deletedTables, ∃ t ∈ lm.tables d.level.toNat, t.tableId = d.tableId := by
  intro d hd
  rcases CompactionPlan.mem_deletedTables.mp hd with ⟨t, ht, rfl⟩ | ⟨t, ht, rfl⟩
  · exact ⟨t, hsel.source.subset ht, rfl⟩
  · exact ⟨t, hsel.overlapping.subset ht, rfl⟩

theorem Selected.deleted_nodup (hs : Structured lm) (hsel : Selected lm p) :
    (p.deletedTables.map DeletedTable.tableId).Nodup := by
  have hmap : p.deletedTables.map DeletedTable.tableId =
      p.sourceTables.map TableMeta.tableId ++ p.overlappingTables.map TableMeta.tableId := by
    simp [CompactionPlan.deletedTables, Function.comp_def]
  rw [hmap]
  refine List.nodup_append.mpr ⟨(hs.nodup_ids _).sublist (hsel.source.map _),
    (hs.nodup_ids _).sublist (hsel.overlapping.map _), ?_⟩
  intro a ha b hb heq
  obtain ⟨t, ht, rfl⟩ := List.mem_map.mp ha
  obtain ⟨u, hu, rfl⟩ := List.mem_map.mp hb
  have hsame := hs.level_unique (hsel.source.subset ht) (hsel.overlapping.subset hu) heq
  have := hsel.target_toNat
  omega

/-- The ids of the outputs are new. -/
theorem Compacted.new_ids (hcomp : Compacted p lm next next' files files' inputs outs edit) {t : TableMeta}
    (ht : t ∈ edit.newTables) : next.toNat ≤ t.tableId.toNat ∧ t.tableId.toNat < next'.toNat := by
  obtain ⟨o, ho, hmade⟩ := forall₂_right hcomp.made t ht
  rw [hmade.id_toNat]
  exact hcomp.ids o ho

theorem Compacted.new_level (hcomp : Compacted p lm next next' files files' inputs outs edit) {t : TableMeta}
    (ht : t ∈ edit.newTables) : t.level = p.targetLevel := by
  obtain ⟨o, -, hmade⟩ := forall₂_right hcomp.made t ht
  exact hmade.level

theorem Compacted.validate (hc : Catalog lm c) (hsel : Selected lm p)
    (hcomp : Compacted p lm c.nextTableId next' files files' inputs outs edit)
    (hdel : edit.deletedTables.length ≤ MANIFEST_MAX_TABLES_PER_EDIT)
    (hnew : edit.newTables.length ≤ MANIFEST_MAX_TABLES_PER_EDIT) : edit.validate = .ok () := by
  have hmax : MANIFEST_MAX_TABLES_PER_EDIT = 1000000 := rfl
  have hcount : ∀ n name, n ≤ MANIFEST_MAX_TABLES_PER_EDIT → checkedU32Count n name = .ok (UInt32.ofNat n) := by
    intro n name hn
    rw [checkedU32Count, if_neg (by omega), if_neg (by omega)]
  have hpos := toNat_pos hc.nextTableId
  unfold VersionEdit.validate
  rw [hcount _ _ hdel, ok_bind, hcount _ _ hnew, ok_bind, if_neg, if_neg, if_neg, if_neg, if_neg]
  · rw [Bool.not_eq_true, List.any_eq_false]
    intro t ht h0
    have hid := (hcomp.new_ids ht).1
    rw [beq_iff_eq.mp h0] at hid
    exact absurd hid (Nat.not_le.mpr hpos)
  · rw [Bool.not_eq_true, List.any_eq_false]
    intro d hd h0
    rw [hcomp.deleted] at hd
    obtain ⟨t, ht, hid⟩ := hsel.deleted_mem d hd
    rw [beq_iff_eq.mp h0] at hid
    exact hc.id_ne _ t ht hid
  · rw [hcomp.currentWalId]
    simp
  · rw [hcomp.nextSequenceNumber]
    simp
  · rw [hcomp.nextTableId]
    split
    · intro heq
      have h0 := Option.some.inj heq
      have hle := hcomp.next_le
      rw [h0] at hle
      exact absurd hle (Nat.not_le.mpr hpos)
    · simp

theorem Compacted.stageTableId (hc : Catalog lm c) (hsel : Selected lm p)
    (hcomp : Compacted p lm c.nextTableId next' files files' inputs outs edit) :
    stageTableId edit c.nextTableId = .ok next' := by
  have hid := hcomp.nextTableId
  by_cases hne : next' = c.nextTableId
  · -- no output was written
    rw [if_neg (by simpa using hne)] at hid
    rw [hne]
    refine stageTableId_old hid (toNat_pos hc.nextTableId) fun id hmem => ?_
    rcases List.mem_append.mp hmem with hmem | hmem
    · obtain ⟨d, hd, rfl⟩ := List.mem_map.mp hmem
      rw [hcomp.deleted] at hd
      obtain ⟨t, ht, heq⟩ := hsel.deleted_mem d hd
      rw [← heq]
      exact hc.id_lt _ t ht
    · obtain ⟨t, ht, rfl⟩ := List.mem_map.mp hmem
      have := hcomp.new_ids ht
      rw [hne] at this
      omega
  · rw [if_pos hne] at hid
    simp only [Kvdb.stageTableId, hid]
    rw [if_neg (by rw [uint64_lt_iff]; have := hcomp.next_le; omega)]

/-- **The edit of a run is accepted.** -/
theorem stageApply_compacted (hc : Catalog lm c) (hsel : Selected lm p) (hf : FilesMatch lm files)
    (htarget : p.targetLevel.toNat < lm.levelCount)
    (hcomp : Compacted p lm c.nextTableId next' files files' inputs outs edit)
    (hdel : edit.deletedTables.length ≤ MANIFEST_MAX_TABLES_PER_EDIT)
    (hnew : edit.newTables.length ≤ MANIFEST_MAX_TABLES_PER_EDIT) :
    ∃ lm', stageApply lm c edit = .ok (lm', { c with nextTableId := next' }) := by
  have hs := hc.structured
  have htl := hsel.target_toNat
  obtain ⟨mid, hmid⟩ := removeTables_succeed hs hsel.deleted_mem (hsel.deleted_nodup hs)
  rw [← hcomp.deleted] at hmid
  have hmem := mem_removeTables hmid
  have hcount : mid.levelCount = lm.levelCount :=
    foldlM_keeps (P := fun m : LevelManager => m.levelCount = lm.levelCount)
      (fun a d a' ha h => by
        obtain ⟨-, -, -, rfl, -⟩ := LevelManager.removeTable_ok h
        rw [LevelManager.levelCount_setTables]
        exact ha) rfl hmid
  have hord := hcomp.new_ordered hsel hf
  have hfits : ∀ m ∈ edit.newTables, Fits mid m := by
    intro m hm
    have hlevel := hcomp.new_level hm
    have hid := (hcomp.new_ids hm).1
    obtain ⟨o, -, hmade⟩ := forall₂_right hcomp.made m hm
    obtain ⟨hlow, hhigh⟩ := hcomp.new_inside hsel hf hm
    refine ⟨?_, by rw [hcount, hlevel]; exact htarget, ?_, hmade.range, ?_, ?_⟩
    · intro h0
      have hpos := toNat_pos hc.nextTableId
      rw [h0] at hid
      exact absurd hid (Nat.not_le.mpr hpos)
    · rw [hlevel]
      intro h0
      rw [h0] at htl
      simp at htl
    · intro level t ht heq
      have hlt := hc.id_lt level t ((hmem level t).mp ht).1
      rw [heq] at hlt
      omega
    · -- what is left on the target level is outside the range of the plan
      intro t ht
      rw [hlevel] at ht
      obtain ⟨htm, hdeleted⟩ := (hmem _ t).mp ht
      have hout : t ∉ p.overlappingTables := by
        intro hin
        refine hdeleted ⟨p.targetLevel, t.tableId⟩ ?_ ⟨rfl, rfl⟩
        rw [hcomp.deleted]
        exact CompactionPlan.mem_deletedTables.mpr (.inr ⟨t, hin, rfl⟩)
      rcases hsel.targetRest t htm hout with h | h
      · exact .inl (h.trans_le hlow)
      · exact .inr (hhigh.trans_lt h)
  obtain ⟨lm', hlm'⟩ := addTables_succeed hfits (hord.imp fun h =>
      ⟨fun heq => by rw [heq] at h; omega, .inl h.2⟩)
  have hs' : Structured lm' := hs.edit ⟨mid, hmid, hlm'⟩
  refine ⟨lm', stageApply_ok_iff.mpr ⟨hcomp.validate hc hsel hdel hnew, ⟨mid, hmid, hlm'⟩,
    hcomp.stageTableId hc hsel, ?_, ?_, ?_⟩⟩
  · rw [hcomp.nextSequenceNumber]
    rfl
  · rw [hcomp.currentWalId]
    rfl
  · have hle := hcomp.next_le
    have hpos := toNat_pos hc.nextTableId
    refine hs'.manifestInv ?_ hc.currentWalId hc.nextSequenceNumber ?_
    · show next' ≠ 0
      intro h0
      rw [h0] at hle
      exact absurd hle (Nat.not_le.mpr hpos)
    · intro level t ht
      show t.tableId.toNat < next'.toNat
      rcases (mem_addTables hlm' level t).mp ht with ht | ⟨ht, -⟩
      · have := hc.id_lt level t ((hmem level t).mp ht).1
        omega
      · exact (hcomp.new_ids ht).2

/-- An output is a table file of its own. -/
theorem Compacted.new_stored (hsel : Selected lm p) (hf : FilesMatch lm files)
    (hcomp : Compacted p lm next next' files files' inputs outs edit) {o : Output} {t : TableMeta} (ho : o ∈ outs)
    (hmade : Made p.targetLevel o t) : Stored files' t o.2 := by
  have hasc := (compactedRecords_kept hsel hf hcomp.read).ascending
  rw [← hcomp.records] at hasc
  have hown := (List.pairwise_flatMap.mp hasc).1 o ho
  refine ⟨?_, ?_, ?_, hmade.bounds⟩
  · rw [hmade.id_toNat]
    exact o.1.toNat_lt
  · rw [hmade.id32]
    exact hcomp.stored o ho
  · exact hown.imp fun h => internalBefore_iff.mpr (.inl h)

/-- A file below the first new id is the one it was. -/
theorem Compacted.old_file (hcomp : Compacted p lm next next' files files' inputs outs edit) {t : TableMeta}
    (hid : t.tableId.toNat < next.toNat) {rs : List InternalRecord} (ht : Stored files t rs) : Stored files' t rs := by
  refine ht.congr (hcomp.below _ ?_)
  rw [UInt64.toNat_toUInt32]
  exact Nat.lt_of_le_of_lt (Nat.mod_le _ _) hid

theorem Compacted.filesMatch (hc : Catalog lm c) (hsel : Selected lm p) (hf : FilesMatch lm files)
    (hcomp : Compacted p lm c.nextTableId next' files files' inputs outs edit) {lm' : LevelManager}
    {c' : StagedCounters} (hst : stageApply lm c edit = .ok (lm', c')) : FilesMatch lm' files' := by
  intro level t ht
  rcases ((stageApply_ok_iff.mp hst).mem level t).mp ht with ⟨hold, -⟩ | ⟨hnew, -⟩
  · obtain ⟨rs, hrs⟩ := hf level t hold
    exact ⟨rs, hcomp.old_file (hc.id_lt level t hold) hrs⟩
  · obtain ⟨o, ho, hmade⟩ := forall₂_right hcomp.made t hnew
    exact ⟨o.2, hcomp.new_stored hsel hf ho hmade⟩

end

/-! ## Every plan -/

/-- The plans the engine runs: those the scheduler picks, and those of the selection loop of
`Engine::compact_range` that found a source table. -/
inductive PlanOf (lm : LevelManager) (o : CompactionOptions) (p : CompactionPlan) : Prop
  | picked (h : pickCompaction lm o = .ok (some p))
  | manual (sourceLevel : UInt32) (smallest largest : ArenaEntry) (hlevel : sourceLevel.toNat + 1 < lm.levelCount)
      (hrange : smallest ≤ largest) (hp : p = manualPlan lm o sourceLevel smallest largest)
      (hne : p.sourceTables ≠ [])

theorem pickCompaction_due {lm : LevelManager} {o : CompactionOptions} {p : CompactionPlan}
    (h : pickCompaction lm o = .ok (some p)) : shouldCompact lm o = true := by
  unfold pickCompaction at h
  unfold shouldCompact
  split at h
  · cases h
  · rw [Bool.or_eq_true]
    split at h
    · next hl0 => exact .inl hl0
    · split at h
      · next level hfind =>
        exact .inr (List.any_eq_true.mpr ⟨level, List.mem_of_find?_eq_some hfind, List.find?_some hfind⟩)
      · cases h

theorem PlanOf.selected {lm : LevelManager} {c : StagedCounters} {o : CompactionOptions} {p : CompactionPlan}
    (hc : Catalog lm c) (ho : o.validate = .ok ()) (hlevels : lm.levelCount = o.maxLevels)
    (hmax : o.maxLevels < 2 ^ 32) (h : PlanOf lm o p) :
    Selected lm p ∧ p.validate = true ∧ p.targetLevel.toNat < lm.levelCount := by
  cases h with
  | picked h =>
    obtain ⟨q, hq, hsel, hvalid, htarget⟩ := pickCompaction_selected hc.structured hmax (pickCompaction_due h)
    rw [h] at hq
    cases hq
    exact ⟨hsel, hvalid, hlevels ▸ htarget⟩
  | manual sourceLevel smallest largest hlevel hrange hp hne =>
    subst hp
    rw [hlevels] at hlevel ⊢
    exact manualPlan_selected hc.structured ho hmax hlevel hrange hne

theorem Selected.current {lm : LevelManager} {p : CompactionPlan} (h : Selected lm p) :
    planIsCurrent p lm = true := by
  unfold planIsCurrent levelContainsTable
  rw [Bool.and_eq_true, List.all_eq_true, List.all_eq_true]
  constructor
  · intro t ht
    exact List.any_eq_true.mpr ⟨t, h.source.subset ht, by simp⟩
  · intro t ht
    exact List.any_eq_true.mpr ⟨t, h.overlapping.subset ht, by simp⟩

/-- **Every scheduled compaction can be installed.**  When a compaction is due the scheduler has a
plan; each of its plans and of those of `compact_range` validates, is current and leaves no
table of the target level in its range; and the edit its run returns is accepted on the
unchanged state, into levels that are again a catalog of the files. -/
theorem compaction_installable [TableFormat] {lm : LevelManager} {c : StagedCounters} {o : CompactionOptions}
    (ho : o.validate = .ok ()) (hmax : o.maxLevels < 2 ^ 32) (hlevels : lm.levelCount = o.maxLevels)
    (hc : Catalog lm c) :
    (shouldCompact lm o = true → ∃ p, pickCompaction lm o = .ok (some p)) ∧
      ∀ p, PlanOf lm o p →
        p.validate = true ∧ planIsCurrent p lm = true ∧
        (∀ t ∈ lm.tables p.targetLevel.toNat, t ∉ p.overlappingTables →
          rangesOverlap t.smallestKey t.largestKey p.smallestKey p.largestKey = false) ∧
        ∀ store, FilesMatch lm store.files → ∀ edit store',
          CompactionJob.run p lm c.nextTableId store = (.ok (some edit), store') →
          edit.deletedTables.length ≤ MANIFEST_MAX_TABLES_PER_EDIT →
          edit.newTables.length ≤ MANIFEST_MAX_TABLES_PER_EDIT →
          ∃ lm' c', stageApply lm c edit = .ok (lm', c') ∧ Catalog lm' c' ∧ FilesMatch lm' store'.files := by
  refine ⟨fun hdue => ?_, fun p hp => ?_⟩
  · obtain ⟨p, hp, -⟩ := pickCompaction_selected hc.structured hmax hdue
    exact ⟨p, hp⟩
  · obtain ⟨hsel, hvalid, htarget⟩ := hp.selected hc ho hlevels hmax
    refine ⟨hvalid, hsel.current, fun t ht hout => ?_, fun store hf edit store' hrun hdel hnew => ?_⟩
    · rw [← Bool.not_eq_true, rangesOverlap_iff, not_and_or, not_le, not_le]
      exact hsel.targetRest t ht hout
    · obtain ⟨inputs, outs, next', hcomp⟩ := run_compacted hrun
      obtain ⟨lm', hst⟩ := stageApply_compacted hc hsel hf htarget hcomp hdel hnew
      have hcat := catalog_of_structured (hc.structured.stageApply hst) (stageApply_ok_iff.mp hst).inv
      exact ⟨lm', _, hst, hcat, hcomp.filesMatch hc hsel hf hst⟩

section

/-- The put of the one-byte key `k` with sequence number `n`. -/
def onePut (k : UInt8) (n : UInt64) : InternalRecord := ⟨.ofByte k, .ofByte k, .put, n⟩

/-- A format that takes every record, with sizes that only count them. -/
@[reducible] def countingFormat : TableFormat where
  appendRecord _ _ := .ok ()
  approximateDiskSpace rs := rs.length
  layout _ rs := .ok ⟨[], UInt64.ofNat rs.length, 1, UInt64.ofNat rs.length⟩

/-- The tombstone of the one-byte key `k` with sequence number `n`. -/
def oneRemove (k : UInt8) (n : UInt64) : InternalRecord := ⟨.ofByte k, .empty, .tombstone, n⟩

/-- A table on L0 with the one record `onePut 97 1`. -/
def oneTable : TableMeta where
  tableId := 1
  level := 0
  path := []
  minSeq := 1
  maxSeq := 1
  fileSize := 1
  recordCount := 1
  tombstoneCount := 0
  dataBlockCount := 1
  dataBytes := 1
  smallestKey := .ofByte 97
  largestKey := .ofByte 97

/-- The same record on L1. -/
def bottomTable : TableMeta := { oneTable with level := 1 }

/-- A table on L0 that removes the key of `bottomTable` and puts another one. -/
def topTable : TableMeta :=
  { oneTable with
    tableId := 2
    minSeq := 2
    maxSeq := 3
    fileSize := 2
    recordCount := 2
    tombstoneCount := 1
    dataBytes := 2
    largestKey := .ofByte 98 }

def twoLevels : LevelManager := ⟨[[topTable], [bottomTable]]⟩

def twoLevelOptions : CompactionOptions := ⟨2, 1, [0, 0], [1, 1]⟩

def twoLevelStore : TableStore where
  files id :=
    if id = 1 then some [onePut 97 1]
    else if id = 2 then some [oneRemove 97 3, onePut 98 2]
    else none
  faults := []

/-- The plan for the full L0. -/
def twoLevelPlan : CompactionPlan := levelPlan twoLevels 0 twoLevelOptions topTable []

/-- Both tables go; the tombstone is dropped with the record under it. -/
def twoLevelEdit : VersionEdit :=
  { nextTableId := some 4
    deletedTables := [⟨0, 2⟩, ⟨1, 1⟩]
    newTables :=
      [{ oneTable with
          tableId := 3
          level := 1
          minSeq := 2
          maxSeq := 2
          smallestKey := .ofByte 98
          largestKey := .ofByte 98 }] }

theorem twoLevels_catalog : Catalog twoLevels { nextTableId := 3 } := by
  have hst : stageApply (LevelManager.init 2) {} { newTables := [topTable, bottomTable], nextTableId := some 3 } =
      .ok (twoLevels, { nextTableId := 3 }) := by rfl
  exact catalog_of_structured ((structured_init 2).stageApply hst) (stageApply_ok_iff.mp hst).inv

theorem mem_twoLevels {level : Nat} {t : TableMeta} (ht : t ∈ twoLevels.tables level) :
    t = topTable ∧ level = 0 ∨ t = bottomTable ∧ level = 1 := by
  have hlevel := twoLevels_catalog.level_eq level t ht
  have hmem := LevelManager.mem_flatten.mpr ⟨level, ht⟩
  have heq : t = topTable ∨ t = bottomTable := by simpa [twoLevels] using hmem
  rcases heq with rfl | rfl
  · exact .inl ⟨rfl, hlevel.symm⟩
  · exact .inr ⟨rfl, hlevel.symm⟩

theorem topTable_stored : Stored twoLevelStore.files topTable [oneRemove 97 3, onePut 98 2] :=
  ⟨by decide, by decide, by unfold Ordered; decide, _, rfl, rfl, rfl⟩

theorem bottomTable_stored : Stored twoLevelStore.files bottomTable [onePut 97 1] :=
  ⟨by decide, by decide, by unfold Ordered; decide, _, rfl, rfl, rfl⟩

theorem twoLevels_filesMatch : FilesMatch twoLevels twoLevelStore.files := by
  intro level t ht
  rcases mem_twoLevels ht with ⟨rfl, -⟩ | ⟨rfl, -⟩
  · exact ⟨_, topTable_stored⟩
  · exact ⟨_, bottomTable_stored⟩

theorem twoLevelEdit_run :
    (@CompactionJob.run countingFormat twoLevelPlan twoLevels 3 twoLevelStore).1 = .ok (some twoLevelEdit) := by
  decide +kernel

/-- A table on L0 of two levels, and a trigger of one: it is compacted with the table under it. -/
theorem compaction_installable_twoLevels :
    ∃ p store' lm' c', pickCompaction twoLevels twoLevelOptions = .ok (some p) ∧
      p.overlappingTables = [bottomTable] ∧
      @CompactionJob.run countingFormat p twoLevels 3 twoLevelStore = (.ok (some twoLevelEdit), store') ∧
      stageApply twoLevels { nextTableId := 3 } twoLevelEdit = .ok (lm', c') ∧ FilesMatch lm' store'.files := by
  obtain ⟨hpick, hall⟩ := @compaction_installable countingFormat twoLevels { nextTableId := 3 } twoLevelOptions rfl
    (by decide) rfl twoLevels_catalog
  obtain ⟨p, hp⟩ := hpick (by decide)
  have hplan : p = twoLevelPlan := by
    have heq : pickCompaction twoLevels twoLevelOptions = .ok (some twoLevelPlan) := by rfl
    rw [hp] at heq
    cases heq
    rfl
  obtain ⟨-, -, -, hrun⟩ := hall p (.picked hp)
  subst hplan
  obtain ⟨lm', c', hst, -, hfiles⟩ := hrun twoLevelStore twoLevels_filesMatch _ _ (run_eq twoLevelEdit_run)
      (by decide)
    (by decide)
  exact ⟨_, _, lm', c', hp, rfl, run_eq twoLevelEdit_run, hst, hfiles⟩

end

end Kvdb
