import Kvdb.Compaction.Install

/-!
# Compaction and lookups

Committing the edit of a compaction leaves every lookup as it was.  The outputs
have the newest version of each key of the inputs, so they are as recent with
respect to the other tables as the inputs were (`Compacted.tablesRecent`).  A
tombstone is dropped only when the levels behind the target are empty, and then
what is left of its key lies above the inputs, with a version at least as new
(`dropped_covered`).
-/

namespace Kvdb

open Faulty Recency

theorem forall₂_left {α β : Type} {R : α → β → Prop} {as : List α} {bs : List β}
    (h : List.Forall₂ R as bs) :
    ∀ a ∈ as, ∃ b ∈ bs, R a b := by
  intro a ha
  exact forall₂_right h.flip a ha

/-- Tables without a common key. -/
theorem recent_of_apart {files : UInt32 → Option (List InternalRecord)} {t u : TableMeta}
    {rs rs' : List InternalRecord} (ht : Stored files t rs) (hu : Stored files u rs') (h : t.Apart u) :
    Recent (fileRecs files t) (fileRecs files u) := by
  rw [ht.fileRecs, hu.fileRecs]
  refine recent_of_disjoint fun r hr r' hr' heq => ?_
  have h1 := ht.key_mem hr
  have h2 := hu.key_mem hr'
  have hk : r.key = r'.key := heq
  rw [hk] at h1
  rcases h with h | h
  · exact absurd (h1.2.trans_lt h) (not_lt.mpr h2.1)
  · exact absurd (h2.2.trans_lt h) (not_lt.mpr h1.1)

section

variable {lm lm' : LevelManager} {c c' : StagedCounters} {files files' : UInt32 → Option (List InternalRecord)}
  {p : CompactionPlan} {next' : UInt64} {inputs : List (List InternalRecord)} {outs : List Output}
  {edit : VersionEdit}

/-! ## The levels behind the edit -/

theorem Selected.inputs_level (hsel : Selected lm p) {t : TableMeta} (ht : t ∈ p.inputs) :
    ∃ level, t ∈ lm.tables level := by
  rcases hsel.inputs_mem ht with ⟨-, h⟩ | ⟨-, h⟩
  · exact ⟨_, h⟩
  · exact ⟨_, h⟩

theorem Selected.not_deleted (hs : Structured lm) (hsel : Selected lm p) {level : Nat} {t : TableMeta}
    (ht : t ∈ lm.tables level) :
    (∀ d ∈ p.deletedTables, ¬ (t.tableId = d.tableId ∧ level = d.level.toNat)) ↔ t ∉ p.inputs := by
  constructor
  · intro h hin
    rcases hsel.inputs_mem hin with ⟨hsrc, hmem⟩ | ⟨htgt, hmem⟩
    · exact h ⟨p.sourceLevel, t.tableId⟩ (CompactionPlan.mem_deletedTables.mpr (.inl ⟨t, hsrc, rfl⟩))
        ⟨rfl, hs.level_unique ht hmem rfl⟩
    · exact h ⟨p.targetLevel, t.tableId⟩ (CompactionPlan.mem_deletedTables.mpr (.inr ⟨t, htgt, rfl⟩))
        ⟨rfl, hs.level_unique ht hmem rfl⟩
  · rintro hout d hd ⟨hid, -⟩
    rcases CompactionPlan.mem_deletedTables.mp hd with ⟨u, hu, rfl⟩ | ⟨u, hu, rfl⟩
    · exact hout (hs.unique ht (hsel.source.subset hu) hid ▸ List.mem_append.mpr (.inl hu))
    · exact hout (hs.unique ht (hsel.overlapping.subset hu) hid ▸ List.mem_append.mpr (.inr hu))

/-- The levels after a compaction: what was no input, and the outputs on the target level. -/
theorem Compacted.mem_after (hc : Catalog lm c) (hsel : Selected lm p)
    (hcomp : Compacted p lm c.nextTableId next' files files' inputs outs edit)
    (hst : stageApply lm c edit = .ok (lm', c')) (level : Nat) (t : TableMeta) :
    t ∈ lm'.tables level ↔
      (t ∈ lm.tables level ∧ t ∉ p.inputs) ∨ (t ∈ edit.newTables ∧ level = p.targetLevel.toNat) := by
  rw [(stageApply_ok_iff.mp hst).mem level t, hcomp.deleted]
  constructor
  · rintro (⟨ht, hdel⟩ | ⟨ht, hl⟩)
    · exact .inl ⟨ht, (hsel.not_deleted hc.structured ht).mp hdel⟩
    · exact .inr ⟨ht, by rw [hl, hcomp.new_level ht]⟩
  · rintro (⟨ht, hout⟩ | ⟨ht, hl⟩)
    · exact .inl ⟨ht, (hsel.not_deleted hc.structured ht).mpr hout⟩
    · exact .inr ⟨ht, by rw [hl, hcomp.new_level ht]⟩

theorem Compacted.fileRecs_old (hc : Catalog lm c)
    (hcomp : Compacted p lm c.nextTableId next' files files' inputs outs edit) {level : Nat} {t : TableMeta}
    (ht : t ∈ lm.tables level) : fileRecs files' t = fileRecs files t := by
  have hid := hc.id_lt level t ht
  have heq : files' t.tableId.toUInt32 = files t.tableId.toUInt32 := by
    refine hcomp.below _ ?_
    rw [UInt64.toNat_toUInt32]
    exact Nat.lt_of_le_of_lt (Nat.mod_le _ _) hid
  unfold fileRecs
  rw [heq]

/-- The records of the outputs. -/
theorem Compacted.fileRecs_new (hsel : Selected lm p) (hf : FilesMatch lm files)
    (hcomp : Compacted p lm c.nextTableId next' files files' inputs outs edit) (r : InternalRecord) :
    (∃ t ∈ edit.newTables, r ∈ fileRecs files' t) ↔ r ∈ compactedRecords p lm inputs := by
  rw [← hcomp.records, List.mem_flatMap]
  constructor
  · rintro ⟨t, ht, hr⟩
    obtain ⟨o, ho, hmade⟩ := forall₂_right hcomp.made t ht
    rw [(hcomp.new_stored hsel hf ho hmade).fileRecs] at hr
    exact ⟨o, ho, hr⟩
  · rintro ⟨o, ho, hr⟩
    obtain ⟨t, ht, hmade⟩ := forall₂_left hcomp.made o ho
    refine ⟨t, ht, ?_⟩
    rw [(hcomp.new_stored hsel hf ho hmade).fileRecs]
    exact hr

/-- What an output has is the newest version of its key in some input. -/
theorem Compacted.newest_input (hsel : Selected lm p) (hf : FilesMatch lm files)
    (hcomp : Compacted p lm c.nextTableId next' files files' inputs outs edit) {r : InternalRecord}
    (hr : r ∈ compactedRecords p lm inputs) : ∃ q ∈ p.inputs, Newest (fileRecs files q) r := by
  have hkept := compactedRecords_kept hsel hf hcomp.read
  obtain ⟨q, hq, rs, hrs, hmem⟩ := (mem_inputs hcomp.read).mp (hkept.mem r hr)
  refine ⟨q, hq, ⟨rs, hrs, hmem⟩, fun x ⟨rs', hrs', hx⟩ hk => ?_⟩
  exact hkept.newest r hr x ((mem_inputs hcomp.read).mpr ⟨q, hq, rs', hrs', hx⟩) hk

/-! ## Recency -/

/-- A table that stays, on the source level or above it, is more recent than the inputs. -/
theorem recent_over_input (hf : FilesMatch lm files) (hrec : TablesRecent lm files) (hsel : Selected lm p)
    {level : Nat} (hlevel : level ≤ p.sourceLevel.toNat) {t q : TableMeta} (ht : t ∈ lm.tables level)
    (hout : t ∉ p.inputs) (hq : q ∈ p.inputs) : Recent (fileRecs files t) (fileRecs files q) := by
  rcases hsel.inputs_mem hq with ⟨hsrc, hmem⟩ | ⟨-, hmem⟩
  · rcases Nat.lt_or_eq_of_le hlevel with hlt | heq
    · exact hrec.levels _ _ hlt t ht q hmem
    · -- on the source level itself it has no key of the selected tables
      subst heq
      obtain ⟨rs, hrs⟩ := hf _ t ht
      obtain ⟨rs', hrs'⟩ := hf _ q hmem
      have hnot : t ∉ p.sourceTables := fun h => hout (List.mem_append.mpr (.inl h))
      exact recent_of_apart hrs hrs' (hsel.sourceRest t ht hnot q hsrc)
  · have htl := hsel.target_toNat
    exact hrec.levels _ _ (by omega) t ht q hmem

/-- The inputs are more recent than the levels behind the target. -/
theorem input_recent (hrec : TablesRecent lm files) (hsel : Selected lm p) {level : Nat}
    (hlevel : p.targetLevel.toNat < level) {t q : TableMeta} (hq : q ∈ p.inputs) (ht : t ∈ lm.tables level) :
    Recent (fileRecs files q) (fileRecs files t) := by
  have htl := hsel.target_toNat
  rcases hsel.inputs_mem hq with ⟨-, hmem⟩ | ⟨-, hmem⟩
  · exact hrec.levels _ _ (by omega) q hmem t ht
  · exact hrec.levels _ _ hlevel q hmem t ht

/-- A compaction keeps the order of recency. -/
theorem Compacted.tablesRecent (hc : Catalog lm c) (hf : FilesMatch lm files) (hrec : TablesRecent lm files)
    (hsel : Selected lm p) (hcomp : Compacted p lm c.nextTableId next' files files' inputs outs edit)
    (hst : stageApply lm c edit = .ok (lm', c')) : TablesRecent lm' files' := by
  have hmem := hcomp.mem_after hc hsel hst
  have htl := hsel.target_toNat
  refine ⟨?_, ?_⟩
  · intro l l' hlt t ht u hu
    rcases (hmem l t).mp ht with ⟨ht, hout⟩ | ⟨ht, hl⟩
    · rcases (hmem l' u).mp hu with ⟨hu, -⟩ | ⟨hu, hl'⟩
      · rw [hcomp.fileRecs_old hc ht, hcomp.fileRecs_old hc hu]
        exact hrec.levels l l' hlt t ht u hu
      · rw [hcomp.fileRecs_old hc ht]
        intro r s hr hs hk
        obtain ⟨q, hq, hsq⟩ := hcomp.newest_input hsel hf ((hcomp.fileRecs_new hsel hf s).mp ⟨u, hu, hs.1⟩)
        exact recent_over_input hf hrec hsel (by omega) ht hout hq r s hr hsq hk
    · rcases (hmem l' u).mp hu with ⟨hu, -⟩ | ⟨hu, hl'⟩
      · rw [hcomp.fileRecs_old hc hu]
        intro r s hr hs hk
        obtain ⟨q, hq, hrq⟩ := hcomp.newest_input hsel hf ((hcomp.fileRecs_new hsel hf r).mp ⟨t, ht, hr.1⟩)
        exact input_recent hrec hsel (by omega) hq hu r s hrq hs hk
      · omega
  · intro t ht u hu hid
    rcases (hmem 0 t).mp ht with ⟨ht, -⟩ | ⟨-, hl⟩
    · rcases (hmem 0 u).mp hu with ⟨hu, -⟩ | ⟨-, hl⟩
      · rw [hcomp.fileRecs_old hc ht, hcomp.fileRecs_old hc hu]
        exact hrec.newestFirst t ht u hu hid
      · omega
    · omega

/-! ## What is left -/

theorem Compacted.tableRecs_subset (hc : Catalog lm c) (hf : FilesMatch lm files) (hsel : Selected lm p)
    (hcomp : Compacted p lm c.nextTableId next' files files' inputs outs edit)
    (hst : stageApply lm c edit = .ok (lm', c')) : tableRecs lm' files' ⊆ tableRecs lm files := by
  rintro r ⟨level, t, ht, hr⟩
  rcases (hcomp.mem_after hc hsel hst level t).mp ht with ⟨ht, -⟩ | ⟨ht, -⟩
  · rw [hcomp.fileRecs_old hc ht] at hr
    exact ⟨level, t, ht, hr⟩
  · obtain ⟨q, hq, hn⟩ := hcomp.newest_input hsel hf ((hcomp.fileRecs_new hsel hf r).mp ⟨t, ht, hr⟩)
    obtain ⟨l, hl⟩ := hsel.inputs_level hq
    exact ⟨l, q, hl, hn.1⟩

/-- Nothing lies behind the target of a bottommost compaction. -/
theorem tables_below_bottommost (h : isBottommostDestination lm p.targetLevel = true) {level : Nat}
    (hlevel : p.targetLevel.toNat < level) : lm.tables level = [] := by
  unfold isBottommostDestination at h
  unfold LevelManager.tables
  rw [List.getD_eq_getElem?_getD]
  cases hget : lm.levels[level]? with
  | none => rfl
  | some ts =>
    have hmem : ts ∈ lm.levels.drop (p.targetLevel.toNat + 1) := by
      refine List.mem_of_getElem? (i := level - (p.targetLevel.toNat + 1)) ?_
      rw [List.getElem?_drop]
      have hsum : p.targetLevel.toNat + 1 + (level - (p.targetLevel.toNat + 1)) = level := by omega
      rw [hsum]
      exact hget
    exact List.isEmpty_iff.mp (List.all_eq_true.mp h ts hmem)

/-- **A tombstone is dropped only when nothing older is left.**  When a bottommost compaction
drops the newest version of a key in its inputs, the key is left only above the source level or
beside the source tables, in tables whose newest version is not older. -/
theorem dropped_covered (hc : Catalog lm c) (hf : FilesMatch lm files) (hrec : TablesRecent lm files)
    (hsel : Selected lm p) (hcomp : Compacted p lm c.nextTableId next' files files' inputs outs edit)
    (hst : stageApply lm c edit = .ok (lm', c')) {r : InternalRecord} (hr : r ∈ inputs.flatten)
    (hnewest : ∀ x ∈ inputs.flatten, x.key = r.key → x.seqNum.toNat ≤ r.seqNum.toNat)
    (hdropped : ¬ ∃ x ∈ compactedRecords p lm inputs, x.key = r.key) {level : Nat} {u : TableMeta}
    (hu : u ∈ lm'.tables level) (hold : Holds (fileRecs files' u) r.key) :
    level ≤ p.sourceLevel.toNat ∧ ∃ q ∈ p.inputs, Newest (fileRecs files q) r ∧
      u ∈ lm.tables level ∧ u ∉ p.inputs ∧ Recent (fileRecs files' u) (fileRecs files q) := by
  obtain ⟨x, hx, hkx⟩ := hold
  have hbottom : isBottommostDestination lm p.targetLevel = true := by
    rcases (compactedRecords_kept hsel hf hcomp.read).covers r hr with h | ⟨h, -⟩
    · exact absurd h hdropped
    · exact h
  obtain ⟨q, hq, rs, hrs, hmem⟩ := (mem_inputs hcomp.read).mp hr
  have hnq : Newest (fileRecs files q) r :=
    ⟨⟨rs, hrs, hmem⟩, fun y ⟨rs', hrs', hy⟩ hk =>
      hnewest y ((mem_inputs hcomp.read).mpr ⟨q, hq, rs', hrs', hy⟩) hk⟩
  have hrange : p.smallestKey ≤ r.key ∧ r.key ≤ p.largestKey := by
    obtain ⟨rs', hstored⟩ := hsel.inputs_stored hf hq
    rw [hstored.file] at hrs
    cases hrs
    have hcov := hsel.covers q (List.mem_append.mp hq)
    exact ⟨hcov.1.trans (hstored.key_mem hmem).1, (hstored.key_mem hmem).2.trans hcov.2⟩
  rcases (hcomp.mem_after hc hsel hst level u).mp hu with ⟨hu, hout⟩ | ⟨hu, -⟩
  · rw [hcomp.fileRecs_old hc hu] at hx ⊢
    have hle : level ≤ p.sourceLevel.toNat := by
      by_contra hgt
      have htl := hsel.target_toNat
      by_cases heq : level = p.targetLevel.toNat
      · -- what is left on the target level is outside the range
        subst heq
        obtain ⟨rs', hstored⟩ := hf _ u hu
        rw [hstored.fileRecs] at hx
        have hin := hstored.key_mem hx
        have hkx' : x.key = r.key := hkx
        rw [hkx'] at hin
        rcases hsel.targetRest u hu fun h => hout (List.mem_append.mpr (.inr h)) with h | h
        · exact absurd (hin.2.trans_lt h) (not_lt.mpr hrange.1)
        · exact absurd (h.trans_le hin.1) (not_lt.mpr hrange.2)
      · have hnil := tables_below_bottommost hbottom (show p.targetLevel.toNat < level by omega)
        rw [hnil] at hu
        cases hu
    exact ⟨hle, q, hq, hnq, hu, hout, recent_over_input hf hrec hsel hle hu hout hq⟩
  · exact absurd ⟨x, (hcomp.fileRecs_new hsel hf x).mp ⟨u, hu, hx⟩, hkx⟩ hdropped

/-- The newest version of a key stays, or it was a tombstone and the key is gone. -/
theorem Compacted.newest_stays (hc : Catalog lm c) (hf : FilesMatch lm files) (hrec : TablesRecent lm files)
    (hsel : Selected lm p) (hcomp : Compacted p lm c.nextTableId next' files files' inputs outs edit)
    (hst : stageApply lm c edit = .ok (lm', c')) {r : InternalRecord} (hr : Newest (tableRecs lm files) r) :
    r ∈ tableRecs lm' files' ∨ (r.type = .tombstone ∧ ¬ Holds (tableRecs lm' files') r.key) := by
  have hmem := hcomp.mem_after hc hsel hst
  have hsub := hcomp.tableRecs_subset hc hf hsel hst
  have hkept := compactedRecords_kept hsel hf hcomp.read
  have hinput : ∀ x ∈ inputs.flatten, x ∈ tableRecs lm files := by
    intro x hx
    obtain ⟨q, hq, rs, hrs, hxr⟩ := (mem_inputs hcomp.read).mp hx
    obtain ⟨l, hl⟩ := hsel.inputs_level hq
    exact ⟨l, q, hl, rs, hrs, hxr⟩
  have hsame : ∀ x ∈ tableRecs lm files, x.key = r.key → r.seqNum.toNat ≤ x.seqNum.toNat → x = r := by
    intro x hx hk hle
    refine newest_unique hc hf hrec ⟨hx, fun y hy hky => ?_⟩ hr hk
    exact (hr.2 y hy (hky.trans hk)).trans hle
  by_cases hstay : r ∈ tableRecs lm' files'
  · exact .inl hstay
  refine .inr ?_
  obtain ⟨level, q, hq, hrq⟩ := hr.1
  have hqin : q ∈ p.inputs := by
    by_contra hout
    exact hstay ⟨level, q, (hmem level q).mpr (.inl ⟨hq, hout⟩), by rw [hcomp.fileRecs_old hc hq]; exact hrq⟩
  have hrin : r ∈ inputs.flatten := by
    obtain ⟨rs, hrs, hmr⟩ := hrq
    exact (mem_inputs hcomp.read).mpr ⟨q, hqin, rs, hrs, hmr⟩
  have hnewest : ∀ x ∈ inputs.flatten, x.key = r.key → x.seqNum.toNat ≤ r.seqNum.toNat :=
    fun x hx hk => hr.2 x (hinput x hx) hk
  have hdropped : ¬ ∃ x ∈ compactedRecords p lm inputs, x.key = r.key := by
    rintro ⟨x, hx, hk⟩
    have heq := hsame x (hinput x (hkept.mem x hx)) hk (hkept.newest x hx r hrin hk.symm)
    subst heq
    obtain ⟨t, ht, hxt⟩ := (hcomp.fileRecs_new hsel hf x).mpr hx
    exact hstay ⟨_, t, (hmem _ t).mpr (.inr ⟨ht, rfl⟩), hxt⟩
  constructor
  · rcases hkept.covers r hrin with h | ⟨-, x, hx, hk, htomb, hmax⟩
    · exact absurd h hdropped
    · have heq := hsame x (hinput x hx) hk (hmax r hrin hk.symm)
      subst heq
      exact htomb
  · rintro ⟨x, ⟨l, u, hu, hx⟩, hk⟩
    obtain ⟨-, q', hq', hnq', hul, hout, hrecent⟩ :=
      dropped_covered hc hf hrec hsel hcomp hst hrin hnewest hdropped hu ⟨x, hx, hk⟩
    -- the newest version left is not older, so it is the tombstone itself
    have hfin : (fileRecs files' u).Finite := fileRecs_finite (hcomp.filesMatch hc hsel hf hst) hu
    obtain ⟨y, hy, hky⟩ := exists_newest hfin ⟨x, hx, hk⟩
    have hle := (hrecent y r hy hnq' hky).1
    have hyin : y ∈ tableRecs lm' files' := ⟨l, u, hu, hy.1⟩
    have heq := hsame y (hsub hyin) hky hle
    exact hstay (heq ▸ hyin)

/-! ## Lookups -/

/-- **Compaction keeps every lookup.** -/
theorem Compacted.lookup_eq (hc : Catalog lm c) (hf : FilesMatch lm files) (hrec : TablesRecent lm files)
    (hsel : Selected lm p) (hcomp : Compacted p lm c.nextTableId next' files files' inputs outs edit)
    (hst : stageApply lm c edit = .ok (lm', c')) (mem : MemTable) (key : List UInt8) :
    lookup mem lm' files' key = lookup mem lm files key := by
  unfold lookup
  cases ArenaEntry.makeEntry key with
  | none => rfl
  | some k =>
    simp only
    unfold search
    cases mem.get k with
    | some r => rfl
    | none =>
      have hc' := catalog_of_structured (hc.structured.stageApply hst) (stageApply_ok_iff.mp hst).inv
      have hf' := hcomp.filesMatch hc hsel hf hst
      have hrec' := hcomp.tablesRecent hc hf hrec hsel hst
      have hsub := hcomp.tableRecs_subset hc hf hsel hst
      obtain ⟨o, ho, hfind⟩ := searchLevels_newest hc hf hrec k
      obtain ⟨o', ho', hfind'⟩ := searchLevels_newest hc' hf' hrec' k
      simp only [ho, ho', ok_bind]
      rcases hfind with ⟨rfl, hno⟩ | ⟨r, rfl, hr, hk⟩
      · rcases hfind' with ⟨rfl, -⟩ | ⟨r', rfl, hr', hk'⟩
        · rfl
        · exact absurd ⟨r', hsub hr'.1, hk'⟩ hno
      · rcases hcomp.newest_stays hc hf hrec hsel hst hr with hstay | ⟨htomb, hgone⟩
        · rcases hfind' with ⟨rfl, hno'⟩ | ⟨r', rfl, hr', hk'⟩
          · exact absurd ⟨r, hstay, hk⟩ hno'
          · have hle : r.seqNum.toNat ≤ r'.seqNum.toNat := hr'.2 r hstay (hk.trans hk'.symm)
            have hn' : Newest (tableRecs lm files) r' := by
              refine ⟨hsub hr'.1, fun x hx hkx => ?_⟩
              exact (hr.2 x hx (hkx.trans (hk'.trans hk.symm))).trans hle
            rw [newest_unique hc hf hrec hn' hr (hk'.trans hk.symm)]
        · rcases hfind' with ⟨rfl, -⟩ | ⟨r', rfl, hr', hk'⟩
          · show Except.ok none = apiValue r
            rw [apiValue, htomb]
          · exact absurd ⟨r', hr'.1, hk'.trans hk.symm⟩ hgone

end

theorem twoLevels_recent : TablesRecent twoLevels twoLevelStore.files := by
  have hrecent : Recent (fileRecs twoLevelStore.files topTable) (fileRecs twoLevelStore.files bottomTable) := by
    rw [topTable_stored.fileRecs, bottomTable_stored.fileRecs]
    have hnewer : ∀ r ∈ [oneRemove 97 3, onePut 98 2], ∀ r' ∈ [onePut 97 1],
        r'.seqNum.toNat < r.seqNum.toNat := by
      decide
    intro r r' hr hr' _
    have hlt := hnewer r hr.1 r' hr'.1
    exact ⟨hlt.le, fun heq => absurd heq hlt.ne⟩
  refine ⟨?_, ?_⟩
  · intro l l' hlt t ht u hu
    rcases mem_twoLevels ht with ⟨rfl, rfl⟩ | ⟨rfl, rfl⟩
    · rcases mem_twoLevels hu with ⟨rfl, rfl⟩ | ⟨rfl, rfl⟩
      · exact absurd hlt (Nat.lt_irrefl _)
      · exact hrecent
    · rcases mem_twoLevels hu with ⟨rfl, rfl⟩ | ⟨rfl, rfl⟩ <;> omega
  · intro t ht u hu hlt
    rcases mem_twoLevels ht with ⟨rfl, -⟩ | ⟨-, h⟩
    · rcases mem_twoLevels hu with ⟨rfl, -⟩ | ⟨-, h⟩
      · exact absurd hlt (Nat.lt_irrefl _)
      · cases h
    · cases h

end Kvdb
