import Mathlib.Data.List.Perm.Subperm
import Mathlib.Order.MinMax
import Kvdb.Compaction.Plan
import Kvdb.Manifest.Catalog

/-!
# What a plan selects

`Selected lm p`: the inputs of `p` are tables of its two levels, inside its range;
no other table of the target level touches the range, and no other table of the
source level has a key in common with a source table.  Every plan of the
scheduler and of `Engine::compact_range` is `Selected` (`pickCompaction_selected`,
`manualPlan_selected`).

The target tables are searched once and the range is then widened by them.  That
is enough on a level of disjoint ranges: what lies outside the old range lies
beyond the table that moved the bound (`takeOverlapping_rest`).
-/

namespace Kvdb

structure Selected (lm : LevelManager) (p : CompactionPlan) : Prop where
  level_lt : p.sourceLevel.toNat + 1 < 2 ^ 32
  target_eq : p.targetLevel = p.sourceLevel + 1
  source_ne : p.sourceTables ≠ []
  source : p.sourceTables.Sublist (lm.tables p.sourceLevel.toNat)
  overlapping : p.overlappingTables.Sublist (lm.tables p.targetLevel.toNat)
  covers : ∀ t, t ∈ p.sourceTables ∨ t ∈ p.overlappingTables →
    p.smallestKey ≤ t.smallestKey ∧ t.largestKey ≤ p.largestKey
  targetRest : ∀ t ∈ lm.tables p.targetLevel.toNat, t ∉ p.overlappingTables →
    t.largestKey < p.smallestKey ∨ p.largestKey < t.smallestKey
  sourceRest : ∀ t ∈ lm.tables p.sourceLevel.toNat, t ∉ p.sourceTables → ∀ u ∈ p.sourceTables, t.Apart u

theorem Selected.target_toNat {lm : LevelManager} {p : CompactionPlan} (h : Selected lm p) :
    p.targetLevel.toNat = p.sourceLevel.toNat + 1 := by
  have hlt := h.level_lt
  rw [h.target_eq, UInt32.toNat_add, UInt32.toNat_one]
  omega

/-! ## Widening -/

/-- `q` is `p` with its range widened by the tables, and by nothing else. -/
structure Widened (p : CompactionPlan) (ts : List TableMeta) (q : CompactionPlan) : Prop where
  same : q = { p with smallestKey := q.smallestKey, largestKey := q.largestKey }
  low : q.smallestKey ≤ p.smallestKey
  high : p.largestKey ≤ q.largestKey
  covers : ∀ t ∈ ts, q.smallestKey ≤ t.smallestKey ∧ t.largestKey ≤ q.largestKey
  lowFrom : q.smallestKey = p.smallestKey ∨ ∃ t ∈ ts, q.smallestKey = t.smallestKey
  highFrom : q.largestKey = p.largestKey ∨ ∃ t ∈ ts, q.largestKey = t.largestKey

theorem widenPlanRange_smallest (p : CompactionPlan) (t : TableMeta) :
    (p.widenPlanRange t).smallestKey = min p.smallestKey t.smallestKey := by
  show (if t.smallestKey.lt p.smallestKey = true then t.smallestKey else p.smallestKey) = _
  by_cases h : t.smallestKey < p.smallestKey
  · rw [if_pos ((ArenaEntry.lt_iff _ _).mpr h), min_eq_right h.le]
  · rw [if_neg (by rwa [ArenaEntry.lt_iff]), min_eq_left (not_lt.mp h)]

theorem widenPlanRange_largest (p : CompactionPlan) (t : TableMeta) :
    (p.widenPlanRange t).largestKey = max p.largestKey t.largestKey := by
  show (if p.largestKey.lt t.largestKey = true then t.largestKey else p.largestKey) = _
  by_cases h : p.largestKey < t.largestKey
  · rw [if_pos ((ArenaEntry.lt_iff _ _).mpr h), max_eq_right h.le]
  · rw [if_neg (by rwa [ArenaEntry.lt_iff]), max_eq_left (not_lt.mp h)]

theorem widened_foldl (ts : List TableMeta) (p : CompactionPlan) :
    Widened p ts (ts.foldl CompactionPlan.widenPlanRange p) := by
  induction ts generalizing p with
  | nil => exact ⟨rfl, le_refl _, le_refl _, by simp, .inl rfl, .inl rfl⟩
  | cons t ts ih =>
    have h := ih (p.widenPlanRange t)
    have hs := widenPlanRange_smallest p t
    have hl := widenPlanRange_largest p t
    have hlow := h.low
    have hhigh := h.high
    rw [hs] at hlow
    rw [hl] at hhigh
    obtain ⟨hlow1, hlow2⟩ := le_min_iff.mp hlow
    obtain ⟨hhigh1, hhigh2⟩ := max_le_iff.mp hhigh
    rw [List.foldl_cons]
    refine ⟨h.same, hlow1, hhigh1, ?_, ?_, ?_⟩
    · intro u hu
      rcases List.mem_cons.mp hu with rfl | hu
      · exact ⟨hlow2, hhigh2⟩
      · exact h.covers u hu
    · rcases h.lowFrom with heq | ⟨u, hu, heq⟩
      · rw [heq, hs]
        rcases min_choice p.smallestKey t.smallestKey with hm | hm
        · exact .inl hm
        · exact .inr ⟨t, by simp, hm⟩
      · exact .inr ⟨u, by simp [hu], heq⟩
    · rcases h.highFrom with heq | ⟨u, hu, heq⟩
      · rw [heq, hl]
        rcases max_choice p.largestKey t.largestKey with hm | hm
        · exact .inl hm
        · exact .inr ⟨t, by simp, hm⟩
      · exact .inr ⟨u, by simp [hu], heq⟩

namespace Widened

variable {p q : CompactionPlan} {ts : List TableMeta}

theorem sourceLevel (h : Widened p ts q) : q.sourceLevel = p.sourceLevel := by rw [h.same]

theorem targetLevel (h : Widened p ts q) : q.targetLevel = p.targetLevel := by rw [h.same]

theorem sourceTables (h : Widened p ts q) : q.sourceTables = p.sourceTables := by rw [h.same]

theorem overlappingTables (h : Widened p ts q) : q.overlappingTables = p.overlappingTables := by rw [h.same]

theorem range (h : Widened p ts q) (hp : p.smallestKey ≤ p.largestKey) : q.smallestKey ≤ q.largestKey :=
  h.low.trans (hp.trans h.high)

/-- A range that covers the tables already is not widened. -/
theorem range_eq (h : Widened p ts q)
    (hin : ∀ t ∈ ts, p.smallestKey ≤ t.smallestKey ∧ t.largestKey ≤ p.largestKey) :
    q.smallestKey = p.smallestKey ∧ q.largestKey = p.largestKey := by
  constructor
  · rcases h.lowFrom with heq | ⟨t, ht, heq⟩
    · exact heq
    · exact le_antisymm h.low (heq ▸ (hin t ht).1)
  · rcases h.highFrom with heq | ⟨t, ht, heq⟩
    · exact heq
    · exact le_antisymm (heq ▸ (hin t ht).2) h.high

end Widened

/-! ## The tables of the target level -/

theorem findOverlappingTables_sublist (lm : LevelManager) (level : Nat) (smallest largest : ArenaEntry) :
    (lm.findOverlappingTables level smallest largest).Sublist (lm.tables level) := by
  unfold LevelManager.findOverlappingTables
  split
  · exact List.nil_sublist _
  · split
    · next h0 =>
      subst h0
      exact List.filter_sublist
    · exact (List.takeWhile_sublist _).trans (List.dropWhile_sublist _)

theorem takeOverlapping_widened (lm : LevelManager) (p : CompactionPlan) :
    Widened { p with overlappingTables := lm.findOverlappingTables p.targetLevel.toNat p.smallestKey p.largestKey }
      (lm.findOverlappingTables p.targetLevel.toNat p.smallestKey p.largestKey) (p.takeOverlapping lm) :=
  widened_foldl _ _

section

variable {lm : LevelManager}

/-- **One-pass widening.**  What the search of the target level left out stays outside the range
that the found tables widened. -/
theorem takeOverlapping_rest (hs : Structured lm) {p : CompactionPlan} (hp : p.smallestKey ≤ p.largestKey)
    (hlevel : p.targetLevel.toNat ≠ 0) {t : TableMeta} (ht : t ∈ lm.tables p.targetLevel.toNat)
    (hout : t ∉ (p.takeOverlapping lm).overlappingTables) :
    t.largestKey < (p.takeOverlapping lm).smallestKey ∨ (p.takeOverlapping lm).largestKey < t.smallestKey := by
  have hw := takeOverlapping_widened lm p
  have hmem := hs.mem_findOverlappingTables p.targetLevel.toNat hp
  rw [hw.overlappingTables] at hout
  have hrange := hs.range _ t ht
  have hapart : ∀ u ∈ lm.findOverlappingTables p.targetLevel.toNat p.smallestKey p.largestKey, t.Apart u := by
    intro u hu
    refine apart_of_ascending (hs.ascending hlevel) ht ((hmem u).mp hu).1 fun heq => ?_
    subst heq
    exact hout hu
  have hside : t.largestKey < p.smallestKey ∨ p.largestKey < t.smallestKey := by
    by_contra hcon
    rw [not_or, not_lt, not_lt] at hcon
    exact hout ((hmem t).mpr ⟨ht, hcon.1, hcon.2⟩)
  rcases hside with hside | hside
  · -- left of the old range: a table that moved the lower bound ends behind it
    refine .inl ?_
    rcases hw.lowFrom with heq | ⟨u, hu, heq⟩
    · rw [heq]
      exact hside
    · rw [heq]
      rcases hapart u hu with h | h
      · exact h
      · have hback := hrange.trans_lt (hside.trans_le ((hmem u).mp hu).2.1)
        exact absurd (hback.trans h) (lt_irrefl _)
  · refine .inr ?_
    rcases hw.highFrom with heq | ⟨u, hu, heq⟩
    · rw [heq]
      exact hside
    · rw [heq]
      rcases hapart u hu with h | h
      · have hback := ((hmem u).mp hu).2.2.trans_lt (hside.trans_le hrange)
        exact absurd (hback.trans h) (lt_irrefl _)
      · exact h

/-! ## Validation -/

theorem validateTables_some {p : CompactionPlan} {level : UInt32} {ts : List TableMeta} (ids : List UInt64)
    (hok : ∀ t ∈ ts, t.tableId ≠ 0 ∧ t.level = level ∧ t.smallestKey ≤ t.largestKey ∧
      p.smallestKey ≤ t.smallestKey ∧ t.largestKey ≤ p.largestKey)
    (hnodup : (ts.map TableMeta.tableId).Nodup) (hfresh : ∀ t ∈ ts, t.tableId ∉ ids) :
    ∃ ids', ts.foldlM (p.validateTable level) ids = some ids' ∧
      ∀ id, id ∈ ids' ↔ id ∈ ids ∨ id ∈ ts.map TableMeta.tableId := by
  induction ts generalizing ids with
  | nil => exact ⟨ids, rfl, by simp⟩
  | cons t ts ih =>
    obtain ⟨hid, hlevel, hr, hlow, hhigh⟩ := hok t (by simp)
    rw [List.map_cons, List.nodup_cons] at hnodup
    have hstep : p.validateTable level ids t = some (t.tableId :: ids) := by
      unfold CompactionPlan.validateTable
      rw [if_neg (by simp [hid, hlevel]), if_neg, if_neg (hfresh t (by simp))]
      simp [tableRangeIsValid, rangeContains, lt_eq_false_iff.mpr hr, lt_eq_false_iff.mpr hlow,
        lt_eq_false_iff.mpr hhigh]
    have hrest : ∀ u ∈ ts, u.tableId ∉ t.tableId :: ids := by
      intro u hu hin
      rcases List.mem_cons.mp hin with heq | hin
      · exact hnodup.1 (heq ▸ List.mem_map_of_mem hu)
      · exact hfresh u (by simp [hu]) hin
    obtain ⟨ids', hids', hmem⟩ := ih (t.tableId :: ids) (fun u hu => hok u (by simp [hu])) hnodup.2 hrest
    refine ⟨ids', ?_, fun id => ?_⟩
    · rw [List.foldlM_cons, hstep]
      exact hids'
    · rw [hmem, List.mem_cons, List.map_cons, List.mem_cons]
      tauto

theorem Structured.nodup_ids (hs : Structured lm) (level : Nat) :
    ((lm.tables level).map TableMeta.tableId).Nodup := by
  by_cases hlevel : level < lm.levelCount
  · have hids := hs.ids
    rw [LevelManager.levels_eq hlevel, List.flatten_append, List.flatten_cons, List.map_append, List.map_append] at hids
    exact (List.nodup_append.mp (List.nodup_append.mp hids).2.1).1
  · have hnil : lm.tables level = [] := by
      rw [← List.isEmpty_iff]
      by_contra hne
      obtain ⟨t, ht⟩ := List.exists_mem_of_ne_nil _ (by simpa using hne : lm.tables level ≠ [])
      exact hlevel (LevelManager.mem_tables_level ht)
    rw [hnil]
    exact List.nodup_nil

/-- Tables of different levels have different ids. -/
theorem Structured.level_unique (hs : Structured lm) {level level' : Nat} {t u : TableMeta}
    (ht : t ∈ lm.tables level) (hu : u ∈ lm.tables level') (hid : t.tableId = u.tableId) : level = level' := by
  have heq := hs.unique ht hu hid
  subst heq
  exact (hs.level_eq _ t ht).symm.trans (hs.level_eq _ t hu)

theorem Selected.range (hs : Structured lm) {p : CompactionPlan} (h : Selected lm p) :
    p.smallestKey ≤ p.largestKey := by
  obtain ⟨t, ht⟩ := List.exists_mem_of_ne_nil _ h.source_ne
  have hc := h.covers t (.inl ht)
  exact hc.1.trans ((hs.range _ t (h.source.subset ht)).trans hc.2)

theorem Selected.validate (hs : Structured lm) {p : CompactionPlan} (h : Selected lm p)
    (hsize : p.maxOutputFileSize ≠ 0) (hl0 : p.reason = .l0ReachedLimit → p.sourceLevel = 0)
    (hlx : p.reason = .lxReachedLimit → p.sourceLevel ≠ 0) : p.validate = true := by
  have hlevel := h.level_lt
  have hsource : ∀ t ∈ p.sourceTables, t.tableId ≠ 0 ∧ t.level = p.sourceLevel ∧
      t.smallestKey ≤ t.largestKey ∧
      p.smallestKey ≤ t.smallestKey ∧ t.largestKey ≤ p.largestKey := by
    intro t ht
    have hmem := h.source.subset ht
    exact ⟨hs.id_ne _ t hmem, UInt32.toNat_inj.mp (hs.level_eq _ t hmem), hs.range _ t hmem, h.covers t (.inl ht)⟩
  have htarget : ∀ t ∈ p.overlappingTables, t.tableId ≠ 0 ∧ t.level = p.targetLevel ∧
      t.smallestKey ≤ t.largestKey ∧ p.smallestKey ≤ t.smallestKey ∧ t.largestKey ≤ p.largestKey := by
    intro t ht
    have hmem := h.overlapping.subset ht
    exact ⟨hs.id_ne _ t hmem, UInt32.toNat_inj.mp (hs.level_eq _ t hmem), hs.range _ t hmem, h.covers t (.inr ht)⟩
  obtain ⟨ids, hids, hmem⟩ := validateTables_some [] hsource
    ((hs.nodup_ids _).sublist (h.source.map _)) (by simp)
  have hfresh : ∀ t ∈ p.overlappingTables, t.tableId ∉ ids := by
    intro t ht hin
    rcases (hmem _).mp hin with hin | hin
    · cases hin
    · obtain ⟨u, hu, heq⟩ := List.mem_map.mp hin
      have hsame := hs.level_unique (h.source.subset hu) (h.overlapping.subset ht) heq
      have := h.target_toNat
      omega
  obtain ⟨ids', hids', -⟩ := validateTables_some ids htarget
    ((hs.nodup_ids _).sublist (h.overlapping.map _)) hfresh
  unfold CompactionPlan.validate
  rw [if_neg h.source_ne, if_neg, if_neg hsize, if_neg, if_neg, if_neg, hids]
  · show (p.overlappingTables.foldlM (p.validateTable p.targetLevel) ids).isSome = true
    rw [hids']
    rfl
  · rintro ⟨hr, h0⟩
    exact hlx hr h0
  · rintro ⟨hr, h0⟩
    exact h0 (hl0 hr)
  · rw [Bool.not_eq_true, lt_eq_false_iff]
    exact h.range hs
  · rintro (hmax | hne)
    · omega
    · exact hne h.target_eq

/-! ## Plans of the scheduler -/

theorem maxElement_mem (best : TableMeta) (ts : List TableMeta) : maxElement best ts ∈ best :: ts := by
  induction ts generalizing best with
  | nil => exact List.mem_singleton_self best
  | cons t ts ih =>
    rw [maxElement]
    rcases List.mem_cons.mp (ih (if smallerTable best t then t else best)) with heq | hmem
    · rw [heq]
      split
      · simp
      · simp
    · exact List.mem_cons_of_mem best (List.mem_cons_of_mem t hmem)

/-- A plan with its sources, widened by them and then by the tables that overlap. -/
theorem sources_selected (hs : Structured lm) {p : CompactionPlan} (hlevel : p.sourceLevel.toNat + 1 < 2 ^ 32)
    (htarget : p.targetLevel = p.sourceLevel + 1) (hne : p.sourceTables ≠ [])
    (hsource : p.sourceTables.Sublist (lm.tables p.sourceLevel.toNat)) (hp : p.smallestKey ≤ p.largestKey)
    (hrest : ∀ t ∈ lm.tables p.sourceLevel.toNat, t ∉ p.sourceTables → ∀ u ∈ p.sourceTables, t.Apart u) :
    Selected lm ((p.sourceTables.foldl CompactionPlan.widenPlanRange p).takeOverlapping lm) := by
  have hw := widened_foldl p.sourceTables p
  generalize p.sourceTables.foldl CompactionPlan.widenPlanRange p = q at hw ⊢
  have hw' := takeOverlapping_widened lm q
  have htarget0 : q.targetLevel.toNat ≠ 0 := by
    rw [hw.targetLevel, htarget, UInt32.toNat_add, UInt32.toNat_one]
    omega
  have hsl : (q.takeOverlapping lm).sourceLevel = p.sourceLevel := hw'.sourceLevel.trans hw.sourceLevel
  have htl : (q.takeOverlapping lm).targetLevel = q.targetLevel := hw'.targetLevel
  have hst : (q.takeOverlapping lm).sourceTables = p.sourceTables := hw'.sourceTables.trans hw.sourceTables
  have hot := hw'.overlappingTables
  refine ⟨by rw [hsl]; exact hlevel, by rw [hsl, htl, hw.targetLevel]; exact htarget, by rw [hst]; exact hne,
    by rw [hsl, hst]; exact hsource, ?_, ?_, ?_, by rw [hsl, hst]; exact hrest⟩
  · rw [htl, hot]
    exact findOverlappingTables_sublist lm _ _ _
  · rintro t (ht | ht)
    · rw [hst] at ht
      have hin := hw.covers t ht
      exact ⟨hw'.low.trans hin.1, hin.2.trans hw'.high⟩
    · rw [hot] at ht
      exact hw'.covers t ht
  · intro t ht hout
    rw [htl] at ht
    exact takeOverlapping_rest hs (hw.range hp) htarget0 ht hout

theorem levelPlan_selected (hs : Structured lm) {level : UInt32} (hlevel : level.toNat + 1 < 2 ^ 32)
    (o : CompactionOptions) {first : TableMeta} {rest : List TableMeta}
    (htables : lm.tables level.toNat = first :: rest) : Selected lm (levelPlan lm level o first rest) := by
  unfold levelPlan
  by_cases h0 : level = 0
  · -- L0: all its tables
    simp only [if_pos h0]
    refine sources_selected hs hlevel rfl (List.cons_ne_nil _ _) ?_ ?_ ?_
    · show (first :: rest).Sublist (lm.tables level.toNat)
      rw [htables]
    · exact hs.range _ first (htables ▸ List.mem_cons_self)
    · intro t ht hout
      exact absurd (htables ▸ ht) hout
  · simp only [if_neg h0]
    have hmem : maxElement first rest ∈ lm.tables level.toNat := htables ▸ maxElement_mem first rest
    refine sources_selected hs hlevel rfl (List.cons_ne_nil _ _) (List.singleton_sublist.mpr hmem)
      (hs.range _ _ hmem) ?_
    intro t ht hout u hu
    have hlevel0 : level.toNat ≠ 0 := fun h => h0 (UInt32.toNat_inj.mp h)
    rw [List.mem_singleton.mp hu]
    exact apart_of_ascending (hs.ascending hlevel0) ht hmem fun heq => hout (heq ▸ List.mem_singleton_self _)

/-- What the fields of a picked plan are. -/
theorem levelPlan_fields (lm : LevelManager) (level : UInt32) (o : CompactionOptions) (first : TableMeta)
    (rest : List TableMeta) :
    (levelPlan lm level o first rest).sourceLevel = level ∧
      (levelPlan lm level o first rest).reason = (if level = 0 then .l0ReachedLimit else .lxReachedLimit) ∧
      (levelPlan lm level o first rest).maxOutputFileSize = entryAt o.targetFileSizePerLevel (level + 1).toNat := by
  unfold levelPlan
  rw [(takeOverlapping_widened lm _).same]
  simp only
  rw [(widened_foldl _ _).same]
  exact ⟨rfl, rfl, rfl⟩

/-- The checks of `CompactionOptions::validate`. -/
theorem CompactionOptions.validate_ok {o : CompactionOptions} {u : Unit} (h : o.validate = .ok u) :
    2 ≤ o.maxLevels ∧ o.l0FileCountTrigger ≠ 0 ∧
      ∀ level, level ≠ 0 → level < o.maxLevels → entryAt o.targetFileSizePerLevel level ≠ 0 := by
  unfold CompactionOptions.validate invalidArgument at h
  split at h
  · cases h
  next hlevels =>
  split at h
  · cases h
  next htrigger =>
  split at h
  · cases h
  split at h
  · cases h
  split at h
  · cases h
  split at h
  · cases h
  next hsizes =>
  refine ⟨by omega, htrigger, fun level h0 hlt heq => hsizes ?_⟩
  refine List.any_eq_true.mpr ⟨level, List.mem_map.mpr ⟨level - 1, List.mem_range.mpr (by omega), by omega⟩, ?_⟩
  simpa using heq

theorem addFileSizes_nil (total : Nat) : addFileSizes total [] = total := rfl

/-- A level over its budget has tables. -/
theorem tables_of_overBudget {o : CompactionOptions} {level : Nat} (h : overBudget lm o level = true) :
    lm.tables level ≠ [] := by
  intro hnil
  unfold overBudget levelSizeBytes at h
  rw [hnil, addFileSizes_nil] at h
  simp at h

theorem pickLevelCompaction_selected (hs : Structured lm) {o : CompactionOptions} {u : Unit}
    (ho : o.validate = .ok u) (hmax : o.maxLevels < 2 ^ 32) {level : UInt32}
    (hlevel : level.toNat + 1 < o.maxLevels) (hne : lm.tables level.toNat ≠ []) :
    ∃ p, pickLevelCompaction lm level o = .ok (some p) ∧ Selected lm p ∧ p.validate = true ∧
      p.targetLevel.toNat < o.maxLevels := by
  obtain ⟨-, -, hsizes⟩ := CompactionOptions.validate_ok ho
  cases htables : lm.tables level.toNat with
  | nil => exact absurd htables hne
  | cons first rest =>
    have hnext : (level + 1).toNat = level.toNat + 1 := by
      rw [UInt32.toNat_add, UInt32.toNat_one]
      omega
    have hsel := levelPlan_selected hs (by omega) o htables
    obtain ⟨hsl, hreason, hsize⟩ := levelPlan_fields lm level o first rest
    have hvalid : (levelPlan lm level o first rest).validate = true := by
      refine hsel.validate hs ?_ ?_ ?_
      · rw [hsize, hnext]
        exact hsizes _ (by omega) (by omega)
      · rw [hreason, hsl]
        intro hr
        by_contra h0
        rw [if_neg h0] at hr
        cases hr
      · rw [hreason, hsl]
        intro hr h0
        rw [if_pos h0] at hr
        cases hr
    refine ⟨levelPlan lm level o first rest, ?_, hsel, hvalid, ?_⟩
    · unfold pickLevelCompaction
      rw [htables]
      simp only
      rw [if_neg (by omega), hvalid]
      rfl
    · rw [hsel.target_toNat, hsl]
      exact hlevel

/-- Whenever a compaction is due the scheduler has a plan for it. -/
theorem pickCompaction_selected (hs : Structured lm) {o : CompactionOptions} (hmax : o.maxLevels < 2 ^ 32)
    (hdue : shouldCompact lm o = true) :
    ∃ p, pickCompaction lm o = .ok (some p) ∧ Selected lm p ∧ p.validate = true ∧
      p.targetLevel.toNat < o.maxLevels := by
  unfold shouldCompact at hdue
  unfold pickCompaction
  cases ho : o.validate with
  | error e =>
    rw [ho] at hdue
    cases hdue
  | ok u =>
    rw [ho] at hdue
    simp only at hdue ⊢
    obtain ⟨hlevels, htrigger, -⟩ := CompactionOptions.validate_ok ho
    by_cases hl0 : l0Triggers lm o = true
    · rw [if_pos hl0]
      refine pickLevelCompaction_selected hs ho hmax ?_ ?_
      · show 0 + 1 < o.maxLevels
        omega
      · intro hnil
        have hlen := of_decide_eq_true hl0
        have hzero : lm.tables 0 = [] := hnil
        rw [hzero, List.length_nil] at hlen
        omega
    · rw [if_neg hl0]
      have hany : (innerLevels o.maxLevels).any (overBudget lm o) = true := by
        simpa [Bool.not_eq_true _ ▸ hl0] using hdue
      obtain ⟨level, hmem, hover⟩ := List.any_eq_true.mp hany
      cases hfind : (innerLevels o.maxLevels).find? (overBudget lm o) with
      | none =>
        have := List.find?_eq_none.mp hfind level hmem
        exact absurd hover this
      | some level' =>
        obtain ⟨i, hi, heq⟩ := List.mem_map.mp (List.mem_of_find?_eq_some hfind)
        have hlt := List.mem_range.mp hi
        have hnat : (UInt32.ofNat level').toNat = level' := by
          rw [UInt32.toNat_ofNat']
          exact Nat.mod_eq_of_lt (by omega)
        refine pickLevelCompaction_selected hs ho hmax ?_ ?_
        · rw [hnat]
          omega
        · rw [hnat]
          exact tables_of_overBudget (List.find?_some hfind)

/-! ## Plans of `compact_range` -/

/-- A plan in the selection loop: what it has selected so far lies in its range. -/
structure Selecting (lm : LevelManager) (p : CompactionPlan) : Prop where
  level_lt : p.sourceLevel.toNat + 1 < 2 ^ 32
  target_eq : p.targetLevel = p.sourceLevel + 1
  range : p.smallestKey ≤ p.largestKey
  source : p.sourceTables.Sublist (lm.tables p.sourceLevel.toNat)
  overlapping : p.overlappingTables.Sublist (lm.tables p.targetLevel.toNat)
  covers : ∀ t, t ∈ p.sourceTables ∨ t ∈ p.overlappingTables →
    p.smallestKey ≤ t.smallestKey ∧ t.largestKey ≤ p.largestKey

/-- The loop changes the selection only. -/
def SameJob (p q : CompactionPlan) : Prop :=
  q.reason = p.reason ∧ q.sourceLevel = p.sourceLevel ∧ q.targetLevel = p.targetLevel ∧
    q.maxOutputFileSize = p.maxOutputFileSize

theorem Widened.sameJob {p q : CompactionPlan} {ts : List TableMeta} (h : Widened p ts q) : SameJob p q := by
  rw [h.same]
  exact ⟨rfl, rfl, rfl, rfl⟩

theorem SameJob.trans {p q r : CompactionPlan} (h : SameJob p q) (h' : SameJob q r) : SameJob p r :=
  ⟨h'.1.trans h.1, h'.2.1.trans h.2.1, h'.2.2.1.trans h.2.2.1, h'.2.2.2.trans h.2.2.2⟩

/-- Tables inside a range are among those that overlap a wider one. -/
theorem inside_overlaps (hs : Structured lm) {level : Nat} {smallest largest : ArenaEntry} {t : TableMeta}
    (hle : smallest ≤ largest) (ht : t ∈ lm.tables level) (hlow : smallest ≤ t.smallestKey)
    (hhigh : t.largestKey ≤ largest) : t ∈ lm.findOverlappingTables level smallest largest := by
  have hr := hs.range level t ht
  exact (hs.mem_findOverlappingTables level hle t).mpr ⟨ht, hlow.trans hr, hr.trans hhigh⟩

theorem Structured.nodup_tables (hs : Structured lm) (level : Nat) : (lm.tables level).Nodup :=
  (hs.nodup_ids level).of_map _

/-- A nodup list that is part of another one and not shorter has all its elements. -/
theorem subset_of_length_le {l l' : List TableMeta} (hl : l.Nodup) (hsub : l ⊆ l') (hlen : l'.length ≤ l.length) :
    l' ⊆ l :=
  ((List.Nodup.subperm hl hsub).perm_of_length_le hlen).symm.subset

/-- What one round does to a plan: it selects at least what was selected, and either more, or the
loop stops, and what it stops with is closed. -/
theorem selectRound_spec (hs : Structured lm) {p : CompactionPlan} (h : Selecting lm p)
    (hne : (selectRound lm p).sourceTables ≠ []) :
    Selecting lm (selectRound lm p) ∧ SameJob p (selectRound lm p) ∧
      p.sourceTables.length ≤ (selectRound lm p).sourceTables.length ∧
      p.overlappingTables.length ≤ (selectRound lm p).overlappingTables.length ∧
      (p.sourceTables.length = (selectRound lm p).sourceTables.length →
        p.overlappingTables.length = (selectRound lm p).overlappingTables.length →
        sameSelection p (selectRound lm p)) ∧
      (sameSelection p (selectRound lm p) → Selected lm (selectRound lm p)) := by
  have hsrc0 : lm.findOverlappingTables p.sourceLevel.toNat p.smallestKey p.largestKey ≠ [] := by
    intro hnil
    refine hne ?_
    unfold selectRound
    rw [if_pos hnil]
  have hround : selectRound lm p =
      ((lm.findOverlappingTables p.sourceLevel.toNat p.smallestKey p.largestKey).foldl CompactionPlan.widenPlanRange
        { p with sourceTables := lm.findOverlappingTables p.sourceLevel.toNat p.smallestKey p.largestKey
        }).takeOverlapping lm := by
    unfold selectRound
    rw [if_neg hsrc0]
  have hmem := hs.mem_findOverlappingTables p.sourceLevel.toNat h.range
  have hsub := findOverlappingTables_sublist lm p.sourceLevel.toNat p.smallestKey p.largestKey
  have hold : p.sourceTables ⊆ lm.findOverlappingTables p.sourceLevel.toNat p.smallestKey p.largestKey :=
    fun t ht => inside_overlaps hs h.range (h.source.subset ht) (h.covers t (.inl ht)).1 (h.covers t (.inl ht)).2
  generalize lm.findOverlappingTables p.sourceLevel.toNat p.smallestKey p.largestKey = src at *
  have hw := widened_foldl src { p with sourceTables := src }
  have hsel : (∀ t ∈ lm.tables p.sourceLevel.toNat, t ∉ src → ∀ u ∈ src, t.Apart u) →
      Selected lm (selectRound lm p) := by
    intro hrest
    rw [hround]
    exact sources_selected (p := { p with sourceTables := src }) hs h.level_lt h.target_eq hsrc0 hsub h.range hrest
  generalize src.foldl CompactionPlan.widenPlanRange { p with sourceTables := src } = m at *
  rw [hround] at hsel ⊢
  have hw' := takeOverlapping_widened lm m
  have hm : m.smallestKey ≤ m.largestKey := hw.range h.range
  have hst : (m.takeOverlapping lm).sourceTables = src := hw'.sourceTables.trans hw.sourceTables
  have hot := hw'.overlappingTables
  have htl : (m.takeOverlapping lm).targetLevel = p.targetLevel := hw'.targetLevel.trans hw.targetLevel
  have hsl : (m.takeOverlapping lm).sourceLevel = p.sourceLevel := hw'.sourceLevel.trans hw.sourceLevel
  have hsub' := findOverlappingTables_sublist lm m.targetLevel.toNat m.smallestKey m.largestKey
  have hold' : p.overlappingTables ⊆ lm.findOverlappingTables m.targetLevel.toNat m.smallestKey m.largestKey := by
    intro t ht
    have hin := h.covers t (.inr ht)
    refine inside_overlaps hs hm ?_ (hw.low.trans hin.1) (hin.2.trans hw.high)
    rw [hw.targetLevel]
    exact h.overlapping.subset ht
  have hcovers : ∀ t ∈ src, (m.takeOverlapping lm).smallestKey ≤ t.smallestKey ∧
      t.largestKey ≤ (m.takeOverlapping lm).largestKey := by
    intro t ht
    exact ⟨hw'.low.trans (hw.covers t ht).1, (hw.covers t ht).2.trans hw'.high⟩
  have hnodup : p.sourceTables.Nodup := (hs.nodup_tables _).sublist h.source
  have hnodup' : p.overlappingTables.Nodup := (hs.nodup_tables _).sublist h.overlapping
  refine ⟨⟨by rw [hsl]; exact h.level_lt, by rw [hsl, htl]; exact h.target_eq, hw'.range hm, ?_, ?_, ?_⟩,
    hw.sameJob.trans hw'.sameJob, ?_, ?_, ?_, ?_⟩
  · rw [hst, hsl]
    exact hsub
  · rw [hot, hw'.targetLevel]
    exact hsub'
  · rintro t (ht | ht)
    · rw [hst] at ht
      exact hcovers t ht
    · rw [hot] at ht
      exact hw'.covers t ht
  · rw [hst]
    exact (List.Nodup.subperm hnodup hold).length_le
  · rw [hot]
    exact (List.Nodup.subperm hnodup' hold').length_le
  · -- the same tables again: they lie in the old range, which they cannot widen
    intro hlen hlen'
    rw [hst] at hlen
    rw [hot] at hlen'
    have hsrc := subset_of_length_le hnodup hold hlen.ge
    have htgt := subset_of_length_le hnodup' hold' hlen'.ge
    obtain ⟨hlow, hhigh⟩ := hw.range_eq fun t ht => h.covers t (.inl (hsrc ht))
    have hlow0 : m.smallestKey = p.smallestKey := hlow
    have hhigh0 : m.largestKey = p.largestKey := hhigh
    obtain ⟨hlow', hhigh'⟩ := hw'.range_eq fun t ht => by
      show m.smallestKey ≤ t.smallestKey ∧ t.largestKey ≤ m.largestKey
      rw [hlow0, hhigh0]
      exact h.covers t (.inr (htgt ht))
    refine ⟨by rw [hst]; exact hlen, by rw [hot]; exact hlen', ?_, ?_⟩
    · rw [hlow']
      exact hlow0.symm
    · rw [hhigh']
      exact hhigh0.symm
  · rintro ⟨-, -, hlow, hhigh⟩
    refine hsel fun t ht hout u hu => ?_
    have hu' := hcovers u hu
    rw [← hlow, ← hhigh] at hu'
    by_contra hno
    rw [TableMeta.Apart, not_or, not_lt, not_lt] at hno
    exact hout ((hmem t).mpr ⟨ht, hu'.1.trans hno.1, hno.2.trans hu'.2⟩)

/-- The number of tables a plan has selected. -/
def selectedCount (p : CompactionPlan) : Nat := p.sourceTables.length + p.overlappingTables.length

theorem selectedCount_lt (hs : Structured lm) {p : CompactionPlan} (h : Selecting lm p)
    (hne : (selectRound lm p).sourceTables ≠ []) (hmore : ¬ sameSelection p (selectRound lm p)) :
    selectedCount p < selectedCount (selectRound lm p) := by
  obtain ⟨-, -, hle, hle', hsame, -⟩ := selectRound_spec hs h hne
  unfold selectedCount
  by_contra hno
  exact hmore (hsame (by omega) (by omega))

/-- **The selection loop ends**, with no source table or with a closed selection: each round but
the last selects one table more. -/
theorem selectLoop_selected (hs : Structured lm) (n : Nat) {p : CompactionPlan} (h : Selecting lm p)
    (hfuel : (lm.tables p.sourceLevel.toNat).length + (lm.tables p.targetLevel.toNat).length <
      n + selectedCount p) :
    (selectLoop lm n p).sourceTables = [] ∨ (Selected lm (selectLoop lm n p) ∧ SameJob p (selectLoop lm n p)) := by
  induction n generalizing p with
  | zero =>
    have h1 := h.source.length_le
    have h2 := h.overlapping.length_le
    unfold selectedCount at hfuel
    omega
  | succ n ih =>
    rw [selectLoop]
    by_cases hne : (selectRound lm p).sourceTables = []
    · rw [if_pos hne]
      exact .inl hne
    · rw [if_neg hne]
      obtain ⟨hsel, hjob, -, -, -, hclosed⟩ := selectRound_spec hs h hne
      by_cases hstop : sameSelection p (selectRound lm p)
      · rw [if_pos hstop]
        exact .inr ⟨hclosed hstop, hjob⟩
      · rw [if_neg hstop]
        have hgrow := selectedCount_lt hs h hne hstop
        have hfuel' : (lm.tables (selectRound lm p).sourceLevel.toNat).length +
            (lm.tables (selectRound lm p).targetLevel.toNat).length < n + selectedCount (selectRound lm p) := by
          rw [hjob.2.1, hjob.2.2.1]
          omega
        rcases ih hsel hfuel' with hnil | ⟨hdone, hjob'⟩
        · exact .inl hnil
        · exact .inr ⟨hdone, hjob.trans hjob'⟩

/-- Every plan of `compact_range` that has a source table is closed and validates. -/
theorem manualPlan_selected (hs : Structured lm) {o : CompactionOptions} {u : Unit} (ho : o.validate = .ok u)
    (hmax : o.maxLevels < 2 ^ 32) {sourceLevel : UInt32} (hlevel : sourceLevel.toNat + 1 < o.maxLevels)
    {smallest largest : ArenaEntry} (hle : smallest ≤ largest)
    (hne : (manualPlan lm o sourceLevel smallest largest).sourceTables ≠ []) :
    Selected lm (manualPlan lm o sourceLevel smallest largest) ∧
      (manualPlan lm o sourceLevel smallest largest).validate = true ∧
      (manualPlan lm o sourceLevel smallest largest).targetLevel.toNat < o.maxLevels := by
  obtain ⟨-, -, hsizes⟩ := CompactionOptions.validate_ok ho
  have hnext : (sourceLevel + 1).toNat = sourceLevel.toNat + 1 := by
    rw [UInt32.toNat_add, UInt32.toNat_one]
    omega
  have hloop : (manualPlan lm o sourceLevel smallest largest).sourceTables = [] ∨
      (Selected lm (manualPlan lm o sourceLevel smallest largest) ∧
        SameJob
          { reason := .manual
            sourceLevel
            targetLevel := sourceLevel + 1
            smallestKey := smallest
            largestKey := largest
            maxOutputFileSize := entryAt o.targetFileSizePerLevel (sourceLevel + 1).toNat }
          (manualPlan lm o sourceLevel smallest largest)) := by
    refine selectLoop_selected hs _ ⟨?_, rfl, hle, List.nil_sublist _, List.nil_sublist _, by simp⟩ ?_
    · show sourceLevel.toNat + 1 < 2 ^ 32
      omega
    · show (lm.tables sourceLevel.toNat).length + (lm.tables (sourceLevel + 1).toNat).length < _ + (0 + 0)
      omega
  rcases hloop with hnil | ⟨hsel, hreason, hsl, -, hsize⟩
  · exact absurd hnil hne
  · refine ⟨hsel, ?_, ?_⟩
    · refine Selected.validate hs hsel ?_ ?_ ?_
      · rw [hsize]
        show entryAt o.targetFileSizePerLevel (sourceLevel + 1).toNat ≠ 0
        rw [hnext]
        exact hsizes _ (by omega) hlevel
      · rw [hreason]
        intro hr
        cases hr
      · rw [hreason]
        intro hr
        cases hr
    · rw [hsel.target_toNat, hsl]
      exact hlevel

end

end Kvdb
