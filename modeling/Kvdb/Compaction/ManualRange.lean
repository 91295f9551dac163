import Kvdb.Compaction.Selection

/-!
# The range of a manual compaction

The inner loop of `Engine::compact_range` without a bound on its rounds: `SelectsRange
lm p q` says that the loop, entered with the plan `p`, is left with `q`.

Every round but the last selects more, so the loop is left (`selectLoop_selects`).
The last round changes nothing, so the tables it found are those that overlap the
final range (`SelectsRange.closed`); and a plan that once had a source table keeps one,
so an empty plan means that the first search found nothing (`SelectsRange.empty`).
-/

namespace Kvdb

/-- The plan before the first round. -/
def manualStart (o : CompactionOptions) (sourceLevel : UInt32) (smallest largest : ArenaEntry) : CompactionPlan where
  reason := .manual
  sourceLevel
  targetLevel := sourceLevel + 1
  smallestKey := smallest
  largestKey := largest
  maxOutputFileSize := entryAt o.targetFileSizePerLevel (sourceLevel + 1).toNat

/-- The rounds of `for (;;)`, up to the `break`. -/
inductive SelectsRange (lm : LevelManager) : CompactionPlan → CompactionPlan → Prop
  | none {p : CompactionPlan} (h : (selectRound lm p).sourceTables = []) : SelectsRange lm p (selectRound lm p)
  | same {p : CompactionPlan} (hne : (selectRound lm p).sourceTables ≠ []) (h : sameSelection p (selectRound lm p)) :
      SelectsRange lm p (selectRound lm p)
  | again {p q : CompactionPlan} (hne : (selectRound lm p).sourceTables ≠ [])
      (h : ¬ sameSelection p (selectRound lm p)) (hrest : SelectsRange lm (selectRound lm p) q) : SelectsRange lm p q

section

variable {lm : LevelManager}

/-- What a round takes from the source level. -/
theorem selectRound_sourceTables (lm : LevelManager) (p : CompactionPlan) :
    (selectRound lm p).sourceTables =
      lm.findOverlappingTables p.sourceLevel.toNat p.smallestKey p.largestKey := by
  unfold selectRound
  by_cases hnil : lm.findOverlappingTables p.sourceLevel.toNat p.smallestKey p.largestKey = []
  · rw [if_pos hnil, hnil]
  · rw [if_neg hnil, (takeOverlapping_widened lm _).sourceTables]
    exact (widened_foldl _ _).sourceTables

theorem selectLoop_selects (hs : Structured lm) (n : Nat) {p : CompactionPlan} (h : Selecting lm p)
    (hfuel : (lm.tables p.sourceLevel.toNat).length + (lm.tables p.targetLevel.toNat).length <
      n + selectedCount p) : SelectsRange lm p (selectLoop lm n p) := by
  induction n generalizing p with
  | zero =>
    have h1 := h.source.length_le
    have h2 := h.overlapping.length_le
    unfold selectedCount at hfuel
    omega
  | succ n ih =>
    rw [selectLoop]
    by_cases hne : (selectRound lm p).sourceTables = []
    · rw [if_pos hne]
      exact .none hne
    · rw [if_neg hne]
      by_cases hstop : sameSelection p (selectRound lm p)
      · rw [if_pos hstop]
        exact .same hne hstop
      · rw [if_neg hstop]
        refine .again hne hstop (ih (selectRound_spec hs h hne).1 ?_)
        have hgrow := selectedCount_lt hs h hne hstop
        obtain ⟨-, hjob, -⟩ := selectRound_spec hs h hne
        rw [hjob.2.1, hjob.2.2.1]
        omega

/-- The plan the loop is left with is closed: one more search finds what it has. -/
theorem SelectsRange.closed (hs : Structured lm) {p q : CompactionPlan} (hrun : SelectsRange lm p q)
    (h : Selecting lm p)
    (hne : q.sourceTables ≠ []) :
    Selected lm q ∧ SameJob p q ∧
      q.sourceTables = lm.findOverlappingTables q.sourceLevel.toNat q.smallestKey q.largestKey := by
  induction hrun with
  | none hnil => exact absurd hnil hne
  | @same p _ hsame =>
    obtain ⟨-, hjob, -, -, -, hclosed⟩ := selectRound_spec hs h hne
    refine ⟨hclosed hsame, hjob, ?_⟩
    rw [hjob.2.1, ← hsame.2.2.1, ← hsame.2.2.2]
    exact selectRound_sourceTables lm p
  | again hround _ _ ih =>
    obtain ⟨hsel, hjob, -⟩ := selectRound_spec hs h hround
    obtain ⟨hdone, hjob', hsource⟩ := ih hsel hne
    exact ⟨hdone, hjob.trans hjob', hsource⟩

/-- Without a source table in the end, the first search found none. -/
theorem SelectsRange.empty (hs : Structured lm) {p q : CompactionPlan} (hrun : SelectsRange lm p q) (h : Selecting lm p)
    (hnil : q.sourceTables = []) :
    lm.findOverlappingTables p.sourceLevel.toNat p.smallestKey p.largestKey = [] := by
  induction hrun with
  | @none p _ => rw [← selectRound_sourceTables lm p, hnil]
  | same hne _ => exact absurd hnil hne
  | again hround _ _ ih =>
    -- the tables of this round lie in the range that the next round searches
    obtain ⟨hsel, -⟩ := selectRound_spec hs h hround
    obtain ⟨t, ht⟩ := List.exists_mem_of_ne_nil _ hround
    have hin := hsel.covers t (.inl ht)
    have hfound := inside_overlaps hs hsel.range (hsel.source.subset ht) hin.1 hin.2
    rw [ih hsel hnil] at hfound
    cases hfound

/-- **Manual selection.**  The loop is left.  With a source table in the plan, it validates and its
tables are exactly those of the two levels that overlap its range; without one, no table of the
source level overlaps the range that was asked for. -/
theorem manual_selection_closed {o : CompactionOptions} (hs : Structured lm) (ho : o.validate = .ok ())
    (hmax : o.maxLevels < 2 ^ 32) (hcount : lm.levelCount = o.maxLevels) {sourceLevel : UInt32}
    (hlevel : sourceLevel.toNat + 1 < lm.levelCount) {smallest largest : ArenaEntry} (hle : smallest ≤ largest) :
    ∃ plan, SelectsRange lm (manualStart o sourceLevel smallest largest) plan ∧
      plan = manualPlan lm o sourceLevel smallest largest ∧
      (plan.sourceTables ≠ [] →
        plan.validate = true ∧
        (∀ t, t ∈ plan.sourceTables ↔
          t ∈ lm.tables sourceLevel.toNat ∧ plan.smallestKey ≤ t.largestKey ∧
            t.smallestKey ≤ plan.largestKey) ∧
        (∀ t, t ∈ plan.overlappingTables ↔
          t ∈ lm.tables (sourceLevel.toNat + 1) ∧ plan.smallestKey ≤ t.largestKey ∧
            t.smallestKey ≤ plan.largestKey)) ∧
      (plan.sourceTables = [] →
        ∀ t ∈ lm.tables sourceLevel.toNat, ¬ (smallest ≤ t.largestKey ∧ t.smallestKey ≤ largest)) := by
  have hstart : Selecting lm (manualStart o sourceLevel smallest largest) := by
    refine ⟨?_, rfl, hle, List.nil_sublist _, List.nil_sublist _, by simp [manualStart]⟩
    show sourceLevel.toNat + 1 < 2 ^ 32
    omega
  have hrun : SelectsRange lm (manualStart o sourceLevel smallest largest)
      (manualPlan lm o sourceLevel smallest largest) := by
    refine selectLoop_selects hs _ hstart ?_
    show (lm.tables sourceLevel.toNat).length + (lm.tables (sourceLevel + 1).toNat).length < _ + (0 + 0)
    omega
  refine ⟨_, hrun, rfl, fun hne => ?_, fun hnil t ht hover => ?_⟩
  · obtain ⟨-, hvalid, -⟩ := manualPlan_selected hs ho hmax (hcount ▸ hlevel) hle hne
    obtain ⟨hsel, hjob, hsource⟩ := hrun.closed hs hstart hne
    have hrange := hsel.range hs
    have hsl : (manualPlan lm o sourceLevel smallest largest).sourceLevel = sourceLevel := hjob.2.1
    have htarget := hsel.target_toNat
    generalize manualPlan lm o sourceLevel smallest largest = plan at *
    refine ⟨hvalid, fun t => ?_, fun t => ?_⟩
    · rw [hsource, hs.mem_findOverlappingTables _ hrange, hsl]
    · rw [hsl] at htarget
      rw [← htarget]
      constructor
      · intro ht
        have hmem := hsel.overlapping.subset ht
        have hin := hsel.covers t (.inr ht)
        have hr := hs.range _ t hmem
        exact ⟨hmem, hin.1.trans hr, hr.trans hin.2⟩
      · rintro ⟨hmem, hlow, hhigh⟩
        by_contra hout
        rcases hsel.targetRest t hmem hout with hlt | hlt
        · exact absurd hlow (not_le.mpr hlt)
        · exact absurd hhigh (not_le.mpr hlt)
  · have hfound := (hs.mem_findOverlappingTables sourceLevel.toNat hle t).mpr ⟨ht, hover⟩
    have hempty := hrun.empty hs hstart hnil
    have hsearch : lm.findOverlappingTables sourceLevel.toNat smallest largest = [] := hempty
    rw [hsearch] at hfound
    cases hfound

/-- A table with one record at each end of its range. -/
def TableMeta.ofRange (id : UInt64) (level : UInt32) (smallest largest : UInt8) : TableMeta where
  tableId := id
  level
  path := [115]
  minSeq := 1
  maxSeq := 2
  fileSize := 4096
  recordCount := 2
  tombstoneCount := 0
  dataBlockCount := 1
  dataBytes := 64
  smallestKey := ArenaEntry.ofByte smallest
  largestKey := ArenaEntry.ofByte largest

/-- `[b, d]` on L0 and `[d, f]` on L1. -/
def chainedLevels : LevelManager := ⟨[[.ofRange 2 0 98 100], [.ofRange 1 1 100 102]]⟩

theorem chainedLevels_structured : Structured chainedLevels := by
  have h1 : (LevelManager.init 2).addTable (.ofRange 1 1 100 102) = .ok ⟨[[], [.ofRange 1 1 100 102]]⟩ := by rfl
  have h2 : LevelManager.addTable ⟨[[], [.ofRange 1 1 100 102]]⟩ (.ofRange 2 0 98 100) = .ok chainedLevels := by rfl
  exact ((structured_init 2).addTable h1).addTable h2

/-- The key `b` alone selects the table on L0, and with it the table on L1. -/
theorem manual_selection_closed_chained :
    ∃ plan, SelectsRange chainedLevels (manualStart ⟨2, 1, [0, 0], [1, 1]⟩ 0 (.ofByte 98) (.ofByte 98)) plan ∧
      plan.validate = true ∧ TableMeta.ofRange 2 0 98 100 ∈ plan.sourceTables := by
  obtain ⟨plan, hrun, -, hclosed, hempty⟩ := manual_selection_closed (o := ⟨2, 1, [0, 0], [1, 1]⟩)
    chainedLevels_structured rfl (by decide) rfl (show (0 : UInt32).toNat + 1 < chainedLevels.levelCount by decide)
    (le_refl (ArenaEntry.ofByte 98))
  have hne : plan.sourceTables ≠ [] := fun hnil =>
    hempty hnil (.ofRange 2 0 98 100) (by decide) (by decide)
  obtain ⟨hvalid, -⟩ := hclosed hne
  refine ⟨plan, hrun, hvalid, ?_⟩
  obtain ⟨t, ht⟩ := List.exists_mem_of_ne_nil _ hne
  obtain ⟨hmem, -⟩ := ((hclosed hne).2.1 t).mp ht
  obtain rfl : t = .ofRange 2 0 98 100 := by simpa [chainedLevels, LevelManager.tables] using hmem
  exact ht

end

end Kvdb
