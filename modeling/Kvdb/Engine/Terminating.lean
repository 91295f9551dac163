import Mathlib.Logic.Relation
import Kvdb.Engine.Compacting

/-!
# Automatic compaction ends

The loop of `Engine::maybe_compact_unlocked` as rounds: a compaction is due, the
scheduler has a plan, and the job, its commit and the removal of its inputs
succeed.  Each round leaves the levels lighter (`runCompaction_descends`), so
there are no more rounds than the levels weigh in the beginning, and the loop
returns: where nothing is due, or with the failure of a compaction
(`maybeCompact_terminates`).
-/

namespace Kvdb

open Faulty

/-- What the loop finds in an open engine, whatever is in the tables. -/
structure Compactable (e : Engine LogObject) (d : Disk EditLog) : Prop where
  options : e.options.validate = .ok ()
  manifest : ∃ object, e.manifest = some object
  levelCount : e.levels.levelCount = e.options.compaction.maxLevels.toNat
  catalog : Catalog e.levels e.counters
  records : HoldRecords e.levels d.tables

theorem Ready.compactable {n : Nat} {e : Engine LogObject} {d : Disk EditLog} (h : Ready n e d) : Compactable e d := by
  obtain ⟨rs, v, hshown⟩ := h.shown
  refine ⟨h.opened.options, ⟨_, h.manifest⟩, ?_, hshown.catalog, hshown.stored.holdRecords⟩
  rw [h.opened.levelCount, h.opened.limit]

section

variable [Zlib] [EngineEnv] {e : Engine LogObject} {d : Disk EditLog}

/-- **A compaction that succeeds leaves the levels lighter**, in a state like the one before. -/
theorem runCompaction_descends (h : Compactable e d) {plan : CompactionPlan}
    (hpick : pickCompaction e.levels (schedulerOptions e.options) = .ok (some plan)) :
    Triple (fun _ _ => True) (Engine.runCompaction plan) e d
      (fun _ e' d' => Compactable e' d' ∧ compactionWeight e'.levels d'.tables < compactionWeight e.levels d.tables)
      (fun _ _ => True) (fun _ _ => True) := by
  obtain ⟨object, hm⟩ := h.manifest
  have hc := h.catalog
  obtain ⟨hsel, -, htarget⟩ := PlanOf.selected hc (schedulerOptions_valid h.options) h.levelCount
    (UInt32.toNat_lt _) (.picked hpick)
  refine triple_get fun f => ?_
  refine Triple.bind (Q := fun result e' d' => e' = e ∧ ∃ files, d' = { d with tables := files } ∧
      ∃ edit inputs outs next', result = some edit ∧
        Compacted plan e.levels e.counters.nextTableId next' d.tables files inputs outs edit) ?_ ?_
  · refine triple_onTables (fun _ => trivial) fun faults => ?_
    match hrun : CompactionJob.run plan e.levels e.counters.nextTableId ⟨d.tables, faults⟩ with
    | (.ok result, s) =>
      obtain ⟨edit, rfl⟩ := run_edit hsel.source_ne hrun
      obtain ⟨inputs, outs, next', hcomp⟩ := run_compacted hrun
      exact ⟨rfl, s.files, rfl, edit, inputs, outs, next', rfl, hcomp⟩
    | (.err x, s) => trivial
    | (.crash, s) => trivial
  rintro result e₁ d₁ ⟨rfl, files, rfl, edit, inputs, outs, next', rfl, hcomp⟩
  refine Triple.bind (Q := fun _ e' d' => ∃ lm c, stageApply e₁.levels e₁.counters edit = .ok (lm, c) ∧
    e' = { e₁ with levels := lm, counters := c } ∧ d' = Disk.logged { d with tables := files } edit) ?_ ?_
  · refine triple_commit hm (fun _ => trivial) (fun _ _ => trivial) ?_ (fun _ _ _ _ _ _ _ => trivial)
      fun _ _ _ _ => ⟨trivial, trivial⟩
    intro _ lm c hst
    exact ⟨lm, c, hst, rfl, rfl⟩
  rintro _ e₂ d₂ ⟨lm, c, hst, rfl, rfl⟩
  have hcount := stageApply_levelCount hst
  have hrec := hcomp.holdRecords hc hsel h.records hst
  have hlt := hcomp.weight_lt hc hsel htarget h.records hst hcount
  refine triple_onTables (fun _ => trivial) fun faults => ?_
  refine (dropTables_ends plan.inputs ⟨files, faults⟩).mono (fun _ s hsame => ?_)
    (fun _ _ => trivial) fun _ _ => trivial
  -- the files that go are none of the tables that are there now
  have hkeep : ∀ level, ∀ t ∈ lm.tables level, s.files t.tableId.toUInt32 = files t.tableId.toUInt32 :=
    fun level t ht => hsame _ (hcomp.inputs_gone hc h.records hrec hsel hst ht)
  refine ⟨⟨h.options, ⟨object, hm⟩, hcount.trans h.levelCount, ?_, hrec.congr hkeep⟩, ?_⟩
  · exact catalog_of_structured (hc.structured.stageApply hst) (stageApply_ok_iff.mp hst).inv
  · show compactionWeight lm s.files < _
    rw [compactionWeight_congr hkeep]
    exact hlt

/-! ## Rounds -/

/-- A compaction is due in the world. -/
def CompactionDue (w : World EditLog LogObject) : Prop :=
  shouldCompact w.engine.levels (schedulerOptions w.engine.options) = true

/-- The loop runs a compaction in `w`, and it ends with `o` in `w'`. -/
structure Compacting (w : World EditLog LogObject) (o : Outcome Status Unit) (w' : World EditLog LogObject) : Prop where
  due : CompactionDue w
  ran : ∃ plan, pickCompaction w.engine.levels (schedulerOptions w.engine.options) = .ok (some plan) ∧
    Engine.runCompaction plan w = (o, w')

/-- One round of the loop behind which it goes on. -/
def CompactionRound (w w' : World EditLog LogObject) : Prop := Compacting w (.ok ()) w'

variable {w w' : World EditLog LogObject}

theorem CompactionRound.descends (h : Compactable w.engine w.disk) (hround : CompactionRound w w') :
    Compactable w'.engine w'.disk ∧
      compactionWeight w'.engine.levels w'.disk.tables < compactionWeight w.engine.levels w.disk.tables := by
  obtain ⟨-, plan, hpick, hrun⟩ := hround
  exact (Ends.ok (runCompaction_descends h hpick w.faults fun _ _ _ => trivial) hrun).2

/-- A compaction that is due is run. -/
theorem compacting_of_due (h : Compactable w.engine w.disk) (hdue : CompactionDue w) : ∃ o w', Compacting w o w' := by
  have hmax : (schedulerOptions w.engine.options).maxLevels < 2 ^ 32 := UInt32.toNat_lt _
  obtain ⟨plan, hpick, -⟩ := pickCompaction_selected h.catalog.structured hmax hdue
  exact ⟨_, _, hdue, plan, hpick, rfl⟩

omit [Zlib] [EngineEnv] in
theorem weight_pos_of_due (h : Compactable w.engine w.disk) (hdue : CompactionDue w) :
    0 < compactionWeight w.engine.levels w.disk.tables := by
  have hmax : (schedulerOptions w.engine.options).maxLevels < 2 ^ 32 := UInt32.toNat_lt _
  obtain ⟨plan, -, hsel, -⟩ := pickCompaction_selected h.catalog.structured hmax hdue
  obtain ⟨t, ht⟩ := List.exists_mem_of_ne_nil _ hsel.source_ne
  exact compactionWeight_pos h.catalog.structured h.records (hsel.source.subset ht)

theorem compactLoop_idle (rounds : Nat) (hdue : ¬ CompactionDue w) : Engine.compactLoop rounds w = (.ok (), w) := by
  have hno : shouldCompact w.engine.levels (schedulerOptions w.engine.options) = false := Bool.not_eq_true _ ▸ hdue
  cases rounds with
  | zero =>
    rw [Engine.compactLoop, bind_ok (get_apply w), ensure_apply, hno]
    rfl
  | succ rounds =>
    rw [Engine.compactLoop, bind_ok (get_apply w), hno]
    rfl

/-- A compaction that is due, and what the loop does behind it. -/
theorem compactLoop_compacting {o : Outcome Status Unit} (rounds : Nat) (h : Compacting w o w') :
    ∃ plan, Engine.runCompaction plan w = (o, w') ∧
      Engine.compactLoop (rounds + 1) w = (Engine.runCompaction plan >>= fun _ => Engine.compactLoop rounds) w := by
  obtain ⟨hdue, plan, hpick, hrun⟩ := h
  have hyes : shouldCompact w.engine.levels (schedulerOptions w.engine.options) = true := hdue
  refine ⟨plan, hrun, ?_⟩
  rw [Engine.compactLoop, bind_ok (get_apply w), if_pos hyes, hpick]
  exact bind_ok (lift_ok _ _)

theorem compactLoop_round (rounds : Nat) (h : CompactionRound w w') :
    Engine.compactLoop (rounds + 1) w = Engine.compactLoop rounds w' := by
  obtain ⟨plan, hrun, hloop⟩ := compactLoop_compacting rounds h
  rw [hloop, bind_ok hrun]

theorem compactLoop_failed {o : Outcome Status Unit} (rounds : Nat) (h : Compacting w o w') (hfail : o ≠ .ok ()) :
    Engine.compactLoop (rounds + 1) w = (o, w') := by
  obtain ⟨plan, hrun, hloop⟩ := compactLoop_compacting rounds h
  rw [hloop]
  cases o with
  | ok u => exact absurd rfl hfail
  | err x => exact bind_err hrun
  | crash => exact bind_crash hrun

/-- **Automatic compaction terminates.**  From every state of an open engine, with any format of
the tables, any records in them and any faults to come, the loop needs no more rounds than
the levels weigh: it returns where no compaction is due, or with the first compaction that
does not succeed. -/
theorem maybeCompact_terminates (h : Compactable w.engine w.disk) (rounds : Nat)
    (hrounds : compactionWeight w.engine.levels w.disk.tables ≤ rounds) :
    (∃ w', Relation.ReflTransGen CompactionRound w w' ∧ ¬ CompactionDue w' ∧
      Engine.compactLoop rounds w = (.ok (), w')) ∨
    ∃ w₁ o w', Relation.ReflTransGen CompactionRound w w₁ ∧ Compacting w₁ o w' ∧ o ≠ .ok () ∧
      Engine.compactLoop rounds w = (o, w') := by
  induction rounds generalizing w with
  | zero =>
    have hidle : ¬ CompactionDue w := fun hdue => Nat.not_lt.mpr hrounds (weight_pos_of_due h hdue)
    exact .inl ⟨w, .refl, hidle, compactLoop_idle 0 hidle⟩
  | succ rounds ih =>
    by_cases hdue : CompactionDue w
    · obtain ⟨o, w₁, hone⟩ := compacting_of_due h hdue
      by_cases hok : o = .ok ()
      · subst hok
        obtain ⟨h₁, hlt⟩ := CompactionRound.descends h hone
        rw [compactLoop_round rounds hone]
        rcases ih h₁ (by omega) with ⟨w', hrun, hrest⟩ | ⟨w₂, o, w', hrun, hrest⟩
        · exact .inl ⟨w', hrun.head hone, hrest⟩
        · exact .inr ⟨w₂, o, w', hrun.head hone, hrest⟩
      · exact .inr ⟨w, o, w₁, .refl, hone, hok, compactLoop_failed rounds hone hok⟩
    · exact .inl ⟨w, .refl, hdue, compactLoop_idle (rounds + 1) hdue⟩

end

/-- An open engine on two levels that compacts the table on L0 with the one under it. -/
def twoLevelWorld : World EditLog LogObject where
  engine :=
    { options :=
        { dbPath := [100]
          compaction :=
            { maxLevels := 2, l0FileCountTrigger := 1, maxBytesPerLevel := [0, 0], targetFileSizePerLevel := [1, 1] } }
      opened := true
      manifest := some {}
      levels := twoLevels
      counters := { nextTableId := 3 } }
  disk := ⟨true, none, fun _ => none, twoLevelStore.files⟩
  faults _ := []

/-- Two records on the first of two levels and one on the second: five rounds are enough. -/
theorem maybeCompact_terminates_twoLevels :
    let _ := documentedZlib
    let _ : EngineEnv := { countingFormat with memoryUsage := List.length, compactRounds := 5 }
    ∃ w', Relation.ReflTransGen CompactionRound twoLevelWorld w' ∧ ¬ CompactionDue w' ∧
      Engine.compactLoop 5 twoLevelWorld = (.ok (), w') := by
  intro _ env
  have hcompactable : Compactable twoLevelWorld.engine twoLevelWorld.disk :=
    ⟨rfl, ⟨_, rfl⟩, rfl, twoLevels_catalog, twoLevels_filesMatch.holdRecords⟩
  have hrun : (Engine.compactLoop 5 twoLevelWorld).1 = .ok () := by decide +kernel
  rcases maybeCompact_terminates hcompactable 5 (by decide) with hdone | ⟨_, o, w', -, -, hfail, heq⟩
  · exact hdone
  · rw [heq] at hrun
    exact absurd hrun hfail

end Kvdb
