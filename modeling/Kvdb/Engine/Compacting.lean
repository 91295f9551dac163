import Kvdb.Compaction.Descent
import Kvdb.Engine.States

/-!
# Compactions of the engine

`Shrinks n e d e' d'`: from `e` over `d` to `e'` over `d'` only compactions happened:
every map shown before, by the tables under any log and any memory, is shown
after.  A compaction, its loops and everything that can go wrong in them stay
inside this relation; only a failed commit is not covered, because it leaves the
manifest uncertain.
-/

namespace Kvdb

open Faulty Bytes Recency

theorem stageApply_levelCount {lm lm' : LevelManager} {c c' : StagedCounters} {e : VersionEdit}
    (h : stageApply lm c e = .ok (lm', c')) : lm'.levelCount = lm.levelCount := by
  obtain ⟨mid, hd, ha⟩ := (stageApply_ok_iff.mp h).tables
  have hmid : mid.levelCount = lm.levelCount :=
    foldlM_keeps (P := fun m : LevelManager => m.levelCount = lm.levelCount)
      (fun a d a' hm h => by
        obtain ⟨-, -, -, rfl, -⟩ := LevelManager.removeTable_ok h
        rw [LevelManager.levelCount_setTables]
        exact hm) rfl hd
  refine foldlM_keeps (P := fun m : LevelManager => m.levelCount = lm.levelCount) (fun a t a' hm h => ?_) hmid ha
  obtain ⟨-, -, -, -, before, after, -, rfl⟩ := LevelManager.addTable_ok h
  rw [LevelManager.levelCount_setTables]
  exact hm

theorem schedulerOptions_valid {o : DBOptions} (h : o.validate = .ok ()) :
    (schedulerOptions o).validate = .ok () := by
  have hc : o.compaction.validate = .ok () := by
    unfold DBOptions.validate at h
    dsimp only at h
    split at h
    · cases h
    rw [ok_bind] at h
    split at h
    · cases h
    rw [ok_bind] at h
    obtain ⟨_, -, h⟩ := except_bind_ok h
    obtain ⟨_, -, h⟩ := except_bind_ok h
    obtain ⟨_, -, h⟩ := except_bind_ok h
    obtain ⟨_, -, h⟩ := except_bind_ok h
    obtain ⟨_, hc, -⟩ := except_bind_ok h
    exact hc
  unfold DBCompactionOptions.validate at hc
  unfold CompactionOptions.validate schedulerOptions
  simp only at hc ⊢
  split at hc
  · cases hc
  next h1 =>
  split at hc
  · cases hc
  next h2 =>
  split at hc
  · cases hc
  next h3 =>
  split at hc
  · cases hc
  next h4 =>
  split at hc
  · cases hc
  next h5 =>
  have h1' : ¬ o.compaction.maxLevels.toNat < 2 := by rwa [UInt32.lt_iff_toNat_lt] at h1
  have hmod : o.compaction.l0FileCountTrigger % 2 ^ 32 = o.compaction.l0FileCountTrigger := by
    apply Nat.mod_eq_of_lt
    omega
  rw [if_neg h1', hmod, if_neg (by omega), if_neg (by omega), if_neg (by omega), if_neg h4, if_neg h5]

theorem Persisted.commit [Zlib] {n : Nat} {d : Disk EditLog} {lm lm' : LevelManager} {c c' : StagedCounters}
    (h : Persisted n d lm c) {edit : VersionEdit} (hst : stageApply lm c edit = .ok (lm', c')) :
    Persisted n (d.logged edit) lm' c' := by
  obtain ⟨edits, hm, hr⟩ := h.edits
  refine ⟨h.dir, edits ++ [edit], ?_, ?_⟩
  · simp [Disk.logged, EditLog.editsOf, hm]
  · have happ : replayFrom _ (edits ++ [edit]) = _ := replayFrom_append hr
    rw [replay, happ, replayFrom, List.foldlM_cons, hst]
    rfl

/-! ## What a compaction may do -/

section

structure Shrinks (n : Nat) (e : Engine LogObject) (d : Disk EditLog) (e' : Engine LogObject) (d' : Disk EditLog) :
    Prop where
  engine : e' = { e with levels := e'.levels, counters := e'.counters }
  wals : d'.wals = d.wals
  persisted : Persisted n d' e'.levels e'.counters
  levelCount : e'.levels.levelCount = e.levels.levelCount
  walId : e'.counters.currentWalId = e.counters.currentWalId
  nextSequence : e'.counters.nextSequenceNumber = e.counters.nextSequenceNumber
  shown : ∀ rs v, Shown e.levels e.counters d.tables rs v → Shown e'.levels e'.counters d'.tables rs v
  mem : ∀ m rs v, MemOk m (tableRecs e.levels d.tables) rs v → MemOk m (tableRecs e'.levels d'.tables) rs v

/-- An engine whose version is the one on disk. -/
structure Ready (n : Nat) (e : Engine LogObject) (d : Disk EditLog) : Prop where
  opened : Opened n e
  manifest : e.manifest = some ⟨false⟩
  persisted : Persisted n d e.levels e.counters
  shown : ∃ rs v, Shown e.levels e.counters d.tables rs v

variable {n : Nat} {e e₁ e₂ : Engine LogObject} {d d₁ d₂ : Disk EditLog}

theorem Shrinks.refl (h : Ready n e d) : Shrinks n e d e d :=
  ⟨rfl, rfl, h.persisted, rfl, rfl, rfl, fun _ _ h => h, fun _ _ _ h => h⟩

theorem Shrinks.trans (h : Shrinks n e d e₁ d₁) (h' : Shrinks n e₁ d₁ e₂ d₂) : Shrinks n e d e₂ d₂ := by
  refine ⟨?_, h'.wals.trans h.wals, ?_, h'.levelCount.trans h.levelCount, h'.walId.trans h.walId,
    h'.nextSequence.trans h.nextSequence, fun rs v hs => h'.shown rs v (h.shown rs v hs),
    fun m rs v hs => h'.mem m rs v (h.mem m rs v hs)⟩
  · rw [h'.engine, h.engine]
  · exact h'.persisted

theorem Shrinks.ready (h : Shrinks n e d e₁ d₁) (hr : Ready n e d) : Ready n e₁ d₁ := by
  obtain ⟨rs, v, hs⟩ := hr.shown
  refine ⟨?_, ?_, ?_, rs, v, h.shown rs v hs⟩
  · have ho := hr.opened
    refine ⟨?_, ?_, ?_, ?_, ?_⟩
    · rw [h.engine]; exact ho.opened
    · rw [h.engine]; exact ho.closed
    · rw [h.engine]; exact ho.options
    · rw [h.engine]; exact ho.limit
    · rw [h.levelCount, ho.levelCount]
  · rw [h.engine]
    exact hr.manifest
  · exact h.persisted

/-- Files of tables that are not installed. -/
theorem Shrinks.files (h : Ready n e d) {files : UInt32 → Option (List InternalRecord)}
    (heq : ∀ level, ∀ t ∈ e.levels.tables level, files t.tableId.toUInt32 = d.tables t.tableId.toUInt32) :
    Shrinks n e d e { d with tables := files } := by
  obtain ⟨rs₀, v₀, h₀⟩ := h.shown
  refine ⟨rfl, rfl, ⟨h.persisted.dir, h.persisted.edits⟩, rfl, rfl, rfl, ?_, ?_⟩
  · intro rs v hs
    exact (hs.congr_files heq).1
  · intro m rs v hm
    rw [(h₀.congr_files heq).2]
    exact hm

end

/-! ## One compaction -/

/-- Operations on table files may fail in any way. -/
structure TableFaults (P : Permits) : Prop where
  flushTable : ∀ x, P .flushTable x
  compactTables : ∀ x, P .compactTables x
  compactDrop : ∀ x, P .compactDrop x

/-- Only the files of the dropped tables change. -/
theorem dropTables_ends [EngineEnv] (ts : List TableMeta) (s : TableStore) :
    let Same := fun s' : TableStore => ∀ id, (∀ t ∈ ts, t.tableId.toUInt32 ≠ id) → s'.files id = s.files id
    Ends (fun _ s' => Same s') Same Same (Engine.dropTables ts s) := by
  intro Same
  induction ts generalizing s with
  | nil => exact ends_pure fun id _ => rfl
  | cons t ts ih =>
    have hone : ∀ s' : TableStore, s'.files = s.files ∨ s'.files =
        Function.update s.files t.tableId.toUInt32 none →
        ∀ id, t.tableId.toUInt32 ≠ id → s'.files id = s.files id := by
      rintro s' (heq | heq) id hid
      · rw [heq]
      · rw [heq, Function.update_of_ne (Ne.symm hid)]
    have hweak : ∀ s' : TableStore, s'.files = s.files ∨ s'.files =
        Function.update s.files t.tableId.toUInt32 none →
        Same s' := fun s' h id hid => hone s' h id (hid t List.mem_cons_self)
    refine Ends.bind (R := fun _ s' => s'.files = Function.update s.files t.tableId.toUInt32 none)
      ((setFile_ends _ _ _).mono (fun _ _ h => h) hweak hweak) fun _ s₁ h₁ => ?_
    have hrest : ∀ s', (∀ id, (∀ u ∈ ts, u.tableId.toUInt32 ≠ id) → s'.files id = s₁.files id) →
        Same s' := by
      intro s' h id hid
      rw [h id fun u hu => hid u (List.mem_cons_of_mem _ hu)]
      exact hone s₁ (.inr h₁) id (hid t List.mem_cons_self)
    exact (ih s₁).mono (fun _ s' h => hrest s' h) hrest hrest

/-- The files of the inputs may go once the edit is committed. -/
theorem Compacted.inputs_gone {lm lm' : LevelManager} {c c' : StagedCounters} {p : CompactionPlan} {next' : UInt64}
    {files files' : UInt32 → Option (List InternalRecord)} {inputs : List (List InternalRecord)} {outs : List Output}
    {edit : VersionEdit} (hc : Catalog lm c) (hf : HoldRecords lm files) (hf' : HoldRecords lm' files')
    (hsel : Selected lm p) (hcomp : Compacted p lm c.nextTableId next' files files' inputs outs edit)
    (hst : stageApply lm c edit = .ok (lm', c')) {level : Nat} {t : TableMeta} (ht : t ∈ lm'.tables level) :
    ∀ u ∈ p.inputs, u.tableId.toUInt32 ≠ t.tableId.toUInt32 := by
  intro u hu heq
  obtain ⟨l, hul⟩ := hsel.inputs_level hu
  obtain ⟨hus, -⟩ := hf l u hul
  obtain ⟨hts, -⟩ := hf' level t ht
  have hidn : u.tableId.toNat = t.tableId.toNat := by
    have h := congrArg UInt32.toNat heq
    rw [UInt64.toNat_toUInt32, UInt64.toNat_toUInt32, Nat.mod_eq_of_lt hus, Nat.mod_eq_of_lt hts] at h
    exact h
  rcases (hcomp.mem_after hc hsel hst level t).mp ht with ⟨htl, hout⟩ | ⟨hnew, -⟩
  · exact hout (hc.structured.unique hul htl (UInt64.toNat_inj.mp hidn) ▸ hu)
  · have h1 := (hcomp.new_ids hnew).1
    have h2 := hc.id_lt l u hul
    omega

section

variable [Zlib] [EngineEnv] {P : Permits} {n : Nat} {e : Engine LogObject} {d : Disk EditLog}

theorem runCompaction_triple (hP : TableFaults P) (hr : Ready n e d) {plan : CompactionPlan}
    (hplan : PlanOf e.levels (schedulerOptions e.options) plan) :
    Triple P (Engine.runCompaction plan) e d (fun _ e' d' => Shrinks n e d e' d')
      (fun e' d' => (∀ k s, ¬ P .compactCommit (.err k s)) → Shrinks n e d e' d')
      (fun _ d' => ∃ e', Shrinks n e d e' d') := by
  obtain ⟨rs₀, v₀, h₀⟩ := hr.shown
  have hvalid := schedulerOptions_valid hr.opened.options
  have hcount : e.levels.levelCount = (schedulerOptions e.options).maxLevels :=
    hr.opened.levelCount.trans hr.opened.limit.symm
  obtain ⟨hsel, -, -⟩ := hplan.selected h₀.catalog hvalid hcount (UInt32.toNat_lt _)
  refine triple_get fun f => ?_
  -- whatever the job does, the files of installed tables stay
  have hframe : ∀ faults, Shrinks n e d e { d with tables :=
      (CompactionJob.run plan e.levels e.counters.nextTableId ⟨d.tables, faults⟩).2.files } := by
    intro faults
    refine Shrinks.files hr fun level t ht => ?_
    refine run_frame plan e.levels e.counters.nextTableId ⟨d.tables, faults⟩ _ ?_
    rw [UInt64.toNat_toUInt32]
    exact Nat.lt_of_le_of_lt (Nat.mod_le _ _) (h₀.catalog.id_lt level t ht)
  refine Triple.bind (Q := fun result e' d' => e' = e ∧ ∃ files, d' = { d with tables := files } ∧
      Shrinks n e d e d' ∧ ∀ edit, result = some edit → ∃ inputs outs next',
        Compacted plan e.levels e.counters.nextTableId next' d.tables files inputs outs edit) ?_ ?_
  · refine triple_onTables hP.compactTables fun faults => ?_
    have h := hframe faults
    match hrun : CompactionJob.run plan e.levels e.counters.nextTableId ⟨d.tables, faults⟩ with
    | (.ok result, s) =>
      rw [hrun] at h
      refine ⟨rfl, s.files, rfl, h, ?_⟩
      rintro edit rfl
      exact run_compacted hrun
    | (.err x, s) =>
      rw [hrun] at h
      exact fun _ => h
    | (.crash, s) =>
      rw [hrun] at h
      exact ⟨e, h⟩
  rintro result e₁ d₁ ⟨rfl, files, rfl, hfirst, hedit⟩
  cases result with
  | none => exact triple_pure hfirst
  | some edit =>
    obtain ⟨inputs, outs, next', hcomp⟩ := hedit edit rfl
    have hready := hfirst.ready hr
    have hcommitted : ∀ lm c, stageApply e₁.levels e₁.counters edit = .ok (lm, c) →
        Shrinks n e₁ d { e₁ with levels := lm, counters := c } (Disk.logged { d with tables := files } edit) := by
      intro lm c hst
      have hs := stageApply_ok_iff.mp hst
      obtain ⟨-, hsub, hkeep⟩ := h₀.compact hsel hcomp hst
      refine ⟨rfl, rfl, hready.persisted.commit hst, stageApply_levelCount hst, ?_, ?_, ?_, ?_⟩
      · rw [(stageCounter_ok hs.currentWalId).1, hcomp.currentWalId]
        rfl
      · rw [(stageCounter_ok hs.nextSequenceNumber).1, hcomp.nextSequenceNumber]
        rfl
      · intro rs v hshown
        exact (hshown.compact hsel hcomp hst).1
      · intro m rs v hm
        exact hm.compact hsub hkeep
    refine Triple.bind (Q := fun _ e' d' => ∃ lm c, stageApply e₁.levels e₁.counters edit = .ok (lm, c) ∧
      e' = { e₁ with levels := lm, counters := c } ∧ d' = Disk.logged { d with tables := files } edit) ?_ ?_
    · refine triple_commit hr.manifest (fun h => by cases h) (fun _ _ _ => hfirst) ?_ ?_ ?_
      · intro _ lm c hst
        exact ⟨lm, c, hst, rfl, rfl⟩
      · intro _ lm c _ k s hp hno
        exact absurd hp (hno k s)
      · intro _ lm c hst
        exact ⟨⟨e₁, hfirst⟩, ⟨_, hcommitted lm c hst⟩⟩
    rintro _ e₂ d₂ ⟨lm, c, hst, rfl, rfl⟩
    have hsecond := hcommitted lm c hst
    refine triple_onTables hP.compactDrop fun faults => ?_
    have hdropped : ∀ s : TableStore, (∀ id, (∀ t ∈ plan.inputs, t.tableId.toUInt32 ≠ id) →
        s.files id = files id) →
        Shrinks n e₁ d { e₁ with levels := lm, counters := c }
          { Disk.logged { d with tables := files } edit with tables := s.files } := by
      intro s hsame
      refine hsecond.trans (Shrinks.files (hsecond.ready hr) fun level t ht => hsame _ ?_)
      exact hcomp.inputs_gone h₀.catalog h₀.stored.holdRecords (hsecond.shown _ _ h₀).stored.holdRecords hsel
        hst ht
    exact (dropTables_ends plan.inputs ⟨files, faults⟩).mono (fun _ s h => hdropped s h)
      (fun s h _ => hdropped s h) fun s h => ⟨_, hdropped s h⟩

/-! ## Loops -/

/-- A program that only compacts. -/
def Compacts (P : Permits) (n : Nat) (m : EngineM EditLog LogObject Unit) (e : Engine LogObject)
    (d : Disk EditLog) : Prop :=
  Triple P m e d (fun _ e' d' => Shrinks n e d e' d')
    (fun e' d' => (∀ k s, ¬ P .compactCommit (.err k s)) → Shrinks n e d e' d')
      (fun _ d' => ∃ e', Shrinks n e d e' d')

omit [Zlib] [EngineEnv] in
theorem Compacts.after {m : EngineM EditLog LogObject Unit} {e₁ : Engine LogObject} {d₁ : Disk EditLog}
    (h : Compacts P n m e₁ d₁) (hs : Shrinks n e d e₁ d₁) :
    Triple P m e₁ d₁ (fun _ e' d' => Shrinks n e d e' d')
      (fun e' d' => (∀ k s, ¬ P .compactCommit (.err k s)) → Shrinks n e d e' d')
      (fun _ d' => ∃ e', Shrinks n e d e' d') :=
  h.mono (fun _ _ _ h' => hs.trans h') (fun _ _ h' hno => hs.trans (h' hno)) fun _ _ ⟨e', h'⟩ =>
    ⟨e', hs.trans h'⟩

theorem compactLoop_compacts (hP : TableFaults P) (rounds : Nat) (hr : Ready n e d) :
    Compacts P n (Engine.compactLoop rounds) e d := by
  induction rounds generalizing e d with
  | zero =>
    exact triple_get fun f => triple_check (fun _ _ => Shrinks.refl hr) fun _ => Shrinks.refl hr
  | succ rounds ih =>
    refine triple_get fun f => ?_
    split
    · refine triple_lift (fun _ _ _ => Shrinks.refl hr) fun plan hplan => ?_
      cases plan with
      | none => exact triple_pure (Shrinks.refl hr)
      | some plan =>
        refine (runCompaction_triple hP hr (.picked hplan)).bind fun _ e₁ d₁ hs => ?_
        exact (ih (hs.ready hr)).after hs
    · exact triple_pure (Shrinks.refl hr)

theorem maybeCompact_compacts (hP : TableFaults P) (hr : Ready n e d) :
    Compacts P n Engine.maybeCompactUnlocked e d := by
  refine triple_get fun f => ?_
  split
  · exact compactLoop_compacts hP _ hr
  · exact triple_pure (Shrinks.refl hr)

theorem compactLevels_compacts (hP : TableFaults P) {smallest largest : ArenaEntry} (hle : smallest ≤ largest)
    {levels : List Nat} (hr : Ready n e d) (hlevels : ∀ l ∈ levels, l + 1 < e.levels.levelCount) :
    Compacts P n (Engine.compactLevels smallest largest levels) e d := by
  induction levels generalizing e d with
  | nil => exact triple_pure (Shrinks.refl hr)
  | cons level rest ih =>
    have hlevel := hlevels level List.mem_cons_self
    have hrest : ∀ l ∈ rest, l + 1 < e.levels.levelCount := fun l hl => hlevels l (List.mem_cons_of_mem _ hl)
    have hmax : e.levels.levelCount < 2 ^ 32 := by
      rw [hr.opened.levelCount, ← hr.opened.limit]
      exact UInt32.toNat_lt _
    have hnat : (UInt32.ofNat level).toNat = level := by
      rw [UInt32.toNat_ofNat']
      exact Nat.mod_eq_of_lt (by omega)
    refine triple_get fun f => ?_
    dsimp only
    split
    · exact ih hr hrest
    · next hne =>
      refine triple_ensure (fun _ _ => Shrinks.refl hr) fun _ => ?_
      refine (runCompaction_triple hP hr (.manual (UInt32.ofNat level) smallest largest ?_ hle rfl hne)).bind ?_
      · rw [hnat]
        exact hlevel
      · intro _ e₁ d₁ hs
        exact (ih (hs.ready hr) (by rw [hs.levelCount]; exact hrest)).after hs

end

end Kvdb
