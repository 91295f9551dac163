import Kvdb.Compaction.MergeIterator
import Kvdb.Compaction.Run
import Kvdb.SSTable.Packing

/-!
# The compaction job over its iterators

`CompactionJob::run` with one `SSTableIterator` for each input: a block is loaded
when the merge gets to it, and each load can fail.  The loop adds the newest record
of a key to the output in progress, passes over the older versions, and rolls the
output; only behind the loop does the job look at the statuses of its iterators.

What an edit says is `run_output`: the outputs have the newest record of each key
of the inputs, in key order, without the tombstones that may go; and every load of
the run went well.
-/

namespace Kvdb

open Faulty Heap

namespace StreamingJob

/-- The variables of `run`, with the iterators of its inputs in the merge iterator. -/
structure State where
  job : JobState
  merge : MergeIterator

abbrev StreamM := Prog State Status

/-- A part of the job that does not touch the iterators. -/
def onJob {α : Type} (m : JobM α) : StreamM α := fun s =>
  match m s.job with
  | (o, job) => (o, { s with job })

/-- An iterator goes to the start of its table, and to the inputs. -/
def seekInput (it : TableIterator) : StreamM Unit := fun s =>
  match it.seekToFirst s.merge.reads with
  | (it, reads) =>
    match it.status with
    | some e => (.err e, { s with merge := { s.merge with reads } })
    | none => (.ok (), { s with merge := { s.merge with inputs := s.merge.inputs ++ [it], reads } })

section

variable [Zlib]

/-- The iterator of a table, over the blocks its records were packed into. -/
def openInput (table : TableMeta) (store : TableStore) : Except Status TableIterator := do
  let records ← TableStore.openTable table.tableId.toUInt32 store.files
  let blocks ← DataSection.packRecords records
  pure { blocks := blocks.map fun ps => ps.map DataSection.Payload.toRecord }

/-- `add_input_table`. -/
def addInputTable (table : TableMeta) (level : UInt32) : StreamM Unit := do
  ensure (decide (table.tableId.toNat ≤ 2 ^ 32 - 1))
    ⟨.invalidState, "SSTableManager currently supports only 32-bit input table IDs"⟩
  let s ← get
  let it ← lift (openInput table s.job.store)
  seekInput it
  onJob (modify fun s => { s with deletedTables := s.deletedTables ++ [⟨level, table.tableId⟩] })

/-- The loop over the tables of one level. -/
def addInputTables (level : UInt32) : List TableMeta → StreamM Unit
  | [] => pure ()
  | table :: tables => do
    addInputTable table level
    addInputTables level tables

end

variable [HeapOps]

/-- `merge_iterator.build(iterators)`: its status is not looked at. -/
def buildMerge : StreamM Unit := fun s => (.ok (), { s with merge := (MergeIterator.build s.merge).2 })

/-- The loop over the older versions of a key: the statuses are not looked at. -/
def skipVersions (key : ArenaEntry) : Nat → MergeIterator → MergeIterator
  | 0, m => m
  | fuel + 1, m =>
    if m.valid ∧ m.record.key = key then skipVersions key fuel (MergeIterator.next m).2 else m

/-- The newest record of a key is left, and its older versions. -/
def passKey (fuel : Nat) : StreamM Unit := fun s =>
  (.ok (), { s with merge := skipVersions s.merge.record.key fuel (MergeIterator.next s.merge).2 })

variable [TableFormat]

/-- The output in progress is finished when it has reached the target size. -/
def rollOutput (plan : CompactionPlan) : JobM Unit := do
  let s ← get
  if CompactionJob.isFull s plan.maxOutputFileSize then CompactionJob.finishCurrentOutput plan.targetLevel else pure ()

/-- The merge loop. -/
def mergeLoop (plan : CompactionPlan) (bottommost : Bool) : Nat → StreamM Unit
  | 0 => pure ()
  | fuel + 1 => fun s =>
    if s.merge.valid then
      (do
        onJob (CompactionJob.addNewest bottommost s.merge.record)
        passKey fuel
        onJob (rollOutput plan)
        mergeLoop plan bottommost fuel : StreamM Unit) s
    else (.ok (), s)

/-- The statuses of the iterators, after the loop. -/
def checkIterators : StreamM Unit := fun s =>
  match s.merge.inputs.findSome? TableIterator.status with
  | some e => (.err e, s)
  | none => (.ok (), s)

/-- `run` between its first checks and its result; each round of the loop leaves a record. -/
def merge [Zlib] (plan : CompactionPlan) (lm : LevelManager) : StreamM Unit := do
  addInputTables plan.sourceLevel plan.sourceTables
  addInputTables plan.targetLevel plan.overlappingTables
  let s ← get
  buildMerge
  mergeLoop plan (isBottommostDestination lm plan.targetLevel)
    (s.merge.inputs.map TableIterator.records).flatten.length
  checkIterators
  onJob (CompactionJob.finishCurrentOutput plan.targetLevel)

/-- `CompactionJob::run`; without inputs there is no edit.  The state is the table files and how the
loads of blocks end. -/
def run [Zlib] (plan : CompactionPlan) (lm : LevelManager) (nextTableId : UInt64) :
    Prog (TableStore × Reads) Status (Option VersionEdit) := fun (store, reads) =>
  if !plan.validate then (.err ⟨.corruption, "Compaction plan is not valid"⟩, (store, reads))
  else if !planIsCurrent plan lm then
    (.err ⟨.invalidState, "Compaction plan is stale; one or more input tables changed"⟩, (store, reads))
  else
    match merge plan lm ⟨{ store, nextOutputTableId := nextTableId }, { inputs := [], reads }⟩ with
    | (.ok _, s) =>
      (.ok (if s.job.deletedTables = [] ∧ s.job.newTables = [] then none
        else some (CompactionJob.editOf nextTableId s.job)), (s.job.store, s.merge.reads))
    | (.err e, s) =>
      match CompactionJob.cleanupFinishedOutputs s.job.newTables s.job.store with
      | (.crash, store) => (.crash, (store, s.merge.reads))
      | (_, store) => (.err e, (store, s.merge.reads))
    | (.crash, s) => (.crash, (s.job.store, s.merge.reads))

end StreamingJob

/-! ## The numbers of the outputs -/

/-- The ids of the finished outputs and of the one in progress. -/
def JobState.outputIds (s : JobState) : List Nat :=
  s.newTables.map (fun t => t.tableId.toNat) ++ s.builder.toList.map fun b => b.1.toNat

/-- The outputs are numbered from `next` on, and the output in progress is not empty. -/
structure Numbered (next : UInt64) (s : JobState) : Prop where
  ids : s.outputIds = List.range' next.toNat s.outputIds.length
  nextId : s.nextOutputTableId.toNat = next.toNat + s.outputIds.length

/-- The output in progress has a record. -/
def Filled (s : JobState) : Prop := ∀ b ∈ s.builder, b.2 ≠ []

/-- No condition on a state. -/
def AnyState {σ : Type} (_ : σ) : Prop := True

namespace CompactionJob

variable {next : UInt64} {s : JobState}

theorem startNewOutput_numbered (h : Numbered next s) :
    Ends (fun _ s' => Numbered next s' ∧ s'.builder.isSome = true) AnyState AnyState (startNewOutput s) := by
  unfold startNewOutput
  refine ends_get ?_
  cases hb : s.builder with
  | some b => exact ends_pure ⟨h, by rw [hb]; rfl⟩
  | none =>
    refine ends_guard (fun _ => trivial) fun hle => ends_modify ⟨?_, rfl⟩
    have hlt : s.nextOutputTableId.toNat < 2 ^ 32 := by
      have := of_decide_eq_true hle
      omega
    have hid : s.nextOutputTableId.toUInt32.toNat = s.nextOutputTableId.toNat := by
      rw [UInt64.toNat_toUInt32]
      exact Nat.mod_eq_of_lt hlt
    have hnext : (s.nextOutputTableId + 1).toNat = s.nextOutputTableId.toNat + 1 := by
      rw [UInt64.toNat_add, UInt64.toNat_one]
      omega
    have hold : s.outputIds = s.newTables.map fun t => t.tableId.toNat := by
      unfold JobState.outputIds
      rw [hb, Option.toList_none, List.map_nil, List.append_nil]
    have hnew : JobState.outputIds { s with
        builder := some (s.nextOutputTableId.toUInt32, []), nextOutputTableId := s.nextOutputTableId + 1 } =
        s.outputIds ++ [s.nextOutputTableId.toNat] := by
      rw [hold, ← hid]
      rfl
    refine ⟨?_, ?_⟩
    · rw [hnew, List.length_append, List.length_singleton, List.range'_concat, h.nextId, Nat.one_mul]
      exact congrArg (· ++ [next.toNat + s.outputIds.length]) h.ids
    · rw [hnew, List.length_append, List.length_singleton]
      show (s.nextOutputTableId + 1).toNat = _
      rw [hnext, h.nextId]
      omega

variable [TableFormat]

theorem add_numbered (h : Numbered next s) (hb : s.builder.isSome = true) (r : InternalRecord) :
    Ends (fun _ s' => Numbered next s' ∧ Filled s') AnyState AnyState (add r s) := by
  unfold add
  refine ends_get ?_
  obtain ⟨⟨id, records⟩, hsome⟩ := Option.isSome_iff_exists.mp hb
  rw [hsome]
  refine ends_guard (fun _ => trivial) fun _ => ends_lift_bind (fun _ _ => trivial) fun _ _ => ends_modify ?_
  have hids : JobState.outputIds { s with builder := some (id, records ++ [r]) } = s.outputIds := by
    unfold JobState.outputIds
    rw [hsome]
    rfl
  refine ⟨⟨?_, ?_⟩, ?_⟩
  · rw [hids]
    exact h.ids
  · rw [hids]
    exact h.nextId
  · intro b hbs
    cases hbs
    simp

theorem finishCurrentOutput_numbered {target : UInt32} (h : Numbered next s) (hf : Filled s) :
    Ends (fun _ s' => Numbered next s' ∧ Filled s') AnyState AnyState (finishCurrentOutput target s) := by
  unfold finishCurrentOutput
  refine ends_get ?_
  cases hb : s.builder with
  | none => exact ends_pure ⟨h, hf⟩
  | some b =>
    obtain ⟨id, records⟩ := b
    dsimp only
    cases hsum : summarize records with
    | none =>
      -- an output in progress has a record
      cases records with
      | nil => exact absurd rfl (hf _ hb)
      | cons r rs => cases hsum
    | some summary =>
      have hwrite : Ends (fun _ _ => True) (fun _ => True) (fun _ => True) (TableStore.write id records s.store) :=
        ends_of_state (I := fun _ => True) trivial
      refine ((ends_onStore hwrite).mono (fun _ _ h => h) (fun _ _ => trivial) fun _ _ => trivial).bind ?_
      rintro layout s₁ ⟨store, -, rfl⟩
      refine ends_lift_bind (fun _ _ => trivial) fun table htable => ends_modify ?_
      obtain ⟨htid, -, -, -⟩ := makeTableMeta_ok htable
      have hids : JobState.outputIds { s with store, newTables := s.newTables ++ [table], builder := none } =
          s.outputIds := by
        unfold JobState.outputIds
        rw [hb, Option.toList_none, List.map_nil, List.append_nil, List.map_append, List.map_singleton, htid,
          UInt32.toNat_toUInt64]
        rfl
      refine ⟨⟨?_, ?_⟩, ?_⟩
      · exact hids.symm ▸ h.ids
      · exact hids.symm ▸ h.nextId
      · intro b hbs
        cases hbs

theorem addNewest_numbered (bottommost : Bool) (r : InternalRecord) (h : Numbered next s) (hf : Filled s) :
    Ends (fun _ s' => Numbered next s' ∧ Filled s') AnyState AnyState (addNewest bottommost r s) := by
  unfold addNewest
  by_cases hk : compactionKeepNewestRecord r.type bottommost = true
  · rw [if_pos hk]
    exact (startNewOutput_numbered h).bind fun _ s₁ ⟨h₁, hb⟩ => add_numbered h₁ hb r
  · rw [if_neg hk]
    exact ends_pure ⟨h, hf⟩

end CompactionJob

/-! ## The merge loop -/

/-- The job with what its outputs received. -/
structure Writing (target : UInt32) (next : UInt64) (files : UInt32 → Option (List InternalRecord))
    (deleted : List DeletedTable) (done : List InternalRecord) (s : JobState) : Prop where
  progress : ∃ outs, Progress target next files deleted outs done s
  numbered : Numbered next s
  filled : Filled s

theorem newestRecords_skip {k : ArenaEntry} {l : List InternalRecord} (h : ∀ r ∈ l, r.key = k)
    (l' : List InternalRecord) : newestRecords (some k) (l ++ l') = newestRecords (some k) l' := by
  induction l with
  | nil => rfl
  | cons r l ih =>
    have hr := h r List.mem_cons_self
    rw [List.cons_append, newestRecords, if_pos (by rw [hr]), ih fun x hx => h x (List.mem_cons_of_mem r hx)]

/-- Behind the versions of a key the next record starts another one. -/
theorem newestRecords_fresh {k : ArenaEntry} {l : List InternalRecord} (h : ∀ r ∈ l.head?, r.key ≠ k) :
    newestRecords (some k) l = newestRecords none l := by
  cases l with
  | nil => rfl
  | cons r l =>
    have hr := h r rfl
    rw [newestRecords, if_neg (fun heq => hr (Option.some.inj heq).symm), newestRecords, if_neg (by simp)]

namespace StreamingJob

variable {E : Prop} {s : State} {ls : List (List InternalRecord)} {target : UInt32} {next : UInt64}
  {files : UInt32 → Option (List InternalRecord)} {deleted : List DeletedTable} {done : List InternalRecord}

/-- An iterator has failed. -/
def Broken (s : State) : Prop := ∃ it ∈ s.merge.inputs, it.status ≠ none

theorem ends_onJob {α : Type} {m : JobM α} {Q : α → JobState → Prop} (h : Ends Q AnyState AnyState (m s.job)) :
    Ends (fun a s' => Q a s'.job ∧ s'.merge = s.merge) AnyState AnyState (onJob m s) := by
  unfold onJob
  generalize m s.job = r at h
  obtain ⟨o, job⟩ := r
  cases o with
  | ok a => exact ⟨h, rfl⟩
  | err e => exact trivial
  | crash => exact trivial

theorem ends_any {α : Type} (r : Outcome Status α × JobState) : Ends (fun _ _ => True) AnyState AnyState r := by
  obtain ⟨o, job⟩ := r
  cases o with
  | ok a => exact trivial
  | err e => exact trivial
  | crash => exact trivial

variable [HeapOps]

theorem skipVersions_invalid {m : MergeIterator} (hv : m.valid = false) (key : ArenaEntry) (fuel : Nat) :
    skipVersions key fuel m = m := by
  cases fuel with
  | zero => rfl
  | succ fuel =>
    unfold skipVersions
    rw [if_neg]
    rintro ⟨h, -⟩
    rw [hv] at h
    cases h

section

variable [LawfulHeap]

/-- The older versions of a key are left, unless an iterator fails. -/
theorem skipVersions_drains {m : MergeIterator} (h : m.Merging E ls) (key : ArenaEntry) {fuel : Nat}
    (hfuel : ls.flatten.length ≤ fuel) :
    ((skipVersions key fuel m).valid = false ∧ (∃ it ∈ (skipVersions key fuel m).inputs, it.status ≠ none) ∧
        ∃ e, FailedLoad E m.reads e (skipVersions key fuel m).reads) ∨
      ∃ l rest, KWay.Drains internalBefore ls l rest ∧ (∀ r ∈ l, r.key = key) ∧
        (skipVersions key fuel m).Merging E rest ∧ QuietReads m.reads (skipVersions key fuel m).reads ∧
          ((skipVersions key fuel m).valid = true → (skipVersions key fuel m).record.key ≠ key) := by
  induction fuel generalizing m ls with
  | zero =>
    refine .inr ⟨[], ls, .stop ls, by simp, h, QuietReads.refl _, fun hv => ?_⟩
    obtain ⟨top, r, l, htop, -, -, -⟩ := MergeIterator.next_merging h hv
    have hlen := (KWay.perm_set htop).length_eq
    rw [List.length_cons] at hlen
    omega
  | succ fuel ih =>
    by_cases hmore : m.valid = true ∧ m.record.key = key
    · unfold skipVersions
      rw [if_pos hmore]
      obtain ⟨top, r, l, htop, hrec, hmin, hstep⟩ := MergeIterator.next_merging h hmore.1
      rcases hstep with ⟨m', hnext, hm', hquiet⟩ | ⟨e, m', hnext, hv', -, hfailed, it, hit, hs⟩
      · rw [hnext]
        have hlen := (KWay.perm_set htop).length_eq
        rw [List.length_cons] at hlen
        rcases ih hm' (by omega) with ⟨hv', hbad, e, hfailed⟩ | ⟨l', rest, hdrains, hkeys, hrest, hq, hend⟩
        · exact .inl ⟨hv', hbad, e, hquiet.failed hfailed⟩
        · refine .inr ⟨r :: l', rest, .take htop hmin hdrains, ?_, hrest, hquiet.trans hq, hend⟩
          intro x hx
          rcases List.mem_cons.mp hx with rfl | hx
          · rw [← hrec]
            exact hmore.2
          · exact hkeys x hx
      · rw [hnext, skipVersions_invalid hv']
        exact .inl ⟨hv', ⟨it, hit, by rw [hs]; simp⟩, e, hfailed⟩
    · have hsame : skipVersions key (fuel + 1) m = m := by
        unfold skipVersions
        rw [if_neg hmore]
      rw [hsame]
      exact .inr ⟨[], ls, .stop ls, by simp, h, QuietReads.refl _, fun hv hk => hmore ⟨hv, hk⟩⟩

/-- The newest record and the older versions of its key are left, unless an iterator fails. -/
theorem passKey_drains (h : s.merge.Merging E ls) (hv : s.merge.valid = true) {fuel : Nat}
    (hfuel : ls.flatten.length ≤ fuel + 1) :
    ∃ merge, passKey fuel s = (.ok (), { s with merge }) ∧
      ((merge.valid = false ∧ (∃ it ∈ merge.inputs, it.status ≠ none) ∧ ∃ e,
        FailedLoad E s.merge.reads e merge.reads) ∨
        ∃ l rest, KWay.Drains internalBefore ls (s.merge.record :: l) rest ∧
          (∀ r ∈ l, r.key = s.merge.record.key) ∧
          merge.Merging E rest ∧ rest.flatten.length ≤ fuel ∧ QuietReads s.merge.reads merge.reads ∧
            (merge.valid = true → merge.record.key ≠ s.merge.record.key)) := by
  refine ⟨skipVersions s.merge.record.key fuel (MergeIterator.next s.merge).2, rfl, ?_⟩
  obtain ⟨top, r, l, htop, hrec, hmin, hstep⟩ := MergeIterator.next_merging h hv
  have hlen := (KWay.perm_set htop).length_eq
  rw [List.length_cons] at hlen
  rcases hstep with ⟨m', hnext, hm', hquiet⟩ | ⟨e, m', hnext, hv', -, hfailed, it, hit, hs⟩
  · rw [hnext]
    rcases skipVersions_drains hm' s.merge.record.key (show _ ≤ fuel by omega) with
      ⟨hv', hbad, e, hfailed⟩ | ⟨l', rest, hdrains, hkeys, hrest, hq, hend⟩
    · exact .inl ⟨hv', hbad, e, hquiet.failed hfailed⟩
    · have hshort := hdrains.perm.length_eq
      rw [List.length_append] at hshort
      refine .inr ⟨l', rest, ?_, hkeys, hrest, by omega, hquiet.trans hq, hend⟩
      rw [hrec]
      exact .take htop hmin hdrains
  · rw [hnext]
    dsimp only
    rw [skipVersions_invalid hv']
    exact .inl ⟨hv', ⟨it, hit, by rw [hs]; simp⟩, e, hfailed⟩

variable [TableFormat]

omit [HeapOps] [LawfulHeap] in
theorem addNewest_writing (bottommost : Bool) (r : InternalRecord) {s : JobState}
    (h : Writing target next files deleted done s) :
    Ends (fun _ => Writing target next files deleted (done ++ CompactionJob.kept bottommost [r])) AnyState AnyState
      (CompactionJob.addNewest bottommost r s) := by
  obtain ⟨outs, hp⟩ := h.progress
  have hprogress := CompactionJob.addNewest_progress bottommost r hp
  have hnumbered := CompactionJob.addNewest_numbered bottommost r h.numbered h.filled
  refine (hprogress.and hnumbered).mono ?_ (fun _ _ => trivial) fun _ _ => trivial
  rintro _ s' ⟨hp', hn', hf'⟩
  exact ⟨⟨outs, hp'⟩, hn', hf'⟩

omit [HeapOps] [LawfulHeap] in
theorem finishCurrentOutput_writing {s : JobState} (h : Writing target next files deleted done s) :
    Ends (fun _ s' => Writing target next files deleted done s' ∧ s'.builder = none) AnyState AnyState
      (CompactionJob.finishCurrentOutput target s) := by
  obtain ⟨outs, hp⟩ := h.progress
  have hprogress := CompactionJob.finishCurrentOutput_progress hp
  have hnumbered : Ends (fun _ s' => Numbered next s' ∧ Filled s') AnyState AnyState
      (CompactionJob.finishCurrentOutput target s) :=
    CompactionJob.finishCurrentOutput_numbered h.numbered h.filled
  refine (hprogress.and hnumbered).mono ?_ (fun _ _ => trivial) fun _ _ => trivial
  rintro _ s' ⟨⟨outs', hp', hb⟩, hn', hf'⟩
  exact ⟨⟨⟨outs', hp'⟩, hn', hf'⟩, hb⟩

omit [HeapOps] [LawfulHeap] in
theorem rollOutput_writing {plan : CompactionPlan} {s : JobState}
    (h : Writing plan.targetLevel next files deleted done s) :
    Ends (fun _ => Writing plan.targetLevel next files deleted done) AnyState AnyState (rollOutput plan s) := by
  unfold rollOutput
  refine ends_get ?_
  split
  · exact (finishCurrentOutput_writing h).imp fun _ _ h => h.1
  · exact ends_pure h

omit [LawfulHeap] in
theorem mergeLoop_invalid {plan : CompactionPlan} {bottommost : Bool} (hv : s.merge.valid = false) (fuel : Nat) :
    mergeLoop plan bottommost fuel s = (.ok (), s) := by
  cases fuel with
  | zero => rfl
  | succ fuel =>
    unfold mergeLoop
    rw [if_neg (by rw [hv]; decide)]

omit [LawfulHeap] in
theorem mergeLoop_stop {plan : CompactionPlan} (bottommost : Bool) (fuel : Nat) (hm : s.merge.Merging E ls)
    (hv : s.merge.valid = false) (hw : Writing plan.targetLevel next files deleted done s.job) :
    Ends (fun _ s' => Broken s' ∨ ∃ l rest, KWay.Drains internalBefore ls l rest ∧ rest.flatten = [] ∧
        l.head? = (if s.merge.valid then some s.merge.record else none) ∧
        Writing plan.targetLevel next files deleted (done ++ CompactionJob.kept bottommost (newestRecords none l))
          s'.job ∧
          QuietReads s.merge.reads s'.merge.reads)
      AnyState AnyState (mergeLoop plan bottommost fuel s) := by
  rw [mergeLoop_invalid hv, hv]
  refine .inr ⟨[], ls, .stop ls, hm.done hv, rfl, ?_, QuietReads.refl _⟩
  rw [newestRecords, CompactionJob.kept, List.filter_nil, List.append_nil]
  exact hw

/-- The loop hands the newest record of each key to the outputs, unless an iterator fails. -/
theorem mergeLoop_writing {plan : CompactionPlan} (bottommost : Bool) (fuel : Nat) (hm : s.merge.Merging E ls)
    (hfuel : ls.flatten.length ≤ fuel) (hw : Writing plan.targetLevel next files deleted done s.job) :
    Ends (fun _ s' => Broken s' ∨ ∃ l rest, KWay.Drains internalBefore ls l rest ∧ rest.flatten = [] ∧
        l.head? = (if s.merge.valid then some s.merge.record else none) ∧
        Writing plan.targetLevel next files deleted (done ++ CompactionJob.kept bottommost (newestRecords none l))
          s'.job ∧
          QuietReads s.merge.reads s'.merge.reads)
      AnyState AnyState (mergeLoop plan bottommost fuel s) := by
  induction fuel generalizing s ls done with
  | zero =>
    refine mergeLoop_stop bottommost 0 hm ?_ hw
    cases hv : s.merge.valid with
    | false => rfl
    | true =>
      obtain ⟨top, r, l, htop, -, -, -⟩ := MergeIterator.next_merging hm hv
      have hlen := (KWay.perm_set htop).length_eq
      rw [List.length_cons] at hlen
      omega
  | succ fuel ih =>
    cases hv : s.merge.valid with
    | false => exact hv ▸ mergeLoop_stop bottommost (fuel + 1) hm hv hw
    | true =>
      rw [if_pos rfl]
      unfold mergeLoop
      rw [if_pos hv]
      refine (ends_onJob (addNewest_writing bottommost s.merge.record hw)).bind fun _ s₁ ⟨hw₁, hm₁⟩ => ?_
      have hsame : s₁.merge.Merging E ls := hm₁.symm ▸ hm
      obtain ⟨merge, hpass, hcase⟩ := passKey_drains hsame (hm₁.symm ▸ hv) hfuel
      rw [bind_ok hpass]
      rcases hcase with ⟨hv', ⟨it, hit, hs⟩, -⟩ | ⟨l, rest, hdrains, hkeys, hrest, hlen, hquiet, hend⟩
      · refine (ends_onJob (ends_any _)).bind fun _ s₂ ⟨_, hm₂⟩ => ?_
        have hm₂ : s₂.merge = merge := hm₂
        rw [mergeLoop_invalid (by rw [hm₂]; exact hv')]
        exact .inl ⟨it, hm₂.symm ▸ hit, hs⟩
      · have hroll := ends_onJob (s := ⟨s₁.job, merge⟩) (rollOutput_writing hw₁)
        refine hroll.bind fun _ s₂ ⟨hw₂, hm₂⟩ => ?_
        have hm₂ : s₂.merge = merge := hm₂
        refine (ih (hm₂.symm ▸ hrest) hlen hw₂).imp fun _ s₃ h => ?_
        rcases h with hbad | ⟨l₂, rest₂, hdrains₂, hnil, hhead, hw₃, hquiet₂⟩
        · exact .inl hbad
        · rw [hm₁] at hdrains hkeys hquiet hend
          rw [hm₂] at hhead hquiet₂
          have hfresh : ∀ r ∈ l₂.head?, r.key ≠ s.merge.record.key := by
            intro r hr
            rw [hhead] at hr
            by_cases hv₂ : merge.valid = true
            · rw [if_pos hv₂] at hr
              cases hr
              exact hend hv₂
            · rw [if_neg hv₂] at hr
              cases hr
          have hnewest : newestRecords none (s.merge.record :: l ++ l₂) =
              s.merge.record :: newestRecords none l₂ := by
            rw [List.cons_append, newestRecords, if_neg (by simp), newestRecords_skip hkeys, newestRecords_fresh hfresh]
          refine .inr ⟨s.merge.record :: l ++ l₂, rest₂, hdrains.trans hdrains₂, hnil, rfl, ?_,
            hquiet.trans hquiet₂⟩
          rw [hnewest]
          have hkept : done ++ CompactionJob.kept bottommost (s.merge.record :: newestRecords none l₂) =
              done ++ CompactionJob.kept bottommost [s.merge.record] ++
                CompactionJob.kept bottommost (newestRecords none l₂) := by
            rw [List.append_assoc, CompactionJob.kept, CompactionJob.kept, CompactionJob.kept, ← List.filter_append]
            rfl
          rw [hkept]
          exact hw₃

end

end StreamingJob

end Kvdb
