import Kvdb.Compaction.Install
import Kvdb.Compaction.Streaming

/-!
# What an edit of the compaction job says

A run that returned an edit read every block of its inputs (`merge_writing`), so its
outputs have exactly the newest record of each key, in key order, without the
tombstones that may go.  The tables of the edit are numbered from the next id on,
each has its records' range, and the ranges stand one behind the other
(`run_output`).
-/

namespace Kvdb

open Faulty Heap DataSection DataSectionView

/-! ## Inputs -/

namespace StreamingJob

/-- An iterator of a table: the records of its file, in order, in blocks that are not empty. -/
structure Opened (files : UInt32 → Option (List InternalRecord)) (t : TableMeta) (it : TableIterator) : Prop where
  file : files t.tableId.toUInt32 = some it.records
  blocks : [] ∉ it.blocks
  ordered : Ordered it.records

theorem Opened.of_blocks {files : UInt32 → Option (List InternalRecord)} {t : TableMeta} {it it' : TableIterator}
    (h : Opened files t it) (hb : it'.blocks = it.blocks) : Opened files t it' := by
  have hrecords : it'.records = it.records := congrArg List.flatten hb
  refine ⟨?_, ?_, ?_⟩
  · rw [hrecords]
    exact h.file
  · rw [hb]
    exact h.blocks
  · rw [hrecords]
    exact h.ordered

theorem opened_sorted {files : UInt32 → Option (List InternalRecord)} {ts : List TableMeta} {its : List TableIterator}
    (h : List.Forall₂ (Opened files) ts its) :
    ∀ l ∈ its.map TableIterator.records, KWay.Sorted internalBefore l := by
  intro l hl
  obtain ⟨it, hit, rfl⟩ := List.mem_map.mp hl
  obtain ⟨t, -, hopen⟩ := forall₂_right h it hit
  exact hopen.ordered.sorted

theorem opened_blocks {files : UInt32 → Option (List InternalRecord)} {ts : List TableMeta} {its : List TableIterator}
    (h : List.Forall₂ (Opened files) ts its) : ∀ it ∈ its, [] ∈ it.blocks → False := by
  intro it hit
  obtain ⟨t, -, hopen⟩ := forall₂_right h it hit
  exact hopen.blocks

theorem toRecord_ofRecord {r : InternalRecord} (h : Canonical (Payload.ofRecord r)) :
    (Payload.ofRecord r).toRecord = r := by
  obtain ⟨hkey, -, -⟩ := h
  obtain ⟨key, value, type, seqNum⟩ := r
  cases type with
  | put => rfl
  | tombstone => rfl
  | undefined => cases hkey

theorem seekToFirst_blocks (it : TableIterator) (reads : Reads) : (it.seekToFirst reads).1.blocks = it.blocks := by
  unfold TableIterator.seekToFirst TableIterator.loadNextBlock TableIterator.load
  dsimp only
  split
  · rfl
  · split
    · rfl
    · cases it.blocks.getD 0 [] with
      | nil => rfl
      | cons r rs => rfl

theorem seekInput_ends (it : TableIterator) (hne : [] ∉ it.blocks) (s : State) :
    Ends (fun _ s' => ∃ it', it'.blocks = it.blocks ∧ s'.merge.inputs = s.merge.inputs ++ [it'] ∧
      s'.job = s.job ∧
      QuietReads s.merge.reads s'.merge.reads) AnyState AnyState (seekInput it s) := by
  have hmoves := TableIterator.seekToFirst_moves (E := False) (fun h => hne h) s.merge.reads
  have hblocks := seekToFirst_blocks it s.merge.reads
  unfold seekInput
  generalize it.seekToFirst s.merge.reads = moved at hmoves hblocks
  obtain ⟨it', reads⟩ := moved
  rcases hmoves with ⟨hst, hquiet⟩ | ⟨e, hs, -, -⟩
  · have hs : it'.status = none := hst.status
    dsimp only
    rw [hs]
    exact ⟨it', hblocks, rfl, rfl, hquiet⟩
  · dsimp only at hs ⊢
    rw [hs]
    exact trivial

variable [Zlib]

theorem openInput_ok {t : TableMeta} {store : TableStore} {it : TableIterator} (h : openInput t store = .ok it) :
    Opened store.files t it := by
  unfold openInput at h
  obtain ⟨rs, hopen, h⟩ := except_bind_ok h
  obtain ⟨blocks, hpack, h⟩ := except_bind_ok h
  cases h
  have hp := packRecords_packed hpack
  have hrecords : (blocks.map fun ps => ps.map Payload.toRecord).flatten = rs := by
    rw [← List.map_flatten, hp.flatten, List.map_map]
    refine (List.map_congr_left fun r hr => ?_).trans (List.map_id rs)
    exact toRecord_ofRecord (hp.canonical _ (List.mem_map_of_mem hr))
  refine ⟨?_, ?_, ?_⟩
  · show store.files t.tableId.toUInt32 = some (blocks.map fun ps => ps.map Payload.toRecord).flatten
    rw [hrecords]
    unfold TableStore.openTable at hopen
    split at hopen
    · next hfile =>
      cases hopen
      exact hfile
    · cases hopen
  · intro hnil
    obtain ⟨ps, hps, hmap⟩ := List.mem_map.mp hnil
    exact hp.ne ps hps (List.map_eq_nil_iff.mp hmap)
  · show Ordered (blocks.map fun ps => ps.map Payload.toRecord).flatten
    rw [hrecords]
    refine (List.pairwise_map.mp hp.ordered).imp fun {r r'} hpre => internalBefore_iff.mpr ?_
    exact hpre

theorem addInputTable_ends (t : TableMeta) (level : UInt32) (s : State) :
    Ends (fun _ s' => ∃ it, Opened s.job.store.files t it ∧ s'.merge.inputs = s.merge.inputs ++ [it] ∧
        s'.job = { s.job with deletedTables := s.job.deletedTables ++ [⟨level, t.tableId⟩] } ∧
          QuietReads s.merge.reads s'.merge.reads)
      AnyState AnyState (addInputTable t level s) := by
  unfold addInputTable
  refine ends_guard (fun _ => trivial) fun _ => ends_get ?_
  refine ends_lift_bind (fun _ _ => trivial) fun it hit => ?_
  have hopened := openInput_ok hit
  refine (seekInput_ends it hopened.blocks s).bind fun _ s₁ ⟨it', hb, hinputs, hjob, hquiet⟩ => ?_
  refine ⟨it', hopened.of_blocks hb, hinputs, ?_, hquiet⟩
  show ({ s₁.job with deletedTables := s₁.job.deletedTables ++ [⟨level, t.tableId⟩] } : JobState) = _
  rw [hjob]

theorem addInputTables_ends (level : UInt32) (tables : List TableMeta) (s : State) :
    Ends (fun _ s' => ∃ its, List.Forall₂ (Opened s.job.store.files) tables its ∧
        s'.merge.inputs = s.merge.inputs ++ its ∧
        s'.job = { s.job with
          deletedTables := s.job.deletedTables ++ tables.map fun t => ⟨level, t.tableId⟩ } ∧
          QuietReads s.merge.reads s'.merge.reads)
      AnyState AnyState (addInputTables level tables s) := by
  induction tables generalizing s with
  | nil =>
    refine ends_pure ⟨[], .nil, (List.append_nil _).symm, ?_, QuietReads.refl _⟩
    rw [List.map_nil, List.append_nil]
  | cons t ts ih =>
    unfold addInputTables
    refine (addInputTable_ends t level s).bind fun _ s₁ ⟨it, hit, hinputs, hjob, hquiet⟩ => ?_
    refine (ih s₁).imp fun _ s₂ ⟨its, hits, hinputs₂, hjob₂, hquiet₂⟩ => ?_
    rw [hjob] at hits hjob₂
    refine ⟨it :: its, .cons hit hits, ?_, ?_, hquiet.trans hquiet₂⟩
    · rw [hinputs₂, hinputs, List.append_assoc]
      rfl
    · rw [hjob₂, List.map_cons]
      simp only [List.append_assoc, List.singleton_append]

/-! ## The merge -/

variable [HeapOps] [LawfulHeap] [TableFormat]

omit [Zlib] [HeapOps] [LawfulHeap] [TableFormat] in
theorem checkIterators_ends (s : State) :
    Ends (fun _ s' => s' = s ∧ ¬ Broken s) AnyState AnyState (checkIterators s) := by
  unfold checkIterators
  cases h : s.merge.inputs.findSome? TableIterator.status with
  | some e => exact trivial
  | none =>
    refine ⟨rfl, ?_⟩
    rintro ⟨it, hit, hs⟩
    exact hs (List.findSome?_eq_none_iff.mp h it hit)

/-- A merge that went through has handed the newest record of each key to the outputs. -/
theorem merge_writing (p : CompactionPlan) (lm : LevelManager) (next : UInt64) (store : TableStore) (reads : Reads) :
    Ends (fun _ s' => ∃ its l, List.Forall₂ (Opened store.files) p.inputs its ∧
        KWay.Sorted internalBefore l ∧ l.Perm (its.map TableIterator.records).flatten ∧
        Writing p.targetLevel next store.files p.deletedTables
          (CompactionJob.kept (isBottommostDestination lm p.targetLevel) (newestRecords none l)) s'.job ∧
        s'.job.builder = none ∧ QuietReads reads s'.merge.reads)
      AnyState AnyState (merge p lm ⟨{ store, nextOutputTableId := next }, { inputs := [], reads }⟩) := by
  unfold merge
  refine (addInputTables_ends _ _ _).bind fun _ s₁ ⟨its₁, hits₁, hinputs₁, hjob₁, hquiet₁⟩ => ?_
  refine (addInputTables_ends _ _ s₁).bind fun _ s₂ ⟨its₂, hits₂, hinputs₂, hjob₂, hquiet₂⟩ => ?_
  rw [hjob₁] at hits₂ hjob₂
  rw [hinputs₁] at hinputs₂
  have hopened : List.Forall₂ (Opened store.files) p.inputs s₂.merge.inputs := by
    rw [hinputs₂]
    exact List.rel_append hits₁ hits₂
  have hwriting : Writing p.targetLevel next store.files p.deletedTables [] s₂.job := by
    rw [hjob₂]
    have hprogress : Progress p.targetLevel next store.files p.deletedTables [] []
        { store, nextOutputTableId := next, deletedTables := p.deletedTables } :=
      ⟨rfl, .nil, by simp, FilesBelow.refl _ _, List.Pairwise.nil, by simp, Nat.le_refl _, .inl rfl, rfl⟩
    exact ⟨⟨[], hprogress⟩, ⟨rfl, rfl⟩, fun b hb => by cases hb⟩
  have hbuilt : Ends (fun _ s₃ => s₃.job = s₂.job ∧ ((Broken s₃ ∧ s₃.merge.valid = false) ∨
      (s₃.merge.Merging False (s₂.merge.inputs.map TableIterator.records) ∧
        QuietReads s₂.merge.reads s₃.merge.reads)))
      AnyState AnyState (buildMerge s₂) := by
    refine ⟨rfl, ?_⟩
    rcases MergeIterator.build_merging s₂.merge (opened_blocks hopened) with
      ⟨m, hbuild, hm, hquiet⟩ | ⟨e, m, hbuild, hv, -, -, it, hit, hs⟩
    · refine .inr ?_
      show (MergeIterator.build s₂.merge).2.Merging False _ ∧ QuietReads _ (MergeIterator.build s₂.merge).2.reads
      rw [hbuild]
      exact ⟨hm, hquiet⟩
    · refine .inl ⟨⟨it, ?_, by rw [hs]; simp⟩, ?_⟩
      · show it ∈ (MergeIterator.build s₂.merge).2.inputs
        rw [hbuild]
        exact hit
      · show (MergeIterator.build s₂.merge).2.valid = false
        rw [hbuild]
        exact hv
  refine ends_get (hbuilt.bind fun _ s₃ ⟨hjob₃, hcase⟩ => ?_)
  have hloop : Ends (fun _ s₄ => Broken s₄ ∨ ∃ l, KWay.Sorted internalBefore l ∧
      l.Perm (s₂.merge.inputs.map TableIterator.records).flatten ∧
      Writing p.targetLevel next store.files p.deletedTables
        (CompactionJob.kept (isBottommostDestination lm p.targetLevel) (newestRecords none l)) s₄.job ∧
      QuietReads s₂.merge.reads s₄.merge.reads) AnyState AnyState
      (mergeLoop p (isBottommostDestination lm p.targetLevel)
        (s₂.merge.inputs.map TableIterator.records).flatten.length s₃) := by
    rcases hcase with ⟨hbad, hv⟩ | ⟨hm, hquiet₃⟩
    · rw [mergeLoop_invalid hv]
      exact .inl hbad
    · refine (mergeLoop_writing _ _ hm (Nat.le_refl _) (hjob₃.symm ▸ hwriting)).imp fun _ s₄ h₄ => ?_
      rcases h₄ with hbad | ⟨l, rest, hdrains, hnil, -, hw, hquiet₄⟩
      · exact .inl hbad
      · have hperm := hdrains.perm
        rw [hnil, List.append_nil] at hperm
        exact .inr ⟨l, hdrains.sorted internalBefore_asymm not_internalBefore_trans (opened_sorted hopened),
          hperm, hw,
          hquiet₃.trans hquiet₄⟩
  refine hloop.bind fun _ s₄ h₄ => ?_
  refine (checkIterators_ends s₄).bind fun _ s₅ ⟨hsame, hgood⟩ => ?_
  subst hsame
  rcases h₄ with hbad | ⟨l, hl, hperm, hw, hquiet₄⟩
  · exact absurd hbad hgood
  · refine (ends_onJob (finishCurrentOutput_writing hw)).imp fun _ s₆ ⟨⟨hw₆, hb⟩, hm₆⟩ => ?_
    refine ⟨s₂.merge.inputs, l, hopened, hl, hperm, hw₆, hb, ?_⟩
    rw [hm₆]
    exact (hquiet₁.trans hquiet₂).trans hquiet₄

end StreamingJob

/-! ## The edit -/

/-- The records of the tables a plan compacts. -/
def CompactionPlan.inputRecords (p : CompactionPlan) (files : UInt32 → Option (List InternalRecord)) :
    List InternalRecord := p.inputs.flatMap fun t => (files t.tableId.toUInt32).getD []

/-- The records of the tables an edit adds, table by table. -/
def VersionEdit.newRecords (edit : VersionEdit) (files : UInt32 → Option (List InternalRecord)) :
    List InternalRecord := edit.newTables.flatMap fun t => (files t.tableId.toUInt32).getD []

/-- No level below the target holds a table. -/
def Bottommost (lm : LevelManager) (target : UInt32) : Prop := ∀ level, target.toNat < level → lm.tables level = []

/-- The record of a key that the job keeps: the one with the highest sequence number, unless it is a
tombstone that hides nothing any more. -/
def Retained (lm : LevelManager) (target : UInt32) (inputs : List InternalRecord) (r : InternalRecord) : Prop :=
  r ∈ inputs ∧ (∀ x ∈ inputs, x.key = r.key → x.seqNum.toNat ≤ r.seqNum.toNat) ∧
    ¬ (r.type = .tombstone ∧ Bottommost lm target)

/-- The metadata of a new table describes the records of its file. -/
structure NewTable (files : UInt32 → Option (List InternalRecord)) (target : UInt32) (t : TableMeta) : Prop where
  level : t.level = target
  file : ∃ rs, files t.tableId.toUInt32 = some rs ∧ rs ≠ [] ∧ (∃ r ∈ rs, r.key = t.smallestKey) ∧
    (∃ r ∈ rs, r.key = t.largestKey) ∧ ∀ r ∈ rs, t.smallestKey ≤ r.key ∧ r.key ≤ t.largestKey

/-- What an edit of the job says about the files before and after the run. -/
structure JobOutput (p : CompactionPlan) (lm : LevelManager) (next : UInt64)
    (files files' : UInt32 → Option (List InternalRecord)) (edit : VersionEdit) : Prop where
  ascending : (edit.newRecords files').Pairwise fun a b => a.key < b.key
  records : ∀ r, r ∈ edit.newRecords files' ↔ Retained lm p.targetLevel (p.inputRecords files) r
  tables : ∀ t ∈ edit.newTables, NewTable files' p.targetLevel t
  separate : edit.newTables.Pairwise fun a b => a.largestKey < b.smallestKey
  ids : edit.newTables.map (fun t => t.tableId.toNat) = List.range' next.toNat edit.newTables.length
  nextTableId : (edit.newTables = [] ∧ edit.nextTableId = none) ∨
    (edit.newTables ≠ [] ∧ ∃ n, edit.nextTableId = some n ∧ n.toNat = next.toNat + edit.newTables.length)
  deleted : edit.deletedTables = p.deletedTables

theorem isBottommostDestination_iff (lm : LevelManager) (target : UInt32) :
    isBottommostDestination lm target = true ↔ Bottommost lm target := by
  unfold isBottommostDestination Bottommost
  rw [List.all_eq_true]
  constructor
  · intro h level hlt
    unfold LevelManager.tables
    rw [List.getD_eq_getElem?_getD]
    cases hget : lm.levels[level]? with
    | none => rfl
    | some ts =>
      have hmem : ts ∈ lm.levels.drop (target.toNat + 1) := by
        refine List.mem_of_getElem? (i := level - (target.toNat + 1)) ?_
        rw [List.getElem?_drop, ← hget]
        congr 1
        omega
      exact List.isEmpty_iff.mp (h ts hmem)
  · intro h ts hts
    obtain ⟨i, hi⟩ := List.mem_iff_getElem?.mp hts
    rw [List.getElem?_drop] at hi
    have hempty := h (target.toNat + 1 + i) (by omega)
    unfold LevelManager.tables at hempty
    rw [List.getD_eq_getElem?_getD, hi] at hempty
    exact List.isEmpty_iff.mpr hempty

theorem keepNewest_iff (lm : LevelManager) (target : UInt32) (r : InternalRecord) :
    compactionKeepNewestRecord r.type (isBottommostDestination lm target) = true ↔
      ¬ (r.type = .tombstone ∧ Bottommost lm target) := by
  rw [← isBottommostDestination_iff]
  unfold compactionKeepNewestRecord
  rw [Bool.not_eq_true', ← Bool.not_eq_true, Bool.and_eq_true, decide_eq_true_eq]

/-- The kept newest records of the inputs in order are the retained ones. -/
theorem mem_kept_newest {lm : LevelManager} {target : UInt32} {l inputs : List InternalRecord}
    (hl : KWay.Sorted internalBefore l) (hperm : l.Perm inputs)
    (hsame : ∀ x ∈ inputs, ∀ y ∈ inputs, x.key = y.key → x.seqNum = y.seqNum → x = y) (r : InternalRecord) :
    r ∈ CompactionJob.kept (isBottommostDestination lm target) (newestRecords none l) ↔
      Retained lm target inputs r := by
  obtain ⟨hnewest, hcover⟩ := newestRecords_none hl
  rw [CompactionJob.kept, List.mem_filter, keepNewest_iff]
  constructor
  · rintro ⟨hr, hkeep⟩
    refine ⟨hperm.mem_iff.mp (hnewest.mem r hr), fun x hx hk => ?_, hkeep⟩
    exact hnewest.newest r hr x (hperm.mem_iff.mpr hx) hk
  · rintro ⟨hr, hmax, hkeep⟩
    refine ⟨?_, hkeep⟩
    obtain ⟨r', hr', hk⟩ := hcover r (hperm.mem_iff.mpr hr)
    have hin := hperm.mem_iff.mp (hnewest.mem r' hr')
    have hle := hmax r' hin hk
    have hge := hnewest.newest r' hr' r (hperm.mem_iff.mpr hr) hk.symm
    have heq := hsame r hr r' hin hk.symm (UInt64.toNat_inj.mp (by omega))
    rw [heq]
    exact hr'

/-- The outputs of a job in the files they were written to. -/
theorem newRecords_eq {files : UInt32 → Option (List InternalRecord)} {target : UInt32} {outs : List Output}
    {ts : List TableMeta} (hmade : List.Forall₂ (Made target) outs ts)
      (hstored : ∀ o ∈ outs, files o.1 = some o.2) :
    (ts.flatMap fun t => (files t.tableId.toUInt32).getD []) = outs.flatMap Prod.snd := by
  induction hmade with
  | nil => rfl
  | @cons o t outs ts hot _ ih =>
    rw [List.flatMap_cons, List.flatMap_cons, ih fun x hx => hstored x (List.mem_cons_of_mem o hx), hot.id32,
      hstored o List.mem_cons_self]
    rfl

theorem newTable_of_made {files : UInt32 → Option (List InternalRecord)} {target : UInt32} {o : Output}
    {t : TableMeta}
    (hmade : Made target o t) (hstored : files o.1 = some o.2) : NewTable files target t := by
  obtain ⟨summary, hsum, hmin, hmax⟩ := hmade.bounds
  obtain ⟨hbounds, ⟨a, ha, hamin⟩, b, hb, hbmax⟩ := summarize_keys hsum
  refine ⟨hmade.level, o.2, hmade.id32.symm ▸ hstored, List.ne_nil_of_mem ha, ⟨a, ha, ?_⟩, ⟨b, hb, ?_⟩,
    ?_⟩
  · rw [hmin, hamin]
  · rw [hmax, hbmax]
  · rw [hmin, hmax]
    exact hbounds

/-- The ranges of outputs whose records ascend stand one behind the other. -/
theorem separate_of_made {target : UInt32} {outs : List Output} {ts : List TableMeta}
    (hmade : List.Forall₂ (Made target) outs ts)
    (hasc : (outs.flatMap Prod.snd).Pairwise fun a b => a.key < b.key) :
    ts.Pairwise fun a b => a.largestKey < b.smallestKey := by
  induction hmade with
  | nil => exact List.Pairwise.nil
  | @cons o t outs ts hot hrest ih =>
    rw [List.flatMap_cons] at hasc
    obtain ⟨-, htail, hcross⟩ := List.pairwise_append.mp hasc
    refine List.pairwise_cons.mpr ⟨fun t' ht' => ?_, ih htail⟩
    obtain ⟨o', ho', hot'⟩ := forall₂_right hrest t' ht'
    obtain ⟨s, hs, -, hmax⟩ := hot.bounds
    obtain ⟨s', hs', hmin', -⟩ := hot'.bounds
    obtain ⟨-, -, b, hb, hbmax⟩ := summarize_keys hs
    obtain ⟨-, ⟨a, ha, hamin⟩, -⟩ := summarize_keys hs'
    rw [hmax, hmin', hbmax, hamin]
    exact hcross b hb a (List.mem_flatMap.mpr ⟨o', ho', ha⟩)

namespace StreamingJob

theorem records_opened {files : UInt32 → Option (List InternalRecord)} {ts : List TableMeta}
    {its : List TableIterator}
    (h : List.Forall₂ (Opened files) ts its) :
    (its.map TableIterator.records).flatten = ts.flatMap fun t => (files t.tableId.toUInt32).getD [] := by
  induction h with
  | nil => rfl
  | cons hopen _ ih =>
    rw [List.map_cons, List.flatten_cons, List.flatMap_cons, ih, hopen.file]
    rfl

variable [Zlib] [HeapOps] [LawfulHeap] [TableFormat]

/-- **What the compaction job writes.**  A run that returns an edit has read every block of its inputs,
and its outputs are the newest records of the keys there, without the tombstones that may go. -/
theorem run_output {p : CompactionPlan} {lm : LevelManager} {next : UInt64} {store store' : TableStore}
    {reads reads' : Reads} {edit : VersionEdit}
    (hsame : ∀ x ∈ p.inputRecords store.files, ∀ y ∈ p.inputRecords store.files,
      x.key = y.key → x.seqNum = y.seqNum → x = y)
    (h : run p lm next (store, reads) = (.ok (some edit), (store', reads'))) :
    JobOutput p lm next store.files store'.files edit ∧ QuietReads reads reads' := by
  unfold run at h
  dsimp only at h
  split at h
  · cases h
  split at h
  · cases h
  have hends := merge_writing p lm next store reads
  split at h
  · next u s hm =>
    obtain ⟨its, l, hopened, hl, hperm, hw, hb, hquiet⟩ := hends.ok hm
    have hedit : edit = CompactionJob.editOf next s.job ∧ store' = s.job.store ∧ reads' = s.merge.reads := by
      split at h
      · cases h
      · cases h
        exact ⟨rfl, rfl, rfl⟩
    obtain ⟨rfl, rfl, rfl⟩ := hedit
    refine ⟨?_, hquiet⟩
    obtain ⟨outs, hp⟩ := hw.progress
    have hrecs := hp.records
    rw [hb, Option.toList_none, List.append_nil] at hrecs
    have hinputs : (its.map TableIterator.records).flatten = p.inputRecords store.files :=
      records_opened hopened
    rw [hinputs] at hperm
    have hnew : (CompactionJob.editOf next s.job).newRecords s.job.store.files =
        CompactionJob.kept (isBottommostDestination lm p.targetLevel) (newestRecords none l) :=
      (newRecords_eq hp.made hp.stored).trans hrecs
    have hasc : (CompactionJob.kept (isBottommostDestination lm p.targetLevel) (newestRecords none l)).Pairwise
        fun a b => a.key < b.key := (newestRecords_none hl).1.ascending.sublist List.filter_sublist
    have hids : s.job.outputIds = s.job.newTables.map fun t => t.tableId.toNat := by
      unfold JobState.outputIds
      rw [hb, Option.toList_none, List.map_nil, List.append_nil]
    have hlen : s.job.outputIds.length = s.job.newTables.length := by
      rw [hids, List.length_map]
    have hnext := hw.numbered.nextId
    rw [hlen] at hnext
    refine ⟨?_, fun r => ?_, fun t ht => ?_, ?_, ?_, ?_, hp.deletedTables⟩
    · rw [hnew]
      exact hasc
    · rw [hnew]
      exact mem_kept_newest hl hperm hsame r
    · obtain ⟨o, ho, hmade⟩ := forall₂_right hp.made t ht
      exact newTable_of_made hmade (hp.stored o ho)
    · exact separate_of_made hp.made (hrecs.symm ▸ hasc)
    · have hnum := hw.numbered.ids
      rw [hlen, hids] at hnum
      exact hnum
    · show (s.job.newTables = [] ∧ (if s.job.nextOutputTableId ≠
        next then some s.job.nextOutputTableId else none) = none) ∨
        (s.job.newTables ≠ [] ∧ ∃ n, (if s.job.nextOutputTableId ≠
          next then some s.job.nextOutputTableId else none) =
          some n ∧ n.toNat = next.toNat + s.job.newTables.length)
      by_cases hnil : s.job.newTables = []
      · rw [hnil, List.length_nil] at hnext
        have heq : s.job.nextOutputTableId = next := UInt64.toNat_inj.mp (by omega)
        exact .inl ⟨hnil, if_neg (not_not.mpr heq)⟩
      · have hpos := List.length_pos_iff.mpr hnil
        have hne : s.job.nextOutputTableId ≠ next := by
          intro heq
          rw [heq] at hnext
          omega
        exact .inr ⟨hnil, s.job.nextOutputTableId, if_pos hne, hnext⟩
  · split at h
    · cases h
    · cases h
  · cases h

end StreamingJob

/-! ## An example -/

/-- A table on L1 with an older version of the record on L0. -/
def olderTable : TableMeta := { oneTable with tableId := 2, level := 1 }

def twoTableStore : TableStore where
  files id := if id = 1 then some [onePut 97 2] else if id = 2 then some [onePut 97 1] else none
  faults := []

def twoTablePlan : CompactionPlan where
  sourceLevel := 0
  targetLevel := 1
  sourceTables := [oneTable]
  overlappingTables := [olderTable]
  smallestKey := .ofByte 97
  largestKey := .ofByte 97

theorem run_output_twoTables : ∃ edit store' reads', @StreamingJob.run sortedHeap countingFormat documentedZlib
    twoTablePlan
    ⟨[[oneTable], [olderTable]]⟩ 3 (twoTableStore, []) = (.ok (some edit), (store', reads')) ∧
      JobOutput twoTablePlan ⟨[[oneTable], [olderTable]]⟩ 3 twoTableStore.files store'.files edit := by
  have hrun : (@StreamingJob.run sortedHeap countingFormat documentedZlib twoTablePlan
      ⟨[[oneTable], [olderTable]]⟩ 3
      (twoTableStore, [])).1 =
      .ok (some
        { nextTableId := some 4
          deletedTables := [⟨0, 1⟩, ⟨1, 2⟩]
          newTables := [{ oneTable with tableId := 3, level := 1, minSeq := 2, maxSeq := 2 }] }) := by
    decide +kernel
  have hsame : ∀ x ∈ twoTablePlan.inputRecords twoTableStore.files,
      ∀ y ∈ twoTablePlan.inputRecords twoTableStore.files,
      x.key = y.key → x.seqNum = y.seqNum → x = y := by decide
  have hout := @StreamingJob.run_output documentedZlib sortedHeap sortedHeap_lawful countingFormat _ _ _ _ _ _ _ _ hsame
    (run_eq hrun)
  exact ⟨_, _, _, run_eq hrun, hout.1⟩

end Kvdb
