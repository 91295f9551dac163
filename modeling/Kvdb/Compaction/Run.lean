import Kvdb.Compaction.Job
import Kvdb.Lib.Hoare
import Kvdb.Lib.Pointwise

/-!
# What a run of the job does

`Progress` is the invariant of the merge loop: the outputs finished so far and
the one in progress have, in order, the records kept so far, their ids go up from
`next_table_id`, and no file below it has changed.  The loop keeps it
(`mergeLoop_progress`), whatever fails, so a run that returns an edit is described
by `Compacted` (`run_compacted`) and one that does not has left the installed
tables alone (`run_frame`).
-/

namespace Kvdb

open Faulty Recency

/-- No file with a smaller id is another one. -/
def FilesBelow (n : Nat) (f g : UInt32 → Option (List InternalRecord)) : Prop := ∀ id, id.toNat < n → g id = f id

theorem FilesBelow.refl (n : Nat) (f : UInt32 → Option (List InternalRecord)) : FilesBelow n f f := fun _ _ => rfl

theorem FilesBelow.trans {n : Nat} {f g h : UInt32 → Option (List InternalRecord)} (h1 : FilesBelow n f g)
    (h2 : FilesBelow n g h) : FilesBelow n f h :=
  fun id hid => (h2 id hid).trans (h1 id hid)

theorem filesBelow_setFile {n : Nat} (s : TableStore) {id : UInt32} (hid : n ≤ id.toNat)
    (records : Option (List InternalRecord)) : FilesBelow n s.files (s.setFile id records).files := by
  intro x hx
  refine Function.update_of_ne (fun heq => ?_) _ _
  subst heq
  omega

/-! ## The newest records -/

/-- The newest records of a sorted list, behind the current key. -/
structure NewestOf (l N : List InternalRecord) : Prop where
  mem : ∀ r ∈ N, r ∈ l
  ascending : N.Pairwise fun a b => a.key < b.key
  newest : ∀ r ∈ N, ∀ x ∈ l, x.key = r.key → x.seqNum.toNat ≤ r.seqNum.toNat

/-- A record that starts a new key, in front of what is kept of the records behind it. -/
theorem NewestOf.cons {y : InternalRecord} {ys N : List InternalRecord}
    (hl : KWay.Sorted internalBefore (y :: ys)) (hN : NewestOf ys N) (hgt : ∀ r ∈ N, y.key < r.key)
    (hcov : ∀ x ∈ ys, x.key = y.key ∨ ∃ r ∈ N, r.key = x.key) :
    NewestOf (y :: ys) (y :: N) ∧ ∀ x ∈ y :: ys, ∃ r ∈ y :: N, r.key = x.key := by
  obtain ⟨hy, -⟩ := List.pairwise_cons.mp hl
  refine ⟨⟨?_, List.pairwise_cons.mpr ⟨hgt, hN.ascending⟩, ?_⟩, ?_⟩
  · intro r hr
    rcases List.mem_cons.mp hr with rfl | hr
    · exact List.mem_cons_self
    · exact List.mem_cons_of_mem y (hN.mem r hr)
  · intro r hr x hx hxr
    rcases List.mem_cons.mp hr with hry | hrN
    · rw [hry] at hxr ⊢
      rcases List.mem_cons.mp hx with hxy | hx
      · rw [hxy]
      · rcases internalBefore_eq_false_iff.mp (hy x hx) with h | ⟨-, h⟩
        · exact absurd hxr h.ne'
        · exact h
    · rcases List.mem_cons.mp hx with hxy | hx
      · rw [hxy] at hxr
        exact absurd hxr (hgt r hrN).ne
      · exact hN.newest r hrN x hx hxr
  · intro x hx
    rcases List.mem_cons.mp hx with rfl | hx
    · exact ⟨x, by simp, rfl⟩
    · rcases hcov x hx with heq | ⟨r, hr, heq⟩
      · exact ⟨y, by simp, heq.symm⟩
      · exact ⟨r, by simp [hr], heq⟩

/-- In a sorted list no key behind the first record is smaller. -/
theorem sorted_key_le {y : InternalRecord} {ys : List InternalRecord}
    (hl : KWay.Sorted internalBefore (y :: ys)) : ∀ x ∈ ys, y.key ≤ x.key := by
  intro x hx
  rcases internalBefore_eq_false_iff.mp ((List.pairwise_cons.mp hl).1 x hx) with h | ⟨h, -⟩
  · exact h.le
  · exact h.ge

theorem newestRecords_some {l : List InternalRecord} (hl : KWay.Sorted internalBefore l) {k : ArenaEntry}
    (hk : ∀ x ∈ l, k ≤ x.key) :
    NewestOf l (newestRecords (some k) l) ∧ (∀ r ∈ newestRecords (some k) l, k < r.key) ∧
      ∀ x ∈ l, x.key = k ∨ ∃ r ∈ newestRecords (some k) l, r.key = x.key := by
  induction l generalizing k with
  | nil =>
    refine ⟨⟨?_, List.Pairwise.nil, ?_⟩, ?_, by simp⟩
    · simp [newestRecords]
    · simp [newestRecords]
    · simp [newestRecords]
  | cons y ys ih =>
    obtain ⟨-, hys⟩ := List.pairwise_cons.mp hl
    rw [newestRecords]
    by_cases hky : k = y.key
    · -- an older version of the current key: it is passed over
      subst hky
      rw [if_pos rfl]
      obtain ⟨hN, hgt, hcov⟩ := ih hys fun x hx => hk x (by simp [hx])
      refine ⟨⟨fun r hr => List.mem_cons_of_mem y (hN.mem r hr), hN.ascending, ?_⟩, hgt, ?_⟩
      · intro r hr x hx hxr
        rcases List.mem_cons.mp hx with rfl | hx
        · exact absurd hxr (hgt r hr).ne
        · exact hN.newest r hr x hx hxr
      · intro x hx
        rcases List.mem_cons.mp hx with rfl | hx
        · exact .inl rfl
        · exact hcov x hx
    · rw [if_neg (by simpa using hky)]
      have hlt : k < y.key := lt_of_le_of_ne (hk y (by simp)) hky
      obtain ⟨hN, hgt, hcov⟩ := ih hys (sorted_key_le hl)
      obtain ⟨hN', hcov'⟩ := hN.cons hl hgt hcov
      refine ⟨hN', ?_, fun x hx => .inr (hcov' x hx)⟩
      intro r hr
      rcases List.mem_cons.mp hr with rfl | hr
      · exact hlt
      · exact hlt.trans (hgt r hr)

theorem newestRecords_none {l : List InternalRecord} (hl : KWay.Sorted internalBefore l) :
    NewestOf l (newestRecords none l) ∧ ∀ x ∈ l, ∃ r ∈ newestRecords none l, r.key = x.key := by
  cases l with
  | nil =>
    refine ⟨⟨?_, List.Pairwise.nil, ?_⟩, by simp⟩
    · simp [newestRecords]
    · simp [newestRecords]
  | cons y ys =>
    have hfirst : newestRecords none (y :: ys) = y :: newestRecords (some y.key) ys := by
      rw [newestRecords, if_neg (by simp)]
    obtain ⟨hN, hgt, hcov⟩ := newestRecords_some (List.pairwise_cons.mp hl).2 (sorted_key_le hl)
    rw [hfirst]
    exact hN.cons hl hgt hcov

/-! ## Inputs -/

namespace CompactionJob

theorem addInputTable_ends (table : TableMeta) (level : UInt32) (s : JobState) :
    Ends (fun rs s' => s' = { s with deletedTables := s.deletedTables ++ [⟨level, table.tableId⟩] } ∧
        s.store.files table.tableId.toUInt32 = some rs)
      (fun s' => s'.store = s.store ∧ s'.newTables = s.newTables) (fun _ => False)
      (addInputTable table level s) := by
  refine ends_guard (fun _ => ⟨rfl, rfl⟩) fun _ => ends_get ?_
  refine ends_lift_bind (fun _ _ => ⟨rfl, rfl⟩) fun rs hrs => ends_modify_bind (ends_pure ⟨rfl, ?_⟩)
  unfold TableStore.openTable at hrs
  split at hrs
  · next hfile =>
    cases hrs
    exact hfile
  · cases hrs

/-- The inputs of one level: their records, and a deleted-table entry for each. -/
theorem addInputTables_ends (level : UInt32) (tables : List TableMeta) (s : JobState) :
    Ends (fun inputs s' =>
        s' = { s with deletedTables := s.deletedTables ++ tables.map fun t => ⟨level, t.tableId⟩ } ∧
        List.Forall₂ (fun t rs => s.store.files t.tableId.toUInt32 = some rs) tables inputs)
      (fun s' => s'.store = s.store ∧ s'.newTables = s.newTables) (fun _ => False)
      (addInputTables level tables s) := by
  induction tables generalizing s with
  | nil =>
    refine ends_pure ⟨?_, .nil⟩
    simp
  | cons t ts ih =>
    rw [addInputTables]
    refine (addInputTable_ends t level s).bind fun rs s₁ ⟨hs₁, hrs⟩ => ?_
    subst hs₁
    refine (ih _).bind fun rest s₂ ⟨hs₂, hrest⟩ => ends_pure ⟨?_, .cons hrs hrest⟩
    rw [hs₂]
    simp

end CompactionJob

/-! ## Table files -/

theorem setFile_ends (id : UInt32) (records : Option (List InternalRecord)) (s : TableStore) :
    Ends (fun _ s' => s'.files = Function.update s.files id records)
      (fun s' => s'.files = s.files ∨ s'.files = Function.update s.files id records)
      (fun s' => s'.files = s.files ∨ s'.files = Function.update s.files id records)
      (TableStore.fileOp (fun s => s.setFile id records) s) := by
  unfold TableStore.fileOp
  split
  · exact rfl
  · exact rfl
  · split
    · exact .inl rfl
    · exact .inr rfl
  · split
    · exact .inl rfl
    · exact .inr rfl

theorem ends_onStore {α : Type} {m : Prog TableStore Status α} {s : JobState} {Q : α → TableStore → Prop}
    {E C : TableStore → Prop} (h : Ends Q E C (m s.store)) :
    Ends (fun a s' => ∃ store, Q a store ∧ s' = { s with store })
      (fun s' => ∃ store, E store ∧ s' = { s with store })
      (fun s' => ∃ store, C store ∧ s' = { s with store }) (CompactionJob.onStore m s) := by
  unfold CompactionJob.onStore
  match hr : m s.store, h with
  | (.ok a, store), h => exact ⟨store, h, rfl⟩
  | (.err e, store), h => exact ⟨store, h, rfl⟩
  | (.crash, store), h => exact ⟨store, h, rfl⟩

/-! ## Outputs -/

/-- An output of the job: its id and its records. -/
abbrev Output := UInt32 × List InternalRecord

/-- The metadata of an output. -/
structure Made (target : UInt32) (o : Output) (t : TableMeta) : Prop where
  id : t.tableId = o.1.toUInt64
  level : t.level = target
  bounds : ∃ s, summarize o.2 = some s ∧ t.smallestKey = s.minKey ∧ t.largestKey = s.maxKey

theorem Made.id32 {target : UInt32} {o : Output} {t : TableMeta} (h : Made target o t) :
    t.tableId.toUInt32 = o.1 := by
  rw [h.id]
  exact UInt32.toUInt32_toUInt64 o.1

theorem Made.id_toNat {target : UInt32} {o : Output} {t : TableMeta} (h : Made target o t) :
    t.tableId.toNat = o.1.toNat := by
  rw [h.id]
  exact UInt32.toNat_toUInt64 o.1

/-- The state of a job that started with these files: `outs` are finished, and `done` is what the
outputs have received. -/
structure Progress (target : UInt32) (next : UInt64) (files : UInt32 → Option (List InternalRecord))
    (deleted : List DeletedTable) (outs : List Output) (done : List InternalRecord) (s : JobState) : Prop where
  deletedTables : s.deletedTables = deleted
  made : List.Forall₂ (Made target) outs s.newTables
  stored : ∀ o ∈ outs, s.store.files o.1 = some o.2
  below : FilesBelow next.toNat files s.store.files
  ascending : (outs ++ s.builder.toList).Pairwise fun a b => a.1.toNat < b.1.toNat
  ids : ∀ o ∈ outs ++ s.builder.toList, next.toNat ≤ o.1.toNat ∧ o.1.toNat < s.nextOutputTableId.toNat
  next_le : next.toNat ≤ s.nextOutputTableId.toNat
  next_bound : s.nextOutputTableId = next ∨ s.nextOutputTableId.toNat ≤ 2 ^ 32
  records : (outs ++ s.builder.toList).flatMap Prod.snd = done

/-- What a job leaves behind that does not finish. -/
structure Frame (next : UInt64) (files : UInt32 → Option (List InternalRecord)) (s : JobState) : Prop where
  below : FilesBelow next.toNat files s.store.files
  fresh : ∀ t ∈ s.newTables, next.toNat ≤ t.tableId.toUInt32.toNat

section

variable {target : UInt32} {next : UInt64} {files : UInt32 → Option (List InternalRecord)}
  {deleted : List DeletedTable} {outs : List Output} {done : List InternalRecord} {s : JobState}

theorem Progress.frame (h : Progress target next files deleted outs done s) : Frame next files s := by
  refine ⟨h.below, fun t ht => ?_⟩
  obtain ⟨o, ho, hmade⟩ := forall₂_right h.made t ht
  rw [hmade.id32]
  exact (h.ids o (List.mem_append.mpr (.inl ho))).1

namespace CompactionJob

theorem startNewOutput_progress (h : Progress target next files deleted outs done s) :
    Ends (fun _ s' => Progress target next files deleted outs done s' ∧ s'.builder.isSome = true)
      (Frame next files) (Frame next files) (startNewOutput s) := by
  unfold startNewOutput
  refine ends_get ?_
  cases hb : s.builder with
  | some b => exact ends_pure ⟨h, by rw [hb]; rfl⟩
  | none =>
    refine ends_guard (fun _ => h.frame) fun hle => ends_modify ?_
    have hlt : s.nextOutputTableId.toNat < 2 ^ 32 := by
      have := of_decide_eq_true hle
      omega
    have hid : s.nextOutputTableId.toUInt32.toNat = s.nextOutputTableId.toNat := by
      rw [UInt64.toNat_toUInt32]
      exact Nat.mod_eq_of_lt hlt
    have hnext : (s.nextOutputTableId + 1).toNat = s.nextOutputTableId.toNat + 1 := by
      rw [UInt64.toNat_add, UInt64.toNat_one]
      omega
    have hasc := h.ascending
    have hids := h.ids
    have hrecs := h.records
    rw [hb, Option.toList_none, List.append_nil] at hasc hids hrecs
    have hnl := h.next_le
    refine ⟨⟨h.deletedTables, h.made, h.stored, h.below, ?_, ?_, ?_, ?_, ?_⟩, rfl⟩
    · refine List.pairwise_append.mpr ⟨hasc, List.pairwise_singleton _ _, fun a ha b hb => ?_⟩
      rw [List.mem_singleton.mp hb]
      show a.1.toNat < s.nextOutputTableId.toUInt32.toNat
      rw [hid]
      exact (hids a ha).2
    · intro o ho
      show next.toNat ≤ o.1.toNat ∧ o.1.toNat < (s.nextOutputTableId + 1).toNat
      rw [hnext]
      rcases List.mem_append.mp ho with ho | ho
      · have := hids o ho
        omega
      · rw [List.mem_singleton.mp ho]
        show next.toNat ≤ s.nextOutputTableId.toUInt32.toNat ∧ _
        rw [hid]
        omega
    · show next.toNat ≤ (s.nextOutputTableId + 1).toNat
      omega
    · refine .inr ?_
      show (s.nextOutputTableId + 1).toNat ≤ 2 ^ 32
      omega
    · show (outs ++ [(s.nextOutputTableId.toUInt32, [])]).flatMap Prod.snd = done
      rw [List.flatMap_append, hrecs]
      simp

variable [TableFormat]

theorem add_progress (h : Progress target next files deleted outs done s) (hb : s.builder.isSome = true)
    (r : InternalRecord) :
    Ends (fun _ => Progress target next files deleted outs (done ++ [r])) (Frame next files) (Frame next files)
      (add r s) := by
  unfold add
  refine ends_get ?_
  obtain ⟨⟨id, records⟩, hsome⟩ := Option.isSome_iff_exists.mp hb
  rw [hsome]
  refine ends_guard (fun _ => h.frame) fun _ => ends_lift_bind (fun _ _ => h.frame) fun _ _ => ends_modify ?_
  have hasc := h.ascending
  have hids := h.ids
  have hrecs := h.records
  rw [hsome] at hasc hids hrecs
  refine ⟨h.deletedTables, h.made, h.stored, h.below, ?_, ?_, h.next_le, h.next_bound, ?_⟩
  · obtain ⟨h1, -, h3⟩ := List.pairwise_append.mp hasc
    refine List.pairwise_append.mpr ⟨h1, List.pairwise_singleton _ _, fun a ha b hb => ?_⟩
    rw [List.mem_singleton.mp hb]
    exact h3 a ha (id, records) (List.mem_singleton_self _)
  · intro o ho
    rcases List.mem_append.mp ho with ho | ho
    · exact hids o (List.mem_append.mpr (.inl ho))
    · rw [List.mem_singleton.mp ho]
      exact hids (id, records) (List.mem_append.mpr (.inr (List.mem_singleton_self _)))
  · rw [← hrecs]
    simp [List.flatMap_append]

theorem finishCurrentOutput_progress (h : Progress target next files deleted outs done s) :
    Ends (fun _ s' => ∃ outs', Progress target next files deleted outs' done s' ∧ s'.builder = none)
      (Frame next files) (Frame next files) (finishCurrentOutput target s) := by
  unfold finishCurrentOutput
  refine ends_get ?_
  cases hb : s.builder with
  | none => exact ends_pure ⟨outs, h, hb⟩
  | some b =>
    obtain ⟨id, records⟩ := b
    have hasc := h.ascending
    have hids := h.ids
    have hrecs := h.records
    rw [hb] at hasc hids hrecs
    have hid : next.toNat ≤ id.toNat ∧ id.toNat < s.nextOutputTableId.toNat :=
      hids (id, records) (List.mem_append.mpr (.inr (List.mem_singleton_self _)))
    simp only
    cases hsum : summarize records with
    | none =>
      -- nothing was added: the builder is dropped
      have hnil : records = [] := by
        cases records with
        | nil => rfl
        | cons r rs => cases hsum
      subst hnil
      refine ends_modify ⟨outs, ⟨h.deletedTables, h.made, h.stored, h.below, ?_, ?_, h.next_le, h.next_bound,
        ?_⟩, rfl⟩
      · rw [Option.toList_none, List.append_nil]
        exact (List.pairwise_append.mp hasc).1
      · intro o ho
        rw [Option.toList_none, List.append_nil] at ho
        exact hids o (List.mem_append.mpr (.inl ho))
      · rw [← hrecs]
        simp [List.flatMap_append]
    | some summary =>
      have hset : ∀ f, FilesBelow next.toNat f (Function.update f id (some records)) := by
        intro f x hx
        refine Function.update_of_ne (fun heq => ?_) _ _
        subst heq
        omega
      have hframe : ∀ store : TableStore, (store.files = s.store.files ∨
          store.files = Function.update s.store.files id (some records)) → Frame next files { s with store } := by
        rintro store (heq | heq)
        · refine ⟨?_, h.frame.fresh⟩
          show FilesBelow next.toNat files store.files
          rw [heq]
          exact h.below
        · refine ⟨?_, h.frame.fresh⟩
          show FilesBelow next.toNat files store.files
          rw [heq]
          exact h.below.trans (hset _)
      have hwrite : Ends (fun _ store => store.files = Function.update s.store.files id (some records))
          (fun store => store.files = s.store.files ∨
            store.files = Function.update s.store.files id (some records))
          (fun store => store.files = s.store.files ∨
            store.files = Function.update s.store.files id (some records)) (TableStore.write id records s.store) := by
        refine ends_lift_bind (fun _ _ => .inl rfl) fun layout _ => ?_
        exact (setFile_ends id (some records) s.store).bind fun _ _ h => ends_pure h
      refine ((ends_onStore hwrite).mono (fun _ _ h => h) ?_ ?_).bind fun layout s₁ hs₁ => ?_
      · rintro s₁ ⟨store, hstore, rfl⟩
        exact hframe store hstore
      · rintro s₁ ⟨store, hstore, rfl⟩
        exact hframe store hstore
      · obtain ⟨store, hstore, rfl⟩ := hs₁
        refine ends_lift_bind (fun _ _ => hframe store (.inr hstore)) fun table htable => ends_modify ?_
        obtain ⟨htid, htl, hmin, hmax⟩ := makeTableMeta_ok htable
        refine ⟨outs ++ [(id, records)], ⟨h.deletedTables, ?_, ?_, ?_, ?_, ?_, h.next_le, h.next_bound, ?_⟩,
          rfl⟩
        · refine List.rel_append h.made (.cons ⟨htid, htl, summary, hsum, hmin, hmax⟩ .nil)
        · intro o ho
          show store.files o.1 = some o.2
          rw [hstore]
          rcases List.mem_append.mp ho with ho | ho
          · have hlt := (List.pairwise_append.mp hasc).2.2 o ho (id, records) (List.mem_singleton_self _)
            rw [Function.update_of_ne]
            · exact h.stored o ho
            · intro heq
              rw [heq] at hlt
              exact Nat.lt_irrefl _ hlt
          · rw [List.mem_singleton.mp ho]
            exact Function.update_self _ _ _
        · show FilesBelow next.toNat files store.files
          rw [hstore]
          exact h.below.trans (hset _)
        · rw [Option.toList_none, List.append_nil]
          exact hasc
        · rw [Option.toList_none, List.append_nil]
          exact hids
        · rw [Option.toList_none, List.append_nil]
          exact hrecs

/-- What the job keeps of the newest records. -/
def kept (bottommost : Bool) (rs : List InternalRecord) : List InternalRecord :=
  rs.filter fun r => compactionKeepNewestRecord r.type bottommost

theorem addNewest_progress (bottommost : Bool) (r : InternalRecord)
    (h : Progress target next files deleted outs done s) :
    Ends (fun _ => Progress target next files deleted outs (done ++ kept bottommost [r])) (Frame next files)
      (Frame next files) (addNewest bottommost r s) := by
  unfold addNewest
  by_cases hk : compactionKeepNewestRecord r.type bottommost = true
  · have heq : kept bottommost [r] = [r] := by simp [kept, hk]
    rw [if_pos hk, heq]
    exact (startNewOutput_progress h).bind fun _ s₁ ⟨h₁, hb⟩ => add_progress h₁ hb r
  · have heq : kept bottommost [r] = [] := by simp [kept, hk]
    rw [if_neg hk, heq, List.append_nil]
    exact ends_pure h

theorem mergeRound_progress {plan : CompactionPlan} (bottommost : Bool) (r : InternalRecord)
    (h : Progress plan.targetLevel next files deleted outs done s) :
    Ends (fun _ s' => ∃ outs', Progress plan.targetLevel next files deleted outs' (done ++ kept bottommost [r]) s')
      (Frame next files) (Frame next files) (mergeRound plan bottommost r s) := by
  refine (addNewest_progress bottommost r h).bind fun _ s₁ h₁ => ends_get ?_
  split
  · exact (finishCurrentOutput_progress h₁).imp fun _ _ ⟨outs', h', _⟩ => ⟨outs', h'⟩
  · exact ends_pure ⟨outs, h₁⟩

/-- The merge loop hands the kept records to the outputs, in order. -/
theorem mergeLoop_progress {plan : CompactionPlan} (bottommost : Bool) (rs : List InternalRecord)
    (h : Progress plan.targetLevel next files deleted outs done s) :
    Ends (fun _ s' => ∃ outs', Progress plan.targetLevel next files deleted outs' (done ++ kept bottommost rs) s')
      (Frame next files) (Frame next files) (mergeLoop plan bottommost rs s) := by
  induction rs generalizing outs done s with
  | nil =>
    refine ends_pure ⟨outs, ?_⟩
    rw [kept, List.filter_nil, List.append_nil]
    exact h
  | cons r rs ih =>
    rw [mergeLoop]
    refine (mergeRound_progress bottommost r h).bind fun _ s₁ ⟨outs₁, h₁⟩ => ?_
    have hsplit : done ++ kept bottommost (r :: rs) = done ++ kept bottommost [r] ++ kept bottommost rs := by
      rw [List.append_assoc, kept, kept, kept, ← List.filter_append]
      rfl
    rw [hsplit]
    exact ih h₁

end CompactionJob

end

/-! ## Runs -/

/-- The entries that delete the inputs of a plan. -/
def CompactionPlan.deletedTables (p : CompactionPlan) : List DeletedTable :=
  p.sourceTables.map (fun t => ⟨p.sourceLevel, t.tableId⟩) ++
    p.overlappingTables.map fun t => ⟨p.targetLevel, t.tableId⟩

/-- The tables a plan compacts. -/
def CompactionPlan.inputs (p : CompactionPlan) : List TableMeta := p.sourceTables ++ p.overlappingTables

/-- What the job writes for these inputs. -/
def compactedRecords (p : CompactionPlan) (lm : LevelManager) (inputs : List (List InternalRecord)) :
    List InternalRecord :=
  CompactionJob.kept (isBottommostDestination lm p.targetLevel)
    (newestRecords none (KWay.mergeAll internalBefore inputs))

/-- A run that returned an edit: it read `inputs` and wrote `outs`, and `next'` is the next free id. -/
structure Compacted (p : CompactionPlan) (lm : LevelManager) (next next' : UInt64)
    (files files' : UInt32 → Option (List InternalRecord)) (inputs : List (List InternalRecord))
    (outs : List Output) (edit : VersionEdit) : Prop where
  read : List.Forall₂ (fun t rs => files t.tableId.toUInt32 = some rs) p.inputs inputs
  records : outs.flatMap Prod.snd = compactedRecords p lm inputs
  stored : ∀ o ∈ outs, files' o.1 = some o.2
  below : FilesBelow next.toNat files files'
  ascending : outs.Pairwise fun a b => a.1.toNat < b.1.toNat
  ids : ∀ o ∈ outs, next.toNat ≤ o.1.toNat ∧ o.1.toNat < next'.toNat
  next_le : next.toNat ≤ next'.toNat
  next_bound : next' = next ∨ next'.toNat ≤ 2 ^ 32
  made : List.Forall₂ (Made p.targetLevel) outs edit.newTables
  deleted : edit.deletedTables = p.deletedTables
  nextTableId : edit.nextTableId = if next' ≠ next then some next' else none
  nextSequenceNumber : edit.nextSequenceNumber = none
  currentWalId : edit.currentWalId = none

section

variable [TableFormat]

theorem merge_ends (p : CompactionPlan) (lm : LevelManager) (next : UInt64) (store : TableStore) :
    Ends (fun _ s => ∃ inputs outs,
        List.Forall₂ (fun t rs => store.files t.tableId.toUInt32 = some rs) p.inputs inputs ∧
        Progress p.targetLevel next store.files p.deletedTables outs (compactedRecords p lm inputs) s ∧
        s.builder = none)
      (Frame next store.files) (Frame next store.files)
      (CompactionJob.merge p lm { store, nextOutputTableId := next }) := by
  have hstart : ∀ s' : JobState, s'.store = store ∧ s'.newTables = [] → Frame next store.files s' := by
    rintro s' ⟨h1, h2⟩
    refine ⟨h1 ▸ FilesBelow.refl _ _, fun t ht => ?_⟩
    rw [h2] at ht
    cases ht
  unfold CompactionJob.merge
  refine ((CompactionJob.addInputTables_ends _ _ _).mono (fun _ _ h => h) hstart fun _ h => h.elim).bind ?_
  rintro sources s₁ ⟨hs₁, hsources⟩
  subst hs₁
  refine ((CompactionJob.addInputTables_ends _ _ _).mono (fun _ _ h => h) hstart fun _ h => h.elim).bind ?_
  rintro targets s₂ ⟨hs₂, htargets⟩
  subst hs₂
  have hread : List.Forall₂ (fun t rs => store.files t.tableId.toUInt32 = some rs) p.inputs (sources ++ targets) :=
    List.rel_append hsources htargets
  have hinit : Progress p.targetLevel next store.files p.deletedTables [] []
      { store, nextOutputTableId := next, deletedTables := p.deletedTables } :=
    ⟨rfl, .nil, by simp, FilesBelow.refl _ _, List.Pairwise.nil, by simp, Nat.le_refl _, .inl rfl, rfl⟩
  refine (CompactionJob.mergeLoop_progress _ _ hinit).bind fun _ s₃ ⟨outs, h₃⟩ => ?_
  rw [List.nil_append] at h₃
  refine (CompactionJob.finishCurrentOutput_progress h₃).imp fun _ s₄ ⟨outs', h₄, hb⟩ => ?_
  exact ⟨sources ++ targets, outs', hread, h₄, hb⟩

theorem run_compacted {p : CompactionPlan} {lm : LevelManager} {next : UInt64} {store store' : TableStore}
    {edit : VersionEdit} (h : CompactionJob.run p lm next store = (.ok (some edit), store')) :
    ∃ inputs outs next', Compacted p lm next next' store.files store'.files inputs outs edit := by
  unfold CompactionJob.run at h
  split at h
  · cases h
  split at h
  · cases h
  have hends := merge_ends p lm next store
  split at h
  · next u s hm =>
    obtain ⟨inputs, outs, hread, hp, hb⟩ := hends.ok hm
    have hasc := hp.ascending
    have hids := hp.ids
    have hrecs := hp.records
    rw [hb, Option.toList_none, List.append_nil] at hasc hids hrecs
    split at h
    · cases h
    · cases h
      exact ⟨inputs, outs, s.nextOutputTableId,
        { read := hread
          records := hrecs
          stored := hp.stored
          below := hp.below
          ascending := hasc
          ids := hids
          next_le := hp.next_le
          next_bound := hp.next_bound
          made := hp.made
          deleted := hp.deletedTables
          nextTableId := rfl
          nextSequenceNumber := rfl
          currentWalId := rfl }⟩
  · split at h
    · cases h
    · cases h
  · cases h

omit [TableFormat] in
theorem cleanup_below {n : Nat} {ts : List TableMeta} (hts : ∀ t ∈ ts, n ≤ t.tableId.toUInt32.toNat)
    (store : TableStore) :
    FilesBelow n store.files (CompactionJob.cleanupFinishedOutputs ts store).2.files := by
  have hends : Ends (fun _ s => FilesBelow n store.files s.files) (fun s => FilesBelow n store.files s.files)
      (fun s => FilesBelow n store.files s.files) (CompactionJob.cleanupFinishedOutputs ts store) := by
    induction ts generalizing store with
    | nil => exact ends_pure (FilesBelow.refl _ _)
    | cons t ts ih =>
      have hset : FilesBelow n store.files (Function.update store.files t.tableId.toUInt32 none) :=
        filesBelow_setFile store (hts t (by simp)) none
      have hor : ∀ s : TableStore, s.files = store.files ∨
          s.files = Function.update store.files t.tableId.toUInt32 none → FilesBelow n store.files s.files := by
        rintro s (heq | heq)
        · rw [heq]
          exact FilesBelow.refl _ _
        · rw [heq]
          exact hset
      have hone : Ends (fun _ s => FilesBelow n store.files s.files) (fun s => FilesBelow n store.files s.files)
          (fun s => FilesBelow n store.files s.files) (TableStore.remove t.tableId.toUInt32 store) :=
        (setFile_ends _ _ _).mono (fun _ s h => hor s (.inr h)) hor hor
      refine (Ends.ignore hone).bind fun _ s₁ h₁ => ?_
      have hrest := ih (fun t ht => hts t (by simp [ht])) s₁
      exact hrest.mono (fun _ _ h => h₁.trans h) (fun _ h => h₁.trans h) fun _ h => h₁.trans h
  exact hends.state

/-- Whatever happens in a run, the installed tables stay as they are. -/
theorem run_frame (p : CompactionPlan) (lm : LevelManager) (next : UInt64) (store : TableStore) :
    FilesBelow next.toNat store.files (CompactionJob.run p lm next store).2.files := by
  unfold CompactionJob.run
  split
  · exact FilesBelow.refl _ _
  split
  · exact FilesBelow.refl _ _
  have hends := merge_ends p lm next store
  split
  · next u s hm =>
    obtain ⟨_, _, -, hp, -⟩ := hends.ok hm
    exact hp.below
  · next e s hm =>
    have hf := hends.err hm
    have hclean := hf.below.trans (cleanup_below hf.fresh s.store)
    split
    · next store₁ hc =>
      rw [hc] at hclean
      exact hclean
    · next r store₁ _ hc =>
      rw [hc] at hclean
      exact hclean
  · next s hm => exact (hends.crash hm).below

end

end Kvdb
