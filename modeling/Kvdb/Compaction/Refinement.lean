import Kvdb.Compaction.Output
import Kvdb.SSTable.Traversal

/-!
# The job over lists and the job over iterators

`CompactionJob.run` reads each input as the list of its records, and merges the lists.
`StreamingJob.run` is closer to the source: its inputs are iterators over blocks, and the
merge is a heap of them.  While no block fails to load the two end in the same way and
leave the same files (`run_refines`): a round of the loop over the iterators is a round of
the loop over the merged records (`mergeLoop_follows`).

Below that, `TableIterator` shows the records that `SSTableIterator` shows of the bytes of
a table (`iterators_agree`).
-/

namespace Kvdb

open Faulty Heap DataSection

/-! ## No load fails -/

theorem QuietReads.eq_nil {reads : Reads} (h : QuietReads [] reads) : reads = [] := by
  obtain ⟨used, heq, -⟩ := h
  exact (List.append_eq_nil_iff.mp heq.symm).2

theorem not_failedLoad {reads : Reads} {e : Status} : ¬ FailedLoad False [] e reads := by
  rintro (⟨used, heq, -⟩ | ⟨h, -⟩)
  · cases (List.append_eq_nil_iff.mp heq.symm).2
  · exact h

namespace StreamingJob

/-! ## Following the other job -/

section

variable {α α' β β' : Type}

/-- Both programs end alike and with the same variables of the job, and `Q` holds of a result. -/
inductive Follows (Q : β → State → Prop) : Outcome Status α × State → Outcome Status β × JobState → Prop
  | ok {a : α} {b : β} {s : State} (hreads : s.merge.reads = []) (h : Q b s) : Follows Q (.ok a, s) (.ok b, s.job)
  | err {e : Status} {s : State} (hreads : s.merge.reads = []) : Follows Q (.err e, s) (.err e, s.job)
  | crash {s : State} (hreads : s.merge.reads = []) : Follows Q (.crash, s) (.crash, s.job)

variable {Q : β → State → Prop} {Q' : β' → State → Prop} {s : State} {j : JobState}

theorem Follows.bind {m : StreamM α} {c : JobM β} {k : α → StreamM α'} {d : β → JobM β'}
    (h : Follows Q (m s) (c j))
    (hk : ∀ a b s', s'.merge.reads = [] → Q b s' → Follows Q' (k a s') (d b s'.job)) :
    Follows Q' ((m >>= k) s) ((c >>= d) j) := by
  rw [bind_apply, bind_apply]
  generalize m s = r at h
  generalize c j = r' at h
  cases h with
  | ok hreads h => exact hk _ _ _ hreads h
  | err hreads => exact .err hreads
  | crash hreads => exact .crash hreads

/-- The result of the job is renamed at the end. -/
theorem Follows.result {m : StreamM α} {c : JobM β} {f : β → β'} (h : Follows Q (m s) (c j))
    (hQ : ∀ b s', Q b s' → Q' (f b) s') : Follows Q' (m s) ((c >>= fun b => pure (f b)) j) := by
  rw [bind_apply]
  generalize m s = r at h
  generalize c j = r' at h
  cases h with
  | ok hreads h => exact .ok hreads (hQ _ _ h)
  | err hreads => exact .err hreads
  | crash hreads => exact .crash hreads

theorem Follows.weaken {r : Outcome Status α × State} {r' : Outcome Status β × JobState}
    {Q' : β → State → Prop}
    (h : Follows Q r r') (hQ : ∀ b s', Q b s' → Q' b s') : Follows Q' r r' := by
  cases h with
  | ok hreads h => exact .ok hreads (hQ _ _ h)
  | err hreads => exact .err hreads
  | crash hreads => exact .crash hreads

/-- A part of the job is the same in both. -/
theorem follows_onJob (c : JobM α) (hreads : s.merge.reads = []) :
    Follows (fun _ s' => s'.merge = s.merge) (onJob c s) (c s.job) := by
  unfold onJob
  generalize c s.job = r
  obtain ⟨o, job⟩ := r
  cases o with
  | ok a => exact Follows.ok (s := { s with job }) hreads rfl
  | err e => exact Follows.err (s := { s with job }) hreads
  | crash => exact Follows.crash (s := { s with job }) hreads

end

/-! ## Inputs -/

section

variable [Zlib] {s : State}

/-- The records of the table's file go into blocks. -/
def Packs (files : UInt32 → Option (List InternalRecord)) (t : TableMeta) : Prop :=
  ∀ rs, files t.tableId.toUInt32 = some rs → ∃ blocks, packRecords rs = .ok blocks

omit [Zlib] in
theorem seekInput_quiet (it : TableIterator) (hne : [] ∉ it.blocks) (hreads : s.merge.reads = []) :
    ∃ it', it'.blocks = it.blocks ∧
      seekInput it s =
        (.ok (), { s with merge := { s.merge with inputs := s.merge.inputs ++ [it'], reads := [] } }) := by
  have hmoves := TableIterator.seekToFirst_moves (E := False) (fun h => hne h) s.merge.reads
  have hblocks := seekToFirst_blocks it s.merge.reads
  unfold seekInput
  generalize it.seekToFirst s.merge.reads = moved at hmoves hblocks
  obtain ⟨it', reads⟩ := moved
  rw [hreads] at hmoves
  rcases hmoves with ⟨hst, hquiet⟩ | ⟨e, -, -, hfailed⟩
  · have hs : it'.status = none := hst.status
    have hnil : reads = [] := hquiet.eq_nil
    refine ⟨it', hblocks, ?_⟩
    dsimp only
    rw [hs, hnil]
  · exact absurd hfailed not_failedLoad

/-- An input is opened, or fails to be, in both. -/
theorem addInputTable_follows {t : TableMeta} (level : UInt32) (hreads : s.merge.reads = [])
    (hpacks : Packs s.job.store.files t) :
    Follows (fun rs s' => s'.job.store = s.job.store ∧ ∃ it, Opened s.job.store.files t it ∧ it.records = rs ∧
        s'.merge.inputs = s.merge.inputs ++ [it])
      (addInputTable t level s) (CompactionJob.addInputTable t level s.job) := by
  unfold addInputTable CompactionJob.addInputTable
  by_cases hid : t.tableId.toNat ≤ 2 ^ 32 - 1
  case neg =>
    rw [ensure_bind_false (decide_eq_false hid), ensure_bind_false (decide_eq_false hid)]
    exact .err hreads
  rw [ensure_bind_true (decide_eq_true hid), ensure_bind_true (decide_eq_true hid), bind_ok (get_apply s),
    bind_ok (get_apply s.job)]
  cases hopen : TableStore.openTable t.tableId.toUInt32 s.job.store.files with
  | error e =>
    have hnone : openInput t s.job.store = .error e := by
      unfold openInput
      rw [hopen]
      rfl
    rw [hnone]
    exact .err hreads
  | ok rs =>
    have hfile : s.job.store.files t.tableId.toUInt32 = some rs := by
      unfold TableStore.openTable at hopen
      split at hopen
      · next hfile =>
        cases hopen
        exact hfile
      · cases hopen
    obtain ⟨blocks, hpack⟩ := hpacks rs hfile
    obtain ⟨it, hit⟩ : ∃ it, openInput t s.job.store = .ok it := by
      unfold openInput
      rw [hopen, ok_bind, hpack]
      exact ⟨_, rfl⟩
    have hopened := openInput_ok hit
    obtain ⟨it', hblocks, hseek⟩ := seekInput_quiet it hopened.blocks hreads
    have hopened' := hopened.of_blocks hblocks
    rw [hit, bind_ok (lift_ok it s), bind_ok hseek, bind_ok (lift_ok rs s.job)]
    have hrecords : it'.records = rs := Option.some.inj (hopened'.file.symm.trans hfile)
    exact .ok rfl ⟨rfl, it', hopened', hrecords, rfl⟩

theorem addInputTables_follows (level : UInt32) {tables : List TableMeta} (hreads : s.merge.reads = [])
    (hpacks : ∀ t ∈ tables, Packs s.job.store.files t) :
    Follows (fun rss s' => s'.job.store = s.job.store ∧ ∃ its,
      List.Forall₂ (Opened s.job.store.files) tables its ∧
        its.map TableIterator.records = rss ∧ s'.merge.inputs = s.merge.inputs ++ its)
      (addInputTables level tables s) (CompactionJob.addInputTables level tables s.job) := by
  induction tables generalizing s with
  | nil => exact .ok hreads ⟨rfl, [], .nil, rfl, (List.append_nil _).symm⟩
  | cons t ts ih =>
    unfold addInputTables CompactionJob.addInputTables
    refine (addInputTable_follows level hreads (hpacks t List.mem_cons_self)).bind ?_
    rintro _ rs s₁ hreads₁ ⟨hstore, it, hit, hrecords, hinputs⟩
    have hpacks₁ : ∀ t' ∈ ts, Packs s₁.job.store.files t' := by
      intro t' ht'
      rw [hstore]
      exact hpacks t' (List.mem_cons_of_mem t ht')
    refine (ih hreads₁ hpacks₁).result ?_
    rintro rss s₂ ⟨hstore₂, its, hits, hrecords₂, hinputs₂⟩
    rw [hstore] at hstore₂ hits
    refine ⟨hstore₂, it :: its, .cons hit hits, ?_, ?_⟩
    · rw [List.map_cons, hrecords, hrecords₂]
    · rw [hinputs₂, hinputs, List.append_assoc]
      rfl

end

/-! ## The merge loop -/

section

variable [HeapOps] [LawfulHeap] {s : State} {ls : List (List InternalRecord)}

omit [LawfulHeap] in
/-- Reading goes on with the record that the iterator stands at. -/
theorem drain_head {m : MergeIterator} {fuel : Nat} :
    ∀ r ∈ (MergeIterator.drain fuel m).1.head?, m.valid = true ∧ m.record = r := by
  intro r hr
  cases fuel with
  | zero => cases hr
  | succ fuel =>
    unfold MergeIterator.drain at hr
    by_cases hv : m.valid = true
    · rw [if_pos hv] at hr
      exact ⟨hv, Option.some.inj hr⟩
    · rw [if_neg hv] at hr
      cases hr

/-- The records of one key are the next of the merged list, when it is read without a failure. -/
theorem passKey_reads {m : MergeIterator} (hm : m.Merging False ls) (hv : m.valid = true) (hreads : m.reads = [])
    (hls : ∀ l ∈ ls, KWay.Sorted internalBefore l) {fuel : Nat} (hfuel : ls.flatten.length ≤ fuel + 1) :
    ∃ m' l rest L, (∀ job, passKey fuel ⟨job, m⟩ = (.ok (), ⟨job, m'⟩)) ∧
      KWay.Sorted internalBefore (m.record :: l ++ L) ∧ (m.record :: l ++ L).Perm ls.flatten ∧
      newestRecords none (m.record :: l ++ L) = m.record :: newestRecords none L ∧
      m'.Merging False rest ∧ m'.reads = [] ∧ rest.flatten.length ≤ fuel ∧
      (∀ l ∈ rest, KWay.Sorted internalBefore l) ∧ L.Perm rest.flatten := by
  have hpassed := passKey_drains (s := ⟨{ store := ⟨fun _ => none, []⟩, nextOutputTableId := 0 }, m⟩) hm hv
      hfuel
  obtain ⟨m', hpass, hcase⟩ := hpassed
  cases hpass
  dsimp only at hcase
  rw [hreads] at hcase
  rcases hcase with ⟨-, -, e, hfailed⟩ | ⟨l, rest, hdrains, hkeys, hrest, hlen, hquiet, hend⟩
  · exact absurd hfailed not_failedLoad
  have hnil := hquiet.eq_nil
  obtain ⟨rest', hdrains', -, hdone⟩ := MergeIterator.drain_drains hrest hlen
  rw [hnil] at hdone
  rcases hdone with ⟨-, hempty, -⟩ | ⟨e, -, hfailed⟩
  · have hall := hdrains.trans hdrains'
    have hperm := hall.perm
    have hperm' := hdrains'.perm
    rw [hempty, List.append_nil] at hperm hperm'
    refine ⟨_, l, rest, _, fun _ => rfl, hall.sorted internalBefore_asymm not_internalBefore_trans hls, hperm,
      ?_, hrest,
      hnil, hlen, hdrains.sorted_rest hls, hperm'⟩
    rw [List.cons_append, newestRecords, if_neg (by simp), newestRecords_skip hkeys, newestRecords_fresh]
    intro r hr
    obtain ⟨hv', rfl⟩ := drain_head r hr
    exact hend hv'
  · exact absurd hfailed not_failedLoad

variable [TableFormat]

omit [HeapOps] [LawfulHeap] in
/-- A round of the loop over the records, in the steps of the loop over the iterators. -/
theorem mergeLoop_cons (plan : CompactionPlan) (bottommost : Bool) (r : InternalRecord) (rs : List InternalRecord) :
    CompactionJob.mergeLoop plan bottommost (r :: rs) =
      (CompactionJob.addNewest bottommost r >>= fun _ => rollOutput plan >>= fun _ =>
        CompactionJob.mergeLoop plan bottommost rs) := by
  rw [CompactionJob.mergeLoop, ← bind_bind]
  rfl

/-- **The merge loops agree**: over the iterators, and over the records that they merge to. -/
theorem mergeLoop_follows (plan : CompactionPlan) (bottommost : Bool) (fuel : Nat) (hm : s.merge.Merging False ls)
    (hreads : s.merge.reads = []) (hfuel : ls.flatten.length ≤ fuel)
    (hls : ∀ l ∈ ls, KWay.Sorted internalBefore l) {L : List InternalRecord} (hL : KWay.Sorted internalBefore L)
    (hperm : L.Perm ls.flatten) (hsame : ∀ x ∈ L, ∀ y ∈ L, x.key = y.key → x.seqNum = y.seqNum → x = y) :
    Follows (fun _ s' => ∀ it ∈ s'.merge.inputs, it.status = none) (mergeLoop plan bottommost fuel s)
      (CompactionJob.mergeLoop plan bottommost (newestRecords none L) s.job) := by
  induction fuel generalizing s ls L with
  | zero =>
    have hnil : L = [] := List.eq_nil_of_length_eq_zero (by rw [hperm.length_eq]; omega)
    subst hnil
    exact .ok hreads hm.quiet
  | succ fuel ih =>
    unfold mergeLoop
    cases hv : s.merge.valid with
    | false =>
      rw [hm.done hv] at hperm
      have hnil : L = [] := hperm.eq_nil
      subst hnil
      exact .ok hreads hm.quiet
    | true =>
      rw [if_pos rfl]
      obtain ⟨m', l, rest, L', hpass, hsorted, hperm', hnewest, hrest, hnil, hlen, hls', hpermL⟩ :=
        passKey_reads hm hv hreads hls hfuel
      -- the merged list goes on with the records of this key
      have heq : L = s.merge.record :: l ++ L' := by
        refine KWay.sorted_unique hL hsorted (hperm.trans hperm'.symm) fun x hx y hy hxy hyx => ?_
        obtain ⟨hkey, hseq⟩ := same_of_not_before hxy hyx
        exact hsame x hx y hy hkey hseq
      have hsub : ∀ x ∈ L', x ∈ L := by
        intro x hx
        rw [heq]
        exact List.mem_append_right _ hx
      have hL' : KWay.Sorted internalBefore L' := (List.pairwise_append.mp hsorted).2.1
      rw [heq, hnewest, mergeLoop_cons]
      refine (follows_onJob _ hreads).bind ?_
      rintro _ _ ⟨job, m⟩ - hm₁
      have hm₁ : m = s.merge := hm₁
      subst hm₁
      rw [bind_ok (hpass job)]
      refine (follows_onJob (s := ⟨job, m'⟩) _ hnil).bind ?_
      rintro _ _ s₂ hreads₂ hm₂
      have hm₂ : s₂.merge = m' := hm₂
      refine ih (hm₂.symm ▸ hrest) hreads₂ hlen hls' hL' hpermL fun x hx y hy => ?_
      exact hsame x (hsub x hx) y (hsub y hy)

end

/-! ## The run -/

section

variable [Zlib] [HeapOps] [LawfulHeap] [TableFormat] {p : CompactionPlan} {lm : LevelManager} {store : TableStore}

omit [Zlib] [HeapOps] [LawfulHeap] [TableFormat] in
theorem checkIterators_quiet {s : State} (h : ∀ it ∈ s.merge.inputs, it.status = none) :
    checkIterators s = (.ok (), s) := by
  unfold checkIterators
  rw [List.findSome?_eq_none_iff.mpr h]

theorem merge_follows (lm : LevelManager) (next : UInt64) (hpacks : ∀ t ∈ p.inputs, Packs store.files t)
    (hsame : ∀ x ∈ p.inputRecords store.files, ∀ y ∈ p.inputRecords store.files,
      x.key = y.key → x.seqNum = y.seqNum → x = y) :
    Follows (fun _ _ => True) (merge p lm ⟨{ store, nextOutputTableId := next }, { inputs := [] }⟩)
      (CompactionJob.merge p lm { store, nextOutputTableId := next }) := by
  unfold merge CompactionJob.merge
  have hpacksSource : ∀ t ∈ p.sourceTables, Packs store.files t := fun t ht => hpacks t (List.mem_append_left _ ht)
  refine (addInputTables_follows p.sourceLevel rfl hpacksSource).bind ?_
  rintro _ sources s₁ hreads₁ ⟨hstore₁, its₁, hits₁, hrecords₁, hinputs₁⟩
  have hpacksTarget : ∀ t ∈ p.overlappingTables, Packs s₁.job.store.files t := by
    intro t ht
    rw [hstore₁]
    exact hpacks t (List.mem_append_right _ ht)
  refine (addInputTables_follows p.targetLevel hreads₁ hpacksTarget).bind ?_
  rintro _ targets s₂ hreads₂ ⟨hstore₂, its₂, hits₂, hrecords₂, hinputs₂⟩
  rw [hstore₁] at hits₂
  rw [hinputs₁] at hinputs₂
  have hopened : List.Forall₂ (Opened store.files) p.inputs s₂.merge.inputs := by
    rw [hinputs₂]
    exact List.rel_append hits₁ hits₂
  have hlists : s₂.merge.inputs.map TableIterator.records = sources ++ targets := by
    rw [hinputs₂, ← hrecords₁, ← hrecords₂, ← List.map_append]
    rfl
  have hsorted := opened_sorted hopened
  have hrecords := records_opened hopened
  rw [hlists] at hsorted hrecords
  have hmerged : (KWay.mergeAll internalBefore (sources ++ targets)).Perm (sources ++ targets).flatten :=
    KWay.mergeAll_perm _
  have hsame' : ∀ x ∈ KWay.mergeAll internalBefore (sources ++ targets),
      ∀ y ∈ KWay.mergeAll internalBefore (sources ++ targets), x.key = y.key → x.seqNum = y.seqNum → x = y := by
    intro x hx y hy
    have hx' := hmerged.mem_iff.mp hx
    have hy' := hmerged.mem_iff.mp hy
    rw [hrecords] at hx' hy'
    exact hsame x hx' y hy'
  rw [bind_ok (get_apply s₂)]
  rcases MergeIterator.build_merging s₂.merge (opened_blocks hopened) with
    ⟨m, hbuild, hm, hquiet⟩ | ⟨e, m, -, -, -, hfailed, -⟩
  · rw [hreads₂] at hquiet
    rw [hlists] at hm
    have hbuilt : buildMerge s₂ = (.ok (), ⟨s₂.job, m⟩) := by
      unfold buildMerge
      rw [hbuild]
    rw [bind_ok hbuilt, hlists]
    have hloop := mergeLoop_follows (s := ⟨s₂.job, m⟩) p (isBottommostDestination lm p.targetLevel)
      (sources ++ targets).flatten.length hm hquiet.eq_nil (Nat.le_refl _) hsorted
      (KWay.mergeAll_sorted internalBefore_asymm not_internalBefore_trans hsorted) hmerged hsame'
    refine hloop.bind ?_
    rintro _ _ s₃ hreads₃ hgood
    rw [bind_ok (checkIterators_quiet hgood)]
    have hfinish := follows_onJob (CompactionJob.finishCurrentOutput p.targetLevel) hreads₃
    exact hfinish.weaken fun _ _ _ => trivial
  · rw [hreads₂] at hfailed
    exact absurd hfailed not_failedLoad

/-- **The two models of the job agree.**  While no load of a block fails, and with inputs that were
written as tables and hold no version twice, a run over the iterators is a run over the records. -/
theorem run_refines (next : UInt64) (hpacks : ∀ t ∈ p.inputs, Packs store.files t)
    (hsame : ∀ x ∈ p.inputRecords store.files, ∀ y ∈ p.inputRecords store.files,
      x.key = y.key → x.seqNum = y.seqNum → x = y) :
    run p lm next (store, []) =
      ((CompactionJob.run p lm next store).1, ((CompactionJob.run p lm next store).2, [])) := by
  unfold run CompactionJob.run
  dsimp only
  by_cases hvalid : (!p.validate) = true
  · rw [if_pos hvalid, if_pos hvalid]
  rw [if_neg hvalid, if_neg hvalid]
  by_cases hcurrent : (!planIsCurrent p lm) = true
  · rw [if_pos hcurrent, if_pos hcurrent]
  rw [if_neg hcurrent, if_neg hcurrent]
  have hfollows := merge_follows lm next hpacks hsame
  generalize merge p lm ⟨{ store, nextOutputTableId := next }, { inputs := [] }⟩ = r at hfollows
  generalize CompactionJob.merge p lm { store, nextOutputTableId := next } = r' at hfollows
  cases hfollows with
  | ok hreads _ =>
    dsimp only
    rw [hreads]
  | @err e s hreads =>
    dsimp only
    generalize CompactionJob.cleanupFinishedOutputs s.job.newTables s.job.store = cleaned
    obtain ⟨o, left⟩ := cleaned
    cases o with
    | ok _ => rw [hreads]
    | err _ => rw [hreads]
    | crash => rw [hreads]
  | crash hreads =>
    dsimp only
    rw [hreads]

end

end StreamingJob

/-! ## The iterators -/

namespace TableIterator

/-- `seek_to_first` and `k` times `next`, while no load fails. -/
def advanced (it : TableIterator) : Nat → TableIterator
  | 0 => (it.seekToFirst []).1
  | k + 1 => ((it.advanced k).next []).1

theorem advanced_standing {it : TableIterator} (hne : [] ∉ it.blocks) {k : Nat} (hk : k ≤ it.records.length) :
    Standing False (it.advanced k) (it.records.drop k) := by
  induction k with
  | zero =>
    rcases seekToFirst_moves (E := False) (fun h => hne h) [] with ⟨hst, -⟩ | ⟨e, -, -, hfailed⟩
    · exact hst
    · exact absurd hfailed not_failedLoad
  | succ k ih =>
    have hahead := ih (by omega)
    rw [List.drop_eq_getElem_cons (by omega)] at hahead
    rcases next_moves hahead [] with ⟨hst, -⟩ | ⟨e, -, -, hfailed⟩
    · exact hst
    · exact absurd hfailed not_failedLoad

end TableIterator

theorem SSTableIterator.Readable.blocks_ne [Zlib] {file : ReadableFile} {off : Nat} {blocks : List (List Payload)}
    (h : Readable file off blocks) : ∀ b ∈ blocks, b ≠ [] := by
  induction blocks generalizing off with
  | nil => simp
  | cons b bs ih =>
    intro c hc
    rcases List.mem_cons.mp hc with rfl | hc
    · exact h.1
    · exact ih h.2.2 c hc

/-- **The two models of a table's iterator agree**: after any number of steps over readable blocks both show
the same record, or both have passed the last one. -/
theorem iterators_agree [Zlib] {file : ReadableFile} {footer : FileFooterSection} {blocks : List (List Payload)}
    (hblocks : SSTableIterator.Readable file footer.dataOffset.toNat blocks)
    (hcount : footer.dataBlockCount.toNat = blocks.length) (it : SSTableIterator) (jt : TableIterator)
    (hsame : jt.blocks = blocks.map fun b => b.map Payload.toRecord) {k : Nat} (hk : k ≤ blocks.flatten.length) :
    ∃ it', SSTableIterator.advanced footer file k it = (.ok (), it') ∧ it'.status = (jt.advanced k).status ∧
      it'.valid = (jt.advanced k).valid ∧
      ∀ q, blocks.flatten[k]? = some q → it'.record = some q.record ∧ (jt.advanced k).record = q.toRecord := by
  obtain ⟨it', hrun, hrecord, hstatus, hvalid⟩ := SSTableIterator.advanced_ok hblocks hcount it hk
  have hne : [] ∉ jt.blocks := by
    rw [hsame]
    intro hnil
    obtain ⟨b, hb, hmap⟩ := List.mem_map.mp hnil
    exact hblocks.blocks_ne b hb (List.map_eq_nil_iff.mp hmap)
  have hrecords : jt.records = blocks.flatten.map Payload.toRecord := by
    unfold TableIterator.records
    rw [hsame, List.map_flatten]
  have hlength : jt.records.length = blocks.flatten.length := by rw [hrecords, List.length_map]
  have hst := TableIterator.advanced_standing hne (hlength.symm ▸ hk)
  refine ⟨it', hrun, hstatus.trans hst.status.symm, ?_, fun q hq => ⟨?_, ?_⟩⟩
  · rw [Bool.eq_iff_iff, hvalid, hst.valid, Ne, List.drop_eq_nil_iff, hlength, Nat.not_le]
  · rw [hrecord, List.getElem?_map, hq]
    rfl
  · obtain ⟨hlt, hget⟩ := List.getElem?_eq_some_iff.mp hq
    have hjt : jt.records[k]? = some q.toRecord := by
      rw [hrecords, List.getElem?_map, hq]
      rfl
    obtain ⟨hlt', hget'⟩ := List.getElem?_eq_some_iff.mp hjt
    rw [List.drop_eq_getElem_cons hlt', hget'] at hst
    exact hst.record

end Kvdb
