import Kvdb.Compaction.Visibility
import Kvdb.Engine.Rules

/-!
# What the engine's state shows

Two views of one map `v`: the tables with the records of the log (`Shown`, what
the next open finds) and the tables with the records in memory (`MemOk`, what
`Engine::get` finds).  Both say that the part on top is newer than the tables
(`Newer`): a record of a table is also in the log, or older than all of it.

Each change of the state keeps both: a write adds a newest record on top, a flush
moves the oldest generation below, a compaction drops versions below, and a
replay takes the log for the memory.
-/

namespace Kvdb

open Faulty Bytes Recency

/-- The map a database stands for. -/
abbrev View := ArenaEntry → Option ArenaEntry

/-- The tables `lm` with the log `rs` show `v`. -/
structure Shown (lm : LevelManager) (c : StagedCounters) (files : UInt32 → Option (List InternalRecord))
    (rs : List InternalRecord) (v : View) : Prop where
  catalog : Catalog lm c
  stored : FilesMatch lm files
  recent : TablesRecent lm files
  ascending : rs.Pairwise fun a b => a.seqNum.toNat < b.seqNum.toNat
  newer : Newer (recs rs) (tableRecs lm files)
  bounded : ∀ r ∈ tableRecs lm files, r.seqNum.toNat < c.nextSequenceNumber.toNat
  unique : SeqUnique (tableRecs lm files)
  valid : ∀ r ∈ tableRecs lm files ∪ recs rs, r.type.isValid = true
  shows : Shows (tableRecs lm files ∪ recs rs) v

/-- The generations in memory, the oldest first. -/
def MemTable.gens (m : MemTable) : List (List InternalRecord) :=
  m.immutableTables.map ImmutableTable.table ++ [m.mutableTable]

/-- The memory over tables with the records `S` shows `v`; its records are in the log `rs`. -/
structure MemOk (m : MemTable) (S : Set InternalRecord) (rs : List InternalRecord) (v : View) : Prop where
  ordered : ∀ p ∈ m.places, Ordered p
  nonempty : ∀ t ∈ m.immutableTables, t.table ≠ []
  logged : m.records ⊆ recs rs
  apart : m.gens.Pairwise fun old new => ∀ a ∈ old, ∀ b ∈ new, a.seqNum.toNat < b.seqNum.toNat
  newer : ∀ s ∈ S, s ∈ m.gens.headD [] ∨ ∀ r ∈ m.records, s.seqNum.toNat < r.seqNum.toNat
  shows : Shows (S ∪ m.records) v

/-! ## Logs -/

theorem recs_append (l l' : List InternalRecord) : recs (l ++ l') = recs l ∪ recs l' := by
  ext r
  simp [recs]

theorem seqUnique_of_ascending {rs : List InternalRecord}
    (h : rs.Pairwise fun a b => a.seqNum.toNat < b.seqNum.toNat) : SeqUnique (recs rs) := by
  induction rs with
  | nil =>
    intro r hr
    cases hr
  | cons x xs ih =>
    obtain ⟨hx, hxs⟩ := List.pairwise_cons.mp h
    intro a ha b hb heq
    have heq' : a.seqNum.toNat = b.seqNum.toNat := heq
    rcases List.mem_cons.mp ha with hax | hax
    · rcases List.mem_cons.mp hb with hbx | hbx
      · rw [hax, hbx]
      · have := hx b hbx
        rw [hax] at heq'
        omega
    · rcases List.mem_cons.mp hb with hbx | hbx
      · have := hx a hax
        rw [hbx] at heq'
        omega
      · exact ih hxs a hax b hbx heq

/-- The next table has a file of its own. -/
theorem Catalog.next_file {lm : LevelManager} {c : StagedCounters} (h : Catalog lm c)
    (hlt : c.nextTableId.toNat ≤ 2 ^ 32 - 1) {level : Nat} {t : TableMeta} (ht : t ∈ lm.tables level) :
    t.tableId.toUInt32 ≠ c.nextTableId.toUInt32 := by
  intro heq
  have hid := h.id_lt level t ht
  have heq' := congrArg UInt32.toNat heq
  rw [UInt64.toNat_toUInt32, UInt64.toNat_toUInt32, Nat.mod_eq_of_lt (by omega), Nat.mod_eq_of_lt (by omega)] at heq'
  omega

namespace Shown

variable {lm lm' : LevelManager} {c c' : StagedCounters} {files files' : UInt32 → Option (List InternalRecord)}
  {rs : List InternalRecord} {v : View}

theorem logUnique (h : Shown lm c files rs v) : SeqUnique (recs rs) := seqUnique_of_ascending h.ascending

theorem allUnique (h : Shown lm c files rs v) : SeqUnique (tableRecs lm files ∪ recs rs) :=
  h.unique.union h.logUnique h.newer

/-- A write puts the newest record on top. -/
theorem append (h : Shown lm c files rs v) {r : InternalRecord} (ht : r.type.isValid = true)
    (hrs : ∀ x ∈ rs, x.seqNum.toNat < r.seqNum.toNat) (hc : c.nextSequenceNumber.toNat ≤ r.seqNum.toNat) :
    Shown lm c files (rs ++ [r]) (Function.update v r.key (if r.type = .put then some r.value else none)) := by
  have hset : tableRecs lm files ∪ recs (rs ++ [r]) = insert r (tableRecs lm files ∪ recs rs) := by
    rw [recs_append]
    ext x
    simp only [Set.mem_union, Set.mem_insert_iff, mem_recs, List.mem_singleton]
    tauto
  have hlt : ∀ x ∈ tableRecs lm files ∪ recs rs, x.seqNum.toNat < r.seqNum.toNat := by
    rintro x (hx | hx)
    · exact Nat.lt_of_lt_of_le (h.bounded x hx) hc
    · exact hrs x hx
  refine ⟨h.catalog, h.stored, h.recent, ?_, ?_, h.bounded, h.unique, ?_, ?_⟩
  · refine List.pairwise_append.mpr ⟨h.ascending, List.pairwise_singleton _ _, ?_⟩
    intro x hx y hy
    rw [List.mem_singleton.mp hy]
    exact hrs x hx
  · intro s hs
    rw [recs_append]
    rcases h.newer s hs with hin | hold
    · exact .inl (.inl hin)
    · refine .inr ?_
      rintro x (hx | hx)
      · exact hold x hx
      · rw [List.mem_singleton.mp hx]
        exact hlt s (.inl hs)
  · intro x hx
    rw [hset] at hx
    rcases Set.mem_insert_iff.mp hx with rfl | hx
    · exact ht
    · exact h.valid x hx
  · rw [hset]
    exact h.shows.insert hlt

/-- Only the files of the installed tables matter. -/
theorem congr_files (h : Shown lm c files rs v)
    (heq : ∀ level, ∀ t ∈ lm.tables level, files' t.tableId.toUInt32 = files t.tableId.toUInt32) :
    Shown lm c files' rs v ∧ tableRecs lm files' = tableRecs lm files := by
  have hfile : ∀ level, ∀ t ∈ lm.tables level, fileRecs files' t = fileRecs files t := by
    intro level t ht
    unfold fileRecs
    rw [heq level t ht]
  have hset : tableRecs lm files' = tableRecs lm files := by
    ext r
    constructor
    · rintro ⟨level, t, ht, hr⟩
      exact ⟨level, t, ht, by rw [← hfile level t ht]; exact hr⟩
    · rintro ⟨level, t, ht, hr⟩
      exact ⟨level, t, ht, by rw [hfile level t ht]; exact hr⟩
  refine ⟨⟨h.catalog, ?_, ⟨?_, ?_⟩, h.ascending, ?_, ?_, ?_, ?_, ?_⟩, hset⟩
  · intro level t ht
    obtain ⟨trs, hst⟩ := h.stored level t ht
    exact ⟨trs, hst.congr (heq level t ht)⟩
  · intro l l' hlt t ht u hu
    rw [hfile l t ht, hfile l' u hu]
    exact h.recent.levels l l' hlt t ht u hu
  · intro t ht u hu hlt
    rw [hfile 0 t ht, hfile 0 u hu]
    exact h.recent.newestFirst t ht u hu hlt
  · rw [hset]
    exact h.newer
  · rw [hset]
    exact h.bounded
  · rw [hset]
    exact h.unique
  · rw [hset]
    exact h.valid
  · rw [hset]
    exact h.shows

/-- A flush puts the table of a generation on top of the tables. -/
theorem flush (h : Shown lm c files rs v) {G : List InternalRecord} (hord : Ordered G) (hsub : recs G ⊆ recs rs)
    (hnew : Newer (recs G) (tableRecs lm files)) {t : TableMeta} (hid : t.tableId = c.nextTableId)
    (hlt : c.nextTableId.toNat < 2 ^ 32) (hlevel : t.level = 0)
    (hbounds : ∃ s, summarize G = some s ∧ t.smallestKey = s.minKey ∧ t.largestKey = s.maxKey)
    {edit : VersionEdit} (hadd : edit.newTables = [t]) (hdel : edit.deletedTables = [])
    (hst : stageApply lm c edit = .ok (lm', c')) (hseq : ∀ r ∈ rs, r.seqNum.toNat < c'.nextSequenceNumber.toNat)
    (hfiles : files' = Function.update files c.nextTableId.toUInt32 (some G)) :
    Shown lm' c' files' rs v ∧ tableRecs lm' files' = tableRecs lm files ∪ recs G := by
  have hs := stageApply_ok_iff.mp hst
  have hmem : ∀ level u, u ∈ lm'.tables level ↔ u ∈ lm.tables level ∨ (u = t ∧ level = 0) := by
    intro level u
    rw [hs.mem level u, hadd, hdel]
    simp only [List.not_mem_nil, false_imp_iff, implies_true, and_true, List.mem_singleton]
    constructor
    · rintro (hu | ⟨rfl, hl⟩)
      · exact .inl hu
      · rw [hlevel] at hl
        exact .inr ⟨rfl, hl⟩
    · rintro (hu | ⟨rfl, hl⟩)
      · exact .inl hu
      · exact .inr ⟨rfl, by rw [hlevel]; exact hl⟩
  have hold : ∀ level, ∀ u ∈ lm.tables level, files' u.tableId.toUInt32 = files u.tableId.toUInt32 := by
    intro level u hu
    rw [hfiles, Function.update_of_ne (h.catalog.next_file (by omega) hu)]
  have hnewfile : files' t.tableId.toUInt32 = some G := by rw [hfiles, hid, Function.update_self]
  have hstored : Stored files' t G := ⟨by rw [hid]; exact hlt, hnewfile, hord, hbounds⟩
  have hG : fileRecs files' t = recs G := hstored.fileRecs
  have hrecold : ∀ level, ∀ u ∈ lm.tables level, fileRecs files' u = fileRecs files u := by
    intro level u hu
    unfold fileRecs
    rw [hold level u hu]
  have hset : tableRecs lm' files' = tableRecs lm files ∪ recs G := by
    ext r
    constructor
    · rintro ⟨level, u, hu, hr⟩
      rcases (hmem level u).mp hu with hu | ⟨rfl, -⟩
      · rw [hrecold level u hu] at hr
        exact .inl ⟨level, u, hu, hr⟩
      · rw [hG] at hr
        exact .inr hr
    · rintro (⟨level, u, hu, hr⟩ | hr)
      · exact ⟨level, u, (hmem level u).mpr (.inl hu), by rw [hrecold level u hu]; exact hr⟩
      · exact ⟨0, t, (hmem 0 t).mpr (.inr ⟨rfl, rfl⟩), by rw [hG]; exact hr⟩
  have hover : ∀ level, ∀ u ∈ lm.tables level, Recent (recs G) (fileRecs files u) := by
    intro level u hu
    refine (hnew.mono fun r hr => ⟨level, u, hu, hr⟩).recent ?_
    exact h.logUnique.subset hsub
  have hall : tableRecs lm' files' ∪ recs rs = tableRecs lm files ∪ recs rs := by
    rw [hset, Set.union_assoc, Set.union_eq_self_of_subset_left hsub]
  have hcle : c.nextSequenceNumber.toNat ≤ c'.nextSequenceNumber.toNat := (stageCounter_ok hs.nextSequenceNumber).2
  refine ⟨⟨catalog_of_structured (h.catalog.structured.stageApply hst) hs.inv, ?_, ⟨?_, ?_⟩, h.ascending,
    ?_, ?_, ?_,
    ?_, ?_⟩, hset⟩
  · intro level u hu
    rcases (hmem level u).mp hu with hu | ⟨rfl, -⟩
    · obtain ⟨urs, hurs⟩ := h.stored level u hu
      exact ⟨urs, hurs.congr (hold level u hu)⟩
    · exact ⟨G, hstored⟩
  · intro l l' hll a ha b hb
    rcases (hmem l' b).mp hb with hb | ⟨rfl, h0⟩
    · rw [hrecold l' b hb]
      rcases (hmem l a).mp ha with ha | ⟨rfl, -⟩
      · rw [hrecold l a ha]
        exact h.recent.levels l l' hll a ha b hb
      · rw [hG]
        exact hover l' b hb
    · omega
  · intro a ha b hb hab
    rcases (hmem 0 b).mp hb with hb | ⟨rfl, -⟩
    · rw [hrecold 0 b hb]
      rcases (hmem 0 a).mp ha with ha | ⟨rfl, -⟩
      · rw [hrecold 0 a ha]
        exact h.recent.newestFirst a ha b hb hab
      · rw [hG]
        exact hover 0 b hb
    · -- the new table has the largest id
      rcases (hmem 0 a).mp ha with ha | ⟨rfl, -⟩
      · have := h.catalog.id_lt 0 a ha
        rw [hid] at hab
        omega
      · omega
  · rw [hset]
    rintro s (hs' | hs')
    · exact h.newer s hs'
    · exact .inl (hsub hs')
  · rw [hset]
    rintro r (hr | hr)
    · have := h.bounded r hr
      omega
    · exact hseq r (hsub hr)
  · rw [hset]
    exact h.allUnique.subset (Set.union_subset_union_right _ hsub)
  · rw [hall]
    exact h.valid
  · rw [hall]
    exact h.shows

/-- The log may go once the tables alone show the map. -/
theorem truncate (h : Shown lm c files rs v) (hshows : Shows (tableRecs lm files) v) : Shown lm c files [] v := by
  refine ⟨h.catalog, h.stored, h.recent, List.Pairwise.nil, ?_, h.bounded, h.unique, ?_, ?_⟩
  · rw [recs_nil]
    exact newer_empty
  · intro r hr
    rw [recs_nil, Set.union_empty] at hr
    exact h.valid r (.inl hr)
  · rw [recs_nil, Set.union_empty]
    exact hshows

/-- Counters that only grow. -/
theorem raise (h : Shown lm c files rs v) (hc : Catalog lm c')
    (hle : c.nextSequenceNumber.toNat ≤ c'.nextSequenceNumber.toNat) : Shown lm c' files rs v :=
  { h with catalog := hc, bounded := fun r hr => Nat.lt_of_lt_of_le (h.bounded r hr) hle }

/-- A compaction: what the tables lose is older than the log, or said by nobody any more. -/
theorem compact (h : Shown lm c files rs v) {p : CompactionPlan} {next' : UInt64}
    {inputs : List (List InternalRecord)} {outs : List Output} {edit : VersionEdit} (hsel : Selected lm p)
    (hcomp : Compacted p lm c.nextTableId next' files files' inputs outs edit)
    (hst : stageApply lm c edit = .ok (lm', c')) :
    Shown lm' c' files' rs v ∧ tableRecs lm' files' ⊆ tableRecs lm files ∧
      ∀ r, Newest (tableRecs lm files) r →
        r ∈ tableRecs lm' files' ∨ (Versioned.value r = none ∧ ¬ Holds (tableRecs lm' files') r.key) := by
  have hs := stageApply_ok_iff.mp hst
  have hsub := hcomp.tableRecs_subset h.catalog h.stored hsel hst
  have hkeep : ∀ r, Newest (tableRecs lm files) r →
      r ∈ tableRecs lm' files' ∨ (Versioned.value r = none ∧ ¬ Holds (tableRecs lm' files') r.key) := by
    intro r hr
    refine (hcomp.newest_stays h.catalog h.stored h.recent hsel hst hr).imp_right fun hgone => ⟨?_, hgone.2⟩
    show (if r.type = .put then some r.value else none) = none
    rw [hgone.1]
    rfl
  have hcle : c.nextSequenceNumber.toNat ≤ c'.nextSequenceNumber.toNat := (stageCounter_ok hs.nextSequenceNumber).2
  refine ⟨⟨catalog_of_structured (h.catalog.structured.stageApply hst) hs.inv,
    hcomp.filesMatch h.catalog hsel h.stored hst, hcomp.tablesRecent h.catalog h.stored h.recent hsel hst,
    h.ascending, h.newer.mono hsub, ?_, h.unique.subset hsub, ?_, h.shows.shrink_below h.newer hsub hkeep⟩, hsub,
      hkeep⟩
  · intro r hr
    exact Nat.lt_of_lt_of_le (h.bounded r (hsub hr)) hcle
  · rintro r (hr | hr)
    · exact h.valid r (.inl (hsub hr))
    · exact h.valid r (.inr hr)

end Shown

/-! ## Memory -/

namespace MemTable

theorem places_eq (m : MemTable) : m.places = m.gens.reverse := by
  simp [places, gens]

theorem mem_records {m : MemTable} {r : InternalRecord} : r ∈ m.records ↔ ∃ g ∈ m.gens, r ∈ g := by
  unfold records
  rw [places_eq]
  simp

theorem head_mem_gens (m : MemTable) : m.gens.headD [] ∈ m.gens := by
  unfold gens
  cases m.immutableTables.map ImmutableTable.table with
  | nil => exact List.mem_cons_self
  | cons x xs => exact List.mem_cons_self

/-- The newest generation, with one more record. -/
theorem gens_apply {m m' : MemTable} {r : InternalRecord} (h : m.apply r = .ok m') :
    ∃ t, Driver.insert r m.mutableTable = .ok t ∧
      m'.gens = m.immutableTables.map ImmutableTable.table ++ [t] ∧ m'.immutableTables = m.immutableTables := by
  obtain ⟨t, ht, rfl⟩ := apply_ok h
  exact ⟨t, ht, rfl, rfl⟩

theorem records_apply {m m' : MemTable} {r : InternalRecord} (h : m.apply r = .ok m') :
    m'.records = insert r m.records := by
  obtain ⟨t, ht, hg, -⟩ := gens_apply h
  have hperm := Driver.insert_perm ht
  ext x
  rw [mem_records, hg, Set.mem_insert_iff, mem_records]
  simp only [gens, List.mem_append, List.mem_singleton]
  constructor
  · rintro ⟨g, hg | rfl, hx⟩
    · exact .inr ⟨g, .inl hg, hx⟩
    · rcases List.mem_cons.mp (hperm.mem_iff.mp hx) with rfl | hx
      · exact .inl rfl
      · exact .inr ⟨_, .inr rfl, hx⟩
  · rintro (rfl | ⟨g, hg | rfl, hx⟩)
    · exact ⟨t, .inr rfl, hperm.mem_iff.mpr List.mem_cons_self⟩
    · exact ⟨g, .inl hg, hx⟩
    · exact ⟨t, .inr rfl, hperm.mem_iff.mpr (List.mem_cons_of_mem _ hx)⟩

theorem records_freeze (m : MemTable) : m.freezeMutable.records = m.records := by
  unfold records
  rcases m.freezeMutable_places with h | h
  · rw [h]
  · rw [h]
    simp

end MemTable

namespace MemOk

variable {m m' : MemTable} {S S' : Set InternalRecord} {rs : List InternalRecord} {v : View}

/-- The newest record goes into the mutable table. -/
theorem apply (h : MemOk m S rs v) {r : InternalRecord} (happ : m.apply r = .ok m')
    (hrs : ∀ x ∈ rs, x.seqNum.toNat < r.seqNum.toNat) (hS : ∀ s ∈ S, s.seqNum.toNat < r.seqNum.toNat) :
    MemOk m' S (rs ++ [r]) (Function.update v r.key (if r.type = .put then some r.value else none)) := by
  obtain ⟨t, ht, hg, him⟩ := MemTable.gens_apply happ
  have hrecs := MemTable.records_apply happ
  have hperm := Driver.insert_perm ht
  have hmem : ∀ x ∈ m.records, x.seqNum.toNat < r.seqNum.toNat := fun x hx => hrs x (h.logged hx)
  obtain ⟨hpim, -, hlast⟩ := List.pairwise_append.mp h.apart
  refine ⟨?_, by rw [him]; exact h.nonempty, ?_, ?_, ?_, ?_⟩
  · intro p hp
    rw [MemTable.places_eq, List.mem_reverse, hg, List.mem_append, List.mem_singleton] at hp
    rcases hp with hp | rfl
    · refine h.ordered p ?_
      rw [MemTable.places_eq, List.mem_reverse]
      exact List.mem_append.mpr (.inl hp)
    · refine Driver.insert_ordered (h.ordered m.mutableTable ?_) ht
      exact List.mem_cons_self
  · rw [hrecs, recs_append]
    intro x hx
    rcases Set.mem_insert_iff.mp hx with rfl | hx
    · exact .inr (by simp)
    · exact .inl (h.logged hx)
  · rw [hg]
    refine List.pairwise_append.mpr ⟨hpim, List.pairwise_singleton _ _, ?_⟩
    intro g hgm t' ht' a ha b hb
    rw [List.mem_singleton.mp ht'] at hb
    rcases List.mem_cons.mp (hperm.mem_iff.mp hb) with rfl | hb
    · exact hmem a (MemTable.mem_records.mpr ⟨g, List.mem_append.mpr (.inl hgm), ha⟩)
    · exact hlast g hgm m.mutableTable (by simp) a ha b hb
  · intro s hs
    have hin : s ∈ m.gens.headD [] → s ∈ m'.gens.headD [] := by
      rw [hg]
      unfold MemTable.gens
      cases hi : m.immutableTables.map ImmutableTable.table with
      | nil =>
        intro hs
        exact hperm.mem_iff.mpr (List.mem_cons_of_mem _ hs)
      | cons x xs => exact id
    rcases h.newer s hs with hin' | hlt
    · exact .inl (hin hin')
    · refine .inr fun x hx => ?_
      rw [hrecs] at hx
      rcases Set.mem_insert_iff.mp hx with rfl | hx
      · exact hS s hs
      · exact hlt x hx
  · rw [hrecs, Set.union_insert]
    refine h.shows.insert ?_
    rintro x (hx | hx)
    · exact hS x hx
    · exact hmem x hx

/-- A freeze opens a new, empty generation. -/
theorem freeze (h : MemOk m S rs v) : MemOk m.freezeMutable S rs v := by
  by_cases h0 : m.mutableTable = []
  · have heq : m.freezeMutable = m := if_pos h0
    rw [heq]
    exact h
  have hg : m.freezeMutable.gens = m.gens ++ [[]] := by
    simp [MemTable.freezeMutable, h0, MemTable.gens]
  have hrecs := m.records_freeze
  refine ⟨?_, ?_, ?_, ?_, ?_, ?_⟩
  · intro p hp
    rw [MemTable.places_eq, List.mem_reverse, hg, List.mem_append, List.mem_singleton] at hp
    rcases hp with hp | rfl
    · exact h.ordered p (by rw [MemTable.places_eq, List.mem_reverse]; exact hp)
    · exact List.Pairwise.nil
  · intro t ht
    have him : m.freezeMutable.immutableTables = m.immutableTables ++ [⟨m.nextGenerationId, m.mutableTable⟩] := by
      simp [MemTable.freezeMutable, h0]
    rw [him, List.mem_append, List.mem_singleton] at ht
    rcases ht with ht | rfl
    · exact h.nonempty t ht
    · exact h0
  · rw [hrecs]
    exact h.logged
  · rw [hg]
    refine List.pairwise_append.mpr ⟨h.apart, List.pairwise_singleton _ _, ?_⟩
    intro g _ e he a _ b hb
    rw [List.mem_singleton.mp he] at hb
    cases hb
  · rw [hrecs, hg]
    intro s hs
    have hhead : (m.gens ++ [[]]).headD [] = m.gens.headD [] := by
      unfold MemTable.gens
      cases m.immutableTables.map ImmutableTable.table with
      | nil => rfl
      | cons x xs => rfl
    rw [hhead]
    exact h.newer s hs
  · rw [hrecs]
    exact h.shows

/-- The oldest generation over the tables. -/
theorem oldest_newer (h : MemOk m S rs v) {t : ImmutableTable} {rest : List ImmutableTable}
    (hi : m.immutableTables = t :: rest) : Newer (recs t.table) S := by
  intro s hs
  have hhead : m.gens.headD [] = t.table := by
    unfold MemTable.gens
    rw [hi]
    rfl
  rcases h.newer s hs with hin | hlt
  · rw [hhead] at hin
    exact .inl hin
  · refine .inr fun x hx => hlt x (MemTable.mem_records.mpr ⟨t.table, ?_, hx⟩)
    unfold MemTable.gens
    rw [hi]
    exact List.mem_cons_self

theorem oldest_logged (h : MemOk m S rs v) {t : ImmutableTable} (ht : t ∈ m.immutableTables) :
    recs t.table ⊆ recs rs := by
  intro x hx
  refine h.logged (MemTable.mem_records.mpr ⟨t.table, ?_, hx⟩)
  exact List.mem_append.mpr (.inl (List.mem_map_of_mem ht))

theorem oldest_ordered (h : MemOk m S rs v) {t : ImmutableTable} (ht : t ∈ m.immutableTables) : Ordered t.table := by
  refine h.ordered t.table ?_
  rw [MemTable.places_eq, List.mem_reverse]
  exact List.mem_append.mpr (.inl (List.mem_map_of_mem ht))

/-- The oldest generation leaves the memory for the tables. -/
theorem retire (h : MemOk m S rs v) {t : ImmutableTable} {rest : List ImmutableTable}
    (hi : m.immutableTables = t :: rest) :
    MemOk { m with immutableTables := rest } (S ∪ recs t.table) rs v := by
  have hg : m.gens = t.table :: ({ m with immutableTables := rest } : MemTable).gens := by
    simp [MemTable.gens, hi]
  have hrecs : m.records = recs t.table ∪ ({ m with immutableTables := rest } : MemTable).records := by
    ext x
    rw [MemTable.mem_records, hg, Set.mem_union, MemTable.mem_records]
    simp
  obtain ⟨hfirst, hapart⟩ := List.pairwise_cons.mp (hg ▸ h.apart)
  have hafter : ∀ a ∈ t.table, ∀ x ∈ ({ m with immutableTables := rest } : MemTable).records,
      a.seqNum.toNat < x.seqNum.toNat := by
    intro a ha x hx
    obtain ⟨g, hgm, hxg⟩ := MemTable.mem_records.mp hx
    exact hfirst g hgm a ha x hxg
  refine ⟨?_, ?_, ?_, hapart, ?_, ?_⟩
  · intro p hp
    refine h.ordered p ?_
    rw [MemTable.places_eq, List.mem_reverse] at hp ⊢
    rw [hg]
    exact List.mem_cons_of_mem _ hp
  · intro u hu
    exact h.nonempty u (by rw [hi]; exact List.mem_cons_of_mem _ hu)
  · intro x hx
    exact h.logged (by rw [hrecs]; exact .inr hx)
  · rintro s (hs | hs)
    · refine .inr fun x hx => ?_
      rcases h.newer s hs with hin | hlt
      · rw [hg] at hin
        exact hafter s hin x hx
      · exact hlt x (by rw [hrecs]; exact .inr hx)
    · exact .inr fun x hx => hafter s hs x hx
  · have hshows := h.shows
    rw [hrecs, ← Set.union_assoc] at hshows
    exact hshows

theorem records_newer (h : MemOk m S rs v) : Newer m.records S := fun s hs =>
  (h.newer s hs).imp_left fun hin => MemTable.mem_records.mpr ⟨_, m.head_mem_gens, hin⟩

/-- Fewer versions in the tables. -/
theorem compact (h : MemOk m S rs v) (hsub : S' ⊆ S)
    (hkeep : ∀ r, Newest S r → r ∈ S' ∨ (Versioned.value r = none ∧ ¬ Holds S' r.key)) :
      MemOk m S' rs v := by
  exact
    { h with
      newer := fun s hs => h.newer s (hsub hs)
      shows := h.shows.shrink_below h.records_newer hsub hkeep }

/-- With no generation left in memory the tables show the map alone. -/
theorem tables_show (h : MemOk m S rs v) (hmut : m.mutableTable = []) (hi : m.immutableTables = []) : Shows S v := by
  have hrecs : m.records = ∅ := by
    ext x
    rw [MemTable.mem_records]
    simp [MemTable.gens, hi, hmut]
  have hshows := h.shows
  rw [hrecs, Set.union_empty] at hshows
  exact hshows

end MemOk

/-- A replayed log. -/
theorem Shown.memOk {lm : LevelManager} {c : StagedCounters} {files : UInt32 → Option (List InternalRecord)}
    {rs : List InternalRecord} {v : View} (h : Shown lm c files rs v) {m : MemTable} (hi : m.immutableTables = [])
    (hord : Ordered m.mutableTable) (hperm : m.mutableTable.Perm rs) : MemOk m (tableRecs lm files) rs v := by
  have hg : m.gens = [m.mutableTable] := by simp [MemTable.gens, hi]
  have hrecs : m.records = recs rs := by
    ext x
    rw [MemTable.mem_records, hg]
    simp [hperm.mem_iff]
  refine ⟨?_, ?_, ?_, ?_, ?_, ?_⟩
  · intro p hp
    rw [MemTable.places_eq, hg] at hp
    simp only [List.reverse_singleton, List.mem_singleton] at hp
    rw [hp]
    exact hord
  · intro t ht
    rw [hi] at ht
    cases ht
  · rw [hrecs]
  · rw [hg]
    exact List.pairwise_singleton _ _
  · intro s hs
    rw [hg, hrecs]
    refine (h.newer s hs).imp_left fun hin => ?_
    exact hperm.mem_iff.mpr hin
  · rw [hrecs]
    exact h.shows

/-! ## Lookups -/

/-- The map as `Engine::get` answers. -/
def View.answer (v : View) (key : ArenaEntry) : Option (List UInt8) := (v key).map ArenaEntry.bytes

theorem apiValue_valid {r : InternalRecord} (h : r.type.isValid = true) :
    apiValue r = .ok ((Versioned.value r : Option ArenaEntry).map ArenaEntry.bytes) := by
  show _ = Except.ok ((if r.type = .put then some r.value else none).map ArenaEntry.bytes)
  unfold apiValue
  cases ht : r.type with
  | put => rfl
  | tombstone => rfl
  | undefined => rw [ht] at h; cases h

/-- **What a lookup answers.** -/
theorem lookup_shown {lm : LevelManager} {c : StagedCounters} {files : UInt32 → Option (List InternalRecord)}
    {rs : List InternalRecord} {v : View} {m : MemTable} (h : Shown lm c files rs v)
    (hm : MemOk m (tableRecs lm files) rs v) {key : List UInt8} {k : ArenaEntry}
    (hk : ArenaEntry.makeEntry key = some k) : lookup m lm files key = .ok (v.answer k) := by
  have hunique : SeqUnique (tableRecs lm files ∪ m.records) :=
    h.allUnique.subset (Set.union_subset_union_right _ hm.logged)
  have hvalid : ∀ r ∈ tableRecs lm files ∪ m.records, r.type.isValid = true := by
    intro r hr
    exact h.valid r (Set.union_subset_union_right _ hm.logged hr)
  obtain ⟨o, ho, hfind⟩ := searchLevels_newest h.catalog h.stored h.recent k
  have hanswer : ∀ r, Newest (tableRecs lm files ∪ m.records) r → r.key = k →
      apiValue r = .ok (v.answer k) := by
    intro r hr hrk
    rw [apiValue_valid (hvalid r hr.1)]
    have hv := hm.shows.of_newest hunique hr
    unfold View.answer
    rw [← hrk]
    exact congrArg (fun x => Except.ok (Option.map ArenaEntry.bytes x)) hv.symm
  unfold lookup
  rw [hk]
  simp only
  unfold search
  rcases MemTable.get_newest hm.ordered k with ⟨hnone, hno⟩ | ⟨r, hsome, hr, hrk⟩
  · rw [hnone]
    simp only [ho, ok_bind]
    rcases hfind with ⟨rfl, hno'⟩ | ⟨r, rfl, hr, hrk⟩
    · have hnone : v k = none := by
        refine hm.shows.of_not_holds ?_
        rintro ⟨x, hx | hx, hxk⟩
        · exact hno' ⟨x, hx, hxk⟩
        · exact hno ⟨x, hx, hxk⟩
      unfold View.answer
      rw [hnone]
      rfl
    · refine hanswer r ⟨.inl hr.1, ?_⟩ hrk
      rintro x (hx | hx) hxk
      · exact hr.2 x hx hxk
      · exact absurd ⟨x, hx, hxk.trans hrk⟩ hno
  · rw [hsome]
    refine hanswer r ⟨.inr hr.1, ?_⟩ hrk
    rintro x (hx | hx) hxk
    · rcases hm.records_newer x hx with hin | hlt
      · exact hr.2 x hin hxk
      · exact Nat.le_of_lt (hlt r hr.1)
    · exact hr.2 x hx hxk

end Kvdb
