import Kvdb.Engine.CrashSafety

/-!
# Recency in lookup order

The places of `Engine::get` in the order it searches them: the mutable table, the
frozen generations from the newest to the oldest, the tables of L0 from the
newest to the oldest, and the deeper levels.  In every state of a run a place has
newer versions of a key than the places behind it, or the same one.
-/

namespace Kvdb

open Faulty Bytes Recency

/-- The places in lookup order. -/
def Engine.lookupPlaces {φ ω : Type} (w : World φ ω) : List (Set InternalRecord) :=
  w.engine.mem.places.map recs ++ ((w.engine.levels.tables 0).map (fileRecs w.disk.tables) ++
    (List.range (w.engine.levels.levelCount - 1)).map fun i => levelRecs w.engine.levels w.disk.tables [i + 1])

section

variable {lm : LevelManager} {c : StagedCounters} {files : UInt32 → Option (List InternalRecord)}
  {rs : List InternalRecord} {v : View} {m : MemTable}

/-! ## Memory -/

theorem MemOk.places_recent {S : Set InternalRecord} (h : MemOk m S rs v) : (m.places.map recs).Pairwise Recent := by
  rw [MemTable.places_eq, List.pairwise_map, List.pairwise_reverse]
  refine h.apart.imp fun hold s t hs ht _ => ?_
  have hlt : t.seqNum.toNat < s.seqNum.toNat := hold t ht.1 s hs.1
  exact ⟨Nat.le_of_lt hlt, fun heq => absurd heq (Nat.ne_of_lt hlt)⟩

/-- A generation over a part of the tables. -/
theorem MemOk.place_recent {S : Set InternalRecord} (h : MemOk m S rs v) (hu : SeqUnique (S ∪ m.records))
    {p : List InternalRecord} (hp : p ∈ m.places) {T : Set InternalRecord} (hT : T ⊆ S) : Recent (recs p) T := by
  have hp' : p ∈ m.gens := by
    rw [MemTable.places_eq] at hp
    exact List.mem_reverse.mp hp
  have hsub : ∀ x ∈ p, x ∈ m.records := fun x hx => MemTable.mem_records.mpr ⟨p, hp', hx⟩
  intro s t hs ht hk
  have hle : t.seqNum.toNat ≤ s.seqNum.toNat := by
    rcases h.newer t (hT ht.1) with hin | hlt
    · -- the version is in the oldest generation as well
      obtain ⟨first, rest, hg⟩ : ∃ first rest, m.gens = first :: rest := by
        cases hg : m.gens with
        | nil => rw [hg] at hp'; cases hp'
        | cons first rest => exact ⟨first, rest, rfl⟩
      rw [hg] at hin hp'
      rcases List.mem_cons.mp hp' with rfl | hrest
      · exact hs.2 t hin hk.symm
      · have hapart := h.apart
        rw [hg] at hapart
        exact Nat.le_of_lt ((List.pairwise_cons.mp hapart).1 p hrest t hin s hs.1)
    · exact Nat.le_of_lt (hlt s (hsub s hs.1))
  exact ⟨hle, fun heq => hu t (.inl (hT ht.1)) s (.inr (hsub s hs.1)) heq⟩

/-! ## Tables -/

theorem levelRecs_recent (h : TablesRecent lm files) {l l' : Nat} (hlt : l < l') :
    Recent (levelRecs lm files [l]) (levelRecs lm files [l']) := by
  intro s t hs ht hk
  obtain ⟨a, ha, x, hx, hsx⟩ := hs.1
  obtain ⟨b, hb, y, hy, hty⟩ := ht.1
  rw [List.mem_singleton.mp ha] at hx
  rw [List.mem_singleton.mp hb] at hy
  have hs' : Newest (fileRecs files x) s := hs.subset (fun r hr => ⟨l, List.mem_singleton_self l, x, hx, hr⟩) hsx
  have ht' : Newest (fileRecs files y) t := ht.subset (fun r hr => ⟨l', List.mem_singleton_self l', y, hy, hr⟩) hty
  exact h.levels l l' hlt x hx y hy s t hs' ht' hk

theorem table_recent (h : TablesRecent lm files) {t : TableMeta} (ht : t ∈ lm.tables 0) {l : Nat} (hl : 0 < l) :
    Recent (fileRecs files t) (levelRecs lm files [l]) := by
  intro s u hs hu hk
  obtain ⟨b, hb, y, hy, huy⟩ := hu.1
  rw [List.mem_singleton.mp hb] at hy
  have hu' : Newest (fileRecs files y) u := hu.subset (fun r hr => ⟨l, List.mem_singleton_self l, y, hy, hr⟩) huy
  exact h.levels 0 l hl t ht y hy s u hs hu' hk

theorem tables_recent (hc : Catalog lm c) (h : TablesRecent lm files) (k : Nat) :
    ((lm.tables 0).map (fileRecs files) ++ (List.range k).map fun i => levelRecs lm files [i + 1]).Pairwise Recent := by
  refine List.pairwise_append.mpr ⟨?_, ?_, ?_⟩
  · rw [List.pairwise_map]
    exact hc.newestFirst.imp_of_mem fun ht hu hlt => h.newestFirst _ ht _ hu hlt
  · rw [List.pairwise_map]
    exact List.pairwise_lt_range.imp fun hlt => levelRecs_recent h (by omega)
  · intro S hS T hT
    obtain ⟨t, ht, rfl⟩ := List.mem_map.mp hS
    obtain ⟨i, -, rfl⟩ := List.mem_map.mp hT
    exact table_recent h ht (by omega)

end

/-! ## Runs -/

section

variable [Zlib] {n : Nat} {w : World EditLog LogObject} {v : View}

theorem Live.lookupPlaces_recent (h : Live n w.engine w.disk v) : (Engine.lookupPlaces w).Pairwise Recent := by
  obtain ⟨rs, -, hshown, hmem⟩ := h.log
  have hu : SeqUnique (tableRecs w.engine.levels w.disk.tables ∪ w.engine.mem.records) :=
    hshown.allUnique.subset (Set.union_subset_union_right _ hmem.logged)
  refine List.pairwise_append.mpr ⟨hmem.places_recent, tables_recent hshown.catalog hshown.recent _, ?_⟩
  intro S hS T hT
  obtain ⟨p, hp, rfl⟩ := List.mem_map.mp hS
  refine hmem.place_recent hu hp ?_
  rcases List.mem_append.mp hT with hT | hT
  · obtain ⟨t, ht, rfl⟩ := List.mem_map.mp hT
    exact fun r hr => ⟨0, t, ht, hr⟩
  · obtain ⟨i, -, rfl⟩ := List.mem_map.mp hT
    rintro r ⟨l, -, t, ht, hr⟩
    exact ⟨l, t, ht, hr⟩

/-- The sequence numbers in the places and in the active log. -/
theorem Live.stored_lt (h : Live n w.engine w.disk v) :
    (∀ S ∈ Engine.lookupPlaces w, ∀ r ∈ S, r.seqNum.toNat < w.engine.nextSequence.toNat) ∧
      ∀ b rs, w.disk.wals w.engine.currentWalId = some b → Readable b w.engine.currentWalId rs →
        ∀ r ∈ rs, r.seqNum.toNat < w.engine.nextSequence.toNat := by
  obtain ⟨rs, hlog, hshown, hmem⟩ := h.log
  have htable : ∀ r ∈ tableRecs w.engine.levels w.disk.tables, r.seqNum.toNat < w.engine.nextSequence.toNat :=
    fun r hr => Nat.lt_of_lt_of_le (hshown.bounded r hr) hlog.next_le
  refine ⟨?_, ?_⟩
  · intro S hS r hr
    rcases List.mem_append.mp hS with hS | hS
    · obtain ⟨p, hp, rfl⟩ := List.mem_map.mp hS
      exact hlog.seq_lt r (hmem.logged ⟨p, hp, hr⟩)
    rcases List.mem_append.mp hS with hS | hS
    · obtain ⟨t, ht, rfl⟩ := List.mem_map.mp hS
      exact htable r ⟨0, t, ht, hr⟩
    · obtain ⟨i, -, rfl⟩ := List.mem_map.mp hS
      obtain ⟨l, -, t, ht, hr⟩ := hr
      exact htable r ⟨l, t, ht, hr⟩
  · intro b rs' hb hr'
    obtain ⟨b', hb', hw⟩ := hlog.log
    rw [hb] at hb'
    cases hb'
    rw [hr'.unique hw.readable]
    exact hlog.seq_lt

/-- **Recency.**  In every state of a run each place is more recent than the later ones, and the
next sequence number is above every one that is stored. -/
theorem run_recency [EngineEnv] {N : Nat} {events : List Event} (h : Run N events w) :
    ((w.engine.levels.tables 0).Pairwise fun t u => u.tableId.toNat < t.tableId.toNat) ∧
      (Engine.lookupPlaces w).Pairwise Recent ∧
      (∀ S ∈ Engine.lookupPlaces w, ∀ r ∈ S, r.seqNum.toNat < w.engine.nextSequence.toNat) ∧
      ∀ b rs, w.disk.wals w.engine.currentWalId = some b → Readable b w.engine.currentWalId rs →
        ∀ r ∈ rs, r.seqNum.toNat < w.engine.nextSequence.toNat := by
  obtain ⟨ms, -, n, v, -, hl, -⟩ := h.up
  obtain ⟨rs, -, hshown, -⟩ := hl.log
  exact ⟨hshown.catalog.newestFirst, hl.lookupPlaces_recent, hl.stored_lt⟩

end

/-- A database after one put. -/
theorem run_recency_oneKey :
    (Engine.lookupPlaces oneKeyWorld).Pairwise Recent ∧ oneKeyWorld.engine.nextSequence = 2 := by
  refine ⟨(@run_recency documentedZlib oneKeyWorld countingEnv 7 _ oneKeyWorld_run).2.1, ?_⟩
  decide +kernel

end Kvdb
