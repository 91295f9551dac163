import Kvdb.Engine.TableFiles
import Kvdb.Manifest.Catalog

/-!
# Lookups

`Engine::get` (`core/engine/engine.cpp`) on an open engine: memory first, then the
candidate tables level by level, until a place has the key.  `SSTable::get` finds
the first record with the key in its table.

The search finds the newest version of the key when each table is more recent
than those behind it in the order of the search (`TablesRecent`,
`searchLevels_newest`).
-/

namespace Kvdb

open Faulty Recency

/-- `api_value`. -/
def apiValue (r : InternalRecord) : Except Status (Option (List UInt8)) :=
  match r.type with
  | .tombstone => .ok none
  | .put => .ok (some r.value.bytes)
  | .undefined => .error ⟨.corruption, "database record has an invalid type or value"⟩

/-- `SSTableManager::open` and `SSTable::get`. -/
def tableGet (files : UInt32 → Option (List InternalRecord)) (key : ArenaEntry) (t : TableMeta) :
    Except Status (Option InternalRecord) :=
  if t.tableId.toNat > 2 ^ 32 - 1 then
    .error ⟨.invalidArgument, "table ID exceeds the SSTableManager 32-bit limit"⟩
  else do
    let records ← TableStore.openTable t.tableId.toUInt32 files
    pure (Driver.findLatestByKey key records)

/-- The candidates of one level, in order. -/
def searchTables (files : UInt32 → Option (List InternalRecord)) (key : ArenaEntry) :
    List TableMeta → Except Status (Option InternalRecord)
  | [] => .ok none
  | t :: ts => do
    match ← tableGet files key t with
    | some r => .ok (some r)
    | none => searchTables files key ts

/-- The levels, in order. -/
def searchLevels (lm : LevelManager) (files : UInt32 → Option (List InternalRecord)) (key : ArenaEntry) :
    List Nat → Except Status (Option InternalRecord)
  | [] => .ok none
  | level :: levels => do
    let candidates ← lm.findCandidateTablesInLevel level key
    match ← searchTables files key candidates with
    | some r => .ok (some r)
    | none => searchLevels lm files key levels

/-- The record `Engine::get` takes the value from. -/
def search (mem : MemTable) (lm : LevelManager) (files : UInt32 → Option (List InternalRecord))
    (key : ArenaEntry) : Except Status (Option InternalRecord) :=
  match mem.get key with
  | some r => .ok (some r)
  | none => searchLevels lm files key (List.range lm.levelCount)

/-- `Engine::get`. -/
def lookup (mem : MemTable) (lm : LevelManager) (files : UInt32 → Option (List InternalRecord))
    (key : List UInt8) : Except Status (Option (List UInt8)) :=
  match ArenaEntry.makeEntry key with
  | none => .error ⟨.invalidArgument, "key is too large"⟩
  | some k => do
    match ← search mem lm files k with
    | some r => apiValue r
    | none => .ok none

/-! ## Places -/

/-- The records of a table's file. -/
def fileRecs (files : UInt32 → Option (List InternalRecord)) (t : TableMeta) : Set InternalRecord :=
  {r | ∃ rs, files t.tableId.toUInt32 = some rs ∧ r ∈ rs}

theorem Stored.fileRecs {files : UInt32 → Option (List InternalRecord)} {t : TableMeta} {rs : List InternalRecord}
    (h : Stored files t rs) : fileRecs files t = recs rs := by
  ext r
  constructor
  · rintro ⟨rs', hrs', hr⟩
    rw [h.file] at hrs'
    cases hrs'
    exact hr
  · intro hr
    exact ⟨rs, h.file, hr⟩

/-- Every installed table has the file its metadata was made from. -/
def FilesMatch (lm : LevelManager) (files : UInt32 → Option (List InternalRecord)) : Prop :=
  ∀ level, ∀ t ∈ lm.tables level, ∃ rs, Stored files t rs

/-- Each table is more recent than those of deeper levels, and on L0 than those with smaller ids. -/
structure TablesRecent (lm : LevelManager) (files : UInt32 → Option (List InternalRecord)) : Prop where
  levels : ∀ l l', l < l' → ∀ t ∈ lm.tables l, ∀ u ∈ lm.tables l',
    Recent (fileRecs files t) (fileRecs files u)
  newestFirst : ∀ t ∈ lm.tables 0, ∀ u ∈ lm.tables 0, u.tableId.toNat < t.tableId.toNat →
    Recent (fileRecs files t) (fileRecs files u)

/-- The records of all tables of some levels. -/
def levelRecs (lm : LevelManager) (files : UInt32 → Option (List InternalRecord)) (levels : List Nat) :
    Set InternalRecord :=
  {r | ∃ level ∈ levels, ∃ t ∈ lm.tables level, r ∈ fileRecs files t}

/-- The records of all tables. -/
def tableRecs (lm : LevelManager) (files : UInt32 → Option (List InternalRecord)) : Set InternalRecord :=
  {r | ∃ level, ∃ t ∈ lm.tables level, r ∈ fileRecs files t}

/-! ## What a search finds -/

/-- Only records with the key matter. -/
theorem FindsNewest.congr {S S' : Set InternalRecord} {key : ArenaEntry} {o : Option InternalRecord}
    (h : FindsNewest S key o) (heq : ∀ r, r.key = key → (r ∈ S ↔ r ∈ S')) : FindsNewest S' key o := by
  rcases h with ⟨ho, hno⟩ | ⟨r, ho, hr, hk⟩
  · exact .inl ⟨ho, fun ⟨x, hx, hkx⟩ => hno ⟨x, (heq x hkx).mpr hx, hkx⟩⟩
  · refine .inr ⟨r, ho, ⟨(heq r hk).mp hr.1, fun x hx hkx => ?_⟩, hk⟩
    exact hr.2 x ((heq x (hkx.trans hk)).mpr hx) hkx

/-- A search that goes on behind a first place. -/
theorem FindsNewest.orElse {S T : Set InternalRecord} {key : ArenaEntry} {o o' : Option InternalRecord}
    (h : FindsNewest S key o) (h' : FindsNewest T key o') (hab : Above S T) :
    FindsNewest (S ∪ T) key (o.orElse fun _ => o') := by
  rcases h with ⟨rfl, hno⟩ | ⟨r, rfl, hr, hk⟩
  · rcases h' with ⟨rfl, hno'⟩ | ⟨r, rfl, hr, hk⟩
    · exact .inl ⟨rfl, fun hold => (holds_union.mp hold).elim hno hno'⟩
    · refine .inr ⟨r, rfl, ⟨.inr hr.1, fun x hx hkx => ?_⟩, hk⟩
      rcases hx with hx | hx
      · exact absurd ⟨x, hx, hkx.trans hk⟩ hno
      · exact hr.2 x hx hkx
  · exact .inr ⟨r, rfl, hr.union hab, hk⟩

section

variable {lm : LevelManager} {c : StagedCounters} {files : UInt32 → Option (List InternalRecord)}

theorem fileRecs_finite (hf : FilesMatch lm files) {level : Nat} {t : TableMeta} (ht : t ∈ lm.tables level) :
    (fileRecs files t).Finite := by
  obtain ⟨rs, hrs⟩ := hf level t ht
  rw [hrs.fileRecs]
  exact finite_recs rs

theorem tableGet_finds {t : TableMeta} {rs : List InternalRecord} (h : Stored files t rs) (key : ArenaEntry) :
    ∃ o, tableGet files key t = .ok o ∧ FindsNewest (fileRecs files t) key o := by
  refine ⟨Driver.findLatestByKey key rs, ?_, ?_⟩
  · unfold tableGet
    have hlt := h.id_lt
    rw [if_neg (by omega), h.openTable]
    rfl
  · rw [h.fileRecs]
    exact Driver.findLatest_finds key h.ordered

theorem searchTables_finds {ts : List TableMeta} (hts : ∀ t ∈ ts, ∃ rs, Stored files t rs)
    (hpw : ts.Pairwise fun t u => Recent (fileRecs files t) (fileRecs files u)) (key : ArenaEntry) :
    ∃ o, searchTables files key ts = .ok o ∧ FindsNewest {r | ∃ t ∈ ts, r ∈ fileRecs files t} key o := by
  induction ts with
  | nil => exact ⟨none, rfl, .inl ⟨rfl, by rintro ⟨r, ⟨t, ht, -⟩, -⟩; cases ht⟩⟩
  | cons t ts ih =>
    obtain ⟨hfirst, hrest⟩ := List.pairwise_cons.mp hpw
    obtain ⟨rs, hrs⟩ := hts t (by simp)
    obtain ⟨o, ho, hfind⟩ := tableGet_finds hrs key
    obtain ⟨o', ho', hfind'⟩ := ih (fun u hu => hts u (by simp [hu])) hrest
    have hfin : ∀ u ∈ t :: ts, (fileRecs files u).Finite := by
      intro u hu
      obtain ⟨rs', hrs'⟩ := hts u hu
      rw [hrs'.fileRecs]
      exact finite_recs rs'
    have hab : Above (fileRecs files t) {r | ∃ u ∈ ts, r ∈ fileRecs files u} := by
      intro s hs x ⟨u, hu, hx⟩ hk
      exact (hfirst u hu).above (hfin t (by simp)) (hfin u (by simp [hu])) s hs x hx hk
    refine ⟨o.orElse fun _ => o', ?_, (hfind.orElse hfind' hab).congr fun r _ => ?_⟩
    · rw [searchTables, ho, ok_bind]
      cases o with
      | none => exact ho'
      | some r => rfl
    · simp

/-- The search of one level. -/
theorem searchLevel_finds (hc : Catalog lm c) (hf : FilesMatch lm files) (hrec : TablesRecent lm files)
    {level : Nat} (hlevel : level < lm.levelCount) (key : ArenaEntry) :
    ∃ ts o, lm.findCandidateTablesInLevel level key = .ok ts ∧ searchTables files key ts = .ok o ∧
      FindsNewest {r | ∃ t ∈ lm.tables level, r ∈ fileRecs files t} key o := by
  obtain ⟨ts, hts, hpw, hmem⟩ := LevelManager.findCandidate_mem (hc.inv.levels level) hlevel key
  have hstored : ∀ t ∈ ts, ∃ rs, Stored files t rs := fun t ht => hf level t ((hmem t).mp ht).1
  have hrecent : ts.Pairwise fun t u => Recent (fileRecs files t) (fileRecs files u) := by
    refine hpw.imp_of_mem fun {t u} ht hu htu => ?_
    unfold LevelBefore at htu
    by_cases h0 : level = 0
    · subst h0
      rw [if_pos rfl] at htu
      exact hrec.newestFirst t ((hmem t).mp ht).1 u ((hmem u).mp hu).1 htu
    · -- both have the key in their range
      rw [if_neg h0] at htu
      have h1 := ((hmem t).mp ht).2.2
      have h2 := ((hmem u).mp hu).2.1
      exact absurd (htu.trans_le h2) (not_lt.mpr h1)
  obtain ⟨o, ho, hfind⟩ := searchTables_finds hstored hrecent key
  refine ⟨ts, o, hts, ho, hfind.congr fun r hk => ?_⟩
  constructor
  · rintro ⟨t, ht, hr⟩
    exact ⟨t, ((hmem t).mp ht).1, hr⟩
  · rintro ⟨t, ht, hr⟩
    obtain ⟨rs, hrs⟩ := hf level t ht
    rw [hrs.fileRecs] at hr
    have hin := hrs.key_mem hr
    rw [hk] at hin
    exact ⟨t, (hmem t).mpr ⟨ht, hin⟩, by rw [hrs.fileRecs]; exact hr⟩

theorem searchLevels_finds (hc : Catalog lm c) (hf : FilesMatch lm files) (hrec : TablesRecent lm files)
    {levels : List Nat} (hlevels : ∀ level ∈ levels, level < lm.levelCount) (hpw : levels.Pairwise (· < ·))
    (key : ArenaEntry) :
    ∃ o, searchLevels lm files key levels = .ok o ∧ FindsNewest (levelRecs lm files levels) key o := by
  induction levels with
  | nil => exact ⟨none, rfl, .inl ⟨rfl, by rintro ⟨r, ⟨l, hl, -⟩, -⟩; cases hl⟩⟩
  | cons level levels ih =>
    obtain ⟨hfirst, hrest⟩ := List.pairwise_cons.mp hpw
    obtain ⟨ts, o, hts, ho, hfind⟩ := searchLevel_finds hc hf hrec (hlevels level (by simp)) key
    obtain ⟨o', ho', hfind'⟩ := ih (fun l hl => hlevels l (by simp [hl])) hrest
    have hab : Above {r | ∃ t ∈ lm.tables level, r ∈ fileRecs files t} (levelRecs lm files levels) := by
      rintro s ⟨t, ht, hs⟩ x ⟨l, hl, u, hu, hx⟩ hk
      obtain ⟨s', hs', hrest'⟩ := (hrec.levels level l (hfirst l hl) t ht u hu).above (fileRecs_finite hf ht)
        (fileRecs_finite hf hu) s hs x hx hk
      exact ⟨s', ⟨t, ht, hs'⟩, hrest'⟩
    refine ⟨o.orElse fun _ => o', ?_, (hfind.orElse hfind' hab).congr fun r _ => ?_⟩
    · rw [searchLevels, hts, ok_bind, ho, ok_bind]
      cases o with
      | none => exact ho'
      | some r => rfl
    · simp [levelRecs]

/-- The search of the tables finds the newest version in them. -/
theorem searchLevels_newest (hc : Catalog lm c) (hf : FilesMatch lm files) (hrec : TablesRecent lm files)
    (key : ArenaEntry) :
    ∃ o, searchLevels lm files key (List.range lm.levelCount) = .ok o ∧ FindsNewest (tableRecs lm files) key o := by
  obtain ⟨o, ho, hfind⟩ := searchLevels_finds hc hf hrec (fun _ h => List.mem_range.mp h) List.pairwise_lt_range key
  refine ⟨o, ho, hfind.congr fun r _ => ?_⟩
  constructor
  · rintro ⟨level, -, t, ht, hr⟩
    exact ⟨level, t, ht, hr⟩
  · rintro ⟨level, t, ht, hr⟩
    exact ⟨level, List.mem_range.mpr (LevelManager.mem_tables_level ht), t, ht, hr⟩

/-- Two tables whose newest versions of a key have one sequence number have the same record. -/
theorem same_version (hc : Catalog lm c) (hf : FilesMatch lm files) (hrec : TablesRecent lm files)
    {l l' : Nat} {t u : TableMeta} (ht : t ∈ lm.tables l) (hu : u ∈ lm.tables l') {r r' : InternalRecord}
    (hr : Newest (fileRecs files t) r) (hr' : Newest (fileRecs files u) r') (hk : r.key = r'.key)
    (hseq : r.seqNum.toNat = r'.seqNum.toNat) : r = r' := by
  rcases Nat.lt_trichotomy l l' with hlt | heq | hgt
  · exact ((hrec.levels l l' hlt t ht u hu r r' hr hr' hk).2 hseq.symm).symm
  · subst heq
    obtain ⟨rs, hrs⟩ := hf l t ht
    obtain ⟨rs', hrs'⟩ := hf l u hu
    have hrt := hr.1
    have hru := hr'.1
    rw [hrs.fileRecs] at hrt
    rw [hrs'.fileRecs] at hru
    by_cases htu : t = u
    · -- in one table the order is strict
      subst htu
      rw [← hrs.unique hrs'] at hru
      exact hrs.ordered.unique hrt hru hk hseq
    · by_cases h0 : l = 0
      · subst h0
        have hids : t.tableId.toNat ≠ u.tableId.toNat := fun heq =>
          htu (hc.structured.unique ht hu (UInt64.toNat_inj.mp heq))
        rcases Nat.lt_or_gt_of_ne hids with hlt | hgt
        · exact (hrec.newestFirst u hu t ht hlt r' r hr' hr hk.symm).2 hseq
        · exact ((hrec.newestFirst t ht u hu hgt r r' hr hr' hk).2 hseq.symm).symm
      · -- below L0 the ranges have no key in common
        have h1 := hrs.key_mem hrt
        have h2 := hrs'.key_mem hru
        rw [← hk] at h2
        rcases (hc.inv.levels l).apart h0 ht hu htu with h | h
        · exact absurd (h1.2.trans_lt h) (not_lt.mpr h2.1)
        · exact absurd (h2.2.trans_lt h) (not_lt.mpr h1.1)
  · exact (hrec.levels l' l hgt u hu t ht r' r hr' hr hk.symm).2 hseq

/-- The newest version in the tables is one record. -/
theorem newest_unique (hc : Catalog lm c) (hf : FilesMatch lm files) (hrec : TablesRecent lm files)
    {r r' : InternalRecord} (hr : Newest (tableRecs lm files) r) (hr' : Newest (tableRecs lm files) r')
    (hk : r.key = r'.key) : r = r' := by
  obtain ⟨l, t, ht, hrt⟩ := hr.1
  obtain ⟨l', u, hu, hru⟩ := hr'.1
  have hseq : r.seqNum.toNat = r'.seqNum.toNat := Nat.le_antisymm (hr'.2 r hr.1 hk) (hr.2 r' hr'.1 hk.symm)
  exact same_version hc hf hrec ht hu ⟨hrt, fun x hx hkx => hr.2 x ⟨l, t, ht, hx⟩ hkx⟩
    ⟨hru, fun x hx hkx => hr'.2 x ⟨l', u, hu, hx⟩ hkx⟩ hk hseq

end

end Kvdb
