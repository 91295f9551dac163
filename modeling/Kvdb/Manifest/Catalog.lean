import Mathlib.Data.List.Nodup
import Kvdb.Engine.Levels
import Kvdb.Lib.Hoare
import Kvdb.Manifest.FailStop

/-!
# The level catalog

`Catalog` is what the manifest's tables and counters always satisfy.  Its part
about the tables alone, `Structured`, is kept by `add_table` and `remove_table`
one by one: the neighbour checks at the insertion position are enough on a level
that is in order already.  So of the checks that `check_invariants` repeats after
each edit only those on the counters can fail (`checkInvariants_error`).

    runCatalog ops (new manifest) satisfies Catalog, for every list of calls
-/

namespace Kvdb

open Faulty Bytes

/-! ## Structure of the levels -/

/-- The tables of the levels are where their metadata says, with valid ranges, in the order of
their level, and no two of them have the same id. -/
structure Structured (lm : LevelManager) : Prop where
  id_ne : ∀ level, ∀ t ∈ lm.tables level, t.tableId ≠ 0
  level_eq : ∀ level, ∀ t ∈ lm.tables level, t.level.toNat = level
  range : ∀ level, ∀ t ∈ lm.tables level, t.smallestKey ≤ t.largestKey
  order : ∀ level, (lm.tables level).Pairwise (LevelBefore level)
  ids : (lm.levels.flatten.map TableMeta.tableId).Nodup

theorem LevelManager.levels_eq {lm : LevelManager} {level : Nat} (h : level < lm.levelCount) :
    lm.levels = lm.levels.take level ++ lm.tables level :: lm.levels.drop (level + 1) := by
  unfold levelCount at h
  have hget : lm.tables level = lm.levels[level] := by
    rw [tables, List.getD_eq_getElem?_getD, List.getElem?_eq_getElem h, Option.getD_some]
  rw [hget, ← List.drop_eq_getElem_cons h, List.take_append_drop]

theorem LevelManager.setTables_levels {lm : LevelManager} {level : Nat} (h : level < lm.levelCount)
    (ts : List TableMeta) :
    (lm.setTables level ts).levels = lm.levels.take level ++ ts :: lm.levels.drop (level + 1) :=
  List.set_eq_take_append_cons_drop.trans (if_pos h)

theorem LevelManager.mem_flatten {lm : LevelManager} {t : TableMeta} :
    t ∈ lm.levels.flatten ↔ ∃ level, t ∈ lm.tables level := by
  constructor
  · intro h
    obtain ⟨ts, hts, ht⟩ := List.mem_flatten.mp h
    obtain ⟨level, hlevel, rfl⟩ := List.getElem_of_mem hts
    refine ⟨level, ?_⟩
    rwa [tables, List.getD_eq_getElem?_getD, List.getElem?_eq_getElem hlevel, Option.getD_some]
  · rintro ⟨level, ht⟩
    have hlevel := mem_tables_level ht
    rw [levels_eq hlevel]
    simp [ht]

theorem Structured.unique {lm : LevelManager} (h : Structured lm) {level level' : Nat} {t u : TableMeta}
    (ht : t ∈ lm.tables level) (hu : u ∈ lm.tables level') (hid : t.tableId = u.tableId) : t = u :=
  List.inj_on_of_nodup_map h.ids (LevelManager.mem_flatten.mpr ⟨level, ht⟩)
    (LevelManager.mem_flatten.mpr ⟨level', hu⟩) hid

theorem Structured.ascending {lm : LevelManager} (h : Structured lm) {level : Nat} (hlevel : level ≠ 0) :
    (lm.tables level).Pairwise fun t u => t.largestKey < u.smallestKey := by
  refine (h.order level).imp fun htu => ?_
  unfold LevelBefore at htu
  rwa [if_neg hlevel] at htu

theorem Structured.mem_findOverlappingTables {lm : LevelManager} (h : Structured lm) (level : Nat)
    {smallest largest : ArenaEntry} (hle : smallest ≤ largest) (t : TableMeta) :
    t ∈ lm.findOverlappingTables level smallest largest ↔
      t ∈ lm.tables level ∧ smallest ≤ t.largestKey ∧ t.smallestKey ≤ largest :=
  LevelManager.mem_findOverlappingTables h.ascending (h.range level) hle t

theorem structured_init (n : Nat) : Structured (LevelManager.init n) := by
  have hnone := LevelManager.tables_init n
  refine ⟨?_, ?_, ?_, ?_, ?_⟩
  · intro level t ht
    rw [hnone] at ht
    cases ht
  · intro level t ht
    rw [hnone] at ht
    cases ht
  · intro level t ht
    rw [hnone] at ht
    cases ht
  · intro level
    rw [hnone]
    exact List.Pairwise.nil
  · have hflat : (LevelManager.init n).levels.flatten = [] := by
      simp [LevelManager.init]
    rw [hflat]
    exact List.nodup_nil

/-! ## Adding a table -/

/-- A new table between the two halves of an ordered level. -/
theorem pairwise_insert {level : Nat} {before after : List TableMeta} {m : TableMeta}
    (h : (before ++ after).Pairwise (LevelBefore level)) (hb : ∀ t ∈ before, LevelBefore level t m)
    (ha : ∀ t ∈ after, LevelBefore level m t) : (before ++ m :: after).Pairwise (LevelBefore level) := by
  obtain ⟨h1, h2, h3⟩ := List.pairwise_append.mp h
  refine List.pairwise_append.mpr ⟨h1, List.pairwise_cons.mpr ⟨ha, h2⟩, fun t ht u hu => ?_⟩
  rcases List.mem_cons.mp hu with rfl | hu
  · exact hb t ht
  · exact h3 t ht u hu

theorem not_overlap {a b c d : ArenaEntry} (h : ¬ rangesOverlap a b c d = true) : b < c ∨ d < a := by
  rw [rangesOverlap_iff, not_and_or, not_le, not_le] at h
  exact h

/-- The neighbour on the left ends before the new table, and so does everything before it. -/
theorem before_of_previous {level : Nat} (hlevel : level ≠ 0) {before : List TableMeta} {m previous : TableMeta}
    (hpw : before.Pairwise (LevelBefore level)) (hr : ∀ t ∈ before, t.smallestKey ≤ t.largestKey)
    (hm : m.smallestKey ≤ m.largestKey) (hlt : ∀ t ∈ before, t.smallestKey < m.smallestKey)
    (hlast : before.getLast? = some previous)
    (hno : ¬ rangesOverlap previous.smallestKey previous.largestKey m.smallestKey m.largestKey = true) :
    ∀ t ∈ before, LevelBefore level t m := by
  obtain ⟨init, rfl⟩ := List.getLast?_eq_some_iff.mp hlast
  have hprev : previous.largestKey < m.smallestKey := by
    rcases not_overlap hno with h | h
    · exact h
    · have h1 := hlt previous (by simp)
      exact absurd (h.trans h1) (not_lt.mpr hm)
  intro t ht
  unfold LevelBefore
  rw [if_neg hlevel]
  rcases List.mem_append.mp ht with ht | ht
  · have h1 := (List.pairwise_append.mp hpw).2.2 t ht previous (by simp)
    unfold LevelBefore at h1
    rw [if_neg hlevel] at h1
    have h2 := hr previous (by simp)
    exact h1.trans_le (h2.trans hprev.le)
  · rw [List.mem_singleton.mp ht]
    exact hprev

/-- The neighbour on the right starts behind the new table, and so does everything behind it. -/
theorem after_of_next {level : Nat} (hlevel : level ≠ 0) {after : List TableMeta} {m next : TableMeta}
    (hpw : after.Pairwise (LevelBefore level)) (hr : ∀ t ∈ after, t.smallestKey ≤ t.largestKey)
    (hfirst : after.head? = some next) (hge : m.smallestKey ≤ next.smallestKey)
    (hno : ¬ rangesOverlap m.smallestKey m.largestKey next.smallestKey next.largestKey = true) :
    ∀ t ∈ after, LevelBefore level m t := by
  obtain ⟨rest, rfl⟩ := List.head?_eq_some_iff.mp hfirst
  have hnr := hr next (by simp)
  have hnext : m.largestKey < next.smallestKey := by
    rcases not_overlap hno with h | h
    · exact h
    · exact absurd h (not_lt.mpr (hge.trans hnr))
  intro t ht
  unfold LevelBefore
  rw [if_neg hlevel]
  rcases List.mem_cons.mp ht with rfl | ht
  · exact hnext
  · have h1 := (List.pairwise_cons.mp hpw).1 t ht
    unfold LevelBefore at h1
    rw [if_neg hlevel] at h1
    exact hnext.trans_le (hnr.trans h1.le)

theorem dropWhile_first {p : TableMeta → Bool} {ts rest : List TableMeta} {t : TableMeta}
    (h : ts.dropWhile p = t :: rest) : p t = false := by
  have hhead := List.head?_dropWhile_not p ts
  rw [h] at hhead
  exact hhead

/-- The two checks of the insertion below L0. -/
theorem addSorted_neighbours {lm lm' : LevelManager} {m : TableMeta} {before after : List TableMeta}
    (h : lm.addSorted m before after = .ok lm') :
    (∀ previous, before.getLast? = some previous →
        ¬ rangesOverlap previous.smallestKey previous.largestKey m.smallestKey m.largestKey = true) ∧
      ∀ next, after.head? = some next →
        ¬ rangesOverlap m.smallestKey m.largestKey next.smallestKey next.largestKey = true := by
  have hnext : ∀ {x}, LevelManager.addSorted.addBefore lm m before after = .ok x →
      ∀ next, after.head? = some next →
        ¬ rangesOverlap m.smallestKey m.largestKey next.smallestKey next.largestKey = true := by
    intro x hx next hfirst hover
    unfold LevelManager.addSorted.addBefore at hx
    rw [hfirst] at hx
    simp only [if_pos hover] at hx
    cases hx
  unfold LevelManager.addSorted at h
  split at h
  · next previous hlast =>
    split at h
    · cases h
    · next hno =>
      refine ⟨fun p hp => ?_, hnext h⟩
      rw [hlast] at hp
      cases hp
      exact hno
  · next hlast =>
    refine ⟨fun p hp => ?_, hnext h⟩
    rw [hlast] at hp
    cases hp

/-- The insertion position of a table, and the order around it. -/
theorem addTable_order {lm lm' : LevelManager} (hs : Structured lm) {m : TableMeta}
    (h : lm.addTable m = .ok lm') :
    ∃ before after, lm.tables m.level.toNat = before ++ after ∧
      lm' = lm.setTables m.level.toNat (before ++ m :: after) ∧
      (before ++ m :: after).Pairwise (LevelBefore m.level.toNat) := by
  obtain ⟨-, hcount, hrange, hfresh, -⟩ := LevelManager.addTable_ok h
  have hm := lt_eq_false_iff.mp hrange
  have hpw := hs.order m.level.toNat
  have hr := hs.range m.level.toNat
  unfold LevelManager.addTable at h
  split at h
  · cases h
  split at h
  · cases h
  split at h
  · cases h
  split at h
  · cases h
  split at h
  · next h0 =>
    -- L0: in front of the first table with a smaller id
    cases h
    have hzero : m.level.toNat = 0 := by rw [h0]; rfl
    rw [hzero] at hpw hr ⊢
    have hsplit := (List.takeWhile_append_dropWhile (p := fun t => t.tableId > m.tableId) (l := lm.tables 0)).symm
    refine ⟨_, _, hsplit, rfl, ?_⟩
    rw [hsplit] at hpw
    refine pairwise_insert hpw ?_ ?_
    · intro t ht
      have hgt := List.mem_takeWhile_imp ht
      unfold LevelBefore
      rw [if_pos rfl]
      simpa [uint64_lt_iff] using hgt
    · intro t ht
      have hne := hfresh 0 t ((List.dropWhile_sublist _).subset ht)
      have hneq : t.tableId.toNat ≠ m.tableId.toNat := fun h => hne (UInt64.toNat_inj.mp h)
      have hdw := (List.pairwise_append.mp hpw).2.1
      cases hd : (lm.tables 0).dropWhile (fun t => t.tableId > m.tableId) with
      | nil =>
        rw [hd] at ht
        cases ht
      | cons first rest =>
        have hfirst : first.tableId.toNat ≤ m.tableId.toNat := by
          simpa [uint64_lt_iff] using dropWhile_first hd
        rw [hd] at hdw ht
        unfold LevelBefore
        rw [if_pos rfl]
        rcases List.mem_cons.mp ht with rfl | ht
        · omega
        · have hlt := (List.pairwise_cons.mp hdw).1 t ht
          unfold LevelBefore at hlt
          rw [if_pos rfl] at hlt
          omega
  · next h0 =>
    have hlevel : m.level.toNat ≠ 0 := fun h => h0 (UInt32.toNat_inj.mp h)
    have hsplit := (List.takeWhile_append_dropWhile (p := fun t => t.smallestKey.lt m.smallestKey)
      (l := lm.tables m.level.toNat)).symm
    obtain ⟨hprevious, hnext⟩ := addSorted_neighbours h
    refine ⟨_, _, hsplit, LevelManager.addSorted_ok h, ?_⟩
    have hrb : ∀ t ∈ (lm.tables m.level.toNat).takeWhile (fun t => t.smallestKey.lt m.smallestKey),
        t.smallestKey ≤ t.largestKey := fun t ht => hr t ((List.takeWhile_sublist _).subset ht)
    have hra : ∀ t ∈ (lm.tables m.level.toNat).dropWhile (fun t => t.smallestKey.lt m.smallestKey),
        t.smallestKey ≤ t.largestKey := fun t ht => hr t ((List.dropWhile_sublist _).subset ht)
    have hlt : ∀ t ∈ (lm.tables m.level.toNat).takeWhile (fun t => t.smallestKey.lt m.smallestKey),
        t.smallestKey < m.smallestKey := by
      intro t ht
      have htrue := List.mem_takeWhile_imp ht
      exact (ArenaEntry.lt_iff _ _).mp htrue
    rw [hsplit] at hpw
    obtain ⟨hpb, hpa, -⟩ := List.pairwise_append.mp hpw
    refine pairwise_insert hpw ?_ ?_
    · cases hlast : ((lm.tables m.level.toNat).takeWhile fun t => t.smallestKey.lt m.smallestKey).getLast? with
      | none =>
        rw [List.getLast?_eq_none_iff.mp hlast]
        simp
      | some previous => exact before_of_previous hlevel hpb hrb hm hlt hlast (hprevious _ hlast)
    · cases hd : (lm.tables m.level.toNat).dropWhile fun t => t.smallestKey.lt m.smallestKey with
      | nil => simp
      | cons next rest =>
        have hge := lt_eq_false_iff.mp (dropWhile_first hd)
        rw [hd] at hpa hra hnext
        exact after_of_next hlevel hpa hra rfl hge (hnext next rfl)

theorem Structured.addTable {lm lm' : LevelManager} (hs : Structured lm) {m : TableMeta}
    (h : lm.addTable m = .ok lm') : Structured lm' := by
  obtain ⟨hid, hcount, hrange, hfresh, -⟩ := LevelManager.addTable_ok h
  have hmem := LevelManager.mem_addTable h
  obtain ⟨before, after, hsplit, rfl, hpw⟩ := addTable_order hs h
  refine ⟨?_, ?_, ?_, ?_, ?_⟩
  · intro level t ht
    rcases (hmem level t).mp ht with ht | ⟨rfl, -⟩
    · exact hs.id_ne level t ht
    · exact hid
  · intro level t ht
    rcases (hmem level t).mp ht with ht | ⟨rfl, hl⟩
    · exact hs.level_eq level t ht
    · exact hl.symm
  · intro level t ht
    rcases (hmem level t).mp ht with ht | ⟨rfl, -⟩
    · exact hs.range level t ht
    · exact lt_eq_false_iff.mp hrange
  · intro level
    by_cases hl : m.level.toNat = level
    · subst hl
      rw [LevelManager.tables_setTables_self hcount]
      exact hpw
    · rw [LevelManager.tables_setTables_ne hl]
      exact hs.order level
  · have hperm : (lm.setTables m.level.toNat (before ++ m :: after)).levels.flatten.Perm
        (m :: lm.levels.flatten) := by
      rw [LevelManager.setTables_levels hcount]
      conv_rhs => rw [LevelManager.levels_eq hcount, hsplit]
      simp only [List.flatten_append, List.flatten_cons, List.append_assoc, List.cons_append]
      refine List.Perm.trans ?_ List.perm_middle
      refine List.Perm.append_left _ ?_
      exact List.perm_middle
    refine (hperm.map _).nodup_iff.mpr ?_
    rw [List.map_cons]
    refine List.nodup_cons.mpr ⟨fun hin => ?_, hs.ids⟩
    obtain ⟨t, ht, heq⟩ := List.mem_map.mp hin
    obtain ⟨level, ht⟩ := LevelManager.mem_flatten.mp ht
    exact hfresh level t ht heq

/-- Tables may leave a level. -/
theorem Structured.sublist {lm : LevelManager} (hs : Structured lm) {level : Nat} {ts : List TableMeta}
    (hts : ts.Sublist (lm.tables level)) : Structured (lm.setTables level ts) := by
  by_cases hcount : level < lm.levelCount
  · have hmem : ∀ l, ∀ t ∈ (lm.setTables level ts).tables l, t ∈ lm.tables l := by
      intro l t ht
      by_cases hl : level = l
      · subst hl
        rw [LevelManager.tables_setTables_self hcount] at ht
        exact hts.subset ht
      · rwa [LevelManager.tables_setTables_ne hl] at ht
    refine ⟨?_, ?_, ?_, ?_, ?_⟩
    · exact fun l t ht => hs.id_ne l t (hmem l t ht)
    · exact fun l t ht => hs.level_eq l t (hmem l t ht)
    · exact fun l t ht => hs.range l t (hmem l t ht)
    · intro l
      by_cases hl : level = l
      · subst hl
        rw [LevelManager.tables_setTables_self hcount]
        exact (hs.order _).sublist hts
      · rw [LevelManager.tables_setTables_ne hl]
        exact hs.order l
    · refine hs.ids.sublist (List.Sublist.map _ ?_)
      rw [LevelManager.setTables_levels hcount]
      conv_rhs => rw [LevelManager.levels_eq hcount]
      simp only [List.flatten_append, List.flatten_cons]
      exact List.Sublist.append_left (List.Sublist.append_right hts _) _
  · have hsame : lm.setTables level ts = lm := by
      unfold LevelManager.setTables
      rw [List.set_eq_of_length_le (Nat.le_of_not_lt hcount)]
    rw [hsame]
    exact hs

theorem Structured.removeTable {lm lm' : LevelManager} (hs : Structured lm) {tableId : UInt64} {level : UInt32}
    (h : lm.removeTable tableId level = .ok lm') : Structured lm' := by
  obtain ⟨-, -, -, rfl, -⟩ := LevelManager.removeTable_ok h
  exact hs.sublist List.eraseP_sublist

/-! ## Edits -/

/-- The removals and then the additions of an edit, one by one. -/
def EditTables (lm : LevelManager) (e : VersionEdit) (lm' : LevelManager) : Prop :=
  ∃ mid, e.deletedTables.foldlM (fun lm d => lm.removeTable d.tableId d.level) lm = Except.ok mid ∧
    e.newTables.foldlM (fun lm t => lm.addTable t) mid = Except.ok lm'

/-- Every step of a fold keeps a property, so the fold does. -/
theorem foldlM_keeps {α β : Type} {P : α → Prop} {f : α → β → Except Status α}
    (hf : ∀ a b a', P a → f a b = .ok a' → P a') {bs : List β} {a a' : α} (ha : P a)
    (h : bs.foldlM f a = Except.ok a') : P a' := by
  induction bs generalizing a with
  | nil =>
    cases h
    exact ha
  | cons b bs ih =>
    rw [List.foldlM_cons] at h
    obtain ⟨a₁, h1, h2⟩ := except_bind_ok h
    exact ih (hf a b a₁ ha h1) h2

theorem Structured.edit {lm lm' : LevelManager} (hs : Structured lm) {e : VersionEdit}
    (h : EditTables lm e lm') : Structured lm' := by
  obtain ⟨mid, hd, ha⟩ := h
  have hmid : Structured mid := foldlM_keeps (fun _ _ _ hs h => hs.removeTable h) hs hd
  exact foldlM_keeps (fun _ _ _ hs h => hs.addTable h) hmid ha

theorem Structured.stageApply {lm lm' : LevelManager} {c c' : StagedCounters} (hs : Structured lm)
    {e : VersionEdit} (h : stageApply lm c e = .ok (lm', c')) : Structured lm' :=
  hs.edit (stageApply_ok_iff.mp h).tables

theorem Structured.replay {n : Nat} {edits : List VersionEdit} {v : LevelManager × StagedCounters}
    (h : replay n edits = .ok v) : Structured v.1 :=
  foldlM_keeps (P := fun v : LevelManager × StagedCounters => Structured v.1)
    (fun _ _ _ hs h => hs.stageApply h) (structured_init n) h

/-! ## What `check_invariants` can still refuse -/

/-- The refusals of `check_invariants` that are about the counters. -/
def CounterError (lm : LevelManager) (c : StagedCounters) (e : Status) : Prop :=
  e = ⟨.invariantViolation, "next_table_id must never be zero"⟩ ∨
  e = ⟨.invariantViolation, "current_wal_id must never be zero"⟩ ∨
  e = ⟨.invariantViolation, "next_sequence_number must never be zero"⟩ ∨
  ∃ level, ∃ t ∈ lm.tables level, c.nextTableId.toNat ≤ t.tableId.toNat ∧
    e = ⟨.invariantViolation, "table id " ++ toString t.tableId ++ " is not below next_table_id "
      ++ toString c.nextTableId⟩

theorem checkTable_error {c : StagedCounters} {level : Nat} {previous : Option TableMeta} {t : TableMeta}
    (hid : t.tableId ≠ 0) (hlevel : t.level.toNat = level) (hr : t.smallestKey ≤ t.largestKey)
    (hp : ∀ p, previous = some p → LevelBefore level p t) {e : Status}
      (h : checkTable c level previous t = .error e) :
    c.nextTableId.toNat ≤ t.tableId.toNat ∧
      e = ⟨.invariantViolation, "table id " ++ toString t.tableId ++ " is not below next_table_id "
        ++ toString c.nextTableId⟩ := by
  by_cases hlt : t.tableId ≥ c.nextTableId
  · unfold checkTable at h
    rw [if_neg hid, if_neg (by simpa using hlevel), if_pos hlt] at h
    cases h
    exact ⟨uint64_le_iff.mp hlt, rfl⟩
  · have hok : TableOk c level previous t := by
      refine ⟨hid, hlevel, ?_, lt_eq_false_iff.mpr hr, fun p hprev => ?_⟩
      · rw [ge_iff_le, uint64_le_iff] at hlt
        omega
      · have hb := hp p hprev
        unfold LevelBefore at hb
        by_cases h0 : level = 0
        · rw [if_pos h0] at hb ⊢
          exact hb
        · rw [if_neg h0] at hb ⊢
          exact (ArenaEntry.lt_iff _ _).mpr hb
    rw [checkTable_ok_iff.mpr hok] at h
    cases h

theorem checkLevel_error {c : StagedCounters} {level : Nat} {previous : Option TableMeta} {ts : List TableMeta}
    (hid : ∀ t ∈ ts, t.tableId ≠ 0) (hlevel : ∀ t ∈ ts, t.level.toNat = level)
    (hr : ∀ t ∈ ts, t.smallestKey ≤ t.largestKey) (hpw : ts.Pairwise (LevelBefore level))
    (hp : ∀ p, previous = some p → ∀ t ∈ ts, LevelBefore level p t) {e : Status}
    (h : checkLevel c level previous ts = .error e) :
    ∃ t ∈ ts, c.nextTableId.toNat ≤ t.tableId.toNat ∧
      e = ⟨.invariantViolation, "table id " ++ toString t.tableId ++ " is not below next_table_id "
        ++ toString c.nextTableId⟩ := by
  induction ts generalizing previous with
  | nil => cases h
  | cons t ts ih =>
    obtain ⟨hfirst, hrest⟩ := List.pairwise_cons.mp hpw
    rw [checkLevel] at h
    cases hc : checkTable c level previous t with
    | error e' =>
      rw [hc] at h
      cases h
      obtain ⟨hle, he⟩ := checkTable_error (hid t (by simp)) (hlevel t (by simp)) (hr t (by simp))
        (fun p hprev => hp p hprev t (by simp)) hc
      exact ⟨t, by simp, hle, he⟩
    | ok u =>
      rw [hc, ok_bind] at h
      obtain ⟨t', ht', hrest'⟩ := ih (fun t ht => hid t (by simp [ht])) (fun t ht => hlevel t (by simp [ht]))
        (fun t ht => hr t (by simp [ht])) hrest (fun p hprev => by cases hprev; exact hfirst) h
      exact ⟨t', by simp [ht'], hrest'⟩

theorem checkLevels_error {c : StagedCounters} {level : Nat} {levels : List (List TableMeta)} {e : Status}
    (h : checkLevels c level levels = .error e) :
    ∃ i, i < levels.length ∧ checkLevel c (level + i) none (levels.getD i []) = .error e := by
  induction levels generalizing level with
  | nil => cases h
  | cons ts levels ih =>
    rw [checkLevels] at h
    cases hc : checkLevel c level none ts with
    | error e' =>
      rw [hc] at h
      cases h
      exact ⟨0, by simp, by simpa using hc⟩
    | ok u =>
      rw [hc, ok_bind] at h
      obtain ⟨i, hi, hrest⟩ := ih h
      refine ⟨i + 1, by simpa using hi, ?_⟩
      rw [← Nat.add_assoc, Nat.add_right_comm]
      exact hrest

/-- On levels in order only the checks on the counters can fail. -/
theorem checkInvariants_error {lm : LevelManager} {c : StagedCounters} (hs : Structured lm) {e : Status}
    (h : checkInvariants lm c = .error e) : CounterError lm c e := by
  unfold checkInvariants at h
  split at h
  · cases h
    exact .inl rfl
  split at h
  · cases h
    exact .inr (.inl rfl)
  split at h
  · cases h
    exact .inr (.inr (.inl rfl))
  obtain ⟨i, -, hi⟩ := checkLevels_error h
  rw [Nat.zero_add] at hi
  obtain ⟨t, ht, hrest⟩ := checkLevel_error (hs.id_ne i) (hs.level_eq i) (hs.range i) (hs.order i)
    (fun p hp => by cases hp) hi
  exact .inr (.inr (.inr ⟨i, t, ht, hrest⟩))

/-- Levels in order pass `check_invariants` with counters above their ids. -/
theorem Structured.manifestInv {lm : LevelManager} {c : StagedCounters} (hs : Structured lm)
    (hnext : c.nextTableId ≠ 0) (hwal : c.currentWalId ≠ 0) (hseq : c.nextSequenceNumber ≠ 0)
    (hids : ∀ level, ∀ t ∈ lm.tables level, t.tableId.toNat < c.nextTableId.toNat) : ManifestInv lm c := by
  refine ⟨hnext, hwal, hseq, fun level => ?_⟩
  refine checkLevel_ok_iff.mp ?_
  cases hcheck : checkLevel c level none (lm.tables level) with
  | ok u => rfl
  | error e =>
    obtain ⟨t, ht, hle, -⟩ := checkLevel_error (hs.id_ne level) (hs.level_eq level) (hs.range level)
      (hs.order level) (fun p hp => by cases hp) hcheck
    exact absurd (hids level t ht) (Nat.not_lt.mpr hle)

/-! ## The catalog -/

structure Catalog (lm : LevelManager) (c : StagedCounters) : Prop where
  id_ne : ∀ level, ∀ t ∈ lm.tables level, t.tableId ≠ 0
  id_lt : ∀ level, ∀ t ∈ lm.tables level, t.tableId.toNat < c.nextTableId.toNat
  ids : (lm.levels.flatten.map TableMeta.tableId).Nodup
  level_eq : ∀ level, ∀ t ∈ lm.tables level, t.level.toNat = level
  range : ∀ level, ∀ t ∈ lm.tables level, t.smallestKey ≤ t.largestKey
  newestFirst : (lm.tables 0).Pairwise fun t u => u.tableId.toNat < t.tableId.toNat
  sorted : ∀ level, level ≠ 0 → (lm.tables level).Pairwise fun t u => t.smallestKey < u.smallestKey
  disjoint : ∀ level, level ≠ 0 → (lm.tables level).Pairwise fun t u => t.largestKey < u.smallestKey
  nextTableId : c.nextTableId ≠ 0
  currentWalId : c.currentWalId ≠ 0
  nextSequenceNumber : c.nextSequenceNumber ≠ 0

theorem catalog_of_structured {lm : LevelManager} {c : StagedCounters} (hs : Structured lm)
    (hi : ManifestInv lm c) : Catalog lm c := by
  have hdisjoint : ∀ level, level ≠ 0 → (lm.tables level).Pairwise fun t u => t.largestKey < u.smallestKey :=
    fun level hlevel => (hi.levels level).ascending hlevel
  refine ⟨hs.id_ne, fun level t ht => ((hi.levels level).mem ht).2.2.1, hs.ids, hs.level_eq, hs.range, ?_, ?_,
    hdisjoint, hi.nextTableId, hi.currentWalId, hi.nextSequenceNumber⟩
  · refine (hs.order 0).imp fun htu => ?_
    unfold LevelBefore at htu
    rwa [if_pos rfl] at htu
  · intro level hlevel
    refine (hdisjoint level hlevel).imp_of_mem fun ht _ htu => ?_
    exact (hs.range level _ ht).trans_lt htu

theorem Catalog.structured {lm : LevelManager} {c : StagedCounters} (h : Catalog lm c) : Structured lm := by
  refine ⟨h.id_ne, h.level_eq, h.range, fun level => ?_, h.ids⟩
  by_cases h0 : level = 0
  · subst h0
    refine h.newestFirst.imp fun htu => ?_
    unfold LevelBefore
    rwa [if_pos rfl]
  · refine (h.disjoint level h0).imp fun htu => ?_
    unfold LevelBefore
    rwa [if_neg h0]

theorem Catalog.inv {lm : LevelManager} {c : StagedCounters} (h : Catalog lm c) : ManifestInv lm c :=
  h.structured.manifestInv h.nextTableId h.currentWalId h.nextSequenceNumber h.id_lt

/-! ## Calls -/

section

variable [Zlib] {s t : ManifestState}

omit [Zlib] in
theorem SameVersion.refl (s : ManifestState) : SameVersion s s := ⟨rfl, rfl⟩

omit [Zlib] in
theorem failPoisoned_version (e : Status) (h : SameVersion s t) :
    Ends (fun _ => SameVersion s) (SameVersion s) (SameVersion s) (failPoisoned e t) := h

omit [Zlib] in
theorem syncOrPoison_version (o : Option Status) (h : SameVersion s t) :
    Ends (fun _ => SameVersion s) (SameVersion s) (SameVersion s) (syncOrPoison o t) := by
  cases o with
  | none => exact h
  | some e => exact failPoisoned_version e h

omit [Zlib] in
theorem failOn_version (o : Option Status) (h : SameVersion s t) :
    Ends (fun _ => SameVersion s) (SameVersion s) (SameVersion s) (failOn o t) := by
  cases o with
  | none => exact h
  | some e => exact h

omit [Zlib] in
/-- Writing to the file touches neither levels nor counters. -/
theorem runWriter_version (io : ManifestFaults) (m : WriterM Status Unit) (h : SameVersion s t) :
    Ends (fun _ => SameVersion s) (SameVersion s) (SameVersion s) (orElse (runWriter io m) failPoisoned t) := by
  refine Ends.orElse ?_ fun e t' ht' => failPoisoned_version e ht'
  refine ends_of_state ?_
  exact h

theorem appendPrepared_version (io : ManifestFaults) (edit : VersionEdit) (h : SameVersion s t) :
    Ends (fun _ => SameVersion s) (SameVersion s) (SameVersion s) (Manifest.appendPrepared io edit t) := by
  refine ends_get (ends_guard (fun _ => h) fun _ => ends_guard (fun _ => h) fun _ => ?_)
  refine Ends.bind (R := fun _ => SameVersion s) ?_ fun _ t' h' => runWriter_version io edit.write h'
  rcases Manifest.checkPosition_cases io t with ⟨hpos, -⟩ | ⟨e, hpos⟩
  · rw [hpos]
    exact h
  · rw [hpos]
    exact h

/-- The levels and counters of `t` are those of `s` with an edit staged. -/
def PublishedEdit (s t : ManifestState) : Prop :=
  ∃ edit, stageApply s.levels s.manifest.counters edit = .ok (t.levels, t.manifest.counters)

theorem commit_version (io : ManifestFaults) (edit : VersionEdit) (s : ManifestState) :
    Ends (fun _ => PublishedEdit s) (SameVersion s) (SameVersion s) (Manifest.commit io edit s) := by
  have h := SameVersion.refl s
  refine ends_get (ends_guard (fun _ => h) fun _ => ends_guard (fun _ => h) fun _ => ?_)
  refine ends_lift_bind (fun _ _ => h) fun staged hst => ends_lift_bind (fun _ _ => h) fun _ _ => ?_
  refine (appendPrepared_version io edit h).bind fun _ s₁ h₁ => ?_
  refine (syncOrPoison_version io.sync h₁).bind fun _ s₂ _ => ?_
  exact ⟨edit, hst⟩

omit [Zlib] in
theorem apply_version (edit : VersionEdit) (s : ManifestState) :
    Ends (fun _ => PublishedEdit s) (SameVersion s) (SameVersion s) (Manifest.apply edit s) := by
  have h := SameVersion.refl s
  refine ends_get (ends_lift_bind (fun _ _ => h) fun staged hst => ?_)
  exact ⟨edit, hst⟩

/-- The next table id is one higher, and the old one was not the last. -/
def AllocatedId (s t : ManifestState) : Prop :=
  s.manifest.counters.nextTableId.toNat ≠ 2 ^ 64 - 1 ∧ t.levels = s.levels ∧
    t.manifest.counters = { s.manifest.counters with nextTableId := s.manifest.counters.nextTableId + 1 }

omit [Zlib] in
theorem allocate_version (s : ManifestState) :
    Ends (fun _ => AllocatedId s) (SameVersion s) (SameVersion s) (Manifest.allocateTableId s) := by
  have h := SameVersion.refl s
  refine ends_get (ends_guard (fun _ => h) fun hid => ?_)
  exact ⟨by simpa using hid, rfl, rfl⟩

theorem openOrCreate_version (io : ManifestFaults) (s : ManifestState) :
    Ends (fun _ => SameVersion s) (SameVersion s) (SameVersion s) (Manifest.openOrCreate io s) := by
  have h := SameVersion.refl s
  refine ends_get (ends_guard (fun _ => h) fun _ => ?_)
  refine (failOn_version io.access h).bind fun _ s₁ h₁ => ?_
  refine ends_guard (fun _ => h₁) fun _ => ends_modify_bind ?_
  refine Ends.bind (R := fun _ => SameVersion s) (runWriter_version io _ ?_) fun _ s₂ h₂ => ?_
  · exact ⟨h₁.1, h₁.2⟩
  · exact syncOrPoison_version io.sync h₂

omit [Zlib] in
theorem prepareForAppend_version (io : ManifestFaults) (s : ManifestState) :
    Ends (fun _ => SameVersion s) (SameVersion s) (SameVersion s) (Manifest.prepareForAppend io s) := by
  have h := SameVersion.refl s
  refine ends_get (ends_guard (fun _ => h) fun _ => ends_modify_bind ?_)
  by_cases htail : s.manifest.recoverableTail = true
  · rw [if_pos htail]
    unfold Manifest.truncateTail
    refine Ends.bind (R := fun _ => SameVersion s) (failOn_version io.access ?_) fun _ s₁ h₁ => ?_
    · exact ⟨rfl, rfl⟩
    · exact ⟨h₁.1, h₁.2⟩
  · rw [if_neg htail]
    exact ⟨rfl, rfl⟩

omit [Zlib] in
theorem attachWriter_version (io : ManifestFaults) (opened : Bool) (s : ManifestState) :
    Ends (fun _ => SameVersion s) (SameVersion s) (SameVersion s) (Manifest.attachWriter io opened s) := by
  have h := SameVersion.refl s
  refine ends_get (ends_guard (fun _ => h) fun _ => ends_guard (fun _ => h) fun _ => ?_)
  refine ends_guard (fun _ => h) fun _ => ?_
  refine (failOn_version io.position h).bind fun _ s₁ h₁ => ?_
  exact ends_guard (fun _ => h₁) fun _ => ⟨h₁.1, h₁.2⟩

omit [Zlib] in
theorem sync_version (io : ManifestFaults) (s : ManifestState) :
    Ends (fun _ => SameVersion s) (SameVersion s) (SameVersion s) (Manifest.sync io s) := by
  have h := SameVersion.refl s
  refine ends_get (ends_guard (fun _ => h) fun _ => ends_guard (fun _ => h) fun _ => ?_)
  exact syncOrPoison_version io.sync h

/-- **What a call can do to levels and counters**: nothing, stage one edit, or allocate an id. -/
theorem op_version (op : Manifest.Op) (s : ManifestState) :
    SameVersion s (op.run s).2 ∨ PublishedEdit s (op.run s).2 ∨ AllocatedId s (op.run s).2 := by
  have hsame : ∀ {r : Outcome Status Unit × ManifestState},
      Ends (fun _ => SameVersion s) (SameVersion s) (SameVersion s) r →
      SameVersion s r.2 ∨ PublishedEdit s r.2 ∨ AllocatedId s r.2 := fun h => .inl h.state
  have hedit : ∀ {r : Outcome Status Unit × ManifestState},
      Ends (fun _ => PublishedEdit s) (SameVersion s) (SameVersion s) r →
      SameVersion s r.2 ∨ PublishedEdit s r.2 ∨ AllocatedId s r.2 := by
    intro r h
    refine Ends.state (I := fun t => SameVersion s t ∨ PublishedEdit s t ∨ AllocatedId s t) ?_
    exact h.mono (fun _ _ h => .inr (.inl h)) (fun _ h => .inl h) fun _ h => .inl h
  cases op with
  | commit io edit => exact hedit (commit_version io edit s)
  | sync io => exact hsame (sync_version io s)
  | apply edit => exact hedit (apply_version edit s)
  | allocateTableId =>
    have halloc : Ends (fun _ : Unit => AllocatedId s) (SameVersion s) (SameVersion s)
        ((do let _ ← Manifest.allocateTableId; pure () : ManifestM Unit) s) :=
      (allocate_version s).bind fun _ _ h => h
    refine Ends.state (I := fun t => SameVersion s t ∨ PublishedEdit s t ∨ AllocatedId s t) ?_
    exact halloc.mono (fun _ _ h => .inr (.inr h)) (fun _ h => .inl h) fun _ h => .inl h
  | openOrCreate io => exact hsame (openOrCreate_version io s)
  | prepareForAppend io => exact hsame (prepareForAppend_version io s)
  | attachWriter io opened => exact hsame (attachWriter_version io opened s)

/-! ## Runs -/

/-- A call on the manifest object, or its replacement by a loaded one. -/
inductive CatalogOp where
  | call (op : Manifest.Op)
  | load (path : String) (opened : Except Status ReadableFile)

def CatalogOp.run (op : CatalogOp) (s : ManifestState) : ManifestState :=
  match op with
  | .call op => (op.run s).2
  | .load path opened =>
    match Manifest.load path opened s.levels with
    | (.ok m, lm) => ⟨m, opened.toOption.map ReadableFile.bytes, lm⟩
    | (_, lm) => { s with levels := lm }

def runCatalog (ops : List CatalogOp) (s : ManifestState) : ManifestState := ops.foldl (fun s op => op.run s) s

/-- What the loop of `load` recovers is the replay of the edits it read. -/
theorem loadLoop_replay {file : ReadableFile} {fileSize fuel off : Nat} {lm : LevelManager} {c : StagedCounters}
    {r : Manifest.Recovery} (h : Manifest.loadLoop file fileSize fuel off lm c = .ok r) :
    ∃ edits, replayFrom (lm, c) edits = .ok (r.levels, r.counters) := by
  induction fuel generalizing off lm c with
  | zero => cases h
  | succ fuel ih =>
    unfold Manifest.loadLoop at h
    split at h
    · cases h
      exact ⟨[], rfl⟩
    · split at h
      · split at h
        · cases h
          exact ⟨[], rfl⟩
        · cases h
      · next edit off' hload =>
        split at h
        · cases h
        · next lm' c' hst =>
          obtain ⟨edits, hedits⟩ := ih h
          refine ⟨edit :: edits, ?_⟩
          rw [replayFrom, List.foldlM_cons, hst]
          exact hedits

theorem load_ok {path : String} {opened : Except Status ReadableFile} {lm lm' : LevelManager} {m : Manifest}
    (h : Manifest.load path opened lm = (.ok m, lm')) :
    ∃ n edits, replay n edits = .ok (lm', m.counters) ∧ checkInvariants lm' m.counters = .ok () := by
  obtain ⟨file, lm₁, hf, h⟩ := bind_eq_ok h
  obtain ⟨size, lm₂, hsize, h⟩ := bind_eq_ok h
  obtain ⟨u, lm₃, hens, h⟩ := bind_eq_ok h
  obtain ⟨header, lm₄, hhead, h⟩ := bind_eq_ok h
  obtain ⟨lm₅, lm₆, hget, h⟩ := bind_eq_ok h
  obtain ⟨r, lm₇, hloop, h⟩ := bind_eq_ok h
  obtain ⟨u', lm₈, hcheck, h⟩ := bind_eq_ok h
  obtain ⟨u'', lm₉, hmod, h⟩ := bind_eq_ok h
  cases hmod
  cases h
  refine ⟨lm₅.levelCount, ?_⟩
  have hloop' : Manifest.loadLoop file size (size + 1) header.2 (LevelManager.init lm₅.levelCount) {} = .ok r := by
    cases hx : Manifest.loadLoop file size (size + 1) header.2 (LevelManager.init lm₅.levelCount) {} with
    | error e =>
      rw [hx] at hloop
      cases hloop
    | ok r' =>
      rw [hx] at hloop
      cases hloop
      rfl
  have hcheck' : checkInvariants r.levels r.counters = .ok () := by
    cases hx : checkInvariants r.levels r.counters with
    | error e =>
      rw [hx] at hcheck
      cases hcheck
    | ok _ => rfl
  obtain ⟨edits, hedits⟩ := loadLoop_replay hloop'
  exact ⟨edits, hedits, hcheck'⟩

theorem load_not_crash (path : String) (opened : Except Status ReadableFile) (lm lm' : LevelManager) :
    Manifest.load path opened lm ≠ (.crash, lm') := by
  intro h
  have hends : Ends (fun _ _ => True) (fun _ => True) (fun _ => False) (Manifest.load path opened lm) := by
    refine ends_lift_bind (fun _ _ => trivial) fun file _ => ends_lift_bind (fun _ _ => trivial) fun size _ => ?_
    refine ends_guard (fun _ => trivial) fun _ => ends_lift_bind (fun _ _ => trivial) fun header _ => ends_get ?_
    refine ends_lift_bind (fun _ _ => trivial) fun r _ => ends_lift_bind (fun _ _ => trivial) fun _ _ => ?_
    exact ends_modify_bind trivial
  exact hends.crash h

/-- The invariant of a run. -/
def Consistent (s : ManifestState) : Prop :=
  Structured s.levels ∧ ManifestInv s.levels s.manifest.counters

theorem consistent_op (op : Manifest.Op) {s : ManifestState} (h : Consistent s) : Consistent (op.run s).2 := by
  rcases op_version op s with ⟨hl, hc⟩ | ⟨edit, hst⟩ | ⟨hid, hl, hc⟩
  · exact ⟨hl ▸ h.1, hl ▸ hc ▸ h.2⟩
  · exact ⟨h.1.stageApply hst, (stageApply_ok_iff.mp hst).inv⟩
  · have hlt := s.manifest.counters.nextTableId.toNat_lt
    have hnext : (s.manifest.counters.nextTableId + 1).toNat = s.manifest.counters.nextTableId.toNat + 1 := by
      rw [UInt64.toNat_add, UInt64.toNat_one]
      omega
    refine ⟨hl ▸ h.1, ?_⟩
    rw [hl, hc]
    refine ⟨?_, h.2.currentWalId, h.2.nextSequenceNumber, fun level => ?_⟩
    · intro h0
      have := congrArg UInt64.toNat h0
      rw [hnext] at this
      exact absurd this (by simp)
    · refine (h.2.levels level).congr fun t ht => ?_
      have := ((h.2.levels level).mem ht).2.2.1
      show t.tableId.toNat < (s.manifest.counters.nextTableId + 1).toNat
      omega

theorem consistent_load (path : String) (opened : Except Status ReadableFile) {s : ManifestState}
    (h : Consistent s) : Consistent ((CatalogOp.load path opened).run s) := by
  show Consistent (match Manifest.load path opened s.levels with
    | (.ok m, lm) => ⟨m, opened.toOption.map ReadableFile.bytes, lm⟩
    | (_, lm) => { s with levels := lm })
  cases hload : Manifest.load path opened s.levels with
  | mk r lm =>
    cases r with
    | ok m =>
      obtain ⟨n, edits, hreplay, hcheck⟩ := load_ok hload
      exact ⟨Structured.replay hreplay, checkInvariants_ok_iff.mp hcheck⟩
    | err e =>
      have hlm := Manifest.load_failed hload
      subst hlm
      exact h
    | crash => exact absurd hload (load_not_crash path opened s.levels lm)

theorem consistent_run (ops : List CatalogOp) {s : ManifestState} (h : Consistent s) :
    Consistent (runCatalog ops s) := by
  induction ops generalizing s with
  | nil => exact h
  | cons op ops ih =>
    refine ih ?_
    cases op with
    | call op => exact consistent_op op h
    | load path opened => exact consistent_load path opened h

/-- No counter is lower. -/
def CountersLe (c c' : StagedCounters) : Prop :=
  c.nextTableId.toNat ≤ c'.nextTableId.toNat ∧ c.currentWalId.toNat ≤ c'.currentWalId.toNat ∧
    c.nextSequenceNumber.toNat ≤ c'.nextSequenceNumber.toNat

theorem countersLe_op (op : Manifest.Op) (s : ManifestState) :
    CountersLe s.manifest.counters (op.run s).2.manifest.counters := by
  rcases op_version op s with ⟨-, hc⟩ | ⟨edit, hst⟩ | ⟨hid, -, hc⟩
  · rw [hc]
    exact ⟨Nat.le_refl _, Nat.le_refl _, Nat.le_refl _⟩
  · have h := stageApply_ok_iff.mp hst
    exact ⟨(stageTableId_ok h.nextTableId).1, (stageCounter_ok h.currentWalId).2,
      (stageCounter_ok h.nextSequenceNumber).2⟩
  · rw [hc]
    refine ⟨?_, Nat.le_refl _, Nat.le_refl _⟩
    have hlt := s.manifest.counters.nextTableId.toNat_lt
    rw [UInt64.toNat_add, UInt64.toNat_one]
    omega

/-- **The level catalog.**  Whatever is called on a manifest and whatever is loaded into it, the
catalog holds, no call lowers a counter, and on the levels of the run, or on those a load
passes through, the tables of an edit that could be removed and added keep the structure, so
that the structural checks of `check_invariants` never fail. -/
theorem runCatalog_catalog (n : Nat) (path : String) (file : Option (List UInt8)) (ops : List CatalogOp) :
    Catalog (runCatalog ops ⟨{ path }, file, LevelManager.init n⟩).levels
        (runCatalog ops ⟨{ path }, file, LevelManager.init n⟩).manifest.counters ∧
      (∀ op : Manifest.Op, CountersLe (runCatalog ops ⟨{ path }, file, LevelManager.init n⟩).manifest.counters
        (op.run (runCatalog ops ⟨{ path }, file, LevelManager.init n⟩)).2.manifest.counters) ∧
      ∀ lm, (lm = (runCatalog ops ⟨{ path }, file, LevelManager.init n⟩).levels ∨
          ∃ m edits c, replay m edits = .ok (lm, c)) →
        ∀ edit lm', EditTables lm edit lm' →
          Structured lm' ∧ ∀ c e, checkInvariants lm' c = .error e → CounterError lm' c e := by
  have hcons : Consistent (runCatalog ops ⟨{ path }, file, LevelManager.init n⟩) :=
    consistent_run ops ⟨structured_init n, manifestInv_init n⟩
  refine ⟨catalog_of_structured hcons.1 hcons.2, fun op => countersLe_op op _, ?_⟩
  intro lm hlm edit lm' hedit
  have hlm' : Structured lm := by
    rcases hlm with rfl | ⟨m, edits, c, hreplay⟩
    · exact hcons.1
    · exact Structured.replay hreplay
  exact ⟨hlm'.edit hedit, fun c e he => checkInvariants_error (hlm'.edit hedit) he⟩

end

end Kvdb
