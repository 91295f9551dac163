import Kvdb.Manifest.Manifest

/-!
# What staging an edit does

`stageApply_ok_iff` takes a staged edit apart, and `stageApply_replay` says that the
same edit is staged with the same result from a smaller `next_table_id`, as long
as that is above every installed table: recovery starts from the default
counters, and ids that were allocated and never recorded are not in the file.
-/

namespace Kvdb

open Faulty

/-! ## Counters -/

theorem uint64_le_iff {a b : UInt64} : a ≤ b ↔ a.toNat ≤ b.toNat := UInt64.le_iff_toNat_le

theorem uint64_lt_iff {a b : UInt64} : a < b ↔ a.toNat < b.toNat := UInt64.lt_iff_toNat_lt

theorem toNat_max (a b : UInt64) : (max a b).toNat = max a.toNat b.toNat := by
  show (if a ≤ b then b else a).toNat = _
  by_cases h : a ≤ b
  · rw [if_pos h]
    rw [uint64_le_iff] at h
    omega
  · rw [if_neg h]
    rw [uint64_le_iff] at h
    omega

theorem toNat_foldl_max (ids : List UInt64) (a : UInt64) :
    (ids.foldl max a).toNat = (ids.map UInt64.toNat).foldl max a.toNat := by
  induction ids generalizing a with
  | nil => rfl
  | cons id ids ih =>
    rw [List.foldl_cons, ih, toNat_max, List.map_cons, List.foldl_cons]

theorem le_foldl_max (ns : List Nat) (a : Nat) : a ≤ ns.foldl max a ∧ ∀ n ∈ ns, n ≤ ns.foldl max a := by
  induction ns generalizing a with
  | nil => exact ⟨Nat.le_refl a, by simp⟩
  | cons n ns ih =>
    obtain ⟨h1, h2⟩ := ih (max a n)
    rw [List.foldl_cons]
    refine ⟨by omega, ?_⟩
    intro m hm
    rcases List.mem_cons.mp hm with rfl | hm
    · omega
    · exact h2 m hm

theorem le_maxTableIdSeen {e : VersionEdit} {id : UInt64} (h : id ∈ e.tableIds) :
    id.toNat ≤ (maxTableIdSeen e).toNat := by
  rw [maxTableIdSeen, toNat_foldl_max]
  exact (le_foldl_max _ _).2 _ (List.mem_map_of_mem h)

theorem stageCounter_ok {value : Option UInt64} {name : String} {current next : UInt64}
    (h : stageCounter value name current = .ok next) :
    next = value.getD current ∧ current.toNat ≤ next.toNat := by
  unfold stageCounter at h
  cases value with
  | none =>
    cases h
    exact ⟨rfl, Nat.le_refl _⟩
  | some v =>
    simp only at h
    split at h
    · cases h
    · next hlt =>
      cases h
      rw [uint64_lt_iff] at hlt
      exact ⟨rfl, by omega⟩

/-- The table counter never falls, and when the edit does not give it, it is above the ids of
the edit. -/
theorem stageTableId_ok {e : VersionEdit} {next next' : UInt64} (h : stageTableId e next = .ok next') :
    next.toNat ≤ next'.toNat ∧
      (e.nextTableId = some next' ∨
        (e.nextTableId = none ∧ (maxTableIdSeen e).toNat < 2 ^ 64 - 1 ∧
          next'.toNat = max next.toNat ((maxTableIdSeen e).toNat + 1))) := by
  unfold stageTableId at h
  cases hv : e.nextTableId with
  | some v =>
    rw [hv] at h
    simp only at h
    split at h
    · cases h
    · next hlt =>
      cases h
      rw [uint64_lt_iff] at hlt
      exact ⟨by omega, .inl rfl⟩
  | none =>
    rw [hv] at h
    have hm := (maxTableIdSeen e).toNat_lt
    have hn := next.toNat_lt
    simp only [ge_iff_le, uint64_le_iff] at h
    split at h
    · split at h
      · cases h
      · cases h
        have hadd : (maxTableIdSeen e + 1).toNat = (maxTableIdSeen e).toNat + 1 := by
          rw [UInt64.toNat_add, UInt64.toNat_one]
          omega
        exact ⟨by omega, .inr ⟨rfl, by omega, by omega⟩⟩
    · cases h
      exact ⟨Nat.le_refl _, .inr ⟨rfl, by omega, by omega⟩⟩

/-- From a smaller counter the same edit is staged to a counter that is not larger. -/
theorem stageTableId_mono {e : VersionEdit} {a b b' : UInt64} (hab : a.toNat ≤ b.toNat)
    (h : stageTableId e b = .ok b') : ∃ a', stageTableId e a = .ok a' ∧ a'.toNat ≤ b'.toNat := by
  obtain ⟨hle, hcase⟩ := stageTableId_ok h
  rcases hcase with hv | ⟨hv, hmax, heq⟩
  · refine ⟨b', ?_, Nat.le_refl _⟩
    simp only [stageTableId, hv]
    rw [if_neg (by rw [uint64_lt_iff]; omega)]
  · simp only [stageTableId, hv, ge_iff_le, uint64_le_iff]
    by_cases hc : a.toNat ≤ (maxTableIdSeen e).toNat
    · refine ⟨maxTableIdSeen e + 1, ?_, ?_⟩
      · rw [if_pos hc, if_neg (by omega)]
      · rw [UInt64.toNat_add, UInt64.toNat_one]
        omega
    · exact ⟨a, if_neg hc, by omega⟩

/-! ## Checks on the levels -/

/-- What `checkTable` accepts. -/
structure TableOk (c : StagedCounters) (level : Nat) (previous : Option TableMeta) (t : TableMeta) : Prop where
  id_ne : t.tableId ≠ 0
  level_eq : t.level.toNat = level
  id_lt : t.tableId.toNat < c.nextTableId.toNat
  range : t.largestKey.lt t.smallestKey = false
  order : ∀ p, previous = some p →
    if level = 0 then t.tableId.toNat < p.tableId.toNat else p.largestKey.lt t.smallestKey = true

theorem checkTable_ok_iff {c : StagedCounters} {level : Nat} {previous : Option TableMeta} {t : TableMeta} :
    checkTable c level previous t = .ok () ↔ TableOk c level previous t := by
  constructor
  · intro h
    unfold checkTable at h
    split at h
    · cases h
    next h0 =>
    split at h
    · cases h
    next hl =>
    split at h
    · cases h
    next hid =>
    split at h
    · cases h
    next hr =>
    refine ⟨h0, by simpa using hl, by simpa [uint64_le_iff] using hid, by simpa using hr, ?_⟩
    intro p hp
    subst hp
    simp only at h
    split at h
    · next hz =>
      rw [if_pos hz]
      split at h
      · cases h
      · next hle => simpa [uint64_le_iff] using hle
    · next hz =>
      rw [if_neg hz]
      split at h
      · cases h
      · next hlt => simpa using hlt
  · rintro ⟨h0, hl, hid, hr, ho⟩
    have hid' : ¬ t.tableId ≥ c.nextTableId := by
      rw [ge_iff_le, uint64_le_iff]
      omega
    unfold checkTable
    rw [if_neg h0, if_neg (by simpa using hl), if_neg hid', if_neg (by simp [hr])]
    cases previous with
    | none => rfl
    | some p =>
      have hp := ho p rfl
      simp only
      split
      · next hz =>
        rw [if_pos hz] at hp
        rw [if_neg (by rw [uint64_le_iff]; omega)]
      · next hz =>
        rw [if_neg hz] at hp
        rw [if_neg (by simp [hp])]

/-- Each table of a level passes the checks against the one before it. -/
def LevelOk (c : StagedCounters) (level : Nat) : Option TableMeta → List TableMeta → Prop
  | _, [] => True
  | previous, t :: ts => TableOk c level previous t ∧ LevelOk c level (some t) ts

theorem checkLevel_ok_iff {c : StagedCounters} {level : Nat} {previous : Option TableMeta}
    {ts : List TableMeta} : checkLevel c level previous ts = .ok () ↔ LevelOk c level previous ts := by
  induction ts generalizing previous with
  | nil => simp [checkLevel, LevelOk]
  | cons t ts ih =>
    rw [checkLevel, LevelOk, ← checkTable_ok_iff, ← ih]
    constructor
    · intro h
      obtain ⟨_, h1, h2⟩ := except_bind_ok h
      exact ⟨h1, h2⟩
    · rintro ⟨h1, h2⟩
      rw [h1, ok_bind, h2]

theorem checkLevels_ok_iff {c : StagedCounters} {level : Nat} {levels : List (List TableMeta)} :
    checkLevels c level levels = .ok () ↔
      ∀ i, i < levels.length → LevelOk c (level + i) none (levels.getD i []) := by
  induction levels generalizing level with
  | nil => simp [checkLevels]
  | cons ts levels ih =>
    rw [checkLevels]
    constructor
    · intro h i hi
      obtain ⟨_, h1, h2⟩ := except_bind_ok h
      cases i with
      | zero => exact checkLevel_ok_iff.mp h1
      | succ i =>
        have hrest := ih.mp h2 i (by simpa using hi)
        rw [Nat.add_right_comm] at hrest
        exact hrest
    · intro h
      have h0 : checkLevel c level none ts = .ok () := checkLevel_ok_iff.mpr (h 0 (by simp))
      rw [h0, ok_bind]
      refine ih.mpr fun i hi => ?_
      have hrest := h (i + 1) (by simpa using hi)
      rw [← Nat.add_assoc, Nat.add_right_comm] at hrest
      exact hrest

/-- `check_invariants`, as a proposition. -/
structure ManifestInv (lm : LevelManager) (c : StagedCounters) : Prop where
  nextTableId : c.nextTableId ≠ 0
  currentWalId : c.currentWalId ≠ 0
  nextSequenceNumber : c.nextSequenceNumber ≠ 0
  levels : ∀ level, LevelOk c level none (lm.tables level)

theorem checkInvariants_ok_iff {lm : LevelManager} {c : StagedCounters} :
    checkInvariants lm c = .ok () ↔ ManifestInv lm c := by
  constructor
  · intro h
    unfold checkInvariants at h
    split at h
    · cases h
    next h1 =>
    split at h
    · cases h
    next h2 =>
    split at h
    · cases h
    next h3 =>
    refine ⟨h1, h2, h3, fun level => ?_⟩
    by_cases hlt : level < lm.levels.length
    · have hlevel := checkLevels_ok_iff.mp h level hlt
      rw [Nat.zero_add] at hlevel
      exact hlevel
    · have hnil : lm.tables level = [] := by
        rw [LevelManager.tables, List.getD_eq_getElem?_getD, List.getElem?_eq_none (by omega)]
        rfl
      rw [hnil]
      trivial
  · rintro ⟨h1, h2, h3, hl⟩
    rw [checkInvariants, if_neg h1, if_neg h2, if_neg h3]
    refine checkLevels_ok_iff.mpr fun i _ => ?_
    rw [Nat.zero_add]
    exact hl i

theorem LevelOk.mem {c : StagedCounters} {level : Nat} {previous : Option TableMeta} {ts : List TableMeta}
    (h : LevelOk c level previous ts) {t : TableMeta} (ht : t ∈ ts) :
    t.tableId ≠ 0 ∧ t.level.toNat = level ∧ t.tableId.toNat < c.nextTableId.toNat ∧
      t.largestKey.lt t.smallestKey = false := by
  induction ts generalizing previous with
  | nil => cases ht
  | cons t' ts ih =>
    obtain ⟨h1, h2⟩ := h
    rcases List.mem_cons.mp ht with rfl | ht
    · exact ⟨h1.id_ne, h1.level_eq, h1.id_lt, h1.range⟩
    · exact ih h2 ht

/-- Only the bound on the ids depends on the counters. -/
theorem LevelOk.congr {c c' : StagedCounters} {level : Nat} {previous : Option TableMeta} {ts : List TableMeta}
    (h : LevelOk c level previous ts) (hid : ∀ t ∈ ts, t.tableId.toNat < c'.nextTableId.toNat) :
    LevelOk c' level previous ts := by
  induction ts generalizing previous with
  | nil => trivial
  | cons t ts ih =>
    obtain ⟨h1, h2⟩ := h
    exact ⟨{ h1 with id_lt := hid t (by simp) }, ih h2 fun t' ht' => hid t' (by simp [ht'])⟩

theorem manifestInv_init (n : Nat) : ManifestInv (LevelManager.init n) {} := by
  refine ⟨by decide, by decide, by decide, fun level => ?_⟩
  rw [LevelManager.tables_init]
  trivial

/-! ## Staging -/

theorem mem_removeTables {ds : List DeletedTable} {lm lm' : LevelManager}
    (h : ds.foldlM (fun lm d => lm.removeTable d.tableId d.level) lm = Except.ok lm') (level : Nat)
    (t : TableMeta) :
    t ∈ lm'.tables level ↔
      t ∈ lm.tables level ∧ ∀ d ∈ ds, ¬ (t.tableId = d.tableId ∧ level = d.level.toNat) := by
  induction ds generalizing lm with
  | nil =>
    cases h
    simp
  | cons d ds ih =>
    rw [List.foldlM_cons] at h
    obtain ⟨lm₁, h1, h2⟩ := except_bind_ok h
    rw [ih h2, LevelManager.mem_removeTable h1]
    simp only [List.mem_cons, forall_eq_or_imp]
    tauto

theorem mem_addTables {ts : List TableMeta} {lm lm' : LevelManager}
    (h : ts.foldlM (fun lm t => lm.addTable t) lm = Except.ok lm') (level : Nat) (t : TableMeta) :
    t ∈ lm'.tables level ↔ t ∈ lm.tables level ∨ (t ∈ ts ∧ level = t.level.toNat) := by
  induction ts generalizing lm with
  | nil =>
    cases h
    simp
  | cons t' ts ih =>
    rw [List.foldlM_cons] at h
    obtain ⟨lm₁, h1, h2⟩ := except_bind_ok h
    rw [ih h2, LevelManager.mem_addTable h1]
    constructor
    · rintro ((h | ⟨rfl, hl⟩) | ⟨h, hl⟩)
      · exact .inl h
      · exact .inr ⟨by simp, hl⟩
      · exact .inr ⟨by simp [h], hl⟩
    · rintro (h | ⟨h, hl⟩)
      · exact .inl (.inl h)
      · rcases List.mem_cons.mp h with rfl | h
        · exact .inl (.inr ⟨rfl, hl⟩)
        · exact .inr ⟨h, hl⟩

/-- A deleted table was installed. -/
theorem removeTables_mem {ds : List DeletedTable} {lm lm' : LevelManager}
    (h : ds.foldlM (fun lm d => lm.removeTable d.tableId d.level) lm = Except.ok lm') :
    ∀ d ∈ ds, ∃ t ∈ lm.tables d.level.toNat, t.tableId = d.tableId := by
  induction ds generalizing lm with
  | nil => simp
  | cons d ds ih =>
    rw [List.foldlM_cons] at h
    obtain ⟨lm₁, h1, h2⟩ := except_bind_ok h
    intro d' hd'
    rcases List.mem_cons.mp hd' with rfl | hd'
    · exact (LevelManager.removeTable_ok h1).2.2.1
    · obtain ⟨t, ht, heq⟩ := ih h2 d' hd'
      exact ⟨t, ((LevelManager.mem_removeTable h1 _ _).mp ht).1, heq⟩

/-- A staged edit: the updates it made, the counters it raised and the checks it passed. -/
structure Staged (lm : LevelManager) (c : StagedCounters) (e : VersionEdit) (lm' : LevelManager)
    (c' : StagedCounters) : Prop where
  valid : e.validate = .ok ()
  tables : ∃ mid, e.deletedTables.foldlM (fun lm d => lm.removeTable d.tableId d.level) lm = Except.ok mid ∧
    e.newTables.foldlM (fun lm t => lm.addTable t) mid = Except.ok lm'
  nextTableId : stageTableId e c.nextTableId = .ok c'.nextTableId
  nextSequenceNumber :
    stageCounter e.nextSequenceNumber "next_sequence_number" c.nextSequenceNumber = .ok c'.nextSequenceNumber
  currentWalId : stageCounter e.currentWalId "current_wal_id" c.currentWalId = .ok c'.currentWalId
  inv : ManifestInv lm' c'

theorem stageApply_ok_iff {lm lm' : LevelManager} {c c' : StagedCounters} {e : VersionEdit} :
    stageApply lm c e = .ok (lm', c') ↔ Staged lm c e lm' c' := by
  constructor
  · intro h
    obtain ⟨_, hv, h⟩ := except_bind_ok h
    obtain ⟨mid, hd, h⟩ := except_bind_ok h
    obtain ⟨lm₂, ha, h⟩ := except_bind_ok h
    obtain ⟨n1, h1, h⟩ := except_bind_ok h
    obtain ⟨n2, h2, h⟩ := except_bind_ok h
    obtain ⟨n3, h3, h⟩ := except_bind_ok h
    obtain ⟨_, hi, h⟩ := except_bind_ok h
    cases h
    exact ⟨hv, ⟨mid, hd, ha⟩, h1, h2, h3, checkInvariants_ok_iff.mp hi⟩
  · rintro ⟨hv, ⟨mid, hd, ha⟩, h1, h2, h3, hi⟩
    rw [stageApply, hv, ok_bind, hd, ok_bind, ha, ok_bind, h1, ok_bind, h2, ok_bind, h3, ok_bind,
      checkInvariants_ok_iff.mpr hi]
    rfl

theorem Staged.mem {lm lm' : LevelManager} {c c' : StagedCounters} {e : VersionEdit} (h : Staged lm c e lm' c')
    (level : Nat) (t : TableMeta) :
    t ∈ lm'.tables level ↔
      (t ∈ lm.tables level ∧ ∀ d ∈ e.deletedTables, ¬ (t.tableId = d.tableId ∧ level = d.level.toNat)) ∨
        (t ∈ e.newTables ∧ level = t.level.toNat) := by
  obtain ⟨mid, hd, ha⟩ := h.tables
  rw [mem_addTables ha, mem_removeTables hd]

/-- Every table an edit names is below the staged counter, when the installed ones were below
the old counter. -/
theorem Staged.ids_lt {lm lm' : LevelManager} {c c' : StagedCounters} {e : VersionEdit}
    (h : Staged lm c e lm' c') (hids : ∀ level, ∀ t ∈ lm.tables level, t.tableId.toNat < c.nextTableId.toNat) :
    ∀ id ∈ e.tableIds, id.toNat < c'.nextTableId.toNat := by
  obtain ⟨mid, hd, ha⟩ := h.tables
  have hle := (stageTableId_ok h.nextTableId).1
  intro id hid
  rcases List.mem_append.mp hid with hid | hid
  · obtain ⟨d, hdm, rfl⟩ := List.mem_map.mp hid
    obtain ⟨t, ht, heq⟩ := removeTables_mem hd d hdm
    have := hids _ t ht
    rw [heq] at this
    omega
  · obtain ⟨t, ht, rfl⟩ := List.mem_map.mp hid
    have hmem := (h.mem t.level.toNat t).mpr (.inr ⟨ht, rfl⟩)
    exact ((h.inv.levels _).mem hmem).2.2.1

/-- **Replay.**  An edit that was staged is staged again with the same levels and log counters
from a smaller table counter that is above every installed table. -/
theorem stageApply_replay {lm lm' : LevelManager} {c c' r : StagedCounters} {e : VersionEdit}
    (h : Staged lm c e lm' c') (hwal : r.currentWalId = c.currentWalId)
    (hseq : r.nextSequenceNumber = c.nextSequenceNumber) (hle : r.nextTableId.toNat ≤ c.nextTableId.toNat)
    (hids : ∀ level, ∀ t ∈ lm.tables level, t.tableId.toNat < r.nextTableId.toNat) (hr : r.nextTableId ≠ 0) :
    ∃ next, Staged lm r e lm' { c' with nextTableId := next } ∧ next.toNat ≤ c'.nextTableId.toNat := by
  obtain ⟨next, hnext, hnle⟩ := stageTableId_mono hle h.nextTableId
  refine ⟨next, ⟨h.valid, h.tables, hnext, by rw [hseq]; exact h.nextSequenceNumber,
    by rw [hwal]; exact h.currentWalId, ?_⟩, hnle⟩
  obtain ⟨hge, hcase⟩ := stageTableId_ok hnext
  have hne : next ≠ 0 := by
    intro h0
    rw [h0] at hge
    exact hr (UInt64.toNat_inj.mp (Nat.le_zero.mp hge))
  refine ⟨hne, h.inv.currentWalId, h.inv.nextSequenceNumber, fun level => ?_⟩
  refine (h.inv.levels level).congr fun t ht => ?_
  show t.tableId.toNat < next.toNat
  rcases (h.mem level t).mp ht with ⟨hold, -⟩ | ⟨hnew, rfl⟩
  · exact Nat.lt_of_lt_of_le (hids level t hold) hge
  · rcases hcase with hv | ⟨-, -, heq⟩
    · -- the edit gives the counter: both runs took it
      have hlive := (stageTableId_ok h.nextTableId).2
      rw [hv] at hlive
      rcases hlive with hv' | ⟨hn, -⟩
      · rw [Option.some.inj hv']
        exact ((h.inv.levels _).mem ht).2.2.1
      · cases hn
    · have hmem : t.tableId ∈ e.tableIds :=
        List.mem_append.mpr (.inr (List.mem_map_of_mem hnew))
      have := le_maxTableIdSeen hmem
      omega

end Kvdb
