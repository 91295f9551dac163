import Mathlib.Data.List.TakeWhile
import Kvdb.Manifest.Replay

/-!
# What the searches of a level find

Under the invariants that the manifest checks, the tables of L0 have descending
ids and those of a deeper level ascending disjoint key ranges.  So the binary
searches of `LevelManager` find exactly the tables they are meant to find
(`mem_findOverlappingTables`, `findCandidate_mem`).
-/

namespace Kvdb

open Faulty

namespace TableMeta

/-- The key ranges have no key in common. -/
def Apart (t u : TableMeta) : Prop := t.largestKey < u.smallestKey ∨ u.largestKey < t.smallestKey

theorem Apart.symm {t u : TableMeta} (h : t.Apart u) : u.Apart t := h.elim .inr .inl

end TableMeta

theorem lt_eq_false_iff {a b : ArenaEntry} : a.lt b = false ↔ b ≤ a := by
  rw [← Bool.not_eq_true, ArenaEntry.lt_iff, not_lt]

/-! ## Order on a level -/

theorem LevelOk.range {c : StagedCounters} {level : Nat} {previous : Option TableMeta} {ts : List TableMeta}
    (h : LevelOk c level previous ts) {t : TableMeta} (ht : t ∈ ts) : t.smallestKey ≤ t.largestKey :=
  lt_eq_false_iff.mp (h.mem ht).2.2.2

/-- The order on a level: descending ids on L0, ascending ranges below. -/
def LevelBefore (level : Nat) (t u : TableMeta) : Prop :=
  if level = 0 then u.tableId.toNat < t.tableId.toNat else t.largestKey < u.smallestKey

theorem LevelOk.before {c : StagedCounters} {level : Nat} {p : TableMeta} {ts : List TableMeta}
    (h : LevelOk c level (some p) ts) : ∀ t ∈ ts, LevelBefore level p t := by
  induction ts generalizing p with
  | nil => simp
  | cons u ts ih =>
    obtain ⟨hu, hts⟩ := h
    have hpu : LevelBefore level p u := by
      have ho := hu.order p rfl
      unfold LevelBefore
      by_cases h0 : level = 0
      · simp only [if_pos h0] at ho ⊢
        exact ho
      · simp only [if_neg h0, ArenaEntry.lt_iff] at ho ⊢
        exact ho
    intro t ht
    rcases List.mem_cons.mp ht with rfl | ht
    · exact hpu
    · have hut := ih hts t ht
      have hrange := lt_eq_false_iff.mp hu.range
      unfold LevelBefore at *
      by_cases h0 : level = 0
      · simp only [if_pos h0] at *
        omega
      · simp only [if_neg h0] at *
        exact hpu.trans_le (hrange.trans hut.le)

theorem LevelOk.pairwise {c : StagedCounters} {level : Nat} {previous : Option TableMeta} {ts : List TableMeta}
    (h : LevelOk c level previous ts) : ts.Pairwise (LevelBefore level) := by
  induction ts generalizing previous with
  | nil => exact List.Pairwise.nil
  | cons t ts ih => exact List.pairwise_cons.mpr ⟨h.2.before, ih h.2⟩

theorem LevelOk.ascending {c : StagedCounters} {level : Nat} {previous : Option TableMeta} {ts : List TableMeta}
    (h : LevelOk c level previous ts) (hlevel : level ≠ 0) :
    ts.Pairwise fun t u => t.largestKey < u.smallestKey := by
  refine h.pairwise.imp fun htu => ?_
  unfold LevelBefore at htu
  rwa [if_neg hlevel] at htu

/-- Two tables of ascending ranges have no key in common. -/
theorem apart_of_ascending {ts : List TableMeta} (hpw : ts.Pairwise fun t u => t.largestKey < u.smallestKey)
    {t u : TableMeta} (ht : t ∈ ts) (hu : u ∈ ts) (hne : t ≠ u) : t.Apart u := by
  induction ts with
  | nil => cases ht
  | cons x xs ih =>
    obtain ⟨hx, hxs⟩ := List.pairwise_cons.mp hpw
    rcases List.mem_cons.mp ht with rfl | ht'
    · rcases List.mem_cons.mp hu with rfl | hu'
      · exact absurd rfl hne
      · exact .inl (hx u hu')
    · rcases List.mem_cons.mp hu with rfl | hu'
      · exact .inr (hx t ht')
      · exact ih hxs ht' hu'

/-- Below L0 two tables of a level have no key in common. -/
theorem LevelOk.apart {c : StagedCounters} {level : Nat} {previous : Option TableMeta} {ts : List TableMeta}
    (h : LevelOk c level previous ts) (hlevel : level ≠ 0) {t u : TableMeta} (ht : t ∈ ts) (hu : u ∈ ts)
    (hne : t ≠ u) : t.Apart u := apart_of_ascending (h.ascending hlevel) ht hu hne

/-! ## Searches -/

theorem rangesOverlap_iff {a b c d : ArenaEntry} : rangesOverlap a b c d = true ↔ c ≤ b ∧ a ≤ d := by
  simp only [rangesOverlap, Bool.and_eq_true, Bool.not_eq_true', lt_eq_false_iff]

theorem keyIsInsideTable_iff {key : ArenaEntry} {t : TableMeta} :
    keyIsInsideTable key t = true ↔ t.smallestKey ≤ key ∧ key ≤ t.largestKey := by
  simp only [keyIsInsideTable, Bool.and_eq_true, Bool.not_eq_true', lt_eq_false_iff]

/-- On ascending ranges the overlapping tables are those between the two searches. -/
theorem mem_slice {ts : List TableMeta} (hpw : ts.Pairwise fun t u => t.largestKey < u.smallestKey)
    (hr : ∀ t ∈ ts, t.smallestKey ≤ t.largestKey) (smallest largest : ArenaEntry) (t : TableMeta) :
    t ∈ (ts.dropWhile fun t => t.largestKey.lt smallest).takeWhile (fun t => !largest.lt t.smallestKey) ↔
      t ∈ ts ∧ smallest ≤ t.largestKey ∧ t.smallestKey ≤ largest := by
  induction ts with
  | nil => simp
  | cons x xs ih =>
    obtain ⟨hx, hxs⟩ := List.pairwise_cons.mp hpw
    have ih := ih hxs fun t ht => hr t (by simp [ht])
    have hxr := hr x (by simp)
    by_cases hlow : x.largestKey.lt smallest = true
    · rw [List.dropWhile_cons, if_pos hlow, ih]
      have hno := ArenaEntry.lt_iff _ _ |>.mp hlow
      constructor
      · rintro ⟨h1, h2⟩
        exact ⟨List.mem_cons_of_mem _ h1, h2⟩
      · rintro ⟨h1, h2, h3⟩
        rcases List.mem_cons.mp h1 with rfl | h1
        · exact absurd h2 (not_le.mpr hno)
        · exact ⟨h1, h2, h3⟩
    · rw [List.dropWhile_cons, if_neg hlow]
      rw [Bool.not_eq_true, lt_eq_false_iff] at hlow
      -- behind the first hit every table starts after it
      have hlater : ∀ u ∈ xs, smallest ≤ u.largestKey := by
        intro u hu
        have h1 := hx u hu
        have h2 := hr u (by simp [hu])
        exact hlow.trans (h1.le.trans h2)
      have htake : ∀ {us : List TableMeta}, (us.Pairwise fun t u => t.largestKey < u.smallestKey) →
          (∀ u ∈ us, u.smallestKey ≤ u.largestKey) →
          (t ∈ us.takeWhile (fun t => !largest.lt t.smallestKey) ↔ t ∈ us ∧ t.smallestKey ≤ largest) := by
        intro us
        induction us with
        | nil => simp
        | cons y ys ihy =>
          intro hp hrange
          obtain ⟨hy, hys⟩ := List.pairwise_cons.mp hp
          have ihy := ihy hys fun u hu => hrange u (by simp [hu])
          by_cases hin : largest.lt y.smallestKey = true
          · have hlt := (ArenaEntry.lt_iff _ _).mp hin
            rw [List.takeWhile_cons, if_neg (by simp [hin])]
            constructor
            · intro h
              cases h
            · rintro ⟨h1, h2⟩
              rcases List.mem_cons.mp h1 with rfl | h1
              · exact absurd h2 (not_le.mpr hlt)
              · have h3 := (hy t h1).trans_le h2
                have h4 := hrange y (by simp)
                exact absurd h3 (not_lt.mpr (hlt.le.trans h4))
          · rw [List.takeWhile_cons, if_pos (by simpa using hin)]
            rw [Bool.not_eq_true, lt_eq_false_iff] at hin
            rw [List.mem_cons, List.mem_cons, ihy]
            constructor
            · rintro (rfl | ⟨h1, h2⟩)
              · exact ⟨.inl rfl, hin⟩
              · exact ⟨.inr h1, h2⟩
            · rintro ⟨rfl | h1, h2⟩
              · exact .inl rfl
              · exact .inr ⟨h1, h2⟩
      rw [htake hpw hr]
      constructor
      · rintro ⟨h1, h2⟩
        refine ⟨h1, ?_, h2⟩
        rcases List.mem_cons.mp h1 with rfl | h1
        · exact hlow
        · exact hlater t h1
      · rintro ⟨h1, -, h2⟩
        exact ⟨h1, h2⟩

namespace LevelManager

theorem mem_findOverlappingTables {lm : LevelManager} {level : Nat}
    (hpw : level ≠ 0 → (lm.tables level).Pairwise fun t u => t.largestKey < u.smallestKey)
    (hr : ∀ t ∈ lm.tables level, t.smallestKey ≤ t.largestKey) {smallest largest : ArenaEntry}
    (hle : smallest ≤ largest) (t : TableMeta) :
    t ∈ lm.findOverlappingTables level smallest largest ↔
      t ∈ lm.tables level ∧ smallest ≤ t.largestKey ∧ t.smallestKey ≤ largest := by
  have hrange : largest.lt smallest = false := lt_eq_false_iff.mpr hle
  unfold findOverlappingTables
  by_cases hlevel : lm.levelCount ≤ level
  · rw [if_pos (.inl hlevel)]
    constructor
    · intro h
      cases h
    · rintro ⟨h1, -⟩
      have := mem_tables_level h1
      omega
  · rw [if_neg (by rw [hrange]; simpa using hlevel)]
    by_cases h0 : level = 0
    · subst h0
      rw [if_pos rfl, List.mem_filter, rangesOverlap_iff]
    · rw [if_neg h0]
      exact mem_slice (hpw h0) hr smallest largest t

/-- Every table that can have the key is a candidate. -/
theorem findCandidate_mem {lm : LevelManager} {c : StagedCounters} {level : Nat}
    (h : LevelOk c level none (lm.tables level)) (hlevel : level < lm.levelCount) (key : ArenaEntry) :
    ∃ ts, lm.findCandidateTablesInLevel level key = .ok ts ∧ ts.Pairwise (LevelBefore level) ∧
      ∀ t, t ∈ ts ↔ t ∈ lm.tables level ∧ t.smallestKey ≤ key ∧ key ≤ t.largestKey := by
  unfold findCandidateTablesInLevel
  rw [if_neg (by omega)]
  by_cases h0 : level = 0
  · subst h0
    rw [if_pos rfl]
    refine ⟨_, rfl, h.pairwise.filter _, fun t => ?_⟩
    rw [List.mem_filter, keyIsInsideTable_iff]
  · rw [if_neg h0]
    have hpw := h.ascending h0
    have hmem := fun t => mem_slice hpw (fun t ht => h.range ht) key key t
    have hdrop := List.dropWhile_sublist (l := lm.tables level) (p := fun t => t.largestKey.lt key)
    generalize hrest : (lm.tables level).dropWhile (fun t => t.largestKey.lt key) = rest at hmem hdrop
    cases rest with
    | nil => exact ⟨[], rfl, List.Pairwise.nil, fun t => by simpa [and_assoc, and_comm, and_left_comm] using hmem t⟩
    | cons candidate rest =>
      have hpr := hpw.sublist hdrop
      have hfirst := (List.pairwise_cons.mp hpr).1
      have hcr : candidate.smallestKey ≤ candidate.largestKey := h.range (hdrop.subset (by simp))
      have hkey : key ≤ candidate.largestKey := by
        have := List.dropWhile_get_zero_not (fun t : TableMeta => t.largestKey.lt key) (lm.tables level)
          (by rw [hrest]; simp)
        simpa [hrest, lt_eq_false_iff] using this
      refine ⟨_, rfl, ?_, fun t => ?_⟩
      · split
        · exact List.pairwise_singleton _ _
        · exact List.Pairwise.nil
      · have ht := hmem t
        rw [List.takeWhile_cons] at ht
        by_cases hin : key.lt candidate.smallestKey = true
        · have hno : keyIsInsideTable key candidate = false := by simp [keyIsInsideTable, hin]
          rw [hno]
          simp only [hin, Bool.not_true, Bool.false_eq_true, if_false, List.not_mem_nil, false_iff] at ht ⊢
          exact fun ⟨h1, h2, h3⟩ => ht ⟨h1, h3, h2⟩
        · rw [Bool.not_eq_true] at hin
          have hyes : keyIsInsideTable key candidate = true :=
            keyIsInsideTable_iff.mpr ⟨lt_eq_false_iff.mp hin, hkey⟩
          rw [hyes]
          simp only [hin, Bool.not_false, if_true, List.mem_cons, List.not_mem_nil, or_false] at ht ⊢
          constructor
          · rintro rfl
            obtain ⟨h1, h2, h3⟩ := ht.mp (.inl rfl)
            exact ⟨h1, h3, h2⟩
          · rintro ⟨h1, h2, h3⟩
            rcases ht.mpr ⟨h1, h3, h2⟩ with h4 | h4
            · exact h4
            · -- a later table starts behind the candidate, which ends at or behind the key
              have h5 := hfirst t (List.takeWhile_sublist _ |>.subset h4)
              exact absurd (hkey.trans_lt h5) (not_lt.mpr h2)

end LevelManager

end Kvdb
