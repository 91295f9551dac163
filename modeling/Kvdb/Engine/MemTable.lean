import Kvdb.Lib.Merge
import Kvdb.Lib.Recency
import Kvdb.Utils.Record
import Kvdb.Utils.Status

/-!
# MemTable

`MemTable` (`core/engine/mem_table.cpp`): the active driver and the queue of
frozen generations.  A driver is an ordered set of records, key ascending and
newer versions first, that refuses a second record with the key and the sequence
number of an old one; all four drivers of the source are that, so it is the list
that `dump_inorder` gives.

`get_newest`: a lookup finds the newest version in memory.
-/

namespace Kvdb

open Recency

instance : Versioned InternalRecord ArenaEntry ArenaEntry where
  key r := r.key
  seq r := r.seqNum.toNat
  value r := if r.type = .put then some r.value else none

/-- `VirtualNode::operator<` and `internal_before`. -/
def internalBefore (a b : InternalRecord) : Bool :=
  if a.key = b.key then decide (b.seqNum < a.seqNum) else a.key.lt b.key

/-- `validate_records`. -/
def validateRecords (records : List InternalRecord) : Bool :=
  decide (records.IsChain fun previous record => internalBefore record previous = false)

/-- The records of a place, as a set. -/
def recs (l : List InternalRecord) : Set InternalRecord := {r | r ∈ l}

/-! ## Driver -/

namespace Driver

/-- A key as `std::format` prints it. -/
def formatEntry (e : ArenaEntry) : String := String.ofList (e.bytes.map fun b => Char.ofNat b.toNat)

/-- `Driver::insert`. -/
def insert (r : InternalRecord) : List InternalRecord → Except Status (List InternalRecord)
  | [] => .ok [r]
  | x :: xs =>
    if internalBefore r x then .ok (r :: x :: xs)
    else if internalBefore x r then
      match insert r xs with
      | .ok xs' => .ok (x :: xs')
      | .error e => .error e
    else .error ⟨.duplicate, "Duplicate entry for key: " ++ formatEntry r.key⟩

/-- `Driver::find_latest_by_key`. -/
def findLatestByKey (key : ArenaEntry) (table : List InternalRecord) : Option InternalRecord :=
  table.find? fun r => r.key == key

end Driver

/-! ## Generations -/

structure ImmutableTable where
  generationId : UInt64
  table : List InternalRecord
deriving DecidableEq

structure MemTable where
  mutableTable : List InternalRecord := []
  /-- oldest first -/
  immutableTables : List ImmutableTable := []
  nextGenerationId : UInt64 := 1
deriving DecidableEq

namespace MemTable

/-- `MemTable::apply`. -/
def apply (m : MemTable) (entry : InternalRecord) : Except Status MemTable :=
  match Driver.insert entry m.mutableTable with
  | .ok t => .ok { m with mutableTable := t }
  | .error e => .error e

/-- The comparison of `MemTable::get` with the next generation. -/
def latestOf (key : ArenaEntry) (latest : Option InternalRecord) (table : List InternalRecord) :
    Option InternalRecord :=
  match Driver.findLatestByKey key table with
  | none => latest
  | some candidate =>
    match latest with
    | none => some candidate
    | some l => if candidate.seqNum > l.seqNum then some candidate else latest

/-- `MemTable::get`. -/
def get (m : MemTable) (key : ArenaEntry) : Option InternalRecord :=
  (m.immutableTables.reverse.map ImmutableTable.table).foldl (latestOf key)
    (Driver.findLatestByKey key m.mutableTable)

/-- `MemTable::freeze_mutable`. -/
def freezeMutable (m : MemTable) : MemTable :=
  if m.mutableTable = [] then m
  else
    { mutableTable := []
      immutableTables := m.immutableTables ++ [⟨m.nextGenerationId, m.mutableTable⟩]
      nextGenerationId := m.nextGenerationId + 1 }

/-- `MemTable::oldest_immutable`. -/
def oldestImmutable (m : MemTable) : Except Status ImmutableTable :=
  match m.immutableTables with
  | [] => .error ⟨.notFound, "No immutable MemTable is available for flushing"⟩
  | oldest :: _ => .ok oldest

/-- `MemTable::retire_oldest_immutable`. -/
def retireOldestImmutable (m : MemTable) (generationId : UInt64) : Option MemTable :=
  match m.immutableTables with
  | [] => none
  | oldest :: rest =>
    if oldest.generationId ≠ generationId then none else some { m with immutableTables := rest }

/-- `MemTable::has_immutable`. -/
def hasImmutable (m : MemTable) : Bool := !m.immutableTables.isEmpty

/-- `MemTable::immutable_count`. -/
def immutableCount (m : MemTable) : Nat := m.immutableTables.length

/-- The generations in the order a lookup takes them. -/
def places (m : MemTable) : List (List InternalRecord) :=
  m.mutableTable :: m.immutableTables.reverse.map ImmutableTable.table

/-- Every record in memory. -/
def records (m : MemTable) : Set InternalRecord := {r | ∃ p ∈ m.places, r ∈ p}

end MemTable

/-! ## Order -/

theorem uint64_gt_iff {a b : UInt64} : a > b ↔ b.toNat < a.toNat := UInt64.lt_iff_toNat_lt

theorem internalBefore_iff {a b : InternalRecord} :
    internalBefore a b = true ↔ a.key < b.key ∨ (a.key = b.key ∧ b.seqNum.toNat < a.seqNum.toNat) := by
  unfold internalBefore
  split
  · next h => simp [h, UInt64.lt_iff_toNat_lt]
  · next h => simp [h, ArenaEntry.lt_iff]

theorem internalBefore_eq_false_iff {a b : InternalRecord} :
    internalBefore a b = false ↔ b.key < a.key ∨ (a.key = b.key ∧ a.seqNum.toNat ≤ b.seqNum.toNat) := by
  rw [← Bool.not_eq_true, internalBefore_iff, not_or, not_lt, not_and, not_lt]
  constructor
  · rintro ⟨h1, h2⟩
    rcases lt_or_eq_of_le h1 with h | h
    · exact .inl h
    · exact .inr ⟨h.symm, h2 h.symm⟩
  · rintro (h | ⟨h1, h2⟩)
    · exact ⟨h.le, fun h' => absurd h' h.ne'⟩
    · exact ⟨h1.ge, fun _ => h2⟩

/-- Records of which neither is before the other have one version. -/
theorem same_of_not_before {a b : InternalRecord} (h : internalBefore a b = false) (h' : internalBefore b a = false) :
    a.key = b.key ∧ a.seqNum = b.seqNum := by
  rw [internalBefore_eq_false_iff] at h h'
  rcases h with h | ⟨hkey, hle⟩
  · rcases h' with h' | ⟨hkey', -⟩
    · exact absurd (h.trans h') (lt_irrefl _)
    · exact absurd hkey' h.ne
  · rcases h' with h' | ⟨-, hle'⟩
    · exact absurd hkey h'.ne
    · exact ⟨hkey, UInt64.toNat_inj.mp (by omega)⟩

theorem internalBefore_asymm (a b : InternalRecord) (h : internalBefore a b = true) :
    internalBefore b a = false := by
  rw [internalBefore_eq_false_iff]
  rcases internalBefore_iff.mp h with h | ⟨h1, h2⟩
  · exact .inl h
  · exact .inr ⟨h1.symm, h2.le⟩

theorem not_internalBefore_trans (a b c : InternalRecord) (h : internalBefore b a = false)
    (h' : internalBefore c b = false) : internalBefore c a = false := by
  rw [internalBefore_eq_false_iff] at *
  rcases h with h | ⟨h1, h2⟩
  · rcases h' with h' | ⟨h1', h2'⟩
    · exact .inl (h.trans h')
    · exact .inl (h1' ▸ h)
  · rcases h' with h' | ⟨h1', h2'⟩
    · exact .inl (h1 ▸ h')
    · exact .inr ⟨h1'.trans h1, h2'.trans h2⟩

theorem internalBefore_trans {a b c : InternalRecord} (h : internalBefore a b = true)
    (h' : internalBefore b c = true) : internalBefore a c = true := by
  rw [internalBefore_iff] at *
  rcases h with h | ⟨h1, h2⟩
  · rcases h' with h' | ⟨h1', h2'⟩
    · exact .inl (h.trans h')
    · exact .inl (h1' ▸ h)
  · rcases h' with h' | ⟨h1', h2'⟩
    · exact .inl (h1 ▸ h')
    · exact .inr ⟨h1.trans h1', h2'.trans h2⟩

/-- Strictly in internal order. -/
def Ordered (l : List InternalRecord) : Prop := l.Pairwise fun a b => internalBefore a b = true

theorem Ordered.sorted {l : List InternalRecord} (h : Ordered l) : KWay.Sorted internalBefore l :=
  h.imp fun hab => internalBefore_asymm _ _ hab

/-- An ordered list has one record of a version. -/
theorem Ordered.unique {l : List InternalRecord} (h : Ordered l) {r r' : InternalRecord} (hr : r ∈ l) (hr' : r' ∈ l)
    (hk : r.key = r'.key) (hs : r.seqNum.toNat = r'.seqNum.toNat) : r = r' := by
  have hno : ∀ {a b : InternalRecord}, a.key = b.key → a.seqNum.toNat = b.seqNum.toNat →
      ¬ internalBefore a b = true := by
    intro a b hab hseq hbefore
    rcases internalBefore_iff.mp hbefore with hlt | ⟨-, hlt⟩
    · exact hlt.ne hab
    · omega
  induction l with
  | nil => cases hr
  | cons x xs ih =>
    obtain ⟨hx, hxs⟩ := List.pairwise_cons.mp h
    rcases List.mem_cons.mp hr with hrx | hrs
    · rcases List.mem_cons.mp hr' with hrx' | hrs'
      · exact hrx.trans hrx'.symm
      · exact absurd (hrx ▸ hx r' hrs') (hno hk hs)
    · rcases List.mem_cons.mp hr' with hrx' | hrs'
      · exact absurd (hrx' ▸ hx r hrs) (hno hk.symm hs.symm)
      · exact ih hxs hrs hrs'

theorem finite_recs (l : List InternalRecord) : (recs l).Finite := List.finite_toSet l

@[simp] theorem mem_recs {l : List InternalRecord} {r : InternalRecord} : r ∈ recs l ↔ r ∈ l := Iff.rfl

@[simp] theorem recs_nil : recs [] = ∅ := by
  ext r
  simp

/-! ## What the driver does -/

namespace Driver

theorem insert_perm {r : InternalRecord} {l l' : List InternalRecord} (h : insert r l = .ok l') :
    l'.Perm (r :: l) := by
  induction l generalizing l' with
  | nil =>
    cases h
    exact List.Perm.refl _
  | cons x xs ih =>
    simp only [insert] at h
    split at h
    · cases h
      exact List.Perm.refl _
    · split at h
      · split at h
        · next xs' hxs =>
          cases h
          exact ((ih hxs).cons x).trans (List.Perm.swap r x xs)
        · cases h
      · cases h

theorem insert_ordered {r : InternalRecord} {l l' : List InternalRecord} (hl : Ordered l)
    (h : insert r l = .ok l') : Ordered l' := by
  induction l generalizing l' with
  | nil =>
    cases h
    exact List.pairwise_singleton _ _
  | cons x xs ih =>
    obtain ⟨hx, hxs⟩ := List.pairwise_cons.mp hl
    simp only [insert] at h
    split at h
    · next hrx =>
      cases h
      refine List.pairwise_cons.mpr ⟨fun y hy => ?_, hl⟩
      rcases List.mem_cons.mp hy with rfl | hy
      · exact hrx
      · exact internalBefore_trans hrx (hx y hy)
    · split at h
      · next hxr =>
        split at h
        · next xs' hxs' =>
          cases h
          refine List.pairwise_cons.mpr ⟨fun y hy => ?_, ih hxs hxs'⟩
          rcases List.mem_cons.mp ((insert_perm hxs').mem_iff.mp hy) with rfl | hy
          · exact hxr
          · exact hx y hy
        · cases h
      · cases h

/-- The records of a driver after some insertions; one that is refused changes nothing. -/
def insertAll : List InternalRecord → List InternalRecord → List InternalRecord
  | [], l => l
  | r :: rs, l => insertAll rs ((insert r l).toOption.getD l)

/-- Behind everything that is before the record, unless the next one is the same version. -/
theorem insert_eq (r : InternalRecord) (l : List InternalRecord) :
    insert r l =
      match l.dropWhile fun x => internalBefore x r with
      | [] => .ok (l ++ [r])
      | x :: xs =>
        if internalBefore r x then .ok ((l.takeWhile fun x => internalBefore x r) ++ r :: x :: xs)
        else .error ⟨.duplicate, "Duplicate entry for key: " ++ formatEntry r.key⟩ := by
  induction l with
  | nil => rfl
  | cons y ys ih =>
    rw [insert]
    by_cases hry : internalBefore r y = true
    · have hyr := internalBefore_asymm r y hry
      simp [hry, hyr]
    · rw [if_neg hry]
      by_cases hyr : internalBefore y r = true
      · rw [if_pos hyr, ih]
        simp only [List.dropWhile_cons, List.takeWhile_cons, hyr, if_true]
        cases ys.dropWhile fun x => internalBefore x r with
        | nil => rfl
        | cons x xs =>
          by_cases hrx : internalBefore r x = true
          · simp [hrx]
          · simp [hrx]
      · simp [hry, hyr]

/-- Between two sides that are before and behind it a record is put where it belongs. -/
theorem insert_between {r : InternalRecord} {b a : List InternalRecord}
    (hb : ∀ x ∈ b, internalBefore x r = true) (ha : ∀ x ∈ a, internalBefore r x = true) :
    insert r (b ++ a) = .ok (b ++ r :: a) := by
  have hdrop : ((b ++ a).dropWhile fun x => internalBefore x r) = a := by
    rw [List.dropWhile_append_of_pos hb]
    cases a with
    | nil => rfl
    | cons x xs =>
      have hx := internalBefore_asymm r x (ha x (by simp))
      rw [List.dropWhile_cons, if_neg (by simp [hx])]
  have htake : ((b ++ a).takeWhile fun x => internalBefore x r) = b := by
    rw [List.takeWhile_append_of_pos hb]
    cases a with
    | nil => simp
    | cons x xs =>
      have hx := internalBefore_asymm r x (ha x (by simp))
      rw [List.takeWhile_cons, if_neg (by simp [hx]), List.append_nil]
  rw [insert_eq, hdrop, htake]
  cases a with
  | nil => simp
  | cons x xs => simp [ha x (by simp)]

/-- A record whose version is there already is refused. -/
theorem insert_same {r x : InternalRecord} {l : List InternalRecord} (hl : Ordered l) (hx : x ∈ l)
    (hrx : internalBefore r x = false) (hxr : internalBefore x r = false) :
    insert r l = .error ⟨.duplicate, "Duplicate entry for key: " ++ formatEntry r.key⟩ := by
  induction l with
  | nil => cases hx
  | cons y ys ih =>
    obtain ⟨hy, hys⟩ := List.pairwise_cons.mp hl
    rw [insert]
    rcases List.mem_cons.mp hx with rfl | hx
    · simp [hrx, hxr]
    · have hyr : internalBefore y r = true := by
        rw [← Bool.not_eq_false]
        intro hyr
        have hyx := hy x hx
        have htr := not_internalBefore_trans x r y hrx hyr
        rw [hyx] at htr
        cases htr
      have hry := internalBefore_asymm y r hyr
      simp [hry, hyr, ih hys hx]

/-- A record is refused only for one with its key and its sequence number. -/
theorem insert_fresh {r : InternalRecord} {l : List InternalRecord}
    (h : ∀ x ∈ l, ¬ (x.key = r.key ∧ x.seqNum = r.seqNum)) : ∃ l', insert r l = .ok l' := by
  induction l with
  | nil => exact ⟨_, rfl⟩
  | cons x xs ih =>
    obtain ⟨xs', hxs'⟩ := ih fun y hy => h y (by simp [hy])
    simp only [insert]
    by_cases hrx : internalBefore r x = true
    · exact ⟨_, if_pos hrx⟩
    · rw [if_neg hrx]
      by_cases hxr : internalBefore x r = true
      · rw [if_pos hxr, hxs']
        exact ⟨_, rfl⟩
      · -- neither is before the other: the same key and sequence number
        exfalso
        rw [Bool.not_eq_true, internalBefore_eq_false_iff] at hrx hxr
        have hx := h x (by simp)
        rcases hrx with h1 | ⟨h1, h2⟩
        · rcases hxr with h3 | ⟨h3, -⟩
          · exact absurd h3 h1.asymm
          · exact h1.ne h3
        · rcases hxr with h3 | ⟨h3, h4⟩
          · exact h3.ne h1
          · exact hx ⟨h3, UInt64.toNat_inj.mp (by omega)⟩

/-- A refusal means that the version is there. -/
theorem insert_refused {r : InternalRecord} {l : List InternalRecord} {e : Status} (h : insert r l = .error e) :
    e.code = .duplicate ∧ ∃ x ∈ l, x.key = r.key ∧ x.seqNum = r.seqNum := by
  constructor
  · rw [insert_eq] at h
    split at h
    · cases h
    · split at h
      · cases h
      · cases h
        rfl
  · by_contra hno
    obtain ⟨l', hl'⟩ := insert_fresh fun x hx hsame => hno ⟨x, hx, hsame⟩
    rw [hl'] at h
    cases h

theorem findLatest_newest {key : ArenaEntry} {l : List InternalRecord} (hl : Ordered l) {r : InternalRecord}
    (h : findLatestByKey key l = some r) : Newest (recs l) r ∧ r.key = key := by
  have hk : r.key = key := by simpa using List.find?_some h
  refine ⟨⟨List.mem_of_find?_eq_some h, ?_⟩, hk⟩
  induction l with
  | nil => cases h
  | cons x xs ih =>
    obtain ⟨hx, hxs⟩ := List.pairwise_cons.mp hl
    intro r' hr' hkr'
    have hkr'' : r'.key = r.key := hkr'
    rw [findLatestByKey, List.find?_cons] at h
    split at h
    · cases h
      rcases List.mem_cons.mp hr' with rfl | hr'
      · exact Nat.le_refl _
      · rcases internalBefore_iff.mp (hx r' hr') with hlt | ⟨-, hlt⟩
        · exact absurd hkr'' hlt.ne'
        · exact hlt.le
    · next hne =>
      rcases List.mem_cons.mp hr' with rfl | hr'
      · rw [hkr'', hk] at hne
        simp at hne
      · exact ih hxs h r' hr' hkr'

theorem findLatest_none {key : ArenaEntry} {l : List InternalRecord} (h : findLatestByKey key l = none) :
    ¬ Holds (recs l) key := by
  rintro ⟨r, hr, hk⟩
  have := List.find?_eq_none.mp h r hr
  simp at this
  exact this hk

end Driver

/-! ## What lookups find -/

/-- `o` is the newest version of the key in `S`, if there is one. -/
def FindsNewest (S : Set InternalRecord) (key : ArenaEntry) (o : Option InternalRecord) : Prop :=
  (o = none ∧ ¬ Holds S key) ∨ ∃ r, o = some r ∧ Newest S r ∧ r.key = key

theorem Driver.findLatest_finds (key : ArenaEntry) {l : List InternalRecord} (hl : Ordered l) :
    FindsNewest (recs l) key (findLatestByKey key l) := by
  cases h : findLatestByKey key l with
  | none => exact .inl ⟨rfl, findLatest_none h⟩
  | some r => exact .inr ⟨r, rfl, findLatest_newest hl h⟩

theorem holds_union {S T : Set InternalRecord} {key : ArenaEntry} :
    Holds (S ∪ T) key ↔ Holds S key ∨ Holds T key := by
  constructor
  · rintro ⟨r, hr | hr, hk⟩
    · exact .inl ⟨r, hr, hk⟩
    · exact .inr ⟨r, hr, hk⟩
  · rintro (⟨r, hr, hk⟩ | ⟨r, hr, hk⟩)
    · exact ⟨r, .inl hr, hk⟩
    · exact ⟨r, .inr hr, hk⟩

namespace MemTable

theorem latestOf_finds {S : Set InternalRecord} {key : ArenaEntry} {o : Option InternalRecord}
    {l : List InternalRecord} (ho : FindsNewest S key o) (hl : Ordered l) :
    FindsNewest (S ∪ recs l) key (latestOf key o l) := by
  have hle : ∀ {T : Set InternalRecord} {r x : InternalRecord}, ¬ Holds T key → r.key = key → x ∈ T →
      x.key = r.key → False := fun hno hr hx hk => hno ⟨_, hx, hk.trans hr⟩
  rcases Driver.findLatest_finds key hl with ⟨hn, hno⟩ | ⟨c, hc, hnew, hck⟩
  · rw [latestOf, hn]
    rcases ho with ⟨rfl, hno'⟩ | ⟨r, rfl, hr, hrk⟩
    · exact .inl ⟨rfl, fun h => (holds_union.mp h).elim hno' hno⟩
    · refine .inr ⟨r, rfl, ⟨.inl hr.1, fun x hx hk => ?_⟩, hrk⟩
      rcases hx with hx | hx
      · exact hr.2 x hx hk
      · exact (hle hno hrk hx hk).elim
  · rw [latestOf, hc]
    rcases ho with ⟨rfl, hno'⟩ | ⟨r, rfl, hr, hrk⟩
    · refine .inr ⟨c, rfl, ⟨.inr hnew.1, fun x hx hk => ?_⟩, hck⟩
      rcases hx with hx | hx
      · exact (hle hno' hck hx hk).elim
      · exact hnew.2 x hx hk
    · have hkey : c.key = r.key := hck.trans hrk.symm
      simp only [uint64_gt_iff]
      by_cases hlt : r.seqNum.toNat < c.seqNum.toNat
      · rw [if_pos hlt]
        refine .inr ⟨c, rfl, ⟨.inr hnew.1, fun x hx hk => ?_⟩, hck⟩
        rcases hx with hx | hx
        · exact (hr.2 x hx (hk.trans hkey)).trans hlt.le
        · exact hnew.2 x hx hk
      · rw [if_neg hlt]
        refine .inr ⟨r, rfl, ⟨.inl hr.1, fun x hx hk => ?_⟩, hrk⟩
        rcases hx with hx | hx
        · exact hr.2 x hx hk
        · exact (hnew.2 x hx (hk.trans hkey.symm)).trans (Nat.not_lt.mp hlt)

theorem foldl_latestOf_finds {key : ArenaEntry} {ls : List (List InternalRecord)} {S : Set InternalRecord}
    {o : Option InternalRecord} (ho : FindsNewest S key o) (hls : ∀ l ∈ ls, Ordered l) :
    FindsNewest (S ∪ {r | ∃ l ∈ ls, r ∈ l}) key (ls.foldl (latestOf key) o) := by
  induction ls generalizing S o with
  | nil => simpa using ho
  | cons l ls ih =>
    have h := ih (latestOf_finds ho (hls l (by simp))) fun l' hl' => hls l' (by simp [hl'])
    have hset : S ∪ recs l ∪ {r | ∃ l ∈ ls, r ∈ l} = S ∪ {r | ∃ l' ∈ l :: ls, r ∈ l'} := by
      ext r
      simp [or_assoc]
    rw [hset] at h
    exact h

/-- **Lookup in memory.**  `get` finds the newest version among all generations. -/
theorem get_newest {m : MemTable} (h : ∀ p ∈ m.places, Ordered p) (key : ArenaEntry) :
    FindsNewest m.records key (m.get key) := by
  have h0 := Driver.findLatest_finds key (h m.mutableTable (by simp [places]))
  have hfold := foldl_latestOf_finds h0 fun l hl => h l (List.mem_cons_of_mem m.mutableTable hl)
  have hset : recs m.mutableTable ∪ {r | ∃ l ∈ m.immutableTables.reverse.map ImmutableTable.table, r ∈ l} =
      m.records := by
    ext r
    simp [records, places]
  rw [hset] at hfold
  exact hfold

/-! ## Changes of the generations -/

theorem apply_ok {m m' : MemTable} {r : InternalRecord} (h : m.apply r = .ok m') :
    ∃ t, Driver.insert r m.mutableTable = .ok t ∧ m' = { m with mutableTable := t } := by
  unfold apply at h
  split at h
  · next t ht =>
    cases h
    exact ⟨t, ht, rfl⟩
  · cases h

theorem freezeMutable_places (m : MemTable) :
    m.freezeMutable.places = m.places ∨ m.freezeMutable.places = [] :: m.places := by
  unfold freezeMutable
  split
  · exact .inl rfl
  · exact .inr (by simp [places])

end MemTable

end Kvdb
