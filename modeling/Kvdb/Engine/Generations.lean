import Kvdb.Engine.MemTable
import Kvdb.Lib.Pointwise

/-!
# Generations of the MemTable

A history runs `apply`, `freeze_mutable` and `retire_oldest_immutable` in any
order, and notes the records that `apply` accepted: those since the last freeze of
a table with records, and those of each frozen generation under its number.

`run_generational` says what the MemTable makes of it.  A generation's id is its
number as a 64-bit value, so the ids increase until the number wraps
(`ids_wrap`).
-/

namespace Kvdb

namespace MemTable

/-- `dump_oldest_immutable`: the records and the generation id. -/
def dumpOldestImmutable (m : MemTable) : Except Status (List InternalRecord × UInt64) :=
  match m.oldestImmutable with
  | .error e => .error e
  | .ok snapshot => .ok (snapshot.table, snapshot.generationId)

/-! ## Lookups over an order of places -/

/-- `o` is the record of the key with the highest sequence number, from the first of the places where it is. -/
def NewestIn (places : List (List InternalRecord)) (key : ArenaEntry) : Option InternalRecord → Prop
  | none => ∀ p ∈ places, ∀ r ∈ p, r.key ≠ key
  | some r => r.key = key ∧ ∃ (i : Nat) (p : List InternalRecord), places[i]? = some p ∧ r ∈ p ∧
      ∀ (j : Nat) (q : List InternalRecord) (r' : InternalRecord), places[j]? = some q → r' ∈ q →
        r'.key = key →
        r'.seqNum.toNat < r.seqNum.toNat ∨ (r'.seqNum = r.seqNum ∧ (r' = r ∨ i < j))

section

variable {key : ArenaEntry} {l : List InternalRecord}

theorem newestIn_single (hl : Ordered l) : NewestIn [l] key (Driver.findLatestByKey key l) := by
  cases h : Driver.findLatestByKey key l with
  | none =>
    intro p hp r hr hkey
    cases List.mem_singleton.mp hp
    exact Driver.findLatest_none h ⟨r, hr, hkey⟩
  | some r =>
    obtain ⟨⟨hr, hmax⟩, hkey⟩ := Driver.findLatest_newest hl h
    refine ⟨hkey, 0, l, rfl, hr, ?_⟩
    intro j q r' hq hr' hkey'
    obtain ⟨hj, hq'⟩ := List.getElem?_eq_some_iff.mp hq
    have hzero : j = 0 := by
      rw [List.length_singleton] at hj
      omega
    subst hzero
    cases hq
    have hle : r'.seqNum.toNat ≤ r.seqNum.toNat := hmax r' hr' (hkey'.trans hkey.symm)
    rcases Nat.lt_or_ge r'.seqNum.toNat r.seqNum.toNat with hlt | hge
    · exact .inl hlt
    · have heq : r'.seqNum.toNat = r.seqNum.toNat := by omega
      exact .inr ⟨UInt64.toNat_inj.mp heq, .inl (hl.unique hr' hr (hkey'.trans hkey.symm) heq)⟩

/-- One more place, behind the others. -/
theorem newestIn_snoc {places : List (List InternalRecord)} {o : Option InternalRecord} (ho : NewestIn places key o)
    (hl : Ordered l) : NewestIn (places ++ [l]) key (latestOf key o l) := by
  have hlast : (places ++ [l])[places.length]? = some l := by simp
  have hplace : ∀ (j : Nat) (q : List InternalRecord), (places ++ [l])[j]? = some q → places[j]? = some q ∨
      (j = places.length ∧ q = l) := by
    intro j q hq
    rcases Nat.lt_trichotomy j places.length with hlt | heq | hgt
    · rw [List.getElem?_append_left hlt] at hq
      exact .inl hq
    · subst heq
      rw [hlast] at hq
      cases hq
      exact .inr ⟨rfl, rfl⟩
    · rw [List.getElem?_eq_none (by rw [List.length_append, List.length_singleton]; omega)] at hq
      cases hq
  have hkeep : ∀ (i : Nat) (p : List InternalRecord), places[i]? = some p → (places ++ [l])[i]? = some p := by
    intro i p hp
    rw [List.getElem?_append_left (List.getElem?_eq_some_iff.mp hp).1]
    exact hp
  unfold latestOf
  have hsingle := @newestIn_single key l hl
  cases hc : Driver.findLatestByKey key l with
  | none =>
    rw [hc] at hsingle
    have hnone : ∀ r ∈ l, r.key ≠ key := hsingle l (by simp)
    dsimp only
    cases o with
    | none =>
      intro p hp
      rcases List.mem_append.mp hp with hp | hp
      · exact ho p hp
      · cases List.mem_singleton.mp hp
        exact hnone
    | some r =>
      obtain ⟨hkey, i, p, hp, hr, hmax⟩ := ho
      refine ⟨hkey, i, p, hkeep i p hp, hr, ?_⟩
      intro j q r' hq hr' hkey'
      rcases hplace j q hq with hq | ⟨-, rfl⟩
      · exact hmax j q r' hq hr' hkey'
      · exact absurd hkey' (hnone r' hr')
  | some c =>
    rw [hc] at hsingle
    obtain ⟨hckey, i', p', hp', hcl, hcmax⟩ := hsingle
    have hmem : c ∈ l := Driver.findLatest_newest hl hc |>.1.1
    have hnewest : ∀ r' ∈ l, r'.key = key → r'.seqNum.toNat < c.seqNum.toNat ∨ r' = c := by
      intro r' hr' hkey'
      rcases hcmax 0 l r' rfl hr' hkey' with hlt | ⟨heq, -⟩
      · exact .inl hlt
      · exact .inr (hl.unique hr' hmem (hkey'.trans hckey.symm) (congrArg UInt64.toNat heq))
    dsimp only
    cases o with
    | none =>
      refine ⟨hckey, places.length, l, hlast, hmem, ?_⟩
      intro j q r' hq hr' hkey'
      rcases hplace j q hq with hq | ⟨-, rfl⟩
      · exact absurd hkey' (ho q (List.mem_of_getElem? hq) r' hr')
      · rcases hnewest r' hr' hkey' with hlt | rfl
        · exact .inl hlt
        · exact .inr ⟨rfl, .inl rfl⟩
    | some r =>
      obtain ⟨hkey, i, p, hp, hr, hmax⟩ := ho
      have hi := (List.getElem?_eq_some_iff.mp hp).1
      simp only [uint64_gt_iff]
      by_cases hlt : r.seqNum.toNat < c.seqNum.toNat
      · rw [if_pos hlt]
        refine ⟨hckey, places.length, l, hlast, hmem, ?_⟩
        intro j q r' hq hr' hkey'
        rcases hplace j q hq with hq | ⟨-, rfl⟩
        · left
          rcases hmax j q r' hq hr' hkey' with hlt' | ⟨heq, -⟩
          · omega
          · rw [heq]
            exact hlt
        · rcases hnewest r' hr' hkey' with hlt' | rfl
          · exact .inl hlt'
          · exact .inr ⟨rfl, .inl rfl⟩
      · rw [if_neg hlt]
        refine ⟨hkey, i, p, hkeep i p hp, hr, ?_⟩
        intro j q r' hq hr' hkey'
        rcases hplace j q hq with hq | ⟨rfl, rfl⟩
        · exact hmax j q r' hq hr' hkey'
        · -- a record of the older place with the same sequence number does not replace the first one
          have hle : r'.seqNum.toNat ≤ r.seqNum.toNat := by
            rcases hnewest r' hr' hkey' with hlt' | rfl
            · omega
            · omega
          rcases Nat.lt_or_ge r'.seqNum.toNat r.seqNum.toNat with hlt' | hge
          · exact .inl hlt'
          · exact .inr ⟨UInt64.toNat_inj.mp (by omega), .inr hi⟩

theorem newestIn_foldl {places ls : List (List InternalRecord)} {o : Option InternalRecord}
    (ho : NewestIn places key o) (hls : ∀ l ∈ ls, Ordered l) :
    NewestIn (places ++ ls) key (ls.foldl (latestOf key) o) := by
  induction ls generalizing places o with
  | nil =>
    rw [List.append_nil]
    exact ho
  | cons l ls ih =>
    have hstep := newestIn_snoc ho (hls l (by simp))
    have hrest := ih hstep fun l' hl' => hls l' (by simp [hl'])
    rw [List.append_assoc] at hrest
    exact hrest

/-- `get` gives the newest record of the key, from the newest generation that has it. -/
theorem get_newestIn {m : MemTable} (h : ∀ p ∈ m.places, Ordered p) (key : ArenaEntry) :
    NewestIn m.places key (m.get key) :=
  newestIn_foldl (newestIn_single (h m.mutableTable (by simp [places])))
    fun l hl => h l (List.mem_cons_of_mem m.mutableTable hl)

/-- Places with the same records are interchangeable. -/
theorem NewestIn.perm {places places' : List (List InternalRecord)} {o : Option InternalRecord}
    (ho : NewestIn places key o) (hp : List.Forall₂ List.Perm places places') : NewestIn places' key o := by
  cases o with
  | none =>
    intro q hq r hr
    obtain ⟨p, hp', hperm⟩ := forall₂_right hp q hq
    exact ho p hp' r (hperm.mem_iff.mpr hr)
  | some r =>
    obtain ⟨hkey, i, p, hp', hr, hmax⟩ := ho
    rcases forall₂_getElem? hp i with ⟨hnone, -⟩ | ⟨p₁, q, hp₁, hq, hperm⟩
    · rw [hp'] at hnone
      cases hnone
    rw [hp'] at hp₁
    cases hp₁
    refine ⟨hkey, i, q, hq, hperm.mem_iff.mp hr, ?_⟩
    intro j q' r' hq' hr' hkey'
    rcases forall₂_getElem? hp j with ⟨-, hnone⟩ | ⟨p', q₁, hp'', hq₁, hperm'⟩
    · rw [hq'] at hnone
      cases hnone
    rw [hq'] at hq₁
    cases hq₁
    exact hmax j p' r' hp'' (hperm'.mem_iff.mpr hr') hkey'

theorem freezeMutable_get (m : MemTable) (key : ArenaEntry) : m.freezeMutable.get key = m.get key := by
  have hlast : latestOf key none m.mutableTable = Driver.findLatestByKey key m.mutableTable := by
    unfold latestOf
    cases Driver.findLatestByKey key m.mutableTable with
    | none => rfl
    | some r => rfl
  unfold freezeMutable
  split
  · rfl
  · unfold get
    dsimp only
    rw [List.reverse_append, List.map_append, List.foldl_append]
    show (m.immutableTables.reverse.map ImmutableTable.table).foldl (latestOf key)
      (latestOf key none m.mutableTable) = _
    rw [hlast]

end

/-! ## Histories -/

inductive Op where
  | apply (entry : InternalRecord)
  | freeze
  | retire (generationId : UInt64)

/-- The MemTable and the records that `apply` accepted: since the last freeze of a table with records, and
for each generation of the queue, which are numbered by these freezes. -/
structure History where
  memTable : MemTable := {}
  active : List InternalRecord := []
  /-- oldest first -/
  frozen : List (Nat × List InternalRecord) := []
  freezes : Nat := 0

namespace History

def step (h : History) : Op → History
  | .apply entry =>
    match h.memTable.apply entry with
    | .ok memTable => { h with memTable, active := h.active ++ [entry] }
    | .error _ => h
  | .freeze =>
    let memTable := h.memTable.freezeMutable
    if h.active = [] then { h with memTable }
    else
      { memTable
        active := []
        frozen := h.frozen ++ [(h.freezes + 1, h.active)]
        freezes := h.freezes + 1 }
  | .retire generationId =>
    match h.memTable.retireOldestImmutable generationId with
    | some memTable => { h with memTable, frozen := h.frozen.tail }
    | none => h

def run (h : History) : List Op → History
  | [] => h
  | op :: ops => (h.step op).run ops

/-- A generation of the queue, and what is noted of it. -/
structure Matches (t : ImmutableTable) (g : Nat × List InternalRecord) : Prop where
  id : t.generationId = UInt64.ofNat g.1
  ordered : Ordered t.table
  perm : t.table.Perm g.2

/-- The MemTable has the accepted records, generation by generation. -/
structure Tracks (h : History) : Prop where
  ordered : Ordered h.memTable.mutableTable
  perm : h.memTable.mutableTable.Perm h.active
  queue : List.Forall₂ Matches h.memTable.immutableTables h.frozen
  next : h.memTable.nextGenerationId = UInt64.ofNat (h.freezes + 1)
  length : h.frozen.length ≤ h.freezes
  numbers : h.frozen.map Prod.fst = List.range' (h.freezes + 1 - h.frozen.length) h.frozen.length

theorem tracks_start : Tracks {} :=
  ⟨List.Pairwise.nil, List.Perm.nil, .nil, rfl, Nat.le_refl _, rfl⟩

theorem Tracks.step {h : History} (ht : Tracks h) (op : Op) : Tracks (h.step op) := by
  cases op with
  | apply entry =>
    rw [History.step]
    cases happly : h.memTable.apply entry with
    | error e => exact ht
    | ok memTable =>
      obtain ⟨t, hins, rfl⟩ := apply_ok happly
      refine ⟨Driver.insert_ordered ht.ordered hins, ?_, ht.queue, ht.next, ht.length, ht.numbers⟩
      have hperm := Driver.insert_perm hins
      refine hperm.trans ?_
      exact (List.Perm.cons entry ht.perm).trans (List.perm_append_singleton _ _).symm
  | freeze =>
    rw [History.step]
    have hempty : h.memTable.mutableTable = [] ↔ h.active = [] := by
      constructor
      · intro hnil
        exact List.Perm.eq_nil (hnil ▸ ht.perm.symm)
      · intro hnil
        exact List.Perm.eq_nil (hnil ▸ ht.perm)
    unfold freezeMutable
    by_cases hnil : h.active = []
    · rw [if_pos hnil, if_pos (hempty.mpr hnil)]
      exact ht
    · rw [if_neg hnil, if_neg (fun hm => hnil (hempty.mp hm))]
      have hlen := ht.length
      refine ⟨List.Pairwise.nil, List.Perm.nil, ?_, ?_, ?_, ?_⟩
      · exact List.rel_append ht.queue (.cons ⟨ht.next, ht.ordered, ht.perm⟩ .nil)
      · show h.memTable.nextGenerationId + 1 = _
        rw [ht.next, ← UInt64.ofNat_one, ← UInt64.ofNat_add]
      · show (h.frozen ++ [(h.freezes + 1, h.active)]).length ≤ h.freezes + 1
        rw [List.length_append, List.length_singleton]
        omega
      · dsimp only
        rw [List.map_append, ht.numbers, List.length_append, List.length_singleton, List.map_singleton]
        have hstart : h.freezes + 1 + 1 - (h.frozen.length + 1) = h.freezes + 1 - h.frozen.length := by omega
        rw [hstart, List.range'_concat]
        have hend : h.freezes + 1 - h.frozen.length + 1 * h.frozen.length = h.freezes + 1 := by omega
        rw [hend]
  | retire generationId =>
    rw [History.step]
    unfold retireOldestImmutable
    obtain ⟨memTable, active, frozen, freezes⟩ := h
    obtain ⟨hordered, hperm, hqueue, hnext, hlen, hnum⟩ := ht
    dsimp only at hordered hperm hqueue hnext hlen hnum ⊢
    cases htables : memTable.immutableTables with
    | nil =>
      dsimp only
      exact ⟨hordered, hperm, hqueue, hnext, hlen, hnum⟩
    | cons oldest rest =>
      dsimp only
      rw [htables] at hqueue
      cases hqueue with
      | @cons _ g _ rest' hg hrest =>
        by_cases hid : oldest.generationId ≠ generationId
        · rw [if_pos hid]
          refine ⟨hordered, hperm, ?_, hnext, hlen, hnum⟩
          rw [htables]
          exact .cons hg hrest
        · rw [if_neg hid]
          rw [List.length_cons] at hlen hnum
          rw [List.map_cons, List.range'_succ, List.cons.injEq] at hnum
          refine ⟨hordered, hperm, hrest, hnext, ?_, ?_⟩
          · show rest'.length ≤ freezes
            omega
          · show rest'.map Prod.fst = _
            rw [hnum.2]
            have hstart : freezes + 1 - (rest'.length + 1) + 1 = freezes + 1 - rest'.length := by omega
            rw [hstart]
            rfl

theorem Tracks.run {h : History} (ht : Tracks h) (ops : List Op) : Tracks (h.run ops) := by
  induction ops generalizing h with
  | nil => exact ht
  | cons op ops ih => exact ih (ht.step op)

/-- What a MemTable does after any history. -/
structure Generational (h : History) : Prop where
  /-- lookups find the highest sequence number, and on a tie the newer generation -/
  get : ∀ key, NewestIn (h.active :: (h.frozen.map Prod.snd).reverse) key (h.memTable.get key)
  freezeGet : ∀ key, h.memTable.freezeMutable.get key = h.memTable.get key
  freezeEmpty : h.memTable.mutableTable = [] → h.memTable.freezeMutable = h.memTable
  /-- the oldest generation goes when its id matches -/
  retire : ∀ id, (∃ oldest rest, h.memTable.immutableTables = oldest :: rest ∧ oldest.generationId = id ∧
      h.memTable.retireOldestImmutable id = some { h.memTable with immutableTables := rest }) ∨
    ((∀ oldest, h.memTable.immutableTables.head? = some oldest → oldest.generationId ≠ id) ∧
      h.memTable.retireOldestImmutable id = none)
  /-- ids are the numbers of the generations, which are consecutive, modulo 2^64 -/
  ids : h.memTable.immutableTables.map ImmutableTable.generationId = (h.frozen.map Prod.fst).map UInt64.ofNat ∧
    h.frozen.map Prod.fst = List.range' (h.freezes + 1 - h.frozen.length) h.frozen.length
  increasing : h.freezes < 2 ^ 64 → (h.memTable.immutableTables.map ImmutableTable.generationId).Pairwise (· < ·)
  /-- the oldest generation is dumped as the records accepted for it, in order -/
  dump : ∀ n records rest, h.frozen = (n, records) :: rest →
    ∃ l, h.memTable.dumpOldestImmutable = .ok (l, UInt64.ofNat n) ∧ Ordered l ∧ l.Perm records

theorem Tracks.generational {h : History} (ht : Tracks h) : Generational h := by
  have hids : h.memTable.immutableTables.map ImmutableTable.generationId =
      (h.frozen.map Prod.fst).map UInt64.ofNat := by
    have hqueue := ht.queue
    generalize h.memTable.immutableTables = tables at hqueue
    generalize h.frozen = frozen at hqueue
    induction hqueue with
    | nil => rfl
    | cons hm _ ih =>
      rw [List.map_cons, List.map_cons, List.map_cons, ih, hm.id]
  have hplaces : List.Forall₂ List.Perm h.memTable.places (h.active :: (h.frozen.map Prod.snd).reverse) := by
    refine .cons ht.perm ?_
    rw [List.map_reverse]
    rw [← List.map_reverse, ← List.map_reverse, List.forall₂_map_left_iff, List.forall₂_map_right_iff]
    exact (List.forall₂_reverse_iff.mpr ht.queue).imp fun _ _ hm => hm.perm
  have hordered : ∀ p ∈ h.memTable.places, Ordered p := by
    intro p hp
    rcases List.mem_cons.mp hp with rfl | hp
    · exact ht.ordered
    · obtain ⟨t, hmem, rfl⟩ := List.mem_map.mp hp
      obtain ⟨g, -, hm⟩ := forall₂_right ht.queue.flip t (List.mem_reverse.mp hmem)
      exact hm.ordered
  refine ⟨?_, freezeMutable_get h.memTable, ?_, ?_, ⟨hids, ht.numbers⟩, ?_, ?_⟩
  · intro key
    exact (get_newestIn hordered key).perm hplaces
  · intro hnil
    unfold freezeMutable
    rw [if_pos hnil]
  · intro id
    unfold retireOldestImmutable
    cases htables : h.memTable.immutableTables with
    | nil =>
      right
      exact ⟨by simp, rfl⟩
    | cons oldest rest =>
      by_cases hid : oldest.generationId ≠ id
      · right
        refine ⟨?_, if_pos hid⟩
        intro o ho
        cases ho
        exact hid
      · left
        exact ⟨oldest, rest, rfl, not_not.mp hid, if_neg hid⟩
  · intro hlt
    rw [hids, ht.numbers, List.pairwise_map]
    have hlen := ht.length
    have hsize : UInt64.size = 2 ^ 64 := rfl
    refine (List.pairwise_lt_range').imp_of_mem ?_
    intro a b ha hb hab
    rw [List.mem_range'] at ha hb
    obtain ⟨i, hi, rfl⟩ := ha
    obtain ⟨j, hj, rfl⟩ := hb
    rw [UInt64.lt_iff_toNat_lt, UInt64.toNat_ofNat_of_lt' (by omega), UInt64.toNat_ofNat_of_lt' (by omega)]
    exact hab
  · intro n records rest hfrozen
    have hqueue := ht.queue
    rw [hfrozen] at hqueue
    unfold dumpOldestImmutable oldestImmutable
    cases htables : h.memTable.immutableTables with
    | nil =>
      rw [htables] at hqueue
      cases hqueue
    | cons oldest tables =>
      rw [htables] at hqueue
      cases hqueue with
      | cons hm _ =>
        refine ⟨oldest.table, ?_, hm.ordered, hm.perm⟩
        rw [← hm.id]

/-- **Generations.** -/
theorem run_generational (ops : List Op) : Generational (run {} ops) := (tracks_start.run ops).generational

/-- One record put, frozen and retired, for each of the generations `1` to `n`. -/
def rounds (entry : InternalRecord) (n : Nat) : List Op :=
  (List.range n).flatMap fun i => [.apply entry, .freeze, .retire (UInt64.ofNat (i + 1))]

theorem run_append (h : History) (ops ops' : List Op) : h.run (ops ++ ops') = (h.run ops).run ops' := by
  induction ops generalizing h with
  | nil => rfl
  | cons op ops ih => exact ih (h.step op)

theorem run_rounds (entry : InternalRecord) (n : Nat) :
    ((run {} (rounds entry n)).memTable = { nextGenerationId := UInt64.ofNat (n + 1) }) ∧
      (run {} (rounds entry n)).active = [] := by
  induction n with
  | zero => exact ⟨rfl, rfl⟩
  | succ n ih =>
    obtain ⟨hmem, hactive⟩ := ih
    unfold rounds
    rw [List.range_succ, List.flatMap_append, run_append]
    change ((run (run {} (rounds entry n)) _).memTable = _) ∧ (run (run {} (rounds entry n)) _).active = []
    generalize run {} (rounds entry n) = h at hmem hactive
    obtain ⟨memTable, active, frozen, freezes⟩ := h
    dsimp only at hmem hactive
    subst hmem hactive
    rw [List.flatMap_singleton]
    simp [run, step, apply, Driver.insert, freezeMutable, retireOldestImmutable]

/-- After 2^64 - 1 generations the number of the next one wraps: ids no longer increase. -/
theorem ids_wrap : ∃ ops, ¬ ((run {} ops).memTable.immutableTables.map ImmutableTable.generationId).Pairwise
    (· < ·) := by
  let entry : InternalRecord := ⟨.ofByte 97, .ofByte 97, .put, 1⟩
  refine ⟨rounds entry (2 ^ 64 - 2) ++ [.apply entry, .freeze, .apply entry, .freeze], ?_⟩
  rw [run_append]
  obtain ⟨hmem, hactive⟩ := run_rounds entry (2 ^ 64 - 2)
  generalize run {} (rounds entry (2 ^ 64 - 2)) = h at hmem hactive
  obtain ⟨memTable, active, frozen, freezes⟩ := h
  dsimp only at hmem hactive
  subst hmem hactive
  simp [run, step, apply, Driver.insert, freezeMutable]

end History

end MemTable

end Kvdb
