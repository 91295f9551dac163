import Kvdb.Engine.Flushing

/-!
# Writes of the engine

`put_impl` from every state of an open engine.  The record is in the log before
it is in memory, so a lost process leaves a disk that shows the map with the
write or without it; which of the two, only an acknowledged write decides.

`compactRange_failed`: a manual compaction changes nothing that is shown.
-/

namespace Kvdb

open Faulty Bytes Recency

/-- The writes of a log, its syncs and the insertions into the memory do not fail. -/
structure SureWrites (P : Permits) : Prop where
  putAppend : ∀ k s, ¬ P .putAppend (.err k s)
  putSync : ∀ k s, ¬ P .putSync (.err k s)
  putApply : ∀ k s, ¬ P .putApply (.err k s)

/-- The map after a record. -/
def View.write (v : View) (r : InternalRecord) : View :=
  Function.update v r.key (if r.type = .put then some r.value else none)

/-- Key and value have the sizes `make_entry` accepts. -/
def Sized (key value : List UInt8) (type : RecType) : Prop :=
  key.length < 2 ^ 32 ∧ (type = .put → value.length < 2 ^ 32)

instance (key value : List UInt8) (type : RecType) : Decidable (Sized key value type) :=
  inferInstanceAs (Decidable (_ ∧ _))

/-- The map after `put_impl`. -/
def View.after (v : View) (key value : List UInt8) (type : RecType) : View :=
  if Sized key value type then
    fun k => if k.bytes = key then (if type = .put then ArenaEntry.makeEntry value else none) else v k
  else v

variable [Zlib] {n : Nat} {e e' : Engine LogObject} {d d' : Disk EditLog} {v v' : View} {P : Permits}

/-! ## The record in the log -/

/-- What a write finds: an open log over a version on disk. -/
structure Accepts (n : Nat) (e : Engine LogObject) (d : Disk EditLog) (lm : LevelManager) (c : StagedCounters)
    (rs : List InternalRecord) (v : View) (r : InternalRecord) : Prop where
  persisted : Persisted n d lm c
  logging : Logging e d c rs
  shown : Shown lm c d.tables rs v
  fresh : ∀ x ∈ e.mem.mutableTable, x.seqNum.toNat < e.nextSequence.toNat
  type : r.type.isValid = true
  seq : r.seqNum = e.nextSequence
  room : e.nextSequence.toNat ≠ 2 ^ 64 - 1

namespace Accepts

variable {lm : LevelManager} {c : StagedCounters} {rs : List InternalRecord} {r : InternalRecord}

theorem seq_lt (h : Accepts n e d lm c rs v r) : ∀ x ∈ rs, x.seqNum.toNat < r.seqNum.toNat := by
  rw [h.seq]
  exact h.logging.seq_lt

theorem next_toNat (h : Accepts n e d lm c rs v r) : (e.nextSequence + 1).toNat = e.nextSequence.toNat + 1 := by
  have h1 := h.room
  have h2 := e.nextSequence.toNat_lt
  rw [UInt64.toNat_add, UInt64.toNat_one]
  exact Nat.mod_eq_of_lt (by omega)

theorem shown_after (h : Accepts n e d lm c rs v r) : Shown lm c d.tables (rs ++ [r]) (v.write r) := by
  refine h.shown.append h.type h.seq_lt ?_
  rw [h.seq]
  exact h.logging.next_le

/-- The record fits into the memory. -/
theorem applies (h : Accepts n e d lm c rs v r) : ∃ m, e.mem.apply r = .ok m := by
  obtain ⟨t, ht⟩ := Driver.insert_fresh (r := r) (l := e.mem.mutableTable) (by
    rintro x hx ⟨-, hseq⟩
    have hlt := h.fresh x hx
    rw [hseq, h.seq] at hlt
    omega)
  refine ⟨{ e.mem with mutableTable := t }, ?_⟩
  unfold MemTable.apply
  rw [ht]

/-- The disk with the log's file replaced by one that recovers as `rs'`. -/
theorem diskOk_of (h : Accepts n e d lm c rs v r) {b : List UInt8} {rs' : List InternalRecord}
    (hb : Readable b e.currentWalId rs') (hs : Shown lm c d.tables rs' v')
      (hle : ∀ x ∈ rs', x.seqNum.toNat < 2 ^ 64 - 1) :
    DiskOk n (d.setWal e.currentWalId (some b)) v' := by
  have hid : c.currentWalId.toUInt32 = e.currentWalId := by
    rw [h.logging.walId, UInt32.toUInt32_toUInt64]
  refine ⟨lm, c, rs', h.persisted.congr rfl rfl, ⟨h.logging.selects.walId, ⟨b, ?_, ?_⟩, hle⟩, hs⟩
  · rw [hid, Disk.setWal_wals]
  · rw [hid]
    exact hb

theorem before (h : Accepts n e d lm c rs v r) {b : List UInt8} (hb : Readable b e.currentWalId rs) :
    DiskOk n (d.setWal e.currentWalId (some b)) v :=
  h.diskOk_of hb h.shown h.logging.selects.seq_lt

theorem after (h : Accepts n e d lm c rs v r) {b : List UInt8} (hb : Readable b e.currentWalId (rs ++ [r])) :
    DiskOk n (d.setWal e.currentWalId (some b)) (v.write r) := by
  refine h.diskOk_of hb h.shown_after ?_
  intro x hx
  rcases List.mem_append.mp hx with hx | hx
  · exact h.logging.selects.seq_lt x hx
  · rw [List.mem_singleton.mp hx, h.seq]
    have h1 := h.room
    have h2 := e.nextSequence.toNat_lt
    omega

end Accepts

omit [Zlib] in
theorem triple_withWal {k : WALHandle → EngineM EditLog LogObject Unit} {wal : WALHandle}
    {Q : Unit → Engine LogObject → Disk EditLog → Prop} {E C : Engine LogObject → Disk EditLog → Prop}
    (hw : e.wal = some wal) (hk : Triple P (k wal) e d Q E C) : Triple P (Engine.withWal k) e d Q E C := by
  refine triple_get fun f => ?_
  simp only [hw]
  exact hk

omit [Zlib] in
theorem syncOnWrite_triple {id : UInt32} (hw : e.wal = some ⟨id, true⟩)
    {E C : Engine LogObject → Disk EditLog → Prop}
    (herr : (∃ k s, P .putSync (.err k s)) → E e d) (hcrash : C e d) :
    Triple P Engine.syncOnWrite e d (fun _ e' d' => e' = e ∧ d' = d) E C := by
  refine triple_get fun f => ?_
  split
  · exact triple_withWal hw (triple_syncWal ⟨rfl, rfl⟩ herr hcrash)
  · exact triple_pure ⟨rfl, rfl⟩

omit [Zlib] in
theorem applyRecord_triple {r : InternalRecord} (happ : ∃ m, e.mem.apply r = .ok m)
    {E C : Engine LogObject → Disk EditLog → Prop} (herr : (∃ k s, P .putApply (.err k s)) → E e d)
      (hcrash : C e d) :
    Triple P (Engine.applyRecord r) e d
      (fun _ e' d' => ∃ m, e.mem.apply r = .ok m ∧ e' = { e with mem := m } ∧ d' = d) E C := by
  obtain ⟨m, hm⟩ := happ
  refine Triple.bind (Q := fun _ e' d' => e' = e ∧ d' = d)
    (triple_touch ⟨rfl, rfl⟩ (fun k s hp => herr ⟨k, s, hp⟩) hcrash) ?_
  rintro _ e₁ d₁ ⟨rfl, rfl⟩
  refine triple_get fun f => triple_lift (fun s hs => ?_) fun m' hm' => triple_set ⟨m', hm', rfl, rfl⟩
  rw [show ({ engine := e₁, disk := d₁, faults := f } : World EditLog LogObject).engine.mem.apply r =
    .ok m from hm] at hs
  cases hs

section

variable {lm : LevelManager} {c : StagedCounters} {rs : List InternalRecord} {r : InternalRecord} [EngineEnv]

/-- The steps of a write up to its acknowledgement; what follows starts with the record in the log
and in memory. -/
theorem writeRecord_triple (h : Accepts n e d lm c rs v r) {Q : Unit → Engine LogObject → Disk EditLog → Prop}
    {E C : Engine LogObject → Disk EditLog → Prop} (herr : ¬ SureWrites P → ∀ e' d', E e' d')
    (hcrash : ∀ e' d', DiskOk n d' v ∨ DiskOk n d' (v.write r) → C e' d')
    (hk : ∀ b m, Writable b e.currentWalId (rs ++ [r]) → e.mem.apply r = .ok m →
      Triple P Engine.maybeFlushUnlocked { e with mem := m, nextSequence := e.nextSequence + 1 }
        (d.setWal e.currentWalId (some b)) Q E C) :
    Triple P (Engine.writeRecord r) e d Q E C := by
  obtain ⟨b, hb, hw⟩ := h.logging.log
  refine Triple.bind (Q := fun _ e' d' => e' = e ∧ ∃ b', Writable b' e.currentWalId (rs ++ [r]) ∧
    d' = d.setWal e.currentWalId (some b')) ?_ ?_
  · refine triple_withWal h.logging.wal (triple_writeWal hb hw h.type (fun b' hw' => ⟨rfl, b', hw', rfl⟩) ?_ ?_)
    · rintro ⟨k, s, hp⟩ _ _
      exact herr (fun hs => hs.putAppend k s hp) _ _
    · rintro b' (hr | hr)
      · exact hcrash _ _ (.inl (h.before hr))
      · exact hcrash _ _ (.inr (h.after hr.readable))
  rintro _ e₁ d₁ ⟨rfl, b', hw', rfl⟩
  have hafter := hcrash e₁ _ (.inr (h.after hw'.readable))
  refine Triple.bind (syncOnWrite_triple h.logging.wal ?_ hafter) ?_
  · rintro ⟨k, s, hp⟩
    exact herr (fun hs => hs.putSync k s hp) _ _
  rintro _ e₂ d₂ ⟨rfl, rfl⟩
  refine Triple.bind (applyRecord_triple h.applies ?_ hafter) ?_
  · rintro ⟨k, s, hp⟩
    exact herr (fun hs => hs.putApply k s hp) _ _
  rintro _ e₃ d₃ ⟨m, hm, rfl, rfl⟩
  exact triple_modify (hk b' m hw' hm)

/-! ## Calls of an open engine -/

omit [EngineEnv] in
theorem Accepts.logging_after (h : Accepts n e d lm c rs v r) {b : List UInt8} {m : MemTable}
    (hb : Writable b e.currentWalId (rs ++ [r])) :
    Logging { e with mem := m, nextSequence := e.nextSequence + 1 } (d.setWal e.currentWalId (some b)) c
      (rs ++ [r]) := by
  refine ⟨h.logging.wal, h.logging.walId, ⟨b, Disk.setWal_wals _ _ _, hb⟩, ?_, ?_⟩
  · intro x hx
    show x.seqNum.toNat < (e.nextSequence + 1).toNat
    rw [h.next_toNat]
    rcases List.mem_append.mp hx with hx | hx
    · have := h.logging.seq_lt x hx
      omega
    · rw [List.mem_singleton.mp hx, h.seq]
      omega
  · show _ ≤ (e.nextSequence + 1).toNat
    rw [h.next_toNat]
    have := h.logging.next_le
    omega

omit [Zlib] [EngineEnv] in
theorem MemOk.fresh {m : MemTable} {S : Set InternalRecord} {next : Nat} (h : MemOk m S rs v)
    (hrs : ∀ x ∈ rs, x.seqNum.toNat < next) : ∀ x ∈ m.mutableTable, x.seqNum.toNat < next := by
  intro x hx
  refine hrs x (h.logged (MemTable.mem_records.mpr ⟨m.mutableTable, ?_, hx⟩))
  exact List.mem_append.mpr (.inr List.mem_cons_self)

omit [EngineEnv] in
/-- A live engine with one more record. -/
theorem Live.write (h : Live n e d v) (ht : r.type.isValid = true) (hseq : r.seqNum = e.nextSequence)
    (hroom : e.nextSequence.toNat ≠ 2 ^ 64 - 1) :
    ∃ rs, Accepts n e d e.levels e.counters rs v r ∧ ∀ b m, Writable b e.currentWalId (rs ++ [r]) →
      e.mem.apply r = .ok m →
      Live n { e with mem := m, nextSequence := e.nextSequence + 1 } (d.setWal e.currentWalId (some b))
        (v.write r) := by
  obtain ⟨rs, hlog, hshown, hmem⟩ := h.log
  have ha : Accepts n e d e.levels e.counters rs v r :=
    ⟨h.persisted, hlog, hshown, hmem.fresh hlog.seq_lt, ht, hseq, hroom⟩
  refine ⟨rs, ha, fun b m hb hm => ?_⟩
  refine ⟨⟨h.opened.opened, h.opened.closed, h.opened.options, h.opened.limit, h.opened.levelCount⟩, h.manifest,
    h.persisted.congr rfl rfl, rs ++ [r], ha.logging_after hb, ha.shown_after, ?_⟩
  refine hmem.apply hm ha.seq_lt fun x hx => ?_
  rw [hseq]
  exact Nat.lt_of_lt_of_le (hshown.bounded x hx) hlog.next_le

omit [EngineEnv] in
theorem Poisoned.write (h : Poisoned n e d v) (ht : r.type.isValid = true) (hseq : r.seqNum = e.nextSequence)
    (hroom : e.nextSequence.toNat ≠ 2 ^ 64 - 1) :
    ∃ lm c rs, Accepts n e d lm c rs v r ∧ ∀ b m, Writable b e.currentWalId (rs ++ [r]) →
      e.mem.apply r = .ok m →
      Poisoned n { e with mem := m, nextSequence := e.nextSequence + 1 } (d.setWal e.currentWalId (some b))
        (v.write r) := by
  obtain ⟨lm, c, rs, hp, hlog, hshown⟩ := h.log
  have ha : Accepts n e d lm c rs v r := ⟨hp, hlog, hshown, h.fresh, ht, hseq, hroom⟩
  refine ⟨lm, c, rs, ha, fun b m hb hm => ?_⟩
  obtain ⟨t', hins', rfl⟩ := MemTable.apply_ok hm
  refine ⟨⟨h.opened.opened, h.opened.closed, h.opened.options, h.opened.limit, h.opened.levelCount⟩, h.manifest,
    ?_, ?_, lm, c, rs ++ [r], hp.congr rfl rfl, ha.logging_after hb, ha.shown_after⟩
  · intro x hx
    show x.seqNum.toNat < (e.nextSequence + 1).toNat
    rw [ha.next_toNat]
    rcases List.mem_cons.mp ((Driver.insert_perm hins').mem_iff.mp hx) with rfl | hx
    · rw [hseq]
      omega
    · have := h.fresh x hx
      omega
  · exact h.pending

/-- Every end of a call that may turn `v` into `v'`; with a result the state is in `S`. -/
def Changes (P : Permits) (n : Nat) (v v' : View) (m : EngineM EditLog LogObject Unit)
    (S : Engine LogObject → Disk EditLog → Prop) (e : Engine LogObject) (d : Disk EditLog) : Prop :=
  Triple P m e d (fun _ => S)
    (fun e' d' => NoLoss P → SureWrites P → Failed n e' d' v ∨ Failed n e' d' v')
    (fun _ d' => NoLoss P → DiskOk n d' v ∨ DiskOk n d' v')

omit [EngineEnv] in
theorem Retains.changes {m : EngineM EditLog LogObject Unit} {S : Engine LogObject → Disk EditLog → Prop}
    (h : Retains P n v' m S e d) : Changes P n v v' m S e d :=
  Triple.mono h (fun _ _ _ hq => hq) (fun _ _ he hno _ => .inr (he hno)) fun _ _ hc hno => .inr (hc hno)

omit [Zlib] [EngineEnv] in
theorem makeEntry_ok {b : List UInt8} {x : ArenaEntry} (h : Engine.makeEntry b = .ok x) :
    b.length < 2 ^ 32 ∧ x.bytes = b ∧ ArenaEntry.makeEntry b = some x := by
  unfold Engine.makeEntry at h
  split at h
  · next y hy =>
    cases h
    have hlt : b.length < 2 ^ 32 := by
      by_contra hno
      rw [ArenaEntry.makeEntry, dif_neg hno] at hy
      cases hy
    rw [ArenaEntry.makeEntry, dif_pos hlt] at hy
    cases hy
    exact ⟨hlt, rfl, by rw [ArenaEntry.makeEntry, dif_pos hlt]⟩
  · cases h

omit [Zlib] [EngineEnv] in
theorem View.write_eq_after {key value : List UInt8} {type : RecType} (v : View) {k x : ArenaEntry} {seq : UInt64}
    (hk : Engine.makeEntry key = .ok k)
    (hx : (if type = .tombstone then Except.ok ArenaEntry.empty else Engine.makeEntry value) = .ok x) :
    Sized key value type ∧ v.write ⟨k, x, type, seq⟩ = v.after key value type := by
  obtain ⟨hlen, hbytes, -⟩ := makeEntry_ok hk
  have hvalue : type = .put → value.length < 2 ^ 32 ∧ ArenaEntry.makeEntry value = some x := by
    intro hput
    rw [if_neg (by rw [hput]; decide)] at hx
    obtain ⟨h1, -, h3⟩ := makeEntry_ok hx
    exact ⟨h1, h3⟩
  have hsized : Sized key value type := ⟨hlen, fun hput => (hvalue hput).1⟩
  refine ⟨hsized, ?_⟩
  funext k'
  unfold View.write View.after
  rw [if_pos hsized]
  have hiff : k' = k ↔ k'.bytes = key := by
    rw [← hbytes]
    exact ⟨fun h => by rw [h], ArenaEntry.ext_bytes⟩
  by_cases hkey : k' = k
  · rw [if_pos (hiff.mp hkey), hkey, Function.update_self]
    by_cases hput : type = .put
    · rw [if_pos hput, if_pos hput, (hvalue hput).2]
    · rw [if_neg hput, if_neg hput]
  · rw [Function.update_of_ne hkey, if_neg fun h => hkey (hiff.mpr h)]

/-- The record of a call that passes the checks. -/
theorem putImpl_triple (ho : Opened n e) (v : View) {key value : List UInt8} {type : RecType}
    {Q : Unit → Engine LogObject → Disk EditLog → Prop} {E C : Engine LogObject → Disk EditLog → Prop}
      (herr : E e d)
    (hk : ∀ r : InternalRecord, r.type.isValid = true → r.seqNum = e.nextSequence →
      e.nextSequence.toNat ≠ 2 ^ 64 - 1 → Sized key value type → v.write r = v.after key value type →
      Triple P (Engine.writeRecord r) e d Q E C) :
    Triple P (Engine.putImpl key value type) e d Q E C := by
  refine triple_ensureOpen ho.opened ho.closed (triple_ensure (fun _ => herr) fun ht => triple_get fun f => ?_)
  refine triple_ensure (fun _ => herr) fun hroom => triple_lift (fun _ _ => herr) fun k hkey => ?_
  refine triple_lift (fun _ _ => herr) fun x hx => ?_
  obtain ⟨hsized, hv⟩ := v.write_eq_after hkey hx
  exact hk _ ht rfl (by simpa using hroom) hsized hv

variable {key value : List UInt8} {type : RecType}

theorem putImpl_live (hP : TableFaults P) (h : Live n e d v) :
    Changes P n v (v.after key value type) (Engine.putImpl key value type)
      (fun e' d' => Sized key value type ∧ Live n e' d' (v.after key value type)) e d := by
  refine putImpl_triple h.opened v (fun _ _ => .inl (.inl h)) fun r ht hseq hroom hsized hv => ?_
  obtain ⟨rs, ha, hlive⟩ := h.write ht hseq hroom
  rw [hv] at hlive
  refine writeRecord_triple ha (fun hs _ _ _ hs' => absurd hs' hs) ?_ fun b m hb hm => ?_
  · intro _ d' hd' _
    rw [hv] at hd'
    exact hd'
  · have hl := hlive b m hb hm
    refine triple_get fun f => ?_
    split
    · exact Triple.mono (flushUnlocked_live hP hl).changes (fun _ _ _ hq => ⟨hsized, hq⟩) (fun _ _ he => he)
        fun _ _ hc => hc
    · exact triple_pure ⟨hsized, hl⟩

theorem putImpl_poisoned (hP : TableFaults P) (h : Poisoned n e d v) :
    Changes P n v (v.after key value type) (Engine.putImpl key value type)
      (fun e' d' => Sized key value type ∧ Poisoned n e' d' (v.after key value type)) e d := by
  refine putImpl_triple h.opened v (fun _ _ => .inl (.inr (.inl h))) fun r ht hseq hroom hsized hv => ?_
  obtain ⟨lm, c, rs, ha, hpois⟩ := h.write ht hseq hroom
  rw [hv] at hpois
  refine writeRecord_triple ha (fun hs _ _ _ hs' => absurd hs' hs) ?_ fun b m hb hm => ?_
  · intro _ d' hd' _
    rw [hv] at hd'
    exact hd'
  · have hl := hpois b m hb hm
    refine triple_get fun f => ?_
    split
    · exact Triple.mono (flushUnlocked_poisoned hP hl).changes (fun _ _ _ hq => hq.elim) (fun _ _ he => he)
        fun _ _ hc => hc
    · exact triple_pure ⟨hsized, hl⟩

/-- The log is closed: nothing is written. -/
theorem putImpl_stopped (h : Stopped n e d v) :
    Changes P n v (v.after key value type) (Engine.putImpl key value type) (fun _ _ => False) e d := by
  refine putImpl_triple h.opened v (fun _ _ => .inl (.inr (.inr h))) fun r _ _ _ _ _ => ?_
  obtain ⟨id, hwal⟩ := h.wal
  refine Triple.bind (Q := fun _ _ _ => False) (triple_withWal hwal ?_) fun _ _ _ h => h.elim
  exact triple_ensure (fun _ _ _ => .inl (.inr (.inr h))) fun hopen => by cases hopen

theorem putImpl_failed (hP : TableFaults P) (h : Failed n e d v) :
    Changes P n v (v.after key value type) (Engine.putImpl key value type)
      (fun e' d' => Sized key value type ∧ Failed n e' d' (v.after key value type)) e d := by
  rcases h with h | h | h
  · exact (putImpl_live hP h).mono (fun _ _ _ hq => ⟨hq.1, .inl hq.2⟩) (fun _ _ he => he) fun _ _ hc => hc
  · exact (putImpl_poisoned hP h).mono (fun _ _ _ hq => ⟨hq.1, .inr (.inl hq.2)⟩)
      (fun _ _ he => he) fun _ _ hc => hc
  · exact (putImpl_stopped h).mono (fun _ _ _ hq => hq.elim) (fun _ _ he => he) fun _ _ hc => hc

/-! ## Manual compactions -/

theorem compactLevels_live (hP : TableFaults P) {smallest largest : ArenaEntry} (hle : smallest ≤ largest)
    (h : Live n e d v) :
    Retains P n v (Engine.compactLevels smallest largest (List.range (e.levels.levelCount - 1)))
      (fun e' d' => Live n e' d' v) e d := by
  have hlevels : ∀ l ∈ List.range (e.levels.levelCount - 1), l + 1 < e.levels.levelCount := by
    intro l hl
    have := List.mem_range.mp hl
    omega
  refine (compactLevels_compacts hP hle h.ready hlevels).mono (fun _ _ _ hs => h.shrinks hs)
    (fun _ _ he hno => .inl (h.shrinks (he hno.compactCommit))) ?_
  rintro _ d₁ ⟨e₁, hs⟩ _
  exact (h.shrinks hs).diskOk

theorem compactLevels_stopped (hP : TableFaults P) {smallest largest : ArenaEntry} (hle : smallest ≤ largest)
    (h : Stopped n e d v) :
    Retains P n v (Engine.compactLevels smallest largest (List.range (e.levels.levelCount - 1)))
      (fun e' d' => Stopped n e' d' v) e d := by
  have hlevels : ∀ l ∈ List.range (e.levels.levelCount - 1), l + 1 < e.levels.levelCount := by
    intro l hl
    have := List.mem_range.mp hl
    omega
  refine (compactLevels_compacts hP hle h.ready hlevels).mono (fun _ _ _ hs => h.shrinks hs h.ready)
    (fun _ _ he hno => .inr (.inr (h.shrinks (he hno.compactCommit) h.ready))) ?_
  rintro _ d₁ ⟨e₁, hs⟩ _
  exact (h.shrinks hs h.ready).diskOk

theorem compactRange_live (hP : TableFaults P) (h : Live n e d v) (first last : List UInt8) :
    Retains P n v (Engine.compactRange first last) (fun e' d' => Live n e' d' v) e d := by
  unfold Engine.compactRange
  split
  · next smallest largest _ _ =>
    refine (flushUnlocked_live hP h).bind fun _ e₁ d₁ h₁ => ?_
    refine triple_ensure (fun _ _ => .inl h₁) fun hle => triple_get fun f => ?_
    refine compactLevels_live hP ?_ h₁
    rw [Bool.not_eq_true', ← Bool.not_eq_true, ArenaEntry.lt_iff] at hle
    exact not_lt.mp hle
  · exact triple_fail fun _ => .inl h

theorem compactRange_failed (hP : TableFaults P) (h : Failed n e d v) (first last : List UInt8) :
    Retains P n v (Engine.compactRange first last) (fun e' d' => Failed n e' d' v) e d := by
  rcases h with h | h | h
  · exact (compactRange_live hP h first last).mono (fun _ _ _ hq => .inl hq) (fun _ _ he => he) fun _ _ hc => hc
  · unfold Engine.compactRange
    split
    · exact (flushUnlocked_poisoned hP h).bind fun _ _ _ h => h.elim
    · exact triple_fail fun _ => .inr (.inl h)
  · unfold Engine.compactRange
    split
    · next smallest largest _ _ =>
      refine (flushUnlocked_stopped hP h).bind fun _ e₁ d₁ h₁ => ?_
      refine triple_ensure (fun _ _ => .inr (.inr h₁)) fun hle => triple_get fun f => ?_
      rw [Bool.not_eq_true', ← Bool.not_eq_true, ArenaEntry.lt_iff] at hle
      exact (compactLevels_stopped hP (not_lt.mp hle) h₁).mono (fun _ _ _ hq => .inr (.inr hq)) (fun _ _ he => he)
        fun _ _ hc => hc
    · exact triple_fail fun _ => .inr (.inr h)

end

end Kvdb
