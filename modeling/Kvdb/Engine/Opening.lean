import Kvdb.Engine.Writing
import Kvdb.Manifest.MoreLevels

/-!
# Opening a database

`Engine::open` on a disk that shows the map `v`: the log is replayed into memory
and rewritten into the next log, which one edit then selects.  Whatever happens
on the way, the disk shows `v` all the time, under the old log or the new one.

An open that meets no fault and whose options fit the disk (`Openable`) returns.
-/

namespace Kvdb

open Faulty Bytes Recency

/-! ## Tables under another number of levels -/

section

variable {lm lm' : LevelManager} {c : StagedCounters} {files : UInt32 → Option (List InternalRecord)}
  {rs : List InternalRecord} {v : View}

theorem tableRecs_congr (hs : SameTables lm lm') : tableRecs lm' files = tableRecs lm files := by
  ext r
  constructor
  · rintro ⟨level, t, ht, hr⟩
    rw [hs.tables] at ht
    exact ⟨level, t, ht, hr⟩
  · rintro ⟨level, t, ht, hr⟩
    rw [← hs.tables] at ht
    exact ⟨level, t, ht, hr⟩

theorem Shown.congr_levels (h : Shown lm c files rs v) (hs : SameTables lm lm') : Shown lm' c files rs v := by
  have hset : tableRecs lm' files = tableRecs lm files := tableRecs_congr hs
  refine ⟨h.catalog.congr hs, ?_, ⟨?_, ?_⟩, h.ascending, ?_, ?_, ?_, ?_, ?_⟩
  · intro level t ht
    rw [hs.tables] at ht
    exact h.stored level t ht
  · intro l l' hlt t ht u hu
    rw [hs.tables] at ht hu
    exact h.recent.levels l l' hlt t ht u hu
  · intro t ht u hu
    rw [hs.tables] at ht hu
    exact h.recent.newestFirst t ht u hu
  · rw [hset]
    exact h.newer
  · rw [hset]
    exact h.bounded
  · rw [hset]
    exact h.unique
  · rw [hset]
    exact h.valid
  · rw [hset]
    exact h.shows

end

/-! ## The edit that selects the next log -/

/-- The edit of an open. -/
def walEdit (id : UInt32) (next : UInt64) : VersionEdit where
  currentWalId := some id.toUInt64
  nextSequenceNumber := some next

theorem walEdit_valid {id : UInt32} {next : UInt64} (hid : id ≠ 0) (hnext : next ≠ 0) :
    (walEdit id next).validate = .ok () := by
  have hid' : id.toUInt64 ≠ 0 := by
    intro h
    apply hid
    have h' := congrArg UInt64.toNat h
    rw [UInt32.toNat_toUInt64] at h'
    exact UInt32.toNat_inj.mp h'
  unfold VersionEdit.validate walEdit
  simp [checkedU32Count, hid', hnext, ok_bind]

/-- An edit of counters is staged when they do not fall. -/
theorem walEdit_staged {lm : LevelManager} {c : StagedCounters} (h : Catalog lm c) {id : UInt32} {next : UInt64}
    (hid : c.currentWalId.toNat ≤ id.toNat) (hid0 : id ≠ 0) (hnext : c.nextSequenceNumber.toNat ≤ next.toNat)
    (hnext0 : next ≠ 0) :
    stageApply lm c (walEdit id next) = .ok (lm, ⟨c.nextTableId, id.toUInt64, next⟩) := by
  have hid' : id.toUInt64 ≠ 0 := by
    intro h
    apply hid0
    have h' := congrArg UInt64.toNat h
    rw [UInt32.toNat_toUInt64] at h'
    exact UInt32.toNat_inj.mp h'
  have htable : c.nextTableId.toNat ≠ 0 := fun h0 => h.nextTableId (UInt64.toNat_inj.mp h0)
  refine stageApply_ok_iff.mpr ⟨walEdit_valid hid0 hnext0, ⟨lm, rfl, rfl⟩, ?_, ?_, ?_, ?_⟩
  · show (if (0 : UInt64) ≥ c.nextTableId then _ else Except.ok c.nextTableId) = .ok c.nextTableId
    refine if_neg ?_
    rw [ge_iff_le, uint64_le_iff]
    have h0 : (0 : UInt64).toNat = 0 := rfl
    omega
  · refine if_neg ?_
    rw [uint64_lt_iff]
    omega
  · refine if_neg ?_
    rw [uint64_lt_iff, UInt32.toNat_toUInt64]
    omega
  · exact ⟨h.nextTableId, hid', hnext0, fun level => (h.inv.levels level).congr fun t ht => h.id_lt level t ht⟩

theorem walEdit_prepare [Zlib] {id : UInt32} {next : UInt64} (hid : id ≠ 0) (hnext : next ≠ 0) :
    ∃ header, (walEdit id next).prepare = .ok header := by
  have hvalid := walEdit_valid hid hnext
  have hsize : (walEdit id next).payloadSize = .ok 28 := by
    unfold VersionEdit.payloadSize
    rw [hvalid, ok_bind]
    rfl
  have hcrc : ∃ crc, (walEdit id next).computeCrc32 = .ok crc := by
    unfold VersionEdit.computeCrc32
    rw [hvalid, ok_bind]
    exact ⟨_, rfl⟩
  obtain ⟨crc, hcrc⟩ := hcrc
  unfold VersionEdit.prepare
  rw [hsize, ok_bind, hcrc, ok_bind]
  exact ⟨_, rfl⟩

/-! ## The log into memory -/

section

variable {P : Permits} {e : Engine LogObject} {d : Disk EditLog}

/-- The memory and the next sequence number after the replay of `rs`. -/
structure Replayed (m : MemTable) (rs : List InternalRecord) (start next : UInt64) : Prop where
  immutableTables : m.immutableTables = []
  ordered : Ordered m.mutableTable
  perm : m.mutableTable.Perm rs
  start_le : start.toNat ≤ next.toNat
  seq_lt : ∀ r ∈ rs, r.seqNum.toNat < next.toNat

theorem Replayed.step {m : MemTable} {done : List InternalRecord} {r : InternalRecord} {start next : UInt64}
    (h : Replayed m done start next) (hr : r.seqNum.toNat < 2 ^ 64 - 1)
    (hdone : ∀ x ∈ done, x.seqNum.toNat < r.seqNum.toNat) :
    ∃ m', m.apply r = .ok m' ∧ Replayed m' (done ++ [r]) start (max next (r.seqNum + 1)) := by
  obtain ⟨t, ht⟩ := Driver.insert_fresh (r := r) (l := m.mutableTable) (by
    rintro x hx ⟨-, hseq⟩
    have hlt := hdone x (h.perm.mem_iff.mp hx)
    rw [hseq] at hlt
    omega)
  have happ : m.apply r = .ok { m with mutableTable := t } := by
    unfold MemTable.apply
    rw [ht]
  have hsucc : (r.seqNum + 1).toNat = r.seqNum.toNat + 1 := by
    rw [UInt64.toNat_add, UInt64.toNat_one]
    exact Nat.mod_eq_of_lt (by omega)
  have hmax : (max next (r.seqNum + 1)).toNat = max next.toNat (r.seqNum.toNat + 1) := by
    rw [toNat_max, hsucc]
  refine ⟨_, happ, h.immutableTables, Driver.insert_ordered h.ordered ht, ?_, ?_, ?_⟩
  · have h1 : t.Perm (r :: m.mutableTable) := Driver.insert_perm ht
    exact h1.trans ((h.perm.cons r).trans (List.perm_append_singleton r done).symm)
  · have := h.start_le
    omega
  · intro x hx
    rw [hmax]
    rcases List.mem_append.mp hx with hx | hx
    · have := h.seq_lt x hx
      omega
    · rw [List.mem_singleton.mp hx]
      omega

theorem replayRecords_triple {rs done : List InternalRecord} {start : UInt64}
    {E C : Engine LogObject → Disk EditLog → Prop}
    (hasc : (done ++ rs).Pairwise fun a b => a.seqNum.toNat < b.seqNum.toNat)
    (hlt : ∀ r ∈ rs, r.seqNum.toNat < 2 ^ 64 - 1) (h : Replayed e.mem done start e.nextSequence) :
    Triple P (Engine.replayRecords rs) e d
      (fun _ e' d' => d' = d ∧ ∃ m next, e' = { e with mem := m, nextSequence := next } ∧
        Replayed m (done ++ rs) start next) E C := by
  induction rs generalizing e done with
  | nil =>
    refine triple_pure ⟨rfl, e.mem, e.nextSequence, rfl, ?_⟩
    rw [List.append_nil]
    exact h
  | cons r rs ih =>
    have hr := hlt r List.mem_cons_self
    have hdone : ∀ x ∈ done, x.seqNum.toNat < r.seqNum.toNat := fun x hx =>
      (List.pairwise_append.mp hasc).2.2 x hx r List.mem_cons_self
    obtain ⟨m', happ, hstep⟩ := h.step hr hdone
    refine Triple.bind (Q := fun _ e' d' => d' = d ∧
      e' = { e with mem := m', nextSequence := max e.nextSequence (r.seqNum + 1) }) ?_ ?_
    · refine triple_get fun f => ?_
      rw [show ({ engine := e, disk := d, faults := f } : World EditLog LogObject).engine.mem.apply r =
        .ok m' from happ]
      refine triple_lift (fun s hs => by cases hs) fun m hm => ?_
      cases hm
      refine triple_modify (triple_ensure (fun hb => ?_) fun _ => triple_set ⟨rfl, rfl⟩)
      rw [bne_eq_false_iff_eq] at hb
      omega
    · rintro _ e₁ d₁ ⟨rfl, rfl⟩
      have hrest := ih (e := { e with mem := m', nextSequence := max e.nextSequence (r.seqNum + 1) })
        (by simpa using hasc) (fun x hx => hlt x (List.mem_cons_of_mem _ hx)) hstep
      simpa using hrest

end

/-! ## The log into the next log -/

section

variable [Zlib] {P : Permits} {e : Engine LogObject} {d : Disk EditLog}

theorem rewriteRecords_triple {id : UInt32} {rs done : List InternalRecord} {b : List UInt8}
    {C : Engine LogObject → Disk EditLog → Prop} (hb : d.wals id = some b)
    (hw : Writable b id done) (hvalid : ∀ r ∈ rs, r.type.isValid = true)
    (hcrash : ∀ b', C e (d.setWal id b')) :
    Triple P (Engine.rewriteRecords ⟨id, true⟩ rs) e d
      (fun _ e' d' => e' = e ∧ ∃ b', d' = d.setWal id (some b') ∧ Writable b' id (done ++ rs))
      (fun e' d' => (∃ k s, P .openWrite (.err k s)) ∧ e' = e ∧ ∃ b', d' = d.setWal id b') C := by
  induction rs generalizing d b done with
  | nil =>
    refine triple_pure ⟨rfl, b, ?_, ?_⟩
    · rw [← hb, Disk.setWal_self]
    · rw [List.append_nil]
      exact hw
  | cons r rs ih =>
    refine Triple.bind (Q := fun _ e' d' => e' = e ∧ ∃ b', d' = d.setWal id (some b') ∧
      Writable b' id (done ++ [r]))
      ?_ ?_
    · refine triple_writeWal hb hw (hvalid r List.mem_cons_self) (fun b' hw' => ⟨rfl, b', rfl, hw'⟩) ?_ ?_
      · rintro hp b' -
        exact ⟨hp, rfl, _, rfl⟩
      · intro b' _
        exact hcrash _
    · rintro _ e₁ d₁ ⟨rfl, b', rfl, hw'⟩
      have hrest := ih (d := d.setWal id (some b')) (b := b') (Disk.setWal_wals _ _ _) hw'
        (fun x hx => hvalid x (List.mem_cons_of_mem _ hx)) (fun b'' => by rw [Disk.setWal_setWal]; exact hcrash _)
      simpa using hrest

variable {n n' : Nat} {v : View} {rs : List InternalRecord}

/-- No operation reports an error. -/
def Quiet (P : Permits) : Prop := ∀ site k s, ¬ P site (.err k s)

/-- An engine on its way to open: the version is loaded, the log is not. -/
structure Loaded (n : Nat) (e : Engine LogObject) (d : Disk EditLog) (rs : List InternalRecord) (v : View) : Prop where
  closed : e.closed = false
  options : e.options.validate = .ok ()
  limit : e.options.compaction.maxLevels.toNat = n
  levelCount : e.levels.levelCount = n
  manifest : e.manifest = some ⟨false⟩
  persisted : Persisted n d e.levels e.counters
  selects : Selects d e.counters rs
  shown : Shown e.levels e.counters d.tables rs v

theorem Loaded.diskOk (h : Loaded n e d rs v) : DiskOk n d v := ⟨_, _, rs, h.persisted, h.selects, h.shown⟩

theorem Loaded.setWal (h : Loaded n e d rs v) {id : UInt32} (hid : id ≠ e.counters.currentWalId.toUInt32)
    (b : Option (List UInt8)) : Loaded n e (d.setWal id b) rs v := by
  refine { h with persisted := h.persisted.congr rfl rfl, selects := ⟨h.selects.walId, ?_, h.selects.seq_lt⟩ }
  rw [Disk.setWal_wals_ne d (Ne.symm hid)]
  exact h.selects.log

/-- The next log, written and selected. -/
theorem Loaded.switched (h : Loaded n e d rs v) {id : UInt32} {b : List UInt8} (hb : d.wals id = some b)
    (hw : Writable b id rs) {next : UInt64}
    (hnext : e.counters.nextSequenceNumber.toNat ≤ next.toNat) {c : StagedCounters}
    (hst : stageApply e.levels e.counters (walEdit id next) = .ok (e.levels, c))
    (hc : c = ⟨e.counters.nextTableId, id.toUInt64, next⟩) :
    Persisted n (d.logged (walEdit id next)) e.levels c ∧ Selects (d.logged (walEdit id next)) c rs ∧
      Shown e.levels c d.tables rs v := by
  have hs := stageApply_ok_iff.mp hst
  refine ⟨h.persisted.commit hst, ⟨?_, ⟨b, ?_, ?_⟩, h.selects.seq_lt⟩, ?_⟩
  · rw [hc]
    show id.toUInt64.toNat < _
    rw [UInt32.toNat_toUInt64]
    exact UInt32.toNat_lt _
  · rw [hc]
    show d.wals id.toUInt64.toUInt32 = _
    rw [UInt32.toUInt32_toUInt64]
    exact hb
  · rw [hc]
    show Readable b id.toUInt64.toUInt32 rs
    rw [UInt32.toUInt32_toUInt64]
    exact hw.readable
  · refine h.shown.raise (catalog_of_structured (h.shown.catalog.structured.stageApply hst) hs.inv) ?_
    rw [hc]
    exact hnext

/-- The ends of an open: an error only where `T` allows one, and the disk shows `v` all the time. -/
def Opens (P : Permits) (T : Prop) (n n' : Nat) (v : View) (m : EngineM EditLog LogObject Unit) (e : Engine LogObject)
    (d : Disk EditLog) : Prop :=
  Triple P m e d (fun _ e' d' => Live n' { e' with opened := true } d' v)
    (fun _ d' => T ∧ (DiskOk n d' v ∨ DiskOk n' d' v)) (fun _ d' => DiskOk n d' v ∨ DiskOk n' d' v)

theorem replaceWal_opens {T : Prop} (hquiet : ¬ Quiet P → T) {id : UInt32}
    (hid : e.counters.currentWalId = id.toUInt64)
    (hfull : id.toNat = 2 ^ 32 - 1 → T) (h : Loaded n e d rs v)
    (hr : Replayed e.mem rs e.counters.nextSequenceNumber e.nextSequence) :
    Opens P T n' n v (Engine.replaceWal id rs) e d := by
  have herr : ∀ site, (∃ k s, P site (.err k s)) → T := fun site ⟨k, s, hp⟩ => hquiet fun hq => hq site k s hp
  have hcur : e.counters.currentWalId.toUInt32 = id := by rw [hid, UInt32.toUInt32_toUInt64]
  have hne : id + 1 ≠ e.counters.currentWalId.toUInt32 := by
    rw [hcur]
    exact succ_ne_self id
  have hset : ∀ b, Loaded n e (d.setWal (id + 1) b) rs v := h.setWal hne
  refine triple_ensure (fun hb => ⟨hfull ?_, .inr h.diskOk⟩) fun hlast => ?_
  · rw [bne_eq_false_iff_eq] at hb
    exact hb
  have hlast' : id.toNat ≠ 2 ^ 32 - 1 := by simpa using hlast
  have hsucc : (id + 1).toNat = id.toNat + 1 := by
    have := id.toNat_lt
    rw [UInt32.toNat_add, UInt32.toNat_one]
    exact Nat.mod_eq_of_lt (by omega)
  have hid0 : id + 1 ≠ 0 := by
    intro h0
    rw [h0] at hsucc
    cases hsucc
  have hnext0 : e.nextSequence ≠ 0 := by
    intro h0
    have h1 := hr.start_le
    rw [h0] at h1
    exact h.shown.catalog.nextSequenceNumber (UInt64.toNat_inj.mp (Nat.le_zero.mp h1))
  have hle : e.counters.currentWalId.toNat ≤ (id + 1).toNat := by
    rw [hid, UInt32.toNat_toUInt64]
    omega
  have hst := walEdit_staged h.shown.catalog hle hid0 hr.start_le hnext0
  refine triple_get fun f => ?_
  refine (triple_removeWal (Q := fun _ e' d' => e' = e ∧ d' = d.setWal (id + 1) none) ⟨rfl, rfl⟩
    (fun hp b => ⟨herr _ hp, .inr (hset b).diskOk⟩) fun b => .inr (hset b).diskOk).bind ?_
  rintro _ e₁ d₁ ⟨rfl, rfl⟩
  refine Triple.bind (Q := fun r e' d' => r = ⟨id + 1, true⟩ ∧ e' = e₁ ∧
    ∃ b, Writable b (id + 1) [] ∧ d' = d.setWal (id + 1) (some b)) ?_ ?_
  · refine triple_createWal (fun b hw => ⟨rfl, rfl, b, hw, by simp⟩) (fun hp b => ?_) fun b => ?_
    · rw [Disk.setWal_setWal]
      exact ⟨herr _ hp, .inr (hset b).diskOk⟩
    · rw [Disk.setWal_setWal]
      exact .inr (hset b).diskOk
  rintro replacement e₂ d₂ ⟨rfl, rfl, b, hw, rfl⟩
  refine Triple.bind (Q := fun _ e' d' => e' = e₂ ∧ ∃ b', d' = d.setWal (id + 1) (some b') ∧
    Writable b' (id + 1) rs)
    ?_ ?_
  · refine Triple.orElse (F := fun e' d' => (∃ k s, P .openWrite (.err k s)) ∧ e' = e₂ ∧
      ∃ b', d' = d.setWal (id + 1) b') ?_ ?_
    · have hrw := @rewriteRecords_triple _ P e₂ (d.setWal (id + 1) (some b)) (id + 1) rs [] b
        (fun _ d' => DiskOk n' d' v ∨ DiskOk n d' v) (Disk.setWal_wals _ _ _) hw
        (fun r hr => h.shown.valid r (.inr hr)) fun b' => by
          rw [Disk.setWal_setWal]
          exact .inr (hset b').diskOk
      refine hrw.mono ?_ ?_ fun _ _ hc => hc
      · rintro _ e₃ d₃ ⟨rfl, b', rfl, hw'⟩
        exact ⟨rfl, b', by simp, by simpa using hw'⟩
      · rintro e₃ d₃ ⟨hp, rfl, b', rfl⟩
        exact ⟨hp, rfl, b', by simp⟩
    · rintro s e₃ d₃ ⟨hp, rfl, b', rfl⟩
      refine Triple.bind (Q := fun _ e' d' => e' = e₃ ∧ d' = d.setWal (id + 1) b') ?_ ?_
      · exact Triple.ignore (triple_touch ⟨rfl, rfl⟩ (fun _ _ _ => ⟨rfl, rfl⟩) (.inr (hset b').diskOk))
      rintro _ e₄ d₄ ⟨rfl, rfl⟩
      refine Triple.bind (Q := fun _ e' d' => e' = e₄ ∧ ∃ b, d' = d.setWal (id + 1) b) ?_ ?_
      · refine Triple.ignore (triple_removeWal ⟨rfl, none, by simp⟩ (fun _ b => ⟨rfl, b, by simp⟩) fun b => ?_)
        rw [Disk.setWal_setWal]
        exact .inr (hset b).diskOk
      rintro _ e₅ d₅ ⟨rfl, b'', rfl⟩
      exact triple_fail ⟨herr _ hp, .inr (hset b'').diskOk⟩
  rintro _ e₃ d₃ ⟨rfl, b', rfl, hw'⟩
  have hl := hset (some b')
  obtain ⟨hp', hsel', hshown'⟩ := hl.switched (Disk.setWal_wals _ _ _) hw' hr.start_le hst rfl
  have hnew : DiskOk n ((d.setWal (id + 1) (some b')).logged (walEdit (id + 1) e₃.nextSequence)) v :=
    ⟨_, _, rs, hp', hsel', hshown'⟩
  refine Triple.bind (Q := fun _ e' d' => e' = e₃ ∧ d' = d.setWal (id + 1) (some b'))
    (triple_syncWal ⟨rfl, rfl⟩ (fun hp => ⟨herr _ hp, .inr hl.diskOk⟩) (.inr hl.diskOk)) ?_
  rintro _ e₄ d₄ ⟨rfl, rfl⟩
  refine Triple.bind (Q := fun _ e' d' =>
    e' = { e₄ with counters := ⟨e₄.counters.nextTableId, (id + 1).toUInt64, e₄.nextSequence⟩ } ∧
      d' = (d.setWal (id + 1) (some b')).logged (walEdit (id + 1) e₄.nextSequence)) ?_ ?_
  · refine triple_commit h.manifest (fun hp => by cases hp) ?_ ?_ ?_ ?_
    · rintro - (hno | ⟨s, hs⟩)
      · exact absurd hst (hno _)
      · obtain ⟨header, hh⟩ := walEdit_prepare hid0 hnext0
        have hs' : (walEdit (id + 1) e₄.nextSequence).prepare = .error s := hs
        rw [hh] at hs'
        cases hs'
    · intro _ lm c hst'
      have heq : stageApply e₄.levels e₄.counters (walEdit (id + 1) e₄.nextSequence) = .ok (lm, c) := hst'
      rw [hst] at heq
      cases heq
      exact ⟨rfl, rfl⟩
    · intro _ lm c _ k s hp
      refine ⟨herr _ ⟨k, s, hp⟩, .inr ?_⟩
      split
      · exact hl.diskOk
      · exact hnew
    · intro _ _ _ _
      exact ⟨.inr hl.diskOk, .inr hnew⟩
  rintro _ e₅ d₅ ⟨rfl, rfl⟩
  have hlive : Live n
      { e₄ with
        counters := ⟨e₄.counters.nextTableId, (id + 1).toUInt64, e₄.nextSequence⟩
        wal := some ⟨id + 1, true⟩
        currentWalId := id + 1
        opened := true }
      ((d.setWal (id + 1) (some b')).logged (walEdit (id + 1) e₄.nextSequence)) v := by
    refine ⟨⟨rfl, h.closed, h.options, h.limit, h.levelCount⟩, h.manifest, hp', rs,
      ⟨rfl, rfl, ⟨b', ?_, hw'⟩, hr.seq_lt,
      Nat.le_refl _⟩, hshown', ?_⟩
    · exact Disk.setWal_wals _ _ _
    · exact hshown'.memOk hr.immutableTables hr.ordered hr.perm
  have hdrop : id ≠ id + 1 := (succ_ne_self id).symm
  refine triple_modify (triple_removeWal (hlive.setWal hdrop none) (fun hp b => ?_) fun b => ?_)
  · exact ⟨herr _ hp, .inr (hlive.setWal hdrop b).diskOk⟩
  · exact .inr (hlive.setWal hdrop b).diskOk

theorem recoverWal_opens {T : Prop} (hquiet : ¬ Quiet P → T) {id : UInt32}
    (hid : e.counters.currentWalId = id.toUInt64)
    (hfull : id.toNat = 2 ^ 32 - 1 → T) (h : Loaded n e d rs v) {b : List UInt8} (hb : d.wals id = some b)
    (hmem : e.mem = {}) (hnext : e.nextSequence = e.counters.nextSequenceNumber) :
    Opens P T n' n v (Engine.recoverWal id b) e d := by
  have hcur : e.counters.currentWalId.toUInt32 = id := by rw [hid, UInt32.toUInt32_toUInt64]
  obtain ⟨b', hb', hr⟩ := h.selects.log
  rw [hcur] at hb' hr
  rw [hb] at hb'
  cases hb'
  obtain ⟨res, hload, hok, hcorrupt, hrecs⟩ := hr.load
  refine triple_lift (fun s hs => by rw [hload] at hs; cases hs) fun res' hres' => ?_
  rw [hload] at hres'
  cases hres'
  refine triple_ensure (fun hbad => by rw [hok, hcorrupt] at hbad; cases hbad) fun _ => ?_
  rw [hrecs]
  have hstart : Replayed e.mem [] e.counters.nextSequenceNumber e.nextSequence := by
    rw [hmem, hnext]
    exact ⟨rfl, List.Pairwise.nil, List.Perm.nil, Nat.le_refl _, fun r hr => by cases hr⟩
  have hasc : ([] ++ rs).Pairwise fun a b : InternalRecord => a.seqNum.toNat < b.seqNum.toNat := h.shown.ascending
  refine (replayRecords_triple hasc h.selects.seq_lt hstart).bind ?_
  rintro _ e₁ d₁ ⟨rfl, m, next, rfl, hrep⟩
  exact replaceWal_opens hquiet hid hfull
    ⟨h.closed, h.options, h.limit, h.levelCount, h.manifest, h.persisted, h.selects, h.shown⟩ hrep

theorem openWal_opens {T : Prop} (hquiet : ¬ Quiet P → T) (hfull : e.counters.currentWalId.toNat = 2 ^ 32 - 1 → T)
    (h : Loaded n e d rs v) (hmem : e.mem = {}) : Opens P T n' n v Engine.openWal e d := by
  have hid0 : (e.counters.currentWalId != 0 && decide (e.counters.currentWalId.toNat ≤ 2 ^ 32 - 1)) = true := by
    have h0 := h.shown.catalog.currentWalId
    have hlt := h.selects.walId
    rw [Bool.and_eq_true, decide_eq_true_iff, bne_iff_ne]
    exact ⟨h0, by omega⟩
  have hid : e.counters.currentWalId = e.counters.currentWalId.toUInt32.toUInt64 := by
    refine (toUInt32_toUInt64_of_lt ?_).symm
    have hlt := h.selects.walId
    omega
  refine triple_get fun f => triple_ensure (fun hb => ?_) fun _ => triple_modify ?_
  · rw [show (_ && _) = true from hid0] at hb
    cases hb
  obtain ⟨b, hb, -⟩ := h.selects.log
  rw [show ({ engine := e, disk := d, faults := f } : World EditLog LogObject).disk.wals
    ({ engine := e, disk := d, faults := f } : World EditLog LogObject).engine.counters.currentWalId.toUInt32 = some b
    from hb]
  have hl : Loaded n
      { e with
        currentWalId := e.counters.currentWalId.toUInt32
        nextSequence := e.counters.nextSequenceNumber } d rs v :=
    ⟨h.closed, h.options, h.limit, h.levelCount, h.manifest, h.persisted, h.selects, h.shown⟩
  have hlast : e.counters.currentWalId.toUInt32.toNat = 2 ^ 32 - 1 → T := by
    intro hmax
    apply hfull
    rw [hid, UInt32.toNat_toUInt64]
    exact hmax
  exact recoverWal_opens hquiet (e := { e with
    currentWalId := e.counters.currentWalId.toUInt32
    nextSequence := e.counters.nextSequenceNumber }) hid hlast hl hb hmem rfl

/-! ## The whole of open -/

theorem triple_openManifest {Q : Unit → Engine LogObject → Disk EditLog → Prop}
    {E C : Engine LogObject → Disk EditLog → Prop}
    (hok : ∀ lm c, replay e.levels.levelCount (EditLog.editsOf d.manifest) = .ok (lm, c) →
      Q () { e with manifest := some ⟨false⟩, levels := lm, counters := c }
        { d with manifest := some ⟨EditLog.editsOf d.manifest⟩ })
    (hrejected : (∀ v, replay e.levels.levelCount (EditLog.editsOf d.manifest) ≠ .ok v) → E e d)
    (herr : ¬ Quiet P → E e d) (hcrash : C e d) :
    Triple P Engine.openManifest e d Q E C := by
  intro f hf
  have hpop := (hf.pop e d .openManifest).pop e d .openHeader
  have hbad : ∀ site k s, World.fault ⟨e, d, f⟩ site = .err k s → E e d := by
    intro site k s hfault
    exact herr fun hq => hq site k s (hf.fault hfault (by simp))
  unfold Engine.openManifest
  simp only [ManifestStore.openManifest]
  cases h1 : World.fault ⟨e, d, f⟩ .openManifest with
  | err k s => exact ⟨hpop, hbad _ k s h1⟩
  | crash k => exact ⟨⟨_, k, hf.fault h1 (by simp)⟩, hcrash⟩
  | none =>
    cases h2 : World.fault ⟨e, d, f⟩ .openHeader with
    | err k s => exact ⟨hpop, hbad _ k s h2⟩
    | crash k => exact ⟨⟨_, k, hf.fault h2 (by simp)⟩, hcrash⟩
    | none =>
      dsimp only
      cases hrep : replay e.levels.levelCount (EditLog.editsOf d.manifest) with
      | error s =>
        simp only [EditLog.recover, hrep]
        exact ⟨hpop, hrejected fun v hv => by rw [hrep] at hv; cases hv⟩
      | ok r =>
        obtain ⟨lm, c⟩ := r
        have hinv : checkInvariants lm c = .ok () :=
          checkInvariants_ok_iff.mpr (replayFrom_inv (manifestInv_init _) hrep).1
        simp only [EditLog.recover, hrep, ok_bind, hinv]
        exact ⟨hpop, hok lm c hrep⟩

/-- The options fit the disk, and a log id is left. -/
structure Openable (P : Permits) (o : DBOptions) (n : Nat) (d : Disk EditLog) : Prop where
  quiet : Quiet P
  valid : o.validate = .ok ()
  errorIfExists : o.errorIfExists = false
  levels : n ≤ o.compaction.maxLevels.toNat
  walId : ∀ lm c, Persisted n d lm c → c.currentWalId.toNat ≠ 2 ^ 32 - 1

omit [Zlib] in
theorem replayFrom_levelCount {edits : List VersionEdit} {lm lm' : LevelManager} {c c' : StagedCounters}
    (h : replayFrom (lm, c) edits = .ok (lm', c')) : lm'.levelCount = lm.levelCount := by
  induction edits generalizing lm c with
  | nil =>
    cases h
    rfl
  | cons e es ih =>
    rw [replayFrom, List.foldlM_cons] at h
    obtain ⟨⟨lm₁, c₁⟩, h1, h2⟩ := except_bind_ok h
    exact (ih h2).trans (stageApply_levelCount h1)

omit [Zlib] in
theorem replay_levelCount {edits : List VersionEdit} {lm : LevelManager} {c : StagedCounters}
    (h : replay n edits = .ok (lm, c)) : lm.levelCount = n := by
  rw [replayFrom_levelCount h]
  simp [LevelManager.init, LevelManager.levelCount]

/-- **Open.** -/
theorem open_opens (o : DBOptions) (h : DiskOk n d v) :
    Triple P Engine.«open» { options := o } d
      (fun _ e' d' => Live o.compaction.maxLevels.toNat e' d' v)
      (fun _ d' => ¬ Openable P o n d ∧ (DiskOk n d' v ∨ DiskOk o.compaction.maxLevels.toNat d' v))
      (fun _ d' => DiskOk n d' v ∨ DiskOk o.compaction.maxLevels.toNat d' v) := by
  obtain ⟨lm, c, rs, hp, hsel, hshown⟩ := h
  have hdisk : DiskOk n d v := ⟨lm, c, rs, hp, hsel, hshown⟩
  obtain ⟨edits, hm, hr⟩ := hp.edits
  have hedits : EditLog.editsOf d.manifest = edits := by rw [hm]; rfl
  have hself : { d with manifest := some ⟨EditLog.editsOf d.manifest⟩ } = d := by rw [hedits, ← hm]
  refine triple_get fun f => triple_get fun f' => triple_lift (fun s hs => ⟨fun ho => ?_, .inl hdisk⟩)
    fun u hvalid => ?_
  · have hv := ho.valid
    rw [show o.validate = _ from hs] at hv
    cases hv
  refine Triple.bind (Q := fun _ e' d' => e' = { options := o } ∧ d' = d) ?_ ?_
  · refine Triple.bind (Q := fun _ e' d' => e' = { options := o } ∧ d' = d) ?_ ?_
    · refine triple_get fun f'' => ?_
      rw [show ({ engine := { options := o }, disk := d, faults := f'' } : World EditLog LogObject).disk.dir = true
        from hp.dir, if_pos rfl]
      refine triple_check (fun hb => ⟨fun ho => ?_, .inl hdisk⟩) fun _ => ⟨rfl, rfl⟩
      have hb' : (!o.errorIfExists) = false := hb
      rw [ho.errorIfExists] at hb'
      cases hb'
    · rintro _ e₁ d₁ ⟨rfl, rfl⟩
      exact triple_touch ⟨rfl, rfl⟩ (fun k s hpk => ⟨fun ho => ho.quiet _ k s hpk, .inl hdisk⟩) (.inl hdisk)
  rintro _ _ d ⟨rfl, rfl⟩
  refine triple_modify ?_
  have hcount : (Engine.start ({ options := o } : Engine LogObject)).levels.levelCount =
      o.compaction.maxLevels.toNat := by
    simp [Engine.start, LevelManager.init, LevelManager.levelCount]
  refine Triple.bind (Q := fun _ e' d' => d' = d ∧ ∃ lm', e' =
      { Engine.start ({ options := o } : Engine LogObject) with
        manifest := some ⟨false⟩
        levels := lm'
        counters := c } ∧
      Loaded o.compaction.maxLevels.toNat e' d rs v) ?_ ?_
  · refine triple_openManifest ?_ ?_ (fun hq => ⟨fun ho => hq ho.quiet, .inl hdisk⟩) (.inl hdisk)
    · intro lm' c' hr'
      rw [hedits, hcount] at hr'
      obtain ⟨rfl, hsame⟩ := replay_agree hr hr'
      exact ⟨hself, lm', rfl, ⟨rfl, hvalid, rfl, replay_levelCount hr', rfl, ⟨hp.dir, edits, hm, hr'⟩, hsel,
        hshown.congr_levels hsame⟩⟩
    · intro hno
      refine ⟨fun ho => ?_, .inl hdisk⟩
      obtain ⟨k, hk⟩ := Nat.exists_eq_add_of_le ho.levels
      have hw := replay_widen k hr
      rw [← hk] at hw
      rw [hedits, hcount] at hno
      exact hno _ hw
  rintro _ _ d ⟨rfl, lm', rfl, hl⟩
  refine Triple.bind (openWal_opens (T := ¬ Openable P o n d) (fun hq ho => hq ho.quiet)
    (fun hmax ho => ho.walId _ _ hp hmax) hl rfl) fun _ e₂ d₂ hlive => ?_
  exact triple_set hlive

end

end Kvdb
