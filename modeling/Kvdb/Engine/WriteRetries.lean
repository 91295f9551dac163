import Kvdb.Engine.CrashSafety

/-!
# Writes that fail behind the append

`put_impl` appends to the log, syncs it, applies the record to the memory and only
then takes the next sequence number.  When the sync or the apply fails, the record
is in the log and the next write gets the same number.

`LogSound e d F`: no key is twice in the active log under one number, and the keys
that the log holds under the number of the next write are in `F`.
-/

namespace Kvdb

open Faulty Bytes Recency

variable [Zlib] {P : Permits} {e e₁ e₂ : Engine LogObject} {d d₁ d₂ : Disk EditLog}

/-! ## The log while the engine flushes and compacts -/

/-- The log stays, or a new and empty one takes its place. -/
structure LogKept (e : Engine LogObject) (d : Disk EditLog) (e' : Engine LogObject) (d' : Disk EditLog) : Prop where
  opened : e'.opened = e.opened
  closed : e'.closed = e.closed
  next : e'.nextSequence = e.nextSequence
  mutable : ∀ r ∈ e'.mem.mutableTable, r ∈ e.mem.mutableTable
  log : (e'.wal = e.wal ∧ e'.currentWalId = e.currentWalId ∧ d'.wals e.currentWalId = d.wals e.currentWalId) ∨
    (e'.wal = some ⟨e'.currentWalId, true⟩ ∧ ∃ b, d'.wals e'.currentWalId = some b ∧
      Writable b e'.currentWalId [])

theorem LogKept.refl (e : Engine LogObject) (d : Disk EditLog) : LogKept e d e d :=
  ⟨rfl, rfl, rfl, fun _ h => h, .inl ⟨rfl, rfl, rfl⟩⟩

theorem LogKept.trans (h : LogKept e d e₁ d₁) (h' : LogKept e₁ d₁ e₂ d₂) : LogKept e d e₂ d₂ := by
  refine ⟨h'.opened.trans h.opened, h'.closed.trans h.closed, h'.next.trans h.next,
    fun r hr => h.mutable r (h'.mutable r hr), ?_⟩
  rcases h'.log with ⟨hw', hc', hd'⟩ | hnew
  · rcases h.log with ⟨hw, hc, hd⟩ | ⟨hw, b, hb, hwr⟩
    · refine .inl ⟨hw'.trans hw, hc'.trans hc, ?_⟩
      rw [hc] at hd'
      exact hd'.trans hd
    · refine .inr ⟨by rw [hw', hw, hc'], b, ?_, ?_⟩
      · rw [hc', hd']
        exact hb
      · rw [hc']
        exact hwr
  · exact .inr hnew

/-- A program that keeps the log, however it ends. -/
def KeepsLog {α : Type} (P : Permits) (m : EngineM EditLog LogObject α) (e : Engine LogObject)
    (d : Disk EditLog) : Prop :=
  Triple P m e d (fun _ e' d' => LogKept e d e' d') (fun e' d' => LogKept e d e' d') (fun _ _ => True)

theorem KeepsLog.bind {α β : Type} {m : EngineM EditLog LogObject α} {k : α → EngineM EditLog LogObject β}
    (hm : KeepsLog P m e d) (hk : ∀ a e₁ d₁, LogKept e d e₁ d₁ → KeepsLog P (k a) e₁ d₁) :
      KeepsLog P (m >>= k) e d :=
  Triple.bind hm fun a e₁ d₁ h₁ => (hk a e₁ d₁ h₁).mono (fun _ _ _ h => h₁.trans h)
    (fun _ _ h => h₁.trans h) fun _ _ h => h

theorem keepsLog_pure {α : Type} (a : α) : KeepsLog P (pure a) e d := triple_pure (.refl e d)

theorem keepsLog_fail {α : Type} (s : Status) : KeepsLog P (fail s : EngineM EditLog LogObject α) e d :=
  triple_fail (.refl e d)

theorem keepsLog_lift {α : Type} (x : Except Status α) : KeepsLog P (lift x) e d :=
  triple_return (fun _ _ => .refl e d) fun _ _ => .refl e d

theorem keepsLog_ensure (b : Bool) (s : Status) : KeepsLog P (ensure b s) e d :=
  triple_check (fun _ => .refl e d) fun _ => .refl e d

theorem keepsLog_get {α : Type} {k : World EditLog LogObject → EngineM EditLog LogObject α}
    (h : ∀ f, KeepsLog P (k ⟨e, d, f⟩) e d) : KeepsLog P (Faulty.get >>= k) e d := triple_get h

theorem keepsLog_onTables {α : Type} {site : Site} (hP : ∀ x, P site x) (m : Prog TableStore Status α) :
    KeepsLog P (onTables site m) e d := by
  have hkept : ∀ files, LogKept e d e { d with tables := files } := fun _ =>
    ⟨rfl, rfl, rfl, fun _ h => h, .inl ⟨rfl, rfl, rfl⟩⟩
  refine triple_onTables hP fun faults => ?_
  match m ⟨d.tables, faults⟩ with
  | (.ok a, s) => exact hkept s.files
  | (.err x, s) => exact hkept s.files
  | (.crash, s) => trivial

theorem keepsLog_set {g : Engine LogObject → Engine LogObject} (ho : (g e).opened = e.opened)
    (hcl : (g e).closed = e.closed) (hw : (g e).wal = e.wal) (hc : (g e).currentWalId = e.currentWalId)
      (hn : (g e).nextSequence = e.nextSequence)
    (hm : ∀ r ∈ (g e).mem.mutableTable, r ∈ e.mem.mutableTable) : KeepsLog P (modifyEngine g) e d :=
  triple_set ⟨ho, hcl, hn, hm, .inl ⟨hw, hc, rfl⟩⟩

/-- Only the version and the manifest changed. -/
structure OnlyVersion (e : Engine LogObject) (d : Disk EditLog) (e' : Engine LogObject) (d' : Disk EditLog) : Prop where
  opened : e'.opened = e.opened
  closed : e'.closed = e.closed
  wal : e'.wal = e.wal
  walId : e'.currentWalId = e.currentWalId
  next : e'.nextSequence = e.nextSequence
  mem : e'.mem = e.mem
  wals : d'.wals = d.wals

omit [Zlib] in
theorem OnlyVersion.kept [Zlib] (h : OnlyVersion e d e₁ d₁) : LogKept e d e₁ d₁ :=
  ⟨h.opened, h.closed, h.next, (fun r hr => by rw [h.mem] at hr; exact hr),
    .inl ⟨h.wal, h.walId, by rw [h.wals]⟩⟩

theorem commit_onlyVersion (site : Site) (edit : VersionEdit) :
    Triple P (commitManifest site edit) e d (fun _ e' d' => OnlyVersion e d e' d') (fun e' d' => OnlyVersion e d e' d')
      (fun _ _ => True) := by
  cases hm : e.manifest with
  | none =>
    intro f hf
    have hpop := hf.pop e d site
    unfold commitManifest onManifest
    simp only [World.pop, hm]
    exact ⟨hpop, rfl, rfl, rfl, rfl, rfl, rfl, rfl⟩
  | some object =>
    refine triple_commit hm (fun _ => ⟨rfl, rfl, rfl, rfl, rfl, rfl, rfl⟩)
      (fun _ _ => ⟨rfl, rfl, rfl, rfl, rfl, rfl, rfl⟩)
      ?_ ?_ fun _ _ _ _ => ⟨trivial, trivial⟩
    · intro _ lm c _
      exact ⟨rfl, rfl, rfl, rfl, rfl, rfl, rfl⟩
    · intro _ lm c _ k s _
      split
      · exact ⟨rfl, rfl, rfl, rfl, rfl, rfl, rfl⟩
      · exact ⟨rfl, rfl, rfl, rfl, rfl, rfl, rfl⟩

theorem keepsLog_commit (site : Site) (edit : VersionEdit) : KeepsLog P (commitManifest site edit) e d :=
  (commit_onlyVersion site edit).mono (fun _ _ _ h => h.kept) (fun _ _ h => h.kept) fun _ _ h => h

omit [Zlib] in
theorem MemTable.retire_mutable {m m' : MemTable} {id : UInt64} (h : m.retireOldestImmutable id = some m') :
    m'.mutableTable = m.mutableTable := by
  unfold MemTable.retireOldestImmutable at h
  split at h
  · cases h
  · split at h
    · cases h
    · cases h
      rfl

omit [Zlib] in
/-- Retiring a generation touches nothing else. -/
theorem retireOldest_triple (id : UInt64) :
    Triple P (Engine.retireOldest id) e d
      (fun _ e' d' => ∃ m, e' = { e with mem := m } ∧ m.mutableTable = e.mem.mutableTable ∧ d' = d)
      (fun e' d' => e' = e ∧ d' = d) (fun _ _ => True) := by
  refine triple_get fun f => ?_
  dsimp only
  split
  · exact triple_fail ⟨rfl, rfl⟩
  · next m hm => exact triple_set ⟨m, rfl, MemTable.retire_mutable hm, rfl⟩

theorem keepsLog_setWal {id : UInt32} (hid : id ≠ e.currentWalId) (b : Option (List UInt8)) :
    LogKept e d e (d.setWal id b) :=
  ⟨rfl, rfl, rfl, fun _ h => h, .inl ⟨rfl, rfl, Disk.setWal_wals_ne d (Ne.symm hid) b⟩⟩

/-- The log is closed without a fault. -/
def SureSwitch (P : Permits) : Prop := ∀ k s, ¬ P .flushClose (.err k s)

theorem switchWal_newLog (hS : SureSwitch P) {id old : UInt32} (hne : old ≠ id) {b : List UInt8}
    (hb : d.wals id = some b) (hw : Writable b id []) :
    let New := fun (e' : Engine LogObject) (d' : Disk EditLog) => e'.opened = e.opened ∧ e'.closed = e.closed ∧
      e'.nextSequence = e.nextSequence ∧ e'.mem = e.mem ∧ e'.wal = some ⟨e'.currentWalId, true⟩ ∧ ∃ b,
        d'.wals e'.currentWalId = some b ∧
      Writable b e'.currentWalId []
    Triple P (Engine.switchWal ⟨id, true⟩ old) e d (fun _ => New) New (fun _ _ => True) := by
  intro New
  refine Triple.bind (Q := fun _ e' d' => d' = d ∧ ∃ wal, e' = { e with wal := wal }) ?_ ?_
  · refine triple_get fun f => ?_
    dsimp only
    split
    · exact triple_pure ⟨rfl, e.wal, rfl⟩
    · split
      · exact triple_modify (triple_touch ⟨rfl, _, rfl⟩ (fun k s hp => absurd hp (hS k s)) trivial)
      · exact triple_pure ⟨rfl, e.wal, rfl⟩
  rintro _ e₁ d₁ ⟨rfl, wal, rfl⟩
  have hnew : ∀ b', New { e with wal := some ⟨id, true⟩, currentWalId := id } (d₁.setWal old b') := by
    intro b'
    refine ⟨rfl, rfl, rfl, rfl, rfl, b, ?_, hw⟩
    rw [Disk.setWal_wals_ne d₁ (Ne.symm hne)]
    exact hb
  exact triple_modify (triple_removeWal (hnew none) (fun _ b' => hnew b') fun _ => trivial)

theorem flushSwitching_keepsLog (hS : SureSwitch P) (oldest : ImmutableTable) (edit : VersionEdit) :
    KeepsLog P (Engine.flushSwitching oldest edit) e d := by
  have hne : e.currentWalId + 1 ≠ e.currentWalId := succ_ne_self _
  have hset : ∀ b, LogKept e d e (d.setWal (e.currentWalId + 1) b) := keepsLog_setWal hne
  refine triple_get fun f => triple_ensure (fun _ => .refl e d) fun _ => ?_
  refine (triple_removeWal (Q := fun _ e' d' => e' = e ∧ d' = d.setWal (e.currentWalId + 1) none) ⟨rfl, rfl⟩
    (fun _ b => hset b) fun _ => trivial).bind ?_
  rintro _ e₁ d₁ ⟨rfl, rfl⟩
  refine Triple.bind (Q := fun r e' d' => r = ⟨e₁.currentWalId + 1, true⟩ ∧ e' = e₁ ∧
    ∃ b, Writable b (e₁.currentWalId + 1) [] ∧ d' = d.setWal (e₁.currentWalId + 1) (some b)) ?_ ?_
  · refine triple_createWal (fun b hw => ⟨rfl, rfl, b, hw, by simp⟩) (fun _ b => ?_) fun _ => trivial
    rw [Disk.setWal_setWal]
    exact hset b
  rintro _ e₂ d₂ ⟨rfl, rfl, b, hw, rfl⟩
  refine Triple.bind (Q := fun _ e' d' => OnlyVersion e₂ (d.setWal (e₂.currentWalId + 1) (some b)) e' d') ?_ ?_
  · refine Triple.orElse (commit_onlyVersion _ _) fun s e₃ d₃ hv => ?_
    have hkept : LogKept e₂ d e₃ d₃ := (hset (some b)).trans hv.kept
    refine Triple.bind (Q := fun _ e' d' => e' = e₃ ∧ d' = d₃)
      (Triple.ignore (triple_touch ⟨rfl, rfl⟩ (fun _ _ _ => ⟨rfl, rfl⟩) trivial)) ?_
    rintro _ e₄ d₄ ⟨rfl, rfl⟩
    have hne' : e₂.currentWalId + 1 ≠ e₄.currentWalId := by
      rw [hv.walId]
      exact hne
    refine Triple.bind (Q := fun _ e' d' => LogKept e₂ d e' d') ?_ fun _ _ _ h => triple_fail h
    refine Triple.ignore (triple_removeWal ?_ (fun _ b' => ?_) fun _ => trivial)
    · exact hkept.trans (keepsLog_setWal hne' none)
    · exact hkept.trans (keepsLog_setWal hne' b')
  intro _ e₃ d₃ hv
  refine Triple.bind ((retireOldest_triple oldest.generationId).mono (fun _ _ _ h => h) ?_ fun _ _ h => h) ?_
  · rintro e₄ d₄ ⟨rfl, rfl⟩
    exact (hset (some b)).trans hv.kept
  rintro _ e₄ d₄ ⟨m, rfl, hmut, rfl⟩
  have hb : d₄.wals (e₂.currentWalId + 1) = some b := by
    rw [hv.wals]
    exact Disk.setWal_wals _ _ _
  have hkept : ∀ (e' : Engine LogObject) (d' : Disk EditLog), e'.opened = e₃.opened ∧ e'.closed = e₃.closed ∧
      e'.nextSequence = e₃.nextSequence ∧ e'.mem = m ∧
      e'.wal = some ⟨e'.currentWalId, true⟩ ∧ (∃ b, d'.wals e'.currentWalId = some b ∧
        Writable b e'.currentWalId []) →
      LogKept e₂ d e' d' := by
    rintro e' d' ⟨ho, hcl, hn, hm, hwal, hlog⟩
    refine ⟨ho.trans hv.opened, hcl.trans hv.closed, hn.trans hv.next, fun r hr => ?_, .inr ⟨hwal, hlog⟩⟩
    rw [hm, hmut, hv.mem] at hr
    exact hr
  exact (switchWal_newLog (e := { e₃ with mem := m }) hS hne.symm hb hw).mono (fun _ e' d' h => hkept e' d' h)
    (fun e' d' h => hkept e' d' h) fun _ _ h => h

section

variable [EngineEnv]

theorem flushOldest_keepsLog (hP : TableFaults P) (hS : SureSwitch P) : KeepsLog P Engine.flushOldestImmutable e d := by
  refine keepsLog_get fun f => ?_
  dsimp only
  split
  · exact keepsLog_pure ()
  · next oldest rest hi =>
    refine keepsLog_get fun f => (keepsLog_ensure _ _).bind fun _ e₁ d₁ _ => ?_
    refine KeepsLog.bind ?_ fun table e₂ d₂ _ => ?_
    · refine (keepsLog_lift _).bind fun built e₂ d₂ _ => ?_
      split
      · exact keepsLog_fail _
      · exact (keepsLog_onTables hP.flushTable _).bind fun layout e₃ d₃ _ => keepsLog_lift _
    · split
      · exact flushSwitching_keepsLog hS _ _
      · refine (keepsLog_commit _ _).bind fun _ e₃ d₃ _ => ?_
        refine (retireOldest_triple _).mono ?_ ?_ fun _ _ h => h
        · rintro _ e₄ d₄ ⟨m, rfl, hmut, rfl⟩
          exact ⟨rfl, rfl, rfl, (fun r hr => by rw [← hmut]; exact hr), .inl ⟨rfl, rfl, rfl⟩⟩
        · rintro e₄ d₄ ⟨rfl, rfl⟩
          exact .refl e₄ d₄

theorem flushLoop_keepsLog (hP : TableFaults P) (hS : SureSwitch P) (rounds : Nat) :
    KeepsLog P (Engine.flushLoop rounds) e d := by
  induction rounds generalizing e d with
  | zero => exact keepsLog_pure ()
  | succ rounds ih =>
    refine keepsLog_get fun f => ?_
    split
    · exact (flushOldest_keepsLog hP hS).bind fun _ e₁ d₁ _ => ih
    · exact keepsLog_pure ()

theorem runCompaction_keepsLog (hP : TableFaults P) (plan : CompactionPlan) :
    KeepsLog P (Engine.runCompaction plan) e d := by
  refine keepsLog_get fun f => (keepsLog_onTables hP.compactTables _).bind fun result e₁ d₁ _ => ?_
  cases result with
  | none => exact keepsLog_pure ()
  | some edit =>
    exact (keepsLog_commit _ _).bind fun _ e₂ d₂ _ => keepsLog_onTables hP.compactDrop _

theorem compactLoop_keepsLog (hP : TableFaults P) (rounds : Nat) : KeepsLog P (Engine.compactLoop rounds) e d := by
  induction rounds generalizing e d with
  | zero => exact keepsLog_get fun f => keepsLog_ensure _ _
  | succ rounds ih =>
    refine keepsLog_get fun f => ?_
    split
    · refine (keepsLog_lift _).bind fun plan e₁ d₁ _ => ?_
      cases plan with
      | none => exact keepsLog_pure ()
      | some plan => exact (runCompaction_keepsLog hP plan).bind fun _ e₂ d₂ _ => ih
    · exact keepsLog_pure ()

theorem flushUnlocked_keepsLog (hP : TableFaults P) (hS : SureSwitch P) : KeepsLog P Engine.flushUnlocked e d := by
  refine KeepsLog.bind ?_ fun _ e₁ d₁ _ => ?_
  · exact keepsLog_get fun f => (keepsLog_ensure _ _).bind fun _ e₁ d₁ _ => keepsLog_ensure _ _
  refine KeepsLog.bind (keepsLog_set rfl rfl rfl rfl rfl fun r hr => ?_) fun _ e₂ d₂ _ => ?_
  · rw [show ({ e₁ with mem := e₁.mem.freezeMutable } : Engine LogObject).mem.mutableTable = [] from
      e₁.mem.mutableTable_freeze] at hr
    cases hr
  refine keepsLog_get fun f => (flushLoop_keepsLog hP hS _).bind fun _ e₃ d₃ _ => keepsLog_get fun f => ?_
  split
  · exact compactLoop_keepsLog hP _
  · exact keepsLog_pure ()

theorem maybeFlush_keepsLog (hP : TableFaults P) (hS : SureSwitch P) : KeepsLog P Engine.maybeFlushUnlocked e d := by
  refine keepsLog_get fun f => ?_
  split
  · exact flushUnlocked_keepsLog hP hS
  · exact keepsLog_pure ()

end

/-! ## Numbers in the log -/

/-- Two records of a log are of different keys or have different numbers. -/
def Apart (a b : InternalRecord) : Prop := ¬ (a.key = b.key ∧ a.seqNum = b.seqNum)

structure LogSound (e : Engine LogObject) (d : Disk EditLog) (F : List (List UInt8)) : Prop where
  opened : e.opened = true
  closed : e.closed = false
  wal : e.wal = some ⟨e.currentWalId, true⟩
  fresh : ∀ r ∈ e.mem.mutableTable, r.seqNum.toNat < e.nextSequence.toNat
  log : ∃ b rs, d.wals e.currentWalId = some b ∧ Writable b e.currentWalId rs ∧ rs.Pairwise Apart ∧
    ∀ r ∈ rs, r.seqNum.toNat < e.nextSequence.toNat ∨ (r.seqNum = e.nextSequence ∧ r.key.bytes ∈ F)

variable {F F' : List (List UInt8)}

theorem LogSound.mono (h : LogSound e d F) (hsub : F ⊆ F') : LogSound e d F' := by
  obtain ⟨b, rs, hb, hw, hp, hseq⟩ := h.log
  exact { h with log := ⟨b, rs, hb, hw, hp, fun r hr => (hseq r hr).imp_right fun h => ⟨h.1, hsub h.2⟩⟩ }

theorem LogSound.kept (h : LogSound e d F) (hk : LogKept e d e₁ d₁) : LogSound e₁ d₁ F := by
  have hfresh : ∀ r ∈ e₁.mem.mutableTable, r.seqNum.toNat < e₁.nextSequence.toNat := by
    intro r hr
    rw [hk.next]
    exact h.fresh r (hk.mutable r hr)
  have ho := hk.opened.trans h.opened
  have hcl := hk.closed.trans h.closed
  rcases hk.log with ⟨hw, hc, hd⟩ | ⟨hw, b, hb, hwr⟩
  · obtain ⟨b, rs, hb, hwr, hp, hseq⟩ := h.log
    refine ⟨ho, hcl, by rw [hw, hc]; exact h.wal, hfresh, b, rs, ?_, ?_, hp, ?_⟩
    · rw [hc, hd]
      exact hb
    · rw [hc]
      exact hwr
    · rw [hk.next]
      exact hseq
  · exact ⟨ho, hcl, hw, hfresh, b, [], hb, hwr, List.Pairwise.nil, fun r hr => by cases hr⟩

theorem Live.logSound {n : Nat} {v : View} (h : Live n e d v) : LogSound e d [] := by
  obtain ⟨rs, hlog, hshown, hmem⟩ := h.log
  obtain ⟨b, hb, hw⟩ := hlog.log
  refine ⟨h.opened.opened, h.opened.closed, hlog.wal, hmem.fresh hlog.seq_lt, b, rs, hb, hw, ?_,
    fun r hr => .inl (hlog.seq_lt r hr)⟩
  refine hshown.ascending.imp fun hlt heq => ?_
  rw [heq.2] at hlt
  exact Nat.lt_irrefl _ hlt

omit [Zlib] in
/-- A record with the next number, of a key that the log does not hold under it. -/
theorem apart_append {next : UInt64} {r : InternalRecord} (hseq : r.seqNum = next) (hkey : r.key.bytes ∉ F)
    {rs : List InternalRecord} (hp : rs.Pairwise Apart)
    (hrs : ∀ x ∈ rs, x.seqNum.toNat < next.toNat ∨ (x.seqNum = next ∧ x.key.bytes ∈ F)) :
    (rs ++ [r]).Pairwise Apart := by
  refine List.pairwise_append.mpr ⟨hp, List.pairwise_singleton _ _, ?_⟩
  intro x hx y hy heq
  rw [List.mem_singleton.mp hy] at heq
  rcases hrs x hx with hlt | ⟨-, hin⟩
  · rw [heq.2, hseq] at hlt
    exact Nat.lt_irrefl _ hlt
  · rw [heq.1] at hin
    exact hkey hin

/-! ## One write -/

/-- What fails in a write: nothing, the sync of the log, or the insertion into the memory. -/
inductive WriteFault where
  | none
  | sync (s : Status)
  | apply (s : Status)

def WriteFault.faults : WriteFault → Site → List Fault
  | .sync s, .putSync => [.err 0 s]
  | .apply s, .putApply => [.err 0 s]
  | _, _ => []

/-- The fault meets an operation of the write: without `sync_on_write` there is no sync. -/
def WriteFault.hits (x : WriteFault) (e : Engine LogObject) : Bool :=
  match x with
  | .none => false
  | .sync _ => e.options.wal.syncOnWrite
  | .apply _ => true

/-- The operations of a write before its automatic flush. -/
def Site.ofWrite : Site → Bool
  | .putAppend | .putSync | .putApply => true
  | _ => false

/-- The faults of one write, and those of the flush behind it. -/
def WriteFault.beside (x : WriteFault) (flush : Site → List Fault) : Site → List Fault := fun site =>
  if site.ofWrite then x.faults site else flush site

/-- The close of the log that a flush has replaced does not fail. -/
def ClosesLog (flush : Site → List Fault) : Prop := ∀ k s, .err k s ∉ flush .flushClose

/-- The faults of one write, and any fault of the flush behind it but a failed close of its log. -/
def WriteFault.permits (x : WriteFault) : Permits := fun site y =>
  (site.ofWrite = false ∧ (site = .flushClose → ∀ k s, y ≠ .err k s)) ∨ y ∈ x.faults site

omit [Zlib] in
theorem WriteFault.obeys_beside (x : WriteFault) {flush : Site → List Fault} (h : ClosesLog flush) :
    Obeys x.permits (x.beside flush) := by
  intro site y hy
  unfold WriteFault.beside at hy
  cases hs : site.ofWrite with
  | true =>
    rw [hs] at hy
    exact .inr hy
  | false =>
    rw [hs] at hy
    refine .inl ⟨hs, ?_⟩
    rintro rfl k s rfl
    exact h k s hy

/-- The keys in the log under the number of the next write, after a write of `key`. -/
def heldKeys (e : Engine LogObject) (x : WriteFault) (key value : List UInt8) (type : RecType) (F : List (List UInt8)) :
    List (List UInt8) :=
  if Sized key value type ∧ e.nextSequence.toNat ≠ 2 ^ 64 - 1 then if x.hits e then key :: F else [] else F

section

variable [EngineEnv] {r : InternalRecord}

theorem writeRecord_sound (hP : TableFaults P) (hS : SureSwitch P) (happend : ∀ k s, ¬ P .putAppend (.err k s))
    (h : LogSound e d F) (ht : r.type.isValid = true) (hseq : r.seqNum = e.nextSequence)
    (hroom : e.nextSequence.toNat ≠ 2 ^ 64 - 1) (hkey : r.key.bytes ∉ F) {hit : Prop}
    (hsync : (∃ k s, P .putSync (.err k s)) → e.options.wal.syncOnWrite = true → hit)
    (happly : (∃ k s, P .putApply (.err k s)) → hit) :
    Triple P (Engine.writeRecord r) e d (fun _ e' d' => LogSound e' d' [])
      (fun e' d' => LogSound e' d' [] ∨ (hit ∧ LogSound e' d' (r.key.bytes :: F))) (fun _ _ => True) := by
  obtain ⟨b, rs, hb, hw, hp, hrs⟩ := h.log
  have hp' := apart_append hseq hkey hp hrs
  -- the record is in the log, and its number is not taken yet
  have hheld : ∀ b', Writable b' e.currentWalId (rs ++ [r]) →
      LogSound e (d.setWal e.currentWalId (some b')) (r.key.bytes :: F) := by
    intro b' hw'
    refine { h with log := ⟨b', rs ++ [r], Disk.setWal_wals _ _ _, hw', hp', fun x hx => ?_⟩ }
    rcases List.mem_append.mp hx with hx | hx
    · exact (hrs x hx).imp_right fun hx => ⟨hx.1, List.mem_cons_of_mem _ hx.2⟩
    · rw [List.mem_singleton.mp hx]
      exact .inr ⟨hseq, List.mem_cons_self⟩
  refine Triple.bind (Q := fun _ e' d' => e' = e ∧ ∃ b', Writable b' e.currentWalId (rs ++ [r]) ∧
    d' = d.setWal e.currentWalId (some b')) ?_ ?_
  · refine triple_withWal h.wal (triple_writeWal hb hw ht (fun b' hw' => ⟨rfl, b', hw', rfl⟩) ?_ fun _ _ =>
      trivial)
    rintro ⟨k, s, hpk⟩
    exact absurd hpk (happend k s)
  rintro _ e₁ d₁ ⟨rfl, b', hw', rfl⟩
  refine Triple.bind (Q := fun _ e' d' => e' = e₁ ∧ d' = d.setWal e₁.currentWalId (some b')) ?_ ?_
  · refine triple_get fun f => ?_
    split
    · next hon =>
      refine triple_withWal h.wal (triple_syncWal ⟨rfl, rfl⟩ (fun hpk => ?_) trivial)
      exact .inr ⟨hsync hpk hon, hheld b' hw'⟩
    · exact triple_pure ⟨rfl, rfl⟩
  rintro _ e₂ d₂ ⟨rfl, rfl⟩
  have hfits : ∃ m, e₂.mem.apply r = .ok m := by
    obtain ⟨t, ht⟩ := Driver.insert_fresh (r := r) (l := e₂.mem.mutableTable) (by
      rintro x hx ⟨-, heq⟩
      have hlt := h.fresh x hx
      rw [heq, hseq] at hlt
      exact Nat.lt_irrefl _ hlt)
    refine ⟨{ e₂.mem with mutableTable := t }, ?_⟩
    unfold MemTable.apply
    rw [ht]
  refine Triple.bind (applyRecord_triple hfits (fun hpk => .inr ⟨happly hpk, hheld b' hw'⟩) trivial) ?_
  rintro _ e₃ d₃ ⟨m, hm, rfl, rfl⟩
  have hnext : (e₂.nextSequence + 1).toNat = e₂.nextSequence.toNat + 1 := by
    have h2 := e₂.nextSequence.toNat_lt
    rw [UInt64.toNat_add, UInt64.toNat_one]
    exact Nat.mod_eq_of_lt (by omega)
  have hdone : LogSound { e₂ with mem := m, nextSequence := e₂.nextSequence + 1 }
      (d.setWal e₂.currentWalId (some b')) [] := by
    refine ⟨h.opened, h.closed, h.wal, ?_, b', rs ++ [r], Disk.setWal_wals _ _ _, hw', hp', ?_⟩
    · intro x hx
      show x.seqNum.toNat < (e₂.nextSequence + 1).toNat
      rw [hnext]
      obtain ⟨t, hins, rfl⟩ := MemTable.apply_ok hm
      rcases List.mem_cons.mp ((Driver.insert_perm hins).mem_iff.mp hx) with rfl | hx
      · rw [hseq]
        omega
      · have := h.fresh x hx
        omega
    · intro x hx
      refine .inl ?_
      show x.seqNum.toNat < (e₂.nextSequence + 1).toNat
      rw [hnext]
      rcases List.mem_append.mp hx with hx | hx
      · rcases hrs x hx with hlt | ⟨heq, -⟩
        · omega
        · rw [heq]
          omega
      · rw [List.mem_singleton.mp hx, hseq]
        omega
  refine triple_modify ((maybeFlush_keepsLog hP hS).mono (fun _ _ _ hk => hdone.kept hk)
    (fun _ _ hk => .inl (hdone.kept hk)) fun _ _ hc => hc)

omit [Zlib] [EngineEnv] in
theorem WriteFault.permits_only {x : WriteFault} {site : Site} {y : Fault} (h : x.permits site y)
    (hs : site.ofWrite = true) : y ∈ x.faults site := by
  rcases h with ⟨h, -⟩ | h
  · rw [hs] at h
    cases h
  · exact h

/-- One write of a key that the log does not hold under the next number. -/
theorem putImpl_sound (h : LogSound e d F) (x : WriteFault) {key : List UInt8} (value : List UInt8) {type : RecType}
    (ht : type.isValid = true) (hkey : key ∉ F) :
    Triple x.permits (Engine.putImpl key value type) e d
      (fun _ e' d' => LogSound e' d' (heldKeys e x key value type F))
      (fun e' d' => LogSound e' d' (heldKeys e x key value type F)) (fun _ _ => True) := by
  have hP : TableFaults x.permits :=
    ⟨fun _ => .inl ⟨rfl, fun h => by cases h⟩, fun _ => .inl ⟨rfl, fun h => by cases h⟩,
      fun _ => .inl ⟨rfl, fun h => by cases h⟩⟩
  have hS : SureSwitch x.permits := by
    rintro k s (⟨-, h⟩ | h)
    · exact h rfl k s rfl
    · cases x <;> cases h
  have happend : ∀ k s, ¬ x.permits .putAppend (.err k s) := by
    intro k s hp
    have hmem := WriteFault.permits_only hp rfl
    cases x <;> cases hmem
  have hsync : (∃ k s, x.permits .putSync (.err k s)) → e.options.wal.syncOnWrite = true → x.hits e = true := by
    rintro ⟨k, s, hp⟩ hon
    have hmem := WriteFault.permits_only hp rfl
    cases x with
    | sync s' => exact hon
    | none => cases hmem
    | apply s' => cases hmem
  have happly : (∃ k s, x.permits .putApply (.err k s)) → x.hits e = true := by
    rintro ⟨k, s, hp⟩
    have hmem := WriteFault.permits_only hp rfl
    cases x with
    | apply s' => rfl
    | none => cases hmem
    | sync s' => cases hmem
  have hrejected : ¬ (Sized key value type ∧ e.nextSequence.toNat ≠ 2 ^ 64 - 1) →
      LogSound e d (heldKeys e x key value type F) := by
    intro hno
    rw [heldKeys, if_neg hno]
    exact h
  refine triple_ensureOpen h.opened h.closed (triple_ensure (fun hb => by rw [ht] at hb; cases hb) fun _ => ?_)
  refine triple_get fun f => triple_ensure (fun hb => hrejected fun hs => ?_) fun hroom => ?_
  · rw [bne_eq_false_iff_eq] at hb
    exact hs.2 hb
  refine triple_lift (fun s hs => hrejected fun hno => ?_) fun k hk => ?_
  · rw [Engine.makeEntry, ArenaEntry.makeEntry, dif_pos hno.1.1] at hs
    cases hs
  refine triple_lift (fun s hs => hrejected fun hno => ?_) fun v hv => ?_
  · split at hs
    · cases hs
    · next hput =>
      have hput' : type = .put := by
        cases type with
        | put => rfl
        | tombstone => exact absurd rfl hput
        | undefined => cases ht
      rw [Engine.makeEntry, ArenaEntry.makeEntry, dif_pos (hno.1.2 hput')] at hs
      cases hs
  obtain ⟨hsized, -⟩ := @View.write_eq_after key value type (fun _ => none) k v e.nextSequence hk hv
  have hroom' : e.nextSequence.toNat ≠ 2 ^ 64 - 1 := by simpa using hroom
  have hheld : heldKeys e x key value type F = if x.hits e then key :: F else [] := if_pos ⟨hsized, hroom'⟩
  have hbytes : k.bytes = key := (makeEntry_ok hk).2.1
  rw [hheld]
  refine (writeRecord_sound (r := ⟨k, v, type, e.nextSequence⟩) hP hS happend h ht rfl hroom'
    (by rw [hbytes]; exact hkey)
    hsync happly).mono (fun _ _ _ hq => hq.mono (List.nil_subset _)) ?_ fun _ _ hc => hc
  rintro e' d' (hl | ⟨hhit, hl⟩)
  · exact hl.mono (List.nil_subset _)
  · rw [if_pos hhit, ← hbytes]
    exact hl

end

/-! ## Runs of writes -/

/-- The records of the active log, as recovery reads them. -/
def activeRecords (w : World EditLog LogObject) : List InternalRecord :=
  match w.disk.wals w.engine.currentWalId with
  | none => []
  | some b =>
    match (WALLoader.load (ReadableFile.ofBytes b "wal") w.engine.currentWalId).1 with
    | .ok res => res.records
    | .error _ => []

theorem LogSound.activeRecords {w : World EditLog LogObject} (h : LogSound w.engine w.disk F) :
    (activeRecords w).Pairwise Apart := by
  obtain ⟨b, rs, hb, hw, hp, -⟩ := h.log
  obtain ⟨res, hload, -, -, hrecs⟩ := hw.readable.load
  unfold Kvdb.activeRecords
  rw [hb]
  dsimp only
  rw [hload]
  dsimp only
  rw [hrecs]
  exact hp

omit [Zlib] in
/-- The replay of such a log never finds a record twice. -/
theorem replay_not_duplicate {rs done : List InternalRecord} (hp : (done ++ rs).Pairwise Apart)
    (hmem : e.mem.mutableTable.Perm done) (d : Disk EditLog) (f : Site → List Fault) (message : String) :
    (Engine.replayRecords rs (⟨e, d, f⟩ : World EditLog LogObject)).1 ≠ .err ⟨.duplicate, message⟩ := by
  induction rs generalizing e done with
  | nil =>
    intro h
    cases h
  | cons r rs ih =>
    obtain ⟨t, hins⟩ := Driver.insert_fresh (r := r) (l := e.mem.mutableTable) (by
      intro x hx
      exact (List.pairwise_append.mp hp).2.2 x (hmem.mem_iff.mp hx) r List.mem_cons_self)
    have happ : e.mem.apply r = .ok { e.mem with mutableTable := t } := by
      unfold MemTable.apply
      rw [hins]
    show ((Engine.replayRecord r >>= fun _ => Engine.replayRecords rs)
      (⟨e, d, f⟩ : World EditLog LogObject)).1 ≠ _
    by_cases hmax : r.seqNum.toNat = 2 ^ 64 - 1
    · have hrec : Engine.replayRecord r (⟨e, d, f⟩ : World EditLog LogObject) =
          (.err ⟨.invariantViolation, "WAL sequence number space is exhausted"⟩,
            ⟨{ e with mem := { e.mem with mutableTable := t } }, d, f⟩) := by
        simp [Engine.replayRecord, bind_apply, happ, modifyEngine, World.mapEngine, hmax]
      rw [bind_err hrec]
      intro h
      cases h
    · have hrec : Engine.replayRecord r (⟨e, d, f⟩ : World EditLog LogObject) =
          (.ok (), ⟨{ e with
            mem := { e.mem with mutableTable := t }
            nextSequence := max e.nextSequence (r.seqNum + 1) }, d, f⟩) := by
        have hmax' : (r.seqNum.toNat != 2 ^ 64 - 1) = true := by simpa using hmax
        simp only [Engine.replayRecord, bind_apply, get_apply, happ, lift_ok, modifyEngine, modify_apply,
          World.mapEngine, ensure_apply, hmax', if_true]
      rw [bind_ok hrec]
      have hperm : t.Perm (done ++ [r]) :=
        (Driver.insert_perm hins).trans ((hmem.cons r).trans (List.perm_append_singleton r done).symm)
      refine ih ?_ hperm
      rw [List.append_assoc]
      exact hp

instance : DecidableRel Apart := fun a b => inferInstanceAs (Decidable (¬ (a.key = b.key ∧ a.seqNum = b.seqNum)))

/-- The states of an engine that writes, with the keys the active log holds under the number of
the next write: it starts in a state of a run, and a write of a key may come when `allowed` says so.  In
a write its sync or its apply may fail, and anything in its automatic flush but the close of the old log. -/
inductive WriteRun [EngineEnv] (allowed : List (List UInt8) → List UInt8 → Prop) (N : Nat) :
    List (List UInt8) → World EditLog LogObject → Prop where
  | start {events : List Event} {w : World EditLog LogObject} : Run N events w → WriteRun allowed N [] w
  | put {F : List (List UInt8)} {w w' : World EditLog LogObject} {o : Outcome Status Unit} {key value : List UInt8}
      {x : WriteFault} {flush : Site → List Fault} : WriteRun allowed N F w → allowed F key → ClosesLog flush →
      Engine.put key value { w with faults := x.beside flush } = (o, w') → o ≠ .crash →
      WriteRun allowed N (heldKeys w.engine x key value .put F) w'
  | remove {F : List (List UInt8)} {w w' : World EditLog LogObject} {o : Outcome Status Unit} {key : List UInt8}
      {x : WriteFault} {flush : Site → List Fault} : WriteRun allowed N F w → allowed F key → ClosesLog flush →
      Engine.remove key { w with faults := x.beside flush } = (o, w') → o ≠ .crash →
      WriteRun allowed N (heldKeys w.engine x key [] .tombstone F) w'

section

variable [EngineEnv] {N : Nat} {w w' : World EditLog LogObject}

theorem LogSound.write (h : LogSound w.engine w.disk F) {x : WriteFault} {flush : Site → List Fault}
    (hflush : ClosesLog flush) {key value : List UInt8} {type : RecType} (ht : type.isValid = true) (hkey : key ∉ F)
    {o : Outcome Status Unit} (hrun : Engine.putImpl key value type { w with faults := x.beside flush } = (o, w'))
    (ho : o ≠ .crash) :
    LogSound w'.engine w'.disk (heldKeys w.engine x key value type F) := by
  have hends := putImpl_sound h x value ht hkey (x.beside flush) (x.obeys_beside hflush)
  cases o with
  | ok u => exact (hends.ok hrun).2
  | err s => exact (hends.err hrun).2
  | crash => exact absurd rfl ho

/-- **The invariant of a run of writes** in which no key is written again under one number. -/
theorem WriteRun.sound (h : WriteRun (fun F key => key ∉ F) N F w) : LogSound w.engine w.disk F := by
  induction h with
  | start hrun =>
    obtain ⟨ms, -, n, v, -, hl, -⟩ := hrun.up
    exact hl.logSound
  | put _ hkey hflush hrun ho ih => exact ih.write hflush rfl hkey hrun ho
  | remove _ hkey hflush hrun ho ih => exact ih.write hflush rfl hkey hrun ho

/-- **Sequence numbers.** -/
theorem sequence_not_reused (h : WriteRun (fun F key => key ∉ F) N F w) :
    (activeRecords w).Pairwise Apart ∧
      ∀ (e : Engine LogObject) (d : Disk EditLog) (f : Site → List Fault) (message : String), e.mem = {} →
        (Engine.replayRecords (activeRecords w) (⟨e, d, f⟩ : World EditLog LogObject)).1 ≠
          .err ⟨.duplicate, message⟩ := by
  have hp : ([] ++ activeRecords w).Pairwise Apart := h.sound.activeRecords
  refine ⟨hp, fun e d f message hmem => ?_⟩
  refine replay_not_duplicate hp ?_ d f message
  rw [hmem]

end

section

def syncOptions : DBOptions := { plainOptions with wal := { syncOnWrite := true } }

/-- A new database that syncs its log on every write. -/
def syncWorld : World EditLog LogObject := letI := documentedZlib
  (Engine.«open» ⟨{ options := syncOptions }, Disk.empty false, fun _ => []⟩).2

def failedSync : WriteFault := .sync ⟨.ioError, "sync failed"⟩

omit [Zlib] in
theorem closesLog_none : ClosesLog fun _ => [] := by
  intro k s h
  cases h

/-- A put whose sync fails. -/
def heldWorld : World EditLog LogObject := letI := documentedZlib; letI := countingEnv
  (Engine.put [97] [1] ⟨syncWorld.engine, syncWorld.disk, failedSync.beside fun _ => []⟩).2

/-- Then a put of the key `k`. -/
def nextWorld (k : UInt8) : World EditLog LogObject := letI := documentedZlib; letI := countingEnv
  (Engine.put [k] [2] ⟨heldWorld.engine, heldWorld.disk, WriteFault.none.beside fun _ => []⟩).2

omit [Zlib] in
theorem heldWorld_run (allowed : List (List UInt8) → List UInt8 → Prop) (h : allowed [] [97]) :
    @WriteRun documentedZlib countingEnv allowed 7 [[97]] heldWorld := by
  let _ := documentedZlib
  let _ := countingEnv
  have hopen : (Engine.«open» (⟨{ options := syncOptions }, Disk.empty false, fun _ => []⟩ :
      World EditLog LogObject)).1 = .ok () := by decide +kernel
  have hput : (Engine.put [97] [1] ⟨syncWorld.engine, syncWorld.disk, failedSync.beside fun _ => []⟩).1 =
      .err ⟨.ioError, "sync failed"⟩ := by decide +kernel
  have hrun : Run 7 [] syncWorld := .first (by decide) (run_eq hopen)
  have hheld : heldKeys syncWorld.engine failedSync [97] [1] .put [] = [[97]] := by decide +kernel
  rw [← hheld]
  exact .put (.start hrun) h closesLog_none (run_eq hput) (by simp)

omit [Zlib] in
/-- Another key after a failed sync. -/
theorem sequence_not_reused_otherKey : letI := documentedZlib
    (activeRecords (nextWorld 98)).Pairwise Apart ∧ (activeRecords (nextWorld 98)).length = 2 := by
  let _ := documentedZlib
  let _ := countingEnv
  have hput : (Engine.put [98] [2] ⟨heldWorld.engine, heldWorld.disk, WriteFault.none.beside fun _ => []⟩).1 =
      .ok () := by
    decide +kernel
  have hrun : WriteRun (fun F key => key ∉ F) 7 _ (nextWorld 98) :=
    .put (heldWorld_run (fun F key => key ∉ F) (by decide)) (by decide) closesLog_none (run_eq hput) (by simp)
  exact ⟨(@sequence_not_reused documentedZlib _ countingEnv 7 _ hrun).1, by decide +kernel⟩

omit [Zlib] in
/-- The same key after a failed sync is twice in the log under one number. -/
theorem sequence_reused_sameKey : letI := documentedZlib; letI := countingEnv
    ¬ ∀ (N : Nat) (F : List (List UInt8)) (w : World EditLog LogObject), WriteRun (fun _ _ => True) N F w →
      (activeRecords w).Pairwise Apart := by
  let _ := documentedZlib
  let _ := countingEnv
  intro h
  have hput : (Engine.put [97] [2] ⟨heldWorld.engine, heldWorld.disk, WriteFault.none.beside fun _ => []⟩).1 =
      .ok () := by
    decide +kernel
  have hrun : WriteRun (fun _ _ => True) 7 _ (nextWorld 97) :=
    .put (heldWorld_run (fun _ _ => True) trivial) trivial closesLog_none (run_eq hput) (by simp)
  have hno : ¬ (activeRecords (nextWorld 97)).Pairwise Apart := by decide +kernel
  exact hno (h 7 _ _ hrun)

end

end Kvdb
