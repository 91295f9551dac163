import Kvdb.Engine.Opening

/-!
# Runs of a database

The calls of the database and their meaning: a list of mutations, of which the
last one of a key counts (`valueOf`).  `Stands v ms` ties that to the map `v` of
the state invariants, and one lemma for each kind of call says what it does to
both.
-/

namespace Kvdb

open Faulty Bytes Recency

/-- A key and its new value; none deletes it. -/
abbrev Mutation := List UInt8 × Option (List UInt8)

/-- The value of a key after some mutations: that of its last one. -/
def valueOf (ms : List Mutation) (key : List UInt8) : Option (List UInt8) :=
  (ms.reverse.find? fun m => m.1 == key).bind Prod.snd

theorem valueOf_append (ms : List Mutation) (m : Mutation) (key : List UInt8) :
    valueOf (ms ++ [m]) key = if m.1 = key then m.2 else valueOf ms key := by
  unfold valueOf
  rw [List.reverse_append, List.reverse_singleton, List.singleton_append, List.find?_cons]
  by_cases h : m.1 = key
  · simp [h]
  · rw [beq_false_of_ne h, if_neg h]

/-- One call of an open database. -/
inductive Call where
  | put (key value : List UInt8)
  | remove (key : List UInt8)
  | flush
  | compactRange (first last : List UInt8)
  /-- close, and open with a new engine -/
  | reopen (options : DBOptions)

namespace Call

def mutation : Call → List Mutation
  | put key value => [(key, some value)]
  | remove key => [(key, none)]
  | _ => []

def run {φ ω : Type} [Zlib] [ManifestStore φ ω] [EngineEnv] : Call → EngineM φ ω Unit
  | put key value => Engine.put key value
  | remove key => Engine.remove key
  | flush => Engine.flush
  | compactRange first last => Engine.compactRange first last
  | reopen options => Engine.reopen options

end Call

/-- A directory before its first open. -/
def Disk.empty {φ : Type} (dir : Bool) : Disk φ where
  dir := dir
  manifest := none
  wals _ := none
  tables _ := none

/-! ## Mutations and maps -/

def Stands (v : View) (ms : List Mutation) : Prop := ∀ k : ArenaEntry, v.answer k = valueOf ms k.bytes

theorem stands_nil : Stands (fun _ => none) [] := fun _ => rfl

theorem Stands.after {v : View} {ms : List Mutation} (h : Stands v ms) {key value : List UInt8} {type : RecType}
    (hs : Sized key value type) :
    Stands (v.after key value type) (ms ++ [(key, if type = .put then some value else none)]) := by
  intro k
  rw [valueOf_append]
  unfold View.after View.answer
  rw [if_pos hs]
  by_cases hk : k.bytes = key
  · rw [if_pos hk, if_pos hk.symm]
    by_cases hput : type = .put
    · rw [if_pos hput, if_pos hput, ArenaEntry.makeEntry, dif_pos (hs.2 hput)]
      rfl
    · rw [if_neg hput, if_neg hput]
      rfl
  · rw [if_neg hk, if_neg fun h => hk h.symm]
    exact h k

/-- A call that did not return may have changed the map or not. -/
theorem Stands.maybe {v : View} {ms : List Mutation} (h : Stands v ms) (key value : List UInt8) (type : RecType) :
    Stands (v.after key value type) ms ∨
      Stands (v.after key value type) (ms ++ [(key, if type = .put then some value else none)]) := by
  by_cases hs : Sized key value type
  · exact .inr (h.after hs)
  · refine .inl ?_
    rw [View.after, if_neg hs]
    exact h

variable [Zlib] {P : Permits} {n : Nat} {e : Engine LogObject} {d : Disk EditLog} {v : View}

omit [Zlib] in
theorem Opened.ensureOpen {n : Nat} {e : Engine LogObject} (h : Opened n e) (d : Disk EditLog)
    (f : Site → List Fault) :
    (Engine.ensureOpen (⟨e, d, f⟩ : World EditLog LogObject)).1 = .ok () := by
  show ((ensure (!e.closed) _ >>= fun _ => ensure e.opened _) (⟨e, d, f⟩ : World EditLog LogObject)).1 = _
  rw [h.closed, h.opened]
  rfl

/-- **What an open engine answers.** -/
theorem Live.get (h : Live n e d v) {ms : List Mutation} (hv : Stands v ms) (f : Site → List Fault) {key : List UInt8}
    (hkey : key.length < 2 ^ 32) : Engine.get ⟨e, d, f⟩ key = .ok (valueOf ms key) := by
  obtain ⟨rs, -, hshown, hmem⟩ := h.log
  unfold Engine.get
  rw [h.opened.ensureOpen]
  have hk : ArenaEntry.makeEntry key = some ⟨key, hkey⟩ := by rw [ArenaEntry.makeEntry, dif_pos hkey]
  rw [lookup_shown hshown hmem hk]
  exact congrArg Except.ok (hv ⟨key, hkey⟩)

/-! ## The first open -/

omit [Zlib] in
theorem shown_empty (n : Nat) : Shown (LevelManager.init n) {} (fun _ => none) [] fun _ => none := by
  have hnone : ∀ level, ∀ t, t ∉ (LevelManager.init n).tables level := by
    intro level t ht
    rw [LevelManager.tables_init] at ht
    cases ht
  have hset : tableRecs (LevelManager.init n) (fun _ => none) = ∅ := by
    ext r
    constructor
    · rintro ⟨level, t, ht, -⟩
      exact absurd ht (hnone level t)
    · intro hr
      cases hr
  refine ⟨catalog_of_structured (structured_init n) (manifestInv_init n), fun level t ht => absurd ht (hnone level t),
    ⟨fun _ _ _ t ht => absurd ht (hnone _ t), fun t ht => absurd ht (hnone 0 t)⟩, List.Pairwise.nil, ?_, ?_,
      ?_, ?_, ?_⟩
  · rw [hset, recs_nil]
    exact newer_empty
  · intro r hr
    rw [hset] at hr
    cases hr
  · intro r hr
    rw [hset] at hr
    cases hr
  · intro r hr
    rw [hset, recs_nil, Set.union_empty] at hr
    cases hr
  · rw [hset, recs_nil, Set.union_empty]
    intro k
    refine .inl ⟨?_, rfl⟩
    rintro ⟨r, hr, -⟩
    cases hr

/-- A new database holds nothing. -/
theorem open_first (o : DBOptions) (dir : Bool) :
    Triple P Engine.«open» { options := o } (Disk.empty dir)
      (fun _ e' d' => Live o.compaction.maxLevels.toNat e' d' fun _ => none) (fun _ _ => True) (fun _ _ => True) := by
  refine triple_get fun f => triple_get fun f' => triple_lift (fun _ _ => trivial) fun u hvalid => ?_
  refine Triple.bind (Q := fun _ e' d' => e' = { options := o } ∧ d' = Disk.empty true) ?_ ?_
  · refine Triple.bind (Q := fun _ e' d' => e' = { options := o } ∧ d' = Disk.empty true) ?_ ?_
    · refine triple_get fun f'' => ?_
      cases dir with
      | true => exact triple_check (fun _ => trivial) fun _ => ⟨rfl, rfl⟩
      | false =>
        refine triple_ensure (fun _ => trivial) fun _ => ?_
        exact triple_fileOp ⟨rfl, rfl⟩ (fun _ _ _ => ⟨trivial, trivial⟩) ⟨trivial, trivial⟩
    · rintro _ e₁ d₁ ⟨rfl, rfl⟩
      exact triple_touch ⟨rfl, rfl⟩ (fun _ _ _ => trivial) trivial
  rintro _ e₁ d₁ ⟨rfl, rfl⟩
  refine triple_modify ?_
  have hcount : (Engine.start ({ options := o } : Engine LogObject)).levels.levelCount =
      o.compaction.maxLevels.toNat := by
    simp [Engine.start, LevelManager.init, LevelManager.levelCount]
  refine Triple.bind (Q := fun _ e' d' => d' = { (Disk.empty true : Disk EditLog) with manifest := some ⟨[]⟩ } ∧
      e' = { Engine.start ({ options := o } : Engine LogObject) with manifest := some ⟨false⟩ }) ?_ ?_
  · refine triple_openManifest (fun lm c hr => ?_) (fun _ => trivial) (fun _ => trivial) trivial
    cases hr
    refine ⟨rfl, ?_⟩
    show ({ Engine.start ({ options := o } : Engine LogObject) with
      manifest := some ⟨false⟩, levels := LevelManager.init _, counters := {} } : Engine LogObject) = _
    rw [hcount]
    rfl
  rintro _ e₁ d₁ ⟨rfl, rfl⟩
  refine Triple.bind (Q := fun _ e' d' => Live o.compaction.maxLevels.toNat { e' with opened := true } d' fun _ => none)
    ?_ fun _ _ _ h => triple_set h
  refine triple_get fun f'' => triple_ensure (fun _ => trivial) fun _ => triple_modify ?_
  refine (triple_removeWal (Q := fun _ e' d' => e' = { Engine.start ({ options := o } : Engine LogObject) with
      manifest := some ⟨false⟩, currentWalId := 1, nextSequence := 1 } ∧
      d' = Disk.setWal { (Disk.empty true : Disk EditLog) with manifest := some ⟨[]⟩ } 1 none) ⟨rfl, rfl⟩
        (fun _ _ => trivial)
    fun _ => trivial).bind ?_
  rintro _ e₁ d₁ ⟨rfl, rfl⟩
  refine Triple.bind (Q := fun r e' d' => r = ⟨1, true⟩ ∧ e' =
    { Engine.start ({ options := o } : Engine LogObject) with
      manifest := some ⟨false⟩, currentWalId := 1, nextSequence := 1 } ∧ ∃ b, Writable b 1 [] ∧
      d' = Disk.setWal { (Disk.empty true : Disk EditLog) with manifest := some ⟨[]⟩ } 1 (some b)) ?_ ?_
  · refine triple_createWal (fun b hw => ⟨rfl, rfl, b, hw, ?_⟩) (fun _ _ => trivial) fun _ => trivial
    exact Disk.setWal_setWal _ 1 none (some b)
  rintro _ e₁ d₁ ⟨rfl, rfl, b, hw, rfl⟩
  refine triple_set ⟨⟨rfl, rfl, hvalid, rfl, ?_⟩, rfl, ⟨rfl, [], rfl, rfl⟩, [],
    ⟨rfl, rfl, ⟨b, ?_, hw⟩, ?_, ?_⟩,
    shown_empty _, (shown_empty _).memOk rfl List.Pairwise.nil List.Perm.nil⟩
  · exact hcount
  · exact Disk.setWal_wals _ _ _
  · intro r hr
    cases hr
  · exact Nat.le_refl 1

/-! ## Close -/

/-- Nothing fails while the engine closes. -/
structure SureClose (P : Permits) : Prop where
  closeWal : ∀ k s, ¬ P .closeWal (.err k s)
  closeManifest : ∀ k s, ¬ P .closeManifest (.err k s)

theorem triple_syncManifest {site : Site} {object : LogObject} (hm : e.manifest = some object)
    {Q : Unit → Engine LogObject → Disk EditLog → Prop} {E C : Engine LogObject → Disk EditLog → Prop}
    (hok : Q () e d) (hrefused : E e d) (herr : ∀ k s, P site (.err k s) →
      E { e with manifest := some ⟨true⟩ } d)
    (hcrash : C e d) : Triple P (syncManifest site) e d Q E C := by
  intro f hf
  have hpop := hf.pop e d site
  have hself : { e with manifest := some object } = e := by rw [← hm]
  unfold syncManifest onManifest
  simp only [World.pop, hm, ManifestStore.sync]
  cases hpo : object.writePoisoned with
  | true =>
    simp only [if_true, hself]
    exact ⟨hpop, hrefused⟩
  | false =>
    simp only [Bool.false_eq_true, if_false]
    cases hfault : World.fault ⟨e, d, f⟩ site with
    | none =>
      simp only [hself]
      exact ⟨hpop, hok⟩
    | err k s => exact ⟨hpop, herr k s (hf.fault hfault (by simp))⟩
    | crash k =>
      simp only [hself]
      exact ⟨⟨site, k, hf.fault hfault (by simp)⟩, hcrash⟩

/-- A close changes no file, and without a fault a failed one changes nothing. -/
theorem close_triple {object : LogObject} (hm : e.manifest = some object) {wal : WALHandle} (hw : e.wal = some wal)
    (ho : Opened n e) :
    Triple P Engine.close e d (fun _ _ d' => d' = d) (fun e' d' => d' = d ∧ (SureClose P → e' = e))
      (fun _ d' => d' = d) := by
  refine triple_get fun f => ?_
  simp only [ho.closed, ho.opened, Bool.false_eq_true, if_false, Bool.not_true]
  refine Triple.bind (Q := fun _ e' d' => e' = e ∧ d' = d) ?_ ?_
  · refine triple_withWal hw (triple_ensure (fun _ => ⟨rfl, fun _ => rfl⟩) fun _ => ?_)
    exact triple_touch ⟨rfl, rfl⟩ (fun _ _ _ => ⟨rfl, fun _ => rfl⟩) rfl
  rintro _ e₁ d₁ ⟨rfl, rfl⟩
  refine Triple.bind (Q := fun _ e' d' => e' = e₁ ∧ d' = d₁) ?_ ?_
  · refine triple_syncManifest hm ⟨rfl, rfl⟩ ⟨rfl, fun _ => rfl⟩ (fun k s hp => ⟨rfl, fun hs => ?_⟩) rfl
    exact absurd hp (hs.closeManifest k s)
  rintro _ e₂ d₂ ⟨rfl, rfl⟩
  refine Triple.bind (Q := fun _ _ d' => d' = d₂) ?_ ?_
  · refine triple_get fun f => ?_
    simp only [hw]
    split
    · refine triple_modify (triple_touch rfl (fun k s hp => ⟨rfl, fun hs => ?_⟩) rfl)
      exact absurd hp (hs.closeWal k s)
    · exact triple_pure rfl
  rintro _ e₃ d₃ rfl
  exact triple_set rfl

theorem Live.close (h : Live n e d v) :
    Triple P Engine.close e d (fun _ _ d' => d' = d) (fun e' d' => d' = d ∧ (SureClose P → e' = e))
      (fun _ d' => d' = d) := by
  obtain ⟨rs, hlog, -, -⟩ := h.log
  exact close_triple h.manifest hlog.wal h.opened

theorem Failed.close (h : Failed n e d v) :
    Triple P Engine.close e d (fun _ _ d' => d' = d) (fun e' d' => d' = d ∧ (SureClose P → e' = e))
      (fun _ d' => d' = d) := by
  rcases h with h | h | h
  · exact h.close
  · obtain ⟨lm, c, rs, -, hlog, -⟩ := h.log
    exact close_triple h.manifest hlog.wal h.opened
  · obtain ⟨id, hwal⟩ := h.wal
    exact close_triple h.manifest hwal h.opened

/-! ## One call -/

/-- An open engine, opened with at most `N` levels, that stands for the mutations. -/
def Up (N : Nat) (e : Engine LogObject) (d : Disk EditLog) (ms : List Mutation) : Prop :=
  ∃ n v, n ≤ N ∧ Live n e d v ∧ Stands v ms

/-- A disk that stands for the mutations. -/
def Down (N : Nat) (d : Disk EditLog) (ms : List Mutation) : Prop := ∃ n v, n ≤ N ∧ DiskOk n d v ∧ Stands v ms

variable {N : Nat} {ms : List Mutation}

theorem Up.down (h : Up N e d ms) : Down N d ms := by
  obtain ⟨n, v, hn, hl, hv⟩ := h
  exact ⟨n, v, hn, hl.diskOk, hv⟩

theorem Up.get (h : Up N e d ms) (f : Site → List Fault) {key : List UInt8} (hkey : key.length < 2 ^ 32) :
    Engine.get ⟨e, d, f⟩ key = .ok (valueOf ms key) := by
  obtain ⟨n, v, -, hl, hv⟩ := h
  exact hl.get hv f hkey

/-- The number of levels a call opens with. -/
def Call.within (N : Nat) : Call → Prop
  | reopen o => o.compaction.maxLevels.toNat ≤ N
  | _ => True

/-- An open of the disk by a new engine. -/
theorem open_down {o : DBOptions} (ho : o.compaction.maxLevels.toNat ≤ N) (h : Down N d ms) :
    Triple P Engine.«open» { options := o } d (fun _ e' d' => Up N e' d' ms) (fun _ d' => Down N d' ms)
      (fun _ d' => Down N d' ms) := by
  obtain ⟨n, v, hn, hd, hv⟩ := h
  have hdown : ∀ d', DiskOk n d' v ∨ DiskOk o.compaction.maxLevels.toNat d' v → Down N d' ms := by
    rintro d' (h | h)
    · exact ⟨n, v, hn, h, hv⟩
    · exact ⟨_, v, ho, h, hv⟩
  exact (open_opens o hd).mono (fun _ _ _ hl => ⟨_, v, ho, hl, hv⟩) (fun _ d' he => hdown d' he.2)
    fun _ d' hc => hdown d' hc

omit [Zlib] in
theorem triple_restart {α : Type} {k : Unit → EngineM EditLog LogObject α} {o : DBOptions}
    {Q : α → Engine LogObject → Disk EditLog → Prop} {E C : Engine LogObject → Disk EditLog → Prop}
    (h : Triple P (k ()) { options := o } d Q E C) :
    Triple P (modify (fun w => { w with engine := { options := o } }) >>= k) e d Q E C := fun f hf => h f hf

variable [EngineEnv]

theorem put_up (hP : TableFaults P) (h : Up N e d ms) (key value : List UInt8) (type : RecType) :
    let m : Mutation := (key, if type = .put then some value else none)
    Triple P (Engine.putImpl key value type) e d (fun _ e' d' => Up N e' d' (ms ++ [m])) (fun _ _ => True)
      (fun _ d' => NoLoss P → Down N d' ms ∨ Down N d' (ms ++ [m])) := by
  intro m
  obtain ⟨n, v, hn, hl, hv⟩ := h
  refine (putImpl_live hP hl).mono ?_ (fun _ _ _ => trivial) ?_
  · rintro _ e' d' ⟨hs, hl'⟩
    exact ⟨n, _, hn, hl', hv.after hs⟩
  · intro _ d' hc hno
    rcases hc hno with h' | h'
    · exact .inl ⟨n, v, hn, h', hv⟩
    · rcases hv.maybe key value type with hv' | hv'
      · exact .inl ⟨n, _, hn, h', hv'⟩
      · exact .inr ⟨n, _, hn, h', hv'⟩

omit [EngineEnv] in
theorem Retains.up {m : EngineM EditLog LogObject Unit} (hn : n ≤ N) (hv : Stands v ms)
    (h : Retains P n v m (fun e' d' => Live n e' d' v) e d) :
    Triple P m e d (fun _ e' d' => Up N e' d' (ms ++ [])) (fun _ _ => True)
      (fun _ d' => NoLoss P → Down N d' ms ∨ Down N d' (ms ++ [])) := by
  rw [List.append_nil]
  exact h.mono (fun _ _ _ hl => ⟨n, v, hn, hl, hv⟩) (fun _ _ _ => trivial) fun _ _ hc hno =>
    .inl ⟨n, v, hn, hc hno, hv⟩

/-- **One call of an open database**: with a result its mutation is the last one, and when the
process is lost in it the disk stands for the mutations with it or without it. -/
theorem call_up (hP : TableFaults P) {c : Call} (hc : c.within N) (h : Up N e d ms) :
    Triple P c.run e d (fun _ e' d' => Up N e' d' (ms ++ c.mutation)) (fun _ _ => True)
      (fun _ d' => NoLoss P → Down N d' ms ∨ Down N d' (ms ++ c.mutation)) := by
  cases c with
  | put key value => exact put_up hP h key value .put
  | remove key => exact put_up hP h key [] .tombstone
  | flush =>
    obtain ⟨n, v, hn, hl, hv⟩ := h
    exact (flushUnlocked_live hP hl).up hn hv
  | compactRange first last =>
    obtain ⟨n, v, hn, hl, hv⟩ := h
    exact (compactRange_live hP hl first last).up hn hv
  | reopen o =>
    have hdown : ∀ d', Down N d' ms → NoLoss P → Down N d' ms ∨ Down N d' (ms ++ []) := fun _ h _ => .inl h
    obtain ⟨n, v, hn, hl, hv⟩ := h
    have hd : Down N d ms := ⟨n, v, hn, hl.diskOk, hv⟩
    refine Triple.bind (Q := fun _ _ d' => d' = d) (hl.close.mono (fun _ _ _ hq => hq) (fun _ _ _ => trivial) ?_) ?_
    · rintro _ d' rfl
      exact hdown d' hd
    · rintro _ e₁ d₁ rfl
      refine triple_restart ((open_down hc hd).mono ?_ (fun _ _ _ => trivial) fun _ d' hcr => hdown d' hcr)
      intro _ e₂ d₂ hup
      rw [show ms ++ (Call.reopen o).mutation = ms from List.append_nil ms]
      exact hup

/-! ## Runs of successful calls -/

/-- The calls one after the other. -/
def runAll {φ ω : Type} [ManifestStore φ ω] : List Call → EngineM φ ω Unit
  | [] => pure ()
  | c :: cs => do
    c.run
    runAll cs

/-- A database from its first open on. -/
def session {φ ω : Type} [ManifestStore φ ω] (cs : List Call) : EngineM φ ω Unit := do
  Engine.«open»
  runAll cs

/-- The mutations of some calls, in order. -/
def mutations (cs : List Call) : List Mutation := cs.flatMap Call.mutation

omit [Zlib] [EngineEnv] in
theorem Call.within_max (c : Call) : c.within (2 ^ 32) := by
  cases c with
  | reopen o => exact Nat.le_of_lt (UInt32.toNat_lt _)
  | _ => trivial

theorem runAll_up (hP : TableFaults P) {cs : List Call} (h : Up (2 ^ 32) e d ms) :
    Triple P (runAll cs) e d (fun _ e' d' => Up (2 ^ 32) e' d' (ms ++ mutations cs)) (fun _ _ => True)
      (fun _ _ => True) := by
  induction cs generalizing e d ms with
  | nil =>
    refine triple_pure ?_
    rw [show ms ++ mutations [] = ms from List.append_nil ms]
    exact h
  | cons c cs ih =>
    refine Triple.bind ((call_up hP c.within_max h).mono (fun _ _ _ hq => hq) (fun _ _ _ => trivial) fun _ _ _ =>
      trivial)
      fun _ e₁ d₁ h₁ => ?_
    have hrest := ih h₁
    rw [List.append_assoc] at hrest
    exact hrest

end Kvdb
