import Kvdb.Engine.MapSemantics
import Kvdb.Engine.OpenCrashes
import Kvdb.Lib.Simulation
import Kvdb.Manifest.Files

/-!
# The manifest as bytes and as edits

The engine over the bytes of its manifest (`byteStore`) simulates the engine over
the edits in it (`editStore`).  The two differ in the manifest only, and the bytes
there are those of the edits (`Tracks`):

* with faults, a result over the bytes is a result over the edits
  (`logOf True`): all that can fail in addition is the process or the file;
* without faults, the runs are the same, error or result, as long as every edit
  fits where it lands (`logOf False`); an edit that does not fit stays in the log
  for good.
-/

namespace Kvdb

open Faulty Bytes

/-! ## Two views of an engine -/

/-- The engine over the edits of the manifest. -/
def Engine.asLog (e : Engine Manifest) : Engine LogObject where
  options := e.options
  opened := e.opened
  closed := e.closed
  manifest := e.manifest.map fun m => ⟨m.writePoisoned⟩
  levels := e.levels
  counters := e.counters
  wal := e.wal
  mem := e.mem
  nextSequence := e.nextSequence
  currentWalId := e.currentWalId

/-- The same files but for the manifest. -/
structure SameFiles {φ φ' : Type} (d : Disk φ) (d' : Disk φ') : Prop where
  dir : d'.dir = d.dir
  wals : d'.wals = d.wals
  tables : d'.tables = d.tables

/-- A change of files other than the manifest. -/
structure SameChange {φ φ' : Type} (g : Disk φ → Disk φ) (g' : Disk φ' → Disk φ') : Prop where
  files : ∀ {d d'}, SameFiles d d' → SameFiles (g d) (g' d')
  manifest : ∀ d, (g d).manifest = d.manifest
  manifest' : ∀ d', (g' d').manifest = d'.manifest

theorem sameChange_id {φ φ' : Type} : SameChange (id : Disk φ → Disk φ) (id : Disk φ' → Disk φ') :=
  ⟨fun h => h, fun _ => rfl, fun _ => rfl⟩

theorem sameChange_setWal {φ φ' : Type} (id : UInt32) (b : Option (List UInt8)) :
    SameChange (fun d : Disk φ => d.setWal id b) (fun d : Disk φ' => d.setWal id b) where
  files h := ⟨h.dir, congrArg (fun wals : UInt32 → Option (List UInt8) => Function.update wals id b) h.wals,
    h.tables⟩
  manifest _ := rfl
  manifest' _ := rfl

theorem sameChange_dir {φ φ' : Type} :
    SameChange (fun d : Disk φ => { d with dir := true }) (fun d : Disk φ' => { d with dir := true }) :=
  ⟨fun h => ⟨rfl, h.wals, h.tables⟩, fun _ => rfl, fun _ => rfl⟩

/-- The operations on the manifest file. -/
def Site.ofManifest : Site → Bool
  | .openManifest | .openHeader | .openCommit | .flushCommit | .flushSwitch | .compactCommit | .closeManifest => true
  | _ => false

/-- The faults of the other files. -/
def otherFaults (f : Site → List Fault) : Site → List Fault := fun site => if site.ofManifest then [] else f site

theorem otherFaults_other {f : Site → List Fault} {site : Site} (h : site.ofManifest = false) :
    otherFaults f site = f site := by
  rw [otherFaults, h]
  rfl

theorem otherFaults_manifest {f : Site → List Fault} {site : Site} (h : site.ofManifest = true) :
    otherFaults f site = [] := by
  rw [otherFaults, h]
  rfl

theorem otherFaults_update {f : Site → List Fault} {site : Site} (h : site.ofManifest = false) (l : List Fault) :
    otherFaults (Function.update f site l) = Function.update (otherFaults f) site l := by
  funext site'
  by_cases hs : site' = site
  · subst hs
    rw [Function.update_self, otherFaults_other h, Function.update_self]
  · rw [Function.update_of_ne hs, otherFaults, otherFaults, Function.update_of_ne hs]

theorem otherFaults_pop {f : Site → List Fault} {site : Site} (h : site.ofManifest = true) (l : List Fault) :
    otherFaults (Function.update f site l) = otherFaults f := by
  funext site'
  by_cases hs : site' = site
  · subst hs
    rw [otherFaults_manifest h, otherFaults_manifest h]
  · rw [otherFaults, otherFaults, Function.update_of_ne hs]

/-! ## The simulation -/

section

variable [Zlib]

/-- The bytes of the manifest are those of the edits, and the object stands behind the last of them. -/
def Tracks (e : Engine Manifest) (file : Option (List UInt8)) (log : Option EditLog) : Prop :=
  match e.manifest with
  | none => HoldsEdits file (EditLog.editsOf log)
  | some m => ∃ n edits, log = some ⟨edits⟩ ∧ Recorded n ⟨{ m with counters := e.counters }, file,
    e.levels⟩ edits

theorem Tracks.holds {e : Engine Manifest} {file : Option (List UInt8)} {log : Option EditLog} (h : Tracks e file log) :
    HoldsEdits file (EditLog.editsOf log) := by
  unfold Tracks at h
  cases hm : e.manifest with
  | none =>
    rw [hm] at h
    exact h
  | some m =>
    rw [hm] at h
    obtain ⟨n, edits, rfl, hrec⟩ := h
    exact hrec.holds

/-- The engine over bytes beside the engine over edits.  What is `lossy` may fail or lose the process at
the manifest; else there are no faults, and what the bytes alone refuse is an edit that does not fit. -/
def logOf (lossy : Prop) : Sim (World (List UInt8) Manifest) (World EditLog LogObject) where
  Rel w w' := (w'.engine = w.engine.asLog ∧ SameFiles w.disk w'.disk) ∧ w'.faults = otherFaults w.faults ∧
    Tracks w.engine w.disk.manifest w'.disk.manifest ∧ (¬ lossy → w.faults = fun _ => [])
  View w w' := w'.engine = w.engine.asLog ∧ SameFiles w.disk w'.disk
  view h := h.1
  full w' := by
    refine ⟨⟨{
        options := w'.engine.options
        opened := w'.engine.opened
        closed := w'.engine.closed
        manifest := w'.engine.manifest.map fun m => { path := "", writePoisoned := m.writePoisoned }
        levels := w'.engine.levels
        counters := w'.engine.counters
        wal := w'.engine.wal
        mem := w'.engine.mem
        nextSequence := w'.engine.nextSequence
        currentWalId := w'.engine.currentWalId },
      ⟨w'.disk.dir, none, w'.disk.wals, w'.disk.tables⟩, w'.faults⟩, ?_, rfl, rfl, rfl⟩
    have hmap : (w'.engine.manifest.map fun m => ({ path := "", writePoisoned := m.writePoisoned } : Manifest)).map
        (fun m => (⟨m.writePoisoned⟩ : LogObject)) = w'.engine.manifest := by
      rw [Option.map_map]
      exact Option.map_id'
    unfold Engine.asLog
    rw [hmap]
  Calm w := ¬ lossy → w.faults = fun _ => []
  Lossy := lossy
  Bad w' := ¬ lossy → ¬ EditsFit ManifestHeader.diskSize (EditLog.editsOf w'.disk.manifest)

variable {lossy : Prop}

/-! ## Operations -/

omit [Zlib] in
theorem calm_fault {w : World (List UInt8) Manifest} (h : ¬ lossy → w.faults = fun _ => []) {site : Site}
    (hf : w.fault site ≠ .none) : lossy := by
  by_contra hl
  refine hf ?_
  unfold World.fault
  rw [h hl]
  rfl

omit [Zlib] in
theorem calm_pop {w : World (List UInt8) Manifest} (h : ¬ lossy → w.faults = fun _ => []) (site : Site) :
    ¬ lossy → (w.pop site).faults = fun _ => [] := by
  intro hl
  unfold World.pop
  rw [h hl]
  exact Function.update_eq_self site _

omit [Zlib] in
theorem fault_other {w : World (List UInt8) Manifest} {w' : World EditLog LogObject} {site : Site}
    (h : w'.faults = otherFaults w.faults) (hs : site.ofManifest = false) : w'.fault site = w.fault site := by
  unfold World.fault
  rw [h, otherFaults_other hs]

omit [Zlib] in
theorem pop_other {w : World (List UInt8) Manifest} {w' : World EditLog LogObject} {site : Site}
    (h : w'.faults = otherFaults w.faults) (hs : site.ofManifest = false) :
    (w'.pop site).faults = otherFaults (w.pop site).faults := by
  unfold World.pop
  rw [h, otherFaults_other hs, otherFaults_update hs]

section

variable {g : Disk (List UInt8) → Disk (List UInt8)} {g' : Disk EditLog → Disk EditLog} {site : Site}

theorem exact_fileOp (hs : site.ofManifest = false) (hg : SameChange g g') :
    Exact (logOf lossy) (fileOp site g) (fileOp site g') where
  runs w w' h := by
    obtain ⟨⟨he, hd⟩, hf, ht, hc⟩ := h
    have hrel : (logOf lossy).Rel (w.pop site) (w'.pop site) :=
        ⟨⟨he, hd⟩, pop_other hf hs, ht, calm_pop hc site⟩
    have hdone : (logOf lossy).Rel ((w.pop site).mapDisk g) ((w'.pop site).mapDisk g') := by
      refine ⟨⟨he, hg.files hd⟩, pop_other hf hs, ?_, calm_pop hc site⟩
      show Tracks w.engine (g w.disk).manifest (g' w'.disk).manifest
      rw [hg.manifest, hg.manifest']
      exact ht
    unfold fileOp
    rw [fault_other hf hs]
    cases w.fault site with
    | none => exact ⟨rfl, hdone⟩
    | err reached e =>
      refine ⟨rfl, ?_⟩
      dsimp only
      split
      · exact hrel
      · exact hdone
    | crash reached =>
      refine ⟨rfl, ?_⟩
      dsimp only
      split
      · exact hrel
      · exact hdone
  keeps w' h := by
    have hsame : (fileOp site g' w').2.disk.manifest = w'.disk.manifest := by
      unfold fileOp
      split
      · exact hg.manifest' _
      · split
        · rfl
        · exact hg.manifest' _
      · split
        · rfl
        · exact hg.manifest' _
    show ¬ lossy → ¬ EditsFit _ (EditLog.editsOf (fileOp site g' w').2.disk.manifest)
    rw [hsame]
    exact h

theorem exact_touch (hs : site.ofManifest = false) : Exact (logOf lossy) (touch site) (touch site) :=
  exact_fileOp hs sameChange_id

theorem simulates_appendWal (hs : site.ofManifest = false) (id : UInt32) (m : WriterM Status Unit) :
    Simulates (logOf lossy) (appendWal site id m) (appendWal site id m) := by
  refine Exact.simulates ⟨fun w w' h => ?_, fun w' h => h⟩
  obtain ⟨⟨he, hd⟩, hf, ht, hc⟩ := h
  unfold appendWal
  rw [fault_other hf hs, hd.wals]
  exact ⟨rfl, ⟨he, (sameChange_setWal id _).files hd⟩, pop_other hf hs, ht, calm_pop hc site⟩

theorem simulates_onTables {α : Type} (hs : site.ofManifest = false) {m : Prog TableStore Status α}
    (hm : ¬ lossy → ∀ s, s.faults = [] → (m s).2.faults = []) :
    Simulates (logOf lossy) (onTables site m) (onTables site m) := by
  refine Exact.simulates ⟨fun w w' h => ?_, fun w' h => h⟩
  obtain ⟨⟨he, hd⟩, hf, ht, hc⟩ := h
  unfold onTables
  rw [hf, otherFaults_other hs, hd.tables]
  refine ⟨rfl, ⟨he, hd.dir, hd.wals, rfl⟩, ?_, ht, fun hl => ?_⟩
  · exact (otherFaults_update hs _).symm
  · have hempty := hc hl
    show Function.update w.faults site _ = _
    rw [hempty, hm hl _ rfl]
    exact Function.update_eq_self site _

end

theorem simulates_modify {f : Engine Manifest → Engine Manifest} {f' : Engine LogObject → Engine LogObject}
    (hf : ∀ e, f' e.asLog = (f e).asLog)
    (hm : ∀ e, (f e).manifest = e.manifest ∧ (f e).levels = e.levels ∧ (f e).counters = e.counters) :
    Simulates (logOf lossy) (modifyEngine f) (modifyEngine f') := by
  refine Exact.simulates ⟨fun w w' h => ?_, fun w' h => h⟩
  obtain ⟨⟨he, hd⟩, hfaults, ht, hc⟩ := h
  obtain ⟨h1, h2, h3⟩ := hm w.engine
  refine ⟨rfl, ⟨?_, hd⟩, hfaults, ?_, hc⟩
  · show f' w'.engine = (f w.engine).asLog
    rw [he, hf]
  · show Tracks (f w.engine) w.disk.manifest w'.disk.manifest
    unfold Tracks at ht ⊢
    rw [h1, h2, h3]
    exact ht

/-- An engine that starts afresh. -/
theorem simulates_restart {f : World (List UInt8) Manifest → World (List UInt8) Manifest}
    {f' : World EditLog LogObject → World EditLog LogObject}
    (hf : ∀ w w', w'.engine = w.engine.asLog → (f' w').engine = (f w).engine.asLog)
    (hm : ∀ w, (f w).engine.manifest = none)
    (hkeep : (∀ w, (f w).disk = w.disk ∧ (f w).faults = w.faults) ∧ ∀ w', (f' w').disk = w'.disk ∧
      (f' w').faults = w'.faults) :
    Simulates (logOf lossy) (modify f : EngineM (List UInt8) Manifest Unit)
      (modify f' : EngineM EditLog LogObject Unit) := by
  refine Exact.simulates ⟨fun w w' h => ?_, fun w' h => ?_⟩
  · obtain ⟨⟨he, hd⟩, hfaults, ht, hc⟩ := h
    obtain ⟨⟨h1, h2⟩, h3, h4⟩ := And.intro (hkeep.1 w) (hkeep.2 w')
    refine ⟨rfl, ⟨hf w w' he, ?_⟩, ?_, ?_, ?_⟩
    · show SameFiles (f w).disk (f' w').disk
      rw [h1, h3]
      exact hd
    · show (f' w').faults = otherFaults (f w).faults
      rw [h4, h2]
      exact hfaults
    · show Tracks (f w).engine (f w).disk.manifest (f' w').disk.manifest
      unfold Tracks
      rw [hm w, h1, h3]
      exact ht.holds
    · show ¬ lossy → (f w).faults = _
      rw [h2]
      exact hc
  · show ¬ lossy → ¬ EditsFit _ (EditLog.editsOf (f' w').disk.manifest)
    rw [(hkeep.2 w').1]
    exact h

/-! ## The manifest -/

theorem stop_lossy {α : Type} {r : Outcome Status α × World (List UInt8) Manifest}
    {r' : Outcome Status α × World EditLog LogObject} (hl : lossy) (hr : ∀ a, r.1 ≠ .ok a) :
    (logOf lossy).Ends r r' := by
  refine .inr ⟨?_, fun hn => absurd hl hn⟩
  obtain ⟨o, w⟩ := r
  cases o with
  | ok a => exact absurd rfl (hr a)
  | err e => exact .inl ⟨⟨e, rfl⟩, fun hn => absurd hl hn⟩
  | crash => exact .inr ⟨rfl, hl⟩

theorem editStore_commit_keeps {site : Site} {edit : VersionEdit} {w' : World EditLog LogObject}
    (h : (logOf lossy).Bad w') : (logOf lossy).Bad (commitManifest site edit w').2 := by
  intro hl hfit
  refine h hl ?_
  have hcases : EditLog.editsOf (commitManifest site edit w').2.disk.manifest = EditLog.editsOf w'.disk.manifest ∨
      EditLog.editsOf (commitManifest site edit w').2.disk.manifest = EditLog.editsOf w'.disk.manifest ++ [edit] := by
    have happend : ∀ reached, EditLog.editsOf (EditLog.append w'.disk.manifest edit reached) =
        EditLog.editsOf w'.disk.manifest ∨
        EditLog.editsOf (EditLog.append w'.disk.manifest edit reached) = EditLog.editsOf w'.disk.manifest ++
          [edit] := by
      intro reached
      unfold EditLog.append
      split
      · exact .inl rfl
      · exact .inr rfl
    unfold commitManifest onManifest
    split
    · exact .inl rfl
    · dsimp only [ManifestStore.commit]
      split
      · exact .inl rfl
      · split
        · exact .inl rfl
        · exact .inl rfl
        · split
          · exact happend 1
          · next reached _ _ => exact happend reached
          · next reached _ => exact happend reached
  rcases hcases with heq | heq
  · rwa [heq] at hfit
  · rw [heq] at hfit
    exact (editsFit_append.mp hfit).1

section

variable {w : World (List UInt8) Manifest} {w' : World EditLog LogObject} {site : Site} {edit : VersionEdit}

/-- The object's state in a world. -/
def manifestState (w : World (List UInt8) Manifest) (m : Manifest) : ManifestState :=
  ⟨{ m with counters := w.engine.counters }, w.disk.manifest, w.engine.levels⟩

/-- The world with the object's state. -/
def withState (w : World (List UInt8) Manifest) (s : ManifestState) : World (List UInt8) Manifest :=
  { w with
    disk := { w.disk with manifest := s.file }
    engine := { w.engine with manifest := some s.manifest, levels := s.levels, counters := s.manifest.counters } }

theorem byteStore_commit (site : Site) (edit : VersionEdit) {m : Manifest} (hm : w.engine.manifest = some m) :
    commitManifest site edit w = ((w.fault site).outcome (Manifest.commit (w.fault site).io edit (manifestState w m)).1,
      withState (w.pop site) (Manifest.commit (w.fault site).io edit (manifestState w m)).2) := by
  unfold commitManifest onManifest
  rw [show (w.pop site).engine.manifest = some m from hm]
  rfl

omit [Zlib] in
theorem fault_manifest (hf : w'.faults = otherFaults w.faults) (hs : site.ofManifest = true) :
    w'.fault site = .none ∧ w'.pop site = w' := by
  have hnil : w'.faults site = [] := by rw [hf, otherFaults_manifest hs]
  refine ⟨?_, ?_⟩
  · unfold World.fault
    rw [hnil]
    rfl
  · unfold World.pop
    rw [hnil, List.tail_nil, ← hnil, Function.update_eq_self]

theorem editStore_commit (edit : VersionEdit) {object : LogObject} (hm : w'.engine.manifest = some object)
    (hp : object.writePoisoned = false) (hfault : w'.fault site = .none) (hpop : w'.pop site = w') :
    commitManifest site edit w' =
      match stageApply w'.engine.levels w'.engine.counters edit, edit.prepare with
      | .error e, _ => (.err e, w')
      | .ok _, .error e => (.err e, w')
      | .ok (levels, counters), .ok _ => (.ok (), { w' with
          disk := { w'.disk with manifest := some ⟨EditLog.editsOf w'.disk.manifest ++ [edit]⟩ }
          engine := { w'.engine with levels, counters } }) := by
  have hself : { w' with engine := { w'.engine with manifest := some object } } = w' := by rw [← hm]
  unfold commitManifest onManifest
  rw [hpop, hfault, hm]
  simp only [ManifestStore.commit, hp, Bool.false_eq_true, if_false]
  cases stageApply w'.engine.levels w'.engine.counters edit with
  | error e => exact congrArg (Prod.mk _) hself
  | ok v =>
    cases edit.prepare with
    | error e => exact congrArg (Prod.mk _) hself
    | ok header =>
      simp only [EditLog.append, one_ne_zero, if_false, ← hm]

/-- **A commit over the bytes that returns ok is one over the edits.** -/
theorem commit_rel (hs : site.ofManifest = true) (h : (logOf lossy).Rel w w') {t : World (List UInt8) Manifest}
    (hrun : commitManifest site edit w = (.ok (), t)) :
    ∃ t', commitManifest site edit w' = (.ok (), t') ∧ (logOf lossy).Rel t t' := by
  obtain ⟨⟨he, hd⟩, hf, ht, hc⟩ := h
  obtain ⟨hfault, hpop⟩ := fault_manifest hf hs
  have hpopped : (w.pop site).faults = Function.update w.faults site (w.faults site).tail := rfl
  have hf' : w'.faults = otherFaults (w.pop site).faults := by rw [hf, hpopped, otherFaults_pop hs]
  unfold Tracks at ht
  cases hm : w.engine.manifest with
  | none =>
    rw [hm] at ht
    have hm' : w'.engine.manifest = none := by rw [he, Engine.asLog, hm]; rfl
    have hone : commitManifest site edit w = (.ok (), w.pop site) := by
      unfold commitManifest onManifest
      rw [show (w.pop site).engine.manifest = none from hm]
    have hone' : commitManifest site edit w' = (.ok (), w') := by
      unfold commitManifest onManifest
      rw [hpop, hm']
    rw [hone] at hrun
    cases hrun
    refine ⟨w', hone', ⟨he, hd⟩, hf', ?_, calm_pop hc site⟩
    show Tracks w.engine w.disk.manifest w'.disk.manifest
    unfold Tracks
    rw [hm]
    exact ht
  | some m =>
    rw [hm] at ht
    obtain ⟨n, edits, hlog, hrec⟩ := ht
    have hm' : w'.engine.manifest = some ⟨m.writePoisoned⟩ := by rw [he, Engine.asLog, hm]; rfl
    rw [byteStore_commit site edit hm] at hrun
    match hcom : Manifest.commit (w.fault site).io edit (manifestState w m) with
    | (r, s') =>
    rw [hcom] at hrun
    have hr : r = .ok () ∧ withState (w.pop site) s' = t := by
      cases hw : w.fault site with
      | none =>
        rw [hw] at hrun
        exact Prod.mk.inj hrun
      | err reached e =>
        rw [hw] at hrun
        exact Prod.mk.inj hrun
      | crash reached =>
        rw [hw] at hrun
        cases hrun
    obtain ⟨rfl, rfl⟩ := hr
    have hrec' := recorded_commit hrec hcom
    rcases Manifest.commit_cases hcom with
      ⟨-, ⟨e, hx⟩, -⟩ | ⟨-, -, ⟨-, ⟨e, hx⟩, -⟩ | ⟨⟨lm, c⟩, header, hst, hpr,
        hok | ⟨⟨e, hx⟩, -⟩ | hx⟩⟩
    · cases hx
    · cases hx
    · obtain ⟨-, b, -, -, hs'⟩ := hok
      have hst' : stageApply w'.engine.levels w'.engine.counters edit = .ok (lm, c) := by
        rw [he]
        exact hst
      have hcommit := editStore_commit edit hm' hrec.unpoisoned hfault hpop
      rw [hst', hpr] at hcommit
      refine ⟨_, hcommit, ⟨?_, hd.dir, hd.wals, hd.tables⟩, hf', ?_, calm_pop hc site⟩
      · show ({ w'.engine with levels := lm, counters := c } : Engine LogObject) = _
        rw [he, hs']
        unfold Engine.asLog withState
        rw [hm]
        rfl
      · show Tracks (withState (w.pop site) s').engine s'.file (some ⟨EditLog.editsOf w'.disk.manifest ++ [edit]⟩)
        rw [hlog]
        exact ⟨n, edits ++ [edit], rfl, hrec'⟩
    · cases hx
    · cases hx

/-- Without faults, a commit of the bytes ends as that of the edits, or its edit does not fit. -/
theorem commit_ends (hs : site.ofManifest = true) (h : (logOf False).Rel w w') :
    (logOf False).Ends (commitManifest site edit w) (commitManifest site edit w') := by
  obtain ⟨⟨he, hd⟩, hf, ht, hc⟩ := id h
  obtain ⟨hfault', hpop'⟩ := fault_manifest hf hs
  have hstill : w.faults = fun _ => [] := hc id
  have hfault : w.fault site = .none := by
    unfold World.fault
    rw [hstill]
    rfl
  have hpop : w.pop site = w := by
    unfold World.pop
    rw [hstill]
    have hself := Function.update_eq_self site (fun _ : Site => ([] : List Fault))
    rw [List.tail_nil, hself, ← hstill]
  by_cases hok : (commitManifest site edit w).1 = .ok ()
  · obtain ⟨t', hrun', hrel⟩ := commit_rel hs h (run_eq hok)
    exact .inl ⟨by rw [hok, hrun'], by rw [hrun']; exact hrel⟩
  unfold Tracks at ht
  cases hm : w.engine.manifest with
  | none =>
    refine absurd ?_ hok
    unfold commitManifest onManifest
    rw [hpop, hm]
  | some m =>
    rw [hm] at ht
    obtain ⟨n, edits, hlog, hrec⟩ := ht
    have hm' : w'.engine.manifest = some ⟨m.writePoisoned⟩ := by rw [he, Engine.asLog, hm]; rfl
    have hcommit := editStore_commit edit hm' hrec.unpoisoned hfault' hpop'
    have hbytes := byteStore_commit site edit hm
    rw [hfault, hpop] at hbytes
    have hlevels : w'.engine.levels = w.engine.levels ∧ w'.engine.counters = w.engine.counters := by
      rw [he]
      exact ⟨rfl, rfl⟩
    rw [hlevels.1, hlevels.2] at hcommit
    -- an edit that is refused before the append is refused alike
    have hrefused : ∀ e, Manifest.commit Fault.none.io edit (manifestState w m) = (.err e, manifestState w m) →
        commitManifest site edit w' = (.err e, w') →
        (logOf False).Ends (commitManifest site edit w) (commitManifest site edit w') := by
      intro e h1 h2
      rw [hbytes, h1, h2]
      refine .inl ⟨rfl, ⟨?_, hd⟩, hf, ?_, hc⟩
      · show w'.engine = Engine.asLog { w.engine with manifest := some { m with counters := w.engine.counters } }
        rw [he]
        unfold Engine.asLog
        rw [hm]
        rfl
      · exact ⟨n, edits, hlog, hrec⟩
    cases hst : stageApply w.engine.levels w.engine.counters edit with
    | error e =>
      rw [hst] at hcommit
      exact hrefused e (commit_unstaged hrec hst) hcommit
    | ok staged =>
      obtain ⟨lm, c⟩ := staged
      cases hpr : edit.prepare with
      | error e =>
        rw [hst, hpr] at hcommit
        exact hrefused e (commit_unprepared hrec hst hpr) hcommit
      | ok header =>
        have hmisfit : ¬ FitsAt MANIFEST_BLOCK_SIZE (fileLength (manifestState w m)) edit.record := by
          intro hfit
          obtain ⟨s', hs', -⟩ := commit_of_fits hrec hst hpr (fields_le_of_fits hfit) hfit
          refine hok ?_
          rw [hbytes, show Fault.none.io = {} from rfl]
          exact congrArg Prod.fst hs'
        obtain ⟨e, s', hs'⟩ := commit_misfit hrec hst hpr hmisfit
        rw [hst, hpr] at hcommit
        refine .inr ⟨.inl ⟨⟨e, ?_⟩, ?_⟩, ?_⟩
        · rw [hbytes, show Fault.none.io = {} from rfl]
          exact congrArg Prod.fst hs'
        · rw [hbytes]
          exact hc
        · intro _ hfit
          rw [hcommit] at hfit
          have hfit' : EditsFit ManifestHeader.diskSize (EditLog.editsOf w'.disk.manifest ++ [edit]) := hfit
          rw [hlog] at hfit'
          refine hmisfit ?_
          rw [show fileLength (manifestState w m) = _ from hrec.fileLength_eq]
          exact (editsFit_append.mp hfit').2.2.1

theorem simulates_commit (hs : site.ofManifest = true) :
    Simulates (logOf lossy) (commitManifest site edit) (commitManifest site edit) where
  runs w w' h := by
    by_cases hl : lossy
    · by_cases hok : (commitManifest site edit w).1 = .ok ()
      · obtain ⟨t', hrun', hrel⟩ := commit_rel hs h (run_eq hok)
        exact .inl ⟨by rw [hok, hrun'], by rw [hrun']; exact hrel⟩
      · exact stop_lossy hl fun _ => hok
    · have heq : lossy = False := propext ⟨hl, False.elim⟩
      subst heq
      exact commit_ends hs h
  keeps _ h := editStore_commit_keeps h

theorem simulates_sync (hs : site.ofManifest = true) :
    Simulates (logOf lossy) (syncManifest site) (syncManifest site) where
  runs w w' h := by
    obtain ⟨⟨he, hd⟩, hf, ht, hc⟩ := h
    obtain ⟨hfault', hpop'⟩ := fault_manifest hf hs
    have hpopped : (w.pop site).faults = Function.update w.faults site (w.faults site).tail := rfl
    have hf' : w'.faults = otherFaults (w.pop site).faults := by rw [hf, hpopped, otherFaults_pop hs]
    unfold Tracks at ht
    cases hm : w.engine.manifest with
    | none =>
      rw [hm] at ht
      have hm' : w'.engine.manifest = none := by rw [he, Engine.asLog, hm]; rfl
      unfold syncManifest onManifest
      rw [hpop', hm', show (w.pop site).engine.manifest = none from hm]
      refine .inl ⟨rfl, ⟨he, hd⟩, hf', ?_, calm_pop hc site⟩
      show Tracks w.engine w.disk.manifest w'.disk.manifest
      unfold Tracks
      rw [hm]
      exact ht
    | some m =>
      rw [hm] at ht
      obtain ⟨n, edits, hlog, hrec⟩ := ht
      have hm' : w'.engine.manifest = some ⟨m.writePoisoned⟩ := by rw [he, Engine.asLog, hm]; rfl
      have hbytes : syncManifest site w =
          ((w.fault site).outcome (Manifest.sync (w.fault site).io (manifestState w m)).1,
          withState (w.pop site) (Manifest.sync (w.fault site).io (manifestState w m)).2) := by
        unfold syncManifest onManifest
        rw [show (w.pop site).engine.manifest = some m from hm]
        rfl
      have hsync : Manifest.sync (w.fault site).io (manifestState w m) =
          syncOrPoison (w.fault site).io.sync (manifestState w m) := by
        have hp : (manifestState w m).manifest.writePoisoned = false := hrec.unpoisoned
        have hw : (manifestState w m).manifest.writable = true := hrec.writable
        rw [Manifest.sync, bind_ok (get_apply _), bind_ok (by rw [ensure_apply, hp]; rfl),
          bind_ok (by rw [ensure_apply, hw]; rfl)]
      rw [hsync] at hbytes
      have hlog' : syncManifest site w' = (.ok (), w') := by
        have hself : { w' with engine := { w'.engine with manifest := some ⟨m.writePoisoned⟩ } } =
            w' := by rw [← hm']
        unfold syncManifest onManifest
        rw [hpop', hm']
        simp only [ManifestStore.sync, show m.writePoisoned = false from hrec.unpoisoned, Bool.false_eq_true, if_false,
          hfault']
        rw [show m.writePoisoned = false from hrec.unpoisoned] at hself
        exact congrArg (Prod.mk _) hself
      cases hfault : w.fault site with
      | none =>
        rw [hfault] at hbytes
        rw [hbytes, hlog']
        refine .inl ⟨rfl, ⟨?_, hd⟩, hf', ⟨n, edits, hlog, hrec⟩, calm_pop hc site⟩
        show w'.engine = Engine.asLog { w.engine with manifest := some { m with counters := w.engine.counters } }
        rw [he]
        unfold Engine.asLog
        rw [hm]
        rfl
      | err reached e =>
        rw [hfault] at hbytes
        refine stop_lossy (calm_fault hc (by rw [hfault]; simp)) fun a ha => ?_
        rw [hbytes] at ha
        cases ha
      | crash reached =>
        rw [hfault] at hbytes
        refine stop_lossy (calm_fault hc (by rw [hfault]; simp)) fun a ha => ?_
        rw [hbytes] at ha
        cases ha
  keeps w' h := by
    have hsame : (syncManifest site w').2.disk.manifest = w'.disk.manifest := by
      unfold syncManifest onManifest
      split
      · rfl
      · dsimp only [ManifestStore.sync]
        split
        · rfl
        · split
          · rfl
          · rfl
          · rfl
    show ¬ lossy → ¬ EditsFit _ (EditLog.editsOf (syncManifest site w').2.disk.manifest)
    rw [hsame]
    exact h

/-- A new manifest has no edit and an empty version. -/
theorem create_tracks {n : Nat} {access write : Fault} {file file' : Option (List UInt8)} {m : Manifest}
    {lm : LevelManager} {c : StagedCounters} (hfile : file.getD [] = [])
    (h : ByteStore.create n access write file = (.ok (m, lm, c), file')) :
    lm = LevelManager.init n ∧ c = {} ∧ m.writePoisoned = false ∧
      Recorded n ⟨{ m with counters := c }, file', lm⟩ [] := by
  unfold ByteStore.create at h
  cases access with
  | err reached e => cases h
  | crash reached => cases h
  | none =>
    dsimp only at h
    match hrun : Manifest.openOrCreate write.io ⟨{ path := ByteStore.PATH }, file, LevelManager.init n⟩ with
    | (.err e, s) =>
      rw [hrun] at h
      cases write <;> cases h
    | (.crash, s) =>
      rw [hrun] at h
      cases h
    | (.ok u, s) =>
      have hrec := recorded_openOrCreate hrun
      rw [openOrCreate_eq n hfile (by cases write <;> rfl)] at hrun
      obtain ⟨_, s₁, h₁, h₂⟩ := bind_eq_ok hrun
      have hsync : s = s₁ := by
        cases hs : write.io.sync with
        | none =>
          rw [hs, syncOrPoison_none] at h₂
          cases h₂
          rfl
        | some e =>
          rw [hs, syncOrPoison_some] at h₂
          cases h₂
      subst hsync
      have hversion : s.levels = LevelManager.init n ∧ s.manifest.counters = {} ∧
          s.manifest.writePoisoned = false := by
        unfold orElse runWriter at h₁
        generalize ManifestHeader.create.write _ = r at h₁
        obtain ⟨o, b⟩ := r
        cases o with
        | ok _ =>
          cases h₁
          exact ⟨rfl, rfl, rfl⟩
        | err e => cases h₁
        | crash => cases h₁
      rw [show Manifest.openOrCreate write.io ⟨{ path := ByteStore.PATH }, file, LevelManager.init n⟩ =
        (.ok u, s) by
        rw [openOrCreate_eq n hfile (by cases write <;> rfl), hrun]] at h
      have hout : (m, lm, c) = (s.manifest, s.levels, s.manifest.counters) ∧ file' = s.file := by
        cases write with
        | none =>
          cases h
          exact ⟨rfl, rfl⟩
        | err reached e =>
          cases h
          exact ⟨rfl, rfl⟩
        | crash reached => cases h
      obtain ⟨hm, rfl⟩ := hout
      cases hm
      exact ⟨hversion.1, hversion.2.1, hversion.2.2, hrec⟩

/-- **Opening the bytes is opening the edits.** -/
theorem openManifest_tracks {n : Nat} {access write : Fault} {file file' : Option (List UInt8)} {log : Option EditLog}
    {m : Manifest} {lm : LevelManager} {c : StagedCounters} (ht : HoldsEdits file (EditLog.editsOf log))
    (h : ManifestStore.openManifest n access write file = (.ok (m, lm, c), file')) :
    EditLog.recover n log = .ok ({}, lm, c) ∧ m.writePoisoned = false ∧
      Recorded n ⟨{ m with counters := c }, file', lm⟩ (EditLog.editsOf log) := by
  have hrecover : ∀ v, replay n (EditLog.editsOf log) = .ok v → EditLog.recover n log = .ok ({}, v.1, v.2) := by
    intro v hv
    have hinv := (replayFrom_inv (manifestInv_init n) hv).1
    rw [EditLog.recover, hv, ok_bind, checkInvariants_ok_iff.mpr hinv]
    rfl
  generalize hedits : EditLog.editsOf log = edits at ht hrecover
  cases ht with
  | blank hfile =>
    have hcreate : ByteStore.create n access write file = (.ok (m, lm, c), file') := by
      cases file with
      | none => exact h
      | some b =>
        rw [Option.getD_some] at hfile
        subst hfile
        exact h
    obtain ⟨rfl, rfl, hp, hrec⟩ := create_tracks hfile hcreate
    exact ⟨hrecover _ rfl, hp, hrec⟩
  | @edits _ tail hfit htorn =>
    have hne : manifestHeaderBytes ++ (editsBytes edits ++ tail) ≠ [] := by
      refine List.append_ne_nil_of_left_ne_nil (List.ne_nil_of_length_pos ?_) _
      rw [length_manifestHeaderBytes]
      decide
    have hrun : ByteStore.recover n access (manifestHeaderBytes ++ (editsBytes edits ++ tail)) =
        (.ok (m, lm, c), file') := by
      have h' : (if manifestHeaderBytes ++ (editsBytes edits ++ tail) = [] then _ else _) = _ := h
      rwa [if_neg hne] at h'
    have hcount : (LevelManager.init n).levelCount = n := by simp [LevelManager.init, LevelManager.levelCount]
    obtain ⟨hok, herr⟩ := @load_holds _ edits tail (LevelManager.init n) ByteStore.PATH hfit htorn _ rfl
    rw [hcount] at hok herr
    unfold ByteStore.recover at hrun
    cases hv : replay n edits with
    | error x =>
      obtain ⟨y, lm', hy⟩ := herr x hv
      rw [hy] at hrun
      cases hrun
    | ok v =>
      obtain ⟨s, hs, hlevels, hcounters, hrec⟩ := @resume_holds _ edits tail n ByteStore.PATH hfit _ rfl v hv
      rw [hok v hv] at hrun
      cases access with
      | none =>
        have hattach : ByteStore.attach .none ⟨recoveredManifest ByteStore.PATH v.2
            (ManifestHeader.diskSize + (editsBytes edits).length)
            (manifestHeaderBytes ++ (editsBytes edits ++ tail)).length,
            some (manifestHeaderBytes ++ (editsBytes edits ++ tail)), v.1⟩ = (.ok (), s) := hs
        dsimp only at hrun
        rw [hattach] at hrun
        cases hrun
        refine ⟨?_, hrec.unpoisoned, hrec⟩
        rw [hrecover v hv, hlevels, hcounters]
      | err reached e => cases hrun
      | crash reached => cases hrun

theorem simulates_openManifest (hl : lossy) : Simulates (logOf lossy) Engine.openManifest Engine.openManifest where
  runs w w' h := by
    obtain ⟨⟨he, hd⟩, hf, ht, hc⟩ := h
    by_cases hok : (Engine.openManifest w).1 = .ok ()
    · have hrun := run_eq hok
      obtain ⟨hfault, hpop⟩ := fault_manifest hf (show Site.ofManifest .openManifest = true from rfl)
      obtain ⟨hfault', hpop'⟩ := fault_manifest hf (show Site.ofManifest .openHeader = true from rfl)
      have hholds := ht.holds
      have hfaults : w'.faults = otherFaults ((w.pop .openManifest).pop .openHeader).faults := by
        have h1 : (w.pop .openManifest).faults = Function.update w.faults .openManifest
            (w.faults .openManifest).tail := rfl
        have h2 : ((w.pop .openManifest).pop .openHeader).faults = Function.update
            (w.pop .openManifest).faults .openHeader
          ((w.pop .openManifest).faults .openHeader).tail := rfl
        rw [h2, otherFaults_pop rfl, h1, otherFaults_pop rfl, hf]
      unfold Engine.openManifest at hrun
      dsimp only at hrun
      match hopen : ManifestStore.openManifest w.engine.levels.levelCount (w.fault .openManifest) (w.fault .openHeader)
          w.disk.manifest with
      | (.err e, file) =>
        rw [hopen] at hrun
        cases hrun
      | (.crash, file) =>
        rw [hopen] at hrun
        cases hrun
      | (.ok (m, lm, c), file) =>
        obtain ⟨hrecover, hp, hrec⟩ := openManifest_tracks hholds hopen
        have hlog : Engine.openManifest w' = (.ok (), { w' with
            disk := { w'.disk with manifest := some ⟨EditLog.editsOf w'.disk.manifest⟩ }
            engine := { w'.engine with manifest := some {}, levels := lm, counters := c } }) := by
          unfold Engine.openManifest
          dsimp only
          rw [hpop, hpop', hfault, hfault', show w'.engine.levels.levelCount =
            w.engine.levels.levelCount by rw [he]; rfl]
          simp only [ManifestStore.openManifest, hrecover]
        have hbytes : Engine.openManifest w = (.ok (), { (w.pop .openManifest).pop .openHeader with
            disk := { w.disk with manifest := file }
            engine := { w.engine with manifest := some m, levels := lm, counters := c } }) := by
          unfold Engine.openManifest
          dsimp only
          rw [hopen]
        rw [hbytes, hlog]
        refine .inl ⟨rfl, ⟨?_, hd.dir, hd.wals, hd.tables⟩, hfaults, ?_, fun hn => absurd hl hn⟩
        · show ({ w'.engine with manifest := some {}, levels := lm, counters := c } : Engine LogObject) = _
          rw [he]
          unfold Engine.asLog
          dsimp only [Option.map_some]
          rw [hp]
        · exact ⟨_, _, rfl, hrec⟩
    · exact stop_lossy hl fun _ => hok
  keeps w' _ := fun hn => absurd hl hn

end

/-! ## The engine's functions -/

theorem simulates_createWal {site : Site} (hs : site.ofManifest = false) (id : UInt32) (startSeq : UInt64) :
    Simulates (logOf lossy) (createWal site id startSeq) (createWal site id startSeq) := by
  refine simulates_bind (exact_fileOp hs (sameChange_setWal _ _)).simulates fun _ => ?_
  refine simulates_bind (exact_fileOp hs (sameChange_setWal _ _)).simulates fun _ => ?_
  refine simulates_bind (simulates_appendWal hs _ _) fun _ => ?_
  exact simulates_bind (exact_touch hs).simulates fun _ => simulates_pure _

theorem simulates_writeWal {site : Site} (hs : site.ofManifest = false) (wal : WALHandle) (record : InternalRecord) :
    Simulates (logOf lossy) (writeWal site wal record) (writeWal site wal record) :=
  simulates_bind (simulates_ensure _ _) fun _ => simulates_appendWal hs _ _

theorem simulates_syncWal {site : Site} (hs : site.ofManifest = false) (wal : WALHandle) :
    Simulates (logOf lossy) (syncWal site wal) (syncWal site wal) :=
  simulates_bind (simulates_ensure _ _) fun _ => (exact_touch hs).simulates

/-- A failed append of an edit or of a WAL is taken back, without a result. -/
theorem stopped_undo {site : Site} (walId : UInt32) (e : Status) {w : World (List UInt8) Manifest}
    (hc : (logOf lossy).Calm w) :
    (logOf lossy).Stopped ((do
      ignore (touch site)
      ignore (fileOp site fun d => d.setWal walId none)
      fail e : EngineM (List UInt8) Manifest Unit) w) := by
  have hop : ∀ (g : Disk (List UInt8) → Disk (List UInt8)) {w : World (List UInt8) Manifest},
      (logOf lossy).Calm w →
      (∃ w₁, ignore (fileOp site g) w = (.ok (), w₁) ∧ (logOf lossy).Calm w₁) ∨
        ∃ w₁, ignore (fileOp site g) w = (.crash, w₁) ∧ lossy := by
    intro g w hc
    have hpop : ∀ d, (logOf lossy).Calm { w.pop site with disk := d } := fun _ => calm_pop hc site
    unfold ignore orElse fileOp
    cases hfault : w.fault site with
    | none => exact .inl ⟨_, rfl, hpop _⟩
    | err reached e =>
      refine .inl ⟨_, rfl, ?_⟩
      split
      · exact calm_pop hc site
      · exact hpop _
    | crash reached => exact .inr ⟨_, rfl, calm_fault hc (by rw [hfault]; simp)⟩
  rcases hop id hc with ⟨w₁, h₁, hc₁⟩ | ⟨w₁, h₁, hl⟩
  · refine (congrArg (logOf lossy).Stopped (bind_ok h₁)).mpr ?_
    rcases hop (fun d => d.setWal walId none) hc₁ with ⟨w₂, h₂, hc₂⟩ | ⟨w₂, h₂, hl⟩
    · refine (congrArg (logOf lossy).Stopped (bind_ok h₂)).mpr ?_
      exact .inl ⟨⟨e, rfl⟩, hc₂⟩
    · refine (congrArg (logOf lossy).Stopped (bind_crash h₂)).mpr ?_
      exact .inr ⟨rfl, hl⟩
  · refine (congrArg (logOf lossy).Stopped (bind_crash h₁)).mpr ?_
    exact .inr ⟨rfl, hl⟩

theorem simulates_undo {site : Site} (hs : site.ofManifest = false) (id : UInt32) (e : Status) :
    Simulates (logOf lossy)
      (do
        ignore (touch site)
        ignore (fileOp site fun d => d.setWal id none)
        fail e : EngineM (List UInt8) Manifest Unit)
      (do
        ignore (touch site)
        ignore (fileOp site fun d => d.setWal id none)
        fail e : EngineM EditLog LogObject Unit) := by
  refine simulates_bind (exact_touch hs).ignore.simulates fun _ => ?_
  exact simulates_bind (exact_fileOp hs (sameChange_setWal _ _)).ignore.simulates fun _ => simulates_fail e

namespace Engine

theorem simulates_ensureOpen : Simulates (logOf lossy) ensureOpen ensureOpen := by
  refine simulates_get fun w w' h => ?_
  rw [h.1]
  exact simulates_bind (simulates_ensure _ _) fun _ => simulates_ensure _ _

theorem simulates_withWal {k : WALHandle → EngineM (List UInt8) Manifest Unit}
    {k' : WALHandle → EngineM EditLog LogObject Unit}
    (hk : ∀ wal, Simulates (logOf lossy) (k wal) (k' wal)) : Simulates (logOf lossy) (withWal k) (withWal k') := by
  refine simulates_get fun w w' h => ?_
  rw [h.1, show w.engine.asLog.wal = w.engine.wal from rfl]
  cases w.engine.wal with
  | none => exact simulates_fail _
  | some wal => exact hk wal

theorem simulates_closeWal {site : Site} (hs : site.ofManifest = false) :
    Simulates (logOf lossy) (closeWal site) (closeWal site) := by
  refine simulates_get fun w w' h => ?_
  rw [h.1, show w.engine.asLog.wal = w.engine.wal from rfl]
  cases w.engine.wal with
  | none => exact simulates_pure _
  | some wal =>
    refine simulates_ite ?_ (simulates_pure _)
    exact simulates_bind (simulates_modify (fun _ => rfl) fun _ => ⟨rfl, rfl, rfl⟩) fun _ =>
      (exact_touch hs).simulates

/-! ### Flush -/

theorem simulates_retireOldest (generationId : UInt64) :
    Simulates (logOf lossy) (retireOldest generationId) (retireOldest generationId) := by
  refine simulates_get fun w w' h => ?_
  rw [h.1, show w.engine.asLog.mem = w.engine.mem from rfl]
  cases w.engine.mem.retireOldestImmutable generationId with
  | none => exact simulates_fail _
  | some mem => exact simulates_modify (fun _ => rfl) fun _ => ⟨rfl, rfl, rfl⟩

theorem simulates_flushKeeping (oldest : ImmutableTable) (edit : VersionEdit) :
    Simulates (logOf lossy) (flushKeeping oldest edit) (flushKeeping oldest edit) :=
  simulates_bind (simulates_commit rfl) fun _ => simulates_retireOldest _

theorem simulates_switchWal (replacement : WALHandle) (old : UInt32) :
    Simulates (logOf lossy) (switchWal replacement old) (switchWal replacement old) := by
  refine simulates_bind (simulates_closeWal rfl) fun _ => ?_
  refine simulates_bind (simulates_modify (fun _ => rfl) fun _ => ⟨rfl, rfl, rfl⟩) fun _ => ?_
  exact (exact_fileOp rfl (sameChange_setWal _ _)).simulates

theorem simulates_flushSwitching (oldest : ImmutableTable) (edit : VersionEdit) :
    Simulates (logOf lossy) (flushSwitching oldest edit) (flushSwitching oldest edit) := by
  refine simulates_get fun w w' h => ?_
  rw [h.1]
  refine simulates_bind (simulates_ensure _ _) fun _ => ?_
  refine simulates_bind (exact_fileOp rfl (sameChange_setWal _ _)).simulates fun _ => ?_
  refine simulates_bind (simulates_createWal rfl _ _) fun replacement => ?_
  refine simulates_bind (simulates_orElse (simulates_commit rfl) (fun e => simulates_undo rfl _ e)
    fun e w hc => stopped_undo _ e hc) fun _ => ?_
  exact simulates_bind (simulates_retireOldest _) fun _ => simulates_switchWal _ _

variable [EngineEnv]

theorem simulates_writeOldest (id : UInt32) (records : List InternalRecord) :
    Simulates (logOf lossy) (writeOldest id records) (writeOldest id records) := by
  refine simulates_bind (simulates_lift _) fun built => ?_
  cases built.bind summarize with
  | none => exact simulates_fail _
  | some summary =>
    refine simulates_bind (simulates_onTables rfl fun _ s hs => ?_) fun layout => simulates_lift _
    unfold TableStore.write
    cases TableFormat.layout id records with
    | error e => exact hs
    | ok layout =>
      obtain ⟨files, faults⟩ := s
      cases hs
      rfl

theorem simulates_flushGeneration (oldest : ImmutableTable) :
    Simulates (logOf lossy) (flushGeneration oldest) (flushGeneration oldest) := by
  refine simulates_get fun w w' h => ?_
  rw [h.1]
  refine simulates_bind (simulates_ensure _ _) fun _ => simulates_bind (simulates_writeOldest _ _) fun table => ?_
  exact simulates_ite (simulates_flushSwitching _ _) (simulates_flushKeeping _ _)

theorem simulates_flushOldestImmutable : Simulates (logOf lossy) flushOldestImmutable flushOldestImmutable := by
  refine simulates_get fun w w' h => ?_
  rw [h.1, show w.engine.asLog.mem = w.engine.mem from rfl]
  cases w.engine.mem.immutableTables with
  | nil => exact simulates_pure _
  | cons oldest rest => exact simulates_flushGeneration oldest

/-- **The loop of a flush** over the bytes is that over the edits. -/
theorem simulates_flushLoop (rounds : Nat) : Simulates (logOf lossy) (flushLoop rounds) (flushLoop rounds) := by
  induction rounds with
  | zero => exact simulates_pure _
  | succ rounds ih =>
    refine simulates_get fun w w' h => ?_
    rw [h.1]
    exact simulates_ite (simulates_bind simulates_flushOldestImmutable fun _ => ih) (simulates_pure _)

/-! ### Compaction, where the table files may fail -/

variable (hl : lossy)
include hl

theorem simulates_runCompaction (plan : CompactionPlan) :
    Simulates (logOf lossy) (runCompaction plan) (runCompaction plan) := by
  refine simulates_get fun w w' h => ?_
  rw [h.1]
  refine simulates_bind (simulates_onTables rfl fun hn => absurd hl hn) fun result => ?_
  cases result with
  | none => exact simulates_pure _
  | some edit =>
    exact simulates_bind (simulates_commit rfl) fun _ => simulates_onTables rfl fun hn => absurd hl hn

theorem simulates_compactLoop (rounds : Nat) : Simulates (logOf lossy) (compactLoop rounds) (compactLoop rounds) := by
  induction rounds with
  | zero =>
    refine simulates_get fun w w' h => ?_
    rw [h.1]
    exact simulates_ensure _ _
  | succ rounds ih =>
    refine simulates_get fun w w' h => ?_
    rw [h.1]
    refine simulates_ite (simulates_bind (simulates_lift _) fun plan => ?_) (simulates_pure _)
    cases plan with
    | none => exact simulates_pure _
    | some plan => exact simulates_bind (simulates_runCompaction hl plan) fun _ => ih

theorem simulates_maybeCompactUnlocked : Simulates (logOf lossy) maybeCompactUnlocked maybeCompactUnlocked := by
  refine simulates_get fun w w' h => ?_
  rw [h.1]
  exact simulates_ite (simulates_compactLoop hl _) (simulates_pure _)

theorem simulates_flushUnlocked : Simulates (logOf lossy) flushUnlocked flushUnlocked := by
  refine simulates_bind simulates_ensureOpen fun _ => ?_
  refine simulates_bind (simulates_modify (fun _ => rfl) fun _ => ⟨rfl, rfl, rfl⟩) fun _ => ?_
  refine simulates_get fun w w' h => ?_
  rw [h.1]
  exact simulates_bind (simulates_flushLoop _) fun _ => simulates_maybeCompactUnlocked hl

theorem simulates_maybeFlushUnlocked : Simulates (logOf lossy) maybeFlushUnlocked maybeFlushUnlocked := by
  refine simulates_get fun w w' h => ?_
  have hoffset : walOffset w' = walOffset w := by
    unfold walOffset
    rw [h.1, h.2.wals]
    rfl
  rw [hoffset, h.1]
  exact simulates_ite (simulates_flushUnlocked hl) (simulates_pure _)

/-! ### Calls -/

omit hl [EngineEnv] in
theorem simulates_applyRecord (record : InternalRecord) :
    Simulates (logOf lossy) (applyRecord record) (applyRecord record) := by
  refine simulates_bind (exact_touch rfl).simulates fun _ => simulates_get fun w w' h => ?_
  rw [h.1]
  exact simulates_bind (simulates_lift _) fun mem => simulates_modify (fun _ => rfl) fun _ => ⟨rfl, rfl, rfl⟩

omit hl [EngineEnv] in
theorem simulates_syncOnWrite : Simulates (logOf lossy) syncOnWrite syncOnWrite := by
  refine simulates_get fun w w' h => ?_
  rw [h.1]
  exact simulates_ite (simulates_withWal fun wal => simulates_syncWal rfl wal) (simulates_pure _)

theorem simulates_writeRecord (record : InternalRecord) :
    Simulates (logOf lossy) (writeRecord record) (writeRecord record) := by
  refine simulates_bind (simulates_withWal fun wal => simulates_writeWal rfl wal record) fun _ => ?_
  refine simulates_bind simulates_syncOnWrite fun _ => simulates_bind (simulates_applyRecord record) fun _ => ?_
  refine simulates_bind (simulates_modify (fun _ => rfl) fun _ => ⟨rfl, rfl, rfl⟩) fun _ => ?_
  exact simulates_maybeFlushUnlocked hl

theorem simulates_putImpl (key value : List UInt8) (type : RecType) :
    Simulates (logOf lossy) (putImpl key value type) (putImpl key value type) := by
  refine simulates_bind simulates_ensureOpen fun _ => simulates_bind (simulates_ensure _ _) fun _ => ?_
  refine simulates_get fun w w' h => ?_
  rw [h.1]
  refine simulates_bind (simulates_ensure _ _) fun _ => simulates_bind (simulates_lift _) fun keyEntry => ?_
  exact simulates_bind (simulates_lift _) fun valueEntry => simulates_writeRecord hl _

theorem simulates_compactLevels (smallest largest : ArenaEntry) (levels : List Nat) :
    Simulates (logOf lossy) (compactLevels smallest largest levels) (compactLevels smallest largest levels) := by
  induction levels with
  | nil => exact simulates_pure _
  | cons level rest ih =>
    refine simulates_get fun w w' h => ?_
    rw [h.1]
    refine simulates_ite ih (simulates_bind (simulates_ensure _ _) fun _ => ?_)
    exact simulates_bind (simulates_runCompaction hl _) fun _ => ih

theorem simulates_compactRange (first last : List UInt8) :
    Simulates (logOf lossy) (compactRange first last) (compactRange first last) := by
  unfold compactRange
  cases ArenaEntry.makeEntry first with
  | none => exact simulates_fail _
  | some smallest =>
    cases ArenaEntry.makeEntry last with
    | none => exact simulates_fail _
    | some largest =>
      refine simulates_bind (simulates_flushUnlocked hl) fun _ => simulates_bind (simulates_ensure _ _) fun _ => ?_
      refine simulates_get fun w w' h => ?_
      rw [h.1]
      exact simulates_compactLevels hl _ _ _

/-! ### Open and close -/

omit hl [EngineEnv] in
theorem simulates_prepareDirs : Simulates (logOf lossy) prepareDirs prepareDirs := by
  refine simulates_bind (simulates_get fun w w' h => ?_) fun _ => (exact_touch rfl).simulates
  rw [h.1, h.2.dir]
  refine simulates_ite (simulates_ensure _ _) (simulates_bind (simulates_ensure _ _) fun _ => ?_)
  exact (exact_fileOp rfl sameChange_dir).simulates

omit hl [EngineEnv] in
theorem simulates_replayRecords (records : List InternalRecord) :
    Simulates (logOf lossy) (replayRecords records) (replayRecords records) := by
  induction records with
  | nil => exact simulates_pure _
  | cons record rest ih =>
    refine simulates_bind (simulates_get fun w w' h => ?_) fun _ => ih
    rw [h.1]
    refine simulates_bind (simulates_lift _) fun mem => ?_
    refine simulates_bind (simulates_modify (fun _ => rfl) fun _ => ⟨rfl, rfl, rfl⟩) fun _ => ?_
    exact simulates_bind (simulates_ensure _ _) fun _ => simulates_modify (fun _ => rfl) fun _ => ⟨rfl, rfl, rfl⟩

omit hl [EngineEnv] in
theorem simulates_rewriteRecords (wal : WALHandle) (records : List InternalRecord) :
    Simulates (logOf lossy) (rewriteRecords wal records) (rewriteRecords wal records) := by
  induction records with
  | nil => exact simulates_pure _
  | cons record rest ih => exact simulates_bind (simulates_writeWal rfl wal record) fun _ => ih

omit hl [EngineEnv] in
theorem simulates_replaceWal (id : UInt32) (records : List InternalRecord) :
    Simulates (logOf lossy) (replaceWal id records) (replaceWal id records) := by
  refine simulates_bind (simulates_ensure _ _) fun _ => simulates_get fun w w' h => ?_
  rw [h.1]
  refine simulates_bind (exact_fileOp rfl (sameChange_setWal _ _)).simulates fun _ => ?_
  refine simulates_bind (simulates_createWal rfl _ _) fun replacement => ?_
  refine simulates_bind (simulates_orElse (simulates_rewriteRecords _ _) (fun e => simulates_undo rfl _ e)
    fun e w hc => stopped_undo _ e hc) fun _ => ?_
  refine simulates_bind (simulates_syncWal rfl _) fun _ => simulates_bind (simulates_commit rfl) fun _ => ?_
  refine simulates_bind (simulates_modify (fun _ => rfl) fun _ => ⟨rfl, rfl, rfl⟩) fun _ => ?_
  exact (exact_fileOp rfl (sameChange_setWal _ _)).simulates

omit hl [EngineEnv] in
theorem simulates_openWal : Simulates (logOf lossy) openWal openWal := by
  refine simulates_get fun w w' h => ?_
  rw [h.1, h.2.wals]
  refine simulates_bind (simulates_ensure _ _) fun _ => ?_
  refine simulates_bind (simulates_modify (fun _ => rfl) fun _ => ⟨rfl, rfl, rfl⟩) fun _ => ?_
  dsimp only [Engine.asLog]
  cases w.disk.wals w.engine.counters.currentWalId.toUInt32 with
  | none =>
    refine simulates_bind (exact_fileOp rfl (sameChange_setWal _ _)).simulates fun _ => ?_
    refine simulates_bind (simulates_createWal rfl _ _) fun wal => ?_
    exact simulates_modify (fun _ => rfl) fun _ => ⟨rfl, rfl, rfl⟩
  | some b =>
    refine simulates_bind (simulates_lift _) fun recovered => simulates_bind (simulates_ensure _ _) fun _ => ?_
    exact simulates_bind (simulates_replayRecords _) fun _ => simulates_replaceWal _ _

omit [EngineEnv] in
theorem simulates_open : Simulates (logOf lossy) «open» «open» := by
  refine simulates_get fun w w' h => ?_
  rw [h.1]
  refine simulates_ite (simulates_pure _) (simulates_ite (simulates_fail _) (simulates_get fun w w' h => ?_))
  rw [h.1]
  refine simulates_bind (simulates_lift _) fun _ => simulates_bind simulates_prepareDirs fun _ => ?_
  refine simulates_bind (simulates_restart (fun w w' he => ?_) (fun _ => rfl)
    ⟨fun _ => ⟨rfl, rfl⟩, fun _ => ⟨rfl, rfl⟩⟩) fun _ => ?_
  · show start w'.engine = (start w.engine).asLog
    rw [he]
    rfl
  refine simulates_bind (simulates_openManifest hl) fun _ => simulates_bind simulates_openWal fun _ => ?_
  exact simulates_modify (fun _ => rfl) fun _ => ⟨rfl, rfl, rfl⟩

omit hl [EngineEnv] in
theorem simulates_close : Simulates (logOf lossy) close close := by
  refine simulates_get fun w w' h => ?_
  rw [h.1]
  refine simulates_ite (simulates_pure _) (simulates_ite ?_ ?_)
  · exact simulates_modify (fun _ => rfl) fun _ => ⟨rfl, rfl, rfl⟩
  · refine simulates_bind (simulates_withWal fun wal => simulates_syncWal rfl wal) fun _ => ?_
    refine simulates_bind (simulates_sync rfl) fun _ => simulates_bind (simulates_closeWal rfl) fun _ => ?_
    exact simulates_modify (fun _ => rfl) fun _ => ⟨rfl, rfl, rfl⟩

omit [EngineEnv] in
theorem simulates_reopen (options : DBOptions) : Simulates (logOf lossy) (reopen options) (reopen options) := by
  refine simulates_bind simulates_close fun _ => ?_
  refine simulates_bind (simulates_restart (fun _ _ _ => rfl) (fun _ => rfl)
    ⟨fun _ => ⟨rfl, rfl⟩, fun _ => ⟨rfl, rfl⟩⟩) fun _ => ?_
  exact simulates_open hl

end Engine

section

variable [EngineEnv] (hl : lossy)
include hl

theorem Call.simulates (c : Call) : Simulates (logOf lossy) c.run c.run := by
  cases c with
  | put key value => exact Engine.simulates_putImpl hl key value .put
  | remove key => exact Engine.simulates_putImpl hl key [] .tombstone
  | flush => exact Engine.simulates_flushUnlocked hl
  | compactRange first last => exact Engine.simulates_compactRange hl first last
  | reopen options => exact Engine.simulates_reopen hl options

theorem simulates_runAll (cs : List Call) : Simulates (logOf lossy) (runAll cs) (runAll cs) := by
  induction cs with
  | nil => exact simulates_pure _
  | cons c cs ih => exact simulates_bind (c.simulates hl) fun _ => ih

/-- **A session over the bytes of the manifest** is one over its edits. -/
theorem simulates_session (cs : List Call) : Simulates (logOf lossy) (session cs) (session cs) :=
  simulates_bind (Engine.simulates_open hl) fun _ => simulates_runAll hl cs

end

/-! ## Sessions -/

omit [Zlib] in
/-- Both engines answer alike. -/
theorem get_asLog {w : World (List UInt8) Manifest} {w' : World EditLog LogObject}
    (h : w'.engine = w.engine.asLog ∧ SameFiles w.disk w'.disk) (key : List UInt8) :
    Engine.get w key = Engine.get w' key := by
  have hopen : (Engine.ensureOpen w).1 = (Engine.ensureOpen w').1 := by
    unfold Engine.ensureOpen
    rw [bind_ok (get_apply w), bind_ok (get_apply w'), h.1]
    unfold Engine.asLog
    cases w.engine.closed with
    | true => rfl
    | false =>
      cases w.engine.opened with
      | true => rfl
      | false => rfl
  unfold Engine.get
  rw [hopen, h.1, h.2.tables]
  rfl

/-- A session over the bytes, beside the session over the edits with the faults outside of the manifest. -/
theorem session_log [EngineEnv] {o : DBOptions} {dir : Bool} {f : Site → List Fault} {cs : List Call}
    {w : World (List UInt8) Manifest} (h : session cs ⟨{ options := o }, Disk.empty dir, f⟩ = (.ok (), w)) :
    ∃ w', session cs ⟨{ options := o }, Disk.empty dir, otherFaults f⟩ = (.ok (), w') ∧
      (logOf True).Rel w w' := by
  have hblank : HoldsEdits none (EditLog.editsOf none) := .blank rfl
  have hstart : (logOf True).Rel (⟨{ options := o }, Disk.empty dir, f⟩ : World (List UInt8) Manifest)
      ⟨{ options := o }, Disk.empty dir, otherFaults f⟩ :=
    ⟨⟨rfl, rfl, rfl, rfl⟩, rfl, hblank, fun hn => absurd trivial hn⟩
  exact (simulates_session trivial cs).of_ok hstart h

/-- **Map semantics over the bytes.**  What holds of calls that returned ok over the edits holds over the bytes of the
manifest, where a commit may also be refused. -/
theorem get_bytes [EngineEnv] {o : DBOptions} {dir : Bool} {f : Site → List Fault} {cs : List Call}
    {w : World (List UInt8) Manifest} (h : session cs ⟨{ options := o }, Disk.empty dir, f⟩ = (.ok (), w))
    {key : List UInt8} (hkey : key.length < 2 ^ 32) : Engine.get w key = .ok (valueOf (mutations cs) key) := by
  obtain ⟨w', hlog, hrel⟩ := session_log h
  rw [get_asLog hrel.1]
  exact (session_up hlog).get _ hkey

end

end Kvdb
