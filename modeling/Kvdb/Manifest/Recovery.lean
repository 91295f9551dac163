import Kvdb.Manifest.Replay

/-!
# Recovery of a manifest

Runs of commits and id allocations on a manifest made by `open_or_create`
(`runLog`), what `load` makes of their files cut anywhere
(`load_truncated_manifest`), and which edits can be committed at all: an edit
whose fields would cross a block edge is refused (`commit_loads_iff_fits`).
-/

namespace Kvdb

open Faulty Bytes

variable [Zlib]

/-! ## Runs -/

/-- A commit, or an id taken from the table counter. -/
inductive LogStep where
  | commit (io : ManifestFaults) (edit : VersionEdit)
  | allocateTableId

/-- A step; a commit has to return ok. -/
def LogStep.run : LogStep → ManifestState → Option ManifestState
  | .commit io edit, s =>
    match Manifest.commit io edit s with
    | (.ok _, s') => some s'
    | _ => none
  | .allocateTableId, s => some (Manifest.allocateTableId s).2

def runLog (steps : List LogStep) (s : ManifestState) : Option ManifestState :=
  steps.foldlM (fun s step => step.run s) s

/-- The edits a run commits. -/
def editsOf (steps : List LogStep) : List VersionEdit :=
  steps.filterMap fun
    | .commit _ edit => some edit
    | .allocateTableId => none

/-- The run is empty or ends with a commit. -/
def EndsInCommit (steps : List LogStep) : Prop := ∀ step ∈ steps.getLast?, ∃ io edit, step = .commit io edit

def fileLength (s : ManifestState) : Nat := (s.file.getD []).length

omit [Zlib] in
theorem editsOf_append (ps qs : List LogStep) : editsOf (ps ++ qs) = editsOf ps ++ editsOf qs :=
  List.filterMap_append

theorem runLog_append {ps qs : List LogStep} {s t : ManifestState} (h : runLog (ps ++ qs) s = some t) :
    ∃ m, runLog ps s = some m ∧ runLog qs m = some t := by
  unfold runLog at *
  rw [List.foldlM_append] at h
  exact Option.bind_eq_some_iff.mp h

theorem commit_step {io : ManifestFaults} {edit : VersionEdit} {s s' : ManifestState}
    (h : (LogStep.commit io edit).run s = some s') : Manifest.commit io edit s = (.ok (), s') := by
  rw [LogStep.run] at h
  split at h
  · next hc =>
    cases h
    exact hc
  · cases h

omit [Zlib] in
/-- The steps up to the commit of the last edit of `es`. -/
theorem split_steps {steps : List LogStep} {es fs : List VersionEdit} (h : editsOf steps = es ++ fs) :
    ∃ ps qs, steps = ps ++ qs ∧ editsOf ps = es ∧ editsOf qs = fs ∧ EndsInCommit ps := by
  induction steps generalizing es with
  | nil =>
    obtain ⟨rfl, rfl⟩ := List.append_eq_nil_iff.mp h.symm
    exact ⟨[], [], rfl, rfl, rfl, by simp [EndsInCommit]⟩
  | cons step steps ih =>
    cases es with
    | nil => exact ⟨[], step :: steps, rfl, rfl, h, by simp [EndsInCommit]⟩
    | cons e es =>
      cases step with
      | allocateTableId =>
        obtain ⟨ps, qs, rfl, hp, hq, hlast⟩ := ih h
        refine ⟨.allocateTableId :: ps, qs, rfl, hp, hq, ?_⟩
        intro step hstep
        cases ps with
        | nil => cases hp
        | cons p ps =>
          rw [List.getLast?_cons_cons] at hstep
          exact hlast step hstep
      | commit io edit =>
        obtain ⟨rfl, hrest⟩ := List.cons.inj h
        obtain ⟨ps, qs, rfl, hp, hq, hlast⟩ := ih hrest
        refine ⟨.commit io edit :: ps, qs, rfl, ?_, hq, ?_⟩
        · rw [← hp]
          rfl
        · intro step hstep
          cases ps with
          | nil =>
            cases hstep
            exact ⟨io, edit, rfl⟩
          | cons p ps =>
            rw [List.getLast?_cons_cons] at hstep
            exact hlast step hstep

/-! ## The invariant -/

/-- The file is the header and the records of `edits`, and their replay is the live state but
for ids that were allocated and not recorded. -/
structure Recorded (n : Nat) (s : ManifestState) (edits : List VersionEdit) : Prop where
  file : s.file = some (manifestHeaderBytes ++ editsBytes edits)
  fit : EditsFit ManifestHeader.diskSize edits
  replayed : ∃ next, replay n edits = .ok (s.levels, { s.manifest.counters with nextTableId := next }) ∧
    next.toNat ≤ s.manifest.counters.nextTableId.toNat
  offset : s.manifest.appendOffset = ManifestHeader.diskSize + (editsBytes edits).length
  writable : s.manifest.writable = true
  unpoisoned : s.manifest.writePoisoned = false

section Recorded

variable {n : Nat} {s s' : ManifestState} {edits : List VersionEdit}

theorem Recorded.fileLength_eq (h : Recorded n s edits) :
    fileLength s = ManifestHeader.diskSize + (editsBytes edits).length := by
  rw [fileLength, h.file, Option.getD_some, List.length_append, length_manifestHeaderBytes]

theorem recorded_openOrCreate {io : ManifestFaults} {path : String} {file : Option (List UInt8)}
    (h : Manifest.openOrCreate io ⟨{ path }, file, LevelManager.init n⟩ = (.ok (), s)) : Recorded n s [] := by
  rw [Manifest.openOrCreate, bind_ok (get_apply _)] at h
  obtain ⟨_, s₁, h1, h⟩ := bind_eq_ok h
  rw [ensure_apply] at h1
  split at h1
  case isFalse => cases h1
  cases h1
  obtain ⟨_, s₂, h2, h⟩ := bind_eq_ok h
  have hacc : s₂ = ⟨{ path }, file, LevelManager.init n⟩ := by
    cases ha : io.access with
    | none =>
      rw [ha] at h2
      cases h2
      rfl
    | some e =>
      rw [ha] at h2
      cases h2
  subst hacc
  obtain ⟨_, s₃, h3, h⟩ := bind_eq_ok h
  rw [ensure_apply] at h3
  split at h3
  case isFalse => cases h3
  next hempty =>
  cases h3
  have hnil : file.getD [] = [] := List.eq_nil_of_length_eq_zero (beq_iff_eq.mp hempty)
  rw [bind_ok (modify_apply _ _)] at h
  obtain ⟨_, s₄, h4, h5⟩ := bind_eq_ok h
  have hsync : s = s₄ := by
    cases hs : io.sync with
    | none =>
      rw [hs, syncOrPoison_none] at h5
      cases h5
      rfl
    | some e =>
      rw [hs, syncOrPoison_some] at h5
      cases h5
  subst hsync
  -- the header went through as a whole
  simp only [orElse, runWriter, Option.getD_some, hnil] at h4
  generalize hw : (⟨[], 0, io.write.map fun n => ⟨n, false⟩, io.writeError⟩ : Writer Status) = w at h4
  have hsy : w.Synced := by rw [← hw]; rfl
  have hb : w.bytes = [] := by rw [← hw]
  cases hr : ManifestHeader.create.write w with
  | mk r w' =>
    rw [hr] at h4
    cases r with
    | ok u =>
      cases h4
      obtain ⟨hbytes, hsync⟩ := header_write_ok hsy hb hr
      refine ⟨?_, trivial, ⟨1, rfl, Nat.le_refl _⟩, ?_, rfl, rfl⟩
      · show some w'.bytes = _
        rw [hbytes, editsBytes, List.flatMap_nil, List.append_nil]
        rfl
      · show w'.offset = _
        rw [hsync, hbytes, length_header]
        rfl
    | err e => cases h4
    | crash => cases h4

theorem recorded_commit {io : ManifestFaults} {edit : VersionEdit} (h : Recorded n s edits)
    (hc : Manifest.commit io edit s = (.ok (), s')) : Recorded n s' (edits ++ [edit]) := by
  rcases Manifest.commit_cases hc with
    ⟨-, ⟨e, he⟩, -⟩ | ⟨hp, hw, ⟨-, ⟨e, he⟩, -⟩ | ⟨staged, header, hst, hpr,
      hok | ⟨⟨e, he⟩, -⟩ | he⟩⟩
  · cases he
  · cases he
  · obtain ⟨-, w, hwr, hsync, rfl⟩ := hok
    obtain ⟨hv, hfit, hsy, hbytes⟩ := VersionEdit.write_ok hsync hwr
    obtain ⟨next, hrep, hnext⟩ := h.replayed
    have hstaged := stageApply_ok_iff.mp hst
    obtain ⟨hinv, -, -⟩ := replayFrom_inv (manifestInv_init n) hrep
    obtain ⟨next', hst', hnext'⟩ := stageApply_replay
      (r := { s.manifest.counters with nextTableId := next }) hstaged rfl rfl hnext
      (fun level t ht => ((hinv.levels level).mem ht).2.2.1) hinv.nextTableId
    have hwb : (Manifest.editWriter io s).bytes = manifestHeaderBytes ++ editsBytes edits := by
      show s.file.getD [] = _
      rw [h.file, Option.getD_some]
    have hwo : (Manifest.editWriter io s).offset = ManifestHeader.diskSize + (editsBytes edits).length := h.offset
    have hone : editsBytes [edit] = edit.record.flatten := by
      simp [editsBytes]
    have hnew : w.bytes = manifestHeaderBytes ++ editsBytes (edits ++ [edit]) := by
      rw [hbytes, hwb, editsBytes_append, hone, List.append_assoc]
    refine ⟨congrArg some hnew, ?_, ⟨next', ?_, hnext'⟩, ?_, hw, hp⟩
    · rw [editsFit_append]
      refine ⟨h.fit, hv, ?_, trivial⟩
      rw [← hwo]
      exact hfit
    · rw [replay, replayFrom_append hrep, replayFrom, List.foldlM_cons, stageApply_ok_iff.mpr hst', ok_bind]
      rfl
    · show w.offset = _
      rw [hsy, hnew, List.length_append, length_manifestHeaderBytes]
  · cases he
  · cases he

theorem recorded_allocate (h : Recorded n s edits) : Recorded n (Manifest.allocateTableId s).2 edits := by
  obtain ⟨next, hrep, hnext⟩ := h.replayed
  rw [Manifest.allocateTableId, bind_ok (get_apply s)]
  by_cases hid : (s.manifest.counters.nextTableId.toNat != 2 ^ 64 - 1) = true
  · rw [bind_ok (by rw [ensure_apply, if_pos hid])]
    refine ⟨h.file, h.fit, ⟨next, hrep, ?_⟩, h.offset, h.writable, h.unpoisoned⟩
    show next.toNat ≤ (s.manifest.counters.nextTableId + 1).toNat
    have hlt := s.manifest.counters.nextTableId.toNat_lt
    have hne : s.manifest.counters.nextTableId.toNat ≠ 2 ^ 64 - 1 := by simpa using hid
    rw [UInt64.toNat_add, UInt64.toNat_one]
    omega
  · rw [bind_err (by rw [ensure_apply, if_neg hid])]
    exact h

theorem recorded_run {steps : List LogStep} (h : Recorded n s edits) (hrun : runLog steps s = some s') :
    Recorded n s' (edits ++ editsOf steps) := by
  induction steps generalizing s edits with
  | nil =>
    cases hrun
    rw [show editsOf [] = [] from rfl, List.append_nil]
    exact h
  | cons step steps ih =>
    rw [runLog, List.foldlM_cons] at hrun
    obtain ⟨m, hm, hrest⟩ := Option.bind_eq_some_iff.mp hrun
    cases step with
    | commit io edit =>
      have hrec := ih (recorded_commit h (commit_step hm)) hrest
      rw [List.append_assoc] at hrec
      exact hrec
    | allocateTableId =>
      cases hm
      exact ih (recorded_allocate h) hrest

/-! ## Loading -/

/-- The object that `load` makes of a file of `size` bytes whose edits end at `offset`. -/
def recoveredManifest (path : String) (counters : StagedCounters) (offset size : Nat) : Manifest :=
  { path, counters, appendOffset := offset, recoverableTail := decide (offset ≠ size) }

/-- Loading a recorded file cut at `cut`. -/
theorem load_recorded (path : String) {cut : Nat} {lm : LevelManager} (h : Recorded n s edits)
    (hcut : ManifestHeader.diskSize ≤ cut) (hle : cut ≤ fileLength s) (hlm : lm.levelCount = n) :
    ∃ whole rest v, edits = whole ++ rest ∧ replay n whole = .ok v ∧
      ManifestHeader.diskSize + (editsBytes whole).length ≤ cut ∧
      (∀ e es, rest = e :: es →
        cut < ManifestHeader.diskSize + (editsBytes whole).length + e.record.flatten.length) ∧
      Manifest.load path (.ok (ReadableFile.ofBytes ((s.file.getD []).take cut) path)) lm =
        (.ok (recoveredManifest path v.2 (ManifestHeader.diskSize + (editsBytes whole).length) cut), v.1) := by
  obtain ⟨next, hrep, -⟩ := h.replayed
  rw [fileLength, h.file, Option.getD_some] at hle
  rw [h.file, Option.getD_some]
  generalize hfile : ReadableFile.ofBytes ((manifestHeaderBytes ++ editsBytes edits).take cut) path = file
  have hsound : file.Sound := by rw [← hfile]; exact ReadableFile.ofBytes_sound _ _
  have hbytes : file.bytes = (manifestHeaderBytes ++ editsBytes edits).take cut := by rw [← hfile]; rfl
  have hlen : file.bytes.length = cut := by
    rw [hbytes, List.length_take]
    omega
  have hhead : At file.bytes 0 manifestHeaderBytes := by
    rw [hbytes]
    have hat := at_append [] manifestHeaderBytes (editsBytes edits)
    rw [List.nil_append] at hat
    refine At.take hat ?_
    rw [length_manifestHeaderBytes]
    exact (Nat.zero_add _).trans_le hcut
  have hdrop : file.bytes.drop ManifestHeader.diskSize <+: editsBytes edits := by
    rw [hbytes, List.drop_take, ← length_manifestHeaderBytes, List.drop_left]
    exact List.take_prefix _ _
  obtain ⟨whole, rest, v, hsplit, hv, hwle, hnext, hloop⟩ :=
    loadLoop_edits hsound (cut + 1) h.fit (by omega) hdrop hrep (by omega)
  rw [hlen] at hwle hnext hloop
  refine ⟨whole, rest, v, hsplit, hv, hwle, hnext, ?_⟩
  have hinv := (replayFrom_inv (manifestInv_init n) hv).1
  rw [Manifest.load, bind_ok (lift_ok file lm), hsound.getFileSize, bind_ok (lift_ok _ lm),
    bind_ok (by rw [ensure_apply, if_pos (by rw [decide_eq_true_eq]; omega)]), header_load hsound hhead,
    bind_ok (lift_ok _ lm), bind_ok (get_apply lm), hlen, hlm, hloop, bind_ok (lift_ok _ lm),
    checkInvariants_ok_iff.mpr hinv, bind_ok (lift_ok _ lm), bind_ok (modify_apply _ lm)]
  rfl

end Recorded

/-! ## Replay equals the live state -/

/-- A loaded manifest has the log counters of the live state, and a table counter above every
table that the edits name and not above the live one. -/
structure Agrees (m : Manifest) (s : ManifestState) (edits : List VersionEdit) : Prop where
  currentWalId : m.counters.currentWalId = s.manifest.counters.currentWalId
  nextSequenceNumber : m.counters.nextSequenceNumber = s.manifest.counters.nextSequenceNumber
  above : ∀ e ∈ edits, ∀ id ∈ e.tableIds, id < m.counters.nextTableId
  le : m.counters.nextTableId ≤ s.manifest.counters.nextTableId

theorem recorded_agrees {n : Nat} {s : ManifestState} {edits : List VersionEdit} {m : Manifest}
    {v : LevelManager × StagedCounters} (h : Recorded n s edits) (hv : replay n edits = .ok v)
    (hm : m.counters = v.2) : v.1 = s.levels ∧ Agrees m s edits := by
  obtain ⟨next, hrep, hnext⟩ := h.replayed
  rw [hrep] at hv
  cases hv
  obtain ⟨-, -, hids⟩ := replayFrom_inv (manifestInv_init n) hrep
  refine ⟨rfl, by rw [hm], by rw [hm], ?_, ?_⟩
  · intro e he id hid
    rw [hm, uint64_lt_iff]
    exact hids e he id hid
  · rw [hm, uint64_le_iff]
    exact hnext

/-- `prepare_for_append` and `attach_writer` on a loaded manifest. -/
def resume : ManifestM Unit := do
  Manifest.prepareForAppend {}
  Manifest.attachWriter {} true

/-- The state that resuming a loaded manifest gives. -/
def resumed (m : Manifest) (b : List UInt8) (lm : LevelManager) : ManifestState :=
  ⟨{ m with writable := true, recoverableTail := false }, some (b.take m.appendOffset), lm⟩

omit [Zlib] in
/-- Preparing drops what is behind the last whole edit. -/
theorem prepareForAppend_apply {m : Manifest} {b : List UInt8} {lm : LevelManager} (hp : m.writePoisoned = false)
    (hle : m.appendOffset ≤ b.length) (htail : m.recoverableTail = decide (m.appendOffset ≠ b.length)) :
    Manifest.prepareForAppend {} ⟨m, some b, lm⟩ = (.ok (),
      ⟨{ m with writable := false, recoverableTail := false }, some (b.take m.appendOffset), lm⟩) := by
  rw [Manifest.prepareForAppend, bind_ok (get_apply _), bind_ok (by rw [ensure_apply, hp]; rfl),
    bind_ok (modifyManifest_apply _ _)]
  by_cases heq : m.appendOffset = b.length
  · have ht : m.recoverableTail = false := by rw [htail]; simpa using heq
    rw [heq, List.take_length, if_neg (by rw [ht]; exact Bool.false_ne_true), ← ht]
    rfl
  · have ht : m.recoverableTail = true := by rw [htail]; simpa using heq
    have hres : Manifest.resize b m.appendOffset = b.take m.appendOffset := by
      rw [Manifest.resize, Nat.sub_eq_zero_of_le hle, List.replicate_zero, List.append_nil]
    rw [if_pos ht, Manifest.truncateTail, bind_ok (failOn_none _), modify_apply]
    simp only [Option.map_some, hres]

omit [Zlib] in
theorem resume_apply {m : Manifest} {b : List UInt8} {lm : LevelManager} (hp : m.writePoisoned = false)
    (hle : m.appendOffset ≤ b.length) (htail : m.recoverableTail = decide (m.appendOffset ≠ b.length)) :
    resume ⟨m, some b, lm⟩ = (.ok (), resumed m b lm) := by
  have hlen : ((b.take m.appendOffset).length == m.appendOffset) = true := by
    rw [beq_iff_eq, List.length_take]
    omega
  rw [resume, bind_ok (prepareForAppend_apply hp hle htail), Manifest.attachWriter, bind_ok (get_apply _),
    bind_ok (by rw [ensure_apply, hp]; rfl), bind_ok (by rw [ensure_apply]; rfl),
    bind_ok (by rw [ensure_apply]; rfl), bind_ok (failOn_none _),
    bind_ok (by rw [ensure_apply]; exact if_pos hlen), modify_apply, resumed, hp]
  rfl

/-- Resuming from a cut file keeps the edits that are whole. -/
theorem recorded_resumed {n cut : Nat} (path : String) {s s₁ : ManifestState} {whole rest : List VersionEdit}
    {v : LevelManager × StagedCounters} (h : Recorded n s (whole ++ rest)) (hv : replay n whole = .ok v)
    (hcut : ManifestHeader.diskSize + (editsBytes whole).length ≤ cut) (hlev : v.1 = s₁.levels) :
    Recorded n (resumed (recoveredManifest path v.2 (ManifestHeader.diskSize + (editsBytes whole).length) cut)
      ((s.file.getD []).take cut) s₁.levels) whole := by
  have hfront : (manifestHeaderBytes ++ editsBytes (whole ++ rest)).take
      (ManifestHeader.diskSize + (editsBytes whole).length) = manifestHeaderBytes ++ editsBytes whole := by
    rw [editsBytes_append, ← List.append_assoc, ← length_manifestHeaderBytes, ← List.length_append,
      List.take_left]
  exact
    { file := by
        show some (((s.file.getD []).take cut).take (ManifestHeader.diskSize + (editsBytes whole).length)) = _
        rw [h.file, Option.getD_some, List.take_take, Nat.min_eq_left hcut, hfront]
      fit := (editsFit_append.mp h.fit).1
      replayed := ⟨v.2.nextTableId, by rw [hv, ← hlev]; rfl, Nat.le_refl _⟩
      offset := rfl
      writable := rfl
      unpoisoned := rfl }

/-- Loading a whole recorded file. -/
theorem load_whole {n : Nat} (path : String) {s : ManifestState} {edits : List VersionEdit} {lm : LevelManager}
    (h : Recorded n s edits) (hlm : lm.levelCount = n) :
    ∃ m c, Manifest.load path (.ok (ReadableFile.ofBytes (s.file.getD []) path)) lm = (.ok m, s.levels) ∧
      replay n edits = .ok (s.levels, c) ∧ m.counters = c ∧ Agrees m s edits ∧ m.recoverableTail = false := by
  have hlen := h.fileLength_eq
  obtain ⟨whole, rest, v, hsplit, hv, -, hnext, hload⟩ :=
    load_recorded path h (by omega) (Nat.le_refl _) hlm
  -- no edit is left out
  obtain rfl : rest = [] := by
    cases hr : rest with
    | nil => rfl
    | cons e es =>
      have hlt := hnext e es hr
      rw [hlen, hsplit, hr, editsBytes_append, editsBytes_cons, List.length_append, List.length_append] at hlt
      omega
  rw [List.append_nil] at hsplit
  subst hsplit
  rw [show fileLength s = (s.file.getD []).length from rfl, List.take_length] at hload
  obtain ⟨hlev, hagree⟩ := recorded_agrees (m := recoveredManifest path v.2 _ _) h hv rfl
  rw [hlev] at hload
  refine ⟨_, v.2, hload, by rw [hv, ← hlev], rfl, hagree, ?_⟩
  show decide (_ ≠ _) = false
  rw [show (s.file.getD []).length = fileLength s from rfl, hlen]
  simp

/-- **Replay equals the live state.**  Take a run of commits on a new manifest, with ids allocated
in between, and cut its file anywhere behind the header.  Loading gives the state right after the
last commit whose edit is whole, with a recoverable tail exactly when more than that is left; and
what is committed after resuming from there is found by the next load. -/
theorem load_truncated_manifest {n : Nat} {path : String} {file : Option (List UInt8)} {io : ManifestFaults}
    {s₀ s : ManifestState} {steps : List LogStep} {cut : Nat} {lm : LevelManager}
    (hopen : Manifest.openOrCreate io ⟨{ path }, file, LevelManager.init n⟩ = (.ok (), s₀))
    (hrun : runLog steps s₀ = some s) (hcut : ManifestHeader.diskSize ≤ cut) (hle : cut ≤ fileLength s)
    (hlm : lm.levelCount = n) :
    ∃ before after s₁ m,
      (steps = before ++ after ∧ EndsInCommit before ∧ runLog before s₀ = some s₁ ∧
        fileLength s₁ ≤ cut ∧
        ∀ mid io e rest s₂, after = mid ++ .commit io e :: rest →
          runLog (before ++ (mid ++ [.commit io e])) s₀ = some s₂ → cut < fileLength s₂) ∧
      Manifest.load path (.ok (ReadableFile.ofBytes ((s.file.getD []).take cut) path)) lm =
        (.ok m, s₁.levels) ∧
      Agrees m s₁ (editsOf before) ∧
      (m.recoverableTail = true ↔ cut ≠ fileLength s₁) ∧
      ∃ s₁', resume ⟨m, some ((s.file.getD []).take cut), s₁.levels⟩ = (.ok (), s₁') ∧
        s₁'.levels = s₁.levels ∧ s₁'.manifest.counters = m.counters ∧
        ∀ more s₂ lm', runLog more s₁' = some s₂ → lm'.levelCount = n →
          ∃ m', Manifest.load path (.ok (ReadableFile.ofBytes (s₂.file.getD []) path)) lm' =
              (.ok m', s₂.levels) ∧
            replayFrom (s₁.levels, m.counters) (editsOf more) = .ok (s₂.levels, m'.counters) ∧
            Agrees m' s₂ (editsOf before ++ editsOf more) ∧ m'.recoverableTail = false := by
  have hrec := recorded_run (recorded_openOrCreate hopen) hrun
  rw [List.nil_append] at hrec
  obtain ⟨whole, rest, v, hsplit, hv, hwle, hnext, hload⟩ := load_recorded path hrec hcut hle hlm
  obtain ⟨before, after, rfl, rfl, rfl, hends⟩ := split_steps hsplit
  obtain ⟨s₁, hrun₁, -⟩ := runLog_append hrun
  have hrec₁ := recorded_run (recorded_openOrCreate hopen) hrun₁
  rw [List.nil_append] at hrec₁
  have hlen₁ := hrec₁.fileLength_eq
  obtain ⟨hlev, hagree⟩ := recorded_agrees (m := recoveredManifest path v.2
    (ManifestHeader.diskSize + (editsBytes (editsOf before)).length) cut) hrec₁ hv rfl
  have hbytes : ((s.file.getD []).take cut).length = cut := by
    rw [List.length_take]
    have : cut ≤ (s.file.getD []).length := hle
    omega
  refine ⟨before, after, s₁, _, ⟨rfl, hends,
    hrun₁, by omega, ?_⟩, by rw [← hlev]; exact hload, hagree, ?_, ?_⟩
  · -- a later commit ends behind the first edit that is not whole
    intro mid io' e rest' s₂ hafter hrun₂
    have hrec₂ := recorded_run (recorded_openOrCreate hopen) hrun₂
    have hlen₂ := hrec₂.fileLength_eq
    rw [List.nil_append, editsOf_append, editsBytes_append, List.length_append] at hlen₂
    have hmid : editsOf (mid ++ [LogStep.commit io' e]) = editsOf mid ++ [e] := editsOf_append _ _
    have hedits : editsOf after = editsOf (mid ++ [LogStep.commit io' e]) ++ editsOf rest' := by
      rw [← editsOf_append, hafter, List.append_assoc]
      rfl
    rw [hmid] at hedits hlen₂
    obtain ⟨e₀, es₀, hcons⟩ : ∃ e₀ es₀, editsOf mid ++ [e] = e₀ :: es₀ :=
      List.exists_cons_of_ne_nil (by simp)
    have hcut₀ := hnext e₀ (es₀ ++ editsOf rest') (by rw [hedits, hcons]; rfl)
    rw [hcons, editsBytes_cons, List.length_append] at hlen₂
    omega
  · rw [hlen₁]
    show decide (_ ≠ _) = true ↔ _
    rw [decide_eq_true_eq]
    exact ⟨fun h h' => h h'.symm, fun h h' => h h'.symm⟩
  · rw [editsOf_append] at hrec
    have hresumed := recorded_resumed path hrec hv hwle hlev
    refine ⟨_, resume_apply rfl (by rw [hbytes]; exact hwle) (by rw [hbytes]; rfl), rfl, rfl, ?_⟩
    intro more s₂ lm' hmore hlm'
    obtain ⟨m', c, hload', hrep', rfl, hagree', htail'⟩ := load_whole path (recorded_run hresumed hmore) hlm'
    refine ⟨m', hload', ?_, hagree', htail'⟩
    rw [replay, replayFrom_append hv] at hrep'
    rw [← hlev]
    exact hrep'

/-- A first edit, an allocated id and a second edit. -/
def twoEdits : List LogStep :=
  [.commit {} { nextSequenceNumber := some 5 }, .allocateTableId, .commit {} { currentWalId := some 2 }]

/-- A new manifest at "MANIFEST" with one level. -/
def newManifest : ManifestState :=
  (Manifest.openOrCreate {} ⟨{ path := "MANIFEST" }, none, LevelManager.init 1⟩).2

omit [Zlib] in
theorem newManifest_ok : @Manifest.openOrCreate documentedZlib
    {} ⟨{ path := "MANIFEST" }, none, LevelManager.init 1⟩ =
    (.ok (), @newManifest documentedZlib) := by
  refine run_eq ?_
  decide +kernel

omit [Zlib] in
/-- The file is cut five bytes behind the first edit. -/
theorem load_truncated_twoEdits : letI := documentedZlib
    ∃ s m lm, runLog twoEdits newManifest = some s ∧
      Manifest.load "MANIFEST" (.ok (ReadableFile.ofBytes ((s.file.getD []).take 57) "MANIFEST"))
        (LevelManager.init 1) = (.ok m, lm) := by
  have hlength : (@runLog documentedZlib twoEdits (@newManifest documentedZlib)).map fileLength = some 80 := by
    decide +kernel
  obtain ⟨s, hrun, hlen⟩ := Option.map_eq_some_iff.mp hlength
  obtain ⟨_, _, s₁, m, -, hload, -⟩ := @load_truncated_manifest documentedZlib 1 "MANIFEST" none
      {} _ s twoEdits 57
    (LevelManager.init 1) newManifest_ok hrun (by decide) (by omega) (by decide)
  exact ⟨s, m, s₁.levels, hrun, hload⟩

/-! ## Edits at a block edge -/

section BlockEdge

variable {n : Nat} {s s' : ManifestState} {edits : List VersionEdit} {edit : VersionEdit}

/-- A committed edit has no field across a block edge. -/
theorem fits_of_commit {io : ManifestFaults} (h : Recorded n s edits)
    (hc : Manifest.commit io edit s = (.ok (), s')) : FitsAt MANIFEST_BLOCK_SIZE (fileLength s) edit.record := by
  have hfit := (recorded_commit h hc).fit
  rw [editsFit_append] at hfit
  rw [h.fileLength_eq]
  exact hfit.2.2.1

theorem commit_of_fits {header : EditHeader} {staged : LevelManager × StagedCounters} (h : Recorded n s edits)
    (hst : stageApply s.levels s.manifest.counters edit = .ok staged) (hpr : edit.prepare = .ok header)
    (hle : ∀ d ∈ edit.fields, d.length ≤ MANIFEST_BLOCK_SIZE)
    (hfit : FitsAt MANIFEST_BLOCK_SIZE (fileLength s) edit.record) :
    ∃ s', Manifest.commit {} edit s = (.ok (), s') ∧ s'.levels = staged.1 ∧ s'.manifest.counters = staged.2 := by
  have hlen : (s.file.getD []).length = s.manifest.appendOffset := by
    rw [h.offset]
    exact h.fileLength_eq
  have hsync : (Manifest.editWriter {} s).Synced := hlen.symm
  have hwrite := VersionEdit.write_of_fits hsync rfl hpr hle (by
    show FitsAt _ s.manifest.appendOffset _
    rw [← hlen]
    exact hfit)
  have hpos : checkPosition {} s = (.ok (), s) := by
    rw [checkPosition, bind_ok (get_apply s)]
    exact congrFun (if_neg (fun hne => hne hlen)) s
  have hrun : runWriter {} edit.write s =
      (.ok (), Manifest.appended s ((Manifest.editWriter {} s).put edit.record.flatten none)) := by
    show ((edit.write (Manifest.editWriter {} s)).1, Manifest.appended s (edit.write (Manifest.editWriter {} s)).2) = _
    rw [hwrite]
  have happ : Manifest.appendPrepared {} edit s =
      (.ok (), Manifest.appended s ((Manifest.editWriter {} s).put edit.record.flatten none)) := by
    rw [Manifest.appendPrepared, bind_ok (get_apply s), bind_ok (by rw [ensure_apply, h.unpoisoned]; rfl),
      bind_ok (by rw [ensure_apply, h.writable]; rfl), bind_ok hpos, orElse, hrun]
  rw [Manifest.commit, bind_ok (get_apply s), bind_ok (by rw [ensure_apply, h.unpoisoned]; rfl),
    bind_ok (by rw [ensure_apply, h.writable]; rfl), hst, bind_ok (lift_ok _ s), hpr, bind_ok (lift_ok _ s),
    bind_ok happ, bind_ok (syncOrPoison_none _)]
  exact ⟨_, rfl, rfl, rfl⟩

/-- Whatever the fault, an edit that fits leaves a prefix of its record. -/
theorem appendPrepared_file {io : ManifestFaults} {header : EditHeader} (h : Recorded n s edits)
    (hpr : edit.prepare = .ok header) (hle : ∀ d ∈ edit.fields, d.length ≤ MANIFEST_BLOCK_SIZE)
    (hfit : FitsAt MANIFEST_BLOCK_SIZE (fileLength s) edit.record) :
    ∃ p, p <+: edit.record.flatten ∧
      (Manifest.appendPrepared io edit s).2.file = some (s.file.getD [] ++ p) := by
  have hlen : (s.file.getD []).length = s.manifest.appendOffset := by
    rw [h.offset]
    exact h.fileLength_eq
  have hnone : s.file = some (s.file.getD [] ++ []) := by
    rw [List.append_nil, h.file]
    rfl
  rw [Manifest.appendPrepared, bind_ok (get_apply s), bind_ok (by rw [ensure_apply, h.unpoisoned]; rfl),
    bind_ok (by rw [ensure_apply, h.writable]; rfl)]
  rcases Manifest.checkPosition_cases io s with ⟨hpos, -⟩ | ⟨e, hpos⟩
  · rw [bind_ok hpos]
    have hsync : (Manifest.editWriter io s).Synced := hlen.symm
    obtain ⟨p, hp, hb⟩ := VersionEdit.write_prefix hsync hpr hle (by
      show FitsAt _ s.manifest.appendOffset _
      rw [← hlen]
      exact hfit)
    have hrun : runWriter io edit.write s =
        ((edit.write (Manifest.editWriter io s)).1, Manifest.appended s
          (edit.write (Manifest.editWriter io s)).2) := rfl
    refine ⟨p, hp, ?_⟩
    rw [orElse, hrun]
    clear hrun
    generalize edit.write (Manifest.editWriter io s) = res at hb ⊢
    obtain ⟨r, w⟩ := res
    cases r with
    | ok u => exact congrArg some hb
    | err e => exact congrArg some hb
    | crash => exact congrArg some hb
  · rw [bind_err hpos]
    exact ⟨[], List.nil_prefix, hnone⟩

theorem commit_file {io : ManifestFaults} {header : EditHeader} {staged : LevelManager × StagedCounters}
    (h : Recorded n s edits) (hst : stageApply s.levels s.manifest.counters edit = .ok staged)
    (hpr : edit.prepare = .ok header) (hle : ∀ d ∈ edit.fields, d.length ≤ MANIFEST_BLOCK_SIZE)
    (hfit : FitsAt MANIFEST_BLOCK_SIZE (fileLength s) edit.record) :
    ∃ p, p <+: edit.record.flatten ∧ (Manifest.commit io edit s).2.file = some (s.file.getD [] ++ p) := by
  obtain ⟨p, hp, hfile⟩ := @appendPrepared_file _ n s edits edit io header h hpr hle hfit
  refine ⟨p, hp, ?_⟩
  rw [Manifest.commit, bind_ok (get_apply s), bind_ok (by rw [ensure_apply, h.unpoisoned]; rfl),
    bind_ok (by rw [ensure_apply, h.writable]; rfl), hst, bind_ok (lift_ok _ s), hpr, bind_ok (lift_ok _ s), bind_apply]
  generalize Manifest.appendPrepared io edit s = res at hfile ⊢
  obtain ⟨r, s₁⟩ := res
  cases r with
  | err e => exact hfile
  | crash => exact hfile
  | ok u =>
    dsimp only
    cases io.sync with
    | none =>
      rw [bind_ok (syncOrPoison_none _)]
      exact hfile
    | some e =>
      rw [bind_err (syncOrPoison_some e _)]
      exact hfile

end BlockEdge

/-- The paths and keys of the edit's tables fit in a block. -/
def SmallTables (e : VersionEdit) : Prop :=
  ∀ t ∈ e.newTables, t.path.length ≤ MANIFEST_BLOCK_SIZE ∧ t.smallestKey.size ≤ MANIFEST_BLOCK_SIZE ∧
    t.largestKey.size ≤ MANIFEST_BLOCK_SIZE

omit [Zlib] in
theorem fields_le {e : VersionEdit} (h : SmallTables e) : ∀ d ∈ e.fields, d.length ≤ MANIFEST_BLOCK_SIZE := by
  have h4 : 4 ≤ MANIFEST_BLOCK_SIZE := by decide
  have h8 : 8 ≤ MANIFEST_BLOCK_SIZE := by decide
  have hopt : ∀ o : Option UInt64, ∀ d ∈ VersionEdit.optFields o, d.length ≤ MANIFEST_BLOCK_SIZE := by
    intro o d hd
    cases o with
    | none => cases hd
    | some x =>
      rw [List.mem_singleton.mp hd, length_u64Bytes]
      exact h8
  intro d hd
  simp only [VersionEdit.fields, VersionEdit.counterFields, VersionEdit.countFields, List.mem_cons,
    List.mem_append, List.mem_flatMap, List.not_mem_nil, or_false] at hd
  rcases hd with rfl | (hd | hd | hd) | (rfl | rfl) | ⟨t, -, hd⟩ | ⟨t, ht, hd⟩
  · rw [length_u32Bytes]
    exact h4
  · exact hopt _ d hd
  · exact hopt _ d hd
  · exact hopt _ d hd
  · rw [length_u32Bytes]
    exact h4
  · rw [length_u32Bytes]
    exact h4
  · simp only [DeletedTable.fields, List.mem_cons, List.not_mem_nil, or_false] at hd
    rcases hd with rfl | rfl
    · rw [length_u32Bytes]
      exact h4
    · rw [length_u64Bytes]
      exact h8
  · obtain ⟨hp, hs, hl⟩ := h t ht
    simp only [TableMeta.fields, List.mem_cons, List.not_mem_nil, or_false] at hd
    rcases hd with rfl | rfl | rfl | rfl | rfl | rfl | rfl | rfl | rfl | rfl | rfl | rfl | rfl | rfl | rfl <;>
      assumption

/-- **Commit at every offset.**  An edit that staging and preparation accept is committed, and found
by the next load behind the earlier ones, exactly when none of its fields, put directly behind
each other from the end of the file on, crosses a block edge. -/
theorem commit_loads_iff_fits {n : Nat} {path : String} {file : Option (List UInt8)} {io : ManifestFaults}
    {s₀ s : ManifestState} {steps : List LogStep} {edit : VersionEdit} {staged : LevelManager × StagedCounters}
    {header : EditHeader} {lm : LevelManager}
    (hopen : Manifest.openOrCreate io ⟨{ path }, file, LevelManager.init n⟩ = (.ok (), s₀))
    (hrun : runLog steps s₀ = some s) (hst : stageApply s.levels s.manifest.counters edit = .ok staged)
    (hpr : edit.prepare = .ok header) (hsmall : SmallTables edit) (hlm : lm.levelCount = n) :
    (∃ s' m, Manifest.commit {} edit s = (.ok (), s') ∧
        Manifest.load path (.ok (ReadableFile.ofBytes (s'.file.getD []) path)) lm = (.ok m, staged.1) ∧
        replay n (editsOf steps ++ [edit]) = .ok (staged.1, m.counters) ∧
        m.counters.currentWalId = staged.2.currentWalId ∧
        m.counters.nextSequenceNumber = staged.2.nextSequenceNumber) ↔
      FitsAt MANIFEST_BLOCK_SIZE (fileLength s) edit.record := by
  have hrec := recorded_run (recorded_openOrCreate hopen) hrun
  rw [List.nil_append] at hrec
  constructor
  · rintro ⟨s', m, hc, -⟩
    exact fits_of_commit hrec hc
  · intro hfit
    obtain ⟨s', hc, hlev, hcount⟩ := commit_of_fits hrec hst hpr (fields_le hsmall) hfit
    obtain ⟨m, c, hload, hrep, rfl, hagree, -⟩ := load_whole path (recorded_commit hrec hc) hlm
    rw [hlev] at hload hrep
    refine ⟨s', m, hc, hload, hrep, ?_, ?_⟩
    · rw [hagree.currentWalId, hcount]
    · rw [hagree.nextSequenceNumber, hcount]

/-- An empty table whose path has `n` bytes. -/
def longPathTable (n : Nat) : TableMeta :=
  { tableId := 1, level := 0, path := List.replicate n 97, minSeq := 0, maxSeq := 0, fileSize := 0, recordCount := 0
    tombstoneCount := 0, dataBlockCount := 0, dataBytes := 0, smallestKey := .empty, largestKey := .empty }

def longPathEdit (n : Nat) : VersionEdit := { newTables := [longPathTable n] }

/-- In an edit written at the end of the header the path starts at offset 124. -/
theorem longPathEdit_fits_iff (n : Nat) :
    FitsAt MANIFEST_BLOCK_SIZE ManifestHeader.diskSize (longPathEdit n).record ↔ n ≤ 3972 := by
  have hsplit : (longPathEdit n).record =
      ((longPathEdit n).header.fields ++ [u32Bytes (longPathEdit n).payloadFlags, u32Bytes 0, u32Bytes 1] ++
        (longPathTable n).fields.take 12) ++ [List.replicate n 97, [], []] := rfl
  rw [hsplit, fitsAt_append]
  have hlen : ((longPathEdit n).header.fields ++
      [u32Bytes (longPathEdit n).payloadFlags, u32Bytes 0, u32Bytes 1] ++
        (longPathTable n).fields.take 12).flatten.length = 100 := by
    simp [EditHeader.fields, TableMeta.fields]
  rw [hlen]
  constructor
  · rintro ⟨-, h, -⟩
    rcases h with h0 | hle
    · rw [List.replicate_eq_nil_iff] at h0
      omega
    · rw [List.length_replicate] at hle
      exact hle
  · intro hn
    refine ⟨?_, .inr ?_, .inl rfl, .inl rfl, trivial⟩
    · simp [FitsAt, EditHeader.fields, TableMeta.fields, ManifestHeader.diskSize, MANIFEST_BLOCK_SIZE]
    · rw [List.length_replicate]
      exact hn

theorem prepare_of_payloadSize {e : VersionEdit} (h : e.payloadSize.isOk = true) :
    ∃ header, e.prepare = .ok header := by
  cases hs : e.payloadSize with
  | error err =>
    rw [hs] at h
    cases h
  | ok size =>
    refine ⟨⟨crc32Fields e.fields, size⟩, ?_⟩
    rw [VersionEdit.prepare, hs, ok_bind, VersionEdit.computeCrc32_ok (VersionEdit.payloadSize_ok hs).1]
    rfl

omit [Zlib] in
theorem longPathEdit_staged (n : Nat) :
    ∃ staged, stageApply (LevelManager.init 1) {} (longPathEdit n) = .ok staged := ⟨_, rfl⟩

omit [Zlib] in
theorem longPathEdit_small {n : Nat} (h : n ≤ 4096) : SmallTables (longPathEdit n) := by
  intro t ht
  rw [List.mem_singleton.mp ht]
  refine ⟨?_, Nat.zero_le _, Nat.zero_le _⟩
  show (List.replicate n (97 : UInt8)).length ≤ 4096
  rw [List.length_replicate]
  exact h

omit [Zlib] in
theorem newManifest_start : (@newManifest documentedZlib).levels = LevelManager.init 1 ∧
    (@newManifest documentedZlib).manifest.counters = {} ∧
    fileLength (@newManifest documentedZlib) = ManifestHeader.diskSize := by
  decide +kernel

omit [Zlib] in
/-- The first edit of a manifest adds a table whose path has 4000 bytes: the path would cross the
edge of the first block, padding is written, and the commit fails. -/
theorem not_commit_longPath : letI := documentedZlib
    ¬ ∀ (n : Nat) (path : String) (file : Option (List UInt8)) (io : ManifestFaults) (s₀ s : ManifestState)
      (steps : List LogStep) (edit : VersionEdit) (staged : LevelManager × StagedCounters) (header : EditHeader)
      (lm : LevelManager),
      Manifest.openOrCreate io ⟨{ path }, file, LevelManager.init n⟩ = (.ok (), s₀) →
        runLog steps s₀ = some s →
      stageApply s.levels s.manifest.counters edit = .ok staged → edit.prepare = .ok header →
      SmallTables edit → lm.levelCount = n →
        ∃ s' m, Manifest.commit {} edit s = (.ok (), s') ∧
          Manifest.load path (.ok (ReadableFile.ofBytes (s'.file.getD []) path)) lm = (.ok m, staged.1) := by
  intro h
  obtain ⟨hlev, hcount, hlen⟩ := newManifest_start
  obtain ⟨staged, hst⟩ := longPathEdit_staged 4000
  obtain ⟨header, hpr⟩ := @prepare_of_payloadSize documentedZlib (longPathEdit 4000) (by decide +kernel)
  obtain ⟨s', -, hc, -⟩ := h 1 "MANIFEST" none {} _ _ [] (longPathEdit 4000) staged header (LevelManager.init 1)
    newManifest_ok rfl (by rw [hlev, hcount]; exact hst) hpr (longPathEdit_small (by decide)) (by decide)
  have hrec := @recorded_openOrCreate documentedZlib 1 _ {} "MANIFEST" none newManifest_ok
  have hfit := @fits_of_commit documentedZlib 1 _ s' [] (longPathEdit 4000) {} hrec hc
  rw [hlen, @longPathEdit_fits_iff documentedZlib] at hfit
  omega

omit [Zlib] in
/-- A path of sixteen bytes stays inside the first block. -/
theorem commit_loads_shortPath : letI := documentedZlib
    ∃ s' m lm, Manifest.commit {} (longPathEdit 16) newManifest = (.ok (), s') ∧
      Manifest.load "MANIFEST" (.ok (ReadableFile.ofBytes (s'.file.getD []) "MANIFEST")) (LevelManager.init 1) =
        (.ok m, lm) := by
  obtain ⟨hlev, hcount, hlen⟩ := newManifest_start
  obtain ⟨staged, hst⟩ := longPathEdit_staged 16
  obtain ⟨header, hpr⟩ := @prepare_of_payloadSize documentedZlib (longPathEdit 16) (by decide +kernel)
  have hiff := @commit_loads_iff_fits documentedZlib 1 "MANIFEST" none {} _ _ [] (longPathEdit 16) staged header
    (LevelManager.init 1) newManifest_ok rfl (by rw [hlev, hcount]; exact hst) hpr
    (longPathEdit_small (by decide)) (by decide)
  rw [hlen, @longPathEdit_fits_iff documentedZlib] at hiff
  obtain ⟨s', m, hc, hload, -⟩ := hiff.mpr (by decide)
  exact ⟨s', m, staged.1, hc, hload⟩

end Kvdb
