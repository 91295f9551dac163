import Kvdb.Manifest.Manifest

/-!
# A failed commit publishes nothing and stops the manifest

`commit_cases` says what a commit can do.  A failed one leaves the levels and the
counters alone; when it may have written, the object is poisoned, and no
operation on it writes again (`commit_atomic_failStop`).  The one way out is
`open_or_create` while the file is empty, which starts a new manifest.
-/

namespace Kvdb

open Faulty Bytes

/-- Levels and counters of the two states agree. -/
def SameVersion (s s' : ManifestState) : Prop :=
  s'.levels = s.levels ∧ s'.manifest.counters = s.manifest.counters

theorem failPoisoned_apply (e : Status) (s : ManifestState) :
    failPoisoned e s = (.err e, { s with manifest := { s.manifest with writePoisoned := true } }) := rfl

theorem syncOrPoison_none (s : ManifestState) : syncOrPoison none s = (.ok (), s) := rfl

theorem syncOrPoison_some (e : Status) (s : ManifestState) :
    syncOrPoison (some e) s = (.err e, { s with manifest := { s.manifest with writePoisoned := true } }) := rfl

theorem modifyManifest_apply (f : Manifest → Manifest) (s : ManifestState) :
    modifyManifest f s = (.ok (), { s with manifest := f s.manifest }) := rfl

theorem failOn_none (s : ManifestState) : failOn none s = (.ok (), s) := rfl

theorem failOn_some (e : Status) (s : ManifestState) : failOn (some e) s = (.err e, s) := rfl

namespace Manifest

variable [Zlib]

section Commit

variable {io : ManifestFaults} {edit : VersionEdit} {s s' : ManifestState}

/-- The writer that `append_prepared` hands to the edit. -/
def editWriter (io : ManifestFaults) (s : ManifestState) : Writer Status :=
  ⟨s.file.getD [], s.manifest.appendOffset, io.write.map fun n => ⟨n, false⟩, io.writeError⟩

/-- The state after the edit's bytes reached the file. -/
def appended (s : ManifestState) (w : Writer Status) : ManifestState :=
  { s with file := some w.bytes, manifest := { s.manifest with appendOffset := w.offset } }

omit [Zlib] in
theorem checkPosition_cases (io : ManifestFaults) (s : ManifestState) :
    (checkPosition io s = (.ok (), s) ∧ (s.file.getD []).length = s.manifest.appendOffset) ∨
      ∃ e, checkPosition io s = (.err e, { s with manifest := { s.manifest with writePoisoned := true } }) := by
  rw [checkPosition, bind_ok (get_apply s)]
  cases io.position with
  | some e => exact .inr ⟨e, failPoisoned_apply e s⟩
  | none =>
    by_cases h : (s.file.getD []).length ≠ s.manifest.appendOffset
    · rw [if_pos h]
      exact .inr ⟨_, failPoisoned_apply _ s⟩
    · rw [if_neg h]
      exact .inl ⟨rfl, by simpa using h⟩

/-- What `append_prepared` does on an open manifest. -/
theorem appendPrepared_cases (io : ManifestFaults) (edit : VersionEdit) (hp : s.manifest.writePoisoned = false)
    (hw : s.manifest.writable = true) :
    (∃ w, edit.write (editWriter io s) = (.ok (), w) ∧ (editWriter io s).Synced ∧
        appendPrepared io edit s = (.ok (), appended s w)) ∨
      (∃ e s', appendPrepared io edit s = (.err e, s') ∧ SameVersion s s' ∧ s'.manifest.writePoisoned = true) ∨
      (∃ s', appendPrepared io edit s = (.crash, s')) := by
  rw [appendPrepared, bind_ok (get_apply s), bind_ok (by rw [ensure_apply, hp]; rfl),
    bind_ok (by rw [ensure_apply, hw]; rfl)]
  rcases checkPosition_cases io s with ⟨hpos, hlen⟩ | ⟨e, hpos⟩
  · rw [bind_ok hpos]
    have hrun : runWriter io edit.write s =
        ((edit.write (editWriter io s)).1, appended s (edit.write (editWriter io s)).2) := rfl
    cases hr : edit.write (editWriter io s) with
    | mk r w =>
      rw [hr] at hrun
      rw [orElse, hrun]
      cases r with
      | ok u => exact .inl ⟨w, rfl, hlen.symm, rfl⟩
      | err e => exact .inr (.inl ⟨e, _, failPoisoned_apply e _, ⟨rfl, rfl⟩, rfl⟩)
      | crash => exact .inr (.inr ⟨_, rfl⟩)
  · rw [bind_err hpos]
    exact .inr (.inl ⟨e, _, rfl, ⟨rfl, rfl⟩, rfl⟩)

/-- What a commit can do: refuse, reject the edit, fail with the object poisoned, or publish. -/
theorem commit_cases (h : commit io edit s = (r, s')) :
    ((s.manifest.writePoisoned = true ∨ s.manifest.writable = false) ∧ (∃ e, r = .err e) ∧ s' = s) ∨
    (s.manifest.writePoisoned = false ∧ s.manifest.writable = true ∧
      ((((∃ e, stageApply s.levels s.manifest.counters edit = .error e) ∨ ∃ e, edit.prepare = .error e) ∧
          (∃ e, r = .err e) ∧ s' = s) ∨
       ∃ staged header, stageApply s.levels s.manifest.counters edit = .ok staged ∧ edit.prepare = .ok header ∧
        ((r = .ok () ∧ ∃ w, edit.write (editWriter io s) = (.ok (), w) ∧ (editWriter io s).Synced ∧
            s' = { appended s w with
              levels := staged.1
              manifest := { (appended s w).manifest with counters := staged.2 } }) ∨
         ((∃ e, r = .err e) ∧ SameVersion s s' ∧ s'.manifest.writePoisoned = true) ∨
         r = .crash))) := by
  rw [commit, bind_ok (get_apply s)] at h
  cases hp : s.manifest.writePoisoned with
  | true =>
    rw [bind_err (by rw [ensure_apply, hp]; rfl)] at h
    cases h
    exact .inl ⟨.inl rfl, ⟨_, rfl⟩, rfl⟩
  | false =>
    rw [bind_ok (by rw [ensure_apply, hp]; rfl)] at h
    cases hw : s.manifest.writable with
    | false =>
      rw [bind_err (by rw [ensure_apply, hw]; rfl)] at h
      cases h
      exact .inl ⟨.inr rfl, ⟨_, rfl⟩, rfl⟩
    | true =>
      rw [bind_ok (by rw [ensure_apply, hw]; rfl)] at h
      refine .inr ⟨rfl, rfl, ?_⟩
      cases hst : stageApply s.levels s.manifest.counters edit with
      | error e =>
        rw [hst, bind_err (lift_error e s)] at h
        cases h
        exact .inl ⟨.inl ⟨e, rfl⟩, ⟨e, rfl⟩, rfl⟩
      | ok staged =>
        rw [hst, bind_ok (lift_ok staged s)] at h
        cases hpr : edit.prepare with
        | error e =>
          rw [hpr, bind_err (lift_error e s)] at h
          cases h
          exact .inl ⟨.inr ⟨e, rfl⟩, ⟨e, rfl⟩, rfl⟩
        | ok header =>
          rw [hpr, bind_ok (lift_ok header s)] at h
          refine .inr ⟨staged, header, rfl, rfl, ?_⟩
          rcases appendPrepared_cases io edit hp hw with
            ⟨w, hwr, hsync, happ⟩ | ⟨e, s₁, happ, hsame, hpois⟩ | ⟨s₁, happ⟩
          · rw [bind_ok happ] at h
            cases hs : io.sync with
            | none =>
              rw [hs, bind_ok (syncOrPoison_none _)] at h
              cases h
              exact .inl ⟨rfl, w, hwr, hsync, rfl⟩
            | some e =>
              rw [hs, bind_err (syncOrPoison_some e _)] at h
              cases h
              exact .inr (.inl ⟨⟨e, rfl⟩, ⟨rfl, rfl⟩, rfl⟩)
          · rw [bind_err happ] at h
            cases h
            exact .inr (.inl ⟨⟨e, rfl⟩, hsame, hpois⟩)
          · rw [bind_crash happ] at h
            cases h
            exact .inr (.inr rfl)

end Commit

/-! ## Operations on one object -/

/-- A call on the manifest object. -/
inductive Op where
  | commit (io : ManifestFaults) (edit : VersionEdit)
  | sync (io : ManifestFaults)
  | apply (edit : VersionEdit)
  | allocateTableId
  | openOrCreate (io : ManifestFaults)
  | prepareForAppend (io : ManifestFaults)
  | attachWriter (io : ManifestFaults) (opened : Bool)

/-- One call: how it ended, and the state behind it. -/
def Op.run (op : Op) (s : ManifestState) : Outcome Status Unit × ManifestState :=
  match op with
  | .commit io edit => Manifest.commit io edit s
  | .sync io => Manifest.sync io s
  | .apply edit => Manifest.apply edit s
  | .allocateTableId => (do let _ ← Manifest.allocateTableId; pure ()) s
  | .openOrCreate io => Manifest.openOrCreate io s
  | .prepareForAppend io => Manifest.prepareForAppend io s
  | .attachWriter io opened => Manifest.attachWriter io opened s

/-- The calls one after the other, whatever each returns. -/
def runOps (ops : List Op) (s : ManifestState) : ManifestState := ops.foldl (fun s op => (op.run s).2) s

/-- A call that appends to the file or makes it durable. -/
def Op.writes : Op → Prop
  | .commit _ _ => True
  | .sync _ => True
  | _ => False

/-- `open_or_create` while the file is empty. -/
def Op.startsAfresh (op : Op) (file : Option (List UInt8)) : Prop :=
  (∃ io, op = .openOrCreate io) ∧ file.getD [] = []

/-- A poisoned manifest with its file. -/
def Stopped (file : Option (List UInt8)) (s : ManifestState) : Prop :=
  s.manifest.writePoisoned = true ∧ s.file = file

section Stopped

variable {file : Option (List UInt8)} {s : ManifestState}

theorem stopped_refuses (h : s.manifest.writePoisoned = true) (op : Op) (hop : op.writes) :
    ∃ e, op.run s = (.err e, s) := by
  cases op with
  | commit io edit =>
    show ∃ e, Manifest.commit io edit s = (.err e, s)
    rw [Manifest.commit, bind_ok (get_apply s), bind_err (by rw [ensure_apply, h]; rfl)]
    exact ⟨_, rfl⟩
  | sync io =>
    show ∃ e, Manifest.sync io s = (.err e, s)
    rw [Manifest.sync, bind_ok (get_apply s), bind_err (by rw [ensure_apply, h]; rfl)]
    exact ⟨_, rfl⟩
  | apply edit => cases hop
  | allocateTableId => cases hop
  | openOrCreate io => cases hop
  | prepareForAppend io => cases hop
  | attachWriter io opened => cases hop

/-- Every call keeps a poisoned manifest poisoned and its file as it is, unless it starts afresh. -/
theorem stopped_step (h : Stopped file s) (op : Op) (hop : ¬ op.startsAfresh file) :
    Stopped file (op.run s).2 := by
  obtain ⟨hp, hf⟩ := h
  cases op with
  | commit io edit =>
    obtain ⟨e, he⟩ := stopped_refuses hp (.commit io edit) trivial
    rw [he]
    exact ⟨hp, hf⟩
  | sync io =>
    obtain ⟨e, he⟩ := stopped_refuses hp (.sync io) trivial
    rw [he]
    exact ⟨hp, hf⟩
  | apply edit =>
    show Stopped file (Manifest.apply edit s).2
    rw [Manifest.apply, bind_ok (get_apply s)]
    cases stageApply s.levels s.manifest.counters edit with
    | error e => exact ⟨hp, hf⟩
    | ok staged => exact ⟨hp, hf⟩
  | allocateTableId =>
    show Stopped file ((do let _ ← Manifest.allocateTableId; pure () : ManifestM Unit) s).2
    by_cases hid : (s.manifest.counters.nextTableId.toNat != 2 ^ 64 - 1) = true
    · have halloc : Manifest.allocateTableId s = (.ok s.manifest.counters.nextTableId,
          { s with manifest := { s.manifest with counters :=
            { s.manifest.counters with nextTableId := s.manifest.counters.nextTableId + 1 } } }) := by
        rw [Manifest.allocateTableId, bind_ok (get_apply s), bind_ok (by rw [ensure_apply, if_pos hid])]
        rfl
      rw [bind_ok halloc]
      exact ⟨hp, hf⟩
    · have halloc : Manifest.allocateTableId s =
          (.err ⟨.invariantViolation, "table id space is exhausted"⟩, s) := by
        rw [Manifest.allocateTableId, bind_ok (get_apply s), bind_err (by rw [ensure_apply, if_neg hid])]
      rw [bind_err halloc]
      exact ⟨hp, hf⟩
  | openOrCreate io =>
    -- the file is not empty: `AlreadyExists` or an earlier refusal
    have hne : ¬ file.getD [] = [] := fun h0 => hop ⟨⟨io, rfl⟩, h0⟩
    have hlen : ¬ ((s.file.getD []).length == 0) = true := by
      rw [hf]
      simpa using hne
    show Stopped file (Manifest.openOrCreate io s).2
    rw [Manifest.openOrCreate, bind_ok (get_apply s)]
    by_cases hpath : (s.manifest.path != "") = true
    · rw [bind_ok (by rw [ensure_apply, if_pos hpath])]
      cases io.access with
      | some e =>
        rw [bind_err (failOn_some e s)]
        exact ⟨hp, hf⟩
      | none =>
        rw [bind_ok (failOn_none s), bind_err (by rw [ensure_apply, if_neg hlen])]
        exact ⟨hp, hf⟩
    · rw [bind_err (by rw [ensure_apply, if_neg hpath])]
      exact ⟨hp, hf⟩
  | prepareForAppend io =>
    show Stopped file (Manifest.prepareForAppend io s).2
    rw [Manifest.prepareForAppend, bind_ok (get_apply s), bind_err (by rw [ensure_apply, hp]; rfl)]
    exact ⟨hp, hf⟩
  | attachWriter io opened =>
    show Stopped file (Manifest.attachWriter io opened s).2
    rw [Manifest.attachWriter, bind_ok (get_apply s), bind_err (by rw [ensure_apply, hp]; rfl)]
    exact ⟨hp, hf⟩

theorem stopped_run (h : Stopped file s) (ops : List Op) (hops : ∀ op ∈ ops, ¬ op.startsAfresh file) :
    Stopped file (runOps ops s) := by
  induction ops generalizing s with
  | nil => exact h
  | cons op ops ih =>
    exact ih (stopped_step h op (hops op (by simp))) fun op' hop' => hops op' (by simp [hop'])

end Stopped

theorem load_failed {path : String} {opened : Except Status ReadableFile} {lm lm' : LevelManager} {e : Status}
    (h : load path opened lm = (.err e, lm')) : lm' = lm := by
  have hlift : ∀ {α β : Type} {x : Except Status α} {k : α → Prog LevelManager Status β} {e : Status}
      {lm' : LevelManager}, (lift x >>= k) lm = (.err e, lm') →
      (∀ a, x = .ok a → k a lm = (.err e, lm') → lm' = lm) → lm' = lm := by
    intro α β x k e lm' h hk
    cases x with
    | error e' =>
      rw [bind_err (lift_error e' lm)] at h
      cases h
      rfl
    | ok a =>
      rw [bind_ok (lift_ok a lm)] at h
      exact hk a rfl h
  refine hlift h fun file _ h => hlift h fun size _ h => ?_
  rw [bind_apply, ensure_apply] at h
  by_cases hsize : decide (ManifestHeader.diskSize ≤ size) = true
  · rw [if_pos hsize] at h
    refine hlift h fun header _ h => ?_
    rw [bind_ok (get_apply lm)] at h
    refine hlift h fun r _ h => hlift h fun u _ h => ?_
    cases h
  · rw [if_neg hsize] at h
    cases h
    rfl

/-- **Commit is atomic and fail-stop.**  A failed commit leaves levels and counters as they were.
When staging or preparation rejected the edit, nothing at all changed.  When appending or
syncing failed, the object is poisoned, and whatever is called on it afterwards, no commit
and no sync succeeds or touches the file, as long as `open_or_create` is not called while the
file is empty.  A failed load leaves the caller's level manager as it was. -/
theorem commit_atomic_failStop :
    (∀ (io : ManifestFaults) (edit : VersionEdit) (s s' : ManifestState) (e : Status),
      commit io edit s = (.err e, s') →
        SameVersion s s' ∧
        (s.manifest.writePoisoned = false → s.manifest.writable = true →
          ((∃ e, stageApply s.levels s.manifest.counters edit = .error e) ∨ ∃ e, edit.prepare = .error e) →
            s'.file = s.file ∧ s'.manifest.writePoisoned = false) ∧
        (s.manifest.writePoisoned = false → s.manifest.writable = true →
          (∃ staged, stageApply s.levels s.manifest.counters edit = .ok staged) →
          (∃ header, edit.prepare = .ok header) →
            s'.manifest.writePoisoned = true ∧
            ∀ ops : List Op, (∀ op ∈ ops, ¬ op.startsAfresh s'.file) →
              ∀ op : Op, op.writes → ∃ e, op.run (runOps ops s') = (.err e, runOps ops s') ∧
                (runOps ops s').file = s'.file)) ∧
    (∀ (path : String) (opened : Except Status ReadableFile) (lm lm' : LevelManager) (e : Status),
      load path opened lm = (.err e, lm') → lm' = lm) := by
  refine ⟨?_, fun path opened lm lm' e h => load_failed h⟩
  intro io edit s s' e h
  rcases commit_cases h with ⟨hclosed, -, rfl⟩ | ⟨hp, hw, hreject | ⟨staged, header, hst, hpr,
    hok | hfail | hc⟩⟩
  · refine ⟨⟨rfl, rfl⟩, ?_, ?_⟩
    · intro hp hw
      rcases hclosed with h1 | h1
      · rw [hp] at h1
        cases h1
      · rw [hw] at h1
        cases h1
    · intro hp hw
      rcases hclosed with h1 | h1
      · rw [hp] at h1
        cases h1
      · rw [hw] at h1
        cases h1
  · obtain ⟨hrej, -, rfl⟩ := hreject
    refine ⟨⟨rfl, rfl⟩, fun _ _ _ => ⟨rfl, hp⟩, ?_⟩
    rintro - - ⟨staged, hst⟩ ⟨header, hpr⟩
    rcases hrej with ⟨e', he'⟩ | ⟨e', he'⟩
    · rw [hst] at he'
      cases he'
    · rw [hpr] at he'
      cases he'
  · cases hok.1
  · obtain ⟨-, hsame, hpois⟩ := hfail
    refine ⟨hsame, ?_, ?_⟩
    · rintro - - (⟨e', he'⟩ | ⟨e', he'⟩)
      · rw [hst] at he'
        cases he'
      · rw [hpr] at he'
        cases he'
    · intro _ _ _ _
      refine ⟨hpois, fun ops hops op hop => ?_⟩
      obtain ⟨hp', hf'⟩ := stopped_run ⟨hpois, rfl⟩ ops hops
      obtain ⟨e', he'⟩ := stopped_refuses hp' op hop
      exact ⟨e', he', hf'⟩
  · cases hc

/-- An edit that only raises the sequence counter. -/
def raiseSequence : VersionEdit := { nextSequenceNumber := some 5 }

omit [Zlib] in
theorem raiseSequence_staged :
    ∃ staged, stageApply (LevelManager.init 1) {} raiseSequence = .ok staged := by
  refine ⟨(LevelManager.init 1, { nextSequenceNumber := 5 }), ?_⟩
  decide +kernel

omit [Zlib] in
theorem raiseSequence_prepared : ∃ header, @VersionEdit.prepare documentedZlib raiseSequence = .ok header := by
  have hprep : (@VersionEdit.prepare documentedZlib raiseSequence).isOk = true := by
    decide +kernel
  cases hs : @VersionEdit.prepare documentedZlib raiseSequence with
  | ok header => exact ⟨header, rfl⟩
  | error e =>
    rw [hs] at hprep
    cases hprep

omit [Zlib] in
/-- The commit is torn after ten bytes; a retry behind other calls is refused. -/
theorem failStop_tornCommit : letI := documentedZlib
    let created := (openOrCreate {} ⟨{ path := "MANIFEST" }, none, LevelManager.init 1⟩).2
    let torn := (commit { write := some 10 } raiseSequence created).2
    torn.manifest.writePoisoned = true ∧
      ∃ e, (Op.commit {} raiseSequence).run (runOps [.openOrCreate {}, .prepareForAppend {}] torn) =
        (.err e, runOps [.openOrCreate {}, .prepareForAppend {}] torn) := by
  have hlevels : (@openOrCreate documentedZlib {} ⟨{ path := "MANIFEST" }, none, LevelManager.init 1⟩).2.levels =
      LevelManager.init 1 := by
    decide +kernel
  have hcounters : (@openOrCreate documentedZlib {}
      ⟨{ path := "MANIFEST" }, none, LevelManager.init 1⟩).2.manifest.counters = {} := by
    decide +kernel
  have hfail : (@commit documentedZlib { write := some 10 } raiseSequence (@openOrCreate documentedZlib {}
      ⟨{ path := "MANIFEST" }, none, LevelManager.init 1⟩).2).1 = .err ⟨.writeFailed, "append"⟩ := by
    decide +kernel
  obtain ⟨-, -, hstop⟩ := (@commit_atomic_failStop documentedZlib).1 _ _ _ _ _ (run_eq hfail)
  obtain ⟨hpois, hops⟩ := hstop (by decide +kernel) (by decide +kernel)
    (by rw [hlevels, hcounters]; exact raiseSequence_staged) raiseSequence_prepared
  refine ⟨hpois, ?_⟩
  obtain ⟨e, he, -⟩ := hops [.openOrCreate {}, .prepareForAppend {}] (fun op _ hfresh => by
    have hne : ¬ (@commit documentedZlib { write := some 10 } raiseSequence (@openOrCreate documentedZlib {}
        ⟨{ path := "MANIFEST" }, none, LevelManager.init 1⟩).2).2.file.getD [] = [] := by
      decide +kernel
    exact hne hfresh.2) (.commit {} raiseSequence) trivial
  exact ⟨e, he⟩

/-- A new manifest object whose writer was attached to a file without a byte. -/
def attachedToEmpty : ManifestState := ⟨{ path := "MANIFEST", writable := true }, some [], LevelManager.init 1⟩

omit [Zlib] in
/-- The first write of the commit fails before a byte reaches the file; `open_or_create` then
resets the object, and the next commit succeeds. -/
theorem not_failStop_attachedToEmpty : letI := documentedZlib
    (attachWriter {} true ⟨{ path := "MANIFEST" }, none, LevelManager.init 1⟩ = (.ok (), attachedToEmpty)) ∧
    ¬ ∀ (io : ManifestFaults) (edit : VersionEdit) (s s' : ManifestState) (e : Status),
      commit io edit s = (.err e, s') → s.manifest.writePoisoned = false → s.manifest.writable = true →
      (∃ staged, stageApply s.levels s.manifest.counters edit = .ok staged) →
      (∃ header, edit.prepare = .ok header) →
        ∀ (ops : List Op) (op : Op), op.writes → ∃ e, op.run (runOps ops s') = (.err e, runOps ops s') := by
  refine ⟨by decide +kernel, fun h => ?_⟩
  have hfail : (@commit documentedZlib { write := some 0 } raiseSequence attachedToEmpty).1 =
      .err ⟨.writeFailed, "append"⟩ := by
    decide +kernel
  have hok : (@Op.run documentedZlib (.commit {} raiseSequence) (@runOps documentedZlib [.openOrCreate {}]
      (@commit documentedZlib { write := some 0 } raiseSequence attachedToEmpty).2)).1 = .ok () := by
    decide +kernel
  obtain ⟨e, he⟩ := h { write := some 0 } raiseSequence attachedToEmpty _ _
      (run_eq hfail) rfl rfl raiseSequence_staged
    raiseSequence_prepared [.openOrCreate {}] (.commit {} raiseSequence) trivial
  rw [he] at hok
  cases hok

end Manifest

end Kvdb
