import Kvdb.Manifest.Recovery

/-!
# Manifest files as lists of edits

A manifest file is nothing, or the header, the records of its edits without a gap
and the start of one more edit (`HoldsEdits`).  Loading drops the start, a commit adds
an edit or the start of it:

    HoldsEdits file edits  →  load file = replay edits                        (load_holds)
    commit edit       →  HoldsEdits file edits ∨ HoldsEdits file (edits ++ [edit])   (commit_holds)

An edit one of whose fields would cross a block edge is outside of this: its commit
is refused (`commit_misfit`) and leaves what no load takes.
-/

namespace Kvdb

open Faulty Bytes

variable [Zlib]

/-! ## Files -/

/-- What a torn append leaves behind the edits: nothing, or the start of an edit. -/
def TornEdit (off : Nat) (tail : List UInt8) : Prop :=
  tail = [] ∨ ∃ e : VersionEdit, e.Valid ∧ FitsAt MANIFEST_BLOCK_SIZE off e.record ∧ tail <+:
    e.record.flatten ∧
    tail.length < e.record.flatten.length

/-- The edits of a manifest file. -/
inductive HoldsEdits : Option (List UInt8) → List VersionEdit → Prop
  | blank {file : Option (List UInt8)} (h : file.getD [] = []) : HoldsEdits file []
  | edits {edits : List VersionEdit} {tail : List UInt8} (fit : EditsFit ManifestHeader.diskSize edits)
      (torn : TornEdit (ManifestHeader.diskSize + (editsBytes edits).length) tail) :
      HoldsEdits (some (manifestHeaderBytes ++ (editsBytes edits ++ tail))) edits

theorem Recorded.holds {n : Nat} {s : ManifestState} {edits : List VersionEdit} (h : Recorded n s edits) :
    HoldsEdits s.file edits := by
  rw [h.file, ← List.append_nil (editsBytes edits)]
  exact .edits h.fit (.inl rfl)

/-! ## Loading -/

/-- The loop of `load` on whole edits and the start of one more. -/
theorem loadLoop_holds {file : ReadableFile} (hf : file.Sound) {edits : List VersionEdit} {tail : List UInt8}
    {off : Nat}
    (fuel : Nat) {lm : LevelManager} {c : StagedCounters} (hfit : EditsFit off edits)
    (htorn : TornEdit (off + (editsBytes edits).length) tail) (hle : off ≤ file.bytes.length)
    (hdrop : file.bytes.drop off = editsBytes edits ++ tail) (hfuel : file.bytes.length - off < fuel) :
    (∀ v, replayFrom (lm, c) edits = .ok v → Manifest.loadLoop file file.bytes.length fuel off lm c =
        .ok ⟨off + (editsBytes edits).length, decide (tail ≠ []), v.1, v.2⟩) ∧
      (∀ x, replayFrom (lm, c) edits = .error x →
        ∃ y, Manifest.loadLoop file file.bytes.length fuel off lm c = .error y) := by
  have hlen := congrArg List.length hdrop
  rw [List.length_drop] at hlen
  induction edits generalizing off fuel lm c with
  | nil =>
    have hnil : editsBytes [] ++ tail = tail := rfl
    have h0 : off + (editsBytes []).length = off := rfl
    rw [hnil] at hdrop
    rw [h0] at htorn ⊢
    rw [hnil] at hlen
    refine ⟨fun v hv => ?_, fun x hx => (by cases hx)⟩
    cases hv
    cases fuel with
    | zero => omega
    | succ fuel =>
    rw [Manifest.loadLoop]
    by_cases htail : tail = []
    · subst htail
      rw [List.length_nil] at hlen
      rw [if_pos (by omega)]
      rfl
    · have hpos := List.length_pos_iff.mpr htail
      rw [if_neg (by omega), decide_eq_true htail]
      obtain ⟨e, hv, hfe, hpre, hlt⟩ := htorn.resolve_left htail
      obtain ⟨message, hload⟩ := VersionEdit.load_cut hv hf hfe hle (hdrop ▸ hpre) (by omega)
      rw [hload]
      rfl
  | cons e es ih =>
    obtain ⟨hv, hfe, hfes⟩ := hfit
    have hpos := List.length_pos_iff.mpr (VersionEdit.record_ne_nil e)
    have hcons : (editsBytes (e :: es)).length = e.record.flatten.length + (editsBytes es).length := by
      rw [editsBytes_cons, List.length_append]
    rw [editsBytes_cons, List.append_assoc] at hdrop
    have hat : At file.bytes off e.record.flatten := by
      rw [At, hdrop]
      exact List.prefix_append _ _
    have hrest : file.bytes.drop (off + e.record.flatten.length) = editsBytes es ++ tail := by
      rw [← List.drop_drop, hdrop, List.drop_left]
    rw [editsBytes_cons, List.append_assoc, List.length_append] at hlen
    cases fuel with
    | zero => omega
    | succ fuel =>
    rw [Manifest.loadLoop, if_neg (by omega), VersionEdit.load_record hv hf hfe hat]
    dsimp only
    rw [hcons, ← Nat.add_assoc] at htorn
    cases hst : stageApply lm c e with
    | error x =>
      refine ⟨fun v hv' => ?_, fun _ _ => ⟨x, rfl⟩⟩
      rw [replayFrom, List.foldlM_cons, hst] at hv'
      cases hv'
    | ok mid =>
      have hstep : replayFrom (lm, c) (e :: es) = replayFrom mid es := by
        rw [replayFrom, List.foldlM_cons, hst]
        rfl
      rw [hstep, hcons, ← Nat.add_assoc]
      have hrestLen := congrArg List.length hrest
      rw [List.length_drop] at hrestLen
      exact ih fuel hfes htorn (by omega) hrest (by omega) hrestLen

section

variable {edits : List VersionEdit} {tail : List UInt8} {lm : LevelManager}

/-- **Loading is replaying**: the start of an edit behind the whole ones is dropped. -/
theorem load_holds (path : String) (hfit : EditsFit ManifestHeader.diskSize edits)
    (htorn : TornEdit (ManifestHeader.diskSize + (editsBytes edits).length) tail) {b : List UInt8}
    (hb : b = manifestHeaderBytes ++ (editsBytes edits ++ tail)) :
    (∀ v, replay lm.levelCount edits = .ok v → Manifest.load path (.ok (ReadableFile.ofBytes b path)) lm =
        (.ok (recoveredManifest path v.2 (ManifestHeader.diskSize + (editsBytes edits).length) b.length), v.1)) ∧
      (∀ x, replay lm.levelCount edits = .error x →
        ∃ y lm', Manifest.load path (.ok (ReadableFile.ofBytes b path)) lm = (.err y, lm')) := by
  generalize hfile : ReadableFile.ofBytes b path = file
  have hsound : file.Sound := by
    rw [← hfile]
    exact ReadableFile.ofBytes_sound _ _
  have hbytes : file.bytes = manifestHeaderBytes ++ (editsBytes edits ++ tail) := by
    rw [← hfile]
    exact hb
  have hlen : file.bytes.length = b.length := by rw [hbytes, hb]
  have hsize : b.length = ManifestHeader.diskSize + (editsBytes edits).length + tail.length := by
    rw [hb, List.length_append, List.length_append, length_manifestHeaderBytes, Nat.add_assoc]
  have hhead : At file.bytes 0 manifestHeaderBytes := by
    have hat := at_append [] manifestHeaderBytes (editsBytes edits ++ tail)
    rw [List.nil_append] at hat
    rw [hbytes]
    exact hat
  have hdrop : file.bytes.drop ManifestHeader.diskSize = editsBytes edits ++ tail := by
    rw [hbytes, ← length_manifestHeaderBytes, List.drop_left]
  obtain ⟨hok, herr⟩ := @loadLoop_holds _ file hsound edits tail ManifestHeader.diskSize (b.length + 1)
    (LevelManager.init lm.levelCount) {} hfit htorn (by omega) hdrop (by omega)
  have htail : decide (tail ≠ []) = decide (ManifestHeader.diskSize + (editsBytes edits).length ≠ b.length) := by
    rw [decide_eq_decide, ← List.length_pos_iff]
    omega
  -- up to the loop every load of such a file is the same
  have hload : Manifest.load path (.ok file) lm = (lift (Manifest.loadLoop file b.length (b.length + 1)
      ManifestHeader.diskSize (LevelManager.init lm.levelCount) {}) >>= fun r => do
        lift (checkInvariants r.levels r.counters)
        modify fun _ => r.levels
        pure
          { path
            counters := r.counters
            appendOffset := r.appendOffset
            recoverableTail := r.recoverableTail }) lm := by
    rw [Manifest.load, bind_ok (lift_ok file lm), hsound.getFileSize, bind_ok (lift_ok _ lm),
      bind_ok (by rw [ensure_apply, if_pos (by rw [decide_eq_true_eq]; omega)]), header_load hsound hhead,
      bind_ok (lift_ok _ lm), bind_ok (get_apply lm), hlen]
  rw [hlen] at hok herr
  refine ⟨fun v hv => ?_, fun x hx => ?_⟩
  · have hinv := (replayFrom_inv (manifestInv_init lm.levelCount) hv).1
    rw [hload, hok v hv, bind_ok (lift_ok _ lm), checkInvariants_ok_iff.mpr hinv, bind_ok (lift_ok _ lm),
      bind_ok (modify_apply _ lm), htail]
    rfl
  · obtain ⟨y, hy⟩ := herr x hx
    rw [hload, hy, bind_err (lift_error _ lm)]
    exact ⟨y, lm, rfl⟩

/-- Preparing what was loaded for writing drops the start of an edit from the file too. -/
theorem resume_holds {n : Nat} (path : String) (hfit : EditsFit ManifestHeader.diskSize edits) {b : List UInt8}
    (hb : b = manifestHeaderBytes ++ (editsBytes edits ++ tail)) {v : LevelManager × StagedCounters}
    (hv : replay n edits = .ok v) :
    ∃ s, resume ⟨recoveredManifest path v.2 (ManifestHeader.diskSize + (editsBytes edits).length) b.length,
      some b, v.1⟩ =
        (.ok (), s) ∧ s.levels = v.1 ∧ s.manifest.counters = v.2 ∧ Recorded n s edits := by
  have hle : ManifestHeader.diskSize + (editsBytes edits).length ≤ b.length := by
    rw [hb, List.length_append, List.length_append, length_manifestHeaderBytes]
    omega
  have hfront : b.take (ManifestHeader.diskSize + (editsBytes edits).length) = manifestHeaderBytes ++
      editsBytes edits := by
    rw [hb, ← List.append_assoc, ← length_manifestHeaderBytes, ← List.length_append, List.take_left]
  refine ⟨_, resume_apply rfl hle rfl, rfl, rfl, ?_⟩
  exact
    { file := congrArg some hfront
      fit := hfit
      replayed := ⟨v.2.nextTableId, hv, Nat.le_refl _⟩
      offset := rfl
      writable := rfl
      unpoisoned := rfl }

end

/-! ## Committing -/

section

variable {n : Nat} {s : ManifestState} {edits : List VersionEdit} {edit : VersionEdit}

omit [Zlib] in
theorem le_of_fitsAt {off : Nat} {ds : List (List UInt8)} (h : FitsAt MANIFEST_BLOCK_SIZE off ds) :
    ∀ d ∈ ds, d.length ≤ MANIFEST_BLOCK_SIZE := by
  induction ds generalizing off with
  | nil => simp
  | cons d ds ih =>
    obtain ⟨hd, hds⟩ := h
    intro x hx
    rcases List.mem_cons.mp hx with rfl | hx
    · rcases hd with rfl | hle
      · exact Nat.zero_le _
      · exact hle.trans (Nat.sub_le _ _)
    · exact ih hds x hx

theorem fields_le_of_fits {off : Nat} (h : FitsAt MANIFEST_BLOCK_SIZE off edit.record) :
    ∀ d ∈ edit.fields, d.length ≤ MANIFEST_BLOCK_SIZE := fun d hd =>
  le_of_fitsAt h d (List.mem_append_right _ hd)

/-- **A commit that fits**, whatever its fault, leaves the edits that were there, or one more. -/
theorem commit_holds {io : ManifestFaults} {header : EditHeader} {staged : LevelManager × StagedCounters}
    (h : Recorded n s edits) (hst : stageApply s.levels s.manifest.counters edit = .ok staged)
    (hpr : edit.prepare = .ok header) (hfit : FitsAt MANIFEST_BLOCK_SIZE (fileLength s) edit.record) :
    HoldsEdits (Manifest.commit io edit s).2.file edits ∨ HoldsEdits (Manifest.commit io edit s).2.file
      (edits ++ [edit]) := by
  obtain ⟨p, hp, hfile⟩ := @commit_file _ n s edits edit io header staged h hst hpr (fields_le_of_fits hfit) hfit
  have hvalid := (VersionEdit.prepare_ok hpr).1
  rw [h.fileLength_eq] at hfit
  rw [hfile, h.file, Option.getD_some]
  by_cases hlt : p.length < edit.record.flatten.length
  · refine .inl ?_
    rw [List.append_assoc]
    exact .edits h.fit (.inr ⟨edit, hvalid, hfit, hp, hlt⟩)
  · refine .inr ?_
    have hwhole : p = edit.record.flatten := hp.eq_of_length_le (Nat.not_lt.mp hlt)
    have hbytes : editsBytes edits ++ p = editsBytes (edits ++ [edit]) ++ [] := by
      rw [hwhole, editsBytes_append, List.append_nil]
      simp [editsBytes]
    rw [List.append_assoc, hbytes]
    exact .edits (editsFit_append.mpr ⟨h.fit, hvalid, hfit, trivial⟩) (.inl rfl)

end

/-! ## Refused commits -/

section

variable {n : Nat} {s : ManifestState} {edits : List VersionEdit} {edit : VersionEdit} {io : ManifestFaults}
    {e : Status}

/-- An edit that the version does not take is refused before the append. -/
theorem commit_unstaged (h : Recorded n s edits) (hst : stageApply s.levels s.manifest.counters edit = .error e) :
    Manifest.commit io edit s = (.err e, s) := by
  rw [Manifest.commit, bind_ok (get_apply s), bind_ok (by rw [ensure_apply, h.unpoisoned]; rfl),
    bind_ok (by rw [ensure_apply, h.writable]; rfl), hst]
  rfl

theorem commit_unprepared (h : Recorded n s edits) {staged : LevelManager × StagedCounters}
    (hst : stageApply s.levels s.manifest.counters edit = .ok staged) (hpr : edit.prepare = .error e) :
    Manifest.commit io edit s = (.err e, s) := by
  rw [Manifest.commit, bind_ok (get_apply s), bind_ok (by rw [ensure_apply, h.unpoisoned]; rfl),
    bind_ok (by rw [ensure_apply, h.writable]; rfl), hst, bind_ok (lift_ok _ s), hpr]
  rfl

end

omit [Zlib] in
/-- A field that is too long for a block is refused. -/
theorem writeField_refuses {blockSize : Nat} {d : List UInt8} (hlong : blockSize < d.length) (w : Writer Status) :
    ∃ e w', writeField d blockSize w = (.err e, w') := by
  have hcheck : ∀ (c : Bool) (e : Status) (k : Unit → WriterM Status Unit), (∃ e' w', k () w = (.err e', w')) →
      ∃ e' w', (ensure c e >>= k) w = (.err e', w') := by
    intro c e k hk
    cases c with
    | true => exact hk
    | false => exact ⟨e, w, rfl⟩
  have hfits : ∃ e w', ensureFitsInBlock d.length blockSize w = (.err e, w') := by
    refine hcheck _ _ _ (hcheck _ _ _ ?_)
    rw [decide_eq_false (Nat.not_le.mpr hlong)]
    exact ⟨_, w, rfl⟩
  have hprepare : ∃ e w', prepareWrite d.length blockSize w = (.err e, w') := by
    refine hcheck _ _ _ ?_
    unfold checkWriterOffset
    rw [bind_apply, bind_ok (get_apply w), ensure_apply]
    split
    · next h =>
      split at h
      · cases h
        exact hfits
      · cases h
    · exact ⟨_, _, rfl⟩
    · next h =>
      split at h
      · cases h
      · cases h
  obtain ⟨e, w', h⟩ := hprepare
  exact ⟨e, w', bind_err h⟩

omit [Zlib] in
/-- Without a fault the fields are written or refused. -/
theorem writeFields_ends {blockSize : Nat} (hb : 0 < blockSize) (ds : List (List UInt8)) {w : Writer Status}
    (hw : w.Synced) (hroom : w.room = none) :
    (∃ w', writeFields blockSize ds w = (.ok (), w') ∧ w'.Synced ∧ w'.room = none) ∨
      ∃ e w', writeFields blockSize ds w = (.err e, w') := by
  by_cases hle : ∀ d ∈ ds, d.length ≤ blockSize
  · exact .inl ⟨_, (writeFields_isAppend hb hle).free hw hroom, hw.put _ _, rfl⟩
  · refine .inr ?_
    induction ds generalizing w with
    | nil => simp at hle
    | cons d ds ih =>
      by_cases hd : d.length ≤ blockSize
      · have hrest : ¬ ∀ d' ∈ ds, d'.length ≤ blockSize := fun hall =>
          hle (List.forall_mem_cons.mpr ⟨hd, hall⟩)
        have hone := (writeRawBytes_isAppend hb hd).free hw hroom
        obtain ⟨e, w', h⟩ := ih (hw.put _ _) rfl hrest
        exact ⟨e, w', (bind_ok hone).trans h⟩
      · obtain ⟨e, w', h⟩ := writeField_refuses (Nat.not_le.mp hd) w
        have hone : writeRawBytes d blockSize w = (.err e, w') := by
          rw [writeRawBytes, if_neg (List.ne_nil_of_length_pos (by omega))]
          exact h
        exact ⟨e, w', bind_err hone⟩

/-- Without a fault an edit is written or refused. -/
theorem write_ends {edit : VersionEdit} {header : EditHeader} (hpr : edit.prepare = .ok header) {w : Writer Status}
    (hw : w.Synced) (hroom : w.room = none) :
    (∃ w', edit.write w = (.ok (), w')) ∨ ∃ e w', edit.write w = (.err e, w') := by
  obtain ⟨hv, hps, -, -⟩ := VersionEdit.prepare_ok hpr
  have hb := manifestBlock_pos
  have hcheck : ∀ (c : Bool) (e : Status) (w : Writer Status),
      (∃ w', (ensure c e : WriterM Status Unit) w = (.ok (), w')) ∨
      ∃ e' w', (ensure c e : WriterM Status Unit) w = (.err e', w') := by
    intro c e w
    cases c with
    | true => exact .inl ⟨w, rfl⟩
    | false => exact .inr ⟨e, w, rfl⟩
  rw [VersionEdit.write, hpr, bind_ok (lift_ok _ _), bind_ok (get_apply _)]
  have hheader := writeFields_ends hb header.fields hw hroom
  rw [← VersionEdit.header_writes header w hw] at hheader
  rcases hheader with ⟨w₁, h₁, hw₁, hroom₁⟩ | ⟨e, w₁, h₁⟩
  · rw [bind_ok h₁]
    have hpayload := writeFields_ends hb edit.fields hw₁ hroom₁
    rw [← VersionEdit.payload_writes hv w₁ hw₁] at hpayload
    rw [bind_apply, VersionEdit.writePayload, hps, bind_ok (lift_ok _ _), bind_ok (get_apply _)]
    rcases hpayload with ⟨w₂, h₂, -, -⟩ | ⟨e, w₂, h₂⟩
    · rw [bind_ok h₂, bind_ok (get_apply _)]
      rcases hcheck (w₂.offset - w₁.offset == _) _ w₂ with ⟨w₃, h₃⟩ | ⟨e, w₃, h₃⟩
      · rw [h₃]
        exact hcheck _ _ w₃
      · rw [h₃]
        exact .inr ⟨e, w₃, rfl⟩
    · rw [bind_err h₂]
      exact .inr ⟨e, w₂, rfl⟩
  · rw [bind_err h₁]
    exact .inr ⟨e, w₁, rfl⟩

section

variable {n : Nat} {s : ManifestState} {edits : List VersionEdit} {edit : VersionEdit}

/-- **A commit that does not fit** is refused, also without a fault. -/
theorem commit_misfit {header : EditHeader} {staged : LevelManager × StagedCounters} (h : Recorded n s edits)
    (hst : stageApply s.levels s.manifest.counters edit = .ok staged) (hpr : edit.prepare = .ok header)
    (hmisfit : ¬ FitsAt MANIFEST_BLOCK_SIZE (fileLength s) edit.record) :
    ∃ e s', Manifest.commit {} edit s = (.err e, s') := by
  match hc : Manifest.commit {} edit s with
  | (.ok (), s') => exact absurd (fits_of_commit h hc) hmisfit
  | (.err e, s') => exact ⟨e, s', rfl⟩
  | (.crash, s') =>
    exfalso
    have hlen : (s.file.getD []).length = s.manifest.appendOffset := by
      rw [h.offset]
      exact h.fileLength_eq
    have hpos : checkPosition {} s = (.ok (), s) := by
      rw [checkPosition, bind_ok (get_apply s)]
      exact congrFun (if_neg (fun hne => hne hlen)) s
    have hsync : (Manifest.editWriter {} s).Synced := hlen.symm
    have happend : Manifest.appendPrepared {} edit s = orElse (runWriter {} edit.write) failPoisoned s := by
      rw [Manifest.appendPrepared, bind_ok (get_apply s), bind_ok (by rw [ensure_apply, h.unpoisoned]; rfl),
        bind_ok (by rw [ensure_apply, h.writable]; rfl), bind_ok hpos]
    have hrun : runWriter {} edit.write s =
        ((edit.write (Manifest.editWriter {} s)).1, Manifest.appended s
          (edit.write (Manifest.editWriter {} s)).2) := rfl
    rw [Manifest.commit, bind_ok (get_apply s), bind_ok (by rw [ensure_apply, h.unpoisoned]; rfl),
      bind_ok (by rw [ensure_apply, h.writable]; rfl), hst, bind_ok (lift_ok _ s), hpr, bind_ok (lift_ok _ s),
      bind_apply, happend, orElse, hrun] at hc
    rcases write_ends hpr hsync rfl with ⟨w', hw'⟩ | ⟨e, w', hw'⟩
    · rw [hw'] at hc
      cases hc
    · rw [hw'] at hc
      cases hc

end

end Kvdb
