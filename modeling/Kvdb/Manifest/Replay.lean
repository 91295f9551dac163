import Kvdb.Manifest.Encoding
import Kvdb.Manifest.FailStop
import Kvdb.Manifest.Staging

/-!
# Replay of a manifest file

A run commits edits and allocates table ids on a manifest made by
`open_or_create`.  `Recorded n s edits` is its invariant: the file is the header
and the records of `edits` without a gap, and replaying them from the default
counters gives the live levels and log counters, and a table counter that is not
above the live one.  `loadLoop_edits` reads any prefix of such a file.

    openOrCreate ok → run steps → load (file.take cut) = the state after the last whole edit
-/

namespace Kvdb

open Faulty Bytes

/-! ## Replaying edits -/

/-- The edits staged one after the other. -/
def replayFrom (start : LevelManager × StagedCounters) (edits : List VersionEdit) :
    Except Status (LevelManager × StagedCounters) :=
  edits.foldlM (fun v e => stageApply v.1 v.2 e) start

/-- Recovery's start: empty levels and the default counters. -/
def replay (levelCount : Nat) (edits : List VersionEdit) : Except Status (LevelManager × StagedCounters) :=
  replayFrom (LevelManager.init levelCount, {}) edits

theorem replayFrom_append {start mid : LevelManager × StagedCounters} {es fs : List VersionEdit}
    (h : replayFrom start es = .ok mid) : replayFrom start (es ++ fs) = replayFrom mid fs := by
  unfold replayFrom at *
  rw [List.foldlM_append, h, ok_bind]

theorem replayFrom_inv {start fin : LevelManager × StagedCounters} {edits : List VersionEdit}
    (hstart : ManifestInv start.1 start.2) (h : replayFrom start edits = .ok fin) :
    ManifestInv fin.1 fin.2 ∧ start.2.nextTableId.toNat ≤ fin.2.nextTableId.toNat ∧
      ∀ e ∈ edits, ∀ id ∈ e.tableIds, id.toNat < fin.2.nextTableId.toNat := by
  induction edits generalizing start with
  | nil =>
    cases h
    exact ⟨hstart, Nat.le_refl _, by simp⟩
  | cons e es ih =>
    rw [replayFrom, List.foldlM_cons] at h
    obtain ⟨mid, h1, h2⟩ := except_bind_ok h
    have hst := stageApply_ok_iff.mp h1
    obtain ⟨hinv, hle, hids⟩ := ih hst.inv h2
    have hstep := (stageTableId_ok hst.nextTableId).1
    refine ⟨hinv, by omega, ?_⟩
    intro e' he' id hid
    rcases List.mem_cons.mp he' with rfl | he'
    · have := hst.ids_lt (fun level t ht => ((hstart.levels level).mem ht).2.2.1) id hid
      omega
    · exact hids e' he' id hid

section

variable [Zlib]

/-! ## The file -/

/-- The records of the edits, one directly behind the other. -/
def editsBytes (edits : List VersionEdit) : List UInt8 := edits.flatMap fun e => e.record.flatten

/-- All fields of a file header. -/
def ManifestHeader.fields (h : ManifestHeader) : List (List UInt8) :=
  [u32Bytes h.magic, u32Bytes h.version, u32Bytes h.headerSize, u32Bytes h.flags, u32Bytes h.reserved,
    u32Bytes h.crc32]

/-- The bytes of a new manifest file. -/
def manifestHeaderBytes : List UInt8 := ManifestHeader.create.fields.flatten

/-- Every edit is valid and none of its fields crosses a block edge. -/
def EditsFit : Nat → List VersionEdit → Prop
  | _, [] => True
  | off, e :: es =>
    e.Valid ∧ FitsAt MANIFEST_BLOCK_SIZE off e.record ∧ EditsFit (off + e.record.flatten.length) es

theorem editsBytes_cons (e : VersionEdit) (es : List VersionEdit) :
    editsBytes (e :: es) = e.record.flatten ++ editsBytes es := List.flatMap_cons

theorem editsBytes_append (es fs : List VersionEdit) : editsBytes (es ++ fs) = editsBytes es ++ editsBytes fs :=
  List.flatMap_append

theorem editsFit_append {off : Nat} {es fs : List VersionEdit} :
    EditsFit off (es ++ fs) ↔ EditsFit off es ∧ EditsFit (off + (editsBytes es).length) fs := by
  induction es generalizing off with
  | nil => simp [EditsFit, editsBytes]
  | cons e es ih =>
    rw [List.cons_append, EditsFit, EditsFit, ih, editsBytes_cons, List.length_append, Nat.add_assoc]
    tauto

omit [Zlib] in
theorem length_header (h : ManifestHeader) : h.fields.flatten.length = ManifestHeader.diskSize := by
  simp [ManifestHeader.fields, ManifestHeader.diskSize]

theorem length_manifestHeaderBytes : manifestHeaderBytes.length = ManifestHeader.diskSize := length_header _

omit [Zlib] in
theorem header_fits (h : ManifestHeader) : FitsAt MANIFEST_BLOCK_SIZE 0 h.fields := by
  simp [FitsAt, ManifestHeader.fields, MANIFEST_BLOCK_SIZE]

omit [Zlib] in
theorem manifestHeader_writes (h : ManifestHeader) : WritesFields MANIFEST_BLOCK_SIZE h.write h.fields := by
  have hb := manifestBlock_pos
  exact VersionEdit.writesCheck.bind hb ((VersionEdit.writesU32 _).bind hb ((VersionEdit.writesU32 _).bind hb
    ((VersionEdit.writesU32 _).bind hb ((VersionEdit.writesU32 _).bind hb ((VersionEdit.writesU32 _).bind hb
    (VersionEdit.writesU32 _))))))

omit [Zlib] in
/-- A header is written without padding at the start of an empty file. -/
theorem header_write_ok {h : ManifestHeader} {w w' : Writer Status} (hw : w.Synced) (h0 : w.bytes = [])
    (hok : h.write w = (.ok (), w')) : w'.bytes = h.fields.flatten ∧ w'.Synced := by
  have hb := manifestBlock_pos
  rw [manifestHeader_writes h w hw] at hok
  have hle := writeFields_ok_le hb hw hok
  have hsync := writeFields_synced hb h.fields hw
  rw [hok] at hsync
  rw [writeFields_isAppend hb hle w hw] at hok
  have hoff : w.offset = 0 := by rw [hw, h0]; rfl
  have hbytes : w'.bytes = w.bytes ++ encodeFields MANIFEST_BLOCK_SIZE w.offset h.fields := append_ok_bytes hok
  rw [hoff, encodeFields_of_fits (header_fits h), h0, List.nil_append] at hbytes
  exact ⟨hbytes, hsync⟩

theorem manifestHeader_reads {h : ManifestHeader} (hm : h.magic = MANIFEST_MAGIC)
    (hv : h.version = MANIFEST_VERSION) (hs : h.headerSize.toNat = ManifestHeader.diskSize) (hf : h.flags = 0)
    (hr : h.reserved = 0) (hc : h.computeCrc32 = h.crc32) :
    ReadsFields MANIFEST_BLOCK_SIZE ManifestHeader.load h.fields h := by
  refine (manU32 h.magic).cons (.guard (beq_iff_eq.mpr hm) ?_)
  refine (manU32 h.version).cons (.guard (beq_iff_eq.mpr hv) ?_)
  refine (manU32 h.headerSize).cons (.guard (beq_iff_eq.mpr hs) ?_)
  refine (manU32 h.flags).cons ((manU32 h.reserved).cons (.guard (by rw [hf, hr]; rfl) ?_))
  exact (manU32 h.crc32).cons (.guard (beq_iff_eq.mpr hc) (readsFields_pure h))

/-- The header of a manifest file is read back. -/
theorem header_load {file : ReadableFile} (hf : file.Sound) (hat : At file.bytes 0 manifestHeaderBytes) :
    ManifestHeader.load file 0 = .ok (ManifestHeader.create, ManifestHeader.diskSize) := by
  have hcrc : ManifestHeader.create.computeCrc32 = ManifestHeader.create.crc32 := by
    simp only [ManifestHeader.create, ManifestHeader.computeCrc32, ManifestHeader.checkedFields]
  have hreads := manifestHeader_reads (h := ManifestHeader.create) rfl rfl rfl rfl rfl hcrc
  have h := hreads file 0 hf (header_fits _) hat
  rw [Nat.zero_add, length_header] at h
  exact h

/-! ## The loop -/

/-- **The loop of `load`.**  From the end of some edits on, a file that is cut anywhere gives the
edits that are whole, and a recoverable tail when something is left behind them. -/
theorem loadLoop_edits {file : ReadableFile} (hf : file.Sound) {edits : List VersionEdit} {off : Nat}
    (fuel : Nat) {lm : LevelManager} {c : StagedCounters} {fin : LevelManager × StagedCounters}
    (hfit : EditsFit off edits) (hle : off ≤ file.bytes.length)
    (hpre : file.bytes.drop off <+: editsBytes edits) (hreplay : replayFrom (lm, c) edits = .ok fin)
    (hfuel : file.bytes.length - off < fuel) :
    ∃ whole rest v, edits = whole ++ rest ∧ replayFrom (lm, c) whole = .ok v ∧
      off + (editsBytes whole).length ≤ file.bytes.length ∧
      (∀ e es, rest = e :: es → file.bytes.length < off + (editsBytes whole).length + e.record.flatten.length) ∧
      Manifest.loadLoop file file.bytes.length fuel off lm c =
        .ok ⟨off + (editsBytes whole).length, decide (off + (editsBytes whole).length ≠ file.bytes.length),
          v.1, v.2⟩ := by
  induction edits generalizing fuel off lm c with
  | nil =>
    have hend : file.bytes.length = off := by
      have hlen := hpre.length_le
      rw [List.length_drop] at hlen
      have h0 : (editsBytes []).length = 0 := rfl
      omega
    cases fuel with
    | zero => omega
    | succ fuel =>
      refine ⟨[], [], (lm, c), rfl, rfl, by simpa [editsBytes] using hle, by simp, ?_⟩
      rw [Manifest.loadLoop, if_pos (by omega)]
      simp [editsBytes, hend]
  | cons e es ih =>
    obtain ⟨hv, hfe, hfes⟩ := hfit
    have hpos := List.length_pos_iff.mpr (VersionEdit.record_ne_nil e)
    rw [editsBytes_cons] at hpre
    cases fuel with
    | zero => omega
    | succ fuel =>
      rw [Manifest.loadLoop]
      by_cases hend : file.bytes.length ≤ off
      · have heq : off = file.bytes.length := by omega
        refine ⟨[], e :: es, (lm, c), rfl, rfl, hle, ?_, ?_⟩
        · intro e' es' h
          cases h
          simp only [editsBytes, List.flatMap_nil, List.length_nil]
          omega
        · rw [if_pos hend]
          simp [editsBytes, ← heq]
      · rw [if_neg hend]
        by_cases hcut : file.bytes.length < off + e.record.flatten.length
        · -- the cut is inside this edit
          have hpre' : file.bytes.drop off <+: e.record.flatten := by
            refine List.prefix_of_prefix_length_le hpre (List.prefix_append _ _) ?_
            rw [List.length_drop]
            omega
          obtain ⟨message, hload⟩ := VersionEdit.load_cut hv hf hfe hle hpre' hcut
          refine ⟨[], e :: es, (lm, c), rfl, rfl, hle, ?_, ?_⟩
          · intro e' es' h
            cases h
            exact hcut
          · rw [hload]
            have hne : off ≠ file.bytes.length := by omega
            simp [editsBytes, hne]
        · have hat : At file.bytes off e.record.flatten := by
            refine List.prefix_of_prefix_length_le (List.prefix_append _ _) hpre ?_
            rw [List.length_drop]
            omega
          have hload := VersionEdit.load_record hv hf hfe hat
          rw [replayFrom, List.foldlM_cons] at hreplay
          obtain ⟨mid, hst, hrest⟩ := except_bind_ok hreplay
          have hdrop : file.bytes.drop (off + e.record.flatten.length) <+: editsBytes es := by
            rw [← List.drop_drop]
            have h := hpre.drop e.record.flatten.length
            rwa [List.drop_left] at h
          obtain ⟨whole, rest, v, rfl, hwhole, hwle, hnext, hloop⟩ :=
            ih fuel hfes (by omega) hdrop hrest (by omega)
          have hlen : (editsBytes (e :: whole)).length = e.record.flatten.length + (editsBytes whole).length := by
            rw [editsBytes_cons, List.length_append]
          refine ⟨e :: whole, rest, v, rfl, ?_, ?_, ?_, ?_⟩
          · rw [replayFrom, List.foldlM_cons, hst]
            exact hwhole
          · rw [hlen]
            omega
          · intro e' es' h
            have := hnext e' es' h
            rw [hlen]
            omega
          · rw [hload]
            simp only [hst]
            rw [hloop, hlen, Nat.add_assoc]

end

end Kvdb
