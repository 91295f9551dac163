import Kvdb.Engine.Opening
import Kvdb.Manifest.Recovery

/-!
# Crashes in open

A directory that has seen nothing but `Engine::open`, each run cut by the loss of
the process anywhere, on the bytes of the manifest (`byteStore`).  `Left` lists
what such a directory can look like:

* a manifest that is missing or empty, and no log;
* a manifest cut inside its header, or a first log cut inside its header;
* the header and the edits of `k` opens, the start of one more edit, and the log
  that they select (`Settled`).

The next open takes the first and the last of them, up to the block edge that the
edit of open 342 would cross.  It refuses the two headers.
-/

namespace Kvdb

open Faulty Bytes

variable [Zlib]

/-! ## The manifest of opens -/

/-- The log that a manifest with the edits of `k` opens selects. -/
def openWalId (k : Nat) : UInt32 := UInt32.ofNat (k + 1)

/-- The edit of one more open. -/
def openEdit (k : Nat) : VersionEdit := walEdit (openWalId (k + 1)) 1

def openEdits (k : Nat) : List VersionEdit := (List.range k).map openEdit

def manifestBytes (k : Nat) : List UInt8 := manifestHeaderBytes ++ editsBytes (openEdits k)

/-- The edit of open 342 would cross the edge of the third block. -/
def openLimit : Nat := 340

omit [Zlib] in
theorem openWalId_toNat {k : Nat} (hk : k ≤ openLimit) : (openWalId k).toNat = k + 1 := by
  unfold openLimit at hk
  rw [openWalId, UInt32.toNat_ofNat']
  exact Nat.mod_eq_of_lt (by omega)

omit [Zlib] in
theorem openWalId_succ {k : Nat} (hk : k < openLimit) : openWalId k + 1 = openWalId (k + 1) := by
  apply UInt32.toNat_inj.mp
  have h1 := openWalId_toNat (k := k) (Nat.le_of_lt hk)
  have h2 := openWalId_toNat (k := k + 1) hk
  unfold openLimit at hk
  rw [UInt32.toNat_add, h1, h2, UInt32.toNat_one]
  omega

omit [Zlib] in
theorem openWalId_ne {k : Nat} (hk : k ≤ openLimit) : openWalId k ≠ 0 := by
  intro h0
  have h := openWalId_toNat hk
  rw [h0] at h
  cases h

omit [Zlib] in
theorem openEdits_succ (k : Nat) : openEdits (k + 1) = openEdits k ++ [openEdit k] := by
  unfold openEdits
  rw [List.range_succ, List.map_append]
  rfl

theorem length_openRecord (k : Nat) : (openEdit k).record.flatten.length = 36 := by
  rw [VersionEdit.length_record]
  simp [VersionEdit.fields, VersionEdit.counterFields, VersionEdit.countFields, VersionEdit.optFields, openEdit,
    walEdit,
    EditHeader.diskSize]

theorem length_openEdits (k : Nat) : (editsBytes (openEdits k)).length = 36 * k := by
  induction k with
  | zero => rfl
  | succ k ih =>
    rw [openEdits_succ, editsBytes_append, List.length_append, ih]
    have hone : editsBytes [openEdit k] = (openEdit k).record.flatten := by simp [editsBytes]
    rw [hone, length_openRecord]
    omega

theorem length_manifestBytes (k : Nat) : (manifestBytes k).length = 24 + 36 * k := by
  rw [manifestBytes, List.length_append, length_manifestHeaderBytes, length_openEdits]
  rfl

theorem manifestBytes_succ (k : Nat) : manifestBytes (k + 1) = manifestBytes k ++ (openEdit k).record.flatten := by
  unfold manifestBytes
  rw [openEdits_succ, editsBytes_append, List.append_assoc]
  simp [editsBytes]

omit [Zlib] in
/-- The seven fields of an edit of an open stay inside their blocks. -/
theorem open_fields_room : ∀ k < openLimit, ∀ p ∈ [(0, 4), (4, 4), (8, 4), (12, 8), (20, 8), (28, 4), (32, 4)],
    p.2 ≤ MANIFEST_BLOCK_SIZE - (24 + 36 * k + p.1) % MANIFEST_BLOCK_SIZE := by
  decide +kernel

theorem openEdit_fits {k : Nat} (hk : k < openLimit) :
    FitsAt MANIFEST_BLOCK_SIZE (24 + 36 * k) (openEdit k).record := by
  have hroom := open_fields_room k hk
  simp only [List.mem_cons, List.not_mem_nil, or_false, forall_eq_or_imp, forall_eq, Nat.add_zero] at hroom
  obtain ⟨h0, h1, h2, h3, h4, h5, h6⟩ := hroom
  simp only [VersionEdit.record, EditHeader.fields, VersionEdit.fields, VersionEdit.counterFields,
    VersionEdit.countFields, VersionEdit.optFields, openEdit, walEdit, List.cons_append, List.nil_append,
    List.flatMap_nil, FitsAt, length_u32Bytes, length_u64Bytes, and_true, Nat.add_assoc, Nat.reduceAdd]
  exact ⟨.inr h0, .inr h1, .inr h2, .inr h3, .inr h4, .inr h5, .inr h6⟩

omit [Zlib] in
theorem openEdit_small (k : Nat) : SmallTables (openEdit k) := by
  intro t ht
  cases ht

theorem openEdit_prepare {k : Nat} (hk : k < openLimit) : ∃ header, (openEdit k).prepare = .ok header :=
  walEdit_prepare (openWalId_ne hk) (by decide)

/-- The counters after `k` opens. -/
def openCounters (k : Nat) : StagedCounters := ⟨1, (openWalId k).toUInt64, 1⟩

omit [Zlib] in
theorem catalog_opens (n : Nat) {k : Nat} (hk : k ≤ openLimit) : Catalog (LevelManager.init n) (openCounters k) := by
  have hone : (1 : UInt64) ≠ 0 := by decide
  refine catalog_of_structured (structured_init n) ⟨hone, ?_, hone, fun level => ?_⟩
  · intro h0
    apply openWalId_ne hk
    have h := congrArg UInt64.toNat h0
    rw [openCounters, UInt32.toNat_toUInt64] at h
    exact UInt32.toNat_inj.mp h
  · rw [LevelManager.tables_init]
    trivial

omit [Zlib] in
theorem openEdit_staged (n : Nat) {k : Nat} (hk : k < openLimit) :
    stageApply (LevelManager.init n) (openCounters k) (openEdit k) =
      .ok (LevelManager.init n, openCounters (k + 1)) := by
  have hle : (openWalId k).toNat ≤ (openWalId (k + 1)).toNat := by
    rw [openWalId_toNat (Nat.le_of_lt hk), openWalId_toNat hk]
    omega
  refine walEdit_staged (catalog_opens n (Nat.le_of_lt hk)) ?_ (openWalId_ne hk) (Nat.le_refl _) (by decide)
  rw [openCounters, UInt32.toNat_toUInt64]
  exact hle

omit [Zlib] in
theorem replay_openEdits (n : Nat) {k : Nat} (hk : k ≤ openLimit) :
    replay n (openEdits k) = .ok (LevelManager.init n, openCounters k) := by
  induction k with
  | zero => rfl
  | succ k ih =>
    have hrep := ih (Nat.le_of_succ_le hk)
    rw [openEdits_succ, replay, replayFrom_append hrep, replayFrom, List.foldlM_cons, openEdit_staged n hk, ok_bind]
    rfl

theorem openEdits_fit {k : Nat} (hk : k ≤ openLimit) : EditsFit ManifestHeader.diskSize (openEdits k) := by
  induction k with
  | zero => trivial
  | succ k ih =>
    rw [openEdits_succ, editsFit_append]
    obtain ⟨header, hp⟩ := openEdit_prepare hk
    refine ⟨ih (Nat.le_of_succ_le hk), (VersionEdit.prepare_ok hp).1, ?_, trivial⟩
    rw [length_openEdits]
    exact openEdit_fits hk

/-- The manifest object of an engine that opened on `k` edits. -/
def openObject (k : Nat) : Manifest :=
  { path := ByteStore.PATH, counters := openCounters k, writable := true, appendOffset := 24 + 36 * k }

theorem recorded_opens (n : Nat) {k : Nat} (hk : k ≤ openLimit) :
    Recorded n ⟨openObject k, some (manifestBytes k), LevelManager.init n⟩ (openEdits k) where
  file := rfl
  fit := openEdits_fit hk
  replayed := ⟨1, replay_openEdits n hk, Nat.le_refl _⟩
  offset := by rw [length_openEdits]; rfl
  writable := rfl
  unpoisoned := rfl

/-! ## What a lost process leaves of the manifest -/

/-- The edits of `k` opens and the start of one more. -/
def TornManifest (k : Nat) (b : List UInt8) : Prop :=
  ∃ t, t <+: (openEdit k).record.flatten ∧ t.length < 36 ∧ b = manifestBytes k ++ t

theorem torn_manifestBytes (k : Nat) : TornManifest k (manifestBytes k) := ⟨[], List.nil_prefix, by decide, by simp⟩

/-- A prefix of the next edit is a torn edit or the whole of it. -/
theorem torn_of_prefix {k : Nat} {t : List UInt8} (ht : t <+: (openEdit k).record.flatten) :
    TornManifest k (manifestBytes k ++ t) ∨ manifestBytes k ++ t = manifestBytes (k + 1) := by
  by_cases hlt : t.length < 36
  · exact .inl ⟨t, ht, hlt, rfl⟩
  · have hwhole : t = (openEdit k).record.flatten := ht.eq_of_length_le (by rw [length_openRecord]; omega)
    exact .inr (by rw [hwhole, manifestBytes_succ])

omit [Zlib] in
/-- The whole edits of a file are those of the first opens. -/
theorem openEdits_prefix {k : Nat} {es fs : List VersionEdit} (h : openEdits k = es ++ fs) :
    es = openEdits es.length := by
  have hlen := congrArg List.length h
  rw [List.length_append, openEdits, List.length_map, List.length_range] at hlen
  have htake : es = (openEdits k).take es.length := by rw [h, List.take_left]
  rw [openEdits, ← List.map_take, List.take_range, Nat.min_eq_left (by omega)] at htake
  exact htake

theorem load_torn (n : Nat) {k : Nat} (hk : k < openLimit) {b : List UInt8} (hb : TornManifest k b) {lm : LevelManager}
    (hlm : lm.levelCount = n) :
    Manifest.load ByteStore.PATH (.ok (ReadableFile.ofBytes b ByteStore.PATH)) lm =
      (.ok (recoveredManifest ByteStore.PATH (openCounters k) (24 + 36 * k) b.length), LevelManager.init n) := by
  obtain ⟨t, ht, hlt, rfl⟩ := hb
  have hrec := recorded_opens n (k := k + 1) hk
  have hlen : (manifestBytes k ++ t).length = 24 + 36 * k + t.length := by
    rw [List.length_append, length_manifestBytes]
  have htake : (manifestBytes (k + 1)).take (manifestBytes k ++ t).length = manifestBytes k ++ t := by
    rw [manifestBytes_succ, List.length_append, List.take_length_add_append, ← List.prefix_iff_eq_take.mp ht]
  have hcut : ManifestHeader.diskSize ≤ (manifestBytes k ++ t).length := by
    have hdisk : ManifestHeader.diskSize = 24 := rfl
    omega
  have hle : (manifestBytes k ++ t).length ≤ (manifestBytes (k + 1)).length := by
    rw [length_manifestBytes, hlen]
    omega
  obtain ⟨whole, rest, v, hsplit, hv, hwle, hnext, hload⟩ := load_recorded ByteStore.PATH hrec hcut hle hlm
  -- the edits that are whole are exactly the first `k`
  have hopens := openEdits_prefix hsplit
  rw [hopens, length_openEdits, hlen] at hwle hnext
  have hcount : whole.length = k := by
    have htotal := congrArg List.length hsplit
    rw [List.length_append, openEdits, List.length_map, List.length_range] at htotal
    have hdisk : ManifestHeader.diskSize = 24 := rfl
    by_cases hlast : whole.length = k + 1
    · omega
    · obtain ⟨e, es, hrest⟩ := List.exists_cons_of_length_pos (l := rest) (by omega)
      have hlt' := hnext e es hrest
      have he : e ∈ openEdits (k + 1) := by
        rw [hsplit, hrest]
        simp
      obtain ⟨i, -, rfl⟩ := List.mem_map.mp he
      rw [length_openRecord] at hlt'
      omega
  rw [hcount] at hopens
  subst hopens
  rw [replay_openEdits n (Nat.le_of_lt hk)] at hv
  cases hv
  rw [length_openEdits] at hload
  have hfile : (some (manifestBytes (k + 1))).getD [] = manifestBytes (k + 1) := rfl
  rw [hfile, htake] at hload
  exact hload

/-- The header of a new manifest is one append. -/
theorem header_write_append {w : Writer Status} (hw : w.Synced) (h0 : w.bytes = []) :
    ManifestHeader.create.write w = append manifestHeaderBytes w := by
  have hoff : w.offset = 0 := by rw [hw, h0]; rfl
  rw [manifestHeader_writes _ w hw]
  refine writeFields_of_fits manifestBlock_pos ?_ hw (by rw [hoff]; exact header_fits _)
  intro d hd
  simp only [ManifestHeader.fields, List.mem_cons, List.not_mem_nil, or_false] at hd
  have h4 : 4 ≤ MANIFEST_BLOCK_SIZE := by decide
  rcases hd with rfl | rfl | rfl | rfl | rfl | rfl <;> rw [length_u32Bytes] <;> exact h4

/-- The state that `open_or_create` hands to the header's writer. -/
def blankManifest (n : Nat) (file : Option (List UInt8)) : ManifestState :=
  ⟨{ path := ByteStore.PATH, writable := true }, some (file.getD []), LevelManager.init n⟩

theorem openOrCreate_eq (n : Nat) {file : Option (List UInt8)} (hfile : file.getD [] = []) {io : ManifestFaults}
    (hio : io.access = none) :
    Manifest.openOrCreate io ⟨{ path := ByteStore.PATH }, file, LevelManager.init n⟩ =
      (orElse (runWriter io ManifestHeader.create.write) failPoisoned >>= fun _ => syncOrPoison io.sync)
        (blankManifest n file) := by
  have hpath : (ByteStore.PATH != "") = true := by decide
  rw [Manifest.openOrCreate, bind_ok (get_apply _), bind_ok (by rw [ensure_apply]; exact if_pos hpath), hio,
    bind_ok (failOn_none _), bind_ok (by rw [ensure_apply]; exact if_pos (by rw [hfile]; rfl)),
    bind_ok (modify_apply _ _)]
  rfl

theorem runWriter_header (n : Nat) {file : Option (List UInt8)} (hfile : file.getD [] = []) {io : ManifestFaults}
    {w : Writer Status} (hw : w = ⟨file.getD [], 0, io.write.map fun n => ⟨n, false⟩, io.writeError⟩) :
    runWriter io ManifestHeader.create.write (blankManifest n file) =
      ((append manifestHeaderBytes w).1, Manifest.appended (blankManifest n file)
        (append manifestHeaderBytes w).2) := by
  have hsync : w.Synced := by
    rw [hw, hfile]
    rfl
  have hbytes : w.bytes = [] := by
    rw [hw]
    exact hfile
  rw [← header_write_append hsync hbytes, hw]
  rfl

/-- Whatever the fault, a new manifest is a prefix of its header. -/
theorem openOrCreate_file (n : Nat) {file : Option (List UInt8)} (hfile : file.getD [] = []) {io : ManifestFaults}
    (hio : io.access = none) :
    ∃ p, p <+: manifestHeaderBytes ∧
      (Manifest.openOrCreate io ⟨{ path := ByteStore.PATH }, file, LevelManager.init n⟩).2.file = some p := by
  rw [openOrCreate_eq n hfile hio]
  generalize hw : (⟨file.getD [], 0, io.write.map fun n => ⟨n, false⟩, io.writeError⟩ : Writer Status) = w
  have hbytes : w.bytes = [] := by
    rw [← hw]
    exact hfile
  obtain ⟨p, hp, hb⟩ := append_prefix manifestHeaderBytes w
  rw [hbytes, List.nil_append] at hb
  refine ⟨p, hp, ?_⟩
  rw [bind_apply, orElse, runWriter_header n hfile hw.symm]
  generalize append manifestHeaderBytes w = res at hb ⊢
  obtain ⟨r, w'⟩ := res
  cases r with
  | err e => exact congrArg some hb
  | crash => exact congrArg some hb
  | ok u =>
    dsimp only
    cases io.sync with
    | none => exact congrArg some hb
    | some e => exact congrArg some hb

theorem openOrCreate_ok (n : Nat) {file : Option (List UInt8)} (hfile : file.getD [] = []) :
    Manifest.openOrCreate {} ⟨{ path := ByteStore.PATH }, file, LevelManager.init n⟩ =
      (.ok (), ⟨openObject 0, some (manifestBytes 0), LevelManager.init n⟩) := by
  have hbytes : [] ++ manifestHeaderBytes = manifestBytes 0 := by
    have hnone : editsBytes (openEdits 0) = [] := rfl
    rw [manifestBytes, hnone, List.append_nil, List.nil_append]
  have hlen : 0 + manifestHeaderBytes.length = 24 + 36 * 0 := by
    rw [length_manifestHeaderBytes]
    rfl
  have hcounters : openCounters 0 = {} := by decide
  rw [openOrCreate_eq n hfile rfl, bind_apply, orElse, runWriter_header n hfile rfl, append_free rfl, hfile]
  simp only [Manifest.appended, blankManifest, Writer.put_bytes, Writer.put_offset, hbytes, hlen, openObject, hcounters]
  rfl

/-! ## Opening the manifest -/

section

variable {k : Nat} {b : List UInt8} {file : Option (List UInt8)}

theorem take_torn (hb : TornManifest k b) : b.take (24 + 36 * k) = manifestBytes k := by
  obtain ⟨t, -, -, rfl⟩ := hb
  rw [← length_manifestBytes, List.take_left]

theorem recover_torn (n : Nat) (hk : k < openLimit) (hb : TornManifest k b) :
    ByteStore.recover n .none b = (.ok (openObject k, LevelManager.init n, openCounters k),
      some (manifestBytes k)) := by
  have hlm : (LevelManager.init n).levelCount = n := by simp [LevelManager.init, LevelManager.levelCount]
  have hle : 24 + 36 * k ≤ b.length := by
    obtain ⟨t, -, -, rfl⟩ := hb
    rw [List.length_append, length_manifestBytes]
    omega
  have hattach : ByteStore.attach .none
      ⟨recoveredManifest ByteStore.PATH (openCounters k) (24 + 36 * k) b.length, some b, LevelManager.init n⟩ =
        (.ok (), resumed (recoveredManifest ByteStore.PATH (openCounters k) (24 + 36 * k) b.length) b
          (LevelManager.init n)) := resume_apply rfl hle rfl
  have htake : b.take (recoveredManifest ByteStore.PATH (openCounters k) (24 + 36 * k) b.length).appendOffset =
      manifestBytes k := take_torn hb
  unfold ByteStore.recover
  rw [load_torn n hk hb hlm]
  dsimp only
  rw [hattach, resumed, htake]
  rfl

theorem recover_crash (n : Nat) (hk : k < openLimit) (hb : TornManifest k b) (reached : Nat) :
    ∃ b', TornManifest k b' ∧ ByteStore.recover n (.crash reached) b = (.crash, some b') := by
  have hlm : (LevelManager.init n).levelCount = n := by simp [LevelManager.init, LevelManager.levelCount]
  have hle : 24 + 36 * k ≤ b.length := by
    obtain ⟨t, -, -, rfl⟩ := hb
    rw [List.length_append, length_manifestBytes]
    omega
  have hprep := @prepareForAppend_apply (recoveredManifest ByteStore.PATH (openCounters k) (24 + 36 * k) b.length) b
    (LevelManager.init n) rfl hle rfl
  have htake : b.take (recoveredManifest ByteStore.PATH (openCounters k) (24 + 36 * k) b.length).appendOffset =
      manifestBytes k := take_torn hb
  unfold ByteStore.recover
  rw [load_torn n hk hb hlm]
  unfold ByteStore.attach
  by_cases hr : reached = 0
  · exact ⟨b, hb, by simp only [if_pos hr]⟩
  · refine ⟨manifestBytes k, torn_manifestBytes k, ?_⟩
    simp only [if_neg hr, hprep, htake]

theorem create_empty (n : Nat) (hfile : file.getD [] = []) :
    ByteStore.create n .none .none file =
      (.ok (openObject 0, LevelManager.init n, openCounters 0), some (manifestBytes 0)) := by
  unfold ByteStore.create
  simp only [Fault.io, openOrCreate_ok n hfile, Fault.outcome]
  rfl

theorem create_crash (n : Nat) (hfile : file.getD [] = []) {access write : Fault} (ha : ∀ x s, access ≠ .err x s)
    (hw : ∀ x s, write ≠ .err x s) (hlost : access ≠ .none ∨ write ≠ .none) :
    ∃ file', file'.getD [] <+: manifestHeaderBytes ∧ ByteStore.create n access write file = (.crash, file') := by
  cases access with
  | err x s => exact absurd rfl (ha x s)
  | crash reached =>
    by_cases hr : reached = 0
    · exact ⟨file, by rw [hfile]; exact List.nil_prefix, by simp only [ByteStore.create, if_pos hr]⟩
    · refine ⟨some (file.getD []), ?_, by simp only [ByteStore.create, if_neg hr]⟩
      rw [Option.getD_some, hfile]
      exact List.nil_prefix
  | none =>
    cases write with
    | err x s => exact absurd rfl (hw x s)
    | none => exact absurd hlost (by simp)
    | crash reached =>
      obtain ⟨p, hp, hf⟩ := @openOrCreate_file _ n file hfile (Fault.io (.crash reached)) rfl
      refine ⟨some p, hp, ?_⟩
      unfold ByteStore.create
      dsimp only
      match hr : Manifest.openOrCreate (Fault.io (.crash reached)) ⟨{ path := ByteStore.PATH }, file,
        LevelManager.init n⟩ with
      | (.ok u, s) =>
        rw [hr] at hf
        exact Prod.ext rfl hf
      | (.err x, s) =>
        rw [hr] at hf
        exact Prod.ext rfl hf
      | (.crash, s) =>
        rw [hr] at hf
        exact Prod.ext rfl hf

end

/-! ## What opens leave in a directory -/

/-- Nothing is there yet. -/
structure Fresh (d : Disk (List UInt8)) : Prop where
  manifest : d.manifest.getD [] = []
  log : d.wals 1 = none

/-- The edits of `k` opens, the start of one more, and the log they select; the first log may be
missing. -/
structure Settled (k : Nat) (d : Disk (List UInt8)) : Prop where
  manifest : ∃ b, d.manifest = some b ∧ TornManifest k b
  log : (k = 0 ∧ d.wals 1 = none) ∨ ∃ b, d.wals (openWalId k) = some b ∧ Readable b (openWalId k) []

def HeaderTorn (d : Disk (List UInt8)) : Prop := ∃ b, d.manifest = some b ∧ 0 < b.length ∧ b.length < 24

def LogTorn (d : Disk (List UInt8)) : Prop := ∃ b, d.wals 1 = some b ∧ b.length < 40

def Left (d : Disk (List UInt8)) : Prop := Fresh d ∨ HeaderTorn d ∨ LogTorn d ∨ ∃ k ≤ openLimit, Settled k d

section

variable {P : Permits} {e : Engine Manifest} {d : Disk (List UInt8)} {k : Nat}

/-- The engine after `open_manifest`. -/
def loadedEngine (n k : Nat) (e : Engine Manifest) : Engine Manifest :=
  { e with manifest := some (openObject k), levels := LevelManager.init n, counters := openCounters k }

def Disk.withManifest (d : Disk (List UInt8)) (b : Option (List UInt8)) : Disk (List UInt8) := { d with manifest := b }

theorem Fresh.left (h : Fresh d) {file : Option (List UInt8)} (hp : file.getD [] <+: manifestHeaderBytes) :
    Left (d.withManifest file) := by
  have hlen := hp.length_le
  rw [length_manifestHeaderBytes] at hlen
  cases file with
  | none => exact .inl ⟨rfl, h.log⟩
  | some b =>
    rw [Option.getD_some] at hp hlen
    by_cases h0 : b.length = 0
    · exact .inl ⟨List.eq_nil_of_length_eq_zero h0, h.log⟩
    · by_cases h24 : b.length < 24
      · exact .inr (.inl ⟨b, rfl, by omega, h24⟩)
      · have hb : b = manifestBytes 0 := by
          have hnone : editsBytes (openEdits 0) = [] := rfl
          rw [manifestBytes, hnone, List.append_nil]
          refine hp.eq_of_length_le ?_
          rw [length_manifestHeaderBytes]
          exact Nat.not_lt.mp h24
        exact .inr (.inr (.inr ⟨0, by decide, ⟨b, rfl, hb ▸ torn_manifestBytes 0⟩, .inl ⟨rfl, h.log⟩⟩))

theorem Settled.withManifest (h : Settled k d) {b : List UInt8} (hb : TornManifest k b) :
    Settled k (d.withManifest (some b)) := ⟨⟨b, rfl, hb⟩, h.log⟩

theorem Settled.left (h : Settled k d) (hk : k ≤ openLimit) : Left d := .inr (.inr (.inr ⟨k, hk, h⟩))

/-- A directory that the next open takes. -/
def Takes (d : Disk (List UInt8)) : Prop := Fresh d ∨ ∃ k < openLimit, Settled k d

theorem openManifest_fresh (hq : Quiet P) (h : Fresh d) :
    Triple P Engine.openManifest e d
      (fun _ e' d' => e' = loadedEngine e.levels.levelCount 0 e ∧ d' = d.withManifest (some (manifestBytes 0)))
      (fun _ _ => False) (fun _ d' => Left d') := by
  intro f hf
  have hpop := (hf.pop e d .openManifest).pop e d .openHeader
  have hnoerr : ∀ site x s, World.fault ⟨e, d, f⟩ site ≠ .err x s := by
    intro site x s hfault
    exact hq site x s (hf.fault hfault (by simp))
  have hstore : ∀ access write, ManifestStore.openManifest e.levels.levelCount access write d.manifest =
      ByteStore.create e.levels.levelCount access write d.manifest := by
    intro access write
    have hm := h.manifest
    cases hd : d.manifest with
    | none => rfl
    | some b =>
      rw [hd, Option.getD_some] at hm
      exact if_pos hm
  unfold Engine.openManifest
  simp only [hstore]
  by_cases hnone : World.fault ⟨e, d, f⟩ .openManifest = .none ∧ World.fault ⟨e, d, f⟩ .openHeader = .none
  · rw [hnone.1, hnone.2, create_empty _ h.manifest]
    exact ⟨hpop, rfl, rfl⟩
  · obtain ⟨file, hp, hcreate⟩ := create_crash e.levels.levelCount h.manifest (hnoerr .openManifest)
      (hnoerr .openHeader) (by tauto)
    rw [hcreate]
    refine ⟨?_, h.left hp⟩
    by_cases hm : World.fault ⟨e, d, f⟩ .openManifest = .none
    · have hh : World.fault ⟨e, d, f⟩ .openHeader ≠ .none := fun hh => hnone ⟨hm, hh⟩
      cases hx : World.fault ⟨e, d, f⟩ .openHeader with
      | none => exact absurd hx hh
      | err x s => exact absurd hx (hnoerr _ x s)
      | crash x => exact ⟨_, x, hf.fault hx (by simp)⟩
    · cases hx : World.fault ⟨e, d, f⟩ .openManifest with
      | none => exact absurd hx hm
      | err x s => exact absurd hx (hnoerr _ x s)
      | crash x => exact ⟨_, x, hf.fault hx (by simp)⟩

theorem openManifest_settled (hq : Quiet P) (hk : k < openLimit) (h : Settled k d) :
    Triple P Engine.openManifest e d
      (fun _ e' d' => e' = loadedEngine e.levels.levelCount k e ∧ d' = d.withManifest (some (manifestBytes k)))
      (fun _ _ => False) (fun _ d' => Left d') := by
  intro f hf
  have hpop := (hf.pop e d .openManifest).pop e d .openHeader
  obtain ⟨b, hb, ht⟩ := h.manifest
  have hne : b ≠ [] := by
    rintro rfl
    obtain ⟨t, -, -, hnil⟩ := ht
    have hlen := congrArg List.length hnil
    rw [List.length_append, length_manifestBytes, List.length_nil] at hlen
    omega
  have hstore : ∀ access write, ManifestStore.openManifest e.levels.levelCount access write d.manifest =
      ByteStore.recover e.levels.levelCount access b := by
    intro access write
    rw [hb]
    exact if_neg hne
  unfold Engine.openManifest
  simp only [hstore]
  cases hfault : World.fault ⟨e, d, f⟩ .openManifest with
  | none =>
    rw [recover_torn _ hk ht]
    exact ⟨hpop, rfl, rfl⟩
  | err x s => exact absurd (hf.fault hfault (by simp)) (hq _ x s)
  | crash reached =>
    obtain ⟨b', ht', hrec⟩ := recover_crash e.levels.levelCount hk ht reached
    rw [hrec]
    exact ⟨⟨_, reached, hf.fault hfault (by simp)⟩, (h.withManifest ht').left (Nat.le_of_lt hk)⟩

/-! ## The log -/

theorem commit_open (hq : Quiet P) (hk : k < openLimit) {n : Nat} (hm : e.manifest = some (openObject k))
    (hl : e.levels = LevelManager.init n) (hc : e.counters = openCounters k)
    (hd : d.manifest = some (manifestBytes k)) :
    Triple P (commitManifest .openCommit (openEdit k)) e d
      (fun _ _ d' => d' = d.withManifest (some (manifestBytes (k + 1)))) (fun _ _ => False)
      (fun _ d' => ∃ p, p <+: (openEdit k).record.flatten ∧ d' = d.withManifest (some (manifestBytes k ++ p))) := by
  intro f hf
  have hpop := hf.pop e d .openCommit
  have hrec := recorded_opens n (Nat.le_of_lt hk)
  have hstate : ByteStore.stateOf ⟨d.manifest, openObject k, e.levels, e.counters⟩ =
      ⟨openObject k, some (manifestBytes k), LevelManager.init n⟩ := by
    rw [hd, hl, hc]
    rfl
  obtain ⟨header, hprep⟩ := openEdit_prepare hk
  have hfit : FitsAt MANIFEST_BLOCK_SIZE
      (fileLength ⟨openObject k, some (manifestBytes k), LevelManager.init n⟩) (openEdit k).record := by
    have hlen : fileLength ⟨openObject k, some (manifestBytes k), LevelManager.init n⟩ = 24 + 36 * k :=
      length_manifestBytes k
    rw [hlen]
    exact openEdit_fits hk
  have hle := fields_le (openEdit_small k)
  unfold commitManifest onManifest
  simp only [World.pop, hm, ManifestStore.commit, hstate]
  cases hfault : World.fault ⟨e, d, f⟩ .openCommit with
  | err x s => exact absurd (hf.fault hfault (by simp)) (hq _ x s)
  | none =>
    obtain ⟨s', hcommit, -, -⟩ := commit_of_fits hrec (openEdit_staged n hk) hprep hle hfit
    have hfile : s'.file = some (manifestBytes (k + 1)) := by
      rw [(recorded_commit hrec hcommit).file, ← openEdits_succ]
      rfl
    simp only [Fault.io, hcommit, Fault.outcome, ByteStore.viewOf]
    refine ⟨hpop, ?_⟩
    show ({ d with manifest := s'.file } : Disk (List UInt8)) = _
    rw [hfile]
    rfl
  | crash reached =>
    obtain ⟨p, hp, hfile⟩ := @commit_file _ n _ (openEdits k) (openEdit k) (Fault.io (.crash reached)) header _ hrec
      (openEdit_staged n hk) hprep hle hfit
    have hlost : Lossy P := ⟨_, reached, hf.fault hfault (by simp)⟩
    simp only [Fault.outcome, ByteStore.viewOf, hfile]
    exact ⟨hlost, p, hp, rfl⟩

theorem Settled.setWal (h : Settled k d) {id : UInt32} (hid : id ≠ openWalId k) (b : Option (List UInt8)) :
    Settled k (d.setWal id b) := by
  refine ⟨h.manifest, ?_⟩
  rw [Disk.setWal_wals_ne d hid.symm]
  rcases h.log with ⟨rfl, h1⟩ | h1
  · refine .inl ⟨rfl, ?_⟩
    show (d.setWal id b).wals (openWalId 0) = none
    rw [Disk.setWal_wals_ne d hid.symm]
    exact h1
  · exact .inr h1

omit [Zlib] in
theorem openWalId_succ_ne (hk : k < openLimit) : openWalId (k + 1) ≠ openWalId k := by
  intro h
  have h1 := openWalId_toNat (k := k) (Nat.le_of_lt hk)
  have h2 := openWalId_toNat (k := k + 1) hk
  rw [h] at h2
  omega

/-- The log that is selected already moves to the next one. -/
theorem replaceWal_left (hq : Quiet P) (hk : k < openLimit) {n : Nat} (hm : e.manifest = some (openObject k))
    (hl : e.levels = LevelManager.init n) (hc : e.counters = openCounters k) (hseq : e.nextSequence = 1)
    (hd : d.manifest = some (manifestBytes k)) (h : Settled k d) :
    Triple P (Engine.replaceWal (openWalId k) []) e d (fun _ _ d' => Left d') (fun _ _ => False)
      (fun _ d' => Left d') := by
  have hsucc := openWalId_succ hk
  have hne := openWalId_succ_ne hk
  have hset : ∀ b, Left (d.setWal (openWalId (k + 1)) b) := fun b => (h.setWal hne b).left (Nat.le_of_lt hk)
  have hnoerr : ∀ site, ¬ ∃ x s, P site (.err x s) := fun site ⟨x, s, hp⟩ => hq site x s hp
  refine triple_ensure (fun hb => ?_) fun _ => triple_get fun f => ?_
  · rw [bne_eq_false_iff_eq, openWalId_toNat (Nat.le_of_lt hk)] at hb
    unfold openLimit at hk
    omega
  rw [hsucc]
  refine Triple.bind (Q := fun _ e' d' => e' = e ∧ d' = d.setWal (openWalId (k + 1)) none) ?_ ?_
  · exact triple_removeWal ⟨rfl, rfl⟩ (fun he => absurd he (hnoerr _)) hset
  rintro _ e d₁ ⟨rfl, rfl⟩
  refine Triple.bind (Q := fun wal e' d' => wal = ⟨openWalId (k + 1), true⟩ ∧ e' = e ∧
    ∃ b, Writable b (openWalId (k + 1)) [] ∧ d' = d.setWal (openWalId (k + 1)) (some b)) ?_ ?_
  · refine triple_createWal (fun b hw => ⟨rfl, rfl, b, hw, by simp⟩) (fun he => absurd he (hnoerr _)) fun b => ?_
    rw [Disk.setWal_setWal]
    exact hset b
  rintro _ e d₂ ⟨rfl, rfl, b, hw, rfl⟩
  refine Triple.bind (Q := fun _ e' d' => e' = e ∧ d' = d.setWal (openWalId (k + 1)) (some b)) ?_ ?_
  · exact Triple.orElse (F := fun _ _ => False) (triple_pure ⟨rfl, rfl⟩) fun _ _ _ hfalse => hfalse.elim
  rintro _ e d₃ ⟨rfl, rfl⟩
  refine Triple.bind (Q := fun _ e' d' => e' = e ∧ d' = d.setWal (openWalId (k + 1)) (some b)) ?_ ?_
  · exact triple_syncWal ⟨rfl, rfl⟩ (fun he => absurd he (hnoerr _)) (hset _)
  rintro _ e d₄ ⟨rfl, rfl⟩
  -- with the edit the new log is the selected one
  have hnext : Settled (k + 1) ((d.setWal (openWalId (k + 1)) (some b)).withManifest (some (manifestBytes (k + 1)))) :=
    ⟨⟨_, rfl, torn_manifestBytes _⟩, .inr ⟨b, Disk.setWal_wals _ _ _, hw.readable⟩⟩
  refine Triple.bind (Q := fun _ _ d' =>
    d' = (d.setWal (openWalId (k + 1)) (some b)).withManifest (some (manifestBytes (k + 1)))) ?_ ?_
  · have hcommit := commit_open (d := d.setWal (openWalId (k + 1)) (some b)) hq hk hm hl hc hd
    have hedit : ({ currentWalId := some (openWalId (k + 1)).toUInt64, nextSequenceNumber := some e.nextSequence } :
        VersionEdit) = openEdit k := by
      rw [hseq]
      rfl
    rw [hedit]
    refine hcommit.mono (fun _ _ _ hq => hq) (fun _ _ hq => hq) ?_
    rintro _ d' ⟨p, hp, rfl⟩
    rcases torn_of_prefix hp with htorn | hwhole
    · exact ((h.setWal hne _).withManifest htorn).left (Nat.le_of_lt hk)
    · rw [hwhole]
      exact hnext.left hk
  rintro _ e₅ d₅ rfl
  refine triple_modify ?_
  have hdrop : ∀ b', Settled (k + 1)
      (((d.setWal (openWalId (k + 1)) (some b)).withManifest (some (manifestBytes (k + 1)))).setWal (openWalId k) b') :=
    fun b' => hnext.setWal hne.symm b'
  exact triple_removeWal ((hdrop none).left hk) (fun he => absurd he (hnoerr _)) fun b' => (hdrop b').left hk

/-- The first log. -/
theorem createFirstWal_left (hq : Quiet P) {startSeq : UInt64} (hd : d.manifest = some (manifestBytes 0))
    (hlog : d.wals 1 = none) :
    Triple P (Engine.createFirstWal 1 startSeq) e d (fun _ _ d' => Left d') (fun _ _ => False)
      (fun _ d' => Left d') := by
  have hnoerr : ∀ site, ¬ ∃ x s, P site (.err x s) := fun site ⟨x, s, hp⟩ => hq site x s hp
  have hnone : d.setWal 1 none = d := by
    rw [← hlog]
    exact Disk.setWal_self d 1
  have hmanifest : ∃ b, d.manifest = some b ∧ TornManifest 0 b := ⟨_, hd, torn_manifestBytes 0⟩
  have hstay : Left d := Settled.left (k := 0) ⟨hmanifest, .inl ⟨rfl, hlog⟩⟩ (by decide)
  have hwhole : ∀ b, Writable b 1 [] → Left (d.setWal 1 (some b)) := fun b hw =>
    Settled.left (k := 0) ⟨hmanifest, .inr ⟨b, Disk.setWal_wals d 1 _, hw.readable⟩⟩ (by decide)
  refine Triple.bind (Q := fun _ e' d' => e' = e ∧ d' = d) ?_ ?_
  · refine triple_fileOp ⟨rfl, hnone⟩ (fun x s hp => absurd hp (hq _ x s)) ⟨hstay, ?_⟩
    rw [hnone]
    exact hstay
  rintro _ e d ⟨rfl, rfl⟩
  refine Triple.bind (Q := fun _ _ d' => Left d') ?_ ?_
  · refine triple_createWal_torn (fun b hw => hwhole b hw) (fun he => absurd he (hnoerr _)) hstay ?_ fun b hb => ?_
    · rw [hnone]
      exact hstay
    · by_cases hlt : b.length < 40
      · exact .inr (.inr (.inl ⟨b, Disk.setWal_wals d 1 _, hlt⟩))
      · have hall : b = (WALFileHeader.create 1 startSeq).bytes := by
          refine hb.eq_of_length_le ?_
          rw [WALFileHeader.length_bytes]
          exact Nat.not_lt.mp hlt
        rw [hall]
        exact hwhole _ (writable_header 1 startSeq)
  exact fun _ _ _ hleft => triple_set hleft

theorem openWal_left (hq : Quiet P) (hk : k < openLimit) {n : Nat} (hm : e.manifest = some (openObject k))
    (hl : e.levels = LevelManager.init n) (hc : e.counters = openCounters k)
    (hd : d.manifest = some (manifestBytes k)) (h : Settled k d) :
    Triple P Engine.openWal e d (fun _ _ d' => Left d') (fun _ _ => False) (fun _ d' => Left d') := by
  have hid : e.counters.currentWalId = (openWalId k).toUInt64 := by rw [hc]; rfl
  have hid32 : e.counters.currentWalId.toUInt32 = openWalId k := by rw [hid, UInt32.toUInt32_toUInt64]
  have hnat := openWalId_toNat (Nat.le_of_lt hk)
  have hnext : e.counters.nextSequenceNumber = 1 := by rw [hc]; rfl
  refine triple_get fun f => triple_ensure (fun hb => ?_) fun _ => triple_modify ?_
  · have hin : (e.counters.currentWalId != 0 && decide (e.counters.currentWalId.toNat ≤ 2 ^ 32 - 1)) = true := by
      rw [Bool.and_eq_true, decide_eq_true_iff, bne_iff_ne, hid, UInt32.toNat_toUInt64, hnat]
      unfold openLimit at hk
      refine ⟨fun h0 => ?_, by omega⟩
      have h1 := congrArg UInt64.toNat h0
      rw [UInt32.toNat_toUInt64, hnat] at h1
      cases h1
    rw [hin] at hb
    cases hb
  dsimp only
  rw [hid32, hnext]
  rcases h.log with ⟨rfl, hlog⟩ | ⟨b, hb, hr⟩
  · have hone : openWalId 0 = 1 := rfl
    rw [hone, hlog]
    exact createFirstWal_left hq hd hlog
  · rw [hb]
    obtain ⟨res, hload, hok, hcorrupt, hrecs⟩ := hr.load
    refine triple_lift (fun s hs => by rw [hload] at hs; cases hs) fun res' hres' => ?_
    rw [hload] at hres'
    cases hres'
    refine triple_ensure (fun hbad => by rw [hok, hcorrupt] at hbad; cases hbad) fun _ => ?_
    rw [hrecs]
    refine Triple.bind (Q := fun _ e' d' => e' = { e with currentWalId := openWalId k, nextSequence := 1 } ∧ d' = d)
      (triple_pure ⟨rfl, rfl⟩) ?_
    rintro _ _ d ⟨rfl, rfl⟩
    exact replaceWal_left hq hk hm hl hc rfl hd h

/-! ## The whole of open -/

/-- The options let an open of the directory through. -/
structure Admits (o : DBOptions) (d : Disk (List UInt8)) : Prop where
  valid : o.validate = .ok ()
  errorIfExists : o.errorIfExists = false
  createIfMissing : d.dir = true ∨ o.createIfMissing = true

omit [Zlib] in
theorem prepareDirs_takes {o : DBOptions} (hq : Quiet P) {S : Disk (List UInt8) → Prop}
    (hdir : ∀ b, S { d with dir := b }) :
    Triple P Engine.prepareDirs ({ options := o } : Engine Manifest) d
      (fun _ e' d' => e' = { options := o } ∧ ∃ b, d' = { d with dir := b })
      (fun _ d' => (o.errorIfExists = true ∨ d.dir = false ∧ o.createIfMissing = false) ∧ S d')
        (fun _ d' => S d') := by
  have hself : S d := hdir d.dir
  refine Triple.bind (Q := fun _ e' d' => e' = { options := o } ∧ ∃ b, d' = { d with dir := b }) ?_ ?_
  · refine triple_get fun f => ?_
    by_cases hd : d.dir = true
    · rw [show ({ engine := { options := o }, disk := d, faults := f } : World (List UInt8) Manifest).disk.dir = true
        from hd, if_pos rfl]
      refine triple_check (fun hb => ⟨.inl ?_, hself⟩) fun _ => ⟨rfl, d.dir, rfl⟩
      have hb' : (!o.errorIfExists) = false := hb
      simpa using hb'
    · have hd' : d.dir = false := by simpa using hd
      rw [show ({ engine := { options := o }, disk := d, faults := f } : World (List UInt8) Manifest).disk.dir = false
        from hd', if_neg (by decide)]
      refine triple_ensure (fun hb => ⟨.inr ⟨rfl, hb⟩, hself⟩) fun _ => ?_
      exact triple_fileOp ⟨rfl, true, rfl⟩ (fun x s hp => absurd hp (hq _ x s)) ⟨hself, hdir true⟩
  · rintro _ _ _ ⟨rfl, b, rfl⟩
    exact triple_touch ⟨rfl, b, rfl⟩ (fun x s hp => absurd hp (hq _ x s)) (hdir b)

theorem Takes.left (h : Takes d) : Left d := by
  rcases h with h | ⟨k, hk, h⟩
  · exact .inl h
  · exact h.left (Nat.le_of_lt hk)

theorem Takes.withDir (h : Takes d) (b : Bool) : Takes { d with dir := b } := by
  rcases h with h | ⟨k, hk, h⟩
  · exact .inl ⟨h.manifest, h.log⟩
  · exact .inr ⟨k, hk, h.manifest, h.log⟩

/-- The next open of a directory that it takes. -/
theorem open_left {o : DBOptions} (hq : Quiet P) (h : Takes d) :
    Triple P Engine.«open» ({ options := o } : Engine Manifest) d (fun _ _ d' => Left d')
      (fun _ d' => ¬ Admits o d ∧ Left d') (fun _ d' => Left d') := by
  refine triple_get fun f => triple_get fun f' => triple_lift (fun s hs => ⟨fun ha => ?_, h.left⟩) fun _ _ => ?_
  · have hv := ha.valid
    rw [show o.validate = _ from hs] at hv
    cases hv
  refine Triple.bind (Q := fun _ e' d' => e' = { options := o } ∧ ∃ b, d' = { d with dir := b }) ?_ ?_
  · refine (prepareDirs_takes hq (S := Left) fun b => (h.withDir b).left).mono (fun _ _ _ hq => hq) ?_ fun _ _ hq => hq
    rintro e' d' ⟨hwhy, hleft⟩
    refine ⟨fun ha => ?_, hleft⟩
    rcases hwhy with hwhy | ⟨hwhy, hwhy'⟩
    · rw [ha.errorIfExists] at hwhy
      cases hwhy
    · rcases ha.createIfMissing with ha | ha
      · rw [hwhy] at ha
        cases ha
      · rw [hwhy'] at ha
        cases ha
  rintro _ _ _ ⟨rfl, b, rfl⟩
  refine triple_modify ?_
  -- both kinds of directory are the same one once the manifest is open
  have hrest : ∀ (d₀ : Disk (List UInt8)) (k : Nat) (e : Engine Manifest), k < openLimit →
      Settled k (d₀.withManifest (some (manifestBytes k))) →
      Triple P (Engine.openWal >>= fun _ => modifyEngine fun e => { e with opened := true })
        (loadedEngine e.levels.levelCount k e) (d₀.withManifest (some (manifestBytes k))) (fun _ _ d' => Left d')
        (fun _ d' => ¬ Admits o d ∧ Left d') (fun _ d' => Left d') := by
    intro d₀ k e hk hs
    refine Triple.bind (Q := fun _ _ d' => Left d') ?_ fun _ _ _ hleft => triple_set hleft
    exact (openWal_left hq hk rfl rfl rfl rfl hs).mono (fun _ _ _ hleft => hleft) (fun _ _ hfalse => hfalse.elim)
      fun _ _ hleft => hleft
  rcases h.withDir b with hfresh | ⟨k, hk, hs⟩
  · refine Triple.bind ((openManifest_fresh hq hfresh).mono (fun _ _ _ hq => hq) (fun _ _ hfalse => hfalse.elim)
      fun _ _ hleft => hleft) ?_
    rintro _ _ _ ⟨rfl, rfl⟩
    exact hrest _ 0 _ (by decide) ⟨⟨_, rfl, torn_manifestBytes 0⟩, .inl ⟨rfl, hfresh.log⟩⟩
  · refine Triple.bind ((openManifest_settled hq hk hs).mono (fun _ _ _ hq => hq) (fun _ _ hfalse => hfalse.elim)
      fun _ _ hleft => hleft) ?_
    rintro _ _ _ ⟨rfl, rfl⟩
    exact hrest _ k _ hk (hs.withManifest (torn_manifestBytes k))

end

/-! ## Runs of opens -/

def Disk.bare (dir : Bool) : Disk (List UInt8) := ⟨dir, none, fun _ => none, fun _ => none⟩

/-- The only faults are lost processes. -/
def lostOnly : Permits := fun _ x => ∀ n s, x ≠ .err n s

/-- The directories that opens reach from an empty one, each open cut by a lost process or not; an
open starts in a directory of `S`. -/
inductive OpenRun (S : Disk (List UInt8) → Prop) : Disk (List UInt8) → Prop where
  | bare (dir : Bool) : OpenRun S (.bare dir)
  | step {d : Disk (List UInt8)} (h : OpenRun S d) (hd : S d) (o : DBOptions) {faults : Site → List Fault}
      (hf : Obeys lostOnly faults) : OpenRun S (Engine.«open» ⟨{ options := o }, d, faults⟩).2.disk

/-- The manifest is missing or empty, or it has its header and ends before the edit of open 342; the
first log is missing or has its header. -/
structure Recoverable (d : Disk (List UInt8)) : Prop where
  manifest : ∀ b, d.manifest = some b → b = [] ∨ 24 ≤ b.length ∧ b.length < 12264
  log : ∀ b, d.wals 1 = some b → 40 ≤ b.length

section

variable {d : Disk (List UInt8)}

theorem Left.takes (h : Left d) (hd : Recoverable d) : Takes d := by
  rcases h with h | ⟨b, hb, hpos, hlt⟩ | ⟨b, hb, hlt⟩ | ⟨k, hk, h⟩
  · exact .inl h
  · rcases hd.manifest b hb with rfl | ⟨hle, -⟩
    · cases hpos
    · omega
  · have hle := hd.log b hb
    omega
  · refine .inr ⟨k, ?_, h⟩
    obtain ⟨b, hb, t, -, -, rfl⟩ := h.manifest
    have hlen : (manifestBytes k ++ t).length = 24 + 36 * k + t.length := by
      rw [List.length_append, length_manifestBytes]
    unfold openLimit at hk ⊢
    rcases hd.manifest _ hb with hnil | ⟨-, hlt⟩
    · rw [hnil, List.length_nil] at hlen
      omega
    · omega

theorem OpenRun.left (h : OpenRun Recoverable d) : Left d := by
  induction h with
  | bare dir => exact .inl ⟨rfl, rfl⟩
  | @step d h hd o faults hf ih =>
    have hq : Quiet lostOnly := fun _ n s hp => hp n s rfl
    have hends := open_left (o := o) hq (ih.takes hd) faults hf
    match hr : Engine.«open» ⟨{ options := o }, d, faults⟩, hends with
    | (.ok _, w), hends => exact hends.2
    | (.err _, w), hends => exact hends.2.2
    | (.crash, w), hends => exact hends.2

/-- **Every crash during open is recoverable**, but for a manifest or a first log cut inside its
header, and for the edit of open 342.  Take any number of opens from an empty directory, each cut
anywhere by the loss of the process, in which every open starts in a recoverable directory: the next
open whose options admit the directory returns ok. -/
theorem open_recovers (h : OpenRun Recoverable d) (hd : Recoverable d) {o : DBOptions} (ho : Admits o d) :
    (Engine.«open» (⟨{ options := o }, d, fun _ => []⟩ : World (List UInt8) Manifest)).1 = .ok () := by
  have hends := open_left (P := fun _ _ => False) (o := o) (fun _ _ _ hp => hp) (h.left.takes hd) (fun _ => [])
    fun _ x hx => by cases hx
  match hr : Engine.«open» (⟨{ options := o }, d, fun _ => []⟩ : World (List UInt8) Manifest), hends with
  | (.ok _, w), _ => rfl
  | (.err _, w), hends => exact absurd ho hends.2.1
  | (.crash, w), hends =>
    obtain ⟨⟨_, _, hp⟩, -⟩ := hends
    exact hp.elim

end

/-- Options with nothing but a path. -/
def bareOptions : DBOptions := { dbPath := [100] }

/-- The faults of one site. -/
def faultsAt (site : Site) (x : Fault) : Site → List Fault := fun s => if s = site then [x] else []

omit [Zlib] in
theorem faultsAt_lost (site : Site) (n : Nat) : Obeys lostOnly (faultsAt site (.crash n)) := by
  intro s x hx n s' he
  unfold faultsAt at hx
  split at hx
  · rw [List.mem_singleton.mp hx] at he
    cases he
  · cases hx

omit [Zlib] in
theorem recoverable_of_sizes {d : Disk (List UInt8)} {m l : Nat} (hm : d.manifest.map List.length = some m)
    (hm24 : 24 ≤ m) (hm12264 : m < 12264) (hl : (d.wals 1).map List.length = some l) (hl40 : 40 ≤ l) :
    Recoverable d := by
  constructor
  · intro b hb
    rw [hb] at hm
    cases hm
    exact .inr ⟨hm24, hm12264⟩
  · intro b hb
    rw [hb] at hl
    cases hl
    exact hl40

omit [Zlib] in
/-- A first open, and a second one that is lost 20 bytes into its edit. -/
theorem open_recovers_tornEdit : letI := documentedZlib
    ∃ d, OpenRun Recoverable d ∧ d.manifest.map List.length = some 44 ∧
      (Engine.«open» (⟨{ options := bareOptions }, d, fun _ => []⟩ : World (List UInt8) Manifest)).1 =
        .ok () := by
  let _ := documentedZlib
  have hfirst : OpenRun Recoverable (Engine.«open» (⟨{ options := bareOptions }, .bare false, fun _ => []⟩ :
      World (List UInt8) Manifest)).2.disk :=
    .step (.bare false) ⟨(fun b hb => by cases hb), fun b hb => by cases hb⟩ _ fun _ x hx => by cases hx
  have hrec := recoverable_of_sizes (d := (Engine.«open» (⟨{ options := bareOptions }, .bare false, fun _ => []⟩ :
      World (List UInt8) Manifest)).2.disk) (m := 24) (l := 40) (by decide +kernel) (by decide) (by decide)
      (by decide +kernel) (by decide)
  have hsecond := OpenRun.step hfirst hrec bareOptions (faultsAt_lost .openCommit 20)
  refine ⟨_, hsecond, by decide +kernel, open_recovers hsecond ?_ ⟨by decide, by decide, .inr (by decide)⟩⟩
  exact recoverable_of_sizes (m := 44) (l := 40) (by decide +kernel) (by decide) (by decide) (by decide +kernel)
    (by decide)

omit [Zlib] in
/-- The first open is lost ten bytes into the manifest's header: no later open gets past it. -/
theorem not_open_tornHeader : letI := documentedZlib
    ¬ ∀ (d : Disk (List UInt8)) (o : DBOptions), OpenRun (fun _ => True) d → Admits o d →
      (Engine.«open» (⟨{ options := o }, d, fun _ => []⟩ : World (List UInt8) Manifest)).1 = .ok () := by
  let _ := documentedZlib
  intro h
  have hrun : OpenRun (fun _ => True) (Engine.«open» (⟨{ options := bareOptions }, .bare false,
      faultsAt .openHeader (.crash 10)⟩ : World (List UInt8) Manifest)).2.disk :=
    .step (.bare false) trivial _ (faultsAt_lost .openHeader 10)
  have hok := h _ bareOptions hrun ⟨by decide, by decide, .inr (by decide)⟩
  revert hok
  decide +kernel

end Kvdb
