import Kvdb.Manifest.VersionEdit

/-!
# The bytes of an edit

`record e` are the fields of an edit with its header, as they stand in the file.

* `write_ok`: an edit whose write returned ok stands in the file without padding.
* `write_of_fits`: that is the case whenever no field crosses a block edge.
* `load_record`: the loader reads it back.
* `load_cut`: cut anywhere before its end, it is an unexpected end of file.
-/

namespace Kvdb

open Faulty Bytes

theorem u32Bytes_ne_nil (x : UInt32) : u32Bytes x ≠ [] := by
  intro h
  simpa using congrArg List.length h

theorem u64Bytes_ne_nil (x : UInt64) : u64Bytes x ≠ [] := by
  intro h
  simpa using congrArg List.length h

theorem manifestBlock_pos : 0 < MANIFEST_BLOCK_SIZE := by decide

def EditHeader.fields (h : EditHeader) : List (List UInt8) := [u32Bytes h.crc32, u32Bytes h.payloadSize]

namespace VersionEdit

section

variable [Zlib]

/-- The header that `prepare` makes. -/
def header (e : VersionEdit) : EditHeader := ⟨crc32Fields e.fields, UInt32.ofNat e.fields.flatten.length⟩

/-- The whole edit, field by field. -/
def record (e : VersionEdit) : List (List UInt8) := e.header.fields ++ e.fields

theorem header_payloadSize {e : VersionEdit} (h : e.Valid) :
    e.header.payloadSize.toNat = e.fields.flatten.length := by
  have hle := h.size_le
  simp only [MANIFEST_MAX_EDIT_SIZE] at hle
  show (UInt32.ofNat e.fields.flatten.length).toNat = _
  rw [UInt32.toNat_ofNat']
  apply Nat.mod_eq_of_lt
  omega

theorem prepare_header {e : VersionEdit} {header : EditHeader} (h : e.prepare = .ok header) :
    header = e.header := by
  obtain ⟨hv, -, hcrc, hsize⟩ := prepare_ok h
  have hp : header.payloadSize = e.header.payloadSize := by
    apply UInt32.toNat_inj.mp
    rw [hsize, header_payloadSize hv]
  cases header with
  | mk crc32 payloadSize =>
    simp only at hcrc hp
    rw [hcrc, hp]
    rfl

omit [Zlib] in
theorem length_header_fields (h : EditHeader) : h.fields.flatten.length = EditHeader.diskSize := by
  simp [EditHeader.fields, EditHeader.diskSize]

omit [Zlib] in
theorem header_fields_le (h : EditHeader) : ∀ d ∈ h.fields, d.length ≤ MANIFEST_BLOCK_SIZE := by
  intro d hd
  rcases List.mem_cons.mp hd with rfl | hd
  · rw [length_u32Bytes]
    decide
  · rw [List.mem_singleton.mp hd, length_u32Bytes]
    decide

theorem length_record (e : VersionEdit) :
    e.record.flatten.length = EditHeader.diskSize + e.fields.flatten.length := by
  rw [record, List.flatten_append, List.length_append, length_header_fields]

theorem record_ne_nil (e : VersionEdit) : e.record.flatten ≠ [] := by
  intro h0
  have hlen := length_record e
  rw [h0, List.length_nil] at hlen
  simp only [EditHeader.diskSize] at hlen
  omega

end

/-! ## Writing -/

theorem checkManifestOffset_apply {w : Writer Status} (h : w.Synced) :
    checkManifestOffset w = (.ok (), w) := by
  rw [checkManifestOffset, bind_ok (get_apply w), ensure_apply]
  simp [h.symm]

theorem writesU32 (x : UInt32) :
    WritesFields MANIFEST_BLOCK_SIZE (writeU32Le x MANIFEST_BLOCK_SIZE) [u32Bytes x] :=
  writesFields_writeField (u32Bytes_ne_nil x)

theorem writesU64 (x : UInt64) :
    WritesFields MANIFEST_BLOCK_SIZE (writeU64Le x MANIFEST_BLOCK_SIZE) [u64Bytes x] :=
  writesFields_writeField (u64Bytes_ne_nil x)

theorem writesCheck : WritesFields MANIFEST_BLOCK_SIZE checkManifestOffset [] :=
  writesFields_check _ fun _ hw => checkManifestOffset_apply hw

theorem writesOpt (o : Option UInt64) : WritesFields MANIFEST_BLOCK_SIZE (writeOpt o) (optFields o) := by
  cases o with
  | none => exact writesFields_pure
  | some x => exact writesU64 x

theorem writesEach {α : Type} {f : α → WriterM Status Unit} {g : α → List (List UInt8)} {as : List α}
    (h : ∀ a ∈ as, WritesFields MANIFEST_BLOCK_SIZE (f a) (g a)) :
    WritesFields MANIFEST_BLOCK_SIZE (writeEach f as) (as.flatMap g) := by
  induction as with
  | nil => exact writesFields_pure
  | cons a as ih =>
    rw [List.flatMap_cons]
    exact (h a (by simp)).bind manifestBlock_pos (ih fun a' ha' => h a' (by simp [ha']))

theorem header_writes (h : EditHeader) : WritesFields MANIFEST_BLOCK_SIZE h.write h.fields :=
  writesCheck.bind manifestBlock_pos ((writesU32 h.crc32).bind manifestBlock_pos (writesU32 h.payloadSize))

theorem deleted_writes (d : DeletedTable) : WritesFields MANIFEST_BLOCK_SIZE d.write d.fields :=
  writesCheck.bind manifestBlock_pos ((writesU32 d.level).bind manifestBlock_pos (writesU64 d.tableId))

theorem table_writes {t : TableMeta} (h : t.validate = .ok ()) :
    WritesFields MANIFEST_BLOCK_SIZE t.write t.fields := by
  have hpath := TableMeta.checkedU32Size_ok (TableMeta.validate_path h).1 "path"
  refine .lift h (.lift hpath ?_)
  have hcheck : WritesFields MANIFEST_BLOCK_SIZE TableMeta.checkOffset [] := by
    refine writesFields_check _ fun w hw => ?_
    rw [TableMeta.checkOffset, bind_ok (get_apply w), ensure_apply]
    simp [hw.symm]
  exact hcheck.bind manifestBlock_pos fun _ _ => rfl

theorem payload_writes {e : VersionEdit} (h : e.Valid) :
    WritesFields MANIFEST_BLOCK_SIZE (writePayloadFields e) e.fields := by
  have hb := manifestBlock_pos
  have htables := writesEach (f := TableMeta.write) (g := TableMeta.fields) fun t ht => table_writes (h.tables t ht)
  have hdeleted : WritesFields MANIFEST_BLOCK_SIZE (writeEach DeletedTable.write e.deletedTables)
      (e.deletedTables.flatMap DeletedTable.fields) := writesEach fun d _ => deleted_writes d
  have hcounts := (writesU32 (UInt32.ofNat e.deletedTables.length)).bind hb
    ((writesU32 (UInt32.ofNat e.newTables.length)).bind hb (hdeleted.bind hb htables))
  have hcounters := (writesOpt e.nextTableId).bind hb
    ((writesOpt e.nextSequenceNumber).bind hb ((writesOpt e.currentWalId).bind hb hcounts))
  have hall := (writesU32 e.payloadFlags).bind hb hcounters
  intro w hw
  refine (hall w hw).trans ?_
  congr 1
  simp only [fields, counterFields, countFields, List.cons_append, List.nil_append, List.append_assoc]

section

variable [Zlib] {e : VersionEdit}

/-- An edit that was written stands behind the file's former end, without padding. -/
theorem write_ok {w w' : Writer Status} (hw : w.Synced) (h : e.write w = (.ok (), w')) :
    e.Valid ∧ FitsAt MANIFEST_BLOCK_SIZE w.offset e.record ∧ w'.Synced ∧
      w'.bytes = w.bytes ++ e.record.flatten := by
  rw [write] at h
  obtain ⟨header, w₀, hprep, h⟩ := bind_eq_ok h
  have hprep' : e.prepare = .ok header ∧ w₀ = w := by
    cases hp : e.prepare with
    | error err =>
      rw [hp] at hprep
      cases hprep
    | ok x =>
      rw [hp] at hprep
      cases hprep
      exact ⟨rfl, rfl⟩
  obtain ⟨hp, rfl⟩ := hprep'
  obtain ⟨hv, hps, -, hsize⟩ := prepare_ok hp
  obtain rfl := prepare_header hp
  rw [bind_ok (get_apply w₀)] at h
  obtain ⟨_, w₁, h1, h⟩ := bind_eq_ok h
  obtain ⟨_, w₂, h2, h⟩ := bind_eq_ok h
  rw [bind_ok (get_apply w₂), ensure_apply] at h
  split at h
  case isFalse => cases h
  next hlen =>
  cases h
  rw [header_writes _ w₀ hw] at h1
  have hs1 : w₁.Synced := by
    have := writeFields_synced manifestBlock_pos e.header.fields hw
    rw [h1] at this
    exact this
  -- the payload writer's own length check only repeats the one of the whole edit
  rw [writePayload, hps, bind_ok (lift_ok _ _), bind_ok (get_apply w₁)] at h2
  obtain ⟨_, w₃, h3, h4⟩ := bind_eq_ok h2
  rw [bind_ok (get_apply w₃), ensure_apply] at h4
  split at h4
  case isFalse => cases h4
  cases h4
  rw [payload_writes hv w₁ hs1] at h3
  have hall : writeFields MANIFEST_BLOCK_SIZE e.record w₀ = (.ok (), w') := by
    rw [record, writeFields_append, bind_ok h1, h3]
  have hs2 : w'.Synced := by
    have := writeFields_synced manifestBlock_pos e.record hw
    rw [hall] at this
    exact this
  have hle := writeFields_ok_le manifestBlock_pos hw hall
  rw [writeFields_isAppend manifestBlock_pos hle w₀ hw] at hall
  have hbytes : w'.bytes = w₀.bytes ++ encodeFields MANIFEST_BLOCK_SIZE w₀.offset e.record :=
    append_ok_bytes hall
  have hfit : FitsAt MANIFEST_BLOCK_SIZE w₀.offset e.record := by
    apply (encodeFields_length_iff hle).mp
    have h2len := congrArg List.length hbytes
    rw [List.length_append] at h2len
    have hdiff := beq_iff_eq.mp hlen
    rw [hs2, hw, hsize, ← length_record] at hdiff
    have hpos := List.length_pos_iff.mpr (record_ne_nil e)
    rw [hw] at h2len ⊢
    omega
  rw [encodeFields_of_fits hfit] at hbytes
  exact ⟨hv, hfit, hs2, hbytes⟩

/-- Without a fault an edit is written when none of its fields crosses a block edge. -/
theorem write_of_fits {w : Writer Status} (hw : w.Synced) (hroom : w.room = none)
    {header : EditHeader} (hp : e.prepare = .ok header) (hle : ∀ d ∈ e.fields, d.length ≤ MANIFEST_BLOCK_SIZE)
    (hfit : FitsAt MANIFEST_BLOCK_SIZE w.offset e.record) :
    e.write w = (.ok (), w.put e.record.flatten none) := by
  obtain ⟨hv, hps, -, hsize⟩ := prepare_ok hp
  obtain rfl := prepare_header hp
  obtain ⟨hfh, hff⟩ := (fitsAt_append _ _ _).mp hfit
  have hb := manifestBlock_pos
  have h1 : e.header.write w = (.ok (), w.put e.header.fields.flatten none) := by
    have hfree := (writeFields_isAppend hb (header_fields_le e.header)).free hw hroom
    rw [encodeFields_of_fits hfh] at hfree
    rw [header_writes _ w hw, hfree]
  have hs1 : (w.put e.header.fields.flatten none).Synced := hw.put _ _
  have h2 : writePayloadFields e (w.put e.header.fields.flatten none) =
      (.ok (), w.put e.record.flatten none) := by
    have hfree := (writeFields_isAppend hb hle).free hs1 rfl
    rw [Writer.put_offset, encodeFields_of_fits hff, Writer.put_put, ← List.flatten_append] at hfree
    rw [payload_writes hv _ hs1, hfree, record]
  have hoff : (w.put e.record.flatten none).offset - (w.put e.header.fields.flatten none).offset =
      e.header.payloadSize.toNat := by
    rw [Writer.put_offset, Writer.put_offset, length_record, length_header_fields, hsize]
    omega
  have h3 : writePayload e (w.put e.header.fields.flatten none) = (.ok (), w.put e.record.flatten none) := by
    rw [writePayload, hps, bind_ok (lift_ok _ _), bind_ok (get_apply _), bind_ok h2, bind_ok (get_apply _),
      ensure_apply, if_pos (beq_iff_eq.mpr hoff)]
  have hoff' : (w.put e.record.flatten none).offset - w.offset =
      EditHeader.diskSize + e.header.payloadSize.toNat := by
    rw [Writer.put_offset, length_record, hsize]
    omega
  rw [write, hp, bind_ok (lift_ok _ _), bind_ok (get_apply _), bind_ok h1, bind_ok h3, bind_ok (get_apply _),
    ensure_apply, if_pos (beq_iff_eq.mpr hoff')]

/-- Whatever the fault, an edit that fits leaves a prefix of its record behind the file's former end. -/
theorem write_prefix {w : Writer Status} (hw : w.Synced) {header : EditHeader} (hp : e.prepare = .ok header)
    (hle : ∀ d ∈ e.fields, d.length ≤ MANIFEST_BLOCK_SIZE) (hfit : FitsAt MANIFEST_BLOCK_SIZE w.offset e.record) :
    ∃ p, p <+: e.record.flatten ∧ (e.write w).2.bytes = w.bytes ++ p := by
  obtain ⟨hv, hps, -, -⟩ := prepare_ok hp
  obtain rfl := prepare_header hp
  obtain ⟨hfh, hff⟩ := (fitsAt_append _ _ _).mp hfit
  have hb := manifestBlock_pos
  have hhead : e.header.write w = append e.header.fields.flatten w := by
    rw [header_writes _ w hw, writeFields_of_fits hb (header_fields_le _) hw hfh]
  have hflat : e.record.flatten = e.header.fields.flatten ++ e.fields.flatten := by
    rw [record, List.flatten_append]
  rw [write, hp, bind_ok (lift_ok _ _), bind_ok (get_apply _), bind_apply, hhead]
  match h1 : append e.header.fields.flatten w with
  | (.err x, w₁) =>
    obtain ⟨p, hpre, hbytes⟩ := append_prefix e.header.fields.flatten w
    rw [h1] at hbytes
    exact ⟨p, hpre.trans (hflat ▸ List.prefix_append _ _), hbytes⟩
  | (.crash, w₁) =>
    obtain ⟨p, hpre, hbytes⟩ := append_prefix e.header.fields.flatten w
    rw [h1] at hbytes
    exact ⟨p, hpre.trans (hflat ▸ List.prefix_append _ _), hbytes⟩
  | (.ok u, w₁) =>
    have hbytes₁ := append_ok_bytes h1
    have hs₁ : w₁.Synced := by
      have hsync := append_synced e.header.fields.flatten hw
      rw [h1] at hsync
      exact hsync
    have hoff : w₁.offset = w.offset + e.header.fields.flatten.length := by
      rw [hs₁, hbytes₁, List.length_append, hw]
    have hfields : writePayloadFields e w₁ = append e.fields.flatten w₁ := by
      rw [payload_writes hv _ hs₁, writeFields_of_fits hb hle hs₁ (hoff ▸ hff)]
    obtain ⟨p, hpre, hbytes⟩ := append_prefix e.fields.flatten w₁
    refine ⟨e.header.fields.flatten ++ p, ?_, ?_⟩
    · rw [hflat]
      exact List.prefix_append_right_inj _ |>.mpr hpre
    -- the checks behind the writes leave the file alone
    · rw [← List.append_assoc, ← hbytes₁, ← hbytes]
      dsimp only
      rw [bind_check_state fun w => ensure_state _ _ w, writePayload, hps, bind_ok (lift_ok _ _),
        bind_ok (get_apply _), bind_check_state fun w => ensure_state _ _ w, hfields]

end

/-! ## Reading -/

/-- `r` reads the fields `ds`, which end inside the payload. -/
def ReadsWithin {α : Type} (payloadEnd : Nat) (r : FileReader α) (ds : List (List UInt8)) (a : α) : Prop :=
  ∀ (file : ReadableFile) (off : Nat), file.Sound → FitsAt MANIFEST_BLOCK_SIZE off ds →
    At file.bytes off ds.flatten → off + ds.flatten.length ≤ payloadEnd →
    r file off = .ok (a, off + ds.flatten.length)

/-- `r` reads the fields `ds`, which are the rest of the payload. -/
def ReadsRest {α : Type} (payloadEnd : Nat) (r : FileReader α) (ds : List (List UInt8)) (a : α) : Prop :=
  ∀ (file : ReadableFile) (off : Nat), file.Sound → FitsAt MANIFEST_BLOCK_SIZE off ds →
    At file.bytes off ds.flatten → off + ds.flatten.length = payloadEnd → r file off = .ok (a, payloadEnd)

section

variable {α β : Type} {payloadEnd : Nat} {ds es : List (List UInt8)} {r : FileReader α}
  {k : α → FileReader β} {a : α} {b : β}

theorem ReadsWithin.bind (hr : ReadsWithin payloadEnd r ds a) (hk : ReadsWithin payloadEnd (k a) es b) :
    ReadsWithin payloadEnd (r >>= k) (ds ++ es) b := by
  intro file off hf hfit hat hle
  obtain ⟨hfd, hfe⟩ := (fitsAt_append off ds es).mp hfit
  rw [List.flatten_append] at hat hle ⊢
  rw [List.length_append] at hle ⊢
  rw [Reader.bind_ok (hr file off hf hfd hat.left (by omega)), hk file _ hf hfe hat.right (by omega),
    Nat.add_assoc]

theorem ReadsWithin.then (hr : ReadsWithin payloadEnd r ds a) (hk : ReadsRest payloadEnd (k a) es b) :
    ReadsRest payloadEnd (r >>= k) (ds ++ es) b := by
  intro file off hf hfit hat heq
  obtain ⟨hfd, hfe⟩ := (fitsAt_append off ds es).mp hfit
  rw [List.flatten_append] at hat heq
  rw [List.length_append] at heq
  rw [Reader.bind_ok (hr file off hf hfd hat.left (by omega)), hk file _ hf hfe hat.right (by omega)]

theorem ReadsRest.guard {c : Bool} {err : Status} {k : Unit → FileReader β} (hc : c = true)
    (hk : ReadsRest payloadEnd (k ()) ds b) : ReadsRest payloadEnd (Reader.ensure c err >>= k) ds b := by
  intro file off hf hfit hat heq
  rw [Reader.ensure_bind hc]
  exact hk file off hf hfit hat heq

theorem within_pure (a : α) : ReadsWithin payloadEnd (pure a) [] a := fun _ _ _ _ _ _ => rfl

/-- The bound check of a field that lies inside the payload succeeds. -/
theorem requireRemaining_ok {off size : Nat} (h : off + size ≤ payloadEnd) (field : String) :
    requireRemaining off payloadEnd size field = .ok () := by
  rw [requireRemaining, if_neg (by omega)]

/-- A reader that checks for `size` more bytes of the payload first. -/
theorem within_of_readsFields {size : Nat} {field : String} (hr : ReadsFields MANIFEST_BLOCK_SIZE r ds a)
    (hsize : size = ds.flatten.length) :
    ReadsWithin payloadEnd (do
      let offset ← Reader.offset
      Reader.lift (requireRemaining offset payloadEnd size field)
      r) ds a := by
  intro file off hf hfit hat hle
  rw [Reader.bind_ok (Reader.offset_apply file off), requireRemaining_ok (by omega)]
  exact hr file off hf hfit hat

theorem within_u32 (x : UInt32) (field : String) :
    ReadsWithin payloadEnd (readU32In payloadEnd field) [u32Bytes x] x :=
  within_of_readsFields (manU32 x).readsFields (by simp)

theorem within_u64 (x : UInt64) (field : String) :
    ReadsWithin payloadEnd (readU64In payloadEnd field) [u64Bytes x] x :=
  within_of_readsFields (manU64 x).readsFields (by simp)

theorem within_opt {o : Option UInt64} {flags flag : UInt32} (h : flags &&& flag ≠ 0 ↔ o.isSome = true)
    (field : String) : ReadsWithin payloadEnd (readOpt payloadEnd flags flag field) (optFields o) o := by
  unfold readOpt
  cases o with
  | none =>
    rw [if_neg (by simpa using h)]
    exact within_pure none
  | some x =>
    rw [if_pos (h.mpr rfl)]
    exact (within_u64 x field).bind (within_pure (some x))

theorem within_deleted (d : DeletedTable) : ReadsWithin payloadEnd (readDeleted payloadEnd) d.fields d :=
  within_of_readsFields ((manU32 d.level).cons ((manU64 d.tableId).cons (readsFields_pure d)))
    (by simp [DeletedTable.fields, DeletedTable.diskSize])

theorem within_new {t : TableMeta} (h : t.validate = .ok ()) :
    ReadsWithin payloadEnd (readNew payloadEnd) t.fields t := by
  intro file off hf hfit hat hle
  have hlen := t.flatten_fields_length
  have hlt : decide (off < payloadEnd) = true := by
    rw [decide_eq_true_eq]
    omega
  rw [readNew, Reader.bind_ok (Reader.offset_apply file off), Reader.ensure_bind hlt,
    Reader.bind_ok (TableMeta.load_reads h file off hf hfit hat), Reader.bind_ok (Reader.offset_apply file _),
    Reader.ensure_bind (by simpa using hle)]
  rfl

theorem within_each {r : FileReader α} {f : α → List (List UInt8)} {as : List α}
    (h : ∀ a ∈ as, ReadsWithin payloadEnd r (f a) a) :
    ReadsWithin payloadEnd (readEach r as.length) (as.flatMap f) as := by
  induction as with
  | nil => exact within_pure []
  | cons a as ih =>
    rw [List.flatMap_cons]
    have hrest : ReadsWithin payloadEnd (do
        let as ← readEach r as.length
        pure (a :: as)) (as.flatMap f ++ []) (a :: as) :=
      (ih fun a' ha' => h a' (by simp [ha'])).bind (within_pure _)
    rw [List.append_nil] at hrest
    exact (h a (by simp)).bind hrest

end

theorem payloadFlags_known (e : VersionEdit) : (e.payloadFlags &&& ~~~VERSION_EDIT_KNOWN_FLAGS == 0) = true := by
  unfold payloadFlags
  cases e.nextTableId.isSome <;> cases e.nextSequenceNumber.isSome <;> cases e.currentWalId.isSome <;> decide

/-- Each flag says whether its counter is present. -/
theorem payloadFlags_iff (e : VersionEdit) :
    (e.payloadFlags &&& VERSION_EDIT_HAS_NEXT_TABLE_ID ≠ 0 ↔ e.nextTableId.isSome = true) ∧
      (e.payloadFlags &&& VERSION_EDIT_HAS_NEXT_SEQUENCE_NUMBER ≠ 0 ↔ e.nextSequenceNumber.isSome = true) ∧
      (e.payloadFlags &&& VERSION_EDIT_HAS_CURRENT_WAL_ID ≠ 0 ↔ e.currentWalId.isSome = true) := by
  unfold payloadFlags
  cases e.nextTableId.isSome <;> cases e.nextSequenceNumber.isSome <;> cases e.currentWalId.isSome <;> decide

theorem validate_counts {e : VersionEdit} (h : e.validate = .ok ()) :
    e.deletedTables.length ≤ MANIFEST_MAX_TABLES_PER_EDIT ∧
      e.newTables.length ≤ MANIFEST_MAX_TABLES_PER_EDIT := by
  obtain ⟨_, h1, h⟩ := except_bind_ok h
  obtain ⟨_, h2, -⟩ := except_bind_ok h
  unfold checkedU32Count at h1 h2
  split at h1
  · cases h1
  · split at h2
    · cases h2
    · omega

theorem length_tableFields (ts : List TableMeta) :
    ts.length ≤ (ts.flatMap TableMeta.fields).flatten.length := by
  induction ts with
  | nil => exact Nat.le_refl _
  | cons t ts ih =>
    have hlen := t.flatten_fields_length
    rw [List.flatMap_cons, List.flatten_append, List.length_append, List.length_cons]
    omega

theorem count_toNat {n : Nat} (h : n ≤ MANIFEST_MAX_TABLES_PER_EDIT) : (UInt32.ofNat n).toNat = n := by
  simp only [MANIFEST_MAX_TABLES_PER_EDIT] at h
  rw [UInt32.toNat_ofNat']
  apply Nat.mod_eq_of_lt
  omega

/-- The payload of a valid edit is read back from its fields. -/
theorem loadPayloadTo_reads {e : VersionEdit} (h : e.Valid) (payloadEnd : Nat) :
    ReadsRest payloadEnd (loadPayloadTo payloadEnd) e.fields e := by
  obtain ⟨hdel, hnew⟩ := validate_counts h.payload
  obtain ⟨hf1, hf2, hf3⟩ := payloadFlags_iff e
  have hdn := count_toNat hdel
  have hnn := count_toNat hnew
  have hfields : e.fields = [u32Bytes e.payloadFlags] ++ (optFields e.nextTableId ++
      (optFields e.nextSequenceNumber ++ (optFields e.currentWalId ++
      ([u32Bytes (UInt32.ofNat e.deletedTables.length)] ++ ([u32Bytes (UInt32.ofNat e.newTables.length)] ++
      (e.deletedTables.flatMap DeletedTable.fields ++ e.newTables.flatMap TableMeta.fields)))))) := by
    simp [fields, counterFields, countFields]
  rw [hfields]
  refine (within_u32 e.payloadFlags "flags").then (.guard (payloadFlags_known e) ?_)
  refine (within_opt hf1 _).then ((within_opt hf2 _).then ((within_opt hf3 _).then ?_))
  refine (within_u32 (UInt32.ofNat e.deletedTables.length) _).then
    ((within_u32 (UInt32.ofNat e.newTables.length) _).then ?_)
  rw [hdn, hnn]
  refine .guard (by simpa using ⟨hdel, hnew⟩) ?_
  have htables : ReadsRest payloadEnd (do
      let deletedTables ← readEach (readDeleted payloadEnd) e.deletedTables.length
      let newTables ← readEach (readNew payloadEnd) e.newTables.length
      let offset ← Reader.offset
      Reader.ensure (offset == payloadEnd)
        ⟨.invalidPayloadSize, "version edit payload ended at " ++ toString offset ++ ", expected "
          ++ toString payloadEnd⟩
      let edit : VersionEdit := { e with deletedTables, newTables }
      Reader.lift edit.validate
      pure edit)
      (e.deletedTables.flatMap DeletedTable.fields ++ (e.newTables.flatMap TableMeta.fields ++ [])) e := by
    refine (within_each fun d _ => within_deleted d).then
      ((within_each fun t ht => within_new (h.tables t ht)).then ?_)
    intro file off _ _ _ heq
    have hend : off = payloadEnd := heq
    rw [Reader.bind_ok (Reader.offset_apply file off), Reader.ensure_bind (beq_iff_eq.mpr hend), hend, h.payload]
    rfl
  intro file off hf hfit hat heq
  rw [Reader.bind_ok (Reader.offset_apply file off)]
  have hlen := length_deletedFields e.deletedTables
  have htab := length_tableFields e.newTables
  rw [List.flatten_append, List.length_append] at heq
  have hremaining : subU64 payloadEnd off = payloadEnd - off := if_pos (by omega)
  dsimp only
  rw [hremaining, Reader.ensure_bind (by rw [decide_eq_true_eq]; omega),
    Reader.ensure_bind (by rw [decide_eq_true_eq]; omega)]
  rw [← List.append_nil (e.newTables.flatMap TableMeta.fields)] at hfit hat
  refine htables file off hf hfit hat ?_
  rw [List.append_nil, List.flatten_append, List.length_append]
  exact heq

theorem header_reads [Zlib] {e : VersionEdit} (h : e.Valid) :
    ReadsFields MANIFEST_BLOCK_SIZE EditHeader.load e.header.fields e.header := by
  have hsize := header_payloadSize h
  have hlen := length_fields e
  have hmin : decide (MIN_PAYLOAD_SIZE ≤ e.header.payloadSize.toNat) = true := by
    rw [decide_eq_true_eq]
    omega
  have hmax : decide (e.header.payloadSize.toNat ≤ MANIFEST_MAX_EDIT_SIZE) = true := by
    rw [decide_eq_true_eq, hsize]
    exact h.size_le
  exact (manU32 e.header.crc32).cons ((manU32 e.header.payloadSize).cons
    (.guard hmin (.guard hmax (readsFields_pure e.header))))

section

variable [Zlib] {e : VersionEdit} {file : ReadableFile} {off : Nat}

/-- An edit that stands in the file without padding is read back. -/
theorem load_record (h : e.Valid) (hf : file.Sound) (hfit : FitsAt MANIFEST_BLOCK_SIZE off e.record)
    (hat : At file.bytes off e.record.flatten) :
    VersionEdit.load file off file.bytes.length = .ok (e, off + e.record.flatten.length) := by
  have hlen := length_record e
  have hhl := length_header_fields e.header
  have hsize := header_payloadSize h
  have hend := hat.end_le (record_ne_nil e)
  obtain ⟨hfh, hff⟩ := (fitsAt_append _ _ _).mp hfit
  have hat' : At file.bytes off (e.header.fields.flatten ++ e.fields.flatten) := by
    rw [← List.flatten_append]
    exact hat
  have hhead := header_reads h file off hf hfh hat'.left
  have hpay : loadPayload e.header.payloadSize file (off + e.header.fields.flatten.length) =
      .ok (e, off + e.record.flatten.length) := by
    have hrest := loadPayloadTo_reads h (off + e.record.flatten.length) file _ hf hff hat'.right
      (by rw [hlen, hhl, Nat.add_assoc])
    have hmin := length_fields e
    rw [loadPayload, Reader.ensure_bind (by
      rw [decide_eq_true_eq, hsize]
      exact ⟨by omega, h.size_le⟩), Reader.bind_ok (Reader.offset_apply file _), hsize, Nat.add_assoc, hhl,
        ← hlen]
    rw [hhl] at hrest
    exact hrest
  rw [VersionEdit.load, if_neg (by omega), hhead]
  simp only
  rw [if_neg (by omega), hpay]
  simp only [computeCrc32_ok h]
  exact if_neg fun hn => hn rfl

/-- An edit cut before its end is an unexpected end of file. -/
theorem load_cut (h : e.Valid) (hf : file.Sound) (hfit : FitsAt MANIFEST_BLOCK_SIZE off e.record)
    (hle : off ≤ file.bytes.length) (hpre : file.bytes.drop off <+: e.record.flatten)
    (hlt : file.bytes.length < off + e.record.flatten.length) :
    ∃ message, VersionEdit.load file off file.bytes.length = .error ⟨.unexpectedEOF, message⟩ := by
  have hlen := length_record e
  have hhl := length_header_fields e.header
  rw [VersionEdit.load]
  by_cases hshort : file.bytes.length - off < EditHeader.diskSize
  · rw [if_pos (by omega)]
    exact ⟨_, rfl⟩
  · -- the header is whole, and declares more than is there
    obtain ⟨hfh, -⟩ := (fitsAt_append _ _ _).mp hfit
    have hhead : At file.bytes off e.header.fields.flatten := by
      have hrec : e.header.fields.flatten <+: e.record.flatten := by
        rw [record, List.flatten_append]
        exact List.prefix_append _ _
      refine List.prefix_of_prefix_length_le hrec hpre ?_
      rw [List.length_drop]
      omega
    have hread := header_reads h file off hf hfh hhead
    rw [if_neg (by omega), hread]
    simp only
    rw [if_pos (by rw [header_payloadSize h]; omega)]
    exact ⟨_, rfl⟩

end

end VersionEdit

end Kvdb
