import Kvdb.SSTable.RoundTrip

/-!
# Point lookups in a table

`SSTable::get` (`core/engine/sstable.cpp`): the index gives the first block whose range
can have the key, and the block is searched, which validates it when it is used for the
first time.  Only this one block is looked at.

    find_first_candidate  →  find_first_record  →  read_record

On a table that was written this is the search through all of its records
(`gets_first_record`).
-/

namespace Kvdb

open Faulty Bytes DataSection DataSectionView

namespace DataSectionView

/-- An operation of the block at the index. -/
def onBlock {α : Type} (blockIndex : Nat) (m : Prog DataBlock Status α) : Prog LoadedTable Status α := fun t =>
  match t.dataSectionView.dataBlocks[blockIndex]? with
  | none => (.err ⟨.invalidArgument, "data block index lies outside DataSectionView"⟩, t)
  | some b =>
    match m b with
    | (r, b') =>
      (r, { t with dataSectionView :=
        { t.dataSectionView with dataBlocks := t.dataSectionView.dataBlocks.set blockIndex b' } })

end DataSectionView

namespace SSTable

variable [Zlib]

/-- `SSTable::get` of a loaded table, on its open file. -/
def get (file : ReadableFile) (key : ArenaEntry) : Prog LoadedTable Status (Option StoredRecord) := do
  let t ← Faulty.get
  let blockIndex ← lift (t.indexSection.findFirstCandidate key)
  ensure (decide (blockIndex < t.dataSectionView.dataBlocks.length))
    ⟨.corruption, "index points outside the SSTable data section"⟩
  let recordIndex ← onBlock blockIndex (DataBlock.findFirstRecord file key)
  match recordIndex with
  | none => pure none
  | some i => do
    let record ← onBlock blockIndex (DataBlock.readRecord file i)
    pure (some record)

/-- Lookups one after the other: how each of them ends. -/
def gets (file : ReadableFile) : List ArenaEntry → LoadedTable → List (Outcome Status (Option StoredRecord))
  | [], _ => []
  | key :: keys, t => (get file key t).1 :: gets file keys (get file key t).2

/-! ## The candidate block -/

omit [Zlib]

/-- All records of the block have smaller keys. -/
def endsBelow (key : ArenaEntry) (b : List Payload) : Bool :=
  match b.getLast? with
  | none => false
  | some p => decide (p.key < key)

/-- In an ordered block no key is greater than the last one. -/
theorem key_le_last {b : List Payload} (h : b.Pairwise Precedes) {last p : Payload} (hlast : b.getLast? = some last)
    (hp : p ∈ b) : p.key ≤ last.key := by
  obtain ⟨init, rfl⟩ := List.getLast?_eq_some_iff.mp hlast
  rcases List.mem_append.mp hp with hp | hp
  · exact precedes_key ((List.pairwise_append.mp h).2.2 p hp last (List.mem_singleton_self last))
  · rw [List.mem_singleton.mp hp]

theorem head_le_key {b : List Payload} (h : b.Pairwise Precedes) {first p : Payload} (hfirst : b.head? = some first)
    (hp : p ∈ b) : first.key ≤ p.key := by
  obtain ⟨rest, rfl⟩ := List.head?_eq_some_iff.mp hfirst
  rcases List.mem_cons.mp hp with rfl | hp
  · exact le_refl _
  · exact precedes_key ((List.pairwise_cons.mp h).1 p hp)

/-- The first record with a key is in the first block that does not end below it. -/
theorem find?_blocks {blocks : List (List Payload)} (h : Packed blocks blocks.flatten) (key : ArenaEntry) :
    blocks.flatten.find? (keyIs key) =
      blocks[(blocks.takeWhile (endsBelow key)).length]?.bind (List.find? (keyIs key)) := by
  have hlast : ∀ b ∈ blocks, ∃ last, b.getLast? = some last := fun b hb =>
    ⟨_, List.getLast?_eq_some_getLast (h.ne b hb)⟩
  obtain ⟨hblocks, hpairs⟩ := List.pairwise_flatten.mp h.ordered
  refine LowerBound.find?_flatten ?_ ?_
  · intro b hb hends p hp
    obtain ⟨last, hl⟩ := hlast b hb
    unfold endsBelow at hends
    rw [hl] at hends
    have hlt : last.key < key := of_decide_eq_true hends
    exact decide_eq_false (ne_of_lt (lt_of_le_of_lt (key_le_last (hblocks b hb) hl hp) hlt))
  · refine hpairs.imp_of_mem fun {b c} hb hc hbc hends p hp hkey => ?_
    obtain ⟨last, hl⟩ := hlast b hb
    have hmem : last ∈ b := List.mem_of_getLast? hl
    unfold endsBelow at hends
    rw [hl] at hends
    have hge : key ≤ last.key := not_lt.mp (of_decide_eq_false hends)
    have hle : last.key ≤ key := (of_decide_eq_true hkey) ▸ precedes_key (hbc last hmem p hp)
    exact ⟨last, hmem, decide_eq_true (le_antisymm hle hge)⟩

/-- The entries of the index end where their blocks do. -/
theorem takeWhile_blockEntries {blocks : List (List Payload)} (h : ∀ b ∈ blocks, b ≠ []) (off : Nat)
    (key : ArenaEntry) :
    ((blockEntries off blocks).takeWhile (IndexSection.endsBefore key)).length =
      (blocks.takeWhile (endsBelow key)).length := by
  induction blocks generalizing off with
  | nil => rfl
  | cons b bs ih =>
    obtain ⟨first, last, -, hlast, hkeys⟩ := exists_blockKeys (h b List.mem_cons_self)
    have hrest := ih (fun c hc => h c (List.mem_cons_of_mem b hc)) (off + BLOCK_SIZE)
    have hsame : IndexSection.endsBefore key ⟨UInt64.ofNat off, first.key, last.key⟩ = endsBelow key b := by
      rw [Bool.eq_iff_iff, IndexSection.endsBefore_iff, endsBelow, hlast]
      exact decide_eq_true_iff.symm
    rw [blockEntries, blockEntry, hkeys, List.singleton_append, List.takeWhile_cons, List.takeWhile_cons, hsame]
    cases endsBelow key b with
    | true => exact congrArg Nat.succ hrest
    | false => rfl

/-- The position of the first record with the key, and the record. -/
theorem findIdx?_record (ps : List Payload) (key : ArenaEntry) :
    match ps.findIdx? (keyIs key) with
    | none => ps.find? (keyIs key) = none
    | some i => ∃ p, ps[i]? = some p ∧ ps.find? (keyIs key) = some p := by
  cases hfind : ps.findIdx? (keyIs key) with
  | none =>
    rw [List.findIdx?_eq_none_iff] at hfind
    exact List.find?_eq_none.mpr fun p hp => by rw [hfind p hp]; exact Bool.false_ne_true
  | some i =>
    obtain ⟨hi, hkey, hbefore⟩ := List.findIdx?_eq_some_iff_getElem.mp hfind
    refine ⟨ps[i], List.getElem?_eq_getElem hi, ?_⟩
    exact List.find?_eq_some_iff_getElem.mpr ⟨hkey, i, hi, rfl, fun j hj => by simpa using hbefore j hj⟩

/-! ## Lookups -/

/-- How the lookup of a key in these records has to end. -/
def Finds (ps : List Payload) (key : ArenaEntry) : Outcome Status (Option StoredRecord) → Prop
  | .ok (some r) => ∃ p, ps.find? (keyIs key) = some p ∧ r = p.record ∧
      ∀ q ∈ ps, q.key = key → q.seqNum.toNat ≤ p.seqNum.toNat
  | .ok none => ∀ p ∈ ps, p.key ≠ key
  | .err e => e.code = .notFound ∧ ∀ p ∈ ps, p.key ≠ key
  | .crash => False

theorem find?_none_iff {ps : List Payload} {key : ArenaEntry} :
    ps.find? (keyIs key) = none ↔ ∀ p ∈ ps, p.key ≠ key := by
  rw [List.find?_eq_none]
  refine forall₂_congr fun p _ => not_congr ?_
  rw [keyIs, decide_eq_true_eq]

/-- The first record with a key is the newest one. -/
theorem find?_newest {ps : List Payload} (h : ps.Pairwise Precedes) {key : ArenaEntry} {p : Payload}
    (hp : ps.find? (keyIs key) = some p) : ∀ q ∈ ps, q.key = key → q.seqNum.toNat ≤ p.seqNum.toNat := by
  obtain ⟨hkey, front, rest, rfl, hfront⟩ := List.find?_eq_some_iff_append.mp hp
  have hkey : p.key = key := of_decide_eq_true hkey
  intro q hq hqkey
  rcases List.mem_append.mp hq with hq | hq
  · have hnot := hfront q hq
    rw [keyIs, hqkey] at hnot
    simp at hnot
  · rcases List.mem_cons.mp hq with rfl | hq
    · exact Nat.le_refl _
    · rcases (List.pairwise_cons.mp (List.pairwise_append.mp h).2.1).1 q hq with hlt | ⟨-, hseq⟩
      · exact absurd hlt (by rw [hkey, hqkey]; exact lt_irrefl key)
      · exact hseq.le

variable [Zlib]

/-- A loaded table over these blocks, some of which lookups have validated. -/
structure Served (file : ReadableFile) (blocks : List (List Payload)) (t : LoadedTable) : Prop where
  packed : Packed blocks blocks.flatten
  index : ∃ off, t.indexSection.payloads = blockEntries off blocks
  sequence : IndexSection.Sequence t.indexSection.payloads
  count : t.dataSectionView.dataBlocks.length = blocks.length
  block : ∀ (i : Nat) (b : List Payload), blocks[i]? = some b → ∃ off h db, Discovered file off h ∧
    Framed file h b ∧
    t.dataSectionView.dataBlocks[i]? = some db ∧ (db = { headerView := h } ∨ db = validated h b)

variable {file : ReadableFile} {blocks : List (List Payload)} {t : LoadedTable}

/-- The first operation on a block validates it. -/
theorem validate_served (hf : file.Sound) {off : Nat} {h : DataSectionView.Header} {b : List Payload}
    (hd : Discovered file off h) (hp : Framed file h b) (hcan : ∀ p ∈ b, Canonical p) (hpw : b.Pairwise Precedes)
    {db : DataSectionView.DataBlock} (hdb : db = { headerView := h } ∨ db = validated h b) :
    DataBlock.validate file db = (.ok (), validated h b) := by
  rcases hdb with rfl | rfl
  · exact validate_framed hf hd hp hcan hpw
  · rfl

theorem Served.set (h : Served file blocks t) {i : Nat} {b : List Payload} (hi : blocks[i]? = some b) {off : Nat}
    {hv : DataSectionView.Header} (hd : Discovered file off hv) (hp : Framed file hv b) :
    Served file blocks { t with dataSectionView :=
      { t.dataSectionView with dataBlocks := t.dataSectionView.dataBlocks.set i (validated hv b) } } := by
  refine ⟨h.packed, h.index, h.sequence, by rw [List.length_set]; exact h.count, ?_⟩
  intro j c hj
  by_cases hij : i = j
  · subst hij
    have hbc : b = c := Option.some.inj (hi.symm.trans hj)
    subst hbc
    have hlt : i < t.dataSectionView.dataBlocks.length := h.count ▸ (List.getElem?_eq_some_iff.mp hi).1
    exact ⟨off, hv, _, hd, hp, List.getElem?_set_self hlt, .inr rfl⟩
  · obtain ⟨off', hv', db, hd', hp', hdb, hstate⟩ := h.block j c hj
    exact ⟨off', hv', db, hd', hp', by rw [List.getElem?_set_ne hij]; exact hdb, hstate⟩

omit [Zlib] in
theorem onBlock_eq {α : Type} {i : Nat} {db db' : DataSectionView.DataBlock}
    {m : Prog DataSectionView.DataBlock Status α}
    {r : Outcome Status α} (hdb : t.dataSectionView.dataBlocks[i]? = some db) (hm : m db = (r, db')) :
    onBlock i m t = (r, { t with dataSectionView :=
      { t.dataSectionView with dataBlocks := t.dataSectionView.dataBlocks.set i db' } }) := by
  unfold onBlock
  rw [hdb]
  dsimp only
  rw [hm]

/-- Which block the index names for a key. -/
theorem Served.findFirstCandidate (h : Served file blocks t) (key : ArenaEntry) :
    (∃ i b, t.indexSection.findFirstCandidate key = .ok i ∧ blocks[i]? = some b ∧
      blocks.flatten.find? (keyIs key) = b.find? (keyIs key)) ∨
    ∃ e, t.indexSection.findFirstCandidate key = .error e ∧ e.code = .notFound ∧
      blocks.flatten.find? (keyIs key) = none := by
  obtain ⟨off, hentries⟩ := h.index
  have hfirst := find?_blocks h.packed key
  rw [← takeWhile_blockEntries h.packed.ne off key, ← hentries] at hfirst
  have hlength : t.indexSection.payloads.length = blocks.length := by
    rw [hentries]
    exact length_blockEntries h.packed.ne off
  have hend : (t.indexSection.payloads.takeWhile (IndexSection.beginsUpTo key)).length ≤
      t.indexSection.payloads.length :=
    (List.takeWhile_prefix _).length_le
  unfold IndexSection.findFirstCandidate
  rw [IndexSection.findCandidateRange_eq h.sequence key]
  by_cases hlt : (t.indexSection.payloads.takeWhile (IndexSection.endsBefore key)).length <
      (t.indexSection.payloads.takeWhile (IndexSection.beginsUpTo key)).length
  · left
    rw [if_pos hlt]
    have hin : (t.indexSection.payloads.takeWhile (IndexSection.endsBefore key)).length < blocks.length := by omega
    rw [List.getElem?_eq_getElem hin] at hfirst
    exact ⟨_, _, rfl, List.getElem?_eq_getElem hin, hfirst⟩
  · right
    rw [if_neg hlt]
    refine ⟨_, rfl, rfl, find?_none_iff.mpr fun p hp hkey => ?_⟩
    -- the range of its block would contain the key
    obtain ⟨b, hb, hpb⟩ := List.mem_flatten.mp hp
    obtain ⟨i, hi⟩ := List.mem_iff_getElem?.mp hb
    obtain ⟨first, last, hhead, hlast, hentry⟩ := blockEntries_get h.packed.ne off hi
    have hpw : b.Pairwise Precedes := (List.pairwise_flatten.mp h.packed.ordered).1 b hb
    have hcontains : IndexSection.Payload.Contains ⟨UInt64.ofNat (off + i * BLOCK_SIZE), first.key, last.key⟩ key :=
      hkey ▸ ⟨head_le_key hpw hhead hpb, key_le_last hpw hlast hpb⟩
    rw [← hentries] at hentry
    have hrange := (h.sequence.contains_iff hentry).mp hcontains
    omega

/-- **One lookup** ends as the search through all records has to, and the table stays one over the same blocks. -/
theorem get_served (hf : file.Sound) (h : Served file blocks t) (key : ArenaEntry) :
    Finds blocks.flatten key (get file key t).1 ∧ Served file blocks (get file key t).2 := by
  unfold get
  rw [bind_ok (get_apply t)]
  rcases h.findFirstCandidate key with ⟨i, b, hcandidate, hi, hfind⟩ | ⟨e, herr, hcode, hnone⟩
  · obtain ⟨off, hv, db, hd, hp, hdb, hstate⟩ := h.block i b hi
    have hb := List.mem_of_getElem? hi
    have hpw : b.Pairwise Precedes := (List.pairwise_flatten.mp h.packed.ordered).1 b hb
    have hcan : ∀ p ∈ b, Canonical p := fun p hpb => h.packed.canonical p (List.mem_flatten.mpr ⟨b, hb, hpb⟩)
    have hlt : i < t.dataSectionView.dataBlocks.length := (List.getElem?_eq_some_iff.mp hdb).1
    have hval := validate_served hf hd hp hcan hpw hstate
    have hsearch : DataBlock.findFirstRecord file key db = (.ok (b.findIdx? (keyIs key)), validated hv b) := by
      have hvalid := findFirstRecord_eq hf hd hp hpw key
      unfold DataBlock.findFirstRecord at hvalid ⊢
      rw [bind_ok hval]
      exact hvalid
    have hserved := h.set hi hd hp
    rw [hcandidate, bind_ok (lift_ok _ _), bind_ok (by rw [ensure_apply, if_pos (decide_eq_true hlt)]),
      bind_ok (onBlock_eq hdb hsearch)]
    have hrecord := findIdx?_record b key
    cases hindex : b.findIdx? (keyIs key) with
    | none =>
      rw [hindex] at hrecord
      exact ⟨find?_none_iff.mp (hfind.trans hrecord), hserved⟩
    | some j =>
      rw [hindex] at hrecord
      obtain ⟨p, hj, hfound⟩ := hrecord
      have hread := readRecord_eq hf hd hp hj
      have hset : (t.dataSectionView.dataBlocks.set i (validated hv b))[i]? = some (validated hv b) :=
        List.getElem?_set_self hlt
      dsimp only
      rw [bind_ok (onBlock_eq hset hread)]
      exact ⟨⟨p, hfind.trans hfound, rfl, find?_newest h.packed.ordered (hfind.trans hfound)⟩,
        hserved.set hi hd hp⟩
  · rw [herr, bind_err (lift_error _ _)]
    exact ⟨⟨hcode, find?_none_iff.mp hnone⟩, h⟩

theorem gets_served (hf : file.Sound) (h : Served file blocks t) (keys : List ArenaEntry) :
    List.Forall₂ (Finds blocks.flatten) keys (gets file keys t) := by
  induction keys generalizing t with
  | nil => exact .nil
  | cons key keys ih =>
    obtain ⟨hfinds, hserved⟩ := get_served hf h key
    exact .cons hfinds (ih hserved)

/-! ## Written tables -/

theorem views_get {blocks : List (List Payload)} (off : Nat) {i : Nat} {b : List Payload} (hi : blocks[i]? = some b) :
    (views off blocks)[i]? = some { headerView := viewAt (off + i * BLOCK_SIZE) (derivedHeader b) } := by
  induction blocks generalizing off i with
  | nil => cases hi
  | cons c cs ih =>
    cases i with
    | zero =>
      cases hi
      rw [Nat.zero_mul, Nat.add_zero]
      rfl
    | succ i =>
      have hrest := ih (off + BLOCK_SIZE) hi
      rw [Nat.succ_mul, Nat.add_comm (i * BLOCK_SIZE), ← Nat.add_assoc]
      exact hrest

/-- Whatever a load of an image gives, has the index and the blocks of the table. -/
theorem Image.loaded [LawfulZlib] (hf : file.Sound) {footerOffset : Nat} (h : Image file t footerOffset)
    {s s' : LoadState} {loaded : LoadedTable} (hload : loadSections file s = (.ok loaded, s')) :
    loaded.dataSectionView = t.dataSectionView ∧ loaded.indexSection = t.indexSection := by
  obtain ⟨footerOffset', hi⟩ := loadSections_ok hload
  obtain ⟨cursor, hfooter⟩ := hi.footer
  rw [FileFooterSection.load_at hf h.size h.footerSealed h.layout h.footerAt 0] at hfooter
  have hsame : t.fileFooterSection = loaded.fileFooterSection := congrArg Prod.fst (Except.ok.inj hfooter)
  obtain ⟨viewCursor, hview⟩ := h.view_load hf
  obtain ⟨viewCursor', hview'⟩ := hi.blocks
  obtain ⟨totalKeyBytes, hindex'⟩ := hi.index
  have hlt := h.lt
  have hsize := h.size
  obtain ⟨total, hindex, -⟩ := IndexSection.readSection_at hf h.sequence h.layout.index h.indexAt (by omega)
  rw [← hsame, hview] at hview'
  rw [← hsame, hindex, ← h.index] at hindex'
  exact ⟨(congrArg Prod.fst (Except.ok.inj hview')).symm, (congrArg Prod.fst (Except.ok.inj hindex')).symm⟩

theorem Written.served [LawfulZlib] (hf : file.Sound) {t t' : SSTable} (h : Written t t')
    (hbytes : file.bytes = t'.image)
    {s s' : LoadState} {loaded : LoadedTable} (hload : loadSections file s = (.ok loaded, s')) :
    Served file t.dataBlocks loaded := by
  obtain ⟨hview, hindex⟩ := (h.image hbytes).loaded hf hload
  have hentries : t'.indexSection.payloads = blockEntries (aligned FileHeaderSection.diskSize) t.dataBlocks := by
    rw [h.index]
    rfl
  refine ⟨h.packed, ⟨_, by rw [hindex]; exact hentries⟩, by rw [hindex]; exact h.sequence, ?_, ?_⟩
  · rw [hview]
    show (views _ t'.dataBlocks).length = _
    rw [length_views, h.blocks]
  · intro i b hi
    obtain ⟨hd, hp⟩ := h.blocksAt hbytes i b hi
    refine ⟨_, _, _, hd, hp, ?_, .inl rfl⟩
    rw [hview]
    show (views _ t'.dataBlocks)[i]? = _
    rw [h.blocks]
    exact views_get _ hi

/-- **Point lookups.**  Lookups in a loaded table that was written, in any number and order, each end as the search
through its records: with the first record that has the key, which is the newest, or with nothing or `NotFound` exactly
when there is none. -/
theorem gets_first_record [LawfulZlib] {calls : TableCalls} {t t' : SSTable} {w w' : Writer Status} (hw : w.Synced)
    (ho : w.offset = 0) (hwrite : t.write calls w = (.ok t', w')) (hf : file.Sound) (hbytes : file.bytes = w'.bytes)
    {path : List UInt8} {s s' : LoadState} {loaded : LoadedTable}
    (hload : SSTable.load path (.ok file) s = (.ok loaded, s')) (keys : List ArenaEntry) :
    List.Forall₂ (Finds t.dataBlocks.flatten) keys (gets file keys loaded) := by
  obtain ⟨hwritten, himage⟩ := write_ok hw ho hwrite
  obtain ⟨_, hopened, hsections⟩ := load_ok hload
  cases hopened
  exact gets_served hf (hwritten.served hf (hbytes.trans himage) hsections) keys

end SSTable

theorem gets_first_record_fourRecords : let _ := documentedZlib
    ∃ t' w' loaded s', twoBlockBuilt.write quietCalls ⟨[], 0, none, ⟨.ioError, ""⟩⟩ = (.ok t', w') ∧
      SSTable.load t'.path (.ok (.ofBytes w'.bytes "a")) freshLoad = (.ok loaded, s') ∧
      List.Forall₂ (SSTable.Finds twoBlockBuilt.dataBlocks.flatten) [.empty, .ofByte 97, .ofByte 98]
        (SSTable.gets (.ofBytes w'.bytes "a") [.empty, .ofByte 97, .ofByte 98] loaded) := by
  intro
  have := documentedZlib_lawful
  obtain ⟨t', w', s', hwrite, hload⟩ := twoBlockBuilt_loads
  have hw : (⟨[], 0, none, ⟨.ioError, ""⟩⟩ : Writer Status).Synced := rfl
  have hf : (ReadableFile.ofBytes w'.bytes "a").Sound := ReadableFile.ofBytes_sound _ "a"
  exact ⟨t', w', _, s', hwrite, hload, SSTable.gets_first_record hw rfl hwrite hf rfl hload _⟩

end Kvdb
